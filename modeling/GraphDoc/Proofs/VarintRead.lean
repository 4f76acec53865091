import GraphDoc.Proofs.Varint
/-! # Varints read from any bytes

`Varint.decode` is defined at every position of every byte array, at the end of the bytes and
past it too, and what it returns is fixed by the bytes from that position on. Among them what
counts is the run of leading bytes whose continuation flag is set (`Varint.continuing`):

* ten such bytes in a row make the varint too long: the group after them would start at
  bit 69;
* fewer, with the bytes ending inside the run, leave it truncated;
* otherwise the varint is the run and the byte after it, one to ten bytes. Its value is the
  low six bits of the first byte and seven bits of each further byte, at bits 6, 13, …, 62,
  taken modulo `2^64`, read as a signed word and negated with wrap-around when the sign flag
  is set (`Varint.valueOf`).

Main statement: `Varint.decode_eq_continuing`. The loop over the groups after the first byte
is described once, for any budget, bit and magnitude read so far, by
`Varint.readGroups_eq_continuing`; the decoder only starts it with nine groups left from bit 6,
so no group it reads starts at bit 64 or beyond. -/
namespace GraphDoc
namespace Varint

/-- Whether a byte asks for another: its continuation flag `0x80` is set. -/
def continues (b : UInt8) : Bool := b &&& 0x80 != 0

/-- The number of bytes at the front that ask for another. -/
def continuing (l : List UInt8) : Nat := (l.takeWhile continues).length

/-- The bits that groups put into a magnitude: seven from each byte, the first group at bit
`shift` and each next one seven bits higher. -/
def groupBits (shift : Nat) : List UInt8 → Nat
  | [] => 0
  | b :: bs => (b &&& 0x7F).toNat * 2 ^ shift + groupBits (shift + 7) bs

/-- The value of the bytes of a varint: the low six bits of the first byte and the groups of the
others from bit 6 on, modulo `2^64`, as a signed word; negated with wrap-around when the sign
flag `0x40` of the first byte is set. -/
def valueOf : List UInt8 → Int64
  | [] => 0
  | first :: rest =>
    let v := (UInt64.ofNat ((first &&& 0x3F).toNat + groupBits 6 rest)).toInt64
    if first &&& 0x40 == 0 then v else -v

theorem continues_eq (b : UInt8) : continues b = !(b &&& 0x80 == 0) := rfl

theorem continuing_nil : continuing [] = 0 := rfl

theorem continuing_cons (b : UInt8) (l : List UInt8) :
    continuing (b :: l) = if continues b then continuing l + 1 else 0 := by
  by_cases h : continues b <;> simp [continuing, h]

/-- The byte at a position heads the bytes from there on. -/
theorem getElem?_eq_head?_drop (bytes : ByteArray) (pos : Nat) :
    bytes[pos]? = (bytes.data.toList.drop pos).head? := by
  rw [byteArray_getElem?, List.head?_drop]

/-- A natural number taken as a signed word is its low 64 bits reinterpreted. -/
theorem ofInt_natCast (a : Nat) : Int64.ofInt (a : Int) = (UInt64.ofNat a).toInt64 := by
  apply Int64.toBitVec_inj.mp
  apply BitVec.eq_of_toNat_eq
  simp [Int64.toBitVec_ofInt]

theorem ofNat_mod (a : Nat) : UInt64.ofNat (a % 2 ^ 64) = UInt64.ofNat a := by
  apply UInt64.toNat_inj.mp
  simp

/-- **The loop over groups, in one equation.** With `budget` bytes allowed, the next group at
bit `shift` and `mag` read so far, the loop fails as too long when the run of continuing bytes
at `pos` uses up the budget, as truncated when the bytes end inside that run, and otherwise adds
the groups of the run and of the byte after it. -/
theorem readGroups_eq_continuing (bytes : ByteArray) : ∀ budget pos shift mag,
    readGroups bytes budget pos shift mag =
      let l := bytes.data.toList.drop pos
      if budget ≤ continuing l then .error .tooLong
      else if l.length ≤ continuing l then .error .truncated
      else .ok ((mag + groupBits shift (l.take (continuing l + 1))) % 2 ^ 64,
        pos + (continuing l + 1))
  | 0, pos, shift, mag => by simp [readGroups]
  | budget + 1, pos, shift, mag => by
    have hget := getElem?_eq_head?_drop bytes pos
    have hnext : bytes.data.toList.drop (pos + 1) = (bytes.data.toList.drop pos).tail := by
      rw [List.tail_drop]
    rw [readGroups]
    cases hl : bytes.data.toList.drop pos with
    | nil => simp [hget, hl, continuing_nil]
    | cons b l =>
      rw [hl] at hget hnext
      simp only [hget, List.head?_cons, continuing_cons, continues_eq, Nat.pow_eq]
      by_cases hb : (b &&& 0x80 == 0) = true
      · simp [hb, groupBits]
      · -- the rest of the run starts one byte later, one group higher
        rw [readGroups_eq_continuing bytes budget (pos + 1) (shift + 7), hnext]
        simp only [hb, Bool.not_false, if_true, List.length_cons, List.tail_cons,
          Bool.false_eq_true, if_false, Nat.add_le_add_iff_right, List.take_succ_cons, groupBits,
          Nat.mod_add_mod, Nat.add_assoc]
        rw [show 1 + (continuing l + 1) = continuing l + (1 + 1) by omega]

/-- **What a varint reads to, from any position of any bytes.** Let `l` be the bytes from `pos`
on. Ten or more bytes at its front asking for another are too long; fewer, with nothing after
them, are truncated (also when `l` is empty); otherwise the varint is those bytes and the one
after them, between one and ten bytes, and its value is `valueOf` of them: the groups of the at
most nine bytes after the first land at bits 6, 13, …, 62. -/
theorem decode_eq_continuing (bytes : ByteArray) (pos : Nat) :
    decode bytes pos =
      let l := bytes.data.toList.drop pos
      if 10 ≤ continuing l then .error .tooLong
      else if l.length ≤ continuing l then .error .truncated
      else .ok (valueOf (l.take (continuing l + 1)), pos + (continuing l + 1)) := by
  have hget := getElem?_eq_head?_drop bytes pos
  have hnext : bytes.data.toList.drop (pos + 1) = (bytes.data.toList.drop pos).tail := by
    rw [List.tail_drop]
  rw [decode]
  cases hl : bytes.data.toList.drop pos with
  | nil => simp [hget, hl, continuing_nil]
  | cons first l =>
    rw [hl] at hget hnext
    simp only [hget, List.head?_cons, continuing_cons, continues_eq]
    by_cases hb : (first &&& 0x80 == 0) = true
    · simp [hb, valueOf, groupBits, ofInt_natCast]
    · rw [readGroups_eq_continuing, hnext]
      simp only [hb, Bool.not_false, if_true, List.length_cons, List.tail_cons,
        Bool.false_eq_true, if_false, Nat.add_le_add_iff_right, List.take_succ_cons]
      -- the groups after the first byte have a budget of nine: one less than the whole run
      by_cases hlong : 9 ≤ continuing l
      · simp [hlong, Except.map, show 10 ≤ continuing l + 1 by omega]
      · by_cases hend : l.length ≤ continuing l
        · simp [hlong, hend, Except.map, show ¬ 10 ≤ continuing l + 1 by omega]
        · simp only [hlong, hend, if_false, Except.map, show ¬ 10 ≤ continuing l + 1 by omega,
            Except.ok.injEq, Prod.mk.injEq, ofInt_natCast, ofNat_mod]
          exact ⟨rfl, by omega⟩

example : decode ⟨#[0x80]⟩ 0 = .error .truncated := by decide

example : decode ⟨#[0xC8, 0x03, 0x2A]⟩ 0 = .ok (-200, 2) := by decide

end Varint
end GraphDoc
