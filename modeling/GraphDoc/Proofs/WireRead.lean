import GraphDoc.Wire.Read
import GraphDoc.Wire.Write
import GraphDoc.Proofs.Varint
import GraphDoc.Proofs.Plant
/-! # Reading chunks back

The binary reader is a state monad over a position in a fixed byte array. This module says
what it reads from the bytes the writer produced: `Reads bytes r enc a` holds when `r`, started
where the list `enc` stands in `bytes`, returns `a` and stops right after `enc`. Readers built
with `>>=` read the concatenation of what their parts read (`Reads.bind`), so each reader of
`Wire.Reader` gets one lemma, and the chunk of a walk is read back by induction on the walk.

* Strings, counts, words and varints read back (`string_reads`, `count_reads`, `word_reads`,
  `varint_reads`), counts and string lengths being below `2^63`, as for anything in memory.
* A real array written with four bytes an element reads back bit for bit: the writer takes
  that path only when every element survives the trip through 32 bits as a number, and then it
  survives it as a pattern (`Binary64.toBinary32_toBinary64_of_ieeeEq`).
* The chunk of a walk reads back as `Shape.written`: no lines, no links, only the UIDs the
  writer declared, a structure reached again as its UID and a list reached again as an empty
  list of its tag (`value_reads`).
-/
namespace GraphDoc

/-! ## Reals through 32 bits -/

namespace Binary64

theorem eq_of_bits {x y : Binary64} (h : x.bits = y.bits) : x = y := by
  cases x; cases y; simp_all

theorem isZero_iff (x : Binary64) :
    x.isZero = true ↔ x.bits.toNat = 0 ∨ x.bits.toNat = 2 ^ 63 := by
  have hlt := x.bits.toNat_lt
  have hmask : (0x7FFFFFFFFFFFFFFF : UInt64).toNat = 2 ^ 63 - 1 := rfl
  simp only [isZero, beq_iff_eq, ← UInt64.toNat_inj, UInt64.toNat_and, hmask,
    Nat.and_two_pow_sub_one_eq_mod, UInt64.toNat_zero]
  omega

theorem zero_toBinary32_toBinary64 : (⟨0⟩ : Binary64).toBinary32.toBinary64 = ⟨0⟩ := by
  decide

theorem negZero_toBinary32_toBinary64 :
    (⟨0x8000000000000000⟩ : Binary64).toBinary32.toBinary64 = ⟨0x8000000000000000⟩ := by
  decide

/-- **A real equal as a number to its trip through 32 bits is equal to it as a pattern**: a NaN
is equal to nothing, and the only values equal as numbers with other patterns are the zeros,
which keep their sign on the trip. -/
theorem toBinary32_toBinary64_of_ieeeEq {x : Binary64}
    (h : x.toBinary32.toBinary64.ieeeEq x = true) : x.toBinary32.toBinary64 = x := by
  simp only [ieeeEq, Bool.and_eq_true, Bool.not_eq_true', Bool.or_eq_true, beq_iff_eq] at h
  obtain ⟨-, hbits | ⟨-, hx⟩⟩ := h
  · exact eq_of_bits hbits
  · rcases (isZero_iff x).1 hx with h0 | h0
    · obtain rfl : x = ⟨0⟩ := eq_of_bits (UInt64.toNat_inj.1 h0)
      exact zero_toBinary32_toBinary64
    · obtain rfl : x = ⟨0x8000000000000000⟩ := eq_of_bits (UInt64.toNat_inj.1 h0)
      exact negZero_toBinary32_toBinary64

end Binary64

/-! ## What binary keeps of a tree -/

/-- A scalar as binary keeps it: a UID reference loses its link. -/
def Scalar.unlinked : Scalar → Scalar
  | .uid name _ => .uid name none
  | s => s

/-- A length the binary format writes as a count: below `2^63`, as the length of anything
held in memory is. -/
def CountFits (n : Nat) : Bool := n < 2 ^ 63

namespace Tree

mutual
/-- The tree without its source lines and without the links of its UID references. -/
def bare : Tree → Tree
  | .scalar s _ => .scalar s.unlinked 0
  | .struct tag uid _ pairs => .struct tag uid 0 (barePairs pairs)
  | .list tag _ items => .list tag 0 (bareItems items)
  | .raw tag _ text => .raw tag 0 text
  | .ints tag _ vs => .ints tag 0 vs
  | .reals tag _ xs => .reals tag 0 xs

/-- The pairs of a bare structure. -/
def barePairs : List (String × Tree) → List (String × Tree)
  | [] => []
  | (k, t) :: rest => (k, bare t) :: barePairs rest

/-- The items of a bare list. -/
def bareItems : List Tree → List Tree
  | [] => []
  | t :: rest => bare t :: bareItems rest
end

mutual
/-- The tree with the UID `u` of every structure for which `drop u` holds replaced by
`#NULL`. -/
def dropUids (drop : String → Bool) : Tree → Tree
  | .struct tag uid line pairs =>
    .struct tag (if drop uid then nullUid else uid) line (dropUidsPairs drop pairs)
  | .list tag line items => .list tag line (dropUidsItems drop items)
  | t => t

/-- `dropUids` on the values of pairs. -/
def dropUidsPairs (drop : String → Bool) : List (String × Tree) → List (String × Tree)
  | [] => []
  | (k, t) :: rest => (k, dropUids drop t) :: dropUidsPairs drop rest

/-- `dropUids` on items. -/
def dropUidsItems (drop : String → Bool) : List Tree → List Tree
  | [] => []
  | t :: rest => dropUids drop t :: dropUidsItems drop rest
end

mutual
theorem dropUids_false : ∀ t : Tree, t.dropUids (fun _ => false) = t
  | .scalar .. | .raw .. | .ints .. | .reals .. => rfl
  | .struct _ _ _ pairs => by simp [dropUids, dropUidsPairs_false pairs]
  | .list _ _ items => by simp [dropUids, dropUidsItems_false items]

theorem dropUidsPairs_false : ∀ ps : List (String × Tree), dropUidsPairs (fun _ => false) ps = ps
  | [] => rfl
  | (_, t) :: rest => by simp [dropUidsPairs, dropUids_false t, dropUidsPairs_false rest]

theorem dropUidsItems_false : ∀ ts : List Tree, dropUidsItems (fun _ => false) ts = ts
  | [] => rfl
  | t :: rest => by simp [dropUidsItems, dropUids_false t, dropUidsItems_false rest]
end

mutual
/-- Every count the binary form of the tree holds fits: the byte lengths of its strings, the
numbers of pairs, items and elements of its containers, and the byte length of the varints of
an integer array. -/
def countsFit : Tree → Bool
  | .scalar (.str s) _ | .scalar (.ident s) _ | .scalar (.uid s _) _ => CountFits s.utf8ByteSize
  | .scalar _ _ => true
  | .struct tag uid _ pairs =>
    CountFits tag.utf8ByteSize && CountFits uid.utf8ByteSize && CountFits pairs.length &&
      countsFitPairs pairs
  | .list tag _ items =>
    CountFits tag.utf8ByteSize && CountFits items.length && countsFitItems items
  | .raw tag _ text => CountFits tag.utf8ByteSize && CountFits text.utf8ByteSize
  | .ints tag _ vs =>
    CountFits tag.utf8ByteSize && CountFits vs.length &&
      CountFits (vs.flatMap Varint.encode).length
  | .reals tag _ xs => CountFits tag.utf8ByteSize && CountFits xs.length

/-- Every count of the keys and values of pairs fits. -/
def countsFitPairs : List (String × Tree) → Bool
  | [] => true
  | (k, t) :: rest => CountFits k.utf8ByteSize && countsFit t && countsFitPairs rest

/-- Every count of items fits. -/
def countsFitItems : List Tree → Bool
  | [] => true
  | t :: rest => countsFit t && countsFitItems rest
end

end Tree

/-! ## What the chunks of a walk read back as -/

/-- The rawtext block or array a container is, at line 0; `none` for a structure or a list. -/
def Node.leafTree? (n : Node) : Option Tree :=
  match n.body with
  | .raw text => some (.raw n.tag 0 text)
  | .ints vs => some (.ints n.tag 0 vs)
  | .reals xs => some (.reals n.tag 0 xs)
  | _ => none

namespace Shape

mutual
/-- The tree the chunks of a walk read back as, `used` saying which UIDs the writer declared:
no lines and no links, a structure reached again as a reference to its UID and a list reached
again as an empty list of its tag. `none` when the walk met a missing container, of which the
writer writes nothing. -/
def written (used : String → Bool) : Shape → Option Tree
  | .scalar s _ => some (.scalar s.unlinked 0)
  | .struct _ tag uid _ pairs =>
    (writtenPairs used pairs).map
      (.struct tag (if uid != nullUid && used uid then uid else nullUid) 0)
  | .list _ tag _ items => (writtenItems used items).map (.list tag 0)
  | .leaf _ n => n.leafTree?
  | .again _ n =>
    match n.body with
    | .struct uid _ => some (.scalar (.uid uid none) 0)
    | _ => some (.list n.tag 0 [])
  | .missing => none

/-- The pairs the chunks of pairs read back as. -/
def writtenPairs (used : String → Bool) : List (String × Shape) → Option (List (String × Tree))
  | [] => some []
  | (k, s) :: rest => do
    let t ← written used s
    let ts ← writtenPairs used rest
    return (k, t) :: ts

/-- The items the chunks of items read back as. -/
def writtenItems (used : String → Bool) : List Shape → Option (List Tree)
  | [] => some []
  | s :: rest => do
    let t ← written used s
    let ts ← writtenItems used rest
    return t :: ts
end

end Shape

/-! ## Readers and the bytes they read -/

/-- The bytes a reader takes where `l` stands are `l`. -/
theorem BytesAt.extract_toList {bytes : ByteArray} {pos : Nat} {l : List UInt8}
    (h : BytesAt bytes pos l) : (bytes.extract pos (pos + l.length)).toList = l := by
  rw [byteArray_toList, ByteArray.data_extract, Array.toList_extract, List.extract_eq_take_drop]
  obtain ⟨t, ht⟩ := h.2
  simp [← ht]

namespace Wire
namespace Reader

/-- `r` reads `a` from the bytes `enc`, wherever they stand in `bytes`, and stops right after
them. -/
def Reads (bytes : ByteArray) (r : Reader α) (enc : List UInt8) (a : α) : Prop :=
  ∀ pos, BytesAt bytes pos enc → r.run pos = .ok (a, pos + enc.length)

variable {bytes : ByteArray}

theorem except_ok_bind {ε α β : Type} (a : α) (g : α → Except ε β) : (Except.ok a >>= g) = g a :=
  rfl

theorem Reads.pure (a : α) : Reads bytes (Pure.pure a) [] a := by
  intro pos _
  rfl

theorem Reads.bind {r : Reader α} {f : α → Reader β} {e₁ e₂ : List UInt8} {a : α} {b : β}
    (h₁ : Reads bytes r e₁ a) (h₂ : Reads bytes (f a) e₂ b) :
    Reads bytes (r >>= f) (e₁ ++ e₂) b := by
  intro pos hat
  obtain ⟨hat₁, hat₂⟩ := BytesAt.append.1 hat
  rw [StateT.run_bind, h₁ pos hat₁]
  change (f a).run (pos + e₁.length) = _
  rw [h₂ _ hat₂, List.length_append, Nat.add_assoc]

theorem Reads.of_eq {r : Reader α} {e e' : List UInt8} {a : α} (h : Reads bytes r e a)
    (he : e = e') : Reads bytes r e' a := he ▸ h

/-- A reader followed by one that reads nothing more. -/
theorem Reads.bind_pure {r : Reader α} {f : α → β} {e : List UInt8} {a : α}
    (h : Reads bytes r e a) : Reads bytes (r >>= fun x => Pure.pure (f x)) e (f a) :=
  (h.bind (Reads.pure (f a))).of_eq (List.append_nil e)

/-- A reader followed by one that reads nothing more and returns a function of what it read. -/
theorem Reads.map_eq {r : Reader α} {f : α → β} {e : List UInt8} {a : α} {b : β}
    (h : Reads bytes r e a) (hb : f a = b) : Reads bytes (r >>= fun x => Pure.pure (f x)) e b :=
  hb ▸ h.bind_pure

theorem Reads.bind_cons {r : Reader α} {f : α → Reader β} {x : UInt8} {e : List UInt8} {a : α}
    {b : β} (h₁ : Reads bytes r [x] a) (h₂ : Reads bytes (f a) e b) :
    Reads bytes (r >>= f) (x :: e) b :=
  h₁.bind h₂

theorem byte_reads (b : UInt8) : Reads bytes (byte bytes) [b] b := by
  intro pos hat
  obtain ⟨hb, -⟩ := BytesAt.cons.1 hat
  simp only [byte, StateT.run_bind, StateT.run_get, pure_bind, hb]
  rfl

theorem take_reads (l : List UInt8) : Reads bytes (take bytes l.length) l l := by
  intro pos hat
  simp only [take, StateT.run_bind, StateT.run_get, pure_bind, if_pos hat.le_size,
    hat.extract_toList]
  rfl

theorem varint_reads (v : Int64) : Reads bytes (varint bytes) (Varint.encode v) v := by
  intro pos hat
  simp only [varint, StateT.run_bind, StateT.run_get, pure_bind, Varint.decode_encode v hat]
  rfl

theorem count_reads {n : Nat} (hn : CountFits n) : Reads bytes (count bytes) (countBytes n) n := by
  simp only [CountFits, decide_eq_true_eq] at hn
  have hv : (Int64.ofInt n).toInt = n := Int64.toInt_ofInt_of_le (by omega) (by omega)
  have hpos : ¬ Int64.ofInt n < 0 := by simp [Int64.lt_iff_toInt_lt, hv]
  refine ((varint_reads (Int64.ofInt n)).bind ?_).of_eq (List.append_nil _)
  simp only [hpos, if_false, hv, Int.toNat_natCast]
  exact Reads.pure n

theorem string_reads {s : String} (hs : CountFits s.utf8ByteSize) :
    Reads bytes (string bytes) (stringBytes s) s := by
  have hlen : s.toUTF8.toList.length = s.utf8ByteSize := by simp [byteArray_toList]
  unfold string stringBytes
  refine (count_reads (by rw [hlen]; exact hs)).bind ?_
  refine ((take_reads s.toUTF8.toList).bind ?_).of_eq (List.append_nil _)
  rw [byteArray_mk_toList, show s.toUTF8 = Utf8.encode s from rfl, Utf8.decode_encode]
  exact Reads.pure s

theorem ofCode?_code (k : ChunkKind) : ChunkKind.ofCode? k.code = some k := by
  cases k <;> rfl

theorem kind_reads (k : ChunkKind) : Reads bytes (kind bytes) [k.code] k := by
  unfold kind
  refine ((byte_reads k.code).bind ?_).of_eq (List.append_nil _)
  simp only [ofCode?_code]
  exact Reads.pure k

theorem length_littleEndian (n w : Nat) : (littleEndian n w).length = n := by
  simp [littleEndian]

theorem littleEndian_succ (n w : Nat) :
    littleEndian (n + 1) w = (w % 256).toUInt8 :: littleEndian n (w / 256) := by
  rw [littleEndian, List.range_succ_eq_map, List.map_cons, List.map_map, littleEndian]
  simp only [Nat.pow_eq]
  congr 1
  · rw [Nat.mul_zero, Nat.pow_zero, Nat.div_one]
  · apply List.map_congr_left
    intro i _
    rw [Function.comp_apply, Nat.div_div_eq_div_mul, show 8 * (i + 1) = 8 + 8 * i by omega,
      Nat.pow_add]

theorem foldr_littleEndian (n w : Nat) :
    (littleEndian n w).foldr (fun b acc => acc * 256 + b.toNat) 0 = w % 2 ^ (8 * n) := by
  induction n generalizing w with
  | zero => simp [littleEndian, Nat.mod_one]
  | succ n ih =>
    rw [littleEndian_succ, List.foldr_cons, ih, show 8 * (n + 1) = 8 + 8 * n by omega,
      Nat.pow_add, Nat.mod_mul]
    simp only [Nat.toUInt8_eq, UInt8.toNat_ofNat', Nat.reducePow]
    omega

theorem word_reads (n w : Nat) :
    Reads bytes (word bytes n) (littleEndian n w) (w % 2 ^ (8 * n)) := by
  have ht : Reads bytes (take bytes n) (littleEndian n w) (littleEndian n w) := by
    simpa only [length_littleEndian] using take_reads (littleEndian n w)
  unfold word
  rw [← foldr_littleEndian]
  exact ht.bind_pure

theorem many_reads {r : Reader α} {enc : β → List UInt8} {f : β → α} :
    ∀ xs : List β, (∀ x ∈ xs, Reads bytes r (enc x) (f x)) →
      Reads bytes (many r xs.length) (xs.flatMap enc) (xs.map f)
  | [], _ => Reads.pure []
  | x :: xs, h => by
    rw [List.length_cons, many, List.flatMap_cons, List.map_cons]
    exact (h x (by simp)).bind
      (many_reads xs fun y hy => h y (by simp [hy])).bind_pure

/-! ## Chunks -/

theorem scalar_reads (sc : Scalar) (fuel : Nat)
    (hfit : (Tree.scalar sc.unlinked 0).countsFit = true) :
    Reads bytes (value bytes (fuel + 1)) (scalarChunk sc) (.scalar sc.unlinked 0) := by
  rw [value.eq_2]
  cases sc with
  | bool b =>
    refine (kind_reads .bool).bind_cons ?_
    exact (byte_reads _).map_eq (by cases b <;> rfl)
  | int n => exact (kind_reads .integer).bind_cons ((varint_reads n).map_eq rfl)
  | real x =>
    refine (kind_reads .real).bind_cons ((word_reads 8 x.bits.toNat).map_eq ?_)
    simp [Scalar.unlinked, Nat.mod_eq_of_lt x.bits.toNat_lt]
  | str s => exact (kind_reads .string).bind_cons ((string_reads hfit).map_eq rfl)
  | ident s => exact (kind_reads .identifier).bind_cons ((string_reads hfit).map_eq rfl)
  | uid name target => exact (kind_reads .uid).bind_cons ((string_reads hfit).map_eq rfl)

theorem leaf_reads (n : Node) (fuel : Nat) {t : Tree} (ht : n.leafTree? = some t)
    (hfit : t.countsFit = true) : Reads bytes (value bytes (fuel + 1)) (leafChunk n) t := by
  obtain ⟨tag, line, body⟩ := n
  rw [value.eq_2]
  cases body with
  | struct | list => simp [Node.leafTree?] at ht
  | raw text =>
    simp only [Node.leafTree?, Option.some.injEq] at ht
    subst ht
    simp only [Tree.countsFit, Bool.and_eq_true] at hfit
    exact (kind_reads .rawtext).bind_cons
      ((string_reads hfit.1).bind ((string_reads hfit.2).map_eq rfl))
  | ints vs =>
    simp only [Node.leafTree?, Option.some.injEq] at ht
    subst ht
    simp only [Tree.countsFit, Bool.and_eq_true] at hfit
    obtain ⟨⟨htag, hn⟩, hlen⟩ := hfit
    refine (kind_reads .intArray).bind_cons ?_
    simp only [List.append_eq, List.append_assoc]
    refine (string_reads htag).bind ?_
    refine (count_reads hn).bind ?_
    refine (count_reads hlen).bind ?_
    intro pos hat
    have hle := hat.le_size
    have hmany := many_reads (r := varint bytes) (f := id) vs (fun v _ => varint_reads v) pos hat
    simp only [List.map_id] at hmany
    simp only [StateT.run_bind, StateT.run_get, pure_bind]
    rw [if_neg (by omega), StateT.run_bind, hmany]
    simp only [except_ok_bind, StateT.run_bind, StateT.run_get, pure_bind, bne_self_eq_false,
      Bool.false_eq_true, if_false]
    rfl
  | reals xs =>
    simp only [Node.leafTree?, Option.some.injEq] at ht
    subst ht
    simp only [Tree.countsFit, Bool.and_eq_true] at hfit
    simp only [leafChunk]
    split
    · next h32 =>
      refine (kind_reads .realArray32).bind_cons ?_
      simp only [List.append_eq, List.append_assoc]
      refine (string_reads hfit.1).bind ?_
      refine (count_reads hfit.2).bind ?_
      refine (many_reads xs fun x _ => word_reads 4 x.toBinary32.bits.toNat).map_eq ?_
      -- every element went through 32 bits, and came back whole
      have hall : ∀ x ∈ xs, x.toBinary32.toBinary64.ieeeEq x = true := by
        simpa [fits32, List.all_eq_true] using h32
      simp only [List.map_map, Tree.reals.injEq, true_and]
      conv_rhs => rw [← List.map_id xs]
      apply List.map_congr_left
      intro x hx
      have hb : (⟨(x.toBinary32.bits.toNat % 2 ^ (8 * 4)).toUInt32⟩ : Binary32) = x.toBinary32 := by
        rw [Nat.mod_eq_of_lt x.toBinary32.bits.toNat_lt]
        simp
      simp only [Function.comp_apply, hb, id]
      exact Binary64.toBinary32_toBinary64_of_ieeeEq (hall x hx)
    · refine (kind_reads .realArray64).bind_cons ?_
      simp only [List.append_eq, List.append_assoc]
      refine (string_reads hfit.1).bind ?_
      refine (count_reads hfit.2).bind ?_
      refine (many_reads xs fun x _ => word_reads 8 x.bits.toNat).map_eq ?_
      simp only [List.map_map, Tree.reals.injEq, true_and]
      conv_rhs => rw [← List.map_id xs]
      apply List.map_congr_left
      intro x _
      simp

/-- The body of a structure chunk reads back, once its pairs do. -/
theorem structureBody_reads {fuel n : Nat} {tag uid : String} {enc : List UInt8}
    {ps : List (String × Tree)} (htag : CountFits tag.utf8ByteSize)
    (huid : CountFits uid.utf8ByteSize) (hn : CountFits n)
    (hps : Reads bytes (pairs bytes fuel n) enc ps) :
    Reads bytes (structureBody bytes fuel)
      (stringBytes tag ++ (stringBytes uid ++ (countBytes n ++ enc))) (.struct tag uid 0 ps) := by
  rw [structureBody]
  refine (string_reads htag).bind ?_
  refine (string_reads huid).bind ?_
  exact (count_reads hn).bind (hps.map_eq rfl)

theorem leafChunk_ne_nil {n : Node} {t : Tree} (h : n.leafTree? = some t) : leafChunk n ≠ [] := by
  obtain ⟨tag, line, body⟩ := n
  cases body with
  | struct | list => simp [Node.leafTree?] at h
  | raw | ints => simp [leafChunk]
  | reals xs => simp only [leafChunk]; split <;> simp

theorem values_zero (fuel : Nat) : values bytes fuel 0 = Pure.pure [] := by
  rw [values]

theorem pairs_zero (fuel : Nat) : pairs bytes fuel 0 = Pure.pure [] := by
  rw [pairs]

end Reader
end Wire

namespace Shape

theorem writtenPairs_length (used : String → Bool) :
    ∀ {ps : List (String × Shape)} {ts : List (String × Tree)},
      writtenPairs used ps = some ts → ts.length = ps.length
  | [], ts, h => by simp [writtenPairs] at h; simp [← h]
  | (k, s) :: rest, ts, h => by
    simp only [writtenPairs, Option.bind_eq_bind, Option.bind_eq_some_iff, Option.pure_def,
      Option.some.injEq] at h
    obtain ⟨t, -, ts', hrest, rfl⟩ := h
    simp [writtenPairs_length used hrest]

theorem writtenItems_length (used : String → Bool) :
    ∀ {ss : List Shape} {ts : List Tree}, writtenItems used ss = some ts → ts.length = ss.length
  | [], ts, h => by simp [writtenItems] at h; simp [← h]
  | s :: rest, ts, h => by
    simp only [writtenItems, Option.bind_eq_bind, Option.bind_eq_some_iff, Option.pure_def,
      Option.some.injEq] at h
    obtain ⟨t, -, ts', hrest, rfl⟩ := h
    simp [writtenItems_length used hrest]

end Shape

namespace Wire
namespace Reader

variable {bytes : ByteArray} (used : String → Bool)

mutual
/-- **The chunk of a walk reads back as what it wrote**: where the chunk stands, `value` reads
`Shape.written` and stops after the chunk, given fuel for as many levels as the chunk has
bytes and counts that fit. -/
theorem value_reads : ∀ (s : Shape) {t : Tree} {fuel : Nat}, s.written used = some t →
    t.countsFit = true → (chunk used s).length ≤ fuel →
    Reads bytes (value bytes fuel) (chunk used s) t
  | .scalar sc _, t, fuel, hw, hfit, hfuel => by
    simp only [Shape.written, Option.some.injEq] at hw
    subst hw
    obtain ⟨f, rfl⟩ : ∃ f, fuel = f + 1 :=
      ⟨fuel - 1, by cases sc <;> simp [chunk, scalarChunk] at hfuel <;> omega⟩
    exact scalar_reads sc f hfit
  | .struct _ tag uid _ ps, t, fuel, hw, hfit, hfuel => by
    simp only [Shape.written, chunk] at hw hfuel ⊢
    -- the UID written is the structure's own or the null UID, read back as it is
    generalize (if (uid != nullUid && used uid) = true then uid else nullUid) = u at hw hfuel ⊢
    obtain ⟨ts, hts, rfl⟩ := Option.map_eq_some_iff.1 hw
    simp only [Tree.countsFit, Bool.and_eq_true] at hfit
    obtain ⟨⟨⟨htag, huid⟩, hn⟩, hps⟩ := hfit
    simp only [List.cons_append, List.length_cons, List.length_append] at hfuel
    obtain ⟨f, rfl⟩ : ∃ f, fuel = f + 1 := ⟨fuel - 1, by omega⟩
    rw [value.eq_2]
    refine (kind_reads .struct).bind_cons ?_
    simp only [List.append_eq, List.append_assoc]
    exact structureBody_reads htag huid (Shape.writtenPairs_length used hts ▸ hn)
      (pairs_reads ps hts hps (by omega))
  | .list _ tag _ items, t, fuel, hw, hfit, hfuel => by
    obtain ⟨ts, hts, rfl⟩ := Option.map_eq_some_iff.1 hw
    simp only [Tree.countsFit, Bool.and_eq_true] at hfit
    obtain ⟨⟨htag, hn⟩, hitems⟩ := hfit
    simp only [chunk, List.cons_append, List.length_cons, List.length_append] at hfuel
    obtain ⟨f, rfl⟩ : ∃ f, fuel = f + 1 := ⟨fuel - 1, by omega⟩
    rw [value.eq_2]
    refine (kind_reads .list).bind_cons ?_
    simp only [List.append_eq, List.append_assoc]
    refine (string_reads htag).bind ?_
    refine (count_reads (Shape.writtenItems_length used hts ▸ hn)).bind ?_
    exact (values_reads items hts hitems (by omega)).map_eq rfl
  | .leaf _ n, t, fuel, hw, hfit, hfuel => by
    simp only [Shape.written] at hw
    have hpos := List.length_pos_of_ne_nil (leafChunk_ne_nil hw)
    simp only [chunk] at hfuel ⊢
    obtain ⟨f, rfl⟩ : ∃ f, fuel = f + 1 := ⟨fuel - 1, by omega⟩
    exact leaf_reads n f hw hfit
  | .again _ ⟨tag, line, body⟩, t, fuel, hw, hfit, hfuel => by
    -- a structure reached again is its UID, anything else an empty list of its tag
    cases body with
    | struct uid _ =>
      simp only [Shape.written, Option.some.injEq] at hw
      subst hw
      simp only [chunk, List.length_cons] at hfuel ⊢
      obtain ⟨f, rfl⟩ : ∃ f, fuel = f + 1 := ⟨fuel - 1, by omega⟩
      rw [value.eq_2]
      exact (kind_reads .uid).bind_cons ((string_reads hfit).map_eq rfl)
    | _ =>
      simp only [Shape.written, Option.some.injEq] at hw
      subst hw
      have htag : CountFits tag.utf8ByteSize := by
        simp only [Tree.countsFit, Bool.and_eq_true] at hfit
        exact hfit.1.1
      simp only [chunk, List.cons_append, List.length_cons] at hfuel ⊢
      obtain ⟨f, rfl⟩ : ∃ f, fuel = f + 1 := ⟨fuel - 1, by omega⟩
      rw [value.eq_2]
      refine (kind_reads .list).bind_cons ?_
      refine (string_reads htag).bind (((count_reads (n := 0) rfl).bind ?_).of_eq (List.append_nil _))
      rw [values_zero]
      exact (Reads.pure []).map_eq rfl
  | .missing, t, _, hw, _, _ => by simp [Shape.written] at hw

theorem pairs_reads : ∀ (ps : List (String × Shape)) {ts : List (String × Tree)} {fuel : Nat},
    Shape.writtenPairs used ps = some ts → Tree.countsFitPairs ts = true →
    (pairChunks used ps).length ≤ fuel →
    Reads bytes (pairs bytes fuel ps.length) (pairChunks used ps) ts
  | [], ts, fuel, hw, _, _ => by
    simp only [Shape.writtenPairs, Option.some.injEq] at hw
    subst hw
    rw [List.length_nil, pairs_zero]
    exact Reads.pure []
  | (k, s) :: rest, ts, fuel, hw, hfit, hfuel => by
    simp only [Shape.writtenPairs, Option.bind_eq_bind, Option.bind_eq_some_iff, Option.pure_def,
      Option.some.injEq] at hw
    obtain ⟨t, hs, ts', hrest, rfl⟩ := hw
    simp only [Tree.countsFitPairs, Bool.and_eq_true] at hfit
    simp only [pairChunks, List.length_append] at hfuel
    rw [List.length_cons, pairs, pairChunks, List.append_assoc]
    refine (string_reads hfit.1.1).bind ?_
    refine (value_reads s hs hfit.1.2 (by omega)).bind ?_
    exact (pairs_reads rest hrest hfit.2 (by omega)).map_eq rfl

theorem values_reads : ∀ (ss : List Shape) {ts : List Tree} {fuel : Nat},
    Shape.writtenItems used ss = some ts → Tree.countsFitItems ts = true →
    (itemChunks used ss).length ≤ fuel →
    Reads bytes (values bytes fuel ss.length) (itemChunks used ss) ts
  | [], ts, fuel, hw, _, _ => by
    simp only [Shape.writtenItems, Option.some.injEq] at hw
    subst hw
    rw [List.length_nil, values_zero]
    exact Reads.pure []
  | s :: rest, ts, fuel, hw, hfit, hfuel => by
    simp only [Shape.writtenItems, Option.bind_eq_bind, Option.bind_eq_some_iff, Option.pure_def,
      Option.some.injEq] at hw
    obtain ⟨t, hs, ts', hrest, rfl⟩ := hw
    simp only [Tree.countsFitItems, Bool.and_eq_true] at hfit
    simp only [itemChunks, List.length_append] at hfuel
    rw [List.length_cons, values, itemChunks]
    refine (value_reads s hs hfit.1 (by omega)).bind ?_
    exact (values_reads rest hrest hfit.2 (by omega)).map_eq rfl
end

end Reader
end Wire

end GraphDoc
