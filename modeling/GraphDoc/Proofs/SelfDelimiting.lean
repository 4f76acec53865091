import GraphDoc.Proofs.ReadBounds
import GraphDoc.Proofs.BinaryFixpoint
/-! # The binary format delimits itself

A document in the binary format says where it ends: bytes that read as a document read as
nothing more and nothing less (`binary_self_delimiting`).

* Every reader reads, from bytes with more after them, what it reads from the bytes alone, and
  stops at the same place (`Wire.Reader.Extends`, `extends_value`, `extends_header`). It reads
  the same bytes in the same order; the checks that look past the position, for a zero byte
  ending the encoding name or for the end of an integer array, pass on the longer bytes whenever
  they pass on the shorter ones. More fuel reads the same too, so the fuel that grows with the
  bytes changes nothing.
* So a document followed by more bytes is read up to its end, where the bytes after it are
  left over (`Tree.ofBinary_append`), and no strict prefix of a document is one, since the rest
  would be left over (`Tree.ofBinary_cut`).
-/
namespace GraphDoc

/-- A byte of an array is the same byte of the array with more after it. -/
theorem getElem?_append_of_some {bytes c : ByteArray} {i : Nat} {b : UInt8}
    (h : bytes[i]? = some b) : (bytes ++ c)[i]? = some b := by
  rw [byteArray_getElem?] at h ⊢
  rw [ByteArray.toList_data_append, List.getElem?_append_left (List.getElem?_eq_some_iff.1 h).1]
  exact h

/-- A slice within an array is the same slice of the array with more after it. -/
theorem extract_append_of_le {bytes c : ByteArray} {i j : Nat} (h : j ≤ bytes.size) :
    (bytes ++ c).extract i j = bytes.extract i j := by
  have hnil : c.extract (i - bytes.size) (j - bytes.size) = ByteArray.empty :=
    ByteArray.extract_eq_empty_iff.2 (by omega)
  rw [ByteArray.extract_append, hnil, ByteArray.append_empty]

namespace Varint

variable {bytes c : ByteArray}

/-- The groups of a varint read from bytes read the same with more bytes after them. -/
theorem readGroups_append : ∀ budget pos shift mag {r : Nat × Nat},
    readGroups bytes budget pos shift mag = .ok r → readGroups (bytes ++ c) budget pos shift mag = .ok r
  | 0, _, _, _, _, h => by simp [readGroups] at h
  | budget + 1, pos, shift, mag, r, h => by
    rw [readGroups] at h ⊢
    cases hb : bytes[pos]? with
    | none => simp [hb] at h
    | some b =>
      rw [getElem?_append_of_some hb]
      simp only [hb] at h ⊢
      by_cases hf : (b &&& 0x80 == 0) = true
      · simp only [hf, if_true] at h ⊢
        exact h
      · simp only [hf] at h ⊢
        exact readGroups_append budget _ _ _ h

/-- A varint read from bytes reads the same with more bytes after them. -/
theorem decode_append {pos : Nat} {r : Int64 × Nat} (h : decode bytes pos = .ok r) :
    decode (bytes ++ c) pos = .ok r := by
  rw [decode] at h ⊢
  cases hb : bytes[pos]? with
  | none => simp [hb] at h
  | some b =>
    rw [getElem?_append_of_some hb]
    simp only [hb] at h ⊢
    by_cases hf : (b &&& 0x80 == 0) = true
    · simp only [hf, if_true] at h ⊢
      exact h
    · simp only [hf] at h ⊢
      cases hq : readGroups bytes 9 (pos + 1) 6 (b &&& 63).toNat with
      | error e => rw [hq] at h; cases h
      | ok q => rw [readGroups_append _ _ _ _ hq]; rw [hq] at h; exact h

end Varint

namespace Wire
namespace Reader

/-- `r₂` reads whatever `r₁` reads: from every position where `r₁` succeeds, `r₂` succeeds
with the same result and stops at the same position. -/
def Extends (r₁ r₂ : Reader α) : Prop :=
  ∀ pos a pos', r₁.run pos = .ok (a, pos') → r₂.run pos = .ok (a, pos')

theorem Extends.refl (r : Reader α) : Extends r r := fun _ _ _ h => h

theorem Extends.bind {r₁ r₂ : Reader α} {f₁ f₂ : α → Reader β} (hr : Extends r₁ r₂)
    (hf : ∀ a, Extends (f₁ a) (f₂ a)) : Extends (r₁ >>= f₁) (r₂ >>= f₂) := by
  intro pos b pos'' h
  obtain ⟨a, pos', h₁, h₂⟩ := run_bind_eq_ok h
  rw [StateT.run_bind, hr pos a pos' h₁]
  exact hf a pos' b pos'' h₂

/-- A reader that fails at once reads nothing that another would have to read. -/
theorem Extends.throw_bind (f : Fault) (k : α → Reader β) (r : Reader β) :
    Extends (MonadExcept.throw f >>= k) r :=
  fun _ _ _ h => (run_throw_bind h).elim

variable {bytes c : ByteArray}

theorem extends_byte : Extends (byte bytes) (byte (bytes ++ c)) := by
  intro pos b pos' h
  rw [byte_run] at h ⊢
  cases hb : bytes[pos]? with
  | none => rw [hb] at h; cases h
  | some b' => rw [hb] at h; rw [getElem?_append_of_some hb]; exact h

theorem extends_take (n : Nat) : Extends (take bytes n) (take (bytes ++ c) n) := by
  intro pos l pos' h
  rw [take_run] at h ⊢
  split at h
  · next hn =>
    rw [if_pos (by rw [ByteArray.size_append]; omega), extract_append_of_le hn]
    exact h
  · cases h

theorem extends_word (n : Nat) : Extends (word bytes n) (word (bytes ++ c) n) :=
  (extends_take n).bind fun _ => Extends.refl _

theorem extends_varint : Extends (varint bytes) (varint (bytes ++ c)) := by
  intro pos v pos' h
  rw [varint_run] at h ⊢
  cases hd : Varint.decode bytes pos with
  | error f => rw [hd] at h; cases h
  | ok r => rw [hd] at h; rw [Varint.decode_append hd]; exact h

theorem extends_count : Extends (count bytes) (count (bytes ++ c)) :=
  extends_varint.bind fun _ => Extends.refl _

theorem extends_string : Extends (string bytes) (string (bytes ++ c)) :=
  extends_count.bind fun n => (extends_take n).bind fun _ => Extends.refl _

theorem extends_kind : Extends (kind bytes) (kind (bytes ++ c)) :=
  extends_byte.bind fun _ => Extends.refl _

/-- Counted loops of readers that extend each other extend each other. -/
theorem extends_many {r₁ r₂ : Reader α} (hr : Extends r₁ r₂) :
    ∀ n, Extends (many r₁ n) (many r₂ n)
  | 0 => by rw [many, many]; exact Extends.refl _
  | n + 1 => by
    rw [many, many]
    exact hr.bind fun _ => (extends_many hr n).bind fun _ => Extends.refl _

section
variable {f k : Nat} (hv : Extends (value bytes f) (value (bytes ++ c) (f + k)))
include hv

theorem extends_values : ∀ n, Extends (values bytes f n) (values (bytes ++ c) (f + k) n)
  | 0 => by rw [values, values]; exact Extends.refl _
  | n + 1 => by
    rw [values, values]
    exact hv.bind fun _ => (extends_values n).bind fun _ => Extends.refl _

theorem extends_pairs : ∀ n, Extends (pairs bytes f n) (pairs (bytes ++ c) (f + k) n)
  | 0 => by rw [pairs, pairs]; exact Extends.refl _
  | n + 1 => by
    rw [pairs, pairs]
    exact extends_string.bind fun _ => hv.bind fun _ =>
      (extends_pairs n).bind fun _ => Extends.refl _

theorem extends_structureBody :
    Extends (structureBody bytes f) (structureBody (bytes ++ c) (f + k)) := by
  rw [structureBody, structureBody]
  exact extends_string.bind fun _ => extends_string.bind fun _ =>
    extends_count.bind fun n => (extends_pairs hv n).bind fun _ => Extends.refl _

end

/-- **A value reads the same from longer bytes with more fuel.** The induction is on the fuel
of the shorter reading; a nested value, list, pair or structure body uses the step below. -/
theorem extends_value : ∀ f k, Extends (value bytes f) (value (bytes ++ c) (f + k))
  | 0, k => fun _ _ _ h => by rw [value] at h; cases h
  | f + 1, k => by
    have hv := extends_value f k
    rw [show f + 1 + k = f + k + 1 by omega, value, value]
    refine extends_kind.bind fun kd => ?_
    cases kd
    case struct => exact extends_structureBody hv
    case list =>
      exact extends_string.bind fun _ => extends_count.bind fun n =>
        (extends_values hv n).bind fun _ => Extends.refl _
    case realArray64 | realArray32 =>
      exact extends_string.bind fun _ => extends_count.bind fun n =>
        (extends_many (extends_word _) n).bind fun _ => Extends.refl _
    case intArray =>
      refine extends_string.bind fun tag => extends_count.bind fun n =>
        extends_count.bind fun len => (Extends.refl _).bind fun p => ?_
      simp only
      -- the byte length is checked against the end; past the end of the shorter bytes the
      -- check fails there, so nothing is to be shown
      by_cases hend : p + len > bytes.size
      · rw [if_pos hend]
        exact Extends.throw_bind _ _ _
      · rw [if_neg hend, if_neg (by rw [ByteArray.size_append]; omega)]
        exact (extends_many extends_varint n).bind fun _ => (Extends.refl _).bind fun _ =>
          Extends.refl _
    case rawtext =>
      exact extends_string.bind fun _ => extends_string.bind fun _ => Extends.refl _
    case string | identifier | uid => exact extends_string.bind fun _ => Extends.refl _
    case real => exact (extends_word 8).bind fun _ => Extends.refl _
    case integer => exact extends_varint.bind fun _ => Extends.refl _
    case bool => exact extends_byte.bind fun _ => Extends.refl _

/-- The first zero byte from a position, found within the bytes, is the first one in the longer
bytes too, with the same bytes before it. -/
theorem idxOf?_zero_append {start k : Nat}
    (hk : List.idxOf? 0 (bytes.extract start bytes.size).toList = some k) :
    List.idxOf? 0 ((bytes ++ c).extract start (bytes ++ c).size).toList = some k ∧
      List.take k ((bytes ++ c).extract start (bytes ++ c).size).toList =
        List.take k (bytes.extract start bytes.size).toList := by
  have hlt := (List.idxOf?_eq_some_iff.1 hk).1
  simp only [byteArray_toList, ByteArray.data_extract, Array.length_toList,
    Array.size_extract, ByteArray.size_data] at hlt
  -- the longer bytes from `start` are the shorter ones from `start`, then the added ones
  have hrest : ((bytes ++ c).extract start (bytes ++ c).size).toList =
      (bytes.extract start bytes.size).toList ++ c.toList := by
    rw [ByteArray.extract_eq_extract_append_extract bytes.size (by omega)
        (by rw [ByteArray.size_append]; omega),
      ByteArray.extract_append_size_left,
      ByteArray.extract_append_eq_right rfl ByteArray.size_append]
    simp only [byteArray_toList, ByteArray.toList_data_append]
  rw [hrest]
  refine ⟨?_, List.take_append_of_le_length ?_⟩
  · unfold List.idxOf? at hk ⊢
    rw [List.findIdx?_append, hk, Option.some_or]
  · simp only [byteArray_toList, ByteArray.data_extract, Array.length_toList, Array.size_extract,
      ByteArray.size_data]
    omega

/-- The header reads the same from longer bytes: its signature, version and flags stand at the
same places, and the zero byte that ends the encoding name is the first one in the longer bytes
too. -/
theorem extends_header : Extends (header bytes) (header (bytes ++ c)) := by
  unfold header
  refine (Extends.refl _).bind fun pos => ?_
  simp only
  by_cases hmagic : (!(decide (pos + magic.length ≤ bytes.size) &&
      (bytes.extract pos (pos + magic.length)).toList == magic)) = true
  · rw [if_pos hmagic]
    exact Extends.throw_bind _ _ _
  · simp only [Bool.not_eq_eq_eq_not, Bool.not_true, Bool.and_eq_false_imp, decide_eq_true_eq,
      not_forall] at hmagic
    obtain ⟨hsize, hsig⟩ := hmagic
    have hsize' : pos + magic.length ≤ (bytes ++ c).size := by
      rw [ByteArray.size_append]; omega
    have hext : (bytes ++ c).extract pos (pos + magic.length) =
        bytes.extract pos (pos + magic.length) := extract_append_of_le hsize
    simp only [hsize, hsize', hext, hsig, decide_true, Bool.and_self,
      Bool.not_true, Bool.false_eq_true, if_false]
    refine Extends.bind (Extends.refl _) fun _ => ?_
    refine Extends.bind (extends_word 2) fun v => ?_
    by_cases hv : (v != version) = true
    · rw [if_pos hv]
      exact Extends.throw_bind _ _ _
    rw [if_neg hv, if_neg hv]
    refine Extends.bind (Extends.refl _) fun start => ?_
    cases hk : List.idxOf? 0 (bytes.extract start bytes.size).toList with
    | none => exact fun _ _ _ h => by cases h
    | some k =>
      -- the zero byte that ends the encoding name is found first within the shorter bytes
      obtain ⟨hk', htake⟩ := idxOf?_zero_append hk
      rw [hk']
      dsimp only
      rw [htake]
      split
      · exact Extends.throw_bind _ _ _
      · exact Extends.bind (Extends.refl _) fun _ => (extends_take 4).bind fun _ =>
          Extends.refl _

/-- A bind whose first reader succeeds runs its continuation from where that reader stopped. -/
theorem run_bind_of_ok {r : Reader α} {f : α → Reader β} {pos pos' : Nat} {a : α}
    (h : r.run pos = .ok (a, pos')) : (r >>= f).run pos = (f a).run pos' := by
  rw [StateT.run_bind, h]
  rfl

theorem run'_eq (r : Reader α) (pos : Nat) : r.run' pos = (r.run pos).map Prod.fst := rfl

/-- **A document followed by more bytes is read up to its end**, where the bytes after it are
left over. -/
theorem document_append {t : Tree} {pos : Nat} (h : (document bytes).run 0 = .ok (t, pos))
    (hc : c.size ≠ 0) : (document (bytes ++ c)).run 0 = .error (.trailing c.size) := by
  unfold document at h ⊢
  obtain ⟨_, p₁, h₁, h⟩ := run_bind_eq_ok h
  obtain ⟨k, p₂, h₂, h⟩ := run_bind_eq_ok h
  rw [run_bind_of_ok (extends_header _ _ _ h₁), run_bind_of_ok (extends_kind _ _ _ h₂)]
  dsimp only at h ⊢
  by_cases hk : (k != ChunkKind.struct) = true
  · rw [if_pos hk] at h
    exact (run_throw_bind h).elim
  rw [if_neg hk] at h ⊢
  obtain ⟨root, p₃, h₃, h⟩ := run_bind_eq_ok h
  obtain ⟨q, p₄, hget, h⟩ := run_bind_eq_ok h
  cases hget
  -- the shorter bytes were read to their end
  have hend : p₃ = bytes.size := by
    by_contra hne
    rw [if_pos (by simpa using hne)] at h
    exact (run_throw_bind h).elim
  have h₃' : (structureBody (bytes ++ c) ((bytes ++ c).size + 1)).run p₂ = .ok (root, p₃) := by
    rw [ByteArray.size_append, show bytes.size + c.size + 1 = bytes.size + 1 + c.size by omega]
    exact extends_structureBody (extends_value _ _) _ _ _ h₃
  rw [run_bind_of_ok h₃', run_bind_of_ok (rfl : (get : Reader Nat).run p₃ = .ok (p₃, p₃)),
    if_pos (by rw [ByteArray.size_append]; simp; omega), hend, ByteArray.size_append,
    Nat.add_sub_cancel_left]
  rfl

end Reader
end Wire

/-- Bytes after a document are refused as trailing bytes, however many there are. -/
theorem Tree.ofBinary_append {b c : ByteArray} {t : Tree} (h : Tree.ofBinary b = .ok t)
    (hc : c.size ≠ 0) : Tree.ofBinary (b ++ c) = .error (.decode (.trailing c.size)) := by
  unfold Tree.ofBinary at h ⊢
  rw [Wire.Reader.run'_eq] at h ⊢
  cases hr : (Wire.Reader.document b).run 0 with
  | error f => rw [hr] at h; cases h
  | ok p => rw [Wire.Reader.document_append hr hc]; rfl

/-- No strict prefix of a document is one. -/
theorem Tree.ofBinary_cut {b : ByteArray} {t : Tree} (h : Tree.ofBinary b = .ok t) {n : Nat}
    (hn : n < b.size) : ∃ e, Tree.ofBinary (b.extract 0 n) = .error e := by
  cases hp : Tree.ofBinary (b.extract 0 n) with
  | error e => exact ⟨e, rfl⟩
  | ok t' =>
    -- the rest of the bytes would then be left over
    have hsplit : b.extract 0 n ++ b.extract n b.size = b := by
      rw [ByteArray.extract_append_extract, Nat.min_eq_left (Nat.zero_le n),
        Nat.max_eq_right hn.le, ByteArray.extract_zero_size]
    have hrest : (b.extract n b.size).size ≠ 0 := by
      rw [ByteArray.size_extract]; omega
    have := Tree.ofBinary_append hp hrest
    rw [hsplit, h] at this
    cases this

/-- **The binary format is self-delimiting.** Bytes that read as a document lose that the moment
they are cut short or lengthened: every strict prefix fails to read, and every extension fails
with exactly the bytes added left over. In particular every strict prefix of the binary form of
a document fails to read, whatever its sharing and cycles, when its containers hold only indices
of containers and its strings and counts fit. -/
theorem binary_self_delimiting :
    (∀ (b : ByteArray) (t : Tree), Tree.ofBinary b = .ok t →
      (∀ n < b.size, ∃ e, Tree.ofBinary (b.extract 0 n) = .error e) ∧
      ∀ c : ByteArray, c.size ≠ 0 → Tree.ofBinary (b ++ c) = .error (.decode (.trailing c.size))) ∧
    ∀ (g : Graph) (root : NodeId) (tag : String) (line : Nat) (uid : String)
      (pairs : List (String × Value)), g.get? root = some ⟨tag, line, .struct uid pairs⟩ →
      g.closed = true → g.countsFit = true →
      ∀ n < (g.binary root).length, ∃ e, Tree.ofBinary ⟨((g.binary root).take n).toArray⟩ = .error e := by
  refine ⟨fun b t h => ⟨fun n hn => Tree.ofBinary_cut h hn, fun c hc => Tree.ofBinary_append h hc⟩,
    fun g root tag line uid pairs hroot hclosed hfit n hn => ?_⟩
  obtain ⟨t, ht, -⟩ := Graph.binaryWith_reads_back hroot hclosed hfit
    (fun _ => some (g.usage root)) fun _ _ => rfl
  have hcut : (⟨((g.binary root).take n).toArray⟩ : ByteArray) =
      (⟨(g.binary root).toArray⟩ : ByteArray).extract 0 n := by
    ext1
    simp
  rw [hcut]
  have hsize : (⟨(g.binary root).toArray⟩ : ByteArray).size = (g.binary root).length :=
    List.size_toArray
  exact Tree.ofBinary_cut ht (hsize ▸ hn)

/-- The binary form of the looping document, less its last byte, fails to read; with a zero
byte after it, that byte is left over. -/
theorem loopDocument_binary_self_delimiting :
    Graph.loopDocument.closed = true ∧ Graph.loopDocument.countsFit = true ∧
    (∃ e, Tree.ofBinary ⟨((Graph.loopDocument.binary 0).take
      ((Graph.loopDocument.binary 0).length - 1)).toArray⟩ = .error e) ∧
    Tree.ofBinary (⟨(Graph.loopDocument.binary 0).toArray⟩ ++ ⟨#[0]⟩) =
      .error (.decode (.trailing 1)) := by
  have hroot : Graph.loopDocument.get? 0 = some ⟨"<Doc>", 1, .struct "#D" _⟩ := rfl
  have hclosed : Graph.loopDocument.closed = true := by decide +kernel
  have hfit : Graph.loopDocument.countsFit = true := by decide +kernel
  have hlen : 0 < (Graph.loopDocument.binary 0).length := by
    rw [Graph.binary, Graph.binaryWith_eq]
    simp [Wire.header]
  obtain ⟨t, ht, -⟩ := Graph.binaryWith_reads_back hroot hclosed hfit
    (fun _ => some (Graph.loopDocument.usage 0)) fun _ _ => rfl
  exact ⟨hclosed, hfit, binary_self_delimiting.2 _ _ _ _ _ _ hroot hclosed hfit _ (by omega),
    (binary_self_delimiting.1 _ t ht).2 _ (by decide)⟩

end GraphDoc
