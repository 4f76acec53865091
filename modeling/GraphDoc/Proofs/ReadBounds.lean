import GraphDoc.Wire.Read
import GraphDoc.Proofs.Varint
/-! # Reading any bytes stays within them

The binary reader runs on bytes from anywhere: counts, lengths and nesting are whatever the
bytes say. Reading them is nevertheless total and bounded (`Tree.ofBinary_bounded`):

* every reader keeps its position within the bytes: started within them, it stops, when it
  succeeds, within them and no earlier (`Reader.Keeps`). So wherever the reader slices the bytes
  from its position or subtracts its position from their size, after a step that succeeded, it
  does so in range;
* a varint takes at most ten bytes, its first and at most nine groups of seven bits, which land
  at bits 6, 13, …, 62: no group is shifted to the width of the word (`Varint.decode_bounds`);
* each element of a counted loop reads at least one byte (`Reader.Advances`), so a count larger
  than the bytes left fails rather than being read (`Reader.ReadsAtLeast.fails`);
* each level of nesting reads a kind byte first, so the fuel that bounds the nesting, one more
  than the number of bytes, never runs out before the bytes do (`Reader.value_agree`).
-/
namespace GraphDoc

theorem lt_size_of_getElem? {bytes : ByteArray} {pos : Nat} {b : UInt8}
    (h : bytes[pos]? = some b) : pos < bytes.size := by
  by_contra hc
  simp [hc] at h

/-! ## Varints -/

namespace Varint

variable {bytes : ByteArray}

/-- The groups after the first byte take at least one byte and at most `budget`. -/
theorem readGroups_bounds : ∀ budget pos shift mag {m pos' : Nat},
    readGroups bytes budget pos shift mag = .ok (m, pos') →
      pos < pos' ∧ pos' ≤ pos + budget ∧ pos' ≤ bytes.size
  | 0, _, _, _, _, _, h => by simp [readGroups] at h
  | budget + 1, pos, shift, mag, m, pos', h => by
    rw [readGroups] at h
    cases hb : bytes[pos]? with
    | none => simp [hb] at h
    | some b =>
      have hlt := lt_size_of_getElem? hb
      simp only [hb] at h
      split at h
      · simp only [Except.ok.injEq, Prod.mk.injEq] at h
        omega
      · have := readGroups_bounds budget (pos + 1) _ _ h
        omega

/-- **A varint takes one to ten bytes, all within the bytes.** The first byte holds six bits and
each further byte seven, the `j`-th of them at bit `6 + 7 j`; with at most nine of them the
last lands at bit 62, below the width of the word. -/
theorem decode_bounds {pos pos' : Nat} {v : Int64} (h : decode bytes pos = .ok (v, pos')) :
    pos < pos' ∧ pos' ≤ pos + 10 ∧ pos' ≤ bytes.size := by
  rw [decode] at h
  cases hb : bytes[pos]? with
  | none => simp [hb] at h
  | some b =>
    have hlt := lt_size_of_getElem? hb
    simp only [hb] at h
    split at h
    · simp only [Except.ok.injEq, Prod.mk.injEq] at h
      omega
    · cases hq : readGroups bytes 9 (pos + 1) 6 (b &&& 63).toNat with
      | error e => simp only [hq, Except.map, reduceCtorEq] at h
      | ok r =>
        obtain ⟨m, q⟩ := r
        simp only [hq, Except.map, Except.ok.injEq, Prod.mk.injEq] at h
        have := readGroups_bounds 9 (pos + 1) 6 _ hq
        omega

end Varint

namespace Wire
namespace Reader

/-! ## Readers that keep the position within the bytes -/

variable (bytes : ByteArray)

/-- When `r` succeeds it has not moved back, nor past the end of the bytes unless it started
past it. -/
def Keeps (r : Reader α) : Prop :=
  ∀ pos a pos', r.run pos = .ok (a, pos') → pos ≤ pos' ∧ pos' ≤ max pos bytes.size

/-- When `r` succeeds it has read at least one byte, and not past the end of the bytes. -/
def Advances (r : Reader α) : Prop :=
  ∀ pos a pos', r.run pos = .ok (a, pos') → pos < pos' ∧ pos' ≤ max pos bytes.size

variable {bytes}

theorem run_bind_eq_ok {r : Reader α} {f : α → Reader β} {pos pos'' : Nat} {b : β}
    (h : (r >>= f).run pos = .ok (b, pos'')) :
    ∃ a pos', r.run pos = .ok (a, pos') ∧ (f a).run pos' = .ok (b, pos'') := by
  rw [StateT.run_bind] at h
  cases hr : r.run pos with
  | error e => rw [hr] at h; cases h
  | ok p => rw [hr] at h; exact ⟨p.1, p.2, rfl, h⟩

theorem run_throw_bind {f : Fault} {k : α → Reader β} {pos pos' : Nat} {b : β}
    (h : (MonadExcept.throw f >>= k).run pos = .ok (b, pos')) : False := by
  obtain ⟨a, p, h₁, -⟩ := run_bind_eq_ok h
  cases h₁

theorem Keeps.pure (a : α) : Keeps bytes (Pure.pure a) := by
  intro pos b pos' h
  cases h
  omega

theorem Keeps.throw (f : Fault) : Keeps bytes (throw f : Reader α) := by
  intro pos b pos' h
  cases h

/-- A reader that fails at once keeps the position, whatever would follow. -/
theorem Keeps.throw_bind (f : Fault) (k : α → Reader β) :
    Keeps bytes (MonadExcept.throw f >>= k) :=
  fun _ _ _ h => (run_throw_bind h).elim

theorem Keeps.get : Keeps bytes (get : Reader Nat) := by
  intro pos b pos' h
  cases h
  omega

theorem Keeps.bind {r : Reader α} {f : α → Reader β} (hr : Keeps bytes r)
    (hf : ∀ a, Keeps bytes (f a)) : Keeps bytes (r >>= f) := by
  intro pos b pos'' h
  obtain ⟨a, pos', h₁, h₂⟩ := run_bind_eq_ok h
  have := hr pos a pos' h₁
  have := hf a pos' b pos'' h₂
  omega

theorem Advances.keeps {r : Reader α} (h : Advances bytes r) : Keeps bytes r :=
  fun pos a pos' hr => ⟨(h pos a pos' hr).1.le, (h pos a pos' hr).2⟩

theorem Advances.bind {r : Reader α} {f : α → Reader β} (hr : Advances bytes r)
    (hf : ∀ a, Keeps bytes (f a)) : Advances bytes (r >>= f) := by
  intro pos b pos'' h
  obtain ⟨a, pos', h₁, h₂⟩ := run_bind_eq_ok h
  have := hr pos a pos' h₁
  have := hf a pos' b pos'' h₂
  omega

/-! ## The primitive readers -/

theorem byte_run (pos : Nat) : (byte bytes).run pos =
    match bytes[pos]? with
    | some b => .ok (b, pos + 1)
    | none => .error .truncated := by
  cases h : bytes[pos]? <;> simp [byte, h] <;> rfl

theorem byte_run_end {pos : Nat} (h : bytes.size ≤ pos) :
    (byte bytes).run pos = .error .truncated := by
  rw [byte_run]
  have : bytes[pos]? = none := by simp [h]
  rw [this]

theorem take_run (n pos : Nat) : (take bytes n).run pos =
    if pos + n ≤ bytes.size then .ok ((bytes.extract pos (pos + n)).toList, pos + n)
    else .error .truncated := by
  by_cases h : pos + n ≤ bytes.size <;> simp [take, h] <;> rfl

theorem varint_run (pos : Nat) : (varint bytes).run pos =
    match Varint.decode bytes pos with
    | .ok (v, pos') => .ok (v, pos')
    | .error f => .error (.varint f) := by
  cases h : Varint.decode bytes pos with
  | ok r => simp [varint, h]; rfl
  | error f => simp [varint, h]; rfl

theorem advances_byte : Advances bytes (byte bytes) := by
  intro pos b pos' h
  rw [byte_run] at h
  split at h
  · next c hc =>
    have := lt_size_of_getElem? hc
    simp only [Except.ok.injEq, Prod.mk.injEq] at h
    omega
  · cases h

theorem keeps_take (n : Nat) : Keeps bytes (take bytes n) := by
  intro pos b pos' h
  rw [take_run] at h
  split at h
  · simp only [Except.ok.injEq, Prod.mk.injEq] at h
    omega
  · cases h

theorem keeps_word (n : Nat) : Keeps bytes (word bytes n) :=
  (keeps_take n).bind fun _ => Keeps.pure _

theorem advances_word {n : Nat} (hn : 0 < n) : Advances bytes (word bytes n) := by
  refine Advances.bind (fun pos b pos' h => ?_) fun _ => Keeps.pure _
  rw [take_run] at h
  split at h
  · simp only [Except.ok.injEq, Prod.mk.injEq] at h
    omega
  · cases h

theorem advances_varint : Advances bytes (varint bytes) := by
  intro pos b pos' h
  rw [varint_run] at h
  split at h
  · next v q hq =>
    simp only [Except.ok.injEq, Prod.mk.injEq] at h
    have := Varint.decode_bounds hq
    omega
  · cases h

theorem advances_count : Advances bytes (count bytes) := by
  unfold count
  refine advances_varint.bind fun n => ?_
  split
  · exact Keeps.throw _
  · exact Keeps.pure _

theorem advances_string : Advances bytes (string bytes) := by
  unfold string
  refine advances_count.bind fun n => (keeps_take n).bind fun raw => ?_
  split
  · exact Keeps.pure _
  · exact Keeps.throw _

theorem advances_kind : Advances bytes (kind bytes) := by
  unfold kind
  refine advances_byte.bind fun b => ?_
  split
  · exact Keeps.pure _
  · exact Keeps.throw _

theorem keeps_many {r : Reader α} (hr : Keeps bytes r) : ∀ n, Keeps bytes (many r n)
  | 0 => by rw [many]; exact Keeps.pure _
  | n + 1 => by
    rw [many]
    exact hr.bind fun _ => (keeps_many hr n).bind fun _ => Keeps.pure _

/-! ## Values, structures and the header -/

theorem keeps_values_of {fuel : Nat} (hv : Keeps bytes (value bytes fuel)) :
    ∀ n, Keeps bytes (values bytes fuel n)
  | 0 => by rw [values]; exact Keeps.pure _
  | n + 1 => by
    rw [values]
    exact hv.bind fun _ => (keeps_values_of hv n).bind fun _ => Keeps.pure _

theorem keeps_pairs_of {fuel : Nat} (hv : Keeps bytes (value bytes fuel)) :
    ∀ n, Keeps bytes (pairs bytes fuel n)
  | 0 => by rw [pairs]; exact Keeps.pure _
  | n + 1 => by
    rw [pairs]
    exact advances_string.keeps.bind fun _ => hv.bind fun _ =>
      (keeps_pairs_of hv n).bind fun _ => Keeps.pure _

theorem keeps_structureBody_of {fuel : Nat} (hv : Keeps bytes (value bytes fuel)) :
    Keeps bytes (structureBody bytes fuel) := by
  rw [structureBody]
  exact advances_string.keeps.bind fun _ => advances_string.keeps.bind fun _ =>
    advances_count.keeps.bind fun n => (keeps_pairs_of hv n).bind fun _ => Keeps.pure _

/-- **A value reads its kind byte and stays within the bytes**, at any nesting, whatever its
counts and lengths say. -/
theorem advances_value : ∀ fuel, Advances bytes (value bytes fuel)
  | 0 => by
    rw [value]
    intro pos a pos' h
    cases h
  | fuel + 1 => by
    have hv := (advances_value fuel).keeps
    rw [value]
    refine advances_kind.bind fun k => ?_
    cases k
    case struct => exact keeps_structureBody_of hv
    case list =>
      exact advances_string.keeps.bind fun _ => advances_count.keeps.bind fun n =>
        (keeps_values_of hv n).bind fun _ => Keeps.pure _
    case realArray64 | realArray32 =>
      exact advances_string.keeps.bind fun _ => advances_count.keeps.bind fun n =>
        (keeps_many (advances_word (by decide)).keeps n).bind fun _ => Keeps.pure _
    case intArray =>
      refine advances_string.keeps.bind fun tag => advances_count.keeps.bind fun n =>
        advances_count.keeps.bind fun len => Keeps.get.bind fun p => ?_
      -- the byte length is checked against the end before the elements are read
      simp only
      split
      · exact Keeps.throw_bind _ _
      · refine (keeps_many advances_varint.keeps n).bind fun vs => Keeps.get.bind fun q => ?_
        split
        · exact Keeps.throw_bind _ _
        · exact Keeps.pure _
    case rawtext =>
      exact advances_string.keeps.bind fun _ => advances_string.keeps.bind fun _ => Keeps.pure _
    case string | identifier | uid => exact advances_string.keeps.bind fun _ => Keeps.pure _
    case real => exact (keeps_word 8).bind fun _ => Keeps.pure _
    case integer => exact advances_varint.keeps.bind fun _ => Keeps.pure _
    case bool => exact advances_byte.keeps.bind fun _ => Keeps.pure _

theorem keeps_structureBody (fuel : Nat) : Keeps bytes (structureBody bytes fuel) :=
  keeps_structureBody_of (advances_value fuel).keeps

/-- The header stays within the bytes: its encoding name ends at a zero byte found within
them. -/
theorem keeps_header : Keeps bytes (header bytes) := by
  intro pos u pos' h
  unfold header at h
  obtain ⟨p, q, hget, h⟩ := run_bind_eq_ok h
  cases hget
  split at h
  · exact (run_throw_bind h).elim
  next hmagic =>
  simp only [Bool.not_eq_eq_eq_not, Bool.not_true, Bool.and_eq_false_imp,
    decide_eq_true_eq] at hmagic
  have hsize : pos + magic.length ≤ bytes.size := by
    by_contra hc
    exact hmagic fun h => absurd h hc
  simp only at h
  obtain ⟨_, p₁, hset, h⟩ := run_bind_eq_ok h
  cases hset
  obtain ⟨v, p₂, hword, h⟩ := run_bind_eq_ok h
  have h₂ := keeps_word 2 _ _ _ hword
  split at h
  · exact (run_throw_bind h).elim
  obtain ⟨_, p₃, hget, h⟩ := run_bind_eq_ok h
  cases hget
  split at h
  · cases h
  next k hk =>
  split at h
  · exact (run_throw_bind h).elim
  obtain ⟨_, p₄, hset, h⟩ := run_bind_eq_ok h
  cases hset
  obtain ⟨_, p₅, htake, h⟩ := run_bind_eq_ok h
  have h₅ := keeps_take 4 _ _ _ htake
  cases h
  -- the zero byte that ends the encoding name lies within the bytes
  obtain ⟨hk, -⟩ := List.idxOf?_eq_some_iff.1 hk
  simp only [byteArray_toList, Array.length_toList, ByteArray.size_data,
    ByteArray.size_extract] at hk
  omega

theorem keeps_document : Keeps bytes (document bytes) := by
  unfold document
  refine keeps_header.bind fun _ => advances_kind.keeps.bind fun k => ?_
  simp only
  split
  · exact Keeps.throw_bind _ _
  · refine (keeps_structureBody _).bind fun root => Keeps.get.bind fun p => ?_
    split
    · exact Keeps.throw_bind _ _
    · exact Keeps.pure _

/-! ## Counted loops -/

/-- When `r` succeeds it has read at least `n` bytes. -/
def ReadsAtLeast (n : Nat) (r : Reader α) : Prop :=
  ∀ pos a pos', r.run pos = .ok (a, pos') → pos + n ≤ pos'

theorem ReadsAtLeast.pure (a : α) : ReadsAtLeast 0 (Pure.pure a : Reader α) := by
  intro pos b pos' h
  cases h
  omega

theorem Keeps.readsAtLeast {r : Reader α} (h : Keeps bytes r) : ReadsAtLeast 0 r :=
  fun pos a pos' hr => (h pos a pos' hr).1

theorem Advances.readsAtLeast {r : Reader α} (h : Advances bytes r) : ReadsAtLeast 1 r :=
  fun pos a pos' hr => (h pos a pos' hr).1

theorem ReadsAtLeast.bind {m k : Nat} {r : Reader α} {f : α → Reader β}
    (hr : ReadsAtLeast m r) (hf : ∀ a, ReadsAtLeast k (f a)) :
    ReadsAtLeast (m + k) (r >>= f) := by
  intro pos b pos'' h
  obtain ⟨a, pos', h₁, h₂⟩ := run_bind_eq_ok h
  have := hr pos a pos' h₁
  have := hf a pos' b pos'' h₂
  omega

theorem ReadsAtLeast.of_le {m n : Nat} {r : Reader α} (h : ReadsAtLeast m r) (hle : n ≤ m) :
    ReadsAtLeast n r :=
  fun pos a pos' hr => by have := h pos a pos' hr; omega

/-- **A reader that must read more bytes than are left fails.** -/
theorem ReadsAtLeast.fails {n pos : Nat} {r : Reader α} (h : ReadsAtLeast n r)
    (hk : Keeps bytes r) (hpos : pos ≤ bytes.size) (hn : bytes.size < pos + n) (a : α)
    (pos' : Nat) : r.run pos ≠ .ok (a, pos') := by
  intro hr
  have := h pos a pos' hr
  have := hk pos a pos' hr
  omega

/-- `n` elements that each read a byte read at least `n` bytes. -/
theorem readsAtLeast_many {r : Reader α} (hr : Advances bytes r) :
    ∀ n, ReadsAtLeast n (many r n)
  | 0 => by rw [many]; exact ReadsAtLeast.pure _
  | n + 1 => by
    rw [many]
    exact (hr.readsAtLeast.bind fun _ =>
      (readsAtLeast_many hr n).bind fun _ => ReadsAtLeast.pure _).of_le (by omega)

theorem readsAtLeast_values (fuel : Nat) : ∀ n, ReadsAtLeast n (values bytes fuel n)
  | 0 => by rw [values]; exact ReadsAtLeast.pure _
  | n + 1 => by
    rw [values]
    exact ((advances_value fuel).readsAtLeast.bind fun _ =>
      (readsAtLeast_values fuel n).bind fun _ => ReadsAtLeast.pure _).of_le (by omega)

theorem readsAtLeast_pairs (fuel : Nat) : ∀ n, ReadsAtLeast n (pairs bytes fuel n)
  | 0 => by rw [pairs]; exact ReadsAtLeast.pure _
  | n + 1 => by
    rw [pairs]
    exact (advances_string.keeps.readsAtLeast.bind fun _ =>
      (advances_value fuel).readsAtLeast.bind fun _ =>
        (readsAtLeast_pairs fuel n).bind fun _ => ReadsAtLeast.pure _).of_le (by omega)

/-! ## The fuel of nesting -/

variable (bytes) in
/-- `r₁` and `r₂` run alike from every position fewer than `n` bytes before the end. -/
def Agree (n : Nat) (r₁ r₂ : Reader α) : Prop :=
  ∀ pos, bytes.size < pos + n → r₁.run pos = r₂.run pos

theorem Agree.refl (n : Nat) (r : Reader α) : Agree bytes n r r := fun _ _ => rfl

theorem Agree.bind {n : Nat} {r₁ r₂ : Reader α} {f₁ f₂ : α → Reader β}
    (hr : Agree bytes n r₁ r₂) (hk : Keeps bytes r₁) (hf : ∀ a, Agree bytes n (f₁ a) (f₂ a)) :
    Agree bytes n (r₁ >>= f₁) (r₂ >>= f₂) := by
  intro pos hpos
  rw [StateT.run_bind, StateT.run_bind, ← hr pos hpos]
  cases h : r₁.run pos with
  | error e => rfl
  | ok p =>
    have := (hk pos p.1 p.2 h).1
    exact hf p.1 p.2 (by omega)

/-- After a reader that reads a byte, one byte fewer may be left. -/
theorem Agree.bind_advances {n : Nat} {r : Reader α} {f₁ f₂ : α → Reader β}
    (hr : Advances bytes r) (hf : ∀ a, Agree bytes n (f₁ a) (f₂ a)) :
    Agree bytes (n + 1) (r >>= f₁) (r >>= f₂) := by
  intro pos hpos
  rw [StateT.run_bind, StateT.run_bind]
  cases h : r.run pos with
  | error e => rfl
  | ok p =>
    have := (hr pos p.1 p.2 h).1
    exact hf p.1 p.2 (by omega)

section
variable {f k : Nat} (hv : Agree bytes f (value bytes (f + k)) (value bytes f))
include hv

theorem values_agree : ∀ n, Agree bytes f (values bytes (f + k) n) (values bytes f n)
  | 0 => by rw [values, values]; exact Agree.refl _ _
  | n + 1 => by
    rw [values, values]
    exact hv.bind (advances_value _).keeps fun _ =>
      (values_agree n).bind (keeps_values_of (advances_value _).keeps n) fun _ => Agree.refl _ _

theorem pairs_agree : ∀ n, Agree bytes f (pairs bytes (f + k) n) (pairs bytes f n)
  | 0 => by rw [pairs, pairs]; exact Agree.refl _ _
  | n + 1 => by
    rw [pairs, pairs]
    exact (Agree.refl _ _).bind advances_string.keeps fun _ =>
      hv.bind (advances_value _).keeps fun _ =>
        (pairs_agree n).bind (keeps_pairs_of (advances_value _).keeps n) fun _ => Agree.refl _ _

theorem structureBody_agree :
    Agree bytes f (structureBody bytes (f + k)) (structureBody bytes f) := by
  rw [structureBody, structureBody]
  exact (Agree.refl _ _).bind advances_string.keeps fun _ =>
    (Agree.refl _ _).bind advances_string.keeps fun _ =>
      (Agree.refl _ _).bind advances_count.keeps fun n =>
        (pairs_agree hv n).bind (keeps_pairs_of (advances_value _).keeps n) fun _ =>
          Agree.refl _ _

end

/-- **The fuel of a value never runs out before the bytes do**: from a position fewer than
`f` bytes before the end, more fuel reads the same. The induction is on the fuel; each level
reads its kind byte before it spends one. -/
theorem value_agree : ∀ f k, Agree bytes f (value bytes (f + k)) (value bytes f)
  | 0, k => by
    intro pos hpos
    cases k with
    | zero => rfl
    | succ k =>
      -- past the end even the kind byte is missing, which is what running out of fuel says
      rw [Nat.zero_add, value, value]
      simp only [kind, StateT.run_bind, byte_run_end (by omega : bytes.size ≤ pos)]
      rfl
  | f + 1, k => by
    have hv := value_agree f k
    rw [show f + 1 + k = f + k + 1 by omega, value, value]
    refine Agree.bind_advances advances_kind fun kd => ?_
    cases kd
    case struct => exact structureBody_agree hv
    case list =>
      exact (Agree.refl _ _).bind advances_string.keeps fun _ =>
        (Agree.refl _ _).bind advances_count.keeps fun n =>
          (values_agree hv n).bind (keeps_values_of (advances_value _).keeps n) fun _ =>
            Agree.refl _ _
    all_goals exact Agree.refl _ _

end Reader
end Wire

open Wire.Reader in
/-- **Reading binary is total and stays within the bytes**, whatever they are. Every input
gives a tree or a decoding fault. Every reader, from the header down to nested values, keeps
the position within the bytes; a varint takes at most ten bytes; every counted loop, of pairs,
items, reals or integers, reads a byte per element, so a count larger than the bytes left
fails; and the fuel bounding the nesting, one more than the number of bytes, is never what
stops the reader. -/
theorem Tree.ofBinary_bounded (bytes : ByteArray) :
    ((∃ t, Tree.ofBinary bytes = .ok t) ∨ ∃ f, Tree.ofBinary bytes = .error (.decode f)) ∧
    (Keeps bytes (Wire.Reader.header bytes) ∧ Keeps bytes (document bytes) ∧
      (∀ fuel, Advances bytes (value bytes fuel) ∧ Keeps bytes (structureBody bytes fuel)) ∧
      Advances bytes (kind bytes) ∧ Advances bytes (string bytes) ∧
      Advances bytes (count bytes) ∧ Advances bytes (varint bytes)) ∧
    (∀ pos v pos', Varint.decode bytes pos = .ok (v, pos') →
      pos < pos' ∧ pos' ≤ pos + 10 ∧ pos' ≤ bytes.size) ∧
    (∀ fuel n pos, pos ≤ bytes.size → bytes.size < pos + n →
      (∀ ts pos', (values bytes fuel n).run pos ≠ .ok (ts, pos')) ∧
      (∀ ps pos', (pairs bytes fuel n).run pos ≠ .ok (ps, pos')) ∧
      (∀ ws pos', (many (word bytes 8) n).run pos ≠ .ok (ws, pos')) ∧
      (∀ ws pos', (many (word bytes 4) n).run pos ≠ .ok (ws, pos')) ∧
      (∀ vs pos', (many (varint bytes) n).run pos ≠ .ok (vs, pos'))) ∧
    ∀ k pos, (structureBody bytes (bytes.size + 1 + k)).run pos =
      (structureBody bytes (bytes.size + 1)).run pos := by
  refine ⟨?_, ⟨keeps_header, keeps_document, fun fuel => ⟨advances_value fuel,
    keeps_structureBody fuel⟩, advances_kind, advances_string, advances_count, advances_varint⟩,
    fun _ _ _ h => Varint.decode_bounds h, ?_, ?_⟩
  · unfold Tree.ofBinary
    split
    · exact .inl ⟨_, rfl⟩
    · exact .inr ⟨_, rfl⟩
  · intro fuel n pos hpos hn
    have h8 : Advances bytes (word bytes 8) := advances_word (by decide)
    have h4 : Advances bytes (word bytes 4) := advances_word (by decide)
    exact ⟨(readsAtLeast_values fuel n).fails (keeps_values_of (advances_value fuel).keeps n)
        hpos hn,
      (readsAtLeast_pairs fuel n).fails (keeps_pairs_of (advances_value fuel).keeps n) hpos hn,
      (readsAtLeast_many h8 n).fails (keeps_many h8.keeps n) hpos hn,
      (readsAtLeast_many h4 n).fails (keeps_many h4.keeps n) hpos hn,
      (readsAtLeast_many advances_varint n).fails (keeps_many advances_varint.keeps n) hpos hn⟩
  · -- from any position fewer than `bytes.size + 1` bytes are left
    intro k pos
    exact structureBody_agree (value_agree _ k) pos (by omega)

end GraphDoc
