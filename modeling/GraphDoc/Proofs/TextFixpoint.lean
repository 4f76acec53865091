import GraphDoc.Proofs.Grammar
import GraphDoc.Proofs.Flatten
import GraphDoc.Proofs.TextRoundTrip
/-! # Text export is a fixpoint on documents read from text

Whatever text the reader accepts, the document it reads is written as a text that reads back,
and the document read back is written as that same text again (`Graph.text_fixpoint`). The round
trip of text itself does not hold of every document read: a real such as `1e400` reads as an
infinity, which text writes `0.0`, and a UID nothing references is not written. Both are
already in the form the writer leaves them in after one pass.

* Every token the scanner makes is spelled as its kind asks (`Scan.lexFrom_spelled`): a tag
  header is `<X>`, an identifier a word other than `true` and `false`, a UID `#X`.
* So every document the grammar derives from a scanned text is writable once its reals that
  are not finite are replaced by zero (`Grammar.Document.finiteOrZero_writable`); that change
  does not change its text (`Tree.text_finiteOrZero`).
* A tree planted afresh is written as the tree the text of it reads back as
  (`Tree.text_bare_dropUids`): lines and links are not written, nor the UIDs it does not
  declare.
-/
namespace GraphDoc

/-! ## Reals text cannot write -/

namespace Binary64

/-- The real itself if it is finite, else positive zero: what text writes for it, `0.0`, reads
back as. -/
def finiteOrZero (x : Binary64) : Binary64 := if x.isFinite then x else ⟨0⟩

theorem isFinite_finiteOrZero (x : Binary64) : x.finiteOrZero.isFinite = true := by
  unfold finiteOrZero
  split
  · assumption
  · decide

end Binary64

namespace Scalar

/-- The scalar with a real that is not finite replaced by positive zero. -/
def finiteOrZero : Scalar → Scalar
  | .real x => .real x.finiteOrZero
  | s => s

end Scalar

namespace Tree

mutual
/-- The tree with every real, alone or in an array, that is not finite replaced by positive
zero. -/
def finiteOrZero : Tree → Tree
  | .scalar s line => .scalar s.finiteOrZero line
  | .struct tag uid line pairs => .struct tag uid line (finiteOrZeroPairs pairs)
  | .list tag line items => .list tag line (finiteOrZeroItems items)
  | .reals tag line xs => .reals tag line (xs.map Binary64.finiteOrZero)
  | t => t

/-- `finiteOrZero` on the values of pairs. -/
def finiteOrZeroPairs : List (String × Tree) → List (String × Tree)
  | [] => []
  | (k, t) :: rest => (k, finiteOrZero t) :: finiteOrZeroPairs rest

/-- `finiteOrZero` on items. -/
def finiteOrZeroItems : List Tree → List Tree
  | [] => []
  | t :: rest => finiteOrZero t :: finiteOrZeroItems rest
end

theorem finiteOrZeroPairs_fst (ps : List (String × Tree)) :
    (finiteOrZeroPairs ps).map Prod.fst = ps.map Prod.fst := by
  induction ps with
  | nil => rfl
  | cons p ps ih => simp [finiteOrZeroPairs, ih]

theorem finiteOrZeroPairs_snd (ps : List (String × Tree)) :
    (finiteOrZeroPairs ps).map Prod.snd = finiteOrZeroItems (ps.map Prod.snd) := by
  induction ps with
  | nil => rfl
  | cons p ps ih => simp [finiteOrZeroPairs, finiteOrZeroItems, ih]

mutual
theorem dropUids_dropUids (f : String → Bool) : ∀ t : Tree,
    (t.dropUids f).dropUids f = t.dropUids f
  | .scalar .. | .raw .. | .ints .. | .reals .. => rfl
  | .struct _ uid _ pairs => by
    by_cases hf : f uid = true
    · simp [dropUids, hf, dropUidsPairs_dropUidsPairs f pairs]
    · simp [dropUids, hf, dropUidsPairs_dropUidsPairs f pairs]
  | .list _ _ items => by simp [dropUids, dropUidsItems_dropUidsItems f items]

theorem dropUidsPairs_dropUidsPairs (f : String → Bool) : ∀ ps : List (String × Tree),
    dropUidsPairs f (dropUidsPairs f ps) = dropUidsPairs f ps
  | [] => rfl
  | (_, t) :: rest => by
    simp [dropUidsPairs, dropUids_dropUids f t, dropUidsPairs_dropUidsPairs f rest]

theorem dropUidsItems_dropUidsItems (f : String → Bool) : ∀ ts : List Tree,
    dropUidsItems f (dropUidsItems f ts) = dropUidsItems f ts
  | [] => rfl
  | t :: rest => by
    simp [dropUidsItems, dropUids_dropUids f t, dropUidsItems_dropUidsItems f rest]
end

/-- A tree whose bare form is a structure is a structure. -/
theorem eq_struct_of_bare {t : Tree} {tag uid : String} {line : Nat} {ps : List (String × Tree)}
    (h : t.bare = .struct tag uid line ps) : ∃ line' ps', t = .struct tag uid line' ps' := by
  cases t with
  | struct tag' uid' line' ps' =>
    simp only [bare, struct.injEq] at h
    obtain ⟨rfl, rfl, -, -⟩ := h
    exact ⟨line', ps', rfl⟩
  | scalar | list | raw | ints | reals => simp [bare] at h

end Tree

namespace TextWrite

/-- A real that is not finite is written `0.0`. -/
theorem real_of_not_finite {x : Binary64} (hx : x.isFinite = false) : real x = "0.0" := by
  unfold real Ieee.Notation.render?
  cases hk : Ieee.Format.binary64.kind x.bits.toNat with
  | finite m q => simp [Binary64.isFinite, Binary64.kind, hk] at hx
  | nan | infinite => rfl

/-- A real and its finite-or-zero form are written alike: positive zero is written `0.0`. -/
@[simp] theorem real_finiteOrZero (x : Binary64) : real x.finiteOrZero = real x := by
  unfold Binary64.finiteOrZero
  split
  · rfl
  · next hx => rw [real_of_not_finite (Bool.of_not_eq_true hx)]; decide

@[simp] theorem scalar_finiteOrZero (sc : Scalar) : scalar sc.finiteOrZero = scalar sc := by
  cases sc with
  | real x => exact real_finiteOrZero x
  | bool | int | str | ident | uid => rfl

end TextWrite

/-! ## The tokens of a text are spelled as their kinds ask -/

namespace Scan

/-- A token spelled as its kind asks: a tag header is `<X>`, an identifier a word and a UID
`#X`. -/
def Spelled (tok : Token) : Prop :=
  (tok.kind = .tagHeader → isTag tok.text = true) ∧
    (tok.kind = .identifier → isWord tok.text = true) ∧ (tok.kind = .uid → isUid tok.text = true)

theorem isUid_ofList {name : List Char} (hne : name ≠ [])
    (hall : ∀ c ∈ name, isNameChar c = true) : isUid (String.ofList ('#' :: name)) = true := by
  unfold isUid
  rw [String.toList_ofList]
  simpa [List.all_eq_true] using ⟨hne, hall⟩

theorem isTag_ofList {name : List Char} (hne : name ≠ [])
    (hall : ∀ c ∈ name, isNameChar c = true) :
    isTag (String.ofList ('<' :: name ++ ['>'])) = true := by
  have hlen : 1 ≤ name.length := List.length_pos_iff.mpr hne
  unfold isTag
  rw [String.toList_ofList, List.cons_append]
  simp only [List.getLast?_append, List.getLast?_singleton, Option.some_or, beq_self_eq_true,
    List.length_append, List.length_singleton, List.dropLast_concat, Bool.true_and,
    Bool.and_eq_true, decide_eq_true_eq, List.all_eq_true]
  exact ⟨by omega, hall⟩

theorem isWord_ofList {c : Char} {r : List Char} (hc : (c.isAlpha || c == '_') = true)
    (hall : ∀ x ∈ r, isNameChar x = true)
    (hb : (String.ofList (c :: r) == "true" || String.ofList (c :: r) == "false") = false) :
    isWord (String.ofList (c :: r)) = true := by
  unfold isWord
  rw [String.toList_ofList]
  simp only [Bool.or_eq_false_iff, beq_eq_false_iff_ne] at hb
  have ht : (String.ofList (c :: r) != "true") = true := bne_iff_ne.mpr hb.1
  have hf : (String.ofList (c :: r) != "false") = true := bne_iff_ne.mpr hb.2
  simp only [hc, List.all_eq_true.mpr hall, ht, hf, Bool.and_self]

theorem single_kind {c : Char} {k : TokenKind} (h : single c = some k) :
    k ≠ .tagHeader ∧ k ≠ .identifier ∧ k ≠ .uid := by
  unfold single at h
  split at h <;> cases h <;> simp

/-- The number reader makes integers and reals only. -/
theorem readDecimal_kind {sign cs rest : List Char} {line : Nat} {tok : Token}
    (h : readDecimal sign cs line = .ok (tok, rest)) : tok.kind = .integer ∨ tok.kind = .real := by
  unfold readDecimal at h
  simp only at h
  split at h
  next r' hpt =>
    -- a point makes it real
    simp only [if_true] at h
    split at h
    · cases h
    · split at h
      · rcases exponent_token h with ⟨_, _, rfl⟩ | rfl <;> simp
      · rw [finishNumber_token h]
        simp
  next hpt =>
    -- no point: real only with an exponent
    simp only [Bool.false_eq_true, if_false] at h
    split at h
    · cases h
    · split at h
      · rcases exponent_token h with ⟨_, _, rfl⟩ | rfl <;> simp
      · rw [finishNumber_token h]
        simp

theorem readNumber_kind {cs rest : List Char} {line : Nat} {tok : Token}
    (h : readNumber cs line = .ok (tok, rest)) : tok.kind = .integer ∨ tok.kind = .real := by
  unfold readNumber at h
  simp only at h
  split at h
  · split at h
    · -- a hexadecimal number is an integer
      split at h
      · cases h
      · exact .inl (by rw [finishNumber_token h])
    · exact readDecimal_kind h
  · exact readDecimal_kind h

/-- Each step at a character makes only tokens spelled as their kinds ask. -/
theorem tokenAt_spelled (c : Char) (r : List Char) (n : Nat) :
    ∀ tok ∈ (tokenAt c r n).tokens, Spelled tok := by
  unfold tokenAt
  split
  next k hk =>
    -- a bracket or `=`
    obtain ⟨h₁, h₂, h₃⟩ := single_kind hk
    simp [Spelled, h₁, h₂, h₃]
  split
  · -- `{`: a rawtext block or a brace
    split
    · split <;> simp [Spelled]
    · simp [Spelled]
  split
  · -- a string
    split <;> simp [Spelled]
  split
  next hc =>
    -- a UID: `#` and the name characters after it
    have hc' : c = '#' := by simpa using hc
    subst hc'
    dsimp only
    split
    · simp
    next hne =>
      simp only [Step.tokens, List.mem_singleton, forall_eq, Spelled, reduceCtorEq, false_implies,
        true_and, forall_const]
      exact isUid_ofList (by simpa using hne) fun x hx => List.mem_takeWhile_imp hx
  split
  next hc =>
    -- a tag header: `<`, name characters and `>`
    have hc' : c = '<' := by simpa using hc
    subst hc'
    dsimp only
    split
    · split
      · simp
      next hne =>
        simp only [Step.tokens, List.mem_singleton, forall_eq, Spelled, reduceCtorEq,
          false_implies, and_true, forall_const]
        exact isTag_ofList (by simpa using hne) fun x hx => List.mem_takeWhile_imp hx
    · simp
  split
  next hc =>
    -- a name: a boolean, or an identifier that is a word
    dsimp only
    simp only [Step.tokens, List.mem_singleton, forall_eq, Spelled]
    refine ⟨by split <;> simp, fun hk => ?_, by split <;> simp⟩
    split at hk
    · cases hk
    next hb =>
      exact isWord_ofList hc (fun x hx => List.mem_takeWhile_imp hx) (Bool.of_not_eq_true hb)
  split
  · -- a number is an integer or a real
    intro tok htok
    obtain ⟨rest, hread⟩ := mem_ofRead_tokens.1 htok
    rcases readNumber_kind hread with hk | hk <;> simp [Spelled, hk]
  · simp

theorem step_spelled (cs : List Char) (line : Nat) :
    ∀ tok ∈ (step cs line).tokens, Spelled tok := by
  unfold step
  split
  · simp
  · simp
  · exact tokenAt_spelled _ _ _

/-- **Every token of a text is spelled as its kind asks.** -/
theorem lexFrom_spelled (cs : List Char) (line : Nat) :
    ∀ tok ∈ (lexFrom cs line).tokens, Spelled tok := by
  fun_induction lexFrom cs line with
  | case1 => simp
  | case2 cs line ts e hstep =>
    simpa [hstep] using step_spelled cs line
  | case3 cs line ts rest line' hstep hlen _ ih =>
    intro tok htok
    rcases List.mem_append.1 htok with htok | htok
    · exact step_spelled cs line tok (by simpa [hstep] using htok)
    · exact ih tok htok
  | case4 cs line ts rest line' hstep hlen =>
    simpa [hstep] using step_spelled cs line

end Scan

/-! ## Documents of the grammar are writable -/

namespace Grammar

theorem ScalarToken.finiteOrZero_writable {tok : Token} {sc : Scalar} (h : ScalarToken tok sc)
    (hs : Scan.Spelled tok) : sc.finiteOrZero.writable = true := by
  cases h with
  | identifier hk => exact hs.2.1 hk
  | uid hk => exact hs.2.2 hk
  | real hk hx => exact Binary64.isFinite_finiteOrZero _
  | string | boolean | integer => rfl

theorem tagWritable_of_isTag {tag : String} (h : Scan.isTag tag = true) :
    Tree.tagWritable tag = true := by
  simp [Tree.tagWritable, h]

theorem isKey_of_spelled {key : Token} (hs : Scan.Spelled key) (hk : key.kind = .identifier)
    (hid : key.text ∉ idSpellings) : Scan.isKey key.text = true := by
  have hlower : key.text.toLower ≠ "id" := fun h => hid (toLower_eq_id.mp h)
  simp [Scan.isKey, hs.2.1 hk, hlower]

mutual
/-- **A value of the grammar is writable once its reals are finite**, when its tokens are
spelled as their kinds ask. -/
theorem Value.finiteOrZero_writable : ∀ {ts : List Token} {t : Tree}, Value ts t →
    (∀ tok ∈ ts, Scan.Spelled tok) → t.finiteOrZero.writable = true
  | _, _, .scalar hsc, hs => ScalarToken.finiteOrZero_writable hsc (hs _ List.mem_cons_self)
  | _, _, .untagged hc, hs => Container.finiteOrZero_writable hc rfl hs
  | _, _, .tagged hk hc, hs =>
    Container.finiteOrZero_writable hc (tagWritable_of_isTag ((hs _ List.mem_cons_self).1 hk))
      fun tok h => hs tok (List.mem_cons_of_mem _ h)

theorem Container.finiteOrZero_writable : ∀ {tag : String} {ts : List Token} {t : Tree},
    Container tag ts t → Tree.tagWritable tag = true → (∀ tok ∈ ts, Scan.Spelled tok) →
    t.finiteOrZero.writable = true
  | _, _, _, @Container.struct _ _ _ uid _ _ he, htag, hs => by
    obtain ⟨huid, hps⟩ :=
      Entries.finiteOrZero_writable he (.inl rfl) fun tok h => hs tok (List.mem_cons_of_mem _ h)
    have huid' : (uid == nullUid || Scan.isUid uid) = true := by
      rcases huid with rfl | h
      · simp
      · simp [h]
    simp only [Tree.finiteOrZero, Tree.writable, htag, huid', hps, Bool.and_self]
  | _, _, _, .list _ hi, htag, hs => by
    simp only [Tree.finiteOrZero, Tree.writable, htag,
      Items.finiteOrZero_writable hi fun tok h => hs tok (List.mem_cons_of_mem _ h), Bool.and_self]
  | _, _, _, .ints .., htag, _ => by simp [Tree.finiteOrZero, Tree.writable, htag]
  | _, _, _, .reals .., htag, _ => by
    -- a real array of the grammar has a first real
    simp [Tree.finiteOrZero, Tree.writable, htag, List.all_eq_true, Binary64.isFinite_finiteOrZero]
  | _, _, _, .raw .., htag, _ => by simp [Tree.finiteOrZero, Tree.writable, htag]

theorem Entries.finiteOrZero_writable : ∀ {uid : String} {ts : List Token} {uid' : String}
    {ps : List (String × Tree)}, Entries uid ts uid' ps → (uid = nullUid ∨ Scan.isUid uid = true) →
    (∀ tok ∈ ts, Scan.Spelled tok) →
    (uid' = nullUid ∨ Scan.isUid uid' = true) ∧
      Tree.writablePairs (Tree.finiteOrZeroPairs ps) = true
  | _, _, _, _, .close _, hu, _ => ⟨hu, rfl⟩
  | _, _, _, _, @Entries.pair _ _ key _ _ _ _ _ hk hid _ hv he, hu, hs => by
    obtain ⟨hu', hps⟩ := Entries.finiteOrZero_writable he hu fun tok h => hs tok (by simp [h])
    have hkey := isKey_of_spelled (hs key List.mem_cons_self) hk hid
    have hval := Value.finiteOrZero_writable hv fun tok h => hs tok (by simp [h])
    exact ⟨hu', by simp only [Tree.finiteOrZeroPairs, Tree.writablePairs, hkey, hval, hps,
      Bool.and_self]⟩
  | _, _, _, _, @Entries.id _ _ _ _ u _ _ _ _ _ hu _ he, _, hs =>
    -- a declared UID is spelled `#X`
    Entries.finiteOrZero_writable he (.inr ((hs u (by simp)).2.2 hu))
      fun tok h => hs tok (by simp [h])

theorem Items.finiteOrZero_writable : ∀ {ts : List Token} {items : List Tree}, Items ts items →
    (∀ tok ∈ ts, Scan.Spelled tok) → Tree.writableItems (Tree.finiteOrZeroItems items) = true
  | _, _, .close _, _ => rfl
  | _, _, .cons hv hi, hs => by
    simp only [Tree.finiteOrZeroItems, Tree.writableItems,
      Value.finiteOrZero_writable hv fun tok h => hs tok (List.mem_append_left _ h),
      Items.finiteOrZero_writable hi fun tok h => hs tok (List.mem_append_right _ h), Bool.and_self]
end

/-- A document of the grammar, with its tokens spelled as their kinds ask, is rooted at a
structure with a tag header, and is writable once its reals are finite. -/
theorem Document.finiteOrZero_writable {ts : List Token} {p : Parsed} (h : Document ts p)
    (hs : ∀ tok ∈ ts, Scan.Spelled tok) :
    ∃ tag uid line pairs, p.root = .struct tag uid line pairs ∧ Scan.isTag tag = true ∧
      p.root.finiteOrZero.writable = true := by
  cases h with
  | @mk hs' name tag o ts' uid ps _ htag ho hes =>
    have htag' : Scan.isTag tag.text = true := (hs tag (by simp)).1 htag
    refine ⟨tag.text, uid, o.line, ps, rfl, htag', ?_⟩
    exact Container.finiteOrZero_writable (.struct ho hes) (tagWritable_of_isTag htag')
      fun tok h => hs tok (by simp [h])

end Grammar

/-! ## The text of a planted tree -/

namespace Shape

variable (o : TextOptions) (used : String → Bool)

mutual
/-- The walks of a tree and of its finite-or-zero form are written alike, with the same
references. -/
theorem Mirrors.finiteOrZero : ∀ {t : Tree} {s s' : Shape}, s.Mirrors t →
    s'.Mirrors t.finiteOrZero →
    (∀ d, TextWrite.shape o used d s' = TextWrite.shape o used d s) ∧ s'.referenced = s.referenced
  | _, _, _, .scalar sc line, h' => by
    cases h'
    exact ⟨fun d => TextWrite.scalar_finiteOrZero sc, by cases sc <;> rfl⟩
  | _, _, _, .struct _ tag uid line ps qs hk hl, h' => by
    simp only [Tree.finiteOrZero] at h'
    cases h' with
    | struct _ _ _ _ ps' _ hk' hl' =>
      rw [Tree.finiteOrZeroPairs_snd] at hl'
      obtain ⟨htext, href⟩ := MirrorsList.finiteOrZero hl hl'
      have hkeys : ps'.map Prod.fst = ps.map Prod.fst := by
        rw [hk', Tree.finiteOrZeroPairs_fst, hk]
      refine ⟨fun d => ?_, by simp only [referenced, referencedPairs_eq, href]⟩
      simp only [TextWrite.shape,
        TextWrite.pairsText_congr o used d hkeys (htext.imp fun _ _ h => h (d + 1))]
  | _, _, _, .list _ tag line ss ts hl, h' => by
    simp only [Tree.finiteOrZero] at h'
    cases h' with
    | list _ _ _ ss' _ hl' =>
      obtain ⟨htext, href⟩ := MirrorsList.finiteOrZero hl hl'
      have hempty : ss'.isEmpty = ss.isEmpty := by cases htext <;> rfl
      refine ⟨fun d => ?_, by simp only [referenced, href]⟩
      simp only [TextWrite.shape, hempty,
        TextWrite.itemsText_congr o used d (htext.imp fun _ _ h => h (d + 1))]
  | _, _, _, .raw .., h' | _, _, _, .ints .., h' => by
    cases h'
    exact ⟨fun d => rfl, rfl⟩
  | _, _, _, .reals _ tag line xs, h' => by
    simp only [Tree.finiteOrZero] at h'
    cases h'
    exact ⟨fun d => by simp [TextWrite.shape, Function.comp_def], rfl⟩

theorem MirrorsList.finiteOrZero : ∀ {ts : List Tree} {ss ss' : List Shape}, MirrorsList ss ts →
    MirrorsList ss' (Tree.finiteOrZeroItems ts) →
    List.Forall₂ (fun s s' => ∀ d, TextWrite.shape o used d s' = TextWrite.shape o used d s)
        ss ss' ∧
      referencedItems ss' = referencedItems ss
  | _, _, _, .nil, h' => by
    cases h'
    exact ⟨.nil, rfl⟩
  | _, _, _, .cons h₁ h₂, h' => by
    simp only [Tree.finiteOrZeroItems] at h'
    cases h' with
    | cons h₁' h₂' =>
      obtain ⟨e₁, r₁⟩ := Mirrors.finiteOrZero h₁ h₁'
      obtain ⟨e₂, r₂⟩ := MirrorsList.finiteOrZero h₂ h₂'
      exact ⟨.cons e₁ e₂, by simp only [referencedItems, r₁, r₂]⟩
end

mutual
/-- A walk that is a tree reaches nothing again. -/
theorem Mirrors.repeatTags_eq : ∀ {s : Shape} {t : Tree}, s.Mirrors t → s.repeatTags = []
  | _, _, .scalar .. | _, _, .raw .. | _, _, .ints .. | _, _, .reals .. => rfl
  | _, _, .struct _ _ _ _ ps _ _ hl => by
    simp only [repeatTags, repeatTagsPairs_eq]
    exact MirrorsList.repeatTags_eq hl
  | _, _, .list _ _ _ _ _ hl => by
    simp only [repeatTags]
    exact MirrorsList.repeatTags_eq hl

theorem MirrorsList.repeatTags_eq : ∀ {ss : List Shape} {ts : List Tree}, MirrorsList ss ts →
    repeatTagsItems ss = []
  | _, _, .nil => rfl
  | _, _, .cons h₁ h₂ => by
    simp only [repeatTagsItems, Mirrors.repeatTags_eq h₁, MirrorsList.repeatTags_eq h₂,
      List.append_nil]
end

theorem Mirrors.eq_struct {s : Shape} {tag uid : String} {line : Nat}
    {qs : List (String × Tree)} (h : s.Mirrors (.struct tag uid line qs)) :
    ∃ id ps, s = .struct id tag uid line ps := by
  cases h with
  | struct id _ _ _ ps _ _ _ => exact ⟨id, ps, rfl⟩

end Shape

namespace Tree

/-- The text of a tree as a document of its own: planted afresh and written as text. -/
def text (t : Tree) : String := (Graph.plantRoot {} t).1.text (Graph.plantRoot {} t).2

/-- The UIDs the text of a tree declares: those its references name. -/
def declared (t : Tree) : String → Bool :=
  Usage.declares (some ((Graph.plantRoot {} t).1.usage (Graph.plantRoot {} t).2))

section Planted

variable (tag uid : String) (line : Nat) (pairs : List (String × Tree))

/-- **A planted tree is written as the tree its text reads back as**: without lines and
links, and with `#NULL` for the UIDs its text does not declare; that tree declares the same
UIDs. -/
theorem text_bare_dropUids :
    ((Tree.struct tag uid line pairs).bare.dropUids
        fun u => !(Tree.struct tag uid line pairs).declared u).text =
      (Tree.struct tag uid line pairs).text := by
  have hm := Graph.mirrors_walk_plantRoot {} tag uid line pairs
  obtain ⟨id, ps, hs⟩ := hm.eq_struct
  exact Graph.text_plantRoot_written hs (Shape.written_of_mirrors _ _ hm)
    (by simp [hm.repeatTags_eq])

/-- Whichever UIDs it drops, the bare form of a planted tree declares the UIDs the tree
declares: the references stay. -/
theorem declared_bare_dropUids (v : String → Bool) :
    ((Tree.struct tag uid line pairs).bare.dropUids fun u => !v u).declared =
      (Tree.struct tag uid line pairs).declared := by
  have hm := Graph.mirrors_walk_plantRoot {} tag uid line pairs
  obtain ⟨id, ps, hs⟩ := hm.eq_struct
  have hf := Graph.flattened_plantRoot_written hs (Shape.written_of_mirrors v _ hm)
  simp only [declared]
  rw [Graph.declares_usage, Graph.declares_usage, hf.referenced_eq]

/-- **A tree and its finite-or-zero form have the same text**: they declare the same UIDs, and
a real that is not finite is written as positive zero is. -/
theorem text_finiteOrZero :
    (Tree.struct tag uid line (finiteOrZeroPairs pairs)).text =
      (Tree.struct tag uid line pairs).text := by
  have hm := Graph.mirrors_walk_plantRoot {} tag uid line pairs
  have hm' : Shape.Mirrors _ (Tree.struct tag uid line pairs).finiteOrZero :=
    Graph.mirrors_walk_plantRoot {} tag uid line (finiteOrZeroPairs pairs)
  have hdecl : (Tree.struct tag uid line (finiteOrZeroPairs pairs)).declared =
      (Tree.struct tag uid line pairs).declared := by
    simp only [declared]
    rw [Graph.declares_usage, Graph.declares_usage,
      (Shape.Mirrors.finiteOrZero {} (fun _ => true) hm hm').2]
  simp only [declared] at hdecl
  simp only [text]
  rw [Graph.text_eq, Graph.text_eq, hdecl, (Shape.Mirrors.finiteOrZero {} _ hm hm').1 0]

end Planted

end Tree

namespace Graph

/-- **Text export is a fixpoint on documents read from text.** For every text the reader
accepts, the text of the document read reads back, and the document it reads back as is
written as that same text. Reals that are not finite, written `0.0`, and UIDs nothing
references, not written, are where the text of the document and the text read differ; both
are the writer's own forms after one pass. -/
theorem text_fixpoint {s : String} {p : Parsed} (h : Parsed.ofString s = .ok p) :
    ∃ p', Parsed.ofString p.root.text = .ok p' ∧ p'.root.text = p.root.text := by
  -- the document read is a structure the grammar derives from tokens spelled as their kinds ask
  obtain ⟨-, hdoc⟩ := Grammar.document_sound (show Parse.document
    ⟨(Lexed.ofString s).tokens, (Lexed.ofString s).ending⟩ = .ok p from h)
  obtain ⟨tag, uid, line, pairs, hroot, htag, hw⟩ :=
    hdoc.finiteOrZero_writable (Scan.lexFrom_spelled _ _)
  rw [hroot] at hw ⊢
  simp only [Tree.finiteOrZero] at hw
  have hfin := Tree.text_finiteOrZero tag uid line pairs
  -- its finite-or-zero form reads back from its text, which is the text of the document
  let D := Tree.struct tag uid line (Tree.finiteOrZeroPairs pairs)
  obtain ⟨p', hp', -, hbare⟩ := ofString_textWith_usage (o := {})
    (some ((plantRoot {} D).1.usage (plantRoot {} D).2))
    (mirrors_walk_plantRoot {} tag uid line (Tree.finiteOrZeroPairs pairs)) htag hw (by decide)
  refine ⟨p', by rw [← hfin]; exact hp', ?_⟩
  -- what reads back is, without lines and links, the finite-or-zero form with the UIDs its
  -- text does not declare dropped
  let Y := D.bare.dropUids fun u => !D.declared u
  have hY : p'.root.bare = Y := hbare
  obtain ⟨line', ps', hp'root⟩ := Tree.eq_struct_of_bare hY
  have hYY : Y.dropUids (fun u => !D.declared u) = Y := Tree.dropUids_dropUids _ D.bare
  have hdecl : p'.root.declared = D.declared := by
    calc p'.root.declared
        = (p'.root.bare.dropUids fun u => !D.declared u).declared := by
          rw [hp'root, Tree.declared_bare_dropUids]
      _ = Y.declared := by rw [hY, hYY]
      _ = D.declared := Tree.declared_bare_dropUids _ _ _ _ _
  calc p'.root.text
      = (p'.root.bare.dropUids fun u => !p'.root.declared u).text := by
        rw [hp'root, Tree.text_bare_dropUids]
    _ = Y.text := by rw [hdecl, hY, hYY]
    _ = D.text := Tree.text_bare_dropUids _ _ _ _
    _ = (Tree.struct tag uid line pairs).text := hfin

/-- A text with a real too large for a binary64, a negative zero, a hexadecimal integer, an
unknown escape kept as written and a UID nothing references. -/
def overflowText : String :=
  "VLX version=100 encoding=ascii\n<D> \x7b\n  ID = #U\n  x = 1e400\n  z = -0.0\n  h = 0x1F\n" ++
    "  s = \"a\\qb\"\n\x7d\n"

/-- The text with an overflowing real is read, and its document's text is a fixpoint. -/
theorem text_fixpoint_overflow :
    ∃ p, Parsed.ofString overflowText = .ok p ∧
      ∃ p', Parsed.ofString p.root.text = .ok p' ∧ p'.root.text = p.root.text := by
  have hok : (Parsed.ofString overflowText).toBool = true := by decide +kernel
  cases hp : Parsed.ofString overflowText with
  | error e => rw [hp] at hok; cases hok
  | ok p => exact ⟨p, rfl, text_fixpoint hp⟩

end Graph

end GraphDoc
