import GraphDoc.Proofs.WrittenTokens
import GraphDoc.Proofs.BinaryRoundTrip
/-! # Parsing the tokens of a written tree

The parser reads the kind and text of each token and keeps its line. Given any tokens whose
kinds and texts are those the writer emits for a writable tree (`Tree.views`), it rebuilds
the tree: the same tags, keys in order and scalars, the UIDs the writer declared and `#NULL`
for the others. Only lines differ, and `Tree.bare` forgets them.

* A scalar token reads back as its scalar (`scalar_view`).
* A value, the pairs of a structure and the items of a list read back, whatever tokens
  follow them (`value_views`, `body_views`, `listItems_views`), by induction on the tree.
* The header and a root structure make the document (`document_views`).
-/
namespace GraphDoc

namespace Parse

open Scan

theorem scalar_view {sc : Scalar} (hw : sc.writable = true) {tok : Token}
    (hv : tok.view = sc.view) : Parse.scalar tok = .ok sc.unlinked := by
  obtain ⟨kind, text, line⟩ := tok
  cases sc with
  | bool b =>
    simp only [Token.view, Scalar.view, Prod.mk.injEq] at hv
    obtain ⟨rfl, rfl⟩ := hv
    cases b <;> rfl
  | int n =>
    simp only [Token.view, Scalar.view, Prod.mk.injEq] at hv
    obtain ⟨rfl, rfl⟩ := hv
    simp only [Parse.scalar, Parse.integer, integerValue_toString]
    rfl
  | real x =>
    simp only [Token.view, Scalar.view, Prod.mk.injEq] at hv
    obtain ⟨rfl, rfl⟩ := hv
    simp only [Parse.scalar, Parse.real, TextWrite.read?_real hw]
    rfl
  | str s | ident s | uid s _ =>
    simp only [Token.view, Scalar.view, Prod.mk.injEq] at hv
    obtain ⟨rfl, rfl⟩ := hv
    rfl

section Parsing

variable (ending : Ending)

/-- A token of a scalar is a value on its own. -/
theorem value_scalar {sc : Scalar} {first : Token} (hk : first.kind = sc.view.1) (ts : List Token) :
    Parse.value ending first ts = (Parse.scalar first).map fun s => (.scalar s first.line, ts) := by
  rw [Parse.value.eq_def]
  cases sc <;> simp [hk, Scalar.view]

/-- The tokens of a tag and an opener start the container they open. -/
theorem value_container {tag : String} {k : TokenKind} {o : String}
    (hk : k = .leftCurly ∨ k = .leftSquare ∨ k = .leftRound ∨ k = .leftFancy) {toks : List Token}
    {vs : List (TokenKind × String)} (hv : toks.map Token.view = Tree.tagViews tag ++ (k, o) :: vs) :
    ∃ first ts opener ts', toks = first :: ts ∧ opener.kind = k ∧ ts'.map Token.view = vs ∧
      ∀ rest, Parse.value ending first (ts ++ rest) = Parse.container ending tag opener (ts' ++ rest) := by
  unfold Tree.tagViews at hv
  by_cases he : tag.isEmpty = true
  · -- no tag: the opener comes first
    rw [if_pos he, List.nil_append, List.map_eq_cons_iff] at hv
    obtain ⟨opener, ts', rfl, hop, hts⟩ := hv
    have hkind : opener.kind = k := congrArg Prod.fst hop
    refine ⟨opener, ts', opener, ts', rfl, hkind, hts, fun rest => ?_⟩
    rw [String.isEmpty_iff.1 he, Parse.value.eq_def]
    rcases hk with rfl | rfl | rfl | rfl <;> simp [hkind]
  · rw [if_neg he, List.singleton_append, List.map_eq_cons_iff] at hv
    obtain ⟨first, ts, rfl, hfirst, hts⟩ := hv
    rw [List.map_eq_cons_iff] at hts
    obtain ⟨opener, ts', rfl, hop, hts'⟩ := hts
    obtain ⟨fk, ft, fl⟩ := first
    simp only [Token.view, Prod.mk.injEq] at hfirst
    obtain ⟨rfl, rfl⟩ := hfirst
    refine ⟨_, _, opener, ts', rfl, congrArg Prod.fst hop, hts', fun rest => ?_⟩
    rw [Parse.value.eq_def]
    simp

/-- A structure is its body after `{`. -/
theorem container_struct {tag uid : String} {opener : Token} (hk : opener.kind = .leftCurly)
    {ts rest : List Token} {ps : List (String × Tree)}
    (hbody : Parse.body ending nullUid [] ts = .ok (uid, ps, rest)) :
    Parse.container ending tag opener ts = .ok (.struct tag uid opener.line ps, rest) := by
  rw [Parse.container.eq_def]
  simp [hk, hbody]

/-- A list is its items after `[`. -/
theorem container_list {tag : String} {opener : Token} (hk : opener.kind = .leftSquare)
    {ts rest : List Token} {items : List Tree}
    (hitems : Parse.listItems ending [] ts = .ok (items, rest)) :
    Parse.container ending tag opener ts = .ok (.list tag opener.line items, rest) := by
  rw [Parse.container.eq_def]
  simp [hk, hitems]

/-- A rawtext block is its body between `{<` and `>}`. -/
theorem container_raw {tag : String} {opener b c : Token} (hk : opener.kind = .leftFancy)
    (hb : b.kind = .rawtext) (hc : c.kind = .rightFancy) (rest : List Token) :
    Parse.container ending tag opener (b :: c :: rest) = .ok (.raw tag opener.line b.text, rest) := by
  rw [Parse.container.eq_def]
  simp [hk, hb, hc]

/-- An array is its elements after `(`. -/
theorem container_array {tag : String} {opener : Token} (hk : opener.kind = .leftRound)
    (ts : List Token) :
    Parse.container ending tag opener ts = Parse.array ending tag opener.line [] none ts := by
  rw [Parse.container.eq_def]
  simp [hk]

/-- Integer elements up to `)` make an integer array. -/
theorem array_ints (tag : String) (line : Nat) :
    ∀ (vs acc : List Int64) (ts rest : List Token) {close : Token},
    ts.map Token.view = vs.map (fun v => (.integer, toString v.toInt)) → close.kind = .rightRound →
    Parse.array ending tag line acc none (ts ++ close :: rest) =
      .ok (.ints tag line (acc.reverse ++ vs), rest)
  | [], acc, ts, rest, close, hv, hc => by
    rw [List.map_nil, List.map_eq_nil_iff] at hv
    subst hv
    rw [List.nil_append, Parse.array]
    simp [hc]
  | v :: vs, acc, ts, rest, close, hv, hc => by
    rw [List.map_cons, List.map_eq_cons_iff] at hv
    obtain ⟨⟨k, text, l⟩, ts', rfl, hfirst, hts⟩ := hv
    simp only [Token.view, Prod.mk.injEq] at hfirst
    obtain ⟨rfl, rfl⟩ := hfirst
    rw [List.cons_append, Parse.array]
    simp only [Parse.integer, integerValue_toString, Wire.Reader.except_ok_bind]
    rw [array_ints tag line vs (v :: acc) ts' rest hts hc]
    simp

/-- Real elements up to `)`, after a first real, make a real array. -/
theorem array_reals (tag : String) (line : Nat) :
    ∀ (xs acc : List Binary64) (ts rest : List Token) {close : Token}, (∀ x ∈ xs, x.isFinite = true) →
    ts.map Token.view = xs.map (fun x => (.real, TextWrite.real x)) → close.kind = .rightRound →
    Parse.array ending tag line [] (some acc) (ts ++ close :: rest) =
      .ok (.reals tag line (acc.reverse ++ xs), rest)
  | [], acc, ts, rest, close, _, hv, hc => by
    rw [List.map_nil, List.map_eq_nil_iff] at hv
    subst hv
    rw [List.nil_append, Parse.array]
    simp [hc]
  | x :: xs, acc, ts, rest, close, hfin, hv, hc => by
    rw [List.map_cons, List.map_eq_cons_iff] at hv
    obtain ⟨⟨k, text, l⟩, ts', rfl, hfirst, hts⟩ := hv
    simp only [Token.view, Prod.mk.injEq] at hfirst
    obtain ⟨rfl, rfl⟩ := hfirst
    rw [List.cons_append, Parse.array]
    simp only [Parse.real, TextWrite.read?_real (hfin x (by simp)), List.isEmpty_nil, Bool.not_true,
      Bool.false_eq_true, if_false, Option.getD_some, Wire.Reader.except_ok_bind]
    rw [array_reals tag line xs (x :: acc) ts' rest (fun y hy => hfin y (by simp [hy])) hts hc]
    simp

/-- The first real of an array starts the list of reals. -/
theorem array_first_real (tag : String) (line : Nat) {x : Binary64} (hx : x.isFinite = true)
    {tok : Token} (hv : tok.view = (.real, TextWrite.real x)) (ts : List Token) :
    Parse.array ending tag line [] none (tok :: ts) = Parse.array ending tag line [] (some [x]) ts := by
  obtain ⟨k, text, l⟩ := tok
  simp only [Token.view, Prod.mk.injEq] at hv
  obtain ⟨rfl, rfl⟩ := hv
  rw [Parse.array]
  simp [Parse.real, TextWrite.read?_real hx, Wire.Reader.except_ok_bind]

/-- A value never starts with the `]` that closes a list. -/
theorem kind_ne_rightSquare {first : Token} {ts : List Token} {r : Tree × List Token}
    (h : Parse.value ending first ts = .ok r) : first.kind ≠ .rightSquare := by
  intro hk
  rw [Parse.value.eq_def] at h
  simp [hk, Parse.scalar, Except.map] at h

theorem isReservedKey_of_isKey {k : String} (h : isKey k = true) :
    isReservedKey k = false ∧ k ≠ "ID" := by
  simp only [isKey, Bool.and_eq_true, bne_iff_ne, ne_eq] at h
  refine ⟨by simp [isReservedKey, h.2], ?_⟩
  rintro rfl
  exact h.2 (by decide +kernel)

variable (used : String → Bool)

/-- The line declaring a UID sets the UID of the structure. -/
theorem body_uidViews {uid : String} {utoks : List Token}
    (hv : utoks.map Token.view = Tree.uidViews used uid) (ts : List Token) :
    Parse.body ending nullUid [] (utoks ++ ts) =
      Parse.body ending (if uid != nullUid && used uid then uid else nullUid) [] ts := by
  unfold Tree.uidViews at hv
  split_ifs at hv ⊢ with hc
  · -- the three tokens `ID`, `=` and the UID
    rw [List.map_eq_cons_iff] at hv
    obtain ⟨⟨k1, t1, l1⟩, r1, rfl, h1, hv⟩ := hv
    rw [List.map_eq_cons_iff] at hv
    obtain ⟨⟨k2, t2, l2⟩, r2, rfl, h2, hv⟩ := hv
    rw [List.map_eq_cons_iff] at hv
    obtain ⟨⟨k3, t3, l3⟩, r3, rfl, h3, hv⟩ := hv
    rw [List.map_eq_nil_iff] at hv
    subst hv
    simp only [Token.view, Prod.mk.injEq] at h1 h2 h3
    obtain ⟨rfl, rfl⟩ := h1
    obtain ⟨rfl, rfl⟩ := h2
    obtain ⟨rfl, rfl⟩ := h3
    rw [Parse.body.eq_def]
    simp [isReservedKey]
  · rw [List.map_eq_nil_iff] at hv
    subst hv
    rfl

mutual
/-- **The tokens of a writable tree read back as the tree**, whatever tokens follow them: the
same tags, keys and scalars, the UIDs the writer declared and `#NULL` for the others. -/
theorem value_views : ∀ (t : Tree) (toks rest : List Token), t.writable = true →
    toks.map Token.view = t.views used →
    ∃ first ts t', toks = first :: ts ∧ Parse.value ending first (ts ++ rest) = .ok (t', rest) ∧
      t'.bare = t.bare.dropUids fun u => !used u
  | .scalar sc line, toks, rest, hw, hv => by
    rw [Tree.views, List.map_eq_singleton_iff] at hv
    obtain ⟨first, rfl, hf⟩ := hv
    refine ⟨first, [], .scalar sc.unlinked first.line, rfl, ?_, ?_⟩
    · rw [List.nil_append, value_scalar ending (congrArg Prod.fst hf), scalar_view hw hf]
      rfl
    · cases sc <;> rfl
  | .struct tag uid line qs, toks, rest, hw, hv => by
    simp only [Tree.writable, Bool.and_eq_true] at hw
    obtain ⟨-, hps⟩ := hw
    obtain ⟨first, ts, opener, ts', rfl, hk, hv', hval⟩ := value_container ending (.inl rfl) hv
    -- the UID line, the pairs and the closing brace
    obtain ⟨utoks, r1, rfl, hu, hr1⟩ := List.map_eq_append_iff.1 hv'
    obtain ⟨ptoks, ctoks, rfl, hp, hc⟩ := List.map_eq_append_iff.1 hr1
    obtain ⟨close, rfl, hclose⟩ := List.map_eq_singleton_iff.1 hc
    obtain ⟨ps, hbody, hbare⟩ := body_views qs (if uid != nullUid && used uid then uid else nullUid)
      [] ptoks rest close hps hp (congrArg Prod.fst hclose)
    rw [List.reverse_nil, List.nil_append, ← body_uidViews ending used hu] at hbody
    refine ⟨first, ts, .struct tag (if uid != nullUid && used uid then uid else nullUid)
      opener.line ps, rfl, ?_, ?_⟩
    · rw [hval, List.append_assoc, List.append_assoc, List.singleton_append,
        container_struct ending hk hbody]
    · simp only [Tree.bare, Tree.dropUids, hbare, Shape.keptUid_eq]
  | .list tag line ts0, toks, rest, hw, hv => by
    simp only [Tree.writable, Bool.and_eq_true] at hw
    obtain ⟨-, hts⟩ := hw
    obtain ⟨first, ts, opener, ts', rfl, hk, hv', hval⟩ :=
      value_container ending (.inr (.inl rfl)) hv
    obtain ⟨itoks, ctoks, rfl, hi, hc⟩ := List.map_eq_append_iff.1 hv'
    obtain ⟨close, rfl, hclose⟩ := List.map_eq_singleton_iff.1 hc
    obtain ⟨items, hitems, hbare⟩ := listItems_views ts0 [] itoks rest close hts hi
      (congrArg Prod.fst hclose)
    rw [List.reverse_nil, List.nil_append] at hitems
    refine ⟨first, ts, .list tag opener.line items, rfl, ?_, ?_⟩
    · rw [hval, List.append_assoc, List.singleton_append, container_list ending hk hitems]
    · simp only [Tree.bare, Tree.dropUids, hbare]
  | .raw tag line text, toks, rest, _, hv => by
    obtain ⟨first, ts, opener, ts', rfl, hk, hv', hval⟩ :=
      value_container ending (.inr (.inr (.inr rfl))) hv
    rw [List.map_eq_cons_iff] at hv'
    obtain ⟨b, r, rfl, hb, hv'⟩ := hv'
    obtain ⟨c, rfl, hc⟩ := List.map_eq_singleton_iff.1 hv'
    refine ⟨first, ts, .raw tag opener.line b.text, rfl, ?_, ?_⟩
    · rw [hval, List.cons_append, List.singleton_append,
        container_raw ending hk (congrArg Prod.fst hb) (congrArg Prod.fst hc)]
    · have htext : b.text = text := congrArg Prod.snd hb
      simp [Tree.bare, Tree.dropUids, htext]
  | .ints tag line vs, toks, rest, _, hv => by
    obtain ⟨first, ts, opener, ts', rfl, hk, hv', hval⟩ :=
      value_container ending (.inr (.inr (.inl rfl))) hv
    obtain ⟨etoks, ctoks, rfl, he, hc⟩ := List.map_eq_append_iff.1 hv'
    obtain ⟨close, rfl, hclose⟩ := List.map_eq_singleton_iff.1 hc
    refine ⟨first, ts, .ints tag opener.line vs, rfl, ?_, rfl⟩
    rw [hval, List.append_assoc, List.singleton_append, container_array ending hk,
      array_ints ending tag _ vs [] etoks rest he (congrArg Prod.fst hclose)]
    simp
  | .reals tag line xs, toks, rest, hw, hv => by
    simp only [Tree.writable, Bool.and_eq_true, List.all_eq_true] at hw
    obtain ⟨⟨-, hne⟩, hfin⟩ := hw
    obtain ⟨first, ts, opener, ts', rfl, hk, hv', hval⟩ :=
      value_container ending (.inr (.inr (.inl rfl))) hv
    obtain ⟨etoks, ctoks, rfl, he, hc⟩ := List.map_eq_append_iff.1 hv'
    obtain ⟨close, rfl, hclose⟩ := List.map_eq_singleton_iff.1 hc
    -- the array holds a real, which makes it a real array
    obtain ⟨x, xs', rfl⟩ := List.exists_cons_of_ne_nil (by simpa using hne)
    rw [List.map_cons, List.map_eq_cons_iff] at he
    obtain ⟨e, etoks', rfl, he1, he'⟩ := he
    refine ⟨first, ts, .reals tag opener.line (x :: xs'), rfl, ?_, rfl⟩
    rw [hval, List.append_assoc, List.singleton_append, container_array ending hk, List.cons_append,
      array_first_real ending tag _ (hfin x (by simp)) he1,
      array_reals ending tag _ xs' [x] etoks' rest (fun y hy => hfin y (by simp [hy])) he'
        (congrArg Prod.fst hclose)]
    simp

/-- The tokens of the pairs of a structure, then `}`, read back as the pairs. -/
theorem body_views : ∀ (qs : List (String × Tree)) (u : String) (acc : List (String × Tree))
    (ts rest : List Token) (close : Token), Tree.writablePairs qs = true →
    ts.map Token.view = Tree.pairsViews used qs → close.kind = .rightCurly →
    ∃ ps, Parse.body ending u acc (ts ++ close :: rest) = .ok (u, acc.reverse ++ ps, rest) ∧
      Tree.barePairs ps = Tree.dropUidsPairs (fun u => !used u) (Tree.barePairs qs)
  | [], u, acc, ts, rest, close, _, hv, hc => by
    rw [Tree.pairsViews, List.map_eq_nil_iff] at hv
    subst hv
    refine ⟨[], ?_, rfl⟩
    rw [List.nil_append, Parse.body.eq_def]
    simp [hc]
  | (k, t) :: qs, u, acc, ts, rest, close, hw, hv, hc => by
    simp only [Tree.writablePairs, Bool.and_eq_true] at hw
    obtain ⟨⟨hk, hwt⟩, hws⟩ := hw
    obtain ⟨hres, hID⟩ := isReservedKey_of_isKey hk
    rw [Tree.pairsViews, List.map_eq_cons_iff] at hv
    obtain ⟨⟨k1, t1, l1⟩, r1, rfl, h1, hv⟩ := hv
    rw [List.map_eq_cons_iff] at hv
    obtain ⟨⟨k2, t2, l2⟩, r2, rfl, h2, hv⟩ := hv
    simp only [Token.view, Prod.mk.injEq] at h1 h2
    obtain ⟨rfl, rfl⟩ := h1
    obtain ⟨rfl, rfl⟩ := h2
    -- the value's tokens, then the tokens of the other pairs
    obtain ⟨vtoks, ptoks, rfl, hvv, hpv⟩ := List.map_eq_append_iff.1 hv
    obtain ⟨first, vts, v, rfl, hval, hbare⟩ := value_views t _ (ptoks ++ close :: rest) hwt hvv
    obtain ⟨ps, hbody, hps⟩ := body_views qs u ((t1, v) :: acc) ptoks rest close hws hpv hc
    refine ⟨(t1, v) :: ps, ?_, ?_⟩
    · rw [Parse.body.eq_def]
      simp [hres, hID, hval, hbody]
    · simp only [Tree.barePairs, Tree.dropUidsPairs, hbare, hps]

/-- The tokens of the items of a list, then `]`, read back as the items. -/
theorem listItems_views : ∀ (ts0 : List Tree) (acc : List Tree) (ts rest : List Token)
    (close : Token), Tree.writableItems ts0 = true → ts.map Token.view = Tree.itemsViews used ts0 →
    close.kind = .rightSquare →
    ∃ items, Parse.listItems ending acc (ts ++ close :: rest) = .ok (acc.reverse ++ items, rest) ∧
      Tree.bareItems items = Tree.dropUidsItems (fun u => !used u) (Tree.bareItems ts0)
  | [], acc, ts, rest, close, _, hv, hc => by
    rw [Tree.itemsViews, List.map_eq_nil_iff] at hv
    subst hv
    refine ⟨[], ?_, rfl⟩
    rw [List.nil_append, Parse.listItems.eq_def]
    simp [hc]
  | t :: ts0, acc, ts, rest, close, hw, hv, hc => by
    simp only [Tree.writableItems, Bool.and_eq_true] at hw
    rw [Tree.itemsViews] at hv
    obtain ⟨vtoks, itoks, rfl, hvv, hiv⟩ := List.map_eq_append_iff.1 hv
    obtain ⟨first, vts, v, rfl, hval, hbare⟩ := value_views t _ (itoks ++ close :: rest) hw.1 hvv
    obtain ⟨items, hitems, hbi⟩ := listItems_views ts0 (v :: acc) itoks rest close hw.2 hiv hc
    refine ⟨v :: items, ?_, ?_⟩
    · rw [Parse.listItems.eq_def]
      simp [kind_ne_rightSquare ending hval, hval, hitems]
    · simp only [Tree.bareItems, Tree.dropUidsItems, hbare, hbi]
end

/-! ## The document -/

/-- `word =` in the header. -/
theorem headerWord_views {word : String} {a b : Token} (ha : a.view = (.identifier, word))
    (hb : b.view = (.equals, "=")) (ts : List Token) :
    Parse.headerWord ending word (a :: b :: ts) = .ok ts := by
  obtain ⟨ka, ta, la⟩ := a
  obtain ⟨kb, tb, lb⟩ := b
  simp only [Token.view, Prod.mk.injEq] at ha hb
  obtain ⟨rfl, rfl⟩ := ha
  obtain ⟨rfl, rfl⟩ := hb
  simp [Parse.headerWord, Parse.pull, Wire.Reader.except_ok_bind]
  rfl

/-- The header's tokens are read as the header, whatever follows them. -/
theorem header_views {name : String} {htoks : List Token}
    (hv : htoks.map Token.view = headerViews name) (ts : List Token) :
    Parse.header ending (htoks ++ ts) = .ok (name, ts) := by
  have h100 : Parse.integerValue "100" = some Parse.versionNumber := by decide
  -- the seven tokens of the header, one by one
  rw [headerViews, List.map_eq_cons_iff] at hv
  obtain ⟨⟨k1, t1, l1⟩, r1, rfl, h1, hv⟩ := hv
  rw [List.map_eq_cons_iff] at hv
  obtain ⟨a2, r2, rfl, h2, hv⟩ := hv
  rw [List.map_eq_cons_iff] at hv
  obtain ⟨a3, r3, rfl, h3, hv⟩ := hv
  rw [List.map_eq_cons_iff] at hv
  obtain ⟨⟨k4, t4, l4⟩, r4, rfl, h4, hv⟩ := hv
  rw [List.map_eq_cons_iff] at hv
  obtain ⟨a5, r5, rfl, h5, hv⟩ := hv
  rw [List.map_eq_cons_iff] at hv
  obtain ⟨a6, r6, rfl, h6, hv⟩ := hv
  obtain ⟨⟨k7, t7, l7⟩, rfl, h7⟩ := List.map_eq_singleton_iff.1 hv
  simp only [Token.view, Prod.mk.injEq] at h1 h4 h7
  obtain ⟨rfl, rfl⟩ := h1
  obtain ⟨rfl, rfl⟩ := h4
  obtain ⟨rfl, rfl⟩ := h7
  simp [Parse.header, Parse.pull, headerWord_views ending h2 h3, headerWord_views ending h5 h6,
    Parse.integer, h100, Wire.Reader.except_ok_bind]
  rfl

end Parsing

/-- **The tokens of a header and of a tagged writable structure read back as the document**,
when the text ends after them. -/
theorem document_views (used : String → Bool) {lexed : Lexed} {n : Nat}
    (hend : lexed.ending = .endOfText n) {name tag uid : String} {line : Nat}
    {qs : List (String × Tree)} (htag : tag.isEmpty = false)
    (hw : (Tree.struct tag uid line qs).writable = true)
    (hv : lexed.tokens.map Token.view = headerViews name ++ (Tree.struct tag uid line qs).views used) :
    ∃ p, Parse.document lexed = .ok p ∧ p.formatName = name ∧
      p.root.bare = (Tree.struct tag uid line qs).bare.dropUids fun u => !used u := by
  obtain ⟨tokens, ending⟩ := lexed
  simp only at hend hv
  subst hend
  simp only [Tree.writable, Bool.and_eq_true] at hw
  obtain ⟨-, hps⟩ := hw
  obtain ⟨htoks, rtoks, rfl, hh, hr⟩ := List.map_eq_append_iff.1 hv
  -- the tag and the brace, then the UID line, the pairs and the closing brace
  rw [Tree.views, Tree.tagViews, if_neg (by simp [htag]), List.singleton_append,
    List.map_eq_cons_iff] at hr
  obtain ⟨⟨k1, t1, l1⟩, r1, rfl, h1, hr⟩ := hr
  rw [List.map_eq_cons_iff] at hr
  obtain ⟨opener, r2, rfl, h2, hr⟩ := hr
  simp only [Token.view, Prod.mk.injEq] at h1
  obtain ⟨rfl, rfl⟩ := h1
  obtain ⟨utoks, r3, rfl, hu, hr3⟩ := List.map_eq_append_iff.1 hr
  obtain ⟨ptoks, ctoks, rfl, hp, hc⟩ := List.map_eq_append_iff.1 hr3
  obtain ⟨close, rfl, hclose⟩ := List.map_eq_singleton_iff.1 hc
  obtain ⟨ps, hbody, hbare⟩ := body_views (.endOfText n) used qs
    (if uid != nullUid && used uid then uid else nullUid) [] ptoks [] close hps hp
    (congrArg Prod.fst hclose)
  rw [List.reverse_nil, List.nil_append, ← body_uidViews (.endOfText n) used hu] at hbody
  have hk : opener.kind = .leftCurly := congrArg Prod.fst h2
  refine ⟨⟨name, .struct t1 (if uid != nullUid && used uid then uid else nullUid) opener.line ps⟩,
    ?_, rfl, ?_⟩
  · simp [Parse.document, header_views _ hh, Parse.pull, hk, hbody, Wire.Reader.except_ok_bind]
    rfl
  · simp only [Tree.bare, Tree.dropUids, hbare, Shape.keptUid_eq]

end Parse

end GraphDoc
