import GraphDoc.Proofs.Scan
import GraphDoc.Proofs.Plant
/-! # The tokens of a written document

The text writer lays a document out with blanks, line breaks and indentation; the scanner
gives back the tokens of what it wrote, in order, with their kinds and texts. This holds of
the documents whose names and numbers the grammar can spell: tags `<X>`, keys and
identifiers that are names other than `true`, `false` (and, for keys, other than any spelling
of `ID`), UIDs `#X`, finite reals, and no empty real array, which would read back as an empty
integer array (`Tree.writable`).

* `Tree.views used t` lists the kind and text of each token the writer emits for the tree `t`,
  declaring the UIDs `used` selects.
* Every scalar, tag and array lexes as its tokens (`lexes_scalar`, `lexes_array`), and so does
  every written walk of a writable tree (`lexes_shape`), by induction on the tree with what
  follows each pair and item left free.
* A whole text lexes as the header's seven tokens and the root's (`lexed_textWith`).
-/
namespace GraphDoc

namespace Scan

/-! ## What the grammar can spell -/

/-- A tag header `<X>`, with `X` one or more name characters. -/
def isTag (s : String) : Bool :=
  match s.toList with
  | '<' :: r => r.getLast? == some '>' && 2 ≤ r.length && r.dropLast.all isNameChar
  | _ => false

/-- A UID `#X`, with `X` one or more name characters. -/
def isUid (s : String) : Bool :=
  match s.toList with
  | '#' :: r => !r.isEmpty && r.all isNameChar
  | _ => false

/-- A name that scans as an identifier: a letter or underscore, then name characters, other
than the two booleans. -/
def isWord (s : String) : Bool :=
  match s.toList with
  | c :: r => (c.isAlpha || c == '_') && r.all isNameChar && s != "true" && s != "false"
  | [] => false

/-- A key the parser takes as a key: a word that is no spelling of `ID`. -/
def isKey (s : String) : Bool := isWord s && s.toLower != "id"

theorem isTag_spec {s : String} (h : isTag s = true) :
    ∃ name : List Char, name ≠ [] ∧ (∀ c ∈ name, isNameChar c = true) ∧
      s.toList = '<' :: (name ++ ['>']) := by
  unfold isTag at h
  split at h
  · next r hs =>
    simp only [Bool.and_eq_true, beq_iff_eq, decide_eq_true_eq, List.all_eq_true] at h
    obtain ⟨⟨hlast, hlen⟩, hall⟩ := h
    have hne : r ≠ [] := by rintro rfl; simp at hlen
    refine ⟨r.dropLast, ?_, hall, ?_⟩
    · intro h0
      have := congrArg List.length h0
      simp only [List.length_dropLast, List.length_nil] at this
      omega
    · have hl : r.getLast hne = '>' := by
        rw [List.getLast?_eq_some_getLast hne] at hlast
        exact Option.some.inj hlast
      rw [hs, ← hl, List.dropLast_append_getLast]
  · simp at h

theorem isUid_spec {s : String} (h : isUid s = true) :
    ∃ name : List Char, name ≠ [] ∧ (∀ c ∈ name, isNameChar c = true) ∧ s.toList = '#' :: name := by
  unfold isUid at h
  split at h
  · next r hs =>
    simp only [Bool.and_eq_true, Bool.not_eq_true', List.isEmpty_eq_false_iff,
      List.all_eq_true] at h
    exact ⟨r, h.1, h.2, hs⟩
  · simp at h

theorem isWord_spec {s : String} (h : isWord s = true) :
    ∃ c r, (c.isAlpha = true ∨ c = '_') ∧ (∀ x ∈ r, isNameChar x = true) ∧ s.toList = c :: r ∧
      s ≠ "true" ∧ s ≠ "false" := by
  unfold isWord at h
  split at h
  · next c r hs =>
    simp only [Bool.and_eq_true, Bool.or_eq_true, beq_iff_eq, List.all_eq_true, bne_iff_ne,
      ne_eq] at h
    obtain ⟨⟨⟨hc, hr⟩, ht⟩, hf⟩ := h
    exact ⟨c, r, hc, hr, hs, ht, hf⟩
  · simp at h

/-! ## Single tokens -/

theorem delimits_cons {c : Char} (hc : isBlankChar c = true) (r : List Char) : Delimits (c :: r) := by
  rintro c' r' h
  obtain ⟨rfl, -⟩ := List.cons.inj h
  exact hc

theorem tokenStart_of_nameStart {c : Char} (hc : c.isAlpha = true ∨ c = '_') : TokenStart c := by
  rcases hc with hc | rfl
  · have hne : ∀ d : Char, d.isAlpha = false → c ≠ d := by rintro d hd rfl; simp_all
    refine ⟨?_, hne '/' rfl⟩
    simp [isBlankChar, hne ' ' rfl, hne '\t' rfl, hne '\r' rfl, hne '\n' rfl]
  · exact ⟨rfl, by decide⟩

theorem lexes_tag {s : String} (h : isTag s = true) : Lexes s.toList [(.tagHeader, s)] := by
  obtain ⟨name, hne, hr, hs⟩ := isTag_spec h
  have hv : String.ofList ('<' :: (name ++ ['>'])) = s := by rw [← hs, String.ofList_toList]
  have hl := (scans_tag hne hr).lexes ⟨rfl, by decide⟩
  rw [hs]
  rwa [List.cons_append, hv] at hl

theorem lexes_uid {s : String} (h : isUid s = true) : Lexes s.toList [(.uid, s)] := by
  obtain ⟨name, hne, hr, hs⟩ := isUid_spec h
  have hv : String.ofList ('#' :: name) = s := by rw [← hs, String.ofList_toList]
  have hl := (scans_uid hne hr).lexes ⟨rfl, by decide⟩
  rw [hs]
  rwa [hv] at hl

theorem lexes_word {s : String} (h : isWord s = true) : Lexes s.toList [(.identifier, s)] := by
  obtain ⟨c, r, hc, hr, hs, ht, hf⟩ := isWord_spec h
  have hv : String.ofList (c :: r) = s := by rw [← hs, String.ofList_toList]
  have hl := (scans_name hc hr).lexes (tokenStart_of_nameStart hc)
  rw [hs]
  simpa [hv, ht, hf] using hl

theorem lexes_bool (b : Bool) :
    Lexes (if b then "true" else "false").toList [(.boolean, if b then "true" else "false")] := by
  cases b
  · exact (scans_name (c := 'f') (r := "alse".toList) (.inl rfl) (List.all_eq_true.1 (by decide))).lexes ⟨rfl, by decide⟩
  · exact (scans_name (c := 't') (r := "rue".toList) (.inl rfl) (List.all_eq_true.1 (by decide))).lexes ⟨rfl, by decide⟩

theorem lexes_escapeString (s : String) :
    Lexes (TextWrite.escapeString s).toList [(.string, s)] := by
  have hl := (scans_string s.toList).lexes ⟨rfl, by decide⟩
  simpa [TextWrite.escapeString] using hl

theorem lexes_rawBlock (text : String) :
    Lexes ("\x7b<\n" ++ TextWrite.escapeRawtext text ++ "\n>\x7d").toList
      [(.leftFancy, "\x7b<"), (.rawtext, text), (.rightFancy, ">\x7d")] := by
  have hl := (scans_raw text.toList).lexes ⟨rfl, by decide⟩
  simpa [escapeRawtext_toList] using hl

theorem lexes_single {c : Char} {k : TokenKind} {t : String} (h : single c = some k)
    (hc : TokenStart c) (ht : c.toString = t) : Lexes [c] [(k, t)] :=
  ht ▸ (scans_single h).lexes hc

/-! ## Gluing lexed texts -/

/-- Blanks, then a token, then a blank before the rest. -/
theorem Lexes.then {a b : List Char} {va vb : List (TokenKind × String)} (ha : Lexes a va)
    {c : Char} (hc : isBlankChar c = true) (hb : Lexes b vb) : Lexes (a ++ c :: b) (va ++ vb) :=
  ha.append (show Lexes ([c] ++ b) vb from hb.blanks (by simpa using hc)) (delimits_cons hc b)

/-- A line `k = v` at an indentation, then a line break and the text after it. -/
theorem lexes_assignment {ind k v x : List Char} {kv : TokenKind × String}
    {vv vx : List (TokenKind × String)} (hind : ∀ c ∈ ind, isBlankChar c = true)
    (hk : Lexes k [kv]) (hv : Lexes v vv) (hx : Lexes x vx) :
    Lexes (ind ++ (k ++ (' ' :: '=' :: ' ' :: (v ++ '\n' :: x))))
      (kv :: (.equals, "=") :: (vv ++ vx)) := by
  have hrhs : Lexes ('=' :: ' ' :: (v ++ '\n' :: x)) ((.equals, "=") :: (vv ++ vx)) :=
    (lexes_single (c := '=') rfl ⟨rfl, by decide⟩ (by decide)).then (c := ' ') rfl (hv.then rfl hx)
  exact (hk.then (c := ' ') rfl hrhs).blanks hind

/-! ## Arrays -/

section Arrays

variable {items : List String} {vs : List (TokenKind × String)}

/-- Elements each followed by a space, then the text after them. -/
theorem lexes_spaced (h : List.Forall₂ (fun x v => Lexes x.toList [v]) items vs)
    {tail : List Char} {vt : List (TokenKind × String)} (ht : Lexes tail vt) :
    Lexes ((String.join (items.map (· ++ " "))).toList ++ tail) (vs ++ vt) := by
  induction h with
  | nil => simpa using ht
  | cons hx _ ih => simpa using hx.then (c := ' ') rfl ih

/-- One line of a chunked array: its elements with a space between them, then a blank. -/
theorem lexes_intercalate {x : String} {v : TokenKind × String}
    (h : List.Forall₂ (fun x v => Lexes x.toList [v]) (x :: items) (v :: vs))
    {tail : List Char} {vt : List (TokenKind × String)} (ht : Lexes tail vt) (hd : Delimits tail) :
    Lexes ((" ".intercalate (x :: items)).toList ++ tail) (v :: (vs ++ vt)) := by
  induction items generalizing x v vs with
  | nil =>
    cases h with
    | cons hx hrest =>
      cases hrest
      simpa using hx.append ht hd
  | cons y ys ih =>
    cases h with
    | cons hx hrest =>
      cases hrest with
      | cons hy hys =>
        have hl := ih (List.Forall₂.cons hy hys)
        simp only [String.toList_intercalate, List.map_cons, List.intercalate_cons_cons] at hl ⊢
        simpa using hx.then (c := ' ') rfl hl

/-- Lines that each start with a line break, then a delimited text, are delimited. -/
theorem delimits_lines (ls : List (List String)) (ind : String) {tail : List Char}
    (hd : Delimits tail) :
    Delimits ((String.join (ls.map fun line => "\n" ++ ind ++ " ".intercalate line)).toList ++
      tail) := by
  cases ls with
  | nil => simpa using hd
  | cons l ls =>
    simp only [List.map_cons, String.join_cons, String.toList_append, List.append_assoc]
    exact delimits_cons rfl _

/-- The lines of a chunked array, each a line break, an indent and a chunk of elements. -/
theorem lexes_chunks (n : Nat) {ind : String} (hind : ∀ c ∈ ind.toList, isBlankChar c = true)
    (items : List String) {vs : List (TokenKind × String)}
    (h : List.Forall₂ (fun x v => Lexes x.toList [v]) items vs) {tail : List Char}
    {vt : List (TokenKind × String)} (ht : Lexes tail vt) (hd : Delimits tail) :
    Lexes ((String.join ((TextWrite.chunks n items).map fun line =>
      "\n" ++ ind ++ " ".intercalate line)).toList ++ tail) (vs ++ vt) := by
  induction items using TextWrite.chunks.induct n generalizing vs with
  | case1 =>
    cases h
    simpa [TextWrite.chunks] using ht
  | case2 x xs ih =>
    cases h with
    | cons hx hxs =>
      rename_i v vs'
      -- a chunk is the first element and the next `n`; the rest is chunked the same way
      have hrest := ih (List.forall₂_drop n hxs)
      have hline := lexes_intercalate (List.Forall₂.cons hx (List.forall₂_take n hxs)) hrest
        (delimits_lines _ ind hd)
      have hblank : ∀ c ∈ '\n' :: ind.toList, isBlankChar c = true :=
        List.forall_mem_cons.2 ⟨rfl, hind⟩
      have h := hline.blanks hblank
      rw [← List.append_assoc (List.take n vs'), List.take_append_drop] at h
      simpa [TextWrite.chunks.eq_2] using h

end Arrays

end Scan

/-! ## Writable documents and their tokens -/

namespace Scalar

/-- Whether text writes the scalar as a token that reads back as it: a finite real, an
identifier that is a word, a UID reference `#X`. -/
def writable : Scalar → Bool
  | .real x => x.isFinite
  | .ident s => Scan.isWord s
  | .uid name _ => Scan.isUid name
  | _ => true

/-- The kind and text of the token text writes for the scalar. -/
def view : Scalar → TokenKind × String
  | .bool b => (.boolean, if b then "true" else "false")
  | .int n => (.integer, toString n.toInt)
  | .real x => (.real, TextWrite.real x)
  | .str s => (.string, s)
  | .ident s => (.identifier, s)
  | .uid name _ => (.uid, name)

end Scalar

namespace Tree

/-- An absent tag, or a tag header `<X>`. -/
def tagWritable (tag : String) : Bool := tag.isEmpty || Scan.isTag tag

mutual
/-- Whether text can write the tree so that it reads back: tags, UIDs, keys and scalars the
grammar spells, and no empty real array. -/
def writable : Tree → Bool
  | .scalar s _ => s.writable
  | .struct tag uid _ pairs =>
    tagWritable tag && (uid == nullUid || Scan.isUid uid) && writablePairs pairs
  | .list tag _ items => tagWritable tag && writableItems items
  | .raw tag _ _ => tagWritable tag
  | .ints tag _ _ => tagWritable tag
  | .reals tag _ xs => tagWritable tag && !xs.isEmpty && xs.all Binary64.isFinite

/-- Keys that are keys, and writable values. -/
def writablePairs : List (String × Tree) → Bool
  | [] => true
  | (k, t) :: rest => Scan.isKey k && writable t && writablePairs rest

/-- Writable items. -/
def writableItems : List Tree → Bool
  | [] => true
  | t :: rest => writable t && writableItems rest
end

/-- The token of a tag, if there is one. -/
def tagViews (tag : String) : List (TokenKind × String) :=
  if tag.isEmpty then [] else [(.tagHeader, tag)]

/-- The tokens of the line declaring a UID, when the writer declares it. -/
def uidViews (used : String → Bool) (uid : String) : List (TokenKind × String) :=
  if uid != nullUid && used uid then [(.identifier, "ID"), (.equals, "="), (.uid, uid)] else []

mutual
/-- The kinds and texts of the tokens text writes for the tree, declaring the UIDs that `used`
selects. -/
def views (used : String → Bool) : Tree → List (TokenKind × String)
  | .scalar s _ => [s.view]
  | .struct tag uid _ pairs =>
    tagViews tag ++ (.leftCurly, "\x7b") :: (uidViews used uid ++
      (pairsViews used pairs ++ [(.rightCurly, "\x7d")]))
  | .list tag _ items =>
    tagViews tag ++ (.leftSquare, "[") :: (itemsViews used items ++ [(.rightSquare, "]")])
  | .raw tag _ text =>
    tagViews tag ++ [(.leftFancy, "\x7b<"), (.rawtext, text), (.rightFancy, ">\x7d")]
  | .ints tag _ vs =>
    tagViews tag ++ (.leftRound, "(") ::
      (vs.map (fun v => (.integer, toString v.toInt)) ++ [(.rightRound, ")")])
  | .reals tag _ xs =>
    tagViews tag ++ (.leftRound, "(") ::
      (xs.map (fun x => (.real, TextWrite.real x)) ++ [(.rightRound, ")")])

/-- The tokens of the pairs of a structure. -/
def pairsViews (used : String → Bool) : List (String × Tree) → List (TokenKind × String)
  | [] => []
  | (k, t) :: rest => (.identifier, k) :: (.equals, "=") :: (views used t ++ pairsViews used rest)

/-- The tokens of the items of a list. -/
def itemsViews (used : String → Bool) : List Tree → List (TokenKind × String)
  | [] => []
  | t :: rest => views used t ++ itemsViews used rest
end

end Tree

/-- Options whose layout text reads back: an indent of blanks and a header name that is a
word. -/
def TextOptions.writable (o : TextOptions) : Bool :=
  o.indent.toList.all Scan.isBlankChar && Scan.isWord o.formatName

namespace Scan

theorem lexes_scalar {s : Scalar} (h : s.writable = true) :
    Lexes (TextWrite.scalar s).toList [s.view] := by
  cases s with
  | bool b => exact lexes_bool b
  | int n => exact lexes_int n.toInt
  | real x => exact lexes_real h
  | str s => exact lexes_escapeString s
  | ident s => exact lexes_word h
  | uid name _ => exact lexes_uid h

/-- A tag and a space before an inline container. -/
theorem lexes_inlineTag {tag : String} (ht : Tree.tagWritable tag = true) {x : List Char}
    {vx : List (TokenKind × String)} (hx : Lexes x vx) :
    Lexes ((TextWrite.inlineTag tag).toList ++ x) (Tree.tagViews tag ++ vx) := by
  unfold TextWrite.inlineTag Tree.tagViews
  by_cases he : tag.isEmpty = true
  · simpa [he] using hx
  · have htag : isTag tag = true := by simpa [Tree.tagWritable, he] using ht
    simpa [he] using (lexes_tag htag).then (c := ' ') rfl hx

/-! ## Layout -/

section Layout

variable {o : TextOptions} (ho : o.indent.toList.all isBlankChar = true)
include ho

theorem indentOf_blank (d : Nat) : ∀ c ∈ (TextWrite.indentOf o d).toList, isBlankChar c = true := by
  intro c hc
  simp only [TextWrite.indentOf, String.toList_join, List.mem_flatMap, List.mem_replicate] at hc
  obtain ⟨_, ⟨-, rfl⟩, hc⟩ := hc
  exact List.all_eq_true.1 ho c hc

/-- A tag on its own line before a block container. -/
theorem lexes_blockTag (d : Nat) {tag : String} (ht : Tree.tagWritable tag = true) {x : List Char}
    {vx : List (TokenKind × String)} (hx : Lexes x vx) :
    Lexes ((TextWrite.blockTag o d tag).toList ++ x) (Tree.tagViews tag ++ vx) := by
  unfold TextWrite.blockTag Tree.tagViews
  by_cases he : tag.isEmpty = true
  · simpa [he] using hx
  · have htag : isTag tag = true := by simpa [Tree.tagWritable, he] using ht
    have h := (lexes_tag htag).then (c := '\n') rfl (hx.blanks (indentOf_blank ho d))
    simpa [he] using h

/-- **An array lexes as its elements between brackets**, on one line or in chunks. -/
theorem lexes_array (d : Nat) {tag : String} (ht : Tree.tagWritable tag = true)
    {items : List String} {vs : List (TokenKind × String)}
    (h : List.Forall₂ (fun x v => Lexes x.toList [v]) items vs) :
    Lexes (TextWrite.array o d tag items).toList
      (Tree.tagViews tag ++ (.leftRound, "(") :: (vs ++ [(.rightRound, ")")])) := by
  have hopen : Lexes ['('] [(.leftRound, "(")] := lexes_single rfl ⟨rfl, by decide⟩ (by decide)
  have hclose : Lexes [')'] [(.rightRound, ")")] := lexes_single rfl ⟨rfl, by decide⟩ (by decide)
  unfold TextWrite.array
  rw [String.toList_append]
  apply lexes_inlineTag ht
  split_ifs with he hle
  · have hvs : vs = [] := by
      cases h with
      | nil => rfl
      | cons => simp at he
    subst hvs
    simpa using hopen.then (c := ' ') rfl hclose
  · simpa using hopen.then (c := ' ') rfl (lexes_spaced h hclose)
  · -- the lines of the chunks, each after a line break, then the closing bracket on its own line
    have hblank : ∀ c ∈ '\n' :: (TextWrite.indentOf o d).toList, isBlankChar c = true :=
      List.forall_mem_cons.2 ⟨rfl, indentOf_blank ho d⟩
    have htail := hclose.blanks hblank
    have hlines := lexes_chunks (max o.arrayChunk 1 - 1) (indentOf_blank ho (d + 1)) items h
      htail (delimits_cons rfl _)
    simpa using hopen.append hlines (delimits_lines _ _ (delimits_cons rfl _))

end Layout

/-! ## Written walks -/

theorem uid_isUid {used : String → Bool} {uid : String} (hu : (uid == nullUid || isUid uid) = true)
    (hc : (uid != nullUid && used uid) = true) : isUid uid = true := by
  simp only [Bool.or_eq_true, beq_iff_eq, Bool.and_eq_true, bne_iff_ne, ne_eq] at hu hc
  exact hu.resolve_left hc.1

theorem isWord_of_isKey {k : String} (h : isKey k = true) : isWord k = true := by
  simp only [isKey, Bool.and_eq_true] at h
  exact h.1

section Shapes

variable {o : TextOptions} (ho : o.indent.toList.all isBlankChar = true) (used : String → Bool)
include ho

mutual
/-- **A written walk of a writable tree lexes as the tree's tokens.** -/
theorem lexes_shape : ∀ (t : Tree) {s : Shape} (d : Nat), s.Mirrors t → t.writable = true →
    Lexes (TextWrite.shape o used d s).toList (t.views used)
  | .scalar .., _, _, h, hw => by
    cases h
    exact lexes_scalar hw
  | .struct tag uid line qs, _, d, h, hw => by
    cases h with
    | struct id _ _ _ ps _ hkeys hvals =>
      simp only [Tree.writable, Bool.and_eq_true] at hw
      obtain ⟨⟨ht, hu⟩, hps⟩ := hw
      have hclose : Lexes ((TextWrite.indentOf o d).toList ++ ['\x7d']) [(.rightCurly, "\x7d")] :=
        (lexes_single rfl ⟨rfl, by decide⟩ (by decide)).blanks (indentOf_blank ho d)
      have hpairs := lexes_pairsText qs ps d _ _ hkeys hvals hps hclose
      -- the line declaring the UID, when the writer declares it
      have hid : Lexes ((if uid != nullUid && used uid then
          TextWrite.indentOf o (d + 1) ++ "ID = " ++ uid ++ "\n" else "").toList ++
          ((TextWrite.pairsText o used d ps).toList ++ ((TextWrite.indentOf o d).toList ++ ['\x7d'])))
          (Tree.uidViews used uid ++ (Tree.pairsViews used qs ++ [(.rightCurly, "\x7d")])) := by
        unfold Tree.uidViews
        split_ifs with hc
        · have h := lexes_assignment (indentOf_blank ho (d + 1)) (lexes_word (s := "ID") (by decide))
            (lexes_uid (uid_isUid hu hc)) hpairs
          simpa using h
        · simpa using hpairs
      have hopen := (scans_leftCurly.lexes ⟨rfl, by decide⟩).then (c := '\n') rfl hid
      simpa [TextWrite.shape, Tree.views] using lexes_blockTag ho d ht hopen
  | .list tag line ts, _, d, h, hw => by
    cases h with
    | list id _ _ ss _ hitems =>
      simp only [Tree.writable, Bool.and_eq_true] at hw
      obtain ⟨ht, hts⟩ := hw
      have hopen : Lexes ['['] [(.leftSquare, "[")] := lexes_single rfl ⟨rfl, by decide⟩ (by decide)
      have hclose : Lexes [']'] [(.rightSquare, "]")] := lexes_single rfl ⟨rfl, by decide⟩ (by decide)
      cases hitems with
      | nil =>
        simpa [TextWrite.shape, Tree.views, Tree.itemsViews] using
          lexes_inlineTag ht (hopen.then (c := ' ') rfl hclose)
      | cons hs hrest =>
        have hitemsL := lexes_itemsText _ _ d _ _ (.cons hs hrest) hts
          (hclose.blanks (indentOf_blank ho d))
        simpa [TextWrite.shape, Tree.views] using
          lexes_blockTag ho d ht (hopen.then (c := '\n') rfl hitemsL)
  | .raw tag line text, _, d, h, hw => by
    cases h
    simpa [TextWrite.shape, Tree.views] using lexes_inlineTag hw (lexes_rawBlock text)
  | .ints tag line vs, _, d, h, hw => by
    cases h
    have hel : List.Forall₂ (fun x v => Lexes x.toList [v]) (vs.map fun v => toString v.toInt)
        (vs.map fun v => (.integer, toString v.toInt)) :=
      List.forall₂_map_left_iff.2 (List.forall₂_map_right_iff.2
        (List.forall₂_same.2 fun v _ => lexes_int v.toInt))
    simpa [TextWrite.shape, Tree.views] using lexes_array ho d hw hel
  | .reals tag line xs, _, d, h, hw => by
    cases h
    simp only [Tree.writable, Bool.and_eq_true, List.all_eq_true] at hw
    obtain ⟨⟨ht, -⟩, hfin⟩ := hw
    have hel : List.Forall₂ (fun x v => Lexes x.toList [v]) (xs.map TextWrite.real)
        (xs.map fun x => (.real, TextWrite.real x)) :=
      List.forall₂_map_left_iff.2 (List.forall₂_map_right_iff.2
        (List.forall₂_same.2 fun x hx => lexes_real (hfin x hx)))
    simpa [TextWrite.shape, Tree.views] using lexes_array ho d ht hel

/-- The lines of pairs, then any text that lexes. -/
theorem lexes_pairsText : ∀ (qs : List (String × Tree)) (ps : List (String × Shape)) (d : Nat)
    (tail : List Char) (vt : List (TokenKind × String)),
    ps.map Prod.fst = qs.map Prod.fst → Shape.MirrorsList (ps.map Prod.snd) (qs.map Prod.snd) →
    Tree.writablePairs qs = true → Lexes tail vt →
    Lexes ((TextWrite.pairsText o used d ps).toList ++ tail) (Tree.pairsViews used qs ++ vt)
  | [], [], _, _, _, _, _, _, ht => by simpa [TextWrite.pairsText, Tree.pairsViews] using ht
  | (k, t) :: qs, (k', s) :: ps, d, tail, vt, hkeys, h, hw, ht => by
    simp only [List.map_cons, List.cons.injEq] at hkeys h
    obtain ⟨rfl, hkeys⟩ := hkeys
    cases h with
    | cons hs hrest =>
      simp only [Tree.writablePairs, Bool.and_eq_true] at hw
      obtain ⟨⟨hk, hwt⟩, hws⟩ := hw
      have h := lexes_assignment (indentOf_blank ho (d + 1)) (lexes_word (isWord_of_isKey hk))
        (lexes_shape t (d + 1) hs hwt) (lexes_pairsText qs ps d tail vt hkeys hrest hws ht)
      simpa [TextWrite.pairsText, Tree.pairsViews] using h
  | [], _ :: _, _, _, _, hkeys, _, _, _ | _ :: _, [], _, _, _, hkeys, _, _, _ => by simp at hkeys

/-- The lines of items, then any text that lexes. -/
theorem lexes_itemsText : ∀ (ts : List Tree) (ss : List Shape) (d : Nat) (tail : List Char)
    (vt : List (TokenKind × String)), Shape.MirrorsList ss ts → Tree.writableItems ts = true →
    Lexes tail vt →
    Lexes ((TextWrite.itemsText o used d ss).toList ++ tail) (Tree.itemsViews used ts ++ vt)
  | [], _, _, _, _, h, _, ht => by
    cases h
    simpa [TextWrite.itemsText, Tree.itemsViews] using ht
  | t :: ts, _, d, tail, vt, h, hw, ht => by
    cases h with
    | cons hs hrest =>
      simp only [Tree.writableItems, Bool.and_eq_true] at hw
      have h := ((lexes_shape t (d + 1) hs hw.1).then (c := '\n') rfl
        (lexes_itemsText ts _ d tail vt hrest hw.2 ht)).blanks (indentOf_blank ho (d + 1))
      simpa [TextWrite.itemsText, Tree.itemsViews] using h
end

end Shapes

/-! ## The header and the whole text -/

/-- A word, `=` and a value with no blank between them, as the header writes them. -/
theorem lexes_glued {w : String} (hw : isWord w = true) {v : List Char}
    {vv : List (TokenKind × String)} (hv : Lexes v vv) :
    Lexes (w.toList ++ '=' :: v) ((.identifier, w) :: (.equals, "=") :: vv) := by
  obtain ⟨c, r, hc, hr, hs, ht, hf⟩ := isWord_spec hw
  have hv' : String.ofList (c :: r) = w := by rw [← hs, String.ofList_toList]
  intro bs rest n hbs hrest
  obtain ⟨m, hm⟩ := step_blanks hbs (tokenStart_of_nameStart hc) (r ++ '=' :: (v ++ rest)) n
  -- the name stops at `=`, which is a token of its own
  have hname := @tokenAt_name c r ('=' :: (v ++ rest)) hc hr rfl m
  have hkind : (w == "true" || w == "false") = false := by simp [ht, hf]
  rw [hv', hkind] at hname
  have heq : step ('=' :: (v ++ rest)) m = .found [⟨.equals, "=", m⟩] (v ++ rest) m := rfl
  obtain ⟨ts, n', hts, hlex⟩ := hv [] rest m (by simp) hrest
  refine ⟨⟨.identifier, w, m⟩ :: ⟨.equals, "=", m⟩ :: ts, n', by simp [hts, Token.view], ?_⟩
  rw [List.nil_append] at hlex
  rw [hs, show bs ++ (c :: r ++ '=' :: v) ++ rest = bs ++ c :: (r ++ '=' :: (v ++ rest)) by simp,
    lexFrom_found (hm.trans hname) (by simp; omega), lexFrom_found heq (by simp), hlex]
  simp

/-- The tokens of the header: the format name, `version = 100` and `encoding = ascii`. -/
def headerViews (name : String) : List (TokenKind × String) :=
  [(.identifier, name), (.identifier, "version"), (.equals, "="), (.integer, "100"),
    (.identifier, "encoding"), (.equals, "="), (.identifier, "ascii")]

/-- **The header lexes as its seven tokens**, whatever lexes after it. -/
theorem lexes_header {o : TextOptions} (hname : isWord o.formatName = true) {x : List Char}
    {vx : List (TokenKind × String)} (hx : Lexes x vx) :
    Lexes ((TextWrite.header o).toList ++ x) (headerViews o.formatName ++ vx) := by
  have hascii := (lexes_word (s := "ascii") (by decide)).then (c := '\n') rfl
    (show Lexes (['\n'] ++ x) vx from hx.blanks (List.all_eq_true.1 (by decide)))
  have hencoding := lexes_glued (w := "encoding") (by decide) hascii
  have h100 : Lexes "100".toList [(.integer, "100")] := lexes_int 100
  have hversion := lexes_glued (w := "version") (by decide) (h100.then (c := ' ') rfl hencoding)
  have h := (lexes_word hname).then (c := ' ') rfl hversion
  simpa [TextWrite.header, headerViews] using h

/-- **A written document lexes as its header and its root**, to the end of the text. -/
theorem lexed_textWith {g : Graph} {root : NodeId} {o : TextOptions} (ho : o.writable = true)
    (usage : Option Usage) {t : Tree} (htree : (g.walk {} root).1.Mirrors t)
    (hw : t.writable = true) :
    ∃ ts n, Lexed.ofString (g.textWith o usage root) = ⟨ts, .endOfText n⟩ ∧
      ts.map Token.view = headerViews o.formatName ++ t.views (Usage.declares usage) := by
  simp only [TextOptions.writable, Bool.and_eq_true] at ho
  have hl := lexes_header ho.2 (lexes_shape ho.1 (Usage.declares usage) t 0 htree hw)
  obtain ⟨ts, n, hv, hlex⟩ := hl [] ['\n'] 1 (by simp) (delimits_cons rfl [])
  have hend : lexFrom ['\n'] n = ⟨[], .endOfText n⟩ := by
    rw [lexFrom]
    rfl
  refine ⟨ts, n, ?_, hv⟩
  rw [hend] at hlex
  simpa [Lexed.ofString, Graph.textWith, TextWriter.writeHeader, TextWriter.writeRoot] using hlex

end Scan

end GraphDoc
