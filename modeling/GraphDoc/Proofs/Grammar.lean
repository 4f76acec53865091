import Mathlib
import GraphDoc.Text.Parse
import GraphDoc.Proofs.RealTokens
/-! # The grammar of document texts

The reader of document texts follows a grammar on tokens:

```text
document       := header TagHeader '{' structure-body '}'
header         := IDENTIFIER 'version' '=' INTEGER 'encoding' '=' IDENTIFIER
structure-body := ( 'ID' '=' UID | key '=' value )*
value          := TagHeader? ( '{' structure-body '}' | '[' value* ']'
                             | '(' array-body ')' | '{<' RAWTEXT '>}' )
                | STRING | IDENTIFIER | UID | BOOLEAN | INTEGER | REAL
array-body     := INTEGER* | REAL ( REAL | INTEGER )*
```

with the version 100 and the encoding `ascii`. A key is an identifier other than `ID` and its
other spellings `Id`, `iD` and `id`; an `ID` entry is refused once an earlier one declared a
UID other than `#NULL`; every integer must be read as a 64-bit integer. This module states the
grammar as relations on token lists, each carrying the tree its derivation describes
(`Grammar.Value`, `Grammar.Entries`, `Grammar.Document`, …), and proves that the reader
accepts a token list exactly when the grammar derives it, and returns the tree of the
derivation (`Grammar.document_ok_iff`). The grammar asks of a real only that it be read as a
real, and every real token of a scanned text is (`Scan.lexFrom_reals`), so a text is read
exactly when it scans to its end into a document of the grammar:
`Grammar.ofString_eq_ok_iff`.

* Each function of the reader gets one lemma saying when it succeeds and with what
  (`value_eq_ok`, `container_eq_ok`, `body_eq_ok`, `listItems_eq_ok`, `array_eq_ok`).
* From those, a derivation is read back whatever tokens follow it (`Value.parse`, …), and a
  success of the reader is a derivation of the tokens it consumed (`value_sound`, …).
-/
namespace GraphDoc

namespace Grammar

/-! ## The grammar -/

/-- The spellings of `ID` up to ASCII case. -/
def idSpellings : List String := ["ID", "Id", "iD", "id"]

/-- A token that stands for a scalar, and the scalar: a string, an identifier, a UID or a
boolean always; an integer when its text is read as a 64-bit integer; a real when its text is
read as a real. -/
inductive ScalarToken : Token → Scalar → Prop
  | string {tok : Token} : tok.kind = .string → ScalarToken tok (.str tok.text)
  | identifier {tok : Token} : tok.kind = .identifier → ScalarToken tok (.ident tok.text)
  | uid {tok : Token} : tok.kind = .uid → ScalarToken tok (.uid tok.text none)
  | boolean {tok : Token} : tok.kind = .boolean → ScalarToken tok (.bool (tok.text == "true"))
  | integer {tok : Token} {v : Int64} : tok.kind = .integer → Parse.integerValue tok.text = some v →
      ScalarToken tok (.int v)
  | real {tok : Token} {x : Binary64} : tok.kind = .real → Binary64.read? tok.text = some x →
      ScalarToken tok (.real x)

/-- The elements of an integer array and its `)`, with their values. -/
inductive IntegerElems : List Token → List Int64 → Prop
  | close {c : Token} : c.kind = .rightRound → IntegerElems [c] []
  | cons {tok : Token} {v : Int64} {ts : List Token} {vs : List Int64} : tok.kind = .integer →
      Parse.integerValue tok.text = some v → IntegerElems ts vs → IntegerElems (tok :: ts) (v :: vs)

/-- The elements of a real array after its first real, and its `)`: reals, and integers
widened to reals. -/
inductive RealElems : List Token → List Binary64 → Prop
  | close {c : Token} : c.kind = .rightRound → RealElems [c] []
  | real {tok : Token} {x : Binary64} {ts : List Token} {xs : List Binary64} : tok.kind = .real →
      Binary64.read? tok.text = some x → RealElems ts xs → RealElems (tok :: ts) (x :: xs)
  | integer {tok : Token} {v : Int64} {ts : List Token} {xs : List Binary64} :
      tok.kind = .integer → Parse.integerValue tok.text = some v → RealElems ts xs →
      RealElems (tok :: ts) (Binary64.ofInt v.toInt :: xs)

mutual
/-- `Value ts t`: the tokens `ts` are one value, described by the tree `t`. -/
inductive Value : List Token → Tree → Prop
  | scalar {tok : Token} {sc : Scalar} : ScalarToken tok sc → Value [tok] (.scalar sc tok.line)
  | untagged {ts : List Token} {t : Tree} : Container "" ts t → Value ts t
  | tagged {tag : Token} {ts : List Token} {t : Tree} : tag.kind = .tagHeader →
      Container tag.text ts t → Value (tag :: ts) t

/-- `Container tag ts t`: the tokens `ts` are a container from its opening bracket to its
closing one, described, with the tag `tag`, by the tree `t`. -/
inductive Container : String → List Token → Tree → Prop
  | struct {tag : String} {o : Token} {ts : List Token} {uid : String} {ps : List (String × Tree)} :
      o.kind = .leftCurly → Entries nullUid ts uid ps → Container tag (o :: ts) (.struct tag uid o.line ps)
  | list {tag : String} {o : Token} {ts : List Token} {items : List Tree} :
      o.kind = .leftSquare → Items ts items → Container tag (o :: ts) (.list tag o.line items)
  | ints {tag : String} {o : Token} {ts : List Token} {vs : List Int64} :
      o.kind = .leftRound → IntegerElems ts vs → Container tag (o :: ts) (.ints tag o.line vs)
  | reals {tag : String} {o r : Token} {ts : List Token} {x : Binary64} {xs : List Binary64} :
      o.kind = .leftRound → r.kind = .real → Binary64.read? r.text = some x → RealElems ts xs →
      Container tag (o :: r :: ts) (.reals tag o.line (x :: xs))
  | raw {tag : String} {o b c : Token} : o.kind = .leftFancy → b.kind = .rawtext → c.kind = .rightFancy →
      Container tag [o, b, c] (.raw tag o.line b.text)

/-- `Entries uid ts uid' ps`: the tokens `ts` are the entries of a structure body and its `}`,
read with the UID `uid` declared so far; `uid'` is the UID declared at the end and `ps` the
pairs in order. -/
inductive Entries : String → List Token → String → List (String × Tree) → Prop
  | close {uid : String} {c : Token} : c.kind = .rightCurly → Entries uid [c] uid []
  | pair {uid uid' : String} {key eq : Token} {vs ts : List Token} {v : Tree}
      {ps : List (String × Tree)} : key.kind = .identifier → key.text ∉ idSpellings →
      eq.kind = .equals → Value vs v → Entries uid ts uid' ps →
      Entries uid (key :: eq :: (vs ++ ts)) uid' ((key.text, v) :: ps)
  | id {uid uid' : String} {key eq u : Token} {ts : List Token} {ps : List (String × Tree)} :
      key.kind = .identifier → key.text = "ID" → eq.kind = .equals → u.kind = .uid →
      uid = nullUid → Entries u.text ts uid' ps → Entries uid (key :: eq :: u :: ts) uid' ps

/-- `Items ts items`: the tokens `ts` are the values of a list and its `]`. -/
inductive Items : List Token → List Tree → Prop
  | close {c : Token} : c.kind = .rightSquare → Items [c] []
  | cons {vs ts : List Token} {v : Tree} {items : List Tree} : Value vs v → Items ts items →
      Items (vs ++ ts) (v :: items)
end

/-- The seven tokens of a header `NAME version = 100 encoding = ascii`, and its format name. -/
inductive Header : List Token → String → Prop
  | mk {name vw e₁ v ew e₂ enc : Token} : name.kind = .identifier → vw.kind = .identifier →
      vw.text = "version" → e₁.kind = .equals → v.kind = .integer →
      Parse.integerValue v.text = some 100 → ew.kind = .identifier → ew.text = "encoding" →
      e₂.kind = .equals → enc.kind = .identifier → enc.text = "ascii" →
      Header [name, vw, e₁, v, ew, e₂, enc] name.text

/-- A document: a header, a tag header and `{`, then the entries of the root and its `}`, and
nothing after them. -/
inductive Document : List Token → Parsed → Prop
  | mk {hs : List Token} {name : String} {tag o : Token} {ts : List Token} {uid : String}
      {ps : List (String × Tree)} : Header hs name → tag.kind = .tagHeader → o.kind = .leftCurly →
      Entries nullUid ts uid ps → Document (hs ++ tag :: o :: ts) ⟨name, .struct tag.text uid o.line ps⟩

/-! ## Keys -/

/-- The ASCII lower case of a character is a lower-case letter exactly for that letter and its
upper case. -/
theorem toLower_eq_iff {c d : Char} (hd : d.isLower = true) :
    c.toLower = d ↔ c = d ∨ c = d.toUpper := by
  constructor
  · intro h
    by_cases hu : c.isUpper = true
    · -- an upper-case letter is lowered by adding 32 to its code
      right
      have hv : (c.toNat + 32).isValidChar := by
        simp only [Char.isUpper, ge_iff_le, UInt32.le_iff_toNat_le, Char.toNat_val, Bool.decide_and,
          Bool.and_eq_true, decide_eq_true_eq] at hu
        have hZ : ('Z' : Char).toNat = 90 := rfl
        simp only [Nat.isValidChar]
        omega
      rw [Char.toLower_eq_of_isUpper hu] at h
      rw [Char.toUpper_eq_of_isLower hd, ← h, Char.toNat_ofNat, if_pos hv, Nat.add_sub_cancel,
        Char.ofNat_toNat]
    · left
      rwa [Char.toLower_eq_of_not_isUpper hu] at h
  · rintro (rfl | rfl)
    · exact Char.toLower_eq_of_not_isUpper (Char.not_isUpper_of_isLower hd)
    · rw [Char.toLower_toUpper_eq_toLower]
      exact Char.toLower_eq_of_not_isUpper (Char.not_isUpper_of_isLower hd)

/-- A text is `id` in ASCII lower case exactly when it is a spelling of `ID`. -/
theorem toLower_eq_id {k : String} : k.toLower = "id" ↔ k ∈ idSpellings := by
  rw [← String.toList_inj, String.toLower, String.toList_map, show "id".toList = ['i', 'd'] from rfl]
  have hi : ∀ c : Char, c.toLower = 'i' ↔ c = 'i' ∨ c = 'I' := fun c => toLower_eq_iff rfl
  have hd : ∀ c : Char, c.toLower = 'd' ↔ c = 'd' ∨ c = 'D' := fun c => toLower_eq_iff rfl
  constructor
  · intro h
    -- two characters, lowered to `i` and `d`
    obtain ⟨a, r, hk, ha, hr⟩ := List.map_eq_cons_iff.1 h
    obtain ⟨b, r', rfl, hb, hr'⟩ := List.map_eq_cons_iff.1 hr
    rw [List.map_eq_nil_iff] at hr'
    subst hr'
    rw [← String.ofList_toList (s := k), hk]
    rcases (hi a).1 ha with rfl | rfl <;> rcases (hd b).1 hb with rfl | rfl <;> decide
  · intro h
    simp only [idSpellings, List.mem_cons, List.not_mem_nil, or_false] at h
    rcases h with rfl | rfl | rfl | rfl <;> decide +kernel

/-- The reader takes an identifier for a key exactly when it is no spelling of `ID`: `ID` opens
a UID entry, and the other spellings are refused. -/
theorem key_iff {k : String} : k ∉ idSpellings ↔ k ≠ "ID" ∧ Parse.isReservedKey k = false := by
  rw [← toLower_eq_id]
  by_cases hID : k = "ID"
  · subst hID
    simp only [ne_eq, not_true_eq_false, false_and, iff_false, not_not]
    decide +kernel
  · simp [Parse.isReservedKey, hID]

/-! ## When each function of the reader succeeds -/

theorem except_bind_eq_ok {ε α β : Type} {x : Except ε α} {f : α → Except ε β} {b : β} :
    x >>= f = .ok b ↔ ∃ a, x = .ok a ∧ f a = .ok b := by
  cases x <;> simp [bind, Except.bind]

theorem except_map_eq_ok {ε α β : Type} {x : Except ε α} {f : α → β} {b : β} :
    f <$> x = .ok b ↔ ∃ a, x = .ok a ∧ f a = b := by
  cases x <;> simp [Functor.map, Except.map]

theorem integer_eq_ok {tok : Token} {v : Int64} :
    Parse.integer tok = .ok v ↔ Parse.integerValue tok.text = some v := by
  unfold Parse.integer
  cases Parse.integerValue tok.text <;> simp

theorem real_eq_ok {tok : Token} {x : Binary64} :
    Parse.real tok = .ok x ↔ Binary64.read? tok.text = some x := by
  unfold Parse.real
  cases Binary64.read? tok.text <;> simp

/-- A token is read as a scalar exactly when it stands for one. -/
theorem scalar_eq_ok {tok : Token} {sc : Scalar} : Parse.scalar tok = .ok sc ↔ ScalarToken tok sc := by
  obtain ⟨kind, text, line⟩ := tok
  constructor
  · intro h
    cases kind <;> simp [Parse.scalar, Except.map, Parse.integer, Parse.real] at h
    case string => subst h; exact .string rfl
    case uid => subst h; exact .uid rfl
    case identifier => subst h; exact .identifier rfl
    case boolean => subst h; exact .boolean rfl
    case integer =>
      cases hv : Parse.integerValue text <;> simp only [hv, reduceCtorEq, Except.ok.injEq] at h
      subst h
      exact .integer rfl hv
    case real =>
      cases hx : Binary64.read? text <;> simp only [hx, reduceCtorEq, Except.ok.injEq] at h
      subst h
      exact .real rfl hx
  · intro h
    cases h <;> simp_all [Parse.scalar, Except.map, Parse.integer, Parse.real]

/-- A token that stands for a scalar opens nothing. -/
theorem ScalarToken.kind_ne {tok : Token} {sc : Scalar} (h : ScalarToken tok sc) :
    tok.kind ≠ .tagHeader ∧ tok.kind ≠ .leftCurly ∧ tok.kind ≠ .leftSquare ∧
      tok.kind ≠ .leftRound ∧ tok.kind ≠ .leftFancy ∧ tok.kind ≠ .rightSquare := by
  cases h <;> simp_all

variable (ending : Ending)

/-- A value is a container after a tag header, a container, or a scalar. -/
theorem value_eq_ok {first : Token} {ts : List Token} {r : Tree × List Token} :
    Parse.value ending first ts = .ok r ↔
      (first.kind = .tagHeader ∧ ∃ o ts', ts = o :: ts' ∧
        Parse.container ending first.text o ts' = .ok r) ∨
      ((first.kind = .leftCurly ∨ first.kind = .leftSquare ∨ first.kind = .leftRound ∨
        first.kind = .leftFancy) ∧ Parse.container ending "" first ts = .ok r) ∨
      (∃ sc, ScalarToken first sc ∧ r = (.scalar sc first.line, ts)) := by
  rw [Parse.value.eq_def]
  by_cases ht : first.kind = .tagHeader
  · -- the container after a tag header carries the tag
    have hsc : ∀ sc, ¬ ScalarToken first sc := fun sc h => h.kind_ne.1 ht
    cases ts with
    | nil => simp [ht, hsc, Parse.exhausted]
    | cons o ts' => simp [ht, hsc]
  · have hsc : ∀ sc, ScalarToken first sc ↔ Parse.scalar first = .ok sc := fun sc => scalar_eq_ok.symm
    by_cases ho : first.kind = .leftCurly ∨ first.kind = .leftSquare ∨ first.kind = .leftRound ∨
        first.kind = .leftFancy
    · have hnsc : ∀ sc, ¬ ScalarToken first sc := fun sc h => by
        have hk := h.kind_ne
        rcases ho with ho | ho | ho | ho <;> simp_all
      rcases ho with ho | ho | ho | ho <;> simp [ho, hnsc]
    · simp only [not_or] at ho
      obtain ⟨h1, h2, h3, h4⟩ := ho
      simp only [ht, beq_iff_eq, if_false, h1, h2, h3, h4, false_or, false_and, hsc]
      cases Parse.scalar first with
      | error e => simp [Except.map]
      | ok sc => simp [Except.map, eq_comm]

/-- A container is a structure body after `{`, list items after `[`, an array after `(`, or a
rawtext body and `>}` after `{<`. -/
theorem container_eq_ok {tag : String} {o : Token} {ts : List Token} {r : Tree × List Token} :
    Parse.container ending tag o ts = .ok r ↔
      (o.kind = .leftCurly ∧ ∃ uid ps rest, Parse.body ending nullUid [] ts = .ok (uid, ps, rest) ∧
        r = (.struct tag uid o.line ps, rest)) ∨
      (o.kind = .leftSquare ∧ ∃ items rest, Parse.listItems ending [] ts = .ok (items, rest) ∧
        r = (.list tag o.line items, rest)) ∨
      (o.kind = .leftRound ∧ Parse.array ending tag o.line [] none ts = .ok r) ∨
      (o.kind = .leftFancy ∧ ∃ b c rest, ts = b :: c :: rest ∧ b.kind = .rawtext ∧
        c.kind = .rightFancy ∧ r = (.raw tag o.line b.text, rest)) := by
  rw [Parse.container.eq_def]
  cases hk : o.kind <;> simp [Parse.unexpected, except_map_eq_ok]
  case leftCurly =>
    constructor <;> rintro ⟨uid, ps, rest, h, rfl⟩ <;> exact ⟨uid, ps, rest, h, rfl⟩
  case leftSquare =>
    constructor <;> rintro ⟨items, rest, h, rfl⟩ <;> exact ⟨items, rest, h, rfl⟩
  case leftFancy =>
    -- the body and the closing `>}` come right after `{<`
    rcases ts with _ | ⟨b, _ | ⟨c, rest⟩⟩
    · simp [Parse.exhausted]
    · by_cases hb : b.kind = .rawtext <;> simp [hb, Parse.exhausted]
    · by_cases hb : b.kind = .rawtext
      · by_cases hc : c.kind = .rightFancy
        · simp [hb, hc, eq_comm]
        · simp [hb, hc]
      · simp [hb]

/-- The entries of a structure body: its `}`, an `ID` entry while no UID other than `#NULL` is
declared, or a key, `=` and a value. -/
theorem body_eq_ok {uid : String} {acc : List (String × Tree)} {ts : List Token}
    {r : String × List (String × Tree) × List Token} :
    Parse.body ending uid acc ts = .ok r ↔
      (∃ c rest, ts = c :: rest ∧ c.kind = .rightCurly ∧ r = (uid, acc.reverse, rest)) ∨
      (∃ key eq u rest, ts = key :: eq :: u :: rest ∧ key.kind = .identifier ∧ key.text = "ID" ∧
        eq.kind = .equals ∧ u.kind = .uid ∧ uid = nullUid ∧
        Parse.body ending u.text acc rest = .ok r) ∨
      (∃ key eq first ts' v rest, ts = key :: eq :: first :: ts' ∧ key.kind = .identifier ∧
        key.text ∉ idSpellings ∧ eq.kind = .equals ∧
        Parse.value ending first ts' = .ok (v, rest) ∧ rest.length ≤ ts'.length ∧
        Parse.body ending uid ((key.text, v) :: acc) rest = .ok r) := by
  rw [Parse.body.eq_def]
  have hID : Parse.isReservedKey "ID" = false := by decide +kernel
  rcases ts with _ | ⟨key, _ | ⟨eq, _ | ⟨first, ts'⟩⟩⟩
  · simp [Parse.exhausted]
  · by_cases hc : key.kind = .rightCurly
    · simp [hc, eq_comm]
    · by_cases hi : key.kind = .identifier <;> simp [hc, hi, Parse.exhausted, Parse.unexpected]
  · by_cases hc : key.kind = .rightCurly
    · simp [hc, eq_comm]
    · by_cases hi : key.kind = .identifier
      · by_cases he : eq.kind = .equals
        · by_cases hres : Parse.isReservedKey key.text = true <;>
            simp [hi, he, hres, Parse.exhausted, Parse.unexpected]
        · simp [hi, he, Parse.unexpected]
      · simp [hc, hi, Parse.unexpected]
  · by_cases hc : key.kind = .rightCurly
    · simp [hc, eq_comm]
    · by_cases hi : key.kind = .identifier
      swap
      · simp [hc, hi, Parse.unexpected]
      by_cases he : eq.kind = .equals
      swap
      · simp [hi, he, Parse.unexpected]
      by_cases hk : key.text = "ID"
      · -- a UID entry
        have hspell : "ID" ∈ idSpellings := by decide
        by_cases hu : first.kind = .uid <;> by_cases hn : uid = nullUid <;>
          simp [hi, he, hk, hID, hspell, hu, hn, Parse.unexpected]
      · by_cases hres : Parse.isReservedKey key.text = true
        · -- another spelling of `ID`
          have hspell : key.text ∈ idSpellings := by
            by_contra h
            simp [(key_iff.1 h).2] at hres
          simp [hi, he, hk, hres, hspell, Parse.unexpected]
        · -- a key and its value
          have hspell : key.text ∉ idSpellings := key_iff.2 ⟨hk, by simpa using hres⟩
          cases hv : Parse.value ending first ts' with
          | error e => simp [hi, he, hk, hres, hv]
          | ok p =>
            obtain ⟨v, rest⟩ := p
            by_cases hl : rest.length ≤ ts'.length <;>
              simp [hi, he, hk, hres, hspell, hv, hl, Parse.exhausted]

/-- The items of a list: its `]`, or a value and the items after it. -/
theorem listItems_eq_ok {acc : List Tree} {ts : List Token} {r : List Tree × List Token} :
    Parse.listItems ending acc ts = .ok r ↔
      (∃ c rest, ts = c :: rest ∧ c.kind = .rightSquare ∧ r = (acc.reverse, rest)) ∨
      (∃ first ts' v rest, ts = first :: ts' ∧ first.kind ≠ .rightSquare ∧
        Parse.value ending first ts' = .ok (v, rest) ∧ rest.length ≤ ts'.length ∧
        Parse.listItems ending (v :: acc) rest = .ok r) := by
  rw [Parse.listItems.eq_def]
  rcases ts with _ | ⟨first, ts'⟩
  · simp [Parse.exhausted]
  · by_cases hc : first.kind = .rightSquare
    · simp [hc, eq_comm]
    · cases hv : Parse.value ending first ts' with
      | error e => simp [hc, hv]
      | ok p =>
        obtain ⟨v, rest⟩ := p
        by_cases hl : rest.length ≤ ts'.length <;> simp [hc, hv, hl, Parse.exhausted]

/-! ## Arrays -/

section Arrays

variable (tag : String) (line : Nat)

/-- Integer elements and `)` make an integer array, whatever tokens follow. -/
theorem IntegerElems.parse {ts : List Token} {vs : List Int64} (h : IntegerElems ts vs)
    (ints : List Int64) (rest : List Token) :
    Parse.array ending tag line ints none (ts ++ rest) =
      .ok (.ints tag line (ints.reverse ++ vs), rest) := by
  induction h generalizing ints with
  | close hc => simp [Parse.array, hc]
  | cons hk hv _ ih => simp [Parse.array, hk, Parse.integer, hv, ih, bind, Except.bind]

/-- Real and integer elements and `)`, after a first real, make a real array, whatever tokens
follow. -/
theorem RealElems.parse {ts : List Token} {xs : List Binary64} (h : RealElems ts xs)
    (acc : List Binary64) (rest : List Token) :
    Parse.array ending tag line [] (some acc) (ts ++ rest) =
      .ok (.reals tag line (acc.reverse ++ xs), rest) := by
  induction h generalizing acc with
  | close hc => simp [Parse.array, hc]
  | real hk hx _ ih => simp [Parse.array, hk, Parse.real, hx, ih, bind, Except.bind]
  | integer hk hv _ ih => simp [Parse.array, hk, Parse.integer, hv, ih, bind, Except.bind]

/-- An array read after a first real is its real elements. -/
theorem array_sound_reals {acc : List Binary64} {ts rest : List Token} {t : Tree}
    (h : Parse.array ending tag line [] (some acc) ts = .ok (t, rest)) :
    ∃ es xs, ts = es ++ rest ∧ RealElems es xs ∧ t = .reals tag line (acc.reverse ++ xs) := by
  induction ts generalizing acc with
  | nil => simp [Parse.array, Parse.exhausted] at h
  | cons tok ts ih =>
    rw [Parse.array] at h
    cases hk : tok.kind <;> simp [hk, Parse.unexpected, except_bind_eq_ok] at h
    case rightRound =>
      obtain ⟨rfl, rfl⟩ := h
      exact ⟨[tok], [], rfl, .close hk, by simp⟩
    case integer =>
      obtain ⟨i, hi, h⟩ := h
      obtain ⟨es, xs, rfl, hes, rfl⟩ := ih h
      exact ⟨tok :: es, _, rfl, .integer hk (integer_eq_ok.1 hi) hes, by simp⟩
    case real =>
      obtain ⟨x, hx, h⟩ := h
      obtain ⟨es, xs, rfl, hes, rfl⟩ := ih h
      exact ⟨tok :: es, _, rfl, .real hk (real_eq_ok.1 hx) hes, by simp⟩

/-- An array read from its start is integer elements, or, when no integer came before, a
first real and the real elements after it. -/
theorem array_sound_ints {ints : List Int64} {ts rest : List Token} {t : Tree}
    (h : Parse.array ending tag line ints none ts = .ok (t, rest)) :
    (∃ es vs, ts = es ++ rest ∧ IntegerElems es vs ∧ t = .ints tag line (ints.reverse ++ vs)) ∨
    (ints = [] ∧ ∃ r es x xs, ts = r :: (es ++ rest) ∧ r.kind = .real ∧
      Binary64.read? r.text = some x ∧ RealElems es xs ∧ t = .reals tag line (x :: xs)) := by
  induction ts generalizing ints with
  | nil => simp [Parse.array, Parse.exhausted] at h
  | cons tok ts ih =>
    rw [Parse.array] at h
    cases hk : tok.kind <;> simp [hk, Parse.unexpected, except_bind_eq_ok] at h
    case rightRound =>
      obtain ⟨rfl, rfl⟩ := h
      exact .inl ⟨[tok], [], rfl, .close hk, by simp⟩
    case integer =>
      obtain ⟨i, hi, h⟩ := h
      rcases ih h with ⟨es, vs, rfl, hes, rfl⟩ | ⟨hnil, -⟩
      · exact .inl ⟨tok :: es, _, rfl, .cons hk (integer_eq_ok.1 hi) hes, by simp⟩
      · simp at hnil
    case real =>
      -- a real is refused after an integer, and otherwise starts a real array
      cases ints with
      | cons i ints => simp [throw, throwThe, MonadExceptOf.throw, bind, Except.bind] at h
      | nil =>
        simp only [if_pos, except_bind_eq_ok] at h
        obtain ⟨x, hx, h⟩ := h
        obtain ⟨es, xs, rfl, hes, rfl⟩ := array_sound_reals ending tag line h
        exact .inr ⟨rfl, tok, es, x, xs, rfl, hk, real_eq_ok.1 hx, hes, by simp⟩

end Arrays

/-! ## A derivation is read back, whatever follows it -/

/-- A first real and the elements after it make a real array. -/
theorem array_first_real {tag : String} {line : Nat} {r : Token} {x : Binary64}
    {ts : List Token} {xs : List Binary64} (hr : r.kind = .real) (hx : Binary64.read? r.text = some x)
    (h : RealElems ts xs) (rest : List Token) :
    Parse.array ending tag line [] none (r :: (ts ++ rest)) = .ok (.reals tag line (x :: xs), rest) := by
  rw [Parse.array]
  simp [hr, Parse.real, hx, bind, Except.bind, RealElems.parse ending tag line h [x] rest]

mutual
theorem Value.parse {vs : List Token} {t : Tree} : Value vs t →
    ∃ first ts, vs = first :: ts ∧ first.kind ≠ .rightSquare ∧
      ∀ rest, Parse.value ending first (ts ++ rest) = .ok (t, rest)
  | .scalar hs => ⟨_, [], rfl, hs.kind_ne.2.2.2.2.2, fun rest =>
      (value_eq_ok ending).2 (.inr (.inr ⟨_, hs, rfl⟩))⟩
  | .untagged hc => by
    obtain ⟨o, ts, rfl, ho, hparse⟩ := Container.parse hc
    refine ⟨o, ts, rfl, by rcases ho with ho | ho | ho | ho <;> simp [ho], fun rest => ?_⟩
    exact (value_eq_ok ending).2 (.inr (.inl ⟨ho, hparse rest⟩))
  | .tagged hk hc => by
    obtain ⟨o, ts, rfl, -, hparse⟩ := Container.parse hc
    refine ⟨_, o :: ts, rfl, by simp [hk], fun rest => ?_⟩
    exact (value_eq_ok ending).2 (.inl ⟨hk, o, ts ++ rest, rfl, hparse rest⟩)

theorem Container.parse {tag : String} {vs : List Token} {t : Tree} : Container tag vs t →
    ∃ o ts, vs = o :: ts ∧
      (o.kind = .leftCurly ∨ o.kind = .leftSquare ∨ o.kind = .leftRound ∨ o.kind = .leftFancy) ∧
      ∀ rest, Parse.container ending tag o (ts ++ rest) = .ok (t, rest)
  | .struct ho he => ⟨_, _, rfl, .inl ho, fun rest => (container_eq_ok ending).2
      (.inl ⟨ho, _, _, rest, by simpa using Entries.parse he [] rest, rfl⟩)⟩
  | .list ho hi => ⟨_, _, rfl, .inr (.inl ho), fun rest => (container_eq_ok ending).2
      (.inr (.inl ⟨ho, _, rest, by simpa using Items.parse hi [] rest, rfl⟩))⟩
  | .ints ho hi => ⟨_, _, rfl, .inr (.inr (.inl ho)), fun rest => (container_eq_ok ending).2
      (.inr (.inr (.inl ⟨ho, by simpa using IntegerElems.parse ending _ _ hi [] rest⟩)))⟩
  | .reals ho hr hx hel => ⟨_, _, rfl, .inr (.inr (.inl ho)), fun rest => (container_eq_ok ending).2
      (.inr (.inr (.inl ⟨ho, array_first_real ending hr hx hel rest⟩)))⟩
  | .raw ho hb hc => ⟨_, _, rfl, .inr (.inr (.inr ho)), fun rest => (container_eq_ok ending).2
      (.inr (.inr (.inr ⟨ho, _, _, rest, rfl, hb, hc, rfl⟩)))⟩

theorem Entries.parse {uid uid' : String} {ts : List Token} {ps : List (String × Tree)} :
    Entries uid ts uid' ps → ∀ acc rest,
      Parse.body ending uid acc (ts ++ rest) = .ok (uid', acc.reverse ++ ps, rest)
  | .close hc, acc, rest => (body_eq_ok ending).2 (.inl ⟨_, rest, rfl, hc, by simp⟩)
  | @Entries.pair _ _ key _ _ _ v _ hk hspell he hv hes, acc, rest => by
    obtain ⟨first, ts, rfl, -, hparse⟩ := Value.parse hv
    have hrest := Entries.parse hes ((key.text, v) :: acc) rest
    rw [List.reverse_cons, List.append_assoc, List.singleton_append] at hrest
    exact (body_eq_ok ending).2 (.inr (.inr ⟨key, _, first, _, v, _, by simp, hk, hspell, he,
      hparse _, by simp, hrest⟩))
  | .id hk hID he hu hn hes, acc, rest =>
    (body_eq_ok ending).2 (.inr (.inl ⟨_, _, _, _, by simp, hk, hID, he, hu, hn,
      Entries.parse hes acc rest⟩))

theorem Items.parse {ts : List Token} {items : List Tree} :
    Items ts items → ∀ acc rest,
      Parse.listItems ending acc (ts ++ rest) = .ok (acc.reverse ++ items, rest)
  | .close hc, acc, rest => (listItems_eq_ok ending).2 (.inl ⟨_, rest, rfl, hc, by simp⟩)
  | .cons (v := v) hv hits, acc, rest => by
    obtain ⟨first, ts, rfl, hne, hparse⟩ := Value.parse hv
    have hrest := Items.parse hits (v :: acc) rest
    rw [List.reverse_cons, List.append_assoc, List.singleton_append] at hrest
    exact (listItems_eq_ok ending).2 (.inr ⟨first, _, v, _, by simp, hne, hparse _, by simp,
      hrest⟩)
end

/-! ## What the reader accepts is derived -/

mutual
theorem value_sound {first : Token} {ts rest : List Token} {t : Tree}
    (h : Parse.value ending first ts = .ok (t, rest)) :
    ∃ vs, ts = vs ++ rest ∧ Value (first :: vs) t := by
  rcases (value_eq_ok ending).1 h with ⟨hk, o, ts', rfl, hc⟩ | ⟨-, hc⟩ | ⟨sc, hs, hr⟩
  · obtain ⟨vs, rfl, hder⟩ := container_sound hc
    exact ⟨o :: vs, rfl, .tagged hk hder⟩
  · obtain ⟨vs, rfl, hder⟩ := container_sound hc
    exact ⟨vs, rfl, .untagged hder⟩
  · obtain ⟨rfl, rfl⟩ := Prod.mk.inj hr
    exact ⟨[], rfl, .scalar hs⟩
termination_by 3 * ts.length + 2

theorem container_sound {tag : String} {o : Token} {ts rest : List Token} {t : Tree}
    (h : Parse.container ending tag o ts = .ok (t, rest)) :
    ∃ vs, ts = vs ++ rest ∧ Container tag (o :: vs) t := by
  rcases (container_eq_ok ending).1 h with ⟨ho, uid, ps, rest', hb, hr⟩ |
    ⟨ho, items, rest', hl, hr⟩ | ⟨ho, ha⟩ | ⟨ho, b, c, rest', rfl, hb, hc, hr⟩
  · obtain ⟨rfl, rfl⟩ := Prod.mk.inj hr
    obtain ⟨es, qs, rfl, hes, rfl⟩ := body_sound hb
    exact ⟨es, rfl, by simpa using Container.struct ho hes⟩
  · obtain ⟨rfl, rfl⟩ := Prod.mk.inj hr
    obtain ⟨es, qs, rfl, hits, rfl⟩ := listItems_sound hl
    exact ⟨es, rfl, by simpa using Container.list ho hits⟩
  · -- an array: integers, or a first real and the elements after it
    rcases array_sound_ints ending tag o.line ha with ⟨es, vs, rfl, hes, rfl⟩ |
      ⟨-, r, es, x, xs, rfl, hr, hx, hes, rfl⟩
    · exact ⟨es, rfl, by simpa using Container.ints ho hes⟩
    · exact ⟨r :: es, rfl, .reals ho hr hx hes⟩
  · obtain ⟨rfl, rfl⟩ := Prod.mk.inj hr
    exact ⟨[b, c], rfl, .raw ho hb hc⟩
termination_by 3 * ts.length + 1

theorem body_sound {uid uid' : String} {acc ps : List (String × Tree)} {ts rest : List Token}
    (h : Parse.body ending uid acc ts = .ok (uid', ps, rest)) :
    ∃ es qs, ts = es ++ rest ∧ Entries uid es uid' qs ∧ ps = acc.reverse ++ qs := by
  rcases (body_eq_ok ending).1 h with ⟨c, rest', rfl, hc, hr⟩ |
    ⟨key, eq, u, ts', rfl, hk, hID, he, hu, hn, hb⟩ |
    ⟨key, eq, first, ts', v, rest', rfl, hk, hspell, he, hv, hlen, hb⟩
  · simp only [Prod.mk.injEq] at hr
    obtain ⟨rfl, rfl, rfl⟩ := hr
    exact ⟨[c], [], rfl, .close hc, by simp⟩
  · obtain ⟨es, qs, rfl, hes, rfl⟩ := body_sound hb
    exact ⟨key :: eq :: u :: es, qs, rfl, .id hk hID he hu hn hes, rfl⟩
  · obtain ⟨vs, rfl, hval⟩ := value_sound hv
    obtain ⟨es, qs, rfl, hes, rfl⟩ := body_sound hb
    exact ⟨key :: eq :: (first :: vs ++ es), (key.text, v) :: qs, by simp,
      .pair hk hspell he hval hes, by simp⟩
termination_by 3 * ts.length

theorem listItems_sound {acc items : List Tree} {ts rest : List Token}
    (h : Parse.listItems ending acc ts = .ok (items, rest)) :
    ∃ es qs, ts = es ++ rest ∧ Items es qs ∧ items = acc.reverse ++ qs := by
  rcases (listItems_eq_ok ending).1 h with ⟨c, rest', rfl, hc, hr⟩ |
    ⟨first, ts', v, rest', rfl, -, hv, hlen, hl⟩
  · obtain ⟨rfl, rfl⟩ := Prod.mk.inj hr
    exact ⟨[c], [], rfl, .close hc, by simp⟩
  · obtain ⟨vs, rfl, hval⟩ := value_sound hv
    obtain ⟨es, qs, rfl, hits, rfl⟩ := listItems_sound hl
    exact ⟨first :: vs ++ es, v :: qs, by simp, .cons hval hits, by simp⟩
termination_by 3 * ts.length
end

/-! ## Headers and documents -/

theorem pull_eq_ok_some {ts : List Token} {t : Token} {r : List Token} :
    Parse.pull ending ts = .ok (some (t, r)) ↔ ts = t :: r := by
  cases ts with
  | nil => cases ending <;> simp [Parse.pull]
  | cons t' r' => simp [Parse.pull]

theorem pull_eq_ok_none {ts : List Token} :
    Parse.pull ending ts = .ok none ↔ ts = [] ∧ ∃ n, ending = .endOfText n := by
  cases ts with
  | nil => cases ending <;> simp [Parse.pull]
  | cons t' r' => simp [Parse.pull]

/-- A header word is read as that identifier and `=`. -/
theorem headerWord_eq_ok {word : String} {ts rest : List Token} :
    Parse.headerWord ending word ts = .ok rest ↔
      ∃ w e, ts = w :: e :: rest ∧ w.kind = .identifier ∧ w.text = word ∧ e.kind = .equals := by
  unfold Parse.headerWord
  rcases ts with _ | ⟨w, _ | ⟨e, r⟩⟩
  · cases ending <;> simp [Parse.pull, bind, Except.bind, throw, throwThe, MonadExceptOf.throw]
  · cases ending <;> simp [Parse.pull, bind, Except.bind, throw, throwThe, MonadExceptOf.throw] <;>
      split <;> simp
  · simp only [Parse.pull, bind, Except.bind, throw, throwThe, MonadExceptOf.throw]
    by_cases hw : w.kind = .identifier <;> by_cases ht : w.text = word <;>
      by_cases he : e.kind = .equals <;> simp [hw, ht, he, pure, Except.pure]

theorem headerWord_cons {word : String} {w e : Token} (hw : w.kind = .identifier)
    (ht : w.text = word) (he : e.kind = .equals) (rest : List Token) :
    Parse.headerWord ending word (w :: e :: rest) = .ok rest :=
  (headerWord_eq_ok ending).2 ⟨w, e, rfl, hw, ht, he⟩

/-- The reader reads a header exactly when it is one. -/
theorem Header.parse {hs : List Token} {name : String} (h : Header hs name) (rest : List Token) :
    Parse.header ending (hs ++ rest) = .ok (name, rest) := by
  obtain ⟨hn, hvk, hvt, he₁, hk, hval, hek, het, he₂, hck, hct⟩ := h
  simp only [List.cons_append, List.nil_append]
  unfold Parse.header
  simp [Parse.pull, hn, bind, Except.bind, headerWord_cons ending hvk hvt he₁,
    headerWord_cons ending hek het he₂, hk, Parse.integer, hval, hck, hct, Parse.versionNumber,
    pure, Except.pure]

theorem throw_bind_ne_ok {α β : Type} (e : Error) (f : α → Except Error β) (b : β) :
    (throw e >>= f) ≠ Except.ok b := by
  simp [throw, throwThe, MonadExceptOf.throw, bind, Except.bind]

theorem header_sound {ts rest : List Token} {name : String}
    (h : Parse.header ending ts = .ok (name, rest)) : ∃ hs, ts = hs ++ rest ∧ Header hs name := by
  unfold Parse.header at h
  rw [except_bind_eq_ok] at h
  obtain ⟨x, hx, h⟩ := h
  rcases x with _ | ⟨nm, ts1⟩
  · simp [throw, throwThe, MonadExceptOf.throw] at h
  obtain rfl := (pull_eq_ok_some ending).1 hx
  simp only at h
  split at h
  · exact absurd h (throw_bind_ne_ok _ _ _)
  next hn =>
  rw [except_bind_eq_ok] at h
  obtain ⟨ts2, hw, h⟩ := h
  obtain ⟨vw, e₁, rfl, hvk, hvt, he₁⟩ := (headerWord_eq_ok ending).1 hw
  -- the version
  rw [except_bind_eq_ok] at h
  obtain ⟨x, hx, h⟩ := h
  rcases x with _ | ⟨v, ts3⟩
  · simp [throw, throwThe, MonadExceptOf.throw] at h
  obtain rfl := (pull_eq_ok_some ending).1 hx
  simp only at h
  split at h
  · exact absurd h (throw_bind_ne_ok _ _ _)
  next hk =>
  rw [except_bind_eq_ok] at h
  obtain ⟨n, hint, h⟩ := h
  split at h
  · exact absurd h (throw_bind_ne_ok _ _ _)
  next hver =>
  -- the encoding
  rw [except_bind_eq_ok] at h
  obtain ⟨ts4, hw', h⟩ := h
  obtain ⟨ew, e₂, rfl, hek, het, he₂⟩ := (headerWord_eq_ok ending).1 hw'
  rw [except_bind_eq_ok] at h
  obtain ⟨x, hx, h⟩ := h
  rcases x with _ | ⟨enc, ts5⟩
  · simp [throw, throwThe, MonadExceptOf.throw] at h
  obtain rfl := (pull_eq_ok_some ending).1 hx
  simp only at h
  split at h
  · exact absurd h (throw_bind_ne_ok _ _ _)
  next henc =>
  simp only [pure, Except.pure, Except.ok.injEq, Prod.mk.injEq] at h
  obtain ⟨rfl, rfl⟩ := h
  simp only [bne_iff_ne, ne_eq, Decidable.not_not, Bool.or_eq_true, not_or] at hn hk hver henc
  refine ⟨[nm, vw, e₁, v, ew, e₂, enc], rfl,
    .mk hn hvk hvt he₁ hk ?_ hek het he₂ henc.1 henc.2⟩
  rw [← integer_eq_ok, hint, hver]
  rfl

/-- A document of the grammar is read, to the end of its tokens, as the format name and root
that its derivation describes. -/
theorem Document.parse {ts : List Token} {p : Parsed} (h : Document ts p) (n : Nat) :
    Parse.document ⟨ts, .endOfText n⟩ = .ok p := by
  obtain ⟨hh, htag, ho, hes⟩ := h
  have hbody := Entries.parse (.endOfText n) hes [] []
  simp only [List.append_nil, List.reverse_nil, List.nil_append] at hbody
  unfold Parse.document
  simp [Header.parse (.endOfText n) hh, Parse.pull, htag, ho, hbody, bind, Except.bind, pure,
    Except.pure]

theorem document_sound {ts : List Token} {ending : Ending} {p : Parsed}
    (h : Parse.document ⟨ts, ending⟩ = .ok p) : (∃ n, ending = .endOfText n) ∧ Document ts p := by
  unfold Parse.document at h
  rw [except_bind_eq_ok] at h
  obtain ⟨⟨name, ts1⟩, hh, h⟩ := h
  obtain ⟨hs, rfl, hheader⟩ := header_sound ending hh
  -- the tag header of the root
  rw [except_bind_eq_ok] at h
  obtain ⟨x, hx, h⟩ := h
  rcases x with _ | ⟨tag, ts2⟩
  · simp [throw, throwThe, MonadExceptOf.throw] at h
  obtain rfl := (pull_eq_ok_some ending).1 hx
  simp only at h
  split at h
  · exact absurd h (throw_bind_ne_ok _ _ _)
  next htag =>
  -- its `{`
  rw [except_bind_eq_ok] at h
  obtain ⟨x, hx, h⟩ := h
  rcases x with _ | ⟨o, ts3⟩
  · simp [throw, throwThe, MonadExceptOf.throw] at h
  obtain rfl := (pull_eq_ok_some ending).1 hx
  simp only at h
  split at h
  · exact absurd h (throw_bind_ne_ok _ _ _)
  next ho =>
  -- its entries, and nothing after them
  rw [except_bind_eq_ok] at h
  obtain ⟨⟨uid, ps, ts4⟩, hb, h⟩ := h
  obtain ⟨es, qs, rfl, hes, rfl⟩ := body_sound ending hb
  rw [except_bind_eq_ok] at h
  obtain ⟨x, hx, h⟩ := h
  rcases x with _ | ⟨t, ts5⟩
  · obtain ⟨rfl, hend⟩ := (pull_eq_ok_none ending).1 hx
    simp only [pure, Except.pure, Except.ok.injEq] at h
    subst h
    simp only [bne_iff_ne, ne_eq, Decidable.not_not] at htag ho
    exact ⟨hend, by simpa using Document.mk hheader htag ho hes⟩
  · simp [throw, throwThe, MonadExceptOf.throw] at h

/-- The reader accepts a token list exactly when it scans to the end of the text and is a
document of the grammar, and it returns what the derivation describes. -/
theorem document_ok_iff {ts : List Token} {ending : Ending} {p : Parsed} :
    Parse.document ⟨ts, ending⟩ = .ok p ↔ (∃ n, ending = .endOfText n) ∧ Document ts p := by
  constructor
  · exact document_sound
  · rintro ⟨⟨n, rfl⟩, h⟩
    exact h.parse n

/-- **The reader accepts exactly its grammar.** A text is read exactly when it scans to its end
and its tokens are a document of the grammar, and it is read as the format name and root that
the derivation describes. The grammar's one condition on a real, that the reader of reals
reads it, holds of every real token of a scanned text. -/
theorem ofString_eq_ok_iff (s : String) (p : Parsed) :
    (Parsed.ofString s = .ok p ↔
      (∃ n, (Lexed.ofString s).ending = .endOfText n) ∧ Document (Lexed.ofString s).tokens p) ∧
    ∀ tok ∈ (Lexed.ofString s).tokens, tok.kind = .real → (Binary64.read? tok.text).isSome :=
  ⟨document_ok_iff, Scan.lexFrom_reals _ _⟩

end Grammar

end GraphDoc
