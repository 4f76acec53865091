import GraphDoc.Proofs.RealText
/-! # Scanning written text

The scanner reads one token (or, for a rawtext block, three) per step after skipping blanks.
This module says what it reads from the texts that writing produces: `Scans c r vs` holds when
one step at `c :: r` reads tokens with the kinds and texts `vs` and stops right after `r`, and
`Lexes cs vs` when the whole scanner, after any blanks and before any text that starts with a
blank, reads `vs` from `cs`. Texts are built from single-step pieces with blanks between them
(`Scans.lexes`, `Lexes.append`).

The steps are proved for every token that writing produces: brackets and `=`, names,
booleans, UIDs, tag headers, quoted strings (`readString_escapeChars`), rawtext blocks
(`readRaw_escRaw`), and the numerals of integers and reals. -/
namespace GraphDoc

/-- What the parser reads of a token: its kind and text, not its line. -/
def Token.view (t : Token) : TokenKind × String := (t.kind, t.text)

namespace Scan

/-! ## Blanks -/

/-- The characters skipped between tokens: space, tab, carriage return and line feed. -/
def isBlankChar (c : Char) : Bool := c == ' ' || c == '\t' || c == '\r' || c == '\n'

/-- Where a token starts: at neither a blank nor the slash of a comment. -/
def TokenStart (c : Char) : Prop := isBlankChar c = false ∧ c ≠ '/'

/-- A text that can follow a token without extending it: empty, or starting with a blank. -/
def Delimits (rest : List Char) : Prop := ∀ c r, rest = c :: r → isBlankChar c = true

theorem skipBlank_blank {c : Char} (hc : isBlankChar c = true) (r : List Char) (n : Nat) :
    skipBlank .code (c :: r) n = skipBlank .code r (lineAfter c n) := by
  simp only [isBlankChar, Bool.or_eq_true, beq_iff_eq] at hc
  rcases hc with ((rfl | rfl) | rfl) | rfl <;> rfl

theorem skipBlank_token {c : Char} (hc : TokenStart c) (r : List Char) (n : Nat) :
    skipBlank .code (c :: r) n = .ok (c :: r, n) := by
  obtain ⟨hb, hs⟩ := hc
  simp only [isBlankChar, Bool.or_eq_false_iff, beq_eq_false_iff_ne, ne_eq] at hb
  obtain ⟨⟨⟨h1, h2⟩, h3⟩, h4⟩ := hb
  simp [skipBlank, h1, h2, h3, h4, hs]

/-- After blanks, a step reads the tokens at the first other character. -/
theorem step_blanks {bs : List Char} (hbs : ∀ b ∈ bs, isBlankChar b = true) {c : Char}
    (hc : TokenStart c) (r : List Char) (n : Nat) : ∃ m, step (bs ++ c :: r) n = tokenAt c r m := by
  induction bs generalizing n with
  | nil => exact ⟨n, by simp [step, skipBlank_token hc]⟩
  | cons b bs ih =>
    obtain ⟨m, hm⟩ := ih (fun b' hb' => hbs b' (by simp [hb'])) (lineAfter b n)
    refine ⟨m, ?_⟩
    rw [← hm]
    simp only [step, List.cons_append, skipBlank_blank (hbs b (by simp))]

/-! ## Steps and whole scans -/

/-- One scanning step at `c :: r`, whatever delimited text follows and from whatever line,
reads tokens with the views `vs` and stops right after `r`. -/
def Scans (c : Char) (r : List Char) (vs : List (TokenKind × String)) : Prop :=
  ∀ (rest : List Char) (n : Nat), Delimits rest →
    ∃ ts n', ts.map Token.view = vs ∧ tokenAt c (r ++ rest) n = .found ts rest n'

/-- The text `cs`, after any blanks and before any delimited text, scans as tokens with the
views `vs`, from whatever line. -/
def Lexes (cs : List Char) (vs : List (TokenKind × String)) : Prop :=
  ∀ (bs rest : List Char) (n : Nat), (∀ b ∈ bs, isBlankChar b = true) → Delimits rest →
    ∃ ts n', ts.map Token.view = vs ∧
      lexFrom (bs ++ cs ++ rest) n = ⟨ts ++ (lexFrom rest n').tokens, (lexFrom rest n').ending⟩

/-- A step that consumes text continues with the scan of what it leaves. -/
theorem lexFrom_found {cs rest : List Char} {n n' : Nat} {ts : List Token}
    (h : step cs n = .found ts rest n') (hlen : rest.length < cs.length) :
    lexFrom cs n = ⟨ts ++ (lexFrom rest n').tokens, (lexFrom rest n').ending⟩ := by
  rw [lexFrom, h]
  simp only [hlen, if_true]

/-- **A single step, after any blanks, is a whole scan of its text.** -/
theorem Scans.lexes {c : Char} {r : List Char} {vs : List (TokenKind × String)}
    (h : Scans c r vs) (hc : TokenStart c) : Lexes (c :: r) vs := by
  intro bs rest n hbs hrest
  obtain ⟨m, hm⟩ := step_blanks hbs hc (r ++ rest) n
  obtain ⟨ts, n', hv, hstep⟩ := h rest m hrest
  refine ⟨ts, n', hv, lexFrom_found (by rw [List.append_assoc, List.cons_append, hm, hstep]) ?_⟩
  simp only [List.append_assoc, List.length_append, List.length_cons]
  omega

theorem Delimits.append {a b : List Char} (ha : Delimits a) (hb : Delimits b) :
    Delimits (a ++ b) := by
  intro c r h
  cases a with
  | nil => exact hb c r h
  | cons a as =>
    simp only [List.cons_append, List.cons.injEq] at h
    obtain ⟨rfl, -⟩ := h
    exact ha _ as rfl

/-- **Scans of two texts, the second starting with a blank, make a scan of both.** -/
theorem Lexes.append {a b : List Char} {va vb : List (TokenKind × String)} (ha : Lexes a va)
    (hb : Lexes b vb) (hd : Delimits b) : Lexes (a ++ b) (va ++ vb) := by
  intro bs rest n hbs hrest
  obtain ⟨ts, n', hv, hlex⟩ := ha bs (b ++ rest) n hbs (hd.append hrest)
  obtain ⟨ts', n'', hv', hlex'⟩ := hb [] rest n' (by simp) hrest
  refine ⟨ts ++ ts', n'', by simp [hv, hv'], ?_⟩
  rw [List.nil_append] at hlex'
  rw [show bs ++ (a ++ b) ++ rest = bs ++ a ++ (b ++ rest) by simp, hlex, hlex']
  simp

/-- Blanks before a scanned text are skipped. -/
theorem Lexes.blanks {cs bs : List Char} {vs : List (TokenKind × String)} (h : Lexes cs vs)
    (hbs : ∀ b ∈ bs, isBlankChar b = true) : Lexes (bs ++ cs) vs := by
  intro bs' rest n hbs' hrest
  obtain ⟨ts, n', hv, hlex⟩ := h (bs' ++ bs) rest n (by simp only [List.mem_append]; rintro b (hb | hb) <;> simp_all) hrest
  exact ⟨ts, n', hv, by simpa [List.append_assoc] using hlex⟩

/-! ## Brackets, names, UIDs and tags -/

theorem isBlankChar_not_isNameChar {c : Char} (h : isBlankChar c = true) : isNameChar c = false := by
  simp only [isBlankChar, Bool.or_eq_true, beq_iff_eq] at h
  rcases h with ((rfl | rfl) | rfl) | rfl <;> rfl

theorem Delimits.head_not_isNameChar {rest : List Char} (h : Delimits rest) :
    rest.head?.any isNameChar = false := by
  cases rest with
  | nil => rfl
  | cons c r => simpa using isBlankChar_not_isNameChar (h c r rfl)

/-- A bracket or `=` is a token on its own. -/
theorem scans_single {c : Char} {k : TokenKind} (h : single c = some k) :
    Scans c [] [(k, c.toString)] := by
  intro rest n _
  exact ⟨[⟨k, c.toString, n⟩], n, rfl, by simp [tokenAt, h]⟩

/-- An opening brace not followed by `<` opens a structure. -/
theorem scans_leftCurly : Scans '\x7b' [] [(.leftCurly, "\x7b")] := by
  intro rest n hrest
  refine ⟨[⟨.leftCurly, "\x7b", n⟩], n, rfl, ?_⟩
  cases rest with
  | nil => rfl
  | cons c r =>
    have hb := hrest c r rfl
    have hc : c ≠ '<' := by rintro rfl; exact absurd hb (by decide)
    simp [tokenAt, single, hc]

/-- A name: a letter or an underscore, then name characters; `true` and `false` are booleans,
any other name an identifier. -/
theorem tokenAt_name {c : Char} {r rest : List Char} (hc : c.isAlpha = true ∨ c = '_')
    (hr : ∀ x ∈ r, isNameChar x = true) (hrest : rest.head?.any isNameChar = false) (n : Nat) :
    tokenAt c (r ++ rest) n = .found [⟨if String.ofList (c :: r) == "true" ||
      String.ofList (c :: r) == "false" then .boolean else .identifier, String.ofList (c :: r), n⟩] rest n := by
  have htake := takeWhile_append_stop hr hrest
  have hdrop := dropWhile_append_stop hr hrest
  have hs : single c = none := by
    rcases hc with hc | rfl
    · unfold single; split <;> simp_all
    · rfl
  have h1 : c ≠ '\x7b' := by rintro rfl; simp at hc
  have h2 : c ≠ '"' := by rintro rfl; simp at hc
  have h3 : c ≠ '#' := by rintro rfl; simp at hc
  have h4 : c ≠ '<' := by rintro rfl; simp at hc
  have h5 : (c.isAlpha || c == '_') = true := by
    rcases hc with hc | rfl
    · simp [hc]
    · rfl
  simp only [tokenAt, hs, beq_iff_eq, h1, h2, h3, h4, if_false, h5, if_true, htake, hdrop]

theorem scans_name {c : Char} {r : List Char} (hc : c.isAlpha = true ∨ c = '_')
    (hr : ∀ x ∈ r, isNameChar x = true) :
    Scans c r [(if String.ofList (c :: r) == "true" || String.ofList (c :: r) == "false" then
      .boolean else .identifier, String.ofList (c :: r))] := by
  intro rest n hrest
  exact ⟨_, n, rfl, tokenAt_name hc hr hrest.head_not_isNameChar n⟩

/-- A UID: `#` and at least one name character. -/
theorem scans_uid {name : List Char} (hne : name ≠ []) (hr : ∀ x ∈ name, isNameChar x = true) :
    Scans '#' name [(.uid, String.ofList ('#' :: name))] := by
  intro rest n hrest
  have htake := takeWhile_append_stop hr hrest.head_not_isNameChar
  have hdrop := dropWhile_append_stop hr hrest.head_not_isNameChar
  have hne' : name.isEmpty = false := List.isEmpty_eq_false_iff.2 hne
  exact ⟨[⟨.uid, String.ofList ('#' :: name), n⟩], n, rfl,
    by simp [tokenAt, single, htake, hdrop, hne']⟩

/-- A tag header: `<`, at least one name character and `>`. -/
theorem scans_tag {name : List Char} (hne : name ≠ []) (hr : ∀ x ∈ name, isNameChar x = true) :
    Scans '<' (name ++ ['>']) [(.tagHeader, String.ofList ('<' :: name ++ ['>']))] := by
  intro rest n _
  have htake : (name ++ '>' :: rest).takeWhile isNameChar = name := takeWhile_append_stop hr rfl
  have hdrop : (name ++ '>' :: rest).dropWhile isNameChar = '>' :: rest :=
    dropWhile_append_stop hr rfl
  have hne' : name.isEmpty = false := List.isEmpty_eq_false_iff.2 hne
  refine ⟨[⟨.tagHeader, String.ofList ('<' :: name ++ ['>']), n⟩], n, rfl, ?_⟩
  simp only [List.append_assoc, List.singleton_append]
  simp [tokenAt, single, htake, hdrop, hne']

/-! ## Quoted strings -/

/-- The escape of one character is read back as that character. -/
theorem readString_escapeChar (c : Char) (r : List Char) (n : Nat) (acc : List Char) :
    ∃ n', readString (TextWrite.escapeChars [c] ++ r) n acc = readString r n' (c :: acc) := by
  by_cases hq : c = '"'
  · subst hq; exact ⟨n, rfl⟩
  by_cases hb : c = '\\'
  · subst hb; exact ⟨n, rfl⟩
  by_cases h8 : c = '\x08'
  · subst h8; exact ⟨n, rfl⟩
  by_cases hf : c = '\x0c'
  · subst hf; exact ⟨n, rfl⟩
  by_cases hn : c = '\n'
  · subst hn; exact ⟨n, rfl⟩
  by_cases hr : c = '\r'
  · subst hr; exact ⟨n, rfl⟩
  by_cases ht : c = '\t'
  · subst ht; exact ⟨n, rfl⟩
  -- any other character stands for itself
  refine ⟨lineAfter c n, ?_⟩
  simp [TextWrite.escapeChars, readString, hb]

/-- **A quoted string is read back as its contents**, up to its closing quote. -/
theorem readString_escapeChars (s rest : List Char) (n : Nat) (acc : List Char) :
    ∃ n', readString (TextWrite.escapeChars s ++ '"' :: rest) n acc =
      some (acc.reverse ++ s, rest, n') := by
  induction s generalizing n acc with
  | nil => exact ⟨n, by simp [TextWrite.escapeChars, readString]⟩
  | cons c s ih =>
    have hsplit : TextWrite.escapeChars (c :: s) = TextWrite.escapeChars [c] ++ TextWrite.escapeChars s := by
      simp [TextWrite.escapeChars]
    obtain ⟨n₁, h₁⟩ := readString_escapeChar c (TextWrite.escapeChars s ++ '"' :: rest) n acc
    obtain ⟨n₂, h₂⟩ := ih n₁ (c :: acc)
    exact ⟨n₂, by rw [hsplit, List.append_assoc, h₁, h₂]; simp⟩

theorem scans_string (s : List Char) :
    Scans '"' (TextWrite.escapeChars s ++ ['"']) [(.string, String.ofList s)] := by
  intro rest n _
  obtain ⟨n', h⟩ := readString_escapeChars s rest n []
  refine ⟨[⟨.string, String.ofList s, n⟩], n', rfl, ?_⟩
  simp only [List.append_assoc, List.singleton_append]
  simp [tokenAt, single, h]

/-! ## Rawtext blocks -/

/-- The escaping of a rawtext body, left to right: each `>}` is written `\>}`. -/
def escRaw : List Char → List Char
  | '>' :: '}' :: r => '\\' :: '>' :: '}' :: escRaw r
  | c :: r => c :: escRaw r
  | [] => []

/-- `escapeRawChars` builds `escRaw` in reverse: a `>` last written may still get its
backslash, so it is handed back to the escaping of what follows. -/
theorem escapeRawChars_eq (t : List Char) :
    (∀ acc : List Char, acc.head? ≠ some '>' →
      TextWrite.escapeRawChars acc t = acc.reverse ++ escRaw t) ∧
    (∀ acc : List Char, TextWrite.escapeRawChars ('>' :: acc) t = acc.reverse ++ escRaw ('>' :: t)) := by
  induction t with
  | nil => exact ⟨fun acc _ => by simp [TextWrite.escapeRawChars, escRaw],
      fun acc => by simp [TextWrite.escapeRawChars, escRaw]⟩
  | cons c t ih =>
    obtain ⟨ih₁, ih₂⟩ := ih
    constructor
    · intro acc hacc
      have hstep : TextWrite.escapeRawChars acc (c :: t) = TextWrite.escapeRawChars (c :: acc) t := by
        cases acc with
        | nil => simp [TextWrite.escapeRawChars]
        | cons a acc =>
          simp only [List.head?_cons, ne_eq, Option.some.injEq] at hacc
          simp [TextWrite.escapeRawChars, hacc]
      rw [hstep]
      by_cases hc : c = '>'
      · subst hc; rw [ih₂]
      · rw [ih₁ _ (by simpa using hc)]
        have : escRaw (c :: t) = c :: escRaw t := by
          cases t <;> simp [escRaw, hc]
        simp [this]
    · intro acc
      by_cases hc : c = '}'
      · subst hc
        rw [show TextWrite.escapeRawChars ('>' :: acc) ('}' :: t) =
          TextWrite.escapeRawChars ('}' :: '>' :: '\\' :: acc) t from rfl, ih₁ _ (by simp)]
        simp [escRaw]
      · rw [show TextWrite.escapeRawChars ('>' :: acc) (c :: t) =
          TextWrite.escapeRawChars (c :: '>' :: acc) t by simp [TextWrite.escapeRawChars, hc]]
        by_cases hg : c = '>'
        · subst hg; rw [ih₂]; simp [escRaw]
        · rw [ih₁ _ (by simpa using hg)]
          have : escRaw (c :: t) = c :: escRaw t := by cases t <;> simp [escRaw, hg]
          simp [escRaw, hc, this]

theorem escapeRawtext_toList (s : String) :
    (TextWrite.escapeRawtext s).toList = escRaw s.toList := by
  simp [TextWrite.escapeRawtext, (escapeRawChars_eq s.toList).1 [] (by simp)]

theorem escRaw_cons {c : Char} {r : List Char} (h : ∀ r', c = '>' → r = '}' :: r' → False) :
    escRaw (c :: r) = c :: escRaw r := escRaw.eq_2 c r h

/-- A character is read as itself unless it is a `>` that a `}` follows. -/
theorem readRaw_cons {c : Char} {r : List Char} (h : c ≠ '>' ∨ r.head? ≠ some '}') (n : Nat)
    (acc : List Char) : readRaw (c :: r) n acc = readRaw r (lineAfter c n) (c :: acc) := by
  rw [readRaw.eq_4]
  rintro r' rfl rfl
  simp at h

/-- An escaped body starts with `}` only where the body does. -/
theorem escRaw_append_head {r x : List Char} (hr : r.head? ≠ some '}') (hx : x.head? ≠ some '}') :
    (escRaw r ++ x).head? ≠ some '}' := by
  induction r using escRaw.induct with
  | case1 r _ => simp [escRaw]
  | case2 c r hne _ => rw [escRaw_cons hne]; simpa using hr
  | case3 => simpa [escRaw] using hx

/-- **An escaped rawtext body is read back**, up to the line break and `>}` that close it. -/
theorem readRaw_escRaw (t rest : List Char) (n : Nat) (acc : List Char) :
    ∃ n', readRaw (escRaw t ++ '\n' :: '>' :: '}' :: rest) n acc =
      some (acc.reverse ++ t ++ ['\n'], rest, n') := by
  induction t using escRaw.induct generalizing n acc with
  | case1 r ih =>
    -- an escaped `>}`: the backslash read first gives way to the `>`
    obtain ⟨n', h⟩ := ih n ('}' :: '>' :: acc)
    refine ⟨n', ?_⟩
    have hl : lineAfter '}' (lineAfter '\\' n) = n := by simp [lineAfter]
    simp only [escRaw, List.cons_append]
    rw [readRaw_cons (.inl (by decide)), readRaw.eq_2, readRaw_cons (.inl (by decide)), hl, h]
    simp
  | case2 c r hne ih =>
    obtain ⟨n', h⟩ := ih (lineAfter c n) (c :: acc)
    refine ⟨n', ?_⟩
    -- a `>` here is not followed by `}`, so it is read as itself
    have hnext : c ≠ '>' ∨ (escRaw r ++ '\n' :: '>' :: '}' :: rest).head? ≠ some '}' := by
      by_cases hc : c = '>'
      · refine .inr (escRaw_append_head ?_ (by simp))
        rcases r with _ | ⟨d, r⟩
        · simp
        · rintro ⟨⟩; exact hne r hc rfl
      · exact .inl hc
    rw [escRaw_cons hne, List.cons_append, readRaw_cons hnext, h]
    simp
  | case3 => exact ⟨n + 1, by simp [escRaw, readRaw, lineAfter]⟩

/-- The line breaks that delimit a body are not part of it. -/
theorem trimRawBody_delimited (t : List Char) : trimRawBody ('\n' :: (t ++ ['\n'])) = t := by
  simp [trimRawBody]

/-- A rawtext block: `{<`, a line break, the escaped body, a line break and `>}`. -/
theorem scans_raw (t : List Char) :
    Scans '\x7b' ('<' :: '\n' :: (escRaw t ++ ['\n', '>', '\x7d']))
      [(.leftFancy, "\x7b<"), (.rawtext, String.ofList t), (.rightFancy, ">\x7d")] := by
  intro rest n _
  obtain ⟨n', h⟩ := readRaw_escRaw ('\n' :: t) rest n []
  rw [escRaw_cons (by simp)] at h
  refine ⟨[⟨.leftFancy, "\x7b<", n⟩, ⟨.rawtext, String.ofList t, n⟩, ⟨.rightFancy, ">\x7d", n'⟩],
    n', rfl, ?_⟩
  simp only [List.cons_append, List.append_assoc] at h ⊢
  simp [tokenAt, single, h, trimRawBody_delimited]

/-! ## Numbers -/

section Numbers

open Ieee.Literal

theorem isBlankChar_cases {c : Char} (h : isBlankChar c = true) :
    c = ' ' ∨ c = '\t' ∨ c = '\r' ∨ c = '\n' := by
  simp only [isBlankChar, Bool.or_eq_true, beq_iff_eq] at h
  tauto

theorem Delimits.head_any {rest : List Char} (h : Delimits rest) {p : Char → Bool}
    (hp : ∀ c, isBlankChar c = true → p c = false) : rest.head?.any p = false := by
  cases rest with
  | nil => rfl
  | cons c r => simpa using hp c (h c r rfl)

theorem Delimits.head_not_isDigit {rest : List Char} (h : Delimits rest) :
    rest.head?.any Char.isDigit = false :=
  h.head_any fun c hc => by rcases isBlankChar_cases hc with rfl | rfl | rfl | rfl <;> rfl

/-- A number that a blank or the end follows is finished there. -/
theorem finishNumber_delimited (kind : TokenKind) (text : List Char) {rest : List Char}
    (hrest : Delimits rest) (line : Nat) :
    finishNumber kind text rest line = .ok (⟨kind, String.ofList text, line⟩, rest) := by
  cases rest with
  | nil => rfl
  | cons c r =>
    have hc : (isNameChar c || c == '.') = false := by
      rcases isBlankChar_cases (hrest c r rfl) with rfl | rfl | rfl | rfl <;> rfl
    simp [finishNumber, hc]

theorem takeSign_of_isDigit {c : Char} (hc : c.isDigit = true) (r : List Char) :
    takeSign (c :: r) = ([], c :: r) := by
  have hm : c ≠ '-' := by rintro rfl; simp at hc
  have hp : c ≠ '+' := by rintro rfl; simp at hc
  simp [takeSign, hm, hp]

theorem takeSign_exponent {s ds r : List Char} (hs : s = [] ∨ s = ['+'] ∨ s = ['-'])
    (hds : ∀ c ∈ ds, c.isDigit = true) (hne : ds ≠ []) : takeSign (s ++ (ds ++ r)) = (s, ds ++ r) := by
  obtain ⟨c, d, rfl⟩ := List.exists_cons_of_ne_nil hne
  rcases hs with rfl | rfl | rfl
  · exact takeSign_of_isDigit (hds c (by simp)) _
  · rfl
  · rfl


theorem isAlpha_of_isDigit {c : Char} (hc : c.isDigit = true) : c.isAlpha = false := by
  unfold Char.isDigit at hc
  -- a letter is upper case (`A` to `Z`) or lower case (`a` to `z`)
  change (decide (c.val ≥ 'A'.val ∧ c.val ≤ 'Z'.val) ||
    (decide (c.val ≥ 'a'.val) && decide (c.val ≤ 'z'.val))) = false
  simp only [Bool.and_eq_true, decide_eq_true_eq, UInt32.le_iff_toNat_le, Bool.or_eq_false_iff,
    Bool.and_eq_false_iff, decide_eq_false_iff_not] at hc ⊢
  have h9 : ('9' : Char).val.toNat = 57 := rfl
  have h0 : ('0' : Char).val.toNat = 48 := rfl
  have hA : ('A' : Char).val.toNat = 65 := rfl
  have ha : ('a' : Char).val.toNat = 97 := rfl
  omega

theorem tokenAt_number {c : Char} (hc : c.isDigit = true ∨ c = '-') (r : List Char) (n : Nat) :
    tokenAt c r n = ofRead (readNumber (c :: r) n) := by
  rcases hc with hc | rfl
  · have hsingle : single c = none := by
      unfold single; split <;> simp_all
    have hne : ∀ d : Char, d.isDigit = false → c ≠ d := by rintro d hd rfl; simp_all
    simp [tokenAt, hsingle, hne '\x7b' rfl, hne '"' rfl, hne '#' rfl, hne '<' rfl, hne '_' rfl,
      isAlpha_of_isDigit hc, hc]
  · rfl


theorem tokenStart_of_number {c : Char} (hc : c.isDigit = true ∨ c = '-') : TokenStart c := by
  rcases hc with hc | rfl
  · have hne : ∀ d : Char, d.isDigit = false → c ≠ d := by rintro d hd rfl; simp_all
    refine ⟨?_, hne '/' rfl⟩
    simp [isBlankChar, hne ' ' rfl, hne '\t' rfl, hne '\r' rfl, hne '\n' rfl]
  · exact ⟨rfl, by decide⟩

namespace Numeral

open GraphDoc.Numeral

/-- The exponent of a well-formed numeral, before a delimiter: the scanner takes its sign, then
its digits, which stop at the delimiter. -/
theorem exponent_reads {n : Numeral} (h : n.WellFormed) {s ds : List Char}
    (he : n.exponent = some (s, ds)) {rest : List Char} (hrest : Delimits rest) :
    takeSign (s ++ (ds ++ rest)) = (s, ds ++ rest) ∧ (ds ++ rest).takeWhile Char.isDigit = ds ∧
      (ds ++ rest).dropWhile Char.isDigit = rest ∧ ds.isEmpty = false :=
  ⟨takeSign_exponent (h.exponent_sign _ he) (h.exponent_digits _ he) (h.exponent_ne _ he),
    takeWhile_append_stop (h.exponent_digits _ he) hrest.head_not_isDigit,
    dropWhile_append_stop (h.exponent_digits _ he) hrest.head_not_isDigit,
    List.isEmpty_eq_false_iff.2 (h.exponent_ne _ he)⟩

/-- **A numeral is scanned as one number token**, real when it has a point or an exponent. -/
theorem readDecimal_chars {n : Numeral} (h : n.WellFormed) (sign : List Char) {rest : List Char}
    (hrest : Delimits rest) (line : Nat) :
    readDecimal sign (n.chars ++ rest) line =
      .ok (⟨if n.fraction.isSome || n.exponent.isSome then .real else .integer,
        String.ofList (sign ++ n.chars), line⟩, rest) := by
  obtain ⟨whole, fraction, exponent⟩ := n
  have hw : whole.isEmpty = false := List.isEmpty_eq_false_iff.2 h.whole_ne
  have hstop : (pointPart fraction ++ (exponentPart exponent ++ rest)).head?.any Char.isDigit = false := by
    cases fraction
    · cases exponent
      · exact hrest.head_not_isDigit
      · rfl
    · rfl
  have htake := takeWhile_append_stop h.whole_digits hstop
  have hdrop := dropWhile_append_stop h.whole_digits hstop
  have hstop' : (exponentPart exponent ++ rest).head?.any Char.isDigit = false := by
    cases exponent
    · exact hrest.head_not_isDigit
    · rfl
  have htake' := takeWhile_append_stop h.fraction_digits hstop'
  have hdrop' := dropWhile_append_stop h.fraction_digits hstop'
  simp only [chars, List.append_assoc] at htake hdrop ⊢
  cases fraction with
  | none =>
    cases exponent with
    | none =>
      simp only [pointPart, exponentPart, List.nil_append] at htake hdrop ⊢
      unfold readDecimal
      cases rest with
      | nil =>
        rw [List.append_nil] at htake hdrop
        simp [htake, hdrop, hw, finishNumber]
      | cons c r =>
        rcases isBlankChar_cases (hrest c r rfl) with rfl | rfl | rfl | rfl <;>
          simp [htake, hdrop, hw, finishNumber, isNameChar]
    | some e =>
      obtain ⟨s, ds⟩ := e
      obtain ⟨hsign, htakeE, hdropE, hds⟩ := exponent_reads h rfl hrest
      simp only [pointPart, exponentPart, List.nil_append, List.cons_append, List.append_assoc]
        at htake hdrop ⊢
      simp [readDecimal, htake, hdrop, hw, hsign, htakeE, hdropE, hds,
        finishNumber_delimited _ _ hrest]
  | some fr =>
    simp only [fractionDigits, Option.getD_some] at htake' hdrop'
    cases exponent with
    | none =>
      simp only [pointPart, exponentPart, List.nil_append, List.cons_append, List.append_nil]
        at htake hdrop htake' hdrop' ⊢
      unfold readDecimal
      cases rest with
      | nil =>
        simp only [List.append_nil] at htake hdrop htake' hdrop'
        simp [htake, hdrop, htake', hdrop', hw, finishNumber]
      | cons c r =>
        rcases isBlankChar_cases (hrest c r rfl) with rfl | rfl | rfl | rfl <;>
          simp [htake, hdrop, htake', hdrop', hw, finishNumber, isNameChar]
    | some e =>
      obtain ⟨s, ds⟩ := e
      obtain ⟨hsign, htakeE, hdropE, hds⟩ := exponent_reads h rfl hrest
      simp only [pointPart, exponentPart, List.cons_append, List.append_assoc]
        at htake hdrop htake' hdrop' ⊢
      simp [readDecimal, htake, hdrop, htake', hdrop', hw, hsign, htakeE, hdropE, hds,
        finishNumber_delimited _ _ hrest]

/-- After the first digit of a numeral comes no `x` of a hexadecimal literal. -/
theorem not_hexMark {n : Numeral} (h : n.WellFormed) {rest : List Char} (hrest : Delimits rest)
    {c x : Char} {r : List Char} (heq : n.chars ++ rest = c :: x :: r) : (x == 'x' || x == 'X') = false := by
  obtain ⟨whole, fraction, exponent⟩ := n
  cases whole with
  | nil => exact absurd rfl h.whole_ne
  | cons c' w =>
    cases w with
    | cons d w =>
      have hd := h.whole_digits d (by simp)
      simp only [chars, List.cons_append, List.cons.injEq] at heq
      obtain ⟨-, rfl, -⟩ := heq
      simp only [Bool.or_eq_false_iff, beq_eq_false_iff_ne]
      constructor <;> rintro rfl <;> simp at hd
    | nil =>
      simp only [chars, List.cons_append, List.nil_append, List.cons.injEq] at heq
      obtain ⟨-, heq⟩ := heq
      cases fraction with
      | some fr => simp only [pointPart, List.cons_append, List.cons.injEq] at heq; rw [← heq.1]; rfl
      | none =>
        cases exponent with
        | some e => simp only [pointPart, exponentPart, List.nil_append, List.cons_append,
            List.cons.injEq] at heq; rw [← heq.1]; rfl
        | none =>
          simp only [pointPart, exponentPart, List.nil_append] at heq
          rcases isBlankChar_cases (hrest x r heq) with rfl | rfl | rfl | rfl <;> rfl

/-- **A numeral after an optional minus is scanned as one number token.** -/
theorem readNumber_chars {n : Numeral} (h : n.WellFormed) (neg : Bool) {rest : List Char}
    (hrest : Delimits rest) (line : Nat) :
    readNumber ((if neg then ['-'] else []) ++ (n.chars ++ rest)) line =
      .ok (⟨if n.fraction.isSome || n.exponent.isSome then .real else .integer,
        String.ofList ((if neg then ['-'] else []) ++ n.chars), line⟩, rest) := by
  obtain ⟨c, w, hcw⟩ := List.exists_cons_of_ne_nil h.whole_ne
  have hc : c.isDigit = true := h.whole_digits c (by simp [hcw])
  have hchars : n.chars ++ rest = c :: (w ++ (pointPart n.fraction ++ (exponentPart n.exponent ++ rest))) := by
    simp [chars, hcw]
  have hsign : takeSign ((if neg then ['-'] else []) ++ (n.chars ++ rest)) =
      (if neg then ['-'] else [], n.chars ++ rest) := by
    cases neg
    · simp only [hchars]; exact takeSign_of_isDigit hc _
    · rfl
  unfold readNumber
  rw [hsign]
  dsimp only
  split
  · next x r' heq => rw [if_neg (by simp [not_hexMark h hrest heq])]; exact readDecimal_chars h _ hrest line
  · exact readDecimal_chars h _ hrest line

/-- **A numeral after an optional minus lexes as one number token.** -/
theorem lexes_chars {n : Numeral} (h : n.WellFormed) (neg : Bool) :
    Lexes ((if neg then ['-'] else []) ++ n.chars)
      [(if n.fraction.isSome || n.exponent.isSome then .real else .integer,
        String.ofList ((if neg then ['-'] else []) ++ n.chars))] := by
  obtain ⟨c, r, hcr, hc⟩ : ∃ c r, (if neg then ['-'] else []) ++ n.chars = c :: r ∧
      (c.isDigit = true ∨ c = '-') := by
    obtain ⟨d, w, hdw⟩ := List.exists_cons_of_ne_nil h.whole_ne
    cases neg
    · exact ⟨d, w ++ (pointPart n.fraction ++ exponentPart n.exponent), by simp [chars, hdw],
        .inl (h.whole_digits d (by simp [hdw]))⟩
    · exact ⟨'-', n.chars, rfl, .inr rfl⟩
  rw [hcr]
  refine Scans.lexes ?_ (tokenStart_of_number hc)
  intro rest line hrest
  refine ⟨[⟨if n.fraction.isSome || n.exponent.isSome then .real else .integer,
    String.ofList (c :: r), line⟩], line, rfl, ?_⟩
  rw [tokenAt_number hc, ← List.cons_append, ← hcr, List.append_assoc, readNumber_chars h neg hrest]
  rfl

end Numeral

/-- A finite real is written as one real token. -/
theorem lexes_real {x : Binary64} (hx : x.isFinite = true) :
    Lexes (TextWrite.real x).toList [(.real, TextWrite.real x)] := by
  obtain ⟨num, hw, hpt, heq⟩ := TextWrite.real_numeral hx
  have hk : (num.fraction.isSome || num.exponent.isSome) = true := by simpa using hpt
  have h := Numeral.lexes_chars hw x.negative
  simp only [hk, if_true, ← heq, String.ofList_toList] at h
  exact h

/-- An integer is written as one integer token. -/
theorem lexes_int (i : Int) : Lexes (toString i).toList [(.integer, toString i)] := by
  have hw : Numeral.WellFormed ⟨Nat.toDigits 10 i.natAbs, none, none⟩ :=
    ⟨Nat.toDigits_ne_nil, fun _ hc => isDigit_of_mem_toDigits hc, by simp [Numeral.fractionDigits],
      by simp, by simp, by simp⟩
  have h := Numeral.lexes_chars hw (decide (i < 0))
  have heq : (if decide (i < 0) then ['-'] else []) ++ Numeral.chars ⟨Nat.toDigits 10 i.natAbs, none, none⟩ =
      (toString i).toList := by
    rw [toList_toString_int]
    simp [Numeral.chars, Numeral.pointPart, Numeral.exponentPart]
  simp only [Option.isSome_none, Bool.or_self, Bool.false_eq_true, if_false, heq,
    String.ofList_toList] at h
  exact h

end Numbers

end Scan

end GraphDoc
