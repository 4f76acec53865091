import GraphDoc.Proofs.TextFixpoint
/-! # The line of every token

The scanner counts lines by line feeds as it reads, and gives each token the line it has reached
where the token's first character stands. This module proves the count right for every text,
however many line feeds its strings, comments and rawtext bodies hold, and proves that the scan
runs to the end of the text unless it stops at a fault (`Lexed.token_lines`).

* `Skipped` is the text passed over between tokens: blanks, line comments and block comments.
  Skipping reads exactly such a text and counts its line feeds (`skipBlank_skipped`).
* `Lies t g x` says where a token stands: at its lexeme `x`, after the skipped text `g`. A string
  is read from its quoted form up to the closing quote (`readString_consumed`), a rawtext body
  from everything between `{<` and the `>}` that closes it (`readRaw_consumed`), with nothing
  skipped before it, and that `>}` right after the body; a number (`readNumber_consumed`) and
  every other token from its own text.
* `Layout before ts u` cuts the text `u`, read after the text `before`, into the tokens `ts` and
  asks of each that its line be one more than the line feeds before its lexeme.

A step of the scanner lays out the tokens it reads and consumes at least one character
(`step_found_layout`), so the guard of `lexFrom` never cuts a scan short and a whole scan lays
out all its tokens (`lexFrom_layout`). -/
namespace GraphDoc

namespace Scan

/-- Reading a character adds it to the count of line feeds when it is one. -/
theorem lineAfter_add_count (c : Char) (n : Nat) (l : List Char) :
    lineAfter c n + l.count '\n' = n + (c :: l).count '\n' := by
  unfold lineAfter
  by_cases hc : c = '\n'
  · subst hc
    simp
    omega
  · simp [hc]

/-! ## Skipped text -/

/-- The text skipped between tokens: blanks, line comments from `//` to their line feed or to the
end of the text, and block comments from `/*` to the first `*/`. -/
inductive Skipped : List Char → Prop
  | nil : Skipped []
  | blank {c : Char} {r : List Char} : isBlankChar c = true → Skipped r → Skipped (c :: r)
  | lineComment {body r : List Char} : '\n' ∉ body → Skipped r →
      Skipped ('/' :: '/' :: (body ++ '\n' :: r))
  | lastLine {body : List Char} : '\n' ∉ body → Skipped ('/' :: '/' :: body)
  | blockComment {body r : List Char} : ¬ ['*', '/'] <:+: body → Skipped r →
      Skipped ('/' :: '*' :: (body ++ '*' :: '/' :: r))

/-- What follows the `//` of a line comment: the rest of the comment, then skipped text. -/
def LineRest (g : List Char) : Prop :=
  (∃ body r, '\n' ∉ body ∧ g = body ++ '\n' :: r ∧ Skipped r) ∨ '\n' ∉ g

/-- What follows the `/*` of a block comment: the rest of the comment, then skipped text. -/
def BlockRest (g : List Char) : Prop :=
  ∃ body r, ¬ ['*', '/'] <:+: body ∧ g = body ++ '*' :: '/' :: r ∧ Skipped r

/-- What skipping reads from where it stands: skipped text between tokens, and the rest of a
comment followed by skipped text inside one. -/
def Blank.Rest : Blank → List Char → Prop
  | .code => Skipped
  | .lineComment => LineRest
  | .blockComment => BlockRest

theorem LineRest.skipped {g : List Char} (h : LineRest g) : Skipped ('/' :: '/' :: g) := by
  rcases h with ⟨body, r, hb, rfl, hr⟩ | hg
  · exact .lineComment hb hr
  · exact .lastLine hg

theorem BlockRest.skipped {g : List Char} (h : BlockRest g) : Skipped ('/' :: '*' :: g) := by
  obtain ⟨body, r, hb, rfl, hr⟩ := h
  exact .blockComment hb hr

theorem LineRest.cons {c : Char} {g : List Char} (hc : c ≠ '\n') (h : LineRest g) :
    LineRest (c :: g) := by
  rcases h with ⟨body, r, hb, rfl, hr⟩ | hg
  · exact .inl ⟨c :: body, r, by simp [Ne.symm hc, hb], rfl, hr⟩
  · exact .inr (by simp [Ne.symm hc, hg])

/-- A character other than the `*` of a `*/` continues a block comment. -/
theorem BlockRest.cons {c : Char} {g : List Char} (hc : c = '*' → g.head? ≠ some '/')
    (h : BlockRest g) : BlockRest (c :: g) := by
  obtain ⟨body, r, hb, rfl, hr⟩ := h
  refine ⟨c :: body, r, ?_, rfl, hr⟩
  rw [List.infix_cons_iff]
  rintro (hp | hi)
  · -- a `*/` at the front would need the body to start with `/`
    obtain ⟨rfl, hslash⟩ := List.cons_prefix_cons.1 hp
    cases body with
    | nil => simp at hslash
    | cons b body =>
      obtain ⟨rfl, -⟩ := List.cons_prefix_cons.1 hslash
      simp at hc
  · exact hb hi

theorem BlockRest.ne_nil {g : List Char} (h : BlockRest g) : g ≠ [] := by
  obtain ⟨body, r, -, rfl, -⟩ := h
  simp

/-- **Skipping reads skipped text and counts its line feeds**, from wherever it stands. -/
theorem skipBlank_skipped {m : Blank} {cs rest : List Char} {n n' : Nat}
    (h : skipBlank m cs n = .ok (rest, n')) :
    ∃ g, cs = g ++ rest ∧ m.Rest g ∧ n' = n + g.count '\n' := by
  fun_induction skipBlank m cs n with
  | case1 r n ih =>
    obtain ⟨g, rfl, hg, rfl⟩ := ih h
    exact ⟨' ' :: g, rfl, .blank rfl hg, by simp⟩
  | case2 r n ih =>
    obtain ⟨g, rfl, hg, rfl⟩ := ih h
    exact ⟨'\t' :: g, rfl, .blank rfl hg, by simp⟩
  | case3 r n ih =>
    obtain ⟨g, rfl, hg, rfl⟩ := ih h
    exact ⟨'\r' :: g, rfl, .blank rfl hg, by simp⟩
  | case4 r n ih =>
    obtain ⟨g, rfl, hg, rfl⟩ := ih h
    exact ⟨'\n' :: g, rfl, .blank rfl hg, by simp; omega⟩
  | case5 r n ih =>
    obtain ⟨g, rfl, hg, rfl⟩ := ih h
    exact ⟨'/' :: '/' :: g, rfl, LineRest.skipped hg, by simp⟩
  | case6 r n ih =>
    obtain ⟨g, rfl, hg, rfl⟩ := ih h
    exact ⟨'/' :: '*' :: g, rfl, BlockRest.skipped hg, by simp⟩
  | case7 cs n =>
    cases h
    exact ⟨[], rfl, .nil, rfl⟩
  | case8 n =>
    -- the text ends inside a line comment
    cases h
    exact ⟨[], rfl, .inr (by simp), rfl⟩
  | case9 r n ih =>
    obtain ⟨g, rfl, hg, rfl⟩ := ih h
    exact ⟨'\n' :: g, rfl, .inl ⟨[], g, by simp, rfl, hg⟩, by simp; omega⟩
  | case10 c r n hc ih =>
    obtain ⟨g, rfl, hg, rfl⟩ := ih h
    exact ⟨c :: g, rfl, hg.cons hc, by simp [List.count_cons]; exact hc⟩
  | case11 n => cases h
  | case12 r n ih =>
    obtain ⟨g, rfl, hg, rfl⟩ := ih h
    exact ⟨'*' :: '/' :: g, rfl, ⟨[], g, by simp, rfl, hg⟩, by simp⟩
  | case13 c r n hc ih =>
    obtain ⟨g, rfl, hg, rfl⟩ := ih h
    refine ⟨c :: g, rfl, hg.cons fun hstar hhead => ?_, lineAfter_add_count c n g⟩
    -- the rest of a block comment is not empty, so it starts the text after `c`
    obtain ⟨x, g', rfl⟩ := List.exists_cons_of_ne_nil hg.ne_nil
    cases hhead
    exact hc _ hstar rfl

/-- Between tokens, skipping from one line past the line feeds read so far reaches one line past
those and the line feeds it skips. -/
theorem skipBlank_code {before cs rest : List Char} {n n' : Nat} (hn : n = 1 + before.count '\n')
    (h : skipBlank .code cs n = .ok (rest, n')) :
    ∃ g, cs = g ++ rest ∧ Skipped g ∧ n' = 1 + (before ++ g).count '\n' := by
  obtain ⟨g, hcs, hg, rfl⟩ := skipBlank_skipped h
  refine ⟨g, hcs, hg, ?_⟩
  simp [hn]
  omega

/-! ## Strings and rawtext bodies -/

/-- **A string is read from the text up to its closing quote**, and read the same when nothing
follows that quote; the line grows by the line feeds read. -/
theorem readString_consumed {r rest s : List Char} {n n' : Nat} {acc : List Char}
    (h : readString r n acc = some (s, rest, n')) :
    ∃ q, r = q ++ rest ∧ readString q n acc = some (s, [], n') ∧ n' = n + q.count '\n' := by
  fun_induction readString r n acc with
  | case1 => cases h
  | case2 r n acc =>
    simp only [Option.some.injEq, Prod.mk.injEq] at h
    obtain ⟨rfl, rfl, rfl⟩ := h
    exact ⟨['"'], rfl, rfl, by simp⟩
  | case3 c r n acc ih =>
    obtain ⟨q, rfl, hq, rfl⟩ := ih h
    refine ⟨'\\' :: c :: q, rfl, hq, ?_⟩
    rw [lineAfter_add_count]
    simp
  | case4 c r n acc hq hesc ih =>
    obtain ⟨q, rfl, hq', rfl⟩ := ih h
    -- a backslash with text after it would have been an escape
    have hesc' : ∀ c' r', c = '\\' → q = c' :: r' → False := by
      rintro c' r' hc rfl
      exact hesc c' (r' ++ rest) hc rfl
    refine ⟨c :: q, rfl, ?_, lineAfter_add_count c n q⟩
    rw [readString.eq_4 _ _ _ _ hq hesc']
    exact hq'

/-- **A rawtext body is read from the text up to the `>}` that closes it**, and read the same
when nothing follows that `>}`; the line grows by the line feeds of the body. -/
theorem readRaw_consumed {r rest b : List Char} {n n' : Nat} {acc : List Char}
    (h : readRaw r n acc = some (b, rest, n')) :
    ∃ q, r = q ++ '>' :: '}' :: rest ∧ readRaw (q ++ ['>', '}']) n acc = some (b, [], n') ∧
      n' = n + q.count '\n' := by
  fun_induction readRaw r n acc with
  | case1 => cases h
  | case2 r n acc ih =>
    -- `\>}`: its `>` belongs to the body, and so does the `}` after it
    obtain ⟨q, hr, hq, rfl⟩ := ih h
    cases q with
    | nil => simp at hr
    | cons x q =>
      obtain ⟨rfl, rfl⟩ := List.cons.inj hr
      refine ⟨'>' :: '}' :: q, rfl, ?_, by simp⟩
      rw [List.cons_append, List.cons_append, readRaw.eq_2]
      exact hq
  | case3 r n acc hacc =>
    cases h
    refine ⟨[], rfl, ?_, by simp⟩
    rw [List.nil_append, readRaw.eq_3 _ _ _ hacc]
  | case4 c r n acc hc ih =>
    obtain ⟨q, rfl, hq, rfl⟩ := ih h
    refine ⟨c :: q, rfl, ?_, lineAfter_add_count c n q⟩
    -- a `>` here is not followed by `}` in the shorter text either
    have hnext : c ≠ '>' ∨ (q ++ ['>', '}']).head? ≠ some '}' := by
      by_cases hgt : c = '>'
      · refine .inr fun hhead => ?_
        cases q with
        | nil => simp at hhead
        | cons x q =>
          cases hhead
          exact hc _ hgt rfl
      · exact .inl hgt
    rw [List.cons_append, readRaw_cons hnext]
    exact hq

/-! ## Numbers -/

theorem finishNumber_consumed {kind : TokenKind} {text rest rest' : List Char} {line : Nat}
    {t : Token} (h : finishNumber kind text rest line = .ok (t, rest')) :
    t = ⟨kind, String.ofList text, line⟩ ∧ rest' = rest := by
  unfold finishNumber at h
  split at h
  · split at h
    · cases h
    · cases h
      exact ⟨rfl, rfl⟩
  · cases h
    exact ⟨rfl, rfl⟩

theorem newline_not_mem_takeWhile {p : Char → Bool} (hp : p '\n' = false) (l : List Char) :
    '\n' ∉ l.takeWhile p := fun h => by
  simpa [hp] using List.mem_takeWhile_imp h

theorem newline_not_mem_digits (l : List Char) : '\n' ∉ l.takeWhile Char.isDigit :=
  newline_not_mem_takeWhile rfl l

theorem takeSign_append (cs : List Char) : (takeSign cs).1 ++ (takeSign cs).2 = cs := by
  cases cs with
  | nil => rfl
  | cons c r =>
    simp only [takeSign]
    split <;> rfl

theorem newline_not_mem_takeSign (cs : List Char) : '\n' ∉ (takeSign cs).1 := by
  rcases takeSign_fst cs with h | h | h <;> simp [h]

/-- The exponent after a mantissa: `e`, an optional sign and digits are read when digits are
there; any other character is left for what follows the number. -/
theorem exponent_consumed {e : Char} {r R text rest : List Char} {k : TokenKind} {line : Nat}
    {t : Token} (h : exponentStep e r R text k line = .ok (t, rest)) :
    (∃ v, e :: r = v ++ rest ∧ '\n' ∉ v ∧ t.text = String.ofList (text ++ v) ∧ t.line = line) ∨
      (rest = R ∧ t.text = String.ofList text ∧ t.line = line) := by
  unfold exponentStep at h
  split at h
  next he =>
    split at h
    · cases h
    next =>
      obtain ⟨rfl, rfl⟩ := finishNumber_consumed h
      have he' : e ≠ '\n' := by
        rintro rfl
        simp at he
      refine .inl ⟨e :: ((takeSign r).1 ++ List.takeWhile Char.isDigit (takeSign r).2), ?_, ?_,
        by simp, rfl⟩
      · conv_lhs => rw [← takeSign_append r, ← List.takeWhile_append_dropWhile (p := Char.isDigit)
          (l := (takeSign r).2)]
        simp
      · simp only [List.mem_cons, List.mem_append, not_or]
        exact ⟨he'.symm, newline_not_mem_takeSign r, newline_not_mem_digits _⟩
  · obtain ⟨rfl, rfl⟩ := finishNumber_consumed h
    exact .inr ⟨rfl, rfl, rfl⟩

/-- **A decimal number is read from a prefix of the text after its sign**, which holds no line
feed; the token is on the line where the number starts. -/
theorem readDecimal_consumed {sign cs rest : List Char} {line : Nat} {t : Token}
    (h : readDecimal sign cs line = .ok (t, rest)) :
    ∃ u, cs = u ++ rest ∧ u ≠ [] ∧ '\n' ∉ u ∧ t.text.toList = sign ++ u ∧ t.line = line := by
  -- each way through the reader reads a mantissa `m`, then what the exponent reads, `v`
  have finish : ∀ m v, cs = m ++ (v ++ rest) → m ≠ [] → '\n' ∉ m → '\n' ∉ v →
      t.text = String.ofList (sign ++ m ++ v) → t.line = line →
      ∃ u, cs = u ++ rest ∧ u ≠ [] ∧ '\n' ∉ u ∧ t.text.toList = sign ++ u ∧ t.line = line := by
    intro m v hcs hm hmn hvn htext hline
    exact ⟨m ++ v, by simp [hcs], by simp [hm], by simp [hmn, hvn], by simp [htext], hline⟩
  have hwhole := List.takeWhile_append_dropWhile (p := Char.isDigit) (l := cs)
  have hwn := newline_not_mem_digits cs
  unfold readDecimal at h
  simp only at h
  split at h
  next r' hpt =>
    -- a point, then the fraction digits
    simp only [if_true] at h
    split at h
    · cases h
    next =>
      have hcs : cs = cs.takeWhile Char.isDigit ++
          '.' :: (r'.takeWhile Char.isDigit ++ r'.dropWhile Char.isDigit) := by
        rw [List.takeWhile_append_dropWhile, ← hpt, hwhole]
      have hm : '\n' ∉ cs.takeWhile Char.isDigit ++ '.' :: r'.takeWhile Char.isDigit := by
        simp [hwn, newline_not_mem_digits r']
      split at h
      next e r'' hR =>
        rcases exponent_consumed h with ⟨v, hv, hvn, htext, hline⟩ | ⟨rfl, htext, hline⟩
        · refine finish _ v (hcs.trans ?_) (by simp) hm hvn (by simpa using htext) hline
          rw [hR, hv]
          simp
        · exact finish _ [] (hcs.trans (by simp)) (by simp) hm (by simp) (by simpa using htext) hline
      next hR =>
        obtain ⟨rfl, rfl⟩ := finishNumber_consumed h
        exact finish _ [] (hcs.trans (by simp)) (by simp) hm (by simp) (by simp) rfl
  next hpt =>
    -- no point: the whole digits, of which there is one at least
    simp only [Bool.false_eq_true, if_false] at h
    split at h
    · cases h
    next hdig =>
      have hne : cs.takeWhile Char.isDigit ≠ [] := by simpa using hdig
      split at h
      next e r'' hR =>
        rcases exponent_consumed h with ⟨v, hv, hvn, htext, hline⟩ | ⟨rfl, htext, hline⟩
        · refine finish _ v (hwhole.symm.trans ?_) hne hwn hvn (by simpa using htext) hline
          rw [hR, hv]
        · exact finish _ [] (by simp) hne hwn (by simp) (by simpa using htext) hline
      next hR =>
        obtain ⟨rfl, rfl⟩ := finishNumber_consumed h
        exact finish _ [] (by simp) hne hwn (by simp) (by simp) rfl

/-- **A number is read from a prefix of the text that holds no line feed**, its own text; the
token is on the line where the number starts. -/
theorem readNumber_consumed {cs rest : List Char} {line : Nat} {t : Token}
    (h : readNumber cs line = .ok (t, rest)) :
    ∃ u, cs = u ++ rest ∧ u ≠ [] ∧ '\n' ∉ u ∧ t.text.toList = u ∧ t.line = line := by
  have hsign := takeSign_append cs
  have hsn := newline_not_mem_takeSign cs
  rcases hts : takeSign cs with ⟨sign, r⟩
  rw [hts] at hsign hsn
  dsimp only at hsign hsn
  -- a decimal number after the sign
  have hdecimal : ∀ r', r = r' → readDecimal sign r' line = .ok (t, rest) →
      ∃ u, cs = u ++ rest ∧ u ≠ [] ∧ '\n' ∉ u ∧ t.text.toList = u ∧ t.line = line := by
    rintro r' rfl hd
    obtain ⟨u, rfl, hne, hn, htext, hline⟩ := readDecimal_consumed hd
    exact ⟨sign ++ u, by simp [← hsign], by simp [hne], by simp [hn, hsn], htext, hline⟩
  unfold readNumber at h
  rw [hts] at h
  simp only at h
  split at h
  next _ x r' =>
    split at h
    next hx =>
      -- `0x` or `0X` and hexadecimal digits
      split at h
      · cases h
      next =>
        obtain ⟨rfl, rfl⟩ := finishNumber_consumed h
        have hxn : x ≠ '\n' := by
          rintro rfl
          simp at hx
        refine ⟨sign ++ '0' :: x :: r'.takeWhile isHexDigit, ?_, by simp, ?_, by simp, rfl⟩
        · rw [← hsign]
          simp
        · simp only [List.mem_append, List.mem_cons, not_or]
          exact ⟨hsn, by decide, hxn.symm, newline_not_mem_takeWhile rfl r'⟩
    · exact hdecimal _ rfl h
  · exact hdecimal _ rfl h

/-! ## Where tokens lie -/

/-- Where a token lies in the text: `Lies t g x` says that `t` is read from its lexeme `x` after
the text `g` is skipped. A string is read from its quoted form, up to the closing quote; a
rawtext body from everything between the `{<` before it and the `>}` that closes it, with
nothing skipped before it; that `>}` stands right after the body. Every other token is read
from its own text, after skipped text. -/
def Lies (t : Token) (g x : List Char) : Prop :=
  match t.kind with
  | .string => Skipped g ∧ ∃ q m, x = '"' :: q ∧ readString q t.line [] = some (t.text.toList, [], m)
  | .rawtext => g = [] ∧ ∃ body m, readRaw (x ++ ['>', '}']) t.line [] = some (body, [], m) ∧
      t.text = String.ofList (trimRawBody body)
  | .rightFancy => g = [] ∧ x = t.text.toList
  | _ => Skipped g ∧ x = t.text.toList

/-- `Layout before ts u`: after the text `before`, the text `u` is the tokens `ts`, each lying at
its lexeme after what is skipped before it, and each on the line of its lexeme's first
character, one more than the number of line feeds before that character. -/
inductive Layout : List Char → List Token → List Char → Prop
  | nil (before : List Char) : Layout before [] []
  | cons {before g x u : List Char} {t : Token} {ts : List Token} :
      Lies t g x → t.line = 1 + (before ++ g).count '\n' →
      Layout (before ++ g ++ x) ts u → Layout before (t :: ts) (g ++ x ++ u)

theorem Layout.single {before g x : List Char} {t : Token} (hl : Lies t g x)
    (hline : t.line = 1 + (before ++ g).count '\n') : Layout before [t] (g ++ x) := by
  simpa using Layout.cons hl hline (.nil _)

/-- Layouts of two texts, one after the other, make a layout of both. -/
theorem Layout.append {before u u' : List Char} {ts ts' : List Token} (h : Layout before ts u)
    (h' : Layout (before ++ u) ts' u') : Layout before (ts ++ ts') (u ++ u') := by
  induction h with
  | nil before => simpa using h'
  | cons hl hline _ ih =>
    rw [List.cons_append, List.append_assoc]
    exact .cons hl hline (ih (by simpa using h'))

/-- **Each token of a layout stands after the layout of the tokens before it**, on the line of
its lexeme's first character. -/
theorem Layout.split {before u : List Char} {ts₁ ts₂ : List Token} {t : Token}
    (h : Layout before (ts₁ ++ t :: ts₂) u) :
    ∃ pre g x post, u = pre ++ g ++ x ++ post ∧ Layout before ts₁ pre ∧ Lies t g x ∧
      t.line = 1 + (before ++ pre ++ g).count '\n' := by
  induction ts₁ generalizing before u with
  | nil =>
    cases h with
    | @cons _ g x post _ _ hl hline hrest =>
      exact ⟨[], g, x, post, by simp, .nil _, hl, by simpa using hline⟩
  | cons t₁ ts₁ ih =>
    cases h with
    | @cons _ g₁ x₁ _ _ _ hl hline hrest =>
      obtain ⟨pre, g, x, post, rfl, hpre, hlies, hlinet⟩ := ih hrest
      exact ⟨g₁ ++ x₁ ++ pre, g, x, post, by simp, .cons hl hline hpre, hlies, by simpa using hlinet⟩

theorem lies_own {t : Token} (hs : t.kind ≠ .string) (hr : t.kind ≠ .rawtext)
    (hf : t.kind ≠ .rightFancy) {g x : List Char} (hg : Skipped g) (hx : t.text.toList = x) :
    Lies t g x := by
  unfold Lies
  split <;> simp_all

/-- A token read from its own text `c :: u`, which holds no line feed, lies there after skipped
text, and the line after it is its own line. -/
theorem layout_own {before g u : List Char} (hg : Skipped g) {c : Char} {t : Token}
    (hk : t.kind ≠ .string ∧ t.kind ≠ .rawtext ∧ t.kind ≠ .rightFancy)
    (htext : t.text.toList = c :: u) (hlf : '\n' ∉ c :: u)
    (hline : t.line = 1 + (before ++ g).count '\n') :
    Layout before [t] (g ++ c :: u) ∧ t.line = 1 + (before ++ g ++ c :: u).count '\n' := by
  refine ⟨Layout.single (lies_own hk.1 hk.2.1 hk.2.2 hg htext) hline, ?_⟩
  simp only [hline, List.count_append, List.count_eq_zero.2 hlf, Nat.add_zero]

theorem single_own {c : Char} {k : TokenKind} (h : single c = some k) :
    c ≠ '\n' ∧ k ≠ .string ∧ k ≠ .rawtext ∧ k ≠ .rightFancy := by
  unfold single at h
  split at h <;> cases h <;> decide

/-- A rawtext block lays out as three tokens: `{<` after skipped text, the body right after it,
and the `>}` right after the body, on the line where the body ends. -/
theorem layout_rawBlock {before g q body : List Char} (hg : Skipped g) {n : Nat}
    (hn : n = 1 + (before ++ g).count '\n')
    (hq : readRaw (q ++ ['>', '}']) n [] = some (body, [], n + q.count '\n')) :
    Layout before [⟨.leftFancy, "\x7b<", n⟩, ⟨.rawtext, String.ofList (trimRawBody body), n⟩,
      ⟨.rightFancy, ">\x7d", n + q.count '\n'⟩] (g ++ '{' :: '<' :: (q ++ ['>', '}'])) := by
  have hl : Layout before [⟨.leftFancy, "\x7b<", n⟩,
      ⟨.rawtext, String.ofList (trimRawBody body), n⟩, ⟨.rightFancy, ">\x7d", n + q.count '\n'⟩]
      (g ++ ['{', '<'] ++ ([] ++ q ++ ([] ++ ['>', '}'] ++ []))) :=
    .cons (lies_own (by simp) (by simp) (by simp) hg (by simp)) hn
      (.cons ⟨rfl, body, _, hq, rfl⟩ (by simp [hn])
        (.cons ⟨rfl, by simp⟩ (by simp [hn]; omega) (.nil _)))
  simpa using hl

/-! ## Steps -/

/-- **A step at a character lays out the tokens it reads**, after the skipped text `g`, and the
line it reaches is one more than the line feeds read so far. -/
theorem tokenAt_layout {before g : List Char} (hg : Skipped g) {c : Char} {r rest : List Char}
    {n n' : Nat} {ts : List Token} (hn : n = 1 + (before ++ g).count '\n')
    (h : tokenAt c r n = .found ts rest n') :
    ∃ u, r = u ++ rest ∧ Layout before ts (g ++ c :: u) ∧
      n' = 1 + (before ++ g ++ c :: u).count '\n' := by
  -- the steps that read one token from its own text
  have own : ∀ (t : Token) (u : List Char), r = u ++ rest → ts = [t] → n' = n → t.line = n →
      t.text.toList = c :: u → (t.kind ≠ .string ∧ t.kind ≠ .rawtext ∧ t.kind ≠ .rightFancy) →
      '\n' ∉ c :: u → ∃ u, r = u ++ rest ∧ Layout before ts (g ++ c :: u) ∧
        n' = 1 + (before ++ g ++ c :: u).count '\n' := by
    rintro t u rfl rfl rfl hline htext hk hlf
    obtain ⟨hl, hline'⟩ := layout_own hg hk htext hlf (hline.trans hn)
    exact ⟨u, rfl, hl, hline ▸ hline'⟩
  unfold tokenAt at h
  split at h
  next k hk =>
    -- a bracket or `=`
    cases h
    obtain ⟨hc, hk'⟩ := single_own hk
    exact own _ [] (by simp) rfl rfl rfl (by simp) hk' (by simpa using hc.symm)
  split at h
  next hbrace =>
    have hc : c = '{' := by simpa using hbrace
    subst hc
    split at h
    next r' =>
      -- `{<`, the body up to its `>}`, and that `>}`
      dsimp only at h
      split at h
      next body rest' n'' hraw =>
        cases h
        obtain ⟨q, rfl, hq, rfl⟩ := readRaw_consumed hraw
        refine ⟨'<' :: (q ++ ['>', '}']), by simp, layout_rawBlock hg hn hq, ?_⟩
        simp [hn]
        omega
      · cases h
    next =>
      -- a brace on its own
      cases h
      exact own _ [] (by simp) rfl rfl rfl (by simp) (by simp) (by simp)
  have hnames : '\n' ∉ r.takeWhile isNameChar := newline_not_mem_takeWhile rfl r
  split at h
  next hquote =>
    -- a string: its quoted form, up to the closing quote
    have hc : c = '"' := by simpa using hquote
    subst hc
    split at h
    next s rest' n'' hstr =>
      cases h
      obtain ⟨q, rfl, hq, rfl⟩ := readString_consumed hstr
      refine ⟨q, rfl, Layout.single ⟨hg, q, _, rfl, by simpa using hq⟩ hn, ?_⟩
      simp [hn]
      omega
    · cases h
  split at h
  next hhash =>
    -- a UID: `#` and name characters
    have hc : c = '#' := by simpa using hhash
    subst hc
    dsimp only at h
    split at h
    · cases h
    next =>
      cases h
      exact own _ (r.takeWhile isNameChar) (by simp) rfl rfl rfl (by simp) (by simp)
        (by simpa using hnames)
  split at h
  next hlt =>
    -- a tag header: `<`, name characters and `>`
    have hc : c = '<' := by simpa using hlt
    subst hc
    dsimp only at h
    split at h
    next rest' hdrop =>
      split at h
      · cases h
      next =>
        cases h
        have hr : r = r.takeWhile isNameChar ++ ['>'] ++ rest :=
          List.takeWhile_append_dropWhile.symm.trans (by rw [hdrop]; simp)
        exact own _ (r.takeWhile isNameChar ++ ['>']) hr rfl rfl rfl (by simp) (by simp)
          (by simpa using hnames)
    · cases h
  split at h
  next hname =>
    -- a name: a boolean or an identifier
    have hc : c ≠ '\n' := by
      rintro rfl
      simp at hname
    dsimp only at h
    cases h
    exact own _ (r.takeWhile isNameChar) (by simp) rfl rfl rfl (by simp) (by split <;> simp)
      (by simp [Ne.symm hc, hnames])
  split at h
  next =>
    -- a number, read by the number reader from its own text
    rcases hread : readNumber (c :: r) n with e | ⟨t, rest'⟩
    · rw [hread] at h
      cases h
    · rw [hread] at h
      cases h
      obtain ⟨u', hcs, hne, hlf, htext, hline⟩ := readNumber_consumed hread
      obtain ⟨x, u, rfl⟩ := List.exists_cons_of_ne_nil hne
      obtain ⟨rfl, rfl⟩ := List.cons.inj hcs
      have hk : t.kind ≠ .string ∧ t.kind ≠ .rawtext ∧ t.kind ≠ .rightFancy := by
        rcases readNumber_kind hread with hk | hk <;> simp [hk]
      exact own t u rfl rfl hline hline htext hk hlf
  · cases h

/-- What a step at a character can end in: tokens read, a fault before any token, or a fault
after the `{<` of a rawtext body that the text ends in. -/
theorem tokenAt_outcome {c : Char} {r : List Char} {n : Nat} {s : Step} (h : tokenAt c r n = s) :
    (∃ ts rest n', s = .found ts rest n') ∨ (∃ e, s = .broken [] e) ∨
      ∃ r', c = '{' ∧ r = '<' :: r' ∧ s = .broken [⟨.leftFancy, "\x7b<", n⟩] ⟨n, .unterminatedRawtext⟩ := by
  unfold tokenAt at h
  split at h
  · exact .inl ⟨_, _, _, h.symm⟩
  split at h
  next hbrace =>
    split at h
    next r' =>
      dsimp only at h
      split at h
      · exact .inl ⟨_, _, _, h.symm⟩
      · exact .inr (.inr ⟨r', by simpa using hbrace, rfl, h.symm⟩)
    · exact .inl ⟨_, _, _, h.symm⟩
  split at h
  · split at h
    · exact .inl ⟨_, _, _, h.symm⟩
    · exact .inr (.inl ⟨_, h.symm⟩)
  split at h
  · dsimp only at h
    split at h
    · exact .inr (.inl ⟨_, h.symm⟩)
    · exact .inl ⟨_, _, _, h.symm⟩
  split at h
  · dsimp only at h
    split at h
    · split at h
      · exact .inr (.inl ⟨_, h.symm⟩)
      · exact .inl ⟨_, _, _, h.symm⟩
    · exact .inr (.inl ⟨_, h.symm⟩)
  split at h
  · exact .inl ⟨_, _, _, h.symm⟩
  split at h
  · -- the number reader gives one token or a fault
    unfold ofRead at h
    split at h
    · exact .inl ⟨_, _, _, h.symm⟩
    · exact .inr (.inl ⟨_, h.symm⟩)
  · exact .inr (.inl ⟨_, h.symm⟩)

theorem tokenAt_ne_finished (c : Char) (r : List Char) (n : Nat) : tokenAt c r n ≠ .finished := by
  intro h
  rcases tokenAt_outcome h with ⟨_, _, _, h'⟩ | ⟨_, h'⟩ | ⟨_, _, _, h'⟩ <;> cases h'

/-- A step at a character that stops at a fault has read no token, or only the `{<` of a
rawtext body that the text ends in. -/
theorem tokenAt_broken {before g : List Char} (hg : Skipped g) {c : Char} {r : List Char} {n : Nat}
    {ts : List Token} {e : LexError} (hn : n = 1 + (before ++ g).count '\n')
    (h : tokenAt c r n = .broken ts e) :
    ts = [] ∨ ∃ r', c :: r = '{' :: '<' :: r' ∧ Layout before ts (g ++ ['{', '<']) := by
  rcases tokenAt_outcome h with ⟨_, _, _, h'⟩ | ⟨_, h'⟩ | ⟨r', rfl, rfl, h'⟩
  · cases h'
  · cases h'
    exact .inl rfl
  · cases h'
    exact .inr ⟨r', rfl, Layout.single (lies_own (by simp) (by simp) (by simp) hg (by simp)) hn⟩

/-- **A scanning step that reads tokens lays them out and reads at least one character**; the
line it reaches is one more than the line feeds read so far. -/
theorem step_found_layout {before cs rest : List Char} {n n' : Nat} {ts : List Token}
    (hn : n = 1 + before.count '\n') (h : step cs n = .found ts rest n') :
    ∃ u, cs = u ++ rest ∧ u ≠ [] ∧ Layout before ts u ∧ n' = 1 + (before ++ u).count '\n' := by
  unfold step at h
  split at h
  · cases h
  · cases h
  next c r m hskip =>
    obtain ⟨g, hcs, hg, hm⟩ := skipBlank_code hn hskip
    obtain ⟨u, rfl, hl, hn'⟩ := tokenAt_layout hg hm h
    exact ⟨g ++ c :: u, by simp [hcs], by simp, hl, by simpa using hn'⟩

theorem step_broken_layout {before cs : List Char} {n : Nat} {ts : List Token} {e : LexError}
    (hn : n = 1 + before.count '\n') (h : step cs n = .broken ts e) :
    ∃ u tail, cs = u ++ tail ∧ Layout before ts u := by
  unfold step at h
  split at h
  · cases h
    exact ⟨[], cs, rfl, .nil _⟩
  · cases h
  next c r m hskip =>
    obtain ⟨g, hcs, hg, hm⟩ := skipBlank_code hn hskip
    rcases tokenAt_broken hg hm h with rfl | ⟨r', hr, hl⟩
    · exact ⟨[], cs, rfl, .nil _⟩
    · exact ⟨g ++ ['{', '<'], r', by simp [hcs, hr], hl⟩

/-- A scan finishes only where nothing but skipped text is left. -/
theorem step_finished {cs : List Char} {n : Nat} (h : step cs n = .finished) : Skipped cs := by
  unfold step at h
  split at h
  · cases h
  next m hskip =>
    obtain ⟨g, hcs, hg, -⟩ := skipBlank_skipped hskip
    rw [hcs, List.append_nil]
    exact hg
  next c r m _ => exact absurd h (tokenAt_ne_finished c r m)

/-! ## Whole scans -/

/-- **A scan lays out all its tokens**, from a line one more than the line feeds read before it,
and when it ends without a fault only skipped text is left after them. The invariant is the
line: each step starts one line past the line feeds read so far, and, since each step reads a
character at least, the guard of `lexFrom` never stops a scan early. -/
theorem lexFrom_layout (cs : List Char) (n : Nat) {before : List Char}
    (hn : n = 1 + before.count '\n') :
    ∃ u tail, cs = u ++ tail ∧ Layout before (lexFrom cs n).tokens u ∧
      ∀ l, (lexFrom cs n).ending = .endOfText l → Skipped tail := by
  fun_induction lexFrom cs n generalizing before with
  | case1 cs n hstep => exact ⟨[], cs, rfl, .nil _, fun _ _ => step_finished hstep⟩
  | case2 cs n ts e hstep =>
    obtain ⟨u, tail, hcs, hl⟩ := step_broken_layout hn hstep
    exact ⟨u, tail, hcs, hl, fun _ h => by cases h⟩
  | case3 cs n ts rest n' hstep hlen more =>
    rename_i ih
    obtain ⟨u, hcs, -, hl, hn'⟩ := step_found_layout hn hstep
    obtain ⟨u', tail, hrest, hl', hend⟩ := ih hn'
    exact ⟨u ++ u', tail, by simp [hcs, hrest], hl.append hl', hend⟩
  | case4 cs n ts rest n' hstep hlen =>
    obtain ⟨u, hcs, hne, -, -⟩ := step_found_layout hn hstep
    have hshorter : rest.length < cs.length := by
      rw [hcs, List.length_append]
      have := List.length_pos_iff.mpr hne
      omega
    exact absurd hshorter hlen

end Scan

/-- **Every token is on the line of its first character, and a scan reads to the end.** For every
text, each token, wherever it stands in the token list, lies at its lexeme `x` after the skipped
text `g`, the tokens before it lay out the text `pre` before `g`, and its line is one more than
the number of line feeds in `pre ++ g`, the text before its first character. The first
character of a rawtext body is the one right after `{<`, and that of the `>}` after it is its
`>`. The tokens lay out a prefix of the text, and when the scan ends without a fault only
blanks and comments follow them. -/
theorem Lexed.token_lines (s : String) :
    (∀ ts₁ t ts₂, (Lexed.ofString s).tokens = ts₁ ++ t :: ts₂ → ∃ pre g x post,
        s.toList = pre ++ g ++ x ++ post ∧ Scan.Layout [] ts₁ pre ∧ Scan.Lies t g x ∧
        t.line = 1 + (pre ++ g).count '\n') ∧
    ∃ u tail, s.toList = u ++ tail ∧ Scan.Layout [] (Lexed.ofString s).tokens u ∧
      ∀ l, (Lexed.ofString s).ending = .endOfText l → Scan.Skipped tail := by
  have hstart : 1 = 1 + ([] : List Char).count '\n' := rfl
  obtain ⟨u, tail, hs, hl, hend⟩ := Scan.lexFrom_layout s.toList 1 hstart
  refine ⟨fun ts₁ t ts₂ hts => ?_, u, tail, hs, hl, hend⟩
  have hts' : (Scan.lexFrom s.toList 1).tokens = ts₁ ++ t :: ts₂ := hts
  rw [hts'] at hl
  obtain ⟨pre, g, x, post, rfl, hpre, hlies, hline⟩ := hl.split
  exact ⟨pre, g, x, post ++ tail, by simp [hs], hpre, hlies, by simpa using hline⟩

/-- After a rawtext block of two lines, the name that follows its `>}` is on line 4, one past
the three line feeds of the block. -/
theorem token_lines_after_block :
    (Lexed.ofString "\x7b<\none\ntwo\n>\x7d after").tokens =
        [⟨.leftFancy, "\x7b<", 1⟩, ⟨.rawtext, "one\ntwo", 1⟩, ⟨.rightFancy, ">\x7d", 4⟩] ++
          ⟨.identifier, "after", 4⟩ :: [] ∧
      ∃ pre g x post, "\x7b<\none\ntwo\n>\x7d after".toList = pre ++ g ++ x ++ post ∧
        Scan.Layout [] [⟨.leftFancy, "\x7b<", 1⟩, ⟨.rawtext, "one\ntwo", 1⟩,
          ⟨.rightFancy, ">\x7d", 4⟩] pre ∧
        Scan.Lies ⟨.identifier, "after", 4⟩ g x ∧ 4 = 1 + (pre ++ g).count '\n' :=
  have htokens : (Lexed.ofString "\x7b<\none\ntwo\n>\x7d after").tokens =
      [⟨.leftFancy, "\x7b<", 1⟩, ⟨.rawtext, "one\ntwo", 1⟩, ⟨.rightFancy, ">\x7d", 4⟩] ++
        ⟨.identifier, "after", 4⟩ :: [] := by
    simp [Lexed.ofString, Scan.lexFrom, Scan.step, Scan.skipBlank, Scan.tokenAt, Scan.single,
      Scan.readRaw, Scan.trimRawBody, Scan.lineAfter, Scan.isNameChar]
  ⟨htokens, (Lexed.token_lines _).1 _ _ _ htokens⟩

example : (Lexed.ofString "a // line comment\n/* block\ncomment */ b").tokens.map Token.line =
    [1, 3] := by
  decide +kernel

end GraphDoc
