import GraphDoc.Proofs.WrittenTokens
/-! # Quoted strings and rawtext bodies read back

The two escapes of the text format undo each other with the scanner, for every text:

* a quoted string, `TextWrite.escapeString s`, scans as one string token whose text is `s`;
* a rawtext block, `{<`, a line break, `TextWrite.escapeRawtext s`, the same line break and
  `>}`, scans as its three tokens with the body `s`, whether the line breaks are line feeds or
  carriage return and line feed.

So escaping leaves no `>}` that ends a body early, reading turns each `\>}` back into `>}`
whatever backslashes and `>` stand before it, and trimming drops the delimiting line breaks
and nothing of the body, also of a body that starts or ends with a line break of its own. Main
statement: `escaped_lexemes_read_back`. -/
namespace GraphDoc

/-- A text scans to its end, with no fault, as tokens with the kinds and texts `vs`. -/
def Lexed.ScansTo (s : String) (vs : List (TokenKind × String)) : Prop :=
  ∃ ts n, Lexed.ofString s = ⟨ts, .endOfText n⟩ ∧ ts.map Token.view = vs

namespace Scan

/-- **A text that lexes on its own scans to its end.** -/
theorem Lexes.scansTo {s : String} {vs : List (TokenKind × String)} (h : Lexes s.toList vs) :
    Lexed.ScansTo s vs := by
  obtain ⟨ts, n, hv, hlex⟩ := h [] [] 1 (by simp) (by simp [Delimits])
  have hend : lexFrom [] n = ⟨[], .endOfText n⟩ := by
    rw [lexFrom]
    rfl
  rw [hend] at hlex
  exact ⟨ts, n, by simpa [Lexed.ofString] using hlex, hv⟩

/-- A character other than `}` put after a body is escaped as itself. -/
theorem escRaw_append_single {c : Char} (hc : c ≠ '\x7d') (t : List Char) :
    escRaw (t ++ [c]) = escRaw t ++ [c] := by
  induction t using escRaw.induct with
  | case1 r ih => simp [escRaw, ih]
  | case2 d r hne ih =>
    -- the last character of the body cannot pair with `c` into a `>}`
    have hnext : ∀ r', d = '>' → r ++ [c] = '\x7d' :: r' → False := by
      intro r' hd hr
      cases r with
      | nil => exact hc (List.cons.inj hr).1
      | cons e r'' =>
        obtain ⟨rfl, -⟩ := List.cons.inj hr
        exact hne r'' hd rfl
    rw [List.cons_append, escRaw_cons hnext, escRaw_cons hne, ih, List.cons_append]
  | case3 => simp [escRaw]

/-- A leading carriage return and line feed make them the delimiter at both ends. -/
theorem trimRawBody_crlf (t : List Char) :
    trimRawBody ('\r' :: '\n' :: (t ++ ['\r', '\n'])) = t := by
  simp [trimRawBody]

/-- A rawtext block whose delimiting line breaks are carriage return and line feed. -/
theorem scans_raw_crlf (t : List Char) :
    Scans '\x7b' ('<' :: '\r' :: '\n' :: (escRaw t ++ ['\r', '\n', '>', '\x7d']))
      [(.leftFancy, "\x7b<"), (.rawtext, String.ofList t), (.rightFancy, ">\x7d")] := by
  intro rest n _
  -- the carriage return before the closing line feed is read as the body's last character
  obtain ⟨n', h⟩ := readRaw_escRaw ('\r' :: '\n' :: (t ++ ['\r'])) rest n []
  rw [escRaw_cons (by simp), escRaw_cons (by simp), escRaw_append_single (by decide)] at h
  refine ⟨[⟨.leftFancy, "\x7b<", n⟩, ⟨.rawtext, String.ofList t, n⟩, ⟨.rightFancy, ">\x7d", n'⟩],
    n', rfl, ?_⟩
  simp only [List.cons_append, List.nil_append, List.append_assoc, List.reverse_nil] at h ⊢
  simp [tokenAt, single, h, trimRawBody_crlf]

theorem lexes_rawBlock_crlf (text : String) :
    Lexes ("\x7b<\r\n" ++ TextWrite.escapeRawtext text ++ "\r\n>\x7d").toList
      [(.leftFancy, "\x7b<"), (.rawtext, text), (.rightFancy, ">\x7d")] := by
  have hl := (scans_raw_crlf text.toList).lexes ⟨rfl, by decide⟩
  simpa [escapeRawtext_toList] using hl

end Scan

open Scan in
/-- **Strings and rawtext bodies read back through the scanner.** For every text `s`, its
quoted form scans as exactly one string token with text `s`, and a rawtext block around its
escaped form, with line feeds or with carriage returns and line feeds as delimiters, scans as
exactly the opening `{<`, a body with text `s` and the closing `>}`. -/
theorem escaped_lexemes_read_back (s : String) :
    Lexed.ScansTo (TextWrite.escapeString s) [(.string, s)] ∧
    Lexed.ScansTo ("\x7b<\n" ++ TextWrite.escapeRawtext s ++ "\n>\x7d")
      [(.leftFancy, "\x7b<"), (.rawtext, s), (.rightFancy, ">\x7d")] ∧
    Lexed.ScansTo ("\x7b<\r\n" ++ TextWrite.escapeRawtext s ++ "\r\n>\x7d")
      [(.leftFancy, "\x7b<"), (.rawtext, s), (.rightFancy, ">\x7d")] :=
  ⟨(lexes_escapeString s).scansTo, (lexes_rawBlock s).scansTo, (lexes_rawBlock_crlf s).scansTo⟩

example : Lexed.ofString "\x7b<\r\nab\\>\x7d\\>\x7d\n\r\n>\x7d" =
    ⟨[⟨.leftFancy, "\x7b<", 1⟩, ⟨.rawtext, "ab>\x7d>\x7d\n", 1⟩, ⟨.rightFancy, ">\x7d", 4⟩],
      .endOfText 4⟩ := by
  simp [Lexed.ofString, Scan.lexFrom, Scan.step, Scan.skipBlank, Scan.tokenAt, Scan.single,
    Scan.readRaw, Scan.trimRawBody, Scan.lineAfter]

end GraphDoc
