import ScriptLang.Proofs.Token.Admission

/-!
# Strings, one character at a time

The reader of a string meets the closing quote, escape sequences and ordinary
characters in one loop.  An escape sequence takes its letter, and behind `\x` up to
four hexadecimal digits, out of the way of the quote.  So the loop ends where
`bodyRun` ends the string, and what it offers to the limit are the characters that
`decode` finds in the body (`Draft.keepString_keeps`).

The digits behind `\x` are no quotes and no backslashes, so for the end of the
string it makes no difference how many of them the escape sequence takes
(`Lexer.readHexDigits_spec`).
-/

namespace ScriptLang

section

variable {c : Cursor} {x : Char}

/-- The end of the text does not close a string. -/
theorem bodyRun_of_none (escaped : Bool) (h : c.current? = none) :
    bodyRun escaped c.position c.rest = ⟨[], c.position, false, c⟩ := by
  rw [Cursor.rest_of_current?_none h]
  rfl

/-- Outside of an escape sequence, a quote closes a string. -/
theorem bodyRun_of_quote (h : c.current? = some '"') :
    bodyRun false c.position c.rest = ⟨[], c.position, true, c.advance⟩ := by
  obtain ⟨g, rest, hc, hchar, hadvance⟩ := Cursor.exists_cons_of_current? h
  rw [hadvance, hc, bodyRun, hchar]
  rfl

/-- A string goes on with a character that is escaped, or is no quote. -/
theorem bodyRun_of_current {escaped : Bool} (h : c.current? = some x)
    (hopen : (!escaped && x == '"') = false) :
    bodyRun escaped c.position c.rest =
      let run := bodyRun (!escaped && x == '\\') c.advance.position c.advance.rest
      { run with body := ⟨x, c.position⟩ :: run.body } := by
  obtain ⟨g, rest, hc, rfl, hadvance⟩ := Cursor.exists_cons_of_current? h
  rw [hadvance, hc, bodyRun, if_neg (Bool.eq_false_iff.mp hopen)]

/-- The remaining characters of a string begin where it is read on. -/
theorem placeOf_bodyRun (escaped : Bool) (here : Position) (rest : List Glyph) :
    placeOf (bodyRun escaped here rest).finish (bodyRun escaped here rest).body =
      here := by
  cases rest with
  | nil => rfl
  | cons g rest =>
      unfold bodyRun
      split <;> rfl

end

/-- What follows an opening quote at a cursor, and the characters it stands for. -/
def stringRun (c : Cursor) :
    (List Placed × List (Located LexicalWarning)) × Bool × Cursor :=
  let run := bodyRun false c.position c.rest
  (decode run.finish run.body, run.closed, run.behind)

section

variable {c : Cursor} {x e : Char}

/-- Nothing stands for nothing at the end of the text. -/
theorem stringRun_of_none (h : c.current? = none) :
    stringRun c = (([], []), false, c) := by
  rw [stringRun, bodyRun_of_none false h]
  exact congrArg (·, _) (decode_nil _)

/-- Nothing is left to decode at the closing quote. -/
theorem stringRun_of_quote (h : c.current? = some '"') :
    stringRun c = (([], []), true, c.advance) := by
  rw [stringRun, bodyRun_of_quote h]
  exact congrArg (·, _) (decode_nil _)

/-- A character that neither closes nor escapes stands for itself. -/
theorem stringRun_of_plain (h : c.current? = some x) (hquote : x ≠ '"')
    (hbackslash : x ≠ '\\') :
    stringRun c =
      let run := stringRun c.advance
      ((⟨x, c.position⟩ :: run.1.1, run.1.2), run.2) := by
  have hplain : (!false && x == '\\') = false := by simpa using hbackslash
  rw [stringRun, bodyRun_of_current h (by simpa using hquote), hplain]
  exact congrArg (·, _) (decode_cons _ hbackslash _)

/-- A backslash at the end of the text. -/
theorem stringRun_of_lone (h : c.current? = some '\\')
    (hend : c.advance.current? = none) :
    stringRun c = (([], []), false, c.advance) := by
  rw [stringRun, bodyRun_of_current h rfl]
  dsimp only
  rw [bodyRun_of_none _ hend, decode_lone _ rfl]

/-- An escaped character, before it is known what it stands for. -/
theorem bodyRun_of_escape (h : c.current? = some '\\')
    (he : c.advance.current? = some e) :
    bodyRun false c.position c.rest =
      let run := bodyRun false c.advance.advance.position c.advance.advance.rest
      { run with
        body := ⟨'\\', c.position⟩ :: ⟨e, c.advance.position⟩ :: run.body } := by
  rw [bodyRun_of_current h rfl]
  have hescaped : (!false && '\\' == '\\') = true := rfl
  rw [hescaped, bodyRun_of_current he rfl]
  rfl

/-- An escape sequence of one letter stands for one character. -/
theorem stringRun_of_letter (h : c.current? = some '\\')
    (he : c.advance.current? = some e) (hx : e ≠ 'x') :
    stringRun c =
      let run := stringRun c.advance.advance
      ((⟨(escape? e).getD e, c.advance.advance.position⟩ :: run.1.1,
        (if (escape? e).isSome then []
          else [⟨.unknownEscape e, c.advance.position⟩]) ++ run.1.2),
        run.2) := by
  rw [stringRun, bodyRun_of_escape h he]
  dsimp only
  rw [decode_letter _ rfl hx, placeOf_bodyRun]
  rfl

end

/-- A string at a character that is no digit begins with none. -/
theorem takeWhile_bodyRun {c : Cursor}
    (h : c.current?.bind (Character.digit? 16) = none) :
    ((bodyRun false c.position c.rest).body.takeWhile fun d =>
      Character.isDigitOf 16 d.char) = [] := by
  cases hcurrent : c.current? with
  | none => rw [bodyRun_of_none false hcurrent]; rfl
  | some x =>
      rw [hcurrent] at h
      have hdigit : ¬ Character.isDigitOf 16 x = true := by
        rw [Character.isDigitOf, show Character.digit? 16 x = none from h]
        simp
      by_cases hquote : x = '"'
      · rw [bodyRun_of_quote (hquote ▸ hcurrent)]
        rfl
      · rw [bodyRun_of_current hcurrent (by simpa using hquote)]
        exact List.takeWhile_cons_of_neg hdigit

/-- No digit ends a string or begins an escape sequence. -/
theorem plain_of_isDigitOf {x : Char} (h : Character.isDigitOf 16 x = true) :
    x ≠ '"' ∧ x ≠ '\\' := by
  constructor
  · rintro rfl
    exact absurd h (by decide)
  · rintro rfl
    exact absurd h (by decide)

namespace Lexer

/-- The digits that are read are those at the beginning of the rest of the body, and
the body goes on behind them. -/
theorem readHexDigits_spec (room code count : Nat) (l : Lexer) :
    let run := bodyRun false l.cursor.position l.cursor.rest
    let digits :=
      (run.body.takeWhile fun d => Character.isDigitOf 16 d.char).take room
    let read := readHexDigits room code count l
    read.1 = digits.foldl (fun n d => n * 16 + (Character.digit? 16 d.char).getD 0)
      code ∧
      read.2.1 = count + digits.length ∧ l.Goes [] [] read.2.2.cursor read.2.2 ∧
      bodyRun false read.2.2.cursor.position read.2.2.cursor.rest =
        { run with body := run.body.drop digits.length } := by
  fun_induction readHexDigits room code count l with
  | case1 code count l => exact ⟨rfl, rfl, Goes.refl l, rfl⟩
  | case2 room code count l hnone =>
      rw [← l.current?_cursor] at hnone
      intro run digits read
      have hdigits : digits = [] := congrArg (List.take _) (takeWhile_bodyRun hnone)
      rw [hdigits]
      exact ⟨rfl, rfl, Goes.refl l, rfl⟩
  | case3 room code count l d hsome ih =>
      rw [← l.current?_cursor] at hsome
      obtain ⟨x, hcurrent, hdigit⟩ := Option.bind_eq_some_iff.mp hsome
      have hisDigit : Character.isDigitOf 16 x = true := by
        rw [Character.isDigitOf, hdigit]; rfl
      obtain ⟨hne, hne'⟩ := plain_of_isDigitOf hisDigit
      have hquote : (!false && x == '"') = false := by simpa using hne
      have hplain : (!false && x == '\\') = false := by simpa using hne'
      obtain ⟨hcode, hcount, hgoes, hbody⟩ := ih
      rw [bodyRun_of_current hcurrent hquote, hplain, ← l.cursor_step]
      dsimp only
      rw [List.takeWhile_cons, if_pos hisDigit, List.take_succ_cons,
        List.foldl_cons, hdigit]
      refine ⟨hcode, ?_, l.goes_step.then hgoes, hbody⟩
      rw [hcount, List.length_cons]
      omega

/-- Only the end of the text stands for nothing. -/
theorem current?_of_readEscape {l : Lexer} (h : l.readEscape.1 = none) :
    l.current? = none := by
  unfold readEscape at h
  split at h
  · assumption
  · split at h
    · cases h
    · split at h <;> cases h

/-- A backslash that ends the text stands for nothing. -/
theorem readEscape_of_none {l : Lexer} (h : l.current? = none) :
    l.readEscape = (none, l) := by
  unfold readEscape
  split
  · rfl
  · rename_i c hc
    rw [h] at hc
    cases hc

/-- The code of a character, at a lexer behind `\x`. -/
theorem readCharCode_spec {l : Lexer} {c : Cursor} (hc : c.current? = some '\\')
    (hx : c.advance.current? = some 'x') (hl : l.cursor = c.advance.advance) :
    ∃ warnings, l.Goes [] warnings l.readCharCode.2.cursor l.readCharCode.2 ∧
      stringRun c =
        let run := stringRun l.readCharCode.2.cursor
        ((⟨l.readCharCode.1, l.readCharCode.2.here⟩ :: run.1.1,
          warnings ++ run.1.2), run.2) := by
  obtain ⟨hcode, hcount, hgoes, hbody⟩ := readHexDigits_spec 4 0 0 l
  let l' := (readHexDigits 4 0 0 l).2.2
  let run := bodyRun false l.cursor.position l.cursor.rest
  let digits := (run.body.takeWhile fun d => Character.isDigitOf 16 d.char).take 4
  have hdigits : (readHexDigits 4 0 0 l).2.1 = digits.length :=
    hcount.trans (Nat.zero_add _)
  have hplace : placeOf run.finish run.body = l.here := placeOf_bodyRun false _ _
  have hnext : stringRun l'.cursor =
      (decode run.finish (run.body.drop digits.length), run.closed,
        run.behind) := by
    rw [stringRun, hbody]
  have hplace' : placeOf run.finish (run.body.drop digits.length) = l'.here := by
    have hstart := placeOf_bodyRun false l'.cursor.position l'.cursor.rest
    rw [hbody] at hstart
    exact hstart
  have hstring : stringRun c = ((⟨charOfCode (readHexDigits 4 0 0 l).1, l'.here⟩ ::
      (stringRun l'.cursor).1.1,
        (if digits.isEmpty then [⟨.missingCharCode, l.here⟩] else []) ++
        (stringRun l'.cursor).1.2), (stringRun l'.cursor).2) := by
    rw [hnext, stringRun, bodyRun_of_escape hc hx, ← hl]
    dsimp only
    rw [decode_code _ rfl rfl, hcode, ← hplace', ← hplace]
  rw [hstring, readCharCode]
  dsimp only
  by_cases hempty : digits = []
  · have hhere : l.here = l'.here := by
      rw [← hplace', ← hplace, hempty]
      rfl
    have hnone : (readHexDigits 4 0 0 l).2.1 = 0 :=
      hdigits.trans (congrArg List.length hempty)
    rw [if_pos hnone, hempty, hhere]
    exact ⟨_, (hgoes.then (l'.goes_warn .missingCharCode l'.here)).arrive, rfl⟩
  · rw [if_neg (hdigits ▸ mt List.length_eq_zero_iff.mp hempty),
      List.isEmpty_eq_false_iff.mpr hempty]
    exact ⟨[], hgoes, rfl⟩

/-- An escape sequence at a lexer behind the backslash. -/
theorem readEscape_of_some {l : Lexer} {c : Cursor} {e : Char}
    (hc : c.current? = some '\\') (hl : l.cursor = c.advance)
    (he : l.current? = some e) :
    ∃ decoded warnings, l.readEscape.1 = some decoded ∧
      l.Goes [] warnings l.readEscape.2.cursor l.readEscape.2 ∧
      stringRun c =
        let run := stringRun l.readEscape.2.cursor
        ((⟨decoded, l.readEscape.2.here⟩ :: run.1.1, warnings ++ run.1.2),
          run.2) := by
  have he' : c.advance.current? = some e := by rw [← hl, l.current?_cursor, he]
  have hstep : l.step.cursor = c.advance.advance := by rw [l.cursor_step, hl]
  unfold readEscape
  split
  · rename_i hnone
    rw [he] at hnone
    cases hnone
  · rename_i e' hcurrent
    obtain rfl : e = e' := Option.some.inj (he.symm.trans hcurrent)
    by_cases hx : e = 'x'
    · rw [if_pos hx]
      obtain ⟨warnings, hgoes, hrun⟩ := readCharCode_spec hc (hx ▸ he') hstep
      exact ⟨_, warnings, rfl, l.goes_step.then hgoes, hrun⟩
    · rw [if_neg hx, stringRun_of_letter hc he' hx, ← hstep, ← hl]
      cases escape? e with
      | some decoded => exact ⟨decoded, [], rfl, l.goes_step.arrive, rfl⟩
      | none =>
          exact ⟨e, _, rfl, (l.goes_step.then (l.step.goes_warn _ _)).arrive, rfl⟩

end Lexer

/-- The reader of a string ends it where the string ends, and offers to the limit
what it stands for. -/
theorem Draft.keepString_keeps (d : Draft) :
    let run := stringRun d.lexer.cursor
    d.Keeps run.1.1 (unclosed run.2.1 run.2.2) run.1.2 run.2.2 d.keepString := by
  fun_induction keepString d with
  | case1 d hnone =>
      rw [stringRun_of_none (d.lexer.current?_cursor.trans hnone)]
      exact d.keeps_breakOff
  | case2 d hquote =>
      rw [stringRun_of_quote (d.lexer.current?_cursor.trans hquote)]
      exact d.keeps_nil d.lexer.goes_step
  | case3 d escape hnone hbackslash _ ih =>
      have hcurrent := d.lexer.current?_cursor.trans hbackslash
      have hnext : d.lexer.step.cursor.current? = none :=
        d.lexer.step.current?_cursor.trans (Lexer.current?_of_readEscape hnone)
      have hescape : escape = (none, d.lexer.step) :=
        Lexer.readEscape_of_none (Lexer.current?_of_readEscape hnone)
      have hend : d.lexer.cursor.advance.current? = none := by
        rw [← d.lexer.cursor_step, hnext]
      rw [hescape] at ih
      dsimp only [Draft.resume] at ih
      rw [stringRun_of_none hnext] at ih
      rw [stringRun_of_lone hcurrent hend, ← d.lexer.cursor_step, hescape]
      exact (d.keeps_nil d.lexer.goes_step).trans ih
  | case4 d escape decoded hsome hbackslash _ ih =>
      have hcurrent := d.lexer.current?_cursor.trans hbackslash
      cases hnext : d.lexer.step.current? with
      | none =>
          have hescape : escape = (none, d.lexer.step) :=
            Lexer.readEscape_of_none hnext
          rw [hescape] at hsome
          cases hsome
      | some e =>
          obtain ⟨decoded', warnings, hdecoded, hgoes, hrun⟩ :=
            Lexer.readEscape_of_some hcurrent d.lexer.cursor_step hnext
          obtain rfl : decoded = decoded' :=
            Option.some.inj (hsome.symm.trans hdecoded)
          have hcursor : (Draft.keep decoded (d.resume escape.2)).lexer.cursor =
              escape.2.cursor :=
            congrArg Scanner.cursor (Draft.scanner_keep decoded (d.resume escape.2))
          rw [hcursor] at ih
          have hkeep := (d.resume escape.2).keeps_keep decoded
          rw [hrun]
          exact (d.keeps_nil (d.lexer.goes_step.then hgoes)).trans (hkeep.trans ih)
  | case5 d c hcurrent hquote hbackslash ih =>
      rw [stringRun_of_plain (d.lexer.current?_cursor.trans hcurrent) hquote
        hbackslash, ← d.cursor_keep_step c]
      exact ih.cons

end ScriptLang
