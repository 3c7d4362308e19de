import ScriptLang.Proofs.Token.DigitCount
import ScriptLang.Proofs.Token.Escapes

/-!
# The lexer, token by token

Reading a token character by character comes to the same as reading it in whole
runs.  `Lexer.Reads` says so of one reader: the same lexeme, the same errors and
warnings in the same order, the same place behind it.  Put together, a lexer that
goes on from token to token finds the tokens of `Lexed.next`
(`Lexer.advance_eq_next`).
-/

namespace ScriptLang

namespace Symbol

variable {text : List Char}

/-- A text is live if some spelling begins with it. -/
theorem isLive_iff :
    isLive text = true ↔ ∃ spelling ∈ spellings, text <+: spelling := by
  simp only [isLive, List.any_eq_true, List.isPrefixOf_iff_prefix]

/-- Nothing is spelled with the opener of a comment and more. -/
theorem eq_of_opener_prefix {opener : List Char}
    (hopener : opener = lineComment ∨ opener = blockComment)
    (hlive : isLive text = true) (h : opener <+: text) : text = opener := by
  have htable : ∀ spelling ∈ spellings, ∀ opener ∈ [lineComment, blockComment],
      opener <+: spelling → spelling = opener := by decide
  obtain ⟨spelling, hmem, htext⟩ := isLive_iff.mp hlive
  have hspelling :=
    htable spelling hmem opener (by simpa using hopener) (h.trans htext)
  rw [hspelling] at htext
  exact htext.eq_of_length_le h.length_le

end Symbol

namespace Lexer

variable {l : Lexer} {c : Char}

/-- A reader that has found what a reading in whole runs finds. -/
structure Reads (l : Lexer) (r : Reading) (result : Lexeme × Lexer) : Prop where
  lexeme_eq : result.1 = r.lexeme
  goes : l.Goes r.errors r.warnings r.behind result.2

/-- What a draft of a whole lexeme has kept of it, and the errors that came up. -/
theorem whole_lexeme {items : List Placed} {errors : List (Located LexicalError)}
    {warnings : List (Located LexicalWarning)} {behind : Cursor} {d : Draft}
    (h : Draft.Keeps { lexer := l } items errors warnings behind d) :
    d.content = content l.limit items ∧
      l.Goes (overrun l.limit items ++ errors) warnings behind d.lexer := by
  constructor
  · have hcontent : d.content.toList = (items.take l.limit).map Placed.char :=
      h.content_eq
    rw [content, ← hcontent, String.ofList_toList]
  · rw [← excess_zero]
    exact h.goes

/-- The lexer reads a line comment as the cursor does. -/
theorem readLineComment_reads (l : Lexer) :
    l.Reads (ScriptLang.readLineComment l.limit l.cursor) l.readLineComment := by
  obtain ⟨hcontent, hgoes⟩ :=
    whole_lexeme (Draft.keepWhile_keeps (· != '\n') { lexer := l })
  rw [List.append_nil] at hgoes
  exact ⟨congrArg Lexeme.lineComment hcontent, hgoes⟩

/-- The lexer reads a block comment as the cursor does. -/
theorem readBlockComment_reads (l : Lexer) :
    l.Reads (ScriptLang.readBlockComment l.limit l.cursor) l.readBlockComment := by
  obtain ⟨hcontent, hgoes⟩ := whole_lexeme (Draft.keepComment_keeps { lexer := l })
  exact ⟨congrArg Lexeme.blockComment hcontent, hgoes⟩

/-- The lexer reads a word as the cursor does. -/
theorem readWord_reads (l : Lexer) :
    l.Reads (ScriptLang.readWord l.limit l.cursor) l.readWord := by
  obtain ⟨hcontent, hgoes⟩ :=
    whole_lexeme (Draft.keepWhile_keeps Character.isWordPart { lexer := l })
  rw [List.append_nil] at hgoes
  unfold readWord ScriptLang.readWord
  dsimp only
  rw [hcontent]
  cases Keyword.ofText? (content l.limit (l.cursor.run Character.isWordPart).1) <;>
    exact ⟨rfl, hgoes⟩

/-- The lexer reads a string as the cursor does. -/
theorem readString_reads (l : Lexer) :
    l.Reads (ScriptLang.readString l.limit l.cursor) l.readString := by
  obtain ⟨hcontent, hgoes⟩ :=
    whole_lexeme (Draft.keepString_keeps { lexer := l.step })
  have hboth := l.goes_step.then hgoes
  rw [l.cursor_step] at hcontent hboth
  exact ⟨congrArg Lexeme.string hcontent, hboth⟩

/-! ## Symbols -/

/-- What has been read of a symbol or a comment, and the cursor behind it. -/
def finishReading (limit : Nat) (start : Position) (text : List Char)
    (behind : Cursor) : Reading :=
  if text = Symbol.lineComment then ScriptLang.readLineComment limit behind
  else if text = Symbol.blockComment then ScriptLang.readBlockComment limit behind
  else
    match Symbol.ofChars? text with
    | some sign => { lexeme := .symbol sign, behind }
    | none =>
      { lexeme := .unknown (String.ofList text)
        errors := [⟨.unknownToken (String.ofList text), start⟩]
        behind }

variable {text : List Char} {c : Cursor} {x : Char}

/-- The end of the text ends a symbol. -/
theorem liveRun_of_none (text : List Char) (h : c.current? = none) :
    liveRun text c.position c.rest = (text, c) := by
  rw [Cursor.rest_of_current?_none h]
  rfl

/-- A character with which the text is still live is taken. -/
theorem liveRun_of_live (h : c.current? = some x)
    (hlive : Symbol.isLive (text ++ [x]) = true) :
    liveRun text c.position c.rest =
      liveRun (text ++ [x]) c.advance.position c.advance.rest := by
  obtain ⟨g, rest, hc, rfl, hadvance⟩ := Cursor.exists_cons_of_current? h
  rw [hadvance, hc]
  exact if_pos hlive

/-- A character with which no spelling goes on is not taken. -/
theorem liveRun_of_dead (h : c.current? = some x)
    (hdead : ¬ Symbol.isLive (text ++ [x]) = true) :
    liveRun text c.position c.rest = (text, c) := by
  obtain ⟨g, rest, hc, rfl, _⟩ := Cursor.exists_cons_of_current? h
  rw [hc]
  exact if_neg hdead

/-- The opener of a comment is not read on. -/
theorem liveRun_of_opener
    (hopener : text = Symbol.lineComment ∨ text = Symbol.blockComment)
    (c : Cursor) : liveRun text c.position c.rest = (text, c) := by
  cases hcurrent : c.current? with
  | none => exact liveRun_of_none text hcurrent
  | some x =>
      refine liveRun_of_dead hcurrent fun hlive => ?_
      have hsame :=
        Symbol.eq_of_opener_prefix hopener hlive (List.prefix_append text [x])
      have hlength := congrArg List.length hsame
      rw [List.length_append, List.length_singleton] at hlength
      omega

/-- A text that is no comment opener is the symbol with this spelling, or
unknown. -/
theorem finishSymbol_reads (l : Lexer)
    (hopen : text ≠ Symbol.lineComment ∧ text ≠ Symbol.blockComment) :
    l.Reads (finishReading l.limit l.start text l.cursor)
      (l.finishSymbol text) := by
  unfold finishSymbol finishReading
  rw [if_neg hopen.1, if_neg hopen.2]
  cases Symbol.ofChars? text with
  | some sign => exact ⟨rfl, Goes.refl l⟩
  | none => exact ⟨rfl, l.goes_raise _ _⟩

/-- A reading that starts one step later. -/
theorem Reads.of_step {r : Reading} {result : Lexeme × Lexer}
    (h : l.step.Reads r result) :
    l.Reads r result := ⟨h.lexeme_eq, l.goes_step.then h.goes⟩

/-- From any text on that is no opener, a symbol is read up to where it is no longer
live. -/
theorem readSymbol_finishes (text : List Char) (l : Lexer)
    (hopen : text ≠ Symbol.lineComment ∧ text ≠ Symbol.blockComment) :
    l.Reads (finishReading l.limit l.start
      (liveRun text l.cursor.position l.cursor.rest).1
      (liveRun text l.cursor.position l.cursor.rest).2) (l.readSymbol text) := by
  fun_induction readSymbol text l with
  | case1 text l hnone =>
      rw [liveRun_of_none text (l.current?_cursor.trans hnone)]
      exact l.finishSymbol_reads hopen
  | case2 text l x hcurrent hlive hline =>
      rw [liveRun_of_live (l.current?_cursor.trans hcurrent) hlive,
        liveRun_of_opener (.inl hline), finishReading,
        if_pos hline, ← l.cursor_step]
      exact l.step.readLineComment_reads.of_step
  | case3 text l x hcurrent hlive hline hblock =>
      rw [liveRun_of_live (l.current?_cursor.trans hcurrent) hlive,
        liveRun_of_opener (.inr hblock), finishReading, if_neg hline,
        if_pos hblock, ← l.cursor_step]
      exact l.step.readBlockComment_reads.of_step
  | case4 text l x hcurrent hlive hline hblock ih =>
      rw [liveRun_of_live (l.current?_cursor.trans hcurrent) hlive, ← l.cursor_step]
      exact (ih ⟨hline, hblock⟩).of_step
  | case5 text l x hcurrent hdead =>
      rw [liveRun_of_dead (l.current?_cursor.trans hcurrent) hdead]
      exact l.finishSymbol_reads hopen

/-- The lexer reads a symbol or a comment as the cursor does. -/
theorem readSymbol_reads {l : Lexer} (hstart : l.start = l.here) :
    l.Reads (ScriptLang.readSymbol l.limit l.cursor) (l.readSymbol []) := by
  have hfinishes := l.readSymbol_finishes [] ⟨by decide, by decide⟩
  rw [hstart] at hfinishes
  exact hfinishes

/-! ## Numbers -/

/-- No radix is larger than sixteen. -/
theorem radixOf?_getD_le (mark : Char) : (radixOf? mark).getD 16 ≤ 16 := by
  unfold radixOf?
  split <;> decide

/-- The digits behind the mark of a radix, whatever was raised before them. -/
theorem radixDigits_goes {radix : Nat} (hradix : radix ≤ 16)
    {errors : List (Located LexicalError)} {l₁ : Lexer}
    (hgoes : l.Goes errors [] c l₁) :
    let run := c.run (Character.isDigitOf radix)
    let digits := DigitRun.read radix l.limit 0 run.1
    let a := Accumulator.accumulate radix { lexer := l₁ }
    a.value = UInt64.ofNat digits.value ∧
      l.Goes (errors ++ digits.errors ++
          if digits.counted = 0 then [⟨.missingRadixDigits, run.2.position⟩]
          else []) [] run.2
        (if a.counted = 0 then a.lexer.raise .missingRadixDigits a.lexer.here
          else a.lexer) := by
  intro run digits a
  obtain ⟨-, hvalue, hcounted, hdigits⟩ :=
    Accumulator.accumulate_eq_read hradix 0 l₁
  rw [hgoes.cursor_eq, hgoes.limit_eq] at hvalue hcounted hdigits
  have hboth := hgoes.trans hdigits
  refine ⟨by rw [← hvalue, UInt64.ofNat_toNat], ?_⟩
  rw [show a.counted = digits.counted from hcounted]
  by_cases hnone : digits.counted = 0
  · have hraise := hboth.trans (a.lexer.goes_raise .missingRadixDigits a.lexer.here)
    have hhere : a.lexer.here = run.2.position :=
      congrArg Cursor.position hdigits.cursor_eq
    rw [if_pos hnone, if_pos hnone, ← hhere]
    rw [hdigits.cursor_eq] at hraise
    exact hraise
  · rw [if_neg hnone, if_neg hnone, List.append_nil]
    exact hboth

/-- The lexer reads a number in another radix as the cursor does. -/
theorem readRadixNumber_reads (l : Lexer) :
    l.Reads (ScriptLang.readRadixNumber l.limit l.cursor) l.readRadixNumber := by
  have hmark : l.step.current? = l.cursor.advance.current? := by
    rw [← l.step.current?_cursor, l.cursor_step]
  have hsteps : l.Goes [] [] l.cursor.advance.advance l.step.step := by
    have hboth := l.goes_step.then l.step.goes_step
    rw [l.cursor_step] at hboth
    exact hboth
  unfold readRadixNumber ScriptLang.readRadixNumber
  dsimp only
  rw [hmark]
  generalize l.cursor.advance.current?.getD 'x' = mark
  have hle := radixOf?_getD_le mark
  cases hradix : radixOf? mark with
  | some radix =>
      rw [hradix] at hle
      obtain ⟨hvalue, hgoes⟩ := radixDigits_goes hle hsteps
      exact ⟨congrArg Lexeme.integer hvalue, hgoes⟩
  | none =>
      have hraise :=
        hsteps.then (l.step.step.goes_raise (.invalidRadixMark mark) l.step.here)
      rw [hsteps.cursor_eq] at hraise
      have hhere : l.step.here = l.cursor.advance.position :=
        congrArg Cursor.position l.cursor_step
      obtain ⟨hvalue, hgoes⟩ := radixDigits_goes (Nat.le_refl 16) hraise
      rw [hhere] at hvalue hgoes
      rw [hhere]
      exact ⟨congrArg Lexeme.integer hvalue, hgoes⟩

/-- The lexer reads an exponent as the cursor does. -/
theorem readExponent_reads (l : Lexer) :
    l.readExponent.1 = (ScriptLang.readExponent l.cursor).1 ∧
      l.Goes (ScriptLang.readExponent l.cursor).2.1 []
        (ScriptLang.readExponent l.cursor).2.2
        l.readExponent.2 := by
  unfold readExponent ScriptLang.readExponent
  rw [l.current?_cursor]
  generalize (l.current? == some '-') = negative,
    (l.current? == some '+') = positive
  dsimp only
  have hsign : l.Goes [] []
      (if negative || positive then l.cursor.advance else l.cursor)
      (if negative || positive then l.step else l) := by
    split
    · exact l.goes_step
    · exact Goes.refl l
  generalize (if negative || positive then l.step else l) = l₁ at hsign ⊢
  obtain ⟨hmagnitude, hdigits, hgoes⟩ :=
    readMagnitude_spec 0 0 l₁ (Nat.zero_min _).symm
  rw [hsign.cursor_eq] at hmagnitude hdigits hgoes
  generalize Cursor.run _ _ = run at hmagnitude hdigits hgoes ⊢
  have hboth := hsign.then hgoes
  by_cases hempty : run.1 = []
  · have hnone : (readMagnitude 0 0 l₁).2.1 = 0 := by rw [hdigits, hempty]; rfl
    have hraise :=
      hboth.trans ((readMagnitude 0 0 l₁).2.2.goes_raise .missingExponent
        run.2.position)
    have hhere : (readMagnitude 0 0 l₁).2.2.here = run.2.position :=
      congrArg Cursor.position hgoes.cursor_eq
    rw [hgoes.cursor_eq] at hraise
    rw [if_pos hnone, if_pos (List.isEmpty_iff.mpr hempty), hhere]
    exact ⟨rfl, hraise⟩
  · have hsome : (readMagnitude 0 0 l₁).2.1 ≠ 0 := by
      rw [hdigits, Nat.zero_add]
      exact mt List.length_eq_zero_iff.mp hempty
    rw [if_neg hsome, if_neg (mt List.isEmpty_iff.mp hempty), hmagnitude]
    exact ⟨rfl, hboth⟩

/-- The digits behind a point at the lexer, if the point is part of the number. -/
theorem fraction_goes (used : Nat) (l : Lexer) :
    let pointed := l.current? == some '.' && l.next?.any (Character.isDigitOf 10)
    let fraction : Accumulator :=
      if pointed then Accumulator.accumulate 10 { lexer := l.step, length := used }
      else { lexer := l }
    let places := fractionRun l.cursor
    let digits := DigitRun.read 10 l.limit used places.1
    places.1.isEmpty = !pointed ∧ fraction.value = UInt64.ofNat digits.value ∧
      fraction.counted = digits.counted ∧
      l.Goes digits.errors [] places.2 fraction.lexer := by
  intro pointed fraction places digits
  have hplaces : places =
      if pointed then l.cursor.advance.run (Character.isDigitOf 10)
      else ([], l.cursor) := by
    simp only [places, pointed, fractionRun, l.current?_cursor, l.next?_cursor]
  by_cases hpointed : pointed = true
  · have hfraction : fraction =
        Accumulator.accumulate 10 { lexer := l.step, length := used } :=
      if_pos hpointed
    obtain ⟨-, hvalue, hcounted, hgoes⟩ :=
      Accumulator.accumulate_eq_read (show 10 ≤ 16 by decide) used l.step
    rw [if_pos hpointed] at hplaces
    rw [l.cursor_step, ← hplaces, ← hfraction] at hvalue hcounted hgoes
    refine ⟨?_, ?_, hcounted, l.goes_step.then hgoes⟩
    · -- The digit that made the point part of the number is the first of the
      -- fraction.
      have hdigit := (Bool.and_eq_true_iff.mp hpointed).2
      obtain ⟨x, hx, hdigit⟩ := Option.any_eq_true _ _ |>.mp hdigit
      have hcurrent : l.cursor.advance.current? = some x := by
        rw [Cursor.current?_advance, l.next?_cursor, hx]
      rw [hplaces, Cursor.run_of_pos hcurrent hdigit, hpointed]
      rfl
    · rw [← show fraction.value.toNat = digits.value from hvalue,
        UInt64.ofNat_toNat]
  · have hfraction : fraction = { lexer := l } := if_neg hpointed
    rw [if_neg hpointed] at hplaces
    have hdigits : digits = ⟨0, 0, []⟩ := by
      simp only [digits, hplaces, DigitRun.read]
      simp [longestFit]
    rw [hdigits, hfraction, hplaces]
    rw [Bool.not_eq_true] at hpointed
    exact ⟨by rw [hpointed]; rfl, rfl, rfl, Goes.refl l⟩

/-- The lexer reads a decimal number as the cursor does. -/
theorem readDecimalNumber_reads (l : Lexer) :
    l.Reads (ScriptLang.readDecimalNumber l.limit l.cursor)
      l.readDecimalNumber := by
  obtain ⟨hlength, hintegral, -, hgoes⟩ :=
    Accumulator.accumulate_eq_read (show 10 ≤ 16 by decide) 0 l
  unfold readDecimalNumber ScriptLang.readDecimalNumber
  dsimp only
  generalize Accumulator.accumulate 10 { lexer := l } =
    integral at hlength hintegral hgoes ⊢
  obtain ⟨hempty, hfraction, hcounted, hplaces⟩ :=
    fraction_goes integral.length integral.lexer
  rw [hgoes.cursor_eq] at hempty
  rw [hgoes.cursor_eq, hgoes.limit_eq, hlength, Nat.zero_add]
    at hfraction hcounted hplaces
  rw [hlength, Nat.zero_add]
  generalize l.cursor.run (Character.isDigitOf 10) = run at *
  generalize (integral.lexer.current? == some '.' && _) = pointed at *
  generalize (if pointed = true then _ else _ : Accumulator) = fraction at *
  generalize fractionRun run.2 = places at *
  have hboth := hgoes.trans hplaces
  have hcurrent : fraction.lexer.current? = places.2.current? := by
    rw [← hplaces.cursor_eq, fraction.lexer.current?_cursor]
  have hinteger : integral.value =
      UInt64.ofNat (DigitRun.read 10 l.limit 0 run.1).value := by
    rw [← hintegral, UInt64.ofNat_toNat]
  rw [hcurrent, hinteger, hfraction, hcounted, exponentPart?]
  by_cases hmark : (places.2.current? == some 'e' ||
    places.2.current? == some 'E') = true
  · obtain ⟨hexponent, hgoes'⟩ := readExponent_reads fraction.lexer.step
    rw [fraction.lexer.cursor_step, hplaces.cursor_eq] at hexponent hgoes'
    rw [if_pos hmark, if_pos hmark, hexponent]
    exact ⟨rfl, hboth.trans (fraction.lexer.goes_step.then hgoes')⟩
  · rw [if_neg hmark, if_neg hmark, hempty]
    cases pointed <;> exact ⟨rfl, hboth⟩

/-- The mark of a number in another radix is seen with one character ahead. -/
theorem startsWithRadix_cursor (l : Lexer) :
    startsWithRadix l.cursor = (l.current? == some '0' &&
      l.next?.any fun mark => Character.isAlphabetic mark && mark != 'e' &&
        mark != 'E') := by
  rw [startsWithRadix, l.current?_cursor, l.next?_cursor]
  cases l.next? <;> rfl

/-- The lexer reads a number as the cursor does. -/
theorem readNumber_reads (l : Lexer) :
    l.Reads (ScriptLang.readNumber l.limit l.cursor) l.readNumber := by
  unfold readNumber ScriptLang.readNumber
  rw [startsWithRadix_cursor]
  split
  · exact l.readRadixNumber_reads
  · exact l.readDecimalNumber_reads

/-! ## Tokens -/

/-- The lexer reads a character that begins no token as the cursor does. -/
theorem readUnknown_reads {l : Lexer} (hstart : l.start = l.here) (c : Char) :
    l.Reads (ScriptLang.readUnknown l.cursor.position c l.cursor)
      (l.readUnknown c) := by
  have hgoes :=
    l.goes_step.then (l.step.goes_raise (.unknownToken c.toString) l.start)
  rw [l.cursor_step, hstart] at hgoes
  refine ⟨rfl, ?_⟩
  rw [readUnknown, hstart]
  exact hgoes

/-- The lexer reads whatever begins with a character as the cursor does. -/
theorem readFrom_reads {l : Lexer} (hstart : l.start = l.here) (c : Char) :
    l.Reads (ScriptLang.readFrom l.limit c l.cursor) (l.readFrom c) := by
  unfold readFrom ScriptLang.readFrom
  split
  · exact readSymbol_reads hstart
  · split
    · exact l.readWord_reads
    · split
      · exact l.readNumber_reads
      · split
        · exact l.readString_reads
        · exact readUnknown_reads hstart c

/-- Skipping blanks says nothing. -/
theorem skipBlanks_spec (l : Lexer) :
    l.Goes [] [] (l.cursor.skip Character.isBlank) l.skipBlanks := by
  fun_induction skipBlanks l with
  | case1 l hnone =>
      rw [Cursor.skip_of_none _ (l.current?_cursor.trans hnone)]
      exact Goes.refl l
  | case2 l c hcurrent hblank ih =>
      rw [Cursor.skip_of_pos (l.current?_cursor.trans hcurrent)
        hblank, ← l.cursor_step]
      exact l.goes_step.then ih
  | case3 l c hcurrent hblank =>
      rw [Cursor.skip_of_neg (l.current?_cursor.trans hcurrent)
        (Bool.eq_false_iff.mpr hblank)]
      exact Goes.refl l

/-- A token begins behind the blanks, and nothing has been raised for it yet. -/
theorem begin_spec (l : Lexer) :
    l.begin.cursor = l.cursor.skip Character.isBlank ∧ l.begin.limit = l.limit ∧
      l.begin.error = none ∧ l.begin.warnings.toList = [] := by
  have hskip := skipBlanks_spec { l with error := none, warnings := #[] }
  exact ⟨hskip.cursor_eq, hskip.limit_eq, hskip.error_eq, hskip.warnings_eq⟩

/-- Reading character by character finds the next token of the text, with all that
is raised for it, and arrives behind it. -/
theorem advance_eq_next (l : Lexer) :
    l.advance.1 = (Lexed.next l.limit l.cursor).1.token ∧
      l.advance.2.notes = (Lexed.next l.limit l.cursor).1.notes ∧
      l.advance.2.cursor = (Lexed.next l.limit l.cursor).2 ∧
        l.advance.2.limit = l.limit := by
  obtain ⟨hcursor, hlimit, herror, hwarnings⟩ := l.begin_spec
  unfold advance Lexed.next
  dsimp only
  rw [← hcursor, l.begin.current?_cursor, ← hlimit]
  cases hcurrent : l.begin.current? with
  | none => exact ⟨rfl, by rw [notes, herror, hwarnings], rfl, rfl⟩
  | some c =>
      obtain ⟨hlexeme, hgoes⟩ :=
        readFrom_reads (show l.begin.start = l.begin.here from rfl) c
      have herror' := hgoes.error_eq
      have hwarnings' := hgoes.warnings_eq
      rw [herror, Option.none_or] at herror'
      rw [hwarnings, List.nil_append] at hwarnings'
      have hhere : (l.begin.readFrom c).2.here =
          (ScriptLang.readFrom l.begin.limit c l.begin.cursor).behind.position :=
        congrArg Cursor.position hgoes.cursor_eq
      have hstart : (l.begin.readFrom c).2.start = l.begin.cursor.position :=
        hgoes.start_eq
      dsimp only
      rw [notes, hlexeme, hhere, hstart, herror', hwarnings']
      exact ⟨rfl, rfl, hgoes.cursor_eq, hgoes.limit_eq⟩

/-- Going on from token to token finds all tokens of the text. -/
theorem tokens_eq_all (l : Lexer) : l.tokens = Lexed.all l.limit l.cursor := by
  fun_induction tokens l with
  | case1 l read hlast =>
      obtain ⟨htoken, hnotes, _⟩ := l.advance_eq_next
      rw [Lexed.all, dif_pos (htoken ▸ hlast), htoken, hnotes]
  | case2 l read hmore ih =>
      obtain ⟨htoken, hnotes, hcursor, hlimit⟩ := l.advance_eq_next
      rw [Lexed.all, dif_neg (htoken ▸ hmore), ih, hcursor, hlimit, htoken, hnotes]

theorem tokens_ofText (limit : Nat) (source : String) :
    (ofText limit source).tokens = Lexed.ofText limit source := by
  rw [tokens_eq_all, Lexed.ofText]
  exact congrArg (Lexed.all limit) (Scanner.cursor_ofText source)

end Lexer

end ScriptLang
