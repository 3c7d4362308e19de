import ScriptLang.Token.Lexer
import ScriptLang.Token.Reader

/-!
# What the lexer does character by character

The readers of the lexer count each character of a lexeme, keep it or drop it, and
move on.  Each of them comes to the same as taking the whole lexeme first:
`Lexer.Goes` says which errors and warnings come up on the way and where the lexer
arrives, and `Draft.Keeps` in addition which characters were offered to the limit.
One step is `Draft.keeps_keep`, and stretches are put together by
`Draft.Keeps.trans`; so a loop is an induction over its turns.

`excess` is the error that the count of characters leads to: the one at the first
character beyond the limit, however many came before.
-/

namespace ScriptLang

/-! ## Errors and places -/

/-- The error at the first of some characters that the limit drops, when `used`
characters of the lexeme came before them. -/
def excess (limit used : Nat) (items : List Placed) : List (Located LexicalError) :=
  if used ≤ limit then
    (items[limit - used]?.map fun item =>
      ⟨.lexemeTooLong limit, item.position⟩).toList
  else []

/-- Once the limit has been exceeded, no further character is the first beyond
it. -/
theorem excess_of_lt {limit used : Nat} (h : limit < used) (items : List Placed) :
    excess limit used items = [] := if_neg (Nat.not_le_of_lt h)

/-- Characters for which there is room raise nothing. -/
theorem excess_of_length_le {limit used : Nat} {items : List Placed}
    (h : items.length ≤ limit - used) : excess limit used items = [] := by
  rw [excess, List.getElem?_eq_none h]
  split <;> rfl

/-- Counted from the beginning of a lexeme, the excess is its overrun. -/
theorem excess_zero (limit : Nat) (items : List Placed) :
    excess limit 0 items = overrun limit items := by
  rw [excess, overrun, if_pos (Nat.zero_le _), Nat.sub_zero]
  cases items[limit]? <;> rfl

/-- The count goes on from one stretch of characters to the next. -/
theorem excess_append (limit used : Nat) (items more : List Placed) :
    excess limit used (items ++ more) =
      excess limit used items ++ excess limit (used + items.length) more := by
  by_cases hroom : limit < used + items.length
  · rw [excess_of_lt hroom, List.append_nil]
    by_cases hused : used ≤ limit
    · rw [excess, excess, List.getElem?_append_left (by omega)]
    · rw [excess_of_lt (by omega), excess_of_lt (by omega)]
  · have hindex : limit - used - items.length = limit - (used + items.length) := by
      omega
    have hnone : excess limit used items = [] := excess_of_length_le (by omega)
    rw [hnone, List.nil_append, excess, excess, if_pos (by omega),
      if_pos (by omega), List.getElem?_append_right (by omega), hindex]

namespace Lexer

/-- What a lexer has in front of it. -/
def cursor (l : Lexer) : Cursor := l.scanner.cursor

/-- A lexer goes on, and raises errors and warnings on the way.  Of the errors of a
token the first one counts. -/
structure Goes (l : Lexer) (errors : List (Located LexicalError))
    (warnings : List (Located LexicalWarning)) (behind : Cursor)
    (l' : Lexer) : Prop where
  cursor_eq : l'.cursor = behind
  limit_eq : l'.limit = l.limit
  start_eq : l'.start = l.start
  error_eq : l'.error = l.error.or errors.head?
  warnings_eq : l'.warnings.toList = l.warnings.toList ++ warnings

variable {l l' l'' : Lexer} {errors errors' : List (Located LexicalError)}
  {warnings warnings' : List (Located LexicalWarning)} {behind behind' : Cursor}

/-- A lexer that does nothing goes nowhere and says nothing. -/
theorem Goes.refl (l : Lexer) : l.Goes [] [] l.cursor l :=
  ⟨rfl, rfl, rfl, (Option.or_none).symm, (List.append_nil _).symm⟩

/-- What a lexer says on its way comes in order. -/
theorem Goes.trans (h : l.Goes errors warnings behind l')
    (h' : l'.Goes errors' warnings' behind' l'') :
    l.Goes (errors ++ errors') (warnings ++ warnings') behind' l'' where
  cursor_eq := h'.cursor_eq
  limit_eq := h'.limit_eq.trans h.limit_eq
  start_eq := h'.start_eq.trans h.start_eq
  error_eq := by rw [h'.error_eq, h.error_eq, List.head?_append, Option.or_assoc]
  warnings_eq := by rw [h'.warnings_eq, h.warnings_eq, List.append_assoc]

/-- The next stretch, where nothing was raised on the first one. -/
theorem Goes.then (h : l.Goes [] [] behind l')
    (h' : l'.Goes errors warnings behind' l'') :
    l.Goes errors warnings behind' l'' := h.trans h'

/-- The place where a lexer arrives is its own. -/
theorem Goes.arrive (h : l.Goes errors warnings behind l') :
    l.Goes errors warnings l'.cursor l' :=
  { h with cursor_eq := rfl }

/-- A step says nothing. -/
theorem goes_step (l : Lexer) : l.Goes [] [] l.cursor.advance l.step :=
  { Goes.refl l with cursor_eq := Scanner.cursor_advance l.scanner }

/-- To raise an error is to say it, and to stay. -/
theorem goes_raise (cause : LexicalError) (position : Position) (l : Lexer) :
    l.Goes [⟨cause, position⟩] [] l.cursor (l.raise cause position) := by
  unfold raise
  cases herror : l.error with
  | none => exact ⟨rfl, rfl, rfl, by rw [herror]; rfl, (List.append_nil _).symm⟩
  | some e => exact ⟨rfl, rfl, rfl, by simp [herror], (List.append_nil _).symm⟩

/-- To warn is to say it, and to stay. -/
theorem goes_warn (cause : LexicalWarning) (position : Position) (l : Lexer) :
    l.Goes [] [⟨cause, position⟩] l.cursor (l.warn cause position) :=
  ⟨rfl, rfl, rfl, (Option.or_none).symm, Array.toList_push⟩

/-- A character that is counted: whether it is kept, the new count, and the error if
it is the first one that is dropped. -/
theorem allow_spec (length : Nat) (l : Lexer) (c : Char) :
    (l.allow length).1 = decide (length < l.limit) ∧
      (l.allow length).2.1 = length + 1 ∧
      l.Goes (excess l.limit length [⟨c, l.here⟩]) [] l.cursor
        (l.allow length).2.2 := by
  unfold allow
  by_cases hkept : length + 1 ≤ l.limit
  · rw [if_pos hkept, excess_of_length_le (by rw [List.length_singleton]; omega)]
    exact ⟨(decide_eq_true hkept).symm, rfl, Goes.refl l⟩
  · rw [if_neg hkept]
    have hdropped : false = decide (length < l.limit) :=
      (decide_eq_false hkept).symm
    by_cases hfirst : length + 1 = l.limit + 1
    · have hone : excess l.limit length [⟨c, l.here⟩] =
          [⟨.lexemeTooLong l.limit, l.here⟩] := by
        rw [excess, show l.limit - length = 0 by omega]
        exact if_pos (by omega)
      rw [if_pos hfirst, hone]
      exact ⟨hdropped, rfl, goes_raise _ _ l⟩
    · rw [if_neg hfirst, excess_of_lt (by omega)]
      exact ⟨hdropped, rfl, Goes.refl l⟩

theorem current?_cursor (l : Lexer) : l.cursor.current? = l.current? :=
  Scanner.current?_cursor l.scanner

theorem next?_cursor (l : Lexer) : l.cursor.next? = l.next? :=
  Scanner.next?_cursor l.scanner

theorem cursor_step (l : Lexer) : l.step.cursor = l.cursor.advance :=
  Scanner.cursor_advance l.scanner

end Lexer

/-! ## Kept characters -/

namespace Draft

/-- A draft goes on to another one.  The characters are those that were offered to
the limit on the way, each with its place, and the errors those that came up
besides. -/
structure Keeps (d : Draft) (items : List Placed)
    (errors : List (Located LexicalError))
    (warnings : List (Located LexicalWarning)) (behind : Cursor)
    (d' : Draft) : Prop where
  content_eq : d'.content.toList =
    d.content.toList ++ (items.take (d.lexer.limit - d.length)).map Placed.char
  length_eq : d'.length = d.length + items.length
  goes : d.lexer.Goes (excess d.lexer.limit d.length items ++ errors) warnings
    behind d'.lexer

variable {d d' d'' : Draft} {items items' : List Placed}
  {errors : List (Located LexicalError)}
  {warnings warnings' : List (Located LexicalWarning)} {behind behind' : Cursor}

/-- What a draft keeps on its way comes in order. -/
theorem Keeps.trans (h : d.Keeps items [] warnings behind d')
    (h' : d'.Keeps items' errors warnings' behind' d'') :
    d.Keeps (items ++ items') errors (warnings ++ warnings') behind' d'' where
  content_eq := by
    rw [h'.content_eq, h.content_eq, h.goes.limit_eq, h.length_eq, List.take_append,
      List.map_append, List.append_assoc, Nat.sub_add_eq]
  length_eq := by rw [h'.length_eq, h.length_eq, List.length_append, Nat.add_assoc]
  goes := by
    have hgoes := h.goes.trans h'.goes
    rw [h.goes.limit_eq, h.length_eq,
      List.append_nil, ← List.append_assoc, ← excess_append] at hgoes
    exact hgoes

/-- A draft whose lexer goes on without a character. -/
theorem keeps_nil {lexer : Lexer} (h : d.lexer.Goes errors warnings behind lexer) :
    d.Keeps [] errors warnings behind (d.resume lexer) where
  content_eq := by simp [Draft.resume]
  length_eq := rfl
  goes := by rw [excess_of_length_le (Nat.zero_le _)]; exact h

/-- A character that is kept is counted, and there is an error if it is the first
too many. -/
theorem keeps_keep (c : Char) (d : Draft) :
    d.Keeps [⟨c, d.lexer.here⟩] [] [] d.lexer.cursor (d.keep c) := by
  obtain ⟨hkept, hlength, hgoes⟩ := d.lexer.allow_spec d.length c
  refine ⟨?_, hlength, by rw [List.append_nil]; exact hgoes⟩
  show (if (d.lexer.allow d.length).1 = true then d.content.push c
    else d.content).toList = _
  rw [hkept]
  by_cases hroom : d.length < d.lexer.limit
  · obtain ⟨room, hlimit⟩ : ∃ room, d.lexer.limit - d.length = room + 1 :=
      ⟨d.lexer.limit - d.length - 1, by omega⟩
    rw [decide_eq_true hroom, if_pos rfl, hlimit]
    simp
  · rw [decide_eq_false hroom, if_neg Bool.false_ne_true,
      show d.lexer.limit - d.length = 0 by omega]
    simp

/-- A character that is counted, and the step behind it. -/
theorem keeps_keep_step (c : Char) (d : Draft) :
    d.Keeps [⟨c, d.lexer.here⟩] [] [] d.lexer.cursor.advance (d.keep c).step := by
  have hkeep := d.keeps_keep c
  have hstep := (d.keep c).keeps_nil (d.keep c).lexer.goes_step
  rw [hkeep.goes.cursor_eq] at hstep
  exact hkeep.trans hstep

/-- A turn of a loop keeps its character before the others. -/
theorem Keeps.cons {c : Char}
    (h : (d.keep c).step.Keeps items errors warnings behind d') :
    d.Keeps (⟨c, d.lexer.here⟩ :: items) errors warnings behind d' :=
  (d.keeps_keep_step c).trans h

/-- A turn of a loop goes past its character. -/
theorem cursor_keep_step (c : Char) (d : Draft) :
    (d.keep c).step.lexer.cursor = d.lexer.cursor.advance :=
  (d.keeps_keep_step c).goes.cursor_eq

/-- What the end of the text leads to. -/
theorem keeps_breakOff (d : Draft) :
    d.Keeps [] (unclosed false d.lexer.cursor) [] d.lexer.cursor d.breakOff :=
  d.keeps_nil (d.lexer.goes_raise .unexpectedEndOfText d.lexer.here)

/-! ## The loops -/

/-- A word or a line comment is a run of characters. -/
theorem keepWhile_keeps (p : Char → Bool) (d : Draft) :
    d.Keeps (d.lexer.cursor.run p).1 [] [] (d.lexer.cursor.run p).2
      (d.keepWhile p) := by
  fun_induction keepWhile p d with
  | case1 d hnone =>
      rw [Cursor.run_of_none p (d.lexer.current?_cursor.trans hnone)]
      exact d.keeps_nil (Lexer.Goes.refl d.lexer)
  | case2 d c hcurrent hp ih =>
      rw [Cursor.run_of_pos (d.lexer.current?_cursor.trans hcurrent)
        hp, ← d.cursor_keep_step c]
      exact ih.cons
  | case3 d c hcurrent hp =>
      rw [Cursor.run_of_neg (d.lexer.current?_cursor.trans hcurrent)
        (Bool.eq_false_iff.mpr hp)]
      exact d.keeps_nil (Lexer.Goes.refl d.lexer)

end Draft

/-! ## Block comments -/

section

variable {c : Cursor} {x : Char}

/-- A block comment is not closed by the end of the text. -/
theorem commentRun_of_none (h : c.current? = none) :
    commentRun c.position c.rest = ([], false, c) := by
  rw [Cursor.rest_of_current?_none h]
  rfl

/-- A block comment is closed by its first closer. -/
theorem commentRun_of_closer (hstar : c.current? = some '*')
    (hslash : c.next? = some '/') :
    commentRun c.position c.rest = ([], true, c.advance.advance) := by
  obtain ⟨here, _ | ⟨g, _ | ⟨h, rest⟩⟩⟩ := c
  · cases hstar
  · cases hslash
  · rw [commentRun, if_pos ⟨Option.some.inj hstar, Option.some.inj hslash⟩]
    rfl

/-- A comment goes on with a character that does not begin its closer. -/
theorem commentRun_of_current (h : c.current? = some x)
    (hopen : ¬ (c.current? = some '*' ∧ c.next? = some '/')) :
    commentRun c.position c.rest =
      (⟨x, c.position⟩ :: (commentRun c.advance.position c.advance.rest).1,
        (commentRun c.advance.position c.advance.rest).2) := by
  obtain ⟨here, _ | ⟨g, _ | ⟨g', rest⟩⟩⟩ := c
  · cases h
  · obtain rfl : g.char = x := Option.some.inj h
    rfl
  · obtain rfl : g.char = x := Option.some.inj h
    rw [commentRun,
      if_neg (fun hclose => hopen ⟨congrArg some hclose.1, congrArg some hclose.2⟩)]
    rfl

end

/-- The loop over a block comment keeps what `commentRun` finds. -/
theorem Draft.keepComment_keeps (d : Draft) :
    let run := commentRun d.lexer.cursor.position d.lexer.cursor.rest
    d.Keeps run.1 (unclosed run.2.1 run.2.2) [] run.2.2 d.keepComment := by
  fun_induction keepComment d with
  | case1 d hnone =>
      rw [commentRun_of_none (d.lexer.current?_cursor.trans hnone)]
      exact d.keeps_breakOff
  | case2 d c hcurrent hclose =>
      obtain ⟨hstar, hslash⟩ := Bool.and_eq_true_iff.mp hclose
      rw [commentRun_of_closer (d.lexer.current?_cursor.trans (beq_iff_eq.mp hstar))
        (d.lexer.next?_cursor.trans (beq_iff_eq.mp hslash)), ← d.lexer.cursor_step]
      exact d.keeps_nil (d.lexer.goes_step.then d.lexer.step.goes_step)
  | case3 d c hcurrent hopen ih =>
      have hnot : ¬ (d.lexer.cursor.current? = some '*' ∧
          d.lexer.cursor.next? = some '/') := by
        rw [d.lexer.current?_cursor, d.lexer.next?_cursor]
        simpa [atCommentEnd] using hopen
      rw [commentRun_of_current (d.lexer.current?_cursor.trans hcurrent) hnot,
        ← d.cursor_keep_step c]
      exact ih.cons

end ScriptLang
