import ScriptLang.Proofs.Token.Admission

/-!
# Digits, one at a time

The reader of a run of digits counts every digit against the limit, and adds it to
the value unless the limit has no room for it or a digit before it was too much.  A
turn of the loop does one of three things (`Accumulator.count_of_dropped`,
`Accumulator.count_of_fits`, `Accumulator.count_of_too_large`).  What all turns come
to is, from any state on, the value of the longest beginning that fits and the two
errors in the order in which they come up (`Accumulator.accumulate_reads`); from the
first digit on that is `DigitRun.read` (`Accumulator.accumulate_eq_read`).
-/

namespace ScriptLang

namespace Character

/-- A digit is smaller than the radix. -/
theorem digit?_lt {radix : Nat} {c : Char} {d : Nat}
    (h : digit? radix c = some d) : d < radix := by
  unfold digit? at h
  dsimp only at h
  rw [Option.ite_none_right_eq_some] at h
  exact Option.some.inj h.2 ▸ h.1

/-- A character that has a value is a digit. -/
theorem isDigitOf_of_digit? {radix : Nat} {c : Char} {d : Nat}
    (h : digit? radix c = some d) :
    isDigitOf radix c = true := by
  rw [isDigitOf, h]
  rfl

end Character

/-- The next digit of a value, when the product and the sum are checked one after
the other. -/
theorem Number.append_digit {value : UInt64} {radix d : Nat} (hradix : radix ≤ 16)
    (hd : d < radix) :
    ((mul? value radix.toUInt64).bind fun product => add? product d.toUInt64) =
      if value.toNat * radix + d < UInt64.size then
        some (UInt64.ofNat (value.toNat * radix + d))
      else none := by
  have hradix' : radix.toUInt64.toNat = radix := by
    simp [Nat.toUInt64]
    omega
  have hd' : d.toUInt64.toNat = d := by
    simp [Nat.toUInt64]
    omega
  unfold mul?
  rw [hradix']
  by_cases hproduct : value.toNat * radix < UInt64.size
  · have hvalue : (value * radix.toUInt64).toNat = value.toNat * radix := by
      rw [UInt64.toNat_mul, hradix', Nat.mod_eq_of_lt hproduct]
    rw [if_pos hproduct, Option.bind_some, add?, hvalue, hd']
    by_cases hsum : value.toNat * radix + d < UInt64.size
    · rw [if_pos hsum, if_pos hsum]
      congr 1
      apply UInt64.toNat.inj
      rw [UInt64.toNat_add, hvalue, hd', UInt64.toNat_ofNat']
    · rw [if_neg hsum, if_neg hsum]
  · rw [if_neg hproduct, if_neg (by omega)]
    rfl

/-- The error at the first digit that is too much for the value. -/
def tooLarge (kept : List Placed) (counted : Nat) : List (Located LexicalError) :=
  (kept[counted]?.map fun item => ⟨.numberTooLarge, item.position⟩).toList

/-- The two errors of a run of digits, with the second one as an excess. -/
theorem DigitRun.read_eq_excess (radix limit used : Nat) (run : List Placed) :
    read radix limit used run =
      let kept := run.take (limit - used)
      let fit :=
        longestFit radix 0 (kept.filterMap fun p => Character.digit? radix p.char)
      ⟨fit.1, fit.2, tooLarge kept fit.2 ++ excess limit used run⟩ := by
  unfold read tooLarge excess
  dsimp only
  generalize longestFit _ _ _ = fit
  congr 1
  cases (run.take (limit - used))[fit.2]? <;> cases run[limit - used]? <;> simp

namespace Accumulator

variable {radix d : Nat} {a : Accumulator}

/-- A digit that the limit has no room for, or that comes behind one that was too
much. -/
theorem count_of_dropped (h : a.length < a.lexer.limit → a.overflowed = true) :
    a.count radix d =
      { a with lexer := (a.lexer.allow a.length).2.2, length := a.length + 1 } := by
  obtain ⟨hkept, hlength, _⟩ := a.lexer.allow_spec a.length ' '
  have hdropped : ((a.lexer.allow a.length).1 && !a.overflowed) = false := by
    rw [hkept]
    by_cases hroom : a.length < a.lexer.limit
    · rw [h hroom, Bool.not_true, Bool.and_false]
    · rw [decide_eq_false hroom, Bool.false_and]
  unfold count
  dsimp only
  rw [hdropped, hlength]
  rfl

/-- A digit that is added to the value. -/
theorem count_of_fits (hroom : a.length < a.lexer.limit)
    (hbefore : a.overflowed = false) (hradix : radix ≤ 16) (hd : d < radix)
    (hfits : a.value.toNat * radix + d < UInt64.size) :
    a.count radix d =
      { a with
        lexer := (a.lexer.allow a.length).2.2
        length := a.length + 1
        value := UInt64.ofNat (a.value.toNat * radix + d)
        counted := a.counted + 1 } := by
  obtain ⟨hkept, hlength, _⟩ := a.lexer.allow_spec a.length ' '
  unfold count
  dsimp only
  rw [hkept, hbefore, decide_eq_true hroom, hlength,
    Number.append_digit hradix hd, if_pos hfits]
  rfl

/-- The first digit that is too much for the value. -/
theorem count_of_too_large (hroom : a.length < a.lexer.limit)
    (hbefore : a.overflowed = false) (hradix : radix ≤ 16) (hd : d < radix)
    (hlarge : ¬ a.value.toNat * radix + d < UInt64.size) :
    a.count radix d =
      { a with
        lexer :=
          (a.lexer.allow a.length).2.2.raise .numberTooLarge
            (a.lexer.allow a.length).2.2.here
        length := a.length + 1
        overflowed := true } := by
  obtain ⟨hkept, hlength, _⟩ := a.lexer.allow_spec a.length ' '
  unfold count
  dsimp only
  rw [hkept, hbefore, decide_eq_true hroom, hlength, Number.append_digit hradix hd,
    if_neg hlarge]
  rfl

/-- Where there is no digit, a run of digits is empty. -/
theorem run_of_no_digit {c : Cursor}
    (h : c.current?.bind (Character.digit? radix) = none) :
    c.run (Character.isDigitOf radix) = ([], c) := by
  cases hcurrent : c.current? with
  | none => exact Cursor.run_of_none _ hcurrent
  | some x =>
      rw [hcurrent] at h
      refine Cursor.run_of_neg hcurrent ?_
      rw [Character.isDigitOf, show Character.digit? radix x = none from h]
      rfl

/-- The digits of a run that may still be counted: those that the limit has room
for, and none behind one that was too much. -/
def admissible (a : Accumulator) (run : List Placed) : List Placed :=
  if a.overflowed then [] else run.take (a.lexer.limit - a.length)

/-- The value and the number of the digits that fit, read on from what has been
counted. -/
def fit (radix : Nat) (a : Accumulator) (run : List Placed) : Nat × Nat :=
  longestFit radix a.value.toNat
    ((a.admissible run).filterMap fun p => Character.digit? radix p.char)

/-- What reading a run of digits comes to, from any state on. -/
structure Reads (radix : Nat) (a : Accumulator) (run : List Placed)
    (behind : Cursor) (a' : Accumulator) : Prop where
  length_eq : a'.length = a.length + run.length
  value_eq : a'.value.toNat = (a.fit radix run).1
  counted_eq : a'.counted = a.counted + (a.fit radix run).2
  goes : a.lexer.Goes
    (tooLarge (a.admissible run) (a.fit radix run).2 ++
      excess a.lexer.limit a.length run) []
    behind a'.lexer

variable {a' b : Accumulator} {x : Char} {run : List Placed} {behind : Cursor}
  {errors : List (Located LexicalError)}

/-- Without a digit that may be counted, the value stays. -/
theorem fit_of_nil (h : a.admissible run = []) :
    a.fit radix run = (a.value.toNat, 0) := by
  rw [fit, h]
  rfl

/-- The first digit that may be counted is read first. -/
theorem fit_of_cons {p : Placed} {more : List Placed}
    (h : a.admissible run = p :: more)
    (hdigit : Character.digit? radix p.char = some d) :
    a.fit radix run =
      longestFit radix a.value.toNat
        (d :: more.filterMap fun p => Character.digit? radix p.char) := by
  rw [fit, h]
  simp only [List.filterMap_cons, hdigit]

/-- After a digit that was too much, no digit may be counted. -/
theorem admissible_of_overflowed (h : a.overflowed = true) (run : List Placed) :
    a.admissible run = [] := if_pos h

/-- When the limit is reached, no digit may be counted. -/
theorem admissible_of_full (h : a.lexer.limit ≤ a.length) (run : List Placed) :
    a.admissible run = [] := by
  rw [admissible, Nat.sub_eq_zero_of_le h, List.take_zero, ite_self]

/-- The first digit may be counted if there is room for it and none before it was
too much. -/
theorem admissible_of_room (hroom : a.length < a.lexer.limit)
    (hbefore : a.overflowed = false) (p : Placed) (run : List Placed) :
    a.admissible (p :: run) =
      p :: run.take (a.lexer.limit - (a.length + 1)) := by
  have hrest : a.lexer.limit - a.length =
      (a.lexer.limit - (a.length + 1)) + 1 := by omega
  rw [admissible, hbefore, if_neg Bool.false_ne_true, hrest, List.take_succ_cons]

/-- Without a digit there is nothing to read. -/
theorem reads_nil (radix : Nat) (a : Accumulator) :
    a.Reads radix [] a.lexer.cursor a := by
  have hnil : a.admissible [] = [] := by rw [admissible, List.take_nil, ite_self]
  refine ⟨rfl, by rw [fit_of_nil hnil], by rw [fit_of_nil hnil]; rfl, ?_⟩
  rw [fit_of_nil hnil, hnil, excess_of_length_le (Nat.zero_le _)]
  exact Lexer.Goes.refl a.lexer

/-- The lexer behind a digit that was counted. -/
theorem goes_allow_step (a : Accumulator) (x : Char) :
    a.lexer.Goes (excess a.lexer.limit a.length [⟨x, a.lexer.here⟩]) []
      a.lexer.cursor.advance
      (a.lexer.allow a.length).2.2.step := by
  obtain ⟨-, -, hallowed⟩ := a.lexer.allow_spec a.length x
  have hstep := hallowed.trans (a.lexer.allow a.length).2.2.goes_step
  rw [hallowed.cursor_eq, List.append_nil] at hstep
  exact hstep

/-- The excess of a lexeme, character by character. -/
theorem excess_cons (limit used : Nat) (item : Placed) (run : List Placed) :
    excess limit used (item :: run) = excess limit used [item] ++
      excess limit (used + 1) run :=
  excess_append limit used [item] run

/-- There is room for a digit, so that it is no error that it is counted. -/
theorem excess_of_room (h : a.length < a.lexer.limit) (item : Placed) :
    excess a.lexer.limit a.length [item] = [] :=
  excess_of_length_le (by rw [List.length_singleton]; omega)

/-- One digit, and those behind it. -/
theorem Reads.cons (h : b.Reads radix run behind a')
    (hlength : b.length = a.length + 1)
    (hgoes : a.lexer.Goes errors [] a.lexer.cursor.advance b.lexer)
    (hfit : (a.fit radix (⟨x, a.lexer.here⟩ :: run)).1 = (b.fit radix run).1 ∧
      a.counted + (a.fit radix (⟨x, a.lexer.here⟩ :: run)).2 =
      b.counted + (b.fit radix run).2)
    (herrors : tooLarge (a.admissible (⟨x, a.lexer.here⟩ :: run))
      (a.fit radix (⟨x, a.lexer.here⟩ :: run)).2 ++
      excess a.lexer.limit a.length [⟨x, a.lexer.here⟩] =
      errors ++ tooLarge (b.admissible run) (b.fit radix run).2) :
    a.Reads radix (⟨x, a.lexer.here⟩ :: run) behind a' where
  length_eq := by
    rw [h.length_eq, hlength, List.length_cons]
    omega
  value_eq := by rw [h.value_eq, hfit.1]
  counted_eq := by rw [h.counted_eq, hfit.2]
  goes := by
    have hboth := hgoes.trans h.goes
    rw [hgoes.limit_eq, hlength, ← List.append_assoc, ← herrors, List.append_assoc,
      ← excess_cons] at hboth
    exact hboth

/-- A digit that is dropped leaves the value as it is. -/
theorem Reads.cons_dropped
    (hdropped : a.length < a.lexer.limit → a.overflowed = true)
    (h : (a.count radix d).step.Reads radix run behind a') :
    a.Reads radix (⟨x, a.lexer.here⟩ :: run) behind a' := by
  have hallowed := a.goes_allow_step x
  -- Neither this digit nor one behind it may be counted.
  have hnone : a.admissible (⟨x, a.lexer.here⟩ :: run) = [] ∧
      (a.count radix d).step.admissible run = [] := by
    rw [count_of_dropped hdropped]
    by_cases hroom : a.length < a.lexer.limit
    · refine ⟨admissible_of_overflowed (hdropped hroom) _,
        admissible_of_overflowed ?_ _⟩
      exact hdropped hroom
    · refine ⟨admissible_of_full (Nat.not_lt.mp hroom) _, admissible_of_full ?_ _⟩
      show (a.lexer.allow a.length).2.2.step.limit ≤ a.length + 1
      rw [hallowed.limit_eq]
      omega
  have hfit : a.fit radix (⟨x, a.lexer.here⟩ :: run) = (a.value.toNat, 0) :=
    fit_of_nil hnone.1
  have hfit' : (a.count radix d).step.fit radix run =
      ((a.count radix d).value.toNat, 0) :=
    fit_of_nil hnone.2
  rw [count_of_dropped hdropped] at h hnone hfit'
  refine h.cons rfl hallowed ?_ ?_
  · rw [hfit, hfit']
    exact ⟨rfl, rfl⟩
  · rw [hnone.1, hnone.2, hfit, hfit']
    exact (List.append_nil _).symm

/-- A digit that fits is counted. -/
theorem Reads.cons_fits (hroom : a.length < a.lexer.limit)
    (hbefore : a.overflowed = false) (hradix : radix ≤ 16)
    (hdigit : Character.digit? radix x = some d)
    (hfits : a.value.toNat * radix + d < UInt64.size)
    (h : (a.count radix d).step.Reads radix run behind a') :
    a.Reads radix (⟨x, a.lexer.here⟩ :: run) behind a' := by
  have hallowed := a.goes_allow_step x
  rw [excess_of_room hroom] at hallowed
  rw [count_of_fits hroom hbefore hradix (Character.digit?_lt hdigit) hfits] at h
  generalize hb : step _ = b at h
  have hlimit : b.lexer.limit = a.lexer.limit := by
    rw [← hb]; exact hallowed.limit_eq
  have hvalue : b.value.toNat = a.value.toNat * radix + d := by
    rw [← hb]
    exact UInt64.toNat_ofNat_of_lt' hfits
  have hadmissible : a.admissible (⟨x, a.lexer.here⟩ :: run) =
      ⟨x, a.lexer.here⟩ :: b.admissible run := by
    have hbefore' : b.overflowed = false := by rw [← hb]; exact hbefore
    have hlength : b.length = a.length + 1 := by rw [← hb]; rfl
    rw [admissible_of_room hroom hbefore, admissible, hbefore',
      if_neg Bool.false_ne_true, hlimit, hlength]
  have hfit : a.fit radix (⟨x, a.lexer.here⟩ :: run) =
      ((b.fit radix run).1, (b.fit radix run).2 + 1) := by
    rw [fit_of_cons hadmissible hdigit, longestFit_cons, if_pos hfits, fit, hvalue]
  refine h.cons (by rw [← hb]; rfl) (by rw [← hb]; exact hallowed) ?_ ?_
  · rw [hfit, ← hb]
    exact ⟨rfl, (Nat.succ_add_eq_add_succ _ _).symm⟩
  · rw [hfit, hadmissible, excess_of_room hroom, List.append_nil]
    rfl

/-- The first digit that is too much raises the error, and no digit behind it is
counted. -/
theorem Reads.cons_too_large (hroom : a.length < a.lexer.limit)
    (hbefore : a.overflowed = false) (hradix : radix ≤ 16)
    (hdigit : Character.digit? radix x = some d)
    (hlarge : ¬ a.value.toNat * radix + d < UInt64.size)
    (h : (a.count radix d).step.Reads radix run behind a') :
    a.Reads radix (⟨x, a.lexer.here⟩ :: run) behind a' := by
  rw [count_of_too_large hroom hbefore hradix (Character.digit?_lt hdigit) hlarge]
    at h
  generalize hb : step _ = b at h
  have hnone : b.admissible run = [] :=
    admissible_of_overflowed (by rw [← hb]; rfl) run
  have hfit' : b.fit radix run = (a.value.toNat, 0) := by
    rw [fit_of_nil hnone, ← hb]
    rfl
  have hadmissible := admissible_of_room hroom hbefore ⟨x, a.lexer.here⟩ run
  have hfit : a.fit radix (⟨x, a.lexer.here⟩ :: run) = (a.value.toNat, 0) := by
    rw [fit_of_cons hadmissible hdigit, longestFit_cons, if_neg hlarge]
  -- The error stands at the digit, where the lexer still is.
  have hraise : a.lexer.Goes [⟨.numberTooLarge, a.lexer.here⟩] []
      a.lexer.cursor.advance b.lexer := by
    obtain ⟨-, -, hallowed⟩ := a.lexer.allow_spec a.length x
    rw [excess_of_room hroom] at hallowed
    have hhere : (a.lexer.allow a.length).2.2.here = a.lexer.here :=
      congrArg Cursor.position hallowed.cursor_eq
    have herror :=
      hallowed.then ((a.lexer.allow a.length).2.2.goes_raise
        .numberTooLarge a.lexer.here)
    have hstep := herror.trans (Lexer.goes_step _)
    rw [herror.cursor_eq, hallowed.cursor_eq, ← hhere] at hstep
    rw [← hhere, ← hb]
    exact hstep
  refine h.cons (by rw [← hb]; rfl) hraise ?_ ?_
  · rw [hfit, hfit', ← hb]
    exact ⟨rfl, rfl⟩
  · rw [hfit, hfit', hadmissible, hnone, excess_of_room hroom]
    rfl

/-- What the reader of a run of digits comes to, from any state on. -/
theorem accumulate_reads (hradix : radix ≤ 16) (a : Accumulator) :
    a.Reads radix (a.lexer.cursor.run (Character.isDigitOf radix)).1
      (a.lexer.cursor.run (Character.isDigitOf radix)).2 (a.accumulate radix) := by
  fun_induction accumulate radix a with
  | case1 a hnone =>
      rw [← a.lexer.current?_cursor] at hnone
      rw [run_of_no_digit hnone]
      exact reads_nil radix a
  | case2 a d hsome ih =>
      rw [← a.lexer.current?_cursor] at hsome
      obtain ⟨x, hcurrent, hdigit⟩ := Option.bind_eq_some_iff.mp hsome
      have hcursor : (a.count radix d).step.lexer.cursor =
          a.lexer.cursor.advance := by
        rw [Lexer.cursor, step, Lexer.scanner_step, scanner_count,
          Scanner.cursor_advance]
        rfl
      rw [hcursor] at ih
      rw [Cursor.run_of_pos hcurrent (Character.isDigitOf_of_digit? hdigit)]
      by_cases hdropped : a.length < a.lexer.limit → a.overflowed = true
      · exact ih.cons_dropped hdropped
      · obtain ⟨hroom, hbefore⟩ := Classical.not_imp.mp hdropped
        rw [Bool.not_eq_true] at hbefore
        by_cases hfits : a.value.toNat * radix + d < UInt64.size
        · exact ih.cons_fits hroom hbefore hradix hdigit hfits
        · exact ih.cons_too_large hroom hbefore hradix hdigit hfits

/-- The digits of a run behind `used` characters of the same token, as a whole. -/
theorem accumulate_eq_read (hradix : radix ≤ 16) (used : Nat) (l : Lexer) :
    let run := l.cursor.run (Character.isDigitOf radix)
    let read := DigitRun.read radix l.limit used run.1
    let a := accumulate radix { lexer := l, length := used }
    a.length = used + run.1.length ∧ a.value.toNat = read.value ∧
      a.counted = read.counted ∧
      l.Goes read.errors [] run.2 a.lexer := by
  intro run read a
  obtain ⟨hlength, hvalue, hcounted, hgoes⟩ :=
    accumulate_reads hradix ({ lexer := l, length := used } : Accumulator)
  have hread : read = _ := DigitRun.read_eq_excess radix l.limit used run.1
  rw [hread]
  exact ⟨hlength, hvalue, hcounted.trans (Nat.zero_add _), hgoes⟩

end Accumulator

namespace Lexer

/-- The magnitude of an exponent stops at the largest one at every digit, and not
only at the end. -/
theorem readMagnitude_spec (magnitude digits : Nat) (l : Lexer) {value : Nat}
    (hvalue : magnitude = min value exponentLimit) :
    let run := l.cursor.run (Character.isDigitOf 10)
    let read := l.readMagnitude magnitude digits
    read.1 =
        min
          (run.1.foldl (fun n d => n * 10 + (Character.digit? 10 d.char).getD 0)
            value)
          exponentLimit ∧
      read.2.1 = digits + run.1.length ∧ l.Goes [] [] run.2 read.2.2 := by
  fun_induction readMagnitude magnitude digits l generalizing value with
  | case1 magnitude digits l hnone =>
      rw [← l.current?_cursor] at hnone
      rw [Accumulator.run_of_no_digit hnone]
      exact ⟨hvalue, rfl, Goes.refl l⟩
  | case2 magnitude digits l d hsome ih =>
      rw [← l.current?_cursor] at hsome
      obtain ⟨x, hcurrent, hdigit⟩ := Option.bind_eq_some_iff.mp hsome
      have hnext : min (min (magnitude * 10) exponentLimit + d) exponentLimit =
          min (value * 10 + d) exponentLimit := by
        rw [hvalue]
        omega
      obtain ⟨hread, hdigits, hgoes⟩ := ih hnext
      rw [Cursor.run_of_pos hcurrent
        (Character.isDigitOf_of_digit? hdigit), ← l.cursor_step]
      refine ⟨?_, ?_, l.goes_step.then hgoes⟩
      · rw [hread, List.foldl_cons, hdigit]
        rfl
      · rw [hdigits, List.length_cons]
        omega

end Lexer

end ScriptLang
