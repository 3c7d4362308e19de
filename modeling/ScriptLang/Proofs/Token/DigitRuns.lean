import Mathlib.Data.Nat.Digits.Defs
import Mathlib.Order.Bounds.Basic
import ScriptLang.Proofs.Token.DigitCount
import ScriptLang.Proofs.Token.Unclosed

/-!
# Runs of digits

The reader of a number takes all digits in front of it.  It keeps those that the
limit has room for, and of these the longest beginning whose value fits in 64 bits.
`Character.numeral` is the value of digits in the usual notation, and
`Accumulator.accumulate_longest` says what a run gives: which digits are kept, what
they are worth, where the reader stops, and which error the token has afterwards, if
it had none before.

One more digit never makes a value smaller (`foldl_le_foldl_digits`), so the digits
that fit are a beginning of the run and the first one that does not fit ends it.
-/

namespace ScriptLang

namespace Character

/-- The number that digits of a radix are written for, with the most significant
digit first. -/
def numeral (radix : Nat) (digits : List Char) : Nat :=
  Nat.ofDigits radix (digits.map fun c => (digit? radix c).getD 0).reverse

/-- Digits are worth what a reader from left to right makes of them. -/
theorem numeral_eq_foldl (radix : Nat) (digits : List Char) :
    numeral radix digits =
      (digits.map fun c => (digit? radix c).getD 0).foldl
        (fun value d => value * radix + d) 0 := by
  rw [numeral, Nat.ofDigits_eq_foldr, List.foldr_reverse]
  congr 1
  funext value d
  rw [Nat.cast_id, Nat.mul_comm, Nat.add_comm]

/-- There are no digits without a radix. -/
theorem pos_of_isDigitOf {radix : Nat} {c : Char}
    (h : isDigitOf radix c = true) : 0 < radix := by
  rw [Nat.pos_iff_ne_zero]
  rintro rfl
  simp [isDigitOf, digit?] at h

/-- Digits all have a value. -/
theorem filterMap_digit? {radix : Nat} {digits : List Char}
    (h : ∀ c ∈ digits, isDigitOf radix c = true) :
    digits.filterMap (digit? radix) = digits.map fun c =>
      (digit? radix c).getD 0 := by
  induction digits with
  | nil => rfl
  | cons c digits ih =>
      obtain ⟨hc, hdigits⟩ := List.forall_mem_cons.mp h
      obtain ⟨d, hd⟩ := Option.isSome_iff_exists.mp hc
      rw [List.filterMap_cons_some hd, List.map_cons, ih hdigits, hd]
      rfl

end Character

/-! ## The digits that fit -/

section Fitting

variable {radix : Nat}

/-- A digit more makes no value smaller. -/
theorem foldl_le_foldl_digits (hradix : 0 < radix) (value : Nat)
    (digits : List Nat) :
    value ≤ digits.foldl (fun value d => value * radix + d) value := by
  induction digits generalizing value with
  | nil => exact Nat.le_refl _
  | cons d digits ih =>
      calc value ≤ value * radix := Nat.le_mul_of_pos_right value hradix
        _ ≤ value * radix + d := Nat.le_add_right _ _
        _ ≤ _ := ih _

/-- No more digits are counted than there are. -/
theorem longestFit_le (value : Nat) (digits : List Nat) :
    (longestFit radix value digits).2 ≤ digits.length := by
  induction digits generalizing value with
  | nil => exact Nat.le_refl _
  | cons d digits ih =>
      rw [longestFit_cons]
      split
      · exact Nat.succ_le_succ (ih _)
      · exact Nat.zero_le _

/-- The value that is found is the one of the digits that are counted. -/
theorem longestFit_value (value : Nat) (digits : List Nat) :
    (longestFit radix value digits).1 =
      (digits.take (longestFit radix value digits).2).foldl
        (fun value d => value * radix + d) value := by
  induction digits generalizing value with
  | nil => rfl
  | cons d digits ih =>
      rw [longestFit_cons]
      split
      · exact ih _
      · rfl

/-- It fits. -/
theorem longestFit_lt {value : Nat} (hvalue : value < UInt64.size)
    (digits : List Nat) :
    (longestFit radix value digits).1 < UInt64.size := by
  induction digits generalizing value with
  | nil => exact hvalue
  | cons d digits ih =>
      rw [longestFit_cons]
      split
      · rename_i hfits
        exact ih hfits
      · exact hvalue

/-- No longer beginning fits. -/
theorem le_longestFit (hradix : 0 < radix) {value k : Nat} {digits : List Nat}
    (hk : k ≤ digits.length)
    (hfits : (digits.take k).foldl (fun value d => value * radix + d) value <
      UInt64.size) :
    k ≤ (longestFit radix value digits).2 := by
  induction digits generalizing value k with
  | nil => exact hk
  | cons d digits ih =>
      cases k with
      | zero => exact Nat.zero_le _
      | succ k =>
          rw [List.take_succ_cons, List.foldl_cons] at hfits
          have hnext : value * radix + d < UInt64.size :=
            Nat.lt_of_le_of_lt (foldl_le_foldl_digits hradix _ _) hfits
          rw [longestFit_cons, if_pos hnext]
          exact Nat.succ_le_succ (ih (Nat.le_of_succ_le_succ hk) hfits)

end Fitting

/-! ## Characters and their places -/

/-- A run of characters of a class ends where another character follows, or
nothing. -/
theorem Cursor.run_append {p : Char → Bool} {taken rest : List Glyph}
    (htaken : ∀ g ∈ taken, p g.char = true)
    (hrest : ∀ g ∈ rest.head?, p g.char = false) (here : Position) :
    run p ⟨here, taken ++ rest⟩ =
      (Glyph.placed here taken, ⟨here.behind taken, rest⟩) := by
  unfold run
  dsimp only
  induction taken generalizing here with
  | nil =>
      cases rest with
      | nil => rfl
      | cons g rest =>
          rw [List.nil_append, run.go, if_neg (by simp [hrest g rfl])]
          rfl
  | cons g taken ih =>
      obtain ⟨hg, htaken⟩ := List.forall_mem_cons.mp htaken
      rw [List.cons_append, run.go, if_pos hg, ih htaken]
      rfl

namespace Glyph

/-- A character stands right behind those before it. -/
theorem getElem?_placed (here : Position) (glyphs : List Glyph) (k : Nat) :
    (placed here glyphs)[k]? = glyphs[k]?.map fun g =>
      ⟨g.char, here.behind (glyphs.take k)⟩ := by
  induction glyphs generalizing here k with
  | nil => rfl
  | cons g glyphs ih =>
      cases k with
      | zero => rfl
      | succ k => exact ih (here.after g) k

end Glyph

namespace DigitRun

variable {radix : Nat} {digits : List Glyph}

/-- What the reader of a run keeps of it before it looks at the values. -/
theorem digits_kept (here : Position)
    (hdigits : ∀ g ∈ digits, Character.isDigitOf radix g.char = true) (room : Nat) :
    ((Glyph.placed here digits).take room).filterMap
      (fun p => Character.digit? radix p.char) =
      ((digits.map Glyph.char).take room).map fun c =>
        (Character.digit? radix c).getD 0 := by
  have hall : ∀ c ∈ (digits.map Glyph.char).take room,
      Character.isDigitOf radix c = true := by
    intro c hc
    obtain ⟨g, hg, rfl⟩ := List.mem_map.mp (List.mem_of_mem_take hc)
    exact hdigits g hg
  rw [← Character.filterMap_digit? hall, ← Glyph.map_char_placed
    here, ← List.map_take, List.filterMap_map]
  rfl

/-- The errors of a run of digits, by the number of digits that are kept. -/
theorem errors_placed (radix limit used : Nat) (here : Position)
    (digits : List Glyph) :
    let run := read radix limit used (Glyph.placed here digits)
    run.errors =
      (if run.counted < min digits.length (limit - used) then
        [⟨.numberTooLarge, here.behind (digits.take run.counted)⟩] else []) ++
        if limit - used < digits.length ∧ used ≤ limit then
          [⟨.lexemeTooLong limit, here.behind (digits.take (limit - used))⟩]
            else [] := by
  unfold read
  dsimp only
  generalize longestFit _ _ _ = fit
  rw [List.getElem?_take, Glyph.getElem?_placed, Glyph.getElem?_placed]
  congr 1
  · by_cases hroom : fit.2 < limit - used
    · rw [if_pos hroom]
      by_cases hlength : fit.2 < digits.length
      · rw [List.getElem?_eq_getElem hlength,
          if_pos (Nat.lt_min.mpr ⟨hlength, hroom⟩)]
        rfl
      · rw [List.getElem?_eq_none (Nat.not_lt.mp hlength),
          if_neg (fun h => hlength (Nat.lt_min.mp h).1)]
        rfl
    · rw [if_neg hroom, if_neg (fun h => hroom (Nat.lt_min.mp h).2)]
  · by_cases hlength : limit - used < digits.length
    · rw [List.getElem?_eq_getElem hlength]
      simp only [Option.map_some, hlength, true_and]
    · rw [List.getElem?_eq_none (Nat.not_lt.mp hlength),
        if_neg (fun h => hlength h.1)]
      rfl

/-- The digits that are counted are as many as the limit and the 64 bits of the
value allow, and the value is theirs. -/
theorem counted_greatest (limit used : Nat) (here : Position)
    (hdigits : ∀ g ∈ digits, Character.isDigitOf radix g.char = true) :
    let run := read radix limit used (Glyph.placed here digits)
    IsGreatest {k | k ≤ digits.length ∧ k ≤ limit - used ∧
      Character.numeral radix ((digits.take k).map Glyph.char) < 2 ^ 64}
        run.counted ∧
    run.value = Character.numeral radix
        ((digits.take run.counted).map Glyph.char) := by
  intro run
  let room := limit - used
  let values := ((digits.map Glyph.char).take room).map fun c =>
    (Character.digit? radix c).getD 0
  have hkept := digits_kept here hdigits room
  have hvalue : run.value = (longestFit radix 0 values).1 :=
    congrArg (fun ds => (longestFit radix 0 ds).1) hkept
  have hcounted : run.counted = (longestFit radix 0 values).2 :=
    congrArg (fun ds => (longestFit radix 0 ds).2) hkept
  have hlength : values.length = min room digits.length := by simp [values]
  -- A beginning that there is room for has the value that the reader computes for
  -- it.
  have hnumeral : ∀ {k}, k ≤ room →
    Character.numeral radix ((digits.take k).map Glyph.char) =
      (values.take k).foldl (fun value d => value * radix + d) 0 := by
    intro k hk
    rw [Character.numeral_eq_foldl, ← List.map_take, List.take_take,
      Nat.min_eq_left hk, List.map_take]
  have hle : run.counted ≤ min room digits.length := by
    rw [hcounted, ← hlength]
    exact longestFit_le 0 values
  obtain ⟨hroom, hdigitsLength⟩ := Nat.le_min.mp hle
  have hworth : run.value = Character.numeral radix
      ((digits.take run.counted).map Glyph.char) := by
    rw [hnumeral hroom, hvalue, hcounted]
    exact longestFit_value 0 values
  refine ⟨⟨⟨hdigitsLength, hroom, ?_⟩, ?_⟩, hworth⟩
  · rw [← hworth, hvalue]
    exact longestFit_lt (Nat.two_pow_pos 64) values
  · rintro k ⟨hk, hkroom, hfits⟩
    rcases digits with _ | ⟨g, more⟩
    · exact Nat.le_trans hk (Nat.zero_le _)
    · have hradix := Character.pos_of_isDigitOf (hdigits g List.mem_cons_self)
      rw [hcounted]
      rw [hnumeral hkroom] at hfits
      exact le_longestFit
        hradix (by rw [hlength]; exact Nat.le_min.mpr ⟨hkroom, hk⟩) hfits

/-- The first error of a run of digits, by the number of digits that are kept. -/
theorem head?_errors (radix limit used : Nat) (here : Position)
    (digits : List Glyph) :
    let run := read radix limit used (Glyph.placed here digits)
    run.errors.head? =
      if run.counted < min digits.length (limit - used) then
        some ⟨.numberTooLarge, here.behind (digits.take run.counted)⟩
      else if limit - used < digits.length ∧ used ≤ limit then
        some ⟨.lexemeTooLong limit, here.behind (digits.take (limit - used))⟩
      else none := by
  intro run
  rw [errors_placed radix limit used here digits]
  by_cases hlarge : run.counted < min digits.length (limit - used)
  · rw [if_pos hlarge, if_pos hlarge]
    rfl
  · rw [if_neg hlarge, if_neg hlarge, List.nil_append]
    split <;> rfl

end DigitRun

namespace Accumulator

/-- The reader of a run of digits takes the whole run, whatever the limit.  Of the
digits there is room for, it keeps the longest beginning with a value below `2 ^
64`.  The first digit that is too much for the value and the first one there is no
room for are errors, of which the token has the first one, unless it had one
before. -/
theorem accumulate_longest {radix : Nat} (hradix : radix ≤ 16) (used : Nat)
    (l : Lexer) (digits rest : List Glyph) (htext : l.cursor.rest = digits ++ rest)
    (hdigits : ∀ g ∈ digits, Character.isDigitOf radix g.char = true)
    (hrest : ∀ g ∈ rest.head?, Character.isDigitOf radix g.char = false) :
    let a := accumulate radix { lexer := l, length := used }
    let room := l.limit - used
    let value := fun k => Character.numeral radix ((digits.take k).map Glyph.char)
    a.lexer.cursor = ⟨l.here.behind digits, rest⟩ ∧
      a.length = used + digits.length ∧
      IsGreatest {k | k ≤ digits.length ∧ k ≤ room ∧ value k < 2 ^ 64} a.counted ∧
      a.value.toNat = value a.counted ∧
      a.lexer.error = l.error.or
        (if a.counted < min digits.length room then
          some ⟨.numberTooLarge, l.here.behind (digits.take a.counted)⟩
        else if room < digits.length ∧ used ≤ l.limit then
          some ⟨.lexemeTooLong l.limit, l.here.behind (digits.take room)⟩
        else none) ∧
      a.lexer.warnings = l.warnings := by
  intro a room value
  have hrun : l.cursor.run (Character.isDigitOf radix) =
      (Glyph.placed l.here digits, ⟨l.here.behind digits, rest⟩) := by
    rw [← Cursor.run_append hdigits hrest l.here, ← htext]
    rfl
  obtain ⟨hlength, hvalue, hcounted, hgoes⟩ := accumulate_eq_read hradix used l
  rw [hrun] at hlength hvalue hcounted hgoes
  obtain ⟨hgreatest, hworth⟩ :=
    DigitRun.counted_greatest l.limit used l.here hdigits
  rw [← hcounted] at hgreatest hworth
  have herror := hgoes.error_eq
  rw [DigitRun.head?_errors, ← hcounted] at herror
  refine ⟨hgoes.cursor_eq, ?_, hgreatest, hvalue.trans hworth, herror, ?_⟩
  · have hplaced := congrArg List.length (Glyph.map_char_placed l.here digits)
    rw [List.length_map, List.length_map] at hplaced
    rw [hlength, hplaced]
  · have hwarnings := hgoes.warnings_eq
    rw [List.append_nil] at hwarnings
    exact Array.toList_inj.mp hwarnings

/-- The digits of `2 ^ 64` behind two zeros, of which the limit has room for all but
one: the last digit is too much for both.  It is the limit that is passed first. -/
theorem paddedDigits_kept :
    let l := Lexer.ofText 24 "0018446744073709551616.5"
    let digits := Glyph.ofChars "0018446744073709551616".toList
    let rest := Glyph.ofChars ".5".toList
    let a := accumulate 10 { lexer := l, length := 3 }
    (10 ≤ 16 ∧ l.cursor.rest = digits ++ rest ∧
      (∀ g ∈ digits, Character.isDigitOf 10 g.char = true) ∧
      ∀ g ∈ rest.head?, Character.isDigitOf 10 g.char = false) ∧
    a.lexer.cursor = ⟨Position.start.behind digits, rest⟩ ∧ a.counted = 21 ∧
      IsGreatest {k | k ≤ digits.length ∧ k ≤ 24 - 3 ∧
        Character.numeral 10 ((digits.take k).map Glyph.char) < 2 ^ 64} a.counted ∧
      a.lexer.error = some ⟨.lexemeTooLong 24, ⟨21, 1, 22⟩⟩ := by
  intro l digits rest a
  have htext : l.cursor.rest = digits ++ rest := by decide +kernel
  have hdigits : ∀ g ∈ digits, Character.isDigitOf 10 g.char = true := by
    decide +kernel
  have hrest : ∀ g ∈ rest.head?, Character.isDigitOf 10 g.char = false := by
    decide +kernel
  have hcounted : a.counted = 21 := by decide +kernel
  obtain ⟨hbehind, _, hgreatest, _, herror, _⟩ :=
    accumulate_longest (show 10 ≤ 16 by decide) 3 l digits rest htext hdigits hrest
  refine ⟨⟨by decide, htext, hdigits, hrest⟩, hbehind, hcounted, hgreatest,
    herror.trans ?_⟩
  have hlength : digits.length = 22 := by decide +kernel
  rw [show (accumulate 10 { lexer := l, length := 3 }).counted =
    21 from hcounted, hlength]
  decide +kernel

end Accumulator

end ScriptLang
