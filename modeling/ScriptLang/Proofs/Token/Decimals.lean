import Mathlib.Tactic.IntervalCases
import ScriptLang.Proofs.Source.LineBreaks
import ScriptLang.Proofs.Token.DigitRuns
import ScriptLang.Proofs.Token.Lines

/-!
# Decimal literals

A text of decimal digits alone is one token, an integer, or one with an error: then
it is longer than the limit or its value has more than 64 bits
(`DigitRun.errors_eq_nil_iff`).  A minus sign in front is a token of its own.
-/

namespace ScriptLang

/-! ## Decimal digits -/

namespace Character

/-- There are ten decimal digits. -/
theorem mem_decimalDigits {c : Char} (h : c.isDigit = true) :
    c ∈ "0123456789".toList := by
  obtain ⟨hlow, hhigh⟩ : 48 ≤ c.toNat ∧ c.toNat ≤ 57 := Char.isDigit_iff_toNat.mp h
  rw [← Char.ofNat_toNat c]
  generalize c.toNat = n at hlow hhigh ⊢
  interval_cases n <;> decide

/-- What holds of these holds of every digit. -/
theorem of_isDigit {P : Char → Prop} [DecidablePred P] {c : Char}
    (h : c.isDigit = true)
    (hall : ("0123456789".toList.all fun c => decide (P c)) = true) : P c :=
  of_decide_eq_true (List.all_eq_true.mp hall c (mem_decimalDigits h))

/-- A digit begins a number and nothing else. -/
theorem starts_of_isDigit {c : Char} (h : c.isDigit = true) :
    Symbol.isLive [c] = false ∧ isAlphabetic c = false ∧ isBlank c = false ∧
      Glyph.isLineBreak c = false := by
  apply of_isDigit h
  decide

/-- The value of a decimal digit. -/
theorem digit?_of_isDigit {c : Char} (h : c.isDigit = true) :
    digit? 10 c = some (c.toNat - 48) := by
  apply of_isDigit h
  decide

/-- A decimal digit is a digit. -/
theorem isDigitOf_of_isDigit {c : Char} (h : c.isDigit = true) :
    isDigitOf 10 c = true := by
  rw [isDigitOf, digit?_of_isDigit h]
  rfl

/-- The decimal digits of a number are worth that number. -/
theorem numeral_toDigits (n : Nat) : numeral 10 (Nat.toDigits 10 n) = n := by
  have hworth : numeral 10 (Nat.toDigits 10 n) =
      Nat.ofDigitChars 10 (Nat.toDigits 10 n) 0 := by
    rw [numeral_eq_foldl, Nat.ofDigitChars_eq_foldl, List.foldl_map]
    apply List.foldl_ext
    intro value c hc
    rw [digit?_of_isDigit (Nat.isDigit_of_mem_toDigits (by decide) (by decide) hc),
      Nat.mul_comm]
    rfl
  rw [hworth, Nat.ofDigitChars_ten_toDigits]

end Character

/-! ## Literals without an error -/

namespace DigitRun

variable {radix : Nat} {here : Position} {digits : List Glyph}

/-- A run of digits has no error if there is room for all of them and their value
fits. -/
theorem errors_eq_nil_iff {limit used : Nat} (hused : used ≤ limit)
    (hdigits : ∀ g ∈ digits, Character.isDigitOf radix g.char = true) :
    (read radix limit used (Glyph.placed here digits)).errors = [] ↔
      digits.length ≤ limit - used ∧
        Character.numeral radix (digits.map Glyph.char) < 2 ^ 64 := by
  obtain ⟨⟨⟨hlength, hroom, hfits⟩, hgreatest⟩, _⟩ :=
    counted_greatest limit used here hdigits
  have herrors := errors_placed radix limit used here digits
  dsimp only at herrors
  rw [herrors, List.append_eq_nil_iff]
  generalize (read radix limit used (Glyph.placed here digits)).counted =
    counted at hlength hroom hfits hgreatest ⊢
  constructor
  · rintro ⟨hlarge, hlong⟩
    have hroom' : digits.length ≤ limit - used := by
      by_contra hlt
      rw [if_pos ⟨Nat.not_le.mp hlt, hused⟩] at hlong
      cases hlong
    have hcounted : counted = digits.length := by
      by_contra hne
      rw [if_pos (by omega)] at hlarge
      cases hlarge
    rw [hcounted, List.take_length] at hfits
    exact ⟨hroom', hfits⟩
  · rintro ⟨hroom', hvalue⟩
    have hle : digits.length ≤ counted :=
      hgreatest ⟨Nat.le_refl _, hroom', by rwa [List.take_length]⟩
    exact ⟨if_neg (by omega), if_neg (by omega)⟩

/-- All its digits are counted then. -/
theorem value_of_errors_eq_nil {limit used : Nat} (hused : used ≤ limit)
    (hdigits : ∀ g ∈ digits, Character.isDigitOf radix g.char = true)
    (h : (read radix limit used (Glyph.placed here digits)).errors = []) :
    (read radix limit used (Glyph.placed here digits)).value =
      Character.numeral radix (digits.map Glyph.char) := by
  obtain ⟨hroom, hfits⟩ := (errors_eq_nil_iff hused hdigits).mp h
  obtain ⟨⟨⟨hlength, _, _⟩, hgreatest⟩, hvalue⟩ :=
    counted_greatest limit used here hdigits
  have hle : digits.length ≤ _ :=
    hgreatest ⟨Nat.le_refl _, hroom, by rwa [List.take_length]⟩
  rw [hvalue, Nat.le_antisymm hlength hle, List.take_length]

end DigitRun

/-! ## Digits alone -/

open Glyph

/-- Digits are no beginning of a number in another radix. -/
theorem not_startsWithRadix {digits : List Char}
    (hdigits : ∀ c ∈ digits, c.isDigit = true) (here : Position) :
    startsWithRadix ⟨here, plain digits⟩ = false := by
  unfold startsWithRadix
  rcases digits with _ | ⟨c, _ | ⟨d, digits⟩⟩
  · rfl
  · exact Bool.and_false _
  · have hd := (Character.starts_of_isDigit (hdigits d (by simp))).2.1
    simp [plain, Cursor.next?, hd]

/-- Decimal digits are read as the digits that they are. -/
theorem isDigitOf_plain {digits : List Char}
    (hdigits : ∀ c ∈ digits, c.isDigit = true) :
    ∀ g ∈ plain digits, Character.isDigitOf 10 g.char = true := by
  intro g hg
  obtain ⟨c, hc, rfl⟩ := List.mem_map.mp hg
  exact Character.isDigitOf_of_isDigit (hdigits c hc)

/-- A text of digits is one number, which goes up to its end. -/
theorem readNumber_digits (limit : Nat) {digits : List Char}
    (hdigits : ∀ c ∈ digits, c.isDigit = true) (here : Position) :
    let run := DigitRun.read 10 limit 0 (placed here (plain digits))
    readNumber limit ⟨here, plain digits⟩ =
      { lexeme := .integer (UInt64.ofNat run.value), errors := run.errors,
        behind := ⟨here.behind (plain digits), []⟩ } := by
  have hrun : Cursor.run (Character.isDigitOf 10) ⟨here, plain digits⟩ =
      (placed here (plain digits), ⟨here.behind (plain digits), []⟩) := by
    rw [← Cursor.run_append (isDigitOf_plain hdigits) (by simp) here,
      List.append_nil]
  unfold readNumber readDecimalNumber
  rw [not_startsWithRadix hdigits, hrun]
  simp [fractionRun, exponentPart?, Cursor.current?, DigitRun.read, longestFit]

namespace Lexed

/-- Digits are one token. -/
theorem all_digits (limit : Nat) {digits : List Char} (hne : digits ≠ [])
    (hdigits : ∀ c ∈ digits, c.isDigit = true) (here : Position) :
    let run := DigitRun.read 10 limit 0 (placed here (plain digits))
    let behind := here.behind (plain digits)
    all limit ⟨here, plain digits⟩ =
      [⟨⟨.integer (UInt64.ofNat run.value), ⟨here, behind⟩⟩,
        ⟨run.errors.head?, []⟩⟩, endAt behind] := by
  intro run behind
  obtain ⟨first, digits', rfl⟩ := List.exists_cons_of_ne_nil hne
  obtain ⟨hlive, halphabetic, hblank, _⟩ :=
    Character.starts_of_isDigit (hdigits first List.mem_cons_self)
  have hfirst : (Cursor.mk here (plain (first :: digits'))).current? = some first :=
    rfl
  have hread : readFrom limit first ⟨here, plain (first :: digits')⟩ =
      readNumber limit ⟨here, plain (first :: digits')⟩ := by
    have hdigit := Character.isDigitOf_of_isDigit (hdigits first List.mem_cons_self)
    simp [readFrom, hlive, halphabetic, hdigit]
  have hnext := next_of_current limit hfirst hblank
  rw [hread, readNumber_digits limit hdigits here] at hnext
  rw [all_of_ne (by rw [hnext]; simp), hnext, all_nil]

/-- A minus sign in front of digits is a token. -/
theorem next_minus (limit : Nat) {digits : List Char}
    (hdigits : ∀ c ∈ digits, c.isDigit = true) (here : Position) :
    let sign : Glyph := ⟨'-', 1⟩
    next limit ⟨here, sign :: plain digits⟩ =
      (⟨⟨.symbol .minus, ⟨here, here.after sign⟩⟩, ⟨none, []⟩⟩,
        ⟨here.after sign, plain digits⟩) := by
  intro sign
  have hrun : liveRun [] here (sign :: plain digits) =
      (['-'], ⟨here.after sign, plain digits⟩) := by
    have hminus : Symbol.isLive ['-'] = true := by decide
    rw [liveRun, List.nil_append, if_pos hminus]
    cases digits with
    | nil => rfl
    | cons c digits =>
        have hlive : Symbol.isLive ['-', c] = false := by
          apply Character.of_isDigit (hdigits c List.mem_cons_self)
          decide
        simp [plain, liveRun, sign, hlive]
  have hread : readFrom limit '-' ⟨here, sign :: plain digits⟩ =
      { lexeme := .symbol .minus, behind := ⟨here.after sign, plain digits⟩ } := by
    rw [readFrom, if_pos (by decide), readSymbol, hrun]
    rfl
  have hfirst : (Cursor.mk here (sign :: plain digits)).current? = some '-' := rfl
  rw [next_of_current limit hfirst (by decide), hread]
  rfl

/-- Digits that the limit has room for and whose value fits in 64 bits are an
integer, with nothing to remark. -/
theorem all_digits_of_fits {limit : Nat} {digits : List Char} (hne : digits ≠ [])
    (hdigits : ∀ c ∈ digits, c.isDigit = true) (hlength : digits.length ≤ limit)
    (hvalue : Character.numeral 10 digits < 2 ^ 64) (here : Position) :
    let behind := here.behind (plain digits)
    all limit ⟨here, plain digits⟩ =
      [⟨⟨.integer (UInt64.ofNat (Character.numeral 10 digits)), ⟨here, behind⟩⟩,
        ⟨none, []⟩⟩, endAt behind] := by
  have herrors : (DigitRun.read 10 limit 0 (placed here (plain digits))).errors =
      [] := by
    rw [DigitRun.errors_eq_nil_iff (Nat.zero_le limit) (isDigitOf_plain hdigits),
      map_char_plain, length_plain]
    exact ⟨hlength, hvalue⟩
  have hworth :=
    DigitRun.value_of_errors_eq_nil (Nat.zero_le limit)
      (isDigitOf_plain hdigits) herrors
  rw [map_char_plain] at hworth
  rw [all_digits limit hne hdigits here, herrors, hworth]
  rfl

/-- Other digits are an error. -/
theorem fits_of_all_digits {limit : Nat} {digits : List Char} (hne : digits ≠ [])
    (hdigits : ∀ c ∈ digits, c.isDigit = true) {here : Position}
    (h : ∀ l ∈ all limit ⟨here, plain digits⟩, l.notes.error = none) :
    digits.length ≤ limit ∧ Character.numeral 10 digits < 2 ^ 64 := by
  rw [all_digits limit hne hdigits here] at h
  have herrors := List.head?_eq_none_iff.mp (h _ List.mem_cons_self)
  rwa [DigitRun.errors_eq_nil_iff (Nat.zero_le limit) (isDigitOf_plain hdigits),
    map_char_plain, length_plain]
    at herrors

end Lexed

end ScriptLang
