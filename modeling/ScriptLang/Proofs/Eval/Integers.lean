import ScriptLang.Proofs.Eval.Limits
import ScriptLang.Proofs.Parse.Completeness
import ScriptLang.Proofs.Parse.Layout
import ScriptLang.Proofs.Token.Decimals

/-!
# Integers in texts

An integer is printed in decimal, with a minus sign in front if it is negative, and
the text is that integer again when it is cast back and when it is evaluated
(`Value.int_readBack`).

The digits are those of the magnitude, and for the least integer this is `2 ^ 63`,
which is no integer itself.  A cast puts the sign in front before it looks at the
bounds.  In an expression the digits are a literal on their own, an unsigned number,
which is taken modulo `2 ^ 64`; so `2 ^ 63` is the least integer there, which is its
own negation.
-/

namespace ScriptLang

/-! ## Printing and casting -/

namespace Character

/-- A text without blanks has none at its ends. -/
theorem trim_eq_self {text : List Char} (h : ∀ c ∈ text, isBlank c = false) :
    trim text = text := by
  have hdrop : ∀ {chars : List Char}, (∀ c ∈ chars, isBlank c = false) →
      chars.dropWhile isBlank = chars := by
    intro chars hchars
    cases chars with
    | nil => rfl
    | cons c chars =>
        rw [List.dropWhile_cons_of_neg (by simp [hchars c List.mem_cons_self])]
  rw [trim, hdrop h, hdrop (fun c hc => h c (List.mem_reverse.mp hc)),
    List.reverse_reverse]

/-- A number is written with decimal digits. -/
theorem isDigit_of_mem_toDigits {n : Nat} {c : Char} (hc : c ∈ Nat.toDigits 10 n) :
    c.isDigit = true :=
  Nat.isDigit_of_mem_toDigits (by decide) (by decide) hc

end Character

namespace Number

open Character

/-- Both readings of decimal digits give the same value. -/
theorem decimalValue_eq (digits : List Char) :
    decimalValue digits = numeral 10 digits := by
  rw [numeral_eq_foldl, List.foldl_map]
  rfl

/-- Digits are no sign. -/
theorem splitSign_toDigits (n : Nat) :
    splitSign (Nat.toDigits 10 n) = (false, Nat.toDigits 10 n) := by
  unfold splitSign
  split
  · rename_i heq
    exact absurd (isDigit_of_mem_toDigits
      (n := n) (by rw [heq]; exact List.mem_cons_self)) (by decide)
  · rename_i heq
    exact absurd (isDigit_of_mem_toDigits
      (n := n) (by rw [heq]; exact List.mem_cons_self)) (by decide)
  · rfl

/-- A number in decimal, with a sign or without, is read if it has 64 bits with its
sign. -/
theorem integer?_of_splitSign {text : List Char} {negative : Bool} {n : Nat}
    (h : splitSign text = (negative, Nat.toDigits 10 n)) :
    let value : Int := if negative then -n else n
    integer? text =
      if -0x8000000000000000 ≤ value ∧ value < 0x8000000000000000 then
        some (Int64.ofInt value)
      else none := by
  have hdigits : (Nat.toDigits 10 n).all (isDigitOf 10) = true :=
    List.all_eq_true.mpr fun c hc =>
      isDigitOf_of_isDigit (isDigit_of_mem_toDigits hc)
  have hempty : (Nat.toDigits 10 n).isEmpty = false :=
    List.isEmpty_eq_false_iff.mpr Nat.toDigits_ne_nil
  unfold integer?
  rw [h]
  simp only [hdigits, hempty, decimalValue_eq, numeral_toDigits]
  rfl

end Number

namespace Value

/-- An integer is printed as the digits of its magnitude, behind a sign if it is
negative. -/
theorem toList_text_int (v : Int64) :
    (Value.int v).text.toList =
      if 0 ≤ v.toInt then Nat.toDigits 10 v.toInt.toNat else '-' :: Nat.toDigits 10
        (-v.toInt).toNat := by
  show (toString v.toInt).toList = _
  rw [Int.toString_eq_repr, Int.repr_eq_if]
  split
  · exact Nat.toList_repr
  · rw [String.toList_append, Nat.toList_repr]
    rfl

/-- There is no blank in the text of an integer. -/
theorem not_isBlank_text_int (v : Int64) {c : Char}
    (hc : c ∈ (Value.int v).text.toList) :
    Character.isBlank c = false := by
  have hdigit : ∀ {n : Nat}, c ∈ Nat.toDigits 10 n → Character.isBlank c = false :=
    fun h =>
    (Character.starts_of_isDigit (Character.isDigit_of_mem_toDigits h)).2.2.1
  rw [toList_text_int] at hc
  split at hc
  · exact hdigit hc
  · rcases List.mem_cons.mp hc with rfl | hc
    · rfl
    · exact hdigit hc

/-- The printed integer is read as that integer. -/
theorem integer?_text_int (v : Int64) :
    Number.integer? (Value.int v).text.toList = some v := by
  have hlow := v.le_toInt
  have hhigh := v.toInt_lt
  rw [toList_text_int]
  split
  · rename_i hsign
    rw [Number.integer?_of_splitSign (Number.splitSign_toDigits _)]
    have hvalue : (v.toInt.toNat : Int) = v.toInt := Int.toNat_of_nonneg hsign
    simp only [Bool.false_eq_true, if_false, hvalue, Int64.ofInt_toInt]
    exact if_pos (by omega)
  · rename_i hsign
    have hsplit : Number.splitSign ('-' :: Nat.toDigits 10 (-v.toInt).toNat) =
        (true, Nat.toDigits 10 (-v.toInt).toNat) := rfl
    rw [Number.integer?_of_splitSign hsplit]
    have hvalue : -((-v.toInt).toNat : Int) = v.toInt := by omega
    simp only [if_true, hvalue, Int64.ofInt_toInt]
    exact if_pos (by omega)

/-- An integer that is cast to a text and back is itself. -/
theorem cast_cast_int (v : Int64) :
    ((Value.int v).cast .string >>= fun text => text.cast .int) = .ok (.int v) := by
  have htrim : Character.trim (Value.int v).text.toList =
      (Value.int v).text.toList :=
    Character.trim_eq_self fun _ hc => not_isBlank_text_int v hc
  show Except.ok (orNull .int
    (Number.integer? (Character.trim (Value.int v).text.toList))) = _
  rw [htrim, integer?_text_int]
  rfl

end Value

/-! ## Parsing and evaluating -/

namespace Parse

/-- A formula is read from what it is written as, up to its spans. -/
theorem expression_reads {e : Expr} (he : e.Fits 3) :
    Reads Parse.expression (e.write ++ [.endOfText]) [.endOfText]
      (fun e' => e'.bare = e.bare) := by
  intro s hahead
  have hlength : (e.write ++ [Lexeme.endOfText]).length < s.rest.length + 1 := by
    rw [← hahead, ParseState.length_ahead]
    exact Nat.lt_succ_self _
  exact (Rules.upTo_complete (s.rest.length + 1)).1 e he [.endOfText] (by decide)
    hlength s hahead

/-- A text is read without an error, lexical or syntactic, as one expression, and
this is evaluated to a value on every machine, which it leaves as it is. -/
def Denotes (limit : Nat) (source : String) (v : Value) : Prop :=
  Lexed.Clean limit source ∧
    ∃ e s, Parse.expression (ParseState.ofText limit source) = (some e, s) ∧
      s.errors = #[] ∧ s.atEnd = true ∧
      ∀ g m, e.Yields g m v m

/-- A text denotes a value if its tokens write an expression that yields it. -/
theorem denotes_of_lexemes {limit : Nat} {source : String} {e : Expr} {v : Value}
    (hclean : Lexed.Clean limit source) (he : e.Fits 3)
    (hlexemes : Lexed.lexemes (Lexed.ofText limit source) = e.write ++ [.endOfText])
    (hvalue : ∀ e' : Expr, e'.bare = e.bare → ∀ g m, e'.Yields g m v m) :
    Denotes limit source v := by
  obtain ⟨e', s, hrun, hbare, hbehind, herrors⟩ :=
    expression_reads he (ParseState.ofText limit source)
    ((ParseState.ahead_ofText limit source).trans hlexemes)
  have htoken : s.token.lexeme = .endOfText := by
    rw [ParseState.lexeme_token, hbehind]
    rfl
  have hend : s.atEnd = true := by
    simp [ParseState.atEnd, Token.kind, htoken, Lexeme.kind]
  exact ⟨hclean, e', s, hrun, herrors, hend, hvalue e' hbare⟩

end Parse

namespace Expr

variable {g : Setting} {m : Machine} {e operand : Expr}

/-- A literal yields its value. -/
theorem yields_literal {x : Literal} (h : e.node = .literal x) :
    e.Yields g m (.ofLiteral x) m :=
  ⟨1, by rw [evaluate, Eval.layer, h]; rfl⟩

/-- The negation of what yields an integer yields the negative one. -/
theorem Yields.negate {m' : Machine} {i : Int64}
    (h : operand.Yields g m (.int i) m') (he : e.node = .unary .negate operand) :
    e.Yields g m (.int (-i)) m' := by
  obtain ⟨fuel, hrun⟩ := h
  refine ⟨fuel + 1, ?_⟩
  rw [evaluate, Eval.layer, he]
  show Eval.andThen (evaluate g fuel operand) _ m = _
  rw [Eval.andThen, hrun]
  rfl

end Expr

namespace Lexed

open Glyph

variable {limit : Nat} {source : String} {digits : List Char}

/-- The tokens of a text without line breaks are those from its first character
on. -/
theorem ofText_eq_all (limit : Nat) (source : String)
    (h : ∀ c ∈ source.toList, isLineBreak c = false) :
    ofText limit source = all limit ⟨.start, plain source.toList⟩ := by
  rw [ofText, Cursor.ofText, ofChars_eq_plain h]

/-- A text of digits is an integer if the limit has room for it and its value fits
in 64 bits. -/
theorem ofText_digits (hne : source.toList ≠ [])
    (hdigits : ∀ c ∈ source.toList, c.isDigit = true)
    (hlength : source.toList.length ≤ limit)
    (hvalue : Character.numeral 10 source.toList < 2 ^ 64) :
    Clean limit source ∧ lexemes (ofText limit source) =
      [.integer (UInt64.ofNat (Character.numeral 10 source.toList)),
        .endOfText] := by
  have hall :=
    ofText_eq_all limit source fun c hc =>
      (Character.starts_of_isDigit (hdigits c hc)).2.2.2
  rw [Clean, hall, all_digits_of_fits hne hdigits hlength hvalue]
  exact ⟨by simp [endAt], rfl⟩

/-- The same digits behind a minus sign. -/
theorem ofText_negative (hsource : source.toList = '-' :: digits)
    (hne : digits ≠ []) (hdigits : ∀ c ∈ digits, c.isDigit = true)
    (hlength : digits.length ≤ limit)
    (hvalue : Character.numeral 10 digits < 2 ^ 64) :
    Clean limit source ∧ lexemes (ofText limit source) =
      [.symbol .minus, .integer (UInt64.ofNat (Character.numeral 10 digits)),
        .endOfText] := by
  have hall := ofText_eq_all limit source fun c hc => by
    rw [hsource] at hc
    rcases List.mem_cons.mp hc with rfl | hc
    · rfl
    · exact (Character.starts_of_isDigit (hdigits c hc)).2.2.2
  have hnext := next_minus limit hdigits Position.start
  rw [hsource] at hall
  rw [Clean, hall, plain, List.map_cons, ← plain, all_of_ne (by rw [hnext]; simp),
    hnext, all_digits_of_fits hne hdigits hlength hvalue]
  exact ⟨by simp [endAt], rfl⟩

end Lexed

namespace Parse

variable {limit : Nat} {source : String} {digits : List Char}

/-- Digits denote their value, reduced to 64 bits with a sign. -/
theorem denotes_digits (limit : Nat) (source : String) (hne : source.toList ≠ [])
    (hdigits : ∀ c ∈ source.toList, c.isDigit = true)
    (hlength : source.toList.length ≤ limit)
    (hvalue : Character.numeral 10 source.toList < 2 ^ 64) :
    Denotes limit source (.int
      (Int64.ofNat (Character.numeral 10 source.toList))) := by
  obtain ⟨hclean, hlexemes⟩ := Lexed.ofText_digits hne hdigits hlength hvalue
  generalize Character.numeral 10 source.toList = n at hlexemes
  let e : Expr := ⟨.literal (.integer (UInt64.ofNat n)), default⟩
  have he : e.Fits 3 := ⟨.literal, .literal, Nat.le_of_ble_eq_true rfl⟩
  refine denotes_of_lexemes (e := e) hclean he hlexemes fun e' hbare g m => ?_
  rw [← UInt64.toInt64_ofNat']
  exact Expr.yields_literal (Expr.node_eq_literal hbare)

/-- Digits behind a minus sign denote the negation of that. -/
theorem denotes_negative (limit : Nat) (hsource : source.toList = '-' :: digits)
    (hne : digits ≠ []) (hdigits : ∀ c ∈ digits, c.isDigit = true)
    (hlength : digits.length ≤ limit)
    (hvalue : Character.numeral 10 digits < 2 ^ 64) :
    Denotes limit source (.int (-Int64.ofNat (Character.numeral 10 digits))) := by
  obtain ⟨hclean, hlexemes⟩ :=
    Lexed.ofText_negative hsource hne hdigits hlength hvalue
  generalize Character.numeral 10 digits = n at hlexemes
  let literal : Expr := ⟨.literal (.integer (UInt64.ofNat n)), default⟩
  let e : Expr := ⟨.unary .negate literal, default⟩
  have he : e.Fits 3 :=
    ⟨.sign rfl .literal, .unary (Nat.le_of_ble_eq_true rfl) .literal,
      Nat.le_of_ble_eq_true rfl⟩
  refine denotes_of_lexemes (e := e) hclean he hlexemes fun e' hbare g m => ?_
  obtain ⟨operand, hnode, hoperand⟩ := Expr.node_eq_unary hbare
  rw [← UInt64.toInt64_ofNat']
  exact Expr.Yields.negate (Expr.yields_literal (Expr.node_eq_literal hoperand))
    hnode

end Parse

namespace Value

open Character Parse

/-- The printed integer denotes that integer. -/
theorem denotes_text_int (v : Int64) {limit : Nat} (hlimit : 19 ≤ limit) :
    Denotes limit (Value.int v).text (.int v) := by
  have hlow := v.le_toInt
  have hhigh := v.toInt_lt
  have hlength : ∀ {n : Nat}, n ≤ 2 ^ 63 → (Nat.toDigits 10 n).length ≤ limit := by
    intro n hn
    have hle : (Nat.toDigits 10 n).length ≤ 19 :=
      (Nat.length_toDigits_le_iff (by decide) (by decide)).mpr (by omega)
    omega
  have hdigits : ∀ {n : Nat}, ∀ c ∈ Nat.toDigits 10 n, c.isDigit = true :=
    fun _ hc => isDigit_of_mem_toDigits hc
  have htext := toList_text_int v
  split at htext
  · rename_i hsign
    have hdenotes := denotes_digits limit (Value.int v).text
    rw [htext, numeral_toDigits] at hdenotes
    have hvalue : Int64.ofNat v.toInt.toNat = v := by
      rw [← Int64.ofInt_eq_ofNat, Int.toNat_of_nonneg hsign, Int64.ofInt_toInt]
    rw [hvalue] at hdenotes
    exact hdenotes Nat.toDigits_ne_nil hdigits (hlength (by omega)) (by omega)
  · rename_i hsign
    have hdenotes := denotes_negative limit htext
    rw [numeral_toDigits] at hdenotes
    have hvalue : -Int64.ofNat (-v.toInt).toNat = v := by
      rw [← Int64.ofInt_eq_ofNat, Int.toNat_of_nonneg (by omega), Int64.ofInt_neg,
        Int64.ofInt_toInt, Int64.neg_neg]
    rw [hvalue] at hdenotes
    exact hdenotes Nat.toDigits_ne_nil hdigits (hlength (by omega)) (by omega)

/-- The text that an integer is printed as denotes that integer, and is cast back to
it.  In general, digits that are read without an error are an unsigned integer below
`2 ^ 64` and denote this number, reduced to 64 bits with a sign. -/
theorem int_readBack (v : Int64) {limit : Nat} (hlimit : 19 ≤ limit) :
    Denotes limit (Value.int v).text (.int v) ∧
      ((Value.int v).cast .string >>= fun text => text.cast .int) = .ok (.int v) ∧
      ∀ (limit' : Nat) (source : String), source.toList ≠ [] →
        (∀ c ∈ source.toList, c.isDigit = true) →
        Lexed.Clean limit' source →
          let n := numeral 10 source.toList
          n < 2 ^ 64 ∧ Lexed.lexemes (Lexed.ofText limit' source) =
            [.integer (UInt64.ofNat n), .endOfText] ∧
            Denotes limit' source (.int (Int64.ofNat n)) := by
  refine ⟨denotes_text_int v hlimit, cast_cast_int v,
    fun limit' source hne hdigits hclean => ?_⟩
  have hall := Lexed.ofText_eq_all limit' source fun c hc =>
    (starts_of_isDigit (hdigits c hc)).2.2.2
  rw [Lexed.Clean, hall] at hclean
  obtain ⟨hlength, hvalue⟩ := Lexed.fits_of_all_digits hne hdigits hclean
  have hlexemes := (Lexed.ofText_digits hne hdigits hlength hvalue).2
  exact ⟨hvalue, hlexemes, denotes_digits limit' source hne hdigits hlength hvalue⟩

/-- The least integer, whose magnitude is no integer, and the largest literal, which
is minus one. -/
theorem leastInteger_readBack :
    let least := Int64.ofInt (-0x8000000000000000)
    let largest := "018446744073709551615"
    (Value.int least).text = "-9223372036854775808" ∧
      Denotes 19 "-9223372036854775808" (.int least) ∧
      ((Value.int least).cast .string >>= fun text => text.cast .int) =
        .ok (.int least) ∧
      Lexed.Clean 21 largest ∧ Denotes 21 largest (.int (-1)) := by
  intro least largest
  have htext : (Value.int least).text = "-9223372036854775808" := by decide +kernel
  have hclean : Lexed.Clean 21 largest := by decide +kernel
  obtain ⟨hdenotes, hcast, hdigits⟩ := int_readBack least (Nat.le_refl 19)
  obtain ⟨_, _, hlargest⟩ :=
    hdigits 21 largest (by decide +kernel)
      (List.all_eq_true.mp (by decide +kernel)) hclean
  have hminus : Int64.ofNat (numeral 10 largest.toList) = -1 := by decide +kernel
  rw [htext] at hdenotes
  rw [hminus] at hlargest
  exact ⟨htext, hdenotes, hcast, hclean, hlargest⟩

end Value

end ScriptLang
