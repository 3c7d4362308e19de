import ScriptLang.Proofs.Source.LineBreaks
import ScriptLang.Proofs.Token.Limits
import ScriptLang.Proofs.Token.Lines

/-!
# Strings as literals

Every string can be written as a literal.  The two characters that mean something
inside a literal are escaped, and so are the line breaks, which a text does not keep
apart; everything else stands for itself.  U+2028 has no escape sequence of one
letter and takes a character code, with all four digits, so that no digit behind it
can join them.

`bodyRun_spelled` finds the end of such a literal and `decode_spelled` its content,
both by induction on the string.
-/

namespace ScriptLang

/-- How a character is written inside a literal. -/
def Character.spelled : Char → List Char
  | '\\' => ['\\', '\\']
  | '"' => ['\\', '"']
  | '\n' => ['\\', 'n']
  | '\r' => ['\\', 'r']
  | '\u2028' => ['\\', 'x', '2', '0', '2', '8']
  | c => [c]

/-- The literal of a string. -/
def quotation (s : String) : String :=
  String.ofList ('"' :: s.toList.flatMap Character.spelled ++ ['"'])

namespace Character

/-- A character is written as itself, or as an escape sequence of one letter, or as
its code. -/
theorem spelled_cases (c : Char) :
    (spelled c = [c] ∧ c ≠ '\\' ∧ c ≠ '"' ∧ Glyph.isLineBreak c = false) ∨
      (∃ e, spelled c = ['\\', e] ∧ e ≠ 'x' ∧ escape? e = some c ∧
        Glyph.isLineBreak e = false) ∨
      (spelled c = ['\\', 'x', '2', '0', '2', '8'] ∧ c = '\u2028') := by
  unfold spelled
  split
  · exact .inr (.inl ⟨'\\', rfl, by decide, rfl, rfl⟩)
  · exact .inr (.inl ⟨'"', rfl, by decide, rfl, rfl⟩)
  · exact .inr (.inl ⟨'n', rfl, by decide, rfl, rfl⟩)
  · exact .inr (.inl ⟨'r', rfl, by decide, rfl, rfl⟩)
  · exact .inr (.inr ⟨rfl, rfl⟩)
  · rename_i hbackslash hquote hlf hcr hls
    refine .inl ⟨rfl, hbackslash, hquote, ?_⟩
    simp only [Glyph.isLineBreak, Bool.or_eq_false_iff, beq_eq_false_iff_ne]
    exact ⟨⟨hlf, hcr⟩, hls⟩

/-- No line break is left. -/
theorem not_isLineBreak_spelled {c x : Char} (hx : x ∈ spelled c) :
    Glyph.isLineBreak x = false := by
  rcases spelled_cases c with ⟨hspelled, _, _, hbreak⟩ | ⟨e, hspelled, _, _,
    hbreak⟩ | ⟨hspelled, _⟩ <;>
    rw [hspelled] at hx
  · rwa [List.mem_singleton.mp hx]
  · rcases List.mem_cons.mp hx with rfl | hx
    · rfl
    · rwa [List.mem_singleton.mp hx]
  · have hall : (['\\', 'x', '2', '0', '2', '8'].all fun x =>
      !Glyph.isLineBreak x) = true := by decide
    simpa using List.all_eq_true.mp hall x hx

end Character

open Glyph

/-! ## The end of a literal -/

/-- The reader of a literal passes a character with everything it is written
with. -/
theorem bodyRun_spelled_append (c : Char) (here : Position) (rest : List Glyph) :
    let glyphs := plain (Character.spelled c)
    bodyRun false here (glyphs ++ rest) =
      { bodyRun false (here.behind glyphs) rest with
        body :=
          placed here glyphs ++ (bodyRun false (here.behind glyphs) rest).body
              } := by
  intro glyphs
  rcases Character.spelled_cases c with
    ⟨hspelled, hbackslash, hquote, _⟩ | ⟨e, hspelled, _, _, _⟩ | ⟨hspelled, _⟩
  · simp [glyphs, plain, hspelled, bodyRun, beq_eq_false_iff_ne.mpr hbackslash,
      hquote, placed, Position.behind]
  · simp [glyphs, plain, hspelled, bodyRun, placed, Position.behind]
  · simp [glyphs, plain, hspelled, bodyRun, placed, Position.behind]

/-- A literal ends at the quote behind the characters of the string. -/
theorem bodyRun_spelled (s : List Char) (here : Position) (rest : List Glyph) :
    let glyphs := plain (s.flatMap Character.spelled)
    bodyRun false here (glyphs ++ ⟨'"', 1⟩ :: rest) =
      ⟨placed here glyphs, here.behind glyphs, true,
        ⟨(here.behind glyphs).after ⟨'"', 1⟩, rest⟩⟩ := by
  intro glyphs
  induction s generalizing here with
  | nil => rfl
  | cons c s ih =>
      have hglyphs : glyphs = plain (Character.spelled c) ++
          plain (s.flatMap Character.spelled) := by
        simp [glyphs, plain]
      have hbehind : here.behind glyphs =
        (here.behind (plain (Character.spelled c))).behind
          (plain (s.flatMap Character.spelled)) := by
        rw [hglyphs]
        exact List.foldl_append
      rw [hbehind, hglyphs, List.append_assoc, bodyRun_spelled_append, ih,
        placed_append]

/-! ## The content of a literal -/

/-- The content of a character and what follows it, without a warning. -/
theorem decode_spelled_append (finish : Position) (c : Char) (here : Position)
    (items : List Placed) :
    ∃ place, decode finish (placed here (plain (Character.spelled c)) ++ items) =
      (⟨c, place⟩ :: (decode finish items).1, (decode finish items).2) := by
  rcases Character.spelled_cases c with
    ⟨hspelled, hbackslash, _, _⟩ | ⟨e, hspelled, hx, hescape, _⟩ | ⟨hspelled, hcode⟩
  · rw [hspelled]
    exact ⟨here, decode_cons finish hbackslash items⟩
  · rw [hspelled]
    refine ⟨placeOf finish items, ?_⟩
    simp [plain, placed, decode, hx, hescape]
  · rw [hspelled, hcode]
    refine ⟨placeOf finish items, ?_⟩
    have htwo : Character.digit? 16 '2' = some 2 := by decide
    have hzero : Character.digit? 16 '0' = some 0 := by decide
    have height : Character.digit? 16 '8' = some 8 := by decide
    have hchar : charOfCode 0x2028 = '\u2028' := by decide
    -- The code has its four digits, so whatever stands behind them is not asked.
    simp [plain, placed, decode, Character.isDigitOf, htwo, hzero, height, hchar]

/-- A string that is spelled out stands for itself, and nothing is odd about it. -/
theorem decode_spelled (finish : Position) (s : List Char) (here : Position) :
    (decode finish (placed here (plain (s.flatMap Character.spelled)))).1.map
      Placed.char = s ∧
      (decode finish (placed here (plain (s.flatMap Character.spelled)))).2 =
        [] := by
  induction s generalizing here with
  | nil => simp [plain, placed, decode]
  | cons c s ih =>
      have hglyphs : plain ((c :: s).flatMap Character.spelled) =
          plain (Character.spelled c) ++ plain (s.flatMap Character.spelled) := by
            simp [plain]
      obtain ⟨place, hdecode⟩ := decode_spelled_append finish c here
        (placed (here.behind (plain (Character.spelled c)))
          (plain (s.flatMap Character.spelled)))
      obtain ⟨hcontent, hwarnings⟩ := ih (here.behind (plain (Character.spelled c)))
      rw [hglyphs, placed_append, hdecode]
      exact ⟨congrArg (c :: ·) hcontent, hwarnings⟩

/-! ## Literals -/

theorem toList_quotation (s : String) :
    (quotation s).toList = '"' :: s.toList.flatMap Character.spelled ++ ['"'] :=
  String.toList_ofList

/-- The logical text of a literal is its raw text. -/
theorem ofChars_quotation (s : String) :
    Glyph.ofChars (quotation s).toList = plain (quotation s).toList := by
  refine ofChars_eq_plain fun x hx => ?_
  rw [toList_quotation] at hx
  rcases List.mem_append.mp hx with hx | hx
  · rcases List.mem_cons.mp hx with rfl | hx
    · rfl
    · obtain ⟨c, _, hx⟩ := List.mem_flatMap.mp hx
      exact Character.not_isLineBreak_spelled hx
  · rw [List.mem_singleton.mp hx]
    rfl

/-- A literal is read as the string that it was written for, wherever it stands. -/
theorem readString_quotation {limit : Nat} {s : String} (h : s.length ≤ limit)
    (here : Position) (rest : List Glyph) :
    let literal := plain (quotation s).toList
    readString limit ⟨here, literal ++ rest⟩ =
      { lexeme := .string s
        errors := []
        behind := ⟨here.behind literal, rest⟩ } := by
  intro literal
  let quote : Glyph := ⟨'"', 1⟩
  let body := plain (s.toList.flatMap Character.spelled)
  have hliteral : literal = quote :: (body ++ [quote]) := by
    simp [literal, toList_quotation, plain, quote, body]
  have hbehind : here.behind literal =
      ((here.after quote).behind body).after quote := by
    rw [hliteral]
    exact List.foldl_append
  have hrun : bodyRun false (here.after quote) (body ++ quote :: rest) =
      ⟨placed (here.after quote) body, (here.after quote).behind body, true,
        ⟨here.behind literal, rest⟩⟩ := by
    rw [hbehind]
    exact bodyRun_spelled s.toList (here.after quote) rest
  let items :=
    (decode ((here.after quote).behind body) (placed (here.after quote) body)).1
  obtain ⟨hchars, hwarnings⟩ :=
    decode_spelled ((here.after quote).behind body) s.toList (here.after quote)
  have hlength : items.length ≤ limit := by
    rw [← List.length_map (f := Placed.char), hchars]
    exact h
  have hcontent : content limit items = s := by
    rw [content_of_length_le hlength, hchars, String.ofList_toList]
  have hrest : literal ++ rest = quote :: (body ++ quote :: rest) := by
    simp [hliteral]
  unfold readString
  rw [hrest]
  dsimp only [Cursor.advance]
  rw [hrun]
  dsimp only
  rw [hwarnings, overrun_eq_nil_iff.mpr hlength, hcontent]
  rfl

namespace Lexed

/-- The literal of a string that the limit has room for is read as that string, with
nothing to remark, and is all there is in the text. -/
theorem ofText_quotation (limit : Nat) (s : String) (h : s.length ≤ limit) :
    ofText limit (quotation s) =
      [⟨⟨.string s, ⟨.start, .extent (quotation s)⟩⟩, ⟨none, []⟩⟩,
        endAt (.extent (quotation s))] := by
  have hcursor : Cursor.ofText (quotation s) =
      ⟨.start, plain (quotation s).toList ++ []⟩ := by
    rw [Cursor.ofText, ofChars_quotation, List.append_nil]
  have hfirst : (Cursor.ofText (quotation s)).current? = some '"' := by
    rw [hcursor, toList_quotation]
    rfl
  have hread : readFrom limit '"' (Cursor.ofText (quotation s)) =
      { lexeme := .string s
        errors := []
        behind := ⟨.extent (quotation s), []⟩ } := by
    have hextent : Position.extent (quotation s) =
        Position.start.behind (plain (quotation s).toList) := by
      rw [Position.extent, ofChars_quotation]
    rw [hextent, hcursor, readFrom_quote, readString_quotation h]
  have hnext := next_of_current limit hfirst (by decide)
  have hstart : (Cursor.ofText (quotation s)).position = .start := rfl
  rw [hread, hstart, List.head?_nil] at hnext
  rw [ofText, all_of_ne (by rw [hnext]; simp), hnext, all_nil]

/-- A string with everything in it that has to be escaped, and with a digit behind
the character that takes a code. -/
theorem raggedString_quoted :
    let s := "\t\"\\\n\r\u2028f0\x00é"
    s.length ≤ 10 ∧ quotation s = "\"\t\\\"\\\\\\n\\r\\x2028f0\x00é\"" ∧
      ofText 10 (quotation s) =
        [⟨⟨.string s, ⟨.start, .extent (quotation s)⟩⟩, ⟨none, []⟩⟩,
          endAt (.extent (quotation s))] := by
  intro s
  have hlength : s.length ≤ 10 := by decide +kernel
  exact ⟨hlength, by decide +kernel, ofText_quotation 10 s hlength⟩

end Lexed

end ScriptLang
