import ScriptLang.Character.Classes
import ScriptLang.Source.Cursor
import ScriptLang.Token.Basic

/-!
# String literals

A string literal is described by two functions.  `bodyRun` says where it ends: at
the first quote that no backslash takes away.  `decode` says which characters those
between the quotes stand for.  The lexer looks for the quote and takes escape
sequences apart in one loop, `Draft.keepString`, and it gives both
(`Draft.keepString_keeps`).
-/

namespace ScriptLang

/-- The extent of a literal behind its opening quote: the characters of its body,
the place right after them, whether a closing quote follows there, and the cursor
behind the literal. -/
structure BodyRun where
  body : List Placed
  finish : Position
  closed : Bool
  behind : Cursor
deriving Repr

/-- Finds the end of a literal.  The flag says that the character at the cursor
belongs to an escape sequence. -/
def bodyRun : Bool → Position → List Glyph → BodyRun
  | _, here, [] => ⟨[], here, false, ⟨here, []⟩⟩
  | escaped, here, g :: rest =>
    if !escaped && g.char == '"' then ⟨[], here, true, ⟨here.after g, rest⟩⟩
    else
      let run := bodyRun (!escaped && g.char == '\\') (here.after g) rest
      { run with body := ⟨g.char, here⟩ :: run.body }

/-- The character of an escape sequence of one letter. -/
def escape? : Char → Option Char
  | 'a' => some '\x07'
  | 'b' => some '\x08'
  | 'f' => some '\x0c'
  | 'n' => some '\n'
  | 'r' => some '\r'
  | 't' => some '\t'
  | 'v' => some '\x0b'
  | '\\' => some '\\'
  | '"' => some '"'
  | '0' => some '\x00'
  | _ => none

/-- The character with a 16-bit code; half of a surrogate pair is no character. -/
def charOfCode (code : Nat) : Char :=
  if code.isValidChar then Char.ofNat code else '\ufffd'

/-- The place of the first of the remaining characters. -/
def placeOf (finish : Position) : List Placed → Position
  | [] => finish
  | p :: _ => p.position

/-- The characters that the body of a literal stands for.  A character keeps its
place, and an escape sequence has the place right after it. -/
def decode (finish : Position) (body : List Placed) :
    List Placed × List (Located LexicalWarning) :=
  match body with
  | [] => ([], [])
  | [p] => if p.char = '\\' then ([], []) else ([p], [])
  | p :: e :: rest =>
    if p.char ≠ '\\' then
      let (items, warnings) := decode finish (e :: rest)
      (p :: items, warnings)
    else if e.char = 'x' then
      let digits := (rest.takeWhile fun d => Character.isDigitOf 16 d.char).take 4
      let behind := rest.drop digits.length
      let code :=
        digits.foldl (fun n d => n * 16 + (Character.digit? 16 d.char).getD 0) 0
      let (items, warnings) := decode finish behind
      (⟨charOfCode code, placeOf finish behind⟩ :: items,
        if digits.isEmpty then ⟨.missingCharCode, placeOf finish rest⟩ :: warnings
        else warnings)
    else
      let (items, warnings) := decode finish rest
      match escape? e.char with
      | some c => (⟨c, placeOf finish rest⟩ :: items, warnings)
      | none =>
        (⟨e.char, placeOf finish rest⟩ :: items,
          ⟨.unknownEscape e.char, e.position⟩ :: warnings)
termination_by body.length
decreasing_by all_goals simp only [List.length_cons, List.length_drop]; omega

theorem decode_nil (finish : Position) : decode finish [] = ([], []) := by
  rw [decode]

/-- A character that is no backslash stands for itself. -/
theorem decode_cons (finish : Position) {p : Placed} (hp : p.char ≠ '\\')
    (items : List Placed) :
    decode finish (p :: items) =
      (p :: (decode finish items).1, (decode finish items).2) := by
  cases items with
  | nil => simp only [decode, if_neg hp]
  | cons e items =>
      rw [decode]
      exact if_pos hp

/-- A backslash that ends a text stands for nothing. -/
theorem decode_lone (finish : Position) {p : Placed} (hp : p.char = '\\') :
    decode finish [p] = ([], []) := by
  simp only [decode, if_pos hp]

/-- An escape sequence of one letter. -/
theorem decode_letter (finish : Position) {p e : Placed} (hp : p.char = '\\')
    (he : e.char ≠ 'x') (items : List Placed) :
    decode finish (p :: e :: items) =
      (⟨(escape? e.char).getD e.char, placeOf finish items⟩ ::
        (decode finish items).1,
        (if (escape? e.char).isSome then []
          else [⟨.unknownEscape e.char, e.position⟩]) ++
          (decode finish items).2) := by
  rw [decode, if_neg (not_not_intro hp), if_neg he]
  cases escape? e.char <;> rfl

/-- An escape sequence with the code of a character. -/
theorem decode_code (finish : Position) {p e : Placed} (hp : p.char = '\\')
    (he : e.char = 'x') (items : List Placed) :
    decode finish (p :: e :: items) =
      let digits := (items.takeWhile fun d => Character.isDigitOf 16 d.char).take 4
      let behind := items.drop digits.length
      let code :=
        digits.foldl (fun n d => n * 16 + (Character.digit? 16 d.char).getD 0) 0
      (⟨charOfCode code, placeOf finish behind⟩ :: (decode finish behind).1,
        (if digits.isEmpty then [⟨.missingCharCode, placeOf finish items⟩]
          else []) ++
          (decode finish behind).2) := by
  rw [decode, if_neg (not_not_intro hp), if_pos he]
  dsimp only
  split <;> rfl

/-- The end of a literal is not before its beginning. -/
theorem bodyRun_length_le (escaped : Bool) (here : Position) (rest : List Glyph) :
    (bodyRun escaped here rest).behind.rest.length ≤ rest.length := by
  induction rest generalizing escaped here with
  | nil => simp [bodyRun]
  | cons g rest ih =>
      unfold bodyRun
      split
      · simp
      · exact Nat.le_succ_of_le (ih _ _)

end ScriptLang
