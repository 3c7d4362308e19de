import ScriptLang.Source.Cursor

/-!
# The scanner

A `Scanner` reads a raw text once, from left to right.  It holds the logical
character at its place and the one behind it, so it has always read up to two
logical characters more than it has passed.  `Glyph.read` takes the next one off the
raw text, with both raw characters of a long line break.

`Scanner.cursor` is what a scanner has still to pass: the two characters that it
holds, and what the rest of the raw text amounts to.  Every operation of a scanner
is one of that cursor (`Scanner.cursor_ofText`, `Scanner.cursor_advance`,
`Scanner.current?_cursor`, `Scanner.next?_cursor`).
-/

namespace ScriptLang

/-- A scanner at a place of a raw text.  Where it holds no character, there is none
any more. -/
structure Scanner where
  /-- The raw text that has not been read yet. -/
  source : List Char
  /-- The character at the place of the scanner. -/
  current : Option Glyph
  /-- The character behind it. -/
  next : Option Glyph
  position : Position
  next_none : current = none → next = none
  source_nil : next = none → source = []

namespace Scanner

/-- The scanner at the beginning of a text. -/
def ofText (text : String) : Scanner where
  source := (Glyph.read (Glyph.read text.toList).2).2
  current := (Glyph.read text.toList).1
  next := (Glyph.read (Glyph.read text.toList).2).1
  position := Position.start
  next_none h := by rw [Glyph.read_eq_none h]; rfl
  source_nil h := by rw [Glyph.read_eq_none h]; rfl

/-- The character at the place of the scanner, if there is one. -/
def current? (s : Scanner) : Option Char := s.current.map Glyph.char

/-- The character behind it, if there is one. -/
def next? (s : Scanner) : Option Char := s.next.map Glyph.char

/-- Whether the text has ended. -/
def atEnd (s : Scanner) : Bool := s.current.isNone

/-- Moves on to the next logical character, and does nothing at the end of the
text. -/
def advance (s : Scanner) : Scanner :=
  match s.current with
  | none => s
  | some g =>
    { source := (Glyph.read s.source).2
      current := s.next
      next := (Glyph.read s.source).1
      position := s.position.after g
      next_none := fun h => by rw [s.source_nil h]; rfl
      source_nil := fun h => by rw [Glyph.read_eq_none h]; rfl }

/-- What a scanner has still to pass, from its place on. -/
def cursor (s : Scanner) : Cursor :=
  ⟨s.position, s.current.toList ++ (s.next.toList ++ Glyph.ofChars s.source)⟩

/-- The number of logical characters that a scanner has still to pass. -/
def remaining (s : Scanner) : Nat := s.cursor.rest.length

/-- At the beginning of a text, the scanner stands where the cursor does. -/
theorem cursor_ofText (text : String) :
    (ofText text).cursor = Cursor.ofText text := by
  unfold cursor ofText Cursor.ofText
  dsimp only
  rw [← Glyph.ofChars_eq_read, ← Glyph.ofChars_eq_read]

@[simp] theorem position_cursor (s : Scanner) : s.cursor.position = s.position :=
  rfl

/-- The scanner and its cursor see the same character. -/
@[simp] theorem current?_cursor (s : Scanner) : s.cursor.current? = s.current? := by
  obtain ⟨source, _ | g, next, here, hnext, hsource⟩ := s
  · obtain rfl := hnext rfl
    obtain rfl := hsource rfl
    rfl
  · rfl

/-- The character that the scanner has read ahead is the second one of its
cursor. -/
@[simp] theorem next?_cursor (s : Scanner) : s.cursor.next? = s.next? := by
  obtain ⟨source, _ | g, _ | g', here, hnext, hsource⟩ := s
  · obtain rfl := hsource rfl
    rfl
  · exact nomatch hnext rfl
  · obtain rfl := hsource rfl
    rfl
  · rfl

/-- A step of the scanner is a step of its cursor: what it reads from the raw text
is the character that comes next after the two it holds. -/
@[simp] theorem cursor_advance (s : Scanner) :
    s.advance.cursor = s.cursor.advance := by
  obtain ⟨source, _ | g, next, here, hnext, hsource⟩ := s
  · obtain rfl := hnext rfl
    obtain rfl := hsource rfl
    rfl
  · show Cursor.mk (here.after g) (next.toList ++
      ((Glyph.read source).1.toList ++ Glyph.ofChars (Glyph.read source).2)) = _
    rw [← Glyph.ofChars_eq_read]
    rfl

/-- The scanner and its cursor come to the end of the text together. -/
theorem atEnd_cursor (s : Scanner) : s.cursor.atEnd = s.atEnd := by
  obtain ⟨source, _ | g, next, here, hnext, hsource⟩ := s
  · obtain rfl := hnext rfl
    obtain rfl := hsource rfl
    rfl
  · rfl

/-- A step that passes a character leaves fewer of them. -/
theorem remaining_advance_lt {s : Scanner} {c : Char} (h : s.current? = some c) :
    s.advance.remaining < s.remaining := by
  unfold remaining
  rw [cursor_advance]
  exact Cursor.advance_length_lt ((current?_cursor s).trans h)

/-- A step never goes back. -/
theorem remaining_advance_le (s : Scanner) : s.advance.remaining ≤ s.remaining := by
  unfold remaining
  rw [cursor_advance]
  exact Cursor.advance_length_le s.cursor

end Scanner

end ScriptLang
