/-!
# Places in a source text

A `Position` names a place in a text three ways at once: by the raw characters
before it, and by the line and column a reader sees.  The two disagree on purpose: a
line break written with two raw characters moves the offset by two and the line by
one.

A `Span` is the stretch between two positions.  Spans are joined by taking the
earlier start and the later end, so a join covers both of its parts.
-/

namespace ScriptLang

/-- A place in a source text.  The offset counts raw characters from zero; line and
column count logical characters from one. -/
structure Position where
  offset : Nat
  line : Nat
  column : Nat
deriving DecidableEq, Repr

namespace Position

/-- The place of the first character of every text. -/
def start : Position := ⟨0, 1, 1⟩

instance : Inhabited Position := ⟨start⟩

/-- Positions are ordered by offset, then line, then column. -/
def order (a b : Position) : Ordering :=
  (compare a.offset b.offset).then
    ((compare a.line b.line).then (compare a.column b.column))

instance : Ord Position := ⟨order⟩

/-- The earlier of two positions. -/
def earlier (a b : Position) : Position := if a.order b = .gt then b else a

/-- The later of two positions. -/
def later (a b : Position) : Position := if a.order b = .gt then a else b

/-- How a position is written in messages: `line:column`. -/
def text (p : Position) : String := toString p.line ++ ":" ++ toString p.column

end Position

/-- The stretch of text from `start` up to, and not including, `stop`. -/
structure Span where
  start : Position
  stop : Position
deriving DecidableEq, Repr

namespace Span

/-- The empty span at a position. -/
def point (p : Position) : Span := ⟨p, p⟩

instance : Inhabited Span := ⟨Span.point Position.start⟩

/-- The smallest span that covers both. -/
def join (a b : Span) : Span := ⟨a.start.earlier b.start, a.stop.later b.stop⟩

/-- The number of raw characters covered. -/
def width (s : Span) : Nat := s.stop.offset - s.start.offset

/-- Whether no raw character is covered. -/
def isEmpty (s : Span) : Bool := s.start.offset == s.stop.offset

end Span

/-- Something that was noticed at a place in the text. -/
structure Located (α : Type) where
  what : α
  position : Position
deriving DecidableEq, Repr

end ScriptLang
