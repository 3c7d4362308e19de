import ScriptLang.Source.Position

/-!
# The logical text and a cursor on it

Five raw sequences mean a line break: CR LF, LF CR, LF, CR and U+2028.
`Glyph.ofChars` reads a raw text from left to right, the two-character breaks first,
into its logical characters; each remembers how many raw characters it stands for.
A `Cursor` walks over the logical text and knows its place.

`Cursor.run` is the one loop of the module: the longest run of characters in a
class, each with its place, and the cursor behind it.  `run_length_add` says that
nothing is lost on the way.
-/

namespace ScriptLang

/-- A logical character, and the number of raw characters it stands for. -/
structure Glyph where
  char : Char
  width : Nat
deriving DecidableEq, Repr

namespace Glyph

/-- The single raw characters that mean a line break. -/
def isLineBreak (c : Char) : Bool := c == '\n' || c == '\r' || c == '\u2028'

/-- The logical characters of a raw text. -/
def ofChars : List Char → List Glyph
  | [] => []
  | '\r' :: '\n' :: rest => ⟨'\n', 2⟩ :: ofChars rest
  | '\n' :: '\r' :: rest => ⟨'\n', 2⟩ :: ofChars rest
  | c :: rest => ⟨if isLineBreak c then '\n' else c, 1⟩ :: ofChars rest

/-- A line break that has begun, and the rest of the raw text.  The second raw
character of a long line break belongs to it. -/
def finishBreak (second : Char) (source : List Char) : Option Glyph × List Char :=
  if source.head? = some second then (some ⟨'\n', 2⟩, source.tail)
  else (some ⟨'\n', 1⟩, source)

/-- Takes one logical character off a raw text. -/
def read : List Char → Option Glyph × List Char
  | [] => (none, [])
  | c :: source =>
    if c = '\r' then finishBreak '\n' source
    else if c = '\n' then finishBreak '\r' source
    else if c = '\u2028' then (some ⟨'\n', 1⟩, source)
    else (some ⟨c, 1⟩, source)

/-- What is taken off a text that is not empty, by its first character. -/
theorem read_cons (c : Char) (source : List Char) :
    read (c :: source) =
      if c = '\r' then finishBreak '\n' source
      else if c = '\n' then finishBreak '\r' source
      else if c = '\u2028' then (some ⟨'\n', 1⟩, source)
      else (some ⟨c, 1⟩, source) := rfl

/-- A line break is a character, whether it is written with one or with two. -/
theorem finishBreak_ne_none (second : Char) (source : List Char) :
    (finishBreak second source).1 ≠ none := by
  unfold finishBreak
  split <;> simp

/-- Nothing is taken off the empty text only. -/
theorem read_eq_none {source : List Char} (h : (read source).1 = none) :
    source = [] := by
  cases source with
  | nil => rfl
  | cons c source =>
      rw [read_cons] at h
      split at h
      · exact absurd h (finishBreak_ne_none _ _)
      · split at h
        · exact absurd h (finishBreak_ne_none _ _)
        · split at h <;> simp at h

/-- A line break is written with one character if its second one does not follow. -/
theorem finishBreak_of_ne {second : Char} {source : List Char}
    (h : ∀ rest, source = second :: rest → False) :
    finishBreak second source = (some ⟨'\n', 1⟩, source) := by
  unfold finishBreak
  rw [if_neg]
  intro hhead
  cases source with
  | nil => simp at hhead
  | cons c rest => exact h rest (by simp_all)

/-- The logical characters of a raw text are those that are taken off it, one after
the other. -/
theorem ofChars_eq_read (source : List Char) :
    ofChars source =
      (read source).1.toList ++ ofChars (read source).2 := by
  fun_cases ofChars source with
  | case1 => rfl
  | case2 rest => rfl
  | case3 rest => rfl
  | case4 c rest hcr hlf =>
      rw [read_cons]
      by_cases hc : c = '\r'
      · rw [if_pos hc, finishBreak_of_ne fun rest' => hcr rest' hc]
        subst hc
        rfl
      · rw [if_neg hc]
        by_cases hc' : c = '\n'
        · rw [if_pos hc', finishBreak_of_ne fun rest' => hlf rest' hc']
          subst hc'
          rfl
        · rw [if_neg hc']
          by_cases hsep : c = '\u2028'
          · rw [if_pos hsep]
            subst hsep
            rfl
          · have hbreak : isLineBreak c = false := by
              simp [isLineBreak, hc, hc', hsep]
            rw [if_neg hsep, hbreak]
            rfl

end Glyph

/-- The place right after a glyph that stands at `p`. -/
def Position.after (p : Position) (g : Glyph) : Position :=
  if g.char = '\n' then ⟨p.offset + g.width, p.line + 1, 1⟩
  else ⟨p.offset + g.width, p.line, p.column + 1⟩

/-- A character and the place where it stands. -/
structure Placed where
  char : Char
  position : Position
deriving DecidableEq, Repr

/-- A place in the logical text, and all that follows it. -/
structure Cursor where
  position : Position
  rest : List Glyph
deriving DecidableEq, Repr

namespace Cursor

/-- The cursor at the beginning of a text. -/
def ofText (source : String) : Cursor :=
  ⟨Position.start, Glyph.ofChars source.toList⟩

/-- The character under the cursor, if there is one. -/
def current? (c : Cursor) : Option Char := c.rest.head?.map Glyph.char

/-- The character after the current one, if there is one. -/
def next? (c : Cursor) : Option Char := c.rest.tail.head?.map Glyph.char

/-- Whether the text has ended. -/
def atEnd (c : Cursor) : Bool := c.rest.isEmpty

/-- Moves on by one logical character, and stays where it is at the end of the
text. -/
def advance (c : Cursor) : Cursor :=
  match c.rest with
  | [] => c
  | g :: rest => ⟨c.position.after g, rest⟩

/-- Moves past every character of a class. -/
def skip (p : Char → Bool) (c : Cursor) : Cursor :=
  go c.position c.rest
where
  go : Position → List Glyph → Cursor
    | here, [] => ⟨here, []⟩
    | here, g :: rest =>
        if p g.char then go (here.after g) rest else ⟨here, g :: rest⟩

/-- The longest run of characters of a class at the cursor, and the cursor behind
the run. -/
def run (p : Char → Bool) (c : Cursor) : List Placed × Cursor :=
  go c.position c.rest
where
  go : Position → List Glyph → List Placed × Cursor
    | here, [] => ([], ⟨here, []⟩)
    | here, g :: rest =>
      if p g.char then
        let (taken, behind) := go (here.after g) rest
        (⟨g.char, here⟩ :: taken, behind)
      else ([], ⟨here, g :: rest⟩)

section Reading

variable {c : Cursor} {x : Char} {p : Char → Bool}

/-- What lies in front of a cursor that sees a character. -/
theorem exists_cons_of_current? (h : c.current? = some x) :
    ∃ g rest, c = ⟨c.position, g :: rest⟩ ∧ g.char = x ∧
      c.advance = ⟨c.position.after g, rest⟩ := by
  obtain ⟨here, _ | ⟨g, rest⟩⟩ := c
  · cases h
  · exact ⟨g, rest, rfl, Option.some.inj h, rfl⟩

/-- Where there is no character, the text has come to its end. -/
theorem rest_of_current?_none (h : c.current? = none) : c = ⟨c.position, []⟩ := by
  obtain ⟨here, _ | ⟨g, rest⟩⟩ := c
  · rfl
  · cases h

/-- The character after the current one becomes the current one. -/
theorem current?_advance (c : Cursor) : c.advance.current? = c.next? := by
  obtain ⟨here, _ | ⟨g, rest⟩⟩ := c <;> rfl

/-- At the end of the text there is nothing to run over. -/
theorem run_of_none (p : Char → Bool) (h : c.current? = none) :
    c.run p = ([], c) := by
  rw [rest_of_current?_none h]
  rfl

/-- A run goes on with a character of its class. -/
theorem run_of_pos (h : c.current? = some x) (hp : p x = true) :
    c.run p = (⟨x, c.position⟩ :: (c.advance.run p).1, (c.advance.run p).2) := by
  obtain ⟨g, rest, hc, rfl, hadvance⟩ := exists_cons_of_current? h
  rw [hadvance, hc]
  exact if_pos hp

/-- A run ends in front of any other character. -/
theorem run_of_neg (h : c.current? = some x) (hp : p x = false) :
    c.run p = ([], c) := by
  obtain ⟨g, rest, hc, rfl, _⟩ := exists_cons_of_current? h
  rw [hc]
  exact if_neg (Bool.eq_false_iff.mp hp)

/-- At the end of the text there is nothing to skip. -/
theorem skip_of_none (p : Char → Bool) (h : c.current? = none) : c.skip p = c := by
  rw [rest_of_current?_none h]
  rfl

/-- A character of the class is skipped, and skipping goes on behind it. -/
theorem skip_of_pos (h : c.current? = some x) (hp : p x = true) :
    c.skip p = c.advance.skip p := by
  obtain ⟨g, rest, hc, rfl, hadvance⟩ := exists_cons_of_current? h
  rw [hadvance, hc]
  exact if_pos hp

/-- Skipping stops at a character that is not of the class. -/
theorem skip_of_neg (h : c.current? = some x)
    (hp : p x = false) : c.skip p = c := by
  obtain ⟨g, rest, hc, rfl, _⟩ := exists_cons_of_current? h
  rw [hc]
  exact if_neg (Bool.eq_false_iff.mp hp)

end Reading

theorem advance_length (c : Cursor) :
    c.advance.rest.length = c.rest.length - 1 := by
  unfold advance
  split <;> simp_all

/-- Skipping never goes back. -/
theorem skip_length_le (p : Char → Bool) (c : Cursor) :
    (c.skip p).rest.length ≤ c.rest.length := by
  have h : ∀ (rest : List Glyph) (here : Position),
      (skip.go p here rest).rest.length ≤ rest.length := by
    intro rest
    induction rest with
    | nil => intro here; simp [skip.go]
    | cons g rest ih =>
        intro here
        unfold skip.go
        split
        · exact Nat.le_succ_of_le (ih _)
        · exact Nat.le_refl _
  exact h c.rest c.position

/-- A run and what stands behind it make up the text again. -/
theorem run_length_add (p : Char → Bool) (c : Cursor) :
    (c.run p).1.length + (c.run p).2.rest.length = c.rest.length := by
  have h : ∀ (rest : List Glyph) (here : Position),
      (run.go p here rest).1.length + (run.go p here rest).2.rest.length =
        rest.length := by
    intro rest
    induction rest with
    | nil => intro here; simp [run.go]
    | cons g rest ih =>
        intro here
        unfold run.go
        split
        · simp only [List.length_cons]
          have := ih (here.after g)
          omega
        · simp
  exact h c.rest c.position

/-- A run never goes back. -/
theorem run_length_le (p : Char → Bool) (c : Cursor) :
    (c.run p).2.rest.length ≤ c.rest.length := by
  have := c.run_length_add p
  omega

/-- A run that takes the character at the cursor leaves less than there was. -/
theorem run_length_lt {p : Char → Bool} {c : Cursor} {first : Char}
    (h : c.current? = some first) (hp : p first = true) :
    (c.run p).2.rest.length < c.rest.length := by
  obtain ⟨here, rest⟩ := c
  cases rest with
  | nil => simp [Cursor.current?] at h
  | cons g rest =>
      simp only [Cursor.current?, List.head?_cons, Option.map_some,
        Option.some.injEq] at h
      have := run_length_le p ⟨here.after g, rest⟩
      simp only [Cursor.run, Cursor.run.go, h, hp, if_true] at this ⊢
      exact Nat.lt_succ_of_le this

/-- A step that passes a character leaves fewer of them. -/
theorem advance_length_lt {c : Cursor} {first : Char}
    (h : c.current? = some first) :
    c.advance.rest.length < c.rest.length := by
  obtain ⟨here, rest⟩ := c
  cases rest with
  | nil => simp [Cursor.current?] at h
  | cons g rest => simp [Cursor.advance]

theorem advance_length_le (c : Cursor) : c.advance.rest.length ≤ c.rest.length := by
  have := c.advance_length
  omega

end Cursor

end ScriptLang
