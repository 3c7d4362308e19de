import ScriptLang.Proofs.Token.Locality

/-!
# Where tokens end

Readers decide where a token ends by looking at one or two characters behind it.
Whatever they find there, a line break would have been as good: no symbol, word or
number goes on with one, and a string or a comment that is closed does not look
further.  So the text behind a token can be replaced by a line break and any other
text, and the token stays what it is.

`Cursor.broken n more` is a cursor in such a text: the last `n` characters have
become a line break, and `more` behind it.  The lemmas `_broken` say that a reader
which leaves those `n` characters alone does the same in both texts.
-/

namespace ScriptLang

variable {n : Nat} {more : List Glyph}

namespace Glyph

/-- A line break that is written with a line feed. -/
def lineFeed : Glyph := ⟨'\n', 1⟩

/-- Logical characters of which the last `n` are replaced by a line break and more
text. -/
def broken (n : Nat) (more glyphs : List Glyph) : List Glyph :=
  glyphs.take (glyphs.length - n) ++ lineFeed :: more

/-- The break comes behind a character that is followed by enough others. -/
theorem broken_cons {rest : List Glyph} (h : n ≤ rest.length) (g : Glyph) :
    broken n more (g :: rest) = g :: broken n more rest := by
  rw [broken, List.length_cons, Nat.succ_sub h, List.take_succ_cons,
    List.cons_append, broken]

/-- A text that is too short for a break begins with it. -/
theorem broken_of_length_le {glyphs : List Glyph} (h : glyphs.length ≤ n) :
    broken n more glyphs = lineFeed :: more := by
  rw [broken, Nat.sub_eq_zero_of_le h, List.take_zero, List.nil_append]

@[simp] theorem broken_nil (n : Nat) (more : List Glyph) :
    broken n more [] = lineFeed :: more :=
  broken_of_length_le (Nat.zero_le n)

end Glyph

open Glyph

namespace Cursor

/-- A cursor in a text whose last `n` characters are replaced by a line break and
more text. -/
def broken (n : Nat) (more : List Glyph) (c : Cursor) : Cursor :=
  ⟨c.position, Glyph.broken n more c.rest⟩

variable {c : Cursor} {p q : Char → Bool}

@[simp] theorem position_broken (n : Nat) (more : List Glyph) (c : Cursor) :
    (c.broken n more).position = c.position := rfl

@[simp] theorem rest_broken (n : Nat) (more : List Glyph) (c : Cursor) :
    (c.broken n more).rest = Glyph.broken n more c.rest := rfl

/-! ## Looking at a text with a line break in it -/

/-- Before the break, the same character is seen. -/
theorem current?_broken (h : n < c.rest.length) :
    (c.broken n more).current? = c.current? := by
  obtain ⟨here, _ | ⟨g, rest⟩⟩ := c
  · cases h
  · rw [current?, rest_broken, broken_cons (Nat.le_of_lt_succ h)]
    rfl

/-- At the break, there is a line feed. -/
theorem current?_broken_of_le (h : c.rest.length ≤ n) :
    (c.broken n more).current? = some '\n' := by
  rw [current?, rest_broken, broken_of_length_le h]
  rfl

/-- Before the break, both cursors go on together. -/
theorem advance_broken (h : n < c.rest.length) :
    (c.broken n more).advance = c.advance.broken n more := by
  obtain ⟨here, _ | ⟨g, rest⟩⟩ := c
  · cases h
  · rw [broken, broken_cons (Nat.le_of_lt_succ h)]
    rfl

/-- A test for two characters finds one of them. -/
theorem current?_of_either {x y : Char}
    (h : (c.current? == some x || c.current? == some y) = true) :
    ∃ z, c.current? = some z ∧ (z = x ∨ z = y) := by
  rcases Bool.or_eq_true_iff.mp h with hx | hy
  · exact ⟨x, eq_of_beq hx, .inl rfl⟩
  · exact ⟨y, eq_of_beq hy, .inr rfl⟩

/-- A look at the current character finds the same, if it would not be the line
break. -/
theorem current?_broken_beq {x : Char} (hx : x ≠ '\n')
    (h : c.current? = some x → n < c.rest.length) :
    ((c.broken n more).current? == some x) = (c.current? == some x) := by
  by_cases hn : n < c.rest.length
  · rw [current?_broken hn]
  · have hbreak : some '\n' ≠ some x := fun heq => hx (Option.some.inj heq).symm
    rw [current?_broken_of_le (Nat.not_lt.mp hn), beq_eq_false_iff_ne.mpr hbreak,
      beq_eq_false_iff_ne.mpr fun hcurrent => hn (h hcurrent)]

/-- A look at two characters finds the same, if neither of them would be the line
break. -/
theorem pair_broken {x : Char} (hx : x ≠ '\n') (hq : q '\n' = false)
    (h : (c.current? == some x && c.next?.any q) = true → n + 1 < c.rest.length) :
    ((c.broken n more).current? == some x && (c.broken n more).next?.any q) =
      (c.current? == some x && c.next?.any q) := by
  by_cases hn : n < c.rest.length
  · rw [current?_broken hn, ← current?_advance, ← current?_advance,
      advance_broken hn]
    by_cases hn' : n < c.advance.rest.length
    · rw [current?_broken hn']
    · have hfalse : (c.current? == some x && c.advance.current?.any q) = false := by
        rw [Bool.eq_false_iff, current?_advance]
        intro hpair
        have := c.advance_length
        have := h hpair
        omega
      rw [hfalse, current?_broken_of_le (Nat.not_lt.mp hn'), Option.any_some, hq,
        Bool.and_false]
  · have hbreak : some '\n' ≠ some x := fun heq => hx (Option.some.inj heq).symm
    have hfalse : (c.current? == some x && c.next?.any q) = false := by
      rw [Bool.eq_false_iff]
      intro hpair
      have := h hpair
      omega
    rw [hfalse, current?_broken_of_le (Nat.not_lt.mp hn),
      beq_eq_false_iff_ne.mpr hbreak, Bool.false_and]

/-- A run of a class without line feeds that ends before the break stays as it
is. -/
theorem run_broken (hp : p '\n' = false) (h : n ≤ (c.run p).2.rest.length) :
    (c.broken n more).run p = ((c.run p).1, (c.run p).2.broken n more) := by
  obtain ⟨here, rest⟩ := c
  have hstop : ∀ here : Position, run.go p here (lineFeed :: more) =
      ([], ⟨here, lineFeed :: more⟩) := by
    intro here
    rw [run.go, lineFeed, if_neg (by simp [hp])]
  unfold run at h ⊢
  unfold broken
  dsimp only at h ⊢
  induction rest generalizing here with
  | nil =>
      rw [broken_nil, hstop, run.go, broken_nil]
  | cons g rest ih =>
      by_cases hg : p g.char = true
      · simp only [run.go, if_pos hg] at h ⊢
        have hle := Nat.le_trans h (run_length_le p ⟨here.after g, rest⟩)
        simp only [broken_cons hle, run.go, if_pos hg, ih (here.after g) h]
      · simp only [run.go, if_neg hg] at h ⊢
        rcases Nat.le_succ_iff.mp h with hle | hall
        · rw [broken_cons hle, run.go, if_neg hg]
        · have hle : (g :: rest).length ≤ n := Nat.le_of_eq hall.symm
          rw [broken_of_length_le hle, hstop]

end Cursor

open Cursor

variable {c : Cursor} {limit : Nat}

/-! ## The loops of the lexer -/

/-- No symbol goes on with a line break. -/
theorem not_isLive_lineFeed (text : List Char) :
    Symbol.isLive (text ++ ['\n']) = false := by
  have hspelling : ∀ s ∈ Symbol.spellings, '\n' ∉ s := by decide
  rw [Symbol.isLive, List.any_eq_false]
  intro s hs hbegins
  exact hspelling s hs ((List.isPrefixOf_iff_prefix.mp hbegins).subset (by simp))

/-- A symbol that ends before the break stays as it is. -/
theorem liveRun_broken (text : List Char) (here : Position) (rest : List Glyph)
    (h : n ≤ (liveRun text here rest).2.rest.length) :
    liveRun text here (Glyph.broken n more rest) =
      ((liveRun text here rest).1, (liveRun text here rest).2.broken n more) := by
  have hstop : ∀ text here, liveRun text here (lineFeed :: more) =
      (text, ⟨here, lineFeed :: more⟩) := by
    intro text here
    rw [liveRun, lineFeed, if_neg (by simp [not_isLive_lineFeed])]
  induction rest generalizing text here with
  | nil =>
      rw [broken_nil, hstop, liveRun, Cursor.broken, broken_nil]
  | cons g rest ih =>
      by_cases hlive : Symbol.isLive (text ++ [g.char]) = true
      · simp only [liveRun, if_pos hlive] at h ⊢
        have hle := Nat.le_trans h (liveRun_length_le _ _ _)
        simp only [broken_cons hle, liveRun, if_pos hlive, ih _ _ h]
      · simp only [liveRun, if_neg hlive] at h ⊢
        rcases Nat.le_succ_iff.mp h with hle | hall
        · rw [broken_cons hle, liveRun, if_neg hlive, Cursor.broken,
            broken_cons hle]
        · have hle : (g :: rest).length ≤ n := Nat.le_of_eq hall.symm
          rw [broken_of_length_le hle, hstop, Cursor.broken,
            broken_of_length_le hle]

/-- A comment that is closed takes its closer. -/
theorem commentRun_length_of_closed {here : Position} {rest : List Glyph}
    (h : (commentRun here rest).2.1 = true) :
    (commentRun here rest).2.2.rest.length + 2 ≤ rest.length := by
  fun_induction commentRun here rest with
  | case1 => cases h
  | case2 => cases h
  | case3 => simp
  | case4 here g k rest hclose body closed behind hrun ih =>
      rw [hrun] at ih
      have := ih h
      simp only [List.length_cons] at this ⊢
      omega

/-- A block comment that is closed before the break stays as it is. -/
theorem commentRun_broken {here : Position} {rest : List Glyph}
    (hclosed : (commentRun here rest).2.1 = true)
    (h : n ≤ (commentRun here rest).2.2.rest.length) :
    commentRun here (Glyph.broken n more rest) =
      ((commentRun here rest).1, true,
        (commentRun here rest).2.2.broken n more) := by
  fun_induction commentRun here rest with
  | case1 => cases hclosed
  | case2 => cases hclosed
  | case3 here g k rest hclose =>
      rw [broken_cons (Nat.le_succ_of_le h), broken_cons h, commentRun,
        if_pos hclose]
      rfl
  | case4 here g k rest hclose body closed behind hrun ih =>
      have hle : n ≤ rest.length := by
        have hlength : behind.rest.length + 2 ≤ (k :: rest).length := by
          have hinner := @commentRun_length_of_closed (here.after g) (k :: rest)
          rw [hrun] at hinner
          exact hinner hclosed
        rw [List.length_cons] at hlength
        dsimp only at h
        omega
      rw [hrun] at ih
      have hbehind := ih hclosed h
      rw [broken_cons hle] at hbehind
      rw [broken_cons (Nat.le_succ_of_le hle), broken_cons hle, commentRun,
        if_neg hclose, hbehind]

/-- The body of a string that is closed before the break stays as it is. -/
theorem bodyRun_broken {escaped : Bool} {here : Position} {rest : List Glyph}
    (hclosed : (bodyRun escaped here rest).closed = true)
    (h : n ≤ (bodyRun escaped here rest).behind.rest.length) :
    bodyRun escaped here (Glyph.broken n more rest) =
      { bodyRun escaped here rest with
        behind := (bodyRun escaped here rest).behind.broken n more } := by
  induction rest generalizing escaped here with
  | nil => cases hclosed
  | cons g rest ih =>
      by_cases hclose : (!escaped && g.char == '"') = true
      · simp only [bodyRun, if_pos hclose] at h ⊢
        rw [broken_cons h, bodyRun, if_pos hclose]
        rfl
      · simp only [bodyRun, if_neg hclose] at hclosed h ⊢
        rw [broken_cons (Nat.le_trans h (bodyRun_length_le _ _ _)), bodyRun,
          if_neg hclose, ih hclosed h]

/-! ## Numbers and words -/

/-- A reading in a text whose last `n` characters are replaced by a line break and
more text. -/
def Reading.broken (n : Nat) (more : List Glyph) (r : Reading) : Reading :=
  { r with behind := r.behind.broken n more }

theorem isDigitOf_lineFeed (radix : Nat) : Character.isDigitOf radix '\n' = false :=
  isDigitOf_eq_false radix (by decide)

/-- The mark of a number in another radix is a letter other than the one of an
exponent. -/
theorem startsWithRadix_eq (c : Cursor) :
    startsWithRadix c = (c.current? == some '0' &&
      c.next?.any fun mark => Character.isAlphabetic mark && mark != 'e' &&
        mark != 'E') := by
  unfold startsWithRadix
  cases c.next? <;> rfl

/-- The zero and the mark of a number in another radix are there. -/
theorem length_of_startsWithRadix (h : startsWithRadix c = true) :
    c.advance.advance.rest.length + 2 = c.rest.length := by
  rw [startsWithRadix_eq, Bool.and_eq_true] at h
  obtain ⟨here, _ | ⟨g, _ | ⟨k, rest⟩⟩⟩ := c
  · exact absurd h.1 (by simp [current?])
  · exact absurd h.2 (by simp [next?])
  · rfl

/-- A number with a mark that ends before the break stays as it is. -/
theorem readRadixNumber_broken (hradix : startsWithRadix c = true)
    (h : n ≤ (readRadixNumber limit c).behind.rest.length) :
    readRadixNumber limit (c.broken n more) =
      (readRadixNumber limit c).broken n more := by
  have hlength := length_of_startsWithRadix hradix
  have hrun : n ≤ c.advance.advance.rest.length :=
    Nat.le_trans h (run_length_le _ _)
  have hmark : n < c.advance.rest.length := by
    have := c.advance_length
    omega
  have hzero : n < c.rest.length := by omega
  unfold readRadixNumber at h ⊢
  simp only [advance_broken hzero, advance_broken hmark, current?_broken hmark,
    run_broken (isDigitOf_lineFeed _) h]
  rfl

/-- An exponent ends with its digits, whether it has any or not. -/
theorem readExponent_behind (c : Cursor) :
    (readExponent c).2.2 =
      ((if c.current? == some '-' || c.current? == some '+' then c.advance
      else c).run
      (Character.isDigitOf 10)).2 := by
  unfold readExponent
  dsimp only
  generalize (if c.current? == some '-' || c.current? == some '+' then c.advance
    else c) = unsigned
  split <;> rfl

/-- The digits of an exponent that end before the break stay as they are. -/
theorem readExponent_broken (h : n ≤ (readExponent c).2.2.rest.length) :
    readExponent (c.broken n more) =
      ((readExponent c).1, (readExponent c).2.1,
        (readExponent c).2.2.broken n more) := by
  rw [readExponent_behind] at h
  have hsigned : (c.current? == some '-' || c.current? == some '+') = true →
      n < c.rest.length := by
    intro hsign
    rw [if_pos hsign] at h
    obtain ⟨x, hx, -⟩ := current?_of_either hsign
    exact Nat.lt_of_le_of_lt (Nat.le_trans h (run_length_le _ _))
      (advance_length_lt hx)
  have hminus : ((c.broken n more).current? == some '-') =
      (c.current? == some '-') :=
    current?_broken_beq (by decide) fun hx => hsigned (by rw [hx]; rfl)
  have hplus : ((c.broken n more).current? == some '+') =
      (c.current? == some '+') :=
    current?_broken_beq (by decide) fun hx => hsigned (by rw [hx]; rfl)
  have hunsigned :
      (if c.current? == some '-' || c.current? == some '+' then
        (c.broken n more).advance
      else c.broken n more) =
        (if c.current? == some '-' || c.current? == some '+' then c.advance
        else c).broken n more := by
    split
    · exact advance_broken (hsigned ‹_›)
    · rfl
  unfold readExponent
  simp only [hminus, hplus]
  rw [hunsigned]
  generalize (if c.current? == some '-' || c.current? == some '+' then c.advance
    else c) = unsigned at h ⊢
  rw [run_broken (isDigitOf_lineFeed 10) h]
  split <;> rfl

/-- The digits behind a point that end before the break stay as they are. -/
theorem fractionRun_broken (h : n ≤ (fractionRun c).2.rest.length) :
    fractionRun (c.broken n more) =
      ((fractionRun c).1, (fractionRun c).2.broken n more) := by
  -- A fraction takes the point and at least one digit.
  have htaken : (c.current? == some '.' && c.next?.any (Character.isDigitOf 10)) =
    true →
      n + 1 < c.rest.length := by
    intro hpoint
    rw [fractionRun, if_pos hpoint] at h
    obtain ⟨-, hdigit⟩ := Bool.and_eq_true_iff.mp hpoint
    rw [← current?_advance] at hdigit
    cases hx : c.advance.current? with
    | none =>
        rw [hx] at hdigit
        cases hdigit
    | some x =>
        rw [hx] at hdigit
        have hlt := Nat.lt_of_le_of_lt h (run_length_lt hx hdigit)
        have := c.advance_length
        omega
  unfold fractionRun at h ⊢
  rw [pair_broken (by decide) (isDigitOf_lineFeed 10) htaken]
  by_cases hpoint : (c.current? == some '.' &&
    c.next?.any (Character.isDigitOf 10)) = true
  · simp only [if_pos hpoint] at h ⊢
    rw [advance_broken (Nat.lt_of_succ_lt (htaken hpoint)),
      run_broken (isDigitOf_lineFeed 10) h]
  · simp only [if_neg hpoint]

/-- An exponent that ends before the break stays as it is. -/
theorem exponentPart?_broken
    (h : ∀ part, exponentPart? c = some part → n ≤ part.2.2.rest.length) :
    exponentPart? (c.broken n more) =
      (exponentPart? c).map fun part =>
        (part.1, part.2.1, part.2.2.broken n more) := by
  unfold exponentPart? at h ⊢
  have hmarked : (c.current? == some 'e' || c.current? == some 'E') = true →
      n ≤ (readExponent c.advance).2.2.rest.length ∧ n < c.rest.length := by
    intro hmark
    have hle := h _ (if_pos hmark)
    obtain ⟨x, hx, -⟩ := current?_of_either hmark
    exact ⟨hle, Nat.lt_of_le_of_lt (Nat.le_trans hle (readExponent_length_le _))
      (advance_length_lt hx)⟩
  have hlower : ((c.broken n more).current? == some 'e') =
      (c.current? == some 'e') :=
    current?_broken_beq (by decide) fun hx => (hmarked (by rw [hx]; rfl)).2
  have hupper : ((c.broken n more).current? == some 'E') =
      (c.current? == some 'E') :=
    current?_broken_beq (by decide) fun hx => (hmarked (by rw [hx]; rfl)).2
  rw [hlower, hupper]
  split
  · obtain ⟨hle, hlt⟩ := hmarked ‹_›
    rw [advance_broken hlt, readExponent_broken hle]
    rfl
  · rfl

/-- A decimal number that ends before the break stays as it is. -/
theorem readDecimalNumber_broken
    (h : n ≤ (readDecimalNumber limit c).behind.rest.length) :
    readDecimalNumber limit (c.broken n more) =
      (readDecimalNumber limit c).broken n more := by
  unfold readDecimalNumber at h ⊢
  dsimp only at h ⊢
  have hexponent :
    n ≤ (fractionRun (c.run (Character.isDigitOf 10)).2).2.rest.length ∧
      ∀ part, exponentPart? (fractionRun (c.run (Character.isDigitOf 10)).2).2 =
        some part →
        n ≤ part.2.2.rest.length := by
    cases hpart : exponentPart?
        (fractionRun (c.run (Character.isDigitOf 10)).2).2 with
    | none =>
        rw [hpart] at h
        exact ⟨h, by simp⟩
    | some part =>
        rw [hpart] at h
        refine ⟨Nat.le_trans h (exponentPart?_length_le hpart), ?_⟩
        intro part' heq
        rw [← Option.some.inj heq]
        exact h
  obtain ⟨hfraction, hpart⟩ := hexponent
  have hintegral := Nat.le_trans hfraction (fractionRun_length_le _)
  rw [run_broken (isDigitOf_lineFeed 10) hintegral]
  dsimp only
  rw [fractionRun_broken hfraction]
  dsimp only
  rw [exponentPart?_broken hpart]
  cases exponentPart? (fractionRun (c.run (Character.isDigitOf 10)).2).2 with
  | none => rfl
  | some part => rfl

/-- The mark of a number is seen if it stands before the break. -/
theorem startsWithRadix_broken
    (h : startsWithRadix c = true → n + 1 < c.rest.length) :
    startsWithRadix (c.broken n more) = startsWithRadix c := by
  rw [startsWithRadix_eq, startsWithRadix_eq c]
  exact pair_broken (by decide) (by decide) fun hpair =>
    h ((startsWithRadix_eq c).trans hpair)

/-- A number that ends before the break stays as it is. -/
theorem readNumber_broken (h : n ≤ (readNumber limit c).behind.rest.length) :
    readNumber limit (c.broken n more) = (readNumber limit c).broken n more := by
  unfold readNumber at h ⊢
  by_cases hradix : startsWithRadix c = true
  · simp only [if_pos hradix] at h ⊢
    have hlength := length_of_startsWithRadix hradix
    have hrun : n ≤ c.advance.advance.rest.length :=
      Nat.le_trans h (run_length_le _ _)
    rw [startsWithRadix_broken
      fun _ => by omega, if_pos hradix, readRadixNumber_broken hradix h]
  · simp only [if_neg hradix] at h ⊢
    rw [startsWithRadix_broken fun hstart => absurd hstart hradix, if_neg hradix,
      readDecimalNumber_broken h]

/-- A word that ends before the break stays as it is. -/
theorem readWord_broken (h : n ≤ (readWord limit c).behind.rest.length) :
    readWord limit (c.broken n more) = (readWord limit c).broken n more := by
  unfold readWord at h ⊢
  rw [run_broken (by decide) h]
  rfl

/-! ## Strings, comments and symbols -/

/-- The string at the cursor is closed. -/
def Cursor.StringClosed (c : Cursor) : Prop :=
  (bodyRun false c.advance.position c.advance.rest).closed = true

/-- The block comment at the cursor is closed, if there is one. -/
def Cursor.CommentClosed (c : Cursor) : Prop :=
  let opener := liveRun [] c.position c.rest
  opener.1 = Symbol.blockComment →
    (commentRun opener.2.position opener.2.rest).2.1 = true

/-- The text does not end inside of the token at the cursor. -/
structure Cursor.Closed (c : Cursor) : Prop where
  string : c.current? = some '"' → c.StringClosed
  comment : c.CommentClosed

/-- A string that is closed before the break stays as it is. -/
theorem readString_broken (hfirst : c.current? = some '"')
    (hclosed : c.StringClosed) (h : n ≤ (readString limit c).behind.rest.length) :
    readString limit (c.broken n more) = (readString limit c).broken n more := by
  have hlt : n < c.rest.length :=
    Nat.lt_of_le_of_lt (Nat.le_trans h (bodyRun_length_le _ _ _))
      (advance_length_lt hfirst)
  unfold StringClosed at hclosed
  unfold readString at h ⊢
  rw [advance_broken hlt, position_broken, rest_broken, bodyRun_broken hclosed h]
  dsimp only
  rw [hclosed]
  rfl

/-- A line comment that ends before the break stays as it is. -/
theorem readLineComment_broken
    (h : n ≤ (readLineComment limit c).behind.rest.length) :
    readLineComment limit (c.broken n more) =
      (readLineComment limit c).broken n more := by
  unfold readLineComment at h ⊢
  rw [run_broken (by decide) h]
  rfl

/-- A block comment that is closed before the break stays as it is. -/
theorem readBlockComment_broken
    (hclosed : (commentRun c.position c.rest).2.1 = true)
    (h : n ≤ (readBlockComment limit c).behind.rest.length) :
    readBlockComment limit (c.broken n more) =
      (readBlockComment limit c).broken n more := by
  unfold readBlockComment at h ⊢
  rw [position_broken, rest_broken, commentRun_broken hclosed h]
  dsimp only
  rw [hclosed]
  rfl

/-- A character that begins no token stays as it is before the break. -/
theorem readUnknown_broken (char : Char) (hlt : n < c.rest.length) :
    readUnknown c.position char (c.broken n more) =
      (readUnknown c.position char c).broken n more := by
  unfold readUnknown
  rw [advance_broken hlt]
  rfl

/-- A symbol or a comment that ends before the break stays as it is. -/
theorem readSymbol_broken (hclosed : c.CommentClosed)
    (h : n ≤ (readSymbol limit c).behind.rest.length) :
    readSymbol limit (c.broken n more) = (readSymbol limit c).broken n more := by
  have hlive := Nat.le_trans h (liveRun_moves_readSymbol limit c).length_le
  unfold CommentClosed at hclosed
  unfold readSymbol at h ⊢
  rw [position_broken, rest_broken, liveRun_broken [] c.position c.rest hlive]
  generalize liveRun [] c.position c.rest = run at h hclosed ⊢
  obtain ⟨text, behind⟩ := run
  dsimp only at h hclosed ⊢
  by_cases hcomment : text = Symbol.lineComment
  · simp only [if_pos hcomment] at h ⊢
    exact readLineComment_broken h
  · simp only [if_neg hcomment] at h ⊢
    by_cases hblock : text = Symbol.blockComment
    · simp only [if_pos hblock] at h ⊢
      exact readBlockComment_broken (hclosed hblock) h
    · simp only [if_neg hblock]
      cases Symbol.ofChars? text <;> rfl

/-! ## The last character of a token -/

namespace Cursor

variable {a b d : Cursor} {P : Char → Prop} {p : Char → Bool}

/-- A cursor moves to another one, and the last character on its way is of a
class. -/
def Leaves (P : Char → Prop) (c d : Cursor) : Prop :=
  ∃ e x, c.Moves e ∧ e.current? = some x ∧ P x ∧ e.advance = d

/-- A step leaves the character that it passes. -/
theorem leaves_advance {x : Char} (hx : c.current? = some x) (hP : P x) :
    c.Leaves P c.advance :=
  ⟨c, x, .refl c, hx, hP, rfl⟩

theorem Leaves.moves (h : c.Leaves P d) : c.Moves d := by
  obtain ⟨e, x, hmoves, -, -, rfl⟩ := h
  exact hmoves.trans (moves_advance e)

/-- Where a cursor came from does not matter to what it leaves last. -/
theorem Leaves.before (hmoves : a.Moves b) (h : b.Leaves P d) : a.Leaves P d := by
  obtain ⟨e, x, hmoves', hx, hP, hd⟩ := h
  exact ⟨e, x, hmoves.trans hmoves', hx, hP, hd⟩

/-- What is left last has every property that follows. -/
theorem Leaves.mono {Q : Char → Prop} (hPQ : ∀ x, P x → Q x)
    (h : c.Leaves P d) : c.Leaves Q d := by
  obtain ⟨e, x, hmoves, hx, hP, hd⟩ := h
  exact ⟨e, x, hmoves, hx, hPQ x hP, hd⟩

/-- A cursor moves to another one without a line break at the end of its way. -/
def Clear (c d : Cursor) : Prop := d = c ∨ c.Leaves (· ≠ '\n') d

theorem Clear.refl (c : Cursor) : c.Clear c := .inl rfl

/-- A step past another character passes no line feed last. -/
theorem clear_advance {x : Char} (hx : c.current? = some x) (hne : x ≠ '\n') :
    c.Clear c.advance :=
  .inr (leaves_advance hx hne)

/-- To move on without a line feed at the end, twice. -/
theorem Clear.trans (hab : a.Clear b) (hbd : b.Clear d) : a.Clear d := by
  rcases hab with rfl | hab
  · exact hbd
  · rcases hbd with rfl | hbd
    · exact .inr hab
    · exact .inr (hbd.before hab.moves)

/-- A run of a class without line feeds does not end with one. -/
theorem clear_run (hp : p '\n' = false) (c : Cursor) : c.Clear (c.run p).2 := by
  obtain ⟨here, rest⟩ := c
  unfold run
  dsimp only
  induction rest generalizing here with
  | nil => exact .refl _
  | cons g rest ih =>
      by_cases hg : p g.char = true
      · have hne : g.char ≠ '\n' := by
          intro heq
          rw [heq, hp] at hg
          cases hg
        simp only [run.go, if_pos hg]
        exact (clear_advance (c := ⟨here, g :: rest⟩) rfl hne).trans
          (ih (here.after g))
      · simp only [run.go, if_neg hg]
        exact .refl _

end Cursor

/-- A symbol does not end with a line feed. -/
theorem liveRun_clear (text : List Char) (here : Position) (rest : List Glyph) :
    Clear ⟨here, rest⟩ (liveRun text here rest).2 := by
  induction rest generalizing text here with
  | nil => exact .refl _
  | cons g rest ih =>
      by_cases hlive : Symbol.isLive (text ++ [g.char]) = true
      · have hne : g.char ≠ '\n' := by
          intro heq
          rw [heq, not_isLive_lineFeed] at hlive
          cases hlive
        simp only [liveRun, if_pos hlive]
        exact (clear_advance (c := ⟨here, g :: rest⟩) rfl hne).trans (ih _ _)
      · simp only [liveRun, if_neg hlive]
        exact .refl _

/-- A comment that is closed ends in its closer. -/
theorem commentRun_leaves {here : Position} {rest : List Glyph}
    (hclosed : (commentRun here rest).2.1 = true) :
    Leaves (· = '/') ⟨here, rest⟩ (commentRun here rest).2.2 := by
  fun_induction commentRun here rest with
  | case1 => cases hclosed
  | case2 => cases hclosed
  | case3 here g k rest hclose =>
      exact .before (.step (.refl _))
        (leaves_advance (c := ⟨here.after g, k :: rest⟩) rfl hclose.2)
  | case4 here g k rest hclose body closed behind hrun ih =>
      rw [hrun] at ih
      exact .before (.step (.refl _)) (ih hclosed)

/-- A literal that is closed ends in a quote. -/
theorem bodyRun_leaves {escaped : Bool} {here : Position} {rest : List Glyph}
    (hclosed : (bodyRun escaped here rest).closed = true) :
    Leaves (· = '"') ⟨here, rest⟩ (bodyRun escaped here rest).behind := by
  induction rest generalizing escaped here with
  | nil => cases hclosed
  | cons g rest ih =>
      by_cases hclose : (!escaped && g.char == '"') = true
      · simp only [bodyRun, if_pos hclose]
        have hquote : g.char = '"' := eq_of_beq (Bool.and_eq_true_iff.mp hclose).2
        exact leaves_advance (c := ⟨here, g :: rest⟩) rfl hquote
      · simp only [bodyRun, if_neg hclose] at hclosed ⊢
        exact .before (.step (.refl _)) (ih hclosed)

/-- An exponent does not end with a line feed. -/
theorem readExponent_clear (c : Cursor) : c.Clear (readExponent c).2.2 := by
  rw [readExponent_behind]
  split
  · rename_i hsign
    refine Clear.trans ?_ (clear_run (isDigitOf_lineFeed 10) _)
    obtain ⟨x, hx, rfl | rfl⟩ := current?_of_either hsign
    · exact clear_advance hx (by decide)
    · exact clear_advance hx (by decide)
  · exact clear_run (isDigitOf_lineFeed 10) c

/-- The digits behind a point do not end with a line feed. -/
theorem fractionRun_clear (c : Cursor) : c.Clear (fractionRun c).2 := by
  unfold fractionRun
  split
  · rename_i hpoint
    have hx := eq_of_beq (Bool.and_eq_true_iff.mp hpoint).1
    exact (clear_advance hx (by decide)).trans (clear_run (isDigitOf_lineFeed 10) _)
  · exact .refl c

/-- An exponent, if there is one, does not end with a line feed. -/
theorem exponentPart?_clear
    {part : Option Int × List (Located LexicalError) × Cursor}
    (h : exponentPart? c = some part) : c.Clear part.2.2 := by
  unfold exponentPart? at h
  split at h
  · rename_i hmark
    obtain rfl := Option.some.inj h
    refine Clear.trans ?_ (readExponent_clear _)
    obtain ⟨x, hx, rfl | rfl⟩ := current?_of_either hmark
    · exact clear_advance hx (by decide)
    · exact clear_advance hx (by decide)
  · cases h

/-- A decimal number does not end with a line feed. -/
theorem readDecimalNumber_clear (limit : Nat) (c : Cursor) :
    c.Clear (readDecimalNumber limit c).behind := by
  have hfraction :=
    (clear_run (isDigitOf_lineFeed 10) c).trans (fractionRun_clear _)
  unfold readDecimalNumber
  dsimp only
  split
  · rename_i hpart
    exact hfraction.trans (exponentPart?_clear hpart)
  · exact hfraction

/-- A number with a mark does not end with a line feed. -/
theorem readRadixNumber_clear (limit : Nat) (h : startsWithRadix c = true) :
    c.Clear (readRadixNumber limit c).behind := by
  rw [startsWithRadix_eq, Bool.and_eq_true, ← current?_advance] at h
  obtain ⟨hzero, hmark⟩ := h
  have hmarked : c.advance.Clear c.advance.advance := by
    cases hx : c.advance.current? with
    | none =>
        rw [hx] at hmark
        cases hmark
    | some x =>
        refine clear_advance hx ?_
        rintro rfl
        rw [hx] at hmark
        exact absurd hmark (by decide)
  exact ((clear_advance (eq_of_beq hzero) (by decide)).trans hmarked).trans
    (clear_run (isDigitOf_lineFeed _) _)

/-- A number does not end with a line feed. -/
theorem readNumber_clear (limit : Nat) (c : Cursor) :
    c.Clear (readNumber limit c).behind := by
  unfold readNumber
  split
  · exact readRadixNumber_clear limit ‹_›
  · exact readDecimalNumber_clear limit c

/-- A symbol or a comment that is closed does not end with a line feed. -/
theorem readSymbol_clear (limit : Nat) (hclosed : c.CommentClosed) :
    c.Clear (readSymbol limit c).behind := by
  have hlive : c.Clear (liveRun [] c.position c.rest).2 :=
    liveRun_clear [] c.position c.rest
  refine hlive.trans ?_
  unfold readSymbol
  dsimp only
  split
  · exact clear_run (by decide) _
  · split
    · exact .inr ((commentRun_leaves (hclosed ‹_›)).mono
        fun x hx => by rw [hx]; decide)
    · split <;> exact .refl _

/-! ## Tokens -/

/-- The text behind a token can be replaced by a line break and any other text. -/
theorem readFrom_broken {first : Char} (hfirst : c.current? = some first)
    (hclosed : c.Closed) (h : n ≤ (readFrom limit first c).behind.rest.length) :
    readFrom limit first (c.broken n more) =
      (readFrom limit first c).broken n more := by
  have hlt := Nat.lt_of_le_of_lt h (readFrom_length_lt limit hfirst)
  unfold readFrom at h ⊢
  by_cases hlive : Symbol.isLive [first] = true
  · simp only [if_pos hlive] at h ⊢
    exact readSymbol_broken hclosed.comment h
  · simp only [if_neg hlive] at h ⊢
    by_cases hword : Character.isAlphabetic first = true
    · simp only [if_pos hword] at h ⊢
      exact readWord_broken h
    · simp only [if_neg hword] at h ⊢
      by_cases hdigit : Character.isDigitOf 10 first = true
      · simp only [if_pos hdigit] at h ⊢
        exact readNumber_broken h
      · simp only [if_neg hdigit] at h ⊢
        by_cases hquote : first = '"'
        · simp only [if_pos hquote] at h ⊢
          rw [hquote] at hfirst
          exact readString_broken hfirst (hclosed.string hfirst) h
        · simp only [if_neg hquote]
          exact readUnknown_broken first hlt

/-- No token that begins with no line break ends in one. -/
theorem readFrom_leaves (limit : Nat) {first : Char}
    (hfirst : c.current? = some first) (hne : first ≠ '\n') (hclosed : c.Closed) :
    c.Leaves (· ≠ '\n') (readFrom limit first c).behind := by
  have hlt := readFrom_length_lt limit hfirst
  have hclear : c.Clear (readFrom limit first c).behind := by
    unfold readFrom
    split
    · exact readSymbol_clear limit hclosed.comment
    · split
      · exact clear_run (by decide) c
      · split
        · exact readNumber_clear limit c
        · split
          · rename_i hquote
            rw [hquote] at hfirst
            have hbody :=
              (bodyRun_leaves (hclosed.string hfirst)).mono (Q := (· ≠ '\n'))
                fun x hx => by
              rw [hx]
              decide
            exact .inr (hbody.before (moves_advance c))
          · exact clear_advance hfirst hne
  refine hclear.resolve_left fun heq => ?_
  rw [heq] at hlt
  exact Nat.lt_irrefl _ hlt

/-- Only a quote begins a string. -/
theorem eq_quote_of_readFrom {first : Char}
    (h : (readFrom limit first c).lexeme.kind = .string) :
    first = '"' := by
  unfold readFrom at h
  split at h
  · unfold readSymbol readLineComment readBlockComment at h
    dsimp only at h
    split at h
    · cases h
    · split at h
      · cases h
      · split at h <;> cases h
  · split at h
    · unfold readWord at h
      dsimp only at h
      split at h <;> cases h
    · split at h
      · unfold readNumber readRadixNumber readDecimalNumber at h
        dsimp only at h
        split at h
        · cases h
        · split at h
          · cases h
          · dsimp only at h
            split at h <;> cases h
      · split at h
        · assumption
        · cases h

/-- A quote begins a literal. -/
theorem readFrom_quote (limit : Nat) (c : Cursor) :
    readFrom limit '"' c = readString limit c := by
  rw [readFrom, if_neg (by decide), if_neg (by decide),
    if_neg (by decide), if_pos rfl]

/-- A string ends in a quote. -/
theorem readFrom_leaves_quote {first : Char} (hfirst : c.current? = some first)
    (hclosed : c.Closed) (h : (readFrom limit first c).lexeme.kind = .string) :
    c.Leaves (· = '"') (readFrom limit first c).behind := by
  obtain rfl := eq_quote_of_readFrom h
  rw [readFrom_quote]
  exact (bodyRun_leaves (hclosed.string hfirst)).before (moves_advance c)

end ScriptLang
