import ScriptLang.Proofs.Source.Shift
import ScriptLang.Proofs.Token.Moved
import ScriptLang.Proofs.Token.Order

/-!
# A text inside another one

The characters of a text can be found in another text: at other places, with other
widths, and with more text behind them.  `Embedding` says how, and a cursor in the
one text has its counterpart in the other (`Cursor.embedded`).

A reader that starts at the counterpart takes the same characters, and what it
answers is moved like them.  There is one lemma for each reader, and
`Lexed.next_embedded` for a whole token.  Moving a text, putting another one behind
it and changing the widths of its characters are three embeddings.

Nearly every reader looks at one character behind what it takes, and a number with a
point at two.  So what is put behind a text must not be looked at.  A semicolon at
the end of the text sees to that: it is part of no other symbol, of no word, number
or blank (`Cursor.Open`).  Only a string or a comment goes past it, and then it
takes the whole text.
-/

namespace ScriptLang

/-- How the characters of a text are found in another one. -/
structure Embedding where
  /-- Where a place of the text is. -/
  place : Position → Position
  /-- What the character at a place has become. -/
  glyph : Position → Glyph → Glyph
  /-- What stands behind the text. -/
  more : List Glyph
  char_glyph : ∀ here g, (glyph here g).char = g.char
  after_glyph : ∀ {here : Position}, 0 < here.line → ∀ g,
    (place here).after (glyph here g) = place (here.after g)

/-- The characters from a place on, and what stands behind them. -/
def Embedding.glyphs (e : Embedding) : Position → List Glyph → List Glyph
  | _, [] => e.more
  | here, g :: rest => e.glyph here g :: e.glyphs (here.after g) rest

@[simp] theorem Embedding.glyphs_nil (e : Embedding) (here : Position) :
    e.glyphs here [] = e.more := rfl

@[simp] theorem Embedding.glyphs_cons (e : Embedding) (here : Position) (g : Glyph)
    (rest : List Glyph) :
    e.glyphs here (g :: rest) = e.glyph here g :: e.glyphs (here.after g) rest :=
  rfl

/-- A character that is moved. -/
def Placed.moved (φ : Position → Position) (p : Placed) : Placed :=
  { p with position := φ p.position }

/-- Lines are counted from one, and stay so. -/
theorem Position.line_pos_after {p : Position} (hp : 0 < p.line) (g : Glyph) :
    0 < (p.after g).line := by
  unfold Position.after
  split
  · exact Nat.succ_pos _
  · exact hp

namespace Cursor

/-- The counterpart of a cursor. -/
def embedded (e : Embedding) (c : Cursor) : Cursor :=
  ⟨e.place c.position, e.glyphs c.position c.rest⟩

@[simp] theorem position_embedded (e : Embedding) (c : Cursor) :
    (c.embedded e).position = e.place c.position := rfl

@[simp] theorem rest_embedded (e : Embedding) (c : Cursor) :
    (c.embedded e).rest = e.glyphs c.position c.rest := rfl

/-- A cursor in a text that ends in a semicolon, unless nothing is put behind it. -/
structure Open (more : List Glyph) (c : Cursor) : Prop where
  line_pos : 0 < c.position.line
  guarded : more = [] ∨ c.rest.getLast?.map Glyph.char = some ';'

variable {e : Embedding} {more : List Glyph} {c d : Cursor} {p : Char → Bool}

/-- A cursor that moves stays on a line. -/
theorem Moves.line_pos (h : c.Moves d) (hc : 0 < c.position.line) :
    0 < d.position.line := by
  induction h with
  | refl => exact hc
  | step _ ih => exact ih (Position.line_pos_after hc _)

/-- Where something is left now, something was left before. -/
theorem Moves.rest_ne_nil (h : c.Moves d) (hd : d.rest ≠ []) : c.rest ≠ [] := by
  intro hnil
  have hlength := h.length_le
  rw [hnil] at hlength
  exact hd (List.eq_nil_of_length_eq_zero (Nat.le_zero.mp hlength))

/-- A cursor moves towards the end of its text. -/
theorem Moves.behind_eq (h : c.Moves d) :
    d.position.behind d.rest = c.position.behind c.rest := by
  induction h with
  | refl => rfl
  | step _ ih => exact ih

/-- A cursor can move to the end of its text. -/
theorem moves_behind (here : Position) (rest : List Glyph) :
    Moves ⟨here, rest⟩ ⟨here.behind rest, []⟩ := by
  induction rest generalizing here with
  | nil => exact .refl _
  | cons g rest ih => exact .step (ih (here.after g))

/-- At the end of the text, nothing is left of it. -/
theorem rest_eq_nil (hc : c.Solid)
    (h : c.position = c.position.behind c.rest) : c.rest = [] := by
  have hadd := (moves_behind c.position c.rest).offset_add_length_le hc
  rw [← h] at hadd
  refine List.eq_nil_of_length_eq_zero ?_
  dsimp only [List.length_nil] at hadd
  omega

/-- A cursor that has not reached the end of the text is as open as before. -/
theorem Open.moves (hc : c.Open more) (h : c.Moves d)
    (hd : more = [] ∨ d.rest ≠ []) : d.Open more := by
  refine ⟨h.line_pos hc.line_pos, ?_⟩
  rcases hd with hmore | hd
  · exact .inl hmore
  · refine hc.guarded.imp id fun hlast => ?_
    clear hc
    induction h with
    | refl => exact hlast
    | @step here g rest d hmoves ih =>
        apply ih hd
        cases rest with
        | nil => exact absurd rfl (hmoves.rest_ne_nil hd)
        | cons h rest => simpa using hlast

/-- There is something left to look at, unless nothing is put behind the text. -/
theorem Open.left (hc : c.Open more) : more = [] ∨ c.rest ≠ [] := by
  rcases hc.guarded with hmore | hlast
  · exact .inl hmore
  · refine .inr fun hnil => ?_
    rw [hnil] at hlast
    cases hlast

/-- The semicolon that guards a text is not passed with another character. -/
theorem Open.advance (hc : c.Open more) (hne : c.current? ≠ some ';') :
    c.advance.Open more := by
  apply hc.moves (moves_advance c)
  rcases hc.guarded with hmore | hlast
  · exact .inl hmore
  · obtain ⟨here, rest⟩ := c
    match rest with
    | [] => cases hlast
    | [g] => exact absurd hlast hne
    | _ :: _ :: _ => exact .inr (List.cons_ne_nil _ _)

/-! ## Looking at a counterpart -/

/-- A cursor and its counterpart see the same character. -/
theorem current?_embedded (hc : c.Open e.more) :
    (c.embedded e).current? = c.current? := by
  have hleft := hc.left
  obtain ⟨here, rest⟩ := c
  cases rest with
  | nil =>
      have hmore : e.more = [] := hleft.resolve_right fun h => h rfl
      rw [current?, rest_embedded, e.glyphs_nil, hmore]
      rfl
  | cons g rest => exact congrArg some (e.char_glyph here g)

/-- A cursor and its counterpart go on together. -/
theorem advance_embedded (hc : c.Open e.more) :
    (c.embedded e).advance = c.advance.embedded e := by
  have hline := hc.line_pos
  have hleft := hc.left
  obtain ⟨here, rest⟩ := c
  cases rest with
  | nil =>
      have hmore : e.more = [] := hleft.resolve_right fun h => h rfl
      simp only [embedded, e.glyphs_nil, hmore, Cursor.advance]
  | cons g rest =>
      simp only [embedded, Cursor.advance, e.glyphs_cons, e.after_glyph hline]

/-- Behind a character that is no semicolon, they see the same one. -/
theorem next?_embedded (hc : c.Open e.more) (hne : c.current? ≠ some ';') :
    (c.embedded e).next? = c.next? := by
  have hleft := (hc.advance hne).left
  obtain ⟨here, rest⟩ := c
  match rest with
  | [] =>
      have hmore : e.more = [] := hleft.resolve_right fun h => h rfl
      rw [next?, rest_embedded, e.glyphs_nil, hmore]
      rfl
  | [g] =>
      have hmore : e.more = [] := hleft.resolve_right fun h => h rfl
      rw [next?, rest_embedded, e.glyphs_cons, e.glyphs_nil, hmore]
      rfl
  | g :: h :: _ => exact congrArg some (e.char_glyph (here.after g) h)

/-- A run that does not end with the text is found again. -/
theorem run_embedded (hline : 0 < c.position.line)
    (hleft : e.more = [] ∨ (c.run p).2.rest ≠ []) :
    (c.embedded e).run p = ((c.run p).1.map (Placed.moved e.place),
      (c.run p).2.embedded e) := by
  obtain ⟨here, rest⟩ := c
  unfold run at hleft ⊢
  unfold embedded
  dsimp only at hleft hline ⊢
  induction rest generalizing here with
  | nil =>
      rw [e.glyphs_nil, hleft.resolve_right fun h => h rfl]
      simp only [run.go, e.glyphs_nil,
        hleft.resolve_right fun h => h rfl, List.map_nil]
  | cons g rest ih =>
      rw [e.glyphs_cons]
      by_cases hg : p g.char = true
      · simp only [run.go, e.char_glyph, if_pos hg] at hleft ⊢
        rw [e.after_glyph hline, ih (here.after g)
          (Position.line_pos_after hline g) hleft]
        simp only [List.map_cons, Placed.moved]
      · simp only [run.go, e.char_glyph, if_neg hg]
        rfl

/-- A class without semicolons stops before the semicolon at the end. -/
theorem run_left (hc : c.Open more) (hp : p ';' = false) :
    more = [] ∨ (c.run p).2.rest ≠ [] := by
  rcases hc.guarded with hmore | hlast
  · exact .inl hmore
  · refine .inr ?_
    obtain ⟨here, rest⟩ := c
    unfold run
    dsimp only at hlast ⊢
    clear hc
    induction rest generalizing here with
    | nil => cases hlast
    | cons g rest ih =>
        unfold run.go
        by_cases hg : p g.char = true
        · simp only [if_pos hg]
          cases rest with
          | nil =>
              have hsemicolon : g.char = ';' := Option.some.inj hlast
              rw [hsemicolon, hp] at hg
              cases hg
          | cons h rest => exact ih (here.after g) (by simpa using hlast)
        · simp only [if_neg hg]
          exact List.cons_ne_nil _ _

/-- Behind a run of a class without semicolons, the text is still guarded. -/
theorem run_open (hc : c.Open more) (hp : p ';' = false) : (c.run p).2.Open more :=
  hc.moves (moves_run p c) (run_left hc hp)

/-- Skipping takes what a run takes. -/
theorem skip_eq_run (p : Char → Bool) (c : Cursor) : c.skip p = (c.run p).2 := by
  obtain ⟨here, rest⟩ := c
  unfold skip run
  dsimp only
  induction rest generalizing here with
  | nil => rfl
  | cons g rest ih =>
      unfold skip.go run.go
      split
      · exact ih _
      · rfl

end Cursor

open Cursor

variable {φ : Position → Position} {e : Embedding} {more : List Glyph} {c : Cursor}

/-! ## What is kept of a lexeme -/

theorem char_comp_moved : Placed.char ∘ Placed.moved φ = Placed.char := rfl

/-- What is kept of a lexeme does not depend on where it stands. -/
theorem content_moved (limit : Nat) (items : List Placed) :
    content limit (items.map (Placed.moved φ)) = content limit items := by
  rw [content, ← List.map_take, List.map_map, char_comp_moved, content]

/-- The error at the first character beyond the limit moves with it. -/
theorem overrun_moved (limit : Nat) (items : List Placed) :
    overrun limit (items.map (Placed.moved φ)) =
      (overrun limit items).map (Located.moved φ) := by
  unfold overrun
  rw [List.getElem?_map]
  cases items[limit]? <;> rfl

/-- Digits that are moved have the same value and number, and their errors move with
them. -/
theorem DigitRun.read_moved (radix limit used : Nat) (run : List Placed) :
    read radix limit used (run.map (Placed.moved φ)) =
      ⟨(read radix limit used run).value, (read radix limit used run).counted,
        (read radix limit used run).errors.map (Located.moved φ)⟩ := by
  have hdigits : ∀ items : List Placed,
      (items.map (Placed.moved φ)).filterMap
        (fun p => Character.digit? radix p.char) =
        items.filterMap fun p => Character.digit? radix p.char := by
    intro items
    rw [List.filterMap_map]
    rfl
  unfold read
  simp only [← List.map_take, hdigits, List.getElem?_map, List.map_append]
  congr 2
  · cases (run.take (limit - used))[(longestFit radix 0
      ((run.take (limit - used)).filterMap fun p => Character.digit? radix
        p.char)).2]? <;> rfl
  · cases run[limit - used]? with
    | none => rfl
    | some item =>
        simp only [Option.map_some]
        split <;> rfl

/-- The place of the first of some characters moves with them. -/
theorem placeOf_moved (finish : Position) (items : List Placed) :
    placeOf (φ finish) (items.map (Placed.moved φ)) = φ (placeOf finish items) := by
  cases items <;> rfl

/-- The characters that a body stands for move with it. -/
theorem decode_moved (finish : Position) (body : List Placed) :
    decode (φ finish) (body.map (Placed.moved φ)) =
      ((decode finish body).1.map (Placed.moved φ),
        (decode finish body).2.map (Located.moved φ)) := by
  fun_induction decode finish body with
  | case1 => simp only [List.map_nil, decode]
  | case2 p hp =>
      simp only [List.map_cons, List.map_nil, decode, Placed.moved, hp, if_true]
  | case3 p hp =>
      simp only [List.map_cons, List.map_nil, decode, Placed.moved, hp, if_false]
  | case4 p e rest hp items warnings hdecode ih =>
      rw [hdecode] at ih
      simp only [List.map_cons] at ih ⊢
      rw [decode, ih]
      exact if_pos hp
  | case5 p e rest hp he digits behind code items warnings hdecode ih =>
      have hdigits : ((rest.map (Placed.moved φ)).takeWhile fun d =>
        Character.isDigitOf 16 d.char).take 4 =
          digits.map (Placed.moved φ) := by
        rw [List.takeWhile_map, ← List.map_take]
        rfl
      have hbehind : (rest.map (Placed.moved φ)).drop digits.length =
          behind.map (Placed.moved φ) :=
        List.map_drop.symm
      have hcode : (digits.map (Placed.moved φ)).foldl
          (fun n d => n * 16 + (Character.digit? 16 d.char).getD 0) 0 = code := by
        rw [List.foldl_map]
        rfl
      rw [hdecode] at ih
      simp only [List.map_cons]
      rw [decode]
      dsimp only
      rw [hdigits, hcode, List.length_map, hbehind, ih, placeOf_moved,
        placeOf_moved, List.isEmpty_map]
      simp only [Placed.moved, if_neg hp, if_pos he]
      split <;> rfl
  | case6 p e rest hp he items warnings hdecode c hescape ih =>
      rw [hdecode] at ih
      simp only [List.map_cons]
      rw [decode, ih, placeOf_moved]
      simp only [Placed.moved, if_neg hp, if_neg he, hescape]
  | case7 p e rest hp he items warnings hdecode hescape ih =>
      rw [hdecode] at ih
      simp only [List.map_cons]
      rw [decode, ih, placeOf_moved]
      simp only [Placed.moved, if_neg hp, if_neg he, hescape]
      rfl

/-! ## The loops of the lexer -/

/-- A symbol that is being read ends before the end of the text. -/
theorem liveRun_embedded (text : List Char) {here : Position}
    (hline : 0 < here.line) (rest : List Glyph)
    (hleft : e.more = [] ∨ (liveRun text here rest).2.rest ≠ []) :
    liveRun text (e.place here) (e.glyphs here rest) =
      ((liveRun text here rest).1, (liveRun text here rest).2.embedded e) := by
  induction rest generalizing text here with
  | nil =>
      have hmore : e.more = [] := hleft.resolve_right fun h => h rfl
      simp only [embedded, liveRun, e.glyphs_nil, hmore]
  | cons g rest ih =>
      rw [e.glyphs_cons]
      by_cases hlive : Symbol.isLive (text ++ [g.char]) = true
      · simp only [liveRun, e.char_glyph, if_pos hlive] at hleft ⊢
        rw [e.after_glyph hline, ih _ (Position.line_pos_after hline g) hleft]
      · simp only [liveRun, e.char_glyph, if_neg hlive]
        rfl

/-- A block comment that does not end with the text is found again. -/
theorem commentRun_embedded {here : Position} (hline : 0 < here.line)
    (rest : List Glyph)
    (hleft : e.more = [] ∨ (commentRun here rest).2.2.rest ≠ []) :
    commentRun (e.place here) (e.glyphs here rest) =
      ((commentRun here rest).1.map (Placed.moved e.place),
        (commentRun here rest).2.1,
        (commentRun here rest).2.2.embedded e) := by
  fun_induction commentRun here rest with
  | case1 here =>
      have hmore : e.more = [] := hleft.resolve_right fun h => h rfl
      simp only [embedded, e.glyphs_nil, hmore, commentRun, List.map_nil]
  | case2 here g =>
      have hmore : e.more = [] := hleft.resolve_right fun h => h rfl
      simp only [embedded, e.glyphs_cons, e.glyphs_nil, hmore, commentRun,
        e.char_glyph, e.after_glyph hline, List.map_cons,
        List.map_nil, Placed.moved]
  | case3 here g h rest hclose =>
      simp only [e.glyphs_cons, commentRun, e.char_glyph, if_pos hclose,
        e.after_glyph hline, e.after_glyph (Position.line_pos_after hline g)]
      rfl
  | case4 here g h rest hclose body closed behind hrun ih =>
      rw [hrun] at ih
      have hbehind := ih (Position.line_pos_after hline g) hleft
      rw [e.glyphs_cons] at hbehind
      simp only [e.glyphs_cons, commentRun, e.char_glyph, if_neg hclose,
        e.after_glyph hline, hbehind]
      simp only [List.map_cons, Placed.moved]

/-- The body of a string that does not end with the text is found again. -/
theorem bodyRun_embedded (escaped : Bool) {here : Position} (hline : 0 < here.line)
    (rest : List Glyph)
    (hleft : e.more = [] ∨ (bodyRun escaped here rest).behind.rest ≠ []) :
    bodyRun escaped (e.place here) (e.glyphs here rest) =
      ⟨(bodyRun escaped here rest).body.map (Placed.moved e.place),
        e.place (bodyRun escaped here rest).finish,
          (bodyRun escaped here rest).closed,
        (bodyRun escaped here rest).behind.embedded e⟩ := by
  induction rest generalizing escaped here with
  | nil =>
      have hmore : e.more = [] := hleft.resolve_right fun h => h rfl
      simp only [embedded, e.glyphs_nil, hmore, bodyRun, List.map_nil]
  | cons g rest ih =>
      rw [e.glyphs_cons]
      by_cases hclose : (!escaped && g.char == '"') = true
      · simp only [bodyRun, e.char_glyph, if_pos hclose, e.after_glyph hline]
        rfl
      · simp only [bodyRun, e.char_glyph, if_neg hclose,
          e.after_glyph hline] at hleft ⊢
        rw [ih _ (Position.line_pos_after hline g) hleft]
        simp only [List.map_cons, Placed.moved]

/-! ## Numbers and words -/

/-- The counterpart of a reading. -/
def Reading.embedded (e : Embedding) (r : Reading) : Reading :=
  ⟨r.lexeme, r.errors.map (Located.moved e.place),
    r.warnings.map (Located.moved e.place), r.behind.embedded e⟩

/-- Only decimal digits and the letters from a to f can be digits. -/
theorem isDigitOf_eq_false (radix : Nat) {x : Char}
    (hx : ¬('0' ≤ x ∧ x ≤ '9') ∧ ¬('a' ≤ x ∧ x ≤ 'f') ∧ ¬('A' ≤ x ∧ x ≤ 'F')) :
    Character.isDigitOf radix x = false := by
  obtain ⟨hdecimal, hlower, hupper⟩ := hx
  have hvalue : Character.digit? radix x = none := by
    unfold Character.digit?
    rw [if_neg hdecimal, if_neg hlower, if_neg hupper]
    exact if_neg (Nat.lt_irrefl radix)
  rw [Character.isDigitOf, hvalue]
  rfl

theorem isDigitOf_semicolon (radix : Nat) : Character.isDigitOf radix ';' = false :=
  isDigitOf_eq_false radix (by decide)

/-- Digits never go up to the end of a guarded text. -/
theorem digits_embedded (hc : c.Open e.more) (radix : Nat) :
    (c.embedded e).run (Character.isDigitOf radix) =
      ((c.run (Character.isDigitOf radix)).1.map (Placed.moved e.place),
        (c.run (Character.isDigitOf radix)).2.embedded e) :=
  run_embedded hc.line_pos (run_left hc (isDigitOf_semicolon radix))

/-- Behind digits, the text is still guarded. -/
theorem digits_open (hc : c.Open more) (radix : Nat) :
    (c.run (Character.isDigitOf radix)).2.Open more :=
  run_open hc (isDigitOf_semicolon radix)

/-- The mark of a number in another radix is seen in both texts. -/
theorem startsWithRadix_embedded (hc : c.Open e.more) :
    startsWithRadix (c.embedded e) = startsWithRadix c := by
  unfold startsWithRadix
  rw [current?_embedded hc]
  by_cases hzero : c.current? = some '0'
  · rw [next?_embedded hc (by rw [hzero]; decide)]
  · rw [beq_eq_false_iff_ne.mpr hzero, Bool.false_and, Bool.false_and]

/-- The zero and the mark of a number in another radix are no semicolons. -/
theorem startsWithRadix_ne (h : startsWithRadix c = true) :
    c.current? ≠ some ';' ∧ c.advance.current? ≠ some ';' := by
  obtain ⟨hzero, hmark⟩ := Bool.and_eq_true_iff.mp h
  rw [current?_advance]
  constructor
  · rw [eq_of_beq hzero]
    decide
  · intro hnext
    simp only [hnext] at hmark
    exact absurd hmark (by decide)

/-- A number with a mark, in both texts. -/
theorem readRadixNumber_embedded (hc : c.Open e.more) (h : startsWithRadix c = true)
    (limit : Nat) :
    readRadixNumber limit (c.embedded e) =
      (readRadixNumber limit c).embedded e := by
  obtain ⟨hzero, hmark⟩ := startsWithRadix_ne h
  have hmarked : c.advance.Open e.more := hc.advance hzero
  have hdigits : c.advance.advance.Open e.more := hmarked.advance hmark
  unfold readRadixNumber
  simp only [advance_embedded hc, advance_embedded hmarked,
    current?_embedded hmarked, digits_embedded hdigits, DigitRun.read_moved,
    Reading.embedded, List.map_append, apply_ite (List.map (Located.moved e.place)),
    List.map_nil, List.map_cons]
  rfl

/-- The digits of an exponent, in both texts. -/
theorem readExponent_embedded (hc : c.Open e.more) :
    readExponent (c.embedded e) =
      ((readExponent c).1, (readExponent c).2.1.map (Located.moved e.place),
        (readExponent c).2.2.embedded e) := by
  have hopen : (if c.current? == some '-' || c.current? == some '+' then c.advance
      else c).Open e.more := by
    split
    · rename_i hsign
      apply hc.advance
      intro hsemicolon
      rw [hsemicolon] at hsign
      exact absurd hsign (by decide)
    · exact hc
  have hunsigned :
    (if c.current? == some '-' || c.current? == some '+' then (c.embedded e).advance
      else c.embedded e) =
        (if c.current? == some '-' || c.current? == some '+' then c.advance
          else c).embedded e := by
    split
    · exact advance_embedded hc
    · rfl
  unfold readExponent
  simp only [current?_embedded hc]
  rw [hunsigned]
  clear hunsigned
  generalize (if c.current? == some '-' || c.current? == some '+' then c.advance
    else c) = unsigned at hopen ⊢
  rw [digits_embedded hopen]
  simp only [List.isEmpty_map, List.foldl_map]
  by_cases hnone : (unsigned.run (Character.isDigitOf 10)).1.isEmpty = true
  · simp only [if_pos hnone]
    rfl
  · simp only [if_neg hnone]
    rfl

/-- The digits behind a point, in both texts. -/
theorem fractionRun_embedded (hc : c.Open e.more) :
    fractionRun (c.embedded e) =
      ((fractionRun c).1.map (Placed.moved e.place),
        (fractionRun c).2.embedded e) := by
  unfold fractionRun
  rw [current?_embedded hc]
  by_cases hpoint : c.current? = some '.'
  · have hne : c.current? ≠ some ';' := by
      rw [hpoint]
      decide
    rw [next?_embedded hc hne, advance_embedded hc,
      digits_embedded (hc.advance hne)]
    split <;> rfl
  · rw [beq_eq_false_iff_ne.mpr hpoint, Bool.false_and]
    rfl

/-- Behind the digits after a point, the text is still guarded. -/
theorem fractionRun_open (hc : c.Open more) : (fractionRun c).2.Open more := by
  unfold fractionRun
  split
  · rename_i hpoint
    have hne : c.current? ≠ some ';' := by
      rw [eq_of_beq (Bool.and_eq_true_iff.mp hpoint).1]
      decide
    exact digits_open (hc.advance hne) 10
  · exact hc

/-- An exponent, if there is one, in both texts. -/
theorem exponentPart?_embedded (hc : c.Open e.more) :
    exponentPart? (c.embedded e) = (exponentPart? c).map fun part =>
      (part.1, part.2.1.map (Located.moved e.place), part.2.2.embedded e) := by
  unfold exponentPart?
  rw [current?_embedded hc]
  split
  · rename_i hmark
    have hne : c.current? ≠ some ';' := by
      intro hsemicolon
      rw [hsemicolon] at hmark
      exact absurd hmark (by decide)
    rw [advance_embedded hc, readExponent_embedded (hc.advance hne)]
    rfl
  · rfl

/-- A decimal number, in both texts. -/
theorem readDecimalNumber_embedded (hc : c.Open e.more) (limit : Nat) :
    readDecimalNumber limit (c.embedded e) =
      (readDecimalNumber limit c).embedded e := by
  have hintegral := digits_open hc 10
  unfold readDecimalNumber
  simp only [digits_embedded hc, fractionRun_embedded hintegral,
    DigitRun.read_moved, exponentPart?_embedded (fractionRun_open hintegral),
    List.length_map, List.isEmpty_map]
  cases exponentPart? (fractionRun (c.run (Character.isDigitOf 10)).2).2 with
  | none =>
      simp only [Option.map_none, Reading.embedded, List.map_append, List.map_nil]
  | some part =>
      simp only [Option.map_some, Reading.embedded, List.map_append, List.map_nil]

/-- A number, in both texts. -/
theorem readNumber_embedded (hc : c.Open e.more) (limit : Nat) :
    readNumber limit (c.embedded e) = (readNumber limit c).embedded e := by
  unfold readNumber
  rw [startsWithRadix_embedded hc]
  split
  · exact readRadixNumber_embedded hc ‹_› limit
  · exact readDecimalNumber_embedded hc limit

/-- A word, in both texts. -/
theorem readWord_embedded (hc : c.Open e.more) (limit : Nat) :
    readWord limit (c.embedded e) = (readWord limit c).embedded e := by
  unfold readWord
  rw [run_embedded hc.line_pos (run_left hc (by decide))]
  simp only [content_moved, overrun_moved]
  rfl

/-! ## Strings, comments and symbols -/

theorem unclosed_embedded (closed : Bool) (behind : Cursor) :
    unclosed closed (behind.embedded e) = (unclosed closed behind).map
      (Located.moved e.place) := by
  cases closed <;> rfl

/-- A string that does not end with the text ends where it ended. -/
theorem readString_embedded (hc : c.Open e.more) (hfirst : c.current? = some '"')
    {limit : Nat} (hleft : e.more = [] ∨ (readString limit c).behind.rest ≠ []) :
    readString limit (c.embedded e) = (readString limit c).embedded e := by
  have hopen : c.advance.Open e.more := hc.advance (by rw [hfirst]; decide)
  unfold readString
  rw [advance_embedded hc]
  simp only [position_embedded, rest_embedded,
    bodyRun_embedded false hopen.line_pos c.advance.rest hleft, decode_moved,
    content_moved, overrun_moved, unclosed_embedded, Reading.embedded,
    List.map_append]

/-- A character that begins no token, in both texts. -/
theorem readUnknown_embedded (hc : c.Open e.more) (char : Char) :
    readUnknown (c.embedded e).position char (c.embedded e) =
      (readUnknown c.position char c).embedded e := by
  unfold readUnknown
  rw [advance_embedded hc]
  rfl

/-- A line comment that does not end with the text, in both texts. -/
theorem readLineComment_embedded (hline : 0 < c.position.line) {limit : Nat}
    (hleft : e.more = [] ∨ (readLineComment limit c).behind.rest ≠ []) :
    readLineComment limit (c.embedded e) =
      (readLineComment limit c).embedded e := by
  unfold readLineComment
  rw [run_embedded hline hleft]
  simp only [content_moved, overrun_moved]
  rfl

/-- A block comment that does not end with the text, in both texts. -/
theorem readBlockComment_embedded (hline : 0 < c.position.line) {limit : Nat}
    (hleft : e.more = [] ∨ (readBlockComment limit c).behind.rest ≠ []) :
    readBlockComment limit (c.embedded e) =
      (readBlockComment limit c).embedded e := by
  unfold readBlockComment
  simp only [position_embedded, rest_embedded,
    commentRun_embedded hline c.rest hleft, content_moved, overrun_moved,
    unclosed_embedded, Reading.embedded, List.map_append, List.map_nil]

/-- A symbol or a comment that does not end with the text ends where it ended. -/
theorem readSymbol_embedded (hline : 0 < c.position.line) {limit : Nat}
    (hleft : e.more = [] ∨ (readSymbol limit c).behind.rest ≠ []) :
    readSymbol limit (c.embedded e) = (readSymbol limit c).embedded e := by
  have hmoves := liveRun_moves [] c.position c.rest
  have hbehind := liveRun_moves_readSymbol limit c
  have hlive := liveRun_embedded [] hline c.rest (hleft.imp id hbehind.rest_ne_nil)
  have hline' := hmoves.line_pos hline
  unfold readSymbol at hleft ⊢
  rw [position_embedded, rest_embedded, hlive]
  generalize liveRun [] c.position c.rest = run at hleft hline' ⊢
  obtain ⟨text, behind⟩ := run
  dsimp only at hleft hline' ⊢
  by_cases hcomment : text = Symbol.lineComment
  · simp only [if_pos hcomment] at hleft ⊢
    exact readLineComment_embedded hline' hleft
  · simp only [if_neg hcomment] at hleft ⊢
    by_cases hblock : text = Symbol.blockComment
    · simp only [if_pos hblock] at hleft ⊢
      exact readBlockComment_embedded hline' hleft
    · simp only [if_neg hblock]
      cases Symbol.ofChars? text <;> rfl

/-! ## The next token -/

/-- A semicolon is no part of a longer symbol. -/
theorem not_isLive_semicolon (x : Char) : Symbol.isLive [';', x] = false := by
  have hspelling : ∀ s ∈ Symbol.spellings, s.head? = some ';' → s = [';'] := by
    decide
  rw [Symbol.isLive, List.any_eq_false]
  intro s hs hprefix
  have hbegins : [';', x] <+: s := List.isPrefixOf_iff_prefix.mp hprefix
  obtain ⟨rest, rfl⟩ := hbegins
  exact absurd (hspelling _ hs rfl) (by simp)

/-- A semicolon is read without a look at what stands behind it. -/
theorem readFrom_semicolon (limit : Nat) (here : Position) {g : Glyph}
    (hg : g.char = ';') (rest : List Glyph) :
    readFrom limit ';' ⟨here, g :: rest⟩ =
      { lexeme := .symbol .semicolon, behind := ⟨here.after g, rest⟩ } := by
  have hfirst : Symbol.isLive [';'] = true := by decide
  have hrun : liveRun [] here (g :: rest) = ([';'], ⟨here.after g, rest⟩) := by
    rw [liveRun, hg, List.nil_append, if_pos hfirst]
    cases rest with
    | nil => rfl
    | cons h rest =>
        have hdead : Symbol.isLive ([';'] ++ [h.char]) = false :=
          not_isLive_semicolon h.char
        rw [liveRun, hdead]
        rfl
  rw [readFrom, if_pos hfirst, readSymbol, hrun]
  rfl

/-- The reader of a symbol keeps what it has read. -/
theorem liveRun_begins (text : List Char) (here : Position) (rest : List Glyph) :
    text <+: (liveRun text here rest).1 := by
  induction rest generalizing text here with
  | nil => exact List.prefix_refl text
  | cons g rest ih =>
      unfold liveRun
      split
      · exact (List.prefix_append text [g.char]).trans (ih _ _)
      · exact List.prefix_refl text

/-- Only a semicolon begins a token that is one. -/
theorem eq_semicolon_of_readFrom {limit : Nat} {first : Char}
    (hfirst : c.current? = some first)
    (h : (readFrom limit first c).lexeme = .symbol .semicolon) : first = ';' := by
  unfold readFrom at h
  split at h
  · rename_i hlive
    obtain ⟨here, _ | ⟨g, rest⟩⟩ := c
    · cases hfirst
    · obtain rfl : g.char = first := Option.some.inj hfirst
      have hbegins : [g.char] <+: (liveRun [] here (g :: rest)).1 := by
        rw [liveRun, List.nil_append, if_pos hlive]
        exact liveRun_begins _ _ _
      unfold readSymbol at h
      dsimp only at h
      generalize liveRun [] here (g :: rest) = run at h hbegins
      split at h
      · cases h
      · split at h
        · cases h
        · split at h
          · rename_i sign hsign
            obtain rfl : sign = .semicolon := Lexeme.symbol.inj h
            have hchars :=
              List.find?_some (p := fun s : Symbol => s.chars == run.1) hsign
            have htext : [';'] = run.1 := eq_of_beq hchars
            rw [← htext] at hbegins
            exact List.head_eq_of_cons_eq (hbegins.eq_of_length rfl)
          · cases h
  · split at h
    · unfold readWord at h
      dsimp only at h
      split at h <;> cases h
    · split at h
      · unfold readNumber readRadixNumber readDecimalNumber at h
        dsimp only at h
        split at h
        · cases h
        · split at h
          · cases h
          · dsimp only at h
            split at h <;> cases h
      · split at h <;> cases h

/-- Every token keeps clear of what stands behind the text, unless the text ends
with it. -/
theorem readFrom_embedded (hc : c.Open e.more) {limit : Nat} {first : Char}
    (hfirst : c.current? = some first)
    (hleft : e.more = [] ∨ (readFrom limit first c).behind.rest ≠ [] ∨
      first = ';') :
    readFrom limit first (c.embedded e) = (readFrom limit first c).embedded e := by
  by_cases hsemicolon : first = ';'
  · obtain ⟨here, _ | ⟨g, rest⟩⟩ := c
    · cases hfirst
    · have hg : g.char = ';' := (Option.some.inj hfirst).trans hsemicolon
      subst hsemicolon
      have hg' : (e.glyph here g).char = ';' := (e.char_glyph here g).trans hg
      simp only [Cursor.embedded, e.glyphs_cons, readFrom_semicolon limit _ hg,
        readFrom_semicolon limit _ hg', e.after_glyph hc.line_pos]
      rfl
  · have hbehind : e.more = [] ∨ (readFrom limit first c).behind.rest ≠ [] :=
      hleft.imp id fun h => h.resolve_right hsemicolon
    unfold readFrom at hbehind ⊢
    by_cases hlive : Symbol.isLive [first] = true
    · simp only [if_pos hlive] at hbehind ⊢
      exact readSymbol_embedded hc.line_pos hbehind
    · simp only [if_neg hlive] at hbehind ⊢
      by_cases hword : Character.isAlphabetic first = true
      · simp only [if_pos hword]
        exact readWord_embedded hc limit
      · simp only [if_neg hword] at hbehind ⊢
        by_cases hdigit : Character.isDigitOf 10 first = true
        · simp only [if_pos hdigit]
          exact readNumber_embedded hc limit
        · simp only [if_neg hdigit] at hbehind ⊢
          by_cases hquote : first = '"'
          · simp only [if_pos hquote] at hbehind ⊢
            exact readString_embedded hc (hquote ▸ hfirst) hbehind
          · simp only [if_neg hquote]
            exact readUnknown_embedded hc first

namespace Lexed

/-- The next token, in both texts, unless it ends with the text and could go on. -/
theorem next_embedded (hc : c.Open e.more) (limit : Nat)
    (hleft : e.more = [] ∨ (next limit c).2.rest ≠ [] ∨
      (next limit c).1.token.lexeme = .symbol .semicolon) :
    next limit (c.embedded e) =
      ((next limit c).1.moved e.place, (next limit c).2.embedded e) := by
  have hblank : Character.isBlank ';' = false := by decide
  have hskip : (c.embedded e).skip Character.isBlank =
      (c.skip Character.isBlank).embedded e := by
    rw [skip_eq_run, skip_eq_run, run_embedded hc.line_pos (run_left hc hblank)]
  have hopen : (c.skip Character.isBlank).Open e.more := by
    rw [skip_eq_run]
    exact run_open hc hblank
  unfold next at hleft ⊢
  dsimp only at hleft ⊢
  rw [hskip, current?_embedded hopen]
  generalize c.skip Character.isBlank = d at hleft hopen ⊢
  cases hfirst : d.current? with
  | none => rfl
  | some first =>
      simp only [hfirst] at hleft
      dsimp only
      rw [readFrom_embedded hopen hfirst
        (hleft.imp id (Or.imp id (eq_semicolon_of_readFrom hfirst)))]
      simp only [Reading.embedded, List.head?_map]
      rfl

/-- The end of the text is the last token. -/
theorem all_of_endOfText {limit : Nat}
    (h : (next limit c).1.token.lexeme = .endOfText) :
    all limit c = [(next limit c).1] := by
  rw [all, dif_pos h]

/-- Any other token has tokens behind it. -/
theorem all_of_ne {limit : Nat} (h : (next limit c).1.token.lexeme ≠ .endOfText) :
    all limit c = (next limit c).1 :: all limit (next limit c).2 := by
  rw [all, dif_neg h]

/-- The tokens of a text are found again where it is found, if nothing stands behind
it. -/
theorem all_embedded (hmore : e.more = []) (limit : Nat)
    (hline : 0 < c.position.line) :
    all limit (c.embedded e) = (all limit c).map (Lexed.moved e.place) := by
  have hnext : ∀ {c : Cursor}, 0 < c.position.line →
      next limit (c.embedded e) =
          ((next limit c).1.moved e.place, (next limit c).2.embedded e) :=
    fun hline => next_embedded ⟨hline, .inl hmore⟩ limit (.inl hmore)
  fun_induction all limit c with
  | case1 c step hend =>
      rw [all_of_endOfText (by rw [hnext hline]; exact hend), hnext hline]
      rfl
  | case2 c step hend ih =>
      rw [all_of_ne (by rw [hnext hline]; exact hend), hnext hline, List.map_cons]
      rw [ih ((next_moves limit c).line_pos hline)]

end Lexed

end ScriptLang
