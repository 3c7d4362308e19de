import ScriptLang.Proofs.Parse.Rungs

/-!
# Parsing loses nothing

Every rule of the grammar that raises no error writes down exactly the tokens it
took, and builds a tree in which every operator has operands that it can take.
There is one lemma for each rule, which assumes the same of the rules that are
nested in it, and `Rules.upTo_sound` ties the knot.
-/

namespace ScriptLang

/-- A statement whose operators all respect the ladder, and which a list of lexemes
writes. -/
structure Stmt.Spells (st : Stmt) (l : List Lexeme) : Prop where
  write_eq : st.write = l
  respects : st.Respects

/-- Rules that can be relied on as long as fewer than `n` tokens are left. -/
structure Rules.Sound (n : Nat) (r : Rules ParseState) : Prop where
  expression : Parse.Writes n r.expression (Expr.Spells 3)
  signed : Parse.Writes n r.signed (Expr.Spells 13)
  comparand : Parse.Writes n r.comparand (Expr.Spells 10)
  pattern : Parse.Writes n r.pattern (Expr.Spells 0)
  statement : Parse.Writes n r.statement Stmt.Spells
  eager : Parse.Eager n r.expression

/-- Things that are written one after the other, put together by `join`, and that
all satisfy `R`. -/
structure SpellsEach (w : α → List Lexeme) (R : α → Prop)
    (join : List (List Lexeme) → List Lexeme) (xs : List α)
    (l : List Lexeme) : Prop where
  write_eq : join (xs.map w) = l
  respects : ∀ x ∈ xs, R x

/-- A list with one more piece is written with this piece at its end. -/
theorem SpellsEach.concat {w : α → List Lexeme} {R : α → Prop}
    {join join' : List (List Lexeme) → List Lexeme} {xs : List α} {x : α}
    {l₀ l : List Lexeme} (h : SpellsEach w R join xs l₀) (hx : R x)
    (hjoin : join' (xs.map w ++ [w x]) = join (xs.map w) ++ l) :
    SpellsEach w R join' (xs ++ [x]) (l₀ ++ l) where
  write_eq := by rw [List.map_append, List.map_singleton, hjoin, h.write_eq]
  respects y hy := by
    rcases List.mem_append.mp hy with hy | hy
    · exact h.respects y hy
    · rw [List.mem_singleton.mp hy]
      exact hx

namespace Grammar

open Parse ParseState

variable {n : Nat} {r : Rules ParseState} {s : ParseState}

/-! ## Lists -/

/-- Things with a comma behind each of them. -/
abbrev Followed (w : α → List Lexeme) (R : α → Prop) :
    List α → List Lexeme → Prop :=
  SpellsEach w R fun pieces => pieces.flatMap (· ++ [.symbol .comma])

/-- Things with commas between them. -/
abbrev Separated (w : α → List Lexeme) (R : α → Prop) :
    List α → List Lexeme → Prop :=
  SpellsEach w R (Lexeme.separated (.symbol .comma))

/-- What follows one of them: a comma, behind which there is more, or nothing. -/
theorem comma_writes (w : α → List Lexeme) (R : α → Prop) (before : List α)
    (next : α) :
    Writes n (do
      if ← eat (.symbol .comma) then return .again (before ++ [next])
      else return .done (before ++ [next]))
      fun turn l => ∀ l₀, w next = l₀ ∧ R next →
        TurnWrites (Followed w R) (Separated w R) before turn (l₀ ++ l) := by
  refine Writes.eat (k := n) rfl (Nat.le_succ n) ?_ ?_
  · apply Writes.yield
    rintro l ⟨rfl, hnext⟩
    exact ⟨by simp, fun l₀ hbefore => hbefore.concat hnext (by simp)⟩
  · apply Writes.yield
    rintro l ⟨rfl, hnext⟩ l₀ hbefore
    exact hbefore.concat hnext (by rw [Lexeme.separated_concat, List.append_nil])

/-- A list with commas writes what it reads. -/
theorem commas_writes {item : Parse α} {w : α → List Lexeme} {R : α → Prop}
    (hitem : Writes n item fun a l => w a = l ∧ R a) :
    Writes n (repeating (fun before => do
      let next ← item
      if ← eat (.symbol .comma) then return .again (before ++ [next])
      else return .done (before ++ [next])) []) (Separated w R) := by
  apply Writes.repeating_nil (J := Followed w R) ⟨rfl, by simp⟩
  intro before
  exact hitem.bind fun next => comma_writes w R before next

/-- More things, each with a separator before it. -/
theorem more_writes {item : Parse α} {w : α → List Lexeme} {R : α → Prop}
    {kind : TokenKind} {x : Lexeme} (hx : kind.lexeme? = some x)
    (hitem : Writes n item fun a l => w a = l ∧ R a) (first : α) :
    Writes n (repeating (fun before => do
      if ← eat kind then return .again (before ++ [← item])
      else return .done before) [first])
      fun all l => R first → SpellsEach w R (Lexeme.separated x) all
        (w first ++ l) := by
  let J : List α → List Lexeme → Prop :=
    fun all l => all ≠ [] ∧ SpellsEach w R (Lexeme.separated x) all l
  have hloop : Writes n (repeating (fun before => do
      if ← eat kind then return .again (before ++ [← item])
      else return .done before) [first]) fun all l => ∀ l₀, J [first] l₀ →
          J all (l₀ ++ l) := by
    refine Writes.repeating (J := J) (W := J) ?_ [first]
    intro before
    refine Writes.eat (k := n) hx (Nat.le_succ n) ?_ ?_
    · refine hitem.bind fun next => Writes.yield ?_
      rintro l ⟨rfl, hnext⟩
      refine ⟨by simp, fun l₀ hbefore => ⟨by simp, hbefore.2.concat hnext ?_⟩⟩
      rw [Lexeme.separated_append_singleton x (by simpa using hbefore.1),
        List.append_nil]
    · apply Writes.yield
      intro l₀ hbefore
      rw [List.append_nil]
      exact hbefore
  refine hloop.imp fun all l h hfirst => (h (w first) ⟨by simp, ?_⟩).2
  exact ⟨by simp, by simpa using hfirst⟩

/-! ## Counters, parameters, groups and signs -/

theorem look_one_look_two (s : ParseState) : (s.look 1).look 2 = s.look 2 := by
  simp only [ParseState.look]
  congr 1
  omega

/-- The token behind the next one is the next one when that one is taken. -/
theorem token_take_kind {kind : TokenKind} (h : s.secondKind = kind)
    (hend : kind ≠ .endOfText) :
    s.take.token.kind = kind := by
  unfold ParseState.secondKind at h
  unfold ParseState.take ParseState.token
  split at h
  · rename_i hrest
    rw [hrest]
    exact h
  · exact absurd h.symm hend

/-- A name with a comma behind it is the counter of a loop. -/
theorem counter_of_name {name : String}
    (hname : s.token.lexeme = .identifier name) :
    counter s = (if s.secondKind = .symbol .comma then (do
      let _ ← bump
      let _ ← bump
      return some name)
    else return none : Parse (Option String)) (s.look 2) := by
  rw [← look_one_look_two s]
  unfold counter
  rw [bind_of_some (p := peek) rfl]
  simp only [hname]
  rfl

/-- Anything else is no counter. -/
theorem counter_of_other (hother : ∀ name, s.token.lexeme ≠ .identifier name) :
    counter s = (some none, s.look 1) := by
  unfold counter
  rw [bind_of_some (p := peek) rfl]
  cases hlexeme : s.token.lexeme with
  | identifier name => exact absurd hlexeme (hother name)
  | _ => rfl

/-- A name with a comma behind it is a counter.  Where there is no comma, the second
token has been looked at too early, which is made up for by the expression that
takes the first one. -/
theorem counter_writesAt {next : Option String → Parse α}
    {W : α → List Lexeme → Prop} (hs : s.rest.length < n)
    (hnext : ∀ c, Writes n (next c) fun a l => W a (Lexeme.counter c ++ l))
    (heager : Eager n (next none)) : WritesAt s (counter >>= next) W := by
  by_cases hname : ∃ name, s.token.lexeme = .identifier name
  · obtain ⟨name, hname⟩ := hname
    by_cases hcomma : s.secondKind = .symbol .comma
    · let rest : Parse α := bump >>= fun _ => bump >>= fun _ => next (some name)
      have hcounter : counter s = (some (some name), (s.look 2).take.take) := by
        rw [counter_of_name hname, if_pos hcomma]
        rfl
      have hrun : (counter >>= next) s = rest (s.look 2) := bind_of_some hcounter
      have hsecond : (s.look 2).take.token.lexeme = .symbol .comma :=
        Lexeme.eq_of_kind (token_take_kind (s := s.look 2) hcomma (by simp)) rfl
      have hlength : (s.look 2).take.rest.length < n := by
        refine Nat.lt_of_le_of_lt ?_ hs
        simp [ParseState.take, ParseState.look]
      have hbehind : WritesAt (s.look 2).take (bump >>= fun _ => next (some name))
          fun a l => W a (.identifier name :: l) :=
        WritesAt.bump hsecond (by simp) (Nat.lt_succ_of_lt hlength)
          (hnext (some name))
      exact WritesAt.after_look_two hrun (WritesAt.bump_at hname (by simp) hbehind)
        hbehind.taken_le
    · have hcounter : counter s = (some none, s.look 2) := by
        rw [counter_of_name hname, if_neg hcomma]
        rfl
      have hkind : s.token.kind.IsEager := .inl (by rw [Token.kind, hname]; rfl)
      exact WritesAt.after_look_two (bind_of_some hcounter)
        (hnext none (s.look 2) hs)
        (heager (s.look 2) hs hkind)
  · have hcounter := counter_of_other (s := s) fun name h => hname ⟨name, h⟩
    exact WritesAt.after (bind_of_some hcounter) (Walk.look s) rfl
      (hnext none (s.look 1) hs)

/-- A parameter is written as it is read. -/
theorem parameter_writes : Writes n parameter fun p l => p.write = l ∧ True := by
  refine Writes.here fun start => (Writes.flag rfl).bind fun const =>
    Writes.peekKind fun kind => ?_
  split
  · exact Writes.noExpression
  · refine Writes.identifier.bind fun name =>
      (Writes.flag rfl).bind fun nonNull => ?_
    refine Writes.spanFrom fun span => Writes.yield ?_
    rintro l rfl l₁ rfl l₀ rfl
    simp [Parameter.write]

/-- Parameters are separated by commas; a name that is there twice is reported, and
the walk goes on. -/
theorem parameters_writes : Writes n parameters fun ps l =>
    l = Lexeme.separated (.symbol .comma) (ps.map Parameter.write) ++
      [.symbol .rightParen] := by
  refine Writes.eat (k := n) rfl (Nat.le_succ n) (Writes.yield rfl) ?_
  refine Writes.bind (V := Separated Parameter.write fun _ => True) ?_ ?_
  · refine Writes.repeating_nil (J := Followed Parameter.write fun _ => True)
      ⟨rfl, by simp⟩ ?_
    intro before
    apply parameter_writes.bind
    intro next
    have hcomma := comma_writes (n := n) Parameter.write (fun _ => True) before next
    dsimp only
    split
    · exact Writes.raise _ _ hcomma
    · exact hcomma
  · intro all
    refine Writes.expect_bind rfl (Writes.yield fun l hall => ?_)
    rw [← hall.write_eq]

/-- A group behind its opening parenthesis. -/
theorem groupingRest_writes {inner : Parse Expr} {k : Nat}
    (hinner : Writes n inner (Expr.Spells k)) (start : Position) :
    Writes n (do
      let inner ← inner
      expect (.symbol .rightParen)
      return ⟨.grouping inner, ← spanFrom start⟩ : Parse Expr)
      fun e l => e.Spells 16 (.symbol .leftParen :: l) := by
  refine hinner.bind fun e =>
    Writes.expect_bind rfl (Writes.spanFrom fun span => Writes.yield ?_)
  refine fun l he => ⟨?_, .grouping he.respects, Nat.le_refl 16⟩
  simp [Expr.write, Node.write, Lexeme.enclosed, he.write_eq]

/-- An expression in parentheses is written as a grouping. -/
theorem grouping_writesAt {inner : Parse Expr} {k : Nat}
    (hinner : Writes n inner (Expr.Spells k)) (hs : s.rest.length < n + 1)
    (hx : s.token.lexeme = .symbol .leftParen) :
    WritesAt s (grouping inner) (Expr.Spells 16) :=
  WritesAt.bump hx (by simp) hs (groupingRest_writes hinner _)

/-- A grouping takes at least its first parenthesis. -/
theorem grouping_takes {inner : Parse Expr} {k : Nat}
    (hinner : Writes n inner (Expr.Spells k)) (hs : s.rest.length < n + 1)
    (hx : s.token.lexeme = .symbol .leftParen) :
    s.taken < (grouping inner s).2.taken := by
  have hlength := length_take_lt (s := s) (by simp [hx]) hs
  have hrest := groupingRest_writes hinner s.token.span.start s.take hlength
  exact Nat.lt_of_lt_of_le (Nat.lt_succ_self s.taken) hrest.taken_le

/-- A literal is written as its token. -/
theorem literal?_eq_some {x : Lexeme} {value : Literal}
    (h : literal? x = some value) :
    x = value.lexeme ∧ x ≠ .endOfText := by
  cases x with
  | keyword word => cases word <;> cases h <;> exact ⟨rfl, by simp⟩
  | integer v =>
      cases h
      exact ⟨rfl, by simp⟩
  | float v =>
      cases h
      exact ⟨rfl, by simp⟩
  | string text =>
      cases h
      exact ⟨rfl, by simp⟩
  | _ => cases h

/-- The operators that stand before an operand or between two: each is written by
one token and stands on a given rung. -/
structure Stands (x : Lexeme) (k : Nat) (o : Operator) : Prop where
  ne_end : x ≠ .endOfText
  lexemes_eq : o.lexemes = [x]
  rung_eq : o.rung = k

/-- A sign is written as its token. -/
theorem sign?_eq_some {x : Lexeme} {o : Operator} (h : sign? x.kind = some o) :
    Stands x 13 o ∧ ∀ e, 13 ≤ Expr.rung e → o.Governs e := by
  unfold sign? at h
  split at h <;> rename_i hkind <;> cases h <;> rw [Lexeme.eq_of_kind hkind rfl] <;>
    exact ⟨⟨by simp, rfl, rfl⟩, fun e he => he⟩

/-- An assignment is written as its token. -/
theorem assignment?_eq_some {x : Lexeme} {o : Operator}
    (h : assignment? x.kind = some o) :
    Stands x 3 o ∧ ∀ name span right, 3 ≤ Expr.rung right →
      o.Joins ⟨.name name, span⟩ right := by
  unfold assignment? at h
  split at h <;> rename_i hkind <;> cases h <;> rw [Lexeme.eq_of_kind hkind rfl] <;>
    exact ⟨⟨by simp, rfl, rfl⟩, fun name span e he => ⟨⟨name, rfl⟩, he⟩⟩

/-- A comparison that begins a pattern is written as its token. -/
theorem patternComparison_eq_some {x : Lexeme} {o : Operator}
    (h : (comparison? x.kind).bind Operator.ofComparison? = some o) :
    Stands x 2 o ∧ ∀ e, 10 ≤ Expr.rung e → o.Governs e := by
  unfold comparison? at h
  split at h <;> rename_i hkind <;> cases h <;> rw [Lexeme.eq_of_kind hkind rfl] <;>
    exact ⟨⟨by simp, rfl, rfl⟩, fun e he => he⟩

variable (hr : r.Sound n)
include hr

/-! ## Blocks and bodies -/

/-- A statement that fails has raised an error, and the token that began none is
there to be skipped. -/
theorem statementOrSkip_writesAt {f : Stmt → Parse α} {q : Parse α}
    {W : α → List Lexeme → Prop} (hend : s.token.kind ≠ .endOfText)
    (hs : s.rest.length < n)
    (hf : ∀ st, Writes n (f st) fun a l => ∀ l₀, st.Spells l₀ → W a (l₀ ++ l))
    (hq : Writes n q fun _ _ => True) :
    WritesAt s (do
      let takenBefore ← taken
      match ← attempt r.statement with
      | some statement => f statement
      | none =>
        if (← taken) = takenBefore then
          let _ ← bump
        q) W := by
  refine WritesAt.taken ((hr.statement s hs).attempt.bind fun o s' es _ hwalk => ?_)
  have hs' := Nat.lt_of_le_of_lt hwalk.length_le hs
  cases o with
  | some st =>
      apply (hf st s' hs').imp
      rintro a l hW l₀ ⟨st', hst, hspells⟩
      cases hst
      exact hW l₀ hspells
  | none =>
      refine WritesAt.imp (W := fun _ _ => True) ?_ ?_
      · apply WritesAt.taken
        split
        · rename_i htaken
          have hes : es = [] := by
            have hlength := hwalk.taken_eq
            exact List.eq_nil_of_length_eq_zero (by omega)
          subst hes
          have htoken := hwalk.token_eq hend
          exact WritesAt.bump rfl (ne_endOfText_of_kind (htoken ▸ hend))
            (Nat.lt_succ_of_lt hs') hq
        · exact hq s' hs'
      · rintro a l _ l₀ ⟨_, hst, _⟩
        cases hst

/-- Statements are written as they are read. -/
theorem statements_writes :
    Writes n (statements r) (SpellsEach Stmt.write Stmt.Respects List.flatten) := by
  refine Writes.repeating_nil
    (J := SpellsEach Stmt.write Stmt.Respects List.flatten)
    ⟨rfl, by simp⟩ fun before s hs => ?_
  apply WritesAt.peekKind
  split
  · exact WritesAt.yield fun l₀ h => by simpa using h
  · exact WritesAt.yield fun l₀ h => by simpa using h
  · rename_i hend
    refine statementOrSkip_writesAt hr hend hs (fun st => ?_) (Writes.yield trivial)
    split
    · rename_i hterminated
      refine Writes.yield fun l hst => ⟨?_, fun l₀ hbefore => ?_⟩
      · -- The semicolon has been taken at least.
        rw [List.append_nil, ← hst.write_eq]
        cases st
        simp_all [Stmt.write]
      · exact hbefore.concat hst.respects (by simp [hst.write_eq])
    · apply Writes.yield
      intro l hst l₀ hbefore
      exact hbefore.concat hst.respects (by simp [hst.write_eq])

/-- A block is written as it is read. -/
theorem block_writesAt (hs : s.rest.length < n + 1)
    (hx : s.token.lexeme = .symbol .leftBrace) :
    WritesAt s (block r) (Expr.Spells 16) := by
  apply WritesAt.bump hx (by simp) hs
  refine (statements_writes hr).bind fun inner => Writes.expect_bind rfl ?_
  refine Writes.spanFrom fun span => Writes.yield ?_
  intro l hinner
  refine ⟨?_, .block hinner.respects, Nat.le_refl 16⟩
  simp [Expr.write, Node.write, Stmt.writeEach_eq_map, ← hinner.write_eq]

/-- A body is written as it is read. -/
theorem body_writes : Writes n (body r) (Expr.Spells 3) := by
  intro s hs
  apply WritesAt.peekKind
  split
  · rename_i hkind
    have hx : (s.look 1).token.lexeme = .symbol .leftBrace :=
      Lexeme.eq_of_kind hkind rfl
    have hblock := block_writesAt hr (s := s.look 1) (Nat.lt_succ_of_lt hs) hx
    exact hblock.imp fun _ _ h => h.mono (by decide)
  · split
    · exact hr.expression _ hs
    · exact Writes.noExpression _ hs

/-- An expression in parentheses, which stand in its place. -/
theorem parenthesised_writes :
    Writes n (parenthesised r) fun e l => Lexeme.enclosed e.write = l ∧
      e.Respects := by
  refine Writes.expect_bind rfl
    (hr.expression.bind fun inner => Writes.expect_bind rfl ?_)
  refine Writes.yield fun l hinner => ⟨?_, hinner.respects⟩
  simp [Lexeme.enclosed, hinner.write_eq]

/-! ## Conditionals, loops and functions -/

/-- An alternative of a conditional is written as it is read. -/
theorem alternative_writes : Writes n (alternative r) fun a l =>
    a.write = l ∧ a.condition.Respects ∧ a.body.Respects := by
  refine (parenthesised_writes hr).bind fun condition =>
    (body_writes hr).bind fun body => ?_
  apply Writes.yield
  rintro l hbody l₀ ⟨rfl, hcondition⟩
  exact ⟨by simp [Alternative.write, hbody.write_eq], hcondition, hbody.respects⟩

/-- A conditional is written as it is read. -/
theorem conditional_writesAt (hs : s.rest.length < n + 1)
    (hx : s.token.lexeme = .keyword .if_) :
    WritesAt s (conditional r) (Expr.Spells 16) := by
  apply WritesAt.bump hx (by simp) hs
  apply (alternative_writes hr).bind
  intro first
  apply (more_writes rfl (alternative_writes hr) first).bind
  intro branches
  refine Writes.eat (k := n) rfl (Nat.le_succ n) ?_ ?_
  · refine Writes.bind (V := fun o l => ∃ e, o = some e ∧ Expr.Spells 3 e l)
      ((body_writes hr).map fun e l h => ⟨e, rfl, h⟩) fun otherwise => ?_
    refine Writes.spanFrom fun span => Writes.yield ?_
    rintro l ⟨e, rfl, he⟩ l₁ hbranches l₀ ⟨rfl, hfirst⟩
    have hall := hbranches hfirst
    refine ⟨?_, .conditional (fun a ha => (hall.respects a ha).1)
      (fun a ha => (hall.respects a ha).2) ?_,
      Nat.le_refl 16⟩
    · simp [Expr.write, Node.write, Alternative.writeEach_eq_map, hall.write_eq,
        Expr.writeAfter, he.write_eq]
    · simpa using he.respects
  · refine Writes.pure_bind (Writes.spanFrom fun span => Writes.yield ?_)
    rintro l₁ hbranches l₀ ⟨rfl, hfirst⟩
    have hall := hbranches hfirst
    refine ⟨?_, .conditional (fun a ha => (hall.respects a ha).1)
      (fun a ha => (hall.respects a ha).2) ?_,
      Nat.le_refl 16⟩
    · simp [Expr.write, Node.write, Alternative.writeEach_eq_map, hall.write_eq,
        Expr.writeAfter]
    · simp

/-- A loop with a condition is written as it is read. -/
theorem whileLoop_writesAt (hs : s.rest.length < n + 1)
    (hx : s.token.lexeme = .keyword .while_) :
    WritesAt s (whileLoop r) (Expr.Spells 16) := by
  apply WritesAt.bump hx (by simp) hs
  refine (parenthesised_writes hr).bind fun condition =>
    (body_writes hr).bind fun body => ?_
  refine Writes.spanFrom fun span => Writes.yield ?_
  rintro l hbody l₀ ⟨rfl, hcondition⟩
  refine ⟨?_, .whileLoop hcondition hbody.respects, Nat.le_refl 16⟩
  simp [Expr.write, Node.write, hbody.write_eq]

/-- A loop behind its bounds. -/
theorem forBody_writes (counter : Option String) (first : Option Expr) (stop : Expr)
    (step : Option Expr) (position : Position) :
    Writes n (do
      expect (.symbol .rightParen)
      let body ← body r
      return ⟨.forLoop counter first stop step body, ← spanFrom position⟩ :
        Parse Expr) fun e l =>
        ∃ body span, e = ⟨.forLoop counter first stop step body, span⟩ ∧
          body.Respects ∧
          l = .symbol .rightParen :: body.write := by
  refine Writes.expect_bind rfl ((body_writes hr).bind fun body => ?_)
  refine Writes.spanFrom fun span => Writes.yield fun l hbody => ?_
  exact ⟨body, span, rfl, hbody.respects, by simp [hbody.write_eq]⟩

/-- One bound is where the loop stops; two or three are where it starts, where it
stops, and its step. -/
theorem forBounds_writes (counter : Option String) (first : Expr)
    (position : Position) :
    Writes n (do
      let (from?, stop, step?) ←
        if ← eat (.symbol .colon) then do
          let stop ← r.expression
          let step? ← if ← eat (.symbol .colon) then some <$> r.expression
            else pure none
          pure (some first, stop, step?)
        else pure (none, first, none)
      expect (.symbol .rightParen)
      let body ← body r
      return ⟨.forLoop counter from? stop step? body, ← spanFrom position⟩ :
        Parse Expr) fun e l =>
        ∀ l₀, first.Spells 3 l₀ → e.Spells 16
          (.keyword .for_ :: .symbol .leftParen ::
            (Lexeme.counter counter ++ (l₀ ++ l))) := by
  refine Writes.eat (k := n) rfl (Nat.le_succ n) ?_ ?_
  · refine hr.expression.bind fun stop =>
      Writes.eat (k := n) rfl (Nat.le_succ n) ?_ ?_
    · refine Writes.bind (V := fun o l => ∃ e, o = some e ∧ Expr.Spells 3 e l)
        (hr.expression.map fun e l h => ⟨e, rfl, h⟩) fun step => ?_
      apply (forBody_writes hr counter (some first) stop step position).imp
      rintro _ l ⟨body, span, rfl, hbody, rfl⟩ l₂ ⟨e, rfl, he⟩ l₁ hstop l₀ hfirst
      refine ⟨?_, .forLoop ?_ hstop.respects ?_ hbody, Nat.le_refl 16⟩
      · simp [Expr.write, Node.write, Lexeme.enclosed, Expr.writeBefore,
          Expr.writeAfter, he.write_eq, hstop.write_eq, hfirst.write_eq]
      · simpa using hfirst.respects
      · simpa using he.respects
    · apply (forBody_writes hr counter (some first) stop none position).imp
      rintro _ l ⟨body, span, rfl, hbody, rfl⟩ l₁ hstop l₀ hfirst
      refine ⟨?_, .forLoop ?_ hstop.respects (by simp) hbody, Nat.le_refl 16⟩
      · simp [Expr.write, Node.write, Lexeme.enclosed, Expr.writeBefore,
          Expr.writeAfter, hstop.write_eq, hfirst.write_eq]
      · simpa using hfirst.respects
  · apply (forBody_writes hr counter none first none position).imp
    rintro _ l ⟨body, span, rfl, hbody, rfl⟩ l₀ hfirst
    refine ⟨?_, .forLoop (by simp) hfirst.respects (by simp) hbody, Nat.le_refl 16⟩
    simp [Expr.write, Node.write, Lexeme.enclosed, Expr.writeBefore,
      Expr.writeAfter, hfirst.write_eq]

/-- A loop over a range is written as it is read. -/
theorem forLoop_writesAt (hs : s.rest.length < n + 1)
    (hx : s.token.lexeme = .keyword .for_) :
    WritesAt s (forLoop r) (Expr.Spells 16) := by
  refine WritesAt.bump hx (by simp) hs (Writes.expect_bind rfl fun s hs => ?_)
  refine counter_writesAt hs ?_ ?_
  · exact fun counter => hr.expression.bind fun first =>
      forBounds_writes hr counter first _
  · exact hr.eager.bind hr.expression fun first => forBounds_writes hr none first _

/-- A function is written as it is read. -/
theorem functionDef_writesAt (hs : s.rest.length < n + 1)
    (hx : s.token.lexeme = .keyword .functi) :
    WritesAt s (functionDef r) (Expr.Spells 16) := by
  refine WritesAt.bump hx (by simp) hs (Writes.expect_bind rfl ?_)
  refine parameters_writes.bind fun parameters =>
    (body_writes hr).bind fun body => ?_
  refine Writes.spanFrom fun span => Writes.yield ?_
  rintro l hbody l₀ rfl
  refine ⟨?_, .function hbody.respects, Nat.le_refl 16⟩
  simp [Expr.write, Node.write, FunctionDef.write, Lexeme.enclosed, hbody.write_eq]

/-! ## Matching -/

/-- A branch behind its pattern. -/
theorem branchBehind_writes (pattern : Option Expr) (start : Position) :
    Writes n (branchBehind r start pattern) fun b l =>
      b.pattern = pattern ∧ b.consequent.Respects ∧
        l = .symbol .colon :: b.consequent.write ++ [.symbol .semicolon] := by
  refine Writes.expect_bind rfl
    ((body_writes hr).bind fun consequent => Writes.expect_bind rfl ?_)
  refine Writes.spanFrom fun span => Writes.yield ?_
  intro l hconsequent
  exact ⟨rfl, hconsequent.respects, by simp [hconsequent.write_eq]⟩

/-- A branch of a match is written as it is read. -/
theorem branch_writes (hasDefault : Bool) :
    Writes n (branch r hasDefault) fun b l =>
      b.write = l ∧ (∀ e ∈ b.pattern, e.Respects) ∧ b.consequent.Respects := by
  refine Writes.here fun start => Writes.eat (k := n) rfl (Nat.le_succ n) ?_ ?_
  · have hwrite : ∀ (b : Branch) (l : List Lexeme), b.pattern = none ∧
      b.consequent.Respects ∧
        l = .symbol .colon :: b.consequent.write ++ [.symbol .semicolon] →
        b.write = .keyword .default :: l ∧ (∀ e ∈ b.pattern, e.Respects) ∧
            b.consequent.Respects := by
      rintro ⟨pattern, consequent, span⟩ l ⟨hpattern, hconsequent, rfl⟩
      dsimp only at hpattern
      subst hpattern
      exact ⟨by simp [Branch.write], by simp, hconsequent⟩
    have hdefault := (branchBehind_writes hr none start).imp hwrite
    cases hasDefault with
    | true => exact Writes.raise _ _ hdefault
    | false => exact hdefault
  · refine Writes.bind (V := fun o l => ∃ e, o = some e ∧ Expr.Spells 0 e l)
      (hr.pattern.map fun e l h => ⟨e, rfl, h⟩) fun pattern => ?_
    apply (branchBehind_writes hr pattern start).imp
    rintro ⟨_, consequent, span⟩ l ⟨rfl, hconsequent, rfl⟩ l₀ ⟨e, he, hpattern⟩
    dsimp only at he
    subst he
    exact ⟨by simp [Branch.write, hpattern.write_eq],
      by simpa using hpattern.respects, hconsequent⟩

/-- A match is written as it is read. -/
theorem matching_writesAt (hs : s.rest.length < n + 1)
    (hx : s.token.lexeme = .keyword .match_) :
    WritesAt s (matching r) (Expr.Spells 16) := by
  let Each : List Branch → List Lexeme → Prop := SpellsEach Branch.write
    (fun b => (∀ e ∈ b.pattern, e.Respects) ∧ b.consequent.Respects) List.flatten
  apply WritesAt.bump hx (by simp) hs
  refine (parenthesised_writes hr).bind fun argument => Writes.expect_bind rfl ?_
  refine Writes.bind (V := Each)
    (Writes.repeating_nil (J := Each) ⟨rfl, by simp⟩ fun before => ?_) ?_
  · intro s hs
    apply WritesAt.peekKind
    split
    · exact WritesAt.yield fun l₀ h => by simpa using h
    · exact WritesAt.yield fun l₀ h => by simpa using h
    · refine (branch_writes hr _ (s.look 1) hs).bind fun b s' _ _ _ =>
        WritesAt.yield ?_
      rintro l ⟨rfl, hb⟩
      refine ⟨?_, fun l₀ hbefore => hbefore.concat hb (by simp)⟩
      obtain ⟨_ | pattern, consequent, span⟩ := b <;> simp [Branch.write]
  · intro branches
    refine Writes.expect_bind rfl (Writes.spanFrom fun span => Writes.yield ?_)
    rintro l hbranches l₀ ⟨rfl, hargument⟩
    refine ⟨?_, .matching hargument (fun b hb => (hbranches.respects b hb).1)
      (fun b hb => (hbranches.respects b hb).2), Nat.le_refl 16⟩
    simp [Expr.write, Node.write, Branch.writeEach_eq_map, ← hbranches.write_eq]

/-! ## Operands -/

/-- A type, or a cast to it, is written as it is read. -/
theorem typeOrCast_writesAt (hs : s.rest.length < n + 1) {target : TypeName}
    (hx : s.token.lexeme = .keyword target.keyword) :
    WritesAt s (typeOrCast r target) (Expr.Spells 16) := by
  refine WritesAt.bump hx (by simp) hs
    (Writes.eat (k := n) rfl (Nat.le_succ n) ?_ ?_)
  · refine hr.expression.bind fun operand => Writes.expect_bind rfl ?_
    refine Writes.spanFrom fun span => Writes.yield fun l hoperand => ?_
    refine ⟨?_, .cast hoperand.respects, Nat.le_refl 16⟩
    simp [Expr.write, Node.write, Lexeme.enclosed, hoperand.write_eq]
  · exact Writes.yield ⟨rfl, .type, Nat.le_refl 16⟩

/-- The arguments of a call are written as they are read. -/
theorem arguments_writes : Writes n (arguments r) fun es l =>
    l = Lexeme.separated (.symbol .comma) (es.map Expr.write) ++
      [.symbol .rightParen] ∧
      ∀ e ∈ es, e.Respects := by
  refine Writes.eat (k := n) rfl (Nat.le_succ n) (Writes.yield ⟨rfl, by simp⟩) ?_
  have hargument := hr.expression.imp fun e l h => And.intro h.write_eq h.respects
  refine (commas_writes hargument).bind fun all => Writes.expect_bind rfl ?_
  refine Writes.yield fun l hall => ⟨?_, hall.respects⟩
  rw [← hall.write_eq]

/-- What stands on the highest rung is written as it is read. -/
theorem primary_writes : Writes (n + 1) (primary r) (Expr.Spells 16) := by
  intro s hs
  apply WritesAt.peek
  split
  · rename_i value hvalue
    obtain ⟨hx, hend⟩ := literal?_eq_some hvalue
    exact WritesAt.bump (s := s.look 1) hx (hx ▸ hend) hs
      (Writes.yield ⟨rfl, .literal, Nat.le_refl 16⟩)
  · split
    · rename_i name hname
      exact WritesAt.bump (s := s.look 1) hname (by simp) hs
        (Writes.yield ⟨rfl, .name, Nat.le_refl 16⟩)
    · rename_i hx
      exact grouping_writesAt (s := s.look 1) hr.expression hs hx
    · rename_i hx
      exact block_writesAt (s := s.look 1) hr hs hx
    · rename_i hx
      exact conditional_writesAt (s := s.look 1) hr hs hx
    · rename_i hx
      exact forLoop_writesAt (s := s.look 1) hr hs hx
    · rename_i hx
      exact whileLoop_writesAt (s := s.look 1) hr hs hx
    · rename_i hx
      exact functionDef_writesAt (s := s.look 1) hr hs hx
    · rename_i hx
      exact matching_writesAt (s := s.look 1) hr hs hx
    · split
      · rename_i target htarget
        exact typeOrCast_writesAt (s := s.look 1) hr hs (typeName?_eq_some htarget)
      · exact Writes.noExpression (s.look 1) hs

theorem primary_climbs : Climbs (n + 1) 16 (primary r) where
  writes := primary_writes hr
  eager s hs heager := by
    unfold primary
    rw [bind_of_some (p := peek) rfl]
    rcases eager_lexeme heager with ⟨name, hname⟩ | hparen
    · rw [hname]
      exact Nat.lt_succ_self s.taken
    · rw [hparen]
      exact grouping_takes (s := s.look 1) hr.expression hs hparen

/-- Calls and members are joined from the left. -/
theorem chain_climbs : Climbs (n + 1) 15 (chain r) := by
  apply (primary_climbs hr).bind
  intro first
  refine (Writes.repeating (J := Expr.Spells 15) (W := Expr.Spells 15) ?_ first).imp
    fun e l h l₀ hfirst => h l₀ (hfirst.mono (by decide))
  intro e s hs
  apply WritesAt.peekKind
  split
  · rename_i hkind
    apply WritesAt.bump (s := s.look 1) (Lexeme.eq_of_kind hkind rfl) (by simp) hs
    refine Writes.here fun start => Writes.identifier.bind fun name =>
      Writes.spanFrom fun span => ?_
    apply Writes.yield
    rintro l rfl
    refine ⟨by simp, fun l₀ he =>
      ⟨?_, .binary ⟨he.rung_le, name, rfl⟩ he.respects .name, Nat.le_refl 15⟩⟩
    simp [Expr.binary, Expr.write, Node.write, Operator.lexemes, he.write_eq]
  · rename_i hkind
    apply WritesAt.bump (s := s.look 1) (Lexeme.eq_of_kind hkind rfl) (by simp) hs
    refine (arguments_writes hr).bind fun arguments => Writes.spanFrom fun span =>
      Writes.yield ?_
    rintro l ⟨rfl, harguments⟩
    refine ⟨by simp, fun l₀ he =>
      ⟨?_, .call he.rung_le he.respects harguments, Nat.le_refl 15⟩⟩
    simp [Expr.write, Node.write, Lexeme.enclosed,
      Expr.writeEach_eq_map, he.write_eq]
  · exact WritesAt.yield fun l₀ h => by simpa using h

/-- A power is written as it is read. -/
theorem power_climbs : Climbs (n + 1) 14 (power r) := by
  refine (chain_climbs hr).bind fun base =>
    Writes.eat (k := n) rfl (Nat.le_refl _) ?_ ?_
  · refine hr.signed.bind fun exponent => Writes.yield ?_
    intro l hexponent l₀ hbase
    refine ⟨?_, .binary ⟨hbase.rung_le, hexponent.rung_le⟩ hbase.respects
      hexponent.respects, Nat.le_refl 14⟩
    simp [Expr.binary, Expr.write, Node.write, Operator.lexemes, hbase.write_eq,
      hexponent.write_eq]
  · apply Writes.yield
    intro l₀ hbase
    rw [List.append_nil]
    exact hbase.mono (by decide)

/-- An expression with signs before it is written as it is read. -/
theorem signed_climbs : Climbs (n + 1) 13 (signed r) where
  writes s hs := by
    apply WritesAt.peek
    split
    · rename_i operator hoperator
      obtain ⟨hstands, hgoverns⟩ := sign?_eq_some hoperator
      refine WritesAt.bump (s := s.look 1) rfl hstands.ne_end hs
        (hr.signed.bind fun operand => ?_)
      refine Writes.yield fun l hoperand =>
        ⟨?_, ?_, Nat.le_of_eq hstands.rung_eq.symm⟩
      · simp [Expr.unary, Expr.write, Node.write, hstands.lexemes_eq,
          hoperand.write_eq]
      · exact .unary (hgoverns operand hoperand.rung_le) hoperand.respects
    · exact ((power_climbs hr).writes (s.look 1) hs).imp fun _ _ h =>
        h.mono (by decide)
  eager s hs heager := by
    have hsign : sign? s.token.kind = none := by
      rcases heager with h | h <;> rw [h] <;> rfl
    unfold signed
    rw [bind_of_some (p := peek) rfl]
    simp only [hsign]
    exact (power_climbs hr).eager (s.look 1) hs heager

/-! ## The ladder -/

/-- The operand of a comparison is written as it is read. -/
theorem comparand_climbs : Climbs (n + 1) 10 (comparand r) :=
  leftAssoc_climbs concatenation_isRung (leftAssoc_climbs additive_isRung
    (leftAssoc_climbs multiplicative_isRung (signed_climbs hr)))

/-- What stands on the rung of type tests is written as it is read. -/
theorem typeTest_climbs : Climbs (n + 1) 8 (typeTest r) := by
  have hoperand := leftAssoc_climbs comparison_isRung (comparand_climbs hr)
  refine hoperand.bind fun first => (typeTests_writes first).imp ?_
  exact fun e l h l₀ hfirst => h l₀ (hfirst.mono (by decide))

/-- An expression is written as it is read. -/
theorem expression_climbs : Climbs (n + 1) 3 (expression r) := by
  have hoperand :=
    leftAssoc_climbs coalescing_isRung (leftAssoc_climbs piping_isRung
    (leftAssoc_climbs disjunction_isRung
      (leftAssoc_climbs conjunction_isRung (typeTest_climbs hr))))
  refine hoperand.bind fun left s hs => WritesAt.peek ?_
  split
  · exact WritesAt.yield fun l₀ hleft => by simpa using hleft.mono (by decide)
  · rename_i operator hoperator
    obtain ⟨hstands, hjoins⟩ := assignment?_eq_some hoperator
    apply WritesAt.bump (s := s.look 1) rfl hstands.ne_end hs
    have hright : Writes n (do return Expr.binary left operator (← r.expression))
        fun e l =>
        ∃ right, e = Expr.binary left operator right ∧ right.Spells 3 l :=
      hr.expression.bind fun right => Writes.yield fun l h =>
        ⟨right, rfl, by simpa using h⟩
    obtain ⟨node, span⟩ := left
    cases node with
    | name text =>
        apply hright.imp
        rintro _ l ⟨right, rfl, hright⟩ l₀ hleft
        refine ⟨?_, .binary (hjoins _ _ _ hright.rung_le) hleft.respects
          hright.respects,
          Nat.le_of_eq hstands.rung_eq.symm⟩
        have hwrite := hleft.write_eq
        simp only [Expr.binary, Expr.write, Node.write, hstands.lexemes_eq,
          hright.write_eq, token_look] at hwrite ⊢
        simp [← hwrite]
    | _ => exact Writes.raise _ _ hright

/-! ## Patterns -/

/-- A pattern without connectives is written as it is read. -/
theorem patternAtom_writes : Writes (n + 1) (patternAtom r) (Expr.Spells 2) := by
  intro s hs
  apply WritesAt.peek
  split
  · rename_i operator hoperator
    obtain ⟨hstands, hgoverns⟩ := patternComparison_eq_some hoperator
    refine WritesAt.bump (s := s.look 1) rfl hstands.ne_end hs
      (hr.comparand.bind fun operand => ?_)
    refine Writes.yield fun l hoperand =>
      ⟨?_, ?_, Nat.le_of_eq hstands.rung_eq.symm⟩
    · simp [Expr.unary, Expr.write, Node.write, hstands.lexemes_eq,
        hoperand.write_eq]
    · exact .unary (hgoverns operand hoperand.rung_le) hoperand.respects
  · split
    · rename_i hkind
      apply WritesAt.bump (s := s.look 1) (Lexeme.eq_of_kind hkind rfl) (by simp) hs
      refine (Writes.flag rfl).bind fun negated =>
        typeOperand_writes.bind fun target => Writes.yield ?_
      rintro l ⟨htarget, htype⟩ l₁ rfl
      refine ⟨?_, .unary ?_ htarget.respects, ?_⟩
      · cases negated <;>
          simp [Expr.unary, Expr.write, Node.write, Operator.lexemes,
            htarget.write_eq]
      · cases negated <;> exact htype
      · cases negated <;> exact Nat.le_refl 2
    · split
      · rename_i hkind
        have hparen : s.token.lexeme = .symbol .leftParen :=
          Lexeme.eq_of_kind hkind rfl
        have hexpression := (expression_climbs hr).writes ((s.look 1).look 2) hs
        cases hgroup : startsPatternGroup (s.look 1).secondKind with
        | true =>
            refine WritesAt.after_look_two (p := grouping r.pattern) ?_ ?_ ?_
            · rw [bind_of_some (p := peekSecondKind) rfl, if_pos hgroup]
            · have hatom :=
                grouping_writesAt (s := (s.look 1).look 2) hr.pattern hs hparen
              exact hatom.imp fun _ _ h => h.mono (by decide)
            · exact grouping_takes (s := (s.look 1).look 2) hr.pattern hs hparen
        | false =>
            refine WritesAt.after_look_two (p := expression r) ?_ ?_ ?_
            · rw [bind_of_some (p := peekSecondKind) rfl, hgroup]
              rfl
            · exact hexpression.imp fun _ _ h => h.mono (by decide)
            · exact (expression_climbs hr).eager ((s.look 1).look 2) hs (.inr hkind)
      · exact ((expression_climbs hr).writes (s.look 1) hs).imp fun _ _ h =>
          h.mono (by decide)

/-- A pattern is written as it is read. -/
theorem pattern_writes : Writes (n + 1) (pattern r) (Expr.Spells 0) :=
  leftAssoc_writes patternOr_isRung
    (leftAssoc_writes patternAnd_isRung (patternAtom_writes hr))

/-! ## Statements -/

/-- An action whose operators all respect the ladder, and which a list of lexemes
writes. -/
def SpellsAction (a : Action) (l : List Lexeme) : Prop :=
  a.write = l ∧ ∀ terminated span, Stmt.Respects ⟨a, terminated, span⟩

omit hr in
/-- A pull. -/
theorem pull_writesAt (hs : s.rest.length < n + 1)
    (hx : s.token.lexeme = .keyword .pull) :
    WritesAt s pull SpellsAction := by
  have hname : Writes n identifier fun name l =>
      [Lexeme.identifier name] = l ∧ True :=
    Writes.identifier.imp fun name l h => ⟨h.symm, trivial⟩
  refine WritesAt.bump hx (by simp) hs (hname.bind fun first => ?_)
  refine (more_writes rfl hname first).bind fun path => Writes.yield ?_
  rintro l hpath l₀ ⟨rfl, _⟩
  refine ⟨?_, fun _ _ => .pull⟩
  simp [Action.write, (hpath trivial).write_eq]

omit hr in
/-- What is reported about a binding takes no tokens. -/
theorem bindingEnd_writes (name : String) (const : Bool) (value : Option Expr)
    (start : Position) :
    Writes n (do
      match value with
      | none => if const then raise (.constWithoutValue name) start
      | some ⟨.literal .null, _⟩ => if !const then warn (.nullValue name) start
      | some _ => pure ()
      return ⟨name, const, value, ← spanFrom start⟩ : Parse Binding) fun b l =>
        l = [] ∧ ∃ span, b = ⟨name, const, value, span⟩ := by
  have hend : Writes n (do return ⟨name, const, value, ← spanFrom start⟩ :
      Parse Binding) fun b l =>
      l = [] ∧ ∃ span, b = ⟨name, const, value, span⟩ :=
    Writes.spanFrom fun span => Writes.yield ⟨rfl, span, rfl⟩
  dsimp only
  split
  · split
    · exact Writes.raise _ _ hend
    · exact hend
  · split
    · exact Writes.warn _ _ hend
    · exact hend
  · exact hend

/-- A binding is written as it is read. -/
theorem binding_writes :
    Writes n (binding r) fun b l => b.write = l ∧ ∀ e ∈ b.value, e.Respects := by
  refine Writes.here fun start => (Writes.flag rfl).bind fun const =>
    Writes.identifier.bind fun name => ?_
  refine Writes.eat (k := n) rfl (Nat.le_succ n) ?_ ?_
  · have hvalue := (expression_climbs hr).writes.anti (Nat.le_succ n)
    refine Writes.bind (V := fun o l => ∃ e, o = some e ∧ Expr.Spells 3 e l)
      (hvalue.map fun e l h => ⟨e, rfl, h⟩) fun value => ?_
    apply (bindingEnd_writes name const value start).imp
    rintro _ _ ⟨rfl, span, rfl⟩ l₂ ⟨e, rfl, he⟩ l₁ rfl l₀ rfl
    refine ⟨?_, by simpa using he.respects⟩
    simp [Binding.write, Expr.writeAfter, he.write_eq]
  · refine Writes.pure_bind ((bindingEnd_writes name const none start).imp ?_)
    rintro _ _ ⟨rfl, span, rfl⟩ l₁ rfl l₀ rfl
    exact ⟨by simp [Binding.write, Expr.writeAfter], by simp⟩

/-- A declaration is written as it is read. -/
theorem declare_writesAt (hs : s.rest.length < n + 1)
    (hx : s.token.lexeme = .keyword .init) :
    WritesAt s (Grammar.declare r) SpellsAction := by
  refine WritesAt.bump hx (by simp) hs
    ((commas_writes (binding_writes hr)).bind fun bindings => ?_)
  refine Writes.yield fun l hbindings =>
    ⟨?_, fun _ _ => .declare hbindings.respects⟩
  simp [Action.write, Binding.writeEach_eq_map, ← hbindings.write_eq]

/-- An action is written as it is read. -/
theorem action_writes : Writes (n + 1) (action r) SpellsAction := by
  intro s hs
  apply WritesAt.peekKind
  split
  · rename_i hkind
    exact pull_writesAt (s := s.look 1) hs (Lexeme.eq_of_kind hkind rfl)
  · rename_i hkind
    exact declare_writesAt (s := s.look 1) hr hs (Lexeme.eq_of_kind hkind rfl)
  · rename_i hkind
    apply WritesAt.bump (s := s.look 1) (Lexeme.eq_of_kind hkind rfl) (by simp) hs
    exact Writes.yield ⟨rfl, fun _ _ => .break_⟩
  · rename_i hkind
    apply WritesAt.bump (s := s.look 1) (Lexeme.eq_of_kind hkind rfl) (by simp) hs
    refine (parenthesised_writes hr).bind fun condition => Writes.yield ?_
    rintro l ⟨rfl, hcondition⟩
    exact ⟨by simp [Action.write], fun _ _ => .breakIf hcondition⟩
  · rename_i hkind
    apply WritesAt.bump (s := s.look 1) (Lexeme.eq_of_kind hkind rfl) (by simp) hs
    apply Writes.peekKind
    intro kind
    split
    · refine hr.expression.bind fun e => Writes.yield fun l he =>
        ⟨?_, fun _ _ => .return_ ?_⟩
      · simp [Action.write, Expr.writeAfter, he.write_eq]
      · simpa using he.respects
    · exact Writes.yield ⟨rfl, fun _ _ => .return_ (by simp)⟩
  · refine ((expression_climbs hr).writes (s.look 1) hs).bind fun e s' _ _ _ =>
      WritesAt.yield ?_
    exact fun l he =>
      ⟨by simp [Action.write, he.write_eq], fun _ _ => .evaluate he.respects⟩

/-- A statement is written as it is read. -/
theorem statement_writes : Writes (n + 1) (statement r) Stmt.Spells := by
  refine Writes.here fun start => (action_writes hr).bind fun action =>
    (Writes.flag rfl).bind
    fun terminated => ?_
  have hend : Writes (n + 1)
      (do return ⟨action, terminated, ← spanFrom start⟩ : Parse Stmt) fun st l =>
      ∀ l₁, (l₁ = if terminated then [Lexeme.symbol .semicolon] else []) →
        ∀ l₀, SpellsAction action l₀ → st.Spells (l₀ ++ (l₁ ++ l)) := by
    refine Writes.spanFrom fun span => Writes.yield ?_
    rintro l₁ rfl l₀ ⟨rfl, haction⟩
    exact ⟨by simp [Stmt.write], haction terminated span⟩
  cases action with
  | evaluate e =>
      dsimp only
      split
      · exact Writes.warn _ _ hend
      · exact hend
  | _ => exact hend

end Grammar

/-! ## All rules -/

namespace Rules

open Grammar

/-- One more layer of nesting is good for one more token. -/
theorem deepen_sound {n : Nat} {r : Rules ParseState} (hr : r.Sound n) :
    r.deepen.Sound (n + 1) where
  expression := (expression_climbs hr).writes
  signed := (signed_climbs hr).writes
  comparand := (comparand_climbs hr).writes
  pattern := pattern_writes hr
  statement := statement_writes hr
  eager := (expression_climbs hr).eager

/-- Rules with any number of levels write what they read. -/
theorem upTo_sound (n : Nat) : (upTo n).Sound n := by
  induction n with
  | zero =>
      have hnone : ∀ {α : Type} {p : Parse α} {W : α → List Lexeme → Prop},
          Parse.Writes 0 p W :=
        fun s hs => absurd hs (Nat.not_lt_zero _)
      exact ⟨hnone, hnone, hnone, hnone, hnone,
        fun s hs => absurd hs (Nat.not_lt_zero _)⟩
  | succ n ih =>
      rw [upTo_succ]
      exact deepen_sound ih

end Rules

theorem Parse.statement_eq (s : ParseState) :
    Parse.statement s = (Rules.upTo (s.rest.length + 1)).statement s := rfl

/-- A statement writes the tokens it took. -/
theorem Parse.statement_writesAt (s : ParseState) :
    WritesAt s Parse.statement Stmt.Spells := by
  have hstatement :=
    (Rules.upTo_sound (s.rest.length + 1)).statement s (Nat.lt_succ_self _)
  unfold WritesAt at hstatement ⊢
  rw [statement_eq]
  exact hstatement

namespace ParseState

/-- A step that yields a statement has parsed one, and has done nothing else. -/
theorem advance_statement {s : ParseState} {st : Stmt}
    (hst : s.advance.1.statement = some st) :
    s.token.kind ≠ .endOfText ∧
      Parse.statement (s.look 1) = (some st, s.advance.2) ∧
      s.advance.1.success = (s.advance.2.errorCount == (s.look 1).errorCount) := by
  rw [advance_eq] at hst ⊢
  dsimp only at hst ⊢
  split at hst
  · cases hst
  · rename_i hend
    refine ⟨fun hkind => hend (by simp [atEnd, hkind]), ?_⟩
    rw [if_neg hend]
    dsimp only at hst ⊢
    rcases hrun : Parse.statement (s.look 1) with ⟨result, after⟩
    rw [hrun] at hst
    dsimp only at hst
    subst hst
    simp

/-- A step through a script that yields a statement and raises no syntax error has
taken exactly the tokens that the statement is written with, and every operator in
the statement respects the ladder. -/
theorem advance_writes (s : ParseState) {st : Stmt}
    (hst : s.advance.1.statement = some st)
    (herrors : s.advance.2.errors = s.errors) :
    ∃ es, s.rest = es ++ s.advance.2.rest ∧
      es.map (fun e => e.token.lexeme) = st.write ∧
      st.Respects := by
  obtain ⟨_, hrun, _⟩ := advance_statement hst
  obtain ⟨es, hwalk, hvalue⟩ := Parse.statement_writesAt (s.look 1)
  rw [hrun] at hwalk hvalue
  obtain ⟨st', hst', hspells⟩ := hvalue (congrArg Array.size herrors)
  cases hst'
  exact ⟨es, hwalk.rest_eq, hspells.write_eq.symm, hspells.respects⟩

/-- The step through a text in which an exponent re-enters the signs and a name is
assigned to. -/
theorem advance_writes_assignment :
    let s := ParseState.ofText 4096 "x = (a+1)^-b(c);"
    s.advance.2.errors = s.errors ∧ ∃ st, s.advance.1.statement = some st ∧
      ∃ es, s.rest = es ++ s.advance.2.rest ∧
        es.map (fun e => e.token.lexeme) = st.write ∧
        st.Respects := by
  intro s
  have herrors : s.advance.2.errors = s.errors := by decide +kernel
  have hsome : s.advance.1.statement.isSome = true := by decide +kernel
  obtain ⟨st, hst⟩ := Option.isSome_iff_exists.mp hsome
  exact ⟨herrors, st, hst, advance_writes s hst herrors⟩

end ParseState

end ScriptLang
