import ScriptLang.Parse.Grammar
import ScriptLang.Proofs.Parse.Pairing

/-!
# The grammar keeps pairings

Every rule of the grammar does the same on two states that are paired, up to places.
And where errors end the comparison, every tree that comes out makes sense to
evaluation: a tree that does not is never built without an error.

There is one lemma for each rule; `Pairing.upTo_tracks` puts them together, and
`Pairing.statement_pairs` states the result for one statement.
-/

namespace ScriptLang

/-! ## Moved trees -/

/-- Whether an expression does nothing is independent of where it stands. -/
theorem Node.isInert_moved (φ : Position → Position) :
    ∀ node : Node, (node.moved φ).isInert = node.isInert
  | .grouping ⟨inner, _⟩ => isInert_moved φ inner
  | .block _ | .conditional .. | .forLoop .. | .whileLoop .. | .function
      _ | .matching .. | .binary .. |
    .unary .. | .call .. | .name _ | .literal _ | .cast .. | .type _ => rfl

namespace Pairing

open Parse ParseState Grammar

variable {τ : Type} [TokenSource τ] {P : Pairing τ} [P.Lawful]

/-- Spans that are moved are joined as before. -/
theorem join_moved (a b : Span) :
    (a.join b).moved P.move = (a.moved P.move).join (b.moved P.move) := by
  simp [Span.join, Span.moved, Lawful.move_earlier, Lawful.move_later]

/-- The span of a binary expression moves with its operands. -/
theorem binary_moved (left : Expr) (o : Operator) (right : Expr) :
    Expr.binary (left.moved P.move) o (right.moved P.move) =
      (Expr.binary left o right).moved P.move := by
  simp [Expr.binary, Expr.moved, Node.moved, join_moved]

/-- The span of a unary expression moves with its sign and operand. -/
theorem unary_moved (o : Operator) (sign : Span) (operand : Expr) :
    Expr.unary o (sign.moved P.move) (operand.moved P.move) =
      (Expr.unary o sign operand).moved P.move := by
  simp [Expr.unary, Expr.moved, Node.moved, join_moved]

/-! ## What comes out -/

variable (P)

/-- An expression that took a token and, if errors end the comparison, can be
evaluated. -/
def Built (e : Expr) (k : Nat) : Prop := 0 < k ∧ (P.strict → e.Evaluable)

/-- A pattern that took a token and, if errors end the comparison, can be matched
with. -/
def BuiltPattern (e : Expr) (k : Nat) : Prop := 0 < k ∧ (P.strict → e.Matchable)

/-- A statement that took a token and, if errors end the comparison, can be
performed. -/
def BuiltStmt (st : Stmt) (k : Nat) : Prop := 0 < k ∧ (P.strict → st.Evaluable)

/-- Rules for what is nested that keep a pairing. -/
structure TracksRules (n : Nat) (r : Rules ParseState) (r' : Rules τ) : Prop where
  expression : P.Tracks n r.expression r'.expression (Expr.moved P.move) P.Built
  signed : P.Tracks n r.signed r'.signed (Expr.moved P.move) P.Built
  comparand : P.Tracks n r.comparand r'.comparand (Expr.moved P.move) P.Built
  pattern : P.Tracks n r.pattern r'.pattern (Expr.moved P.move) P.BuiltPattern
  statement : P.Tracks n r.statement r'.statement (Stmt.moved P.move) P.BuiltStmt

variable {P} {n : Nat} {s : ParseState} {r : Rules ParseState} {r' : Rules τ}

/-! ## Lists -/

theorem forall_mem_concat {R : α → Prop} {before : List α} {next : α}
    (hbefore : ∀ a ∈ before, R a) (hnext : R next) :
    ∀ a ∈ before ++ [next], R a := by
  intro a ha
  rcases List.mem_append.mp ha with ha | ha
  · exact hbefore a ha
  · exact List.mem_singleton.mp ha ▸ hnext

/-- Items with a token before each but the first. -/
theorem more_tracks {item : Parse α} {item' : ParseOn τ α} {f : α → α}
    {R : α → Prop} (kind : TokenKind)
    (hitem : P.Tracks n item item' f fun a _ => R a) (first : α) :
    P.Tracks n
      (repeating (fun before => do
        if ← eat kind then return .again (before ++ [← item])
        else return .done before) [first])
      (repeating (fun before => do
        if ← eat kind then return .again (before ++ [← item'])
        else return .done before) [f first])
      (List.map f) fun all _ => R first → all ≠ [] ∧ ∀ a ∈ all, R a := by
  let J : List α → Prop := fun all => R first → all ≠ [] ∧ ∀ a ∈ all, R a
  refine (Tracks.repeating (f := List.map f) (J := J) (fun before => ?_)
    (a := [first]) rfl).imp ?_
  · refine (Tracks.eat kind).bind_id fun taken => ?_
    cases taken with
    | true =>
        refine hitem.bind fun next => Tracks.yield (by simp [Turn.map]) ?_
        intro j hnext k hk
        have hpos := hk rfl
        exact ⟨by omega, fun hbefore hfirst =>
          ⟨by simp, forall_mem_concat (hbefore hfirst).2 hnext⟩⟩
    | false => exact Tracks.yield rfl fun _ _ h => h
  · intro all k h
    exact h fun hfirst => ⟨by simp, by simpa using hfirst⟩

/-- Items with commas between them. -/
theorem commas_tracks {item : Parse α} {item' : ParseOn τ α} {f : α → α}
    {R : α → Prop} (hitem : P.Tracks n item item' f fun a _ => R a) :
    P.Tracks n
      (repeating (fun before => do
        let next ← item
        if ← eat (.symbol .comma) then return .again (before ++ [next])
        else return .done (before ++ [next])) [])
      (repeating (fun before => do
        let next ← item'
        if ← eat (.symbol .comma) then return .again (before ++ [next])
        else return .done (before ++ [next])) [])
      (List.map f) fun all _ => ∀ a ∈ all, R a := by
  let J : List α → Prop := fun all => ∀ a ∈ all, R a
  refine (Tracks.repeating (f := List.map f) (J := J) (fun before => ?_)
    (a := []) rfl).imp
    fun all k h => h (by simp [J])
  refine hitem.bind fun next => (Tracks.eat _).bind_id fun taken => ?_
  cases taken with
  | true =>
      refine Tracks.yield (by simp [Turn.map]) ?_
      intro k hk j hnext
      have hpos := hk rfl
      exact ⟨by omega, fun hbefore => forall_mem_concat hbefore hnext⟩
  | false =>
      refine Tracks.yield (by simp [Turn.map]) ?_
      exact fun _ _ _ hnext hbefore => forall_mem_concat hbefore hnext

/-! ## Blocks and bodies -/

variable (hr : P.TracksRules n r r')
include hr

/-- A statement, or the token that is skipped where there is none: a token is taken
either way. -/
theorem statementOrSkip_tracks {f : α → α} {V : α → Nat → Prop} {g : Stmt → Parse α}
    {g' : Stmt → ParseOn τ α} {q : Parse α} {q' : ParseOn τ α}
    (hg : ∀ st, P.Tracks n (g st) (g' (st.moved P.move)) f fun a j => ∀ k,
      P.BuiltStmt st k → V a (k + j))
    (hq : P.Tracks n q q' f fun a j => ∀ k, 0 < k → V a (k + j)) :
    P.Tracks n
      (do
        let takenBefore ← taken
        match ← attempt r.statement with
        | some st => g st
        | none =>
          if (← taken) = takenBefore then
            let _ ← bump
          q)
      (do
        let takenBefore ← taken
        match ← attempt r'.statement with
        | some st => g' st
        | none =>
          if (← taken) = takenBefore then
            let _ ← bump
          q') f V := by
  intro s
  apply TracksAt.taken
  refine (hr.statement s).attempt.bind (fun _ k _ => Nat.le_add_right n k)
    fun o s₁ _ => ?_
  cases o with
  | some st => exact (hg st s₁).imp fun a j h k _ hst => h k (hst st rfl)
  | none =>
      apply TracksAt.taken
      by_cases htaken : s₁.taken = s.taken
      · have htaken' : s₁.taken + P.ahead = s.taken + P.ahead := by rw [htaken]
        rw [if_pos htaken, if_pos htaken']
        have hskip : P.Tracks (n + 1) (bump >>= fun _ => q)
            (bump >>= fun _ => q') f fun a j =>
            ∀ k, V a (k + j) := by
          refine Tracks.bump fun _ => hq.imp fun a j h k => ?_
          have hV := h (k + 1) (Nat.succ_pos k)
          rwa [Nat.add_assoc, Nat.add_comm 1 j] at hV
        exact (hskip.anti (Nat.le_succ n) s₁).imp fun a j h k _ _ => h k
      · have htaken' : s₁.taken + P.ahead ≠ s.taken + P.ahead := by omega
        rw [if_neg htaken, if_neg htaken']
        exact (hq s₁).imp fun a j h k hk _ => h k (by omega)

/-- Statements keep pairings. -/
theorem statements_tracks :
    P.Tracks n (statements r) (statements r') (List.map (Stmt.moved P.move))
      fun all _ => ∀ st ∈ all, P.strict → st.Evaluable := by
  let J : List Stmt → Prop := fun all => ∀ st ∈ all, P.strict → st.Evaluable
  refine (Tracks.repeating (f := List.map (Stmt.moved P.move)) (J := J)
    (fun before => ?_) (a := []) rfl).imp
    fun all k h => h (by simp [J])
  refine Tracks.peekKind fun kind => ?_
  split
  · exact Tracks.yield rfl id
  · exact Tracks.yield rfl id
  · refine statementOrSkip_tracks hr (fun st => ?_)
      (Tracks.yield rfl fun k hk => ⟨hk, id⟩)
    rw [Stmt.terminated_moved]
    split
    · refine Tracks.yield (by simp [Turn.map]) fun k hst => ?_
      exact ⟨hst.1, fun hbefore => forall_mem_concat hbefore hst.2⟩
    · exact Tracks.yield (by simp [Turn.map]) fun k hst hbefore =>
        forall_mem_concat hbefore hst.2

/-- A block keeps pairings. -/
theorem block_tracks :
    P.Tracks (n + 1) (block r) (block r') (Expr.moved P.move) P.Built := by
  refine Tracks.bump fun t => (statements_tracks hr).bind fun inner => ?_
  refine (Tracks.expect _).bind_id fun _ => Tracks.spanFrom rfl fun span =>
    Tracks.yield ?_ ?_
  · simp [Expr.moved, Node.moved]
  · intro _ _ k hinner
    exact ⟨by omega, fun hP => .block fun st hst => hinner st hst hP⟩

/-- A body keeps pairings. -/
theorem body_tracks :
    P.Tracks n (body r) (body r') (Expr.moved P.move) P.Built := by
  refine Tracks.peekKind fun kind => ?_
  split
  · exact (block_tracks hr).anti (Nat.le_succ n)
  · split
    · exact hr.expression
    · exact Tracks.noExpression

/-- An expression in parentheses keeps pairings. -/
theorem parenthesised_tracks :
    P.Tracks n (parenthesised r) (parenthesised r')
      (Expr.moved P.move) P.Built := by
  refine (Tracks.expect _).bind_id fun _ => hr.expression.bind fun inner => ?_
  refine (Tracks.expect _).bind_id fun _ => Tracks.yield rfl ?_
  intro _ _ k hinner _ _
  have hpos := hinner.1
  exact ⟨by omega, hinner.2⟩

/-! ## Conditionals, loops and functions -/

/-- An alternative of a conditional keeps pairings. -/
theorem alternative_tracks :
    P.Tracks n (alternative r) (alternative r') (Alternative.moved P.move)
      fun a _ => P.strict → a.condition.Evaluable ∧ a.body.Evaluable := by
  refine (parenthesised_tracks hr).bind fun condition =>
    (body_tracks hr).bind fun body => ?_
  refine Tracks.yield (by simp [Alternative.moved]) ?_
  exact fun _ hbody _ hcondition hP => ⟨hcondition.2 hP, hbody.2 hP⟩

/-- A conditional keeps pairings. -/
theorem conditional_tracks :
    P.Tracks (n + 1) (conditional r) (conditional r')
      (Expr.moved P.move) P.Built := by
  refine Tracks.bump fun t => (alternative_tracks hr).bind fun first => ?_
  refine (more_tracks _ (alternative_tracks hr) first).bind fun branches => ?_
  refine (Tracks.eat _).bind_id fun taken => ?_
  have hend : ∀ otherwise : Option Expr, P.Tracks n
      (do return ⟨.conditional branches otherwise, ← spanFrom t.span.start⟩ :
        Parse Expr)
      (do
        return ⟨.conditional (branches.map (Alternative.moved P.move))
          (otherwise.map (Expr.moved P.move)),
          ← spanFrom (t.moved P.move).span.start⟩)
      (Expr.moved P.move) fun e _ =>
        ((∀ a ∈ branches, P.strict → a.condition.Evaluable ∧ a.body.Evaluable) →
        (∀ e ∈ otherwise, P.strict → e.Evaluable) → P.strict → e.Evaluable) := by
    intro otherwise
    refine Tracks.spanFrom rfl fun span =>
      Tracks.yield (by simp [Expr.moved, Node.moved]) ?_
    intro hbranches hotherwise hP
    exact .conditional (fun a ha => (hbranches a ha hP).1)
      (fun a ha => (hbranches a ha hP).2)
      fun e he => hotherwise e he hP
  cases taken with
  | true =>
      refine Tracks.bind (e := Option.map (Expr.moved P.move))
        (U := fun o _ => ∀ e ∈ o, P.strict → e.Evaluable) ?_ fun otherwise => ?_
      · exact (body_tracks hr).map (fun _ => rfl) fun e k h => by simpa using h.2
      · refine (hend otherwise).imp ?_
        intro e j h k₃ hotherwise k₂ _ k₁ hbranches k₀ hfirst
        exact ⟨by omega, h (hbranches hfirst).2 hotherwise⟩
  | false =>
      refine (hend none).imp ?_
      intro e j h k₂ _ k₁ hbranches k₀ hfirst
      exact ⟨by omega, h (hbranches hfirst).2 (by simp)⟩

/-- A loop with a condition keeps pairings. -/
theorem whileLoop_tracks :
    P.Tracks (n + 1) (whileLoop r) (whileLoop r') (Expr.moved P.move) P.Built := by
  refine Tracks.bump fun t => (parenthesised_tracks hr).bind fun condition => ?_
  refine (body_tracks hr).bind fun body => Tracks.spanFrom rfl fun span =>
    Tracks.yield ?_ ?_
  · simp [Expr.moved, Node.moved]
  · intro _ hbody _ hcondition
    exact ⟨by omega, fun hP => .whileLoop (hcondition.2 hP) (hbody.2 hP)⟩

/-- A loop behind its bounds. -/
theorem forBody_tracks (counter : Option String) (first : Option Expr) (stop : Expr)
    (step : Option Expr) (position : Position) :
    P.Tracks n
      (do
        expect (.symbol .rightParen)
        let body ← body r
        return ⟨.forLoop counter first stop step body, ← spanFrom position⟩ :
          Parse Expr)
      (do
        expect (.symbol .rightParen)
        let body ← body r'
        return ⟨.forLoop counter (first.map (Expr.moved P.move)) (stop.moved P.move)
          (step.map (Expr.moved P.move)) body, ← spanFrom (P.move position)⟩)
      (Expr.moved P.move) fun e _ => (∀ e ∈ first, P.strict → e.Evaluable) →
        (P.strict → stop.Evaluable) →
        (∀ e ∈ step, P.strict → e.Evaluable) → P.strict → e.Evaluable := by
  refine (Tracks.expect _).bind_id fun _ => (body_tracks hr).bind fun body => ?_
  refine Tracks.spanFrom rfl fun span =>
    Tracks.yield (by simp [Expr.moved, Node.moved]) ?_
  intro _ hbody _ _ hfirst hstop hstep hP
  exact .forLoop (fun e he => hfirst e he hP) (hstop hP)
    (fun e he => hstep e he hP) (hbody.2 hP)

omit hr in
/-- The counter of a loop. -/
theorem counter_tracks : P.Tracks n counter counter id fun _ _ => True := by
  refine Tracks.peek fun t => ?_
  rw [Token.lexeme_moved]
  split
  · refine Tracks.peekSecondKind fun kind => ?_
    split
    · refine (Tracks.bump (n := n) fun _ => ?_).anti (Nat.le_succ n)
      refine (Tracks.bump (n := n) fun _ => ?_).anti (Nat.le_succ n)
      exact Tracks.yield rfl trivial
    · exact Tracks.yield rfl trivial
  · exact Tracks.yield rfl trivial

/-- A loop over a range keeps pairings. -/
theorem forLoop_tracks :
    P.Tracks (n + 1) (forLoop r) (forLoop r') (Expr.moved P.move) P.Built := by
  refine Tracks.bump fun t => (Tracks.expect _).bind_id fun _ =>
    counter_tracks.bind_id fun counter => ?_
  refine hr.expression.bind fun first => (Tracks.eat _).bind_id fun bounded => ?_
  cases bounded with
  | true =>
      refine hr.expression.bind fun stop => (Tracks.eat _).bind_id fun stepped => ?_
      cases stepped with
      | true =>
          refine Tracks.bind (e := Option.map (Expr.moved P.move))
            (U := fun o _ => ∀ e ∈ o, P.strict → e.Evaluable) ?_ fun step => ?_
          · exact hr.expression.map (fun _ => rfl) fun e k h => by simpa using h.2
          · refine (forBody_tracks hr counter (some first) stop step _).imp ?_
            intro e j h k₅ hstep k₄ _ k₃ hstop k₂ _ k₁ hfirst k₀ _ _ _
            exact ⟨by omega, h (by simpa using hfirst.2) hstop.2 hstep⟩
      | false =>
          refine (forBody_tracks hr counter (some first) stop none _).imp ?_
          intro e j h k₄ _ k₃ hstop k₂ _ k₁ hfirst k₀ _ _ _
          exact ⟨by omega, h (by simpa using hfirst.2) hstop.2 (by simp)⟩
  | false =>
      refine (forBody_tracks hr counter none first none _).imp ?_
      intro e j h k₂ _ k₁ hfirst k₀ _ _ _
      exact ⟨by omega, h (by simp) hfirst.2 (by simp)⟩

omit hr in
/-- A parameter. -/
theorem parameter_tracks :
    P.Tracks n parameter parameter (Parameter.moved P.move) fun _ _ => True := by
  refine Tracks.here fun start => (Tracks.eat _).bind_id fun const =>
    Tracks.peekKind fun kind => ?_
  split
  · exact Tracks.noExpression
  · refine Tracks.identifier.bind_id fun name =>
      (Tracks.eat _).bind_id fun nonNull => ?_
    exact Tracks.spanFrom rfl fun span =>
      Tracks.yield rfl fun _ _ _ _ _ _ => trivial

omit hr in
/-- Parameters. -/
theorem parameters_tracks :
    P.Tracks n parameters parameters (List.map (Parameter.moved P.move)) fun _ _ =>
      True := by
  refine (Tracks.eat _).bind_id fun taken => ?_
  cases taken with
  | true => exact Tracks.yield rfl fun _ _ => trivial
  | false =>
      refine Tracks.bind (e := List.map (Parameter.moved P.move))
        (U := fun _ _ => True → True) ?_
        fun all => (Tracks.expect _).bind_id fun _ =>
          Tracks.yield rfl fun _ _ _ _ _ _ => trivial
      refine Tracks.repeating (J := fun _ => True)
        (fun before => parameter_tracks.bind fun next => ?_) rfl
      have hend : P.Tracks n
          (do
            if ← eat (.symbol .comma) then return .again (before ++ [next])
            else return .done (before ++ [next]))
          (do
            if ← eat (.symbol .comma) then
              return .again (before.map (Parameter.moved P.move) ++
                [next.moved P.move])
            else return .done (before.map (Parameter.moved P.move) ++
              [next.moved P.move]))
          (Turn.map (List.map (Parameter.moved P.move)))
          fun turn j => ∀ k, True → Keeps (fun _ => True) before turn (k + j) := by
        refine (Tracks.eat _).bind_id fun taken => ?_
        cases taken with
        | true =>
            refine Tracks.yield (by simp [Turn.map]) fun k hk j _ => ⟨?_, id⟩
            have hpos := hk rfl
            omega
        | false => exact Tracks.yield (by simp [Turn.map]) fun _ _ _ _ => id
      have hany : (before.map (Parameter.moved P.move)).any
        (fun p => p.name = (next.moved P.move).name) =
          before.any fun p => p.name = next.name := by
        rw [List.any_map]
        rfl
      dsimp only
      rw [hany]
      split
      · exact Tracks.raise rfl (hend.imp fun _ _ h _ => h)
      · exact hend

/-- A function keeps pairings. -/
theorem functionDef_tracks :
    P.Tracks (n + 1) (functionDef r) (functionDef r')
      (Expr.moved P.move) P.Built := by
  refine Tracks.bump fun t => (Tracks.expect _).bind_id fun _ =>
    parameters_tracks.bind fun parameters => ?_
  refine (body_tracks hr).bind fun body => Tracks.spanFrom rfl fun span =>
    Tracks.yield ?_ ?_
  · simp [Expr.moved, Node.moved, FunctionDef.moved]
  · intro _ hbody _ _ _ _
    exact ⟨by omega, fun hP => .function (hbody.2 hP)⟩

/-! ## Matching -/

/-- A branch behind its pattern. -/
theorem branchBehind_tracks (pattern : Option Expr) (start : Position) :
    P.Tracks n (branchBehind r start pattern)
      (branchBehind r' (P.move start) (pattern.map (Expr.moved P.move)))
      (Branch.moved P.move) fun b _ => b.pattern = pattern ∧
        (P.strict → b.consequent.Evaluable) := by
  refine (Tracks.expect _).bind_id fun _ =>
    (body_tracks hr).bind fun consequent => ?_
  refine (Tracks.expect _).bind_id fun _ => Tracks.spanFrom rfl fun span => ?_
  refine Tracks.yield (by simp [Branch.moved]) ?_
  intro _ _ _ hconsequent _ _
  exact ⟨rfl, hconsequent.2⟩

/-- A branch takes the word `default` or the tokens of its pattern. -/
theorem branch_tracks (hasDefault : Bool) :
    P.Tracks n (branch r hasDefault) (branch r' hasDefault)
      (Branch.moved P.move) fun b k =>
      0 < k ∧ (P.strict → (∀ e ∈ b.pattern, e.Matchable) ∧
        b.consequent.Evaluable) := by
  refine Tracks.here fun start => (Tracks.eat _).bind_id fun isDefault => ?_
  cases isDefault with
  | true =>
      have hdefault :=
        (branchBehind_tracks hr none start).imp
          (W := fun b j => ∀ k, (true = true → 0 < k) →
          0 < k + j ∧ (P.strict → (∀ e ∈ b.pattern, e.Matchable) ∧
              b.consequent.Evaluable)) <| by
        intro b j hb k hk
        have hpos := hk rfl
        refine ⟨by omega, fun hP => ⟨?_, hb.2 hP⟩⟩
        simp [hb.1]
      cases hasDefault with
      | true => exact Tracks.raise rfl (hdefault.imp fun _ _ h _ => h)
      | false => exact hdefault
  | false =>
      refine Tracks.bind (e := Option.map (Expr.moved P.move))
        (U := fun o k => 0 < k ∧ ∀ e ∈ o, P.strict → e.Matchable) ?_ fun pattern =>
          ?_
      · exact hr.pattern.map (fun _ => rfl) fun e k h => ⟨h.1, by simpa using h.2⟩
      · refine (branchBehind_tracks hr pattern start).imp ?_
        intro b j hb k hpattern _ _
        have hpos := hpattern.1
        refine ⟨by omega, fun hP => ⟨fun e he => ?_, hb.2 hP⟩⟩
        rw [hb.1] at he
        exact hpattern.2 e he hP

/-- A match keeps pairings. -/
theorem matching_tracks :
    P.Tracks (n + 1) (matching r) (matching r') (Expr.moved P.move) P.Built := by
  let R : Branch → Prop := fun b => P.strict → (∀ e ∈ b.pattern, e.Matchable) ∧
    b.consequent.Evaluable
  refine Tracks.bump fun t => (parenthesised_tracks hr).bind fun argument => ?_
  refine (Tracks.expect _).bind_id fun _ => ?_
  refine Tracks.bind (e := List.map (Branch.moved P.move))
    (U := fun all _ => ∀ b ∈ all, R b) ?_
    fun branches => (Tracks.expect _).bind_id fun _ =>
      Tracks.spanFrom rfl fun span => Tracks.yield ?_ ?_
  · refine (Tracks.repeating (f := List.map (Branch.moved P.move))
      (J := fun all => ∀ b ∈ all, R b)
      (fun before => ?_) (a := []) rfl).imp fun all k h => h (by simp)
    refine Tracks.peekKind fun kind => ?_
    split
    · exact Tracks.yield rfl id
    · exact Tracks.yield rfl id
    · have hany : (before.map (Branch.moved P.move)).any
        (fun b => b.pattern.isNone) =
          before.any fun b => b.pattern.isNone := by
        rw [List.any_map]
        congr 1
        funext b
        simp
      rw [hany]
      refine (branch_tracks hr _).bind fun b => Tracks.yield (by simp [Turn.map]) ?_
      intro k hb
      exact ⟨hb.1, fun hbefore => forall_mem_concat hbefore hb.2⟩
  · simp [Expr.moved, Node.moved]
  · intro _ _ _ hbranches _ _ _ hargument
    refine ⟨by omega, fun hP => .matching (hargument.2 hP) ?_ ?_⟩
    · exact fun b hb => (hbranches b hb hP).1
    · exact fun b hb => (hbranches b hb hP).2

/-! ## Operands -/

omit hr in
/-- Only a type stands where a type is asked for. -/
theorem typeOperand_tracks :
    P.Tracks n typeOperand typeOperand (Expr.moved P.move) fun e k =>
      0 < k ∧ ∃ target, e.node = .type target := by
  refine Tracks.peek fun t => ?_
  rw [Token.kind_moved]
  split
  · rename_i target _
    refine (Tracks.bump (n := n) fun _ => ?_).anti (Nat.le_succ n)
    exact Tracks.yield rfl ⟨Nat.succ_pos _, target, rfl⟩
  · exact Tracks.raise rfl Tracks.fail

/-- A type, or a cast to it, keeps pairings. -/
theorem typeOrCast_tracks (target : TypeName) :
    P.Tracks (n + 1) (typeOrCast r target) (typeOrCast r' target)
      (Expr.moved P.move) P.Built := by
  refine Tracks.bump fun t => (Tracks.eat _).bind_id fun taken => ?_
  cases taken with
  | true =>
      refine hr.expression.bind fun operand => (Tracks.expect _).bind_id fun _ => ?_
      refine Tracks.spanFrom rfl fun span => Tracks.yield rfl ?_
      intro _ _ _ hoperand _ _
      exact ⟨by omega, fun hP => .cast (hoperand.2 hP)⟩
  | false => exact Tracks.yield rfl fun _ _ => ⟨by omega, fun _ => .type⟩

omit hr in
/-- A grouping, whose inside takes at least one token. -/
theorem grouping_tracks {inner : Parse Expr} {inner' : ParseOn τ Expr}
    {R : Expr → Prop}
    (hinner : P.Tracks n inner inner' (Expr.moved P.move) fun e k => 0 < k ∧
      (P.strict → R e))
    (hgroup : ∀ {e span}, R e → R ⟨.grouping e, span⟩) :
    P.Tracks (n + 1) (grouping inner) (grouping inner')
      (Expr.moved P.move) fun e k =>
      0 < k ∧ (P.strict → R e) := by
  refine Tracks.bump fun t => hinner.bind fun e =>
    (Tracks.expect _).bind_id fun _ => ?_
  refine Tracks.spanFrom rfl fun span => Tracks.yield rfl ?_
  intro _ _ _ he
  exact ⟨by omega, fun hP => hgroup (he.2 hP)⟩

/-- The arguments of a call keep pairings. -/
theorem arguments_tracks :
    P.Tracks n (arguments r) (arguments r')
      (List.map (Expr.moved P.move)) fun es _ =>
      ∀ e ∈ es, P.strict → e.Evaluable := by
  refine (Tracks.eat _).bind_id fun taken => ?_
  cases taken with
  | true => exact Tracks.yield rfl fun _ _ => by simp
  | false =>
      refine (commas_tracks (hr.expression.imp fun e k h => h.2)).bind fun all => ?_
      exact (Tracks.expect _).bind_id fun _ =>
        Tracks.yield rfl fun _ _ _ hall _ _ => hall

/-- What stands on the highest rung keeps pairings. -/
theorem primary_tracks :
    P.Tracks (n + 1) (primary r) (primary r') (Expr.moved P.move) P.Built := by
  refine Tracks.peek fun t => ?_
  rw [Token.lexeme_moved]
  cases hliteral : literal? t.lexeme with
  | some value =>
      exact Tracks.bump fun _ =>
        Tracks.yield rfl ⟨Nat.succ_pos _, fun _ => .literal⟩
  | none =>
      dsimp only
      split
      · exact Tracks.bump fun _ => Tracks.yield rfl ⟨Nat.succ_pos _, fun _ => .name⟩
      · exact grouping_tracks hr.expression .grouping
      · exact block_tracks hr
      · exact conditional_tracks hr
      · exact forLoop_tracks hr
      · exact whileLoop_tracks hr
      · exact functionDef_tracks hr
      · exact matching_tracks hr
      · rw [Token.kind_moved]
        split
        · exact typeOrCast_tracks hr _
        · exact Tracks.noExpression

/-- Calls and members. -/
theorem chain_tracks :
    P.Tracks (n + 1) (chain r) (chain r') (Expr.moved P.move) P.Built := by
  refine (primary_tracks hr).bind fun first => ?_
  refine (Tracks.repeating (J := fun e => P.strict → e.Evaluable)
    (fun e => ?_) rfl).imp ?_
  · refine Tracks.peekKind fun kind => ?_
    split
    · refine Tracks.bump fun t => Tracks.here fun start =>
        Tracks.identifier.bind_id fun name => ?_
      refine Tracks.spanFrom rfl fun span => Tracks.yield ?_ ?_
      · exact congrArg Turn.again (binary_moved e .access ⟨.name name, span⟩)
      · exact fun _ _ => ⟨by omega, fun he hP => .access (he hP) rfl⟩
    · refine Tracks.bump fun t => (arguments_tracks hr).bind fun arguments => ?_
      refine Tracks.spanFrom rfl fun span => Tracks.yield ?_ ?_
      · have hspan := join_moved (P := P) e.span (Span.point span.stop)
        simp only [Turn.map, Expr.moved, Node.moved, Expr.movedEach_eq,
          Expr.span_moved, hspan]
        rfl
      · intro _ harguments
        exact ⟨by omega, fun he hP =>
          .call (he hP) fun argument h => harguments argument h hP⟩
    · exact Tracks.yield rfl id
  · intro e j he k hfirst
    have hpos := hfirst.1
    exact ⟨by omega, he hfirst.2⟩

/-- A power keeps pairings. -/
theorem power_tracks :
    P.Tracks (n + 1) (power r) (power r') (Expr.moved P.move) P.Built := by
  refine (chain_tracks hr).bind_level (m := n) (fun _ k h => by have := h.1; omega)
    fun base => ?_
  refine (Tracks.eat _).bind_id fun taken => ?_
  cases taken with
  | true =>
      refine hr.signed.bind fun exponent => Tracks.yield (binary_moved _ _ _) ?_
      intro _ hexponent _ _ _ hbase
      have hpos := hbase.1
      exact ⟨by omega, fun hP => .binary rfl (hbase.2 hP) (hexponent.2 hP)⟩
  | false =>
      refine Tracks.yield rfl fun _ _ _ hbase => ?_
      have hpos := hbase.1
      exact ⟨by omega, hbase.2⟩

omit hr in
/-- The operator of a sign is one. -/
theorem isSign_of_sign? {kind : TokenKind} {o : Operator}
    (h : sign? kind = some o) : o.isSign = true := by
  unfold sign? at h
  split at h <;> cases h <;> rfl

/-- An expression with signs before it keeps pairings. -/
theorem signed_tracks :
    P.Tracks (n + 1) (signed r) (signed r') (Expr.moved P.move) P.Built := by
  refine Tracks.peek fun t => ?_
  rw [Token.kind_moved]
  cases hsign : sign? t.kind with
  | some operator =>
      refine Tracks.bump fun _ => hr.signed.bind fun operand =>
        Tracks.yield (unary_moved _ _ _) ?_
      intro _ hoperand
      exact ⟨by omega, fun hP => .unary (isSign_of_sign? hsign) (hoperand.2 hP)⟩
  | none => exact power_tracks hr

/-! ## The ladder -/

omit hr in
/-- A rung builds what its operators make of their operands. -/
theorem leftAssoc_tracks {operator? : TokenKind → Option Operator}
    {operand : Parse Expr} {operand' : ParseOn τ Expr} {R : Expr → Prop}
    (hjoin : ∀ {kind o left right}, operator? kind = some o → R left → R right →
      R (Expr.binary left o right))
    (hoperand : P.Tracks n operand operand' (Expr.moved P.move) fun e k => 0 < k ∧
      (P.strict → R e)) :
    P.Tracks n (leftAssoc operator? operand) (leftAssoc operator? operand')
      (Expr.moved P.move) fun e k =>
      0 < k ∧ (P.strict → R e) := by
  refine hoperand.bind fun first => ?_
  refine (Tracks.repeating (J := fun e => P.strict → R e) (fun left => ?_) rfl).imp
    ?_
  · refine Tracks.peekKind fun kind => ?_
    cases hoperator : operator? kind with
    | some o =>
        refine (Tracks.bump (n := n) fun _ => ?_).anti (Nat.le_succ n)
        refine hoperand.bind fun right =>
          Tracks.yield (congrArg Turn.again (binary_moved _ _ _)) ?_
        intro _ hright
        exact ⟨by omega, fun hleft hP => hjoin hoperator (hleft hP) (hright.2 hP)⟩
    | none => exact Tracks.yield rfl id
  · intro e j he k hfirst
    have hpos := hfirst.1
    exact ⟨by omega, he hfirst.2⟩

omit hr in
/-- A rung whose operators join values. -/
theorem valueRung_tracks {operator? : TokenKind → Option Operator}
    {operand : Parse Expr} {operand' : ParseOn τ Expr}
    (hjoins : ∀ {kind o}, operator? kind = some o → o.joinsValues = true)
    (hoperand : P.Tracks n operand operand' (Expr.moved P.move) P.Built) :
    P.Tracks n (leftAssoc operator? operand) (leftAssoc operator? operand')
      (Expr.moved P.move) P.Built :=
  leftAssoc_tracks (fun ho hleft hright => .binary (hjoins ho) hleft hright)
    hoperand

/-- The operand of a comparison keeps pairings. -/
theorem comparand_tracks :
    P.Tracks (n + 1) (comparand r) (comparand r') (Expr.moved P.move) P.Built := by
  refine valueRung_tracks (fun h => ?_)
    (valueRung_tracks (fun h => ?_) (valueRung_tracks (fun h => ?_)
    (signed_tracks hr)))
  · unfold concatenation? at h
    split at h <;> cases h
    rfl
  · unfold additive? at h
    split at h <;> cases h <;> rfl
  · unfold multiplicative? at h
    split at h <;> cases h <;> rfl

/-- What stands on the rung of type tests keeps pairings. -/
theorem typeTest_tracks :
    P.Tracks (n + 1) (typeTest r) (typeTest r') (Expr.moved P.move) P.Built := by
  refine (valueRung_tracks (fun h => ?_) (comparand_tracks hr)).bind fun first => ?_
  · unfold comparison? at h
    split at h <;> cases h <;> rfl
  · refine (Tracks.repeating (J := fun e => P.strict → e.Evaluable)
      (fun left => ?_) rfl).imp ?_
    · refine (Tracks.eat _).bind_id fun taken => ?_
      cases taken with
      | true =>
          refine (Tracks.eat _).bind_id fun negated =>
            typeOperand_tracks.bind fun target => ?_
          refine Tracks.yield (congrArg Turn.again (binary_moved _ _ _)) ?_
          rintro _ ⟨_, type, htype⟩ _ _ _ htaken
          have hpos := htaken rfl
          refine ⟨by omega, fun hleft hP => .typeTest ?_ (hleft hP) htype⟩
          cases negated
          · exact .inl rfl
          · exact .inr rfl
      | false => exact Tracks.yield rfl fun _ _ => id
    · intro e j he k hfirst
      have hpos := hfirst.1
      exact ⟨by omega, he hfirst.2⟩

omit hr in
/-- The operator of an assignment is one. -/
theorem isAssignment_of_assignment? {kind : TokenKind} {o : Operator}
    (h : assignment? kind = some o) :
    o.isAssignment = true := by
  unfold assignment? at h
  split at h <;> cases h <;> rfl

/-- The rungs from coalescing down to type tests keep pairings. -/
theorem ladder_tracks : P.Tracks (n + 1)
    (leftAssoc coalescing? (leftAssoc piping?
      (leftAssoc disjunction? (leftAssoc conjunction? (typeTest r)))))
    (leftAssoc coalescing? (leftAssoc piping?
      (leftAssoc disjunction? (leftAssoc conjunction? (typeTest r')))))
    (Expr.moved P.move) P.Built := by
  refine valueRung_tracks (fun h => ?_)
    (valueRung_tracks (fun h => ?_) (valueRung_tracks (fun h => ?_)
    (valueRung_tracks (fun h => ?_) (typeTest_tracks hr))))
  · unfold coalescing? at h
    split at h <;> cases h
    rfl
  · unfold piping? at h
    split at h <;> cases h
    rfl
  · unfold disjunction? at h
    split at h <;> cases h
    rfl
  · unfold conjunction? at h
    split at h <;> cases h
    rfl

/-- Only a name is assigned to without an error. -/
theorem expression_tracks :
    P.Tracks (n + 1) (expression r) (expression r')
      (Expr.moved P.move) P.Built := by
  refine (ladder_tracks hr).bind fun left => Tracks.peek fun t => ?_
  rw [Token.kind_moved]
  cases hassigns : assignment? t.kind with
  | none =>
      refine Tracks.yield rfl fun _ hleft => ?_
      have hpos := hleft.1
      exact ⟨by omega, hleft.2⟩
  | some operator =>
      refine Tracks.bump fun _ => ?_
      have hright : P.Tracks n
          (do return Expr.binary left operator (← r.expression))
          (do return Expr.binary (left.moved P.move) operator (← r'.expression))
            (Expr.moved P.move)
          fun e _ => ∃ right, e = Expr.binary left operator right ∧
              (P.strict → right.Evaluable) := by
        refine hr.expression.bind fun right => Tracks.yield (binary_moved _ _ _) ?_
        exact fun _ h => ⟨right, rfl, h.2⟩
      obtain ⟨node, span⟩ := left
      cases node with
      | name text =>
          refine hright.imp ?_
          rintro _ j ⟨right, rfl, hright⟩ k _
          exact ⟨by omega, fun hP =>
            .assignment (isAssignment_of_assignment? hassigns) rfl (hright hP)⟩
      | _ =>
          refine Tracks.raise rfl (hright.imp ?_)
          exact fun _ j _ hlenient k _ => ⟨by omega, fun hP => absurd hP hlenient⟩

/-! ## Patterns -/

omit hr in
/-- A comparison that begins a pattern has an operator of its own. -/
theorem matchComparison?_of_comparison {kind : TokenKind} {o : Operator}
    (h : (comparison? kind).bind Operator.ofComparison? = some o) :
    ∃ comparison, o.matchComparison? = some comparison := by
  obtain ⟨comparison, hkind, ho⟩ := Option.bind_eq_some_iff.mp h
  unfold Operator.ofComparison? at ho
  split at ho <;> cases ho <;> exact ⟨_, rfl⟩

/-- A pattern without connectives keeps pairings. -/
theorem patternAtom_tracks :
    P.Tracks (n + 1) (patternAtom r) (patternAtom r')
      (Expr.moved P.move) P.BuiltPattern := by
  have hexpression : P.Tracks (n + 1) (expression r) (expression r')
      (Expr.moved P.move) P.BuiltPattern :=
    (expression_tracks hr).imp fun e k h => ⟨h.1, fun hP => .expression (h.2 hP)⟩
  refine Tracks.peek fun t => ?_
  rw [Token.kind_moved]
  cases hcomparison : (comparison? t.kind).bind Operator.ofComparison? with
  | some operator =>
      refine Tracks.bump fun _ => hr.comparand.bind fun operand =>
        Tracks.yield (unary_moved _ _ _) ?_
      intro _ hoperand
      obtain ⟨comparison, hmatch⟩ := matchComparison?_of_comparison hcomparison
      exact ⟨by omega, fun hP => .comparison hmatch (hoperand.2 hP)⟩
  | none =>
      dsimp only
      split
      · refine Tracks.bump fun _ => (Tracks.eat _).bind_id fun negated => ?_
        refine typeOperand_tracks.bind fun target =>
          Tracks.yield (unary_moved _ _ _) ?_
        rintro _ ⟨_, type, htype⟩ _ _
        refine ⟨by omega, fun _ => .typeTest ?_ htype⟩
        cases negated
        · exact .inl rfl
        · exact .inr rfl
      · split
        · refine Tracks.peekSecondKind fun kind => ?_
          split
          · exact grouping_tracks hr.pattern .grouping
          · exact hexpression
        · exact hexpression

/-- A pattern keeps pairings. -/
theorem pattern_tracks :
    P.Tracks (n + 1) (pattern r) (pattern r')
      (Expr.moved P.move) P.BuiltPattern := by
  refine leftAssoc_tracks (fun h => ?_)
    (leftAssoc_tracks (fun h => ?_) (patternAtom_tracks hr))
  · unfold patternOr? at h
    split at h <;> cases h
    exact .binary (.inr rfl)
  · unfold patternAnd? at h
    split at h <;> cases h
    exact .binary (.inl rfl)

/-! ## Statements -/

omit hr in
/-- At least one name is pulled. -/
theorem pull_tracks : P.Tracks (n + 1) pull pull (Action.moved P.move) fun a k =>
    0 < k ∧ ∀ terminated span, Stmt.Evaluable ⟨a, terminated, span⟩ := by
  have hname : P.Tracks n identifier identifier id fun _ _ => True :=
    Tracks.identifier.imp fun _ _ _ => trivial
  refine Tracks.bump fun _ => hname.bind_id fun first => ?_
  refine Tracks.bind (more_tracks _ hname first) fun path =>
    Tracks.yield (by simp [Action.moved]) ?_
  intro _ hpath _ _
  exact ⟨by omega, fun _ _ => .pull (hpath trivial).1⟩

omit hr in
/-- What is reported about a binding depends on the shape of its value only. -/
theorem bindingEnd_tracks (name : String) (const : Bool) (value : Option Expr)
    (start : Position) :
    P.Tracks n
      (do
        match value with
        | none => if const then raise (.constWithoutValue name) start
        | some ⟨.literal .null, _⟩ => if !const then warn (.nullValue name) start
        | some _ => pure ()
        return ⟨name, const, value, ← spanFrom start⟩ : Parse Binding)
      (do
        match value.map (Expr.moved P.move) with
        | none => if const then raise (.constWithoutValue name) (P.move start)
        | some ⟨.literal .null, _⟩ =>
            if !const then warn (.nullValue name) (P.move start)
        | some _ => pure ()
        return ⟨name, const, value.map (Expr.moved P.move), ← spanFrom
          (P.move start)⟩)
      (Binding.moved P.move) fun b _ => b.value = value := by
  have hend : P.Tracks n (do return ⟨name, const, value, ← spanFrom start⟩ :
    Parse Binding)
      (do return ⟨name, const, value.map (Expr.moved P.move), ← spanFrom
        (P.move start)⟩)
      (Binding.moved P.move) fun b _ => b.value = value :=
    Tracks.spanFrom rfl fun span => Tracks.yield (by simp [Binding.moved]) rfl
  rcases value with _ | ⟨node, span⟩
  · cases const with
    | true => exact Tracks.raise rfl (hend.imp fun _ _ h _ => h)
    | false => exact hend
  · cases node with
    | literal literal =>
        cases literal with
        | null =>
            cases const with
            | true => exact hend
            | false => exact Tracks.warn rfl hend
        | _ => exact hend
    | _ => exact hend

/-- A binding keeps pairings. -/
theorem binding_tracks :
    P.Tracks n (binding r) (binding r') (Binding.moved P.move) fun b _ =>
      ∀ e ∈ b.value, P.strict → e.Evaluable := by
  refine Tracks.here fun start => (Tracks.eat _).bind_id fun const =>
    Tracks.identifier.bind_id fun name => ?_
  refine (Tracks.eat _).bind_id fun taken => ?_
  cases taken with
  | true =>
      refine Tracks.bind (e := Option.map (Expr.moved P.move))
        (U := fun o _ => ∀ e ∈ o, P.strict → e.Evaluable) ?_ fun value => ?_
      · exact ((expression_tracks hr).anti (Nat.le_succ n)).map (fun _ => rfl)
          fun e k h => by simpa using h.2
      · refine (bindingEnd_tracks name const value start).imp ?_
        intro b _ hb _ hvalue _ _ _ _ _ _
        exact hb ▸ hvalue
  | false =>
      refine (bindingEnd_tracks name const none start).imp ?_
      intro b _ hb _ _ _ _ _ _
      simp [hb]

/-- A declaration keeps pairings, and makes sense to evaluation. -/
theorem declare_tracks :
    P.Tracks (n + 1) (Grammar.declare r) (Grammar.declare r') (Action.moved P.move)
      fun a k => 0 < k ∧ (P.strict → ∀ terminated span,
        Stmt.Evaluable ⟨a, terminated, span⟩) := by
  refine Tracks.bump fun _ => (commas_tracks (binding_tracks hr)).bind
    fun bindings => ?_
  refine Tracks.yield (by simp [Action.moved]) ?_
  intro _ hbindings
  exact ⟨by omega, fun hP _ _ => .declare fun b hb e he => hbindings b hb e he hP⟩

/-- An action keeps pairings, and makes sense to evaluation. -/
theorem action_tracks :
    P.Tracks (n + 1) (action r) (action r') (Action.moved P.move) fun a k =>
      0 < k ∧ (P.strict → ∀ terminated span,
        Stmt.Evaluable ⟨a, terminated, span⟩) := by
  refine Tracks.peekKind fun kind => ?_
  split
  · exact pull_tracks.imp fun a k h => ⟨h.1, fun _ => h.2⟩
  · exact declare_tracks hr
  · exact Tracks.bump fun _ =>
      Tracks.yield rfl ⟨Nat.succ_pos _, fun _ _ _ => .break_⟩
  · refine Tracks.bump fun _ => (parenthesised_tracks hr).bind fun condition =>
      Tracks.yield rfl ?_
    exact fun _ hcondition => ⟨by omega, fun hP _ _ => .breakIf (hcondition.2 hP)⟩
  · refine Tracks.bump fun _ => Tracks.peekKind fun kind => ?_
    split
    · refine hr.expression.bind fun e => Tracks.yield rfl ?_
      exact fun _ he => ⟨by omega, fun hP _ _ => .return_ (by simpa using he.2 hP)⟩
    · exact Tracks.yield rfl ⟨Nat.succ_pos _, fun _ _ _ => .return_ (by simp)⟩
  · refine (expression_tracks hr).bind fun e => Tracks.yield rfl ?_
    intro _ he
    have hpos := he.1
    exact ⟨by omega, fun hP _ _ => .evaluate (he.2 hP)⟩

/-- A statement keeps pairings. -/
theorem statement_tracks :
    P.Tracks (n + 1) (Grammar.statement r) (Grammar.statement r')
      (Stmt.moved P.move) P.BuiltStmt := by
  refine Tracks.here fun start => (action_tracks hr).bind fun action => ?_
  refine (Tracks.eat _).bind_id fun terminated => ?_
  have hend : P.Tracks (n + 1)
    (do return ⟨action, terminated, ← spanFrom start⟩ : Parse Stmt)
      (do return ⟨action.moved P.move, terminated, ← spanFrom (P.move start)⟩)
        (Stmt.moved P.move)
      fun st j => ∀ k₁, (terminated = true → 0 < k₁) → ∀ k₀, (0 < k₀ ∧
        (P.strict → ∀ terminated span, Stmt.Evaluable ⟨action, terminated, span⟩)) →
          P.BuiltStmt st (k₀ + (k₁ + j)) := by
    refine Tracks.spanFrom rfl fun span => Tracks.yield rfl ?_
    intro k₁ _ k₀ haction
    have hpos := haction.1
    exact ⟨by omega, fun hP => haction.2 hP terminated span⟩
  cases action with
  | evaluate e =>
      have hinert : (e.moved P.move).node.isInert = e.node.isInert := by
        rw [Expr.node_moved, Node.isInert_moved]
      dsimp only [Action.moved]
      rw [hinert]
      split
      · exact Tracks.warn rfl hend
      · exact hend
  | _ => exact hend

omit hr

/-! ## All rules -/

/-- One more layer of nesting is good for one more token. -/
theorem TracksRules.deepen (hr : P.TracksRules n r r') :
    P.TracksRules (n + 1) r.deepen r'.deepen where
  expression := expression_tracks hr
  signed := signed_tracks hr
  comparand := comparand_tracks hr
  pattern := pattern_tracks hr
  statement := statement_tracks hr

/-- Rules for more layers of nesting do the same, where there are too few tokens to
need them. -/
theorem upTo_tracks (n n' : Nat) (heven : P.even → n' = n) (hle : n ≤ n') :
    P.TracksRules n (Rules.upTo n) (Rules.upTo n') := by
  induction n generalizing n' with
  | zero =>
      have hnone : ∀ {α : Type} {p' : ParseOn τ α} {f : α → α} {V : α → Nat → Prop},
          (P.even → p' = Parse.fail) → P.Tracks 0 Parse.fail p' f V := by
        intro α p' f V hp' s
        refine ⟨Leads.refl s, fun s' hs hlevel hclear => ?_⟩
        by_cases hP : P.even
        · rw [hp' hP]
          exact ⟨hs, rfl, fun _ ha => nomatch ha⟩
        · have htotal := Lawful.total_eq hP hs
          rcases hlevel with hlevel | hlevel
          · exact absurd hlevel hP
          · omega
      have hfail : P.even → (Rules.upTo n' : Rules τ) = Rules.upTo 0 :=
        fun hP => by rw [heven hP]
      refine ⟨hnone fun hP => ?_, hnone fun hP => ?_, hnone fun hP => ?_,
        hnone fun hP => ?_,
        hnone fun hP => ?_⟩
      all_goals
        rw [hfail hP]
        rfl
  | succ n ih =>
      obtain ⟨k, rfl⟩ : ∃ k, n' = k + 1 := ⟨n' - 1, by omega⟩
      rw [Rules.upTo_succ, Rules.upTo_succ]
      exact (ih k (fun hP => by have := heven hP; omega) (by omega)).deepen

/-- A statement that is parsed from paired states. -/
theorem statement_pairs {s : ParseState} {s' : τ} (hs : P.pairs s s')
    (hclear : P.clear (Parse.statement s).2) :
    P.pairs (Parse.statement s).2 (Parse.statement s').2 ∧
      (Parse.statement s').1 = (Parse.statement s).1.map (Stmt.moved P.move) ∧
      ∀ st, (Parse.statement s).1 = some st →
        s.taken < (Parse.statement s).2.taken ∧ (P.strict → st.Evaluable) := by
  have hle := Lawful.length_le hs
  have hrules :=
    upTo_tracks (P := P) (s.rest.length + 1) (TokenSource.remaining s' + 1)
    (fun hP => by rw [Lawful.length_eq hP hs]) (by omega)
  obtain ⟨hleads, hpairs⟩ := hrules.statement s
  have hlevel : P.even ∨ P.total < s.rest.length + 1 + s.taken := by
    by_cases hP : P.even
    · exact .inl hP
    · have htotal := Lawful.total_eq hP hs
      exact .inr (by omega)
  obtain ⟨hafter, hvalue, hbuilt⟩ := hpairs s' hs hlevel hclear
  refine ⟨hafter, hvalue, fun st hst => ?_⟩
  have htaken := hleads.taken_le
  obtain ⟨hpos, hevaluable⟩ := hbuilt st hst _ (Nat.add_sub_cancel' htaken).symm
  exact ⟨Nat.lt_of_sub_pos hpos, hevaluable⟩

end Pairing

end ScriptLang
