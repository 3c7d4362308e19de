import ScriptLang.Proofs.Eval.Discipline

/-!
# Limits of a run

Two numbers limit a run: the steps that it may take, and the calls that may be in
progress.  A run that hits one of them ends with an outcome that tells so, and
nothing but the end of a statement stops such an outcome.  So a run that does not
end with it has passed every comparison with the limit, and passes it with a higher
one as well: it does the same (`Eval.evaluate_outlasted`).

`Eval.Outlasted` compares two computations on the same machine.  Where the first one
hits the limit, it says nothing of the second.

With enough steps the outcome does not depend on their number.  `Expr.Yields` says
that an expression ends with a value, and `Expr.Ends` how it ends, without counting
steps.
-/

namespace ScriptLang

/-- What limits a run. -/
inductive Limit
  | steps
  | calls

/-- A number that limits a run is the same in another run, or higher if it is the
limit that is asked for. -/
def Limit.Raised (l kind : Limit) (n n' : Nat) : Prop := n' = n ∨ l = kind ∧ n ≤ n'

/-- A raised limit is raised one step later. -/
theorem Limit.Raised.pred {l kind : Limit} {n n' : Nat}
    (h : l.Raised kind (n + 1) n') :
    ∃ k, n' = k + 1 ∧ l.Raised kind n k := by
  rcases h with rfl | ⟨rfl, hle⟩
  · exact ⟨n, rfl, .inl rfl⟩
  · obtain ⟨k, rfl⟩ : ∃ k, n' = k + 1 :=
      Nat.exists_eq_succ_of_ne_zero (Nat.ne_of_gt (Nat.zero_lt_of_lt hle))
    exact ⟨k, rfl, .inr ⟨rfl, Nat.le_of_succ_le_succ hle⟩⟩

/-- An outcome tells that a limit was hit. -/
inductive Outcome.Hits : Limit → Outcome α → Prop
  | steps : Hits .steps .exhausted
  | calls (limit : Nat) : Hits .calls (.failed (.callDepth limit))

/-- A setting with another limit on calls. -/
def Setting.withLimit (limit : Nat) (g : Setting) : Setting :=
  { g with maxCallDepth := limit }

namespace Eval

variable {l : Limit}

/-- The second computation does what the first does, unless the first hits a
limit. -/
def Outlasted (l : Limit) (p p' : Eval α) : Prop := ∀ m, (p m).1.Hits l ∨ p' m = p m

/-! ## Sequencing and scopes

Nothing but the end of a statement stops an outcome that tells of a limit. -/

/-- A computation does what it does. -/
theorem Outlasted.refl (p : Eval α) : p.Outlasted l p := fun _ => .inr rfl

/-- Computations under a raised limit, one after the other. -/
theorem Outlasted.bind {p p' : Eval α} {next next' : α → Eval β}
    (hp : p.Outlasted l p') (hnext : ∀ a, (next a).Outlasted l (next' a)) :
    (p >>= next).Outlasted l (p' >>= next') := by
  intro m
  show (andThen p next m).1.Hits l ∨ andThen p' next' m = andThen p next m
  unfold andThen
  have hm := hp m
  generalize p m = r at hm ⊢
  obtain ⟨outcome, m₁⟩ := r
  rcases hm with hhits | heq
  · cases hhits with
    | steps => exact .inl .steps
    | calls limit => exact .inl (.calls limit)
  · rw [heq]
    cases outcome with
    | value a => exact hnext a m₁
    | _ => exact .inr rfl

/-- A computation inside of a scope, under a raised limit. -/
theorem Outlasted.inScope {p p' : Eval α} (h : p.Outlasted l p')
    (kind : FrameKind) :
    (inScope kind p).Outlasted l (inScope kind p') := by
  intro m
  rw [inScope_eq, inScope_eq]
  rcases h (m.enter kind) with hhits | heq
  · exact .inl hhits
  · rw [heq]
    exact .inr rfl

/-- A computation inside of a call, under a raised limit. -/
theorem Outlasted.inCall {p p' : Eval α} (h : p.Outlasted l p') (captured : Stack) :
    (inCall captured p).Outlasted l (inCall captured p') := by
  intro m
  rw [inCall_eq, inCall_eq]
  rcases h (m.enterCall captured) with hhits | heq
  · exact .inl hhits
  · rw [heq]
    exact .inr rfl

/-- The body of a function, under a raised limit. -/
theorem Outlasted.absorbing {p p' : Eval Value} (h : p.Outlasted l p') :
    (absorbing p).Outlasted l (absorbing p') := by
  intro m
  unfold Eval.absorbing
  have hm := h m
  generalize p m = r at hm ⊢
  obtain ⟨outcome, m₁⟩ := r
  rcases hm with hhits | heq
  · cases hhits with
    | steps => exact .inl .steps
    | calls limit => exact .inl (.calls limit)
  · rw [heq]
    exact .inr rfl

/-! ## Constructs -/

section Constructs

variable {ev ev' : Expr → Eval Value} (hev : ∀ e, (ev e).Outlasted l (ev' e))

include hev

/-- An operand that may be missing, under a raised limit. -/
theorem optional_outlasted (otherwise : Value) (e : Option Expr) :
    (optional ev otherwise e).Outlasted l (optional ev' otherwise e) := by
  cases e with
  | none => exact .refl _
  | some e => exact hev e

/-- Operands one after the other, under a raised limit. -/
theorem all_outlasted (es : List Expr) : (all ev es).Outlasted l (all ev' es) := by
  induction es with
  | nil => exact .refl _
  | cons e rest ih =>
      exact .bind (hev e) fun value => .bind ih fun values => .refl _

/-- A declaration of several names, under a raised limit. -/
theorem declareAll_outlasted (bindings : List Binding) :
    (declareAll ev bindings).Outlasted l (declareAll ev' bindings) := by
  induction bindings with
  | nil => exact .refl _
  | cons b rest ih =>
      exact .bind (optional_outlasted hev _ b.value) fun value =>
        .bind (.refl _) fun _ => ih

/-- The alternatives of a conditional, under a raised limit. -/
theorem alternatives_outlasted (otherwise : Option Expr) (as : List Alternative) :
    (alternatives ev otherwise as).Outlasted l (alternatives ev' otherwise as) := by
  induction as with
  | nil => exact optional_outlasted hev _ otherwise
  | cons a rest ih =>
      refine .bind (hev a.condition) fun value => .bind (.refl _) fun holds => ?_
      cases holds with
      | true => exact hev a.body
      | false => exact ih

/-- One turn of a loop, under a raised limit. -/
theorem turn_outlasted (counter : Option (String × Value)) (body : Expr) :
    (turn ev counter body).Outlasted l (turn ev' counter body) := by
  cases counter with
  | none => exact (Outlasted.bind (.refl _) fun _ => hev body).inScope .loop
  | some entry => exact (Outlasted.bind (.refl _) fun _ => hev body).inScope .loop

omit hev in
/-- A loop stops a `break` that ends one of its turns, but no outcome that tells of
a limit. -/
theorem afterTurn_outlasted {p p' loop loop' : Eval Value} (hp : p.Outlasted l p')
    (hloop : loop.Outlasted l loop') (m : Machine) :
    (match p m with
      | (.value _, m) => loop m
      | (.breaking, m) => (.value .null, m)
      | (outcome, m) => (outcome, m)).1.Hits l ∨
    (match p' m with
      | (.value _, m) => loop' m
      | (.breaking, m) => (.value .null, m)
      | (outcome, m) => (outcome, m)) =
    match p m with
      | (.value _, m) => loop m
      | (.breaking, m) => (.value .null, m)
      | (outcome, m) => (outcome, m) := by
  have hm := hp m
  generalize p m = r at hm ⊢
  obtain ⟨outcome, m₁⟩ := r
  rcases hm with hhits | heq
  · cases hhits with
    | steps => exact .inl .steps
    | calls limit => exact .inl (.calls limit)
  · rw [heq]
    cases outcome with
    | value _ => exact hloop m₁
    | _ => exact .inr rfl

section Loops

variable {fuel fuel' : Nat} (hfuel : l.Raised .steps fuel fuel')

include hfuel

/-- A loop over a range of numbers, under a raised limit. -/
theorem forLoop_outlasted (counter : Option String) (body : Expr)
    (range : CounterRange) :
    (forLoop ev counter body fuel range).Outlasted l
      (forLoop ev' counter body fuel' range) := by
  induction fuel generalizing fuel' range with
  | zero =>
      rcases hfuel with rfl | ⟨rfl, _⟩
      · exact .refl _
      · exact fun _ => .inl .steps
  | succ fuel ih =>
      obtain ⟨fuel', rfl, hrest⟩ := hfuel.pred
      intro m
      unfold forLoop
      cases range.next? with
      | none => exact .inr rfl
      | some next =>
          exact afterTurn_outlasted (turn_outlasted hev _ body) (ih hrest next.2) m

/-- A loop with a condition, under a raised limit. -/
theorem whileLoop_outlasted (condition body : Expr) :
    (whileLoop ev condition body fuel).Outlasted l
      (whileLoop ev' condition body fuel') := by
  induction fuel generalizing fuel' with
  | zero =>
      rcases hfuel with rfl | ⟨rfl, _⟩
      · exact .refl _
      · exact fun _ => .inl .steps
  | succ fuel ih =>
      obtain ⟨fuel', rfl, hrest⟩ := hfuel.pred
      have hcondition : (andThen (ev condition) truth).Outlasted l
          (andThen (ev' condition) truth) :=
        .bind (hev condition) fun _ => .refl _
      intro m
      unfold whileLoop
      have hm := hcondition m
      generalize andThen (ev condition) truth m = r at hm ⊢
      obtain ⟨outcome, m₁⟩ := r
      rcases hm with hhits | heq
      · cases hhits with
        | steps => exact .inl .steps
        | calls limit => exact .inl (.calls limit)
      · rw [heq]
        cases outcome with
        | value holds =>
            cases holds with
            | false => exact .inr rfl
            | true =>
                exact afterTurn_outlasted (turn_outlasted hev none body)
                  (ih hrest) m₁
        | _ => exact .inr rfl

end Loops

/-- An assignment, under a raised limit. -/
theorem assign_outlasted (target : Expr) (o : Operator) (e : Expr) :
    (assign ev target o e).Outlasted l (assign ev' target o e) := by
  unfold assign
  split
  · exact .bind (hev e) fun _ => .refl _
  · exact .refl _

/-- Matching a pattern, under a raised limit. -/
theorem matchPattern_outlasted (argument : Value) (pattern : Expr) :
    (matchPattern ev argument pattern).Outlasted l
      (matchPattern ev' argument pattern) := by
  fun_induction matchPattern ev argument pattern with
  | case1 inner _ ih => exact ih
  | case2 left right _ ihLeft ihRight =>
      refine .bind ihLeft fun holds => ?_
      cases holds with
      | true => exact ihRight
      | false => exact .refl _
  | case3 left right _ ihLeft ihRight =>
      refine .bind ihLeft fun holds => ?_
      cases holds with
      | true => exact .refl _
      | false => exact ihRight
  | case4 | case5 | case6 => exact .refl _
  | case7 o operand span his hisNot comparison hcomparison =>
      rw [matchPattern.eq_7 ev' argument o operand span his hisNot, hcomparison]
      exact .bind (hev operand) fun _ => .refl _
  | case8 o operand span his hisNot hcomparison =>
      rw [matchPattern.eq_7 ev' argument o operand span his hisNot, hcomparison]
      exact .bind (hev _) fun _ => .refl _
  | case9 pattern h₁ h₂ h₃ h₄ h₅ h₆ h₇ =>
      rw [matchPattern.eq_8 ev' argument pattern h₁ h₂ h₃ h₄ h₅ h₆ h₇]
      exact .bind (hev pattern) fun _ => .refl _

/-- The branches of a match, under a raised limit. -/
theorem branches_outlasted (argument : Value) (fallback : Option Expr)
    (bs : List Branch) :
    (branches ev argument fallback bs).Outlasted l
      (branches ev' argument fallback bs) := by
  induction bs generalizing fallback with
  | nil => exact optional_outlasted hev _ fallback
  | cons b rest ih =>
      unfold branches
      split
      · exact ih _
      · refine .bind (matchPattern_outlasted hev argument _) fun holds => ?_
        cases holds with
        | true => exact hev b.consequent
        | false => exact ih fallback

/-- An action of a statement, under a raised limit. -/
theorem perform_outlasted (g : Setting) (limit : Nat) (action : Action) :
    (perform ev g action).Outlasted l (perform ev' (g.withLimit limit) action) := by
  unfold perform
  split
  · exact .refl _
  · exact .bind (declareAll_outlasted hev _) fun _ => .refl _
  · exact .refl _
  · exact .bind (hev _) fun _ => .refl _
  · exact .bind (.refl _) fun _ => .bind (optional_outlasted hev _ _)
      fun _ => .refl _
  · exact hev _

/-- Statements one after the other, under a raised limit. -/
theorem sequence_outlasted (g : Setting) (limit : Nat) (result : Value)
    (statements : List Stmt) :
    (sequence ev g result statements).Outlasted l
      (sequence ev' (g.withLimit limit) result statements) := by
  induction statements generalizing result with
  | nil => exact .refl _
  | cons s rest ih =>
      exact .bind (perform_outlasted hev g limit s.action) fun value => ih _

/-! ## Calls -/

variable {g : Setting} {limit : Nat} (hlimit : l.Raised .calls g.maxCallDepth limit)

include hlimit

/-- A call that the lower limit allows is allowed by the higher one. -/
theorem callClosure_outlasted (f : Closure) (arguments : List Value) :
    (callClosure ev g f arguments).Outlasted l
      (callClosure ev' (g.withLimit limit) f arguments) := by
  have hbody : (inCall f.captured (absorbing do
      bindParameters f.definition.parameters arguments
      ev f.definition.body)).Outlasted l (inCall f.captured (absorbing do
        bindParameters f.definition.parameters arguments
        ev' f.definition.body)) :=
    (Outlasted.bind (.refl _) fun _ => hev f.definition.body).absorbing.inCall
      f.captured
  intro m
  unfold callClosure
  dsimp only
  by_cases hcount : f.definition.parameters.length ≠ arguments.length
  · rw [if_pos hcount, if_pos hcount]
    exact .inr rfl
  · rw [if_neg hcount, if_neg hcount]
    rcases hlimit with rfl | ⟨rfl, hlimit⟩
    · change _ ∨ (if g.maxCallDepth ≤ m.callDepth then _ else _) = _
      split
      · exact .inr rfl
      · exact hbody m
    · by_cases hdepth : g.maxCallDepth ≤ m.callDepth
      · rw [if_pos hdepth]
        exact .inl (.calls _)
      · have hdepth' : ¬ (g.withLimit limit).maxCallDepth ≤ m.callDepth := by
          show ¬ limit ≤ m.callDepth
          omega
        rw [if_neg hdepth, if_neg hdepth']
        exact hbody m

/-- A call, under a raised limit. -/
theorem call_outlasted (callee : Value) (arguments : List Value) :
    (call ev g callee arguments).Outlasted l
      (call ev' (g.withLimit limit) callee arguments) := by
  unfold call
  split
  · exact callClosure_outlasted hev hlimit _ arguments
  · exact .refl _
  · exact .refl _

/-- A binary operation, under a raised limit. -/
theorem binary_outlasted (o : Operator) (left right : Expr) :
    (binary ev g o left right).Outlasted l
      (binary ev' (g.withLimit limit) o left right) := by
  unfold binary
  split
  · exact assign_outlasted hev left o right
  · split
    · refine .bind (hev left) fun _ => .bind (.refl _) fun holds => ?_
      cases holds with
      | true => exact .bind (hev right) fun _ => .refl _
      | false => exact .refl _
    · refine .bind (hev left) fun _ => .bind (.refl _) fun holds => ?_
      cases holds with
      | true => exact .refl _
      | false => exact .bind (hev right) fun _ => .refl _
    · refine .bind (hev left) fun value => ?_
      split
      · exact hev right
      · exact .refl _
    · refine .bind (hev left) fun value => ?_
      split
      · exact .refl _
      · exact .bind (hev right) fun callee =>
          call_outlasted hev hlimit callee [value]
    · exact .bind (hev left) fun _ => .refl _
    · exact .bind (hev left) fun _ => .refl _
    · exact .bind (hev left) fun _ => .refl _
    · exact .bind (hev left) fun _ => .bind (hev right) fun _ => .refl _

/-! ## Expressions and statements -/

/-- One level of evaluation, under a raised limit. -/
theorem layer_outlasted {fuel fuel' : Nat} (hfuel : l.Raised .steps fuel fuel')
    (e : Expr) :
    (layer ev g fuel e).Outlasted l (layer ev' (g.withLimit limit) fuel' e) := by
  obtain ⟨node, span⟩ := e
  cases node with
  | block statements =>
      exact (sequence_outlasted hev g limit _ statements).inScope .block
  | conditional as otherwise => exact alternatives_outlasted hev otherwise as
  | forLoop counter start stop step body =>
      exact .bind (optional_outlasted hev _ start) fun _ =>
          .bind (hev stop) fun _ =>
        .bind (optional_outlasted hev _ step) fun _ => .bind (.refl _) fun range =>
          forLoop_outlasted hev hfuel counter body range
  | whileLoop condition body => exact whileLoop_outlasted hev hfuel condition body
  | matching argument bs =>
      exact .bind (hev argument) fun value => branches_outlasted hev value none bs
  | grouping inner => exact hev inner
  | binary o left right => exact binary_outlasted hev hlimit o left right
  | unary o operand => exact .bind (hev operand) fun _ => .refl _
  | call callee arguments =>
      exact .bind (hev callee) fun callee =>
          .bind (all_outlasted hev arguments) fun values =>
        call_outlasted hev hlimit callee values
  | cast target operand => exact .bind (hev operand) fun _ => .refl _
  | function | name | literal | type => exact .refl _

end Constructs

variable {g : Setting} {limit : Nat}

/-- A run that does not hit a limit does the same with a higher one. -/
theorem evaluate_outlasted (hlimit : l.Raised .calls g.maxCallDepth limit)
    {fuel fuel' : Nat} (hfuel : l.Raised .steps fuel fuel') (e : Expr) :
    (evaluate g fuel e).Outlasted l (evaluate (g.withLimit limit) fuel' e) := by
  induction fuel generalizing fuel' e with
  | zero =>
      rcases hfuel with rfl | ⟨rfl, _⟩
      · exact .refl _
      · exact fun _ => .inl .steps
  | succ fuel ih =>
      obtain ⟨fuel', rfl, hrest⟩ := hfuel.pred
      exact layer_outlasted (ih hrest) hlimit hrest e

/-- With enough steps, the outcome no longer depends on their number. -/
theorem evaluate_of_le {fuel fuel' : Nat} (hfuel : fuel ≤ fuel') {e : Expr}
    {m m' : Machine} {outcome : Outcome Value}
    (hrun : evaluate g fuel e m = (outcome, m')) (hdone : ¬ outcome.Hits .steps) :
    evaluate g fuel' e m = (outcome, m') := by
  rcases evaluate_outlasted (l := .steps) (.inl rfl) (.inr ⟨rfl, hfuel⟩) e
    m with hhits | heq
  · rw [hrun] at hhits
    exact absurd hhits hdone
  · exact heq.trans hrun

end Eval

/-! ## Values -/

/-- Whether evaluation has ended with a value. -/
def Outcome.isValue : Outcome α → Bool
  | .value _ => true
  | _ => false

/-- An expression is evaluated to a value. -/
def Expr.Yields (g : Setting) (e : Expr) (m : Machine) (v : Value)
    (m' : Machine) : Prop :=
  ∃ fuel, evaluate g fuel e m = (.value v, m')

namespace Expr

variable {g : Setting} {e : Expr} {m m' : Machine} {v : Value}

/-- A run that ends with a value has found it. -/
theorem yields_of_isValue (g : Setting) (fuel : Nat) (e : Expr) (m : Machine)
    (h : (evaluate g fuel e m).1.isValue = true) :
    ∃ v, e.Yields g m v (evaluate g fuel e m).2 := by
  cases hrun : evaluate g fuel e m with
  | mk outcome m' =>
      rw [hrun] at h
      cases outcome with
      | value v => exact ⟨v, fuel, hrun⟩
      | _ => cases h

/-- Evaluation to a value takes some number of steps, and any larger number will
do. -/
theorem Yields.enough (h : e.Yields g m v m') :
    ∃ steps, ∀ fuel, steps ≤ fuel → evaluate g fuel e m = (.value v, m') := by
  obtain ⟨steps, hrun⟩ := h
  exact ⟨steps, fun fuel hfuel => Eval.evaluate_of_le hfuel hrun nofun⟩

end Expr

/-! ## Outcomes -/

namespace Expr

/-- Evaluation ends with an outcome, whatever number of steps it takes, and leaves a
machine behind. -/
def Ends (g : Setting) (e : Expr) (m : Machine) (outcome : Outcome Value)
    (m' : Machine) : Prop :=
  ∃ fuel, evaluate g fuel e m = (outcome, m') ∧ ¬ outcome.Hits .steps

variable {g : Setting} {a b e : Expr} {m m₁ m₂ : Machine}

/-- Evaluation ends in one way only. -/
theorem Ends.unique {o₁ o₂ : Outcome Value} (h₁ : e.Ends g m o₁ m₁)
    (h₂ : e.Ends g m o₂ m₂) : o₁ = o₂ ∧ m₁ = m₂ := by
  obtain ⟨n₁, hrun₁, hdone₁⟩ := h₁
  obtain ⟨n₂, hrun₂, hdone₂⟩ := h₂
  have hsame :=
    (Eval.evaluate_of_le (Nat.le_max_left n₁ n₂) hrun₁ hdone₁).symm.trans
    (Eval.evaluate_of_le (Nat.le_max_right n₁ n₂) hrun₂ hdone₂)
  exact Prod.mk.inj hsame

/-- What yields a value ends with it. -/
theorem Yields.ends {v : Value} (h : e.Yields g m v m₁) :
    e.Ends g m (.value v) m₁ := by
  obtain ⟨fuel, hrun⟩ := h
  exact ⟨fuel, hrun, nofun⟩

/-- Expressions whose evaluations differ by a number of steps end alike. -/
theorem Ends.of_eq {i j : Nat}
    (h : ∀ fuel, evaluate g (fuel + i) a m = evaluate g (fuel + j) b m)
    {outcome : Outcome Value} (hb : b.Ends g m outcome m₁) :
    a.Ends g m outcome m₁ := by
  obtain ⟨fuel, hrun, hdone⟩ := hb
  exact ⟨fuel + i, (h fuel).trans
    (Eval.evaluate_of_le (Nat.le_add_right fuel j) hrun hdone), hdone⟩

/-- Expressions end alike if they do the same in numbers of steps that differ by a
constant. -/
theorem ends_iff_of_eq {i j : Nat}
    (h : ∀ fuel, evaluate g (fuel + i) a m = evaluate g (fuel + j) b m)
    (outcome : Outcome Value) : a.Ends g m outcome m₁ ↔ b.Ends g m outcome m₁ :=
  ⟨.of_eq fun fuel => (h fuel).symm, .of_eq h⟩

end Expr

end ScriptLang
