import ScriptLang.Proofs.Eval.Comparison

/-!
# Evaluators that agree

If two evaluators agree on everything that is nested in a construct, the construct
ends alike with either of them.  There is one lemma for each construct, in the order
of the constructs; the hypotheses say of the parts of the construct that they are
compared.

`layer_agree` collects the constructs, and `evaluate_agree` follows by induction on
the number of steps.
-/

namespace ScriptLang

namespace Comparison

variable {C : Comparison} {g : Setting} {m m' : Machine}

/-! ## Conditions -/

/-- Alike values have the same truth, or none. -/
theorem truth_at (hm : C.Machines m m') {v v' : Value} (hv : C.Alike v v') :
    C.At m Eq (Eval.truth v m) (Eval.truth v' m') := by
  unfold Eval.truth
  rw [hv.bool?_eq]
  cases v.bool? with
  | some b => exact hm.ends (.value rfl)
  | none =>
      rw [hv.typeText_eq]
      exact hm.ends (.failed (.inr rfl))

/-- The operand of a type test names the same type in both trees. -/
theorem typeOperand_at (hm : C.Machines m m') (φ : Position → Position) {e : Expr}
    (he : C.lenient ∨ ∃ target, e.node = .type target) :
    C.At m Eq (Eval.typeOperand e m) (Eval.typeOperand (e.moved φ) m') := by
  unfold Eval.typeOperand
  rw [Expr.node_moved]
  cases hnode : e.node with
  | type target => exact hm.ends (.value rfl)
  | _ =>
      rw [hnode] at he
      have hlenient : C.lenient := he.resolve_right fun ⟨_, h⟩ => by cases h
      exact hm.ends (.failed (.inl hlenient))

section Constructs

variable {ev ev' : Expr → Eval Value} (hev : C.Agree ev ev')
  {φ : Position → Position} (hφ : C.moves φ)
include hev hφ

/-- An operand that may be missing agrees. -/
theorem optional_at (hm : C.Machines m m') {otherwise : Value}
    (hplain : otherwise.isPlain = true) {e : Option Expr} (he : ∀ x ∈ e, C.Fit x) :
    C.At m C.Alike (Eval.optional ev otherwise e m)
      (Eval.optional ev' otherwise (e.map (Expr.moved φ)) m') := by
  cases e with
  | none => exact hm.ends (.value (.plain hplain))
  | some e => exact hev hφ (he e rfl) hm

/-- Operands are evaluated in order, and their values are alike one by one. -/
theorem all_at (hm : C.Machines m m') {es : List Expr} (hes : ∀ e ∈ es, C.Fit e) :
    C.At m (List.Forall₂ C.Alike) (Eval.all ev es m)
      (Eval.all ev' (es.map (Expr.moved φ)) m') := by
  induction es generalizing m m' with
  | nil => exact hm.ends (.value .nil)
  | cons e rest ih =>
      apply (hev hφ (hes e List.mem_cons_self) hm).bind
      intro v v' m₁ m₁' hm₁ hv
      apply (ih hm₁ fun e he => hes e (List.mem_cons_of_mem _ he)).bind
      intro vs vs' m₂ m₂' hm₂ hvs
      exact .pure hm₂ (.cons hv hvs)

/-! ## Calls -/

omit hev hφ in
/-- Binding parameters to alike values. -/
theorem bindParameters_at (hC : C.Laws g) (hm : C.Machines m m')
    (φ : Position → Position) (parameters : List Parameter)
    {values values' : List Value} (hvalues : List.Forall₂ C.Alike values values') :
    C.At m (fun _ _ => True) (Eval.bindParameters parameters values m)
      (Eval.bindParameters (parameters.map (Parameter.moved φ)) values' m') := by
  induction parameters generalizing values values' m m' with
  | nil => exact hm.ends (.value trivial)
  | cons p parameters ih =>
      cases hvalues with
      | nil => exact hm.ends (.value trivial)
      | @cons v v' values values' hv hvalues =>
          have hnull : (p.moved φ).nonNull = p.nonNull := rfl
          simp only [List.map_cons, Eval.bindParameters, hnull, hv.isNull_eq]
          by_cases hrefused : (p.nonNull && v.isNull) = true
          · rw [if_pos hrefused, if_pos hrefused]
            exact hm.ends (.failed (.inr rfl))
          · rw [if_neg hrefused, if_neg hrefused]
            apply (override_at hC hm p.name hv p.const).bind
            intro _ _ m₁ m₁' hm₁ _
            exact ih hm₁ hvalues

omit hφ in
/-- Calls of closures that are alike, with alike arguments. -/
theorem callClosure_at (hC : C.Laws g) (hm : C.Machines m m') {f : Closure}
    {ψ : Position → Position} (hψ : C.moves ψ) (hf : C.Fit f.definition.body)
    {arguments arguments' : List Value}
    (harguments : List.Forall₂ C.Alike arguments arguments') :
    C.At m C.Alike (Eval.callClosure ev g f arguments m)
      (Eval.callClosure ev' g { f with definition := f.definition.moved ψ }
        arguments' m') := by
  have hdepth : m'.callDepth = m.callDepth := by rw [hm.eq_with]
  simp only [Eval.callClosure, FunctionDef.parameters_moved, FunctionDef.body_moved,
    List.length_map, ← harguments.length_eq, hdepth]
  by_cases hcount : f.definition.parameters.length ≠ arguments.length
  · rw [if_pos hcount, if_pos hcount]
    exact hm.ends (.failed (.inr rfl))
  · rw [if_neg hcount, if_neg hcount]
    by_cases hlimit : g.maxCallDepth ≤ m.callDepth
    · rw [if_pos hlimit, if_pos hlimit]
      exact hm.ends (.failed (.inr rfl))
    · rw [if_neg hlimit, if_neg hlimit]
      have hinside := hm.enterCall hC f.captured (Nat.lt_of_not_le hlimit)
      apply inCall_at hm
      apply (bindParameters_at hC hinside ψ f.definition.parameters harguments).bind
      intro _ _ m₁ m₁' hm₁ _
      exact hev hψ hf hm₁

omit hev hφ in
/-- Calls of one host function that is trusted, with alike arguments. -/
theorem callNative_at (hC : C.Laws g) (hm : C.Machines m m') {f : Native}
    (hf : C.trusts f) {arguments arguments' : List Value}
    (harguments : List.Forall₂ C.Alike arguments arguments') :
    C.At m C.Alike (Eval.callNative g f arguments m)
      (Eval.callNative g f arguments' m') := by
  obtain ⟨store', rfl, hstore⟩ := hm.exists_store
  simp only [Eval.callNative_eq, ← harguments.length_eq]
  by_cases hcount : f.arity.any (· ≠ arguments.length) = true
  · rw [if_pos hcount, if_pos hcount]
    exact hm.ending (.failed (.inr rfl)) rfl rfl hstore
  · rw [if_neg hcount, if_neg hcount]
    cases haction : g.host[f.entry]? with
    | none => exact hm.ending (.value (.plain rfl)) rfl rfl hstore
    | some action =>
        have hcount' : f.arity.any (· ≠ arguments.length) = false := by
          simpa using hcount
        obtain ⟨hanswers, hconsole⟩ :=
          hC.host m.console hf haction hcount' harguments
        dsimp only
        generalize action arguments m.console = done at hanswers hconsole ⊢
        generalize action arguments' m.console = done' at hanswers hconsole ⊢
        obtain ⟨answer, console⟩ := done
        obtain ⟨answer', console'⟩ := done'
        dsimp only at hanswers hconsole ⊢
        subst hconsole
        cases hanswers with
        | value h => exact hm.ending (.value h) rfl rfl hstore
        | fault h => exact hm.ending (.failed h) rfl rfl hstore
        | crash h => exact hm.ending (.crashed h) rfl rfl hstore

omit hφ in
/-- Calls of alike values, whatever they are. -/
theorem call_at (hC : C.Laws g) (hm : C.Machines m m') {callee callee' : Value}
    (hcallee : C.Alike callee callee') {arguments arguments' : List Value}
    (harguments : List.Forall₂ C.Alike arguments arguments') :
    C.At m C.Alike (Eval.call ev g callee arguments m)
      (Eval.call ev' g callee' arguments' m') := by
  cases hcallee with
  | plain hplain =>
      cases callee with
      | closure | native | namespace_ => cases hplain
      | _ => exact hm.ends (.failed (.inr rfl))
  | closure hψ hf => exact callClosure_at hev hC hm hψ hf harguments
  | native hf => exact callNative_at hC hm hf harguments
  | namespace_ => exact hm.ends (.failed (.inr rfl))

/-! ## Statements -/

/-- A declaration of several names agrees. -/
theorem declareAll_at (hC : C.Laws g) (hm : C.Machines m m')
    {bindings : List Binding} (hbindings : ∀ b ∈ bindings, ∀ e ∈ b.value, C.Fit e) :
    C.At m (fun _ _ => True) (Eval.declareAll ev bindings m)
      (Eval.declareAll ev' (bindings.map (Binding.moved φ)) m') := by
  induction bindings generalizing m m' with
  | nil => exact hm.ends (.value trivial)
  | cons b rest ih =>
      simp only [List.map_cons, Eval.declareAll, Binding.value_moved,
        Binding.name_moved, Binding.const_moved]
      apply (optional_at hev hφ hm rfl (hbindings b List.mem_cons_self)).bind
      intro v v' m₁ m₁' hm₁ hv
      apply (declare_at hC hm₁ b.name hv b.const).bind
      intro _ _ m₂ m₂' hm₂ _
      exact ih hm₂ fun b hb => hbindings b (List.mem_cons_of_mem _ hb)

omit hev hφ in
/-- A way out of a loop is checked in the same way. -/
theorem break_at (hm : C.Machines m m') :
    C.At m C.Alike ((do
      Eval.check Store.checkBreak
      Eval.stop .breaking : Eval Value) m) ((do
      Eval.check Store.checkBreak
      Eval.stop .breaking : Eval Value) m') := by
  apply (checkBreak_at hm).bind
  intro _ _ m₁ m₁' hm₁ _
  exact hm₁.ends .breaking

/-- After a declaration the innermost frame is settled. -/
theorem perform_at (hC : C.Laws g) (hm : C.Machines m m') {s : Stmt}
    (hs : C.FitStmt s) :
    C.At m C.Alike (Eval.perform ev g s.action m)
      (Eval.perform ev' g (s.moved φ).action m') := by
  obtain ⟨action, terminated, span⟩ := s
  cases action with
  | pull path =>
      have hpath : C.lenient ∨ path ≠ [] := hs.imp id fun h => by
        cases h; assumption
      apply (hm.lift (Results.resolvePath hC hpath)).bind
      rintro ⟨name, v⟩ ⟨name', v'⟩ m₁ m₁' hm₁ ⟨hname, hv⟩
      obtain rfl : name' = name := hname
      apply (declare_at hC hm₁ name' hv false).bind
      intro _ _ m₂ m₂' hm₂ _
      apply (settle_at hC hm₂).bind
      intro _ _ m₃ m₃' hm₃ _
      exact .pure hm₃ (.plain rfl)
  | declare bindings =>
      have hbindings : ∀ b ∈ bindings, ∀ e ∈ b.value, C.Fit e := by
        intro b hb e he
        refine hs.imp id fun h => ?_
        cases h with
        | declare h => exact h b hb e he
      simp only [Stmt.action_moved, Action.moved,
        Binding.movedEach_eq, Eval.perform]
      apply (declareAll_at hev hφ hC hm hbindings).bind
      intro _ _ m₁ m₁' hm₁ _
      apply (settle_at hC hm₁).bind
      intro _ _ m₂ m₂' hm₂ _
      exact .pure hm₂ (.plain rfl)
  | break_ => exact break_at hm
  | breakIf condition =>
      have hcondition : C.Fit condition := hs.imp id fun h => by cases h; assumption
      apply (hev hφ hcondition hm).bind
      intro v v' m₁ m₁' hm₁ hv
      apply (truth_at hm₁ hv).bind
      rintro b _ m₂ m₂' hm₂ rfl
      cases b with
      | true => exact break_at hm₂
      | false => exact .pure hm₂ (.plain rfl)
  | return_ value =>
      have hvalue : ∀ e ∈ value, C.Fit e := by
        intro e he
        refine hs.imp id fun h => ?_
        cases h with
        | return_ h => exact h e he
      simp only [Stmt.action_moved, Action.moved, Expr.moved?_eq, Eval.perform]
      apply (checkReturn_at hm).bind
      intro _ _ m₁ m₁' hm₁ _
      apply (optional_at hev hφ hm₁ rfl hvalue).bind
      intro v v' m₂ m₂' hm₂ hv
      exact hm₂.ends (.returning hv)
  | evaluate e => exact hev hφ (hs.imp id fun h => by cases h; assumption) hm

/-- Statements one after the other agree, up to the first that does not end with a
value. -/
theorem sequence_at (hC : C.Laws g) (hm : C.Machines m m') {statements : List Stmt}
    (hstatements : ∀ s ∈ statements, C.FitStmt s) {result result' : Value}
    (hresult : C.Alike result result') :
    C.At m C.Alike (Eval.sequence ev g result statements m)
      (Eval.sequence ev' g result' (statements.map (Stmt.moved φ)) m') := by
  induction statements generalizing result result' m m' with
  | nil => exact hm.ends (.value hresult)
  | cons s rest ih =>
      apply (perform_at hev hφ hC hm (hstatements s List.mem_cons_self)).bind
      intro v v' m₁ m₁' hm₁ hv
      apply ih hm₁ fun s hs => hstatements s (List.mem_cons_of_mem _ hs)
      rw [Stmt.terminated_moved]
      by_cases hterminated : s.terminated = true
      · rw [if_pos hterminated, if_pos hterminated]
        exact hresult
      · rw [if_neg hterminated, if_neg hterminated]
        exact hv

/-! ## Conditionals and loops -/

/-- The first alternative whose condition holds is the same one. -/
theorem alternatives_at (hm : C.Machines m m') {branches : List Alternative}
    (hbranches : ∀ a ∈ branches, C.Fit a.condition ∧ C.Fit a.body)
    {otherwise : Option Expr} (hotherwise : ∀ e ∈ otherwise, C.Fit e) :
    C.At m C.Alike (Eval.alternatives ev otherwise branches m)
      (Eval.alternatives ev' (otherwise.map (Expr.moved φ))
        (branches.map (Alternative.moved φ)) m') := by
  induction branches generalizing m m' with
  | nil => exact optional_at hev hφ hm rfl hotherwise
  | cons a rest ih =>
      obtain ⟨hcondition, hbody⟩ := hbranches a List.mem_cons_self
      simp only [List.map_cons, Eval.alternatives, Alternative.condition_moved,
        Alternative.body_moved]
      apply (hev hφ hcondition hm).bind
      intro v v' m₁ m₁' hm₁ hv
      apply (truth_at hm₁ hv).bind
      rintro b _ m₂ m₂' hm₂ rfl
      cases b with
      | true => exact hev hφ hbody hm₂
      | false => exact ih hm₂ fun a ha => hbranches a (List.mem_cons_of_mem _ ha)

/-- One turn of a loop agrees. -/
theorem turn_at (hC : C.Laws g) (hm : C.Machines m m')
    {counter : Option (String × Value)}
    (hcounter : ∀ name v, counter = some (name, v) → v.isPlain = true) {body : Expr}
    (hbody : C.Fit body) :
    C.At m C.Alike (Eval.turn ev counter body m)
      (Eval.turn ev' counter (body.moved φ) m') := by
  have hinside := hm.enter hC .loop
  apply inScope_at hm
  cases counter with
  | none =>
      apply (hinside.ends (Q := fun _ _ => True) (.value trivial)).bind
      intro _ _ m₁ m₁' hm₁ _
      exact hev hφ hbody hm₁
  | some counter =>
      obtain ⟨name, v⟩ := counter
      apply (declare_at hC hinside name (.plain (hcounter name v rfl)) false).bind
      intro _ _ m₁ m₁' hm₁ _
      exact hev hφ hbody hm₁

omit hev hφ in
/-- A loop goes on after a turn that ended with a value, stops after a `break`, and
hands on the rest. -/
theorem At.afterTurn {r r' : Outcome Value × Machine}
    {next next' : Machine → Outcome Value × Machine}
    (hnext : ∀ {m₁ m₁'}, C.Machines m₁ m₁' → C.At m₁ C.Alike (next m₁) (next' m₁')) :
    C.At m C.Alike r r' → C.At m C.Alike
      (match r with
        | (.value _, m) => next m
        | (.breaking, m) => (.value .null, m)
        | (outcome, m) => (outcome, m))
      (match r' with
        | (.value _, m) => next' m
        | (.breaking, m) => (.value .null, m)
        | (outcome, m) => (outcome, m)) := by
  intro hr
  obtain ⟨outcome, m₁⟩ := r
  obtain ⟨outcome', m₁'⟩ := r'
  obtain ⟨hlength, hdepth, hmachines, hends⟩ := hr
  cases hends with
  | value h => exact (hnext hmachines).after hlength hdepth
  | breaking => exact ⟨hlength, hdepth, hmachines, .value (.plain rfl)⟩
  | returning h => exact ⟨hlength, hdepth, hmachines, .returning h⟩
  | failed h => exact ⟨hlength, hdepth, hmachines, .failed h⟩
  | crashed h => exact ⟨hlength, hdepth, hmachines, .crashed h⟩
  | exhausted => exact ⟨hlength, hdepth, hmachines, .exhausted⟩

/-- A loop over a range of numbers agrees. -/
theorem forLoop_at (hC : C.Laws g) (hm : C.Machines m m') (counter : Option String)
    {body : Expr} (hbody : C.Fit body) (fuel : Nat) (range : CounterRange) :
    C.At m C.Alike (Eval.forLoop ev counter body fuel range m)
      (Eval.forLoop ev' counter (body.moved φ) fuel range m') := by
  induction fuel generalizing range m m' with
  | zero => exact hm.ends .exhausted
  | succ fuel ih =>
      unfold Eval.forLoop
      cases hnext : range.next? with
      | none => exact hm.ends (.value (.plain rfl))
      | some next =>
          obtain ⟨v, rest⟩ := next
          refine At.afterTurn (fun hm₁ => ih hm₁ rest)
            (turn_at hev hφ hC hm ?_ hbody)
          intro name w hw
          obtain ⟨_, _, hpair⟩ := Option.map_eq_some_iff.mp hw
          cases hpair
          exact Discipline.isPlain_next? hnext

/-- A loop with a condition agrees. -/
theorem whileLoop_at (hC : C.Laws g) (hm : C.Machines m m') {condition body : Expr}
    (hcondition : C.Fit condition) (hbody : C.Fit body) (fuel : Nat) :
    C.At m C.Alike (Eval.whileLoop ev condition body fuel m)
      (Eval.whileLoop ev' (condition.moved φ) (body.moved φ) fuel m') := by
  induction fuel generalizing m m' with
  | zero => exact hm.ends .exhausted
  | succ fuel ih =>
      have htruth : C.At m Eq (Eval.andThen (ev condition) Eval.truth m)
          (Eval.andThen (ev' (condition.moved φ)) Eval.truth m') :=
        (hev hφ hcondition hm).bind fun hm₁ hv => truth_at hm₁ hv
      unfold Eval.whileLoop
      generalize Eval.andThen (ev condition) Eval.truth m = r at htruth ⊢
      generalize Eval.andThen (ev' (condition.moved φ)) Eval.truth m' =
        r' at htruth ⊢
      obtain ⟨outcome, m₁⟩ := r
      obtain ⟨outcome', m₁'⟩ := r'
      obtain ⟨hlength, hdepth, hmachines, hends⟩ := htruth
      cases hends with
      | @value b b' heq =>
          subst heq
          cases b with
          | true =>
              have hturn : C.At m₁ C.Alike (Eval.turn ev none body m₁)
                  (Eval.turn ev' none (body.moved φ) m₁') :=
                turn_at hev hφ hC hmachines (by simp) hbody
              exact (At.afterTurn (fun hm₂ => ih hm₂) hturn).after hlength hdepth
          | false => exact ⟨hlength, hdepth, hmachines, .value (.plain rfl)⟩
      | breaking => exact ⟨hlength, hdepth, hmachines, .breaking⟩
      | returning h => exact ⟨hlength, hdepth, hmachines, .returning h⟩
      | failed h => exact ⟨hlength, hdepth, hmachines, .failed h⟩
      | crashed h => exact ⟨hlength, hdepth, hmachines, .crashed h⟩
      | exhausted => exact ⟨hlength, hdepth, hmachines, .exhausted⟩

/-! ## Operators -/

omit hev hφ in
/-- What is stored is handed on as the value. -/
theorem store_at (hm : C.Machines m m') (name : String) {v v' : Value}
    (hv : C.Alike v v') :
    C.At m C.Alike ((do
      Eval.update (Store.assign name v)
      return v : Eval Value) m) ((do
      Eval.update (Store.assign name v')
      return v' : Eval Value) m') := by
  apply (assign_at hm name hv).bind
  intro _ _ m₁ m₁' hm₁ _
  exact .pure hm₁ hv

/-- An assignment agrees. -/
theorem assignment_at (hm : C.Machines m m') {target e : Expr} (o : Operator)
    (htarget : C.lenient ∨ ∃ name, target.node = .name name) (he : C.Fit e) :
    C.At m C.Alike (Eval.assign ev target o e m)
      (Eval.assign ev' (target.moved φ) o (e.moved φ) m') := by
  unfold Eval.assign
  rw [Expr.node_moved]
  cases hnode : target.node with
  | name name =>
      apply (hev hφ he hm).bind
      intro v v' m₁ m₁' hm₁ hv
      cases hbase : o.compoundBase? with
      | none =>
          apply (At.pure hm₁ hv).bind
          intro w w' m₂ m₂' hm₂ hw
          exact store_at hm₂ name hw
      | some base =>
          have harithmetic : Value.isArithmetic base = true := by
            cases o <;> first | (cases hbase; done) | (cases hbase; rfl)
          apply (access_at hm₁ name).bind
          intro old old' m₂ m₂' hm₂ hold
          rw [hold.arithmetic_eq base hv]
          have hresult : Results C C.Alike (old.arithmetic base v)
              (old.arithmetic base v) :=
            .of_plain (fun _ => Value.isPlain_arithmetic)
              (.inr (Value.arithmetic_healthy harithmetic _ _))
          apply (hm₂.lift hresult).bind
          intro w w' m₃ m₃' hm₃ hw
          exact store_at hm₃ name hw
  | _ =>
      rw [hnode] at htarget
      have hlenient : C.lenient := htarget.resolve_right fun ⟨_, h⟩ => by cases h
      exact hm.ends (.failed (.inl hlenient))

/-- A truth value as a value. -/
theorem truthValue_at (hm : C.Machines m m') {e : Expr} (he : C.Fit e) :
    C.At m C.Alike ((do return .bool (← Eval.truth (← ev e)) : Eval Value) m)
      ((do return .bool (← Eval.truth (← ev' (e.moved φ))) : Eval Value) m') := by
  apply (hev hφ he hm).bind
  intro v v' m₁ m₁' hm₁ hv
  apply (truth_at hm₁ hv).bind
  rintro b _ m₂ m₂' hm₂ rfl
  exact .pure hm₂ (.plain rfl)

/-- A type test, whose right operand is not evaluated. -/
theorem typeTest_at (hm : C.Machines m m') {left right : Expr} (hleft : C.Fit left)
    (hright : C.lenient ∨ ∃ target, right.node = .type target)
    (test : Bool → Bool) :
    C.At m C.Alike ((do
      let value ← ev left
      return .bool (test (value.hasType (← Eval.typeOperand right))) : Eval Value)
        m) ((do
      let value ← ev' (left.moved φ)
      return .bool (test (value.hasType (← Eval.typeOperand (right.moved φ)))) :
        Eval Value) m') := by
  apply (hev hφ hleft hm).bind
  intro v v' m₁ m₁' hm₁ hv
  apply (typeOperand_at hm₁ φ hright).bind
  rintro target _ m₂ m₂' hm₂ rfl
  rw [hv.hasType_eq]
  exact .pure hm₂ (.plain rfl)

/-- A member of a namespace agrees. -/
theorem member_at (hm : C.Machines m m') {left right : Expr} (hleft : C.Fit left)
    (hright : C.lenient ∨ ∃ name, right.node = .name name) :
    C.At m C.Alike ((do
      let target ← ev left
      match right.node with
      | .name member => Eval.lift (target.member member)
      | _ => Eval.fail (.internal "member access needs a name") : Eval Value) m)
        ((do
      let target ← ev' (left.moved φ)
      match (right.moved φ).node with
      | .name member => Eval.lift (target.member member)
      | _ =>
          Eval.fail (.internal "member access needs a name") : Eval Value) m') := by
  apply (hev hφ hleft hm).bind
  intro v v' m₁ m₁' hm₁ hv
  rw [Expr.node_moved]
  cases hnode : right.node with
  | name member => exact hm₁.lift (Results.member member hv)
  | _ =>
      rw [hnode] at hright
      have hlenient : C.lenient := hright.resolve_right fun ⟨_, h⟩ => by cases h
      exact hm₁.ends (.failed (.inl hlenient))

/-- The operators that evaluate both operands and then compute. -/
theorem strict_at (hm : C.Machines m m') {o : Operator} {left right : Expr}
    (hleft : C.Fit left) (hright : C.Fit right)
    (ho : C.lenient ∨ ∀ a b : Value, Healthy (a.applyBinary o b)) :
    C.At m C.Alike ((do
      let a ← ev left
      let b ← ev right
      Eval.lift (a.applyBinary o b) : Eval Value) m) ((do
      let a ← ev' (left.moved φ)
      let b ← ev' (right.moved φ)
      Eval.lift (a.applyBinary o b) : Eval Value) m') := by
  apply (hev hφ hleft hm).bind
  intro a a' m₁ m₁' hm₁ ha
  apply (hev hφ hright hm₁).bind
  intro b b' m₂ m₂' hm₂ hb
  rw [ha.applyBinary_eq o hb]
  exact hm₂.lift (.of_plain (fun _ => Value.isPlain_applyBinary)
    (ho.imp id fun h => h a b))

omit hev hφ in
/-- The target of an assignment that fits is a name. -/
theorem fit_assignment {o : Operator} {left right : Expr} {span : Span}
    (h : C.Fit ⟨.binary o left right, span⟩) (ho : o.isAssignment = true) :
    (C.lenient ∨ ∃ name, left.node = .name name) ∧ C.Fit right := by
  rcases h with h | h
  · exact ⟨.inl h, .inl h⟩
  · cases h with
    | assignment _ htarget he => exact ⟨.inr ⟨_, htarget⟩, .inr he⟩
    | typeTest htest => rcases htest with rfl | rfl <;> cases ho
    | access => cases ho
    | binary hjoins => cases o <;> first | (cases ho; done) | cases hjoins

omit hev hφ in
/-- The right operand of a type test that fits is a type. -/
theorem fit_typeTest {o : Operator} {left right : Expr} {span : Span}
    (h : C.Fit ⟨.binary o left right, span⟩) (ho : o = .is ∨ o = .isNot) :
    C.Fit left ∧ (C.lenient ∨ ∃ target, right.node = .type target) := by
  rcases h with h | h
  · exact ⟨.inl h, .inl h⟩
  · cases h with
    | assignment hassignment => rcases ho with rfl | rfl <;> cases hassignment
    | typeTest _ hleft hright => exact ⟨.inr hleft, .inr ⟨_, hright⟩⟩
    | access => rcases ho with ho | ho <;> cases ho
    | binary hjoins => rcases ho with rfl | rfl <;> cases hjoins

omit hev hφ in
/-- The right operand of an access that fits is a name. -/
theorem fit_access {left right : Expr} {span : Span}
    (h : C.Fit ⟨.binary .access left right, span⟩) :
    C.Fit left ∧ (C.lenient ∨ ∃ name, right.node = .name name) := by
  rcases h with h | h
  · exact ⟨.inl h, .inl h⟩
  · cases h with
    | assignment hassignment => cases hassignment
    | typeTest htest => rcases htest with htest | htest <;> cases htest
    | access hleft hright => exact ⟨.inr hleft, .inr ⟨_, hright⟩⟩
    | binary hjoins => cases hjoins

omit hev hφ in
/-- The operands of all other operators are evaluated. -/
theorem fit_operands {o : Operator} {left right : Expr} {span : Span}
    (h : C.Fit ⟨.binary o left right, span⟩) (hassignment : o.isAssignment = false)
    (htest : o ≠ .is ∧ o ≠ .isNot) (haccess : o ≠ .access) :
    C.Fit left ∧ C.Fit right ∧ (C.lenient ∨ o.joinsValues = true) := by
  rcases h with h | h
  · exact ⟨.inl h, .inl h, .inl h⟩
  · cases h with
    | assignment ho => rw [ho] at hassignment; cases hassignment
    | typeTest ho => exact absurd ho (not_or.mpr htest)
    | access => exact absurd rfl haccess
    | binary ho hleft hright => exact ⟨.inr hleft, .inr hright, .inr ho⟩

/-- A binary operation agrees, whatever the rung of its operator. -/
theorem binary_at (hC : C.Laws g) (hm : C.Machines m m') {o : Operator}
    {left right : Expr} {span : Span} (hfit : C.Fit ⟨.binary o left right, span⟩) :
    C.At m C.Alike (Eval.binary ev g o left right m)
      (Eval.binary ev' g o (left.moved φ) (right.moved φ) m') := by
  unfold Eval.binary
  by_cases hassignment : o.isAssignment = true
  · rw [if_pos hassignment, if_pos hassignment]
    obtain ⟨htarget, he⟩ := fit_assignment hfit hassignment
    exact assignment_at hev hφ hm o htarget he
  · rw [if_neg hassignment, if_neg hassignment]
    have hassignment' : o.isAssignment = false := by simpa using hassignment
    cases o with
    | is =>
        obtain ⟨hleft, htype⟩ := fit_typeTest hfit (.inl rfl)
        exact typeTest_at hev hφ hm hleft htype id
    | isNot =>
        obtain ⟨hleft, htype⟩ := fit_typeTest hfit (.inr rfl)
        exact typeTest_at hev hφ hm hleft htype not
    | access =>
        obtain ⟨hleft, hname⟩ := fit_access hfit
        exact member_at hev hφ hm hleft hname
    | and =>
        obtain ⟨hleft, hright, _⟩ :=
          fit_operands hfit hassignment' (by decide) (by decide)
        apply (hev hφ hleft hm).bind
        intro v v' m₁ m₁' hm₁ hv
        apply (truth_at hm₁ hv).bind
        rintro b _ m₂ m₂' hm₂ rfl
        cases b with
        | true => exact truthValue_at hev hφ hm₂ hright
        | false => exact .pure hm₂ (.plain rfl)
    | or =>
        obtain ⟨hleft, hright, _⟩ :=
          fit_operands hfit hassignment' (by decide) (by decide)
        apply (hev hφ hleft hm).bind
        intro v v' m₁ m₁' hm₁ hv
        apply (truth_at hm₁ hv).bind
        rintro b _ m₂ m₂' hm₂ rfl
        cases b with
        | true => exact .pure hm₂ (.plain rfl)
        | false => exact truthValue_at hev hφ hm₂ hright
    | nullCoalescing =>
        obtain ⟨hleft, hright, _⟩ :=
          fit_operands hfit hassignment' (by decide) (by decide)
        apply (hev hφ hleft hm).bind
        intro v v' m₁ m₁' hm₁ hv
        rw [hv.isNull_eq]
        cases v.isNull with
        | true => exact hev hφ hright hm₁
        | false => exact .pure hm₁ hv
    | nullsafePipe =>
        obtain ⟨hleft, hright, _⟩ :=
          fit_operands hfit hassignment' (by decide) (by decide)
        apply (hev hφ hleft hm).bind
        intro v v' m₁ m₁' hm₁ hv
        rw [hv.isNull_eq]
        cases v.isNull with
        | true => exact .pure hm₁ (.plain rfl)
        | false =>
            apply (hev hφ hright hm₁).bind
            intro f f' m₂ m₂' hm₂ hf
            exact call_at hev hC hm₂ hf (.cons hv .nil)
    | _ =>
        obtain ⟨hleft, hright, hjoins⟩ :=
          fit_operands hfit hassignment' (by decide) (by decide)
        refine strict_at hev hφ hm hleft hright (hjoins.imp id fun h => ?_)
        exact Value.applyBinary_healthy h (by decide)

/-! ## Matching -/

omit hev hφ in
/-- A comparison between alike values holds or not alike. -/
theorem holds_eq {a a' v v' : Value} (o : Operator) (ha : C.Alike a a')
    (hv : C.Alike v v') :
    Eval.holds o a' v' = Eval.holds o a v := by
  unfold Eval.holds
  rw [ha.compare_eq o hv]

omit hev hφ in
/-- Alike values match alike values. -/
theorem matchValue_eq {a a' v v' : Value} (ha : C.Alike a a') (hv : C.Alike v v') :
    Eval.matchValue a' v' = Eval.matchValue a v := by
  obtain rfl | ⟨f, f', rfl, rfl, _⟩ := hv.cases_eq
  · cases v' with
    | bool guard => rfl
    | _ => exact holds_eq .equal ha hv
  · exact holds_eq .equal ha hv

/-- A pattern that evaluates an operand and compares. -/
theorem comparison_at (hm : C.Machines m m') {e : Expr} (he : C.Fit e)
    {test test' : Value → Bool}
    (htest : ∀ {v v'}, C.Alike v v' → test' v' = test v) :
    C.At m Eq ((do return test (← ev e) : Eval Bool) m)
      ((do return test' (← ev' (e.moved φ)) : Eval Bool) m') := by
  apply (hev hφ he hm).bind
  intro v v' m₁ m₁' hm₁ hv
  exact .pure hm₁ (htest hv).symm

omit hev hφ in
/-- A pattern that tests the type of the matched value. -/
theorem typePattern_at (hm : C.Machines m m') (φ : Position → Position)
    {operand : Expr} (hoperand : C.lenient ∨ ∃ target, operand.node = .type target)
    {a a' : Value} (ha : C.Alike a a') (test : Bool → Bool) :
    C.At m Eq ((do return test (a.hasType (← Eval.typeOperand operand)) : Eval Bool)
      m)
      ((do return test (a'.hasType (← Eval.typeOperand (operand.moved φ))) :
        Eval Bool) m') := by
  apply (typeOperand_at hm φ hoperand).bind
  rintro target _ m₁ m₁' hm₁ rfl
  rw [ha.hasType_eq]
  exact .pure hm₁ rfl

omit hev hφ in
/-- The inside of a pattern that fits is one. -/
theorem fitPattern_grouping {inner : Expr} {span : Span}
    (h : C.FitPattern ⟨.grouping inner, span⟩) :
    C.FitPattern inner := by
  refine h.imp id fun h => ?_
  cases h with
  | grouping h => exact h
  | expression h =>
      cases h with
      | grouping h => exact .expression h

omit hev hφ in
/-- Both parts of a composed pattern that fits are patterns that fit. -/
theorem fitPattern_binary {o : Operator} (ho : o = .matchAnd ∨ o = .matchOr)
    {left right : Expr} {span : Span}
    (h : C.FitPattern ⟨.binary o left right, span⟩) :
    C.FitPattern left ∧ C.FitPattern right := by
  rcases h with h | h
  · exact ⟨.inl h, .inl h⟩
  · cases h with
    | binary _ hleft hright => exact ⟨.inr hleft, .inr hright⟩
    | expression h =>
        rcases ho with rfl | rfl
        all_goals
          cases h with
          | assignment ho => cases ho
          | typeTest ho => rcases ho with ho | ho <;> cases ho
          | binary ho => cases ho

omit hev hφ in
/-- The operand of a pattern of a type that fits is a type. -/
theorem fitPattern_typeTest {o : Operator} (ho : o = .matchIs ∨ o = .matchIsNot)
    {operand : Expr} {span : Span} (h : C.FitPattern ⟨.unary o operand, span⟩) :
    C.lenient ∨ ∃ target, operand.node = .type target := by
  refine h.imp id fun h => ?_
  cases h with
  | typeTest _ htype => exact ⟨_, htype⟩
  | comparison hcomparison => rcases ho with rfl | rfl <;> cases hcomparison
  | expression h =>
      cases h with
      | unary hsign => rcases ho with rfl | rfl <;> cases hsign

omit hev hφ in
/-- The operand of a comparing pattern that fits is an expression that fits. -/
theorem fitPattern_comparison {o comparison : Operator}
    (ho : o.matchComparison? = some comparison) {operand : Expr} {span : Span}
    (h : C.FitPattern ⟨.unary o operand, span⟩) : C.Fit operand := by
  refine h.imp id fun h => ?_
  cases h with
  | typeTest htest => rcases htest with rfl | rfl <;> cases ho
  | comparison _ hoperand => exact hoperand
  | expression h =>
      cases h with
      | unary hsign => cases o <;> first | (cases ho; done) | cases hsign

omit hev hφ in
/-- A pattern without an operator of patterns is an expression. -/
theorem fit_of_fitPattern {pattern : Expr} (h : C.FitPattern pattern)
    (hgrouping : ∀ inner, pattern.node ≠ .grouping inner)
    (hbinary : ∀ o left right, pattern.node = .binary o left right →
      o ≠ .matchAnd ∧ o ≠ .matchOr)
    (hunary : ∀ o operand, pattern.node = .unary o operand → o ≠ .matchIs ∧
      o ≠ .matchIsNot ∧ o.matchComparison? = none) :
    C.Fit pattern := by
  refine h.imp id fun h => ?_
  cases h with
  | grouping => exact absurd rfl (hgrouping _)
  | binary ho => exact absurd ho (not_or.mpr (hbinary _ _ _ rfl))
  | typeTest ho =>
      obtain ⟨his, hisNot, _⟩ := hunary _ _ rfl
      exact absurd ho (not_or.mpr ⟨his, hisNot⟩)
  | comparison ho =>
      rw [(hunary _ _ rfl).2.2] at ho
      cases ho
  | expression h => exact h

/-- A pattern that is an expression. -/
theorem plainPattern_at (hm : C.Machines m m') {pattern : Expr}
    (hpattern : C.Fit pattern) {a a' : Value} (ha : C.Alike a a') :
    C.At m Eq ((do return Eval.matchValue a (← ev pattern) : Eval Bool) m)
      ((do return Eval.matchValue a' (← ev' (pattern.moved φ)) : Eval Bool) m') :=
  comparison_at hev hφ hm hpattern fun hv => matchValue_eq ha hv

/-- A pattern matches alike values in both runs or in none. -/
theorem matchPattern_at (hm : C.Machines m m') {pattern : Expr}
    (hpattern : C.FitPattern pattern) {a a' : Value} (ha : C.Alike a a') :
    C.At m Eq (Eval.matchPattern ev a pattern m)
      (Eval.matchPattern ev' a' (pattern.moved φ) m') := by
  induction pattern using Eval.matchPattern.induct generalizing m m' with
  | case1 inner _ ih => exact ih hm (fitPattern_grouping hpattern)
  | case2 left right _ ihLeft ihRight =>
      obtain ⟨hleft, hright⟩ := fitPattern_binary (.inl rfl) hpattern
      apply (ihLeft hm hleft).bind
      rintro b _ m₁ m₁' hm₁ rfl
      cases b with
      | true => exact ihRight hm₁ hright
      | false => exact .pure hm₁ rfl
  | case3 left right _ ihLeft ihRight =>
      obtain ⟨hleft, hright⟩ := fitPattern_binary (.inr rfl) hpattern
      apply (ihLeft hm hleft).bind
      rintro b _ m₁ m₁' hm₁ rfl
      cases b with
      | true => exact .pure hm₁ rfl
      | false => exact ihRight hm₁ hright
  | case4 operand _ =>
      exact typePattern_at hm φ (fitPattern_typeTest (.inl rfl) hpattern) ha id
  | case5 operand _ =>
      exact typePattern_at hm φ (fitPattern_typeTest (.inr rfl) hpattern) ha not
  | case6 value _ =>
      have hliteral : C.Alike (.ofLiteral value) (.ofLiteral value) :=
        .plain (Value.isPlain_ofLiteral value)
      exact hm.ends (.value (holds_eq .equal ha hliteral).symm)
  | case7 o operand span his hisNot comparison hcomparison =>
      have hmoved : Expr.moved φ ⟨.unary o operand, span⟩ =
        ⟨.unary o (operand.moved φ), span.moved φ⟩ := rfl
      rw [hmoved, Eval.matchPattern.eq_7 ev a o operand span his hisNot,
        Eval.matchPattern.eq_7 ev' a' o _ _ his hisNot, hcomparison]
      exact comparison_at hev hφ hm (fitPattern_comparison hcomparison hpattern)
        fun hv => holds_eq comparison ha hv
  | case8 o operand span his hisNot hcomparison =>
      have hmoved : Expr.moved φ ⟨.unary o operand, span⟩ =
        ⟨.unary o (operand.moved φ), span.moved φ⟩ := rfl
      rw [hmoved, Eval.matchPattern.eq_7 ev a o operand span his hisNot,
        Eval.matchPattern.eq_7 ev' a' o _ _ his hisNot, hcomparison]
      refine plainPattern_at hev hφ hm
        (fit_of_fitPattern hpattern (fun _ h => by cases h)
        (fun _ _ _ h => by cases h) fun o' operand' h => ?_) ha
      cases h
      exact ⟨his, hisNot, hcomparison⟩
  | case9 pattern h₁ h₂ h₃ h₄ h₅ h₆ h₇ =>
      obtain ⟨node, span⟩ := pattern
      cases node with
      | grouping inner => exact absurd rfl (h₁ inner span)
      | literal value => exact absurd rfl (h₆ value span)
      | unary o operand => exact absurd rfl (h₇ o operand span)
      | binary o left right =>
          have hfit : C.Fit ⟨.binary o left right, span⟩ := by
            refine fit_of_fitPattern hpattern (fun _ h => by cases h)
              (fun _ _ _ h => ?_)
              (fun _ _ h => by cases h)
            cases h
            exact ⟨fun ho => h₂ left right span (by rw [ho]),
              fun ho => h₃ left right span (by rw [ho])⟩
          cases o with
          | matchAnd => exact absurd rfl (h₂ left right span)
          | matchOr => exact absurd rfl (h₃ left right span)
          | _ => exact plainPattern_at hev hφ hm hfit ha
      | _ =>
          refine plainPattern_at hev hφ hm
            (fit_of_fitPattern hpattern (fun _ h => by cases h)
            (fun _ _ _ h => by cases h) fun _ _ h => by cases h) ha

/-- The same branch of a match is taken. -/
theorem branches_at (hm : C.Machines m m') {branches : List Branch}
    (hpatterns : ∀ b ∈ branches, ∀ e ∈ b.pattern, C.FitPattern e)
    (hconsequents : ∀ b ∈ branches, C.Fit b.consequent) {fallback : Option Expr}
    (hfallback : ∀ e ∈ fallback, C.Fit e) {a a' : Value} (ha : C.Alike a a') :
    C.At m C.Alike (Eval.branches ev a fallback branches m)
      (Eval.branches ev' a' (fallback.map (Expr.moved φ))
        (branches.map (Branch.moved φ)) m') := by
  induction branches generalizing fallback m m' with
  | nil => exact optional_at hev hφ hm rfl hfallback
  | cons b rest ih =>
      have hpatterns' := fun b hb => hpatterns b (List.mem_cons_of_mem _ hb)
      have hconsequents' := fun b hb => hconsequents b (List.mem_cons_of_mem _ hb)
      simp only [List.map_cons, Eval.branches, Branch.pattern_moved,
        Branch.consequent_moved]
      cases hpattern : b.pattern with
      | none =>
          have hmap : (fallback.map (Expr.moved φ)).or
            (some (b.consequent.moved φ)) =
              (fallback.or (some b.consequent)).map (Expr.moved φ) := by
            cases fallback <;> rfl
          simp only [Option.map_none, hmap]
          apply ih hm hpatterns' hconsequents'
          intro e he
          cases fallback with
          | none =>
              obtain rfl : b.consequent = e := Option.some.inj he
              exact hconsequents b List.mem_cons_self
          | some e' =>
              obtain rfl : e' = e := Option.some.inj he
              exact hfallback e' rfl
      | some pattern =>
          simp only [Option.map_some]
          apply (matchPattern_at hev hφ hm
            (hpatterns b List.mem_cons_self pattern hpattern) ha).bind
          rintro matched _ m₁ m₁' hm₁ rfl
          cases matched with
          | true => exact hev hφ (hconsequents b List.mem_cons_self) hm₁
          | false => exact ih hm₁ hpatterns' hconsequents' hfallback

/-! ## Expressions and statements -/

omit hφ in
/-- Evaluators that agree on what is nested in an expression agree on the
expression. -/
theorem layer_agree (hC : C.Laws g) (fuel : Nat) :
    C.Agree (Eval.layer ev g fuel) (Eval.layer ev' g fuel) := by
  intro φ e m m' hφ hfit hm
  obtain ⟨node, span⟩ := e
  cases node with
  | block statements =>
      have hstatements : ∀ s ∈ statements, C.FitStmt s :=
        fun s hs => hfit.imp id fun | .block h => h s hs
      simp only [Eval.layer, Expr.node_moved, Node.moved, Stmt.movedEach_eq]
      exact inScope_at hm (sequence_at hev hφ hC
        (hm.enter hC .block) hstatements (.plain rfl))
  | conditional branches otherwise =>
      have hbranches : ∀ a ∈ branches, C.Fit a.condition ∧ C.Fit a.body :=
        fun a ha =>
        ⟨hfit.imp id fun | .conditional h _ _ => h a ha,
          hfit.imp id fun | .conditional _ h _ => h a ha⟩
      have hotherwise : ∀ x ∈ otherwise, C.Fit x := fun x hx =>
        hfit.imp id fun | .conditional _ _ h => h x hx
      simp only [Eval.layer, Expr.node_moved, Node.moved, Alternative.movedEach_eq,
        Expr.moved?_eq]
      exact alternatives_at hev hφ hm hbranches hotherwise
  | forLoop counter start stop step body =>
      have hstart : ∀ x ∈ start, C.Fit x :=
        fun x hx => hfit.imp id fun | .forLoop h _ _ _ => h x hx
      have hstop : C.Fit stop := hfit.imp id fun | .forLoop _ h _ _ => h
      have hstep : ∀ x ∈ step, C.Fit x :=
        fun x hx => hfit.imp id fun | .forLoop _ _ h _ => h x hx
      have hbody : C.Fit body := hfit.imp id fun | .forLoop _ _ _ h => h
      simp only [Eval.layer, Expr.node_moved, Node.moved, Expr.moved?_eq]
      apply (optional_at hev hφ hm rfl hstart).bind
      intro first first' m₁ m₁' hm₁ hfirst
      apply (hev hφ hstop hm₁).bind
      intro last last' m₂ m₂' hm₂ hlast
      apply (optional_at hev hφ hm₂ rfl hstep).bind
      intro stride stride' m₃ m₃' hm₃ hstride
      rw [hfirst.range_eq hlast hstride]
      have hrange : Results C Eq (CounterRange.of first last stride)
          (CounterRange.of first last stride) := by
        cases hresult : CounterRange.of first last stride with
        | ok range => exact .ok rfl
        | error fault =>
            exact .error
              (.inr (CounterRange.of_healthy first last stride fault hresult))
      apply (hm₃.lift hrange).bind
      rintro range _ m₄ m₄' hm₄ rfl
      exact forLoop_at hev hφ hC hm₄ counter hbody fuel range
  | whileLoop condition body =>
      have hcondition : C.Fit condition := hfit.imp id fun | .whileLoop h _ => h
      have hbody : C.Fit body := hfit.imp id fun | .whileLoop _ h => h
      exact whileLoop_at hev hφ hC hm hcondition hbody fuel
  | function definition => exact close_at hφ (hfit.imp id fun | .function h => h) hm
  | matching argument branches =>
      have hargument : C.Fit argument := hfit.imp id fun | .matching h _ _ => h
      have hpatterns : ∀ b ∈ branches, ∀ x ∈ b.pattern, C.FitPattern x :=
        fun b hb x hx =>
        hfit.imp id fun | .matching _ h _ => h b hb x hx
      have hconsequents : ∀ b ∈ branches, C.Fit b.consequent := fun b hb =>
        hfit.imp id fun | .matching _ _ h => h b hb
      simp only [Eval.layer, Expr.node_moved, Node.moved, Branch.movedEach_eq]
      apply (hev hφ hargument hm).bind
      intro a a' m₁ m₁' hm₁ ha
      exact branches_at hev hφ hm₁ hpatterns hconsequents (by simp) ha
  | grouping inner => exact hev hφ (hfit.imp id fun | .grouping h => h) hm
  | binary operator left right => exact binary_at hev hφ hC hm hfit
  | unary operator operand =>
      apply (hev hφ (hfit.imp id fun | .unary _ h => h) hm).bind
      intro v v' m₁ m₁' hm₁ hv
      rw [hv.applySign_eq]
      exact hm₁.lift (.of_plain (fun _ => Value.isPlain_applySign)
        (.inr (Value.applySign_healthy _ _)))
  | call callee arguments =>
      have hcallee : C.Fit callee := hfit.imp id fun | .call h _ => h
      have harguments : ∀ x ∈ arguments, C.Fit x :=
        fun x hx => hfit.imp id fun | .call _ h => h x hx
      simp only [Eval.layer, Expr.node_moved, Node.moved, Expr.movedEach_eq]
      apply (hev hφ hcallee hm).bind
      intro f f' m₁ m₁' hm₁ hf
      apply (all_at hev hφ hm₁ harguments).bind
      intro vs vs' m₂ m₂' hm₂ hvs
      exact call_at hev hC hm₂ hf hvs
  | name text => exact access_at hm text
  | literal value => exact hm.ends (.value (.plain (Value.isPlain_ofLiteral value)))
  | cast target operand =>
      apply (hev hφ (hfit.imp id fun | .cast h => h) hm).bind
      intro v v' m₁ m₁' hm₁ hv
      exact hm₁.lift (Results.cast target hv)
  | type target => exact hm.ends (.value (.plain rfl))

end Constructs

/-- Evaluation ends alike on corresponding trees and machines. -/
theorem evaluate_agree (hC : C.Laws g) (fuel : Nat) :
    C.Agree (evaluate g fuel) (evaluate g fuel) := by
  induction fuel with
  | zero => exact fun _ _ hm => hm.ends .exhausted
  | succ fuel ih => exact layer_agree ih hC fuel

/-- Statements end alike on corresponding trees and machines. -/
theorem execute_at (hC : C.Laws g) (fuel : Nat) {φ : Position → Position}
    (hφ : C.moves φ) {s : Stmt} (hs : C.FitStmt s) (hm : C.Machines m m') :
    C.At m C.Alike (execute g fuel s m) (execute g fuel (s.moved φ) m') :=
  perform_at (evaluate_agree hC fuel) hφ hC hm hs

end Comparison

end ScriptLang
