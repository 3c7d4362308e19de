import ScriptLang.Proofs.Parse.Layout
import ScriptLang.Proofs.Parse.Rows

/-!
# Spans nest

Every node of a tree that is parsed covers the text from the first to the last of
the tokens taken for it, whatever is wrong with them, and so the spans of its parts
lie in its own, one behind the other (`Outline.Nests`).  There is one lemma for each
rule of the grammar, which assumes the same of the rules that are nested in it.
-/

namespace ScriptLang

/-- Rules whose values are nodes that cover what is taken for them. -/
structure Rules.Covering (r : Rules ParseState) : Prop where
  expression : Parse.Covers r.expression Expr.outline
  signed : Parse.Covers r.signed Expr.outline
  comparand : Parse.Covers r.comparand Expr.outline
  pattern : Parse.Covers r.pattern Expr.outline
  statement : Parse.Covers r.statement Stmt.outline

namespace Grammar

open Parse

variable {r : Rules ParseState} {s : ParseState}

/-! ## Lists, counters and parameters -/

/-- The end of a turn: a comma, behind which there is more, or nothing. -/
theorem comma_at {out : α → Outline} {a : Spot} {before : List α} {next : α}
    (h : Row false a s.spot (before.map out ++ [out next])) :
    At s (do
      if ← eat (.symbol .comma) then return .again (before ++ [next])
      else return .done (before ++ [next]) : Parse (Turn (List α))) fun turn b =>
        Row false a b (turn.value.map out) := by
  refine h.pass (eat_lays _) fun found t h' => ?_
  have hall : Row false a t.spot ((before ++ [next]).map out) := by
    rw [List.map_append, List.map_singleton]
    exact h'
  split
  · exact At.yield hall
  · exact At.yield hall

/-- Things with commas between them. -/
theorem commas_lays {item : Parse α} {out : α → Outline} (hitem : Covers item out) :
    Lays false (repeating (fun before => do
      let next ← item
      if ← eat (.symbol .comma) then return .again (before ++ [next])
      else return .done (before ++ [next])) []) (List.map out) := by
  intro s
  refine At.start fun hs => At.repeating
    (J := fun all b => Row false s.spot b (List.map out all)) hs
    fun before t h => ?_
  exact (hitem t).bind fun next u hnext => comma_at (h.append hnext.row.weaken)

/-- The name of a counter is no node. -/
theorem counter_lays : Lays false counter fun _ => [] := by
  intro s
  refine At.start fun h => At.peek ?_
  split
  · refine At.peekSecondKind ?_
    split
    · refine h.pass (s := (s.look 1).look 2) bump_lays fun _ t ht => ?_
      exact ht.pass bump_lays fun _ u hu => At.yield hu
    · exact At.yield h
  · exact At.yield h

/-- A parameter is a node with its type in it. -/
theorem parameter_covers : Covers parameter Parameter.outline := by
  intro s
  refine At.start fun h => At.here
    (h.pass (s := s.look 1) (eat_lays _) fun const s₁ h₁ => At.peekKind ?_)
  split
  · exact noExpression_at
  · refine h₁.lay (s := s₁.look 1) identifier_lays fun name s₂ h₂ =>
      h₂.pass (eat_lays _) fun nonNull s₃ h₃ => ?_
    exact h₃.node fun _ => rfl

/-- Parameters are a row of nodes. -/
theorem parameters_lays : Lays false parameters (List.map Parameter.outline) := by
  intro s
  refine At.start fun h => h.pass (eat_lays _) fun closed s₁ h₁ => ?_
  split
  · exact At.yield h₁
  · have hall : At s₁ (repeating (fun before => do
        let next ← parameter
        if before.any fun p => p.name = next.name then
          raise (.duplicateParameter next.name) next.span.start
        if ← eat (.symbol .comma) then return .again (before ++ [next])
        else return .done (before ++ [next])) []) fun all b =>
            Row false s.spot b (all.map Parameter.outline) := by
      refine At.repeating h₁ fun before t h =>
        (parameter_covers t).bind fun next u hnext => ?_
      have hrow := h.append hnext.row.weaken
      dsimp only
      split
      · exact At.raise fun v hv => comma_at (hv ▸ hrow)
      · exact comma_at hrow
    exact hall.bind fun all s₂ h₂ =>
      h₂.pass (expect_lays _) fun _ s₃ h₃ => At.yield h₃

/-! ## Blocks and bodies -/

section Nested

variable (hr : r.Covering)
include hr

/-- Statements are a row of nodes. -/
theorem statements_lays : Lays false (statements r) Stmt.outlines := by
  intro s
  refine At.imp (Q := fun all b => Row false s.spot b (all.map Stmt.outline)) ?_
    fun all b h => ?_
  · refine At.start fun h => At.repeating h fun before t h => At.peekKind ?_
    split
    · exact At.yield h
    · exact At.yield h
    · refine At.taken ((hr.statement (t.look 1)).attempt.bind fun o u hu => ?_)
      obtain ⟨hmoved, hvalue⟩ := hu
      cases o with
      | some st =>
          have hall : Row false s.spot u.spot
              ((before ++ [st]).map Stmt.outline) := by
            rw [List.map_append]
            exact h.append (hvalue st rfl).row.weaken
          dsimp only
          split
          · exact At.yield hall
          · exact At.yield hall
      | none =>
          refine At.taken ?_
          have hrow := h.skip hmoved
          split
          · exact hrow.pass bump_lays fun _ v hv => At.yield hv
          · exact At.yield hrow
  · rw [Stmt.outlines_eq_map]
    exact h

/-- A block covers its statements and both braces. -/
theorem block_at (hkind : s.token.kind ≠ .endOfText) :
    At s (block r) fun e b => Whole s.spot b e.outline := by
  refine At.bump hkind fun s₁ h₁ _ => h₁.lay (statements_lays hr) fun inner s₂ h₂ =>
    ?_
  exact h₂.pass (expect_lays _) fun _ s₃ h₃ => h₃.node fun _ => rfl

/-- A body is a block or an expression, as it stands. -/
theorem body_covers : Covers (body r) Expr.outline := by
  intro s
  refine At.peekKind ?_
  split
  · rename_i hkind
    exact block_at (s := s.look 1) hr (fun hend => nomatch hkind.symm.trans hend)
  · split
    · exact hr.expression (s.look 1)
    · exact noExpression_at

/-- An expression in parentheses, which do not belong to it. -/
theorem parenthesised_lays : Lays true (parenthesised r) fun e => [e.outline] := by
  intro s
  refine At.start fun h => h.pass (expect_lays _) fun _ s₁ h₁ =>
    h₁.lay hr.expression.lays fun e s₂ h₂ => ?_
  exact h₂.pass (expect_lays _) fun _ s₃ h₃ => At.yield h₃

/-! ## Conditionals, loops and functions -/

/-- An alternative of a conditional lays its condition and its body, and is no node
itself. -/
theorem alternative_lays :
    Lays true (alternative r) fun a => [a.condition.outline, a.body.outline] := by
  intro s
  refine At.start fun h => h.lay (parenthesised_lays hr) fun condition s₁ h₁ => ?_
  exact h₁.lay (body_covers hr).lays fun body s₂ h₂ => At.yield h₂

/-- A conditional covers its alternatives. -/
theorem conditional_at (hkind : s.token.kind ≠ .endOfText) :
    At s (conditional r) fun e b => Whole s.spot b e.outline := by
  refine At.bump hkind fun s₁ h₁ _ =>
    h₁.lay (alternative_lays hr) fun first s₂ h₂ => ?_
  let J : List Alternative → Spot → Prop := fun all b =>
    Row true s.spot b (all.flatMap fun a => [a.condition.outline, a.body.outline])
  refine At.bind (V := J) (At.repeating (J := J) h₂ fun before t h => ?_)
    fun branches s₃ h₃ => ?_
  · refine h.pass (eat_lays _) fun found u hu => ?_
    split
    · refine hu.lay (alternative_lays hr) fun next v hv => At.yield ?_
      show Row true s.spot v.spot ((before ++ [next]).flatMap _)
      rw [List.flatMap_append]
      exact hv
    · exact At.yield hu
  · replace h₃ : Row true s.spot s₃.spot (Alternative.parts branches) := by
      rw [Alternative.parts_eq_flatMap]
      exact h₃
    refine h₃.pass (eat_lays _) fun found s₄ h₄ => ?_
    split
    · refine At.bind
        (At.map (Q := fun o b => Row true s.spot b
        (Alternative.parts branches ++ Expr.outline? o)) ?_) ?_
      · exact (body_covers hr s₄).imp fun e b hbody => h₄.append hbody.row
      · exact fun otherwise s₅ h₅ => h₅.node fun _ => rfl
    · have h₅ : Row true s.spot s₄.spot
          (Alternative.parts branches ++ Expr.outline? none) :=
        h₄.append (Row.refl h₄.ordered)
      exact h₅.node fun _ => rfl

/-- A loop with a condition covers the condition and the body. -/
theorem whileLoop_at (hkind : s.token.kind ≠ .endOfText) :
    At s (whileLoop r) fun e b => Whole s.spot b e.outline := by
  refine At.bump hkind fun s₁ h₁ _ =>
    h₁.lay (parenthesised_lays hr) fun condition s₂ h₂ => ?_
  exact h₂.lay (body_covers hr).lays fun body s₃ h₃ => h₃.node fun _ => rfl

/-- A loop behind its bounds. -/
theorem forBody_at {a : Spot} (counter : Option String) (first : Option Expr)
    (stop : Expr) (step : Option Expr)
    (h : Row true a s.spot (Expr.outline? first ++ [stop.outline] ++
      Expr.outline? step)) :
    At s (do
      expect (.symbol .rightParen)
      let body ← body r
      return ⟨.forLoop counter first stop step body, ← spanFrom a.front⟩ :
        Parse Expr)
      fun e b => Whole a b e.outline := by
  refine h.pass (expect_lays _) fun _ s₁ h₁ =>
    h₁.lay (body_covers hr).lays fun body s₂ h₂ => ?_
  exact h₂.node fun _ => rfl

/-- A loop over a range covers the bounds and the body. -/
theorem forLoop_at (hkind : s.token.kind ≠ .endOfText) :
    At s (forLoop r) fun e b => Whole s.spot b e.outline := by
  refine At.bump hkind fun s₁ h₁ _ => h₁.pass (expect_lays _) fun _ s₂ h₂ => ?_
  refine h₂.pass counter_lays fun counter s₃ h₃ => ?_
  refine h₃.lay hr.expression.lays fun first s₄ h₄ =>
    h₄.pass (eat_lays _) fun hasStop s₅ h₅ => ?_
  split
  · refine h₅.lay hr.expression.lays fun stop s₆ h₆ =>
      h₆.pass (eat_lays _) fun hasStep s₇ h₇ => ?_
    split
    · refine At.bind (At.map (Q := fun o b => Row true s.spot b
        ([first.outline, stop.outline] ++ Expr.outline? o)) ?_) ?_
      · exact (hr.expression s₇).imp fun e b hstep => h₇.append hstep.row
      · exact fun step s₈ h₈ => forBody_at hr counter (some first) stop step h₈
    · exact forBody_at hr counter (some first) stop none h₇
  · exact forBody_at hr counter none first none h₅

/-- A function covers its parameters and its body. -/
theorem functionDef_at (hkind : s.token.kind ≠ .endOfText) :
    At s (functionDef r) fun e b => Whole s.spot b e.outline := by
  refine At.bump hkind fun s₁ h₁ _ => h₁.pass (expect_lays _) fun _ s₂ h₂ => ?_
  refine h₂.lay parameters_lays fun parameters s₃ h₃ =>
    h₃.lay (body_covers hr).lays fun body s₄ h₄ => ?_
  exact h₄.node fun _ => rfl

/-! ## Matching -/

/-- A branch behind its pattern. -/
theorem branchBehind_at {a : Spot} {begun : Bool} (pattern : Option Expr)
    (h : Row begun a s.spot (Expr.outline? pattern)) :
    At s (branchBehind r a.front pattern) fun br b => Whole a b br.outline := by
  refine h.pass (expect_lays _) fun _ s₁ h₁ =>
    h₁.lay (body_covers hr).lays fun consequent s₂ h₂ => ?_
  rw [Bool.or_true] at h₂
  exact h₂.pass (expect_lays _) fun _ s₃ h₃ => h₃.node fun _ => rfl

/-- A branch covers its pattern and its consequent. -/
theorem branch_covers (hasDefault : Bool) :
    Covers (branch r hasDefault) Branch.outline := by
  intro s
  refine At.start fun h => At.here
    (h.pass (s := s.look 1) (eat_lays _) fun isDefault s₁ h₁ => ?_)
  split
  · cases hasDefault with
    | true => exact At.raise fun t ht => branchBehind_at hr none (ht ▸ h₁)
    | false => exact branchBehind_at hr none h₁
  · refine At.bind (At.map (Q := fun o b => Row true s.spot b (Expr.outline? o)) ?_)
      ?_
    · exact (hr.pattern s₁).imp fun e b hpattern => h₁.append hpattern.row
    · exact fun pattern s₂ h₂ => branchBehind_at hr pattern h₂

/-- A match covers its argument and its branches. -/
theorem matching_at (hkind : s.token.kind ≠ .endOfText) :
    At s (matching r) fun e b => Whole s.spot b e.outline := by
  refine At.bump hkind fun s₁ h₁ _ =>
    h₁.lay (parenthesised_lays hr) fun argument s₂ h₂ => ?_
  refine h₂.pass (expect_lays _) fun _ s₃ h₃ => ?_
  let J : List Branch → Spot → Prop :=
    fun all b => Row true s.spot b (argument.outline :: all.map Branch.outline)
  refine At.bind (V := J) (At.repeating (J := J) h₃ fun before t h =>
    At.peekKind ?_) fun branches s₄ h₄ => ?_
  · split
    · exact At.yield h
    · exact At.yield h
    · refine (branch_covers hr _ (t.look 1)).bind fun next u hnext => At.yield ?_
      show Row true s.spot u.spot
        (argument.outline :: (before ++ [next]).map Branch.outline)
      rw [List.map_append]
      exact h.append hnext.row
  · replace h₄ : Row true s.spot s₄.spot
        (argument.outline :: Branch.outlines branches) := by
      rw [Branch.outlines_eq_map]
      exact h₄
    exact h₄.pass (expect_lays _) fun _ s₅ h₅ => h₅.node fun _ => rfl

end Nested

/-! ## Operands -/

/-- A node that is a single token. -/
theorem token_at {node : Node} (hnode : node.parts = [])
    (hkind : s.token.kind ≠ .endOfText) :
    At s (do
      let _ ← bump
      return ⟨node, s.token.span⟩ : Parse Expr) fun e b =>
        Whole s.spot b e.outline := by
  refine At.bump hkind fun t h hstop => At.yield ?_
  show Whole s.spot t.spot (.node s.token.span node.parts)
  rw [hnode]
  refine h.whole ?_
  rw [hstop]
  rfl

/-- The operand of a type test is a node without parts. -/
theorem typeOperand_covers : Covers typeOperand Expr.outline := by
  intro s
  refine At.peek ?_
  split
  · rename_i target htarget
    refine token_at (s := s.look 1) rfl fun hkind => ?_
    rw [ParseState.token_look] at hkind
    rw [hkind] at htarget
    cases htarget
  · exact At.raise fun _ _ => At.fail

/-- A grouping covers its inside and both parentheses. -/
theorem grouping_at {inner : Parse Expr} (hinner : Covers inner Expr.outline)
    (hkind : s.token.kind ≠ .endOfText) :
    At s (grouping inner) fun e b => Whole s.spot b e.outline := by
  refine At.bump hkind fun s₁ h₁ _ => h₁.lay hinner.lays fun e s₂ h₂ => ?_
  exact h₂.pass (expect_lays _) fun _ s₃ h₃ => h₃.node fun _ => rfl

/-- What a table of operators has an entry for is not the end of the text. -/
theorem ne_end_of_some {f : TokenKind → Option Operator}
    (hend : f .endOfText = none) {kind : TokenKind} {operator : Operator}
    (h : f kind = some operator) : kind ≠ .endOfText := by
  rintro rfl
  rw [hend] at h
  cases h

/-- An operator before its operand. -/
theorem sign_at {operand : Parse Expr} (hoperand : Covers operand Expr.outline)
    (operator : Operator) (hkind : s.token.kind ≠ .endOfText) :
    At s (do
      let _ ← bump
      return Expr.unary operator s.token.span (← operand)) fun e b =>
        Whole s.spot b e.outline := by
  refine At.bump hkind fun s₁ h₁ hstop =>
    (hoperand s₁).bind fun e s₂ h₂ => At.yield ?_
  refine Whole.unary h₁ ?_ (Row.refl h₁.ordered) operator h₂
  rw [hstop]
  rfl

/-- Operands that are joined from the left. -/
theorem leftAssoc_covers {operator? : TokenKind → Option Operator}
    (hend : operator? .endOfText = none) {operand : Parse Expr}
    (hoperand : Covers operand Expr.outline) :
    Covers (leftAssoc operator? operand) Expr.outline := by
  intro s
  refine (hoperand s).bind fun first s₁ h₁ => ?_
  refine At.repeating (J := fun (e : Expr) b => Whole s.spot b e.outline) h₁
    fun left t hleft => At.peekKind ?_
  split
  · rename_i operator hoperator
    refine At.bump (s := t.look 1) (ne_end_of_some hend hoperator) fun t₁ h₁ _ => ?_
    exact (hoperand t₁).bind fun right t₂ hright =>
      At.yield (hleft.binary h₁ operator hright)
  · exact At.yield hleft

section Nested

variable (hr : r.Covering)
include hr

/-- A cast covers the type and what is cast. -/
theorem typeOrCast_at (target : TypeName) (hkind : s.token.kind ≠ .endOfText) :
    At s (typeOrCast r target) fun e b => Whole s.spot b e.outline := by
  refine At.bump hkind fun s₁ h₁ hstop => (eat_at _).bind ?_
  rintro found s₂ ⟨h₂, hsame⟩
  split
  · refine (h₁.skip h₂).lay hr.expression.lays fun operand s₃ h₃ => ?_
    exact h₃.pass (expect_lays _) fun _ s₄ h₄ => h₄.node fun _ => rfl
  · rename_i hmissing
    refine At.yield ((h₁.skip h₂).whole ?_)
    rw [hsame (Bool.eq_false_iff.mpr hmissing), hstop]
    rfl

/-- The arguments of a call are a row of nodes. -/
theorem arguments_lays : Lays false (arguments r) Expr.outlines := by
  intro s
  refine At.imp (Q := fun all b => Row false s.spot b (List.map Expr.outline all))
    ?_ fun all b h => ?_
  · refine At.start fun h => h.pass (eat_lays _) fun closed s₁ h₁ => ?_
    split
    · exact At.yield h₁
    · refine h₁.lay (commas_lays hr.expression) fun all s₂ h₂ => ?_
      exact h₂.pass (expect_lays _) fun _ s₃ h₃ => At.yield h₃
  · rw [Expr.outlines_eq_map]
    exact h

/-- What stands on the highest rung covers its tokens. -/
theorem primary_covers : Covers (primary r) Expr.outline := by
  intro s
  -- Whatever begins an operand is a lexeme other than the end of the text.
  have hkind : ∀ x : Lexeme, s.token.lexeme = x → x.kind ≠ .endOfText →
      (s.look 1).token.kind ≠ .endOfText := by
    rintro _ rfl hne
    exact hne
  refine At.peek ?_
  split
  · rename_i value hvalue
    refine token_at (s := s.look 1) rfl (hkind _ (literal?_eq_some hvalue).1 ?_)
    rcases value with _ | (_ | _) | _ | _ | _ <;> exact nofun
  · split
    · rename_i name hname
      exact token_at (s := s.look 1) rfl (hkind _ hname nofun)
    · rename_i hx
      exact grouping_at (s := s.look 1) hr.expression (hkind _ hx nofun)
    · rename_i hx
      exact block_at (s := s.look 1) hr (hkind _ hx nofun)
    · rename_i hx
      exact conditional_at (s := s.look 1) hr (hkind _ hx nofun)
    · rename_i hx
      exact forLoop_at (s := s.look 1) hr (hkind _ hx nofun)
    · rename_i hx
      exact whileLoop_at (s := s.look 1) hr (hkind _ hx nofun)
    · rename_i hx
      exact functionDef_at (s := s.look 1) hr (hkind _ hx nofun)
    · rename_i hx
      exact matching_at (s := s.look 1) hr (hkind _ hx nofun)
    · split
      · rename_i target htarget
        refine typeOrCast_at (s := s.look 1) hr target fun hend => ?_
        rw [ParseState.token_look] at hend
        rw [hend] at htarget
        cases htarget
      · exact noExpression_at

/-- Calls and members. -/
theorem chain_covers : Covers (chain r) Expr.outline := by
  intro s
  refine (primary_covers hr s).bind fun first s₁ h₁ => ?_
  refine At.repeating (J := fun (e : Expr) b => Whole s.spot b e.outline) h₁
    fun e t he => At.peekKind ?_
  split
  · rename_i hkind
    refine At.bump (s := t.look 1) (fun hend => nomatch hkind.symm.trans hend)
      fun t₁ h₁ _ => ?_
    refine At.here ((identifier_lays (t₁.look 1)).bind fun name t₂ h₂ => At.still
      (bind_of_some rfl) rfl ?_)
    exact At.yield (he.binary h₁ .access h₂.whole_later)
  · rename_i hkind
    refine At.bump (s := t.look 1) (fun hend => nomatch hkind.symm.trans hend)
      fun t₁ h₁ _ => ?_
    refine h₁.lay (arguments_lays hr) fun arguments t₂ h₂ =>
      At.still (bind_of_some rfl) rfl ?_
    exact At.yield (he.call h₂)
  · exact At.yield he

/-- A power covers its base and its exponent. -/
theorem power_covers : Covers (power r) Expr.outline := by
  intro s
  refine (chain_covers hr s).bind fun base s₁ h₁ => ?_
  refine (eat_at _).bind ?_
  rintro found s₂ ⟨h₂, hsame⟩
  split
  · exact (hr.signed s₂).bind fun exponent s₃ h₃ =>
      At.yield (h₁.binary h₂ .exponent h₃)
  · rename_i hmissing
    refine At.yield ?_
    rw [hsame (Bool.eq_false_iff.mpr hmissing)]
    exact h₁

/-- A sign is a token other than the end of the text. -/
theorem signed_covers : Covers (signed r) Expr.outline := by
  intro s
  refine At.peek ?_
  split
  · rename_i operator hoperator
    exact sign_at (s := s.look 1) hr.signed operator (ne_end_of_some rfl hoperator)
  · exact power_covers hr (s.look 1)

/-! ## The ladder -/

/-- The operand of a comparison covers its tokens. -/
theorem comparand_covers : Covers (comparand r) Expr.outline :=
  leftAssoc_covers rfl (leftAssoc_covers rfl
    (leftAssoc_covers rfl (signed_covers hr)))

/-- A type test covers what is tested and the type. -/
theorem typeTest_covers : Covers (typeTest r) Expr.outline := by
  intro s
  refine (leftAssoc_covers rfl (comparand_covers hr) s).bind fun first s₁ h₁ => ?_
  refine At.repeating (J := fun (e : Expr) b => Whole s.spot b e.outline) h₁
    fun left t hleft => (eat_at _).bind ?_
  rintro found t₁ ⟨h₁, hsame⟩
  split
  · refine h₁.pass (eat_lays _) fun negated t₂ h₂ => ?_
    exact (typeOperand_covers t₂).bind fun target t₃ h₃ =>
      At.yield (hleft.binary h₂ _ h₃)
  · rename_i hmissing
    refine At.yield ?_
    rw [hsame (Bool.eq_false_iff.mpr hmissing)]
    exact hleft

/-- An expression covers its tokens. -/
theorem expression_covers : Covers (expression r) Expr.outline := by
  intro s
  have hoperand :
    Covers (leftAssoc coalescing? (leftAssoc piping? (leftAssoc disjunction?
      (leftAssoc conjunction? (typeTest r))))) Expr.outline :=
    leftAssoc_covers rfl (leftAssoc_covers rfl
      (leftAssoc_covers rfl (leftAssoc_covers rfl (typeTest_covers hr))))
  refine (hoperand s).bind fun left s₁ h₁ => At.peek ?_
  split
  · exact At.yield h₁
  · rename_i operator hoperator
    refine At.bump (s := s₁.look 1) (ne_end_of_some rfl hoperator) fun s₂ h₂ _ => ?_
    have hright : ∀ t : ParseState, t.spot = s₂.spot →
      At t (do return Expr.binary left operator (← r.expression))
        fun e b => Whole s.spot b e.outline := by
      intro t ht
      exact (hr.expression t).bind fun right u hright =>
        At.yield (h₁.binary h₂ operator (ht ▸ hright))
    split
    · exact hright s₂ rfl
    · exact At.raise hright

/-! ## Patterns -/

/-- A pattern without connectives covers its tokens. -/
theorem patternAtom_covers : Covers (patternAtom r) Expr.outline := by
  intro s
  refine At.peek ?_
  split
  · rename_i operator hoperator
    refine sign_at (s := s.look 1) hr.comparand operator fun hend => ?_
    rw [show s.token.kind = .endOfText from hend] at hoperator
    cases hoperator
  · split
    · rename_i hkind
      refine At.bump (s := s.look 1) (fun hend => nomatch hkind.symm.trans hend)
        fun s₁ h₁ hstop => ?_
      refine (eat_lays _ s₁).bind fun negated s₂ h₂ =>
        (typeOperand_covers s₂).bind fun target s₃ h₃ => At.yield ?_
      refine Whole.unary h₁ ?_ h₂ _ h₃
      rw [hstop]
      rfl
    · split
      · rename_i hkind
        refine At.peekSecondKind ?_
        split
        · exact grouping_at (s := (s.look 1).look 2) hr.pattern fun hend =>
            nomatch hkind.symm.trans hend
        · exact expression_covers hr ((s.look 1).look 2)
      · exact expression_covers hr (s.look 1)

/-- A pattern covers its tokens. -/
theorem pattern_covers : Covers (pattern r) Expr.outline :=
  leftAssoc_covers rfl (leftAssoc_covers rfl (patternAtom_covers hr))

end Nested

/-! ## Statements -/

/-- A pull has no nodes in it. -/
theorem pull_at (hkind : s.token.kind ≠ .endOfText) :
    At s pull fun act b => Row true s.spot b act.parts := by
  refine At.bump hkind fun s₁ h₁ _ => h₁.pass identifier_lays fun first s₂ h₂ => ?_
  refine At.bind (V := fun _ b => Row true s.spot b [])
    (At.repeating h₂ fun before t h => ?_) ?_
  · refine h.pass (eat_lays _) fun found u hu => ?_
    split
    · exact hu.pass identifier_lays fun next v hv => At.yield hv
    · exact At.yield hu
  · exact fun path s₃ h₃ => At.yield h₃

section Nested

variable (hr : r.Covering)
include hr

omit hr in
/-- What is reported about a binding leaves nothing behind. -/
theorem bindingEnd_at {a : Spot} (name : String) (const : Bool)
    (value : Option Expr) (h : Row true a s.spot (Expr.outline? value)) :
    At s (do
      match value with
      | none => if const then raise (.constWithoutValue name) a.front
      | some ⟨.literal .null, _⟩ => if !const then warn (.nullValue name) a.front
      | some _ => pure ()
      return ⟨name, const, value, ← spanFrom a.front⟩ : Parse Binding) fun x b =>
        Whole a b x.outline := by
  have hend : ∀ t : ParseState, t.spot = s.spot →
    At t (do return ⟨name, const, value, ← spanFrom a.front⟩)
      fun x b => Whole a b (Binding.outline x) :=
    fun t ht => Row.node (ht ▸ h) fun _ => rfl
  dsimp only
  split
  · split
    · exact At.raise hend
    · exact hend s rfl
  · split
    · exact At.warn hend
    · exact hend s rfl
  · exact hend s rfl

/-- A binding covers its value. -/
theorem binding_covers : Covers (binding r) Binding.outline := by
  intro s
  refine At.start fun h => At.here
    (h.pass (s := s.look 1) (eat_lays _) fun const s₁ h₁ => ?_)
  refine h₁.lay identifier_lays fun name s₂ h₂ =>
    h₂.pass (eat_lays _) fun hasValue s₃ h₃ => ?_
  cases hasValue with
  | false => exact bindingEnd_at name const none h₃
  | true =>
      refine At.bind
        (At.map (Q := fun o b => Row true s.spot b (Expr.outline? o)) ?_) ?_
      · exact (expression_covers hr s₃).imp fun e b hvalue => h₃.append hvalue.row
      · exact fun value s₄ h₄ => bindingEnd_at name const value h₄

/-- A declaration lays its bindings. -/
theorem declare_at (hkind : s.token.kind ≠ .endOfText) :
    At s (Grammar.declare r) fun act b => Row true s.spot b act.parts := by
  refine At.bump hkind fun s₁ h₁ _ => h₁.lay (commas_lays (binding_covers hr))
    fun bindings s₂ h₂ => At.yield ?_
  show Row true s.spot s₂.spot (Binding.outlines bindings)
  rw [Binding.outlines_eq_map]
  exact h₂

/-- An action lays its parts. -/
theorem action_lays : Lays true (action r) Action.parts := by
  intro s
  refine At.peekKind ?_
  split
  · rename_i hkind
    exact pull_at (s := s.look 1) fun hend => nomatch hkind.symm.trans hend
  · rename_i hkind
    exact declare_at (s := s.look 1) hr fun hend => nomatch hkind.symm.trans hend
  · rename_i hkind
    exact At.bump (s := s.look 1) (fun hend => nomatch hkind.symm.trans hend)
      fun s₁ h₁ _ => At.yield h₁
  · rename_i hkind
    refine At.bump (s := s.look 1) (fun hend => nomatch hkind.symm.trans hend)
      fun s₁ h₁ _ => ?_
    exact h₁.lay (parenthesised_lays hr) fun condition s₂ h₂ => At.yield h₂
  · rename_i hkind
    refine At.bump (s := s.look 1) (fun hend => nomatch hkind.symm.trans hend)
      fun s₁ h₁ _ => At.peekKind ?_
    split
    · exact h₁.lay (s := s₁.look 1) hr.expression.lays fun value s₂ h₂ =>
        At.yield h₂
    · exact At.yield h₁
  · exact (expression_covers hr (s.look 1)).bind fun e s₁ h₁ => At.yield h₁.row

/-- A statement covers its tokens, up to the semicolon. -/
theorem statement_covers : Covers (statement r) Stmt.outline := by
  intro s
  refine At.here ((action_lays hr (s.look 1)).bind fun action s₁ h₁ => h₁.pass
    (eat_lays _) fun terminated s₂ h₂ => ?_)
  have hend : ∀ t : ParseState, t.spot = s₂.spot →
    At t (do return ⟨action, terminated, ← spanFrom s.spot.front⟩)
      fun st b => Whole s.spot b (Stmt.outline st) :=
    fun t ht => Row.node (ht ▸ h₂) fun _ => rfl
  cases action with
  | evaluate e =>
      dsimp only
      split
      · exact At.warn hend
      · exact hend s₂ rfl
  | _ => exact hend s₂ rfl

end Nested

end Grammar

/-! ## All rules -/

namespace Rules

open Grammar

/-- One level more of the rules covers as well. -/
theorem deepen_covering {r : Rules ParseState} (hr : r.Covering) :
    r.deepen.Covering where
  expression := expression_covers hr
  signed := signed_covers hr
  comparand := comparand_covers hr
  pattern := pattern_covers hr
  statement := statement_covers hr

/-- Rules with any number of levels cover their tokens. -/
theorem upTo_covering (n : Nat) : (upTo n).Covering := by
  induction n with
  | zero =>
      exact ⟨fun _ => Parse.At.fail, fun _ => Parse.At.fail, fun _ => Parse.At.fail,
        fun _ => Parse.At.fail,
      fun _ => Parse.At.fail⟩
  | succ n ih =>
      rw [upTo_succ]
      exact deepen_covering ih

end Rules

theorem Parse.statement_covers : Covers Parse.statement Stmt.outline := by
  intro s
  have hstatement := (Rules.upTo_covering (s.rest.length + 1)).statement s
  unfold At at hstatement ⊢
  rw [statement_eq]
  exact hstatement

namespace ParseState

/-! ## Steps through a script -/

/-- A step leaves the tokens behind it in order. -/
theorem advance_ordered {s : ParseState} (hs : s.spot.Ordered) :
    s.advance.2.spot.Ordered := by
  obtain ⟨hrow, _⟩ := Parse.statement_covers (s.look 1) hs
  cases hend : s.atEnd with
  | true =>
      rw [advance_of_atEnd hend]
      exact hs
  | false =>
      rw [advance_of_not_atEnd hend]
      dsimp only
      unfold behind TokenSource.behind
      split
      · exact hrow.ordered.take
      · exact hrow.ordered

/-- After any number of outcomes, the tokens left stand in order. -/
theorem after_ordered {s : ParseState} (hs : s.spot.Ordered) (n : Nat) :
    (s.after n).spot.Ordered := by
  induction n with
  | zero => exact hs
  | succ n ih =>
      rw [after_succ]
      exact advance_ordered ih

/-- The tokens of a text stand in order. -/
theorem spot_ofText_ordered (limit : Nat) (source : String) :
    (ofText limit source).spot.Ordered where
  landmarks := Entry.landmarks_pairwise limit source
  wide e he hkind := by
    obtain ⟨l, hl, htoken⟩ := Entry.mem_gather he
    rw [← htoken] at hkind ⊢
    exact ((Lexed.ofText_ordered limit source).1 l hl).width_pos (.inl hkind)

/-- A step that yields a statement takes tokens, and the statement covers them. -/
theorem advance_span {s : ParseState} (hs : s.spot.Ordered) {st : Stmt}
    (hst : s.advance.1.statement = some st) :
    (∃ first last, s.consumed.head? = some first ∧ s.consumed.getLast? = some last ∧
      st.span = ⟨first.span.start, last.span.stop⟩) ∧ st.outline.Nests := by
  obtain ⟨hkind, hrun, _⟩ := advance_statement hst
  obtain ⟨_, hvalue⟩ := Parse.statement_covers (s.look 1) hs
  rw [hrun] at hvalue
  have hwhole : Whole s.spot s.advance.2.spot st.outline := hvalue st rfl
  have hspan : st.span = ⟨s.token.span.start, s.advance.2.previousEnd⟩ :=
    st.span_outline ▸ hwhole.span_eq
  refine ⟨?_, hwhole.nests⟩
  obtain ⟨es, hwalk⟩ := s.advance_walk
  have hconsumed : s.consumed = es.map Entry.token := by
    rw [consumed, hwalk.take_eq]
  cases es with
  | nil => exact absurd hconsumed (consumed_ne_nil (by simp [atEnd, hkind]))
  | cons first es =>
      have hfirst : s.token = first.token := by simp [token, hwalk.rest_eq]
      have hlast := List.getLast?_eq_some_getLast (List.cons_ne_nil first es)
      refine ⟨first.token,
        ((first :: es).getLast (List.cons_ne_nil first es)).token, ?_, ?_, ?_⟩
      · rw [hconsumed]
        rfl
      · rw [hconsumed, List.getLast?_map, hlast]
        rfl
      · rw [hspan, hwalk.previousEnd_eq, endOf, hlast, hfirst]
        rfl

/-- Every statement that is parsed, whether or not something is wrong with it,
covers the text from the first to the last of the tokens that were taken for it.
Everywhere in it spans are not empty and nest: a node has its parts in its span, one
behind the other. -/
theorem outcome_spans_nest (limit : Nat) (source : String) {n : Nat}
    {o : ParseOutcome} {st : Stmt}
    (ho : (ofText limit source).outcomes.1[n]? = some o)
    (hst : o.statement = some st) :
    let consumed := ((ofText limit source).after n).consumed
    (∃ first last, consumed.head? = some first ∧ consumed.getLast? = some last ∧
      st.span = ⟨first.span.start, last.span.stop⟩) ∧ st.outline.Nests := by
  obtain ⟨_, hadvance⟩ := advance_after ho
  subst hadvance
  exact advance_span (after_ordered (spot_ofText_ordered limit source) n) hst

/-- A declaration of two names in which a parenthesis, a semicolon and three braces
are missing. -/
def raggedText : String :=
  "init a, b = functi(p!, const q { match p) 1 : -q.r(2, 3; default : p }"

/-- This text is one statement, with which something is wrong; it covers all tokens,
and nests. -/
theorem raggedText_nests :
    let start := ofText 4096 raggedText
    ∃ st, start.outcomes.1.map (·.success) = [false] ∧
      (start.outcomes.1[0]?.bind (·.statement)) = some st ∧
      st.span = ⟨⟨0, 1, 1⟩, ⟨70, 1, 71⟩⟩ ∧ st.outline.Nests := by
  intro start
  have hspan : (start.outcomes.1[0]?.bind (·.statement)).map (·.span) =
      some ⟨⟨0, 1, 1⟩, ⟨70, 1, 71⟩⟩ := by
    decide +kernel
  obtain ⟨st, hst, hspan⟩ := Option.map_eq_some_iff.mp hspan
  obtain ⟨o, ho, hstatement⟩ := Option.bind_eq_some_iff.mp hst
  obtain ⟨_, hnests⟩ := outcome_spans_nest 4096 raggedText ho hstatement
  exact ⟨st, by decide +kernel, hst, hspan, hnests⟩

end ParseState

end ScriptLang
