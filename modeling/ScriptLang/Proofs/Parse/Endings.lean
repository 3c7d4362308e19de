import ScriptLang.Proofs.Parse.Following
import ScriptLang.Proofs.Parse.Soundness
import ScriptLang.Proofs.Tree.Bare

/-!
# Rules that meet a colon

Every rule of the grammar that comes to the end of a text without an error does the
same, up to places, if the text goes on with a colon.  There is one lemma for each
rule, which assumes the same of the rules that are nested in it.
`Rules.upTo_follow` puts them together, where the longer text may also be parsed
with more layers of nesting.
-/

namespace ScriptLang

/-- Whether a branch is the default one is independent of where it stands. -/
theorem Branch.isNone_bare : ∀ b : Branch, b.bare.pattern.isNone = b.pattern.isNone
  | ⟨none, _, _⟩ => rfl
  | ⟨some _, _, _⟩ => rfl

/-- Rules for what is nested that follow others. -/
structure Rules.Follow (more : List Lexeme) (n : Nat)
    (r r' : Rules ParseState) : Prop where
  expression : Parse.Follows more n r.expression r'.expression Expr.bare Parse.free
  signed : Parse.Follows more n r.signed r'.signed Expr.bare Parse.free
  comparand : Parse.Follows more n r.comparand r'.comparand Expr.bare Parse.free
  pattern : Parse.Follows more n r.pattern r'.pattern Expr.bare Parse.free
  statement : Parse.Follows more n r.statement r'.statement Stmt.bare fun st =>
    st.terminated = true

namespace Grammar

open Parse ParseState

variable {γ : Type} {more : List Lexeme} {n : Nat} {r r' : Rules ParseState}
  {s : ParseState}

/-- Only the end of the text is of its kind. -/
theorem lexeme_eq_endOfText {t : Token} (h : t.kind = .endOfText) :
    t.lexeme = .endOfText := by
  unfold Token.kind at h
  cases hlexeme : t.lexeme with
  | endOfText => rfl
  | _ => rw [hlexeme] at h; cases h

/-! ## Lists -/

/-- Items with a token before each but the first. -/
theorem more_follows {item item' : Parse α} {view : α → γ} {owes : α → Prop}
    {kind : TokenKind} (hend : kind ≠ .endOfText) (hcolon : kind ≠ .symbol .colon)
    (hitem : Follows more n item item' view owes) {first first' : α}
    (hfirst : view first' = view first) :
    Follows more n
      (repeating (fun before => do
        if ← eat kind then return .again (before ++ [← item])
        else return .done before) [first])
      (repeating (fun before => do
        if ← eat kind then return .again (before ++ [← item'])
        else return .done before) [first'])
      (List.map view) free := by
  refine Follows.repeating (fun before before' hbefore => ?_) (by simp [hfirst])
  refine Follows.eat (k := n) hend hcolon (Nat.le_succ n) ?_ ?_
  · refine hitem.bind fun next next' hnext => Follows.yield ?_ not_false
    simp [Turn.viewed, hbefore, hnext]
  · exact Follows.yield (by simp [Turn.viewed, hbefore]) not_false

/-- What follows one of some items with commas between them. -/
theorem comma_follows {view : α → γ} {before before' : List α} {next next' : α}
    (hbefore : before'.map view = before.map view)
    (hnext : view next' = view next) :
    Follows more n
      (do
        if ← eat (.symbol .comma) then return .again (before ++ [next])
        else return .done (before ++ [next]))
      (do
        if ← eat (.symbol .comma) then return .again (before' ++ [next'])
        else return .done (before' ++ [next']))
      (Turn.viewed (List.map view)) Turn.GoesOn := by
  refine Follows.eat (k := n) (by simp) (by simp) (Nat.le_succ n) ?_ ?_
  · exact Follows.yield (by simp [Turn.viewed, hbefore, hnext]) not_false
  · exact Follows.yield (by simp [Turn.viewed, hbefore, hnext]) not_false

/-- A list with commas does the same before a colon. -/
theorem commas_follows {item item' : Parse α} {view : α → γ} {owes : α → Prop}
    (hitem : Follows more n item item' view owes) :
    Follows more n
      (repeating (fun before => do
        let next ← item
        if ← eat (.symbol .comma) then return .again (before ++ [next])
        else return .done (before ++ [next])) [])
      (repeating (fun before => do
        let next ← item'
        if ← eat (.symbol .comma) then return .again (before ++ [next])
        else return .done (before ++ [next])) [])
      (List.map view) free :=
  Follows.repeating (fun _ _ hbefore => hitem.bind fun _ _ hnext =>
    comma_follows hbefore hnext) rfl

/-! ## Counters, parameters, groups and types -/

/-- The counter of a loop does the same before a colon. -/
theorem counter_follows : Follows more n counter counter id free := by
  intro s hs
  refine FollowsAt.peek (fun hkind t ht => ?_) (fun hkind t ht => ?_)
  · rw [ht]
    split
    · refine FollowsAt.peekSecondKind (s := s.look 1) hkind ?_
        (FollowsAt.yield rfl not_false)
      split
      · rename_i hcomma
        have hsecond : ((s.look 1).look 2).take.token.kind ≠ .endOfText := by
          have hkind' := token_take_kind (s := (s.look 1).look 2) hcomma (by simp)
          rw [hkind']
          simp
        refine FollowsAt.bump_at hkind fun _ _ =>
          FollowsAt.bump_at hsecond fun _ _ => ?_
        exact FollowsAt.yield rfl not_false
      · exact FollowsAt.yield rfl not_false
    · exact FollowsAt.yield rfl not_false
  · rw [ht]
    split
    · rename_i name hname
      rw [Token.kind, hname] at hkind
      cases hkind
    · exact FollowsAt.yield rfl not_false

/-- A parameter does the same before a colon. -/
theorem parameter_follows :
    Follows more n parameter parameter Parameter.bare free := by
  refine Follows.here fun start start' => (Follows.flag (by simp) (by simp)).bind_id
    fun const => ?_
  have hname : Follows more n
      (do
        let name ← identifier
        let nonNull ← eat (.symbol .bang)
        return ⟨name, const, nonNull, ← spanFrom start⟩)
      (do
        let name ← identifier
        let nonNull ← eat (.symbol .bang)
        return ⟨name, const, nonNull, ← spanFrom start'⟩) Parameter.bare free := by
    refine Follows.identifier.bind_id fun name =>
      (Follows.flag (by simp) (by simp)).bind_id fun nonNull => ?_
    exact Follows.spanFrom fun span span' => Follows.yield rfl not_false
  refine Follows.peekKind (fun kind _ => ?_) ?_
  · split
    · exact Follows.noExpression
    · exact hname
  · rw [if_neg (by simp), if_neg (by simp)]
    exact hname

/-- A name that is there twice is reported. -/
theorem parameters_follows :
    Follows more n parameters parameters (List.map Parameter.bare) free := by
  refine Follows.eat (k := n) (by simp) (by simp) (Nat.le_succ n)
    (Follows.yield rfl not_false) ?_
  refine Follows.bind (w := List.map Parameter.bare)
    (Follows.repeating (fun before before' hbefore => ?_) rfl) ?_
  · refine parameter_follows.bind fun next next' hnext => ?_
    have hcomma : Follows more n _ _ (Turn.viewed (List.map Parameter.bare))
        Turn.GoesOn :=
      comma_follows hbefore hnext
    have hname : next'.name = next.name := by
      simpa [Parameter.bare] using congrArg Parameter.name hnext
    have htwice : (before'.any fun p => p.name = next'.name) = before.any fun p =>
        p.name = next.name := by
      have hany :=
        congrArg (List.any · fun p => decide (p.name = next.name)) hbefore
      simp only [List.any_map] at hany
      rw [hname]
      exact hany
    rw [htwice]
    dsimp only
    split
    · exact Follows.raise _ _ hcomma
    · exact hcomma
  · intro all all' hall
    exact Follows.expect_bind (by simp) (Follows.yield hall not_false)

/-- The operand of a type test does the same before a colon. -/
theorem typeOperand_follows :
    Follows more n typeOperand typeOperand Expr.bare free := by
  intro s hs
  refine FollowsAt.peek (fun hkind t ht => ?_) (fun hkind t ht => ?_)
  · have hkind' : t.kind = s.token.kind := congrArg Lexeme.kind ht
    rw [hkind']
    split
    · refine FollowsAt.bump_at hkind fun _ _ => FollowsAt.yield ?_ not_false
      simp [Expr.bare, Node.bare]
    · exact FollowsAt.of_writesAt (raise_fail_writesAt _ _)
  · rw [hkind]
    exact FollowsAt.of_writesAt (raise_fail_writesAt _ _)

/-- A group from its opening parenthesis on. -/
theorem grouping_followsAt {inner inner' : Parse Expr}
    (hkind : s.token.kind ≠ .endOfText)
    (hinner : FollowsAt more s.take inner inner' Expr.bare free) :
    FollowsAt more s (grouping inner) (grouping inner') Expr.bare free := by
  refine FollowsAt.bump_at hkind fun t _ => hinner.bind fun e e' u _ he => ?_
  refine Follows.expect_bind (by simp)
    (Follows.spanFrom fun span span' => Follows.yield ?_ not_false) u
    (Nat.lt_succ_self _)
  simp [Expr.bare, Node.bare, he]

variable (hr : r.Follow more n r')
include hr

/-! ## Blocks and bodies -/

/-- A statement that fails has raised an error. -/
theorem statementOrSkip_followsAt {f f' : Stmt → Parse α} {q q' : Parse α}
    {view : α → γ} {owes : α → Prop} (hs : s.rest.length < n)
    (hf : ∀ st st', Stmt.bare st' = Stmt.bare st →
      Follows more n (f st) (f' st') view fun a => owes a ∧ ¬ st.terminated = true)
    (hq : ∀ t : ParseState, t.Onward (q t).2) :
    FollowsAt more s
      (do
        let takenBefore ← taken
        match ← attempt r.statement with
        | some statement => f statement
        | none =>
          if (← taken) = takenBefore then
            let _ ← bump
          q)
      (do
        let takenBefore ← taken
        match ← attempt r'.statement with
        | some statement => f' statement
        | none =>
          if (← taken) = takenBefore then
            let _ ← bump
          q') view owes := by
  refine FollowsAt.taken fun m => (hr.statement s hs).attempt_bind
    (fun st st' t hrun hst => ?_) fun t _ => ?_
  · have hlength := (hr.statement s hs).1.length_le
    rw [hrun] at hlength
    exact hf st st' hst t (Nat.lt_of_le_of_lt hlength hs)
  · show t.Onward ((if t.taken = s.taken then bump >>= fun _ => q else q) t).2
    split
    · exact (onward_take t).trans (hq t.take)
    · exact hq t

/-- A block does the same before a colon. -/
theorem block_followsAt (hs : s.rest.length < n + 1)
    (hkind : s.token.kind ≠ .endOfText) :
    FollowsAt more s (block r) (block r') Expr.bare free := by
  refine FollowsAt.bump hs hkind fun t _ => ?_
  refine Follows.closing (w := List.map Stmt.bare) (fun before s hend => ?_)
    (fun before before' hbefore s hs hkind => ?_) (by simp) rfl
      fun inner inner' hinner => ?_
  · refine ⟨before, ?_⟩
    rw [bind_of_some (p := peekKind) rfl, hend]
    rfl
  · refine FollowsAt.peekKind (fun hkind => ?_) fun hend => absurd hend hkind
    split
    · exact FollowsAt.yield (by simp [Turn.viewed, hbefore]) not_false
    · rename_i hend
      exact absurd hend hkind
    · refine statementOrSkip_followsAt (s := s.look 1) hr hs (fun st st' hst => ?_)
        fun t => Onward.refl t
      have hterminated : st'.terminated = st.terminated := by
        obtain ⟨_, _, _⟩ := st
        obtain ⟨_, _, _⟩ := st'
        simpa [Stmt.bare] using congrArg Stmt.terminated hst
      rw [hterminated]
      split
      · rename_i hyes
        exact Follows.yield (by simp [Turn.viewed, hbefore, hst]) fun h => h.2 hyes
      · exact Follows.yield (by simp [Turn.viewed, hbefore, hst]) fun h => h.1
  · refine Follows.spanFrom fun span span' => Follows.yield ?_ not_false
    simp [Expr.bare, Node.bare, Stmt.bareEach_eq_map, hinner]

/-- A body does the same before a colon. -/
theorem body_follows : Follows more n (body r) (body r') Expr.bare free := by
  intro s hs
  refine FollowsAt.peekKind (fun hkind => ?_) fun hkind => ?_
  · split
    · exact block_followsAt (s := s.look 1) hr (Nat.lt_succ_of_lt hs) hkind
    · split
      · exact hr.expression (s.look 1) hs
      · exact Follows.noExpression (s.look 1) hs
  · exact Follows.noExpression (s.look 1) hs

/-- An expression in parentheses does the same before a colon. -/
theorem parenthesised_follows :
    Follows more n (parenthesised r) (parenthesised r') Expr.bare free := by
  refine Follows.expect_bind (by simp)
    (hr.expression.bind fun inner inner' hinner => ?_)
  exact Follows.expect_bind (by simp) (Follows.yield hinner not_false)

/-! ## Conditionals, loops and functions -/

/-- An alternative of a conditional does the same before a colon. -/
theorem alternative_follows :
    Follows more n (alternative r) (alternative r') Alternative.bare free := by
  refine (parenthesised_follows hr).bind fun condition condition' hcondition => ?_
  refine (body_follows hr).bind fun body body' hbody => Follows.yield ?_ not_false
  simp [Alternative.bare, hcondition, hbody]

/-- A conditional does the same before a colon. -/
theorem conditional_followsAt (hs : s.rest.length < n + 1)
    (hkind : s.token.kind ≠ .endOfText) :
    FollowsAt more s (conditional r) (conditional r') Expr.bare free := by
  refine FollowsAt.bump hs hkind fun t _ =>
    (alternative_follows hr).bind fun first first' hfirst => ?_
  refine (more_follows (by simp) (by simp) (alternative_follows hr) hfirst).bind
    fun branches branches' hbranches => ?_
  refine Follows.eat (k := n) (by simp) (by simp) (Nat.le_succ n) ?_ ?_
  · refine Follows.bind (w := Expr.bare?) ((body_follows hr).map fun e e' he => ?_)
      fun otherwise otherwise' hotherwise => ?_
    · simp [Expr.bare?, he]
    · refine Follows.spanFrom fun span span' => Follows.yield ?_ not_false
      simp [Expr.bare, Node.bare, Alternative.bareEach_eq_map,
        hbranches, hotherwise]
  · refine Follows.spanFrom fun span span' => Follows.yield ?_ not_false
    simp [Expr.bare, Node.bare, Alternative.bareEach_eq_map, hbranches]

/-- A loop with a condition does the same before a colon. -/
theorem whileLoop_followsAt (hs : s.rest.length < n + 1)
    (hkind : s.token.kind ≠ .endOfText) :
    FollowsAt more s (whileLoop r) (whileLoop r') Expr.bare free := by
  refine FollowsAt.bump hs hkind fun t _ => (parenthesised_follows hr).bind
    fun condition condition' hcondition => ?_
  refine (body_follows hr).bind fun body body' hbody => ?_
  refine Follows.spanFrom fun span span' => Follows.yield ?_ not_false
  simp [Expr.bare, Node.bare, hcondition, hbody]

/-- A loop behind its bounds, and behind the parenthesis that closes them. -/
theorem forBody_follows (counter : Option String) {first first' : Option Expr}
    {stop stop' : Expr} {step step' : Option Expr} {position position' : Position}
    (hfirst : Expr.bare? first' = Expr.bare? first) (hstop : stop'.bare = stop.bare)
    (hstep : Expr.bare? step' = Expr.bare? step) :
    Follows more n
      (do
        let body ← body r
        return ⟨.forLoop counter first stop step body, ← spanFrom position⟩ :
          Parse Expr)
      (do
        let body ← body r'
        return ⟨.forLoop counter first' stop' step' body, ← spanFrom position'⟩ :
          Parse Expr) Expr.bare free := by
  refine (body_follows hr).bind fun body body' hbody => ?_
  refine Follows.spanFrom fun span span' => Follows.yield ?_ not_false
  simp [Expr.bare, Node.bare, hfirst, hstop, hstep, hbody]

/-- A loop over a range does the same before a colon. -/
theorem forLoop_followsAt (hs : s.rest.length < n + 1)
    (hkind : s.token.kind ≠ .endOfText) :
    FollowsAt more s (forLoop r) (forLoop r') Expr.bare free := by
  refine FollowsAt.bump hs hkind fun t _ => Follows.expect_bind (by simp) ?_
  refine counter_follows.bind_id fun counter =>
    hr.expression.bind fun first first' hfirst => ?_
  refine Follows.eatColon (by simp) rfl rfl ?_
    (forBody_follows hr counter rfl hfirst rfl)
  have hstart : Expr.bare? (some first') = Expr.bare? (some first) := by
    simp [Expr.bare?, hfirst]
  refine hr.expression.bind fun stop stop' hstop => ?_
  refine Follows.eatColon (by simp) rfl rfl ?_
    (forBody_follows hr counter hstart hstop rfl)
  refine Follows.bind (w := Expr.bare?) (hr.expression.map fun e e' he => ?_)
    fun step step' hstep => ?_
  · simp [Expr.bare?, he]
  · exact Follows.expect_bind (by simp)
      (forBody_follows hr counter hstart hstop hstep)

/-- A function does the same before a colon. -/
theorem functionDef_followsAt (hs : s.rest.length < n + 1)
    (hkind : s.token.kind ≠ .endOfText) :
    FollowsAt more s (functionDef r) (functionDef r') Expr.bare free := by
  refine FollowsAt.bump hs hkind fun t _ => Follows.expect_bind (by simp) ?_
  refine parameters_follows.bind fun parameters parameters' hparameters => ?_
  refine (body_follows hr).bind fun body body' hbody => ?_
  refine Follows.spanFrom fun span span' => Follows.yield ?_ not_false
  simp [Expr.bare, Node.bare, FunctionDef.bare, hparameters, hbody]

/-! ## Matching -/

/-- What stands behind the colon of a branch does the same before a colon. -/
theorem consequence_follows {pattern pattern' : Option Expr}
    (start start' : Position)
    (hpattern : Expr.bare? pattern' = Expr.bare? pattern) :
    Follows more n (consequence r start pattern) (consequence r' start' pattern')
      Branch.bare free := by
  refine (body_follows hr).bind fun consequent consequent' hconsequent => ?_
  refine Follows.expect_bind (by simp)
    (Follows.spanFrom fun span span' => Follows.yield ?_ not_false)
  simp [Branch.bare, hpattern, hconsequent]

/-- A branch behind its pattern. -/
theorem branchBehind_follows {pattern pattern' : Option Expr}
    (start start' : Position)
    (hpattern : Expr.bare? pattern' = Expr.bare? pattern) :
    Follows more n (branchBehind r start pattern)
      (branchBehind r' start' pattern') Branch.bare
      fun _ => True :=
  Follows.expect_bind (by simp) (consequence_follows hr start start' hpattern)

/-- A branch does the same before a colon, and takes a token. -/
theorem branch_follows (hasDefault : Bool) :
    Follows more n (branch r hasDefault) (branch r' hasDefault) Branch.bare
      fun _ => True := by
  refine Follows.here fun start start' => Follows.eat (k := n) (by simp) (by simp)
    (Nat.le_succ n) ?_ ?_
  · have hnone : Expr.bare? none = Expr.bare? none := rfl
    have hdefault := (branchBehind_follows hr start start' hnone).unowed
    cases hasDefault with
    | true => exact Follows.raise _ _ hdefault
    | false => exact hdefault
  · refine Follows.bind (w := Expr.bare?) (hr.pattern.map fun e e' he => ?_)
      fun pattern pattern' hpattern => ?_
    · simp [Expr.bare?, he]
    · exact branchBehind_follows hr start start' hpattern

omit hr in
/-- At the end of the text the loop over branches is done. -/
theorem branchTurn_last (before : List Branch) (h : s.token.kind = .endOfText) :
    branchTurn r before s = (some (.done before), s.look 1) := by
  unfold branchTurn
  rw [bind_of_some (p := peekKind) rfl, h]
  rfl

/-- Before the end of the text, a turn of the loop over branches does the same
before a colon. -/
theorem branchTurn_followsAt {before before' : List Branch}
    (hbefore : before'.map Branch.bare = before.map Branch.bare)
    (hs : s.rest.length < n) (hkind : s.token.kind ≠ .endOfText) :
    FollowsAt more s (branchTurn r before) (branchTurn r' before')
      (Turn.viewed (List.map Branch.bare))
      Turn.GoesOn := by
  refine FollowsAt.peekKind (fun hkind => ?_) fun hend => absurd hend hkind
  split
  · exact FollowsAt.yield (by simp [Turn.viewed, hbefore]) not_false
  · rename_i hend
    exact absurd hend hkind
  · have hdefault : (before'.any fun b => b.pattern.isNone) = before.any fun b =>
        b.pattern.isNone := by
      have hany := congrArg (List.any · fun b => b.pattern.isNone) hbefore
      simp only [List.any_map, Function.comp_def, Branch.isNone_bare] at hany
      exact hany
    rw [hdefault]
    refine Follows.bind_paid (branch_follows hr _) (fun b b' hb => ?_) (s.look 1) hs
    exact Follows.yield (by simp [Turn.viewed, hbefore, hb]) fun h => h.2 trivial

/-- A match does the same before a colon. -/
theorem matching_followsAt (hs : s.rest.length < n + 1)
    (hkind : s.token.kind ≠ .endOfText) :
    FollowsAt more s (matching r) (matching r') Expr.bare free := by
  refine FollowsAt.bump hs hkind fun t _ => (parenthesised_follows hr).bind
    fun argument argument' hargument => ?_
  refine Follows.expect_bind (by simp) ?_
  refine Follows.closing (w := List.map Branch.bare)
    (fun before s hend => ⟨before, branchTurn_last before hend⟩)
    (fun before before' hbefore s hs hkind => branchTurn_followsAt hr hbefore hs
      hkind) (by simp) rfl
    fun branches branches' hbranches => ?_
  refine Follows.spanFrom fun span span' => Follows.yield ?_ not_false
  simp [Expr.bare, Node.bare, Branch.bareEach_eq_map, hargument, hbranches]

/-! ## Operands -/

/-- A type, or a cast to it, does the same before a colon. -/
theorem typeOrCast_followsAt (target : TypeName) (hs : s.rest.length < n + 1)
    (hkind : s.token.kind ≠ .endOfText) :
    FollowsAt more s (typeOrCast r target) (typeOrCast r' target)
      Expr.bare free := by
  refine FollowsAt.bump hs hkind fun t _ => ?_
  refine Follows.eat (k := n) (by simp) (by simp) (Nat.le_succ n) ?_ ?_
  · refine hr.expression.bind fun operand operand' hoperand =>
      Follows.expect_bind (by simp) ?_
    refine Follows.spanFrom fun span span' => Follows.yield ?_ not_false
    simp [Expr.bare, Node.bare, hoperand]
  · exact Follows.yield (by simp [Expr.bare, Node.bare]) not_false

/-- The arguments of a call do the same before a colon. -/
theorem arguments_follows :
    Follows more n (arguments r) (arguments r') (List.map Expr.bare) free := by
  refine Follows.eat (k := n) (by simp) (by simp) (Nat.le_succ n)
    (Follows.yield rfl not_false) ?_
  refine (commas_follows hr.expression).bind fun all all' hall => ?_
  exact Follows.expect_bind (by simp) (Follows.yield hall not_false)

/-- What stands on the highest rung does the same before a colon. -/
theorem primary_follows :
    Follows more (n + 1) (primary r) (primary r') Expr.bare free := by
  intro s hs
  refine FollowsAt.peek (fun hkind t ht => ?_) (fun hkind t ht => ?_)
  · have hkind' : t.kind = s.token.kind := congrArg Lexeme.kind ht
    rw [ht, hkind']
    split
    · refine FollowsAt.bump_at hkind fun _ _ => FollowsAt.yield ?_ not_false
      simp [Expr.bare, Node.bare]
    · split
      · refine FollowsAt.bump_at hkind fun _ _ => FollowsAt.yield ?_ not_false
        simp [Expr.bare, Node.bare]
      · have hless := length_take_lt (s := s.look 1) (ne_endOfText_of_kind hkind) hs
        exact grouping_followsAt (s := s.look 1) hkind (hr.expression _ hless)
      · exact block_followsAt (s := s.look 1) hr hs hkind
      · exact conditional_followsAt (s := s.look 1) hr hs hkind
      · exact forLoop_followsAt (s := s.look 1) hr hs hkind
      · exact whileLoop_followsAt (s := s.look 1) hr hs hkind
      · exact functionDef_followsAt (s := s.look 1) hr hs hkind
      · exact matching_followsAt (s := s.look 1) hr hs hkind
      · split
        · exact typeOrCast_followsAt (s := s.look 1) hr _ hs hkind
        · exact Follows.noExpression (s.look 1) hs
  · have hlexeme : s.token.lexeme = .endOfText := lexeme_eq_endOfText hkind
    rw [hlexeme, hkind]
    exact Follows.noExpression (s.look 1) hs

/-- Calls and members behind an operand. -/
theorem links_follows {first first' : Expr} (hfirst : first'.bare = first.bare) :
    Follows more (n + 1)
      (repeating (fun e => do
        match ← peekKind with
        | .symbol .dot =>
          let _ ← bump
          let start ← here
          let name ← identifier
          return .again (Expr.binary e .access ⟨.name name, ← spanFrom start⟩)
        | .symbol .leftParen =>
          let opening ← bump
          let arguments ← arguments r
          let behind ← spanFrom opening.span.start
          return .again ⟨.call e arguments, e.span.join (Span.point behind.stop)⟩
        | _ => return .done e) first)
      (repeating (fun e => do
        match ← peekKind with
        | .symbol .dot =>
          let _ ← bump
          let start ← here
          let name ← identifier
          return .again (Expr.binary e .access ⟨.name name, ← spanFrom start⟩)
        | .symbol .leftParen =>
          let opening ← bump
          let arguments ← arguments r'
          let behind ← spanFrom opening.span.start
          return .again ⟨.call e arguments, e.span.join (Span.point behind.stop)⟩
        | _ => return .done e) first') Expr.bare free := by
  refine Follows.repeating (fun e e' he s hs => ?_) hfirst
  have hdone : ∀ t : ParseState,
    FollowsAt more t (yield (Turn.done e)) (yield (Turn.done e'))
      (Turn.viewed Expr.bare) Turn.GoesOn :=
        fun _ => FollowsAt.yield (by simp [Turn.viewed, he]) not_false
  refine FollowsAt.peekKind (fun hkind => ?_) fun hkind => hdone _
  split
  · refine FollowsAt.bump (s := s.look 1) hs hkind fun t _ =>
      Follows.here fun start start' => ?_
    refine Follows.identifier.bind_id fun name =>
      Follows.spanFrom fun span span' => ?_
    refine Follows.yield ?_ not_false
    simp [Turn.viewed, Expr.binary, Expr.bare, Node.bare, he]
  · refine FollowsAt.bump (s := s.look 1) hs hkind fun t _ => ?_
    refine (arguments_follows hr).bind fun arguments arguments' harguments => ?_
    refine Follows.spanFrom fun span span' => Follows.yield ?_ not_false
    simp [Turn.viewed, Expr.bare, Node.bare, Expr.bareEach_eq_map, he, harguments]
  · exact hdone _

/-- A chain of calls and accesses does the same before a colon. -/
theorem chain_follows : Follows more (n + 1) (chain r) (chain r') Expr.bare free :=
  (primary_follows hr).bind fun _ _ hfirst => links_follows hr hfirst

/-- An exponent behind an operand. -/
theorem exponent_follows {base base' : Expr} (hbase : base'.bare = base.bare) :
    Follows more (n + 1)
      (do
        if ← eat (.symbol .caret) then
          return Expr.binary base .exponent (← r.signed)
        else return base)
      (do
        if ← eat (.symbol .caret) then
          return Expr.binary base' .exponent (← r'.signed)
        else return base') Expr.bare free := by
  refine Follows.eat (k := n) (by simp) (by simp) (Nat.le_refl _) ?_
    (Follows.yield hbase not_false)
  refine hr.signed.bind fun exponent exponent' hexponent =>
    Follows.yield ?_ not_false
  simp [Expr.binary, Expr.bare, Node.bare, hbase, hexponent]

/-- A power does the same before a colon. -/
theorem power_follows : Follows more (n + 1) (power r) (power r') Expr.bare free :=
  (chain_follows hr).bind fun _ _ hbase => exponent_follows hr hbase

/-- An expression with signs before it does the same before a colon. -/
theorem signed_follows :
    Follows more (n + 1) (signed r) (signed r') Expr.bare free := by
  intro s hs
  refine FollowsAt.peek (fun hkind t ht => ?_) (fun hkind t ht => ?_)
  · have hkind' : t.kind = s.token.kind := congrArg Lexeme.kind ht
    rw [hkind']
    split
    · refine FollowsAt.bump (s := s.look 1) hs hkind fun _ _ => ?_
      refine hr.signed.bind fun operand operand' hoperand =>
        Follows.yield ?_ not_false
      simp [Expr.unary, Expr.bare, Node.bare, hoperand]
    · exact power_follows hr (s.look 1) hs
  · have hcolon : t.kind = .symbol .colon := congrArg Lexeme.kind ht
    rw [hkind, hcolon]
    exact power_follows hr (s.look 1) hs

/-! ## The ladder -/

omit hr in
/-- A loop whose operators are neither the end of the text nor a colon. -/
theorem rungLoop_follows {operator? : TokenKind → Option Operator}
    {operand operand' : Parse Expr} (hend : operator? .endOfText = none)
    (hcolon : operator? (.symbol .colon) = none)
    (hoperand : Follows more n operand operand' Expr.bare free)
    {first first' : Expr} (hfirst : first'.bare = first.bare) :
    Follows more n
      (repeating (fun left => do
        match operator? (← peekKind) with
        | some operator =>
          let _ ← bump
          return .again (Expr.binary left operator (← operand))
        | none => return .done left) first)
      (repeating (fun left => do
        match operator? (← peekKind) with
        | some operator =>
          let _ ← bump
          return .again (Expr.binary left operator (← operand'))
        | none => return .done left) first') Expr.bare free := by
  refine Follows.repeating (fun left left' hleft s hs => ?_) hfirst
  refine FollowsAt.peekKind (fun hkind => ?_) fun hkind => ?_
  · split
    · refine FollowsAt.bump (s := s.look 1) (Nat.lt_succ_of_lt hs) hkind fun _ _ =>
        ?_
      refine hoperand.bind fun right right' hright => Follows.yield ?_ not_false
      simp [Turn.viewed, Expr.binary, Expr.bare, Node.bare, hleft, hright]
    · exact FollowsAt.yield (by simp [Turn.viewed, hleft]) not_false
  · rw [hend, hcolon]
    exact FollowsAt.yield (by simp [Turn.viewed, hleft]) not_false

omit hr in
/-- A level of operators that associate to the left. -/
theorem leftAssoc_follows {operator? : TokenKind → Option Operator}
    {operand operand' : Parse Expr} (hend : operator? .endOfText = none)
    (hcolon : operator? (.symbol .colon) = none)
    (hoperand : Follows more n operand operand' Expr.bare free) :
    Follows more n (leftAssoc operator? operand) (leftAssoc operator? operand')
      Expr.bare free :=
  hoperand.bind fun _ _ hfirst => rungLoop_follows hend hcolon hoperand hfirst

/-- The operand of a comparison does the same before a colon. -/
theorem comparand_follows :
    Follows more (n + 1) (comparand r) (comparand r') Expr.bare free :=
  leftAssoc_follows rfl rfl (leftAssoc_follows rfl rfl
    (leftAssoc_follows rfl rfl (signed_follows hr)))

omit hr in
/-- Type tests behind an operand. -/
theorem typeTests_follows {first first' : Expr}
    (hfirst : first'.bare = first.bare) :
    Follows more n
      (repeating (fun left => do
        if ← eat (.keyword .is) then
          let operator := if ← eat (.keyword .not) then Operator.isNot else .is
          return .again (Expr.binary left operator (← typeOperand))
        else return .done left) first)
      (repeating (fun left => do
        if ← eat (.keyword .is) then
          let operator := if ← eat (.keyword .not) then Operator.isNot else .is
          return .again (Expr.binary left operator (← typeOperand))
        else return .done left) first') Expr.bare free := by
  refine Follows.repeating (fun left left' hleft => ?_) hfirst
  refine Follows.eat (k := n) (by simp) (by simp) (Nat.le_succ n) ?_ ?_
  · refine (Follows.flag (by simp) (by simp)).bind_id fun negated => ?_
    refine typeOperand_follows.bind fun target target' htarget =>
      Follows.yield ?_ not_false
    simp [Turn.viewed, Expr.binary, Expr.bare, Node.bare, hleft, htarget]
  · exact Follows.yield (by simp [Turn.viewed, hleft]) not_false

/-- What stands on the rung of type tests does the same before a colon. -/
theorem typeTest_follows :
    Follows more (n + 1) (typeTest r) (typeTest r') Expr.bare free :=
  (leftAssoc_follows rfl rfl (comparand_follows hr)).bind fun _ _ hfirst =>
    typeTests_follows hfirst

/-- An assignment to what stands on the higher rungs. -/
theorem assignment_follows {left left' : Expr} (hleft : left'.bare = left.bare) :
    Follows more (n + 1)
      (do
        let token ← peek
        match assignment? token.kind with
        | none => return left
        | some operator =>
          let _ ← bump
          match left.node with
          | .name _ => pure ()
          | _ => raise .invalidTarget token.span.start
          return Expr.binary left operator (← r.expression))
      (do
        let token ← peek
        match assignment? token.kind with
        | none => return left'
        | some operator =>
          let _ ← bump
          match left'.node with
          | .name _ => pure ()
          | _ => raise .invalidTarget token.span.start
          return Expr.binary left' operator (← r'.expression)) Expr.bare free := by
  intro s hs
  refine FollowsAt.peek (fun hkind t ht => ?_) (fun hkind t ht => ?_)
  · have hkind' : t.kind = s.token.kind := congrArg Lexeme.kind ht
    rw [hkind']
    split
    · exact FollowsAt.yield hleft not_false
    · rename_i operator hoperator
      refine FollowsAt.bump (s := s.look 1) hs hkind fun _ _ => ?_
      have hright : Follows more n
        (do return Expr.binary left operator (← r.expression))
          (do return Expr.binary left' operator (← r'.expression))
            Expr.bare free := by
        refine hr.expression.bind fun right right' hright =>
          Follows.yield ?_ not_false
        simp [Expr.binary, Expr.bare, Node.bare, hleft, hright]
      obtain ⟨node, span⟩ := left
      cases node with
      | name text =>
          rw [Expr.node_eq_name hleft]
          exact hright
      | _ => exact Follows.raise _ _ hright
  · have hcolon : t.kind = .symbol .colon := congrArg Lexeme.kind ht
    rw [hkind, hcolon]
    exact FollowsAt.yield hleft not_false

/-- An expression does the same before a colon. -/
theorem expression_follows :
    Follows more (n + 1) (expression r) (expression r') Expr.bare free := by
  have hconjuncts : Follows more (n + 1) (leftAssoc conjunction? (typeTest r))
      (leftAssoc conjunction? (typeTest r')) Expr.bare free :=
        leftAssoc_follows rfl rfl (typeTest_follows hr)
  have hpipes : Follows more (n + 1) (leftAssoc piping? (leftAssoc disjunction? _))
      (leftAssoc piping? (leftAssoc disjunction? _)) Expr.bare free :=
    leftAssoc_follows rfl rfl (leftAssoc_follows rfl rfl hconjuncts)
  exact (leftAssoc_follows rfl rfl hpipes).bind fun _ _ hleft =>
    assignment_follows hr hleft

/-! ## Patterns -/

/-- A pattern without connectives does the same before a colon. -/
theorem patternAtom_follows :
    Follows more (n + 1) (patternAtom r) (patternAtom r') Expr.bare free := by
  intro s hs
  refine FollowsAt.peek (fun hkind t ht => ?_) (fun hkind t ht => ?_)
  · have hkind' : t.kind = s.token.kind := congrArg Lexeme.kind ht
    rw [hkind']
    split
    · refine FollowsAt.bump (s := s.look 1) hs hkind fun _ _ => ?_
      refine hr.comparand.bind fun operand operand' hoperand =>
        Follows.yield ?_ not_false
      simp [Expr.unary, Expr.bare, Node.bare, hoperand]
    · split
      · refine FollowsAt.bump (s := s.look 1) hs hkind fun _ _ => ?_
        refine (Follows.flag (by simp) (by simp)).bind_id fun negated => ?_
        refine typeOperand_follows.bind fun target target' htarget =>
          Follows.yield ?_ not_false
        simp [Expr.unary, Expr.bare, Node.bare, htarget]
      · split
        · refine FollowsAt.peekSecondKind (s := s.look 1) hkind ?_
            (expression_follows hr ((s.look 1).look 2) hs)
          split
          · have hless :=
              length_take_lt (s := (s.look 1).look 2)
                (ne_endOfText_of_kind hkind) hs
            exact grouping_followsAt (s := (s.look 1).look 2) hkind
              (hr.pattern _ hless)
          · exact expression_follows hr ((s.look 1).look 2) hs
        · exact expression_follows hr (s.look 1) hs
  · have hcolon : t.kind = .symbol .colon := congrArg Lexeme.kind ht
    rw [hkind, hcolon]
    exact expression_follows hr (s.look 1) hs

/-- A pattern does the same before a colon. -/
theorem pattern_follows :
    Follows more (n + 1) (pattern r) (pattern r') Expr.bare free :=
  leftAssoc_follows rfl rfl (leftAssoc_follows rfl rfl (patternAtom_follows hr))

/-! ## Statements -/

omit hr in
/-- A pull. -/
theorem pull_followsAt (hs : s.rest.length < n + 1)
    (hkind : s.token.kind ≠ .endOfText) :
    FollowsAt more s pull pull Action.bare free := by
  refine FollowsAt.bump hs hkind fun t _ =>
    Follows.identifier.bind_id fun first => ?_
  have hfirst : id first = id first := rfl
  refine (more_follows (by simp) (by simp) Follows.identifier hfirst).bind
      fun path path' h =>
    Follows.yield ?_ not_false
  simp only [List.map_id] at h
  simp [h]

omit hr in
/-- A binding that is no constant without a value earns a warning at most. -/
theorem bindingEnd_remarks (name : String) (const : Bool) {value : Option Expr}
    (hvalue : value = none → const = false) (start : Position) :
    Remarks
      (do
        match value with
        | none => if const then raise (.constWithoutValue name) start
        | some ⟨.literal .null, _⟩ => if !const then warn (.nullValue name) start
        | some _ => pure ()
        return ⟨name, const, value, ← spanFrom start⟩ : Parse Binding)
      (do return ⟨name, const, value, ← spanFrom start⟩) := by
  dsimp only
  split
  · rw [hvalue rfl]
    exact Remarks.refl _
  · split
    · exact Remarks.warn _ _
    · exact Remarks.refl _
  · exact Remarks.refl _

omit hr in
/-- The end of a binding, with a value or without one. -/
theorem bindingEnd_follows (name : String) (const : Bool)
    {value value' : Option Expr} (hvalue : Expr.bare? value' = Expr.bare? value)
    (start start' : Position) :
    Follows more n
      (do
        match value with
        | none => if const then raise (.constWithoutValue name) start
        | some ⟨.literal .null, _⟩ => if !const then warn (.nullValue name) start
        | some _ => pure ()
        return ⟨name, const, value, ← spanFrom start⟩ : Parse Binding)
      (do
        match value' with
        | none => if const then raise (.constWithoutValue name) start'
        | some ⟨.literal .null, _⟩ => if !const then warn (.nullValue name) start'
        | some _ => pure ()
        return ⟨name, const, value', ← spanFrom start'⟩ : Parse Binding)
          Binding.bare free := by
  have hend : Follows more n
    (do return ⟨name, const, value, ← spanFrom start⟩ : Parse Binding)
      (do return ⟨name, const, value', ← spanFrom start'⟩ : Parse Binding)
        Binding.bare free := by
    refine Follows.spanFrom fun span span' => Follows.yield ?_ not_false
    simp [Binding.bare, hvalue]
  by_cases hmissing : value = none ∧ const = true
  · obtain ⟨rfl, rfl⟩ := hmissing
    exact Follows.raise _ _ hend
  · have hsome : value = none → const = false := by simpa using hmissing
    have hsome' : value' = none → const = false := by
      rintro rfl
      cases value with
      | none => exact hsome rfl
      | some e => cases hvalue
    exact hend.remarks (bindingEnd_remarks name const hsome start)
      (bindingEnd_remarks name const hsome' start')

/-- A binding does the same before a colon. -/
theorem binding_follows :
    Follows more n (binding r) (binding r') Binding.bare free := by
  refine Follows.here fun start start' => (Follows.flag (by simp) (by simp)).bind_id
    fun const => ?_
  refine Follows.identifier.bind_id fun name => ?_
  refine Follows.eat (k := n) (by simp) (by simp) (Nat.le_succ n) ?_ ?_
  · have hvalue := (expression_follows hr).anti (Nat.le_succ n)
    refine Follows.bind (w := Expr.bare?) (hvalue.map fun e e' he => ?_)
      fun value value' hvalue => ?_
    · simp [Expr.bare?, he]
    · exact bindingEnd_follows name const hvalue start start'
  · have hnone : Expr.bare? none = Expr.bare? none := rfl
    exact bindingEnd_follows name const hnone start start'

/-- A declaration does the same before a colon. -/
theorem declare_followsAt (hs : s.rest.length < n + 1)
    (hkind : s.token.kind ≠ .endOfText) :
    FollowsAt more s (Grammar.declare r) (Grammar.declare r') Action.bare free := by
  refine FollowsAt.bump hs hkind fun t _ =>
    (commas_follows (binding_follows hr)).bind
    fun bindings bindings' hbindings => Follows.yield ?_ not_false
  simp [Action.bare, Binding.bareEach_eq_map, hbindings]

/-- An action does the same before a colon. -/
theorem action_follows :
    Follows more (n + 1) (action r) (action r') Action.bare free := by
  intro s hs
  have hevaluate : FollowsAt more (s.look 1) (do return .evaluate (← expression r))
      (do return .evaluate (← expression r')) Action.bare free := by
    refine Follows.bind (expression_follows hr)
      (fun e e' he => Follows.yield ?_ not_false) (s.look 1) hs
    simp [Action.bare, he]
  refine FollowsAt.peekKind (fun hkind => ?_) fun hkind => hevaluate
  split
  · exact pull_followsAt (s := s.look 1) hs hkind
  · exact declare_followsAt (s := s.look 1) hr hs hkind
  · exact FollowsAt.bump (s := s.look 1) hs hkind fun _ _ =>
      Follows.yield rfl not_false
  · refine FollowsAt.bump (s := s.look 1) hs hkind fun _ _ => ?_
    refine (parenthesised_follows hr).bind fun condition condition' hcondition =>
      Follows.yield ?_ not_false
    simp [Action.bare, hcondition]
  · refine FollowsAt.bump (s := s.look 1) hs hkind fun _ _ =>
      Follows.peekKind (fun kind _ => ?_) ?_
    · split
      · refine hr.expression.bind fun e e' he => Follows.yield ?_ not_false
        simp [Action.bare, Expr.bare?, he]
      · exact Follows.yield rfl not_false
    · exact Follows.yield rfl not_false
  · exact hevaluate

omit hr in
/-- A statement without a semicolon is remarked on, and no more. -/
theorem statementEnd_remarks (action : Action) (terminated : Bool)
    (start : Position) :
    Remarks
      (do
        match action with
        | .evaluate e =>
            if terminated && e.node.isInert then warn .ignoredResult start
        | _ => pure ()
        return ⟨action, terminated, ← spanFrom start⟩ : Parse Stmt)
      (do return ⟨action, terminated, ← spanFrom start⟩) := by
  dsimp only
  split
  · split
    · exact Remarks.warn _ _
    · exact Remarks.refl _
  · exact Remarks.refl _

/-- A statement does the same before a colon, and has taken a token if it is
terminated. -/
theorem statement_follows :
    Follows more (n + 1) (statement r) (statement r') Stmt.bare fun st =>
      st.terminated = true := by
  refine Follows.here fun start start' =>
    (action_follows hr).bind fun action action' haction => ?_
  have hend : ∀ (m : Nat) (terminated : Bool) (owes : Stmt → Prop),
      (∀ span, ¬ owes ⟨action, terminated, span⟩) → Follows more m
        (do return ⟨action, terminated, ← spanFrom start⟩ : Parse Stmt)
        (do return ⟨action', terminated, ← spanFrom start'⟩) Stmt.bare owes := by
    intro m terminated owes howes
    refine Follows.spanFrom fun span span' => Follows.yield ?_ (howes span)
    simp [Stmt.bare, haction]
  refine Follows.eat (k := n) (by simp) (by simp) (Nat.le_refl _) ?_ ?_
  · refine Follows.remarks ?_ ?_ (hend n true free fun _ => not_false)
    · exact statementEnd_remarks action true start
    · exact statementEnd_remarks action' true start'
  · refine Follows.remarks ?_ ?_
      (hend (n + 1) false (fun st => st.terminated = true) (by simp))
    · exact statementEnd_remarks action false start
    · exact statementEnd_remarks action' false start'

end Grammar

/-! ## All rules -/

namespace Rules

open Grammar

/-- One level more of the rules, in both parsers. -/
theorem deepen_follow {more : List Lexeme} {n : Nat} {r r' : Rules ParseState}
    (hr : r.Follow more n r') :
    r.deepen.Follow more (n + 1) r'.deepen where
  expression := expression_follows hr
  signed := signed_follows hr
  comparand := comparand_follows hr
  pattern := pattern_follows hr
  statement := statement_follows hr

/-- More layers of nesting do no harm. -/
theorem upTo_follow (more : List Lexeme) {n m : Nat} (h : n ≤ m) :
    (upTo n).Follow more n (upTo m) := by
  induction n generalizing m with
  | zero =>
      have hnone : ∀ {α γ : Type} {p p' : Parse α} {view : α → γ} {owes : α → Prop},
          Parse.Follows more 0 p p' view owes :=
            fun s hs => absurd hs (Nat.not_lt_zero _)
      exact ⟨hnone, hnone, hnone, hnone, hnone⟩
  | succ n ih =>
      obtain ⟨m, rfl⟩ : ∃ k, m = k + 1 := ⟨m - 1, by omega⟩
      rw [upTo_succ, upTo_succ]
      exact deepen_follow (ih (Nat.le_of_succ_le_succ h))

end Rules

end ScriptLang
