import ScriptLang.Proofs.Parse.Completeness
import ScriptLang.Proofs.Parse.Endings
import ScriptLang.Proofs.Parse.Malformed

/-!
# Operands at rest

Every rung of the ladder parses an operand of the next one first, and goes on with
it as long as the next token continues it.  So where no token continues it the
operand comes out as it went in, through all rungs (`Grammar.expression_restsOn`); a
tree that is no operation came out that way; and what is wrong with the operand is
wrong with the whole.
-/

namespace ScriptLang

namespace Parse

open ParseState

variable {s t : ParseState}

/-- Whatever a parser yields, and the state it leaves, are related by `Q`. -/
def Returns (s : ParseState) (p : Parse α) (Q : α → ParseState → Prop) : Prop :=
  ∀ a u, p s = (some a, u) → Q a u

theorem Returns.yield {a : α} {Q : α → ParseState → Prop} (h : Q a s) :
    Returns s (Parse.yield a) Q := by
  rintro _ _ ⟨⟩
  exact h

/-- What is returned by parsers one after the other. -/
theorem Returns.bind {p : Parse β} {f : β → Parse α} {Q : α → ParseState → Prop}
    (h : ∀ b t, p s = (some b, t) → Returns t (f b) Q) : Returns s (p >>= f) Q := by
  intro a u hrun
  obtain ⟨b, t, hp, hf⟩ := bind_eq_some hrun
  exact h b t hp a u hf

/-- To look at the next token returns what comes behind. -/
theorem Returns.peek {f : Token → Parse α} {Q : α → ParseState → Prop}
    (h : Returns (s.look 1) (f s.token) Q) : Returns s (Parse.peek >>= f) Q :=
  fun a u hrun => h a u hrun

/-- To look at the kind of the next token returns what comes behind. -/
theorem Returns.peekKind {f : TokenKind → Parse α} {Q : α → ParseState → Prop}
    (h : Returns (s.look 1) (f s.token.kind) Q) :
    Returns s (Parse.peekKind >>= f) Q :=
  fun a u hrun => h a u hrun

/-- To take a token or not returns what comes behind in either case. -/
theorem Returns.eat {kind : TokenKind} {f : Bool → Parse α}
    {Q : α → ParseState → Prop} (htrue : ∀ t, Returns t (f true) Q)
    (hfalse : Returns (s.look 1) (f false) Q) :
    Returns s (Parse.eat kind >>= f) Q := by
  intro a u hrun
  by_cases hkind : s.token.kind = kind
  · rw [eat_bind_of_eq hkind] at hrun
    exact htrue _ a u hrun
  · rw [eat_bind_of_ne hkind] at hrun
    exact hfalse a u hrun

/-- How a parser is related to the parser of its first operand. -/
structure RestsOn (s : ParseState) (q p : Parse Expr) : Prop where
  /-- What it yields begins with an operand. -/
  operand : Returns s q fun _ _ => ∃ e t, p s = (some e, t)
  /-- Where nothing continues the operand, it yields the operand. -/
  idle : ∀ e t, p s = (some e, t) → t.token.kind.reach = 0 → ∃ u, t.Still u ∧
    q s = (some e, u)
  /-- What is no operation is the operand. -/
  whole : Returns s q fun e u => e.rung = 16 → ∃ t, p s = (some e, t) ∧ t.Still u

/-- What rests on a parser that rests on another one rests on that one. -/
theorem RestsOn.trans {q p o : Parse Expr} (h : RestsOn s q p)
    (h' : RestsOn s p o) : RestsOn s q o where
  operand e v hrun := by
    obtain ⟨e', u, hrun'⟩ := h.operand e v hrun
    exact h'.operand e' u hrun'
  idle e t hrun hreach := by
    obtain ⟨u, hu, hrun'⟩ := h'.idle e t hrun hreach
    obtain ⟨v, hv, hrun''⟩ := h.idle e u hrun' (by rw [hu.kind_eq, hreach])
    exact ⟨v, hu.trans hv, hrun''⟩
  whole e v hrun hrung := by
    obtain ⟨u, hrun', hu⟩ := h.whole e v hrun hrung
    obtain ⟨t, hrun'', ht⟩ := h'.whole e u hrun' hrung
    exact ⟨t, hrun'', ht.trans hu⟩

/-- A parser rests on its first part if the second is idle where nothing goes on. -/
theorem RestsOn.bind {p : Parse Expr} {f : Expr → Parse Expr}
    (hidle : ∀ e t, t.token.kind.reach = 0 → f e t = (some e, t.look 1))
    (hwhole : ∀ e t, Returns t (f e) fun e' u => e'.rung = 16 → e' = e ∧ t.Still u) :
    RestsOn s (p >>= f) p where
  operand := Returns.bind fun e t hrun _ _ _ => ⟨e, t, hrun⟩
  idle e t hrun hreach :=
    ⟨t.look 1, still_look 1 t, by rw [bind_of_some hrun, hidle e t hreach]⟩
  whole e u hrun hrung := by
    obtain ⟨first, t, hfirst, hrun⟩ := bind_eq_some hrun
    obtain ⟨rfl, hstill⟩ := hwhole first t e u hrun hrung
    exact ⟨t, hfirst, hstill⟩

/-- A loop over operations. -/
structure Extends (step : Expr → Parse (Turn Expr)) : Prop where
  idle : ∀ e t, t.token.kind.reach = 0 → step e t = (some (.done e), t.look 1)
  turn : ∀ e t, Returns t (step e) fun turn u =>
    (turn = .done e ∧ t.Still u) ∨ ∃ e', turn = .again e' ∧ e'.rung ≠ 16

/-- A loop that yields something whole has not gone on. -/
theorem Extends.whole {step : Expr → Parse (Turn Expr)} (hstep : Extends step)
    {fuel : Nat} {first e : Expr} (h : iterate step fuel first s = (some e, t))
    (hrung : e.rung = 16) : e = first ∧ s.Still t := by
  induction fuel generalizing first s with
  | zero =>
      cases h
      exact ⟨rfl, Still.refl _⟩
  | succ fuel ih =>
      unfold iterate at h
      rcases hrun : step first s with ⟨_ | turn, s'⟩
      · rw [hrun] at h
        cases h
      · rw [hrun] at h
        rcases hstep.turn first s _ _ hrun with ⟨rfl, hstill⟩ | ⟨e', rfl, hrung'⟩
        · cases h
          exact ⟨rfl, hstill⟩
        · obtain ⟨rfl, _⟩ := ih h
          exact absurd hrung hrung'

/-- A loop rests on its first operand. -/
theorem Extends.restsOn {step : Expr → Parse (Turn Expr)} (hstep : Extends step)
    (p : Parse Expr) :
    RestsOn s (p >>= repeating step) p := by
  refine RestsOn.bind (fun e t hreach => ?_) fun e t e' u hrun hrung =>
    hstep.whole hrun hrung
  simp only [repeating, iterate, hstep.idle e t hreach]

end Parse

namespace Grammar

open Parse ParseState

variable {r : Rules ParseState} {s t : ParseState}

/-- A level of operators rests on its operands. -/
theorem leftAssoc_restsOn {k : Nat} {operator? : TokenKind → Option Operator}
    (hlevel : IsLevel k operator?) (operand : Parse Expr) :
    RestsOn s (leftAssoc operator? operand) operand := by
  refine Extends.restsOn ⟨fun e t hreach => ?_, fun e t => ?_⟩ operand
  · have hnone : operator? t.token.kind = none := by
      obtain ⟨⟨hk, _⟩, hquiet, _⟩ := hlevel
      exact hquiet _ (by omega)
    rw [bind_of_some (p := peekKind) rfl, hnone]
    rfl
  · refine Returns.peekKind ?_
    split
    · rename_i o _
      refine Returns.bind fun _ _ _ => Returns.bind fun right _ _ =>
        Returns.yield (.inr ⟨_, rfl, ?_⟩)
      exact Nat.ne_of_lt o.rung_lt
    · exact Returns.yield (.inl ⟨rfl, still_look 1 t⟩)

/-- A token that continues something is not there. -/
theorem kind_ne_of_idle {kind : TokenKind} (h : t.token.kind.reach = 0)
    (hkind : 0 < kind.reach) :
    t.token.kind ≠ kind := by
  intro heq
  rw [heq] at h
  omega

/-- Type tests rest on comparisons. -/
theorem typeTest_restsOn :
    RestsOn s (typeTest r) (leftAssoc comparison? (comparand r)) := by
  refine Extends.restsOn ⟨fun e t hreach => ?_,
    fun e t => Returns.eat (fun _ => ?_) ?_⟩ _
  · rw [eat_bind_of_ne (kind_ne_of_idle hreach (by decide))]
    rfl
  · refine Returns.bind fun negated _ _ => Returns.bind fun target _ _ =>
      Returns.yield (.inr ⟨_, rfl, ?_⟩)
    exact Nat.ne_of_lt (Operator.rung_lt _)
  · exact Returns.yield (.inl ⟨rfl, still_look 1 t⟩)

/-- Chains rest on what stands on the highest rung. -/
theorem chain_restsOn : RestsOn s (chain r) (primary r) := by
  refine Extends.restsOn ⟨fun e t hreach => ?_, fun e t => Returns.peekKind ?_⟩ _
  · rw [bind_of_some (p := peekKind) rfl]
    refine congrFun (?_ : _ = yield (Turn.done e)) (t.look 1)
    split
    · rename_i hkind
      exact absurd hkind (kind_ne_of_idle hreach (by decide))
    · rename_i hkind
      exact absurd hkind (kind_ne_of_idle hreach (by decide))
    · rfl
  · split
    · refine Returns.bind fun _ _ _ => Returns.bind fun start _ _ =>
        Returns.bind fun name _ _ => ?_
      refine Returns.bind fun span _ _ => Returns.yield (.inr ⟨_, rfl, ?_⟩)
      exact Nat.ne_of_lt (Operator.rung_lt .access)
    · refine Returns.bind fun opening _ _ => Returns.bind fun arguments _ _ => ?_
      exact Returns.bind fun behind _ _ =>
        Returns.yield (.inr ⟨_, rfl, by simp [Expr.rung]⟩)
    · exact Returns.yield (.inl ⟨rfl, still_look 1 t⟩)

/-- Powers rest on chains. -/
theorem power_restsOn : RestsOn s (power r) (chain r) := by
  refine RestsOn.bind (fun e t hreach => ?_) fun e t => Returns.eat (fun _ => ?_) ?_
  · rw [eat_bind_of_ne (kind_ne_of_idle hreach (by decide))]
    rfl
  · refine Returns.bind fun exponent _ _ => Returns.yield fun hrung =>
      absurd hrung ?_
    exact Nat.ne_of_lt (Operator.rung_lt .exponent)
  · exact Returns.yield fun _ => ⟨rfl, still_look 1 t⟩

/-- Where there is no sign, an operand with its signs is an operand. -/
theorem signed_of_no_sign (hsign : sign? s.token.kind = none) :
    signed r s = power r (s.look 1) := by
  unfold signed
  rw [bind_of_some (p := peek) rfl, hsign]

/-- Without a sign, what can have one rests on powers. -/
theorem signed_restsOn (hsign : sign? s.token.kind = none) :
    RestsOn s (signed r) fun s => power r (s.look 1) := by
  have hsigned := signed_of_no_sign (r := r) hsign
  refine ⟨fun e u hrun => ⟨e, u, ?_⟩, fun e t hrun _ => ⟨t, Still.refl t, ?_⟩,
    fun e u hrun _ => ⟨u, ?_, Still.refl u⟩⟩
  · rw [← hsigned, hrun]
  · rw [hsigned, hrun]
  · rw [← hsigned, hrun]

/-- Where nothing is assigned, an expression is what stands on the other rungs. -/
theorem assignment_restsOn :
    RestsOn s (expression r) (leftAssoc coalescing? (leftAssoc piping?
      (leftAssoc disjunction? (leftAssoc conjunction? (typeTest r))))) := by
  refine RestsOn.bind (fun e t hreach => ?_) fun e t => Returns.peek ?_
  · have hnone : assignment? t.token.kind = none :=
      assignment?_of_reach _ (by omega)
    rw [bind_of_some (p := peek) rfl, hnone]
    rfl
  · split
    · exact Returns.yield fun _ => ⟨rfl, still_look 1 t⟩
    · rename_i o _
      have hright : ∀ u, Returns u (do return Expr.binary e o (← r.expression))
          fun e' v =>
          e'.rung = 16 → e' = e ∧ t.Still v := by
        refine fun u => Returns.bind fun right _ _ => Returns.yield fun hrung =>
          absurd hrung ?_
        exact Nat.ne_of_lt o.rung_lt
      refine Returns.bind fun _ u _ => ?_
      dsimp only
      split
      · exact hright u
      · exact Returns.bind fun _ v _ => hright v

/-- Where there is no sign, an expression rests on an operand without operators. -/
theorem expression_restsOn (hsign : sign? s.token.kind = none) :
    RestsOn s (expression r) fun s => primary r (s.look 1) := by
  have hsigned : RestsOn s (signed r) fun s => primary r (s.look 1) := by
    obtain ⟨hoperand, hidle, hwhole⟩ :=
      (power_restsOn (r := r) (s := s.look 1)).trans chain_restsOn
    exact (signed_restsOn hsign).trans ⟨hoperand, hidle, hwhole⟩
  have hcomparand : RestsOn s (comparand r) (signed r) :=
    ((leftAssoc_restsOn concatenation_isLevel _).trans
      (leftAssoc_restsOn additive_isLevel _)).trans
      (leftAssoc_restsOn multiplicative_isLevel _)
  have htypeTest : RestsOn s (typeTest r) (comparand r) :=
    typeTest_restsOn.trans (leftAssoc_restsOn comparison_isLevel _)
  have hdisjunct := (leftAssoc_restsOn (s := s) disjunction_isLevel _).trans
    (leftAssoc_restsOn conjunction_isLevel (typeTest r))
  have hleft :=
    ((leftAssoc_restsOn coalescing_isLevel _).trans
      (leftAssoc_restsOn piping_isLevel _)).trans hdisjunct
  exact (((assignment_restsOn.trans hleft).trans htypeTest).trans hcomparand).trans
    hsigned

/-! ## Errors in operands -/

section Errors

variable {more : List Lexeme} {n : Nat} {r' : Rules ParseState}
  (hr : r.Follow more n r') (hs : s.rest.length < n + 1)
include hr hs

omit hr in
/-- Errors of an operand are not taken back by what goes on with it. -/
theorem errors_le_bind {operand operand' : Parse Expr} {f f' : Expr → Parse Expr}
    (hoperand : Follows more (n + 1) operand operand' Expr.bare free)
    (hf : ∀ e, Follows more (n + 1) (f e) (f' e) Expr.bare free) :
    (operand s).2.errors.size ≤ ((operand >>= f) s).2.errors.size := by
  have hlength := (hoperand s hs).1.length_le
  rcases hrun : operand s with ⟨_ | e, t⟩
  · exact Nat.le_of_eq (by rw [bind_of_none hrun])
  · rw [bind_of_some hrun]
    rw [hrun] at hlength
    exact (hf e t (Nat.lt_of_le_of_lt hlength hs)).1.errors_le

omit hr in
/-- A level of operators takes no error of its first operand back. -/
theorem errors_le_leftAssoc {operator? : TokenKind → Option Operator}
    {operand operand' : Parse Expr} (hend : operator? .endOfText = none)
    (hcolon : operator? (.symbol .colon) = none)
    (hoperand : Follows more (n + 1) operand operand' Expr.bare free) :
    (operand s).2.errors.size ≤ (leftAssoc operator? operand s).2.errors.size :=
  errors_le_bind hs hoperand fun _ => rungLoop_follows hend hcolon hoperand rfl

/-- An expression takes no error of its first operand back. -/
theorem errors_le_expression (hsign : sign? s.token.kind = none) :
    (primary r (s.look 1)).2.errors.size ≤ (expression r s).2.errors.size := by
  have hterm : Follows more (n + 1) (leftAssoc multiplicative? (signed r))
      _ Expr.bare free :=
    leftAssoc_follows rfl rfl (signed_follows hr)
  have hpiece : Follows more (n + 1) (leftAssoc additive? _) _ Expr.bare free :=
    leftAssoc_follows rfl rfl hterm
  have hcomparison : Follows more (n + 1) (leftAssoc comparison? (comparand r))
      _ Expr.bare free :=
    leftAssoc_follows rfl rfl (comparand_follows hr)
  have hconjunct : Follows more (n + 1) (leftAssoc conjunction? (typeTest r))
      _ Expr.bare free :=
    leftAssoc_follows rfl rfl (typeTest_follows hr)
  have hdisjunct : Follows more (n + 1) (leftAssoc disjunction? _)
      _ Expr.bare free :=
    leftAssoc_follows rfl rfl hconjunct
  have hpipe : Follows more (n + 1) (leftAssoc piping? _) _ Expr.bare free :=
    leftAssoc_follows rfl rfl hdisjunct
  have hleft : Follows more (n + 1) (leftAssoc coalescing? _) _ Expr.bare free :=
    leftAssoc_follows rfl rfl hpipe
  calc (primary r (s.look 1)).2.errors.size
    _ ≤ (chain r (s.look 1)).2.errors.size :=
      errors_le_bind (s := s.look 1) hs (primary_follows hr) fun _ =>
        links_follows hr rfl
    _ ≤ (power r (s.look 1)).2.errors.size :=
      errors_le_bind (s := s.look 1) hs (chain_follows hr) fun _ =>
        exponent_follows hr rfl
    _ = (signed r s).2.errors.size := by rw [signed_of_no_sign hsign]
    _ ≤ (leftAssoc multiplicative? _ s).2.errors.size :=
      errors_le_leftAssoc hs rfl rfl (signed_follows hr)
    _ ≤ (leftAssoc additive? _ s).2.errors.size :=
      errors_le_leftAssoc hs rfl rfl hterm
    _ ≤ (comparand r s).2.errors.size := errors_le_leftAssoc hs rfl rfl hpiece
    _ ≤ (leftAssoc comparison? _ s).2.errors.size :=
      errors_le_leftAssoc hs rfl rfl (comparand_follows hr)
    _ ≤ (typeTest r s).2.errors.size :=
      errors_le_bind hs hcomparison fun _ => typeTests_follows rfl
    _ ≤ (leftAssoc conjunction? _ s).2.errors.size :=
      errors_le_leftAssoc hs rfl rfl (typeTest_follows hr)
    _ ≤ (leftAssoc disjunction? _ s).2.errors.size :=
      errors_le_leftAssoc hs rfl rfl hconjunct
    _ ≤ (leftAssoc piping? _ s).2.errors.size :=
      errors_le_leftAssoc hs rfl rfl hdisjunct
    _ ≤ (leftAssoc coalescing? _ s).2.errors.size :=
      errors_le_leftAssoc hs rfl rfl hpipe
    _ ≤ (expression r s).2.errors.size :=
      errors_le_bind hs hleft fun _ => assignment_follows hr rfl

end Errors

end Grammar

end ScriptLang
