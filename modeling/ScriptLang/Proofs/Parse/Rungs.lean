import ScriptLang.Parse.Grammar
import ScriptLang.Proofs.Parse.Walk
import ScriptLang.Proofs.Tree.Ladder
import ScriptLang.Proofs.Tree.Writing

/-!
# Rungs as parsers

A parser climbs to a rung if the trees it builds stand there or higher, respect the
ladder, and are written by the tokens it took.  One rung of left-associative
operators on top of another is the same argument for all of them
(`leftAssoc_climbs`); which tokens stand for the operators of a rung is decided once
for each (`IsRung`).

Some parsers look at two tokens before they take one.  They rely on the expression
behind them to take the first, which it does when that token is `IsEager`.
-/

namespace ScriptLang

/-- A tree of at least a given rung whose operators all respect the ladder, and
which a list of lexemes writes. -/
structure Expr.Spells (k : Nat) (e : Expr) (l : List Lexeme) : Prop where
  write_eq : e.write = l
  respects : e.Respects
  rung_le : k ≤ e.rung

/-- What is written on a rung is written on every lower one. -/
theorem Expr.Spells.mono {k j : Nat} {e : Expr} {l : List Lexeme} (h : e.Spells k l)
    (hj : j ≤ k) :
    e.Spells j l := ⟨h.write_eq, h.respects, Nat.le_trans hj h.rung_le⟩

/-- Whether a token has to be taken by every expression that starts with it. -/
def TokenKind.IsEager (kind : TokenKind) : Prop :=
  kind = .identifier ∨ kind = .symbol .leftParen

/-- A parser that takes a token whenever the next one is eager. -/
def Parse.Eager (n : Nat) (p : Parse α) : Prop :=
  ∀ s, s.rest.length < n → s.token.kind.IsEager → s.taken < (p s).2.taken

/-- A parser that takes a token at once, with another one behind it. -/
theorem Parse.Eager.bind {n : Nat} {p : Parse β} {f : β → Parse α}
    {V : β → List Lexeme → Prop} {W : β → α → List Lexeme → Prop} (hp : Eager n p)
    (hwrites : Writes n p V) (hf : ∀ b, Writes n (f b) (W b)) :
    Eager n (p >>= f) := by
  intro s hs heager
  have htaken := hp s hs heager
  obtain ⟨es, hwalk, _⟩ := hwrites s hs
  rcases hrun : p s with ⟨result, s'⟩
  rw [hrun] at htaken hwalk
  cases result with
  | none =>
      rw [bind_of_none hrun]
      exact htaken
  | some b =>
      rw [bind_of_some hrun]
      have hle := (hf b s' (Nat.lt_of_le_of_lt hwalk.length_le hs)).taken_le
      exact Nat.lt_of_lt_of_le htaken hle

namespace Grammar

open Parse ParseState

variable {n : Nat}

/-! ## Left-associative operators -/

/-- The operators of a rung: each is written by the one token that stands for it,
stands on the rung, and is left associative. -/
def IsRung (k : Nat) (operator? : TokenKind → Option Operator) : Prop :=
  ∀ kind : TokenKind, (operator? kind).all (fun o =>
    kind.lexeme?.map (fun x => [x]) = some o.lexemes ∧ o.rung = k ∧
      o.isLeftAssociative = true) = true

instance (k : Nat) (operator? : TokenKind → Option Operator) :
    Decidable (IsRung k operator?) :=
  inferInstanceAs (Decidable (∀ _ : TokenKind, _ = true))

/-- The operators of a rung are written as their tokens. -/
theorem IsRung.operator {k : Nat} {operator? : TokenKind → Option Operator}
    (h : IsRung k operator?) {x : Lexeme} {o : Operator}
    (ho : operator? x.kind = some o) :
    x ≠ .endOfText ∧ o.lexemes = [x] ∧ o.rung = k ∧ o.isLeftAssociative = true := by
  have hkind := h x.kind
  rw [ho, Option.all_some, decide_eq_true_eq] at hkind
  obtain ⟨hlexemes, hrung, hleft⟩ := hkind
  obtain ⟨y, hy, hlist⟩ := Option.map_eq_some_iff.mp hlexemes
  obtain rfl := Lexeme.eq_of_kind rfl hy
  exact ⟨TokenKind.ne_endOfText_of_lexeme? hy, hlist.symm, hrung, hleft⟩

/-- The rungs of the ladder and of patterns. -/
theorem coalescing_isRung : IsRung 4 coalescing? := by decide

/-- The rung of piping. -/
theorem piping_isRung : IsRung 5 piping? := by decide

/-- The rung of disjunction. -/
theorem disjunction_isRung : IsRung 6 disjunction? := by decide

/-- The rung of conjunction. -/
theorem conjunction_isRung : IsRung 7 conjunction? := by decide

/-- The rung of comparisons. -/
theorem comparison_isRung : IsRung 9 comparison? := by decide

/-- The rung of concatenation. -/
theorem concatenation_isRung : IsRung 10 concatenation? := by decide

/-- The rung of sums. -/
theorem additive_isRung : IsRung 11 additive? := by decide

/-- The rung of products. -/
theorem multiplicative_isRung : IsRung 12 multiplicative? := by decide

/-- The rung on which all of several patterns have to match. -/
theorem patternAnd_isRung : IsRung 1 patternAnd? := by decide

/-- The rung on which one of several patterns has to match. -/
theorem patternOr_isRung : IsRung 0 patternOr? := by decide

/-- More operands of the next rung, joined from the left. -/
theorem rungLoop_writes {k : Nat} {operator? : TokenKind → Option Operator}
    {operand : Parse Expr} (hrung : IsRung k operator?)
    (hoperand : Writes n operand (Expr.Spells (k + 1))) (first : Expr) :
    Writes n (repeating (fun left => do
      match operator? (← peekKind) with
      | some operator =>
        let _ ← bump
        return .again (Expr.binary left operator (← operand))
      | none => return .done left) first) fun e l => ∀ l₀, first.Spells k l₀ →
        e.Spells k (l₀ ++ l) := by
  refine Writes.repeating (J := Expr.Spells k) ?_ first
  intro left s hs
  apply WritesAt.peekKind
  split
  · rename_i operator hoperator
    obtain ⟨hend, hlexemes, rfl, hleftAssociative⟩ := hrung.operator hoperator
    apply WritesAt.bump (s := s.look 1) rfl hend (Nat.lt_succ_of_lt hs)
    refine hoperand.bind fun right =>
      Writes.yield fun l hright => ⟨by simp, fun l₀ hleft => ?_⟩
    refine ⟨?_, .binary ?_ hleft.respects hright.respects, Nat.le_refl _⟩
    · have hx : operator.lexemes = [(s.look 1).token.lexeme] := hlexemes
      simp [Expr.binary, Expr.write, Node.write, hx, hleft.write_eq,
        hright.write_eq]
    · exact (Operator.joins_iff hleftAssociative left right).mpr
        ⟨hleft.rung_le, hright.rung_le⟩
  · exact WritesAt.yield fun l₀ h => by simpa using h

/-- A parser of what stands on a rung or higher, which takes a token where it has
to. -/
structure Climbs (n k : Nat) (p : Parse Expr) : Prop where
  writes : Writes n p (Expr.Spells k)
  eager : Eager n p

/-- A parser that climbs to a rung, with what goes on from there. -/
theorem Climbs.bind {j k : Nat} {p : Parse Expr} {f : Expr → Parse Expr}
    (hp : Climbs n j p)
    (hf : ∀ e, Writes n (f e) fun a l =>
      ∀ l₀, e.Spells j l₀ → a.Spells k (l₀ ++ l)) :
    Climbs n k (p >>= f) :=
  ⟨hp.writes.bind hf, hp.eager.bind hp.writes hf⟩

/-- A level of operators writes what it reads. -/
theorem leftAssoc_writes {k : Nat} {operator? : TokenKind → Option Operator}
    {operand : Parse Expr} (hrung : IsRung k operator?)
    (hoperand : Writes n operand (Expr.Spells (k + 1))) :
    Writes n (leftAssoc operator? operand) (Expr.Spells k) := by
  refine hoperand.bind fun first => (rungLoop_writes hrung hoperand first).imp ?_
  exact fun e l h l₀ hfirst => h l₀ (hfirst.mono (Nat.le_succ k))

/-- A level of operators climbs to its rung. -/
theorem leftAssoc_climbs {k : Nat} {operator? : TokenKind → Option Operator}
    {operand : Parse Expr} (hrung : IsRung k operator?)
    (hoperand : Climbs n (k + 1) operand) :
    Climbs n k (leftAssoc operator? operand) where
  writes := leftAssoc_writes hrung hoperand.writes
  eager := hoperand.eager.bind hoperand.writes fun first =>
    rungLoop_writes hrung hoperand.writes first

/-! ## Type tests -/

/-- A type is written with its keyword. -/
theorem typeName?_eq_some {t : Token} {target : TypeName}
    (h : typeName? t.kind = some target) :
    t.lexeme = .keyword target.keyword := by
  have hkind : t.lexeme.kind = .keyword target.keyword := by
    unfold Token.kind at h
    unfold typeName? at h
    split at h <;> cases h <;> assumption
  exact Lexeme.eq_of_kind hkind rfl

/-- A type, where only a type can stand. -/
theorem typeOperand_writes : Writes n typeOperand fun e l =>
    e.Spells 16 l ∧ ∃ target, e.node = .type target := by
  intro s hs
  apply WritesAt.peek
  split
  · rename_i target htarget
    refine WritesAt.bump (typeName?_eq_some htarget) (by simp)
      (Nat.lt_succ_of_lt hs) ?_
    exact Writes.yield ⟨⟨rfl, .type, Nat.le_refl 16⟩, target, rfl⟩
  · exact raise_fail_writesAt _ _

/-- Type tests, joined from the left. -/
theorem typeTests_writes (first : Expr) :
    Writes n (repeating (fun left => do
      if ← eat (.keyword .is) then
        let operator := if ← eat (.keyword .not) then Operator.isNot else .is
        return .again (Expr.binary left operator (← typeOperand))
      else return .done left) first) fun e l => ∀ l₀, first.Spells 8 l₀ →
        e.Spells 8 (l₀ ++ l) := by
  refine Writes.repeating (J := Expr.Spells 8) ?_ first
  intro left
  refine Writes.eat (k := n) rfl (Nat.le_succ n) ?_ ?_
  · refine (Writes.flag rfl).bind fun negated =>
      typeOperand_writes.bind fun target => Writes.yield ?_
    rintro l ⟨htarget, htype⟩ l₁ rfl
    refine ⟨by simp, fun l₀ hleft =>
      ⟨?_, .binary ?_ hleft.respects htarget.respects, ?_⟩⟩
    · cases negated <;>
        simp [Expr.binary, Expr.write, Node.write, Operator.lexemes, hleft.write_eq,
          htarget.write_eq]
    · cases negated <;> exact ⟨hleft.rung_le, htype⟩
    · cases negated <;> exact Nat.le_refl 8
  · exact Writes.yield fun l₀ h => by simpa using h

/-- A name or a parenthesis begins a call or a member. -/
theorem eager_lexeme {t : Token} (h : t.kind.IsEager) :
    (∃ name, t.lexeme = .identifier name) ∨ t.lexeme = .symbol .leftParen := by
  rcases h with h | h
  · unfold Token.kind at h
    cases hlexeme : t.lexeme with
    | identifier name => exact .inl ⟨name, rfl⟩
    | _ =>
        rw [hlexeme] at h
        cases h
  · exact .inr (Lexeme.eq_of_kind h rfl)

end Grammar

end ScriptLang
