import ScriptLang.Proofs.Parse.Malformed
import ScriptLang.Proofs.Parse.Tracking

/-!
# Steps through a script

The outcomes of a script are those of single steps, one after the other, up to the
end of the text (`ParseState.Yields`).  Every step takes a token, so the steps come
to the end, and the bound on their number is never met.

Steps from states that are paired have the same outcomes, up to places; and so have
many of them.
-/

namespace ScriptLang

/-- An outcome whose statement is moved. -/
def ParseOutcome.moved (φ : Position → Position)
    (o : ParseOutcome) : ParseOutcome :=
  { o with statement := o.statement.map (Stmt.moved φ) }

/-- An outcome that is moved nowhere is itself. -/
theorem ParseOutcome.moved_id (o : ParseOutcome) : o.moved id = o := by
  obtain ⟨_ | st, success⟩ := o
  · rfl
  · simp only [moved, Option.map_some, Stmt.moved_id]

theorem ParseOutcome.map_moved_id (os : List ParseOutcome) :
    os.map (moved id) = os := by
  rw [show moved id = id from funext moved_id, List.map_id]

namespace TokenSource

variable {σ : Type} [TokenSource σ] {s : σ}

/-- The state behind a statement, or behind the token that begins none. -/
def behind (s : σ) : σ :=
  if (Parse.statement (peek s).2).1.isNone &&
      taken (Parse.statement (peek s).2).2 == taken (peek s).2 then
    (bump (Parse.statement (peek s).2).2).2
  else (Parse.statement (peek s).2).2

/-- At the end of the text nothing is parsed. -/
theorem advance_of_eq (h : (peek s).1.kind = .endOfText) :
    advance s = (⟨none, true⟩, (peek s).2) := if_pos h

/-- Before the end of the text, a statement is parsed, and it is clean if no error
came up. -/
theorem advance_of_ne (h : (peek s).1.kind ≠ .endOfText) :
    advance s =
      (⟨(Parse.statement (peek s).2).1, (Parse.statement (peek s).2).1.isSome &&
      (findings (behind s)).errorCount == (findings (peek s).2).errorCount⟩,
        behind s) := if_neg h

end TokenSource

namespace ParseState

variable {s s' t t' : ParseState} {o : ParseOutcome} {os : List ParseOutcome}

/-- A walk leads on. -/
theorem Walk.leads {es : List Entry} (h : s.Walk es s') : s.Leads s' := by
  refine ⟨?_, h.seen_le, h.errors_le⟩
  have htaken := h.taken_eq
  omega

/-! ## One step -/

theorem atEnd_look (n : Nat) (s : ParseState) : (s.look n).atEnd = s.atEnd := rfl

/-- To look at a token twice is to look at it once. -/
theorem look_look (s : ParseState) : (s.look 1).look 1 = s.look 1 := by
  simp only [look, Nat.max_assoc, Nat.max_self]

/-- At the end of the text, `advance` only looks. -/
theorem advance_of_atEnd (h : s.atEnd = true) :
    s.advance = (⟨none, true⟩, s.look 1) := by
  rw [advance_eq]
  exact if_pos h

/-- The state behind a statement, or behind the token that begins none. -/
abbrev behind (s : ParseState) : ParseState := TokenSource.behind s

/-- Before the end of the text, `advance` parses a statement. -/
theorem advance_of_not_atEnd (h : s.atEnd = false) :
    s.advance = (⟨(Parse.statement (s.look 1)).1,
      (Parse.statement (s.look 1)).1.isSome && s.behind.errorCount ==
        (s.look 1).errorCount⟩, s.behind) :=
  TokenSource.advance_of_ne (of_decide_eq_false h)

/-- At the end of the text there is no next outcome. -/
theorem next?_of_atEnd (h : s.atEnd = true) : s.next? = (none, s.look 1) := by
  rw [next?_eq]
  exact if_pos h

/-- A step may as well look at its first token before it starts. -/
theorem advance_look (s : ParseState) : (s.look 1).advance = s.advance := by
  rw [advance_eq, advance_eq, look_look]

/-- Before the end of the text, the next outcome is the one of a statement. -/
theorem next?_of_not_atEnd (h : s.atEnd = false) :
    s.next? = (some s.advance.1, s.advance.2) := by
  rw [next?_eq]
  dsimp only
  rw [atEnd_look, h, advance_look]
  rfl

/-- A parse at the end of the text is done. -/
theorem outcomesUpTo_of_atEnd (h : s.atEnd = true) (fuel : Nat) :
    s.outcomesUpTo (fuel + 1) = ([], s.look 1) :=
  TokenSource.outcomesUpTo_of_none (next?_of_atEnd h) fuel

/-- A parse before the end of the text goes on behind a statement. -/
theorem outcomesUpTo_of_not_atEnd (h : s.atEnd = false) (fuel : Nat) :
    s.outcomesUpTo (fuel + 1) =
      (s.advance.1 :: (s.advance.2.outcomesUpTo fuel).1,
        (s.advance.2.outcomesUpTo fuel).2) :=
  TokenSource.outcomesUpTo_of_some (next?_of_not_atEnd h) fuel

/-- A statement leads on. -/
theorem statement_leads (s : ParseState) :
    (s.look 1).Leads (Parse.statement (s.look 1)).2 := by
  obtain ⟨es, hwalk, _⟩ := Parse.statement_writesAt (s.look 1)
  exact hwalk.leads

/-- A token that is skipped behind a statement leads on. -/
theorem statement_leads_behind (s : ParseState) :
    (Parse.statement (s.look 1)).2.Leads s.behind := by
  unfold behind TokenSource.behind
  split
  · exact (leads_look 1 _).trans (look_leads_take _)
  · exact Leads.refl _

/-- To parse a statement leads on. -/
theorem look_leads_advance (s : ParseState) : (s.look 1).Leads s.advance.2 := by
  cases hend : s.atEnd with
  | true =>
      rw [advance_of_atEnd hend]
      exact Leads.refl _
  | false =>
      rw [advance_of_not_atEnd hend]
      exact (statement_leads s).trans (statement_leads_behind s)

end ParseState

/-! ## Steps from paired states -/

namespace Pairing

open ParseState

variable {τ : Type} [TokenSource τ] {P : Pairing τ} [P.Lawful] {s t : ParseState}
  {s' : τ} {o : ParseOutcome} {os : List ParseOutcome}

theorem beq_add_right (a b n : Nat) : (a + n == b + n) = (a == b) := by
  rw [Bool.eq_iff_iff, beq_iff_eq, beq_iff_eq]
  exact Nat.add_right_cancel_iff

/-- Paired states come to the end of the text at the same time. -/
theorem kind_eq (hs : P.pairs s s') (hclear : P.clear (s.look 1)) :
    (TokenSource.peek s').1.kind = s.token.kind := by
  rw [(Lawful.peek hs hclear).2, Token.kind_moved]

/-- Paired states come to the end of the text together. -/
theorem atEnd_eq {P : Pairing ParseState} [P.Lawful] {s s' : ParseState}
    (hs : P.pairs s s') (hclear : P.clear (s.look 1)) : s'.atEnd = s.atEnd := by
  unfold atEnd
  rw [← kind_eq hs hclear]
  rfl

/-- Behind a statement, paired states are paired, and the statements correspond. -/
theorem behind_pairs (hs : P.pairs s s') (hclear : P.clear s.behind) :
    P.pairs s.behind (TokenSource.behind s') ∧
      (Parse.statement (TokenSource.peek s').2).1 =
        (Parse.statement (s.look 1)).1.map (Stmt.moved P.move) := by
  have hstatement := Lawful.clear_of_leads (statement_leads_behind s) hclear
  have hlook := Lawful.clear_of_leads (statement_leads s) hstatement
  have hpeek := (Lawful.peek hs hlook).1
  obtain ⟨hafter, hvalue, _⟩ := statement_pairs hpeek hstatement
  refine ⟨?_, hvalue⟩
  have hskip : ((Parse.statement (TokenSource.peek s').2).1.isNone &&
      TokenSource.taken (Parse.statement (TokenSource.peek s').2).2 ==
        TokenSource.taken (TokenSource.peek s').2) =
        ((Parse.statement (s.look 1)).1.isNone &&
          (Parse.statement (s.look 1)).2.taken == s.taken) := by
    rw [hvalue, Lawful.taken_eq hafter, Lawful.taken_eq hpeek, Option.isNone_map,
      beq_add_right]
    rfl
  unfold TokenSource.behind
  rw [hskip]
  by_cases htake : ((Parse.statement (s.look 1)).1.isNone &&
      (Parse.statement (s.look 1)).2.taken == s.taken) = true
  · have hbehind : s.behind = (Parse.statement (s.look 1)).2.take := if_pos htake
    rw [hbehind] at hclear ⊢
    rw [if_pos htake]
    exact (Lawful.bump hafter hclear).1
  · have hbehind : s.behind = (Parse.statement (s.look 1)).2 := if_neg htake
    rw [hbehind, if_neg htake]
    exact hafter

/-- A step from paired states. -/
theorem advance_pairs (hs : P.pairs s s') (hclear : P.clear s.advance.2) :
    P.pairs s.advance.2 (TokenSource.advance s').2 ∧
      (TokenSource.advance s').1 = s.advance.1.moved P.move := by
  have hlook := Lawful.clear_of_leads (look_leads_advance s) hclear
  have hs₁ := (Lawful.peek hs hlook).1
  have hend := kind_eq hs hlook
  cases hatEnd : s.atEnd with
  | true =>
      rw [of_decide_eq_true hatEnd] at hend
      rw [advance_of_atEnd hatEnd, TokenSource.advance_of_eq hend]
      exact ⟨hs₁, rfl⟩
  | false =>
      have hne : (TokenSource.peek s').1.kind ≠ .endOfText :=
        hend ▸ of_decide_eq_false hatEnd
      rw [advance_of_not_atEnd hatEnd] at hclear ⊢
      rw [TokenSource.advance_of_ne hne]
      obtain ⟨hafter, hvalue⟩ := behind_pairs hs hclear
      refine ⟨hafter, ?_⟩
      rw [hvalue, Lawful.errorCount_eq hafter hclear,
        Lawful.errorCount_eq hs₁ hlook, Option.isSome_map, beq_add_right]
      rfl

/-- At the end of the text, neither of two paired states has a next outcome. -/
theorem next?_pairs_of_atEnd (hs : P.pairs s s') (hend : s.atEnd = true)
    (hclear : P.clear (s.look 1)) :
    P.pairs (s.look 1) (TokenSource.next? s').2 ∧
      (TokenSource.next? s').1 = none := by
  have hkind : (TokenSource.peek s').1.kind = .endOfText :=
    (kind_eq hs hclear).trans (of_decide_eq_true hend)
  rw [TokenSource.next?_of_eq hkind]
  exact ⟨(Lawful.peek hs hclear).1, rfl⟩

/-- Before the end of the text, the next outcomes of two paired states
correspond. -/
theorem next?_pairs_of_not_atEnd (hs : P.pairs s s') (hend : s.atEnd = false)
    (hclear : P.clear s.advance.2) :
    P.pairs s.advance.2 (TokenSource.next? s').2 ∧
      (TokenSource.next? s').1 = some (s.advance.1.moved P.move) := by
  have hlook := Lawful.clear_of_leads (look_leads_advance s) hclear
  have hkind : (TokenSource.peek s').1.kind ≠ .endOfText := by
    rw [kind_eq hs hlook]
    exact of_decide_eq_false hend
  rw [← advance_look] at hclear ⊢
  obtain ⟨hafter, hvalue⟩ := advance_pairs (Lawful.peek hs hlook).1 hclear
  rw [TokenSource.next?_of_ne hkind]
  exact ⟨hafter, congrArg some hvalue⟩

end Pairing

/-! ## All steps -/

namespace ParseState

variable {s s' t t' : ParseState} {o : ParseOutcome} {os os' : List ParseOutcome}

/-- Some steps, with their outcomes. -/
inductive Yields : ParseState → List ParseOutcome → ParseState → Prop
  | refl (s : ParseState) : Yields s [] s
  | step {s t : ParseState} {os : List ParseOutcome} :
      s.atEnd = false → Yields s.advance.2 os t → Yields s (s.advance.1 :: os) t

/-- Outcomes of a parse that goes on. -/
theorem Yields.trans (h : s.Yields os t) (h' : t.Yields os' t') :
    s.Yields (os ++ os') t' := by
  induction h with
  | refl => exact h'
  | step hend _ ih => exact .step hend (ih h')

/-- The last of some steps. -/
theorem Yields.exists_last (h : s.Yields os t) (ho : os.getLast? = some o) :
    ∃ before s₁, s.Yields before s₁ ∧ s₁.atEnd = false ∧ s₁.advance = (o, t) := by
  induction h with
  | refl => cases ho
  | @step s t os hend h ih =>
      cases os with
      | nil =>
          cases h
          obtain rfl : s.advance.1 = o := Option.some.inj ho
          exact ⟨[], s, .refl s, hend, rfl⟩
      | cons o' os =>
          obtain ⟨before, s₁, hbefore, hend₁, hlast⟩ := ih (by simpa using ho)
          exact ⟨s.advance.1 :: before, s₁, .step hend hbefore, hend₁, hlast⟩

/-- To yield outcomes leads on. -/
theorem Yields.leads (h : s.Yields os t) : s.Leads t := by
  induction h with
  | refl => exact Leads.refl _
  | @step s t os _ _ ih =>
      exact ((leads_look 1 s).trans (look_leads_advance s)).trans ih

/-- Behind its outcomes, a parse stands between two tokens. -/
theorem Yields.between (h : s.Yields os t) (hs : s.Between) : t.Between := by
  induction h with
  | refl => exact hs
  | step _ _ ih => exact ih (advance_between hs)

/-- To yield outcomes is not to change the tokens that were given. -/
theorem Yields.entries_eq (h : s.Yields os t) : t.entries = s.entries := by
  induction h with
  | refl => rfl
  | @step s t os _ _ ih =>
      obtain ⟨es, hwalk⟩ := s.advance_walk
      exact ih.trans hwalk.entries_eq

/-- Steps from paired states. -/
theorem Yields.pairs {P : Pairing ParseState} [P.Lawful] (h : s.Yields os t)
    (hs : P.pairs s s') (hclear : P.clear t) :
    ∃ t', s'.Yields (os.map (ParseOutcome.moved P.move)) t' ∧ P.pairs t t' := by
  induction h generalizing s' with
  | refl => exact ⟨s', .refl s', hs⟩
  | @step s t os hend h ih =>
      have hadvance := Pairing.Lawful.clear_of_leads h.leads hclear
      obtain ⟨hafter, hvalue⟩ := Pairing.advance_pairs hs hadvance
      obtain ⟨t', ht', hpairs⟩ := ih hafter hclear
      refine ⟨t', ?_, hpairs⟩
      rw [List.map_cons, ← hvalue]
      refine .step ?_ ht'
      have hlook := Pairing.Lawful.clear_of_leads (look_leads_advance s) hadvance
      rw [Pairing.atEnd_eq hs hlook, hend]

/-- The outcomes up to the end of the text, on a source of tokens that goes with the
tokens at hand. -/
theorem Yields.outcomesUpTo_pairs {τ : Type} [TokenSource τ] {P : Pairing τ}
    [P.Lawful] {s' : τ} (h : s.Yields os t) (hend : t.atEnd = true)
    (hs : P.pairs s s') (hclear : P.clear (t.look 1)) {fuel : Nat}
    (hfuel : os.length < fuel) :
    P.pairs (t.look 1) (TokenSource.outcomesUpTo fuel s').2 ∧
      (TokenSource.outcomesUpTo fuel s').1 =
        os.map (ParseOutcome.moved P.move) := by
  induction h generalizing s' fuel with
  | refl s =>
      obtain ⟨fuel, rfl⟩ : ∃ k, fuel = k + 1 := ⟨fuel - 1, by omega⟩
      obtain ⟨hafter, hnone⟩ := Pairing.next?_pairs_of_atEnd hs hend hclear
      rw [TokenSource.outcomesUpTo_of_none (Prod.ext hnone rfl)]
      exact ⟨hafter, rfl⟩
  | @step s t os hmore h ih =>
      obtain ⟨fuel, rfl⟩ : ∃ k, fuel = k + 1 := ⟨fuel - 1, by omega⟩
      have hadvance :=
        Pairing.Lawful.clear_of_leads (h.leads.trans (leads_look 1 t)) hclear
      obtain ⟨hafter, hsome⟩ := Pairing.next?_pairs_of_not_atEnd hs hmore hadvance
      obtain ⟨hall, hmoved⟩ := ih hend hafter hclear (Nat.lt_of_succ_lt_succ hfuel)
      rw [TokenSource.outcomesUpTo_of_some (Prod.ext hsome rfl), hmoved]
      exact ⟨hall, rfl⟩

end ParseState

end ScriptLang
