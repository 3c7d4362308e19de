import ScriptLang.Proofs.Parse.Malformed
import ScriptLang.Proofs.Parse.Tracking

/-!
# What a clean parse hands to evaluation

A statement counts as cleanly parsed if no error was counted while it was parsed.
Evaluation can make sense of every such statement: the rules of the grammar build
nothing else without raising an error.
-/

namespace ScriptLang

/-- A parse beside itself, up to where it raises an error. -/
def Pairing.flawless (errors : Nat) : Pairing ParseState where
  strict := True
  even := True
  total := 0
  ahead := 0
  surplus := 0
  move := id
  clear s := s.errors.size ≤ errors
  pairs s s' := s' = s ∧ s.errors.size = errors

namespace Pairing

/-- Raising an error ends the comparison. -/
theorem not_clear_of_flawless {errors : Nat} {s s' : ParseState}
    (hs : (flawless errors).pairs s s') (cause : ParseError) (position : Position) :
    ¬(flawless errors).clear (s.raised cause position) := by
  intro hclear
  have hsize : s.errors.size = errors := hs.2
  have hpushed : s.errors.size + 1 ≤ errors := by rwa [← Array.size_push]
  omega

instance (errors : Nat) : (flawless errors).LawfulAtHand where
  move_later _ _ := rfl
  move_earlier _ _ := rfl
  clear_of_leads hleads hclear := Nat.le_trans hleads.errors_le hclear
  not_clear_raised cause position hs _ := not_clear_of_flawless hs cause position
  raised cause position hs hclear :=
    absurd hclear (not_clear_of_flawless hs cause position)
  warned _ _ hs := ⟨by rw [hs.1]; rfl, hs.2⟩
  look _ hs _ := ⟨by rw [hs.1], hs.2⟩
  take hs _ := ⟨by rw [hs.1], hs.2⟩
  token_eq hs _ := by rw [hs.1]; rfl
  secondKind_eq hs _ := by rw [hs.1]
  taken_eq hs := by rw [hs.1]; rfl
  errorCount_eq hs _ := by rw [hs.1]; rfl
  previousEnd_eq hs := by rw [hs.1]; rfl
  length_eq _ hs := by rw [hs.1]
  length_le hs := Nat.le_of_eq (by rw [hs.1])
  total_eq h := absurd trivial h

end Pairing

/-- A statement that is parsed without an error can be performed. -/
theorem Parse.statement_evaluable {s s' : ParseState} {st : Stmt}
    (h : Parse.statement s = (some st, s'))
    (herrors : s'.errors.size = s.errors.size) : st.Evaluable := by
  have hclear : (Pairing.flawless s.errors.size).clear (Parse.statement s).2 := by
    rw [h]
    exact Nat.le_of_eq herrors
  have hs : (Pairing.flawless s.errors.size).pairs s s := ⟨rfl, rfl⟩
  obtain ⟨_, _, hbuilt⟩ := Pairing.statement_pairs hs hclear
  exact (hbuilt st (by rw [h])).2 trivial

namespace ParseState

/-- A step that counts as successful yields a statement that can be performed. -/
theorem advance_evaluable {s : ParseState} {st : Stmt}
    (h : s.advance.1 = ⟨some st, true⟩) :
    st.Evaluable := by
  have hst : s.advance.1.statement = some st := by rw [h]
  have hsuccess : s.advance.1.success = true := by rw [h]
  obtain ⟨_, hrun, hcount⟩ := advance_statement hst
  rw [hsuccess] at hcount
  obtain ⟨es, hwalk, _⟩ := Parse.statement_writesAt (s.look 1)
  rw [hrun] at hwalk
  obtain ⟨herrors, _⟩ := hwalk.of_errorCount_eq (eq_of_beq hcount.symm)
  exact Parse.statement_evaluable hrun herrors

/-- Every statement of a text that parsed cleanly can be performed. -/
theorem outcomes_evaluable (limit : Nat) (source : String) {st : Stmt}
    (hst : ⟨some st, true⟩ ∈ (ParseState.ofText limit source).outcomes.1) :
    st.Evaluable := by
  obtain ⟨s, _, _, hadvance⟩ :=
    exists_advance_of_mem_outcomesUpTo (ofEntries_between _) hst
  exact advance_evaluable hadvance

end ParseState

end ScriptLang
