import Mathlib.Data.List.Forall2
import ScriptLang.Proofs.Parse.Concatenation
import ScriptLang.Proofs.Source.Order

/-!
# The same tokens at other places

Parsers compare places in one way only: they take the earlier or the later of two.
So when the tokens of a script stand elsewhere, in the same order, and as many of
them are malformed, the script is parsed to the same trees at the other places
(`ParseState.Relocates.outcomes`).
-/

namespace ScriptLang

/-! ## States of two parses -/

/-- The same token at another place, with as many errors noted on it. -/
structure Entry.Relocates (φ : Position → Position) (e e' : Entry) : Prop where
  token_eq : e'.token = e.token.moved φ
  errors_eq : (e'.notes.filterMap Notes.error).length =
    (e.notes.filterMap Notes.error).length

namespace ParseState

/-- Parses that have come equally far, on the same tokens at other places. -/
structure Relocates (φ : Position → Position) (s s' : ParseState) : Prop where
  entries : List.Forall₂ (Entry.Relocates φ) s.entries s'.entries
  rest : List.Forall₂ (Entry.Relocates φ) s.rest s'.rest
  seen_eq : s'.seen = s.seen
  taken_eq : s'.taken = s.taken
  previousEnd_eq : s'.previousEnd = φ s.previousEnd
  errors_eq : s'.errors = s.errors.map (Located.moved φ)
  warnings_eq : s'.warnings = s.warnings.map (Located.moved φ)

variable {φ : Position → Position} {s s' : ParseState}

/-- At the beginning, parses of the same tokens elsewhere. -/
theorem Relocates.ofEntries {es es' : List Entry}
    (h : List.Forall₂ (Entry.Relocates φ) es es')
    (hφ : φ Position.start = Position.start) :
    (ofEntries es).Relocates φ (ofEntries es') :=
  ⟨h, h, rfl, rfl,
    hφ.symm, by simp [ParseState.ofEntries], by simp [ParseState.ofEntries]⟩

/-- The next token is the same one elsewhere. -/
theorem Relocates.token_eq (h : s.Relocates φ s') : s'.token = s.token.moved φ := by
  unfold token
  have hrest := h.rest
  generalize s.rest = rest at hrest
  generalize s'.rest = rest' at hrest
  cases hrest with
  | nil =>
      simp only [h.previousEnd_eq]
      rfl
  | cons he _ => exact he.token_eq

/-- The token behind it is of the same kind. -/
theorem Relocates.secondKind_eq (h : s.Relocates φ s') :
    s'.secondKind = s.secondKind := by
  unfold secondKind
  have hrest := h.rest
  generalize s.rest = rest at hrest
  generalize s'.rest = rest' at hrest
  cases hrest with
  | nil => rfl
  | cons _ htail =>
      cases htail with
      | nil => rfl
      | cons he _ =>
          show Token.kind _ = Token.kind _
          rw [he.token_eq, Token.kind_moved]

/-- To look ahead in both parses. -/
theorem Relocates.look (h : s.Relocates φ s') (n : Nat) :
    (s.look n).Relocates φ (s'.look n) := by
  refine { h with seen_eq := ?_ }
  simp only [ParseState.look, h.seen_eq, h.taken_eq]

/-- To take a token in both parses. -/
theorem Relocates.take (h : s.Relocates φ s') : s.take.Relocates φ s'.take where
  entries := h.entries
  rest := by
    have hrest := h.rest
    simp only [ParseState.take]
    generalize s.rest = rest at hrest
    generalize s'.rest = rest' at hrest
    cases hrest with
    | nil => exact .nil
    | cons _ htail => exact htail
  seen_eq := by simp only [ParseState.take, h.seen_eq, h.taken_eq]
  taken_eq := by simp only [ParseState.take, h.taken_eq]
  previousEnd_eq := by
    simp only [ParseState.take, h.token_eq]
    rfl
  errors_eq := h.errors_eq
  warnings_eq := h.warnings_eq

/-- To raise an error in both parses. -/
theorem Relocates.raised (h : s.Relocates φ s') (cause : ParseError)
    (position : Position) :
    (s.raised cause position).Relocates φ (s'.raised cause (φ position)) := by
  refine { h with errors_eq := ?_ }
  simp only [ParseState.raised, h.errors_eq, Array.map_push]
  rfl

/-- To warn in both parses. -/
theorem Relocates.warned (h : s.Relocates φ s') (cause : ParseWarning)
    (position : Position) :
    (s.warned cause position).Relocates φ (s'.warned cause (φ position)) := by
  refine { h with warnings_eq := ?_ }
  simp only [ParseState.warned, h.warnings_eq, Array.map_push]
  rfl

/-- The same tokens elsewhere have as many errors. -/
theorem length_errors_eq {es es' : List Entry}
    (h : List.Forall₂ (Entry.Relocates φ) es es') :
    ((es'.flatMap Entry.notes).filterMap Notes.error).length =
      ((es.flatMap Entry.notes).filterMap Notes.error).length := by
  induction h with
  | nil => rfl
  | cons he _ ih =>
      simp only [List.flatMap_cons, List.filterMap_append, List.length_append,
        he.errors_eq, ih]

/-- Both parses have counted as many errors. -/
theorem Relocates.errorCount_eq (h : s.Relocates φ s') :
    s'.errorCount = s.errorCount := by
  unfold errorCount lexicalErrors notes
  rw [h.errors_eq, Array.size_map, h.seen_eq,
    length_errors_eq (List.forall₂_take _ h.entries)]

end ParseState

/-! ## Parses -/

/-- Parses of the same tokens at other places go together to the end. -/
def Pairing.relocated (φ : Position → Position) : Pairing ParseState where
  strict := False
  even := True
  total := 0
  ahead := 0
  surplus := 0
  move := φ
  clear _ := True
  pairs := ParseState.Relocates φ

/-- Parses of the same tokens elsewhere keep up with each other. -/
theorem Pairing.relocated_lawful {φ : Position → Position}
    (hφ : Position.KeepsOrder φ) :
    (relocated φ).LawfulAtHand where
  move_later := hφ.later
  move_earlier := hφ.earlier
  clear_of_leads _ _ := trivial
  not_clear_raised _ _ _ h := h.elim
  raised cause position hs _ := hs.raised cause position
  warned cause position hs := hs.warned cause position
  look n hs _ := hs.look n
  take hs _ := hs.take
  token_eq hs _ := hs.token_eq
  secondKind_eq hs _ := hs.secondKind_eq
  taken_eq hs := hs.taken_eq
  errorCount_eq hs _ := hs.errorCount_eq
  previousEnd_eq hs := hs.previousEnd_eq
  length_eq _ hs := hs.rest.length_eq.symm
  length_le hs := Nat.le_of_eq hs.rest.length_eq
  total_eq h := absurd trivial h

/-- The same tokens at other places, in the same order, are parsed to the same trees
at these places. -/
theorem ParseState.Relocates.outcomes {φ : Position → Position}
    (hφ : Position.KeepsOrder φ) {s s' : ParseState} (h : s.Relocates φ s') :
    s'.outcomes.1 = s.outcomes.1.map (ParseOutcome.moved φ) ∧
      s.outcomes.2.Relocates φ s'.outcomes.2 := by
  have hlawful := Pairing.relocated_lawful hφ
  obtain ⟨t, hyields, hatEnd, hstate⟩ := s.outcomes_yields
  obtain ⟨t', hyields', hpairs⟩ :=
    hyields.pairs (P := Pairing.relocated φ) h trivial
  have hatEnd' : t'.atEnd = true := (Pairing.atEnd_eq hpairs trivial).trans hatEnd
  have houtcomes := hyields'.outcomes_eq hatEnd'
  rw [houtcomes, hstate]
  exact ⟨rfl, hpairs.look 1⟩

end ScriptLang
