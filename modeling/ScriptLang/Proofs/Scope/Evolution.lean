import Mathlib.Logic.Relation
import ScriptLang.Proofs.Scope.Frames

/-!
# Stores over time

Between two points of a run the store changes by its own operations and by nothing
else: frames are pushed and copied, names are declared and bound to parameters, and
variables are assigned to.  `Store.Evolves` is any number of these (`release` is
none of them; nothing in a run releases frames).

Two things are never undone.  A name that is bound is bound to a variable that has
been given out, and a constant keeps its value from when it was declared on.
-/

namespace ScriptLang

namespace Store

/-- One operation on a store, on whichever stack. -/
inductive Step : Store → Store → Prop
  | push (kind : FrameKind) (stack : Stack) (s : Store) :
      Step s (s.push kind stack).2
  | declare (name : String) (value : Value) (const : Bool)
      (stack : Stack) (s : Store) :
      Step s (s.declare name value const stack).2
  | override (name : String) (value : Value) (const : Bool)
      (stack : Stack) (s : Store) :
      Step s (s.override name value const stack).2
  | assign (name : String) (value : Value) (stack : Stack) (s : Store) :
      Step s (s.assign name value stack).2
  | settle (stack : Stack) (s : Store) : Step s (s.settle stack).2

/-- Any number of operations, one after the other. -/
abbrev Evolves : Store → Store → Prop := Relation.ReflTransGen Step

/-- An operation adds a frame with variables that are there, binds a new variable in
a frame, changes the value of a variable that is no constant, or does nothing. -/
theorem Step.cases {s t : Store} (h : s.Step t) :
    t = s ∨
    (∃ frame, t = (s.addFrame frame).2 ∧
      ∀ name cell, frame.find? name = some cell → ∃ i,
        (s.frame i).find? name = some cell) ∨
    (∃ index name value const, t = s.bindNew index name value const) ∨
    ∃ index value, (s.cell index).const = false ∧
      t = { s with cells := s.cells.modify index fun v => { v with value } } := by
  cases h with
  | push kind stack =>
      refine .inr (.inl ⟨⟨kind, []⟩, rfl, ?_⟩)
      intro name cell hfound
      cases hfound
  | declare name value const stack =>
      rcases declare_cases name value const stack
        s with ⟨fault, heq⟩ | ⟨top, outer, _, _, heq⟩
      · exact .inl (by rw [heq])
      · exact .inr (.inr (.inl ⟨top, name, value, const, by rw [heq]⟩))
  | override name value const stack =>
      rcases override_cases name value const stack
        s with ⟨fault, heq⟩ | ⟨top, outer, _, heq⟩
      · exact .inl (by rw [heq])
      · exact .inr (.inr (.inl ⟨top, name, value, const, by rw [heq]⟩))
  | assign name value stack =>
      unfold Store.assign
      cases s.resolve? name stack with
      | none => exact .inl rfl
      | some index =>
          by_cases hconst : (s.cell index).const = true
          · exact .inl (by simp [hconst])
          · have hvariable : (s.cell index).const = false := by simpa using hconst
            exact .inr (.inr (.inr ⟨index, value, hvariable, by simp [hconst]⟩))
  | settle stack =>
      cases stack with
      | nil => exact .inl rfl
      | cons top outer =>
          exact .inr
            (.inl ⟨s.frame top, rfl, fun name cell hfound => ⟨top, hfound⟩⟩)

/-! ## What an operation never undoes -/

theorem Step.cells_le {s t : Store} (h : s.Step t) :
    s.cells.size ≤ t.cells.size := by
  rcases h.cases with rfl | ⟨frame, rfl, _⟩ | ⟨index, name, value, const,
    rfl⟩ | ⟨index, value, _, rfl⟩
  · exact Nat.le_refl _
  · exact Nat.le_refl _
  · rw [size_cells_bindNew]
    exact Nat.le_succ _
  · simp

theorem Step.bound {s t : Store} (h : s.Step t) (hbound : s.Bound) : t.Bound := by
  rcases h.cases with rfl | ⟨frame, rfl, hframe⟩ | ⟨index, name, value, const,
    rfl⟩ | ⟨index, value, _, rfl⟩
  · exact hbound
  · apply hbound.addFrame
    intro name cell hfound
    obtain ⟨i, hi⟩ := hframe name cell hfound
    exact hbound i name cell hi
  · exact hbound.bindNew index name value const
  · intro i name cell hfound
    have hlt := hbound i name cell hfound
    simpa using hlt

/-- A variable that may not be assigned to stays as it is. -/
theorem Step.cell_eq {s t : Store} (h : s.Step t) {c : Nat} (hc : c < s.cells.size)
    (hconst : (s.cell c).const = true) : t.cell c = s.cell c := by
  rcases h.cases with rfl | ⟨frame, rfl, _⟩ | ⟨index, name, value, const,
    rfl⟩ | ⟨index, value, hvariable, rfl⟩
  · rfl
  · rfl
  · rw [cell_bindNew, if_neg (Nat.ne_of_lt hc)]
  · rw [cell_assigned, if_neg]
    rintro ⟨rfl, _⟩
    rw [hconst] at hvariable
    cases hvariable

namespace Evolves

variable {s t : Store}

theorem cells_le (h : s.Evolves t) : s.cells.size ≤ t.cells.size := by
  induction h with
  | refl => exact Nat.le_refl _
  | tail _ hstep ih => exact Nat.le_trans ih hstep.cells_le

theorem bound (h : s.Evolves t) (hbound : s.Bound) : t.Bound := by
  induction h with
  | refl => exact hbound
  | tail _ hstep ih => exact hstep.bound ih

/-- Whatever happens to a store, a constant in it keeps its value. -/
theorem cell_eq (h : s.Evolves t) {c : Nat} (hc : c < s.cells.size)
    (hconst : (s.cell c).const = true) :
    t.cell c = s.cell c := by
  induction h with
  | refl => rfl
  | @tail t u hevolves hstep ih =>
      have hlt : c < t.cells.size := Nat.lt_of_lt_of_le hc (cells_le hevolves)
      have hconst' : (t.cell c).const = true := by
        rw [ih]
        exact hconst
      rw [hstep.cell_eq hlt hconst', ih]

end Evolves

end Store

end ScriptLang
