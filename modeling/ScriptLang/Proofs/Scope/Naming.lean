import Mathlib.Data.List.Induction
import ScriptLang.Proofs.Scope.Snapshots

/-!
# One name for a variable

Frames are copied and stacks are copied, so one variable can be bound in any number
of frames.  But a variable is bound under a name only when it is made, and a copy of
a frame binds it under the same name again.  So whatever is done to a stack and its
copies, no variable ever goes by two names (`Family.ofHistory_oneName`).

An assignment changes a single variable.  It can be seen only through the name that
it was made by, and on another stack only if this name means the same variable there
(`Family.assign_seen_by_sharers`).
-/

namespace ScriptLang

namespace Store

variable {s t : Store}

/-- Every variable goes by one name, in whichever frames it is bound. -/
def OneName (s : Store) : Prop := ∀ i j name other cell,
  (s.frame i).find? name = some cell →
    (s.frame j).find? other = some cell → name = other

/-- A new variable changes what no other name means, in no frame. -/
theorem find?_bindNew_of_ne (s : Store) (top index : Nat) {name other : String}
    (value : Value) (const : Bool) (h : other ≠ name) :
    ((s.bindNew top name value const).frame index).find? other =
      (s.frame index).find? other := by
  by_cases htop : index = top
  · by_cases hlt : index < s.frames.size
    · subst htop
      rw [frame_bindNew_self s name value const hlt, Frame.find?_bind_of_ne _ _ h]
    · have hle : s.frames.size ≤ index := Nat.not_lt.mp hlt
      rw [find?_eq_none_of_le hle,
        find?_eq_none_of_le (by rw [size_bindNew]; exact hle)]
  · rw [frame_bindNew_of_ne s name value const htop]

theorem OneName.addFrame (h : s.OneName) {frame : Frame}
    (hframe : ∀ name cell, frame.find? name = some cell → ∃ i,
      (s.frame i).find? name = some cell) :
    (s.addFrame frame).2.OneName := by
  -- What the new frame binds is bound under the same name in another one.
  have hold : ∀ i name cell, ((s.addFrame frame).2.frame i).find? name = some cell →
      ∃ j, (s.frame j).find? name = some cell := by
    intro i name cell hfound
    by_cases hlt : i < s.frames.size
    · rw [frame_addFrame_of_lt frame hlt] at hfound
      exact ⟨i, hfound⟩
    · by_cases heq : i = s.frames.size
      · rw [heq, frame_addFrame_self] at hfound
        exact hframe name cell hfound
      · rw [find?_eq_none_of_le (by rw [size_addFrame]; omega)] at hfound
        cases hfound
  intro i j name other cell hname hother
  obtain ⟨i', hname'⟩ := hold i name cell hname
  obtain ⟨j', hother'⟩ := hold j other cell hother
  exact h i' j' name other cell hname' hother'

theorem OneName.bindNew (h : s.OneName) (hbound : s.Bound) (top : Nat)
    (name : String) (value : Value) (const : Bool) :
    (s.bindNew top name value const).OneName := by
  -- A variable with another name is not the new one, so it had that name before.
  have hold : ∀ {i j first second cell}, first ≠ name →
      ((s.bindNew top name value const).frame i).find? first = some cell →
      ((s.bindNew top name value const).frame j).find? second = some cell →
        first = second := by
    intro i j first second cell hne hfirst hsecond
    rw [find?_bindNew_of_ne s top i value const hne] at hfirst
    have hlt := hbound i first cell hfirst
    rcases find?_bindNew hsecond with heq | hsecond
    · omega
    · exact h i j first second cell hfirst hsecond
  intro i j first second cell hfirst hsecond
  by_cases hne : first = name
  · by_cases hne' : second = name
    · rw [hne, hne']
    · exact (hold hne' hsecond hfirst).symm
  · exact hold hne hfirst hsecond

theorem Step.oneName (hstep : s.Step t) (hbound : s.Bound)
    (h : s.OneName) : t.OneName := by
  rcases hstep.cases with rfl | ⟨frame, rfl, hframe⟩ | ⟨index, name, value, const,
    rfl⟩ | ⟨index, value, _, rfl⟩
  · exact h
  · exact h.addFrame hframe
  · exact h.bindNew hbound index name value const
  · exact h

theorem OneName.release (h : s.OneName) : s.release.OneName := by
  intro i j name other cell hname hother
  rw [find?_release] at hname hother
  grind [OneName]

/-! ## Assignments -/

/-- An assignment that is not refused changes the value of one variable. -/
theorem assign_ok {name : String} {value : Value} {stack : Stack}
    (h : (s.assign name value stack).1 = .ok ()) :
    ∃ cell, s.resolve? name stack = some cell ∧
      (s.assign name value stack).2 =
        { s with cells := s.cells.modify cell fun v => { v with value } } := by
  rcases assign_cases name value stack
    s with ⟨fault, hassign⟩ | ⟨cell, hresolve, hassign⟩
  · rw [hassign] at h
    cases h
  · exact ⟨cell, hresolve, by rw [hassign]⟩

/-- After a variable has been changed, a name has its new value if it means that
variable, and the value that it had otherwise. -/
theorem access_assigned (hbound : s.Bound) (cell : Nat) (value : Value)
    (name : String) (stack : Stack) :
    access name stack { s with
      cells := s.cells.modify cell fun v => { v with value } } =
      if s.resolve? name stack = some cell then .ok value
          else s.access name stack := by
  have hresolve : resolve? { s with
    cells := s.cells.modify cell fun v => { v with value } } name stack =
      s.resolve? name stack := resolve?_congr name fun _ _ => rfl
  unfold access
  rw [hresolve]
  cases hfound : s.resolve? name stack with
  | none => rfl
  | some found =>
      have hlt := hbound.resolve? hfound
      dsimp only
      rw [cell_assigned]
      by_cases heq : found = cell
      · rw [if_pos ⟨heq, hlt⟩, if_pos (congrArg some heq)]
      · rw [if_neg fun h => heq h.1, if_neg fun h => heq (Option.some.inj h)]

end Store

namespace Family

theorem ofHistory_oneName (history : List (Nat × ScopeOperation)) :
    (ofHistory history).store.OneName := by
  have hnew : new.store.OneName := by
    have hempty : Store.empty.OneName := fun _ _ _ _ _ h => by
      simp [Store.frame, Store.empty, Frame.find?] at h
    exact hempty.addFrame fun _ _ h => by cases h
  induction history using List.reverseRecOn with
  | nil => exact hnew
  | append_singleton history step ih =>
      rw [ofHistory_concat]
      rcases act_store (ofHistory history) step.1 step.2 with heq | hstep | heq
      · rw [heq]
        exact ih
      · exact hstep.oneName (ofHistory_bound history) ih
      · rw [heq]
        exact ih.release

/-- An assignment that is not refused gives its name the new value on its stack, and
leaves every other name alone on every stack.  On another stack the name itself
changes its value only if it means the same variable there. -/
theorem assign_seen_by_sharers (history : List (Nat × ScopeOperation)) (on : Nat)
    (name : String) (value : Value) :
    let w := ofHistory history
    let stack := w.members.getD on []
    let assigned := w.act on (.assign name value)
    (w.store.assign name value stack).1 = .ok () →
      assigned.members = w.members ∧
      (∀ member ∈ w.members, ∀ other, other ≠ name →
        assigned.store.access other member = w.store.access other member) ∧
      assigned.store.access name stack = .ok value ∧
      ∀ member ∈ w.members, assigned.store.access name member ≠
        w.store.access name member →
        ∃ cell, w.store.resolve? name stack = some cell ∧
            w.store.resolve? name member = some cell := by
  intro w stack assigned hok
  have hbound : w.store.Bound := ofHistory_bound history
  have hone : w.store.OneName := ofHistory_oneName history
  obtain ⟨cell, hresolve, hassign⟩ := Store.assign_ok hok
  have haccess : ∀ other member, assigned.store.access other member =
      if w.store.resolve? other member = some cell then .ok value
          else w.store.access other member := by
    intro other member
    have hstore : assigned.store = (w.store.assign name value stack).2 := rfl
    rw [hstore, hassign, Store.access_assigned hbound]
  refine ⟨rfl, ?_, ?_, ?_⟩
  · intro member _ other hne
    have hapart : w.store.resolve? other member ≠ some cell := by
      intro hother
      obtain ⟨i, _, hi⟩ := Store.exists_of_resolve? hother
      obtain ⟨j, _, hj⟩ := Store.exists_of_resolve? hresolve
      exact hne (hone i j other name cell hi hj)
    rw [haccess, if_neg hapart]
  · rw [haccess, if_pos hresolve]
  · intro member _ hchanged
    by_cases hsame : w.store.resolve? name member = some cell
    · exact ⟨cell, hresolve, hsame⟩
    · rw [haccess, if_neg hsame] at hchanged
      exact absurd rfl hchanged

/-- Two copies of a stack: one still shares the variable, after its frame has been
settled, and one hides it behind a variable of its own.  The assignment is seen on
the first copy and not on the second. -/
theorem hiddenCopy_keeps_value :
    let w := ofHistory
      [(0, .declare "total" (.int 1) false), (0, .declare "rate" (.int 2) true),
       (0, .copy), (1, .settle), (0, .copy), (2, .push .block),
       (2, .declare "total" (.int 7) false)]
    let assigned := w.act 0 (.assign "total" (.int 5))
    w.members = [[0], [1], [2, 0]] ∧
      assigned.store.access "total" [0] = .ok (.int 5) ∧
      assigned.store.access "total" [1] = .ok (.int 5) ∧
      assigned.store.access "total" [2, 0] = w.store.access "total" [2, 0] ∧
      assigned.store.access "rate" [2, 0] = w.store.access "rate" [2, 0] := by
  intro w assigned
  have hmembers : w.members = [[0], [1], [2, 0]] := rfl
  obtain ⟨_, hothers, hvalue, hsharers⟩ := assign_seen_by_sharers
    [(0, .declare "total" (.int 1) false),
      (0, .declare "rate" (.int 2) true), (0, .copy),
      (1, .settle), (0, .copy), (2, .push .block),
        (2, .declare "total" (.int 7) false)] 0 "total" (.int 5) rfl
  refine ⟨hmembers, hvalue, rfl, ?_, hothers [2, 0] (by decide) "rate" (by decide)⟩
  by_contra hchanged
  obtain ⟨cell, hcell, hother⟩ := hsharers [2, 0] (by decide) hchanged
  have hapart : w.store.resolve? "total" [0] ≠ w.store.resolve? "total" [2, 0] := by
    decide
  exact hapart (hcell.trans hother.symm)

end Family

end ScriptLang
