import ScriptLang.Proofs.Scope.Frames

/-!
# A stack and its copies

A `Family` is a stack together with the copies that have been made of it, over the
store that they share.  It is what a history of operations, each on one of the
stacks, makes of a single new stack (`Family.ofHistory`).  The stacks are numbered
in the order in which they were made.

What the operations do to frames is said once, in `act_cases`: all but `release` add
at most one frame.
-/

namespace ScriptLang

/-- What can be done to one of several stacks. -/
inductive ScopeOperation
  | push (kind : FrameKind)
  | truncate (depth : Nat)
  | declare (name : String) (value : Value) (const : Bool)
  | override (name : String) (value : Value) (const : Bool)
  | assign (name : String) (value : Value)
  | settle
  | copy
  | release

/-- Whether an operation empties frames. -/
def ScopeOperation.isRelease : ScopeOperation → Bool
  | .release => true
  | _ => false

/-- A stack and the copies of it. -/
structure Family where
  store : Store
  members : List Stack

namespace Family

/-- A stack of one empty frame, without copies. -/
def new : Family := ⟨Store.empty.root.2, [Store.empty.root.1]⟩

/-- Does something to the stack with a given number.  An operation that is refused
changes nothing, and there is nothing to see in a stack with a number that was never
given out. -/
def act (w : Family) (on : Nat) (operation : ScopeOperation) : Family :=
  let stack := w.members.getD on []
  match operation with
  | .push kind =>
      ⟨(w.store.push kind stack).2, w.members.set on (w.store.push kind stack).1⟩
  | .truncate depth => { w with members := w.members.set on (stack.truncate depth) }
  | .declare name value const =>
      { w with store := (w.store.declare name value const stack).2 }
  | .override name value const =>
      { w with store := (w.store.override name value const stack).2 }
  | .assign name value => { w with store := (w.store.assign name value stack).2 }
  | .settle =>
    match w.store.settle stack with
    | (.ok settled, store) => ⟨store, w.members.set on settled⟩
    | (.error _, store) => { w with store }
  | .copy => { w with members := w.members ++ [stack] }
  | .release => { w with store := w.store.release }

/-- What a history of operations, first one first, makes of a new stack. -/
def ofHistory (history : List (Nat × ScopeOperation)) : Family :=
  history.foldl (fun w step => w.act step.1 step.2) new

theorem ofHistory_concat (history : List (Nat × ScopeOperation)) (on : Nat)
    (operation : ScopeOperation) :
    ofHistory (history ++ [(on, operation)]) =
      (ofHistory history).act on operation := by
  simp [ofHistory]

/-! ## What an operation can do -/

/-- What the stack of a number has in it, some stack of the family has in it. -/
theorem mem_members_of_mem_getD {w : Family} {on i : Nat}
    (h : i ∈ w.members.getD on []) :
    ∃ stack ∈ w.members, i ∈ stack := by
  rw [List.getD_eq_getElem?_getD] at h
  cases hstack : w.members[on]? with
  | none => simp [hstack] at h
  | some stack =>
      exact ⟨stack, List.mem_of_getElem? hstack, by simpa [hstack] using h⟩

/-- A stack that is put in the place of another one brings in only its own
frames. -/
theorem mem_of_mem_set {members : List Stack} {on : Nat} {replacement stack : Stack}
    {i : Nat} (hstack : stack ∈ members.set on replacement) (hi : i ∈ stack) :
    i ∈ replacement ∨ ∃ other ∈ members, i ∈ other := by
  rcases List.mem_or_eq_of_mem_set hstack with hmem | heq
  · exact .inr ⟨stack, hmem, hi⟩
  · exact .inl (heq ▸ hi)

/-- Every operation but a release adds a frame, or leaves the frames that there are
and which of them are to be emptied.  The stacks have no frames afterwards that no
stack had before, but for the one added. -/
theorem act_cases (w : Family) (on : Nat) {operation : ScopeOperation}
    (h : operation.isRelease = false) :
    (((w.act on operation).store.frames.size = w.store.frames.size ∧
        (w.act on operation).store.live = w.store.live) ∧
      ∀ stack ∈ (w.act on operation).members, ∀ i ∈ stack,
        ∃ other ∈ w.members, i ∈ other) ∨
    ∃ frame, (w.act on operation).store = (w.store.addFrame frame).2 ∧
      ∀ stack ∈ (w.act on operation).members, ∀ i ∈ stack,
        i = w.store.frames.size ∨ ∃ other ∈ w.members, i ∈ other := by
  have hsame : ∀ stack ∈ w.members, ∀ i ∈ stack, ∃ other ∈ w.members, i ∈ other :=
    fun stack hstack i hi => ⟨stack, hstack, hi⟩
  cases operation with
  | push kind =>
      refine .inr ⟨⟨kind, []⟩, rfl, ?_⟩
      intro stack hstack i hi
      rcases mem_of_mem_set hstack hi with hi | hother
      · rcases List.mem_cons.mp hi with heq | hi
        · exact .inl heq
        · exact .inr (mem_members_of_mem_getD hi)
      · exact .inr hother
  | truncate depth =>
      refine .inl ⟨⟨rfl, rfl⟩, ?_⟩
      intro stack hstack i hi
      rcases mem_of_mem_set hstack hi with hi | hother
      · exact mem_members_of_mem_getD (List.mem_of_mem_drop hi)
      · exact hother
  | declare name value const =>
      refine .inl ⟨?_, hsame⟩
      rcases Store.declare_cases name value const
          (w.members.getD on []) w.store with
        ⟨fault, hdeclare⟩ | ⟨top, outer, _, _, hdeclare⟩
      · simp only [act, hdeclare, and_self]
      · simp only [act, hdeclare, Store.size_bindNew, true_and]
        rfl
  | override name value const =>
      refine .inl ⟨?_, hsame⟩
      rcases Store.override_cases name value const
          (w.members.getD on []) w.store with
        ⟨fault, hoverride⟩ | ⟨top, outer, _, hoverride⟩
      · simp only [act, hoverride, and_self]
      · simp only [act, hoverride, Store.size_bindNew, true_and]
        rfl
  | assign name value =>
      refine .inl ⟨?_, hsame⟩
      rcases Store.assign_cases name value (w.members.getD on []) w.store with
        ⟨fault, hassign⟩ | ⟨index, _, hassign⟩
      · simp only [act, hassign, and_self]
      · simp only [act, hassign, and_self]
  | settle =>
      cases hstack : w.members.getD on [] with
      | nil =>
          have hact : w.act on .settle = w := by
            simp only [act, hstack, Store.settle]
          rw [hact]
          exact .inl ⟨⟨rfl, rfl⟩, hsame⟩
      | cons top outer =>
          have hact : w.act on .settle = ⟨(w.store.addFrame (w.store.frame top)).2,
              w.members.set on (w.store.frames.size :: outer)⟩ := by
            simp only [act, hstack, Store.settle, Store.addFrame]
          rw [hact]
          refine .inr ⟨w.store.frame top, rfl, ?_⟩
          intro stack hmem i hi
          rcases mem_of_mem_set hmem hi with hi | hother
          · rcases List.mem_cons.mp hi with heq | hi
            · exact .inl heq
            · have hi' : i ∈ w.members.getD on [] :=
                hstack ▸ List.mem_cons_of_mem _ hi
              exact .inr (mem_members_of_mem_getD hi')
          · exact .inr hother
  | copy =>
      refine .inl ⟨⟨rfl, rfl⟩, ?_⟩
      intro stack hstack i hi
      rcases List.mem_append.mp hstack with hstack | hstack
      · exact ⟨stack, hstack, hi⟩
      · rw [List.mem_singleton.mp hstack] at hi
        exact mem_members_of_mem_getD hi
  | release => cases h

end Family

end ScriptLang
