import ScriptLang.Proofs.Scope.Evolution
import ScriptLang.Proofs.Scope.Release

/-!
# What a copy sees

A copy of a stack shares its frames.  Right after the copy is taken the innermost
frame is settled, so from then on the original declares names in a frame that the
copy does not have.  As long as the original is not truncated below the depth that
it had, its innermost frame is one that was added later, and names are only ever
declared in the innermost frame.  So no name means another variable through the copy
than it did.

Variables are shared all the same.  What the copy reads is what the original has
last assigned to the variable, and only if the original reached that variable and
not one that hides it (`Scope.snapshot_sees_assignments`).
-/

namespace ScriptLang

/-! ## Operations on one stack -/

/-- What can be done to a stack that nobody else changes. -/
inductive StackOperation
  | push (kind : FrameKind)
  | truncate (depth : Nat)
  | declare (name : String) (value : Value) (const : Bool)
  | override (name : String) (value : Value) (const : Bool)
  | access (name : String)
  | assign (name : String) (value : Value)
  | settle
  | checkBreak
  | checkReturn

/-- A stack over its store. -/
structure Scope where
  store : Store
  stack : Stack

/-- Does something to a stack.  The answer is a value, which is null unless one was
asked for, or a fault. -/
def StackOperation.perform : StackOperation → Scope → Except Fault Value × Scope
  | .push kind, w =>
      (.ok .null, ⟨(w.store.push kind w.stack).2, (w.store.push kind w.stack).1⟩)
  | .truncate depth, w => (.ok .null, { w with stack := w.stack.truncate depth })
  | .declare name value const, w =>
    ((w.store.declare name value const w.stack).1.map fun _ => .null,
      { w with store := (w.store.declare name value const w.stack).2 })
  | .override name value const, w =>
    ((w.store.override name value const w.stack).1.map fun _ => .null,
      { w with store := (w.store.override name value const w.stack).2 })
  | .access name, w => (w.store.access name w.stack, w)
  | .assign name value, w =>
    ((w.store.assign name value w.stack).1.map fun _ => .null,
      { w with store := (w.store.assign name value w.stack).2 })
  | .settle, w =>
    match w.store.settle w.stack with
    | (.ok settled, store) => (.ok .null, ⟨store, settled⟩)
    | (.error fault, store) => (.error fault, { w with store })
  | .checkBreak, w => ((w.store.checkBreak w.stack).map fun _ => .null, w)
  | .checkReturn, w => ((w.store.checkReturn w.stack).map fun _ => .null, w)

namespace Scope

/-- A stack after some operations, first one first. -/
def after (w : Scope) (operations : List StackOperation) : Scope :=
  operations.foldl (fun w operation => (operation.perform w).2) w

/-- What an operation assigns to a variable, if it does so and is not refused. -/
def assigned? (w : Scope) (cell : Nat) : StackOperation → Option Value
  | .assign name value =>
    match (w.store.assign name value w.stack).1 with
    | .ok () =>
        if w.store.resolve? name w.stack = some cell then some value else none
    | .error _ => none
  | _ => none

/-- What some operations have last assigned to a variable, if any of them did. -/
def lastAssigned? (cell : Nat) : Scope → List StackOperation → Option Value
  | _, [] => none
  | w, operation :: rest =>
    (lastAssigned? cell (operation.perform w).2 rest).or
      (w.assigned? cell operation)

/-! ## One operation -/

variable {w : Scope} {s : Store} {outer : Stack}

/-- What is left of a scope that had the store `s`: its frames are as they were, and
the stack has come to consist of frames that were added later, on top of the frames
`outer`. -/
structure Covers (s : Store) (outer : Stack) (w : Scope) : Prop where
  grows : s.Grows w.store
  covered : ∃ top inner, w.stack = top :: (inner ++ outer) ∧ ∀ i ∈ top :: inner,
    s.frames.size ≤ i

/-- Through frames that were there before, a name means what it meant then. -/
theorem Covers.resolve?_eq (h : w.Covers s outer) {stack : Stack}
    (hgiven : s.Given stack) (name : String) :
    w.store.resolve? name stack = s.resolve? name stack :=
  Store.resolve?_congr name fun i hi => by rw [h.grows.frame_eq i (hgiven i hi)]

/-- Settling puts a new frame in the place of the innermost one. -/
theorem perform_settle {top : Nat} {under : Stack}
    (hstack : w.stack = top :: under) :
    (StackOperation.settle.perform w).2 =
      ⟨(w.store.addFrame (w.store.frame top)).2, w.store.frames.size :: under⟩ := by
  simp only [StackOperation.perform, hstack, Store.settle, Store.addFrame]

/-- A stack that has been settled has a later frame on top. -/
theorem covers_settle {top : Nat} (hstack : w.stack = top :: outer) :
    (StackOperation.settle.perform w).2.Covers w.store outer := by
  rw [perform_settle hstack]
  exact ⟨Store.grows_addFrame _ _, w.store.frames.size, [], rfl, by simp⟩

/-- A name that is bound in a later frame leaves the earlier ones alone. -/
theorem grows_bindNew {t : Store} (h : s.Grows t) {top : Nat}
    (htop : s.frames.size ≤ top) (name : String) (value : Value) (const : Bool) :
    s.Grows (t.bindNew top name value const) where
  size_le := by
    rw [Store.size_bindNew]
    exact h.size_le
  cells_le := by
    rw [Store.size_cells_bindNew]
    exact Nat.le_succ_of_le h.cells_le
  frame_eq i hi := by
    rw [Store.frame_bindNew_of_ne t name value const (by omega)]
    exact h.frame_eq i hi

/-- Cutting a stack back to no less than one frame more than the outer ones leaves a
later frame on top. -/
theorem covers_truncate (h : w.Covers s outer) {depth : Nat}
    (hdepth : outer.length < depth) :
    Covers s outer { w with stack := w.stack.truncate depth } := by
  obtain ⟨hgrows, top, inner, hstack, hlater⟩ := h
  have hcut : w.stack.length - depth < (top :: inner).length := by
    rw [hstack]
    simp only [List.length_cons, List.length_append]
    omega
  have htruncate : w.stack.truncate depth =
      (top :: inner).drop (w.stack.length - depth) ++ outer := by
    have hdrop : w.stack.truncate depth = ((top :: inner) ++ outer).drop
        (w.stack.length - depth) :=
      congrArg (List.drop (w.stack.length - depth)) hstack
    rw [hdrop, List.drop_append_of_le_length (Nat.le_of_lt hcut)]
  have hmem : ∀ i ∈ (top :: inner).drop (w.stack.length - depth),
      s.frames.size ≤ i :=
    fun i hi => hlater i (List.mem_of_mem_drop hi)
  cases hleft : (top :: inner).drop (w.stack.length - depth) with
  | nil =>
      have hnone := List.drop_eq_nil_iff.mp hleft
      omega
  | cons top' inner' =>
      rw [hleft] at htruncate hmem
      exact ⟨hgrows, top', inner', htruncate, hmem⟩

/-- No operation writes into an earlier frame, as long as a later one stays on
top. -/
theorem Covers.perform (h : w.Covers s outer) {operation : StackOperation}
    (hoperation : ∀ depth, operation = .truncate depth → outer.length < depth) :
    (operation.perform w).2.Covers s outer := by
  obtain ⟨hgrows, top, inner, hstack, hlater⟩ := h
  have htop := hlater top List.mem_cons_self
  cases operation with
  | push kind =>
      refine ⟨hgrows.trans (Store.grows_addFrame _ _), w.store.frames.size,
        top :: inner, ?_, ?_⟩
      · show w.store.frames.size :: w.stack = _
        rw [hstack]
        rfl
      · exact List.forall_mem_cons.mpr ⟨hgrows.size_le, hlater⟩
  | truncate depth =>
      exact covers_truncate ⟨hgrows, top, inner, hstack, hlater⟩
        (hoperation depth rfl)
  | declare name value const =>
      refine ⟨?_, top, inner, hstack, hlater⟩
      rcases Store.declare_cases name value const w.stack w.store with
        ⟨fault, hdeclare⟩ | ⟨top', outer', hstack', _, hdeclare⟩
      · simpa only [StackOperation.perform, hdeclare] using hgrows
      · obtain rfl : top = top' :=
          List.head_eq_of_cons_eq (hstack.symm.trans hstack')
        simpa only [StackOperation.perform, hdeclare] using grows_bindNew hgrows
          htop name value const
  | override name value const =>
      refine ⟨?_, top, inner, hstack, hlater⟩
      rcases Store.override_cases name value const w.stack w.store with
        ⟨fault, hoverride⟩ | ⟨top', outer', hstack', hoverride⟩
      · simpa only [StackOperation.perform, hoverride] using hgrows
      · obtain rfl : top = top' :=
          List.head_eq_of_cons_eq (hstack.symm.trans hstack')
        simpa only [StackOperation.perform, hoverride] using grows_bindNew hgrows
          htop name value const
  | access name => exact ⟨hgrows, top, inner, hstack, hlater⟩
  | assign name value =>
      refine ⟨?_, top, inner, hstack, hlater⟩
      rcases Store.assign_cases name value w.stack
        w.store with ⟨fault, hassign⟩ | ⟨index, _, hassign⟩
      · simpa only [StackOperation.perform, hassign] using hgrows
      · simp only [StackOperation.perform, hassign]
        exact hgrows.trans (Store.Grows.of_frames_eq rfl (by simp))
  | settle =>
      rw [perform_settle hstack]
      refine ⟨hgrows.trans (Store.grows_addFrame _ _), w.store.frames.size,
        inner, rfl, ?_⟩
      exact List.forall_mem_cons.mpr
        ⟨hgrows.size_le, fun i hi => hlater i (List.mem_cons_of_mem _ hi)⟩
  | checkBreak => exact ⟨hgrows, top, inner, hstack, hlater⟩
  | checkReturn => exact ⟨hgrows, top, inner, hstack, hlater⟩

/-- A variable that has been given out changes its value only if it is assigned
to. -/
theorem value_perform (w : Scope) {cell : Nat} (hcell : cell < w.store.cells.size)
    (operation : StackOperation) :
    ((operation.perform w).2.store.cell cell).value =
      (w.assigned? cell operation).getD (w.store.cell cell).value := by
  have hnew : ∀ (top : Nat) (name : String) (value : Value) (const : Bool),
      ((w.store.bindNew top name value const).cell cell).value =
        (w.store.cell cell).value := by
    intro top name value const
    rw [Store.cell_bindNew, if_neg (Nat.ne_of_lt hcell)]
  cases operation with
  | declare name value const =>
      rcases Store.declare_cases name value const w.stack w.store with
        ⟨fault, hdeclare⟩ | ⟨top, outer, _, _, hdeclare⟩
      · simp only [StackOperation.perform, hdeclare]
        rfl
      · simp only [StackOperation.perform, hdeclare]
        exact hnew top name value const
  | override name value const =>
      rcases Store.override_cases name value const w.stack w.store with
        ⟨fault, hoverride⟩ | ⟨top, outer, _, hoverride⟩
      · simp only [StackOperation.perform, hoverride]
        rfl
      · simp only [StackOperation.perform, hoverride]
        exact hnew top name value const
  | assign name value =>
      rcases Store.assign_cases name value w.stack
        w.store with ⟨fault, hassign⟩ | ⟨index, hresolve, hassign⟩
      · simp only [StackOperation.perform, assigned?, hassign]
        rfl
      · simp only [StackOperation.perform, assigned?, hassign, hresolve,
          Store.cell_assigned, Option.some.injEq]
        by_cases heq : cell = index
        · rw [if_pos ⟨heq, hcell⟩, if_pos heq.symm]
          rfl
        · rw [if_neg fun h => heq h.1, if_neg fun h => heq h.symm]
          rfl
  | settle =>
      cases hstack : w.stack with
      | nil =>
          simp only [StackOperation.perform, hstack, Store.settle]
          rfl
      | cons top outer =>
          rw [perform_settle hstack]
          rfl
  | push | truncate | access | checkBreak | checkReturn => rfl

/-! ## Many operations -/

theorem Covers.after (h : w.Covers s outer) {operations : List StackOperation}
    (hoperations : ∀ depth, .truncate depth ∈ operations → outer.length < depth) :
    (w.after operations).Covers s outer := by
  induction operations generalizing w with
  | nil => exact h
  | cons operation rest ih =>
      have hstep :=
        h.perform fun depth heq => hoperations depth (heq ▸ List.mem_cons_self)
      exact ih hstep fun depth hmem =>
        hoperations depth (List.mem_cons_of_mem _ hmem)

/-- What a variable holds after some operations is what they have last assigned to
it. -/
theorem value_after (h : w.Covers s outer) {operations : List StackOperation}
    (hoperations : ∀ depth, .truncate depth ∈ operations → outer.length < depth)
    {cell : Nat} (hcell : cell < s.cells.size) :
    ((w.after operations).store.cell cell).value =
      (w.lastAssigned? cell operations).getD (w.store.cell cell).value := by
  induction operations generalizing w with
  | nil => rfl
  | cons operation rest ih =>
      have hstep :=
        h.perform fun depth heq => hoperations depth (heq ▸ List.mem_cons_self)
      have hrest :=
        ih hstep fun depth hmem => hoperations depth (List.mem_cons_of_mem _ hmem)
      have hvalue :=
        w.value_perform (Nat.lt_of_lt_of_le hcell h.grows.cells_le) operation
      show (((operation.perform w).2.after rest).store.cell cell).value = _
      rw [hrest, hvalue, lastAssigned?]
      cases lastAssigned? cell (operation.perform w).2 rest <;> rfl

end Scope

/-! ## Stacks that can come about -/

namespace Family

/-- What is done to a stack of a family changes the store that they share by an
operation on that stack, by a release, or not at all. -/
theorem act_store (w : Family) (on : Nat) (operation : ScopeOperation) :
    (w.act on operation).store = w.store ∨ w.store.Step (w.act on operation).store ∨
      (w.act on operation).store = w.store.release := by
  cases operation with
  | push kind => exact .inr (.inl (.push kind (w.members.getD on []) w.store))
  | truncate depth => exact .inl rfl
  | declare name value const => exact .inr (.inl (.declare name value const _ _))
  | override name value const => exact .inr (.inl (.override name value const _ _))
  | assign name value => exact .inr (.inl (.assign name value _ _))
  | settle =>
      have hstore : (w.act on .settle).store =
          (w.store.settle (w.members.getD on [])).2 := by
        unfold act
        dsimp only
        split
        · rename_i hsettle
          rw [hsettle]
        · rename_i hsettle
          rw [hsettle]
      rw [hstore]
      exact .inr (.inl (.settle _ _))
  | copy => exact .inl rfl
  | release => exact .inr (.inr rfl)

/-- Whatever is done to the stacks of a family, names are bound to variables that
have been given out. -/
theorem bound_act {w : Family} (h : w.store.Bound) (on : Nat)
    (operation : ScopeOperation) :
    (w.act on operation).store.Bound := by
  rcases act_store w on operation with heq | hstep | heq
  · rw [heq]
    exact h
  · exact hstep.bound h
  · rw [heq]
    intro i name cell hfound
    rw [Store.find?_release] at hfound
    split at hfound
    · cases hfound
    · exact h i name cell hfound

theorem ofHistory_bound (history : List (Nat × ScopeOperation)) :
    (ofHistory history).store.Bound := by
  have hempty : Store.empty.Bound := fun _ _ _ h => by
    simp [Store.frame, Store.empty, Frame.find?] at h
  have hnew : new.store.Bound := hempty.addFrame fun _ _ h => by cases h
  unfold ofHistory
  generalize new = w at hnew ⊢
  induction history generalizing w with
  | nil => exact hnew
  | cons step history ih => exact ih _ (bound_act hnew step.1 step.2)

/-- The frames of every stack have been given out. -/
theorem ofHistory_given (history : List (Nat × ScopeOperation)) (on : Nat) :
    (ofHistory history).store.Given ((ofHistory history).members.getD on []) := by
  obtain ⟨_, hregistered⟩ := new_registered.exists_foldl history
  intro i hi
  obtain ⟨stack, hstack, hmem⟩ := mem_members_of_mem_getD hi
  exact hregistered.given stack hstack i hmem

/-- A copy has the frames of the original. -/
theorem copy_eq (history : List (Nat × ScopeOperation)) (on : Nat) :
    (ofHistory (history ++ [(on, .copy)])).members.getLast?.getD [] =
      (ofHistory (history ++ [(on, .copy)])).members.getD on [] := by
  rw [ofHistory_concat]
  simp only [act, List.getLast?_append, List.getLast?_singleton, Option.some_or,
    Option.getD_some]
  grind

end Family

/-! ## The copy -/

namespace Scope

/-- Through a copy that was taken of a stack just before the stack was settled,
every name means what it meant then, whatever is done to the stack later, as long as
it is not truncated below its depth at that time.  The value of the name is the one
that was last assigned, through the stack, to the variable that it means, or the one
that this variable held when the copy was taken. -/
theorem snapshot_sees_assignments (history : List (Nat × ScopeOperation)) (on : Nat)
    (operations : List StackOperation) :
    let w := Family.ofHistory (history ++ [(on, .copy)])
    let original : Scope := ⟨w.store, w.members.getD on []⟩
    let snapshot := w.members.getLast?.getD []
    let settled := (StackOperation.settle.perform original).2
    let later := settled.after operations
    (∀ depth, .truncate depth ∈ operations → original.stack.length ≤ depth) →
      ∀ name,
      later.store.resolve? name snapshot = w.store.resolve? name snapshot ∧
        later.store.access name snapshot =
          match w.store.resolve? name snapshot with
          | some cell =>
              .ok ((settled.lastAssigned? cell operations).getD
                (w.store.cell cell).value)
          | none => .error (.undefinedVariable name) := by
  intro w original snapshot settled later hoperations name
  have hsame : snapshot = original.stack := Family.copy_eq history on
  have hgiven : w.store.Given snapshot := hsame ▸ Family.ofHistory_given _ on
  have hbound : w.store.Bound := Family.ofHistory_bound _
  cases hstack : snapshot with
  | nil => exact ⟨rfl, rfl⟩
  | cons top outer =>
      have hcovers : settled.Covers w.store outer :=
        covers_settle (hsame.symm.trans hstack)
      have hdepth : ∀ depth, .truncate depth ∈ operations →
          outer.length < depth := by
        intro depth hmem
        have hle := hoperations depth hmem
        rw [← hsame, hstack] at hle
        exact hle
      have hresolve : later.store.resolve? name snapshot =
          w.store.resolve? name snapshot :=
        (hcovers.after hdepth).resolve?_eq hgiven name
      rw [← hstack]
      refine ⟨hresolve, ?_⟩
      unfold Store.access
      rw [hresolve]
      cases hcell : w.store.resolve? name snapshot with
      | none => rfl
      | some cell =>
          have hvalue := value_after hcovers hdepth (hbound.resolve? hcell)
          have hkept : settled.store.cell cell = w.store.cell cell := by
            unfold settled
            rw [perform_settle (w := original) (hsame.symm.trans hstack)]
            rfl
          rw [hkept] at hvalue
          exact congrArg Except.ok hvalue

/-- The copy does not see the name that is declared after it was taken.  It sees the
first assignment, and not the second one, which goes to the variable that hides the
shared one. -/
theorem hiddenVariable_snapshot :
    let w :=
      Family.ofHistory ([(0, .declare "total" (.int 1) false)] ++ [(0, .copy)])
    let settled := (StackOperation.settle.perform ⟨w.store, w.members.getD 0 []⟩).2
    let operations : List StackOperation :=
      [.declare "later" (.int 2) false, .assign "total" (.int 10), .push .block,
        .declare "total" (.int 7) false, .assign "total" (.int 8), .truncate 1]
    (settled.after operations).store.access "later" (w.members.getLast?.getD []) =
        .error (.undefinedVariable "later") ∧
      (settled.after operations).store.access "total" (w.members.getLast?.getD []) =
        .ok (.int 10) := by
  intro w settled operations
  have hdepth : ∀ depth, StackOperation.truncate depth ∈ operations →
      (w.members.getD 0 []).length ≤ depth := by
    intro depth hmem
    obtain rfl : depth = 1 := by simpa [operations] using hmem
    decide
  have hsees :=
    snapshot_sees_assignments [(0, .declare "total" (.int 1) false)] 0
      operations hdepth
  exact ⟨(hsees "later").2, (hsees "total").2⟩

end Scope

end ScriptLang
