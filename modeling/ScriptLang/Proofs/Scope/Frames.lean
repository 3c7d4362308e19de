import ScriptLang.Scope.Store

/-!
# Frames over time

Frames are given out once and stay where they are, so a later store can be compared
with an earlier one frame by frame.  `Store.Grows` is that comparison for frames
that nobody may declare names in any more: each of them has kept its kind and its
names, and new frames may have been added behind them.

Resolving a name looks at the frames of one stack only (`resolve?_congr`), and stops
at the first frame that binds the name (`resolve?_append_of_none`).  Together with
the equations for `addFrame` and `bindNew` this is all that later modules need to
know about the store.
-/

namespace ScriptLang

namespace Frame

/-- A name that was just bound means its new variable. -/
@[simp] theorem find?_bind_self (f : Frame) (name : String) (cell : Nat) :
    (f.bind name cell).find? name = some cell := by
  simp [find?, bind]

/-- Binding one name leaves every other name alone. -/
theorem find?_bind_of_ne (f : Frame) {name other : String} (cell : Nat)
    (h : other ≠ name) :
    (f.bind name cell).find? other = f.find? other := by
  have hother : (other == name) = false := by simpa using h
  have hfilter : ∀ entries : List (String × Nat),
      (entries.filter fun entry => entry.1 ≠ name).lookup other =
        entries.lookup other := by
    intro entries
    induction entries with
    | nil => rfl
    | cons entry entries ih =>
        obtain ⟨bound, index⟩ := entry
        by_cases hname : bound = name
        · simpa [List.lookup_cons, hname, hother] using ih
        · rw [List.filter_cons_of_pos (by simpa using hname), List.lookup_cons,
            List.lookup_cons, ih]
  simpa [find?, bind, List.lookup_cons, hother] using hfilter f.names

end Frame

namespace Store

/-- Every frame of a stack has been given out. -/
def Given (s : Store) (stack : Stack) : Prop :=
  ∀ index ∈ stack, index < s.frames.size

theorem Given.cons {s : Store} {index : Nat} {stack : Stack}
    (hindex : index < s.frames.size) (hstack : s.Given stack) :
    s.Given (index :: stack) := by
  intro i hi
  rcases List.mem_cons.mp hi with rfl | hi
  · exact hindex
  · exact hstack i hi

theorem Given.mono {s t : Store} {stack : Stack} (h : s.Given stack)
    (hsize : s.frames.size ≤ t.frames.size) : t.Given stack :=
  fun i hi => Nat.lt_of_lt_of_le (h i hi) hsize

/-- Every variable that a frame binds a name to has been given out. -/
def Bound (s : Store) : Prop :=
  ∀ index name cell, (s.frame index).find? name = some cell →
  cell < s.cells.size

/-! ## What the operations do to a frame -/

theorem size_addFrame (frame : Frame) (s : Store) :
    (s.addFrame frame).2.frames.size = s.frames.size + 1 := by
  simp [addFrame]

/-- A new frame leaves the others alone. -/
theorem frame_addFrame_of_lt {s : Store} {i : Nat} (frame : Frame)
    (h : i < s.frames.size) :
    (s.addFrame frame).2.frame i = s.frame i := by
  simp [addFrame, Store.frame, Array.getElem?_push, Nat.ne_of_lt h]

theorem frame_addFrame_self (frame : Frame) (s : Store) :
    (s.addFrame frame).2.frame s.frames.size = frame := by
  simp [addFrame, Store.frame]

@[simp] theorem size_bindNew (s : Store) (index : Nat) (name : String)
    (value : Value) (const : Bool) :
    (s.bindNew index name value const).frames.size = s.frames.size := by
  simp [bindNew]

/-- Binding a name in one frame leaves the others alone. -/
theorem frame_bindNew_of_ne (s : Store) {index i : Nat} (name : String)
    (value : Value) (const : Bool) (h : i ≠ index) :
    (s.bindNew index name value const).frame i = s.frame i := by
  simp [bindNew, Store.frame, Array.getElem?_modify, h.symm]

theorem frame_bindNew_self (s : Store) {index : Nat} (name : String) (value : Value)
    (const : Bool) (h : index < s.frames.size) :
    (s.bindNew index name value const).frame index =
      (s.frame index).bind name s.cells.size := by
  simp [bindNew, Store.frame, h, Array.getElem_modify]

theorem size_cells_bindNew (s : Store) (index : Nat) (name : String) (value : Value)
    (const : Bool) :
    (s.bindNew index name value const).cells.size = s.cells.size + 1 := by
  simp [bindNew]

/-- Declaring is refused, and then changes nothing, or binds a name that the
innermost frame has not. -/
theorem declare_cases (name : String) (value : Value) (const : Bool) (stack : Stack)
    (s : Store) :
    (∃ fault, s.declare name value const stack = (.error fault, s)) ∨
      ∃ top outer, stack = top :: outer ∧ (s.frame top).find? name = none ∧
        s.declare name value const stack =
          (.ok (), s.bindNew top name value const) := by
  cases stack with
  | nil => exact .inl ⟨emptyStack, rfl⟩
  | cons top outer =>
      cases hfound : (s.frame top).find? name with
      | some cell => exact .inl ⟨.alreadyDefined name, by simp [declare, hfound]⟩
      | none => exact .inr ⟨top, outer, rfl, hfound, by simp [declare, hfound]⟩

/-- Binding a parameter is refused only when there is no frame. -/
theorem override_cases (name : String) (value : Value) (const : Bool)
    (stack : Stack) (s : Store) :
    (∃ fault, s.override name value const stack = (.error fault, s)) ∨
      ∃ top outer, stack = top :: outer ∧
        s.override name value const stack =
          (.ok (), s.bindNew top name value const) := by
  cases stack with
  | nil => exact .inl ⟨emptyStack, rfl⟩
  | cons top outer => exact .inr ⟨top, outer, rfl, rfl⟩

/-- Assigning is refused, and then changes nothing, or changes the value of one
variable. -/
theorem assign_cases (name : String) (value : Value) (stack : Stack) (s : Store) :
    (∃ fault, s.assign name value stack = (.error fault, s)) ∨
      ∃ index, s.resolve? name stack = some index ∧
        s.assign name value stack =
          (.ok (),
            { s with
            cells := s.cells.modify index fun v => { v with value } }) := by
  unfold assign
  cases s.resolve? name stack with
  | none => exact .inl ⟨_, rfl⟩
  | some index =>
      dsimp only
      split
      · exact .inl ⟨_, rfl⟩
      · exact .inr ⟨index, rfl, rfl⟩

/-! ## What the operations do to a variable -/

theorem cell_bindNew (s : Store) (index : Nat) (name : String) (v : Value)
    (const : Bool) (i : Nat) :
    (s.bindNew index name v const).cell i = if i = s.cells.size then ⟨v, const⟩
      else s.cell i := by
  by_cases hi : i = s.cells.size
  · simp [Store.cell, Store.bindNew, hi]
  · simp [Store.cell, Store.bindNew, Array.getElem?_push, hi]

theorem cell_assigned (s : Store) (index : Nat) (v : Value) (i : Nat) :
    Store.cell { s with
      cells := s.cells.modify index fun x => { x with value := v } } i =
      if i = index ∧ i < s.cells.size then { s.cell i with value := v }
          else s.cell i := by
  by_cases hlt : i < s.cells.size
  · by_cases hi : i = index
    · simp [Store.cell, hi ▸ hlt, hi, Array.getElem_modify]
    · simp [Store.cell, hlt, hi, Ne.symm hi, Array.getElem_modify]
  · simp [Store.cell, hlt]

/-! ## Growth -/

/-- Every frame of the first store is in the second one with the kind and the names
that it had, and no variable is gone. -/
structure Grows (s t : Store) : Prop where
  size_le : s.frames.size ≤ t.frames.size
  cells_le : s.cells.size ≤ t.cells.size
  frame_eq : ∀ i, i < s.frames.size → t.frame i = s.frame i

theorem Grows.refl (s : Store) : s.Grows s :=
  ⟨Nat.le_refl _, Nat.le_refl _, fun _ _ => rfl⟩

theorem Grows.trans {s t u : Store} (h₁ : s.Grows t)
    (h₂ : t.Grows u) : s.Grows u where
  size_le := Nat.le_trans h₁.size_le h₂.size_le
  cells_le := Nat.le_trans h₁.cells_le h₂.cells_le
  frame_eq i hi := by
    rw [h₂.frame_eq i (Nat.lt_of_lt_of_le hi h₁.size_le), h₁.frame_eq i hi]

/-- A store whose frames are the same has grown, whatever the values of the
variables are. -/
theorem Grows.of_frames_eq {s t : Store} (h : t.frames = s.frames)
    (hcells : s.cells.size ≤ t.cells.size) : s.Grows t where
  size_le := Nat.le_of_eq (by rw [h])
  cells_le := hcells
  frame_eq i _ := by simp [Store.frame, h]

theorem grows_addFrame (frame : Frame) (s : Store) :
    s.Grows (s.addFrame frame).2 where
  size_le := by rw [size_addFrame]; exact Nat.le_succ _
  cells_le := Nat.le_refl _
  frame_eq _ hi := frame_addFrame_of_lt frame hi

/-! ## Variables that have been given out -/

/-- A frame that was never given out binds nothing. -/
theorem find?_eq_none_of_le {s : Store} {index : Nat} (h : s.frames.size ≤ index)
    (name : String) :
    (s.frame index).find? name = none := by
  simp [Store.frame, Array.getElem?_eq_none h, Frame.find?]

theorem Bound.addFrame {s : Store} (h : s.Bound) {frame : Frame}
    (hframe : ∀ name cell, frame.find? name = some cell → cell < s.cells.size) :
    (s.addFrame frame).2.Bound := by
  intro index name cell hfound
  show cell < s.cells.size
  by_cases hlt : index < s.frames.size
  · rw [frame_addFrame_of_lt frame hlt] at hfound
    exact h index name cell hfound
  · by_cases heq : index = s.frames.size
    · rw [heq, frame_addFrame_self] at hfound
      exact hframe name cell hfound
    · have hle : (s.addFrame frame).2.frames.size ≤ index := by
        rw [size_addFrame]
        omega
      rw [find?_eq_none_of_le hle] at hfound
      cases hfound

/-- What a frame binds after a new variable was bound is that variable, or it was
bound before. -/
theorem find?_bindNew {s : Store} {top index : Nat} {name other : String}
    {value : Value} {const : Bool} {cell : Nat}
    (h : ((s.bindNew top name value const).frame index).find? other = some cell) :
    cell = s.cells.size ∨ (s.frame index).find? other = some cell := by
  by_cases htop : index = top
  · subst htop
    by_cases hlt : index < s.frames.size
    · rw [frame_bindNew_self s name value const hlt] at h
      by_cases hname : other = name
      · rw [hname, Frame.find?_bind_self] at h
        cases h
        exact .inl rfl
      · rw [Frame.find?_bind_of_ne _ _ hname] at h
        exact .inr h
    · rw [find?_eq_none_of_le (by simpa using hlt)] at h
      cases h
  · rw [frame_bindNew_of_ne s name value const htop] at h
    exact .inr h

theorem Bound.bindNew {s : Store} (h : s.Bound) (top : Nat) (name : String)
    (value : Value) (const : Bool) : (s.bindNew top name value const).Bound := by
  intro index other cell hfound
  rw [size_cells_bindNew]
  rcases find?_bindNew hfound with rfl | hfound
  · exact Nat.lt_succ_self _
  · exact Nat.lt_succ_of_lt (h index other cell hfound)

/-! ## Resolving names -/

/-- A name that resolves is bound in one of the frames. -/
theorem exists_of_resolve? {s : Store} {name : String} {stack : Stack} {cell : Nat}
    (h : s.resolve? name stack = some cell) :
    ∃ i ∈ stack, (s.frame i).find? name = some cell := by
  induction stack with
  | nil => cases h
  | cons index outer ih =>
      simp only [resolve?] at h
      split at h
      · rename_i found hfound
        cases h
        exact ⟨index, List.mem_cons_self, hfound⟩
      · obtain ⟨i, hi, hfound⟩ := ih h
        exact ⟨i, List.mem_cons_of_mem _ hi, hfound⟩

/-- A name that resolves means a variable that has been given out. -/
theorem Bound.resolve? {s : Store} (h : s.Bound) {name : String} {stack : Stack}
    {cell : Nat} (hresolve : s.resolve? name stack = some cell) :
    cell < s.cells.size := by
  obtain ⟨i, _, hfound⟩ := exists_of_resolve? hresolve
  exact h i name cell hfound

/-- Only the frames of the stack matter. -/
theorem resolve?_congr {s t : Store} (name : String) {stack : Stack}
    (h : ∀ i ∈ stack, (t.frame i).find? name = (s.frame i).find? name) :
    t.resolve? name stack = s.resolve? name stack := by
  induction stack with
  | nil => rfl
  | cons index outer ih =>
      have hhead := h index List.mem_cons_self
      have htail := ih fun i hi => h i (List.mem_cons_of_mem _ hi)
      simp only [resolve?, hhead, htail]

/-- Frames that do not bind a name are looked through. -/
theorem resolve?_append_of_none {s : Store} {name : String} {inner : Stack}
    (outer : Stack) (h : s.resolve? name inner = none) :
    s.resolve? name (inner ++ outer) = s.resolve? name outer := by
  induction inner with
  | nil => rfl
  | cons index inner ih =>
      simp only [resolve?] at h
      split at h
      · simp at h
      · rename_i hnone
        simp only [List.cons_append, resolve?, hnone]
        exact ih h

/-- Frames that bind a name hide the ones behind them. -/
theorem resolve?_append_of_some {s : Store} {name : String} {inner : Stack}
    {cell : Nat} (outer : Stack) (h : s.resolve? name inner = some cell) :
    s.resolve? name (inner ++ outer) = some cell := by
  induction inner with
  | nil => simp [resolve?] at h
  | cons index inner ih =>
      simp only [resolve?] at h
      split at h
      · rename_i found
        simp only [List.cons_append, resolve?, found]
        exact h
      · rename_i hnone
        simp only [List.cons_append, resolve?, hnone]
        exact ih h

end Store

end ScriptLang
