import Mathlib.Data.Finmap
import ScriptLang.Proofs.Scope.Naming

/-!
# A stack without copies

Variables and frames are kept in a store so that copies of a stack can share them.
Where nobody takes a copy, nothing of this can be seen.  Such a stack is a list of
layers, each of which holds its variables itself (`Layer`): a name means its
innermost variable, an assignment replaces that variable where it is, and settling
does nothing.

The stack and the layers give the same answers (`Scope.plain_answers`), because the
stack shows what the layers hold (`Scope.Mirrors`).  Assignments keep this up only
as long as no variable is visible in two places.  That is so when no frame occurs
twice, no two frames of the stack bind the same variable (`Store.Apart`), and no
variable goes by two names.
-/

namespace ScriptLang

/-! ## Layers -/

/-- A scope by itself: what stops at it, and the variables of its names. -/
structure Layer where
  kind : FrameKind
  names : Finmap fun _ : String => Variable

namespace Layer

/-- Gives a name a variable, in place of the one it may have had. -/
def bind (layer : Layer) (name : String) (v : Variable) : Layer :=
  { layer with names := layer.names.insert name v }

/-- What can be seen of a layer. -/
def view (layer : Layer) : FrameKind × (String → Option Variable) :=
  (layer.kind, layer.names.lookup)

theorem view_bind (layer : Layer) (name : String) (v : Variable) :
    (layer.bind name v).view =
      (layer.kind, fun other => if other = name then some v
        else layer.names.lookup other) := by
  unfold view bind
  congr 1
  funext other
  by_cases h : other = name
  · rw [if_pos h, h]
    exact Finmap.lookup_insert _
  · rw [if_neg h]
    exact Finmap.lookup_insert_of_ne _ h

end Layer

/-- Scopes inside each other, innermost first. -/
abbrev Layers := List Layer

namespace Layers

/-- One empty layer. -/
def new : Layers := [⟨.block, ∅⟩]

/-- The innermost variable of a name. -/
def find? (layers : Layers) (name : String) : Option Variable :=
  layers.findSome? fun layer => layer.names.lookup name

/-- Replaces the innermost variable of a name where it is. -/
def replace (name : String) (v : Variable) : Layers → Layers
  | [] => []
  | layer :: outer =>
    if (layer.names.lookup name).isSome then layer.bind name v :: outer
    else layer :: replace name v outer

/-- Whether the innermost scope that is no block is a loop. -/
def inLoop (layers : Layers) : Bool :=
  (layers.map Layer.kind).find? (· ≠ .block) = some .loop

/-- Whether some scope is a function. -/
def inFunction (layers : Layers) : Bool := .function ∈ layers.map Layer.kind

end Layers

/-- Does something to layers.  An operation that is refused changes nothing, and
neither does settling. -/
def StackOperation.onLayers : StackOperation → Layers → Except Fault Value × Layers
  | .push kind, layers => (.ok .null, ⟨kind, ∅⟩ :: layers)
  | .truncate depth, layers => (.ok .null, layers.drop (layers.length - depth))
  | .declare _ _ _, [] => (.error Store.emptyStack, [])
  | .declare name value const, layer :: outer =>
    if name ∈ layer.names then (.error (.alreadyDefined name), layer :: outer)
    else (.ok .null, layer.bind name ⟨value, const⟩ :: outer)
  | .override _ _ _, [] => (.error Store.emptyStack, [])
  | .override name value const, layer :: outer =>
      (.ok .null, layer.bind name ⟨value, const⟩ :: outer)
  | .access name, layers =>
    match layers.find? name with
    | some v => (.ok v.value, layers)
    | none => (.error (.undefinedVariable name), layers)
  | .assign name value, layers =>
    match layers.find? name with
    | some ⟨_, true⟩ => (.error (.assignmentToConst name), layers)
    | some ⟨_, false⟩ => (.ok .null, layers.replace name ⟨value, false⟩)
    | none => (.error (.undefinedVariable name), layers)
  | .settle, [] => (.error Store.emptyStack, [])
  | .settle, layer :: outer => (.ok .null, layer :: outer)
  | .checkBreak, layers =>
      (if layers.inLoop then .ok .null else .error .breakOutsideLoop, layers)
  | .checkReturn, layers =>
      (if layers.inFunction then .ok .null else .error .returnOutsideFunction,
        layers)

/-- The answers of layers to some operations, first one first. -/
def Layers.answers : Layers → List StackOperation → List (Except Fault Value)
  | _, [] => []
  | layers, operation :: rest =>
      (operation.onLayers layers).1 :: answers (operation.onLayers layers).2 rest

namespace Scope

/-- A stack of one empty frame. -/
def new : Scope := ⟨Store.empty.root.2, Store.empty.root.1⟩

/-- The answers of a stack to some operations, first one first. -/
def answers : Scope → List StackOperation → List (Except Fault Value)
  | _, [] => []
  | w, operation :: rest =>
      (operation.perform w).1 :: answers (operation.perform w).2 rest

end Scope

/-! ## What a frame shows -/

namespace Store

variable {s : Store} {i j : Nat}

/-- What can be seen of a frame. -/
def view (s : Store) (index : Nat) : FrameKind × (String → Option Variable) :=
  ((s.frame index).kind, fun name => ((s.frame index).find? name).map s.cell)

theorem view_addFrame_of_lt (frame : Frame) (h : i < s.frames.size) :
    (s.addFrame frame).2.view i = s.view i := by
  unfold view
  rw [frame_addFrame_of_lt frame h]
  rfl

theorem view_addFrame_self (frame : Frame) (s : Store) :
    (s.addFrame frame).2.view s.frames.size =
      (frame.kind, fun name => (frame.find? name).map s.cell) := by
  unfold view
  rw [frame_addFrame_self]
  rfl

/-- The variables that are bound in a frame stay what they are when a new one is
made. -/
theorem map_cell_bindNew (hbound : s.Bound) (top : Nat) (name : String)
    (value : Value) (const : Bool) (other : String) :
    ((s.frame i).find? other).map (s.bindNew top name value const).cell =
      ((s.frame i).find? other).map s.cell := by
  refine Option.map_congr fun cell hfound => ?_
  have hlt := hbound i other cell hfound
  rw [cell_bindNew, if_neg (by omega)]

/-- Other frames show nothing of a new variable. -/
theorem view_bindNew_of_ne (hbound : s.Bound) (name : String) (value : Value)
    (const : Bool) (h : i ≠ j) :
    (s.bindNew j name value const).view i = s.view i := by
  unfold view
  rw [frame_bindNew_of_ne s name value const h]
  congr 1
  funext other
  exact map_cell_bindNew hbound j name value const other

theorem view_bindNew_self (hbound : s.Bound) (name : String) (value : Value)
    (const : Bool) (h : i < s.frames.size) :
    (s.bindNew i name value const).view i =
      ((s.view i).1, fun other => if other = name then some ⟨value, const⟩
        else (s.view i).2 other) := by
  have hkind : ((s.frame i).bind name s.cells.size).kind = (s.frame i).kind := rfl
  unfold view
  rw [frame_bindNew_self s name value const h, hkind]
  congr 1
  funext other
  by_cases hname : other = name
  · rw [if_pos hname, hname, Frame.find?_bind_self, Option.map_some,
      cell_bindNew, if_pos rfl]
  · rw [if_neg hname, Frame.find?_bind_of_ne _ _ hname]
    exact map_cell_bindNew hbound i name value const other

/-- A name shows nothing of an assignment to a variable that it does not mean. -/
theorem map_cell_assigned (value : Value) {name : String} {cell : Nat}
    (h : (s.frame i).find? name ≠ some cell) :
    ((s.frame i).find? name).map
        (Store.cell
          { s with cells := s.cells.modify cell fun v => { v with value } }) =
      ((s.frame i).find? name).map s.cell := by
  refine Option.map_congr fun found hfound => ?_
  have hne : found ≠ cell := fun heq => h (heq ▸ hfound)
  rw [cell_assigned, if_neg fun h => hne h.1]

theorem view_assigned_of_ne (value : Value) {cell : Nat}
    (h : ∀ name, (s.frame i).find? name ≠ some cell) :
    view { s with cells := s.cells.modify cell fun v => { v with value } } i =
      s.view i := by
  unfold view
  congr 1
  funext name
  exact map_cell_assigned value (h name)

theorem view_assigned_self (hbound : s.Bound) (hone : s.OneName) (value : Value)
    {name : String} {cell : Nat} (h : (s.frame i).find? name = some cell) :
    view { s with cells := s.cells.modify cell fun v => { v with value } } i =
      ((s.view i).1, fun other =>
        if other = name then some { s.cell cell with value }
            else (s.view i).2 other) := by
  have hlt := hbound i name cell h
  unfold view
  congr 1
  funext other
  by_cases hname : other = name
  · show ((s.frame i).find? other).map _ = _
    rw [if_pos hname, hname, h, Option.map_some, cell_assigned, if_pos ⟨rfl, hlt⟩]
  · rw [if_neg hname]
    exact map_cell_assigned value fun hother =>
      hname (hone i i other name cell hother h)

/-- A name means the variable that its innermost frame shows. -/
theorem map_cell_resolve? (s : Store) (name : String) (stack : Stack) :
    (s.resolve? name stack).map s.cell = (stack.map s.view).findSome? fun view =>
      view.2 name := by
  induction stack with
  | nil => rfl
  | cons index outer ih =>
      rw [resolve?, List.map_cons, List.findSome?_cons, ← ih]
      unfold view
      dsimp only
      cases (s.frame index).find? name <;> rfl

theorem inLoop_eq (s : Store) (stack : Stack) :
    s.inLoop stack = (((stack.map s.view).map Prod.fst).find? (· ≠ .block) =
      some .loop) := by
  induction stack with
  | nil => simp [inLoop]
  | cons index outer ih =>
      rw [inLoop, List.map_cons, List.map_cons]
      cases hkind : (s.frame index).kind with
      | loop => simp [view, hkind]
      | function => simp [view, hkind]
      | block =>
          have hview : (s.view index).1 = .block := hkind
          rw [List.find?_cons_of_neg (by simp [hview]), ← ih]

theorem inFunction_eq (s : Store) (stack : Stack) :
    s.inFunction stack = (.function ∈ (stack.map s.view).map Prod.fst) := by
  simp [inFunction, view]

/-! ## Frames that share nothing -/

/-- Two frames that are not the same and have no variable in common. -/
def Apart (s : Store) (i j : Nat) : Prop :=
  i ≠ j ∧ ∀ name other cell, (s.frame i).find? name = some cell →
    (s.frame j).find? other ≠ some cell

theorem Apart.addFrame (h : s.Apart i j) (frame : Frame) (hi : i < s.frames.size)
    (hj : j < s.frames.size) :
    (s.addFrame frame).2.Apart i j := by
  unfold Apart
  rw [frame_addFrame_of_lt frame hi, frame_addFrame_of_lt frame hj]
  exact h

/-- A new variable is bound in one frame only. -/
theorem Apart.bindNew (h : s.Apart i j) (hbound : s.Bound) (top : Nat)
    (name : String) (value : Value) (const : Bool) :
    (s.bindNew top name value const).Apart i j := by
  obtain ⟨hne, hapart⟩ := h
  refine ⟨hne, ?_⟩
  intro first second cell hfirst hsecond
  by_cases hi : i = top
  · have hj : j ≠ top := fun hj => hne (hi.trans hj.symm)
    rw [frame_bindNew_of_ne s name value const hj] at hsecond
    have hlt := hbound j second cell hsecond
    rcases find?_bindNew hfirst with heq | hfirst
    · omega
    · exact hapart first second cell hfirst hsecond
  · rw [frame_bindNew_of_ne s name value const hi] at hfirst
    have hlt := hbound i first cell hfirst
    rcases find?_bindNew hsecond with heq | hsecond
    · omega
    · exact hapart first second cell hfirst hsecond

end Store

/-! ## Stacks that share nothing -/

namespace Scope

variable {w : Scope} {layers : Layers}

/-- A stack in which no variable is visible in two places. -/
structure Unshared (w : Scope) : Prop where
  given : w.store.Given w.stack
  bound : w.store.Bound
  oneName : w.store.OneName
  apart : w.stack.Pairwise w.store.Apart

/-- A frame is put inside others that it shares nothing with. -/
theorem Unshared.addFrame (h : w.Unshared) {frame : Frame} {outer : Stack}
    (hsublist : outer.Sublist w.stack)
    (hframe : ∀ name cell, frame.find? name = some cell → ∃ i,
      (w.store.frame i).find? name = some cell)
    (hapart : ∀ j ∈ outer, ∀ name other cell, frame.find? name = some cell →
      (w.store.frame j).find? other ≠ some cell) :
    Unshared ⟨(w.store.addFrame frame).2, w.store.frames.size :: outer⟩ := by
  have houter : ∀ j ∈ outer, j < w.store.frames.size :=
    fun j hj => h.given j (hsublist.mem hj)
  refine ⟨?_, ?_, h.oneName.addFrame hframe, List.pairwise_cons.mpr ⟨?_, ?_⟩⟩
  · refine Store.Given.cons (by rw [Store.size_addFrame]; omega) fun j hj => ?_
    have hlt := houter j hj
    rw [Store.size_addFrame]
    omega
  · refine h.bound.addFrame fun name cell hfound => ?_
    obtain ⟨i, hi⟩ := hframe name cell hfound
    exact h.bound i name cell hi
  · intro j hj
    have hlt := houter j hj
    unfold Store.Apart
    rw [Store.frame_addFrame_self, Store.frame_addFrame_of_lt frame hlt]
    exact ⟨by omega, hapart j hj⟩
  · refine (h.apart.sublist hsublist).imp_of_mem fun hi hj hij => ?_
    exact hij.addFrame frame (houter _ hi) (houter _ hj)

theorem Unshared.bindNew (h : w.Unshared) (top : Nat) (name : String)
    (value : Value) (const : Bool) :
    Unshared { w with store := w.store.bindNew top name value const } where
  given := h.given.mono (by rw [Store.size_bindNew])
  bound := h.bound.bindNew top name value const
  oneName := h.oneName.bindNew h.bound top name value const
  apart := h.apart.imp fun hapart => hapart.bindNew h.bound top name value const

theorem Unshared.assigned (h : w.Unshared) (cell : Nat) (value : Value) :
    Unshared
      { w with
        store :=
          { w.store with
            cells := w.store.cells.modify cell fun v => { v with value } } } where
  given := h.given
  bound i name found hfound := by
    have hlt := h.bound i name found hfound
    simpa using hlt
  oneName := h.oneName
  apart := h.apart

theorem Unshared.perform (h : w.Unshared) (operation : StackOperation) :
    (operation.perform w).2.Unshared := by
  cases operation with
  | push kind =>
      exact h.addFrame (.refl _) (fun _ _ hfound => by cases hfound)
        fun _ _ _ _ _ hfound => by cases hfound
  | truncate depth =>
      have hsublist : (w.stack.truncate depth).Sublist w.stack :=
        List.drop_sublist _ _
      exact ⟨fun i hi => h.given i (hsublist.mem hi), h.bound, h.oneName,
        h.apart.sublist hsublist⟩
  | declare name value const =>
      rcases Store.declare_cases name value const w.stack w.store with
        ⟨fault, hdeclare⟩ | ⟨top, outer, _, _, hdeclare⟩
      · simpa only [StackOperation.perform, hdeclare] using h
      · simpa only [StackOperation.perform, hdeclare] using h.bindNew top
          name value const
  | override name value const =>
      rcases Store.override_cases name value const w.stack w.store with
        ⟨fault, hoverride⟩ | ⟨top, outer, _, hoverride⟩
      · simpa only [StackOperation.perform, hoverride] using h
      · simpa only [StackOperation.perform, hoverride] using h.bindNew top
          name value const
  | assign name value =>
      rcases Store.assign_cases name value w.stack
        w.store with ⟨fault, hassign⟩ | ⟨cell, _, hassign⟩
      · simpa only [StackOperation.perform, hassign] using h
      · simpa only [StackOperation.perform, hassign] using h.assigned cell value
  | settle =>
      obtain ⟨s, stack⟩ := w
      cases stack with
      | nil => exact h
      | cons top outer =>
          -- The copy binds what the innermost frame has bound, and takes its place.
          have htop := (List.pairwise_cons.mp h.apart).1
          exact h.addFrame (List.sublist_cons_self top outer)
            (fun name cell hfound => ⟨top, hfound⟩)
            fun j hj => (htop j hj).2
  | access | checkBreak | checkReturn => exact h

/-! ## The same answers -/

/-- The layers hold what the frames of a stack show. -/
def Mirrors (w : Scope) (layers : Layers) : Prop :=
  layers.map Layer.view = w.stack.map w.store.view

theorem Mirrors.find?_eq (h : w.Mirrors layers) (name : String) :
    layers.find? name = (w.store.resolve? name w.stack).map w.store.cell := by
  rw [Store.map_cell_resolve?, ← h, List.findSome?_map]
  rfl

theorem Mirrors.kinds_eq (h : w.Mirrors layers) :
    layers.map Layer.kind = (w.stack.map w.store.view).map Prod.fst := by
  rw [← h, List.map_map]
  rfl

theorem Mirrors.cases (h : w.Mirrors layers) : w.stack = [] ∧ layers = [] ∨
    ∃ top outer layer rest, w.stack = top :: outer ∧ layers = layer :: rest ∧
      layer.view = w.store.view top ∧
        rest.map Layer.view = outer.map w.store.view := by
  unfold Mirrors at h
  cases hstack : w.stack with
  | nil =>
      rw [hstack] at h
      exact .inl ⟨rfl, List.map_eq_nil_iff.mp h⟩
  | cons top outer =>
      rw [hstack, List.map_cons] at h
      obtain ⟨layer, rest, rfl, hlayer, hrest⟩ := List.map_eq_cons_iff.mp h
      exact .inr ⟨top, outer, layer, rest, rfl, rfl, hlayer, hrest⟩

/-- A variable that is bound in the innermost frame is bound in the innermost
layer. -/
theorem mirrors_bindNew (h : w.Unshared) {top : Nat} {outer : Stack} {layer : Layer}
    {rest : Layers} (hstack : w.stack = top :: outer)
    (hlayer : layer.view = w.store.view top)
    (hrest : rest.map Layer.view = outer.map w.store.view) (name : String)
    (value : Value) (const : Bool) :
    Mirrors { w with store := w.store.bindNew top name value const }
      (layer.bind name ⟨value, const⟩ :: rest) := by
  have hapart := h.apart
  rw [hstack] at hapart
  have htop : top < w.store.frames.size := h.given top (hstack ▸ List.mem_cons_self)
  unfold Mirrors
  rw [hstack, List.map_cons, List.map_cons, Layer.view_bind,
    Store.view_bindNew_self h.bound _ _ _ htop, ← hlayer, hrest]
  congr 1
  refine List.map_congr_left fun j hj => ?_
  have hne : j ≠ top := ((List.pairwise_cons.mp hapart).1 j hj).1.symm
  rw [Store.view_bindNew_of_ne h.bound name value const hne]

/-- An assignment replaces the innermost variable of its name, and shows nowhere
else. -/
theorem mirrors_assigned {s : Store} (hbound : s.Bound) (hone : s.OneName)
    (value : Value) {name : String} {cell : Nat} {stack : Stack}
    (hapart : stack.Pairwise s.Apart) (hresolve : s.resolve? name stack = some cell)
    {layers : Layers} (h : layers.map Layer.view = stack.map s.view) :
    (layers.replace name { s.cell cell with value }).map Layer.view =
      stack.map
        (Store.view
          { s with cells := s.cells.modify cell fun v => { v with value } }) := by
  induction stack generalizing layers with
  | nil => cases hresolve
  | cons top outer ih =>
      rw [List.map_cons] at h ⊢
      obtain ⟨layer, rest, rfl, hlayer, hrest⟩ := List.map_eq_cons_iff.mp h
      obtain ⟨htop, houter⟩ := List.pairwise_cons.mp hapart
      have hlookup : layer.names.lookup name =
          ((s.frame top).find? name).map s.cell :=
        congrFun (congrArg Prod.snd hlayer) name
      rw [Store.resolve?] at hresolve
      cases hfound : (s.frame top).find? name with
      | some found =>
          rw [hfound] at hresolve hlookup
          obtain rfl : found = cell := Option.some.inj hresolve
          have hsome : (layer.names.lookup name).isSome = true := by
            rw [hlookup]
            rfl
          rw [Layers.replace, if_pos hsome, List.map_cons, Layer.view_bind,
            Store.view_assigned_self hbound hone value hfound, ← hlayer, hrest]
          congr 1
          refine List.map_congr_left fun j hj => ?_
          exact (Store.view_assigned_of_ne value fun other =>
            (htop j hj).2 name other found hfound).symm
      | none =>
          rw [hfound] at hresolve hlookup
          have hnone : ¬ (layer.names.lookup name).isSome = true := by
            rw [hlookup]
            exact Bool.false_ne_true
          -- The variable is bound further out, so a frame without its name does not
          -- bind it.
          have hne : ∀ other, (s.frame top).find? other ≠ some cell := by
            intro other hother
            obtain ⟨j, _, hj⟩ := Store.exists_of_resolve? hresolve
            obtain rfl : other = name := hone top j other name cell hother hj
            rw [hfound] at hother
            cases hother
          rw [Layers.replace, if_neg hnone, List.map_cons, ih houter hresolve hrest,
            hlayer, Store.view_assigned_of_ne value hne]

/-- An operation has the same answer on a stack and on layers, and leaves them
mirroring each other. -/
def Agrees (operation : StackOperation) (w : Scope) (layers : Layers) : Prop :=
  (operation.perform w).1 = (operation.onLayers layers).1 ∧
    (operation.perform w).2.Mirrors (operation.onLayers layers).2

theorem push_agrees (h : w.Mirrors layers) (hunshared : w.Unshared)
    (kind : FrameKind) :
    Agrees (.push kind) w layers := by
  refine ⟨rfl, ?_⟩
  show Layer.view ⟨kind, ∅⟩ :: layers.map Layer.view =
    (w.store.addFrame ⟨kind, []⟩).2.view w.store.frames.size :: w.stack.map
      (w.store.addFrame ⟨kind, []⟩).2.view
  rw [Store.view_addFrame_self, h]
  refine congrArg₂ List.cons rfl (List.map_congr_left fun j hj => ?_)
  exact (Store.view_addFrame_of_lt _ (hunshared.given j hj)).symm

theorem truncate_agrees (h : w.Mirrors layers) (depth : Nat) :
    Agrees (.truncate depth) w layers := by
  have hlength : layers.length = w.stack.length := by
    simpa using congrArg List.length h
  refine ⟨rfl, ?_⟩
  show (layers.drop (layers.length - depth)).map Layer.view =
    (w.stack.drop (w.stack.length - depth)).map w.store.view
  rw [List.map_drop, List.map_drop, h, hlength]

theorem declare_agrees (h : w.Mirrors layers) (hunshared : w.Unshared)
    (name : String) (value : Value) (const : Bool) :
    Agrees (.declare name value const) w layers := by
  obtain ⟨s, stack⟩ := w
  rcases h.cases with ⟨rfl, rfl⟩ | ⟨top, outer, layer, rest, rfl, rfl,
    hlayer, hrest⟩
  · exact ⟨rfl, h⟩
  · have hlookup : layer.names.lookup name =
        ((s.frame top).find? name).map s.cell :=
      congrFun (congrArg Prod.snd hlayer) name
    have hmem : name ∈ layer.names ↔ ((s.frame top).find? name).isSome = true := by
      rw [← Finmap.lookup_isSome, hlookup, Option.isSome_map]
    unfold Agrees
    simp only [StackOperation.perform, Store.declare, StackOperation.onLayers, hmem]
    by_cases hfound : ((s.frame top).find? name).isSome = true
    · simp only [if_pos hfound]
      exact ⟨rfl, h⟩
    · simp only [if_neg hfound]
      exact ⟨rfl, mirrors_bindNew hunshared rfl hlayer hrest name value const⟩

theorem override_agrees (h : w.Mirrors layers) (hunshared : w.Unshared)
    (name : String) (value : Value) (const : Bool) :
    Agrees (.override name value const) w layers := by
  obtain ⟨s, stack⟩ := w
  rcases h.cases with ⟨rfl, rfl⟩ | ⟨top, outer, layer, rest, rfl, rfl,
    hlayer, hrest⟩
  · exact ⟨rfl, h⟩
  · exact ⟨rfl, mirrors_bindNew hunshared rfl hlayer hrest name value const⟩

theorem access_agrees (h : w.Mirrors layers) (name : String) :
    Agrees (.access name) w layers := by
  unfold Agrees
  simp only [StackOperation.perform, StackOperation.onLayers,
    Store.access, h.find?_eq]
  cases w.store.resolve? name w.stack with
  | none => exact ⟨rfl, h⟩
  | some cell => exact ⟨rfl, h⟩

theorem assign_agrees (h : w.Mirrors layers) (hunshared : w.Unshared)
    (name : String) (value : Value) :
    Agrees (.assign name value) w layers := by
  unfold Agrees
  simp only [StackOperation.perform, StackOperation.onLayers,
    Store.assign, h.find?_eq]
  cases hresolve : w.store.resolve? name w.stack with
  | none => exact ⟨rfl, h⟩
  | some cell =>
      have hmirrors :=
        mirrors_assigned hunshared.bound hunshared.oneName value
          hunshared.apart hresolve h
      dsimp only [Option.map_some]
      generalize w.store.cell cell = v at hmirrors ⊢
      obtain ⟨old, const⟩ := v
      cases const with
      | true => exact ⟨rfl, h⟩
      | false => exact ⟨rfl, hmirrors⟩

/-- The copy of the innermost frame shows what that frame has shown. -/
theorem settle_agrees (h : w.Mirrors layers) (hunshared : w.Unshared) :
    Agrees .settle w layers := by
  obtain ⟨s, stack⟩ := w
  rcases h.cases with ⟨rfl, rfl⟩ | ⟨top, outer, layer, rest, rfl, rfl,
    hlayer, hrest⟩
  · exact ⟨rfl, h⟩
  · refine ⟨rfl, ?_⟩
    show layer.view :: rest.map Layer.view =
      (s.addFrame (s.frame top)).2.view s.frames.size ::
        outer.map (s.addFrame (s.frame top)).2.view
    rw [Store.view_addFrame_self, hrest, hlayer]
    refine congrArg₂ List.cons rfl (List.map_congr_left fun j hj => ?_)
    exact (Store.view_addFrame_of_lt
      _ (hunshared.given j (List.mem_cons_of_mem top hj))).symm

theorem checkBreak_agrees (h : w.Mirrors layers) : Agrees .checkBreak w layers := by
  have hsame : layers.inLoop = w.store.inLoop w.stack := by
    rw [Bool.eq_iff_iff, Store.inLoop_eq, ← h.kinds_eq, Layers.inLoop,
      decide_eq_true_eq]
  refine ⟨?_, h⟩
  simp only [StackOperation.perform, StackOperation.onLayers,
    Store.checkBreak, hsame]
  split <;> rfl

theorem checkReturn_agrees (h : w.Mirrors layers) :
    Agrees .checkReturn w layers := by
  have hsame : layers.inFunction = w.store.inFunction w.stack := by
    rw [Bool.eq_iff_iff, Store.inFunction_eq, ← h.kinds_eq, Layers.inFunction,
      decide_eq_true_eq]
  refine ⟨?_, h⟩
  simp only [StackOperation.perform, StackOperation.onLayers,
    Store.checkReturn, hsame]
  split <;> rfl

/-- Whatever is done to a stack that shares nothing, and to the layers that mirror
it, has the same answer. -/
theorem Mirrors.agrees (h : w.Mirrors layers) (hunshared : w.Unshared)
    (operation : StackOperation) :
    Agrees operation w layers := by
  cases operation with
  | push kind => exact push_agrees h hunshared kind
  | truncate depth => exact truncate_agrees h depth
  | declare name value const => exact declare_agrees h hunshared name value const
  | override name value const => exact override_agrees h hunshared name value const
  | access name => exact access_agrees h name
  | assign name value => exact assign_agrees h hunshared name value
  | settle => exact settle_agrees h hunshared
  | checkBreak => exact checkBreak_agrees h
  | checkReturn => exact checkReturn_agrees h

theorem Mirrors.answers_eq (h : w.Mirrors layers) (hunshared : w.Unshared)
    (operations : List StackOperation) :
    w.answers operations = layers.answers operations := by
  induction operations generalizing w layers with
  | nil => rfl
  | cons operation rest ih =>
      obtain ⟨hanswer, hmirrors⟩ := h.agrees hunshared operation
      rw [answers, Layers.answers, hanswer,
        ih hmirrors (hunshared.perform operation)]

theorem new_unshared : new.Unshared where
  given := by
    intro i hi
    rw [List.mem_singleton.mp hi]
    decide
  bound := Family.ofHistory_bound []
  oneName := Family.ofHistory_oneName []
  apart := List.pairwise_singleton _ _

/-- Whatever is done to a new stack of which no copies are taken, it answers as
layers do that hold their variables themselves. -/
theorem plain_answers (operations : List StackOperation) :
    new.answers operations = Layers.new.answers operations := by
  have hmirrors : new.Mirrors Layers.new := rfl
  exact hmirrors.answers_eq new_unshared operations

end Scope

end ScriptLang
