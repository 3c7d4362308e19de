import ScriptLang.Proofs.Scope.Family

/-!
# What a release empties

A release empties the frames that were added since the one before it, and no other.
A frame that has been through a release is not added again, and yet it may still be
the innermost frame of a stack.  Names that are declared in it from then on outlive
every later release.

So the first release of a history leaves no name on any stack.  After a later one, a
stack has lost exactly the names that none of its older frames binds: those that
were there at the release before (`release_empties_iff`).
-/

namespace ScriptLang

namespace Store

/-! ## Names after a release -/

theorem getElem?_emptied (live : List Nat) (frames : Array Frame) (i : Nat) :
    (live.foldl (fun frames index => frames.modify index fun f =>
      { f with names := [] }) frames)[i]? =
      if i ∈ live then frames[i]?.map fun f => { f with names := [] }
          else frames[i]? := by
  induction live generalizing frames with
  | nil => simp
  | cons index live ih =>
      rw [List.foldl_cons, ih, Array.getElem?_modify]
      by_cases heq : index = i
      · by_cases hmem : i ∈ live
        · simp [heq, hmem, Function.comp_def]
        · simp [heq, hmem]
      · by_cases hmem : i ∈ live
        · simp [heq, hmem]
        · simp [heq, Ne.symm heq, hmem]

/-- The frames that were to be emptied bind nothing afterwards, and the others what
they did. -/
theorem find?_release (s : Store) (i : Nat) (name : String) :
    (s.release.frame i).find? name = if i ∈ s.live then none
      else (s.frame i).find? name := by
  have hframe : s.release.frames[i]? =
      if i ∈ s.live then s.frames[i]?.map fun f => { f with names := [] }
          else s.frames[i]? :=
    getElem?_emptied s.live s.frames i
  unfold Store.frame
  rw [hframe]
  by_cases hmem : i ∈ s.live
  · rw [if_pos hmem, if_pos hmem]
    cases s.frames[i]? <;> rfl
  · rw [if_neg hmem, if_neg hmem]

theorem resolve?_eq_none_iff {s : Store} {name : String} {stack : Stack} :
    s.resolve? name stack = none ↔ ∀ i ∈ stack, (s.frame i).find? name = none := by
  induction stack with
  | nil => simp [resolve?]
  | cons index outer ih =>
      cases hfound : (s.frame index).find? name with
      | some cell => simp [resolve?, hfound]
      | none => simp [resolve?, hfound, ih]

/-- A name is undefined on a stack exactly if none of the frames binds it. -/
theorem access_eq_undefined_iff {s : Store} {name : String} {stack : Stack} :
    s.access name stack = .error (.undefinedVariable name) ↔
      ∀ i ∈ stack, (s.frame i).find? name = none := by
  rw [← resolve?_eq_none_iff]
  unfold access
  cases s.resolve? name stack with
  | none => simp
  | some cell => simp

theorem size_release (s : Store) : s.release.frames.size = s.frames.size := by
  have hsize : ∀ (live : List Nat) (frames : Array Frame),
      (live.foldl (fun frames index => frames.modify index fun f =>
        { f with names := [] }) frames).size =
        frames.size := by
    intro live
    induction live with
    | nil => intro frames; rfl
    | cons index live ih =>
        intro frames
        rw [List.foldl_cons, ih, Array.size_modify]
  exact hsize s.live s.frames

end Store

namespace Family

/-! ## Which frames are to be emptied -/

variable {w : Family} {mark : Nat} {history : List (Nat × ScopeOperation)}

/-- The frames that the next release will empty are all those from the index `mark`
on. -/
structure Registered (w : Family) (mark : Nat) : Prop where
  given : ∀ stack ∈ w.members, w.store.Given stack
  mark_le : mark ≤ w.store.frames.size
  live_iff : ∀ i, i ∈ w.store.live ↔ mark ≤ i ∧ i < w.store.frames.size

theorem new_registered : new.Registered 0 where
  given := by
    intro stack hstack i hi
    rw [List.mem_singleton.mp hstack] at hi
    rw [List.mem_singleton.mp hi]
    decide
  mark_le := Nat.zero_le _
  live_iff i := by
    have hsize : new.store.frames.size = 1 := rfl
    have hlive : new.store.live = [0] := rfl
    rw [hsize, hlive, List.mem_singleton]
    omega

/-- Whatever else is done, the frames are registered from the same index on. -/
theorem Registered.act (h : w.Registered mark) (on : Nat)
    {operation : ScopeOperation} (hoperation : operation.isRelease = false) :
    (w.act on operation).Registered mark := by
  obtain ⟨hgiven, hmark, hlive⟩ := h
  rcases act_cases w on hoperation with ⟨⟨hsize, hsame⟩, hstacks⟩ | ⟨frame,
    hstore, hstacks⟩
  · refine ⟨?_, by omega, ?_⟩
    · intro stack hstack i hi
      obtain ⟨other, hother, hmem⟩ := hstacks stack hstack i hi
      rw [hsize]
      exact hgiven other hother i hmem
    · intro i
      rw [hsize, hsame]
      exact hlive i
  · have hsize : (w.act on operation).store.frames.size =
        w.store.frames.size + 1 := by
      rw [hstore, Store.size_addFrame]
    refine ⟨?_, by omega, ?_⟩
    · intro stack hstack i hi
      rw [hsize]
      rcases hstacks stack hstack i hi with heq | ⟨other, hother, hmem⟩
      · omega
      · have hlt := hgiven other hother i hmem
        omega
    · intro i
      have hregistered : (w.act on operation).store.live = w.store.frames.size ::
          w.store.live := by
        rw [hstore]
        rfl
      rw [hregistered, hsize, List.mem_cons, hlive]
      omega

/-- After a release no frame is registered, so the next ones to be are those still
to come. -/
theorem Registered.release (h : w.Registered mark) (on : Nat) :
    (w.act on .release).Registered w.store.frames.size := by
  have hsize : (w.act on .release).store.frames.size = w.store.frames.size :=
    Store.size_release w.store
  refine ⟨?_, by omega, ?_⟩
  · intro stack hstack i hi
    rw [hsize]
    exact h.given stack hstack i hi
  · intro i
    have hlive : (w.act on .release).store.live = [] := rfl
    rw [hlive, hsize]
    simp only [List.not_mem_nil, false_iff]
    omega

theorem Registered.foldl (h : w.Registered mark)
    (hhistory : ∀ step ∈ history, step.2.isRelease = false) :
    (history.foldl (fun w step => w.act step.1 step.2) w).Registered mark := by
  induction history generalizing w with
  | nil => exact h
  | cons step history ih =>
      have hstep := h.act step.1 (hhistory step List.mem_cons_self)
      exact ih hstep fun other hother =>
        hhistory other (List.mem_cons_of_mem _ hother)

/-- Releases in between only move the index from which on the frames are
registered. -/
theorem Registered.exists_foldl (h : w.Registered mark)
    (history : List (Nat × ScopeOperation)) :
    ∃ mark', (history.foldl (fun w step => w.act step.1 step.2) w).Registered
      mark' := by
  induction history generalizing w mark with
  | nil => exact ⟨mark, h⟩
  | cons step history ih =>
      obtain ⟨on, operation⟩ := step
      cases operation with
      | release => exact ih (h.release on)
      | _ => exact ih (h.act on rfl)

/-- A name that a release leaves on a stack is bound in a frame that was not
registered. -/
theorem Registered.access_release_iff (h : w.Registered mark) {stack : Stack}
    (hstack : stack ∈ w.members) (on : Nat) (name : String) :
    (w.act on .release).store.access name stack = .error (.undefinedVariable name) ↔
      ∀ i ∈ stack, i < mark → (w.store.frame i).find? name = none := by
  have hfind : ∀ i ∈ stack, ((w.act on .release).store.frame i).find? name = none ↔
      (i < mark → (w.store.frame i).find? name = none) := by
    intro i hi
    have hlt := h.given stack hstack i hi
    show (w.store.release.frame i).find? name = none ↔ _
    rw [Store.find?_release]
    by_cases hmark : i < mark
    · have hold : i ∉ w.store.live :=
        fun hmem => Nat.not_lt.mpr ((h.live_iff i).mp hmem).1 hmark
      rw [if_neg hold]
      exact ⟨fun hnone _ => hnone, fun hnone => hnone hmark⟩
    · have hregistered : i ∈ w.store.live :=
        (h.live_iff i).mpr ⟨Nat.le_of_not_lt hmark, hlt⟩
      rw [if_pos hregistered]
      exact ⟨fun _ hlt => absurd hlt hmark, fun _ => rfl⟩
  rw [Store.access_eq_undefined_iff]
  exact forall₂_congr hfind

/-! ## The first release and later ones -/

/-- After the first release of a history every name is undefined on every stack.
After a later one, a name is undefined on a stack exactly if none of its frames that
were there at the release before binds it, that is, if it has not been declared anew
in one of those. -/
theorem release_empties_iff (on : Nat) (name : String) :
    (∀ history : List (Nat × ScopeOperation),
      (∀ step ∈ history, step.2.isRelease = false) →
      ∀ stack ∈ (ofHistory (history ++ [(on, .release)])).members,
        (ofHistory (history ++ [(on, .release)])).store.access name stack =
          .error (.undefinedVariable name)) ∧
    ∀ (before : List (Nat × ScopeOperation)) (earlier : Nat)
        (after : List (Nat × ScopeOperation)),
      (∀ step ∈ after, step.2.isRelease = false) →
      let history := before ++ (earlier, .release) :: after
      ∀ stack ∈ (ofHistory (history ++ [(on, .release)])).members,
        ((ofHistory (history ++ [(on, .release)])).store.access name stack =
            .error (.undefinedVariable name) ↔
          ∀ i ∈ stack, i < (ofHistory before).store.frames.size →
            ((ofHistory history).store.frame i).find? name = none) := by
  constructor
  · intro history hhistory stack hstack
    rw [ofHistory_concat] at hstack ⊢
    have hregistered : (ofHistory history).Registered 0 :=
      new_registered.foldl hhistory
    rw [hregistered.access_release_iff hstack on name]
    intro i _ hi
    exact absurd hi (Nat.not_lt_zero i)
  · intro before earlier after hafter history stack hstack
    rw [ofHistory_concat] at hstack ⊢
    obtain ⟨mark, hmark⟩ : ∃ mark, (ofHistory before).Registered mark :=
      new_registered.exists_foldl before
    have hregistered : (ofHistory history).Registered
        (ofHistory before).store.frames.size := by
      have hrun : ofHistory history =
          after.foldl (fun w step => w.act step.1 step.2)
              ((ofHistory before).act earlier .release) := by
        simp [history, ofHistory]
      rw [hrun]
      exact (hmark.release earlier).foldl hafter
    exact hregistered.access_release_iff hstack on name

/-- A name that is declared in the root frame between two releases is still there
after the second one. -/
theorem declaredBetweenReleases_survives :
    let history : List (Nat × ScopeOperation) :=
      [(0, .declare "x" (.int 1) false), (0, .release),
        (0, .declare "y" (.int 2) false)]
    let released := ofHistory (history ++ [(0, .release)])
    released.members = [[0]] ∧ released.store.access "y" [0] = .ok (.int 2) ∧
      released.store.access "y" [0] ≠ .error (.undefinedVariable "y") := by
  intro history released
  refine ⟨rfl, rfl, ?_⟩
  have hiff := (release_empties_iff 0 "y").2 [(0, .declare "x" (.int 1) false)] 0
    [(0, .declare "y" (.int 2) false)] (by simp [ScopeOperation.isRelease])
      [0] (by decide)
  intro hundefined
  have hnone := hiff.mp hundefined 0 (by decide) (by decide)
  cases hnone

end Family

end ScriptLang
