import ScriptLang.Proofs.Eval.Pieces
import ScriptLang.Proofs.Parse.Layout

/-!
# Layout does not change meaning

A script whose tokens stand elsewhere, in the same order, is parsed to the same
trees elsewhere, and trees that stand elsewhere are run alike.  So of two texts with
the same tokens, neither blanks nor comments make a difference, as long as no token
is malformed (`layout_irrelevant`).
-/

namespace ScriptLang

/-! ## Values without places -/

/-- A value without the places inside a closure. -/
def Value.bare : Value → Value
  | .closure f => .closure { f with definition := f.definition.bare }
  | v => v

/-- A store without the places inside the closures that its variables hold. -/
def Store.bare (s : Store) : Store :=
  { s with cells := s.cells.map fun c => { c with value := c.value.bare } }

/-- A machine without the places inside closures. -/
def Machine.bare (m : Machine) : Machine := { m with store := m.store.bare }

section

variable {φ : Position → Position}

/-- Values that are alike but for places are equal without them. -/
theorem placeless_value_bare {v v' : Value} (h : (placeless φ).Alike v v') :
    v'.bare = v.bare := by
  cases h with
  | plain | native | namespace_ => rfl
  | closure => simp only [Value.bare, FunctionDef.bare_moved]

/-- Stores that are alike but for places are equal without them. -/
theorem placeless_store_bare {s s' : Store} (h : (placeless φ).Stores s s') :
    s'.bare = s.bare := by
  have hcells : s'.bare.cells = s.bare.cells := by
    refine Array.ext ?_ fun i hi hi' => ?_
    · simp only [Store.bare, Array.size_map, h.size_eq]
    · have hsize : i < s.cells.size := by simpa [Store.bare] using hi'
      have hsize' : i < s'.cells.size := by rwa [h.size_eq]
      have hvalue := placeless_value_bare (h.value i)
      have hconst := h.const_eq i
      simp only [Store.cell, Array.getElem?_eq_getElem hsize,
        Array.getElem?_eq_getElem hsize', Option.getD_some] at hvalue hconst
      simp only [Store.bare, Array.getElem_map, hvalue, hconst]
  have hframes := h.frames_eq
  have hlive := h.live_eq
  obtain ⟨cells, frames, live⟩ := s
  obtain ⟨cells', frames', live'⟩ := s'
  simp only [Store.bare] at hcells hframes hlive ⊢
  rw [hcells, hframes, hlive]

end

namespace Interpreter

variable {φ : Position → Position} {old : Array (Located Fault)}
  {i i' : Interpreter}

/-- Machines that are alike but for places are equal without them. -/
theorem Alike.machine_bare (h : i.Alike φ old i') :
    i'.machine.bare = i.machine.bare := by
  rw [h.machines.eq_with]
  simp only [Machine.bare, placeless_store_bare h.machines.store]

/-- The names of the top level have the same values but for places. -/
theorem Alike.global?_bare (h : i.Alike φ old i') (name : String) :
    (i'.global? name).map Value.bare = (i.global? name).map Value.bare := by
  have hrel := h.global?_rel name
  generalize i.global? name = v at hrel
  generalize i'.global? name = v' at hrel
  cases hrel with
  | none => rfl
  | some hv => exact congrArg some (placeless_value_bare hv)

/-- The same faults have been noted, at other places. -/
theorem Alike.faults_eq (h : i.Alike φ old i') :
    i'.faults.map Located.what = i.faults.map Located.what := by
  obtain ⟨later, hfaults, hfaults'⟩ := h.faults
  rw [hfaults, hfaults', Array.map_append, Array.map_append, Array.map_map]
  rfl

/-- The same tokens at other places, in the same order, are run alike. -/
theorem runScript_relocates (hφ : Position.KeepsOrder φ) {s s' : ParseState}
    (h : s.Relocates φ s')
    (hhost : ∀ action ∈ i.setting.host, HostAction.Blind action) (fuel : Nat) :
    (i.runScript fuel s).tally.Alike φ i.faults (i.runScript fuel s').tally := by
  have houtcomes := (h.outcomes hφ).1
  unfold ParseState.outcomes at houtcomes
  rw [runScript_tally, runScript_tally, houtcomes]
  exact Tally.foldl_alike hhost ⟨alike_refl φ i, rfl, rfl⟩ fuel s.outcomes.1

end Interpreter

/-! ## Two texts -/

open Interpreter

/-- Two texts without lexical errors whose tokens are the same, comments aside, mean
the same.

They are parsed to the same statements up to places, with the same successes, the
same syntax errors and the same warnings.  On every interpreter whose functions of
the host do not look at places, both end in the same way, with the same output, the
same counts and the same faults up to places, and with every name, and every
variable of every closure, bound to the same value up to the places inside
closures. -/
theorem layout_irrelevant {limit limit' : Nat} {p q : String}
    (hp : Lexed.Clean limit p) (hq : Lexed.Clean limit' q)
    (h : (Token.ofText limit p).map Token.lexeme =
      (Token.ofText limit' q).map Token.lexeme) :
    let first := ParseState.ofText limit p
    let second := ParseState.ofText limit' q
    first.outcomes.1.map ParseOutcome.bare =
      second.outcomes.1.map ParseOutcome.bare ∧
      first.outcomes.2.errors.map Located.what =
        second.outcomes.2.errors.map Located.what ∧
      first.outcomes.2.warnings.map Located.what =
        second.outcomes.2.warnings.map Located.what ∧
      ∀ (fuel : Nat) (i : Interpreter),
        (∀ action ∈ i.setting.host, HostAction.Blind action) →
        let ran := i.runScript fuel first
        let ran' := i.runScript fuel second
        ran.complete = ran'.complete ∧ ran.stats = ran'.stats ∧
          ran.interpreter.machine.console = ran'.interpreter.machine.console ∧
          ran.interpreter.faults.map Located.what =
            ran'.interpreter.faults.map Located.what ∧
          (∀ name, (ran.interpreter.global? name).map Value.bare =
            (ran'.interpreter.global? name).map Value.bare) ∧
          ran.interpreter.machine.bare = ran'.interpreter.machine.bare := by
  intro first second
  obtain ⟨φ, hφ, hfirst⟩ := ParseState.skeleton_relocates hp
  obtain ⟨ψ, hψ, hsecond⟩ := ParseState.skeleton_relocates hq
  rw [← h] at hsecond
  generalize ParseState.skeleton ((Token.ofText limit p).map Token.lexeme) =
    script at hfirst hsecond
  obtain ⟨houtcomes, herrors, hwarnings⟩ := hfirst.outcomes_bare hφ
  obtain ⟨houtcomes', herrors', hwarnings'⟩ := hsecond.outcomes_bare hψ
  refine ⟨houtcomes.trans houtcomes'.symm, herrors.trans herrors'.symm,
    hwarnings.trans hwarnings'.symm, ?_⟩
  intro fuel i hhost ran ran'
  obtain ⟨halike, hstats, hcomplete⟩ := runScript_relocates hφ hfirst hhost fuel
  obtain ⟨halike', hstats', hcomplete'⟩ := runScript_relocates hψ hsecond hhost fuel
  refine ⟨hcomplete.trans hcomplete'.symm, hstats.trans hstats'.symm, ?_, ?_,
    fun name => ?_, ?_⟩
  · exact halike.console_eq.trans halike'.console_eq.symm
  · exact halike.faults_eq.trans halike'.faults_eq.symm
  · exact (halike.global?_bare name).trans (halike'.global?_bare name).symm
  · exact halike.machine_bare.trans halike'.machine_bare.symm

/-- Two layouts of a script that defines a function, fails in a call of it and ends
with a stray bracket. -/
theorem commentedCall_layout :
    let p := "init f=functi()1/0;f();)"
    let q := "init f =\n  functi () 1/0; // fails\n/* now */ f ();\n)"
    let i := (Registry.standard.install (Interpreter.new {})).2
    let ran := i.runScript 9 (ParseState.ofText 4096 p)
    let ran' := i.runScript 9 (ParseState.ofText 4096 q)
    Lexed.Clean 4096 p ∧ Lexed.Clean 4096 q ∧ ran.stats = ⟨1, 1, 1⟩ ∧
      ran.stats = ran'.stats ∧
      ran.interpreter.faults.map Located.what =
        ran'.interpreter.faults.map Located.what ∧
      (ran.interpreter.global? "f").map Value.bare =
        (ran'.interpreter.global? "f").map Value.bare := by
  intro p q i ran ran'
  have hp : Lexed.Clean 4096 p := by decide +kernel
  have hq : Lexed.Clean 4096 q := by decide +kernel
  have hsame : (Token.ofText 4096 p).map Token.lexeme =
      (Token.ofText 4096 q).map Token.lexeme := by
    decide +kernel
  have hcounts : ran.stats = ⟨1, 1, 1⟩ := by
    unfold ran i Registry.install
    rw [Registry.standard_sorted]
    decide +kernel
  obtain ⟨_, _, _, hruns⟩ := layout_irrelevant hp hq hsame
  obtain ⟨_, hstats, _, hfaults, hglobals, _⟩ :=
    hruns 9 i (Registry.standard_install_blind {})
  exact ⟨hp, hq, hcounts, hstats, hfaults, hglobals "f"⟩

end ScriptLang
