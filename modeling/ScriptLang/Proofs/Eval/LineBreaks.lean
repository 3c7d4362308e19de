import ScriptLang.Proofs.Eval.Diagnostics
import ScriptLang.Proofs.Eval.Layout
import ScriptLang.Proofs.Token.Widths

/-!
# Line breaks do not change meaning

A text in which every line break is written with a single line feed has the same
tokens as before, at the same lines and columns, and so it is parsed and run alike.
Only offsets differ, which are counted in raw characters (`lineBreaks_irrelevant`).
-/

namespace ScriptLang

/-! ## Notes -/

section Notes

variable (φ : Position → Position)

/-- The errors among notes that are moved. -/
theorem Notes.errors_moved (notes : List Notes) :
    (notes.map (Notes.moved φ)).filterMap Notes.error =
      (notes.filterMap Notes.error).map (Located.moved φ) := by
  rw [List.filterMap_map, List.map_filterMap]
  rfl

/-- The warnings among notes that are moved. -/
theorem Notes.warnings_moved (notes : List Notes) :
    (notes.map (Notes.moved φ)).flatMap Notes.warnings =
      (notes.flatMap Notes.warnings).map (Located.moved φ) := by
  rw [List.flatMap_map, List.map_flatMap]
  rfl

/-- Tokens that are moved are the same tokens elsewhere. -/
theorem Entry.relocates_moved (es : List Entry) :
    List.Forall₂ (Relocates φ) es (es.map (Entry.moved φ)) := by
  rw [List.forall₂_map_right_iff, List.forall₂_same]
  intro e _
  refine ⟨rfl, ?_⟩
  rw [Entry.moved, Notes.errors_moved, List.length_map]

end Notes

/-! ## Two texts -/

namespace LineBreak

/-- Where a place of the text with unified line breaks is found in the text itself:
at the same line and column, and at the offset of the same logical character. -/
def origin (source : String) : Position → Position :=
  Position.stretch (Glyph.rawOffset (Glyph.ofChars source.toList))

/-- The places of the text with unified line breaks are in the order of the original
ones. -/
theorem origin_keepsOrder (source : String) : Position.KeepsOrder (origin source) :=
  Position.stretch_keepsOrder (Glyph.rawOffset_strictMono
    (Glyph.width_pos_of_mem source.toList))

/-- Both texts start at the same place. -/
theorem origin_start (source : String) :
    origin source Position.start = Position.start := by
  simp only [origin, Position.stretch, Position.start, Glyph.rawOffset_zero]

/-- Parsing a text goes along with parsing it with unified line breaks. -/
theorem relocates (limit : Nat) (source : String) :
    (ParseState.ofText limit (unified source)).Relocates (origin source)
      (ParseState.ofText limit source) := by
  have hentries : Entry.ofText limit source =
      (Entry.ofText limit (unified source)).map (Entry.moved (origin source)) := by
    rw [Entry.ofText, Lexed.ofText_unified]
    exact Entry.gather_moved (origin source) [] _
  refine .ofEntries ?_ (origin_start source)
  rw [hentries]
  exact Entry.relocates_moved (origin source) _

/-- The notes of the lexer that a parse sees go along as well. -/
theorem outcomes_notes (limit : Nat) (source : String) :
    (ParseState.ofText limit source).outcomes.2.notes =
      (ParseState.ofText limit (unified source)).outcomes.2.notes.map
        (Notes.moved (origin source)) := by
  rw [ParseState.outcomes_notes, ParseState.outcomes_notes, Lexed.ofText_unified,
    List.map_map, List.map_map]
  rfl

end LineBreak

open Interpreter LineBreak

/-- It makes no difference how the line breaks of a text are written.

A text and the text with unified line breaks have the same tokens with the same
notes, the same outcomes and the same reports, at the same lines and columns: all
places differ in their offsets only.  And on every interpreter whose functions of
the host do not look at places, both end in the same way, with the same output, the
same counts and the same faults, which are reported at the same lines and
columns. -/
theorem lineBreaks_irrelevant (limit : Nat) (source : String) :
    let plain := ParseState.ofText limit (unified source)
    let text := ParseState.ofText limit source
    let move := origin source
    (∀ place, (move place).line = place.line ∧ (move place).column = place.column) ∧
      Lexed.ofText limit source = (Lexed.ofText limit (unified source)).map
        (Lexed.moved move) ∧
      text.outcomes.1 = plain.outcomes.1.map (ParseOutcome.moved move) ∧
      text.outcomes.2.errors = plain.outcomes.2.errors.map (Located.moved move) ∧
      text.outcomes.2.warnings = plain.outcomes.2.warnings.map
        (Located.moved move) ∧
      text.outcomes.2.lexicalErrors = plain.outcomes.2.lexicalErrors.map
        (Located.moved move) ∧
      text.outcomes.2.lexicalWarnings = plain.outcomes.2.lexicalWarnings.map
        (Located.moved move) ∧
      ∀ (fuel : Nat) (i : Interpreter),
        (∀ action ∈ i.setting.host, HostAction.Blind action) →
        let ran := i.runScript fuel plain
        let ran' := i.runScript fuel text
        ran'.complete = ran.complete ∧ ran'.stats = ran.stats ∧
          ran'.interpreter.machine.console = ran.interpreter.machine.console ∧
          (∃ later, ran.interpreter.faults = i.faults ++ later ∧
            ran'.interpreter.faults = i.faults ++ later.map (Located.moved move)) ∧
          ran'.interpreter.machine.bare = ran.interpreter.machine.bare := by
  intro plain text move
  have hrelocates := relocates limit source
  have hnotes := LineBreak.outcomes_notes limit source
  obtain ⟨houtcomes, hstate⟩ := hrelocates.outcomes (origin_keepsOrder source)
  refine ⟨fun _ => ⟨rfl, rfl⟩, Lexed.ofText_unified limit source, houtcomes,
    hstate.errors_eq,
    hstate.warnings_eq, ?_, ?_, fun fuel i hhost => ?_⟩
  · rw [ParseState.lexicalErrors, hnotes, Notes.errors_moved,
      ParseState.lexicalErrors]
  · rw [ParseState.lexicalWarnings, hnotes, Notes.warnings_moved,
      ParseState.lexicalWarnings]
  · obtain ⟨halike, hstats, hcomplete⟩ :=
      runScript_relocates (origin_keepsOrder source) hrelocates hhost fuel
    exact ⟨hcomplete, hstats, halike.console_eq, halike.faults, halike.machine_bare⟩

/-- Line breaks of all spellings: between statements, in a string behind a
backslash, and some that could be taken apart in two ways. -/
theorem mixedLineBreaks_alike :
    let source := "1;\r\n\"a\\\n\rb\";\n\r\n// no\u2028x / 0;\r"
    let i := (Registry.standard.install (Interpreter.new {})).2
    let ran := i.runScript 9 (ParseState.ofText 4096 (unified source))
    let ran' := i.runScript 9 (ParseState.ofText 4096 source)
    unified source = "1;\n\"a\\\nb\";\n\n// no\nx / 0;\n" ∧
      ran'.stats = ⟨2, 1, 0⟩ ∧ ran'.stats = ran.stats ∧
      ran.interpreter.faults.toList = [⟨.undefinedVariable "x", ⟨18, 6, 1⟩⟩] ∧
      ran'.interpreter.faults.toList = [⟨.undefinedVariable "x", ⟨21, 6, 1⟩⟩] := by
  intro source i ran ran'
  obtain ⟨_, _, _, _, _, _, _, hruns⟩ := lineBreaks_irrelevant 4096 source
  obtain ⟨_, hstats, _, _, _⟩ := hruns 9 i (Registry.standard_install_blind {})
  refine ⟨by decide +kernel, ?_, hstats, ?_, ?_⟩
  · unfold ran' i Registry.install
    rw [Registry.standard_sorted]
    decide +kernel
  · unfold ran i Registry.install
    rw [Registry.standard_sorted]
    decide +kernel
  · unfold ran' i Registry.install
    rw [Registry.standard_sorted]
    decide +kernel

end ScriptLang
