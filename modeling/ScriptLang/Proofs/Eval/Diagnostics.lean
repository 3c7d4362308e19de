import ScriptLang.Proofs.Eval.Accounting
import ScriptLang.Proofs.Parse.Buffer

/-!
# All commands see the same diagnostics

Printing the tokens of a text, parsing it and running it report the same on its
tokens.  A parse looks at every token before it is done, the end of the text
included, and reads the comments before a token on the way to it.  Whatever is read
is logged then, and nothing is read twice, however far a parser looks ahead; so the
log ends up with the notes of the lexer, each of them once and in order
(`Parser.outcomes_lexical`).  A run that is not cut short pulls all outcomes of a
parse, whatever their statements do, and leaves the parser where a parse without a
run leaves it (`Interpreter.runScript_diagnostics`).
-/

namespace ScriptLang

/-! ## What the lexer notes -/

/-- In front of a token that is no comment, the notes on comments are gathered with
it. -/
theorem Entry.notes_gather (pending : List Notes) (before : List Lexed) {l : Lexed}
    (hl : l.token.kind.isComment = false) :
    (gather pending (before ++ [l])).flatMap Entry.notes = pending ++
      (before ++ [l]).map Lexed.notes := by
  induction before generalizing pending with
  | nil => simp [gather, hl]
  | cons k before ih =>
      rw [List.cons_append, gather, List.map_cons]
      split
      · rw [ih, List.append_assoc, List.singleton_append]
      · rw [List.flatMap_cons, ih, List.nil_append, List.append_assoc,
          List.singleton_append]

/-- With its tokens, a parse is handed all notes of the lexer. -/
theorem Entry.notes_ofText (limit : Nat) (source : String) :
    (ofText limit source).flatMap Entry.notes =
      (Lexed.ofText limit source).map Lexed.notes := by
  obtain ⟨before, hall, _⟩ := Lexed.all_eq_concat limit (Cursor.ofText source)
  rw [ofText, Lexed.ofText, hall]
  exact notes_gather [] before rfl

namespace ParseState

/-- A parse that has come to the end of the text has seen every note of the
lexer. -/
theorem outcomes_notes (limit : Nat) (source : String) :
    (ofText limit source).outcomes.2.notes =
      (Lexed.ofText limit source).map Lexed.notes := by
  obtain ⟨t, hyields, hatEnd, hstate⟩ := (ofText limit source).outcomes_yields
  obtain ⟨_, hlast⟩ := hyields.consumed_eq hatEnd
  have hbetween : t.Between := hyields.between (ofEntries_between _)
  have hentries : (t.look 1).entries = Entry.ofText limit source :=
    hyields.entries_eq
  -- Only the end of the text is left, and the parse has looked at it.
  have hseen : (t.look 1).entries.length ≤ (t.look 1).seen := by
    obtain ⟨before, hsplit, htaken, _⟩ := hbetween.split
    show t.entries.length ≤ max t.seen (t.taken + 1)
    rw [hsplit, List.length_append, hlast, ← htaken]
    exact Nat.le_max_right _ _
  rw [hstate, notes, List.take_of_length_le hseen, hentries, Entry.notes_ofText]

end ParseState

/-- So has one that reads the tokens when it needs them, and each note has come to
its log once. -/
theorem Parser.outcomes_lexical (limit : Nat) (source : String) :
    (TokenSource.outcomes (ofText limit source)).2.tokens.lexical.Holds
      ((Lexer.ofText limit source).tokens.map Lexed.notes) := by
  have hlog := (outcomes_follow limit source).1.lexical
  rwa [ParseState.outcomes_notes, ← Lexer.tokens_ofText] at hlog

/-! ## Runs that are not cut short -/

namespace Interpreter

variable {σ : Type} [TokenSource σ]

/-- Such a run pulls the outcomes of a parse, and leaves the parser behind them. -/
theorem runUpTo_leaves {fuel count : Nat} {s : σ} {i : Interpreter} {stats : Stats}
    (hgoes : (runUpTo fuel count ⟨i, s, stats, true⟩).tally.ended = false) :
    (runUpTo fuel count ⟨i, s, stats, true⟩).parser =
      (TokenSource.outcomesUpTo count s).2 := by
  induction count generalizing s i stats with
  | zero => rfl
  | succ count ih =>
      have hquit : ¬ i.shouldQuit = true := by
        intro hquit
        rw [runUpTo, if_pos hquit] at hgoes
        simp [Progress.tally, Tally.ended, hquit] at hgoes
      rcases hnext : TokenSource.next? s with ⟨_ | o, s'⟩
      · rw [TokenSource.outcomesUpTo_of_none hnext]
        simp only [runUpTo, if_neg hquit, hnext]
      · rw [TokenSource.outcomesUpTo_of_some hnext]
        simp only [runUpTo, if_neg hquit, hnext] at hgoes ⊢
        rcases o with ⟨_ | st, _ | _⟩
        · exact ih hgoes
        · exact ih hgoes
        · exact ih hgoes
        · dsimp only at hgoes ⊢
          rcases hrun : i.run fuel st with ⟨v | fault | _, i'⟩
          · rw [hrun] at hgoes
            exact ih hgoes
          · rw [hrun] at hgoes
            exact ih hgoes
          · -- A statement that was given up ends a run.
            rw [hrun] at hgoes
            simp [Progress.tally, Tally.ended] at hgoes

/-- Such a run skips what has not parsed cleanly. -/
theorem runScript_parsed {fuel : Nat} {s : σ} {i : Interpreter}
    (hcomplete : (i.runScript fuel s).complete = true)
    (hquit : (i.runScript fuel s).interpreter.shouldQuit = false) :
    (i.runScript fuel s).parser = (TokenSource.outcomes s).2 ∧
      (i.runScript fuel s).stats.skipped =
        Command.skippedCount (TokenSource.outcomes s).1 := by
  have hgoes : (i.runScript fuel s).tally.ended = false := by
    simp [Tally.ended, Progress.tally, hcomplete, hquit]
  refine ⟨runUpTo_leaves hgoes, ?_⟩
  have htally := runScript_tally fuel s i
  have htakes := Tally.takes_of_not_ended (htally ▸ hgoes)
  rw [← htally] at htakes
  exact htakes.accounts.skipped_eq.trans (Nat.zero_add _)

/-- A run does the same whether tokens are read on the way or are all at hand. -/
theorem runScript_tally_eq (limit : Nat) (source : String) (fuel : Nat)
    (i : Interpreter) :
    (i.runScript fuel (Parser.ofText limit source)).tally =
      (i.runScript fuel (ParseState.ofText limit source)).tally := by
  rw [runScript_tally, runScript_tally, (Parser.outcomes_follow limit source).2]

/-- The lexical errors and warnings that a parser has logged at the end of a text
are those of its tokens and comments, as a lexer reads them, each once and in order.
And a run of the text on any interpreter that completes and does not quit leaves the
parser as a parse leaves it, with its logs of both phases, and skips as many
statements as fail to parse cleanly. -/
theorem runScript_diagnostics (limit : Nat) (source : String) :
    let start := Parser.ofText limit source
    let tokens := (Lexer.ofText limit source).tokens
    let parsed := TokenSource.outcomes start
    parsed.2.tokens.lexical.errors.toList =
      tokens.filterMap (fun l => l.notes.error) ∧
      parsed.2.tokens.lexical.warnings.toList =
        tokens.flatMap (fun l => l.notes.warnings) ∧
      ∀ (fuel : Nat) (i : Interpreter),
        let ran := i.runScript fuel start
        ran.complete = true → ran.interpreter.shouldQuit = false →
          ran.parser = parsed.2 ∧
            ran.stats.skipped = Command.skippedCount parsed.1 := by
  intro start tokens parsed
  obtain ⟨herrors, hwarnings⟩ := Parser.outcomes_lexical limit source
  refine ⟨herrors.trans List.filterMap_map,
    hwarnings.trans (List.flatMap_map _ _ _), ?_⟩
  intro fuel i ran hcomplete hquit
  exact runScript_parsed hcomplete hquit

/-- The text `1 / 0; "\q"; -0x; /* open`, with a statement that fails, an unknown
escape, a number without digits and a comment that is not closed. -/
def notedText : String := "1 / 0; \"\\q\"; -0x; /* open"

/-- A run of this text logs what the lexer notes on a string, a number and a
comment, though its first statement fails. -/
theorem notedText_diagnostics :
    let start := Parser.ofText 4096 notedText
    let ran := (new {}).runScript 9 start
    ran.complete = true ∧ ran.interpreter.shouldQuit = false ∧
      ran.stats.failed = 1 ∧
      ran.parser.tokens.lexical.errors.toList =
        [⟨.missingRadixDigits, ⟨16, 1, 17⟩⟩, ⟨.unexpectedEndOfText, ⟨25, 1, 26⟩⟩] ∧
      ran.parser.tokens.lexical.warnings.toList =
        [⟨.unknownEscape 'q', ⟨9, 1, 10⟩⟩] ∧
      ran.parser = (TokenSource.outcomes start).2 ∧ ran.stats.skipped = 1 := by
  intro start ran
  have hcomplete : ran.complete = true := by decide +kernel
  have hquit : ran.interpreter.shouldQuit = false := by decide +kernel
  have hfailed : ran.stats.failed = 1 := by decide +kernel
  obtain ⟨hlexicalErrors, hlexicalWarnings, hruns⟩ :=
    runScript_diagnostics 4096 notedText
  obtain ⟨hparser, hskipped⟩ := hruns 9 (new {}) hcomplete hquit
  refine ⟨hcomplete, hquit, hfailed, ?_, ?_, hparser, ?_⟩
  · rw [hparser, hlexicalErrors]
    decide +kernel
  · rw [hparser, hlexicalWarnings]
    decide +kernel
  · rw [hskipped]
    decide +kernel

end Interpreter

end ScriptLang
