import ScriptLang.Proofs.Parse.Recovery
import ScriptLang.Proofs.Token.Coverage

/-!
# Every token is taken once

A step through a script takes at least one token, and never the end of the text,
whatever becomes of its statement.  So the steps come to the end of the text, and
the tokens that they take, one step after the other, are the tokens of the text
(`ParseState.outcomes_consume_all`).

Loops and nesting are bounded by the number of tokens that are left.  That these
bounds are never met is shown by raising them: with more ends of the text behind the
one that every text has, all bounds are higher, and nothing else is different
(`ParseState.padded`).
-/

namespace ScriptLang

/-! ## Tokens of a text -/

/-- The tokens before the end of a text that are no comments. -/
def Token.ofText (limit : Nat) (source : String) : List Token :=
  (((Lexed.ofText limit source).map Lexed.token).takeWhile fun t => t.kind ≠
    .endOfText).filter
    fun t => !t.kind.isComment

namespace Entry

/-- What is gathered are the tokens that are no comments. -/
theorem map_token_gather (pending : List Notes) (ls : List Lexed) :
    (gather pending ls).map Entry.token = (ls.map Lexed.token).filter fun t =>
      !t.kind.isComment := by
  induction ls generalizing pending with
  | nil => rfl
  | cons l ls ih =>
      unfold gather
      split
      · rename_i hcomment
        rw [ih, List.map_cons, List.filter_cons_of_neg (by simp [hcomment])]
      · rename_i hcomment
        rw [List.map_cons, ih, List.map_cons,
          List.filter_cons_of_pos (by simp [hcomment])]

/-- A parse is handed all tokens that are no comments, and the end of the text. -/
theorem map_token_ofText (limit : Nat) (source : String) :
    (ofText limit source).map Entry.token =
      Token.ofText limit source ++
        [⟨.endOfText, Span.point (Position.extent source)⟩] := by
  obtain ⟨before, hall, hkinds⟩ := Lexed.all_eq_concat limit (Cursor.ofText source)
  have hbefore : ∀ t ∈ before.map Lexed.token,
      decide (t.kind ≠ .endOfText) = true := by
    simpa using hkinds
  rw [ofText, map_token_gather, Token.ofText, Lexed.ofText, hall, List.map_append,
    List.takeWhile_append_of_pos hbefore, List.filter_append, List.filter_append,
      List.append_assoc]
  rfl

end Entry

/-- None of the tokens of a text is its end. -/
theorem Token.ofText_kind_ne {limit : Nat} {source : String} {t : Token}
    (ht : t ∈ ofText limit source) :
    t.kind ≠ .endOfText := by
  exact of_decide_eq_true (List.all_eq_true.mp List.all_takeWhile t
    (List.mem_filter.mp ht).1)

namespace ParseState

variable {s s' t : ParseState} {os : List ParseOutcome}

/-! ## What a step takes -/

/-- The tokens that the next step takes. -/
def consumed (s : ParseState) : List Token :=
  (s.rest.take (s.advance.2.taken - s.taken)).map Entry.token

/-- A walk takes the tokens that it says. -/
theorem Walk.take_eq {es : List Entry} (h : s.Walk es s') :
    s.rest.take (s'.taken - s.taken) = es := by
  rw [h.taken_eq, h.rest_eq, Nat.add_sub_cancel_left, List.take_left]

/-- What a step does not take is left. -/
theorem map_token_rest (s : ParseState) :
    s.rest.map Entry.token = s.consumed ++ s.advance.2.rest.map Entry.token := by
  obtain ⟨es, hwalk⟩ := s.advance_walk
  rw [consumed, hwalk.take_eq, ← List.map_append, ← hwalk.rest_eq]

/-- The end of the text is not consumed. -/
theorem consumed_kind_ne {u : Token} (hu : u ∈ s.consumed) :
    u.kind ≠ .endOfText := by
  obtain ⟨es, hwalk⟩ := s.advance_walk
  rw [consumed, hwalk.take_eq] at hu
  obtain ⟨e, he, rfl⟩ := List.mem_map.mp hu
  exact hwalk.kind_ne e he

/-- Before the end of the text, something is consumed. -/
theorem consumed_ne_nil (hend : s.atEnd = false) : s.consumed ≠ [] := by
  intro hnil
  have hrest := congrArg List.length s.map_token_rest
  have hless := advance_length_lt hend
  rw [hnil, List.nil_append, List.length_map, List.length_map] at hrest
  omega

/-! ## What the steps take together -/

/-- What was left is what the outcomes consumed, with what is left now behind it. -/
theorem Yields.map_token_rest (h : s.Yields os t) :
    s.rest.map Entry.token =
      (List.range os.length).flatMap (fun n => (s.after n).consumed) ++
        t.rest.map Entry.token := by
  induction h with
  | refl => rfl
  | @step s t os _ _ ih =>
      rw [s.map_token_rest, ih, List.length_cons, List.range_succ_eq_map,
        List.flatMap_cons, List.flatMap_map, List.append_assoc]
      rfl

/-- At the end of the text no other token is left. -/
theorem takeWhile_of_atEnd (h : t.atEnd = true) :
    (t.rest.map Entry.token).takeWhile (fun u => decide (u.kind ≠ .endOfText)) =
      [] := by
  unfold atEnd token at h
  cases hrest : t.rest with
  | nil => rfl
  | cons e rest =>
      rw [hrest] at h
      rw [List.map_cons, List.takeWhile_cons_of_neg]
      simpa using h

/-- At the end of a text, the steps have taken all tokens but the end. -/
theorem Yields.consumed_eq {limit : Nat} {source : String}
    (h : (ofText limit source).Yields os t) (ht : t.atEnd = true) :
    (List.range os.length).flatMap
      (fun n => ((ofText limit source).after n).consumed) =
        Token.ofText limit source ∧
      t.rest.length = 1 := by
  have hsplit := h.map_token_rest
  replace hsplit := (Entry.map_token_ofText limit source).symm.trans hsplit
  have htaken :=
    congrArg (List.takeWhile fun u => decide (u.kind ≠ .endOfText)) hsplit
  rw [List.takeWhile_append_of_pos, List.takeWhile_append_of_pos,
    takeWhile_of_atEnd ht] at htaken
  · rw [List.takeWhile_cons_of_neg (by simp [Token.kind, Lexeme.kind]),
      List.append_nil, List.append_nil] at htaken
    refine ⟨htaken.symm, ?_⟩
    rw [← htaken] at hsplit
    simpa using (congrArg List.length (List.append_cancel_left hsplit)).symm
  · intro u hu
    obtain ⟨n, _, hn⟩ := List.mem_flatMap.mp hu
    exact decide_eq_true (consumed_kind_ne hn)
  · intro u hu
    exact decide_eq_true (Token.ofText_kind_ne hu)

/-- The end of the text is never taken. -/
theorem Yields.taken_lt {limit : Nat} {source : String}
    (h : (ofText limit source).Yields os t) :
    t.taken < (Entry.ofText limit source).length := by
  obtain ⟨u, hrest, hatEnd, _⟩ := t.outcomes_yields
  have hall := h.trans hrest
  have hbetween : u.Between := hall.between (ofEntries_between _)
  have hentries : u.entries = Entry.ofText limit source := hall.entries_eq
  obtain ⟨before, hsplit, htaken, _⟩ := hbetween.split
  have hlast := (hall.consumed_eq hatEnd).2
  have hle := hrest.leads.taken_le
  rw [← hentries, hsplit, List.length_append]
  omega

/-! ## Steps behind the end of the text -/

/-- Where a parse stands after its outcomes. -/
theorem Yields.after_eq (h : s.Yields os t) : s.after os.length = t := by
  induction h with
  | refl => rfl
  | step _ _ ih => exact ih

/-- Outcomes are passed one after the other. -/
theorem after_add (m n : Nat) (s : ParseState) :
    s.after (m + n) = (s.after m).after n := by
  induction m generalizing s with
  | zero => rw [Nat.zero_add]; rfl
  | succ m ih =>
      rw [Nat.succ_add]
      exact ih s.advance.2

/-- A parse that has come to the end of the text stays there. -/
theorem after_atEnd (h : s.atEnd = true) (n : Nat) : (s.after n).atEnd = true := by
  induction n with
  | zero => exact h
  | succ n ih =>
      rw [after_succ, advance_of_atEnd ih]
      exact ih

/-- The outcomes are what the steps answer, one after the other, and behind the last
one there is none. -/
theorem next?_after (s : ParseState) (n : Nat) :
    (s.after n).next? = (s.outcomes.1[n]?, s.after (n + 1)) := by
  rw [after_succ]
  by_cases hn : n < s.outcomes.1.length
  · obtain ⟨hend, hadvance⟩ := advance_after (List.getElem?_eq_getElem hn)
    rw [next?_of_not_atEnd hend, hadvance, List.getElem?_eq_getElem hn]
  · obtain ⟨t, hyields, hatEnd, _⟩ := s.outcomes_yields
    obtain ⟨k, rfl⟩ : ∃ k, n = s.outcomes.1.length + k :=
      ⟨n - s.outcomes.1.length, by omega⟩
    have hbehind : (s.after (s.outcomes.1.length + k)).atEnd = true := by
      rw [after_add, hyields.after_eq]
      exact after_atEnd hatEnd k
    rw [next?_of_atEnd hbehind, advance_of_atEnd hbehind,
      List.getElem?_eq_none (by omega)]

/-! ## Higher bounds -/

/-- The state of a parse with `k` more ends of the text behind. -/
def padded (k : Nat) (p : Position) (s : ParseState) : ParseState :=
  { s with
    entries := s.entries ++ List.replicate k (Entry.endAt p)
    rest := s.rest ++ List.replicate k (Entry.endAt p) }

/-- More ends of the text are no errors. -/
theorem errorCount_padded (k : Nat) (p : Position) (s : ParseState) :
    (s.padded k p).errorCount = s.errorCount := by
  have hnone : ∀ n : Nat,
      ((List.replicate n (Entry.endAt p)).flatMap Entry.notes).filterMap
        Notes.error = [] := by
    intro n
    simp [Entry.endAt, List.flatMap_replicate]
  simp only [errorCount, lexicalErrors, notes, padded, List.take_append,
    List.take_replicate, List.flatMap_append, List.filterMap_append, hnone,
    List.append_nil]

end ParseState

/-- A parse beside one that has more ends of the text behind, and so higher bounds
on loops and nesting. -/
def Pairing.padded (total k : Nat) (p : Position) : Pairing ParseState where
  strict := False
  even := False
  total := total
  ahead := 0
  surplus := 0
  move := id
  clear s := s.taken < total
  pairs s s' := s.taken + s.rest.length = total ∧ s' = s.padded k p

/-- A parse that is clear has not taken the last token. -/
instance (total k : Nat) (p : Position) :
    (Pairing.padded total k p).LawfulAtHand where
  move_later _ _ := rfl
  move_earlier _ _ := rfl
  clear_of_leads hleads hclear := Nat.lt_of_le_of_lt hleads.taken_le hclear
  not_clear_raised _ _ _ h := h.elim
  raised cause position hs _ := by
    obtain ⟨htotal, rfl⟩ := hs
    exact ⟨htotal, rfl⟩
  warned cause position hs := by
    obtain ⟨htotal, rfl⟩ := hs
    exact ⟨htotal, rfl⟩
  look n hs _ := by
    obtain ⟨htotal, rfl⟩ := hs
    exact ⟨htotal, rfl⟩
  take {s s'} hs hclear := by
    obtain ⟨htotal, rfl⟩ := hs
    simp only [Pairing.padded, ParseState.take] at hclear
    cases hrest : s.rest with
    | nil =>
        rw [hrest, List.length_nil] at htotal
        omega
    | cons e rest =>
        rw [hrest, List.length_cons] at htotal
        refine ⟨?_, ?_⟩
        · simp only [ParseState.take, hrest, List.tail_cons]
          omega
        · simp only [ParseState.take, ParseState.padded, ParseState.token, hrest,
            List.cons_append, List.tail_cons]
  token_eq {s s'} hs hclear := by
    obtain ⟨htotal, rfl⟩ := hs
    simp only [Pairing.padded, ParseState.look] at hclear
    cases hrest : s.rest with
    | nil =>
        rw [hrest, List.length_nil] at htotal
        omega
    | cons e rest =>
        simp only [Pairing.padded, ParseState.token, ParseState.padded, hrest,
          List.cons_append, Token.moved_id]
  secondKind_eq {s s'} hs hclear := by
    obtain ⟨htotal, rfl⟩ := hs
    simp only [Pairing.padded, ParseState.look] at hclear
    rcases hrest : s.rest with _ | ⟨e, _ | ⟨f, rest⟩⟩
    · rw [hrest, List.length_nil] at htotal
      omega
    · -- Behind the last token there is nothing, or another end of the text.
      cases k with
      | zero => simp [ParseState.secondKind, ParseState.padded, hrest]
      | succ k =>
          simp only [ParseState.secondKind, ParseState.padded, hrest,
            List.replicate_succ]
          rfl
    · simp only [ParseState.secondKind, ParseState.padded, hrest, List.cons_append]
  taken_eq hs := by
    obtain ⟨_, rfl⟩ := hs
    rfl
  errorCount_eq hs _ := by
    obtain ⟨_, rfl⟩ := hs
    exact ParseState.errorCount_padded _ _ _
  previousEnd_eq hs := by
    obtain ⟨_, rfl⟩ := hs
    rfl
  length_eq h := h.elim
  length_le hs := by
    obtain ⟨_, rfl⟩ := hs
    simp [ParseState.padded]
  total_eq _ hs := hs.1

namespace ParseState

/-- No bound is met: with higher ones the outcomes are the same, and so is the state
behind them. -/
theorem outcomes_padded (limit k : Nat) (source : String) (p : Position) :
    ((ofText limit source).padded k p).outcomes =
      ((ofText limit source).outcomes.1,
        (ofText limit source).outcomes.2.padded k p) := by
  obtain ⟨t, hyields, hatEnd, hstate⟩ := (ofText limit source).outcomes_yields
  have hclear : t.taken < (ofText limit source).rest.length := hyields.taken_lt
  obtain ⟨t', hyields', htotal, rfl⟩ := hyields.pairs
    (P := Pairing.padded (ofText limit source).rest.length k p)
      ⟨Nat.zero_add _, rfl⟩ hclear
  have hatEnd' : (t.padded k p).atEnd = true := by
    rw [← hatEnd]
    exact Pairing.atEnd_eq (P := Pairing.padded (ofText limit source).rest.length k
      p) ⟨htotal, rfl⟩ hclear
  rw [hyields'.outcomes_eq hatEnd', hstate]
  exact congrArg (Prod.mk · _) (ParseOutcome.map_moved_id _)

/-- Stepping through a text comes to an end, and goes on to answer that there is
nothing left.  Every step before that takes a token and none takes the end of the
text, and the tokens they take are those of the text before its end, less the
comments, each once and in order.  The bounds on loops and nesting have no part in
this: with higher ones nothing is different. -/
theorem outcomes_consume_all (limit : Nat) (source : String) :
    let start := ofText limit source
    let outcomes := start.outcomes.1
    (∀ n, (start.after n).next? = (outcomes[n]?, start.after (n + 1))) ∧
      (∀ n < outcomes.length, (start.after n).consumed ≠ [] ∧
        ∀ u ∈ (start.after n).consumed, u.kind ≠ .endOfText) ∧
      (List.range outcomes.length).flatMap (fun n => (start.after n).consumed) =
        Token.ofText limit source ∧
      ∀ k p, (start.padded k p).outcomes =
          (outcomes, start.outcomes.2.padded k p) := by
  intro start outcomes
  obtain ⟨t, hyields, hatEnd, _⟩ := start.outcomes_yields
  refine ⟨start.next?_after, ?_, (hyields.consumed_eq hatEnd).1,
    fun k => outcomes_padded limit k source⟩
  intro n hn
  obtain ⟨hend, _⟩ := advance_after (List.getElem?_eq_getElem hn)
  exact ⟨consumed_ne_nil hend, fun u hu => consumed_kind_ne hu⟩

/-- The text `) x = /* none */ + ; ( 1`, in which no statement is well formed. -/
def malformedText : String := ") x = /* none */ + ; ( 1"

/-- All four steps through this text fail, and together they take its seven
tokens. -/
theorem malformedText_consumed :
    let start := ofText 4096 malformedText
    start.outcomes.1.map (·.success) = [false, false, false, false] ∧
      (start.after 4).next? = (none, start.after 5) ∧
      (start.after 3).consumed ≠ [] ∧
        (∀ u ∈ (start.after 3).consumed, u.kind ≠ .endOfText) ∧
      ((List.range 4).flatMap fun n => (start.after n).consumed).map (·.kind) =
        [.symbol .rightParen, .identifier, .symbol .assign, .symbol .plus,
          .symbol .semicolon,
          .symbol .leftParen, .integer] := by
  intro start
  have houtcomes : start.outcomes.1.map (·.success) =
    [false, false, false, false] := by decide +kernel
  have hlength : start.outcomes.1.length = 4 := by
    simpa using congrArg List.length houtcomes
  obtain ⟨hnext, hsteps, hall, _⟩ := outcomes_consume_all 4096 malformedText
  obtain ⟨htakes, hkinds⟩ := hsteps 3 (by rw [hlength]; decide)
  refine ⟨houtcomes, ?_, htakes, hkinds, ?_⟩
  · rw [hnext 4, List.getElem?_eq_none (Nat.le_of_eq hlength)]
  · rw [hlength] at hall
    rw [hall]
    decide +kernel

end ParseState

end ScriptLang
