import ScriptLang.Proofs.Parse.Progress
import ScriptLang.Proofs.Parse.Relocation
import ScriptLang.Proofs.Tree.Bare

/-!
# Layout

Between two texts with the same tokens but other blanks and comments there is no map
of places: where two tokens touch in one text, one place is both the end of the
first and the beginning of the second, and in the other text these are two places.
So both texts are compared with a third script, in which the places are just
numbers: the beginning of the script, and the beginning and the end of each token,
in order (`Entry.skeleton`).  From there the places of each text are found by their
number (`Position.landmark`).
-/

namespace ScriptLang

/-! ## Places of tokens in order -/

namespace Lexed

/-- The places of a token: it begins at a cursor that is passed and ends at one that
is passed later. -/
theorem next_stands (limit : Nat) (c : Cursor) :
    ∃ d : Cursor, c.Moves d ∧ d.Moves (next limit c).2 ∧
      (next limit c).1.token.span = ⟨d.position, (next limit c).2.position⟩ := by
  refine ⟨c.skip Character.isBlank, Cursor.moves_skip _ c, ?_⟩
  unfold next
  dsimp only
  split
  · exact ⟨.refl _, rfl⟩
  · exact ⟨readFrom_moves limit _ _, rfl⟩

/-- The tokens from a cursor on begin behind it and end behind their beginning, and
no token begins before another one has ended. -/
theorem all_places (limit : Nat) {c : Cursor} (hc : c.Solid) :
    (∀ l ∈ all limit c, ∃ d e : Cursor, c.Moves d ∧ d.Moves e ∧
      l.token.span = ⟨d.position, e.position⟩) ∧
      (all limit c).Pairwise fun l k =>
        l.token.span.stop.order k.token.span.start ≠ .gt := by
  fun_induction all limit c with
  | case1 c step _ =>
      refine ⟨fun l hl => ?_, List.pairwise_singleton _ _⟩
      rw [List.mem_singleton.mp hl]
      obtain ⟨d, hd, he, hspan⟩ := next_stands limit c
      exact ⟨d, step.2, hd, he, hspan⟩
  | case2 c step _ ih =>
      have hmoves := next_moves limit c
      have hsolid := hmoves.solid hc
      obtain ⟨hplaces, hpairwise⟩ := ih hsolid
      refine ⟨fun l hl => ?_, List.pairwise_cons.mpr ⟨fun k hk => ?_, hpairwise⟩⟩
      · rcases List.mem_cons.mp hl with rfl | hl
        · obtain ⟨d, hd, he, hspan⟩ := next_stands limit c
          exact ⟨d, step.2, hd, he, hspan⟩
        · obtain ⟨d, e, hd, he, hspan⟩ := hplaces l hl
          exact ⟨d, e, hmoves.trans hd, he, hspan⟩
      · obtain ⟨d, e, hd, _, hspan⟩ := hplaces k hk
        rw [hspan, next_stop]
        exact hd.order_ne_gt hsolid

end Lexed

/-! ## Numbered places -/

/-- The beginning of a script, and the beginning and the end of each of its
tokens. -/
def Entry.landmarks (es : List Entry) : List Position :=
  Position.start :: es.flatMap fun e => [e.token.span.start, e.token.span.stop]

namespace Position

/-- The place that is known by its number only. -/
def numbered (n : Nat) : Position := ⟨n, 1, 1⟩

/-- The place among some that has the number of a place; behind all of them there is
only the last one. -/
def landmark (marks : List Position) (p : Position) : Position :=
  marks.getD (min p.offset (marks.length - 1)) start

/-- The landmark of a numbered place is the place with this number. -/
theorem landmark_numbered {marks : List Position} {n : Nat} {p : Position}
    (h : marks[n]? = some p) :
    landmark marks (numbered n) = p := by
  obtain ⟨hlt, _⟩ := List.getElem?_eq_some_iff.mp h
  have hmin : min n (marks.length - 1) = n := by omega
  rw [landmark, numbered, hmin, List.getD_eq_getElem?_getD, h]
  rfl

/-- Places that stand in order are found in order. -/
theorem landmark_keepsOrder {marks : List Position}
    (h : marks.Pairwise fun a b => a.order b ≠ .gt) :
    KeepsOrder (landmark marks) := by
  intro a b hab
  have hle := offset_le_of_order hab
  unfold landmark
  obtain hlt | heq : min a.offset (marks.length - 1) <
    min b.offset (marks.length - 1) ∨
      min a.offset (marks.length - 1) = min b.offset (marks.length - 1) := by omega
  · have hj : min b.offset (marks.length - 1) < marks.length := by omega
    have hi := Nat.lt_trans hlt hj
    rw [List.getD_eq_getElem?_getD, List.getD_eq_getElem?_getD,
      List.getElem?_eq_getElem hi, List.getElem?_eq_getElem hj]
    exact List.pairwise_iff_getElem.mp h _ _ hi hj hlt
  · rw [heq, order_self]
    decide

end Position

namespace Entry

/-- Tokens without errors at numbered places, the first of them right behind the
place number `n`. -/
def skeleton : Nat → List Lexeme → List Entry
  | _, [] => []
  | n, lexeme :: rest =>
    ⟨⟨lexeme, ⟨.numbered (n + 1), .numbered (n + 2)⟩⟩, []⟩ :: skeleton (n + 2) rest

/-- The landmarks of a text stand in order. -/
theorem landmarks_pairwise (limit : Nat) (source : String) :
    (landmarks (ofText limit source)).Pairwise fun a b => a.order b ≠ .gt := by
  have hsolid : (Cursor.ofText source).Solid := Glyph.width_pos_of_mem source.toList
  obtain ⟨hplaces, hpairwise⟩ := Lexed.all_places limit hsolid
  -- Each token stands behind the beginning of the text, and begins before it ends.
  have htoken : ∀ e ∈ ofText limit source,
    Position.start.order e.token.span.start ≠ .gt ∧
      e.token.span.start.order e.token.span.stop ≠ .gt := by
    intro e he
    obtain ⟨l, hl, htoken⟩ := mem_gather he
    obtain ⟨d, f, hd, hf, hspan⟩ := hplaces l hl
    rw [← htoken, hspan]
    exact ⟨hd.order_ne_gt hsolid, hf.order_ne_gt (hd.solid hsolid)⟩
  have htokens : (ofText limit source).Pairwise
      fun e f => e.token.span.stop.order f.token.span.start ≠ .gt := by
    have hfiltered : ((ofText limit source).map Entry.token).Pairwise
        fun t u => t.span.stop.order u.span.start ≠ .gt := by
      rw [ofText, map_token_gather]
      exact (List.pairwise_map.mpr hpairwise).filter _
    exact List.pairwise_map.mp hfiltered
  refine List.pairwise_cons.mpr
    ⟨fun p hp => ?_, List.pairwise_flatMap.mpr ⟨fun e he => ?_, ?_⟩⟩
  · obtain ⟨e, he, hmem⟩ := List.mem_flatMap.mp hp
    obtain ⟨hstart, hstop⟩ := htoken e he
    rcases List.mem_pair.mp hmem with rfl | rfl
    · exact hstart
    · exact Position.order_trans hstart hstop
  · exact List.pairwise_pair.mpr (htoken e he).2
  · refine htokens.imp_of_mem fun {e f} he hf hle => ?_
    have hbefore : ∀ p ∈ [e.token.span.start, e.token.span.stop],
        p.order f.token.span.start ≠ .gt := by
      simpa using ⟨Position.order_trans (htoken e he).2 hle, hle⟩
    intro p hp q hq
    rcases List.mem_pair.mp hq with rfl | rfl
    · exact hbefore p hp
    · exact Position.order_trans (hbefore p hp) (htoken f hf).2

/-- Tokens without errors are those of the skeleton, at the places with their
numbers. -/
theorem skeleton_relocates {marks : List Position} (before : List Position)
    {es : List Entry} {n : Nat}
    (hmarks : marks = before ++ es.flatMap fun e =>
      [e.token.span.start, e.token.span.stop])
    (hbefore : before.length = n + 1)
    (hclean : ∀ e ∈ es, e.notes.filterMap Notes.error = []) :
    List.Forall₂ (Relocates (Position.landmark marks))
      (skeleton n (es.map fun e => e.token.lexeme)) es := by
  induction es generalizing before n with
  | nil => exact .nil
  | cons e es ih =>
      have hsplit : marks = (before ++ [e.token.span.start, e.token.span.stop]) ++
          es.flatMap fun e => [e.token.span.start, e.token.span.stop] := by
        rw [hmarks, List.flatMap_cons, List.append_assoc]
      have hstart : marks[n + 1]? = some e.token.span.start := by
        rw [hsplit, ← hbefore]
        simp
      have hstop : marks[n + 2]? = some e.token.span.stop := by
        have hnext : n + 2 = before.length + 1 := by omega
        rw [hsplit, hnext]
        simp
      refine .cons ⟨?_, ?_⟩ (ih _ hsplit (by simp [hbefore]) fun f hf => hclean f
        (List.mem_cons_of_mem _ hf))
      · simp only [Token.moved, Span.moved, Position.landmark_numbered hstart,
          Position.landmark_numbered hstop]
      · rw [hclean e List.mem_cons_self]
        rfl

/-- Tokens without errors are gathered without errors. -/
theorem gather_clean {pending : List Notes} {ls : List Lexed}
    (hpending : ∀ n ∈ pending, n.error = none)
    (hls : ∀ l ∈ ls, l.notes.error = none) :
    ∀ e ∈ gather pending ls, e.notes.filterMap Notes.error = [] := by
  induction ls generalizing pending with
  | nil => simp [gather]
  | cons l ls ih =>
      obtain ⟨hl, hls⟩ := List.forall_mem_cons.mp hls
      have hnotes : ∀ n ∈ pending ++ [l.notes], n.error = none := by
        simpa [or_imp, forall_and] using ⟨hpending, hl⟩
      unfold gather
      split
      · exact ih hnotes hls
      · refine List.forall_mem_cons.mpr ⟨List.filterMap_eq_nil_iff.mpr hnotes, ?_⟩
        exact ih (by simp) hls

end Entry

/-! ## Texts without lexical errors -/

/-- No token of a text is malformed. -/
def Lexed.Clean (limit : Nat) (source : String) : Prop :=
  ∀ l ∈ Lexed.ofText limit source, l.notes.error = none

instance (limit : Nat) (source : String) : Decidable (Lexed.Clean limit source) :=
  inferInstanceAs (Decidable
    (∀ l ∈ Lexed.ofText limit source, l.notes.error = none))

namespace ParseState

/-- The script of some tokens at numbered places. -/
def skeleton (lexemes : List Lexeme) : ParseState :=
  ofEntries (Entry.skeleton 0 (lexemes ++ [.endOfText]))

/-- Every text without lexical errors has the tokens of a skeleton, at other places
in the same order. -/
theorem skeleton_relocates {limit : Nat} {source : String}
    (h : Lexed.Clean limit source) :
    ∃ φ, Position.KeepsOrder φ ∧
      (skeleton ((Token.ofText limit source).map Token.lexeme)).Relocates φ
        (ofText limit source) := by
  have hlexemes : (Entry.ofText limit source).map (fun e => e.token.lexeme) =
      (Token.ofText limit source).map Token.lexeme ++ [.endOfText] := by
    have htokens :=
      congrArg (List.map Token.lexeme) (Entry.map_token_ofText limit source)
    rwa [List.map_map, List.map_append] at htokens
  refine ⟨Position.landmark (Entry.landmarks (Entry.ofText limit source)), ?_, ?_⟩
  · exact Position.landmark_keepsOrder (Entry.landmarks_pairwise limit source)
  · rw [skeleton, ← hlexemes]
    have hclean : ∀ e ∈ Entry.ofText limit source,
        e.notes.filterMap Notes.error = [] :=
      Entry.gather_clean (by simp) h
    exact .ofEntries (Entry.skeleton_relocates [Position.start] rfl rfl hclean)
      (Position.landmark_numbered (n := 0) rfl)

end ParseState

/-- An outcome without places. -/
def ParseOutcome.bare (o : ParseOutcome) : ParseOutcome :=
  { o with statement := o.statement.map Stmt.bare }

/-- Without its places, an outcome that is moved is the same. -/
theorem ParseOutcome.bare_moved (φ : Position → Position) (o : ParseOutcome) :
    (o.moved φ).bare = o.bare := by
  obtain ⟨_ | st, success⟩ := o
  · rfl
  · simp only [moved, bare, Option.map_some, Stmt.bare_moved]

/-- What is parsed and reported, places aside, does not depend on places. -/
theorem ParseState.Relocates.outcomes_bare {φ : Position → Position}
    (hφ : Position.KeepsOrder φ) {s s' : ParseState} (h : s.Relocates φ s') :
    s'.outcomes.1.map ParseOutcome.bare = s.outcomes.1.map ParseOutcome.bare ∧
      s'.outcomes.2.errors.map Located.what = s.outcomes.2.errors.map Located.what ∧
      s'.outcomes.2.warnings.map Located.what =
        s.outcomes.2.warnings.map Located.what := by
  obtain ⟨houtcomes, hstate⟩ := h.outcomes hφ
  refine ⟨?_, ?_, ?_⟩
  · have hbare : ParseOutcome.bare ∘ ParseOutcome.moved φ = ParseOutcome.bare :=
      funext (ParseOutcome.bare_moved φ)
    rw [houtcomes, List.map_map, hbare]
  · rw [hstate.errors_eq, Array.map_map]
    rfl
  · rw [hstate.warnings_eq, Array.map_map]
    rfl

end ScriptLang
