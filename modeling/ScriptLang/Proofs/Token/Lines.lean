import ScriptLang.Proofs.Token.Coverage
import ScriptLang.Proofs.Token.Unclosed
import ScriptLang.Proofs.Token.Widths

/-!
# One token on each line

The raw text of every token is cut out of the source by its span and put on a line
of its own.  The tokens of the text that results say the same as those of the source
(`Lexed.onePerLine_gist`).  What a token says is its `Lexed.gist`: its kind and its
content, its error and its warnings, but not where they stand.

1.  The place of a text and the ways to write its line breaks do not matter to the
    gists of its tokens (`Lexed.all_gist_congr`), so it is enough to know the
    logical characters of the lines.
2.  The raw characters in the span of a token make up the logical characters that
    its reader takes (`Cursor.In.ofChars_cut`).  The line feed behind them is a
    logical character of its own, since no token that is closed ends in a line break
    and no line begins with one.
3.  A token that is closed does not change when the text behind it is replaced by a
    line break and other text (`readFrom_broken`).
4.  A token that is not closed is the last one before the end of the text.  If the
    error about that is not noted, it exceeds the limit, and the line feeds that
    become part of it are not kept.  They can be noticed all the same: a backslash
    at the end of a string makes an escape sequence of the first of them.
-/

namespace ScriptLang

/-! ## What a token says -/

namespace Lexed

/-- What a token says, wherever it stands: its kind with its content, and what is
wrong or odd about it. -/
def gist (l : Lexed) : Lexeme × Option LexicalError × List LexicalWarning :=
  (l.token.lexeme, l.notes.error.map Located.what,
    l.notes.warnings.map Located.what)

/-- What a token says does not depend on where it stands. -/
theorem gist_moved (φ : Position → Position) (l : Lexed) :
    (l.moved φ).gist = l.gist := by
  have hwhat : ∀ α : Type, (Located.what ∘ Located.moved φ : Located α → α) =
    Located.what := fun _ => rfl
  simp only [gist, moved, Notes.moved, Token.lexeme_moved, Option.map_map,
    List.map_map, hwhat]

theorem map_gist_moved (φ : Position → Position) (ls : List Lexed) :
    (ls.map (Lexed.moved φ)).map gist = ls.map gist := by
  rw [List.map_map]
  exact List.map_congr_left fun l _ => gist_moved φ l

/-- Neither the place of a text nor the widths of its characters matter to what its
tokens say. -/
theorem all_gist_eq (limit : Nat) {c : Cursor} (hreal : c.position.Real)
    (hsolid : c.Solid) :
    (all limit c).map gist =
      (all limit ⟨Position.start, c.rest.map Glyph.narrow⟩).map gist := by
  have hraw := Glyph.rawOffset_strictMono hsolid
  have hshift : all limit c = (all limit ⟨Position.start, c.rest⟩).map
      (Lexed.moved c.position.shift) := by
    have hmoved :=
      all_moved (carries_shift c.position) limit
        (c := ⟨Position.start, c.rest⟩) Nat.one_pos
    rw [Position.shift_start hreal] at hmoved
    exact hmoved
  rw [hshift, map_gist_moved, all_narrow hraw.monotone, map_gist_moved]

/-- Texts of the same logical characters have tokens that say the same. -/
theorem all_gist_congr (limit : Nat) {c d : Cursor} (hc : c.position.Real)
    (hd : d.position.Real) (hsolidc : c.Solid) (hsolidd : d.Solid)
    (h : c.rest.map Glyph.char = d.rest.map Glyph.char) :
    (all limit c).map gist = (all limit d).map gist := by
  have hnarrow : ∀ glyphs : List Glyph,
      glyphs.map Glyph.narrow = (glyphs.map Glyph.char).map fun char =>
          ⟨char, 1⟩ := by
    intro glyphs
    rw [List.map_map]
    rfl
  rw [all_gist_eq limit hc hsolidc, all_gist_eq limit hd hsolidd,
    hnarrow, hnarrow, h]

/-- What the tokens of a text say does not depend on where it stands. -/
theorem all_gist_ofChars (limit : Nat) {here : Position} (hreal : here.Real)
    (chars : List Char) :
    (all limit ⟨here, Glyph.ofChars chars⟩).map gist =
      (all limit ⟨Position.start, Glyph.ofChars chars⟩).map gist := by
  have hsolid := Glyph.width_pos_of_mem chars
  exact all_gist_congr limit hreal Position.real_start hsolid hsolid rfl

end Lexed

/-! ## The raw characters of a token -/

/-- The raw characters in a span. -/
def Span.cut (s : Span) (chars : List Char) : List Char :=
  (chars.drop s.start.offset).take s.width

namespace Glyph

/-- The first logical character of a text is also that of its beginnings, unless
they are too short for it. -/
theorem ofChars_take {chars : List Char} {g : Glyph} {rest : List Glyph} {n : Nat}
    (h : ofChars chars = g :: rest) (hn : g.width ≤ n) :
    ofChars (chars.take n) = g ::
      ofChars ((chars.drop g.width).take (n - g.width)) := by
  fun_cases ofChars chars with
  | case1 => cases h
  | case2 more =>
      cases h
      obtain ⟨n, rfl⟩ := Nat.exists_eq_add_of_le' hn
      simp [ofChars]
  | case3 more =>
      cases h
      obtain ⟨n, rfl⟩ := Nat.exists_eq_add_of_le' hn
      simp [ofChars]
  | case4 c more hcr hlf =>
      rw [ofChars.eq_4 _ _ hcr hlf] at h
      cases h
      obtain ⟨n, rfl⟩ := Nat.exists_eq_add_of_le' hn
      have hfirst : ∀ {x : Char} {rest' : List Char}, more.take n = x :: rest' →
          ∃ rest'', more = x :: rest'' := by
        intro x rest' htake
        cases more with
        | nil => simp at htake
        | cons y more =>
            cases n with
            | zero => simp at htake
            | succ n => exact ⟨more, by rw [(List.cons.inj htake).1]⟩
      rw [List.take_succ_cons, ofChars.eq_4]
      · simp
      · intro rest' hc htake
        obtain ⟨rest'', hmore⟩ := hfirst htake
        exact hcr rest'' hc hmore
      · intro rest' hc htake
        obtain ⟨rest'', hmore⟩ := hfirst htake
        exact hlf rest'' hc hmore

/-- A line feed behind a text that ends in no line break, and before one that begins
with no other half of it. -/
theorem ofChars_lineFeed {chars more : List Char}
    (hlast : (ofChars chars).getLast?.map Glyph.char ≠ some '\n')
    (hmore : more.head? ≠ some '\r') :
    ofChars (chars ++ '\n' :: more) = ofChars chars ++ lineFeed ::
      ofChars more := by
  rw [ofChars_append]
  · rw [ofChars.eq_4]
    · rfl
    · intro rest' hc
      cases hc
    · intro rest' _ hrest
      rw [hrest] at hmore
      exact hmore rfl
  · intro c hc
    rw [getLast?_ofChars, hc] at hlast
    constructor
    · rintro rfl
      exact hlast rfl
    · rintro rfl
      exact hlast rfl

/-- Two line feeds behind a text are line breaks behind it, at least one of them
new. -/
theorem ofChars_lineFeeds (chars : List Char) :
    ∃ k, (ofChars (chars ++ ['\n', '\n'])).map Glyph.char =
      (ofChars chars ++ lineFeed :: List.replicate k lineFeed).map Glyph.char := by
  fun_induction ofChars chars with
  | case1 => exact ⟨1, rfl⟩
  | case2 rest ih =>
      obtain ⟨k, hk⟩ := ih
      exact ⟨k, by simp only [List.cons_append, ofChars, List.map_cons, hk]⟩
  | case3 rest ih =>
      obtain ⟨k, hk⟩ := ih
      exact ⟨k, by simp only [List.cons_append, ofChars, List.map_cons, hk]⟩
  | case4 c rest hcr hlf ih =>
      obtain ⟨k, hk⟩ := ih
      by_cases hlast : c = '\r' ∧ rest = []
      · -- The carriage return takes the first line feed for its other half.
        obtain ⟨rfl, rfl⟩ := hlast
        exact ⟨0, rfl⟩
      · refine ⟨k, ?_⟩
        rw [List.cons_append, ofChars.eq_4, List.map_cons, hk]
        · rfl
        · intro rest' hc hbehind
          cases rest with
          | nil => exact hlast ⟨hc, rfl⟩
          | cons d rest => exact hcr rest hc (by rw [(List.cons.inj hbehind).1])
        · intro rest' hc hbehind
          cases rest with
          | nil => cases hbehind
          | cons d rest => exact hlf rest hc (by rw [(List.cons.inj hbehind).1])

end Glyph

namespace Cursor

variable {chars : List Char} {c d : Cursor}

/-- A cursor that moves stays at places that a text can have. -/
theorem Moves.real (h : c.Moves d) (hc : c.position.Real) : d.position.Real := by
  induction h with
  | refl => exact hc
  | step _ ih => exact ih (hc.after _)

/-- A cursor that moves takes a beginning of what was left. -/
theorem Moves.exists_append (h : c.Moves d) :
    ∃ taken, c.rest = taken ++ d.rest := by
  induction h with
  | refl => exact ⟨[], rfl⟩
  | step _ ih =>
      obtain ⟨taken, htaken⟩ := ih
      exact ⟨_ :: taken, congrArg _ htaken⟩

/-- The raw characters that a cursor goes past are those of the logical ones. -/
theorem In.ofChars_cut (h : c.In chars) (hmoves : c.Moves d) (hsolid : c.Solid) :
    Glyph.ofChars (Span.cut ⟨c.position, d.position⟩ chars) =
      c.rest.take (c.rest.length - d.rest.length) := by
  induction hmoves with
  | refl => simp [Span.cut, Span.width, Glyph.ofChars]
  | @step here g rest d hmoves ih =>
      have hsolid' : Solid ⟨here.after g, rest⟩ :=
        fun k hk => hsolid k (List.mem_cons_of_mem _ hk)
      have hrest := ih h.step.1 hsolid'
      have hoffset := hmoves.offset_le hsolid'
      have hlength := hmoves.length_le
      unfold Span.cut Span.width at hrest ⊢
      dsimp only at hrest hoffset hlength ⊢
      rw [offset_after] at hrest hoffset
      have hwidth : g.width ≤ d.position.offset - here.offset := by omega
      rw [Glyph.ofChars_take h.rest_eq.symm hwidth, List.drop_drop, Nat.sub_sub,
        hrest, List.length_cons, Nat.succ_sub hlength, List.take_succ_cons]

/-- The last of the logical characters that a cursor goes past. -/
theorem Leaves.getLast? {P : Char → Prop} (h : c.Leaves P d) :
    ∃ before g, c.rest.take (c.rest.length - d.rest.length) = before ++ [g] ∧
      P g.char := by
  obtain ⟨⟨here, _ | ⟨g, rest⟩⟩, x, hmoves, hx, hP, rfl⟩ := h
  · cases hx
  · obtain rfl : g.char = x := Option.some.inj hx
    obtain ⟨before, hbefore⟩ := hmoves.exists_append
    refine ⟨before, g, ?_, hP⟩
    have hsplit : before ++ g :: rest = (before ++ [g]) ++ rest := by simp
    dsimp only [Cursor.advance] at hbefore ⊢
    rw [hbefore, hsplit, List.length_append, Nat.add_sub_cancel, List.take_left]

end Cursor

/-! ## One token after the other -/

namespace Lexed

variable {limit : Nat} {c d : Cursor}

/-- The token that begins with a given character. -/
theorem next_of_current (limit : Nat) {first : Char}
    (hfirst : c.current? = some first) (hblank : Character.isBlank first = false) :
    next limit c =
      (⟨⟨(readFrom limit first c).lexeme,
        ⟨c.position, (readFrom limit first c).behind.position⟩⟩,
        ⟨(readFrom limit first c).errors.head?, (readFrom limit first c).warnings⟩⟩,
        (readFrom limit first c).behind) := by
  unfold next
  rw [Cursor.skip_of_neg hfirst hblank]
  simp only [hfirst]

/-- The next token with what is behind it determines all of them. -/
theorem all_congr_of_next (h : next limit c = next limit d) :
    all limit c = all limit d := by
  by_cases hend : (next limit c).1.token.lexeme = .endOfText
  · have hend' : (next limit d).1.token.lexeme = .endOfText := h ▸ hend
    rw [all_of_endOfText hend, all_of_endOfText hend', h]
  · have hend' : (next limit d).1.token.lexeme ≠ .endOfText := h ▸ hend
    rw [all_of_ne hend, all_of_ne hend', h]

/-- Blanks before a token can be skipped. -/
theorem next_skip (limit : Nat) (c : Cursor) :
    next limit (c.skip Character.isBlank) = next limit c := by
  have hskip : (c.skip Character.isBlank).skip Character.isBlank =
      c.skip Character.isBlank := by
    cases hfirst : (c.skip Character.isBlank).current? with
    | none =>
        rcases hc : c.skip Character.isBlank with ⟨here, _ | ⟨g, rest⟩⟩
        · rfl
        · rw [hc] at hfirst
          cases hfirst
    | some first =>
        exact Cursor.skip_of_neg hfirst (Cursor.not_blank_of_skip hfirst)
  unfold next
  rw [hskip]

/-- A line feed before the first token can be left out. -/
theorem all_lineFeed (limit : Nat) (here : Position) (rest : List Glyph) :
    all limit ⟨here, Glyph.lineFeed :: rest⟩ =
      all limit ⟨here.after Glyph.lineFeed, rest⟩ := by
  have hskip : Cursor.skip Character.isBlank ⟨here, Glyph.lineFeed :: rest⟩ =
      Cursor.skip Character.isBlank ⟨here.after Glyph.lineFeed, rest⟩ := by
    unfold Cursor.skip
    dsimp only
    rw [Cursor.skip.go, if_pos (by decide)]
  apply all_congr_of_next
  rw [← next_skip, hskip, next_skip]

/-- The raw text of some tokens, each on a line of its own. -/
def lines (chars : List Char) (ls : List Lexed) : List Char :=
  ls.flatMap fun l => l.token.span.cut chars ++ ['\n']

/-- A string whose raw text ends in a backslash that is not itself escaped. -/
def EndsEscaping (chars : List Char) (l : Lexed) : Prop :=
  l.token.kind = .string ∧ ((l.token.span.cut chars).rtakeWhile
    (· == '\\')).length % 2 = 1

instance (chars : List Char) (l : Lexed) : Decidable (l.EndsEscaping chars) :=
  inferInstanceAs (Decidable (_ ∧ _))

/-- What a token says on a line of its own: the same as in its text, but a backslash
at its end makes an escape sequence of the line feed. -/
def lineGist (chars : List Char) (l : Lexed) :
    Lexeme × Option LexicalError × List LexicalWarning :=
  (l.token.lexeme, l.notes.error.map Located.what,
    l.notes.warnings.map Located.what ++
      if l.EndsEscaping chars then [.unknownEscape '\n'] else [])

/-- Only an unclosed string that ends in an escape takes something from the next
line. -/
theorem lineGist_of_not {chars : List Char} {l : Lexed}
    (h : ¬ l.EndsEscaping chars) :
    l.lineGist chars = l.gist := by
  rw [lineGist, if_neg h, List.append_nil, gist]

/-- Whether the raw text of a token ends in the middle of an escape sequence. -/
theorem endsEscaping_iff {chars : List Char} {l : Lexed} :
    l.EndsEscaping chars ↔ l.token.kind = .string ∧
      escapesNext ((Glyph.ofChars (l.token.span.cut chars)).map Glyph.char) =
        true := by
  rw [escapesNext_logical, escapesNext_iff, EndsEscaping]

/-- The end of the text has an empty line. -/
theorem lines_endAt (chars : List Char) (here : Position) :
    lines chars [endAt here] = ['\n'] := by
  simp [lines, endAt, Span.cut, Span.width, Span.point]

/-- The end of the text says the same everywhere. -/
theorem lineGist_endAt (chars : List Char) (here there : Position) :
    (endAt here).lineGist chars = (endAt there).gist :=
  lineGist_of_not fun h => nomatch h.1

variable {chars : List Char} {first : Char}

/-- No line begins with the other half of the line break before it. -/
theorem head?_lines (limit : Nat) (hin : c.In chars) (hsolid : c.Solid) :
    (lines chars (all limit c)).head? ≠ some '\r' := by
  by_cases hend : (next limit c).1.token.lexeme = .endOfText
  · rw [all_of_endOfText hend, next_of_endOfText hend, lines_endAt]
    decide
  · obtain ⟨r, hr, hblank⟩ := next_beginsIn hin hsolid hend
    have hwidth :=
      (next_standsFrom limit hsolid).width_pos (.inl (kind_ne_endOfText hend))
    rw [all_of_ne hend, lines, List.flatMap_cons]
    have hcut : ((next limit c).1.token.span.cut chars).head? = some r := by
      rw [Span.cut, List.head?_take, if_neg (by rw [Span.width]; omega),
        List.head?_drop, hr]
    rw [List.head?_append, List.head?_append, hcut]
    rintro heq
    obtain rfl : r = '\r' := Option.some.inj heq
    exact absurd hblank (by decide)

/-- A token that is closed says the same on a line of its own, whatever stands on
the lines behind it. -/
theorem all_line_of_closed (limit : Nat) (hin : c.In chars) (hsolid : c.Solid)
    (hreal : c.position.Real) (hfirst : c.current? = some first)
    (hblank : Character.isBlank first = false) (hclosed : c.Closed)
    {more : List Char} (hmore : more.head? ≠ some '\r') :
    (all limit ⟨Position.start,
      Glyph.ofChars ((next limit c).1.token.span.cut chars ++ '\n' :: more)⟩).map
      gist =
      (next limit c).1.gist :: (all limit ⟨Position.start, Glyph.ofChars more⟩).map
        gist := by
  have hne : first ≠ '\n' := by
    rintro rfl
    exact absurd hblank (by decide)
  have hnext := next_of_current limit hfirst hblank
  have hmoves := readFrom_moves limit first c
  have hend : (next limit c).1.token.lexeme ≠ .endOfText := by
    rw [hnext]
    exact readFrom_ne_endOfText limit first c
  -- The line is what the token takes, and a line break.
  have hglyphs : Glyph.ofChars
    ((next limit c).1.token.span.cut chars ++ '\n' :: more) =
      (c.broken (readFrom limit first c).behind.rest.length
        (Glyph.ofChars more)).rest := by
    have hcut := hin.ofChars_cut hmoves hsolid
    obtain ⟨before, g, hlast, hg⟩ :=
      (readFrom_leaves limit hfirst hne hclosed).getLast?
    rw [hnext, Glyph.ofChars_lineFeed _ hmore, hcut]
    · rfl
    · rw [hcut, hlast]
      simpa using hg
  have hbroken : next limit (c.broken (readFrom limit first c).behind.rest.length
    (Glyph.ofChars more)) =
      ((next limit c).1, ⟨(next limit c).2.position,
        Glyph.lineFeed :: Glyph.ofChars more⟩) := by
    have hcurrent : (c.broken (readFrom limit first c).behind.rest.length
        (Glyph.ofChars more)).current? = some first :=
      (Cursor.current?_broken (readFrom_length_lt limit hfirst)).trans hfirst
    rw [next_of_current limit hcurrent hblank,
      readFrom_broken hfirst hclosed (Nat.le_refl _), hnext]
    simp only [Reading.broken, Cursor.broken,
      Glyph.broken_of_length_le (Nat.le_refl _)]
  have hbehind := (next_moves limit c).real hreal
  calc (all limit ⟨Position.start,
    Glyph.ofChars ((next limit c).1.token.span.cut chars ++ '\n' :: more)⟩).map gist
      = (all limit (c.broken (readFrom limit first c).behind.rest.length
          (Glyph.ofChars more))).map gist := by
        refine all_gist_congr limit Position.real_start hreal
          (Glyph.width_pos_of_mem _) ?_ (congrArg _ hglyphs)
        rw [Cursor.Solid, ← hglyphs]
        exact Glyph.width_pos_of_mem _
    _ = (next limit c).1.gist ::
          (all limit ⟨(next limit c).2.position.after Glyph.lineFeed,
            Glyph.ofChars more⟩).map gist := by
        rw [all_of_ne (by rw [hbroken]; exact hend), hbroken, all_lineFeed,
          List.map_cons]
    _ = _ := by rw [all_gist_ofChars limit (hbehind.after _)]

/-- A string that is closed ends in a quote. -/
theorem not_endsEscaping_of_closed (limit : Nat) (hin : c.In chars)
    (hsolid : c.Solid) (hfirst : c.current? = some first)
    (hblank : Character.isBlank first = false) (hclosed : c.Closed) :
    ¬ (next limit c).1.EndsEscaping chars := by
  rw [endsEscaping_iff, next_of_current limit hfirst hblank]
  rintro ⟨hkind, hescapes⟩
  obtain ⟨before, g, hlast, hg⟩ :=
    (readFrom_leaves_quote hfirst hclosed hkind).getLast?
  rw [hin.ofChars_cut (readFrom_moves limit first c) hsolid, hlast, List.map_append,
    List.map_singleton, escapesNext_concat, hg] at hescapes
  exact absurd hescapes (by simp)

/-- A token that the text ends in says the same on a line of its own, if it exceeds
the limit, apart from an escaped line feed.  Behind it there is only the line of the
end of the text, which becomes part of the token. -/
theorem all_line_of_open (hin : c.In chars) (hsolid : c.Solid)
    (hreal : c.position.Real) (hfirst : c.current? = some first)
    (hblank : Character.isBlank first = false) (hopen : ¬ c.Closed)
    (herror : (next limit c).1.notes.error.map Located.what ≠
      some .unexpectedEndOfText) :
    (next limit c).2.rest = [] ∧
      (all limit ⟨Position.start,
        Glyph.ofChars ((next limit c).1.token.span.cut chars ++ ['\n', '\n'])⟩).map
        gist =
        [(next limit c).1.lineGist chars, (endAt Position.start).gist] := by
  obtain ⟨k, hk⟩ := Glyph.ofChars_lineFeeds ((next limit c).1.token.span.cut chars)
  generalize hmore : List.replicate k Glyph.lineFeed = more at hk
  have hbreaks : ∀ g ∈ Glyph.lineFeed :: more, g = Glyph.lineFeed := by
    rw [← hmore]
    exact List.forall_mem_cons.mpr ⟨rfl, fun g hg => List.eq_of_mem_replicate hg⟩
  have hnext := next_of_current limit hfirst hblank
  rw [hnext] at herror hk ⊢
  obtain ⟨hrest, hextends⟩ :=
    readFrom_lineBreaks (fun g hg => by rw [hbreaks g hg]; rfl) hfirst hopen herror
  refine ⟨hrest, ?_⟩
  -- The token takes the whole text, also when there are line breaks behind it.
  have hcut := hin.ofChars_cut (readFrom_moves limit first c) hsolid
  rw [hrest, List.length_nil, Nat.sub_zero, List.take_length] at hcut
  have hcurrent : (c.broken 0 more).current? = some first :=
    (Cursor.current?_broken (Nat.zero_lt_of_lt
      (readFrom_length_lt limit hfirst))).trans hfirst
  have hbroken := next_of_current limit hcurrent hblank
  have hend : (next limit (c.broken 0 more)).1.token.lexeme ≠ .endOfText := by
    rw [hbroken]
    exact readFrom_ne_endOfText limit first _
  have hbehind : (next limit (c.broken 0 more)).2 =
      ⟨(next limit (c.broken 0 more)).2.position, []⟩ := by
    rw [hbroken, ← hextends.rest]
  have hgist : (next limit (c.broken 0 more)).1.gist =
      (next limit c).1.lineGist chars := by
    rw [hbroken, hnext]
    simp only [gist, lineGist, endsEscaping_iff, hcut, hextends.lexeme,
      hextends.error, hextends.warnings]
    rfl
  calc (all limit ⟨Position.start, _⟩).map gist
      = (all limit (c.broken 0 more)).map gist := by
        refine all_gist_congr limit Position.real_start hreal
          (Glyph.width_pos_of_mem _) ?_ ?_
        · rw [Cursor.broken_zero]
          intro g hg
          rcases List.mem_append.mp hg with hg | hg
          · exact hsolid g hg
          · rw [hbreaks g hg]
            exact Nat.one_pos
        · rw [Cursor.broken_zero, hk, hcut]
    _ = _ := by
        rw [all_of_ne hend, hbehind, all_nil, List.map_cons, hgist, hnext]
        rfl

/-- The tokens from a cursor on say the same when each of them is on a line of its
own. -/
theorem all_lines (hin : c.In chars) (hsolid : c.Solid) (hreal : c.position.Real)
    (herror : ∀ l ∈ all limit c, l.notes.error.map Located.what ≠
      some .unexpectedEndOfText) :
    (all limit ⟨Position.start, Glyph.ofChars (lines chars (all limit c))⟩).map
      gist =
      (all limit c).map (lineGist chars) := by
  fun_induction all limit c with
  | case1 c step hend =>
      have hline : Glyph.ofChars ['\n'] = [Glyph.lineFeed] := rfl
      rw [show step = _ from next_of_endOfText hend]
      rw [lines_endAt, hline, all_lineFeed, all_nil, List.map_singleton,
        List.map_singleton, lineGist_endAt]
  | case2 c step hend ih =>
      have hskip := Cursor.moves_skip Character.isBlank c
      have hmoves : c.Moves step.2 := next_moves limit c
      obtain ⟨first, hfirst, -⟩ := next_of_ne hend
      have hblank := Cursor.not_blank_of_skip hfirst
      obtain ⟨herror, herrors⟩ := List.forall_mem_cons.mp herror
      have hlines : lines chars (step.1 :: all limit step.2) =
          step.1.token.span.cut chars ++ '\n' :: lines chars
              (all limit step.2) := by
        rw [lines, List.flatMap_cons, List.append_assoc]
        rfl
      have hstep : next limit (c.skip Character.isBlank) = step := next_skip limit c
      rw [hlines, List.map_cons]
      by_cases hclosed : (c.skip Character.isBlank).Closed
      · have hline :=
          all_line_of_closed limit (hin.moves hskip) (hskip.solid hsolid)
            (hskip.real hreal)
          hfirst hblank hclosed (head?_lines limit (hin.moves hmoves)
            (hmoves.solid hsolid))
        have hescaping :=
          not_endsEscaping_of_closed limit (hin.moves hskip)
            (hskip.solid hsolid) hfirst
          hblank hclosed
        rw [hstep] at hline hescaping
        rw [hline, lineGist_of_not hescaping,
          ih (hin.moves hmoves) (hmoves.solid hsolid) (hmoves.real hreal) herrors]
      · obtain ⟨hrest, hline⟩ :=
          all_line_of_open (hin.moves hskip) (hskip.solid hsolid)
            (hskip.real hreal) hfirst
          hblank hclosed (by rw [hstep]; exact herror)
        rw [hstep] at hrest hline
        have hlast : all limit step.2 = [endAt step.2.position] := by
          rw [← all_nil limit, ← hrest]
        rw [hlast, lines_endAt, hline, List.map_singleton, lineGist_endAt]

/-- A text with the raw text of every token on a line of its own, the end of the
text included. -/
def onePerLine (limit : Nat) (source : String) : String :=
  String.ofList (lines source.toList (ofText limit source))

/-- Where the text ends inside of no token, as far as is noted, the tokens say the
same when each of them is on a line of its own.  A string that ends in a backslash
gets one more warning, about the line feed that it escapes. -/
theorem onePerLine_gist (limit : Nat) (source : String)
    (herror : ∀ l ∈ ofText limit source, l.notes.error.map Located.what ≠
      some .unexpectedEndOfText) :
    (ofText limit (onePerLine limit source)).map gist =
      (ofText limit source).map (lineGist source.toList) := by
  have hlines :=
    all_lines (Cursor.in_ofText source) (Glyph.width_pos_of_mem source.toList)
      Position.real_start herror
  have hcursor : Cursor.ofText (onePerLine limit source) =
      ⟨Position.start, Glyph.ofChars
        (lines source.toList (ofText limit source))⟩ := by
    rw [Cursor.ofText, onePerLine, String.toList_ofList]
  rw [ofText, hcursor]
  exact hlines

/-- Tokens without blanks between them, one with a warning of its own, and a string
that exceeds the limit before the text ends inside of it.  The string gets the
additional warning. -/
theorem crowdedText_gist :
    let source := "1..2?x\"\\q\"\"ab\\"
    let ls := ofText 1 source
    onePerLine 1 source = "1\n..\n2\n?\nx\n\"\\q\"\n\"ab\\\n\n" ∧
      (∀ l ∈ ls, l.notes.error.map Located.what ≠ some .unexpectedEndOfText) ∧
      (ofText 1 (onePerLine 1 source)).map gist = ls.map (lineGist source.toList) ∧
      ls.map (fun l => decide (l.EndsEscaping source.toList)) =
        [false, false, false, false, false, false, true, false] := by
  intro source ls
  have herror : ∀ l ∈ ls, l.notes.error.map Located.what ≠
    some .unexpectedEndOfText := by decide +kernel
  exact ⟨by decide +kernel, herror, onePerLine_gist 1 source herror,
    by decide +kernel⟩

/-- Without the additional warning the gists are not the same: nothing is odd about
a string that ends in a backslash beyond the limit, until there is a line feed
behind it. -/
theorem escapedLineFeed_noticed :
    let source := "\"ab\\"
    (∀ l ∈ ofText 1 source, l.notes.error.map Located.what ≠
      some .unexpectedEndOfText) ∧
      (ofText 1 source).map (fun l => l.notes.warnings.map Located.what) =
        [[], []] ∧
      (ofText 1 (onePerLine 1 source)).map
        (fun l => l.notes.warnings.map Located.what) =
        [[.unknownEscape '\n'], []] := by
  decide +kernel

end Lexed

end ScriptLang
