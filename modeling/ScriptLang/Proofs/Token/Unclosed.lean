import Mathlib.Data.List.DropRight
import ScriptLang.Proofs.Token.Boundaries

/-!
# Tokens that the text ends in

A string or a block comment that is not closed takes all of the text that is left,
and what is put behind the text becomes part of it.  Line breaks do not close it.
They belong to its content, but if the content exceeds the limit before them,
nothing of that is seen: the content that is kept is the same, and so is the error.

Only a backslash can tell the difference.  If the string ends in one that is not
itself escaped, it makes an escape sequence of the first line break, which is one
that nobody knows (`readFrom_lineBreaks`).
-/

namespace ScriptLang

/-! ## Backslashes at the end -/

/-- Whether some characters of a literal end in a backslash that takes the next
character away. -/
def escapesNext (chars : List Char) : Bool :=
  chars.foldl (fun escaped c => !escaped && c == '\\') false

/-- A character that is no backslash escapes nothing. -/
theorem escapesNext_cons {c : Char} (hc : c ≠ '\\') (chars : List Char) :
    escapesNext (c :: chars) = escapesNext chars := by
  rw [escapesNext, List.foldl_cons, beq_eq_false_iff_ne.mpr hc,
    Bool.and_false, escapesNext]

/-- Characters that are no backslashes escape nothing behind them. -/
theorem escapesNext_append {before : List Char} (h : ∀ c ∈ before, c ≠ '\\')
    (chars : List Char) :
    escapesNext (before ++ chars) = escapesNext chars := by
  induction before with
  | nil => rfl
  | cons c before ih =>
      obtain ⟨hc, hbefore⟩ := List.forall_mem_cons.mp h
      rw [List.cons_append, escapesNext_cons hc, ih hbefore]

theorem escapesNext_escape (e : Char) (chars : List Char) :
    escapesNext ('\\' :: e :: chars) = escapesNext chars := rfl

/-- The last character escapes the next one if it is a backslash and not escaped
itself. -/
theorem escapesNext_concat (chars : List Char) (c : Char) :
    escapesNext (chars ++ [c]) = (!escapesNext chars && c == '\\') := by
  rw [escapesNext, List.foldl_append]
  rfl

/-- Every second backslash at the end takes the one before it for its own. -/
theorem escapesNext_iff (chars : List Char) :
    escapesNext chars = true ↔ (chars.rtakeWhile (· == '\\')).length % 2 = 1 := by
  induction chars using List.reverseRecOn with
  | nil => simp [escapesNext]
  | append_singleton chars c ih =>
      rw [escapesNext_concat, List.rtakeWhile_concat]
      by_cases hc : (c == '\\') = true
      · rw [if_pos hc, hc, Bool.and_true, Bool.not_eq_true', List.length_append,
          List.length_singleton]
        by_cases hbefore : escapesNext chars = true
        · have := ih.mp hbefore
          simp only [hbefore, Bool.true_eq_false, false_iff]
          omega
        · have := mt ih.mpr hbefore
          simp only [hbefore, true_iff]
          omega
      · rw [if_neg hc]
        simp [hc]

/-- Line breaks have no part in it, however they are written. -/
theorem escapesNext_logical (chars : List Char) :
    escapesNext ((Glyph.ofChars chars).map Glyph.char) = escapesNext chars := by
  unfold escapesNext
  generalize false = escaped
  fun_induction Glyph.ofChars chars generalizing escaped with
  | case1 => rfl
  | case2 rest ih => simpa using ih _
  | case3 rest ih => simpa using ih _
  | case4 c rest _ _ ih =>
      rw [List.map_cons, List.foldl_cons, List.foldl_cons, ih]
      split
      · rename_i hbreak
        have hne : c ≠ '\\' := by
          rintro rfl
          exact absurd hbreak (by decide)
        rw [beq_eq_false_iff_ne.mpr hne]
        rfl
      · rfl

/-! ## Tokens that the text ends in -/

/-- The error of a lexeme that goes beyond the limit is that it does. -/
theorem overrun_head? {limit : Nat} {items : List Placed} (h : limit < items.length)
    (errors : List (Located LexicalError)) :
    (overrun limit items ++ errors).head?.map Located.what =
      some (.lexemeTooLong limit) := by
  rw [overrun, List.getElem?_eq_getElem h]
  rfl

/-- If the missing end of a token is not noted, the token was too long. -/
theorem length_lt_of_overrun {limit : Nat} {items : List Placed} {behind : Cursor}
    (h : (overrun limit items ++ unclosed false behind).head?.map Located.what ≠
      some .unexpectedEndOfText) :
    limit < items.length := by
  by_contra hle
  rw [overrun, List.getElem?_eq_none (Nat.not_lt.mp hle)] at h
  exact h rfl

/-- What is appended beyond the limit is not kept. -/
theorem content_eq_of_append {limit : Nat} {items items' : List Placed}
    {more : List Char} (h : items'.map Placed.char = items.map Placed.char ++ more)
    (hlimit : limit ≤ items.length) :
    content limit items' = content limit items := by
  rw [content, content, List.map_take, List.map_take, h,
    List.take_append_of_le_length (by rwa [List.length_map])]

/-- Characters with the places where they stand. -/
def Glyph.placed : Position → List Glyph → List Placed
  | _, [] => []
  | here, g :: rest => ⟨g.char, here⟩ :: placed (here.after g) rest

theorem Glyph.map_char_placed (here : Position) (glyphs : List Glyph) :
    (placed here glyphs).map Placed.char = glyphs.map Glyph.char := by
  induction glyphs generalizing here with
  | nil => rfl
  | cons g rest ih => rw [placed, List.map_cons, List.map_cons, ih]

theorem Glyph.placed_append (here : Position) (glyphs more : List Glyph) :
    placed here (glyphs ++ more) = placed here glyphs ++
      placed (here.behind glyphs) more := by
  induction glyphs generalizing here with
  | nil => rfl
  | cons g rest ih =>
      rw [List.cons_append, placed, placed, ih, List.cons_append]
      rfl

open Glyph

/-- A comment that is not closed takes all that is left. -/
theorem commentRun_of_open {here : Position} {rest : List Glyph}
    (h : (commentRun here rest).2.1 = false) :
    commentRun here rest = (placed here rest, false, ⟨here.behind rest, []⟩) := by
  fun_induction commentRun here rest with
  | case1 => rfl
  | case2 => rfl
  | case3 => cases h
  | case4 here g k rest hclose body closed behind hrun ih =>
      rw [hrun] at ih
      have hbehind := ih h
      simp only [Prod.mk.injEq] at hbehind
      obtain ⟨rfl, rfl, rfl⟩ := hbehind
      rfl

/-- A literal that is not closed takes all that is left. -/
theorem bodyRun_of_open {escaped : Bool} {here : Position} {rest : List Glyph}
    (h : (bodyRun escaped here rest).closed = false) :
    bodyRun escaped here rest =
      ⟨placed here rest, here.behind rest, false, ⟨here.behind rest, []⟩⟩ := by
  induction rest generalizing escaped here with
  | nil => rfl
  | cons g rest ih =>
      by_cases hclose : (!escaped && g.char == '"') = true
      · simp only [bodyRun, if_pos hclose] at h
        cases h
      · simp only [bodyRun, if_neg hclose] at h ⊢
        rw [ih h]
        rfl

/-- Without a slash no comment is closed. -/
theorem commentRun_open {here : Position} {rest : List Glyph}
    (h : ∀ g ∈ rest, g.char ≠ '/') :
    (commentRun here rest).2.1 = false := by
  fun_induction commentRun here rest with
  | case1 => rfl
  | case2 => rfl
  | case3 here g k rest hclose => exact absurd hclose.2 (h k (by simp))
  | case4 here g k rest hclose body closed behind hrun ih =>
      rw [hrun] at ih
      exact ih fun x hx => h x (List.mem_cons_of_mem _ hx)

/-- A block comment that is not closed goes on through a text without slashes. -/
theorem commentRun_open_append {here : Position} {rest more : List Glyph}
    (hmore : ∀ g ∈ more, g.char ≠ '/') (h : (commentRun here rest).2.1 = false) :
    (commentRun here (rest ++ more)).2.1 = false := by
  fun_induction commentRun here rest with
  | case1 => exact commentRun_open hmore
  | case2 here g =>
      cases more with
      | nil => rfl
      | cons k more =>
          have hopen : ¬(g.char = '*' ∧ k.char = '/') :=
            fun hclose => hmore k List.mem_cons_self hclose.2
          rw [List.singleton_append, commentRun, if_neg hopen]
          exact commentRun_open hmore
  | case3 => cases h
  | case4 here g k rest hclose body closed behind hrun ih =>
      rw [hrun] at ih
      rw [List.cons_append, List.cons_append, commentRun, if_neg hclose]
      exact ih h

/-- A string that is not closed goes on through a text without quotes. -/
theorem bodyRun_open_append {escaped : Bool} {here : Position}
    {rest more : List Glyph} (hmore : ∀ g ∈ more, g.char ≠ '"')
    (h : (bodyRun escaped here rest).closed = false) :
    (bodyRun escaped here (rest ++ more)).closed = false := by
  induction rest generalizing escaped here with
  | nil =>
      clear h
      rw [List.nil_append]
      induction more generalizing escaped here with
      | nil => rfl
      | cons g more ih =>
          obtain ⟨hg, hmore⟩ := List.forall_mem_cons.mp hmore
          rw [bodyRun, beq_eq_false_iff_ne.mpr hg, Bool.and_false,
            if_neg Bool.false_ne_true]
          exact ih hmore
  | cons g rest ih =>
      by_cases hclose : (!escaped && g.char == '"') = true
      · simp only [bodyRun, if_pos hclose] at h
        cases h
      · simp only [List.cons_append, bodyRun, if_neg hclose] at h ⊢
        exact ih h

/-- Characters that no backslash stands among stand for themselves. -/
theorem decode_plain (finish : Position) {items : List Placed}
    (h : ∀ item ∈ items, item.char ≠ '\\') :
    decode finish items = (items, []) := by
  induction items with
  | nil => simp only [decode]
  | cons item items ih =>
      obtain ⟨hitem, hitems⟩ := List.forall_mem_cons.mp h
      cases items with
      | nil => simp only [decode, if_neg hitem]
      | cons next items =>
          rw [decode, ih hitems]
          exact if_pos hitem

/-- A character code goes on with no line break. -/
theorem takeWhile_digits_append {breaks : List Placed}
    (hbreaks : ∀ item ∈ breaks, item.char = '\n') (items : List Placed) :
    (items ++ breaks).takeWhile (fun d => Character.isDigitOf 16 d.char) =
      items.takeWhile fun d => Character.isDigitOf 16 d.char := by
  have hstop : breaks.takeWhile (fun d => Character.isDigitOf 16 d.char) = [] := by
    cases breaks with
    | nil => rfl
    | cons b breaks => simp [hbreaks b List.mem_cons_self, isDigitOf_lineFeed]
  rw [List.takeWhile_append, hstop, List.append_nil]
  split
  · rename_i hall
    exact (List.IsPrefix.eq_of_length (List.takeWhile_prefix _) hall).symm
  · rfl

/-- Line breaks behind the body of a literal stand for themselves.  Only a backslash
at its end takes the first of them for an escape sequence, which nobody knows. -/
theorem decode_lineBreaks (finish finish' : Position) (body : List Placed)
    {breaks : List Placed} (hne : breaks ≠ [])
    (hbreaks : ∀ item ∈ breaks, item.char = '\n') :
    (decode finish' (body ++ breaks)).1.map Placed.char =
        (decode finish body).1.map Placed.char ++ breaks.map Placed.char ∧
      (decode finish' (body ++ breaks)).2.map Located.what =
        (decode finish body).2.map Located.what ++
          if escapesNext (body.map Placed.char) then [.unknownEscape '\n']
          else [] := by
  have hplain : ∀ {items : List Placed}, (∀ item ∈ items, item.char = '\n') →
      decode finish' items = (items, []) := by
    intro items hitems
    refine decode_plain finish' fun item hitem => ?_
    rw [hitems item hitem]
    decide
  fun_induction decode finish body with
  | case1 => simp [hplain hbreaks, escapesNext]
  | case2 p hp =>
      cases breaks with
      | nil => exact absurd rfl hne
      | cons b breaks =>
          obtain ⟨hb, hbreaks⟩ := List.forall_mem_cons.mp hbreaks
          have hescape : escape? '\n' = none := rfl
          simp [decode, hp, hb, hplain hbreaks, hescape, escapesNext]
  | case3 p hp =>
      cases breaks with
      | nil => exact absurd rfl hne
      | cons b breaks =>
          rw [List.singleton_append, decode, hplain hbreaks, if_pos hp]
          simp [escapesNext, hp]
  | case4 p e rest hp items warnings hdecode ih =>
      rw [hdecode, List.cons_append] at ih
      rw [List.cons_append, List.cons_append, decode]
      generalize decode finish' (e :: (rest ++ breaks)) = decoded at ih ⊢
      obtain ⟨hitems, hwarnings⟩ := ih
      simp only [if_pos hp, List.map_cons, escapesNext_cons hp, hitems, hwarnings,
        List.cons_append, and_self]
  | case5 p e rest hp he digits behind code items warnings hdecode ih =>
      have hbegins : digits <+: rest :=
        (List.take_prefix 4 _).trans (List.takeWhile_prefix _)
      have hescapes : escapesNext ((p :: e :: rest).map Placed.char) =
          escapesNext (behind.map Placed.char) := by
        have hrest : rest = digits ++ behind :=
          (List.prefix_iff_eq_append.mp hbegins).symm
        rw [List.map_cons, List.map_cons, not_not.mp hp, escapesNext_escape, hrest,
          List.map_append]
        refine escapesNext_append (fun c hc => ?_) _
        obtain ⟨d, hd, rfl⟩ := List.mem_map.mp hc
        have hdigit := List.mem_takeWhile_imp (List.mem_of_mem_take hd)
        intro hbackslash
        rw [hbackslash] at hdigit
        exact absurd hdigit (by decide)
      rw [hdecode] at ih
      rw [List.cons_append, List.cons_append, decode, hescapes]
      dsimp only
      rw [takeWhile_digits_append hbreaks,
        List.drop_append_of_le_length hbegins.length_le]
      generalize decode finish' (rest.drop digits.length ++ breaks) =
        decoded at ih ⊢
      obtain ⟨hitems, hwarnings⟩ := ih
      simp only [if_neg hp, if_pos he]
      refine ⟨by rw [List.map_cons, hitems]; rfl, ?_⟩
      split <;> simp [hwarnings]
  | case6 p e rest hp he items warnings hdecode c hescape ih =>
      have hescapes : escapesNext ((p :: e :: rest).map Placed.char) =
          escapesNext (rest.map Placed.char) := by
        rw [List.map_cons, List.map_cons, not_not.mp hp, escapesNext_escape]
      rw [hdecode] at ih
      rw [List.cons_append, List.cons_append, decode, hescapes]
      generalize decode finish' (rest ++ breaks) = decoded at ih ⊢
      obtain ⟨hitems, hwarnings⟩ := ih
      simp only [if_neg hp, if_neg he, hescape]
      exact ⟨by rw [List.map_cons, hitems]; rfl, hwarnings⟩
  | case7 p e rest hp he items warnings hdecode hescape ih =>
      have hescapes : escapesNext ((p :: e :: rest).map Placed.char) =
          escapesNext (rest.map Placed.char) := by
        rw [List.map_cons, List.map_cons, not_not.mp hp, escapesNext_escape]
      rw [hdecode] at ih
      rw [List.cons_append, List.cons_append, decode, hescapes]
      generalize decode finish' (rest ++ breaks) = decoded at ih ⊢
      obtain ⟨hitems, hwarnings⟩ := ih
      simp only [if_neg hp, if_neg he, hescape]
      exact ⟨by rw [List.map_cons, hitems]; rfl,
        by rw [List.map_cons, hwarnings]; rfl⟩

/-- Two readings that say the same, apart from additional warnings of the second
one, which takes all that is left. -/
structure Reading.Extends (additional : List LexicalWarning)
    (r r' : Reading) : Prop where
  lexeme : r'.lexeme = r.lexeme
  error : r'.errors.head?.map Located.what = r.errors.head?.map Located.what
  warnings : r'.warnings.map Located.what =
    r.warnings.map Located.what ++ additional
  rest : r'.behind.rest = []

/-- Two lists of characters, the second of which goes on with what the limit does
not keep of the first. -/
theorem content_unclosed {limit : Nat} {items items' : List Placed}
    {behind : Cursor} (behind' : Cursor) {more : List Char}
    (hitems : items'.map Placed.char = items.map Placed.char ++ more)
    (herror : (overrun limit items ++ unclosed false behind).head?.map
      Located.what ≠ some .unexpectedEndOfText) :
    content limit items' = content limit items ∧
      (overrun limit items' ++ unclosed false behind').head?.map Located.what =
        (overrun limit items ++ unclosed false behind).head?.map Located.what := by
  have hlimit := length_lt_of_overrun herror
  have hlength := congrArg List.length hitems
  rw [List.length_append, List.length_map, List.length_map] at hlength
  refine ⟨content_eq_of_append hitems (Nat.le_of_lt hlimit), ?_⟩
  rw [overrun_head? hlimit, overrun_head? (by omega)]

section Unclosed

variable {c : Cursor} {limit : Nat} {more : List Glyph}

theorem Cursor.broken_zero (more : List Glyph) (c : Cursor) :
    c.broken 0 more = ⟨c.position, c.rest ++ lineFeed :: more⟩ := by
  rw [Cursor.broken, Glyph.broken, Nat.sub_zero, List.take_length]

theorem Glyph.forall_mem_placed (here : Position) {glyphs : List Glyph}
    (h : ∀ g ∈ glyphs, g.char = '\n') :
    ∀ item ∈ placed here glyphs, item.char = '\n' := by
  intro item hitem
  have hmem : item.char ∈ (placed here glyphs).map Placed.char :=
    List.mem_map_of_mem hitem
  rw [map_char_placed] at hmem
  obtain ⟨g, hg, heq⟩ := List.mem_map.mp hmem
  rw [← heq, h g hg]

variable (hmore : ∀ g ∈ lineFeed :: more, g.char = '\n')

include hmore

/-- Line breaks behind a string that the text ends in become part of it.  They
change nothing if the limit is exceeded before them, unless the first of them is
escaped. -/
theorem readString_lineBreaks (hfirst : c.current? = some '"')
    (hopen : ¬ c.StringClosed)
    (herror : (readString limit c).errors.head?.map Located.what ≠
      some .unexpectedEndOfText) :
    (readString limit c).behind.rest = [] ∧
      (readString limit c).Extends
        (if escapesNext (c.rest.map Glyph.char) then [.unknownEscape '\n'] else [])
        (readString limit (c.broken 0 more)) := by
  obtain ⟨here, _ | ⟨g, rest⟩⟩ := c
  · cases hfirst
  · have hquote : g.char ≠ '\\' := by
      rw [show g.char = '"' from Option.some.inj hfirst]
      decide
    have hclosed : (bodyRun false (here.after g) rest).closed = false :=
      Bool.eq_false_iff.mpr hopen
    have hclosed' :
        (bodyRun false (here.after g) (rest ++ lineFeed :: more)).closed = false :=
      bodyRun_open_append (fun k hk => by rw [hmore k hk]; decide) hclosed
    simp only [Cursor.broken_zero, readString, Cursor.advance, List.cons_append,
      bodyRun_of_open hclosed, bodyRun_of_open hclosed', placed_append] at herror ⊢
    have hbreaks := forall_mem_placed ((here.after g).behind rest) hmore
    have hne : placed ((here.after g).behind rest) (lineFeed :: more) ≠ [] :=
      List.cons_ne_nil _ _
    obtain ⟨hitems, hwarnings⟩ := decode_lineBreaks ((here.after g).behind rest)
      ((here.after g).behind (rest ++ lineFeed :: more))
        (placed (here.after g) rest) hne hbreaks
    obtain ⟨hcontent, herror⟩ := content_unclosed _ hitems herror
    refine ⟨trivial, ?_, herror, ?_, rfl⟩
    · rw [hcontent]
    · rw [hwarnings, map_char_placed, List.map_cons, escapesNext_cons hquote]

/-- Line breaks behind a comment that the text ends in become part of it.  They
change nothing if the limit is exceeded before them. -/
theorem readBlockComment_lineBreaks
    (hopen : (commentRun c.position c.rest).2.1 = false)
    (herror : (readBlockComment limit c).errors.head?.map Located.what ≠
      some .unexpectedEndOfText) :
    (readBlockComment limit c).behind.rest = [] ∧
      (readBlockComment limit c).Extends []
        (readBlockComment limit (c.broken 0 more)) := by
  have hopen' : (commentRun c.position (c.rest ++ lineFeed :: more)).2.1 = false :=
    commentRun_open_append (fun k hk => by rw [hmore k hk]; decide) hopen
  simp only [Cursor.broken_zero, readBlockComment, commentRun_of_open hopen,
    commentRun_of_open hopen', placed_append] at herror ⊢
  obtain ⟨hcontent, herror⟩ := content_unclosed _ List.map_append herror
  refine ⟨trivial, ?_, herror, rfl, rfl⟩
  rw [hcontent]

/-- Line breaks behind a token that the text ends in, and that exceeds the limit,
change nothing but that the first of them can be escaped. -/
theorem readFrom_lineBreaks {first : Char} (hfirst : c.current? = some first)
    (hopen : ¬ c.Closed)
    (herror : (readFrom limit first c).errors.head?.map Located.what ≠
      some .unexpectedEndOfText) :
    (readFrom limit first c).behind.rest = [] ∧
      (readFrom limit first c).Extends
        (if (readFrom limit first c).lexeme.kind = .string ∧
            escapesNext (c.rest.map Glyph.char) then
          [.unknownEscape '\n']
        else [])
        (readFrom limit first (c.broken 0 more)) := by
  have hopener : (liveRun [] c.position c.rest).1 = Symbol.blockComment →
      Symbol.isLive [first] = true := by
    intro hblock
    obtain ⟨here, _ | ⟨g, rest⟩⟩ := c
    · cases hfirst
    · obtain rfl : g.char = first := Option.some.inj hfirst
      by_contra hdead
      rw [liveRun, List.nil_append, if_neg hdead] at hblock
      cases hblock
  by_cases hquote : first = '"'
  · subst hquote
    have hstring : ¬ c.StringClosed := fun hclosed =>
      hopen ⟨fun _ => hclosed, fun hblock => absurd (hopener hblock) (by decide)⟩
    have hkind : (readString limit c).lexeme.kind = .string := rfl
    rw [readFrom_quote] at herror
    simp only [readFrom_quote, hkind, true_and]
    exact readString_lineBreaks hmore hfirst hstring herror
  · have hcomment : ¬ c.CommentClosed := fun hclosed =>
      hopen ⟨fun hstring => absurd (Option.some.inj (hfirst.symm.trans hstring))
        hquote, hclosed⟩
    obtain ⟨hblock, hrun⟩ := Classical.not_imp.mp hcomment
    have hread : ∀ c, readFrom limit first c = readSymbol limit c := by
      intro c
      rw [readFrom, if_pos (hopener hblock)]
    have hsymbol : readSymbol limit c =
        readBlockComment limit (liveRun [] c.position c.rest).2 := by
      rw [readSymbol]
      simp only [hblock]
      rfl
    have hsymbol' : readSymbol limit (c.broken 0 more) =
        readBlockComment limit
            ((liveRun [] c.position c.rest).2.broken 0 more) := by
      rw [readSymbol, Cursor.position_broken, Cursor.rest_broken,
        liveRun_broken [] c.position c.rest (Nat.zero_le _)]
      simp only [hblock]
      rfl
    have hkind :
      (readBlockComment limit (liveRun [] c.position c.rest).2).lexeme.kind =
      .blockComment := rfl
    rw [hread, hsymbol] at herror
    simp only [hread, hsymbol, hsymbol', hkind, reduceCtorEq, false_and, if_false]
    exact readBlockComment_lineBreaks hmore (Bool.eq_false_iff.mpr hrun) herror

end Unclosed

end ScriptLang
