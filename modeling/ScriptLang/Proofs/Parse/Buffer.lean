import ScriptLang.Parse.Stream
import ScriptLang.Proofs.Parse.Progress
import ScriptLang.Proofs.Token.Reading

/-!
# Parsing while reading comes to the same

A `Parser` reads a token when it needs one, keeps those that it has only looked at
in a buffer, and logs what the lexer has to say as soon as a token or a comment is
read.  `Parser.Follows` compares it with a parse that has all tokens of the text at
hand.  The buffer holds the entries between those taken and those seen, the log
holds the notes on the entries seen, and what the lexer has still to read are the
entries behind.  One token that is read keeps this (`Parser.Follows.pull`), so
looking ahead and taking do, and with them all rules of the grammar, by way of a
pairing (`Pairing.following`).

So the steps through a text have the same outcomes and the same findings
(`Parser.outcomes_follow`).
-/

namespace ScriptLang

/-! ## Logs -/

/-- What a log holds after some notes have been handed to it. -/
structure Log.Holds (log : Log LexicalError LexicalWarning)
    (notes : List Notes) : Prop where
  errors_eq : log.errors.toList = notes.filterMap Notes.error
  warnings_eq : log.warnings.toList = notes.flatMap Notes.warnings

/-- To report a token to the log is to add what is noted about it. -/
theorem Lexer.reportTo_holds {log : Log LexicalError LexicalWarning}
    {notes : List Notes} (h : log.Holds notes) (l : Lexer) :
    (l.reportTo log).1.Holds (notes ++ [l.notes]) where
  errors_eq := by
    rw [List.filterMap_append, ← h.errors_eq, reportTo, Lexer.notes]
    cases l.error <;> simp
  warnings_eq := by
    rw [List.flatMap_append, ← h.warnings_eq, reportTo, Lexer.notes]
    simp

namespace Lexer

/-- The first token of a lexer, and those behind it. -/
theorem tokens_eq_cons (l : Lexer) :
    l.tokens = ⟨l.advance.1, l.advance.2.notes⟩ ::
      if l.advance.1.lexeme = .endOfText then [] else l.advance.2.tokens := by
  rw [tokens]
  split <;> rfl

/-- What a lexer has still to read does not depend on what it has raised. -/
theorem tokens_reportTo (log : Log LexicalError LexicalWarning) (l : Lexer) :
    (l.reportTo log).2.tokens = l.tokens := by
  rw [tokens_eq_all, tokens_eq_all]
  rfl

/-- Every token but the last takes a character. -/
theorem length_tokens_le (l : Lexer) : l.tokens.length ≤ l.remaining + 1 := by
  fun_induction tokens l with
  | case1 => exact Nat.succ_le_succ (Nat.zero_le _)
  | case2 l read hmore ih =>
      have hless := remaining_advance_lt l hmore
      rw [List.length_cons]
      exact Nat.succ_le_succ (Nat.le_trans ih hless)

end Lexer

/-- A text has no more logical characters than raw ones. -/
theorem Glyph.length_ofChars_le (chars : List Char) :
    (ofChars chars).length ≤ chars.length := by
  fun_induction ofChars chars with
  | case1 => exact Nat.le_refl _
  | _ => simp only [List.length_cons] at *; omega

/-- A scanner has read at most two characters of the text ahead. -/
theorem Scanner.remaining_le (s : Scanner) : s.remaining ≤ s.source.length + 2 := by
  have hcurrent : s.current.toList.length ≤ 1 := by cases s.current <;> simp
  have hnext : s.next.toList.length ≤ 1 := by cases s.next <;> simp
  have hsource := Glyph.length_ofChars_le s.source
  simp only [remaining, cursor, List.length_append]
  omega

/-- There are no more tokens without comments than with them. -/
theorem Entry.length_gather_le (pending : List Notes) (ls : List Lexed) :
    (gather pending ls).length ≤ ls.length := by
  induction ls generalizing pending with
  | nil => exact Nat.le_refl _
  | cons l ls ih =>
      rw [gather]
      split
      · exact Nat.le_succ_of_le (ih _)
      · exact Nat.succ_le_succ (ih _)

/-! ## Reading on -/

namespace TokenStream

/-- What pulling a token does to a stream: the token is that of the next entry, its
notes and those on the comments before it are logged, and the lexer stands in front
of the entries behind. -/
structure Pulls (t : TokenStream) (e : Entry) (rest : List Entry)
    (result : Token × TokenStream) :
    Prop where
  token_eq : result.1 = e.token
  ahead_eq : rest ≠ [] → Entry.gather [] result.2.lexer.tokens = rest
  buffer_eq : result.2.buffer = t.buffer
  consumed_eq : result.2.consumed = t.consumed
  previousEnd_eq : result.2.previousEnd = t.previousEnd

variable {t : TokenStream} {e : Entry} {rest : List Entry}
  {pending before : List Notes}

/-- To pull a token is to pass the comments before it, and to log what is noted
about all of them. -/
theorem pull_pulls (h : Entry.gather pending t.lexer.tokens = e :: rest)
    (hlog : t.lexical.Holds (before ++ pending)) :
    t.Pulls e rest t.pull ∧ t.pull.2.lexical.Holds (before ++ e.notes) := by
  fun_induction pull t generalizing pending with
  | case1 t read hcomment =>
      rename_i ih
      have hcomment' : t.lexer.advance.1.kind.isComment = true := hcomment
      have hmore : t.lexer.advance.1.lexeme ≠ .endOfText := by
        intro hend
        have hkind : t.lexer.advance.1.kind = .endOfText :=
          congrArg Lexeme.kind hend
        rw [hkind] at hcomment'
        cases hcomment'
      rw [t.lexer.tokens_eq_cons, if_neg hmore, Entry.gather, if_pos hcomment',
        ← Lexer.tokens_reportTo t.lexical] at h
      have hlog' := Lexer.reportTo_holds hlog t.lexer.advance.2
      rw [List.append_assoc] at hlog'
      obtain ⟨⟨htoken, hahead, hbuffer, hconsumed, hprevious⟩, hholds⟩ := ih h hlog'
      exact ⟨⟨htoken, hahead, hbuffer, hconsumed, hprevious⟩, hholds⟩
  | case2 t read =>
      rename_i hcomment
      have hcomment' : ¬ t.lexer.advance.1.kind.isComment = true := hcomment
      rw [t.lexer.tokens_eq_cons, Entry.gather, if_neg hcomment'] at h
      obtain ⟨rfl, hrest⟩ := List.cons.inj h
      refine ⟨⟨rfl, fun hne => ?_, rfl, rfl, rfl⟩, ?_⟩
      · by_cases hend : t.lexer.advance.1.lexeme = .endOfText
        · rw [if_pos hend] at hrest
          exact absurd hrest.symm hne
        · rw [if_neg hend, ← Lexer.tokens_reportTo t.lexical] at hrest
          exact hrest
      · have hlog' := Lexer.reportTo_holds hlog t.lexer.advance.2
        rw [List.append_assoc] at hlog'
        exact hlog'

/-- A token that is taken may as well have been looked at before. -/
theorem bump_fill (t : TokenStream) : (t.fill 0).bump = t.bump := by
  rw [fill]
  split
  · rfl
  · rename_i hempty
    have hnil : t.buffer = [] := List.length_eq_zero_iff.mp (by omega)
    have hnil' : t.pull.2.buffer = [] := t.buffer_pull.trans hnil
    rw [fill, if_pos (by simp)]
    unfold bump
    rw [hnil, hnil']
    simp only [List.nil_append]
    rw [← hnil']

end TokenStream

/-! ## Parsers that follow -/

/-- The state after one more token has been looked at. -/
def ParseState.sees (s : ParseState) : ParseState := { s with seen := s.seen + 1 }

namespace Parser

/-- A parser that has come as far as a parse with the given entries at hand. -/
structure Follows (entries : List Entry) (s : ParseState) (p : Parser) : Prop where
  entries_eq : s.entries = entries
  rest_eq : s.rest = entries.drop s.taken
  taken_lt : s.taken < entries.length
  taken_le : s.taken ≤ s.seen
  seen_le : s.seen ≤ entries.length
  consumed_eq : p.tokens.consumed = s.taken
  previousEnd_eq : p.tokens.previousEnd = s.previousEnd
  /-- What has been looked at and not been taken waits in the buffer. -/
  buffer_eq : p.tokens.buffer = ((entries.take s.seen).drop s.taken).map Entry.token
  /-- What has not been looked at has not been read. -/
  ahead_eq : s.seen < entries.length →
    Entry.gather [] p.tokens.lexer.tokens = entries.drop s.seen
  lexical : p.tokens.lexical.Holds s.notes
  syntactic_eq : p.syntactic = ⟨s.errors, s.warnings⟩

variable {entries : List Entry} {s : ParseState} {p : Parser}

namespace Follows

/-- The buffer holds the tokens that have been looked at and not taken. -/
theorem length_buffer (h : Follows entries s p) :
    p.tokens.buffer.length = s.seen - s.taken := by
  have hseen := h.seen_le
  rw [h.buffer_eq, List.length_map, List.length_drop, List.length_take]
  omega

/-- A token that is read is the next one to look at. -/
theorem pull (h : Follows entries s p) (hseen : s.seen < entries.length) :
    let pulled := p.tokens.pull
    Follows entries s.sees
      { p with
        tokens := { pulled.2 with buffer := pulled.2.buffer ++ [pulled.1] } } := by
  intro pulled
  have hdrop : entries.drop s.seen = entries[s.seen] :: entries.drop (s.seen + 1) :=
    List.drop_eq_getElem_cons hseen
  have hlog : p.tokens.lexical.Holds (s.notes ++ []) := by
    rw [List.append_nil]
    exact h.lexical
  obtain ⟨⟨htoken, hahead, hbuffer, hconsumed, hprevious⟩, hholds⟩ :=
    TokenStream.pull_pulls ((h.ahead_eq hseen).trans hdrop) hlog
  have htake : entries.take (s.seen + 1) = entries.take s.seen ++
      [entries[s.seen]] :=
    (List.take_append_getElem hseen).symm
  refine ⟨h.entries_eq, h.rest_eq, h.taken_lt, Nat.le_succ_of_le h.taken_le, hseen,
    hconsumed.trans h.consumed_eq, hprevious.trans h.previousEnd_eq, ?_,
      fun hmore => ?_, ?_,
    h.syntactic_eq⟩
  · have hle : s.taken ≤ (entries.take s.seen).length := by
      rw [List.length_take]
      exact Nat.le_min.mpr ⟨h.taken_le, Nat.le_of_lt h.taken_lt⟩
    show pulled.2.buffer ++ [pulled.1] =
      ((entries.take (s.seen + 1)).drop s.taken).map Entry.token
    rw [hbuffer, h.buffer_eq, htake, List.drop_append_of_le_length hle,
      List.map_append, htoken]
    rfl
  · exact hahead (mt List.drop_eq_nil_iff.mp (Nat.not_le_of_lt hmore))
  · have hnotes : s.sees.notes = s.notes ++ entries[s.seen].notes := by
      simp only [ParseState.notes, ParseState.sees, h.entries_eq, htake,
        List.flatMap_append, List.flatMap_singleton]
    rw [hnotes]
    exact hholds

/-- The buffer is filled up with the entries that are looked at. -/
theorem fill {n : Nat} (h : Follows entries s p)
    (hn : s.taken + (n + 1) ≤ entries.length) :
    Follows entries (s.look (n + 1)) { p with tokens := p.tokens.fill n } := by
  obtain ⟨t, syntactic⟩ := p
  dsimp only
  fun_induction TokenStream.fill n t generalizing s with
  | case1 t hfull =>
      rw [h.length_buffer] at hfull
      have hlook : s.look (n + 1) = s := by
        rw [ParseState.look, Nat.max_eq_left (by omega)]
      rw [hlook]
      exact h
  | case2 t hshort pulled =>
      rename_i ih
      rw [h.length_buffer] at hshort
      have htaken := h.taken_le
      have hlook : s.sees.look (n + 1) = s.look (n + 1) := by
        simp only [ParseState.look, ParseState.sees]
        congr 1
        omega
      rw [← hlook]
      exact ih hn (h.pull (by omega))

/-- What is looked at is what the parse has at hand. -/
theorem getElem_buffer (h : Follows entries s p) {n : Nat}
    (hn : n < p.tokens.buffer.length) (hlt : s.taken + n < entries.length) :
    p.tokens.buffer[n] = entries[s.taken + n].token := by
  simp only [h.buffer_eq, List.getElem_map, List.getElem_drop, List.getElem_take]

/-- The next token, by its number. -/
theorem token_eq (h : Follows entries s p) (hlt : s.taken < entries.length) :
    s.token = entries[s.taken].token := by
  rw [ParseState.token, h.rest_eq, List.drop_eq_getElem_cons hlt]

/-- The kind of the token behind it, by its number. -/
theorem secondKind_eq (h : Follows entries s p)
    (hlt : s.taken + 1 < entries.length) :
    s.secondKind = entries[s.taken + 1].token.kind := by
  rw [ParseState.secondKind, h.rest_eq, List.drop_eq_getElem_cons h.taken_lt,
    List.drop_eq_getElem_cons hlt]

/-- To look at the next token, in both parsers. -/
theorem peek (h : Follows entries s p) :
    Follows entries (s.look 1) (TokenSource.peek p).2 ∧
      (TokenSource.peek p).1 = s.token := by
  have hfill := h.fill (n := 0) h.taken_lt
  rw [peek_eq]
  exact ⟨hfill, (hfill.getElem_buffer _ h.taken_lt).trans
    (h.token_eq h.taken_lt).symm⟩

/-- To look at the token behind it, in both parsers. -/
theorem peekSecondKind (h : Follows entries s p)
    (hlt : s.taken + 1 < entries.length) :
    Follows entries (s.look 2) (TokenSource.peekSecondKind p).2 ∧
      (TokenSource.peekSecondKind p).1 = s.secondKind := by
  have hfill := h.fill (n := 1) hlt
  rw [peekSecondKind_eq]
  exact ⟨hfill, (congrArg Token.kind (hfill.getElem_buffer _ hlt)).trans
    (h.secondKind_eq hlt).symm⟩

/-- A token that has been looked at is taken from the buffer. -/
theorem bump_buffered (h : Follows entries s p) (hseen : s.taken < s.seen)
    (hlt : s.taken + 1 < entries.length) :
    Follows entries s.take (TokenSource.bump p).2 ∧
      (TokenSource.bump p).1 = s.token := by
  have hbuffer : p.tokens.buffer =
      s.token :: ((entries.take s.seen).drop (s.taken + 1)).map Entry.token := by
    have htaken : s.taken < (entries.take s.seen).length := by
      rw [List.length_take]
      exact Nat.lt_min.mpr ⟨hseen, h.taken_lt⟩
    rw [h.buffer_eq, List.drop_eq_getElem_cons htaken, List.map_cons,
      List.getElem_take, h.token_eq h.taken_lt]
  have hmax : max s.seen (s.taken + 1) = s.seen := Nat.max_eq_left hseen
  have hbump : p.tokens.bump = (s.token,
      { p.tokens with
        buffer := ((entries.take s.seen).drop (s.taken + 1)).map Entry.token
        consumed := p.tokens.consumed + 1
        previousEnd := s.token.span.stop }) := by
    rw [TokenStream.bump, hbuffer]
  rw [bump_eq, hbump]
  refine ⟨?_, rfl⟩
  exact
    { entries_eq := h.entries_eq
      rest_eq := by rw [ParseState.take, h.rest_eq, List.tail_drop]
      taken_lt := hlt
      taken_le := Nat.le_max_right _ _
      seen_le := Nat.max_le.mpr ⟨h.seen_le, Nat.le_of_lt hlt⟩
      consumed_eq := congrArg (· + 1) h.consumed_eq
      previousEnd_eq := rfl
      buffer_eq := by rw [ParseState.take, hmax]
      ahead_eq := by
        rw [ParseState.take, hmax]
        exact h.ahead_eq
      lexical := by
        rw [ParseState.take, ParseState.notes, hmax]
        exact h.lexical
      syntactic_eq := h.syntactic_eq }

/-- A token that is taken is the next one, looked at or not. -/
theorem bump (h : Follows entries s p) (hlt : s.taken + 1 < entries.length) :
    Follows entries s.take (TokenSource.bump p).2 ∧
      (TokenSource.bump p).1 = s.token := by
  have htake : (s.look 1).take = s.take := by
    simp only [ParseState.look, ParseState.take, ParseState.token,
      Nat.max_assoc, Nat.max_self]
  have hfill : TokenSource.bump (TokenSource.peek p).2 = TokenSource.bump p := by
    rw [peek_eq, bump_eq, bump_eq, TokenStream.bump_fill]
  have hlooked := h.peek.1.bump_buffered (Nat.le_max_right _ _) hlt
  rwa [htake, hfill] at hlooked

/-- To raise an error, in both parsers. -/
theorem raised (h : Follows entries s p) (cause : ParseError)
    (position : Position) :
    Follows entries (s.raised cause position)
      (TokenSource.raise cause position p) :=
  { h with
    syntactic_eq := by
      show ({ p.syntactic with errors := _ } : Log ParseError ParseWarning) = _
      rw [h.syntactic_eq]
      rfl }

/-- To warn, in both parsers. -/
theorem warned (h : Follows entries s p) (cause : ParseWarning)
    (position : Position) :
    Follows entries (s.warned cause position) (TokenSource.warn cause position p) :=
  { h with
    syntactic_eq := by
      show ({ p.syntactic with warnings := _ } : Log ParseError ParseWarning) = _
      rw [h.syntactic_eq]
      rfl }

/-- Both report the same. -/
theorem findings_eq (h : Follows entries s p) :
    TokenSource.findings p = s.findings := by
  show Findings.mk p.tokens.lexical.errors.toList p.tokens.lexical.warnings.toList
    p.syntactic.errors p.syntactic.warnings = _
  rw [h.lexical.errors_eq, h.lexical.warnings_eq, h.syntactic_eq]
  rfl

/-- There are no more tokens left than there are characters. -/
theorem length_le (h : Follows entries s p) :
    s.rest.length ≤ TokenSource.remaining p := by
  have hbuffer := h.length_buffer
  have htaken := h.taken_le
  have hseen := h.seen_le
  show s.rest.length ≤ p.tokens.buffer.length +
    p.tokens.lexer.scanner.source.length + 3
  rw [h.rest_eq, List.length_drop]
  by_cases hmore : s.seen < entries.length
  · have hahead := Entry.length_gather_le [] p.tokens.lexer.tokens
    rw [h.ahead_eq hmore, List.length_drop] at hahead
    have htokens := p.tokens.lexer.length_tokens_le
    have hscanner := p.tokens.lexer.scanner.remaining_le
    have hremaining : p.tokens.lexer.remaining = p.tokens.lexer.scanner.remaining :=
      rfl
    omega
  · omega

end Follows

end Parser

/-- A parse with all tokens at hand beside one that reads them.  The comparison ends
where a parse has taken the end of the text, or has looked behind it. -/
def Pairing.following (entries : List Entry) : Pairing Parser where
  strict := False
  even := False
  total := entries.length
  ahead := 0
  surplus := 0
  move := id
  clear s := s.taken < entries.length ∧ s.seen ≤ entries.length
  pairs := Parser.Follows entries

instance (entries : List Entry) : (Pairing.following entries).Lawful where
  move_later _ _ := rfl
  move_earlier _ _ := rfl
  clear_of_leads hleads hclear :=
    ⟨Nat.lt_of_le_of_lt hleads.taken_le hclear.1,
      Nat.le_trans hleads.seen_le hclear.2⟩
  not_clear_raised _ _ _ h := h.elim
  raised cause position hs _ := hs.raised cause position
  warned cause position hs := hs.warned cause position
  peek {s _} hs _ := by
    rw [Pairing.following, Token.moved_id]
    exact hs.peek
  peekSecondKind {s _} hs hclear :=
    hs.peekSecondKind (Nat.le_trans
      (Nat.le_max_right s.seen (s.taken + 2)) hclear.2)
  bump {s _} hs hclear := by
    rw [Pairing.following, Token.moved_id]
    exact hs.bump hclear.1
  taken_eq hs := hs.consumed_eq
  errorCount_eq hs _ := congrArg Findings.errorCount hs.findings_eq
  previousEnd_eq hs := hs.previousEnd_eq
  length_eq h := h.elim
  length_le hs := hs.length_le
  total_eq {s _} _ hs := by
    have htaken := hs.taken_lt
    rw [hs.rest_eq, List.length_drop]
    exact Nat.add_sub_of_le (Nat.le_of_lt htaken)

/-! ## Steps through a text -/

namespace Parser

/-- Both parsers at the beginning of a text. -/
theorem follows_ofText (limit : Nat) (source : String) :
    Follows (Entry.ofText limit source) (ParseState.ofText limit source)
      (ofText limit source) where
  entries_eq := rfl
  rest_eq := rfl
  taken_lt := (ParseState.Yields.refl (ParseState.ofText limit source)).taken_lt
  taken_le := Nat.le_refl _
  seen_le := Nat.zero_le _
  consumed_eq := rfl
  previousEnd_eq := rfl
  buffer_eq := rfl
  ahead_eq _ := congrArg (Entry.gather []) (Lexer.tokens_ofText limit source)
  lexical := ⟨rfl, rfl⟩
  syntactic_eq := rfl

/-- Between two statements a parse has not looked behind the end of the text. -/
theorem following_clear {limit : Nat} {source : String} {os : List ParseOutcome}
    {t : ParseState} (h : (ParseState.ofText limit source).Yields os t) :
    (Pairing.following (Entry.ofText limit source)).clear (t.look 1) := by
  have hbetween : t.Between := h.between (ParseState.ofEntries_between _)
  have hlooked := hbetween.seen_le
  refine ⟨h.taken_lt, Nat.le_trans
    (Nat.max_le.mpr ⟨hlooked, Nat.le_refl _⟩) h.taken_lt⟩

/-- A parser that reads the tokens of a text when it needs them has the same
outcomes as one that has all of them at hand, and comes as far. -/
theorem outcomes_follow (limit : Nat) (source : String) :
    let start := ParseState.ofText limit source
    let parsed := TokenSource.outcomes (ofText limit source)
    Follows (Entry.ofText limit source) start.outcomes.2 parsed.2 ∧
      parsed.1 = start.outcomes.1 := by
  intro start parsed
  obtain ⟨t, hyields, hatEnd, hstate⟩ := start.outcomes_yields
  have hfollows := follows_ofText limit source
  have hfuel : start.outcomes.1.length < TokenSource.remaining
      (ofText limit source) + 1 :=
    Nat.lt_succ_of_le (Nat.le_trans hyields.length_le hfollows.length_le)
  obtain ⟨hafter, houtcomes⟩ := hyields.outcomesUpTo_pairs
    (P := Pairing.following (Entry.ofText limit source)) hatEnd hfollows
      (following_clear hyields) hfuel
  rw [hstate]
  exact ⟨hafter, houtcomes.trans (ParseOutcome.map_moved_id _)⟩

/-- At the end of a text a parser has taken all tokens of it but the end, which
waits in the buffer. -/
theorem outcomes_buffer (limit : Nat) (source : String) :
    let parsed := TokenSource.outcomes (ofText limit source)
    parsed.2.tokens.consumed = (Token.ofText limit source).length ∧
      parsed.2.tokens.buffer =
          [⟨.endOfText, Span.point (Position.extent source)⟩] := by
  intro parsed
  obtain ⟨hfollows, _⟩ := outcomes_follow limit source
  obtain ⟨t, hyields, hatEnd, hstate⟩ :=
    (ParseState.ofText limit source).outcomes_yields
  have hlast : (Entry.ofText limit source).length = t.taken + 1 := by
    have hlt := hyields.taken_lt
    have hrest := (hyields.consumed_eq hatEnd).2
    rw [hstate] at hfollows
    have hleft : t.rest = (Entry.ofText limit source).drop t.taken :=
      hfollows.rest_eq
    rw [hleft, List.length_drop] at hrest
    omega
  have hmap := Entry.map_token_ofText limit source
  have hlength := congrArg List.length hmap
  rw [List.length_map, List.length_append, hlast] at hlength
  have htaken : t.taken = (Token.ofText limit source).length := Nat.succ.inj hlength
  have hseen : (Entry.ofText limit source).length ≤ max t.seen (t.taken + 1) :=
    hlast ▸ Nat.le_max_right _ _
  rw [hstate] at hfollows
  refine ⟨hfollows.consumed_eq.trans htaken, hfollows.buffer_eq.trans ?_⟩
  show (((Entry.ofText limit source).take (max t.seen (t.taken + 1))).drop
    t.taken).map Entry.token = _
  rw [List.take_of_length_le hseen, List.map_drop, hmap, htaken, List.drop_left]

end Parser

end ScriptLang
