import ScriptLang.Proofs.Token.Limits
import ScriptLang.Proofs.Token.Lines

/-!
# Words and reserved words

A token that begins with a letter is a word: it takes all letters, digits and
underscores from there on.  Whether it is a reserved word is decided by what the
limit keeps of it, so a word that is longer than the limit can be taken for another
one.  `Lexed.word_kind` says for every text which words these are: those whose
beginning is a reserved word, and reserved words that do not fit.
-/

namespace ScriptLang

namespace Keyword

/-- No two reserved words are spelled alike. -/
theorem ofText?_eq_some_iff {text : String} {word : Keyword} :
    ofText? text = some word ↔ word.text = text := by
  constructor
  · intro h
    unfold ofText? at h
    have hspelled := List.find?_some h
    exact eq_of_beq hspelled
  · rintro rfl
    cases word <;> decide +kernel

/-- A text is no keyword if no keyword is spelled like it. -/
theorem ofText?_eq_none_iff {text : String} :
    ofText? text = none ↔ ∀ word : Keyword, word.text ≠ text := by
  rw [Option.eq_none_iff_forall_ne_some]
  exact forall_congr' fun word => not_congr ofText?_eq_some_iff

end Keyword

/-! ## The raw characters of a word -/

/-- No symbol begins with a letter. -/
theorem not_isLive_of_isAlphabetic {first : Char}
    (h : Character.isAlphabetic first = true) :
    Symbol.isLive [first] = false := by
  have hheads : (Symbol.spellings.all fun s => s.head?.all fun x =>
      !Character.isAlphabetic x) = true := by
    decide +kernel
  rw [Symbol.isLive, List.any_eq_false]
  intro s hs hprefix
  cases s with
  | nil => simp at hprefix
  | cons x s =>
      obtain rfl : first = x := by simpa using hprefix
      have hfirst := List.all_eq_true.mp hheads _ hs
      simp [h] at hfirst

/-- No word goes on over a line break. -/
theorem not_isWordPart_of_isLineBreak {c : Char} (h : Glyph.isLineBreak c = true) :
    Character.isWordPart c = false := by
  simp only [Glyph.isLineBreak, Bool.or_eq_true, beq_iff_eq] at h
  rcases h with (rfl | rfl) | rfl <;> decide +kernel

namespace Cursor

/-- A run of characters among which there is no line break takes the same characters
from the raw text. -/
theorem run_ofChars {p : Char → Bool}
    (hp : ∀ c, Glyph.isLineBreak c = true → p c = false) (here : Position)
    (chars : List Char) :
    (run p ⟨here, Glyph.ofChars chars⟩).1.map Placed.char = chars.takeWhile p ∧
      (run p ⟨here, Glyph.ofChars chars⟩).2.position.offset =
        here.offset + (chars.takeWhile p).length := by
  have hlf : p '\n' = false := hp '\n' rfl
  have hcr : p '\r' = false := hp '\r' rfl
  unfold run
  fun_induction Glyph.ofChars chars generalizing here with
  | case1 => simp [run.go]
  | case2 rest => simp [run.go, hlf, hcr]
  | case3 rest => simp [run.go, hlf]
  | case4 c rest _ _ ih =>
      by_cases hbreak : Glyph.isLineBreak c = true
      · simp [run.go, hbreak, hlf, hp c hbreak]
      · obtain ⟨hchars, hoffset⟩ := ih (here.after ⟨c, 1⟩)
        cases hc : p c with
        | false => simp [run.go, hbreak, hc]
        | true =>
            rw [offset_after] at hoffset
            simp only [run.go, if_neg hbreak, hc, if_true, List.map_cons,
              List.takeWhile_cons_of_pos, List.length_cons]
            refine ⟨congrArg _ hchars, ?_⟩
            dsimp only at hoffset
            omega

/-- A raw character that is no line break is the logical one under the cursor. -/
theorem In.current_of_raw {chars : List Char} {c : Cursor} (h : c.In chars)
    {first : Char} (hfirst : chars[c.position.offset]? = some first)
    (hbreak : Glyph.isLineBreak first = false) :
    c.current? = some first := by
  have hlf : first ≠ '\n' := by rintro rfl; cases hbreak
  have hcr : first ≠ '\r' := by rintro rfl; cases hbreak
  have hhead : (chars.drop c.position.offset).head? = some first := by
    rw [List.head?_drop, hfirst]
  obtain ⟨more, hmore⟩ := List.head?_eq_some_iff.mp hhead
  rw [current?, h.rest_eq, hmore, Glyph.ofChars.eq_4]
  · simp [hbreak]
  · exact fun _ hc _ => hcr hc
  · exact fun _ hc _ => hlf hc

end Cursor

/-- What a word says of which the limit keeps a given text. -/
def Lexeme.ofWord (text : String) : Lexeme :=
  match Keyword.ofText? text with
  | some word => .keyword word
  | none => .identifier text

namespace Lexeme

/-- A word is the keyword that is spelled like it. -/
theorem kind_ofWord_eq_keyword_iff {text : String} {word : Keyword} :
    (ofWord text).kind = .keyword word ↔ word.text = text := by
  rw [← Keyword.ofText?_eq_some_iff, ofWord]
  cases Keyword.ofText? text <;> simp [kind]

/-- A word is an identifier if no keyword is spelled like it. -/
theorem kind_ofWord_eq_identifier_iff {text : String} :
    (ofWord text).kind = .identifier ↔ ∀ word : Keyword, word.text ≠ text := by
  rw [← Keyword.ofText?_eq_none_iff, ofWord]
  cases Keyword.ofText? text <;> simp [kind]

end Lexeme

namespace Cursor

variable {chars : List Char} {c : Cursor}

/-- A word takes the raw characters from the cursor on that words are made of, and
is what the limit keeps of them. -/
theorem In.readWord_eq (h : c.In chars) (limit : Nat) :
    let word := (chars.drop c.position.offset).takeWhile Character.isWordPart
    (readWord limit c).lexeme =
      Lexeme.ofWord (beginning limit (String.ofList word)) ∧
      Span.cut ⟨c.position, (readWord limit c).behind.position⟩ chars = word := by
  intro word
  obtain ⟨hchars, hoffset⟩ :=
    run_ofChars (fun _ => not_isWordPart_of_isLineBreak) c.position
    (chars.drop c.position.offset)
  have hcursor : (⟨c.position, Glyph.ofChars (chars.drop c.position.offset)⟩ :
    Cursor) = c := by rw [← h.rest_eq]
  rw [hcursor] at hchars hoffset
  constructor
  · have hkept : content limit (c.run Character.isWordPart).1 =
        beginning limit (String.ofList word) := by
      rw [content, beginning, String.toList_ofList, List.map_take, hchars]
    show Lexeme.ofWord (content limit (c.run Character.isWordPart).1) = _
    rw [hkept]
  · have hwidth : Span.width ⟨c.position, (readWord limit c).behind.position⟩ =
        word.length :=
      Nat.sub_eq_of_eq_add' hoffset
    rw [Span.cut, hwidth]
    exact (List.prefix_iff_eq_take.mp (List.takeWhile_prefix _)).symm

end Cursor

/-! ## The kind of a word -/

/-- A text for which there is room is kept as a whole. -/
theorem beginning_of_length_le {limit : Nat} {text : String}
    (h : text.length ≤ limit) :
    beginning limit text = text := by
  rw [beginning, List.take_of_length_le (by rwa [String.length_toList]),
    String.ofList_toList]

/-- A text that is too long is cut. -/
theorem beginning_ne_of_length_lt {limit : Nat} {text : String}
    (h : limit < text.length) :
    beginning limit text ≠ text := by
  intro heq
  have hlength := congrArg String.length heq
  rw [beginning, String.length_ofList, List.length_take, String.length_toList]
    at hlength
  omega

namespace Lexed

/-- A word is told by its beginning as it is by the whole of it, if all of it is
kept or no reserved word comes up either way. -/
theorem whole_iff (limit : Nat) (word : String) :
    ((∀ k : Keyword, (Lexeme.ofWord (beginning limit word)).kind = .keyword k ↔
      k.text = word) ∧
        ((Lexeme.ofWord (beginning limit word)).kind = .identifier ↔ ∀ k : Keyword,
          k.text ≠ word)) ↔
      word.length ≤ limit ∨ ∀ k : Keyword, k.text ≠ beginning limit word ∧
        k.text ≠ word := by
  simp only [Lexeme.kind_ofWord_eq_keyword_iff,
    Lexeme.kind_ofWord_eq_identifier_iff]
  by_cases hlength : word.length ≤ limit
  · simp [beginning_of_length_le hlength, hlength]
  · have hne := beginning_ne_of_length_lt (Nat.not_le.mp hlength)
    constructor
    · rintro ⟨hkeyword, -⟩
      refine .inr fun k => ⟨fun hkept => ?_, fun hwhole => ?_⟩
      · exact hne (hkept.symm.trans ((hkeyword k).mp hkept))
      · exact hne (((hkeyword k).mpr hwhole).symm.trans hwhole)
    · rintro (hfits | hnone)
      · exact absurd hfits hlength
      · exact ⟨fun k => iff_of_false (hnone k).1 (hnone k).2,
          iff_of_true (fun k => (hnone k).1) (fun k => (hnone k).2)⟩

/-- A token starts behind the blanks. -/
theorem next_start (limit : Nat) (c : Cursor) :
    (next limit c).1.token.span.start = (c.skip Character.isBlank).position := by
  unfold next
  dsimp only
  split <;> rfl

/-- A letter behind the blanks begins a word. -/
theorem next_word (limit : Nat) {chars : List Char} {c : Cursor} (hin : c.In chars)
    {first : Char}
    (hfirst : chars[(next limit c).1.token.span.start.offset]? = some first)
    (halphabetic : Character.isAlphabetic first = true) :
    let token := (next limit c).1.token
    let word := (chars.drop token.span.start.offset).takeWhile Character.isWordPart
    token.lexeme = Lexeme.ofWord (beginning limit (String.ofList word)) ∧
      token.span.cut chars = word := by
  have hskip := hin.moves (Cursor.moves_skip Character.isBlank c)
  have hbreak : Glyph.isLineBreak first = false := by
    cases hc : Glyph.isLineBreak first with
    | false => rfl
    | true =>
        simpa [isWordPart_of_isAlphabetic
          halphabetic] using not_isWordPart_of_isLineBreak hc
  rw [next_start] at hfirst
  have hcurrent := hskip.current_of_raw hfirst hbreak
  have hreader : readFrom limit first (c.skip Character.isBlank) =
      readWord limit (c.skip Character.isBlank) := by
    rw [readFrom, not_isLive_of_isAlphabetic halphabetic, if_neg Bool.false_ne_true,
      if_pos halphabetic]
  have hnext := next_of_current limit hcurrent (Cursor.not_blank_of_skip hcurrent)
  rw [next_skip, hreader] at hnext
  rw [hnext]
  exact hskip.readWord_eq limit

/-- A token that begins with a letter is the whole word from there on.  It is the
reserved word that the limit keeps of it, and a name if that is none.  So the kind
is that of the whole word exactly if all of it is kept, or neither the word nor its
beginning is reserved. -/
theorem word_kind (limit : Nat) (source : String) {l : Lexed}
    (hl : l ∈ ofText limit source) {first : Char}
    (hfirst : source.toList[l.token.span.start.offset]? = some first)
    (halphabetic : Character.isAlphabetic first = true) :
    let word := String.ofList (l.token.span.cut source.toList)
    word.toList = (source.toList.drop l.token.span.start.offset).takeWhile
      Character.isWordPart ∧
      (∀ k : Keyword, l.token.kind = .keyword k ↔ k.text = beginning limit word) ∧
      (l.token.kind = .identifier ↔ ∀ k : Keyword, k.text ≠ beginning limit word) ∧
      (((∀ k : Keyword, l.token.kind = .keyword k ↔ k.text = word) ∧
          (l.token.kind = .identifier ↔ ∀ k : Keyword, k.text ≠ word)) ↔
        word.length ≤ limit ∨ ∀ k : Keyword, k.text ≠ beginning limit word ∧
            k.text ≠ word) := by
  intro word
  obtain ⟨c, hmoves, rfl⟩ := exists_next_of_mem_all hl
  obtain ⟨hlexeme, hcut⟩ :=
    next_word limit ((Cursor.in_ofText source).moves hmoves) hfirst halphabetic
  have hkind : (next limit c).1.token.kind =
      (Lexeme.ofWord (beginning limit word)).kind := by
    rw [Token.kind, hlexeme, ← hcut]
  rw [hkind]
  refine ⟨?_, fun k => Lexeme.kind_ofWord_eq_keyword_iff,
    Lexeme.kind_ofWord_eq_identifier_iff, whole_iff limit word⟩
  rw [String.toList_ofList, hcut]

/-- Under a limit of two characters, a word of four is taken for a reserved word, a
reserved word is taken for a name, and a reserved word of two characters is what it
is. -/
theorem shortenedWord_kind :
    let source := "iffy else is"
    (ofText 2 source).map (·.token.kind) =
      [.keyword .if_, .identifier, .keyword .is, .endOfText] ∧
      ∃ l ∈ ofText 2 source, l.token.span.start.offset = 0 ∧
        l.token.span.cut source.toList = "iffy".toList ∧
        l.token.kind = .keyword .if_ ∧
        ¬ ((∀ k : Keyword, l.token.kind = .keyword k ↔ k.text = "iffy") ∧
          (l.token.kind = .identifier ↔ ∀ k : Keyword, k.text ≠ "iffy")) := by
  intro source
  refine ⟨by decide +kernel, ?_⟩
  obtain ⟨l, hl, hoffset, hcut⟩ : ∃ l ∈ ofText 2 source,
    l.token.span.start.offset = 0 ∧
      l.token.span.cut source.toList = "iffy".toList := by decide +kernel
  have hfirst : source.toList[l.token.span.start.offset]? = some 'i' := by
    rw [hoffset]; decide +kernel
  obtain ⟨-, hkeyword, -, hwhole⟩ := word_kind 2 source hl hfirst (by decide)
  have hword : String.ofList (l.token.span.cut source.toList) = "iffy" := by
    rw [hcut, String.ofList_toList]
  rw [hword] at hkeyword hwhole
  refine ⟨l, hl, hoffset, hcut,
    (hkeyword .if_).mpr (by decide +kernel), fun h => ?_⟩
  rcases hwhole.mp h with hfits | hnone
  · exact absurd hfits (by decide +kernel)
  · exact (hnone .if_).1 (by decide +kernel)

end Lexed

end ScriptLang
