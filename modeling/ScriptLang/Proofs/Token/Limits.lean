import Mathlib.Data.List.Forall2
import ScriptLang.Proofs.Token.Coverage
import ScriptLang.Proofs.Token.Reading

/-!
# What a limit changes

A limit on the length of lexemes bounds what a token keeps, and never how far a
reader goes.  So the same text has the same tokens in the same places under every
limit, with the same warnings.  `Lexed.Trims` says how a token under a smaller limit
compares with the same token under a larger one: it has kept the beginning of what
the other one keeps, and all of it unless there is an error.

A reader that counts its characters against the limit keeps the first of them
(`Draft.Keeps`), so two readers of one lexeme keep beginnings of the same text
(`trims_kept`).  The digits of a number count against the limit before and after the
point together, and are dropped one by one; but as soon as one is dropped, there is
an error (`DigitRun.read_eq`).
-/

namespace ScriptLang

/-- The text of a name, a string or a comment. -/
def Lexeme.content? : Lexeme → Option String
  | .identifier text | .string text | .lineComment text | .blockComment text =>
      some text
  | _ => none

/-- The first characters of a text. -/
def beginning (count : Nat) (text : String) : String :=
  String.ofList (text.toList.take count)

variable {limit limit' : Nat}

/-! ## What is kept of a lexeme -/

/-- What the smaller limit keeps is the beginning of what the larger one keeps. -/
theorem content_eq_beginning (hle : limit ≤ limit') (items : List Placed) :
    content limit items = beginning limit (content limit' items) := by
  simp only [content, beginning, String.toList_ofList, List.map_take,
    List.take_take, Nat.min_eq_left hle]

/-- A lexeme for which there is room is kept as a whole. -/
theorem content_of_length_le {items : List Placed} (h : items.length ≤ limit) :
    content limit items = String.ofList (items.map Placed.char) := by
  rw [content, List.take_of_length_le h]

/-- A lexeme is too long if it is longer than the limit. -/
theorem overrun_eq_nil_iff {items : List Placed} :
    overrun limit items = [] ↔ items.length ≤ limit := by
  unfold overrun
  cases hitem : items[limit]? with
  | none => simpa using hitem
  | some item =>
      have hlt := (List.getElem?_eq_some_iff.mp hitem).1
      simp only [List.cons_ne_nil, false_iff]
      omega

/-- A lexeme that fits a limit is kept whole, under that limit and every larger
one. -/
theorem kept_of_overrun (hle : limit ≤ limit') {items : List Placed}
    (h : overrun limit items = []) :
    overrun limit' items = [] ∧ content limit' items = content limit items := by
  have hlength := overrun_eq_nil_iff.mp h
  have hlength' : items.length ≤ limit' := Nat.le_trans hlength hle
  exact ⟨overrun_eq_nil_iff.mpr
    hlength', by rw [content_of_length_le hlength, content_of_length_le hlength']⟩

namespace DigitRun

/-- A run of digits without an error is within the limit. -/
theorem length_le_of_errors {radix used : Nat} {run : List Placed}
    (hused : used ≤ limit) (h : (read radix limit used run).errors = []) :
    used + run.length ≤ limit := by
  obtain ⟨_, htooLong⟩ := List.append_eq_nil_iff.mp h
  cases hitem : run[limit - used]? with
  | some item =>
      rw [hitem] at htooLong
      dsimp only at htooLong
      rw [if_pos hused] at htooLong
      cases htooLong
  | none =>
      have hlength := List.getElem?_eq_none_iff.mp hitem
      omega

/-- A run of digits without an error is read in the same way under every larger
limit. -/
theorem read_eq (hle : limit ≤ limit') {radix used : Nat} {run : List Placed}
    (hused : used ≤ limit) (h : (read radix limit used run).errors = []) :
    read radix limit' used run = read radix limit used run := by
  have hlength := length_le_of_errors hused h
  have hroom : run.length ≤ limit - used := by omega
  have hroom' : run.length ≤ limit' - used := by omega
  unfold read
  simp only [List.take_of_length_le hroom, List.take_of_length_le hroom',
    List.getElem?_eq_none hroom, List.getElem?_eq_none hroom']

end DigitRun

/-! ## Readers -/

/-- Two readings of the same text, the first one under the smaller limit, which is
the given one. -/
structure Reading.Trims (limit : Nat) (r r' : Reading) : Prop where
  behind_eq : r'.behind = r.behind
  warnings_eq : r'.warnings = r.warnings
  same : r.errors = [] → r'.errors = [] ∧ r'.lexeme = r.lexeme
  content : r.lexeme.kind = r'.lexeme.kind →
    r.lexeme.content? = r'.lexeme.content?.map (beginning limit)

/-- A reading that no limit has to do with. -/
theorem trims_self {r : Reading} (limit : Nat) (h : r.lexeme.content? = none) :
    r.Trims limit r where
  behind_eq := rfl
  warnings_eq := rfl
  same herrors := ⟨herrors, rfl⟩
  content _ := by rw [h]; rfl

/-- A stretch of characters that is kept under two limits. -/
theorem trims_kept (hle : limit ≤ limit') (make : String → Lexeme)
    (hmake : ∀ text, (make text).content? = some text) (items : List Placed)
    (errors : List (Located LexicalError))
    (warnings : List (Located LexicalWarning)) (behind : Cursor) :
    Reading.Trims limit ⟨make (content limit items), overrun limit items ++ errors,
      warnings, behind⟩
      ⟨make (content limit' items), overrun limit' items ++ errors,
        warnings, behind⟩ where
  behind_eq := rfl
  warnings_eq := rfl
  same herrors := by
    obtain ⟨hoverrun, rfl⟩ := List.append_eq_nil_iff.mp herrors
    obtain ⟨hoverrun', hcontent⟩ := kept_of_overrun hle hoverrun
    exact ⟨by rw [hoverrun', List.append_nil], congrArg make hcontent⟩
  content _ := by
    dsimp only
    rw [hmake, hmake, Option.map_some, content_eq_beginning hle]

/-- A number with a mark, under two limits. -/
theorem readRadixNumber_trims (hle : limit ≤ limit') (c : Cursor) :
    (readRadixNumber limit c).Trims limit (readRadixNumber limit' c) where
  behind_eq := rfl
  warnings_eq := rfl
  same herrors := by
    unfold readRadixNumber at herrors ⊢
    dsimp only at herrors ⊢
    obtain ⟨hbefore, _⟩ := List.append_eq_nil_iff.mp herrors
    obtain ⟨_, hdigits⟩ := List.append_eq_nil_iff.mp hbefore
    rw [DigitRun.read_eq hle (Nat.zero_le limit) hdigits]
    exact ⟨herrors, rfl⟩
  content _ := rfl

/-- A decimal number, under two limits. -/
theorem readDecimalNumber_trims (hle : limit ≤ limit') (c : Cursor) :
    (readDecimalNumber limit c).Trims limit (readDecimalNumber limit' c) := by
  -- Without an error before the exponent, both parts of the number are read in the
  -- same way.
  have hread : ∀ run places : List Placed,
      (DigitRun.read 10 limit 0 run).errors ++
        (DigitRun.read 10 limit run.length places).errors = [] →
      DigitRun.read 10 limit' 0 run = DigitRun.read 10 limit 0 run ∧
        DigitRun.read 10 limit' run.length places =
            DigitRun.read 10 limit run.length places := by
    intro run places herrors
    obtain ⟨hintegral, hfraction⟩ := List.append_eq_nil_iff.mp herrors
    have hused := DigitRun.length_le_of_errors (Nat.zero_le limit) hintegral
    exact ⟨DigitRun.read_eq hle (Nat.zero_le limit) hintegral,
      DigitRun.read_eq hle (by omega) hfraction⟩
  unfold readDecimalNumber
  dsimp only
  cases exponentPart? (fractionRun (c.run (Character.isDigitOf 10)).2).2 with
  | some part =>
      refine ⟨rfl, rfl, fun herrors => ?_, fun _ => rfl⟩
      obtain ⟨hdigits, _⟩ := List.append_eq_nil_iff.mp herrors
      obtain ⟨hintegral, hfraction⟩ := hread _ _ hdigits
      rw [hintegral, hfraction]
      exact ⟨herrors, rfl⟩
  | none =>
      refine ⟨rfl, rfl, fun herrors => ?_, fun _ => by dsimp only; split <;> rfl⟩
      obtain ⟨hintegral, hfraction⟩ := hread _ _ herrors
      rw [hintegral, hfraction]
      exact ⟨herrors, rfl⟩

/-- A number, under two limits. -/
theorem readNumber_trims (hle : limit ≤ limit') (c : Cursor) :
    (readNumber limit c).Trims limit (readNumber limit' c) := by
  unfold readNumber
  split
  · exact readRadixNumber_trims hle c
  · exact readDecimalNumber_trims hle c

/-- A word that is cut off may become a reserved word, or be one no longer; its kind
tells. -/
theorem readWord_trims (hle : limit ≤ limit') (c : Cursor) :
    (readWord limit c).Trims limit (readWord limit' c) := by
  unfold readWord
  dsimp only
  generalize (c.run Character.isWordPart).1 = run
  refine ⟨rfl, rfl, fun herrors => ?_, fun hkind => ?_⟩
  · obtain ⟨hoverrun', hcontent⟩ := kept_of_overrun hle herrors
    rw [hcontent]
    exact ⟨hoverrun', rfl⟩
  · cases hword : Keyword.ofText? (content limit run) with
    | some word =>
        cases hword' : Keyword.ofText? (content limit' run) with
        | some word' => rfl
        | none => simp [hword, hword', Lexeme.kind] at hkind
    | none =>
        cases hword' : Keyword.ofText? (content limit' run) with
        | some word' => simp [hword, hword', Lexeme.kind] at hkind
        | none => exact congrArg some (content_eq_beginning hle run)

/-- A line comment, under two limits. -/
theorem readLineComment_trims (hle : limit ≤ limit') (c : Cursor) :
    (readLineComment limit c).Trims limit (readLineComment limit' c) := by
  have hkept :=
    trims_kept hle .lineComment (fun _ => rfl) (c.run (· != '\n')).1 [] []
      (c.run (· != '\n')).2
  rw [List.append_nil, List.append_nil] at hkept
  exact hkept

/-- A symbol or a comment, under two limits. -/
theorem readSymbol_trims (hle : limit ≤ limit') (c : Cursor) :
    (readSymbol limit c).Trims limit (readSymbol limit' c) := by
  unfold readSymbol
  dsimp only
  split
  · exact readLineComment_trims hle _
  · split
    · exact trims_kept hle .blockComment (fun _ => rfl) _ _ _ _
    · split
      · exact trims_self limit rfl
      · exact trims_self limit rfl

/-- Whatever begins at a cursor, under two limits. -/
theorem readFrom_trims (hle : limit ≤ limit') (first : Char) (c : Cursor) :
    (readFrom limit first c).Trims limit (readFrom limit' first c) := by
  unfold readFrom
  split
  · exact readSymbol_trims hle c
  · split
    · exact readWord_trims hle c
    · split
      · exact readNumber_trims hle c
      · split
        · exact trims_kept hle .string (fun _ => rfl) _ _ _ _
        · exact trims_self limit rfl

/-! ## Tokens -/

namespace Lexed

/-- The same token under two limits, the first one under the smaller limit, which is
the given one.  The two stand in the same place with the same warnings.  If nothing
is wrong with the first one, they are the same; and what the first one keeps of a
name, a string or a comment is the beginning of what the second one keeps. -/
structure Trims (limit : Nat) (l l' : Lexed) : Prop where
  span_eq : l'.token.span = l.token.span
  warnings_eq : l'.notes.warnings = l.notes.warnings
  same : l.notes.error = none → l' = l
  content : l.token.kind = l'.token.kind →
    l.token.lexeme.content? = l'.token.lexeme.content?.map (beginning limit)

/-- The next token under two limits, which leave the cursor at the same place. -/
theorem next_trims (hle : limit ≤ limit') (c : Cursor) :
    (next limit c).1.Trims limit (next limit' c).1 ∧
      (next limit' c).2 = (next limit c).2 := by
  unfold next
  dsimp only
  split
  · exact ⟨⟨rfl, rfl, fun _ => rfl, fun _ => rfl⟩, rfl⟩
  · rename_i first _
    obtain ⟨hbehind, hwarnings, hsame, hcontent⟩ :=
      readFrom_trims hle first (c.skip Character.isBlank)
    refine ⟨⟨by rw [hbehind], hwarnings, fun herror => ?_, hcontent⟩, hbehind⟩
    obtain ⟨herrors', hlexeme⟩ := hsame (List.head?_eq_none_iff.mp herror)
    dsimp only at herror
    rw [hbehind, hwarnings, hlexeme, herrors', herror]
    rfl

/-- Both readers come to the end of the text at the same time. -/
theorem next_endOfText_iff (limit limit' : Nat) (c : Cursor) :
    (next limit c).1.token.lexeme = .endOfText ↔ (next limit' c).1.token.lexeme =
      .endOfText := by
  unfold next
  dsimp only
  split
  · exact Iff.rfl
  · exact ⟨fun h => absurd h (readFrom_ne_endOfText limit _ _),
      fun h => absurd h (readFrom_ne_endOfText limit' _ _)⟩

/-- The tokens under two limits correspond to each other one by one. -/
theorem all_trims (hle : limit ≤ limit') (c : Cursor) :
    List.Forall₂ (Trims limit) (all limit c) (all limit' c) := by
  fun_induction all limit c with
  | case1 c step hend =>
      rw [all_of_endOfText ((next_endOfText_iff limit limit' c).mp hend)]
      exact .cons (next_trims hle c).1 .nil
  | case2 c step hend ih =>
      obtain ⟨htrims, hbehind⟩ := next_trims hle c
      rw [all_of_ne (fun h => hend ((next_endOfText_iff limit limit' c).mpr h)),
        hbehind]
      exact .cons htrims ih

end Lexed

namespace Lexer

/-- The readers under two limits, the first one the smaller, go through a text token
by token.  They come to its end together, and every token of the one is that of the
other, apart from what the smaller limit cuts off: the two stand in the same place
with the same warnings; if nothing is wrong with the first one, they are the same;
and what it keeps of a name, a string or a comment are the first characters of what
the second one keeps. -/
theorem limit_trims_content (source : String) {limit limit' : Nat}
    (hle : limit ≤ limit') :
    (ofText limit source).tokens.length = (ofText limit' source).tokens.length ∧
      List.Forall₂ (Lexed.Trims limit) (ofText limit source).tokens
        (ofText limit' source).tokens := by
  have htrims := Lexed.all_trims hle (Cursor.ofText source)
  rw [tokens_ofText, tokens_ofText]
  exact ⟨htrims.length_eq, htrims⟩

/-- A number, a word that is cut off to a reserved word, and a string with an escape
sequence that nobody knows.  Under the smaller limit the number is the same, the
word has another kind, and the string has lost a character. -/
theorem iffyText_trimmed :
    let source := "12 iffy \"a\\qb\""
    let trimmed := (ofText 2 source).tokens
    let whole := (ofText 4 source).tokens
    trimmed.map (·.token.kind) = [.integer, .keyword .if_, .string, .endOfText] ∧
      whole.map (·.token.kind) = [.integer, .identifier, .string, .endOfText] ∧
      trimmed.map (·.notes.error.isSome) = [false, true, true, false] ∧
      (trimmed[2]?.bind (·.token.lexeme.content?)) = some "aq" ∧
      trimmed.length = whole.length ∧
      List.Forall₂ (Lexed.Trims 2) trimmed whole := by
  intro source trimmed whole
  exact ⟨by decide +kernel, by decide +kernel, by decide +kernel, by decide +kernel,
    limit_trims_content source (by decide)⟩

end Lexer

end ScriptLang
