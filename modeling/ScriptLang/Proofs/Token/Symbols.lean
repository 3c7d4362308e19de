import Mathlib.Data.List.Infix
import Mathlib.Logic.Function.Iterate
import ScriptLang.Proofs.Token.Lines
import ScriptLang.Proofs.Token.Reading

/-!
# The longest symbol

The reader of symbols reads on as long as some spelling begins with what it has read
(`liveRun_longest`), and it never goes back.  So it might read on for the sake of a
longer symbol, miss that, and have lost a shorter one.  The table of spellings keeps
it from that: a text that some spelling begins with is itself spelled in the table,
or nothing in the table begins it (`Symbol.spelled_or_bare`).  Hence
`Lexed.next_longestSymbol`: the next token is a comment, the longest symbol that the
text begins with, or an unknown character that begins no symbol with what follows
it.
-/

namespace ScriptLang

namespace Cursor

/-- The logical characters that are left. -/
def ahead (c : Cursor) : List Char := c.rest.map Glyph.char

variable {c : Cursor} {first : Char}

/-- The character at a cursor is the first one ahead. -/
theorem ahead_of_current (hfirst : c.current? = some first) :
    [first] <+: c.ahead := by
  obtain ⟨here, _ | ⟨g, rest⟩⟩ := c
  · cases hfirst
  · obtain rfl : g.char = first := Option.some.inj hfirst
    exact (List.prefix_cons_inj _).mpr List.nil_prefix

/-- The first character ahead is the one at the cursor. -/
theorem current_of_ahead {more : List Char} (h : first :: more <+: c.ahead) :
    c.current? = some first := by
  obtain ⟨here, _ | ⟨g, rest⟩⟩ := c
  · simp [ahead] at h
  · rw [ahead, List.map_cons, List.cons_prefix_cons] at h
    rw [h.1]
    rfl

end Cursor

namespace Symbol

variable {text : List Char}

/-- What a live text begins with is live. -/
theorem isLive_of_prefix {first : List Char} (hfirst : first <+: text)
    (h : isLive text = true) :
    isLive first = true := by
  obtain ⟨spelling, hmem, htext⟩ := isLive_iff.mp h
  exact isLive_iff.mpr ⟨spelling, hmem, hfirst.trans htext⟩

theorem chars_mem_spellings (sign : Symbol) : sign.chars ∈ spellings := by
  cases sign <;> decide

/-- No two symbols are spelled alike. -/
theorem ofChars?_eq_some_iff {sign : Symbol} :
    ofChars? text = some sign ↔ sign.chars = text := by
  constructor
  · intro h
    have hspelled := List.find?_some h
    exact eq_of_beq hspelled
  · rintro rfl
    cases sign <;> decide

/-- A text is no symbol if no symbol is spelled like it. -/
theorem ofChars?_eq_none_iff :
    ofChars? text = none ↔ ∀ sign : Symbol, sign.chars ≠ text := by
  rw [Option.eq_none_iff_forall_ne_some]
  exact forall_congr' fun sign => not_congr ofChars?_eq_some_iff

/-- The two openers of comments exclude each other. -/
theorem not_blockComment_of_lineComment (hline : lineComment <+: text) :
    ¬ blockComment <+: text := by
  intro hblock
  have heq :=
    (List.prefix_of_prefix_length_le hline
      hblock (by decide)).eq_of_length (by decide)
  exact absurd heq (by decide)

/-- What some spelling begins with is a spelling too, or at most one character, and
then no spelling begins it. -/
theorem spelled_or_bare (hlive : isLive text = true) :
    text ∈ spellings ∨ text.length ≤ 1 ∧ ∀ spelling ∈ spellings,
      ¬ spelling <+: text := by
  have htable : ∀ spelling ∈ spellings, ∀ first ∈ spelling.inits,
      first ∈ spellings ∨ first.length ≤ 1 ∧ ∀ other ∈ spellings,
        ¬ other <+: first := by decide
  obtain ⟨spelling, hmem, htext⟩ := isLive_iff.mp hlive
  exact htable spelling hmem text ((List.mem_inits text spelling).mpr htext)

/-- What some spelling begins with is read by the reader of symbols, and is not
skipped as a blank. -/
theorem begins_spelling {spelling : List Char} {first : Char}
    (hmem : spelling ∈ spellings) (hhead : spelling.head? = some first) :
    isLive [first] = true ∧ Character.isBlank first = false := by
  constructor
  · obtain ⟨rest, rfl⟩ := List.head?_eq_some_iff.mp hhead
    exact isLive_iff.mpr ⟨first :: rest, hmem, rest, rfl⟩
  · have htable :
      (spellings.all fun spelling => !spelling.head?.any Character.isBlank) =
      true := by decide
    simpa [hhead] using List.all_eq_true.mp htable spelling hmem

/-- A symbol that a text begins with, when it begins with no longer one. -/
structure LongestIn (text : List Char) (sign : Symbol) : Prop where
  begins : sign.chars <+: text
  longest : ∀ other : Symbol, other.chars <+: text →
    other.chars.length ≤ sign.chars.length

end Symbol

open Cursor

/-! ## What the reader of symbols takes -/

/-- The reader takes the longest beginning of the text with which, after what was
read before, some spelling begins. -/
theorem liveRun_longest (before : List Char) (c : Cursor)
    (hbefore : Symbol.isLive before = true) :
    ∃ taken, liveRun before c.position c.rest =
      (before ++ taken, advance^[taken.length] c) ∧ taken <+: c.ahead ∧
      Symbol.isLive (before ++ taken) = true ∧
      ∀ more, more <+: c.ahead → Symbol.isLive (before ++ more) = true →
        more <+: taken := by
  obtain ⟨here, rest⟩ := c
  unfold ahead
  dsimp only
  induction rest generalizing before here with
  | nil =>
      refine ⟨[], by simp [liveRun], List.nil_prefix, by simpa using hbefore,
        fun more hmore _ => ?_⟩
      rwa [List.map_nil] at hmore
  | cons g rest ih =>
      rw [List.map_cons]
      by_cases hlive : Symbol.isLive (before ++ [g.char]) = true
      · obtain ⟨taken, hrun, hahead, htaken, hlongest⟩ :=
          ih (before ++ [g.char]) hlive (here.after g)
        rw [liveRun, if_pos hlive, hrun]
        simp only [List.append_assoc, List.singleton_append] at htaken hlongest ⊢
        refine ⟨g.char :: taken, rfl, (List.prefix_cons_inj _).mpr hahead, htaken,
          fun more hmore hmoreLive => ?_⟩
        cases more with
        | nil => exact List.nil_prefix
        | cons x more =>
            obtain ⟨rfl, hbehind⟩ := List.cons_prefix_cons.mp hmore
            exact (List.prefix_cons_inj _).mpr (hlongest more hbehind hmoreLive)
      · rw [liveRun, if_neg hlive]
        refine ⟨[], by simp, List.nil_prefix, by simpa using hbefore,
          fun more hmore hmoreLive => ?_⟩
        cases more with
        | nil => exact List.nil_prefix
        | cons x more =>
            obtain ⟨rfl, -⟩ := List.cons_prefix_cons.mp hmore
            refine absurd (Symbol.isLive_of_prefix ?_ hmoreLive) hlive
            exact (List.prefix_append_right_inj _).mpr
              ((List.prefix_cons_inj _).mpr List.nil_prefix)

section Reading

variable {c : Cursor} {first : Char}

/-- What the reader of symbols finds, and how much of the text it takes: a comment,
the longest symbol, or a character that begins neither. -/
theorem readSymbol_longest (limit : Nat) (hfirst : c.current? = some first)
    (hlive : Symbol.isLive [first] = true) :
    (Symbol.lineComment <+: c.ahead ∧
      readSymbol limit c = readLineComment limit (advance^[2] c)) ∨
    (Symbol.blockComment <+: c.ahead ∧
      readSymbol limit c = readBlockComment limit (advance^[2] c)) ∨
    (¬ Symbol.lineComment <+: c.ahead ∧ ¬ Symbol.blockComment <+: c.ahead ∧
      ((∃ sign, Symbol.LongestIn c.ahead sign ∧
          readSymbol limit c =
            { lexeme := .symbol sign, behind := advance^[sign.chars.length] c }) ∨
        ((∀ sign : Symbol, ¬ sign.chars <+: c.ahead) ∧
          readSymbol limit c = readUnknown c.position first c))) := by
  obtain ⟨taken, hrun, hahead, htaken, hlongest⟩ := liveRun_longest [] c rfl
  simp only [List.nil_append] at hrun htaken hlongest
  -- Every spelling that the text begins with is part of what is taken.
  have hspelled : ∀ spelling ∈ Symbol.spellings, spelling <+: c.ahead →
      spelling <+: taken :=
    fun spelling hmem hbegins => hlongest spelling hbegins
      (Symbol.isLive_iff.mpr ⟨spelling, hmem, List.prefix_refl _⟩)
  have hopener : ∀ {opener}, opener = Symbol.lineComment ∨
    opener = Symbol.blockComment →
      (opener <+: c.ahead ↔ taken = opener) := by
    intro opener hopener
    constructor
    · intro hbegins
      have hmem : opener ∈ Symbol.spellings := by
        rcases hopener with rfl | rfl <;> decide
      exact Symbol.eq_of_opener_prefix hopener htaken (hspelled opener hmem hbegins)
    · rintro rfl
      exact hahead
  have hline := hopener (.inl rfl)
  have hblock := hopener (.inr rfl)
  unfold readSymbol
  rw [hrun]
  dsimp only
  by_cases htakenLine : taken = Symbol.lineComment
  · refine .inl ⟨hline.mpr htakenLine, ?_⟩
    rw [if_pos htakenLine, htakenLine]
    rfl
  by_cases htakenBlock : taken = Symbol.blockComment
  · refine .inr (.inl ⟨hblock.mpr htakenBlock, ?_⟩)
    rw [if_neg htakenLine, if_pos htakenBlock, htakenBlock]
    rfl
  refine .inr (.inr ⟨mt hline.mp htakenLine, mt hblock.mp htakenBlock, ?_⟩)
  rw [if_neg htakenLine, if_neg htakenBlock]
  cases hsign : Symbol.ofChars? taken with
  | some sign =>
      obtain rfl := Symbol.ofChars?_eq_some_iff.mp hsign
      exact .inl ⟨sign, ⟨hahead, fun other hother =>
        (hspelled other.chars other.chars_mem_spellings hother).length_le⟩, rfl⟩
  | none =>
      right
      have hunspelled : taken ∉ Symbol.spellings := by
        have hnone := Symbol.ofChars?_eq_none_iff.mp hsign
        rw [Symbol.spellings, List.mem_append, List.mem_map]
        rintro (⟨sign, -, hchars⟩ | hopener)
        · exact hnone sign hchars
        · simp [htakenLine, htakenBlock] at hopener
      obtain ⟨hlength, hbare⟩ :=
        (Symbol.spelled_or_bare htaken).resolve_left hunspelled
      have hsingle : [first] = taken :=
        (hlongest [first] (ahead_of_current hfirst) hlive).eq_of_length_le hlength
      refine ⟨fun sign hbegins => hbare sign.chars sign.chars_mem_spellings
        (hspelled sign.chars sign.chars_mem_spellings hbegins), ?_⟩
      rw [← hsingle, ← String.singleton_eq_ofList]
      rfl

/-- What the opener of a line comment begins is read as one. -/
theorem readFrom_lineComment (limit : Nat)
    (hopens : Symbol.lineComment <+: c.ahead) :
    readFrom limit '/' c = readLineComment limit (advance^[2] c) := by
  rw [readFrom, if_pos (by decide)]
  rcases readSymbol_longest limit (current_of_ahead hopens) (by decide) with
    ⟨_, hread⟩ | ⟨hblock, _⟩ | ⟨hline, _⟩
  · exact hread
  · exact absurd hblock (Symbol.not_blockComment_of_lineComment hopens)
  · exact absurd hopens hline

/-- What the opener of a block comment begins is read as one. -/
theorem readFrom_blockComment (limit : Nat)
    (hopens : Symbol.blockComment <+: c.ahead) :
    readFrom limit '/' c = readBlockComment limit (advance^[2] c) := by
  rw [readFrom, if_pos (by decide)]
  rcases readSymbol_longest limit (current_of_ahead hopens) (by decide) with
    ⟨hline, _⟩ | ⟨_, hread⟩ | ⟨_, hblock, _⟩
  · exact absurd hopens (Symbol.not_blockComment_of_lineComment hline)
  · exact hread
  · exact absurd hopens hblock

end Reading

namespace Lexed

/-- Where the text begins with the first character of a symbol or of the opener of a
comment, the next token is a comment if the text begins with such an opener.
Otherwise it is the longest symbol that the text begins with, and takes exactly
that.  It is unknown if and only if the text begins with no symbol, and then it
takes one character. -/
theorem next_longestSymbol (limit : Nat) {c : Cursor} {first : Char}
    (hfirst : c.current? = some first)
    (hbegins : ∃ spelling ∈ Symbol.spellings, spelling.head? = some first) :
    let l := (next limit c).1
    let behind := (next limit c).2
    (Symbol.lineComment <+: c.ahead → l.token.kind = .lineComment) ∧
    (Symbol.blockComment <+: c.ahead → l.token.kind = .blockComment) ∧
    (¬ Symbol.lineComment <+: c.ahead → ¬ Symbol.blockComment <+: c.ahead →
      (∃ sign : Symbol, sign.chars <+: c.ahead) →
      ∃ sign, Symbol.LongestIn c.ahead sign ∧
        behind = advance^[sign.chars.length] c ∧
        l = ⟨⟨.symbol sign, ⟨c.position, behind.position⟩⟩, ⟨none, []⟩⟩) ∧
    (l.token.kind = .unknown ↔ ∀ sign : Symbol, ¬ sign.chars <+: c.ahead) ∧
    (l.token.kind = .unknown → behind = c.advance ∧
      l = ⟨⟨.unknown first.toString, ⟨c.position, behind.position⟩⟩,
        ⟨some ⟨.unknownToken first.toString, c.position⟩, []⟩⟩) := by
  intro l behind
  obtain ⟨spelling, hmem, hhead⟩ := hbegins
  obtain ⟨hlive, hblank⟩ := Symbol.begins_spelling hmem hhead
  have hnext := next_of_current limit hfirst hblank
  have hread : readFrom limit first c = readSymbol limit c := by
    rw [readFrom, if_pos hlive]
  rw [hread] at hnext
  have hslash : ∀ {opener : List Char}, ['/'] <+: opener → opener <+: c.ahead →
      ∃ sign : Symbol, sign.chars <+: c.ahead :=
        fun hopener hahead => ⟨.slash, hopener.trans hahead⟩
  have hnamed : ∀ {unnamed : Prop}, l.token.kind ≠ .unknown →
    (∃ sign : Symbol, sign.chars <+: c.ahead) →
      (l.token.kind = .unknown ↔ ∀ sign : Symbol, ¬ sign.chars <+: c.ahead) ∧
        (l.token.kind = .unknown → unnamed) :=
    fun hknown hsome =>
      ⟨iff_of_false hknown (not_forall_not.mpr hsome),
        fun hunknown => absurd hunknown hknown⟩
  rcases readSymbol_longest limit hfirst hlive with
    ⟨hline, hsymbol⟩ | ⟨hblock, hsymbol⟩ | ⟨hline, hblock,
      ⟨sign, hlongest, hsymbol⟩ | ⟨hbare, hsymbol⟩⟩ <;>
    rw [hsymbol] at hnext
  · have hkind : l.token.kind = .lineComment := congrArg (·.1.token.kind) hnext
    have hknown : l.token.kind ≠ .unknown := by rw [hkind]; decide
    exact ⟨fun _ => hkind, fun hblock => absurd hblock
      (Symbol.not_blockComment_of_lineComment hline),
      fun hopen => absurd hline hopen, hnamed hknown (hslash (by decide) hline)⟩
  · have hkind : l.token.kind = .blockComment := congrArg (·.1.token.kind) hnext
    have hknown : l.token.kind ≠ .unknown := by rw [hkind]; decide
    exact ⟨fun hline => absurd hblock
      (Symbol.not_blockComment_of_lineComment hline), fun _ => hkind,
      fun _ hopen => absurd hblock hopen, hnamed hknown (hslash (by decide) hblock)⟩
  · have hbehind : behind = advance^[sign.chars.length] c := congrArg Prod.snd hnext
    have hl : l = ⟨⟨.symbol sign, ⟨c.position, behind.position⟩⟩, ⟨none, []⟩⟩ := by
      rw [hbehind]
      exact congrArg Prod.fst hnext
    have hknown : l.token.kind ≠ .unknown := by
      rw [hl]
      exact fun hkind => TokenKind.noConfusion hkind
    exact ⟨fun hopen => absurd hopen hline, fun hopen => absurd hopen hblock,
      fun _ _ _ => ⟨sign, hlongest, hbehind, hl⟩,
        hnamed hknown ⟨sign, hlongest.begins⟩⟩
  · have hbehind : behind = c.advance := congrArg Prod.snd hnext
    have hl : l = ⟨⟨.unknown first.toString, ⟨c.position, behind.position⟩⟩,
        ⟨some ⟨.unknownToken first.toString, c.position⟩, []⟩⟩ := by
      rw [hbehind]
      exact congrArg Prod.fst hnext
    have hunknown : l.token.kind = .unknown := by rw [hl]; rfl
    exact ⟨fun hopen => absurd hopen hline, fun hopen => absurd hopen hblock,
      fun _ _ hsome => absurd hbare (not_forall_not.mpr hsome),
        iff_of_true hunknown hbare, fun _ => ⟨hbehind, hl⟩⟩

/-- Of three dots two are the longest symbol, and a question mark in front of a
blank begins none. -/
theorem dots_longestSymbol :
    let c := Cursor.ofText "...b"
    let d := Cursor.ofText "? >"
    (c.current? = some '.' ∧ (∃ spelling ∈ Symbol.spellings,
      spelling.head? = some '.') ∧
      (next 4 c).1.token.lexeme = .symbol .dotDot ∧
      ∃ sign, Symbol.LongestIn c.ahead sign ∧
        (next 4 c).2 = advance^[sign.chars.length] c ∧
        (next 4 c).1 = ⟨⟨.symbol sign, ⟨c.position, (next 4 c).2.position⟩⟩,
          ⟨none, []⟩⟩) ∧
    d.current? = some '?' ∧ (∃ spelling ∈ Symbol.spellings,
      spelling.head? = some '?') ∧
      (next 4 d).1.token.kind = .unknown ∧ ∀ sign : Symbol,
        ¬ sign.chars <+: d.ahead := by
  intro c d
  have hfirst : c.current? = some '.' := rfl
  have hbegins : ∃ spelling ∈ Symbol.spellings, spelling.head? = some '.' :=
    ⟨['.'], by decide, rfl⟩
  obtain ⟨-, -, hsymbol, -⟩ := next_longestSymbol 4 hfirst hbegins
  have hfirst' : d.current? = some '?' := rfl
  have hbegins' : ∃ spelling ∈ Symbol.spellings, spelling.head? = some '?' :=
    ⟨['?', '?'], by decide, rfl⟩
  obtain ⟨-, -, -, hunknown, -⟩ := next_longestSymbol 4 hfirst' hbegins'
  have hkind : (next 4 d).1.token.kind = .unknown := by decide +kernel
  exact ⟨⟨hfirst, hbegins, by decide +kernel,
    hsymbol (by decide +kernel) (by decide +kernel) ⟨.dotDot, by decide +kernel⟩⟩,
    hfirst', hbegins', hkind, hunknown.mp hkind⟩

end Lexed

end ScriptLang
