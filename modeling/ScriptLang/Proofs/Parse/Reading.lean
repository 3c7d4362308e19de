import ScriptLang.Proofs.Parse.Walk

/-!
# Reading what is ahead

`Parse.Reads p l l' P` says what a parser makes of a given sequence of lexemes: from
every state in which `l` is ahead it yields a value of `P`, raises no error, and
leaves `l'` ahead.  Where the tokens stand does not matter, so the value is known
only as far as `P` says.

A loop is followed turn by turn.  `Parse.Loops` speaks of a state in the middle of
one, in front of the next turn; a turn that goes on takes a token, so that a loop is
never cut off by the bound on its turns.
-/

namespace ScriptLang

/-- The lexemes of the tokens that are no comments. -/
def Lexed.lexemes (ls : List Lexed) : List Lexeme :=
  (ls.filter fun l => !l.token.kind.isComment).map fun l => l.token.lexeme

/-- Gathering keeps the lexemes of tokens that are no comments. -/
theorem Entry.lexemes_gather (pending : List Notes) (ls : List Lexed) :
    (gather pending ls).map (fun e => e.token.lexeme) = Lexed.lexemes ls := by
  induction ls generalizing pending with
  | nil => rfl
  | cons l ls ih =>
      unfold gather Lexed.lexemes
      by_cases hcomment : l.token.kind.isComment = true
      · simp [hcomment, ih, Lexed.lexemes]
      · simp [hcomment, ih, Lexed.lexemes]

namespace ParseState

/-- The lexemes that no parser has taken yet. -/
def ahead (s : ParseState) : List Lexeme := s.rest.map fun e => e.token.lexeme

theorem length_ahead (s : ParseState) : s.ahead.length = s.rest.length :=
  List.length_map _

/-- Where nothing is ahead, the next token is the end of the text. -/
theorem lexeme_token (s : ParseState) :
    s.token.lexeme = s.ahead.headD .endOfText := by
  unfold token ahead
  cases s.rest with
  | nil => rfl
  | cons e rest => rfl

/-- At the beginning of a parse, all lexemes of the text are ahead. -/
theorem ahead_ofText (limit : Nat) (source : String) :
    (ofText limit source).ahead = Lexed.lexemes (Lexed.ofText limit source) :=
  Entry.lexemes_gather [] _

/-- A token that is taken is no longer ahead. -/
theorem ahead_take (s : ParseState) : s.take.ahead = s.ahead.tail := by
  simp [take, ahead]

end ParseState

namespace Parse

open ParseState

/-- A parser that finds `l` ahead yields a value of `P` without an error and leaves
`l'` ahead. -/
def Reads (p : Parse α) (l l' : List Lexeme) (P : α → Prop) : Prop :=
  ∀ s, s.ahead = l → ∃ a s', p s = (some a, s') ∧ P a ∧ s'.ahead = l' ∧
    s'.errors = s.errors

variable {l l' l'' : List Lexeme} {P : β → Prop} {Q : α → Prop}

/-! ## Sequences -/

/-- What is known about a value can be weakened. -/
theorem Reads.imp {p : Parse α} {P : α → Prop} (h : Reads p l l' P)
    (himp : ∀ a, P a → Q a) :
    Reads p l l' Q := by
  intro s hs
  obtain ⟨a, s', hrun, ha, hahead, herrors⟩ := h s hs
  exact ⟨a, s', hrun, himp a ha, hahead, herrors⟩

/-- To yield a value is to read nothing. -/
theorem Reads.yield {a : α} (h : Q a) : Reads (yield a) l l Q :=
  fun s hs => ⟨a, s, rfl, h, hs, rfl⟩

/-- Parsers one after the other read one after the other. -/
theorem Reads.bind {p : Parse β} {f : β → Parse α} (hp : Reads p l l' P)
    (hf : ∀ b, P b → Reads (f b) l' l'' Q) : Reads (p >>= f) l l'' Q := by
  intro s hs
  obtain ⟨b, s', hrun, hb, hahead, herrors⟩ := hp s hs
  obtain ⟨a, s'', hrun', ha, hahead', herrors'⟩ := hf b hb s' hahead
  refine ⟨a, s'', ?_, ha, hahead', herrors'.trans herrors⟩
  rw [bind_of_some hrun, hrun']

/-! ## Single tokens -/

/-- To look at the next token. -/
theorem Reads.peek {f : Token → Parse α}
    (h : ∀ t, t.lexeme = l.headD .endOfText → Reads (f t) l l' Q) :
    Reads (peek >>= f) l l' Q := by
  intro s hs
  have htoken : s.token.lexeme = l.headD .endOfText := by rw [lexeme_token, hs]
  exact h s.token htoken (s.look 1) hs

/-- To look at the kind of the next token. -/
theorem Reads.peekKind {f : TokenKind → Parse α}
    (h : Reads (f (l.headD .endOfText).kind) l l' Q) :
    Reads (peekKind >>= f) l l' Q := by
  intro s hs
  have hkind : s.token.kind = (l.headD .endOfText).kind := by
    rw [Token.kind, lexeme_token, hs]
  rw [← hkind] at h
  exact h (s.look 1) hs

/-- To take the next token. -/
theorem Reads.bump {x : Lexeme} {f : Token → Parse α}
    (h : ∀ t, t.lexeme = x → Reads (f t) l l' Q) :
    Reads (bump >>= f) (x :: l) l' Q := by
  intro s hs
  have htoken : s.token.lexeme = x := by
    rw [lexeme_token, hs]
    rfl
  have hahead : s.take.ahead = l := by
    rw [ahead_take, hs]
    rfl
  exact h s.token htoken s.take hahead

/-- Spans do not matter. -/
theorem Reads.spanFrom {start : Position} {f : Span → Parse α}
    (h : ∀ span, Reads (f span) l l' Q) :
    Reads (spanFrom start >>= f) l l' Q := by
  intro s hs
  exact h _ s hs

/-- Places do not matter. -/
theorem Reads.here {f : Position → Parse α} (h : ∀ start, Reads (f start) l l' Q) :
    Reads (here >>= f) l l' Q := by
  intro s hs
  exact h _ (s.look 1) hs

/-- To take a token that is there. -/
theorem Reads.eat {x : Lexeme} {kind : TokenKind} {f : Bool → Parse α}
    (hx : x.kind = kind) (h : Reads (f true) l l' Q) :
    Reads (eat kind >>= f) (x :: l) l' Q := by
  refine Reads.bind (P := fun b => b = true) ?_ (by rintro b rfl; exact h)
  unfold Parse.eat
  apply Reads.peekKind
  rw [List.headD_cons, if_pos hx]
  exact Reads.bump fun _ _ => Reads.yield rfl

/-- To leave a token that is of another kind. -/
theorem Reads.not_eat {kind : TokenKind} {f : Bool → Parse α}
    (hl : (l.headD .endOfText).kind ≠ kind) (h : Reads (f false) l l' Q) :
    Reads (Parse.eat kind >>= f) l l' Q := by
  refine Reads.bind (P := fun b => b = false) ?_ (by rintro b rfl; exact h)
  unfold Parse.eat
  apply Reads.peekKind
  rw [if_neg hl]
  exact Reads.yield rfl

/-- To take a token that is expected and there. -/
theorem Reads.expect {x : Lexeme} {kind : TokenKind} {f : Unit → Parse α}
    (hx : x.kind = kind) (h : Reads (f ()) l l' Q) :
    Reads (expect kind >>= f) (x :: l) l' Q := by
  refine Reads.bind (P := fun _ => True) ?_ fun _ _ => h
  exact Reads.eat hx (Reads.yield trivial)

/-- To take a name. -/
theorem Reads.identifier {name : String} {f : String → Parse α}
    (h : Reads (f name) l l' Q) :
    Reads (identifier >>= f) (.identifier name :: l) l' Q := by
  refine Reads.bind (P := fun text => text = name) ?_ (by rintro text rfl; exact h)
  apply Reads.peek
  intro t ht
  rw [ht]
  exact Reads.bump fun _ _ => Reads.yield rfl

/-! ## Loops -/

/-- Turns of a loop that go on, each of which takes a token. -/
inductive Turns (step : α → Parse (Turn α)) : α → ParseState → α → ParseState → Prop
  | none (a : α) (s : ParseState) : Turns step a s a s
  | more {a b c : α} {s s' s'' : ParseState} : Turns step a s b s' →
      step b s' = (some (.again c), s'') → s''.rest.length < s'.rest.length →
        Turns step a s c s''

/-- What a loop yields from the middle on, it yields from the start. -/
theorem Turns.iterate_eq {step : α → Parse (Turn α)} {a b : α} {s s' : ParseState}
    (h : Turns step a s b s') {result : Option α × ParseState}
    (hrest : ∀ fuel, s'.rest.length < fuel → iterate step fuel b s' = result) :
    ∀ fuel, s.rest.length < fuel → iterate step fuel a s = result := by
  induction h with
  | none => exact hrest
  | more _ hstep hlength ih =>
      apply ih
      intro fuel hfuel
      cases fuel with
      | zero => exact absurd hfuel (Nat.not_lt_zero _)
      | succ fuel =>
          simp only [iterate, hstep]
          exact hrest fuel (by omega)

/-- A loop that starts behind a parser has come, over some turns, to a value of `P`
with `l'` ahead. -/
def Loops (p : Parse α) (step : α → Parse (Turn α)) (l l' : List Lexeme)
    (P : α → Prop) : Prop :=
  ∀ s, s.ahead = l → ∃ a₀ s₀ a s', p s = (some a₀, s₀) ∧
    Turns step a₀ s₀ a s' ∧ P a ∧
    s'.ahead = l' ∧ s'.errors = s.errors

variable {p : Parse α} {step : α → Parse (Turn α)} {R : α → Prop}

/-- A loop that reads makes its turns. -/
theorem Reads.loops (h : Reads p l l' R) : Loops p step l l' R := by
  intro s hs
  obtain ⟨a, s', hrun, ha, hahead, herrors⟩ := h s hs
  exact ⟨a, s', a, s', hrun, .none a s', ha, hahead, herrors⟩

/-- Another turn. -/
theorem Loops.again (h : Loops p step l l' R)
    (hstep : ∀ a, R a → Reads (step a) l' l'' fun t => ∃ b, t = .again b ∧ Q b)
    (hlength : l''.length < l'.length) : Loops p step l l'' Q := by
  intro s hs
  obtain ⟨a₀, s₀, a, s', hrun, hturns, ha, hahead, herrors⟩ := h s hs
  obtain ⟨t, s'', hturn, ⟨b, rfl, hb⟩, hahead', herrors'⟩ := hstep a ha s' hahead
  refine ⟨a₀, s₀, b, s'', hrun, .more hturns hturn ?_, hb, hahead',
    herrors'.trans herrors⟩
  rw [← length_ahead, ← length_ahead, hahead, hahead']
  exact hlength

/-- The last turn. -/
theorem Loops.done (h : Loops p step l l' R)
    (hstep : ∀ a, R a → Reads (step a) l' l'' fun t => ∃ b, t = .done b ∧ Q b) :
    Reads (p >>= repeating step) l l'' Q := by
  intro s hs
  obtain ⟨a₀, s₀, a, s', hrun, hturns, ha, hahead, herrors⟩ := h s hs
  obtain ⟨t, s'', hturn, ⟨b, rfl, hb⟩, hahead', herrors'⟩ := hstep a ha s' hahead
  refine ⟨b, s'', ?_, hb, hahead', herrors'.trans herrors⟩
  rw [bind_of_some hrun]
  refine hturns.iterate_eq ?_ _ (Nat.lt_succ_self _)
  intro fuel hfuel
  cases fuel with
  | zero => exact absurd hfuel (Nat.not_lt_zero _)
  | succ fuel => simp only [iterate, hturn]

end Parse

end ScriptLang
