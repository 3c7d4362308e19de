import ScriptLang.Proofs.Token.Moved
import ScriptLang.Proofs.Tree.Evaluable

/-!
# Two parses side by side

Parsers look at little: the next token, the kind of the one behind it, the number of
tokens taken so far and the place where the last one ended.  So a parser that is run
on two states which agree on these does the same twice, up to the places it reports.
A `Pairing` says which states go together.  It holds as long as the first parse
stays `clear`, which a pairing may give up when a parse looks too far ahead, or
raises an error.

`Pairing.Tracks` says of two parsers that they keep a pairing.  The values they
yield differ only in their places; about the first of them one may say more, and how
many tokens were taken for it.

The two parses may have different numbers of tokens left, and with them different
bounds on their loops and on nesting.  `Tracks n` speaks of states from which a
nesting of `n` layers is enough; behind a token that was taken, one layer less is.
-/

namespace ScriptLang

namespace ParseState

/-- What no parser takes back: tokens taken, tokens looked at, and errors raised. -/
structure Leads (s s' : ParseState) : Prop where
  taken_le : s.taken ≤ s'.taken
  seen_le : s.seen ≤ s'.seen
  errors_le : s.errors.size ≤ s'.errors.size

variable {s s' s'' : ParseState}

theorem Leads.refl (s : ParseState) : s.Leads s :=
  ⟨Nat.le_refl _, Nat.le_refl _, Nat.le_refl _⟩

/-- What leads on twice leads on. -/
theorem Leads.trans (h : s.Leads s') (h' : s'.Leads s'') : s.Leads s'' :=
  ⟨Nat.le_trans h.taken_le h'.taken_le, Nat.le_trans h.seen_le h'.seen_le,
    Nat.le_trans h.errors_le h'.errors_le⟩

/-- To look ahead leads on. -/
theorem leads_look (n : Nat) (s : ParseState) : s.Leads (s.look n) :=
  ⟨Nat.le_refl _, Nat.le_max_left _ _, Nat.le_refl _⟩

/-- To take a token leads on. -/
theorem look_leads_take (s : ParseState) : (s.look 1).Leads s.take :=
  ⟨Nat.le_succ _, Nat.le_refl _, Nat.le_refl _⟩

/-- The state behind an error. -/
def raised (cause : ParseError) (position : Position)
    (s : ParseState) : ParseState :=
  { s with errors := s.errors.push ⟨cause, position⟩ }

/-- The state behind a warning. -/
def warned (cause : ParseWarning) (position : Position)
    (s : ParseState) : ParseState :=
  { s with warnings := s.warnings.push ⟨cause, position⟩ }

/-- To raise an error leads on. -/
theorem leads_raised (cause : ParseError) (position : Position) (s : ParseState) :
    s.Leads (s.raised cause position) :=
  ⟨Nat.le_refl _, Nat.le_refl _, by simp [raised]⟩

/-- To warn leads on. -/
theorem leads_warned (cause : ParseWarning) (position : Position) (s : ParseState) :
    s.Leads (s.warned cause position) :=
  ⟨Nat.le_refl _, Nat.le_refl _, Nat.le_refl _⟩

end ParseState

/-- A turn whose value is mapped. -/
def Parse.Turn.map (f : α → α) : Parse.Turn α → Parse.Turn α
  | .again a => .again (f a)
  | .done a => .done (f a)

/-- States of two parses that go together.  The second parse may be run on another
source of tokens. -/
structure Pairing (τ : Type) where
  /-- Whether an error ends the comparison, so that only trees that make sense come
  out of it. -/
  strict : Prop
  /-- Whether both parses have the same number of tokens left. -/
  even : Prop
  /-- The number of tokens of the first parse, if they have not. -/
  total : Nat
  /-- How many tokens more the second parse has taken. -/
  ahead : Nat
  /-- How many errors more have been counted in the second parse. -/
  surplus : Nat
  /-- Where the second parse finds what the first one finds at a place. -/
  move : Position → Position
  /-- Whether the first parse is still compared. -/
  clear : ParseState → Prop
  pairs : ParseState → τ → Prop

/-- What makes the parsers keep a pairing.  States that go together agree on what
parsers look at, for as long as the first parse is compared. -/
class Pairing.Lawful {τ : Type} [TokenSource τ] (P : Pairing τ) : Prop where
  move_later : ∀ a b, P.move (a.later b) = (P.move a).later (P.move b)
  move_earlier : ∀ a b, P.move (a.earlier b) = (P.move a).earlier (P.move b)
  clear_of_leads : ∀ {s s'}, s.Leads s' → P.clear s' → P.clear s
  not_clear_raised : ∀ {s s'} cause position, P.pairs s s' → P.strict →
    ¬ P.clear (s.raised cause position)
  raised : ∀ {s s'} cause position, P.pairs s s' →
    P.clear (s.raised cause position) →
    P.pairs (s.raised cause position) (TokenSource.raise cause (P.move position) s')
  warned : ∀ {s s'} cause position, P.pairs s s' →
    P.pairs (s.warned cause position) (TokenSource.warn cause (P.move position) s')
  peek : ∀ {s s'}, P.pairs s s' → P.clear (s.look 1) →
    P.pairs (s.look 1) (TokenSource.peek s').2 ∧
      (TokenSource.peek s').1 = s.token.moved P.move
  peekSecondKind : ∀ {s s'}, P.pairs s s' → P.clear (s.look 2) →
    P.pairs (s.look 2) (TokenSource.peekSecondKind s').2 ∧
      (TokenSource.peekSecondKind s').1 = s.secondKind
  bump : ∀ {s s'}, P.pairs s s' → P.clear s.take →
    P.pairs s.take (TokenSource.bump s').2 ∧
      (TokenSource.bump s').1 = s.token.moved P.move
  taken_eq : ∀ {s s'}, P.pairs s s' → TokenSource.taken s' = s.taken + P.ahead
  errorCount_eq : ∀ {s s'}, P.pairs s s' → P.clear s →
    (TokenSource.findings s').errorCount = s.errorCount + P.surplus
  previousEnd_eq : ∀ {s s'}, P.pairs s s' →
    TokenSource.previousEnd s' = P.move s.previousEnd
  length_eq : ∀ {s s'}, P.even → P.pairs s s' →
    TokenSource.remaining s' = s.rest.length
  length_le : ∀ {s s'}, P.pairs s s' → s.rest.length ≤ TokenSource.remaining s'
  total_eq : ∀ {s s'}, ¬ P.even → P.pairs s s' → s.taken + s.rest.length = P.total

/-- The same, where both parses have their tokens at hand. -/
class Pairing.LawfulAtHand (P : Pairing ParseState) : Prop where
  move_later : ∀ a b, P.move (a.later b) = (P.move a).later (P.move b)
  move_earlier : ∀ a b, P.move (a.earlier b) = (P.move a).earlier (P.move b)
  clear_of_leads : ∀ {s s'}, s.Leads s' → P.clear s' → P.clear s
  not_clear_raised : ∀ {s s'} cause position, P.pairs s s' → P.strict →
    ¬ P.clear (s.raised cause position)
  raised : ∀ {s s'} cause position, P.pairs s s' →
    P.clear (s.raised cause position) →
    P.pairs (s.raised cause position) (s'.raised cause (P.move position))
  warned : ∀ {s s'} cause position, P.pairs s s' →
    P.pairs (s.warned cause position) (s'.warned cause (P.move position))
  look : ∀ {s s'} n, P.pairs s s' → P.clear (s.look n) →
    P.pairs (s.look n) (s'.look n)
  take : ∀ {s s'}, P.pairs s s' → P.clear s.take → P.pairs s.take s'.take
  token_eq : ∀ {s s'}, P.pairs s s' → P.clear (s.look 1) →
    s'.token = s.token.moved P.move
  secondKind_eq : ∀ {s s'}, P.pairs s s' → P.clear (s.look 2) →
    s'.secondKind = s.secondKind
  taken_eq : ∀ {s s'}, P.pairs s s' → s'.taken = s.taken + P.ahead
  errorCount_eq : ∀ {s s'}, P.pairs s s' → P.clear s →
    s'.errorCount = s.errorCount + P.surplus
  previousEnd_eq : ∀ {s s'}, P.pairs s s' → s'.previousEnd = P.move s.previousEnd
  length_eq : ∀ {s s'}, P.even → P.pairs s s' → s'.rest.length = s.rest.length
  length_le : ∀ {s s'}, P.pairs s s' → s.rest.length ≤ s'.rest.length
  total_eq : ∀ {s s'}, ¬ P.even → P.pairs s s' → s.taken + s.rest.length = P.total

instance (P : Pairing ParseState) [h : P.LawfulAtHand] : P.Lawful where
  move_later := h.move_later
  move_earlier := h.move_earlier
  clear_of_leads := h.clear_of_leads
  not_clear_raised := h.not_clear_raised
  raised := h.raised
  warned := h.warned
  peek hs hclear := ⟨h.look 1 hs hclear, h.token_eq hs hclear⟩
  peekSecondKind hs hclear := ⟨h.look 2 hs hclear, h.secondKind_eq hs hclear⟩
  bump {s _} hs hclear :=
    ⟨h.take hs hclear, h.token_eq hs (h.clear_of_leads s.look_leads_take hclear)⟩
  taken_eq := h.taken_eq
  errorCount_eq := h.errorCount_eq
  previousEnd_eq := h.previousEnd_eq
  length_eq := h.length_eq
  length_le := h.length_le
  total_eq := h.total_eq

namespace Pairing

open Parse ParseState

variable {τ : Type} (P : Pairing τ)

/-- Parsers that keep a pairing from a state of the first parse on.  The value of
the second is that of the first under `f`, and the value of the first is related by
`V` to the number of tokens taken. -/
def TracksAt (n : Nat) (s : ParseState) (p : Parse α) (p' : ParseOn τ α) (f : α → α)
    (V : α → Nat → Prop) : Prop :=
  s.Leads (p s).2 ∧ ∀ s', P.pairs s s' → (P.even ∨ P.total < n + s.taken) →
    P.clear (p s).2 →
    P.pairs (p s).2 (p' s').2 ∧ (p' s').1 = (p s).1.map f ∧
      ∀ a, (p s).1 = some a → ∀ k, (p s).2.taken = s.taken + k → V a k

/-- Parsers that do so from every state on. -/
def Tracks (n : Nat) (p : Parse α) (p' : ParseOn τ α) (f : α → α)
    (V : α → Nat → Prop) : Prop :=
  ∀ s, P.TracksAt n s p p' f V

variable {P} {n m : Nat} {s : ParseState} {p : Parse α} {p' : ParseOn τ α}
  {f : α → α} {V W : α → Nat → Prop}

/-- What is said about more tokens is said about fewer. -/
theorem Tracks.anti (h : P.Tracks n p p' f V) (hm : m ≤ n) :
    P.Tracks m p p' f V := by
  intro s
  obtain ⟨hleads, hpairs⟩ := h s
  refine ⟨hleads, fun s' hs hlevel => hpairs s' hs (hlevel.imp id fun htotal => ?_)⟩
  omega

theorem TracksAt.imp (h : P.TracksAt n s p p' f V) (himp : ∀ a k, V a k → W a k) :
    P.TracksAt n s p p' f W := by
  obtain ⟨hleads, hpairs⟩ := h
  refine ⟨hleads, fun s' hs hlevel hclear => ?_⟩
  obtain ⟨hafter, hvalue, hV⟩ := hpairs s' hs hlevel hclear
  exact ⟨hafter, hvalue, fun a ha k hk => himp a k (hV a ha k hk)⟩

/-- What is known about values can be weakened. -/
theorem Tracks.imp (h : P.Tracks n p p' f V) (himp : ∀ a k, V a k → W a k) :
    P.Tracks n p p' f W :=
  fun s => (h s).imp himp

/-! ## Sequences -/

/-- To yield corresponding values. -/
theorem Tracks.yield {a b : α} (hb : b = f a) (ha : V a 0) :
    P.Tracks n (Parse.yield a) (Parse.yield b) f V := by
  intro s
  refine ⟨Leads.refl s, fun s' hs _ _ => ⟨hs, by rw [hb]; rfl, ?_⟩⟩
  intro c hc k hk
  cases hc
  obtain rfl : k = 0 := by
    have htaken : s.taken = s.taken + k := hk
    omega
  exact ha

/-- To fail on both sides. -/
theorem Tracks.fail : P.Tracks n (Parse.fail : Parse α) Parse.fail f V := by
  intro s
  exact ⟨Leads.refl s, fun s' hs _ _ => ⟨hs, rfl, fun _ ha => nomatch ha⟩⟩

/-- A failure that is caught. -/
theorem TracksAt.attempt (hp : P.TracksAt n s p p' f V) :
    P.TracksAt n s (Parse.attempt p) (Parse.attempt p') (Option.map f) fun o k =>
      ∀ a ∈ o, V a k := by
  obtain ⟨hleads, hpairs⟩ := hp
  refine ⟨hleads, fun s' hs hlevel hclear => ?_⟩
  obtain ⟨hafter, hvalue, hV⟩ := hpairs s' hs hlevel hclear
  refine ⟨hafter, congrArg some hvalue, fun o ho k hk a ha => ?_⟩
  cases ho
  exact hV a ha k hk

variable [TokenSource τ] [P.Lawful]

/-- Two parsers in sequence.  The second may depend on the state that the first one
left, and nest less deeply by as much as the first one took. -/
theorem TracksAt.bind {q : Parse β} {q' : ParseOn τ β} {e : β → β}
    {U : β → Nat → Prop} {g : β → Parse α} {g' : β → ParseOn τ α}
    (hq : P.TracksAt n s q q' e U) (hm : ∀ b k, U b k → n ≤ m + k)
    (hg : ∀ b s₁, q s = (some b, s₁) → P.TracksAt m s₁ (g b) (g' (e b)) f fun a j =>
      ∀ k, s₁.taken = s.taken + k → U b k → V a (k + j)) :
    P.TracksAt n s (q >>= g) (q' >>= g') f V := by
  obtain ⟨hleads, hpairs⟩ := hq
  show s.Leads (andThen q g s).2 ∧ ∀ s', _ → _ → P.clear (andThen q g s).2 →
    P.pairs (andThen q g s).2 (andThen q' g' s').2 ∧
      (andThen q' g' s').1 = (andThen q g s).1.map f ∧
        ∀ a, (andThen q g s).1 = some a →
          ∀ k, (andThen q g s).2.taken = s.taken + k → V a k
  unfold andThen
  rcases hrun : q s with ⟨_ | b, s₁⟩
  · rw [hrun] at hleads hpairs
    refine ⟨hleads, fun s' hs hlevel hclear => ?_⟩
    obtain ⟨hafter, hvalue, _⟩ := hpairs s' hs hlevel hclear
    rcases hrun' : q' s' with ⟨_ | b', s₁'⟩
    · rw [hrun'] at hafter
      exact ⟨hafter, rfl, fun _ ha => nomatch ha⟩
    · rw [hrun'] at hvalue
      cases hvalue
  · rw [hrun] at hleads hpairs
    obtain ⟨hleads', hpairs'⟩ := hg b s₁ hrun
    refine ⟨hleads.trans hleads', fun s' hs hlevel hclear => ?_⟩
    -- What was still clear at the end was clear in between.
    obtain ⟨hafter, hvalue, hU⟩ :=
      hpairs s' hs hlevel (Lawful.clear_of_leads hleads' hclear)
    rcases hrun' : q' s' with ⟨_ | b', s₁'⟩
    · rw [hrun'] at hvalue
      cases hvalue
    · rw [hrun'] at hafter hvalue
      obtain rfl : b' = e b := Option.some.inj hvalue
      have htaken : s.taken ≤ s₁.taken := hleads.taken_le
      have htaken' := hleads'.taken_le
      obtain ⟨k, hk⟩ : ∃ k, s₁.taken = s.taken + k := ⟨s₁.taken - s.taken, by omega⟩
      have hUb := hU b rfl k hk
      have hbound := hm b k hUb
      obtain ⟨hafter', hvalue', hV⟩ :=
        hpairs' s₁' hafter (hlevel.imp id fun htotal => by omega) hclear
      refine ⟨hafter', hvalue', fun a ha j hj => ?_⟩
      dsimp only at ha hj
      obtain ⟨i, rfl⟩ : ∃ i, j = k + i := ⟨j - k, by omega⟩
      exact hV a ha i (by omega) k hk hUb

/-- Parsers one after the other, the second one with as many tokens less as the
first has taken. -/
theorem Tracks.bind_level {q : Parse β} {q' : ParseOn τ β} {e : β → β}
    {U : β → Nat → Prop} {g : β → Parse α} {g' : β → ParseOn τ α}
    (hq : P.Tracks n q q' e U) (hm : ∀ b k, U b k → n ≤ m + k)
    (hg : ∀ b, P.Tracks m (g b) (g' (e b)) f fun a j => ∀ k, U b k → V a (k + j)) :
    P.Tracks n (q >>= g) (q' >>= g') f V :=
  fun s => (hq s).bind hm fun b s₁ _ => (hg b s₁).imp fun _ _ h k _ => h k

/-- Parsers one after the other. -/
theorem Tracks.bind {q : Parse β} {q' : ParseOn τ β} {e : β → β}
    {U : β → Nat → Prop} {g : β → Parse α} {g' : β → ParseOn τ α}
    (hq : P.Tracks n q q' e U)
    (hg : ∀ b, P.Tracks n (g b) (g' (e b)) f fun a j => ∀ k, U b k → V a (k + j)) :
    P.Tracks n (q >>= g) (q' >>= g') f V :=
  hq.bind_level (fun _ _ _ => Nat.le_add_right _ _) hg

/-- Two parsers in sequence, where the value of the first says nothing of places. -/
theorem Tracks.bind_id {q : Parse β} {q' : ParseOn τ β} {U : β → Nat → Prop}
    {g : β → Parse α} {g' : β → ParseOn τ α} (hq : P.Tracks n q q' id U)
    (hg : ∀ b, P.Tracks n (g b) (g' b) f fun a j => ∀ k, U b k → V a (k + j)) :
    P.Tracks n (q >>= g) (q' >>= g') f V :=
  hq.bind hg

/-- A function of what parsers yield. -/
theorem Tracks.map {q : Parse β} {q' : ParseOn τ β} {e : β → β} {U : β → Nat → Prop}
    {h : β → α} (hq : P.Tracks n q q' e U) (hcomm : ∀ b, h (e b) = f (h b))
    (hV : ∀ b k, U b k → V (h b) k) :
    P.Tracks n (h <$> q) (h <$> q') f V := by
  show P.Tracks n (q >>= fun b => Parse.yield (h b))
    (q' >>= fun b => Parse.yield (h b)) f V
  refine hq.bind fun b => ?_
  exact Tracks.yield (hcomm b) fun k hU => hV b k hU

/-! ## Looking and taking -/

/-- To look at the next token, which is moved. -/
theorem Tracks.peek {g : Token → Parse α} {g' : Token → ParseOn τ α}
    (hg : ∀ t, P.Tracks n (g t) (g' (t.moved P.move)) f V) :
    P.Tracks n (Parse.peek >>= g) (Parse.peek >>= g') f V := by
  have hpeek : P.Tracks n Parse.peek Parse.peek (Token.moved P.move) fun _ k =>
      k = 0 := by
    intro s
    refine ⟨leads_look 1 s, fun s' hs _ hclear =>
      ⟨(Lawful.peek hs hclear).1, ?_, ?_⟩⟩
    · exact congrArg some (Lawful.peek hs hclear).2
    · intro _ _ k hk
      have htaken : s.taken = s.taken + k := hk
      omega
  refine hpeek.bind fun t => (hg t).imp ?_
  rintro a j hV _ rfl
  rwa [Nat.zero_add]

/-- To look at the kind of the next token, which is the same. -/
theorem Tracks.peekKind {g : TokenKind → Parse α} {g' : TokenKind → ParseOn τ α}
    (hg : ∀ kind, P.Tracks n (g kind) (g' kind) f V) :
    P.Tracks n (Parse.peekKind >>= g) (Parse.peekKind >>= g') f V := by
  show P.Tracks n (Parse.peek >>= fun t => g t.kind)
    (Parse.peek >>= fun t => g' t.kind) f V
  exact Tracks.peek fun t => hg t.kind

/-- To look at the kind of the token behind it, which is the same. -/
theorem Tracks.peekSecondKind {g : TokenKind → Parse α}
    {g' : TokenKind → ParseOn τ α}
    (hg : ∀ kind, P.Tracks n (g kind) (g' kind) f V) :
    P.Tracks n (Parse.peekSecondKind >>= g) (Parse.peekSecondKind >>= g') f V := by
  have hpeek : P.Tracks n Parse.peekSecondKind Parse.peekSecondKind id fun _ k =>
      k = 0 := by
    intro s
    refine ⟨leads_look 2 s, fun s' hs _ hclear =>
      ⟨(Lawful.peekSecondKind hs hclear).1, ?_, ?_⟩⟩
    · exact congrArg some (Lawful.peekSecondKind hs hclear).2
    · intro _ _ k hk
      have htaken : s.taken = s.taken + k := hk
      omega
  refine hpeek.bind fun kind => (hg kind).imp ?_
  rintro a j hV _ rfl
  rwa [Nat.zero_add]

/-- To ask for the place of the next token, which is moved. -/
theorem Tracks.here {g : Position → Parse α} {g' : Position → ParseOn τ α}
    (hg : ∀ position, P.Tracks n (g position) (g' (P.move position)) f V) :
    P.Tracks n (Parse.here >>= g) (Parse.here >>= g') f V := by
  show P.Tracks n (Parse.peek >>= fun t => g t.span.start)
    (Parse.peek >>= fun t => g' t.span.start) f V
  exact Tracks.peek fun t => hg t.span.start

/-- Behind a token that was taken, one layer of nesting less is enough. -/
theorem Tracks.bump {g : Token → Parse α} {g' : Token → ParseOn τ α}
    (hg : ∀ t, P.Tracks n (g t) (g' (t.moved P.move)) f fun a j => V a (j + 1)) :
    P.Tracks (n + 1) (Parse.bump >>= g) (Parse.bump >>= g') f V := by
  have hbump : P.Tracks (n + 1) Parse.bump Parse.bump (Token.moved P.move)
      fun _ k => k = 1 := by
    intro s
    refine ⟨(leads_look 1 s).trans (look_leads_take s),
      fun s' hs _ hclear => ⟨(Lawful.bump hs hclear).1, ?_, ?_⟩⟩
    · exact congrArg some (Lawful.bump hs hclear).2
    · intro _ _ k hk
      have htaken : s.taken + 1 = s.taken + k := hk
      omega
  refine hbump.bind_level (fun _ k hk => by omega) fun t => (hg t).imp ?_
  rintro a j hV _ rfl
  rwa [Nat.add_comm]

/-- To ask for the span since some place, which is moved. -/
theorem Tracks.spanFrom {start start' : Position} {g : Span → Parse α}
    {g' : Span → ParseOn τ α} (hstart : start' = P.move start)
    (hg : ∀ span, P.Tracks n (g span) (g' (span.moved P.move)) f V) :
    P.Tracks n (Parse.spanFrom start >>= g) (Parse.spanFrom start' >>= g') f V := by
  have hspan : P.Tracks n (Parse.spanFrom start) (Parse.spanFrom start')
    (Span.moved P.move)
      fun _ k => k = 0 := by
    intro s
    refine ⟨Leads.refl s, fun s' hs _ _ => ⟨hs, ?_, ?_⟩⟩
    · show some (Span.mk start' ((TokenSource.previousEnd s').later start')) =
        some (Span.mk
        (P.move start) (P.move (s.previousEnd.later start)))
      rw [Lawful.previousEnd_eq hs, hstart, Lawful.move_later]
    · intro _ _ k hk
      have htaken : s.taken = s.taken + k := hk
      omega
  refine hspan.bind fun span => (hg span).imp ?_
  rintro a j hV _ rfl
  rwa [Nat.zero_add]

/-- To take a token of some kind, on both sides or on none. -/
theorem Tracks.eat (kind : TokenKind) :
    P.Tracks n (Parse.eat kind) (Parse.eat kind) id fun taken k => taken =
      true → 0 < k := by
  refine Tracks.peekKind fun found => ?_
  split
  · refine (Tracks.bump (n := n) fun _ => ?_).anti (Nat.le_succ n)
    exact Tracks.yield rfl fun _ => Nat.succ_pos _
  · exact Tracks.yield rfl fun h => nomatch h

/-- The numbers of tokens taken so far differ by the same amount throughout. -/
theorem TracksAt.taken {g : Nat → Parse α} {g' : Nat → ParseOn τ α}
    (hg : P.TracksAt n s (g s.taken) (g' (s.taken + P.ahead)) f V) :
    P.TracksAt n s (Parse.taken >>= g) (Parse.taken >>= g') f V := by
  obtain ⟨hleads, hpairs⟩ := hg
  refine ⟨hleads, fun s' hs => ?_⟩
  show _ → _ → P.pairs _ (g' (TokenSource.taken s') s').2 ∧
    (g' (TokenSource.taken s') s').1 = _ ∧ _
  rw [Lawful.taken_eq hs]
  exact hpairs s' hs

/-! ## Reports -/

/-- Where errors end the comparison, nothing is owed behind one. -/
theorem Tracks.raise {cause : ParseError} {position position' : Position}
    {g : Unit → Parse α} {g' : Unit → ParseOn τ α}
    (hposition : position' = P.move position)
    (hg : P.Tracks n (g ()) (g' ()) f fun a k => ¬ P.strict → V a k) :
    P.Tracks n (Parse.raise cause position >>= g)
      (Parse.raise cause position' >>= g') f V := by
  have hraise : P.Tracks n (Parse.raise cause position)
    (Parse.raise cause position') id
      fun _ k => k = 0 ∧ ¬ P.strict := by
    intro s
    refine ⟨leads_raised cause position s, fun s' hs _ hclear => ⟨?_, rfl, ?_⟩⟩
    · rw [hposition]
      exact Lawful.raised cause position hs hclear
    · intro _ _ k hk
      have htaken : s.taken = s.taken + k := hk
      exact ⟨by omega, fun hstrict =>
        Lawful.not_clear_raised cause position hs hstrict hclear⟩
  refine hraise.bind fun _ => hg.imp ?_
  rintro a j hV _ ⟨rfl, hlenient⟩
  rw [Nat.zero_add]
  exact hV hlenient

/-- To warn at corresponding places. -/
theorem Tracks.warn {cause : ParseWarning} {position position' : Position}
    {g : Unit → Parse α} {g' : Unit → ParseOn τ α}
    (hposition : position' = P.move position) (hg : P.Tracks n (g ()) (g' ()) f V) :
    P.Tracks n (Parse.warn cause position >>= g)
      (Parse.warn cause position' >>= g') f V := by
  have hwarn : P.Tracks n (Parse.warn cause position) (Parse.warn cause position')
      id fun _ k => k = 0 := by
    intro s
    refine ⟨leads_warned cause position s, fun s' hs _ _ => ⟨?_, rfl, ?_⟩⟩
    · rw [hposition]
      exact Lawful.warned cause position hs
    · intro _ _ k hk
      have htaken : s.taken = s.taken + k := hk
      omega
  refine hwarn.bind fun _ => hg.imp ?_
  rintro a j hV _ rfl
  rwa [Nat.zero_add]

/-- To expect a token of some kind. -/
theorem Tracks.expect (kind : TokenKind) :
    P.Tracks n (Parse.expect kind) (Parse.expect kind) id fun _ _ => True := by
  refine (Tracks.eat kind).bind_id fun taken => ?_
  split
  · exact Tracks.yield rfl fun _ _ => trivial
  · refine Tracks.peek fun t => ?_
    show P.Tracks n (Parse.raise _ _ >>= Parse.yield)
      (Parse.raise _ _ >>= Parse.yield) id _
    exact Tracks.raise rfl (Tracks.yield rfl fun _ _ _ => trivial)

/-- To miss an expression. -/
theorem Tracks.noExpression :
    P.Tracks n (Parse.noExpression : Parse α) Parse.noExpression f V :=
  Tracks.peek fun _ => Tracks.raise rfl Tracks.fail

/-- To expect a name, and to take it. -/
theorem Tracks.identifier :
    P.Tracks n Parse.identifier Parse.identifier id fun _ k => 0 < k := by
  refine Tracks.peek fun t => ?_
  rw [Token.lexeme_moved]
  split
  · refine (Tracks.bump (n := n) fun _ => ?_).anti (Nat.le_succ n)
    exact Tracks.yield rfl (Nat.succ_pos _)
  · exact (Tracks.expect _).bind_id fun _ => Tracks.fail

/-! ## Loops -/

/-- What a turn does to a property of the accumulated value: it keeps it, and asking
for another turn takes a token. -/
def Keeps (J : α → Prop) (a : α) : Turn α → Nat → Prop
  | .again b, k => 0 < k ∧ (J a → J b)
  | .done b, _ => J a → J b

/-- A loop ends with a turn that fails. -/
theorem iterate_of_none {σ : Type} {step : α → ParseOn σ (Turn α)} {a : α}
    {s s₁ : σ} (h : step a s = (none, s₁)) (fuel : Nat) :
    iterate step (fuel + 1) a s = (none, s₁) := by
  simp only [iterate, h]

/-- A loop ends with a turn that is the last one. -/
theorem iterate_of_done {σ : Type} {step : α → ParseOn σ (Turn α)} {a b : α}
    {s s₁ : σ} (h : step a s = (some (.done b), s₁)) (fuel : Nat) :
    iterate step (fuel + 1) a s = (some b, s₁) := by
  simp only [iterate, h]

/-- A loop goes on behind a turn that asks for another one. -/
theorem iterate_of_again {σ : Type} {step : α → ParseOn σ (Turn α)} {a b : α}
    {s s₁ : σ} (h : step a s = (some (.again b), s₁)) (fuel : Nat) :
    iterate step (fuel + 1) a s = iterate step fuel b s₁ := by
  simp only [iterate, h]

/-- Loops that are allowed as many turns as there are tokens keep a pairing if their
turns do: either both are allowed the same number, or the first one never uses it
up. -/
theorem iterate_tracks {step : α → Parse (Turn α)} {step' : α → ParseOn τ (Turn α)}
    {J : α → Prop}
    (hstep : ∀ a, P.Tracks n (step a) (step' (f a)) (Turn.map f) (Keeps J a))
    (fuel : Nat) (a : α) (s : ParseState) :
    s.Leads (iterate step fuel a s).2 ∧ ∀ fuel' s', P.pairs s s' →
      (P.even ∨ P.total < n + s.taken) →
      (P.even → fuel' = fuel) → fuel ≤ fuel' → (P.even ∨ P.total < fuel + s.taken) →
      P.clear (iterate step fuel a s).2 →
      P.pairs (iterate step fuel a s).2 (iterate step' fuel' (f a) s').2 ∧
        (iterate step' fuel' (f a) s').1 = (iterate step fuel a s).1.map f ∧
        ∀ b, (iterate step fuel a s).1 = some b → J a → J b := by
  induction fuel generalizing a s with
  | zero =>
      refine ⟨Leads.refl s, fun fuel' s' hs _ heven _ hfuel _ => ?_⟩
      rcases hfuel with hP | htotal
      · rw [heven hP]
        exact ⟨hs, rfl, fun b hb hJ => Option.some.inj hb ▸ hJ⟩
      · by_cases hP : P.even
        · rw [heven hP]
          exact ⟨hs, rfl, fun b hb hJ => Option.some.inj hb ▸ hJ⟩
        · have hlength := Lawful.total_eq hP hs
          omega
  | succ fuel ih =>
      obtain ⟨hleads, hpairs⟩ := hstep a s
      rcases hrun : step a s with ⟨result, s₁⟩
      rw [hrun] at hleads hpairs
      have htaken : s.taken ≤ s₁.taken := hleads.taken_le
      rcases result with _ | turn
      · rw [iterate_of_none hrun]
        refine ⟨hleads, fun fuel' s' hs hlevel _ hle _ hclear => ?_⟩
        obtain ⟨hafter, hvalue, _⟩ := hpairs s' hs hlevel hclear
        obtain ⟨fuel', rfl⟩ : ∃ k, fuel' = k + 1 := ⟨fuel' - 1, by omega⟩
        rcases hrun' : step' (f a) s' with ⟨result', s₁'⟩
        rw [hrun'] at hafter hvalue
        cases hvalue
        rw [iterate_of_none hrun']
        exact ⟨hafter, rfl, fun _ hb => nomatch hb⟩
      · cases turn with
        | done b =>
            rw [iterate_of_done hrun]
            refine ⟨hleads, fun fuel' s' hs hlevel _ hle _ hclear => ?_⟩
            obtain ⟨hafter, hvalue, hkeeps⟩ := hpairs s' hs hlevel hclear
            obtain ⟨fuel', rfl⟩ : ∃ k, fuel' = k + 1 := ⟨fuel' - 1, by omega⟩
            rcases hrun' : step' (f a) s' with ⟨result', s₁'⟩
            rw [hrun'] at hafter hvalue
            cases hvalue
            rw [iterate_of_done hrun']
            refine ⟨hafter, rfl, fun c hc => ?_⟩
            cases hc
            exact hkeeps _ rfl (s₁.taken - s.taken) (by dsimp only; omega)
        | again b =>
            rw [iterate_of_again hrun]
            obtain ⟨hleads', hpairs'⟩ := ih b s₁
            refine ⟨hleads.trans hleads',
              fun fuel' s' hs hlevel heven hle hfuel hclear => ?_⟩
            obtain ⟨hafter, hvalue, hkeeps⟩ :=
              hpairs s' hs hlevel (Lawful.clear_of_leads hleads' hclear)
            obtain ⟨fuel', rfl⟩ : ∃ k, fuel' = k + 1 := ⟨fuel' - 1, by omega⟩
            rcases hrun' : step' (f a) s' with ⟨result', s₁'⟩
            rw [hrun'] at hafter hvalue
            cases hvalue
            rw [iterate_of_again hrun']
            -- A turn that asks for another one has taken a token, so one turn less
            -- is enough.
            obtain ⟨htook, hJ⟩ :=
              hkeeps _ rfl (s₁.taken - s.taken) (by dsimp only; omega)
            obtain ⟨hafter', hvalue', hJ'⟩ := hpairs' fuel' s₁' hafter
              (hlevel.imp id fun htotal => by omega)
                (fun hP => by have := heven hP; omega) (by omega)
              (hfuel.imp id fun htotal => by omega) hclear
            exact ⟨hafter', hvalue', fun c hc ha => hJ' c hc (hJ ha)⟩

/-- A loop, turn by turn. -/
theorem Tracks.repeating {step : α → Parse (Turn α)}
    {step' : α → ParseOn τ (Turn α)} {J : α → Prop}
    (hstep : ∀ a, P.Tracks n (step a) (step' (f a)) (Turn.map f) (Keeps J a))
    {a a' : α} (ha : a' = f a) :
    P.Tracks n (Parse.repeating step a) (Parse.repeating step' a') f fun b _ =>
      J a → J b := by
  subst ha
  intro s
  obtain ⟨hleads, hpairs⟩ := iterate_tracks hstep (s.rest.length + 1) a s
  refine ⟨hleads, fun s' hs hlevel hclear => ?_⟩
  have hle := Lawful.length_le hs
  have hfuel : P.even ∨ P.total < s.rest.length + 1 + s.taken := by
    by_cases hP : P.even
    · exact .inl hP
    · have htotal := Lawful.total_eq hP hs
      exact .inr (by omega)
  obtain ⟨hafter, hvalue, hJ⟩ := hpairs (TokenSource.remaining s' + 1) s' hs hlevel
    (fun hP => by rw [Lawful.length_eq hP hs]) (by omega) hfuel hclear
  exact ⟨hafter, hvalue, fun b hb _ _ => hJ b hb⟩

end Pairing

end ScriptLang
