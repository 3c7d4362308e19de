import ScriptLang.Proofs.Parse.Reading

/-!
# A colon in place of the end

What a parser makes of the tokens of a text depends on what stands behind them only
through the next token, and the next token but one.  `Parse.Follows` compares two
parsers, on states that have the same tokens ahead up to the end of the text in the
first one, where the second one has a colon and more (`ParseState.Beside`).  As long
as the first parser raises no error, the second one yields the same value up to a
`view` of it, raises no error either, and stops at the same token.

Both parsers do the same at any token but the last.  At the last one they may
differ: a parser may take a colon, and it may be content with the end of the text.
Neither goes unnoticed, because the first parser then misses a closing token
(`Follows.eatColon`, `Follows.closing`).

`Follows n` speaks of states with fewer than `n` tokens left, and taking a token
lowers the bound.  Loops are bounded by the number of tokens left, which differs
between the two parses, so a turn that asks for another one has to take a token:
`owes` says for which values a parser has to have taken one.
-/

namespace ScriptLang

namespace ParseState

/-- No error is taken back, and no token is put back. -/
structure Onward (s t : ParseState) : Prop where
  errors_le : s.errors.size ≤ t.errors.size
  length_le : t.rest.length ≤ s.rest.length

variable {more : List Lexeme} {s s' t u : ParseState}

theorem Onward.refl (s : ParseState) : s.Onward s := ⟨Nat.le_refl _, Nat.le_refl _⟩

/-- To go on twice is to go on. -/
theorem Onward.trans (h : s.Onward t) (h' : t.Onward u) : s.Onward u :=
  ⟨Nat.le_trans h.errors_le h'.errors_le, Nat.le_trans h'.length_le h.length_le⟩

/-- To take a token is to go on. -/
theorem onward_take (s : ParseState) : s.Onward s.take :=
  ⟨Nat.le_refl _, by simp [take]⟩

/-- No token is taken and no error is raised. -/
structure Still (s t : ParseState) : Prop where
  rest_eq : t.rest = s.rest
  errors_eq : t.errors = s.errors

theorem Still.refl (s : ParseState) : s.Still s := ⟨rfl, rfl⟩

/-- What stands still twice stands still. -/
theorem Still.trans (h : s.Still t) (h' : t.Still u) : s.Still u :=
  ⟨h'.rest_eq.trans h.rest_eq, h'.errors_eq.trans h.errors_eq⟩

/-- Where a parser stands still, the same is ahead. -/
theorem Still.ahead_eq (h : s.Still t) : t.ahead = s.ahead :=
  by rw [ahead, h.rest_eq, ahead]

/-- Where a parser stands still, the next token is the same. -/
theorem Still.lexeme_eq (h : s.Still t) : t.token.lexeme = s.token.lexeme := by
  rw [lexeme_token, lexeme_token, h.ahead_eq]

/-- Where a parser stands still, the next token is of the same kind. -/
theorem Still.kind_eq (h : s.Still t) : t.token.kind = s.token.kind :=
  congrArg Lexeme.kind h.lexeme_eq

/-- To look ahead is to stand still. -/
theorem still_look (m : Nat) (s : ParseState) : s.Still (s.look m) := ⟨rfl, rfl⟩

/-- The tokens ahead of two parses are the same, except that the second one has a
colon and more in place of the end of the text. -/
def Beside (more : List Lexeme) (s s' : ParseState) : Prop :=
  ∃ l, .endOfText ∉ l ∧ s.ahead = l ++ [.endOfText] ∧
    s'.ahead = l ++ .symbol .colon :: more

/-- States beside each other that stand still stay so. -/
theorem Beside.still (h : s.Beside more s') (ht : s.Still t) (hu : s'.Still u) :
    t.Beside more u := by
  obtain ⟨l, hl, hs, hs'⟩ := h
  refine ⟨l, hl, ?_, ?_⟩
  · rw [ht.ahead_eq, hs]
  · rw [hu.ahead_eq, hs']

/-- The end of the text stands beside a colon, and any other token beside itself. -/
theorem Beside.token (h : s.Beside more s') :
    (s.token.kind = .endOfText ∧ s'.token.lexeme = .symbol .colon) ∨
      (s.token.kind ≠ .endOfText ∧ s'.token.lexeme = s.token.lexeme) := by
  obtain ⟨l, hl, hs, hs'⟩ := h
  rw [Token.kind, lexeme_token, lexeme_token, hs, hs']
  cases l with
  | nil => exact .inl ⟨rfl, rfl⟩
  | cons x l =>
      refine .inr ⟨fun hkind => hl ?_, rfl⟩
      cases x with
      | endOfText => exact List.mem_cons_self
      | _ => cases hkind

/-- Before the end of the text, both states see the same kind of token. -/
theorem Beside.kind_eq (h : s.Beside more s') (hend : s.token.kind ≠ .endOfText) :
    s'.token.kind = s.token.kind := by
  rcases h.token with ⟨heq, _⟩ | ⟨_, hlexeme⟩
  · exact absurd heq hend
  · exact congrArg Lexeme.kind hlexeme

/-- Before the end of the text, both states take the same token. -/
theorem Beside.take (h : s.Beside more s') (hend : s.token.kind ≠ .endOfText) :
    s.take.Beside more s'.take := by
  obtain ⟨l, hl, hs, hs'⟩ := h
  cases l with
  | nil =>
      rw [Token.kind, lexeme_token, hs] at hend
      exact absurd rfl hend
  | cons x l =>
      refine ⟨l, fun hmem => hl (List.mem_cons_of_mem x hmem), ?_, ?_⟩
      · rw [ahead_take, hs]
        rfl
      · rw [ahead_take, hs']
        rfl

/-- The state with more behind it has more tokens left. -/
theorem Beside.length_le (h : s.Beside more s') :
    s.rest.length ≤ s'.rest.length := by
  obtain ⟨l, _, hs, hs'⟩ := h
  rw [← length_ahead, ← length_ahead, hs, hs']
  simp

/-- At the end of the text, the colon is next. -/
theorem Beside.ahead_eq (h : s.Beside more s') (hend : s.token.kind = .endOfText) :
    s'.ahead = .symbol .colon :: more := by
  obtain ⟨l, hl, hs, hs'⟩ := h
  cases l with
  | nil => exact hs'
  | cons x l =>
      rw [Token.kind, lexeme_token, hs] at hend
      refine absurd ?_ hl
      cases x with
      | endOfText => exact List.mem_cons_self
      | _ => cases hend

/-- A token that is taken need not be looked at before. -/
theorem take_look (s : ParseState) : (s.look 1).take = s.take := by
  simp only [take, look, token]
  congr 1
  omega

/-- The kind of the token behind the next one. -/
theorem secondKind_eq (s : ParseState) : s.secondKind = s.take.token.kind := by
  unfold secondKind take token
  rcases s.rest with _ | ⟨e, _ | ⟨f, rest⟩⟩ <;> rfl

/-- The kinds behind the next token. -/
theorem Beside.secondKind (h : s.Beside more s')
    (hend : s.token.kind ≠ .endOfText) :
    (s.secondKind = .endOfText ∧ s'.secondKind = .symbol .colon) ∨
      s'.secondKind = s.secondKind := by
  rw [secondKind_eq, secondKind_eq]
  rcases (h.take hend).token with ⟨hkind, hcolon⟩ | ⟨_, hsame⟩
  · exact .inl ⟨hkind, by rw [Token.kind, hcolon]; rfl⟩
  · exact .inr (congrArg Lexeme.kind hsame)

end ParseState

namespace Parse

open ParseState

/-- For no value a token has to have been taken. -/
abbrev free : α → Prop := fun _ => False

/-- A parser follows another one from a state on. -/
def FollowsAt {γ : Type} (more : List Lexeme) (s : ParseState) (p p' : Parse α)
    (view : α → γ) (owes : α → Prop) : Prop :=
  s.Onward (p s).2 ∧ ∀ s', s.Beside more s' → (p s).2.errors.size = s.errors.size →
    ∃ a t a' t', p s = (some a, t) ∧ p' s' = (some a', t') ∧ view a' = view a ∧
      (owes a → t.rest.length < s.rest.length) ∧ t.Beside more t' ∧
        t'.errors = s'.errors

/-- A parser follows another one wherever fewer than `n` tokens are left. -/
def Follows {γ : Type} (more : List Lexeme) (n : Nat) (p p' : Parse α)
    (view : α → γ) (owes : α → Prop) :
    Prop :=
  ∀ s, s.rest.length < n → FollowsAt more s p p' view owes

variable {γ δ : Type} {more : List Lexeme} {n k : Nat} {s : ParseState}
  {p p' : Parse α} {view : α → γ} {owes due : α → Prop}

/-- Where a token was taken for some values, one was taken for fewer of them. -/
theorem FollowsAt.imp (h : FollowsAt more s p p' view owes)
    (hdue : ∀ a, due a → owes a) :
    FollowsAt more s p p' view due := by
  refine ⟨h.1, fun s' hs herrors => ?_⟩
  obtain ⟨a, t, a', t', hrun, hrun', hview, howes, hbeside, herrors'⟩ :=
    h.2 s' hs herrors
  exact ⟨a, t, a', t', hrun, hrun', hview, fun ha => howes (hdue a ha),
    hbeside, herrors'⟩

theorem Follows.imp (h : Follows more n p p' view owes)
    (hdue : ∀ a, due a → owes a) :
    Follows more n p p' view due :=
  fun s hs => (h s hs).imp hdue

/-- A parser that owes nothing may be asked for nothing. -/
theorem Follows.unowed (h : Follows more n p p' view owes) :
    Follows more n p p' view free :=
  h.imp fun _ ha => ha.elim

/-- What is said about more tokens is said about fewer. -/
theorem Follows.anti (h : Follows more n p p' view owes) (hk : k ≤ n) :
    Follows more k p p' view owes :=
  fun s hs => h s (Nat.lt_of_lt_of_le hs hk)

/-! ## Sequences -/

theorem FollowsAt.yield {a a' : α} (hview : view a' = view a) (ha : ¬ owes a) :
    FollowsAt more s (yield a) (yield a') view owes :=
  ⟨Onward.refl s, fun s' hs _ =>
    ⟨a, s, a', s', rfl, rfl, hview, fun h => absurd h ha, hs, rfl⟩⟩

/-- To yield values with the same view. -/
theorem Follows.yield {a a' : α} (hview : view a' = view a) (ha : ¬ owes a) :
    Follows more n (Parse.yield a) (Parse.yield a') view owes :=
  fun _ _ => FollowsAt.yield hview ha

/-- A parser that raises an error is followed by every other one. -/
theorem FollowsAt.of_raised (honward : s.Onward (p s).2)
    (herrors : s.errors.size < (p s).2.errors.size) :
    FollowsAt more s p p' view owes :=
  ⟨honward, fun _ _ h => absurd h (Nat.ne_of_gt herrors)⟩

/-- A parser that yields nothing without raising an error. -/
theorem FollowsAt.of_writesAt (h : WritesAt s p fun _ _ => False) :
    FollowsAt more s p p' view owes := by
  obtain ⟨es, hwalk, hvalue⟩ := h
  refine ⟨⟨hwalk.errors_le, hwalk.length_le⟩, fun s' _ herrors => ?_⟩
  obtain ⟨_, _, hfalse⟩ := hvalue herrors
  exact hfalse.elim

/-- A parser that always raises an error is followed by any other. -/
theorem Follows.noExpression :
    Follows more n (noExpression : Parse α) p' view owes :=
  fun s hs => FollowsAt.of_writesAt (Writes.noExpression s hs)

/-- Two parsers in sequence.  The second one may depend on the state that the first
one left, and owes only what the first one has not taken. -/
theorem FollowsAt.bind {q q' : Parse β} {g g' : β → Parse α} {w : β → δ}
    {paid : β → Prop} (hq : FollowsAt more s q q' w paid)
    (hg : ∀ b b' t, q s = (some b, t) → w b' = w b →
      FollowsAt more t (g b) (g' b') view fun a => owes a ∧ ¬ paid b) :
    FollowsAt more s (q >>= g) (q' >>= g') view owes := by
  obtain ⟨honward, hfollows⟩ := hq
  unfold FollowsAt
  rcases hrun : q s with ⟨_ | b, t⟩
  · rw [hrun] at honward hfollows
    rw [bind_of_none hrun]
    refine ⟨honward, fun s' hs herrors => ?_⟩
    obtain ⟨_, _, _, _, hsome, _⟩ := hfollows s' hs herrors
    cases hsome
  · rw [hrun] at honward hfollows
    rw [bind_of_some hrun]
    replace honward : s.Onward t := honward
    have honward' := (hg b b t hrun rfl).1
    refine ⟨honward.trans honward', fun s' hs herrors => ?_⟩
    -- Errors are never taken back, so neither parser raised one.
    have hle := honward.errors_le
    have hle' := honward'.errors_le
    obtain ⟨_, _, b', t', hsome, hrun', hview, hpaid, hbeside, hkept⟩ :=
      hfollows s' hs (show t.errors.size = s.errors.size by omega)
    cases hsome
    obtain ⟨a, u, a', u', hlast, hlast', hview', howes, hbeside', hkept'⟩ :=
      (hg b b' t hrun hview).2 t' hbeside (by omega)
    refine ⟨a, u, a', u', hlast, ?_, hview', ?_, hbeside', hkept'.trans hkept⟩
    · rw [bind_of_some hrun', hlast']
    · intro ha
      have hlength := honward.length_le
      have hlength' := honward'.length_le
      rw [hlast] at hlength'
      by_cases hb : paid b
      · exact Nat.lt_of_le_of_lt hlength' (hpaid hb)
      · exact Nat.lt_of_lt_of_le (howes ⟨ha, hb⟩) hlength

/-- Of two parsers one after the other, the first one may take the token that is
owed. -/
theorem Follows.bind_paid {q q' : Parse β} {g g' : β → Parse α} {w : β → δ}
    {paid : β → Prop} (hq : Follows more n q q' w paid)
    (hg : ∀ b b', w b' = w b → Follows more n (g b) (g' b') view fun a => owes a ∧
      ¬ paid b) :
    Follows more n (q >>= g) (q' >>= g') view owes := by
  intro s hs
  refine (hq s hs).bind fun b b' t hrun hview => hg b b' hview t ?_
  have hlength := (hq s hs).1.length_le
  rw [hrun] at hlength
  exact Nat.lt_of_le_of_lt hlength hs

/-- Two parsers one after the other. -/
theorem Follows.bind {q q' : Parse β} {g g' : β → Parse α} {w : β → δ}
    {paid : β → Prop} (hq : Follows more n q q' w paid)
    (hg : ∀ b b', w b' = w b → Follows more n (g b) (g' b') view owes) :
    Follows more n (q >>= g) (q' >>= g') view owes :=
  hq.bind_paid fun b b' hview => (hg b b' hview).imp fun _ h => h.1

/-- A parser whose value does not depend on places. -/
theorem Follows.bind_id {q q' : Parse β} {g g' : β → Parse α} {paid : β → Prop}
    (hq : Follows more n q q' id paid)
    (hg : ∀ b, Follows more n (g b) (g' b) view owes) :
    Follows more n (q >>= g) (q' >>= g') view owes :=
  hq.bind fun b b' hb => by
    obtain rfl : b' = b := hb
    exact hg b'

/-- A failure that is caught has raised an error, and behind it only the way onward
matters. -/
theorem FollowsAt.attempt_bind {q q' : Parse β} {g g' : Option β → Parse α}
    {w : β → δ} {paid : β → Prop} (hq : FollowsAt more s q q' w paid)
    (hsome : ∀ b b' t, q s = (some b, t) → w b' = w b →
      FollowsAt more t (g (some b)) (g' (some b')) view fun a => owes a ∧ ¬ paid b)
    (hnone : ∀ t, q s = (none, t) → t.Onward (g none t).2) :
    FollowsAt more s (attempt q >>= g) (attempt q' >>= g') view owes := by
  have hbind : FollowsAt more s (q >>= fun b => g (some b))
      (q' >>= fun b => g' (some b)) view owes :=
    hq.bind hsome
  obtain ⟨honward, hfollows⟩ := hq
  unfold FollowsAt at hbind ⊢
  rcases hrun : q s with ⟨_ | b, t⟩
  · rw [hrun] at honward hfollows
    have hcaught : (attempt q >>= g) s = g none t :=
      bind_of_some (by simp [attempt, hrun])
    have honward' := hnone t hrun
    rw [hcaught]
    refine ⟨honward.trans honward', fun s' hs herrors => ?_⟩
    have hle := honward.errors_le
    have hle' := honward'.errors_le
    obtain ⟨_, _, _, _, hvalue, _⟩ :=
      hfollows s' hs (Nat.le_antisymm (herrors ▸ hle') hle)
    cases hvalue
  · have hcaught : (attempt q >>= g) s = (q >>= fun b => g (some b)) s := by
      rw [bind_of_some hrun]
      exact bind_of_some (by simp [attempt, hrun])
    rw [hcaught]
    refine ⟨hbind.1, fun s' hs herrors => ?_⟩
    obtain ⟨a, u, a', u', hlast, hlast', hrest⟩ := hbind.2 s' hs herrors
    refine ⟨a, u, a', u', hlast, ?_, hrest⟩
    rcases hrun' : q' s' with ⟨_ | b', t'⟩
    · rw [bind_of_none hrun'] at hlast'
      cases hlast'
    · rw [bind_of_some hrun'] at hlast'
      rw [← hlast']
      exact bind_of_some (by simp [attempt, hrun'])

/-- A function of what a parser yields. -/
theorem Follows.map {q q' : Parse β} {w : β → δ} {paid : β → Prop} {f : β → α}
    (hq : Follows more n q q' w paid)
    (hf : ∀ b b', w b' = w b → view (f b') = view (f b)) :
    Follows more n (f <$> q) (f <$> q') view free :=
  Follows.bind (g := fun b => Parse.yield (f b)) hq fun b b' hview =>
    Follows.yield (hf b b' hview) id

/-! ## Places, warnings and errors -/

/-- Two parsers that first do something to the state that takes no token and raises
no error. -/
theorem FollowsAt.still {q q' : Parse α} {t : ParseState} (ht : s.Still t)
    (hrun : q s = p t) (honward : t.Onward (p t).2)
    (h : ∀ s', s.Beside more s' → ∃ p' t', s'.Still t' ∧ q' s' = p' t' ∧
      FollowsAt more t p p' view owes) :
    FollowsAt more s q q' view owes := by
  unfold FollowsAt
  rw [hrun]
  constructor
  · exact ⟨ht.errors_eq ▸ honward.errors_le, ht.rest_eq ▸ honward.length_le⟩
  · intro s' hs herrors
    obtain ⟨p', t', ht', hrun', hfollows⟩ := h s' hs
    rw [← ht.rest_eq, hrun', ← ht'.errors_eq]
    exact hfollows.2 t' (hs.still ht ht') (ht.errors_eq ▸ herrors)

/-- Spans are not compared. -/
theorem Follows.spanFrom {g g' : Span → Parse α} {start start' : Position}
    (hg : ∀ span span', Follows more n (g span) (g' span') view owes) :
    Follows more n (Parse.spanFrom start >>= g) (Parse.spanFrom start' >>= g')
      view owes := by
  intro s hs
  refine FollowsAt.still (Still.refl s) (bind_of_some rfl) (hg _ default s hs).1
    fun s' _ => ?_
  exact ⟨_, s', Still.refl s', bind_of_some rfl, hg _ _ s hs⟩

/-- Places are not compared. -/
theorem Follows.here {g g' : Position → Parse α}
    (hg : ∀ start start', Follows more n (g start) (g' start') view owes) :
    Follows more n (Parse.here >>= g) (Parse.here >>= g') view owes := by
  intro s hs
  refine FollowsAt.still (still_look 1 s) (bind_of_some rfl)
    (hg _ default (s.look 1) hs).1 fun s' _ => ?_
  exact ⟨_, s'.look 1, still_look 1 s', bind_of_some rfl, hg _ _ (s.look 1) hs⟩

/-- The number of tokens taken is not compared. -/
theorem FollowsAt.taken {g g' : Nat → Parse α}
    (hg : ∀ m, FollowsAt more s (g s.taken) (g' m) view owes) :
    FollowsAt more s (Parse.taken >>= g) (Parse.taken >>= g') view owes :=
  ⟨(hg 0).1, fun s' => (hg s'.taken).2 s'⟩

/-- A parser does what another one does, behind some warnings at most. -/
def Remarks (q p : Parse α) : Prop := ∀ s, ∃ t, s.Still t ∧ q s = p t

theorem Remarks.refl (p : Parse α) : Remarks p p := fun s => ⟨s, Still.refl s, rfl⟩

/-- A warning is a remark. -/
theorem Remarks.warn {g : Unit → Parse α} (cause : ParseWarning)
    (position : Position) :
    Remarks (Parse.warn cause position >>= g) (g ()) :=
  fun s => ⟨(Parse.warn cause position s).2, ⟨rfl, rfl⟩, bind_of_some rfl⟩

/-- Warnings are not compared. -/
theorem Follows.remarks {q q' : Parse α} (hq : Remarks q p) (hq' : Remarks q' p')
    (h : Follows more n p p' view owes) : Follows more n q q' view owes := by
  intro s hs
  obtain ⟨t, ht, hrun⟩ := hq s
  have hfollows := h t (ht.rest_eq ▸ hs)
  refine FollowsAt.still ht hrun hfollows.1 fun s' _ => ?_
  obtain ⟨t', ht', hrun'⟩ := hq' s'
  exact ⟨p', t', ht', hrun', hfollows⟩

/-- Behind an error, only the way onward matters. -/
theorem FollowsAt.raise {g : Unit → Parse α} {q' : Parse α} (cause : ParseError)
    (position : Position)
    (hg : ∀ t : ParseState, t.rest = s.rest → FollowsAt more t (g ()) q' view owes) :
    FollowsAt more s (Parse.raise cause position >>= g) p' view owes := by
  let t : ParseState := (Parse.raise cause position s).2
  have honward := (hg t rfl).1
  have hsize : t.errors.size = s.errors.size + 1 := by simp [t, Parse.raise]
  have hle := honward.errors_le
  refine FollowsAt.of_raised ⟨?_, honward.length_le⟩ ?_
  · show s.errors.size ≤ (g () t).2.errors.size
    omega
  · show s.errors.size < (g () t).2.errors.size
    omega

/-- Behind an error nothing is compared. -/
theorem Follows.raise {g : Unit → Parse α} {q' : Parse α} (cause : ParseError)
    (position : Position) (hg : Follows more n (g ()) q' view owes) :
    Follows more n (Parse.raise cause position >>= g) p' view owes :=
  fun _ hs => FollowsAt.raise cause position fun t ht => hg t (ht ▸ hs)

/-! ## Single tokens -/

/-- The next token is the same, or it is the end of the text beside a colon. -/
theorem FollowsAt.peek {g g' : Token → Parse α}
    (hsame : s.token.kind ≠ .endOfText → ∀ t, t.lexeme = s.token.lexeme →
      FollowsAt more (s.look 1) (g s.token) (g' t) view owes)
    (hend : s.token.kind = .endOfText → ∀ t, t.lexeme = .symbol .colon →
      FollowsAt more (s.look 1) (g s.token) (g' t) view owes) :
    FollowsAt more s (Parse.peek >>= g) (Parse.peek >>= g') view owes := by
  by_cases hkind : s.token.kind = .endOfText
  · refine FollowsAt.still (still_look 1 s) (bind_of_some rfl)
      (hend hkind ⟨.symbol .colon, default⟩ rfl).1 fun s' hs => ?_
    rcases hs.token with ⟨_, hcolon⟩ | ⟨hne, _⟩
    · exact ⟨_, s'.look 1, still_look 1 s', bind_of_some rfl,
        hend hkind s'.token hcolon⟩
    · exact absurd hkind hne
  · refine FollowsAt.still (still_look 1 s) (bind_of_some rfl)
      (hsame hkind s.token rfl).1 fun s' hs => ?_
    rcases hs.token with ⟨heq, _⟩ | ⟨_, hlexeme⟩
    · exact absurd heq hkind
    · exact ⟨_, s'.look 1, still_look 1 s', bind_of_some rfl,
        hsame hkind s'.token hlexeme⟩

/-- Both parsers see the same kind of token, or the end of the text and a colon. -/
theorem FollowsAt.peekKind {g g' : TokenKind → Parse α}
    (hsame : s.token.kind ≠ .endOfText → FollowsAt more (s.look 1) (g s.token.kind)
      (g' s.token.kind) view owes)
    (hend : s.token.kind = .endOfText →
      FollowsAt more (s.look 1) (g .endOfText) (g' (.symbol .colon)) view owes) :
    FollowsAt more s (Parse.peekKind >>= g) (Parse.peekKind >>= g') view owes := by
  show FollowsAt more s (Parse.peek >>= fun t => g t.kind)
    (Parse.peek >>= fun t => g' t.kind) view owes
  refine FollowsAt.peek ?_ ?_
  · intro hkind t ht
    have hsameKind : t.kind = s.token.kind := congrArg Lexeme.kind ht
    rw [hsameKind]
    exact hsame hkind
  · intro hkind t ht
    have hcolon : t.kind = .symbol .colon := congrArg Lexeme.kind ht
    rw [hkind, hcolon]
    exact hend hkind

/-- A choice by the kind of the next token. -/
theorem Follows.peekKind {g g' : TokenKind → Parse α}
    (hsame : ∀ kind, kind ≠ .endOfText →
      Follows more n (g kind) (g' kind) view owes)
    (hend : Follows more n (g .endOfText) (g' (.symbol .colon)) view owes) :
    Follows more n (Parse.peekKind >>= g) (Parse.peekKind >>= g') view owes :=
  fun s hs => FollowsAt.peekKind (fun hkind => hsame _ hkind (s.look 1) hs) fun _ =>
    hend (s.look 1) hs

/-- The kind of the token after the next one, which may be the last. -/
theorem FollowsAt.peekSecondKind {g g' : TokenKind → Parse α}
    (hkind : s.token.kind ≠ .endOfText)
    (hsame : FollowsAt more (s.look 2) (g s.secondKind) (g' s.secondKind) view owes)
    (hend : FollowsAt more (s.look 2) (g .endOfText)
      (g' (.symbol .colon)) view owes) :
    FollowsAt more s (Parse.peekSecondKind >>= g) (Parse.peekSecondKind >>= g')
      view owes := by
  refine FollowsAt.still (still_look 2 s) (bind_of_some rfl) hsame.1 fun s' hs => ?_
  refine ⟨g' s'.secondKind, s'.look 2, still_look 2 s', bind_of_some rfl, ?_⟩
  rcases hs.secondKind hkind with ⟨hlast, hlast'⟩ | hsecond
  · rw [hlast, hlast']
    exact hend
  · rw [hsecond]
    exact hsame

/-- Taking a token. -/
theorem FollowsAt.bump_at {g g' : Token → Parse α}
    (hkind : s.token.kind ≠ .endOfText)
    (hg : ∀ t, t.lexeme = s.token.lexeme →
      FollowsAt more s.take (g s.token) (g' t) view free) :
    FollowsAt more s (Parse.bump >>= g) (Parse.bump >>= g') view owes := by
  have honward := (hg s.token rfl).1
  have hless : s.take.rest.length < s.rest.length :=
    length_take_lt (ne_endOfText_of_kind hkind) (Nat.lt_succ_self _)
  refine ⟨(onward_take s).trans honward, fun s' hs herrors => ?_⟩
  rcases hs.token with ⟨heq, _⟩ | ⟨_, hlexeme⟩
  · exact absurd heq hkind
  obtain ⟨a, t, a', t', hrun, hrun', hview, _, hbeside, hkept⟩ :=
    (hg s'.token hlexeme).2 s'.take (hs.take hkind) herrors
  refine ⟨a, t, a', t', hrun, hrun', hview, fun _ => ?_, hbeside, hkept⟩
  have hlength := honward.length_le
  rw [hrun] at hlength
  exact Nat.lt_of_le_of_lt hlength hless

/-- A token that is taken by both parsers. -/
theorem FollowsAt.bump {g g' : Token → Parse α} (hs : s.rest.length < n + 1)
    (hkind : s.token.kind ≠ .endOfText)
    (hg : ∀ t, t.lexeme = s.token.lexeme →
      Follows more n (g s.token) (g' t) view free) :
    FollowsAt more s (Parse.bump >>= g) (Parse.bump >>= g') view owes :=
  FollowsAt.bump_at hkind fun t ht =>
    hg t ht s.take (length_take_lt (ne_endOfText_of_kind hkind) hs)

/-- A token that may be there.  Where it is, nothing is owed any more.  A colon in
place of the end of the text must not be asked for, unless its absence is an
error. -/
theorem FollowsAt.eat {g g' : Bool → Parse α} {kind : TokenKind}
    (hend : kind ≠ .endOfText)
    (hcolon : s.token.kind = .endOfText → kind = .symbol .colon →
      s.errors.size < (g false (s.look 1)).2.errors.size)
    (htrue : s.token.kind = kind →
      FollowsAt more s.take (g true) (g' true) view free)
    (hfalse : FollowsAt more (s.look 1) (g false) (g' false) view owes) :
    FollowsAt more s (Parse.eat kind >>= g) (Parse.eat kind >>= g') view owes := by
  by_cases hkind : s.token.kind = kind
  · have hbump : FollowsAt more (s.look 1) (Parse.bump >>= fun _ => g true)
      (Parse.bump >>= fun _ => g' true)
        view owes := FollowsAt.bump_at (hkind ▸ hend) fun _ _ =>
          take_look s ▸ htrue hkind
    refine FollowsAt.still (still_look 1 s) (eat_bind_of_eq hkind) hbump.1
      fun s' hs => ?_
    have hkind' : s'.token.kind = kind := (hs.kind_eq (hkind ▸ hend)).trans hkind
    exact ⟨_, s'.look 1, still_look 1 s', eat_bind_of_eq hkind', hbump⟩
  · by_cases hraises : s.token.kind = .endOfText ∧ kind = .symbol .colon
    · have hrun : (Parse.eat kind >>= g) s = g false (s.look 1) :=
        eat_bind_of_ne hkind
      have hlength : (g false (s.look 1)).2.rest.length ≤ s.rest.length :=
        hfalse.1.length_le
      have herrors := hcolon hraises.1 hraises.2
      exact FollowsAt.of_raised (hrun ▸ ⟨Nat.le_of_lt herrors, hlength⟩)
        (hrun ▸ herrors)
    · refine FollowsAt.still (still_look 1 s) (eat_bind_of_ne hkind) hfalse.1
        fun s' hs => ?_
      have hkind' : s'.token.kind ≠ kind := by
        rcases hs.token with ⟨heq, hlexeme⟩ | ⟨_, hlexeme⟩
        · exact fun h => hraises ⟨heq, h.symm.trans (congrArg Lexeme.kind hlexeme)⟩
        · exact fun h => hkind ((congrArg Lexeme.kind hlexeme).symm.trans h)
      exact ⟨_, s'.look 1, still_look 1 s', eat_bind_of_ne hkind', hfalse⟩

/-- A token other than a colon that may be there.  Where it is, the bound on the
tokens left is lower. -/
theorem Follows.eat {g g' : Bool → Parse α} {kind : TokenKind}
    (hend : kind ≠ .endOfText) (hcolon : kind ≠ .symbol .colon) (hk : n ≤ k + 1)
    (htrue : Follows more k (g true) (g' true) view free)
    (hfalse : Follows more n (g false) (g' false) view owes) :
    Follows more n (Parse.eat kind >>= g) (Parse.eat kind >>= g') view owes := by
  intro s hs
  refine FollowsAt.eat hend (fun _ h => absurd h hcolon) (fun hkind => ?_)
    (hfalse (s.look 1) hs)
  have hne : s.token.lexeme ≠ .endOfText := ne_endOfText_of_kind (hkind ▸ hend)
  exact htrue s.take (length_take_lt hne (Nat.lt_of_lt_of_le hs hk))

/-- A token that may be there, as a flag. -/
theorem Follows.flag {kind : TokenKind} (hend : kind ≠ .endOfText)
    (hcolon : kind ≠ .symbol .colon) :
    Follows more n (Parse.eat kind) (Parse.eat kind) id free := by
  rw [← bind_yield (Parse.eat kind)]
  refine Follows.eat (k := n) hend hcolon (Nat.le_succ n) ?_ ?_
  · exact Follows.yield rfl not_false
  · exact Follows.yield rfl not_false

/-- A token that has to be there. -/
theorem Follows.expect {kind : TokenKind} (hend : kind ≠ .endOfText) :
    Follows more n (Parse.expect kind) (Parse.expect kind) id fun _ => True := by
  intro s hs
  have hraised : ∀ t : ParseState,
      t.errors.size < (Parse.missed kind t).2.errors.size := by
    intro t
    show t.errors.size < (t.errors.push _).size
    simp
  refine FollowsAt.eat hend (fun _ _ => hraised (s.look 1))
    (fun _ => FollowsAt.yield rfl not_false) ?_
  exact FollowsAt.of_raised ⟨Nat.le_of_lt (hraised (s.look 1)), Nat.le_refl _⟩
    (hraised (s.look 1))

/-- A token that is missed is reported. -/
theorem expect_bind_raises {g : Unit → Parse α} {kind : TokenKind}
    (hkind : s.token.kind ≠ kind)
    (hg : ∀ t : ParseState, t.rest = s.rest → t.Onward (g () t).2) :
    s.errors.size < ((Parse.expect kind >>= g) s).2.errors.size := by
  have hexpect : Parse.expect kind s =
      Parse.raise (.unexpectedToken s.token.kind kind) s.token.span.start
          ((s.look 1).look 1) := by
    unfold Parse.expect
    rw [eat_bind_of_ne hkind]
    rfl
  let t : ParseState :=
    (Parse.raise (.unexpectedToken s.token.kind kind) s.token.span.start
      ((s.look 1).look 1)).2
  have hsize : t.errors.size = s.errors.size + 1 := by simp [t, Parse.raise, look]
  have hle := (hg t rfl).errors_le
  rw [bind_of_some hexpect]
  show s.errors.size < (g () t).2.errors.size
  omega

/-- A token that is expected by both parsers. -/
theorem Follows.expect_bind {g g' : Unit → Parse α} {kind : TokenKind}
    (hend : kind ≠ .endOfText) (hg : Follows more n (g ()) (g' ()) view free) :
    Follows more n (Parse.expect kind >>= g) (Parse.expect kind >>= g') view owes :=
  (Follows.expect hend).bind_paid fun _ _ _ => hg.imp fun _ h => h.2 trivial

/-- A colon that may be there, where another token has to be there if it is not. -/
theorem Follows.eatColon {g g' : Bool → Parse α} {f f' : Unit → Parse α}
    {kind : TokenKind} (hend : kind ≠ .endOfText)
    (hg : g false = Parse.expect kind >>= f)
    (hg' : g' false = Parse.expect kind >>= f')
    (htrue : Follows more n (g true) (g' true) view free)
    (hf : Follows more n (f ()) (f' ()) view free) :
    Follows more n (Parse.eat (.symbol .colon) >>= g)
      (Parse.eat (.symbol .colon) >>= g') view owes := by
  intro s hs
  refine FollowsAt.eat (by simp) (fun hlast _ => ?_) (fun _ => ?_) ?_
  · rw [hg]
    refine expect_bind_raises (s := s.look 1) ?_ fun t ht => (hf t (ht ▸ hs)).1
    exact fun h => hend (h.symm.trans hlast)
  · exact htrue s.take (Nat.lt_of_le_of_lt (onward_take s).length_le hs)
  · rw [hg, hg']
    exact Follows.expect_bind hend hf (s.look 1) hs

/-- A name that is expected by both parsers. -/
theorem Follows.identifier :
    Follows more n Parse.identifier Parse.identifier id fun _ => True := by
  intro s _
  have hmissing : ∀ q', (∀ name, s.token.lexeme ≠ .identifier name) →
    FollowsAt more (s.look 1)
      (Parse.expect .identifier >>= fun _ => (fail : Parse String)) q' id
        fun _ => True := by
    intro q' hother
    refine FollowsAt.of_writesAt (expect_fail_writesAt fun hkind => ?_)
    rw [Token.kind] at hkind
    cases hlexeme : (s.look 1).token.lexeme with
    | identifier name => exact hother name hlexeme
    | _ => rw [hlexeme] at hkind; cases hkind
  refine FollowsAt.peek (fun hkind t ht => ?_) (fun hkind t ht => ?_)
  · rw [ht]
    split
    · exact FollowsAt.bump_at hkind fun _ _ => FollowsAt.yield rfl not_false
    · rename_i hother
      exact hmissing _ hother
  · have hother : ∀ name, s.token.lexeme ≠ .identifier name := by
      intro name hname
      rw [Token.kind, hname] at hkind
      cases hkind
    split
    · rename_i name hname
      exact absurd hname (hother name)
    · exact hmissing _ hother

/-! ## Loops -/

/-- Another turn. -/
def Turn.GoesOn : Turn α → Prop
  | .again _ => True
  | .done _ => False

/-- A turn whose value is viewed. -/
def Turn.viewed (view : α → γ) : Turn α → Turn γ
  | .again a => .again (view a)
  | .done a => .done (view a)

/-- A loop of turns that go on goes on. -/
theorem iterate_onward {step : α → Parse (Turn α)}
    (hstep : ∀ (a : α) (s : ParseState), s.rest.length < n → s.Onward (step a s).2)
    (fuel : Nat) (a : α) (hs : s.rest.length < n) :
    s.Onward (iterate step fuel a s).2 := by
  induction fuel generalizing s a with
  | zero => exact Onward.refl s
  | succ fuel ih =>
      have honward := hstep a s hs
      unfold iterate
      rcases hrun : step a s with ⟨_ | b | b, t⟩
      · rw [hrun] at honward
        exact honward
      · rw [hrun] at honward
        exact honward.trans (ih b (Nat.lt_of_le_of_lt honward.length_le hs))
      · rw [hrun] at honward
        exact honward

/-- A turn that raises an error makes the loop raise one. -/
theorem repeating_raises {step : α → Parse (Turn α)} {a : α}
    (hstep : ∀ (a : α) (s : ParseState), s.rest.length < n → s.Onward (step a s).2)
    (hs : s.rest.length < n) (h : s.errors.size < (step a s).2.errors.size) :
    s.errors.size < (repeating step a s).2.errors.size := by
  have honward := hstep a s hs
  unfold repeating iterate
  rcases hrun : step a s with ⟨_ | b | b, t⟩
  · rw [hrun] at h
    exact h
  · rw [hrun] at h honward
    exact Nat.lt_of_lt_of_le h
      (iterate_onward hstep _ b (Nat.lt_of_le_of_lt honward.length_le hs)).errors_le
  · rw [hrun] at h
    exact h

/-- One turn of a loop.  If the loop is `loose`, it may stop at the end of the text,
and then nothing is said about the other loop. -/
def FollowsTurn (more : List Lexeme) (n : Nat) (loose : Prop)
    (step step' : α → Parse (Turn α)) (view : α → γ) :
    Prop :=
  ∀ a a', view a' = view a → ∀ s, s.rest.length < n →
    (loose ∧ s.token.kind = .endOfText ∧ ∃ b,
      step a s = (some (.done b), s.look 1)) ∨
      FollowsAt more s (step a) (step' a') (Turn.viewed view) Turn.GoesOn

/-- A turn that follows goes on. -/
theorem FollowsTurn.onward {step step' : α → Parse (Turn α)} {loose : Prop}
    (hstep : FollowsTurn more n loose step step' view) (a : α) (s : ParseState)
    (hs : s.rest.length < n) :
    s.Onward (step a s).2 := by
  rcases hstep a a rfl s hs with ⟨_, _, b, hdone⟩ | hfollows
  · rw [hdone]
    exact ⟨Nat.le_refl _, Nat.le_refl _⟩
  · exact hfollows.1

/-- A loop is followed turn by turn. -/
theorem iterate_follows {step step' : α → Parse (Turn α)} {loose : Prop}
    (hstep : FollowsTurn more n loose step step' view) (fuel fuel' : Nat) {a a' : α}
    {s' : ParseState} (hview : view a' = view a) (hs : s.rest.length < n)
    (hbeside : s.Beside more s') (hfuel : s.rest.length < fuel)
    (hfuel' : s.rest.length < fuel')
    (herrors : (iterate step fuel a s).2.errors.size = s.errors.size) :
    (loose ∧ (iterate step fuel a s).1.isSome ∧
      (iterate step fuel a s).2.token.kind = .endOfText) ∨
    ∃ b t b' t', iterate step fuel a s = (some b, t) ∧
      iterate step' fuel' a' s' = (some b', t') ∧
      view b' = view b ∧ t.Beside more t' ∧ t'.errors = s'.errors := by
  induction fuel generalizing s s' a a' fuel' with
  | zero => exact absurd hfuel (Nat.not_lt_zero _)
  | succ fuel ih =>
      obtain ⟨fuel', rfl⟩ : ∃ m, fuel' = m + 1 := ⟨fuel' - 1, by omega⟩
      have honward := hstep.onward a s hs
      unfold iterate at herrors ⊢
      rcases hrun : step a s with ⟨_ | b | b, t⟩
      · rw [hrun] at herrors
        rcases hstep a a' hview s hs with ⟨_, _, b, hdone⟩ | hfollows
        · rw [hrun] at hdone
          cases hdone
        · obtain ⟨_, _, _, _, hsome, _⟩ := hfollows.2 s' hbeside (hrun ▸ herrors)
          rw [hrun] at hsome
          cases hsome
      · rw [hrun] at honward herrors
        replace honward : s.Onward t := honward
        have ht := Nat.lt_of_le_of_lt honward.length_le hs
        have hle := honward.errors_le
        have hle' := (iterate_onward hstep.onward fuel b ht).errors_le
        dsimp only at herrors ⊢
        rcases hstep a a' hview s hs with ⟨_, _, c, hdone⟩ | hfollows
        · rw [hrun] at hdone
          cases hdone
        obtain ⟨turn, _, turn', t', hsome, hrun', hviewed, howes,
            hbeside', hkept⟩ :=
          hfollows.2 s' hbeside (by rw [hrun]; show t.errors.size = _; omega)
        rw [hrun] at hsome
        cases hsome
        -- The turn took a token, so that both loops have turns left.
        have hless : t.rest.length < s.rest.length := howes trivial
        cases turn' with
        | done c => cases hviewed
        | again b' =>
            rcases ih fuel' (Turn.again.inj hviewed) ht
                hbeside' (by omega) (by omega) (by omega) with
              hend | ⟨c, u, c', u', hlast, hlast', hview', hbeside'', hkept'⟩
            · exact .inl hend
            · refine .inr ⟨c, u, c', u', hlast, ?_, hview', hbeside'',
                hkept'.trans hkept⟩
              simp only [hrun', hlast']
      · rw [hrun] at herrors
        rcases hstep a a' hview s hs with ⟨hloose, hend, c, hdone⟩ | hfollows
        · rw [hrun] at hdone
          cases hdone
          exact .inl ⟨hloose, rfl, hend⟩
        · obtain ⟨turn, _, turn', t', hsome, hrun', hviewed, _, hbeside', hkept⟩ :=
            hfollows.2 s' hbeside (hrun ▸ herrors)
          rw [hrun] at hsome
          cases hsome
          cases turn' with
          | again c => cases hviewed
          | done b' =>
              refine .inr ⟨b, t, b', t', rfl, ?_, Turn.done.inj hviewed,
                hbeside', hkept⟩
              simp only [hrun']

/-- Loops follow each other turn by turn, or the first one is content with the end
of the text. -/
theorem repeating_follows {step step' : α → Parse (Turn α)} {loose : Prop}
    (hstep : FollowsTurn more n loose step step' view) {a a' : α} {s' : ParseState}
    (ha : view a' = view a) (hs : s.rest.length < n) (hbeside : s.Beside more s')
    (herrors : (repeating step a s).2.errors.size = s.errors.size) :
    (loose ∧ (repeating step a s).1.isSome ∧
      (repeating step a s).2.token.kind = .endOfText) ∨
    ∃ b t b' t', repeating step a s = (some b, t) ∧
      repeating step' a' s' = (some b', t') ∧
      view b' = view b ∧ t.Beside more t' ∧ t'.errors = s'.errors :=
  iterate_follows hstep _ _ ha hs hbeside (Nat.lt_succ_self _)
    (Nat.lt_succ_of_le hbeside.length_le) herrors

/-- A loop of turns that follow goes on. -/
theorem repeating_onward {step step' : α → Parse (Turn α)} {loose : Prop}
    (hstep : FollowsTurn more n loose step step' view) (a : α)
    (hs : s.rest.length < n) :
    s.Onward (repeating step a s).2 :=
  iterate_onward hstep.onward (s.rest.length + 1) a hs

/-- Loops whose turns all follow. -/
theorem Follows.repeating {step step' : α → Parse (Turn α)}
    (hstep : ∀ a a', view a' = view a →
      Follows more n (step a) (step' a') (Turn.viewed view) Turn.GoesOn)
    {a a' : α} (ha : view a' = view a) :
    Follows more n (repeating step a) (repeating step' a') view free := by
  intro s hs
  have hturn : FollowsTurn more n False step step' view :=
    fun a a' hview s hs => .inr (hstep a a' hview s hs)
  refine ⟨repeating_onward hturn a hs, fun s' hbeside herrors => ?_⟩
  rcases repeating_follows hturn ha hs hbeside herrors with
    hloose | ⟨b, t, b', t', hrun, hrun', hview, hbeside', hkept⟩
  · exact hloose.1.elim
  · exact ⟨b, t, b', t', hrun, hrun', hview, False.elim, hbeside', hkept⟩

/-- A loop that is content with the end of the text, but has a token behind it that
has to be there. -/
theorem Follows.closing {step step' : β → Parse (Turn β)} {w : β → δ}
    {g g' : β → Parse α} {kind : TokenKind}
    (hlast : ∀ b s, s.token.kind = .endOfText → ∃ c,
      step b s = (some (.done c), s.look 1))
    (hstep : ∀ b b', w b' = w b → ∀ s, s.rest.length < n →
      s.token.kind ≠ .endOfText →
      FollowsAt more s (step b) (step' b') (Turn.viewed w) Turn.GoesOn)
    (hend : kind ≠ .endOfText) {b b' : β} (hb : w b' = w b)
    (hg : ∀ b b', w b' = w b → Follows more n (g b) (g' b') view free) :
    Follows more n (Parse.repeating step b >>=
      fun c => Parse.expect kind >>= fun _ => g c)
      (Parse.repeating step' b' >>= fun c => Parse.expect kind >>= fun _ => g' c)
        view owes := by
  intro s hs
  have hturn : FollowsTurn more n True step step' w := by
    intro b b' hview s hs
    by_cases hkind : s.token.kind = .endOfText
    · exact .inl ⟨trivial, hkind, hlast b s hkind⟩
    · exact .inr (hstep b b' hview s hs hkind)
  have honward := repeating_onward hturn b hs
  have hends := fun (s' : ParseState) (h : s.Beside more s') =>
    repeating_follows hturn hb hs h
  unfold FollowsAt
  rcases hrun : Parse.repeating step b s with ⟨_ | c, t⟩
  · rw [hrun] at honward hends
    rw [bind_of_none hrun]
    refine ⟨honward, fun s' hbeside herrors => ?_⟩
    rcases hends s' hbeside herrors with ⟨_, hsome, _⟩ | ⟨_, _, _, _, hsome, _⟩
    · cases hsome
    · cases hsome
  · rw [hrun] at honward hends
    replace honward : s.Onward t := honward
    rw [bind_of_some hrun]
    have ht := Nat.lt_of_le_of_lt honward.length_le hs
    have hnext : ∀ c', w c' = w c →
      FollowsAt more t (Parse.expect kind >>= fun _ => g c)
        (Parse.expect kind >>= fun _ => g' c') view fun _ => True :=
      fun c' hview => Follows.expect_bind hend (hg c c' hview) t ht
    have honward' := (hnext c rfl).1
    refine ⟨honward.trans honward', fun s' hbeside herrors => ?_⟩
    have hle := honward.errors_le
    have hle' := honward'.errors_le
    rcases hends s' hbeside (show t.errors.size = s.errors.size by omega) with
      ⟨_, _, hkind⟩ | ⟨_, _, c', t', hsome, hrun', hview, hbeside', hkept⟩
    · -- The loop ended with the text, where the token behind it is missed.
      replace hkind : t.token.kind = .endOfText := hkind
      have hraises :=
        expect_bind_raises (s := t) (g := fun _ => g c) (hkind ▸ hend.symm)
        fun u hu => (hg c c rfl u (hu ▸ ht)).1
      omega
    · cases hsome
      obtain ⟨a, u, a', u', hrun'', hrun''', hview', howes, hbeside'', hkept'⟩ :=
        (hnext c' hview).2 t' hbeside' (by omega)
      refine ⟨a, u, a', u', hrun'', ?_, hview', fun _ => ?_, hbeside'',
        hkept'.trans hkept⟩
      · rw [bind_of_some hrun', hrun''']
      · exact Nat.lt_of_lt_of_le (howes trivial) honward.length_le

end Parse

end ScriptLang
