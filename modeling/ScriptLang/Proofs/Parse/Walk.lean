import ScriptLang.Parse.State

/-!
# What parsers do to the state

A parser walks: it takes some of the tokens that are left, in order and never the
end of the text, never looks further than one token past what it has taken, and only
adds to the errors (`ParseState.Walk`).  This holds whatever the outcome.  A parser
that raised no error has in addition a value, and the tokens it took are related to
that value; `Parse.Writes` is this second half together with the walk.

The relation is built up along the parser.  Behind the first of two parsers,
`Parse.Writes.bind` asks the second one for a relation in which what the first one
took is still open, so that the walk of the second never depends on what the first
one wrote.

`Writes n` speaks of states with fewer than `n` tokens left.  Taking a token lowers
the bound by one, which is what the rules of a recursive grammar live on.
-/

namespace ScriptLang

namespace ParseState

/-- The place right after the last of some tokens, or the given one. -/
def endOf (es : List Entry) (otherwise : Position) : Position :=
  (es.getLast?.map fun e => e.token.span.stop).getD otherwise

/-- Tokens end where the last of them end. -/
theorem endOf_append (es fs : List Entry) (otherwise : Position) :
    endOf (es ++ fs) otherwise = endOf fs (endOf es otherwise) := by
  cases hfs : fs.getLast? with
  | none => simp [endOf, List.getLast?_append, hfs]
  | some f => simp [endOf, List.getLast?_append, hfs]

/-- A walk takes the tokens `es`. -/
structure Walk (s : ParseState) (es : List Entry) (s' : ParseState) : Prop where
  entries_eq : s'.entries = s.entries
  rest_eq : s.rest = es ++ s'.rest
  taken_eq : s'.taken = s.taken + es.length
  previousEnd_eq : s'.previousEnd = endOf es s.previousEnd
  errors_le : s.errors.size ≤ s'.errors.size
  seen_le : s.seen ≤ s'.seen
  /-- Everything that was taken has been looked at. -/
  seen_taken : s.taken ≤ s.seen → s'.taken ≤ s'.seen
  /-- No walk leaves more than one token looked at and not taken, unless it started
  so. -/
  seen_ahead : s'.seen ≤ max s.seen (s'.taken + 1)
  /-- No walk takes the end of the text. -/
  kind_ne : ∀ e ∈ es, e.token.kind ≠ .endOfText

variable {s s' s'' : ParseState} {es fs : List Entry}

theorem Walk.refl (s : ParseState) : s.Walk [] s where
  entries_eq := rfl
  rest_eq := rfl
  taken_eq := rfl
  previousEnd_eq := rfl
  errors_le := Nat.le_refl _
  seen_le := Nat.le_refl _
  seen_taken := id
  seen_ahead := Nat.le_max_left _ _
  kind_ne := fun _ h => nomatch h

/-- Walks that follow each other are a walk. -/
theorem Walk.trans (h : s.Walk es s') (h' : s'.Walk fs s'') :
    s.Walk (es ++ fs) s'' where
  entries_eq := h'.entries_eq.trans h.entries_eq
  rest_eq := by rw [h.rest_eq, h'.rest_eq, List.append_assoc]
  taken_eq := by rw [h'.taken_eq, h.taken_eq, List.length_append, Nat.add_assoc]
  previousEnd_eq := by rw [h'.previousEnd_eq, h.previousEnd_eq, endOf_append]
  errors_le := Nat.le_trans h.errors_le h'.errors_le
  seen_le := Nat.le_trans h.seen_le h'.seen_le
  seen_taken hs := h'.seen_taken (h.seen_taken hs)
  seen_ahead := by
    have hbehind := h'.taken_eq
    have hfirst := h.seen_ahead
    have hsecond := h'.seen_ahead
    omega
  kind_ne := fun e he => (List.mem_append.mp he).elim (h.kind_ne e) (h'.kind_ne e)

/-- A walk does not add tokens. -/
theorem Walk.length_le (h : s.Walk es s') : s'.rest.length ≤ s.rest.length := by
  rw [h.rest_eq, List.length_append]
  omega

theorem Walk.look (s : ParseState) : s.Walk [] (s.look 1) where
  entries_eq := rfl
  rest_eq := rfl
  taken_eq := rfl
  previousEnd_eq := rfl
  errors_le := Nat.le_refl _
  seen_le := Nat.le_max_left _ _
  seen_taken := fun hs => Nat.le_trans hs (Nat.le_max_left _ _)
  seen_ahead := Nat.le_refl _
  kind_ne := fun _ h => nomatch h

/-- A walk that takes a token may look two tokens ahead first. -/
theorem Walk.of_look_two (h : (s.look 2).Walk es s')
    (htaken : s.taken < s'.taken) : s.Walk es s' where
  entries_eq := h.entries_eq
  rest_eq := h.rest_eq
  taken_eq := h.taken_eq
  previousEnd_eq := h.previousEnd_eq
  errors_le := h.errors_le
  seen_le := Nat.le_trans (Nat.le_max_left _ _) h.seen_le
  seen_taken hs := h.seen_taken (Nat.le_trans hs (Nat.le_max_left _ _))
  seen_ahead := by
    have hahead := h.seen_ahead
    simp only [ParseState.look] at hahead
    omega
  kind_ne := h.kind_ne

/-- There is a token to take unless the next one is the end of the text. -/
theorem exists_cons_of_token (h : s.token.kind ≠ .endOfText) :
    ∃ e rest, s.rest = e :: rest ∧ s.token = e.token := by
  unfold token at h ⊢
  cases hrest : s.rest with
  | nil =>
      rw [hrest] at h
      exact absurd rfl h
  | cons e rest => exact ⟨e, rest, rfl, rfl⟩

/-- Taking a token leaves fewer of them. -/
theorem length_take_lt {n : Nat} (h : s.token.lexeme ≠ .endOfText)
    (hs : s.rest.length < n + 1) :
    s.take.rest.length < n := by
  have hrest : s.rest ≠ [] := by
    intro hnil
    exact h (by simp [token, hnil])
  have hlength := List.length_pos_iff.mpr hrest
  simp only [take, List.length_tail]
  omega

@[simp] theorem token_look (n : Nat) (s : ParseState) :
    (s.look n).token = s.token := rfl

/-- A walk that takes nothing leaves the next token where it is. -/
theorem Walk.token_eq (h : s.Walk [] s') (hend : s.token.kind ≠ .endOfText) :
    s'.token = s.token := by
  obtain ⟨e, rest, hrest, htoken⟩ := exists_cons_of_token hend
  have hrest' : s'.rest = e :: rest := by
    rw [← hrest, h.rest_eq, List.nil_append]
  rw [htoken]
  simp only [token, hrest']

/-- To take a token that is not the end of the text is a walk. -/
theorem Walk.take (h : s.token.kind ≠ .endOfText) :
    ∃ e, s.Walk [e] s.take ∧ e.token = s.token := by
  obtain ⟨e, rest, hrest, htoken⟩ := exists_cons_of_token h
  refine ⟨e, ⟨rfl, ?_, rfl, ?_, Nat.le_refl _, Nat.le_max_left _ _, ?_, ?_, ?_⟩,
    htoken.symm⟩
  · simp [ParseState.take, hrest]
  · simp [ParseState.take, endOf, htoken]
  · intro _
    exact Nat.le_max_right _ _
  · simp only [ParseState.take]
    omega
  · intro f hf
    rwa [List.mem_singleton.mp hf, ← htoken]

end ParseState

namespace Parse

open ParseState

/-- A parser walks from a state, and if it raises no error it has a value that is
related to the tokens it took. -/
def WritesAt (s : ParseState) (p : Parse α) (W : α → List Lexeme → Prop) : Prop :=
  ∃ es, s.Walk es (p s).2 ∧ ((p s).2.errors.size = s.errors.size →
    ∃ a, (p s).1 = some a ∧ W a (es.map fun e => e.token.lexeme))

/-- A parser that does so from every state with fewer than `n` tokens left. -/
def Writes (n : Nat) (p : Parse α) (W : α → List Lexeme → Prop) : Prop :=
  ∀ s, s.rest.length < n → WritesAt s p W

variable {s : ParseState} {n k : Nat} {W : α → List Lexeme → Prop}
  {V : β → List Lexeme → Prop}

/-- What is said about more tokens is said about fewer. -/
theorem Writes.anti {p : Parse α} (h : Writes n p W) (hk : k ≤ n) : Writes k p W :=
  fun s hs => h s (Nat.lt_of_lt_of_le hs hk)

/-- What is known about a value and its tokens can be weakened. -/
theorem WritesAt.imp {p : Parse α} {W' : α → List Lexeme → Prop}
    (h : WritesAt s p W) (himp : ∀ a l, W a l → W' a l) : WritesAt s p W' := by
  obtain ⟨es, hwalk, hvalue⟩ := h
  refine ⟨es, hwalk, ?_⟩
  intro herrors
  obtain ⟨a, ha, hW⟩ := hvalue herrors
  exact ⟨a, ha, himp a _ hW⟩

theorem Writes.imp {p : Parse α} {W' : α → List Lexeme → Prop} (h : Writes n p W)
    (himp : ∀ a l, W a l → W' a l) : Writes n p W' :=
  fun s hs => (h s hs).imp himp

/-! ## Sequences -/

/-- A parser that yields hands its value on. -/
theorem bind_of_some {p : Parse β} {f : β → Parse α} {b : β} {s' : ParseState}
    (h : p s = (some b, s')) : (p >>= f) s = f b s' := by
  show andThen p f s = f b s'
  rw [andThen, h]

/-- A parser that fails has failed. -/
theorem bind_of_none {p : Parse β} {f : β → Parse α} {s' : ParseState}
    (h : p s = (none, s')) : (p >>= f) s = (none, s') := by
  show andThen p f s = (none, s')
  rw [andThen, h]

/-- To yield what is yielded is to do nothing. -/
theorem bind_yield (p : Parse α) : (p >>= yield) = p := by
  funext s
  show andThen p yield s = p s
  unfold andThen
  rcases p s with ⟨_ | a, s'⟩ <;> rfl

/-- Two parsers in sequence, where the second one may depend on the state that the
first one left. -/
theorem WritesAt.bind {p : Parse β} {f : β → Parse α} (hp : WritesAt s p V)
    (hf : ∀ b s' es, p s = (some b, s') → s.Walk es s' →
      WritesAt s' (f b) fun a l => ∀ l₀, V b l₀ → W a (l₀ ++ l)) :
    WritesAt s (p >>= f) W := by
  obtain ⟨es, hwalk, hvalue⟩ := hp
  unfold WritesAt
  rcases hrun : p s with ⟨result, s'⟩
  rw [hrun] at hwalk hvalue
  cases result with
  | none =>
      rw [bind_of_none hrun]
      refine ⟨es, hwalk, ?_⟩
      intro herrors
      obtain ⟨b, hb, _⟩ := hvalue herrors
      cases hb
  | some b =>
      rw [bind_of_some hrun]
      obtain ⟨fs, hwalk', hvalue'⟩ := hf b s' es hrun hwalk
      refine ⟨es ++ fs, hwalk.trans hwalk', ?_⟩
      intro herrors
      -- Errors only grow, so neither parser raised one.
      have hle : s.errors.size ≤ s'.errors.size := hwalk.errors_le
      have hle' := hwalk'.errors_le
      obtain ⟨b', hb, hV⟩ := hvalue (show s'.errors.size = s.errors.size by omega)
      cases hb
      obtain ⟨a, ha, hW⟩ := hvalue' (by omega)
      refine ⟨a, ha, ?_⟩
      rw [List.map_append]
      exact hW _ hV

/-- Parsers one after the other write one after the other. -/
theorem Writes.bind {p : Parse β} {f : β → Parse α} (hp : Writes n p V)
    (hf : ∀ b, Writes n (f b) fun a l => ∀ l₀, V b l₀ → W a (l₀ ++ l)) :
    Writes n (p >>= f) W :=
  fun s hs => (hp s hs).bind fun b s' _ _ hwalk =>
    hf b s' (Nat.lt_of_le_of_lt hwalk.length_le hs)

theorem WritesAt.yield {a : α} (h : W a []) : WritesAt s (yield a) W :=
  ⟨[], Walk.refl s, fun _ => ⟨a, rfl, h⟩⟩

theorem Writes.yield {a : α} (h : W a []) : Writes n (Parse.yield a) W :=
  fun _ _ => WritesAt.yield h

/-- A value that is there already takes no tokens. -/
theorem Writes.pure_bind {b : β} {f : β → Parse α} (hf : Writes n (f b) W) :
    Writes n (pure b >>= f) W := hf

/-- A parser that raised an error owes nothing but its walk. -/
theorem WritesAt.of_raised {p : Parse α} (es : List Entry)
    (hwalk : s.Walk es (p s).2)
    (herrors : s.errors.size < (p s).2.errors.size) : WritesAt s p W :=
  ⟨es, hwalk, fun h => absurd h (Nat.ne_of_gt herrors)⟩

/-- A parser that first does something to the state that takes no token and raises
no error. -/
theorem WritesAt.after {p q : Parse α} {s' : ParseState} (hrun : q s = p s')
    (hwalk : s.Walk [] s') (herrors : s'.errors.size = s.errors.size)
    (hp : WritesAt s' p W) : WritesAt s q W := by
  obtain ⟨es, hwalk', hvalue⟩ := hp
  refine ⟨es, ?_, ?_⟩
  · rw [hrun]
    exact hwalk.trans hwalk'
  · rw [hrun, ← herrors]
    exact hvalue

/-- A function of what a parser yields. -/
theorem Writes.map {p : Parse β} {g : β → α} (hp : Writes n p V)
    (h : ∀ b l, V b l → W (g b) l) :
    Writes n (g <$> p) W := by
  refine Writes.bind (p := p) (f := fun b => Parse.yield (g b)) hp fun b =>
    Writes.yield ?_
  intro l hV
  rw [List.append_nil]
  exact h b l hV

/-- A failure that is caught has raised an error. -/
theorem WritesAt.attempt {p : Parse α} (hp : WritesAt s p W) :
    WritesAt s (Parse.attempt p) fun o l => ∃ a, o = some a ∧ W a l := by
  obtain ⟨es, hwalk, hvalue⟩ := hp
  refine ⟨es, hwalk, ?_⟩
  intro herrors
  obtain ⟨a, ha, hW⟩ := hvalue herrors
  exact ⟨some a, by simp [Parse.attempt, ha], a, rfl, hW⟩

/-! ## Looking and taking -/

/-- To look at the next token. -/
theorem WritesAt.peek {f : Token → Parse α}
    (hf : WritesAt (s.look 1) (f s.token) W) :
    WritesAt s (Parse.peek >>= f) W :=
  WritesAt.after (bind_of_some rfl) (Walk.look s) rfl hf

/-- To look at the kind of the next token. -/
theorem WritesAt.peekKind {f : TokenKind → Parse α}
    (hf : WritesAt (s.look 1) (f s.token.kind) W) :
    WritesAt s (Parse.peekKind >>= f) W :=
  WritesAt.after (bind_of_some rfl) (Walk.look s) rfl hf

/-- To ask for the number of tokens taken. -/
theorem WritesAt.taken {f : Nat → Parse α} (hf : WritesAt s (f s.taken) W) :
    WritesAt s (Parse.taken >>= f) W :=
  WritesAt.after (bind_of_some rfl) (Walk.refl s) rfl hf

theorem ne_endOfText_of_kind {t : Token} (h : t.kind ≠ .endOfText) :
    t.lexeme ≠ .endOfText := by
  intro hlexeme
  exact h (by rw [Token.kind, hlexeme]; rfl)

/-- Taking the next token. -/
theorem WritesAt.bump_at {f : Token → Parse α} {x : Lexeme}
    (hx : s.token.lexeme = x) (hend : x ≠ .endOfText)
    (hf : WritesAt s.take (f s.token) fun a l => W a (x :: l)) :
    WritesAt s (Parse.bump >>= f) W := by
  have hkind : s.token.kind ≠ .endOfText := by
    rw [Token.kind, hx]
    cases x with
    | endOfText => exact absurd rfl hend
    | _ => exact nofun
  obtain ⟨e, hwalk, htoken⟩ := Walk.take hkind
  obtain ⟨es, hwalk', hvalue⟩ := hf
  have hrun : (Parse.bump >>= f) s = f s.token s.take := bind_of_some rfl
  unfold WritesAt
  rw [hrun]
  refine ⟨[e] ++ es, hwalk.trans hwalk', ?_⟩
  intro herrors
  obtain ⟨a, ha, hW⟩ := hvalue herrors
  refine ⟨a, ha, ?_⟩
  rw [List.map_append, List.map_singleton, htoken, hx]
  exact hW

/-- Taking the next token lowers the bound on the tokens left. -/
theorem WritesAt.bump {f : Token → Parse α} {x : Lexeme} (hx : s.token.lexeme = x)
    (hend : x ≠ .endOfText) (hs : s.rest.length < n + 1)
    (hf : Writes n (f s.token) fun a l => W a (x :: l)) :
    WritesAt s (Parse.bump >>= f) W := by
  exact WritesAt.bump_at hx hend (hf s.take (length_take_lt (hx ▸ hend) hs))

/-- No token is put back. -/
theorem WritesAt.taken_le {p : Parse α} (h : WritesAt s p W) :
    s.taken ≤ (p s).2.taken := by
  obtain ⟨es, hwalk, _⟩ := h
  rw [hwalk.taken_eq]
  exact Nat.le_add_right _ _

/-- A parser that takes a token may look two tokens ahead first. -/
theorem WritesAt.after_look_two {p q : Parse α} (hrun : q s = p (s.look 2))
    (hp : WritesAt (s.look 2) p W) (htaken : s.taken < (p (s.look 2)).2.taken) :
    WritesAt s q W := by
  obtain ⟨es, hwalk, hvalue⟩ := hp
  refine ⟨es, ?_, ?_⟩
  · rw [hrun]
    exact hwalk.of_look_two htaken
  · rw [hrun]
    exact hvalue

end Parse

/-- The only lexeme of a kind of token that carries no content. -/
def TokenKind.lexeme? : TokenKind → Option Lexeme
  | .keyword word => some (.keyword word)
  | .symbol sign => some (.symbol sign)
  | _ => none

/-- Every kind of token once. -/
def TokenKind.all : List TokenKind :=
  [.endOfText, .unknown, .identifier, .integer, .float, .string, .lineComment,
    .blockComment] ++
    Keyword.all.map .keyword ++ Symbol.all.map .symbol

theorem TokenKind.mem_all (kind : TokenKind) : kind ∈ all := by
  cases kind with
  | keyword word => cases word <;> decide
  | symbol sign => cases sign <;> decide
  | _ => decide

instance (P : TokenKind → Prop) [DecidablePred P] : Decidable (∀ kind, P kind) :=
  decidable_of_iff (∀ kind ∈ TokenKind.all, P kind)
    ⟨fun h k => h k k.mem_all, fun h k _ => h k⟩

/-- Where a kind has one lexeme only, the kind determines it. -/
theorem Lexeme.eq_of_kind {x y : Lexeme} {kind : TokenKind} (hx : x.kind = kind)
    (hy : kind.lexeme? = some y) : x = y := by
  subst hx
  cases x <;> cases hy <;> rfl

/-- The end of the text has no lexeme of its own. -/
theorem TokenKind.ne_endOfText_of_lexeme? {kind : TokenKind} {x : Lexeme}
    (h : kind.lexeme? = some x) :
    x ≠ .endOfText := by
  cases kind <;> cases h <;> simp

namespace Parse

open ParseState

variable {s : ParseState} {n k : Nat} {W : α → List Lexeme → Prop}
  {V : β → List Lexeme → Prop}

/-- A token of the kind is taken. -/
theorem eat_bind_of_eq {f : Bool → Parse α} {kind : TokenKind}
    (h : s.token.kind = kind) :
    (eat kind >>= f) s = (Parse.bump >>= fun _ => f true) (s.look 1) := by
  have heat : eat kind s = (some true, (s.look 1).take) := by
    show (if s.token.kind = kind then _ else _ : Parse Bool) (s.look 1) = _
    rw [if_pos h]
    rfl
  rw [bind_of_some heat]
  rfl

/-- A token of another kind is left. -/
theorem eat_bind_of_ne {f : Bool → Parse α} {kind : TokenKind}
    (h : s.token.kind ≠ kind) :
    (eat kind >>= f) s = f false (s.look 1) := by
  have heat : eat kind s = (some false, s.look 1) := by
    show (if s.token.kind = kind then _ else _ : Parse Bool) (s.look 1) = _
    rw [if_neg h]
    rfl
  exact bind_of_some heat

/-- A token that may be there.  Where it is, the bound on the tokens left is
lower. -/
theorem Writes.eat {f : Bool → Parse α} {kind : TokenKind} {x : Lexeme}
    (hx : kind.lexeme? = some x) (hk : n ≤ k + 1)
    (htrue : Writes k (f true) fun a l => W a (x :: l))
    (hfalse : Writes n (f false) W) : Writes n (Parse.eat kind >>= f) W := by
  intro s hs
  by_cases hkind : s.token.kind = kind
  · apply WritesAt.after (eat_bind_of_eq hkind) (Walk.look s) rfl
    refine WritesAt.bump ?_ (TokenKind.ne_endOfText_of_lexeme? hx)
      (Nat.lt_of_lt_of_le hs hk) htrue
    exact Lexeme.eq_of_kind hkind hx
  · exact WritesAt.after (eat_bind_of_ne hkind) (Walk.look s) rfl
      (hfalse (s.look 1) hs)

/-- A token that may be there, as a flag. -/
theorem Writes.flag {kind : TokenKind} {x : Lexeme} (hx : kind.lexeme? = some x) :
    Writes n (Parse.eat kind) fun b l => l = if b then [x] else [] := by
  rw [← bind_yield (Parse.eat kind)]
  refine Writes.eat (k := n) hx (Nat.le_succ n) ?_ ?_
  · exact Writes.yield rfl
  · exact Writes.yield rfl

/-- A look at the next token that nothing depends on. -/
theorem Writes.peekKind {f : TokenKind → Parse α}
    (hf : ∀ kind, Writes n (f kind) W) :
    Writes n (Parse.peekKind >>= f) W :=
  fun s hs => WritesAt.peekKind (hf _ (s.look 1) hs)

/-! ## Reports -/

theorem Walk.raise (s : ParseState) (cause : ParseError) (position : Position) :
    s.Walk [] (Parse.raise cause position s).2 :=
  { Walk.refl s with errors_le := by simp [Parse.raise] }

/-- Behind an error only the walk matters. -/
theorem Writes.raise {f : Unit → Parse α} {W' : α → List Lexeme → Prop}
    (cause : ParseError) (position : Position) (hf : Writes n (f ()) W') :
    Writes n (Parse.raise cause position >>= f) W := by
  intro s hs
  obtain ⟨es, hwalk, _⟩ := hf (Parse.raise cause position s).2 hs
  have hrun : (Parse.raise cause position >>= f) s =
      f () (Parse.raise cause position s).2 :=
    bind_of_some rfl
  refine WritesAt.of_raised ([] ++ es) ?_ ?_
  · rw [hrun]
    exact (Walk.raise s cause position).trans hwalk
  · rw [hrun]
    refine Nat.lt_of_lt_of_le ?_ hwalk.errors_le
    simp [Parse.raise]

/-- Warnings write nothing. -/
theorem Writes.warn {f : Unit → Parse α} (cause : ParseWarning)
    (position : Position) (hf : Writes n (f ()) W) :
    Writes n (Parse.warn cause position >>= f) W :=
  fun s hs => WritesAt.after (bind_of_some rfl) { Walk.refl s with } rfl (hf _ hs)

/-- Spans do not matter. -/
theorem Writes.spanFrom {f : Span → Parse α} {start : Position}
    (hf : ∀ span, Writes n (f span) W) :
    Writes n (Parse.spanFrom start >>= f) W :=
  fun s hs => WritesAt.after (bind_of_some rfl) (Walk.refl s) rfl (hf _ s hs)

/-- Places do not matter. -/
theorem Writes.here {f : Position → Parse α}
    (hf : ∀ position, Writes n (f position) W) :
    Writes n (Parse.here >>= f) W :=
  fun s hs => WritesAt.after (bind_of_some rfl) (Walk.look s) rfl
    (hf _ (s.look 1) hs)

/-- Reporting the next token and giving up. -/
theorem raise_fail_writesAt (cause : ParseError) (position : Position) :
    WritesAt s (Parse.raise cause position >>= fun _ => (fail : Parse α)) W := by
  have hrun : (Parse.raise cause position >>= fun _ => (fail : Parse α)) s =
      (none, (Parse.raise cause position s).2) := bind_of_some rfl
  refine WritesAt.of_raised [] ?_ ?_
  · rw [hrun]
    exact Walk.raise s cause position
  · rw [hrun]
    simp [Parse.raise]

/-- Where an expression is missing, nothing is said. -/
theorem Writes.noExpression : Writes n (noExpression : Parse α) W :=
  fun _ _ => WritesAt.peek (raise_fail_writesAt _ _)

/-- A token that has to be there. -/
theorem Writes.expect {kind : TokenKind} {x : Lexeme} (hx : kind.lexeme? = some x) :
    Writes n (Parse.expect kind) fun _ l => l = [x] := by
  refine Writes.eat (k := n) hx (Nat.le_succ n) ?_ ?_
  · exact Writes.yield rfl
  · intro s _
    refine WritesAt.peek (WritesAt.of_raised [] (Walk.raise _ _ _) ?_)
    simp [Parse.raise]

/-- A token that has to be there, with something behind it. -/
theorem Writes.expect_bind {f : Unit → Parse α} {kind : TokenKind} {x : Lexeme}
    (hx : kind.lexeme? = some x) (hf : Writes n (f ()) fun a l => W a (x :: l)) :
    Writes n (Parse.expect kind >>= f) W := by
  refine (Writes.expect hx).bind fun _ => hf.imp ?_
  intro a l hW l₀ hl₀
  rw [hl₀]
  exact hW

/-- Asking for a token that is not there and giving up. -/
theorem expect_fail_writesAt {kind : TokenKind} (h : s.token.kind ≠ kind) :
    WritesAt s (Parse.expect kind >>= fun _ => (fail : Parse α)) W := by
  have hexpect : Parse.expect kind s =
      Parse.raise (.unexpectedToken s.token.kind kind) s.token.span.start
          ((s.look 1).look 1) := by
    unfold Parse.expect
    rw [eat_bind_of_ne h]
    rfl
  have hwalk := ((Walk.look s).trans (Walk.look (s.look 1))).trans
    (Walk.raise ((s.look 1).look 1) (.unexpectedToken s.token.kind kind)
      s.token.span.start)
  have hrun := bind_of_some (f := fun _ => (fail : Parse α)) hexpect
  refine WritesAt.of_raised [] ?_ ?_
  · rw [hrun]
    exact hwalk
  · rw [hrun]
    simp [fail, ParseState.look]

/-- A name is written as its token. -/
theorem Writes.identifier :
    Writes n Parse.identifier fun name l => l = [.identifier name] := by
  intro s hs
  apply WritesAt.peek
  split
  · rename_i name hname
    exact WritesAt.bump hname (by simp) (Nat.lt_succ_of_lt hs) (Writes.yield rfl)
  · rename_i hother
    have hkind : (s.look 1).token.kind ≠ .identifier := by
      intro hkind
      unfold Token.kind at hkind
      cases hlexeme : (s.look 1).token.lexeme with
      | identifier name => exact hother name hlexeme
      | _ => rw [hlexeme] at hkind; cases hkind
    exact expect_fail_writesAt hkind

/-! ## Loops -/

/-- What a turn of a loop adds to an accumulated value `a`: another turn takes a
token and keeps the relation `J`, and the last one ends with `W`. -/
def TurnWrites (J W : α → List Lexeme → Prop) (a : α) : Turn α → List Lexeme → Prop
  | .again b, l => l ≠ [] ∧ ∀ l₀, J a l₀ → J b (l₀ ++ l)
  | .done b, l => ∀ l₀, J a l₀ → W b (l₀ ++ l)

/-- A loop walks whatever its turns do, and with more turns allowed than there are
tokens it ends by itself: a turn without errors that asks for another one has taken
a token. -/
theorem iterate_walk {step : α → Parse (Turn α)} {J : α → List Lexeme → Prop}
    (hstep : ∀ a, Writes n (step a) (TurnWrites J W a)) (fuel : Nat) (a : α)
    (hs : s.rest.length < n) :
    ∃ es, s.Walk es (iterate step fuel a s).2 ∧ (s.rest.length < fuel →
      (iterate step fuel a s).2.errors.size = s.errors.size →
      ∃ b, (iterate step fuel a s).1 = some b ∧
        ∀ l₀, J a l₀ → W b (l₀ ++ es.map fun e => e.token.lexeme)) := by
  induction fuel generalizing s a with
  | zero => exact ⟨[], Walk.refl s, fun hfuel => absurd hfuel (Nat.not_lt_zero _)⟩
  | succ fuel ih =>
      obtain ⟨es, hwalk, hvalue⟩ := hstep a s hs
      unfold iterate
      rcases hrun : step a s with ⟨result, s'⟩
      rw [hrun] at hwalk hvalue
      replace hwalk : s.Walk es s' := hwalk
      have hle := hwalk.errors_le
      rcases result with _ | turn
      · refine ⟨es, hwalk, ?_⟩
        intro _ herrors
        obtain ⟨b, hb, _⟩ := hvalue herrors
        cases hb
      · cases turn with
        | done b =>
            refine ⟨es, hwalk, ?_⟩
            intro _ herrors
            obtain ⟨turn, hturn, hW⟩ := hvalue herrors
            cases hturn
            exact ⟨b, rfl, hW⟩
        | again b =>
            obtain ⟨fs, hwalk', hvalue'⟩ :=
              ih b (Nat.lt_of_le_of_lt hwalk.length_le hs)
            refine ⟨es ++ fs, hwalk.trans hwalk', ?_⟩
            intro hfuel herrors
            dsimp only at herrors ⊢
            have hle' := hwalk'.errors_le
            obtain ⟨turn, hturn, hkeeps⟩ :=
              hvalue (show s'.errors.size = s.errors.size by omega)
            cases hturn
            obtain ⟨htook, hJ⟩ := hkeeps
            have htaken : 0 < es.length := by
              cases es with
              | nil => exact absurd rfl htook
              | cons e es => exact Nat.succ_pos _
            have hrest : s.rest.length = es.length + s'.rest.length := by
              rw [hwalk.rest_eq, List.length_append]
            obtain ⟨c, hc, hW⟩ := hvalue' (by omega) (by omega)
            refine ⟨c, hc, ?_⟩
            intro l₀ hl₀
            rw [List.map_append, ← List.append_assoc]
            exact hW _ (hJ l₀ hl₀)

/-- A loop, turn by turn. -/
theorem Writes.repeating {step : α → Parse (Turn α)} {J : α → List Lexeme → Prop}
    (hstep : ∀ a, Writes n (step a) (TurnWrites J W a)) (a : α) :
    Writes n (Parse.repeating step a) fun b l => ∀ l₀, J a l₀ → W b (l₀ ++ l) := by
  intro s hs
  obtain ⟨es, hwalk, hvalue⟩ := iterate_walk hstep (s.rest.length + 1) a hs
  exact ⟨es, hwalk, hvalue (Nat.lt_succ_self _)⟩

/-- A loop that starts with nothing. -/
theorem Writes.repeating_nil {step : α → Parse (Turn α)}
    {J : α → List Lexeme → Prop} {a : α} (ha : J a [])
    (hstep : ∀ a, Writes n (step a) (TurnWrites J W a)) :
    Writes n (Parse.repeating step a) W :=
  (Writes.repeating hstep a).imp fun _ _ h => h [] ha

end Parse

end ScriptLang
