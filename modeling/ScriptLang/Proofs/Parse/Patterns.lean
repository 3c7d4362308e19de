import ScriptLang.Proofs.Parse.Resting

/-!
# Expressions as patterns

A pattern may be any expression.  One that begins with two parentheses, however, is
taken for a group of patterns, which ends with the parenthesis that closes the first
of them: nothing but `and` and `or` goes on with a group.  So an expression fits
(`Node.fitsPattern`) if it does not begin with two parentheses, or if the first one
encloses all of it and what it encloses fits.

`Grammar.upTo_pattern` compares an expression at the end of a text with a pattern in
front of a colon, by induction on the layers of nesting.  If the expression fits,
the pattern is the expression.  If it does not, the pattern ends too early, at a
token that would go on with the expression (`Grammar.Refuses`), and that is an error
of whatever encloses it.
-/

namespace ScriptLang

/-- Whether two parentheses open a sequence of tokens. -/
def Lexeme.opensTwice : List Lexeme → Bool
  | .symbol .leftParen :: .symbol .leftParen :: _ => true
  | _ => false

/-- Whether an expression is read as itself where a pattern is expected.  Two
parentheses at its start have to enclose all of it, and then the same goes for what
they enclose. -/
def Node.fitsPattern : Node → Bool
  | .grouping ⟨inner, _⟩ => inner.fitsPattern
  | node => !Lexeme.opensTwice node.write

theorem Node.fitsPattern_grouping (inner : Expr) :
    (Node.grouping inner).fitsPattern = inner.node.fitsPattern := by
  obtain ⟨node, span⟩ := inner
  rw [Node.fitsPattern]

/-- What opens twice and fits is a grouping of something that fits. -/
theorem Expr.exists_grouping :
    ∀ {e : Expr}, e.node.fitsPattern = true → Lexeme.opensTwice e.write = true →
      ∃ inner span, e = ⟨.grouping inner, span⟩ ∧
        inner.node.fitsPattern = true := by
  intro e hfits hopens
  obtain ⟨node, span⟩ := e
  cases node with
  | grouping inner =>
      rw [Node.fitsPattern_grouping] at hfits
      exact ⟨inner, span, rfl, hfits⟩
  | _ => simp_all [Node.fitsPattern, Expr.write]

/-- What is not read as itself where a pattern is expected opens with two
parentheses. -/
theorem Node.opensTwice_of_not_fits (node : Node) (h : node.fitsPattern = false) :
    Lexeme.opensTwice node.write = true := by
  fun_induction Node.fitsPattern node with
  | case1 inner span ih =>
      have hinner := ih h
      rw [Node.write, Expr.write]
      unfold Lexeme.opensTwice at hinner
      split at hinner
      · rename_i hwrite
        rw [hwrite]
        rfl
      · cases hinner
  | case2 node hnode => simpa using h

/-- What does not fit opens twice. -/
theorem Expr.opensTwice_of_not_fits (e : Expr) (h : e.node.fitsPattern = false) :
    Lexeme.opensTwice e.write = true := by
  obtain ⟨node, span⟩ := e
  exact node.opensTwice_of_not_fits h

namespace Grammar

open Parse ParseState

variable {r : Rules ParseState} {s t : ParseState}

/-! ## Tokens that begin no expression -/

/-- A token that can begin an expression is none of those that cannot. -/
theorem kind_ne_of_starts {kind kind' : TokenKind}
    (h : startsExpression kind = true)
    (h' : startsExpression kind' = false) : kind ≠ kind' := by
  rintro rfl
  exact Bool.false_ne_true (h'.symm.trans h)

/-- Where no expression begins, the highest rung yields none. -/
theorem primary_missing (h : startsExpression s.token.kind = false) :
    Returns s (primary r) fun _ _ => False := by
  have hlexeme : ∀ x, s.token.lexeme = x →
      startsExpression x.kind = true → False := by
    rintro x rfl hx
    exact kind_ne_of_starts hx h rfl
  refine Returns.peek ?_
  split
  · rename_i value hvalue
    obtain ⟨hx, _⟩ := literal?_eq_some hvalue
    refine (hlexeme _ hx ?_).elim
    cases value with
    | bool value => cases value <;> rfl
    | _ => rfl
  · split
    any_goals exact (hlexeme _ (by assumption) rfl).elim
    split
    · rename_i target htarget
      refine (hlexeme _ (typeName?_eq_some htarget) ?_).elim
      cases target <;> rfl
    · exact Returns.peek (Returns.bind fun _ _ _ => fun _ _ hrun => nomatch hrun)

/-- Where no expression begins, there is no sign. -/
theorem sign?_of_not_starts :
    ∀ kind : TokenKind, startsExpression kind = false → sign? kind = none := by
  decide

/-- Where no expression begins, none is yielded. -/
theorem upTo_missing (n : Nat) (h : startsExpression s.token.kind = false) :
    Returns s (Rules.upTo n).expression fun _ _ => False := by
  cases n with
  | zero => exact fun _ _ hrun => nomatch hrun
  | succ n =>
      intro e u hrun
      obtain ⟨e', t, hrun'⟩ :=
        (expression_restsOn (sign?_of_not_starts _ h)).operand e u hrun
      exact primary_missing (s := s.look 1) h e' t hrun'

/-! ## Patterns and groups of patterns -/

/-- Without an operator, a level yields its first operand. -/
theorem leftAssoc_idle {operator? : TokenKind → Option Operator}
    {operand : Parse Expr} {e : Expr} (hrun : operand s = (some e, t))
    (hnone : operator? t.token.kind = none) :
    leftAssoc operator? operand s = (some e, t.look 1) := by
  unfold leftAssoc
  rw [bind_of_some hrun]
  simp only [repeating, iterate]
  rw [bind_of_some (p := peekKind) rfl, hnone]
  rfl

/-- A pattern that no `and` or `or` follows. -/
theorem pattern_of_atom {e : Expr} (hrun : patternAtom r s = (some e, t))
    (hand : patternAnd? t.token.kind = none)
    (hor : patternOr? t.token.kind = none) :
    pattern r s = (some e, (t.look 1).look 1) :=
  leftAssoc_idle (leftAssoc_idle hrun hand) hor

/-- Two parentheses, or a parenthesis before a comparison, make a group of
patterns. -/
theorem patternAtom_of_group (hfirst : s.token.kind = .symbol .leftParen)
    (hsecond : startsPatternGroup s.secondKind = true) :
    patternAtom r s = grouping r.pattern ((s.look 1).look 2) := by
  unfold patternAtom
  rw [bind_of_some (p := peek) rfl, hfirst]
  have hsecond' : startsPatternGroup (s.look 1).secondKind = true := hsecond
  show (if startsPatternGroup (s.look 1).secondKind = true then _ else _ :
    Parse Expr) _ = _
  rw [if_pos hsecond']

/-- What begins an expression is neither a comparison nor a type test of the matched
value. -/
theorem comparison?_of_starts : ∀ kind : TokenKind, startsExpression kind = true →
    comparison? kind = none ∧ kind ≠ .keyword .is := by decide

/-- Elsewhere a pattern is an expression. -/
theorem patternAtom_of_expression (hstarts : startsExpression s.token.kind = true)
    (hsecond : s.token.kind = .symbol .leftParen →
      startsPatternGroup s.secondKind = false) :
    ∃ u, s.Still u ∧ patternAtom r s = expression r u := by
  obtain ⟨hcomparison, hne⟩ := comparison?_of_starts _ hstarts
  unfold patternAtom
  rw [bind_of_some (p := peek) rfl, hcomparison]
  show ∃ u, s.Still u ∧ (if s.token.kind = .keyword .is then _ else _ : Parse Expr)
    (s.look 1) = _
  rw [if_neg hne]
  by_cases hkind : s.token.kind = .symbol .leftParen
  · refine ⟨(s.look 1).look 2, ⟨rfl, rfl⟩, ?_⟩
    rw [if_pos hkind]
    have hsecond' : ¬ startsPatternGroup (s.look 1).secondKind = true := by
      have hfalse : startsPatternGroup (s.look 1).secondKind = false :=
        hsecond hkind
      simp [hfalse]
    show (if startsPatternGroup (s.look 1).secondKind = true then _ else _ :
      Parse Expr) _ = _
    rw [if_neg hsecond']
  · rw [if_neg hkind]
    exact ⟨s.look 1, still_look 1 s, rfl⟩

/-- A parenthesis begins a grouping. -/
theorem primary_of_paren (h : s.token.kind = .symbol .leftParen) :
    primary r s = grouping r.expression (s.look 1) := by
  have hlexeme : s.token.lexeme = .symbol .leftParen := Lexeme.eq_of_kind h rfl
  unfold primary
  rw [bind_of_some (p := peek) rfl, hlexeme]
  rfl

/-- A token that is expected and there is taken. -/
theorem expect_of_eq {kind : TokenKind} (h : s.token.kind = kind) :
    expect kind s = (some (), s.take) := by
  unfold expect
  rw [eat_bind_of_eq h, ← take_look]
  rfl

/-- What a group without an error is made of. -/
theorem grouping_returns {inner : Parse Expr}
    (honward : s.take.Onward (inner s.take).2) :
    Returns s (grouping inner) fun e u => u.errors.size = s.errors.size →
      ∃ e' t span, inner s.take = (some e', t) ∧ t.errors.size = s.errors.size ∧
        t.token.kind = .symbol .rightParen ∧ e = ⟨.grouping e', span⟩ ∧
          t.take.Still u := by
  intro e u hrun herrors
  obtain ⟨opening, _, hbump, hrun⟩ := bind_eq_some hrun
  cases hbump
  obtain ⟨e', t, hinner, hrun⟩ := bind_eq_some hrun
  rw [hinner] at honward
  have hle : s.errors.size ≤ t.errors.size := honward.errors_le
  by_cases hkind : t.token.kind = .symbol .rightParen
  · rw [bind_of_some (expect_of_eq hkind)] at hrun
    cases hrun
    exact ⟨e', t, _, hinner, herrors, hkind, rfl, Still.refl _⟩
  · have hraises :=
      expect_bind_raises (s := t)
          (g := fun _ => spanFrom s.token.span.start >>= fun span =>
      yield (⟨.grouping e', span⟩ : Expr)) hkind fun v _ => Onward.refl v
    have hu :
        ((expect (.symbol .rightParen) >>=
        fun _ => spanFrom s.token.span.start >>= fun span =>
      yield (⟨.grouping e', span⟩ : Expr)) t).2 = u := congrArg Prod.snd hrun
    rw [hu] at hraises
    omega

/-! ## What the first tokens decide -/

/-- A clean parse has taken the tokens that its tree is written with. -/
theorem upTo_ahead {n : Nat} {e : Expr} (hs : s.rest.length < n)
    (hrun : (Rules.upTo n).expression s = (some e, t))
    (herrors : t.errors.size = s.errors.size) :
    s.ahead = e.write ++ t.ahead := by
  obtain ⟨es, hwalk, hvalue⟩ := (Rules.upTo_sound n).expression s hs
  rw [hrun] at hwalk hvalue
  obtain ⟨_, hsome, hspells⟩ := hvalue herrors
  cases hsome
  rw [ahead, hwalk.rest_eq, List.map_append, hspells.write_eq]
  rfl

/-- No expression is written as a parenthesis alone. -/
theorem write_ne_paren (e : Expr) : e.write ≠ [.symbol .leftParen] := by
  intro hwrite
  have hlength := congrArg List.length hwrite
  have hpos : ∀ e : Expr, 0 < e.write.length :=
    fun e => List.length_pos_iff.mpr e.write_ne_nil
  obtain ⟨node, span⟩ := e
  cases node with
  | literal value => cases value with
    | bool value => cases value <;> cases hwrite
    | _ => cases hwrite
  | binary o left right =>
      have hleft := hpos left
      have hright := hpos right
      simp only [Expr.write, Node.write, List.length_append, List.length_singleton]
        at hlength
      omega
  | unary o operand =>
      have ho := List.length_pos_iff.mpr o.lexemes_ne_nil
      have hoperand := hpos operand
      simp only [Expr.write, Node.write, List.length_append, List.length_singleton]
        at hlength
      omega
  | call callee arguments =>
      simp only [Expr.write, Node.write, Lexeme.enclosed, List.length_append,
        List.length_cons, List.length_nil] at hlength
      omega
  | _ => simp [Expr.write, Node.write, Lexeme.enclosed] at hlength hwrite

/-- Whether an expression opens twice is seen from the next two tokens. -/
theorem opensTwice_iff {e : Expr} {l : List Lexeme} (h : s.ahead = e.write ++ l) :
    Lexeme.opensTwice e.write = true ↔
      s.token.kind = .symbol .leftParen ∧ s.secondKind = .symbol .leftParen := by
  rw [secondKind_eq, Token.kind, Token.kind, lexeme_token, lexeme_token,
    ahead_take, h]
  rcases hwrite : e.write with _ | ⟨x, _ | ⟨y, rest⟩⟩
  · exact absurd hwrite e.write_ne_nil
  · refine iff_of_false (by simp [Lexeme.opensTwice]) ?_
    rintro ⟨hx, _⟩
    obtain rfl : x = .symbol .leftParen := Lexeme.eq_of_kind hx rfl
    exact write_ne_paren e hwrite
  · constructor
    · intro hopens
      unfold Lexeme.opensTwice at hopens
      split at hopens
      · rename_i heq
        cases heq
        exact ⟨rfl, rfl⟩
      · cases hopens
    · rintro ⟨hx, hy⟩
      obtain rfl : x = .symbol .leftParen := Lexeme.eq_of_kind hx rfl
      obtain rfl : y = .symbol .leftParen := Lexeme.eq_of_kind hy rfl
      rfl

/-! ## Expressions in parentheses -/

/-- A grouping that is closed yields its inside. -/
theorem grouping_of_some {inner : Parse Expr} {e : Expr}
    (hrun : inner s.take = (some e, t))
    (hkind : t.token.kind = .symbol .rightParen) :
    ∃ span, grouping inner s = (some ⟨.grouping e, span⟩, t.take) := by
  unfold grouping
  rw [bind_of_some (p := bump) rfl, bind_of_some hrun,
    bind_of_some (expect_of_eq hkind)]
  exact ⟨_, rfl⟩

/-- A clean expression that begins with a parenthesis has an operand in parentheses
at its start. -/
theorem operand_of_paren {more : List Lexeme} {n : Nat} {r' : Rules ParseState}
    {e : Expr} {u : ParseState} (hr : r.Follow more n r')
    (hs : s.rest.length < n + 1) (hkind : s.token.kind = .symbol .leftParen)
    (hrun : expression r s = (some e, u))
    (herrors : u.errors.size = s.errors.size) :
    ∃ inner t span v, r.expression s.take = (some inner, t) ∧
      t.errors.size = s.errors.size ∧
      t.token.kind = .symbol .rightParen ∧
        primary r (s.look 1) = (some ⟨.grouping inner, span⟩, v) ∧
      t.take.Still v := by
  have hsign : sign? s.token.kind = none := by
    rw [hkind]
    rfl
  obtain ⟨operand, v, hprimary⟩ := (expression_restsOn hsign).operand e u hrun
  have hclean : v.errors.size = s.errors.size := by
    have hle : s.errors.size ≤ (primary r (s.look 1)).2.errors.size :=
      (primary_follows hr (s.look 1) hs).1.errors_le
    have hle' := errors_le_expression hr hs hsign
    rw [hprimary] at hle hle'
    rw [hrun] at hle'
    exact Nat.le_antisymm (herrors ▸ hle') hle
  have hgroup : grouping r.expression ((s.look 1).look 1) = (some operand, v) := by
    rw [← primary_of_paren (s := s.look 1) hkind, hprimary]
  have htake : ((s.look 1).look 1).take = s.take := by rw [take_look, take_look]
  have hne : s.token.lexeme ≠ .endOfText := ne_endOfText_of_kind (by simp [hkind])
  have honward := (hr.expression s.take (length_take_lt hne hs)).1
  obtain ⟨inner, t, span, hinner, hinnerErrors, hclosing, rfl, hstill⟩ :=
    grouping_returns (htake ▸ honward) operand v hgroup hclean
  exact ⟨inner, t, span, v, htake ▸ hinner, hinnerErrors, hclosing,
    hprimary, hstill⟩

/-! ## Expressions where patterns are expected -/

/-- The tokens that may stand behind an expression which is nested in parentheses or
stands alone. -/
def Closes (kind : TokenKind) : Prop :=
  kind = .endOfText ∨ kind = .symbol .rightParen

/-- A parser raises an error, or stops at a token that continues what it found. -/
def Refuses (s : ParseState) (p : Parse α) : Prop :=
  s.errors.size < (p s).2.errors.size ∨ ∃ a u, p s = (some a, u) ∧
    u.token.kind.reach ≠ 0

/-- What is made of a value leaves the state as it is. -/
theorem snd_bind_yield (p : Parse β) (f : β → α) (s : ParseState) :
    ((p >>= fun b => yield (f b)) s).2 = (p s).2 := by
  rcases hrun : p s with ⟨_ | b, t⟩
  · rw [bind_of_none hrun]
  · rw [bind_of_some hrun]
    rfl

/-- What refuses refuses, whatever would be made of its value. -/
theorem Refuses.map {p : Parse β} (f : β → α) (h : Refuses s p) :
    Refuses s (f <$> p) := by
  rcases h with hraised | ⟨b, u, hrun, hreach⟩
  · exact .inl (Nat.lt_of_lt_of_eq hraised
      (congrArg (fun t => t.errors.size) (snd_bind_yield p f s).symm))
  · exact .inr ⟨f b, u, bind_of_some hrun, hreach⟩

/-- Behind a token that is expected, no error is taken back. -/
theorem errors_le_expect_bind {n : Nat} {g : Unit → Parse α} {kind : TokenKind}
    (hs : s.rest.length < n)
    (hg : ∀ u : ParseState, u.rest.length < n → u.Onward (g () u).2) :
    s.errors.size ≤ ((expect kind >>= g) s).2.errors.size := by
  by_cases hkind : s.token.kind = kind
  · rw [bind_of_some (expect_of_eq hkind)]
    have honward := onward_take s
    exact (honward.trans (hg s.take
      (Nat.lt_of_le_of_lt honward.length_le hs))).errors_le
  · exact Nat.le_of_lt (expect_bind_raises hkind fun u hu => hg u (hu ▸ hs))

/-- A token that is expected behind something that is refused is missed, unless an
error was raised before. -/
theorem Refuses.raises {n : Nat} {p : Parse α} {g : α → Unit → Parse β}
    {kind : TokenKind} (h : Refuses s p) (hkind : kind.reach = 0)
    (honward : s.Onward (p s).2) (hs : s.rest.length < n)
    (hg : ∀ a (u : ParseState), u.rest.length < n → u.Onward (g a () u).2) :
    s.errors.size < ((p >>= fun a => expect kind >>= g a) s).2.errors.size := by
  rcases hrun : p s with ⟨_ | a, t⟩
  · rw [bind_of_none hrun]
    rcases h with hraised | ⟨a, t, hrun', _⟩
    · rw [hrun] at hraised
      exact hraised
    · rw [hrun] at hrun'
      cases hrun'
  · rw [bind_of_some hrun]
    rw [hrun] at honward
    replace honward : s.Onward t := honward
    have ht := Nat.lt_of_le_of_lt honward.length_le hs
    rcases h with hraised | ⟨b, u, hrun', hreach⟩
    · rw [hrun] at hraised
      exact Nat.lt_of_lt_of_le hraised (errors_le_expect_bind ht (hg a))
    · rw [hrun] at hrun'
      cases hrun'
      refine Nat.lt_of_le_of_lt honward.errors_le
        (expect_bind_raises ?_ fun u hu => hg a u (hu ▸ ht))
      intro heq
      rw [heq] at hreach
      exact hreach hkind

/-- A group whose inside is refused misses its closing parenthesis. -/
theorem grouping_raises {inner : Parse Expr}
    (honward : s.take.Onward (inner s.take).2) (h : Refuses s.take inner) :
    s.errors.size < (grouping inner s).2.errors.size :=
  h.raises rfl honward (Nat.lt_succ_self _) fun _ u _ => Onward.refl u

/-- What ends an expression does not go on with a pattern. -/
theorem patternOperators_of_closes {more : List Lexeme} {u u' : ParseState}
    (hbeside : u.Beside more u') (hu : Closes u.token.kind) :
    patternAnd? u'.token.kind = none ∧ patternOr? u'.token.kind = none := by
  rcases hbeside.token with ⟨_, hlexeme⟩ | ⟨hne, hlexeme⟩
  · rw [Token.kind, hlexeme]
    exact ⟨rfl, rfl⟩
  · rcases hu with hkind | hkind
    · exact absurd hkind hne
    · rw [Token.kind, hlexeme, ← Token.kind, hkind]
      exact ⟨rfl, rfl⟩

/-- The pattern that an expression is read as, in front of a colon. -/
def ReadAs (more : List Lexeme) (e : Expr) (u s' : ParseState)
    (p : Parse Expr) : Prop :=
  ∃ e' u', p s' = (some e', u') ∧ e'.bare = e.bare ∧ u.Beside more u' ∧
    u'.errors = s'.errors

/-- An expression that begins in no way that a group of patterns does is a
pattern. -/
theorem expression_as_pattern {more : List Lexeme} {n : Nat} {r' : Rules ParseState}
    {s' u : ParseState} {e : Expr} (hr : r.Follow more n r')
    (hs : s.rest.length < n + 1) (hbeside : s.Beside more s')
    (hrun : expression r s = (some e, u)) (herrors : u.errors.size = s.errors.size)
    (hend : Closes u.token.kind) (hstarts : startsExpression s.token.kind = true)
    (hsecond : s.token.kind = .symbol .leftParen →
      startsPatternGroup s.secondKind = false) :
    ReadAs more e u s' (pattern r') := by
  have hkind : s.token.kind ≠ .endOfText := kind_ne_of_starts hstarts rfl
  have hkind' : s'.token.kind = s.token.kind := hbeside.kind_eq hkind
  have hsecond' : s'.token.kind = .symbol .leftParen →
      startsPatternGroup s'.secondKind = false := by
    intro hparen
    rcases hbeside.secondKind hkind with ⟨_, hcolon⟩ | hsame
    · rw [hcolon]
      rfl
    · rw [hsame]
      exact hsecond (hkind' ▸ hparen)
  obtain ⟨v, hv, hatom⟩ :=
    patternAtom_of_expression (r := r') (hkind' ▸ hstarts) hsecond'
  obtain ⟨_, _, e', u', hsome, hrun', hbare, _, hbeside', hkept⟩ :=
    (expression_follows hr s hs).2 v
      (hbeside.still (Still.refl s) hv) (by rw [hrun]; exact herrors)
  rw [hrun] at hsome
  cases hsome
  obtain ⟨hand, hor⟩ := patternOperators_of_closes hbeside' hend
  refine ⟨e', (u'.look 1).look 1, pattern_of_atom (hatom.trans hrun') hand hor,
    hbare, hbeside', ?_⟩
  exact hkept.trans hv.errors_eq

/-- Tokens that continue an expression do not connect patterns. -/
theorem patternOperators_of_reach : ∀ kind : TokenKind, kind.reach ≠ 0 →
    patternAnd? kind = none ∧ patternOr? kind = none := by decide

/-- What begins a group of patterns begins an expression only if it is a
parenthesis. -/
theorem startsPatternGroup_cases :
    ∀ kind : TokenKind, startsPatternGroup kind = true →
      kind = .symbol .leftParen ∨ startsExpression kind = false := by decide

/-- Where an expression opens twice, a pattern is a group. -/
theorem patternAtom_of_twice {more : List Lexeme} {s' : ParseState}
    (hbeside : s.Beside more s') (hfirst : s.token.kind = .symbol .leftParen)
    (hsecond : s.secondKind = .symbol .leftParen) :
    s'.token.kind = .symbol .leftParen ∧
      patternAtom r s' = grouping r.pattern ((s'.look 1).look 2) := by
  have hne : s.token.kind ≠ .endOfText := by simp [hfirst]
  have hfirst' : s'.token.kind = .symbol .leftParen :=
    (hbeside.kind_eq hne).trans hfirst
  refine ⟨hfirst', patternAtom_of_group hfirst' ?_⟩
  rcases hbeside.secondKind hne with ⟨heq, _⟩ | hsame
  · rw [hsecond] at heq
    cases heq
  · rw [hsame, hsecond]
    rfl

/-- A pattern that is a group raises an error if what it encloses is refused. -/
theorem pattern_raises {m : Nat} {s b : ParseState} (hs : s.rest.length < m + 1)
    (hless : b.take.rest.length < m)
    (hatom : patternAtom (Rules.upTo m) s = grouping (Rules.upTo m).pattern b)
    (hstill : s.Still b) (h : Refuses b.take (Rules.upTo m).pattern) :
    s.errors.size < (pattern (Rules.upTo m) s).2.errors.size := by
  have hself := Rules.upTo_follow [] (Nat.le_refl m)
  have hatoms := patternAtom_follows hself
  have hraises := grouping_raises (hself.pattern b.take hless).1 h
  rw [hstill.errors_eq, ← hatom] at hraises
  calc s.errors.size
    _ < (patternAtom (Rules.upTo m) s).2.errors.size := hraises
    _ ≤ (leftAssoc patternAnd? _ s).2.errors.size :=
      errors_le_leftAssoc hs rfl rfl hatoms
    _ ≤ (pattern (Rules.upTo m) s).2.errors.size :=
      errors_le_leftAssoc hs rfl rfl (leftAssoc_follows rfl rfl hatoms)

/-- An expression that opens twice, where a pattern is expected. -/
theorem group_as_pattern {more : List Lexeme} {n m : Nat} {s s' u : ParseState}
    {e : Expr} (hnm : n ≤ m) (hs : s.rest.length < n + 1)
    (hs' : s'.rest.length < m + 1) (hbeside : s.Beside more s')
    (hrun : expression (Rules.upTo n) s = (some e, u))
    (herrors : u.errors.size = s.errors.size) (hend : Closes u.token.kind)
    (hfirst : s.token.kind = .symbol .leftParen)
    (hsecond : s.secondKind = .symbol .leftParen)
    (hopens : Lexeme.opensTwice e.write = true)
    (hinside : ∀ {inner t t'}, (Rules.upTo n).expression s.take = (some inner, t) →
      t.errors.size = s.errors.size → Closes t.token.kind → s.take.Beside more t' →
      t'.rest.length < m → (inner.node.fitsPattern = true →
      ReadAs more inner t t' (Rules.upTo m).pattern) ∧
      (inner.node.fitsPattern = false → Refuses t' (Rules.upTo m).pattern)) :
    (e.node.fitsPattern = true → ReadAs more e u s' (pattern (Rules.upTo m))) ∧
    (e.node.fitsPattern = false → Refuses s' (pattern (Rules.upTo m))) := by
  have hne : s.token.kind ≠ .endOfText := by simp [hfirst]
  have hsign : sign? s.token.kind = none := by
    rw [hfirst]
    rfl
  have hrests := expression_restsOn (r := Rules.upTo n) hsign
  -- The expression begins with a group, and if it fits it is that group.
  obtain ⟨inner, t, span, v, hinner, hclean, hclosing, hprimary, hstill⟩ :=
    operand_of_paren (Rules.upTo_follow more hnm) hs hfirst hrun herrors
  have hwhole : e.node.fitsPattern = true → e = ⟨.grouping inner, span⟩ ∧
      v.Still u := by
    intro hfits
    obtain ⟨inner', span', rfl, _⟩ := Expr.exists_grouping hfits hopens
    obtain ⟨v', hprimary', hstill'⟩ := hrests.whole _ _ hrun rfl
    rw [hprimary] at hprimary'
    cases hprimary'
    exact ⟨rfl, hstill'⟩
  -- The pattern is a group as well.
  obtain ⟨hfirst', hatom⟩ :=
    patternAtom_of_twice (r := Rules.upTo m) hbeside hfirst hsecond
  generalize hb : (s'.look 1).look 2 = b at hatom
  have hstill' : s'.Still b := hb ▸ ⟨rfl, rfl⟩
  have hinsideBeside : s.take.Beside more b.take :=
    (hbeside.still (Still.refl s) hstill').take hne
  have hless : b.take.rest.length < m := by
    refine length_take_lt ?_ (hstill'.rest_eq ▸ hs')
    rw [hstill'.lexeme_eq]
    exact ne_endOfText_of_kind (by simp [hfirst'])
  obtain ⟨hfits, hrefuses⟩ :=
    hinside hinner hclean (.inr hclosing) hinsideBeside hless
  cases hinnerFits : inner.node.fitsPattern with
  | false =>
      refine ⟨fun hfits => ?_, fun _ => .inl ?_⟩
      · obtain ⟨rfl, _⟩ := hwhole hfits
        rw [Node.fitsPattern_grouping, hinnerFits] at hfits
        cases hfits
      · exact pattern_raises hs' hless hatom hstill' (hrefuses hinnerFits)
  | true =>
      obtain ⟨inner', t', hinner', hbare, hbeside', hkept⟩ := hfits hinnerFits
      have hmore : t.token.kind ≠ .endOfText := by simp [hclosing]
      obtain ⟨span', hgrouping⟩ :=
        grouping_of_some hinner' ((hbeside'.kind_eq hmore).trans hclosing)
      have hrun' := hatom.trans hgrouping
      have hbehind : v.Beside more t'.take :=
        (hbeside'.take hmore).still hstill (Still.refl _)
      by_cases hreach : v.token.kind.reach = 0
      · -- Nothing goes on with the group, so the expression is the group.
        obtain ⟨w, hw, hidle⟩ := hrests.idle _ _ hprimary hreach
        replace hidle := hrun.symm.trans hidle
        cases hidle
        rw [Node.fitsPattern_grouping, hinnerFits]
        refine ⟨fun _ => ?_, nofun⟩
        obtain ⟨hand, hor⟩ :=
          patternOperators_of_closes (hbehind.still hw (Still.refl _)) hend
        refine ⟨_, _, pattern_of_atom hrun' hand hor, ?_,
          hbehind.still hw ⟨rfl, rfl⟩, ?_⟩
        · simp [Expr.bare, Node.bare, hbare]
        · exact hkept.trans hstill'.errors_eq
      · -- Something goes on with the group, and nothing of that kind goes on with a
        -- pattern.
        refine ⟨fun hfits => absurd ?_ hreach, fun _ => .inr ?_⟩
        · obtain ⟨_, hu⟩ := hwhole hfits
          rw [← hu.kind_eq]
          rcases hend with hkind | hkind <;> rw [hkind] <;> rfl
        · have hgoes : v.token.kind ≠ .endOfText :=
            fun hkind => hreach (by rw [hkind]; rfl)
          rw [← hbehind.kind_eq hgoes] at hreach
          obtain ⟨hand, hor⟩ := patternOperators_of_reach _ hreach
          exact ⟨_, _, pattern_of_atom hrun' hand hor, hreach⟩

/-- An expression that comes to its end without an error, where a pattern is
expected in front of a colon: it is the pattern if it fits, and it is refused
otherwise. -/
theorem upTo_pattern (more : List Lexeme) {n m : Nat} (hnm : n ≤ m)
    {s s' u : ParseState} {e : Expr} (hs : s.rest.length < n)
    (hs' : s'.rest.length < m) (hbeside : s.Beside more s')
    (hrun : (Rules.upTo n).expression s = (some e, u))
    (herrors : u.errors.size = s.errors.size) (hend : Closes u.token.kind) :
    (e.node.fitsPattern = true → ReadAs more e u s' (Rules.upTo m).pattern) ∧
    (e.node.fitsPattern = false → Refuses s' (Rules.upTo m).pattern) := by
  induction n generalizing m s s' u e with
  | zero => exact absurd hs (Nat.not_lt_zero _)
  | succ n ih =>
      obtain ⟨m, rfl⟩ : ∃ k, m = k + 1 := ⟨m - 1, by omega⟩
      have hle := Nat.le_of_succ_le_succ hnm
      have hopens := opensTwice_iff (upTo_ahead hs hrun herrors)
      by_cases htwice : s.token.kind = .symbol .leftParen ∧
        s.secondKind = .symbol .leftParen
      · obtain ⟨hfirst, hsecond⟩ := htwice
        refine group_as_pattern hle hs hs' hbeside hrun herrors hend hfirst hsecond
          (hopens.mpr ⟨hfirst, hsecond⟩) fun hinner hclean hclosing hbeside' hs'' =>
            ?_
        have hless : s.take.rest.length < n :=
          length_take_lt (ne_endOfText_of_kind (by simp [hfirst])) hs
        exact ih hle hless hs'' hbeside' hinner hclean hclosing
      · have hfollow := Rules.upTo_follow more hle
        have hstarts : startsExpression s.token.kind = true := by
          cases hstarts : startsExpression s.token.kind with
          | true => rfl
          | false => exact (upTo_missing (n + 1) hstarts e u hrun).elim
        have hsecond : s.token.kind = .symbol .leftParen →
            startsPatternGroup s.secondKind = false := by
          intro hkind
          cases hgroup : startsPatternGroup s.secondKind with
          | false => rfl
          | true =>
              rcases startsPatternGroup_cases _ hgroup with hparen | hmissing
              · exact absurd ⟨hkind, hparen⟩ htwice
              · obtain ⟨inner, t, _, _, hinner, _⟩ :=
                  operand_of_paren hfollow hs hkind hrun herrors
                rw [secondKind_eq] at hmissing
                exact (upTo_missing n hmissing inner t hinner).elim
        refine ⟨fun _ => expression_as_pattern hfollow hs hbeside hrun herrors hend
          hstarts hsecond, ?_⟩
        exact fun hnot => absurd (hopens.mp (e.opensTwice_of_not_fits hnot)) htwice

end Grammar

end ScriptLang
