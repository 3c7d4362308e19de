import ScriptLang.Parse.Grammar
import ScriptLang.Proofs.Parse.Reading
import ScriptLang.Proofs.Tree.Bare
import ScriptLang.Proofs.Tree.Formula
import ScriptLang.Proofs.Tree.Writing

/-!
# Formulas are parsed back

A parser of a rung finds every formula that stands there or higher, if what follows
the formula does not continue it: no token on the rung or above may follow
(`Lexeme.reach`).  The argument goes rung by rung.  A loop of operators finds the
operations of its rung by their left spine, and whatever stands higher is left to
the next parser (`loop_complete`).  Below a pair of parentheses, and behind a sign
or a `^`, there are fewer tokens, which is the induction over `Rules.upTo`.
-/

namespace ScriptLang

/-- The highest rung on which a token continues what stands before it; nothing
continues a formula on rung 0. -/
def TokenKind.reach : TokenKind → Nat
  | .symbol .leftParen | .symbol .dot => 15
  | .symbol .caret => 14
  | .symbol .star | .symbol .slash | .symbol .percent => 12
  | .symbol .plus | .symbol .minus => 11
  | .symbol .dotDot => 10
  | .symbol .less | .symbol .lessEqual | .symbol .greater | .symbol .greaterEqual
  | .symbol .equalEqual | .symbol .notEqual => 9
  | .keyword .is => 8
  | .symbol .andAnd => 7
  | .symbol .orOr => 6
  | .symbol .questionGreater => 5
  | .symbol .questionQuestion => 4
  | .symbol .assign | .symbol .plusAssign | .symbol
      .minusAssign | .symbol .starAssign
  | .symbol .slashAssign | .symbol .percentAssign => 3
  | _ => 0

/-- The reach of the next token. -/
def Lexeme.reach (l : List Lexeme) : Nat := (l.headD .endOfText).kind.reach

/-- A token that reaches high enough is not the next one. -/
theorem Lexeme.kind_ne_of_reach {k : Nat} {l : List Lexeme} {kind : TokenKind}
    (hl : Lexeme.reach l < k) (hkind : k ≤ kind.reach) :
    (l.headD .endOfText).kind ≠ kind := by
  intro heq
  rw [Lexeme.reach, heq] at hl
  omega

/-- A parser of a rung that finds every formula of this rung or a higher one, among
fewer than `n` tokens. -/
def Parse.Complete (n k : Nat) (p : Parse Expr) : Prop :=
  ∀ e : Expr, e.Fits k → ∀ tail, Lexeme.reach tail < k →
    (e.write ++ tail).length < n →
    Reads p (e.write ++ tail) tail fun e' => e'.bare = e.bare

namespace Grammar

open Parse

variable {n : Nat}

/-! ## Loops of operators -/

/-- One turn of a loop of operators on a rung.  Each formula of the rung is another
one with a link behind it, and the turn finds the link. -/
structure Links (n k : Nat) (step : Expr → Parse (Turn Expr)) : Prop where
  done : ∀ e tail, Lexeme.reach tail < k →
    Reads (step e) tail tail fun t => ∃ e', t = .done e' ∧ e'.bare = e.bare
  again : ∀ e : Expr, e.Fits k → e.rung = k →
    ∃ (left : Expr) (x : Lexeme) (link : List Lexeme), left.Fits k ∧
    e.write = left.write ++ x :: link ∧ x.kind.reach = k ∧
    ∀ tail, Lexeme.reach tail < k + 1 → (x :: link ++ tail).length < n →
      ∀ left' : Expr,
      left'.bare = left.bare →
      Reads (step left') (x :: link ++ tail) tail fun t => ∃ e', t = .again e' ∧
        e'.bare = e.bare

/-- A loop comes to every formula of its rung. -/
theorem Links.loops {k : Nat} {operand : Parse Expr}
    {step : Expr → Parse (Turn Expr)} (hlinks : Links n k step)
    (hoperand : Complete n (k + 1) operand) {e : Expr} (he : e.Fits k)
    {tail : List Lexeme} (htail : Lexeme.reach tail < k + 1)
    (hlength : (e.write ++ tail).length < n) :
    Loops operand step (e.write ++ tail) tail fun e' => e'.bare = e.bare := by
  -- The left spine of a formula is shorter than the formula.
  induction hsize : e.write.length using Nat.strongRecOn generalizing e tail with
  | _ size ih =>
      by_cases hrung : e.rung = k
      · obtain ⟨left, x, link, hleft, hwrite, hx, hagain⟩ := hlinks.again e he hrung
        have hshort : left.write.length < size := by
          rw [← hsize, hwrite]
          simp
        rw [hwrite, List.append_assoc] at hlength ⊢
        have hlink : (x :: link ++ tail).length < n := by
          rw [List.length_append] at hlength
          omega
        have hreach : Lexeme.reach (x :: link ++ tail) < k + 1 := by
          show x.kind.reach < k + 1
          omega
        apply (ih _ hshort hleft hreach hlength rfl).again (hagain tail htail hlink)
        simp only [List.length_append, List.length_cons]
        omega
      · exact (hoperand e (he.higher hrung) tail htail hlength).loops

/-- A loop over links reads all that is written on its level. -/
theorem loop_complete {k : Nat} {operand : Parse Expr}
    {step : Expr → Parse (Turn Expr)} (hlinks : Links n k step)
    (hoperand : Complete n (k + 1) operand) :
    Complete n k (operand >>= repeating step) := by
  intro e he tail htail hlength
  apply (hlinks.loops hoperand he (Nat.lt_succ_of_lt htail) hlength).done
  intro e' he'
  apply (hlinks.done e' tail htail).imp
  rintro t ⟨e'', rfl, he''⟩
  exact ⟨e'', rfl, he''.trans he'⟩

/-! ## Left-associative operators -/

/-- A rung of left-associative operators of formulas: each of them is found by its
token, and a token that reaches less high is none of them. -/
def IsLevel (k : Nat) (operator? : TokenKind → Option Operator) : Prop :=
  (4 ≤ k ∧ k ≤ 12 ∧ k ≠ 8) ∧
    (∀ kind : TokenKind, kind.reach < k → operator? kind = none) ∧
    ∀ o : Operator, o.isLeftAssociative = true → o.rung = k →
      o.lexemes.map (fun x => (operator? x.kind, x.kind.reach)) = [(some o, k)]

instance (k : Nat) (operator? : TokenKind → Option Operator) :
    Decidable (IsLevel k operator?) :=
  inferInstanceAs (Decidable (_ ∧ _))

/-- The operators of a level are found by their tokens. -/
theorem IsLevel.token {k : Nat} {operator? : TokenKind → Option Operator}
    (h : IsLevel k operator?) {o : Operator} (hassoc : o.isLeftAssociative = true)
    (ho : o.rung = k) :
    ∃ x, o.lexemes = [x] ∧ operator? x.kind = some o ∧ x.kind.reach = k := by
  have hmap := h.2.2 o hassoc ho
  obtain ⟨x, hx, hpair⟩ := List.map_eq_singleton_iff.mp hmap
  obtain ⟨hoperator, hreach⟩ := Prod.mk.inj hpair
  exact ⟨x, hx, hoperator, hreach⟩

/-- The level of coalescing. -/
theorem coalescing_isLevel : IsLevel 4 coalescing? := by decide

/-- The level of piping. -/
theorem piping_isLevel : IsLevel 5 piping? := by decide

/-- The level of disjunction. -/
theorem disjunction_isLevel : IsLevel 6 disjunction? := by decide

/-- The level of conjunction. -/
theorem conjunction_isLevel : IsLevel 7 conjunction? := by decide

/-- The level of comparisons. -/
theorem comparison_isLevel : IsLevel 9 comparison? := by decide

/-- The level of concatenation. -/
theorem concatenation_isLevel : IsLevel 10 concatenation? := by decide

/-- The level of sums. -/
theorem additive_isLevel : IsLevel 11 additive? := by decide

/-- The level of products. -/
theorem multiplicative_isLevel : IsLevel 12 multiplicative? := by decide

/-- A turn of the loop over a level reads an operator with its right operand. -/
theorem leftAssoc_links {k : Nat} {operator? : TokenKind → Option Operator}
    {operand : Parse Expr} (hlevel : IsLevel k operator?)
    (hoperand : Complete n (k + 1) operand) :
    Links n k (fun left => do
      match operator? (← peekKind) with
      | some operator =>
        let _ ← bump
        return .again (Expr.binary left operator (← operand))
      | none => return .done left) where
  done e tail htail := by
    apply Reads.peekKind
    rw [hlevel.2.1 _ htail]
    exact Reads.yield ⟨e, rfl, rfl⟩
  again e he hrung := by
    obtain ⟨hfour, htwelve, hne⟩ := hlevel.1
    obtain ⟨o, left, right, span, rfl, hassoc, ho, hleft, hright⟩ :=
      he.leftAssociative hrung hfour htwelve hne
    obtain ⟨x, hx, hoperator, hreach⟩ := hlevel.token hassoc ho
    refine ⟨left, x, right.write, hleft, ?_, hreach, ?_⟩
    · simp [Expr.write, Node.write, hx]
    intro tail htail hlength left' hleft'
    apply Reads.peekKind
    have hkind : ((x :: right.write ++ tail).headD .endOfText).kind = x.kind := rfl
    rw [hkind, hoperator]
    apply Reads.bump
    intro _ _
    have hlength' : (right.write ++ tail).length < n := Nat.lt_of_succ_lt hlength
    refine (hoperand right hright tail htail hlength').bind fun right' hright' =>
      Reads.yield ?_
    refine ⟨Expr.binary left' o right', rfl, ?_⟩
    simp only [Expr.binary, Expr.bare, Node.bare, hleft', hright']

/-- A level of operators that associate to the left reads what is written on it. -/
theorem leftAssoc_complete {k : Nat} {operator? : TokenKind → Option Operator}
    {operand : Parse Expr} (hlevel : IsLevel k operator?)
    (hoperand : Complete n (k + 1) operand) :
    Complete n k (leftAssoc operator? operand) :=
  loop_complete (leftAssoc_links hlevel hoperand) hoperand

/-! ## Type tests -/

/-- A type is found by its keyword. -/
theorem typeName?_keyword (target : TypeName) :
    typeName? (.keyword target.keyword) = some target := by
  cases target <;> rfl

/-- The operand of a type test is read. -/
theorem typeOperand_reads {target : TypeName} {tail : List Lexeme} {Q : α → Prop}
    {f : Expr → Parse α}
    (h : ∀ place, Reads (f ⟨.type target, place⟩) tail tail Q) :
    Reads (typeOperand >>= f) (.keyword target.keyword :: tail) tail Q := by
  have htype : Reads typeOperand (.keyword target.keyword :: tail) tail fun e =>
      ∃ place, e = ⟨.type target, place⟩ := by
    apply Reads.peek
    intro t ht
    have hkind : t.kind = .keyword target.keyword := by
      rw [Token.kind, ht]
      rfl
    rw [hkind, typeName?_keyword]
    exact Reads.bump fun _ _ => Reads.yield ⟨t.span, rfl⟩
  apply htype.bind
  rintro e ⟨place, rfl⟩
  exact h place

/-- A turn of the loop over type tests reads `is` or `is not` with a type. -/
theorem typeTest_links : Links n 8 (fun left => do
      if ← eat (.keyword .is) then
        let operator := if ← eat (.keyword .not) then Operator.isNot else .is
        return .again (Expr.binary left operator (← typeOperand))
      else return .done left) where
  done e tail htail := by
    have hkind : (tail.headD .endOfText).kind ≠ .keyword .is :=
      Lexeme.kind_ne_of_reach htail (by decide)
    exact Reads.not_eat hkind (Reads.yield ⟨e, rfl, rfl⟩)
  again e he hrung := by
    obtain ⟨o, left, target, place, span, rfl, ho, hleft⟩ := he.typeTest hrung
    rcases ho with rfl | rfl
    · refine ⟨left, .keyword .is, [.keyword target.keyword], hleft, ?_, rfl, ?_⟩
      · simp [Expr.write, Node.write, Operator.lexemes]
      intro tail _ _ left' hleft'
      refine Reads.eat rfl (Reads.not_eat ?_
        (typeOperand_reads fun place' => Reads.yield ?_))
      · cases target <;> simp [TypeName.keyword, Lexeme.kind]
      · exact ⟨_, rfl, by simp [Expr.binary, Expr.bare, Node.bare, hleft']⟩
    · refine ⟨left, .keyword .is, [.keyword .not, .keyword target.keyword],
        hleft, ?_, rfl, ?_⟩
      · simp [Expr.write, Node.write, Operator.lexemes]
      intro tail _ _ left' hleft'
      refine Reads.eat rfl (Reads.eat rfl
        (typeOperand_reads fun place' => Reads.yield ?_))
      exact ⟨_, rfl, by simp [Expr.binary, Expr.bare, Node.bare, hleft']⟩

/-! ## Operands -/

/-- A literal is found by its token. -/
theorem literal?_lexeme (value : Literal) : literal? value.lexeme = some value := by
  cases value with
  | bool value => cases value <;> rfl
  | _ => rfl

/-- The tokens of a piece in parentheses, with more behind them. -/
theorem enclosed_append (piece tail : List Lexeme) :
    Lexeme.enclosed piece ++ tail = .symbol .leftParen ::
      (piece ++ .symbol .rightParen :: tail) := by
  simp [Lexeme.enclosed]

/-- A nested formula in front of a closing parenthesis. -/
theorem nested_reads {p : Parse Expr} (hp : Complete n 3 p) {e : Expr}
    (he : e.Fits 3) {tail l : List Lexeme}
    (hlength : (Lexeme.enclosed e.write ++ tail).length < n + 1)
    {f : Expr → Parse α} {Q : α → Prop}
    (hf : ∀ e', e'.bare = e.bare → Reads (f e') (.symbol .rightParen :: tail) l Q) :
    Reads (p >>= f) (e.write ++ .symbol .rightParen :: tail) l Q := by
  rw [enclosed_append, List.length_cons] at hlength
  have hreach : Lexeme.reach (.symbol .rightParen :: tail) < 3 := by
    show 0 < 3
    decide
  exact (hp e he (.symbol .rightParen :: tail) hreach
    (Nat.lt_of_succ_lt_succ hlength)).bind hf

/-- A grouping is read. -/
theorem grouping_reads {p : Parse Expr} (hp : Complete n 3 p) {e : Expr}
    (he : e.Fits 3) {tail : List Lexeme}
    (hlength : (Lexeme.enclosed e.write ++ tail).length < n + 1) :
    Reads (grouping p) (Lexeme.enclosed e.write ++ tail) tail fun e' =>
      e'.bare = ⟨.grouping e.bare, default⟩ := by
  rw [enclosed_append]
  refine Reads.bump fun opening _ => nested_reads hp he hlength fun inner hinner =>
    ?_
  refine Reads.expect rfl (Reads.spanFrom fun span => Reads.yield ?_)
  simp only [Expr.bare, Node.bare, hinner]

/-- A cast is read. -/
theorem typeOrCast_reads {r : Rules ParseState}
    (hexpression : Complete n 3 r.expression) (target : TypeName) {e : Expr}
    (he : e.Fits 3) {tail : List Lexeme}
    (hlength : (Lexeme.enclosed e.write ++ tail).length < n + 1) :
    Reads (typeOrCast r target)
      (.keyword target.keyword :: (Lexeme.enclosed e.write ++ tail)) tail fun e' =>
      e'.bare = ⟨.cast target e.bare, default⟩ := by
  rw [enclosed_append]
  refine Reads.bump fun opening _ => Reads.eat rfl ?_
  apply nested_reads hexpression he hlength
  intro operand hoperand
  refine Reads.expect rfl (Reads.spanFrom fun span => Reads.yield ?_)
  simp only [Expr.bare, Node.bare, hoperand]

/-- What is written on the highest rung is read. -/
theorem primary_complete {r : Rules ParseState}
    (hexpression : Complete n 3 r.expression) :
    Complete (n + 1) 16 (primary r) := by
  intro e he tail _ hlength
  apply Reads.peek
  intro t ht
  rcases he.primary with ⟨value, span, rfl⟩ | ⟨text, span, rfl⟩ | ⟨inner, span,
    rfl, hinner⟩ |
    ⟨target, operand, span, rfl, htarget, hoperand⟩
  · have hlexeme : t.lexeme = value.lexeme := ht
    rw [hlexeme, literal?_lexeme]
    exact Reads.bump fun _ _ => Reads.yield rfl
  · have hlexeme : t.lexeme = .identifier text := ht
    rw [hlexeme]
    exact Reads.bump fun _ _ => Reads.yield rfl
  · have hlexeme : t.lexeme = .symbol .leftParen := ht
    rw [hlexeme]
    exact grouping_reads hexpression hinner hlength
  · have hlexeme : t.lexeme = .keyword target.keyword := ht
    have hkind : typeName? t.kind = some target := by
      rw [Token.kind, hlexeme]
      exact typeName?_keyword target
    have hcast :=
      typeOrCast_reads hexpression target hoperand (Nat.lt_of_succ_lt hlength)
    -- The name of a type is no literal, unless it is null.
    have hliteral : literal? t.lexeme = none := by
      rw [hlexeme]
      cases target <;> first | rfl | exact absurd rfl htarget
    rw [hliteral]
    rw [hlexeme, hkind]
    cases target <;> exact hcast

/-! ## The first token of a formula -/

/-- All signs can begin an expression. -/
theorem startsExpression_sign : ∀ o : Operator, o.rung = 13 →
    o.lexemes.map (fun x => (sign? x.kind, startsExpression x.kind)) =
      [(some o, true)] := by decide

/-- A sign is found by its token. -/
theorem sign_token {o : Operator} (h : o.rung = 13) :
    ∃ x, o.lexemes = [x] ∧ sign? x.kind = some o ∧
      startsExpression x.kind = true := by
  obtain ⟨x, hx, hpair⟩ := List.map_eq_singleton_iff.mp (startsExpression_sign o h)
  obtain ⟨hsign, hstarts⟩ := Prod.mk.inj hpair
  exact ⟨x, hx, hsign, hstarts⟩

/-- What an expression begins with does not depend on what stands behind it. -/
theorem headD_write_append (e : Expr) (l : List Lexeme) (x : Lexeme) :
    (e.write ++ l).headD x = e.write.headD x := by
  cases hwrite : e.write with
  | nil => exact absurd hwrite e.write_ne_nil
  | cons y rest => rfl

/-- A formula begins with a token that can begin an expression. -/
theorem formula_head {castable : TypeName → Prop} {e : Expr}
    (h : e.IsFormula castable) :
    startsExpression (e.write.headD .endOfText).kind = true := by
  induction h with
  | @literal value span =>
      cases value with
      | bool value => cases value <;> rfl
      | _ => rfl
  | name => rfl
  | grouping _ _ => rfl
  | @cast target operand span _ _ _ => cases target <;> rfl
  | call _ _ ih _ =>
      rw [Expr.write, Node.write, headD_write_append]
      exact ih
  | sign hsign _ _ =>
      obtain ⟨x, hx, _, hstarts⟩ := sign_token hsign
      rw [Expr.write, Node.write, hx]
      exact hstarts
  | typeTest _ _ ih =>
      rw [Expr.write, Node.write, List.append_assoc, headD_write_append]
      exact ih
  | binary _ _ _ ih _ =>
      rw [Expr.write, Node.write, List.append_assoc, headD_write_append]
      exact ih

/-- A formula above the rung of signs does not begin with one. -/
theorem formula_head_sign {castable : TypeName → Prop} {e : Expr}
    (h : e.IsFormula castable) (hrespects : e.Respects) (hrung : 14 ≤ e.rung) :
    sign? (e.write.headD .endOfText).kind = none := by
  induction h with
  | @literal value span =>
      cases value with
      | bool value => cases value <;> rfl
      | _ => rfl
  | name => rfl
  | grouping _ _ => rfl
  | @cast target operand span _ _ _ => cases target <;> rfl
  | call _ _ ih _ =>
      rw [Expr.write, Node.write, headD_write_append]
      cases hrespects with
      | call hle hcallee _ => exact ih hcallee (Nat.le_of_succ_le hle)
  | sign hsign _ _ => exact absurd (hsign ▸ hrung : 14 ≤ 13) (by decide)
  | typeTest htest _ ih => exact absurd (htest ▸ hrung : 14 ≤ 8) (by decide)
  | @binary o left right span _ _ _ ih _ =>
      rw [Expr.write, Node.write, List.append_assoc, headD_write_append]
      cases hrespects with
      | binary hjoins hleft _ =>
          exact ih hleft (Nat.le_of_succ_le (o.left_of_rung hrung hjoins))

/-! ## Calls and members -/

/-- One turn of the loop over arguments. -/
def argumentTurn (r : Rules ParseState) (before : List Expr) :
    Parse (Turn (List Expr)) := do
  let next ← r.expression
  if ← eat (.symbol .comma) then return .again (before ++ [next])
  else return .done (before ++ [next])

/-- Expressions with a comma behind each of them. -/
def writeListed (es : List Expr) : List Lexeme :=
  es.flatMap fun e => e.write ++ [.symbol .comma]

/-- The loop over the arguments of a call. -/
theorem arguments_loops {r : Rules ParseState}
    (hexpression : Complete n 3 r.expression) {p : Parse (List Expr)}
    {l tail : List Lexeme} {before listed : List Expr}
    (hlisted : ∀ a ∈ listed, a.Fits 3)
    (hlength : (writeListed listed ++ tail).length < n)
    (h : Loops p (argumentTurn r) l (writeListed listed ++ tail) fun es =>
      Expr.bareEach es = Expr.bareEach before) :
    Loops p (argumentTurn r) l tail fun es => Expr.bareEach es =
      Expr.bareEach (before ++ listed) := by
  induction listed generalizing before with
  | nil =>
      rw [List.append_nil]
      exact h
  | cons a listed ih =>
      have hwrite : writeListed (a :: listed) ++ tail =
          a.write ++ .symbol .comma :: (writeListed listed ++ tail) := by
        simp [writeListed]
      rw [hwrite] at hlength h
      obtain ⟨ha, hlisted⟩ := List.forall_mem_cons.mp hlisted
      have hbehind : (writeListed listed ++ tail).length < n := by
        simp only [List.length_append, List.length_cons] at hlength ⊢
        omega
      have hnext : before ++ a :: listed = (before ++ [a]) ++ listed := by simp
      rw [hnext]
      refine ih hlisted hbehind (h.again ?_ ?_)
      · intro es hes
        have hreach : Lexeme.reach
            (.symbol .comma :: (writeListed listed ++ tail)) < 3 := by
          show 0 < 3
          decide
        refine (hexpression a ha _ hreach hlength).bind fun a' ha' =>
          Reads.eat rfl (Reads.yield ?_)
        refine ⟨es ++ [a'], rfl, ?_⟩
        simp only [Expr.bareEach_append, Expr.bareEach, hes, ha']
      · simp only [List.length_append, List.length_cons]
        omega

/-- The last argument ends the loop. -/
theorem lastArgument_reads {r : Rules ParseState}
    (hexpression : Complete n 3 r.expression) {before es : List Expr} {last : Expr}
    (hlast : last.Fits 3) {tail : List Lexeme}
    (hlength : (last.write ++ .symbol .rightParen :: tail).length < n)
    (hes : Expr.bareEach es = Expr.bareEach before) :
    Reads (argumentTurn r es) (last.write ++ .symbol .rightParen :: tail)
      (.symbol .rightParen :: tail)
      fun t => ∃ all, t = .done all ∧
        Expr.bareEach all = Expr.bareEach (before ++ [last]) := by
  have hreach : Lexeme.reach (.symbol .rightParen :: tail) < 3 := by
    show 0 < 3
    decide
  apply (hexpression last hlast _ hreach hlength).bind
  intro last' hlast'
  refine Reads.not_eat (by simp [Lexeme.kind])
    (Reads.yield ⟨es ++ [last'], rfl, ?_⟩)
  simp only [Expr.bareEach_append, Expr.bareEach, hes, hlast']

/-- Arguments begin with a token that can begin an expression. -/
theorem listed_head {listed : List Expr} {last : Expr}
    (hlisted : ∀ a ∈ listed, a.Fits 3) (hlast : last.Fits 3) (l : List Lexeme) :
    startsExpression ((writeListed listed ++ (last.write ++ l)).headD
      .endOfText).kind = true := by
  cases listed with
  | nil =>
      rw [writeListed, List.flatMap_nil, List.nil_append, headD_write_append]
      exact formula_head hlast.formula
  | cons a listed =>
      rw [writeListed, List.flatMap_cons, List.append_assoc, List.append_assoc,
        headD_write_append]
      exact formula_head (hlisted a List.mem_cons_self).formula

/-- The arguments of a call are read. -/
theorem arguments_reads {r : Rules ParseState}
    (hexpression : Complete n 3 r.expression) {arguments : List Expr}
    (harguments : ∀ a ∈ arguments, a.Fits 3) {tail : List Lexeme}
    (hlength : (Lexeme.separated (.symbol .comma) (Expr.writeEach arguments) ++
      .symbol .rightParen :: tail).length < n) :
    Reads (Grammar.arguments r)
      (Lexeme.separated (.symbol .comma) (Expr.writeEach arguments) ++
      .symbol .rightParen :: tail) tail fun es => Expr.bareEach es =
        Expr.bareEach arguments := by
  rcases List.eq_nil_or_concat arguments with rfl | ⟨listed, last, rfl⟩
  · exact Reads.eat rfl (Reads.yield rfl)
  have hwrite : Lexeme.separated (.symbol .comma)
    (Expr.writeEach (listed ++ [last])) ++
      .symbol .rightParen :: tail = writeListed listed ++
          (last.write ++ .symbol .rightParen :: tail) := by
    rw [Expr.writeEach_eq_map, List.map_append, List.map_singleton,
      Lexeme.separated_concat]
    simp [writeListed, List.flatMap_map]
  rw [List.concat_eq_append] at harguments hlength ⊢
  rw [hwrite] at hlength ⊢
  have hlast : last.Fits 3 := harguments last (by simp)
  have hlisted : ∀ a ∈ listed, a.Fits 3 := fun a ha => harguments a (by simp [ha])
  have hlength' : (last.write ++ .symbol .rightParen :: tail).length < n := by
    rw [List.length_append] at hlength
    omega
  refine Reads.not_eat ?_ ?_
  · -- A closing parenthesis begins no expression.
    intro hkind
    have hstarts := listed_head hlisted hlast (.symbol .rightParen :: tail)
    rw [hkind] at hstarts
    cases hstarts
  have hstart : Loops (yield []) (argumentTurn r)
      (writeListed listed ++ (last.write ++ .symbol .rightParen :: tail))
      (writeListed listed ++ (last.write ++ .symbol .rightParen :: tail))
      fun es => Expr.bareEach es = Expr.bareEach [] := Reads.loops (Reads.yield rfl)
  have hloops := arguments_loops hexpression hlisted hlength hstart
  have hall :=
    hloops.done fun es hes => lastArgument_reads hexpression hlast hlength' hes
  exact hall.bind fun es hes => Reads.expect rfl (Reads.yield hes)

/-- A turn of the loop over a chain reads a call or an access. -/
theorem chain_links {r : Rules ParseState}
    (hexpression : Complete n 3 r.expression) :
    Links (n + 1) 15 (fun e => do
      match ← peekKind with
      | .symbol .dot =>
        let _ ← bump
        let start ← here
        let name ← identifier
        return .again (Expr.binary e .access ⟨.name name, ← spanFrom start⟩)
      | .symbol .leftParen =>
        let opening ← bump
        let arguments ← Grammar.arguments r
        let behind ← spanFrom opening.span.start
        return .again ⟨.call e arguments, e.span.join (Span.point behind.stop)⟩
      | _ => return .done e) where
  done e tail htail := by
    apply Reads.peekKind
    split
    · rename_i hkind
      exact absurd hkind (Lexeme.kind_ne_of_reach htail (by decide))
    · rename_i hkind
      exact absurd hkind (Lexeme.kind_ne_of_reach htail (by decide))
    · exact Reads.yield ⟨e, rfl, rfl⟩
  again e he hrung := by
    rcases he.link hrung with ⟨left, name, place, span, rfl, hleft⟩ |
      ⟨callee, arguments, span, rfl, hcallee, harguments⟩
    · refine ⟨left, .symbol .dot, [.identifier name], hleft, ?_, rfl, ?_⟩
      · simp [Expr.write, Node.write, Operator.lexemes]
      intro tail _ _ left' hleft'
      refine Reads.peekKind (Reads.bump fun _ _ => Reads.here fun start =>
        Reads.identifier ?_)
      refine Reads.spanFrom fun span' => Reads.yield ⟨_, rfl, ?_⟩
      simp only [Expr.binary, Expr.bare, Node.bare, hleft']
    · refine ⟨callee, .symbol .leftParen,
        Lexeme.separated (.symbol .comma) (Expr.writeEach arguments) ++
          [.symbol .rightParen], hcallee, ?_,
        rfl, ?_⟩
      · simp [Expr.write, Node.write, Lexeme.enclosed]
      intro tail _ hlength callee' hcallee'
      rw [List.cons_append, List.append_assoc, List.singleton_append] at hlength ⊢
      refine Reads.peekKind (Reads.bump fun opening _ => ?_)
      apply (arguments_reads hexpression harguments
        (Nat.lt_of_succ_lt_succ hlength)).bind
      intro es hes
      refine Reads.spanFrom fun span' => Reads.yield ⟨_, rfl, ?_⟩
      simp only [Expr.bare, Node.bare, hcallee', hes]

/-- A chain of calls and accesses is read. -/
theorem chain_complete {r : Rules ParseState}
    (hexpression : Complete n 3 r.expression) :
    Complete (n + 1) 15 (chain r) :=
  loop_complete (chain_links hexpression) (primary_complete hexpression)

/-! ## Powers and signs -/

/-- No token continues a formula on the rung of signs. -/
theorem reach_ne_sign : ∀ kind : TokenKind, kind.reach ≠ 13 := by decide

/-- A power is read. -/
theorem power_complete {r : Rules ParseState}
    (hexpression : Complete n 3 r.expression) (hsigned : Complete n 13 r.signed) :
    Complete (n + 1) 14 (power r) := by
  intro e he tail htail hlength
  by_cases hrung : e.rung = 14
  · obtain ⟨base, exponent, span, rfl, hbase, hexponent⟩ := he.power hrung
    have hwrite : Expr.write ⟨.binary .exponent base exponent, span⟩ ++ tail =
        base.write ++ .symbol .caret :: (exponent.write ++ tail) := by
      simp [Expr.write, Node.write, Operator.lexemes]
    rw [hwrite] at hlength ⊢
    have hreach : Lexeme.reach (.symbol .caret :: (exponent.write ++ tail)) <
        15 := by
      show 14 < 15
      decide
    apply (chain_complete hexpression base hbase _ hreach hlength).bind
    intro base' hbase'
    apply Reads.eat rfl
    have hlower : Lexeme.reach tail < 13 := by
      have hne := reach_ne_sign (tail.headD .endOfText).kind
      unfold Lexeme.reach at htail ⊢
      omega
    have hlength' : (exponent.write ++ tail).length < n := by
      rw [List.length_append, List.length_cons] at hlength
      omega
    apply (hsigned exponent hexponent tail hlower hlength').bind
    intro exponent' hexponent'
    apply Reads.yield
    simp only [Expr.binary, Expr.bare, Node.bare, hbase', hexponent']
  · apply (chain_complete hexpression e
      (he.higher hrung) tail (by omega) hlength).bind
    intro e' he'
    have hkind : (tail.headD .endOfText).kind ≠ .symbol .caret :=
      Lexeme.kind_ne_of_reach htail (by decide)
    exact Reads.not_eat hkind (Reads.yield he')

/-- An expression with signs before it is read. -/
theorem signed_complete {r : Rules ParseState}
    (hexpression : Complete n 3 r.expression) (hsigned : Complete n 13 r.signed) :
    Complete (n + 1) 13 (signed r) := by
  intro e he tail htail hlength
  apply Reads.peek
  intro t ht
  by_cases hrung : e.rung = 13
  · obtain ⟨o, operand, span, rfl, ho, hoperand⟩ := he.sign hrung
    obtain ⟨x, hx, hsign, _⟩ := sign_token ho
    have hwrite : Expr.write ⟨.unary o operand, span⟩ ++ tail =
        x :: (operand.write ++ tail) := by
      simp [Expr.write, Node.write, hx]
    rw [hwrite] at ht hlength ⊢
    have hkind : t.kind = x.kind := congrArg Lexeme.kind ht
    rw [hkind, hsign]
    apply Reads.bump
    intro _ _
    apply (hsigned operand hoperand tail htail
      (Nat.lt_of_succ_lt_succ hlength)).bind
    intro operand' hoperand'
    apply Reads.yield
    simp only [Expr.unary, Expr.bare, Node.bare, hoperand']
  · have hhigher := he.higher hrung
    have hsign : sign? t.kind = none := by
      rw [Token.kind, ht, headD_write_append]
      exact formula_head_sign hhigher.formula hhigher.respects hhigher.rung_le
    rw [hsign]
    exact power_complete hexpression hsigned e hhigher tail
      (Nat.lt_succ_of_lt htail) hlength

/-! ## The ladder -/

/-- The operand of a comparison is read. -/
theorem comparand_complete {r : Rules ParseState}
    (hexpression : Complete n 3 r.expression) (hsigned : Complete n 13 r.signed) :
    Complete (n + 1) 10 (comparand r) := by
  have hfactors := signed_complete hexpression hsigned
  have hterms := leftAssoc_complete multiplicative_isLevel hfactors
  have hpieces := leftAssoc_complete additive_isLevel hterms
  exact leftAssoc_complete concatenation_isLevel hpieces

/-- What is written on the rung of type tests is read. -/
theorem typeTest_complete {r : Rules ParseState}
    (hexpression : Complete n 3 r.expression) (hsigned : Complete n 13 r.signed) :
    Complete (n + 1) 8 (typeTest r) := by
  have hcomparisons :=
    leftAssoc_complete comparison_isLevel (comparand_complete hexpression hsigned)
  exact loop_complete typeTest_links hcomparisons

/-- Assignments are found by their tokens. -/
theorem assignment_found : ∀ o : Operator, o.isAssignment = true →
    o.lexemes.map (fun x => (assignment? x.kind, x.kind.reach)) =
      [(some o, 3)] := by decide

/-- An assignment is found by its token. -/
theorem assignment_token {o : Operator} (h : o.isAssignment = true) :
    ∃ x, o.lexemes = [x] ∧ assignment? x.kind = some o ∧ x.kind.reach = 3 := by
  obtain ⟨x, hx, hpair⟩ := List.map_eq_singleton_iff.mp (assignment_found o h)
  obtain ⟨hassign, hreach⟩ := Prod.mk.inj hpair
  exact ⟨x, hx, hassign, hreach⟩

/-- Tokens that an expression cannot go on with are no assignments. -/
theorem assignment?_of_reach :
    ∀ kind : TokenKind, kind.reach < 3 → assignment? kind = none := by decide

/-- What is written on the lowest rung is read. -/
theorem expression_complete {r : Rules ParseState}
    (hexpression : Complete n 3 r.expression) (hsigned : Complete n 13 r.signed) :
    Complete (n + 1) 3 (expression r) := by
  have hconjuncts :=
    leftAssoc_complete conjunction_isLevel (typeTest_complete hexpression hsigned)
  have hdisjuncts := leftAssoc_complete disjunction_isLevel hconjuncts
  have hpipes := leftAssoc_complete piping_isLevel hdisjuncts
  have hleft := leftAssoc_complete coalescing_isLevel hpipes
  intro e he tail htail hlength
  by_cases hrung : e.rung = 3
  · obtain ⟨o, name, place, right, span, rfl, ho, hright⟩ := he.assignment hrung
    obtain ⟨x, hx, hassign, hreach⟩ := assignment_token ho
    have hwrite : Expr.write ⟨.binary o ⟨.name name, place⟩ right, span⟩ ++ tail =
        Expr.write ⟨.name name, place⟩ ++ x :: (right.write ++ tail) := by
      simp [Expr.write, Node.write, hx]
    rw [hwrite] at hlength ⊢
    have htarget : Expr.Fits 4 ⟨.name name, place⟩ :=
      ⟨.name, .name, by simp [Expr.rung]⟩
    have hlower : Lexeme.reach (x :: (right.write ++ tail)) < 4 := by
      show x.kind.reach < 4
      omega
    refine (hleft _ htarget _ hlower hlength).bind fun target htarget' =>
      Reads.peek ?_
    intro t ht
    have hkind : t.kind = x.kind := congrArg Lexeme.kind ht
    rw [hkind, hassign]
    apply Reads.bump
    intro _ _
    -- The name is still one, so it can be assigned to.
    rw [Expr.node_eq_name htarget']
    replace htarget' : target.bare = ⟨.name name, default⟩ := htarget'
    have hlength' : (right.write ++ tail).length < n := by
      simp only [List.length_append, List.length_cons] at hlength ⊢
      omega
    refine (hexpression right hright tail htail hlength').bind fun right' hright' =>
      Reads.yield ?_
    simp only [Expr.binary, Expr.bare, Node.bare, htarget', hright']
  · apply (hleft e (he.higher hrung) tail (Nat.lt_succ_of_lt htail) hlength).bind
    intro e' he'
    apply Reads.peek
    intro t ht
    have hnone : assignment? t.kind = none := by
      refine assignment?_of_reach _ ?_
      rw [Token.kind, ht]
      exact htail
    rw [hnone]
    exact Reads.yield he'

end Grammar

/-! ## Whole texts -/

/-- Both rules that formulas are nested by are complete. -/
theorem Rules.upTo_complete (n : Nat) :
    Parse.Complete n 3 (Rules.upTo n).expression ∧
      Parse.Complete n 13 (Rules.upTo n).signed := by
  induction n with
  | zero =>
      constructor
      · exact fun _ _ _ _ h => absurd h (Nat.not_lt_zero _)
      · exact fun _ _ _ _ h => absurd h (Nat.not_lt_zero _)
  | succ n ih =>
      obtain ⟨hexpression, hsigned⟩ := ih
      rw [Rules.upTo_succ]
      exact ⟨Grammar.expression_complete hexpression hsigned,
        Grammar.signed_complete hexpression hsigned⟩

theorem Parse.expression_eq (s : ParseState) :
    Parse.expression s = (Rules.upTo (s.rest.length + 1)).expression s := rfl

/-- A text is parsed to its end, and without an error, as a given expression up to
its spans. -/
def Parse.ParsesAs (limit : Nat) (source : String) (e : Expr) : Prop :=
  ∃ e' s', Parse.expression (ParseState.ofText limit source) = (some e', s') ∧
    e'.bare = e.bare ∧
    s'.errors = #[] ∧ s'.atEnd = true

/-- An operator expression that respects the ladder is parsed back from every text
that writes it with no parentheses added. -/
theorem Parse.parsesAs_of_lexemes (limit : Nat) (source : String) (e : Expr)
    (hformula : e.IsFormula (· ≠ .null)) (hrespects : e.Respects)
    (hlexemes : Lexed.lexemes (Lexed.ofText limit source) =
      e.write ++ [.endOfText]) :
    Parse.ParsesAs limit source e := by
  let s := ParseState.ofText limit source
  have hahead : s.ahead = e.write ++ [.endOfText] := by
    rw [ParseState.ahead_ofText]
    exact hlexemes
  have hfits : e.Fits 3 := ⟨hformula, hrespects, hformula.three_le_rung⟩
  have hreach : Lexeme.reach [Lexeme.endOfText] < 3 := by decide
  have hlength : (e.write ++ [Lexeme.endOfText]).length < s.rest.length + 1 := by
    rw [← hahead, ParseState.length_ahead]
    exact Nat.lt_succ_self _
  have hreads :=
    (Rules.upTo_complete (s.rest.length + 1)).1 e hfits [.endOfText] hreach hlength
  obtain ⟨e', s', hrun, hbare, hbehind, herrors⟩ := hreads s hahead
  refine ⟨e', s', (Parse.expression_eq s).trans hrun, hbare, herrors, ?_⟩
  have htoken : s'.token.lexeme = .endOfText := by
    rw [ParseState.lexeme_token, hbehind]
    rfl
  simp [ParseState.atEnd, Token.kind, htoken, Lexeme.kind]

/-- The tree of `x = a - -b ^ c.d(1) is not int`. -/
def mixedFormula : Expr :=
  let member : Expr :=
    ⟨.binary .access ⟨.name "c", default⟩ ⟨.name "d", default⟩, default⟩
  let exponent : Expr := ⟨.call member [⟨.literal (.integer 1), default⟩], default⟩
  let power : Expr := ⟨.binary .exponent ⟨.name "b", default⟩ exponent, default⟩
  let difference : Expr :=
    ⟨.binary .subtract ⟨.name "a", default⟩ ⟨.unary .negate power, default⟩,
      default⟩
  let test : Expr := ⟨.binary .isNot difference ⟨.type .int, default⟩, default⟩
  ⟨.binary .assign ⟨.name "x", default⟩ test, default⟩

theorem mixedFormula_parsed :
    mixedFormula.IsFormula (· ≠ .null) ∧ mixedFormula.Respects ∧
      Lexed.lexemes (Lexed.ofText 4096 "x = a - -b ^ c.d(1) is not int") =
        mixedFormula.write ++ [.endOfText] ∧
      Parse.ParsesAs 4096 "x = a - -b ^ c.d(1) is not int" mixedFormula := by
  have hformula : mixedFormula.IsFormula (· ≠ .null) := by
    refine .binary rfl .name (.typeTest rfl
      (.binary rfl .name (.sign rfl (.binary rfl .name ?_))))
    refine .call (.binary rfl .name .name) ?_
    intro e he
    rw [List.mem_singleton.mp he]
    exact .literal
  have hrespects : mixedFormula.Respects := by
    refine .binary ⟨⟨"x", rfl⟩, by decide⟩ .name
      (.binary ⟨by decide, .int, rfl⟩ ?_ .type)
    refine .binary ⟨by decide, by decide⟩ .name (.unary (Nat.le_succ 13) ?_)
    refine .binary ⟨by decide, by decide⟩ .name (.call (by decide) ?_ ?_)
    · exact .binary ⟨by decide, "d", rfl⟩ .name .name
    · intro e he
      rw [List.mem_singleton.mp he]
      exact .literal
  have hlexemes : Lexed.lexemes
    (Lexed.ofText 4096 "x = a - -b ^ c.d(1) is not int") =
      mixedFormula.write ++ [.endOfText] := by decide +kernel
  exact ⟨hformula, hrespects, hlexemes,
    Parse.parsesAs_of_lexemes 4096 _ _ hformula hrespects hlexemes⟩

/-- The rung of an expression does not depend on places. -/
theorem Expr.rung_bare (e : Expr) : e.bare.rung = e.rung := by
  obtain ⟨node, span⟩ := e
  cases node <;> rfl

/-- A cast to null is written like a call of null, and parsed as one. -/
theorem nullCast_not_parsed :
    let e : Expr := ⟨.cast .null ⟨.name "x", default⟩, default⟩
    e.IsFormula (fun _ => True) ∧ e.Respects ∧
      Lexed.lexemes (Lexed.ofText 4096 "null(x)") = e.write ++ [.endOfText] ∧
      ¬ Parse.ParsesAs 4096 "null(x)" e := by
  refine ⟨.cast trivial .name, .cast .name, by decide +kernel, ?_⟩
  rintro ⟨e', s', hrun, hbare, _⟩
  have hcall : (Parse.expression (ParseState.ofText 4096 "null(x)")).1.map
      Expr.rung = some 15 := by
    decide +kernel
  rw [hrun] at hcall
  have hrung : e'.rung = 15 := Option.some.inj hcall
  rw [← Expr.rung_bare, hbare] at hrung
  exact absurd hrung (by decide)

end ScriptLang
