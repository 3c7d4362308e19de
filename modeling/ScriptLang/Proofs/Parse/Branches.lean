import ScriptLang.Proofs.Parse.Patterns
import ScriptLang.Proofs.Parse.Progress

/-!
# Patterns of a `match`

A text with one branch, `match (x) { _: 0; }`, puts an expression where a pattern is
expected.  If the expression fits (`Node.fitsPattern`) the text is parsed without an
error, and the pattern of its branch is the expression; if it does not fit there is
a syntax error (`Parse.asBranch_of_lexemes`).
-/

namespace ScriptLang

/-! ## Trees and tokens -/

/-- The branch `_: 0;` of a pattern. -/
def Branch.ofPattern (pattern : Expr) : Branch :=
  ⟨some pattern, ⟨.literal (.integer 0), default⟩, default⟩

/-- The tree of `match (x) { _: 0; }` with a pattern in place of the blank. -/
def Expr.asBranch (pattern : Expr) : Expr :=
  ⟨.matching ⟨.name "x", default⟩ [Branch.ofPattern pattern], default⟩

/-- The tokens of a branch behind its pattern. -/
def Lexeme.branchEnd : List Lexeme :=
  [.symbol .colon, .integer 0, .symbol .semicolon]

/-- The tokens of `match (x) { _: 0; }` with those of a pattern in place of the
blank. -/
def Lexeme.asBranch (pattern : List Lexeme) : List Lexeme :=
  [.keyword .match_, .symbol .leftParen, .identifier "x", .symbol .rightParen,
    .symbol .leftBrace] ++
    pattern ++ branchEnd ++ [.symbol .rightBrace]

/-- The end of the text stands at the end only. -/
theorem Lexed.endOfText_not_mem {limit : Nat} {source : String} {l : List Lexeme}
    (h : lexemes (ofText limit source) = l ++ [.endOfText]) : .endOfText ∉ l := by
  have htokens :=
    congrArg (List.map Token.lexeme) (Entry.map_token_ofText limit source)
  rw [List.map_map, List.map_append, List.map_singleton] at htokens
  have hl : l = (Token.ofText limit source).map Token.lexeme := by
    refine List.append_cancel_right (h.symm.trans ?_)
    rw [← ParseState.ahead_ofText]
    exact htokens
  rw [hl]
  intro hmem
  obtain ⟨t, ht, hlexeme⟩ := List.mem_map.mp hmem
  exact Token.ofText_kind_ne ht (congrArg Lexeme.kind hlexeme)

namespace Grammar

open Parse ParseState

variable {n : Nat} {r : Rules ParseState} {s : ParseState}

/-! ## A pattern that is read -/

/-- An expression in parentheses is read. -/
theorem parenthesised_reads (hexpression : Complete n 3 r.expression) {e : Expr}
    (he : e.Fits 3) {tail : List Lexeme}
    (hlength : (Lexeme.enclosed e.write ++ tail).length < n + 1) :
    Reads (parenthesised r) (Lexeme.enclosed e.write ++ tail) tail fun e' =>
      e'.bare = e.bare := by
  rw [enclosed_append]
  refine Reads.expect rfl (nested_reads hexpression he hlength
    fun inner hinner => ?_)
  exact Reads.expect rfl (Reads.yield hinner)

/-- What `match (x) {` leaves to do. -/
theorem matching_eq (hexpression : Complete n 3 r.expression) {l : List Lexeme}
    (hs : s.ahead = .keyword .match_ ::
      (Lexeme.enclosed [.identifier "x"] ++ .symbol .leftBrace :: l))
    (hlength : s.rest.length ≤ n) :
    ∃ argument u, argument.bare = ⟨.name "x", default⟩ ∧ u.ahead = l ∧
      u.errors = s.errors ∧
      matching r s = (repeating (branchTurn r) [] >>=
        fun branches => expect (.symbol .rightBrace) >>= fun _ =>
        spanFrom s.token.span.start >>= fun span =>
          yield ⟨.matching argument branches, span⟩) u := by
  have hfits : Expr.Fits 3 ⟨.name "x", default⟩ := ⟨.name, .name, by decide⟩
  rw [← length_ahead, hs, List.length_cons] at hlength
  have htake : s.take.ahead = Lexeme.enclosed [.identifier "x"] ++
      .symbol .leftBrace :: l := by
    rw [ahead_take, hs]
    rfl
  obtain ⟨argument, u, hrun, hbare, hahead, herrors⟩ :=
    parenthesised_reads hexpression hfits (Nat.lt_succ_of_lt hlength) s.take htake
  have hkind : u.token.kind = .symbol .leftBrace := by
    rw [Token.kind, lexeme_token, hahead]
    rfl
  refine ⟨argument, u.take, hbare, ?_, herrors, ?_⟩
  · rw [ahead_take, hahead]
    rfl
  · unfold matching
    rw [bind_of_some (p := bump) rfl, bind_of_some hrun,
      bind_of_some (expect_of_eq hkind)]
    rfl

/-- A branch with a pattern that is not the default. -/
theorem branch_reads (hexpression : Complete n 3 r.expression) {pattern : Expr}
    {l tail : List Lexeme}
    (hstarts : startsExpression (l.headD .endOfText).kind = true)
    (hpattern : Reads r.pattern l (Lexeme.branchEnd ++ tail) fun e =>
      e.bare = pattern.bare)
    (hlength : tail.length + 2 < n) (hasDefault : Bool) :
    Reads (branch r hasDefault) l tail fun b => b.bare =
      (Branch.ofPattern pattern).bare := by
  have hsome : Reads (some <$> r.pattern) l (Lexeme.branchEnd ++ tail) fun p =>
      Expr.bare? p = some pattern.bare :=
    Reads.bind hpattern fun e he => Reads.yield (congrArg some he)
  have hzero : Reads (body r) (.integer 0 :: .symbol .semicolon :: tail)
    (.symbol .semicolon :: tail)
      fun e => e.bare = ⟨.literal (.integer 0), default⟩ := by
    refine Reads.peekKind ?_
    have hfits : Expr.Fits 3 ⟨.literal (.integer 0), default⟩ :=
      ⟨.literal, .literal, by decide⟩
    have hreach : Lexeme.reach (.symbol .semicolon :: tail) < 3 := by
      show 0 < 3
      decide
    exact hexpression _ hfits (.symbol .semicolon :: tail) hreach hlength
  refine Reads.here fun start => Reads.not_eat (kind_ne_of_starts hstarts rfl)
    (hsome.bind fun p hp => ?_)
  refine Reads.expect rfl (hzero.bind fun consequent hconsequent =>
    Reads.expect rfl ?_)
  refine Reads.spanFrom fun span => Reads.yield ?_
  simp [Branch.ofPattern, Branch.bare, Expr.bare?, Expr.bare, Node.bare,
    hp, hconsequent]

/-- What begins an expression ends no `match`. -/
theorem branchTurn_eq (before : List Branch)
    (hstarts : startsExpression s.token.kind = true) :
    branchTurn r before s = (branch r (before.any fun b => b.pattern.isNone) >>=
      fun next =>
      yield (.again (before ++ [next]))) (s.look 1) := by
  unfold branchTurn
  rw [bind_of_some (p := peekKind) rfl]
  refine congrFun ?_ (s.look 1)
  split
  · rename_i hkind
    exact absurd hkind (kind_ne_of_starts hstarts rfl)
  · rename_i hkind
    exact absurd hkind (kind_ne_of_starts hstarts rfl)
  · rfl

/-- A single branch and the brace behind it. -/
theorem branches_reads (hexpression : Complete n 3 r.expression) {pattern : Expr}
    {l tail : List Lexeme}
    (hstarts : startsExpression (l.headD .endOfText).kind = true)
    (hpattern : Reads r.pattern l (Lexeme.branchEnd ++ .symbol .rightBrace :: tail)
      fun e => e.bare = pattern.bare)
    (hlength : tail.length + 3 < n) (hless : tail.length + 1 < l.length) :
    Reads (repeating (branchTurn r) []) l (.symbol .rightBrace :: tail)
      fun branches =>
      branches.map Branch.bare = [(Branch.ofPattern pattern).bare] := by
  have hstart : Loops (yield []) (branchTurn r) l l fun branches => branches = [] :=
    Reads.loops (Reads.yield rfl)
  have hfirst : Loops (yield []) (branchTurn r) l (.symbol .rightBrace :: tail)
      fun branches =>
      branches.map Branch.bare = [(Branch.ofPattern pattern).bare] := by
    refine hstart.again ?_ hless
    rintro _ rfl s hs
    have hkind : startsExpression s.token.kind = true := by
      rw [Token.kind, lexeme_token, hs]
      exact hstarts
    rw [branchTurn_eq [] hkind]
    refine (branch_reads hexpression hstarts hpattern hlength _).bind
      (fun b hb => Reads.yield ?_) (s.look 1) hs
    exact ⟨[b], rfl, by simp [hb]⟩
  refine hfirst.done fun branches hbranches => ?_
  exact Reads.peekKind (Reads.yield ⟨branches, rfl, hbranches⟩)

/-- The tokens of a match with one branch, piece by piece. -/
theorem asBranch_eq (l tail : List Lexeme) :
    Lexeme.asBranch l ++ tail = .keyword .match_ ::
      (Lexeme.enclosed [.identifier "x"] ++ .symbol .leftBrace ::
      (l ++ (Lexeme.branchEnd ++ .symbol .rightBrace :: tail))) := by
  simp [Lexeme.asBranch, Lexeme.enclosed]

/-- What begins with an expression does so with more behind it. -/
theorem starts_append {l : List Lexeme}
    (h : startsExpression (l.headD .endOfText).kind = true) (l' : List Lexeme) :
    startsExpression ((l ++ l').headD .endOfText).kind = true := by
  cases l with
  | nil => cases h
  | cons x l => exact h

/-- A match with one branch is read if its pattern is. -/
theorem matching_reads (hexpression : Complete n 3 r.expression) {pattern : Expr}
    {l tail : List Lexeme}
    (hstarts : startsExpression (l.headD .endOfText).kind = true)
    (hpattern : Reads r.pattern
      (l ++ (Lexeme.branchEnd ++ .symbol .rightBrace :: tail))
      (Lexeme.branchEnd ++ .symbol .rightBrace :: tail) fun e =>
      e.bare = pattern.bare)
    (hlength : (Lexeme.asBranch l ++ tail).length ≤ n) :
    Reads (matching r) (Lexeme.asBranch l ++ tail) tail fun e => e.bare =
      pattern.asBranch.bare := by
  intro s hs
  have hrest : s.rest.length ≤ n := by rwa [← length_ahead, hs]
  rw [asBranch_eq] at hs hlength
  simp only [Lexeme.enclosed, Lexeme.branchEnd, List.length_append,
    List.length_cons, List.length_nil] at hlength
  obtain ⟨argument, u, hargument, hu, herrors, hrun⟩ :=
    matching_eq hexpression hs hrest
  obtain ⟨branches, v, hbranches, hbare, hv, herrors'⟩ :=
    branches_reads hexpression (starts_append hstarts _)
    hpattern (by omega) (by simp [Lexeme.branchEnd]; omega) u hu
  have hkind : v.token.kind = .symbol .rightBrace := by
    rw [Token.kind, lexeme_token, hv]
    rfl
  rw [hrun, bind_of_some hbranches, bind_of_some (expect_of_eq hkind)]
  refine ⟨_, v.take, rfl, ?_, ?_, herrors'.trans herrors⟩
  · simp [Expr.asBranch, Expr.bare, Node.bare, Branch.bareEach_eq_map,
      hargument, hbare]
  · rw [ahead_take, hv]
    rfl

/-! ## A pattern that is refused -/

section Raises

variable {more : List Lexeme} (hr : r.Follow more n r)
include hr

/-- A turn of the loop over branches puts no token back and takes no error back. -/
theorem branchTurn_onward (before : List Branch) (s : ParseState)
    (hs : s.rest.length < n) :
    s.Onward (branchTurn r before s).2 := by
  by_cases hkind : s.token.kind = .endOfText
  · rw [branchTurn_last before hkind]
    exact ⟨Nat.le_refl _, Nat.le_refl _⟩
  · exact (branchTurn_followsAt hr rfl hs hkind).1

/-- A branch whose pattern is refused misses its colon. -/
theorem branch_raises (hs : s.rest.length < n)
    (hstarts : startsExpression s.token.kind = true)
    (h : ∀ u, s.Still u → Refuses u r.pattern) (hasDefault : Bool) :
    s.errors.size < (branch r hasDefault s).2.errors.size := by
  have hdefault : s.token.kind ≠ .keyword .default := kind_ne_of_starts hstarts rfl
  have hpattern : Follows more n (some <$> r.pattern) (some <$> r.pattern)
      (fun _ => ()) free :=
    hr.pattern.map fun _ _ _ => rfl
  have hbranch : branch r hasDefault s =
      ((some <$> r.pattern) >>= branchBehind r s.token.span.start)
        ((s.look 1).look 1) := by
    unfold branch
    rw [bind_of_some (p := here) rfl]
    exact eat_bind_of_ne (s := s.look 1) hdefault
  rw [hbranch]
  refine ((h ((s.look 1).look 1) ⟨rfl, rfl⟩).map some).raises rfl
    (hpattern ((s.look 1).look 1) hs).1 hs ?_
  exact fun pattern u hu =>
    (consequence_follows hr s.token.span.start s.token.span.start rfl u hu).1

/-- A `match` whose only pattern is refused. -/
theorem matching_raises (hexpression : Complete n 3 r.expression)
    {l tail : List Lexeme} (hs : s.ahead = Lexeme.asBranch l ++ tail)
    (hlength : s.rest.length ≤ n)
    (hstarts : startsExpression (l.headD .endOfText).kind = true)
    (h : ∀ u, u.ahead = l ++ (Lexeme.branchEnd ++ .symbol .rightBrace :: tail) →
      Refuses u r.pattern) :
    s.errors.size < (matching r s).2.errors.size := by
  rw [asBranch_eq] at hs
  obtain ⟨argument, u, _, hu, herrors, hrun⟩ := matching_eq hexpression hs hlength
  rw [hrun, ← herrors]
  have hless : u.rest.length < n := by
    rw [← length_ahead, hs] at hlength
    rw [← length_ahead, hu]
    simp only [Lexeme.enclosed, List.length_append, List.length_cons,
      List.length_nil] at hlength ⊢
    omega
  have hkind : startsExpression u.token.kind = true := by
    rw [Token.kind, lexeme_token, hu]
    exact starts_append hstarts _
  have hturn : u.errors.size < (branchTurn r [] u).2.errors.size := by
    rw [branchTurn_eq [] hkind]
    have hbranch := branch_raises hr (s := u.look 1) hless hkind
      (fun v hv => h v (hv.ahead_eq.trans hu)) false
    rw [snd_bind_yield]
    exact hbranch
  have hraises := repeating_raises (branchTurn_onward hr) hless hturn
  have honward := iterate_onward (branchTurn_onward hr) (u.rest.length + 1) [] hless
  exact Refuses.raises (.inl hraises) rfl honward hless fun _ v _ => Onward.refl v

end Raises

/-! ## Whole texts -/

/-- The keyword `match` begins a match. -/
theorem primary_of_match (h : s.token.lexeme = .keyword .match_) :
    primary r s = matching r (s.look 1) := by
  unfold primary
  rw [bind_of_some (p := peek) rfl, h]
  rfl

/-- What an expression that comes to the end of its text without an error is as a
pattern. -/
theorem pattern_of_text {limit : Nat} {source : String} {l : List Lexeme} {e : Expr}
    {u : ParseState}
    (hlexemes : Lexed.lexemes (Lexed.ofText limit source) = l ++ [.endOfText])
    (hrun : Parse.expression (ParseState.ofText limit source) = (some e, u))
    (herrors : u.errors = #[]) (hend : u.atEnd = true) (more : List Lexeme)
    {m : Nat} (hm : (l ++ .symbol .colon :: more).length < m) :
    startsExpression (l.headD .endOfText).kind = true ∧
    (e.node.fitsPattern = true →
      Reads (Rules.upTo m).pattern (l ++ .symbol .colon :: more)
      (.symbol .colon :: more) fun e' => e'.bare = e.bare) ∧
    (e.node.fitsPattern = false → ∀ s' : ParseState,
      s'.ahead = l ++ .symbol .colon :: more →
      Refuses s' (Rules.upTo m).pattern) := by
  let s := ParseState.ofText limit source
  have hahead : s.ahead = l ++ [.endOfText] :=
    (ahead_ofText limit source).trans hlexemes
  have hclean : u.errors.size = s.errors.size := by
    rw [herrors]
    rfl
  have hlast : u.token.kind = .endOfText := by simpa [atEnd] using hend
  rw [Parse.expression_eq] at hrun
  have hpattern : ∀ s' : ParseState, s'.ahead = l ++ .symbol .colon :: more →
      (e.node.fitsPattern = true → ReadAs more e u s' (Rules.upTo m).pattern) ∧
      (e.node.fitsPattern = false → Refuses s' (Rules.upTo m).pattern) := by
    intro s' hs'
    have hbeside : s.Beside more s' :=
      ⟨l, Lexed.endOfText_not_mem hlexemes, hahead, hs'⟩
    have hless : s'.rest.length < m := by rwa [← length_ahead, hs']
    refine upTo_pattern more ?_ (Nat.lt_succ_self _) hless hbeside hrun
      hclean (.inl hlast)
    have hle := hbeside.length_le
    show s.rest.length + 1 ≤ m
    omega
  refine ⟨?_, fun hfits s' hs' => ?_, fun hnot s' hs' => (hpattern s' hs').2 hnot⟩
  · cases hstarts : startsExpression s.token.kind with
    | false => exact (upTo_missing _ hstarts e u hrun).elim
    | true =>
        rw [Token.kind, lexeme_token, hahead] at hstarts
        cases l with
        | nil => cases hstarts
        | cons x l => exact hstarts
  · obtain ⟨e', u', hrun', hbare, hbeside', hkept⟩ := (hpattern s' hs').1 hfits
    exact ⟨e', u', hrun', hbare, hbeside'.ahead_eq hlast, hkept⟩

end Grammar

namespace Parse

open Grammar ParseState

/-- An expression that is parsed to the end of its text without an error is a
pattern if it fits, and a syntax error otherwise. -/
theorem asBranch_of_lexemes (limit limit' : Nat) (source source' : String)
    (l : List Lexeme) (e : Expr) (u : ParseState)
    (hlexemes : Lexed.lexemes (Lexed.ofText limit source) = l ++ [.endOfText])
    (hrun : Parse.expression (ofText limit source) = (some e, u))
    (herrors : u.errors = #[]) (hend : u.atEnd = true)
    (hlexemes' : Lexed.lexemes (Lexed.ofText limit' source') =
      Lexeme.asBranch l ++ [.endOfText]) :
    (e.node.fitsPattern = true → ParsesAs limit' source' e.asBranch) ∧
    (e.node.fitsPattern = false →
      (Parse.expression (ofText limit' source')).2.errors ≠ #[]) := by
  let s := ofText limit' source'
  let r : Rules ParseState := Rules.upTo s.rest.length
  have hahead : s.ahead = Lexeme.asBranch l ++ [.endOfText] :=
    (ahead_ofText limit' source').trans hlexemes'
  have hlength : (Lexeme.asBranch l ++ [Lexeme.endOfText]).length =
      s.rest.length := by
    rw [← hahead, length_ahead]
  have hlayer : Parse.expression (ofText limit' source') =
      Grammar.expression r s := by
    rw [Parse.expression_eq, Rules.upTo_succ]
    rfl
  have hexpression : Complete s.rest.length 3 r.expression :=
    (Rules.upTo_complete _).1
  have hlexeme : s.token.lexeme = .keyword .match_ := by
    rw [lexeme_token, hahead]
    rfl
  have hsign : sign? s.token.kind = none := by
    rw [Token.kind, hlexeme]
    rfl
  have hprimary : primary r (s.look 1) = matching r ((s.look 1).look 1) :=
    primary_of_match (s := s.look 1) hlexeme
  have hpattern :
      (l ++ (Lexeme.branchEnd ++ [Lexeme.symbol .rightBrace, .endOfText])).length <
      s.rest.length := by
    rw [← hlength, asBranch_eq]
    simp only [Lexeme.enclosed, List.length_append, List.length_cons,
      List.length_nil]
    omega
  obtain ⟨hstarts, hfits, hrefuses⟩ :=
    pattern_of_text hlexemes hrun herrors hend _ hpattern
  constructor
  · intro h
    obtain ⟨e', v, hmatching, hbare, hv, hkept⟩ :=
      matching_reads hexpression hstarts (hfits h)
      (Nat.le_of_eq hlength) ((s.look 1).look 1) hahead
    have hlast : v.token.kind = .endOfText := by
      rw [Token.kind, lexeme_token, hv]
      rfl
    have hreach : v.token.kind.reach = 0 := by
      rw [hlast]
      rfl
    obtain ⟨w, hw, hwhole⟩ :=
      (expression_restsOn hsign).idle e' v (hprimary.trans hmatching) hreach
    refine ⟨e', w, hlayer.trans hwhole, hbare, hw.errors_eq.trans hkept, ?_⟩
    simpa [atEnd, hw.kind_eq] using hlast
  · intro h hclean
    have hself := Rules.upTo_follow [] (Nat.le_refl s.rest.length)
    have hraises : s.errors.size < (matching r ((s.look 1).look 1)).2.errors.size :=
      matching_raises hself hexpression (s := (s.look 1).look 1) hahead
        (Nat.le_refl _) hstarts (hrefuses h)
    rw [← hprimary] at hraises
    have hpos : 0 < (Grammar.expression r s).2.errors.size :=
      Nat.lt_of_lt_of_le hraises
        (errors_le_expression hself (Nat.lt_succ_self _) hsign)
    rw [← hlayer, hclean] at hpos
    exact absurd hpos (Nat.lt_irrefl 0)

/-- Two pairs of parentheses around a sum make a pattern, and two pairs around its
first term make none. -/
theorem doubleGroup_asBranch :
    (∃ e u, Parse.expression (ofText 4096 "((1 + 2))") = (some e, u) ∧
      u.errors = #[] ∧
      u.atEnd = true ∧ ParsesAs 4096
        "match (x) \x7b ((1 + 2)): 0; \x7d" e.asBranch) ∧
    ∃ e u, Parse.expression (ofText 4096 "((1)) + 2") = (some e, u) ∧
      u.errors = #[] ∧
      u.atEnd = true ∧
      (Parse.expression (ofText 4096
        "match (x) \x7b ((1)) + 2: 0; \x7d")).2.errors ≠ #[] := by
  let paren : Lexeme := .symbol .leftParen
  let close : Lexeme := .symbol .rightParen
  have hsum : ((Parse.expression (ofText 4096 "((1 + 2))")).1.map fun e =>
    e.node.fitsPattern) =
      some true := by decide +kernel
  have hsumEnd : (Parse.expression (ofText 4096 "((1 + 2))")).2.errors = #[] ∧
      (Parse.expression (ofText 4096 "((1 + 2))")).2.atEnd = true := by
        decide +kernel
  have hterm : ((Parse.expression (ofText 4096 "((1)) + 2")).1.map fun e =>
    e.node.fitsPattern) =
      some false := by decide +kernel
  have htermEnd : (Parse.expression (ofText 4096 "((1)) + 2")).2.errors = #[] ∧
      (Parse.expression (ofText 4096 "((1)) + 2")).2.atEnd = true := by
        decide +kernel
  constructor
  · obtain ⟨e, he, hfits⟩ := Option.map_eq_some_iff.mp hsum
    let u := (Parse.expression (ofText 4096 "((1 + 2))")).2
    have hrun : Parse.expression (ofText 4096 "((1 + 2))") = (some e, u) :=
      Prod.ext he rfl
    refine ⟨e, u, hrun, hsumEnd.1, hsumEnd.2, ?_⟩
    exact (asBranch_of_lexemes 4096 4096 _ _
      [paren, paren, .integer 1, .symbol .plus, .integer 2, close, close] e
        u (by decide +kernel) hrun
      hsumEnd.1 hsumEnd.2 (by decide +kernel)).1 hfits
  · obtain ⟨e, he, hfits⟩ := Option.map_eq_some_iff.mp hterm
    let u := (Parse.expression (ofText 4096 "((1)) + 2")).2
    have hrun : Parse.expression (ofText 4096 "((1)) + 2") = (some e, u) :=
      Prod.ext he rfl
    refine ⟨e, u, hrun, htermEnd.1, htermEnd.2, ?_⟩
    exact (asBranch_of_lexemes 4096 4096 _ _
      [paren, paren, .integer 1, close, close, .symbol .plus, .integer 2] e
        u (by decide +kernel) hrun
      htermEnd.1 htermEnd.2 (by decide +kernel)).2 hfits

end Parse

end ScriptLang
