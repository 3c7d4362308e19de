import ScriptLang.Proofs.Parse.Walk
import ScriptLang.Proofs.Source.Order
import ScriptLang.Proofs.Tree.Outline

/-!
# Rows of nodes

Where a parse stands is the place right after the last token taken, and the tokens
that are left (`Spot`).  The tokens stand in order, so a parser goes from one place
of the text to a later one.

A `Row` is what it leaves behind on its way: the outlines of nodes, each of them
nested, one behind the other, all of them between the beginning of the first token
of the way and the end of the last one.  Rows of ways that follow each other make up
a row (`Row.append`), and a row that has begun is a node of its own (`Row.whole`).

`Parse.At` says of a parser at a state what holds of its value and the spot behind
it.  Unlike `Parse.WritesAt` it has nothing to do with errors: a parser that goes on
behind a missing token leaves a row all the same, and a parser that fails has at
least gone to a later place.
-/

namespace ScriptLang

/-! ## Places in order -/

namespace Position

/-- No place is behind itself. -/
theorem order_self_ne_gt (p : Position) : p.order p ≠ .gt := by
  rw [order_self]
  decide

/-- A place with a smaller offset is not behind. -/
theorem order_ne_gt_of_offset_lt {a b : Position} (h : a.offset < b.offset) :
    a.order b ≠ .gt := by
  rw [order, Nat.compare_eq_lt.mpr h]
  intro heq
  cases heq

/-- The earlier of two places in order is the first. -/
theorem earlier_of_order {a b : Position} (h : a.order b ≠ .gt) : a.earlier b = a :=
  if_neg h

/-- The later of two places in order is the second. -/
theorem later_of_order {a b : Position} (h : a.order b ≠ .gt) : a.later b = b :=
  if_neg h

/-- The later of two places in reverse order is the first. -/
theorem later_of_order_swap {a b : Position} (h : b.order a ≠ .gt) :
    a.later b = a := by
  unfold later
  split
  · rfl
  · rename_i hle
    exact eq_of_order_ne_gt h hle

end Position

/-! ## Spots -/

/-- Where a parse stands. -/
structure Spot where
  stop : Position
  rest : List Entry

namespace Spot

/-- The next token; after the last one there is only the end of the text. -/
def token (a : Spot) : Token :=
  match a.rest with
  | [] => ⟨.endOfText, Span.point a.stop⟩
  | e :: _ => e.token

/-- Where the next token begins. -/
def front (a : Spot) : Position := a.token.span.start

/-- The spot behind the next token. -/
def take (a : Spot) : Spot := ⟨a.token.span.stop, a.rest.tail⟩

/-- The tokens that are left stand in order, and none of them but the end of the
text is empty. -/
structure Ordered (a : Spot) : Prop where
  landmarks :
    (a.stop :: a.rest.flatMap fun e =>
    [e.token.span.start, e.token.span.stop]).Pairwise
    fun p q => p.order q ≠ .gt
  wide : ∀ e ∈ a.rest, e.token.kind ≠ .endOfText →
    e.token.span.start.offset < e.token.span.stop.offset

variable {a : Spot}

/-- The last token taken is not behind the next one. -/
theorem Ordered.stop_le_front (h : a.Ordered) : a.stop.order a.front ≠ .gt := by
  obtain ⟨stop, _ | ⟨e, rest⟩⟩ := a
  · exact Position.order_self_ne_gt stop
  · exact List.rel_of_pairwise_cons h.landmarks List.mem_cons_self

/-- The next token does not end before it begins. -/
theorem Ordered.front_le_take (h : a.Ordered) :
    a.front.order a.take.stop ≠ .gt := by
  obtain ⟨stop, _ | ⟨e, rest⟩⟩ := a
  · exact Position.order_self_ne_gt stop
  · exact List.rel_of_pairwise_cons (List.pairwise_cons.mp h.landmarks).2
      List.mem_cons_self

/-- Behind a token that is taken, the others stand in order. -/
theorem Ordered.take (h : a.Ordered) : a.take.Ordered := by
  obtain ⟨stop, _ | ⟨e, rest⟩⟩ := a
  · exact h
  · refine ⟨?_, fun f hf => h.wide f (List.mem_cons_of_mem _ hf)⟩
    exact (List.pairwise_cons.mp (List.pairwise_cons.mp h.landmarks).2).2

/-- A token that is not the end of the text is not empty. -/
theorem Ordered.front_lt_take (h : a.Ordered) (hkind : a.token.kind ≠ .endOfText) :
    a.front.offset < a.take.stop.offset := by
  obtain ⟨stop, _ | ⟨e, rest⟩⟩ := a
  · exact absurd rfl hkind
  · exact h.wide e List.mem_cons_self hkind

end Spot

/-- Where a parse stands in some state. -/
def ParseState.spot (s : ParseState) : Spot := ⟨s.previousEnd, s.rest⟩

/-! ## Rows -/

/-- The outlines that are left behind between two spots.  If the row has begun,
there is at least one token. -/
structure Row (begun : Bool) (a b : Spot) (os : List Outline) : Prop where
  ordered : b.Ordered
  front_le : a.front.order b.front ≠ .gt
  stop_le : a.stop.order b.stop ≠ .gt
  wide : begun = true → a.front.offset < b.stop.offset
  inside : ∀ o ∈ os, a.front.order o.span.start ≠ .gt ∧
    o.span.stop.order b.stop ≠ .gt
  pairwise : os.Pairwise fun o o' => o.span.Precedes o'.span
  nests : ∀ o ∈ os, o.Nests

/-- A single node that covers all tokens between two spots. -/
structure Whole (a b : Spot) (o : Outline) : Prop where
  row : Row true a b [o]
  span_eq : o.span = ⟨a.front, b.stop⟩

variable {begun begun' : Bool} {a b c d : Spot} {os os' : List Outline}

theorem Row.refl (h : a.Ordered) : Row false a a [] where
  ordered := h
  front_le := Position.order_self_ne_gt _
  stop_le := Position.order_self_ne_gt _
  wide hbegun := nomatch hbegun
  inside _ ho := nomatch ho
  pairwise := .nil
  nests _ ho := nomatch ho

/-- Rows that follow each other.  Nothing of the first one ends behind the spot in
the middle, and nothing of the second one begins before. -/
theorem Row.append (h : Row begun a b os) (h' : Row begun' b c os') :
    Row (begun || begun') a c (os ++ os') where
  ordered := h'.ordered
  front_le := Position.order_trans h.front_le h'.front_le
  stop_le := Position.order_trans h.stop_le h'.stop_le
  wide hbegun := by
    rcases Bool.or_eq_true_iff.mp hbegun with hbegun | hbegun
    · exact Nat.lt_of_lt_of_le (h.wide hbegun)
        (Position.offset_le_of_order h'.stop_le)
    · exact Nat.lt_of_le_of_lt (Position.offset_le_of_order h.front_le)
        (h'.wide hbegun)
  inside o ho := by
    rcases List.mem_append.mp ho with ho | ho
    · exact ⟨(h.inside o ho).1, Position.order_trans (h.inside o ho).2 h'.stop_le⟩
    · exact ⟨Position.order_trans h.front_le (h'.inside o ho).1, (h'.inside o ho).2⟩
  pairwise := by
    refine List.pairwise_append.mpr ⟨h.pairwise, h'.pairwise, fun o ho o' ho' => ?_⟩
    exact Position.order_trans
      (Position.order_trans (h.inside o ho).2 h.ordered.stop_le_front)
      (h'.inside o' ho').1
  nests o ho := (List.mem_append.mp ho).elim (h.nests o) (h'.nests o)

/-- A row may have begun. -/
theorem Row.weaken (h : Row begun a b os) : Row false a b os :=
  { h with wide := fun hbegun => nomatch hbegun }

/-- A row that goes on without leaving anything behind. -/
theorem Row.skip (h : Row begun a b os) (h' : Row begun' b c []) :
    Row begun a c os := by
  have happend := h.append h'.weaken
  rw [Bool.or_false, List.append_nil] at happend
  exact happend

/-- Whatever is taken, the row goes on. -/
theorem Row.take (h : a.Ordered) : Row false a a.take [] where
  ordered := h.take
  front_le := Position.order_trans h.front_le_take h.take.stop_le_front
  stop_le := Position.order_trans h.stop_le_front h.front_le_take
  wide hbegun := nomatch hbegun
  inside _ ho := nomatch ho
  pairwise := .nil
  nests _ ho := nomatch ho

/-- A token that is taken begins a row. -/
theorem Row.begin (h : a.Ordered) (hkind : a.token.kind ≠ .endOfText) :
    Row true a a.take [] :=
  { Row.take h with wide := fun _ => h.front_lt_take hkind }

/-- A row that has begun is a node, with everything in it as its parts. -/
theorem Row.whole (h : Row true a b os) {span : Span}
    (hspan : span = ⟨a.front, b.stop⟩) :
    Whole a b (.node span os) where
  span_eq := hspan
  row := {
    ordered := h.ordered
    front_le := h.front_le
    stop_le := h.stop_le
    wide := h.wide
    inside := by
      subst hspan
      exact List.forall_mem_singleton.mpr
        ⟨Position.order_self_ne_gt _, Position.order_self_ne_gt _⟩
    pairwise := List.pairwise_singleton _ _
    nests := by
      subst hspan
      exact List.forall_mem_singleton.mpr
        (.node (h.wide rfl) h.inside h.pairwise h.nests) }

/-- A node that covers its way nests. -/
theorem Whole.nests {o : Outline} (h : Whole a b o) : o.Nests :=
  h.row.nests o List.mem_cons_self

/-- A row that has begun goes at least up to the first token. -/
theorem Row.later_eq (h : Row true a b os) : b.stop.later a.front = b.stop :=
  Position.later_of_order_swap (Position.order_ne_gt_of_offset_lt (h.wide rfl))

/-- The span from where a row begins to the end of the last token taken is that of a
node. -/
theorem Row.whole_later (h : Row true a b os) :
    Whole a b (.node ⟨a.front, b.stop.later a.front⟩ os) :=
  h.whole (by rw [h.later_eq])

/-- A binary operation covers all tokens from the first one of its left operand to
the last one of its right one. -/
theorem Whole.binary {left right : Expr} (hleft : Whole a b left.outline)
    (hoperator : Row begun b c []) (operator : Operator)
    (hright : Whole c d right.outline) :
    Whole a d (Expr.binary left operator right).outline := by
  have hbefore := hleft.row.skip hoperator
  have hleftSpan : left.span = ⟨a.front, b.stop⟩ :=
    left.span_outline ▸ hleft.span_eq
  have hrightSpan : right.span = ⟨c.front, d.stop⟩ :=
    right.span_outline ▸ hright.span_eq
  refine (hbefore.append hright.row).whole ?_
  rw [hleftSpan, hrightSpan, Span.join, Position.earlier_of_order hbefore.front_le,
    Position.later_of_order (hoperator.append hright.row).stop_le]

/-- A call covers all tokens from the first one of what is called to the closing
parenthesis. -/
theorem Whole.call {callee : Expr} {arguments : List Expr}
    (hcallee : Whole a b callee.outline)
    (harguments : Row true b c (Expr.outlines arguments)) :
    Whole a c
      (Expr.outline ⟨.call callee arguments,
      callee.span.join (Span.point (c.stop.later b.front))⟩) := by
  have hcalleeSpan : callee.span = ⟨a.front, b.stop⟩ :=
    callee.span_outline ▸ hcallee.span_eq
  have hrow := hcallee.row.append harguments
  refine hrow.whole ?_
  rw [hcalleeSpan, Span.join, Span.point, harguments.later_eq,
    Position.later_of_order harguments.stop_le,
    Position.earlier_of_order (Position.order_ne_gt_of_offset_lt (hrow.wide rfl))]

/-- A sign and its operand, with nothing but tokens between them. -/
theorem Whole.unary {operand : Expr} {sign : Span} (hsign : Row true a b [])
    (hspan : sign = ⟨a.front, b.stop⟩) (hbetween : Row begun b c [])
    (operator : Operator) (hoperand : Whole c d operand.outline) :
    Whole a d (Expr.unary operator sign operand).outline := by
  have hbefore := hsign.skip hbetween
  have hoperandSpan : operand.span = ⟨c.front, d.stop⟩ :=
    operand.span_outline ▸ hoperand.span_eq
  refine (hbefore.append hoperand.row).whole ?_
  rw [hspan, hoperandSpan, Span.join, Position.earlier_of_order hbefore.front_le,
    Position.later_of_order (hbetween.append hoperand.row).stop_le]

/-! ## Parsers -/

namespace Parse

/-- A parser goes to a later place, and if it has a value, something holds of this
value and the spot behind. -/
def At (s : ParseState) (p : Parse α) (Q : α → Spot → Prop) : Prop :=
  s.spot.Ordered → Row false s.spot (p s).2.spot [] ∧ ∀ x, (p s).1 = some x →
    Q x (p s).2.spot

/-- A parser that leaves a row behind, from every state. -/
def Lays (begun : Bool) (p : Parse α) (out : α → List Outline) : Prop :=
  ∀ s, At s p fun x b => Row begun s.spot b (out x)

/-- A parser whose value is a node that covers everything it takes, from every
state. -/
def Covers (p : Parse α) (out : α → Outline) : Prop :=
  ∀ s, At s p fun x b => Whole s.spot b (out x)

variable {s : ParseState} {Q : α → Spot → Prop} {V : β → Spot → Prop}

/-- What is known about a value can be weakened. -/
theorem At.imp {Q' : α → Spot → Prop} {p : Parse α} (h : At s p Q)
    (himp : ∀ x b, Q x b → Q' x b) : At s p Q' :=
  fun hs => ⟨(h hs).1, fun x hx => himp x _ ((h hs).2 x hx)⟩

/-- A node that covers its way is a row of one node. -/
theorem Covers.lays {p : Parse α} {out : α → Outline} (h : Covers p out) :
    Lays true p fun x => [out x] :=
  fun s => (h s).imp fun _ _ hwhole => hwhole.row

theorem At.yield {x : α} (h : Q x s.spot) : At s (Parse.yield x) Q := by
  intro hs
  refine ⟨Row.refl hs, fun y hy => ?_⟩
  cases hy
  exact h

/-- A row begins where a parser does. -/
theorem At.start {p : Parse α} (h : Row false s.spot s.spot [] → At s p Q) :
    At s p Q :=
  fun hs => h (Row.refl hs) hs

theorem At.fail : At s (Parse.fail : Parse α) Q :=
  fun hs => ⟨Row.refl hs, fun _ hx => nomatch hx⟩

/-- Parsers one after the other leave one row after the other. -/
theorem At.bind {p : Parse β} {f : β → Parse α} (hp : At s p V)
    (hf : ∀ y t, V y t.spot → At t (f y) Q) :
    At s (p >>= f) Q := by
  intro hs
  obtain ⟨hrow, hV⟩ := hp hs
  rcases hrun : p s with ⟨_ | y, t⟩
  · rw [bind_of_none hrun]
    rw [hrun] at hrow
    exact ⟨hrow, fun _ hx => nomatch hx⟩
  · rw [bind_of_some hrun]
    rw [hrun] at hrow hV
    obtain ⟨hrow', hQ⟩ := hf y t (hV y rfl) hrow.ordered
    exact ⟨hrow.skip hrow', hQ⟩

/-- A parser that only changes what has nothing to do with the spot. -/
theorem At.still {p : Parse α} {q : Parse α} {t : ParseState} (hrun : q s = p t)
    (hspot : t.spot = s.spot) (hp : At t p Q) : At s q Q := by
  intro hs
  obtain ⟨hrow, hQ⟩ := hp (hspot ▸ hs)
  rw [hrun]
  exact ⟨hspot ▸ hrow, hQ⟩

/-- To look at the next token. -/
theorem At.peek {f : Token → Parse α} (hf : At (s.look 1) (f s.token) Q) :
    At s (Parse.peek >>= f) Q :=
  At.still (bind_of_some rfl) rfl hf

/-- To look at the kind of the next token. -/
theorem At.peekKind {f : TokenKind → Parse α}
    (hf : At (s.look 1) (f s.token.kind) Q) :
    At s (Parse.peekKind >>= f) Q :=
  At.still (bind_of_some rfl) rfl hf

/-- To look at the kind of the token behind it. -/
theorem At.peekSecondKind {f : TokenKind → Parse α}
    (hf : At (s.look 2) (f s.secondKind) Q) :
    At s (Parse.peekSecondKind >>= f) Q :=
  At.still (bind_of_some rfl) rfl hf

/-- To ask for the number of tokens taken. -/
theorem At.taken {f : Nat → Parse α} (hf : At s (f s.taken) Q) :
    At s (Parse.taken >>= f) Q :=
  At.still (bind_of_some rfl) rfl hf

/-- To ask for the place of the next token. -/
theorem At.here {f : Position → Parse α} (hf : At (s.look 1) (f s.spot.front) Q) :
    At s (Parse.here >>= f) Q :=
  At.still (bind_of_some rfl) rfl hf

/-- To raise an error is not to move. -/
theorem At.raise {f : Unit → Parse α} {cause : ParseError} {position : Position}
    (hf : ∀ t : ParseState, t.spot = s.spot → At t (f ()) Q) :
    At s (Parse.raise cause position >>= f) Q :=
  At.still (bind_of_some rfl) rfl (hf _ rfl)

/-- To warn is not to move. -/
theorem At.warn {f : Unit → Parse α} {cause : ParseWarning} {position : Position}
    (hf : ∀ t : ParseState, t.spot = s.spot → At t (f ()) Q) :
    At s (Parse.warn cause position >>= f) Q :=
  At.still (bind_of_some rfl) rfl (hf _ rfl)

end Parse

/-! ## Going on with a row -/

section GoingOn

open Parse

variable {s : ParseState} {Q : α → Spot → Prop}

/-- A parser that leaves a row behind, where there is one already. -/
theorem Row.lay {p : Parse β} {f : β → Parse α} {out : β → List Outline}
    (h : Row begun a s.spot os) (hp : Lays begun' p out)
    (hf : ∀ y t, Row (begun || begun') a t.spot (os ++ out y) → At t (f y) Q) :
    At s (p >>= f) Q :=
  (hp s).bind fun y t h' => hf y t (h.append h')

/-- A parser that leaves nothing behind. -/
theorem Row.pass {p : Parse β} {f : β → Parse α} (h : Row begun a s.spot os)
    (hp : Lays begun' p fun _ => [])
    (hf : ∀ y t, Row begun a t.spot os → At t (f y) Q) : At s (p >>= f) Q :=
  (hp s).bind fun y t h' => hf y t (h.skip h')

/-- A node that covers a row. -/
theorem Row.node {make : Span → α} {out : α → Outline} (h : Row true a s.spot os)
    (hout : ∀ span, out (make span) = .node span os) :
    At s (spanFrom a.front >>= fun span => Parse.yield (make span)) fun x b =>
      Whole a b (out x) := by
  refine At.still (bind_of_some rfl) rfl (At.yield ?_)
  rw [hout]
  exact h.whole_later

end GoingOn

namespace Parse

variable {s : ParseState} {Q : α → Spot → Prop}

/-! ## Taking tokens -/

/-- A token that is taken is no node. -/
theorem bump_lays : Lays false bump fun _ => [] := by
  intro s hs
  refine ⟨Row.take hs, fun x _ => Row.take hs⟩

/-- The token that a row begins with. -/
theorem At.bump {f : Token → Parse α} (hkind : s.token.kind ≠ .endOfText)
    (hf : ∀ t, Row true s.spot t.spot [] → t.spot.stop = s.token.span.stop →
      At t (f s.token) Q) :
    At s (Parse.bump >>= f) Q := by
  have hbump : At s Parse.bump fun x b => Row true s.spot b [] ∧
      b.stop = s.token.span.stop ∧ x = s.token := by
    intro hs
    refine ⟨Row.take hs, fun x hx => ?_⟩
    cases hx
    exact ⟨Row.begin hs hkind, rfl, rfl⟩
  refine hbump.bind ?_
  rintro _ t ⟨hrow, hstop, rfl⟩
  exact hf t hrow hstop

/-- A token that is not there leaves the parser where it is. -/
theorem eat_at (kind : TokenKind) :
    At s (eat kind) fun found b => Row false s.spot b [] ∧
      (found = false → b = s.spot) := by
  refine At.start fun h => At.peekKind ?_
  split
  · exact (bump_lays (s.look 1)).bind fun _ t h => At.yield ⟨h, nofun⟩
  · exact At.yield ⟨h, fun _ => rfl⟩

/-- A token that may be taken is no node. -/
theorem eat_lays (kind : TokenKind) : Lays false (eat kind) fun _ => [] :=
  fun _ => (eat_at kind).imp fun _ _ h => h.1

/-- Where an expression is missing, there is no value. -/
theorem noExpression_at : At s (noExpression : Parse α) Q :=
  At.peek (At.raise fun _ _ => At.fail)

/-- A token that is expected is no node. -/
theorem expect_lays (kind : TokenKind) : Lays false (expect kind) fun _ => [] := by
  intro s
  refine (eat_lays kind s).bind fun found t h => ?_
  split
  · exact At.yield h
  · refine At.peek fun ht => ?_
    exact ⟨Row.refl ht, fun _ _ => h⟩

/-- A name is a token. -/
theorem identifier_lays : Lays true identifier fun _ => [] := by
  intro s
  refine At.peek ?_
  split
  · rename_i name hname
    have hkind : (s.look 1).token.kind ≠ .endOfText := by
      rw [Token.kind, ParseState.token_look, hname]
      simp [Lexeme.kind]
    exact At.bump hkind fun t h _ => At.yield h
  · exact (expect_lays .identifier (s.look 1)).bind fun _ _ _ => At.fail

/-! ## Options and loops -/

/-- A function of what a parser yields. -/
theorem At.map {p : Parse β} {g : β → α} (hp : At s p fun y b => Q (g y) b) :
    At s (g <$> p) Q :=
  At.bind (f := fun y => Parse.yield (g y)) hp fun _ _ h => At.yield h

/-- A failure that is caught. -/
theorem At.attempt {p : Parse α} (hp : At s p Q) :
    At s (Parse.attempt p) fun o b => Row false s.spot b [] ∧ ∀ x,
      o = some x → Q x b := by
  intro hs
  obtain ⟨hrow, hQ⟩ := hp hs
  refine ⟨hrow, fun o ho => ?_⟩
  cases ho
  exact ⟨hrow, hQ⟩

/-- What has been accumulated at the end of a turn. -/
def Turn.value : Turn α → α
  | .again x => x
  | .done x => x

/-- What each turn of a loop preserves holds at its end. -/
theorem At.iterate {step : α → Parse (Turn α)} {J : α → Spot → Prop}
    (hstep : ∀ x t, J x t.spot → At t (step x) fun turn b => J turn.value b)
    (fuel : Nat) {x : α} (hx : J x s.spot) :
    At s (Parse.iterate step fuel x) J := by
  induction fuel generalizing s x with
  | zero => exact At.yield hx
  | succ fuel ih =>
      intro hs
      obtain ⟨hrow, hJ⟩ := hstep x s hx hs
      unfold Parse.iterate
      rcases hrun : step x s with ⟨_ | turn, t⟩
      · rw [hrun] at hrow
        refine ⟨hrow, fun z hz => ?_⟩
        cases hz
      · rw [hrun] at hrow hJ
        have hturn : J turn.value t.spot := hJ turn rfl
        cases turn with
        | done y =>
            refine ⟨hrow, fun z hz => ?_⟩
            cases hz
            exact hturn
        | again y =>
            obtain ⟨hrow', hJ'⟩ := ih hturn hrow.ordered
            exact ⟨hrow.skip hrow', hJ'⟩

/-- A loop, turn by turn. -/
theorem At.repeating {step : α → Parse (Turn α)} {J : α → Spot → Prop} {x : α}
    (hx : J x s.spot)
    (hstep : ∀ x t, J x t.spot → At t (step x) fun turn b => J turn.value b) :
    At s (Parse.repeating step x) J :=
  At.iterate hstep (s.rest.length + 1) hx

end Parse

end ScriptLang
