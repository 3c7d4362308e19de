import ScriptLang.Eval.Evaluate

/-!
# The place of a default branch

The branches of a `match` that have a pattern are its rules.  Their patterns are
tried in order, each one on the machine that the one before leaves behind; the first
one that matches decides, and if one of them does not end with a truth value, the
`match` ends as it does.  Trying the patterns passes over default branches, of which
the first one is kept for the case that no pattern matches.

So all that counts are the rules in their order and the first default branch, and
not where it stands between them (`Eval.matching_default_moved`).
-/

namespace ScriptLang

/-! ## Rules and defaults -/

namespace Branch

/-- The pattern of a branch with what it leads to. -/
def rule? (b : Branch) : Option (Expr × Expr) := b.pattern.map (·, b.consequent)

/-- The branches that have a pattern. -/
def rules (bs : List Branch) : List (Expr × Expr) := bs.filterMap rule?

/-- What the first default branch leads to. -/
def default? (bs : List Branch) : Option Expr :=
  (bs.find? (·.pattern.isNone)).map (·.consequent)

/-- At most one branch is a default one, and the second list is the first one with
that branch moved to any place. -/
structure DefaultMoved (bs bs' : List Branch) : Prop where
  atMostOne : bs.countP (·.pattern.isNone) ≤ 1
  perm : bs'.Perm bs
  inOrder : bs'.filter (·.pattern.isSome) = bs.filter (·.pattern.isSome)

variable {b : Branch}

/-- A default is no rule. -/
theorem rules_cons_default (hb : b.pattern = none) (rest : List Branch) :
    rules (b :: rest) = rules rest :=
  List.filterMap_cons_none (by rw [rule?, hb, Option.map_none])

/-- A branch with a pattern is a rule. -/
theorem rules_cons_pattern {pattern : Expr} (hb : b.pattern = some pattern)
    (rest : List Branch) :
    rules (b :: rest) = (pattern, b.consequent) :: rules rest :=
  List.filterMap_cons_some (by rw [rule?, hb, Option.map_some])

/-- The first default is the one that counts. -/
theorem default?_cons_default (hb : b.pattern = none) (rest : List Branch) :
    default? (b :: rest) = some b.consequent := by
  rw [default?, List.find?_cons_of_pos (by rw [hb]; rfl), Option.map_some]

/-- A branch with a pattern is no default. -/
theorem default?_cons_pattern {pattern : Expr} (hb : b.pattern = some pattern)
    (rest : List Branch) :
    default? (b :: rest) = default? rest := by
  rw [default?, List.find?_cons_of_neg (by rw [hb]; nofun), default?]

/-- The rules are the branches with patterns. -/
theorem rules_filter (bs : List Branch) :
    rules (bs.filter (·.pattern.isSome)) = rules bs := by
  induction bs with
  | nil => rfl
  | cons b rest ih =>
      cases hb : b.pattern with
      | none =>
          rw [List.filter_cons_of_neg (by rw [hb]; nofun),
            rules_cons_default hb, ih]
      | some pattern =>
          rw [List.filter_cons_of_pos (by rw [hb]; rfl), rules_cons_pattern hb,
            rules_cons_pattern hb, ih]

/-- The defaults are the branches without patterns. -/
theorem default?_filter (bs : List Branch) :
    default? (bs.filter (·.pattern.isNone)) = default? bs := by
  unfold default?
  rw [← List.head?_filter, List.filter_filter, ← List.head?_filter]
  simp only [Bool.and_self]

namespace DefaultMoved

variable {bs bs' : List Branch}

/-- There is only one order of at most one branch. -/
theorem defaults_eq (h : DefaultMoved bs bs') :
    bs'.filter (·.pattern.isNone) = bs.filter (·.pattern.isNone) := by
  have hperm : (bs'.filter (·.pattern.isNone)).Perm
    (bs.filter (·.pattern.isNone)) := h.perm.filter _
  have hlength : (bs.filter (·.pattern.isNone)).length ≤ 1 := by
    rw [← List.countP_eq_length_filter]
    exact h.atMostOne
  generalize bs.filter (·.pattern.isNone) = defaults at hperm hlength ⊢
  match defaults, hlength with
  | [], _ => exact hperm.eq_nil
  | [_], _ => exact hperm.eq_singleton
  | _ :: _ :: _, hlength => exact absurd hlength (by simp)

/-- Wherever a default is moved to, it is the same one. -/
theorem default?_eq (h : DefaultMoved bs bs') : default? bs' = default? bs := by
  rw [← default?_filter bs', h.defaults_eq, default?_filter]

end DefaultMoved

/-- A default branch between branches with patterns can stand between them
anywhere. -/
theorem defaultMoved_of_split (before after before' after' : List Branch)
    {d : Branch} (hd : d.pattern = none)
    (hothers : ∀ b ∈ before ++ after, b.pattern ≠ none)
    (hmoved : before' ++ after' = before ++ after) :
    DefaultMoved (before ++ d :: after) (before' ++ d :: after') where
  atMostOne := by
    have hnone : (before ++ after).countP (·.pattern.isNone) = 0 := by
      rw [List.countP_eq_zero]
      simpa using hothers
    rw [List.countP_append] at hnone
    rw [List.countP_append, List.countP_cons_of_pos (by rw [hd]; rfl)]
    omega
  perm := by
    have hout : ∀ l l' : List Branch, (l ++ d :: l').Perm (d :: (l ++ l')) :=
      fun _ _ => List.perm_middle
    exact (hout before' after').trans (hmoved ▸ (hout before after).symm)
  inOrder := by
    have hout : ∀ l l' : List Branch,
        (l ++ d :: l').filter (·.pattern.isSome) =
          (l ++ l').filter (·.pattern.isSome) := by
      intro l l'
      rw [List.filter_append,
        List.filter_cons_of_neg (by simp [hd]), ← List.filter_append]
    rw [hout, hout, hmoved]

end Branch

/-! ## The branch that decides -/

/-- Two computations have ended alike, and not with a value. -/
inductive Outcome.Stops : Outcome α → Outcome β → Prop
  | breaking : Stops .breaking .breaking
  | returning (v : Value) : Stops (.returning v) (.returning v)
  | failed (fault : Fault) : Stops (.failed fault) (.failed fault)
  | crashed (words : Option String) : Stops (.crashed words) (.crashed words)
  | exhausted : Stops .exhausted .exhausted

namespace Eval

variable (ev : Expr → Eval Value) (v : Value)

/-- Patterns are tried in order, and none of them matches. -/
inductive NoneMatches : List Expr → Machine → Machine → Prop
  | nil (m : Machine) : NoneMatches [] m m
  | cons {pattern : Expr} {patterns : List Expr} {m m₁ m₂ : Machine} :
      matchPattern ev v pattern m = (.value false, m₁) →
        NoneMatches patterns m₁ m₂ →
        NoneMatches (pattern :: patterns) m m₂

/-- What a `match` with the given rules and default comes to: nothing is evaluated
but the patterns in order, up to the first one that matches or stops, and at most
one consequent. -/
inductive Decides (rules : List (Expr × Expr)) (default? : Option Expr)
    (m : Machine) : Outcome Value × Machine → Prop
  /-- The first pattern that matches decides, and what follows it is not tried. -/
  | matched (before after : List (Expr × Expr)) {pattern consequent : Expr}
      {m₁ m₂ : Machine} :
      rules = before ++ (pattern, consequent) :: after →
      NoneMatches ev v (before.map Prod.fst) m m₁ →
      matchPattern ev v pattern m₁ = (.value true, m₂) →
        Decides rules default? m (ev consequent m₂)
  /-- A pattern that ends without a truth value is the end. -/
  | stopped (before after : List (Expr × Expr)) (consequent : Expr) {pattern : Expr}
      {m₁ m₂ : Machine}
      {outcome : Outcome Bool} {outcome' : Outcome Value} :
      rules = before ++ (pattern, consequent) :: after →
      NoneMatches ev v (before.map Prod.fst) m m₁ →
      matchPattern ev v pattern m₁ = (outcome, m₂) → outcome.Stops outcome' →
        Decides rules default? m (outcome', m₂)
  /-- The default is taken if no pattern matches. -/
  | unmatched {m₁ : Machine} :
      NoneMatches ev v (rules.map Prod.fst) m m₁ →
        Decides rules default? m (optional ev .null default? m₁)

variable {ev v}

/-- A pattern in front that does not match is passed over. -/
theorem Decides.skip {pattern consequent : Expr} {rules : List (Expr × Expr)}
    {default? : Option Expr} {m m₁ : Machine} {result : Outcome Value × Machine}
    (hmisses : matchPattern ev v pattern m = (.value false, m₁))
    (h : Decides ev v rules default? m₁ result) :
    Decides ev v ((pattern, consequent) :: rules) default? m result := by
  cases h with
  | matched before after hrules hbefore hmatches =>
      refine .matched ((pattern, consequent) :: before) after ?_
        (.cons hmisses hbefore) hmatches
      rw [hrules, List.cons_append]
  | stopped before after c hrules hbefore hends hstops =>
      refine .stopped ((pattern, consequent) :: before) after c ?_
        (.cons hmisses hbefore) hends hstops
      rw [hrules, List.cons_append]
  | unmatched hall => exact .unmatched (.cons hmisses hall)

variable {fallback : Option Expr} {b : Branch} {bs bs' : List Branch}

/-- A default is kept for later, unless there was one before. -/
theorem branches_cons_default (hb : b.pattern = none) (rest : List Branch) :
    branches ev v fallback (b :: rest) =
      branches ev v (fallback.or (some b.consequent)) rest := by
  rw [branches, hb]

/-- A branch with a pattern is taken if it matches, and passed over if not. -/
theorem branches_cons_pattern {pattern : Expr} (hb : b.pattern = some pattern)
    (rest : List Branch) :
    branches ev v fallback (b :: rest) =
      andThen (matchPattern ev v pattern) fun holds =>
      if holds then ev b.consequent else branches ev v fallback rest := by
  rw [branches, hb]
  rfl

/-- A default branch counts only if there is none before it, and then wherever it
stands. -/
theorem branches_eq (ev : Expr → Eval Value) (v : Value) (fallback : Option Expr)
    (bs : List Branch) :
    branches ev v fallback bs =
      branches ev v (fallback.or (Branch.default? bs))
        (bs.filter (·.pattern.isSome)) := by
  induction bs generalizing fallback with
  | nil =>
      rw [Branch.default?, List.find?_nil, Option.map_none, Option.or_none,
        List.filter_nil]
  | cons b rest ih =>
      cases hb : b.pattern with
      | none =>
          rw [branches_cons_default hb, Branch.default?_cons_default hb,
            List.filter_cons_of_neg (by rw [hb]; nofun), ih, Option.or_assoc,
            Option.some_or]
      | some pattern =>
          rw [branches_cons_pattern hb, Branch.default?_cons_pattern hb,
            List.filter_cons_of_pos (by rw [hb]; rfl), branches_cons_pattern hb, ih]

/-- Branches that all have a pattern decide as their rules do. -/
theorem branches_decides (ev : Expr → Eval Value) (v : Value)
    (fallback : Option Expr) {bs : List Branch} (hbs : ∀ b ∈ bs, b.pattern.isSome)
    (m : Machine) :
    Decides ev v (Branch.rules bs) fallback m (branches ev v fallback bs m) := by
  induction bs generalizing m with
  | nil => exact .unmatched (.nil m)
  | cons b rest ih =>
      obtain ⟨pattern, hb⟩ := Option.isSome_iff_exists.mp (hbs b List.mem_cons_self)
      rw [branches_cons_pattern hb, Branch.rules_cons_pattern hb]
      unfold andThen
      cases hpattern : matchPattern ev v pattern m with
      | mk outcome m₁ =>
          cases outcome with
          | value holds =>
              cases holds with
              | true => exact .matched [] _ rfl (.nil m) hpattern
              | false =>
                  exact .skip hpattern
                    (ih (fun b hb => hbs b (List.mem_cons_of_mem _ hb)) m₁)
          | breaking => exact .stopped [] _ _ rfl (.nil m) hpattern .breaking
          | returning w =>
              exact .stopped [] _ _ rfl (.nil m) hpattern (.returning w)
          | failed fault =>
              exact .stopped [] _ _ rfl (.nil m) hpattern (.failed fault)
          | crashed words =>
              exact .stopped [] _ _ rfl (.nil m) hpattern (.crashed words)
          | exhausted => exact .stopped [] _ _ rfl (.nil m) hpattern .exhausted

/-- What counts of the branches of a `match` are its rules in their order and its
first default branch. -/
theorem branches_eq_of_moved (h : Branch.DefaultMoved bs bs')
    (ev : Expr → Eval Value) (v : Value) :
    branches ev v none bs' = branches ev v none bs := by
  rw [branches_eq, h.default?_eq, h.inOrder, ← branches_eq]

/-- In a `match` with at most one default branch, that branch can stand anywhere:
from every machine, the `match` ends alike and leaves the same machine behind.  Once
the matched value is found, the first pattern that matches decides, and neither the
patterns after it nor other consequents are evaluated; the default is taken only if
no pattern matches. -/
theorem matching_default_moved (g : Setting) (argument : Expr)
    {bs bs' : List Branch} (h : Branch.DefaultMoved bs bs') (span span' : Span)
    (m : Machine) :
    (∀ fuel, evaluate g fuel ⟨.matching argument bs', span'⟩ m =
      evaluate g fuel ⟨.matching argument bs, span⟩ m) ∧
    ∀ (fuel : Nat) (v : Value) (m₀ : Machine), evaluate g fuel argument m =
      (.value v, m₀) →
      Decides (evaluate g fuel) v (Branch.rules bs) (Branch.default? bs) m₀
        (evaluate g (fuel + 1) ⟨.matching argument bs, span⟩ m) := by
  constructor
  · intro fuel
    cases fuel with
    | zero => rfl
    | succ fuel =>
        show andThen (evaluate g fuel argument)
          (fun v => branches (evaluate g fuel) v none bs') m =
          andThen (evaluate g fuel argument)
            (fun v => branches (evaluate g fuel) v none bs) m
        simp only [branches_eq_of_moved h]
  · intro fuel v m₀ hargument
    have hrun : evaluate g (fuel + 1) ⟨.matching argument bs, span⟩ m =
        branches (evaluate g fuel) v none bs m₀ := by
      show andThen (evaluate g fuel argument)
        (fun v => branches (evaluate g fuel) v none bs) m = _
      rw [andThen, hargument]
    have hpatterned : ∀ b ∈ bs.filter (·.pattern.isSome), b.pattern.isSome :=
      fun b hb => (List.mem_filter.mp hb).2
    rw [hrun, branches_eq, Option.none_or, ← Branch.rules_filter]
    exact branches_decides _ v _ hpatterned m₀

/-- A `match` of two with the patterns `count += 1`, `(count += 1) and is int` and
`missing`, where `missing` is not declared.  Wherever its default branch stands,
`count` is one when the first pattern has been tried and two when the second one
matches, and nobody asks for `missing`. -/
theorem countingMatch_default_moved :
    let count : Expr := ⟨.name "count", default⟩
    let one : Expr := ⟨.literal (.integer 1), default⟩
    let text (s : String) : Expr := ⟨.literal (.string s), default⟩
    let counted : Expr := ⟨.binary .addAssign count one, default⟩
    let isInt : Expr := ⟨.unary .matchIs ⟨.type .int, default⟩, default⟩
    let countedInt : Expr :=
      ⟨.binary .matchAnd ⟨.grouping counted, default⟩ isInt, default⟩
    let missing : Expr := ⟨.name "missing", default⟩
    let first : Branch := ⟨some counted, text "first", default⟩
    let second : Branch := ⟨some countedInt, text "second", default⟩
    let third : Branch := ⟨some missing, text "third", default⟩
    let otherwise : Branch := ⟨none, text "default", default⟩
    let early : Expr :=
      ⟨.matching ⟨.literal (.integer 2), default⟩ [otherwise, first, second, third],
        default⟩
    let late : Expr :=
      ⟨.matching ⟨.literal (.integer 2), default⟩ [first, second, otherwise, third],
        default⟩
    let g : Setting := ⟨8, #[], []⟩
    let m : Machine :=
      ⟨⟨#[⟨.int 0, false⟩], #[⟨.block, [("count", 0)]⟩], [0]⟩, [0], 0, 0, {}⟩
    Branch.DefaultMoved [otherwise, first, second, third]
      [first, second, otherwise, third] ∧
      evaluate g 4 late m = evaluate g 4 early m ∧
      Decides (evaluate g 3) (.int 2)
        [(counted, text "first"), (countedInt, text "second"),
        (missing, text "third")]
        (some (text "default")) m (evaluate g 4 early m) ∧
      (evaluate g 4 early m).1 = .value (.string "second") ∧
      ((evaluate g 4 early m).2.store.cell 0).value.text = "2" := by
  intro count one text counted isInt countedInt missing first second third otherwise
    early late g m
  have hmoved : Branch.DefaultMoved [otherwise, first, second, third]
      [first, second, otherwise, third] :=
    Branch.defaultMoved_of_split [] [first, second, third]
      [first, second] [third] rfl
      (by simp [first, second, third]) rfl
  obtain ⟨halike, hdecides⟩ :=
    matching_default_moved g ⟨.literal (.integer 2), default⟩ hmoved
      default default m
  exact ⟨hmoved, halike 4, hdecides 3 (.int 2) m rfl, rfl, by decide +kernel⟩

end Eval

end ScriptLang
