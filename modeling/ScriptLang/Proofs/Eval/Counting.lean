import Mathlib.Data.List.Basic
import ScriptLang.Proofs.Eval.Limits
import ScriptLang.Proofs.Scope.Frames

/-!
# Counting loops

A range of integers gives the values of an arithmetic progression, one for each time
it is asked, as long as they stand before its end, and nothing ever after
(`CounterRange.ints_gives`).  The sum that would leave 64 bits is never needed: what
follows it would stand behind the end in any case, so the end can take its place.

A loop asks its range and evaluates its body in turn.  `Eval.Turns` says what the
turns make of a machine: each starts on the machine that the previous one left, with
a frame of its own and a new variable for the counter.  The range is no part of the
machine, so nothing that a turn does can change the values of later turns
(`Eval.Turns.forLoop_yields`).
-/

namespace ScriptLang

/-! ## The values of a range -/

namespace CounterRange

/-- Asks a range for its next value.  A range that has none stays as it is. -/
def pull (r : CounterRange) : Option Value × CounterRange :=
  match r.next? with
  | some (v, rest) => (some v, rest)
  | none => (none, r)

/-- What a range answers when it is asked for the time with the given number,
counted from zero. -/
def answer : Nat → CounterRange → Option Value
  | 0, r => r.pull.1
  | k + 1, r => answer k r.pull.2

/-- A range gives some values and then stops. -/
inductive Gives : CounterRange → List Value → Prop
  | done {r : CounterRange} : r.next? = none → Gives r []
  | next {r rest : CounterRange} {v : Value} {vs : List Value} :
      r.next? = some (v, rest) → Gives rest vs → Gives r (v :: vs)

/-- It answers with these values in order, and with none ever after. -/
theorem Gives.answer_eq {r : CounterRange} {vs : List Value} (h : r.Gives vs)
    (k : Nat) : answer k r = vs[k]? := by
  induction h generalizing k with
  | @done r hnone =>
      have hpull : r.pull = (none, r) := by rw [pull, hnone]
      induction k with
      | zero => rw [answer, hpull]; rfl
      | succ k ih => rw [answer, hpull, ih]; rfl
  | @next r rest v vs hnext _ ih =>
      have hpull : r.pull = (some v, rest) := by rw [pull, hnext]
      cases k with
      | zero => rw [answer, hpull]; rfl
      | succ k => rw [answer, hpull, ih]; rfl

/-! ## Ranges of integers -/

/-- The value with the given number in an arithmetic progression stands before an
end, in the direction of the step. -/
def Before (start stop step : Int64) (k : Nat) : Prop :=
  if 0 < step.toInt then start.toInt + k * step.toInt < stop.toInt else stop.toInt <
    start.toInt + k * step.toInt

instance (start stop step : Int64) (k : Nat) :
    Decidable (Before start stop step k) :=
  inferInstanceAs (Decidable
    (if 0 < step.toInt then start.toInt + k * step.toInt < stop.toInt
    else stop.toInt < start.toInt + k * step.toInt))

/-- The values of an arithmetic progression that stand before its end, in order. -/
structure Progression (start stop step : Int64) (vs : List Int64) : Prop where
  before_iff : ∀ k, Before start stop step k ↔ k < vs.length
  toInt_eq : ∀ (k : Nat) (x : Int64), vs[k]? = some x →
    x.toInt = start.toInt + k * step.toInt

variable {start stop step : Int64}

/-- Integers with a step that is not zero make a range. -/
theorem of_ints (start stop : Int64) (h : step ≠ 0) :
    CounterRange.of (.int start) (.int stop) (.int step) =
      .ok (.ints start stop step) := by
  simp [CounterRange.of, Value.float?, h]

/-- A range of integers gives its start, unless the bound has been reached. -/
theorem next?_ints (start stop step : Int64) :
    (ints start stop step).next? =
      if Before start stop step 0 then
        some (.int start, .ints ((sum? start step).getD stop) stop step)
      else none := by
  simp [next?, Before, Int64.lt_iff_toInt_lt]

/-- A sum that has 64 bits is the one of the integers. -/
theorem toInt_sum? {a b c : Int64} (h : sum? a b = some c) :
    c.toInt = a.toInt + b.toInt := by
  unfold sum? at h
  dsimp only at h
  split at h
  · rw [← Option.some.inj h, Int64.toInt_add]
    exact Int.bmod_eq_of_le (by omega) (by omega)
  · cases h

/-- Before the bound, seen from the next value. -/
theorem before_succ {next : Int64} (h : next.toInt = start.toInt + step.toInt)
    (k : Nat) :
    Before next stop step k ↔ Before start stop step (k + 1) := by
  have hk : ((k + 1 : Nat) : Int) * step.toInt = k * step.toInt + step.toInt := by
    rw [Int.natCast_succ, Int.add_mul, Int.one_mul]
  have hsum : next.toInt + k * step.toInt = start.toInt + ((k + 1 : Nat) : Int) *
    step.toInt := by omega
  rw [Before, Before, hsum]

/-- Steps lead away from a start in one direction. -/
theorem mul_step_sign (step : Int64) (k : Nat) :
    (0 < step.toInt → 0 ≤ k * step.toInt) ∧
      (¬ 0 < step.toInt → k * step.toInt ≤ 0) :=
  ⟨fun h => Int.mul_nonneg (Int.natCast_nonneg k) (Int.le_of_lt h),
    fun h => Int.mul_nonpos_of_nonneg_of_nonpos (Int.natCast_nonneg k)
      (Int.not_lt.mp h)⟩

/-- Behind a start that is not before the end, nothing is. -/
theorem not_before (h : ¬ Before start stop step 0) (k : Nat) :
    ¬ Before start stop step k := by
  have hsign := mul_step_sign step k
  simp only [Before, Int.natCast_zero, Int.zero_mul] at h ⊢
  split at h <;> split <;> omega

/-- Behind a sum that leaves 64 bits, nothing is before the end. -/
theorem not_before_succ (h : sum? start step = none) (k : Nat) :
    ¬ Before start stop step (k + 1) := by
  have hsign := mul_step_sign step k
  have hk : ((k + 1 : Nat) : Int) * step.toInt = k * step.toInt + step.toInt := by
    rw [Int.natCast_succ, Int.add_mul, Int.one_mul]
  have hlow := stop.le_toInt
  have hhigh := stop.toInt_lt
  have hstart := start.le_toInt
  have hstart' := start.toInt_lt
  unfold sum? at h
  dsimp only at h
  split at h
  · cases h
  · rw [Before, hk]
    split <;> omega

namespace Progression

/-- There are none if the start is not before the end. -/
theorem nil (h : ¬ Before start stop step 0) : Progression start stop step [] where
  before_iff k := by simpa using not_before h k
  toInt_eq k x hx := by simp at hx

/-- There is the start alone if the next sum leaves 64 bits. -/
theorem singleton (h : Before start stop step 0) (hsum : sum? start step = none) :
    Progression start stop step [start] where
  before_iff k := by
    cases k with
    | zero => simpa using h
    | succ k => simpa using not_before_succ hsum k
  toInt_eq k x hx := by
    cases k with
    | zero =>
        obtain rfl := Option.some.inj hx
        simp
    | succ k => simp at hx

/-- There is the start with what follows it. -/
theorem cons {next : Int64} {vs : List Int64} (h : Before start stop step 0)
    (hsum : next.toInt = start.toInt + step.toInt)
    (hvs : Progression next stop step vs) :
    Progression start stop step (start :: vs) where
  before_iff k := by
    cases k with
    | zero => simpa using h
    | succ k =>
        rw [← before_succ hsum, hvs.before_iff, List.length_cons,
          Nat.add_lt_add_iff_right]
  toInt_eq k x hx := by
    cases k with
    | zero =>
        obtain rfl := Option.some.inj hx
        simp
    | succ k =>
        rw [hvs.toInt_eq k x hx, hsum, Int.natCast_succ, Int.add_mul]
        omega

end Progression

/-- How far a start is before the end. -/
def distance (start stop step : Int64) : Nat :=
  if 0 < step.toInt then (stop.toInt - start.toInt).toNat
  else (start.toInt - stop.toInt).toNat

/-- With each step the bound comes closer. -/
theorem distance_lt {next : Int64} (hbefore : Before start stop step 0)
    (hstep : step ≠ 0) (h : next.toInt = start.toInt + step.toInt) :
    distance next stop step < distance start stop step := by
  have hzero : step.toInt ≠ 0 := fun hzero => hstep (Int64.toInt_inj.mp hzero)
  simp only [Before, Int.natCast_zero, Int.zero_mul] at hbefore
  unfold distance
  split at hbefore <;> split <;> omega

/-- A range of integers gives the values of the progression that stand before its
end. -/
theorem ints_gives (start stop : Int64) (hstep : step ≠ 0) :
    ∃ vs : List Int64, Progression start stop step vs ∧
      (ints start stop step).Gives (vs.map .int) := by
  -- With each step the counter comes closer to the end.
  induction hd : distance start stop
      step using Nat.strongRecOn generalizing start with
  | ind d ih =>
      subst hd
      have hnext := next?_ints start stop step
      by_cases hbefore : Before start stop step 0
      · rw [if_pos hbefore] at hnext
        cases hsum : sum? start step with
        | some next =>
            have htoInt := toInt_sum? hsum
            rw [hsum] at hnext
            obtain ⟨vs, hvs, hgives⟩ :=
              ih _ (distance_lt hbefore hstep htoInt) next rfl
            exact ⟨start :: vs, hvs.cons hbefore htoInt, .next hnext hgives⟩
        | none =>
            -- The end is the next counter, and no value stands before itself.
            have hend : ¬ Before stop stop step 0 := by simp [Before]
            rw [hsum] at hnext
            refine ⟨[start], .singleton hbefore hsum, .next hnext (.done ?_)⟩
            rw [Option.getD_none, next?_ints, if_neg hend]
      · rw [if_neg hbefore] at hnext
        exact ⟨[], .nil hbefore, .done hnext⟩

end CounterRange

/-! ## Turns of a loop -/

namespace Machine

/-- The machine on which a turn of a loop evaluates its body: the innermost frame is
new, and the counter, if there is one, is a new variable in it. -/
def turning (counter : Option String) (v : Value) (m : Machine) : Machine :=
  match counter with
  | none => m.enter .loop
  | some name =>
      { m.enter .loop with
        store := (m.enter .loop).store.bindNew m.store.frames.size name v false }

/-- The counter of a turn is a variable that there was not before, and all others
are as they were. -/
theorem turning_fresh (name : String) (v : Value) (m : Machine) :
    let inside := m.turning (some name) v
    inside.store.resolve? name inside.stack = some m.store.cells.size ∧
      inside.store.cell m.store.cells.size = ⟨v, false⟩ ∧
      ∀ index < m.store.cells.size, inside.store.cell index =
          m.store.cell index := by
  intro inside
  have hsize : m.store.frames.size < (m.enter .loop).store.frames.size := by
    simp [enter, Store.push, Store.addFrame]
  have hcell :=
    Store.cell_bindNew (m.enter .loop).store m.store.frames.size name v false
  refine ⟨?_, ?_, fun index hindex => ?_⟩
  · show ((m.enter .loop).store.bindNew m.store.frames.size name v false).resolve?
      name
      (m.store.frames.size :: m.stack) = _
    rw [Store.resolve?, Store.frame_bindNew_self _ _ _ _ hsize,
      Frame.find?_bind_self]
    rfl
  · exact (hcell m.store.cells.size).trans (if_pos rfl)
  · exact (hcell index).trans (if_neg (Nat.ne_of_lt hindex))

end Machine

namespace Eval

/-- The counter can be declared, since the frame is new. -/
theorem declare_enter (name : String) (v : Value) (m : Machine) :
    declare name v false (m.enter .loop) =
      (.value (), m.turning (some name) v) := by
  have hempty : ((m.enter .loop).store.frame m.store.frames.size).find? name =
      none := by
    rw [Machine.enter, Store.push, Store.frame_addFrame_self]
    rfl
  have hdeclared : Store.declare name v false (m.store.frames.size :: m.stack)
    (m.enter .loop).store =
      (.ok (), (m.enter .loop).store.bindNew m.store.frames.size name v false) := by
    simp [Store.declare, hempty]
  show lift (Store.declare name v false (m.store.frames.size :: m.stack)
    (m.enter .loop).store).1
    { m.enter .loop with
      store :=
        (Store.declare name v false (m.store.frames.size :: m.stack)
          (m.enter .loop).store).2 } = _
  rw [hdeclared]
  rfl

/-- A turn evaluates the body inside and leaves the scope again. -/
theorem turn_eq (ev : Expr → Eval Value) (counter : Option String) (v : Value)
    (body : Expr) (m : Machine) :
    turn ev (counter.map fun name => (name, v)) body m =
      ((ev body (m.turning counter v)).1,
        (ev body (m.turning counter v)).2.leave m.stack.length) := by
  cases counter with
  | none => rfl
  | some name =>
      have hrun : andThen (declare name v false) (fun _ => ev body)
        (m.enter .loop) =
          ev body (m.turning (some name) v) := by
        rw [andThen, declare_enter]
      rw [Option.map_some, turn, inScope_eq]
      show ((andThen (declare name v false) (fun _ => ev body) (m.enter .loop)).1,
        (andThen (declare name v false) (fun _ => ev body) (m.enter .loop)).2.leave
          m.stack.length) = _
      rw [hrun]

variable {g : Setting} {counter : Option String} {body : Expr} {vs : List Value}
  {m m' : Machine}

/-- The turns of a loop for given values of its counter, each of which ends with a
value: the first turn starts on the first machine, each other one on the machine
that the one before it left, and the last one leaves the last machine. -/
inductive Turns (g : Setting) (counter : Option String) (body : Expr) :
    List Value → Machine → Machine → Prop
  | done (m : Machine) : Turns g counter body [] m m
  | turn {v w : Value} {vs : List Value} {m m' m'' : Machine} :
      body.Yields g (m.turning counter v) w m' →
      Turns g counter body vs (m'.leave m.stack.length) m'' →
      Turns g counter body (v :: vs) m m''

/-- A loop takes one turn for each value of its range. -/
theorem Turns.forLoop_eq (h : Turns g counter body vs m m') {range : CounterRange}
    (hrange : range.Gives vs) :
    ∃ steps, ∀ fuel turns, steps ≤ fuel → vs.length < turns →
      forLoop (evaluate g fuel) counter body turns range m =
        (.value .null, m') := by
  induction h generalizing range with
  | done m =>
      cases hrange with
      | done hnone =>
          refine ⟨0, fun fuel turns _ hturns => ?_⟩
          obtain ⟨turns, rfl⟩ := Nat.exists_eq_succ_of_ne_zero (Nat.ne_of_gt hturns)
          rw [forLoop, hnone]
  | @turn v w vs m m' m'' hbody _ ih =>
      cases hrange with
      | next hnext hrest =>
          obtain ⟨steps, hloop⟩ := ih hrest
          obtain ⟨steps', hturn⟩ := hbody.enough
          refine ⟨max steps steps', fun fuel turns hfuel hturns => ?_⟩
          obtain ⟨turns, rfl⟩ :=
            Nat.exists_eq_succ_of_ne_zero (Nat.ne_of_gt (Nat.zero_lt_of_lt hturns))
          rw [forLoop, hnext]
          dsimp only
          rw [turn_eq, hturn fuel (by omega)]
          exact hloop fuel turns (by omega) (Nat.lt_of_succ_lt_succ hturns)

end Eval

/-! ## Loops over ranges -/

/-- An optional expression is evaluated to a value, or this value stands for it. -/
def Expr.YieldsOr (g : Setting) (otherwise : Value) (e : Option Expr) (m : Machine)
    (v : Value) (m' : Machine) : Prop :=
  match e with
  | some e => e.Yields g m v m'
  | none => v = otherwise ∧ m' = m

/-- An operand that may be missing has its value from some number of steps on. -/
theorem Expr.YieldsOr.enough {g : Setting} {otherwise v : Value} {e : Option Expr}
    {m m' : Machine} (h : Expr.YieldsOr g otherwise e m v m') :
    ∃ steps, ∀ fuel, steps ≤ fuel →
      Eval.optional (evaluate g fuel) otherwise e m = (.value v, m') := by
  cases e with
  | some e => exact Yields.enough h
  | none =>
      obtain ⟨rfl, rfl⟩ := h
      exact ⟨0, fun _ _ => rfl⟩

section Loops

variable {g : Setting} {counter : Option String} {first stride : Option Expr}
  {last body : Expr} {span : Span} {m m₁ m₂ m₃ m₄ : Machine} {a b c : Value}

/-- A loop evaluates its bounds once, from left to right, and takes a turn for each
value of the range between them. -/
theorem Eval.Turns.forLoop_yields {range : CounterRange} {vs : List Value}
    (hfirst : Expr.YieldsOr g (.int 0) first m a m₁) (hlast : last.Yields g m₁ b m₂)
    (hstride : Expr.YieldsOr g (.int 1) stride m₂ c m₃)
    (hof : CounterRange.of a b c = .ok range) (hrange : range.Gives vs)
    (hturns : Eval.Turns g counter body vs m₃ m₄) :
    Expr.Yields g ⟨.forLoop counter first last stride body, span⟩ m .null m₄ := by
  obtain ⟨n₁, hfirst⟩ := hfirst.enough
  obtain ⟨n₂, hlast⟩ := hlast.enough
  obtain ⟨n₃, hstride⟩ := hstride.enough
  obtain ⟨n₄, hloop⟩ := hturns.forLoop_eq hrange
  let fuel := n₁ + n₂ + n₃ + n₄ + vs.length + 1
  refine ⟨fuel + 1, ?_⟩
  show Eval.andThen (Eval.optional (evaluate g fuel) (.int 0) first) (fun start =>
    Eval.andThen (evaluate g fuel last) fun stop =>
      Eval.andThen (Eval.optional (evaluate g fuel) (.int 1) stride) fun step =>
        Eval.andThen (Eval.lift (CounterRange.of start stop step)) fun range =>
          Eval.forLoop (evaluate g fuel) counter body fuel range) m = _
  simp only [Eval.andThen, hfirst fuel (by omega), hlast fuel (by omega),
    hstride fuel (by omega), hof, Eval.lift, Eval.yield]
  exact hloop fuel fuel (by omega) (by omega)

end Loops

/-- A range between integers gives the values of the arithmetic progression that
stand before its end, computed without bounds on integers, and then stops for good.
A loop over it takes one turn for each of these values, in order and whatever the
turns do, as long as they end with a value; each turn has a new variable for the
counter. -/
theorem CounterRange.ints_counted (start stop step : Int64) (hstep : step ≠ 0) :
    CounterRange.of (.int start) (.int stop) (.int step) =
      .ok (.ints start stop step) ∧
    (∀ (name : String) (v : Value) (m : Machine),
      let inside := m.turning (some name) v
      inside.store.resolve? name inside.stack = some m.store.cells.size ∧
        inside.store.cell m.store.cells.size = ⟨v, false⟩ ∧
        ∀ index < m.store.cells.size, inside.store.cell index =
          m.store.cell index) ∧
    ∃ vs : List Int64,
      (∀ k, Before start stop step k ↔ k < vs.length) ∧
      (∀ (k : Nat) (x : Int64), vs[k]? = some x →
        x.toInt = start.toInt + k * step.toInt) ∧
      (∀ k, answer k (.ints start stop step) = vs[k]?.map .int) ∧
      ∀ (g : Setting) (counter : Option String) (first : Option Expr)
          (last : Expr) (stride : Option Expr) (body : Expr) (span : Span)
          (m m₁ m₂ m₃ m₄ : Machine),
        Expr.YieldsOr g (.int 0) first m (.int start) m₁ →
        last.Yields g m₁ (.int stop) m₂ →
        Expr.YieldsOr g (.int 1) stride m₂ (.int step) m₃ →
        Eval.Turns g counter body (vs.map .int) m₃ m₄ →
        Expr.Yields g ⟨.forLoop counter first last stride body, span⟩ m
          .null m₄ := by
  obtain ⟨vs, hvs, hgives⟩ := ints_gives start stop hstep
  refine ⟨of_ints start stop hstep, Machine.turning_fresh, vs, hvs.before_iff,
    hvs.toInt_eq, fun k => ?_, ?_⟩
  · rw [hgives.answer_eq, List.getElem?_map]
  · intro g counter first last stride body span m m₁ m₂ m₃ m₄ hfirst hlast
      hstride hturns
    exact hturns.forLoop_yields hfirst hlast hstride
      (of_ints start stop hstep) hgives

/-- The body `{ last = i; i = to; to = from; by = from; }`, which overwrites the
counter and the bounds of its loop. -/
def restlessBody : Expr :=
  let assign (target source : String) : Stmt :=
    ⟨.evaluate ⟨.binary .assign ⟨.name target, default⟩ ⟨.name source, default⟩,
      default⟩, true, default⟩
  ⟨.block [assign "last" "i", assign "i" "to", assign "to" "from",
    assign "by" "from"], default⟩

/-- The loop `for (i, from : to : by)` that counts by two from three before the
largest integer up to it: it takes two turns, and the next sum leaves 64 bits. -/
theorem restlessLoop_counted :
    let start := Int64.ofInt 0x7ffffffffffffffc
    let stop := Int64.ofInt 0x7fffffffffffffff
    let cells : Array Variable :=
      #[⟨.null, false⟩, ⟨.int start, false⟩, ⟨.int stop, false⟩, ⟨.int 2, false⟩]
    let names := [("last", 0), ("from", 1), ("to", 2), ("by", 3)]
    let m : Machine := ⟨⟨cells, #[⟨.block, names⟩], [0]⟩, [0], 0, 0, {}⟩
    let name (text : String) : Expr := ⟨.name text, default⟩
    let loop : Expr :=
      ⟨.forLoop (some "i") (some (name "from")) (name "to")
        (some (name "by")) restlessBody, default⟩
    (2 : Int64) ≠ 0 ∧
      (List.range 4).map (fun k => CounterRange.answer k (.ints start stop 2)) =
        [some (.int start), some (.int (start + 2)), none, none] ∧
      ∃ m', loop.Yields ⟨8, #[], []⟩ m .null m' ∧
        names.map (fun entry => (m'.store.cell entry.2).value.text) =
          ["9223372036854775806", "9223372036854775804", "9223372036854775804",
            "9223372036854775804"] := by
  intro start stop cells names m name loop
  obtain ⟨_, _, vs, hcount, hvalues, hanswers, hloop⟩ :=
    CounterRange.ints_counted start stop 2 (by decide)
  have hlength : vs.length = 2 := by
    have hone := (hcount 1).mp (by decide +kernel)
    have htwo := mt (hcount 2).mpr (by decide +kernel)
    omega
  obtain ⟨v, w, rfl⟩ := List.length_eq_two.mp hlength
  obtain rfl : v = start :=
    Int64.toInt_inj.mp ((hvalues 0 v rfl).trans (by decide +kernel))
  obtain rfl : w = start + 2 :=
    Int64.toInt_inj.mp ((hvalues 1 w rfl).trans (by decide +kernel))
  let g : Setting := ⟨8, #[], []⟩
  let inside (v : Int64) (m : Machine) := m.turning (some "i") (.int v)
  let behind (v : Int64) (m : Machine) :=
    (evaluate g 10 restlessBody (inside v m)).2.leave m.stack.length
  have hfrom : (name "from").Yields g m (.int start) m := ⟨1, rfl⟩
  have hto : (name "to").Yields g m (.int stop) m := ⟨1, rfl⟩
  have hby : (name "by").Yields g m (.int 2) m := ⟨1, rfl⟩
  obtain ⟨_, hfirst⟩ :=
    Expr.yields_of_isValue g 10 restlessBody (inside start m) (by decide +kernel)
  obtain ⟨_, hsecond⟩ :=
    Expr.yields_of_isValue g 10 restlessBody (inside (start + 2) (behind start m))
    (by decide +kernel)
  refine ⟨by decide, ?_, ?_⟩
  · simp only [hanswers]
    rfl
  · exact ⟨behind (start + 2) (behind start m),
      hloop g (some "i") _ _ _ restlessBody default m m m m _ hfrom hto hby
      (.turn hfirst (.turn hsecond (.done _))), by decide +kernel⟩

end ScriptLang
