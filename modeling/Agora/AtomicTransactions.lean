import Mathlib.Tactic

/-!
# Atomic transactions over a state

A transaction reads and writes a state and may fail with an error; a failed one
leaves no state behind, so it commits all of its writes or none.  `Runs` says
that a transaction committed with a given result.  Its rules invert each way of
building a transaction, so a committed run is taken apart by rewriting and no
body is unfolded twice.  `settle` and `value?` compute what a transaction does
from a given state.
-/

universe u v

abbrev Transaction (σ : Type u) (ε : Type v) := StateT σ (Except ε)

namespace Transaction

variable {σ : Type u} {ε : Type v} {α β : Type u}

/-- The transaction commits with this value, taking one state to the other. -/
def Runs (body : Transaction σ ε α) (before : σ) (value : α) (after : σ) : Prop :=
  body before = .ok (value, after)

def check (condition : Prop) [Decidable condition] (failure : ε) :
    Transaction σ ε PUnit :=
  fun state => if condition then .ok (⟨⟩, state) else .error failure

def found (result : Option α) (failure : ε) : Transaction σ ε α :=
  fun state =>
    match result with
    | some value => .ok (value, state)
    | none => .error failure

def fail (failure : ε) : Transaction σ ε α :=
  fun _ => .error failure

/-- Run the first body; if it fails, undo it and let the handler take over. -/
def recover (body : Transaction σ ε α) (handler : ε → Transaction σ ε α) :
    Transaction σ ε α :=
  fun state =>
    match body state with
    | .ok result => .ok result
    | .error failure => handler failure state

/-- Run a body for each item in order. -/
def forEach {ι : Type*} (body : ι → Transaction σ ε PUnit) :
    List ι → Transaction σ ε PUnit
  | [] => pure ⟨⟩
  | item :: rest => do
      body item
      forEach body rest

/-- The committed state of a transaction: a failure leaves the state it started
from. -/
def settle (body : Transaction σ ε α) (state : σ) : σ :=
  match body state with
  | .ok (_, next) => next
  | .error _ => state

/-- The value of a transaction that commits from a state. -/
def value? (body : Transaction σ ε α) (state : σ) : Option α :=
  match body state with
  | .ok (value, _) => some value
  | .error _ => none

section Rules

variable {before after : σ} {value : α}

@[simp] theorem runs_pure {result : α} :
    Runs (pure result : Transaction σ ε α) before value after ↔
      result = value ∧ before = after := by
  have hpure : (pure result : Transaction σ ε α) before = .ok (result, before) := rfl
  simp [Runs, hpure]

@[simp] theorem runs_bind {first : Transaction σ ε β} {rest : β → Transaction σ ε α} :
    (first >>= rest).Runs before value after ↔
      ∃ result middle, first.Runs before result middle ∧
        (rest result).Runs middle value after := by
  unfold Runs
  simp only [bind, StateT.bind]
  cases hfirst : first before with
  | error failure => simp [Except.bind]
  | ok result =>
      rcases result with ⟨result, middle⟩
      simp [Except.bind]

@[simp] theorem runs_check {condition : Prop} [Decidable condition] {failure : ε}
    {done : PUnit.{u + 1}} :
    Runs (check condition failure : Transaction σ ε PUnit) before done after ↔
      condition ∧ before = after := by
  unfold Runs check
  by_cases hcondition : condition
  · simp [hcondition]
  · simp [hcondition]

@[simp] theorem runs_found {result : Option α} {failure : ε} :
    Runs (found result failure : Transaction σ ε α) before value after ↔
      result = some value ∧ before = after := by
  unfold Runs found
  cases result with
  | none => simp
  | some other => simp

@[simp] theorem runs_fail {failure : ε} :
    Runs (fail failure : Transaction σ ε α) before value after ↔ False := by
  simp [Runs, fail]

@[simp] theorem runs_get {state : σ} :
    Runs (get : Transaction σ ε σ) before state after ↔
      before = state ∧ before = after := by
  have hget : (get : Transaction σ ε σ) before = .ok (before, before) := rfl
  simp [Runs, hget]

@[simp] theorem runs_set {state : σ} {done : PUnit.{u + 1}} :
    Runs (set state : Transaction σ ε PUnit) before done after ↔ state = after := by
  have hset : (set state : Transaction σ ε PUnit) before = .ok (⟨⟩, state) := rfl
  simp [Runs, hset]

@[simp] theorem runs_modify {change : σ → σ} {done : PUnit.{u + 1}} :
    Runs (modify change : Transaction σ ε PUnit) before done after ↔
      change before = after := by
  have hmodify : (modify change : Transaction σ ε PUnit) before = .ok (⟨⟩, change before) := rfl
  simp [Runs, hmodify]

@[simp] theorem runs_ite {condition : Prop} [Decidable condition]
    {first second : Transaction σ ε α} :
    Runs (if condition then first else second) before value after ↔
      (condition ∧ first.Runs before value after) ∨
        (¬ condition ∧ second.Runs before value after) := by
  by_cases hcondition : condition
  · simp [hcondition]
  · simp [hcondition]

@[simp] theorem runs_forEach_nil {ι : Type*} {body : ι → Transaction σ ε PUnit}
    {done : PUnit.{u + 1}} :
    (forEach body []).Runs before done after ↔ before = after := by
  simp [forEach]

@[simp] theorem runs_forEach_cons {ι : Type*} {body : ι → Transaction σ ε PUnit}
    {item : ι} {rest : List ι} {done : PUnit.{u + 1}} :
    (forEach body (item :: rest)).Runs before done after ↔
      ∃ middle, (body item).Runs before ⟨⟩ middle ∧
        (forEach body rest).Runs middle ⟨⟩ after := by
  cases done
  simp only [forEach, runs_bind]
  constructor
  · rintro ⟨⟨⟩, middle, hitem, hrest⟩
    exact ⟨middle, hitem, hrest⟩
  · rintro ⟨middle, hitem, hrest⟩
    exact ⟨⟨⟩, middle, hitem, hrest⟩

theorem runs_recover {body : Transaction σ ε α} {handler : ε → Transaction σ ε α} :
    (recover body handler).Runs before value after ↔
      body.Runs before value after ∨
        ∃ failure, body before = .error failure ∧
          (handler failure).Runs before value after := by
  unfold Runs recover
  cases hbody : body before with
  | ok result => simp
  | error failure => simp

end Rules

theorem bind_of_runs {first : Transaction σ ε β} {rest : β → Transaction σ ε α}
    {before middle : σ} {result : β} (hruns : first.Runs before result middle) :
    (first >>= rest) before = rest result middle := by
  unfold Runs at hruns
  simp [bind, StateT.bind, hruns, Except.bind]

theorem bind_check_of_pos {condition : Prop} [Decidable condition] {failure : ε}
    {rest : PUnit → Transaction σ ε α} {state : σ} (hcondition : condition) :
    (check condition failure >>= rest) state = rest ⟨⟩ state :=
  bind_of_runs (runs_check.mpr ⟨hcondition, rfl⟩)

theorem bind_check_of_neg {condition : Prop} [Decidable condition] {failure : ε}
    {rest : PUnit → Transaction σ ε α} {state : σ} (hcondition : ¬ condition) :
    (check condition failure >>= rest) state = .error failure := by
  simp only [bind, StateT.bind, check, if_neg hcondition, Except.bind]

theorem bind_get {rest : σ → Transaction σ ε α} {state : σ} :
    ((get : Transaction σ ε σ) >>= rest) state = rest state state :=
  bind_of_runs (runs_get.mpr ⟨rfl, rfl⟩)

theorem bind_found_of_some {result : Option β} {value : β} {failure : ε}
    {rest : β → Transaction σ ε α} {state : σ} (hsome : result = some value) :
    (found result failure >>= rest) state = rest value state :=
  bind_of_runs (runs_found.mpr ⟨hsome, rfl⟩)

theorem bind_found_of_none {result : Option β} {failure : ε}
    {rest : β → Transaction σ ε α} {state : σ} (hnone : result = none) :
    (found result failure >>= rest) state = .error failure := by
  subst hnone
  rfl

theorem settle_of_runs {body : Transaction σ ε α} {before after : σ} {value : α}
    (hruns : body.Runs before value after) : body.settle before = after := by
  unfold Runs at hruns
  simp [settle, hruns]

/-- What holds of the state before and after every commit holds of the settled
state. -/
theorem settle_induction {motive : σ → Prop} {body : Transaction σ ε α} {before : σ}
    (hstay : motive before)
    (hcommit : ∀ value after, body.Runs before value after → motive after) :
    motive (body.settle before) := by
  unfold settle
  cases hbody : body before with
  | error failure => exact hstay
  | ok result => exact hcommit result.1 result.2 hbody

/-- A settled transaction has failed or committed. -/
theorem settle_cases (body : Transaction σ ε α) (before : σ) :
    body.settle before = before ∨ ∃ value, body.Runs before value (body.settle before) :=
  settle_induction (motive := fun after => after = before ∨ ∃ value, body.Runs before value after)
    (.inl rfl) fun value _ hruns => .inr ⟨value, hruns⟩

theorem runs_of_value? {body : Transaction σ ε α} {before : σ} {value : α}
    (hvalue : body.value? before = some value) :
    body.Runs before value (body.settle before) := by
  unfold value? at hvalue
  unfold Runs settle
  cases hbody : body before with
  | error failure => simp [hbody] at hvalue
  | ok result =>
      simp only [hbody, Option.some.injEq] at hvalue
      simp [← hvalue]

theorem value?_of_runs {body : Transaction σ ε α} {before after : σ} {value : α}
    (hruns : body.Runs before value after) : body.value? before = some value := by
  unfold Runs at hruns
  simp [value?, hruns]

end Transaction
