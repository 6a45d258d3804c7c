import Mathlib.Logic.Basic

/-!
# Programs that raise and keep their state

A program runs in a state and returns a value or raises a failure; what it did to the state
remains in both cases.  A program respects a relation when every run does, however it ends.
-/

universe u v w

def RaisingProgram (σ : Type u) (ε : Type v) (α : Type w) :=
  σ → Except ε α × σ

namespace RaisingProgram

variable {σ : Type u} {ε : Type v} {α β : Type w}

instance : Monad (RaisingProgram σ ε) where
  pure value state := (.ok value, state)
  bind first rest state :=
    match first state with
    | (.ok value, middle) => rest value middle
    | (.error failure, middle) => (.error failure, middle)

def raising (failure : ε) : RaisingProgram σ ε α :=
  fun state => (.error failure, state)

/-- The outcome of a pure step. -/
def lift (outcome : Except ε α) : RaisingProgram σ ε α :=
  fun state => (outcome, state)

def readState : RaisingProgram σ ε σ :=
  fun state => (.ok state, state)

def modifyState (change : σ → σ) : RaisingProgram σ ε PUnit :=
  fun state => (.ok ⟨⟩, change state)

/-- A handler of the failures of a body. -/
def handle (body : RaisingProgram σ ε α) (handler : ε → RaisingProgram σ ε α) :
    RaisingProgram σ ε α := fun state =>
  match body state with
  | (.ok value, after) => (.ok value, after)
  | (.error failure, after) => handler failure after

/-- The program returns a value. -/
def Returns (program : RaisingProgram σ ε α) (before : σ) (value : α) (after : σ) : Prop :=
  program before = (.ok value, after)

/-- The program raises a failure. -/
def Raises (program : RaisingProgram σ ε α) (before : σ) (failure : ε) (after : σ) : Prop :=
  program before = (.error failure, after)

/-- Every run of the program, whether it returns or raises, respects a relation. -/
def Respects (relation : σ → σ → Prop) (program : RaisingProgram σ ε α) : Prop :=
  ∀ before, relation before (program before).2

section Returns

variable {first : RaisingProgram σ ε α} {rest : α → RaisingProgram σ ε β}
  {body : RaisingProgram σ ε α} {handler : ε → RaisingProgram σ ε α} {outcome : Except ε α}
  {before after : σ} {value : α} {result : β} {failure : ε} {change : σ → σ}

@[simp] theorem returns_pure {given : α} :
    (pure given : RaisingProgram σ ε α).Returns before value after ↔
      given = value ∧ before = after := by
  simp [Returns, pure]

@[simp] theorem returns_bind :
    (first >>= rest).Returns before result after ↔
      ∃ value middle, first.Returns before value middle ∧
        (rest value).Returns middle result after := by
  simp only [Returns, bind]
  cases hfirst : first before with
  | mk outcome middle =>
      cases outcome with
      | error failure => simp
      | ok value =>
          simp only [Prod.mk.injEq, Except.ok.injEq]
          constructor
          · intro hrest
            exact ⟨value, middle, ⟨rfl, rfl⟩, hrest⟩
          · rintro ⟨_, _, ⟨rfl, rfl⟩, hrest⟩
            exact hrest

@[simp] theorem returns_raising :
    (raising failure : RaisingProgram σ ε α).Returns before value after ↔ False := by
  simp [Returns, raising]

@[simp] theorem returns_lift :
    (lift outcome : RaisingProgram σ ε α).Returns before value after ↔
      outcome = .ok value ∧ before = after := by
  simp [Returns, lift]

@[simp] theorem returns_readState {read : σ} :
    (readState : RaisingProgram σ ε σ).Returns before read after ↔
      before = read ∧ before = after := by
  simp [Returns, readState]

@[simp] theorem returns_modifyState {done : PUnit} :
    (modifyState change : RaisingProgram σ ε PUnit).Returns before done after ↔
      change before = after := by
  simp [Returns, modifyState]

theorem returns_handle :
    (body.handle handler).Returns before value after ↔
      body.Returns before value after ∨
        ∃ found middle, body.Raises before found middle ∧
          (handler found).Returns middle value after := by
  simp only [Returns, Raises, handle]
  cases hbody : body before with
  | mk outcome middle =>
      cases outcome with
      | ok found => simp
      | error found =>
          simp only [Prod.mk.injEq, reduceCtorEq, false_and, false_or, Except.error.injEq]
          constructor
          · intro hhandler
            exact ⟨found, middle, ⟨rfl, rfl⟩, hhandler⟩
          · rintro ⟨_, _, ⟨rfl, rfl⟩, hhandler⟩
            exact hhandler

/-- A handler that raises whatever it is given leaves the returns of the body. -/
theorem returns_handle_of_raising
    (hraising : ∀ failure before after, ¬ (handler failure).Returns before value after) :
    (body.handle handler).Returns before value after ↔ body.Returns before value after := by
  rw [returns_handle, or_iff_left]
  rintro ⟨found, middle, _, hhandler⟩
  exact hraising found middle after hhandler

end Returns

section Raises

variable {first : RaisingProgram σ ε α} {rest : α → RaisingProgram σ ε β}
  {body : RaisingProgram σ ε α} {handler : ε → RaisingProgram σ ε α}
  {before after : σ} {failure : ε}

@[simp] theorem raises_pure {given : α} :
    (pure given : RaisingProgram σ ε α).Raises before failure after ↔ False := by
  simp [Raises, pure]

@[simp] theorem raises_raising {given : ε} :
    (raising given : RaisingProgram σ ε α).Raises before failure after ↔
      given = failure ∧ before = after := by
  simp [Raises, raising]

@[simp] theorem raises_lift {outcome : Except ε α} :
    (lift outcome : RaisingProgram σ ε α).Raises before failure after ↔
      outcome = .error failure ∧ before = after := by
  simp [Raises, lift]

@[simp] theorem raises_bind :
    (first >>= rest).Raises before failure after ↔
      first.Raises before failure after ∨
        ∃ value middle, first.Returns before value middle ∧
          (rest value).Raises middle failure after := by
  simp only [Returns, Raises, bind]
  cases hfirst : first before with
  | mk outcome middle =>
      cases outcome with
      | error found => simp
      | ok value =>
          simp only [Prod.mk.injEq, reduceCtorEq, false_and, false_or, Except.ok.injEq]
          constructor
          · intro hrest
            exact ⟨value, middle, ⟨rfl, rfl⟩, hrest⟩
          · rintro ⟨_, _, ⟨rfl, rfl⟩, hrest⟩
            exact hrest

@[simp] theorem raises_handle :
    (body.handle handler).Raises before failure after ↔
      ∃ found middle, body.Raises before found middle ∧
        (handler found).Raises middle failure after := by
  simp only [Raises, handle]
  cases hbody : body before with
  | mk outcome middle =>
      cases outcome with
      | ok value => simp
      | error found =>
          simp only [Prod.mk.injEq, Except.error.injEq]
          constructor
          · intro hhandler
            exact ⟨found, middle, ⟨rfl, rfl⟩, hhandler⟩
          · rintro ⟨_, _, ⟨rfl, rfl⟩, hhandler⟩
            exact hhandler

end Raises

section Respects

variable {relation : σ → σ → Prop} {first : RaisingProgram σ ε α}
  {rest : α → RaisingProgram σ ε β} {body : RaisingProgram σ ε α}
  {handler : ε → RaisingProgram σ ε α}

theorem respects_pure (hrefl : ∀ state, relation state state) (value : α) :
    Respects relation (pure value : RaisingProgram σ ε α) :=
  hrefl

theorem respects_raising (hrefl : ∀ state, relation state state) (failure : ε) :
    Respects relation (raising failure : RaisingProgram σ ε α) :=
  hrefl

theorem respects_lift (hrefl : ∀ state, relation state state) (outcome : Except ε α) :
    Respects relation (lift outcome : RaisingProgram σ ε α) :=
  hrefl

/-- The rest of a program is only run where the first part returns. -/
theorem related_bind {before : σ}
    (htrans : ∀ a b c, relation a b → relation b c → relation a c)
    (hfirst : relation before (first before).2)
    (hrest : ∀ value middle, first.Returns before value middle →
      relation middle (rest value middle).2) :
    relation before ((first >>= rest) before).2 := by
  simp only [Bind.bind]
  cases hrun : first before with
  | mk outcome middle =>
      rw [hrun] at hfirst
      cases outcome with
      | error failure => exact hfirst
      | ok value => exact htrans _ _ _ hfirst (hrest value middle hrun)

theorem Respects.bind (htrans : ∀ a b c, relation a b → relation b c → relation a c)
    (hfirst : Respects relation first) (hrest : ∀ value, Respects relation (rest value)) :
    Respects relation (first >>= rest) :=
  fun before => related_bind htrans (hfirst before) fun value middle _ => hrest value middle

theorem Respects.handle (htrans : ∀ a b c, relation a b → relation b c → relation a c)
    (hbody : Respects relation body) (hhandler : ∀ failure, Respects relation (handler failure)) :
    Respects relation (body.handle handler) := by
  intro before
  have hbefore := hbody before
  unfold RaisingProgram.handle
  cases hrun : body before with
  | mk outcome middle =>
      rw [hrun] at hbefore
      cases outcome with
      | ok value => exact hbefore
      | error failure => exact htrans _ _ _ hbefore (hhandler failure middle)

theorem Respects.of_returns {value : α} {before after : σ} (hrespects : Respects relation body)
    (hreturns : body.Returns before value after) : relation before after := by
  have hrun := hrespects before
  rw [hreturns] at hrun
  exact hrun

theorem Respects.of_raises {failure : ε} {before after : σ} (hrespects : Respects relation body)
    (hraises : body.Raises before failure after) : relation before after := by
  have hrun := hrespects before
  rw [hraises] at hrun
  exact hrun

theorem Respects.mono {wider : σ → σ → Prop} (hrespects : Respects relation body)
    (hwider : ∀ a b, relation a b → wider a b) : Respects wider body :=
  fun before => hwider before _ (hrespects before)

end Respects

end RaisingProgram
