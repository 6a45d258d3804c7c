import Mathlib.Tactic

/-!
# Labelled transition systems

A system has initial states and a labelled step relation.  A path records the
labels of a run; reachable states are the ends of paths from initial states.
The rules below package the inductions over paths: an invariant holds in every
reachable state, a stable property once true stays true, and a preorder that
every step respects relates the two ends of a path.  `guarded` keeps the steps
that meet a condition, so a property of its runs is a property of the runs
whose steps all meet that condition.
-/

universe u v

structure TransitionSystem (σ : Type u) (α : Type v) where
  initial : σ → Prop
  step : σ → α → σ → Prop

namespace TransitionSystem

variable {σ : Type u} {α : Type v}

/-- A finite run from one state to another with its labels in order. -/
inductive Path (system : TransitionSystem σ α) : σ → List α → σ → Prop
  | refl (state : σ) : Path system state [] state
  | cons {first second last : σ} {label : α} {labels : List α}
      (hstep : system.step first label second)
      (hrest : Path system second labels last) :
      Path system first (label :: labels) last

def Reachable (system : TransitionSystem σ α) (state : σ) : Prop :=
  ∃ start labels, system.initial start ∧ system.Path start labels state

/-- The system restricted to the steps that meet a condition. -/
def guarded (system : TransitionSystem σ α) (condition : σ → α → Prop) :
    TransitionSystem σ α where
  initial := system.initial
  step := fun before label after => condition before label ∧ system.step before label after

variable {system : TransitionSystem σ α}

theorem Path.append {first second third : σ} {before after : List α}
    (hbefore : system.Path first before second)
    (hafter : system.Path second after third) :
    system.Path first (before ++ after) third := by
  induction hbefore with
  | refl state => exact hafter
  | cons hstep hrest ih => exact .cons hstep (ih hafter)

theorem Path.single {first second : σ} {label : α}
    (hstep : system.step first label second) :
    system.Path first [label] second :=
  .cons hstep (.refl second)

theorem Path.guarded {condition : σ → α → Prop} {first last : σ} {labels : List α}
    (hpath : (system.guarded condition).Path first labels last) :
    system.Path first labels last := by
  induction hpath with
  | refl state => exact .refl state
  | cons hstep hrest ih => exact .cons hstep.2 ih

theorem Reachable.initial {start : σ} (hstart : system.initial start) :
    system.Reachable start :=
  ⟨start, [], hstart, .refl start⟩

theorem Reachable.path {first last : σ} {labels : List α}
    (hreach : system.Reachable first) (hpath : system.Path first labels last) :
    system.Reachable last := by
  rcases hreach with ⟨start, before, hstart, hbefore⟩
  exact ⟨start, before ++ labels, hstart, hbefore.append hpath⟩

theorem Reachable.step {first last : σ} {label : α}
    (hreach : system.Reachable first) (hstep : system.step first label last) :
    system.Reachable last :=
  hreach.path (.single hstep)

theorem Reachable.of_guarded {condition : σ → α → Prop} {state : σ}
    (hreach : (system.guarded condition).Reachable state) : system.Reachable state := by
  rcases hreach with ⟨start, labels, hstart, hpath⟩
  exact ⟨start, labels, hstart, hpath.guarded⟩

/-- A property kept by every step is carried along a path. -/
theorem Path.preserves {motive : σ → Prop} {first last : σ} {labels : List α}
    (hpath : system.Path first labels last) (hfirst : motive first)
    (hstep : ∀ before label after, motive before →
      system.step before label after → motive after) :
    motive last := by
  induction hpath with
  | refl state => exact hfirst
  | cons hnext hrest ih => exact ih (hstep _ _ _ hfirst hnext)

/-- The invariant rule. -/
theorem Reachable.invariant {motive : σ → Prop} {state : σ}
    (hreach : system.Reachable state)
    (hinitial : ∀ start, system.initial start → motive start)
    (hstep : ∀ before label after, motive before →
      system.step before label after → motive after) :
    motive state := by
  rcases hreach with ⟨start, labels, hstart, hpath⟩
  exact hpath.preserves (hinitial start hstart) hstep

/-- The invariant rule relative to an invariant already known. -/
theorem Reachable.invariant_of {known motive : σ → Prop} {state : σ}
    (hreach : system.Reachable state)
    (hknown : ∀ reached, system.Reachable reached → known reached)
    (hinitial : ∀ start, system.initial start → motive start)
    (hstep : ∀ before label after, known before → known after → motive before →
      system.step before label after → motive after) :
    motive state := by
  have hboth : system.Reachable state ∧ motive state :=
    hreach.invariant (motive := fun reached => system.Reachable reached ∧ motive reached)
      (fun start hstart => ⟨.initial hstart, hinitial start hstart⟩)
      (fun before label after hbefore hnext =>
        have hafter := hbefore.1.step hnext
        ⟨hafter, hstep before label after (hknown before hbefore.1)
          (hknown after hafter) hbefore.2 hnext⟩)
  exact hboth.2

/-- A preorder respected by every step between reachable states relates the two
ends of every path between them. -/
theorem Path.related {relation : σ → σ → Prop} {first last : σ} {labels : List α}
    (hreach : system.Reachable first) (hpath : system.Path first labels last)
    (hrefl : ∀ state, relation state state)
    (htrans : ∀ {a b c}, relation a b → relation b c → relation a c)
    (hstep : ∀ before label after, system.Reachable before →
      system.step before label after → relation before after) :
    relation first last := by
  induction hpath with
  | refl state => exact hrefl state
  | cons hnext hrest ih =>
      exact htrans (hstep _ _ _ hreach hnext) (ih (hreach.step hnext))

/-- A property that is stable under the steps from reachable states, once true,
is true at the end of every path. -/
theorem Path.stable {motive : σ → Prop} {first last : σ} {labels : List α}
    (hreach : system.Reachable first) (hpath : system.Path first labels last)
    (hstep : ∀ before label after, system.Reachable before →
      system.step before label after → motive before → motive after)
    (hfirst : motive first) : motive last :=
  have hcarried : motive first → motive last :=
    hpath.related hreach (fun _ h => h) (fun hab hbc h => hbc (hab h)) hstep
  hcarried hfirst

end TransitionSystem
