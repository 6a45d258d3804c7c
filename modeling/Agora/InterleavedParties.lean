import Agora.TransitionSystem

/-!
# Parties that share a store

Parties take turns on one store.  A step of a party changes the store and the party; new
parties start at any time, and the environment may change the store by itself.  An invariant
of the store, of each party beside the store and of every two parties follows from a party's
own step and from what that step leaves to one other party; runs of any length and any number
of parties follow from the rule.
-/

universe u v w

/-- `spares` says what a step may do beside one other party. -/
structure PartySystem (σ : Type u) (π : Type v) (α : Type w) where
  initial : σ → Prop
  environment : σ → σ → Prop
  starts : σ → π → Prop
  act : σ → π → α → Option (σ × π)
  spares : σ → π → α → π → Prop

/-- The store and the parties in the order in which they started. -/
structure Configuration (σ : Type u) (π : Type v) where
  store : σ
  parties : List π

inductive PartyEvent (σ : Type u) (π : Type v) (α : Type w) where
  | environment (store : σ)
  | start (party : π)
  | act (index : ℕ) (label : α)

namespace PartySystem

variable {σ : Type u} {π : Type v} {α : Type w}

inductive Step (system : PartySystem σ π α) :
    Configuration σ π → PartyEvent σ π α → Configuration σ π → Prop
  | environment {before : Configuration σ π} {store : σ}
      (hchange : system.environment before.store store) :
      Step system before (.environment store) { before with store := store }
  | start {before : Configuration σ π} {party : π} (hstart : system.starts before.store party) :
      Step system before (.start party) { before with parties := before.parties ++ [party] }
  | act {before : Configuration σ π} {index : ℕ} {label : α} {party next : π} {store : σ}
      (hparty : before.parties[index]? = some party)
      (hact : system.act before.store party label = some (store, next))
      (hspares : ∀ other found, other ≠ index → before.parties[other]? = some found →
        system.spares before.store party label found) :
      Step system before (.act index label) ⟨store, before.parties.set index next⟩

/-- The runs start without parties. -/
def transitions (system : PartySystem σ π α) :
    TransitionSystem (Configuration σ π) (PartyEvent σ π α) where
  initial := fun start => system.initial start.store ∧ start.parties = []
  step := system.Step

def Reachable (system : PartySystem σ π α) (state : Configuration σ π) : Prop :=
  system.transitions.Reachable state

/-- The system whose steps also spare the other parties in a further way. -/
def sparing (system : PartySystem σ π α) (spares : σ → π → α → π → Prop) : PartySystem σ π α :=
  { system with spares := fun store party label other =>
      system.spares store party label other ∧ spares store party label other }

/-! ## The rule of the invariants -/

/-- What has to be shown once of a step and of one other party. -/
structure Invariant (system : PartySystem σ π α) (shared : σ → Prop) (own : σ → π → Prop)
    (apart : π → π → Prop) : Prop where
  initial : ∀ {store}, system.initial store → shared store
  environment : ∀ {store next}, system.environment store next → shared store →
    shared next ∧ ∀ party, own store party → own next party
  start : ∀ {store party}, system.starts store party → shared store →
    own store party ∧ ∀ other, own store other → apart party other
  act : ∀ {store next party moved label}, system.act store party label = some (next, moved) →
    shared store → own store party → shared next ∧ own next moved
  frame : ∀ {store next party moved other label},
    system.act store party label = some (next, moved) → shared store → own store party →
      own store other → apart party other → system.spares store party label other →
        own next other ∧ apart moved other
  symmetric : ∀ {first second}, apart first second → apart second first

/-- The invariant of a configuration that the rule is about. -/
structure Holds (shared : σ → Prop) (own : σ → π → Prop) (apart : π → π → Prop)
    (state : Configuration σ π) : Prop where
  store : shared state.store
  party : ∀ (index : ℕ) (party : π), state.parties[index]? = some party → own state.store party
  pair : ∀ (first second : ℕ) (one two : π), first ≠ second →
    state.parties[first]? = some one → state.parties[second]? = some two → apart one two

variable {system : PartySystem σ π α} {shared : σ → Prop} {own : σ → π → Prop}
  {apart : π → π → Prop}

theorem getElem?_append_single {parties : List π} {party found : π} {index : ℕ}
    (hfound : (parties ++ [party])[index]? = some found) :
    parties[index]? = some found ∨ (index = parties.length ∧ found = party) := by
  by_cases hold : index < parties.length
  · rw [List.getElem?_append_left hold] at hfound
    exact .inl hfound
  · have hbound : index < (parties ++ [party]).length := (List.getElem?_eq_some_iff.mp hfound).1
    rw [List.length_append, List.length_singleton] at hbound
    have hlast : index = parties.length := by omega
    rw [hlast, List.getElem?_concat_length] at hfound
    exact .inr ⟨hlast, (Option.some.inj hfound).symm⟩

theorem getElem?_set_cases {parties : List π} {next found : π} {index other : ℕ}
    (hfound : (parties.set index next)[other]? = some found) :
    (other = index ∧ found = next) ∨ (other ≠ index ∧ parties[other]? = some found) := by
  by_cases hother : other = index
  · subst hother
    have hbound := (List.getElem?_eq_some_iff.mp hfound).1
    rw [List.length_set] at hbound
    rw [List.getElem?_set_self hbound] at hfound
    exact .inl ⟨rfl, (Option.some.inj hfound).symm⟩
  · rw [List.getElem?_set_ne (Ne.symm hother)] at hfound
    exact .inr ⟨hother, hfound⟩

theorem Holds.start {state : Configuration σ π} {party : π}
    (hrule : system.Invariant shared own apart) (hholds : Holds shared own apart state)
    (hstart : system.starts state.store party) :
    Holds shared own apart { state with parties := state.parties ++ [party] } := by
  have hnew := hrule.start hstart hholds.store
  constructor
  · exact hholds.store
  · intro index found hfound
    cases getElem?_append_single hfound with
    | inl hold => exact hholds.party index found hold
    | inr hlast => rw [hlast.2]; exact hnew.1
  · intro first second one two hne hfirst hsecond
    cases getElem?_append_single hfirst with
    | inl hone =>
        cases getElem?_append_single hsecond with
        | inl htwo => exact hholds.pair first second one two hne hone htwo
        | inr hlast =>
            rw [hlast.2]
            exact hrule.symmetric (hnew.2 one (hholds.party first one hone))
    | inr hlast =>
        rw [hlast.2]
        cases getElem?_append_single hsecond with
        | inl htwo => exact hnew.2 two (hholds.party second two htwo)
        | inr hboth => exact absurd (hlast.1.trans hboth.1.symm) hne

theorem Holds.act {state : Configuration σ π} {index : ℕ} {label : α} {party next : π}
    {store : σ} (hrule : system.Invariant shared own apart)
    (hholds : Holds shared own apart state) (hparty : state.parties[index]? = some party)
    (hact : system.act state.store party label = some (store, next))
    (hspares : ∀ other found, other ≠ index → state.parties[other]? = some found →
      system.spares state.store party label found) :
    Holds shared own apart ⟨store, state.parties.set index next⟩ := by
  have hown := hholds.party index party hparty
  have hmoved := hrule.act hact hholds.store hown
  have hframe : ∀ other found, other ≠ index → state.parties[other]? = some found →
      own store found ∧ apart next found := by
    intro other found hother hfound
    apply hrule.frame hact hholds.store hown (hholds.party other found hfound)
    · exact hholds.pair index other party found hother.symm hparty hfound
    · exact hspares other found hother hfound
  constructor
  · exact hmoved.1
  · intro other found hfound
    cases getElem?_set_cases hfound with
    | inl hself => rw [hself.2]; exact hmoved.2
    | inr hother => exact (hframe other found hother.1 hother.2).1
  · intro first second one two hne hfirst hsecond
    cases getElem?_set_cases hfirst with
    | inl hself =>
        rw [hself.2]
        cases getElem?_set_cases hsecond with
        | inl hboth => exact absurd (hself.1.trans hboth.1.symm) hne
        | inr hother => exact (hframe second two hother.1 hother.2).2
    | inr hone =>
        cases getElem?_set_cases hsecond with
        | inl hself =>
            rw [hself.2]
            exact hrule.symmetric (hframe first one hone.1 hone.2).2
        | inr htwo => exact hholds.pair first second one two hne hone.2 htwo.2

theorem Holds.step {before after : Configuration σ π} {event : PartyEvent σ π α}
    (hrule : system.Invariant shared own apart) (hholds : Holds shared own apart before)
    (hstep : system.Step before event after) : Holds shared own apart after := by
  cases hstep with
  | environment hchange =>
      have hnext := hrule.environment hchange hholds.store
      exact ⟨hnext.1, fun index party hparty => hnext.2 party (hholds.party index party hparty),
        hholds.pair⟩
  | start hstart => exact hholds.start hrule hstart
  | act hparty hact hspares => exact hholds.act hrule hparty hact hspares

/-- The invariant holds in every reachable configuration. -/
theorem Invariant.holds {state : Configuration σ π}
    (hrule : system.Invariant shared own apart) (hreach : system.Reachable state) :
    Holds shared own apart state := by
  apply TransitionSystem.Reachable.invariant hreach
  · intro start hstart
    refine ⟨hrule.initial hstart.1, ?_, ?_⟩
    · intro index party hparty
      rw [hstart.2, List.getElem?_nil] at hparty
      cases hparty
    · intro first second one two _ hfirst
      rw [hstart.2, List.getElem?_nil] at hfirst
      cases hfirst
  · intro before event after hbefore hstep
    exact hbefore.step hrule hstep

theorem Invariant.sparing {spares : σ → π → α → π → Prop}
    (hrule : system.Invariant shared own apart) :
    (system.sparing spares).Invariant shared own apart where
  initial := hrule.initial
  environment := hrule.environment
  start := hrule.start
  act := hrule.act
  frame := fun hact hshared hparty hother hapart hspares =>
    hrule.frame hact hshared hparty hother hapart hspares.1
  symmetric := hrule.symmetric

theorem Step.of_sparing {spares : σ → π → α → π → Prop} {before after : Configuration σ π}
    {event : PartyEvent σ π α} (hstep : (system.sparing spares).Step before event after) :
    system.Step before event after := by
  cases hstep with
  | environment hchange => exact .environment hchange
  | start hstart => exact .start hstart
  | act hparty hact hspares =>
      exact .act hparty hact fun other found hother hfound => (hspares other found hother hfound).1

theorem Path.of_sparing {spares : σ → π → α → π → Prop} {before after : Configuration σ π}
    {events : List (PartyEvent σ π α)}
    (hpath : (system.sparing spares).transitions.Path before events after) :
    system.transitions.Path before events after := by
  induction hpath with
  | refl state => exact .refl state
  | cons hstep _ ih => exact .cons (Step.of_sparing hstep) ih

theorem Reachable.of_sparing {spares : σ → π → α → π → Prop} {state : Configuration σ π}
    (hreach : (system.sparing spares).Reachable state) : system.Reachable state := by
  obtain ⟨start, events, hinitial, hpath⟩ := hreach
  exact ⟨start, events, hinitial, Path.of_sparing hpath⟩

/-- A relation that every change respects where the invariant holds relates the stores of a
run. -/
theorem Invariant.related {relation : σ → σ → Prop} {before after : Configuration σ π}
    {events : List (PartyEvent σ π α)} (hrule : system.Invariant shared own apart)
    (hreach : system.Reachable before) (hpath : system.transitions.Path before events after)
    (hrefl : ∀ store, relation store store)
    (htrans : ∀ {a b c}, relation a b → relation b c → relation a c)
    (henvironment : ∀ {store next}, system.environment store next → relation store next)
    (hact : ∀ {store next party moved label}, system.act store party label = some (next, moved) →
      shared store → own store party → relation store next) :
    relation before.store after.store := by
  refine @TransitionSystem.Path.related _ _ _ (fun first last => relation first.store last.store)
    _ _ _ hreach hpath ?_ ?_ ?_
  · exact fun state => hrefl state.store
  · exact fun hfirst hsecond => htrans hfirst hsecond
  · intro first event last hfirst hstep
    have hholds := hrule.holds hfirst
    cases hstep with
    | environment hchange => exact henvironment hchange
    | start hstart => exact hrefl first.store
    | act hparty hnext hspares => exact hact hnext hholds.store (hholds.party _ _ hparty)

/-! ## Runs that are computed -/

/-- The configuration after the steps of the parties with these numbers. -/
def run (system : PartySystem σ π α) (state : Configuration σ π) :
    List (ℕ × α) → Option (Configuration σ π)
  | [] => some state
  | step :: rest =>
      (state.parties[step.1]?).bind fun party =>
        (system.act state.store party step.2).bind fun result =>
          system.run ⟨result.1, state.parties.set step.1 result.2⟩ rest

theorem run_sparing {spares : σ → π → α → π → Prop} (state : Configuration σ π)
    (steps : List (ℕ × α)) : (system.sparing spares).run state steps = system.run state steps := by
  induction steps generalizing state with
  | nil => rfl
  | cons step rest ih =>
      simp only [run, ih]
      rfl

/-- The steps spare the other parties of a configuration with so many of them. -/
def Considerate (system : PartySystem σ π α) (count : ℕ) (steps : List (ℕ × α)) : Prop :=
  ∀ step ∈ steps, ∀ other < count, other ≠ step.1 → ∀ store party found,
    system.spares store party step.2 found

theorem path_of_run {state last : Configuration σ π} {steps : List (ℕ × α)}
    (hspares : system.Considerate state.parties.length steps)
    (hrun : system.run state steps = some last) :
    system.transitions.Path state (steps.map fun step => .act step.1 step.2) last := by
  induction steps generalizing state with
  | nil =>
      cases hrun
      exact .refl _
  | cons step rest ih =>
      simp only [run, Option.bind_eq_some_iff] at hrun
      obtain ⟨party, hparty, result, hact, hrest⟩ := hrun
      apply TransitionSystem.Path.cons
      · apply Step.act hparty hact
        intro other found hother hfound
        have hbound : other < state.parties.length := (List.getElem?_eq_some_iff.mp hfound).1
        exact hspares step (List.mem_cons_self ..) other hbound hother _ party found
      · apply ih ?_ hrest
        rw [List.length_set]
        exact fun later hlater => hspares later (List.mem_cons_of_mem _ hlater)

theorem Reachable.run {state last : Configuration σ π} {steps : List (ℕ × α)}
    (hreach : system.Reachable state) (hspares : system.Considerate state.parties.length steps)
    (hrun : system.run state steps = some last) : system.Reachable last :=
  TransitionSystem.Reachable.path hreach (path_of_run hspares hrun)

/-- Each step of a computed run spares the other parties. -/
def spared (system : PartySystem σ π α)
    [∀ store party label other, Decidable (system.spares store party label other)]
    (state : Configuration σ π) : List (ℕ × α) → Bool
  | [] => true
  | step :: rest =>
      (state.parties[step.1]?).any fun party =>
        ((List.range state.parties.length).all fun other =>
          decide (other = step.1) || (state.parties[other]?).all fun found =>
            decide (system.spares state.store party step.2 found)) &&
          (system.act state.store party step.2).any fun result =>
            system.spared ⟨result.1, state.parties.set step.1 result.2⟩ rest

theorem path_of_spared
    [∀ store party label other, Decidable (system.spares store party label other)]
    {state last : Configuration σ π} {steps : List (ℕ × α)}
    (hspared : system.spared state steps = true) (hrun : system.run state steps = some last) :
    system.transitions.Path state (steps.map fun step => .act step.1 step.2) last := by
  induction steps generalizing state with
  | nil =>
      cases hrun
      exact .refl _
  | cons step rest ih =>
      simp only [run, Option.bind_eq_some_iff] at hrun
      obtain ⟨party, hparty, result, hact, hrest⟩ := hrun
      rw [spared, hparty, Option.any_some, hact, Option.any_some, Bool.and_eq_true,
        List.all_eq_true] at hspared
      apply TransitionSystem.Path.cons
      · apply Step.act hparty hact
        intro other found hother hfound
        have hbound : other < state.parties.length := (List.getElem?_eq_some_iff.mp hfound).1
        have hspares := hspared.1 other (List.mem_range.mpr hbound)
        rw [decide_eq_false hother, Bool.false_or, hfound, Option.all_some,
          decide_eq_true_eq] at hspares
        exact hspares
      · exact ih hspared.2 hrest

theorem Reachable.run_spared
    [∀ store party label other, Decidable (system.spares store party label other)]
    {state last : Configuration σ π} {steps : List (ℕ × α)} (hreach : system.Reachable state)
    (hspared : system.spared state steps = true) (hrun : system.run state steps = some last) :
    system.Reachable last :=
  TransitionSystem.Reachable.path hreach (path_of_spared hspared hrun)

/-- A party that is alone spares every other one. -/
theorem Reachable.run_alone {spares : σ → π → α → π → Prop} {store : σ} {party : π}
    {last : Configuration σ π} {steps : List (ℕ × α)} (hinitial : system.initial store)
    (hstart : system.starts store party) (halone : ∀ step ∈ steps, step.1 = 0)
    (hrun : system.run ⟨store, [party]⟩ steps = some last) :
    (system.sparing spares).Reachable last := by
  have hfirst : (system.sparing spares).transitions.initial ⟨store, []⟩ := ⟨hinitial, rfl⟩
  have hstep : (system.sparing spares).transitions.step ⟨store, []⟩ (.start party)
      ⟨store, [party]⟩ := .start hstart
  have hreach := (TransitionSystem.Reachable.initial hfirst).step hstep
  rw [← run_sparing ⟨store, [party]⟩ steps] at hrun
  apply Reachable.run hreach ?_ hrun
  intro step hmem other hbound hother
  have hself := halone step hmem
  have hzero : other < 1 := hbound
  omega

end PartySystem
