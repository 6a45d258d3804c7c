import Agora.ServiceDiscipline

/-!
# Deadlocks of the services

Under the lock discipline only user rows that a call locks by different queries can
close a cycle.  Two administrators who enable each other do; calls that lock every
further user above the ones they hold never do.
-/

namespace Agora

open Transaction

abbrev ServiceLockingState := LockingState LockingCall Db RowKey LockedRow Failure

/-! ## Waits of disciplined sessions -/

/-- Users wait for later users, and all other rows come before the users. -/
def RowKey.Below : RowKey → RowKey → Prop
  | .user first, .user second => first < second
  | _, .user _ => True
  | _, _ => False

theorem RowKey.below_irrefl (key : RowKey) : ¬ key.Below key := by
  cases key with
  | user id => exact lt_irrefl id
  | _ => exact id

theorem RowKey.below_trans {first second third : RowKey} (hfirst : first.Below second)
    (hsecond : second.Below third) : first.Below third := by
  cases third with
  | user last =>
      cases second with
      | user middle =>
          cases first with
          | user start => exact lt_trans hfirst hsecond
          | _ => trivial
      | _ => cases first <;> exact hfirst.elim
  | _ => cases second <;> exact hsecond.elim

/-- No two sessions commit the same reservation. -/
def ReservationsApart (state : ServiceLockingState) : Prop :=
  ∀ first second call other phase otherPhase,
    state.sessions first = some (call, phase) →
      state.sessions second = some (other, otherPhase) → first ≠ second →
        call.reservationIds.Disjoint other.reservationIds

section Waits

variable {state : ServiceLockingState}

/-- The lock of a grant or request is held together with the lock of its dashboard. -/
theorem holder_eq_of_scope (horderly : state.Orderly serviceDiscipline) {index other : ℕ}
    {scope : Db → Option Uuid} {key : RowKey} {held : List RowKey}
    (hlockable : ∀ call earlier, Lockable call state.shared earlier key →
      ∃ dashboardId ∈ scope state.shared, .dashboard dashboardId ∈ earlier)
    (hheld : ∀ first, state.holder first = some index ↔ first ∈ held)
    (hwaits : ∃ dashboardId ∈ scope state.shared, .dashboard dashboardId ∈ held)
    (hholder : state.holder key = some other) : other = index := by
  obtain ⟨dashboardId, hscope, hmem⟩ := hwaits
  obtain ⟨call, phase, earlier, _, hlocked, hearlier⟩ := horderly.locked hholder
  obtain ⟨otherId, hotherScope, hother⟩ := hlockable call earlier hlocked
  have hsame : otherId = dashboardId := Option.some.inj (hotherScope.symm.trans hscope)
  have hboth := hearlier _ hother
  rw [hsame, (hheld _).mpr hmem] at hboth
  exact (Option.some.inj hboth).symm

theorem ascending_of_orderly (horderly : state.Orderly serviceDiscipline)
    (hapart : ReservationsApart state) : state.Ascending RowKey.Below := by
  intro index other call key waiting rows matching next hsession hholder hother first hfirst
  obtain ⟨held, hheld, hlockable⟩ := horderly.requested hsession
  have hmem := (hheld first).mp hfirst
  cases key with
  | dashboard id =>
      have hnothing : held = [] := hlockable
      rw [hnothing] at hmem
      contradiction
  | grant id =>
      refine absurd ?_ hother
      refine @holder_eq_of_scope _ horderly _ _
        (fun db => (db.grants.get? id).map ViewerGrant.dashboardId) _ held ?_ hheld ?_ hholder
      · rintro call earlier ⟨grant, hgrant, hdashboard⟩
        exact ⟨_, Option.mem_map_of_mem _ hgrant, hdashboard⟩
      · obtain ⟨grant, hgrant, hdashboard⟩ := hlockable
        exact ⟨_, Option.mem_map_of_mem _ hgrant, hdashboard⟩
  | accessRequest id =>
      refine absurd ?_ hother
      refine @holder_eq_of_scope _ horderly _ _
        (fun db => (db.accessRequests.get? id).map AccessRequest.dashboardId) _ held ?_ hheld ?_
          hholder
      · rintro call earlier ⟨request, hrequest, hdashboard⟩
        exact ⟨_, Option.mem_map_of_mem _ hrequest, hdashboard⟩
      · obtain ⟨request, hrequest, hdashboard⟩ := hlockable
        exact ⟨_, Option.mem_map_of_mem _ hrequest, hdashboard⟩
  | reservation id =>
      obtain ⟨owner, phase, earlier, howner, hlocked, _⟩ := horderly.locked hholder
      exact absurd hlocked (hapart _ _ _ _ _ _ hsession howner hother.symm hlockable)
  | user id =>
      cases first with
      | user earlier =>
          rcases hlockable with hown | hascends
          · have hsame := (hheld _).mpr hown
            rw [hholder] at hsame
            exact absurd (Option.some.inj hsame) hother
          · refine lt_of_le_of_ne (hascends earlier hmem) ?_
            rintro rfl
            rw [hholder] at hfirst
            exact hother (Option.some.inj hfirst)
      | _ => trivial

theorem not_deadlocked_of_orderly (horderly : state.Orderly serviceDiscipline)
    (hapart : ReservationsApart state) : ¬ state.Deadlocked :=
  LockingState.not_deadlocked_of_ascending RowKey.below_irrefl RowKey.below_trans
    (ascending_of_orderly horderly hapart)

end Waits

/-! ## Runs -/

/-- Users are locked upwards, and a new call brings reservations of its own. -/
structure OrderedStep (state : ServiceLockingState) (event : LockingEvent LockingCall) :
    Prop where
  ascending : LockingSystem.AscendingStep serviceDiscipline state event
  apart : ∀ index call, event = .begin index call → ∀ other found phase,
    state.sessions other = some (found, phase) →
      call.reservationIds.Disjoint found.reservationIds

section Runs

variable {platform : Platform} {before after : ServiceLockingState}

theorem reservationsApart_step {event : LockingEvent LockingCall}
    (hapart : ReservationsApart before) (hordered : OrderedStep before event)
    (hstep : (lockingServices platform).Step before event after) : ReservationsApart after := by
  intro first second call other phase otherPhase hfirst hsecond hne
  rcases LockingSystem.call_of_step hstep hfirst with ⟨earlier, hold⟩ | hnew
  · rcases LockingSystem.call_of_step hstep hsecond with ⟨otherEarlier, hotherOld⟩ | hnew
    · exact hapart _ _ _ _ _ _ hold hotherOld hne
    · exact (hordered.apart _ _ hnew _ _ _ hold).symm
  · rcases LockingSystem.call_of_step hstep hsecond with ⟨otherEarlier, hotherOld⟩ | hother
    · exact hordered.apart _ _ hnew _ _ _ hotherOld
    · rw [hnew] at hother
      cases hother
      contradiction

/-- Only new calls and locking statements have a condition to meet. -/
theorem orderedStep_of_quiet {event : LockingEvent LockingCall}
    (hbegin : ∀ index call, event ≠ .begin index call) (hselect : ∀ index, event ≠ .select index) :
    OrderedStep before event where
  ascending index _ _ _ _ hevent := absurd hevent (hselect index)
  apart index call hevent := absurd hevent (hbegin index call)

/-- No run whose locking statements all take users upwards ever deadlocks. -/
theorem no_deadlock_of_ordered_locks {start last : ServiceLockingState}
    {events : List (LockingEvent LockingCall)}
    (hstored : (serviceSystem platform).Reachable start.shared)
    (hstart : (lockingServices platform).transitions.initial start)
    (hpath : ((lockingServices platform).transitions.guarded OrderedStep).Path start events
      last) : ¬ last.Deadlocked := by
  have horderly : last.Orderly serviceDiscipline :=
    LockingSystem.orderly_of_reachable (fun call now _ => call.program_obeys platform)
      (fun _ _ hordered => hordered.ascending) hstart (referenced_of_reachable hstored) hpath
  have hapart : ReservationsApart last := by
    refine hpath.preserves ?_ fun before event after hbefore hstep =>
      reservationsApart_step hbefore hstep.1 hstep.2
    intro first second call other phase otherPhase hfirst
    rw [hstart.2 first] at hfirst
    contradiction
  exact not_deadlocked_of_orderly horderly hapart

end Runs

/-! ## Computed runs -/

def administratorCalls : List ServiceCall :=
  [⟨contextAt 0 1, .bootstrapFirstAdministrator "AA00001".toList samplePassword sampleSalt⟩,
    ⟨contextAt 1 2, .provisionUser 1 "BB00002".toList samplePassword sampleSalt true⟩]

/-- Two administrators and no open call. -/
def twoAdministrators : ServiceLockingState where
  shared := runCalls asciiPlatform administratorCalls
  holder _ := none
  sessions _ := none

def enabling (actorId targetId : Uuid) : LockingCall :=
  .account ⟨contextAt 3 3, .enableUser actorId targetId⟩

/-- The administrators enable each other. -/
def crossingEnables : List (LockingEvent LockingCall) :=
  [.begin 0 (enabling 1 2), .begin 1 (enabling 2 1), .select 0, .acquire 0, .selected 0,
    .select 0, .select 1, .acquire 1, .selected 1, .select 1]

/-- An administrator enables herself and the other one at the same time. -/
def competingEnables : List (LockingEvent LockingCall) :=
  [.begin 0 (enabling 1 1), .begin 1 (enabling 1 2), .select 0, .select 1]

theorem twoAdministrators_reachable :
    (serviceSystem asciiPlatform).Reachable twoAdministrators.shared :=
  @reachable_runCalls asciiPlatform administratorCalls

theorem twoAdministrators_initial :
    (lockingServices asciiPlatform).transitions.initial twoAdministrators :=
  ⟨fun _ => rfl, fun _ => rfl⟩

theorem crossing_enables_deadlock :
    (serviceSystem asciiPlatform).Reachable twoAdministrators.shared ∧
      (lockingServices asciiPlatform).transitions.initial twoAdministrators ∧
        ∃ last, (lockingServices asciiPlatform).transitions.Path twoAdministrators
          crossingEnables last ∧ last.Deadlocked := by
  have hcomputed : ((lockingServices asciiPlatform).run twoAdministrators crossingEnables).map
      (fun last => (last.requested? 0, last.requested? 1, last.holder (.user 1),
        last.holder (.user 2))) =
          some (some (.user 2), some (.user 1), some 0, some 1) := by decide +kernel
  obtain ⟨last, hrun, hlast⟩ := Option.map_eq_some_iff.mp hcomputed
  simp only [Prod.mk.injEq] at hlast
  obtain ⟨hfirst, hsecond, hone, htwo⟩ := hlast
  have hforth := LockingState.waits_of_requested? hfirst htwo (by decide)
  have hback := LockingState.waits_of_requested? hsecond hone (by decide)
  exact ⟨twoAdministrators_reachable, twoAdministrators_initial, last,
    LockingSystem.path_of_run hrun, 0, .tail (.single hforth) hback⟩

theorem orderedStep_enabling {state : ServiceLockingState} (index : ℕ) (actorId targetId : Uuid) :
    OrderedStep state (.begin index (enabling actorId targetId)) := by
  refine ⟨by simp [LockingSystem.AscendingStep], ?_⟩
  intro other call hevent
  cases hevent
  simp [enabling, LockingCall.reservationIds]

theorem competingEnables_ordered :
    ∃ middle, ((lockingServices asciiPlatform).transitions.guarded OrderedStep).Path
      twoAdministrators competingEnables middle ∧
        ((lockingServices asciiPlatform).run middle [.acquire 0, .selected 0]).map
          (fun last => (last.requested? 1, last.holder (.user 1))) =
            some (some (.user 1), some 0) := by
  have hselecting : ∀ (state : ServiceLockingState) index, (∀ key, state.holder key = none) →
      OrderedStep state (.select index) := by
    intro state index hnone
    refine ⟨?_, by simp⟩
    intro _ _ _ _ _ _ _ first hfirst
    rw [hnone first] at hfirst
    contradiction
  refine ⟨_, .cons ⟨orderedStep_enabling .., .begun _ rfl⟩
    (.cons ⟨orderedStep_enabling .., .begun _ rfl⟩
      (.cons ⟨hselecting _ _ fun _ => rfl, .selecting rfl⟩
        (.cons ⟨hselecting _ _ fun _ => rfl, .selecting rfl⟩ (.refl _)))), ?_⟩
  decide +kernel

theorem competing_enables_wait :
    ∃ last, ((lockingServices asciiPlatform).transitions.guarded OrderedStep).Path
      twoAdministrators (competingEnables ++ [.acquire 0, .selected 0]) last ∧
        last.Waits 1 0 ∧ ¬ last.Deadlocked := by
  obtain ⟨middle, hstart, hcomputed⟩ := competingEnables_ordered
  obtain ⟨last, hrun, hlast⟩ := Option.map_eq_some_iff.mp hcomputed
  simp only [Prod.mk.injEq] at hlast
  obtain ⟨hrequested, hholder⟩ := hlast
  have hrest : ((lockingServices asciiPlatform).transitions.guarded OrderedStep).Path middle
      [.acquire 0, .selected 0] last := by
    have hpath := LockingSystem.path_of_run hrun
    cases hpath with
    | cons hacquire hselected =>
        cases hselected with
        | cons hlast hend =>
            cases hend
            exact .cons ⟨orderedStep_of_quiet (by simp) (by simp), hacquire⟩
              (.single ⟨orderedStep_of_quiet (by simp) (by simp), hlast⟩)
  have hpath := hstart.append hrest
  exact ⟨last, hpath, LockingState.waits_of_requested? hrequested hholder (by decide),
    no_deadlock_of_ordered_locks twoAdministrators_reachable twoAdministrators_initial hpath⟩

end Agora
