import Agora.SignInRaces

/-!
# Sign-ins that raise

A statement of a sign-in finds no row only where another sign-in has deleted it: between the
query for the identifier of the row and its lock, or between the refusal of an insertion and
the query that follows it.
-/

namespace Agora

/-- The next statement of the transaction needs a committed row. -/
def SignInSession.awaits (session : SignInSession) (row : ThrottleRow) : Bool :=
  match session.phase with
  | .locking id => id = row.id
  | .refetching => session.pending.head? = some row.hash
  | _ => false

/-- No commit deletes a row that another transaction needs next. -/
def SignInState.Undisturbed (state : SignInState) : SignInEvent → Prop
  | .advance index => ∀ session user ids, state.sessions index = some session →
      session.phase = .deleted user ids → ∀ row ∈ session.held, row.id ∈ ids →
        ∀ other found, other ≠ index → state.sessions other = some found →
          found.awaits row = false
  | _ => True

/-! ## The rows that are needed are there -/

def SignInSession.Found (stored : List (ℕ × Text)) (session : SignInSession) : Prop :=
  match session.phase with
  | .refetching => ∃ hash ∈ session.pending.head?, hash ∈ stored.map Prod.snd
  | .locking id => id ∈ session.keys.map Prod.fst ∨ id ∈ stored.map Prod.fst
  | .raised => False
  | _ => True

def SignInState.AllFound (state : SignInState) : Prop :=
  ∀ index session, state.sessions index = some session → session.Found state.stored

section Deletions

variable {library : LoginLibrary} {names : ℕ → Text} {state after : SignInState} {index : ℕ}
  {session next : SignInSession} {hash : Text} {rest : List Text} {id : ℕ} {row : ThrottleRow}

theorem SignInState.AllFound.enter (hall : state.AllFound) (hnext : next.Found state.stored) :
    (state.enter index next).AllFound := by
  intro other found hfound
  cases enter_cases hfound with
  | inl hown =>
      rw [hown.2]
      exact hnext
  | inr hother => exact hall other found hother.2

/-- A row that a query has just seen. -/
theorem found_locking (hrow : row ∈ session.visible state.committed) :
    SignInSession.Found state.stored { session with phase := .locking row.id } := by
  cases key_of_visible hrow with
  | inl hheld => exact .inl (mem_ids hheld)
  | inr hstored => exact .inr (mem_ids hstored.1)

/-- The transaction sees every row of an identifier that it holds, and every committed one. -/
theorem exists_visible (hid : id ∈ session.keys.map Prod.fst ∨ id ∈ state.stored.map Prod.fst) :
    ∃ row ∈ session.visible state.committed, row.id = id := by
  by_cases hheld : id ∈ session.keys.map Prod.fst
  · rw [keys_map_fst] at hheld
    obtain ⟨row, hrow, hsame⟩ := List.mem_map.mp hheld
    exact ⟨row, mem_visible.mpr (.inl hrow), hsame⟩
  · have hstored := hid.resolve_left hheld
    rw [SignInState.stored, List.map_map] at hstored
    obtain ⟨row, hrow, hsame⟩ := List.mem_map.mp hstored
    have hrowId : row.id = id := hsame
    rw [← hrowId] at hheld
    exact ⟨row, mem_visible.mpr (.inr ⟨hrow, hheld⟩), hrowId⟩

theorem SignInState.AllFound.fetch (hall : state.AllFound) :
    (state.fetch index session hash).AllFound := by
  unfold SignInState.fetch
  split
  · rename_i row hfound
    exact hall.enter (found_locking (List.mem_of_find?_eq_some hfound))
  · exact hall.enter trivial

theorem SignInState.AllFound.refetch (hall : state.AllFound) (hstate : state.Consistent names)
    (hsession : state.sessions index = some session) (hphase : session.phase = .refetching)
    (hpending : session.pending = hash :: rest) :
    (state.refetch index session hash).AllFound := by
  unfold SignInState.refetch
  split
  · rename_i row hfound
    exact hall.enter (found_locking (List.mem_of_find?_eq_some hfound))
  · rename_i hnone
    have hneeded := hall index session hsession
    rw [SignInSession.Found, hphase] at hneeded
    obtain ⟨wanted, hwanted, hstored⟩ := hneeded
    rw [hpending, List.head?_cons, Option.mem_some_iff] at hwanted
    rw [← hwanted] at hstored
    obtain ⟨row, hrow, hsame⟩ := hstate.exists_visible_hash hsession hstored
    have hmissing := List.find?_eq_none.mp hnone row hrow
    simp [hsame] at hmissing

theorem SignInState.AllFound.insert (hall : state.AllFound) (hstate : state.Consistent names)
    (hsession : state.sessions index = some session) (hphase : session.phase = .inserting)
    (hpending : session.pending = hash :: rest)
    (hafter : state.insert index session hash = some after) : after.AllFound := by
  unfold SignInState.insert at hafter
  split at hafter
  · cases hafter
  · split at hafter
    · rename_i hseen
      obtain rfl := Option.some.inj hafter
      apply hall.enter
      obtain ⟨row, hrow, hsame⟩ := List.any_eq_true.mp hseen
      rw [decide_eq_true_eq] at hsame
      refine ⟨hash, by simp [hpending], ?_⟩
      rw [← hsame]
      cases key_of_visible hrow with
      | inl hheld =>
          have hless := (hstate.sound index session hsession).below_pending (by simp [hphase])
          rw [hpending] at hless
          have hbelow := hless row.key hheld hash List.mem_cons_self
          rw [show row.key.2 = hash from hsame] at hbelow
          exact absurd hbelow (lt_irrefl hash)
      | inr hstored => exact mem_hashes hstored.1
    · obtain rfl := Option.some.inj hafter
      intro other found hfound
      cases enter_cases hfound with
      | inl hown =>
          rw [hown.2]
          apply Or.inl
          rw [keys_concat, List.map_append]
          exact List.mem_append_right _ (List.mem_singleton_self _)
      | inr hother => exact hall other found hother.2

theorem SignInState.AllFound.lock (hall : state.AllFound)
    (hsession : state.sessions index = some session) (hphase : session.phase = .locking id)
    (hafter : state.lock index session id = some after) : after.AllFound := by
  unfold SignInState.lock at hafter
  split at hafter
  · cases hafter
  · split at hafter
    · rename_i hnone
      have hneeded := hall index session hsession
      rw [SignInSession.Found, hphase] at hneeded
      obtain ⟨row, hrow, hsame⟩ := exists_visible hneeded
      have hmissing := List.find?_eq_none.mp hnone row hrow
      simp [hsame] at hmissing
    · obtain rfl := Option.some.inj hafter
      exact hall.enter trivial

/-- A save of a row of the transaction finds it. -/
theorem SignInState.AllFound.save (hall : state.AllFound) {phase : SignInPhase}
    (hrow : row.id ∈ session.keys.map Prod.fst)
    (hnext : SignInSession.Found state.stored
      { session with held := session.saved row, phase := phase }) :
    (state.save index session row phase).AllFound := by
  obtain ⟨own, hown, hsame⟩ := exists_visible (.inl hrow)
  have hseen : (session.visible state.committed).any (fun other => other.id = row.id) = true :=
    List.any_eq_true.mpr ⟨own, hown, by simpa using hsame⟩
  rw [SignInState.save, if_pos hseen]
  exact hall.enter hnext

theorem SignInState.AllFound.refresh (hall : state.AllFound)
    (hid : id ∈ session.keys.map Prod.fst) :
    (state.refresh index session id).AllFound := by
  have hnext : ∀ held, SignInSession.Found state.stored
      { session with held := held, phase := session.looped } := by
    intro held
    by_cases hpending : session.pending = []
    · simp only [SignInSession.looped, if_pos hpending]
      exact trivial
    · simp only [SignInSession.looped, if_neg hpending]
      exact trivial
  unfold SignInState.refresh
  split
  · rename_i hnone
    rw [keys_map_fst] at hid
    obtain ⟨row, hrow, hsame⟩ := List.mem_map.mp hid
    have hmissing := List.find?_eq_none.mp hnone row hrow
    simp [hsame] at hmissing
  · rename_i row hfound
    split
    · exact hall.enter (hnext session.held)
    · have hheld : row.id ∈ session.keys.map Prod.fst := by
        rw [keys_map_fst]
        exact List.mem_map_of_mem (List.mem_of_find?_eq_some hfound)
      exact hall.save hheld (hnext _)

/-- A commit leaves the rows that the others need next. -/
theorem SignInState.AllFound.commit (hall : state.AllFound) (hstate : state.Consistent names)
    (hsession : state.sessions index = some session) {deleted : List ℕ} {user : Option User}
    (hdeleted : ∀ id ∈ deleted, id ∈ session.keys.map Prod.fst)
    (hfree : ∀ row ∈ session.held, row.id ∈ deleted → ∀ other found, other ≠ index →
      state.sessions other = some found → found.awaits row = false) :
    (state.commit index session deleted user).AllFound := by
  have hkept : ∀ key ∈ state.stored,
      key ∈ (state.afterCommit session deleted).map ThrottleRow.key ∨
        ∃ row ∈ session.held, row.key = key ∧ row.id ∈ deleted := by
    intro key hkey
    by_cases hheld : key.1 ∈ session.keys.map Prod.fst
    · obtain ⟨own, hown, hsame⟩ := List.mem_map.mp hheld
      have hknown := (hstate.sound index session hsession).rows.known own hown
      have heq := hknown.eq_of_fst hstate.ids hkey hsame.symm
      rw [← heq] at hown
      by_cases hgone : key.1 ∈ deleted
      · obtain ⟨row, hrow, hrowKey⟩ := List.mem_map.mp hown
        refine .inr ⟨row, hrow, hrowKey, ?_⟩
        rw [← hrowKey] at hgone
        exact hgone
      · exact .inl (mem_afterCommit.mpr ⟨.inl hown, hgone⟩)
    · exact .inl (stored_afterCommit hkey hheld hdeleted)
  intro other found hfound
  cases enter_cases hfound with
  | inl hown =>
      rw [hown.2]
      exact trivial
  | inr hother =>
      have hneeded := hall other found hother.2
      have hawaits := fun row hrow hgone => hfree row hrow hgone other found hother.1 hother.2
      unfold SignInSession.Found at hneeded ⊢
      cases hphase : found.phase with
      | refetching =>
          simp only [hphase] at hneeded ⊢
          obtain ⟨hash, hhead, hstored⟩ := hneeded
          refine ⟨hash, hhead, ?_⟩
          obtain ⟨key, hkey, hsame⟩ := List.mem_map.mp hstored
          cases hkept key hkey with
          | inl hstays =>
              rw [← hsame]
              exact mem_hashes hstays
          | inr hgone =>
              obtain ⟨row, hrow, hrowKey, hid⟩ := hgone
              have hawaited := hawaits row hrow hid
              rw [SignInSession.awaits, hphase] at hawaited
              rw [Option.mem_def, ← hsame, ← hrowKey] at hhead
              simp [hhead, ThrottleRow.key] at hawaited
      | locking id =>
          simp only [hphase] at hneeded ⊢
          cases hneeded with
          | inl hheld => exact .inl hheld
          | inr hstored =>
              obtain ⟨key, hkey, hsame⟩ := List.mem_map.mp hstored
              cases hkept key hkey with
              | inl hstays =>
                  rw [← hsame]
                  exact .inr (mem_ids hstays)
              | inr hgone =>
                  obtain ⟨row, hrow, hrowKey, hid⟩ := hgone
                  have hawaited := hawaits row hrow hid
                  rw [SignInSession.awaits, hphase] at hawaited
                  rw [← hsame, ← hrowKey] at hawaited
                  simp [ThrottleRow.key] at hawaited
      | raised => simp only [hphase] at hneeded
      | _ => trivial

theorem SignInState.AllFound.advance (hall : state.AllFound) (hstate : state.Consistent names)
    (hundisturbed : state.Undisturbed (.advance index))
    (hsession : state.sessions index = some session)
    (hstatement : state.Statement library index session after) : after.AllFound := by
  have hready := (hstate.sound index session hsession).ready
  have hcommit : (state.commit index session [] none).AllFound :=
    hall.commit hstate hsession (fun _ hid => absurd hid List.not_mem_nil)
      (fun _ _ hid => absurd hid List.not_mem_nil)
  cases hstatement with
  | fetch hash rest hphase hpending hafter =>
      rw [hafter]
      exact hall.fetch
  | insert hash rest hphase hpending hafter =>
      exact hall.insert hstate hsession hphase hpending hafter
  | refetch hash rest hphase hpending hafter =>
      rw [hafter]
      exact hall.refetch hstate hsession hphase hpending
  | lock id hphase hafter => exact hall.lock hsession hphase hafter
  | refresh id hphase hafter =>
      rw [SignInSession.Ready, hphase] at hready
      rw [hafter]
      exact hall.refresh hready
  | verify hphase hafter =>
      rw [hafter, SignInState.verify]
      split
      · exact hcommit
      · split
        · exact hall.enter trivial
        · exact hall.enter trivial
  | register row rest hphase hafter =>
      rw [SignInSession.Ready, hphase] at hready
      rw [hafter]
      exact hall.save (mem_ids (hready.2 row List.mem_cons_self)) trivial
  | refuse hphase hafter =>
      rw [hafter]
      exact hcommit
  | delete user hphase hafter =>
      unfold SignInState.delete at hafter
      split at hafter
      · cases hafter
      · obtain rfl := Option.some.inj hafter
        exact hall.enter trivial
  | accept user ids hphase hafter =>
      rw [SignInSession.Ready, hphase] at hready
      rw [hafter]
      exact hall.commit hstate hsession hready.2 (hundisturbed session user ids hsession hphase)

end Deletions

/-- As long as no commit deletes a throttle that another sign-in has fetched and not locked, or
has been refused by, no sign-in raises. -/
theorem no_sign_in_raises {library : LoginLibrary} {state : SignInState} {index : ℕ}
    {session : SignInSession}
    (hreach : ((signInSystem library).guarded SignInState.Undisturbed).Reachable state)
    (hsession : state.sessions index = some session) : session.phase ≠ .raised := by
  have hknown : ∀ reached,
      ((signInSystem library).guarded SignInState.Undisturbed).Reachable reached →
        ∃ names, reached.Consistent names :=
    fun reached hreached => reachable_consistent hreached.of_guarded
  have hall : state.AllFound := by
    apply hreach.invariant_of hknown
    · intro start hstart other found hfound
      rw [hstart.2.2.2 other] at hfound
      cases hfound
    · intro before event after hbefore _ hall hstep
      obtain ⟨names, hconsistent⟩ := hbefore
      have hnext : (signInSystem library).step before event after := hstep.2
      cases event with
      | begin call =>
          rw [show after = before.begin library call from hnext]
          intro other found hfound
          cases enter_cases hfound with
          | inl hown =>
              rw [hown.2]
              exact trivial
          | inr hother => exact hall other found hother.2
      | advance index =>
          obtain ⟨session, hsession, hstatement⟩ := exists_of_advance hnext
          exact hall.advance hconsistent hstep.1 hsession hstatement
      | crash index =>
          rw [show after = before.crash index from hnext.1]
          intro other found hfound
          exact hall other found (sessions_of_crash hfound)
  intro hphase
  have hfound := hall index session hsession
  rw [SignInSession.Found, hphase] at hfound
  exact hfound

/-! ## Undisturbed runs -/

/-- The next statement commits a deletion of a row that another transaction needs next. -/
def SignInState.disturbs (state : SignInState) (index : ℕ) : Bool :=
  (state.sessions index).any fun session =>
    match session.phase with
    | .deleted _ ids => session.held.any fun row =>
        decide (row.id ∈ ids) && state.others index fun other => other.awaits row
    | _ => false

/-- None of the statements of a run is such a commit. -/
def SignInState.quiet (library : LoginLibrary) (state : SignInState) : List SignInEvent → Bool
  | [] => true
  | .advance index :: rest =>
      !state.disturbs index &&
        (state.advance library index).any fun next => next.quiet library rest
  | .begin call :: rest => (state.begin library call).quiet library rest
  | .crash index :: rest => (state.crash index).quiet library rest

theorem SignInState.Consistent.undisturbed {names : ℕ → Text} {state : SignInState} {index : ℕ}
    (hstate : state.Consistent names) (hquiet : state.disturbs index = false) :
    state.Undisturbed (.advance index) := by
  intro session user ids hsession hphase row hrow hdeleted other found hne hfound
  by_contra hawaits
  rw [Bool.not_eq_false] at hawaits
  have hothers : state.others index (fun other => other.awaits row) = true := by
    apply List.any_eq_true.mpr
    refine ⟨other, List.mem_range.mpr (hstate.lt_count hfound), ?_⟩
    rw [hfound, Option.any_some, hawaits, Bool.and_true]
    exact decide_eq_true hne
  have hdisturbs : state.disturbs index = true := by
    rw [SignInState.disturbs, hsession, Option.any_some]
    simp only [hphase]
    apply List.any_eq_true.mpr
    refine ⟨row, hrow, ?_⟩
    rw [hothers, Bool.and_true]
    exact decide_eq_true hdeleted
  rw [hquiet] at hdisturbs
  cases hdisturbs

theorem reachable_of_quiet {library : LoginLibrary} {events : List SignInEvent}
    {state last : SignInState}
    (hreach : ((signInSystem library).guarded SignInState.Undisturbed).Reachable state)
    (hafter : state.after? library events = some last)
    (hquiet : state.quiet library events = true) :
    ((signInSystem library).guarded SignInState.Undisturbed).Reachable last := by
  induction events generalizing state with
  | nil =>
      rw [SignInState.after?, Option.some.injEq] at hafter
      rwa [← hafter]
  | cons event rest ih =>
      cases SignInState.path_of_after? hafter with
      | cons hstep _ =>
          cases event with
          | begin call =>
              have hnext : ((signInSystem library).guarded SignInState.Undisturbed).step state
                  (.begin call) (state.begin library call) := ⟨trivial, rfl⟩
              exact ih (hreach.step hnext) hafter hquiet
          | advance index =>
              obtain ⟨names, hstate⟩ := reachable_consistent hreach.of_guarded
              rw [SignInState.quiet, Bool.and_eq_true, Bool.not_eq_true'] at hquiet
              obtain ⟨next, hnext, hrest⟩ := Option.bind_eq_some_iff.mp hafter
              rw [hnext, Option.any_some] at hquiet
              exact ih (hreach.step ⟨hstate.undisturbed hquiet.1, hnext⟩) hrest hquiet.2
          | crash index =>
              have hnext : ((signInSystem library).guarded SignInState.Undisturbed).step state
                  (.crash index) (state.crash index) := ⟨trivial, rfl, hstep.2⟩
              rw [SignInState.after?] at hafter
              split at hafter
              · exact ih (hreach.step hnext) hafter hquiet
              · cases hafter

/-- The user that a sign-in returns. -/
def SignInPhase.user? : SignInPhase → Option User
  | .returned user => user
  | _ => none

theorem SignInPhase.eq_returned {phase : SignInPhase} {user : User}
    (huser : phase.user? = some user) : phase = .returned (some user) := by
  unfold SignInPhase.user? at huser
  split at huser
  · rw [huser]
  · cases huser

/-- The first of two sign-ins at once deletes the row of its account and succeeds while the
second waits for that row, and the second is refused without raising. -/
theorem contending_sign_ins_not_raised :
    ∃ (state : SignInState) (first second : SignInSession) (user : User),
      sampleSignIns.after? sampleLogin
          (contendingSignIns ++ contendingStatements.map .advance) = some state ∧
        state.sessions 0 = some first ∧ first.phase = .returned (some user) ∧
          state.sessions 1 = some second ∧ second.phase ≠ .raised := by
  have hends : (sampleSignIns.after? sampleLogin
      (contendingSignIns ++ contendingStatements.map .advance)).isSome = true := by
    decide +kernel
  obtain ⟨state, hafter⟩ := Option.isSome_iff_exists.mp hends
  have hquiet : sampleSignIns.quiet sampleLogin
      (contendingSignIns ++ contendingStatements.map .advance) = true := by
    decide +kernel
  have hstart : ((signInSystem sampleLogin).guarded SignInState.Undisturbed).Reachable
      sampleSignIns := .initial sampleSignIns_initial
  have hreach := reachable_of_quiet hstart hafter hquiet
  have hphases : (sampleSignIns.after? sampleLogin
      (contendingSignIns ++ contendingStatements.map .advance)).any (fun state =>
        ((state.sessions 0).bind fun session => session.phase.user?).isSome &&
          (state.sessions 1).isSome) = true := by
    decide +kernel
  rw [hafter, Option.any_some, Bool.and_eq_true] at hphases
  obtain ⟨user, huser⟩ := Option.isSome_iff_exists.mp hphases.1
  obtain ⟨first, hfirst, hreturned⟩ := Option.bind_eq_some_iff.mp huser
  obtain ⟨second, hsecond⟩ := Option.isSome_iff_exists.mp hphases.2
  exact ⟨state, first, second, user, hafter, hfirst, SignInPhase.eq_returned hreturned,
    hsecond,
    no_sign_in_raises hreach hsecond⟩

/-- A failure from an address, and then two sign-ins from it at once.  The second has fetched the
row of the address when the first deletes it, and raises. -/
def deletionRace : List SignInEvent :=
  let stranger : LoginCall := { wrongLogin 0 with soeid := "BB00002".toList }
  let owner : LoginCall := { wrongLogin 0 with password := "right".toList }
  [.begin stranger] ++ List.replicate 7 (.advance 0) ++
    [.begin owner, .begin stranger, .advance 2] ++ List.replicate 10 (.advance 1) ++ [.advance 2]

example : ((sampleSignIns.after? sampleLogin deletionRace).bind fun state =>
    (state.sessions 2).map SignInSession.phase) = some .raised := by decide +kernel

end Agora
