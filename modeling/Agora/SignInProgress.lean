import Agora.SignInRaces

/-!
# Sign-ins always finish

A sign-in waits only for one that has the row it wants, and the rows that it has come before
that one.  So the waiting sign-ins form no cycle, and one of the unfinished sign-ins always has
a statement to run.  Each statement lessens the work that is left.
-/

namespace Agora

/-! ## Waiting -/

/-- The next statement of a transaction waits for another transaction. -/
inductive SignInState.WaitsFor (state : SignInState) (index other : ℕ) : Prop
  | insert (session found : SignInSession) (hash : Text) (rest : List Text)
      (hsession : state.sessions index = some session) (hphase : session.phase = .inserting)
      (hpending : session.pending = hash :: rest) (hne : other ≠ index)
      (hfound : state.sessions other = some found) (hholds : state.blocksInsert hash found = true)
  | lock (session found : SignInSession) (id : ℕ)
      (hsession : state.sessions index = some session) (hphase : session.phase = .locking id)
      (hne : other ≠ index) (hfound : state.sessions other = some found)
      (hholds : found.holdsId id = true)
  | delete (session found : SignInSession) (user : User)
      (hsession : state.sessions index = some session) (hphase : session.phase = .deleting user)
      (hne : other ≠ index) (hfound : state.sessions other = some found)
      (hholds : ((state.ownRows session).any fun row => found.holdsId row.id) = true)

/-- The next hash that a transaction has to lock. -/
def SignInState.wanted (state : SignInState) (index : ℕ) : Option Text :=
  (state.sessions index).bind fun session => session.pending.head?

section Waiting

variable {names : ℕ → Text} {state : SignInState} {index other third : ℕ}
  {session found : SignInSession} {hash : Text}

/-- The other transaction holds the row that is waited for, under another identifier than any
row of the waiting one. -/
theorem SignInState.Consistent.waits_holds (hstate : state.Consistent names)
    (hwaits : state.WaitsFor index other) :
    ∃ session found hash rest, state.sessions index = some session ∧
      session.pending = hash :: rest ∧ other ≠ index ∧ state.sessions other = some found ∧
        hash ∈ found.keys.map Prod.snd ∧
          ∀ id, session.phase = .locking id → id ∈ found.keys.map Prod.fst := by
  cases hwaits with
  | insert session found hash rest hsession hphase hpending hne hfound hholds =>
      rw [SignInState.blocksInsert, Bool.and_eq_true] at hholds
      refine ⟨session, found, hash, rest, hsession, hpending, hne, hfound,
        holdsHash_iff.mp hholds.1, ?_⟩
      intro id hlocking
      rw [hphase] at hlocking
      cases hlocking
  | lock session found id hsession hphase hne hfound hholds =>
      have hready := (hstate.sound index session hsession).ready
      rw [SignInSession.Ready, hphase] at hready
      obtain ⟨rest, hpending⟩ := List.head?_eq_some_iff.mp hready.2
      have hid := holdsId_iff.mp hholds
      obtain ⟨key, hkey, hsame⟩ := List.mem_map.mp hid
      refine ⟨session, found, names id, rest, hsession, hpending, hne, hfound, ?_, ?_⟩
      · rw [← hsame, (hstate.sound other found hfound).rows.named key hkey]
        exact mem_hashes hkey
      · intro wanted hlocking
        rw [hphase, SignInPhase.locking.injEq] at hlocking
        rwa [← hlocking]
  | delete session found user hsession hphase hne hfound hholds =>
      have hpending := (hstate.sound index session hsession).ready
      rw [SignInSession.Ready, hphase] at hpending
      obtain ⟨row, hrow, hheld⟩ := List.any_eq_true.mp hholds
      rw [SignInState.ownRows, List.mem_filter, decide_eq_true_eq] at hrow
      have hown := hstate.mem_keys_of_hash hsession (by rw [hphase]; rfl) hpending hrow.1 hrow.2
      obtain ⟨key, hkey, hsame⟩ := List.mem_map.mp (holdsId_iff.mp hheld)
      have hapart := hstate.apart index other session found hne.symm hsession hfound _ hown key hkey
      exact absurd hsame.symm hapart.1

/-- A transaction that is waited for wants a later hash than the one that waits for it. -/
theorem SignInState.Consistent.wanted_lt (hstate : state.Consistent names)
    (hfirst : state.WaitsFor index other) (hsecond : state.WaitsFor other third) :
    ∃ earlier later, state.wanted index = some earlier ∧ state.wanted other = some later ∧
      earlier < later := by
  obtain ⟨session, found, hash, rest, hsession, hpending, hne, hfound, hholds, _⟩ :=
    hstate.waits_holds hfirst
  obtain ⟨again, last, later, further, hagain, hlater, hother, hlast, _, hlocking⟩ :=
    hstate.waits_holds hsecond
  rw [hfound, Option.some.injEq] at hagain
  rw [← hagain] at hlater hlocking
  refine ⟨hash, later, ?_, ?_, ?_⟩
  · rw [SignInState.wanted, hsession, Option.bind_some, hpending, List.head?_cons]
  · rw [SignInState.wanted, hfound, Option.bind_some, hlater, List.head?_cons]
  · obtain ⟨key, hkey, hsame⟩ := List.mem_map.mp hholds
    have hmem : later ∈ found.pending := by
      rw [hlater]
      exact List.mem_cons_self
    cases (hstate.sound other found hfound).below key hkey later hmem with
    | inl hless => rwa [← hsame]
    | inr hown =>
        obtain ⟨lastKey, hlastKey, hid⟩ := List.mem_map.mp (hlocking key.1 hown.2)
        have hapart := hstate.apart other third found last hother.symm hfound hlast key hkey
          lastKey hlastKey
        exact absurd hid.symm hapart.1

theorem SignInState.Consistent.wanted_lt_of_chain (hstate : state.Consistent names)
    (hchain : Relation.TransGen state.WaitsFor index other) (hnext : state.WaitsFor other third) :
    ∃ earlier later, state.wanted index = some earlier ∧ state.wanted other = some later ∧
      earlier < later := by
  induction hchain generalizing third with
  | single hwaits => exact hstate.wanted_lt hwaits hnext
  | tail hrest hwaits ih =>
      obtain ⟨earlier, middle, hearlier, hmiddle, hless⟩ := ih hwaits
      obtain ⟨same, later, hsame, hlater, hnextLess⟩ := hstate.wanted_lt hwaits hnext
      rw [hmiddle, Option.some.injEq] at hsame
      rw [← hsame] at hnextLess
      exact ⟨earlier, later, hearlier, hlater, lt_trans hless hnextLess⟩

theorem SignInState.Consistent.no_cycle (hstate : state.Consistent names) (index : ℕ) :
    ¬ Relation.TransGen state.WaitsFor index index := by
  intro hcycle
  obtain ⟨other, hwaits, _⟩ := Relation.TransGen.head'_iff.mp hcycle
  obtain ⟨earlier, later, hearlier, hlater, hless⟩ := hstate.wanted_lt_of_chain hcycle hwaits
  rw [hearlier, Option.some.injEq] at hlater
  rw [hlater] at hless
  exact lt_irrefl later hless

end Waiting

/-! ## Progress -/

def SignInState.Unfinished (state : SignInState) (index : ℕ) : Prop :=
  ∃ session, state.sessions index = some session ∧ session.phase.ended = false

section Progress

variable {library : LoginLibrary} {names : ℕ → Text} {state : SignInState} {index : ℕ}
  {session : SignInSession}

theorem SignInSession.Sound.open_of_held {stored : List (ℕ × Text)} {nextId : ℕ}
    (hsound : session.Sound names stored nextId) {key : ℕ × Text} (hkey : key ∈ session.keys) :
    session.phase.ended = false := by
  have hready := hsound.ready
  unfold SignInSession.Ready at hready
  cases hphase : session.phase with
  | returned user =>
      simp only [hphase] at hready
      rw [hready] at hkey
      cases hkey
  | raised =>
      simp only [hphase] at hready
      rw [hready] at hkey
      cases hkey
  | _ => rfl

/-- Whoever is waited for is unfinished. -/
theorem SignInState.Consistent.unfinished_of_waits (hstate : state.Consistent names) {other : ℕ}
    (hwaits : state.WaitsFor index other) : state.Unfinished other := by
  obtain ⟨session, found, hash, rest, _, _, _, hfound, hholds, _⟩ := hstate.waits_holds hwaits
  obtain ⟨key, hkey, _⟩ := List.mem_map.mp hholds
  exact ⟨found, hfound, (hstate.sound other found hfound).open_of_held hkey⟩

theorem exists_of_others {condition : SignInSession → Bool}
    (hothers : state.others index condition = true) :
    ∃ other found, other ≠ index ∧ state.sessions other = some found ∧ condition found = true := by
  obtain ⟨other, _, hboth⟩ := List.any_eq_true.mp hothers
  rw [Bool.and_eq_true, decide_eq_true_eq] at hboth
  obtain ⟨found, hfound, hcondition⟩ := (Option.any_eq_true _ _).mp hboth.2
  exact ⟨other, found, hboth.1, hfound, hcondition⟩

/-- An unfinished transaction runs a statement or waits. -/
theorem SignInState.Consistent.advances_or_waits (hstate : state.Consistent names)
    (hunfinished : state.Unfinished index) :
    (∃ after, state.advance library index = some after) ∨ ∃ other, state.WaitsFor index other := by
  obtain ⟨session, hsession, hopen⟩ := hunfinished
  have hready := (hstate.sound index session hsession).ready
  unfold SignInSession.Ready at hready
  rw [SignInState.advance, hsession, Option.bind_eq_bind, Option.bind_some]
  cases hphase : session.phase with
  | fetching =>
      simp only [hphase] at hready
      obtain ⟨hash, rest, hpending⟩ := List.exists_cons_of_ne_nil hready
      rw [hpending]
      exact .inl ⟨_, rfl⟩
  | inserting =>
      simp only [hphase] at hready
      obtain ⟨hash, rest, hpending⟩ := List.exists_cons_of_ne_nil hready
      rw [hpending]
      by_cases hothers : state.others index (state.blocksInsert hash) = true
      · obtain ⟨other, found, hne, hfound, hholds⟩ := exists_of_others hothers
        exact .inr ⟨other,
          .insert session found hash rest hsession hphase hpending hne hfound hholds⟩
      · left
        simp only [SignInState.insert, if_neg hothers]
        split
        · exact ⟨_, rfl⟩
        · exact ⟨_, rfl⟩
  | refetching =>
      simp only [hphase] at hready
      obtain ⟨hash, rest, hpending⟩ := List.exists_cons_of_ne_nil hready
      rw [hpending]
      exact .inl ⟨_, rfl⟩
  | locking id =>
      by_cases hothers : state.others index (fun other => other.holdsId id) = true
      · obtain ⟨other, found, hne, hfound, hholds⟩ := exists_of_others hothers
        exact .inr ⟨other, .lock session found id hsession hphase hne hfound hholds⟩
      · left
        simp only [SignInState.lock, if_neg hothers]
        split
        · exact ⟨_, rfl⟩
        · exact ⟨_, rfl⟩
  | refreshing id => exact .inl ⟨_, rfl⟩
  | verifying => exact .inl ⟨_, rfl⟩
  | registering rows =>
      cases rows with
      | nil => exact .inl ⟨_, rfl⟩
      | cons row rest => exact .inl ⟨_, rfl⟩
  | deleting user =>
      by_cases hothers : state.others index (fun other =>
          (state.ownRows session).any fun row => other.holdsId row.id) = true
      · obtain ⟨other, found, hne, hfound, hholds⟩ := exists_of_others hothers
        exact .inr ⟨other, .delete session found user hsession hphase hne hfound hholds⟩
      · left
        simp only [SignInState.delete, if_neg hothers]
        exact ⟨_, rfl⟩
  | deleted user ids => exact .inl ⟨_, rfl⟩
  | returned user =>
      rw [hphase] at hopen
      cases hopen
  | raised =>
      rw [hphase] at hopen
      cases hopen

/-- Where one transaction is unfinished, some transaction runs a statement. -/
theorem SignInState.Consistent.exists_advance (hstate : state.Consistent names)
    (hunfinished : state.Unfinished index) :
    ∃ other after, state.advance library other = some after := by
  have hwell : WellFounded fun first second : Fin state.count =>
      Relation.TransGen state.WaitsFor second first := by
    have htrans : IsTrans (Fin state.count) fun first second =>
        Relation.TransGen state.WaitsFor second first :=
      ⟨fun _ _ _ hfirst hsecond => hsecond.trans hfirst⟩
    have hirrefl : Std.Irrefl fun first second : Fin state.count =>
        Relation.TransGen state.WaitsFor second first :=
      ⟨fun first => hstate.no_cycle first⟩
    exact Finite.wellFounded_of_trans_of_irrefl _
  have hbelow : ∀ other, state.Unfinished other → other < state.count := by
    intro other hother
    obtain ⟨found, hfound, _⟩ := hother
    exact hstate.lt_count hfound
  obtain ⟨last, hlast, hmin⟩ := hwell.has_min {other | state.Unfinished other}
    ⟨⟨index, hbelow index hunfinished⟩, hunfinished⟩
  have hnext : (∃ after, state.advance library last = some after) ∨
      ∃ other, state.WaitsFor last other := hstate.advances_or_waits hlast
  cases hnext with
  | inl hadvances =>
      obtain ⟨after, hafter⟩ := hadvances
      exact ⟨last, after, hafter⟩
  | inr hwaits =>
      obtain ⟨other, hother⟩ := hwaits
      have hopen := hstate.unfinished_of_waits hother
      exact absurd (.single hother) (hmin ⟨other, hbelow other hopen⟩ hopen)

end Progress

/-! ## The work that is left -/

/-- A bound on the statements of a transaction. -/
def SignInSession.work (session : SignInSession) : ℕ :=
  match session.phase with
  | .fetching => 6 * session.pending.length + session.held.length + 7
  | .inserting => 6 * session.pending.length + session.held.length + 6
  | .refetching => 6 * session.pending.length + session.held.length + 5
  | .locking _ => 6 * session.pending.length + session.held.length + 4
  | .refreshing _ => 6 * session.pending.length + session.held.length + 8
  | .verifying => session.held.length + 3
  | .registering rows => rows.length + 1
  | .deleting _ => 2
  | .deleted _ _ => 1
  | .returned _ => 0
  | .raised => 0

def SignInState.work (state : SignInState) : ℕ :=
  ∑ index ∈ Finset.range state.count, ((state.sessions index).map SignInSession.work).getD 0

section Work

variable {library : LoginLibrary} {names : ℕ → Text} {state after : SignInState} {index : ℕ}
  {session next : SignInSession}

/-- A statement that leaves its transaction in a state of less work. -/
def SignInState.Lessens (state : SignInState) (index : ℕ) (session : SignInSession)
    (after : SignInState) : Prop :=
  ∃ next : SignInSession, next.work < session.work ∧ after.count = state.count ∧
    after.sessions = Function.update state.sessions index (some next)

theorem lessens_enter (hless : next.work < session.work) :
    state.Lessens index session (state.enter index next) :=
  ⟨next, hless, rfl, rfl⟩

theorem lessens_close {phase : SignInPhase} (hended : phase.ended = true)
    (hopen : 0 < session.work) : state.Lessens index session (state.close index session phase) := by
  apply lessens_enter
  cases phase with
  | returned user => exact hopen
  | raised => exact hopen
  | _ => cases hended

theorem lessens_commit {deleted : List ℕ} {user : Option User} (hopen : 0 < session.work) :
    state.Lessens index session (state.commit index session deleted user) :=
  ⟨{ session with pending := [], held := [], phase := .returned user }, hopen, rfl, rfl⟩

theorem lessens_save {row : ThrottleRow} {phase : SignInPhase} (hopen : 0 < session.work)
    (hless : SignInSession.work { session with held := session.saved row, phase := phase } <
      session.work) :
    state.Lessens index session (state.save index session row phase) := by
  unfold SignInState.save
  split
  · exact lessens_enter hless
  · exact lessens_close rfl hopen

theorem length_saved {row : ThrottleRow} : (session.saved row).length = session.held.length :=
  List.length_map _

theorem lessens_insert {hash : Text} (hphase : session.phase = .inserting)
    (hafter : state.insert index session hash = some after) :
    state.Lessens index session after := by
  have hwork : session.work = 6 * session.pending.length + session.held.length + 6 := by
    rw [SignInSession.work, hphase]
  unfold SignInState.insert at hafter
  split at hafter
  · cases hafter
  · split at hafter
    · obtain rfl := Option.some.inj hafter
      apply lessens_enter
      rw [hwork]
      simp [SignInSession.work]
    · obtain rfl := Option.some.inj hafter
      refine ⟨_, ?_, rfl, rfl⟩
      rw [hwork]
      simp only [SignInSession.work, List.length_append, List.length_singleton]
      omega

theorem lessens_lock {id : ℕ} (hphase : session.phase = .locking id)
    (hpending : session.pending ≠ []) (hafter : state.lock index session id = some after) :
    state.Lessens index session after := by
  have hwork : session.work = 6 * session.pending.length + session.held.length + 4 := by
    rw [SignInSession.work, hphase]
  have hlength := List.length_pos_of_ne_nil hpending
  unfold SignInState.lock at hafter
  split at hafter
  · cases hafter
  · split at hafter
    · obtain rfl := Option.some.inj hafter
      exact lessens_close rfl (by omega)
    · obtain rfl := Option.some.inj hafter
      apply lessens_enter
      rw [hwork]
      simp only [SignInSession.work, List.length_tail]
      split
      · omega
      · rw [List.length_append, List.length_singleton]
        omega

theorem lessens_refresh {id : ℕ} (hphase : session.phase = .refreshing id) :
    state.Lessens index session (state.refresh index session id) := by
  have hwork : session.work = 6 * session.pending.length + session.held.length + 8 := by
    rw [SignInSession.work, hphase]
  have hopen : 0 < session.work := by omega
  have hnext : ∀ held : List ThrottleRow, held.length = session.held.length →
      SignInSession.work { session with held := held, phase := session.looped } < session.work := by
    intro held hlength
    rw [hwork]
    by_cases hpending : session.pending = []
    · simp only [SignInSession.looped, if_pos hpending, SignInSession.work, hlength]
      omega
    · simp only [SignInSession.looped, if_neg hpending, SignInSession.work, hlength]
      omega
  unfold SignInState.refresh
  split
  · exact lessens_close rfl hopen
  · split
    · exact lessens_enter (hnext session.held rfl)
    · exact lessens_save hopen (hnext _ length_saved)

theorem lessens_verify (hphase : session.phase = .verifying) :
    state.Lessens index session (state.verify library index session) := by
  have hwork : session.work = session.held.length + 3 := by
    rw [SignInSession.work, hphase]
  unfold SignInState.verify
  split
  · exact lessens_commit (by omega)
  · split
    · apply lessens_enter
      rw [hwork]
      simp only [SignInSession.work]
      omega
    · apply lessens_enter
      rw [hwork]
      simp only [SignInSession.work]
      omega

/-- A query by hash, before the insertion or after its refusal. -/
theorem lessens_found
    (hwork : 6 * session.pending.length + session.held.length + 5 ≤ session.work) (id : ℕ) :
    state.Lessens index session (state.enter index { session with phase := .locking id }) := by
  have hlocking : SignInSession.work { session with phase := .locking id } =
      6 * session.pending.length + session.held.length + 4 := rfl
  apply lessens_enter
  rw [hlocking]
  omega

theorem SignInState.Consistent.lessens (hstate : state.Consistent names)
    (hsession : state.sessions index = some session)
    (hstatement : state.Statement library index session after) :
    state.Lessens index session after := by
  have hready := (hstate.sound index session hsession).ready
  cases hstatement with
  | fetch hash rest hphase hpending hafter =>
      have hwork : session.work = 6 * session.pending.length + session.held.length + 7 := by
        rw [SignInSession.work, hphase]
      rw [hafter, SignInState.fetch]
      split
      · exact lessens_found (by omega) _
      · apply lessens_enter
        rw [hwork]
        simp only [SignInSession.work]
        omega
  | insert hash rest hphase hpending hafter => exact lessens_insert hphase hafter
  | refetch hash rest hphase hpending hafter =>
      have hwork : session.work = 6 * session.pending.length + session.held.length + 5 := by
        rw [SignInSession.work, hphase]
      rw [hafter, SignInState.refetch]
      split
      · exact lessens_found (by omega) _
      · exact lessens_close rfl (by omega)
  | lock id hphase hafter =>
      rw [SignInSession.Ready, hphase] at hready
      apply lessens_lock hphase _ hafter
      intro hnil
      rw [hnil] at hready
      cases hready.2
  | refresh id hphase hafter =>
      rw [hafter]
      exact lessens_refresh hphase
  | verify hphase hafter =>
      rw [hafter]
      exact lessens_verify hphase
  | register row rest hphase hafter =>
      have hwork : session.work = rest.length + 2 := by
        rw [SignInSession.work, hphase]
        rfl
      rw [hafter]
      apply lessens_save (by omega)
      rw [hwork]
      simp only [SignInSession.work]
      omega
  | refuse hphase hafter =>
      have hwork : session.work = 1 := by rw [SignInSession.work, hphase]; rfl
      rw [hafter]
      exact lessens_commit (by omega)
  | delete user hphase hafter =>
      have hwork : session.work = 2 := by rw [SignInSession.work, hphase]
      unfold SignInState.delete at hafter
      split at hafter
      · cases hafter
      · obtain rfl := Option.some.inj hafter
        apply lessens_enter
        rw [hwork]
        simp only [SignInSession.work]
        omega
  | accept user ids hphase hafter =>
      have hwork : session.work = 1 := by rw [SignInSession.work, hphase]
      rw [hafter]
      exact lessens_commit (by omega)

/-- One statement lessens the work of all transactions together. -/
theorem SignInState.Consistent.work_advance (hstate : state.Consistent names)
    (hadvance : state.advance library index = some after) : after.work < state.work := by
  obtain ⟨session, hsession, hstatement⟩ := exists_of_advance hadvance
  obtain ⟨next, hless, hcount, hsessions⟩ := hstate.lessens hsession hstatement
  have hindex := hstate.lt_count hsession
  rw [SignInState.work, SignInState.work, hcount, hsessions]
  apply Finset.sum_lt_sum
  · intro other _
    by_cases hsame : other = index
    · rw [hsame, Function.update_self, hsession]
      exact Nat.le_of_lt hless
    · rw [Function.update_of_ne hsame]
  · refine ⟨index, Finset.mem_range.mpr hindex, ?_⟩
    rw [Function.update_self, hsession]
    exact hless

theorem length_le_work {indices : List ℕ} (hreach : (signInSystem library).Reachable state)
    (hpath : (signInSystem library).Path state (indices.map .advance) after) :
    indices.length ≤ state.work := by
  induction indices generalizing state with
  | nil => exact Nat.zero_le _
  | cons index rest ih =>
      cases hpath with
      | cons hstep hrest =>
          obtain ⟨names, hstate⟩ := reachable_consistent hreach
          have hless := hstate.work_advance hstep
          have hlength := ih (hreach.step hstep) hrest
          rw [List.length_cons]
          omega

end Work

/-- In every state that sign-ins reach, none of them waits in a cycle, their statements are
bounded by the work that is left, and they run on until every sign-in has ended. -/
theorem sign_ins_finish {library : LoginLibrary} {state : SignInState}
    (hreach : (signInSystem library).Reachable state) :
    (∀ index, ¬ Relation.TransGen state.WaitsFor index index) ∧
      ∀ (indices : List ℕ) (after : SignInState),
        (signInSystem library).Path state (indices.map .advance) after →
          indices.length ≤ state.work ∧
            ((∀ index, after.advance library index = none) →
              ∀ index, ¬ after.Unfinished index) := by
  obtain ⟨names, hstate⟩ := reachable_consistent hreach
  refine ⟨hstate.no_cycle, fun indices after hpath => ⟨length_le_work hreach hpath, ?_⟩⟩
  intro hstuck index hunfinished
  obtain ⟨issued, hafter⟩ := reachable_consistent (hreach.path hpath)
  have hnext : ∃ other following, after.advance library other = some following :=
    hafter.exists_advance hunfinished
  obtain ⟨other, following, hadvance⟩ := hnext
  rw [hstuck other] at hadvance
  cases hadvance

/-- No transaction below the count runs a statement. -/
def SignInState.idle (library : LoginLibrary) (state : SignInState) : Bool :=
  (List.range state.count).all fun index => (state.advance library index).isNone

theorem SignInState.Consistent.advance_eq_none {library : LoginLibrary} {names : ℕ → Text}
    {state : SignInState} (hstate : state.Consistent names) (hidle : state.idle library = true)
    (index : ℕ) : state.advance library index = none := by
  by_cases hcount : index < state.count
  · exact Option.isNone_iff_eq_none.mp (List.all_eq_true.mp hidle index (List.mem_range.mpr hcount))
  · cases hsession : state.sessions index with
    | none => rw [SignInState.advance, hsession, Option.bind_eq_bind, Option.bind_none]
    | some session => exact absurd (hstate.lt_count hsession) hcount

/-- The second sign-in waits for the first, no sign-in waits in a cycle, and ten statements end
both of them. -/
theorem contending_sign_ins_finish :
    ∃ state after : SignInState,
      sampleSignIns.after? sampleLogin contendingSignIns = some state ∧
        (state.Unfinished 0 ∧ ∃ other, state.WaitsFor 1 other) ∧
        (∀ index, ¬ Relation.TransGen state.WaitsFor index index) ∧
          (signInSystem sampleLogin).Path state (contendingStatements.map .advance) after ∧
            contendingStatements.length ≤ state.work ∧ ∀ index, ¬ after.Unfinished index := by
  have hstarts : (sampleSignIns.after? sampleLogin contendingSignIns).isSome = true := by
    decide +kernel
  obtain ⟨state, hstate⟩ := Option.isSome_iff_exists.mp hstarts
  have hends : ((sampleSignIns.after? sampleLogin contendingSignIns).bind fun state =>
      state.after? sampleLogin (contendingStatements.map .advance)).isSome = true := by
    decide +kernel
  rw [hstate, Option.bind_some] at hends
  obtain ⟨after, hafter⟩ := Option.isSome_iff_exists.mp hends
  have hreach : (signInSystem sampleLogin).Reachable state :=
    (TransitionSystem.Reachable.initial sampleSignIns_initial).path
      (SignInState.path_of_after? hstate)
  have hpath := SignInState.path_of_after? hafter
  have hfinish := sign_ins_finish hreach
  have hopen : ∀ index < 2, state.Unfinished index := by
    intro index hindex
    have hphases : ∀ index < 2, ((sampleSignIns.after? sampleLogin contendingSignIns).bind
        fun state => (state.sessions index).map fun session => session.phase.ended) =
          some false := by
      decide +kernel
    have hphase := hphases index hindex
    rw [hstate, Option.bind_some] at hphase
    exact Option.map_eq_some_iff.mp hphase
  have hwaits : ∃ other, state.WaitsFor 1 other := by
    obtain ⟨names, hconsistent⟩ := reachable_consistent hreach
    have hnone : ((sampleSignIns.after? sampleLogin contendingSignIns).map fun state =>
        (state.advance sampleLogin 1).isNone) = some true := by
      decide +kernel
    rw [hstate, Option.map_some, Option.some.injEq, Option.isNone_iff_eq_none] at hnone
    have hnext : (∃ next, state.advance sampleLogin 1 = some next) ∨
        ∃ other, state.WaitsFor 1 other := hconsistent.advances_or_waits (hopen 1 (by decide))
    rw [hnone] at hnext
    exact hnext.resolve_left fun hadvances => nomatch hadvances
  have hstuck : ∀ index, after.advance sampleLogin index = none := by
    obtain ⟨names, hconsistent⟩ := reachable_consistent (hreach.path hpath)
    have hidle : ((sampleSignIns.after? sampleLogin contendingSignIns).bind fun state =>
        (state.after? sampleLogin (contendingStatements.map .advance)).map
          (SignInState.idle sampleLogin)) = some true := by
      decide +kernel
    rw [hstate, Option.bind_some, hafter, Option.map_some, Option.some.injEq] at hidle
    exact hconsistent.advance_eq_none hidle
  have hbound := hfinish.2 contendingStatements after hpath
  exact ⟨state, after, hstate, ⟨hopen 0 (by decide), hwaits⟩, hfinish.1, hpath, hbound.1,
    hbound.2 hstuck⟩

end Agora
