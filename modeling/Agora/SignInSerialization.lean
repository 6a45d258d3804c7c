import Agora.SignInRaces

/-!
# Interleaved sign-ins are a sequence of sign-ins

The rows of a sign-in are what the attempt makes of the committed buckets at every moment until
its commit, since no other sign-in changes a bucket that it has locked.  So each commit does what
the whole attempt would do at that moment, and the order of the commits is a sequence of
attempts with the same results.
-/

namespace Agora

open Throttle (Bucket Visit)

/-! ## The attempt in one step -/

section Attempts

variable {library : LoginLibrary} {before after : LoginState} {call : LoginCall} {now : Time}
  {hash : Text}

theorem createThrottle_events {row created : LoginThrottle}
    (hruns : (createThrottle row).Runs before created after) : after.events = before.events := by
  simp only [createThrottle, Transaction.runs_bind, Transaction.runs_get, Transaction.runs_found,
    Transaction.runs_set, Transaction.runs_pure] at hruns
  obtain ⟨_, _, ⟨hfirst, hsame⟩, _, _, ⟨_, hnext⟩, _, _, hset, _, hlast⟩ := hruns
  rw [← hlast, ← hset, ← hfirst]

theorem saveThrottle_events {row saved : LoginThrottle}
    (hruns : (saveThrottle row).Runs before saved after) : after.events = before.events := by
  simp only [saveThrottle, Transaction.runs_bind, Transaction.runs_get, Transaction.runs_set,
    Transaction.runs_pure] at hruns
  obtain ⟨_, _, ⟨hfirst, _⟩, _, _, hset, _, hlast⟩ := hruns
  rw [← hlast, ← hset, ← hfirst]

theorem refreshThrottle_events {row refreshed : LoginThrottle}
    (hruns : (refreshThrottle now row).Runs before refreshed after) :
    after.events = before.events := by
  simp only [refreshThrottle, Transaction.runs_ite, Transaction.runs_pure] at hruns
  cases hruns with
  | inl hexpired => exact saveThrottle_events hexpired.2
  | inr hcurrent =>
      cases hcurrent.2 with
      | inl hpassed => exact saveThrottle_events hpassed.2
      | inr hsame => rw [hsame.2.2]

theorem getOrCreateThrottle_events {stored : Option LoginThrottle} {row : LoginThrottle}
    (hruns : (getOrCreateThrottle hash now stored).Runs before row after) :
    after.events = before.events := by
  cases stored with
  | none => exact createThrottle_events hruns
  | some bucket =>
      rw [getOrCreateThrottle, Transaction.runs_pure] at hruns
      rw [hruns.2]

theorem lockThrottleBuckets_events {hashes : List Text} {buckets : List LoginThrottle}
    (hruns : (lockThrottleBuckets now hashes).Runs before buckets after) :
    after.events = before.events := by
  induction hashes generalizing before buckets with
  | nil =>
      rw [lockThrottleBuckets, Transaction.runs_pure] at hruns
      rw [hruns.2]
  | cons hash rest ih =>
      simp only [lockThrottleBuckets, Transaction.runs_bind, Transaction.runs_get,
        Transaction.runs_pure] at hruns
      obtain ⟨_, _, ⟨_, hstart⟩, _, _, hcreate, _, _, hrefresh, _, _, hrest, _, hlast⟩ := hruns
      rw [hlast] at hrest
      rw [ih hrest, refreshThrottle_events hrefresh, getOrCreateThrottle_events hcreate,
        ← hstart]

theorem registerFailure_events {buckets : List LoginThrottle}
    (hruns : (registerFailure buckets now).Runs before ⟨⟩ after) :
    after.events = before.events := by
  induction buckets generalizing before with
  | nil =>
      rw [registerFailure, Transaction.runs_forEach_nil] at hruns
      rw [hruns]
  | cons row rest ih =>
      simp only [registerFailure, Transaction.runs_forEach_cons, Transaction.runs_bind,
        Transaction.runs_pure] at hruns
      obtain ⟨_, ⟨_, _, hsave, _, hsame⟩, hrest⟩ := hruns
      rw [ih hrest, ← hsame, saveThrottle_events hsave]

/-- The event of a successful attempt. -/
def eventsAfter (events : List IdentityEvent) : Option User → List IdentityEvent
  | none => events
  | some user => ⟨"auth.login.succeeded", some user.id, none⟩ :: events

/-- A bucket refuses an attempt. -/
def LoginState.Refuses (library : LoginLibrary) (state : LoginState) (call : LoginCall) : Prop :=
  ∃ hash ∈ state.bucketHashes library call,
    (Visit.finds loginLimits ⟨call.now, true⟩ (state.bucketAt hash)).Closed call.now

/-- Which way an attempt goes. -/
structure AttemptDecides (library : LoginLibrary) (before : LoginState) (call : LoginCall)
    (outcome : LoginOutcome) (after : LoginState) : Prop where
  blocked : before.Refuses library call → outcome = .blocked
  verified : ¬ before.Refuses library call → outcome ≠ .blocked ∧
    outcome.user? = before.verified library call
  events : after.events = eventsAfter before.events outcome.user?

theorem attemptLogin_decides {outcome : LoginOutcome}
    (hruns : (attemptLogin library call).Runs before outcome after) :
    AttemptDecides library before call outcome after := by
  obtain ⟨buckets, middle, hlock, husers, hkeys, hlocked, _⟩ :=
    @lockThrottleBuckets_writes before call.now _
      (@nodup_sortedSet (before.bucketHashes library call))
  have hrefuses : before.Refuses library call ↔ ∃ bucket ∈ buckets, bucket.Blocked call.now := by
    constructor
    · intro hrefuses
      obtain ⟨hash, hmem, hclosed⟩ := hrefuses
      rw [← mem_sortedSet, ← hkeys] at hmem
      obtain ⟨row, hrow, hhash⟩ := List.mem_map.mp hmem
      rw [← hhash, ← (hlocked row hrow).2 true] at hclosed
      exact ⟨row, hrow, hclosed⟩
    · intro hblocked
      obtain ⟨row, hrow, hblocked⟩ := hblocked
      refine ⟨row.bucketHash, ?_, ?_⟩
      · rw [← mem_sortedSet, ← hkeys]
        exact List.mem_map_of_mem hrow
      · rw [← (hlocked row hrow).2 true]
        exact hblocked
  have hevents := lockThrottleBuckets_events hlock
  unfold Transaction.Runs at hruns
  rw [attemptLogin, Transaction.bind_get, Transaction.bind_of_runs hlock] at hruns
  by_cases hblocked : ∃ bucket ∈ buckets, bucket.Blocked call.now
  · rw [if_pos hblocked] at hruns
    have hsame := Transaction.runs_pure.mp hruns
    rw [← hsame.1, ← hsame.2]
    exact ⟨fun _ => rfl, fun hopen => absurd (hrefuses.mpr hblocked) hopen, hevents⟩
  · rw [if_neg hblocked] at hruns
    have hopen : ¬ before.Refuses library call := fun hrefused => hblocked (hrefuses.mp hrefused)
    cases hverified : before.verified library call with
    | none =>
        rw [hverified] at hruns
        have hconclude := Transaction.runs_bind.mp hruns
        obtain ⟨_, last, hregister, hpure⟩ := hconclude
        have hsame := Transaction.runs_pure.mp hpure
        rw [← hsame.1, ← hsame.2]
        refine ⟨fun hrefused => absurd hrefused hopen, fun _ => ⟨by simp, hverified.symm⟩, ?_⟩
        rw [registerFailure_events hregister, hevents]
        rfl
    | some user =>
        rw [hverified] at hruns
        have hconclude : (concludeLogin (before.bucketHashes library call) buckets call.now
            (some user)).Runs middle outcome after := hruns
        simp only [concludeLogin, Transaction.runs_bind, Transaction.runs_get, Transaction.runs_set,
          Transaction.runs_pure] at hconclude
        obtain ⟨_, _, ⟨hfirst, _⟩, _, _, hset, houtcome, hlast⟩ := hconclude
        rw [← houtcome, ← hlast, ← hset]
        refine ⟨fun hrefused => absurd hrefused hopen, fun _ => ⟨by simp, hverified.symm⟩, ?_⟩
        rw [← hfirst, hevents]
        rfl

end Attempts

/-! ## What a transaction has made of the committed buckets -/

/-- The committed bucket of a hash. -/
def SignInState.bucketAt (state : SignInState) (hash : Text) : Option Bucket :=
  (state.committed.find? fun row => row.hash = hash).map fun row => row.bucket.bucket

/-- The bucket as the attempt finds it, in a new window or after a lockout that has passed. -/
def SignInSession.finds (session : SignInSession) (stored : Option Bucket) : Bucket :=
  Visit.finds loginLimits ⟨session.call.now, true⟩ stored

/-- What a row of the transaction has of the committed bucket. -/
def SignInSession.value (session : SignInSession) (stored : Option Bucket) (row : ThrottleRow) :
    Bucket :=
  match session.phase with
  | .locking id | .refreshing id =>
      if row.id = id then stored.getD (.opened session.call.now) else session.finds stored
  | .registering rows =>
      if row.id ∈ rows.map ThrottleRow.id then session.finds stored
      else (session.finds stored).register loginLimits session.call.now
  | _ => session.finds stored

/-- No bucket of the attempt refuses it. -/
def SignInSession.Permitted (stored : Text → Option Bucket) (session : SignInSession) : Prop :=
  ∀ hash ∈ session.hashes, ¬ (session.finds (stored hash)).Closed session.call.now

/-- What the verification has decided. -/
def SignInSession.Decided (library : LoginLibrary) (users : Table User)
    (stored : Text → Option Bucket) (session : SignInSession) : Prop :=
  match session.phase with
  | .registering rows => session.Permitted stored ∧ library.verified users session.call = none ∧
      (∀ row ∈ rows, row ∈ session.held) ∧ (rows.map ThrottleRow.id).Nodup
  | .deleting user => session.Permitted stored ∧ library.verified users session.call = some user
  | .deleted user ids => session.Permitted stored ∧
      library.verified users session.call = some user ∧
        ∀ id ∈ session.keys.map Prod.fst, id ∈ ids
  | _ => True

structure SignInSession.Faithful (library : LoginLibrary) (users : Table User)
    (stored : Text → Option Bucket) (session : SignInSession) : Prop where
  named : session.hashes = sortedSet (library.bucketHashes users session.call)
  values : ∀ row ∈ session.held, row.bucket.bucket = session.value (stored row.hash) row
  decided : session.Decided library users stored

section Values

variable {library : LoginLibrary} {names : ℕ → Text} {state after : SignInState} {index : ℕ}
  {session : SignInSession} {hash : Text} {rest : List Text} {id : ℕ} {row : ThrottleRow}
  {stored changed : Text → Option Bucket} {users : Table User} {nextId : ℕ}
  {keys : List (ℕ × Text)}

/-- The values of a transaction depend on the buckets that it holds alone. -/
theorem SignInSession.Faithful.congr (hfaithful : session.Faithful library users stored)
    (hsound : session.Sound names keys nextId)
    (hsame : ∀ hash ∈ session.keys.map Prod.snd, changed hash = stored hash) :
    session.Faithful library users changed := by
  have hpermitted : session.phase.ended = false → session.pending = [] →
      session.Permitted stored → session.Permitted changed := by
    intro hopen hpending hpermitted hash hhash
    have hcovered := (hsound.covered hopen hash).mp hhash
    rw [hpending] at hcovered
    rw [hsame hash (hcovered.resolve_left List.not_mem_nil)]
    exact hpermitted hash hhash
  have hready := hsound.ready
  have hdecided := hfaithful.decided
  refine ⟨hfaithful.named, ?_, ?_⟩
  · intro row hrow
    have hheld : row.hash ∈ session.keys.map Prod.snd := by
      rw [keys_map_snd]
      exact List.mem_map_of_mem hrow
    rw [hsame row.hash hheld]
    exact hfaithful.values row hrow
  · unfold SignInSession.Decided SignInSession.Ready at *
    cases hphase : session.phase with
    | registering rows =>
        simp only [hphase] at hready hdecided ⊢
        exact ⟨hpermitted (by rw [hphase]; rfl) hready.1 hdecided.1, hdecided.2⟩
    | deleting user =>
        simp only [hphase] at hready hdecided ⊢
        exact ⟨hpermitted (by rw [hphase]; rfl) hready hdecided.1, hdecided.2⟩
    | deleted user ids =>
        simp only [hphase] at hready hdecided ⊢
        exact ⟨hpermitted (by rw [hphase]; rfl) hready.1 hdecided.1, hdecided.2⟩
    | _ => trivial

/-- The committed row of an identifier or a hash that a transaction sees is the stored one. -/
theorem SignInState.Consistent.bucketAt_of_mem (hstate : state.Consistent names)
    (hrow : row ∈ state.committed) : state.bucketAt row.hash = some row.bucket.bucket := by
  have hfound : (state.committed.find? fun other => other.hash = row.hash) = some row := by
    cases hfind : state.committed.find? fun other => other.hash = row.hash with
    | none =>
        have hmissing := List.find?_eq_none.mp hfind row hrow
        simp at hmissing
    | some found =>
        have hhash : found.hash = row.hash := by simpa using List.find?_some hfind
        have hhashes := hstate.hashes
        rw [SignInState.stored, List.map_map] at hhashes
        rw [List.inj_on_of_nodup_map hhashes (List.mem_of_find?_eq_some hfind) hrow hhash]
  rw [SignInState.bucketAt, hfound, Option.map_some]

theorem bucketAt_of_not_mem (hhash : hash ∉ state.stored.map Prod.snd) :
    state.bucketAt hash = none := by
  rw [SignInState.bucketAt, Option.map_eq_none_iff, List.find?_eq_none]
  intro row hrow hsame
  rw [decide_eq_true_eq] at hsame
  apply hhash
  rw [← hsame]
  exact mem_hashes (List.mem_map_of_mem hrow)

/-- The row of the next hash is not one of the transaction's before its insertion. -/
theorem SignInState.Consistent.unheld_of_find (hstate : state.Consistent names)
    (hsession : state.sessions index = some session)
    (hplain : ∀ id, session.phase ≠ .locking id) (hpending : session.pending = hash :: rest)
    (hrow : row ∈ session.visible state.committed) (hhash : row.hash = hash) :
    row.id ∉ session.keys.map Prod.fst := by
  cases mem_visible.mp hrow with
  | inl hheld =>
      have hless := (hstate.sound index session hsession).below_pending hplain
      rw [hpending] at hless
      have hbelow := hless row.key (List.mem_map_of_mem hheld) hash List.mem_cons_self
      rw [show row.key.2 = hash from hhash] at hbelow
      exact absurd hbelow (lt_irrefl hash)
  | inr hstored => exact hstored.2

/-- A transaction that found a row, or none, has its other rows as they were. -/
theorem SignInSession.Faithful.rephase (hfaithful : session.Faithful library users stored)
    {phase : SignInPhase}
    (hvalue : ∀ row ∈ session.held, ∀ found : Option Bucket,
      SignInSession.value { session with phase := phase } found row = session.value found row)
    (hdecided : SignInSession.Decided library users stored { session with phase := phase }) :
    SignInSession.Faithful library users stored { session with phase := phase } where
  named := hfaithful.named
  values row hrow := by
    rw [hvalue row hrow]
    exact hfaithful.values row hrow
  decided := hdecided

theorem LoginThrottle.bucket_refreshed (now : Time) (bucket : LoginThrottle) :
    ((bucket.refreshed now).getD bucket).bucket = bucket.bucket.refresh loginLimits now := by
  unfold LoginThrottle.refreshed Bucket.refresh
  by_cases hexpired : authFailureWindow ≤ now - bucket.windowStartedAt
  · rw [if_pos hexpired,
      if_pos (show loginLimits.window ≤ now - bucket.bucket.started from hexpired)]
    rfl
  · rw [if_neg hexpired,
      if_neg (show ¬ loginLimits.window ≤ now - bucket.bucket.started from hexpired)]
    by_cases hpassed : ∃ moment ∈ bucket.blockedUntil, moment ≤ now
    · rw [if_pos hpassed,
        if_pos (show ∃ moment ∈ bucket.bucket.blocked, moment ≤ now from hpassed)]
      rfl
    · rw [if_neg hpassed,
        if_neg (show ¬ ∃ moment ∈ bucket.bucket.blocked, moment ≤ now from hpassed)]
      rfl

end Values

/-! ## The statements keep the values -/

/-- A statement that commits nothing. -/
def SignInState.Proceeds (library : LoginLibrary) (state : SignInState) (index : ℕ)
    (session : SignInSession) (after : SignInState) : Prop :=
  ∃ next nextId, after = SignInState.enter { state with nextId := nextId } index next ∧
    next.call = session.call ∧ (∀ user, next.phase ≠ .returned user) ∧
      (next.phase.ended = false → next.Faithful library state.users state.bucketAt)

/-- What a transaction has found out when it commits. -/
inductive SignInSession.Concludes (library : LoginLibrary) (users : Table User)
    (stored : Text → Option Bucket) (session : SignInSession) : List ℕ → Option User → Prop
  | blocked (hclosed : ¬ session.Permitted stored)
      (hrows : ∀ row ∈ session.held, row.bucket.bucket = session.finds (stored row.hash)) :
      Concludes library users stored session [] none
  | refused (hopen : session.Permitted stored)
      (hverified : library.verified users session.call = none)
      (hrows : ∀ row ∈ session.held, row.bucket.bucket =
        (session.finds (stored row.hash)).register loginLimits session.call.now) :
      Concludes library users stored session [] none
  | accepted (user : User) (ids : List ℕ) (hopen : session.Permitted stored)
      (hverified : library.verified users session.call = some user)
      (hrows : ∀ id ∈ session.keys.map Prod.fst, id ∈ ids) :
      Concludes library users stored session ids (some user)

section Statements

variable {library : LoginLibrary} {names : ℕ → Text} {state after : SignInState} {index : ℕ}
  {session next : SignInSession} {hash : Text} {rest : List Text} {id : ℕ} {row : ThrottleRow}

theorem proceeds_enter (hcall : next.call = session.call)
    (hphase : ∀ user, next.phase ≠ .returned user)
    (hfaithful : next.Faithful library state.users state.bucketAt) :
    state.Proceeds library index session (state.enter index next) :=
  ⟨next, state.nextId, rfl, hcall, hphase, fun _ => hfaithful⟩

theorem proceeds_raised :
    state.Proceeds library index session (state.close index session .raised) := by
  refine ⟨_, state.nextId, rfl, rfl, ?_, ?_⟩
  · intro user hphase
    cases hphase
  · intro hopen
    cases hopen

/-- A row that a query by hash has found. -/
theorem SignInState.Consistent.proceeds_found (hstate : state.Consistent names)
    (hsession : state.sessions index = some session)
    (hfaithful : session.Faithful library state.users state.bucketAt)
    (hplain : ∀ id, session.phase ≠ .locking id) (hpending : session.pending = hash :: rest)
    (hvalue : ∀ row found, session.value found row = session.finds found)
    (hfound : ((session.visible state.committed).find? fun row => row.hash = hash) = some row) :
    state.Proceeds library index session
      (state.enter index { session with phase := .locking row.id }) := by
  have hhash : row.hash = hash := by simpa using List.find?_some hfound
  have hunheld := hstate.unheld_of_find hsession hplain hpending
    (List.mem_of_find?_eq_some hfound) hhash
  apply proceeds_enter rfl (fun _ => SignInPhase.noConfusion)
  apply hfaithful.rephase
  · intro own hown stored
    have hne : own.id ≠ row.id := by
      intro hsame
      rw [← hsame, keys_map_fst] at hunheld
      exact hunheld (List.mem_map_of_mem hown)
    rw [hvalue, SignInSession.value]
    exact if_neg hne
  · trivial

theorem SignInState.Consistent.proceeds_fetch (hstate : state.Consistent names)
    (hsession : state.sessions index = some session)
    (hfaithful : session.Faithful library state.users state.bucketAt)
    (hphase : session.phase = .fetching) (hpending : session.pending = hash :: rest) :
    state.Proceeds library index session (state.fetch index session hash) := by
  have hvalue : ∀ row found, session.value found row = session.finds found := by
    intro row found
    rw [SignInSession.value, hphase]
  unfold SignInState.fetch
  split
  · rename_i row hfound
    exact hstate.proceeds_found hsession hfaithful (by simp [hphase]) hpending hvalue hfound
  · apply proceeds_enter rfl (fun _ => SignInPhase.noConfusion)
    exact hfaithful.rephase (fun row _ found => (hvalue row found).symm) trivial

theorem SignInState.Consistent.proceeds_refetch (hstate : state.Consistent names)
    (hsession : state.sessions index = some session)
    (hfaithful : session.Faithful library state.users state.bucketAt)
    (hphase : session.phase = .refetching) (hpending : session.pending = hash :: rest) :
    state.Proceeds library index session (state.refetch index session hash) := by
  have hvalue : ∀ row found, session.value found row = session.finds found := by
    intro row found
    rw [SignInSession.value, hphase]
  unfold SignInState.refetch
  split
  · rename_i row hfound
    exact hstate.proceeds_found hsession hfaithful (by simp [hphase]) hpending hvalue hfound
  · exact proceeds_raised

theorem SignInState.Consistent.proceeds_insert (hstate : state.Consistent names)
    (hsession : state.sessions index = some session)
    (hfaithful : session.Faithful library state.users state.bucketAt)
    (hphase : session.phase = .inserting)
    (hafter : state.insert index session hash = some after) :
    state.Proceeds library index session after := by
  have hvalue : ∀ row found, session.value found row = session.finds found := by
    intro row found
    rw [SignInSession.value, hphase]
  unfold SignInState.insert at hafter
  split at hafter
  · cases hafter
  · split at hafter
    · obtain rfl := Option.some.inj hafter
      apply proceeds_enter rfl (fun _ => SignInPhase.noConfusion)
      exact hfaithful.rephase (fun row _ found => (hvalue row found).symm) trivial
    · rename_i hunseen
      have hunstored : hash ∉ state.stored.map Prod.snd := by
        intro hstored
        obtain ⟨row, hrow, hsame⟩ := hstate.exists_visible_hash hsession hstored
        apply hunseen
        rw [List.any_eq_true]
        exact ⟨row, hrow, by simpa using hsame⟩
      obtain rfl := Option.some.inj hafter
      refine ⟨_, state.nextId + 1, rfl, rfl, fun _ => SignInPhase.noConfusion, ?_⟩
      intro _
      refine ⟨hfaithful.named, ?_, trivial⟩
      intro row hrow
      rw [List.mem_append, List.mem_singleton] at hrow
      cases hrow with
      | inl hold =>
          have hknown := (hstate.sound index session hsession).rows.known row.key
            (List.mem_map_of_mem hold)
          have hne : row.id ≠ state.nextId := Nat.ne_of_lt (hknown.lt_nextId hstate.issued)
          rw [hfaithful.values row hold, hvalue, SignInSession.value]
          exact (if_neg hne).symm
      | inr hnew =>
          rw [hnew, SignInSession.value]
          simp only [if_true]
          change _ = (state.bucketAt hash).getD _
          rw [bucketAt_of_not_mem hunstored]
          rfl

theorem SignInState.Consistent.proceeds_lock (hstate : state.Consistent names)
    (hfaithful : session.Faithful library state.users state.bucketAt)
    (hphase : session.phase = .locking id)
    (hafter : state.lock index session id = some after) :
    state.Proceeds library index session after := by
  have hvalue : ∀ row found, session.value found row =
      if row.id = id then found.getD (.opened session.call.now) else session.finds found := by
    intro row found
    rw [SignInSession.value, hphase]
  unfold SignInState.lock at hafter
  split at hafter
  · cases hafter
  · split at hafter
    · obtain rfl := Option.some.inj hafter
      exact proceeds_raised
    · rename_i row hfound
      obtain rfl := Option.some.inj hafter
      have hid : row.id = id := by simpa using List.find?_some hfound
      apply proceeds_enter rfl (fun _ => SignInPhase.noConfusion)
      refine ⟨hfaithful.named, ?_, trivial⟩
      intro own hown
      by_cases hholds : session.holdsId id = true
      · simp only [if_pos hholds] at hown
        rw [hfaithful.values own hown, hvalue]
        rfl
      · simp only [if_neg hholds] at hown
        rw [List.mem_append, List.mem_singleton] at hown
        cases hown with
        | inl hold =>
            rw [hfaithful.values own hold, hvalue]
            rfl
        | inr hnew =>
            have hstored : row ∈ state.committed := by
              cases mem_visible.mp (List.mem_of_find?_eq_some hfound) with
              | inl hheld =>
                  have hown : session.holdsId id = true := by
                    rw [holdsId_iff, ← hid, keys_map_fst]
                    exact List.mem_map_of_mem hheld
                  exact absurd hown hholds
              | inr hcommitted => exact hcommitted.1
            rw [hnew, SignInSession.value, hstate.bucketAt_of_mem hstored]
            simp only [if_pos hid, Option.getD_some]

theorem proceeds_save {phase : SignInPhase} (hphase : ∀ user, phase ≠ .returned user)
    (hfaithful : SignInSession.Faithful library state.users state.bucketAt
      { session with held := session.saved row, phase := phase }) :
    state.Proceeds library index session (state.save index session row phase) := by
  unfold SignInState.save
  split
  · exact proceeds_enter rfl hphase hfaithful
  · exact proceeds_raised

/-- The saved row among the others of a transaction. -/
theorem mem_saved {own : ThrottleRow} (hown : own ∈ session.saved row) :
    own = row ∨ (own ∈ session.held ∧ own.id ≠ row.id) := by
  obtain ⟨old, hold, hsame⟩ := List.mem_map.mp hown
  by_cases hid : old.id = row.id
  · rw [if_pos hid] at hsame
    exact .inl hsame.symm
  · rw [if_neg hid] at hsame
    rw [← hsame]
    exact .inr ⟨hold, hid⟩

theorem value_looped {held : List ThrottleRow} {found : Option Bucket} :
    SignInSession.value { session with held := held, phase := session.looped } found row =
      session.finds found := by
  unfold SignInSession.looped
  by_cases hpending : session.pending = []
  · simp only [if_pos hpending]
    rfl
  · simp only [if_neg hpending]
    rfl

theorem decided_looped {held : List ThrottleRow} {users : Table User}
    {stored : Text → Option Bucket} : SignInSession.Decided library users stored
      { session with held := held, phase := session.looped } := by
  unfold SignInSession.looped
  by_cases hpending : session.pending = []
  · simp only [if_pos hpending]
    trivial
  · simp only [if_neg hpending]
    trivial

theorem looped_ne (user : Option User) : session.looped ≠ .returned user := by
  unfold SignInSession.looped
  split
  · exact fun hphase => by cases hphase
  · exact fun hphase => by cases hphase

theorem proceeds_refresh (hfaithful : session.Faithful library state.users state.bucketAt)
    (hids : (session.keys.map Prod.fst).Nodup) (hphase : session.phase = .refreshing id) :
    state.Proceeds library index session (state.refresh index session id) := by
  have hvalue : ∀ row found, session.value found row =
      if row.id = id then found.getD (.opened session.call.now) else session.finds found := by
    intro row found
    rw [SignInSession.value, hphase]
  unfold SignInState.refresh
  split
  · exact proceeds_raised
  · rename_i row hfound
    have hid : row.id = id := by simpa using List.find?_some hfound
    have hrow := List.mem_of_find?_eq_some hfound
    have hown : ∀ own ∈ session.held, own.id = id → own = row := by
      intro own hmem hsame
      rw [keys_map_fst] at hids
      exact List.inj_on_of_nodup_map hids hmem hrow (hsame.trans hid.symm)
    have hbucket := hfaithful.values row hrow
    rw [hvalue, if_pos hid] at hbucket
    have hrefresh := row.bucket.bucket_refreshed session.call.now
    rw [hbucket] at hrefresh
    split
    · rename_i hunchanged
      rw [hunchanged, Option.getD_none] at hrefresh
      apply proceeds_enter rfl looped_ne
      refine ⟨hfaithful.named, ?_, decided_looped⟩
      intro own hmem
      rw [value_looped]
      by_cases hsame : own.id = id
      · rw [hown own hmem hsame]
        exact hrefresh
      · rw [hfaithful.values own hmem, hvalue, if_neg hsame]
    · rename_i bucket hchanged
      rw [hchanged, Option.getD_some] at hrefresh
      apply proceeds_save looped_ne
      refine ⟨hfaithful.named, ?_, decided_looped⟩
      intro own hmem
      rw [value_looped]
      cases mem_saved hmem with
      | inl hnew =>
          rw [hnew]
          have hhash : bucket.bucketHash = row.bucket.bucketHash := refreshed_hash hchanged
          rw [ThrottleRow.hash, hhash]
          exact hrefresh
      | inr hold =>
          have hne : own.id ≠ id := by
            rw [← hid]
            exact hold.2
          rw [hfaithful.values own hold.1, hvalue, if_neg hne]

theorem proceeds_register (hfaithful : session.Faithful library state.users state.bucketAt)
    {rest : List ThrottleRow} (hphase : session.phase = .registering (row :: rest)) :
    state.Proceeds library index session (state.save index session
      ⟨row.id, row.bucket.registered session.call.now⟩ (.registering rest)) := by
  have hdecided := hfaithful.decided
  rw [SignInSession.Decided, hphase] at hdecided
  obtain ⟨hpermitted, hverified, hheld, hnodup⟩ := hdecided
  rw [List.map_cons, List.nodup_cons] at hnodup
  have hrow := hheld row List.mem_cons_self
  have hvalue : ∀ own found, session.value found own =
      if own.id ∈ (row :: rest).map ThrottleRow.id then session.finds found
      else (session.finds found).register loginLimits session.call.now := by
    intro own found
    rw [SignInSession.value, hphase]
  apply proceeds_save (fun _ => SignInPhase.noConfusion)
  refine ⟨hfaithful.named, ?_, hpermitted, hverified, ?_, hnodup.2⟩
  · intro own hmem
    cases mem_saved hmem with
    | inl hnew =>
        have hbucket := hfaithful.values row hrow
        rw [hvalue, if_pos (List.mem_map_of_mem List.mem_cons_self)] at hbucket
        rw [hnew, LoginThrottle.bucket_registered, hbucket, SignInSession.value]
        exact (if_neg hnodup.1).symm
    | inr hold =>
        rw [hfaithful.values own hold.1, hvalue, SignInSession.value]
        by_cases hmem : own.id ∈ rest.map ThrottleRow.id
        · have hlater : own.id ∈ (row :: rest).map ThrottleRow.id := List.mem_cons_of_mem _ hmem
          rw [if_pos hlater]
          exact (if_pos hmem).symm
        · have hnot : own.id ∉ (row :: rest).map ThrottleRow.id := by
            rw [List.map_cons, List.mem_cons]
            exact not_or.mpr ⟨hold.2, hmem⟩
          rw [if_neg hnot]
          exact (if_neg hmem).symm
  · intro other hother
    have hne : other.id ≠ row.id := by
      intro hsame
      rw [← hsame] at hnodup
      exact hnodup.1 (List.mem_map_of_mem hother)
    exact List.mem_map.mpr ⟨other, hheld other (List.mem_cons_of_mem _ hother), if_neg hne⟩

/-- Once every hash is locked, the buckets of the rows are the ones that the attempt looks at. -/
theorem SignInState.Consistent.permitted_iff (hstate : state.Consistent names)
    (hsession : state.sessions index = some session) (hopen : session.phase.ended = false)
    (hpending : session.pending = [])
    (hvalues : ∀ row ∈ session.held, row.bucket.bucket = session.finds (state.bucketAt row.hash)) :
    session.Permitted state.bucketAt ↔
      ¬ ∃ row ∈ session.held, row.bucket.Blocked session.call.now := by
  have hcovered : ∀ hash, hash ∈ session.hashes ↔ ∃ row ∈ session.held, row.hash = hash := by
    intro hash
    rw [(hstate.sound index session hsession).covered hopen hash, hpending, keys_map_snd,
      List.mem_map]
    exact or_iff_right List.not_mem_nil
  constructor
  · intro hpermitted hblocked
    obtain ⟨row, hrow, hblocked⟩ := hblocked
    apply hpermitted row.hash ((hcovered row.hash).mpr ⟨row, hrow, rfl⟩)
    rw [← hvalues row hrow]
    exact hblocked
  · intro hopen hash hhash hclosed
    obtain ⟨row, hrow, hsame⟩ := (hcovered hash).mp hhash
    rw [← hsame, ← hvalues row hrow] at hclosed
    exact hopen ⟨row, hrow, hclosed⟩

theorem SignInState.Consistent.proceeds_verify (hstate : state.Consistent names)
    (hsession : state.sessions index = some session)
    (hfaithful : session.Faithful library state.users state.bucketAt)
    (hphase : session.phase = .verifying) :
    state.Proceeds library index session (state.verify library index session) ∨
      (state.verify library index session = state.commit index session [] none ∧
        session.Concludes library state.users state.bucketAt [] none) := by
  have hsound := hstate.sound index session hsession
  have hpending := hsound.ready
  rw [SignInSession.Ready, hphase] at hpending
  have hvalue : ∀ row found, session.value found row = session.finds found := by
    intro row found
    rw [SignInSession.value, hphase]
  have hvalues : ∀ row ∈ session.held,
      row.bucket.bucket = session.finds (state.bucketAt row.hash) := by
    intro row hrow
    rw [hfaithful.values row hrow, hvalue]
  have hpermitted := hstate.permitted_iff hsession (by rw [hphase]; rfl) hpending hvalues
  unfold SignInState.verify
  by_cases hblocked : ∃ row ∈ session.held, row.bucket.Blocked session.call.now
  · rw [if_pos hblocked]
    exact .inr ⟨rfl, .blocked (fun hopen => hpermitted.mp hopen hblocked) hvalues⟩
  · rw [if_neg hblocked]
    left
    cases hverified : library.verified state.users session.call with
    | none =>
        apply proceeds_enter rfl (fun _ => SignInPhase.noConfusion)
        apply hfaithful.rephase
        · intro row hrow found
          rw [hvalue, SignInSession.value]
          exact if_pos (List.mem_map_of_mem hrow)
        · have hids := hsound.rows.ids
          rw [keys_map_fst] at hids
          exact ⟨hpermitted.mpr hblocked, hverified, fun row hrow => hrow, hids⟩
    | some user =>
        apply proceeds_enter rfl (fun _ => SignInPhase.noConfusion)
        apply hfaithful.rephase
        · exact fun row _ found => (hvalue row found).symm
        · exact ⟨hpermitted.mpr hblocked, hverified⟩

theorem SignInState.Consistent.proceeds_delete (hstate : state.Consistent names)
    (hsession : state.sessions index = some session)
    (hfaithful : session.Faithful library state.users state.bucketAt) {user : User}
    (hphase : session.phase = .deleting user)
    (hafter : state.delete index session user = some after) :
    state.Proceeds library index session after := by
  have hvalue : ∀ row found, session.value found row = session.finds found := by
    intro row found
    rw [SignInSession.value, hphase]
  have hdecided := hfaithful.decided
  rw [SignInSession.Decided, hphase] at hdecided
  unfold SignInState.delete at hafter
  split at hafter
  · cases hafter
  · obtain rfl := Option.some.inj hafter
    apply proceeds_enter rfl (fun _ => SignInPhase.noConfusion)
    apply hfaithful.rephase
    · exact fun row _ found => (hvalue row found).symm
    · refine ⟨hdecided.1, hdecided.2, ?_⟩
      intro id hid
      rw [keys_map_fst] at hid
      obtain ⟨row, hrow, hsame⟩ := List.mem_map.mp hid
      have hcovered := (hstate.sound index session hsession).covered (by rw [hphase]; rfl) row.hash
      rw [← hsame]
      apply List.mem_map_of_mem
      rw [SignInState.ownRows, List.mem_filter, decide_eq_true_eq]
      refine ⟨mem_visible.mpr (.inl hrow), hcovered.mpr (.inr ?_)⟩
      rw [keys_map_snd]
      exact List.mem_map_of_mem hrow

/-- A statement goes on with what the attempt makes of its buckets, or commits it. -/
theorem SignInState.Consistent.proceeds_or_concludes (hstate : state.Consistent names)
    (hsession : state.sessions index = some session)
    (hfaithful : session.Faithful library state.users state.bucketAt)
    (hstatement : state.Statement library index session after) :
    state.Proceeds library index session after ∨
      ∃ deleted user, after = state.commit index session deleted user ∧
        session.phase.ended = false ∧ session.pending = [] ∧
          (∀ id ∈ deleted, id ∈ session.keys.map Prod.fst) ∧
            session.Concludes library state.users state.bucketAt deleted user := by
  have hsound := hstate.sound index session hsession
  have hready := hsound.ready
  have hdecided := hfaithful.decided
  cases hstatement with
  | fetch hash rest hphase hpending hafter =>
      rw [hafter]
      exact .inl (hstate.proceeds_fetch hsession hfaithful hphase hpending)
  | insert hash rest hphase hpending hafter =>
      exact .inl (hstate.proceeds_insert hsession hfaithful hphase hafter)
  | refetch hash rest hphase hpending hafter =>
      rw [hafter]
      exact .inl (hstate.proceeds_refetch hsession hfaithful hphase hpending)
  | lock id hphase hafter => exact .inl (hstate.proceeds_lock hfaithful hphase hafter)
  | refresh id hphase hafter =>
      rw [hafter]
      exact .inl (proceeds_refresh hfaithful hsound.rows.ids hphase)
  | verify hphase hafter =>
      rw [SignInSession.Ready, hphase] at hready
      rw [hafter]
      cases hstate.proceeds_verify hsession hfaithful hphase with
      | inl hproceeds => exact .inl hproceeds
      | inr hconcludes =>
          exact .inr ⟨[], none, hconcludes.1, by rw [hphase]; rfl, hready,
            fun _ hid => absurd hid List.not_mem_nil, hconcludes.2⟩
  | register row rest hphase hafter =>
      rw [hafter]
      exact .inl (proceeds_register hfaithful hphase)
  | refuse hphase hafter =>
      rw [SignInSession.Ready, hphase] at hready
      rw [SignInSession.Decided, hphase] at hdecided
      refine .inr ⟨[], none, hafter, by rw [hphase]; rfl, hready.1,
        fun _ hid => absurd hid List.not_mem_nil, .refused hdecided.1 hdecided.2.1 ?_⟩
      intro row hrow
      rw [hfaithful.values row hrow, SignInSession.value, hphase]
      exact if_neg List.not_mem_nil
  | delete user hphase hafter =>
      exact .inl (hstate.proceeds_delete hsession hfaithful hphase hafter)
  | accept user ids hphase hafter =>
      rw [SignInSession.Ready, hphase] at hready
      rw [SignInSession.Decided, hphase] at hdecided
      exact .inr ⟨ids, some user, hafter, by rw [hphase]; rfl, hready.1, hready.2,
        .accepted user ids hdecided.1 hdecided.2.1 hdecided.2.2⟩

end Statements

/-! ## A commit is the attempt -/

section Commits

variable {library : LoginLibrary} {names : ℕ → Text} {state : SignInState} {index : ℕ}
  {session : SignInSession} {hash : Text} {row : ThrottleRow} {deleted : List ℕ}
  {user : Option User} {login : LoginState}

theorem SignInState.Consistent.bucketAt_commit_of_not_mem (hstate : state.Consistent names)
    (hsession : state.sessions index = some session)
    (hdeleted : ∀ id ∈ deleted, id ∈ session.keys.map Prod.fst)
    (hhash : hash ∉ session.keys.map Prod.snd) :
    (state.commit index session deleted user).bucketAt hash = state.bucketAt hash := by
  have hafter : (state.commit index session deleted user).Consistent names :=
    hstate.commit hsession hdeleted
  by_cases hstored : hash ∈ state.stored.map Prod.snd
  · obtain ⟨key, hkey, hsame⟩ := List.mem_map.mp hstored
    obtain ⟨row, hrow, hrowKey⟩ := List.mem_map.mp hkey
    have hrowHash : row.hash = hash := by
      rw [← hsame, ← hrowKey]
      rfl
    have hfree : row.id ∉ session.keys.map Prod.fst := by
      intro hmem
      obtain ⟨own, hown, hid⟩ := List.mem_map.mp hmem
      have hknown := (hstate.sound index session hsession).rows.known own hown
      have heq := hknown.eq_of_fst hstate.ids (List.mem_map_of_mem hrow) hid.symm
      apply hhash
      rw [← hrowHash, show row.hash = own.2 from congrArg Prod.snd heq]
      exact mem_hashes hown
    have hkept : row ∈ state.afterCommit session deleted := by
      rw [SignInState.afterCommit, List.mem_filter, decide_eq_true_eq]
      exact ⟨mem_visible.mpr (.inr ⟨hrow, hfree⟩), fun hmem => hfree (hdeleted row.id hmem)⟩
    rw [← hrowHash, hstate.bucketAt_of_mem hrow]
    exact hafter.bucketAt_of_mem hkept
  · rw [bucketAt_of_not_mem hstored]
    apply bucketAt_of_not_mem
    intro hmem
    obtain ⟨key, hkey, hsame⟩ := List.mem_map.mp hmem
    cases (mem_afterCommit.mp hkey).1 with
    | inl hown =>
        rw [← hsame] at hhash
        exact hhash (mem_hashes hown)
    | inr hold =>
        rw [← hsame] at hstored
        exact hstored (mem_hashes hold.1)

theorem SignInState.Consistent.bucketAt_commit_of_kept (hstate : state.Consistent names)
    (hsession : state.sessions index = some session)
    (hdeleted : ∀ id ∈ deleted, id ∈ session.keys.map Prod.fst) (hrow : row ∈ session.held)
    (hkept : row.id ∉ deleted) :
    (state.commit index session deleted user).bucketAt row.hash = some row.bucket.bucket := by
  have hafter : (state.commit index session deleted user).Consistent names :=
    hstate.commit hsession hdeleted
  apply hafter.bucketAt_of_mem
  change row ∈ state.afterCommit session deleted
  rw [SignInState.afterCommit, List.mem_filter, decide_eq_true_eq]
  exact ⟨mem_visible.mpr (.inl hrow), hkept⟩

theorem SignInState.Consistent.bucketAt_commit_of_deleted (hstate : state.Consistent names)
    (hsession : state.sessions index = some session) (hrow : row ∈ session.held)
    (hgone : row.id ∈ deleted) :
    (state.commit index session deleted user).bucketAt row.hash = none := by
  have hsound := hstate.sound index session hsession
  have hkey : row.key ∈ session.keys := List.mem_map_of_mem hrow
  apply bucketAt_of_not_mem
  intro hmem
  obtain ⟨key, hstored, hsame⟩ := List.mem_map.mp hmem
  have hboth := mem_afterCommit.mp hstored
  cases hboth.1 with
  | inl hown =>
      have heq := eq_of_snd_eq hsound.rows.hashes hkey hown hsame
      rw [heq] at hboth
      exact hboth.2 hgone
  | inr hold =>
      have heq := (hsound.rows.known row.key hkey).eq_of_snd hstate.hashes hold.1 hsame
      rw [heq] at hold
      exact hold.2 (mem_ids hkey)

/-- The stored buckets, accounts and events are those of a login state. -/
structure SignInState.Shows (state : SignInState) (login : LoginState) : Prop where
  users : login.users = state.users
  events : login.events = state.events
  buckets : ∀ hash, login.bucketAt hash = state.bucketAt hash

theorem SignInState.Shows.bucketHashes (hshows : state.Shows login) (call : LoginCall) :
    login.bucketHashes library call = library.bucketHashes state.users call := by
  rw [← hshows.users]
  rfl

theorem SignInState.Shows.verified (hshows : state.Shows login) (call : LoginCall) :
    login.verified library call = library.verified state.users call := by
  rw [← hshows.users]
  rfl

theorem SignInState.Shows.refuses_iff (hshows : state.Shows login)
    (hnamed : session.hashes = sortedSet (library.bucketHashes state.users session.call)) :
    login.Refuses library session.call ↔ ¬ session.Permitted state.bucketAt := by
  unfold LoginState.Refuses SignInSession.Permitted
  rw [hshows.bucketHashes, hnamed]
  simp only [mem_sortedSet, hshows.buckets, not_forall, not_not, exists_prop]
  rfl

/-- What a transaction commits is what the whole attempt would commit then. -/
theorem SignInState.Shows.commit (hshows : state.Shows login) (hstate : state.Consistent names)
    (hsession : state.sessions index = some session)
    (hfaithful : session.Faithful library state.users state.bucketAt)
    (hopen : session.phase.ended = false) (hpending : session.pending = [])
    (hdeleted : ∀ id ∈ deleted, id ∈ session.keys.map Prod.fst)
    (hconcludes : session.Concludes library state.users state.bucketAt deleted user) :
    (authenticateLogin library session.call).value? login = some user ∧
      (state.commit index session deleted user).Shows (session.call.after library login) := by
  obtain ⟨outcome, hattempt, hvalue, hattempted⟩ := session.call.attempted library login
  have hruns := Transaction.runs_of_value? hattempt
  have hdecides := attemptLogin_decides hruns
  have hafter := Transaction.settle_of_runs (authenticateLogin_runs hruns)
  have hrefuses := hshows.refuses_iff hfaithful.named
  have hevents : (session.call.after library login).events =
      eventsAfter state.events outcome.user? := by
    rw [LoginCall.after, hafter, hdecides.events, hshows.events]
  have hlocked : ∀ hash, hash ∈ login.bucketHashes library session.call ↔
      ∃ row ∈ session.held, row.hash = hash := by
    intro hash
    rw [hshows.bucketHashes, ← mem_sortedSet, ← hfaithful.named,
      (hstate.sound index session hsession).covered hopen hash, hpending, keys_map_snd,
      List.mem_map]
    exact or_iff_right List.not_mem_nil
  have hothers : ∀ hash, hash ∉ login.bucketHashes library session.call →
      (session.call.after library login).bucketAt hash =
        (state.commit index session deleted user).bucketAt hash := by
    intro hash hnot
    have hunheld : hash ∉ session.keys.map Prod.snd := by
      intro hmem
      rw [keys_map_snd] at hmem
      exact hnot ((hlocked hash).mpr (List.mem_map.mp hmem))
    rw [LoginState.bucketAt, hattempted.others hash hnot,
      hstate.bucketAt_commit_of_not_mem hsession hdeleted hunheld]
    exact hshows.buckets hash
  have husers : (session.call.after library login).users =
      (state.commit index session deleted user).users := hattempted.users.trans hshows.users
  have hbuckets : (∀ row ∈ session.held, (session.call.after library login).bucketAt row.hash =
      (state.commit index session deleted user).bucketAt row.hash) →
        ∀ hash, (session.call.after library login).bucketAt hash =
          (state.commit index session deleted user).bucketAt hash := by
    intro hrows hash
    by_cases hmem : hash ∈ login.bucketHashes library session.call
    · obtain ⟨row, hrow, hsame⟩ := (hlocked hash).mp hmem
      rw [← hsame]
      exact hrows row hrow
    · exact hothers hash hmem
  cases hconcludes with
  | blocked hclosed hrows =>
      have houtcome := hdecides.blocked (hrefuses.mpr hclosed)
      rw [houtcome] at hvalue hevents
      refine ⟨hvalue, husers, hevents, hbuckets ?_⟩
      intro row hrow
      rw [hstate.bucketAt_commit_of_kept hsession hdeleted hrow List.not_mem_nil, hrows row hrow,
        hattempted.visited (by rw [houtcome]; rfl) row.hash
          ((hlocked row.hash).mpr ⟨row, hrow, rfl⟩),
        hshows.buckets, houtcome]
      rfl
  | refused hpermitted hverified hrows =>
      have hdecided := hdecides.verified (fun hrefused => hrefuses.mp hrefused hpermitted)
      rw [hshows.verified, hverified] at hdecided
      have houtcome : outcome = .refused := by
        cases outcome with
        | blocked => exact absurd rfl hdecided.1
        | refused => rfl
        | accepted user => cases hdecided.2
      rw [houtcome] at hvalue hevents
      refine ⟨hvalue, husers, hevents, hbuckets ?_⟩
      intro row hrow
      rw [hstate.bucketAt_commit_of_kept hsession hdeleted hrow List.not_mem_nil, hrows row hrow,
        hattempted.visited hdecided.2 row.hash ((hlocked row.hash).mpr ⟨row, hrow, rfl⟩),
        hshows.buckets, houtcome]
      rfl
  | accepted user ids hpermitted hverified hrows =>
      have hdecided := hdecides.verified (fun hrefused => hrefuses.mp hrefused hpermitted)
      rw [hshows.verified, hverified] at hdecided
      have houtcome : outcome = .accepted user := by
        cases outcome with
        | blocked => exact absurd rfl hdecided.1
        | refused => cases hdecided.2
        | accepted other =>
            rw [LoginOutcome.accepted.injEq]
            exact Option.some.inj hdecided.2
      rw [houtcome] at hvalue hevents
      refine ⟨hvalue, husers, hevents, hbuckets ?_⟩
      intro row hrow
      have hid : row.id ∈ deleted := by
        apply hrows
        rw [keys_map_fst]
        exact List.mem_map_of_mem hrow
      rw [hstate.bucketAt_commit_of_deleted hsession hrow hid, LoginState.bucketAt,
        hattempted.cleared user houtcome row.hash ((hlocked row.hash).mpr ⟨row, hrow, rfl⟩)]
      rfl

end Commits

/-! ## Runs -/

/-- The attempts of the sign-ins that have returned, one after the other in this order, have
their results and leave the committed state. -/
structure Serialized (library : LoginLibrary) (login : LoginState) (order : List (ℕ × LoginCall))
    (state : SignInState) : Prop where
  once : (order.map Prod.fst).Nodup
  returned : ∀ index session user, state.sessions index = some session →
    session.phase = .returned user → (index, session.call) ∈ order
  results : ∀ earlier index call later, order = earlier ++ (index, call) :: later →
    ∃ session user, state.sessions index = some session ∧ session.call = call ∧
      session.phase = .returned user ∧
        (authenticateLogin library call).value?
          (runLogins library login (earlier.map Prod.snd)) = some user
  shows : state.Shows (runLogins library login (order.map Prod.snd))

section Runs

variable {library : LoginLibrary} {names : ℕ → Text} {state after : SignInState} {index : ℕ}
  {session next : SignInSession} {login : LoginState} {order : List (ℕ × LoginCall)}

/-- Every unfinished transaction is faithful to the committed buckets. -/
def SignInState.AllFaithful (library : LoginLibrary) (state : SignInState) : Prop :=
  ∀ index session, state.sessions index = some session → session.phase.ended = false →
    session.Faithful library state.users state.bucketAt

/-- The transactions that have returned are those of the order. -/
theorem Serialized.mem_order (hserialized : Serialized library login order state)
    (hmem : index ∈ order.map Prod.fst) :
    ∃ session user, state.sessions index = some session ∧ session.phase = .returned user := by
  obtain ⟨entry, hentry, hsame⟩ := List.mem_map.mp hmem
  obtain ⟨earlier, later, hsplit⟩ := List.append_of_mem hentry
  obtain ⟨session, user, hsession, _, hphase, _⟩ :=
    hserialized.results earlier entry.1 entry.2 later hsplit
  rw [hsame] at hsession
  exact ⟨session, user, hsession, hphase⟩

/-- A step that returns from no transaction. -/
theorem Serialized.step (hserialized : Serialized library login order state)
    (hshows : ∀ shown, state.Shows shown → after.Shows shown)
    (hkept : ∀ index session user, session.phase = .returned user →
      (after.sessions index = some session ↔ state.sessions index = some session)) :
    Serialized library login order after where
  once := hserialized.once
  returned index session user hsession hphase :=
    hserialized.returned index session user ((hkept index session user hphase).mp hsession) hphase
  results earlier index call later hsplit := by
    obtain ⟨session, user, hsession, hcall, hphase, hvalue⟩ :=
      hserialized.results earlier index call later hsplit
    exact ⟨session, user, (hkept index session user hphase).mpr hsession, hcall, hphase, hvalue⟩
  shows := hshows _ hserialized.shows

theorem Serialized.proceeds (hserialized : Serialized library login order state)
    (hsession : state.sessions index = some session) (hopen : session.phase.ended = false)
    (hproceeds : state.Proceeds library index session after) :
    Serialized library login order after := by
  obtain ⟨next, nextId, hafter, _, hphase, _⟩ := hproceeds
  rw [hafter]
  apply hserialized.step
  · exact fun shown hshown => ⟨hshown.users, hshown.events, hshown.buckets⟩
  · intro other found user hreturned
    constructor
    · intro hfound
      cases enter_cases hfound with
      | inl hown =>
          rw [hown.2] at hreturned
          exact absurd hreturned (hphase user)
      | inr hother => exact hother.2
    · intro hfound
      have hne : other ≠ index := by
        intro hsame
        rw [hsame, hsession, Option.some.injEq] at hfound
        rw [hfound, hreturned] at hopen
        cases hopen
      rw [SignInState.enter_of_ne hne]
      exact hfound

theorem SignInState.AllFaithful.proceeds (hall : state.AllFaithful library)
    (hproceeds : state.Proceeds library index session after) : after.AllFaithful library := by
  obtain ⟨next, nextId, hafter, _, _, hfaithful⟩ := hproceeds
  rw [hafter]
  intro other found hfound hopen
  cases enter_cases hfound with
  | inl hown =>
      rw [hown.2] at hopen ⊢
      exact hfaithful hopen
  | inr hother => exact hall other found hother.2 hopen

/-- A commit changes no bucket that another transaction has locked. -/
theorem SignInState.AllFaithful.commit (hall : state.AllFaithful library)
    (hstate : state.Consistent names) (hsession : state.sessions index = some session)
    {deleted : List ℕ} {user : Option User}
    (hdeleted : ∀ id ∈ deleted, id ∈ session.keys.map Prod.fst) :
    (state.commit index session deleted user).AllFaithful library := by
  intro other found hfound hopen
  cases enter_cases hfound with
  | inl hown =>
      rw [hown.2] at hopen
      cases hopen
  | inr hother =>
      apply (hall other found hother.2 hopen).congr (hstate.sound other found hother.2)
      intro hash hhash
      apply hstate.bucketAt_commit_of_not_mem hsession hdeleted
      intro hown
      obtain ⟨key, hkey, hsame⟩ := List.mem_map.mp hhash
      obtain ⟨ownKey, hownKey, hownSame⟩ := List.mem_map.mp hown
      have hapart := hstate.apart index other session found hother.1.symm hsession hother.2
        ownKey hownKey key hkey
      exact hapart.2 (hownSame.trans hsame.symm)

theorem runLogins_concat (call : LoginCall) (calls : List LoginCall) :
    runLogins library login (calls ++ [call]) =
      call.after library (runLogins library login calls) := by
  rw [runLogins, List.foldl_append]
  rfl

/-- A commit appends its attempt to the order. -/
theorem Serialized.commit (hserialized : Serialized library login order state)
    (hstate : state.Consistent names) (hsession : state.sessions index = some session)
    (hfaithful : session.Faithful library state.users state.bucketAt)
    (hopen : session.phase.ended = false) (hpending : session.pending = []) {deleted : List ℕ}
    {user : Option User} (hdeleted : ∀ id ∈ deleted, id ∈ session.keys.map Prod.fst)
    (hconcludes : session.Concludes library state.users state.bucketAt deleted user) :
    Serialized library login (order ++ [(index, session.call)])
      (state.commit index session deleted user) := by
  have hcommit := hserialized.shows.commit hstate hsession hfaithful hopen hpending hdeleted
    hconcludes
  have hnew : index ∉ order.map Prod.fst := by
    intro hmem
    obtain ⟨found, result, hfound, hreturned⟩ := hserialized.mem_order hmem
    rw [hsession, Option.some.injEq] at hfound
    rw [hfound, hreturned] at hopen
    cases hopen
  constructor
  · rw [List.map_append]
    exact nodup_concat hserialized.once hnew
  · intro other found result hfound hreturned
    rw [List.mem_append, List.mem_singleton]
    cases enter_cases hfound with
    | inl hown =>
        rw [hown.1, hown.2]
        exact .inr rfl
    | inr hother => exact .inl (hserialized.returned other found result hother.2 hreturned)
  · intro earlier other call later hsplit
    cases later.eq_nil_or_concat with
    | inl hnil =>
        rw [hnil] at hsplit
        obtain ⟨hearlier, hlast⟩ := List.append_inj' hsplit rfl
        obtain ⟨hindex, hcall⟩ := Prod.mk.inj (List.singleton_injective hlast)
        refine ⟨{ session with pending := [], held := [], phase := .returned user }, user, ?_,
          hcall,
          rfl, ?_⟩
        · rw [← hindex]
          exact SignInState.enter_self
        · rw [← hearlier, ← hcall]
          exact hcommit.1
    | inr hconcat =>
        obtain ⟨rest, last, hlater⟩ := hconcat
        rw [hlater, List.concat_eq_append, ← List.cons_append, ← List.append_assoc] at hsplit
        obtain ⟨horder, _⟩ := List.append_inj' hsplit rfl
        obtain ⟨found, result, hfound, hsame, hreturned, hvalue⟩ :=
          hserialized.results earlier other call rest horder
        refine ⟨found, result, ?_, hsame, hreturned, hvalue⟩
        have hne : other ≠ index := by
          intro heq
          rw [heq, hsession, Option.some.injEq] at hfound
          rw [hfound, hreturned] at hopen
          cases hopen
        exact (SignInState.enter_of_ne hne).trans hfound
  · rw [List.map_append, List.map_singleton, runLogins_concat]
    exact hcommit.2

/-- What holds between the events of a run that started in a login state. -/
structure SignInState.Follows (library : LoginLibrary) (login : LoginState)
    (order : List (ℕ × LoginCall)) (state : SignInState) : Prop where
  consistent : ∃ names, state.Consistent names
  faithful : state.AllFaithful library
  serialized : Serialized library login order state

theorem SignInState.Follows.begin (hfollows : state.Follows library login order)
    (call : LoginCall) :
    (state.begin library call).Follows library login order := by
  obtain ⟨names, hstate⟩ := hfollows.consistent
  have hunused : state.sessions state.count = none := hstate.unused state.count le_rfl
  refine ⟨⟨names, hstate.begin call⟩, ?_, ?_⟩
  · intro other found hfound hopen
    cases enter_cases hfound with
    | inl hown =>
        rw [hown.2]
        exact ⟨rfl, fun _ hrow => absurd hrow List.not_mem_nil, trivial⟩
    | inr hother => exact hfollows.faithful other found hother.2 hopen
  · apply hfollows.serialized.step
    · exact fun shown hshown => ⟨hshown.users, hshown.events, hshown.buckets⟩
    · intro other found user hreturned
      constructor
      · intro hfound
        cases enter_cases hfound with
        | inl hown =>
            rw [hown.2] at hreturned
            cases hreturned
        | inr hother => exact hother.2
      · intro hfound
        have hne : other ≠ state.count := by
          intro hsame
          rw [hsame, hunused] at hfound
          cases hfound
        exact (SignInState.enter_of_ne hne).trans hfound

theorem SignInState.Follows.crash (hfollows : state.Follows library login order)
    (hsession : state.sessions index = some session) (hopen : session.phase.ended = false) :
    (state.crash index).Follows library login order := by
  obtain ⟨names, hstate⟩ := hfollows.consistent
  refine ⟨⟨names, hstate.crash index⟩, ?_, ?_⟩
  · exact fun other found hfound => hfollows.faithful other found (sessions_of_crash hfound)
  · apply hfollows.serialized.step
    · exact fun shown hshown => ⟨hshown.users, hshown.events, hshown.buckets⟩
    · intro other found user hreturned
      constructor
      · exact sessions_of_crash
      · intro hfound
        have hne : other ≠ index := by
          intro hsame
          rw [hsame, hsession, Option.some.injEq] at hfound
          rw [hfound, hreturned] at hopen
          cases hopen
        exact (Function.update_of_ne hne none state.sessions).trans hfound

theorem SignInState.Follows.advance (hfollows : state.Follows library login order)
    (hsession : state.sessions index = some session)
    (hstatement : state.Statement library index session after) :
    ∃ later, after.Follows library login (order ++ later) := by
  obtain ⟨names, hstate⟩ := hfollows.consistent
  have hopen : session.phase.ended = false := open_of_statement hstatement
  have hfaithful := hfollows.faithful index session hsession hopen
  have hconsistent := hstate.statement hsession hstatement
  cases hstate.proceeds_or_concludes hsession hfaithful hstatement with
  | inl hproceeds =>
      refine ⟨[], hconsistent, hfollows.faithful.proceeds hproceeds, ?_⟩
      rw [List.append_nil]
      exact hfollows.serialized.proceeds hsession hopen hproceeds
  | inr hcommits =>
      obtain ⟨deleted, user, hafter, _, hpending, hdeleted, hconcludes⟩ := hcommits
      refine ⟨[(index, session.call)], hconsistent, ?_, ?_⟩
      · rw [hafter]
        exact hfollows.faithful.commit hstate hsession hdeleted
      · rw [hafter]
        exact hfollows.serialized.commit hstate hsession hfaithful hopen hpending hdeleted
          hconcludes

theorem SignInState.Follows.path {labels : List SignInEvent}
    (hfollows : state.Follows library login order)
    (hpath : (signInSystem library).Path state labels after) :
    ∃ later, after.Follows library login (order ++ later) := by
  induction hpath generalizing order with
  | refl state =>
      refine ⟨[], ?_⟩
      rw [List.append_nil]
      exact hfollows
  | @cons first second last event rest hstep hrest ih =>
      have hnext : ∃ later, second.Follows library login (order ++ later) := by
        cases event with
        | begin call =>
            refine ⟨[], ?_⟩
            rw [show second = first.begin library call from hstep, List.append_nil]
            exact hfollows.begin call
        | advance index =>
            obtain ⟨session, hsession, hstatement⟩ := exists_of_advance hstep
            exact hfollows.advance hsession hstatement
        | crash index =>
            obtain ⟨hcrash, session, hsession, hopen⟩ := hstep
            refine ⟨[], ?_⟩
            rw [hcrash, List.append_nil]
            exact hfollows.crash hsession hopen
      obtain ⟨later, hsecond⟩ := hnext
      obtain ⟨further, hlast⟩ := ih hsecond
      refine ⟨later ++ further, ?_⟩
      rw [← List.append_assoc]
      exact hlast

end Runs

/-- The sign-ins of every run have the results of a sequence of attempts, which leaves what they
have committed; whatever has returned before others goes before them. -/
theorem sign_ins_serializable {library : LoginLibrary} {start middle state : SignInState}
    {login : LoginState} {first last : List SignInEvent}
    (hinitial : (signInSystem library).initial start) (hshows : start.Shows login)
    (hfirst : (signInSystem library).Path start first middle)
    (hlast : (signInSystem library).Path middle last state) :
    ∃ order later, Serialized library login order middle ∧
      Serialized library login (order ++ later) state := by
  have hnone : ∀ index, start.sessions index = none := hinitial.2.2.2
  have hstart : start.Follows library login [] := by
    refine ⟨consistent_of_initial hinitial, ?_, List.nodup_nil, ?_, ?_, hshows⟩
    · intro index session hsession
      rw [hnone index] at hsession
      cases hsession
    · intro index session user hsession
      rw [hnone index] at hsession
      cases hsession
    · intro earlier index call later hsplit
      cases earlier with
      | nil => cases hsplit
      | cons entry rest => cases hsplit
  obtain ⟨order, hmiddle⟩ := hstart.path hfirst
  obtain ⟨later, hstate⟩ := hmiddle.path hlast
  exact ⟨order, later, hmiddle.serialized, hstate.serialized⟩

/-- A sign-in that fails, and then two that overlap. -/
def sampleFailure : List SignInEvent :=
  .begin (wrongLogin 0) :: List.replicate 12 (.advance 0)

def sampleOverlap : List SignInEvent :=
  [.begin (wrongLogin 0), .begin { wrongLogin 0 with password := "right".toList }, .advance 1,
    .advance 2] ++ List.replicate 9 (.advance 1) ++ List.replicate 8 (.advance 2)

def sampleMiddle : SignInState :=
  (sampleSignIns.after? sampleLogin sampleFailure).getD sampleSignIns

def sampleLast : SignInState :=
  (sampleMiddle.after? sampleLogin sampleOverlap).getD sampleMiddle

theorem overlapping_sign_ins_serializable :
    ∃ order later, Serialized sampleLogin sampleStart order sampleMiddle ∧
      Serialized sampleLogin sampleStart (order ++ later) sampleLast := by
  have hfirst : (sampleSignIns.after? sampleLogin sampleFailure).isSome = true := by
    decide +kernel
  have hlast : (sampleMiddle.after? sampleLogin sampleOverlap).isSome = true := by
    decide +kernel
  obtain ⟨middle, hmiddle⟩ := Option.isSome_iff_exists.mp hfirst
  obtain ⟨last, hend⟩ := Option.isSome_iff_exists.mp hlast
  have hmiddleSame : sampleMiddle = middle := by
    rw [sampleMiddle, hmiddle, Option.getD_some]
  have hlastSame : sampleLast = last := by
    rw [sampleLast, hend, Option.getD_some]
  rw [hlastSame]
  rw [hmiddleSame] at hend ⊢
  exact sign_ins_serializable sampleSignIns_initial ⟨rfl, rfl, fun _ => rfl⟩
    (SignInState.path_of_after? hmiddle) (SignInState.path_of_after? hend)

end Agora
