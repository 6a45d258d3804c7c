import Mathlib
import Agora.DomainModels
import Agora.CursorEncoding
import Agora.FailureWindows

/-!
# Throttled logins

`authenticate_login` and the two failure buckets of an attempt, one of the
account and one of the address.  The bucket of an account goes through the
visits of `FailureWindows`: every attempt that names the account is one visit,
and no other attempt touches it.
-/

namespace Agora

open Transaction (check found fail forEach)

/-! ## Login state -/

structure LoginThrottle where
  bucketHash : Text
  windowStartedAt : Time
  failedAttempts : ℕ
  blockedUntil : Option Time
  deriving DecidableEq

instance : Keyed LoginThrottle Text := ⟨LoginThrottle.bucketHash⟩

/-- An identity event, which carries no metadata. -/
structure IdentityEvent where
  eventType : String
  actorId : Option Uuid
  targetUserId : Option Uuid
  deriving DecidableEq

/-- The tables of a login. -/
structure LoginState where
  users : Table User
  throttles : Table LoginThrottle
  events : List IdentityEvent
  soeids : (users.rows.map User.soeid).Nodup
  uuids : ∀ user ∈ users, user.id < 2 ^ 128

/-- The library functions of a login: `salted_hmac` in hexadecimal, under the salt and the
secret of the throttle, and the authentication backends. -/
structure LoginLibrary where
  saltedHmac : Text → Text
  authenticate : Table User → Text → Text → Option User

abbrev LoginTx := Transaction LoginState Failure

def authFailureLimit : ℕ := 5

def authFailureWindow : ℤ := seconds (15 * 60)

def authLockoutDuration : ℤ := seconds 60

/-- A submitted login form, when it is looked at. -/
structure LoginCall where
  now : Time
  remoteAddr : Option Text
  soeid : Text
  password : Text

/-! ## Bucket names -/

def tryCanonicalize (value : Text) : Option Text :=
  match canonicalizeSoeid value with
  | .ok canonical => some canonical
  | .error _ => none

/-- `META.get("REMOTE_ADDR") or "unknown"`. -/
def LoginCall.remoteAddress (call : LoginCall) : Text :=
  match call.remoteAddr with
  | none | some [] => "unknown".toList
  | some address => address

def LoginState.knownUser (state : LoginState) (call : LoginCall) : Option User :=
  (tryCanonicalize call.soeid).bind fun canonical =>
    (state.users.where? fun user => user.soeid = canonical).head?

/-- `f"{scope}:{value}"`. -/
def bucketName (scope value : Text) : Text :=
  scope ++ ':' :: value

def ipBucketName (address : Text) : Text :=
  bucketName "ip".toList address

/-- The name of an account's bucket, with `str` of its UUID. -/
def userBucketName (id : Uuid) : Text :=
  bucketName "user".toList (UuidValue.toText (Fin.ofNat (2 ^ 128) id))

/-- The names of the buckets of an attempt. -/
def LoginState.bucketNames (state : LoginState) (call : LoginCall) : List Text :=
  ipBucketName call.remoteAddress ::
    ((state.knownUser call).map fun user => userBucketName user.id).toList

/-- `sorted(set(bucket_hashes))`. -/
def sortedSet (hashes : List Text) : List Text :=
  hashes.dedup.insertionSort (· ≤ ·)

/-! ## Buckets -/

def saveThrottle (bucket : LoginThrottle) : LoginTx LoginThrottle := do
  let state ← get
  set { state with throttles := state.throttles.replace bucket }
  pure bucket

def createThrottle (bucket : LoginThrottle) : LoginTx LoginThrottle := do
  let state ← get
  let throttles ← found (state.throttles.create bucket)
    (.integrity "TB_TA_AGORA_LOGIN_THROTTLE.BUCKET_HASH")
  set { state with throttles := throttles }
  pure bucket

/-- `get_or_create`. -/
def getOrCreateThrottle (hash : Text) (now : Time) : Option LoginThrottle → LoginTx LoginThrottle
  | some bucket => pure bucket
  | none => createThrottle ⟨hash, now, 0, none⟩

/-- What `_lock_throttle_buckets` makes of one locked bucket. -/
def refreshThrottle (now : Time) (bucket : LoginThrottle) : LoginTx LoginThrottle :=
  if authFailureWindow ≤ now - bucket.windowStartedAt then
    saveThrottle { bucket with windowStartedAt := now, failedAttempts := 0, blockedUntil := none }
  else if ∃ moment ∈ bucket.blockedUntil, moment ≤ now then
    saveThrottle { bucket with blockedUntil := none }
  else
    pure bucket

def lockThrottleBuckets (now : Time) : List Text → LoginTx (List LoginThrottle)
  | [] => pure []
  | hash :: rest => do
      let state ← get
      let bucket ← getOrCreateThrottle hash now (state.throttles.get? hash)
      let refreshed ← refreshThrottle now bucket
      let buckets ← lockThrottleBuckets now rest
      pure (refreshed :: buckets)

/-- One more failure in a bucket, up to the limit. -/
def LoginThrottle.registered (now : Time) (bucket : LoginThrottle) : LoginThrottle :=
  let failedAttempts := min (bucket.failedAttempts + 1) authFailureLimit
  { bucket with
    failedAttempts := failedAttempts
    blockedUntil :=
      if authFailureLimit ≤ failedAttempts then some (now + authLockoutDuration)
      else bucket.blockedUntil }

def registerFailure (buckets : List LoginThrottle) (now : Time) : LoginTx PUnit :=
  forEach (fun bucket => do
    let _ ← saveThrottle (bucket.registered now)
    pure ⟨⟩) buckets

def LoginThrottle.Blocked (now : Time) (bucket : LoginThrottle) : Prop :=
  ∃ moment ∈ bucket.blockedUntil, now < moment

instance (now : Time) (bucket : LoginThrottle) : Decidable (bucket.Blocked now) :=
  inferInstanceAs (Decidable (∃ moment ∈ bucket.blockedUntil, now < moment))

/-! ## An attempt -/

/-- How an attempt ends: a blocked one verifies no password. -/
inductive LoginOutcome where
  | blocked
  | refused
  | accepted (user : User)
  deriving DecidableEq

def LoginOutcome.user? : LoginOutcome → Option User
  | .accepted user => some user
  | .blocked | .refused => none

section Attempts

variable (library : LoginLibrary)

def LoginState.bucketHashes (state : LoginState) (call : LoginCall) : List Text :=
  (state.bucketNames call).map library.saltedHmac

/-- The verification, of a canonical identity and a password that is not too long. -/
def LoginState.verified (state : LoginState) (call : LoginCall) : Option User :=
  if call.password.length ≤ maxPasswordLength then
    (tryCanonicalize call.soeid).bind fun canonical =>
      library.authenticate state.users canonical (call.password.take maxPasswordLength)
  else none

/-- What follows the verification. -/
def concludeLogin (hashes : List Text) (buckets : List LoginThrottle) (now : Time) :
    Option User → LoginTx LoginOutcome
  | none => do
      registerFailure buckets now
      pure .refused
  | some user => do
      let state ← get
      set { state with
        throttles := state.throttles.keep fun bucket => bucket.bucketHash ∉ hashes
        events := ⟨"auth.login.succeeded", some user.id, none⟩ :: state.events }
      pure (.accepted user)

def attemptLogin (call : LoginCall) : LoginTx LoginOutcome := do
  let state ← get
  let hashes := state.bucketHashes library call
  let buckets ← lockThrottleBuckets call.now (sortedSet hashes)
  if ∃ bucket ∈ buckets, bucket.Blocked call.now then
    pure .blocked
  else
    concludeLogin hashes buckets call.now (state.verified library call)

def authenticateLogin (call : LoginCall) : LoginTx (Option User) := do
  let outcome ← attemptLogin library call
  pure outcome.user?

end Attempts

/-! ## Buckets as counters of failures -/

open Throttle (Bucket Visit)

def loginLimits : Throttle.Limits where
  limit := authFailureLimit
  window := authFailureWindow
  lockout := authLockoutDuration
  limit_pos := by decide
  window_pos := by decide
  lockout_pos := by decide

def LoginThrottle.bucket (row : LoginThrottle) : Bucket where
  started := row.windowStartedAt
  failures := row.failedAttempts
  blocked := row.blockedUntil

def LoginState.bucketAt (state : LoginState) (hash : Text) : Option Bucket :=
  (state.throttles.get? hash).map LoginThrottle.bucket

/-- A state that differs from another in one bucket only. -/
structure LoginState.Writes (before after : LoginState) (row : LoginThrottle) : Prop where
  users : after.users = before.users
  stored : after.throttles.get? row.bucketHash = some row
  others : ∀ hash ≠ row.bucketHash, after.throttles.get? hash = before.throttles.get? hash

section Steps

variable {before : LoginState} {now : Time} {hash : Text} {row old : LoginThrottle}

theorem LoginState.Writes.trans {middle after : LoginState} {next : LoginThrottle}
    (hfirst : before.Writes middle row) (hnext : middle.Writes after next)
    (hsame : next.bucketHash = row.bucketHash) : before.Writes after next where
  users := hnext.users.trans hfirst.users
  stored := hnext.stored
  others other hother := (hnext.others other hother).trans (hfirst.others other (hsame ▸ hother))

theorem LoginState.Writes.refl (hstored : before.throttles.get? row.bucketHash = some row) :
    before.Writes before row where
  users := rfl
  stored := hstored
  others _ _ := rfl

theorem saveThrottle_writes (hstored : before.throttles.get? row.bucketHash = some old) :
    ∃ after, (saveThrottle row).Runs before row after ∧ before.Writes after row := by
  refine ⟨{ before with throttles := before.throttles.replace row }, rfl, rfl, ?_, ?_⟩
  · exact Table.get?_replace_self hstored
  · intro other hother
    exact Table.get?_replace_of_ne (Ne.symm hother)

theorem createThrottle_writes (hfresh : before.throttles.get? row.bucketHash = none) :
    ∃ after, (createThrottle row).Runs before row after ∧ before.Writes after row := by
  obtain ⟨throttles, hcreate⟩ := Table.exists_create hfresh
  refine ⟨{ before with throttles := throttles }, ?_, rfl, ?_, ?_⟩
  · simp only [createThrottle, Transaction.runs_bind, Transaction.runs_get,
      Transaction.runs_found, Transaction.runs_set, Transaction.runs_pure]
    exact ⟨_, _, ⟨rfl, rfl⟩, _, _, ⟨hcreate, rfl⟩, ⟨⟩, _, rfl, trivial, rfl⟩
  · simp [Table.get?_of_create hcreate, Keyed.key]
  · intro other hother
    exact (Table.get?_of_create hcreate other).trans (if_neg (Ne.symm hother))

theorem getOrCreateThrottle_writes :
    ∃ row after, (getOrCreateThrottle hash now (before.throttles.get? hash)).Runs before row after ∧
      before.Writes after row ∧ row.bucketHash = hash ∧
        row.bucket = (before.bucketAt hash).getD (.opened now) := by
  unfold LoginState.bucketAt
  cases hstored : before.throttles.get? hash with
  | none =>
      obtain ⟨after, hruns, hwrites⟩ :=
        @createThrottle_writes before ⟨hash, now, 0, none⟩ hstored
      exact ⟨_, after, hruns, hwrites, rfl, rfl⟩
  | some bucket =>
      have hkey : bucket.bucketHash = hash := Table.key_of_get? hstored
      refine ⟨bucket, before, by simp [getOrCreateThrottle], .refl ?_, hkey, rfl⟩
      rw [hkey]
      exact hstored

theorem refreshThrottle_writes (hstored : before.throttles.get? row.bucketHash = some row) :
    ∃ refreshed after, (refreshThrottle now row).Runs before refreshed after ∧
      before.Writes after refreshed ∧ refreshed.bucketHash = row.bucketHash ∧
        refreshed.bucket = row.bucket.refresh loginLimits now := by
  unfold refreshThrottle Bucket.refresh
  by_cases hexpired : authFailureWindow ≤ now - row.windowStartedAt
  · rw [if_pos hexpired, if_pos (show loginLimits.window ≤ now - row.bucket.started from hexpired)]
    obtain ⟨after, hruns, hwrites⟩ := @saveThrottle_writes before
      { row with windowStartedAt := now, failedAttempts := 0, blockedUntil := none } row hstored
    exact ⟨_, after, hruns, hwrites, rfl, rfl⟩
  · rw [if_neg hexpired,
      if_neg (show ¬ loginLimits.window ≤ now - row.bucket.started from hexpired)]
    by_cases hpassed : ∃ moment ∈ row.blockedUntil, moment ≤ now
    · rw [if_pos hpassed, if_pos (show ∃ moment ∈ row.bucket.blocked, moment ≤ now from hpassed)]
      obtain ⟨after, hruns, hwrites⟩ :=
        @saveThrottle_writes before { row with blockedUntil := none } row hstored
      exact ⟨_, after, hruns, hwrites, rfl, rfl⟩
    · rw [if_neg hpassed, if_neg (show ¬ ∃ moment ∈ row.bucket.blocked, moment ≤ now from hpassed)]
      exact ⟨row, before, by simp, .refl hstored, rfl, rfl⟩

theorem lockThrottleBuckets_writes {hashes : List Text} (hnodup : hashes.Nodup) :
    ∃ buckets after, (lockThrottleBuckets now hashes).Runs before buckets after ∧
      after.users = before.users ∧ buckets.map LoginThrottle.bucketHash = hashes ∧
        (∀ row ∈ buckets, after.throttles.get? row.bucketHash = some row ∧
          ∀ failed, row.bucket =
            Visit.finds loginLimits ⟨now, failed⟩ (before.bucketAt row.bucketHash)) ∧
          ∀ hash ∉ hashes, after.throttles.get? hash = before.throttles.get? hash := by
  induction hashes generalizing before with
  | nil => exact ⟨[], before, by simp [lockThrottleBuckets]⟩
  | cons hash rest ih =>
      obtain ⟨hfresh, hrest⟩ := List.nodup_cons.mp hnodup
      obtain ⟨created, middle, hcreate, hcreated, hhash, hbucket⟩ :=
        @getOrCreateThrottle_writes before now hash
      obtain ⟨refreshed, next, hrefresh, hrefreshed, hsame, hvalue⟩ :=
        @refreshThrottle_writes middle now created hcreated.stored
      have hwrites := hcreated.trans hrefreshed hsame
      have hkey : refreshed.bucketHash = hash := hsame.trans hhash
      obtain ⟨buckets, after, hruns, husers, hkeys, hlocked, hothers⟩ := @ih next hrest
      refine ⟨refreshed :: buckets, after, ?_, husers.trans hwrites.users, ?_, ?_, ?_⟩
      · simp only [lockThrottleBuckets, Transaction.runs_bind, Transaction.runs_get,
          Transaction.runs_pure]
        exact ⟨_, _, ⟨rfl, rfl⟩, _, _, hcreate, _, _, hrefresh, _, _, hruns, rfl, rfl⟩
      · rw [List.map_cons, hkeys, hkey]
      · intro row hrow
        obtain hhead | htail := List.mem_cons.mp hrow
        · subst hhead
          rw [hkey, hothers hash hfresh, ← hkey]
          refine ⟨hwrites.stored, fun _ => ?_⟩
          rw [hvalue, hbucket, hkey]
          rfl
        · obtain ⟨hstored, hfinds⟩ := hlocked row htail
          refine ⟨hstored, fun failed => (hfinds failed).trans ?_⟩
          have hmem : row.bucketHash ∈ rest := hkeys ▸ List.mem_map_of_mem htail
          have hother : row.bucketHash ≠ refreshed.bucketHash := by
            rintro heq
            exact hfresh (hkey ▸ heq ▸ hmem)
          rw [LoginState.bucketAt, LoginState.bucketAt, hwrites.others _ hother]
      · intro other hother
        obtain ⟨hne, hnot⟩ := not_or.mp (fun hmem => hother (List.mem_cons.mpr hmem))
        rw [hothers other hnot, hwrites.others other (by rw [hkey]; exact hne)]

theorem registerFailure_writes {buckets : List LoginThrottle}
    (hnodup : (buckets.map LoginThrottle.bucketHash).Nodup)
    (hstored : ∀ row ∈ buckets, before.throttles.get? row.bucketHash = some row) :
    ∃ after, (registerFailure buckets now).Runs before ⟨⟩ after ∧ after.users = before.users ∧
      (∀ row ∈ buckets, after.throttles.get? row.bucketHash = some (row.registered now)) ∧
        ∀ hash ∉ buckets.map LoginThrottle.bucketHash,
          after.throttles.get? hash = before.throttles.get? hash := by
  induction buckets generalizing before with
  | nil => exact ⟨before, by simp [registerFailure]⟩
  | cons row rest ih =>
      obtain ⟨hfresh, hrest⟩ := List.nodup_cons.mp hnodup
      obtain ⟨middle, hsave, hwrites⟩ :=
        @saveThrottle_writes before (row.registered now) row (hstored row List.mem_cons_self)
      have hkey : (row.registered now).bucketHash = row.bucketHash := rfl
      have hkept : ∀ other ∈ rest, middle.throttles.get? other.bucketHash = some other := by
        intro other hother
        have hne : other.bucketHash ≠ (row.registered now).bucketHash := by
          intro heq
          exact hfresh (hkey ▸ heq ▸ List.mem_map_of_mem hother)
        rw [hwrites.others _ hne]
        exact hstored other (List.mem_cons_of_mem _ hother)
      obtain ⟨after, hruns, husers, hregistered, hothers⟩ := ih hrest hkept
      refine ⟨after, ?_, husers.trans hwrites.users, ?_, ?_⟩
      · simp only [registerFailure, Transaction.runs_forEach_cons, Transaction.runs_bind,
          Transaction.runs_pure]
        exact ⟨middle, ⟨_, _, hsave, trivial, rfl⟩, hruns⟩
      · intro other hother
        obtain hhead | htail := List.mem_cons.mp hother
        · subst hhead
          rw [hothers _ hfresh]
          exact hwrites.stored
        · exact hregistered other htail
      · intro hash hnot
        rw [List.map_cons] at hnot
        obtain ⟨hne, hnot⟩ := not_or.mp (fun hmem => hnot (List.mem_cons.mpr hmem))
        rw [hothers hash hnot, hwrites.others hash hne]

theorem LoginThrottle.bucket_registered :
    (row.registered now).bucket = row.bucket.register loginLimits now :=
  rfl

theorem mem_sortedSet {hashes : List Text} : hash ∈ sortedSet hashes ↔ hash ∈ hashes := by
  rw [sortedSet, List.mem_insertionSort, List.mem_dedup]

theorem nodup_sortedSet {hashes : List Text} : (sortedSet hashes).Nodup :=
  (List.perm_insertionSort _ _).nodup_iff.mpr hashes.nodup_dedup

end Steps

section Attempts

variable {library : LoginLibrary} {before : LoginState} {call : LoginCall}

/-- What an attempt does to the buckets. -/
structure Attempted (library : LoginLibrary) (before : LoginState) (call : LoginCall)
    (outcome : LoginOutcome) (after : LoginState) : Prop where
  users : after.users = before.users
  others : ∀ hash ∉ before.bucketHashes library call,
    after.throttles.get? hash = before.throttles.get? hash
  visited : outcome.user? = none → ∀ hash ∈ before.bucketHashes library call,
    after.bucketAt hash = some (Visit.leaves loginLimits
      ⟨call.now, decide (outcome = .refused)⟩ (before.bucketAt hash))
  permitted : outcome = .refused → ∀ hash ∈ before.bucketHashes library call,
    ¬ (Visit.finds loginLimits ⟨call.now, true⟩ (before.bucketAt hash)).Closed call.now
  verified : ∀ user, outcome = .accepted user → before.verified library call = some user
  cleared : ∀ user, outcome = .accepted user → ∀ hash ∈ before.bucketHashes library call,
    after.throttles.get? hash = none

theorem attemptLogin_attempted :
    ∃ outcome after, (attemptLogin library call).Runs before outcome after ∧
      Attempted library before call outcome after := by
  obtain ⟨buckets, middle, hlock, husers, hkeys, hlocked, hothers⟩ :=
    @lockThrottleBuckets_writes before call.now _
      (@nodup_sortedSet (before.bucketHashes library call))
  have hlisted : ∀ hash ∈ before.bucketHashes library call,
      ∃ row ∈ buckets, row.bucketHash = hash := by
    intro hash hmem
    rw [← mem_sortedSet, ← hkeys] at hmem
    exact List.mem_map.mp hmem
  have hkept : ∀ hash ∉ before.bucketHashes library call,
      middle.throttles.get? hash = before.throttles.get? hash := by
    intro hash hnot
    exact hothers hash (fun hmem => hnot (mem_sortedSet.mp hmem))
  by_cases hblocked : ∃ bucket ∈ buckets, bucket.Blocked call.now
  · refine ⟨.blocked, middle, ?_, husers, hkept, fun _ hash hmem => ?_, fun h => ?_,
      fun _ h => ?_, fun _ h => ?_⟩
    · simp only [attemptLogin, Transaction.runs_bind, Transaction.runs_get, Transaction.runs_ite,
        Transaction.runs_pure]
      exact ⟨_, _, ⟨rfl, rfl⟩, _, _, hlock, .inl ⟨hblocked, trivial, rfl⟩⟩
    · obtain ⟨row, hrow, rfl⟩ := hlisted hash hmem
      obtain ⟨hstored, hfinds⟩ := hlocked row hrow
      rw [LoginState.bucketAt, hstored, Option.map_some, hfinds false]
      rfl
    · cases h
    · cases h
    · cases h
  · have hopen : ∀ hash ∈ before.bucketHashes library call,
        ¬ (Visit.finds loginLimits ⟨call.now, true⟩ (before.bucketAt hash)).Closed call.now := by
      intro hash hmem hclosed
      obtain ⟨row, hrow, rfl⟩ := hlisted hash hmem
      rw [← (hlocked row hrow).2 true] at hclosed
      exact hblocked ⟨row, hrow, hclosed⟩
    cases hverified : before.verified library call with
    | none =>
        obtain ⟨after, hregister, hsame, hregistered, hrest⟩ :=
          @registerFailure_writes middle call.now buckets (hkeys ▸ nodup_sortedSet)
            (fun row hrow => (hlocked row hrow).1)
        refine ⟨.refused, after, ?_, hsame.trans husers, ?_, fun _ hash hmem => ?_, fun _ => hopen,
          fun _ h => ?_, fun _ h => ?_⟩
        · simp only [attemptLogin, Transaction.runs_bind, Transaction.runs_get,
            Transaction.runs_ite]
          refine ⟨_, _, ⟨rfl, rfl⟩, _, _, hlock, .inr ⟨hblocked, ?_⟩⟩
          rw [hverified]
          simp only [concludeLogin, Transaction.runs_bind, Transaction.runs_pure]
          exact ⟨_, _, hregister, trivial, rfl⟩
        · intro hash hnot
          have hnotKey : hash ∉ buckets.map LoginThrottle.bucketHash := by
            rw [hkeys, mem_sortedSet]
            exact hnot
          rw [hrest hash hnotKey, hkept hash hnot]
        · obtain ⟨row, hrow, rfl⟩ := hlisted hash hmem
          rw [LoginState.bucketAt, hregistered row hrow, Option.map_some,
            LoginThrottle.bucket_registered, (hlocked row hrow).2 true]
          rfl
        · cases h
        · cases h
    | some user =>
        refine ⟨.accepted user, { middle with
          throttles := middle.throttles.keep fun bucket =>
            bucket.bucketHash ∉ before.bucketHashes library call
          events := ⟨"auth.login.succeeded", some user.id, none⟩ :: middle.events }, ?_, husers,
          ?_, fun h => ?_, fun h => ?_, fun other h => ?_, fun other h hash hmem => ?_⟩
        · simp only [attemptLogin, Transaction.runs_bind, Transaction.runs_get,
            Transaction.runs_ite]
          refine ⟨_, _, ⟨rfl, rfl⟩, _, _, hlock, .inr ⟨hblocked, ?_⟩⟩
          rw [hverified]
          simp only [concludeLogin, Transaction.runs_bind, Transaction.runs_get,
            Transaction.runs_set, Transaction.runs_pure]
          exact ⟨_, _, ⟨rfl, rfl⟩, ⟨⟩, _, rfl, trivial, rfl⟩
        · intro hash hnot
          have hfilter : ((middle.throttles.get? hash).filter fun bucket =>
              decide (bucket.bucketHash ∉ before.bucketHashes library call)) =
                middle.throttles.get? hash := by
            cases hget : middle.throttles.get? hash with
            | none => rfl
            | some row =>
                have hkey : row.bucketHash = hash := Table.key_of_get? hget
                simp [Option.filter, hkey, hnot]
          rw [Table.get?_keep, hfilter, hkept hash hnot]
        · cases h
        · cases h
        · cases h
          exact hverified
        · rw [Table.get?_keep]
          cases hget : middle.throttles.get? hash with
          | none => rfl
          | some row =>
              have hkey : row.bucketHash = hash := Table.key_of_get? hget
              simp [Option.filter, hkey, hmem]

end Attempts

end Agora
