import Agora.PasswordGuessBound
import Agora.TransitionSystem

/-!
# Sign-ins, statement by statement

The transaction of a sign-in fetches or creates each throttle row, locks it, and saves or
deletes the rows at the end.  Another sign-in may commit between any two of its statements.
A row that is locked or not yet committed makes others wait; a statement that finds no row
raises.
-/

namespace Agora

/-- A stored throttle with its primary key. -/
structure ThrottleRow where
  id : ℕ
  bucket : LoginThrottle
  deriving DecidableEq

def ThrottleRow.hash (row : ThrottleRow) : Text :=
  row.bucket.bucketHash

/-- The next statement of a sign-in.  `locking` has fetched the row of an identifier, and
`refetching` was refused its insertion. -/
inductive SignInPhase where
  | fetching
  | inserting
  | refetching
  | locking (id : ℕ)
  | refreshing (id : ℕ)
  | verifying
  | registering (rows : List ThrottleRow)
  | deleting (user : User)
  | deleted (user : User) (ids : List ℕ)
  | returned (user : Option User)
  | raised
  deriving DecidableEq

/-- The rows that a transaction has locked or inserted, with its own values, and the buckets
that it has yet to lock. -/
structure SignInSession where
  call : LoginCall
  hashes : List Text
  pending : List Text
  held : List ThrottleRow
  phase : SignInPhase

/-- The rows as the transaction reads them. -/
def SignInSession.visible (session : SignInSession) (committed : List ThrottleRow) :
    List ThrottleRow :=
  session.held ++ committed.filter fun row => row.id ∉ session.held.map ThrottleRow.id

def SignInSession.holdsId (session : SignInSession) (id : ℕ) : Bool :=
  session.held.any fun row => row.id = id

def SignInSession.holdsHash (session : SignInSession) (hash : Text) : Bool :=
  session.held.any fun row => row.hash = hash

/-- The rows of the transaction with another value of one of them. -/
def SignInSession.saved (session : SignInSession) (saved : ThrottleRow) : List ThrottleRow :=
  session.held.map fun row => if row.id = saved.id then saved else row

/-- After the statements on one bucket, the loop goes on with the next one. -/
def SignInSession.looped (session : SignInSession) : SignInPhase :=
  if session.pending = [] then .verifying else .fetching

def SignInPhase.isDeleted : SignInPhase → Bool
  | .deleted _ _ => true
  | _ => false

def SignInPhase.ended : SignInPhase → Bool
  | .returned _ => true
  | .raised => true
  | _ => false

/-- The committed throttles and the transactions; the numbers from `count` on are unused. -/
structure SignInState where
  users : Table User
  committed : List ThrottleRow
  events : List IdentityEvent
  nextId : ℕ
  count : ℕ
  sessions : ℕ → Option SignInSession

/-- The value of a throttle that `_lock_throttle_buckets` saves, if it saves one. -/
def LoginThrottle.refreshed (now : Time) (bucket : LoginThrottle) : Option LoginThrottle :=
  if authFailureWindow ≤ now - bucket.windowStartedAt then
    some { bucket with windowStartedAt := now, failedAttempts := 0, blockedUntil := none }
  else if ∃ moment ∈ bucket.blockedUntil, moment ≤ now then
    some { bucket with blockedUntil := none }
  else none

section Attempts

variable (library : LoginLibrary) (users : Table User) (call : LoginCall)

/-- `bucket_hashes`, with the bucket of the account where the attempt names one. -/
def LoginLibrary.bucketHashes : List Text :=
  let known := (tryCanonicalize call.soeid).bind fun canonical =>
    (users.where? fun user => user.soeid = canonical).head?
  let names := ipBucketName call.remoteAddress ::
    (known.map fun user => userBucketName user.id).toList
  names.map library.saltedHmac

/-- The account of the submitted identity and password. -/
def LoginLibrary.verified : Option User :=
  if call.password.length ≤ maxPasswordLength then
    (tryCanonicalize call.soeid).bind fun canonical =>
      library.authenticate users canonical (call.password.take maxPasswordLength)
  else none

end Attempts

namespace SignInState

def enter (state : SignInState) (index : ℕ) (session : SignInSession) : SignInState :=
  { state with sessions := Function.update state.sessions index (some session) }

@[simp] theorem enter_self {state : SignInState} {index : ℕ} {session : SignInSession} :
    (state.enter index session).sessions index = some session :=
  Function.update_self ..

theorem enter_of_ne {state : SignInState} {index other : ℕ} {session : SignInSession}
    (hne : other ≠ index) : (state.enter index session).sessions other = state.sessions other :=
  Function.update_of_ne hne ..

/-- The transaction ends and keeps nothing locked. -/
def close (state : SignInState) (index : ℕ) (session : SignInSession) (phase : SignInPhase) :
    SignInState :=
  state.enter index { session with pending := [], held := [], phase := phase }

/-- The committed rows after a commit that deletes some of the held ones. -/
def afterCommit (state : SignInState) (session : SignInSession) (deleted : List ℕ) :
    List ThrottleRow :=
  (session.visible state.committed).filter fun row => row.id ∉ deleted

/-- A successful sign-in commits an event with its rows. -/
def commit (state : SignInState) (index : ℕ) (session : SignInSession) (deleted : List ℕ)
    (user : Option User) : SignInState :=
  let committed : SignInState := { state with
    committed := state.afterCommit session deleted
    events := match user with
      | none => state.events
      | some user => ⟨"auth.login.succeeded", some user.id, none⟩ :: state.events }
  committed.close index session (.returned user)

/-- Some other transaction meets a condition. -/
def others (state : SignInState) (index : ℕ) (condition : SignInSession → Bool) : Bool :=
  (List.range state.count).any fun other =>
    decide (other ≠ index) && (state.sessions other).any condition

/-- An insertion waits for a transaction that has a row of the same hash inserted or deleted. -/
def blocksInsert (state : SignInState) (hash : Text) (session : SignInSession) : Bool :=
  session.holdsHash hash &&
    (session.phase.isDeleted || !state.committed.any fun row => row.hash = hash)

section Statements

variable (library : LoginLibrary) (state : SignInState) (index : ℕ) (session : SignInSession)

/-- `get` of `get_or_create`. -/
def fetch (hash : Text) : SignInState :=
  match (session.visible state.committed).find? fun row => row.hash = hash with
  | some row => state.enter index { session with phase := .locking row.id }
  | none => state.enter index { session with phase := .inserting }

/-- `get` after a refused insertion; the refusal is raised again where it finds no row. -/
def refetch (hash : Text) : SignInState :=
  match (session.visible state.committed).find? fun row => row.hash = hash with
  | some row => state.enter index { session with phase := .locking row.id }
  | none => state.close index session .raised

/-- `create` of `get_or_create`. -/
def insert (hash : Text) : Option SignInState :=
  if state.others index (state.blocksInsert hash) = true then none
  else if (session.visible state.committed).any (fun row => row.hash = hash) = true then
    some (state.enter index { session with phase := .refetching })
  else
    let created : ThrottleRow := ⟨state.nextId, ⟨hash, session.call.now, 0, none⟩⟩
    let counted : SignInState := { state with nextId := state.nextId + 1 }
    some (counted.enter index
      { session with held := session.held ++ [created], phase := .locking state.nextId })

/-- `select_for_update().get(id=...)`. -/
def lock (id : ℕ) : Option SignInState :=
  if state.others index (fun other => other.holdsId id) = true then none
  else
    match (session.visible state.committed).find? fun row => row.id = id with
    | none => some (state.close index session .raised)
    | some row =>
        some (state.enter index
          { session with
            pending := session.pending.tail
            held := if session.holdsId id = true then session.held else session.held ++ [row]
            phase := .refreshing id })

/-- `save(update_fields=...)` of a throttle, which raises where it updates no row. -/
def save (row : ThrottleRow) (next : SignInPhase) : SignInState :=
  if (session.visible state.committed).any (fun other => other.id = row.id) = true then
    state.enter index { session with held := session.saved row, phase := next }
  else state.close index session .raised

/-- The statements of `_lock_throttle_buckets` on a locked row. -/
def refresh (id : ℕ) : SignInState :=
  match session.held.find? fun row => row.id = id with
  | none => state.close index session .raised
  | some row =>
      match row.bucket.refreshed session.call.now with
      | none => state.enter index { session with phase := session.looped }
      | some bucket => state.save index session ⟨row.id, bucket⟩ session.looped

/-- The verification, which a blocked bucket forestalls. -/
def verify : SignInState :=
  if ∃ row ∈ session.held, row.bucket.Blocked session.call.now then
    state.commit index session [] none
  else
    match library.verified state.users session.call with
    | none => state.enter index { session with phase := .registering session.held }
    | some user => state.enter index { session with phase := .deleting user }

/-- The rows of `filter(bucket_hash__in=bucket_hashes)`. -/
def ownRows : List ThrottleRow :=
  (session.visible state.committed).filter fun row => row.hash ∈ session.hashes

/-- The deletion of the buckets of a successful sign-in. -/
def delete (user : User) : Option SignInState :=
  if state.others index (fun other =>
      (state.ownRows session).any fun row => other.holdsId row.id) = true then none
  else
    some (state.enter index
      { session with phase := .deleted user ((state.ownRows session).map ThrottleRow.id) })

end Statements

/-- The next statement of a transaction; none while it waits and after it has ended. -/
def advance (library : LoginLibrary) (state : SignInState) (index : ℕ) : Option SignInState := do
  let session ← state.sessions index
  match session.phase, session.pending with
  | .fetching, hash :: _ => some (state.fetch index session hash)
  | .inserting, hash :: _ => state.insert index session hash
  | .refetching, hash :: _ => some (state.refetch index session hash)
  | .locking id, _ => state.lock index session id
  | .refreshing id, _ => some (state.refresh index session id)
  | .verifying, _ => some (state.verify library index session)
  | .registering [], _ => some (state.commit index session [] none)
  | .registering (row :: rest), _ =>
      some (state.save index session ⟨row.id, row.bucket.registered session.call.now⟩
        (.registering rest))
  | .deleting user, _ => state.delete index session user
  | .deleted user ids, _ => some (state.commit index session ids (some user))
  | _, _ => none

/-- A sign-in starts with the query for the account that it names. -/
def begin (library : LoginLibrary) (state : SignInState) (call : LoginCall) : SignInState :=
  let hashes := sortedSet (library.bucketHashes state.users call)
  let counted : SignInState := { state with count := state.count + 1 }
  counted.enter state.count ⟨call, hashes, hashes, [], .fetching⟩

/-- The process of an unfinished transaction dies, and the transaction is rolled back. -/
def crash (state : SignInState) (index : ℕ) : SignInState :=
  { state with sessions := Function.update state.sessions index none }

end SignInState

inductive SignInEvent where
  | begin (call : LoginCall)
  | advance (index : ℕ)
  | crash (index : ℕ)

/-- Any number of sign-ins over unique throttle rows. -/
def signInSystem (library : LoginLibrary) : TransitionSystem SignInState SignInEvent where
  initial state := (state.committed.map ThrottleRow.id).Nodup ∧
    (state.committed.map ThrottleRow.hash).Nodup ∧
    (∀ row ∈ state.committed, row.id < state.nextId) ∧
      ∀ index, state.sessions index = none
  step before event after :=
    match event with
    | .begin call => after = before.begin library call
    | .advance index => before.advance library index = some after
    | .crash index => after = before.crash index ∧
        ∃ session, before.sessions index = some session ∧ session.phase.ended = false

/-! ## Running events -/

/-- The state after these events, where each of them is possible. -/
def SignInState.after? (library : LoginLibrary) (state : SignInState) :
    List SignInEvent → Option SignInState
  | [] => some state
  | .begin call :: rest => (state.begin library call).after? library rest
  | .advance index :: rest =>
      (state.advance library index).bind fun next => next.after? library rest
  | .crash index :: rest =>
      if (state.sessions index).any (fun session => !session.phase.ended) = true then
        (state.crash index).after? library rest
      else none

theorem SignInState.path_of_after? {library : LoginLibrary} {events : List SignInEvent}
    {state last : SignInState} (hafter : state.after? library events = some last) :
    (signInSystem library).Path state events last := by
  induction events generalizing state with
  | nil =>
      rw [SignInState.after?, Option.some.injEq] at hafter
      rw [hafter]
      exact .refl last
  | cons event rest ih =>
      cases event with
      | begin call =>
          have hstep : (signInSystem library).step state (.begin call)
              (state.begin library call) := rfl
          exact .cons hstep (ih hafter)
      | advance index =>
          obtain ⟨next, hnext, hrest⟩ := Option.bind_eq_some_iff.mp hafter
          have hstep : (signInSystem library).step state (.advance index) next := hnext
          exact .cons hstep (ih hrest)
      | crash index =>
          rw [SignInState.after?] at hafter
          split at hafter
          · rename_i hany
            obtain ⟨session, hsession, hopen⟩ := (Option.any_eq_true _ _).mp hany
            rw [Bool.not_eq_true'] at hopen
            have hstep : (signInSystem library).step state (.crash index) (state.crash index) :=
              ⟨rfl, session, hsession, hopen⟩
            exact .cons hstep (ih hafter)
          · cases hafter

/-- One account and no throttles yet. -/
def sampleSignIns : SignInState where
  users := sampleStart.users
  committed := []
  events := []
  nextId := 0
  count := 0
  sessions := fun _ => none

theorem sampleSignIns_initial : (signInSystem sampleLogin).initial sampleSignIns :=
  ⟨List.nodup_nil, List.nodup_nil, fun _ hrow => absurd hrow List.not_mem_nil, fun _ => rfl⟩

/-- The right password from one address and a wrong one for the same account from another.  The
second sign-in waits for the row of the account, which the first has inserted. -/
def contendingSignIns : List SignInEvent :=
  [.begin { wrongLogin 0 with password := "right".toList },
    .begin { wrongLogin 0 with remoteAddr := some "192.0.2.2".toList }] ++
      List.replicate 8 (.advance 0) ++ List.replicate 5 (.advance 1)

/-- The statements that end both of them. -/
def contendingStatements : List ℕ :=
  [0, 0, 0] ++ List.replicate 7 1

end Agora
