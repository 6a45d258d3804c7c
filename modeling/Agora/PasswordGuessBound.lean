import Agora.LoginThrottling

/-!
# Password guesses for one account

Over a run of attempts the bucket of an account makes the visits of the attempts
that name the account, as long as none of them is accepted.  The bound on the
failures of one window is the bound of `FailureWindows`.
-/

namespace Agora

open Throttle (Bucket Visit)

section Runs

variable (library : LoginLibrary)

/-! ## Runs of attempts -/

def LoginCall.after (call : LoginCall) (state : LoginState) : LoginState :=
  (authenticateLogin library call).settle state

def runLogins (state : LoginState) (calls : List LoginCall) : LoginState :=
  calls.foldl (fun current call => call.after library current) state

/-- The attempt gets past the buckets, names the account and is refused. -/
def LoginCall.FailsFor (call : LoginCall) (state : LoginState) (account : User) : Prop :=
  state.knownUser call = some account ∧
    (attemptLogin library call).value? state = some .refused

instance (call : LoginCall) (state : LoginState) (account : User) :
    Decidable (call.FailsFor library state account) :=
  inferInstanceAs (Decidable (_ ∧ _))

/-- The failed verifications for an account within the window with this start. -/
def verificationFailures (account : User) (window : Time) : LoginState → List LoginCall → ℕ
  | _, [] => 0
  | state, call :: rest =>
      verificationFailures account window (call.after library state) rest +
        if call.FailsFor library state account ∧
          window ≤ call.now ∧ call.now < window + authFailureWindow then 1 else 0

/-- No attempt of the run signs the account in. -/
def NeverSignsIn (account : User) (state : LoginState) (calls : List LoginCall) : Prop :=
  ∀ earlier call later, calls = earlier ++ call :: later → ∀ user,
    (authenticateLogin library call).value? (runLogins library state earlier) =
      some (some user) → user.id ≠ account.id

def accountBucketHash (account : User) : Text :=
  library.saltedHmac (userBucketName account.id)

/-- The backends return only the stored user of the identity that they are given. -/
def LoginLibrary.ReturnsNamed : Prop :=
  ∀ users soeid password user, library.authenticate users soeid password = some user →
    user ∈ users ∧ user.soeid = soeid

/-- Among the names of an attempt none other than the account's has its hash. -/
def LoginState.NoCollision (state : LoginState) (account : User) (call : LoginCall) : Prop :=
  ∀ name ∈ state.bucketNames call,
    library.saltedHmac name = accountBucketHash library account →
      name = userBucketName account.id

end Runs

section Attempts

variable {library : LoginLibrary} {state after : LoginState} {call : LoginCall}
  {outcome : LoginOutcome} {account : User}

/-! ## One attempt -/

theorem authenticateLogin_runs (hruns : (attemptLogin library call).Runs state outcome after) :
    (authenticateLogin library call).Runs state outcome.user? after := by
  simp only [authenticateLogin, Transaction.runs_bind, Transaction.runs_pure]
  exact ⟨outcome, after, hruns, rfl, rfl⟩

/-- Every attempt ends in one of the outcomes. -/
theorem LoginCall.attempted (library : LoginLibrary) (call : LoginCall) (state : LoginState) :
    ∃ outcome, (attemptLogin library call).value? state = some outcome ∧
      (authenticateLogin library call).value? state = some outcome.user? ∧
        Attempted library state call outcome (call.after library state) := by
  obtain ⟨outcome, after, hruns, hattempted⟩ := @attemptLogin_attempted library state call
  have hauthenticates := authenticateLogin_runs hruns
  refine ⟨outcome, Transaction.value?_of_runs hruns, Transaction.value?_of_runs hauthenticates, ?_⟩
  rw [LoginCall.after, Transaction.settle_of_runs hauthenticates]
  exact hattempted

theorem userBucketName_injective {first second : Uuid} (hfirst : first < 2 ^ 128)
    (hsecond : second < 2 ^ 128) (hsame : userBucketName first = userBucketName second) :
    first = second := by
  have htext : UuidValue.toText (Fin.ofNat (2 ^ 128) first) =
      UuidValue.toText (Fin.ofNat (2 ^ 128) second) := by
    simpa [userBucketName, bucketName] using hsame
  have hvalue := congrArg UuidValue.parse htext
  rw [UuidValue.parse_toText, UuidValue.parse_toText, Option.some.injEq, Fin.ext_iff] at hvalue
  have hremainder : first % 2 ^ 128 = second % 2 ^ 128 := hvalue
  rwa [Nat.mod_eq_of_lt hfirst, Nat.mod_eq_of_lt hsecond] at hremainder

theorem ipBucketName_ne {address : Text} {id : Uuid} :
    ipBucketName address ≠ userBucketName id := by
  intro hsame
  have hhead := congrArg List.head? hsame
  simp [ipBucketName, userBucketName, bucketName] at hhead

theorem LoginState.knownUser_mem (hknown : state.knownUser call = some account) :
    account ∈ state.users ∧ tryCanonicalize call.soeid = some account.soeid := by
  obtain ⟨canonical, hcanonical, hhead⟩ := Option.bind_eq_some_iff.mp hknown
  have hmem := List.mem_of_mem_head? hhead
  rw [Table.mem_where?_iff] at hmem
  obtain ⟨hstored, hsoeid⟩ := hmem
  rw [decide_eq_true_eq] at hsoeid
  exact ⟨hstored, by rw [hcanonical, hsoeid]⟩

theorem LoginState.eq_of_soeid {first second : User} (hfirst : first ∈ state.users)
    (hsecond : second ∈ state.users) (hsame : first.soeid = second.soeid) : first = second :=
  List.inj_on_of_nodup_map state.soeids hfirst hsecond hsame

/-- The account's bucket belongs to an attempt exactly when the attempt names the account. -/
theorem LoginState.accountBucketHash_mem (haccount : account ∈ state.users)
    (hcollision : state.NoCollision library account call) :
    accountBucketHash library account ∈ state.bucketHashes library call ↔
      state.knownUser call = some account := by
  constructor
  · intro hmem
    obtain ⟨name, hname, hhash⟩ := List.mem_map.mp hmem
    have hsame := hcollision name hname hhash
    obtain hip | huser := List.mem_cons.mp hname
    · exact absurd (hip.symm.trans hsame) ipBucketName_ne
    · rw [Option.mem_toList, Option.map_eq_some_iff] at huser
      obtain ⟨known, hknown, rfl⟩ := huser
      have hstored := (LoginState.knownUser_mem hknown).1
      have hid := userBucketName_injective (state.uuids known hstored)
        (state.uuids account haccount) hsame
      rw [hknown, Table.eq_of_key_eq hstored haccount hid]
  · intro hknown
    apply List.mem_map_of_mem
    simp [LoginState.bucketNames, hknown]

/-- An attempt that names another account, or none, does not touch the bucket. -/
theorem LoginCall.bucket_unchanged (haccount : account ∈ state.users)
    (hcollision : state.NoCollision library account call)
    (hother : state.knownUser call ≠ some account) :
    (call.after library state).throttles.get? (accountBucketHash library account) =
      state.throttles.get? (accountBucketHash library account) := by
  obtain ⟨outcome, -, -, hattempted⟩ := call.attempted library state
  apply hattempted.others
  rw [LoginState.accountBucketHash_mem haccount hcollision]
  exact hother

/-- The visit of an attempt. -/
def LoginCall.visit (library : LoginLibrary) (call : LoginCall) (state : LoginState) : Visit where
  now := call.now
  failed := decide ((attemptLogin library call).value? state = some .refused)

/-- An attempt that names the account and does not sign it in visits its bucket. -/
theorem LoginCall.bucket_visited (haccount : account ∈ state.users)
    (hlibrary : library.ReturnsNamed) (hcollision : state.NoCollision library account call)
    (hnames : state.knownUser call = some account)
    (hnever : ∀ user, (authenticateLogin library call).value? state = some (some user) →
      user.id ≠ account.id) :
    (call.after library state).bucketAt (accountBucketHash library account) =
        some ((call.visit library state).leaves loginLimits
          (state.bucketAt (accountBucketHash library account))) ∧
      ((call.visit library state).failed = true →
        ¬ ((call.visit library state).finds loginLimits
          (state.bucketAt (accountBucketHash library account))).Closed call.now) := by
  obtain ⟨outcome, hvalue, hauthenticates, hattempted⟩ := call.attempted library state
  have hmem := (LoginState.accountBucketHash_mem haccount hcollision).mpr hnames
  have hrefused : (call.visit library state).failed = decide (outcome = .refused) := by
    simp [LoginCall.visit, hvalue]
  have hvisit : call.visit library state = ⟨call.now, decide (outcome = .refused)⟩ := by
    rw [← hrefused]
    rfl
  have hnone : outcome.user? = none := by
    cases outcome with
    | blocked => rfl
    | refused => rfl
    | accepted user =>
        have hverified := hattempted.verified user rfl
        have hreturned : user = account := by
          unfold LoginState.verified at hverified
          split at hverified
          · obtain ⟨canonical, hcanonical, hreturn⟩ := Option.bind_eq_some_iff.mp hverified
            obtain ⟨hstored, hsoeid⟩ := hlibrary _ _ _ _ hreturn
            have hnamed := (LoginState.knownUser_mem hnames).2
            apply LoginState.eq_of_soeid hstored haccount
            rw [hsoeid]
            exact Option.some.inj (hcanonical.symm.trans hnamed)
          · cases hverified
        exact absurd (congrArg User.id hreturned) (hnever user hauthenticates)
  refine ⟨?_, ?_⟩
  · rw [hattempted.visited hnone _ hmem, hvisit]
  · intro hfailed
    rw [hrefused, decide_eq_true_eq] at hfailed
    rw [hvisit, hfailed]
    exact hattempted.permitted hfailed _ hmem

end Attempts

section Histories

variable {library : LoginLibrary} {state : LoginState} {calls : List LoginCall} {account : User}
  {last window : Time}

/-! ## Runs as visits of a bucket -/

/-- The visits of a run to the bucket of an account. -/
def accountVisits (library : LoginLibrary) (account : User) :
    LoginState → List LoginCall → List Visit
  | _, [] => []
  | state, call :: rest =>
      if state.knownUser call = some account then
        call.visit library state :: accountVisits library account (call.after library state) rest
      else accountVisits library account (call.after library state) rest

theorem accountVisits_cons {call : LoginCall} :
    accountVisits library account state (call :: calls) =
      if state.knownUser call = some account then
        call.visit library state :: accountVisits library account (call.after library state) calls
      else accountVisits library account (call.after library state) calls :=
  rfl

theorem LoginCall.after_users (library : LoginLibrary) (call : LoginCall) (state : LoginState) :
    (call.after library state).users = state.users := by
  obtain ⟨outcome, -, -, hattempted⟩ := call.attempted library state
  exact hattempted.users

theorem runLogins_users : (runLogins library state calls).users = state.users := by
  induction calls generalizing state with
  | nil => rfl
  | cons call rest ih => exact ih.trans (call.after_users library state)

/-- The conditions on a segment of a run. -/
structure Guesses (library : LoginLibrary) (account : User) (state : LoginState)
    (calls : List LoginCall) : Prop where
  stored : account ∈ state.users
  returnsNamed : library.ReturnsNamed
  noCollision : ∀ call ∈ calls, state.NoCollision library account call
  never : NeverSignsIn library account state calls

theorem LoginState.knownUser_congr {other : LoginState} (husers : other.users = state.users)
    (call : LoginCall) : other.knownUser call = state.knownUser call := by
  rw [LoginState.knownUser, LoginState.knownUser, husers]

theorem LoginState.NoCollision.congr {other : LoginState} {call : LoginCall}
    (husers : other.users = state.users) (hcollision : state.NoCollision library account call) :
    other.NoCollision library account call := by
  unfold LoginState.NoCollision LoginState.bucketNames at hcollision ⊢
  rwa [LoginState.knownUser_congr husers]

theorem Guesses.rest {call : LoginCall} (hguesses : Guesses library account state (call :: calls)) :
    Guesses library account (call.after library state) calls where
  stored := by
    rw [call.after_users]
    exact hguesses.stored
  returnsNamed := hguesses.returnsNamed
  noCollision other hother :=
    (hguesses.noCollision other (List.mem_cons_of_mem _ hother)).congr
      (call.after_users library state)
  never earlier other later hsplit :=
    hguesses.never (call :: earlier) other later (by rw [hsplit, List.cons_append])

theorem Guesses.first {call : LoginCall} (hguesses : Guesses library account state (call :: calls))
    (user : User) (haccepted : (authenticateLogin library call).value? state = some (some user)) :
    user.id ≠ account.id :=
  hguesses.never [] call calls rfl user haccepted

theorem accountVisits_permitted (hguesses : Guesses library account state calls) :
    Throttle.Permitted loginLimits (state.bucketAt (accountBucketHash library account))
      (accountVisits library account state calls) := by
  induction calls generalizing state with
  | nil => trivial
  | cons call rest ih =>
      have hcollision := hguesses.noCollision call List.mem_cons_self
      have hrest := ih hguesses.rest
      rw [accountVisits_cons]
      by_cases hnames : state.knownUser call = some account
      · rw [if_pos hnames]
        obtain ⟨hvisited, hpermitted⟩ := LoginCall.bucket_visited hguesses.stored
          hguesses.returnsNamed hcollision hnames hguesses.first
        rw [hvisited] at hrest
        exact ⟨hpermitted, hrest⟩
      · rw [if_neg hnames]
        rwa [LoginState.bucketAt, LoginCall.bucket_unchanged hguesses.stored hcollision hnames]
          at hrest

theorem accountVisits_sublist :
    ((accountVisits library account state calls).map Visit.now).Sublist
      (calls.map LoginCall.now) := by
  induction calls generalizing state with
  | nil => exact .slnil
  | cons call rest ih =>
      rw [accountVisits_cons]
      split
      · exact ih.cons_cons call.now
      · exact ih.cons call.now

theorem accountVisits_ordered (hordered : (last :: calls.map LoginCall.now).Pairwise (· ≤ ·)) :
    (last :: (accountVisits library account state calls).map Visit.now).Pairwise (· ≤ ·) :=
  hordered.sublist (accountVisits_sublist.cons_cons last)

theorem LoginCall.failed_visit {call : LoginCall} :
    (call.visit library state).failed = true ↔
      (attemptLogin library call).value? state = some .refused :=
  decide_eq_true_iff

theorem verificationFailures_eq (hguesses : Guesses library account state calls) :
    verificationFailures library account window state calls =
      Throttle.failuresWithin loginLimits window
        (Throttle.history loginLimits (state.bucketAt (accountBucketHash library account))
          (accountVisits library account state calls)) := by
  induction calls generalizing state with
  | nil => rfl
  | cons call rest ih =>
      have hcollision := hguesses.noCollision call List.mem_cons_self
      have hrest := ih hguesses.rest
      rw [verificationFailures, accountVisits_cons]
      by_cases hnames : state.knownUser call = some account
      · rw [if_pos hnames]
        obtain ⟨hvisited, -⟩ := LoginCall.bucket_visited hguesses.stored
          hguesses.returnsNamed hcollision hnames hguesses.first
        rw [hvisited] at hrest
        rw [Throttle.failuresWithin_cons, ← hrest]
        congr 1
        simp only [LoginCall.FailsFor, hnames, true_and, LoginCall.failed_visit]
        rfl
      · rw [if_neg hnames]
        have hfails : ¬ call.FailsFor library state account := fun hfails => hnames hfails.1
        rw [LoginState.bucketAt, LoginCall.bucket_unchanged hguesses.stored hcollision hnames]
          at hrest
        rw [if_neg (fun hboth => hfails hboth.1), add_zero, hrest]
        rfl

/-- The windows that a run goes through are windows of the visits. -/
theorem window_mem (hguesses : Guesses library account state calls) {earlier later : List LoginCall}
    (hsplit : calls = earlier ++ later) {bucket : Bucket}
    (hbucket : (runLogins library state earlier).bucketAt (accountBucketHash library account) =
      some bucket) :
    bucket.started ∈ Throttle.windows loginLimits
      (state.bucketAt (accountBucketHash library account))
      (accountVisits library account state calls) := by
  induction earlier generalizing state calls with
  | nil =>
      have hfound : state.bucketAt (accountBucketHash library account) = some bucket := hbucket
      rw [hfound]
      exact List.mem_append_left _ (by simp)
  | cons call earlier ih =>
      subst hsplit
      have hcollision := hguesses.noCollision call List.mem_cons_self
      have hrest := ih hguesses.rest rfl hbucket
      change bucket.started ∈ Throttle.windows loginLimits _
        (accountVisits library account state (call :: (earlier ++ later)))
      rw [accountVisits_cons]
      by_cases hnames : state.knownUser call = some account
      · rw [if_pos hnames]
        obtain ⟨hvisited, -⟩ := LoginCall.bucket_visited hguesses.stored
          hguesses.returnsNamed hcollision hnames hguesses.first
        rw [hvisited] at hrest
        rw [Throttle.windows_cons]
        exact List.mem_append_right _ hrest
      · rw [if_neg hnames]
        rwa [LoginState.bucketAt, LoginCall.bucket_unchanged hguesses.stored hcollision hnames]
          at hrest

/-! ## The bound -/

/-- What holds of every bucket between attempts. -/
def LoginState.Sound (last : Time) (state : LoginState) : Prop :=
  ∀ hash, ∀ bucket ∈ state.bucketAt hash, bucket.Sound loginLimits last

theorem LoginCall.after_sound {call : LoginCall} (hsound : state.Sound last)
    (hlast : last ≤ call.now) : (call.after library state).Sound call.now := by
  obtain ⟨outcome, -, -, hattempted⟩ := call.attempted library state
  intro hash bucket hbucket
  by_cases hmem : hash ∈ state.bucketHashes library call
  · cases houtcome : outcome.user? with
    | none =>
        rw [hattempted.visited houtcome hash hmem, Option.mem_some_iff] at hbucket
        subst hbucket
        have hnow : last ≤ (⟨call.now, decide (outcome = .refused)⟩ : Visit).now := hlast
        exact Throttle.Visit.leaves_sound hnow (hsound hash)
    | some user =>
        have haccepted : outcome = .accepted user := by
          cases outcome <;> simp_all [LoginOutcome.user?]
        rw [LoginState.bucketAt, hattempted.cleared user haccepted hash hmem] at hbucket
        cases hbucket
  · rw [LoginState.bucketAt, hattempted.others hash hmem] at hbucket
    exact (hsound hash bucket hbucket).mono hlast

/-- The buckets are sound where the first part of a run ends. -/
theorem runLogins_sound {previous : List LoginCall} (hsound : state.Sound last)
    (hordered : (last :: (previous ++ calls).map LoginCall.now).Pairwise (· ≤ ·)) :
    ∃ moment, (runLogins library state previous).Sound moment ∧
      (moment :: calls.map LoginCall.now).Pairwise (· ≤ ·) := by
  induction previous generalizing state last with
  | nil => exact ⟨last, hsound, hordered⟩
  | cons call rest ih =>
      obtain ⟨hfirst, hrest⟩ := List.pairwise_cons.mp hordered
      have hnow : last ≤ call.now := hfirst _ List.mem_cons_self
      exact ih (call.after_sound hsound hnow) hrest

theorem exists_le_times {times : List Time} (hordered : times.Pairwise (· ≤ ·)) :
    ∃ first, (first :: times).Pairwise (· ≤ ·) := by
  cases times with
  | nil => exact ⟨0, List.pairwise_singleton _ _⟩
  | cons time rest =>
      refine ⟨time, List.pairwise_cons.mpr ⟨fun other hother => ?_, hordered⟩⟩
      obtain hhead | htail := List.mem_cons.mp hother
      · exact hhead.ge
      · exact (List.pairwise_cons.mp hordered).1 other htail

theorem sound_of_empty (hempty : state.throttles = Table.empty) : state.Sound last := by
  intro hash bucket hbucket
  rw [LoginState.bucketAt, hempty, Table.get?_empty] at hbucket
  cases hbucket

theorem verificationFailures_le (hsound : state.Sound last)
    (hordered : (last :: calls.map LoginCall.now).Pairwise (· ≤ ·))
    (hguesses : Guesses library account state calls) {earlier later : List LoginCall}
    (hsplit : calls = earlier ++ later) {row : LoginThrottle}
    (hrow : (runLogins library state earlier).throttles.get? (accountBucketHash library account) =
      some row) :
    verificationFailures library account row.windowStartedAt state calls ≤ loginLimits.most := by
  rw [verificationFailures_eq hguesses]
  apply Throttle.failuresWithin_le (hsound _) (accountVisits_ordered hordered)
    (accountVisits_permitted hguesses)
  have hbucket : (runLogins library state earlier).bucketAt (accountBucketHash library account) =
      some row.bucket := by
    rw [LoginState.bucketAt, hrow]
    rfl
  exact window_mem hguesses hsplit hbucket

end Histories

/-- The failed verifications of an account in one window of its bucket are at most the limit
and the whole lockouts that fit strictly inside the window, and no attempt that names another
account changes the bucket. -/
theorem password_guess_bound {library : LoginLibrary} {start : LoginState}
    {previous calls : List LoginCall} {account : User}
    (hstart : start.throttles = Table.empty)
    (hordered : ((previous ++ calls).map LoginCall.now).Pairwise (· ≤ ·))
    (hstored : account ∈ start.users) (hlibrary : library.ReturnsNamed)
    (hcollision : ∀ call ∈ calls, start.NoCollision library account call) :
    (NeverSignsIn library account (runLogins library start previous) calls →
      ∀ earlier later, calls = earlier ++ later → ∀ row,
        (runLogins library start (previous ++ earlier)).throttles.get?
            (accountBucketHash library account) = some row →
          verificationFailures library account row.windowStartedAt
              (runLogins library start previous) calls ≤
            authFailureLimit + ((authFailureWindow - 1) / authLockoutDuration).toNat) ∧
      authFailureLimit + ((authFailureWindow - 1) / authLockoutDuration).toNat = 19 ∧
        ∀ earlier call later, calls = earlier ++ call :: later →
          start.knownUser call ≠ some account →
            (runLogins library start (previous ++ earlier ++ [call])).throttles.get?
                (accountBucketHash library account) =
              (runLogins library start (previous ++ earlier)).throttles.get?
                (accountBucketHash library account) := by
  refine ⟨fun hnever earlier later hsplit row hrow => ?_, by decide, ?_⟩
  · obtain ⟨first, hfirst⟩ := exists_le_times hordered
    obtain ⟨last, hsound, hcalls⟩ :=
      @runLogins_sound library start calls first previous (sound_of_empty hstart) hfirst
    have husers : (runLogins library start previous).users = start.users := runLogins_users
    refine verificationFailures_le hsound hcalls ⟨?_, hlibrary, fun call hcall => ?_, hnever⟩
      hsplit ?_
    · rw [husers]
      exact hstored
    · exact (hcollision call hcall).congr husers
    · rwa [runLogins, List.foldl_append] at hrow
  · intro earlier call later hsplit hother
    have husers : (runLogins library start (previous ++ earlier)).users = start.users :=
      runLogins_users
    have hrun : runLogins library start (previous ++ earlier ++ [call]) =
        call.after library (runLogins library start (previous ++ earlier)) := by
      simp [runLogins]
    rw [hrun]
    apply LoginCall.bucket_unchanged
    · rw [husers]
      exact hstored
    · exact (hcollision call (by simp [hsplit])).congr husers
    · rwa [LoginState.knownUser_congr husers]

/-! ## Attempts with a wrong password -/

/-- Passwords that the backends never accept sign nobody in. -/
theorem neverSignsIn_of_verified {library : LoginLibrary} {state : LoginState}
    {calls : List LoginCall} {account : User}
    (hrefused : ∀ call ∈ calls, state.verified library call = none) :
    NeverSignsIn library account state calls := by
  intro earlier call later hsplit user haccepted
  obtain ⟨outcome, -, hvalue, hattempted⟩ :=
    call.attempted library (runLogins library state earlier)
  rw [hvalue] at haccepted
  cases outcome with
  | blocked => cases haccepted
  | refused => cases haccepted
  | accepted other =>
      have hverified := hattempted.verified other rfl
      have husers : (runLogins library state earlier).users = state.users := runLogins_users
      have hcall := hrefused call (by simp [hsplit])
      unfold LoginState.verified at hverified hcall
      rw [husers] at hverified
      rw [hverified] at hcall
      cases hcall

/-- 64 hexadecimal digits, pairwise different on names of which the last characters differ. -/
def sampleHmac (name : Text) : Text :=
  numeral 16 64 (name.foldl (fun total c => total * 256 + c.toNat) 0 % 16 ^ 64)

/-- The backend on passwords that are stored under a marker. -/
def sampleAuthenticate (users : Table User) (soeid password : Text) : Option User :=
  (users.where? fun user =>
    user.soeid = soeid ∧ user.isActive = true ∧ user.password = "sample$".toList ++ password).head?

def sampleLogin : LoginLibrary where
  saltedHmac := sampleHmac
  authenticate := sampleAuthenticate

theorem sampleLogin_returnsNamed : sampleLogin.ReturnsNamed := by
  intro users soeid password user hreturned
  have hmem := List.mem_of_mem_head? hreturned
  rw [Table.mem_where?_iff, decide_eq_true_eq] at hmem
  exact ⟨hmem.1, hmem.2.1⟩

def sampleAccount : User where
  id := 7
  soeid := "AA00001".toList
  password := "sample$right".toList
  isActive := true
  isAdministrator := false
  authVersion := 1
  createdAt := 0
  updatedAt := 0

def sampleStart : LoginState where
  users := ⟨[sampleAccount], by simp⟩
  throttles := Table.empty
  events := []
  soeids := by simp
  uuids user huser := by
    have hsample : user = sampleAccount := List.mem_singleton.mp huser
    rw [hsample]
    decide

def wrongLogin (now : Time) : LoginCall where
  now := now
  remoteAddr := some "192.0.2.1".toList
  soeid := " aa00001".toList
  password := "wrong".toList

/-- Five attempts at once, one in the lockout and one right after it. -/
def wrongLogins : List LoginCall :=
  [wrongLogin 0, wrongLogin 0, wrongLogin 0, wrongLogin 0, wrongLogin 0, wrongLogin (seconds 59),
    wrongLogin (seconds 60)]

theorem wrong_logins_bounded :
    verificationFailures sampleLogin sampleAccount 0 sampleStart wrongLogins = 6 ∧
      verificationFailures sampleLogin sampleAccount 0 sampleStart wrongLogins ≤ 19 := by
  have hcomputed : ((runLogins sampleLogin sampleStart [wrongLogin 0]).throttles.get?
      (accountBucketHash sampleLogin sampleAccount)).map (fun row =>
        decide (row.windowStartedAt = 0)) = some true := by
    decide +kernel
  obtain ⟨row, hrow, hstarted⟩ := Option.map_eq_some_iff.mp hcomputed
  have hzero : row.windowStartedAt = 0 := of_decide_eq_true hstarted
  have hnever : NeverSignsIn sampleLogin sampleAccount sampleStart wrongLogins := by
    apply neverSignsIn_of_verified
    decide +kernel
  have hcollision : ∀ call ∈ wrongLogins,
      sampleStart.NoCollision sampleLogin sampleAccount call := by
    unfold LoginState.NoCollision
    decide +kernel
  obtain ⟨hbound, hnumber, -⟩ := @password_guess_bound sampleLogin sampleStart []
    wrongLogins sampleAccount rfl (by decide) (List.mem_singleton.mpr rfl)
    sampleLogin_returnsNamed hcollision
  have hmost := hbound hnever [wrongLogin 0] wrongLogins.tail rfl row hrow
  rw [hnumber, hzero] at hmost
  exact ⟨by decide +kernel, hmost⟩

end Agora
