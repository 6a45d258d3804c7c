import Agora.AccountLocking
import Agora.ServiceRuns

/-!
# Interleaved account services

Any number of `provision_user`, `disable_user`, `enable_user` and
`reset_user_password` calls interleave between their locking statements.  The rows
that a call has locked are the stored ones when it commits, so its administrator is
still there afterwards, and the authentication version of every account it changes
advances.
-/

namespace Agora

open Transaction

def accountSystem (platform : Platform) : LockingSystem AccountCall Db LockedRow Failure where
  store := lockedRows
  program call := call.program platform

/-- The call changes this account when it commits. -/
def AccountCall.Changes (call : AccountCall) (row : User) : Prop :=
  match call.operation with
  | .provisionUser .. => False
  | .disableUser _ targetId => targetId = row.id ∧ row.isActive = true
  | .enableUser _ targetId => targetId = row.id ∧ row.isActive = false
  | .resetUserPassword _ targetId _ _ => targetId = row.id

/-- What a commit does to the accounts. -/
structure AccountCall.Commits (call : AccountCall) (known : List LockedRow)
    (before after : Db) : Prop where
  keepsOthers : lockedRows.KeepsOthers known before after
  administered : ∃ actor ∈ after.users, actor.isActive = true ∧ actor.isAdministrator = true
  advances : ∀ row ∈ before.users, ∃ later, after.users.get? row.id = some later ∧
    (later = row ∨ row.authVersion < later.authVersion) ∧
      (call.Changes row → row.authVersion < later.authVersion)

/-! ## Committed account changes -/

/-- Only users differ among the lockable rows. -/
def Db.SameButUsers (before after : Db) : Prop :=
  ∀ row : LockedRow, row.user? = none →
    before.lockedRow row.key = some row → after.lockedRow row.key = some row

theorem User.save_runs {context : CallContext} {row saved : User} {before after : Db}
    (hruns : (row.save context).Runs before saved after) :
    ∃ original, before.users.get? row.id = some original ∧
      saved = row.savedOver context.clock original ∧
        after = { before with users := before.users.replace saved } := by
  simp only [User.save, runs_bind, runs_get, runs_found, runs_check, runs_set, runs_pure,
    and_assoc, exists_and_left, exists_eq_left', exists_const] at hruns
  obtain ⟨original, horiginal, _, _, clean, hclean, _, rfl, rfl⟩ := hruns
  obtain ⟨rfl, _⟩ := User.fullClean_runs hclean
  exact ⟨original, horiginal, rfl, rfl⟩

theorem recordAccountAudit_runs {context : CallContext} {eventType : AuditEventType}
    {actorId : Option Uuid} {target : User} {before after : Db} {done : PUnit}
    (hruns : (recordAccountAudit context eventType actorId target).Runs before done after) :
    after.users = before.users ∧ before.SameButUsers after := by
  obtain ⟨_, _, _, _, _, _, _, rfl⟩ := recordAudit_runs hruns
  refine ⟨rfl, ?_⟩
  intro row hother hstored
  cases row with
  | user user => simp [LockedRow.user?] at hother
  | _ => exact hstored

theorem lockedRow_user {db : Db} {user : User} :
    db.lockedRow (.user user.id) = some (.user user) ↔ db.users.get? user.id = some user := by
  constructor
  · intro hstored
    obtain ⟨other, hother, hsame⟩ := Option.map_eq_some_iff.mp hstored
    cases hsame
    exact hother
  · intro hget
    exact Option.map_eq_some_iff.mpr ⟨user, hget, rfl⟩

theorem stored_of_known {db : Db} {known : List LockedRow} {user : User}
    (hstores : lockedRows.Stores db known) (huser : .user user ∈ known) :
    db.users.get? user.id = some user :=
  lockedRow_user.mp (hstores _ huser)

theorem LockedRow.eq_user_of_user? {row : LockedRow} {user : User}
    (huser : row.user? = some user) : row = .user user := by
  cases row with
  | user other =>
      cases huser
      rfl
  | _ => simp [LockedRow.user?] at huser

/-- Users keep their rows unless they are locked, so all unlocked rows are kept. -/
theorem keepsOthers_of_users {known : List LockedRow} {before after : Db}
    (hothers : before.SameButUsers after)
    (husers : ∀ user, before.users.get? user.id = some user →
      (∀ locked, LockedRow.user locked ∈ known → locked.id ≠ user.id) →
        after.users.get? user.id = some user) :
    lockedRows.KeepsOthers known before after := by
  intro row hstored hunlocked
  cases hrow : row.user? with
  | none => exact hothers row hrow hstored
  | some user =>
      have hsame := LockedRow.eq_user_of_user? hrow
      subst hsame
      refine lockedRow_user.mpr (husers user (lockedRow_user.mp hstored) ?_)
      intro locked hlocked hid
      exact hunlocked _ hlocked (congrArg RowKey.user hid)

namespace AccountCall

variable {call : AccountCall} {known : List LockedRow} {before after : Db} {actor : User}

theorem Commits.unchanged (hactor : before.users.get? actor.id = some actor)
    (hadministrator : actor.isActive = true ∧ actor.isAdministrator = true)
    (husers : after.users = before.users) (hothers : before.SameButUsers after)
    (hidle : ∀ row ∈ before.users, ¬ call.Changes row) : call.Commits known before after where
  keepsOthers := keepsOthers_of_users hothers fun user huser _ => by rwa [husers]
  administered := by
    rw [husers]
    exact ⟨actor, Table.mem_of_get? hactor, hadministrator⟩
  advances := by
    intro row hrow
    rw [husers]
    exact ⟨row, Table.get?_of_mem hrow, .inl rfl, fun hchanges => absurd hchanges (hidle row hrow)⟩

theorem Commits.created {row : User} (hactor : before.users.get? actor.id = some actor)
    (hadministrator : actor.isActive = true ∧ actor.isAdministrator = true)
    (hcreate : before.users.create row = some after.users) (hothers : before.SameButUsers after)
    (hidle : ∀ row ∈ before.users, ¬ call.Changes row) : call.Commits known before after := by
  have hkept : ∀ user, before.users.get? user.id = some user →
      after.users.get? user.id = some user := by
    intro user huser
    rw [Table.get?_of_create hcreate]
    have hne : ¬ Keyed.key row = user.id := fun heq =>
      Table.fresh_of_create hcreate user (Table.mem_of_get? huser) heq.symm
    rw [if_neg hne, huser]
  refine {
    keepsOthers := keepsOthers_of_users hothers fun user huser _ => hkept user huser
    administered := ⟨actor, Table.mem_of_get? (hkept actor hactor), hadministrator⟩
    advances := ?_ }
  intro old hold
  exact ⟨old, hkept old (Table.get?_of_mem hold), .inl rfl,
    fun hchanges => absurd hchanges (hidle old hold)⟩

/-- A locked target is saved with a later version. -/
theorem Commits.saved {target saved : User}
    (hactor : before.users.get? actor.id = some actor)
    (hadministrator : actor.isActive = true ∧ actor.isAdministrator = true)
    (htarget : before.users.get? target.id = some target) (hlocked : .user target ∈ known)
    (hid : saved.id = target.id) (hversion : target.authVersion < saved.authVersion)
    (hstays : target.id = actor.id → saved.isActive = true ∧ saved.isAdministrator = true)
    (husers : after.users = before.users.replace saved) (hothers : before.SameButUsers after)
    (hscope : ∀ row, call.Changes row → row.id = target.id) :
    call.Commits known before after := by
  have hsaved : after.users.get? target.id = some saved := by
    rw [husers, ← hid]
    exact Table.get?_replace_self (by rw [← hid] at htarget; exact htarget)
  have hkept : ∀ user, user.id ≠ target.id → before.users.get? user.id = some user →
      after.users.get? user.id = some user := by
    intro user hne huser
    rw [husers, Table.get?_replace_of_ne]
    · exact huser
    · intro heq
      exact hne (heq.symm.trans hid)
  refine {
    keepsOthers := keepsOthers_of_users hothers fun user huser hunlocked =>
      hkept user (hunlocked target hlocked).symm huser
    administered := ?_
    advances := ?_ }
  · by_cases hself : target.id = actor.id
    · exact ⟨saved, Table.mem_of_get? hsaved, hstays hself⟩
    · exact ⟨actor, Table.mem_of_get? (hkept actor (Ne.symm hself) hactor), hadministrator⟩
  · intro row hrow
    have hget : before.users.get? row.id = some row := Table.get?_of_mem hrow
    by_cases hrowId : row.id = target.id
    · rw [hrowId] at hget
      cases Option.some.inj (htarget.symm.trans hget)
      exact ⟨saved, hsaved, .inr hversion, fun _ => hversion⟩
    · exact ⟨row, hkept row hrowId hget, .inl rfl,
        fun hchanges => absurd (hscope row hchanges) hrowId⟩

end AccountCall

/-! ## Contracts of the programs -/

section Contracts

variable {guarantee : List LockedRow → Db → Db → Prop} {known : List LockedRow}

theorem meets_raise (failure : Failure) :
    (raise failure).Meets lockedRows guarantee known := by
  intro before after _ hruns
  simp at hruns

theorem meets_lockUsers {matching : User → Bool} {next : List User → ServiceProgram}
    (hnext : ∀ users, (∀ user ∈ users, matching user = true) →
      (next users).Meets lockedRows guarantee (known ++ users.map .user)) :
    (lockUsers matching next).Meets lockedRows guarantee known := by
  intro rows hrows
  have husers : (rows.filterMap LockedRow.user?).map .user = rows := by
    clear hnext
    induction rows with
    | nil => rfl
    | cons row rest ih =>
        have hrow := hrows row (by simp)
        have hrest := ih fun other hother => hrows other (by simp [hother])
        cases row with
        | user user => simpa [LockedRow.user?] using hrest
        | _ => simp [LockedRow.user?] at hrow
  have hmatching : ∀ user ∈ rows.filterMap LockedRow.user?, matching user = true := by
    intro user huser
    obtain ⟨row, hrow, hread⟩ := List.mem_filterMap.mp huser
    have hmatches : row.user?.any matching = true := hrows row hrow
    rwa [hread] at hmatches
  have hmeets := hnext _ hmatching
  rwa [husers] at hmeets

theorem meets_lockAdministrator {actorId : Uuid} {next : User → ServiceProgram}
    (hnext : ∀ actor locked, known ⊆ locked → .user actor ∈ locked →
      actor.isActive = true ∧ actor.isAdministrator = true →
        (next actor).Meets lockedRows guarantee locked) :
    (lockAdministrator actorId next).Meets lockedRows guarantee known := by
  refine meets_lockUsers fun users _ => ?_
  split
  · rename_i actor hactor
    obtain ⟨hfind, hadministrator⟩ := Option.filter_eq_some_iff.mp hactor
    have hmem := List.mem_of_find?_eq_some hfind
    refine hnext actor _ (List.subset_append_left _ _) ?_ (by simpa using hadministrator)
    exact List.mem_append_right _ (List.mem_map_of_mem hmem)
  · exact meets_raise _

theorem meets_lockTarget {targetId : Uuid} {next : User → ServiceProgram}
    (hnext : ∀ target locked, known ⊆ locked → .user target ∈ locked → target.id = targetId →
      (next target).Meets lockedRows guarantee locked) :
    (lockTarget targetId next).Meets lockedRows guarantee known := by
  refine meets_lockUsers fun users _ => ?_
  split
  · rename_i target htarget
    have hmem := List.mem_of_find?_eq_some htarget
    have hid : target.id = targetId := by simpa using List.find?_some htarget
    refine hnext target _ (List.subset_append_left _ _) ?_ hid
    exact List.mem_append_right _ (List.mem_map_of_mem hmem)
  · exact meets_raise _

end Contracts

section Programs

variable {platform : Platform} {context : CallContext} {call : AccountCall}
  {known : List LockedRow} {before after : Db} {actor target : User}

theorem setValidatedPassword_keeps {user changed : User} {password salt : Text} {done : Db}
    (hruns : (setValidatedPassword platform user password salt).Runs before changed done) :
    ∃ hash, changed = { user with password := hash } := by
  simp only [setValidatedPassword, runs_bind, runs_check, runs_pure, and_assoc,
    exists_and_left, exists_eq_left', exists_const] at hruns
  exact ⟨_, hruns.2.2.1.symm⟩

theorem provisionLocked_commits {canonical password salt : Text} {isAdministrator : Bool}
    (hidle : ∀ row, ¬ call.Changes row) (hactor : before.users.get? actor.id = some actor)
    (hadministrator : actor.isActive = true ∧ actor.isAdministrator = true)
    (hruns : (provisionLocked platform context canonical password salt isAdministrator
      actor).Runs before ⟨⟩ after) : call.Commits known before after := by
  simp only [provisionLocked, runs_bind, runs_recover] at hruns
  obtain ⟨candidate, checked, hpassword, user, inserted, hinsert, haudit⟩ := hruns
  cases setValidatedPassword_runs hpassword
  rcases hinsert with hinsert | ⟨failure, _, hduplicate⟩
  · obtain ⟨husers, hothers⟩ := recordAccountAudit_runs haudit
    simp only [User.insert, runs_bind, runs_get, runs_found, runs_set, runs_pure, and_assoc,
      exists_and_left, exists_eq_left', exists_const] at hinsert
    obtain ⟨_, clean, hclean, users, hcreate, _, rfl⟩ := hinsert
    obtain ⟨rfl, _⟩ := User.fullClean_runs hclean
    have husers : after.users = users := husers
    rw [← husers] at hcreate
    exact AccountCall.Commits.created hactor hadministrator hcreate
      (fun row hother hstored => hothers row hother (by
        cases row with
        | user user => simp [LockedRow.user?] at hother
        | _ => exact hstored)) fun row _ => hidle row
  · exact absurd hduplicate duplicateUser_fails

/-- A commit that saves the locked target and records the change. -/
theorem savedLocked_commits {row saved : User} {middle : Db} {eventType : AuditEventType}
    {actorId : Option Uuid} (hscope : ∀ row, call.Changes row → row.id = target.id)
    (hactor : before.users.get? actor.id = some actor)
    (hadministrator : actor.isActive = true ∧ actor.isAdministrator = true)
    (htarget : before.users.get? target.id = some target) (hlocked : .user target ∈ known)
    (hid : row.id = target.id)
    (hversion : target.authVersion < (row.savedOver context.clock target).authVersion)
    (hstays : target.id = actor.id → row.isActive = true ∧ row.isAdministrator = true)
    (hsave : (row.save context).Runs before saved middle)
    (haudit : (recordAccountAudit context eventType actorId saved).Runs middle ⟨⟩ after) :
    call.Commits known before after := by
  obtain ⟨original, horiginal, rfl, rfl⟩ := User.save_runs hsave
  rw [hid, htarget] at horiginal
  cases horiginal
  obtain ⟨husers, hothers⟩ := recordAccountAudit_runs haudit
  have hflags : (row.savedOver context.clock target).isActive = row.isActive ∧
      (row.savedOver context.clock target).isAdministrator = row.isAdministrator := by
    unfold User.savedOver User.advanceAuthVersion
    split <;> exact ⟨rfl, rfl⟩
  refine AccountCall.Commits.saved hactor hadministrator htarget hlocked
    (User.savedOver_id.trans hid) hversion ?_ husers ?_ hscope
  · rw [hflags.1, hflags.2]
    exact hstays
  · intro found hother hstored
    refine hothers found hother ?_
    cases found with
    | user user => simp [LockedRow.user?] at hother
    | _ => exact hstored

theorem disableLocked_commits {administrators : ℕ}
    (hcall : ∀ row, call.Changes row ↔ target.id = row.id ∧ row.isActive = true)
    (hactor : before.users.get? actor.id = some actor)
    (hadministrator : actor.isActive = true ∧ actor.isAdministrator = true)
    (htarget : before.users.get? target.id = some target) (hlocked : .user target ∈ known)
    (hruns : (disableLocked context administrators actor target).Runs before ⟨⟩ after) :
    call.Commits known before after := by
  simp only [disableLocked, runs_bind, runs_check, runs_ite, runs_pure, and_assoc,
    exists_and_left, exists_eq_left', exists_const] at hruns
  obtain ⟨_, hother, hidle | hsaved⟩ := hruns
  · obtain ⟨hinactive, _, rfl⟩ := hidle
    refine AccountCall.Commits.unchanged hactor hadministrator rfl (fun row _ hrow => hrow) ?_
    intro row hrow hchanges
    obtain ⟨hid, hactive⟩ := (hcall row).mp hchanges
    have hget : before.users.get? row.id = some row := Table.get?_of_mem hrow
    rw [← hid, htarget] at hget
    cases hget
    rw [hinactive] at hactive
    contradiction
  · obtain ⟨hactive, saved, middle, hsave, haudit⟩ := hsaved
    refine savedLocked_commits (fun row hchanges => ((hcall row).mp hchanges).1.symm) hactor
      hadministrator htarget hlocked (by rfl) ?_ (fun hself => absurd hself hother) hsave haudit
    have hactive : target.isActive = true := by simpa using hactive
    simp [User.savedOver, User.advanceAuthVersion, hactive]

theorem enableLocked_commits
    (hcall : ∀ row, call.Changes row ↔ target.id = row.id ∧ row.isActive = false)
    (hactor : before.users.get? actor.id = some actor)
    (hadministrator : actor.isActive = true ∧ actor.isAdministrator = true)
    (htarget : before.users.get? target.id = some target) (hlocked : .user target ∈ known)
    (hruns : (enableLocked context actor target).Runs before ⟨⟩ after) :
    call.Commits known before after := by
  simp only [enableLocked, runs_bind, runs_ite, runs_pure] at hruns
  rcases hruns with hidle | hsaved
  · obtain ⟨hactive, _, rfl⟩ := hidle
    refine AccountCall.Commits.unchanged hactor hadministrator rfl (fun row _ hrow => hrow) ?_
    intro row hrow hchanges
    obtain ⟨hid, hinactive⟩ := (hcall row).mp hchanges
    have hget : before.users.get? row.id = some row := Table.get?_of_mem hrow
    rw [← hid, htarget] at hget
    cases hget
    rw [hinactive] at hactive
    contradiction
  · obtain ⟨hactive, saved, middle, hsave, haudit⟩ := hsaved
    refine savedLocked_commits (fun row hchanges => ((hcall row).mp hchanges).1.symm) hactor
      hadministrator htarget hlocked (by rfl) ?_ ?_ hsave haudit
    · have hactive : target.isActive = false := by simpa using hactive
      simp [User.savedOver, User.advanceAuthVersion, hactive]
    · intro hself
      rw [hself, hactor] at htarget
      cases htarget
      exact absurd hadministrator.1 hactive

theorem resetLocked_commits {password salt : Text}
    (hcall : ∀ row, call.Changes row ↔ target.id = row.id)
    (hactor : before.users.get? actor.id = some actor)
    (hadministrator : actor.isActive = true ∧ actor.isAdministrator = true)
    (htarget : before.users.get? target.id = some target) (hlocked : .user target ∈ known)
    (hruns : (resetLocked platform context password salt actor target).Runs before ⟨⟩ after) :
    call.Commits known before after := by
  simp only [resetLocked, runs_bind] at hruns
  obtain ⟨changed, checked, hpassword, saved, middle, hsave, haudit⟩ := hruns
  obtain ⟨hash, rfl⟩ := setValidatedPassword_keeps hpassword
  cases setValidatedPassword_runs hpassword
  refine savedLocked_commits (fun row hchanges => ((hcall row).mp hchanges).symm) hactor
    hadministrator htarget hlocked (by rfl) ?_ ?_ hsave haudit
  · simp [User.savedOver, User.advanceAuthVersion]
  · intro hself
    rw [hself, hactor] at htarget
    cases htarget
    exact hadministrator

theorem disableUser_meets {actorId targetId : Uuid}
    (hcall : ∀ row, call.Changes row ↔ targetId = row.id ∧ row.isActive = true) :
    (lockUsers (fun user => user.isActive && user.isAdministrator) fun administrators =>
      match administrators.find? fun user => user.id = actorId with
      | some actor =>
          lockTarget targetId fun target =>
            .commit (disableLocked context administrators.length actor target)
      | none => raise .notAdministrator).Meets lockedRows call.Commits known := by
  refine meets_lockUsers fun administrators hadministrators => ?_
  split
  · rename_i actor hactor
    have hmem := List.mem_of_find?_eq_some hactor
    have hadministrator : actor.isActive = true ∧ actor.isAdministrator = true := by
      simpa using hadministrators actor hmem
    refine meets_lockTarget fun target locked hsubset htarget hid => ?_
    intro before after hstores hruns
    have hactorLocked : .user actor ∈ locked :=
      hsubset (List.mem_append_right _ (List.mem_map_of_mem hmem))
    exact disableLocked_commits (by rwa [hid]) (stored_of_known hstores hactorLocked)
      hadministrator (stored_of_known hstores htarget) htarget hruns
  · exact meets_raise _

theorem AccountCall.program_meets (platform : Platform) (call : AccountCall) :
    (call.program platform).Meets lockedRows call.Commits [] := by
  rcases call with ⟨context, operation⟩
  cases operation with
  | provisionUser actorId soeid password salt isAdministrator =>
      simp only [AccountCall.program]
      split
      · exact meets_raise _
      · refine meets_lockAdministrator fun actor locked _ hactor hadministrator => ?_
        intro before after hstores hruns
        exact provisionLocked_commits (fun row hchanges => hchanges)
          (stored_of_known hstores hactor) hadministrator hruns
  | disableUser actorId targetId => exact disableUser_meets fun row => Iff.rfl
  | enableUser actorId targetId =>
      refine meets_lockAdministrator fun actor locked _ hactor hadministrator => ?_
      refine meets_lockTarget fun target both hsubset htarget hid => ?_
      intro before after hstores hruns
      refine enableLocked_commits ?_ (stored_of_known hstores (hsubset hactor)) hadministrator
        (stored_of_known hstores htarget) htarget hruns
      intro row
      rw [hid]
      exact Iff.rfl
  | resetUserPassword actorId targetId password salt =>
      refine meets_lockAdministrator fun actor locked _ hactor hadministrator => ?_
      refine meets_lockTarget fun target both hsubset htarget hid => ?_
      intro before after hstores hruns
      refine resetLocked_commits ?_ (stored_of_known hstores (hsubset hactor)) hadministrator
        (stored_of_known hstores htarget) htarget hruns
      intro row
      rw [hid]
      exact Iff.rfl

/-- Every account program keeps its contract. -/
theorem accountSystem_contracted (platform : Platform) :
    (accountSystem platform).Contracted AccountCall.Commits where
  meets := AccountCall.program_meets platform
  keepsOthers _ _ _ _ hcommits := hcommits.keepsOthers

end Programs

/-! ## Administrators -/

section Runs

variable {platform : Platform}
  {first last before after : LockingState AccountCall Db RowKey LockedRow Failure}

def Db.Administered (db : Db) : Prop :=
  ∃ user ∈ db.users, user.isActive = true ∧ user.isAdministrator = true

theorem bootstrapFirstAdministrator_administered {context : CallContext}
    {soeid password salt : Text} {user : User} {empty db : Db}
    (hruns : (bootstrapFirstAdministrator platform context soeid password salt).Runs empty
      user db) : db.Administered := by
  simp only [bootstrapFirstAdministrator, runs_bind, runs_get, runs_check, runs_orFail,
    runs_pure, and_assoc, exists_and_left, exists_eq_left', exists_const] at hruns
  obtain ⟨_, canonical, _, candidate, state, hpassword, inserted, middle, hinsert, _, _, haudit,
    _, rfl⟩ := hruns
  obtain ⟨hash, rfl⟩ := setValidatedPassword_keeps hpassword
  obtain ⟨husers, _⟩ := recordAccountAudit_runs haudit
  simp only [User.insert, runs_bind, runs_get, runs_found, runs_set, runs_pure, and_assoc,
    exists_and_left, exists_eq_left', exists_const] at hinsert
  obtain ⟨_, clean, hclean, users, hcreate, _, rfl⟩ := hinsert
  have hmem := (Table.mem_of_create hcreate).mpr (.inl rfl)
  refine ⟨{ newUser context canonical true with password := hash }, ?_, rfl, rfl⟩
  rw [husers]
  exact hmem

/-- After a bootstrap, every committed state of every interleaving has an active
administrator. -/
theorem always_an_administrator {context : CallContext} {soeid password salt : Text}
    {administrator : User} {empty : Db} {events : List (LockingEvent AccountCall)}
    (hbootstrap : (bootstrapFirstAdministrator platform context soeid password salt).Runs empty
      administrator first.shared)
    (hstart : (accountSystem platform).transitions.initial first)
    (hpath : (accountSystem platform).transitions.Path first events last) :
    ∃ user ∈ last.shared.users, user.isActive = true ∧ user.isAdministrator = true := by
  refine hpath.stable (motive := fun state => state.shared.Administered) (.initial hstart) ?_
    (bootstrapFirstAdministrator_administered hbootstrap)
  intro state event next hreach hstep hadministered
  rcases LockingSystem.commit_meets (accountSystem_contracted platform) hreach hstep with
    hsame | ⟨call, known, hcommits⟩
  · rwa [hsame]
  · exact hcommits.administered

/-! ## Sessions -/

/-- The value that `get_session_auth_hash` signs. -/
def User.sessionValue (row : User) : Text :=
  row.password ++ ':' :: Nat.toDigits 10 row.authVersion

/-- `get_session_auth_hash` under a keyed hash. -/
def User.sessionAuthHash (saltedHmac : Text → Text) (row : User) : Text :=
  saltedHmac row.sessionValue

theorem takeWhile_reverse_sessionValue (row : User) :
    row.sessionValue.reverse.takeWhile (fun c => c ≠ ':') =
      (Nat.toDigits 10 row.authVersion).reverse := by
  have hdigits : ∀ c ∈ (Nat.toDigits 10 row.authVersion).reverse,
      decide (c ≠ ':') = true := by
    intro c hc
    have hdigit := Nat.isDigit_of_mem_toDigits (by decide) (by decide) (List.mem_reverse.mp hc)
    simp only [decide_eq_true_eq]
    rintro rfl
    simp at hdigit
  unfold User.sessionValue
  rw [List.reverse_append, List.reverse_cons, List.append_assoc,
    List.takeWhile_append_of_pos hdigits]
  simp

/-- The signed value determines the authentication version, whatever the password is. -/
theorem authVersion_of_sessionValue {row other : User}
    (hsame : row.sessionValue = other.sessionValue) : row.authVersion = other.authVersion := by
  have hdigits : Nat.toDigits 10 row.authVersion = Nat.toDigits 10 other.authVersion := by
    rw [← List.reverse_inj, ← takeWhile_reverse_sessionValue, hsame,
      takeWhile_reverse_sessionValue]
  have hvalues := congrArg (fun digits => Nat.ofDigitChars 10 digits 0) hdigits
  simpa only [Nat.ofDigitChars_ten_toDigits] using hvalues

theorem sessionAuthHash_ne {saltedHmac : Text → Text} (hinjective : saltedHmac.Injective)
    {issued current : User} (hversion : issued.authVersion < current.authVersion) :
    current.sessionAuthHash saltedHmac ≠ issued.sessionAuthHash saltedHmac := by
  intro hsame
  have hversions := authVersion_of_sessionValue (hinjective hsame)
  omega

/-- The event commits a call that changes the account. -/
def Effective (state : LockingState AccountCall Db RowKey LockedRow Failure)
    (event : LockingEvent AccountCall) (userId : Uuid) : Prop :=
  ∃ index call body row, event = .finish index ∧
    state.sessions index = some (call, .running (.commit body)) ∧
      body.value? state.shared = some ⟨⟩ ∧
        state.shared.users.get? userId = some row ∧ call.Changes row

/-- No step moves an authentication version back. -/
theorem step_authVersion {event : LockingEvent AccountCall}
    (hreach : (accountSystem platform).transitions.Reachable before)
    (hstep : (accountSystem platform).transitions.step before event after) :
    Table.Carries (fun row later : User => row.authVersion ≤ later.authVersion)
      before.shared.users after.shared.users := by
  intro userId row hrow
  have hid : row.id = userId := Table.key_of_get? hrow
  rcases LockingSystem.commit_meets (accountSystem_contracted platform) hreach hstep with
    hsame | ⟨call, known, hcommits⟩
  · exact ⟨row, by rwa [hsame], le_refl _⟩
  · obtain ⟨later, hlater, hkept, _⟩ := hcommits.advances row (Table.mem_of_get? hrow)
    rw [hid] at hlater
    refine ⟨later, hlater, ?_⟩
    rcases hkept with rfl | hless
    · exact le_refl _
    · exact hless.le

theorem path_authVersion {events : List (LockingEvent AccountCall)}
    (hreach : (accountSystem platform).transitions.Reachable first)
    (hpath : (accountSystem platform).transitions.Path first events last) :
    Table.Carries (fun row later : User => row.authVersion ≤ later.authVersion)
      first.shared.users last.shared.users := by
  refine @TransitionSystem.Path.related _ _ _ (fun first last => Table.Carries
    (fun row later : User => row.authVersion ≤ later.authVersion) first.shared.users
      last.shared.users) _ _ _ hreach hpath ?_ ?_ fun before event after hreach hstep =>
        step_authVersion hreach hstep
  · exact fun state userId row hrow => ⟨row, hrow, le_refl _⟩
  · intro first second third hfirst hsecond userId row hrow
    obtain ⟨middle, hmiddle, hle⟩ := hfirst userId row hrow
    obtain ⟨later, hlater, hle'⟩ := hsecond userId middle hmiddle
    exact ⟨later, hlater, hle.trans hle'⟩

/-- An effective change moves the authentication version forward. -/
theorem effective_authVersion {event : LockingEvent AccountCall} {row : User}
    (hreach : (accountSystem platform).transitions.Reachable before)
    (hstep : (accountSystem platform).transitions.step before event after)
    (heffective : Effective before event row.id)
    (hrow : before.shared.users.get? row.id = some row) :
    ∃ later, after.shared.users.get? row.id = some later ∧
      row.authVersion < later.authVersion := by
  obtain ⟨index, call, body, other, rfl, hsession, hvalue, hother, hchanges⟩ := heffective
  cases Option.some.inj (hrow.symm.trans hother)
  have hsound := LockingSystem.sound_of_reachable (accountSystem_contracted platform) hreach
  cases hstep with
  | @finished index found committed hfound =>
      rw [hsession] at hfound
      cases hfound
      obtain ⟨known, _, hcommit⟩ := LockingSystem.commit_meets_of_sound hsound hsession
      have hcommits := hcommit _ (runs_of_value? hvalue)
      obtain ⟨later, hlater, _, hadvances⟩ := hcommits.advances row (Table.mem_of_get? hrow)
      exact ⟨later, hlater, hadvances hchanges⟩

/-- Authentication versions never decrease, and no session issued before an effective
disable, enable or reset of its account is valid at any later moment. -/
theorem session_never_valid_again {saltedHmac : Text → Text}
    (hinjective : saltedHmac.Injective) {issued : User}
    (hreach : (accountSystem platform).transitions.Reachable first)
    (hissued : first.shared.users.get? issued.id = some issued) :
    (∀ events last, (accountSystem platform).transitions.Path first events last →
      ∃ current, last.shared.users.get? issued.id = some current ∧
        issued.authVersion ≤ current.authVersion) ∧
      ∀ earlier before event after later last,
        (accountSystem platform).transitions.Path first earlier before →
          (accountSystem platform).transitions.step before event after →
            Effective before event issued.id →
              (accountSystem platform).transitions.Path after later last →
                ∃ current, last.shared.users.get? issued.id = some current ∧
                  issued.authVersion < current.authVersion ∧
                    current.sessionAuthHash saltedHmac ≠ issued.sessionAuthHash saltedHmac := by
  refine ⟨fun events last hpath => path_authVersion hreach hpath _ _ hissued, ?_⟩
  intro earlier before event after later last hearlier hstep heffective hlater
  obtain ⟨row, hrow, hle⟩ := path_authVersion hreach hearlier _ _ hissued
  have hid : row.id = issued.id := Table.key_of_get? hrow
  have hbefore := hreach.path hearlier
  rw [← hid] at hrow heffective
  obtain ⟨changed, hchanged, hless⟩ := effective_authVersion hbefore hstep heffective hrow
  obtain ⟨current, hcurrent, hkept⟩ :=
    path_authVersion (hbefore.step hstep) hlater _ _ hchanged
  rw [hid] at hcurrent
  have hversion : issued.authVersion < current.authVersion := by omega
  exact ⟨current, hcurrent, hversion, sessionAuthHash_ne hinjective hversion⟩

end Runs

/-! ## A computed run -/

/-- The first administrator has just been created. -/
def bootstrappedState : LockingState AccountCall Db RowKey LockedRow Failure where
  shared := (bootstrapFirstAdministrator asciiPlatform (contextAt 0 1) "AA00001".toList
    samplePassword sampleSalt).settle Db.empty
  holder _ := none
  sessions _ := none

/-- A second administrator is created. -/
def provisionEvents : List (LockingEvent AccountCall) :=
  [.begin 0 ⟨contextAt 1 2, .provisionUser 1 "BB00002".toList samplePassword sampleSalt true⟩,
    .select 0, .acquire 0, .selected 0, .finish 0]

/-- The two administrators disable each other. -/
def crossingEvents : List (LockingEvent AccountCall) :=
  provisionEvents ++
    [.begin 1 ⟨contextAt 3 3, .disableUser 1 2⟩, .begin 2 ⟨contextAt 3 4, .disableUser 2 1⟩,
      .select 1, .select 2, .acquire 1, .acquire 1, .selected 1, .select 1, .acquire 1,
      .selected 1, .finish 1, .acquire 2, .acquire 2, .selected 2, .finish 2]

theorem bootstrappedState_runs :
    ∃ administrator, (bootstrapFirstAdministrator asciiPlatform (contextAt 0 1)
      "AA00001".toList samplePassword sampleSalt).Runs Db.empty administrator
        bootstrappedState.shared := by
  have hvalue : ((bootstrapFirstAdministrator asciiPlatform (contextAt 0 1) "AA00001".toList
      samplePassword sampleSalt).value? Db.empty).isSome = true := by decide +kernel
  obtain ⟨administrator, hvalue⟩ := Option.isSome_iff_exists.mp hvalue
  exact ⟨administrator, runs_of_value? hvalue⟩

theorem bootstrappedState_initial :
    (accountSystem asciiPlatform).transitions.initial bootstrappedState :=
  ⟨fun _ => rfl, fun _ => rfl⟩

theorem crossing_disables_keep_administrator :
    ∃ last, (accountSystem asciiPlatform).transitions.Path bootstrappedState crossingEvents
        last ∧
      (∃ disabled ∈ last.shared.users, disabled.isAdministrator = true ∧
        disabled.isActive = false) ∧
          ∃ user ∈ last.shared.users, user.isActive = true ∧ user.isAdministrator = true := by
  have hcomputed : (((accountSystem asciiPlatform).run bootstrappedState crossingEvents).map
      fun last => (last.shared.users.get? 2).map fun user =>
        (user.isAdministrator, user.isActive)) = some (some (true, false)) := by decide +kernel
  obtain ⟨last, hrun, hlast⟩ := Option.map_eq_some_iff.mp hcomputed
  obtain ⟨disabled, hdisabled, hflags⟩ := Option.map_eq_some_iff.mp hlast
  have hpath := LockingSystem.path_of_run hrun
  obtain ⟨administrator, hbootstrap⟩ := bootstrappedState_runs
  exact ⟨last, hpath, ⟨disabled, Table.mem_of_get? hdisabled, congrArg Prod.fst hflags,
    congrArg Prod.snd hflags⟩,
      always_an_administrator hbootstrap bootstrappedState_initial hpath⟩

theorem provisioned_session_never_valid_again :
    ∃ first, ∃ issued : User, (accountSystem asciiPlatform).transitions.Reachable first ∧
      issued.id = 2 ∧
        (∀ events last, (accountSystem asciiPlatform).transitions.Path first events last →
          ∃ current, last.shared.users.get? issued.id = some current ∧
            issued.authVersion ≤ current.authVersion) ∧
          ∀ earlier before event after later last,
            (accountSystem asciiPlatform).transitions.Path first earlier before →
              (accountSystem asciiPlatform).transitions.step before event after →
                Effective before event issued.id →
                  (accountSystem asciiPlatform).transitions.Path after later last →
                    ∃ current, last.shared.users.get? issued.id = some current ∧
                      issued.authVersion < current.authVersion ∧
                        current.sessionAuthHash id ≠ issued.sessionAuthHash id := by
  have hcomputed : (((accountSystem asciiPlatform).run bootstrappedState provisionEvents).map
      fun first => (first.shared.users.get? 2).isSome) = some true := by decide +kernel
  obtain ⟨first, hrun, hfirst⟩ := Option.map_eq_some_iff.mp hcomputed
  obtain ⟨issued, hissued⟩ := Option.isSome_iff_exists.mp hfirst
  have hid : issued.id = 2 := Table.key_of_get? hissued
  have hreach : (accountSystem asciiPlatform).transitions.Reachable first :=
    ⟨_, _, bootstrappedState_initial, LockingSystem.path_of_run hrun⟩
  rw [← hid] at hissued
  exact ⟨first, issued, hreach, hid, session_never_valid_again Function.injective_id hreach hissued⟩

end Agora
