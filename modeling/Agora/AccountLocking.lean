import Agora.DashboardServices
import Agora.RowLocking

/-!
# The account services with their row locks

`provision_user`, `disable_user`, `enable_user` and `reset_user_password` as programs
of locking statements.  With no other session around, each program does what the
service does as one transaction.
-/

namespace Agora

open Transaction

/-! ## Lockable rows -/

inductive RowKey where
  | user (id : Uuid)
  | dashboard (id : Uuid)
  | grant (id : Uuid)
  | accessRequest (id : ℕ)
  | reservation (id : Uuid)
  deriving DecidableEq

inductive LockedRow where
  | user (row : User)
  | dashboard (row : Dashboard)
  | grant (row : ViewerGrant)
  | accessRequest (row : AccessRequest)
  | reservation (row : StorageReservation)

namespace LockedRow

def key : LockedRow → RowKey
  | .user row => .user row.id
  | .dashboard row => .dashboard row.id
  | .grant row => .grant row.id
  | .accessRequest row => .accessRequest row.id
  | .reservation row => .reservation row.id

def user? : LockedRow → Option User
  | .user row => some row
  | _ => none

end LockedRow

instance : Keyed LockedRow RowKey := ⟨LockedRow.key⟩

def Db.lockedRow (db : Db) : RowKey → Option LockedRow
  | .user id => (db.users.get? id).map .user
  | .dashboard id => (db.dashboards.get? id).map .dashboard
  | .grant id => (db.grants.get? id).map .grant
  | .accessRequest id => (db.accessRequests.get? id).map .accessRequest
  | .reservation id => (db.reservations.get? id).map .reservation

def lockedRows : RowStore Db LockedRow where
  row := Db.lockedRow
  key_row := by
    intro db key found hfound
    cases key with
    | _ =>
        obtain ⟨row, hget, rfl⟩ := Option.map_eq_some_iff.mp hfound
        have hkey := Table.key_of_get? hget
        exact congrArg _ hkey

abbrev ServiceProgram := LockingProgram Db RowKey LockedRow Failure

def raise (failure : Failure) : ServiceProgram :=
  .commit (fail failure)

/-- The rows of a user query, ordered by identifier. -/
def Db.usersById (db : Db) (matching : User → Bool) : List User :=
  (db.users.where? matching).insertionSort fun first second => first.id ≤ second.id

/-- A query of users `FOR UPDATE`. -/
def lockUsers (matching : User → Bool) (next : List User → ServiceProgram) : ServiceProgram :=
  .lock
    (fun db => (db.usersById matching).map fun user => .user user.id)
    (fun row => row.user?.any matching)
    (fun rows => next (rows.filterMap LockedRow.user?))

/-! ## Programs -/

/-- `_require_administrator`. -/
def lockAdministrator (actorId : Uuid) (next : User → ServiceProgram) : ServiceProgram :=
  lockUsers (fun user => user.id = actorId) fun users =>
    match (users.find? fun user => user.id = actorId).filter fun actor =>
        actor.isActive && actor.isAdministrator with
    | some actor => next actor
    | none => raise .notAdministrator

def lockTarget (targetId : Uuid) (next : User → ServiceProgram) : ServiceProgram :=
  lockUsers (fun user => user.id = targetId) fun users =>
    match users.find? fun user => user.id = targetId with
    | some target => next target
    | none => raise .userNotFound

inductive AccountOperation where
  | provisionUser (actorId : Uuid) (soeid password salt : Text) (isAdministrator : Bool)
  | disableUser (actorId targetId : Uuid)
  | enableUser (actorId targetId : Uuid)
  | resetUserPassword (actorId targetId : Uuid) (password salt : Text)

structure AccountCall where
  context : CallContext
  operation : AccountOperation

def provisionLocked (platform : Platform) (context : CallContext) (canonical password salt : Text)
    (isAdministrator : Bool) (actor : User) : Tx PUnit := do
  let candidate ← setValidatedPassword platform (newUser context canonical isAdministrator)
    password salt
  let user ← Transaction.recover candidate.insert (duplicateUser canonical)
  recordAccountAudit context .userCreated (some actor.id) user

def disableLocked (context : CallContext) (administrators : ℕ) (actor target : User) :
    Tx PUnit := do
  check (¬ (target.id = actor.id ∧ target.isAdministrator = true ∧ administrators ≤ 1))
    .lastAdministrator
  check (target.id ≠ actor.id) .selfDisable
  if target.isActive = false then
    pure ⟨⟩
  else
    let disabled ← User.save context { target with isActive := false }
    recordAccountAudit context .userDisabled (some actor.id) disabled

def enableLocked (context : CallContext) (actor target : User) : Tx PUnit := do
  if target.isActive = true then
    pure ⟨⟩
  else
    let enabled ← User.save context { target with isActive := true }
    recordAccountAudit context .userEnabled (some actor.id) enabled

def resetLocked (platform : Platform) (context : CallContext) (password salt : Text)
    (actor target : User) : Tx PUnit := do
  let changed ← setValidatedPassword platform target password salt
  let reset ← User.save context { changed with authVersion := changed.authVersion + 1 }
  recordAccountAudit context .userPasswordReset (some actor.id) reset

/-- The locking statements of a call and the rest of its transaction. -/
def AccountCall.program (platform : Platform) (call : AccountCall) : ServiceProgram :=
  match call.operation with
  | .provisionUser actorId soeid password salt isAdministrator =>
      match canonicalizeSoeid soeid with
      | .error message => raise (.invalidSoeid message)
      | .ok canonical =>
          lockAdministrator actorId fun actor =>
            .commit (provisionLocked platform call.context canonical password salt
              isAdministrator actor)
  | .disableUser actorId targetId =>
      lockUsers (fun user => user.isActive && user.isAdministrator) fun administrators =>
        match administrators.find? fun user => user.id = actorId with
        | some actor =>
            lockTarget targetId fun target =>
              .commit (disableLocked call.context administrators.length actor target)
        | none => raise .notAdministrator
  | .enableUser actorId targetId =>
      lockAdministrator actorId fun actor =>
        lockTarget targetId fun target => .commit (enableLocked call.context actor target)
  | .resetUserPassword actorId targetId password salt =>
      lockAdministrator actorId fun actor =>
        lockTarget targetId fun target =>
          .commit (resetLocked platform call.context password salt actor target)

/-! ## Programs without interleaving -/

theorem Db.usersById_perm (db : Db) (matching : User → Bool) :
    (db.usersById matching).Perm (db.users.where? matching) :=
  List.perm_insertionSort _ _

theorem select_lockUsers (db : Db) (matching : User → Bool) :
    lockedRows.select
        (fun db => (db.usersById matching).map fun user => RowKey.user user.id)
        (fun row => row.user?.any matching) db =
      (db.usersById matching).map .user := by
  unfold RowStore.select
  rw [List.filterMap_map, ← List.filterMap_eq_map]
  refine List.filterMap_congr ?_
  intro user huser
  rw [(db.usersById_perm matching).mem_iff, Table.mem_where?_iff] at huser
  have hget : db.users.get? user.id = some user := Table.get?_of_mem huser.1
  simp [RowStore.matching?, lockedRows, Db.lockedRow, hget, LockedRow.user?, huser.2]

theorem alone_lockUsers (matching : User → Bool) (next : List User → ServiceProgram) (db : Db) :
    (lockUsers matching next).alone lockedRows db =
      (next (db.usersById matching)).alone lockedRows db := by
  have hselect := select_lockUsers db matching
  have husers : ((db.usersById matching).map LockedRow.user).filterMap LockedRow.user? =
      db.usersById matching := by
    rw [List.filterMap_map]
    exact List.filterMap_some
  change (next ((lockedRows.select _ _ db).filterMap LockedRow.user?)).alone lockedRows db = _
  rw [hselect, husers]

theorem Db.find?_usersById (db : Db) (matching : User → Bool) (userId : Uuid) :
    (db.usersById matching).find? (fun user => user.id = userId) =
      (db.users.get? userId).filter matching :=
  Table.find?_of_perm_where? (db.usersById_perm matching) userId

theorem Db.find?_usersById_self (db : Db) (userId : Uuid) :
    (db.usersById fun user => user.id = userId).find? (fun user => user.id = userId) =
      db.users.get? userId := by
  rw [Db.find?_usersById]
  cases huser : db.users.get? userId with
  | none => rfl
  | some user =>
      have hid : user.id = userId := Table.key_of_get? huser
      simp [hid]

theorem alone_lockAdministrator (actorId : Uuid) (next : User → ServiceProgram) (db : Db) :
    (lockAdministrator actorId next).alone lockedRows db =
      (requireAdministrator actorId >>= fun actor => (next actor).alone lockedRows) db := by
  unfold lockAdministrator requireAdministrator Db.activeUser
  rw [alone_lockUsers, Db.find?_usersById_self, bind_assoc, bind_get, Option.filter_filter]
  have hboth : (fun actor : User => actor.isActive && actor.isAdministrator) =
      fun actor => actor.isAdministrator && actor.isActive := by
    funext actor
    exact Bool.and_comm _ _
  rw [hboth]
  cases hactor : (db.users.get? actorId).filter fun actor =>
      actor.isAdministrator && actor.isActive with
  | none => rfl
  | some actor => rfl

theorem alone_lockTarget (targetId : Uuid) (next : User → ServiceProgram) (db : Db) :
    (lockTarget targetId next).alone lockedRows db =
      (found (db.users.get? targetId) .userNotFound >>= fun target =>
        (next target).alone lockedRows) db := by
  unfold lockTarget
  rw [alone_lockUsers, Db.find?_usersById_self]
  cases db.users.get? targetId with
  | none => rfl
  | some target => rfl

/-- The call as one transaction. -/
def AccountCall.service (platform : Platform) (call : AccountCall) : Tx User :=
  match call.operation with
  | .provisionUser actorId soeid password salt isAdministrator =>
      provisionUser platform call.context actorId soeid password salt isAdministrator
  | .disableUser actorId targetId => disableUser call.context actorId targetId
  | .enableUser actorId targetId => enableUser call.context actorId targetId
  | .resetUserPassword actorId targetId password salt =>
      resetUserPassword platform call.context actorId targetId password salt

theorem disableLocked_eq (context : CallContext) (administrators : ℕ) (actor target : User) :
    disableLocked context administrators actor target = (do
      check (¬ (target.id = actor.id ∧ target.isAdministrator = true ∧ administrators ≤ 1))
        .lastAdministrator
      check (target.id ≠ actor.id) .selfDisable
      let _ ← (if target.isActive = false then pure target else do
        let disabled ← User.save context { target with isActive := false }
        recordAccountAudit context .userDisabled (some actor.id) disabled
        pure disabled)
      pure ⟨⟩) := by
  unfold disableLocked
  by_cases hactive : target.isActive = false
  · simp only [hactive, if_true, pure_bind]
  · simp only [if_neg hactive, bind_assoc, pure_bind, bind_pure_unit]

theorem enableLocked_eq (context : CallContext) (actor target : User) :
    enableLocked context actor target = (do
      let _ ← (if target.isActive = true then pure target else do
        let enabled ← User.save context { target with isActive := true }
        recordAccountAudit context .userEnabled (some actor.id) enabled
        pure enabled)
      pure ⟨⟩) := by
  unfold enableLocked
  by_cases hactive : target.isActive = true
  · simp only [hactive, if_true, pure_bind]
  · simp only [if_neg hactive, bind_assoc, pure_bind, bind_pure_unit]

theorem alone_disableUser (context : CallContext) (actorId targetId : Uuid) (db : Db) :
    ((lockUsers (fun user => user.isActive && user.isAdministrator) fun administrators =>
        match administrators.find? fun user => user.id = actorId with
        | some actor =>
            lockTarget targetId fun target =>
              .commit (disableLocked context administrators.length actor target)
        | none => raise .notAdministrator).alone lockedRows) db =
      (disableUser context actorId targetId >>= fun _ => pure ⟨⟩) db := by
  have hfind := Table.find?_of_perm_where? (List.Perm.refl
    (db.users.where? fun user => user.isActive && user.isAdministrator)) actorId
  have hlength := (db.usersById_perm fun user =>
    user.isActive && user.isAdministrator).length_eq
  rw [alone_lockUsers, Db.find?_usersById, ← hfind, hlength]
  unfold disableUser
  simp only [bind_assoc]
  rw [bind_get]
  cases hactor : (db.users.where? fun user => user.isActive && user.isAdministrator).find?
      fun user => user.id = actorId with
  | none => rfl
  | some actor =>
      rw [bind_found_of_some rfl]
      refine (alone_lockTarget targetId _ db).trans ?_
      simp only [LockingProgram.alone, disableLocked_eq]

theorem alone_enableUser (context : CallContext) (actorId targetId : Uuid) (db : Db) :
    ((lockAdministrator actorId fun actor =>
      lockTarget targetId fun target =>
        .commit (enableLocked context actor target)).alone lockedRows) db =
      (enableUser context actorId targetId >>= fun _ => pure ⟨⟩) db := by
  rw [alone_lockAdministrator]
  unfold enableUser
  simp only [bind_assoc]
  refine congrArg (fun rest => (requireAdministrator actorId >>= rest) db) (funext fun actor => ?_)
  funext state
  rw [bind_get, alone_lockTarget]
  simp only [LockingProgram.alone, enableLocked_eq]

/-- A program that runs alone does what its service does as one transaction. -/
theorem AccountCall.alone_program (platform : Platform) (call : AccountCall) (db : Db) :
    (call.program platform).alone lockedRows db =
      (call.service platform >>= fun _ => pure ⟨⟩) db := by
  rcases call with ⟨context, operation⟩
  cases operation with
  | provisionUser actorId soeid password salt isAdministrator =>
      unfold AccountCall.program AccountCall.service
      simp only [provisionUser, bind_assoc]
      cases hcanonical : canonicalizeSoeid soeid with
      | error message => rfl
      | ok canonical =>
          refine (alone_lockAdministrator actorId _ db).trans ?_
          simp only [LockingProgram.alone, provisionLocked, orFail, pure_bind, bind_pure_unit]
  | disableUser actorId targetId => exact alone_disableUser context actorId targetId db
  | enableUser actorId targetId => exact alone_enableUser context actorId targetId db
  | resetUserPassword actorId targetId password salt =>
      refine (alone_lockAdministrator actorId _ db).trans ?_
      simp only [AccountCall.service, resetUserPassword, bind_assoc]
      refine congrArg (fun rest => (requireAdministrator actorId >>= rest) db)
        (funext fun actor => ?_)
      funext state
      rw [bind_get, alone_lockTarget]
      simp only [LockingProgram.alone, resetLocked, pure_bind, bind_pure_unit]

end Agora
