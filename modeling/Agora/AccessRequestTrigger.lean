import Mathlib
import Agora.AccessRequestEpisodes
import Agora.DashboardTriggers

/-!
# The trigger on access requests

`AccessRequest.save` and `AGORA_ACCESS_REQUEST_GUARD` write the same state machine,
once over the texts of the model and once over columns where the empty text is
null.  They part where a comparison with a null status, or with a null state of the
dashboard, is unknown, and where `NVL(message, CHR(0))` takes an empty message for
the message of one null character; `SlipsPast` lists these rows.
-/

namespace Agora

open Sql Transaction

/-- The values of an access request as they are assigned: any text for a status. -/
structure RequestColumns where
  id : ℕ
  dashboardId : Uuid
  requesterId : Uuid
  status : Text
  message : Text
  requestedAt : Time
  resolvedAt : Option Time
  resolvedById : Option Uuid
  deriving DecidableEq

def RequestColumns.pending : Text := "pending".toList
def RequestColumns.approved : Text := "approved".toList
def RequestColumns.denied : Text := "denied".toList
def RequestColumns.cancelled : Text := "cancelled".toList

/-- The persisted text of a status. -/
def AccessRequestStatus.text : AccessRequestStatus → Text
  | .pending => RequestColumns.pending
  | .approved => RequestColumns.approved
  | .denied => RequestColumns.denied
  | .cancelled => RequestColumns.cancelled

def AccessRequest.columns (request : AccessRequest) : RequestColumns where
  id := request.id
  dashboardId := request.dashboardId
  requesterId := request.requesterId
  status := request.status.text
  message := request.message
  requestedAt := request.requestedAt
  resolvedAt := request.resolvedAt
  resolvedById := request.resolvedById

/-- The rows that the checks of a request read, with the columns of the dashboards. -/
structure RequestRows where
  dashboards : Uuid → Option DashboardColumns
  users : Uuid → Option User

def Db.requestRows (db : Db) : RequestRows where
  dashboards id := (db.dashboards.get? id).map Dashboard.columns
  users := db.users.get?

abbrev RequestTx := Transaction RequestRows Failure

/-- The rows related to a request: its dashboard, the owner and the requester. -/
structure RequestTarget where
  dashboard : DashboardColumns
  owner : User
  requester : User
  deriving DecidableEq

def RequestTarget.Stored (target : RequestTarget) (rows : RequestRows)
    (row : RequestColumns) : Prop :=
  rows.dashboards row.dashboardId = some target.dashboard ∧
    rows.users target.dashboard.ownerId = some target.owner ∧
      rows.users row.requesterId = some target.requester

instance (target : RequestTarget) (rows : RequestRows) (row : RequestColumns) :
    Decidable (target.Stored rows row) :=
  inferInstanceAs (Decidable (_ ∧ _ ∧ _))

namespace RequestColumns

/-! ## The model -/

/-- The related rows of a row. -/
def target (row : RequestColumns) : RequestTx RequestTarget := do
  let rows ← get
  let dashboard ← found (rows.dashboards row.dashboardId) .doesNotExist
  let owner ← found (rows.users dashboard.ownerId) .doesNotExist
  let requester ← found (rows.users row.requesterId) .doesNotExist
  pure ⟨dashboard, owner, requester⟩

/-- The checks of `save` on a new row. -/
def validateNew (row : RequestColumns) : RequestTx PUnit := do
  check (row.status = pending) (.validation none "new access requests must begin pending")
  let target ← row.target
  check (row.requesterId ≠ target.dashboard.ownerId)
    (.validation (some "requester") "dashboard owner already has access")
  check (target.dashboard.state = some .published ∧ target.owner.isActive = true)
    (.validation (some "dashboard") "dashboard is not accepting access requests")
  check (target.requester.isActive = true)
    (.validation (some "requester") "requester must be active")

/-- `_validate_transition` of a pending request. -/
def validateResolution (row original : RequestColumns) (target : RequestTarget) :
    RequestTx PUnit := do
  if row.status = pending then
    check (row.requestedAt = original.requestedAt)
      (.immutableRecord "pending request time is immutable")
  else
    check (row.status ∈ [approved, denied, cancelled])
      (.validation none "access-request resolution is not valid")
    check (row.resolvedById = some (if row.status = cancelled then row.requesterId
        else target.dashboard.ownerId) ∧ row.resolvedAt ≠ none)
      (.validation none "access-request resolver is not authorized")
    check (row.status = approved →
        (target.dashboard.state = some .published ∨
          target.dashboard.state = some .unpublished) ∧
            target.owner.isActive = true ∧ target.requester.isActive = true)
      (.validation none "dashboard access cannot be approved in the current state")
    check (row.requestedAt = original.requestedAt ∧ row.message = original.message)
      (.immutableRecord "resolution cannot rewrite request history")

/-- `_validate_transition` of a resolved request. -/
def validateReopening (row original : RequestColumns) (target : RequestTarget) :
    RequestTx PUnit := do
  if row.status = pending then
    check (original.requestedAt < row.requestedAt)
      (.validation none "a reopened request must have a later request time")
    check (row.resolvedAt = none ∧ row.resolvedById = none)
      (.validation none "a reopened request must clear its prior resolution")
    check (target.requester.isActive = true)
      (.validation (some "requester") "requester must be active")
    check (row.requesterId ≠ target.dashboard.ownerId)
      (.validation (some "requester") "dashboard owner already has access")
    check (target.dashboard.state = some .published ∧ target.owner.isActive = true)
      (.validation (some "dashboard") "dashboard is not accepting access requests")
  else
    check (row.status = original.status ∧ row.message = original.message ∧
        row.requestedAt = original.requestedAt ∧ row.resolvedAt = original.resolvedAt ∧
          row.resolvedById = original.resolvedById)
      (.immutableRecord "resolved access request is immutable until reopened")

def validateTransition (row original : RequestColumns) : RequestTx PUnit := do
  check (original.dashboardId = row.dashboardId ∧ original.requesterId = row.requesterId)
    (.immutableRecord "access-request scope is immutable")
  let target ← row.target
  if original.status = pending then
    row.validateResolution original target
  else
    row.validateReopening original target

/-- `full_clean`: the choices, the length, `clean` and the check constraints. -/
def fullClean (row : RequestColumns) : RequestTx PUnit := do
  check (row.status ∈ [pending, approved, denied, cancelled])
    (.validation (some "status") "status is not a valid value")
  check (row.message.length ≤ 500)
    (.validation (some "message") "message is not a valid value")
  check (row.status = pending ↔ row.resolvedAt = none ∧ row.resolvedById = none)
    (.validation none "pending and resolution fields do not match")
  check (row.status ≠ pending → row.resolvedAt ≠ none ∧ row.resolvedById ≠ none)
    (.validation none "Constraint “agora_access_resolution_match” is violated.")

/-- The checks of `save` that depend on whether the row is new. -/
def validate (row : RequestColumns) : Option RequestColumns → RequestTx PUnit
  | none => row.validateNew
  | some original => row.validateTransition original

/-- `AccessRequest.save` of a new row, or of values for a stored one, up to the write. -/
def save (row : RequestColumns) (stored : Option RequestColumns) : RequestTx PUnit := do
  row.validate stored
  row.fullClean

/-! ## The database -/

def targetMissing : Raised :=
  ⟨-20023, "access-request target is missing"⟩

/-- The condition that refuses a request on its target. -/
def notAccepting (row : RequestColumns) (target : RequestTarget) : Truth :=
  (isNotNull row.resolvedAt).or <|
  (isNotNull row.resolvedById).or <|
  (equals (some row.requesterId) (some target.dashboard.ownerId)).or <|
  (differs target.dashboard.state (some .published)).or <|
  (differs (some target.owner.isActive) (some true)).or <|
  differs (some target.requester.isActive) (some true)

def messageDiffers (row original : RequestColumns) : Truth :=
  differs (nvl (textColumn row.message) chr0) (nvl (textColumn original.message) chr0)

/-- `AGORA_ACCESS_REQUEST_GUARD` on an update of a pending row. -/
def resolutionGuard (row original : RequestColumns) (target : RequestTarget) : Guard := do
  if equals (textColumn row.status) (some pending) = .holds then
    raiseWhen
      ((differs (some row.requestedAt) (some original.requestedAt)).or <|
        (isNotNull row.resolvedAt).or <|
        isNotNull row.resolvedById)
      (-20023) "pending request time is immutable"
  else
    raiseWhen
      ((within (textColumn row.status) [approved, denied, cancelled]).not.or <|
        (isNull row.resolvedAt).or <|
        (isNull row.resolvedById).or <|
        (differs (some row.requestedAt) (some original.requestedAt)).or <|
        row.messageDiffers original)
      (-20023) "access-request resolution is invalid"
    raiseWhen
      (((equals (textColumn row.status) (some cancelled)).and
          (differs row.resolvedById (some row.requesterId))).or
        ((within (textColumn row.status) [approved, denied]).and
          (differs row.resolvedById (some target.dashboard.ownerId))))
      (-20023) "access-request resolver is not authorized"
    raiseWhen
      ((equals (textColumn row.status) (some approved)).and <|
        (within target.dashboard.state [.published, .unpublished]).not.or <|
        (differs (some target.owner.isActive) (some true)).or <|
        differs (some target.requester.isActive) (some true))
      (-20023) "access request cannot be approved now"

/-- `AGORA_ACCESS_REQUEST_GUARD` on an update of a row that is not pending. -/
def reopeningGuard (row original : RequestColumns) (target : RequestTarget) : Guard :=
  if equals (textColumn row.status) (some pending) = .holds then
    raiseWhen
      ((atMost (some row.requestedAt) (some original.requestedAt)).or (row.notAccepting target))
      (-20023) "access-request reopen is invalid"
  else
    raiseWhen
      ((differs (textColumn row.status) (textColumn original.status)).or <|
        (row.messageDiffers original).or <|
        (differs (some row.requestedAt) (some original.requestedAt)).or <|
        (differs row.resolvedAt original.resolvedAt).or <|
        differs row.resolvedById original.resolvedById)
      (-20023) "resolved access request is immutable until reopened"

/-- `AGORA_ACCESS_REQUEST_GUARD` on an inserted or updated row, after its target is read. -/
def targetGuard (row : RequestColumns) (stored : Option RequestColumns)
    (target : RequestTarget) : Guard :=
  match stored with
  | none =>
      raiseWhen
        ((differs (textColumn row.status) (some pending)).or (row.notAccepting target))
        (-20023) "new access request is invalid"
  | some original => do
      raiseWhen
        ((differs (some row.id) (some original.id)).or <|
          (differs (some row.dashboardId) (some original.dashboardId)).or <|
          differs (some row.requesterId) (some original.requesterId))
        (-20023) "access-request scope is immutable"
      if equals (textColumn original.status) (some pending) = .holds then
        row.resolutionGuard original target
      else
        row.reopeningGuard original target

/-- The row written by an insertion or an update, with its target. -/
def writtenGuard (rows : RequestRows) (row : RequestColumns) (stored : Option RequestColumns) :
    Guard := do
  let dashboard ← selectInto (rows.dashboards row.dashboardId) targetMissing
  let owner ← selectInto (rows.users dashboard.ownerId) targetMissing
  let requester ← selectInto (rows.users row.requesterId) targetMissing
  row.targetGuard stored ⟨dashboard, owner, requester⟩

/-- `AGORA_ACCESS_REQUEST_GUARD`. -/
def guard (rows : RequestRows) : RowEvent RequestColumns → Guard
  | .inserting new => new.writtenGuard rows none
  | .updating old new => new.writtenGuard rows (some old)
  | .deleting _ => .error ⟨-20023, "access requests are retained"⟩

/-- `agora_access_status_valid`. -/
def statusValid (row : RequestColumns) : Truth :=
  within (textColumn row.status) [pending, approved, denied, cancelled]

/-- `agora_access_resolution_match`. -/
def resolutionMatch (row : RequestColumns) : Truth :=
  ((isNull row.resolvedAt).and <|
    (isNull row.resolvedById).and (equals (textColumn row.status) (some pending))).or <|
  ((equals (textColumn row.status) (some pending)).and
      (isNotNull (textColumn row.status))).not.and <|
    (isNotNull row.resolvedAt).and (isNotNull row.resolvedById)

/-- The check constraints of the table, which refuse only what fails. -/
def MeetsConstraints (row : RequestColumns) : Prop :=
  row.statusValid ≠ .fails ∧ row.resolutionMatch ≠ .fails

instance (row : RequestColumns) : Decidable row.MeetsConstraints :=
  inferInstanceAs (Decidable (_ ∧ _))

/-- The statement that writes the row. -/
def event (row : RequestColumns) : Option RequestColumns → RowEvent RequestColumns
  | none => .inserting row
  | some original => .updating original row

/-- The trigger and the check constraints accept the written row. -/
def DatabaseAccepts (rows : RequestRows) (row : RequestColumns)
    (stored : Option RequestColumns) : Prop :=
  Accepts (guard rows (row.event stored)) ∧ row.MeetsConstraints

/-! ## What the two sides accept -/

variable {rows : RequestRows} {row original : RequestColumns} {target : RequestTarget}

/-- An open request that the users of the target allow. -/
structure Asks (row : RequestColumns) (target : RequestTarget) : Prop where
  open_ : row.resolvedAt = none ∧ row.resolvedById = none
  requester : row.requesterId ≠ target.dashboard.ownerId
  owner : target.owner.isActive = true
  active : target.requester.isActive = true

/-- A resolution by the one who may decide it. -/
structure Resolves (row : RequestColumns) (target : RequestTarget) : Prop where
  time : row.resolvedAt ≠ none
  resolver : row.resolvedById = some (if row.status = cancelled then row.requesterId
    else target.dashboard.ownerId)
  active : row.status = approved →
    target.owner.isActive = true ∧ target.requester.isActive = true

/-- The state in which `save` approves a request. -/
def Approvable (row : RequestColumns) (target : RequestTarget) : Prop :=
  row.status = approved →
    target.dashboard.state = some .published ∨ target.dashboard.state = some .unpublished

/-- The state in which the trigger approves a request: a null state is not refused. -/
def UnrefusedApproval (row : RequestColumns) (target : RequestTarget) : Prop :=
  row.status = approved →
    ∀ state ∈ target.dashboard.state, state = .published ∨ state = .unpublished

def SameScope (row original : RequestColumns) : Prop :=
  original.dashboardId = row.dashboardId ∧ original.requesterId = row.requesterId

/-- What `save` accepts of a pending original. -/
def SavesResolution (row original : RequestColumns) (target : RequestTarget) : Prop :=
  row.requestedAt = original.requestedAt ∧
    ((row.status = pending ∧ row.resolvedAt = none ∧ row.resolvedById = none) ∨
      (row.status ∈ [approved, denied, cancelled] ∧ row.message = original.message ∧
        row.Resolves target ∧ row.Approvable target))

/-- What `save` accepts of an original that is not pending. -/
def SavesReopening (row original : RequestColumns) (target : RequestTarget) : Prop :=
  (row.status = pending ∧ original.requestedAt < row.requestedAt ∧ row.Asks target ∧
      target.dashboard.state = some .published) ∨
    (row.status ∈ [approved, denied, cancelled] ∧ row.status = original.status ∧
      row.message = original.message ∧ row.requestedAt = original.requestedAt ∧
        row.resolvedAt = original.resolvedAt ∧ row.resolvedById = original.resolvedById ∧
          row.resolvedAt ≠ none ∧ row.resolvedById ≠ none)

/-- `AccessRequest.save` accepts the row. -/
def SaveAccepts (rows : RequestRows) (row : RequestColumns) (stored : Option RequestColumns) :
    Prop :=
  (row.save stored).Runs rows ⟨⟩ rows

theorem pending_ne_nil : pending ≠ [] := by
  decide

theorem mem_statuses {status : Text} :
    status ∈ [pending, approved, denied, cancelled] ↔
      status = pending ∨ status ∈ [approved, denied, cancelled] :=
  List.mem_cons

theorem pending_notMem : pending ∉ [approved, denied, cancelled] := by
  decide

theorem runs_target (htarget : target.Stored rows row) {found : RequestTarget}
    {after : RequestRows} :
    row.target.Runs rows found after ↔ found = target ∧ rows = after := by
  obtain ⟨hdashboard, howner, hrequester⟩ := htarget
  simp only [RequestColumns.target, runs_bind, runs_get, runs_found, runs_pure, hdashboard,
    and_assoc, exists_and_left, exists_eq_left', Option.some.injEq, howner, hrequester]
  constructor
  · rintro ⟨rfl, rfl⟩
    exact ⟨rfl, rfl⟩
  · rintro ⟨rfl, rfl⟩
    exact ⟨rfl, rfl⟩

theorem runs_fullClean {done : PUnit} {after : RequestRows} (hmessage : row.message.length ≤ 500) :
    row.fullClean.Runs rows done after ↔
      ((row.status = pending ∧ row.resolvedAt = none ∧ row.resolvedById = none) ∨
        (row.status ∈ [approved, denied, cancelled] ∧ row.resolvedAt ≠ none ∧
          row.resolvedById ≠ none)) ∧ rows = after := by
  simp only [fullClean, runs_bind, runs_check, and_assoc, exists_and_left, exists_eq_left',
    exists_const, mem_statuses]
  have hnotMem := pending_notMem
  constructor
  · rintro ⟨hstatus, _, hclean, hresolved, rfl⟩
    obtain hpending | hdecided := hstatus
    · exact ⟨.inl ⟨hpending, hclean.mp hpending⟩, rfl⟩
    · have hother : row.status ≠ pending := by
        intro hpending
        rw [hpending] at hdecided
        exact hnotMem hdecided
      exact ⟨.inr ⟨hdecided, hresolved hother⟩, rfl⟩
  · rintro ⟨⟨hpending, hopen⟩ | ⟨hdecided, htime, hresolver⟩, rfl⟩
    · exact ⟨.inl hpending, hmessage, by simp [hpending, hopen], by simp [hpending], rfl⟩
    · have hother : row.status ≠ pending := by
        intro hpending
        rw [hpending] at hdecided
        exact hnotMem hdecided
      exact ⟨.inr hdecided, hmessage, by simp [hother, htime], fun _ => ⟨htime, hresolver⟩, rfl⟩

theorem fullClean_kept {done : PUnit} {after : RequestRows}
    (hruns : row.fullClean.Runs rows done after) : rows = after := by
  simp only [fullClean, runs_bind, runs_check, and_assoc, exists_and_left, exists_eq_left',
    exists_const] at hruns
  exact hruns.2.2.2.2

theorem saveAccepts_iff {stored : Option RequestColumns} (hmessage : row.message.length ≤ 500) :
    row.SaveAccepts rows stored ↔
      (row.validate stored).Runs rows ⟨⟩ rows ∧
      ((row.status = pending ∧ row.resolvedAt = none ∧ row.resolvedById = none) ∨
        (row.status ∈ [approved, denied, cancelled] ∧ row.resolvedAt ≠ none ∧
          row.resolvedById ≠ none)) := by
  simp only [SaveAccepts, save, runs_bind, runs_fullClean hmessage]
  constructor
  · rintro ⟨⟨⟩, middle, hbody, hclean, rfl⟩
    exact ⟨hbody, hclean⟩
  · rintro ⟨hbody, hclean⟩
    exact ⟨⟨⟩, rows, hbody, hclean, rfl⟩

theorem decided_ne_pending (hdecided : row.status ∈ [approved, denied, cancelled]) :
    row.status ≠ pending := by
  intro hpending
  rw [hpending] at hdecided
  exact pending_notMem hdecided

theorem saveAccepts_new (htarget : target.Stored rows row) (hmessage : row.message.length ≤ 500) :
    row.SaveAccepts rows none ↔
      row.status = pending ∧ row.Asks target ∧ target.dashboard.state = some .published := by
  rw [saveAccepts_iff hmessage]
  simp only [validate, validateNew, runs_bind, runs_check, runs_target htarget, and_assoc,
    exists_and_left, exists_eq_left', exists_const]
  constructor
  · rintro ⟨hstatus, ⟨_, rfl, hrequester, hpublished, howner, hactive, _⟩, hclean⟩
    obtain ⟨_, hopen⟩ | ⟨hdecided, _⟩ := hclean
    · exact ⟨hstatus, ⟨hopen, hrequester, howner, hactive⟩, hpublished⟩
    · exact absurd hstatus (decided_ne_pending hdecided)
  · rintro ⟨hstatus, hasks, hpublished⟩
    exact ⟨hstatus, ⟨target, rfl, hasks.requester, hpublished, hasks.owner, hasks.active,
      trivial⟩, .inl ⟨hstatus, hasks.open_⟩⟩

theorem runs_validateResolution {done : PUnit} {after : RequestRows} :
    (row.validateResolution original target).Runs rows done after ↔
      (row.requestedAt = original.requestedAt ∧
        (row.status = pending ∨
          (row.status ≠ pending ∧ row.status ∈ [approved, denied, cancelled] ∧
            row.message = original.message ∧ row.Resolves target ∧
              row.Approvable target))) ∧ rows = after := by
  simp only [validateResolution, runs_bind, runs_check, runs_ite, and_assoc, exists_and_left,
    exists_eq_left', exists_const]
  constructor
  · rintro (⟨hpending, htime, rfl⟩ |
      ⟨hother, hdecided, hresolver, hresolved, happrovable, htime, hmessage, rfl⟩)
    · exact ⟨htime, .inl hpending, rfl⟩
    · have hresolves : row.Resolves target :=
        ⟨hresolved, hresolver, fun happroved => (happrovable happroved).2⟩
      exact ⟨htime, .inr ⟨hother, hdecided, hmessage, hresolves,
        fun happroved => (happrovable happroved).1⟩, rfl⟩
  · rintro ⟨htime, hpending | ⟨hother, hdecided, hmessage, hresolves, happrovable⟩, rfl⟩
    · exact .inl ⟨hpending, htime, rfl⟩
    · exact .inr ⟨hother, hdecided, hresolves.resolver, hresolves.time,
        fun happroved => ⟨happrovable happroved, hresolves.active happroved⟩, htime, hmessage,
        rfl⟩

theorem saveAccepts_pending (htarget : target.Stored rows row)
    (hmessage : row.message.length ≤ 500) (horiginal : original.status = pending) :
    row.SaveAccepts rows (some original) ↔
      row.SameScope original ∧ row.SavesResolution original target := by
  rw [saveAccepts_iff hmessage]
  simp only [validate, validateTransition, runs_bind, runs_check, runs_ite, runs_target htarget,
    runs_validateResolution, horiginal, and_assoc, exists_and_left, exists_eq_left',
    exists_const, true_and, not_true_eq_false, false_and, or_false, SameScope, and_true]
  constructor
  · rintro ⟨hdashboard, hrequester, ⟨_, rfl, htime, hbody⟩, hclean⟩
    refine ⟨hdashboard, hrequester, htime, ?_⟩
    obtain hpending | ⟨_, hdecided, hmessage, hresolves⟩ := hbody
    · obtain hopen | ⟨hdecided, _⟩ := hclean
      · exact .inl hopen
      · exact absurd hpending (decided_ne_pending hdecided)
    · exact .inr ⟨hdecided, hmessage, hresolves⟩
  · rintro ⟨hdashboard, hrequester, htime, hopen | ⟨hdecided, hmessage, hresolves⟩⟩
    · exact ⟨hdashboard, hrequester, ⟨target, rfl, htime, .inl hopen.1⟩, .inl hopen⟩
    · refine ⟨hdashboard, hrequester, ⟨target, rfl, htime,
        .inr ⟨decided_ne_pending hdecided, hdecided, hmessage, hresolves⟩⟩,
        .inr ⟨hdecided, hresolves.1.time, ?_⟩⟩
      rw [hresolves.1.resolver]
      exact Option.some_ne_none _

theorem saveAccepts_other (htarget : target.Stored rows row)
    (hmessage : row.message.length ≤ 500) (horiginal : original.status ≠ pending) :
    row.SaveAccepts rows (some original) ↔
      row.SameScope original ∧ row.SavesReopening original target := by
  rw [saveAccepts_iff hmessage]
  simp only [validate, validateTransition, validateReopening, runs_bind, runs_check,
    runs_ite, runs_target htarget, horiginal, and_assoc, exists_and_left, exists_eq_left',
    exists_const, SameScope, false_and, false_or, not_false_eq_true, true_and]
  constructor
  · rintro ⟨hdashboard, hrequester, ⟨_, rfl, hbody⟩, hclean⟩
    refine ⟨hdashboard, hrequester, ?_⟩
    obtain ⟨hpending, hlater, htime, hresolver, hactive, hother, hpublished, howner, _⟩ |
      ⟨hother, hstatus, hmessage, hrequested, htime, hresolver, _⟩ := hbody
    · exact .inl ⟨hpending, hlater, ⟨⟨htime, hresolver⟩, hother, howner, hactive⟩, hpublished⟩
    · obtain ⟨hpending, _⟩ | ⟨hdecided, hset⟩ := hclean
      · exact absurd hpending hother
      · exact .inr ⟨hdecided, hstatus, hmessage, hrequested, htime, hresolver, hset⟩
  · rintro ⟨hdashboard, hrequester, ⟨hpending, hlater, hasks, hpublished⟩ |
      ⟨hdecided, hstatus, hmessage, hrequested, htime, hresolver, hset⟩⟩
    · exact ⟨hdashboard, hrequester, ⟨target, rfl, .inl ⟨hpending, hlater, hasks.open_.1,
        hasks.open_.2, hasks.active, hasks.requester, hpublished, hasks.owner,
        trivial⟩⟩, .inl ⟨hpending, hasks.open_⟩⟩
    · exact ⟨hdashboard, hrequester, ⟨target, rfl, .inr ⟨decided_ne_pending hdecided, hstatus,
        hmessage, hrequested, htime, hresolver, trivial⟩⟩, .inr ⟨hdecided, hset⟩⟩

/-- Messages that `NVL` does not tell apart. -/
def SameLook (row original : RequestColumns) : Prop :=
  row.message = original.message ∨ (row.message = [] ∧ original.message = chr0) ∨
    (row.message = chr0 ∧ original.message = [])

/-- Fields between which SQL sees no difference. -/
def Blurs {α : Type} (first second : Option α) : Prop :=
  first = none ∨ second = none ∨ first = second

/-- A null state of the dashboard is not known to differ from `published`. -/
theorem notAccepting_ne_holds :
    row.notAccepting target ≠ .holds ↔
      row.Asks target ∧
        (target.dashboard.state = none ∨ target.dashboard.state = some .published) := by
  have hstate : differs target.dashboard.state (some .published) ≠ .holds ↔
      target.dashboard.state = none ∨ target.dashboard.state = some .published := by
    simp only [differs_ne_holds, reduceCtorEq, false_or]
  rw [← hstate]
  simp only [notAccepting, ne_eq, Truth.or_eq_holds, isNotNull_eq_holds, equals_eq_holds,
    differs_some, Option.mem_some_iff, exists_eq_left', not_or, not_not]
  constructor
  · rintro ⟨htime, hresolver, hother, hpublished, howner, hactive⟩
    exact ⟨⟨⟨htime, hresolver⟩, hother, howner, hactive⟩, hpublished⟩
  · rintro ⟨hasks, hpublished⟩
    exact ⟨hasks.open_.1, hasks.open_.2, hasks.requester, hpublished, hasks.owner, hasks.active⟩

theorem messageDiffers_ne_holds : row.messageDiffers original ≠ .holds ↔ row.SameLook original :=
  differs_nvl_textColumn

/-- The check constraints, with their comparisons of nulls resolved. -/
theorem meetsConstraints_iff :
    row.MeetsConstraints ↔
      (row.status = [] ∧ (row.resolvedAt = none ↔ row.resolvedById = none)) ∨
      (row.status = pending ∧ row.resolvedAt = none ∧ row.resolvedById = none) ∨
      (row.status ∈ [approved, denied, cancelled] ∧ row.resolvedAt ≠ none ∧
        row.resolvedById ≠ none) := by
  have hnil : ([] : Text) ∉ [approved, denied, cancelled] := by decide
  simp only [MeetsConstraints, statusValid, resolutionMatch, ne_eq, within_textColumn_fails,
    mem_statuses, Truth.or_eq_fails, Truth.and_eq_fails, Truth.not_eq_fails, Truth.and_eq_holds,
    equals_textColumn pending_ne_nil, equals_textColumn_fails, isNull_eq_fails,
    isNotNull_eq_fails, isNotNull_eq_holds, textColumn_eq_none]
  have hdecided := @decided_ne_pending row
  by_cases hempty : row.status = []
  · simp only [hempty]
    grind [pending_ne_nil]
  · grind [pending_ne_nil]

theorem accepts_guard (htarget : target.Stored rows row) {stored : Option RequestColumns} :
    Accepts (guard rows (row.event stored)) ↔ Accepts (row.targetGuard stored target) := by
  obtain ⟨hdashboard, howner, hrequester⟩ := htarget
  have hevent : guard rows (row.event stored) = row.writtenGuard rows stored := by
    cases stored <;> rfl
  rw [hevent]
  simp only [writtenGuard, accepts_bind_selectInto, hdashboard, howner, hrequester,
    Option.mem_some_iff, exists_eq_left']

theorem databaseAccepts_new (htarget : target.Stored rows row) :
    row.DatabaseAccepts rows none ↔
      (row.status = [] ∨ row.status = pending) ∧ row.Asks target ∧
        (target.dashboard.state = none ∨ target.dashboard.state = some .published) := by
  have hguard : Accepts (row.targetGuard none target) ↔
      (row.status = [] ∨ row.status = pending) ∧ row.Asks target ∧
        (target.dashboard.state = none ∨ target.dashboard.state = some .published) := by
    simp only [targetGuard, accepts_raiseWhen, ne_eq, Truth.or_eq_holds, not_or,
      differs_textColumn_some, ← notAccepting_ne_holds, and_congr_left_iff]
    intro _
    tauto
  rw [DatabaseAccepts, accepts_guard htarget, hguard, meetsConstraints_iff]
  constructor
  · exact And.left
  · rintro ⟨hstatus, hasks, hstate⟩
    refine ⟨⟨hstatus, hasks, hstate⟩, ?_⟩
    obtain hempty | hpending := hstatus
    · exact .inl ⟨hempty, by simp [hasks.open_]⟩
    · exact .inr (.inl ⟨hpending, hasks.open_⟩)

theorem accepts_scopeGuard (hid : original.id = row.id) :
    Accepts (row.targetGuard (some original) target) ↔
      row.SameScope original ∧
        (original.status = pending → Accepts (row.resolutionGuard original target)) ∧
          (original.status ≠ pending → Accepts (row.reopeningGuard original target)) := by
  simp only [targetGuard, accepts_bind, accepts_raiseWhen, accepts_ite, ne_eq, Truth.or_eq_holds,
    differs_some, not_or, not_not, equals_textColumn pending_ne_nil, SameScope, hid,
    @eq_comm _ row.dashboardId, @eq_comm _ row.requesterId, true_and]

theorem differs_some_right_ne_holds {value : Option Uuid} {expected : Uuid}
    (hset : value ≠ none) : differs value (some expected) ≠ .holds ↔ value = some expected := by
  rw [differs_ne_holds]
  constructor
  · rintro (hnone | hnone | hsame)
    · exact absurd hnone hset
    · exact absurd hnone (Option.some_ne_none _)
    · exact hsame
  · exact fun hsame => .inr (.inr hsame)

/-- A resolver that is set is compared without nulls. -/
theorem resolves_iff (hdecided : row.status ∈ [approved, denied, cancelled])
    (htime : row.resolvedAt ≠ none) (hresolver : row.resolvedById ≠ none) :
    row.Resolves target ↔
      (row.status = cancelled → differs row.resolvedById (some row.requesterId) ≠ .holds) ∧
        (row.status ∈ [approved, denied] →
          differs row.resolvedById (some target.dashboard.ownerId) ≠ .holds) ∧
          (row.status = approved →
            target.owner.isActive = true ∧ target.requester.isActive = true) := by
  have hcancelled : cancelled ∉ [approved, denied] := by decide
  have hsplit : row.status ∈ [approved, denied] ↔ row.status ≠ cancelled := by
    constructor
    · intro hmem hcancel
      rw [hcancel] at hmem
      exact hcancelled hmem
    · intro hother
      simp only [List.mem_cons, List.not_mem_nil, or_false] at hdecided ⊢
      tauto
  rw [differs_some_right_ne_holds hresolver, differs_some_right_ne_holds hresolver, hsplit]
  constructor
  · intro hresolves
    have hdecider := hresolves.resolver
    refine ⟨fun hcancel => ?_, fun hother => ?_, hresolves.active⟩
    · rwa [if_pos hcancel] at hdecider
    · rwa [if_neg hother] at hdecider
  · rintro ⟨hcancel, hother, hactive⟩
    refine ⟨htime, ?_, hactive⟩
    by_cases hcase : row.status = cancelled
    · rw [if_pos hcase]
      exact hcancel hcase
    · rw [if_neg hcase]
      exact hother hcase

/-- The guard of an approval: the state is not known to be another one. -/
theorem unrefusedApproval_iff :
    row.UnrefusedApproval target ↔
      (row.status = approved →
        within target.dashboard.state [.published, .unpublished] ≠ .fails) := by
  simp only [UnrefusedApproval, ne_eq, within_eq_fails, List.mem_cons, List.not_mem_nil,
    or_false, not_exists, not_and, not_not]

theorem accepts_resolutionGuard :
    Accepts (row.resolutionGuard original target) ↔
      row.requestedAt = original.requestedAt ∧
        ((row.status = pending ∧ row.resolvedAt = none ∧ row.resolvedById = none) ∨
          ((row.status = [] ∨ row.status ∈ [approved, denied, cancelled]) ∧
            row.resolvedAt ≠ none ∧ row.resolvedById ≠ none ∧ row.SameLook original ∧
              (row.status ≠ [] → row.Resolves target ∧ row.UnrefusedApproval target))) := by
  have hcancelled : cancelled ≠ [] := by decide
  have happroved : approved ≠ [] := by decide
  have happrovable := @unrefusedApproval_iff row target
  simp only [resolutionGuard, accepts_bind, accepts_raiseWhen, accepts_ite,
    equals_textColumn pending_ne_nil, equals_textColumn hcancelled, equals_textColumn happroved,
    ne_eq, Truth.or_eq_holds, Truth.not_eq_holds, Truth.and_eq_holds, within_textColumn_fails,
    within_textColumn, isNull_eq_holds, isNotNull_eq_holds, differs_some, not_or, not_not,
    not_and, ← messageDiffers_ne_holds] at happrovable ⊢
  by_cases hpending : row.status = pending
  · have hfilled : pending ≠ [] := pending_ne_nil
    have hother : pending ∉ [approved, denied, cancelled] := pending_notMem
    simp only [hpending, true_implies, not_true_eq_false, false_implies, true_and, and_true,
      hfilled, hother, or_self, false_and, or_false]
  · simp only [hpending, false_implies, not_false_eq_true, true_implies, true_and, false_and,
      false_or]
    by_cases hempty : row.status = []
    · simp only [hempty, hcancelled.symm, happroved.symm, not_true_eq_false, false_implies,
        true_and, and_true, true_or, false_and]
      tauto
    · simp only [hempty, not_false_eq_true, true_implies, true_and, false_or]
      constructor
      · rintro ⟨⟨hdecided, htime, hresolver, hrequested, hmessage⟩, ⟨hcancel, hother⟩,
          happroval⟩
        refine ⟨hrequested, hdecided, htime, hresolver, hmessage, ?_, ?_⟩
        · exact (resolves_iff hdecided htime hresolver).mpr
            ⟨hcancel, hother, fun happroved => (happroval happroved).2⟩
        · exact happrovable.mpr fun happroved => (happroval happroved).1
      · rintro ⟨hrequested, hdecided, htime, hresolver, hmessage, hresolves, hstate⟩
        obtain ⟨hcancel, hother, hactive⟩ := (resolves_iff hdecided htime hresolver).mp hresolves
        exact ⟨⟨hdecided, htime, hresolver, hrequested, hmessage⟩, ⟨hcancel, hother⟩,
          fun happroved => ⟨happrovable.mp hstate happroved, hactive happroved⟩⟩

theorem accepts_reopeningGuard :
    Accepts (row.reopeningGuard original target) ↔
      (row.status = pending ∧ original.requestedAt < row.requestedAt ∧ row.Asks target ∧
          (target.dashboard.state = none ∨ target.dashboard.state = some .published)) ∨
        (row.status ≠ pending ∧
          (row.status = [] ∨ original.status = [] ∨ row.status = original.status) ∧
            row.SameLook original ∧ row.requestedAt = original.requestedAt ∧
              Blurs row.resolvedAt original.resolvedAt ∧
                Blurs row.resolvedById original.resolvedById) := by
  simp only [reopeningGuard, accepts_raiseWhen, accepts_ite,
    equals_textColumn pending_ne_nil, ne_eq, Truth.or_eq_holds, not_or, ← notAccepting_ne_holds,
    ← messageDiffers_ne_holds, Blurs, ← differs_ne_holds, differs_textColumn, atMost_eq_holds,
    differs_some, Option.mem_some_iff, exists_eq_left', not_le, not_not]
  by_cases hpending : row.status = pending
  · simp [hpending]
  · simp only [hpending, false_implies, not_false_eq_true, true_implies, true_and, false_and,
      false_or]
    tauto

theorem meetsConstraints_of_written
    (hstatus : row.status = [] ∨ row.status ∈ [approved, denied, cancelled])
    (htime : row.resolvedAt ≠ none) (hresolver : row.resolvedById ≠ none) :
    row.MeetsConstraints := by
  rw [meetsConstraints_iff]
  obtain hempty | hdecided := hstatus
  · exact .inl ⟨hempty, by simp [htime, hresolver]⟩
  · exact .inr (.inr ⟨hdecided, htime, hresolver⟩)

theorem databaseAccepts_pending (htarget : target.Stored rows row) (hid : original.id = row.id)
    (horiginal : original.status = pending) :
    row.DatabaseAccepts rows (some original) ↔
      row.SameScope original ∧ row.requestedAt = original.requestedAt ∧
        ((row.status = pending ∧ row.resolvedAt = none ∧ row.resolvedById = none) ∨
          ((row.status = [] ∨ row.status ∈ [approved, denied, cancelled]) ∧
            row.resolvedAt ≠ none ∧ row.resolvedById ≠ none ∧ row.SameLook original ∧
              (row.status ≠ [] → row.Resolves target ∧ row.UnrefusedApproval target))) := by
  rw [DatabaseAccepts, accepts_guard htarget, accepts_scopeGuard hid, accepts_resolutionGuard]
  simp only [horiginal, true_implies, ne_eq, not_true_eq_false, false_implies, and_true]
  constructor
  · exact And.left
  · intro haccepted
    refine ⟨haccepted, ?_⟩
    obtain ⟨-, -, hopen | ⟨hstatus, htime, hresolver, -⟩⟩ := haccepted
    · exact meetsConstraints_iff.mpr (.inr (.inl hopen))
    · exact meetsConstraints_of_written hstatus htime hresolver

theorem databaseAccepts_other (htarget : target.Stored rows row) (hid : original.id = row.id)
    (horiginal : original.status ≠ pending) :
    row.DatabaseAccepts rows (some original) ↔
      row.SameScope original ∧ row.MeetsConstraints ∧
        ((row.status = pending ∧ original.requestedAt < row.requestedAt ∧ row.Asks target ∧
            (target.dashboard.state = none ∨ target.dashboard.state = some .published)) ∨
          (row.status ≠ pending ∧
            (row.status = [] ∨ original.status = [] ∨ row.status = original.status) ∧
              row.SameLook original ∧ row.requestedAt = original.requestedAt ∧
                Blurs row.resolvedAt original.resolvedAt ∧
                  Blurs row.resolvedById original.resolvedById)) := by
  rw [DatabaseAccepts, accepts_guard htarget, accepts_scopeGuard hid, accepts_reopeningGuard]
  simp only [horiginal, false_implies, ne_eq, not_false_eq_true, true_implies, true_and]
  tauto

/-! ## The rows that slip past the trigger -/

/-- A resolution of a pending request that only the database accepts: the status is null, or
the message changes out of sight, or the state of the dashboard is null. -/
def SlipsPastResolution (row original : RequestColumns) (target : RequestTarget) : Prop :=
  row.requestedAt = original.requestedAt ∧ row.SameLook original ∧
    row.resolvedAt ≠ none ∧ row.resolvedById ≠ none ∧
      (row.status = [] ∨
        (row.status ∈ [approved, denied, cancelled] ∧ row.Resolves target ∧
          row.UnrefusedApproval target ∧
            (row.message ≠ original.message ∨
              (row.status = approved ∧ target.dashboard.state = none))))

/-- A change of a resolved request that only the database accepts. -/
def SlipsPastChange (row original : RequestColumns) : Prop :=
  row.requestedAt = original.requestedAt ∧ row.SameLook original ∧
    row.status ≠ pending ∧ Blurs row.resolvedAt original.resolvedAt ∧
      Blurs row.resolvedById original.resolvedById ∧
        ((row.status = [] ∧ (row.resolvedAt = none ↔ row.resolvedById = none)) ∨
          (row.status ∈ [approved, denied, cancelled] ∧ row.resolvedAt ≠ none ∧
            row.resolvedById ≠ none ∧
              (original.status = [] ∨
                (row.status = original.status ∧ row.message ≠ original.message))))

/-- A reopening on a dashboard without a state. -/
def SlipsPastReopening (row original : RequestColumns) (target : RequestTarget) : Prop :=
  row.status = pending ∧ original.requestedAt < row.requestedAt ∧ row.Asks target ∧
    target.dashboard.state = none

/-- A new request without a status, or on a dashboard without a state. -/
def SlipsPastInsertion (row : RequestColumns) (target : RequestTarget) : Prop :=
  row.Asks target ∧
    ((row.status = [] ∧
        (target.dashboard.state = none ∨ target.dashboard.state = some .published)) ∨
      (row.status = pending ∧ target.dashboard.state = none))

/-- A null status and a null state of the dashboard are refused nowhere, and a message may
change between the empty text and the null character. -/
def SlipsPast (row : RequestColumns) (target : RequestTarget) : Option RequestColumns → Prop
  | none => row.SlipsPastInsertion target
  | some original =>
      row.SameScope original ∧
        if original.status = pending then row.SlipsPastResolution original target
        else row.SlipsPastChange original ∨ row.SlipsPastReopening original target

theorem nil_ne_pending (hempty : row.status = []) : row.status ≠ pending := by
  intro hpending
  exact pending_ne_nil (hpending.symm.trans hempty)

theorem nil_notMem (hempty : row.status = []) : row.status ∉ [approved, denied, cancelled] := by
  rw [hempty]
  decide

theorem Resolves.resolver_ne_none (hresolves : row.Resolves target) : row.resolvedById ≠ none := by
  rw [hresolves.resolver]
  exact Option.some_ne_none _

/-- Two predicates of which one implies the other agree away from their difference. -/
theorem agree_iff_not {saved accepted slips : Prop} (himplies : saved → accepted)
    (hslips : slips ↔ accepted ∧ ¬ saved) : (saved ↔ accepted) ↔ ¬ slips := by
  tauto

theorem Approvable.unrefused (happrovable : row.Approvable target) :
    row.UnrefusedApproval target := by
  intro happroved state hstate
  obtain hpublished | hunpublished := happrovable happroved
  · rw [hpublished] at hstate
    exact .inl (Option.some.inj hstate).symm
  · rw [hunpublished] at hstate
    exact .inr (Option.some.inj hstate).symm

/-- An approval that is not refused is one that `save` makes, or its state is null. -/
theorem UnrefusedApproval.approvable (hunrefused : row.UnrefusedApproval target)
    (hstate : row.status = approved → target.dashboard.state ≠ none) :
    row.Approvable target := by
  intro happroved
  obtain ⟨state, hfound⟩ := Option.ne_none_iff_exists'.mp (hstate happroved)
  rw [hfound]
  exact (hunrefused happroved state hfound).imp (congrArg some) (congrArg some)

theorem insertion_agrees_iff (htarget : target.Stored rows row)
    (hmessage : row.message.length ≤ 500) :
    (row.SaveAccepts rows none ↔ row.DatabaseAccepts rows none) ↔
      ¬ row.SlipsPast target none := by
  rw [saveAccepts_new htarget hmessage, databaseAccepts_new htarget]
  have hdiffer := @nil_ne_pending row
  have hstate : target.dashboard.state = none → target.dashboard.state ≠ some .published := by
    intro hnone
    simp [hnone]
  apply agree_iff_not
  · rintro ⟨hpending, hasks, hpublished⟩
    exact ⟨.inr hpending, hasks, .inr hpublished⟩
  · simp only [SlipsPast, SlipsPastInsertion]
    tauto

/-- What `save` accepts of a pending original, the database accepts. -/
theorem SavesResolution.accepted (hsaves : row.SavesResolution original target) :
    row.requestedAt = original.requestedAt ∧
      ((row.status = pending ∧ row.resolvedAt = none ∧ row.resolvedById = none) ∨
        ((row.status = [] ∨ row.status ∈ [approved, denied, cancelled]) ∧
          row.resolvedAt ≠ none ∧ row.resolvedById ≠ none ∧ row.SameLook original ∧
            (row.status ≠ [] → row.Resolves target ∧ row.UnrefusedApproval target))) := by
  obtain ⟨hrequested, hopen | ⟨hdecided, hsame, hresolves, happrovable⟩⟩ := hsaves
  · exact ⟨hrequested, .inl hopen⟩
  · exact ⟨hrequested, .inr ⟨.inr hdecided, hresolves.time, hresolves.resolver_ne_none,
      .inl hsame, fun _ => ⟨hresolves, happrovable.unrefused⟩⟩⟩

/-- A resolution that slips past is none that `save` accepts. -/
theorem SlipsPastResolution.unsaved (hslips : row.SlipsPastResolution original target) :
    ¬ row.SavesResolution original target := by
  obtain ⟨-, -, -, -, hempty | ⟨hdecided, -, -, hslip⟩⟩ := hslips
  · rintro ⟨-, ⟨hpending, -⟩ | ⟨hdecided, -⟩⟩
    · exact nil_ne_pending hempty hpending
    · exact nil_notMem hempty hdecided
  · rintro ⟨-, ⟨hpending, -⟩ | ⟨-, hsame, -, happrovable⟩⟩
    · exact decided_ne_pending hdecided hpending
    · obtain hother | ⟨happroved, hnone⟩ := hslip
      · exact hother hsame
      · simpa [hnone] using happrovable happroved

theorem resolution_agrees_iff (htarget : target.Stored rows row)
    (hmessage : row.message.length ≤ 500) (hid : original.id = row.id)
    (horiginal : original.status = pending) :
    (row.SaveAccepts rows (some original) ↔ row.DatabaseAccepts rows (some original)) ↔
      ¬ row.SlipsPast target (some original) := by
  rw [saveAccepts_pending htarget hmessage horiginal, databaseAccepts_pending htarget hid horiginal]
  simp only [SlipsPast, horiginal, if_true]
  apply agree_iff_not
  · rintro ⟨hscope, hsaves⟩
    exact ⟨hscope, hsaves.accepted⟩
  · constructor
    · rintro ⟨hscope, hslips⟩
      refine ⟨⟨hscope, ?_⟩, fun hsaved => hslips.unsaved hsaved.2⟩
      obtain ⟨hrequested, hlook, htime, hresolver, hempty | ⟨hdecided, hresolves, hstate, -⟩⟩ :=
        hslips
      · exact ⟨hrequested, .inr ⟨.inl hempty, htime, hresolver, hlook,
          fun hfilled => absurd hempty hfilled⟩⟩
      · exact ⟨hrequested, .inr ⟨.inr hdecided, htime, hresolver, hlook,
          fun _ => ⟨hresolves, hstate⟩⟩⟩
    · rintro ⟨⟨hscope, hrequested, hopen | ⟨hstatus, htime, hresolver, hlook, hresolves⟩⟩,
        hrefused⟩
      · exact absurd ⟨hscope, hrequested, .inl hopen⟩ hrefused
      · refine ⟨hscope, hrequested, hlook, htime, hresolver, ?_⟩
        obtain hempty | hdecided := hstatus
        · exact .inl hempty
        · obtain ⟨hresolved, hstate⟩ := hresolves fun hempty => nil_notMem hempty hdecided
          refine .inr ⟨hdecided, hresolved, hstate, ?_⟩
          by_contra hkept
          push Not at hkept
          obtain ⟨hsame, hfound⟩ := hkept
          exact hrefused ⟨hscope, hrequested,
            .inr ⟨hdecided, hsame, hresolved, hstate.approvable hfound⟩⟩

/-- Both resolution fields of a resolved request are set. -/
theorem MeetsConstraints.resolved (hstored : original.MeetsConstraints)
    (hdecided : original.status ∈ [approved, denied, cancelled]) :
    original.resolvedAt ≠ none ∧ original.resolvedById ≠ none := by
  obtain ⟨hempty, -⟩ | ⟨hpending, -⟩ | ⟨-, hset⟩ := meetsConstraints_iff.mp hstored
  · exact absurd hdecided (nil_notMem hempty)
  · exact absurd hpending (decided_ne_pending hdecided)
  · exact hset

theorem Blurs.eq {α : Type} {first second : Option α} (hblurs : Blurs first second)
    (hfirst : first ≠ none) (hsecond : second ≠ none) : first = second := by
  obtain hnone | hnone | hsame := hblurs
  · exact absurd hnone hfirst
  · exact absurd hnone hsecond
  · exact hsame

theorem SavesReopening.accepted (hsaves : row.SavesReopening original target) :
    row.MeetsConstraints ∧
      ((row.status = pending ∧ original.requestedAt < row.requestedAt ∧ row.Asks target ∧
          (target.dashboard.state = none ∨ target.dashboard.state = some .published)) ∨
        (row.status ≠ pending ∧
          (row.status = [] ∨ original.status = [] ∨ row.status = original.status) ∧
            row.SameLook original ∧ row.requestedAt = original.requestedAt ∧
              Blurs row.resolvedAt original.resolvedAt ∧
                Blurs row.resolvedById original.resolvedById)) := by
  obtain ⟨hpending, hlater, hasks, hpublished⟩ |
    ⟨hdecided, hstatus, hsame, hrequested, htime, hresolver, hset⟩ := hsaves
  · refine ⟨?_, .inl ⟨hpending, hlater, hasks, .inr hpublished⟩⟩
    exact meetsConstraints_iff.mpr (.inr (.inl ⟨hpending, hasks.open_⟩))
  · exact ⟨meetsConstraints_of_written (.inr hdecided) hset.1 hset.2,
      .inr ⟨decided_ne_pending hdecided, .inr (.inr hstatus), .inl hsame, hrequested,
        .inr (.inr htime), .inr (.inr hresolver)⟩⟩

theorem SlipsPastChange.unsaved (hslips : row.SlipsPastChange original) :
    ¬ row.SavesReopening original target := by
  obtain ⟨-, -, hother, -, -, ⟨hempty, -⟩ | ⟨hdecided, -, -, hslip⟩⟩ := hslips
  · rintro (⟨hpending, -⟩ | ⟨hdecided, -⟩)
    · exact hother hpending
    · exact nil_notMem hempty hdecided
  · rintro (⟨hpending, -⟩ | ⟨-, hstatus, hsame, -⟩)
    · exact hother hpending
    · obtain hempty | ⟨-, hdiffer⟩ := hslip
      · exact nil_notMem (hstatus.trans hempty) hdecided
      · exact hdiffer hsame

theorem SlipsPastChange.accepted (hslips : row.SlipsPastChange original) :
    row.MeetsConstraints ∧ row.status ≠ pending ∧
      (row.status = [] ∨ original.status = [] ∨ row.status = original.status) ∧
        row.SameLook original ∧ row.requestedAt = original.requestedAt ∧
          Blurs row.resolvedAt original.resolvedAt ∧
            Blurs row.resolvedById original.resolvedById := by
  obtain ⟨hrequested, hlook, hother, htime, hresolver, ⟨hempty, hmatch⟩ |
    ⟨hdecided, hresolvedAt, hresolvedBy, hslip⟩⟩ := hslips
  · exact ⟨meetsConstraints_iff.mpr (.inl ⟨hempty, hmatch⟩), hother, .inl hempty, hlook,
      hrequested, htime, hresolver⟩
  · refine ⟨meetsConstraints_of_written (.inr hdecided) hresolvedAt hresolvedBy, hother, ?_,
      hlook, hrequested, htime, hresolver⟩
    obtain hempty | ⟨hstatus, -⟩ := hslip
    · exact .inr (.inl hempty)
    · exact .inr (.inr hstatus)

theorem reopening_agrees_iff (htarget : target.Stored rows row)
    (hmessage : row.message.length ≤ 500) (hid : original.id = row.id)
    (hstored : original.MeetsConstraints) (horiginal : original.status ≠ pending) :
    (row.SaveAccepts rows (some original) ↔ row.DatabaseAccepts rows (some original)) ↔
      ¬ row.SlipsPast target (some original) := by
  rw [saveAccepts_other htarget hmessage horiginal, databaseAccepts_other htarget hid horiginal]
  simp only [SlipsPast, horiginal, if_false]
  apply agree_iff_not
  · rintro ⟨hscope, hsaves⟩
    exact ⟨hscope, hsaves.accepted⟩
  · constructor
    · rintro ⟨hscope, hslips | ⟨hpending, hlater, hasks, hnone⟩⟩
      · exact ⟨⟨hscope, hslips.accepted.1, .inr hslips.accepted.2⟩,
          fun hsaved => hslips.unsaved hsaved.2⟩
      · refine ⟨⟨hscope, ?_, .inl ⟨hpending, hlater, hasks, .inl hnone⟩⟩, ?_⟩
        · exact meetsConstraints_iff.mpr (.inr (.inl ⟨hpending, hasks.open_⟩))
        · rintro ⟨-, ⟨-, -, -, hpublished⟩ | ⟨hdecided, -⟩⟩
          · simp [hnone] at hpublished
          · exact decided_ne_pending hdecided hpending
    · rintro ⟨⟨hscope, hconstraints, ⟨hpending, hlater, hasks, hstate⟩ |
        ⟨hother, hstatus, hlook, hrequested, htime, hresolver⟩⟩, hrefused⟩
      · refine ⟨hscope, .inr ⟨hpending, hlater, hasks, hstate.resolve_right ?_⟩⟩
        intro hpublished
        exact hrefused ⟨hscope, .inl ⟨hpending, hlater, hasks, hpublished⟩⟩
      · refine ⟨hscope, .inl ⟨hrequested, hlook, hother, htime, hresolver, ?_⟩⟩
        obtain hempty | ⟨hpending, -⟩ | ⟨hdecided, hresolvedAt, hresolvedBy⟩ :=
          meetsConstraints_iff.mp hconstraints
        · exact .inl hempty
        · exact absurd hpending hother
        · refine .inr ⟨hdecided, hresolvedAt, hresolvedBy, ?_⟩
          obtain hempty | hempty | hsameStatus := hstatus
          · exact absurd hdecided (nil_notMem hempty)
          · exact .inl hempty
          · have hset := hstored.resolved (hsameStatus ▸ hdecided)
            refine .inr ⟨hsameStatus, fun hsame => hrefused ⟨hscope, .inr ?_⟩⟩
            exact ⟨hdecided, hsameStatus, hsame, hrequested, htime.eq hresolvedAt hset.1,
              hresolver.eq hresolvedBy hset.2, hresolvedAt, hresolvedBy⟩

end RequestColumns

/-! ## The stored requests -/

theorem AccessRequestStatus.text_injective : Function.Injective AccessRequestStatus.text := by
  intro first second hsame
  cases first <;> cases second <;> first | rfl | exact absurd hsame (by decide)

theorem AccessRequestStatus.text_mem_decided {status : AccessRequestStatus} :
    status.text ∈ [RequestColumns.approved, RequestColumns.denied, RequestColumns.cancelled] ↔
      status ≠ .pending := by
  cases status <;> decide

theorem AccessRequest.columns_pending {request : AccessRequest} :
    request.columns.status = RequestColumns.pending ↔ request.status = .pending :=
  AccessRequestStatus.text_injective.eq_iff (b := .pending)

theorem AccessRequest.runs_fullClean_columns {db after : Db} {rows : RequestRows}
    {row : AccessRequest} {done : PUnit} :
    row.fullClean.Runs db done after ↔
      row.columns.fullClean.Runs rows done rows ∧ db = after := by
  have hstatus := @AccessRequest.columns_pending row
  have hdecided := @AccessRequestStatus.text_mem_decided row.status
  have hmem : row.columns.status ∈ [RequestColumns.pending, RequestColumns.approved,
      RequestColumns.denied, RequestColumns.cancelled] := by
    rw [RequestColumns.mem_statuses, hstatus, AccessRequest.columns, hdecided]
    exact Decidable.em _
  simp only [AccessRequest.fullClean, RequestColumns.fullClean, runs_bind, runs_check, and_assoc,
    exists_and_left, exists_eq_left', exists_const, hmem, true_and, hstatus, ne_eq]
  rfl

theorem AccessRequest.runs_validateTransition_columns {db after : Db}
    {row original : AccessRequest} {target : RequestTarget} {done : PUnit}
    (htarget : target.Stored db.requestRows row.columns) :
    (row.validateTransition original).Runs db done after ↔
      (row.columns.validateTransition original.columns).Runs db.requestRows done
        db.requestRows ∧ db = after := by
  obtain ⟨dashboard, hdashboard, hcolumns⟩ := Option.map_eq_some_iff.mp htarget.1
  have hread : db.dashboards.get? row.dashboardId = some dashboard := hdashboard
  have howner : db.users.get? dashboard.ownerId = some target.owner := by
    have hstored := htarget.2.1
    rw [← hcolumns] at hstored
    exact hstored
  have hrequester : db.users.get? row.requesterId = some target.requester := htarget.2.2
  have hownerId : target.dashboard.ownerId = dashboard.ownerId := by
    rw [← hcolumns]
    rfl
  have hstate : ∀ state, target.dashboard.state = some state ↔ dashboard.state = state := by
    intro state
    rw [← hcolumns]
    exact Option.some_inj
  have haccepts : db.acceptsRequests dashboard ↔
      dashboard.state = .published ∧ target.owner.isActive = true := by
    simp only [Db.acceptsRequests, howner, Option.mem_some_iff, exists_eq_left']
  have hactive : (∃ owner ∈ db.users.get? dashboard.ownerId, owner.isActive = true) ↔
      target.owner.isActive = true := by
    simp only [howner, Option.mem_some_iff, exists_eq_left']
  have hcancelled : row.columns.status = RequestColumns.cancelled ↔ row.status = .cancelled :=
    AccessRequestStatus.text_injective.eq_iff (b := .cancelled)
  have happroved : row.columns.status = RequestColumns.approved ↔ row.status = .approved :=
    AccessRequestStatus.text_injective.eq_iff (b := .approved)
  have hdecided : row.columns.status ∈ [RequestColumns.approved, RequestColumns.denied,
      RequestColumns.cancelled] ↔ row.status ≠ .pending := AccessRequestStatus.text_mem_decided
  have hsame : row.columns.status = original.columns.status ↔ row.status = original.status :=
    AccessRequestStatus.text_injective.eq_iff
  simp only [AccessRequest.validateTransition, RequestColumns.validateTransition, runs_bind,
    runs_check, runs_get, runs_found, runs_ite, RequestColumns.runs_target htarget, hread,
    hrequester, Option.some.injEq, and_assoc, exists_and_left, exists_eq_left', exists_const,
    AccessRequest.validateResolution, RequestColumns.validateResolution,
    AccessRequest.validateReopening, RequestColumns.validateReopening, haccepts, hactive,
    AccessRequest.columns_pending, hcancelled, happroved, hdecided, hsame, hstate, hownerId,
    exists_eq_left, ne_eq, and_self_left]
  by_cases hkept : db = after
  · simp only [hkept, and_true]
    exact Iff.rfl
  · simp only [hkept, and_false, or_self]

/-- A request of the model is saved as its columns are. -/
theorem AccessRequest.save_columns {db : Db} {row original : AccessRequest}
    {target : RequestTarget} (context : CallContext)
    (htarget : target.Stored db.requestRows row.columns)
    (hstored : db.accessRequests.get? row.id = some original) :
    (∃ saved after, (row.save context).Runs db saved after) ↔
      row.columns.SaveAccepts db.requestRows (some original.columns) := by
  have hclean : ∀ {middle after : Db} {done : PUnit},
      ({ row with updatedAt := context.clock } : AccessRequest).fullClean.Runs middle done after ↔
        row.columns.fullClean.Runs db.requestRows done db.requestRows ∧ middle = after :=
    AccessRequest.runs_fullClean_columns
  simp only [RequestColumns.SaveAccepts, RequestColumns.save, RequestColumns.validate,
    AccessRequest.save, runs_bind, runs_get, runs_found, runs_set, runs_pure, hstored, hclean,
    Option.some.injEq, and_assoc, exists_and_left, exists_eq_left', exists_const,
    AccessRequest.runs_validateTransition_columns htarget]
  constructor
  · rintro ⟨_, _, ⟨⟩, hvalid, ⟨⟩, hcleaned, -⟩
    exact ⟨⟨⟩, _, hvalid, hcleaned⟩
  · rintro ⟨⟨⟩, middle, hvalid, hcleaned⟩
    obtain rfl := RequestColumns.fullClean_kept hcleaned
    exact ⟨_, _, ⟨⟩, hvalid, ⟨⟩, hcleaned, rfl, rfl⟩

open RequestColumns in
/-- The model and the trigger accept the same request except where the row slips past. -/
theorem access_request_guards_agree_iff {rows : RequestRows} {row : RequestColumns}
    {target : RequestTarget} {stored : Option RequestColumns} (htarget : target.Stored rows row)
    (hmessage : row.message.length ≤ 500)
    (hstored : ∀ original ∈ stored, original.id = row.id ∧ original.MeetsConstraints) :
    (row.SaveAccepts rows stored ↔ row.DatabaseAccepts rows stored) ↔
      ¬ row.SlipsPast target stored := by
  cases stored with
  | none => exact insertion_agrees_iff htarget hmessage
  | some original =>
      obtain ⟨hid, hconstraints⟩ := hstored original rfl
      by_cases horiginal : original.status = pending
      · exact resolution_agrees_iff htarget hmessage hid horiginal
      · exact reopening_agrees_iff htarget hmessage hid hconstraints horiginal

/-- An approval by the owner which also writes a message. -/
def RequestColumns.approvedWith (original : RequestColumns) (message : Text) (ownerId : Uuid)
    (moment : Time) : RequestColumns :=
  { original with
    status := RequestColumns.approved
    message := message
    resolvedAt := some moment
    resolvedById := some ownerId }

/-- The rows behind the requests of the example calls. -/
def requestedRows : RequestRows :=
  (runCalls asciiPlatform requestedCalls).requestRows

/-- A request without a message is approved with the message of one null character. -/
theorem null_character_slips_past_trigger :
    ∃ (request : AccessRequest) (target : RequestTarget),
      (runCalls asciiPlatform requestedCalls).accessRequests.get? 6 = some request ∧
        target.Stored requestedRows
            (request.columns.approvedWith chr0 1 9) ∧
          (request.columns.approvedWith chr0 1 9).DatabaseAccepts
              requestedRows (some request.columns) ∧
            ¬ (request.columns.approvedWith chr0 1 9).SaveAccepts
              requestedRows (some request.columns) := by
  have hcomputed : ((runCalls asciiPlatform requestedCalls).accessRequests.get? 6).map
      (fun request =>
      ((request.columns.approvedWith chr0 1 9).target.value?
        requestedRows).map fun target =>
          decide (target.Stored requestedRows
              (request.columns.approvedWith chr0 1 9) ∧
            request.status = .pending ∧ request.message = [] ∧ target.dashboard.ownerId = 1 ∧
              target.dashboard.state = some .published ∧ target.owner.isActive = true ∧
                target.requester.isActive = true)) =
        some (some true) := by
    decide +kernel
  obtain ⟨request, hstored, htargets⟩ := Option.map_eq_some_iff.mp hcomputed
  obtain ⟨target, _, hholds⟩ := Option.map_eq_some_iff.mp htargets
  obtain ⟨htarget, hpending, hmessage, howner, hpublished, hactive, hrequester⟩ :=
    of_decide_eq_true hholds
  have horiginal : request.columns.status = RequestColumns.pending := by
    rw [AccessRequest.columns, hpending]
    rfl
  have hempty : request.columns.message = [] := hmessage
  have happroved : (request.columns.approvedWith chr0 1 9).status ∈
      [RequestColumns.approved, RequestColumns.denied, RequestColumns.cancelled] := by
    simp [RequestColumns.approvedWith]
  refine ⟨request, target, hstored, htarget, ?_, ?_⟩
  · have hid : request.columns.id = (request.columns.approvedWith chr0 1 9).id := rfl
    rw [RequestColumns.databaseAccepts_pending htarget hid horiginal]
    refine ⟨⟨rfl, rfl⟩, rfl, .inr ⟨.inr happroved, Option.some_ne_none _, Option.some_ne_none _,
      .inr (.inr ⟨rfl, hempty⟩), fun _ => ⟨⟨Option.some_ne_none _, ?_, fun _ => ?_⟩, ?_⟩⟩⟩
    · have hother : RequestColumns.approved ≠ RequestColumns.cancelled := by decide
      simp [RequestColumns.approvedWith, howner, hother]
    · exact ⟨hactive, hrequester⟩
    · have happrovable : (request.columns.approvedWith chr0 1 9).Approvable target :=
        fun _ => .inl hpublished
      exact happrovable.unrefused
  · have hlength : (request.columns.approvedWith chr0 1 9).message.length ≤ 500 := by
      simp [RequestColumns.approvedWith, chr0]
    rw [RequestColumns.saveAccepts_pending htarget hlength horiginal]
    rintro ⟨_, _, ⟨hstatus, _⟩ | ⟨_, hsame, _⟩⟩
    · exact RequestColumns.decided_ne_pending happroved hstatus
    · rw [hempty] at hsame
      exact absurd hsame (List.cons_ne_nil _ _)

/-- The owner approves the stored request, its message unchanged. -/
theorem approval_guards_agree :
    ∃ (request : AccessRequest) (target : RequestTarget),
      (runCalls asciiPlatform requestedCalls).accessRequests.get? 6 = some request ∧
        target.Stored requestedRows
            (request.columns.approvedWith [] 1 9) ∧
          (((request.columns.approvedWith [] 1 9).SaveAccepts
                requestedRows (some request.columns) ↔
              (request.columns.approvedWith [] 1 9).DatabaseAccepts
                requestedRows (some request.columns)) ↔
            ¬ (request.columns.approvedWith [] 1 9).SlipsPast target (some request.columns)) := by
  have hcomputed : ((runCalls asciiPlatform requestedCalls).accessRequests.get? 6).map
      (fun request =>
      ((request.columns.approvedWith [] 1 9).target.value?
        requestedRows).map fun target =>
          decide (target.Stored requestedRows
              (request.columns.approvedWith [] 1 9) ∧
            request.columns.MeetsConstraints)) =
        some (some true) := by
    decide +kernel
  obtain ⟨request, hstored, htargets⟩ := Option.map_eq_some_iff.mp hcomputed
  obtain ⟨target, _, hholds⟩ := Option.map_eq_some_iff.mp htargets
  obtain ⟨htarget, hconstraints⟩ := of_decide_eq_true hholds
  refine ⟨request, target, hstored, htarget,
    access_request_guards_agree_iff htarget (Nat.zero_le _) ?_⟩
  rintro original ⟨⟩
  exact ⟨rfl, hconstraints⟩

end Agora
