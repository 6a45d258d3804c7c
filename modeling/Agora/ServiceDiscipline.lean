import Agora.DatabaseEvolution
import Agora.ServiceLocking

/-!
# The lock discipline of the services

A dashboard is the first row that a call locks.  Grants and access requests are locked
under the lock of their dashboard, reservations by the call that brings them, and the
users of one query in the order of their identifiers.  Every program of the services
obeys this discipline.
-/

namespace Agora

open Transaction

/-! ## Dashboards of grants and requests -/

/-- The dashboards of grants and requests are stored. -/
structure Db.Referenced (db : Db) : Prop where
  grants : ∀ grant ∈ db.grants, ∃ dashboard,
    db.dashboards.get? grant.dashboardId = some dashboard
  requests : ∀ request ∈ db.accessRequests, ∃ dashboard,
    db.dashboards.get? request.dashboardId = some dashboard

def ViewerGrant.SameDashboard (row later : ViewerGrant) : Prop :=
  later.dashboardId = row.dashboardId

def AccessRequest.SameDashboard (row later : AccessRequest) : Prop :=
  later.dashboardId = row.dashboardId

/-- No dashboard is created, and grants and requests stay with theirs. -/
structure Db.KeepsScopes (before after : Db) : Prop where
  absent : ∀ id, before.dashboards.get? id = none → after.dashboards.get? id = none
  grants : Table.Carries ViewerGrant.SameDashboard before.grants after.grants
  requests : Table.Carries AccessRequest.SameDashboard before.accessRequests after.accessRequests

theorem ViewerGrant.SameDashboard.refl (row : ViewerGrant) : row.SameDashboard row :=
  Eq.refl row.dashboardId

theorem AccessRequest.SameDashboard.refl (row : AccessRequest) : row.SameDashboard row :=
  Eq.refl row.dashboardId

theorem Db.KeepsScopes.refl (db : Db) : db.KeepsScopes db where
  absent _ habsent := habsent
  grants := .refl ViewerGrant.SameDashboard.refl _
  requests := .refl AccessRequest.SameDashboard.refl _

theorem Db.KeepsScopes.trans {first second third : Db} (hfirst : first.KeepsScopes second)
    (hsecond : second.KeepsScopes third) : first.KeepsScopes third where
  absent id habsent := hsecond.absent id (hfirst.absent id habsent)
  grants := hfirst.grants.trans hsecond.grants fun _ _ _ hsame hnext => Eq.trans hnext hsame
  requests := hfirst.requests.trans hsecond.requests fun _ _ _ hsame hnext =>
    Eq.trans hnext hsame

variable {effects : Set Effect} {before after : Db}

theorem Change.requestScopes (hchange : Change effects before after) :
    Table.Carries AccessRequest.SameDashboard before.accessRequests after.accessRequests := by
  cases hchange with
  | requestOpened _ _ hcreate => exact .of_create AccessRequest.SameDashboard.refl hcreate
  | requestReopened horiginal hscope =>
      exact .of_replace AccessRequest.SameDashboard.refl horiginal hscope
  | requestResolved horiginal hscope =>
      exact .of_replace AccessRequest.SameDashboard.refl horiginal hscope
  | _ => exact .refl AccessRequest.SameDashboard.refl _

theorem Change.keepsScopes (hchange : Change effects before after)
    (hnone : .dashboards ∉ effects) : before.KeepsScopes after where
  absent _ habsent := hchange.dashboard_absent hnone habsent
  grants := by
    intro key grant hgrant
    obtain ⟨later, hlater, hscope, _⟩ := hchange.evolves.grants key grant hgrant
    exact ⟨later, hlater, hscope⟩
  requests := hchange.requestScopes

theorem Changes.keepsScopes (hchanges : Changes effects before after)
    (hnone : .dashboards ∉ effects) : before.KeepsScopes after := by
  induction hchanges with
  | refl => exact .refl before
  | tail _ hlast ih => exact ih.trans (hlast.keepsScopes hnone)

theorem Change.referenced (hchange : Change effects before after)
    (hreferenced : before.Referenced) : after.Referenced := by
  have hstored : ∀ id, (∃ dashboard, before.dashboards.get? id = some dashboard) →
      ∃ dashboard, after.dashboards.get? id = some dashboard := by
    rintro id ⟨dashboard, hdashboard⟩
    obtain ⟨later, hlater, _⟩ := hchange.evolves.dashboards id dashboard hdashboard
    exact ⟨later, hlater⟩
  have hgrants : ∀ grant ∈ before.grants, ∃ dashboard,
      after.dashboards.get? grant.dashboardId = some dashboard := fun grant hgrant =>
    hstored _ (hreferenced.grants grant hgrant)
  have hrequests : ∀ request ∈ before.accessRequests, ∃ dashboard,
      after.dashboards.get? request.dashboardId = some dashboard := fun request hrequest =>
    hstored _ (hreferenced.requests request hrequest)
  cases hchange with
  | @grantCreated grant grants dashboard event audits hdashboard hviewer hunrevoked hnone
      hcreate =>
      refine ⟨fun found hfound => ?_, hrequests⟩
      rcases (Table.mem_of_create hcreate).mp hfound with rfl | hold
      · exact ⟨dashboard, hdashboard⟩
      · exact hgrants found hold
  | @grantRevoked grant original event audits horiginal hunrevoked hdashboard =>
      refine ⟨fun found hfound => ?_, hrequests⟩
      rcases (Table.mem_replace horiginal).mp hfound with rfl | ⟨hold, _⟩
      · rw [hdashboard]
        exact hgrants original (Table.mem_of_get? horiginal)
      · exact hgrants found hold
  | @requestOpened row accessRequests dashboard event audits hdashboard hrequester hcreate =>
      refine ⟨hgrants, fun found hfound => ?_⟩
      rcases (Table.mem_of_create hcreate).mp hfound with rfl | hold
      · exact ⟨dashboard, hdashboard⟩
      · exact hrequests found hold
  | @requestReopened row original dashboard event audits horiginal hscope =>
      refine ⟨hgrants, fun found hfound => ?_⟩
      rcases (Table.mem_replace horiginal).mp hfound with rfl | ⟨hold, _⟩
      · rw [hscope]
        exact hrequests original (Table.mem_of_get? horiginal)
      · exact hrequests found hold
  | @requestResolved row original event audits horiginal hscope =>
      refine ⟨hgrants, fun found hfound => ?_⟩
      rcases (Table.mem_replace horiginal).mp hfound with rfl | ⟨hold, _⟩
      · rw [hscope]
        exact hrequests original (Table.mem_of_get? horiginal)
      · exact hrequests found hold
  | _ => exact ⟨hgrants, hrequests⟩

theorem Changes.referenced (hchanges : Changes effects before after)
    (hreferenced : before.Referenced) : after.Referenced := by
  induction hchanges with
  | refl => exact hreferenced
  | tail _ hlast ih => exact hlast.referenced ih

theorem referenced_of_reachable {platform : Platform} {db : Db}
    (hreach : (serviceSystem platform).Reachable db) : db.Referenced := by
  refine reachable_induction hreach ⟨by simp [Db.empty], by simp [Db.empty]⟩ ?_
  intro before after hbefore hchange
  exact hchange.referenced hbefore

/-! ## The discipline -/

/-- After which keys a call may lock a key. -/
def Lockable (call : LockingCall) (db : Db) (held : List RowKey) : RowKey → Prop
  | .dashboard _ => held = []
  | .grant id => ∃ grant ∈ db.grants.get? id, .dashboard grant.dashboardId ∈ held
  | .accessRequest id => ∃ request ∈ db.accessRequests.get? id,
      .dashboard request.dashboardId ∈ held
  | .reservation id => id ∈ call.reservationIds
  | .user id => .user id ∈ held ∨ ∀ earlier, .user earlier ∈ held → earlier ≤ id

/-- Users ascend by their identifiers. -/
def RowKey.UsersAscend : RowKey → RowKey → Prop
  | .user first, .user second => first ≤ second
  | _, _ => True

def serviceDiscipline : LockDiscipline LockingCall Db RowKey where
  good := Db.Referenced
  evolves := Db.KeepsScopes
  refl := Db.KeepsScopes.refl
  trans := Db.KeepsScopes.trans
  ascends := RowKey.UsersAscend
  lockable := Lockable
  carried := by
    intro call before after held key hevolves hlockable
    cases key with
    | grant id =>
        obtain ⟨grant, hgrant, hheld⟩ := hlockable
        obtain ⟨later, hlater, hsame⟩ := hevolves.grants id grant hgrant
        exact ⟨later, hlater, by rwa [hsame]⟩
    | accessRequest id =>
        obtain ⟨request, hrequest, hheld⟩ := hlockable
        obtain ⟨later, hlater, hsame⟩ := hevolves.requests id request hrequest
        exact ⟨later, hlater, by rwa [hsame]⟩
    | _ => exact hlockable

/-! ## Programs obey the discipline -/

section Obeys

variable {call : LockingCall} {held : List RowKey} {past : Db}

theorem obeys_raise (failure : Failure) :
    (raise failure).Obeys serviceDiscipline call held past := by
  intro now after _ _ hruns
  simp at hruns

theorem obeys_commit {body : Tx PUnit} (hnone : .dashboards ∉ effects)
    (hchanges : ∀ now later, body.Runs now ⟨⟩ later → Changes effects now later) :
    (LockingProgram.commit body : ServiceProgram).Obeys serviceDiscipline call held past := by
  intro now later hgood _ hruns
  have hcommitted := hchanges now later hruns
  exact ⟨hcommitted.keepsScopes hnone, hcommitted.referenced hgood⟩

theorem usersById_ascend (db : Db) (matching : User → Bool) :
    ((db.usersById matching).map fun user => RowKey.user user.id).Pairwise RowKey.UsersAscend := by
  have htotal : Std.Total fun first second : User => first.id ≤ second.id :=
    ⟨fun first second => le_total first.id second.id⟩
  have htrans : IsTrans User fun first second => first.id ≤ second.id :=
    ⟨fun _ _ _ hfirst hsecond => le_trans hfirst hsecond⟩
  have hsorted : (db.usersById matching).Pairwise fun first second => first.id ≤ second.id :=
    List.pairwise_insertionSort _ _
  rw [List.pairwise_map]
  exact hsorted

/-- Users that ascend among themselves and from the users that are held may be locked. -/
theorem lockable_user {db : Db} {asked earlier later : List RowKey} {id : Uuid}
    (hascends : serviceDiscipline.Ascends held asked) (hsorted : asked.Pairwise RowKey.UsersAscend)
    (hsplit : asked = earlier ++ .user id :: later) :
    serviceDiscipline.lockable call db (held ++ earlier) (.user id) := by
  change Lockable call db (held ++ earlier) (.user id)
  by_cases hheld : .user id ∈ held
  · exact .inl (List.mem_append_left _ hheld)
  · right
    intro first hfirst
    rcases List.mem_append.mp hfirst with hold | hnew
    · exact hascends _ hold _ (by simp [hsplit]) hheld
    · rw [hsplit] at hsorted
      exact (List.pairwise_append.mp hsorted).2.2 _ hnew _ (List.mem_cons_self ..)

theorem obeys_lockUsers {matching : User → Bool} {next : List User → ServiceProgram}
    (hnext : ∀ now users more, now.Referenced → past.KeepsScopes now →
      (next users).Obeys serviceDiscipline call (held ++ more) now) :
    (lockUsers matching next).Obeys serviceDiscipline call held past := by
  intro now hgood hevolves
  refine ⟨fun hadmits hascends => hadmits.append ?_, fun rows _ =>
    hnext now _ _ hgood hevolves⟩
  intro earlier key later hsplit
  beta_reduce at hsplit
  have hmem : key ∈ (now.usersById matching).map fun user => RowKey.user user.id := by
    rw [hsplit]
    exact List.mem_append_right _ (List.mem_cons_self ..)
  obtain ⟨user, _, rfl⟩ := List.mem_map.mp hmem
  exact lockable_user hascends (usersById_ascend now matching) hsplit

theorem obeys_lockDashboard {dashboardId : Uuid} {matching : Dashboard → Bool}
    {next : Option Dashboard → ServiceProgram}
    (hnext : ∀ now found locked, now.Referenced → past.KeepsScopes now →
      (∀ dashboard ∈ found, .dashboard dashboard.id ∈ locked) →
        (next found).Obeys serviceDiscipline call locked now) :
    (lockDashboard dashboardId matching next).Obeys serviceDiscipline call [] past := by
  intro now hgood hevolves
  constructor
  · intro hadmits _
    refine hadmits.append ?_
    intro earlier key later hsplit
    beta_reduce at hsplit
    split at hsplit
    · cases earlier with
      | nil =>
          cases hsplit
          exact rfl
      | cons first rest => simp at hsplit
    · simp at hsplit
  · intro rows hrows
    refine hnext now _ _ hgood hevolves ?_
    intro dashboard hdashboard
    obtain ⟨row, hrow, hread⟩ := List.exists_of_findSome?_eq_some hdashboard
    cases row with
    | dashboard other =>
        cases hread
        exact (hrows _ hrow).2
    | _ => simp [LockedRow.dashboard?] at hread

theorem obeys_lockDashboardAndOwner {dashboardId : Uuid} {matching : Dashboard → Bool}
    {ownerMatching : User → Bool} {next : Option Dashboard → Option User → ServiceProgram}
    (hnext : ∀ now found owner locked, now.Referenced → past.KeepsScopes now →
      (∀ dashboard ∈ found, .dashboard dashboard.id ∈ locked) →
        (∀ dashboard ∈ now.dashboards.get? dashboardId, matching dashboard = true →
          (∀ user ∈ now.users.get? dashboard.ownerId, ownerMatching user = true) →
            .dashboard dashboardId ∈ locked) →
          (next found owner).Obeys serviceDiscipline call locked now) :
    (lockDashboardAndOwner dashboardId matching ownerMatching next).Obeys serviceDiscipline call
      [] past := by
  intro now hgood hevolves
  constructor
  · intro hadmits hascends
    refine hadmits.append ?_
    intro earlier key later hsplit
    beta_reduce at hsplit
    split at hsplit
    · split at hsplit
      · cases earlier with
        | nil =>
            cases hsplit
            exact rfl
        | cons first rest =>
            cases rest with
            | nil =>
                cases hsplit
                right
                intro other hother
                simp at hother
            | cons second rest => simp at hsplit
      · simp at hsplit
    · simp at hsplit
  · intro rows hrows
    refine hnext now _ _ _ hgood hevolves ?_ ?_
    · intro dashboard hdashboard
      obtain ⟨row, hrow, hread⟩ := List.exists_of_findSome?_eq_some hdashboard
      cases row with
      | dashboard other =>
          cases hread
          exact (hrows _ hrow).2
      | _ => simp [LockedRow.dashboard?] at hread
    · intro dashboard hdashboard hmatching howner
      have hid : dashboard.id = dashboardId := Table.key_of_get? hdashboard
      have hfilter : (now.dashboards.get? dashboardId).filter matching = some dashboard :=
        Option.filter_eq_some_iff.mpr ⟨hdashboard, hmatching⟩
      have hall : (now.users.get? dashboard.ownerId).all ownerMatching = true := by
        cases huser : now.users.get? dashboard.ownerId with
        | none => rfl
        | some user => exact howner user huser
      simp [hfilter, hall, hid]

/-- Rows of a dashboard that is locked may be locked. -/
theorem obeys_lockGrants {matching : ViewerGrant → Bool} {next : ServiceProgram}
    (hscope : ∀ now, now.Referenced → past.KeepsScopes now → ∀ grant ∈ now.grants,
      matching grant = true → .dashboard grant.dashboardId ∈ held)
    (hnext : ∀ now more, now.Referenced → past.KeepsScopes now →
      next.Obeys serviceDiscipline call (held ++ more) now) :
    (lockGrants matching next).Obeys serviceDiscipline call held past := by
  intro now hgood hevolves
  refine ⟨fun hadmits _ => hadmits.append ?_, fun rows _ => hnext now _ hgood hevolves⟩
  intro earlier key later hsplit
  beta_reduce at hsplit
  have hmem : key ∈ (now.grants.where? matching).map fun grant => RowKey.grant grant.id := by
    rw [hsplit]
    exact List.mem_append_right _ (List.mem_cons_self ..)
  obtain ⟨grant, hgrant, rfl⟩ := List.mem_map.mp hmem
  obtain ⟨hstored, hmatches⟩ := Table.mem_where?_iff.mp hgrant
  exact ⟨grant, Table.get?_of_mem hstored,
    List.mem_append_left _ (hscope now hgood hevolves grant hstored hmatches)⟩

theorem obeys_lockRequests {condition : Db → Bool} {matching : AccessRequest → Bool}
    {next : ServiceProgram}
    (hscope : ∀ now, now.Referenced → past.KeepsScopes now → ∀ request ∈ now.accessRequests,
      matching request = true → .dashboard request.dashboardId ∈ held)
    (hnext : ∀ now more, now.Referenced → past.KeepsScopes now →
      next.Obeys serviceDiscipline call (held ++ more) now) :
    (lockRequests condition matching next).Obeys serviceDiscipline call held past := by
  intro now hgood hevolves
  refine ⟨fun hadmits _ => hadmits.append ?_, fun rows _ => hnext now _ hgood hevolves⟩
  intro earlier key later hsplit
  beta_reduce at hsplit
  split at hsplit
  · have hmem : key ∈ (now.accessRequests.where? matching).map fun request =>
        RowKey.accessRequest request.id := by
      rw [hsplit]
      exact List.mem_append_right _ (List.mem_cons_self ..)
    obtain ⟨request, hrequest, rfl⟩ := List.mem_map.mp hmem
    obtain ⟨hstored, hmatches⟩ := Table.mem_where?_iff.mp hrequest
    exact ⟨request, Table.get?_of_mem hstored,
      List.mem_append_left _ (hscope now hgood hevolves request hstored hmatches)⟩
  · simp at hsplit

theorem obeys_lockRequestAndRequester {requestId : ℕ} {matching : AccessRequest → Bool}
    {next : Option AccessRequest → Option User → ServiceProgram}
    (hid : ∀ request, matching request = true → request.id = requestId)
    (hscope : ∀ now, now.Referenced → past.KeepsScopes now → ∀ request ∈ now.accessRequests,
      matching request = true → .dashboard request.dashboardId ∈ held)
    (hnext : ∀ now request requester more, now.Referenced → past.KeepsScopes now →
      (next request requester).Obeys serviceDiscipline call (held ++ more) now) :
    (lockRequestAndRequester matching next).Obeys serviceDiscipline call held past := by
  intro now hgood hevolves
  refine ⟨fun hadmits hascends => hadmits.append ?_, fun rows _ =>
    hnext now _ _ _ hgood hevolves⟩
  intro earlier key later hsplit
  have hunique : ∀ first ∈ now.accessRequests, ∀ second ∈ now.accessRequests,
      matching first = true → matching second = true → first = second := by
    intro first hfirst second hsecond hone htwo
    exact now.accessRequests.eq_of_key_eq hfirst hsecond
      ((hid first hone).trans (hid second htwo).symm)
  obtain ⟨result, hresult⟩ := Table.where?_eq_toList hunique
  beta_reduce at hsplit hascends
  rw [hresult] at hsplit hascends
  cases result with
  | none => simp at hsplit
  | some request =>
      have hmem : request ∈ now.accessRequests.where? matching := by
        rw [hresult]
        simp
      obtain ⟨hstored, hmatches⟩ := Table.mem_where?_iff.mp hmem
      have hkeys : [RowKey.accessRequest request.id, .user request.requesterId] =
          earlier ++ key :: later := hsplit
      cases earlier with
      | nil =>
          cases hkeys
          exact ⟨request, Table.get?_of_mem hstored, by
            simpa using hscope now hgood hevolves request hstored hmatches⟩
      | cons first rest =>
          cases rest with
          | nil =>
              cases hkeys
              exact lockable_user hascends (by simp [RowKey.UsersAscend]) rfl
          | cons second rest => simp at hkeys

theorem obeys_lockReservations {reservationIds : List Uuid} {next : ServiceProgram}
    (hown : call.reservationIds = reservationIds)
    (hnext : ∀ now more, now.Referenced → past.KeepsScopes now →
      next.Obeys serviceDiscipline call (held ++ more) now) :
    (lockReservations reservationIds next).Obeys serviceDiscipline call held past := by
  intro now hgood hevolves
  refine ⟨fun hadmits _ => hadmits.append ?_, fun rows _ => hnext now _ hgood hevolves⟩
  intro earlier key later hsplit
  beta_reduce at hsplit
  have hmem : key ∈ (now.reservations.where? fun reservation =>
      reservation.id ∈ reservationIds).map fun reservation =>
        RowKey.reservation reservation.id := by
    rw [hsplit]
    exact List.mem_append_right _ (List.mem_cons_self ..)
  obtain ⟨reservation, hreservation, rfl⟩ := List.mem_map.mp hmem
  obtain ⟨_, hmatches⟩ := Table.mem_where?_iff.mp hreservation
  change reservation.id ∈ call.reservationIds
  rw [hown]
  simpa using hmatches

theorem obeys_lockAdministrator {actorId : Uuid} {next : User → ServiceProgram}
    (hnext : ∀ now actor more, now.Referenced → past.KeepsScopes now →
      (next actor).Obeys serviceDiscipline call (held ++ more) now) :
    (lockAdministrator actorId next).Obeys serviceDiscipline call held past := by
  refine obeys_lockUsers fun now users more hgood hevolves => ?_
  split
  · exact hnext now _ more hgood hevolves
  · exact obeys_raise _

theorem obeys_lockTarget {targetId : Uuid} {next : User → ServiceProgram}
    (hnext : ∀ now target more, now.Referenced → past.KeepsScopes now →
      (next target).Obeys serviceDiscipline call (held ++ more) now) :
    (lockTarget targetId next).Obeys serviceDiscipline call held past := by
  refine obeys_lockUsers fun now users more hgood hevolves => ?_
  split
  · exact hnext now _ more hgood hevolves
  · exact obeys_raise _

theorem provisionLocked_changes {platform : Platform} {context : CallContext}
    {canonical password salt : Text} {isAdministrator : Bool} {actor : User}
    (hruns : (provisionLocked platform context canonical password salt isAdministrator
      actor).Runs before ⟨⟩ after) : Changes effects before after := by
  simp only [provisionLocked, runs_bind, runs_recover] at hruns
  obtain ⟨candidate, checked, hpassword, user, inserted, hinsert, haudit⟩ := hruns
  cases setValidatedPassword_runs hpassword
  rcases hinsert with hinsert | ⟨failure, _, hduplicate⟩
  · exact .tail (.single (User.insert_change hinsert)) (recordAccountAudit_change haudit rfl)
  · exact absurd hduplicate duplicateUser_fails

theorem disableLocked_changes {context : CallContext} {administrators : ℕ} {actor target : User}
    (hruns : (disableLocked context administrators actor target).Runs before ⟨⟩ after) :
    Changes effects before after := by
  simp only [disableLocked, runs_bind, runs_check, runs_ite, runs_pure, and_assoc,
    exists_and_left, exists_eq_left', exists_const] at hruns
  obtain ⟨_, _, hidle | hsaved⟩ := hruns
  · exact hidle.2.2 ▸ .refl
  · obtain ⟨_, saved, middle, hsave, haudit⟩ := hsaved
    exact .tail (.single (User.save_change hsave)) (recordAccountAudit_change haudit rfl)

theorem enableLocked_changes {context : CallContext} {actor target : User}
    (hruns : (enableLocked context actor target).Runs before ⟨⟩ after) :
    Changes effects before after := by
  simp only [enableLocked, runs_bind, runs_ite, runs_pure] at hruns
  rcases hruns with hidle | hsaved
  · exact hidle.2.2 ▸ .refl
  · obtain ⟨_, saved, middle, hsave, haudit⟩ := hsaved
    exact .tail (.single (User.save_change hsave)) (recordAccountAudit_change haudit rfl)

theorem resetLocked_changes {platform : Platform} {context : CallContext}
    {password salt : Text} {actor target : User}
    (hruns : (resetLocked platform context password salt actor target).Runs before ⟨⟩ after) :
    Changes effects before after := by
  simp only [resetLocked, runs_bind] at hruns
  obtain ⟨changed, checked, hpassword, saved, middle, hsave, haudit⟩ := hruns
  cases setValidatedPassword_runs hpassword
  exact .tail (.single (User.save_change hsave)) (recordAccountAudit_change haudit rfl)

/-- No effect at all. -/
theorem obeys_quiet_commit {body : Tx PUnit}
    (hchanges : ∀ now later, body.Runs now ⟨⟩ later → Changes ∅ now later) :
    (LockingProgram.commit body : ServiceProgram).Obeys serviceDiscipline call held past :=
  obeys_commit (Set.notMem_empty _) hchanges

theorem AccountCall.program_obeys (platform : Platform) (account : AccountCall) :
    (account.program platform).Obeys serviceDiscipline call [] past := by
  rcases account with ⟨context, operation⟩
  cases operation with
  | provisionUser actorId soeid password salt isAdministrator =>
      simp only [AccountCall.program]
      split
      · exact obeys_raise _
      · exact obeys_lockAdministrator fun now actor more _ _ =>
          obeys_quiet_commit fun _ _ hruns => provisionLocked_changes hruns
  | disableUser actorId targetId =>
      simp only [AccountCall.program]
      refine obeys_lockUsers fun now users more _ _ => ?_
      split
      · exact obeys_lockTarget fun later target further _ _ =>
          obeys_quiet_commit fun _ _ hruns => disableLocked_changes hruns
      · exact obeys_raise _
  | enableUser actorId targetId =>
      exact obeys_lockAdministrator fun now actor more _ _ =>
        obeys_lockTarget fun later target further _ _ =>
          obeys_quiet_commit fun _ _ hruns => enableLocked_changes hruns
  | resetUserPassword actorId targetId password salt =>
      exact obeys_lockAdministrator fun now actor more _ _ =>
        obeys_lockTarget fun later target further _ _ =>
          obeys_quiet_commit fun _ _ hruns => resetLocked_changes hruns

theorem DashboardOperation.dashboards_notMem_effects (operation : DashboardOperation) :
    .dashboards ∉ operation.operation.effects := by
  cases operation with
  | _ => simp [DashboardOperation.operation, Operation.effects]

theorem DashboardCall.commit_obeys (platform : Platform) (dashboard : DashboardCall) :
    (dashboard.commit platform).Obeys serviceDiscipline call held past := by
  refine obeys_commit dashboard.operation.dashboards_notMem_effects fun now later hruns => ?_
  simp only [runs_bind, runs_pure] at hruns
  obtain ⟨result, _, hbody, _, rfl⟩ := hruns
  exact Operation.body_changes _ (le_refl _) hbody

theorem obeys_lockActiveUser {userId : Uuid} {next : Option User → ServiceProgram}
    (hnext : ∀ now user more, now.Referenced → past.KeepsScopes now →
      (next user).Obeys serviceDiscipline call (held ++ more) now) :
    (lockActiveUser userId next).Obeys serviceDiscipline call held past :=
  obeys_lockUsers fun now _ more hgood hevolves => hnext now _ more hgood hevolves

theorem obeys_lockOwned {dashboardId actorId : Uuid}
    {next : Dashboard → User → ServiceProgram}
    (hnext : ∀ now dashboard actor locked, now.Referenced →
      .dashboard dashboard.id ∈ locked →
        (next dashboard actor).Obeys serviceDiscipline call locked now) :
    (DashboardCall.lockOwned dashboardId actorId next).Obeys serviceDiscipline call [] past := by
  refine obeys_lockDashboard fun now found locked _ _ hfound => ?_
  cases found with
  | none => exact obeys_raise _
  | some dashboard =>
      refine obeys_lockActiveUser fun later user more hgood _ => ?_
      cases user with
      | none => exact obeys_raise _
      | some actor =>
          by_cases howner : dashboard.ownerId = actor.id
          · simp only [if_pos howner]
            exact hnext later dashboard actor _ hgood
              (List.mem_append_left _ (hfound dashboard rfl))
          · simp only [if_neg howner]
            exact obeys_raise _

theorem obeys_lockCurrent {dashboardId actorId : Uuid} {next : ServiceProgram}
    (hnext : ∀ now locked, next.Obeys serviceDiscipline call locked now) :
    (DashboardCall.lockCurrent dashboardId actorId next).Obeys serviceDiscipline call [] past := by
  refine obeys_lockDashboard fun now found locked _ _ _ => ?_
  refine obeys_lockActiveUser fun later user more _ _ => ?_
  split
  · split
    · exact hnext later _
    · exact obeys_raise _
  · exact obeys_raise _

namespace DashboardCall

variable (platform : Platform) (dashboard : DashboardCall)

theorem grantProgram_obeys (dashboardId actorId : Uuid) (targetSoeid : Text) :
    (dashboard.grantProgram platform dashboardId actorId targetSoeid).Obeys serviceDiscipline
      call [] past := by
  unfold grantProgram
  split
  · exact obeys_raise _
  · refine obeys_lockOwned fun now found actor locked _ _ => ?_
    split
    · exact obeys_raise _
    · exact obeys_lockUsers fun later users more _ _ => dashboard.commit_obeys platform

theorem revokeProgram_obeys (dashboardId grantId actorId : Uuid) :
    (dashboard.revokeProgram platform dashboardId grantId actorId).Obeys serviceDiscipline
      call [] past := by
  refine obeys_lockOwned fun now found actor locked _ hlocked => ?_
  refine obeys_lockGrants ?_ fun later more _ _ => dashboard.commit_obeys platform
  intro later _ _ grant _ hmatches
  simp only [Bool.and_eq_true, decide_eq_true_eq] at hmatches
  rwa [hmatches.2]

theorem requestProgram_obeys (dashboardId requesterId : Uuid) (message : Text) :
    (dashboard.requestProgram platform dashboardId requesterId message).Obeys serviceDiscipline
      call [] past := by
  unfold requestProgram
  split
  · exact obeys_raise _
  · refine obeys_lockDashboardAndOwner fun now found owner locked _ _ hfound _ => ?_
    refine obeys_lockActiveUser fun later user more _ _ => ?_
    split
    · split
      · exact obeys_raise _
      · refine obeys_lockRequests ?_ fun last further _ _ => dashboard.commit_obeys platform
        intro last _ _ request _ hmatches
        simp only [Bool.and_eq_true, decide_eq_true_eq] at hmatches
        rw [hmatches.1]
        exact List.mem_append_left _ (hfound _ rfl)
    · exact obeys_raise _

theorem resolveFoundProgram_obeys {status : AccessRequestStatus} {found : Dashboard}
    {owner : User} {request : AccessRequest} {requester actor : User}
    (hlocked : .dashboard found.id ∈ held) :
    (dashboard.resolveFoundProgram platform status found owner request requester actor).Obeys
      serviceDiscipline call held past := by
  unfold resolveFoundProgram
  by_cases hactor : actor.id ≠
      (if status = .cancelled then request.requesterId else found.ownerId)
  · rw [if_pos hactor]
    exact obeys_raise _
  · rw [if_neg hactor]
    split
    · exact dashboard.commit_obeys platform
    · split
      · refine obeys_lockGrants ?_ fun later more _ _ => dashboard.commit_obeys platform
        intro later _ _ grant _ hmatches
        simp only [ViewerGrant.isActiveFor, Bool.and_eq_true, beq_iff_eq] at hmatches
        rwa [hmatches.1.1]
      · exact obeys_raise _

theorem resolveProgram_obeys (dashboardId : Uuid) (requestId : ℕ) (actorId : Uuid)
    (resolution : String) :
    (dashboard.resolveProgram platform dashboardId requestId actorId resolution).Obeys
      serviceDiscipline call [] past := by
  unfold resolveProgram
  split
  · exact obeys_raise _
  · exact obeys_raise _
  · refine obeys_lockDashboardAndOwner fun now found owner locked hgood hevolves hfound hall => ?_
    have hid : ∀ request : AccessRequest,
        (request.id = requestId && request.dashboardId = dashboardId) = true →
          request.id = requestId := by
      intro request hmatches
      simp only [Bool.and_eq_true, decide_eq_true_eq] at hmatches
      exact hmatches.1
    refine obeys_lockRequestAndRequester hid ?_ ?_
    · intro later hreferenced hkept request hrequest hmatches
      simp only [Bool.and_eq_true, decide_eq_true_eq] at hmatches
      obtain ⟨stored, hstored⟩ := hreferenced.requests request hrequest
      rw [hmatches.2] at hstored ⊢
      cases hnow : now.dashboards.get? dashboardId with
      | none =>
          rw [hkept.absent dashboardId hnow] at hstored
          contradiction
      | some earlier => exact hall earlier hnow rfl fun _ _ => rfl
    · intro later request requester more _ _
      refine obeys_lockActiveUser fun last actor further _ _ => ?_
      split
      · refine resolveFoundProgram_obeys platform dashboard ?_
        exact List.mem_append_left _ (List.mem_append_left _ (hfound _ rfl))
      · exact obeys_raise _

theorem transferProgram_obeys (dashboardId actorId incomingOwnerId : Uuid)
    (expectedTransferId : Option (Option Uuid)) :
    (dashboard.transferProgram platform dashboardId actorId incomingOwnerId
      expectedTransferId).Obeys serviceDiscipline call [] past := by
  refine obeys_lockDashboard fun now found locked _ _ hfound => ?_
  split
  · exact obeys_raise _
  · split
    · refine obeys_lockUsers fun later users more _ _ => ?_
      split
      · split
        · have hlocked := hfound _ rfl
          refine obeys_lockGrants ?_ fun last further _ _ => ?_
          · intro last _ _ grant _ hmatches
            simp only [ViewerGrant.isActiveFor, Bool.and_eq_true, beq_iff_eq] at hmatches
            rw [hmatches.1.1]
            exact List.mem_append_left _ hlocked
          · refine obeys_lockRequests ?_ fun final more _ _ => dashboard.commit_obeys platform
            intro final _ _ request _ hmatches
            simp only [Bool.and_eq_true, decide_eq_true_eq] at hmatches
            rw [hmatches.1.1]
            exact List.mem_append_left _ (List.mem_append_left _ hlocked)
        · exact obeys_raise _
      · exact obeys_raise _
    · exact obeys_raise _

theorem publishProgram_obeys (dashboardId actorId : Uuid) (publicationNote : Text)
    (freshnessInterval : Option ℤ) :
    (dashboard.publishProgram platform dashboardId actorId publicationNote
      freshnessInterval).Obeys serviceDiscipline call [] past := by
  unfold publishProgram
  split
  · exact obeys_raise _
  · exact obeys_raise _
  · exact obeys_lockCurrent fun now locked => dashboard.commit_obeys platform

theorem favoriteProgram_obeys (dashboardId userId : Uuid) (favorited : Bool) :
    (dashboard.favoriteProgram platform dashboardId userId favorited).Obeys serviceDiscipline
      call [] past := by
  unfold favoriteProgram
  split
  · refine obeys_lockActiveUser fun now user more _ _ => ?_
    cases user with
    | none => exact obeys_raise _
    | some user => exact dashboard.commit_obeys platform
  · refine obeys_lockDashboard fun now found locked _ _ _ => ?_
    refine obeys_lockActiveUser fun later user more _ _ => ?_
    split
    · exact dashboard.commit_obeys platform
    · exact obeys_raise _

theorem commitRevisionProgram_obeys (dashboardId createdById : Uuid)
    {prepared : List PreparedArtifact}
    (hown : call.reservationIds = prepared.map PreparedArtifact.reservationId) :
    (dashboard.commitRevisionProgram platform dashboardId createdById prepared).Obeys
      serviceDiscipline call [] past := by
  refine obeys_lockDashboard fun now found locked _ _ _ => ?_
  split
  · exact obeys_raise _
  · refine obeys_lockUsers fun later users more _ _ => ?_
    split
    · exact obeys_raise _
    · split
      · exact obeys_lockReservations hown fun last further _ _ => dashboard.commit_obeys platform
      · exact obeys_raise _

theorem program_obeys :
    (dashboard.program platform).Obeys serviceDiscipline (.dashboard dashboard) [] past := by
  rcases dashboard with ⟨context, operation⟩
  cases operation with
  | grantProjectViewer => exact grantProgram_obeys platform _ _ _ _
  | revokeProjectViewer => exact revokeProgram_obeys platform _ _ _ _
  | requestDashboardAccess => exact requestProgram_obeys platform _ _ _ _
  | resolveDashboardAccessRequest => exact resolveProgram_obeys platform _ _ _ _ _
  | transferDashboardOwnership => exact transferProgram_obeys platform _ _ _ _ _
  | publishDashboardRevision => exact publishProgram_obeys platform _ _ _ _ _
  | unpublishDashboard dashboardId actorId =>
      exact obeys_lockCurrent fun now locked => commit_obeys platform _
  | setDashboardFavorite => exact favoriteProgram_obeys platform _ _ _ _
  | commitRevisionMetadata dashboardId createdById prepared =>
      exact commitRevisionProgram_obeys platform _ dashboardId createdById rfl

end DashboardCall

theorem LockingCall.program_obeys (platform : Platform) (call : LockingCall) :
    (call.program platform).Obeys serviceDiscipline call [] past := by
  cases call with
  | account account => exact account.program_obeys platform
  | dashboard dashboard => exact dashboard.program_obeys platform

end Obeys

end Agora
