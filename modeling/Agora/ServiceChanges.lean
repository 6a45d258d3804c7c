import Agora.DatabaseChanges
import Agora.RevisionServices

/-!
# Every service is a sequence of changes

First the committed runs of the model saves, then the services one by one.  A
service whose checks fail commits nothing; one that returns early commits the
empty sequence.
-/

namespace Agora

open Transaction

variable {effects : Set Effect}

/-! ## Saves -/

theorem recordAudit_runs {context : CallContext} {eventType : AuditEventType}
    {scope : AuditScope} {metadata : List (String × AuditValue)} {before after : Db}
    {done : PUnit}
    (hruns : (recordAudit context eventType scope metadata).Runs before done after) :
    ∃ event audits, event.eventType = eventType ∧
      event.dashboardId = scope.dashboardId ∧ event.targetUserId = scope.targetUserId ∧
        event.metadata = metadata ∧ before.audits.create event = some audits ∧
          after = { before with audits := audits, nextId := before.nextId + 1 } := by
  simp only [recordAudit, runs_bind, runs_takeId, runs_get, runs_found, runs_set, and_assoc,
    exists_and_left, exists_eq_left, exists_eq_left'] at hruns
  rcases hruns with ⟨audits, haudits, rfl⟩
  exact ⟨_, audits, rfl, rfl, rfl, rfl, haudits, rfl⟩

theorem recordAudit_change {context : CallContext} {eventType : AuditEventType}
    {scope : AuditScope} {metadata : List (String × AuditValue)} {before after : Db}
    {done : PUnit}
    (hruns : (recordAudit context eventType scope metadata).Runs before done after)
    (hunscoped : eventType.isScoped = false) : Change effects before after := by
  rcases recordAudit_runs hruns with ⟨event, audits, rfl, _, _, _, haudits, rfl⟩
  exact .audited hunscoped haudits

/-! ## Users -/

theorem User.fullClean_runs {row : User} {before after : Db} {done : PUnit}
    (hruns : row.fullClean.Runs before done after) :
    before = after ∧ 0 < row.authVersion := by
  simp only [User.fullClean, runs_bind, runs_check, runs_orFail, runs_get, and_assoc,
    exists_and_left, exists_eq_left', exists_const] at hruns
  rcases hruns with ⟨_, _, canonical, _, _, _, hversion, rfl⟩
  exact ⟨rfl, hversion⟩

theorem User.insert_change {row inserted : User} {before after : Db}
    (hruns : row.insert.Runs before inserted after) : Change effects before after := by
  simp only [User.insert, runs_bind, runs_get, runs_found, runs_set, runs_pure, and_assoc,
    exists_and_left, exists_eq_left', exists_const] at hruns
  rcases hruns with ⟨_, clean, hclean, users, husers, _, rfl⟩
  rcases User.fullClean_runs hclean with ⟨rfl, hversion⟩
  exact .userInserted husers hversion

theorem User.isActive_savedOver {clock : Time} {row original : User}
    (hversion : (row.savedOver clock original).authVersion = original.authVersion) :
    (row.savedOver clock original).isActive = original.isActive := by
  unfold User.savedOver User.advanceAuthVersion at *
  by_cases hactive : row.isActive = original.isActive
  · simp [hactive]
  · simp [hactive] at hversion

@[simp] theorem User.savedOver_id {clock : Time} {row original : User} :
    (row.savedOver clock original).id = row.id := by
  unfold User.savedOver User.advanceAuthVersion
  split <;> rfl

theorem User.save_change {context : CallContext} {row saved : User} {before after : Db}
    (hruns : (row.save context).Runs before saved after) : Change effects before after := by
  simp only [User.save, runs_bind, runs_get, runs_found, runs_check, runs_set, runs_pure,
    and_assoc, exists_and_left, exists_eq_left', exists_const] at hruns
  rcases hruns with ⟨original, horiginal, _, _, clean, hclean, hversion, _, rfl⟩
  rcases User.fullClean_runs hclean with ⟨rfl, _⟩
  exact .userSaved (by rwa [User.savedOver_id]) hversion User.isActive_savedOver

/-! ## Dashboards -/

structure Dashboard.Cleaned (db : Db) (row : Dashboard) : Prop where
  published : row.state = .published ↔ row.publishedRevisionId.isSome = true
  versioned : row.state = .published → 0 < row.publicationVersion
  revision : ∀ revisionId ∈ row.publishedRevisionId,
    ∃ revision ∈ db.revisions.get? revisionId, revision.dashboardId = row.id

theorem Dashboard.fullClean_runs {row : Dashboard} {before after : Db} {done : PUnit}
    (hruns : row.fullClean.Runs before done after) :
    before = after ∧ row.Cleaned before := by
  simp only [Dashboard.fullClean, Dashboard.clean, Dashboard.checkConstraints, runs_bind,
    runs_check, runs_get, and_assoc, exists_and_left, exists_eq_left', exists_const]
    at hruns
  rcases hruns with ⟨_, _, _, _, _, _, _, hversioned, hrevision, _, hpublished, _, _, rfl⟩
  refine ⟨rfl, hpublished, ?_, hrevision⟩
  intro hstate
  exact Nat.pos_of_ne_zero fun hzero => hversioned ⟨hstate, hzero⟩

theorem Dashboard.insert_runs {row inserted : Dashboard} {before after : Db}
    (hruns : row.insert.Runs before inserted after) :
    inserted = row ∧ row.state = .draft ∧ row.latestRevisionId = none ∧
      row.publishedRevisionId = none ∧ row.lastOwnershipTransferId = none ∧
        ∃ dashboards, before.dashboards.create row = some dashboards ∧
          after = { before with dashboards := dashboards } := by
  simp only [Dashboard.insert, runs_bind, runs_check, runs_get, runs_found, runs_set,
    runs_pure, and_assoc, exists_and_left, exists_eq_left', exists_const] at hruns
  rcases hruns with ⟨hdraft, hlatest, hpublished, _, _, _, htransfer, _, clean, hclean,
    dashboards, hdashboards, rfl, rfl⟩
  rcases Dashboard.fullClean_runs hclean with ⟨rfl, _⟩
  exact ⟨rfl, hdraft, hlatest, hpublished, htransfer, dashboards, hdashboards, rfl⟩

theorem Dashboard.validateLifecycleTransition_runs {row original : Dashboard}
    {before after : Db} {done : PUnit}
    (hruns : (row.validateLifecycleTransition original).Runs before done after) :
    before = after ∧ original.publicationVersion ≤ row.publicationVersion ∧
      (row.publicationVersion = original.publicationVersion →
        ¬ (row.state = .published ∧ original.state = .published ∧
          row.publishedRevisionId ≠ original.publishedRevisionId)) := by
  simp only [Dashboard.validateLifecycleTransition, Dashboard.validateAdvance,
    Dashboard.validateKept, runs_bind, runs_check, runs_ite, and_assoc, exists_and_left,
    exists_eq_left', exists_const] at hruns
  rcases hruns with ⟨_, _, _, hversion, _, hadvance⟩
  rcases hadvance with ⟨hadvance, _, _, _, _, _, rfl⟩ | ⟨_, _, _, hkept, _, _, rfl⟩
  · exact ⟨rfl, hversion, fun heq => by omega⟩
  · exact ⟨rfl, hversion, fun _ => hkept⟩

@[simp] theorem Dashboard.savedOver_id {clock : Time} {row original : Dashboard} :
    (row.savedOver clock original).id = row.id := by
  unfold Dashboard.savedOver Dashboard.advancePublication
  split <;> rfl

theorem Dashboard.savedOver_kept {clock : Time} {row original : Dashboard} :
    (row.savedOver clock original).ownerId = row.ownerId ∧
      (row.savedOver clock original).lastOwnershipTransferId = row.lastOwnershipTransferId ∧
        (row.savedOver clock original).state = row.state ∧
          (row.savedOver clock original).latestRevisionId = row.latestRevisionId := by
  unfold Dashboard.savedOver Dashboard.advancePublication
  split <;> exact ⟨rfl, rfl, rfl, rfl⟩

/-- A revision published under the version of the original is the one published
by the original. -/
theorem Dashboard.republished_savedOver {db : Db} {clock : Time} {row original : Dashboard}
    (hcleaned : (row.savedOver clock original).Cleaned db)
    (hkept : ¬ ((row.savedOver clock original).state = .published ∧
      original.state = .published ∧
        (row.savedOver clock original).publishedRevisionId ≠ original.publishedRevisionId))
    (hversion : (row.savedOver clock original).publicationVersion =
      original.publicationVersion)
    (hpublished : (row.savedOver clock original).publishedRevisionId ≠ none) :
    (row.savedOver clock original).publishedRevisionId = original.publishedRevisionId := by
  have hstate := hcleaned.published.mpr (Option.isSome_iff_ne_none.mpr hpublished)
  by_contra hdiffers
  have hbefore : original.state ≠ .published := fun horiginal =>
    hkept ⟨hstate, horiginal, hdiffers⟩
  unfold Dashboard.savedOver Dashboard.advancePublication at hversion hpublished hstate
  by_cases hsame : row.publicationVersion = original.publicationVersion
  · split at hversion
    · simp at hversion
    · rename_i hskipped
      rw [if_neg hskipped] at hpublished hstate
      exact hskipped ⟨hstate, hpublished, .inl hbefore, hsame⟩
  · rw [if_neg fun hall => hsame hall.2.2.2] at hversion
    exact hsame hversion

/-- `Dashboard.save`, of a row that does not revive an archived dashboard. -/
theorem Dashboard.save_runs {context : CallContext} {row saved : Dashboard}
    {before after : Db}
    (hruns : (row.save context).Runs before saved after)
    (haccepting : ∀ original, before.dashboards.get? row.id = some original →
      row.state.acceptsRevisions = true → original.state.acceptsRevisions = true) :
    ∃ written original, written.id = row.id ∧
      written.latestRevisionId = row.latestRevisionId ∧
        before.dashboards.get? written.id = some original ∧
          written.SavedFrom before original ∧
            after = { before with dashboards := before.dashboards.replace written } := by
  simp only [Dashboard.save, runs_bind, runs_get, runs_found, runs_check, runs_set,
    runs_pure, and_assoc, exists_and_left, exists_eq_left', exists_const] at hruns
  rcases hruns with ⟨original, horiginal, howner, htransfer, _, middle, hlifecycle, _,
    clean, hclean, _, rfl⟩
  rcases Dashboard.validateLifecycleTransition_runs hlifecycle with ⟨rfl, hversion, hkept⟩
  rcases Dashboard.fullClean_runs hclean with ⟨rfl, hcleaned⟩
  have hfields := @Dashboard.savedOver_kept context.clock row original
  refine ⟨_, original, Dashboard.savedOver_id, hfields.2.2.2,
    by rwa [Dashboard.savedOver_id], ?_, rfl⟩
  exact {
    owner := hfields.1.trans howner.symm
    transfer := hfields.2.1.trans htransfer.symm
    version := hversion
    republished := fun hsame =>
      Dashboard.republished_savedOver hcleaned (hkept hsame) hsame
    published := hcleaned.published
    versioned := hcleaned.versioned
    revision := hcleaned.revision
    accepting := by
      rw [hfields.2.2.1]
      exact haccepting original horiginal }

theorem Dashboard.save_change {context : CallContext} {row saved : Dashboard}
    {before after : Db}
    (hruns : (row.save context).Runs before saved after)
    (hkeeps : ∀ original, before.dashboards.get? row.id = some original →
      row.latestRevisionId = original.latestRevisionId ∧
        (row.state.acceptsRevisions = true → original.state.acceptsRevisions = true)) :
    Change effects before after := by
  rcases Dashboard.save_runs hruns fun original horiginal => (hkeeps original horiginal).2 with
    ⟨written, original, hid, hlatest, horiginal, hsaved, rfl⟩
  refine .dashboardSaved horiginal hsaved ?_
  rw [hid] at horiginal
  rw [hlatest, (hkeeps original horiginal).1]

/-! ## Grants -/

theorem recordGrantAudit_runs {context : CallContext} {eventType : AuditEventType}
    {actor : User} {dashboard : Dashboard} {grant : ViewerGrant} {before after : Db}
    {done : PUnit} (hdashboard : dashboard.id = grant.dashboardId)
    (hruns : (recordGrantAudit context eventType actor dashboard grant).Runs before done
      after) :
    ∃ event audits, event.Concerns eventType grant ∧
      before.audits.create event = some audits ∧
        after = { before with audits := audits, nextId := before.nextId + 1 } := by
  rcases recordAudit_runs hruns with
    ⟨event, audits, htype, hscope, htarget, hmetadata, haudits, rfl⟩
  exact ⟨event, audits, ⟨htype, by rw [hscope, hdashboard], htarget, hmetadata⟩, haudits, rfl⟩

theorem createGrant_change {context : CallContext} {actor : User} {dashboard : Dashboard}
    {grant inserted : ViewerGrant} {before middle after : Db} {done : PUnit}
    (hdashboard : dashboard.id = grant.dashboardId) (hunrevoked : grant.revokedAt = none)
    (hinsert : grant.insert.Runs before inserted middle)
    (haudit : (recordGrantAudit context .grantCreated actor dashboard inserted).Runs middle
      done after) :
    Change effects before after := by
  simp only [ViewerGrant.insert, ViewerGrant.checkConstraints, runs_bind, runs_get,
    runs_found, runs_check, runs_set, runs_pure, and_assoc, exists_and_left,
    exists_eq_left', exists_const] at hinsert
  rcases hinsert with ⟨stored, hstored, hviewer, _, _, _, _, hnone, grants, hgrants, rfl,
    rfl⟩
  rcases recordGrantAudit_runs hdashboard haudit with ⟨event, audits, hevent, haudits, rfl⟩
  exact .grantCreated hstored hviewer hunrevoked (hnone hunrevoked) hgrants hevent haudits

theorem grantRace_fails {dashboardId viewerId : Uuid} {failure : Failure} {before after : Db}
    {grant : ViewerGrant} : ¬ (grantRace dashboardId viewerId failure).Runs before grant after := by
  unfold grantRace
  cases failure with
  | integrity => simp
  | _ => simp

theorem revokeGrant_change {context : CallContext} {revokedAt : Time} {actor : User}
    {dashboard : Dashboard} {grant revoked : ViewerGrant} {before after : Db}
    (hgrant : grant ∈ before.grants) (hdashboard : dashboard.id = grant.dashboardId)
    (hunrevoked : grant.revokedAt = none)
    (hruns : (revokeGrant context revokedAt actor dashboard grant).Runs before revoked
      after) :
    Change effects before after := by
  simp only [revokeGrant, ViewerGrant.save, ViewerGrant.checkConstraints, runs_bind,
    runs_get, runs_found, runs_check, runs_set, runs_pure, and_assoc, exists_and_left,
    exists_eq_left', exists_const] at hruns
  rcases hruns with ⟨_, _, ⟨original, horiginal, _, _, _, _, _, _, _, stored, _, _, rfl, rfl⟩,
    done, middle, haudit, _, rfl⟩
  have hget : before.grants.get? grant.id = some grant := Table.get?_of_mem hgrant
  rcases recordGrantAudit_runs hdashboard haudit with ⟨event, audits, hevent, haudits, rfl⟩
  exact .grantRevoked hget hunrevoked rfl rfl (by simp) hevent haudits

theorem activeUser_eq_some {db : Db} {userId : Uuid} {user : User}
    (hactive : db.activeUser userId = some user) :
    db.users.get? userId = some user ∧ user.isActive = true := by
  simpa [Db.activeUser, Option.filter_eq_some_iff] using hactive

theorem lockActiveOwner_runs {dashboardId actorId : Uuid} {owned : Dashboard × User}
    {before after : Db} (hruns : (lockActiveOwner dashboardId actorId).Runs before owned after) :
    before = after ∧ before.dashboards.get? dashboardId = some owned.1 ∧
      before.users.get? actorId = some owned.2 ∧ owned.2.isActive = true ∧
        owned.1.ownerId = owned.2.id := by
  simp only [lockActiveOwner, runs_bind, runs_get, runs_found, runs_check, runs_pure,
    and_assoc, exists_and_left, exists_eq_left', exists_const,
    Option.filter_eq_some_iff] at hruns
  rcases hruns with ⟨dashboard, hdashboard, _, actor, hactor, howner, rfl, rfl⟩
  exact ⟨rfl, hdashboard, (activeUser_eq_some hactor).1, (activeUser_eq_some hactor).2,
    howner⟩

theorem grantProjectViewer_changes {context : CallContext} {dashboardId actorId : Uuid}
    {targetSoeid : Text} {grant : ViewerGrant} {before after : Db}
    (hruns : (grantProjectViewer context dashboardId actorId targetSoeid).Runs before grant
      after) :
    Changes effects before after := by
  simp only [grantProjectViewer, runs_bind, runs_orFail, runs_get, runs_found, runs_check,
    runs_pure, runs_getOneOrNone, runs_recover, and_assoc, exists_and_left,
    exists_eq_left', exists_const] at hruns
  rcases hruns with ⟨canonical, _, owned, state, howned, _, matching, _, target, _, _, _, _,
    inserted, middle, hinsert, done, _, haudit, _, rfl⟩
  rcases lockActiveOwner_runs howned with ⟨rfl, _⟩
  rcases hinsert with hinsert | ⟨failure, _, hrace⟩
  · exact .single (createGrant_change rfl rfl hinsert haudit)
  · exact absurd hrace grantRace_fails

theorem revokeProjectViewer_changes {context : CallContext}
    {dashboardId grantId actorId : Uuid} {revoked : ViewerGrant} {before after : Db}
    (hruns : (revokeProjectViewer context dashboardId grantId actorId).Runs before revoked
      after) :
    Changes effects before after := by
  simp only [revokeProjectViewer, runs_bind, runs_get, runs_found, runs_ite, runs_pure,
    and_assoc, exists_and_left, exists_eq_left', Option.filter_eq_some_iff] at hruns
  rcases hruns with ⟨owned, state, howned, grant, hgrant, hscope, hrest⟩
  rcases lockActiveOwner_runs howned with ⟨rfl, _⟩
  have hscope : grant.dashboardId = owned.1.id := by simpa using hscope
  rcases hrest with ⟨_, _, rfl⟩ | ⟨hunrevoked, hrevoke⟩
  · exact .refl
  · exact .single (revokeGrant_change (Table.mem_of_get? hgrant) hscope.symm
      (by simpa using hunrevoked) hrevoke)

/-! ## Access requests -/

theorem AccessRequest.fullClean_runs {row : AccessRequest} {before after : Db}
    {done : PUnit} (hruns : row.fullClean.Runs before done after) : before = after := by
  simp only [AccessRequest.fullClean, runs_bind, runs_check, and_assoc, exists_and_left,
    exists_eq_left', exists_const] at hruns
  exact hruns.2.2.2

theorem AccessRequest.insert_runs {row inserted : AccessRequest} {before after : Db}
    (hruns : row.insert.Runs before inserted after) :
    inserted = row ∧ row.status = .pending ∧
      ∃ dashboard accessRequests, before.dashboards.get? row.dashboardId = some dashboard ∧
        row.requesterId ≠ dashboard.ownerId ∧
          before.accessRequests.create row = some accessRequests ∧
            after = { before with accessRequests := accessRequests } := by
  simp only [AccessRequest.insert, runs_bind, runs_get, runs_found, runs_check, runs_set,
    runs_pure, and_assoc, exists_and_left, exists_eq_left', exists_const] at hruns
  rcases hruns with ⟨hpending, dashboard, hdashboard, hrequester, _, requester, _, _, _, _,
    hclean, _, requests, hcreate, rfl, rfl⟩
  cases AccessRequest.fullClean_runs hclean
  exact ⟨rfl, hpending, dashboard, requests, hdashboard, hrequester, hcreate, rfl⟩

theorem AccessRequest.validateTransition_runs {row original : AccessRequest}
    {before after : Db} {done : PUnit}
    (hruns : (row.validateTransition original).Runs before done after) :
    before = after ∧ original.dashboardId = row.dashboardId ∧
      original.requesterId = row.requesterId ∧
        (row.status = .pending → original.status = .pending ∨
          ∃ dashboard ∈ before.dashboards.get? row.dashboardId,
            row.requesterId ≠ dashboard.ownerId) := by
  simp only [AccessRequest.validateTransition, AccessRequest.validateResolution,
    AccessRequest.validateReopening, runs_bind, runs_get, runs_found, runs_check, runs_ite,
    and_assoc, exists_and_left, exists_eq_left', exists_const] at hruns
  rcases hruns with ⟨hdashboard, hrequester, dashboard, hstored, requester, _, hbody⟩
  rcases hbody with ⟨hpending, hbody⟩ | ⟨_, hbody⟩
  · refine ⟨?_, hdashboard, hrequester, fun _ => .inl hpending⟩
    rcases hbody with ⟨_, _, heq⟩ | ⟨_, _, _, _, _, _, heq⟩
    · exact heq
    · exact heq
  · rcases hbody with ⟨_, _, _, _, _, howner, _, rfl⟩ | ⟨hnot, _, _, _, _, _, rfl⟩
    · exact ⟨rfl, hdashboard, hrequester, fun _ => .inr ⟨dashboard, hstored, howner⟩⟩
    · exact ⟨rfl, hdashboard, hrequester, fun hpending => absurd hpending hnot⟩

theorem AccessRequest.save_runs {context : CallContext} {row saved : AccessRequest}
    {before after : Db} (hruns : (row.save context).Runs before saved after) :
    saved = { row with updatedAt := context.clock } ∧
      after = { before with accessRequests := before.accessRequests.replace saved } ∧
        ∃ original, before.accessRequests.get? row.id = some original ∧
          original.dashboardId = row.dashboardId ∧ original.requesterId = row.requesterId ∧
            (row.status = .pending → original.status = .pending ∨
              ∃ dashboard ∈ before.dashboards.get? row.dashboardId,
                row.requesterId ≠ dashboard.ownerId) := by
  simp only [AccessRequest.save, runs_bind, runs_get, runs_found, runs_set, runs_pure,
    and_assoc, exists_and_left, exists_eq_left', exists_const] at hruns
  rcases hruns with ⟨original, horiginal, _, _, htransition, _, _, hclean, rfl, rfl⟩
  rcases AccessRequest.validateTransition_runs htransition with
    ⟨rfl, hdashboard, hrequester, hpending⟩
  cases AccessRequest.fullClean_runs hclean
  exact ⟨rfl, rfl, original, horiginal, hdashboard, hrequester, hpending⟩

/-- A request opened under an event is one change, after identity values were taken. -/
theorem openAccessRequest_change {context : CallContext} {actor : User}
    {dashboardId requesterId : Uuid} {message : Text} {existing : Option AccessRequest}
    {request : AccessRequest} {reopened : Bool} {before middle after : Db} {done : PUnit}
    (hexisting : existing = none ∨ ∃ stored ∈ existing, stored ∈ before.accessRequests ∧
      stored.status ≠ .pending ∧ stored.dashboardId = dashboardId ∧
        stored.requesterId = requesterId)
    (hruns : (openAccessRequest context dashboardId requesterId message existing).Runs
      before request middle)
    (haudit : (recordAudit context .accessRequested
      { actorId := some actor.id
        dashboardId := some dashboardId
        targetUserId := some requesterId }
      [("request_id", .number request.id), ("reopened", .flag reopened)]).Runs middle done
        after) :
    ∃ opened, (∀ effects, Changes effects before opened) ∧
      ∀ effects, .requests ∈ effects → Change effects opened after := by
  rcases recordAudit_runs haudit with
    ⟨event, audits, htype, hdashboard, htarget, hmetadata, haudits, rfl⟩
  unfold openAccessRequest at hruns
  rcases hexisting with rfl | ⟨stored, rfl, hstored, hresolved, rfl, rfl⟩
  · simp only [runs_bind, runs_takeId, and_assoc, exists_and_left, exists_eq_left] at hruns
    rcases AccessRequest.insert_runs hruns with
      ⟨rfl, hpending, dashboard, requests, hget, hrequester, hcreate, rfl⟩
    exact ⟨_, fun _ => .single (.idsTaken 1), fun _ => .requestOpened hget hrequester hcreate
      hpending ⟨htype, hdashboard, htarget, reopened, hmetadata⟩ haudits⟩
  · rcases AccessRequest.save_runs hruns with
      ⟨rfl, rfl, original, horiginal, _, _, hpending⟩
    have hself : before.accessRequests.get? stored.id = some stored := Table.get?_of_mem hstored
    cases Option.some.inj (hself.symm.trans horiginal)
    rcases hpending rfl with hbefore | ⟨dashboard, hget, hrequester⟩
    · exact absurd hbefore hresolved
    · exact ⟨before, fun _ => .refl, fun _ => .requestReopened horiginal rfl rfl hget hrequester
        hresolved rfl ⟨htype, hdashboard, htarget, reopened, hmetadata⟩ haudits⟩

theorem requestDashboardAccess_change {platform : Platform} {context : CallContext}
    {dashboardId requesterId : Uuid} {message : Text} {request : AccessRequest}
    {before after : Db}
    (hruns : (requestDashboardAccess platform context dashboardId requesterId message).Runs
      before request after) :
    after = before ∨ ∃ opened, (∀ effects, Changes effects before opened) ∧
      ∀ effects, .requests ∈ effects → Change effects opened after := by
  simp only [requestDashboardAccess, runs_bind, runs_orFail, runs_get, runs_found,
    runs_check, runs_getOneOrNone, runs_ite, runs_pure, and_assoc, exists_and_left,
    exists_eq_left', exists_const] at hruns
  rcases hruns with ⟨_, _, dashboard, _, requester, _, _, _, existing, hexisting, hrest⟩
  rcases hrest with ⟨_, _, rfl⟩ | ⟨hresolved, request, middle, hopen, _, _, haudit, _, rfl⟩
  · exact .inl rfl
  · refine .inr (openAccessRequest_change ?_ hopen haudit)
    cases existing with
    | none => exact .inl rfl
    | some stored =>
        have hstored : stored ∈ before.requestsOf dashboard.id requester.id := by
          rw [hexisting]
          simp
        simp only [Db.requestsOf, Table.mem_where?_iff, decide_eq_true_eq] at hstored
        exact .inr ⟨stored, rfl, hstored.1, by simpa using hresolved, hstored.2⟩

theorem requestDashboardAccess_changes {platform : Platform} {context : CallContext}
    {dashboardId requesterId : Uuid} {message : Text} {request : AccessRequest}
    {before after : Db} (heffect : .requests ∈ effects)
    (hruns : (requestDashboardAccess platform context dashboardId requesterId message).Runs
      before request after) :
    Changes effects before after := by
  rcases requestDashboardAccess_change hruns with rfl | ⟨opened, htaken, hopened⟩
  · exact .refl
  · exact (htaken effects).tail (hopened effects heffect)

theorem resolveRequest_change {context : CallContext} {resolvedAt : Time} {actor : User}
    {dashboard : Dashboard} {request resolved : AccessRequest}
    {status : AccessRequestStatus} {before after : Db} (heffect : .resolutions ∈ effects)
    (hrequest : request ∈ before.accessRequests) (hscope : request.dashboardId = dashboard.id)
    (hpending : request.status = .pending) (hstatus : status ≠ .pending)
    (hruns : (resolveRequest context resolvedAt actor dashboard request status).Runs before
      resolved after) :
    Change effects before after := by
  simp only [resolveRequest, runs_bind, runs_pure] at hruns
  rcases hruns with ⟨saved, middle, hsave, _, _, haudit, _, rfl⟩
  rcases AccessRequest.save_runs hsave with ⟨rfl, rfl, original, horiginal, _, _, _⟩
  have hself : before.accessRequests.get? request.id = some request := Table.get?_of_mem hrequest
  cases Option.some.inj (hself.symm.trans horiginal)
  rcases recordAudit_runs haudit with
    ⟨event, audits, htype, hdashboard, htarget, hmetadata, haudits, rfl⟩
  exact .requestResolved horiginal rfl rfl hpending hstatus
    ⟨htype, by rw [hdashboard, ← hscope], htarget, hmetadata⟩ haudits heffect

theorem approveGrant_changes {context : CallContext} {actor : User} {dashboard : Dashboard}
    {request : AccessRequest} {before after : Db} {done : PUnit}
    (hruns : (approveGrant context actor dashboard request).Runs before done after) :
    Changes effects before after := by
  simp only [approveGrant, runs_bind, runs_get, runs_check, runs_getOneOrNone, runs_ite,
    runs_pure, and_assoc, exists_and_left, exists_eq_left', exists_const] at hruns
  rcases hruns with ⟨_, _, _, existing, _, hrest⟩
  rcases hrest with ⟨_, grant, middle, hinsert, haudit⟩ | ⟨_, _, rfl⟩
  · exact .single (createGrant_change rfl rfl hinsert haudit)
  · exact .refl

theorem resolveDashboardAccessRequest_changes {context : CallContext} {dashboardId : Uuid}
    {requestId : ℕ} {actorId : Uuid} {resolution : String} {resolvedAt : Time}
    {resolved : AccessRequest} {before after : Db} (heffect : .resolutions ∈ effects)
    (hruns : (resolveDashboardAccessRequest context dashboardId requestId actorId resolution
      resolvedAt).Runs before resolved after) :
    Changes effects before after := by
  simp only [resolveDashboardAccessRequest, runs_bind, runs_get, runs_found, runs_check,
    runs_ite, runs_pure, and_assoc, exists_and_left, exists_eq_left', exists_const,
    Option.filter_eq_some_iff, decide_eq_true_eq] at hruns
  rcases hruns with ⟨status, _, hstatus, dashboard, hdashboard, request, hrequest, hscope, actor,
    _, _, hrest⟩
  have hid : dashboard.id = dashboardId := Table.key_of_get? hdashboard
  have hstored := Table.mem_of_get? hrequest
  rcases hrest with ⟨_, _, _, rfl⟩ | ⟨hpending, hrest⟩
  · exact .refl
  · rw [not_not] at hpending
    rcases hrest with ⟨_, _, middle, hgrant, hresolve⟩ | ⟨_, hresolve⟩
    · have hgranted : Changes ∅ before middle := approveGrant_changes hgrant
      rw [← hgranted.accessRequests_eq (by simp) (by simp)] at hstored
      exact (approveGrant_changes hgrant).tail (resolveRequest_change heffect hstored
        (hscope.trans hid.symm) hpending hstatus hresolve)
    · exact .single (resolveRequest_change heffect hstored (hscope.trans hid.symm) hpending
        hstatus hresolve)

/-! ## Ownership transfers -/

theorem closeIncomingGrant_changes {context : CallContext} {transferredAt : Time}
    {actor : User} {dashboard : Dashboard} {incomingOwnerId : Uuid} {before after : Db}
    {done : PUnit}
    (hruns : (closeIncomingGrant context transferredAt actor dashboard
      incomingOwnerId).Runs before done after) :
    Changes effects before after := by
  simp only [closeIncomingGrant, runs_bind, runs_get, runs_getOneOrNone, and_assoc,
    exists_and_left, exists_eq_left'] at hruns
  rcases hruns with ⟨found, hfound, hrest⟩
  cases found with
  | none =>
      simp only [runs_pure] at hrest
      exact hrest.2 ▸ .refl
  | some grant =>
      simp only [runs_bind, runs_pure] at hrest
      rcases hrest with ⟨revoked, middle, hrevoke, _, rfl⟩
      have hactive : grant ∈ before.activeGrants dashboard.id incomingOwnerId := by
        rw [hfound]
        simp
      simp only [Db.activeGrants, Table.mem_where?_iff, ViewerGrant.isActiveFor,
        Bool.and_eq_true, beq_iff_eq] at hactive
      exact .single (revokeGrant_change hactive.1 hactive.2.1.1.symm hactive.2.2 hrevoke)

theorem closeIncomingRequest_changes {context : CallContext} {transferredAt : Time}
    {actor : User} {dashboard : Dashboard} {incomingOwnerId : Uuid} {before after : Db}
    {done : PUnit} (heffect : .resolutions ∈ effects)
    (hruns : (closeIncomingRequest context transferredAt actor dashboard
      incomingOwnerId).Runs before done after) :
    Changes effects before after := by
  simp only [closeIncomingRequest, runs_bind, runs_get, runs_getOneOrNone, and_assoc,
    exists_and_left, exists_eq_left'] at hruns
  rcases hruns with ⟨found, hfound, hrest⟩
  cases found with
  | none =>
      simp only [runs_pure] at hrest
      exact hrest.2 ▸ .refl
  | some request =>
      simp only [runs_bind, runs_pure] at hrest
      rcases hrest with ⟨resolved, middle, hresolve, _, rfl⟩
      have hrequest : request ∈ before.accessRequests.where? fun request =>
          request.dashboardId = dashboard.id ∧ request.requesterId = incomingOwnerId ∧
            request.status = .pending := by
        rw [hfound]
        simp
      simp only [Table.mem_where?_iff, decide_eq_true_eq] at hrequest
      exact .single (resolveRequest_change heffect hrequest.1 hrequest.2.1 hrequest.2.2.2
        (by decide) hresolve)

theorem changeOwner_change {clock : Time} {dashboard : Dashboard}
    {marker inserted : DashboardOwnershipTransfer} {before middle after : Db} {done : PUnit}
    (heffect : .transfers ∈ effects)
    (hinsert : marker.insert.Runs before inserted middle)
    (hchange : (dashboard.changeOwner clock inserted).Runs middle done after) :
    Change effects before after := by
  simp only [DashboardOwnershipTransfer.insert, runs_bind, runs_get, runs_found, runs_check,
    runs_set, runs_pure, and_assoc, exists_and_left, exists_eq_left',
    exists_const] at hinsert
  rcases hinsert with ⟨_, _, _, _, _, _, _, _, _, transfers, htransfers, rfl, rfl⟩
  have hself : transfers.get? marker.id = some marker := by
    rw [Table.get?_of_create htransfers]
    exact if_pos rfl
  simp only [Dashboard.changeOwner, runs_bind, runs_get, runs_found, runs_check, runs_set,
    and_assoc, exists_and_left, exists_eq_left', exists_const] at hchange
  rcases hchange with ⟨stored, hstored, _, _, _, _, installed, hinstalled, hdashboard, hsource,
    htarget, hprevious, _, _, hgrants, hrequests, rfl⟩
  cases Option.some.inj (hself.symm.trans hinstalled)
  have hid : stored.id = dashboard.id := Table.key_of_get? hstored
  rw [← hid] at hstored
  refine .ownershipTransferred htransfers hstored
    ⟨hdashboard, hsource, htarget, hprevious, rfl⟩ ?_ ?_ heffect
  · intro grant hgrant hscope hviewer hunrevoked
    exact Table.any_eq_false_iff.mp hgrants grant hgrant (by simp [hscope, hviewer, hunrevoked])
  · intro request hrequest hscope hrequester hpending
    exact Table.any_eq_false_iff.mp hrequests request hrequest
      (by simp [hscope, hrequester, hpending])

theorem transferDashboardOwnership_changes {context : CallContext}
    {dashboardId actorId incomingOwnerId : Uuid}
    {expectedTransferId : Option (Option Uuid)} {transferredAt : Time}
    {transferred : Dashboard} {before after : Db}
    (htransfers : .transfers ∈ effects) (hresolutions : .resolutions ∈ effects)
    (hruns : (transferDashboardOwnership context dashboardId actorId incomingOwnerId
      expectedTransferId transferredAt).Runs before transferred after) :
    Changes effects before after := by
  simp only [transferDashboardOwnership, runs_bind, runs_get, runs_found, runs_check,
    and_assoc, exists_and_left, exists_eq_left', exists_const] at hruns
  rcases hruns with ⟨dashboard, _, _, actor, _, incoming, _, _, _, _, closed, hgrant, _,
    resolved, hrequest, marker, marked, hinsert, _, changed, hchange, _, audited, haudit, _, rfl⟩
  have hclosed := (closeIncomingGrant_changes hgrant).trans
    (closeIncomingRequest_changes hresolutions hrequest)
  exact (hclosed.tail (changeOwner_change htransfers hinsert hchange)).tail
    (recordAudit_change haudit rfl)

/-! ## Projects and publication -/

theorem lockCurrentOwner_runs {dashboardId actorId : Uuid} {owned : Dashboard × User}
    {before after : Db}
    (hruns : (lockCurrentOwner dashboardId actorId).Runs before owned after) :
    before = after ∧ before.dashboards.get? dashboardId = some owned.1 ∧
      before.users.get? actorId = some owned.2 ∧ owned.2.isActive = true ∧
        owned.1.ownerId = owned.2.id := by
  simp only [lockCurrentOwner, runs_bind, runs_get, runs_found, runs_check, runs_pure,
    and_assoc, exists_and_left, exists_eq_left', exists_const] at hruns
  rcases hruns with ⟨dashboard, hdashboard, actor, hactor, howner, rfl, rfl⟩
  exact ⟨rfl, hdashboard, (activeUser_eq_some hactor).1, (activeUser_eq_some hactor).2,
    howner⟩

/-- The original of a row read under an identifier is the row read. -/
theorem original_of_get? {db : Db} {dashboardId : Uuid} {dashboard original : Dashboard}
    (hget : db.dashboards.get? dashboardId = some dashboard)
    (horiginal : db.dashboards.get? dashboard.id = some original) : original = dashboard := by
  have hself : db.dashboards.get? dashboard.id = some dashboard :=
    Table.get?_of_mem (Table.mem_of_get? hget)
  exact Option.some.inj (horiginal.symm.trans hself)

theorem createProject_runs {context : CallContext} {ownerId : Uuid}
    {name description : Text} {project : Dashboard} {before after : Db}
    (hruns : (createProject context ownerId name description).Runs before project after) :
    project.ownerId = ownerId ∧ project.state = .draft ∧ project.latestRevisionId = none ∧
      project.publishedRevisionId = none ∧ project.lastOwnershipTransferId = none ∧
        ∃ dashboards event audits, before.dashboards.create project = some dashboards ∧
          event.eventType = .dashboardCreated ∧ before.audits.create event = some audits ∧
            after = { before with
              dashboards := dashboards
              audits := audits
              nextId := before.nextId + 1 } := by
  simp only [createProject, runs_bind, runs_get, runs_found, runs_pure, and_assoc,
    exists_and_left, exists_eq_left'] at hruns
  rcases hruns with ⟨owner, howner, inserted, middle, hinsert, _, _, haudit, rfl, rfl⟩
  rcases Dashboard.insert_runs hinsert with
    ⟨rfl, hdraft, hlatest, hpublished, htransfer, dashboards, hcreate, rfl⟩
  rcases recordAudit_runs haudit with ⟨event, audits, htype, _, _, _, haudits, rfl⟩
  have hid : owner.id = ownerId := Table.key_of_get? (activeUser_eq_some howner).1
  exact ⟨hid, hdraft, hlatest, hpublished, htransfer, dashboards, event, audits, hcreate, htype,
    haudits, rfl⟩

theorem createProject_changes {context : CallContext} {ownerId : Uuid}
    {name description : Text} {project : Dashboard} {before after : Db}
    (heffect : .dashboards ∈ effects)
    (hruns : (createProject context ownerId name description).Runs before project after) :
    Changes effects before after := by
  rcases createProject_runs hruns with ⟨_, hdraft, hlatest, hpublished, htransfer, dashboards,
    event, audits, hcreate, htype, haudits, rfl⟩
  refine .tail (.single (.dashboardInserted hcreate hdraft hpublished htransfer hlatest heffect))
    (.audited ?_ haudits)
  rw [htype]
  rfl

theorem renameProject_changes {context : CallContext} {projectId ownerId : Uuid}
    {name : Text} {project : Dashboard} {before after : Db}
    (hruns : (renameProject context projectId ownerId name).Runs before project after) :
    Changes effects before after := by
  simp only [renameProject, runs_bind, runs_get, runs_found, runs_check, runs_ite, runs_pure,
    and_assoc, exists_and_left, exists_eq_left', exists_const,
    Option.filter_eq_some_iff] at hruns
  rcases hruns with ⟨_, _, project, hproject, _, hrest⟩
  rcases hrest with ⟨_, _, rfl⟩ | ⟨_, renamed, middle, hsave, _, _, haudit, _, rfl⟩
  · exact .refl
  · refine .tail (.single (Dashboard.save_change hsave ?_)) (recordAudit_change haudit rfl)
    intro original horiginal
    rw [original_of_get? hproject horiginal]
    exact ⟨rfl, id⟩

theorem publishDashboardRevision_changes {platform : Platform} {context : CallContext}
    {dashboardId actorId revisionId : Uuid} {publicationNote : Text}
    {dataAsOf : Option Time} {freshnessInterval : Option ℤ} {publishedAt : Time}
    {published : Dashboard} {before after : Db}
    (hruns : (publishDashboardRevision platform context dashboardId actorId revisionId
      publicationNote dataAsOf freshnessInterval publishedAt).Runs before published after) :
    Changes effects before after := by
  simp only [publishDashboardRevision, runs_bind, runs_orFail, runs_get, runs_found,
    runs_check, runs_pure, and_assoc, exists_and_left, exists_eq_left', exists_const] at hruns
  rcases hruns with ⟨note, _, freshness, _, owned, state, howned, haccepting, revision, _, _,
    saved, middle, hsave, _, _, haudit, _, rfl⟩
  rcases lockCurrentOwner_runs howned with ⟨rfl, hdashboard, _⟩
  refine .tail (.single (Dashboard.save_change hsave ?_)) (recordAudit_change haudit rfl)
  intro original horiginal
  rw [original_of_get? hdashboard horiginal]
  exact ⟨rfl, fun _ => haccepting⟩

theorem unpublishDashboard_changes {context : CallContext} {dashboardId actorId : Uuid}
    {unpublished : Dashboard} {before after : Db}
    (hruns : (unpublishDashboard context dashboardId actorId).Runs before unpublished after) :
    Changes effects before after := by
  simp only [unpublishDashboard, runs_bind, runs_check, runs_pure, and_assoc,
    exists_and_left, exists_eq_left', exists_const] at hruns
  rcases hruns with ⟨owned, state, howned, hpublished, _, saved, middle, hsave, _, _, haudit,
    _, rfl⟩
  rcases lockCurrentOwner_runs howned with ⟨rfl, hdashboard, _⟩
  refine .tail (.single (Dashboard.save_change hsave ?_)) (recordAudit_change haudit rfl)
  intro original horiginal
  rw [original_of_get? hdashboard horiginal]
  exact ⟨rfl, fun _ => by rw [hpublished]; rfl⟩

theorem confirmDashboardFreshness_changes {context : CallContext}
    {dashboardId actorId : Uuid} {freshnessInterval : Option ℤ}
    {dataAsOf : Option (Option Time)} {confirmedAt : Time} {confirmed : Dashboard}
    {before after : Db}
    (hruns : (confirmDashboardFreshness context dashboardId actorId freshnessInterval
      dataAsOf confirmedAt).Runs before confirmed after) :
    Changes effects before after := by
  simp only [confirmDashboardFreshness, runs_bind, runs_orFail, runs_check, runs_pure,
    and_assoc, exists_and_left, exists_eq_left', exists_const] at hruns
  rcases hruns with ⟨freshness, _, owned, state, howned, hpublished, saved, middle, hsave, _,
    _, haudit, _, rfl⟩
  rcases lockCurrentOwner_runs howned with ⟨rfl, hdashboard, _⟩
  refine .tail (.single (Dashboard.save_change hsave ?_)) (recordAudit_change haudit rfl)
  intro original horiginal
  rw [original_of_get? hdashboard horiginal]
  exact ⟨rfl, fun _ => by rw [hpublished]; rfl⟩

theorem setDashboardFavorite_changes {context : CallContext} {dashboardId userId : Uuid}
    {favorited : Bool} {favorite : Option DashboardFavorite} {before after : Db}
    (hruns : (setDashboardFavorite context dashboardId userId favorited).Runs before favorite
      after) :
    Changes effects before after := by
  simp only [setDashboardFavorite, runs_bind, runs_get, runs_found, runs_check, runs_set,
    runs_getOneOrNone, runs_ite, runs_pure, and_assoc, exists_and_left, exists_eq_left',
    exists_const] at hruns
  rcases hruns with ⟨_, user, _, _, rfl⟩ | ⟨_, dashboard, _, user, _, _, existing, hexisting,
    hrest⟩
  · exact .single (.favoritesRemoved _)
  · cases existing with
    | some row =>
        simp only [runs_pure] at hrest
        exact hrest.2 ▸ .refl
    | none =>
        simp only [runs_bind, runs_takeId, runs_get, runs_found, runs_set, runs_pure,
          and_assoc, exists_and_left, exists_eq_left', exists_eq_left, exists_const] at hrest
        rcases hrest with ⟨favorites, hcreate, _, rfl⟩
        refine .tail (.single (.idsTaken 1)) (.favoriteAdded ?_ ?_ hcreate)
        · exact Nat.lt_succ_self before.nextId
        · intro other hother hsame
          have hmem : other ∈ before.favorites.where? fun favorite =>
              favorite.userId = user.id ∧ favorite.dashboardId = dashboard.id := by
            simpa using ⟨hother, hsame⟩
          rw [hexisting] at hmem
          simp at hmem

/-! ## Accounts -/

theorem requireAdministrator_runs {actorId : Uuid} {actor : User} {before after : Db}
    (hruns : (requireAdministrator actorId).Runs before actor after) : before = after := by
  simp only [requireAdministrator, runs_bind, runs_get, runs_found, and_assoc,
    exists_and_left, exists_eq_left'] at hruns
  exact hruns.2

theorem setValidatedPassword_runs {platform : Platform} {user changed : User}
    {password salt : Text} {before after : Db}
    (hruns : (setValidatedPassword platform user password salt).Runs before changed after) :
    before = after := by
  simp only [setValidatedPassword, runs_bind, runs_check, runs_pure, and_assoc,
    exists_and_left, exists_eq_left', exists_const] at hruns
  exact hruns.2.2.2

theorem recordAccountAudit_change {context : CallContext} {eventType : AuditEventType}
    {actorId : Option Uuid} {target : User} {before after : Db} {done : PUnit}
    (hruns : (recordAccountAudit context eventType actorId target).Runs before done after)
    (hunscoped : eventType.isScoped = false) : Change effects before after :=
  recordAudit_change hruns hunscoped

theorem bootstrapFirstAdministrator_changes {platform : Platform} {context : CallContext}
    {soeid password salt : Text} {user : User} {before after : Db}
    (hruns : (bootstrapFirstAdministrator platform context soeid password salt).Runs before
      user after) :
    Changes effects before after := by
  simp only [bootstrapFirstAdministrator, runs_bind, runs_get, runs_check, runs_orFail,
    runs_pure, and_assoc, exists_and_left, exists_eq_left', exists_const] at hruns
  rcases hruns with ⟨_, canonical, _, candidate, state, hpassword, inserted, middle, hinsert,
    _, _, haudit, _, rfl⟩
  cases setValidatedPassword_runs hpassword
  exact .tail (.single (User.insert_change hinsert)) (recordAccountAudit_change haudit rfl)

theorem duplicateUser_fails {canonical : Text} {failure : Failure} {user : User}
    {before after : Db} : ¬ (duplicateUser canonical failure).Runs before user after := by
  unfold duplicateUser
  cases failure with
  | _ => simp

theorem provisionUser_changes {platform : Platform} {context : CallContext} {actorId : Uuid}
    {soeid password salt : Text} {isAdministrator : Bool} {user : User} {before after : Db}
    (hruns : (provisionUser platform context actorId soeid password salt
      isAdministrator).Runs before user after) :
    Changes effects before after := by
  simp only [provisionUser, runs_bind, runs_orFail, runs_recover, runs_pure, and_assoc,
    exists_and_left, exists_eq_left'] at hruns
  rcases hruns with ⟨canonical, _, actor, state, hactor, candidate, checked, hpassword,
    inserted, middle, hinsert, _, _, haudit, _, rfl⟩
  cases requireAdministrator_runs hactor
  cases setValidatedPassword_runs hpassword
  rcases hinsert with hinsert | ⟨failure, _, hduplicate⟩
  · exact .tail (.single (User.insert_change hinsert)) (recordAccountAudit_change haudit rfl)
  · exact absurd hduplicate duplicateUser_fails

theorem disableUser_changes {context : CallContext} {actorId targetId : Uuid} {user : User}
    {before after : Db} (hruns : (disableUser context actorId targetId).Runs before user after) :
    Changes effects before after := by
  simp only [disableUser, runs_bind, runs_get, runs_found, runs_check, runs_ite, runs_pure,
    and_assoc, exists_and_left, exists_eq_left', exists_const] at hruns
  rcases hruns with ⟨actor, _, target, _, _, _, hrest⟩
  rcases hrest with ⟨_, _, rfl⟩ | ⟨_, disabled, middle, hsave, _, _, haudit, _, rfl⟩
  · exact .refl
  · exact .tail (.single (User.save_change hsave)) (recordAccountAudit_change haudit rfl)

theorem enableUser_changes {context : CallContext} {actorId targetId : Uuid} {user : User}
    {before after : Db} (hruns : (enableUser context actorId targetId).Runs before user after) :
    Changes effects before after := by
  simp only [enableUser, runs_bind, runs_get, runs_found, runs_ite, runs_pure,
    and_assoc, exists_and_left, exists_eq_left'] at hruns
  rcases hruns with ⟨actor, state, hactor, target, _, hrest⟩
  cases requireAdministrator_runs hactor
  rcases hrest with ⟨_, _, rfl⟩ | ⟨_, enabled, middle, hsave, _, _, haudit, _, rfl⟩
  · exact .refl
  · exact .tail (.single (User.save_change hsave)) (recordAccountAudit_change haudit rfl)

theorem resetUserPassword_changes {platform : Platform} {context : CallContext}
    {actorId targetId : Uuid} {password salt : Text} {user : User} {before after : Db}
    (hruns : (resetUserPassword platform context actorId targetId password salt).Runs before
      user after) :
    Changes effects before after := by
  simp only [resetUserPassword, runs_bind, runs_get, runs_found, runs_pure, and_assoc,
    exists_and_left, exists_eq_left'] at hruns
  rcases hruns with ⟨actor, state, hactor, target, _, changed, checked, hpassword, reset,
    middle, hsave, _, _, haudit, _, rfl⟩
  cases requireAdministrator_runs hactor
  cases setValidatedPassword_runs hpassword
  exact .tail (.single (User.save_change hsave)) (recordAccountAudit_change haudit rfl)

end Agora
