import Agora.GrantAuditReconstruction

/-!
# Episodes of access requests

A request is reopened in place after a decision, so one row has many pending
episodes.  The audit log separates them: every opening and every resolution of a
request records one event.  A step of the services opens a request, resolves it
once, or leaves its status and its events alone; so an episode has at most one
resolution, and only a new opening follows it.
-/

namespace Agora

open Transaction

variable {effects : Set Effect} {platform : Platform} {before after : Db} {requestId : ℕ}

/-! ## Events of a request -/

/-- The request that an event opens or reopens. -/
def AuditEvent.openedRequest (event : AuditEvent) : Option ℕ :=
  match event.eventType, event.metadata with
  | .accessRequested, [("request_id", .number id), ("reopened", .flag _)] => some id
  | _, _ => none

/-- The request that an event resolves, and how. -/
def AuditEvent.resolvedRequest (event : AuditEvent) : Option (ℕ × AccessRequestStatus) :=
  match event.eventType, event.metadata with
  | .accessResolved, [("request_id", .number id), ("resolution", .status status)] =>
      some (id, status)
  | _, _ => none

def Db.requestStatus (db : Db) (requestId : ℕ) : Option AccessRequestStatus :=
  (db.accessRequests.get? requestId).map AccessRequest.status

/-- How often the request was opened. -/
def Db.openings (db : Db) (requestId : ℕ) : ℕ :=
  db.audits.rows.countP fun event => event.openedRequest = some requestId

/-- The recorded resolutions of the request, the last one first. -/
def Db.resolutions (db : Db) (requestId : ℕ) : List AccessRequestStatus :=
  (db.audits.rows.filterMap AuditEvent.resolvedRequest).filterMap fun resolution =>
    if resolution.1 = requestId then some resolution.2 else none

theorem AuditEvent.Opens.openedRequest_eq {event : AuditEvent} {request : AccessRequest}
    (hevent : event.Opens request) : event.openedRequest = some request.id := by
  rcases hevent with ⟨htype, _, _, _, hmetadata⟩
  simp [AuditEvent.openedRequest, htype, hmetadata]

theorem AuditEvent.Resolves.resolvedRequest_eq {event : AuditEvent} {request : AccessRequest}
    (hevent : event.Resolves request) :
    event.resolvedRequest = some (request.id, request.status) := by
  rcases hevent with ⟨htype, _, _, hmetadata⟩
  simp [AuditEvent.resolvedRequest, htype, hmetadata]

theorem AuditEvent.openedRequest_eq_none {event : AuditEvent}
    (htype : event.eventType ≠ .accessRequested) : event.openedRequest = none := by
  unfold AuditEvent.openedRequest
  split
  · rename_i hrequested _
    exact absurd hrequested htype
  · rfl

theorem AuditEvent.resolvedRequest_eq_none {event : AuditEvent}
    (htype : event.eventType ≠ .accessResolved) : event.resolvedRequest = none := by
  unfold AuditEvent.resolvedRequest
  split
  · rename_i hresolved _
    exact absurd hresolved htype
  · rfl

theorem Db.openings_of_create {event : AuditEvent} {audits : Table AuditEvent}
    (hcreate : before.audits.create event = some audits) (hafter : after.audits = audits) :
    after.openings requestId =
      before.openings requestId + if event.openedRequest = some requestId then 1 else 0 := by
  unfold Db.openings
  rw [hafter, (Table.create_eq_some_iff.mp hcreate).2, List.countP_cons]
  simp

theorem Db.resolutions_of_create {event : AuditEvent} {audits : Table AuditEvent}
    (hcreate : before.audits.create event = some audits) (hafter : after.audits = audits)
    (hnone : event.resolvedRequest = none) :
    after.resolutions requestId = before.resolutions requestId := by
  unfold Db.resolutions
  rw [hafter, (Table.create_eq_some_iff.mp hcreate).2, List.filterMap_cons, hnone]

theorem Db.resolutions_of_resolution {event : AuditEvent} {audits : Table AuditEvent}
    {id : ℕ} {status : AccessRequestStatus}
    (hcreate : before.audits.create event = some audits) (hafter : after.audits = audits)
    (hsome : event.resolvedRequest = some (id, status)) :
    after.resolutions requestId =
      if id = requestId then status :: before.resolutions requestId
      else before.resolutions requestId := by
  unfold Db.resolutions
  rw [hafter, (Table.create_eq_some_iff.mp hcreate).2, List.filterMap_cons, hsome]
  by_cases hid : id = requestId
  · simp [hid]
  · simp [hid]

/-! ## One step -/

/-- What a step does to one request and to its events. -/
inductive RequestStep (requestId : ℕ) (before after : Db) : Prop
  | kept (hstatus : after.requestStatus requestId = before.requestStatus requestId)
      (hopenings : after.openings requestId = before.openings requestId)
      (hresolutions : after.resolutions requestId = before.resolutions requestId)
  | opened (hclosed : before.requestStatus requestId ≠ some .pending)
      (hstatus : after.requestStatus requestId = some .pending)
      (hopenings : after.openings requestId = before.openings requestId + 1)
      (hresolutions : after.resolutions requestId = before.resolutions requestId)
  | resolved {status : AccessRequestStatus}
      (hpending : before.requestStatus requestId = some .pending)
      (hresolution : status ≠ .pending)
      (hstatus : after.requestStatus requestId = some status)
      (hopenings : after.openings requestId = before.openings requestId)
      (hresolutions : after.resolutions requestId =
        status :: before.resolutions requestId)

/-- Nothing about any request has changed. -/
structure RequestsKept (before after : Db) : Prop where
  rows : after.accessRequests = before.accessRequests
  openings : ∀ requestId, after.openings requestId = before.openings requestId
  resolutions : ∀ requestId, after.resolutions requestId = before.resolutions requestId

theorem RequestsKept.refl (db : Db) : RequestsKept db db :=
  ⟨rfl, fun _ => rfl, fun _ => rfl⟩

theorem RequestsKept.trans {first second third : Db} (hfirst : RequestsKept first second)
    (hsecond : RequestsKept second third) : RequestsKept first third where
  rows := hsecond.rows.trans hfirst.rows
  openings requestId := (hsecond.openings requestId).trans (hfirst.openings requestId)
  resolutions requestId :=
    (hsecond.resolutions requestId).trans (hfirst.resolutions requestId)

theorem RequestsKept.requestStatus (hkept : RequestsKept before after) (requestId : ℕ) :
    after.requestStatus requestId = before.requestStatus requestId := by
  unfold Db.requestStatus
  rw [hkept.rows]

/-- An event of another kind. -/
theorem RequestsKept.of_event {event : AuditEvent} {audits : Table AuditEvent}
    (hcreate : before.audits.create event = some audits) (hafter : after.audits = audits)
    (hrows : after.accessRequests = before.accessRequests)
    (hrequested : event.eventType ≠ .accessRequested)
    (hresolved : event.eventType ≠ .accessResolved) : RequestsKept before after where
  rows := hrows
  openings requestId := by
    rw [Db.openings_of_create hcreate hafter, AuditEvent.openedRequest_eq_none hrequested]
    simp
  resolutions requestId :=
    Db.resolutions_of_create hcreate hafter (AuditEvent.resolvedRequest_eq_none hresolved)

/-- A row was written for a request that had no pending one. -/
structure RequestOpened (row : AccessRequest) (before after : Db) : Prop where
  rows : ∀ id, after.accessRequests.get? id =
    if row.id = id then some row else before.accessRequests.get? id
  closed : ∀ original ∈ before.accessRequests.get? row.id, original.status ≠ .pending
  pending : row.status = .pending
  event : ∃ event audits, event.Opens row ∧ before.audits.create event = some audits ∧
    after.audits = audits

/-- A pending row was resolved. -/
structure RequestResolved (row : AccessRequest) (before after : Db) : Prop where
  rows : ∀ id, after.accessRequests.get? id =
    if row.id = id then some row else before.accessRequests.get? id
  pending : ∃ original ∈ before.accessRequests.get? row.id, original.status = .pending
  resolved : row.status ≠ .pending
  event : ∃ event audits, event.Resolves row ∧ before.audits.create event = some audits ∧
    after.audits = audits

theorem get?_replace_stored {row original : AccessRequest} {table : Table AccessRequest}
    (horiginal : table.get? row.id = some original) (id : ℕ) :
    (table.replace row).get? id = if row.id = id then some row else table.get? id := by
  have hkey : Keyed.key row = row.id := rfl
  rw [Table.get?_replace, hkey]
  by_cases hid : row.id = id
  · rw [if_pos hid, if_pos hid, ← hid, horiginal]
    rfl
  · rw [if_neg hid, if_neg hid]

theorem Change.requestCases (hchange : Change effects before after) :
    RequestsKept before after ∨
      (.requests ∈ effects ∧ ∃ row, RequestOpened row before after) ∨
        (.resolutions ∈ effects ∧ ∃ row, RequestResolved row before after) := by
  cases hchange with
  | grantCreated _ _ _ _ _ hevent haudits =>
      exact .inl (.of_event haudits rfl rfl (by rw [hevent.1]; decide)
        (by rw [hevent.1]; decide))
  | grantRevoked _ _ _ _ _ hevent haudits =>
      exact .inl (.of_event haudits rfl rfl (by rw [hevent.1]; decide)
        (by rw [hevent.1]; decide))
  | audited hunscoped haudits =>
      refine .inl (.of_event haudits rfl rfl ?_ ?_)
      · intro htype
        simp [htype, AuditEventType.isScoped] at hunscoped
      · intro htype
        simp [htype, AuditEventType.isScoped] at hunscoped
  | requestOpened _ _ hcreate hpending hevent haudits heffect =>
      refine .inr (.inl ⟨heffect, _, Table.get?_of_create hcreate, ?_, hpending, _, _, hevent,
        haudits, rfl⟩)
      intro original horiginal
      have hfresh := (Table.create_eq_some_iff.mp hcreate).1
      exact absurd (hfresh.symm.trans horiginal) (by simp)
  | requestReopened horiginal _ _ _ _ hresolved hpending hevent haudits heffect =>
      refine .inr (.inl ⟨heffect, _, get?_replace_stored horiginal, ?_, hpending, _, _, hevent,
        haudits, rfl⟩)
      intro original hmem
      cases Option.some.inj (horiginal.symm.trans hmem)
      exact hresolved
  | requestResolved horiginal _ _ hpending hresolved hevent haudits heffect =>
      exact .inr (.inr ⟨heffect, _, get?_replace_stored horiginal, ⟨_, horiginal, hpending⟩,
        hresolved, _, _, hevent, haudits, rfl⟩)
  | _ => exact .inl ⟨rfl, fun _ => rfl, fun _ => rfl⟩

theorem Changes.requestsKept (hchanges : Changes effects before after)
    (hrequests : .requests ∉ effects) (hresolutions : .resolutions ∉ effects) :
    RequestsKept before after := by
  induction hchanges with
  | refl => exact .refl before
  | tail _ hlast ih =>
      rcases hlast.requestCases with hkept | ⟨heffect, _⟩ | ⟨heffect, _⟩
      · exact ih.trans hkept
      · exact absurd heffect hrequests
      · exact absurd heffect hresolutions

theorem requestStatus_of_rows {row : AccessRequest}
    (hrows : ∀ id, after.accessRequests.get? id =
      if row.id = id then some row else before.accessRequests.get? id) (requestId : ℕ) :
    after.requestStatus requestId =
      if row.id = requestId then some row.status else before.requestStatus requestId := by
  unfold Db.requestStatus
  rw [hrows]
  split <;> rfl

theorem RequestsKept.step (hkept : RequestsKept before after) (requestId : ℕ) :
    RequestStep requestId before after :=
  .kept (hkept.requestStatus requestId) (hkept.openings requestId) (hkept.resolutions requestId)

theorem RequestOpened.step {row : AccessRequest} (hopened : RequestOpened row before after)
    (requestId : ℕ) : RequestStep requestId before after := by
  rcases hopened.event with ⟨event, audits, hevent, hcreate, hafter⟩
  have hstatus := requestStatus_of_rows hopened.rows requestId
  have hopenings := @Db.openings_of_create before after requestId _ _ hcreate hafter
  rw [hevent.openedRequest_eq] at hopenings
  have hresolutions : after.resolutions requestId = before.resolutions requestId :=
    Db.resolutions_of_create hcreate hafter
      (AuditEvent.resolvedRequest_eq_none (by rw [hevent.1]; decide))
  by_cases hid : row.id = requestId
  · subst hid
    rw [if_pos rfl] at hstatus hopenings
    refine .opened ?_ (by rw [hstatus, hopened.pending]) hopenings hresolutions
    intro hpending
    rcases Option.map_eq_some_iff.mp hpending with ⟨original, horiginal, hbefore⟩
    exact hopened.closed original horiginal hbefore
  · rw [if_neg hid] at hstatus
    have hother : ¬ some row.id = some requestId := fun hsome => hid (Option.some.inj hsome)
    rw [if_neg hother] at hopenings
    exact .kept hstatus hopenings hresolutions

theorem RequestResolved.step {row : AccessRequest}
    (hresolved : RequestResolved row before after) (requestId : ℕ) :
    RequestStep requestId before after := by
  rcases hresolved.event with ⟨event, audits, hevent, hcreate, hafter⟩
  have hstatus := requestStatus_of_rows hresolved.rows requestId
  have hopenings := @Db.openings_of_create before after requestId _ _ hcreate hafter
  rw [AuditEvent.openedRequest_eq_none (by rw [hevent.1]; decide)] at hopenings
  have hresolutions := @Db.resolutions_of_resolution before after requestId _ _ _ _ hcreate
    hafter hevent.resolvedRequest_eq
  by_cases hid : row.id = requestId
  · subst hid
    rw [if_pos rfl] at hstatus hresolutions
    rcases hresolved.pending with ⟨original, horiginal, hpending⟩
    refine .resolved ?_ hresolved.resolved hstatus hopenings hresolutions
    exact Option.map_eq_some_iff.mpr ⟨original, horiginal, hpending⟩
  · rw [if_neg hid] at hstatus hresolutions
    exact .kept hstatus hopenings hresolutions

/-- A step between changes that touch no request. -/
theorem RequestStep.between {first second third last : Db} (hbefore : RequestsKept first second)
    (hstep : RequestStep requestId second third) (hafter : RequestsKept third last) :
    RequestStep requestId first last := by
  have hstatus := hbefore.requestStatus requestId
  have hopenings := hbefore.openings requestId
  have hresolutions := hbefore.resolutions requestId
  have hlastStatus := hafter.requestStatus requestId
  have hlastOpenings := hafter.openings requestId
  have hlastResolutions := hafter.resolutions requestId
  cases hstep with
  | kept hsame hcount hlist =>
      exact .kept (by rw [hlastStatus, hsame, hstatus]) (by rw [hlastOpenings, hcount, hopenings])
        (by rw [hlastResolutions, hlist, hresolutions])
  | opened hclosed hsame hcount hlist =>
      exact .opened (by rwa [← hstatus]) (by rw [hlastStatus, hsame])
        (by rw [hlastOpenings, hcount, hopenings]) (by rw [hlastResolutions, hlist, hresolutions])
  | resolved hpending hresolution hsame hcount hlist =>
      exact .resolved (by rwa [← hstatus]) hresolution (by rw [hlastStatus, hsame])
        (by rw [hlastOpenings, hcount, hopenings]) (by rw [hlastResolutions, hlist, hresolutions])

/-! ## Decisions -/

/-- The user may see the dashboard through an unrevoked grant or owns it. -/
def Db.HoldsAccess (db : Db) (dashboardId userId : Uuid) : Prop :=
  (∃ grant ∈ db.grants, grant.isActiveFor dashboardId userId = true) ∨
    ∃ dashboard ∈ db.dashboards.get? dashboardId, dashboard.ownerId = userId

/-- What a decision on the request leaves behind. -/
structure Decides (requestId : ℕ) (before after : Db) : Prop where
  approved : before.requestStatus requestId = some .pending →
    ∀ row ∈ after.accessRequests.get? requestId, row.status = .approved →
      after.HoldsAccess row.dashboardId row.requesterId
  refused : before.requestStatus requestId = some .pending →
    after.requestStatus requestId = some .denied ∨
      after.requestStatus requestId = some .cancelled → after.grants = before.grants

theorem Decides.of_undecided
    (hundecided : before.requestStatus requestId = some .pending →
      after.requestStatus requestId = some .pending) : Decides requestId before after where
  approved := by
    intro hpending row hrow hstatus
    have hafter := hundecided hpending
    unfold Db.requestStatus at hafter
    rw [Option.mem_def.mp hrow, Option.map_some, hstatus] at hafter
    contradiction
  refused := by
    intro hpending hstatus
    rw [hundecided hpending] at hstatus
    simp at hstatus

theorem RequestsKept.decides (hkept : RequestsKept before after) (requestId : ℕ) :
    Decides requestId before after :=
  .of_undecided fun hpending => (hkept.requestStatus requestId).trans hpending

theorem RequestOpened.decides {row : AccessRequest} {first : Db}
    (hkept : RequestsKept first before) (hopened : RequestOpened row before after)
    (requestId : ℕ) : Decides requestId first after := by
  refine .of_undecided ?_
  intro hpending
  rw [requestStatus_of_rows hopened.rows, hkept.requestStatus, hopened.pending, hpending]
  simp

theorem resolveRequest_runs {context : CallContext} {resolvedAt : Time} {actor : User}
    {dashboard : Dashboard} {request resolved : AccessRequest}
    {status : AccessRequestStatus} {done : Db}
    (hrequest : request ∈ before.accessRequests) (hscope : request.dashboardId = dashboard.id)
    (hpending : request.status = .pending) (hstatus : status ≠ .pending)
    (hruns : (resolveRequest context resolvedAt actor dashboard request status).Runs before
      resolved done) :
    RequestResolved resolved before done ∧ resolved.id = request.id ∧
      resolved.dashboardId = request.dashboardId ∧
        resolved.requesterId = request.requesterId ∧ resolved.status = status ∧
          done.grants = before.grants := by
  simp only [resolveRequest, runs_bind, runs_pure] at hruns
  rcases hruns with ⟨saved, middle, hsave, _, _, haudit, rfl, rfl⟩
  rcases AccessRequest.save_runs hsave with ⟨rfl, rfl, original, horiginal, _, _, _⟩
  have hself : before.accessRequests.get? request.id = some request := Table.get?_of_mem hrequest
  rcases recordAudit_runs haudit with
    ⟨event, audits, htype, hdashboard, htarget, hmetadata, haudits, rfl⟩
  refine ⟨?_, rfl, rfl, rfl, rfl, rfl⟩
  exact {
    rows := get?_replace_stored hself
    pending := ⟨request, hself, hpending⟩
    resolved := hstatus
    event := ⟨event, audits, ⟨htype, by rw [hdashboard, ← hscope], htarget, hmetadata⟩, haudits,
      rfl⟩ }

/-- After an approval the requester holds an unrevoked grant. -/
theorem approveGrant_runs {context : CallContext} {actor : User} {dashboard : Dashboard}
    {request : AccessRequest} {done : PUnit}
    (hruns : (approveGrant context actor dashboard request).Runs before done after) :
    ∃ grant ∈ after.grants, grant.isActiveFor dashboard.id request.requesterId = true := by
  simp only [approveGrant, runs_bind, runs_get, runs_check, runs_getOneOrNone, runs_ite,
    runs_pure, and_assoc, exists_and_left, exists_eq_left', exists_const] at hruns
  rcases hruns with ⟨_, _, _, existing, hexisting, hrest⟩
  rcases hrest with ⟨_, grant, middle, hinsert, haudit⟩ | ⟨hsome, _, rfl⟩
  · simp only [ViewerGrant.insert, ViewerGrant.checkConstraints, runs_bind, runs_get,
      runs_found, runs_check, runs_set, runs_pure, and_assoc, exists_and_left,
      exists_eq_left', exists_const] at hinsert
    rcases hinsert with ⟨_, _, _, _, _, _, _, _, grants, hgrants, rfl, rfl⟩
    rcases recordAudit_runs haudit with ⟨_, _, _, _, _, _, _, rfl⟩
    exact ⟨_, (Table.mem_of_create hgrants).mpr (.inl rfl), by
      simp [newGrant, ViewerGrant.isActiveFor]⟩
  · cases existing with
    | none => exact absurd rfl hsome
    | some grant =>
        have hgrant : grant ∈ before.activeGrants dashboard.id request.requesterId := by
          rw [hexisting]
          simp
        exact ⟨grant, Table.mem_where?_iff.mp hgrant⟩

theorem resolveDashboardAccessRequest_decides {context : CallContext} {dashboardId : Uuid}
    {decidedId : ℕ} {actorId : Uuid} {resolution : String} {resolvedAt : Time}
    {resolved : AccessRequest}
    (hruns : (resolveDashboardAccessRequest context dashboardId decidedId actorId resolution
      resolvedAt).Runs before resolved after) (requestId : ℕ) :
    RequestStep requestId before after ∧ Decides requestId before after := by
  simp only [resolveDashboardAccessRequest, runs_bind, runs_get, runs_found, runs_check,
    runs_ite, runs_pure, and_assoc, exists_and_left, exists_eq_left', exists_const,
    Option.filter_eq_some_iff, decide_eq_true_eq] at hruns
  rcases hruns with ⟨status, _, hstatus, dashboard, hdashboard, request, hrequest, hscope, actor,
    _, _, hrest⟩
  have hid : dashboard.id = dashboardId := Table.key_of_get? hdashboard
  have hscope : request.dashboardId = dashboard.id := hscope.trans hid.symm
  have hstored := Table.mem_of_get? hrequest
  rcases hrest with ⟨_, _, _, rfl⟩ | ⟨hpending, hrest⟩
  · exact ⟨(RequestsKept.refl _).step requestId, (RequestsKept.refl _).decides requestId⟩
  rw [not_not] at hpending
  rcases hrest with ⟨happroved, _, middle, hgrant, hresolve⟩ | ⟨hrefused, hresolve⟩
  · have hgranted : Changes ∅ before middle := approveGrant_changes hgrant
    have hkept := hgranted.requestsKept (by simp) (by simp)
    rw [← hkept.rows] at hstored
    rcases resolveRequest_runs hstored hscope hpending hstatus hresolve with
      ⟨hresolved, hrow, hdash, hrequester, hrowStatus, hgrants⟩
    refine ⟨.between hkept (hresolved.step requestId) (.refl after), ?_⟩
    constructor
    · intro hbefore row hget hrowApproved
      rw [Option.mem_def, hresolved.rows] at hget
      by_cases hsame : resolved.id = requestId
      · rw [if_pos hsame] at hget
        cases hget
        rcases approveGrant_runs hgrant with ⟨grant, hactive⟩
        rw [hdash, hrequester, hscope]
        exact .inl ⟨grant, by rwa [hgrants]⟩
      · rw [if_neg hsame] at hget
        have hmiddle : middle.requestStatus requestId = some row.status := by
          unfold Db.requestStatus
          rw [hget]
          rfl
        rw [hkept.requestStatus, hbefore] at hmiddle
        rw [← Option.some.inj hmiddle] at hrowApproved
        contradiction
    · intro hbefore hrowRefused
      rw [requestStatus_of_rows hresolved.rows, hkept.requestStatus, hbefore] at hrowRefused
      rw [hrowStatus, happroved] at hrowRefused
      split at hrowRefused <;> simp at hrowRefused
  · rcases resolveRequest_runs hstored hscope hpending hstatus hresolve with
      ⟨hresolved, hrow, hdash, hrequester, hrowStatus, hgrants⟩
    refine ⟨hresolved.step requestId, ?_, fun _ _ => hgrants⟩
    intro hbefore row hget hrowApproved
    have hafter : after.requestStatus requestId = some row.status := by
      unfold Db.requestStatus
      rw [Option.mem_def.mp hget]
      rfl
    rw [requestStatus_of_rows hresolved.rows, hrowStatus, hbefore, hrowApproved] at hafter
    split at hafter
    · exact absurd (Option.some.inj hafter) hrefused
    · simp at hafter

theorem closeIncomingRequest_runs {context : CallContext} {transferredAt : Time}
    {actor : User} {dashboard : Dashboard} {incomingOwnerId : Uuid} {done : PUnit}
    (hruns : (closeIncomingRequest context transferredAt actor dashboard
      incomingOwnerId).Runs before done after) :
    after = before ∨ ∃ row, RequestResolved row before after ∧
      row.dashboardId = dashboard.id ∧ row.requesterId = incomingOwnerId ∧
        row.status = .approved := by
  simp only [closeIncomingRequest, runs_bind, runs_get, runs_getOneOrNone, and_assoc,
    exists_and_left, exists_eq_left'] at hruns
  rcases hruns with ⟨found, hfound, hrest⟩
  cases found with
  | none =>
      simp only [runs_pure] at hrest
      exact .inl hrest.2.symm
  | some request =>
      simp only [runs_bind, runs_pure] at hrest
      rcases hrest with ⟨resolved, middle, hresolve, _, rfl⟩
      have hrequest : request ∈ before.accessRequests.where? fun request =>
          request.dashboardId = dashboard.id ∧ request.requesterId = incomingOwnerId ∧
            request.status = .pending := by
        rw [hfound]
        simp
      simp only [Table.mem_where?_iff, decide_eq_true_eq] at hrequest
      rcases resolveRequest_runs hrequest.1 hrequest.2.1 hrequest.2.2.2 (by decide) hresolve with
        ⟨hresolved, _, hdash, hrequester, hstatus, _⟩
      exact .inr ⟨resolved, hresolved, hdash.trans hrequest.2.1,
        hrequester.trans hrequest.2.2.1, hstatus⟩

/-- After the change of owner the dashboard belongs to the user that the marker names. -/
theorem changeOwner_owner {clock : Time} {dashboard : Dashboard}
    {marker : DashboardOwnershipTransfer} {done : PUnit}
    (hchange : (dashboard.changeOwner clock marker).Runs before done after) :
    ∃ row ∈ after.dashboards.get? dashboard.id, row.ownerId = marker.toOwnerId := by
  simp only [Dashboard.changeOwner, runs_bind, runs_get, runs_found, runs_check, runs_set,
    and_assoc, exists_and_left, exists_eq_left', exists_const] at hchange
  rcases hchange with ⟨stored, hstored, _, _, _, _, _, _, _, _, _, _, _, _, _, _, rfl⟩
  have hid : stored.id = dashboard.id := Table.key_of_get? hstored
  rw [← hid] at hstored ⊢
  have hwritten : before.dashboards.get? (Keyed.key { stored with
      ownerId := marker.toOwnerId
      lastOwnershipTransferId := some marker.id
      updatedAt := clock }) = some stored := hstored
  exact ⟨_, Table.get?_replace_self hwritten, rfl⟩

theorem transferDashboardOwnership_decides {context : CallContext}
    {dashboardId actorId incomingOwnerId : Uuid}
    {expectedTransferId : Option (Option Uuid)} {transferredAt : Time}
    {transferred : Dashboard}
    (hruns : (transferDashboardOwnership context dashboardId actorId incomingOwnerId
      expectedTransferId transferredAt).Runs before transferred after) (requestId : ℕ) :
    RequestStep requestId before after ∧ Decides requestId before after := by
  simp only [transferDashboardOwnership, runs_bind, runs_get, runs_found, runs_check,
    and_assoc, exists_and_left, exists_eq_left', exists_const] at hruns
  rcases hruns with ⟨dashboard, _, _, actor, _, incoming, _, _, _, _, closed, hgrant, _,
    resolved, hrequest, marker, marked, hinsert, _, changed, hchange, _, audited, haudit, _, rfl⟩
  have hclosed : Changes ∅ before closed := closeIncomingGrant_changes hgrant
  have hmoved : Change {.transfers} resolved changed := changeOwner_change rfl hinsert hchange
  have haudited : Change {.transfers} changed audited := recordAudit_change haudit rfl
  have hbefore := hclosed.requestsKept (by simp) (by simp)
  have hafter := (Relation.ReflTransGen.single hmoved).tail haudited
  have hafter := Changes.requestsKept hafter (by simp) (by simp)
  rcases closeIncomingRequest_runs hrequest with rfl | ⟨row, hresolved, hdash, hrequester,
    hstatus⟩
  · have hkept := hbefore.trans hafter
    exact ⟨hkept.step requestId, hkept.decides requestId⟩
  refine ⟨.between hbefore (hresolved.step requestId) hafter, ?_⟩
  have hrows : audited.requestStatus requestId =
      if row.id = requestId then some row.status else before.requestStatus requestId := by
    rw [hafter.requestStatus, requestStatus_of_rows hresolved.rows, hbefore.requestStatus]
  constructor
  · intro hpending other hother hotherStatus
    rw [Option.mem_def, hafter.rows, hresolved.rows] at hother
    by_cases hsame : row.id = requestId
    · rw [if_pos hsame] at hother
      cases hother
      right
      rcases changeOwner_owner hchange with ⟨owned, howned, howner⟩
      rcases recordAudit_runs haudit with ⟨_, _, _, _, _, _, _, rfl⟩
      have htarget : marker.toOwnerId = incoming.id := by
        simp only [DashboardOwnershipTransfer.insert, runs_bind, runs_get, runs_found,
          runs_check, runs_set, runs_pure, and_assoc, exists_and_left, exists_eq_left',
          exists_const] at hinsert
        rcases hinsert with ⟨_, _, _, _, _, _, _, _, _, _, _, rfl, _⟩
        rfl
      rw [hdash, hrequester]
      exact ⟨owned, howned, howner.trans htarget⟩
    · rw [if_neg hsame] at hother hrows
      have hstill : audited.requestStatus requestId = some other.status := by
        unfold Db.requestStatus
        rw [hafter.rows, hresolved.rows, if_neg hsame, hother]
        rfl
      rw [hrows, hpending, hotherStatus] at hstill
      simp at hstill
  · intro hpending hrefused
    rw [hrows, hpending, hstatus] at hrefused
    split at hrefused <;> simp at hrefused

/-! ## Runs -/

theorem ServiceCall.decides (call : ServiceCall) (db : Db) (requestId : ℕ) :
    RequestStep requestId db ((call.body platform).settle db) ∧
      Decides requestId db ((call.body platform).settle db) := by
  rcases settle_cases (call.body platform) db with hfailed | ⟨result, hbody⟩
  · rw [hfailed]
    exact ⟨(RequestsKept.refl db).step requestId, (RequestsKept.refl db).decides requestId⟩
  generalize (call.body platform).settle db = after at hbody
  have hstart : RequestsKept db (call.start db) := ⟨rfl, fun _ => rfl, fun _ => rfl⟩
  have hquiet : .requests ∉ call.operation.effects → .resolutions ∉ call.operation.effects →
      RequestStep requestId db after ∧ Decides requestId db after := by
    intro hrequests hresolutions
    have hkept := (call.body_changes (le_refl _) hbody).requestsKept hrequests hresolutions
    exact ⟨hkept.step requestId, hkept.decides requestId⟩
  rcases call with ⟨context, operation⟩
  have hruns := ServiceCall.runs_body.mp hbody
  cases operation with
  | requestDashboardAccess =>
      rcases requestDashboardAccess_change hruns with hsame | ⟨opened, htaken, hopened⟩
      · rw [hsame]
        exact ⟨hstart.step requestId, hstart.decides requestId⟩
      · have htaken : Changes ∅ _ opened := htaken ∅
        have hkept := hstart.trans (htaken.requestsKept (by simp) (by simp))
        rcases (hopened {.requests} rfl).requestCases with hsame | ⟨_, row, hrow⟩ | ⟨hno, _⟩
        · have hsame := hkept.trans hsame
          exact ⟨hsame.step requestId, hsame.decides requestId⟩
        · exact ⟨.between hkept (hrow.step requestId) (.refl after), hrow.decides hkept requestId⟩
        · simp at hno
  | resolveDashboardAccessRequest =>
      rcases resolveDashboardAccessRequest_decides hruns requestId with ⟨hstep, hdecides⟩
      exact ⟨.between hstart hstep (.refl after), hdecides.approved, hdecides.refused⟩
  | transferDashboardOwnership =>
      rcases transferDashboardOwnership_decides hruns requestId with ⟨hstep, hdecides⟩
      exact ⟨.between hstart hstep (.refl after), hdecides.approved, hdecides.refused⟩
  | _ => exact hquiet (by simp [Operation.effects]) (by simp [Operation.effects])

/-- The openings of a request and its recorded resolutions alternate; its status is the
last recorded one. -/
structure Db.Accounted (db : Db) (requestId : ℕ) : Prop where
  absent : db.requestStatus requestId = none →
    db.openings requestId = 0 ∧ db.resolutions requestId = []
  pending : db.requestStatus requestId = some .pending →
    db.openings requestId = (db.resolutions requestId).length + 1
  resolved : ∀ status ≠ .pending, db.requestStatus requestId = some status →
    db.openings requestId = (db.resolutions requestId).length ∧
      (db.resolutions requestId).head? = some status

/-- What may have happened to a request that was not reopened. -/
def SameEpisode (requestId : ℕ) (first last : Db) : Prop :=
  (last.requestStatus requestId = first.requestStatus requestId ∧
      last.resolutions requestId = first.resolutions requestId) ∨
    (first.requestStatus requestId = some .pending ∧ ∃ status ≠ .pending,
      last.requestStatus requestId = some status ∧
        last.resolutions requestId = status :: first.resolutions requestId)

theorem Db.Accounted.closed (hgood : before.Accounted requestId)
    (hclosed : before.requestStatus requestId ≠ some .pending) :
    before.openings requestId = (before.resolutions requestId).length := by
  cases hstatus : before.requestStatus requestId with
  | none =>
      rcases hgood.absent hstatus with ⟨hopenings, hresolutions⟩
      rw [hopenings, hresolutions]
      rfl
  | some status =>
      have hresolved : status ≠ .pending := fun hpending => hclosed (hpending ▸ hstatus)
      exact (hgood.resolved status hresolved hstatus).1

theorem Db.Accounted.step (hgood : before.Accounted requestId)
    (hstep : RequestStep requestId before after) : after.Accounted requestId := by
  cases hstep with
  | kept hstatus hopenings hresolutions =>
      constructor
      · rw [hstatus, hopenings, hresolutions]
        exact hgood.absent
      · rw [hstatus, hopenings, hresolutions]
        exact hgood.pending
      · rw [hstatus, hopenings, hresolutions]
        exact hgood.resolved
  | opened hclosed hstatus hopenings hresolutions =>
      constructor
      · intro habsent
        rw [hstatus] at habsent
        contradiction
      · intro _
        rw [hopenings, hresolutions, hgood.closed hclosed]
      · intro status hresolved hafter
        rw [hstatus] at hafter
        exact absurd (Option.some.inj hafter).symm hresolved
  | resolved hpending hresolution hstatus hopenings hresolutions =>
      constructor
      · intro habsent
        rw [hstatus] at habsent
        contradiction
      · intro hafter
        rw [hstatus] at hafter
        exact absurd (Option.some.inj hafter) hresolution
      · intro status _ hafter
        rw [hstatus] at hafter
        rw [hopenings, hresolutions, ← Option.some.inj hafter]
        exact ⟨hgood.pending hpending, rfl⟩

theorem accounted_of_reachable {db : Db} (hreach : (serviceSystem platform).Reachable db)
    (requestId : ℕ) : db.Accounted requestId := by
  refine hreach.invariant (motive := fun db => db.Accounted requestId) ?_ ?_
  · intro start hstart
    have hstart : start = Db.empty := hstart
    rw [hstart]
    have hnone : Db.empty.requestStatus requestId = none := rfl
    constructor
    · intro _
      exact ⟨rfl, rfl⟩
    · intro hpending
      rw [hnone] at hpending
      contradiction
    · intro status _ hstored
      rw [hnone] at hstored
      contradiction
  · intro before call after hbefore hstep
    have hafter : after = (call.body platform).settle before := hstep
    rw [hafter]
    exact hbefore.step (call.decides before requestId).1

theorem SameEpisode.after_step {first middle last : Db}
    (hrest : middle.openings requestId ≤ last.openings requestId ∧
      (last.openings requestId = middle.openings requestId → SameEpisode requestId middle last))
    (hstep : RequestStep requestId first middle) :
    first.openings requestId ≤ last.openings requestId ∧
      (last.openings requestId = first.openings requestId →
        SameEpisode requestId first last) := by
  rcases hrest with ⟨hle, hepisode⟩
  cases hstep with
  | kept hstatus hopenings hresolutions =>
      rw [hopenings] at hle hepisode
      refine ⟨hle, fun hsame => ?_⟩
      unfold SameEpisode at hepisode ⊢
      rw [← hstatus, ← hresolutions]
      exact hepisode hsame
  | opened hclosed hstatus hopenings hresolutions =>
      rw [hopenings] at hle
      refine ⟨by omega, fun hsame => by omega⟩
  | @resolved status hpending hresolution hstatus hopenings hresolutions =>
      rw [hopenings] at hle hepisode
      refine ⟨hle, fun hsame => ?_⟩
      rcases hepisode hsame with ⟨hlastStatus, hlastResolutions⟩ | ⟨hstill, _⟩
      · exact .inr ⟨hpending, status, hresolution, hlastStatus.trans hstatus,
          hlastResolutions.trans hresolutions⟩
      · rw [hstatus] at hstill
        exact absurd (Option.some.inj hstill) hresolution

theorem sameEpisode_of_path {first last : Db} {calls : List ServiceCall}
    (hpath : (serviceSystem platform).Path first calls last) (requestId : ℕ) :
    first.openings requestId ≤ last.openings requestId ∧
      (last.openings requestId = first.openings requestId →
        SameEpisode requestId first last) := by
  induction hpath with
  | refl => exact ⟨le_refl _, fun _ => .inl ⟨rfl, rfl⟩⟩
  | @cons first middle last call rest hstep _ ih =>
      have hmiddle : middle = (call.body platform).settle first := hstep
      rw [hmiddle] at ih
      exact SameEpisode.after_step ih (call.decides first requestId).1

/-- Every opening of a request is followed by at most one resolution, which its one event
records; the next change of the request is a new opening.  An approval leaves the
requester with access, and a refusal leaves the grants as they were. -/
theorem access_requests_resolved_once {db : Db} (hreach : (serviceSystem platform).Reachable db)
    (requestId : ℕ) :
    db.Accounted requestId ∧
      (∀ call after, (serviceSystem platform).step db call after →
        RequestStep requestId db after ∧ Decides requestId db after) ∧
        ∀ {calls : List ServiceCall} {later : Db},
          (serviceSystem platform).Path db calls later →
            db.openings requestId ≤ later.openings requestId ∧
              (later.openings requestId = db.openings requestId →
                SameEpisode requestId db later) := by
  refine ⟨accounted_of_reachable hreach requestId, ?_, ?_⟩
  · intro call after hstep
    have hafter : after = (call.body platform).settle db := hstep
    rw [hafter]
    exact call.decides db requestId
  · intro calls later hpath
    exact sameEpisode_of_path hpath requestId

/-- The second user has asked for access to the published dashboard. -/
def requestedCalls : List ServiceCall :=
  revisionCalls ++
    [⟨contextAt 6 7, .publishDashboardRevision 3 1 5 [] none none 6⟩,
      ⟨contextAt 7 7, .requestDashboardAccess 3 2 []⟩]

/-- The owner denies the request and then tries to approve it. -/
def oppositeCalls : List ServiceCall :=
  [⟨contextAt 8 7, .resolveDashboardAccessRequest 3 6 1 "denied" 8⟩,
    ⟨contextAt 9 7, .resolveDashboardAccessRequest 3 6 1 "approved" 9⟩]

theorem opposite_decision_changes_nothing :
    (runCalls asciiPlatform requestedCalls).Accounted 6 ∧
      (runFrom asciiPlatform (runCalls asciiPlatform requestedCalls) oppositeCalls).resolutions 6 =
        [.denied] ∧
      SameEpisode 6 (runCalls asciiPlatform requestedCalls)
        (runFrom asciiPlatform (runCalls asciiPlatform requestedCalls) oppositeCalls) := by
  rcases access_requests_resolved_once (@reachable_runCalls asciiPlatform requestedCalls) 6 with
    ⟨haccounted, _, hepisodes⟩
  have hpath := @path_runFrom asciiPlatform oppositeCalls (runCalls asciiPlatform requestedCalls)
  have hsame : (runFrom asciiPlatform (runCalls asciiPlatform requestedCalls)
      oppositeCalls).openings 6 = (runCalls asciiPlatform requestedCalls).openings 6 := by
    decide +kernel
  exact ⟨haccounted, by decide +kernel, (hepisodes hpath).2 hsame⟩

end Agora
