import Agora.DashboardLifecycle
import Agora.WindowedReaders

/-!
# Captures of authorized opens, statement by statement

A capture does not lock the dashboard it counts an open of, so publications and other
captures commit between its statements.  A session holds what its transaction has read,
locked and not yet committed; publication and withdrawal hold the row of the dashboard and
are single steps.  The committed publications and opens are kept in order as a history.
-/

namespace Agora

open Transaction

/-! ## The viewer state of a capture -/

/-- The viewer states of the viewer and the dashboard of an authorization. -/
def Db.marksFor (db : Db) (authorization : RenderAuthorization) : List DashboardViewerState :=
  db.viewerStates.where? fun state =>
    state.userId = authorization.viewerId ∧
      state.dashboardId = authorization.dashboardId

/-- `_advance_viewer_state` after its query. -/
def advanceFrom (authorization : RenderAuthorization) (publicationVersion : ℕ) :
    Option DashboardViewerState → Tx DashboardViewerState
  | none => do
      let id ← takeId
      DashboardViewerState.insert {
        id := id
        userId := authorization.viewerId
        dashboardId := authorization.dashboardId
        lastViewedAt := authorization.createdAt
        seenPublicationVersion := publicationVersion }
  | some state =>
      let advanced := { state with
        lastViewedAt := max state.lastViewedAt authorization.createdAt
        seenPublicationVersion := max state.seenPublicationVersion publicationVersion }
      if advanced = state then
        pure state
      else
        advanced.save

/-- The version that `capture_authorized_open` counts an authorization for. -/
def Db.sourceVersion (db : Db) (authorization : RenderAuthorization) : Option ℕ :=
  (db.loadAuthorization authorization).bind fun loaded =>
    if authorization.authorizedOpenCapturedAt = none ∧
        authorization.canSourceOpen loaded.dashboard loaded.viewer loaded.grant = true then
      authorization.publicationVersion
    else none

/-! ## Sessions -/

/-- How far a capture has come: the authorization is locked or inserted, it may source an
open, the open is inserted, no viewer state was found, one was found and locked. -/
inductive CapturePhase where
  | loaded
  | checked (version : ℕ)
  | opened (openId version : ℕ)
  | missing (openId version : ℕ)
  | locked (openId version : ℕ) (mark : DashboardViewerState)

/-- The capture of one authorization, which an issue has inserted in the same transaction. -/
structure CaptureSession where
  row : RenderAuthorization
  fresh : Bool
  phase : CapturePhase

/-- The database as the session sees it. -/
def CaptureSession.visible (session : CaptureSession) (db : Db) : Option Db :=
  if session.fresh then
    (db.authorizations.create session.row).map fun authorizations =>
      { db with authorizations := authorizations }
  else some db

/-- The database with the open of the session and its marked source. -/
def CaptureSession.recorded (session : CaptureSession) (openId version : ℕ) (db : Db) :
    Option Db := do
  let seen ← session.visible db
  let opens ← seen.opens.create (session.row.openRow openId version)
  some { seen with
    opens := opens
    authorizations := seen.authorizations.replace { session.row with
      authorizedOpenCapturedAt := some session.row.createdAt } }

def CapturePhase.mark : CapturePhase → Option DashboardViewerState
  | .locked _ _ mark => some mark
  | _ => none

/-- The phases in which the open waits for its commit, with the viewer state to advance. -/
def CapturePhase.pending : CapturePhase → Option (ℕ × ℕ × Option DashboardViewerState)
  | .missing openId version => some (openId, version, none)
  | .locked openId version mark => some (openId, version, some mark)
  | _ => none

/-! ## The system -/

/-- The database, the committed publications and opens in order, and the open captures. -/
structure MarkerState where
  db : Db
  publications : List (Uuid × ℕ)
  captures : List AuthorizedOpen
  sessions : ℕ → Option CaptureSession

namespace MarkerState

def enter (state : MarkerState) (id : ℕ) (session : CaptureSession) : MarkerState :=
  { state with sessions := Function.update state.sessions id (some session) }

def leave (state : MarkerState) (id : ℕ) : MarkerState :=
  { state with sessions := Function.update state.sessions id none }

variable {state : MarkerState} {id other : ℕ} {session : CaptureSession}

@[simp] theorem enter_self : (state.enter id session).sessions id = some session :=
  Function.update_self ..

theorem enter_of_ne (hne : other ≠ id) :
    (state.enter id session).sessions other = state.sessions other :=
  Function.update_of_ne hne ..

@[simp] theorem leave_self : (state.leave id).sessions id = none :=
  Function.update_self ..

@[simp] theorem enter_enter {later : CaptureSession} :
    (state.enter id session).enter id later = state.enter id later := by
  simp only [enter, Function.update_idem]

theorem leave_enter {db : Db} {captures : List AuthorizedOpen} :
    leave { state.enter id session with db := db, captures := captures } id =
      leave { state with db := db, captures := captures } id := by
  simp only [enter, leave, Function.update_idem]

theorem leave_of_none (hnone : state.sessions id = none) : state.leave id = state := by
  rw [leave, ← hnone, Function.update_eq_self]

/-- No other session has locked the authorization. -/
def Unclaimed (state : MarkerState) (authorizationId : Uuid) : Prop :=
  ∀ other session, state.sessions other = some session → session.row.id ≠ authorizationId

/-- No other session has locked the viewer state. -/
def Unlocked (state : MarkerState) (id : ℕ) (mark : DashboardViewerState) : Prop :=
  ∀ other session held, state.sessions other = some session →
    session.phase.mark = some held → held.id = mark.id → other = id

end MarkerState

/-- What every transaction leaves that neither publishes nor captures. -/
structure Db.KeepsMarkers (before after : Db) : Prop where
  marks : after.viewerStates = before.viewerStates
  versions : ∀ id dashboard, before.dashboards.get? id = some dashboard →
    ∃ later, after.dashboards.get? id = some later ∧
      later.publicationVersion = dashboard.publicationVersion
  drafts : ∀ dashboard ∈ after.dashboards, before.dashboards.get? dashboard.id = none →
    dashboard.publicationVersion = 0

inductive MarkerEvent where
  | publication
  | withdrawal
  | other
  | session (id : ℕ)

inductive MarkerStep (state : MarkerState) : MarkerEvent → MarkerState → Prop
  | published {platform : Platform} {context : CallContext}
      {dashboardId actorId revisionId : Uuid} {publicationNote : Text}
      {dataAsOf : Option Time} {freshnessInterval : Option ℤ} {publishedAt : Time}
      {dashboard : Dashboard} {after : Db}
      (hruns : (publishDashboardRevision platform context dashboardId actorId revisionId
        publicationNote dataAsOf freshnessInterval publishedAt).Runs state.db dashboard after) :
      MarkerStep state .publication { state with
        db := after
        publications := state.publications ++ [(dashboardId, dashboard.publicationVersion)] }
  | unpublished {context : CallContext} {dashboardId actorId : Uuid} {dashboard : Dashboard}
      {after : Db}
      (hruns : (unpublishDashboard context dashboardId actorId).Runs state.db dashboard after) :
      MarkerStep state .withdrawal { state with db := after }
  | other {after : Db} (hkeeps : state.db.KeepsMarkers after)
      (hlocks : ∀ id session, state.sessions id = some session → session.fresh = false →
        after.authorizations.get? session.row.id =
          state.db.authorizations.get? session.row.id) :
      MarkerStep state .other { state with db := after }
  | issued {id attempt : ℕ} {platform : Platform} {context : CallContext} {token : BearerToken}
      {dashboard : Dashboard} {revisionId : Uuid} {viewer : User}
      {viewerGrant : Option ViewerGrant} {issuedAt : Time} {row : RenderAuthorization}
      (hfree : state.sessions id = none)
      (hrow : row = newAuthorization platform context attempt token dashboard revisionId viewer
        viewerGrant .viewer issuedAt)
      (hunused : state.db.authorizations.get? row.id = none)
      (hclaim : state.Unclaimed row.id) :
      MarkerStep state (.session id) (state.enter id ⟨row, true, .loaded⟩)
  | began {id version : ℕ} {row : RenderAuthorization}
      (hfree : state.sessions id = none)
      (hstored : state.db.authorizations.get? row.id = some row)
      (hclaim : state.Unclaimed row.id)
      (hsource : state.db.sourceVersion row = some version) :
      MarkerStep state (.session id) (state.enter id ⟨row, false, .checked version⟩)
  | checked {id version : ℕ} {row : RenderAuthorization} {fresh : Bool}
      (hsession : state.sessions id = some ⟨row, fresh, .loaded⟩)
      (hsource : state.db.sourceVersion row = some version) :
      MarkerStep state (.session id) (state.enter id ⟨row, fresh, .checked version⟩)
  | opened {id version : ℕ} {row : RenderAuthorization} {fresh : Bool} {seen middle : Db}
      (hsession : state.sessions id = some ⟨row, fresh, .checked version⟩)
      (hvisible : CaptureSession.visible ⟨row, fresh, .checked version⟩ state.db = some seen)
      (hruns : (insertOpen row version).Runs seen true middle) :
      MarkerStep state (.session id) (MarkerState.enter
        { state with db := { state.db with nextId := middle.nextId } } id
        ⟨row, fresh, .opened state.db.nextId version⟩)
  | missed {id openId version : ℕ} {row : RenderAuthorization} {fresh : Bool}
      (hsession : state.sessions id = some ⟨row, fresh, .opened openId version⟩)
      (hnone : state.db.marksFor row = []) :
      MarkerStep state (.session id) (state.enter id ⟨row, fresh, .missing openId version⟩)
  | found {id openId version : ℕ} {row : RenderAuthorization} {fresh : Bool}
      {phase : CapturePhase} {mark : DashboardViewerState}
      (hsession : state.sessions id = some ⟨row, fresh, phase⟩)
      (hphase : phase = .opened openId version ∨ phase = .missing openId version)
      (hmark : state.db.marksFor row = [mark])
      (hlock : state.Unlocked id mark) :
      MarkerStep state (.session id) (state.enter id ⟨row, fresh, .locked openId version mark⟩)
  | committed {id openId version : ℕ} {session : CaptureSession}
      {existing : Option DashboardViewerState} {mark : DashboardViewerState}
      {written after : Db}
      (hsession : state.sessions id = some session)
      (hpending : session.phase.pending = some (openId, version, existing))
      (hrecorded : session.recorded openId version state.db = some written)
      (hruns : (advanceFrom session.row version existing).Runs written mark after) :
      MarkerStep state (.session id) (MarkerState.leave
        { state with
          db := after
          captures := state.captures ++ [session.row.openRow openId version] } id)
  | aborted {id : ℕ} {session : CaptureSession}
      (hsession : state.sessions id = some session) :
      MarkerStep state (.session id) (state.leave id)

/-- Nothing has been published or opened yet. -/
structure MarkerState.Initial (state : MarkerState) : Prop where
  marks : ∀ mark, mark ∉ state.db.viewerStates
  drafts : ∀ dashboard ∈ state.db.dashboards, dashboard.publicationVersion = 0
  publications : state.publications = []
  captures : state.captures = []
  sessions : ∀ id, state.sessions id = none

def markerSystem : TransitionSystem MarkerState MarkerEvent where
  initial := MarkerState.Initial
  step := MarkerStep

/-! ## The services are sessions without interruption -/

theorem advanceViewerState_eq (authorization : RenderAuthorization) (publicationVersion : ℕ) :
    advanceViewerState authorization publicationVersion = (do
      let db ← get
      let existing ← getOneOrNone (db.marksFor authorization)
      advanceFrom authorization publicationVersion existing) := by
  unfold advanceViewerState Db.marksFor
  refine congrArg _ (funext fun db => congrArg _ (funext fun existing => ?_))
  cases existing with
  | none => rfl
  | some state => rfl

theorem CaptureSession.visible_eq {session : CaptureSession} {db seen : Db}
    (hvisible : session.visible db = some seen) (phase : CapturePhase) (nextId : ℕ) :
    (∃ authorizations, seen = { db with authorizations := authorizations }) ∧
      CaptureSession.visible { session with phase := phase } { db with nextId := nextId } =
        some { seen with nextId := nextId } := by
  obtain ⟨row, fresh, current⟩ := session
  cases fresh with
  | false =>
      cases Option.some.inj hvisible
      exact ⟨⟨db.authorizations, rfl⟩, rfl⟩
  | true =>
      obtain ⟨authorizations, hcreate, rfl⟩ := Option.map_eq_some_iff.mp hvisible
      refine ⟨⟨authorizations, rfl⟩, ?_⟩
      exact Option.map_eq_some_iff.mpr ⟨authorizations, hcreate, rfl⟩

section Paths

variable {state : MarkerState} {id openId version : ℕ} {row : RenderAuthorization} {fresh : Bool}
  {seen middle written after : Db} {existing : Option DashboardViewerState}
  {mark : DashboardViewerState}

theorem pending_path
    (hsession : state.sessions id = some ⟨row, fresh, .opened openId version⟩)
    (halone : ∀ other, other ≠ id → state.sessions other = none)
    (hexisting : state.db.marksFor row = existing.toList)
    (hrecorded : ∀ phase, CaptureSession.recorded ⟨row, fresh, phase⟩ openId version state.db =
      some written)
    (hadvance : (advanceFrom row version existing).Runs written mark after) :
    markerSystem.Path state [.session id, .session id]
      (MarkerState.leave { state with
        db := after
        captures := state.captures ++ [row.openRow openId version] } id) := by
  cases existing with
  | none =>
      have hmissed := MarkerStep.missed hsession hexisting
      have hlater : (state.enter id ⟨row, fresh, .missing openId version⟩).sessions id =
          some ⟨row, fresh, .missing openId version⟩ := MarkerState.enter_self
      have hcommitted := MarkerStep.committed hlater rfl (hrecorded _) hadvance
      rw [MarkerState.leave_enter] at hcommitted
      exact .cons hmissed (.single hcommitted)
  | some stored =>
      have hlock : state.Unlocked id stored := by
        intro other session held hother _ _
        by_contra hne
        rw [halone other hne] at hother
        cases hother
      have hfound := MarkerStep.found hsession (.inl rfl) hexisting hlock
      have hlater : (state.enter id ⟨row, fresh, .locked openId version stored⟩).sessions id =
          some ⟨row, fresh, .locked openId version stored⟩ := MarkerState.enter_self
      have hcommitted := MarkerStep.committed hlater rfl (hrecorded _) hadvance
      rw [MarkerState.leave_enter] at hcommitted
      exact .cons hfound (.single hcommitted)

/-- The steps of a session whose authorization is checked, with nothing in between. -/
theorem checked_path
    (hsession : state.sessions id = some ⟨row, fresh, .checked version⟩)
    (halone : ∀ other, other ≠ id → state.sessions other = none)
    (hvisible : CaptureSession.visible ⟨row, fresh, .checked version⟩ state.db = some seen)
    (hstored : seen.authorizations.get? row.id = some row)
    (hinsert : (insertOpen row version).Runs seen true middle)
    (hadvance : (advanceViewerState row version).Runs middle mark after) :
    ∃ captures, markerSystem.Path state [.session id, .session id, .session id]
      (MarkerState.leave { state with db := after, captures := captures } id) := by
  have hopened := MarkerStep.opened hsession hvisible hinsert
  rcases insertOpen_runs hinsert with ⟨hfalse, _⟩ |
    ⟨_, source, opens, hsource, _, _, hcreate, rfl⟩
  · contradiction
  cases Option.some.inj (hstored.symm.trans hsource)
  rw [advanceViewerState_eq] at hadvance
  simp only [runs_bind, runs_get, runs_getOneOrNone, and_assoc, exists_and_left,
    exists_eq_left'] at hadvance
  obtain ⟨existing, hexisting, hadvance⟩ := hadvance
  obtain ⟨⟨authorizations, rfl⟩, _⟩ := CaptureSession.visible_eq hvisible .loaded 0
  have halone' : ∀ other, other ≠ id → (MarkerState.enter
      { state with db := { state.db with nextId := state.db.nextId + 1 } } id
      ⟨row, fresh, .opened state.db.nextId version⟩).sessions other = none := by
    intro other hne
    rw [MarkerState.enter_of_ne hne]
    exact halone other hne
  have hpath := pending_path MarkerState.enter_self halone' hexisting ?_ hadvance
  · rw [MarkerState.leave_enter] at hpath
    exact ⟨state.captures ++ [row.openRow state.db.nextId version], .cons hopened hpath⟩
  · intro phase
    have hlater := (CaptureSession.visible_eq hvisible phase (state.db.nextId + 1)).2
    simp only [CaptureSession.recorded]
    refine Option.bind_eq_some_iff.mpr ⟨_, hlater, ?_⟩
    exact Option.bind_eq_some_iff.mpr ⟨opens, hcreate, rfl⟩

end Paths

/-- What `capture_authorized_open` has checked when it captures. -/
theorem captureAuthorizedOpen_sources {authorizationId : Uuid} {before after : Db}
    (hruns : (captureAuthorizedOpen authorizationId).Runs before true after) :
    ∃ row version middle mark, row.id = authorizationId ∧
      before.authorizations.get? row.id = some row ∧
        before.sourceVersion row = some version ∧
          (insertOpen row version).Runs before true middle ∧
            (advanceViewerState row version).Runs middle mark after := by
  rcases captureAuthorizedOpen_cases hruns with ⟨hfalse, _⟩ |
    ⟨_, row, version, middle, mark, hid, hstored, hversion, hinsert, hadvance⟩
  · contradiction
  refine ⟨row, version, middle, mark, hid, hstored, ?_, hinsert, hadvance⟩
  simp only [captureAuthorizedOpen, runs_bind, runs_get, runs_found, runs_check, runs_ite,
    runs_pure, and_assoc, exists_and_left, exists_eq_left', exists_const] at hruns
  rcases hruns with ⟨loaded, hloaded, ⟨_, hfalse, _⟩ | ⟨huncaptured, hsource, _⟩⟩
  · cases hfalse
  obtain ⟨stored, hstored', hload⟩ := Option.bind_eq_some_iff.mp hloaded
  rw [← hid] at hstored'
  cases Option.some.inj (hstored.symm.trans hstored')
  have hsame : loaded.authorization = row := by
    unfold Db.loadAuthorization at hload
    split at hload
    · exact (congrArg LoadedAuthorization.authorization (Option.some.inj hload)).symm
    · contradiction
  rw [hsame, not_not] at huncaptured
  rw [hsame] at hsource
  rw [Db.sourceVersion, hload, Option.bind_some, if_pos ⟨huncaptured, hsource⟩, hversion]

theorem MarkerState.enter_alone {state : MarkerState}
    (hidle : ∀ other, state.sessions other = none) (id : ℕ) (session : CaptureSession) :
    ∀ other, other ≠ id → (state.enter id session).sessions other = none := by
  intro other hne
  rw [MarkerState.enter_of_ne hne, hidle other]

theorem leave_of_idle {state : MarkerState} (hidle : ∀ other, state.sessions other = none)
    {id : ℕ} {db : Db} {captures : List AuthorizedOpen} :
    MarkerState.leave { state with db := db, captures := captures } id =
      { state with db := db, captures := captures } :=
  MarkerState.leave_of_none (hidle id)

theorem MarkerState.unclaimed_of_idle {state : MarkerState}
    (hidle : ∀ other, state.sessions other = none) (authorizationId : Uuid) :
    state.Unclaimed authorizationId := by
  intro other session hother
  rw [hidle other] at hother
  cases hother

/-- A capture of the service is a session of four steps. -/
theorem captureAuthorizedOpen_path {state : MarkerState} {authorizationId : Uuid} {after : Db}
    (hidle : ∀ other, state.sessions other = none) (id : ℕ)
    (hruns : (captureAuthorizedOpen authorizationId).Runs state.db true after) :
    ∃ captures, markerSystem.Path state
      [.session id, .session id, .session id, .session id]
      { state with db := after, captures := captures } := by
  obtain ⟨row, version, middle, mark, _, hstored, hsource, hinsert, hadvance⟩ :=
    captureAuthorizedOpen_sources hruns
  have hbegan := MarkerStep.began (hidle id) hstored (state.unclaimed_of_idle hidle row.id) hsource
  have hvisible : CaptureSession.visible ⟨row, false, .checked version⟩
      (state.enter id ⟨row, false, .checked version⟩).db = some state.db := rfl
  obtain ⟨captures, hpath⟩ := checked_path MarkerState.enter_self
    (MarkerState.enter_alone hidle id _) hvisible hstored hinsert hadvance
  rw [MarkerState.leave_enter, leave_of_idle hidle] at hpath
  exact ⟨captures, .cons hbegan hpath⟩

/-- An issue of the service is a session of five steps. -/
theorem issuePublishedView_path {state : MarkerState} {platform : Platform}
    {context : CallContext} {token : ℕ → BearerToken} {dashboardId viewerId : Uuid}
    {issuedAt : Time} {credential : RenderCredential} {after : Db}
    (hidle : ∀ other, state.sessions other = none) (id : ℕ)
    (hruns : (issuePublishedView platform context token dashboardId viewerId issuedAt).Runs
      state.db credential after) :
    ∃ captures, markerSystem.Path state
      [.session id, .session id, .session id, .session id, .session id]
      { state with db := after, captures := captures } := by
  simp only [issuePublishedView, runs_bind, runs_get, runs_found, runs_check, runs_pure,
    and_assoc, exists_and_left, exists_eq_left', exists_const,
    Option.filter_eq_some_iff] at hruns
  obtain ⟨dashboard, hdashboard, _, revisionId, _, viewer, _, _, created, middle, hcreate, _, _,
    hcapture, _, rfl⟩ := hruns
  have hself : state.db.dashboards.get? dashboard.id = some dashboard :=
    Table.get?_of_mem (Table.mem_of_get? hdashboard)
  obtain ⟨attempted, _, hrow, _, authorizations, hinserted, rfl⟩ :=
    createAuthorization_runs hself hcreate
  obtain ⟨row, version, opened, mark, hid, hstored, hsource, hinsert, hadvance⟩ :=
    captureAuthorizedOpen_sources (captureIssued_runs hcapture)
  have hcreated : authorizations.get? row.id = some created.2 := by
    rw [Table.get?_of_create hinserted]
    exact if_pos hid.symm
  cases Option.some.inj (hcreated.symm.trans hstored)
  have hunused : state.db.authorizations.get? created.2.id = none :=
    Table.get?_eq_none_iff.mpr (Table.fresh_of_create hinserted)
  have hissued := MarkerStep.issued (hidle id) hrow hunused
    (state.unclaimed_of_idle hidle created.2.id)
  have hloaded : (state.enter id ⟨created.2, true, .loaded⟩).sessions id =
      some ⟨created.2, true, .loaded⟩ := MarkerState.enter_self
  have hchecked := MarkerStep.checked hloaded hsource
  have hvisible : CaptureSession.visible ⟨created.2, true, .checked version⟩ state.db =
      some { state.db with authorizations := authorizations } :=
    Option.map_eq_some_iff.mpr ⟨authorizations, hinserted, rfl⟩
  obtain ⟨captures, hpath⟩ := checked_path MarkerState.enter_self
    (MarkerState.enter_alone hidle id _) hvisible hstored hinsert hadvance
  rw [MarkerState.leave_enter, leave_of_idle hidle] at hpath
  rw [MarkerState.enter_enter] at hchecked
  exact ⟨captures, .cons hissued (.cons hchecked hpath)⟩

end Agora
