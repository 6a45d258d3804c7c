import Agora.ServiceChanges
import Agora.AnalyticsRollups

/-!
# The render and analytics services as changes

Issue inserts one authorization under one of the attempted tokens; capture inserts
one open, marks its source and advances the viewer state; aggregation and purge
touch the analytics tables only.
-/

namespace Agora

open Transaction

variable {effects : Set Effect}

/-! ## Authorizations -/

theorem RenderAuthorization.insert_runs {row inserted : RenderAuthorization}
    {before after : Db} (hruns : row.insert.Runs before inserted after)
    (hversion : ∀ dashboard, before.dashboards.get? row.dashboardId = some dashboard →
      ∀ version ∈ row.publicationVersion, version = dashboard.publicationVersion)
    (huncaptured : row.authorizedOpenCapturedAt = none) :
    inserted = row ∧ row.Issued before ∧ ∃ authorizations,
      before.authorizations.create row = some authorizations ∧
        after = { before with authorizations := authorizations } := by
  simp only [RenderAuthorization.insert, RenderAuthorization.cleanScope,
    RenderAuthorization.cleanNew, runs_bind, runs_get, runs_found, runs_check, runs_set,
    runs_pure, and_assoc, exists_and_left, exists_eq_left', exists_const] at hruns
  rcases hruns with ⟨_, _, _, _, ⟨revision, hrevision, hbelongs, hepoch, _, _, hscope, hviewers,
    rfl⟩, _, ⟨dashboard, hdashboard, viewer, hviewer, _, _, _, hauth, rfl⟩, _, _, hdigest,
    authorizations, hcreate, rfl, rfl⟩
  refine ⟨rfl, ?_, authorizations, hcreate, rfl⟩
  exact {
    dashboard := ⟨dashboard, hdashboard, hversion dashboard hdashboard⟩
    viewer := ⟨viewer, hviewer, hauth⟩
    revision := ⟨revision, hrevision, hbelongs⟩
    epoch := fun epochId hid => ⟨_, (hepoch epochId hid).choose_spec.1⟩
    grant := by
      intro grantId hid
      rcases hscope grantId hid with ⟨grant, hgrant, hdash⟩
      rcases hviewers grantId hid with ⟨other, hother, hview⟩
      cases Option.some.inj (hgrant.symm.trans hother)
      exact ⟨grant, hgrant, hdash, hview⟩
    digest := by
      intro other hother hsame
      exact Table.any_eq_false_iff.mp hdigest other hother (by simp [hsame])
    uncaptured := huncaptured }

theorem RenderAuthorization.save_change {row saved original : RenderAuthorization}
    {before after : Db} (hruns : row.save.Runs before saved after)
    (horiginal : before.authorizations.get? row.id = some original)
    (hcaptured : row.authorizedOpenCapturedAt = original.authorizedOpenCapturedAt) :
    Change effects before after := by
  simp only [RenderAuthorization.save, RenderAuthorization.cleanScope, runs_bind, runs_get,
    runs_found, runs_check, runs_set, runs_pure, and_assoc, exists_and_left,
    exists_eq_left', exists_const] at hruns
  rcases hruns with ⟨stored, hstored, hscope, hrevoked, _, _, _, _, _,
    ⟨_, _, _, _, _, _, _, _, rfl⟩, _, rfl⟩
  cases Option.some.inj (horiginal.symm.trans hstored)
  refine .authorizationRevoked horiginal hscope ?_ hcaptured
  intro hbefore
  rw [hrevoked hbefore]
  exact hbefore

/-! ## Capture -/

theorem AuthorizedOpen.insert_runs {row inserted : AuthorizedOpen} {before after : Db}
    (hruns : row.insert.Runs before inserted after) :
    ∃ source opens, before.authorizations.get? row.sourceAuthorizationId = some source ∧
      row.CapturedFrom source ∧
      (∀ other ∈ before.opens, other.sourceAuthorizationId ≠ row.sourceAuthorizationId) ∧
        before.opens.create row = some opens ∧
          after = { before with
            opens := opens
            authorizations := before.authorizations.replace { source with
              authorizedOpenCapturedAt := some row.openedAt } } := by
  simp only [AuthorizedOpen.insert, AuthorizedOpen.clean, runs_bind, runs_get, runs_found,
    runs_check, runs_raiseAny, runs_set, runs_pure, and_assoc, exists_and_left,
    exists_eq_left', exists_const] at hruns
  rcases hruns with ⟨source, hsource, haudience, hdashboard, hviewer, _, _, hopened, _, _,
    hunique, opens, hcreate, huncaptured, _, rfl⟩
  refine ⟨source, opens, hsource, ⟨haudience, huncaptured, hdashboard, hviewer, hopened⟩, ?_,
    hcreate, rfl⟩
  intro other hother hsame
  exact Table.any_eq_false_iff.mp hunique other hother (by simp [hsame])

/-- The row that a capture inserts under an identity value. -/
def RenderAuthorization.openRow (authorization : RenderAuthorization) (id version : ℕ) :
    AuthorizedOpen where
  id := id
  sourceAuthorizationId := authorization.id
  dashboardId := authorization.dashboardId
  viewerId := authorization.viewerId
  revisionId := authorization.revisionId
  publicationVersion := version
  openedAt := authorization.createdAt
  aggregatedAt := none

theorem insertOpen_runs {authorization : RenderAuthorization} {version : ℕ} {inserted : Bool}
    {before after : Db}
    (hruns : (insertOpen authorization version).Runs before inserted after) :
    (inserted = false ∧ after = before) ∨
      (inserted = true ∧ ∃ source opens,
        before.authorizations.get? authorization.id = some source ∧
          (authorization.openRow before.nextId version).CapturedFrom source ∧
            (∀ other ∈ before.opens, other.sourceAuthorizationId ≠ authorization.id) ∧
              before.opens.create (authorization.openRow before.nextId version) = some opens ∧
                after = { before with
                  opens := opens
                  authorizations := before.authorizations.replace { source with
                    authorizedOpenCapturedAt := some authorization.createdAt }
                  nextId := before.nextId + 1 }) := by
  simp only [insertOpen, runs_recover, runs_bind, runs_takeId, runs_pure, and_assoc,
    exists_and_left, exists_eq_left] at hruns
  rcases hruns with ⟨_, _, hinsert, rfl, rfl⟩ | ⟨failure, _, hhandled⟩
  · rcases AuthorizedOpen.insert_runs hinsert with
      ⟨source, opens, hsource, hcaptured, hunique, hcreate, rfl⟩
    exact .inr ⟨rfl, source, opens, hsource, hcaptured, hunique, hcreate, rfl⟩
  · cases failure with
    | integrity =>
        simp only [runs_pure] at hhandled
        exact .inl ⟨hhandled.1.symm, hhandled.2.symm⟩
    | _ => simp at hhandled

theorem insertOpen_changes {authorization : RenderAuthorization} {version : ℕ}
    {inserted : Bool} {before after : Db}
    (hruns : (insertOpen authorization version).Runs before inserted after)
    (heffect : .opens ∈ effects) :
    Changes effects before after := by
  rcases insertOpen_runs hruns with ⟨_, rfl⟩ | ⟨_, source, opens, hsource, hcaptured, hunique,
    hcreate, rfl⟩
  · exact .refl
  · exact .tail (.single (.idsTaken 1)) (.openCaptured heffect (Nat.lt_succ_self before.nextId)
      hsource hcaptured hunique rfl hcreate)

theorem DashboardViewerState.insert_change {row inserted : DashboardViewerState}
    {before after : Db} (hruns : row.insert.Runs before inserted after)
    (hid : row.id < before.nextId)
    (hnone : before.viewerStates.where? (fun state =>
      state.userId = row.userId ∧ state.dashboardId = row.dashboardId) = []) :
    Change effects before after := by
  simp only [DashboardViewerState.insert, DashboardViewerState.clean, runs_bind, runs_get,
    runs_found, runs_check, runs_set, runs_pure, and_assoc, exists_and_left,
    exists_eq_left', exists_const] at hruns
  rcases hruns with ⟨_, ⟨dashboard, hdashboard, hseen, rfl⟩, _, states, hcreate, _, rfl⟩
  refine .viewerStateInserted hid hdashboard hseen ?_ hcreate
  intro other hother hsame
  have hselected : other ∈ before.viewerStates.where? fun state =>
      state.userId = row.userId ∧ state.dashboardId = row.dashboardId := by
    simpa using ⟨hother, hsame⟩
  rw [hnone] at hselected
  simp at hselected

theorem DashboardViewerState.save_change {row saved : DashboardViewerState} {before after : Db}
    (hruns : row.save.Runs before saved after) : Change effects before after := by
  simp only [DashboardViewerState.save, DashboardViewerState.clean, runs_bind, runs_get,
    runs_found, runs_check, runs_set, runs_pure, and_assoc, exists_and_left,
    exists_eq_left', exists_const] at hruns
  rcases hruns with ⟨original, horiginal, huser, hscope, _, _, _,
    ⟨dashboard, hdashboard, hseen, rfl⟩, _, rfl⟩
  exact .viewerStateSaved horiginal huser.symm hscope.symm hdashboard hseen

theorem advanceViewerState_changes {authorization : RenderAuthorization} {version : ℕ}
    {state : DashboardViewerState} {before after : Db}
    (hruns : (advanceViewerState authorization version).Runs before state after) :
    Changes effects before after := by
  simp only [advanceViewerState, runs_bind, runs_get, runs_getOneOrNone, and_assoc,
    exists_and_left, exists_eq_left'] at hruns
  rcases hruns with ⟨existing, hexisting, hrest⟩
  cases existing with
  | none =>
      simp only [runs_bind, runs_takeId, and_assoc, exists_and_left, exists_eq_left] at hrest
      exact .tail (.single (.idsTaken 1))
        (DashboardViewerState.insert_change hrest (Nat.lt_succ_self before.nextId) hexisting)
  | some stored =>
      simp only [runs_ite, runs_pure] at hrest
      rcases hrest with ⟨_, _, rfl⟩ | ⟨_, hsave⟩
      · exact .refl
      · exact .single (DashboardViewerState.save_change hsave)

theorem advanceViewerState_frame {authorization : RenderAuthorization} {version : ℕ}
    {state : DashboardViewerState} {before after : Db}
    (hruns : (advanceViewerState authorization version).Runs before state after) :
    ∃ viewerStates nextId, before.nextId ≤ nextId ∧
      after = { before with viewerStates := viewerStates, nextId := nextId } := by
  simp only [advanceViewerState, runs_bind, runs_get, runs_getOneOrNone, and_assoc,
    exists_and_left, exists_eq_left'] at hruns
  rcases hruns with ⟨existing, _, hrest⟩
  cases existing with
  | none =>
      simp only [DashboardViewerState.insert, DashboardViewerState.clean, runs_bind, runs_takeId,
        runs_get, runs_found, runs_check, runs_set, runs_pure, and_assoc, exists_and_left,
        exists_eq_left', exists_eq_left, exists_const] at hrest
      rcases hrest with ⟨_, ⟨_, _, _, rfl⟩, _, states, _, _, rfl⟩
      exact ⟨states, before.nextId + 1, Nat.le_succ _, rfl⟩
  | some stored =>
      simp only [runs_ite, runs_pure] at hrest
      rcases hrest with ⟨_, _, rfl⟩ | ⟨_, hsave⟩
      · exact ⟨before.viewerStates, before.nextId, le_refl _, rfl⟩
      · simp only [DashboardViewerState.save, DashboardViewerState.clean, runs_bind, runs_get,
          runs_found, runs_check, runs_set, runs_pure, and_assoc, exists_and_left,
          exists_eq_left', exists_const] at hsave
        rcases hsave with ⟨_, _, _, _, _, _, _, ⟨_, _, _, rfl⟩, _, rfl⟩
        exact ⟨_, before.nextId, le_refl _, rfl⟩

/-- A capture that recorded the open of a viewer authorization. -/
structure Captured (before : Db) (source : RenderAuthorization) (version : ℕ) (after : Db) :
    Prop where
  stored : before.authorizations.get? source.id = some source
  viewer : source.audience = .viewer
  uncaptured : source.authorizedOpenCapturedAt = none
  publication : source.publicationVersion = some version
  unopened : ∀ other ∈ before.opens, other.sourceAuthorizationId ≠ source.id
  written : ∃ opens viewerStates nextId,
    before.opens.create (source.openRow before.nextId version) = some opens ∧
      before.nextId < nextId ∧
        after = { before with
          opens := opens
          viewerStates := viewerStates
          nextId := nextId
          authorizations := before.authorizations.replace { source with
            authorizedOpenCapturedAt := some source.createdAt } }

theorem captureAuthorizedOpen_cases {authorizationId : Uuid} {captured : Bool}
    {before after : Db}
    (hruns : (captureAuthorizedOpen authorizationId).Runs before captured after) :
    (captured = false ∧ after = before) ∨
      (captured = true ∧ ∃ row version middle state, row.id = authorizationId ∧
        before.authorizations.get? row.id = some row ∧ row.publicationVersion = some version ∧
          (insertOpen row version).Runs before true middle ∧
            (advanceViewerState row version).Runs middle state after) := by
  simp only [captureAuthorizedOpen, runs_bind, runs_get, runs_found, runs_check, runs_ite,
    runs_pure, and_assoc, exists_and_left, exists_eq_left', exists_const] at hruns
  rcases hruns with ⟨loaded, hloaded, ⟨_, rfl, rfl⟩ | ⟨_, _, version, hversion, inserted, middle,
    hinsert, hrest⟩⟩
  · exact .inl ⟨rfl, rfl⟩
  · rcases Option.bind_eq_some_iff.mp hloaded with ⟨row, hrow, hload⟩
    have hsame : loaded.authorization = row := by
      unfold Db.loadAuthorization at hload
      split at hload
      · exact (congrArg LoadedAuthorization.authorization (Option.some.inj hload)).symm
      · contradiction
    have hid : row.id = authorizationId := Table.key_of_get? hrow
    rw [hsame] at hinsert hversion hrest
    cases inserted with
    | false =>
        simp only [Bool.false_eq_true, false_and, not_false_eq_true, true_and,
          false_or] at hrest
        rcases insertOpen_runs hinsert with ⟨_, rfl⟩ | ⟨hfalse, _⟩
        · exact .inl ⟨hrest.1.symm, hrest.2.symm⟩
        · contradiction
    | true =>
        simp only [true_and, not_true_eq_false, false_and, or_false] at hrest
        rcases hrest with ⟨state, final, hstate, rfl, rfl⟩
        exact .inr ⟨rfl, row, version, middle, state, hid, hid.symm ▸ hrow, hversion, hinsert,
          hstate⟩

theorem captureAuthorizedOpen_runs {authorizationId : Uuid} {captured : Bool}
    {before after : Db}
    (hruns : (captureAuthorizedOpen authorizationId).Runs before captured after) :
    (captured = false ∧ after = before) ∨
      (captured = true ∧ ∃ source version, source.id = authorizationId ∧
        Captured before source version after) := by
  rcases captureAuthorizedOpen_cases hruns with hkept |
    ⟨rfl, row, version, middle, state, hid, hstored, hversion, hinsert, hstate⟩
  · exact .inl hkept
  · rcases insertOpen_runs hinsert with ⟨hfalse, _⟩ |
      ⟨_, source, opens, hsource, hcaptured, hunique, hcreate, rfl⟩
    · contradiction
    · cases Option.some.inj (hstored.symm.trans hsource)
      rcases advanceViewerState_frame hstate with ⟨viewerStates, nextId, hnext, rfl⟩
      exact .inr ⟨rfl, row, version, hid, {
        stored := hstored
        viewer := hcaptured.viewer
        uncaptured := hcaptured.uncaptured
        publication := hversion
        unopened := hunique
        written := ⟨opens, viewerStates, nextId, hcreate, hnext, rfl⟩ }⟩

theorem captureAuthorizedOpen_changes {authorizationId : Uuid} {captured : Bool}
    {before after : Db}
    (hruns : (captureAuthorizedOpen authorizationId).Runs before captured after)
    (heffect : .opens ∈ effects) :
    Changes effects before after := by
  rcases captureAuthorizedOpen_cases hruns with ⟨_, rfl⟩ |
    ⟨_, row, version, middle, state, _, _, _, hinsert, hstate⟩
  · exact .refl
  · exact (insertOpen_changes hinsert heffect).trans (advanceViewerState_changes hstate)

/-! ## Issue and revocation -/

theorem createAuthorizationFrom_runs {platform : Platform} {context : CallContext}
    {token : ℕ → BearerToken} {dashboard : Dashboard} {revisionId : Uuid} {viewer : User}
    {viewerGrant : Option ViewerGrant} {audience : Audience} {issuedAt : Time}
    {remaining attempt : ℕ} {created : RenderCredential × RenderAuthorization}
    {before after : Db}
    (hruns : (createAuthorizationFrom platform context token dashboard revisionId viewer
      viewerGrant audience issuedAt remaining attempt).Runs before created after) :
    ∃ attempted, created.1 = ⟨(token attempted).value, audience, issuedAt + renderLifetime⟩ ∧
      (newAuthorization platform context attempted (token attempted) dashboard revisionId
        viewer viewerGrant audience issuedAt).insert.Runs before created.2 after := by
  induction remaining generalizing attempt with
  | zero => simp [createAuthorizationFrom] at hruns
  | succ remaining ih =>
      simp only [createAuthorizationFrom, runs_recover, runs_bind, runs_pure] at hruns
      rcases hruns with ⟨_, _, hinsert, rfl, rfl⟩ | ⟨failure, _, hhandled⟩
      · exact ⟨attempt, rfl, hinsert⟩
      · cases failure with
        | integrity => exact ih hhandled
        | _ => simp at hhandled

/-- An issue has inserted one authorization for its credential. -/
theorem createAuthorization_runs {platform : Platform} {context : CallContext}
    {token : ℕ → BearerToken} {dashboard : Dashboard} {revisionId : Uuid} {viewer : User}
    {viewerGrant : Option ViewerGrant} {audience : Audience} {issuedAt : Time}
    {created : RenderCredential × RenderAuthorization} {before after : Db}
    (hdashboard : before.dashboards.get? dashboard.id = some dashboard)
    (hruns : (createAuthorization platform context token dashboard revisionId viewer
      viewerGrant audience issuedAt).Runs before created after) :
    ∃ attempted, created.1 = ⟨(token attempted).value, audience, issuedAt + renderLifetime⟩ ∧
      created.2 = newAuthorization platform context attempted (token attempted) dashboard
        revisionId viewer viewerGrant audience issuedAt ∧
      created.2.Issued before ∧ ∃ authorizations,
        before.authorizations.create created.2 = some authorizations ∧
          after = { before with authorizations := authorizations } := by
  rcases createAuthorizationFrom_runs hruns with ⟨attempted, hcredential, hinsert⟩
  refine ⟨attempted, hcredential, ?_⟩
  have hinserted := RenderAuthorization.insert_runs hinsert ?_ rfl
  · rcases hinserted with ⟨hrow, hissued, hcreate⟩
    rw [hrow]
    exact ⟨rfl, hissued, hcreate⟩
  · intro stored hstored version hversion
    cases Option.some.inj (hdashboard.symm.trans hstored)
    simp only [newAuthorization, Option.mem_def, Option.ite_none_right_eq_some,
      Option.some.injEq] at hversion
    exact hversion.2.symm

theorem issueOwnerPreview_changes {platform : Platform} {context : CallContext}
    {token : ℕ → BearerToken} {dashboardId revisionId viewerId : Uuid} {issuedAt : Time}
    {credential : RenderCredential} {before after : Db}
    (hruns : (issueOwnerPreview platform context token dashboardId revisionId viewerId
      issuedAt).Runs before credential after) :
    Changes effects before after := by
  simp only [issueOwnerPreview, runs_bind, runs_get, runs_found, runs_check, runs_pure,
    and_assoc, exists_and_left, exists_eq_left', exists_const,
    Option.filter_eq_some_iff] at hruns
  rcases hruns with ⟨dashboard, hdashboard, _, viewer, _, revision, _, _, _, created, middle,
    hcreate, _, _, haudit, _, rfl⟩
  have hself : before.dashboards.get? dashboard.id = some dashboard :=
    Table.get?_of_mem (Table.mem_of_get? hdashboard)
  rcases createAuthorization_runs hself hcreate with
    ⟨attempted, _, hrow, hissued, authorizations, hinserted, rfl⟩
  have hpreview : created.2.audience = .preview := by rw [hrow]; rfl
  exact .tail (.single (.previewInserted hpreview hissued hinserted))
    (recordAudit_change haudit rfl)

theorem captureIssued_runs {authorizationId : Uuid} {before after : Db} {done : PUnit}
    (hruns : (captureIssued authorizationId).Runs before done after) :
    (captureAuthorizedOpen authorizationId).Runs before true after := by
  simp only [captureIssued, runs_bind, runs_recover, runs_check] at hruns
  rcases hruns with ⟨captured, middle, hcapture | ⟨failure, _, hhandled⟩, rfl, rfl⟩
  · exact hcapture
  · cases failure with
    | _ => simp at hhandled

/-- The new authorization of an issue and its open are one change. -/
theorem capturedIssue_changes {row : RenderAuthorization}
    {authorizations : Table RenderAuthorization} {before after : Db}
    (hissued : row.Issued before) (hcreate : before.authorizations.create row =
      some authorizations)
    (hruns : (captureAuthorizedOpen row.id).Runs { before with authorizations := authorizations }
      true after)
    (heffect : .opens ∈ effects) :
    Changes effects before after := by
  rcases captureAuthorizedOpen_cases hruns with ⟨hfalse, _⟩ |
    ⟨_, source, version, middle, state, hid, hstored, _, hinsert, hstate⟩
  · contradiction
  · have hself : authorizations.get? source.id = some row := by
      rw [Table.get?_of_create hcreate]
      exact if_pos hid.symm
    cases Option.some.inj (hself.symm.trans hstored)
    rcases insertOpen_runs hinsert with ⟨hfalse, _⟩ |
      ⟨_, stored, opens, hsource, hcaptured, hunique, hopens, rfl⟩
    · contradiction
    · cases Option.some.inj (hself.symm.trans hsource)
      have hlater : row.Issued { before with nextId := before.nextId + 1 } :=
        ⟨hissued.dashboard, hissued.viewer, hissued.revision, hissued.epoch, hissued.grant,
          hissued.digest, hissued.uncaptured⟩
      refine Relation.ReflTransGen.trans ?_ (advanceViewerState_changes hstate)
      exact .tail (.single (.idsTaken 1)) (.viewInserted heffect hlater hcreate
        (Nat.lt_succ_self before.nextId) rfl hcaptured hunique rfl hopens)

theorem issuePublishedView_changes {platform : Platform} {context : CallContext}
    {token : ℕ → BearerToken} {dashboardId viewerId : Uuid} {issuedAt : Time}
    {credential : RenderCredential} {before after : Db}
    (hruns : (issuePublishedView platform context token dashboardId viewerId issuedAt).Runs
      before credential after)
    (heffect : .opens ∈ effects) :
    Changes effects before after := by
  simp only [issuePublishedView, runs_bind, runs_get, runs_found, runs_check, runs_pure,
    and_assoc, exists_and_left, exists_eq_left', exists_const,
    Option.filter_eq_some_iff] at hruns
  rcases hruns with ⟨dashboard, hdashboard, _, revisionId, _, viewer, _, _, created, middle,
    hcreate, _, _, hcapture, _, rfl⟩
  have hself : before.dashboards.get? dashboard.id = some dashboard :=
    Table.get?_of_mem (Table.mem_of_get? hdashboard)
  rcases createAuthorization_runs hself hcreate with
    ⟨attempted, _, _, hissued, authorizations, hinserted, rfl⟩
  exact capturedIssue_changes hissued hinserted (captureIssued_runs hcapture) heffect

theorem revokeRenderAuthorization_changes {authorizationId : Uuid} {revokedAt : Time}
    {before after : Db} {done : PUnit}
    (hruns : (revokeRenderAuthorization authorizationId revokedAt).Runs before done after) :
    Changes effects before after := by
  simp only [revokeRenderAuthorization, runs_bind, runs_get, and_assoc, exists_and_left,
    exists_eq_left'] at hruns
  cases hfound : before.authorizations.get? authorizationId with
  | none =>
      simp only [hfound, runs_pure] at hruns
      exact hruns.2 ▸ .refl
  | some authorization =>
      simp only [hfound, runs_ite, runs_bind, runs_pure] at hruns
      rcases hruns with ⟨_, _, rfl⟩ | ⟨_, saved, middle, hsave, _, rfl⟩
      · exact .refl
      · have hself : before.authorizations.get? authorization.id = some authorization :=
          Table.get?_of_mem (Table.mem_of_get? hfound)
        exact .single (RenderAuthorization.save_change hsave hself rfl)

/-! ## Analytics -/

theorem aggregateAuthorizedOpens_changes {context : CallContext} {through : Time}
    {batchSize : ℤ} {result : AnalyticsAggregationResult} {before after : Db}
    (hruns : (aggregateAuthorizedOpens context through batchSize).Runs before result after)
    (heffect : .opens ∈ effects) :
    Changes effects before after := by
  rcases (aggregateAuthorizedOpens_runs hruns).1.frame with
    ⟨dailyRollups, viewerSummaries, snapshots, checkpoint, nextId, hnext, rfl⟩
  refine .single (.analyticsChanged heffect hnext ?_ (.inl ⟨_, _, _, _, hruns⟩))
  intro row hrow
  rcases Table.mem_update.mp hrow with ⟨old, hold, rfl⟩
  refine ⟨old, hold, (AuthorizedOpen.marked_id old).symm, ?_⟩
  unfold AuthorizedOpen.marked
  split <;> rfl

theorem purgeAuthorizedOpens_changes {context : CallContext} {bound : Time} {batchSize : ℤ}
    {removed : ℕ} {before after : Db}
    (hruns : (purgeAuthorizedOpens context bound batchSize).Runs before removed after)
    (heffect : .opens ∈ effects) :
    Changes effects before after := by
  rcases purgeAuthorizedOpens_runs hruns with ⟨retained, rfl, _⟩
  refine .single (.analyticsChanged heffect (le_refl _) ?_ (.inr ⟨_, _, _, _, hruns⟩))
  intro row hrow
  exact ⟨row, (Table.mem_keep_iff.mp hrow).1, rfl, rfl⟩

end Agora
