import Agora.DashboardServices

/-!
# Render credentials

Issue, resolution and revocation of the bearer credentials of the content origin,
and the capture of the open that an issued view counts as.  A token is 43
characters of the URL-safe alphabet; the database holds only its digest.
-/

namespace Agora

open Transaction (check found fail recover)

def isUrlSafe (c : Char) : Bool :=
  ('A' ≤ c && c ≤ 'Z') || ('a' ≤ c && c ≤ 'z') || ('0' ≤ c && c ≤ '9') ||
    c == '_' || c == '-'

/-- `_TOKEN_PATTERN.fullmatch`. -/
def isToken (value : Text) : Bool :=
  value.length == 43 && value.all isUrlSafe

/-- The result of `secrets.token_urlsafe(32)`. -/
structure BearerToken where
  value : Text
  canonical : isToken value = true

def tokenAttempts : ℕ := 3

/-- `AGORA_RENDER_AUTH_TTL_SECONDS` as a duration. -/
def renderLifetime : ℤ := seconds 300

/-- `_digest`; a token is ASCII, so its bytes are its code points. -/
def Platform.digest (platform : Platform) (token : Text) : Text :=
  platform.sha256 (token.map fun c => UInt8.ofNat c.toNat)

structure RenderCredential where
  token : Text
  audience : Audience
  expiresAt : Time
  deriving DecidableEq

def deniedRender : Failure :=
  .renderAuthorizationDenied "render authorization is not available"

/-! ## The access policy -/

/-- `user_can_view_published`. -/
def Db.userCanViewPublished (db : Db) (dashboard : Dashboard) (viewer : User)
    (viewerGrant : Option ViewerGrant) : Bool :=
  if viewer.isActive = false then false
  else if dashboard.state ≠ .published ∨ dashboard.publishedRevisionId = none then false
  else if dashboard.ownerId = viewer.id then true
  else
    match viewerGrant with
    | some grant =>
        grant.dashboardId = dashboard.id ∧ grant.viewerId = viewer.id ∧
          grant.revokedAt = none
    | none => db.hasActiveViewerGrant dashboard.id viewer.id

/-- `_authorization_can_source_open`. -/
def RenderAuthorization.canSourceOpen (authorization : RenderAuthorization)
    (dashboard : Dashboard) (viewer : User) (grant : Option ViewerGrant) : Bool :=
  if authorization.audience ≠ .viewer ∨ authorization.publicationVersion = none ∨
      authorization.publicationVersion = some 0 ∨ authorization.revokedAt ≠ none ∨
      viewer.isActive = false ∨ viewer.authVersion ≠ authorization.viewerAuthVersion ∨
      dashboard.state ≠ .published ∨
      dashboard.publishedRevisionId ≠ some authorization.revisionId ∨
      some dashboard.publicationVersion ≠ authorization.publicationVersion then false
  else if dashboard.ownerId = viewer.id then
    authorization.viewerGrantId = none ∧
      authorization.ownerTransferEpochId = dashboard.lastOwnershipTransferId
  else
    authorization.ownerTransferEpochId = none ∧
      grant.any fun grant =>
        grant.dashboardId = dashboard.id ∧ grant.viewerId = viewer.id ∧
          grant.revokedAt = none

/-- `_authorization_is_current` on an authorization with its related rows. -/
def Db.authorizationIsCurrent (db : Db) (authorization : RenderAuthorization)
    (dashboard : Dashboard) (viewer : User) (revision : Revision)
    (grant : Option ViewerGrant) (checkedAt : Time) : Bool :=
  if authorization.revokedAt ≠ none ∨ authorization.expiresAt ≤ checkedAt ∨
      viewer.isActive = false ∨ viewer.authVersion ≠ authorization.viewerAuthVersion ∨
      revision.artifactsLocked = false ∨
      revision.dashboardId ≠ authorization.dashboardId then false
  else
    match authorization.audience with
    | .preview =>
        authorization.viewerGrantId = none ∧
          dashboard.ownerId = authorization.viewerId ∧
            authorization.ownerTransferEpochId = dashboard.lastOwnershipTransferId ∧
              dashboard.state ≠ .archived ∧ dashboard.state ≠ .deleted
    | .viewer =>
        if dashboard.publishedRevisionId ≠ some authorization.revisionId then false
        else if some dashboard.publicationVersion ≠ authorization.publicationVersion then
          false
        else if dashboard.ownerId = authorization.viewerId then
          authorization.viewerGrantId = none ∧
            authorization.ownerTransferEpochId = dashboard.lastOwnershipTransferId
        else if authorization.viewerGrantId = none ∨
            authorization.ownerTransferEpochId ≠ none then false
        else db.userCanViewPublished dashboard viewer grant

/-- An authorization joined with its related rows, as `select_related` loads it. -/
structure LoadedAuthorization where
  authorization : RenderAuthorization
  dashboard : Dashboard
  viewer : User
  revision : Revision
  grant : Option ViewerGrant
  deriving DecidableEq

def Db.loadAuthorization (db : Db) (authorization : RenderAuthorization) :
    Option LoadedAuthorization :=
  match db.dashboards.get? authorization.dashboardId,
      db.users.get? authorization.viewerId,
      db.revisions.get? authorization.revisionId with
  | some dashboard, some viewer, some revision =>
      some ⟨authorization, dashboard, viewer, revision,
        authorization.viewerGrantId.bind db.grants.get?⟩
  | _, _, _ => none

def LoadedAuthorization.isCurrent (db : Db) (loaded : LoadedAuthorization)
    (checkedAt : Time) : Bool :=
  db.authorizationIsCurrent loaded.authorization loaded.dashboard loaded.viewer
    loaded.revision loaded.grant checkedAt

/-! ## Capture of an authorized open -/

/-- `_advance_viewer_state`. -/
def advanceViewerState (authorization : RenderAuthorization) (publicationVersion : ℕ) :
    Tx DashboardViewerState := do
  let db ← get
  let existing ← getOneOrNone (db.viewerStates.where? fun state =>
    state.userId = authorization.viewerId ∧
      state.dashboardId = authorization.dashboardId)
  match existing with
  | none =>
      let id ← takeId
      DashboardViewerState.insert {
        id := id
        userId := authorization.viewerId
        dashboardId := authorization.dashboardId
        lastViewedAt := authorization.createdAt
        seenPublicationVersion := publicationVersion }
  | some state =>
      let advanced := { state with
        lastViewedAt := max state.lastViewedAt authorization.createdAt
        seenPublicationVersion := max state.seenPublicationVersion publicationVersion }
      if advanced = state then
        pure state
      else
        advanced.save

/-- The raw row of an open, and whether it was inserted. -/
def insertOpen (authorization : RenderAuthorization) (publicationVersion : ℕ) :
    Tx Bool :=
  recover
    (do
      let id ← takeId
      let _ ← AuthorizedOpen.insert {
        id := id
        sourceAuthorizationId := authorization.id
        dashboardId := authorization.dashboardId
        viewerId := authorization.viewerId
        revisionId := authorization.revisionId
        publicationVersion := publicationVersion
        openedAt := authorization.createdAt
        aggregatedAt := none }
      pure true)
    fun
      | .integrity _ => pure false
      | failure => fail failure

def captureAuthorizedOpen (authorizationId : Uuid) : Tx Bool := do
  let db ← get
  let loaded ← found ((db.authorizations.get? authorizationId).bind db.loadAuthorization)
    (.enhancementAccessDenied "authorized open is not available")
  if loaded.authorization.authorizedOpenCapturedAt ≠ none then
    pure false
  else
    check (loaded.authorization.canSourceOpen loaded.dashboard loaded.viewer
        loaded.grant = true)
      (.enhancementAccessDenied "authorized open is not available")
    let publicationVersion ← found loaded.authorization.publicationVersion .assertion
    let inserted ← insertOpen loaded.authorization publicationVersion
    if inserted = true then
      let _ ← advanceViewerState loaded.authorization publicationVersion
      pure true
    else
      pure false

/-! ## Issue, resolution and revocation -/

/-- The authorization row for one attempted token. -/
def newAuthorization (platform : Platform) (context : CallContext) (attempt : ℕ)
    (token : BearerToken) (dashboard : Dashboard) (revisionId : Uuid) (viewer : User)
    (viewerGrant : Option ViewerGrant) (audience : Audience) (issuedAt : Time) :
    RenderAuthorization where
  id := context.uuid attempt
  tokenDigest := platform.digest token.value
  audience := audience
  viewerId := viewer.id
  viewerAuthVersion := viewer.authVersion
  dashboardId := dashboard.id
  revisionId := revisionId
  viewerGrantId := viewerGrant.map ViewerGrant.id
  ownerTransferEpochId :=
    if viewerGrant = none then dashboard.lastOwnershipTransferId else none
  publicationVersion :=
    if audience = .viewer then some dashboard.publicationVersion else none
  createdAt := context.clock
  expiresAt := issuedAt + renderLifetime
  revokedAt := none
  authorizedOpenCapturedAt := none

/-- The attempts of `_create_authorization` that remain from a given one on. -/
def createAuthorizationFrom (platform : Platform) (context : CallContext)
    (token : ℕ → BearerToken) (dashboard : Dashboard) (revisionId : Uuid) (viewer : User)
    (viewerGrant : Option ViewerGrant) (audience : Audience) (issuedAt : Time) :
    ℕ → ℕ → Tx (RenderCredential × RenderAuthorization)
  | 0, _ => fail (.renderAuthorizationUnavailable
      "render authorization could not be issued")
  | remaining + 1, attempt =>
      recover
        (do
          let authorization ← (newAuthorization platform context attempt (token attempt)
            dashboard revisionId viewer viewerGrant audience issuedAt).insert
          pure (⟨(token attempt).value, audience, issuedAt + renderLifetime⟩,
            authorization))
        fun
          | .integrity _ => createAuthorizationFrom platform context token dashboard
              revisionId viewer viewerGrant audience issuedAt remaining (attempt + 1)
          | failure => fail failure

def createAuthorization (platform : Platform) (context : CallContext)
    (token : ℕ → BearerToken) (dashboard : Dashboard) (revisionId : Uuid) (viewer : User)
    (viewerGrant : Option ViewerGrant) (audience : Audience) (issuedAt : Time) :
    Tx (RenderCredential × RenderAuthorization) :=
  createAuthorizationFrom platform context token dashboard revisionId viewer viewerGrant
    audience issuedAt tokenAttempts 0

def issueOwnerPreview (platform : Platform) (context : CallContext)
    (token : ℕ → BearerToken) (dashboardId revisionId viewerId : Uuid)
    (issuedAt : Time) : Tx RenderCredential := do
  let db ← get
  let dashboard ← found ((db.dashboards.get? dashboardId).filter fun dashboard =>
    dashboard.state ≠ .archived ∧ dashboard.state ≠ .deleted) deniedRender
  let viewer ← found (db.activeUser viewerId) deniedRender
  let revision ← found ((db.revisions.get? revisionId).filter fun revision =>
    revision.dashboardId = dashboardId ∧ revision.artifactsLocked) deniedRender
  check (dashboard.ownerId = viewer.id) deniedRender
  let created ← createAuthorization platform context token dashboard revision.id viewer
    none .preview issuedAt
  recordAudit context .dashboardPreviewStarted
    { actorId := some viewer.id
      dashboardId := some dashboard.id
      revisionId := some revision.id }
    [("audience", .audience .preview)]
  pure created.1

/-- The capture that follows an issue, with its refusal reported as a denial. -/
def captureIssued (authorizationId : Uuid) : Tx PUnit := do
  let captured ← recover (captureAuthorizedOpen authorizationId) fun
    | .enhancementAccessDenied _ => fail deniedRender
    | failure => fail failure
  check (captured = true)
    (.renderAuthorizationUnavailable "authorized open could not be captured")

def issuePublishedView (platform : Platform) (context : CallContext)
    (token : ℕ → BearerToken) (dashboardId viewerId : Uuid) (issuedAt : Time) :
    Tx RenderCredential := do
  let db ← get
  let dashboard ← found ((db.dashboards.get? dashboardId).filter fun dashboard =>
    dashboard.state = .published) deniedRender
  let revisionId ← found dashboard.publishedRevisionId deniedRender
  let viewer ← found (db.activeUser viewerId) deniedRender
  let grant :=
    if dashboard.ownerId ≠ viewer.id then db.activeViewerGrant dashboard.id viewer.id
    else none
  check (db.userCanViewPublished dashboard viewer grant = true) deniedRender
  let created ← createAuthorization platform context token dashboard revisionId viewer
    grant .viewer issuedAt
  captureIssued created.2.id
  pure created.1

/-- The authorization row that a token and an audience name. -/
def Db.authorizationOf (db : Db) (platform : Platform) (token : Text)
    (audience : Audience) : Option RenderAuthorization :=
  (db.authorizations.where? fun authorization =>
    authorization.tokenDigest = platform.digest token ∧
      authorization.audience = audience).argmin RenderAuthorization.id

def resolveRenderAuthorization (platform : Platform) (token : Text) (audience : Audience)
    (checkedAt : Time) : Tx LoadedAuthorization := do
  check (isToken token = true) deniedRender
  let db ← get
  let loaded ← found
    ((db.authorizationOf platform token audience).bind db.loadAuthorization) deniedRender
  check (loaded.isCurrent db checkedAt = true) deniedRender
  pure loaded

def revokeRenderAuthorization (authorizationId : Uuid) (revokedAt : Time) : Tx PUnit := do
  let db ← get
  match db.authorizations.get? authorizationId with
  | none => pure ⟨⟩
  | some authorization =>
      if authorization.revokedAt ≠ none then
        pure ⟨⟩
      else
        let _ ← RenderAuthorization.save { authorization with revokedAt := some revokedAt }
        pure ⟨⟩

end Agora
