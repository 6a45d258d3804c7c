import Agora.RenderServiceChanges
import Agora.RevisionServiceChanges
import Agora.TransitionSystem

/-!
# Runs of the services

An operation is one transaction of a service with its arguments.  Creating a
revision and cleaning up reservations take several transactions, so each of
theirs is an operation of its own and any other may come between.  A run starts
from the empty database; an operation that fails leaves the database as it was.
-/

namespace Agora

open Transaction

inductive Operation where
  | bootstrapFirstAdministrator (soeid password salt : Text)
  | provisionUser (actorId : Uuid) (soeid password salt : Text) (isAdministrator : Bool)
  | disableUser (actorId targetId : Uuid)
  | enableUser (actorId targetId : Uuid)
  | resetUserPassword (actorId targetId : Uuid) (password salt : Text)
  | createProject (ownerId : Uuid) (name description : Text)
  | renameProject (projectId ownerId : Uuid) (name : Text)
  | publishDashboardRevision (dashboardId actorId revisionId : Uuid)
      (publicationNote : Text) (dataAsOf : Option Time) (freshnessInterval : Option ℤ)
      (publishedAt : Time)
  | unpublishDashboard (dashboardId actorId : Uuid)
  | confirmDashboardFreshness (dashboardId actorId : Uuid) (freshnessInterval : Option ℤ)
      (dataAsOf : Option (Option Time)) (confirmedAt : Time)
  | setDashboardFavorite (dashboardId userId : Uuid) (favorited : Bool)
  | grantProjectViewer (dashboardId actorId : Uuid) (targetSoeid : Text)
  | revokeProjectViewer (dashboardId grantId actorId : Uuid)
  | requestDashboardAccess (dashboardId requesterId : Uuid) (message : Text)
  | resolveDashboardAccessRequest (dashboardId : Uuid) (requestId : ℕ) (actorId : Uuid)
      (resolution : String) (resolvedAt : Time)
  | transferDashboardOwnership (dashboardId actorId incomingOwnerId : Uuid)
      (expectedTransferId : Option (Option Uuid)) (transferredAt : Time)
  | insertReservation (key : StorageKey)
  | markReservationVerified (reservationId : Uuid) (receipt : StoredArtifact)
  | markReservationCollision (reservationId : Uuid)
  | markReservationCleanupRequired (reservationId : Uuid)
  | commitRevisionMetadata (dashboardId createdById : Uuid)
      (prepared : List PreparedArtifact)
  | decideExpired (cutoff : Time) (reservationId : Uuid)
  | decideUnowned (candidate : CleanupCandidate)
  | finishDeletion (reservationId : Uuid) (deleted : Bool)
  | issueOwnerPreview (token : ℕ → BearerToken) (dashboardId revisionId viewerId : Uuid)
      (issuedAt : Time)
  | issuePublishedView (token : ℕ → BearerToken) (dashboardId viewerId : Uuid)
      (issuedAt : Time)
  | resolveRenderAuthorization (token : Text) (audience : Audience) (checkedAt : Time)
  | revokeRenderAuthorization (authorizationId : Uuid) (revokedAt : Time)
  | captureAuthorizedOpen (authorizationId : Uuid)
  | aggregateAuthorizedOpens (through : Time) (batchSize : ℤ)
  | purgeAuthorizedOpens (before : Time) (batchSize : ℤ)

def Operation.Result : Operation → Type
  | .bootstrapFirstAdministrator .. | .provisionUser .. | .disableUser .. | .enableUser ..
  | .resetUserPassword .. => User
  | .createProject .. | .renameProject .. | .publishDashboardRevision ..
  | .unpublishDashboard .. | .confirmDashboardFreshness ..
  | .transferDashboardOwnership .. => Dashboard
  | .setDashboardFavorite .. => Option DashboardFavorite
  | .grantProjectViewer .. | .revokeProjectViewer .. => ViewerGrant
  | .requestDashboardAccess .. | .resolveDashboardAccessRequest .. => AccessRequest
  | .insertReservation .. => Option StorageReservation
  | .markReservationVerified .. | .markReservationCollision ..
  | .markReservationCleanupRequired .. | .finishDeletion ..
  | .revokeRenderAuthorization .. => PUnit
  | .commitRevisionMetadata .. => Revision
  | .decideExpired .. | .decideUnowned .. => CleanupDecision
  | .issueOwnerPreview .. | .issuePublishedView .. => RenderCredential
  | .resolveRenderAuthorization .. => LoadedAuthorization
  | .captureAuthorizedOpen .. => Bool
  | .aggregateAuthorizedOpens .. => AnalyticsAggregationResult
  | .purgeAuthorizedOpens .. => ℕ

def Operation.body (platform : Platform) (context : CallContext) :
    (operation : Operation) → Tx operation.Result
  | .bootstrapFirstAdministrator soeid password salt =>
      Agora.bootstrapFirstAdministrator platform context soeid password salt
  | .provisionUser actorId soeid password salt isAdministrator =>
      Agora.provisionUser platform context actorId soeid password salt isAdministrator
  | .disableUser actorId targetId => Agora.disableUser context actorId targetId
  | .enableUser actorId targetId => Agora.enableUser context actorId targetId
  | .resetUserPassword actorId targetId password salt =>
      Agora.resetUserPassword platform context actorId targetId password salt
  | .createProject ownerId name description =>
      Agora.createProject context ownerId name description
  | .renameProject projectId ownerId name =>
      Agora.renameProject context projectId ownerId name
  | .publishDashboardRevision dashboardId actorId revisionId publicationNote dataAsOf
      freshnessInterval publishedAt =>
      Agora.publishDashboardRevision platform context dashboardId actorId revisionId
        publicationNote dataAsOf freshnessInterval publishedAt
  | .unpublishDashboard dashboardId actorId =>
      Agora.unpublishDashboard context dashboardId actorId
  | .confirmDashboardFreshness dashboardId actorId freshnessInterval dataAsOf confirmedAt =>
      Agora.confirmDashboardFreshness context dashboardId actorId freshnessInterval dataAsOf
        confirmedAt
  | .setDashboardFavorite dashboardId userId favorited =>
      Agora.setDashboardFavorite context dashboardId userId favorited
  | .grantProjectViewer dashboardId actorId targetSoeid =>
      Agora.grantProjectViewer context dashboardId actorId targetSoeid
  | .revokeProjectViewer dashboardId grantId actorId =>
      Agora.revokeProjectViewer context dashboardId grantId actorId
  | .requestDashboardAccess dashboardId requesterId message =>
      Agora.requestDashboardAccess platform context dashboardId requesterId message
  | .resolveDashboardAccessRequest dashboardId requestId actorId resolution resolvedAt =>
      Agora.resolveDashboardAccessRequest context dashboardId requestId actorId resolution
        resolvedAt
  | .transferDashboardOwnership dashboardId actorId incomingOwnerId expectedTransferId
      transferredAt =>
      Agora.transferDashboardOwnership context dashboardId actorId incomingOwnerId
        expectedTransferId transferredAt
  | .insertReservation key => Agora.insertReservation context key
  | .markReservationVerified reservationId receipt =>
      Agora.markReservationVerified reservationId receipt
  | .markReservationCollision reservationId => Agora.markReservationCollision reservationId
  | .markReservationCleanupRequired reservationId =>
      Agora.markReservationCleanupRequired reservationId
  | .commitRevisionMetadata dashboardId createdById prepared =>
      Agora.commitRevisionMetadata platform context dashboardId createdById prepared
  | .decideExpired cutoff reservationId => Agora.decideExpired cutoff reservationId
  | .decideUnowned candidate => Agora.decideUnowned candidate
  | .finishDeletion reservationId deleted => Agora.finishDeletion reservationId deleted
  | .issueOwnerPreview token dashboardId revisionId viewerId issuedAt =>
      Agora.issueOwnerPreview platform context token dashboardId revisionId viewerId issuedAt
  | .issuePublishedView token dashboardId viewerId issuedAt =>
      Agora.issuePublishedView platform context token dashboardId viewerId issuedAt
  | .resolveRenderAuthorization token audience checkedAt =>
      Agora.resolveRenderAuthorization platform token audience checkedAt
  | .revokeRenderAuthorization authorizationId revokedAt =>
      Agora.revokeRenderAuthorization authorizationId revokedAt
  | .captureAuthorizedOpen authorizationId => Agora.captureAuthorizedOpen authorizationId
  | .aggregateAuthorizedOpens through batchSize =>
      Agora.aggregateAuthorizedOpens context through batchSize
  | .purgeAuthorizedOpens before batchSize =>
      Agora.purgeAuthorizedOpens context before batchSize

/-- An operation in the surroundings of one call. -/
structure ServiceCall where
  context : CallContext
  operation : Operation

/-- The transaction of a call; its first identity value follows the skipped ones. -/
def ServiceCall.body (platform : Platform) (call : ServiceCall) :
    Tx call.operation.Result := do
  modify fun db => { db with nextId := db.nextId + call.context.skippedIds }
  call.operation.body platform call.context

def serviceSystem (platform : Platform) : TransitionSystem Db ServiceCall where
  initial db := db = Db.empty
  step before call after := after = (call.body platform).settle before

theorem resolveRenderAuthorization_runs {platform : Platform} {token : Text}
    {audience : Audience} {checkedAt : Time} {loaded : LoadedAuthorization}
    {before after : Db} :
    (resolveRenderAuthorization platform token audience checkedAt).Runs before loaded after ↔
      isToken token = true ∧
        (before.authorizationOf platform token audience).bind before.loadAuthorization =
          some loaded ∧
        loaded.isCurrent before checkedAt = true ∧ before = after := by
  simp only [resolveRenderAuthorization, runs_bind, runs_check, runs_get, runs_found,
    runs_pure, and_assoc, exists_and_left, exists_eq_left', exists_const]
  constructor
  · rintro ⟨htoken, other, hloaded, hcurrent, rfl, rfl⟩
    exact ⟨htoken, hloaded, hcurrent, rfl⟩
  · rintro ⟨htoken, hloaded, hcurrent, rfl⟩
    exact ⟨htoken, loaded, hloaded, hcurrent, rfl, rfl⟩

theorem CleanupSettled.changes {effects : Set Effect} {before after : Db} {reservationId : Uuid}
    (hsettled : CleanupSettled before reservationId after) : Changes effects before after := by
  cases hsettled with
  | kept => exact .refl
  | released => exact .single (.reservationsChanged _)
  | required => exact .single (.reservationsChanged _)

def Operation.effects : Operation → Set Effect
  | .issuePublishedView .. | .captureAuthorizedOpen .. | .aggregateAuthorizedOpens ..
  | .purgeAuthorizedOpens .. => {.opens}
  | .createProject .. => {.dashboards}
  | .requestDashboardAccess .. => {.requests}
  | .resolveDashboardAccessRequest .. => {.resolutions}
  | .transferDashboardOwnership .. => {.transfers, .resolutions}
  | .commitRevisionMetadata .. => {.revisions}
  | _ => ∅

theorem Operation.body_changes {platform : Platform} {context : CallContext} {effects : Set Effect}
    (operation : Operation) {before after : Db} {result : operation.Result}
    (heffects : operation.effects ⊆ effects)
    (hruns : (operation.body platform context).Runs before result after) :
    Changes effects before after := by
  cases operation with
  | bootstrapFirstAdministrator => exact bootstrapFirstAdministrator_changes hruns
  | provisionUser => exact provisionUser_changes hruns
  | disableUser => exact disableUser_changes hruns
  | enableUser => exact enableUser_changes hruns
  | resetUserPassword => exact resetUserPassword_changes hruns
  | createProject => exact createProject_changes (heffects rfl) hruns
  | renameProject => exact renameProject_changes hruns
  | publishDashboardRevision => exact publishDashboardRevision_changes hruns
  | unpublishDashboard => exact unpublishDashboard_changes hruns
  | confirmDashboardFreshness => exact confirmDashboardFreshness_changes hruns
  | setDashboardFavorite => exact setDashboardFavorite_changes hruns
  | grantProjectViewer => exact grantProjectViewer_changes hruns
  | revokeProjectViewer => exact revokeProjectViewer_changes hruns
  | requestDashboardAccess => exact requestDashboardAccess_changes (heffects rfl) hruns
  | resolveDashboardAccessRequest =>
      exact resolveDashboardAccessRequest_changes (heffects rfl) hruns
  | transferDashboardOwnership =>
      exact transferDashboardOwnership_changes (heffects (.inl rfl)) (heffects (.inr rfl)) hruns
  | insertReservation =>
      rcases insertReservation_runs hruns with
        ⟨_, rfl⟩ | ⟨_, _, _, _, _, _, _, _, _, _, rfl⟩
      · exact .refl
      · exact .single (.reservationsChanged _)
  | markReservationVerified =>
      rcases markReservationVerified_runs hruns with ⟨_, _, _, _, _, _, rfl⟩
      exact .single (.reservationsChanged _)
  | markReservationCollision =>
      rcases markReservationCollision_runs hruns with ⟨_, _, ⟨_, rfl⟩ | ⟨_, rfl⟩⟩
      · exact .refl
      · exact .single (.reservationsChanged _)
  | markReservationCleanupRequired =>
      rcases markReservationCleanupRequired_runs hruns with ⟨_, _, rfl⟩
      exact .single (.reservationsChanged _)
  | commitRevisionMetadata =>
      exact (commitRevisionMetadata_runs hruns).changes effects (heffects rfl)
  | decideExpired =>
      rcases decideExpired_runs hruns with ⟨_, hsettled⟩ | ⟨_, rfl, _⟩
      · exact hsettled.changes
      · exact .refl
  | decideUnowned =>
      rcases decideUnowned_runs hruns with
        ⟨_, hsettled⟩ | ⟨_, _, _, _, _, _, _, ⟨_, _, rfl⟩ | ⟨_, _, rfl⟩⟩
      · exact hsettled.changes
      · exact .single (.reservationsChanged _)
      · exact .refl
  | finishDeletion =>
      rcases finishDeletion_runs hruns with ⟨_, _, ⟨_, rfl⟩ | ⟨_, rfl⟩⟩
      · exact .single (.reservationsChanged _)
      · exact .single (.reservationsChanged _)
  | issueOwnerPreview => exact issueOwnerPreview_changes hruns
  | issuePublishedView => exact issuePublishedView_changes hruns (heffects rfl)
  | resolveRenderAuthorization =>
      rcases resolveRenderAuthorization_runs.mp hruns with ⟨_, _, _, rfl⟩
      exact .refl
  | revokeRenderAuthorization => exact revokeRenderAuthorization_changes hruns
  | captureAuthorizedOpen => exact captureAuthorizedOpen_changes hruns (heffects rfl)
  | aggregateAuthorizedOpens => 
      exact aggregateAuthorizedOpens_changes hruns (heffects rfl)
  | purgeAuthorizedOpens => exact purgeAuthorizedOpens_changes hruns (heffects rfl)

/-- The database in which the operation of a call starts. -/
def ServiceCall.start (call : ServiceCall) (db : Db) : Db :=
  { db with nextId := db.nextId + call.context.skippedIds }

theorem ServiceCall.start_change {effects : Set Effect} (call : ServiceCall) (db : Db) :
    Change effects db (call.start db) :=
  .idsTaken call.context.skippedIds

theorem ServiceCall.runs_body {platform : Platform} {call : ServiceCall} {before after : Db}
    {result : call.operation.Result} :
    (call.body platform).Runs before result after ↔
      (call.operation.body platform call.context).Runs (call.start before) result after := by
  simp only [ServiceCall.body, runs_bind, runs_modify, exists_eq_left', exists_const]
  exact Iff.rfl

theorem ServiceCall.body_changes {platform : Platform} {effects : Set Effect} (call : ServiceCall)
    {before after : Db} {result : call.operation.Result}
    (heffects : call.operation.effects ⊆ effects)
    (hruns : (call.body platform).Runs before result after) : Changes effects before after :=
  (Relation.ReflTransGen.single (call.start_change before)).trans
    (call.operation.body_changes heffects (ServiceCall.runs_body.mp hruns))

variable {platform : Platform}

theorem ServiceCall.settle_changes (call : ServiceCall) (db : Db) :
    Changes call.operation.effects db ((call.body platform).settle db) :=
  settle_induction .refl fun _ _ hruns => call.body_changes (le_refl _) hruns

theorem serviceSystem_changes {before after : Db} {call : ServiceCall}
    (hstep : (serviceSystem platform).step before call after) : Changes Set.univ before after := by
  have hafter : after = (call.body platform).settle before := hstep
  subst hafter
  exact settle_induction .refl fun _ _ hruns => call.body_changes (Set.subset_univ _) hruns

/-- An invariant of the changes holds in every reachable database. -/
theorem reachable_induction {motive : Db → Prop} {db : Db}
    (hreach : (serviceSystem platform).Reachable db) (hempty : motive Db.empty)
    (hchange : ∀ before after, motive before → Change Set.univ before after → motive after) :
    motive db := by
  refine hreach.invariant ?_ ?_
  · intro start hstart
    have hstart : start = Db.empty := hstart
    rwa [hstart]
  · intro before call after hbefore hstep
    have hchanges := serviceSystem_changes hstep
    clear hstep
    induction hchanges with
    | refl => exact hbefore
    | tail _ hlast ih => exact hchange _ _ ih hlast

/-! ## Computed runs -/

/-- The database after a list of calls. -/
def runFrom (platform : Platform) (db : Db) (calls : List ServiceCall) : Db :=
  calls.foldl (fun db call => (call.body platform).settle db) db

def runCalls (platform : Platform) (calls : List ServiceCall) : Db :=
  runFrom platform Db.empty calls

theorem runFrom_append (db : Db) (first second : List ServiceCall) :
    runFrom platform db (first ++ second) = runFrom platform (runFrom platform db first) second :=
  List.foldl_append

theorem path_runFrom (calls : List ServiceCall) (db : Db) :
    (serviceSystem platform).Path db calls (runFrom platform db calls) := by
  induction calls generalizing db with
  | nil => exact .refl db
  | cons call rest ih => exact .cons rfl (ih _)

theorem eq_runFrom_of_path {before after : Db} {calls : List ServiceCall}
    (hpath : (serviceSystem platform).Path before calls after) :
    after = runFrom platform before calls := by
  induction hpath with
  | refl => rfl
  | @cons first middle last call rest hstep _ ih =>
      have hmiddle : middle = (call.body platform).settle first := hstep
      rw [ih, hmiddle]
      rfl

theorem reachable_runCalls (calls : List ServiceCall) :
    (serviceSystem platform).Reachable (runCalls platform calls) :=
  ⟨Db.empty, calls, rfl, path_runFrom calls Db.empty⟩

/-- The Unicode tables on ASCII text. -/
def asciiTables : UnicodeTables where
  nfc := id
  nfkc := id
  casefold := List.map Char.toLower
  upper := List.map Char.toUpper
  category c := if c.toNat < 32 ∨ c.toNat = 127 then .control else .other

/-- A token that repeats one character, as bytes. -/
def repeatedToken (c : Char) : Bytes :=
  List.replicate 43 (UInt8.ofNat c.toNat)

/-- SHA-256 on the tokens of the computed runs; any other input stands for the empty
one. -/
def tokenDigest (bytes : Bytes) : Text :=
  if bytes = repeatedToken 'A' then
    "0f007385b6f9d4b7eeb2748605afe1a984a0a3bfa3f014d09e2a784ce9e5cd1a".toList
  else if bytes = repeatedToken 'B' then
    "412dc46cc9e3cb26f29f7c1415c556349af62904c5d15b0a2d8cfdc5cfa22b34".toList
  else
    "e3b0c44298fc1c149afbf4c8996fb92427ae41e4649b934ca495991b7852b855".toList

/-- A platform for ASCII text, two tokens and one strong password. -/
def asciiPlatform : Platform where
  unicode := asciiTables
  sha256 := tokenDigest
  sha256_hex bytes := by
    unfold tokenDigest
    split
    · decide +kernel
    · split <;> decide +kernel
  passwordErrors _ _ := []
  makePassword _ salt := "pbkdf2_sha256$1000000$".toList ++ salt ++
    "$ihHrPRIozjGMSTX1IIxcg9Mpea7fcQ08rW/CmhNIQZU=".toList

def samplePassword : Text := "correct-horse-battery".toList

def sampleSalt : Text := "0123456789abcdefghijkl".toList

/-- The surroundings of a call at a time, drawing identifiers from a number on. -/
def contextAt (clock : Time) (firstUuid : Uuid) : CallContext where
  clock := clock
  uuid attempt := firstUuid + attempt
  skippedIds := 0

def repeatedBearer (c : Char) (hcanonical : isToken (List.replicate 43 c) = true) :
    BearerToken :=
  ⟨List.replicate 43 c, hcanonical⟩

/-- The token of the first view of the computed runs; a further attempt draws the other
one. -/
def firstToken (attempt : ℕ) : BearerToken :=
  if attempt = 0 then repeatedBearer 'A' (by decide) else repeatedBearer 'B' (by decide)

/-- The token of the second view. -/
def secondToken (_ : ℕ) : BearerToken :=
  repeatedBearer 'B' (by decide)

def sampleReceipt : StoredArtifact where
  key := StorageKey.generate (tokenDigest []) (by decide)
  byteSize := 0
  sha256 := tokenDigest []

def samplePrepared : PreparedArtifact where
  reservationId := 4
  name := ⟨"index.html".toList, "index.html".toList⟩
  kind := .html
  receipt := sampleReceipt
  mediaType := "text/html"

/-- Two users exist, and a project of the first has one stored revision. -/
def revisionCalls : List ServiceCall :=
  [⟨contextAt 0 1, .bootstrapFirstAdministrator "AA00001".toList samplePassword sampleSalt⟩,
    ⟨contextAt 1 2, .provisionUser 1 "BB00002".toList samplePassword sampleSalt false⟩,
    ⟨contextAt 2 3, .createProject 1 "Sales".toList []⟩,
    ⟨contextAt 3 4, .insertReservation sampleReceipt.key⟩,
    ⟨contextAt 4 5, .markReservationVerified 4 sampleReceipt⟩,
    ⟨contextAt 5 5, .commitRevisionMetadata 3 1 [samplePrepared]⟩]

/-- The revision is published and shared with the second user. -/
def publishedCalls : List ServiceCall :=
  revisionCalls ++
    [⟨contextAt 6 7, .publishDashboardRevision 3 1 5 [] none none 6⟩,
      ⟨contextAt 7 7, .grantProjectViewer 3 1 "bb00002".toList⟩]

end Agora
