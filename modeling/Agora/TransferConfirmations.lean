import Agora.AuthorizationQueries
import Agora.OwnershipChain

/-!
# Signed confirmations of ownership transfers

The owner of a dashboard gets a signed token that names the dashboard, both users
and the last transfer.  A confirmation is checked in a view and carried out in a
later transaction, which compares the last transfer again under the lock of the
dashboard.  Views, transactions and all other services interleave freely, and any
user may post any token; a token that verifies has been signed.
-/

namespace Agora

open Transaction

/-! ## Tokens -/

def transferConfirmationVersion : ℕ := 1

def transferConfirmationMaxAge : ℤ := seconds 900

def transferConfirmationMaxLength : ℕ := 2048

/-- The signed payload. -/
structure TransferConfirmation where
  version : ℕ
  projectId : Uuid
  actorId : Uuid
  incomingOwnerId : Uuid
  ownershipEpoch : Option Uuid
  deriving DecidableEq

/-- The payload of `_sign_transfer_confirmation`. -/
def signedConfirmation (project : Dashboard) (actorId incomingOwnerId : Uuid) :
    TransferConfirmation where
  version := transferConfirmationVersion
  projectId := project.id
  actorId := actorId
  incomingOwnerId := incomingOwnerId
  ownershipEpoch := project.lastOwnershipTransferId

/-- `signing.dumps` and `signing.loads` with the salt of these tokens; a token carries the
second in which it was signed. -/
structure ConfirmationSigner where
  dumps : TransferConfirmation → ℤ → Text
  loads : Text → Option (TransferConfirmation × ℤ)
  loads_dumps : ∀ payload signedAt, loads (dumps payload signedAt) = some (payload, signedAt)

structure TransferTarget where
  user : User
  token : Text
  expectedTransferId : Option Uuid

/-- `_TRANSFERABLE_STATES`. -/
def DashboardState.transferable : DashboardState → Bool
  | .draft | .published | .unpublished => true
  | .archived | .deleted => false

/-- `_load_transfer_target`. -/
def loadTransferTarget (signer : ConfirmationSigner) (db : Db) (token : Text)
    (project : Dashboard) (actorId : Uuid) (now : Time) : Option TransferTarget := do
  guard (1 ≤ token.length ∧ token.length ≤ transferConfirmationMaxLength)
  let (payload, signedAt) ← signer.loads token
  guard (now - seconds signedAt ≤ transferConfirmationMaxAge)
  guard (payload.version = transferConfirmationVersion ∧ payload.projectId = project.id ∧
    payload.actorId = actorId)
  guard (project.lastOwnershipTransferId = payload.ownershipEpoch)
  guard (payload.incomingOwnerId ≠ actorId)
  let incomingOwner ← db.activeUser payload.incomingOwnerId
  pure ⟨incomingOwner, token, payload.ownershipEpoch⟩

/-! ## Views and transactions -/

/-- One request of `project_transfer_confirm`, between its reads of the database. -/
inductive Submission where
  | posted (userId projectId : Uuid) (token : Option Text)
  | loaded (userId : Uuid) (project : Dashboard) (token : Option Text)
  | confirming (userId projectId : Uuid) (target : TransferTarget)
  | answered

/-- The view reads the project of its caller. -/
def viewProject (db : Db) (userId projectId : Uuid) (token : Option Text) : Submission :=
  match (db.manageableProject projectId userId).filter fun project =>
      project.state.transferable with
  | some project => .loaded userId project token
  | none => .answered

/-- The view checks the token, and whether the form confirms the transfer. -/
def viewConfirmation (signer : ConfirmationSigner) (db : Db) (now : Time) (confirmed : Bool)
    (userId : Uuid) (project : Dashboard) (token : Option Text) : Submission :=
  match token.bind fun text => loadTransferTarget signer db text project userId now with
  | some target => if confirmed then .confirming userId project.id target else .answered
  | none => .answered

/-- The transaction that the view calls. -/
def TransferTarget.call (target : TransferTarget) (userId projectId : Uuid)
    (context : CallContext) (transferredAt : Time) : ServiceCall where
  context := context
  operation := .transferDashboardOwnership projectId userId target.user.id
    (some target.expectedTransferId) transferredAt

/-- Projects read for a signature, signed tokens with the project they were signed for,
requests, and the tokens whose transfer was committed with its marker. -/
structure ConfirmationState where
  db : Db
  proposals : List (Uuid × Dashboard)
  signed : List (Text × Dashboard)
  submissions : ℕ → Option Submission
  effected : List (Text × Uuid)

inductive ConfirmationEvent where
  | serve (call : ServiceCall)
  | propose (userId projectId : Uuid)
  | sign (userId : Uuid) (project : Dashboard) (incomingOwnerId : Uuid) (signedAt : ℤ)
  | post (index : ℕ) (userId projectId : Uuid) (token : Option Text)
  | load (index : ℕ)
  | check (index : ℕ) (now : Time) (confirmed : Bool)
  | transfer (index : ℕ) (context : CallContext) (transferredAt : Time)

namespace ConfirmationState

def answer (state : ConfirmationState) (index : ℕ) (submission : Submission) :
    ConfirmationState :=
  { state with submissions := Function.update state.submissions index (some submission) }

@[simp] theorem answer_submissions (state : ConfirmationState) (index : ℕ)
    (submission : Submission) : (state.answer index submission).submissions index =
      some submission :=
  Function.update_self index _ _

/-- The state after the transaction of a confirmed request. -/
def transfer (platform : Platform) (state : ConfirmationState) (index : ℕ)
    (target : TransferTarget) (call : ServiceCall) : ConfirmationState :=
  { state.answer index .answered with
    db := (call.body platform).settle state.db
    effected := match (call.body platform).value? state.db with
      | some _ => (target.token, call.context.uuid 0) :: state.effected
      | none => state.effected }

/-- A text that verifies has been signed. -/
def Knows (signer : ConfirmationSigner) (signed : List (Text × Dashboard)) (token : Text) :
    Prop :=
  signer.loads token ≠ none → ∃ project, (token, project) ∈ signed

end ConfirmationState

inductive ConfirmationStep (platform : Platform) (signer : ConfirmationSigner)
    (state : ConfirmationState) : ConfirmationEvent → ConfirmationState → Prop
  | served (call : ServiceCall) :
      ConfirmationStep platform signer state (.serve call)
        { state with db := (call.body platform).settle state.db }
  | proposed {userId projectId : Uuid} {project : Dashboard}
      (hproject : state.db.manageableProject projectId userId = some project)
      (hstate : project.state.transferable = true) :
      ConfirmationStep platform signer state (.propose userId projectId)
        { state with proposals := (userId, project) :: state.proposals }
  | signed {userId : Uuid} {project : Dashboard} {incomingOwner : User} {signedAt : ℤ}
      (hproposal : (userId, project) ∈ state.proposals)
      (hincoming : state.db.activeUser incomingOwner.id = some incomingOwner)
      (hother : incomingOwner.id ≠ userId) :
      ConfirmationStep platform signer state (.sign userId project incomingOwner.id signedAt)
        { state with signed :=
            (signer.dumps (signedConfirmation project userId incomingOwner.id) signedAt,
              project) :: state.signed }
  | posted {index : ℕ} {userId projectId : Uuid} {token : Option Text}
      (hnew : state.submissions index = none)
      (hunforged : ∀ text ∈ token, ConfirmationState.Knows signer state.signed text) :
      ConfirmationStep platform signer state (.post index userId projectId token)
        (state.answer index (.posted userId projectId token))
  | loaded {index : ℕ} {userId projectId : Uuid} {token : Option Text}
      (hposted : state.submissions index = some (.posted userId projectId token)) :
      ConfirmationStep platform signer state (.load index)
        (state.answer index (viewProject state.db userId projectId token))
  | checked {index : ℕ} {userId : Uuid} {project : Dashboard} {token : Option Text}
      {now : Time} {confirmed : Bool}
      (hloaded : state.submissions index = some (.loaded userId project token)) :
      ConfirmationStep platform signer state (.check index now confirmed)
        (state.answer index
          (viewConfirmation signer state.db now confirmed userId project token))
  | transferred {index : ℕ} {userId projectId : Uuid} {target : TransferTarget}
      {context : CallContext} {transferredAt : Time}
      (hconfirming : state.submissions index = some (.confirming userId projectId target)) :
      ConfirmationStep platform signer state (.transfer index context transferredAt)
        (state.transfer platform index target
          (target.call userId projectId context transferredAt))

def confirmationSystem (platform : Platform) (signer : ConfirmationSigner) :
    TransitionSystem ConfirmationState ConfirmationEvent where
  initial state := state = ⟨Db.empty, [], [], fun _ => none, []⟩
  step := ConfirmationStep platform signer

variable {platform : Platform} {signer : ConfirmationSigner}

/-! ## A committed transfer -/

theorem transferDashboardOwnership_moves {context : CallContext}
    {dashboardId actorId incomingOwnerId : Uuid}
    {expectedTransferId : Option (Option Uuid)} {transferredAt : Time}
    {transferred : Dashboard} {before after : Db}
    (hruns : (transferDashboardOwnership context dashboardId actorId incomingOwnerId
      expectedTransferId transferredAt).Runs before transferred after) :
    ∃ dashboard marker, before.dashboards.get? dashboardId = some dashboard ∧
      (∀ expected ∈ expectedTransferId, dashboard.lastOwnershipTransferId = expected) ∧
        dashboard.ownerId = actorId ∧ marker ∈ after.transfers ∧
          marker.id = context.uuid 0 ∧ marker.dashboardId = dashboardId ∧
            marker.previousTransferId = dashboard.lastOwnershipTransferId ∧
              after.dashboards.get? dashboardId = some transferred ∧
                transferred.ownerId = incomingOwnerId ∧
                  transferred.lastOwnershipTransferId = some marker.id := by
  simp only [transferDashboardOwnership, runs_bind, runs_get, runs_found, runs_check,
    and_assoc, exists_and_left, exists_eq_left', exists_const,
    Option.filter_eq_some_iff] at hruns
  rcases hruns with ⟨dashboard, hdashboard, _, hexpected, actor, hactor, incoming, hincoming,
    howner, _, _, closed, hgrant, _, resolved, hrequest, marker, marked, hinsert, _, changed,
    hchange, _, audited, haudit, hread, rfl⟩
  have hid : dashboard.id = dashboardId := Table.key_of_get? hdashboard
  have hactorId : actor.id = actorId := Table.key_of_get? (activeUser_eq_some hactor).1
  have hincomingId : incoming.id = incomingOwnerId :=
    Table.key_of_get? (activeUser_eq_some hincoming).1
  rcases recordAudit_runs haudit with ⟨_, _, _, _, _, _, _, rfl⟩
  simp only [DashboardOwnershipTransfer.insert, runs_bind, runs_get, runs_found, runs_check,
    runs_set, runs_pure, and_assoc, exists_and_left, exists_eq_left', exists_const] at hinsert
  rcases hinsert with ⟨_, _, _, _, _, _, _, _, _, transfers, htransfers, rfl, rfl⟩
  simp only [Dashboard.changeOwner, runs_bind, runs_get, runs_found, runs_check, runs_set,
    and_assoc, exists_and_left, exists_eq_left', exists_const] at hchange
  rcases hchange with ⟨stored, hstored, _, _, _, _, _, _, _, _, _, _, _, _, _, _, rfl⟩
  have hmarker := (Table.mem_of_create htransfers).mpr (.inl rfl)
  have hstoredId : stored.id = dashboard.id := Table.key_of_get? hstored
  refine ⟨dashboard, _, hdashboard, hexpected, howner.symm.trans hactorId, hmarker, rfl, hid, rfl,
    ?_⟩
  rw [← hid]
  refine ⟨hread, ?_⟩
  have hwritten := Table.eq_of_get?_replace hstored hread hstoredId
  rw [hwritten]
  exact ⟨hincomingId, rfl⟩

/-! ## Epochs -/

/-- The current epoch of a dashboard has not been left by a transfer yet. -/
theorem unused_epoch {db : Db} (hreach : (serviceSystem platform).Reachable db)
    {dashboard : Dashboard} {marker : DashboardOwnershipTransfer}
    (hdashboard : dashboard ∈ db.dashboards) (hmarker : marker ∈ db.transfers)
    (hscope : marker.dashboardId = dashboard.id) :
    marker.previousTransferId ≠ dashboard.lastOwnershipTransferId := by
  rcases hreach with ⟨start, calls, hstart, hpath⟩
  have hstart : start = Db.empty := hstart
  have hdb : db = runCalls platform calls := by
    rw [hstart] at hpath
    exact eq_runFrom_of_path hpath
  have hget : db.dashboards.get? dashboard.id = some dashboard := Table.get?_of_mem hdashboard
  rw [hdb] at hget hmarker
  rcases exists_createdIn calls hget with ⟨creatorId, hcreated⟩
  rcases hcreated.ownershipChain with ⟨other, markers, hother, hchain⟩
  cases Option.some.inj (hget.symm.trans hother)
  exact hchain.follows.reference_ne ((hchain.complete marker).mpr ⟨hmarker, hscope⟩)

/-! ## Soundness of the machine -/

/-- What a request has established about its token. -/
def Submission.Vouched (signer : ConfirmationSigner) (signed : List (Text × Dashboard)) :
    Submission → Prop
  | .posted _ _ token | .loaded _ _ token =>
      ∀ text ∈ token, ConfirmationState.Knows signer signed text
  | .confirming userId projectId target =>
      (∃ project, (target.token, project) ∈ signed) ∧
        ∃ payload signedAt, signer.loads target.token = some (payload, signedAt) ∧
          payload.projectId = projectId ∧ payload.actorId = userId ∧
            payload.ownershipEpoch = target.expectedTransferId
  | .answered => True

theorem ConfirmationState.Knows.signed_more {signed later : List (Text × Dashboard)} {token : Text}
    (hknows : ConfirmationState.Knows signer signed token) (hmore : signed ⊆ later) :
    ConfirmationState.Knows signer later token := by
  intro hloads
  obtain ⟨project, hproject⟩ := hknows hloads
  exact ⟨project, hmore hproject⟩

theorem Submission.Vouched.signed_more {signed later : List (Text × Dashboard)}
    {submission : Submission} (hvouched : submission.Vouched signer signed)
    (hmore : signed ⊆ later) : submission.Vouched signer later := by
  cases submission with
  | posted userId projectId token =>
      exact fun text htext => (hvouched text htext).signed_more hmore
  | loaded userId project token =>
      exact fun text htext => (hvouched text htext).signed_more hmore
  | confirming userId projectId target =>
      obtain ⟨⟨project, hproject⟩, hpayload⟩ := hvouched
      exact ⟨⟨project, hmore hproject⟩, hpayload⟩
  | answered => trivial

theorem loadTransferTarget_eq_some {db : Db} {token : Text} {project : Dashboard}
    {actorId : Uuid} {now : Time} {target : TransferTarget}
    (hload : loadTransferTarget signer db token project actorId now = some target) :
    target.token = token ∧ ∃ payload signedAt, signer.loads token = some (payload, signedAt) ∧
      payload.projectId = project.id ∧ payload.actorId = actorId ∧
        payload.ownershipEpoch = target.expectedTransferId := by
  simp only [loadTransferTarget, Option.bind_eq_bind, Option.bind_eq_some_iff,
    Option.guard_eq_some', exists_const, Option.pure_def, Option.some.injEq, Prod.exists] at hload
  obtain ⟨_, payload, signedAt, hloads, _, ⟨_, hproject, hactor⟩, _, _, incoming, _, rfl⟩ := hload
  exact ⟨rfl, payload, signedAt, hloads, hproject, hactor, rfl⟩

/-- The invariant of all interleavings. -/
structure ConfirmationState.Sound (platform : Platform) (signer : ConfirmationSigner)
    (state : ConfirmationState) : Prop where
  reached : (serviceSystem platform).Reachable state.db
  proposed : ∀ proposal ∈ state.proposals, proposal.2.ownerId = proposal.1
  signed : ∀ entry ∈ state.signed, ∃ incomingOwnerId signedAt, entry.1 =
    signer.dumps (signedConfirmation entry.2 entry.2.ownerId incomingOwnerId) signedAt
  vouched : ∀ index submission, state.submissions index = some submission →
    submission.Vouched signer state.signed
  spent : ∀ entry ∈ state.effected, ∃ payload signedAt, ∃ marker ∈ state.db.transfers,
    signer.loads entry.1 = some (payload, signedAt) ∧ marker.id = entry.2 ∧
      marker.dashboardId = payload.projectId ∧ marker.previousTransferId = payload.ownershipEpoch
  once : (state.effected.map Prod.fst).Nodup

namespace ConfirmationState

variable {state : ConfirmationState}

theorem Sound.settled (hsound : state.Sound platform signer) (call : ServiceCall) :
    ({ state with db := (call.body platform).settle state.db } : ConfirmationState).Sound
      platform signer where
  reached := hsound.reached.step rfl
  proposed := hsound.proposed
  signed := hsound.signed
  vouched := hsound.vouched
  spent := by
    intro entry hentry
    obtain ⟨payload, signedAt, marker, hmarker, hscope⟩ := hsound.spent entry hentry
    have hchanges : Changes call.operation.effects state.db
        ((call.body platform).settle state.db) := call.settle_changes state.db
    obtain ⟨later, hlater, hsame⟩ := hchanges.evolves.transfers _ _ (Table.get?_of_mem hmarker)
    cases hsame
    exact ⟨payload, signedAt, marker, Table.mem_of_get? hlater, hscope⟩
  once := hsound.once

theorem Sound.answered (hsound : state.Sound platform signer) (index : ℕ)
    {submission : Submission} (hvouched : submission.Vouched signer state.signed) :
    (state.answer index submission).Sound platform signer where
  reached := hsound.reached
  proposed := hsound.proposed
  signed := hsound.signed
  vouched := by
    intro other found hfound
    change Function.update state.submissions index (some submission) other = some found at hfound
    by_cases hother : other = index
    · rw [hother, Function.update_self] at hfound
      cases hfound
      exact hvouched
    · rw [Function.update_of_ne hother] at hfound
      exact hsound.vouched other found hfound
  spent := hsound.spent
  once := hsound.once

/-- A token moves its dashboard from the owner and the last transfer it was signed for, to
the transfer of a new marker. -/
structure Moves (signer : ConfirmationSigner) (state : ConfirmationState) (later : Db)
    (token : Text) (markerId : Uuid) : Prop where
  signed : ∃ project, (token, project) ∈ state.signed
  current : ∀ project, (token, project) ∈ state.signed → ∃ dashboard moved,
    state.db.dashboards.get? project.id = some dashboard ∧
      dashboard.ownerId = project.ownerId ∧
        dashboard.lastOwnershipTransferId = project.lastOwnershipTransferId ∧
          later.dashboards.get? project.id = some moved ∧
            moved.lastOwnershipTransferId = some markerId
  fresh : token ∉ state.effected.map Prod.fst
  marked : ∃ payload signedAt, ∃ marker ∈ later.transfers,
    signer.loads token = some (payload, signedAt) ∧ marker.id = markerId ∧
      marker.dashboardId = payload.projectId ∧ marker.previousTransferId = payload.ownershipEpoch

theorem Sound.loads_signed (hsound : state.Sound platform signer) {token : Text}
    {project : Dashboard} (hsigned : (token, project) ∈ state.signed) :
    ∃ incomingOwnerId signedAt, signer.loads token =
      some (signedConfirmation project project.ownerId incomingOwnerId, signedAt) := by
  obtain ⟨incomingOwnerId, signedAt, htoken⟩ := hsound.signed _ hsigned
  have htoken : token = _ := htoken
  exact ⟨incomingOwnerId, signedAt, by rw [htoken, signer.loads_dumps]⟩

theorem Sound.moves (hsound : state.Sound platform signer) {index : ℕ}
    {userId projectId : Uuid} {target : TransferTarget} {context : CallContext}
    {transferredAt : Time} {transferred : Dashboard} {later : Db}
    (hconfirming : state.submissions index = some (.confirming userId projectId target))
    (hruns : ((target.call userId projectId context transferredAt).body platform).Runs
      state.db transferred later) :
    Moves signer state later target.token (context.uuid 0) := by
  obtain ⟨hsigned, payload, signedAt, hloads, hproject, hactor, hepoch⟩ :=
    hsound.vouched index _ hconfirming
  have hmoves := transferDashboardOwnership_moves (ServiceCall.runs_body.mp hruns)
  obtain ⟨dashboard, marker, hdashboard, hexpected, howner, hmarker, hmarkerId, hscope,
    hprevious, hmoved, _, hlast⟩ := hmoves
  have hdashboard : state.db.dashboards.get? projectId = some dashboard := hdashboard
  have hepoch : payload.ownershipEpoch = dashboard.lastOwnershipTransferId :=
    hepoch.trans (hexpected _ rfl).symm
  have hid : dashboard.id = projectId := Table.key_of_get? hdashboard
  refine {
    signed := hsigned
    current := ?_
    fresh := ?_
    marked := ⟨payload, signedAt, marker, hmarker, hloads, hmarkerId,
      hscope.trans hproject.symm, hprevious.trans hepoch.symm⟩ }
  · intro project hsigned
    obtain ⟨incomingOwnerId, other, hown⟩ := hsound.loads_signed hsigned
    have hpayload : payload = signedConfirmation project project.ownerId incomingOwnerId := by
      rw [hloads] at hown
      exact congrArg Prod.fst (Option.some.inj hown)
    have hsame : projectId = project.id := by
      rw [← hproject, hpayload]
      rfl
    rw [← hsame]
    refine ⟨dashboard, transferred, hdashboard, ?_, ?_, hmoved,
      hlast.trans (congrArg some hmarkerId)⟩
    · rw [howner, ← hactor, hpayload]
      rfl
    · rw [← hepoch, hpayload]
      rfl
  · intro hspent
    obtain ⟨entry, hentry, htoken⟩ := List.mem_map.mp hspent
    obtain ⟨spentPayload, spentAt, spent, hstored, hspentLoads, _, hspentScope, hspentEpoch⟩ :=
      hsound.spent entry hentry
    have hpayload : spentPayload = payload := by
      rw [htoken, hloads] at hspentLoads
      exact (congrArg Prod.fst (Option.some.inj hspentLoads)).symm
    refine unused_epoch hsound.reached (Table.mem_of_get? hdashboard) hstored ?_ ?_
    · rw [hspentScope, hpayload, hproject, hid]
    · rw [hspentEpoch, hpayload, hepoch]

theorem Sound.transfer (hsound : state.Sound platform signer) {index : ℕ}
    {userId projectId : Uuid} {target : TransferTarget} {context : CallContext}
    {transferredAt : Time}
    (hconfirming : state.submissions index = some (.confirming userId projectId target)) :
    (state.transfer platform index target
      (target.call userId projectId context transferredAt)).Sound platform signer := by
  have hvouched : Submission.answered.Vouched signer state.signed := trivial
  have hsettled := (hsound.answered index hvouched).settled
    (target.call userId projectId context transferredAt)
  cases hvalue : ((target.call userId projectId context transferredAt).body platform).value?
      state.db with
  | none => simpa [ConfirmationState.transfer, hvalue, answer] using hsettled
  | some transferred =>
      have hmoves := hsound.moves hconfirming (runs_of_value? hvalue)
      have heffected : (state.transfer platform index target
          (target.call userId projectId context transferredAt)).effected =
            (target.token, context.uuid 0) :: state.effected := by
        simp only [ConfirmationState.transfer, hvalue]
        rfl
      refine {
        reached := hsettled.reached
        proposed := hsettled.proposed
        signed := hsettled.signed
        vouched := hsettled.vouched
        spent := ?_
        once := ?_ }
      · intro entry hentry
        rw [heffected, List.mem_cons] at hentry
        rcases hentry with rfl | hold
        · exact hmoves.marked
        · exact hsettled.spent entry hold
      · rw [heffected, List.map_cons]
        exact List.nodup_cons.mpr ⟨hmoves.fresh, hsound.once⟩

theorem Sound.step {later : ConfirmationState} {event : ConfirmationEvent}
    (hsound : state.Sound platform signer)
    (hstep : ConfirmationStep platform signer state event later) :
    later.Sound platform signer := by
  cases hstep with
  | served call => exact hsound.settled call
  | @proposed userId projectId project hproject hstate =>
      refine { hsound with proposed := ?_ }
      intro proposal hproposal
      rcases List.mem_cons.mp hproposal with rfl | hold
      · simp only [Db.manageableProject, Option.filter_eq_some_iff, decide_eq_true_eq] at hproject
        exact hproject.2.1
      · exact hsound.proposed proposal hold
  | @signed userId project incomingOwner signedAt hproposal hincoming hother =>
      refine { hsound with signed := ?_, vouched := ?_ }
      · intro entry hentry
        rcases List.mem_cons.mp hentry with rfl | hold
        · exact ⟨incomingOwner.id, signedAt, by rw [hsound.proposed _ hproposal]⟩
        · exact hsound.signed entry hold
      · intro index submission hsubmission
        exact (hsound.vouched index submission hsubmission).signed_more (List.subset_cons_self _ _)
  | posted hnew hunforged => exact hsound.answered _ hunforged
  | @loaded index userId projectId token hposted =>
      refine hsound.answered index ?_
      unfold viewProject
      have hknows := hsound.vouched index _ hposted
      split
      · exact hknows
      · trivial
  | @checked index userId project token now confirmed hloaded =>
      refine hsound.answered index ?_
      have hknows := hsound.vouched index _ hloaded
      unfold viewConfirmation
      split
      · rename_i target htarget
        obtain ⟨text, htext, hload⟩ := Option.bind_eq_some_iff.mp htarget
        obtain ⟨htoken, payload, signedAt, hloads, hpayload⟩ := loadTransferTarget_eq_some hload
        split
        · rw [← htoken] at hloads htext
          have hsigned := hknows target.token htext
          exact ⟨hsigned (by simp [hloads]), payload, signedAt, hloads, hpayload⟩
        · trivial
      · trivial
  | transferred hconfirming => exact hsound.transfer hconfirming

theorem sound_of_reachable (hreach : (confirmationSystem platform signer).Reachable state) :
    state.Sound platform signer := by
  refine hreach.invariant ?_ fun before event later hsound hstep => hsound.step hstep
  intro start hstart
  have hstart : start = ⟨Db.empty, [], [], fun _ => none, []⟩ := hstart
  rw [hstart]
  exact {
    reached := .initial rfl
    proposed := by simp
    signed := by simp
    vouched := by simp
    spent := by simp
    once := .nil }

end ConfirmationState

/-- Every token moves its dashboard at most once, and only from the owner and the last
transfer that it was signed for. -/
theorem transfer_confirmation_effective_once {state : ConfirmationState}
    (hreach : (confirmationSystem platform signer).Reachable state) :
    (state.effected.map Prod.fst).Nodup ∧
      ∀ event later, (confirmationSystem platform signer).step state event later →
        later.effected = state.effected ∨ ∃ token markerId,
          later.effected = (token, markerId) :: state.effected ∧
            ConfirmationState.Moves signer state later.db token markerId := by
  have hsound := ConfirmationState.sound_of_reachable hreach
  refine ⟨hsound.once, ?_⟩
  intro event later hstep
  cases hstep with
  | @transferred index userId projectId target context transferredAt hconfirming =>
      cases hvalue : ((target.call userId projectId context transferredAt).body platform).value?
          state.db with
      | none =>
          left
          simp only [ConfirmationState.transfer, hvalue, ConfirmationState.answer]
      | some transferred =>
          right
          refine ⟨target.token, context.uuid 0, ?_, hsound.moves hconfirming
            (runs_of_value? hvalue)⟩
          simp only [ConfirmationState.transfer, hvalue]
          rfl
  | _ => exact .inl rfl

/-! ## A signer for computed runs -/

def TransferConfirmation.fields (payload : TransferConfirmation) (signedAt : ℤ) : List ℕ :=
  [payload.version, payload.projectId, payload.actorId, payload.incomingOwnerId,
    Encodable.encode payload.ownershipEpoch, Equiv.intEquivNat signedAt]

def confirmationOfFields : List ℕ → Option (TransferConfirmation × ℤ)
  | [version, projectId, actorId, incomingOwnerId, epoch, signedAt] => do
      let ownershipEpoch ← Encodable.decode epoch
      pure (⟨version, projectId, actorId, incomingOwnerId, ownershipEpoch⟩,
        Equiv.intEquivNat.symm signedAt)
  | _ => none

/-- Numbers are written in unary and separated by dots. -/
def unarySigner : ConfirmationSigner where
  dumps payload signedAt :=
    ['.'].intercalate ((payload.fields signedAt).map fun field => List.replicate field 'x')
  loads text := confirmationOfFields ((text.splitOn '.').map List.length)
  loads_dumps payload signedAt := by
    have hseparated : ∀ field ∈ (payload.fields signedAt).map fun field =>
        List.replicate field 'x', '.' ∉ field := by
      intro field hfield
      obtain ⟨number, _, rfl⟩ := List.mem_map.mp hfield
      simp
    rw [List.splitOn_intercalate '.' hseparated (by simp [TransferConfirmation.fields])]
    simp [TransferConfirmation.fields, confirmationOfFields]

/-- Calls may be served one after the other. -/
theorem path_served (state : ConfirmationState) (calls : List ServiceCall) :
    (confirmationSystem platform signer).Path state (calls.map .serve)
      { state with db := runFrom platform state.db calls } := by
  induction calls generalizing state with
  | nil => exact .refl state
  | cons call rest ih => exact .cons (.served call) (ih _)

/-- A token that is signed, posted and confirmed at once moves the dashboard. -/
theorem reachable_confirmed {db : Db} {projectId userId incomingOwnerId : Uuid}
    {project : Dashboard} {incoming : User}
    {target : TransferTarget} {context : CallContext} {now transferredAt : Time} {signedAt : ℤ}
    {transferred : Dashboard}
    (hserved : (confirmationSystem platform signer).Reachable ⟨db, [], [], fun _ => none, []⟩)
    (hproject : db.manageableProject projectId userId = some project)
    (hstate : project.state.transferable = true)
    (hincoming : db.activeUser incomingOwnerId = some incoming)
    (hother : incomingOwnerId ≠ userId)
    (hload : loadTransferTarget signer db
      (signer.dumps (signedConfirmation project userId incoming.id) signedAt) project userId now =
        some target)
    (hvalue : ((target.call userId project.id context transferredAt).body platform).value? db =
      some transferred) :
    ∃ state, (confirmationSystem platform signer).Reachable state ∧ state.effected ≠ [] := by
  have hprojectId : projectId = project.id := by
    simp only [Db.manageableProject, Option.filter_eq_some_iff] at hproject
    exact (Table.key_of_get? hproject.1).symm
  have hincomingId : incomingOwnerId = incoming.id :=
    (Table.key_of_get? (activeUser_eq_some hincoming).1).symm
  rw [hprojectId] at hproject
  rw [hincomingId] at hincoming hother
  let token := signer.dumps (signedConfirmation project userId incoming.id) signedAt
  let signed : ConfirmationState :=
    ⟨db, [(userId, project)], [(token, project)], fun _ => none, []⟩
  let posted := signed.answer 0 (.posted userId project.id (some token))
  let loaded := posted.answer 0 (viewProject db userId project.id (some token))
  let checked := loaded.answer 0
    (viewConfirmation signer db now true userId project (some token))
  have hproposed : (confirmationSystem platform signer).Reachable
      ⟨db, [(userId, project)], [], fun _ => none, []⟩ :=
    hserved.step (.proposed hproject hstate)
  have hsigned : (confirmationSystem platform signer).Reachable signed :=
    hproposed.step (.signed (List.mem_singleton.mpr rfl) hincoming hother)
  have hposted : (confirmationSystem platform signer).Reachable posted := by
    refine hsigned.step (.posted rfl ?_)
    intro text htext _
    cases htext
    exact ⟨project, List.mem_singleton.mpr rfl⟩
  have hview : viewProject db userId project.id (some token) =
      .loaded userId project (some token) := by
    unfold viewProject
    rw [hproject, Option.filter_some, if_pos hstate]
  have hconfirm : viewConfirmation signer db now true userId project (some token) =
      .confirming userId project.id target := by
    unfold viewConfirmation
    rw [Option.bind_some, hload]
    rfl
  have hloaded : (confirmationSystem platform signer).Reachable loaded :=
    hposted.step (.loaded (ConfirmationState.answer_submissions _ _ _))
  have hchecked : (confirmationSystem platform signer).Reachable checked := by
    refine hloaded.step (.checked ?_)
    rw [← hview]
    exact ConfirmationState.answer_submissions _ _ _
  have hconfirming : checked.submissions 0 = some (.confirming userId project.id target) := by
    rw [← hconfirm]
    exact ConfirmationState.answer_submissions _ _ _
  let call := target.call userId project.id context transferredAt
  have htransferred : (confirmationSystem platform signer).Reachable
      (checked.transfer platform 0 target call) :=
    hchecked.step (.transferred hconfirming)
  refine ⟨_, htransferred, ?_⟩
  have hcommit : (call.body platform).value? checked.db = some transferred := hvalue
  simp [ConfirmationState.transfer, hcommit]

/-- After a transfer and its return, a new token is confirmed. -/
theorem returned_dashboard_confirmed_once :
    ∃ state, (confirmationSystem asciiPlatform unarySigner).Reachable state ∧
      state.effected ≠ [] ∧ (state.effected.map Prod.fst).Nodup ∧
        ∀ event later, (confirmationSystem asciiPlatform unarySigner).step state event later →
          later.effected = state.effected ∨ ∃ token markerId,
            later.effected = (token, markerId) :: state.effected ∧
              ConfirmationState.Moves unarySigner state later.db token markerId := by
  have hcomputed : ((((runCalls asciiPlatform returnedCalls).manageableProject 3 1).filter
      fun project => project.state.transferable).bind fun project =>
        ((runCalls asciiPlatform returnedCalls).activeUser 2).bind fun incoming =>
          (loadTransferTarget unarySigner (runCalls asciiPlatform returnedCalls)
            (unarySigner.dumps (signedConfirmation project 1 incoming.id) 0) project 1 0).bind
              fun target => ((target.call 1 project.id (contextAt 10 10) 10).body
                asciiPlatform).value? (runCalls asciiPlatform returnedCalls)).isSome := by
    decide +kernel
  obtain ⟨transferred, hcomputed⟩ := Option.isSome_iff_exists.mp hcomputed
  obtain ⟨project, hview, hcomputed⟩ := Option.bind_eq_some_iff.mp hcomputed
  obtain ⟨incoming, hactive, hcomputed⟩ := Option.bind_eq_some_iff.mp hcomputed
  obtain ⟨target, hload, hvalue⟩ := Option.bind_eq_some_iff.mp hcomputed
  obtain ⟨hproject, hstate⟩ := Option.filter_eq_some_iff.mp hview
  have hserved : (confirmationSystem asciiPlatform unarySigner).Reachable
      ⟨runCalls asciiPlatform returnedCalls, [], [], fun _ => none, []⟩ :=
    ⟨_, _, rfl, path_served ⟨Db.empty, [], [], fun _ => none, []⟩ returnedCalls⟩
  obtain ⟨state, hreach, heffected⟩ := reachable_confirmed hserved hproject hstate hactive
    (by decide) hload hvalue
  exact ⟨state, hreach, heffected, transfer_confirmation_effective_once hreach⟩

end Agora
