import Agora.ServiceRuns

/-!
# Grants, their owners and their audit events

The access invariant says who may hold an unrevoked grant or a pending request;
`Recorded` says that the audit events of one type name exactly the grants with
one property, each once.  Both are kept by every change, and together they let
the active grants be recomputed from the audit log.
-/

namespace Agora

open Transaction

variable {effects : Set Effect}

/-! ## Owners -/

structure AccessInvariant (dashboards : Table Dashboard) (grants : Table ViewerGrant)
    (accessRequests : Table AccessRequest) : Prop where
  grantOwner : ∀ grant ∈ grants, ∃ dashboard,
    dashboards.get? grant.dashboardId = some dashboard ∧
      (grant.revokedAt = none → grant.viewerId ≠ dashboard.ownerId)
  requestOwner : ∀ request ∈ accessRequests, ∃ dashboard,
    dashboards.get? request.dashboardId = some dashboard ∧
      (request.status = .pending → request.requesterId ≠ dashboard.ownerId)
  oneUnrevoked : ∀ first ∈ grants, ∀ second ∈ grants,
    first.dashboardId = second.dashboardId → first.viewerId = second.viewerId →
      first.revokedAt = none → second.revokedAt = none → first = second

namespace AccessInvariant

variable {dashboards : Table Dashboard} {grants : Table ViewerGrant}
  {accessRequests : Table AccessRequest}

theorem initial : AccessInvariant .empty .empty .empty where
  grantOwner := by simp
  requestOwner := by simp
  oneUnrevoked := by simp

/-- New dashboards and changes that keep the owners keep the invariant, and so does
a new owner without an unrevoked grant or a pending request. -/
theorem withDashboards {next : Table Dashboard}
    (hgood : AccessInvariant dashboards grants accessRequests)
    (hnext : ∀ id dashboard, dashboards.get? id = some dashboard →
      ∃ later, next.get? id = some later ∧
        (later.ownerId = dashboard.ownerId ∨
          (∀ grant ∈ grants, grant.dashboardId = id → grant.viewerId = later.ownerId →
            grant.revokedAt ≠ none) ∧
          ∀ request ∈ accessRequests, request.dashboardId = id →
            request.requesterId = later.ownerId → request.status ≠ .pending)) :
    AccessInvariant next grants accessRequests where
  grantOwner := by
    intro grant hgrant
    rcases hgood.grantOwner grant hgrant with ⟨dashboard, hdashboard, howner⟩
    rcases hnext _ _ hdashboard with ⟨later, hlater, hsame | hnew⟩
    · exact ⟨later, hlater, by rwa [hsame]⟩
    · exact ⟨later, hlater, fun hactive hviewer =>
        hnew.1 grant hgrant rfl hviewer hactive⟩
  requestOwner := by
    intro request hrequest
    rcases hgood.requestOwner request hrequest with ⟨dashboard, hdashboard, howner⟩
    rcases hnext _ _ hdashboard with ⟨later, hlater, hsame | hnew⟩
    · exact ⟨later, hlater, by rwa [hsame]⟩
    · exact ⟨later, hlater, fun hpending hrequester =>
        hnew.2 request hrequest rfl hrequester hpending⟩
  oneUnrevoked := hgood.oneUnrevoked

theorem withSavedDashboard {row original : Dashboard}
    (hgood : AccessInvariant dashboards grants accessRequests)
    (horiginal : dashboards.get? row.id = some original)
    (howner : row.ownerId = original.ownerId) :
    AccessInvariant (dashboards.replace row) grants accessRequests := by
  refine hgood.withDashboards ?_
  intro id dashboard hdashboard
  by_cases hid : Keyed.key row = id
  · subst hid
    cases Option.some.inj (horiginal.symm.trans hdashboard)
    exact ⟨row, Table.get?_replace_self horiginal, .inl howner⟩
  · exact ⟨dashboard, by rwa [Table.get?_replace_of_ne hid], .inl rfl⟩

theorem withGrant {grant : ViewerGrant} {dashboard : Dashboard} {next : Table ViewerGrant}
    (hgood : AccessInvariant dashboards grants accessRequests)
    (hdashboard : dashboards.get? grant.dashboardId = some dashboard)
    (hviewer : grant.viewerId ≠ dashboard.ownerId)
    (hnone : grants.where? (ViewerGrant.isActiveFor grant.dashboardId grant.viewerId) = [])
    (hcreate : grants.create grant = some next) :
    AccessInvariant dashboards next accessRequests where
  grantOwner := by
    intro other hother
    rcases (Table.mem_of_create hcreate).mp hother with rfl | hold
    · exact ⟨dashboard, hdashboard, fun _ => hviewer⟩
    · exact hgood.grantOwner other hold
  requestOwner := hgood.requestOwner
  oneUnrevoked := by
    have habsent : ∀ other ∈ grants, other.dashboardId = grant.dashboardId →
        other.viewerId = grant.viewerId → other.revokedAt ≠ none := by
      intro other hother hdash hview hactive
      have hselected : other ∈
          grants.where? (ViewerGrant.isActiveFor grant.dashboardId grant.viewerId) := by
        simp [ViewerGrant.isActiveFor, hother, hdash, hview, hactive]
      rw [hnone] at hselected
      simp at hselected
    intro first hfirst second hsecond hdash hview hfirstActive hsecondActive
    rcases (Table.mem_of_create hcreate).mp hfirst with rfl | hfirst
    · rcases (Table.mem_of_create hcreate).mp hsecond with rfl | hsecond
      · rfl
      · exact absurd hsecondActive (habsent second hsecond hdash.symm hview.symm)
    · rcases (Table.mem_of_create hcreate).mp hsecond with rfl | hsecond
      · exact absurd hfirstActive (habsent first hfirst hdash hview)
      · exact hgood.oneUnrevoked first hfirst second hsecond hdash hview hfirstActive
          hsecondActive

theorem withRevocation {grant original : ViewerGrant}
    (hgood : AccessInvariant dashboards grants accessRequests)
    (horiginal : grants.get? grant.id = some original)
    (hdashboard : grant.dashboardId = original.dashboardId)
    (hrevoked : grant.revokedAt ≠ none) :
    AccessInvariant dashboards (grants.replace grant) accessRequests where
  grantOwner := by
    intro other hother
    rcases (Table.mem_replace horiginal).mp hother with rfl | ⟨hold, _⟩
    · rcases hgood.grantOwner original (Table.mem_of_get? horiginal) with ⟨dashboard, hget, _⟩
      exact ⟨dashboard, by rwa [hdashboard], fun hactive => absurd hactive hrevoked⟩
    · exact hgood.grantOwner other hold
  requestOwner := hgood.requestOwner
  oneUnrevoked := by
    intro first hfirst second hsecond hdash hview hfirstActive hsecondActive
    rcases (Table.mem_replace horiginal).mp hfirst with rfl | ⟨hfirst, _⟩
    · exact absurd hfirstActive hrevoked
    · rcases (Table.mem_replace horiginal).mp hsecond with rfl | ⟨hsecond, _⟩
      · exact absurd hsecondActive hrevoked
      · exact hgood.oneUnrevoked first hfirst second hsecond hdash hview hfirstActive
          hsecondActive

theorem withRequest {row : AccessRequest} {dashboard : Dashboard} {next : Table AccessRequest}
    (hgood : AccessInvariant dashboards grants accessRequests)
    (hdashboard : dashboards.get? row.dashboardId = some dashboard)
    (hrequester : row.requesterId ≠ dashboard.ownerId)
    (hcreate : accessRequests.create row = some next) :
    AccessInvariant dashboards grants next where
  grantOwner := hgood.grantOwner
  requestOwner := by
    intro request hrequest
    rcases (Table.mem_of_create hcreate).mp hrequest with rfl | hold
    · exact ⟨dashboard, hdashboard, fun _ => hrequester⟩
    · exact hgood.requestOwner request hold
  oneUnrevoked := hgood.oneUnrevoked

theorem withSavedRequest {row original : AccessRequest}
    (hgood : AccessInvariant dashboards grants accessRequests)
    (horiginal : accessRequests.get? row.id = some original)
    (hscope : row.dashboardId = original.dashboardId)
    (hrequester : row.requesterId = original.requesterId)
    (hpending : row.status = .pending → original.status = .pending ∨
      ∃ dashboard ∈ dashboards.get? row.dashboardId, row.requesterId ≠ dashboard.ownerId) :
    AccessInvariant dashboards grants (accessRequests.replace row) where
  grantOwner := hgood.grantOwner
  requestOwner := by
    intro request hrequest
    rcases (Table.mem_replace horiginal).mp hrequest with rfl | ⟨hold, _⟩
    · rcases hgood.requestOwner original (Table.mem_of_get? horiginal) with
        ⟨dashboard, hget, howner⟩
      rw [← hscope] at hget
      refine ⟨dashboard, hget, ?_⟩
      intro hstatus
      rcases hpending hstatus with hbefore | ⟨other, hother, hdiffers⟩
      · rw [hrequester]
        exact howner hbefore
      · cases Option.some.inj (hget.symm.trans hother)
        exact hdiffers
    · exact hgood.requestOwner request hold
  oneUnrevoked := hgood.oneUnrevoked

theorem change {before after : Db}
    (hgood : AccessInvariant before.dashboards before.grants before.accessRequests)
    (hchange : Change effects before after) :
    AccessInvariant after.dashboards after.grants after.accessRequests := by
  cases hchange with
  | dashboardInserted hcreate _ _ _ =>
      refine hgood.withDashboards ?_
      intro id dashboard hdashboard
      refine ⟨dashboard, ?_, .inl rfl⟩
      have hne := Table.fresh_of_create hcreate dashboard (Table.mem_of_get? hdashboard)
      rw [Table.key_of_get? hdashboard] at hne
      rw [Table.get?_of_create hcreate, if_neg hne.symm]
      exact hdashboard
  | dashboardSaved horiginal hsaved =>
      exact hgood.withSavedDashboard horiginal hsaved.owner
  | @ownershipTransferred marker transfers stored row _ hstored _ hgrants hrequests =>
      refine hgood.withDashboards ?_
      intro id dashboard hdashboard
      by_cases hid : Keyed.key row = id
      · subst hid
        exact ⟨row, Table.get?_replace_self hstored, .inr ⟨hgrants, hrequests⟩⟩
      · exact ⟨dashboard, by rwa [Table.get?_replace_of_ne hid], .inl rfl⟩
  | grantCreated hdashboard hviewer _ hnone hcreate _ _ =>
      exact hgood.withGrant hdashboard hviewer hnone hcreate
  | grantRevoked horiginal _ hdashboard _ hrevoked _ _ =>
      exact hgood.withRevocation horiginal hdashboard hrevoked
  | @revisionCommitted _ _ _ stored written _ _ _ hstored _ _ hsaved =>
      exact hgood.withSavedDashboard hstored hsaved.owner
  | requestOpened hdashboard hrequester hcreate =>
      exact hgood.withRequest hdashboard hrequester hcreate
  | requestReopened horiginal hscope hsame hdashboard hrequester =>
      exact hgood.withSavedRequest horiginal hscope hsame
        fun _ => .inr ⟨_, hdashboard, hrequester⟩
  | requestResolved horiginal hscope hsame _ hresolved =>
      exact hgood.withSavedRequest horiginal hscope hsame
        fun hpending => absurd hpending hresolved
  | _ => exact hgood

end AccessInvariant

/-! ## Audit events of grants -/

/-- Two versions of one grant epoch. -/
def ViewerGrant.SameEpoch (first second : ViewerGrant) : Prop :=
  first.id = second.id ∧ first.dashboardId = second.dashboardId ∧
    first.viewerId = second.viewerId

theorem AuditEvent.Concerns.of_sameEpoch {event : AuditEvent} {eventType : AuditEventType}
    {first second : ViewerGrant} (hconcerns : event.Concerns eventType first)
    (hsame : first.SameEpoch second) : event.Concerns eventType second := by
  rcases hconcerns with ⟨htype, hdashboard, hviewer, hmetadata⟩
  rcases hsame with ⟨hid, hdash, hview⟩
  exact ⟨htype, hdash ▸ hdashboard, hview ▸ hviewer, hid ▸ hmetadata⟩

theorem AuditEvent.Concerns.id_eq {first second : AuditEvent} {eventType : AuditEventType}
    {grant other : ViewerGrant} (hfirst : first.Concerns eventType grant)
    (hsecond : second.Concerns eventType other) (hmetadata : first.metadata = second.metadata) :
    grant.id = other.id := by
  rw [hfirst.2.2.2, hsecond.2.2.2] at hmetadata
  simpa using hmetadata

/-- The events of a type name exactly the recorded grants, each once. -/
structure Recorded (eventType : AuditEventType) (recorded : ViewerGrant → Prop)
    (grants : Table ViewerGrant) (audits : Table AuditEvent) : Prop where
  covered : ∀ grant ∈ grants, recorded grant → ∃ event ∈ audits, event.Concerns eventType grant
  once : ∀ first ∈ audits, ∀ second ∈ audits, first.eventType = eventType →
    second.eventType = eventType → first.metadata = second.metadata → first = second
  sourced : ∀ event ∈ audits, event.eventType = eventType →
    ∃ grant ∈ grants, recorded grant ∧ event.Concerns eventType grant

namespace Recorded

variable {eventType : AuditEventType} {recorded : ViewerGrant → Prop}
  {grants next : Table ViewerGrant} {audits audited : Table AuditEvent} {event : AuditEvent}

theorem initial : Recorded eventType recorded .empty .empty where
  covered := by simp
  once := by simp
  sourced := by simp

/-- An event of another type, with a change of the grants that keeps the recorded
epochs. -/
theorem withOther (hgood : Recorded eventType recorded grants audits)
    (hcreate : audits.create event = some audited) (htype : event.eventType ≠ eventType)
    (hback : ∀ grant ∈ next, recorded grant →
      ∃ old ∈ grants, recorded old ∧ old.SameEpoch grant)
    (hkept : ∀ grant ∈ grants, recorded grant →
      ∃ later ∈ next, recorded later ∧ grant.SameEpoch later) :
    Recorded eventType recorded next audited where
  covered := by
    intro grant hgrant hrecorded
    rcases hback grant hgrant hrecorded with ⟨old, hold, holdRecorded, hsame⟩
    rcases hgood.covered old hold holdRecorded with ⟨entry, hentry, hconcerns⟩
    exact ⟨entry, (Table.mem_of_create hcreate).mpr (.inr hentry),
      hconcerns.of_sameEpoch hsame⟩
  once := by
    intro first hfirst second hsecond hfirstType hsecondType
    rcases (Table.mem_of_create hcreate).mp hfirst with rfl | hfirst
    · exact absurd hfirstType htype
    rcases (Table.mem_of_create hcreate).mp hsecond with rfl | hsecond
    · exact absurd hsecondType htype
    exact hgood.once first hfirst second hsecond hfirstType hsecondType
  sourced := by
    intro entry hentry hentryType
    rcases (Table.mem_of_create hcreate).mp hentry with rfl | hentry
    · exact absurd hentryType htype
    rcases hgood.sourced entry hentry hentryType with ⟨grant, hgrant, hrecorded, hconcerns⟩
    rcases hkept grant hgrant hrecorded with ⟨later, hlater, hlaterRecorded, hsame⟩
    exact ⟨later, hlater, hlaterRecorded, hconcerns.of_sameEpoch hsame⟩

/-- The event of a grant that becomes recorded. -/
theorem withRecord {grant : ViewerGrant} (hgood : Recorded eventType recorded grants audits)
    (hcreate : audits.create event = some audited) (hevent : event.Concerns eventType grant)
    (hgrant : grant ∈ next) (hrecorded : recorded grant)
    (hnew : ∀ old ∈ grants, old.id = grant.id → ¬ recorded old)
    (hkept : ∀ old ∈ grants, old.id ≠ grant.id → old ∈ next)
    (hback : ∀ later ∈ next, later = grant ∨ later ∈ grants) :
    Recorded eventType recorded next audited where
  covered := by
    intro later hlater hlaterRecorded
    rcases hback later hlater with rfl | hold
    · exact ⟨event, (Table.mem_of_create hcreate).mpr (.inl rfl), hevent⟩
    · rcases hgood.covered later hold hlaterRecorded with ⟨entry, hentry, hconcerns⟩
      exact ⟨entry, (Table.mem_of_create hcreate).mpr (.inr hentry), hconcerns⟩
  once := by
    have hfresh : ∀ entry ∈ audits, entry.eventType = eventType →
        entry.metadata ≠ event.metadata := by
      intro entry hentry hentryType hmetadata
      rcases hgood.sourced entry hentry hentryType with ⟨old, hold, holdRecorded, hconcerns⟩
      exact hnew old hold (hconcerns.id_eq hevent hmetadata) holdRecorded
    intro first hfirst second hsecond hfirstType hsecondType hmetadata
    rcases (Table.mem_of_create hcreate).mp hfirst with rfl | hfirst
    · rcases (Table.mem_of_create hcreate).mp hsecond with rfl | hsecond
      · rfl
      · exact absurd hmetadata.symm (hfresh second hsecond hsecondType)
    · rcases (Table.mem_of_create hcreate).mp hsecond with rfl | hsecond
      · exact absurd hmetadata (hfresh first hfirst hfirstType)
      · exact hgood.once first hfirst second hsecond hfirstType hsecondType hmetadata
  sourced := by
    intro entry hentry hentryType
    rcases (Table.mem_of_create hcreate).mp hentry with rfl | hentry
    · exact ⟨grant, hgrant, hrecorded, hevent⟩
    rcases hgood.sourced entry hentry hentryType with ⟨old, hold, holdRecorded, hconcerns⟩
    have hne : old.id ≠ grant.id := fun heq => hnew old hold heq holdRecorded
    exact ⟨old, hkept old hold hne, holdRecorded, hconcerns⟩

end Recorded

/-- The audit log of grants: every grant was created, and exactly the revoked ones
were revoked. -/
structure GrantLog (grants : Table ViewerGrant) (audits : Table AuditEvent) : Prop where
  created : Recorded .grantCreated (fun _ => True) grants audits
  revoked : Recorded .grantRevoked (fun grant => grant.revokedAt ≠ none) grants audits

theorem ViewerGrant.SameEpoch.refl (grant : ViewerGrant) : grant.SameEpoch grant :=
  ⟨rfl, rfl, rfl⟩

theorem GrantLog.withCreation {grants next : Table ViewerGrant}
    {audits audited : Table AuditEvent} {grant : ViewerGrant} {event : AuditEvent}
    (hgood : GrantLog grants audits) (hunrevoked : grant.revokedAt = none)
    (hcreate : grants.create grant = some next) (hevent : event.Concerns .grantCreated grant)
    (haudits : audits.create event = some audited) : GrantLog next audited where
  created := by
    refine hgood.created.withRecord haudits hevent
      ((Table.mem_of_create hcreate).mpr (.inl rfl)) trivial ?_ ?_ ?_
    · intro old hold hid
      exact absurd hid (Table.fresh_of_create hcreate old hold)
    · intro old hold _
      exact (Table.mem_of_create hcreate).mpr (.inr hold)
    · intro later hlater
      exact (Table.mem_of_create hcreate).mp hlater
  revoked := by
    refine hgood.revoked.withOther haudits (by rw [hevent.1]; decide) ?_ ?_
    · intro later hlater hrevoked
      rcases (Table.mem_of_create hcreate).mp hlater with rfl | hold
      · exact absurd hunrevoked hrevoked
      · exact ⟨later, hold, hrevoked, .refl later⟩
    · intro old hold hrevoked
      exact ⟨old, (Table.mem_of_create hcreate).mpr (.inr hold), hrevoked, .refl old⟩

theorem GrantLog.withRevocation {grants : Table ViewerGrant}
    {audits audited : Table AuditEvent} {grant original : ViewerGrant} {event : AuditEvent}
    (hgood : GrantLog grants audits) (horiginal : grants.get? grant.id = some original)
    (hunrevoked : original.revokedAt = none) (hsame : original.SameEpoch grant)
    (hrevoked : grant.revokedAt ≠ none) (hevent : event.Concerns .grantRevoked grant)
    (haudits : audits.create event = some audited) :
    GrantLog (grants.replace grant) audited := by
  have hmem (other : ViewerGrant) : other ∈ grants.replace grant ↔
      other = grant ∨ (other ∈ grants ∧ other.id ≠ grant.id) := Table.mem_replace horiginal
  have hsole : ∀ old ∈ grants, old.id = grant.id → old = original := fun old hold hid =>
    Table.eq_of_key_eq hold (Table.mem_of_get? horiginal) (hid.trans hsame.1.symm)
  constructor
  · refine hgood.created.withOther haudits (by rw [hevent.1]; decide) ?_ ?_
    · intro later hlater _
      rcases (hmem later).mp hlater with rfl | ⟨hold, _⟩
      · exact ⟨original, Table.mem_of_get? horiginal, trivial, hsame⟩
      · exact ⟨later, hold, trivial, .refl later⟩
    · intro old hold _
      by_cases hid : old.id = grant.id
      · rw [hsole old hold hid]
        exact ⟨grant, (hmem grant).mpr (.inl rfl), trivial, hsame⟩
      · exact ⟨old, (hmem old).mpr (.inr ⟨hold, hid⟩), trivial, .refl old⟩
  · refine hgood.revoked.withRecord haudits hevent ((hmem grant).mpr (.inl rfl)) hrevoked
      ?_ ?_ ?_
    · intro old hold hid hbefore
      rw [hsole old hold hid] at hbefore
      exact hbefore hunrevoked
    · intro old hold hid
      exact (hmem old).mpr (.inr ⟨hold, hid⟩)
    · intro later hlater
      exact ((hmem later).mp hlater).imp_right And.left

/-- An event that records no grant. -/
theorem GrantLog.withEvent {grants : Table ViewerGrant} {audits audited : Table AuditEvent}
    {event : AuditEvent} (hgood : GrantLog grants audits)
    (haudits : audits.create event = some audited)
    (hcreated : event.eventType ≠ .grantCreated) (hrevoked : event.eventType ≠ .grantRevoked) :
    GrantLog grants audited := by
  constructor
  · exact hgood.created.withOther haudits hcreated
      (fun grant hgrant hrecorded => ⟨grant, hgrant, hrecorded, .refl grant⟩)
      (fun grant hgrant hrecorded => ⟨grant, hgrant, hrecorded, .refl grant⟩)
  · exact hgood.revoked.withOther haudits hrevoked
      (fun grant hgrant hrecorded => ⟨grant, hgrant, hrecorded, .refl grant⟩)
      (fun grant hgrant hrecorded => ⟨grant, hgrant, hrecorded, .refl grant⟩)

theorem GrantLog.change {before after : Db} (hgood : GrantLog before.grants before.audits)
    (hchange : Change effects before after) : GrantLog after.grants after.audits := by
  cases hchange with
  | grantCreated _ _ hunrevoked _ hcreate hevent haudits =>
      exact hgood.withCreation hunrevoked hcreate hevent haudits
  | grantRevoked horiginal hunrevoked hdashboard hviewer hrevoked hevent haudits =>
      exact hgood.withRevocation horiginal hunrevoked
        ⟨Table.key_of_get? horiginal, hdashboard.symm, hviewer.symm⟩ hrevoked hevent haudits
  | audited hunscoped haudits =>
      exact hgood.withEvent haudits
        (fun htype => by simp [htype, AuditEventType.isScoped] at hunscoped)
        (fun htype => by simp [htype, AuditEventType.isScoped] at hunscoped)
  | requestOpened _ _ _ _ hevent haudits =>
      exact hgood.withEvent haudits (by rw [hevent.1]; decide) (by rw [hevent.1]; decide)
  | requestReopened _ _ _ _ _ _ _ hevent haudits =>
      exact hgood.withEvent haudits (by rw [hevent.1]; decide) (by rw [hevent.1]; decide)
  | requestResolved _ _ _ _ _ hevent haudits =>
      exact hgood.withEvent haudits (by rw [hevent.1]; decide) (by rw [hevent.1]; decide)
  | _ => exact hgood

/-! ## The audit log alone -/

/-- The dashboard, the viewer and the identifier of the grant that an event names. -/
def AuditEvent.grantEpoch (event : AuditEvent) : Option (Uuid × Uuid × Uuid) :=
  match event.dashboardId, event.targetUserId, event.metadata with
  | some dashboardId, some viewerId, [("grant_id", .uuid grantId)] =>
      some (dashboardId, viewerId, grantId)
  | _, _, _ => none

/-- The grants that a log says were created. -/
def createdEpochs (log : List AuditEvent) : List (Uuid × Uuid × Uuid) :=
  (log.filter fun event => event.eventType = .grantCreated).filterMap AuditEvent.grantEpoch

def revokedEpochs (log : List AuditEvent) : List (Uuid × Uuid × Uuid) :=
  (log.filter fun event => event.eventType = .grantRevoked).filterMap AuditEvent.grantEpoch

/-- The active grants according to a log. -/
def activeEpochs (log : List AuditEvent) : List (Uuid × Uuid × Uuid) :=
  (createdEpochs log).filter fun epoch => epoch ∉ revokedEpochs log

def ViewerGrant.epoch (grant : ViewerGrant) : Uuid × Uuid × Uuid :=
  (grant.dashboardId, grant.viewerId, grant.id)

theorem AuditEvent.Concerns.grantEpoch_eq {event : AuditEvent} {eventType : AuditEventType}
    {grant : ViewerGrant} (hconcerns : event.Concerns eventType grant) :
    event.grantEpoch = some grant.epoch := by
  rcases hconcerns with ⟨_, hdashboard, hviewer, hmetadata⟩
  simp [AuditEvent.grantEpoch, hdashboard, hviewer, hmetadata, ViewerGrant.epoch]

theorem Recorded.mem_epochs {eventType : AuditEventType} {recorded : ViewerGrant → Prop}
    {grants : Table ViewerGrant} {audits : Table AuditEvent}
    (hgood : Recorded eventType recorded grants audits) {epoch : Uuid × Uuid × Uuid} :
    epoch ∈ (audits.rows.filter fun event => event.eventType = eventType).filterMap
        AuditEvent.grantEpoch ↔
      ∃ grant ∈ grants, recorded grant ∧ grant.epoch = epoch := by
  simp only [List.mem_filterMap, List.mem_filter, decide_eq_true_eq]
  constructor
  · rintro ⟨event, ⟨hevent, htype⟩, hepoch⟩
    rcases hgood.sourced event hevent htype with ⟨grant, hgrant, hrecorded, hconcerns⟩
    rw [hconcerns.grantEpoch_eq] at hepoch
    exact ⟨grant, hgrant, hrecorded, Option.some.inj hepoch⟩
  · rintro ⟨grant, hgrant, hrecorded, rfl⟩
    rcases hgood.covered grant hgrant hrecorded with ⟨event, hevent, hconcerns⟩
    exact ⟨event, ⟨hevent, hconcerns.1⟩, hconcerns.grantEpoch_eq⟩

/-- The audit events of a type about a grant. -/
def Db.grantEvents (db : Db) (eventType : AuditEventType) (grant : ViewerGrant) :
    List AuditEvent :=
  db.audits.where? fun event =>
    event.eventType = eventType ∧ event.metadata = [("grant_id", .uuid grant.id)]

theorem Recorded.grantEvents_of_recorded {eventType : AuditEventType}
    {recorded : ViewerGrant → Prop} {db : Db}
    (hgood : Recorded eventType recorded db.grants db.audits) {grant : ViewerGrant}
    (hgrant : grant ∈ db.grants) (hrecorded : recorded grant) :
    (db.grantEvents eventType grant).length = 1 := by
  rcases hgood.covered grant hgrant hrecorded with ⟨event, hevent, hconcerns⟩
  have hmem (entry : AuditEvent) : entry ∈ db.grantEvents eventType grant ↔ entry = event := by
    simp only [Db.grantEvents, Table.mem_where?_iff, decide_eq_true_eq]
    constructor
    · rintro ⟨hentry, htype, hmetadata⟩
      exact hgood.once entry hentry event hevent htype hconcerns.1
        (hmetadata.trans hconcerns.2.2.2.symm)
    · rintro rfl
      exact ⟨hevent, hconcerns.1, hconcerns.2.2.2⟩
  have hnodup : (db.grantEvents eventType grant).Nodup :=
    db.audits.nodup_rows.filter _
  have hperm : (db.grantEvents eventType grant).Perm [event] := by
    rw [List.perm_ext_iff_of_nodup hnodup (List.nodup_singleton event)]
    simpa using hmem
  rw [hperm.length_eq, List.length_singleton]

theorem Recorded.grantEvents_of_not_recorded {eventType : AuditEventType}
    {recorded : ViewerGrant → Prop} {db : Db}
    (hgood : Recorded eventType recorded db.grants db.audits) {grant : ViewerGrant}
    (hgrant : grant ∈ db.grants) (hnot : ¬ recorded grant) :
    (db.grantEvents eventType grant).length = 0 := by
  rw [List.length_eq_zero_iff, List.eq_nil_iff_forall_not_mem]
  intro event hevent
  simp only [Db.grantEvents, Table.mem_where?_iff, decide_eq_true_eq] at hevent
  rcases hgood.sourced event hevent.1 hevent.2.1 with ⟨other, hother, hrecorded, hconcerns⟩
  have hmetadata := hconcerns.2.2.2.symm.trans hevent.2.2
  have hid : other.id = grant.id := by simpa using hmetadata
  rw [Table.eq_of_key_eq hother hgrant hid] at hrecorded
  exact hnot hrecorded

/-! ## The main result -/

structure GrantBookkeeping (db : Db) : Prop where
  atMostOneUnrevoked : ∀ dashboardId viewerId,
    (db.activeGrants dashboardId viewerId).length ≤ 1
  ownerHoldsNone : ∀ dashboard ∈ db.dashboards,
    db.activeGrants dashboard.id dashboard.ownerId = []
  ownerAsksNone : ∀ dashboard ∈ db.dashboards, ∀ request ∈ db.accessRequests,
    request.dashboardId = dashboard.id → request.requesterId = dashboard.ownerId →
      request.status ≠ .pending
  createdOnce : ∀ grant ∈ db.grants, (db.grantEvents .grantCreated grant).length = 1
  revokedOnce : ∀ grant ∈ db.grants, (db.grantEvents .grantRevoked grant).length =
    if grant.revokedAt = none then 0 else 1
  reconstructed : ∀ epoch, epoch ∈ activeEpochs db.audits.rows ↔
    ∃ grant ∈ db.grants, grant.revokedAt = none ∧ grant.epoch = epoch

theorem accessInvariant_of_reachable {platform : Platform} {db : Db}
    (hreach : (serviceSystem platform).Reachable db) :
    AccessInvariant db.dashboards db.grants db.accessRequests :=
  reachable_induction hreach AccessInvariant.initial fun _ _ => AccessInvariant.change

theorem grantLog_of_reachable {platform : Platform} {db : Db}
    (hreach : (serviceSystem platform).Reachable db) : GrantLog db.grants db.audits :=
  reachable_induction hreach ⟨Recorded.initial, Recorded.initial⟩ fun _ _ => GrantLog.change

theorem AccessInvariant.activeGrants_le_one {db : Db}
    (hgood : AccessInvariant db.dashboards db.grants db.accessRequests)
    (dashboardId viewerId : Uuid) : (db.activeGrants dashboardId viewerId).length ≤ 1 := by
  have hnodup : (db.activeGrants dashboardId viewerId).Nodup := db.grants.nodup_rows.filter _
  have hmem (grant : ViewerGrant) (hgrant : grant ∈ db.activeGrants dashboardId viewerId) :
      grant ∈ db.grants ∧ (grant.dashboardId = dashboardId ∧ grant.viewerId = viewerId) ∧
        grant.revokedAt = none := by
    simpa [Db.activeGrants, ViewerGrant.isActiveFor] using hgrant
  cases hactive : db.activeGrants dashboardId viewerId with
  | nil => simp
  | cons first others =>
      cases others with
      | nil => simp
      | cons second rest =>
          rw [hactive] at hnodup hmem
          have hfirst := hmem first (by simp)
          have hsecond := hmem second (by simp)
          have hsame := hgood.oneUnrevoked first hfirst.1 second hsecond.1
            (hfirst.2.1.1.trans hsecond.2.1.1.symm) (hfirst.2.1.2.trans hsecond.2.1.2.symm)
            hfirst.2.2 hsecond.2.2
          rw [hsame, List.nodup_cons] at hnodup
          exact absurd (List.mem_cons_self ..) hnodup.1

theorem AccessInvariant.owner_holds_none {db : Db}
    (hgood : AccessInvariant db.dashboards db.grants db.accessRequests)
    {dashboard : Dashboard} (hdashboard : dashboard ∈ db.dashboards) {grant : ViewerGrant}
    (hgrant : grant ∈ db.grants) (hscope : grant.dashboardId = dashboard.id)
    (hviewer : grant.viewerId = dashboard.ownerId) : grant.revokedAt ≠ none := by
  rcases hgood.grantOwner grant hgrant with ⟨owned, hget, howner⟩
  have hsame : owned = dashboard :=
    Table.eq_of_key_eq (Table.mem_of_get? hget) hdashboard
      ((Table.key_of_get? hget).trans hscope)
  rw [hsame] at howner
  exact fun hactive => howner hactive hviewer

theorem AccessInvariant.owner_asks_none {db : Db}
    (hgood : AccessInvariant db.dashboards db.grants db.accessRequests)
    {dashboard : Dashboard} (hdashboard : dashboard ∈ db.dashboards)
    {request : AccessRequest} (hrequest : request ∈ db.accessRequests)
    (hscope : request.dashboardId = dashboard.id)
    (hrequester : request.requesterId = dashboard.ownerId) : request.status ≠ .pending := by
  rcases hgood.requestOwner request hrequest with ⟨owned, hget, howner⟩
  have hsame : owned = dashboard :=
    Table.eq_of_key_eq (Table.mem_of_get? hget) hdashboard
      ((Table.key_of_get? hget).trans hscope)
  rw [hsame] at howner
  exact fun hpending => howner hpending hrequester

theorem grants_and_audit_log_agree {platform : Platform} {db : Db}
    (hreach : (serviceSystem platform).Reachable db) : GrantBookkeeping db := by
  have haccess := accessInvariant_of_reachable hreach
  have hlog := grantLog_of_reachable hreach
  refine ⟨haccess.activeGrants_le_one, ?_, ?_, ?_, ?_, ?_⟩
  · intro dashboard hdashboard
    rw [List.eq_nil_iff_forall_not_mem]
    intro grant hgrant
    simp only [Db.activeGrants, ViewerGrant.isActiveFor, Table.mem_where?_iff,
      Bool.and_eq_true, beq_iff_eq] at hgrant
    exact haccess.owner_holds_none hdashboard hgrant.1 hgrant.2.1.1 hgrant.2.1.2 hgrant.2.2
  · intro dashboard hdashboard request hrequest
    exact haccess.owner_asks_none hdashboard hrequest
  · intro grant hgrant
    exact hlog.created.grantEvents_of_recorded hgrant trivial
  · intro grant hgrant
    by_cases hactive : grant.revokedAt = none
    · rw [if_pos hactive]
      exact hlog.revoked.grantEvents_of_not_recorded hgrant (not_not.mpr hactive)
    · rw [if_neg hactive]
      exact hlog.revoked.grantEvents_of_recorded hgrant hactive
  · intro epoch
    rw [activeEpochs, List.mem_filter, createdEpochs, revokedEpochs, decide_eq_true_eq,
      hlog.created.mem_epochs, hlog.revoked.mem_epochs]
    constructor
    · rintro ⟨⟨grant, hgrant, _, hepoch⟩, hnot⟩
      refine ⟨grant, hgrant, ?_, hepoch⟩
      by_contra hrevoked
      exact hnot ⟨grant, hgrant, hrevoked, hepoch⟩
    · rintro ⟨grant, hgrant, hactive, hepoch⟩
      refine ⟨⟨grant, hgrant, trivial, hepoch⟩, ?_⟩
      rintro ⟨other, hother, hrevoked, hsame⟩
      have hid : other.id = grant.id := by
        have hpair := hsame.trans hepoch.symm
        simp only [ViewerGrant.epoch, Prod.mk.injEq] at hpair
        exact hpair.2.2
      rw [Table.eq_of_key_eq hother hgrant hid] at hrevoked
      exact hrevoked hactive

/-- A viewer is granted access, revoked, and granted access again. -/
def regrantCalls : List ServiceCall :=
  [⟨contextAt 0 1, .bootstrapFirstAdministrator "AA00001".toList samplePassword sampleSalt⟩,
    ⟨contextAt 1 2, .provisionUser 1 "BB00002".toList samplePassword sampleSalt false⟩,
    ⟨contextAt 2 3, .createProject 1 "Sales".toList []⟩,
    ⟨contextAt 3 4, .grantProjectViewer 3 1 "bb00002".toList⟩,
    ⟨contextAt 4 5, .revokeProjectViewer 3 4 1⟩,
    ⟨contextAt 5 6, .grantProjectViewer 3 1 "bb00002".toList⟩]

theorem regrant_and_audit_log_agree :
    activeEpochs (runCalls asciiPlatform regrantCalls).audits.rows = [(3, 2, 6)] ∧
      GrantBookkeeping (runCalls asciiPlatform regrantCalls) :=
  ⟨by decide +kernel, grants_and_audit_log_agree (reachable_runCalls regrantCalls)⟩

end Agora
