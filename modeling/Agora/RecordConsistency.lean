import Agora.CredentialPermanence

/-!
# What the rows of a reachable database agree on

Identity values lie below the next one, the pairs of the personal tables are
unique, every captured open has its source, and a dashboard points only at its
own revision and transfer.  These are the facts under which a permitted issue
passes every check between its first read and its commit.
-/

namespace Agora

variable {effects : Set Effect}

/-- The rows with identity keys. -/
structure Db.Identities (db : Db) : Prop where
  favorites : ∀ row ∈ db.favorites, row.id < db.nextId
  viewerStates : ∀ row ∈ db.viewerStates, row.id < db.nextId
  opens : ∀ row ∈ db.opens, row.id < db.nextId

/-- The pairs of a user and a dashboard. -/
structure Db.Pairs (db : Db) : Prop where
  favorites : ∀ first ∈ db.favorites, ∀ second ∈ db.favorites,
    first.userId = second.userId → first.dashboardId = second.dashboardId → first = second
  viewerStates : ∀ first ∈ db.viewerStates, ∀ second ∈ db.viewerStates,
    first.userId = second.userId → first.dashboardId = second.dashboardId → first = second

/-- The facts about one dashboard. -/
structure Dashboard.Consistent (db : Db) (dashboard : Dashboard) : Prop where
  version : dashboard.state = .published → 0 < dashboard.publicationVersion
  revision : ∀ revisionId ∈ dashboard.publishedRevisionId, ∃ revision,
    db.revisions.get? revisionId = some revision ∧ revision.dashboardId = dashboard.id
  epoch : ∀ transferId ∈ dashboard.lastOwnershipTransferId, ∃ marker,
    db.transfers.get? transferId = some marker ∧ marker.dashboardId = dashboard.id

structure Db.Consistent (db : Db) : Prop where
  identities : db.Identities
  pairs : db.Pairs
  authVersions : ∀ user ∈ db.users, 0 < user.authVersion
  dashboards : ∀ dashboard ∈ db.dashboards, dashboard.Consistent db
  seen : ∀ state ∈ db.viewerStates, ∃ dashboard,
    db.dashboards.get? state.dashboardId = some dashboard ∧
      state.seenPublicationVersion ≤ dashboard.publicationVersion
  sources : ∀ row ∈ db.opens, ∃ source,
    db.authorizations.get? row.sourceAuthorizationId = some source

/-! ## Identity values -/

theorem Db.Identities.initial : Db.empty.Identities where
  favorites := by simp [Db.empty]
  viewerStates := by simp [Db.empty]
  opens := by simp [Db.empty]

theorem Db.Identities.later {db later : Db} (hgood : db.Identities)
    (hnext : db.nextId ≤ later.nextId) (hfavorites : later.favorites = db.favorites)
    (hviewerStates : later.viewerStates = db.viewerStates)
    (hopens : ∀ row ∈ later.opens, ∃ old ∈ db.opens, old.id = row.id) : later.Identities where
  favorites row hrow := by
    rw [hfavorites] at hrow
    exact (hgood.favorites row hrow).trans_le hnext
  viewerStates row hrow := by
    rw [hviewerStates] at hrow
    exact (hgood.viewerStates row hrow).trans_le hnext
  opens row hrow := by
    rcases hopens row hrow with ⟨old, hold, hid⟩
    rw [← hid]
    exact (hgood.opens old hold).trans_le hnext

theorem Db.Identities.change {before after : Db} (hgood : before.Identities)
    (hchange : Change effects before after) : after.Identities := by
  have hkept : ∀ row ∈ before.opens, ∃ old ∈ before.opens, old.id = row.id :=
    fun row hrow => ⟨row, hrow, rfl⟩
  cases hchange with
  | idsTaken count => exact hgood.later (Nat.le_add_right _ count) rfl rfl hkept
  | grantCreated => exact hgood.later (Nat.le_succ _) rfl rfl hkept
  | grantRevoked => exact hgood.later (Nat.le_succ _) rfl rfl hkept
  | requestOpened => exact hgood.later (Nat.le_succ _) rfl rfl hkept
  | requestReopened => exact hgood.later (Nat.le_succ _) rfl rfl hkept
  | requestResolved => exact hgood.later (Nat.le_succ _) rfl rfl hkept
  | audited => exact hgood.later (Nat.le_succ _) rfl rfl hkept
  | analyticsChanged _ hnext hopens _ =>
      refine hgood.later hnext rfl rfl ?_
      intro row hrow
      rcases hopens row hrow with ⟨old, hold, hid, _⟩
      exact ⟨old, hold, hid⟩
  | favoriteAdded hid _ hcreate =>
      refine { hgood with favorites := ?_ }
      intro row hrow
      rcases (Table.mem_of_create hcreate).mp hrow with rfl | hold
      · exact hid
      · exact hgood.favorites row hold
  | favoritesRemoved retained =>
      exact { hgood with
        favorites := fun row hrow => hgood.favorites row (Table.mem_keep_iff.mp hrow).1 }
  | viewInserted _ _ _ hid _ _ _ _ hcreate =>
      refine { hgood with opens := ?_ }
      intro row hrow
      rcases (Table.mem_of_create hcreate).mp hrow with rfl | hold
      · exact hid
      · exact hgood.opens row hold
  | openCaptured _ hid _ _ _ _ hcreate =>
      refine { hgood with opens := ?_ }
      intro row hrow
      rcases (Table.mem_of_create hcreate).mp hrow with rfl | hold
      · exact hid
      · exact hgood.opens row hold
  | viewerStateInserted hid _ _ _ hcreate =>
      refine { hgood with viewerStates := ?_ }
      intro row hrow
      rcases (Table.mem_of_create hcreate).mp hrow with rfl | hold
      · exact hid
      · exact hgood.viewerStates row hold
  | @viewerStateSaved row original dashboard horiginal _ _ _ _ =>
      refine { hgood with viewerStates := ?_ }
      intro other hother
      rcases (Table.mem_replace horiginal).mp hother with rfl | ⟨hold, _⟩
      · have hid : original.id = other.id := Table.key_of_get? horiginal
        rw [← hid]
        exact hgood.viewerStates original (Table.mem_of_get? horiginal)
      · exact hgood.viewerStates other hold
  | _ => exact { hgood with }

/-! ## Pairs -/

theorem Db.Pairs.initial : Db.empty.Pairs where
  favorites := by simp [Db.empty]
  viewerStates := by simp [Db.empty]

theorem Db.Pairs.change {before after : Db} (hgood : before.Pairs)
    (hchange : Change effects before after) : after.Pairs := by
  cases hchange with
  | favoriteAdded _ hunique hcreate =>
      refine { hgood with favorites := ?_ }
      intro first hfirst second hsecond huser hdashboard
      rcases (Table.mem_of_create hcreate).mp hfirst with rfl | hfirst
      · rcases (Table.mem_of_create hcreate).mp hsecond with rfl | hsecond
        · rfl
        · exact absurd ⟨huser.symm, hdashboard.symm⟩ (hunique second hsecond)
      · rcases (Table.mem_of_create hcreate).mp hsecond with rfl | hsecond
        · exact absurd ⟨huser, hdashboard⟩ (hunique first hfirst)
        · exact hgood.favorites first hfirst second hsecond huser hdashboard
  | favoritesRemoved retained =>
      refine { hgood with favorites := ?_ }
      intro first hfirst second hsecond
      exact hgood.favorites first (Table.mem_keep_iff.mp hfirst).1 second
        (Table.mem_keep_iff.mp hsecond).1
  | viewerStateInserted _ _ _ hunique hcreate =>
      refine { hgood with viewerStates := ?_ }
      intro first hfirst second hsecond huser hdashboard
      rcases (Table.mem_of_create hcreate).mp hfirst with rfl | hfirst
      · rcases (Table.mem_of_create hcreate).mp hsecond with rfl | hsecond
        · rfl
        · exact absurd ⟨huser.symm, hdashboard.symm⟩ (hunique second hsecond)
      · rcases (Table.mem_of_create hcreate).mp hsecond with rfl | hsecond
        · exact absurd ⟨huser, hdashboard⟩ (hunique first hfirst)
        · exact hgood.viewerStates first hfirst second hsecond huser hdashboard
  | @viewerStateSaved row original dashboard horiginal huserKept hscope _ _ =>
      refine { hgood with viewerStates := ?_ }
      have honly : ∀ other ∈ before.viewerStates, other.userId = row.userId →
          other.dashboardId = row.dashboardId → other.id = row.id := by
        intro other hother huser hdashboard
        have hsame := hgood.viewerStates other hother original (Table.mem_of_get? horiginal)
          (huser.trans huserKept) (hdashboard.trans hscope)
        rw [hsame]
        exact Table.key_of_get? horiginal
      intro first hfirst second hsecond huser hdashboard
      rcases (Table.mem_replace horiginal).mp hfirst with rfl | ⟨holdFirst, hfirstNe⟩
      · rcases (Table.mem_replace horiginal).mp hsecond with rfl | ⟨holdSecond, hsecondNe⟩
        · rfl
        · exact absurd (honly second holdSecond huser.symm hdashboard.symm) hsecondNe
      · rcases (Table.mem_replace horiginal).mp hsecond with rfl | ⟨holdSecond, _⟩
        · exact absurd (honly first holdFirst huser hdashboard) hfirstNe
        · exact hgood.viewerStates first holdFirst second holdSecond huser hdashboard
  | _ => exact { hgood with }

/-! ## Dashboards -/

theorem Dashboard.Consistent.evolves {before after : Db} {dashboard : Dashboard}
    (hgood : dashboard.Consistent before) (hevolves : Evolves before after) :
    dashboard.Consistent after where
  version := hgood.version
  revision := by
    intro revisionId hrevision
    rcases hgood.revision revisionId hrevision with ⟨revision, hget, hbelongs⟩
    rcases hevolves.revisions _ _ hget with ⟨later, hlater, rfl⟩
    exact ⟨revision, hlater, hbelongs⟩
  epoch := by
    intro transferId htransfer
    rcases hgood.epoch transferId htransfer with ⟨marker, hget, hbelongs⟩
    rcases hevolves.transfers _ _ hget with ⟨later, hlater, rfl⟩
    exact ⟨marker, hlater, hbelongs⟩

theorem Dashboard.Consistent.moved {before : Db} {marker : DashboardOwnershipTransfer}
    {transfers : Table DashboardOwnershipTransfer} {stored row : Dashboard}
    (hgood : stored.Consistent before)
    (hcreate : before.transfers.create marker = some transfers)
    (hmoves : marker.Moves stored row) :
    row.Consistent { before with
      transfers := transfers
      dashboards := before.dashboards.replace row } := by
  have hstate : row.state = stored.state := by rw [hmoves.row]
  have hversion : row.publicationVersion = stored.publicationVersion := by rw [hmoves.row]
  have hpublished : row.publishedRevisionId = stored.publishedRevisionId := by
    rw [hmoves.row]
  have hid : row.id = stored.id := by rw [hmoves.row]
  have hlast : row.lastOwnershipTransferId = some marker.id := by rw [hmoves.row]
  constructor
  · intro hrow
    rw [hversion]
    exact hgood.version (hstate ▸ hrow)
  · intro revisionId hrevision
    rw [hpublished] at hrevision
    rw [hid]
    exact hgood.revision revisionId hrevision
  · intro transferId htransfer
    rw [hlast, Option.mem_some_iff] at htransfer
    subst htransfer
    refine ⟨marker, ?_, hmoves.dashboard⟩
    rw [Table.get?_of_create hcreate]
    exact if_pos rfl

/-- The epoch of a saved row is that of its original. -/
theorem Dashboard.SavedFrom.epoch {before middle : Db} {row original : Dashboard}
    (hsaved : row.SavedFrom middle original)
    (hgood : ∀ dashboard ∈ before.dashboards, dashboard.Consistent before)
    (horiginal : before.dashboards.get? row.id = some original) :
    ∀ transferId ∈ row.lastOwnershipTransferId, ∃ marker,
      before.transfers.get? transferId = some marker ∧ marker.dashboardId = row.id := by
  have hid : original.id = row.id := Table.key_of_get? horiginal
  have hepoch := (hgood original (Table.mem_of_get? horiginal)).epoch
  rwa [← hsaved.transfer, hid] at hepoch

theorem consistent_dashboards_change {before after : Db}
    (hgood : ∀ dashboard ∈ before.dashboards, dashboard.Consistent before)
    (hchange : Change effects before after) :
    ∀ dashboard ∈ after.dashboards, dashboard.Consistent after := by
  have hevolves := hchange.evolves
  have hkept : ∀ dashboard ∈ before.dashboards, dashboard.Consistent after :=
    fun dashboard hdashboard => (hgood dashboard hdashboard).evolves hevolves
  cases hchange with
  | @dashboardInserted row dashboards hcreate hdraft hpublished htransfer =>
      intro dashboard hdashboard
      rcases (Table.mem_of_create hcreate).mp hdashboard with rfl | hold
      · exact {
          version := fun hstate => by rw [hdraft] at hstate; contradiction
          revision := fun _ hmem => by rw [hpublished] at hmem; contradiction
          epoch := fun _ hmem => by rw [htransfer] at hmem; contradiction }
      · exact hkept dashboard hold
  | dashboardSaved horiginal hsaved =>
      intro dashboard hdashboard
      rcases (Table.mem_replace horiginal).mp hdashboard with rfl | ⟨hold, _⟩
      · have hepoch := hsaved.epoch hgood horiginal
        exact ⟨hsaved.versioned, hsaved.revision, hepoch⟩
      · exact hkept dashboard hold
  | revisionCommitted _ _ _ hstored _ _ hsaved =>
      intro dashboard hdashboard
      rcases (Table.mem_replace hstored).mp hdashboard with rfl | ⟨hold, _⟩
      · have hepoch := hsaved.epoch hgood hstored
        exact ⟨hsaved.versioned, hsaved.revision, hepoch⟩
      · exact hkept dashboard hold
  | ownershipTransferred hcreate hstored hmoves _ _ =>
      intro dashboard hdashboard
      rcases (Table.mem_replace hstored).mp hdashboard with rfl | ⟨hold, _⟩
      · exact (hgood _ (Table.mem_of_get? hstored)).moved hcreate hmoves
      · exact hkept dashboard hold
  | _ => exact hkept

/-! ## The whole database -/

namespace Db.Consistent

variable {before after : Db}

theorem initial : Db.empty.Consistent where
  identities := .initial
  pairs := .initial
  authVersions := by simp [Db.empty]
  dashboards := by simp [Db.empty]
  seen := by simp [Db.empty]
  sources := by simp [Db.empty]

theorem authVersions_change (hgood : before.Consistent) (hchange : Change effects before after) :
    ∀ user ∈ after.users, 0 < user.authVersion := by
  cases hchange with
  | userInserted hcreate hversion =>
      intro user huser
      rcases (Table.mem_of_create hcreate).mp huser with rfl | hold
      · exact hversion
      · exact hgood.authVersions user hold
  | userSaved horiginal hversion _ =>
      intro user huser
      rcases (Table.mem_replace horiginal).mp huser with rfl | ⟨hold, _⟩
      · exact (hgood.authVersions _ (Table.mem_of_get? horiginal)).trans_le hversion
      · exact hgood.authVersions user hold
  | _ => exact hgood.authVersions

theorem seen_change (hgood : before.Consistent) (hchange : Change effects before after) :
    ∀ state ∈ after.viewerStates, ∃ dashboard,
      after.dashboards.get? state.dashboardId = some dashboard ∧
        state.seenPublicationVersion ≤ dashboard.publicationVersion := by
  have hevolves := hchange.evolves
  have hkept : ∀ state ∈ before.viewerStates, ∃ dashboard,
      after.dashboards.get? state.dashboardId = some dashboard ∧
        state.seenPublicationVersion ≤ dashboard.publicationVersion := by
    intro state hstate
    rcases hgood.seen state hstate with ⟨dashboard, hget, hle⟩
    rcases hevolves.dashboards _ _ hget with ⟨later, hlater, hstep⟩
    exact ⟨later, hlater, hle.trans hstep.version⟩
  cases hchange with
  | viewerStateInserted _ hdashboard hseen _ hcreate =>
      intro state hstate
      rcases (Table.mem_of_create hcreate).mp hstate with rfl | hold
      · exact ⟨_, hdashboard, hseen⟩
      · exact hkept state hold
  | viewerStateSaved horiginal _ _ hdashboard hseen =>
      intro state hstate
      rcases (Table.mem_replace horiginal).mp hstate with rfl | ⟨hold, _⟩
      · exact ⟨_, hdashboard, hseen⟩
      · exact hkept state hold
  | _ => exact hkept

theorem sources_change (hgood : before.Consistent) (hchange : Change effects before after) :
    ∀ row ∈ after.opens, ∃ source,
      after.authorizations.get? row.sourceAuthorizationId = some source := by
  have hevolves := hchange.evolves
  have hkept : ∀ row ∈ before.opens, ∃ source,
      after.authorizations.get? row.sourceAuthorizationId = some source := by
    intro row hrow
    rcases hgood.sources row hrow with ⟨source, hget⟩
    rcases hevolves.authorizations _ _ hget with ⟨later, hlater, _⟩
    exact ⟨later, hlater⟩
  cases hchange with
  | @viewInserted row opened authorizations opens _ _ hcreate _ hsource _ _ _ hopens =>
      intro other hother
      rcases (Table.mem_of_create hopens).mp hother with rfl | hold
      · rw [hsource]
        have hself : authorizations.get? row.id = some row := by
          rw [Table.get?_of_create hcreate]
          exact if_pos rfl
        have hmarked : authorizations.get? (Keyed.key { row with
            authorizedOpenCapturedAt := some other.openedAt }) = some row := hself
        exact ⟨_, Table.get?_replace_self hmarked⟩
      · exact hkept other hold
  | openCaptured _ _ hsource _ _ _ hcreate =>
      intro row hrow
      rcases (Table.mem_of_create hcreate).mp hrow with rfl | hold
      · rcases hevolves.authorizations _ _ hsource with ⟨later, hlater, _⟩
        exact ⟨later, hlater⟩
      · exact hkept row hold
  | analyticsChanged _ _ hopens _ =>
      intro row hrow
      rcases hopens row hrow with ⟨old, hold, _, hsource⟩
      rw [← hsource]
      exact hkept old hold
  | _ => exact hkept

theorem change (hgood : before.Consistent) (hchange : Change effects before after) :
    after.Consistent where
  identities := hgood.identities.change hchange
  pairs := hgood.pairs.change hchange
  authVersions := hgood.authVersions_change hchange
  dashboards := consistent_dashboards_change hgood.dashboards hchange
  seen := hgood.seen_change hchange
  sources := hgood.sources_change hchange

/-- A new authorization is the source of no open yet. -/
theorem withAuthorization {row : RenderAuthorization}
    {authorizations : Table RenderAuthorization} (hgood : before.Consistent)
    (hcreate : before.authorizations.create row = some authorizations) :
    Db.Consistent { before with authorizations := authorizations } where
  identities := { hgood.identities with }
  pairs := { hgood.pairs with }
  authVersions := hgood.authVersions
  dashboards := fun dashboard hdashboard => { hgood.dashboards dashboard hdashboard with }
  seen := hgood.seen
  sources := by
    intro opened hopened
    rcases hgood.sources opened hopened with ⟨source, hsource⟩
    have hne := Table.fresh_of_create hcreate source (Table.mem_of_get? hsource)
    rw [Table.key_of_get? hsource] at hne
    refine ⟨source, ?_⟩
    rw [Table.get?_of_create hcreate, if_neg hne.symm]
    exact hsource

theorem changes (hgood : before.Consistent) (hchanges : Changes effects before after) :
    after.Consistent := by
  induction hchanges with
  | refl => exact hgood
  | tail _ hlast ih => exact ih.change hlast

end Db.Consistent

theorem consistent_of_reachable {platform : Platform} {db : Db}
    (hreach : (serviceSystem platform).Reachable db) : db.Consistent :=
  reachable_induction hreach .initial fun _ _ => Db.Consistent.change

end Agora
