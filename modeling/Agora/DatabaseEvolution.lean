import Agora.GrantAuditReconstruction

/-!
# How the database evolves

`Evolves` relates a database to any later one of a run.  Rows that credentials
refer to persist; counters do not decrease, and each fact a credential depends on
can change only together with its counter or with a fresh ownership transfer.
It is a preorder, and every change respects it.
-/

namespace Agora

open Transaction

variable {effects : Set Effect}

def User.EvolvesTo (row later : User) : Prop :=
  row.authVersion ≤ later.authVersion ∧
    (later.authVersion = row.authVersion → later.isActive = row.isActive)

structure Dashboard.EvolvesTo (transfers : Table DashboardOwnershipTransfer)
    (row later : Dashboard) : Prop where
  version : row.publicationVersion ≤ later.publicationVersion
  republished : later.publicationVersion = row.publicationVersion →
    later.publishedRevisionId ≠ none → later.publishedRevisionId = row.publishedRevisionId
  owner : (later.lastOwnershipTransferId = row.lastOwnershipTransferId ∧
      later.ownerId = row.ownerId) ∨
    ∃ transferId ∈ later.lastOwnershipTransferId, transfers.get? transferId = none
  accepting : later.state.acceptsRevisions = true → row.state.acceptsRevisions = true

def ViewerGrant.EvolvesTo (row later : ViewerGrant) : Prop :=
  later.dashboardId = row.dashboardId ∧ later.viewerId = row.viewerId ∧
    (row.revokedAt ≠ none → later.revokedAt ≠ none)

def RenderAuthorization.EvolvesTo (row later : RenderAuthorization) : Prop :=
  row.SameScope later ∧ (row.revokedAt ≠ none → later.revokedAt ≠ none) ∧
    (row.authorizedOpenCapturedAt ≠ none → later.authorizedOpenCapturedAt ≠ none)

structure Evolves (before after : Db) : Prop where
  users : Table.Carries User.EvolvesTo before.users after.users
  dashboards : Table.Carries (Dashboard.EvolvesTo before.transfers) before.dashboards
    after.dashboards
  transfers : Table.Carries Eq before.transfers after.transfers
  revisions : Table.Carries Eq before.revisions after.revisions
  grants : Table.Carries ViewerGrant.EvolvesTo before.grants after.grants
  authorizations : Table.Carries RenderAuthorization.EvolvesTo before.authorizations
    after.authorizations

theorem User.EvolvesTo.refl (row : User) : row.EvolvesTo row :=
  ⟨le_refl _, fun _ => rfl⟩

theorem User.EvolvesTo.trans (first second third : User)
    (hfirst : first.EvolvesTo second) (hsecond : second.EvolvesTo third) :
    first.EvolvesTo third := by
  refine ⟨hfirst.1.trans hsecond.1, ?_⟩
  intro hsame
  have hmiddle : second.authVersion = first.authVersion :=
    le_antisymm (hsame ▸ hsecond.1) hfirst.1
  rw [hsecond.2 (hsame.trans hmiddle.symm), hfirst.2 hmiddle]

theorem Dashboard.EvolvesTo.refl {transfers : Table DashboardOwnershipTransfer}
    (row : Dashboard) : row.EvolvesTo transfers row where
  version := le_refl _
  republished _ _ := rfl
  owner := .inl ⟨rfl, rfl⟩
  accepting haccepts := haccepts

theorem Dashboard.EvolvesTo.trans {transfers later : Table DashboardOwnershipTransfer}
    (hcarries : Table.Carries Eq transfers later) (first second third : Dashboard)
    (hfirst : first.EvolvesTo transfers second) (hsecond : second.EvolvesTo later third) :
    first.EvolvesTo transfers third where
  version := hfirst.version.trans hsecond.version
  republished := by
    intro hsame hpublished
    have hmiddle : second.publicationVersion = first.publicationVersion :=
      le_antisymm (hsame ▸ hsecond.version) hfirst.version
    have hkept := hsecond.republished (hsame.trans hmiddle.symm) hpublished
    rw [hkept] at hpublished ⊢
    exact hfirst.republished hmiddle hpublished
  owner := by
    have hfresh : ∀ transferId, later.get? transferId = none →
        transfers.get? transferId = none := by
      intro transferId hnone
      cases hget : transfers.get? transferId with
      | none => rfl
      | some marker =>
          rcases hcarries transferId marker hget with ⟨kept, hkept, _⟩
          rw [hnone] at hkept
          cases hkept
    rcases hsecond.owner with ⟨htransfer, howner⟩ | ⟨transferId, hlast, hnone⟩
    · rcases hfirst.owner with ⟨htransfer', howner'⟩ | ⟨transferId, hlast, hnone⟩
      · exact .inl ⟨htransfer.trans htransfer', howner.trans howner'⟩
      · exact .inr ⟨transferId, htransfer ▸ hlast, hnone⟩
    · exact .inr ⟨transferId, hlast, hfresh transferId hnone⟩
  accepting haccepts := hfirst.accepting (hsecond.accepting haccepts)

theorem ViewerGrant.EvolvesTo.refl (row : ViewerGrant) : row.EvolvesTo row :=
  ⟨rfl, rfl, fun hrevoked => hrevoked⟩

theorem ViewerGrant.EvolvesTo.trans (first second third : ViewerGrant)
    (hfirst : first.EvolvesTo second) (hsecond : second.EvolvesTo third) :
    first.EvolvesTo third :=
  ⟨hsecond.1.trans hfirst.1, hsecond.2.1.trans hfirst.2.1,
    fun hrevoked => hsecond.2.2 (hfirst.2.2 hrevoked)⟩

theorem RenderAuthorization.SameScope.refl (row : RenderAuthorization) :
    row.SameScope row := by
  simp [RenderAuthorization.SameScope]

theorem RenderAuthorization.SameScope.trans {first second third : RenderAuthorization}
    (hfirst : first.SameScope second) (hsecond : second.SameScope third) :
    first.SameScope third := by
  simp_all [RenderAuthorization.SameScope]

theorem RenderAuthorization.EvolvesTo.refl (row : RenderAuthorization) :
    row.EvolvesTo row :=
  ⟨.refl row, fun hrevoked => hrevoked, fun hcaptured => hcaptured⟩

theorem RenderAuthorization.EvolvesTo.trans (first second third : RenderAuthorization)
    (hfirst : first.EvolvesTo second) (hsecond : second.EvolvesTo third) :
    first.EvolvesTo third :=
  ⟨hfirst.1.trans hsecond.1, fun hrevoked => hsecond.2.1 (hfirst.2.1 hrevoked),
    fun hcaptured => hsecond.2.2 (hfirst.2.2 hcaptured)⟩

theorem Evolves.refl (db : Db) : Evolves db db where
  users := .refl User.EvolvesTo.refl _
  dashboards := .refl Dashboard.EvolvesTo.refl _
  transfers := .refl (fun _ => rfl) _
  revisions := .refl (fun _ => rfl) _
  grants := .refl ViewerGrant.EvolvesTo.refl _
  authorizations := .refl RenderAuthorization.EvolvesTo.refl _

theorem Evolves.trans {first second third : Db} (hfirst : Evolves first second)
    (hsecond : Evolves second third) : Evolves first third where
  users := hfirst.users.trans hsecond.users User.EvolvesTo.trans
  dashboards := hfirst.dashboards.trans hsecond.dashboards
    (Dashboard.EvolvesTo.trans hfirst.transfers)
  transfers := hfirst.transfers.trans hsecond.transfers fun _ _ _ => Eq.trans
  revisions := hfirst.revisions.trans hsecond.revisions fun _ _ _ => Eq.trans
  grants := hfirst.grants.trans hsecond.grants ViewerGrant.EvolvesTo.trans
  authorizations := hfirst.authorizations.trans hsecond.authorizations
    RenderAuthorization.EvolvesTo.trans

theorem Dashboard.SavedFrom.evolvesTo {db : Db} {row original : Dashboard}
    (hsaved : row.SavedFrom db original) : original.EvolvesTo db.transfers row where
  version := hsaved.version
  republished := hsaved.republished
  owner := .inl ⟨hsaved.transfer, hsaved.owner⟩
  accepting := hsaved.accepting

theorem Change.evolves {before after : Db} (hchange : Change effects before after) :
    Evolves before after := by
  cases hchange with
  | userInserted hcreate _ =>
      exact { Evolves.refl before with users := .of_create User.EvolvesTo.refl hcreate }
  | userSaved horiginal hversion hactive =>
      exact { Evolves.refl before with
        users := .of_replace User.EvolvesTo.refl horiginal ⟨hversion, hactive⟩ }
  | dashboardInserted hcreate _ _ _ =>
      exact { Evolves.refl before with
        dashboards := .of_create Dashboard.EvolvesTo.refl hcreate }
  | dashboardSaved horiginal hsaved =>
      exact { Evolves.refl before with
        dashboards := .of_replace Dashboard.EvolvesTo.refl horiginal hsaved.evolvesTo }
  | revisionCommitted hrevisions _ _ hstored _ _ hsaved =>
      exact { Evolves.refl before with
        revisions := .of_create (fun _ => rfl) hrevisions
        dashboards := .of_replace Dashboard.EvolvesTo.refl hstored hsaved.evolvesTo }
  | @ownershipTransferred marker transfers stored row hcreate hstored hmoves _ _ =>
      have hrow := hmoves.row
      have hfresh : before.transfers.get? marker.id = none :=
        (Table.create_eq_some_iff.mp hcreate).1
      exact { Evolves.refl before with
        transfers := .of_create (fun _ => rfl) hcreate
        dashboards := .of_replace Dashboard.EvolvesTo.refl hstored {
          version := by rw [hrow]
          republished := fun _ _ => by rw [hrow]
          owner := .inr ⟨marker.id, by rw [hrow]; rfl, hfresh⟩
          accepting := fun haccepts => by rw [hrow] at haccepts; exact haccepts } }
  | grantCreated _ _ _ _ hcreate _ _ =>
      exact { Evolves.refl before with
        grants := .of_create ViewerGrant.EvolvesTo.refl hcreate }
  | grantRevoked horiginal _ hdashboard hviewer hrevoked _ _ =>
      exact { Evolves.refl before with
        grants := .of_replace ViewerGrant.EvolvesTo.refl horiginal
          ⟨hdashboard, hviewer, fun _ => hrevoked⟩ }
  | previewInserted _ _ hcreate =>
      exact { Evolves.refl before with
        authorizations := .of_create RenderAuthorization.EvolvesTo.refl hcreate }
  | @viewInserted row opened authorizations opens _ _ hcreate _ _ _ _ _ _ =>
      have hself : authorizations.get? row.id = some row := by
        rw [Table.get?_of_create hcreate]
        exact if_pos rfl
      have hcreated : Table.Carries RenderAuthorization.EvolvesTo before.authorizations
          authorizations := .of_create RenderAuthorization.EvolvesTo.refl hcreate
      have hmarked : Table.Carries RenderAuthorization.EvolvesTo authorizations
          (authorizations.replace { row with
            authorizedOpenCapturedAt := some opened.openedAt }) :=
        .of_replace RenderAuthorization.EvolvesTo.refl hself ⟨.refl row, id, fun _ => by simp⟩
      exact { Evolves.refl before with
        authorizations := hcreated.trans hmarked RenderAuthorization.EvolvesTo.trans }
  | authorizationRevoked horiginal hscope hrevoked hcaptured =>
      exact { Evolves.refl before with
        authorizations := .of_replace RenderAuthorization.EvolvesTo.refl horiginal
          ⟨hscope, hrevoked, fun hbefore => hcaptured ▸ hbefore⟩ }
  | @openCaptured row opens source _ _ hsource _ _ _ _ =>
      have hid : source.id = row.sourceAuthorizationId := Table.key_of_get? hsource
      rw [← hid] at hsource
      exact { Evolves.refl before with
        authorizations := .of_replace RenderAuthorization.EvolvesTo.refl hsource
          ⟨.refl source, id, fun _ => by simp⟩ }
  | _ => exact { Evolves.refl before with }

theorem Changes.evolves {before after : Db} (hchanges : Changes effects before after) :
    Evolves before after := by
  induction hchanges with
  | refl => exact .refl before
  | tail _ hlast ih => exact ih.trans hlast.evolves

theorem evolves_of_path {platform : Platform} {before after : Db}
    {calls : List ServiceCall} (hpath : (serviceSystem platform).Path before calls after) :
    Evolves before after := by
  induction hpath with
  | refl db => exact .refl db
  | cons hstep _ ih => exact (serviceSystem_changes hstep).evolves.trans ih

end Agora
