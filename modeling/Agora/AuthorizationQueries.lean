import Agora.RenderServices

/-!
# The read-side queries of the portal

`authorized_published_dashboard` of the discovery pages, and `visible_project`
with the two queries it combines.  The rule of who sees a published dashboard is
written here as query filters and in the services as conditionals.
-/

namespace Agora

/-- `_published_authorization`; the filter on the viewer of a grant joins its user. -/
def Db.publishedAuthorization (db : Db) (principalId : Uuid) (dashboard : Dashboard) :
    Bool :=
  (dashboard.ownerId = principalId ∧ db.isActiveUser dashboard.ownerId = true) ∨
    db.grants.any fun grant =>
      grant.dashboardId = dashboard.id ∧ grant.viewerId = principalId ∧
        db.isActiveUser grant.viewerId = true ∧ grant.revokedAt = none

def Db.authorizedPublishedDashboard (db : Db) (dashboardId principalId : Uuid) :
    Option Dashboard :=
  (db.dashboards.get? dashboardId).filter fun dashboard =>
    dashboard.state = .published ∧ dashboard.publishedRevisionId ≠ none ∧
      db.publishedAuthorization principalId dashboard = true

/-- The order `("-updated_at", "id")`. -/
def Dashboard.updatedBefore (first second : Dashboard) : Prop :=
  second.updatedAt < first.updatedAt ∨
    (first.updatedAt = second.updatedAt ∧ first.id ≤ second.id)

instance : DecidableRel Dashboard.updatedBefore :=
  fun _ _ => inferInstanceAs (Decidable (_ ∨ _))

def Db.sharedProjects (db : Db) (viewerId : Uuid) : List Dashboard :=
  (db.dashboards.where? fun dashboard =>
    dashboard.state = .published ∧ dashboard.publishedRevisionId ≠ none ∧
      db.grants.any (fun grant =>
        grant.dashboardId = dashboard.id ∧ grant.viewerId = viewerId ∧
          db.isActiveUser grant.viewerId = true ∧ grant.revokedAt = none) = true).insertionSort
    Dashboard.updatedBefore

def Db.manageableProject (db : Db) (projectId ownerId : Uuid) : Option Dashboard :=
  (db.dashboards.get? projectId).filter fun dashboard =>
    dashboard.ownerId = ownerId ∧ db.isActiveUser dashboard.ownerId = true ∧
      dashboard.state ≠ .deleted

/-- The project of a page, and whether its viewer owns it. -/
def Db.visibleProject (db : Db) (projectId viewerId : Uuid) : Option (Dashboard × Bool) :=
  match db.manageableProject projectId viewerId with
  | some owned => some (owned, true)
  | none =>
      ((db.sharedProjects viewerId).filter fun project => project.id = projectId).head?.map
        fun shared => (shared, false)

end Agora
