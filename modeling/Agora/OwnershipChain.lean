import Agora.DatabaseEvolution

/-!
# The history of the owners of a dashboard

Each transfer leaves a marker that points to the marker before it, and the
dashboard points to the last one.  The markers of a dashboard form one chain: it
meets each of them once, it passes the dashboard from owner to owner, and it
starts with the user for whom the dashboard was created.
-/

namespace Agora

open Transaction

variable {effects : Set Effect} {platform : Platform}

/-- The chain of a dashboard that was created for this user. -/
structure Dashboard.OwnershipChain (db : Db) (creatorId : Uuid) (dashboard : Dashboard)
    (markers : List DashboardOwnershipTransfer) : Prop where
  follows : db.transfers.Follows DashboardOwnershipTransfer.previousTransferId
    dashboard.lastOwnershipTransferId markers
  complete : ∀ marker, marker ∈ markers ↔
    marker ∈ db.transfers ∧ marker.dashboardId = dashboard.id
  once : markers.Nodup
  linked : markers.IsChain fun newer older => newer.fromOwnerId = older.toOwnerId
  newest : dashboard.ownerId =
    markers.head?.elim creatorId DashboardOwnershipTransfer.toOwnerId
  oldest : ∀ marker ∈ markers.getLast?, marker.fromOwnerId = creatorId

/-! ## Keeping a chain -/

namespace Dashboard.OwnershipChain

variable {before after : Db} {creatorId : Uuid} {dashboard : Dashboard}
  {markers : List DashboardOwnershipTransfer}

/-- Nothing about the owner of the dashboard or its markers has changed. -/
theorem kept {later : Dashboard} (hchain : dashboard.OwnershipChain before creatorId markers)
    (hcarries : Table.Carries Eq before.transfers after.transfers)
    (hmarkers : ∀ marker ∈ after.transfers, marker.dashboardId = dashboard.id →
      marker ∈ before.transfers)
    (hid : later.id = dashboard.id) (howner : later.ownerId = dashboard.ownerId)
    (hlast : later.lastOwnershipTransferId = dashboard.lastOwnershipTransferId) :
    later.OwnershipChain after creatorId markers where
  follows := by
    rw [hlast]
    exact hchain.follows.carried hcarries
  complete := by
    intro marker
    rw [hchain.complete, hid]
    constructor
    · rintro ⟨hmarker, hscope⟩
      rcases hcarries _ _ (Table.get?_of_mem hmarker) with ⟨same, hsame, rfl⟩
      exact ⟨Table.mem_of_get? hsame, hscope⟩
    · rintro ⟨hmarker, hscope⟩
      exact ⟨hmarkers marker hmarker hscope, hscope⟩
  once := hchain.once
  linked := hchain.linked
  newest := howner.trans hchain.newest
  oldest := hchain.oldest

/-- A transfer puts its marker in front of the chain. -/
theorem moved {marker : DashboardOwnershipTransfer}
    {transfers : Table DashboardOwnershipTransfer} {row : Dashboard}
    (hchain : dashboard.OwnershipChain before creatorId markers)
    (hcreate : before.transfers.create marker = some transfers)
    (hmoves : marker.Moves dashboard row) :
    row.OwnershipChain { before with
      transfers := transfers
      dashboards := before.dashboards.replace row } creatorId (marker :: markers) where
  follows := by
    have hlast : row.lastOwnershipTransferId = some marker.id := by rw [hmoves.row]
    have hself : transfers.get? marker.id = some marker := by
      rw [Table.get?_of_create hcreate]
      exact if_pos rfl
    rw [hlast]
    refine .step hself ?_
    rw [hmoves.previous]
    exact hchain.follows.carried (.of_create (fun _ => rfl) hcreate)
  complete := by
    intro other
    have hid : row.id = dashboard.id := by rw [hmoves.row]
    have hmem : other ∈ transfers ↔ other = marker ∨ other ∈ before.transfers :=
      Table.mem_of_create hcreate
    rw [List.mem_cons, hchain.complete, hid, hmem]
    constructor
    · rintro (rfl | ⟨hother, hscope⟩)
      · exact ⟨.inl rfl, hmoves.dashboard.trans hid⟩
      · exact ⟨.inr hother, hscope⟩
    · rintro ⟨rfl | hother, hscope⟩
      · exact .inl rfl
      · exact .inr ⟨hother, hscope⟩
  once := by
    rw [List.nodup_cons]
    refine ⟨?_, hchain.once⟩
    intro hmem
    exact Table.fresh_of_create hcreate marker ((hchain.complete marker).mp hmem).1 rfl
  linked := by
    have hsource := hmoves.source
    rw [hchain.newest] at hsource
    cases markers with
    | nil => exact .singleton marker
    | cons newest rest => exact .cons_cons hsource hchain.linked
  newest := hmoves.target.symm
  oldest := by
    have hsource := hmoves.source
    rw [hchain.newest] at hsource
    cases markers with
    | nil =>
        intro first hfirst
        cases hfirst
        exact hsource
    | cons newest rest =>
        rw [List.getLast?_cons_cons]
        exact hchain.oldest

end Dashboard.OwnershipChain

/-- A stored dashboard keeps its chain, up to a new marker in front. -/
theorem Change.ownershipChain {before after : Db} {creatorId dashboardId : Uuid}
    (hchange : Change effects before after)
    (hbefore : ∃ dashboard markers, before.dashboards.get? dashboardId = some dashboard ∧
      dashboard.OwnershipChain before creatorId markers) :
    ∃ dashboard markers, after.dashboards.get? dashboardId = some dashboard ∧
      dashboard.OwnershipChain after creatorId markers := by
  rcases hbefore with ⟨dashboard, markers, hget, hchain⟩
  have hsaved {row original : Dashboard} {db : Db}
      (horiginal : before.dashboards.get? row.id = some original)
      (hsaved : row.SavedFrom db original) {revisions : Table Revision}
      {artifacts : Table Artifact} :
      ∃ later markers, (before.dashboards.replace row).get? dashboardId = some later ∧
        later.OwnershipChain { before with
          revisions := revisions
          artifacts := artifacts
          dashboards := before.dashboards.replace row } creatorId markers := by
    by_cases hid : Keyed.key row = dashboardId
    · subst hid
      have hsame : original = dashboard := Option.some.inj (horiginal.symm.trans hget)
      subst hsame
      exact ⟨row, markers, Table.get?_replace_self horiginal,
        hchain.kept (.refl (fun _ => rfl) _) (fun _ hmarker _ => hmarker)
          (Table.key_of_get? hget).symm hsaved.owner hsaved.transfer⟩
    · exact ⟨dashboard, markers, by rwa [Table.get?_replace_of_ne hid], { hchain with }⟩
  cases hchange with
  | dashboardInserted hcreate =>
      have hne := Table.fresh_of_create hcreate dashboard (Table.mem_of_get? hget)
      rw [Table.key_of_get? hget] at hne
      refine ⟨dashboard, markers, ?_, { hchain with }⟩
      rw [Table.get?_of_create hcreate, if_neg hne.symm]
      exact hget
  | dashboardSaved horiginal hfields => exact hsaved horiginal hfields
  | revisionCommitted _ _ _ hstored _ _ hfields => exact hsaved hstored hfields
  | @ownershipTransferred marker transfers stored row hcreate hstored hmoves _ _ _ =>
      by_cases hid : Keyed.key row = dashboardId
      · subst hid
        have hsame : stored = dashboard := Option.some.inj (hstored.symm.trans hget)
        subst hsame
        exact ⟨row, _, Table.get?_replace_self hstored, hchain.moved hcreate hmoves⟩
      · refine ⟨dashboard, markers, by rwa [Table.get?_replace_of_ne hid],
          hchain.kept (.of_create (fun _ => rfl) hcreate) ?_ rfl rfl rfl⟩
        intro other hother hscope
        rcases (Table.mem_of_create hcreate).mp hother with rfl | hold
        · have hkey : Keyed.key row = dashboardId := by
            rw [← Table.key_of_get? hget]
            exact hmoves.dashboard.symm.trans hscope
          exact absurd hkey hid
        · exact hold
  | _ => exact ⟨dashboard, markers, hget, { hchain with }⟩

theorem Changes.ownershipChain {before after : Db} {creatorId dashboardId : Uuid}
    (hchanges : Changes effects before after)
    (hbefore : ∃ dashboard markers, before.dashboards.get? dashboardId = some dashboard ∧
      dashboard.OwnershipChain before creatorId markers) :
    ∃ dashboard markers, after.dashboards.get? dashboardId = some dashboard ∧
      dashboard.OwnershipChain after creatorId markers := by
  induction hchanges with
  | refl => exact hbefore
  | tail _ hlast ih => exact hlast.ownershipChain ih

/-! ## The creator -/

/-- One of these calls created the dashboard for this user. -/
def CreatedIn (platform : Platform) (calls : List ServiceCall)
    (dashboardId creatorId : Uuid) : Prop :=
  ∃ earlier call later name description, calls = earlier ++ call :: later ∧
    call.operation = .createProject creatorId name description ∧
      (runCalls platform earlier).dashboards.get? dashboardId = none ∧
        ∃ project ∈ (runCalls platform (earlier ++ [call])).dashboards.get? dashboardId,
          project.ownerId = creatorId

theorem CreatedIn.append {calls : List ServiceCall} {dashboardId creatorId : Uuid}
    (hcreated : CreatedIn platform calls dashboardId creatorId) (call : ServiceCall) :
    CreatedIn platform (calls ++ [call]) dashboardId creatorId := by
  rcases hcreated with ⟨earlier, creation, later, name, description, rfl, hcreation⟩
  refine ⟨earlier, creation, later ++ [call], name, description, ?_, hcreation⟩
  rw [List.append_assoc, List.cons_append]

theorem runCalls_concat (calls : List ServiceCall) (call : ServiceCall) :
    runCalls platform (calls ++ [call]) =
      (call.body platform).settle (runCalls platform calls) :=
  runFrom_append Db.empty calls [call]

/-- Only a call that creates a project stores a new dashboard, and it is owned by the
user it was created for. -/
theorem ServiceCall.created {call : ServiceCall} {db : Db} {dashboardId : Uuid}
    {project : Dashboard} (habsent : db.dashboards.get? dashboardId = none)
    (hstored : ((call.body platform).settle db).dashboards.get? dashboardId = some project) :
    ∃ creatorId name description,
      call.operation = .createProject creatorId name description ∧
        project.ownerId = creatorId ∧ project.lastOwnershipTransferId = none ∧
          ((call.body platform).settle db).transfers = db.transfers := by
  have heffect : .dashboards ∈ call.operation.effects := by
    by_contra hnone
    have hchanges : Changes call.operation.effects db ((call.body platform).settle db) :=
      call.settle_changes db
    have hkept := hchanges.dashboard_absent hnone habsent
    rw [hstored] at hkept
    contradiction
  rcases call with ⟨context, operation⟩
  cases operation with
  | createProject creatorId name description =>
      refine ⟨creatorId, name, description, rfl, ?_⟩
      rcases settle_cases (ServiceCall.body platform ⟨context, .createProject creatorId name
        description⟩) db with hfailed | ⟨inserted, hbody⟩
      · rw [hfailed, habsent] at hstored
        contradiction
      · rcases createProject_runs (ServiceCall.runs_body.mp hbody) with
          ⟨howner, _, _, _, htransfer, dashboards, _, _, hcreate, _, _, hafter⟩
        rw [hafter] at hstored ⊢
        have hget := Table.get?_of_create hcreate dashboardId
        split at hget
        · cases Option.some.inj (hget.symm.trans hstored)
          exact ⟨howner, htransfer, rfl⟩
        · have hkept : db.dashboards.get? dashboardId = some project := hget.symm.trans hstored
          rw [habsent] at hkept
          contradiction
  | _ => simp [Operation.effects] at heffect

/-- The dashboard of every marker is stored. -/
theorem marker_dashboard_stored {db : Db} (hreach : (serviceSystem platform).Reachable db) :
    ∀ marker ∈ db.transfers, ∃ dashboard, db.dashboards.get? marker.dashboardId =
      some dashboard := by
  refine reachable_induction (motive := fun db => ∀ marker ∈ db.transfers,
    ∃ dashboard, db.dashboards.get? marker.dashboardId = some dashboard) hreach
    (by simp [Db.empty]) ?_
  intro before after hbefore hchange
  have hkept : ∀ marker ∈ before.transfers, ∃ dashboard,
      after.dashboards.get? marker.dashboardId = some dashboard := by
    intro marker hmarker
    rcases hbefore marker hmarker with ⟨dashboard, hget⟩
    rcases hchange.evolves.dashboards _ _ hget with ⟨later, hlater, _⟩
    exact ⟨later, hlater⟩
  cases hchange with
  | ownershipTransferred hcreate hstored hmoves =>
      intro marker hmarker
      rcases (Table.mem_of_create hcreate).mp hmarker with rfl | hold
      · rw [hmoves.dashboard]
        exact ⟨_, Table.get?_replace_self hstored⟩
      · exact hkept marker hold
  | _ => exact hkept

theorem exists_createdIn (calls : List ServiceCall) {dashboardId : Uuid} {dashboard : Dashboard}
    (hstored : (runCalls platform calls).dashboards.get? dashboardId = some dashboard) :
    ∃ creatorId, CreatedIn platform calls dashboardId creatorId := by
  induction calls using List.reverseRecOn generalizing dashboard with
  | nil =>
      have hempty : Db.empty.dashboards.get? dashboardId = some dashboard := hstored
      simp [Db.empty] at hempty
  | append_singleton calls call ih =>
      cases hbefore : (runCalls platform calls).dashboards.get? dashboardId with
      | some earlier =>
          rcases ih hbefore with ⟨creatorId, hcreated⟩
          exact ⟨creatorId, hcreated.append call⟩
      | none =>
          have hafter := hstored
          rw [runCalls_concat] at hafter
          rcases ServiceCall.created hbefore hafter with
            ⟨creatorId, name, description, hoperation, howner, _, _⟩
          exact ⟨creatorId, calls, call, [], name, description, rfl, hoperation, hbefore,
            dashboard, hstored, howner⟩

theorem CreatedIn.ownershipChain {calls : List ServiceCall} {dashboardId creatorId : Uuid}
    (hcreated : CreatedIn platform calls dashboardId creatorId) :
    ∃ dashboard markers,
      (runCalls platform calls).dashboards.get? dashboardId = some dashboard ∧
        dashboard.OwnershipChain (runCalls platform calls) creatorId markers := by
  rcases hcreated with
    ⟨earlier, call, later, name, description, rfl, hoperation, habsent, project, hproject, _⟩
  have hstart : ∃ dashboard markers,
      (runCalls platform (earlier ++ [call])).dashboards.get? dashboardId = some dashboard ∧
        dashboard.OwnershipChain (runCalls platform (earlier ++ [call])) creatorId markers := by
    refine ⟨project, [], hproject, ?_⟩
    rw [runCalls_concat] at hproject ⊢
    rcases ServiceCall.created habsent hproject with
      ⟨creator, _, _, hcreation, howner, hlast, htransfers⟩
    have hsame : creator = creatorId := by
      rw [hoperation] at hcreation
      cases hcreation
      rfl
    have hid : project.id = dashboardId := Table.key_of_get? hproject
    refine {
      follows := by
        rw [hlast]
        exact .stop
      complete := ?_
      once := .nil
      linked := .nil
      newest := howner.trans hsame
      oldest := by simp }
    intro marker
    rw [htransfers, hid]
    constructor
    · simp
    · rintro ⟨hmarker, hscope⟩
      rcases marker_dashboard_stored (reachable_runCalls earlier) marker hmarker with
        ⟨dashboard, hget⟩
      rw [hscope, habsent] at hget
      contradiction
  have hsplit : runCalls platform (earlier ++ call :: later) =
      runFrom platform (runCalls platform (earlier ++ [call])) later := by
    have happend : earlier ++ call :: later = (earlier ++ [call]) ++ later := by simp
    rw [happend]
    exact runFrom_append Db.empty _ later
  rw [hsplit]
  have hpath := @path_runFrom platform later (runCalls platform (earlier ++ [call]))
  exact hpath.preserves (motive := fun db => ∃ dashboard markers,
    db.dashboards.get? dashboardId = some dashboard ∧
      dashboard.OwnershipChain db creatorId markers) hstart fun before served after hbefore hstep =>
        (serviceSystem_changes hstep).ownershipChain hbefore

/-- In every state that calls of the services reach, the markers of a stored dashboard
form one chain from its creator to its owner. -/
theorem ownership_history_is_one_chain (calls : List ServiceCall) {dashboard : Dashboard}
    (hstored : dashboard ∈ (runCalls platform calls).dashboards) :
    (∃ creatorId, CreatedIn platform calls dashboard.id creatorId) ∧
      ∀ creatorId, CreatedIn platform calls dashboard.id creatorId →
        ∃ markers, dashboard.OwnershipChain (runCalls platform calls) creatorId markers := by
  have hget : (runCalls platform calls).dashboards.get? dashboard.id = some dashboard :=
    Table.get?_of_mem hstored
  refine ⟨exists_createdIn calls hget, ?_⟩
  intro creatorId hcreated
  rcases hcreated.ownershipChain with ⟨other, markers, hother, hchain⟩
  cases Option.some.inj (hget.symm.trans hother)
  exact ⟨markers, hchain⟩

/-- A dashboard is passed to the second user and back. -/
def returnedCalls : List ServiceCall :=
  publishedCalls ++
    [⟨contextAt 8 8, .transferDashboardOwnership 3 1 2 (some none) 8⟩,
      ⟨contextAt 9 9, .transferDashboardOwnership 3 2 1 (some (some 8)) 9⟩]

theorem returned_history_is_one_chain :
    ∃ dashboard ∈ (runCalls asciiPlatform returnedCalls).dashboards,
      dashboard.lastOwnershipTransferId = some 9 ∧
        (∃ creatorId, CreatedIn asciiPlatform returnedCalls dashboard.id creatorId) ∧
          ∀ creatorId, CreatedIn asciiPlatform returnedCalls dashboard.id creatorId →
            ∃ markers, dashboard.OwnershipChain (runCalls asciiPlatform returnedCalls)
              creatorId markers := by
  have hfound : ((runCalls asciiPlatform returnedCalls).dashboards.get? 3).map
      Dashboard.lastOwnershipTransferId = some (some 9) := by decide +kernel
  rcases Option.map_eq_some_iff.mp hfound with ⟨dashboard, hget, hlast⟩
  have hstored := Table.mem_of_get? hget
  exact ⟨dashboard, hstored, hlast, ownership_history_is_one_chain returnedCalls hstored⟩

end Agora
