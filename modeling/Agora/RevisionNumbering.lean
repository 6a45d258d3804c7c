import Agora.DatabaseEvolution

/-!
# Numbers and artifacts of committed revisions

The revisions of a dashboard are numbered from one without a gap, and the
dashboard points to the last of them.  A stored revision is complete: it is
locked, one of its artifacts is HTML and their name keys differ, and no later
change touches its artifacts.
-/

namespace Agora

open Transaction

variable {effects : Set Effect} {platform : Platform}

def Db.revisionsOf (db : Db) (dashboardId : Uuid) : List Revision :=
  db.revisions.where? fun revision => revision.dashboardId = dashboardId

/-- The revisions of a dashboard have the numbers up to their count, and the latest
one has the last of them. -/
def Dashboard.Numbered (db : Db) (dashboard : Dashboard) : Prop :=
  ∃ count, ((db.revisionsOf dashboard.id).map Revision.number).Perm (List.range' 1 count) ∧
    match dashboard.latestRevisionId with
    | none => count = 0
    | some latestId => ∃ latest ∈ db.revisions.get? latestId,
        latest.dashboardId = dashboard.id ∧ latest.number = count

/-- A revision that the services show as complete. -/
structure Revision.Complete (artifacts : Table Artifact) (revision : Revision) : Prop where
  locked : revision.artifactsLocked = true
  oneHtml : ∃! artifact, artifact ∈ artifacts ∧ artifact.revisionId = revision.id ∧
    artifact.kind = .html
  distinct : ∀ first ∈ artifacts, ∀ second ∈ artifacts, first.revisionId = revision.id →
    second.revisionId = revision.id → first.nameKey = second.nameKey → first = second

structure Db.Numbered (db : Db) : Prop where
  dashboards : ∀ dashboard ∈ db.dashboards, dashboard.Numbered db
  stored : ∀ revision ∈ db.revisions, ∃ dashboard,
    db.dashboards.get? revision.dashboardId = some dashboard
  complete : ∀ revision ∈ db.revisions, revision.Complete db.artifacts
  sources : ∀ artifact ∈ db.artifacts, ∃ revision,
    db.revisions.get? artifact.revisionId = some revision

/-! ## Numbers -/

variable {before after : Db}

theorem Dashboard.Numbered.of_eq {dashboard later : Dashboard}
    (hgood : dashboard.Numbered before) (hrevisions : after.revisions = before.revisions)
    (hid : later.id = dashboard.id)
    (hlatest : later.latestRevisionId = dashboard.latestRevisionId) :
    later.Numbered after := by
  unfold Dashboard.Numbered Db.revisionsOf at *
  rw [hrevisions, hid, hlatest]
  exact hgood

theorem Db.revisionsOf_of_create {row : Revision} {revisions : Table Revision}
    (hcreate : before.revisions.create row = some revisions) (dashboardId : Uuid)
    (hafter : after.revisions = revisions) :
    after.revisionsOf dashboardId =
      if row.dashboardId = dashboardId then row :: before.revisionsOf dashboardId
      else before.revisionsOf dashboardId := by
  unfold Db.revisionsOf Table.where?
  rw [hafter, (Table.create_eq_some_iff.mp hcreate).2, List.filter_cons]
  by_cases hscope : row.dashboardId = dashboardId
  · simp [hscope]
  · simp [hscope]

/-- The dashboard of a new revision, with the number after its latest one. -/
theorem Dashboard.Numbered.advance {row : Revision} {revisions : Table Revision}
    {stored written : Dashboard} (hgood : stored.Numbered before)
    (hcreate : before.revisions.create row = some revisions)
    (hafter : after.revisions = revisions) (hid : written.id = stored.id)
    (hscope : row.dashboardId = written.id) (hnumber : before.Numbers stored row.number)
    (hlatest : written.latestRevisionId = some row.id) : written.Numbered after := by
  rcases hgood with ⟨count, hperm, hcount⟩
  have hnext : row.number = count + 1 := by
    unfold Db.Numbers at hnumber
    cases hstored : stored.latestRevisionId with
    | none =>
        rw [hstored] at hnumber hcount
        rw [hnumber, hcount]
    | some latestId =>
        rw [hstored] at hnumber hcount
        rcases hnumber with ⟨latest, hlatest, hsucc⟩
        rcases hcount with ⟨other, hother, _, hlast⟩
        cases Option.some.inj (hlatest.symm.trans hother)
        rw [hsucc, hlast]
  refine ⟨count + 1, ?_, ?_⟩
  · rw [Db.revisionsOf_of_create hcreate written.id hafter, if_pos hscope, hid, List.map_cons,
      hnext, List.range'_concat, Nat.one_mul, Nat.add_comm 1 count]
    exact (hperm.cons (count + 1)).trans (List.perm_append_singleton _ _).symm
  · rw [hlatest]
    refine ⟨row, ?_, hscope, hnext⟩
    rw [hafter, Table.get?_of_create hcreate]
    exact if_pos rfl

/-- Another dashboard than that of a new revision. -/
theorem Dashboard.Numbered.keep {row : Revision} {revisions : Table Revision}
    {dashboard : Dashboard} (hgood : dashboard.Numbered before)
    (hcreate : before.revisions.create row = some revisions)
    (hafter : after.revisions = revisions) (hscope : row.dashboardId ≠ dashboard.id) :
    dashboard.Numbered after := by
  rcases hgood with ⟨count, hperm, hcount⟩
  refine ⟨count, ?_, ?_⟩
  · rwa [Db.revisionsOf_of_create hcreate dashboard.id hafter, if_neg hscope]
  · cases hlatest : dashboard.latestRevisionId with
    | none =>
        rw [hlatest] at hcount
        exact hcount
    | some latestId =>
        rw [hlatest] at hcount
        rcases hcount with ⟨latest, hget, hbelongs⟩
        have hcarried : Table.Carries Eq before.revisions revisions :=
          .of_create (fun _ => rfl) hcreate
        rcases hcarried _ _ hget with ⟨same, hsame, rfl⟩
        exact ⟨latest, hafter ▸ hsame, hbelongs⟩

theorem Db.Numbered.dashboards_change (hgood : before.Numbered)
    (hchange : Change effects before after) :
    ∀ dashboard ∈ after.dashboards, dashboard.Numbered after := by
  have hkept : after.revisions = before.revisions → ∀ dashboard ∈ before.dashboards,
      dashboard.Numbered after := fun hrevisions dashboard hdashboard =>
    (hgood.dashboards dashboard hdashboard).of_eq hrevisions rfl rfl
  cases hchange with
  | @dashboardInserted row dashboards hcreate _ _ _ hlatest _ =>
      intro dashboard hdashboard
      rcases (Table.mem_of_create hcreate).mp hdashboard with rfl | hold
      · refine ⟨0, ?_, by rw [hlatest]⟩
        have hnone : before.revisionsOf dashboard.id = [] := by
          refine List.filter_eq_nil_iff.mpr ?_
          intro revision hrevision hscope
          rcases hgood.stored revision hrevision with ⟨owner, howner⟩
          have hfresh := (Table.create_eq_some_iff.mp hcreate).1
          rw [of_decide_eq_true hscope] at howner
          exact absurd (hfresh.symm.trans howner) (by simp)
        have hsame : Db.revisionsOf { before with dashboards := dashboards } dashboard.id =
            before.revisionsOf dashboard.id := rfl
        rw [hsame, hnone]
        exact .refl []
      · exact hkept rfl dashboard hold
  | dashboardSaved horiginal _ hlatest =>
      intro dashboard hdashboard
      rcases (Table.mem_replace horiginal).mp hdashboard with rfl | ⟨hold, _⟩
      · exact (hgood.dashboards _ (Table.mem_of_get? horiginal)).of_eq rfl
          (Table.key_of_get? horiginal).symm hlatest
      · exact hkept rfl dashboard hold
  | ownershipTransferred _ hstored hmoves =>
      intro dashboard hdashboard
      rcases (Table.mem_replace hstored).mp hdashboard with rfl | ⟨hold, _⟩
      · exact (hgood.dashboards _ (Table.mem_of_get? hstored)).of_eq rfl
          (Table.key_of_get? hstored).symm (by rw [hmoves.row])
      · exact hkept rfl dashboard hold
  | revisionCommitted hcreate _ _ hstored hscope hnumber _ hlatest =>
      intro dashboard hdashboard
      rcases (Table.mem_replace hstored).mp hdashboard with rfl | ⟨hold, hne⟩
      · exact (hgood.dashboards _ (Table.mem_of_get? hstored)).advance hcreate rfl
          (Table.key_of_get? hstored).symm hscope hnumber hlatest
      · refine (hgood.dashboards dashboard hold).keep hcreate rfl ?_
        intro hsame
        exact hne (hsame.symm.trans hscope)
  | _ => exact hkept rfl

/-! ## Artifacts -/

theorem Revision.Complete.of_mem_iff {artifacts later : Table Artifact} {revision : Revision}
    (hgood : revision.Complete artifacts)
    (hmem : ∀ artifact, artifact.revisionId = revision.id →
      (artifact ∈ later ↔ artifact ∈ artifacts)) : revision.Complete later where
  locked := hgood.locked
  oneHtml := by
    rcases hgood.oneHtml with ⟨page, ⟨hpage, hscope, hhtml⟩, honly⟩
    refine ⟨page, ⟨(hmem page hscope).mpr hpage, hscope, hhtml⟩, ?_⟩
    rintro other ⟨hother, hotherScope, hotherHtml⟩
    exact honly other ⟨(hmem other hotherScope).mp hother, hotherScope, hotherHtml⟩
  distinct := by
    intro first hfirst second hsecond hfirstScope hsecondScope
    exact hgood.distinct first ((hmem first hfirstScope).mp hfirst) second
      ((hmem second hsecondScope).mp hsecond) hfirstScope hsecondScope

theorem Completes.complete {artifacts later : Table Artifact} {row : Revision}
    (hcompletes : Completes artifacts row.id later) (hlocked : row.artifactsLocked = true)
    (hnew : ∀ artifact ∈ artifacts, artifact.revisionId ≠ row.id) : row.Complete later where
  locked := hlocked
  oneHtml := by
    rcases List.length_eq_one_iff.mp hcompletes.oneHtml with ⟨page, hpage⟩
    have hmem : ∀ artifact, artifact ∈ later ∧ artifact.revisionId = row.id ∧
        artifact.kind = .html ↔ artifact = page := by
      intro artifact
      have hselected : artifact ∈ later.where? (fun artifact =>
          artifact.revisionId = row.id ∧ artifact.kind = .html) ↔ artifact = page := by
        rw [hpage, List.mem_singleton]
      simpa using hselected
    exact ⟨page, (hmem page).mpr rfl, fun other hother => (hmem other).mp hother⟩
  distinct := by
    intro first hfirst second hsecond hfirstScope hsecondScope
    exact hcompletes.distinct first hfirst second hsecond hfirstScope hsecondScope
      fun hold => hnew first hold hfirstScope

/-- The artifacts of the revisions stored before are the same later. -/
def ArtifactsKept (before after : Db) : Prop :=
  ∀ revision ∈ before.revisions, ∀ artifact, artifact.revisionId = revision.id →
    (artifact ∈ after.artifacts ↔ artifact ∈ before.artifacts)

theorem Change.artifactsKept (hchange : Change effects before after) :
    ArtifactsKept before after := by
  cases hchange with
  | revisionCommitted hcreate _ hcompletes =>
      intro revision hrevision artifact hscope
      refine ⟨?_, hcompletes.kept artifact⟩
      intro hartifact
      rcases hcompletes.added artifact hartifact with hold | hnew
      · exact hold
      · exact absurd (hscope.symm.trans hnew) (Table.fresh_of_create hcreate revision hrevision)
  | _ => exact fun _ _ _ _ => Iff.rfl

theorem ArtifactsKept.trans {last : Db} (hfirst : ArtifactsKept before after)
    (hevolves : Evolves before after) (hsecond : ArtifactsKept after last) :
    ArtifactsKept before last := by
  intro revision hrevision artifact hscope
  rcases hevolves.revisions _ _ (Table.get?_of_mem hrevision) with ⟨same, hsame, rfl⟩
  rw [hsecond revision (Table.mem_of_get? hsame) artifact hscope]
  exact hfirst revision hrevision artifact hscope

theorem Changes.artifactsKept (hchanges : Changes effects before after) :
    ArtifactsKept before after := by
  induction hchanges with
  | refl => exact fun _ _ _ _ => Iff.rfl
  | tail hearlier hlast ih =>
      have hevolves : Evolves before _ := Changes.evolves hearlier
      exact ih.trans hevolves hlast.artifactsKept

/-! ## Reachable databases -/

namespace Db.Numbered

theorem initial : Db.empty.Numbered where
  dashboards := by simp [Db.empty]
  stored := by simp [Db.empty]
  complete := by simp [Db.empty]
  sources := by simp [Db.empty]

theorem change (hgood : before.Numbered) (hchange : Change effects before after) :
    after.Numbered where
  dashboards := hgood.dashboards_change hchange
  stored := by
    have hevolves := hchange.evolves
    have hkept : ∀ revision ∈ before.revisions, ∃ dashboard,
        after.dashboards.get? revision.dashboardId = some dashboard := by
      intro revision hrevision
      rcases hgood.stored revision hrevision with ⟨dashboard, hget⟩
      rcases hevolves.dashboards _ _ hget with ⟨later, hlater, _⟩
      exact ⟨later, hlater⟩
    cases hchange with
    | revisionCommitted hcreate _ _ hstored hscope =>
        intro revision hrevision
        rcases (Table.mem_of_create hcreate).mp hrevision with rfl | hold
        · rw [hscope]
          exact ⟨_, Table.get?_replace_self hstored⟩
        · exact hkept revision hold
    | _ => exact hkept
  complete := by
    have hartifacts := hchange.artifactsKept
    have hkept : ∀ revision ∈ before.revisions, revision.Complete after.artifacts :=
      fun revision hrevision =>
        (hgood.complete revision hrevision).of_mem_iff (hartifacts revision hrevision)
    cases hchange with
    | @revisionCommitted row revisions artifacts _ _ hcreate hlocked hcompletes =>
        intro revision hrevision
        rcases (Table.mem_of_create hcreate).mp hrevision with rfl | hold
        · refine hcompletes.complete hlocked ?_
          intro artifact hartifact hscope
          rcases hgood.sources artifact hartifact with ⟨source, hsource⟩
          have hfresh := (Table.create_eq_some_iff.mp hcreate).1
          rw [hscope] at hsource
          exact absurd (hfresh.symm.trans hsource) (by simp)
        · exact hkept revision hold
    | _ => exact hkept
  sources := by
    have hevolves := hchange.evolves
    have hkept : ∀ artifact ∈ before.artifacts, ∃ revision,
        after.revisions.get? artifact.revisionId = some revision := by
      intro artifact hartifact
      rcases hgood.sources artifact hartifact with ⟨revision, hget⟩
      rcases hevolves.revisions _ _ hget with ⟨later, hlater, _⟩
      exact ⟨later, hlater⟩
    cases hchange with
    | revisionCommitted hcreate _ hcompletes =>
        intro artifact hartifact
        rcases hcompletes.added artifact hartifact with hold | hnew
        · exact hkept artifact hold
        · rw [hnew]
          refine ⟨_, (Table.get?_of_create hcreate _).trans (if_pos rfl)⟩
    | _ => exact hkept

end Db.Numbered

theorem numbered_of_reachable {db : Db} (hreach : (serviceSystem platform).Reachable db) :
    db.Numbered :=
  reachable_induction hreach .initial fun _ _ => Db.Numbered.change

theorem Evolves.revision_kept (hevolves : Evolves before after) {revision : Revision}
    (hrevision : revision ∈ before.revisions) : revision ∈ after.revisions := by
  rcases hevolves.revisions _ _ (Table.get?_of_mem hrevision) with ⟨same, hsame, rfl⟩
  exact Table.mem_of_get? hsame

theorem artifactsKept_of_path {first last : Db} {calls : List ServiceCall}
    (hpath : (serviceSystem platform).Path first calls last) : ArtifactsKept first last := by
  induction hpath with
  | refl => exact fun _ _ _ _ => Iff.rfl
  | cons hstep _ ih =>
      have hchanges := serviceSystem_changes hstep
      exact hchanges.artifactsKept.trans hchanges.evolves ih

/-- In every reachable database the revisions of each dashboard are numbered without a
gap and are complete, and in every later one they are the same with the same
artifacts. -/
theorem revisions_numbered_and_complete {db : Db}
    (hreach : (serviceSystem platform).Reachable db) :
    (∀ dashboard ∈ db.dashboards, dashboard.Numbered db) ∧
      (∀ revision ∈ db.revisions, revision.Complete db.artifacts) ∧
        ∀ {calls : List ServiceCall} {later : Db},
          (serviceSystem platform).Path db calls later →
            ∀ revision ∈ db.revisions, revision ∈ later.revisions ∧
              ∀ artifact, artifact.revisionId = revision.id →
                (artifact ∈ later.artifacts ↔ artifact ∈ db.artifacts) := by
  have hgood := numbered_of_reachable hreach
  refine ⟨hgood.dashboards, hgood.complete, ?_⟩
  intro calls later hpath revision hrevision
  exact ⟨(evolves_of_path hpath).revision_kept hrevision,
    artifactsKept_of_path hpath revision hrevision⟩

/-- The stored revision of the computed run. -/
theorem published_revision_numbered :
    ((runCalls asciiPlatform publishedCalls).revisionsOf 3).map Revision.number = [1] ∧
      (∀ dashboard ∈ (runCalls asciiPlatform publishedCalls).dashboards,
        dashboard.Numbered (runCalls asciiPlatform publishedCalls)) ∧
      ∀ revision ∈ (runCalls asciiPlatform publishedCalls).revisions,
        revision.Complete (runCalls asciiPlatform publishedCalls).artifacts := by
  have hnumbered := revisions_numbered_and_complete
    (@reachable_runCalls asciiPlatform publishedCalls)
  exact ⟨by decide +kernel, hnumbered.1, hnumbered.2.1⟩

end Agora
