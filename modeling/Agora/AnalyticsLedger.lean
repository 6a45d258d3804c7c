import Agora.AnalyticsRollups
import Agora.CaptureSessions
import Agora.RecordConsistency

/-!
# The ledger of authorized opens

Every view that was issued is opened once, waits, is added to the rollups once and may be
purged after that.  The ledger lists the opens that the rollups have taken.  Together with
the waiting opens it names every viewer credential exactly once, so the rollups are
determined by the credentials and the opens that wait, over every run of the services.
-/

universe u v w

namespace Summary

variable {ρ : Type u} {ν : Type v} {μ : Type w}

/-- A map of the measurements that respects their merge. -/
theorem map_of {source : Summary ρ ν} (target : Summary ρ μ) {project : ν → μ}
    (hmeasure : ∀ event, project (source.measure event) = target.measure event)
    (hmerge : ∀ first second,
      project (source.merge first second) = target.merge (project first) (project second))
    (events : List ρ) : (source.of events).map project = target.of events := by
  induction events with
  | nil => rfl
  | cons event rest ih =>
      rw [of_cons, of_cons, ← ih, ← hmeasure]
      cases source.of rest with
      | none => rfl
      | some merged => exact congrArg some (hmerge _ _)

/-- A summary of the images of the events. -/
def along {σ : Type*} (summary : Summary σ ν) (project : ρ → σ) : Summary ρ ν where
  measure event := summary.measure (project event)
  merge := summary.merge
  assoc := summary.assoc
  comm := summary.comm

theorem along_of {σ : Type*} (summary : Summary σ ν) (project : ρ → σ) (events : List ρ) :
    (summary.along project).of events = summary.of (events.map project) := by
  induction events with
  | nil => rfl
  | cons event rest ih =>
      rw [of_cons, ih]
      rfl

theorem along_rollup {σ κ : Type*} [DecidableEq κ] (summary : Summary σ ν) (project : ρ → σ)
    (key : σ → κ) (events : List ρ) :
    (summary.along project).rollup (fun event => key (project event)) events =
      summary.rollup key (events.map project) := by
  funext value
  rw [rollup, along_of, rollup, List.filter_map]
  rfl

end Summary

theorem Table.map_viewed {ρ : Type u} {ι : Type v} {κ : Type w} {ν μ : Type*} [Keyed ρ ι]
    [DecidableEq κ] (table : Table ρ) (key : ρ → κ) (value : ρ → ν) (project : ν → μ)
    (wanted : κ) :
    (table.viewed key value wanted).map project =
      table.viewed key (fun row => project (value row)) wanted := by
  unfold Table.viewed
  rw [Option.map_map]
  rfl

namespace Agora

open Transaction

/-! ## Openings -/

/-- What a credential and every row of its open say. -/
structure Opening where
  sourceId : Uuid
  dashboardId : Uuid
  viewerId : Uuid
  openedAt : Time
  deriving DecidableEq

def RenderAuthorization.opening (row : RenderAuthorization) : Opening :=
  ⟨row.id, row.dashboardId, row.viewerId, row.createdAt⟩

def AuthorizedOpen.opening (row : AuthorizedOpen) : Opening :=
  ⟨row.sourceAuthorizationId, row.dashboardId, row.viewerId, row.openedAt⟩

/-- The opens that no aggregation has taken. -/
def Db.waiting (db : Db) : List AuthorizedOpen :=
  db.opens.where? fun row => row.aggregatedAt = none

theorem Db.mem_waiting {db : Db} {row : AuthorizedOpen} :
    row ∈ db.waiting ↔ row ∈ db.opens ∧ row.aggregatedAt = none := by
  rw [Db.waiting, Table.mem_where?_iff, decide_eq_true_eq]

/-- Whether the open of an authorization waits for its aggregation. -/
def Db.awaits (db : Db) (authorizationId : Uuid) : Bool :=
  db.opens.any fun row =>
    row.sourceAuthorizationId = authorizationId ∧ row.aggregatedAt = none

/-- The views whose opens have been aggregated. -/
def Db.counted (db : Db) : List RenderAuthorization :=
  db.authorizations.where? fun row => row.audience = .viewer ∧ db.awaits row.id = false

theorem Db.awaits_eq_true_iff {db : Db} {authorizationId : Uuid} :
    db.awaits authorizationId = true ↔
      ∃ row ∈ db.opens, row.sourceAuthorizationId = authorizationId ∧
        row.aggregatedAt = none := by
  rw [Db.awaits, Table.any_eq_true_iff]
  simp

theorem Db.awaits_of_drained {db : Db} (hwaiting : db.waiting = []) (authorizationId : Uuid) :
    db.awaits authorizationId = false := by
  by_contra htrue
  rw [Bool.not_eq_false, Db.awaits_eq_true_iff] at htrue
  rcases htrue with ⟨row, hrow, _, hnone⟩
  have hmem : row ∈ db.waiting := Db.mem_waiting.mpr ⟨hrow, hnone⟩
  rw [hwaiting] at hmem
  contradiction

theorem Db.awaits_of_kept {before after : Db} {authorizationId : Uuid}
    (hkept : ∀ row ∈ before.opens, row.aggregatedAt = none → row ∈ after.opens)
    (hafter : after.awaits authorizationId = false) :
    before.awaits authorizationId = false := by
  by_contra hbefore
  rw [Bool.not_eq_false, Db.awaits_eq_true_iff] at hbefore
  rcases hbefore with ⟨row, hrow, hsource, hnone⟩
  have htrue : after.awaits authorizationId = true :=
    Db.awaits_eq_true_iff.mpr ⟨row, hkept row hrow hnone, hsource, hnone⟩
  rw [htrue] at hafter
  contradiction

/-! ## The ledger -/

/-- The opens that the rollups have taken, and what they have to do with a database. -/
structure OpenLedger (taken : List AuthorizedOpen) (db : Db) : Prop where
  once : (taken.map AuthorizedOpen.sourceAuthorizationId).Nodup
  viewers : ∀ source ∈ db.authorizations,
    source.authorizedOpenCapturedAt =
      if source.audience = .viewer then some source.createdAt else none
  sources : ∀ first ∈ db.opens, ∀ second ∈ db.opens,
    first.sourceAuthorizationId = second.sourceAuthorizationId → first = second
  recorded : ∀ row, row ∈ db.opens ∨ row ∈ taken →
    ∃ source ∈ db.authorizations, source.audience = .viewer ∧ source.opening = row.opening
  waiting : ∀ row ∈ db.opens, row.aggregatedAt = none →
    row.sourceAuthorizationId ∉ taken.map AuthorizedOpen.sourceAuthorizationId
  covered : ∀ source ∈ db.authorizations, source.audience = .viewer →
    db.awaits source.id = false →
      source.id ∈ taken.map AuthorizedOpen.sourceAuthorizationId
  behind : ∀ row ∈ taken, ∃ checkpoint ∈ db.checkpoint,
    row.id ≤ checkpoint.lastCompletedOpenId
  daily : dailyRollup.Keys db ∧
    dailyRollup.view db = dailyRollup.summary.rollup AuthorizedOpen.dailyKey taken
  viewer : viewerRollup.Keys db ∧
    viewerRollup.view db = viewerRollup.summary.rollup AuthorizedOpen.viewerKey taken
  snapshot : snapshotRollup.Keys db ∧
    snapshotRollup.view db = snapshotRollup.summary.rollup AuthorizedOpen.dashboardId taken

namespace OpenLedger

variable {effects : Set Effect} {taken : List AuthorizedOpen} {before after : Db}

theorem initial : OpenLedger [] Db.empty where
  once := List.nodup_nil
  viewers := by simp [Db.empty]
  sources := by simp [Db.empty]
  recorded := by simp [Db.empty]
  waiting := by simp [Db.empty]
  covered := by simp [Db.empty]
  behind := by simp
  daily := ⟨List.nodup_nil, rfl⟩
  viewer := ⟨List.nodup_nil, rfl⟩
  snapshot := ⟨List.nodup_nil, rfl⟩

/-- A change of the credentials that leaves their scopes and captures. -/
theorem replaced {row original : RenderAuthorization} (hledger : OpenLedger taken before)
    (horiginal : before.authorizations.get? row.id = some original)
    (hscope : original.SameScope row)
    (hcaptured : row.authorizedOpenCapturedAt = original.authorizedOpenCapturedAt) :
    OpenLedger taken { before with authorizations := before.authorizations.replace row } := by
  have hid : original.id = row.id := Table.key_of_get? horiginal
  have haudience : original.audience = row.audience := hscope.2.1
  have hcreated : original.createdAt = row.createdAt := by
    have hrest := hscope
    unfold RenderAuthorization.SameScope at hrest
    simp_all only
  have hopening : original.opening = row.opening := by
    have hrest := hscope
    unfold RenderAuthorization.SameScope at hrest
    unfold RenderAuthorization.opening
    simp_all only
  refine { hledger with viewers := ?_, recorded := ?_, covered := ?_ }
  · intro source hsource
    rcases (Table.mem_replace horiginal).mp hsource with rfl | ⟨hold, _⟩
    · rw [hcaptured, hledger.viewers original (Table.mem_of_get? horiginal), haudience, hcreated]
    · exact hledger.viewers source hold
  · intro opened hopened
    rcases hledger.recorded opened hopened with ⟨source, hsource, hviewer, hsame⟩
    by_cases heq : source.id = row.id
    · have horigin : source = original :=
        Table.eq_of_key_eq hsource (Table.mem_of_get? horiginal) (heq.trans hid.symm)
      subst horigin
      exact ⟨row, (Table.mem_replace horiginal).mpr (.inl rfl), haudience ▸ hviewer,
        hopening ▸ hsame⟩
    · exact ⟨source, (Table.mem_replace horiginal).mpr (.inr ⟨hsource, heq⟩), hviewer, hsame⟩
  · intro source hsource hviewer hawaits
    rcases (Table.mem_replace horiginal).mp hsource with rfl | ⟨hold, _⟩
    · rw [← hid]
      rw [← hid] at hawaits
      exact hledger.covered original (Table.mem_of_get? horiginal) (haudience.trans hviewer)
        hawaits
    · exact hledger.covered source hold hviewer hawaits

theorem previewed {row : RenderAuthorization} {authorizations : Table RenderAuthorization}
    (hledger : OpenLedger taken before) (hpreview : row.audience = .preview)
    (hissued : row.Issued before)
    (hcreate : before.authorizations.create row = some authorizations) :
    OpenLedger taken { before with authorizations := authorizations } := by
  have hne : row.audience ≠ .viewer := by
    rw [hpreview]
    decide
  refine { hledger with viewers := ?_, recorded := ?_, covered := ?_ }
  · intro source hsource
    rcases (Table.mem_of_create hcreate).mp hsource with rfl | hold
    · rw [if_neg hne]
      exact hissued.uncaptured
    · exact hledger.viewers source hold
  · intro opened hopened
    rcases hledger.recorded opened hopened with ⟨source, hsource, hrest⟩
    exact ⟨source, (Table.mem_of_create hcreate).mpr (.inr hsource), hrest⟩
  · intro source hsource hviewer hawaits
    rcases (Table.mem_of_create hcreate).mp hsource with rfl | hold
    · exact absurd hviewer hne
    · exact hledger.covered source hold hviewer hawaits

/-- The open of a new view waits. -/
theorem opened {row : RenderAuthorization} {opened : AuthorizedOpen}
    {authorizations : Table RenderAuthorization} {opens : Table AuthorizedOpen}
    (hledger : OpenLedger taken before)
    (hcreate : before.authorizations.create row = some authorizations)
    (hviewer : row.audience = .viewer) (hopening : row.opening = opened.opening)
    (hcaptured : row.authorizedOpenCapturedAt = some row.createdAt)
    (hunique : ∀ other ∈ before.opens, other.sourceAuthorizationId ≠ row.id)
    (hwaiting : opened.aggregatedAt = none)
    (hopens : before.opens.create opened = some opens) :
    OpenLedger taken { before with opens := opens, authorizations := authorizations } := by
  have hsource : opened.sourceAuthorizationId = row.id :=
    congrArg Opening.sourceId hopening.symm
  have hold : ∀ other, other ∈ before.opens ∨ other ∈ taken →
      ∃ source ∈ authorizations, source.audience = .viewer ∧ source.opening = other.opening := by
    intro other hother
    rcases hledger.recorded other hother with ⟨source, hmem, hrest⟩
    exact ⟨source, (Table.mem_of_create hcreate).mpr (.inr hmem), hrest⟩
  refine { hledger with
    viewers := ?_, sources := ?_, recorded := ?_, waiting := ?_, covered := ?_ }
  · intro source hmem
    rcases (Table.mem_of_create hcreate).mp hmem with rfl | hmem
    · rw [if_pos hviewer, hcaptured]
    · exact hledger.viewers source hmem
  · intro first hfirst second hsecond hsame
    rcases (Table.mem_of_create hopens).mp hfirst with rfl | hfirst
    · rcases (Table.mem_of_create hopens).mp hsecond with rfl | hsecond
      · rfl
      · exact absurd (hsame.symm.trans hsource) (hunique second hsecond)
    · rcases (Table.mem_of_create hopens).mp hsecond with rfl | hsecond
      · exact absurd (hsame.trans hsource) (hunique first hfirst)
      · exact hledger.sources first hfirst second hsecond hsame
  · intro other hother
    rcases hother with hmem | htaken
    · rcases (Table.mem_of_create hopens).mp hmem with rfl | hmem
      · exact ⟨row, (Table.mem_of_create hcreate).mpr (.inl rfl), hviewer, hopening⟩
      · exact hold other (.inl hmem)
    · exact hold other (.inr htaken)
  · intro other hmem hnone
    rcases (Table.mem_of_create hopens).mp hmem with rfl | hmem
    · intro htaken
      rcases List.mem_map.mp htaken with ⟨passed, hpassed, hsame⟩
      rcases hledger.recorded passed (.inr hpassed) with ⟨source, hauthorization, _, heq⟩
      have hid : source.id = row.id :=
        (congrArg Opening.sourceId heq).trans (hsame.trans hsource)
      exact Table.fresh_of_create hcreate source hauthorization hid
    · exact hledger.waiting other hmem hnone
  · intro source hmem haudience hawaits
    rcases (Table.mem_of_create hcreate).mp hmem with rfl | hmem
    · have htrue : Db.awaits { before with opens := opens, authorizations := authorizations }
          source.id = true :=
        Db.awaits_eq_true_iff.mpr
          ⟨opened, (Table.mem_of_create hopens).mpr (.inl rfl), hsource, hwaiting⟩
      rw [htrue] at hawaits
      contradiction
    · apply hledger.covered source hmem haudience
      apply Db.awaits_of_kept ?_ hawaits
      intro other hother _
      exact (Table.mem_of_create hopens).mpr (.inr hother)

/-- A purge deletes opens that the rollups have taken. -/
theorem purged {retained : AuthorizedOpen → Bool} (hledger : OpenLedger taken before)
    (hretained : ∀ row ∈ before.opens, retained row = false → row.aggregatedAt ≠ none) :
    OpenLedger taken { before with opens := before.opens.keep retained } := by
  have hkept : ∀ row ∈ before.opens.keep retained, row ∈ before.opens :=
    fun row hrow => (Table.mem_keep_iff.mp hrow).1
  refine { hledger with sources := ?_, recorded := ?_, waiting := ?_, covered := ?_ }
  · intro first hfirst second hsecond hsame
    exact hledger.sources first (hkept first hfirst) second (hkept second hsecond) hsame
  · intro row hrow
    rcases hrow with hmem | htaken
    · exact hledger.recorded row (.inl (hkept row hmem))
    · exact hledger.recorded row (.inr htaken)
  · intro row hrow hnone
    exact hledger.waiting row (hkept row hrow) hnone
  · intro source hmem haudience hawaits
    apply hledger.covered source hmem haudience
    apply Db.awaits_of_kept ?_ hawaits
    intro row hrow hnone
    rw [Table.mem_keep_iff]
    apply And.intro hrow
    by_contra hremoved
    exact hretained row hrow (Bool.not_eq_true _ ▸ hremoved) hnone

/-! ## An aggregation -/

section Batch

variable {clock : Time} {batch : List AuthorizedOpen}

theorem marked_waiting {row : AuthorizedOpen} {openIds : List ℕ}
    (hnone : (row.marked clock openIds).aggregatedAt = none) :
    row.marked clock openIds = row ∧ row.id ∉ openIds := by
  unfold AuthorizedOpen.marked at hnone ⊢
  split at hnone
  · contradiction
  · rename_i hunmarked
    refine ⟨if_neg hunmarked, ?_⟩
    intro hmem
    exact hunmarked ⟨hmem, hnone⟩

theorem marked_opening (clock : Time) (openIds : List ℕ) (row : AuthorizedOpen) :
    (row.marked clock openIds).opening = row.opening := by
  unfold AuthorizedOpen.marked
  split <;> rfl

/-- Distinct waiting opens. -/
structure Takes (batch : List AuthorizedOpen) (db : Db) : Prop where
  nodup : batch.Nodup
  stored : ∀ row ∈ batch, row ∈ db.opens
  waiting : ∀ row ∈ batch, row.aggregatedAt = none

theorem takes_waitingOpens (db : Db) (through : Time) (limit : ℕ) :
    Takes (db.waitingOpens through limit) db := by
  have hsorted : ∀ row ∈ db.waitingOpens through limit,
      row ∈ db.opens ∧ row.aggregatedAt = none := by
    intro row hrow
    have hmem := List.mem_of_mem_take hrow
    rw [List.mem_insertionSort, Table.mem_where?_iff, decide_eq_true_eq] at hmem
    exact ⟨hmem.1, hmem.2.1⟩
  have hnodup : (db.waitingOpens through limit).Nodup := by
    apply List.Nodup.sublist (List.take_sublist _ _)
    rw [(List.perm_insertionSort _ _).nodup_iff]
    exact db.opens.nodup_rows.filter _
  exact ⟨hnodup, fun row hrow => (hsorted row hrow).1, fun row hrow => (hsorted row hrow).2⟩

end Batch

end OpenLedger

namespace Aggregated

variable {clock : Time} {batch : List AuthorizedOpen} {before after : Db} {row : AuthorizedOpen}

theorem mem_opens (haggregated : Aggregated clock batch before after) :
    row ∈ after.opens ↔
      ∃ old ∈ before.opens, old.marked clock (batch.map AuthorizedOpen.id) = row := by
  rcases haggregated.frame with ⟨_, _, _, _, _, _, hafter⟩
  rw [hafter]
  show row ∈ before.opens.update _ AuthorizedOpen.marked_id ↔ _
  exact Table.mem_update

/-- The opens outside the batch still wait. -/
theorem mem_waiting (haggregated : Aggregated clock batch before after)
    (hbatch : OpenLedger.Takes batch before) :
    row ∈ after.waiting ↔ row ∈ before.waiting ∧ row ∉ batch := by
  rw [Db.mem_waiting, Db.mem_waiting, haggregated.mem_opens]
  constructor
  · rintro ⟨⟨old, hold, rfl⟩, hnone⟩
    rcases OpenLedger.marked_waiting hnone with ⟨hsame, hnot⟩
    rw [hsame] at hnone ⊢
    exact ⟨⟨hold, hnone⟩, fun hmem => hnot (List.mem_map_of_mem hmem)⟩
  · rintro ⟨⟨hold, hnone⟩, hnot⟩
    refine ⟨⟨row, hold, if_neg ?_⟩, hnone⟩
    rintro ⟨hid, _⟩
    rcases List.mem_map.mp hid with ⟨other, hother, hsame⟩
    exact hnot (Table.eq_of_key_eq (hbatch.stored other hother) hold hsame ▸ hother)

end Aggregated

namespace OpenLedger

variable {effects : Set Effect} {taken : List AuthorizedOpen} {before after : Db}

section Batch

variable {clock : Time} {batch : List AuthorizedOpen}

theorem once_append (hledger : OpenLedger taken before) (hbatch : Takes batch before) :
    ((taken ++ batch).map AuthorizedOpen.sourceAuthorizationId).Nodup := by
  rw [List.map_append, List.nodup_append']
  refine ⟨hledger.once, ?_, ?_⟩
  · apply List.Nodup.map_on ?_ hbatch.nodup
    intro first hfirst second hsecond hsame
    exact hledger.sources first (hbatch.stored first hfirst) second
      (hbatch.stored second hsecond) hsame
  · intro sourceId htaken hmem
    rcases List.mem_map.mp hmem with ⟨row, hrow, rfl⟩
    exact hledger.waiting row (hbatch.stored row hrow) (hbatch.waiting row hrow) htaken

theorem sources_aggregated (hledger : OpenLedger taken before)
    (haggregated : Aggregated clock batch before after) :
    ∀ first ∈ after.opens, ∀ second ∈ after.opens,
      first.sourceAuthorizationId = second.sourceAuthorizationId → first = second := by
  intro first hfirst second hsecond hsame
  rcases haggregated.mem_opens.mp hfirst with ⟨one, hone, rfl⟩
  rcases haggregated.mem_opens.mp hsecond with ⟨two, htwo, rfl⟩
  have hsource : one.sourceAuthorizationId = two.sourceAuthorizationId := by
    have hfirstSource := congrArg Opening.sourceId
      (marked_opening clock (batch.map AuthorizedOpen.id) one)
    have hsecondSource := congrArg Opening.sourceId
      (marked_opening clock (batch.map AuthorizedOpen.id) two)
    exact hfirstSource.symm.trans (hsame.trans hsecondSource)
  rw [hledger.sources one hone two htwo hsource]

theorem recorded_aggregated (hledger : OpenLedger taken before) (hbatch : Takes batch before)
    (haggregated : Aggregated clock batch before after) :
    ∀ row, row ∈ after.opens ∨ row ∈ taken ++ batch →
      ∃ source ∈ before.authorizations,
        source.audience = .viewer ∧ source.opening = row.opening := by
  intro row hrow
  rcases hrow with hmem | hmem
  · rcases haggregated.mem_opens.mp hmem with ⟨old, hold, rfl⟩
    rw [marked_opening]
    exact hledger.recorded old (.inl hold)
  · rcases List.mem_append.mp hmem with htaken | hnew
    · exact hledger.recorded row (.inr htaken)
    · exact hledger.recorded row (.inl (hbatch.stored row hnew))

theorem waiting_aggregated (hledger : OpenLedger taken before) (hbatch : Takes batch before)
    (haggregated : Aggregated clock batch before after) :
    ∀ row ∈ after.opens, row.aggregatedAt = none →
      row.sourceAuthorizationId ∉ (taken ++ batch).map AuthorizedOpen.sourceAuthorizationId := by
  intro row hrow hnone
  rcases (haggregated.mem_waiting hbatch).mp (Db.mem_waiting.mpr ⟨hrow, hnone⟩) with
    ⟨hwaiting, hnot⟩
  have hold := (Db.mem_waiting.mp hwaiting).1
  rw [List.map_append, List.mem_append, not_or]
  refine ⟨hledger.waiting row hold hnone, ?_⟩
  intro hmem
  rcases List.mem_map.mp hmem with ⟨other, hother, hsame⟩
  exact hnot (hledger.sources other (hbatch.stored other hother) row hold hsame ▸ hother)

/-- The views whose opens have stopped waiting are those of the batch. -/
theorem covered_aggregated (hledger : OpenLedger taken before) (hbatch : Takes batch before)
    (haggregated : Aggregated clock batch before after) :
    ∀ source ∈ before.authorizations, source.audience = .viewer →
      after.awaits source.id = false →
        source.id ∈ (taken ++ batch).map AuthorizedOpen.sourceAuthorizationId := by
  intro source hsource haudience hawaits
  rw [List.map_append, List.mem_append]
  by_cases hbefore : before.awaits source.id = true
  · rcases Db.awaits_eq_true_iff.mp hbefore with ⟨row, hrow, hid, hnone⟩
    by_cases hmem : row ∈ batch
    · exact .inr (List.mem_map.mpr ⟨row, hmem, hid⟩)
    · have hstill := (haggregated.mem_waiting hbatch).mpr
        ⟨Db.mem_waiting.mpr ⟨hrow, hnone⟩, hmem⟩
      have htrue : after.awaits source.id = true :=
        Db.awaits_eq_true_iff.mpr ⟨row, (Db.mem_waiting.mp hstill).1, hid, hnone⟩
      rw [htrue] at hawaits
      contradiction
  · exact .inl (hledger.covered source hsource haudience (Bool.not_eq_true _ ▸ hbefore))

theorem behind_aggregated (hledger : OpenLedger taken before)
    (haggregated : Aggregated clock batch before after) :
    ∀ row ∈ taken ++ batch, ∃ checkpoint ∈ after.checkpoint,
      row.id ≤ checkpoint.lastCompletedOpenId := by
  rcases haggregated.checkpoint with ⟨checkpoint, hcheckpoint, hlater, hpassed⟩
  intro row hrow
  refine ⟨checkpoint, hcheckpoint, ?_⟩
  rcases List.mem_append.mp hrow with htaken | hnew
  · rcases hledger.behind row htaken with ⟨earlier, hearlier, hle⟩
    exact hle.trans (hlater earlier hearlier)
  · exact hpassed row hnew

/-- The rollups take a batch that waited. -/
theorem aggregated (hledger : OpenLedger taken before) (hbatch : Takes batch before)
    (haggregated : Aggregated clock batch before after) : OpenLedger (taken ++ batch) after := by
  rcases haggregated.frame with ⟨_, _, _, _, _, _, hafter⟩
  have hauthorizations : after.authorizations = before.authorizations := by rw [hafter]
  rcases haggregated.daily hledger.daily.1 with ⟨hdailyKeys, hdaily⟩
  rcases haggregated.viewer hledger.viewer.1 with ⟨hviewerKeys, hviewer⟩
  rcases haggregated.snapshot hledger.snapshot.1 with ⟨hsnapshotKeys, hsnapshot⟩
  rw [hledger.daily.2, Summary.rollup_append] at hdaily
  rw [hledger.viewer.2, Summary.rollup_append] at hviewer
  rw [hledger.snapshot.2, Summary.rollup_append] at hsnapshot
  constructor
  · exact hledger.once_append hbatch
  · rw [hauthorizations]
    exact hledger.viewers
  · exact hledger.sources_aggregated haggregated
  · rw [hauthorizations]
    exact hledger.recorded_aggregated hbatch haggregated
  · exact hledger.waiting_aggregated hbatch haggregated
  · rw [hauthorizations]
    exact hledger.covered_aggregated hbatch haggregated
  · exact hledger.behind_aggregated haggregated
  · exact ⟨hdailyKeys, hdaily⟩
  · exact ⟨hviewerKeys, hviewer⟩
  · exact ⟨hsnapshotKeys, hsnapshot⟩

end Batch

/-! ## Every run -/

theorem change (hledger : OpenLedger taken before) (hchange : Change effects before after) :
    ∃ batch, OpenLedger (taken ++ batch) after := by
  cases hchange with
  | previewInserted hpreview hissued hcreate =>
      refine ⟨[], ?_⟩
      rw [List.append_nil]
      exact hledger.previewed hpreview hissued hcreate
  | authorizationRevoked horiginal hscope _ hcaptured =>
      refine ⟨[], ?_⟩
      rw [List.append_nil]
      exact hledger.replaced horiginal hscope hcaptured
  | @viewInserted row opened authorizations opens _ _ hcreate _ hsource hcaptured hunique
      hwaiting hopens =>
      refine ⟨[], ?_⟩
      rw [List.append_nil]
      refine hledger.opened (Table.create_replace hcreate ?_) hcaptured.viewer ?_ ?_ ?_ hwaiting
        hopens
      · rfl
      · simp only [RenderAuthorization.opening, AuthorizedOpen.opening, hsource,
          hcaptured.dashboardId, hcaptured.viewerId, hcaptured.openedAt]
      · exact congrArg some hcaptured.openedAt
      · exact hunique
  | openCaptured _ _ hsource hcaptured =>
      have hmarked := hledger.viewers _ (Table.mem_of_get? hsource)
      rw [if_pos hcaptured.viewer, hcaptured.uncaptured] at hmarked
      contradiction
  | analyticsChanged _ _ _ hcall =>
      rcases hcall with ⟨_, _, _, _, hruns⟩ | ⟨_, _, _, _, hruns⟩
      · have haggregated := (aggregateAuthorizedOpens_runs hruns).1
        exact ⟨_, hledger.aggregated (takes_waitingOpens _ _ _) haggregated⟩
      · rcases purgeAuthorizedOpens_runs hruns with ⟨retained, hafter, hremoved⟩
        refine ⟨[], ?_⟩
        rw [hafter, List.append_nil]
        exact hledger.purged fun row hrow hfalse => (hremoved row hrow hfalse).1
  | _ =>
      refine ⟨[], ?_⟩
      rw [List.append_nil]
      exact { hledger with }

theorem changes (hledger : OpenLedger taken before) (hchanges : Changes effects before after) :
    ∃ batch, OpenLedger (taken ++ batch) after := by
  induction hchanges with
  | refl => exact ⟨[], by rwa [List.append_nil]⟩
  | tail _ hlast ih =>
      rcases ih with ⟨first, hfirst⟩
      rcases hfirst.change hlast with ⟨second, hsecond⟩
      rw [List.append_assoc] at hsecond
      exact ⟨first ++ second, hsecond⟩

/-- Every credential of a view that does not wait is in the ledger once, and no other. -/
theorem counted_perm (hledger : OpenLedger taken before) :
    (before.counted.map RenderAuthorization.opening).Perm
      (taken.map AuthorizedOpen.opening) := by
  have hleft : (before.counted.map RenderAuthorization.opening).Nodup := by
    apply List.Nodup.of_map Opening.sourceId
    rw [List.map_map]
    exact before.authorizations.nodupKeys.sublist (List.filter_sublist.map _)
  have hright : (taken.map AuthorizedOpen.opening).Nodup := by
    apply List.Nodup.of_map Opening.sourceId
    rw [List.map_map]
    exact hledger.once
  rw [List.perm_ext_iff_of_nodup hleft hright]
  intro opening
  rw [List.mem_map, List.mem_map]
  constructor
  · rintro ⟨source, hsource, rfl⟩
    rw [Db.counted, Table.mem_where?_iff, decide_eq_true_eq] at hsource
    rcases hsource with ⟨hmem, haudience, hawaits⟩
    rcases List.mem_map.mp (hledger.covered source hmem haudience hawaits) with
      ⟨row, hrow, hid⟩
    rcases hledger.recorded row (.inr hrow) with ⟨other, hother, _, hsame⟩
    have hkey : other.id = source.id := (congrArg Opening.sourceId hsame).trans hid
    rw [Table.eq_of_key_eq hother hmem hkey] at hsame
    exact ⟨row, hrow, hsame.symm⟩
  · rintro ⟨row, hrow, rfl⟩
    rcases hledger.recorded row (.inr hrow) with ⟨source, hsource, haudience, hsame⟩
    refine ⟨source, ?_, hsame⟩
    rw [Db.counted, Table.mem_where?_iff, decide_eq_true_eq]
    refine ⟨hsource, haudience, ?_⟩
    by_contra hawaits
    rw [Bool.not_eq_false, Db.awaits_eq_true_iff] at hawaits
    rcases hawaits with ⟨waiting, hwaiting, hid, hnone⟩
    apply hledger.waiting waiting hwaiting hnone
    rw [hid]
    exact List.mem_map.mpr ⟨row, hrow, (congrArg Opening.sourceId hsame).symm⟩

/-- Selecting the views that do not wait selects as many opens of the ledger. -/
theorem counted_length (hledger : OpenLedger taken before) (selected : Opening → Bool) :
    (before.counted.filter fun row => selected row.opening).length =
      (taken.filter fun row => selected row.opening).length := by
  have hperm := (hledger.counted_perm.filter selected).length_eq
  rw [List.filter_map, List.filter_map, List.length_map, List.length_map] at hperm
  exact hperm

end OpenLedger

theorem ledger_of_reachable {platform : Platform} {db : Db}
    (hreach : (serviceSystem platform).Reachable db) : ∃ taken, OpenLedger taken db := by
  apply reachable_induction (motive := fun db => ∃ taken, OpenLedger taken db) hreach
  · exact ⟨[], .initial⟩
  intro before after hbefore hchange
  rcases hbefore with ⟨taken, hledger⟩
  rcases hledger.change hchange with ⟨batch, hafter⟩
  exact ⟨taken ++ batch, hafter⟩

/-! ## The rollups count the views -/

/-- The views of a dashboard whose opens have been aggregated. -/
def Db.countedOf (db : Db) (dashboardId : Uuid) : List RenderAuthorization :=
  db.counted.filter fun row => row.dashboardId = dashboardId

/-- The rollups of a dashboard count each of its aggregated views once. -/
structure Db.Tallies (db : Db) (dashboardId : Uuid) : Prop where
  days : ((db.dailyRollups.where? fun row => row.dashboardId = dashboardId).map
    DashboardOpenDaily.authorizedOpenCount).sum = (db.countedOf dashboardId).length
  viewers : ((db.viewerSummaries.where? fun row => row.dashboardId = dashboardId).map
    DashboardViewerOpenSummary.authorizedOpenCount).sum = (db.countedOf dashboardId).length
  snapshots : ((db.snapshots.where? fun row => row.dashboardId = dashboardId).map
    DashboardOpenSnapshot.authorizedOpenCount).sum = (db.countedOf dashboardId).length
  day : ∀ row ∈ db.dailyRollups, row.dashboardId = dashboardId →
    row.authorizedOpenCount =
      ((db.countedOf dashboardId).filter fun view => Time.date view.createdAt = row.day).length
  viewer : ∀ row ∈ db.viewerSummaries, row.dashboardId = dashboardId →
    row.authorizedOpenCount =
      ((db.countedOf dashboardId).filter fun view => view.viewerId = row.viewerId).length
  times : ∀ row ∈ db.viewerSummaries, row.dashboardId = dashboardId →
    IsLeast {time | ∃ view ∈ db.countedOf dashboardId,
      view.viewerId = row.viewerId ∧ view.createdAt = time} row.firstOpenedAt ∧
    IsGreatest {time | ∃ view ∈ db.countedOf dashboardId,
      view.viewerId = row.viewerId ∧ view.createdAt = time} row.lastOpenedAt
  latest : ∀ row ∈ db.snapshots, row.dashboardId = dashboardId →
    IsGreatest {time | ∃ view ∈ db.countedOf dashboardId, view.createdAt = time}
      row.lastOpenedAt

namespace OpenRollup

variable {ρ κ ν : Type} [Keyed ρ ℕ] [DecidableEq κ] {rollup : OpenRollup ρ κ ν}
  {taken : List AuthorizedOpen} {db : Db}

theorem of_mem (hkeys : rollup.Keys db)
    (hview : rollup.view db = rollup.summary.rollup rollup.eventKey taken)
    {row : ρ} (hrow : row ∈ rollup.read db) :
    rollup.summary.of (taken.filter fun event => rollup.eventKey event = rollup.key row) =
      some (rollup.value row) := by
  have hheld : rollup.view db (rollup.key row) = some (rollup.value row) :=
    (Table.viewed_eq_some_iff hkeys).mpr ⟨row, hrow, rfl, rfl⟩
  rw [hview] at hheld
  exact hheld

/-- The counts of the selected rows are the events under their keys. -/
theorem sum_counts (count : ν → ℕ) (hkeys : rollup.Keys db)
    (hview : rollup.view db = rollup.summary.rollup rollup.eventKey taken)
    (hmeasure : ∀ event, count (rollup.summary.measure event) = 1)
    (hmerge : ∀ first second,
      count (rollup.summary.merge first second) = count first + count second)
    (selected : κ → Bool) :
    (((rollup.read db).rows.filter fun row => selected (rollup.key row)).map
      fun row => count (rollup.value row)).sum =
        (taken.filter fun event => selected (rollup.eventKey event)).length := by
  apply Table.sum_viewed_counting hkeys
  intro wanted
  have hprojected := congrArg (Option.map count) (congrFun hview wanted)
  rw [view, Table.map_viewed] at hprojected
  rw [hprojected]
  exact Summary.map_of (Summary.counting AuthorizedOpen) hmeasure hmerge _

theorem count_of_mem (count : ν → ℕ) (hkeys : rollup.Keys db)
    (hview : rollup.view db = rollup.summary.rollup rollup.eventKey taken)
    (hmeasure : ∀ event, count (rollup.summary.measure event) = 1)
    (hmerge : ∀ first second,
      count (rollup.summary.merge first second) = count first + count second)
    {row : ρ} (hrow : row ∈ rollup.read db) :
    count (rollup.value row) =
      (taken.filter fun event => rollup.eventKey event = rollup.key row).length := by
  have hof := congrArg (Option.map count) (of_mem hkeys hview hrow)
  rw [Summary.map_of (Summary.counting AuthorizedOpen) hmeasure hmerge,
    Summary.counting_of] at hof
  split at hof
  · contradiction
  · exact (Option.some.inj hof).symm

end OpenRollup

namespace OpenLedger

variable {taken : List AuthorizedOpen} {db : Db} {dashboardId : Uuid}

theorem countedOf_length_all (hledger : OpenLedger taken db) :
    (db.countedOf dashboardId).length =
      (taken.filter fun row => decide (row.dashboardId = dashboardId)).length :=
  hledger.counted_length fun opening => decide (opening.dashboardId = dashboardId)

theorem countedOf_length (hledger : OpenLedger taken db) (dashboardId : Uuid)
    (selected : Opening → Bool) :
    ((db.countedOf dashboardId).filter fun row => selected row.opening).length =
      (taken.filter fun row =>
        decide (row.dashboardId = dashboardId) && selected row.opening).length := by
  have hlength := hledger.counted_length fun opening =>
    selected opening && decide (opening.dashboardId = dashboardId)
  rw [Db.countedOf, List.filter_filter]
  refine hlength.trans (congrArg List.length (List.filter_congr ?_))
  intro row _
  exact Bool.and_comm _ _

theorem exists_counted_iff (hledger : OpenLedger taken db) (holds : Opening → Prop) :
    (∃ view ∈ db.counted, holds view.opening) ↔ ∃ row ∈ taken, holds row.opening := by
  have hmem := fun opening => hledger.counted_perm.mem_iff (a := opening)
  simp only [List.mem_map] at hmem
  constructor
  · rintro ⟨view, hview, hholds⟩
    rcases (hmem view.opening).mp ⟨view, hview, rfl⟩ with ⟨row, hrow, hsame⟩
    exact ⟨row, hrow, hsame ▸ hholds⟩
  · rintro ⟨row, hrow, hholds⟩
    rcases (hmem row.opening).mpr ⟨row, hrow, rfl⟩ with ⟨view, hview, hsame⟩
    exact ⟨view, hview, hsame ▸ hholds⟩

theorem days (hledger : OpenLedger taken db) :
    ((db.dailyRollups.where? fun row => row.dashboardId = dashboardId).map
      DashboardOpenDaily.authorizedOpenCount).sum = (db.countedOf dashboardId).length := by
  rw [hledger.countedOf_length_all]
  exact dailyRollup.sum_counts id hledger.daily.1 hledger.daily.2 (fun _ => rfl)
    (fun _ _ => rfl) fun key => decide (key.1 = dashboardId)

theorem viewerCounts (hledger : OpenLedger taken db) :
    ((db.viewerSummaries.where? fun row => row.dashboardId = dashboardId).map
      DashboardViewerOpenSummary.authorizedOpenCount).sum =
        (db.countedOf dashboardId).length := by
  rw [hledger.countedOf_length_all]
  exact viewerRollup.sum_counts Prod.fst hledger.viewer.1 hledger.viewer.2
    (fun _ => rfl) (fun _ _ => rfl) fun key => decide (key.1 = dashboardId)

theorem snapshotCounts (hledger : OpenLedger taken db) :
    ((db.snapshots.where? fun row => row.dashboardId = dashboardId).map
      DashboardOpenSnapshot.authorizedOpenCount).sum = (db.countedOf dashboardId).length := by
  rw [hledger.countedOf_length_all]
  exact snapshotRollup.sum_counts Prod.fst hledger.snapshot.1 hledger.snapshot.2
    (fun _ => rfl) (fun _ _ => rfl) fun key => decide (key = dashboardId)

theorem dayCount (hledger : OpenLedger taken db) {row : DashboardOpenDaily}
    (hrow : row ∈ db.dailyRollups) :
    row.authorizedOpenCount =
      ((db.countedOf row.dashboardId).filter fun view =>
        Time.date view.createdAt = row.day).length := by
  have hcount := dailyRollup.count_of_mem id hledger.daily.1 hledger.daily.2
    (fun _ => rfl) (fun _ _ => rfl) hrow
  have hlength := hledger.countedOf_length row.dashboardId fun opening =>
    decide (Time.date opening.openedAt = row.day)
  refine hcount.trans (Eq.trans (congrArg List.length (List.filter_congr ?_)) hlength.symm)
  intro opened _
  rw [← Bool.decide_and, decide_eq_decide]
  exact Prod.mk.injEq _ _ _ _ ▸ Iff.rfl

theorem viewerCount (hledger : OpenLedger taken db) {row : DashboardViewerOpenSummary}
    (hrow : row ∈ db.viewerSummaries) :
    row.authorizedOpenCount =
      ((db.countedOf row.dashboardId).filter fun view =>
        view.viewerId = row.viewerId).length := by
  have hcount := viewerRollup.count_of_mem Prod.fst hledger.viewer.1 hledger.viewer.2
    (fun _ => rfl) (fun _ _ => rfl) hrow
  have hlength := hledger.countedOf_length row.dashboardId fun opening =>
    decide (opening.viewerId = row.viewerId)
  refine hcount.trans (Eq.trans (congrArg List.length (List.filter_congr ?_)) hlength.symm)
  intro opened _
  rw [← Bool.decide_and, decide_eq_decide]
  exact Prod.mk.injEq _ _ _ _ ▸ Iff.rfl

end OpenLedger

theorem isLeast_of_earliest {events : List AuthorizedOpen} {first : Time}
    (hfirst : earliest events = some first) :
    IsLeast {time | ∃ row ∈ events, row.openedAt = time} first := by
  rcases List.min?_eq_some_iff.mp hfirst with ⟨hmem, hle⟩
  constructor
  · exact List.mem_map.mp hmem
  · rintro time ⟨row, hrow, rfl⟩
    exact hle _ (List.mem_map_of_mem hrow)

theorem isGreatest_of_latest {events : List AuthorizedOpen} {last : Time}
    (hlast : latest events = some last) :
    IsGreatest {time | ∃ row ∈ events, row.openedAt = time} last := by
  rcases List.max?_eq_some_iff.mp hlast with ⟨hmem, hle⟩
  constructor
  · exact List.mem_map.mp hmem
  · rintro time ⟨row, hrow, rfl⟩
    exact hle _ (List.mem_map_of_mem hrow)

namespace OpenLedger

variable {taken : List AuthorizedOpen} {db : Db}

theorem viewerTimes (hledger : OpenLedger taken db) (dashboardId viewerId : Uuid) :
    {time | ∃ view ∈ db.countedOf dashboardId,
      view.viewerId = viewerId ∧ view.createdAt = time} =
    {time | ∃ row ∈ taken.filter fun event => event.viewerKey = (dashboardId, viewerId),
      row.openedAt = time} := by
  ext time
  have hexists := hledger.exists_counted_iff fun opening =>
    opening.dashboardId = dashboardId ∧ opening.viewerId = viewerId ∧ opening.openedAt = time
  simp only [Set.mem_ofPred_eq, Db.countedOf, List.mem_filter, decide_eq_true_eq, and_assoc,
    AuthorizedOpen.viewerKey, Prod.mk.injEq]
  exact hexists

theorem dashboardTimes (hledger : OpenLedger taken db) (dashboardId : Uuid) :
    {time | ∃ view ∈ db.countedOf dashboardId, view.createdAt = time} =
    {time | ∃ row ∈ taken.filter fun event => event.dashboardId = dashboardId,
      row.openedAt = time} := by
  ext time
  have hexists := hledger.exists_counted_iff fun opening =>
    opening.dashboardId = dashboardId ∧ opening.openedAt = time
  simp only [Set.mem_ofPred_eq, Db.countedOf, List.mem_filter, decide_eq_true_eq, and_assoc]
  exact hexists

theorem times (hledger : OpenLedger taken db) {row : DashboardViewerOpenSummary}
    (hrow : row ∈ db.viewerSummaries) :
    earliest (taken.filter fun event => event.viewerKey = (row.dashboardId, row.viewerId)) =
        some row.firstOpenedAt ∧
      latest (taken.filter fun event => event.viewerKey = (row.dashboardId, row.viewerId)) =
        some row.lastOpenedAt := by
  have hof := viewerRollup.of_mem hledger.viewer.1 hledger.viewer.2 hrow
  have hboth := (viewerSummary_of _).symm.trans hof
  simp only [Option.bind_eq_some_iff, Option.map_eq_some_iff] at hboth
  rcases hboth with ⟨first, hfirst, last, hlast, hvalue⟩
  have hrowValue : viewerRollup.value row =
    (row.authorizedOpenCount, row.firstOpenedAt, row.lastOpenedAt) := rfl
  rw [hrowValue, Prod.mk.injEq, Prod.mk.injEq] at hvalue
  rw [← hvalue.2.1, ← hvalue.2.2]
  exact ⟨hfirst, hlast⟩

theorem latest_of_mem (hledger : OpenLedger taken db) {row : DashboardOpenSnapshot}
    (hrow : row ∈ db.snapshots) :
    latest (taken.filter fun event => event.dashboardId = row.dashboardId) =
      some row.lastOpenedAt := by
  have hof := snapshotRollup.of_mem hledger.snapshot.1 hledger.snapshot.2 hrow
  have hboth := (snapshotSummary_of _).symm.trans hof
  simp only [Option.bind_eq_some_iff, Option.map_eq_some_iff] at hboth
  rcases hboth with ⟨last, hlast, highest, _, hvalue⟩
  have hrowValue : snapshotRollup.value row =
    (row.authorizedOpenCount, row.lastOpenedAt, row.capturedThroughOpenId) := rfl
  rw [hrowValue, Prod.mk.injEq, Prod.mk.injEq] at hvalue
  rw [← hvalue.2.1]
  exact hlast

theorem tallies (hledger : OpenLedger taken db) (dashboardId : Uuid) : db.Tallies dashboardId where
  days := hledger.days
  viewers := hledger.viewerCounts
  snapshots := hledger.snapshotCounts
  day row hrow hdashboard := hdashboard ▸ hledger.dayCount hrow
  viewer row hrow hdashboard := hdashboard ▸ hledger.viewerCount hrow
  times row hrow hdashboard := by
    subst hdashboard
    rw [hledger.viewerTimes]
    exact ⟨isLeast_of_earliest (hledger.times hrow).1,
      isGreatest_of_latest (hledger.times hrow).2⟩
  latest row hrow hdashboard := by
    subst hdashboard
    rw [hledger.dashboardTimes]
    exact isGreatest_of_latest (hledger.latest_of_mem hrow)

end OpenLedger

/-- The rollups of every dashboard count each view once whose open does not wait. -/
theorem rollups_tally {platform : Platform} {db : Db}
    (hreach : (serviceSystem platform).Reachable db) (dashboardId : Uuid) :
    db.Tallies dashboardId := by
  rcases ledger_of_reachable hreach with ⟨taken, hledger⟩
  exact hledger.tallies dashboardId

/-- The second user and the owner open the published view. -/
def viewedCalls : List ServiceCall :=
  publishedCalls ++
    [⟨contextAt 8 8, .issuePublishedView firstToken 3 2 8⟩,
      ⟨contextAt 9 10, .issuePublishedView secondToken 3 1 9⟩]

/-- One aggregation takes both views. -/
def oneBatch : List ServiceCall :=
  [⟨contextAt 10 12, .aggregateAuthorizedOpens 9 2⟩]

/-- Each of two aggregations takes one view, and a purge runs in between. -/
def twoBatches : List ServiceCall :=
  [⟨contextAt 10 12, .aggregateAuthorizedOpens 9 1⟩,
    ⟨contextAt (days 100) 12, .purgeAuthorizedOpens (days 1) 5⟩,
    ⟨contextAt (days 100) 12, .aggregateAuthorizedOpens 9 1⟩]

theorem viewed_rollups_tally :
    (runCalls asciiPlatform (viewedCalls ++ oneBatch)).snapshots.rows.map
        DashboardOpenSnapshot.authorizedOpenCount = [2] ∧
      (runCalls asciiPlatform (viewedCalls ++ oneBatch)).Tallies 3 :=
  ⟨by decide +kernel, rollups_tally (reachable_runCalls _) 3⟩

/-! ## The cuts of the batches -/

/-- The openings, with the bounds of their times. -/
def viewerOpenings : Summary Opening (ℕ × Time × Time) where
  measure opening := (1, opening.openedAt, opening.openedAt)
  merge := viewerSummary.merge
  assoc := viewerSummary.assoc
  comm := viewerSummary.comm

/-- The openings and the latest time. -/
def latestOpenings : Summary Opening (ℕ × Time) where
  measure opening := (1, opening.openedAt)
  merge first second := (first.1 + second.1, max first.2 second.2)
  assoc first second third := by
    simp only [Nat.add_assoc, max_assoc]
  comm first second := by
    simp only [Nat.add_comm, max_comm]

/-- The two databases report the same aggregates. -/
structure SameAggregates (first second : Db) : Prop where
  daily : dailyRollup.view first = dailyRollup.view second
  viewer : viewerRollup.view first = viewerRollup.view second
  snapshot : ∀ dashboardId,
    (snapshotRollup.view first dashboardId).map (fun held => (held.1, held.2.1)) =
      (snapshotRollup.view second dashboardId).map fun held => (held.1, held.2.1)

namespace OpenLedger

variable {taken : List AuthorizedOpen} {db : Db}

theorem dailyView (hledger : OpenLedger taken db) :
    dailyRollup.view db = (Summary.counting Opening).rollup
      (fun opening => (opening.dashboardId, Time.date opening.openedAt))
      (taken.map AuthorizedOpen.opening) :=
  hledger.daily.2.trans (Summary.along_rollup (Summary.counting Opening)
    AuthorizedOpen.opening (fun opening => (opening.dashboardId, Time.date opening.openedAt))
    taken)

theorem viewerView (hledger : OpenLedger taken db) :
    viewerRollup.view db = viewerOpenings.rollup
      (fun opening => (opening.dashboardId, opening.viewerId))
      (taken.map AuthorizedOpen.opening) :=
  hledger.viewer.2.trans (Summary.along_rollup viewerOpenings AuthorizedOpen.opening
    (fun opening => (opening.dashboardId, opening.viewerId)) taken)

theorem snapshotView (hledger : OpenLedger taken db) (dashboardId : Uuid) :
    (snapshotRollup.view db dashboardId).map (fun held => (held.1, held.2.1)) =
      latestOpenings.rollup Opening.dashboardId (taken.map AuthorizedOpen.opening)
        dashboardId := by
  rw [hledger.snapshot.2, ← Summary.along_rollup]
  exact Summary.map_of (latestOpenings.along AuthorizedOpen.opening) (fun _ => rfl)
    (fun _ _ => rfl) _

end OpenLedger

/-- The aggregates depend only on which views have been aggregated. -/
theorem sameAggregates_of_perm {firstPlatform secondPlatform : Platform} {first second : Db}
    (hfirst : (serviceSystem firstPlatform).Reachable first)
    (hsecond : (serviceSystem secondPlatform).Reachable second)
    (hcounted : (first.counted.map RenderAuthorization.opening).Perm
      (second.counted.map RenderAuthorization.opening)) :
    SameAggregates first second := by
  rcases ledger_of_reachable hfirst with ⟨one, hone⟩
  rcases ledger_of_reachable hsecond with ⟨two, htwo⟩
  have hperm : (one.map AuthorizedOpen.opening).Perm (two.map AuthorizedOpen.opening) :=
    hone.counted_perm.symm.trans (hcounted.trans htwo.counted_perm)
  constructor
  · rw [hone.dailyView, htwo.dailyView]
    exact Summary.rollup_perm _ hperm
  · rw [hone.viewerView, htwo.viewerView]
    exact Summary.rollup_perm _ hperm
  · intro dashboardId
    rw [hone.snapshotView, htwo.snapshotView, Summary.rollup_perm _ hperm]

/-- The operations of the analytics jobs. -/
def Operation.isAnalytics : Operation → Bool
  | .aggregateAuthorizedOpens .. | .purgeAuthorizedOpens .. => true
  | _ => false

theorem analytics_authorizations {platform : Platform} {call : ServiceCall} {db : Db}
    (hcall : call.operation.isAnalytics = true) :
    ((call.body platform).settle db).authorizations = db.authorizations := by
  refine settle_induction (motive := fun after : Db => after.authorizations = db.authorizations)
    rfl ?_
  intro result after hruns
  have hbody := ServiceCall.runs_body.mp hruns
  rcases call with ⟨context, operation⟩
  cases operation with
  | aggregateAuthorizedOpens through batchSize =>
      rcases (aggregateAuthorizedOpens_runs hbody).1.frame with ⟨_, _, _, _, _, _, hafter⟩
      rw [hafter]
      rfl
  | purgeAuthorizedOpens bound batchSize =>
      rcases purgeAuthorizedOpens_runs hbody with ⟨_, hafter, _⟩
      rw [hafter]
      rfl
  | _ => contradiction

theorem analytics_path_authorizations {platform : Platform} {before after : Db}
    {calls : List ServiceCall} (hpath : (serviceSystem platform).Path before calls after)
    (hcalls : ∀ call ∈ calls, call.operation.isAnalytics = true) :
    after.authorizations = before.authorizations := by
  induction hpath with
  | refl => rfl
  | @cons first middle last call rest hstep _ ih =>
      have hmiddle : middle = (call.body platform).settle first := hstep
      rw [ih fun other hother => hcalls other (List.mem_cons_of_mem _ hother), hmiddle]
      exact analytics_authorizations (hcalls call (List.mem_cons_self ..))

/-- However the waiting opens are cut into batches, and whatever is purged in between. -/
theorem cuts_agree {platform : Platform} {db first second : Db}
    {firstCalls secondCalls : List ServiceCall}
    (hreach : (serviceSystem platform).Reachable db)
    (hfirst : (serviceSystem platform).Path db firstCalls first)
    (hsecond : (serviceSystem platform).Path db secondCalls second)
    (hfirstCalls : ∀ call ∈ firstCalls, call.operation.isAnalytics = true)
    (hsecondCalls : ∀ call ∈ secondCalls, call.operation.isAnalytics = true)
    (hsame : ∀ authorizationId, first.awaits authorizationId = second.awaits authorizationId) :
    SameAggregates first second := by
  apply sameAggregates_of_perm (hreach.path hfirst) (hreach.path hsecond)
  have hcounted : first.counted = second.counted := by
    unfold Db.counted
    rw [analytics_path_authorizations hfirst hfirstCalls,
      analytics_path_authorizations hsecond hsecondCalls]
    simp only [hsame]
  rw [hcounted]

theorem two_cuts_agree :
    SameAggregates (runFrom asciiPlatform (runCalls asciiPlatform viewedCalls) oneBatch)
      (runFrom asciiPlatform (runCalls asciiPlatform viewedCalls) twoBatches) := by
  apply cuts_agree (reachable_runCalls viewedCalls) (path_runFrom oneBatch _)
    (path_runFrom twoBatches _)
  · decide
  · decide
  · intro authorizationId
    rw [Db.awaits_of_drained (by decide +kernel), Db.awaits_of_drained (by decide +kernel)]

/-! ## Repeated captures -/

theorem exists_loaded {platform : Platform} {db : Db} {source : RenderAuthorization}
    (hreach : (serviceSystem platform).Reachable db) (hsource : source ∈ db.authorizations) :
    ∃ loaded, db.loadAuthorization source = some loaded := by
  have hbound := (credentials_of_reachable hreach).bound source hsource
  rcases hbound.dashboard with ⟨dashboard, hdashboard, _⟩
  rcases hbound.viewer with ⟨viewer, hviewer, _⟩
  rcases hbound.revision with ⟨revision, hrevision, _⟩
  exact ⟨⟨source, dashboard, viewer, revision, source.viewerGrantId.bind db.grants.get?⟩,
    Db.loadAuthorization_eq_some_iff.mpr ⟨rfl, hdashboard, hviewer, hrevision, rfl⟩⟩

theorem audience_of_canSourceOpen {source : RenderAuthorization} {dashboard : Dashboard}
    {viewer : User} {grant : Option ViewerGrant}
    (hcan : source.canSourceOpen dashboard viewer grant = true) : source.audience = .viewer := by
  unfold RenderAuthorization.canSourceOpen at hcan
  by_contra hpreview
  simp [hpreview] at hcan

theorem OpenLedger.captures_nothing {taken : List AuthorizedOpen} {db after : Db}
    {authorizationId : Uuid} {recorded : Bool} (hledger : OpenLedger taken db)
    (hruns : (captureAuthorizedOpen authorizationId).Runs db recorded after) :
    recorded = false ∧ after = db ∧
      ∃ source ∈ db.authorizations, source.id = authorizationId ∧
        source.audience = .viewer := by
  rcases captureAuthorizedOpen_cases hruns with ⟨rfl, rfl⟩ |
    ⟨_, row, version, middle, mark, _, _, _, hinsert, _⟩
  · refine ⟨rfl, rfl, ?_⟩
    simp only [captureAuthorizedOpen, runs_bind, runs_get, runs_found, runs_check, runs_ite,
      runs_pure, and_assoc, exists_and_left, exists_eq_left', exists_const] at hruns
    rcases hruns with ⟨loaded, hloaded, hrest⟩
    rcases Option.bind_eq_some_iff.mp hloaded with ⟨source, hsource, hload⟩
    have hmem := Table.mem_of_get? hsource
    have hsame := (Db.loadAuthorization_eq_some_iff.mp hload).1
    rw [hsame, hledger.viewers source hmem] at hrest
    refine ⟨source, hmem, Table.key_of_get? hsource, ?_⟩
    by_contra hpreview
    rw [if_neg hpreview] at hrest
    rcases hrest with ⟨hcaptured, _⟩ | ⟨_, hcan, _⟩
    · exact hcaptured rfl
    · exact hpreview (audience_of_canSourceOpen hcan)
  · rcases insertOpen_runs hinsert with ⟨hfalse, _⟩ |
      ⟨_, source, opens, hsource, hcaptured, _, _, _⟩
    · contradiction
    · have hmarked := hledger.viewers source (Table.mem_of_get? hsource)
      rw [if_pos hcaptured.viewer, hcaptured.uncaptured] at hmarked
      contradiction

/-- Every credential of a view is captured when it is committed.  A further capture
answers that it recorded nothing, and is denied for every other identifier. -/
theorem capture_records_nothing {platform : Platform} {db after : Db} {authorizationId : Uuid}
    {recorded : Bool} (hreach : (serviceSystem platform).Reachable db) :
    (captureAuthorizedOpen authorizationId).Runs db recorded after ↔
      recorded = false ∧ after = db ∧
        ∃ source ∈ db.authorizations, source.id = authorizationId ∧
          source.audience = .viewer := by
  rcases ledger_of_reachable hreach with ⟨taken, hledger⟩
  constructor
  · exact hledger.captures_nothing
  · rintro ⟨rfl, rfl, source, hsource, rfl, hviewer⟩
    rcases exists_loaded hreach hsource with ⟨loaded, hload⟩
    have hget := Table.get?_of_mem hsource
    have hsame := (Db.loadAuthorization_eq_some_iff.mp hload).1
    have hcaptured : loaded.authorization.authorizedOpenCapturedAt ≠ none := by
      rw [hsame, hledger.viewers source hsource, if_pos hviewer]
      exact Option.some_ne_none _
    simp only [captureAuthorizedOpen, runs_bind, runs_get, runs_found, runs_check, runs_ite,
      runs_pure, and_assoc, exists_and_left, exists_eq_left', exists_const]
    refine ⟨loaded, ?_, .inl ⟨hcaptured, trivial, trivial⟩⟩
    exact Option.bind_eq_some_iff.mpr ⟨source, hget, hload⟩

theorem second_capture_records_nothing :
    (captureAuthorizedOpen 8).Runs (runCalls asciiPlatform viewedCalls) false
      (runCalls asciiPlatform viewedCalls) := by
  have hstored : ((runCalls asciiPlatform viewedCalls).authorizations.get? 8).map
      RenderAuthorization.audience = some .viewer := by decide +kernel
  rcases Option.map_eq_some_iff.mp hstored with ⟨source, hsource, hviewer⟩
  apply (capture_records_nothing (reachable_runCalls viewedCalls)).mpr
  exact ⟨rfl, rfl, source, Table.mem_of_get? hsource, Table.key_of_get? hsource, hviewer⟩

end Agora
