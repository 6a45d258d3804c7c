import Agora.ServiceChanges

/-!
# Dashboard tags

The canonical names of tags, the rows of `DashboardTag`, and the service that
replaces the tags of a dashboard.  The tags stand beside the other tables: no
other service writes them, and `replace_dashboard_tags` writes no other table
than its audit event, which is kept here with them.
-/

namespace Agora

open Transaction

/-! ## Canonical names -/

structure DashboardTagName where
  display : Text
  key : Text
  deriving DecidableEq

def normalizeDashboardTag (tables : UnicodeTables) (value : Text) :
    Except String DashboardTagName :=
  let compatible := tables.nfkc value
  let display := joinWords compatible
  let key := tables.nfkc (tables.casefold display)
  if compatible.any fun c => tables.category c != .other then
    .error "tag cannot contain control characters"
  else if display.isEmpty || 40 < display.length then
    .error "tag must contain 1 through 40 characters"
  else if 80 < key.length then
    .error "normalized tag key is too long"
  else
    .ok ⟨display, key⟩

/-- The names of a list of labels, none of which may repeat a key. -/
def normalizeLabels (tables : UnicodeTables) :
    List Text → List Text → Except String (List DashboardTagName)
  | _, [] => .ok []
  | seen, label :: rest => do
      let tag ← normalizeDashboardTag tables label
      if tag.key ∈ seen then
        .error "each tag must be unique after normalization"
      else
        let tags ← normalizeLabels tables (tag.key :: seen) rest
        .ok (tag :: tags)

/-! ## Tables -/

structure DashboardTag where
  id : ℕ
  dashboardId : Uuid
  label : Text
  key : Text
  slot : ℕ
  createdAt : Time
  deriving DecidableEq

instance : Keyed DashboardTag ℕ := ⟨DashboardTag.id⟩

/-- The audit event `dashboard.tags_replaced`. -/
structure TagsReplaced where
  actorId : Uuid
  dashboardId : Uuid
  tagCount : ℕ
  occurredAt : Time
  deriving DecidableEq

/-- The database with its tags. -/
structure TaggedDb where
  db : Db
  tags : Table DashboardTag
  replacements : List TagsReplaced
  /-- The next value of the identity column of the tags. -/
  nextTagId : ℕ

abbrev TagTx := Transaction TaggedDb Failure

/-- A transaction on the other tables. -/
def onTables {α : Type} (body : Tx α) : TagTx α := fun state =>
  match body state.db with
  | .ok (value, db) => .ok (value, { state with db := db })
  | .error failure => .error failure

/-- The value of a text function, or the failure built from its message. -/
def orRaise {α : Type} (result : Except String α) (failure : String → Failure) : TagTx α :=
  match result with
  | .ok value => pure value
  | .error message => fail (failure message)

/-! ## Replacing the tags of a dashboard -/

/-- `clean_fields`, `clean` and the check constraints of a tag. -/
def DashboardTag.fullClean (tables : UnicodeTables) (row : DashboardTag) : TagTx PUnit := do
  check (row.label ≠ [] ∧ row.label.length ≤ 40)
    (.validation (some "label") "label is not a valid value")
  check (row.key ≠ [] ∧ row.key.length ≤ 80)
    (.validation (some "key") "key is not a valid value")
  let normalized ← orRaise (normalizeDashboardTag tables row.label)
    (.validation (some "label"))
  check (row.label = normalized.display ∧ row.key = normalized.key)
    (.validation none "dashboard tag label and key must be canonical")
  check (1 ≤ row.slot ∧ row.slot ≤ 5)
    (.validation none "Constraint “agora_tag_slot_range” is violated.")

/-- `DashboardTag.objects.create`. -/
def DashboardTag.insert (tables : UnicodeTables) (row : DashboardTag) : TagTx DashboardTag := do
  let normalized ← orRaise (normalizeDashboardTag tables row.label) .value
  let canonical := { row with label := normalized.display, key := normalized.key }
  canonical.fullClean tables
  let state ← get
  check (state.tags.any (fun other =>
      other.dashboardId = canonical.dashboardId ∧ other.key = canonical.key) = false)
    (.validation none "Constraint “agora_tag_dashboard_key_uq” is violated.")
  check (state.tags.any (fun other =>
      other.dashboardId = canonical.dashboardId ∧ other.slot = canonical.slot) = false)
    (.validation none "Constraint “agora_tag_dashboard_slot_uq” is violated.")
  let stored := { canonical with id := state.nextTagId }
  let tags ← found (state.tags.create stored) (.integrity "TB_TA_AGORA_DASHBOARD_TAG.ID")
  set { state with tags := tags, nextTagId := state.nextTagId + 1 }
  pure stored

/-- The insertion of the tags in their slots, from the given one on. -/
def createTags (tables : UnicodeTables) (context : CallContext) (dashboardId : Uuid) :
    ℕ → List DashboardTagName → TagTx (List DashboardTag)
  | _, [] => pure []
  | slot, tag :: rest => do
      let created ← DashboardTag.insert tables {
        id := 0
        dashboardId := dashboardId
        label := tag.display
        key := tag.key
        slot := slot
        createdAt := context.clock }
      let others ← createTags tables context dashboardId (slot + 1) rest
      pure (created :: others)

def maxEffectiveTags : ℕ := 5

def replaceDashboardTags (platform : Platform) (context : CallContext)
    (dashboardId actorId : Uuid) (labels : List Text) : TagTx (List DashboardTag) := do
  let normalized ← orRaise (normalizeLabels platform.unicode [] labels) .enhancementValidation
  check (normalized.length ≤ maxEffectiveTags)
    (.enhancementValidation "a dashboard can have at most five tags")
  let owned ← onTables (lockCurrentOwner dashboardId actorId)
  check (owned.1.state ≠ .archived ∧ owned.1.state ≠ .deleted) genericFailure
  let state ← get
  set { state with tags := state.tags.keep fun tag => tag.dashboardId ≠ owned.1.id }
  let created ← createTags platform.unicode context owned.1.id 1 normalized
  modify fun state => { state with
    replacements := ⟨owned.2.id, owned.1.id, created.length, context.clock⟩ :: state.replacements }
  pure created

/-! ## What a replacement leaves -/

/-- The row of a tag passes its own checks. -/
structure DashboardTag.Canonical (tables : UnicodeTables) (tag : DashboardTag) : Prop where
  named : normalizeDashboardTag tables tag.label = .ok ⟨tag.label, tag.key⟩
  slot : 1 ≤ tag.slot ∧ tag.slot ≤ maxEffectiveTags

/-- The rows are canonical, and no two of one dashboard share a key or a slot. -/
structure TaggedDb.WellTagged (tables : UnicodeTables) (state : TaggedDb) : Prop where
  canonical : ∀ tag ∈ state.tags, tag.Canonical tables
  apart : ∀ first ∈ state.tags, ∀ second ∈ state.tags,
    first.dashboardId = second.dashboardId → first.key = second.key ∨ first.slot = second.slot →
      first = second

section Replacements

variable {tables : UnicodeTables} {context : CallContext} {before after : TaggedDb}
  {row stored : DashboardTag}

theorem length_normalizeLabels {seen labels : List Text} {names : List DashboardTagName}
    (hnames : normalizeLabels tables seen labels = .ok names) : names.length = labels.length := by
  induction labels generalizing seen names with
  | nil =>
      rw [normalizeLabels, Except.ok.injEq] at hnames
      rw [← hnames]
      rfl
  | cons label rest ih =>
      simp only [normalizeLabels, bind, Except.bind] at hnames
      split at hnames
      · cases hnames
      · split at hnames
        · cases hnames
        · split at hnames
          · cases hnames
          · rename_i hrest
            rw [Except.ok.injEq] at hnames
            rw [← hnames, List.length_cons, List.length_cons, ih hrest]

theorem runs_orRaise {α : Type} {result : Except String α} {failure : String → Failure}
    {value : α} : (orRaise result failure).Runs before value after ↔
      result = .ok value ∧ before = after := by
  cases result with
  | ok found => simp [orRaise]
  | error message => simp [orRaise]

theorem runs_onTables {α : Type} {body : Tx α} {value : α}
    (hruns : (onTables body).Runs before value after) :
    ∃ db, body.Runs before.db value db ∧ after = { before with db := db } := by
  unfold Transaction.Runs onTables at hruns
  split at hruns
  · rename_i found db hbody
    rw [Except.ok.injEq, Prod.mk.injEq] at hruns
    rw [hruns.1] at hbody
    exact ⟨db, hbody, hruns.2.symm⟩
  · cases hruns

theorem DashboardTag.insert_runs
    (hruns : (DashboardTag.insert tables row).Runs before stored after) :
    stored.dashboardId = row.dashboardId ∧ stored.slot = row.slot ∧ stored.Canonical tables ∧
      (∀ other ∈ before.tags, other.dashboardId = stored.dashboardId →
        other.key ≠ stored.key ∧ other.slot ≠ stored.slot) ∧
      ∃ tags, before.tags.create stored = some tags ∧
        after = { before with tags := tags, nextTagId := before.nextTagId + 1 } := by
  simp only [DashboardTag.insert, DashboardTag.fullClean, runs_bind, runs_orRaise, runs_check,
    runs_get, runs_found, runs_set, runs_pure, and_assoc, exists_and_left, exists_eq_left',
    exists_const] at hruns
  obtain ⟨normalized, _, _, _, _, _, middle, hclean, hkeys, hslots, tags, hcreate, rfl, rfl⟩ :=
    hruns
  obtain ⟨again, hagain, hlabel, hkey, hfirst, hlast, rfl⟩ := hclean
  rw [Table.any_eq_false_iff] at hkeys hslots
  refine ⟨rfl, rfl, ⟨?_, hfirst, hlast⟩, ?_, tags, hcreate, rfl⟩
  · rw [hagain]
    exact congrArg Except.ok (congrArg₂ DashboardTagName.mk hlabel hkey).symm
  · intro other hother hsame
    have hkey := hkeys other hother
    have hplace := hslots other hother
    rw [decide_eq_true_eq, not_and] at hkey hplace
    exact ⟨hkey hsame, hplace hsame⟩

theorem TaggedDb.WellTagged.insert (hwell : before.WellTagged tables)
    (hruns : (DashboardTag.insert tables row).Runs before stored after) :
    after.WellTagged tables := by
  obtain ⟨_, _, hcanonical, hfresh, tags, hcreate, rfl⟩ := DashboardTag.insert_runs hruns
  constructor
  · intro tag htag
    cases (Table.mem_of_create hcreate).mp htag with
    | inl hnew => rwa [hnew]
    | inr hold => exact hwell.canonical tag hold
  · intro first hfirst second hsecond hsame hshared
    cases (Table.mem_of_create hcreate).mp hfirst with
    | inl hnew =>
        cases (Table.mem_of_create hcreate).mp hsecond with
        | inl hboth => exact hnew.trans hboth.symm
        | inr hold =>
            rw [hnew] at hsame hshared
            have hapart := hfresh second hold hsame.symm
            exact absurd hshared (not_or.mpr ⟨hapart.1.symm, hapart.2.symm⟩)
    | inr hold =>
        cases (Table.mem_of_create hcreate).mp hsecond with
        | inl hnew =>
            rw [hnew] at hsame hshared
            have hapart := hfresh first hold hsame
            exact absurd hshared (not_or.mpr hapart)
        | inr hboth => exact hwell.apart first hold second hboth hsame hshared

theorem createTags_runs {dashboardId : Uuid} {slot : ℕ} {names : List DashboardTagName}
    {created : List DashboardTag} (hwell : before.WellTagged tables)
    (hruns : (createTags tables context dashboardId slot names).Runs before created after) :
    after.WellTagged tables ∧ after.db = before.db ∧ after.replacements = before.replacements ∧
      created.map DashboardTag.slot = List.range' slot names.length ∧
        (∀ tag ∈ created, tag.dashboardId = dashboardId) ∧
          ∀ tag, tag ∈ after.tags ↔ tag ∈ created ∨ tag ∈ before.tags := by
  induction names generalizing slot before created with
  | nil =>
      simp only [createTags, runs_pure] at hruns
      obtain ⟨rfl, rfl⟩ := hruns
      simp [hwell]
  | cons name rest ih =>
      simp only [createTags, runs_bind, runs_pure] at hruns
      obtain ⟨first, middle, hinsert, others, last, hrest, rfl, rfl⟩ := hruns
      obtain ⟨howner, hslot, _, _, tags, hcreate, hmiddle⟩ := DashboardTag.insert_runs hinsert
      obtain ⟨hafter, hdb, hreplacements, hslots, howners, htags⟩ :=
        ih (hwell.insert hinsert) hrest
      rw [hmiddle] at hdb hreplacements htags
      refine ⟨hafter, hdb, hreplacements, ?_, ?_, ?_⟩
      · rw [List.map_cons, hslots, hslot, List.length_cons, List.range'_succ]
      · intro tag htag
        cases List.mem_cons.mp htag with
        | inl hfirst => rw [hfirst, howner]
        | inr hother => exact howners tag hother
      · intro tag
        rw [htags, Table.mem_of_create hcreate, List.mem_cons, or_left_comm, or_assoc]

/-- A replacement leaves the tags that it returns, in the slots from one on, beside the tags of
the other dashboards, and changes no other table. -/
theorem replaceDashboardTags_runs {platform : Platform} {dashboardId actorId : Uuid}
    {labels : List Text} {created : List DashboardTag}
    (hwell : before.WellTagged platform.unicode)
    (hruns : (replaceDashboardTags platform context dashboardId actorId labels).Runs before
      created after) :
    after.WellTagged platform.unicode ∧ after.db = before.db ∧
      created.map DashboardTag.slot = List.range' 1 labels.length ∧
        created.length ≤ maxEffectiveTags ∧
          (∀ tag ∈ created, tag.dashboardId = dashboardId) ∧
            ∀ tag, tag ∈ after.tags ↔
              tag ∈ created ∨ (tag ∈ before.tags ∧ tag.dashboardId ≠ dashboardId) := by
  simp only [replaceDashboardTags, runs_bind, runs_orRaise, runs_check, runs_get, runs_set,
    runs_modify, runs_pure, and_assoc, exists_and_left, exists_eq_left', exists_const] at hruns
  obtain ⟨names, hnames, hfew, owned, locked, howned, _, _, returned, last, hcreated, rfl, rfl⟩ :=
    hruns
  obtain ⟨db, hlocked, rfl⟩ := runs_onTables howned
  obtain ⟨rfl, hdashboard, _⟩ := lockCurrentOwner_runs hlocked
  have howner : owned.1.id = dashboardId := Table.key_of_get? hdashboard
  have hkept : ({ before with
      tags := before.tags.keep fun tag => tag.dashboardId ≠ owned.1.id } : TaggedDb).WellTagged
        platform.unicode := by
    constructor
    · exact fun tag htag => hwell.canonical tag (Table.mem_keep_iff.mp htag).1
    · exact fun first hfirst second hsecond =>
        hwell.apart first (Table.mem_keep_iff.mp hfirst).1 second (Table.mem_keep_iff.mp hsecond).1
  obtain ⟨hafter, hdb, _, hslots, howners, htags⟩ := createTags_runs hkept hcreated
  have hlength := congrArg List.length hslots
  rw [List.length_map, List.length_range'] at hlength
  rw [howner] at howners
  refine ⟨⟨hafter.canonical, hafter.apart⟩, hdb, ?_, ?_, howners, ?_⟩
  · rw [hslots, length_normalizeLabels hnames]
  · rw [hlength]
    exact hfew
  · intro tag
    rw [htags, Table.mem_keep_iff, decide_eq_true_eq, howner]

end Replacements

end Agora
