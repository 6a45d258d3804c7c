import Agora.SignInSessions

/-!
# Interleaved sign-ins

A throttle row that is locked or inserted belongs to one sign-in, and each sign-in locks the
hashes of its buckets in ascending order.  Both facts hold of every state that the sign-ins
reach, whatever commits between two statements of one of them.
-/

namespace Agora

def ThrottleRow.key (row : ThrottleRow) : ℕ × Text :=
  (row.id, row.hash)

def SignInSession.keys (session : SignInSession) : List (ℕ × Text) :=
  session.held.map ThrottleRow.key

def SignInState.stored (state : SignInState) : List (ℕ × Text) :=
  state.committed.map ThrottleRow.key

/-! ## The invariant -/

/-- A row of a transaction is a committed one, or a new one with an unused hash. -/
def KnownThrottle (stored : List (ℕ × Text)) (nextId : ℕ) (key : ℕ × Text) : Prop :=
  key ∈ stored ∨ (key.1 < nextId ∧ ∀ other ∈ stored, other.1 ≠ key.1 ∧ other.2 ≠ key.2)

/-- The rows that one transaction may hold.  `names` has the hash of each issued identifier. -/
structure HeldThrottles (names : ℕ → Text) (stored : List (ℕ × Text)) (nextId : ℕ)
    (keys : List (ℕ × Text)) : Prop where
  known : ∀ key ∈ keys, KnownThrottle stored nextId key
  named : ∀ key ∈ keys, names key.1 = key.2
  ids : (keys.map Prod.fst).Nodup
  hashes : (keys.map Prod.snd).Nodup

/-- The next statement finds what the ones before it have left. -/
def SignInSession.Ready (names : ℕ → Text) (nextId : ℕ) (session : SignInSession) : Prop :=
  match session.phase with
  | .fetching => session.pending ≠ []
  | .inserting => session.pending ≠ []
  | .refetching => session.pending ≠ []
  | .locking id => id < nextId ∧ session.pending.head? = some (names id)
  | .refreshing id => id ∈ session.keys.map Prod.fst
  | .verifying => session.pending = []
  | .registering rows => session.pending = [] ∧ ∀ row ∈ rows, row.key ∈ session.keys
  | .deleting _ => session.pending = []
  | .deleted _ ids => session.pending = [] ∧ ∀ id ∈ ids, id ∈ session.keys.map Prod.fst
  | .returned _ => session.keys = []
  | .raised => session.keys = []

structure SignInSession.Sound (names : ℕ → Text) (stored : List (ℕ × Text)) (nextId : ℕ)
    (session : SignInSession) : Prop where
  rows : HeldThrottles names stored nextId session.keys
  sorted : session.pending.Pairwise (· < ·)
  below : ∀ key ∈ session.keys, ∀ hash ∈ session.pending,
    key.2 < hash ∨ (key.2 = hash ∧ session.phase = .locking key.1)
  covered : session.phase.ended = false → ∀ hash, hash ∈ session.hashes ↔
    hash ∈ session.pending ∨ hash ∈ session.keys.map Prod.snd
  ready : session.Ready names nextId

/-- Two transactions hold no row of one identifier or of one hash. -/
def SignInSession.Apart (one other : SignInSession) : Prop :=
  ∀ key ∈ one.keys, ∀ found ∈ other.keys, key.1 ≠ found.1 ∧ key.2 ≠ found.2

structure SignInState.Consistent (names : ℕ → Text) (state : SignInState) : Prop where
  ids : (state.stored.map Prod.fst).Nodup
  hashes : (state.stored.map Prod.snd).Nodup
  named : ∀ key ∈ state.stored, names key.1 = key.2
  issued : ∀ key ∈ state.stored, key.1 < state.nextId
  unused : ∀ index, state.count ≤ index → state.sessions index = none
  sound : ∀ index session, state.sessions index = some session →
    session.Sound names state.stored state.nextId
  apart : ∀ first second one other, first ≠ second → state.sessions first = some one →
    state.sessions second = some other → one.Apart other

section Keys

variable {names : ℕ → Text} {stored keys : List (ℕ × Text)} {nextId : ℕ} {key found : ℕ × Text}
  {row : ThrottleRow} {session other : SignInSession} {committed : List ThrottleRow} {id : ℕ}
  {hash : Text}

theorem eq_of_fst_eq (hids : (stored.map Prod.fst).Nodup) (hkey : key ∈ stored)
    (hfound : found ∈ stored) (hsame : found.1 = key.1) : found = key :=
  List.inj_on_of_nodup_map hids hfound hkey hsame

theorem eq_of_snd_eq (hhashes : (stored.map Prod.snd).Nodup) (hkey : key ∈ stored)
    (hfound : found ∈ stored) (hsame : found.2 = key.2) : found = key :=
  List.inj_on_of_nodup_map hhashes hfound hkey hsame

theorem KnownThrottle.eq_of_fst (hknown : KnownThrottle stored nextId key)
    (hids : (stored.map Prod.fst).Nodup) (hfound : found ∈ stored) (hsame : found.1 = key.1) :
    found = key := by
  cases hknown with
  | inl hstored => exact eq_of_fst_eq hids hstored hfound hsame
  | inr hnew => exact absurd hsame (hnew.2 found hfound).1

theorem KnownThrottle.eq_of_snd (hknown : KnownThrottle stored nextId key)
    (hhashes : (stored.map Prod.snd).Nodup) (hfound : found ∈ stored)
    (hsame : found.2 = key.2) : found = key := by
  cases hknown with
  | inl hstored => exact eq_of_snd_eq hhashes hstored hfound hsame
  | inr hnew => exact absurd hsame (hnew.2 found hfound).2

theorem KnownThrottle.lt_nextId (hknown : KnownThrottle stored nextId key)
    (hissued : ∀ key ∈ stored, key.1 < nextId) : key.1 < nextId := by
  cases hknown with
  | inl hstored => exact hissued key hstored
  | inr hnew => exact hnew.1

theorem KnownThrottle.mono (hknown : KnownThrottle stored nextId key) :
    KnownThrottle stored (nextId + 1) key := by
  cases hknown with
  | inl hstored => exact .inl hstored
  | inr hnew => exact .inr ⟨by omega, hnew.2⟩

theorem nodup_concat {α : Type} {items : List α} {item : α} (hnodup : items.Nodup)
    (hnew : item ∉ items) : (items ++ [item]).Nodup := by
  rw [List.nodup_append]
  apply And.intro hnodup
  apply And.intro (List.nodup_singleton item)
  intro found hfound other hother hsame
  rw [List.mem_singleton] at hother
  rw [hsame, hother] at hfound
  exact hnew hfound

/-- One more row of a transaction. -/
theorem HeldThrottles.concat (hrows : HeldThrottles names stored nextId keys)
    (hknown : KnownThrottle stored nextId key) (hnamed : names key.1 = key.2)
    (hid : key.1 ∉ keys.map Prod.fst) (hhash : key.2 ∉ keys.map Prod.snd) :
    HeldThrottles names stored nextId (keys ++ [key]) := by
  have hmem : ∀ found ∈ keys ++ [key], found ∈ keys ∨ found = key := by
    intro found hfound
    rwa [List.mem_append, List.mem_singleton] at hfound
  constructor
  · intro found hfound
    cases hmem found hfound with
    | inl hold => exact hrows.known found hold
    | inr hnew =>
        rw [hnew]
        exact hknown
  · intro found hfound
    cases hmem found hfound with
    | inl hold => exact hrows.named found hold
    | inr hnew =>
        rw [hnew]
        exact hnamed
  · rw [List.map_append]
    exact nodup_concat hrows.ids hid
  · rw [List.map_append]
    exact nodup_concat hrows.hashes hhash

theorem HeldThrottles.mono {issued : ℕ → Text} (hrows : HeldThrottles names stored nextId keys)
    (hbelow : ∀ key ∈ stored, key.1 < nextId) (hsame : ∀ id < nextId, issued id = names id) :
    HeldThrottles issued stored (nextId + 1) keys where
  known key hkey := (hrows.known key hkey).mono
  named key hkey := by
    rw [hsame key.1 ((hrows.known key hkey).lt_nextId hbelow)]
    exact hrows.named key hkey
  ids := hrows.ids
  hashes := hrows.hashes

theorem SignInSession.Apart.symm (hapart : session.Apart other) : other.Apart session := by
  intro key hkey found hfound
  have hboth := hapart found hfound key hkey
  exact ⟨hboth.1.symm, hboth.2.symm⟩

theorem keys_map_fst : session.keys.map Prod.fst = session.held.map ThrottleRow.id := by
  rw [SignInSession.keys, List.map_map]
  rfl

theorem keys_map_snd : session.keys.map Prod.snd = session.held.map ThrottleRow.hash := by
  rw [SignInSession.keys, List.map_map]
  rfl

theorem keys_concat (row : ThrottleRow) (pending : List Text) (phase : SignInPhase) :
    SignInSession.keys
      { session with pending := pending, held := session.held ++ [row], phase := phase } =
        session.keys ++ [row.key] := by
  simp [SignInSession.keys]

theorem mem_visible : row ∈ session.visible committed ↔
    row ∈ session.held ∨ (row ∈ committed ∧ row.id ∉ session.keys.map Prod.fst) := by
  rw [keys_map_fst, SignInSession.visible, List.mem_append, List.mem_filter, decide_eq_true_eq]

theorem key_of_visible (hrow : row ∈ session.visible committed) :
    row.key ∈ session.keys ∨ (row.key ∈ committed.map ThrottleRow.key ∧
      row.id ∉ session.keys.map Prod.fst) := by
  cases mem_visible.mp hrow with
  | inl hheld => exact .inl (List.mem_map_of_mem hheld)
  | inr hstored => exact .inr ⟨List.mem_map_of_mem hstored.1, hstored.2⟩

theorem mem_ids (hkey : key ∈ keys) : key.1 ∈ keys.map Prod.fst :=
  List.mem_map_of_mem hkey

theorem mem_hashes (hkey : key ∈ keys) : key.2 ∈ keys.map Prod.snd :=
  List.mem_map_of_mem hkey

theorem holdsId_iff : session.holdsId id = true ↔ id ∈ session.keys.map Prod.fst := by
  rw [keys_map_fst]
  simp [SignInSession.holdsId]

theorem holdsHash_iff : session.holdsHash hash = true ↔ hash ∈ session.keys.map Prod.snd := by
  rw [keys_map_snd]
  simp [SignInSession.holdsHash]

/-- A saved row keeps its place, its identifier and its hash. -/
theorem keys_saved (hids : (session.keys.map Prod.fst).Nodup) (hrow : row.key ∈ session.keys)
    (phase : SignInPhase) :
    SignInSession.keys { session with held := session.saved row, phase := phase } =
      session.keys := by
  rw [SignInSession.keys, SignInSession.saved, List.map_map, SignInSession.keys]
  apply List.map_congr_left
  intro other hother
  by_cases hid : other.id = row.id
  · rw [Function.comp_apply, if_pos hid]
    exact (eq_of_fst_eq hids hrow (List.mem_map_of_mem hother) hid).symm
  · rw [Function.comp_apply, if_neg hid]

end Keys

/-! ## What a step keeps of the others -/

section Frames

variable {names : ℕ → Text} {state : SignInState} {index : ℕ} {session next : SignInSession}

theorem SignInState.Consistent.lt_count (hstate : state.Consistent names)
    (hsession : state.sessions index = some session) : index < state.count := by
  by_contra hge
  rw [hstate.unused index (by omega)] at hsession
  cases hsession

theorem enter_cases {other : ℕ} {found : SignInSession}
    (hfound : (state.enter index next).sessions other = some found) :
    (other = index ∧ found = next) ∨ (other ≠ index ∧ state.sessions other = some found) := by
  by_cases hsame : other = index
  · rw [hsame, SignInState.enter_self, Option.some.injEq] at hfound
    exact .inl ⟨hsame, hfound.symm⟩
  · rw [SignInState.enter_of_ne hsame] at hfound
    exact .inr ⟨hsame, hfound⟩

/-- A step of one transaction that commits nothing. -/
theorem SignInState.Consistent.enter (hstate : state.Consistent names)
    (hindex : index < state.count)
    (hsound : next.Sound names state.stored state.nextId)
    (hapart : ∀ other found, other ≠ index → state.sessions other = some found →
      next.Apart found) : (state.enter index next).Consistent names := by
  constructor
  · exact hstate.ids
  · exact hstate.hashes
  · exact hstate.named
  · exact hstate.issued
  · intro other hle
    have hcount : state.count ≤ other := hle
    have hne : other ≠ index := by omega
    rw [SignInState.enter_of_ne hne]
    exact hstate.unused other hcount
  · intro other found hfound
    cases enter_cases hfound with
    | inl hown =>
        rw [hown.2]
        exact hsound
    | inr hother => exact hstate.sound other found hother.2
  · intro first second one other hne hone hother
    cases enter_cases hone with
    | inl hown =>
        cases enter_cases hother with
        | inl hsame => exact absurd (hown.1.trans hsame.1.symm) hne
        | inr hkept =>
            rw [hown.2]
            exact hapart second other hkept.1 hkept.2
    | inr hkept =>
        cases enter_cases hother with
        | inl hown =>
            rw [hown.2]
            exact (hapart first one hkept.1 hkept.2).symm
        | inr hboth => exact hstate.apart first second one other hne hkept.2 hboth.2

/-- A step that keeps the rows of its transaction. -/
theorem SignInState.Consistent.enter_keys (hstate : state.Consistent names)
    (hsession : state.sessions index = some session) (hkeys : next.keys = session.keys)
    (hsound : next.Sound names state.stored state.nextId) :
    (state.enter index next).Consistent names := by
  apply hstate.enter (hstate.lt_count hsession) hsound
  intro other found hne hfound key hkey
  rw [hkeys] at hkey
  exact hstate.apart index other session found hne.symm hsession hfound key hkey

/-- A step to one more row of the transaction, which no other one has. -/
theorem SignInState.Consistent.enter_concat (hstate : state.Consistent names)
    (hsession : state.sessions index = some session) {key : ℕ × Text}
    (hkeys : next.keys = session.keys ++ [key])
    (hsound : next.Sound names state.stored state.nextId)
    (hfree : ∀ other found, other ≠ index → state.sessions other = some found →
      ∀ held ∈ found.keys, key.1 ≠ held.1 ∧ key.2 ≠ held.2) :
    (state.enter index next).Consistent names := by
  apply hstate.enter (hstate.lt_count hsession) hsound
  intro other found hne hfound held hheld
  rw [hkeys, List.mem_append, List.mem_singleton] at hheld
  cases hheld with
  | inl hold => exact hstate.apart index other session found hne.symm hsession hfound held hold
  | inr hnew =>
      rw [hnew]
      exact hfree other found hne hfound

/-- A transaction that has ended holds nothing. -/
theorem closed_sound {stored : List (ℕ × Text)} {nextId : ℕ} {phase : SignInPhase}
    (hended : phase.ended = true) :
    SignInSession.Sound names stored nextId
      { session with pending := [], held := [], phase := phase } where
  rows := ⟨fun _ hkey => absurd hkey List.not_mem_nil, fun _ hkey => absurd hkey List.not_mem_nil,
    List.nodup_nil, List.nodup_nil⟩
  sorted := List.Pairwise.nil
  below _ hkey := absurd hkey List.not_mem_nil
  covered hopen := by
    rw [show SignInPhase.ended _ = true from hended] at hopen
    cases hopen
  ready := by
    cases phase with
    | returned user => exact rfl
    | raised => exact rfl
    | _ => cases hended

theorem SignInState.Consistent.close (hstate : state.Consistent names)
    (hindex : index < state.count) {phase : SignInPhase} (hended : phase.ended = true) :
    (state.close index session phase).Consistent names :=
  hstate.enter hindex (closed_sound hended) (fun _ _ _ _ _ hkey => absurd hkey List.not_mem_nil)

/-- No other transaction meets a condition that a statement would wait for. -/
theorem SignInState.Consistent.not_of_others (hstate : state.Consistent names)
    {condition : SignInSession → Bool} (hothers : ¬ state.others index condition = true)
    {other : ℕ} {found : SignInSession} (hne : other ≠ index)
    (hfound : state.sessions other = some found) : condition found = false := by
  simp only [SignInState.others, List.any_eq_true, Bool.and_eq_true, decide_eq_true_eq,
    not_exists, not_and] at hothers
  have hnone := hothers other (List.mem_range.mpr (hstate.lt_count hfound)) hne
  rw [hfound, Option.any_some, Bool.not_eq_true] at hnone
  exact hnone

end Frames

/-! ## The statements of the locks -/

section Locks

variable {names : ℕ → Text} {stored : List (ℕ × Text)} {nextId : ℕ} {state : SignInState}
  {index : ℕ} {session : SignInSession} {hash : Text} {rest : List Text} {id : ℕ}

/-- A change of the phase alone, behind a statement that locks nothing. -/
theorem SignInSession.Sound.rephase (hsound : session.Sound names stored nextId)
    {phase : SignInPhase} (hopen : session.phase.ended = false)
    (hplain : ∀ id, session.phase ≠ .locking id)
    (hready : SignInSession.Ready names nextId { session with phase := phase }) :
    SignInSession.Sound names stored nextId { session with phase := phase } where
  rows := hsound.rows
  sorted := hsound.sorted
  below key hkey hash hhash := by
    cases hsound.below key hkey hash hhash with
    | inl hless => exact .inl hless
    | inr hlocking => exact absurd hlocking.2 (hplain key.1)
  covered _ := hsound.covered hopen
  ready := hready

theorem SignInState.Consistent.rephase (hstate : state.Consistent names)
    (hsession : state.sessions index = some session) {phase : SignInPhase}
    (hopen : session.phase.ended = false) (hplain : ∀ id, session.phase ≠ .locking id)
    (hready : SignInSession.Ready names state.nextId { session with phase := phase }) :
    (state.enter index { session with phase := phase }).Consistent names :=
  hstate.enter_keys hsession rfl ((hstate.sound index session hsession).rephase hopen hplain hready)

/-- Every row that a transaction sees has its issued name. -/
theorem SignInState.Consistent.visible_named (hstate : state.Consistent names)
    (hsession : state.sessions index = some session) {row : ThrottleRow}
    (hrow : row ∈ session.visible state.committed) :
    row.id < state.nextId ∧ names row.id = row.hash := by
  have hsound := hstate.sound index session hsession
  cases key_of_visible hrow with
  | inl hheld =>
      exact ⟨(hsound.rows.known row.key hheld).lt_nextId hstate.issued,
        hsound.rows.named row.key hheld⟩
  | inr hstored => exact ⟨hstate.issued row.key hstored.1, hstate.named row.key hstored.1⟩

/-- A committed hash is seen, in the own value of its row where the transaction has one. -/
theorem SignInState.Consistent.exists_visible_hash (hstate : state.Consistent names)
    (hsession : state.sessions index = some session) (hhash : hash ∈ state.stored.map Prod.snd) :
    ∃ row ∈ session.visible state.committed, row.hash = hash := by
  obtain ⟨key, hkey, hsame⟩ := List.mem_map.mp hhash
  obtain ⟨row, hrow, hrowKey⟩ := List.mem_map.mp hkey
  have hrowHash : row.hash = hash := by
    rw [← hsame, ← hrowKey]
    rfl
  by_cases hheld : row.id ∈ session.keys.map Prod.fst
  · obtain ⟨found, hfound, hid⟩ := List.mem_map.mp hheld
    have hknown := (hstate.sound index session hsession).rows.known found hfound
    have heq := hknown.eq_of_fst hstate.ids hkey (by rw [hid, ← hrowKey]; rfl)
    obtain ⟨own, hown, hownKey⟩ := List.mem_map.mp hfound
    have hownHash : own.hash = hash := by
      rw [← hsame, heq, ← hownKey]
      rfl
    exact ⟨own, mem_visible.mpr (.inl hown), hownHash⟩
  · exact ⟨row, mem_visible.mpr (.inr ⟨hrow, hheld⟩), hrowHash⟩

/-- A query by hash, before the insertion or after its refusal. -/
theorem SignInState.Consistent.ready_locking (hstate : state.Consistent names)
    (hsession : state.sessions index = some session) (hpending : session.pending = hash :: rest)
    {row : ThrottleRow}
    (hfound : ((session.visible state.committed).find? fun row => row.hash = hash) = some row) :
    SignInSession.Ready names state.nextId { session with phase := .locking row.id } := by
  have hsame : row.hash = hash := by simpa using List.find?_some hfound
  have hnamed := hstate.visible_named hsession (List.mem_of_find?_eq_some hfound)
  refine ⟨hnamed.1, ?_⟩
  rw [hnamed.2, hsame, hpending, List.head?_cons]

theorem SignInState.Consistent.fetch (hstate : state.Consistent names)
    (hsession : state.sessions index = some session) (hphase : session.phase = .fetching)
    (hpending : session.pending = hash :: rest) :
    (state.fetch index session hash).Consistent names := by
  have hopen : session.phase.ended = false := by rw [hphase]; rfl
  have hplain : ∀ id, session.phase ≠ .locking id := by simp [hphase]
  unfold SignInState.fetch
  cases hfound : (session.visible state.committed).find? fun row => row.hash = hash with
  | some row =>
      exact hstate.rephase hsession hopen hplain (hstate.ready_locking hsession hpending hfound)
  | none =>
      apply hstate.rephase hsession hopen hplain
      change session.pending ≠ []
      rw [hpending]
      exact List.cons_ne_nil _ _

theorem SignInState.Consistent.refetch (hstate : state.Consistent names)
    (hsession : state.sessions index = some session) (hphase : session.phase = .refetching)
    (hpending : session.pending = hash :: rest) :
    (state.refetch index session hash).Consistent names := by
  have hopen : session.phase.ended = false := by rw [hphase]; rfl
  have hplain : ∀ id, session.phase ≠ .locking id := by simp [hphase]
  unfold SignInState.refetch
  cases hfound : (session.visible state.committed).find? fun row => row.hash = hash with
  | some row =>
      exact hstate.rephase hsession hopen hplain (hstate.ready_locking hsession hpending hfound)
  | none => exact hstate.close (hstate.lt_count hsession) rfl

/-- A new identifier gets a name. -/
theorem SignInState.Consistent.issue (hstate : state.Consistent names) (hash : Text) :
    SignInState.Consistent (Function.update names state.nextId hash)
      { state with nextId := state.nextId + 1 } := by
  have hsame : ∀ id < state.nextId, Function.update names state.nextId hash id = names id := by
    intro id hid
    exact Function.update_of_ne (Nat.ne_of_lt hid) ..
  constructor
  · exact hstate.ids
  · exact hstate.hashes
  · intro key hkey
    rw [hsame key.1 (hstate.issued key hkey)]
    exact hstate.named key hkey
  · exact fun key hkey => Nat.lt_succ_of_lt (hstate.issued key hkey)
  · exact hstate.unused
  · intro index session hsession
    have hsound := hstate.sound index session hsession
    refine ⟨hsound.rows.mono hstate.issued hsame, hsound.sorted, hsound.below, hsound.covered, ?_⟩
    have hready := hsound.ready
    unfold SignInSession.Ready at hready ⊢
    split at hready
    · exact hready
    · exact hready
    · exact hready
    · rw [hsame _ hready.1]
      exact ⟨Nat.lt_succ_of_lt hready.1, hready.2⟩
    · exact hready
    · exact hready
    · exact hready
    · exact hready
    · exact hready
    · exact hready
    · exact hready
  · exact hstate.apart

/-- Outside a locking statement the rows of a transaction come before all that it has yet to
lock. -/
theorem SignInSession.Sound.below_pending (hsound : session.Sound names stored nextId)
    (hplain : ∀ id, session.phase ≠ .locking id) :
    ∀ key ∈ session.keys, ∀ wanted ∈ session.pending, key.2 < wanted := by
  intro key hkey wanted hwanted
  cases hsound.below key hkey wanted hwanted with
  | inl hless => exact hless
  | inr hlocking => exact absurd hlocking.2 (hplain key.1)

/-- A transaction with a new row of the next hash. -/
theorem SignInSession.Sound.created (hsound : session.Sound names stored nextId)
    (hphase : session.phase = .inserting) (hpending : session.pending = hash :: rest)
    {row : ThrottleRow} (hhash : row.hash = hash) (hissued : row.id < nextId)
    (hnamed : names row.id = hash)
    (hfresh : ∀ key, key ∈ session.keys ∨ key ∈ stored → key.1 ≠ row.id)
    (hunseen : hash ∉ stored.map Prod.snd) :
    SignInSession.Sound names stored nextId
      { session with held := session.held ++ [row], phase := .locking row.id } := by
  have hopen : session.phase.ended = false := by rw [hphase]; rfl
  have hless := hsound.below_pending (by simp [hphase])
  have hsorted := hsound.sorted
  rw [hpending] at hsorted hless
  have hkeys := @keys_concat session row session.pending (.locking row.id)
  constructor
  · rw [hkeys]
    apply hsound.rows.concat
    · refine .inr ⟨hissued, fun other hother => ⟨hfresh other (.inr hother), ?_⟩⟩
      intro hsame
      apply hunseen
      rw [← hhash]
      exact List.mem_map.mpr ⟨other, hother, hsame⟩
    · exact hnamed.trans hhash.symm
    · intro hmem
      obtain ⟨key, hkey, hsame⟩ := List.mem_map.mp hmem
      exact hfresh key (.inl hkey) hsame
    · intro hmem
      obtain ⟨key, hkey, hsame⟩ := List.mem_map.mp hmem
      have hbelow := hless key hkey hash List.mem_cons_self
      rw [hsame, show row.key.2 = hash from hhash] at hbelow
      exact lt_irrefl hash hbelow
  · exact hsound.sorted
  · rw [hkeys]
    intro key hkey wanted hwanted
    change wanted ∈ session.pending at hwanted
    rw [hpending] at hwanted
    rw [List.mem_append, List.mem_singleton] at hkey
    cases hkey with
    | inl hold => exact .inl (hless key hold wanted hwanted)
    | inr hnew =>
        rw [hnew, show row.key.2 = hash from hhash]
        cases List.mem_cons.mp hwanted with
        | inl hsame => exact .inr ⟨hsame.symm, rfl⟩
        | inr hlater => exact .inl (List.rel_of_pairwise_cons hsorted hlater)
  · intro _ wanted
    have hcovered := hsound.covered hopen wanted
    rw [hkeys, List.map_append, List.mem_append, List.map_singleton, List.mem_singleton,
      show row.key.2 = hash from hhash]
    constructor
    · intro hmem
      cases hcovered.mp hmem with
      | inl hlater => exact .inl hlater
      | inr hheld => exact .inr (.inl hheld)
    · intro hmem
      apply hcovered.mpr
      cases hmem with
      | inl hlater => exact .inl hlater
      | inr hboth =>
          cases hboth with
          | inl hheld => exact .inr hheld
          | inr hsame =>
              rw [hsame, hpending]
              exact .inl List.mem_cons_self
  · refine ⟨hissued, ?_⟩
    rw [hnamed]
    change session.pending.head? = some hash
    rw [hpending, List.head?_cons]

theorem SignInState.Consistent.insert (hstate : state.Consistent names)
    (hsession : state.sessions index = some session) (hphase : session.phase = .inserting)
    (hpending : session.pending = hash :: rest) {after : SignInState}
    (hinsert : state.insert index session hash = some after) :
    ∃ issued, after.Consistent issued := by
  have hsound := hstate.sound index session hsession
  unfold SignInState.insert at hinsert
  split at hinsert
  · cases hinsert
  · rename_i hothers
    split at hinsert
    · obtain rfl := Option.some.inj hinsert
      refine ⟨names, hstate.rephase hsession (by rw [hphase]; rfl) (by simp [hphase]) ?_⟩
      change session.pending ≠ []
      rw [hpending]
      exact List.cons_ne_nil _ _
    · rename_i hunseen
      have hunstored : hash ∉ state.stored.map Prod.snd := by
        intro hstored
        obtain ⟨row, hrow, hsame⟩ := hstate.exists_visible_hash hsession hstored
        apply hunseen
        rw [List.any_eq_true]
        exact ⟨row, hrow, by simpa using hsame⟩
      obtain rfl := Option.some.inj hinsert
      have hcounted := hstate.issue hash
      refine ⟨Function.update names state.nextId hash, ?_⟩
      have hkeys := @keys_concat session ⟨state.nextId, ⟨hash, session.call.now, 0, none⟩⟩
        session.pending (.locking state.nextId)
      apply hcounted.enter_concat hsession hkeys
      · apply (hcounted.sound index session hsession).created hphase hpending rfl
        · exact Nat.lt_succ_self state.nextId
        · exact Function.update_self ..
        · intro key hkey
          apply Nat.ne_of_lt
          cases hkey with
          | inl hheld => exact (hsound.rows.known key hheld).lt_nextId hstate.issued
          | inr hstored => exact hstate.issued key hstored
        · exact hunstored
      · intro other found hne hfound held hheld
        have hknown := (hstate.sound other found hfound).rows.known held hheld
        refine ⟨Nat.ne_of_gt (hknown.lt_nextId hstate.issued), ?_⟩
        intro hsame
        have hblocks := hstate.not_of_others hothers hne hfound
        have hholds : found.holdsHash hash = true := by
          rw [holdsHash_iff, show hash = held.2 from hsame]
          exact mem_hashes hheld
        have hnone : (state.committed.any fun row => row.hash = hash) = false := by
          rw [List.any_eq_false]
          intro row hrow hrowHash
          rw [decide_eq_true_eq] at hrowHash
          apply hunstored
          rw [← hrowHash]
          exact mem_hashes (List.mem_map_of_mem hrow)
        simp [SignInState.blocksInsert, hholds, hnone] at hblocks

/-- A committed row that no other transaction holds by its identifier is held by none. -/
theorem SignInState.Consistent.apart_of_stored (hstate : state.Consistent names) {key : ℕ × Text}
    (hkey : key ∈ state.stored) {other : ℕ} {found : SignInSession}
    (hfound : state.sessions other = some found) (hfree : found.holdsId key.1 = false) :
    ∀ held ∈ found.keys, key.1 ≠ held.1 ∧ key.2 ≠ held.2 := by
  intro held hheld
  have hid : key.1 ≠ held.1 := by
    intro hsame
    have hholds : found.holdsId key.1 = true := by
      rw [holdsId_iff, hsame]
      exact mem_ids hheld
    rw [hholds] at hfree
    cases hfree
  refine ⟨hid, ?_⟩
  intro hsame
  have hknown := (hstate.sound other found hfound).rows.known held hheld
  exact hid (congrArg Prod.fst (hknown.eq_of_snd hstate.hashes hkey hsame))

/-- The rows of a transaction come before the hashes after the next one. -/
theorem SignInSession.Sound.below_rest (hsound : session.Sound names stored nextId)
    (hpending : session.pending = hash :: rest) :
    ∀ key ∈ session.keys, ∀ wanted ∈ rest, key.2 < wanted := by
  intro key hkey wanted hwanted
  have hsorted := hsound.sorted
  rw [hpending] at hsorted
  have hhead : hash ∈ session.pending := by
    rw [hpending]
    exact List.mem_cons_self
  have hless := List.rel_of_pairwise_cons hsorted hwanted
  cases hsound.below key hkey hash hhead with
  | inl hbefore => exact lt_trans hbefore hless
  | inr hlocking =>
      rw [hlocking.1]
      exact hless

/-- A transaction goes on with a row of the next hash among its rows. -/
theorem SignInSession.Sound.locked (hsound : session.Sound names stored nextId)
    (hphase : session.phase = .locking id) (hpending : session.pending = hash :: rest)
    {held : List ThrottleRow} (hrows : HeldThrottles names stored nextId (held.map ThrottleRow.key))
    (hkeys : ∀ key, key ∈ held.map ThrottleRow.key ↔ key ∈ session.keys ∨ key = (id, hash)) :
    SignInSession.Sound names stored nextId
      { session with pending := session.pending.tail, held := held, phase := .refreshing id } := by
  have hsorted := hsound.sorted
  rw [hpending] at hsorted
  have hown : (id, hash) ∈ held.map ThrottleRow.key := (hkeys (id, hash)).mpr (.inr rfl)
  constructor
  · exact hrows
  · rw [hpending]
    exact hsorted.tail
  · intro key hkey wanted hwanted
    change wanted ∈ session.pending.tail at hwanted
    rw [hpending, List.tail_cons] at hwanted
    cases (hkeys key).mp hkey with
    | inl hold => exact .inl (hsound.below_rest hpending key hold wanted hwanted)
    | inr hsame =>
        rw [hsame]
        exact .inl (List.rel_of_pairwise_cons hsorted hwanted)
  · intro _ wanted
    have hopen : session.phase.ended = false := by rw [hphase]; rfl
    have hcovered := hsound.covered hopen wanted
    rw [hpending, List.tail_cons]
    rw [hpending, List.mem_cons] at hcovered
    constructor
    · intro hmem
      cases hcovered.mp hmem with
      | inl hlater =>
          cases hlater with
          | inl hsame =>
              rw [hsame]
              exact .inr (mem_hashes hown)
          | inr hrest => exact .inl hrest
      | inr hheld =>
          obtain ⟨key, hkey, hsame⟩ := List.mem_map.mp hheld
          exact .inr (List.mem_map.mpr ⟨key, (hkeys key).mpr (.inl hkey), hsame⟩)
    · intro hmem
      apply hcovered.mpr
      cases hmem with
      | inl hrest => exact .inl (.inr hrest)
      | inr hheld =>
          obtain ⟨key, hkey, hsame⟩ := List.mem_map.mp hheld
          cases (hkeys key).mp hkey with
          | inl hold => exact .inr (List.mem_map.mpr ⟨key, hold, hsame⟩)
          | inr hnew =>
              rw [← hsame, hnew]
              exact .inl (.inl rfl)
  · exact mem_ids hown

/-- The lock of a row that the transaction has inserted itself. -/
theorem SignInState.Consistent.lock_own (hstate : state.Consistent names)
    (hsession : state.sessions index = some session) (hphase : session.phase = .locking id)
    (hpending : session.pending = hash :: rest) (hown : (id, hash) ∈ session.keys) :
    (state.enter index { session with
      pending := session.pending.tail
      held := session.held
      phase := .refreshing id }).Consistent names := by
  have hsound := hstate.sound index session hsession
  have hkeys : SignInSession.keys { session with
      pending := session.pending.tail
      held := session.held
      phase := .refreshing id } = session.keys := rfl
  apply hstate.enter_keys hsession hkeys
  apply hsound.locked hphase hpending hsound.rows
  intro key
  constructor
  · exact fun hkey => .inl hkey
  · intro hkey
    cases hkey with
    | inl hold => exact hold
    | inr hsame =>
        rw [hsame]
        exact hown

/-- The lock of a committed row that no transaction has. -/
theorem SignInState.Consistent.lock_stored (hstate : state.Consistent names)
    (hsession : state.sessions index = some session) {row : ThrottleRow}
    (hphase : session.phase = .locking row.id) (hpending : session.pending = row.hash :: rest)
    (hstored : row.key ∈ state.stored) (hunheld : row.id ∉ session.keys.map Prod.fst)
    (hfree : ∀ other found, other ≠ index → state.sessions other = some found →
      found.holdsId row.id = false) :
    (state.enter index { session with
      pending := session.pending.tail
      held := session.held ++ [row]
      phase := .refreshing row.id }).Consistent names := by
  have hsound := hstate.sound index session hsession
  have hheldKeys : (session.held ++ [row]).map ThrottleRow.key = session.keys ++ [row.key] := by
    rw [List.map_append]
    rfl
  have hunhashed : row.hash ∉ session.keys.map Prod.snd := by
    intro hmem
    obtain ⟨key, hkey, hsame⟩ := List.mem_map.mp hmem
    have heq := (hsound.rows.known key hkey).eq_of_snd hstate.hashes hstored hsame.symm
    rw [show row.id = key.1 from congrArg Prod.fst heq] at hunheld
    exact hunheld (mem_ids hkey)
  apply hstate.enter_concat hsession (keys_concat row session.pending.tail _)
  · apply hsound.locked hphase hpending
    · rw [hheldKeys]
      exact hsound.rows.concat (.inl hstored) (hstate.named row.key hstored) hunheld hunhashed
    · intro key
      rw [hheldKeys, List.mem_append, List.mem_singleton]
      rfl
  · intro other found hne hfound
    exact hstate.apart_of_stored hstored hfound (hfree other found hne hfound)

theorem SignInState.Consistent.lock (hstate : state.Consistent names)
    (hsession : state.sessions index = some session) (hphase : session.phase = .locking id)
    {after : SignInState} (hlock : state.lock index session id = some after) :
    after.Consistent names := by
  have hsound := hstate.sound index session hsession
  have hready := hsound.ready
  rw [SignInSession.Ready, hphase] at hready
  obtain ⟨rest, hpending⟩ := List.head?_eq_some_iff.mp hready.2
  unfold SignInState.lock at hlock
  split at hlock
  · cases hlock
  · rename_i hothers
    cases hfound : (session.visible state.committed).find? fun row => row.id = id with
    | none =>
        rw [hfound] at hlock
        obtain rfl := Option.some.inj hlock
        exact hstate.close (hstate.lt_count hsession) rfl
    | some row =>
        rw [hfound] at hlock
        obtain rfl := Option.some.inj hlock
        have hid : row.id = id := by simpa using List.find?_some hfound
        have hrow := List.mem_of_find?_eq_some hfound
        have hnamed := (hstate.visible_named hsession hrow).2
        rw [← hid] at hphase hpending
        by_cases hholds : session.holdsId id = true
        · rw [if_pos hholds, ← hid]
          apply hstate.lock_own hsession hphase hpending
          obtain ⟨key, hkey, hsame⟩ := List.mem_map.mp (holdsId_iff.mp hholds)
          have hkeyNamed := hsound.rows.named key hkey
          have hown : key = (row.id, names row.id) := by
            rw [hid, ← hsame, hkeyNamed]
          rwa [← hown]
        · rw [if_neg hholds, ← hid]
          have hunheld : row.id ∉ session.keys.map Prod.fst := by
            rw [hid, ← holdsId_iff]
            exact hholds
          rw [hnamed] at hpending
          apply hstate.lock_stored hsession hphase hpending
          · cases key_of_visible hrow with
            | inl hheld => exact absurd (mem_ids hheld) hunheld
            | inr hstored => exact hstored.1
          · exact hunheld
          · intro other found hne hother
            rw [hid]
            exact hstate.not_of_others hothers hne hother

end Locks

/-! ## The statements behind the locks -/

section Saves

variable {names : ℕ → Text} {state : SignInState} {index : ℕ} {session : SignInSession} {id : ℕ}
  {row : ThrottleRow}

/-- A save of a row that the transaction holds. -/
theorem SignInState.Consistent.save (hstate : state.Consistent names)
    (hsession : state.sessions index = some session) {next : SignInPhase}
    (hopen : session.phase.ended = false) (hplain : ∀ id, session.phase ≠ .locking id)
    (hrow : row.key ∈ session.keys)
    (hready : SignInSession.Ready names state.nextId { session with phase := next }) :
    (state.save index session row next).Consistent names := by
  have hsound := hstate.sound index session hsession
  unfold SignInState.save
  split
  · have hkeys := keys_saved hsound.rows.ids hrow next
    apply hstate.enter_keys hsession hkeys
    have hrephased := hsound.rephase hopen hplain hready
    constructor
    · rw [hkeys]
      exact hsound.rows
    · exact hsound.sorted
    · rw [hkeys]
      exact hrephased.below
    · rw [hkeys]
      exact hrephased.covered
    · unfold SignInSession.Ready at hready ⊢
      rw [hkeys]
      exact hready
  · exact hstate.close (hstate.lt_count hsession) rfl

theorem refreshed_hash {now : Time} {bucket refreshed : LoginThrottle}
    (hrefreshed : bucket.refreshed now = some refreshed) :
    refreshed.bucketHash = bucket.bucketHash := by
  unfold LoginThrottle.refreshed at hrefreshed
  split at hrefreshed
  · rw [← Option.some.inj hrefreshed]
  · split at hrefreshed
    · rw [← Option.some.inj hrefreshed]
    · cases hrefreshed

theorem SignInState.Consistent.refresh (hstate : state.Consistent names)
    (hsession : state.sessions index = some session) (hphase : session.phase = .refreshing id) :
    (state.refresh index session id).Consistent names := by
  have hopen : session.phase.ended = false := by rw [hphase]; rfl
  have hplain : ∀ id, session.phase ≠ .locking id := by simp [hphase]
  have hnext : SignInSession.Ready names state.nextId { session with phase := session.looped } := by
    unfold SignInSession.looped
    by_cases hpending : session.pending = []
    · rw [if_pos hpending]
      exact hpending
    · rw [if_neg hpending]
      exact hpending
  unfold SignInState.refresh
  cases hfound : session.held.find? fun row => row.id = id with
  | none => exact hstate.close (hstate.lt_count hsession) rfl
  | some row =>
      cases hrefreshed : row.bucket.refreshed session.call.now with
      | none =>
          simp only [hrefreshed]
          exact hstate.rephase hsession hopen hplain hnext
      | some bucket =>
          simp only [hrefreshed]
          apply hstate.save hsession hopen hplain _ hnext
          have hhash : bucket.bucketHash = row.bucket.bucketHash := refreshed_hash hrefreshed
          have hkey : ThrottleRow.key ⟨row.id, bucket⟩ = row.key := by
            rw [ThrottleRow.key, ThrottleRow.hash, hhash]
            rfl
          rw [hkey]
          exact List.mem_map_of_mem (List.mem_of_find?_eq_some hfound)

theorem SignInState.Consistent.register (hstate : state.Consistent names)
    (hsession : state.sessions index = some session) {rest : List ThrottleRow}
    (hphase : session.phase = .registering (row :: rest)) :
    (state.save index session ⟨row.id, row.bucket.registered session.call.now⟩
      (.registering rest)).Consistent names := by
  have hready := (hstate.sound index session hsession).ready
  rw [SignInSession.Ready, hphase] at hready
  apply hstate.save hsession (by rw [hphase]; rfl) (by simp [hphase])
  · exact hready.2 row List.mem_cons_self
  · exact ⟨hready.1, fun other hother => hready.2 other (List.mem_cons_of_mem _ hother)⟩

/-- A row of a hash of the transaction is its own once it has locked them all. -/
theorem SignInState.Consistent.mem_keys_of_hash (hstate : state.Consistent names)
    (hsession : state.sessions index = some session) (hopen : session.phase.ended = false)
    (hpending : session.pending = []) (hrow : row ∈ session.visible state.committed)
    (hhash : row.hash ∈ session.hashes) : row.key ∈ session.keys := by
  have hsound := hstate.sound index session hsession
  cases key_of_visible hrow with
  | inl hheld => exact hheld
  | inr hstored =>
      have hcovered := (hsound.covered hopen row.hash).mp hhash
      rw [hpending] at hcovered
      cases hcovered with
      | inl hmem => cases hmem
      | inr hheld =>
          obtain ⟨key, hkey, hsame⟩ := List.mem_map.mp hheld
          have hknown := hsound.rows.known key hkey
          rw [hknown.eq_of_snd hstate.hashes hstored.1 hsame.symm]
          exact hkey

theorem SignInState.Consistent.delete (hstate : state.Consistent names)
    (hsession : state.sessions index = some session) {user : User}
    (hphase : session.phase = .deleting user) {after : SignInState}
    (hdelete : state.delete index session user = some after) : after.Consistent names := by
  have hopen : session.phase.ended = false := by rw [hphase]; rfl
  have hpending := (hstate.sound index session hsession).ready
  rw [SignInSession.Ready, hphase] at hpending
  unfold SignInState.delete at hdelete
  split at hdelete
  · cases hdelete
  · obtain rfl := Option.some.inj hdelete
    apply hstate.rephase hsession hopen (by simp [hphase])
    refine ⟨hpending, fun id hid => ?_⟩
    obtain ⟨row, hrow, hsame⟩ := List.mem_map.mp hid
    rw [SignInState.ownRows, List.mem_filter, decide_eq_true_eq] at hrow
    rw [← hsame]
    exact mem_ids (hstate.mem_keys_of_hash hsession hopen hpending hrow.1 hrow.2)

end Saves

/-! ## Commits -/

section Commits

variable {names : ℕ → Text} {state : SignInState} {index other : ℕ} {session found : SignInSession}
  {deleted : List ℕ} {user : Option User} {key : ℕ × Text}

theorem mem_afterCommit : key ∈ (state.afterCommit session deleted).map ThrottleRow.key ↔
    (key ∈ session.keys ∨ (key ∈ state.stored ∧ key.1 ∉ session.keys.map Prod.fst)) ∧
      key.1 ∉ deleted := by
  rw [List.mem_map]
  constructor
  · intro hmem
    obtain ⟨row, hrow, hkey⟩ := hmem
    rw [SignInState.afterCommit, List.mem_filter, decide_eq_true_eq] at hrow
    rw [← hkey]
    exact ⟨key_of_visible hrow.1, hrow.2⟩
  · intro hmem
    have hkept : ∀ row : ThrottleRow, row.key = key → row ∈ session.visible state.committed →
        ∃ row ∈ state.afterCommit session deleted, row.key = key := by
      intro row hkey hrow
      refine ⟨row, ?_, hkey⟩
      rw [SignInState.afterCommit, List.mem_filter, decide_eq_true_eq]
      refine ⟨hrow, ?_⟩
      rw [← hkey] at hmem
      exact hmem.2
    cases hmem.1 with
    | inl hheld =>
        obtain ⟨row, hrow, hkey⟩ := List.mem_map.mp hheld
        exact hkept row hkey (mem_visible.mpr (.inl hrow))
    | inr hstored =>
        obtain ⟨row, hrow, hkey⟩ := List.mem_map.mp hstored.1
        rw [← hkey] at hstored
        exact hkept row hkey (mem_visible.mpr (.inr ⟨hrow, hstored.2⟩))

/-- A committed row without a change in the transaction is kept, and not deleted. -/
theorem stored_afterCommit (hkey : key ∈ state.stored) (hfree : key.1 ∉ session.keys.map Prod.fst)
    (hdeleted : ∀ id ∈ deleted, id ∈ session.keys.map Prod.fst) :
    key ∈ (state.afterCommit session deleted).map ThrottleRow.key :=
  mem_afterCommit.mpr ⟨.inr ⟨hkey, hfree⟩, fun hmem => hfree (hdeleted key.1 hmem)⟩

/-- Unique values of the committed rows stay unique. -/
theorem nodup_afterCommit {β : Type} (value : ThrottleRow → β)
    (hheld : (session.held.map value).Nodup) (hcommitted : (state.committed.map value).Nodup)
    (hdistinct : ∀ own ∈ session.held, ∀ row ∈ state.committed, value own = value row →
      own.id = row.id) :
    ((state.afterCommit session deleted).map value).Nodup := by
  apply List.Nodup.sublist (List.filter_sublist.map value)
  rw [SignInSession.visible, List.map_append, List.nodup_append]
  refine ⟨hheld, hcommitted.sublist (List.filter_sublist.map value), ?_⟩
  intro first hfirst second hsecond hsame
  obtain ⟨own, hown, howned⟩ := List.mem_map.mp hfirst
  obtain ⟨row, hrow, hvalue⟩ := List.mem_map.mp hsecond
  rw [List.mem_filter, decide_eq_true_eq] at hrow
  have hid := hdistinct own hown row hrow.1 (by rw [howned, hvalue, hsame])
  apply hrow.2
  rw [← hid]
  exact List.mem_map_of_mem hown

/-- The rows of another transaction stay known. -/
theorem SignInState.Consistent.known_afterCommit (hstate : state.Consistent names)
    (hne : other ≠ index) (hsession : state.sessions index = some session)
    (hfound : state.sessions other = some found)
    (hdeleted : ∀ id ∈ deleted, id ∈ session.keys.map Prod.fst) (hkey : key ∈ found.keys) :
    KnownThrottle ((state.afterCommit session deleted).map ThrottleRow.key) state.nextId key := by
  have hapart : ∀ own ∈ session.keys, own.1 ≠ key.1 ∧ own.2 ≠ key.2 := fun own hown =>
    hstate.apart index other session found hne.symm hsession hfound own hown key hkey
  cases (hstate.sound other found hfound).rows.known key hkey with
  | inl hstored =>
      have hfree : key.1 ∉ session.keys.map Prod.fst := by
        intro hmem
        obtain ⟨own, hown, hsame⟩ := List.mem_map.mp hmem
        exact (hapart own hown).1 hsame
      exact .inl (stored_afterCommit hstored hfree hdeleted)
  | inr hnew =>
      refine .inr ⟨hnew.1, fun kept hkept => ?_⟩
      cases (mem_afterCommit.mp hkept).1 with
      | inl hown => exact hapart kept hown
      | inr hstored => exact hnew.2 kept hstored.1

theorem SignInState.Consistent.commit (hstate : state.Consistent names)
    (hsession : state.sessions index = some session)
    (hdeleted : ∀ id ∈ deleted, id ∈ session.keys.map Prod.fst) :
    (state.commit index session deleted user).Consistent names := by
  have hsound := hstate.sound index session hsession
  have hkept : ∀ key ∈ (state.afterCommit session deleted).map ThrottleRow.key,
      key ∈ session.keys ∨ key ∈ state.stored := by
    intro key hkey
    cases (mem_afterCommit.mp hkey).1 with
    | inl hown => exact .inl hown
    | inr hstored => exact .inr hstored.1
  have hclosed : (state.close index session (.returned user)).Consistent names :=
    hstate.close (hstate.lt_count hsession) rfl
  constructor
  · rw [SignInState.stored, List.map_map]
    apply nodup_afterCommit
    · have hids := hsound.rows.ids
      rwa [SignInSession.keys, List.map_map] at hids
    · have hids := hstate.ids
      rwa [SignInState.stored, List.map_map] at hids
    · exact fun _ _ _ _ hsame => hsame
  · rw [SignInState.stored, List.map_map]
    apply nodup_afterCommit
    · have hhashes := hsound.rows.hashes
      rwa [SignInSession.keys, List.map_map] at hhashes
    · have hhashes := hstate.hashes
      rwa [SignInState.stored, List.map_map] at hhashes
    · intro own hown row hrow hsame
      have hknown := hsound.rows.known own.key (List.mem_map_of_mem hown)
      have heq := hknown.eq_of_snd hstate.hashes (List.mem_map_of_mem hrow) hsame.symm
      exact (congrArg Prod.fst heq).symm
  · intro key hkey
    cases hkept key hkey with
    | inl hown => exact hsound.rows.named key hown
    | inr hstored => exact hstate.named key hstored
  · intro key hkey
    cases hkept key hkey with
    | inl hown => exact (hsound.rows.known key hown).lt_nextId hstate.issued
    | inr hstored => exact hstate.issued key hstored
  · exact hclosed.unused
  · intro other found hfound
    cases enter_cases hfound with
    | inl hown =>
        rw [hown.2]
        exact closed_sound rfl
    | inr hother =>
        have hkeptSound := hstate.sound other found hother.2
        refine ⟨⟨fun key hkey => ?_, hkeptSound.rows.named, hkeptSound.rows.ids,
          hkeptSound.rows.hashes⟩, hkeptSound.sorted, hkeptSound.below, hkeptSound.covered,
          hkeptSound.ready⟩
        exact hstate.known_afterCommit hother.1 hsession hother.2 hdeleted hkey
  · exact hclosed.apart

end Commits

/-! ## Every statement -/

section Runs

variable {library : LoginLibrary} {names : ℕ → Text} {state after : SignInState} {index : ℕ}
  {session : SignInSession}

theorem SignInState.Consistent.verify (hstate : state.Consistent names)
    (hsession : state.sessions index = some session) (hphase : session.phase = .verifying) :
    (state.verify library index session).Consistent names := by
  have hopen : session.phase.ended = false := by rw [hphase]; rfl
  have hplain : ∀ id, session.phase ≠ .locking id := by simp [hphase]
  have hpending := (hstate.sound index session hsession).ready
  rw [SignInSession.Ready, hphase] at hpending
  unfold SignInState.verify
  split
  · exact hstate.commit hsession (fun _ hid => absurd hid List.not_mem_nil)
  · split
    · apply hstate.rephase hsession hopen hplain
      exact ⟨hpending, fun row hrow => List.mem_map_of_mem hrow⟩
    · exact hstate.rephase hsession hopen hplain hpending

theorem sorted_sortedSet {hashes : List Text} : (sortedSet hashes).Pairwise (· < ·) := by
  have hsorted : (sortedSet hashes).Pairwise (· ≤ ·) := List.pairwise_insertionSort _ _
  have hnodup : (sortedSet hashes).Pairwise (· ≠ ·) := nodup_sortedSet
  apply List.Pairwise.imp _ (hsorted.and hnodup)
  intro first second hboth
  exact lt_of_le_of_ne hboth.1 hboth.2

theorem SignInState.Consistent.begin (hstate : state.Consistent names) (call : LoginCall) :
    (state.begin library call).Consistent names := by
  have hcounted : SignInState.Consistent names { state with count := state.count + 1 } := by
    refine ⟨hstate.ids, hstate.hashes, hstate.named, hstate.issued, ?_, hstate.sound,
      hstate.apart⟩
    intro index hle
    exact hstate.unused index (Nat.le_of_succ_le hle)
  unfold SignInState.begin
  apply hcounted.enter (Nat.lt_succ_self state.count)
  · constructor
    · exact ⟨fun _ hkey => absurd hkey List.not_mem_nil, fun _ hkey => absurd hkey List.not_mem_nil,
        List.nodup_nil, List.nodup_nil⟩
    · exact sorted_sortedSet
    · exact fun _ hkey => absurd hkey List.not_mem_nil
    · intro _ hash
      simp [SignInSession.keys]
    · apply List.ne_nil_of_mem
      rw [mem_sortedSet, LoginLibrary.bucketHashes, List.map_cons]
      exact List.mem_cons_self
  · exact fun _ _ _ _ _ hkey => absurd hkey List.not_mem_nil

theorem sessions_of_crash {other : ℕ} {found : SignInSession}
    (hfound : (state.crash index).sessions other = some found) :
    state.sessions other = some found := by
  change Function.update state.sessions index none other = some found at hfound
  by_cases hsame : other = index
  · rw [hsame, Function.update_self] at hfound
    cases hfound
  · rwa [Function.update_of_ne hsame] at hfound

theorem SignInState.Consistent.crash (hstate : state.Consistent names) (index : ℕ) :
    (state.crash index).Consistent names := by
  have hkept : ∀ other found, (state.crash index).sessions other = some found →
      state.sessions other = some found := fun _ _ => sessions_of_crash
  refine ⟨hstate.ids, hstate.hashes, hstate.named, hstate.issued, ?_, ?_, ?_⟩
  · intro other hle
    cases hfound : (state.crash index).sessions other with
    | none => rfl
    | some found =>
        have hsome := hkept other found hfound
        rw [hstate.unused other hle] at hsome
        cases hsome
  · exact fun other found hfound => hstate.sound other found (hkept other found hfound)
  · exact fun first second one other hne hone hother =>
      hstate.apart first second one other hne (hkept first one hone) (hkept second other hother)

/-- The statement that a transaction runs next. -/
inductive SignInState.Statement (library : LoginLibrary) (state : SignInState) (index : ℕ)
    (session : SignInSession) (after : SignInState) : Prop
  | fetch (hash : Text) (rest : List Text) (hphase : session.phase = .fetching)
      (hpending : session.pending = hash :: rest)
      (hafter : after = state.fetch index session hash)
  | insert (hash : Text) (rest : List Text) (hphase : session.phase = .inserting)
      (hpending : session.pending = hash :: rest)
      (hafter : state.insert index session hash = some after)
  | refetch (hash : Text) (rest : List Text) (hphase : session.phase = .refetching)
      (hpending : session.pending = hash :: rest)
      (hafter : after = state.refetch index session hash)
  | lock (id : ℕ) (hphase : session.phase = .locking id)
      (hafter : state.lock index session id = some after)
  | refresh (id : ℕ) (hphase : session.phase = .refreshing id)
      (hafter : after = state.refresh index session id)
  | verify (hphase : session.phase = .verifying)
      (hafter : after = state.verify library index session)
  | register (row : ThrottleRow) (rest : List ThrottleRow)
      (hphase : session.phase = .registering (row :: rest))
      (hafter : after = state.save index session
        ⟨row.id, row.bucket.registered session.call.now⟩ (.registering rest))
  | refuse (hphase : session.phase = .registering [])
      (hafter : after = state.commit index session [] none)
  | delete (user : User) (hphase : session.phase = .deleting user)
      (hafter : state.delete index session user = some after)
  | accept (user : User) (ids : List ℕ) (hphase : session.phase = .deleted user ids)
      (hafter : after = state.commit index session ids (some user))

theorem statement_of_advance (hsession : state.sessions index = some session)
    (hadvance : state.advance library index = some after) :
    state.Statement library index session after := by
  rw [SignInState.advance, hsession, Option.bind_eq_bind, Option.bind_some] at hadvance
  split at hadvance
  · rename_i hash rest hphase hpending
    exact .fetch hash rest hphase hpending (Option.some.inj hadvance).symm
  · rename_i hash rest hphase hpending
    exact .insert hash rest hphase hpending hadvance
  · rename_i hash rest hphase hpending
    exact .refetch hash rest hphase hpending (Option.some.inj hadvance).symm
  · rename_i id hphase
    exact .lock id hphase hadvance
  · rename_i id hphase
    exact .refresh id hphase (Option.some.inj hadvance).symm
  · rename_i hphase
    exact .verify hphase (Option.some.inj hadvance).symm
  · rename_i hphase
    exact .refuse hphase (Option.some.inj hadvance).symm
  · rename_i row rest hphase
    exact .register row rest hphase (Option.some.inj hadvance).symm
  · rename_i user hphase
    exact .delete user hphase hadvance
  · rename_i user ids hphase
    exact .accept user ids hphase (Option.some.inj hadvance).symm
  · cases hadvance

theorem exists_of_advance (hadvance : state.advance library index = some after) :
    ∃ session, state.sessions index = some session ∧
      state.Statement library index session after := by
  cases hsession : state.sessions index with
  | none =>
      rw [SignInState.advance, hsession] at hadvance
      cases hadvance
  | some session => exact ⟨session, rfl, statement_of_advance hsession hadvance⟩

theorem open_of_statement (hstatement : state.Statement library index session after) :
    session.phase.ended = false := by
  cases hstatement with
  | fetch _ _ hphase
  | insert _ _ hphase
  | refetch _ _ hphase
  | lock _ hphase
  | refresh _ hphase
  | verify hphase
  | register _ _ hphase
  | refuse hphase
  | delete _ hphase
  | accept _ _ hphase =>
      rw [hphase]
      rfl

theorem SignInState.Consistent.statement (hstate : state.Consistent names)
    (hsession : state.sessions index = some session)
    (hstatement : state.Statement library index session after) :
    ∃ issued, after.Consistent issued := by
  have hready := (hstate.sound index session hsession).ready
  cases hstatement with
  | fetch hash rest hphase hpending hafter =>
      rw [hafter]
      exact ⟨names, hstate.fetch hsession hphase hpending⟩
  | insert hash rest hphase hpending hafter => exact hstate.insert hsession hphase hpending hafter
  | refetch hash rest hphase hpending hafter =>
      rw [hafter]
      exact ⟨names, hstate.refetch hsession hphase hpending⟩
  | lock id hphase hafter => exact ⟨names, hstate.lock hsession hphase hafter⟩
  | refresh id hphase hafter =>
      rw [hafter]
      exact ⟨names, hstate.refresh hsession hphase⟩
  | verify hphase hafter =>
      rw [hafter]
      exact ⟨names, hstate.verify hsession hphase⟩
  | register row rest hphase hafter =>
      rw [hafter]
      exact ⟨names, hstate.register hsession hphase⟩
  | refuse hphase hafter =>
      rw [hafter]
      exact ⟨names, hstate.commit hsession (fun _ hid => absurd hid List.not_mem_nil)⟩
  | delete user hphase hafter => exact ⟨names, hstate.delete hsession hphase hafter⟩
  | accept user ids hphase hafter =>
      rw [SignInSession.Ready, hphase] at hready
      rw [hafter]
      exact ⟨names, hstate.commit hsession hready.2⟩

theorem consistent_of_initial (hinitial : (signInSystem library).initial state) :
    ∃ names, state.Consistent names := by
  have hhashes := hinitial.2.1
  have hnone : ∀ index, state.sessions index = none := hinitial.2.2.2
  have hids : (state.stored.map Prod.fst).Nodup := by
    rw [SignInState.stored, List.map_map]
    exact hinitial.1
  refine ⟨fun id => ((state.stored.find? fun key => key.1 = id).map Prod.snd).getD [], hids, ?_,
    ?_, ?_, fun index _ => hnone index, ?_, ?_⟩
  · rw [SignInState.stored, List.map_map]
    exact hhashes
  · intro key hkey
    cases hfound : state.stored.find? fun other => other.1 = key.1 with
    | none =>
        have hmissing := List.find?_eq_none.mp hfound key hkey
        simp at hmissing
    | some found =>
        have hsame : found.1 = key.1 := by simpa using List.find?_some hfound
        rw [eq_of_fst_eq hids hkey (List.mem_of_find?_eq_some hfound) hsame]
        rfl
  · intro key hkey
    obtain ⟨row, hrow, hsame⟩ := List.mem_map.mp hkey
    rw [← hsame]
    exact hinitial.2.2.1 row hrow
  · intro index session hsession
    rw [hnone index] at hsession
    cases hsession
  · intro first second one other hne hone
    rw [hnone first] at hone
    cases hone

/-- Whatever interleaves, the throttles and the transactions stay consistent. -/
theorem reachable_consistent (hreach : (signInSystem library).Reachable state) :
    ∃ names, state.Consistent names := by
  apply hreach.invariant (motive := fun reached => ∃ names, reached.Consistent names)
  · exact fun start hstart => consistent_of_initial hstart
  · intro before event after hbefore hstep
    obtain ⟨names, hconsistent⟩ := hbefore
    cases event with
    | begin call =>
        rw [show after = before.begin library call from hstep]
        exact ⟨names, hconsistent.begin call⟩
    | advance index =>
        obtain ⟨session, hsession, hstatement⟩ := exists_of_advance hstep
        exact hconsistent.statement hsession hstatement
    | crash index =>
        rw [show after = before.crash index from hstep.1]
        exact ⟨names, hconsistent.crash index⟩

end Runs

end Agora
