import Mathlib.Tactic
import Mybro.Config
import Mybro.Lib.Cyclic

/-!
# The key pool (`keypool.rs`)

Entries, the round-robin cursor, and the operations on them. The operations that read the clock take
the reading `now` as an argument; instants and durations are in nanoseconds.
-/

namespace Mybro

/-- `KeyEntry`. -/
structure KeyEntry where
  key : String
  name : String
  healthy : Bool
  lastError : Option ℕ
  cooldown : ℕ
  deriving DecidableEq, Repr

/-- `KeySlot`, the detached copy handed to callers. -/
structure KeySlot where
  index : ℕ
  key : String
  name : String
  deriving DecidableEq, Repr

/-- The `status` of a `KeyState`. -/
inductive KeyStatus
  | none
  | active
  | cooldown
  deriving DecidableEq, Repr

/-- `KeyState`. -/
structure KeyState where
  name : String
  status : KeyStatus
  healthy : Bool
  remainingCooldownMs : UInt64
  token : String
  deriving DecidableEq, Repr

/-- `PoolInner`. -/
structure KeyPool where
  entries : List KeyEntry
  cursor : ℕ
  deriving DecidableEq, Repr

namespace KeyEntry

/-- `KeyEntry::from_config`; the cooldown is `DEFAULT_COOLDOWN`. -/
def fromConfig (ck : ConfigKey) : KeyEntry where
  key := ck.key
  name := ck.name
  healthy := true
  lastError := none
  cooldown := seconds 30

/-- `KeyEntry::is_past_cooldown`. -/
def isPastCooldown (e : KeyEntry) (now : ℕ) : Bool :=
  match e.lastError with
  | none => true
  | some t => decide (e.cooldown ≤ now - t)

/-- `KeyEntry::is_usable`. -/
def isUsable (e : KeyEntry) (now : ℕ) : Bool := e.key ≠ "" && (e.healthy || e.isPastCooldown now)

/-- The cooldown that remains, in milliseconds, as `state` computes it. -/
def remainingMs (e : KeyEntry) (now : ℕ) : UInt64 :=
  match e.lastError with
  | none => 0
  | some t => if e.cooldown ≤ now - t then 0 else UInt64.ofNat ((e.cooldown - (now - t)) / 1000000)

/-- What an acquisition and `mark_healthy` do to an entry. -/
def markHealthy (e : KeyEntry) : KeyEntry := { e with healthy := true, lastError := none }

/-- What `mark_unhealthy` does to an entry. -/
def markUnhealthy (e : KeyEntry) (now cooldown : ℕ) : KeyEntry :=
  { e with healthy := false, lastError := some now, cooldown := cooldown }

/-- The status of an entry, and the milliseconds until it is usable again. -/
def status (e : KeyEntry) (now : ℕ) : KeyStatus × UInt64 :=
  if e.key = "" then (.none, 0)
  else if e.healthy || e.isPastCooldown now then (.active, 0)
  else (.cooldown, e.remainingMs now)

/-- An entry as `state` shows it; masking its key can panic. -/
def state (e : KeyEntry) (now : ℕ) : Option KeyState :=
  (maskToken e.key).map fun token =>
    { name := e.name
      status := (e.status now).1
      healthy := e.healthy
      remainingCooldownMs := (e.status now).2
      token := token }

/-- The part of an entry that the configuration determines. -/
def id (e : KeyEntry) : String × String := (e.name, e.key)

@[simp] theorem id_markHealthy (e : KeyEntry) : e.markHealthy.id = e.id := rfl

@[simp] theorem id_markUnhealthy (e : KeyEntry) (now cooldown : ℕ) :
    (e.markUnhealthy now cooldown).id = e.id := rfl

end KeyEntry

/-- `cooldown_for_status`. -/
def cooldownForStatus (status : ℕ) : ℕ :=
  if status ≥ 503 then seconds 60 else if status ≥ 502 then seconds 30 else seconds 10

namespace KeyPool

/-- `KeyPool::new`. -/
def new (entries : List KeyEntry) : KeyPool := ⟨entries, 0⟩

/-- The slot of the entry at an index. -/
def slotAt (p : KeyPool) (idx : ℕ) : Option KeySlot :=
  p.entries[idx]?.map fun e => ⟨idx, e.key, e.name⟩

/-- Whether the entry at an index exists and is usable. -/
def usableAt (p : KeyPool) (now idx : ℕ) : Bool :=
  (p.entries[idx]?.map fun e => e.isUsable now).getD false

/-- Change the entry at an index. -/
def modifyEntry (p : KeyPool) (idx : ℕ) (f : KeyEntry → KeyEntry) : KeyPool :=
  { p with entries := p.entries.modify idx f }

/-- The round-robin search: the first usable index in cyclic order from the cursor. -/
def search (p : KeyPool) (now : ℕ) : Option ℕ :=
  ((List.range p.entries.length).map fun i => (p.cursor + i) % p.entries.length).find?
    (p.usableAt now)

/-- The acquisition by the round-robin search. -/
def acquireNext (p : KeyPool) (now : ℕ) : Option KeySlot × KeyPool :=
  match p.search now with
  | some idx =>
    (p.slotAt idx,
      { p.modifyEntry idx KeyEntry.markHealthy with cursor := (idx + 1) % p.entries.length })
  | none => (none, p)

/-- `KeyPool::acquire`. -/
def acquire (p : KeyPool) (now : ℕ) (preferred : Option ℕ) : Option KeySlot × KeyPool :=
  match preferred with
  | some idx =>
    if p.usableAt now idx then (p.slotAt idx, p.modifyEntry idx KeyEntry.markHealthy)
    else p.acquireNext now
  | none => p.acquireNext now

/-- `KeyPool::mark_unhealthy`. -/
def markUnhealthy (p : KeyPool) (now index status : ℕ) : KeyPool :=
  p.modifyEntry index fun e => e.markUnhealthy now (cooldownForStatus status)

/-- `KeyPool::mark_healthy`. -/
def markHealthy (p : KeyPool) (index : ℕ) : KeyPool := p.modifyEntry index KeyEntry.markHealthy

/-- `KeyPool::total`. -/
def total (p : KeyPool) : ℕ := p.entries.length

/-- `KeyPool::healthy_count`. -/
def healthyCount (p : KeyPool) (now : ℕ) : ℕ := p.entries.countP fun e => e.isUsable now

/-- `KeyPool::state`. -/
def state (p : KeyPool) (now : ℕ) : Option (List KeyState) := p.entries.mapM fun e => e.state now

/-- The tokens of `KeyPool::state`; masking one of them can panic. -/
def stateTokens (p : KeyPool) : Option (List String) := p.entries.mapM fun e => maskToken e.key

/-- `KeyPool::rebuild`. -/
def rebuild (_ : KeyPool) (entries : List KeyEntry) : KeyPool := ⟨entries, 0⟩

/-! ### What the operations keep -/

/-- The names and keys of the entries, in order. -/
def ids (p : KeyPool) : List (String × String) := p.entries.map KeyEntry.id

theorem ids_modifyEntry (p : KeyPool) (idx : ℕ) {f : KeyEntry → KeyEntry}
    (hf : ∀ e, (f e).id = e.id) : (p.modifyEntry idx f).ids = p.ids := by
  unfold ids modifyEntry
  apply List.ext_getElem?
  intro j
  simp only [List.getElem?_map, List.getElem?_modify]
  cases p.entries[j]? with
  | none => rfl
  | some e => by_cases hj : idx = j <;> simp [hj, hf]

@[simp] theorem ids_markUnhealthy (p : KeyPool) (now index status : ℕ) :
    (p.markUnhealthy now index status).ids = p.ids :=
  p.ids_modifyEntry index fun e => e.id_markUnhealthy now _

@[simp] theorem ids_markHealthy (p : KeyPool) (index : ℕ) : (p.markHealthy index).ids = p.ids :=
  p.ids_modifyEntry index fun e => e.id_markHealthy

/-- **What `acquire` does**: it hands out the slot of an entry that was usable and marks that entry
healthy, or hands out nothing and changes nothing. -/
theorem acquire_cases (p : KeyPool) (now : ℕ) (preferred : Option ℕ) :
    (∃ idx cursor, p.usableAt now idx = true ∧ (p.acquire now preferred).1 = p.slotAt idx ∧
      (p.acquire now preferred).2 =
        { p.modifyEntry idx KeyEntry.markHealthy with cursor := cursor }) ∨
    (p.search now = none ∧ p.acquire now preferred = (none, p)) := by
  have hnext : (∃ idx cursor, p.usableAt now idx = true ∧ (p.acquireNext now).1 = p.slotAt idx ∧
      (p.acquireNext now).2 = { p.modifyEntry idx KeyEntry.markHealthy with cursor := cursor }) ∨
      (p.search now = none ∧ p.acquireNext now = (none, p)) := by
    unfold acquireNext
    cases hs : p.search now with
    | some idx => exact Or.inl ⟨idx, _, List.find?_some hs, rfl, rfl⟩
    | none => exact Or.inr ⟨rfl, rfl⟩
  cases preferred with
  | none => exact hnext
  | some idx =>
    unfold acquire
    simp only
    split_ifs with hu
    · exact Or.inl ⟨idx, p.cursor, hu, rfl, rfl⟩
    · exact hnext

@[simp] theorem ids_acquire (p : KeyPool) (now : ℕ) (preferred : Option ℕ) :
    (p.acquire now preferred).2.ids = p.ids := by
  rcases p.acquire_cases now preferred with ⟨idx, cursor, -, -, h⟩ | ⟨-, h⟩
  · rw [h]
    exact p.ids_modifyEntry idx fun e => e.id_markHealthy
  · rw [h]

theorem exists_entry_of_usableAt {p : KeyPool} {now idx : ℕ} (h : p.usableAt now idx = true) :
    ∃ e, p.entries[idx]? = some e ∧ e.isUsable now = true := by
  unfold usableAt at h
  cases he : p.entries[idx]? with
  | none => rw [he] at h; cases h
  | some e => rw [he] at h; exact ⟨e, rfl, h⟩

/-- The search is one round from the cursor. -/
theorem search_eq (p : KeyPool) (now : ℕ) :
    p.search now = Cyclic.first p.entries.length (p.usableAt now) p.cursor := rfl

theorem lt_of_usableAt {p : KeyPool} {now idx : ℕ} (h : p.usableAt now idx = true) :
    idx < p.entries.length := by
  obtain ⟨e, he, -⟩ := exists_entry_of_usableAt h
  exact (List.getElem?_eq_some_iff.1 he).1

/-- The search finds an entry whenever one is usable. -/
theorem search_eq_none {p : KeyPool} {now : ℕ} :
    p.search now = none ↔ ∀ idx, p.usableAt now idx = false := by
  rw [search_eq, Cyclic.first_eq_none_iff]
  constructor
  · intro h idx
    by_contra hne
    have hu : p.usableAt now idx = true := by simpa using hne
    exact hne (h idx (lt_of_usableAt hu))
  · exact fun h j _ => h j

theorem slotAt_eq_some {p : KeyPool} {idx : ℕ} {slot : KeySlot} (h : p.slotAt idx = some slot) :
    slot.index = idx ∧ p.ids[idx]? = some (slot.name, slot.key) := by
  obtain ⟨e, he, rfl⟩ := Option.map_eq_some_iff.1 h
  exact ⟨rfl, by rw [ids, List.getElem?_map, he]; rfl⟩

/-- **`acquire` finds a usable entry whenever there is one**, and hands out its slot. -/
theorem acquire_spec (p : KeyPool) (now : ℕ) (preferred : Option ℕ) :
    (∃ slot, (p.acquire now preferred).1 = some slot ∧ p.usableAt now slot.index = true ∧
      p.slotAt slot.index = some slot) ∨
    ((p.acquire now preferred).1 = none ∧ ∀ idx, p.usableAt now idx = false) := by
  rcases p.acquire_cases now preferred with ⟨idx, cursor, hu, h, -⟩ | ⟨hnone, h⟩
  · obtain ⟨e, he, -⟩ := exists_entry_of_usableAt hu
    have hslot : p.slotAt idx = some ⟨idx, e.key, e.name⟩ := by rw [slotAt, he]; rfl
    exact Or.inl ⟨_, h.trans hslot, hu, hslot⟩
  · exact Or.inr ⟨by rw [h], search_eq_none.1 hnone⟩

/-- The preferred entry, when it is usable: it is acquired by its index, and the cursor stays. -/
theorem acquire_preferred {p : KeyPool} {now idx : ℕ} (h : p.usableAt now idx = true) :
    p.acquire now (some idx) = (p.slotAt idx, p.modifyEntry idx KeyEntry.markHealthy) := by
  simp only [acquire, h, if_true]

/-- The slot handed out names an entry. -/
theorem ids_of_acquire {p : KeyPool} {now : ℕ} {preferred : Option ℕ} {slot : KeySlot}
    (h : (p.acquire now preferred).1 = some slot) :
    p.ids[slot.index]? = some (slot.name, slot.key) := by
  rcases p.acquire_cases now preferred with ⟨idx, cursor, -, hslot, -⟩ | ⟨-, hnone⟩
  · rw [hslot] at h
    obtain ⟨hidx, hid⟩ := slotAt_eq_some h
    rw [hidx]
    exact hid
  · rw [hnone] at h
    cases h

/-- The names and keys of the pool that a list of keys gives. -/
def listedIds (keys : List ConfigKey) : List (String × String) := keys.map fun k => (k.name, k.key)

theorem ids_rebuild (p : KeyPool) (keys : List ConfigKey) :
    (p.rebuild (keys.map KeyEntry.fromConfig)).ids = listedIds keys := by
  unfold ids listedIds
  exact List.map_map

end KeyPool
end Mybro
