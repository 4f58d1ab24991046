import Mybro.KeyPool

/-!
# What `acquire` promises (`keypool.rs`)

`acquire`, `healthy_count` and `state` agree on which entries are usable, and `acquire` takes the
preferred entry, or the first usable one from the cursor on (`Acquires`). Only `state` may not come
to an answer at all: it masks every key, and a key that cannot be masked makes it panic
(`acquires_iff`).
-/

namespace Mybro
namespace KeyPool

variable {p : KeyPool} {now : ℕ} {preferred : Option ℕ}

/-- `state` answers, and shows an active entry. -/
def ShowsActive (p : KeyPool) (now : ℕ) : Prop :=
  ∃ shown, p.state now = some shown ∧ ∃ s ∈ shown, s.status = .active

/-- The entry at `idx` is the first usable one in cyclic order from the cursor. -/
def FirstUsable (p : KeyPool) (now idx : ℕ) : Prop :=
  ∃ i < p.entries.length, (p.cursor + i) % p.entries.length = idx ∧ p.usableAt now idx = true ∧
    ∀ k < i, p.usableAt now ((p.cursor + k) % p.entries.length) = false

/-- What an acquisition promises, with `healthy_count` and `state` beside it. -/
structure Acquires (p : KeyPool) (now : ℕ) (preferred : Option ℕ) : Prop where
  finds : (p.acquire now preferred).1.isSome = true ↔ ∃ idx, p.usableAt now idx = true
  counted : (p.acquire now preferred).1.isSome = true ↔ 0 < p.healthyCount now
  shown : (p.acquire now preferred).1.isSome = true ↔ p.ShowsActive now
  byPreference : ∀ idx, preferred = some idx → p.usableAt now idx = true →
    (p.acquire now preferred).1 = p.slotAt idx ∧ (p.acquire now preferred).2.cursor = p.cursor
  inTurn : (∀ idx, preferred = some idx → p.usableAt now idx = false) →
    ∀ slot, (p.acquire now preferred).1 = some slot → p.FirstUsable now slot.index ∧
      (p.acquire now preferred).2.cursor = (slot.index + 1) % p.entries.length ∧
      (p.acquire now preferred).2.cursor < p.entries.length
  slot : ∀ slot, (p.acquire now preferred).1 = some slot →
    ∃ e, p.entries[slot.index]? = some e ∧ slot.key = e.key ∧ slot.name = e.name ∧
      (p.acquire now preferred).2.entries[slot.index]? =
        some { e with healthy := true, lastError := none } ∧
      ∀ j, j ≠ slot.index → (p.acquire now preferred).2.entries[j]? = p.entries[j]?
  nothing : (p.acquire now preferred).1 = none → (p.acquire now preferred).2 = p

/-! ### Which entries are usable -/

theorem usableAt_iff {idx : ℕ} :
    p.usableAt now idx = true ↔ ∃ e, p.entries[idx]? = some e ∧ e.isUsable now = true := by
  unfold usableAt
  cases p.entries[idx]? with
  | none => simp
  | some e => simp

/-- An entry is usable, seen from the entries. -/
theorem exists_usableAt_iff :
    (∃ idx, p.usableAt now idx = true) ↔ ∃ e ∈ p.entries, e.isUsable now = true := by
  simp only [usableAt_iff, List.mem_iff_getElem?]
  constructor
  · rintro ⟨idx, e, he, hu⟩
    exact ⟨e, ⟨idx, he⟩, hu⟩
  · rintro ⟨e, ⟨idx, he⟩, hu⟩
    exact ⟨idx, e, he, hu⟩

theorem healthyCount_pos_iff :
    0 < p.healthyCount now ↔ ∃ idx, p.usableAt now idx = true := by
  rw [exists_usableAt_iff]
  exact List.countP_pos_iff

/-- `state` calls an entry active exactly when it is usable. -/
theorem status_eq_active_iff (e : KeyEntry) :
    (e.status now).1 = .active ↔ e.isUsable now = true := by
  unfold KeyEntry.status KeyEntry.isUsable
  by_cases hkey : e.key = ""
  · simp [hkey]
  · cases (e.healthy || e.isPastCooldown now) <;> simp [hkey]

/-- An entry is shown with its key masked. -/
theorem state_eq (e : KeyEntry) :
    e.state now = (maskToken e.key).map fun token =>
      ⟨e.name, (e.status now).1, e.healthy, (e.status now).2, token⟩ := rfl

/-- Masking can go wrong for a key, and only that. -/
theorem isSome_state_iff :
    (p.state now).isSome = true ↔ ∀ e ∈ p.entries, (maskToken e.key).isSome = true := by
  unfold state
  induction p.entries with
  | nil => simp
  | cons e es ih =>
    rw [List.mapM_cons, List.forall_mem_cons, ← ih, state_eq]
    cases maskToken e.key with
    | none => simp
    | some token => cases es.mapM fun e => e.state now <;> simp

/-- The tokens that `state` shows. -/
theorem map_token_state (p : KeyPool) (now : ℕ) :
    (p.state now).map (List.map KeyState.token) = p.stateTokens := by
  unfold state stateTokens
  induction p.entries with
  | nil => rfl
  | cons e es ih =>
    rw [List.mapM_cons, List.mapM_cons, ← ih, state_eq]
    cases maskToken e.key with
    | none => rfl
    | some token => cases es.mapM fun e => e.state now <;> rfl

/-- When `state` answers, it shows every entry with its status. -/
theorem mem_state {shown : List KeyState} (h : p.state now = some shown) (status : KeyStatus) :
    (∃ s ∈ shown, s.status = status) ↔ ∃ e ∈ p.entries, (e.status now).1 = status := by
  unfold state at h
  generalize p.entries = es at h ⊢
  induction es generalizing shown with
  | nil =>
    cases h
    simp
  | cons e es ih =>
    rw [List.mapM_cons] at h
    obtain ⟨s, hs, h⟩ := Option.bind_eq_some_iff.1 h
    obtain ⟨rest, hrest, h⟩ := Option.bind_eq_some_iff.1 h
    cases h
    obtain ⟨token, -, rfl⟩ := Option.map_eq_some_iff.1 hs
    simp only [List.mem_cons, exists_eq_or_imp, ih hrest]

/-- What `state` shows of the usable entries. -/
theorem showsActive_iff :
    p.ShowsActive now ↔
      (∃ idx, p.usableAt now idx = true) ∧ ∀ e ∈ p.entries, (maskToken e.key).isSome = true := by
  have hmask : (p.state now).isSome = true ↔ _ := isSome_state_iff
  rw [← hmask, exists_usableAt_iff]
  simp only [← status_eq_active_iff]
  constructor
  · rintro ⟨shown, hshown, hactive⟩
    exact ⟨(mem_state hshown .active).1 hactive, Option.isSome_iff_exists.2 ⟨shown, hshown⟩⟩
  · rintro ⟨hactive, hsome⟩
    obtain ⟨shown, hshown⟩ := Option.isSome_iff_exists.1 hsome
    exact ⟨shown, hshown, (mem_state hshown .active).2 hactive⟩

/-! ### The acquisition -/

theorem isSome_acquire_iff :
    (p.acquire now preferred).1.isSome = true ↔ ∃ idx, p.usableAt now idx = true := by
  rcases p.acquire_spec now preferred with ⟨slot, h, hu, -⟩ | ⟨h, hno⟩
  · rw [h]
    exact ⟨fun _ => ⟨_, hu⟩, fun _ => rfl⟩
  · rw [h]
    simp [hno]

/-- Without a usable preferred entry it is the search that decides. -/
theorem acquire_eq_acquireNext (h : ∀ idx, preferred = some idx → p.usableAt now idx = false) :
    p.acquire now preferred = p.acquireNext now := by
  unfold acquire
  cases preferred with
  | none => rfl
  | some idx =>
    simp only
    rw [h idx rfl]
    rfl

/-- The search takes the first usable entry, and the cursor moves just past it. -/
theorem acquireNext_eq_some {slot : KeySlot} (h : (p.acquireNext now).1 = some slot) :
    p.search now = some slot.index ∧
      (p.acquireNext now).2.cursor = (slot.index + 1) % p.entries.length := by
  unfold acquireNext at h ⊢
  cases hs : p.search now with
  | none =>
    rw [hs] at h
    cases h
  | some idx =>
    rw [hs] at h
    obtain rfl : slot.index = idx := (slotAt_eq_some h).1
    exact ⟨rfl, rfl⟩

/-- The entry of the slot becomes healthy, and the others stay. -/
theorem entries_acquire {slot : KeySlot} (h : (p.acquire now preferred).1 = some slot) :
    ∃ e, p.entries[slot.index]? = some e ∧ slot.key = e.key ∧ slot.name = e.name ∧
      (p.acquire now preferred).2.entries[slot.index]? = some e.markHealthy ∧
      ∀ j, j ≠ slot.index → (p.acquire now preferred).2.entries[j]? = p.entries[j]? := by
  rcases p.acquire_cases now preferred with ⟨idx, cursor, -, hslot, hp⟩ | ⟨-, hnone⟩
  · rw [hslot] at h
    obtain ⟨e, he, rfl⟩ := Option.map_eq_some_iff.1 h
    refine ⟨e, he, rfl, rfl, ?_, fun j hj => ?_⟩
    · rw [hp]
      simp [modifyEntry, he]
    · rw [hp]
      simp [modifyEntry, Ne.symm hj]
  · rw [hnone] at h
    cases h

/-- **When `acquire` keeps its promises**: always but for `state`, which must be able to mask every
key when an entry is usable. -/
theorem acquires_iff (p : KeyPool) (now : ℕ) (preferred : Option ℕ) :
    p.Acquires now preferred ↔
      (∀ idx, p.usableAt now idx = false) ∨ ∀ e ∈ p.entries, (maskToken e.key).isSome = true := by
  constructor
  · intro h
    by_cases hu : ∃ idx, p.usableAt now idx = true
    · exact Or.inr (showsActive_iff.1 (h.shown.1 (h.finds.2 hu))).2
    · exact Or.inl fun idx => by simpa using not_exists.1 hu idx
  · intro hmask
    refine ⟨isSome_acquire_iff, isSome_acquire_iff.trans healthyCount_pos_iff.symm, ?_, ?_, ?_,
      fun slot h => entries_acquire h, ?_⟩
    · rw [isSome_acquire_iff, showsActive_iff]
      rcases hmask with hno | hmask
      · simp [hno]
      · exact ⟨fun h => ⟨h, hmask⟩, fun h => h.1⟩
    · rintro idx rfl hu
      rw [acquire_preferred hu]
      exact ⟨rfl, rfl⟩
    · intro hnot slot h
      rw [acquire_eq_acquireNext hnot] at h ⊢
      obtain ⟨hsearch, hcursor⟩ := acquireNext_eq_some h
      obtain ⟨i, hi, hidx, hu, hbefore⟩ := Cyclic.first_eq_some.1 hsearch
      refine ⟨⟨i, hi, hidx, hu, hbefore⟩, hcursor, ?_⟩
      rw [hcursor]
      exact Nat.mod_lt _ (by omega)
    · intro h
      rcases p.acquire_cases now preferred with ⟨idx, cursor, hu, hslot, -⟩ | ⟨-, hnone⟩
      · obtain ⟨e, he, -⟩ := exists_entry_of_usableAt hu
        rw [h, slotAt, he] at hslot
        cases hslot
      · rw [hnone]

/-- A pool with one key, in which a character lies across the tenth byte. -/
def accented : KeyPool := .new [.fromConfig ⟨"A", "123456789é12345", ""⟩]

/-- `acquire` hands the key out, but `state` panics. -/
theorem accented_not_shown : ¬ accented.Acquires 0 none := by
  intro h
  obtain ⟨shown, hshown, -⟩ := h.shown.1 (by decide)
  have hpanic : accented.state 0 = none := by decide
  rw [hpanic] at hshown
  cases hshown

end KeyPool
end Mybro
