import Mybro.Sessions

/-!
# Rebuilding the pool under requests in flight

Slots and sessions name an entry of the pool by its index, and a rebuild can put another key there.
`unredirected_iff` says in which runs no index is ever redirected to another key.
-/

namespace Mybro

open Runs

namespace Serving

/-! ### Indices and keys -/

/-- A mark through a slot: what `mark_healthy` or `mark_unhealthy` makes of the pool. -/
def IsMark (slot : KeySlot) (p q : KeyPool) : Prop :=
  q = p.markHealthy slot.index ∨ ∃ now status, q = p.markUnhealthy now slot.index status

/-- Whatever mark is made through the slot, it changes only entries with the key of the slot. -/
def MarksOwn (p : KeyPool) (slot : KeySlot) : Prop :=
  ∀ q, IsMark slot p q → ∀ (j : ℕ) (e : KeyEntry), p.entries[j]? = some e → q.entries[j]? ≠ some e →
    e.key = slot.key

/-- Whenever the entry at the remembered index is usable and preferred, the key acquired is the
remembered one. -/
def PrefersOwn (p : KeyPool) (m : Remembered) : Prop :=
  ∀ now slot, p.usableAt now m.index = true → (p.acquire now (some m.index)).1 = some slot →
    slot.key = m.key

/-- **No index is redirected**: requests mark only entries with the key of their slot, and what a
session remembers, or a request has read from its session, brings back the key it was stored with.
-/
structure Unredirected (s : Serving) : Prop where
  marks : ∀ i slot, (s.turns i).slot = some slot → MarksOwn s.pool slot
  sessions : ∀ fp m, s.remembered fp = some m → PrefersOwn s.pool m
  preferences : ∀ i fp m, s.turns i = .touched fp (some m) → PrefersOwn s.pool m

/-! ### In terms of names and keys -/

/-- An entry at the index has the key. -/
def KeyAt (ids : List (String × String)) (idx : ℕ) (key : String) : Prop :=
  ∀ x, ids[idx]? = some x → x.2 = key

/-- An entry at the index has the key, or none and is never usable. -/
def KeyAtOrEmpty (ids : List (String × String)) (idx : ℕ) (key : String) : Prop :=
  ∀ x, ids[idx]? = some x → x.2 = key ∨ x.2 = ""

/-- The name and key of an entry. -/
theorem ids_getElem? {p : KeyPool} {idx : ℕ} {e : KeyEntry} (h : p.entries[idx]? = some e) :
    p.ids[idx]? = some (e.name, e.key) := by
  rw [KeyPool.ids, List.getElem?_map, h]
  rfl

theorem exists_entry_of_ids {p : KeyPool} {idx : ℕ} {x : String × String}
    (h : p.ids[idx]? = some x) : ∃ e, p.entries[idx]? = some e ∧ x = (e.name, e.key) := by
  rw [KeyPool.ids, List.getElem?_map] at h
  obtain ⟨e, he, rfl⟩ := Option.map_eq_some_iff.1 h
  exact ⟨e, he, rfl⟩

/-- A mark changes the entry at its index only. -/
theorem IsMark.getElem?_of_ne {slot : KeySlot} {p q : KeyPool} (h : IsMark slot p q) {j : ℕ}
    (hj : j ≠ slot.index) : q.entries[j]? = p.entries[j]? := by
  rcases h with rfl | ⟨now, status, rfl⟩
  · exact List.getElem?_modify_ne _ _ (Ne.symm hj)
  · exact List.getElem?_modify_ne _ _ (Ne.symm hj)

/-- Marks stay with the key exactly when the index does. -/
theorem marksOwn_iff {p : KeyPool} {slot : KeySlot} :
    MarksOwn p slot ↔ KeyAt p.ids slot.index slot.key := by
  constructor
  · intro h x hx
    obtain ⟨e, he, rfl⟩ := exists_entry_of_ids hx
    -- a mark at a moment other than that of the last error changes the entry
    have hmark := h (p.markUnhealthy (e.lastError.getD 0 + 1) slot.index 503)
      (Or.inr ⟨_, _, rfl⟩) slot.index e he
    refine hmark ?_
    rw [KeyPool.markUnhealthy, KeyPool.modifyEntry, List.getElem?_modify_eq, he]
    intro hsame
    have herror := congrArg KeyEntry.lastError (Option.some.inj hsame)
    cases hlast : e.lastError with
    | none => simp [KeyEntry.markUnhealthy, hlast] at herror
    | some t => simp [KeyEntry.markUnhealthy, hlast] at herror
  · intro h q hq j e he hne
    by_cases hj : j = slot.index
    · subst hj
      exact h _ (ids_getElem? he)
    · rw [hq.getElem?_of_ne hj] at hne
      exact absurd he hne

/-- The preference brings the key back exactly when the index does. -/
theorem prefersOwn_iff {p : KeyPool} {m : Remembered} :
    PrefersOwn p m ↔ KeyAtOrEmpty p.ids m.index m.key := by
  constructor
  · intro h x hx
    obtain ⟨e, he, rfl⟩ := exists_entry_of_ids hx
    by_cases hkey : e.key = ""
    · exact Or.inr hkey
    · -- once its cooldown is over the entry is usable
      have husable : p.usableAt (e.lastError.getD 0 + e.cooldown) m.index = true := by
        cases hlast : e.lastError with
        | none => simp [KeyPool.usableAt, he, KeyEntry.isUsable, KeyEntry.isPastCooldown, hkey, hlast]
        | some t => simp [KeyPool.usableAt, he, KeyEntry.isUsable, KeyEntry.isPastCooldown, hkey, hlast]
      refine Or.inl (h _ ⟨m.index, e.key, e.name⟩ husable ?_)
      rw [KeyPool.acquire_preferred husable, KeyPool.slotAt, he]
      rfl
  · intro h now slot husable hslot
    rw [KeyPool.acquire_preferred husable] at hslot
    obtain ⟨e, he, heusable⟩ := KeyPool.exists_entry_of_usableAt husable
    have hkey : slot.key = e.key := by
      rw [KeyPool.slotAt, he] at hslot
      cases hslot
      rfl
    rcases h _ (ids_getElem? he) with hown | hempty
    · exact hkey.trans hown
    · simp only [KeyEntry.isUsable, Bool.and_eq_true, decide_eq_true_eq] at heusable
      exact absurd hempty heusable.1

/-- What a request holds or prefers fits a list of names and keys. -/
def TurnFits (ids : List (String × String)) : TurnState → Prop
  | .away => True
  | .touched _ none => True
  | .touched _ (some m) => KeyAtOrEmpty ids m.index m.key
  | .acquired _ slot => KeyAt ids slot.index slot.key
  | .serving slot => KeyAt ids slot.index slot.key

/-- **All indices fit**: at each index that a request or a session names, the list has the key it
stands for, or nothing. -/
structure Fits (s : Serving) (ids : List (String × String)) : Prop where
  turns : ∀ i, TurnFits ids (s.turns i)
  sessions : ∀ fp m, s.remembered fp = some m → KeyAtOrEmpty ids m.index m.key

theorem turnFits_iff {ids : List (String × String)} {t : TurnState} :
    TurnFits ids t ↔ (∀ slot, t.slot = some slot → KeyAt ids slot.index slot.key) ∧
      ∀ fp m, t = .touched fp (some m) → KeyAtOrEmpty ids m.index m.key := by
  cases t with
  | away => simp [TurnFits, TurnState.slot]
  | touched fp preferred => cases preferred <;> simp [TurnFits, TurnState.slot]
  | acquired fp slot => simp [TurnFits, TurnState.slot]
  | serving slot => simp [TurnFits, TurnState.slot]

/-- No index is redirected exactly when all indices fit the pool. -/
theorem unredirected_iff_fits {s : Serving} : Unredirected s ↔ s.Fits s.pool.ids := by
  constructor
  · intro h
    refine ⟨fun i => turnFits_iff.2 ⟨fun slot hslot => ?_, fun fp m hm => ?_⟩, fun fp m hm => ?_⟩
    · exact marksOwn_iff.1 (h.marks i slot hslot)
    · exact prefersOwn_iff.1 (h.preferences i fp m hm)
    · exact prefersOwn_iff.1 (h.sessions fp m hm)
  · intro h
    refine ⟨fun i slot hslot => ?_, fun fp m hm => ?_, fun i fp m hm => ?_⟩
    · exact marksOwn_iff.2 ((turnFits_iff.1 (h.turns i)).1 slot hslot)
    · exact prefersOwn_iff.2 (h.sessions fp m hm)
    · exact prefersOwn_iff.2 ((turnFits_iff.1 (h.turns i)).2 fp m hm)

/-! ### Steps -/

variable {md5 : String → List UInt8}

theorem keyAt_of_acquire {p : KeyPool} {now : ℕ} {preferred : Option ℕ} {slot : KeySlot}
    (h : (p.acquire now preferred).1 = some slot) : KeyAt p.ids slot.index slot.key := by
  intro x hx
  rw [KeyPool.ids_of_acquire h] at hx
  cases hx
  rfl

/-- What holds of all turns holds after one of them goes on. -/
theorem forall_turns_update {P : TurnState → Prop} {s : Serving} (h : ∀ j, P (s.turns j)) (i : ℕ)
    {x : TurnState} (hx : P x) (j : ℕ) : P (Function.update s.turns i x j) := by
  by_cases hj : j = i
  · subst hj
    rw [Function.update_self]
    exact hx
  · rw [Function.update_of_ne hj]
    exact h j

/-- A slot acquired fits the pool. -/
theorem turnFits_given {p : KeyPool} {now : ℕ} {preferred : Option ℕ} {t : KeySlot → TurnState}
    {otherwise : TurnState} (ht : ∀ slot, TurnFits p.ids (t slot) ↔ KeyAt p.ids slot.index slot.key)
    (ho : TurnFits p.ids otherwise) :
    TurnFits p.ids (((p.acquire now preferred).1.map t).getD otherwise) := by
  cases hslot : (p.acquire now preferred).1 with
  | none => exact ho
  | some slot => exact (ht slot).2 (keyAt_of_acquire hslot)

/-- The condition on a step under which no index is redirected: a rebuild leaves at every index that
is held or remembered the key that was there, or nothing. -/
def KeepsKeys (s : Serving) : ServingEvent → Prop
  | .rebuild keys => s.Fits (KeyPool.listedIds keys)
  | _ => True

/-- **What a step does**: the indices go on fitting the pool exactly when the step meets
`KeepsKeys`. -/
theorem Step.fits_iff {s t : Serving} {l : ServingEvent} (hs : s.Fits s.pool.ids)
    (h : Step md5 s l t) : t.Fits t.pool.ids ↔ s.KeepsKeys l := by
  cases h with
  | @touch i fp payload away digest =>
    have hremembered : ∀ fp', Serving.remembered { s.setTurn i (.touched fp (s.recalled fp)) with
        convMap := (s.convMap.touch fp).2 } fp' = s.remembered fp' := by
      intro fp'
      simp only [remembered, ConvMap.session_touch, setTurn]
    refine ⟨fun _ => trivial, fun _ => ⟨forall_turns_update hs.turns i ?_, fun fp' m hm => ?_⟩⟩
    · rw [s.recalled_eq fp]
      cases hm : s.remembered fp with
      | none => trivial
      | some m => exact hs.sessions fp m hm
    · exact hs.sessions fp' m ((hremembered fp').symm.trans hm)
  | @acquire i fp preferred now touched =>
    have hids : (s.pool.acquire now (preferred.map Remembered.index)).2.ids = s.pool.ids :=
      s.pool.ids_acquire now _
    refine ⟨fun _ => trivial, fun _ => ?_⟩
    show Fits _ (s.pool.acquire now (preferred.map Remembered.index)).2.ids
    rw [hids]
    exact ⟨forall_turns_update hs.turns i (turnFits_given (fun _ => Iff.rfl) trivial), hs.sessions⟩
  | @track i fp slot acquired =>
    have hslot : KeyAt s.pool.ids slot.index slot.key := by
      have hturn := hs.turns i
      rwa [acquired] at hturn
    refine ⟨fun _ => trivial, fun _ => ⟨forall_turns_update hs.turns i hslot, fun fp' m hm => ?_⟩⟩
    obtain ⟨x, hx, rfl⟩ := Option.map_eq_some_iff.1 hm
    by_cases hfp : fp = fp'
    · subst hfp
      have hself := (s.convMap.session_track_self fp slot.index).symm.trans hx
      cases hself
      intro y hy
      simp only [ConvMap.tokenIndex_tracked, Function.update_self] at hy ⊢
      exact Or.inl (hslot y hy)
    · have hold := ConvMap.session_of_track hfp hx
      have hm' : s.remembered fp' = some ⟨x.tokenIndex, s.storedKey fp'⟩ := by
        rw [remembered, hold]
        rfl
      have hkey : Function.update s.storedKey fp slot.key fp' = s.storedKey fp' :=
        Function.update_of_ne (Ne.symm hfp) _ _
      simp only [hkey]
      exact hs.sessions fp' _ hm'
  | @rotate i slot now serving =>
    have hslot : TurnFits s.pool.ids (.serving slot) := by
      have hturn := hs.turns i
      rwa [serving] at hturn
    refine ⟨fun _ => trivial, fun _ => ?_⟩
    show Fits _ (s.pool.acquire now none).2.ids
    rw [s.pool.ids_acquire now none]
    exact ⟨forall_turns_update hs.turns i (turnFits_given (fun _ => Iff.rfl) hslot), hs.sessions⟩
  | markHealthy serving =>
    refine ⟨fun _ => trivial, fun _ => ?_⟩
    show Fits _ (s.pool.markHealthy _).ids
    rw [KeyPool.ids_markHealthy]
    exact ⟨hs.turns, hs.sessions⟩
  | markUnhealthy now status serving =>
    refine ⟨fun _ => trivial, fun _ => ?_⟩
    show Fits _ (s.pool.markUnhealthy now _ status).ids
    rw [KeyPool.ids_markUnhealthy]
    exact ⟨hs.turns, hs.sessions⟩
  | leave i =>
    exact ⟨fun _ => trivial, fun _ => ⟨forall_turns_update hs.turns i trivial, hs.sessions⟩⟩
  | rebuild keys =>
    show Fits _ (s.pool.rebuild (keys.map KeyEntry.fromConfig)).ids ↔ s.Fits (KeyPool.listedIds keys)
    rw [KeyPool.ids_rebuild]
    exact ⟨fun h => ⟨h.turns, h.sessions⟩, fun h => ⟨h.turns, h.sessions⟩⟩

theorem fits_start (pool : KeyPool) (ids : List (String × String)) : (start pool).Fits ids := by
  refine ⟨fun _ => trivial, fun fp m hm => ?_⟩
  cases hm

/-- **Throughout a run no index is redirected exactly when every rebuild of the run meets
`KeepsKeys`.** -/
theorem unredirected_iff {pool : KeyPool} {r : List (ServingEvent × Serving)}
    (hr : IsRun md5 (start pool) r) :
    Always Unredirected (start pool) r ↔ EachStep KeepsKeys (start pool) r := by
  refine always_iff_eachStep (J := fun _ => True) (fun _ _ _ _ _ => trivial) ?_ trivial ?_ hr
  · intro s l t _ hs hst
    rw [unredirected_iff_fits]
    exact hst.fits_iff (unredirected_iff_fits.1 hs)
  · exact unredirected_iff_fits.2 (fits_start pool _)

/-- The turn of a request up to its key, and its first two steps. -/
def sampleTouched : Serving :=
  { (start keysAB).setTurn 0 (.touched (fingerprintPayload sampleDigest samplePayload) none) with
    convMap := (ConvMap.new.touch (fingerprintPayload sampleDigest samplePayload)).2 }

def sampleAcquired : Serving :=
  sampleTouched.given 0 (.acquired (fingerprintPayload sampleDigest samplePayload)) .away
    (sampleTouched.pool.acquire 0 (Option.map Remembered.index none))

theorem isRun_sample : IsRun sampleDigest (start keysAB)
    [(.touch 0 samplePayload, sampleTouched), (.acquire 0 0, sampleAcquired)] :=
  ⟨.touch samplePayload rfl rfl, .acquire 0 rfl, trivial⟩

/-- Key A is deleted while a request holds it; the request's mark then hits key B. -/
theorem mark_hits_next_key :
    ∃ r, IsRun sampleDigest (start keysAB) r ∧
      (final (start keysAB) r).turns 0 = .serving ⟨0, "sk-a", "A"⟩ ∧
      (final (start keysAB) r).pool.entries = [⟨"sk-b", "B", false, some 5, seconds 60⟩] ∧
      ¬ Always Unredirected (start keysAB) r := by
  have hr : IsRun sampleDigest (start keysAB)
      [(.touch 0 samplePayload, sampleTouched), (.acquire 0 0, sampleAcquired), (.track 0, _),
        (.rebuild [⟨"B", "sk-b", ""⟩], _), (.markUnhealthy 0 5 503, _)] :=
    ⟨isRun_sample.1, isRun_sample.2.1, .track rfl, .rebuild _, .markUnhealthy 5 503 rfl, trivial⟩
  refine ⟨_, hr, rfl, rfl, fun h => ?_⟩
  have hmarks := marksOwn_iff.1 (h.final.marks 0 ⟨0, "sk-a", "A"⟩ rfl) ("B", "sk-b") rfl
  exact absurd hmarks (by decide)

/-- The result on a run in which a key is added behind the others. -/
theorem unredirected_of_added :
    ∃ r, IsRun sampleDigest (start keysAB) r ∧ r.length = 3 ∧
      Always Unredirected (start keysAB) r := by
  have hr : IsRun sampleDigest (start keysAB)
      [(.touch 0 samplePayload, sampleTouched), (.acquire 0 0, sampleAcquired),
        (.rebuild [⟨"A", "sk-a", ""⟩, ⟨"B", "sk-b", ""⟩, ⟨"C", "sk-c", ""⟩], _)] :=
    ⟨isRun_sample.1, isRun_sample.2.1, .rebuild _, trivial⟩
  refine ⟨_, hr, rfl, (unredirected_iff hr).2 ⟨trivial, trivial, ⟨fun i => ?_, fun fp m hm => ?_⟩, trivial⟩⟩
  · refine forall_turns_update (forall_turns_update (fun _ => trivial) 0 trivial) 0 ?_ i
    rintro x ⟨⟩
    rfl
  · cases hm

end Serving

end Mybro
