import Mybro.KeyAcquire
import Mybro.Lib.Runs

/-!
# Runs of the key pool (`keypool.rs`)

The pool under any sequence of calls, each at an instant.

* `shares_equal`: as long as the same entries are usable, the round-robin search serves each of them
  its share of times, rounded down or up;
* `cooldown_respected`: an entry that was marked unhealthy is not handed out before its cooldown is
  over, and is usable from then on.
-/

namespace Mybro

/-- A call on the pool. -/
inductive PoolCall
  | acquire (preferred : Option ℕ)
  | markUnhealthy (index status : ℕ)
  | markHealthy (index : ℕ)
  | rebuild (keys : List ConfigKey)

namespace KeyPool

/-- One call, at an instant. -/
def step (p : KeyPool) : ℕ × PoolCall → KeyPool
  | (now, .acquire preferred) => (p.acquire now preferred).2
  | (now, .markUnhealthy index status) => p.markUnhealthy now index status
  | (_, .markHealthy index) => p.markHealthy index
  | (_, .rebuild keys) => p.rebuild (keys.map KeyEntry.fromConfig)

/-- A run of the pool: the calls, with the pool after each. -/
abbrev IsRun (p : KeyPool) (r : List ((ℕ × PoolCall) × KeyPool)) : Prop :=
  Runs.IsRun (fun q l q' => q' = q.step l) p r

/-- The run that a list of calls makes. -/
def runFrom (p : KeyPool) : List (ℕ × PoolCall) → List ((ℕ × PoolCall) × KeyPool)
  | [] => []
  | l :: ls => (l, p.step l) :: runFrom (p.step l) ls

theorem isRun_runFrom (p : KeyPool) (ls : List (ℕ × PoolCall)) : p.IsRun (p.runFrom ls) := by
  induction ls generalizing p with
  | nil => trivial
  | cons l ls ih => exact ⟨rfl, ih (p.step l)⟩

/-- What a call hands out. -/
def answer (p : KeyPool) : ℕ × PoolCall → Option KeySlot
  | (now, .acquire preferred) => (p.acquire now preferred).1
  | _ => none

/-- Whether a call is an acquisition that the round-robin search serves: no entry is preferred, or
the preferred one is not usable. -/
def searches (p : KeyPool) : ℕ × PoolCall → Bool
  | (now, .acquire preferred) => !preferred.any (p.usableAt now)
  | _ => false

/-- What the searches of a run returned, in order. -/
def searched : KeyPool → List ((ℕ × PoolCall) × KeyPool) → List (Option ℕ)
  | _, [] => []
  | p, (l, q) :: r =>
    if p.searches l then (p.answer l).map KeySlot.index :: searched q r else searched q r

/-! ### Fairness -/

/-- The usable entries. -/
def usable (p : KeyPool) (now : ℕ) : Finset ℕ :=
  {idx ∈ Finset.range p.entries.length | p.usableAt now idx = true}

/-- The usable entries are those of `U` whenever an acquisition looks, and the pool is not
rebuilt. -/
def Steady (U : Finset ℕ) (p : KeyPool) : ℕ × PoolCall → Prop
  | (now, .acquire _) => p.usable now = U
  | (_, .rebuild _) => False
  | _ => True

variable {p q : KeyPool} {l : ℕ × PoolCall} {r : List ((ℕ × PoolCall) × KeyPool)} {U : Finset ℕ}

@[simp] theorem length_modifyEntry (p : KeyPool) (idx : ℕ) (f : KeyEntry → KeyEntry) :
    (p.modifyEntry idx f).entries.length = p.entries.length := List.length_modify _ _ _

theorem mem_usable {now idx : ℕ} : idx ∈ p.usable now ↔ p.usableAt now idx = true := by
  rw [usable, Finset.mem_filter, Finset.mem_range]
  exact ⟨fun h => h.2, fun h => ⟨lt_of_usableAt h, h⟩⟩

/-- Only the search moves the cursor. -/
theorem cursor_step (hl : Steady U p l) (h : p.searches l = false) :
    (p.step l).cursor = p.cursor := by
  obtain ⟨now, preferred | ⟨index, status⟩ | index | keys⟩ := l
  · cases preferred with
    | none => cases h
    | some idx =>
      have hu : p.usableAt now idx = true := by simpa [searches] using h
      simp only [step, acquire_preferred hu]
      rfl
  · rfl
  · rfl
  · exact hl.elim

/-- Without a rebuild the entries stay where they are. -/
theorem length_step (hl : Steady U p l) : (p.step l).entries.length = p.entries.length := by
  obtain ⟨now, preferred | ⟨index, status⟩ | index | keys⟩ := l
  · simp only [step]
    rcases p.acquire_cases now preferred with ⟨idx, cursor, -, -, h⟩ | ⟨-, h⟩
    · rw [h]
      exact p.length_modifyEntry idx _
    · rw [h]
  · exact p.length_modifyEntry index _
  · exact p.length_modifyEntry index _
  · exact hl.elim

/-- What a search does while some entry of `U` is usable: it returns the nearest one, and the cursor
moves just past it. -/
theorem search_step (hU : U.Nonempty) (hl : Steady U p l) (h : p.searches l = true) :
    (∀ i ∈ U, i < p.entries.length) ∧ ∃ idx ∈ U, (p.answer l).map KeySlot.index = some idx ∧
      (p.step l).cursor = (idx + 1) % p.entries.length ∧
      ∀ j ∈ U, Cyclic.steps p.entries.length p.cursor idx ≤
        Cyclic.steps p.entries.length p.cursor j := by
  obtain ⟨now, preferred | _ | _ | _⟩ := l
  · obtain rfl : p.usable now = U := hl
    have hlt : ∀ i ∈ p.usable now, i < p.entries.length := fun i hi =>
      lt_of_usableAt (mem_usable.1 hi)
    have hnot : ∀ idx, preferred = some idx → p.usableAt now idx = false := by
      rintro idx rfl
      simpa [searches] using h
    obtain ⟨u, hu⟩ := hU
    have hsome : (p.acquire now preferred).1.isSome = true :=
      isSome_acquire_iff.2 ⟨u, mem_usable.1 hu⟩
    obtain ⟨slot, hslot⟩ := Option.isSome_iff_exists.1 hsome
    rw [acquire_eq_acquireNext hnot] at hslot
    obtain ⟨hsearch, hcursor⟩ := acquireNext_eq_some hslot
    obtain ⟨-, husable, hnear⟩ := Cyclic.first_eq_some_iff.1 hsearch
    refine ⟨hlt, slot.index, mem_usable.2 husable, ?_, ?_, fun j hj =>
      hnear j (hlt j hj) (mem_usable.1 hj)⟩
    · simp only [answer, acquire_eq_acquireNext hnot, hslot, Option.map_some]
    · simp only [step, acquire_eq_acquireNext hnot, hcursor]
  all_goals cases h

/-- The counts stay balanced along a run. -/
theorem balanced_run {count : ℕ → ℕ} (hU : U.Nonempty) (hr : p.IsRun r)
    (hsteady : Runs.EachStep (Steady U) p r)
    (h : Cyclic.Balanced p.entries.length U p.cursor count) :
    ∃ n cursor, Cyclic.Balanced n U cursor fun i => count i + (searched p r).count (some i) := by
  induction r generalizing p count with
  | nil => exact ⟨_, _, h⟩
  | cons e r ih =>
    obtain ⟨l, q⟩ := e
    obtain ⟨rfl, hrest⟩ := hr
    obtain ⟨hl, hsteady⟩ := hsteady
    have hlen := length_step hl
    cases hsearch : p.searches l with
    | false =>
      rw [searched, if_neg (by simp [hsearch])]
      refine ih hrest hsteady ?_
      rw [hlen, cursor_step hl hsearch]
      exact h
    | true =>
      obtain ⟨hlt, idx, hidx, hans, hcursor, hnear⟩ := search_step hU hl hsearch
      have hnext := h.next hlt hidx hnear
      rw [← hcursor, ← hlen] at hnext
      obtain ⟨n, cursor, hb⟩ := ih hrest hsteady hnext
      refine ⟨n, cursor, ?_⟩
      rw [searched, if_pos hsearch, hans]
      convert hb using 2 with i
      by_cases hi : i = idx
      · subst hi
        rw [Function.update_self, List.count_cons_self]
        omega
      · rw [Function.update_of_ne hi, List.count_cons_of_ne (by simpa using Ne.symm hi)]

/-- Every search returns an entry of `U`. -/
theorem mem_searched (hU : U.Nonempty) (hr : p.IsRun r) (hsteady : Runs.EachStep (Steady U) p r) :
    ∀ x ∈ searched p r, ∃ i ∈ U, x = some i := by
  induction r generalizing p with
  | nil => simp [searched]
  | cons e r ih =>
    obtain ⟨l, q⟩ := e
    obtain ⟨rfl, hrest⟩ := hr
    obtain ⟨hl, hsteady⟩ := hsteady
    rw [searched]
    split_ifs with hsearch
    · obtain ⟨-, idx, hidx, hans, -⟩ := search_step hU hl hsearch
      rw [List.forall_mem_cons]
      exact ⟨⟨idx, hidx, hans⟩, ih hrest hsteady⟩
    · exact ih hrest hsteady

/-- The searches are counted by the entries they return. -/
theorem sum_count_searched {xs : List (Option ℕ)} (h : ∀ x ∈ xs, ∃ i ∈ U, x = some i) :
    ∑ i ∈ U, xs.count (some i) = xs.length := by
  induction xs with
  | nil => simp
  | cons x xs ih =>
    rw [List.forall_mem_cons] at h
    obtain ⟨⟨j, hj, rfl⟩, hxs⟩ := h
    simp only [List.count_cons, Option.some_beq_some, beq_iff_eq, Finset.sum_add_distrib, ih hxs,
      Finset.sum_ite_eq, if_pos hj, List.length_cons]

/-- **The search is fair**: while the usable entries are those of `U`, the `m` searches of a run
return each of them `⌊m / |U|⌋` or `⌈m / |U|⌉` times, whatever calls come between. -/
theorem shares_equal (p : KeyPool) (U : Finset ℕ) (hU : U.Nonempty)
    (r : List ((ℕ × PoolCall) × KeyPool)) (hr : p.IsRun r)
    (hsteady : Runs.EachStep (Steady U) p r) :
    ∀ i ∈ U, (searched p r).count (some i) = (searched p r).length / U.card ∨
      (searched p r).count (some i) = ((searched p r).length + U.card - 1) / U.card := by
  obtain ⟨n, cursor, hb⟩ := balanced_run hU hr hsteady (Cyclic.balanced_zero _ U _)
  simp only [zero_add] at hb
  exact hb.count_eq (sum_count_searched (mem_searched hU hr hsteady))

/-- A pool whose second entry has no key. -/
def trio : KeyPool :=
  .new [.fromConfig ⟨"A", "sk-a", ""⟩, .fromConfig ⟨"B", "", ""⟩, .fromConfig ⟨"C", "sk-c", ""⟩]

/-- Three searches among two usable entries, with a preferred entry and a mark in between: the
first entry is served twice, the last one once. -/
theorem shares_equal_trio :
    let r := trio.runFrom [(0, .acquire none), (1, .acquire (some 2)), (2, .markHealthy 0),
      (3, .acquire (some 1)), (4, .acquire none)]
    searched trio r = [some 0, some 2, some 0] ∧
      ∀ i ∈ ({0, 2} : Finset ℕ), (searched trio r).count (some i) = (searched trio r).length / 2 ∨
        (searched trio r).count (some i) = ((searched trio r).length + 2 - 1) / 2 := by
  refine ⟨by decide, shares_equal trio {0, 2} (by decide) _ (isRun_runFrom _ _)
    ⟨?_, ?_, trivial, ?_, ?_, trivial⟩⟩
  all_goals
    simp only [Steady]
    decide

/-! ### The cooldown -/

/-- The times of a run do not decrease, from an instant on. -/
def Timed (t : ℕ) (r : List ((ℕ × PoolCall) × KeyPool)) : Prop :=
  (t :: r.map fun e => e.1.1).Pairwise (· ≤ ·)

/-- A mark on the entry at `i`, or a rebuild. -/
def Resets (i : ℕ) : PoolCall → Prop
  | .acquire _ => False
  | .markUnhealthy index _ => index = i
  | .markHealthy index => index = i
  | .rebuild _ => True

/-- At `now`, the entry at `i` is cooling down since `t`, or it has been acquired at `t + c` or
later. -/
def Cooling (t c i now : ℕ) (e : KeyEntry) (p : KeyPool) : Prop :=
  ∃ e', p.entries[i]? = some e' ∧ e'.key = e.key ∧
    ((e'.healthy = false ∧ e'.lastError = some t ∧ e'.cooldown = c) ∨
      (e'.healthy = true ∧ t + c ≤ now))

variable {t c i now : ℕ} {e : KeyEntry}

theorem Cooling.mono {now' : ℕ} (h : Cooling t c i now e p) (hle : now ≤ now') :
    Cooling t c i now' e p := by
  obtain ⟨e', he, hkey, hcool | ⟨hhealthy, hpast⟩⟩ := h
  · exact ⟨e', he, hkey, Or.inl hcool⟩
  · exact ⟨e', he, hkey, Or.inr ⟨hhealthy, hpast.trans hle⟩⟩

/-- The entry is not usable before its cooldown is over. -/
theorem Cooling.not_before (h : Cooling t c i now e p) (hu : p.usableAt now i = true) (hc : 0 < c) :
    t + c ≤ now := by
  obtain ⟨e', he, -, ⟨hhealthy, herror, hcooldown⟩ | ⟨-, hpast⟩⟩ := h
  · obtain ⟨e'', he'', husable⟩ := usableAt_iff.1 hu
    obtain rfl : e' = e'' := Option.some.inj (he.symm.trans he'')
    simp only [KeyEntry.isUsable, KeyEntry.isPastCooldown, hhealthy, herror, hcooldown,
      Bool.false_or, Bool.and_eq_true, decide_eq_true_eq] at husable
    omega
  · exact hpast

/-- The entry is usable from then on, if it has a key. -/
theorem Cooling.usable_after (h : Cooling t c i now e p) (hkey : e.key ≠ "") {now' : ℕ}
    (hle : t + c ≤ now') : p.usableAt now' i = true := by
  obtain ⟨e', he, hkey', hcool⟩ := h
  rw [usableAt_iff]
  refine ⟨e', he, ?_⟩
  rw [← hkey'] at hkey
  rcases hcool with ⟨-, herror, hcooldown⟩ | ⟨hhealthy, -⟩
  · simp only [KeyEntry.isUsable, KeyEntry.isPastCooldown, herror, hcooldown, hkey, ne_eq,
      not_false_eq_true, decide_true, Bool.true_and, Bool.or_eq_true, decide_eq_true_eq]
    omega
  · simp [KeyEntry.isUsable, hhealthy, hkey]

/-- A call that changes some other entry. -/
theorem Cooling.modifyEntry {idx : ℕ} {f : KeyEntry → KeyEntry} (h : Cooling t c i now e p)
    (hne : idx ≠ i) : Cooling t c i now e (p.modifyEntry idx f) := by
  obtain ⟨e', he, hcool⟩ := h
  exact ⟨e', by simp [KeyPool.modifyEntry, hne, he], hcool⟩

/-- Every call keeps it that way, but for the marks on the entry itself and a rebuild. -/
theorem Cooling.step (h : Cooling t c i l.1 e p) (hl : ¬ Resets i l.2) (hc : 0 < c) :
    Cooling t c i l.1 e (p.step l) := by
  obtain ⟨now, preferred | ⟨index, status⟩ | index | keys⟩ := l
  · simp only [KeyPool.step]
    rcases p.acquire_cases now preferred with ⟨idx, cursor, hu, -, hacq⟩ | ⟨-, hacq⟩
    · rw [hacq]
      by_cases hidx : idx = i
      · -- the entry itself is acquired, so its cooldown is over
        subst hidx
        have hpast := h.not_before hu hc
        obtain ⟨e', he, hkey, -⟩ := h
        exact ⟨e'.markHealthy, by simp [KeyPool.modifyEntry, he], hkey, Or.inr ⟨rfl, hpast⟩⟩
      · exact h.modifyEntry hidx
    · rw [hacq]
      exact h
  · exact h.modifyEntry hl
  · exact h.modifyEntry hl
  · exact absurd trivial hl

theorem cooldownForStatus_pos (status : ℕ) : 0 < cooldownForStatus status := by
  unfold cooldownForStatus seconds
  split_ifs <;> norm_num

/-- An entry just marked unhealthy is cooling down. -/
theorem cooling_markUnhealthy {status : ℕ} (he : p.entries[i]? = some e) :
    Cooling t (cooldownForStatus status) i t e (p.markUnhealthy t i status) :=
  ⟨e.markUnhealthy t (cooldownForStatus status), by simp [markUnhealthy, modifyEntry, he], rfl,
    Or.inl ⟨rfl, rfl, rfl⟩⟩

/-- An entry that is cooling down, along a run. -/
theorem Cooling.run (h : Cooling t c i now e p) (hc : 0 < c) (hr : p.IsRun r) (htimed : Timed now r)
    (hleft : ∀ x ∈ r, ¬ Resets i x.1.2) :
    Runs.EachStep (fun q l => ∀ slot, q.answer l = some slot → slot.index = i → t + c ≤ l.1) p r ∧
      Runs.Always (fun q => ∃ now, Cooling t c i now e q) p r := by
  induction r generalizing p now with
  | nil => exact ⟨trivial, now, h⟩
  | cons x r ih =>
    obtain ⟨l, q⟩ := x
    obtain ⟨rfl, hrest⟩ := hr
    rw [Timed, List.map_cons, List.pairwise_cons] at htimed
    rw [List.forall_mem_cons] at hleft
    have hnow : Cooling t c i l.1 e p := h.mono (htimed.1 l.1 List.mem_cons_self)
    obtain ⟨hsteps, halways⟩ := ih (hnow.step hleft.1 hc) hrest htimed.2 hleft.2
    refine ⟨⟨?_, hsteps⟩, ⟨now, h⟩, halways⟩
    intro slot hslot hidx
    obtain ⟨at', preferred | _ | _ | _⟩ := l
    · obtain ⟨idx, cursor, hu, hans, -⟩ | ⟨-, hnone⟩ := p.acquire_cases at' preferred
      · rw [answer, hans] at hslot
        obtain rfl : slot.index = idx := (slotAt_eq_some hslot).1
        exact hnow.not_before (hidx ▸ hu) hc
      · rw [answer, hnone] at hslot
        cases hslot
    all_goals cases hslot

/-- **A cooldown is respected**: after `mark_unhealthy` at `t` no acquisition returns the entry
before its cooldown is over, and an entry with a key is usable from then on, whatever calls come in
between, as long as none marks the entry again or rebuilds the pool. -/
theorem cooldown_respected (p : KeyPool) (t i status : ℕ) (e : KeyEntry)
    (he : p.entries[i]? = some e) (r : List ((ℕ × PoolCall) × KeyPool))
    (hr : (p.markUnhealthy t i status).IsRun r) (htimed : Timed t r)
    (hleft : ∀ x ∈ r, ¬ Resets i x.1.2) :
    Runs.EachStep (fun q l => ∀ slot, q.answer l = some slot → slot.index = i →
        t + cooldownForStatus status ≤ l.1) (p.markUnhealthy t i status) r ∧
      Runs.Always (fun q => e.key ≠ "" → ∀ now, t + cooldownForStatus status ≤ now →
        q.usableAt now i = true) (p.markUnhealthy t i status) r := by
  obtain ⟨hsteps, halways⟩ :=
    (cooling_markUnhealthy he).run (cooldownForStatus_pos status) hr htimed hleft
  exact ⟨hsteps, halways.mono fun q ⟨_, hcool⟩ hkey now hle => hcool.usable_after hkey hle⟩

/-- Marked unhealthy with 502, the first entry is skipped until its 30 seconds are over. -/
theorem cooldown_respected_trio :
    let p := trio.markUnhealthy 5 0 502
    let r := p.runFrom [(6, .acquire (some 0)), (7, .markHealthy 2),
      (5 + seconds 30, .acquire (some 0))]
    Runs.EachStep (fun q l => ∀ slot, q.answer l = some slot → slot.index = 0 →
        5 + seconds 30 ≤ l.1) p r ∧
      Runs.Always (fun q => "sk-a" ≠ "" → ∀ now, 5 + seconds 30 ≤ now →
        q.usableAt now 0 = true) p r :=
  cooldown_respected trio 5 0 502 (.fromConfig ⟨"A", "sk-a", ""⟩) rfl _ (isRun_runFrom _ _)
    (by unfold Timed; decide) (by simp [runFrom, Resets])

end KeyPool
end Mybro
