import Mybro.GateRuns

/-!
# Below zero

The fast path of `acquire` for a full queue takes a call out of `queued` that it has not put in. As
long as nobody takes it with a permit, the counter is never decremented at zero
(`queue_never_wraps`). One call that does is enough: when the calls that wait have all run, the
counter has wrapped, and the gate refuses calls although nobody waits (`free_permit_wraps`).
-/

namespace Mybro
namespace GateState

open Runs

/-- What `fetch_sub` finds in `queued`, if the event comes to one. -/
def queuedFound (s : GateState) : GateEvent → Option UInt64
  | .acquire _ =>
    if s.gate.sem.permits = 0 then none
    else if maxQueueSize ≤ s.gate.queued then some s.gate.queued
    else some (s.gate.queued + 1)
  | .resume _ => some s.gate.queued
  | _ => none

/-- The event does not decrement the counter at zero. -/
def NoWrap (s : GateState) (e : GateEvent) : Prop := s.queuedFound e ≠ some 0

/-- Nobody waits, and yet the queue counts as full. -/
def Stuck (s : GateState) : Prop := s.gate.sem.suspended = 0 ∧ maxQueueSize ≤ s.gate.queued

/-- The event cancels no call. -/
def Uncancelled (_ : GateState) (e : GateEvent) : Prop := ∀ i, e ≠ .cancel i

section

variable {s t : GateState} {e : GateEvent}

/-- A balanced event finds the counter positive. -/
theorem noWrap_of_balanced (hs : QueueExact s) (h : s.step e = some t) (he : Balanced s e) :
    NoWrap s e := by
  intro hfound
  rcases step_cases h with ⟨i, rfl, -, rfl⟩ | ⟨i, rfl, hi, rfl⟩ | ⟨i, rfl, -, rfl⟩ |
    ⟨i, rfl, -, rfl⟩ | ⟨l, rfl, rfl⟩
  · simp only [queuedFound] at hfound
    split_ifs at hfound with hp hfull
    · -- a balanced call does not find the queue full and a permit free
      rcases he with hroom | hnone
      · exact absurd hfull (UInt64.not_le.2 hroom)
      · exact hp hnone
    · have hnat := congrArg UInt64.toNat (Option.some.inj hfound)
      rw [toNat_succ (UInt64.not_le.1 hfull)] at hnat
      exact absurd hnat (Nat.succ_ne_zero _)
  · have hzero : s.gate.queued = 0 := Option.some.inj hfound
    have hcount := hs.count
    have hpos := Semaphore.suspended_resume hi
    rw [hzero, UInt64.toNat_zero] at hcount
    omega
  · cases hfound
  · cases hfound
  · cases hfound

/-- Without a wrap and without a cancelled call, the counter never counts too many. -/
theorem step_queued_le (hs : s.gate.queued.toNat ≤ s.gate.sem.suspended) (h : s.step e = some t)
    (hwrap : NoWrap s e) (hcancel : Uncancelled s e) :
    t.gate.queued.toNat ≤ t.gate.sem.suspended := by
  rcases step_cases h with ⟨i, rfl, -, rfl⟩ | ⟨i, rfl, hi, rfl⟩ | ⟨i, rfl, -, rfl⟩ |
    ⟨i, rfl, -, rfl⟩ | ⟨l, rfl, rfl⟩
  · rcases s.afterAcquire_cases i with ⟨hfull, sem, ht, h⟩ | ⟨-, -, h⟩ |
      ⟨-, sem, -, -, hw, ha, h⟩ | ⟨hroom, sem, -, -, hw, ha, h⟩ <;> rw [h]
    · obtain ⟨-, -, hw, ha⟩ := Semaphore.tryAcquire_eq_some ht
      have hq : 256 ≤ s.gate.queued.toNat := UInt64.le_iff_toNat_le.1 hfull
      simp only [toNat_pred (by omega : 1 ≤ s.gate.queued.toNat), Semaphore.suspended, hw, ha]
        at hs ⊢
      omega
    · exact hs
    · simpa only [Gate.enter, Semaphore.suspended, hw, ha, UInt64.add_sub_cancel] using hs
    · simp only [Semaphore.suspended, hw, ha, toNat_succ hroom, List.length_append,
        List.length_singleton] at hs ⊢
      omega
  · have hsus := Semaphore.suspended_resume hi
    have hpos : 1 ≤ s.gate.queued.toNat := by
      by_contra hlt
      refine hwrap (congrArg some (UInt64.toNat_inj.1 ?_))
      rw [UInt64.toNat_zero]
      omega
    simp only [Gate.resume, Gate.enter, toNat_pred hpos]
    omega
  · exact absurd rfl (hcancel i)
  · simpa only [Gate.dropGuard, Semaphore.suspended_release] using hs
  · simpa only [Gate.queued_reconcile, Gate.suspended_reconcile] using hs

theorem not_stuck_of_le (h : s.gate.queued.toNat ≤ s.gate.sem.suspended) : ¬ s.Stuck := by
  rintro ⟨hidle, hfull⟩
  have hq : 256 ≤ s.gate.queued.toNat := UInt64.le_iff_toNat_le.1 hfull
  omega

end

/-- A run without a wrap and without a cancelled call never gets stuck. -/
theorem never_stuck {limit : Option ℕ} {r : List (GateEvent × GateState)}
    (hr : IsRun (start limit) r) (hwrap : EachStep NoWrap (start limit) r)
    (hcancel : EachStep Uncancelled (start limit) r) :
    Always (fun s => ¬ s.Stuck) (start limit) r := by
  have hall : Always (fun s => s.gate.queued.toNat ≤ s.gate.sem.suspended) (start limit) r :=
    always_of_step (C := fun s e => NoWrap s e ∧ Uncancelled s e)
      (fun s e t hs hC hst => step_queued_le hs hst hC.1 hC.2) le_rfl hr (hwrap.and hcancel)
  exact hall.mono fun s hs => not_stuck_of_le hs

/-- **The counter is never decremented at zero** in a run without a cancelled call in which no call
finds the queue counted full and a permit free; and the gate never gets stuck. -/
theorem queue_never_wraps (limit : Option ℕ) (r : List (GateEvent × GateState))
    (hr : IsRun (start limit) r) (hbalanced : EachStep Balanced (start limit) r) :
    EachStep NoWrap (start limit) r ∧ Always (fun s => ¬ s.Stuck) (start limit) r := by
  have hexact : QueueExact (start limit) := queueExact_iff.2 rfl
  have hkeep : ∀ s e t, QueueExact s → Balanced s e → ofFun step s e t → QueueExact t :=
    fun s e t hs he hst => (step_queueExact hs hst).2 he
  have hwrap : EachStep NoWrap (start limit) r :=
    eachStep_of_step hkeep (fun s e t hs he hst => noWrap_of_balanced hs hst he) hexact hr
      hbalanced
  refine ⟨hwrap, never_stuck hr hwrap (hbalanced.mono fun s e he i hi => ?_)⟩
  rw [hi] at he
  exact he

/-! ### A full queue that is let through at once -/

/-- A step that cancels nothing. -/
def UncancelledStep (s : GateState) (e : GateEvent) (t : GateState) : Prop :=
  s.step e = some t ∧ s.Uncancelled e

/-- `n` calls arrive while no permit is free and there is room in the queue. -/
theorem leads_waiting (n : ℕ) {s : GateState} {a : ℕ} (hp : s.gate.sem.permits = 0)
    (hroom : s.gate.queued.toNat + n ≤ 256)
    (hnew : ∀ j, j ∈ s.gate.sem.waiters ∨ j ∈ s.gate.sem.assigned ∨ j ∈ s.guards → j < a) :
    ∃ t, Leads UncancelledStep s t ∧ t.gate.sem.permits = 0 ∧
      t.gate.queued.toNat = s.gate.queued.toNat + n ∧
      t.gate.sem.waiters.length = s.gate.sem.waiters.length + n ∧
      t.gate.sem.assigned = s.gate.sem.assigned ∧ t.gate.granted = s.gate.granted ∧
      ∀ j, j ∈ t.gate.sem.waiters ∨ j ∈ t.gate.sem.assigned ∨ j ∈ t.guards → j < a + n := by
  induction n generalizing s a with
  | zero => exact ⟨s, .refl s, hp, rfl, rfl, rfl, rfl, hnew⟩
  | succ n ih =>
    have hfresh : s.Fresh a :=
      ⟨fun h => absurd (hnew a (Or.inl h)) (lt_irrefl a),
        fun h => absurd (hnew a (Or.inr (Or.inl h))) (lt_irrefl a),
        fun h => absurd (hnew a (Or.inr (Or.inr h))) (lt_irrefl a)⟩
    have hlt : s.gate.queued < maxQueueSize := by
      have h256 : s.gate.queued.toNat < 256 := by omega
      exact UInt64.lt_iff_toNat_lt.2 h256
    have hstep : s.step (.acquire a) = some (s.afterAcquire a) := if_pos hfresh
    rcases s.afterAcquire_cases a with ⟨hq, -⟩ | ⟨hq, -⟩ | ⟨-, sem, hpos, -⟩ |
      ⟨-, sem, -, hp', hw, ha, h⟩
    · exact absurd hlt (UInt64.not_lt.2 hq)
    · exact absurd hlt (UInt64.not_lt.2 hq)
    · omega
    · rw [h] at hstep
      obtain ⟨t, hleads, h1, h2, h3, h4, h5, h6⟩ := @ih
        { s with gate := { s.gate with sem := sem, queued := s.gate.queued + 1 } } (a + 1) hp'
        (by rw [toNat_succ hlt]; omega) (fun j hj => by
          simp only [hw, ha, List.mem_append, List.mem_singleton] at hj
          rcases hj with (hj | rfl) | hj
          · exact (hnew j (Or.inl hj)).trans (Nat.lt_succ_self a)
          · exact Nat.lt_succ_self j
          · exact (hnew j (Or.inr hj)).trans (Nat.lt_succ_self a))
      refine ⟨t, .head ⟨hstep, nofun⟩ hleads, h1, ?_, ?_, h4.trans ha, h5, fun j hj => ?_⟩
      · rw [h2, toNat_succ hlt]
        omega
      · rw [h3, hw, List.length_append, List.length_singleton]
        omega
      · have := h6 j hj
        omega

/-- All the calls that have been handed a permit run. -/
theorem leads_resumed (n : ℕ) {s : GateState} (hn : s.gate.sem.assigned.length = n) :
    ∃ t, Leads UncancelledStep s t ∧ t.gate.queued = s.gate.queued - UInt64.ofNat n ∧
      t.gate.sem.waiters = s.gate.sem.waiters ∧ t.gate.sem.assigned = [] := by
  induction n generalizing s with
  | zero => exact ⟨s, .refl s, by simp, rfl, List.length_eq_zero_iff.1 hn⟩
  | succ n ih =>
    obtain ⟨i, rest, hassigned⟩ := List.exists_cons_of_length_eq_add_one hn
    have hi : i ∈ s.gate.sem.assigned := by
      rw [hassigned]
      exact List.mem_cons_self
    have hstep : s.step (.resume i) =
        some { s with gate := s.gate.resume i, guards := i :: s.guards } := if_pos hi
    have hrest : (s.gate.resume i).sem.assigned = rest := by
      show s.gate.sem.assigned.erase i = rest
      rw [hassigned, List.erase_cons_head]
    obtain ⟨t, hleads, h1, h2, h3⟩ := @ih
      { s with gate := s.gate.resume i, guards := i :: s.guards } (by
        rw [hassigned, List.length_cons] at hn
        show (s.gate.resume i).sem.assigned.length = n
        rw [hrest]
        omega)
    refine ⟨t, .head ⟨hstep, nofun⟩ hleads, ?_, h2, h3⟩
    rw [h1]
    show s.gate.queued - 1 - UInt64.ofNat n = s.gate.queued - UInt64.ofNat (n + 1)
    rw [UInt64.ofNat_add, UInt64.ofNat_one]
    grind

/-- A gate with room for nobody and 256 calls in the queue. -/
theorem leads_full_queue : ∃ t, Leads UncancelledStep (start (some 1)) t ∧
    t.gate.sem.permits = 0 ∧ t.gate.queued = 256 ∧ t.gate.sem.waiters.length = 256 ∧
    t.gate.sem.assigned = [] ∧ t.gate.granted = 1 ∧
    ∀ j, j ∈ t.gate.sem.waiters ∨ j ∈ t.gate.sem.assigned ∨ j ∈ t.guards → j < 257 := by
  have hstep : (start (some 1)).step (.acquire 0) = some ((start (some 1)).afterAcquire 0) := rfl
  obtain ⟨t, hleads, h1, h2, h3, h4, h5, h6⟩ :=
    @leads_waiting 256 ((start (some 1)).afterAcquire 0) 1 rfl (by decide) (fun j hj => by
      rcases hj with hj | hj | hj
      · cases hj
      · cases hj
      · rw [List.mem_singleton.1 hj]
        exact Nat.one_pos)
  exact ⟨t, .head ⟨hstep, nofun⟩ hleads, h1, UInt64.toNat_inj.1 h2, h3, h4, h5, h6⟩

/-- 256 calls wait for the one permit; a resize hands every one of them a permit and leaves some
free; one more call takes a free permit on the queue-full path before the 256 have run. The last of
them decrements the counter at zero, and the gate is stuck. -/
theorem free_permit_wraps :
    ∃ r, IsRun (start (some 1)) r ∧ EachStep Uncancelled (start (some 1)) r ∧
      ¬ EachStep NoWrap (start (some 1)) r ∧ (final (start (some 1)) r).Stuck := by
  obtain ⟨s, hs, hp, hq, hw, ha, hg, hnames⟩ := leads_full_queue
  obtain ⟨u, hu, hsem, huq, hguards⟩ : ∃ u, s.step (.reconcile (some 300)) = some u ∧
      u.gate.sem = s.gate.sem.addPermits 299 ∧ u.gate.queued = 256 ∧ u.guards = s.guards := by
    have hgrow : s.gate.reconcile (some 300) =
        { s.gate with sem := s.gate.sem.addPermits 299, granted := 300 } := by
      rw [Gate.reconcile_eq, Option.getD_some, hg, if_pos (by norm_num)]
    refine ⟨_, rfl, ?_, ?_, rfl⟩
    · exact congrArg Gate.sem hgrow
    · exact (congrArg Gate.queued hgrow).trans hq
  -- every call that waited is handed a permit, and 43 are left
  have hwaiters : u.gate.sem.waiters = [] := by
    rw [hsem]
    exact List.drop_eq_nil_of_le (by omega)
  have hassigned : u.gate.sem.assigned = s.gate.sem.waiters := by
    rw [hsem]
    show s.gate.sem.assigned ++ s.gate.sem.waiters.take 299 = _
    rw [ha, List.nil_append, List.take_of_length_le (by omega)]
  have hpermits : 0 < u.gate.sem.permits := by
    rw [hsem]
    show 0 < s.gate.sem.permits + (299 - s.gate.sem.waiters.length)
    omega
  have hfresh : u.Fresh 257 := by
    refine ⟨fun h => ?_, fun h => ?_, fun h => ?_⟩
    · rw [hwaiters] at h
      cases h
    · rw [hassigned] at h
      exact absurd (hnames 257 (Or.inl h)) (lt_irrefl _)
    · rw [hguards] at h
      exact absurd (hnames 257 (Or.inr (Or.inr h))) (lt_irrefl _)
  have hv : u.step (.acquire 257) = some (u.afterAcquire 257) := if_pos hfresh
  -- the new call finds the counter at 256 and a permit free
  obtain ⟨hvq, hvw, hva⟩ : (u.afterAcquire 257).gate.queued = 255 ∧
      (u.afterAcquire 257).gate.sem.waiters = [] ∧
      (u.afterAcquire 257).gate.sem.assigned.length = 256 := by
    rcases u.afterAcquire_cases 257 with ⟨-, sem, ht, h⟩ | ⟨-, hnone, -⟩ | ⟨hlt, -⟩ | ⟨hlt, -⟩
    · obtain ⟨-, -, hsw, hsa⟩ := Semaphore.tryAcquire_eq_some ht
      rw [h]
      refine ⟨?_, hsw.trans hwaiters, ?_⟩
      · show u.gate.queued - 1 = 255
        rw [huq]
        rfl
      · show sem.assigned.length = 256
        rw [hsa, hassigned, hw]
    · omega
    · rw [huq] at hlt
      exact absurd hlt (by decide)
    · rw [huq] at hlt
      exact absurd hlt (by decide)
  obtain ⟨t, ht, htq, htw, hta⟩ := leads_resumed 256 hva
  obtain ⟨r, hr, rfl⟩ : Leads UncancelledStep (start (some 1)) t :=
    hs.trans (.head ⟨hu, nofun⟩ (.head ⟨hv, nofun⟩ ht))
  have hstuck : (final (start (some 1)) r).Stuck := by
    refine ⟨?_, ?_⟩
    · rw [Semaphore.suspended, htw, hvw, hta]
      rfl
    · rw [htq, hvq]
      decide
  obtain ⟨hrun, hcancel⟩ : IsRun _ r ∧ EachStep Uncancelled _ r := isRun_meeting hr
  exact ⟨r, hrun, hcancel, fun h => (never_stuck hrun h hcancel).final hstuck, hstuck⟩

/-- The theorem on a run in which a call waits and is resumed. -/
theorem queue_never_wraps_resumed :
    ∃ r, along step (start (some 1)) [.acquire 0, .acquire 1, .drop 0, .resume 1] = some r ∧
      EachStep NoWrap (start (some 1)) r := by
  have hr : along step (start (some 1)) [.acquire 0, .acquire 1, .drop 0, .resume 1] = some _ := rfl
  exact ⟨_, hr, (queue_never_wraps (some 1) _ (isRun_along hr)
    ⟨Or.inl (by decide), Or.inl (by decide), trivial, trivial, trivial⟩).1⟩

end GateState
end Mybro
