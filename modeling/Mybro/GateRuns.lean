import Mybro.Gate

/-!
# What holds in every run of the gate

Two counts are followed along runs of `GateState.step`.

* The permit ledger: `issued`, the permits that are free, handed over or owned by a guard, against
  `granted`. Every event but a resize keeps both; a shrink forgets only the permits that happen to
  be free and overwrites `granted` all the same, so the excess `issued - granted` never falls, and
  it stays zero exactly in the runs whose shrinks find enough free permits (`ShrinkFits`).
* The queue counter against the calls that are suspended. It is exact exactly in the runs without
  a cancelled `acquire` and without an admission on the queue-full path (`Balanced`).
-/

namespace Mybro
namespace GateState

open Runs

/-! ### The permit ledger -/

/-- The permits that the semaphore and the live guards account for. -/
def issued (s : GateState) : ℕ := s.gate.sem.issued + s.guards.length

/-- No guard is alive and no `acquire` is in progress. -/
def Quiescent (s : GateState) : Prop := s.guards = [] ∧ s.gate.sem.suspended = 0

/-- What a resize is for: `granted` is the limit last asked for, an idle gate has that many free
permits, and no more guards are alive than the largest limit so far. -/
structure LimitsKept (s : GateState) : Prop where
  granted_eq : s.gate.granted = s.limit
  idle : s.Quiescent → s.gate.sem.permits = s.gate.granted
  bounded : s.guards.length ≤ s.peak

/-- A resize that lowers the limit finds the permits to forget free. -/
def ShrinkFits (s : GateState) : GateEvent → Prop
  | .reconcile l => s.gate.granted - l.getD defaultConcurrencyLimit ≤ s.gate.sem.permits
  | _ => True

/-- The invariant of the ledger, drifted or not. -/
structure LedgerInv (s : GateState) : Prop where
  granted_eq : s.gate.granted = s.limit
  le_peak : s.gate.granted ≤ s.peak
  le_issued : s.gate.granted ≤ s.issued

theorem ledgerInv_start (limit : Option ℕ) : LedgerInv (start limit) :=
  ⟨rfl, le_rfl, le_rfl⟩

theorem issued_start (limit : Option ℕ) : (start limit).issued = (start limit).gate.granted := rfl

/-- The first poll of `acquire` moves permits between the semaphore and the guards only. -/
theorem issued_afterAcquire (s : GateState) (i : ℕ) :
    (s.afterAcquire i).issued = s.issued ∧
      (s.afterAcquire i).gate.granted = s.gate.granted ∧
      (s.afterAcquire i).limit = s.limit ∧ (s.afterAcquire i).peak = s.peak := by
  rcases s.afterAcquire_cases i with ⟨-, sem, ht, h⟩ | ⟨-, -, h⟩ | ⟨-, sem, hp, hp', -, ha, h⟩ |
    ⟨-, sem, hp, hp', -, ha, h⟩ <;> rw [h]
  · obtain ⟨hp, hp', -, ha⟩ := Semaphore.tryAcquire_eq_some ht
    refine ⟨?_, rfl, rfl, rfl⟩
    simp only [issued, Semaphore.issued, hp', ha, List.length_cons]
    omega
  · exact ⟨rfl, rfl, rfl, rfl⟩
  · refine ⟨?_, rfl, rfl, rfl⟩
    simp only [issued, Gate.enter, Semaphore.issued, hp', ha, List.length_cons]
    omega
  · refine ⟨?_, rfl, rfl, rfl⟩
    simp only [issued, Semaphore.issued, hp, hp', ha]

/-- Every event but a resize keeps the ledger. -/
theorem step_ledger {s t : GateState} {e : GateEvent} (h : s.step e = some t) :
    (t.issued = s.issued ∧ t.gate.granted = s.gate.granted ∧ t.limit = s.limit ∧
      t.peak = s.peak ∧ ∀ l, e ≠ .reconcile l) ∨
    ∃ l, e = .reconcile l ∧ t.guards = s.guards ∧ t.gate = s.gate.reconcile l ∧
      t.limit = l.getD defaultConcurrencyLimit ∧
      t.peak = max s.peak (l.getD defaultConcurrencyLimit) := by
  rcases step_cases h with ⟨i, rfl, -, rfl⟩ | ⟨i, rfl, hi, rfl⟩ | ⟨i, rfl, -, rfl⟩ |
    ⟨i, rfl, hi, rfl⟩ | ⟨l, rfl, rfl⟩
  · obtain ⟨h1, h2, h3, h4⟩ := s.issued_afterAcquire i
    exact Or.inl ⟨h1, h2, h3, h4, fun _ => nofun⟩
  · have hres := Semaphore.issued_resume hi
    refine Or.inl ⟨?_, rfl, rfl, rfl, fun _ => nofun⟩
    simp only [issued, Gate.resume, Gate.enter, List.length_cons]
    omega
  · refine Or.inl ⟨?_, rfl, rfl, rfl, fun _ => nofun⟩
    simp only [issued, Gate.cancel, Semaphore.issued_cancel]
  · have hlen := List.length_erase_of_mem hi
    have hpos := List.length_pos_of_mem hi
    refine Or.inl ⟨?_, rfl, rfl, rfl, fun _ => nofun⟩
    simp only [issued, Gate.dropGuard, Semaphore.issued_release]
    omega
  · exact Or.inr ⟨l, rfl, rfl, rfl, rfl, rfl⟩

/-- The permits issued change only by a resize. -/
theorem issued_of_step {s t : GateState} {e : GateEvent} (h : s.step e = some t)
    (hne : ∀ l, e ≠ .reconcile l) : t.issued = s.issued := by
  rcases step_ledger h with ⟨hissued, -⟩ | ⟨l, hl, -⟩
  · exact hissued
  · exact absurd hl (hne l)

/-- What a resize does to the permits the semaphore accounts for. -/
theorem issued_reconcile (g : Gate) (l : Option ℕ) :
    (g.reconcile l).sem.issued = g.sem.issued + (l.getD defaultConcurrencyLimit - g.granted) -
      min (g.granted - l.getD defaultConcurrencyLimit) g.sem.permits := by
  rw [Gate.reconcile_eq]
  split_ifs with h1 h2
  · simp only [Semaphore.issued_addPermits]
    omega
  · simp only [Semaphore.issued_forgetFree]
    omega
  · omega

/-- The excess of the ledger never falls, and a step keeps it exactly when it is no shrink that
misses a permit. -/
theorem step_excess {s t : GateState} {e : GateEvent} (hs : LedgerInv s)
    (h : s.step e = some t) :
    LedgerInv t ∧ s.issued - s.gate.granted ≤ t.issued - t.gate.granted ∧
      (t.issued - t.gate.granted = s.issued - s.gate.granted ↔ ShrinkFits s e) := by
  obtain ⟨hlim, hpeak, hiss⟩ := hs
  rcases step_ledger h with ⟨h1, h2, h3, h4, hne⟩ | ⟨l, rfl, hg, hgate, h3, h4⟩
  · refine ⟨⟨by omega, by omega, by omega⟩, by omega, ?_⟩
    have hfit : ShrinkFits s e := by
      cases e with
      | reconcile l => exact absurd rfl (hne l)
      | _ => trivial
    simp only [h1, h2, hfit]
  · have hi := issued_reconcile s.gate l
    have hgr : t.gate.granted = l.getD defaultConcurrencyLimit := by rw [hgate]; simp
    have hissued : t.issued = (s.gate.reconcile l).sem.issued + s.guards.length := by
      simp only [issued, hg, hgate]
    have hle : s.gate.sem.permits ≤ s.gate.sem.issued := Nat.le_add_right _ _
    simp only [issued] at hiss ⊢ hissued
    refine ⟨⟨by omega, by omega, by simp only [issued]; omega⟩, by omega, ?_⟩
    simp only [ShrinkFits]
    omega

/-- In a quiescent state the free permits are all the permits issued. -/
theorem permits_eq_issued {s : GateState} (h : s.Quiescent) : s.gate.sem.permits = s.issued := by
  obtain ⟨hg, hsus⟩ := h
  simp only [issued, Semaphore.issued, Semaphore.suspended, hg, List.length_nil] at hsus ⊢
  omega

/-- An exact ledger gives what resizing is for. -/
theorem limitsKept_of_ledger {s : GateState} (h : LedgerInv s)
    (he : s.issued - s.gate.granted = 0) : LimitsKept s := by
  obtain ⟨hlim, hpeak, hiss⟩ := h
  have heq : s.issued = s.gate.granted := by omega
  refine ⟨hlim, fun hq => (permits_eq_issued hq).trans heq, ?_⟩
  simp only [issued] at heq
  omega

/-- **Resizing keeps its promise exactly when every shrink finds its permits free.** In every run
whose shrinks do, all states keep the limits; and a run that ends idle has as many free permits as
`granted` only if all its shrinks did. -/
theorem limitsKept_iff_shrinkFits (limit : Option ℕ) (r : List (GateEvent × GateState))
    (hr : IsRun (start limit) r) :
    (EachStep ShrinkFits (start limit) r → Always LimitsKept (start limit) r) ∧
      ((final (start limit) r).Quiescent →
        ((final (start limit) r).gate.sem.permits = (final (start limit) r).gate.granted ↔
          EachStep ShrinkFits (start limit) r)) := by
  constructor
  · intro hC
    have hall : Always (fun s => LedgerInv s ∧ s.issued - s.gate.granted = 0) (start limit) r := by
      refine always_of_step (fun s e t hs hfit hst => ?_)
        ⟨ledgerInv_start limit, by simp [issued_start]⟩ hr hC
      obtain ⟨hinv, -, hiff⟩ := step_excess hs.1 hst
      exact ⟨hinv, (hiff.2 hfit).trans hs.2⟩
    exact hall.mono fun s hs => limitsKept_of_ledger hs.1 hs.2
  · intro hq
    have hall : Always LedgerInv (start limit) r :=
      always_of_inv (P := LedgerInv) (fun s e t hs hst => (step_excess hs hst).1)
        (ledgerInv_start limit) hr
    have hinv : LedgerInv (final (start limit) r) := hall.final
    have hm : (final (start limit) r).issued - (final (start limit) r).gate.granted =
        (start limit).issued - (start limit).gate.granted ↔ EachStep ShrinkFits (start limit) r := by
      refine (measure_final_iff_eachStep (J := LedgerInv)
        (m := fun s : GateState => s.issued - s.gate.granted) ?_ ?_ (ledgerInv_start limit) hr).2
      · exact fun s e t hs hst => (step_excess hs hst).1
      · exact fun s e t hs hst => (step_excess hs hst).2
    have hstart : (start limit).issued - (start limit).gate.granted = 0 := by simp [issued_start]
    rw [← hm, hstart, permits_eq_issued hq]
    have := hinv.le_issued
    omega

/-- A shrink under load, positive limits throughout: two guards are alive when the limit goes from
2 to 1, so no permit is forgotten, and the idle gate ends with two free permits. -/
theorem shrink_under_load_drifts :
    ∃ r, along step (start (some 2))
        [.acquire 0, .acquire 1, .reconcile (some 1), .drop 0, .drop 1] = some r ∧
      IsRun (start (some 2)) r ∧ ¬ Always LimitsKept (start (some 2)) r := by
  have hr : along step (start (some 2))
      [.acquire 0, .acquire 1, .reconcile (some 1), .drop 0, .drop 1] = some _ := rfl
  refine ⟨_, hr, isRun_along hr, fun h => ?_⟩
  exact absurd (h.final.idle ⟨rfl, rfl⟩) (by decide)

/-- The ledger theorem on a run that shrinks a gate whose permits are free. -/
theorem limitsKept_iff_shrinkFits_idle :
    ∃ r, along step (start (some 4)) [.acquire 0, .reconcile (some 2), .drop 0] = some r ∧
      Always LimitsKept (start (some 4)) r := by
  have hr : along step (start (some 4)) [.acquire 0, .reconcile (some 2), .drop 0] = some _ := rfl
  exact ⟨_, hr, (limitsKept_iff_shrinkFits (some 4) _ (isRun_along hr)).1
    ⟨trivial, by simp only [ShrinkFits]; decide, trivial, trivial⟩⟩

/-! ### The queue counter -/

/-- What `queued` is for: it counts the suspended calls, a call is refused only while the queue is
full, and nothing is left in it when no call is suspended. -/
structure QueueExact (s : GateState) : Prop where
  count : s.gate.queued.toNat = s.gate.sem.suspended
  refused : ∀ i, (s.gate.acquire i).2 = .queueFull → maxQueueSize.toNat ≤ s.gate.sem.suspended
  idle : s.gate.sem.suspended = 0 → s.gate.queued = 0

/-- The event does not cancel a suspended call, and is no call that finds the queue counter full
and a permit free. -/
def Balanced (s : GateState) : GateEvent → Prop
  | .cancel _ => False
  | .acquire _ => s.gate.queued < maxQueueSize ∨ s.gate.sem.permits = 0
  | _ => True

theorem queueExact_iff {s : GateState} :
    QueueExact s ↔ s.gate.queued.toNat = s.gate.sem.suspended := by
  refine ⟨fun h => h.count, fun h => ⟨h, fun i hi => ?_, fun h0 => ?_⟩⟩
  · rcases s.gate.acquire_cases i with ⟨-, sem, -, ha⟩ | ⟨hq, -, -⟩ | ⟨-, sem, -, -, -, -, ha⟩ |
      ⟨-, sem, -, -, -, -, ha⟩
    · rw [ha] at hi; cases hi
    · rw [← h]; exact UInt64.le_iff_toNat_le.1 hq
    · rw [ha] at hi; cases hi
    · rw [ha] at hi; cases hi
  · exact UInt64.toNat_inj.1 (by rw [h, h0]; rfl)

theorem toNat_pred {q : UInt64} (h : 1 ≤ q.toNat) : (q - 1).toNat = q.toNat - 1 :=
  UInt64.toNat_sub_of_le q 1 (UInt64.le_iff_toNat_le.2 h)

theorem toNat_succ {q : UInt64} (h : q < maxQueueSize) : (q + 1).toNat = q.toNat + 1 := by
  have h256 : q.toNat < 256 := UInt64.lt_iff_toNat_lt.1 h
  rw [UInt64.toNat_add, UInt64.toNat_one]
  omega

/-- The counter moves with the suspended calls exactly on the balanced events. -/
theorem step_queueExact {s t : GateState} {e : GateEvent} (hs : QueueExact s)
    (h : s.step e = some t) : QueueExact t ↔ Balanced s e := by
  have hcount := hs.count
  rw [queueExact_iff]
  rcases step_cases h with ⟨i, rfl, -, rfl⟩ | ⟨i, rfl, hi, rfl⟩ | ⟨i, rfl, hi, rfl⟩ |
    ⟨i, rfl, hi, rfl⟩ | ⟨l, rfl, rfl⟩
  · simp only [Balanced]
    rcases s.afterAcquire_cases i with ⟨hq, sem, ht, h⟩ | ⟨hq, hp, h⟩ |
      ⟨hq, sem, hp, hp', hw, ha, h⟩ | ⟨hq, sem, hp, hp', hw, ha, h⟩ <;> rw [h]
    · -- the queue-full path admits: the counter loses a call that is still suspended
      obtain ⟨hp, -, hw, ha⟩ := Semaphore.tryAcquire_eq_some ht
      have hq' : 256 ≤ s.gate.queued.toNat := UInt64.le_iff_toNat_le.1 hq
      have hnot : ¬ (s.gate.queued < maxQueueSize) := UInt64.not_lt.2 hq
      simp only [toNat_pred (by omega : 1 ≤ s.gate.queued.toNat), Semaphore.suspended, hw, ha,
        hnot, false_or] at hcount ⊢
      omega
    · simpa only [hp, or_true, iff_true] using hcount
    · simp only [Gate.enter, hq, true_or, iff_true, Semaphore.suspended, hw, ha,
        UInt64.add_sub_cancel] at hcount ⊢
      exact hcount
    · simp only [hq, true_or, iff_true, Semaphore.suspended, hw, ha, toNat_succ hq,
        List.length_append, List.length_singleton] at hcount ⊢
      omega
  · have hsus := Semaphore.suspended_resume hi
    simp only [Gate.resume, Gate.enter, Balanced, iff_true]
    rw [toNat_pred (by omega)]
    omega
  · -- nothing takes the cancelled call out of the counter
    have hsus := Semaphore.suspended_cancel hi
    simp only [Gate.cancel, Balanced, iff_false]
    omega
  · simpa only [Gate.dropGuard, Balanced, iff_true, Semaphore.suspended_release] using hcount
  · simpa only [Balanced, iff_true, Gate.queued_reconcile, Gate.suspended_reconcile] using hcount

/-- **The queue counter is exact throughout a run exactly when every event of the run is
balanced.** -/
theorem queueExact_iff_balanced (limit : Option ℕ) (r : List (GateEvent × GateState))
    (hr : IsRun (start limit) r) :
    Always QueueExact (start limit) r ↔ EachStep Balanced (start limit) r :=
  always_iff_eachStep (J := fun _ => True) (fun _ _ _ _ _ => trivial)
    (fun _ _ _ _ hs hst => step_queueExact hs hst) trivial (queueExact_iff.2 rfl) hr

/-- A waiting call whose client goes away is never taken out of the counter. -/
theorem cancelled_waiter_leaks :
    ∃ r, along step (start (some 1)) [.acquire 0, .acquire 1, .cancel 1, .drop 0] = some r ∧
      IsRun (start (some 1)) r ∧ ¬ Always QueueExact (start (some 1)) r := by
  have hr : along step (start (some 1)) [.acquire 0, .acquire 1, .cancel 1, .drop 0] = some _ := rfl
  refine ⟨_, hr, isRun_along hr, fun h => ?_⟩
  exact absurd (h.final.idle rfl) (by decide)

/-- The counter theorem on a run with a waiter that is resumed. -/
theorem queueExact_iff_balanced_resumed :
    ∃ r, along step (start (some 1)) [.acquire 0, .acquire 1, .drop 0, .resume 1] = some r ∧
      Always QueueExact (start (some 1)) r := by
  have hr : along step (start (some 1)) [.acquire 0, .acquire 1, .drop 0, .resume 1] = some _ := rfl
  exact ⟨_, hr, (queueExact_iff_balanced (some 1) _ (isRun_along hr)).2
    ⟨Or.inl (by decide), Or.inl (by decide), trivial, trivial, trivial⟩⟩

end GateState
end Mybro
