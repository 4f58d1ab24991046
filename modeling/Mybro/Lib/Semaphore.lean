import Mathlib.Data.List.TakeWhile
import Mathlib.Tactic

/-!
# A first-in first-out counting semaphore

The state of an asynchronous counting semaphore whose waiters ask for one permit each:
`permits` are free, `waiters` are queued, oldest first, and `assigned` are the waiters that have
been handed a permit and have not run since. Released permits go to the oldest waiters first, so
a permit is free only when nobody is queued; the structure carries this as its field `fair`.

`issued` counts the permits the semaphore accounts for, free or handed over; each operation has a
lemma that says what it does to `issued`, and these are the ledger of every user of the
semaphore.
-/

/-- A counting semaphore with waiters named in `ι`. -/
structure Semaphore (ι : Type) where
  permits : ℕ
  waiters : List ι
  assigned : List ι
  fair : 0 < permits → waiters = []

namespace Semaphore

variable {ι : Type}

/-- A semaphore with `n` free permits. -/
def new (n : ℕ) : Semaphore ι := ⟨n, [], [], fun _ => rfl⟩

/-- Permits that are free or handed to a waiter that has not run yet. -/
def issued (s : Semaphore ι) : ℕ := s.permits + s.assigned.length

/-- Waiters that have not run again: queued, or handed a permit. -/
def suspended (s : Semaphore ι) : ℕ := s.waiters.length + s.assigned.length

/-- Take a free permit, if there is one, without waiting. -/
def tryAcquire (s : Semaphore ι) : Option (Semaphore ι) :=
  if 0 < s.permits then some { s with permits := s.permits - 1, fair := fun h => s.fair (by omega) }
  else none

/-- Join the queue. -/
def enqueue (s : Semaphore ι) (i : ι) (h : s.permits = 0) : Semaphore ι :=
  { s with waiters := s.waiters ++ [i], fair := fun h' => by omega }

/-- The first poll of a waiter: take a free permit, or join the queue. The flag says whether the
permit was taken. -/
def poll (s : Semaphore ι) (i : ι) : Semaphore ι × Bool :=
  if h : s.permits = 0 then (s.enqueue i h, false)
  else ({ s with permits := s.permits - 1, fair := fun _ => s.fair (by omega) }, true)

/-- Add `n` permits: the oldest waiters are handed one each, the rest become free. -/
def addPermits (s : Semaphore ι) (n : ℕ) : Semaphore ι where
  permits := s.permits + (n - s.waiters.length)
  waiters := s.waiters.drop n
  assigned := s.assigned ++ s.waiters.take n
  fair := fun h => by
    by_cases hp : 0 < s.permits
    · simp [s.fair hp]
    · exact List.drop_eq_nil_of_le (by omega)

/-- Drop one permit back into the semaphore. -/
def release (s : Semaphore ι) : Semaphore ι := s.addPermits 1

/-- Take up to `n` free permits and forget them, one attempt after the other. -/
def forgetFree (s : Semaphore ι) : ℕ → Semaphore ι
  | 0 => s
  | n + 1 =>
    match s.tryAcquire with
    | some s' => s'.forgetFree n
    | none => s.forgetFree n

section Named

variable [DecidableEq ι]

/-- The waiter `i`, which has been handed a permit, runs and takes it. -/
def resume (s : Semaphore ι) (i : ι) : Semaphore ι := { s with assigned := s.assigned.erase i }

/-- The waiter `i` goes away: a queued one leaves the queue, and one that has been handed a permit
gives it back. -/
def cancel (s : Semaphore ι) (i : ι) : Semaphore ι :=
  if i ∈ s.assigned then (s.resume i).release
  else { s with waiters := s.waiters.erase i, fair := fun h => by simp [s.fair h] }

end Named

/-! ### The ledger -/

theorem tryAcquire_eq_some {s s' : Semaphore ι} (h : s.tryAcquire = some s') :
    0 < s.permits ∧ s'.permits = s.permits - 1 ∧ s'.waiters = s.waiters ∧
      s'.assigned = s.assigned := by
  unfold tryAcquire at h
  split_ifs at h with hp
  cases h
  exact ⟨hp, rfl, rfl, rfl⟩

theorem tryAcquire_eq_none {s : Semaphore ι} : s.tryAcquire = none ↔ s.permits = 0 := by
  unfold tryAcquire
  split_ifs with hp
  · simp; omega
  · simp; omega

/-- What the first poll of a waiter does. -/
theorem poll_cases (s : Semaphore ι) (i : ι) :
    (∃ s', s.poll i = (s', true) ∧ 0 < s.permits ∧ s'.permits = s.permits - 1 ∧
      s'.waiters = s.waiters ∧ s'.assigned = s.assigned) ∨
    (∃ s', s.poll i = (s', false) ∧ s.permits = 0 ∧ s'.permits = 0 ∧
      s'.waiters = s.waiters ++ [i] ∧ s'.assigned = s.assigned) := by
  unfold poll
  split_ifs with hp
  · exact Or.inr ⟨s.enqueue i hp, rfl, hp, hp, rfl, rfl⟩
  · exact Or.inl ⟨_, rfl, by omega, rfl, rfl, rfl⟩

theorem issued_addPermits (s : Semaphore ι) (n : ℕ) : (s.addPermits n).issued = s.issued + n := by
  simp only [issued, addPermits, List.length_append, List.length_take]
  omega

theorem suspended_addPermits (s : Semaphore ι) (n : ℕ) :
    (s.addPermits n).suspended = s.suspended := by
  simp only [suspended, addPermits, List.length_append, List.length_take, List.length_drop]
  omega

@[simp] theorem issued_release (s : Semaphore ι) : s.release.issued = s.issued + 1 :=
  s.issued_addPermits 1

@[simp] theorem suspended_release (s : Semaphore ι) : s.release.suspended = s.suspended :=
  s.suspended_addPermits 1

/-- Forgetting takes the free permits there are, at most `n`, and touches no waiter. -/
theorem forgetFree_eq (s : Semaphore ι) (n : ℕ) :
    (s.forgetFree n).permits = s.permits - n ∧ (s.forgetFree n).waiters = s.waiters ∧
      (s.forgetFree n).assigned = s.assigned := by
  induction n generalizing s with
  | zero => exact ⟨rfl, rfl, rfl⟩
  | succ n ih =>
    simp only [forgetFree]
    cases h : s.tryAcquire with
    | some s' =>
      obtain ⟨hp, hp', hw, ha⟩ := tryAcquire_eq_some h
      obtain ⟨ih1, ih2, ih3⟩ := ih s'
      exact ⟨by simp only; omega, ih2.trans hw, ih3.trans ha⟩
    | none =>
      have hp := tryAcquire_eq_none.1 h
      obtain ⟨ih1, ih2, ih3⟩ := ih s
      exact ⟨by simp only; omega, ih2, ih3⟩

theorem issued_forgetFree (s : Semaphore ι) (n : ℕ) :
    (s.forgetFree n).issued = s.issued - min n s.permits := by
  obtain ⟨hp, -, ha⟩ := s.forgetFree_eq n
  simp only [issued, hp, ha]
  omega

theorem suspended_forgetFree (s : Semaphore ι) (n : ℕ) :
    (s.forgetFree n).suspended = s.suspended := by
  obtain ⟨-, hw, ha⟩ := s.forgetFree_eq n
  simp only [suspended, hw, ha]

section Named

variable [DecidableEq ι]

theorem issued_resume {s : Semaphore ι} {i : ι} (h : i ∈ s.assigned) :
    (s.resume i).issued + 1 = s.issued := by
  have := List.length_erase_of_mem h
  have := List.length_pos_of_mem h
  simp only [issued, resume]
  omega

theorem suspended_resume {s : Semaphore ι} {i : ι} (h : i ∈ s.assigned) :
    (s.resume i).suspended + 1 = s.suspended := by
  have := List.length_erase_of_mem h
  have := List.length_pos_of_mem h
  simp only [suspended, resume]
  omega

theorem issued_cancel (s : Semaphore ι) (i : ι) : (s.cancel i).issued = s.issued := by
  unfold cancel
  split_ifs with h
  · rw [issued_release, issued_resume h]
  · rfl

theorem suspended_cancel {s : Semaphore ι} {i : ι} (h : i ∈ s.waiters ∨ i ∈ s.assigned) :
    (s.cancel i).suspended + 1 = s.suspended := by
  unfold cancel
  split_ifs with ha
  · rw [suspended_release, suspended_resume ha]
  · have hw : i ∈ s.waiters := h.resolve_right ha
    have := List.length_erase_of_mem hw
    have := List.length_pos_of_mem hw
    simp only [suspended]
    omega

end Named

/-! ### Who waits -/

/-- The waiters that have not run again: queued, oldest first, and handed a permit. -/
def pending (s : Semaphore ι) : List ι := s.waiters ++ s.assigned

theorem mem_pending {s : Semaphore ι} {i : ι} : i ∈ s.pending ↔ i ∈ s.waiters ∨ i ∈ s.assigned :=
  List.mem_append

theorem pending_addPermits (s : Semaphore ι) (n : ℕ) :
    (s.addPermits n).pending.Perm s.pending := by
  unfold pending addPermits
  calc s.waiters.drop n ++ (s.assigned ++ s.waiters.take n)
      |>.Perm (s.assigned ++ s.waiters.take n ++ s.waiters.drop n) := List.perm_append_comm
    _ = s.assigned ++ s.waiters := by rw [List.append_assoc, List.take_append_drop]
    _ |>.Perm (s.waiters ++ s.assigned) := List.perm_append_comm

theorem pending_release (s : Semaphore ι) : s.release.pending.Perm s.pending :=
  s.pending_addPermits 1

section Named

variable [DecidableEq ι]

theorem pending_resume {s : Semaphore ι} {i : ι} (hs : s.pending.Nodup) (h : i ∈ s.assigned) :
    (s.resume i).pending = s.pending.erase i := by
  have hi : i ∉ s.waiters := fun hw => (List.nodup_append'.1 hs).2.2 hw h
  unfold pending resume
  rw [List.erase_append_right _ hi]

theorem pending_cancel {s : Semaphore ι} {i : ι} (hs : s.pending.Nodup) (h : i ∈ s.pending) :
    (s.cancel i).pending.Perm (s.pending.erase i) := by
  unfold cancel
  split_ifs with ha
  · rw [← pending_resume hs ha]
    exact (s.resume i).pending_release
  · have hw : i ∈ s.waiters := (mem_pending.1 h).resolve_right ha
    unfold pending
    rw [List.erase_append_left _ hw]

/-! ### First come, first served -/

/-- The waiters in front of `i`, oldest first. -/
def ahead (s : Semaphore ι) (i : ι) : List ι := s.waiters.takeWhile fun j => j ≠ i

theorem exists_waiters_eq {s : Semaphore ι} {i : ι} (h : i ∈ s.waiters) :
    ∃ rest, s.waiters = s.ahead i ++ i :: rest := by
  have hdrop : s.waiters.dropWhile (fun j => j ≠ i) ≠ [] := by
    intro hnil
    simpa using List.dropWhile_eq_nil_iff.1 hnil i h
  obtain ⟨j, rest, hrest⟩ := List.exists_cons_of_ne_nil hdrop
  have hj : j = i := by
    have hhead := List.head_dropWhile_not (fun j => decide (j ≠ i)) hdrop
    simp only [hrest, List.head_cons] at hhead
    simpa using hhead
  subst hj
  exact ⟨rest, by rw [ahead, ← hrest, List.takeWhile_append_dropWhile]⟩

theorem notMem_ahead (s : Semaphore ι) (i : ι) : i ∉ s.ahead i := by
  intro h
  simpa using List.mem_takeWhile_imp h

theorem ahead_eq {s : Semaphore ι} {i : ι} {a rest : List ι} (hw : s.waiters = a ++ i :: rest)
    (hi : i ∉ a) : s.ahead i = a := by
  have ha : ∀ j ∈ a, decide (j ≠ i) = true := fun j hj => by
    rw [decide_eq_true_eq]
    rintro rfl
    exact hi hj
  rw [ahead, hw, List.takeWhile_append_of_pos ha, List.takeWhile_cons_of_neg (by simp),
    List.append_nil]

/-- From `s` to `t` the waiter `i` stays in the queue, while `n` permits go to the waiters in front
of it: nobody gets in front of `i`, and only those in front of it are handed a permit. -/
structure MovesUp (s t : Semaphore ι) (i : ι) (n : ℕ) : Prop where
  waits : i ∈ t.waiters
  ahead : (t.ahead i).Sublist (s.ahead i)
  passed : (t.ahead i).length + n ≤ (s.ahead i).length
  handed : ∀ j ∈ t.assigned, j ∈ s.assigned ∨ j ∈ s.ahead i

section MovesUp

variable {s t u : Semaphore ι} {i j : ι} {n : ℕ}

theorem MovesUp.refl (h : i ∈ s.waiters) : MovesUp s s i 0 :=
  ⟨h, .refl _, le_rfl, fun _ hj => Or.inl hj⟩

theorem MovesUp.trans {m : ℕ} (h : MovesUp s t i n) (h' : MovesUp t u i m) :
    MovesUp s u i (n + m) := by
  refine ⟨h'.waits, h'.ahead.trans h.ahead, ?_, fun j hj => ?_⟩
  · have h1 := h.passed
    have h2 := h'.passed
    omega
  · rcases h'.handed j hj with hj | hj
    · exact h.handed j hj
    · exact Or.inr (h.ahead.subset hj)

/-- A change that leaves the queue in front of `i` alone. -/
theorem MovesUp.of_waiters (h : i ∈ s.waiters) (hw : ∃ l, t.waiters = s.waiters ++ l)
    (ha : ∀ j ∈ t.assigned, j ∈ s.assigned) : MovesUp s t i 0 := by
  obtain ⟨l, hl⟩ := hw
  obtain ⟨rest, hrest⟩ := exists_waiters_eq h
  have hwaiters : t.waiters = s.ahead i ++ i :: (rest ++ l) := by
    rw [hl, hrest]
    simp
  have hahead : t.ahead i = s.ahead i := ahead_eq hwaiters (s.notMem_ahead i)
  refine ⟨?_, by rw [hahead], by rw [hahead]; rfl, fun j hj => Or.inl (ha j hj)⟩
  rw [hl]
  exact List.mem_append_left l h

/-- Released permits go to those in front of `i`, or reach it. -/
theorem movesUp_addPermits (h : i ∈ s.waiters) (n : ℕ) :
    MovesUp s (s.addPermits n) i n ∨
      (i ∈ (s.addPermits n).assigned ∧ (s.ahead i).length < n) := by
  obtain ⟨rest, hrest⟩ := exists_waiters_eq h
  by_cases hn : n ≤ (s.ahead i).length
  · have hdrop : (s.addPermits n).waiters = (s.ahead i).drop n ++ i :: rest := by
      show s.waiters.drop n = _
      rw [hrest, List.drop_append_of_le_length hn]
    have hahead : (s.addPermits n).ahead i = (s.ahead i).drop n :=
      ahead_eq hdrop fun hi => s.notMem_ahead i (List.mem_of_mem_drop hi)
    refine Or.inl ⟨?_, ?_, ?_, fun j hj => ?_⟩
    · rw [hdrop]
      simp
    · rw [hahead]
      exact List.drop_sublist _ _
    · rw [hahead, List.length_drop]
      omega
    · have hj' : j ∈ s.assigned ++ s.waiters.take n := hj
      rw [hrest, List.take_append_of_le_length hn] at hj'
      exact (List.mem_append.1 hj').imp_right List.mem_of_mem_take
  · refine Or.inr ⟨?_, by omega⟩
    show i ∈ s.assigned ++ s.waiters.take n
    refine List.mem_append_right _ ?_
    rw [hrest, List.take_append, List.mem_append]
    refine Or.inr ?_
    obtain ⟨k, hk⟩ : ∃ k, n - (s.ahead i).length = k + 1 := ⟨n - (s.ahead i).length - 1, by omega⟩
    rw [hk, List.take_succ_cons]
    exact List.mem_cons_self

/-- When another waiter goes away, those behind it move up; a permit it gives back is released. -/
theorem movesUp_cancel (h : i ∈ s.waiters) (hij : j ≠ i) :
    MovesUp s (s.cancel j) i (if j ∈ s.assigned then 1 else 0) ∨
      (i ∈ (s.cancel j).assigned ∧ (s.ahead i).length < if j ∈ s.assigned then 1 else 0) := by
  unfold cancel
  split_ifs with hj
  · have hstay : MovesUp s (s.resume j) i 0 :=
      .of_waiters h ⟨[], by simp [resume]⟩ fun k hk => List.mem_of_mem_erase hk
    rcases movesUp_addPermits (s := s.resume j) h 1 with hup | hin
    · exact Or.inl (hstay.trans hup)
    · exact Or.inr hin
  · obtain ⟨rest, hrest⟩ := exists_waiters_eq h
    have herase : s.waiters.erase j = (s.ahead i).erase j ++ i :: rest.erase j ∨
        s.waiters.erase j = (s.ahead i).erase j ++ i :: rest := by
      by_cases hmem : j ∈ s.ahead i
      · exact Or.inr (by rw [hrest, List.erase_append_left _ hmem])
      · refine Or.inl ?_
        rw [hrest, List.erase_append_right _ hmem, List.erase_of_not_mem hmem,
          List.erase_cons_tail (by simpa using Ne.symm hij)]
    have hnot : i ∉ (s.ahead i).erase j := fun hi => s.notMem_ahead i (List.mem_of_mem_erase hi)
    obtain ⟨rest', hrest'⟩ : ∃ rest', s.waiters.erase j = (s.ahead i).erase j ++ i :: rest' :=
      herase.elim (fun h => ⟨_, h⟩) fun h => ⟨_, h⟩
    have hahead : ∀ fair, Semaphore.ahead (⟨s.permits, s.waiters.erase j, s.assigned, fair⟩) i =
        (s.ahead i).erase j := fun _ => ahead_eq hrest' hnot
    refine Or.inl ⟨?_, ?_, ?_, fun k hk => Or.inl hk⟩
    · show i ∈ s.waiters.erase j
      rw [hrest']
      simp
    · rw [hahead]
      exact List.erase_sublist
    · rw [hahead]
      exact List.erase_sublist.length_le

end MovesUp

end Named

end Semaphore
