import Mybro.Gate

/-!
# First come, first served (`gate.rs`)

A call of `acquire` that waits keeps its place: `served_in_order` says that nobody who comes after
it is admitted before it, whatever is acquired, resumed, cancelled, dropped or resized, and that it
is handed a permit by the time as many permits have become free as there were calls in front of it,
and one more.
-/

namespace Mybro
namespace GateState

open Runs Semaphore

/-- The permits that an event frees for the calls that wait. -/
def freed (s : GateState) : GateEvent → ℕ
  | .drop _ => 1
  | .cancel j => if j ∈ s.gate.sem.assigned then 1 else 0
  | .reconcile l => l.getD defaultConcurrencyLimit - s.gate.granted
  | _ => 0

/-- The permits that are freed in a run. -/
def freedIn : GateState → List (GateEvent × GateState) → ℕ
  | _, [] => 0
  | s, (e, t) :: r => s.freed e + freedIn t r

/-- The call `i` is not given up. -/
def Stays (i : ℕ) (_ : GateState) (e : GateEvent) : Prop := e ≠ .cancel i

/-- From `s` to `t` the call `i` has kept its place, while `n` permits went to calls in front of it:
who holds a guard in `t` held one in `s`, or had been handed a permit, or was in front of `i`. -/
structure InLine (s t : GateState) (i n : ℕ) : Prop where
  queue : MovesUp s.gate.sem t.gate.sem i n
  guards : ∀ j ∈ t.guards, j ∈ s.guards ∨ j ∈ s.gate.sem.assigned ∨ j ∈ s.gate.sem.ahead i

section

variable {s t u : GateState} {e : GateEvent} {i n : ℕ}

theorem InLine.refl (h : i ∈ s.gate.sem.waiters) : InLine s s i 0 :=
  ⟨.refl h, fun _ hj => Or.inl hj⟩

theorem InLine.trans {m : ℕ} (h : InLine s t i n) (h' : InLine t u i m) : InLine s u i (n + m) := by
  refine ⟨h.queue.trans h'.queue, fun j hj => ?_⟩
  rcases h'.guards j hj with hj | hj | hj
  · exact h.guards j hj
  · exact Or.inr (h.queue.handed j hj)
  · exact Or.inr (Or.inr (h.queue.ahead.subset hj))

/-- While a call waits, no permit is free. -/
theorem permits_of_waits (h : i ∈ s.gate.sem.waiters) : s.gate.sem.permits = 0 := by
  by_contra hp
  rw [s.gate.sem.fair (Nat.pos_of_ne_zero hp)] at h
  cases h

/-- A new call queues up behind the ones that wait, or is refused. -/
theorem inLine_afterAcquire (h : i ∈ s.gate.sem.waiters) (j : ℕ) :
    InLine s (s.afterAcquire j) i 0 := by
  have hp := permits_of_waits h
  rcases s.afterAcquire_cases j with ⟨-, sem, ht, -⟩ | ⟨-, -, heq⟩ | ⟨-, sem, hpos, -⟩ |
    ⟨-, sem, -, -, hw, ha, heq⟩
  · have hpos := (tryAcquire_eq_some ht).1
    omega
  · rw [heq]
    exact ⟨.of_waiters h ⟨[], (List.append_nil _).symm⟩ fun _ hk => hk, fun _ hk => Or.inl hk⟩
  · omega
  · rw [heq]
    refine ⟨.of_waiters h ⟨[j], hw⟩ fun k hk => ?_, fun _ hk => Or.inl hk⟩
    rwa [ha] at hk

/-- A resize frees the permits by which the limit grows. -/
theorem movesUp_reconcile (h : i ∈ s.gate.sem.waiters) (l : Option ℕ) :
    MovesUp s.gate.sem (s.gate.reconcile l).sem i (s.freed (.reconcile l)) ∨
      (i ∈ (s.gate.reconcile l).sem.assigned ∧
        (s.gate.sem.ahead i).length < s.freed (.reconcile l)) := by
  simp only [freed]
  rw [Gate.reconcile_eq]
  split_ifs with hgrow hshrink
  · exact movesUp_addPermits h _
  · obtain ⟨-, hw, ha⟩ := s.gate.sem.forgetFree_eq (s.gate.granted - l.getD defaultConcurrencyLimit)
    rw [Nat.sub_eq_zero_of_le (Nat.not_lt.1 hgrow)]
    refine Or.inl (.of_waiters h ⟨[], by rw [hw, List.append_nil]⟩ fun k hk => ?_)
    rwa [ha] at hk
  · rw [Nat.sub_eq_zero_of_le (Nat.not_lt.1 hgrow)]
    exact Or.inl (.refl h)

/-- **One step**: a call that waits and is not given up keeps its place, or is handed a permit. -/
theorem step_inLine (hi : i ∈ s.gate.sem.waiters) (hstay : Stays i s e) (h : s.step e = some t) :
    InLine s t i (s.freed e) ∨
      (i ∈ t.gate.sem.assigned ∧ (s.gate.sem.ahead i).length < s.freed e) := by
  rcases step_cases h with ⟨j, rfl, -, rfl⟩ | ⟨j, rfl, hj, rfl⟩ | ⟨j, rfl, -, rfl⟩ |
    ⟨j, rfl, -, rfl⟩ | ⟨l, rfl, rfl⟩
  · exact Or.inl (inLine_afterAcquire hi j)
  · refine Or.inl ⟨.of_waiters hi ⟨[], (List.append_nil _).symm⟩ fun k hk =>
      List.mem_of_mem_erase hk, fun k hk => ?_⟩
    rcases List.mem_cons.1 hk with rfl | hk
    · exact Or.inr (Or.inl hj)
    · exact Or.inl hk
  · have hij : j ≠ i := fun hji => hstay (by rw [hji])
    exact (movesUp_cancel hi hij).imp_left fun hup => ⟨hup, fun _ hk => Or.inl hk⟩
  · exact (movesUp_addPermits hi 1).imp_left fun hup =>
      ⟨hup, fun _ hk => Or.inl (List.mem_of_mem_erase hk)⟩
  · exact (movesUp_reconcile hi l).imp_left fun hup => ⟨hup, fun _ hk => Or.inl hk⟩

/-- A run from a state in which `i` has kept its place since `s₀`: it goes on to keep its place, to
the end or to the first step by which it is handed a permit. -/
theorem run_inLine {s₀ : GateState} {r : List (GateEvent × GateState)} (h : InLine s₀ s i n)
    (hr : IsRun s r) (hstay : EachStep (Stays i) s r) :
    ∃ r₁ r₂, r = r₁ ++ r₂ ∧ Always (fun t => ∃ m, InLine s₀ t i m) s r₁ ∧
      InLine s₀ (final s r₁) i (n + freedIn s r₁) ∧
      (r₂ = [] ∨ ∃ e t r₃, r₂ = (e, t) :: r₃ ∧ i ∈ t.gate.sem.assigned) := by
  induction r generalizing s n with
  | nil => exact ⟨[], [], rfl, ⟨n, h⟩, h, Or.inl rfl⟩
  | cons x r ih =>
    obtain ⟨e, t⟩ := x
    rcases step_inLine h.queue.waits hstay.1 hr.1 with hline | ⟨hhanded, -⟩
    · obtain ⟨r₁, r₂, rfl, halways, hrest, hend⟩ := ih (h.trans hline) hr.2 hstay.2
      refine ⟨(e, t) :: r₁, r₂, rfl, ⟨⟨n, h⟩, halways⟩, ?_, hend⟩
      rw [final_cons, freedIn, ← Nat.add_assoc]
      exact hrest
    · exact ⟨[], (e, t) :: r, rfl, ⟨n, h⟩, h, Or.inr ⟨e, t, r, rfl, hhanded⟩⟩

end

/-- **A waiting call is served in its turn.** In every run in which it is not given up it keeps its
place, to the end of the run or to the step by which it is handed a permit; and that step has come
when more permits have been freed than calls were in front of it. -/
theorem served_in_order {s : GateState} {i : ℕ} (hi : i ∈ s.gate.sem.waiters)
    {r : List (GateEvent × GateState)} (hr : IsRun s r) (hstay : EachStep (Stays i) s r) :
    ∃ r₁ r₂, r = r₁ ++ r₂ ∧ Always (fun t => ∃ n, InLine s t i n) s r₁ ∧
      freedIn s r₁ ≤ (s.gate.sem.ahead i).length ∧
      (r₂ = [] ∨ ∃ e t r₃, r₂ = (e, t) :: r₃ ∧ i ∈ t.gate.sem.assigned) := by
  obtain ⟨r₁, r₂, heq, halways, hline, hend⟩ := run_inLine (.refl hi) hr hstay
  have hpassed := hline.queue.passed
  exact ⟨r₁, r₂, heq, halways, by omega, hend⟩

/-- A gate with a limit of 1, with one call that has a guard and two that wait. -/
def busyGate : GateState :=
  final (start (some 1))
    ((along step (start (some 1)) [.acquire 0, .acquire 1, .acquire 2]).getD [])

/-- The second of two waiting calls gets its permit after two guards have been dropped. -/
theorem served_in_order_second :
    ∃ r, along step busyGate [.drop 0, .acquire 3, .resume 1, .drop 1] = some r ∧
      busyGate.gate.sem.ahead 2 = [1] ∧ freedIn busyGate r = 2 ∧
      ∃ r₁ r₂, r = r₁ ++ r₂ ∧ Always (fun t => ∃ n, InLine busyGate t 2 n) busyGate r₁ ∧
        freedIn busyGate r₁ ≤ 1 ∧
        (r₂ = [] ∨ ∃ e t r₃, r₂ = (e, t) :: r₃ ∧ 2 ∈ t.gate.sem.assigned) := by
  have hr : along step busyGate [.drop 0, .acquire 3, .resume 1, .drop 1] = some _ := rfl
  exact ⟨_, hr, rfl, rfl, served_in_order (i := 2) (List.mem_cons_of_mem 1 List.mem_cons_self)
    (isRun_along hr) ⟨nofun, nofun, nofun, nofun, trivial⟩⟩

end GateState
end Mybro
