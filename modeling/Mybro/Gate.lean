import Mybro.Constants
import Mybro.Lib.Runs
import Mybro.Lib.Semaphore

/-!
# The gate (`gate.rs`)

`Gate` is the semaphore with its counters. The two atomic counters `active` and `queued` are
machine words and wrap, as `fetch_add` and `fetch_sub` do. The calls of `acquire` are named by
numbers; an `acquire` that has to wait is suspended at its await, in the semaphore's queue or
already handed a permit, until it is resumed or cancelled.

`GateState` is the gate together with the guards that are alive and with two ghost fields about
the limits so far; `GateState.step` is one event of a run of the gate.
-/

namespace Mybro

/-- The gate's semaphore and counters. -/
structure Gate where
  sem : Semaphore ℕ
  granted : ℕ
  active : UInt64
  queued : UInt64
  throttled : UInt64

/-- How a poll of `acquire` ends: with a guard, with the queue-full error, or suspended. -/
inductive Admission
  | admitted
  | queueFull
  | pending
  deriving DecidableEq

namespace Gate

/-- `Gate::new`. -/
def new (limit : Option ℕ) : Gate :=
  let initial := limit.getD defaultConcurrencyLimit
  { sem := Semaphore.new initial
    granted := initial
    active := 0
    queued := 0
    throttled := 0 }

/-- The end of `acquire`, once it has its permit. -/
def enter (g : Gate) : Gate := { g with queued := g.queued - 1, active := g.active + 1 }

/-- The first poll of the call `i` of `acquire`. -/
def acquire (g : Gate) (i : ℕ) : Gate × Admission :=
  if maxQueueSize ≤ g.queued then
    -- a permit may still be free: then the queue counter is decremented all the same
    match g.sem.tryAcquire with
    | some sem =>
      ({ g with sem := sem, queued := g.queued - 1, active := g.active + 1 }, .admitted)
    | none => ({ g with throttled := g.throttled + 1 }, .queueFull)
  else
    let g := { g with queued := g.queued + 1 }
    match g.sem.poll i with
    | (sem, true) => (enter { g with sem := sem }, .admitted)
    | (sem, false) => ({ g with sem := sem }, .pending)

/-- The poll of the suspended call `i` after it was handed a permit. -/
def resume (g : Gate) (i : ℕ) : Gate := enter { g with sem := g.sem.resume i }

/-- The future of the suspended call `i` is dropped: the semaphore forgets it, nothing else does. -/
def cancel (g : Gate) (i : ℕ) : Gate := { g with sem := g.sem.cancel i }

/-- The drop of an `ActiveGuard`, with the permit it owns. -/
def dropGuard (g : Gate) : Gate := { g with active := g.active - 1, sem := g.sem.release }

/-- `Gate::bump_throttled`. -/
def bumpThrottled (g : Gate) : Gate := { g with throttled := g.throttled + 1 }

/-- `Gate::reconcile`. -/
def reconcile (g : Gate) (newLimit : Option ℕ) : Gate :=
  let new := newLimit.getD defaultConcurrencyLimit
  if g.granted < new then
    { g with sem := g.sem.addPermits (new - g.granted), granted := new }
  else if new < g.granted then
    { g with sem := g.sem.forgetFree (g.granted - new), granted := new }
  else g

theorem reconcile_eq (g : Gate) (l : Option ℕ) :
    g.reconcile l =
      if g.granted < l.getD defaultConcurrencyLimit then
        { g with
          sem := g.sem.addPermits (l.getD defaultConcurrencyLimit - g.granted)
          granted := l.getD defaultConcurrencyLimit }
      else if l.getD defaultConcurrencyLimit < g.granted then
        { g with
          sem := g.sem.forgetFree (g.granted - l.getD defaultConcurrencyLimit)
          granted := l.getD defaultConcurrencyLimit }
      else g := rfl

/-- After `reconcile` the granted limit is the new one, whatever the semaphore could do. -/
@[simp] theorem granted_reconcile (g : Gate) (l : Option ℕ) :
    (g.reconcile l).granted = l.getD defaultConcurrencyLimit := by
  rw [reconcile_eq]
  split_ifs with h1 h2
  · rfl
  · rfl
  · omega

@[simp] theorem queued_reconcile (g : Gate) (l : Option ℕ) :
    (g.reconcile l).queued = g.queued := by
  rw [reconcile_eq]
  split_ifs <;> rfl

/-- A resize neither adds nor removes a suspended call. -/
theorem suspended_reconcile (g : Gate) (l : Option ℕ) :
    (g.reconcile l).sem.suspended = g.sem.suspended := by
  rw [reconcile_eq]
  split_ifs
  · exact g.sem.suspended_addPermits _
  · exact g.sem.suspended_forgetFree _
  · rfl

/-- **The first poll of `acquire`**, in its four cases: the queue-full path with and without a free
permit, and the ordinary path with and without one. -/
theorem acquire_cases (g : Gate) (i : ℕ) :
    (maxQueueSize ≤ g.queued ∧ ∃ sem, g.sem.tryAcquire = some sem ∧ g.acquire i =
      ({ g with sem := sem, queued := g.queued - 1, active := g.active + 1 }, .admitted)) ∨
    (maxQueueSize ≤ g.queued ∧ g.sem.permits = 0 ∧
      g.acquire i = ({ g with throttled := g.throttled + 1 }, .queueFull)) ∨
    (g.queued < maxQueueSize ∧ ∃ sem, 0 < g.sem.permits ∧ sem.permits = g.sem.permits - 1 ∧
      sem.waiters = g.sem.waiters ∧ sem.assigned = g.sem.assigned ∧
      g.acquire i = (enter { g with sem := sem, queued := g.queued + 1 }, .admitted)) ∨
    (g.queued < maxQueueSize ∧ ∃ sem, g.sem.permits = 0 ∧ sem.permits = 0 ∧
      sem.waiters = g.sem.waiters ++ [i] ∧ sem.assigned = g.sem.assigned ∧
      g.acquire i = ({ g with sem := sem, queued := g.queued + 1 }, .pending)) := by
  unfold acquire
  split_ifs with hq
  · cases ht : g.sem.tryAcquire with
    | some sem => exact Or.inl ⟨hq, sem, rfl, rfl⟩
    | none => exact Or.inr (Or.inl ⟨hq, Semaphore.tryAcquire_eq_none.1 ht, rfl⟩)
  · have hlt : g.queued < maxQueueSize := UInt64.not_le.1 hq
    rcases g.sem.poll_cases i with ⟨sem, hp, h⟩ | ⟨sem, hp, h⟩
    · exact Or.inr (Or.inr (Or.inl ⟨hlt, sem, h.1, h.2.1, h.2.2.1, h.2.2.2, by simp [hp]⟩))
    · exact Or.inr (Or.inr (Or.inr ⟨hlt, sem, h.1, h.2.1, h.2.2.1, h.2.2.2, by simp [hp]⟩))

end Gate

/-! ### Runs of a gate -/

/-- A gate in use: the calls that hold a guard, the limit of the last resize, and the largest limit
that has been in force. -/
structure GateState where
  gate : Gate
  guards : List ℕ
  limit : ℕ
  peak : ℕ

/-- One event of a run. A permit is handed to a waiter by the event that frees it. -/
inductive GateEvent
  | acquire (i : ℕ)
  | resume (i : ℕ)
  | cancel (i : ℕ)
  | drop (i : ℕ)
  | reconcile (newLimit : Option ℕ)
  deriving DecidableEq

namespace GateState

/-- A new gate. -/
def start (limit : Option ℕ) : GateState :=
  let initial := limit.getD defaultConcurrencyLimit
  ⟨Gate.new limit, [], initial, initial⟩

/-- Whether the number `i` names no call that is suspended or holds a guard. -/
def Fresh (s : GateState) (i : ℕ) : Prop :=
  i ∉ s.gate.sem.waiters ∧ i ∉ s.gate.sem.assigned ∧ i ∉ s.guards

instance (s : GateState) (i : ℕ) : Decidable (s.Fresh i) := by unfold Fresh; infer_instance

/-- The state after the first poll of the call `i`. -/
def afterAcquire (s : GateState) (i : ℕ) : GateState :=
  match s.gate.acquire i with
  | (g, .admitted) => { s with gate := g, guards := i :: s.guards }
  | (g, _) => { s with gate := g }

/-- One event; `none` when the event cannot happen in this state. -/
def step (s : GateState) : GateEvent → Option GateState
  | .acquire i => if s.Fresh i then some (s.afterAcquire i) else none
  | .resume i =>
    if i ∈ s.gate.sem.assigned then
      some { s with gate := s.gate.resume i, guards := i :: s.guards }
    else none
  | .cancel i =>
    if i ∈ s.gate.sem.waiters ∨ i ∈ s.gate.sem.assigned then
      some { s with gate := s.gate.cancel i }
    else none
  | .drop i =>
    if i ∈ s.guards then some { s with gate := s.gate.dropGuard, guards := s.guards.erase i }
    else none
  | .reconcile l =>
    let new := l.getD defaultConcurrencyLimit
    some { s with gate := s.gate.reconcile l, limit := new, peak := max s.peak new }

/-- A run of the gate. -/
abbrev IsRun (s : GateState) (r : List (GateEvent × GateState)) : Prop :=
  Runs.IsRun (Runs.ofFun step) s r

/-- What the first poll of a call can do to the state. -/
theorem afterAcquire_cases (s : GateState) (i : ℕ) :
    (maxQueueSize ≤ s.gate.queued ∧ ∃ sem, s.gate.sem.tryAcquire = some sem ∧
      s.afterAcquire i = { s with
        gate := { s.gate with sem := sem, queued := s.gate.queued - 1, active := s.gate.active + 1 }
        guards := i :: s.guards }) ∨
    (maxQueueSize ≤ s.gate.queued ∧ s.gate.sem.permits = 0 ∧
      s.afterAcquire i = { s with gate := { s.gate with throttled := s.gate.throttled + 1 } }) ∨
    (s.gate.queued < maxQueueSize ∧ ∃ sem, 0 < s.gate.sem.permits ∧
      sem.permits = s.gate.sem.permits - 1 ∧ sem.waiters = s.gate.sem.waiters ∧
      sem.assigned = s.gate.sem.assigned ∧ s.afterAcquire i = { s with
        gate := Gate.enter { s.gate with sem := sem, queued := s.gate.queued + 1 }
        guards := i :: s.guards }) ∨
    (s.gate.queued < maxQueueSize ∧ ∃ sem, s.gate.sem.permits = 0 ∧ sem.permits = 0 ∧
      sem.waiters = s.gate.sem.waiters ++ [i] ∧ sem.assigned = s.gate.sem.assigned ∧
      s.afterAcquire i = { s with
        gate := { s.gate with sem := sem, queued := s.gate.queued + 1 } }) := by
  unfold afterAcquire
  rcases s.gate.acquire_cases i with ⟨hq, sem, ht, h⟩ | ⟨hq, hp, h⟩ | ⟨hq, sem, h1, h2, h3, h4, h⟩ |
    ⟨hq, sem, h1, h2, h3, h4, h⟩ <;> rw [h]
  · exact Or.inl ⟨hq, sem, ht, rfl⟩
  · exact Or.inr (Or.inl ⟨hq, hp, rfl⟩)
  · exact Or.inr (Or.inr (Or.inl ⟨hq, sem, h1, h2, h3, h4, rfl⟩))
  · exact Or.inr (Or.inr (Or.inr ⟨hq, sem, h1, h2, h3, h4, rfl⟩))

/-- **What a step does**, one case for each event. -/
theorem step_cases {s t : GateState} {e : GateEvent} (h : s.step e = some t) :
    (∃ i, e = .acquire i ∧ s.Fresh i ∧ t = s.afterAcquire i) ∨
    (∃ i, e = .resume i ∧ i ∈ s.gate.sem.assigned ∧
      t = { s with gate := s.gate.resume i, guards := i :: s.guards }) ∨
    (∃ i, e = .cancel i ∧ (i ∈ s.gate.sem.waiters ∨ i ∈ s.gate.sem.assigned) ∧
      t = { s with gate := s.gate.cancel i }) ∨
    (∃ i, e = .drop i ∧ i ∈ s.guards ∧
      t = { s with gate := s.gate.dropGuard, guards := s.guards.erase i }) ∨
    (∃ l, e = .reconcile l ∧ t = { s with
      gate := s.gate.reconcile l
      limit := l.getD defaultConcurrencyLimit
      peak := max s.peak (l.getD defaultConcurrencyLimit) }) := by
  cases e with
  | acquire i =>
    simp only [step] at h
    split_ifs at h with hf
    exact Or.inl ⟨i, rfl, hf, (Option.some.inj h).symm⟩
  | resume i =>
    simp only [step] at h
    split_ifs at h with hi
    exact Or.inr (Or.inl ⟨i, rfl, hi, (Option.some.inj h).symm⟩)
  | cancel i =>
    simp only [step] at h
    split_ifs at h with hi
    exact Or.inr (Or.inr (Or.inl ⟨i, rfl, hi, (Option.some.inj h).symm⟩))
  | drop i =>
    simp only [step] at h
    split_ifs at h with hi
    exact Or.inr (Or.inr (Or.inr (Or.inl ⟨i, rfl, hi, (Option.some.inj h).symm⟩)))
  | reconcile l =>
    exact Or.inr (Or.inr (Or.inr (Or.inr ⟨l, rfl, (Option.some.inj h).symm⟩)))

end GateState

end Mybro
