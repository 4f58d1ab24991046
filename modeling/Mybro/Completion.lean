import Mybro.Lib.Progress
import Mybro.System

/-!
# Every request comes to an end

Requests behind a gate whose limit is positive and stays fixed, as in `System`. Once no more requests
arrive and no more chunks come, the proxy cannot go on for ever, and it does not get stuck: as long
as upstream answers, every handler gets the permit it waits for, every response is sent to its end,
and the gate is idle again (`requests_complete`). The one other way to stop is a handler that panics.

The measure is the program that is left of each handler, with one bit for the first poll of
`acquire`; the lack of deadlocks comes from the permits, which are either free, on their way to a
request that asks, or held by a handler that has something else to do than to ask.
-/

namespace Mybro

open Prog Runs

/-! ### One request -/

namespace Phase

/-- What comes after a phase, chunks apart. -/
inductive Follows : Phase → Phase → Prop
  | answered {e : Eff} {k : Answer e → Handler Response} (r : Answer e) :
      Follows (.running (k r)) (.running (.vis e k))
  | streams (p : Pipe) (resp : Response) : Follows (.streaming p) (.running (.ret resp))
  | ended (e : Ending) (p : Handler Response) : Follows (.finished e) (.running p)
  | streamEnded (e : Ending) (p : Pipe) : Follows (.finished e) (.streaming p)

theorem wellFounded_follows : WellFounded Follows := by
  have hfinished : ∀ e, Acc Follows (.finished e) := fun e => ⟨_, fun _ h => nomatch h⟩
  have hstreaming : ∀ p, Acc Follows (.streaming p) := by
    refine fun p => ⟨_, fun _ h => ?_⟩
    cases h with
    | streamEnded e => exact hfinished e
  refine ⟨fun phase => ?_⟩
  cases phase with
  | running p =>
    -- the program of the handler is a tree without infinite branches
    induction p with
    | ret resp =>
      refine ⟨_, fun _ h => ?_⟩
      cases h with
      | streams p => exact hstreaming p
      | ended e => exact hfinished e
    | vis e k ih =>
      refine ⟨_, fun _ h => ?_⟩
      cases h with
      | answered r => exact ih r
      | ended e => exact hfinished e
  | streaming p => exact hstreaming p
  | finished e => exact hfinished e

end Phase

namespace Task

/-- The event is no chunk of a stream. -/
def NoChunk : TaskEvent → Prop
  | .chunk _ _ => False
  | _ => True

theorem Step.follows {env : Env} {t t' : Task} {ev : TaskEvent} (h : Step env t ev t')
    (hev : NoChunk ev) : Phase.Follows t'.phase t.phase := by
  cases h with
  | answer r running => exact running ▸ .answered r
  | respond running body => exact running ▸ .ended _ _
  | respondStream running body => exact running ▸ .streams _ _
  | chunk bytes now streaming => exact hev.elim
  | endOfStream now streaming => exact streaming ▸ .streamEnded _ _
  | streamFails streaming => exact streaming ▸ .streamEnded _ _
  | leave running suspended => exact running ▸ .ended _ _
  | leaveStream streaming => exact streaming ▸ .streamEnded _ _

/-- The handler asks the gate. -/
def Asks (t : Task) : Prop := ∃ k, t.phase = .running (.vis .gateAcquire k)

/-- The handler has panicked. -/
def Panicked (t : Task) : Prop := ∃ site k, t.phase = .running (.vis (.abort site) k)

/-- The response is over. -/
def IsOver (t : Task) : Prop := ∃ e, t.phase = .finished e

/-- A step of a request that asks is the answer of the gate, or its client goes away. -/
theorem Step.of_asks {env : Env} {t t' : Task} {ev : TaskEvent} (h : Step env t ev t')
    (ht : t.Asks) : (∃ r, ev = .answer .gateAcquire r) ∨ ev = .disconnect := by
  obtain ⟨k, hk⟩ := ht
  cases h with
  | answer r running =>
    rw [hk] at running
    cases running
    exact Or.inl ⟨r, rfl⟩
  | leave running suspended => exact Or.inr rfl
  | leaveStream streaming => exact Or.inr rfl
  | respond running body => rw [hk] at running; cases running
  | respondStream running body => rw [hk] at running; cases running
  | chunk bytes now streaming => rw [hk] at streaming; cases streaming
  | endOfStream now streaming => rw [hk] at streaming; cases streaming
  | streamFails streaming => rw [hk] at streaming; cases streaming

end Task

/-- Every effect but a panic can be answered. -/
theorem nonempty_answer {e : Eff} (he : ∀ site, e ≠ .abort site) : Nonempty (Answer e) := by
  cases e with
  | config => exact ⟨({} : Config)⟩
  | catalog => exact ⟨(none : Option Catalog)⟩
  | keypoolTotal => exact ⟨(0 : ℕ)⟩
  | acquireKey preferred => exact ⟨(none : Option KeySlot)⟩
  | gateAcquire => exact ⟨true⟩
  | touch fp => exact ⟨(none : Option TouchResult)⟩
  | track fp tokenIndex => exact ⟨(⟨0, 0, none, false⟩ : TouchResult)⟩
  | analyzeImages dataUris key cfg => exact ⟨List.Vector.replicate dataUris.length ""⟩
  | send call => exact ⟨(.error "" : Except String Reply)⟩
  | readBody => exact ⟨(none : Option (List UInt8))⟩
  | instant => exact ⟨(0 : ℕ)⟩
  | unixMillis => exact ⟨(0 : UInt64)⟩
  | localTime => exact ⟨""⟩
  | abort site => exact absurd rfl (he site)
  | _ => exact ⟨()⟩

/-! ### Who waits at the gate -/

namespace GateState

theorem fresh_iff (g : GateState) (i : ℕ) :
    g.Fresh i ↔ i ∉ g.gate.sem.pending ∧ i ∉ g.guards := by
  unfold Fresh
  rw [Semaphore.mem_pending, not_or, and_assoc]

theorem pending_released (g : GateState) (i : ℕ) :
    (g.released i).gate.sem.pending.Perm g.gate.sem.pending := by
  unfold released
  split_ifs
  · exact g.gate.sem.pending_release
  · exact .refl _

/-- The first poll of a call changes who waits only when it has to wait itself. -/
theorem pending_afterAcquire (g : GateState) (i : ℕ) :
    ((g.gate.acquire i).2 ≠ .pending ∧ (g.afterAcquire i).gate.sem.pending = g.gate.sem.pending) ∨
      ((g.gate.acquire i).2 = .pending ∧ (g.afterAcquire i).guards = g.guards ∧
        (g.afterAcquire i).gate.sem.pending.Perm (i :: g.gate.sem.pending)) := by
  unfold afterAcquire
  rcases g.gate.acquire_cases i with ⟨-, sem, ht, h⟩ | ⟨-, -, h⟩ | ⟨-, sem, -, -, hw, ha, h⟩ |
    ⟨-, sem, -, -, hw, ha, h⟩ <;> rw [h]
  · obtain ⟨-, -, hw, ha⟩ := Semaphore.tryAcquire_eq_some ht
    exact Or.inl ⟨nofun, by simp only [Semaphore.pending, hw, ha]⟩
  · exact Or.inl ⟨nofun, rfl⟩
  · exact Or.inl ⟨nofun, by simp only [Gate.enter, Semaphore.pending, hw, ha]⟩
  · refine Or.inr ⟨rfl, rfl, ?_⟩
    simp only [Semaphore.pending, hw, ha, List.append_assoc, List.singleton_append]
    exact List.perm_middle

end GateState

/-- What a step of the request `i` does to those who wait: `i` does not wait afterwards, and the
others are as before. -/
theorem gateMove_pending {env : Env} {i : ℕ} {g g' : GateState} {t t' : Task} {ev : TaskEvent}
    (hst : Task.Step env t ev t') (h : GateMove i g t.phase ev g') (hg : g.gate.sem.pending.Nodup)
    (hask : i ∈ g.gate.sem.pending → t.Asks) :
    g'.gate.sem.pending.Nodup ∧ i ∉ g'.gate.sem.pending ∧
      ∀ j, j ≠ i → (j ∈ g'.gate.sem.pending ↔ j ∈ g.gate.sem.pending) := by
  -- who does not wait before, and whose step keeps the others
  have hkeep : i ∉ g.gate.sem.pending → g'.gate.sem.pending.Perm g.gate.sem.pending →
      g'.gate.sem.pending.Nodup ∧ i ∉ g'.gate.sem.pending ∧
        ∀ j, j ≠ i → (j ∈ g'.gate.sem.pending ↔ j ∈ g.gate.sem.pending) :=
    fun hi hperm => ⟨hperm.nodup_iff.2 hg, fun hi' => hi (hperm.mem_iff.1 hi'),
      fun j _ => hperm.mem_iff⟩
  have hleave : g'.gate.sem.pending.Perm (g.gate.sem.pending.erase i) →
      g'.gate.sem.pending.Nodup ∧ i ∉ g'.gate.sem.pending ∧
        ∀ j, j ≠ i → (j ∈ g'.gate.sem.pending ↔ j ∈ g.gate.sem.pending) :=
    fun hperm => ⟨hperm.nodup_iff.2 (hg.erase i), fun hi' => hg.not_mem_erase (hperm.mem_iff.1 hi'),
      fun j hj => hperm.mem_iff.trans (List.mem_erase_of_ne hj)⟩
  -- a request that does something else does not wait
  have hother : (∀ r, ev ≠ .answer .gateAcquire r) → ev ≠ .disconnect → i ∉ g.gate.sem.pending := by
    intro hanswer hdisconnect hi
    rcases hst.of_asks (hask hi) with ⟨r, hr⟩ | hr
    · exact hanswer r hr
    · exact hdisconnect hr
  cases h with
  | work r other quiet =>
    refine hkeep (hother (fun r' hr => ?_) nofun) (.refl _)
    cases hr
    exact other rfl
  | bump => exact hkeep (hother nofun nofun) (.refl _)
  | enter fresh first =>
    refine hkeep ((g.fresh_iff i).1 fresh).1 ?_
    rcases g.pending_afterAcquire i with ⟨-, heq⟩ | ⟨hpending, -⟩
    · rw [heq]
    · rw [first] at hpending
      cases hpending
  | refuse fresh first =>
    refine hkeep ((g.fresh_iff i).1 fresh).1 ?_
    rcases g.pending_afterAcquire i with ⟨-, heq⟩ | ⟨hpending, -⟩
    · rw [heq]
    · rw [first] at hpending
      cases hpending
  | resume handed =>
    refine hleave ?_
    show (g.gate.sem.resume i).pending.Perm _
    rw [Semaphore.pending_resume hg handed]
  | respond => exact hkeep (hother nofun nofun) (g.pending_released i)
  | chunk bytes now => exact hkeep (hother nofun nofun) (.refl _)
  | endOfStream now => exact hkeep (hother nofun nofun) (.refl _)
  | streamFails => exact hkeep (hother nofun nofun) (.refl _)
  | leaveQueue waiting queued =>
    exact hleave (Semaphore.pending_cancel hg (Semaphore.mem_pending.2 queued))
  | leave working =>
    refine hkeep (fun hi => ?_) (g.pending_released i)
    obtain ⟨k, hk⟩ := hask hi
    exact working k hk

namespace System

open GateState

/-- Who waits at the gate is a request that asks it, and each waits once; there are finitely many
requests. -/
structure Queued (s : System) : Prop where
  nodup : s.gate.gate.sem.pending.Nodup
  asks : ∀ i ∈ s.gate.gate.sem.pending, ∃ t, s.tasks i = some t ∧ t.Asks
  finite : {i | s.tasks i ≠ none}.Finite

theorem Queued.asks_of_mem {s : System} (h : Queued s) {i : ℕ} {t : Task}
    (ht : s.tasks i = some t) (hi : i ∈ s.gate.gate.sem.pending) : t.Asks := by
  obtain ⟨t₁, ht₁, hasks⟩ := h.asks i hi
  rw [ht] at ht₁
  cases ht₁
  exact hasks

theorem queued_start (limit : ℕ) : Queued (start limit) := by
  refine ⟨List.nodup_nil, fun i hi => (by cases hi), Set.finite_empty.subset ?_⟩
  intro i hi
  exact hi (tasks_start limit i)

theorem Queued.step {env : Env} {s s' : System} {l : SystemEvent} (h : Queued s)
    (hst : Step env s l s') : Queued s' := by
  cases hst with
  | arrive i api req new =>
    refine ⟨h.nodup, fun j hj => ?_, (h.finite.insert i).subset fun j hj => ?_⟩
    · obtain ⟨t, ht, hasks⟩ := h.asks j hj
      have hji : j ≠ i := by
        rintro rfl
        rw [new] at ht
        cases ht
      exact ⟨t, (Function.update_of_ne hji _ _).trans ht, hasks⟩
    · by_cases hji : j = i
      · exact Or.inl hji
      · exact Or.inr fun hnone => hj ((Function.update_of_ne hji _ _).trans hnone)
  | @wait i t k task asking fresh first =>
    rcases s.gate.pending_afterAcquire i with ⟨hne, -⟩ | ⟨-, -, hperm⟩
    · exact absurd first hne
    · refine ⟨hperm.nodup_iff.2 (List.nodup_cons.2 ⟨((fresh_iff _ i).1 fresh).1, h.nodup⟩),
        fun j hj => ?_, h.finite⟩
      rcases List.mem_cons.1 (hperm.mem_iff.1 hj) with rfl | hj
      · exact ⟨t, task, k, asking⟩
      · exact h.asks j hj
  | @move i t t' ev g task step gate =>
    obtain ⟨hnodup, hself, hother⟩ := gateMove_pending step gate h.nodup (h.asks_of_mem task)
    refine ⟨hnodup, fun j hj => ?_, h.finite.subset fun j hj => ?_⟩
    · have hji : j ≠ i := by
        rintro rfl
        exact hself hj
      obtain ⟨t₁, ht₁, hasks⟩ := h.asks j ((hother j hji).1 hj)
      exact ⟨t₁, (Function.update_of_ne hji _ _).trans ht₁, hasks⟩
    · by_cases hji : j = i
      · subst hji
        rw [Set.mem_ofPred_eq, task]
        nofun
      · exact fun hnone => hj ((Function.update_of_ne hji _ _).trans hnone)

/-! ### The end of a run -/

/-- No request arrives and no chunk comes. -/
def Closes (_ : System) : SystemEvent → Prop
  | .arrive _ _ _ => False
  | .wait _ => True
  | .move _ ev => Task.NoChunk ev

/-- A step that serves a request: its client stays, and what comes from upstream comes to an end. -/
def Serves (s : System) (l : SystemEvent) : Prop := Closes s l ∧ ∀ i, l ≠ .move i .disconnect

/-- The phase of the request `i`. -/
def phaseOf (s : System) (i : ℕ) : Phase := ((s.tasks i).map Task.phase).getD (.finished .complete)

theorem phaseOf_eq {s : System} {i : ℕ} {t : Task} (h : s.tasks i = some t) :
    s.phaseOf i = t.phase := by
  rw [phaseOf, h]
  rfl

/-- How far the request `i` is: its phase, and whether its first poll is still to come. -/
def progress (s : System) (i : ℕ) : Phase × Bool := (s.phaseOf i, decide (s.gate.Fresh i))

/-- A request gets on: to a later phase, or by its first poll. -/
abbrev GetsOn : Phase × Bool → Phase × Bool → Prop := Prod.Lex Phase.Follows (· < ·)

theorem wellFounded_getsOn : WellFounded GetsOn :=
  Phase.wellFounded_follows.prod_lex wellFounded_lt

theorem fresh_congr {g g' : GateState} {j : ℕ}
    (hpending : j ∈ g'.gate.sem.pending ↔ j ∈ g.gate.sem.pending)
    (hguards : j ∈ g'.guards ↔ j ∈ g.guards) : g'.Fresh j ↔ g.Fresh j := by
  rw [fresh_iff, fresh_iff, hpending, hguards]

/-- **A step lets one request get on** and leaves the others where they are. -/
theorem getsOn_step {env : Env} {limit : ℕ} {s s' : System} {l : SystemEvent} (h : Inv limit s)
    (hq : Queued s) (hl : Closes s l) (hst : Step env s l s') :
    ∃ i, s.tasks i ≠ none ∧ GetsOn (s'.progress i) (s.progress i) ∧
      ∀ j, j ≠ i → s'.progress j = s.progress j := by
  cases hst with
  | arrive i api req new => exact hl.elim
  | @wait i t k task asking fresh first =>
    rcases s.gate.pending_afterAcquire i with ⟨hne, -⟩ | ⟨-, hguards, hperm⟩
    · exact absurd first hne
    · refine ⟨i, by rw [task]; nofun, ?_, fun j hj => ?_⟩
      · have hafter : ¬ (s.gate.afterAcquire i).Fresh i := fun hfresh =>
          ((fresh_iff _ i).1 hfresh).1 (hperm.mem_iff.2 List.mem_cons_self)
        refine Prod.Lex.right _ ?_
        show decide ((s.gate.afterAcquire i).Fresh i) < decide (s.gate.Fresh i)
        simp [hafter, fresh]
      · have hpend : j ∈ (s.gate.afterAcquire i).gate.sem.pending ↔
            j ∈ s.gate.gate.sem.pending := by
          rw [hperm.mem_iff, List.mem_cons, or_iff_right hj]
        have hfresh := fresh_congr hpend (by rw [hguards])
        exact Prod.ext rfl (decide_eq_decide.2 hfresh)
  | @move i t t' ev g task step gate =>
    have hfirst : ∀ r, ev = .answer .gateAcquire r → i ∉ s.gate.guards := by
      rintro r rfl
      cases step with
      | answer _ running => exact h.not_mem_guards task running
    obtain ⟨-, -, hpending⟩ := gateMove_pending step gate hq.nodup (hq.asks_of_mem task)
    obtain ⟨-, -, hguards⟩ := gateMove_gate gate h.nodup hfirst
    refine ⟨i, by rw [task]; nofun, ?_, fun j hj => ?_⟩
    · have hphase : phaseOf { s.setTask i t' with gate := g } i = t'.phase :=
        phaseOf_eq (Function.update_self _ _ _)
      refine Prod.Lex.left _ _ ?_
      rw [hphase, phaseOf_eq task]
      exact step.follows hl
    · have htask : (s.setTask i t').tasks j = s.tasks j := Function.update_of_ne hj _ _
      refine Prod.ext ?_ (decide_eq_decide.2 (fresh_congr (hpending j hj) (hguards j hj)))
      show phaseOf { s.setTask i t' with gate := g } j = s.phaseOf j
      unfold phaseOf
      rw [htask]

/-- **No run goes on for ever without arrivals and chunks.** -/
theorem halts_closes {env : Env} {limit : ℕ} {s : System} (h : Inv limit s) (hq : Queued s) :
    Halts (Step env) Closes s := by
  classical
  let D : Finset ℕ := hq.finite.toFinset
  let P : System → Prop := fun t => (Inv limit t ∧ Queued t) ∧ ∀ i, t.tasks i ≠ none → i ∈ D
  have hD : ∀ i, s.tasks i ≠ none → i ∈ D := fun i hi => hq.finite.mem_toFinset.2 hi
  refine halts_of_components (P := P) wellFounded_getsOn (fun t l u ht hl hst => ?_) D progress
    (fun t l u ht hl hst => ?_) ⟨⟨h, hq⟩, hD⟩
  · refine ⟨⟨ht.1.1.step hst, ht.1.2.step hst⟩, fun i hi => ht.2 i ?_⟩
    cases hst with
    | arrive j api req new => exact hl.elim
    | wait task asking fresh first => exact hi
    | @move j t₁ t₂ ev g task step gate =>
      by_cases hij : i = j
      · rw [hij, task]
        nofun
      · exact fun hnone => hi ((Function.update_of_ne hij _ _).trans hnone)
  · obtain ⟨i, hi, hless, hrest⟩ := getsOn_step ht.1.1 ht.1.2 hl hst
    exact ⟨i, ht.2 i hi, hless, fun j _ hj => hrest j hj⟩

/-! ### No deadlock -/

/-- Every response is over, and the gate has all its permits back. -/
structure Idle (limit : ℕ) (s : System) : Prop where
  requests : ∀ i t, s.tasks i = some t → t.IsOver
  guards : s.gate.guards = []
  pending : s.gate.gate.sem.pending = []
  permits : s.gate.gate.sem.permits = limit

/-- A handler has panicked. -/
def HasPanicked (s : System) : Prop := ∃ i t, s.tasks i = some t ∧ t.Panicked

theorem exists_of_move {env : Env} {s : System} {i : ℕ} {t t' : Task} {ev : TaskEvent}
    {g : GateState} (ht : s.tasks i = some t) (step : Task.Step env t ev t')
    (gate : GateMove i s.gate t.phase ev g) (hchunk : Task.NoChunk ev) (hstay : ev ≠ .disconnect) :
    ∃ l s', Serves s l ∧ Step env s l s' := by
  refine ⟨.move i ev, _, ⟨hchunk, fun j hj => ?_⟩, .move ht step gate⟩
  cases hj
  exact hstay rfl

/-- A request that asks the gate for the first time, or has been handed a permit, gets an answer or
a place in the queue. -/
theorem exists_serves_asking {env : Env} {s : System} {i : ℕ} {t : Task}
    (ht : s.tasks i = some t) (hask : t.Asks)
    (hready : s.gate.Fresh i ∨ i ∈ s.gate.gate.sem.assigned) :
    ∃ l s', Serves s l ∧ Step env s l s' := by
  obtain ⟨k, hk⟩ := hask
  rcases hready with hfresh | hhanded
  · cases hfirst : (s.gate.gate.acquire i).2 with
    | admitted =>
      exact exists_of_move ht (.answer true hk) (.enter hfresh hfirst) trivial nofun
    | queueFull =>
      exact exists_of_move ht (.answer false hk) (.refuse hfresh hfirst) trivial nofun
    | pending => exact ⟨.wait i, _, ⟨trivial, nofun⟩, .wait ht hk hfresh hfirst⟩
  · exact exists_of_move ht (.answer true hk) (.resume hhanded) trivial nofun

/-- A request that does not ask the gate, has not panicked and is not over can be served. -/
theorem exists_serves {env : Env} {s : System} {i : ℕ} {t : Task} (ht : s.tasks i = some t)
    (hask : ¬ t.Asks) (hpanic : ¬ t.Panicked) (hover : ¬ t.IsOver) :
    ∃ l s', Serves s l ∧ Step env s l s' := by
  cases hphase : t.phase with
  | running p =>
    cases p with
    | ret resp =>
      cases hbody : resp.body with
      | bytes b => exact exists_of_move ht (.respond hphase hbody) .respond trivial nofun
      | stream p => exact exists_of_move ht (.respondStream hphase hbody) .respond trivial nofun
    | vis e k =>
      have hgate : e ≠ .gateAcquire := by
        rintro rfl
        exact hask ⟨k, hphase⟩
      have habort : ∀ site, e ≠ .abort site := by
        rintro site rfl
        exact hpanic ⟨site, k, hphase⟩
      by_cases hbump : e = .bumpThrottled
      · subst hbump
        exact exists_of_move ht (.answer () hphase) .bump trivial nofun
      · obtain ⟨r⟩ := nonempty_answer habort
        exact exists_of_move ht (.answer r hphase) (.work r hgate hbump) trivial nofun
  | streaming p =>
    exact exists_of_move ht (.endOfStream 0 hphase) (.endOfStream 0) trivial nofun
  | finished e => exact absurd ⟨e, hphase⟩ hover

/-- **No deadlock**: where no request can be served, none is left, or a handler has panicked. -/
theorem idle_of_blocked {env : Env} {limit : ℕ} {s : System} (hlimit : 0 < limit) (h : Inv limit s)
    (hq : Queued s) (hblocked : Blocked (Step env) Serves s) (hpanic : ¬ s.HasPanicked) :
    Idle limit s := by
  have hno : ¬ ∃ l s', Serves s l ∧ Step env s l s' := by
    rintro ⟨l, s', hl, hst⟩
    exact hblocked l s' hl hst
  have hpanic' : ∀ i t, s.tasks i = some t → ¬ t.Panicked := fun i t ht hp => hpanic ⟨i, t, ht, hp⟩
  -- a handler with a guard could go on
  have hguards : s.gate.guards = [] := by
    refine List.eq_nil_iff_forall_not_mem.2 fun i hi => ?_
    obtain ⟨t, ht, hadm⟩ := (h.guards i).1 hi
    refine hno (exists_serves ht ?_ (hpanic' i t ht) ?_)
    · rintro ⟨k, hk⟩
      exact h.not_mem_guards ht hk hi
    · rintro ⟨e, he⟩
      exact not_admitted_finished he hadm
  -- so could one that has been handed a permit
  have hassigned : s.gate.gate.sem.assigned = [] := by
    refine List.eq_nil_iff_forall_not_mem.2 fun i hi => ?_
    obtain ⟨t, ht, hasks⟩ := hq.asks i (Semaphore.mem_pending.2 (Or.inr hi))
    exact hno (exists_serves_asking ht hasks (Or.inr hi))
  -- hence all permits are free, and nobody waits
  have hpermits : s.gate.gate.sem.permits = limit := by
    have hissued := h.issued
    simp only [GateState.issued, Semaphore.issued, hguards, hassigned, List.length_nil] at hissued
    omega
  have hpending : s.gate.gate.sem.pending = [] := by
    rw [Semaphore.pending, hassigned, s.gate.gate.sem.fair (by omega)]
    rfl
  refine ⟨fun i t ht => ?_, hguards, hpending, hpermits⟩
  by_contra hover
  by_cases hask : t.Asks
  · refine hno (exists_serves_asking ht hask (Or.inl ((fresh_iff _ i).2 ⟨?_, ?_⟩)))
    · rw [hpending]
      exact List.not_mem_nil
    · rw [hguards]
      exact List.not_mem_nil
  · exact hno (exists_serves ht hask (hpanic' i t ht) hover)

/-- **Every request comes to an end** when the limit of the gate is positive and stays fixed. From
any state that is reached so, no run goes on for ever without arrivals and chunks; some run of
serving steps goes on until no such step is possible; and whichever does has answered every request
and left the gate idle, unless a handler has panicked. -/
theorem requests_complete (env : Env) {limit : ℕ} (hlimit : 0 < limit) {s : System}
    (hs : Leads (Step env) (start limit) s) :
    (¬ ∃ f : ℕ → System, f 0 = s ∧ ∀ n, ∃ l, Closes (f n) l ∧ Step env (f n) l (f (n + 1))) ∧
      (∃ r, IsRun env s r ∧ EachStep Serves s r ∧ Blocked (Step env) Serves (final s r)) ∧
      ∀ r, IsRun env s r → EachStep Serves s r → Blocked (Step env) Serves (final s r) →
        Idle limit (final s r) ∨ HasPanicked (final s r) := by
  have hboth : ∀ {t}, Leads (Step env) (start limit) t → Inv limit t ∧ Queued t := fun ht =>
    ht.inv (P := fun s => Inv limit s ∧ Queued s) (fun _ _ _ h hst => ⟨h.1.step hst, h.2.step hst⟩)
      ⟨inv_start limit, queued_start limit⟩
  have hends : Halts (Step env) Closes s := halts_closes (hboth hs).1 (hboth hs).2
  refine ⟨hends.not_forever, (hends.mono fun _ _ h => h.1).exists_blocked,
    fun r hr _ hblocked => ?_⟩
  have hend := hboth (hs.trans ⟨r, hr, rfl⟩)
  by_cases hpanic : HasPanicked (final s r)
  · exact Or.inr hpanic
  · exact Or.inl (idle_of_blocked hlimit hend.1 hend.2 hblocked hpanic)

/-- The result for the proxy with a limit of 1 and one request that has just been admitted. -/
theorem requests_complete_admitted :
    ∃ s, s.gate.guards = [0] ∧
      (¬ ∃ f : ℕ → System, f 0 = s ∧
        ∀ n, ∃ l, Closes (f n) l ∧ Step Task.sampleEnv (f n) l (f (n + 1))) ∧
      (∃ r, IsRun Task.sampleEnv s r ∧ EachStep Serves s r ∧
        Blocked (Step Task.sampleEnv) Serves (final s r)) ∧
      ∀ r, IsRun Task.sampleEnv s r → EachStep Serves s r →
        Blocked (Step Task.sampleEnv) Serves (final s r) →
          Idle 1 (final s r) ∨ HasPanicked (final s r) :=
  ⟨_, rfl, requests_complete Task.sampleEnv one_pos
    (leads_admitted (tasks_start 1 0) (by decide) rfl).of_meeting⟩

end System
end Mybro
