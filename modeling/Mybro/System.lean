import Mathlib.Data.Set.Card
import Mybro.GateRuns
import Mybro.Responses

/-!
# Requests behind the gate

The proxy serving any number of requests: the gate, whose limit stays fixed, and the requests by
number. A step is the arrival of a request, a first poll of `acquire` that has to wait, or a step of
one request together with what it does to the gate (`GateMove`).

A handler's guard is dropped when the handler returns. `System.callsGuarded_iff` says what follows:
every upstream call in progress holds a guard, and at most the limit are in progress, throughout a
run exactly when no handler of the run returns an event stream.
-/

namespace Mybro

open Prog

/-- The gate and the requests. -/
structure System where
  gate : GateState
  tasks : ℕ → Option Task

/-- One event: a request arrives, has to wait at its first poll, or moves on. -/
inductive SystemEvent
  | arrive (i : ℕ) (api : ApiFormat) (req : Request)
  | wait (i : ℕ)
  | move (i : ℕ) (ev : TaskEvent)

namespace GateState

/-- The handler of the request `i` is gone, and with it the guard it may hold. -/
def released (g : GateState) (i : ℕ) : GateState :=
  if i ∈ g.guards then { g with gate := g.gate.dropGuard, guards := g.guards.erase i } else g

end GateState

/-- What a step of the request `i` does to the gate. -/
inductive GateMove (i : ℕ) (g : GateState) (phase : Phase) : TaskEvent → GateState → Prop
  | work {e : Eff} (r : Answer e) (other : e ≠ .gateAcquire) (quiet : e ≠ .bumpThrottled) :
      GateMove i g phase (.answer e r) g
  | bump : GateMove i g phase (.answer .bumpThrottled ()) { g with gate := g.gate.bumpThrottled }
  | enter (fresh : g.Fresh i) (first : (g.gate.acquire i).2 = .admitted) :
      GateMove i g phase (.answer .gateAcquire true) (g.afterAcquire i)
  | refuse (fresh : g.Fresh i) (first : (g.gate.acquire i).2 = .queueFull) :
      GateMove i g phase (.answer .gateAcquire false) (g.afterAcquire i)
  | resume (handed : i ∈ g.gate.sem.assigned) :
      GateMove i g phase (.answer .gateAcquire true)
        { g with gate := g.gate.resume i, guards := i :: g.guards }
  | respond : GateMove i g phase .respond (g.released i)
  | chunk (bytes : List UInt8) (now : ℕ) : GateMove i g phase (.chunk bytes now) g
  | endOfStream (now : ℕ) : GateMove i g phase (.endOfStream now) g
  | streamFails : GateMove i g phase .streamFails g
  | leaveQueue {k : Bool → Handler Response} (waiting : phase = .running (.vis .gateAcquire k))
      (queued : i ∈ g.gate.sem.waiters ∨ i ∈ g.gate.sem.assigned) :
      GateMove i g phase .disconnect { g with gate := g.gate.cancel i }
  | leave (working : ∀ k, phase ≠ .running (.vis .gateAcquire k)) :
      GateMove i g phase .disconnect (g.released i)

namespace System

/-- No request, and a gate with a limit. -/
def start (limit : ℕ) : System := ⟨GateState.start (some limit), fun _ => none⟩

/-- The request `i` becomes `t`. -/
def setTask (s : System) (i : ℕ) (t : Task) : System :=
  { s with tasks := Function.update s.tasks i (some t) }

theorem tasks_setTask (s : System) (i : ℕ) (t : Task) : (s.setTask i t).tasks i = some t :=
  Function.update_self _ _ _

/-- The steps of the proxy. -/
inductive Step (env : Env) : System → SystemEvent → System → Prop
  | arrive {s : System} (i : ℕ) (api : ApiFormat) (req : Request) (new : s.tasks i = none) :
      Step env s (.arrive i api req) (s.setTask i (Task.start env api req))
  | wait {s : System} {i : ℕ} {t : Task} {k : Bool → Handler Response} (task : s.tasks i = some t)
      (asking : t.phase = .running (.vis .gateAcquire k)) (fresh : s.gate.Fresh i)
      (first : (s.gate.gate.acquire i).2 = .pending) :
      Step env s (.wait i) { s with gate := s.gate.afterAcquire i }
  | move {s : System} {i : ℕ} {t t' : Task} {ev : TaskEvent} {g : GateState}
      (task : s.tasks i = some t) (step : Task.Step env t ev t')
      (gate : GateMove i s.gate t.phase ev g) :
      Step env s (.move i ev) { s.setTask i t' with gate := g }

/-- A run of the proxy. -/
abbrev IsRun (env : Env) (s : System) (r : List (SystemEvent × System)) : Prop :=
  Runs.IsRun (Step env) s r

end System

/-! ### Requests with an upstream call in progress -/

namespace Task

/-- An upstream call of the request is in progress: it has been issued and is not answered, or its
reply is not read to the end. -/
def InProgress (t : Task) : Prop :=
  match t.phase with
  | .running p => t.account.unread = true ∨ ∃ e k, p = .vis e k ∧ e.IsUpstream
  | .streaming _ => True
  | .finished _ => False

/-- The handler runs and has been admitted. -/
def Admitted (t : Task) : Prop := (∃ p, t.phase = .running p) ∧ t.account.admitted = true

/-- A request reads no reply before it is admitted. -/
def Held (t : Task) : Prop := t.account.unread = true → t.account.admitted = true

theorem Held.step {env : Env} {t t' : Task} {ev : TaskEvent} (h : t.Held) (hi : t.Inv)
    (hst : Step env t ev t') : t'.Held := by
  unfold Held at h ⊢
  cases hst with
  | @answer e k r running =>
    unfold Inv at hi
    rw [running] at hi
    have hperm : t.account.Permitted e := hi.2.1
    rw [account_snoc]
    cases e with
    | send call => cases r <;> exact fun _ => hperm.upstream trivial
    | gateAcquire =>
      -- the gate is asked once, so nothing has been called before
      intro hunread
      have hadm : t.account.admitted = false := hperm.gate rfl
      rw [h hunread] at hadm
      cases hadm
    | readBody => nofun
    | _ => exact h
  | @chunk p bytes now streaming =>
    rw [t.account_snoc .instant now (.streaming (p.chunk env bytes now))]
    exact h
  | @endOfStream p now streaming => simpa [account, Account.add] using h
  | _ => exact h

/-- A running request with a call in progress has been admitted. -/
theorem admitted_of_inProgress {t : Task} (hi : t.Inv) (hh : t.Held) (h : t.InProgress) :
    t.Admitted ∨ ∃ p, t.phase = .streaming p := by
  unfold InProgress at h
  unfold Inv at hi
  cases hphase : t.phase with
  | running p =>
    rw [hphase] at h hi
    refine Or.inl ⟨⟨p, hphase⟩, ?_⟩
    rcases h with hunread | ⟨e, k, rfl, hup⟩
    · exact hh hunread
    · exact hi.2.1.upstream hup
  | streaming p => exact Or.inr ⟨p, rfl⟩
  | finished e =>
    rw [hphase] at h
    exact h.elim

end Task

/-! ### The invariant of the proxy -/

namespace GateState

theorem guards_afterAcquire (g : GateState) (i : ℕ) :
    (g.afterAcquire i).guards = if (g.gate.acquire i).2 = .admitted then i :: g.guards else g.guards := by
  unfold afterAcquire
  generalize g.gate.acquire i = p
  obtain ⟨gate, a⟩ := p
  cases a <;> rfl

theorem issued_released (g : GateState) (i : ℕ) : (g.released i).issued = g.issued := by
  unfold released
  split_ifs with hi
  · have hstep : g.step (.drop i) =
        some { g with gate := g.gate.dropGuard, guards := g.guards.erase i } := if_pos hi
    exact issued_of_step hstep nofun
  · rfl

theorem mem_guards_released {g : GateState} (hg : g.guards.Nodup) (i j : ℕ) :
    j ∈ (g.released i).guards ↔ j ≠ i ∧ j ∈ g.guards := by
  unfold released
  split_ifs with hi
  · exact hg.mem_erase_iff
  · refine ⟨fun hj => ⟨?_, hj⟩, fun hj => hj.2⟩
    rintro rfl
    exact hi hj

theorem nodup_released {g : GateState} (hg : g.guards.Nodup) (i : ℕ) :
    (g.released i).guards.Nodup := by
  unfold released
  split_ifs
  · exact hg.erase i
  · exact hg

end GateState

namespace System

open GateState

/-- The invariant of the proxy with a gate of the given limit: the guards are those of the admitted
requests whose handlers run, and no permit is lost. -/
structure Inv (limit : ℕ) (s : System) : Prop where
  tasks : ∀ i t, s.tasks i = some t → t.Inv ∧ t.Held
  guards : ∀ i, i ∈ s.gate.guards ↔ ∃ t, s.tasks i = some t ∧ t.Admitted
  nodup : s.gate.guards.Nodup
  issued : s.gate.issued = limit

theorem tasks_start (limit i : ℕ) : (start limit).tasks i = none := rfl

theorem inv_start (limit : ℕ) : Inv limit (start limit) := by
  have hguards : (start limit).gate.guards = [] := rfl
  refine ⟨fun i t ht => ?_, fun i => ⟨fun hi => ?_, fun ⟨t, ht, _⟩ => ?_⟩, ?_, ?_⟩
  · rw [tasks_start] at ht
    cases ht
  · rw [hguards] at hi
    cases hi
  · rw [tasks_start] at ht
    cases ht
  · rw [hguards]
    exact List.nodup_nil
  · exact issued_start (some limit)

/-- What holds of every request holds after a step of one of them. -/
theorem forall_update {P : Task → Prop} {f : ℕ → Option Task} (h : ∀ j t, f j = some t → P t)
    {i : ℕ} {t' : Task} (ht' : P t') (j : ℕ) (t : Task)
    (ht : Function.update f i (some t') j = some t) : P t := by
  by_cases hj : j = i
  · subst hj
    rw [Function.update_self] at ht
    exact Option.some.inj ht ▸ ht'
  · rw [Function.update_of_ne hj] at ht
    exact h j t ht

/-- The guards after a step of the request `i`. -/
theorem guards_update {s : System} {limit : ℕ} (h : Inv limit s) {i : ℕ} {g : GateState} {t' : Task}
    (hother : ∀ j, j ≠ i → (j ∈ g.guards ↔ j ∈ s.gate.guards))
    (hself : i ∈ g.guards ↔ t'.Admitted) (j : ℕ) :
    j ∈ g.guards ↔ ∃ t, Function.update s.tasks i (some t') j = some t ∧ t.Admitted := by
  by_cases hj : j = i
  · subst hj
    rw [Function.update_self, hself]
    exact ⟨fun ht => ⟨t', rfl, ht⟩, fun ⟨t, ht, hadm⟩ => Option.some.inj ht ▸ hadm⟩
  · rw [Function.update_of_ne hj, hother j hj, h.guards j]

/-- Only the gate's answer changes whether a request is admitted. -/
theorem admitted_add (a : Account) {e : Eff} (r : Answer e) (he : e ≠ .gateAcquire) :
    (a.add e r).admitted = a.admitted := by
  cases e with
  | gateAcquire => exact absurd rfl he
  | send call => cases r <;> rfl
  | _ => rfl

theorem admitted_answer {t : Task} {e : Eff} (r : Answer e) (p : Handler Response) :
    ({ t with trace := t.trace ++ [⟨e, r⟩], phase := .running p } : Task).Admitted ↔
      (t.account.add e r).admitted = true := by
  unfold Task.Admitted
  rw [t.account_snoc e r (.running p)]
  exact ⟨fun h => h.2, fun h => ⟨⟨p, rfl⟩, h⟩⟩

theorem admitted_running {t : Task} {p : Handler Response} (hp : t.phase = .running p) :
    t.Admitted ↔ t.account.admitted = true :=
  ⟨fun h => h.2, fun h => ⟨⟨p, hp⟩, h⟩⟩

theorem not_admitted_streaming {t : Task} {p : Pipe} (hp : t.phase = .streaming p) :
    ¬ t.Admitted := by
  rintro ⟨⟨q, hq⟩, -⟩
  rw [hp] at hq
  cases hq

theorem not_admitted_finished {t : Task} {e : Ending} (hp : t.phase = .finished e) :
    ¬ t.Admitted := by
  rintro ⟨⟨q, hq⟩, -⟩
  rw [hp] at hq
  cases hq

/-- What a step of the request `i` does to the gate as a whole. -/
theorem gateMove_gate {i : ℕ} {g g' : GateState} {phase : Phase} {ev : TaskEvent}
    (h : GateMove i g phase ev g') (hg : g.guards.Nodup)
    (hask : ∀ r, ev = .answer .gateAcquire r → i ∉ g.guards) :
    g'.issued = g.issued ∧ g'.guards.Nodup ∧ ∀ j, j ≠ i → (j ∈ g'.guards ↔ j ∈ g.guards) := by
  have hcons : ∀ j, j ≠ i → (j ∈ i :: g.guards ↔ j ∈ g.guards) := by
    intro j hj
    rw [List.mem_cons]
    exact ⟨fun h => h.resolve_left hj, Or.inr⟩
  cases h with
  | work r other quiet => exact ⟨rfl, hg, fun _ _ => Iff.rfl⟩
  | bump => exact ⟨rfl, hg, fun _ _ => Iff.rfl⟩
  | enter fresh first =>
    have hguards := guards_afterAcquire g i
    rw [if_pos first] at hguards
    rw [hguards]
    exact ⟨(issued_afterAcquire g i).1, List.nodup_cons.2 ⟨fresh.2.2, hg⟩, hcons⟩
  | refuse fresh first =>
    have hguards := guards_afterAcquire g i
    rw [if_neg (by rw [first]; nofun)] at hguards
    rw [hguards]
    exact ⟨(issued_afterAcquire g i).1, hg, fun _ _ => Iff.rfl⟩
  | resume handed =>
    have hstep : g.step (.resume i) =
        some { g with gate := g.gate.resume i, guards := i :: g.guards } := if_pos handed
    exact ⟨issued_of_step hstep nofun, List.nodup_cons.2 ⟨hask _ rfl, hg⟩, hcons⟩
  | respond =>
    refine ⟨issued_released g i, nodup_released hg i, fun j hj => ?_⟩
    rw [mem_guards_released hg]
    exact ⟨And.right, fun h => ⟨hj, h⟩⟩
  | chunk bytes now => exact ⟨rfl, hg, fun _ _ => Iff.rfl⟩
  | endOfStream now => exact ⟨rfl, hg, fun _ _ => Iff.rfl⟩
  | streamFails => exact ⟨rfl, hg, fun _ _ => Iff.rfl⟩
  | leaveQueue waiting queued =>
    have hstep : g.step (.cancel i) = some { g with gate := g.gate.cancel i } := if_pos queued
    exact ⟨issued_of_step hstep nofun, hg, fun _ _ => Iff.rfl⟩
  | leave working =>
    refine ⟨issued_released g i, nodup_released hg i, fun j hj => ?_⟩
    rw [mem_guards_released hg]
    exact ⟨And.right, fun h => ⟨hj, h⟩⟩

/-- What a step of the request `i` does to its own guard. -/
theorem gateMove_self {env : Env} {i : ℕ} {g g' : GateState} {t t' : Task} {ev : TaskEvent}
    (hst : Task.Step env t ev t') (h : GateMove i g t.phase ev g') (hg : g.guards.Nodup)
    (hself : i ∈ g.guards ↔ t.Admitted)
    (hask : ∀ k, t.phase = .running (.vis .gateAcquire k) → i ∉ g.guards) :
    i ∈ g'.guards ↔ t'.Admitted := by
  have hreleased : i ∉ (g.released i).guards := fun hi => ((mem_guards_released hg i i).1 hi).1 rfl
  cases h with
  | work r other quiet =>
    cases hst with
    | @answer _ k _ running =>
      rw [admitted_answer, admitted_add _ r other, hself, admitted_running running]
  | bump =>
    cases hst with
    | @answer _ k _ running =>
      rw [admitted_answer]
      exact hself.trans (admitted_running running)
  | enter fresh first =>
    cases hst with
    | @answer _ k _ running =>
      rw [admitted_answer, guards_afterAcquire, if_pos first]
      exact ⟨fun _ => rfl, fun _ => List.mem_cons_self⟩
  | refuse fresh first =>
    cases hst with
    | @answer _ k _ running =>
      rw [admitted_answer, guards_afterAcquire, if_neg (by rw [first]; nofun)]
      exact ⟨fun hi => absurd hi fresh.2.2, nofun⟩
  | resume handed =>
    cases hst with
    | @answer _ k _ running =>
      rw [admitted_answer]
      exact ⟨fun _ => rfl, fun _ => List.mem_cons_self⟩
  | respond =>
    refine ⟨fun hi => absurd hi hreleased, fun hadm => ?_⟩
    cases hst with
    | respond running body => exact absurd hadm (not_admitted_finished rfl)
    | respondStream running body => exact absurd hadm (not_admitted_streaming rfl)
  | chunk bytes now =>
    cases hst with
    | chunk _ _ streaming =>
      exact ⟨fun hi => absurd (hself.1 hi) (not_admitted_streaming streaming),
        fun hadm => absurd hadm (not_admitted_streaming rfl)⟩
  | endOfStream now =>
    cases hst with
    | endOfStream _ streaming =>
      exact ⟨fun hi => absurd (hself.1 hi) (not_admitted_streaming streaming),
        fun hadm => absurd hadm (not_admitted_finished rfl)⟩
  | streamFails =>
    cases hst with
    | streamFails streaming =>
      exact ⟨fun hi => absurd (hself.1 hi) (not_admitted_streaming streaming),
        fun hadm => absurd hadm (not_admitted_finished rfl)⟩
  | leaveQueue waiting queued =>
    refine ⟨fun hi => absurd hi (hask _ waiting), fun hadm => ?_⟩
    cases hst with
    | leave running suspended => exact absurd hadm (not_admitted_finished rfl)
    | leaveStream streaming => exact absurd hadm (not_admitted_finished rfl)
  | leave working =>
    refine ⟨fun hi => absurd hi hreleased, fun hadm => ?_⟩
    cases hst with
    | leave running suspended => exact absurd hadm (not_admitted_finished rfl)
    | leaveStream streaming => exact absurd hadm (not_admitted_finished rfl)

/-- A request that asks the gate holds no guard. -/
theorem Inv.not_mem_guards {limit : ℕ} {s : System} (h : Inv limit s) {i : ℕ} {t : Task}
    {k : Bool → Handler Response} (ht : s.tasks i = some t)
    (hp : t.phase = .running (.vis .gateAcquire k)) : i ∉ s.gate.guards := by
  intro hi
  obtain ⟨t', ht', hadm⟩ := (h.guards i).1 hi
  rw [ht] at ht'
  cases ht'
  have hinv : t.Inv := (h.tasks i t ht).1
  unfold Task.Inv at hinv
  rw [hp] at hinv
  have hno : t.account.admitted = false := hinv.2.1.gate rfl
  rw [hadm.2] at hno
  cases hno

/-- The invariant is kept by every step. -/
theorem Inv.step {env : Env} {limit : ℕ} {s s' : System} {l : SystemEvent} (h : Inv limit s)
    (hst : Step env s l s') : Inv limit s' := by
  cases hst with
  | arrive i api req new =>
    have hnot : ¬ (Task.start env api req).Admitted := by
      rintro ⟨-, hadm⟩
      cases hadm
    have hnew : (Task.start env api req).Inv ∧ (Task.start env api req).Held :=
      ⟨Task.inv_start env api req, nofun⟩
    refine ⟨forall_update h.tasks hnew, guards_update h (fun _ _ => Iff.rfl) ?_, h.nodup, h.issued⟩
    · refine ⟨fun hi => ?_, fun hadm => absurd hadm hnot⟩
      obtain ⟨t, ht, -⟩ := (h.guards i).1 hi
      rw [new] at ht
      cases ht
  | @wait i t k task asking fresh first =>
    have hguards : (s.gate.afterAcquire i).guards = s.gate.guards := by
      rw [guards_afterAcquire, if_neg (by rw [first]; nofun)]
    refine ⟨h.tasks, fun j => ?_, ?_, ?_⟩
    · rw [hguards]
      exact h.guards j
    · rw [hguards]
      exact h.nodup
    · rw [(issued_afterAcquire s.gate i).1]
      exact h.issued
  | @move i t t' ev g task step gate =>
    have hask : ∀ k, t.phase = .running (.vis .gateAcquire k) → i ∉ s.gate.guards :=
      fun k hp => h.not_mem_guards task hp
    have hask' : ∀ r, ev = .answer .gateAcquire r → i ∉ s.gate.guards := by
      rintro r rfl
      cases step with
      | answer _ running => exact hask _ running
    have hself : i ∈ s.gate.guards ↔ t.Admitted := by
      rw [h.guards i, task]
      exact ⟨fun ⟨t₁, ht₁, hadm⟩ => Option.some.inj ht₁ ▸ hadm, fun hadm => ⟨t, rfl, hadm⟩⟩
    obtain ⟨hissued, hnodup, hother⟩ := gateMove_gate gate h.nodup hask'
    obtain ⟨hinv, hheld⟩ := h.tasks i t task
    refine ⟨forall_update h.tasks ⟨hinv.step step, hheld.step hinv step⟩, ?_, hnodup,
      hissued.trans h.issued⟩
    exact guards_update h hother (gateMove_self step gate h.nodup hself hask)

/-! ### Upstream calls and guards -/

/-- The requests with an upstream call in progress. -/
def inProgress (s : System) : Set ℕ := {i | ∃ t, s.tasks i = some t ∧ t.InProgress}

/-- What admission is for: every upstream call in progress is that of a request whose guard is
alive, and no more than the limit are in progress. -/
structure CallsGuarded (limit : ℕ) (s : System) : Prop where
  guarded : ∀ i ∈ s.inProgress, i ∈ s.gate.guards
  bounded : s.inProgress.encard ≤ limit

/-- No response is being relayed as a stream. -/
def NoStream (s : System) : Prop := ∀ i t, s.tasks i = some t → ∀ p, t.phase ≠ .streaming p

/-- A handler that returns has not got an event stream from upstream. -/
def RespondsWhole (s : System) : SystemEvent → Prop
  | .move i .respond => ∀ t reply, s.tasks i = some t → t.account.last = some (.ok reply) →
      reply.isEventStream = false
  | _ => True

/-- There are no more guards than the limit. -/
theorem Inv.guards_le {limit : ℕ} {s : System} (h : Inv limit s) :
    s.gate.guards.length ≤ limit := by
  rw [← h.issued]
  exact Nat.le_add_left _ _

/-- The calls are guarded as long as no response streams: a stream has no guard. -/
theorem callsGuarded_iff_noStream {limit : ℕ} {s : System} (h : Inv limit s) :
    CallsGuarded limit s ↔ NoStream s := by
  constructor
  · rintro ⟨hguarded, -⟩ i t ht p hp
    -- a stream is a call in progress, and its handler's guard is gone
    have hprogress : t.InProgress := by
      unfold Task.InProgress
      rw [hp]
      trivial
    obtain ⟨t', ht', hadm⟩ := (h.guards i).1 (hguarded i ⟨t, ht, hprogress⟩)
    rw [ht] at ht'
    cases ht'
    exact not_admitted_streaming hp hadm
  · intro hno
    have hguarded : ∀ i ∈ s.inProgress, i ∈ s.gate.guards := by
      rintro i ⟨t, ht, hprogress⟩
      obtain ⟨hinv, hheld⟩ := h.tasks i t ht
      rcases Task.admitted_of_inProgress hinv hheld hprogress with hadm | ⟨p, hp⟩
      · exact (h.guards i).2 ⟨t, ht, hadm⟩
      · exact absurd hp (hno i t ht p)
    refine ⟨hguarded, ?_⟩
    calc s.inProgress.encard
        ≤ (s.gate.guards.toFinset : Set ℕ).encard :=
          Set.encard_le_encard fun i hi => List.mem_toFinset.2 (hguarded i hi)
      _ = (s.gate.guards.toFinset.card : ℕ∞) := Set.encard_coe_eq_coe_finsetCard _
      _ ≤ limit := by
          exact_mod_cast (List.toFinset_card_le _).trans h.guards_le

/-- A body returned as a whole is no event stream. -/
theorem isEventStream_of_bytes {api : ApiFormat} {req : Request} {a : Account} {resp : Response}
    {b : List UInt8} {reply : Reply} (h : Answered api req a resp) (hbody : resp.body = .bytes b)
    (hlast : a.last = some (.ok reply)) : reply.isEventStream = false := by
  cases h with
  | refused cfg b auth why last => rw [last] at hlast; cases hlast
  | rejected cfg b g auth authorized read last => rw [last] at hlast; cases hlast
  | unreachable err r b last => rw [last] at hlast; cases hlast
  | relayed reply' r b last unread noStream =>
    rw [last] at hlast
    cases hlast
    exact noStream
  | passedOn reply' b format last unread noSuccess =>
    rw [last] at hlast
    cases hlast
    simp [Reply.isEventStream, noSuccess]
  | streamed reply' p last stream records body =>
    rw [hbody] at body
    cases body

/-- A step keeps the proxy free of streams exactly when it is no return of an event stream. -/
theorem step_noStream {env : Env} {limit : ℕ} {s s' : System} {l : SystemEvent} (h : Inv limit s)
    (hno : NoStream s) (hst : Step env s l s') : NoStream s' ↔ RespondsWhole s l := by
  cases hst with
  | arrive i api req new =>
    exact ⟨fun _ => trivial, fun _ => forall_update hno nofun⟩
  | wait task asking fresh first => exact ⟨fun _ => trivial, fun _ => hno⟩
  | @move i t t' ev g task step gate =>
    have hnot : ∀ p, t.phase ≠ .streaming p := hno i t task
    have hkeep : (∀ p, t'.phase ≠ .streaming p) → NoStream ⟨g, Function.update s.tasks i (some t')⟩ :=
      fun ht' => forall_update hno ht'
    cases step with
    | answer r running => exact ⟨fun _ => trivial, fun _ => hkeep nofun⟩
    | @respond resp b running body =>
      refine ⟨fun _ t₁ reply ht₁ hlast => ?_, fun _ => hkeep nofun⟩
      rw [task] at ht₁
      cases ht₁
      have hinv : t.Inv := (h.tasks i t task).1
      unfold Task.Inv at hinv
      rw [running] at hinv
      exact isEventStream_of_bytes hinv.2 body hlast
    | @respondStream resp p running body =>
      -- a stream in the response means an event stream from upstream
      have hinv : t.Inv := (h.tasks i t task).1
      unfold Task.Inv at hinv
      rw [running] at hinv
      constructor
      · intro hno'
        exact absurd rfl (hno' i _ (Function.update_self i _ _) p)
      · intro hwhole
        have hrel : ({ t with response := some resp, phase := t.phase } : Task).Relayed [] :=
          (Task.relayed_of_answered hinv.2 body).2
        obtain ⟨resp', reply, -, hlast, hstream, -⟩ := hrel.sent
        have hfalse : reply.isEventStream = false := hwhole t reply task hlast
        rw [hstream] at hfalse
        cases hfalse
    | chunk bytes now streaming => exact absurd streaming (hnot _)
    | endOfStream now streaming => exact absurd streaming (hnot _)
    | streamFails streaming => exact absurd streaming (hnot _)
    | leave running suspended => exact ⟨fun _ => trivial, fun _ => hkeep nofun⟩
    | leaveStream streaming => exact absurd streaming (hnot _)

/-- **Throughout a run, every upstream call in progress holds a guard and no more than the limit are
in progress, exactly when no handler of the run returns an event stream.** -/
theorem callsGuarded_iff (env : Env) (limit : ℕ) (r : List (SystemEvent × System))
    (hr : IsRun env (start limit) r) :
    Runs.Always (CallsGuarded limit) (start limit) r ↔
      Runs.EachStep RespondsWhole (start limit) r := by
  refine Runs.always_iff_eachStep (J := Inv limit) (fun s l t hs hst => hs.step hst) ?_
    (inv_start limit) ?_ hr
  · intro s l t hs hp hst
    rw [callsGuarded_iff_noStream (hs.step hst)]
    exact step_noStream hs ((callsGuarded_iff_noStream hs).1 hp) hst
  · refine (callsGuarded_iff_noStream (inv_start limit)).2 fun i t ht => ?_
    rw [tasks_start] at ht
    cases ht

/-! ### A stream and a second request -/

/-- The effect does not concern the gate. -/
def quiet : Eff → Bool
  | .gateAcquire | .bumpThrottled => false
  | _ => true

/-- Answers that do not concern the gate are steps of the proxy. -/
theorem leads_run {env : Env} {s : System} {i : ℕ} {t : Task} {p q : Handler Response}
    {tr : Trace Answer} (ht : s.tasks i = some t) (hp : t.phase = .running p) (hr : Run p tr q)
    (hquiet : (tr.all fun x => quiet x.1) = true) :
    Runs.Leads (Runs.meeting (Step env) RespondsWhole) s
      (s.setTask i { t with trace := t.trace ++ tr, phase := .running q }) := by
  induction hr generalizing s t with
  | nil p =>
    have ht' : { t with trace := t.trace ++ [], phase := .running p } = t := by
      rw [List.append_nil, ← hp]
    have hs : s.setTask i t = s := by
      rw [setTask, ← ht, Function.update_eq_self]
    rw [ht', hs]
    exact .refl s
  | @cons e k r tr q hr ih =>
    obtain ⟨he, htr⟩ := Bool.and_eq_true_iff.1 hquiet
    have hgate : GateMove i s.gate t.phase (.answer e r) s.gate :=
      .work r (by rintro rfl; cases he) (by rintro rfl; cases he)
    have hstep : Step env s (.move i (.answer e r)) _ := .move ht (.answer r hp) hgate
    have hself : (s.setTask i { t with trace := t.trace ++ [⟨e, r⟩], phase := .running (k r) }).tasks
        i = some { t with trace := t.trace ++ [⟨e, r⟩], phase := .running (k r) } :=
      Function.update_self _ _ _
    have hrest := ih hself rfl htr
    simp only [setTask, Function.update_idem, List.append_assoc, List.singleton_append] at hrest ⊢
    exact .head ⟨hstep, trivial⟩ hrest

/-- Answers before admission. -/
def askingAnswers : (e : Eff) → Option (Answer e)
  | .config => some {}
  | _ => none

/-- Answers up to the moment of admission. -/
def admittedAnswers : (e : Eff) → Option (Answer e)
  | .gateAcquire => some true
  | e => askingAnswers e

/-- A request that asks the gate, and one that has just been admitted. -/
def askingTask : Task := Task.played Task.sampleEnv .openAI Task.emptyRequest askingAnswers

def admittedTask : Task := Task.played Task.sampleEnv .openAI Task.emptyRequest admittedAnswers

theorem step_admittedTask :
    Task.Step Task.sampleEnv askingTask (.answer .gateAcquire true) admittedTask := by
  have h : ∃ k : Bool → Handler Response, askingTask.phase = .running (.vis .gateAcquire k) ∧
      admittedTask = { askingTask with
        trace := askingTask.trace ++ [⟨.gateAcquire, true⟩]
        phase := .running (k true) } := ⟨_, rfl, rfl⟩
  obtain ⟨k, hk, ht⟩ := h
  rw [ht]
  exact .answer true hk

/-- A new request is admitted when a permit is free. -/
theorem leads_admitted {s : System} {i : ℕ} (new : s.tasks i = none) (fresh : s.gate.Fresh i)
    (first : (s.gate.gate.acquire i).2 = .admitted) :
    Runs.Leads (Runs.meeting (Step Task.sampleEnv) RespondsWhole) s
      { s.setTask i admittedTask with gate := s.gate.afterAcquire i } := by
  have harrive : Step Task.sampleEnv s _ _ := .arrive i .openAI Task.emptyRequest new
  have hself := tasks_setTask s i (Task.start Task.sampleEnv .openAI Task.emptyRequest)
  have hask : Runs.Leads (Runs.meeting (Step Task.sampleEnv) RespondsWhole) _ _ :=
    leads_run hself rfl
      (run_play askingAnswers (handler Task.sampleEnv .openAI Task.emptyRequest)) rfl
  have hadmitted : Step Task.sampleEnv (s.setTask i askingTask) (.move i (.answer .gateAcquire true))
      { (s.setTask i askingTask).setTask i admittedTask with gate := s.gate.afterAcquire i } :=
    .move (Function.update_self _ _ _) step_admittedTask (.enter fresh first)
  simp only [setTask, Function.update_idem] at hask hadmitted
  exact .head ⟨harrive, trivial⟩ (hask.trans (.one ⟨hadmitted, trivial⟩))

/-- The rest of the handler after admission. -/
def admittedHandler : Handler Response :=
  (play admittedAnswers (handler Task.sampleEnv .openAI Task.emptyRequest)).2

theorem admittedTask_phase : admittedTask.phase = .running admittedHandler := rfl

/-- A request that has just been admitted, and what it does as far as it is answered. -/
theorem leads_answered {s : System} {i : ℕ} (task : s.tasks i = some admittedTask)
    (answers : (e : Eff) → Option (Answer e))
    (hquiet : ((play answers admittedHandler).1.all fun x => quiet x.1) = true) :
    Runs.Leads (Runs.meeting (Step Task.sampleEnv) RespondsWhole) s (s.setTask i
      { admittedTask with
        trace := admittedTask.trace ++ (play answers admittedHandler).1
        phase := .running (play answers admittedHandler).2 }) :=
  leads_run task admittedTask_phase (run_play answers admittedHandler) hquiet

/-- Answers to an admitted request, up to its upstream call. -/
def unsentAnswers : (e : Eff) → Option (Answer e)
  | .send _ => none
  | e => Task.sampleAnswers (.ok Task.sseReply) e

/-- With a limit of 1, a second request calls upstream while the reply to the first one streams. -/
theorem stream_overtaken :
    ∃ r, IsRun Task.sampleEnv (start 1) r ∧ 1 < (Runs.final (start 1) r).inProgress.encard := by
  -- the first request is admitted, gets its reply and returns the stream
  have hfirst := (leads_admitted (tasks_start 1 0) (by decide) rfl).trans
    (leads_answered (Function.update_self _ _ _) (Task.sampleAnswers (.ok Task.sseReply)) rfl)
  have hstream := hfirst.of_meeting.trans
    (.one (.move (Function.update_self _ _ _) (.respondStream rfl rfl) .respond))
  -- the second one is admitted by the guard that is now free, and sends its call
  have hsecond := hstream.trans (leads_admitted (i := 1) rfl (by decide) rfl).of_meeting
  have hsent := hsecond.trans
    (leads_answered (Function.update_self _ _ _) unsentAnswers rfl).of_meeting
  obtain ⟨r, hr, hfinal⟩ := hsent
  refine ⟨r, hr, ?_⟩
  rw [hfinal]
  exact Set.one_lt_encard_iff.2 ⟨0, 1, ⟨_, rfl, trivial⟩, ⟨_, rfl, Or.inr ⟨_, _, rfl, trivial⟩⟩,
    Nat.zero_ne_one⟩

/-- The theorem on a run in which a request gets its reply as a whole and relays it, and then another
one is admitted and calls upstream. -/
theorem callsGuarded_of_reply :
    ∃ r, IsRun Task.sampleEnv (start 1) r ∧ Runs.Always (CallsGuarded 1) (start 1) r ∧
      (∃ t resp, (Runs.final (start 1) r).tasks 0 = some t ∧ t.phase = .finished .complete ∧
        t.response = some resp ∧ resp.status = 200) ∧
      1 ∈ (Runs.final (start 1) r).inProgress := by
  have hfirst := (leads_admitted (tasks_start 1 0) (by decide) rfl).trans
    (leads_answered (Function.update_self _ _ _) (Task.sampleAnswers (.ok ⟨200, []⟩)) rfl)
  have hwhole := hfirst.trans (.one ⟨@Step.move _ _ _ _ _ .respond _ (Function.update_self _ _ _)
    (.respond rfl rfl) .respond, by
      intro t reply ht hlast
      rw [tasks_setTask] at ht
      cases ht
      cases hlast
      rfl⟩)
  have hsecond := hwhole.trans (leads_admitted (i := 1) rfl (by decide) rfl)
  have hsent := hsecond.trans (leads_answered (Function.update_self _ _ _) unsentAnswers rfl)
  obtain ⟨r, hr, hresponds, hfinal⟩ := hsent.exists_run
  refine ⟨r, hr, (callsGuarded_iff Task.sampleEnv 1 r hr).2 hresponds, ?_, ?_⟩
  · rw [hfinal]
    exact ⟨_, _, rfl, rfl, rfl, rfl⟩
  · rw [hfinal]
    exact ⟨_, rfl, Or.inr ⟨_, _, rfl, trivial⟩⟩

end System

end Mybro
