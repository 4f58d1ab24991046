import Mybro.KeyRuns
import Mybro.Metering

/-!
# Why a key is out of service (`keypool.rs`, `routes/chat.rs`, `routes/messages.rs`)

Any number of requests share the key pool, and their steps interleave in any way. The pool is told
the verdicts on their calls and nothing else (`marks_eq_verdicts`), so `out_only_after_failure` can
say: as long as the keys are not edited, a key is out of service only because a call of some request
with this very key has failed, and only for the cooldown of that failure.
-/

namespace Mybro

open Prog

/-- The requests by number, the pool they share, and the time of the last step. -/
structure Fleet where
  tasks : ℕ → Task
  pool : KeyPool
  clock : ℕ

/-- The request `request` takes a step at the instant `now`. -/
structure FleetEvent where
  request : ℕ
  now : ℕ
  event : TaskEvent

/-- What a step of a request does to the pool, and what the pool answers. -/
def PoolMove (now : ℕ) (p : KeyPool) : TaskEvent → KeyPool → Prop
  | .answer (.acquireKey preferred) slot, q => (slot, q) = p.acquire now preferred
  | .answer (.markHealthy i) _, q => q = p.markHealthy i
  | .answer (.markUnhealthy i status) _, q => q = p.markUnhealthy now i status
  | .answer .keypoolTotal total, q => total = p.total ∧ q = p
  | _, q => q = p

/-- The last call was made with the key at this index and failed. -/
def Task.LastFailed (t : Task) (j : ℕ) (key : String) (status : ℕ) : Prop :=
  ∃ slot call result, (callsOf none t.trace).getLast? = some (some slot, call, result) ∧
    slot.index = j ∧ call.key = key ∧ verdictOn t.api result = some (.unhealthy status)

namespace Fleet

/-- Requests that have just arrived, and a pool. -/
def start (env : Env) (p : KeyPool) (api : ℕ → ApiFormat) (req : ℕ → Request) : Fleet :=
  ⟨fun i => Task.start env (api i) (req i), p, 0⟩

/-- The steps of the requests. -/
structure Step (env : Env) (s : Fleet) (l : FleetEvent) (s' : Fleet) : Prop where
  task : Task.Step env (s.tasks l.request) l.event (s'.tasks l.request)
  others : ∀ i, i ≠ l.request → s'.tasks i = s.tasks i
  pool : PoolMove l.now s.pool l.event s'.pool
  later : s.clock ≤ l.now
  clock : s'.clock = l.now

/-- On the way from `s₀` to `s` a request has told the pool, at the instant `t`, that its last call,
made with the key at this index, had failed. -/
def FailedAt (env : Env) (s₀ s : Fleet) (j : ℕ) (key : String) (status t : ℕ) : Prop :=
  ∃ s₁ s₂ i, Runs.Leads (Step env) s₀ s₁ ∧ (s₁.tasks i).LastFailed j key status ∧
    Step env s₁ ⟨i, t, .answer (.markUnhealthy j status) ()⟩ s₂ ∧ Runs.Leads (Step env) s₂ s

/-- An entry that is not healthy owes it to a failed call with its key. -/
def Blamed (env : Env) (s₀ s : Fleet) (j : ℕ) (e : KeyEntry) : Prop :=
  e.healthy = false → ∃ status t, FailedAt env s₀ s j e.key status t ∧ e.lastError = some t ∧
    t ≤ s.clock ∧ e.cooldown = cooldownForStatus status

end Fleet

/-! ### Calls in a trace -/

/-- What is owed is the verdict on the last call. -/
theorem last_of_owed {api : ApiFormat} {x : ℕ × Verdict} {l : Ledger} {tr : Trace Answer}
    (h : (after (Ledger.add api) l tr).owed = some x) :
    (callsOf l.slot tr = [] ∧ l.owed = some x) ∨
      ∃ y, (callsOf l.slot tr).getLast? = some y ∧ verdictOf api y = some x := by
  induction tr generalizing l with
  | nil => exact Or.inl ⟨rfl, h⟩
  | cons a tr ih =>
    obtain ⟨e, r⟩ := a
    have hrest := ih (l := l.add api e r) h
    cases e with
    | send call =>
      refine Or.inr ?_
      simp only [callsOf, List.getLast?_cons]
      rcases hrest with ⟨hnil, howed⟩ | ⟨y, hy, hverdict⟩
      · refine ⟨(l.slot, call, r), ?_, howed⟩
        rw [show callsOf l.slot tr = [] from hnil]
        rfl
      · refine ⟨y, ?_, hverdict⟩
        rw [show (callsOf l.slot tr).getLast? = some y from hy]
        rfl
    | markHealthy i =>
      refine Or.inr (hrest.resolve_left ?_)
      rintro ⟨-, ⟨⟩⟩
    | markUnhealthy i status =>
      refine Or.inr (hrest.resolve_left ?_)
      rintro ⟨-, ⟨⟩⟩
    | _ => exact hrest

/-- A call is made with a key that has been acquired. -/
theorem acquired_of_mem_callsOf {key : KeySlot} {call : UpstreamCall} {result : Except String Reply}
    {slot : Option KeySlot} {tr : Trace Answer} (h : (some key, call, result) ∈ callsOf slot tr) :
    slot = some key ∨ ∃ preferred, ⟨.acquireKey preferred, some key⟩ ∈ tr := by
  induction tr generalizing slot with
  | nil => cases h
  | cons y tr ih =>
    obtain ⟨e, r⟩ := y
    have hlater : ∀ slot', (some key, call, result) ∈ callsOf slot' tr → slot' = slot →
        slot = some key ∨ ∃ preferred, ⟨.acquireKey preferred, some key⟩ ∈ ⟨e, r⟩ :: tr := by
      rintro slot' hin rfl
      rcases ih hin with hslot | ⟨preferred, hmem⟩
      · exact Or.inl hslot
      · exact Or.inr ⟨preferred, List.mem_cons_of_mem _ hmem⟩
    cases e with
    | send call' =>
      rcases List.mem_cons.1 h with heq | h
      · cases heq
        exact Or.inl rfl
      · exact hlater slot h rfl
    | acquireKey preferred =>
      rcases ih h with hslot | ⟨preferred', hmem⟩
      · cases r with
        | none => exact Or.inl hslot
        | some acquired =>
          obtain rfl : acquired = key := Option.some.inj hslot
          exact Or.inr ⟨preferred, List.mem_cons_self⟩
      · exact Or.inr ⟨preferred', List.mem_cons_of_mem _ hmem⟩
    | _ => exact hlater slot h rfl

namespace Task

variable {env : Env} {t t' : Task} {ev : TaskEvent}

/-- What is left of a handler is what its trace has left of it. -/
def Traced (env : Env) (t : Task) : Prop :=
  ∀ p, t.phase = .running p → Run (handler env t.api t.req) t.trace p

theorem Traced.step (h : Traced env t) (hst : Step env t ev t') : Traced env t' := by
  cases hst with
  | @answer e k r running =>
    intro p hp
    cases hp
    exact (h _ running).append (.cons r (.nil _))
  | _ => nofun

/-- **A handler marks a key unhealthy only when its last call, made with this key, has failed.** -/
theorem Traced.failed (h : Traced env t) {j status : ℕ} {k : Unit → Handler Response}
    (running : t.phase = .running (.vis (.markUnhealthy j status) k)) :
    ∃ slot call result, (callsOf none t.trace).getLast? = some (some slot, call, result) ∧
      slot.index = j ∧ call.key = slot.key ∧ verdictOn t.api result = some (.unhealthy status) := by
  have hkeeps := keeps_handler env t.api t.req
  have hrun := h _ running
  have hkeyed := (keeps_run hrun hkeeps).1
  have howed : (after (Ledger.add t.api) {} t.trace).owed = some (j, .unhealthy status) :=
    (hkeeps.run hrun).1
  rcases last_of_owed howed with ⟨-, hnone⟩ | ⟨⟨slot, call, result⟩, hlast, hverdict⟩
  · cases hnone
  · obtain ⟨key, hkey, hcallKey⟩ := hkeyed _ (List.mem_of_getLast? hlast)
    cases hkey
    obtain ⟨v, hv, heq⟩ := Option.map_eq_some_iff.1 hverdict
    cases heq
    exact ⟨key, call, result, hlast, rfl, hcallKey, hv⟩

end Task

/-! ### The invariant -/

namespace Fleet

variable {env : Env} {s₀ s s' : Fleet} {l : FleetEvent} {j : ℕ} {e : KeyEntry}

/-- The keys stay as they are, every slot handed out names one of them, and every entry that is not
healthy is blamed on a failed call with its key. -/
structure Inv (env : Env) (s₀ : Fleet) (s : Fleet) : Prop where
  reached : Runs.Leads (Step env) s₀ s
  traced : ∀ i, (s.tasks i).Traced env
  ids : s.pool.ids = s₀.pool.ids
  slots : ∀ i preferred slot, ⟨.acquireKey preferred, some slot⟩ ∈ (s.tasks i).trace →
    s₀.pool.ids[slot.index]? = some (slot.name, slot.key)
  blamed : ∀ j e, s.pool.entries[j]? = some e → Blamed env s₀ s j e

theorem Step.blamed_mono (hst : Step env s l s') (h : Blamed env s₀ s j e) :
    Blamed env s₀ s' j e := by
  intro hout
  obtain ⟨status, t, ⟨s₁, s₂, i, hbefore, hlast, hmark, hafter⟩, herror, ht, hcooldown⟩ := h hout
  have hclock : s.clock ≤ s'.clock := by
    rw [hst.clock]
    exact hst.later
  exact ⟨status, t, ⟨s₁, s₂, i, hbefore, hlast, hmark, hafter.trans (.one hst)⟩, herror,
    ht.trans hclock, hcooldown⟩

/-- An entry of a pool in which one entry has been changed. -/
theorem entry_of_modifyEntry {p : KeyPool} {i : ℕ} {f : KeyEntry → KeyEntry}
    (h : (p.modifyEntry i f).entries[j]? = some e) :
    p.entries[j]? = some e ∨ i = j ∧ ∃ e', p.entries[j]? = some e' ∧ e = f e' := by
  simp only [KeyPool.modifyEntry, List.getElem?_modify] at h
  obtain ⟨e', he', heq⟩ := Option.map_eq_some_iff.1 h
  split_ifs at heq with hij
  · exact Or.inr ⟨hij, e', he', heq.symm⟩
  · exact Or.inl (he'.trans (congrArg some heq))

/-- An entry after a step is one from before, or healthy, or has just been marked by the request. -/
theorem Step.entry_cases (hst : Step env s l s') (he : s'.pool.entries[j]? = some e) :
    s.pool.entries[j]? = some e ∨ e.healthy = true ∨
      ∃ status k e', (s.tasks l.request).phase = .running (.vis (.markUnhealthy j status) k) ∧
        l.event = .answer (.markUnhealthy j status) () ∧
        s.pool.entries[j]? = some e' ∧ e = e'.markUnhealthy l.now (cooldownForStatus status) := by
  have hmove := hst.pool
  have htask := hst.task
  have hsame : s'.pool = s.pool → s.pool.entries[j]? = some e := by
    intro heq
    rw [← heq]
    exact he
  have hhealthy : ∀ i, s'.pool.entries = (s.pool.modifyEntry i KeyEntry.markHealthy).entries →
      s.pool.entries[j]? = some e ∨ e.healthy = true := by
    intro i heq
    rw [heq] at he
    rcases entry_of_modifyEntry he with he | ⟨-, e', -, rfl⟩
    · exact Or.inl he
    · exact Or.inr rfl
  generalize l.event = ev at hmove htask ⊢
  generalize s'.tasks l.request = t' at htask
  cases htask with
  | @answer eff k r running =>
    cases eff with
    | acquireKey preferred =>
      have hpool : s'.pool = (s.pool.acquire l.now preferred).2 := congrArg Prod.snd hmove
      rcases s.pool.acquire_cases l.now preferred with ⟨i, cursor, -, -, hacquired⟩ | ⟨-, hnone⟩
      · rcases hhealthy i (by rw [hpool, hacquired]) with h | h
        · exact Or.inl h
        · exact Or.inr (Or.inl h)
      · exact Or.inl (hsame (by rw [hpool, hnone]))
    | markHealthy i =>
      rcases hhealthy i (congrArg KeyPool.entries hmove) with h | h
      · exact Or.inl h
      · exact Or.inr (Or.inl h)
    | markUnhealthy i status =>
      have hpool : s'.pool = s.pool.markUnhealthy l.now i status := hmove
      rw [hpool] at he
      rcases entry_of_modifyEntry he with he | ⟨rfl, e', he', rfl⟩
      · exact Or.inl he
      · exact Or.inr (Or.inr ⟨status, k, e', running, rfl, he', rfl⟩)
    | keypoolTotal => exact Or.inl (hsame hmove.2)
    | _ => exact Or.inl (hsame hmove)
  | _ => exact Or.inl (hsame hmove)

theorem Step.ids_eq (hst : Step env s l s') : s'.pool.ids = s.pool.ids := by
  have hmove := hst.pool
  have htask := hst.task
  generalize l.event = ev at hmove htask
  generalize s'.tasks l.request = t' at htask
  cases htask with
  | @answer eff k r running =>
    cases eff with
    | acquireKey preferred =>
      have hpool : s'.pool = (s.pool.acquire l.now preferred).2 := congrArg Prod.snd hmove
      rw [hpool, KeyPool.ids_acquire]
    | markHealthy i =>
      have hpool : s'.pool = s.pool.markHealthy i := hmove
      rw [hpool, KeyPool.ids_markHealthy]
    | markUnhealthy i status =>
      have hpool : s'.pool = s.pool.markUnhealthy l.now i status := hmove
      rw [hpool, KeyPool.ids_markUnhealthy]
    | keypoolTotal => exact congrArg KeyPool.ids hmove.2
    | _ => exact congrArg KeyPool.ids hmove
  | _ => exact congrArg KeyPool.ids hmove

/-- A slot in a trace was there before the step, or has just been handed out. -/
theorem Step.slot_cases (hst : Step env s l s') {i : ℕ} {preferred : Option ℕ} {slot : KeySlot}
    (hmem : ⟨.acquireKey preferred, some slot⟩ ∈ (s'.tasks i).trace) :
    ⟨.acquireKey preferred, some slot⟩ ∈ (s.tasks i).trace ∨
      (s.pool.acquire l.now preferred).1 = some slot := by
  by_cases hi : i = l.request
  · subst hi
    have hmove := hst.pool
    have htask := hst.task
    generalize l.event = ev at hmove htask
    generalize s'.tasks l.request = t' at hmem htask
    cases htask with
    | @answer eff k r running =>
      rcases List.mem_append.1 hmem with hmem | hmem
      · exact Or.inl hmem
      · cases List.mem_singleton.1 hmem
        exact Or.inr (congrArg Prod.fst hmove).symm
    | @chunk p bytes now streaming =>
      rcases List.mem_append.1 hmem with hmem | hmem
      · exact Or.inl hmem
      · cases List.mem_singleton.1 hmem
    | @endOfStream p now streaming =>
      rcases List.mem_append.1 hmem with hmem | hmem
      · exact Or.inl hmem
      · simp at hmem
    | _ => exact Or.inl hmem
  · rw [hst.others i hi] at hmem
    exact Or.inl hmem

/-- **Every step keeps the invariant.** -/
theorem Inv.step (h : Inv env s₀ s) (hst : Step env s l s') : Inv env s₀ s' := by
  refine ⟨h.reached.trans (.one hst), fun i => ?_, hst.ids_eq.trans h.ids,
    fun i preferred slot hmem => ?_, fun j e he => ?_⟩
  · by_cases hi : i = l.request
    · subst hi
      exact (h.traced _).step hst.task
    · rw [hst.others i hi]
      exact h.traced i
  · rcases hst.slot_cases hmem with hmem | hslot
    · exact h.slots i preferred slot hmem
    · rw [← h.ids]
      exact KeyPool.ids_of_acquire hslot
  · rcases hst.entry_cases he with hold | hhealthy | ⟨status, k, e', running, hevent, he', rfl⟩
    · exact hst.blamed_mono (h.blamed j e hold)
    · intro hout
      rw [hhealthy] at hout
      cases hout
    · intro _
      obtain ⟨slot, call, result, hlast, rfl, hkey, hv⟩ := (h.traced l.request).failed running
      -- the key of the call is the key of the entry
      have hid : s₀.pool.ids[slot.index]? = some (slot.name, slot.key) := by
        rcases acquired_of_mem_callsOf (List.mem_of_getLast? hlast) with hnone | ⟨preferred, hmem⟩
        · cases hnone
        · exact h.slots _ preferred slot hmem
      have hentry : e'.key = slot.key := by
        rw [← h.ids, KeyPool.ids, List.getElem?_map, he'] at hid
        exact congrArg Prod.snd (Option.some.inj hid)
      have hfailed : (s.tasks l.request).LastFailed slot.index e'.key status :=
        ⟨slot, call, result, hlast, rfl, hkey.trans hentry.symm, hv⟩
      obtain ⟨request, now, event⟩ := l
      obtain rfl : event = .answer (.markUnhealthy slot.index status) () := hevent
      have hat : FailedAt env s₀ s' slot.index e'.key status now :=
        ⟨s, s', request, h.reached, hfailed, hst, .refl s'⟩
      exact ⟨status, now, hat, rfl, hst.clock.ge, rfl⟩

theorem inv_start (env : Env) {p : KeyPool} (hp : ∀ e ∈ p.entries, e.healthy = true)
    (api : ℕ → ApiFormat) (req : ℕ → Request) :
    Inv env (start env p api req) (start env p api req) := by
  refine ⟨.refl _, fun i q hq => ?_, rfl, fun i preferred slot hmem => ?_, fun j e he hout => ?_⟩
  · cases hq
    exact .nil _
  · cases hmem
  · rw [hp e (List.mem_of_getElem? he)] at hout
    cases hout

theorem cooldownForStatus_le (status : ℕ) : cooldownForStatus status ≤ seconds 60 := by
  unfold cooldownForStatus seconds
  split_ifs <;> omega

/-- An entry that is blamed, with a key. -/
theorem Blamed.usable (h : Blamed env s₀ s j e) (he : s.pool.entries[j]? = some e)
    (hkey : e.key ≠ "") (now : ℕ) :
    s.pool.usableAt now j = true ∨ ∃ status t, FailedAt env s₀ s j e.key status t ∧ t ≤ s.clock ∧
      now < t + cooldownForStatus status := by
  by_cases hu : e.isUsable now = true
  · exact Or.inl (KeyPool.usableAt_iff.2 ⟨e, he, hu⟩)
  · right
    simp only [KeyEntry.isUsable, hkey, ne_eq, not_false_eq_true, decide_true, Bool.true_and,
      Bool.or_eq_true, not_or, Bool.not_eq_true] at hu
    obtain ⟨status, t, hfailed, herror, ht, hcooldown⟩ := h hu.1
    refine ⟨status, t, hfailed, ht, ?_⟩
    have hpast := hu.2
    rw [KeyEntry.isPastCooldown, herror, hcooldown] at hpast
    have hlate : ¬ cooldownForStatus status ≤ now - t := of_decide_eq_false hpast
    omega

/-- **A key is out of service only after a failure of its own**: in any run of any number of
requests that share a pool whose keys were all healthy, a key that cannot be acquired at some
instant was reported, less than a cooldown before that instant, by a request whose last call had
been made with this very key and had failed with the status of the cooldown; a minute after the
last step every key serves again. So a request finds no key only when every key has failed less
than its cooldown ago. -/
theorem out_only_after_failure {p : KeyPool} (hp : ∀ e ∈ p.entries, e.healthy = true)
    {api : ℕ → ApiFormat} {req : ℕ → Request}
    (h : Runs.Leads (Step env) (start env p api req) s) (now : ℕ) :
    (∀ j name key, p.ids[j]? = some (name, key) → key ≠ "" →
      (s.pool.usableAt now j = false →
        ∃ status t, FailedAt env (start env p api req) s j key status t ∧ t ≤ s.clock ∧
          now < t + cooldownForStatus status) ∧
      (s.clock + seconds 60 ≤ now → s.pool.usableAt now j = true)) ∧
    ∀ preferred, (s.pool.acquire now preferred).1 = none →
      ∀ j name key, p.ids[j]? = some (name, key) → key ≠ "" →
        ∃ status t, FailedAt env (start env p api req) s j key status t ∧ t ≤ s.clock ∧
          now < t + cooldownForStatus status := by
  have hinv : Inv env (start env p api req) s :=
    h.inv (fun _ _ _ hi hst => hi.step hst) (inv_start env hp api req)
  have hkeys : ∀ j name key, p.ids[j]? = some (name, key) → key ≠ "" →
      s.pool.usableAt now j = true ∨
        ∃ status t, FailedAt env (start env p api req) s j key status t ∧ t ≤ s.clock ∧
          now < t + cooldownForStatus status := by
    intro j name key hj hkey
    have hids : s.pool.ids = p.ids := hinv.ids
    rw [← hids, KeyPool.ids, List.getElem?_map] at hj
    obtain ⟨e, he, hid⟩ := Option.map_eq_some_iff.1 hj
    cases hid
    exact (hinv.blamed j e he).usable he hkey now
  have hout : ∀ j name key, p.ids[j]? = some (name, key) → key ≠ "" →
      s.pool.usableAt now j = false →
        ∃ status t, FailedAt env (start env p api req) s j key status t ∧ t ≤ s.clock ∧
          now < t + cooldownForStatus status := by
    intro j name key hj hkey hu
    refine (hkeys j name key hj hkey).resolve_left ?_
    rw [hu]
    exact Bool.false_ne_true
  refine ⟨fun j name key hj hkey => ⟨hout j name key hj hkey, fun hlate => ?_⟩,
    fun preferred hnone j name key hj hkey => hout j name key hj hkey ?_⟩
  · refine (hkeys j name key hj hkey).resolve_right ?_
    rintro ⟨status, t, -, ht, hearly⟩
    have hle := cooldownForStatus_le status
    omega
  · rcases s.pool.acquire_spec now preferred with ⟨slot, hslot, -⟩ | ⟨-, hno⟩
    · rw [hnone] at hslot
      cases hslot
    · exact hno j

/-! ### A particular run -/

/-- The pool answers what it is asked; upstream replies always in the same way. -/
def sharedAnswers (reply : Reply) (now : ℕ) (e : Eff) (p : KeyPool) : Option (Answer e × KeyPool) :=
  match e with
  | .acquireKey preferred => some (p.acquire now preferred)
  | .markHealthy i => some ((), p.markHealthy i)
  | .markUnhealthy i status => some ((), p.markUnhealthy now i status)
  | .keypoolTotal => some (p.total, p)
  | e => (Task.sampleAnswers (.ok reply) e).map fun r => (r, p)

theorem poolMove_of_sharedAnswers {reply : Reply} {now : ℕ} {eff : Eff} {p q : KeyPool}
    {r : Answer eff} (h : sharedAnswers reply now eff p = some (r, q)) :
    PoolMove now p (.answer eff r) q := by
  cases eff with
  | acquireKey preferred => exact (Option.some.inj h).symm
  | markHealthy i => exact (congrArg Prod.snd (Option.some.inj h)).symm
  | markUnhealthy i status => exact (congrArg Prod.snd (Option.some.inj h)).symm
  | keypoolTotal =>
    cases h
    exact ⟨rfl, rfl⟩
  | _ =>
    simp only [sharedAnswers, Option.map_eq_some_iff] at h
    obtain ⟨_, -, heq⟩ := h
    exact (congrArg Prod.snd heq).symm

/-- A task that moves, with nobody else about. -/
theorem Step.exists_of_task {i now : ℕ} {ev : TaskEvent} {t : Task} {pool : KeyPool}
    (ht : Task.Step env (s.tasks i) ev t) (hmove : PoolMove now s.pool ev pool)
    (hclock : s.clock ≤ now) :
    ∃ s', Step env s ⟨i, now, ev⟩ s' ∧ s'.tasks i = t ∧ s'.pool = pool ∧ s'.clock = now := by
  have hself : Function.update s.tasks i t i = t := Function.update_self i t s.tasks
  refine ⟨⟨Function.update s.tasks i t, pool, now⟩, ?_, hself, rfl, rfl⟩
  refine ⟨?_, fun j hj => Function.update_of_ne hj _ _, hmove, hclock, rfl⟩
  simpa only [hself] using ht

/-- A handler that runs to its end, with nobody else about. -/
theorem leads_exec {reply : Reply} {now i : ℕ} {q : Handler Response} {resp : Response}
    {pool : KeyPool} (hq : (s.tasks i).phase = .running q) (hclock : s.clock ≤ now)
    (h : exec (sharedAnswers reply now) q s.pool = some (resp, pool)) :
    ∃ s', Runs.Leads (Step env) s s' ∧ s'.pool = pool := by
  induction q generalizing s with
  | ret a =>
    cases h
    exact ⟨s, .refl s, rfl⟩
  | vis eff k ih =>
    obtain ⟨⟨r, pool'⟩, hr, hrest⟩ := Option.bind_eq_some_iff.1 h
    have ht : Task.Step env (s.tasks i) (.answer eff r) _ := .answer r hq
    obtain ⟨s₁, hst, htask, rfl, hnow⟩ :=
      Step.exists_of_task ht (poolMove_of_sharedAnswers hr) hclock
    obtain ⟨s', hs', hpool⟩ := ih r (by rw [htask]) hnow.le hrest
    exact ⟨s', .head hst hs', hpool⟩

/-- One key, and upstream is unavailable. -/
theorem out_only_after_failure_unavailable :
    ∃ s₀ s, s₀ = start Task.sampleEnv (.new [.fromConfig ⟨"main", "sk-1", ""⟩])
        (fun _ => .anthropic) (fun _ => Task.emptyRequest) ∧
      Runs.Leads (Step Task.sampleEnv) s₀ s ∧ (s.pool.acquire 6 none).1 = none ∧
      ∃ status t, FailedAt Task.sampleEnv s₀ s 0 "sk-1" status t ∧ t ≤ s.clock ∧
        6 < t + cooldownForStatus status := by
  obtain ⟨s, hs, hpool⟩ := @leads_exec Task.sampleEnv (start Task.sampleEnv
    (.new [.fromConfig ⟨"main", "sk-1", ""⟩]) (fun _ => .anthropic) fun _ => Task.emptyRequest)
    ⟨503, []⟩ 5 0 _ _ _ rfl (Nat.zero_le 5) rfl
  have hnone : (s.pool.acquire 6 none).1 = none := by
    rw [hpool]
    rfl
  have hhealthy : ∀ e ∈ [KeyEntry.fromConfig ⟨"main", "sk-1", ""⟩], e.healthy = true := by
    simp [KeyEntry.fromConfig]
  exact ⟨_, s, rfl, hs, hnone,
    (out_only_after_failure hhealthy hs 6).2 none hnone 0 "main" "sk-1" rfl (by decide)⟩

end Fleet
end Mybro
