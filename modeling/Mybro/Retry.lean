import Mybro.Account
import Mybro.Lib.Runs

/-!
# The retry loop (`routes/chat.rs`)

One request of the OpenAI pipeline against given surroundings: the outcomes of its upstream calls,
the clocks, and what other requests do to the key pool in the meantime (`Surroundings`). Its effects
are interpreted in a `RetryWorld`, which keeps the key pool and a log of the calls, marks, waits and
records.

`chat_retries` says what the log is for every sequence of outcomes: how many attempts there are,
which key each one uses, and what is recorded and sent back at the end.
-/

namespace Mybro

open Value Prog

/-! ### Outcomes -/

/-- The outcome of an upstream call: a network error, or a reply with its body, if that can be read.
-/
abbrev Outcome := Except String (Reply × Option (List UInt8))

namespace Outcome

/-- The status a retryable failure is marked with. -/
def failure : Outcome → Option ℕ
  | .error _ => some 502
  | .ok (reply, _) => if reply.status = 500 ∨ reply.status = 503 then some reply.status else none

/-- A network error, 500 or 503. -/
def Retryable (o : Outcome) : Prop := o.failure ≠ none

instance (o : Outcome) : Decidable o.Retryable := by unfold Retryable; infer_instance

/-- The status recorded for the last outcome; the record of an event stream is stored when it ends.
-/
def recorded : Outcome → Option ℕ
  | .error _ => some 502
  | .ok (reply, _) =>
    if reply.isEventStream then none
    else if isSuccess reply.status then some 200
    else some reply.status

/-- What the client is sent for the last outcome. For a network error it is the proxy's own error
object, whose status is left open. -/
def Forwarded (stream : Bool) (slot : KeySlot) : Outcome → Response → Prop
  | .error err, resp =>
    resp.body = (openaiError 502 ("Upstream error: " ++ err) "upstream_error").body
  | .ok (reply, body), resp =>
    if reply.isEventStream then
      resp.status = 200 ∧
        ∃ p, resp.body = .stream p ∧ p.record.status = 200 ∧ p.record.keyName = slot.name
    else if isSuccess reply.status then
      resp = if stream then wrapJsonAsSse (body.getD [])
        else ⟨200, [header "content-type" "application/json"], .bytes (body.getD []), none⟩
    else if reply.status = 500 ∨ reply.status = 503 then
      resp = ⟨reply.status, [header "content-type" "application/json"],
        .bytes (Utf8.encode (Utf8.lossy (body.getD []))), none⟩
    else resp = ⟨reply.status, reply.headers, .bytes (body.getD []), none⟩

end Outcome

/-! ### The world of a request -/

/-- What the log keeps of an effect. -/
inductive RetryEvent
  | counted (total : ℕ)
  | acquired (before : KeyPool) (now : ℕ)
  | sent (key : String)
  | unhealthy (index status : ℕ)
  | healthy (index : ℕ)
  | slept (ms : ℕ)
  | recorded (status : ℕ) (keyName : String)
  deriving DecidableEq

/-- What a request meets: the outcome of its `k`-th upstream call, counted from 1, and at its `n`-th
effect the readings of the clocks, what others have done to the pool, and the other answers. -/
structure Surroundings where
  outcome : ℕ → Outcome
  clock : ℕ → ℕ
  unixMillis : ℕ → UInt64
  localTime : ℕ → String
  meanwhile : ℕ → KeyPool → KeyPool
  config : ℕ → Config
  catalog : ℕ → Option Catalog
  admitted : ℕ → Bool
  touched : ℕ → Option TouchResult
  tracked : ℕ → TouchResult
  descriptions : ℕ → (n : ℕ) → List.Vector String n

/-- The key pool, the numbers of effects and of upstream calls so far, and the log. -/
structure RetryWorld where
  pool : KeyPool
  effects : ℕ
  calls : ℕ
  log : List RetryEvent

namespace Surroundings

variable (w : Surroundings)

/-- Time passes before an effect, and others use the pool. -/
def pass (s : RetryWorld) : RetryWorld :=
  { s with pool := w.meanwhile s.effects s.pool, effects := s.effects + 1 }

/-- The answer to an effect and the world after it. -/
def answer : (e : Eff) → RetryWorld → Option (Answer e × RetryWorld)
  | .config, s => some (w.config s.effects, s)
  | .catalog, s => some (w.catalog s.effects, s)
  | .keypoolTotal, s => some (s.pool.total, { s with log := s.log ++ [.counted s.pool.total] })
  | .acquireKey preferred, s =>
    some ((s.pool.acquire (w.clock s.effects) preferred).1,
      { s with
        pool := (s.pool.acquire (w.clock s.effects) preferred).2
        log := s.log ++ [.acquired s.pool (w.clock s.effects)] })
  | .markHealthy i, s =>
    some ((), { s with pool := s.pool.markHealthy i, log := s.log ++ [.healthy i] })
  | .markUnhealthy i status, s =>
    some ((), { s with
      pool := s.pool.markUnhealthy (w.clock s.effects) i status
      log := s.log ++ [.unhealthy i status] })
  | .gateAcquire, s => some (w.admitted s.effects, s)
  | .bumpThrottled, s => some ((), s)
  | .touch _, s => some (w.touched s.effects, s)
  | .track _ _, s => some (w.tracked s.effects, s)
  | .analyzeImages dataUris _ _, s => some (w.descriptions s.effects dataUris.length, s)
  | .send call, s =>
    some ((w.outcome (s.calls + 1)).map Prod.fst,
      { s with calls := s.calls + 1, log := s.log ++ [.sent call.key] })
  | .readBody, s =>
    some (match w.outcome s.calls with
      | .ok (_, body) => body
      | .error _ => none, s)
  | .sleep ms, s => some ((), { s with log := s.log ++ [.slept ms] })
  | .instant, s => some (w.clock s.effects, s)
  | .unixMillis, s => some (w.unixMillis s.effects, s)
  | .localTime, s => some (w.localTime s.effects, s)
  | .record r, s => some ((), { s with log := s.log ++ [.recorded r.status r.keyName] })
  | .logError _, s => some ((), s)
  | .info _, s => some ((), s)
  | .abort _, _ => none

/-- The meaning of an effect. -/
def handle (e : Eff) (s : RetryWorld) : Option (Answer e × RetryWorld) := w.answer e (w.pass s)

/-- Nobody rebuilds the pool: others may use and mark the entries, but they stay the same entries.
-/
def NoRebuild : Prop := ∀ n p, (w.meanwhile n p).ids = p.ids

end Surroundings

/-! ### Attempts -/

/-- How an attempt came by its key: the size of the pool it saw, the pool and the time at which it
acquired a key, if it did, and the key it used. -/
structure Turn where
  total : ℕ
  before : KeyPool
  time : ℕ
  slot : KeySlot

/-- The attempt `k`, after one with the key `previous`, uses that key again if it is the first one,
the pool has one entry or none is usable, and an entry that is usable otherwise. -/
structure Turn.Chosen (k : ℕ) (previous : KeySlot) (t : Turn) : Prop where
  kept : k = 1 ∨ t.total ≤ 1 ∨ (∀ idx, t.before.usableAt t.time idx = false) → t.slot = previous
  usable : 1 < k → 1 < t.total → (∃ idx, t.before.usableAt t.time idx = true) →
    t.before.usableAt t.time t.slot.index = true ∧ t.before.slotAt t.slot.index = some t.slot

/-- Consecutive attempts from `k` on, after one with the key `previous`. -/
def ChosenFrom : ℕ → KeySlot → List Turn → Prop
  | _, _, [] => True
  | k, previous, t :: ts => t.Chosen k previous ∧ ChosenFrom (k + 1) t.slot ts

/-- The events of the key rotation before the attempt `k`. -/
def rotationEvents (k : ℕ) (t : Turn) : List RetryEvent :=
  if 1 < k then
    .counted t.total :: if 1 < t.total then [.acquired t.before t.time] else []
  else []

/-- The marks for an outcome: a retryable failure marks the key unhealthy, a success healthy. -/
def markEvents (slot : KeySlot) (o : Outcome) : List RetryEvent :=
  match o.failure with
  | some status => [.unhealthy slot.index status]
  | none =>
    match o with
    | .ok (reply, _) => if isSuccess reply.status then [.healthy slot.index] else []
    | .error _ => []

/-- The events of the attempt `k` up to its outcome. -/
def attemptEvents (w : Surroundings) (k : ℕ) (t : Turn) : List RetryEvent :=
  rotationEvents k t ++ .sent t.slot.key :: markEvents t.slot (w.outcome k)

/-- The events of the attempts from `k` on that are followed by another one. -/
def failedEvents (w : Surroundings) : ℕ → List Turn → List RetryEvent
  | _, [] => []
  | k, t :: ts => attemptEvents w k t ++ .slept (3000 * k) :: failedEvents w (k + 1) ts

/-- The record stored for the last outcome, under the name of its key, if one is stored then. -/
def recordEvents (slot : KeySlot) (o : Outcome) : List RetryEvent :=
  (o.recorded.map fun status => RetryEvent.recorded status slot.name).toList

/-- The events of the last attempt `k`. -/
def lastEvents (w : Surroundings) (k : ℕ) (t : Turn) : List RetryEvent :=
  attemptEvents w k t ++ recordEvents t.slot (w.outcome k)

/-- **What the retry loop does** from the attempt `k` on, with the key `slot` of the attempt before:
it starts in the world `s`, makes the attempts `failed` and then `last`, ends in the world `s'` and
returns `resp`. -/
structure Retried (w : Surroundings) (stream : Bool) (k : ℕ) (slot : KeySlot) (s : RetryWorld)
    (resp : Response) (s' : RetryWorld) (failed : List Turn) (last : Turn) : Prop where
  calls : s'.calls = k + failed.length
  calls_le : s'.calls ≤ maxRetries
  failures : ∀ j, k ≤ j → j < s'.calls → (w.outcome j).Retryable
  stopped : s'.calls = maxRetries ∨ ¬ (w.outcome s'.calls).Retryable
  log : s'.log = s.log ++ failedEvents w k failed ++ lastEvents w s'.calls last
  chosen : ChosenFrom k slot (failed ++ [last])
  forwarded : (w.outcome s'.calls).Forwarded stream last.slot resp
  held : w.NoRebuild → s.pool.ids[slot.index]? = some (slot.name, slot.key) →
    ∀ t ∈ failed ++ [last], s.pool.ids[t.slot.index]? = some (t.slot.name, t.slot.key)

/-! ### Parts of an attempt -/

section Parts

variable {w : Surroundings} {s : RetryWorld}

/-- No effect adds, removes or renames an entry unless others do. -/
theorem ids_handle (hw : w.NoRebuild) {ids : List (String × String)} (e : Eff) (s : RetryWorld)
    (r : Answer e) (t : RetryWorld) (hs : s.pool.ids = ids) (h : w.handle e s = some (r, t)) :
    t.pool.ids = ids := by
  have hpass : (w.pass s).pool.ids = ids := (hw s.effects s.pool).trans hs
  unfold Surroundings.handle at h
  generalize w.pass s = s at h hpass
  cases e with
  | acquireKey preferred =>
    cases h
    exact (KeyPool.ids_acquire _ _ _).trans hpass
  | markHealthy i =>
    cases h
    exact (KeyPool.ids_markHealthy _ _).trans hpass
  | markUnhealthy i status =>
    cases h
    exact (KeyPool.ids_markUnhealthy _ _ _ _).trans hpass
  | abort site => cases h
  | _ =>
    cases h
    exact hpass

theorem ids_exec (hw : w.NoRebuild) {α : Type} {p : Handler α} {a : α} {t : RetryWorld}
    (h : exec w.handle p s = some (a, t)) : t.pool.ids = s.pool.ids :=
  exec_inv w.handle (ids_handle hw) rfl h

/-- Without a rebuild, the key of the attempt is that of the attempt before, or one from the pool.
-/
def Turn.Held (w : Surroundings) (s : RetryWorld) (slot : KeySlot) (t : Turn) : Prop :=
  w.NoRebuild → t.slot = slot ∨ s.pool.ids[t.slot.index]? = some (t.slot.name, t.slot.key)

theorem Turn.Held.entry {slot : KeySlot} {t : Turn} (h : t.Held w s slot) (hw : w.NoRebuild)
    (hslot : s.pool.ids[slot.index]? = some (slot.name, slot.key)) :
    s.pool.ids[t.slot.index]? = some (t.slot.name, t.slot.key) := by
  rcases h hw with heq | hids
  · rw [heq]
    exact hslot
  · exact hids

/-- The acquisition of another key: an entry that is usable at that moment, or the key in hand when
there is none. -/
theorem exec_acquireKey (slot : KeySlot) :
    ∃ (before : KeyPool) (now : ℕ) (next : KeySlot) (s' : RetryWorld),
      exec w.handle (perform (.acquireKey none) >>= fun next => pure (Option.getD next slot)) s =
        some (next, s') ∧
      s'.calls = s.calls ∧ s'.log = s.log ++ [.acquired before now] ∧
      (w.NoRebuild → before.ids = s.pool.ids) ∧
      ((before.usableAt now next.index = true ∧ before.slotAt next.index = some next) ∨
        ((∀ idx, before.usableAt now idx = false) ∧ next = slot)) := by
  have hacquire : w.handle (.acquireKey none) s =
      some (((w.pass s).pool.acquire (w.clock (w.pass s).effects) none).1,
        { w.pass s with
          pool := ((w.pass s).pool.acquire (w.clock (w.pass s).effects) none).2
          log := s.log ++ [.acquired (w.pass s).pool (w.clock (w.pass s).effects)] }) := rfl
  refine ⟨(w.pass s).pool, w.clock (w.pass s).effects, ?_⟩
  rw [exec_perform_of _ hacquire]
  have hids : w.NoRebuild → (w.pass s).pool.ids = s.pool.ids := fun hw => hw s.effects s.pool
  rcases (w.pass s).pool.acquire_spec (w.clock (w.pass s).effects) none with
    ⟨next, hnext, husable, hslot⟩ | ⟨hnext, hnone⟩
  · rw [hnext]
    exact ⟨next, _, rfl, rfl, rfl, hids, Or.inl ⟨husable, hslot⟩⟩
  · rw [hnext]
    exact ⟨slot, _, rfl, rfl, rfl, hids, Or.inr ⟨hnone, rfl⟩⟩

/-- **The key rotation**: the log tells what it looked at. -/
theorem exec_rotate (k : ℕ) (slot : KeySlot) :
    ∃ (t : Turn) (s₁ : RetryWorld), exec w.handle (rotate k slot) s = some (t.slot, s₁) ∧
      t.Chosen k slot ∧ s₁.calls = s.calls ∧ s₁.log = s.log ++ rotationEvents k t ∧
      t.Held w s slot := by
  unfold rotate
  by_cases hk : 1 < k
  · rw [if_pos hk]
    have hcount : w.handle .keypoolTotal s = some ((w.pass s).pool.total,
      { w.pass s with log := s.log ++ [.counted (w.pass s).pool.total] }) := rfl
    rw [exec_perform_of _ hcount]
    generalize (w.pass s).pool.total = total
    by_cases ht : 1 < total
    · rw [if_pos ht]
      obtain ⟨before, now, next, s', hexec, hcalls, hlog, hids, hnext⟩ :=
        @exec_acquireKey w { w.pass s with log := s.log ++ [.counted total] } slot
      have hevents : s'.log = s.log ++ rotationEvents k ⟨total, before, now, next⟩ := by
        rw [hlog, rotationEvents, if_pos hk, if_pos ht, List.append_assoc]
        rfl
      refine ⟨⟨total, before, now, next⟩, s', hexec, ?_, hcalls, hevents, fun hw => ?_⟩
      · rcases hnext with hnext | ⟨hnone, rfl⟩
        · refine ⟨?_, fun _ _ _ => hnext⟩
          rintro (rfl | h1 | hnone)
          · exact absurd hk (lt_irrefl 1)
          · exact absurd ht (Nat.not_lt.2 h1)
          · have hfalse : before.usableAt now next.index = false := hnone next.index
            rw [hnext.1] at hfalse
            cases hfalse
        · -- nothing was usable, so the key in hand is kept
          refine ⟨fun _ => rfl, ?_⟩
          rintro - - ⟨idx, hidx⟩
          rw [hnone idx] at hidx
          cases hidx
      · rcases hnext with hnext | ⟨-, rfl⟩
        · have hbefore : before.ids = s.pool.ids := (hids hw).trans (hw s.effects s.pool)
          rw [← hbefore]
          exact Or.inr (KeyPool.slotAt_eq_some hnext.2).2
        · exact Or.inl rfl
    · rw [if_neg ht]
      refine ⟨⟨total, s.pool, 0, slot⟩, _, rfl, ⟨fun _ => rfl, fun _ h => absurd h ht⟩, rfl, ?_,
        fun _ => Or.inl rfl⟩
      rw [rotationEvents, if_pos hk, if_neg ht]
  · rw [if_neg hk]
    refine ⟨⟨0, s.pool, 0, slot⟩, s, rfl, ⟨fun _ => rfl, fun h => absurd h hk⟩, rfl, ?_,
      fun _ => Or.inl rfl⟩
    rw [rotationEvents, if_neg hk]
    exact (List.append_nil _).symm

/-- The handler's part `p` ends with the given events, makes no call, and returns a response with
`R`. -/
def Ends (w : Surroundings) (s : RetryWorld) (p : Handler Response) (events : List RetryEvent)
    (R : Response → Prop) : Prop :=
  ∃ resp s', exec w.handle p s = some (resp, s') ∧ s'.calls = s.calls ∧ s'.log = s.log ++ events ∧
    R resp

theorem exec_readBodyOrEmpty {reply : Reply} {body : Option (List UInt8)}
    (ho : w.outcome s.calls = .ok (reply, body)) :
    exec w.handle readBodyOrEmpty s = some (body.getD [], w.pass s) := by
  have hread : w.handle .readBody s = some (body, w.pass s) := by
    show some (_, w.pass s) = _
    rw [show (w.pass s).calls = s.calls from rfl, ho]
  unfold readBodyOrEmpty
  rw [exec_perform_of _ hread]
  rfl

theorem exec_readErrorBody {reply : Reply} {body : Option (List UInt8)}
    (ho : w.outcome s.calls = .ok (reply, body)) :
    exec w.handle readErrorBody s = some (Utf8.lossy (body.getD []), w.pass s) := by
  have hread : w.handle .readBody s = some (body, w.pass s) := by
    show some (_, w.pass s) = _
    rw [show (w.pass s).calls = s.calls from rfl, ho]
  unfold readErrorBody
  rw [exec_perform_of _ hread]
  cases body <;> rfl

/-- A 2xx reply. -/
theorem ends_chatSuccess (c : ChatCall) (slot : KeySlot) (upstreamStart : ℕ) {reply : Reply}
    {body : Option (List UInt8)} (ho : w.outcome s.calls = .ok (reply, body))
    (hs : isSuccess reply.status = true) :
    Ends w s (chatSuccess c slot upstreamStart reply)
      (.healthy slot.index :: recordEvents slot (w.outcome s.calls))
      ((w.outcome s.calls).Forwarded c.stream slot) := by
  obtain ⟨s₁, hmark, hcalls, hlog⟩ : ∃ s₁, w.handle (.markHealthy slot.index) s = some ((), s₁) ∧
    s₁.calls = s.calls ∧ s₁.log = s.log ++ [.healthy slot.index] := ⟨_, rfl, rfl, rfl⟩
  unfold chatSuccess Ends
  rw [exec_perform_of _ hmark, ho]
  by_cases hsse : reply.headers.isSse = true
  · have hstream : reply.isEventStream = true := by rw [Reply.isEventStream, hs, hsse]; rfl
    rw [if_pos hsse]
    simp only [recordEvents, Outcome.recorded, Outcome.Forwarded, hstream, if_true]
    exact ⟨_, _, rfl, hcalls, hlog, rfl, _, rfl, rfl, rfl⟩
  · have hstream : ¬ reply.isEventStream = true := by simp [Reply.isEventStream, hsse]
    have ho₁ : w.outcome s₁.calls = .ok (reply, body) := by rw [hcalls, ho]
    rw [if_neg hsse, exec_bind, exec_readBodyOrEmpty ho₁]
    simp only [recordEvents, Outcome.recorded, Outcome.Forwarded, hstream, hs, if_true]
    refine ⟨_, _, rfl, hcalls, ?_, rfl⟩
    show s₁.log ++ _ = _
    rw [hlog, List.append_assoc]
    rfl

/-- A reply that is neither 2xx nor retried. -/
theorem ends_chatOther (c : ChatCall) (slot : KeySlot) {reply : Reply} {body : Option (List UInt8)}
    (ho : w.outcome s.calls = .ok (reply, body)) (hs : ¬ isSuccess reply.status = true)
    (hretry : ¬ (reply.status = 500 ∨ reply.status = 503)) :
    Ends w s (chatOther c slot reply)
      (recordEvents slot (w.outcome s.calls))
      ((w.outcome s.calls).Forwarded c.stream slot) := by
  obtain ⟨s₁, hbump, hcalls, hlog⟩ :
      ∃ s₁, exec w.handle (doIf (reply.status = 429) (perform .bumpThrottled)) s = some ((), s₁) ∧
        s₁.calls = s.calls ∧ s₁.log = s.log := by
    unfold doIf
    split_ifs
    · exact ⟨_, rfl, rfl, rfl⟩
    · exact ⟨_, rfl, rfl, rfl⟩
  have ho₁ : w.outcome s₁.calls = .ok (reply, body) := by rw [hcalls, ho]
  have hstream : ¬ reply.isEventStream = true := by simp [Reply.isEventStream, hs]
  unfold chatOther Ends
  rw [exec_bind, hbump, Option.bind_some, exec_bind, exec_readBodyOrEmpty ho₁, ho]
  simp only [recordEvents, Outcome.recorded, Outcome.Forwarded, hstream, hs, hretry, if_false]
  exact ⟨_, _, rfl, hcalls, congrArg (· ++ _) hlog, rfl⟩

/-- A 500 or 503 on the last attempt. -/
theorem ends_chatExhausted (c : ChatCall) (slot : KeySlot) {reply : Reply}
    {body : Option (List UInt8)} (ho : w.outcome s.calls = .ok (reply, body))
    (hs : ¬ isSuccess reply.status = true) (hretry : reply.status = 500 ∨ reply.status = 503) :
    Ends w s (chatExhausted c slot reply.status (Utf8.lossy (body.getD [])))
      (recordEvents slot (w.outcome s.calls))
      ((w.outcome s.calls).Forwarded c.stream slot) := by
  obtain ⟨s₁, hbump, hcalls, hlog⟩ :
      ∃ s₁, exec w.handle (doIf (reply.status = 503) (perform .bumpThrottled)) s = some ((), s₁) ∧
        s₁.calls = s.calls ∧ s₁.log = s.log := by
    unfold doIf
    split_ifs
    · exact ⟨_, rfl, rfl, rfl⟩
    · exact ⟨_, rfl, rfl, rfl⟩
  have hstream : ¬ reply.isEventStream = true := by simp [Reply.isEventStream, hs]
  unfold chatExhausted Ends
  rw [exec_bind, hbump, Option.bind_some, ho]
  simp only [recordEvents, Outcome.recorded, Outcome.Forwarded, hstream, hs, hretry, if_true]
  exact ⟨_, _, rfl, hcalls, congrArg (· ++ _) hlog, rfl⟩

/-- A network error on the last attempt. -/
theorem ends_chatUnreachable (c : ChatCall) (slot : KeySlot) {err : String}
    (ho : w.outcome s.calls = .error err) :
    Ends w s (chatUnreachable c slot err)
      (recordEvents slot (w.outcome s.calls))
      ((w.outcome s.calls).Forwarded c.stream slot) := by
  rw [ho]
  exact ⟨_, _, rfl, rfl, rfl, rfl⟩

/-- A retryable failure: the key is marked, and the handler gives up on the last attempt, or waits
and goes on. -/
theorem exec_chatFailed (c : ChatCall) {k : ℕ} (hk : 1 ≤ k) (slot : KeySlot) (status : ℕ)
    (errorBody : String) (last again : Handler Response) :
    (k = maxRetries ∧ ∃ s',
      exec w.handle (chatFailed c k slot status errorBody last again) s = exec w.handle last s' ∧
      s'.calls = s.calls ∧ s'.log = s.log ++ [.unhealthy slot.index status]) ∨
    (k ≠ maxRetries ∧ ∃ s',
      exec w.handle (chatFailed c k slot status errorBody last again) s = exec w.handle again s' ∧
      s'.calls = s.calls ∧
      s'.log = s.log ++ [.unhealthy slot.index status, .slept (3000 * k)] ∧
      (w.NoRebuild → s'.pool.ids = s.pool.ids)) := by
  obtain ⟨s₁, hmark, hcalls₁, hlog₁⟩ : ∃ s₁,
      exec w.handle (perform (.markUnhealthy slot.index status) >>= fun _ =>
        chatLogError c k slot status errorBody) s = some ((), s₁) ∧
      s₁.calls = s.calls ∧ s₁.log = s.log ++ [.unhealthy slot.index status] := ⟨_, rfl, rfl, rfl⟩
  have hrest : exec w.handle (chatFailed c k slot status errorBody last again) s =
      exec w.handle (if k = maxRetries then last
        else perform (.sleep (retryDelay k)) >>= fun _ => again) s₁ := by
    show exec w.handle ((perform (.markUnhealthy slot.index status) >>= fun _ =>
      chatLogError c k slot status errorBody) >>= fun _ => _) s = _
    rw [exec_bind, hmark]
    rfl
  rw [hrest]
  by_cases hmax : k = maxRetries
  · rw [if_pos hmax]
    exact Or.inl ⟨hmax, s₁, rfl, hcalls₁, hlog₁⟩
  · have hdelay : retryDelay k = 3000 * k := by unfold retryDelay; omega
    rw [if_neg hmax, hdelay]
    refine Or.inr ⟨hmax, _, rfl, hcalls₁, ?_, fun hw => (hw _ _).trans (ids_exec hw hmark)⟩
    show s₁.log ++ _ = _
    rw [hlog₁, List.append_assoc]
    rfl

/-- What is left to do after the call `k`: the handler returns with the key `slot` in use, or the
attempt has failed and `again` follows. -/
def ReturnsOrAgain (w : Surroundings) (c : ChatCall) (k : ℕ) (slot : KeySlot) (s : RetryWorld)
    (p again : Handler Response) : Prop :=
  ((k = maxRetries ∨ ¬ (w.outcome k).Retryable) ∧ Ends w s p
    (markEvents slot (w.outcome k) ++ recordEvents slot (w.outcome k))
    ((w.outcome k).Forwarded c.stream slot)) ∨
  (k ≠ maxRetries ∧ (w.outcome k).Retryable ∧ ∃ s',
    exec w.handle p s = exec w.handle again s' ∧ s'.calls = k ∧
    s'.log = s.log ++ (markEvents slot (w.outcome k) ++ [.slept (3000 * k)]) ∧
    (w.NoRebuild → s'.pool.ids = s.pool.ids))

/-- A retryable failure, given what comes of it on the last attempt. -/
theorem returnsOrAgain_chatFailed (c : ChatCall) {k status : ℕ} (hk : 1 ≤ k) (hcalls : s.calls = k)
    (slot : KeySlot) (errorBody : String) (hfail : (w.outcome k).failure = some status)
    {last : Handler Response} (again : Handler Response)
    (hlast : ∀ s' : RetryWorld, s'.calls = k → Ends w s' last
      (recordEvents slot (w.outcome k))
      ((w.outcome k).Forwarded c.stream slot)) :
    ReturnsOrAgain w c k slot s (chatFailed c k slot status errorBody last again) again := by
  have hmarks : markEvents slot (w.outcome k) = [.unhealthy slot.index status] := by
    unfold markEvents
    rw [hfail]
  have hretry : (w.outcome k).Retryable := by
    unfold Outcome.Retryable
    rw [hfail]
    nofun
  unfold ReturnsOrAgain
  rw [hmarks]
  rcases exec_chatFailed c hk slot status errorBody last again with
    ⟨hmax, s₁, hexec, hcalls₁, hlog₁⟩ | ⟨hmax, s', hexec, hcalls', hlog', hids'⟩
  · obtain ⟨resp, s', hs', hcalls', hlog', hforward⟩ := hlast s₁ (hcalls₁.trans hcalls)
    refine Or.inl ⟨Or.inl hmax, resp, s', hexec.trans hs', hcalls'.trans hcalls₁, ?_, hforward⟩
    rw [hlog', hlog₁, List.append_assoc]
  · exact Or.inr ⟨hmax, hretry, s', hexec, hcalls'.trans hcalls, hlog', hids'⟩

theorem not_retried_of_isSuccess {status : ℕ} (h : isSuccess status = true) :
    ¬ (status = 500 ∨ status = 503) := by
  simp only [isSuccess, Bool.and_eq_true, decide_eq_true_eq] at h
  omega

/-- An outcome that is not retried. -/
theorem ReturnsOrAgain.of_ends {c : ChatCall} {k : ℕ} {slot : KeySlot} {p : Handler Response}
    (again : Handler Response) (hfail : (w.outcome k).failure = none)
    (hends : Ends w s p (markEvents slot (w.outcome k) ++ recordEvents slot (w.outcome k))
      ((w.outcome k).Forwarded c.stream slot)) : ReturnsOrAgain w c k slot s p again :=
  Or.inl ⟨Or.inr fun hretry => hretry hfail, hends⟩

/-- A 500 or 503: its body is read before the key is marked. -/
theorem returnsOrAgain_retried (c : ChatCall) {k : ℕ} (hk : 1 ≤ k) (hcalls : s.calls = k)
    (slot : KeySlot) (again : Handler Response) {reply : Reply} {body : Option (List UInt8)}
    (ho : w.outcome k = .ok (reply, body)) (hs : ¬ isSuccess reply.status = true)
    (hretry : reply.status = 500 ∨ reply.status = 503) :
    ReturnsOrAgain w c k slot s (readErrorBody >>= fun errorBody =>
      chatFailed c k slot reply.status errorBody (chatExhausted c slot reply.status errorBody) again)
      again := by
  have hfail : (w.outcome k).failure = some reply.status := by
    rw [ho]
    exact if_pos hretry
  have hafter := @returnsOrAgain_chatFailed w (w.pass s) c k reply.status hk hcalls slot
    (Utf8.lossy (body.getD [])) hfail
    (chatExhausted c slot reply.status (Utf8.lossy (body.getD []))) again fun s' hs' => by
      have hends := @ends_chatExhausted w s' c slot reply body (by rw [hs', ho]) hs hretry
      rwa [hs'] at hends
  have ho' : w.outcome s.calls = .ok (reply, body) := by rw [hcalls, ho]
  -- nothing in the log shows the reading
  have hexec : exec w.handle (readErrorBody >>= fun errorBody =>
      chatFailed c k slot reply.status errorBody (chatExhausted c slot reply.status errorBody)
        again) s =
      exec w.handle (chatFailed c k slot reply.status (Utf8.lossy (body.getD []))
        (chatExhausted c slot reply.status (Utf8.lossy (body.getD []))) again) (w.pass s) := by
    rw [exec_bind, exec_readErrorBody ho']
    rfl
  unfold ReturnsOrAgain Ends at hafter ⊢
  rw [hexec]
  rcases hafter with hreturns | ⟨hmax, hagain, s', hs', hcalls', hlog', hids'⟩
  · exact Or.inl hreturns
  · exact Or.inr ⟨hmax, hagain, s', hs', hcalls', hlog', fun hw => (hids' hw).trans (hw _ _)⟩

/-- **The result of the call `k`.** -/
theorem returnsOrAgain_chatResult (c : ChatCall) {k : ℕ} (hk : 1 ≤ k) (hcalls : s.calls = k)
    (slot : KeySlot) (upstreamStart : ℕ) (again : Handler Response) :
    ReturnsOrAgain w c k slot s
      (chatResult c k slot upstreamStart again ((w.outcome k).map Prod.fst)) again := by
  cases ho : w.outcome k with
  | error err =>
    refine returnsOrAgain_chatFailed c hk hcalls slot err (by rw [ho]; rfl) again fun s' hs' => ?_
    have hends := @ends_chatUnreachable w s' c slot err (by rw [hs', ho])
    rwa [hs'] at hends
  | ok result =>
    obtain ⟨reply, body⟩ := result
    show ReturnsOrAgain w c k slot s (if isSuccess reply.status = true then _ else _) again
    have ho' : w.outcome s.calls = .ok (reply, body) := by rw [hcalls, ho]
    by_cases hs : isSuccess reply.status = true
    · have hretry : ¬ (reply.status = 500 ∨ reply.status = 503) := not_retried_of_isSuccess hs
      have hmarks : markEvents slot (w.outcome k) = [.healthy slot.index] := by
        simp [markEvents, ho, Outcome.failure, hretry, hs]
      have hends := @ends_chatSuccess w s c slot upstreamStart reply body ho' hs
      rw [hcalls] at hends
      rw [if_pos hs]
      refine .of_ends again (by simp [ho, Outcome.failure, hretry]) ?_
      rw [hmarks]
      exact hends
    rw [if_neg hs]
    by_cases hretry : reply.status = 500 ∨ reply.status = 503
    · rw [if_pos hretry]
      exact returnsOrAgain_retried c hk hcalls slot again ho hs hretry
    · have hmarks : markEvents slot (w.outcome k) = [] := by
        simp [markEvents, ho, Outcome.failure, hretry, hs]
      have hends := @ends_chatOther w s c slot reply body ho' hs hretry
      rw [hcalls] at hends
      rw [if_neg hretry]
      refine .of_ends again (by simp [ho, Outcome.failure, hretry]) ?_
      rw [hmarks]
      exact hends

/-- The upstream call of an attempt. -/
theorem exec_call (c : ChatCall) (slot : KeySlot) {α : Type} (f : ℕ → Except String Reply → Handler α) :
    ∃ now s', exec w.handle (perform .instant >>= fun now =>
        perform (.send (c.request slot)) >>= f now) s =
      exec w.handle (f now ((w.outcome (s.calls + 1)).map Prod.fst)) s' ∧
      s'.calls = s.calls + 1 ∧ s'.log = s.log ++ [.sent slot.key] ∧
      (w.NoRebuild → s'.pool.ids = s.pool.ids) :=
  ⟨_, _, rfl, rfl, rfl, fun hw => (hw _ _).trans (hw _ _)⟩

/-- **One attempt**: it is the last one, or it fails, waits and goes on to the next. -/
theorem exec_attempt (c : ChatCall) (after : KeySlot → Handler Response) {k : ℕ} (rest : List ℕ)
    (slot : KeySlot) (hk : s.calls + 1 = k) :
    ∃ t : Turn, t.Chosen k slot ∧ t.Held w s slot ∧
      (((k = maxRetries ∨ ¬ (w.outcome k).Retryable) ∧ ∃ resp s',
        exec w.handle (chatLoop c after (k :: rest) slot) s = some (resp, s') ∧
        s'.calls = k ∧ s'.log = s.log ++ lastEvents w k t ∧
        (w.outcome k).Forwarded c.stream t.slot resp) ∨
      (k ≠ maxRetries ∧ (w.outcome k).Retryable ∧ ∃ s',
        exec w.handle (chatLoop c after (k :: rest) slot) s =
          exec w.handle (chatLoop c after rest t.slot) s' ∧
        s'.calls = k ∧ s'.log = s.log ++ (attemptEvents w k t ++ [.slept (3000 * k)]) ∧
        (w.NoRebuild → s'.pool.ids = s.pool.ids))) := by
  -- an attempt is a rotation, a call, and what is done with the result
  obtain ⟨t, s₁, hrotate, hchosen, hcalls₁, hlog₁, hheld⟩ := @exec_rotate w s k slot
  obtain ⟨now, s₂, hcall, hcalls₂, hlog₂, hids₂⟩ := @exec_call w s₁ c t.slot _
    fun now result => chatResult c k t.slot now (chatLoop c after rest t.slot) result
  rw [hcalls₁, hk] at hcall hcalls₂
  have hloop : exec w.handle (chatLoop c after (k :: rest) slot) s =
      exec w.handle (chatResult c k t.slot now (chatLoop c after rest t.slot)
        ((w.outcome k).map Prod.fst)) s₂ := by
    rw [chatLoop, exec_bind, hrotate, Option.bind_some]
    exact hcall
  have hsent : s₂.log = s.log ++ (rotationEvents k t ++ [.sent t.slot.key]) := by
    rw [hlog₂, hlog₁, List.append_assoc]
  refine ⟨t, hchosen, hheld, ?_⟩
  rw [hloop]
  rcases returnsOrAgain_chatResult c (by omega) hcalls₂ t.slot now (chatLoop c after rest t.slot)
    with ⟨hstop, resp, s', hs', hcalls', hlog', hforward⟩ | ⟨hmax, hretry, s', hs', hcalls', hlog', hids'⟩
  · refine Or.inl ⟨hstop, resp, s', hs', hcalls'.trans hcalls₂, ?_, hforward⟩
    rw [hlog', hsent, lastEvents, attemptEvents]
    simp only [List.append_assoc, List.cons_append, List.nil_append]
  · refine Or.inr ⟨hmax, hretry, s', hs', hcalls', ?_, fun hw => ?_⟩
    · rw [hlog', hsent, attemptEvents]
      simp only [List.append_assoc, List.cons_append, List.nil_append]
    · have hids₁ : s₁.pool.ids = s.pool.ids := ids_exec hw hrotate
      rw [hids' hw, hids₂ hw, hids₁]

end Parts

/-! ### The loop -/

/-- The last attempt does not go on. -/
theorem chatResult_last (c : ChatCall) (slot : KeySlot) (upstreamStart : ℕ)
    (again again' : Handler Response) (result : Except String Reply) :
    chatResult c maxRetries slot upstreamStart again result =
      chatResult c maxRetries slot upstreamStart again' result := by
  unfold chatResult chatFailed
  simp only [if_true]

/-- **The code after the loop is unreachable**: the loop is the same whatever that code is. -/
theorem chatLoop_after (c : ChatCall) (after after' : KeySlot → Handler Response) (n k : ℕ)
    (hk : k + n = maxRetries) (slot : KeySlot) :
    chatLoop c after (List.range' k (n + 1)) slot =
      chatLoop c after' (List.range' k (n + 1)) slot := by
  induction n generalizing k slot with
  | zero =>
    -- only the last attempt could fall through, and it always returns
    obtain rfl : k = maxRetries := hk
    unfold chatLoop
    apply congrArg (rotate maxRetries slot >>= ·)
    funext slot
    apply congrArg (perform .instant >>= ·)
    funext upstreamStart
    apply congrArg (perform (.send (c.request slot)) >>= ·)
    funext result
    exact chatResult_last c slot upstreamStart _ _ result
  | succ n ih =>
    rw [List.range'_succ]
    unfold chatLoop
    apply congrArg (rotate k slot >>= ·)
    funext slot
    rw [ih (k + 1) (by omega) slot]

section Loop

variable {w : Surroundings}

/-- The last attempt by itself. -/
theorem Retried.of_last {stream : Bool} {k : ℕ} {slot : KeySlot} {s s' : RetryWorld}
    {resp : Response} {t : Turn} (hle : k ≤ maxRetries) (hcalls : s'.calls = k)
    (hstop : k = maxRetries ∨ ¬ (w.outcome k).Retryable)
    (hlog : s'.log = s.log ++ lastEvents w k t) (hchosen : t.Chosen k slot)
    (hforward : (w.outcome k).Forwarded stream t.slot resp)
    (hheld : t.Held w s slot) :
    Retried w stream k slot s resp s' [] t where
  calls := hcalls
  calls_le := by omega
  failures j hj hlt := by omega
  stopped := by rw [hcalls]; exact hstop
  log := by rw [hcalls, hlog, failedEvents, List.append_nil]
  chosen := ⟨hchosen, trivial⟩
  forwarded := by rw [hcalls]; exact hforward
  held hw hslot t' ht' := by
    obtain rfl : t' = t := List.mem_singleton.1 ht'
    exact hheld.entry hw hslot

/-- A failed attempt before others. -/
theorem Retried.cons {stream : Bool} {k : ℕ} {slot : KeySlot} {s s₁ s' : RetryWorld}
    {resp : Response} {t last : Turn} {failed : List Turn}
    (hretry : (w.outcome k).Retryable)
    (hlog : s₁.log = s.log ++ (attemptEvents w k t ++ [.slept (3000 * k)]))
    (hchosen : t.Chosen k slot)
    (hheld : t.Held w s slot)
    (hids : w.NoRebuild → s₁.pool.ids = s.pool.ids)
    (h : Retried w stream (k + 1) t.slot s₁ resp s' failed last) :
    Retried w stream k slot s resp s' (t :: failed) last where
  calls := by rw [h.calls, List.length_cons]; omega
  calls_le := h.calls_le
  failures j hj hlt := by
    rcases Nat.eq_or_lt_of_le hj with rfl | hj
    · exact hretry
    · exact h.failures j hj hlt
  stopped := h.stopped
  log := by
    rw [h.log, hlog, failedEvents]
    simp only [List.append_assoc, List.cons_append, List.nil_append]
  chosen := ⟨hchosen, h.chosen⟩
  forwarded := h.forwarded
  held hw hslot t' ht' := by
    have ht : s.pool.ids[t.slot.index]? = some (t.slot.name, t.slot.key) := hheld.entry hw hslot
    rcases List.mem_cons.1 ht' with rfl | ht'
    · exact ht
    · rw [← hids hw]
      exact h.held hw (by rw [hids hw]; exact ht) t' ht'

/-- **The retry loop from the attempt `k` on**, by induction on the attempts that may follow. -/
theorem exec_chatLoop (c : ChatCall) (after : KeySlot → Handler Response) (n k : ℕ)
    (hk : k + n = maxRetries) (slot : KeySlot) (s : RetryWorld) (hcalls : s.calls + 1 = k) :
    ∃ resp s' failed last,
      exec w.handle (chatLoop c after (List.range' k (n + 1)) slot) s = some (resp, s') ∧
      Retried w c.stream k slot s resp s' failed last := by
  induction n generalizing k slot s with
  | zero =>
    obtain ⟨t, hchosen, hheld, hlast | ⟨hmax, -⟩⟩ := @exec_attempt w s c after k [] slot hcalls
    · obtain ⟨hstop, resp, s', hexec, hcalls', hlog, hforward⟩ := hlast
      exact ⟨resp, s', [], t, hexec,
        .of_last (by omega) hcalls' hstop hlog hchosen hforward hheld⟩
    · exact absurd hk hmax
  | succ n ih =>
    rw [List.range'_succ]
    obtain ⟨t, hchosen, hheld, hlast | hagain⟩ :=
      @exec_attempt w s c after k (List.range' (k + 1) (n + 1)) slot hcalls
    · obtain ⟨hstop, resp, s', hexec, hcalls', hlog, hforward⟩ := hlast
      exact ⟨resp, s', [], t, hexec,
        .of_last (by omega) hcalls' hstop hlog hchosen hforward hheld⟩
    · obtain ⟨-, hretry, s₁, hexec, hcalls₁, hlog₁, hids₁⟩ := hagain
      obtain ⟨resp, s', failed, last, hs', hrest⟩ := ih (k + 1) (by omega) t.slot s₁ (by omega)
      exact ⟨resp, s', t :: failed, last, hexec.trans hs',
        .cons hretry hlog₁ hchosen hheld hids₁ hrest⟩

end Loop

/-! ### The whole request -/

/-- The world before a request. -/
def RetryWorld.start (pool : KeyPool) : RetryWorld := ⟨pool, 0, 0, []⟩

section Request

variable {w : Surroundings} {s : RetryWorld}

/-- The preparation of the payload is not in the log. -/
theorem exec_prepares {α : Type} {p : Handler α} (hp : Ensures Prepares (fun _ => True) p) {a : α}
    {t : RetryWorld} (h : exec w.handle p s = some (a, t)) : t.calls = s.calls ∧ t.log = s.log := by
  refine (exec_of_ensures w.handle (K := fun t => t.calls = s.calls ∧ t.log = s.log) ?_ hp ⟨rfl, rfl⟩
    h).1
  intro e s₀ r t he hs₀ ht
  cases e with
  | config => cases ht; exact hs₀
  | catalog => cases ht; exact hs₀
  | analyzeImages dataUris key cfg => cases ht; exact hs₀
  | info line => cases ht; exact hs₀
  | abort site => cases ht
  | _ => exact he.elim

/-- **The selection of the first key**: an entry that is usable at that moment. -/
theorem exec_selectKey {env : Env} {payload : Value} {slot : KeySlot} {sessNum : UInt64}
    {s₁ : RetryWorld} (h : exec w.handle (selectKey env payload) s = some (some (slot, sessNum), s₁)) :
    ∃ before now, before.usableAt now slot.index = true ∧
      before.slotAt slot.index = some slot ∧ s₁.calls = s.calls ∧
      s₁.log = s.log ++ [.acquired before now] ∧ (w.NoRebuild → before.ids = s.pool.ids) := by
  unfold selectKey at h
  have htouch : w.handle (.touch (fingerprintPayload env.md5 payload)) s =
      some (w.touched (w.pass s).effects, w.pass s) := rfl
  simp only at h
  rw [exec_perform_of _ htouch] at h
  generalize hpreferred : (w.touched (w.pass s).effects).bind TouchResult.tokenIndex = preferred at h
  have hacquire : w.handle (.acquireKey preferred) (w.pass s) =
      some (((w.pass (w.pass s)).pool.acquire (w.clock (w.pass (w.pass s)).effects) preferred).1,
        { w.pass (w.pass s) with
          pool :=
            ((w.pass (w.pass s)).pool.acquire (w.clock (w.pass (w.pass s)).effects) preferred).2
          log := s.log ++
            [.acquired (w.pass (w.pass s)).pool (w.clock (w.pass (w.pass s)).effects)] }) := rfl
  rw [exec_perform_of _ hacquire] at h
  rcases (w.pass (w.pass s)).pool.acquire_spec (w.clock (w.pass (w.pass s)).effects) preferred with
    ⟨next, hnext, husable, hslot⟩ | ⟨hnext, -⟩
  · rw [hnext] at h
    obtain ⟨session, s₂, htrack, h⟩ := (exec_bind_eq_some w.handle).1 h
    obtain ⟨u, s₃, hlogged, h⟩ := (exec_bind_eq_some w.handle).1 h
    obtain ⟨hcalls, hlog⟩ := exec_prepares (prepares_logFirstPrompt _ _ _) hlogged
    obtain ⟨hselected, hs₃⟩ := Prod.mk.inj (Option.some.inj h)
    obtain ⟨rfl, -⟩ := Prod.mk.inj (Option.some.inj hselected)
    obtain ⟨-, hs₂⟩ := Prod.mk.inj (Option.some.inj htrack)
    rw [hs₃, ← hs₂] at hcalls hlog
    exact ⟨_, _, husable, hslot, hcalls, hlog, fun hw => (hw _ _).trans (hw _ _)⟩
  · rw [hnext] at h
    cases h

/-- **Preparation**: the log tells which key is acquired, and from which pool. -/
theorem exec_chatPrepare {env : Env} {payload : Value} {p : Prepared} {s₁ : RetryWorld}
    (h : exec w.handle (chatPrepare env payload) s = some (.ok p, s₁)) :
    ∃ before now, before.usableAt now p.slot.index = true ∧
      before.slotAt p.slot.index = some p.slot ∧ s₁.calls = s.calls ∧
      s₁.log = s.log ++ [.acquired before now] ∧ (w.NoRebuild → before.ids = s.pool.ids) := by
  unfold chatPrepare at h
  have hgate : w.handle .gateAcquire s = some (w.admitted (w.pass s).effects, w.pass s) := rfl
  rw [exec_perform_of _ hgate] at h
  by_cases hadmitted : w.admitted (w.pass s).effects = true
  · rw [if_pos hadmitted] at h
    obtain ⟨selected, s₂, hselect, h⟩ := (exec_bind_eq_some w.handle).1 h
    cases selected with
    | none => cases h
    | some selected =>
      obtain ⟨slot, sessNum⟩ := selected
      obtain ⟨prepared, s₃, hpayload, h⟩ := (exec_bind_eq_some w.handle).1 h
      obtain ⟨hcalls₃, hlog₃⟩ := exec_prepares (prepares_chatPayload _ _ _) hpayload
      obtain ⟨before, now, husable, hslot, hcalls₂, hlog₂, hids⟩ := exec_selectKey hselect
      cases h
      exact ⟨before, now, husable, hslot, hcalls₃.trans hcalls₂, hlog₃.trans hlog₂,
        fun hw => (hids hw).trans (hw _ _)⟩
  · rw [if_neg hadmitted] at h
    cases h

end Request

/-- **What one request does with its upstream calls**: the attempts `failed` and `last`, after the
selection `first` of a key from the pool, and what is logged and sent. -/
structure Retries (w : Surroundings) (stream : Bool) (pool : KeyPool) (resp : Response)
    (s' : RetryWorld) (first : Turn) (failed : List Turn) (last : Turn) : Prop where
  calls : s'.calls = failed.length + 1
  calls_le : s'.calls ≤ maxRetries
  next : ∀ k, 1 ≤ k → k ≤ s'.calls →
    (k + 1 ≤ s'.calls ↔ (w.outcome k).Retryable ∧ k < maxRetries)
  selected : first.before.usableAt first.time first.slot.index = true ∧
    first.before.slotAt first.slot.index = some first.slot
  chosen : ChosenFrom 1 first.slot (failed ++ [last])
  log : s'.log = .acquired first.before first.time ::
    (failedEvents w 1 failed ++ lastEvents w s'.calls last)
  held : w.NoRebuild → s'.pool.ids = pool.ids ∧
    ∀ t ∈ failed ++ [last], pool.ids[t.slot.index]? = some (t.slot.name, t.slot.key)
  forwarded : (w.outcome s'.calls).Forwarded stream last.slot resp

/-- A first attempt from the start of a request, seen from its end. -/
theorem Retried.retries {w : Surroundings} {stream : Bool} {pool : KeyPool} {slot : KeySlot}
    {s s' : RetryWorld} {resp : Response} {failed : List Turn} {last : Turn} {before : KeyPool}
    {now : ℕ} (h : Retried w stream 1 slot s resp s' failed last)
    (husable : before.usableAt now slot.index = true)
    (hslot : before.slotAt slot.index = some slot) (hlog : s.log = [.acquired before now])
    (hids : w.NoRebuild → before.ids = pool.ids ∧ s.pool.ids = pool.ids ∧ s'.pool.ids = pool.ids) :
    Retries w stream pool resp s' ⟨0, before, now, slot⟩ failed last where
  calls := by rw [h.calls]; omega
  calls_le := h.calls_le
  next k hk hle := by
    constructor
    · intro hlt
      exact ⟨h.failures k hk hlt, Nat.lt_of_lt_of_le hlt h.calls_le⟩
    · rintro ⟨hretry, hmax⟩
      by_contra hnot
      have hk : k = s'.calls := by omega
      rcases h.stopped with heq | hstop
      · omega
      · exact hstop (hk ▸ hretry)
  selected := ⟨husable, hslot⟩
  chosen := h.chosen
  log := by rw [h.log, hlog, List.append_assoc]; rfl
  held hw := by
    obtain ⟨hbefore, hs, hs'⟩ := hids hw
    have hfirst : s.pool.ids[slot.index]? = some (slot.name, slot.key) := by
      rw [hs, ← hbefore]
      exact (KeyPool.slotAt_eq_some hslot).2
    rw [← hs]
    exact ⟨hs'.trans hs.symm, h.held hw hfirst⟩
  forwarded := h.forwarded

/-- The whole loop. -/
theorem exec_attempts {w : Surroundings} (c : ChatCall) (after : KeySlot → Handler Response)
    (slot : KeySlot) (s : RetryWorld) (hcalls : s.calls = 0) :
    ∃ resp s' failed last,
      exec w.handle (chatLoop c after attempts slot) s = some (resp, s') ∧
      Retried w c.stream 1 slot s resp s' failed last := by
  unfold attempts
  exact exec_chatLoop c after 9 1 rfl slot s (by rw [hcalls])

/-- **The retries of a request.** A request that gets as far as the retry loop completes, makes the
attempt `k + 1` exactly when the call `k` ends in a network error, 500 or 503 and `k` is below 10,
and does what `Retries` says; the code after the loop is unreachable. -/
theorem chat_retries {env : Env} {w : Surroundings} (headers : HeaderMap) {payload : Value}
    {pool : KeyPool} {p : Prepared} {s₁ : RetryWorld}
    (hprepare : exec w.handle (chatPrepare env payload) (.start pool) = some (.ok p, s₁)) :
    (∃ resp s' first failed last,
      exec w.handle (chatParsed env headers payload) (.start pool) = some (resp, s') ∧
      Retries w (isStream payload) pool resp s' first failed last) ∧
    ∀ c after slot, chatLoop c after attempts slot = chatLoop c (chatAfterLoop c) attempts slot := by
  have hafter : ∀ c after slot,
      chatLoop c after attempts slot = chatLoop c (chatAfterLoop c) attempts slot := by
    intro c after slot
    unfold attempts
    exact chatLoop_after c after _ 9 1 rfl slot
  refine ⟨?_, hafter⟩
  obtain ⟨before, now, husable, hslot, hcalls, hlog, hids⟩ := exec_chatPrepare hprepare
  -- the clock is read once between the preparation and the loop
  obtain ⟨reqStart, s₂, hstart, hcalls₂, hlog₂, hids₂⟩ : ∃ reqStart s₂,
      w.handle .instant s₁ = some (reqStart, s₂) ∧ s₂.calls = s₁.calls ∧ s₂.log = s₁.log ∧
      (w.NoRebuild → s₂.pool.ids = s₁.pool.ids) := ⟨_, _, rfl, rfl, rfl, fun hw => hw _ _⟩
  let c : ChatCall := ⟨env, p.resolvedModel, p.sessNum, isStream payload, p.payload.toVec,
    websearch headers p.cfg, reqStart⟩
  obtain ⟨resp, s', failed, last, hexec, hretried⟩ :=
    exec_attempts (w := w) c (chatAfterLoop c) p.slot s₂ (by rw [hcalls₂, hcalls]; rfl)
  have hupstream : exec w.handle (chatUpstream env headers (isStream payload) p) s₁ =
      some (resp, s') := by
    unfold chatUpstream
    rw [exec_perform_of _ hstart]
    exact hexec
  have hwhole : exec w.handle (chatParsed env headers payload) (.start pool) = some (resp, s') := by
    unfold chatParsed
    rw [exec_bind, hprepare, Option.bind_some]
    exact hupstream
  refine ⟨resp, s', _, failed, last, hwhole, hretried.retries husable hslot ?_ fun hw => ?_⟩
  · rw [hlog₂, hlog]
    rfl
  · exact ⟨hids hw, (hids₂ hw).trans (ids_exec hw hprepare), ids_exec hw hwhole⟩

/-! ### Particular requests -/

/-- Surroundings in which nobody else uses the pool and the upstream calls end as given. -/
def quietly (outcome : ℕ → Outcome) : Surroundings where
  outcome := outcome
  clock _ := 0
  unixMillis _ := 0
  localTime _ := ""
  meanwhile _ pool := pool
  config _ := {}
  catalog _ := none
  admitted _ := true
  touched _ := none
  tracked _ := ⟨1, 1, some 0, false⟩
  descriptions _ n := List.Vector.replicate n ""

/-- A pool of two keys. -/
def twoKeys : KeyPool := KeyPool.new
  [KeyEntry.fromConfig ⟨"one", "sk-1", ""⟩, KeyEntry.fromConfig ⟨"two", "sk-2", ""⟩]

/-- A reply with the status 201 is recorded and sent on with the status 200. -/
theorem created_sent_as_ok :
    ∃ resp s', exec (quietly fun _ => .ok (⟨201, []⟩, some [])).handle
        (chatParsed (envParsing (object []) []) [] (object [])) (.start twoKeys) = some (resp, s') ∧
      s'.log = [.acquired twoKeys 0, .sent "sk-1", .healthy 0, .recorded 200 "one"] ∧
      resp.status = 200 :=
  ⟨_, _, rfl, rfl, rfl⟩

/-- A network error, then a reply: the request makes two calls. -/
theorem chat_retries_once :
    ∃ resp s', exec (quietly fun k => if k = 1 then .error "timed out" else .ok (⟨200, []⟩, some [])).handle
        (chatParsed (envParsing (object []) []) [] (object [])) (.start twoKeys) = some (resp, s') ∧
      s'.calls = 2 := by
  have hprepare : ∃ p s₁, exec
      (quietly fun k => if k = 1 then .error "timed out" else .ok (⟨200, []⟩, some [])).handle
      (chatPrepare (envParsing (object []) []) (object [])) (.start twoKeys) = some (.ok p, s₁) :=
    ⟨_, _, rfl⟩
  obtain ⟨p, s₁, hprepare⟩ := hprepare
  obtain ⟨⟨resp, s', first, failed, last, hexec, h⟩, -⟩ := chat_retries [] hprepare
  refine ⟨resp, s', hexec, ?_⟩
  have hpos : 1 ≤ s'.calls := by rw [h.calls]; omega
  have hsecond : 2 ≤ s'.calls := (h.next 1 le_rfl hpos).2 ⟨by decide, by decide⟩
  have hthird : ¬ 3 ≤ s'.calls := fun h3 =>
    absurd ((h.next 2 (by decide) hsecond).1 h3).1 (by decide)
  omega

end Mybro
