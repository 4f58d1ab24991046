import Mybro.Responses
import Mybro.StatsSql

/-!
# Generation time (`routes/chat.rs`, `routes/messages.rs`, `stats.rs`)

A record has two numbers, its duration and its TTFT, and the summary takes their difference for the
time spent generating. A stopwatch beside the request sees every reading of the clock: `RecordTimes`
says which readings the two numbers are taken from, and `generation_iff` when their difference is
the time of the final attempt, up to a millisecond.
-/

namespace Mybro

open Value Prog

/-! ### The stopwatch -/

/-- The readings of the clock: the first one, the last one before the last call, the one at which
the reply to this call arrived (the first chunk of a stream, the whole of another reply), and the
latest one; and the result of the call. -/
structure Times where
  start : Option ℕ := none
  attemptStart : ℕ := 0
  result : Option (Except String Reply) := none
  bodyRead : Bool := false
  arrived : Option ℕ := none
  latest : ℕ := 0

namespace Times

/-- The last call has brought a 2xx reply. -/
def succeeded (t : Times) : Bool :=
  match t.result with
  | some (.ok reply) => isSuccess reply.status
  | _ => false

/-- The last call has brought a reply that is relayed as a stream. -/
def streamed (t : Times) : Bool :=
  match t.result with
  | some (.ok reply) => reply.isEventStream
  | _ => false

/-- The readings are in the order of the request: its start, the start of the last call, the arrival
of the reply, and the latest one. -/
structure Ordered (t : Times) : Prop where
  start : ∀ s, t.start = some s → s ≤ t.latest
  attempt : t.attemptStart ≤ t.latest
  called : t.result.isSome → ∃ s, t.start = some s ∧ s ≤ t.attemptStart
  arrived : ∀ first, t.arrived = some first → t.attemptStart ≤ first ∧ first ≤ t.latest

/-- One more reading, taken when the reply has arrived or not. -/
def read (t : Times) (arrives : Bool) (now : ℕ) : Times :=
  { t with
    start := t.start.or (some now)
    arrived := if arrives then t.arrived.or (some now) else t.arrived
    latest := now }

/-- The readings after one more answer. -/
def add (t : Times) : (e : Eff) → Answer e → Times
  | .instant, now => t.read t.bodyRead now
  | .send _, result =>
    { t with attemptStart := t.latest, result := some result, bodyRead := false, arrived := none }
  | .readBody, _ => { t with bodyRead := true }
  | _, _ => t

/-- A later reading comes after those so far. -/
theorem Ordered.read {t : Times} (h : t.Ordered) (arrives : Bool) {now : ℕ}
    (hnow : t.latest ≤ now) : (t.read arrives now).Ordered where
  start := by
    intro s hs
    show s ≤ now
    cases hstart : t.start with
    | none =>
      have hor : t.start.or (some now) = some s := hs
      rw [hstart] at hor
      cases hor
      exact le_rfl
    | some s' =>
      have hor : t.start.or (some now) = some s := hs
      rw [hstart] at hor
      cases hor
      exact (h.start _ hstart).trans hnow
  attempt := h.attempt.trans hnow
  called := by
    intro hresult
    obtain ⟨s, hs, hle⟩ := h.called hresult
    refine ⟨s, ?_, hle⟩
    show t.start.or (some now) = some s
    rw [hs]
    rfl
  arrived := by
    intro first hfirst
    have hold : t.arrived = some first → t.attemptStart ≤ first ∧ first ≤ now := fun ha =>
      ⟨(h.arrived _ ha).1, (h.arrived _ ha).2.trans hnow⟩
    cases arrives with
    | false => exact hold hfirst
    | true =>
      have hor : t.arrived.or (some now) = some first := hfirst
      cases ha : t.arrived with
      | none =>
        rw [ha] at hor
        cases hor
        exact ⟨h.attempt.trans hnow, le_rfl⟩
      | some first' =>
        rw [ha] at hor
        cases hor
        exact hold ha

/-- A call that is made after the request has started comes after the readings so far. -/
theorem Ordered.send {t : Times} (h : t.Ordered) (hstart : t.start.isSome = true)
    (call : UpstreamCall) (result : Except String Reply) : (t.add (.send call) result).Ordered where
  start := h.start
  attempt := le_rfl
  called := by
    intro _
    obtain ⟨s, hs⟩ := Option.isSome_iff_exists.1 hstart
    exact ⟨s, hs, h.start s hs⟩
  arrived := nofun

end Times

/-- The reading of the clock that an event brings. -/
def TaskEvent.reading : TaskEvent → Option ℕ
  | .answer .instant now => some now
  | .chunk _ now => some now
  | .endOfStream now => some now
  | _ => none

/-- A request with a stopwatch, and the records it has stored, each with the readings at that
moment. -/
structure Watched where
  task : Task
  times : Times := {}
  stored : List (RequestRecord × Times) := []

namespace Watched

/-- The readings after an event. -/
def timesAfter (w : Watched) : TaskEvent → Times
  | .answer e r => w.times.add e r
  | .chunk _ now => w.times.read true now
  | .endOfStream now => w.times.read false now
  | _ => w.times

/-- A step of the request, seen by the stopwatch; the clock does not go back. -/
structure Step (env : Env) (w : Watched) (ev : TaskEvent) (w' : Watched) : Prop where
  task : Task.Step env w.task ev w'.task
  clock : ∀ now ∈ ev.reading, w.times.latest ≤ now
  times : w'.times = w.timesAfter ev
  stored : w'.stored =
    w.stored ++ ((w.task.recorded env ev).map fun r => (r, w.timesAfter ev)).toList

/-- A request whose arrival was some time ago. -/
abbrev Reached (env : Env) (api : ApiFormat) (req : Request) (w : Watched) : Prop :=
  Runs.Leads (Step env) { task := Task.start env api req } w

end Watched

/-! ### What is asked for -/

/-- **The generation time of a record**, if the summary counts any: it is that of a stream, and it
is the time from the first chunk to the end, up to a millisecond. -/
def MeasuresGeneration (r : RequestRecord) (t : Times) : Prop :=
  (generated r).2 ≠ 0 →
    t.streamed = true ∧ ∃ first, t.arrived = some first ∧
      |((generated r).2.toNat : ℤ) * 1000000 - (t.latest - first)| < 1000000

/-- What is lost of a time when it is read off in whole milliseconds. -/
def lost (nanos : ℕ) : ℕ := nanos - nanos / 1000000 % 2 ^ 64 * 1000000

/-- The time before the final attempt does not show in the duration of a 2xx reply: in whole
milliseconds, the request has taken no longer than the reply to the final attempt took to arrive, or
it is a stream, and the time between the two starts, with what is lost of the one time and without
what is lost of the other, is less than a millisecond. -/
def OnFinalAttempt (t : Times) : Prop :=
  t.succeeded = true → ∀ first, t.arrived = some first →
    elapsedMillis (t.start.getD 0) t.latest ≤ elapsedMillis t.attemptStart first ∨
      t.streamed = true ∧
        |((t.attemptStart - t.start.getD 0 : ℕ) : ℤ) + lost (first - t.attemptStart) -
          lost (t.latest - t.start.getD 0)| < 1000000

/-- A time that is read off, with what is lost. -/
theorem elapsedMillis_add_lost (start now : ℕ) :
    (elapsedMillis start now).toNat * 1000000 + lost (now - start) = now - start := by
  rw [elapsedMillis, UInt64.toNat_ofNat', lost]
  have hle : (now - start) / 1000000 % 2 ^ 64 * 1000000 ≤ now - start :=
    (Nat.mul_le_mul_right _ (Nat.mod_le _ _)).trans (Nat.div_mul_le_self _ _)
  omega

/-- Less than a millisecond is lost as long as the milliseconds are a machine word. -/
theorem lost_lt {nanos : ℕ} (h : nanos / 1000000 < 2 ^ 64) : lost nanos < 1000000 := by
  rw [lost, Nat.mod_eq_of_lt h]
  omega

/-- Where the two starts are the same, the time before the final attempt does not show. -/
theorem onFinalAttempt_of_same_start {t : Times} (hstart : t.start = some t.attemptStart)
    (hstream : t.streamed = true) (h : t.Ordered)
    (hfits : (t.latest - t.attemptStart) / 1000000 < 2 ^ 64) : OnFinalAttempt t := by
  intro _ first hfirst
  have hlast := (h.arrived first hfirst).2
  refine Or.inr ⟨hstream, ?_⟩
  rw [hstart, Option.getD_some, Nat.sub_self]
  have hbegin : lost (first - t.attemptStart) < 1000000 := lost_lt (by omega)
  have hend : lost (t.latest - t.attemptStart) < 1000000 := lost_lt hfits
  rw [abs_lt]
  omega

/-- What the two numbers of a record are taken from; a record without a TTFT has no usage. -/
structure RecordTimes (r : RequestRecord) (t : Times) : Prop where
  duration : r.durationMs = elapsedMillis (t.start.getD 0) t.latest
  ttft : r.ttftMs = if t.succeeded then t.arrived.map (elapsedMillis t.attemptStart) else none
  unused : r.ttftMs = none → r.withUsage {} = r

/-- The generation time from the two numbers. -/
theorem generated_snd (r : RequestRecord) :
    (generated r).2 = match r.ttftMs with
      | some ttft => if r.durationMs > ttft then r.durationMs - ttft else 0
      | none => 0 := by
  unfold generated addGeneration
  cases r.ttftMs with
  | none => rfl
  | some ttft =>
    by_cases h : r.durationMs > ttft
    · simp [h]
    · simp [h]

theorem sub_ne_zero_of_gt {a b : UInt64} (h : a > b) : a - b ≠ 0 := by
  intro hzero
  have hsub := UInt64.toNat_sub_of_le _ _ (UInt64.le_of_lt h)
  rw [hzero, UInt64.toNat_zero] at hsub
  rw [gt_iff_lt, UInt64.lt_iff_toNat_lt] at h
  omega

/-- For the readings that the code takes, the generation time is right exactly when the time before
the final attempt does not show. -/
theorem RecordTimes.measures_iff {r : RequestRecord} {t : Times} (h : RecordTimes r t)
    (hordered : t.Ordered) : MeasuresGeneration r t ↔ OnFinalAttempt t := by
  unfold MeasuresGeneration OnFinalAttempt
  rw [generated_snd, h.ttft]
  cases hs : t.succeeded with
  | false => simp
  | true =>
    cases hfirst : t.arrived with
    | none => simp
    | some first =>
      simp only [if_true, Option.map_some, ← h.duration, Option.some.injEq, forall_eq']
      by_cases hgt : r.durationMs > elapsedMillis t.attemptStart first
      · have hle : ¬ r.durationMs ≤ elapsedMillis t.attemptStart first := UInt64.not_le.2 hgt
        rw [if_pos hgt]
        simp only [ne_eq, sub_ne_zero_of_gt hgt, not_false_eq_true, true_imp_iff, hle, false_or,
          exists_eq_left']
        -- what is counted is off by the time between the starts, up to what is lost
        have hresult : t.result.isSome := by
          unfold Times.succeeded at hs
          cases hr : t.result with
          | none =>
            rw [hr] at hs
            cases hs
          | some result => rfl
        obtain ⟨s, hstart, hattempt⟩ := hordered.called hresult
        obtain ⟨hafter, hbefore⟩ := hordered.arrived first hfirst
        have hduration := elapsedMillis_add_lost (t.start.getD 0) t.latest
        have httft := elapsedMillis_add_lost t.attemptStart first
        have hsub := UInt64.toNat_sub_of_le _ _ (UInt64.le_of_lt hgt)
        rw [gt_iff_lt, UInt64.lt_iff_toNat_lt] at hgt
        rw [← h.duration] at hduration
        rw [hstart, Option.getD_some] at hduration ⊢
        have hcounted : ((r.durationMs - elapsedMillis t.attemptStart first).toNat : ℤ) * 1000000 -
            (t.latest - first) =
              ((t.attemptStart - s : ℕ) : ℤ) + lost (first - t.attemptStart) -
                lost (t.latest - s) := by
          rw [hsub]
          omega
        rw [hcounted]
      · rw [if_neg hgt]
        simp [UInt64.not_lt.1 hgt]

/-! ### What the handlers measure -/

/-- A record is stored only with the numbers read off, and a call is made only after the clock has
been read. -/
def Reads (t : Times) : Eff → Prop
  | .record r => RecordTimes r t
  | .send _ => t.start.isSome = true
  | _ => True

/-- What the callbacks of a stream have read. -/
structure PipeTimes (p : Pipe) (t : Times) : Prop where
  upstreamStart : p.upstreamStart = t.attemptStart
  reqStart : t.start = some p.reqStart
  succeeded : t.succeeded = true
  firstArrived : p.firstArrived = t.arrived.isSome
  ttft : p.record.ttftMs = t.arrived.map (elapsedMillis t.attemptStart)
  unused : p.record.ttftMs = none → p.acc = {}

/-- A handler returns a stream only with the readings it needs. -/
def Hands (t : Times) (resp : Response) : Prop := ∀ p, resp.body = .stream p → PipeTimes p t

/-- The effect is neither a reading nor a call, and stores nothing. -/
def Untimed : Eff → Prop
  | .instant | .send _ | .readBody | .record _ => False
  | _ => True

theorem reads_of_untimed {t : Times} (e : Eff) (he : Untimed e) :
    Reads t e ∧ ∀ r, t.add e r = t := by
  cases e with
  | instant => exact he.elim
  | send call => exact he.elim
  | readBody => exact he.elim
  | record r => exact he.elim
  | _ => exact ⟨trivial, fun _ => rfl⟩

theorem untimed_of_selects {α : Type} {p : Handler α} (h : Ensures Selects (fun _ => True) p) :
    Ensures Untimed (fun _ => True) p := by
  refine h.mono (fun e he => ?_) fun _ _ => trivial
  cases e <;> trivial

theorem untimed_of_prepares {α : Type} {p : Handler α} (h : Ensures Prepares (fun _ => True) p) :
    Ensures Untimed (fun _ => True) p :=
  untimed_of_selects (h.mono selects_of_prepares fun _ h => h)

theorem untimed_logUpstreamError (env : Env) (stage url : String) (attempt : ℕ) (sessNum : UInt64)
    (slotName : String) (status : ℕ) (errorBody : String) :
    Ensures Untimed (fun _ => True)
      (logUpstreamError env stage url attempt sessNum slotName status errorBody) :=
  ⟨trivial, fun _ => ⟨trivial, fun _ => trivial⟩⟩

theorem untimed_doIf {c : Prop} [Decidable c] {p : Handler Unit}
    (h : Ensures Untimed (fun _ => True) p) : Ensures Untimed (fun _ => True) (doIf c p) := by
  unfold doIf
  split_ifs
  · exact h
  · trivial

theorem untimed_perform {e : Eff} (he : Untimed e) :
    Ensures Untimed (fun _ => True) (perform e) := ⟨he, fun _ => trivial⟩

/-- The last call has been made at `upstreamStart`, in a request that began at `reqStart`, and its
reply has not arrived. -/
structure Called (t : Times) (reqStart upstreamStart : ℕ) (result : Except String Reply) :
    Prop where
  start : t.start = some reqStart
  attemptStart : t.attemptStart = upstreamStart
  result : t.result = some result
  bodyRead : t.bodyRead = false
  arrived : t.arrived = none

section

variable {α β : Type} {t : Times} {Q : Times → α → Prop} {reqStart upstreamStart : ℕ}
variable {result : Except String Reply} {reply : Reply}

theorem Called.succeeded (h : Called t reqStart upstreamStart result) :
    t.succeeded = match result with
      | .ok reply => isSuccess reply.status
      | .error _ => false := by
  unfold Times.succeeded
  rw [h.result]
  cases result <;> rfl

theorem Called.failed (h : Called t reqStart upstreamStart (.ok reply))
    (hs : ¬ isSuccess reply.status = true) : t.succeeded = false := by
  rw [h.succeeded]
  exact Bool.eq_false_iff.2 hs

/-- A call is made at the latest reading. -/
theorem called_send (hstart : t.start = some reqStart) (call : UpstreamCall)
    (result : Except String Reply) :
    Called (t.add (.send call) result) reqStart t.latest result := ⟨hstart, rfl, rfl, rfl, rfl⟩

/-- The rule for a part that the stopwatch does not see. -/
theorem reads_part {P : β → Prop} {p : Handler β} {f : β → Handler α} (hp : Ensures Untimed P p)
    (h : ∀ b, P b → Sat Times.add Reads Q (f b) t) : Sat Times.add Reads Q (p >>= f) t :=
  sat_bind_of_ensures reads_of_untimed hp h

/-- The rule for one effect that the stopwatch does not see. -/
theorem reads_perform {e : Eff} {f : Answer e → Handler α} (he : Untimed e)
    (h : ∀ r, Sat Times.add Reads Q (f r) t) : Sat Times.add Reads Q (perform e >>= f) t :=
  reads_part (untimed_perform he) fun r _ => h r

theorem reads_readBodyOrEmpty {f : List UInt8 → Handler α}
    (h : ∀ b, Sat Times.add Reads Q (f b) { t with bodyRead := true }) :
    Sat Times.add Reads Q (readBodyOrEmpty >>= f) t := ⟨trivial, fun _ => h _⟩

theorem reads_readErrorBody {f : String → Handler α}
    (h : ∀ s, Sat Times.add Reads Q (f s) { t with bodyRead := true }) :
    Sat Times.add Reads Q (readErrorBody >>= f) t := ⟨trivial, fun _ => h _⟩

/-- The rule for a record: its TTFT is the one read off so far, or none for a reply that is not 2xx.
-/
theorem reads_recordStat {ttftMs : Option UInt64} {status : ℕ} {model pipeline keyName : String}
    {usage : Usage} {error : Option String} {f : Unit → Handler α}
    (hstart : t.start = some reqStart)
    (httft : ∀ now, ttftMs =
      if t.succeeded then (t.read t.bodyRead now).arrived.map (elapsedMillis t.attemptStart)
      else none)
    (hunused : ttftMs = none → usage = {})
    (h : ∀ t, Sat Times.add Reads Q (f ()) t) :
    Sat Times.add Reads Q
      (recordStat reqStart ttftMs status model pipeline keyName usage error >>= f) t := by
  refine ⟨trivial, fun tsMs => ⟨trivial, fun now =>
    ⟨⟨?_, httft now, fun hnone => ?_⟩, fun _ => h _⟩⟩⟩
  · show elapsedMillis reqStart now = elapsedMillis ((t.start.or (some now)).getD 0) now
    rw [hstart]
    rfl
  · rw [hunused hnone]
    rfl

/-- The record of a call that did not succeed. -/
theorem reads_failure {status : ℕ} {model pipeline keyName : String} {error : Option String}
    {f : Unit → Handler α} (hstart : t.start = some reqStart) (hs : t.succeeded = false)
    (h : ∀ t, Sat Times.add Reads Q (f ()) t) :
    Sat Times.add Reads Q
      (recordStat reqStart none status model pipeline keyName {} error >>= f) t :=
  reads_recordStat hstart (fun now => by rw [hs]; rfl) (fun _ => rfl) h

/-- The body is read, then the clock, then the record is stored. -/
theorem reads_whole (h : Called t reqStart upstreamStart (.ok reply))
    (hs : isSuccess reply.status = true) {status : ℕ} {model pipeline keyName : String}
    {usage : List UInt8 → Usage} {f : List UInt8 → Handler α}
    (hf : ∀ body t, Sat Times.add Reads Q (f body) t) :
    Sat Times.add Reads Q
      (do
        let body ← readBodyOrEmpty
        let now ← perform .instant
        recordStat reqStart (some (elapsedMillis upstreamStart now)) status model pipeline keyName
          (usage body) none
        f body) t := by
  refine ⟨trivial, fun body => ⟨trivial, fun now => ?_⟩⟩
  refine reads_recordStat (t := ({ t with bodyRead := true } : Times).read true now) ?_ ?_ nofun
    fun t => hf _ t
  · show t.start.or (some now) = _
    rw [h.start]
    rfl
  · intro later
    have hsucceeded : (({ t with bodyRead := true } : Times).read true now).succeeded = true := by
      show t.succeeded = true
      rw [h.succeeded]
      exact hs
    rw [hsucceeded, if_pos rfl]
    show _ = ((t.arrived.or (some now)).or (some later)).map (elapsedMillis t.attemptStart)
    rw [h.arrived, h.attemptStart]
    rfl

/-- The handler hands a stream its two starts. -/
theorem reads_stream (h : Called t reqStart upstreamStart (.ok reply))
    (hs : isSuccess reply.status = true) {model pipeline keyName : String}
    {status : ℕ} {headers : HeaderMap} :
    Sat Times.add Reads Hands
      (do
        let record ← streamRecord model pipeline keyName
        pure { status := status, headers := headers
               body := .stream (Pipe.new record upstreamStart reqStart) }) t := by
  refine ⟨trivial, fun tsMs p hp => ?_⟩
  cases hp
  refine ⟨h.attemptStart.symm, h.start, ?_, ?_, ?_, fun _ => rfl⟩
  · show t.succeeded = true
    rw [h.succeeded]
    exact hs
  · show false = t.arrived.isSome
    rw [h.arrived]
    rfl
  · show none = t.arrived.map _
    rw [h.arrived]
    rfl

/-- A response that is no stream hands on no readings. -/
theorem hands_bytes {status : ℕ} {headers : HeaderMap} {b : List UInt8} {given : Option ℕ} :
    Hands t ⟨status, headers, .bytes b, given⟩ := nofun

/-! #### The OpenAI handler -/

theorem reads_chatSuccess (c : ChatCall) (slot : KeySlot)
    (h : Called t c.reqStart upstreamStart (.ok reply)) (hs : isSuccess reply.status = true) :
    Sat Times.add Reads Hands (chatSuccess c slot upstreamStart reply) t := by
  refine reads_perform trivial fun _ => ?_
  by_cases hsse : reply.headers.isSse = true
  · rw [if_pos hsse]
    exact reads_stream h hs
  · rw [if_neg hsse]
    refine reads_whole h hs fun body t => ?_
    show Hands t (if c.stream then _ else _)
    split_ifs
    · exact hands_bytes
    · exact hands_bytes

theorem reads_chatOther (c : ChatCall) (slot : KeySlot) (hstart : t.start = some c.reqStart)
    (hs : t.succeeded = false) : Sat Times.add Reads Hands (chatOther c slot reply) t := by
  refine reads_part (untimed_doIf (untimed_perform trivial)) fun _ _ => ?_
  refine reads_readBodyOrEmpty fun body => ?_
  exact reads_failure (t := { t with bodyRead := true }) hstart hs fun _ => hands_bytes

theorem reads_chatExhausted (c : ChatCall) (slot : KeySlot) (status : ℕ) (errorBody : String)
    (hstart : t.start = some c.reqStart) (hs : t.succeeded = false) :
    Sat Times.add Reads Hands (chatExhausted c slot status errorBody) t := by
  refine reads_part (untimed_doIf (untimed_perform trivial)) fun _ _ => ?_
  exact reads_failure hstart hs fun _ => hands_bytes

theorem reads_chatUnreachable (c : ChatCall) (slot : KeySlot) (err : String)
    (hstart : t.start = some c.reqStart) (hs : t.succeeded = false) :
    Sat Times.add Reads Hands (chatUnreachable c slot err) t :=
  reads_failure hstart hs fun _ => hands_bytes

theorem reads_chatFailed (c : ChatCall) (attempt : ℕ) (slot : KeySlot) (status : ℕ)
    (errorBody : String) {last again : Handler Response}
    (hlast : Sat Times.add Reads Hands last t)
    (hagain : attempt ≠ maxRetries → Sat Times.add Reads Hands again t) :
    Sat Times.add Reads Hands (chatFailed c attempt slot status errorBody last again) t := by
  refine reads_perform trivial fun _ => ?_
  refine reads_part (untimed_logUpstreamError _ _ _ _ _ _ _ _) fun _ _ => ?_
  by_cases hmax : attempt = maxRetries
  · rw [if_pos hmax]
    exact hlast
  · rw [if_neg hmax]
    exact reads_perform trivial fun _ => hagain hmax

/-- One attempt, given what the attempts after it do. -/
theorem reads_attempt (c : ChatCall) (after : KeySlot → Handler Response) (attempt : ℕ)
    (rest : List ℕ) (slot : KeySlot) (hstart : t.start = some c.reqStart)
    (hrest : attempt ≠ maxRetries → ∀ (slot : KeySlot) (t : Times), t.start = some c.reqStart →
      Sat Times.add Reads Hands (chatLoop c after rest slot) t) :
    Sat Times.add Reads Hands (chatLoop c after (attempt :: rest) slot) t := by
  refine reads_part (untimed_of_selects (selects_rotate attempt slot)) fun slot _ => ?_
  have hread : ∀ upstreamStart, (t.read t.bodyRead upstreamStart).start = some c.reqStart := by
    intro upstreamStart
    show t.start.or _ = _
    rw [hstart]
    rfl
  refine ⟨trivial, fun upstreamStart =>
    ⟨Option.isSome_iff_exists.2 ⟨_, hread upstreamStart⟩, fun result => ?_⟩⟩
  have hcalled := called_send (hread upstreamStart) (c.request slot) result
  show Sat _ _ _ (chatResult _ _ _ _ _ _) ((t.read t.bodyRead upstreamStart).add _ _)
  generalize (t.read t.bodyRead upstreamStart).add (.send (c.request slot)) result = u at hcalled
  have hagain := fun hmax => hrest hmax slot u hcalled.start
  refine chatResult_rule (S := fun p => Sat Times.add Reads Hands p u) ?_ ?_ ?_ ?_
  · rintro reply rfl hs
    exact reads_chatSuccess c slot hcalled hs
  · rintro reply rfl hs -
    refine reads_readErrorBody fun errorBody => ?_
    exact reads_chatFailed c attempt slot _ _
      (reads_chatExhausted c slot _ _ hcalled.start (hcalled.failed (by simp [hs])))
      fun hmax => hrest hmax slot { u with bodyRead := true } hcalled.start
  · rintro reply rfl hs -
    exact reads_chatOther c slot hcalled.start (hcalled.failed (by simp [hs]))
  · rintro err rfl
    exact reads_chatFailed c attempt slot 502 err
      (reads_chatUnreachable c slot err hcalled.start hcalled.succeeded) hagain

theorem reads_chatUpstream (env : Env) (headers : HeaderMap) (stream : Bool) (p : Prepared)
    (hnew : t.start = none) : Sat Times.add Reads Hands (chatUpstream env headers stream p) t := by
  refine ⟨trivial, fun reqStart => ?_⟩
  refine chatLoop_rule (K := fun t => t.start = some reqStart) _ _
    (fun k rest slot _ ht hrest => reads_attempt _ _ k rest slot ht hrest) p.slot ?_
  show t.start.or (some reqStart) = _
  rw [hnew]
  rfl

/-! #### The Anthropic handler -/

theorem reads_messagesSuccess (c : MessagesCall)
    (h : Called t c.reqStart upstreamStart (.ok reply)) (hs : isSuccess reply.status = true) :
    Sat Times.add Reads Hands (messagesSuccess c upstreamStart reply) t := by
  refine reads_perform trivial fun _ => ?_
  by_cases hsse : reply.headers.isSse = true
  · rw [if_pos hsse]
    exact reads_stream h hs
  · rw [if_neg hsse]
    exact reads_whole h hs fun body t => hands_bytes

theorem reads_messagesError (c : MessagesCall) (hstart : t.start = some c.reqStart)
    (hs : t.succeeded = false) : Sat Times.add Reads Hands (messagesError c reply) t := by
  refine reads_readErrorBody fun errorBody => ?_
  refine reads_part (untimed_logUpstreamError _ _ _ _ _ _ _ _) fun _ _ => ?_
  refine reads_part (untimed_doIf (untimed_perform trivial)) fun _ _ => ?_
  refine reads_part (untimed_doIf (untimed_perform trivial)) fun _ _ => ?_
  exact reads_failure (t := { t with bodyRead := true }) hstart hs fun _ => hands_bytes

theorem reads_messagesUnreachable (c : MessagesCall) (err : String)
    (hstart : t.start = some c.reqStart) (hs : t.succeeded = false) :
    Sat Times.add Reads Hands (messagesUnreachable c err) t := by
  refine reads_perform trivial fun _ => ?_
  refine reads_part (untimed_logUpstreamError _ _ _ _ _ _ _ _) fun _ _ => ?_
  exact reads_failure hstart hs fun _ => hands_bytes

theorem reads_messagesUpstream (env : Env) (headers : HeaderMap) (stream : Bool) (p : Prepared)
    (hnew : t.start = none) :
    Sat Times.add Reads Hands (messagesUpstream env headers stream p) t := by
  have hread : ∀ reqStart upstreamStart,
      ((t.read t.bodyRead reqStart).read t.bodyRead upstreamStart).start = some reqStart := by
    intro reqStart upstreamStart
    show (t.start.or (some reqStart)).or _ = _
    rw [hnew]
    rfl
  refine ⟨trivial, fun reqStart => ⟨trivial, fun upstreamStart =>
    ⟨Option.isSome_iff_exists.2 ⟨_, hread reqStart upstreamStart⟩, fun result => ?_⟩⟩⟩
  have hcalled := called_send (hread reqStart upstreamStart)
    ⟨"/messages", p.slot.key, p.payload.toVec, stream, websearch headers p.cfg⟩ result
  show Sat _ _ _ _ (((t.read t.bodyRead reqStart).read t.bodyRead upstreamStart).add (.send _) _)
  generalize ((t.read t.bodyRead reqStart).read t.bodyRead upstreamStart).add (.send _) result = u
    at hcalled ⊢
  cases result with
  | ok reply =>
    refine messagesReply_rule (S := fun p => Sat Times.add Reads Hands p u) (fun hs => ?_)
      (fun hs _ => ?_) fun _ _ => ?_
    · exact reads_messagesSuccess _ hcalled hs
    · exact reads_messagesError _ hcalled.start (hcalled.failed (by simp [hs]))
    · exact reads_readBodyOrEmpty fun body => hands_bytes
  | error err => exact reads_messagesUnreachable _ err hcalled.start hcalled.succeeded

/-! #### Both handlers -/

/-- The part that both pipelines share from the gate on. -/
theorem reads_admission (env : Env) (payload : Value) {queueFull noKey : Response}
    {preparePayload : KeySlot → Handler (Value × Config × String)}
    {upstream : Prepared → Handler Response} (hfull : Hands t queueFull) (hnone : Hands t noKey)
    (hprep : ∀ slot, Ensures Prepares (fun _ => True) (preparePayload slot))
    (hup : ∀ p : Prepared, Sat Times.add Reads Hands (upstream p) t) :
    Sat Times.add Reads Hands
      ((do
          let admitted ← perform .gateAcquire
          if admitted = true then do
            let selected ← selectKey env payload
            match selected with
            | none => pure (.error noKey)
            | some (slot, sessNum) => do
              let (final, cfg, resolved) ← preparePayload slot
              pure (.ok ⟨final, cfg, resolved, slot, sessNum⟩)
          else pure (.error queueFull) : Handler (Except Response Prepared)) >>= fun
        | .error resp => pure resp
        | .ok p => upstream p) t := by
  refine ⟨trivial, fun admitted => ?_⟩
  cases admitted with
  | false => exact hfull
  | true =>
    show Sat _ _ _ ((selectKey env payload >>= _) >>= _) t
    rw [sat_bind]
    refine reads_part (untimed_of_selects (selects_selectKey env payload)) fun selected _ => ?_
    cases selected with
    | none => exact hnone
    | some s =>
      show Sat _ _ _ (preparePayload s.1 >>= _) _
      exact reads_part (untimed_of_prepares (hprep s.1)) fun p _ => hup _

/-- The part that both handlers share up to JSON parsing. -/
theorem reads_received {req : Request} (env : Env) {refusal tooLarge : Response}
    {invalid : String → Response} {parsed : Value → Handler Response} (hrefusal : Hands t refusal)
    (hlarge : Hands t tooLarge) (hinvalid : ∀ e, Hands t (invalid e))
    (hparsed : ∀ payload, Sat Times.add Reads Hands (parsed payload) t) :
    Sat Times.add Reads Hands
      (do
        let cfg ← perform .config
        if checkAuth cfg req.headers then
          match req.body with
          | none => pure tooLarge
          | some bytes =>
            match env.fromSlice bytes with
            | .error e => pure (invalid e)
            | .ok payload => parsed payload
        else pure refusal) t :=
  sat_request trivial (fun _ _ => hrefusal) (fun _ _ _ => hlarge) (fun _ _ e _ _ _ => hinvalid e)
    fun _ _ payload _ _ _ => hparsed payload

theorem reads_chatParsed (env : Env) (headers : HeaderMap) (payload : Value)
    (hnew : t.start = none) : Sat Times.add Reads Hands (chatParsed env headers payload) t :=
  reads_admission env payload hands_bytes hands_bytes
    (fun slot => prepares_chatPayload payload slot _) fun p => reads_chatUpstream env _ _ p hnew

theorem reads_messagesParsed (env : Env) (headers : HeaderMap) (payload : Value)
    (hnew : t.start = none) : Sat Times.add Reads Hands (messagesParsed env headers payload) t := by
  refine ⟨trivial, fun total => ?_⟩
  show Sat _ _ _ ((if (total : ℕ) = 0 then _ else _) >>= _) t
  by_cases htotal : (total : ℕ) = 0
  · rw [if_pos htotal]
    exact hands_bytes
  · rw [if_neg htotal]
    exact reads_admission env payload hands_bytes hands_bytes
      (fun slot => prepares_messagesPayload payload slot)
      fun p => reads_messagesUpstream env _ _ p hnew

/-- **Whatever the answers, a handler stores the numbers it has read off.** -/
theorem reads_handler (env : Env) (api : ApiFormat) (req : Request) (hnew : t.start = none) :
    Sat Times.add Reads Hands (handler env api req) t := by
  cases api with
  | openAI =>
    exact reads_received env hands_bytes hands_bytes (fun _ => hands_bytes)
      fun payload => reads_chatParsed env _ payload hnew
  | anthropic =>
    exact reads_received env hands_bytes hands_bytes (fun _ => hands_bytes)
      fun payload => reads_messagesParsed env _ payload hnew

end

/-! ### Runs -/

namespace PipeTimes

variable {env : Env} {p : Pipe} {t : Times}

/-- A chunk passes, and the first one is timed. -/
theorem chunk (h : PipeTimes p t) (bytes : List UInt8) (now : ℕ) :
    PipeTimes (p.chunk env bytes now) (t.read true now) := by
  have hstart : t.start.or (some now) = some p.reqStart := by
    rw [h.reqStart]
    rfl
  refine ⟨h.upstreamStart, hstart, h.succeeded, ?_, ?_, ?_⟩
  · show true = (t.arrived.or (some now)).isSome
    cases t.arrived <;> rfl
  · show (if p.firstArrived then p.record else _).ttftMs =
      (t.arrived.or (some now)).map (elapsedMillis t.attemptStart)
    rw [h.firstArrived]
    cases harrived : t.arrived with
    | none =>
      rw [← h.upstreamStart]
      rfl
    | some first =>
      have httft := h.ttft
      rw [harrived] at httft
      exact httft
  · intro hnone
    have httft : (if p.firstArrived then p.record
        else { p.record with ttftMs := some (elapsedMillis p.upstreamStart now) }).ttftMs = none :=
      hnone
    cases harrived : t.arrived with
    | none =>
      rw [h.firstArrived, harrived] at httft
      cases httft
    | some first =>
      rw [h.firstArrived, harrived, Option.isSome_some, if_pos rfl, h.ttft, harrived] at httft
      cases httft

/-- The record of the whole stream. -/
theorem complete (h : PipeTimes p t) (now : ℕ) :
    RecordTimes (p.complete env now) (t.read false now) := by
  constructor
  · show elapsedMillis p.reqStart now = elapsedMillis ((t.start.or (some now)).getD 0) now
    rw [h.reqStart]
    rfl
  · show p.record.ttftMs =
      if t.succeeded then t.arrived.map (elapsedMillis t.attemptStart) else none
    rw [h.succeeded]
    exact h.ttft
  · intro hnone
    show _ = ({ p.record with durationMs := elapsedMillis p.reqStart now }.withUsage
      (p.acc.finish env.fromSlice))
    rw [h.unused hnone]
    rfl

end PipeTimes

namespace Watched

variable {env : Env} {api : ApiFormat} {req : Request} {w w' : Watched} {t' : Task}
variable {ev : TaskEvent}

/-- The invariant: what is stored has the numbers read off, the readings are in order, and what is
left of the handler, or of the stream, will store nothing else. -/
structure Inv (w : Watched) : Prop where
  stored : ∀ x ∈ w.stored, RecordTimes x.1 x.2 ∧ x.2.Ordered
  ordered : w.times.Ordered
  records : w.stored.map Prod.fst = w.task.account.records
  phase : match w.task.phase with
    | .running p => Sat Times.add Reads Hands p w.times
    | .streaming p => PipeTimes p w.times
    | .finished _ => True

/-- The event stores the numbers read off. -/
theorem Inv.recorded (h : w.Inv) (hst : Task.Step env w.task ev t') {r : RequestRecord}
    (hr : w.task.recorded env ev = some r) : RecordTimes r (w.timesAfter ev) := by
  have hphase := h.phase
  cases hst with
  | @answer e k a running =>
    rw [running] at hphase
    cases e with
    | record other =>
      cases hr
      exact hphase.1
    | _ => cases hr
  | @endOfStream p now streaming =>
    rw [streaming] at hphase
    simp only [Task.recorded, streaming, Option.some.injEq] at hr
    subst hr
    exact hphase.complete now
  | respond => cases hr
  | respondStream => cases hr
  | chunk => cases hr
  | streamFails => cases hr
  | leave => cases hr
  | leaveStream => cases hr

/-- The readings stay in order. -/
theorem Inv.ordered_timesAfter (h : w.Inv) (hst : Task.Step env w.task ev t')
    (hclock : ∀ now ∈ ev.reading, w.times.latest ≤ now) : (w.timesAfter ev).Ordered := by
  have hphase := h.phase
  cases hst with
  | @answer e k a running =>
    rw [running] at hphase
    cases e with
    | instant => exact h.ordered.read _ (hclock a rfl)
    | send call => exact h.ordered.send hphase.1 call a
    | readBody => exact ⟨h.ordered.start, h.ordered.attempt, h.ordered.called, h.ordered.arrived⟩
    | _ => exact h.ordered
  | @chunk p bytes now streaming => exact h.ordered.read true (hclock now rfl)
  | @endOfStream p now streaming => exact h.ordered.read false (hclock now rfl)
  | respond => exact h.ordered
  | respondStream => exact h.ordered
  | streamFails => exact h.ordered
  | leave => exact h.ordered
  | leaveStream => exact h.ordered

/-- **Every step keeps the invariant.** -/
theorem Inv.step (h : w.Inv) (hst : Step env w ev w') : w'.Inv := by
  have hordered := h.ordered_timesAfter hst.task hst.clock
  refine ⟨fun x hx => ?_, hst.times ▸ hordered, ?_, ?_⟩
  · rw [hst.stored] at hx
    rcases List.mem_append.1 hx with hx | hx
    · exact h.stored x hx
    · obtain ⟨r, hr, rfl⟩ := Option.map_eq_some_iff.1 (Option.mem_toList.1 hx)
      exact ⟨h.recorded hst.task hr, hordered⟩
  · rw [hst.stored, Task.records_step hst.task, List.map_append, h.records]
    cases w.task.recorded env ev <;> rfl
  · have hphase := h.phase
    have htimes := hst.times
    obtain ⟨t', times', stored'⟩ := w'
    obtain rfl : times' = w.timesAfter ev := htimes
    cases hst.task with
    | @answer e k a running =>
      rw [running] at hphase
      exact hphase.2 a
    | respond => trivial
    | @respondStream resp p running body =>
      rw [running] at hphase
      exact hphase p body
    | @chunk p bytes now streaming =>
      rw [streaming] at hphase
      exact hphase.chunk bytes now
    | endOfStream => trivial
    | streamFails => trivial
    | leave => trivial
    | leaveStream => trivial

/-- Every step of the request is seen. -/
theorem step_of_task (hst : Task.Step env w.task ev t')
    (hclock : ∀ now ∈ ev.reading, w.times.latest ≤ now) :
    Step env w ev
      ⟨t', w.timesAfter ev,
        w.stored ++ ((w.task.recorded env ev).map fun r => (r, w.timesAfter ev)).toList⟩ :=
  ⟨hst, hclock, rfl, rfl⟩

/-- What the stopwatch sees of an answer, and what it stores. -/
def observe (o : Times × List (RequestRecord × Times)) (e : Eff) (r : Answer e) :
    Times × List (RequestRecord × Times) :=
  (o.1.add e r, o.2 ++ match e with
    | .record rec => [(rec, o.1)]
    | _ => [])

/-- The clock does not go back in the answers of a handler. -/
def Forward : Times → Trace Answer → Prop
  | _, [] => True
  | t, ⟨e, r⟩ :: tr =>
    (∀ now ∈ (TaskEvent.answer e r).reading, t.latest ≤ now) ∧ Forward (t.add e r) tr

instance decidableForward : (t : Times) → (tr : Trace Answer) → Decidable (Forward t tr)
  | _, [] => inferInstanceAs (Decidable True)
  | t, ⟨e, r⟩ :: tr =>
    have := decidableForward (t.add e r) tr
    inferInstanceAs (Decidable (_ ∧ _))

/-- The answers of a run of the handler are steps. -/
theorem leads_run {p q : Handler Response} {tr : Trace Answer}
    (hp : w.task.phase = .running p) (hr : Run p tr q) (hforward : Forward w.times tr) :
    Runs.Leads (Step env) w
      { task := { w.task with trace := w.task.trace ++ tr, phase := .running q }
        times := (after observe (w.times, w.stored) tr).1
        stored := (after observe (w.times, w.stored) tr).2 } := by
  induction hr generalizing w with
  | nil p =>
    rw [List.append_nil, ← hp]
    exact .refl w
  | @cons e k r tr q hr ih =>
    have hrest := ih (w := ⟨
      { w.task with trace := w.task.trace ++ [⟨e, r⟩], phase := .running (k r) },
      (observe (w.times, w.stored) e r).1, (observe (w.times, w.stored) e r).2⟩) rfl hforward.2
    rw [List.append_assoc] at hrest
    refine .head ⟨.answer r hp, hforward.1, rfl, ?_⟩ hrest
    cases e <;> rfl

theorem inv_start (env : Env) (api : ApiFormat) (req : Request) :
    Inv { task := Task.start env api req } := by
  refine ⟨fun x hx => absurd hx List.not_mem_nil, ⟨nofun, le_rfl, nofun, nofun⟩, rfl, ?_⟩
  show Sat Times.add Reads Hands (handler env api req) {}
  exact reads_handler env api req rfl

theorem Reached.inv (h : Reached env api req w) : w.Inv :=
  Runs.Leads.inv (P := Inv) (fun _ _ _ hi hst => hi.step hst) (inv_start env api req) h

end Watched

/-- **When the generation time is that of the final attempt**: in every run of a request with a
clock that does not go back, the stopwatch sees every record the request stores, and for each of
them the summary counts the right generation time, up to a millisecond, exactly when the time before
the final attempt does not show in its duration. -/
theorem generation_iff {env : Env} {api : ApiFormat} {req : Request} {w : Watched}
    (h : Watched.Reached env api req w) :
    w.stored.map Prod.fst = w.task.account.records ∧
      ∀ x ∈ w.stored, MeasuresGeneration x.1 x.2 ↔ OnFinalAttempt x.2 := by
  refine ⟨h.inv.records, fun x hx => ?_⟩
  obtain ⟨htimes, hordered⟩ := h.inv.stored x hx
  exact htimes.measures_iff hordered

/-- A clock that a sleep moves on, and an upstream that is unavailable in the first second. -/
def clockAnswers (reply : Reply) (e : Eff) (now : ℕ) : Option (Answer e × ℕ) :=
  match e with
  | .instant => some (now, now)
  | .sleep ms => some ((), now + ms * 1000000)
  | .send _ => some (.ok (if now < 1000000000 then ⟨503, []⟩ else reply), now)
  | e => (Task.sampleAnswers (.ok reply) e).map fun r => (r, now)

/-- A request at its arrival. -/
def arrived : Watched := { task := Task.start Task.sampleEnv .openAI Task.emptyRequest }

/-- The wait after a 503 counts as 3000 ms of generation, although the reply is no stream. -/
theorem wait_counts_as_generation :
    ∃ w x, Watched.Reached Task.sampleEnv .openAI Task.emptyRequest w ∧ w.stored = [x] ∧
      (generated x.1).2 = 3000 ∧ ¬ MeasuresGeneration x.1 x.2 := by
  have hreached := @Watched.leads_run Task.sampleEnv arrived _ _ _ rfl
    (run_playIn (clockAnswers ⟨200, []⟩) (handler Task.sampleEnv .openAI Task.emptyRequest) 0)
    (by decide)
  refine ⟨_, _, hreached, rfl, rfl, fun hmeasures => ?_⟩
  obtain ⟨hstreamed, -⟩ := hmeasures (by decide)
  cases hstreamed

/-- A stream on the first attempt, whose first chunk comes after 200.5 ms and whose end after 999.1:
the 799 ms that are counted are right up to a millisecond. -/
theorem generation_of_first_attempt :
    ∃ w x, Watched.Reached Task.sampleEnv .openAI Task.emptyRequest w ∧ w.stored = [x] ∧
      (generated x.1).2 = 799 ∧ MeasuresGeneration x.1 x.2 := by
  have hplayed := @Watched.leads_run Task.sampleEnv arrived _ _ _ rfl
    (run_playIn (clockAnswers Task.sseReply) (handler Task.sampleEnv .openAI Task.emptyRequest)
      2000000000) (by decide)
  have hreached := hplayed.trans
    (.head (Watched.step_of_task (.respondStream rfl rfl) (by decide))
    (.head (Watched.step_of_task (.chunk [] 2200500000 rfl) (by decide))
      (.one (Watched.step_of_task (.endOfStream 2999100000 rfl) (by decide)))))
  refine ⟨_, _, hreached, rfl, rfl, ?_⟩
  exact ((generation_iff hreached).2 _ List.mem_cons_self).2 (onFinalAttempt_of_same_start rfl rfl
    ((Watched.Reached.inv hreached).stored _ List.mem_cons_self).2 (by decide))

end Mybro
