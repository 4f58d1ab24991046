import Mybro.Account
import Mybro.Lib.Runs

/-!
# The life of a request

A `Task` is one request from its arrival until its response is over: the handler runs and is
answered (`running`), a streamed response is relayed after the handler has returned (`streaming`),
the response is over. The client may go away whenever the handler is suspended, or while the
response streams; the handler and the stream are then dropped where they are.

`Task.Inv` carries what `sat_handler` says about the handler over to every state of a task.
-/

namespace Mybro

open Prog

/-- How a response came to its end. A client that goes away while the handler is suspended leaves an
effect unanswered. -/
inductive Ending
  | complete
  | failed
  | disconnected (pending : Option Eff)

/-- Where a request is. -/
inductive Phase
  | running (p : Handler Response)
  | streaming (p : Pipe)
  | finished (e : Ending)

/-- A request, with the effects performed for it so far and the response sent for it. -/
structure Task where
  api : ApiFormat
  req : Request
  trace : Trace Answer
  response : Option Response
  phase : Phase

/-- One event in the life of a request. -/
inductive TaskEvent
  | answer (e : Eff) (r : Answer e)
  | respond
  | chunk (bytes : List UInt8) (now : ℕ)
  | endOfStream (now : ℕ)
  | streamFails
  | disconnect

namespace Task

/-- A request at its arrival. -/
def start (env : Env) (api : ApiFormat) (req : Request) : Task :=
  ⟨api, req, [], none, .running (handler env api req)⟩

/-- The account of a request. -/
def account (t : Task) : Account := after Account.add {} t.trace

/-- The steps of a request. -/
inductive Step (env : Env) : Task → TaskEvent → Task → Prop
  | answer {t : Task} {e : Eff} {k : Answer e → Handler Response} (r : Answer e)
      (running : t.phase = .running (.vis e k)) :
      Step env t (.answer e r) { t with trace := t.trace ++ [⟨e, r⟩], phase := .running (k r) }
  | respond {t : Task} {resp : Response} {b : List UInt8} (running : t.phase = .running (.ret resp))
      (body : resp.body = .bytes b) :
      Step env t .respond { t with response := some resp, phase := .finished .complete }
  | respondStream {t : Task} {resp : Response} {p : Pipe}
      (running : t.phase = .running (.ret resp)) (body : resp.body = .stream p) :
      Step env t .respond { t with response := some resp, phase := .streaming p }
  | chunk {t : Task} {p : Pipe} (bytes : List UInt8) (now : ℕ) (streaming : t.phase = .streaming p) :
      Step env t (.chunk bytes now)
        { t with trace := t.trace ++ [⟨.instant, now⟩], phase := .streaming (p.chunk env bytes now) }
  | endOfStream {t : Task} {p : Pipe} (now : ℕ) (streaming : t.phase = .streaming p) :
      Step env t (.endOfStream now)
        { t with
          trace := t.trace ++ [⟨.instant, now⟩, ⟨.record (p.complete env now), ()⟩]
          phase := .finished .complete }
  | streamFails {t : Task} {p : Pipe} (streaming : t.phase = .streaming p) :
      Step env t .streamFails { t with phase := .finished .failed }
  | leave {t : Task} {e : Eff} {k : Answer e → Handler Response}
      (running : t.phase = .running (.vis e k)) (suspended : e.Suspends) :
      Step env t .disconnect { t with phase := .finished (.disconnected (some e)) }
  | leaveStream {t : Task} {p : Pipe} (streaming : t.phase = .streaming p) :
      Step env t .disconnect { t with phase := .finished (.disconnected none) }

/-- The record that a request stores by a step. -/
def recorded (env : Env) (t : Task) : TaskEvent → Option RequestRecord
  | .answer (.record r) _ => some r
  | .endOfStream now =>
    match t.phase with
    | .streaming p => some (p.complete env now)
    | _ => none
  | _ => none

/-- What holds of a request whose response is relayed as a stream. -/
structure Relayed (t : Task) (records : List RequestRecord) : Prop where
  sent : ∃ resp reply, t.response = some resp ∧ t.account.last = some (.ok reply) ∧
    reply.isEventStream = true ∧ resp.given = none ∧
    resp.status = match t.api with | .openAI => 200 | .anthropic => reply.status
  records_eq : t.account.records = records

/-- What holds of a request when its response is over. -/
def Finished (t : Task) : Ending → Prop
  | .complete =>
    (∃ resp b, t.response = some resp ∧ resp.body = .bytes b ∧ Answered t.api t.req t.account resp) ∨
      ∃ r : RequestRecord, r.status = 200 ∧ t.Relayed [r]
  | .failed => t.Relayed []
  | .disconnected none => t.Relayed []
  | .disconnected (some e) => t.response = none ∧ e.Suspends ∧ t.account.Permitted e

/-- **The invariant of a request.** -/
def Inv (t : Task) : Prop :=
  match t.phase with
  | .running p => t.response = none ∧ Sat Account.add Account.Permitted (Answered t.api t.req) p t.account
  | .streaming p => p.record.status = 200 ∧ t.Relayed []
  | .finished e => t.Finished e

theorem inv_start (env : Env) (api : ApiFormat) (req : Request) : (start env api req).Inv :=
  ⟨rfl, sat_handler env api req⟩

/-- The account after one more answer. -/
theorem account_snoc (t : Task) (e : Eff) (r : Answer e) (phase : Phase) :
    ({ t with trace := t.trace ++ [⟨e, r⟩], phase := phase } : Task).account =
      t.account.add e r := by
  simp [account]

/-- The records of a request are those it has stored by its steps. -/
theorem records_step {env : Env} {t t' : Task} {ev : TaskEvent} (hst : Step env t ev t') :
    t'.account.records = t.account.records ++ (t.recorded env ev).toList := by
  cases hst with
  | @answer e k r running =>
    rw [account_snoc]
    cases e with
    | record rec => rfl
    | send call => cases r <;> exact (List.append_nil _).symm
    | _ => exact (List.append_nil _).symm
  | @endOfStream p now streaming => simp [recorded, streaming, account, Account.add]
  | @chunk p bytes now streaming =>
    rw [account_snoc]
    exact (List.append_nil _).symm
  | _ => exact (List.append_nil _).symm

/-- A streamed response comes from a reply that is an event stream. -/
theorem relayed_of_answered {t : Task} {resp : Response} {p : Pipe} {phase : Phase}
    (h : Answered t.api t.req t.account resp) (hbody : resp.body = .stream p) :
    p.record.status = 200 ∧ ({ t with response := some resp, phase := phase } : Task).Relayed [] := by
  cases h with
  | streamed reply p' last stream records body given recorded status =>
    rw [hbody] at body
    cases body
    exact ⟨recorded, ⟨resp, reply, rfl, last, stream, given, status⟩, records⟩
  | refused cfg b auth why last unread records body => rw [hbody] at body; cases body
  | rejected cfg b g auth ok read last unread records body => rw [hbody] at body; cases body
  | unreachable err r b last unread records body => rw [hbody] at body; cases body
  | relayed reply r b last unread noStream noted records body => rw [hbody] at body; cases body
  | passedOn reply b format last unread noS noE records body => rw [hbody] at body; cases body

/-- The invariant is kept by every step. -/
theorem Inv.step {env : Env} {t t' : Task} {ev : TaskEvent} (h : t.Inv) (hst : Step env t ev t') :
    t'.Inv := by
  unfold Inv at h
  cases hst with
  | @answer e k r running =>
    rw [running] at h
    refine ⟨h.1, ?_⟩
    rw [account_snoc]
    exact h.2.2 r
  | @respond resp b running body =>
    rw [running] at h
    exact Or.inl ⟨resp, b, rfl, body, h.2⟩
  | @respondStream resp p running body =>
    rw [running] at h
    exact relayed_of_answered h.2 body
  | @chunk p bytes now streaming =>
    rw [streaming] at h
    have hacc := t.account_snoc .instant now (.streaming (p.chunk env bytes now))
    refine ⟨?_, ?_, ?_⟩
    · unfold Pipe.chunk
      split_ifs
      · exact h.1
      · exact h.1
    · rw [hacc]
      exact h.2.sent
    · rw [hacc]
      exact h.2.records_eq
  | @endOfStream p now streaming =>
    rw [streaming] at h
    refine Or.inr ⟨p.complete env now, h.1, ?_, ?_⟩
    · simpa [account, Account.add] using h.2.sent
    · have hrec := h.2.records_eq
      simp only [account] at hrec
      simp [account, Account.add, hrec]
  | @streamFails p streaming =>
    rw [streaming] at h
    exact ⟨h.2.sent, h.2.records_eq⟩
  | @leave e k running suspended =>
    rw [running] at h
    exact ⟨h.1, suspended, h.2.1⟩
  | @leaveStream p streaming =>
    rw [streaming] at h
    exact ⟨h.2.sent, h.2.records_eq⟩

/-- A request whose arrival was some time ago. -/
abbrev Reached (env : Env) (api : ApiFormat) (req : Request) (t : Task) : Prop :=
  Runs.Leads (Step env) (start env api req) t

theorem Reached.inv {env : Env} {api : ApiFormat} {req : Request} {t : Task}
    (h : Reached env api req t) : t.Inv :=
  Runs.Leads.inv (P := Inv) (fun _ _ _ hi hst => hi.step hst) (inv_start env api req) h

/-! ### Answering a handler -/

/-- The answers of a run of the handler are steps of the request. -/
theorem leads_run {env : Env} {t : Task} {p q : Handler Response} {tr : Trace Answer}
    (hp : t.phase = .running p) (hr : Run p tr q) :
    Runs.Leads (Step env) t { t with trace := t.trace ++ tr, phase := .running q } := by
  induction hr generalizing t with
  | nil p =>
    have ht : { t with trace := t.trace ++ [], phase := .running p } = t := by
      rw [List.append_nil, ← hp]
    rw [ht]
    exact .refl t
  | @cons e k r tr q hr ih =>
    have hrest := ih (t := { t with trace := t.trace ++ [⟨e, r⟩], phase := .running (k r) }) rfl
    rw [List.append_assoc] at hrest
    exact .head (.answer r hp) hrest

/-- A request whose effects are answered by a function, up to the first one it does not answer. -/
def played (env : Env) (api : ApiFormat) (req : Request) (f : (e : Eff) → Option (Answer e)) : Task :=
  { start env api req with
    trace := (play f (handler env api req)).1
    phase := .running (play f (handler env api req)).2 }

theorem reached_played (env : Env) (api : ApiFormat) (req : Request)
    (f : (e : Eff) → Option (Answer e)) : Reached env api req (played env api req f) :=
  leads_run rfl (run_play f (handler env api req))

end Task

end Mybro
