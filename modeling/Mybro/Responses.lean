import Mybro.Panics
import Mybro.Task

/-!
# Statuses and records over the life of a request

Two properties of every request, with the exact condition for each.

* `StatusHonest`: an error object of the proxy carries the status it was given, and a stored record
  the status that was sent.
* One record: a request that has called upstream has stored one record when its response is over.
-/

namespace Mybro

open Prog

namespace Task

/-! ### Statuses -/

/-- The statuses of a request agree: the one given to `openai_error` or `anthropic_error` is the one
sent, and no success; the one recorded is the one sent. -/
def StatusHonest (t : Task) : Prop :=
  ∀ resp, t.response = some resp →
    (∀ g, resp.given = some g → resp.status = g ∧ isSuccess resp.status = false) ∧
      ∀ r ∈ t.account.records, r.status = resp.status

/-- The request was turned away before its body was looked at. -/
def Refused (t : Task) : Prop :=
  t.account.last = none ∧ ∃ cfg, t.account.authConfig = some cfg ∧
    (checkAuth cfg t.req.headers = false ∨ t.req.body = none)

/-- The last upstream call got a reply, and if that was an event stream for `/v1/messages` which
ended cleanly, its status was 200. -/
def Replied (t : Task) : Prop :=
  ∃ reply, t.account.last = some (.ok reply) ∧
    (t.api = .anthropic → reply.isEventStream = true → t.phase = .finished .complete →
      reply.status = 200)

/-- The statuses of a request for which a response has been sent. -/
theorem statusHonest_iff_of_response {t : Task} {resp : Response} (hresp : t.response = some resp) :
    t.StatusHonest ↔
      (∀ g, resp.given = some g → resp.status = g ∧ isSuccess resp.status = false) ∧
        ∀ r ∈ t.account.records, r.status = resp.status := by
  refine ⟨fun hs => hs resp hresp, fun hs resp' hresp' => ?_⟩
  rw [hresp] at hresp'
  cases hresp'
  exact hs

/-- A streamed response is honest until its record is stored. -/
theorem Relayed.statusHonest {t : Task} (h : t.Relayed []) : t.StatusHonest := by
  obtain ⟨resp, reply, hresp, -, -, hgiven, -⟩ := h.sent
  refine (statusHonest_iff_of_response hresp).2 ⟨fun g hg => ?_, fun r hr => ?_⟩
  · rw [hgiven] at hg
    cases hg
  · rw [h.records_eq] at hr
    cases hr

theorem Relayed.replied {t : Task} {l : List RequestRecord} (h : t.Relayed l)
    (hopen : t.phase ≠ .finished .complete) : t.Replied := by
  obtain ⟨resp, reply, -, hlast, -⟩ := h.sent
  exact ⟨reply, hlast, fun _ _ hover => absurd hover hopen⟩

/-- A stream that was relayed to its end: its record says 200, whatever was sent. -/
theorem Relayed.statusHonest_iff_replied {t : Task} {r : RequestRecord} (h : t.Relayed [r])
    (hr : r.status = 200) (hover : t.phase = .finished .complete) : t.StatusHonest ↔ t.Replied := by
  obtain ⟨resp, reply, hresp, hlast, hstream, hgiven, hstatus⟩ := h.sent
  rw [statusHonest_iff_of_response hresp, h.records_eq]
  constructor
  · rintro ⟨-, hrecord⟩
    have h200 : resp.status = 200 := (hrecord r (List.mem_singleton_self r)).symm.trans hr
    refine ⟨reply, hlast, fun hapi _ _ => ?_⟩
    rw [hstatus, hapi] at h200
    exact h200
  · rintro ⟨reply', hlast', h200⟩
    rw [hlast] at hlast'
    cases hlast'
    have hsent : resp.status = 200 := by
      rw [hstatus]
      cases hapi : t.api with
      | openAI => rfl
      | anthropic => exact h200 hapi hstream hover
    refine ⟨fun g hg => ?_, fun r' hr' => ?_⟩
    · rw [hgiven] at hg
      cases hg
    · rw [List.mem_singleton.1 hr', hr, hsent]

/-- The ways of returning with a whole body, against the two conditions. -/
theorem statusHonest_iff_of_answered {t : Task} {resp : Response} {b : List UInt8}
    (hresp : t.response = some resp) (hbody : resp.body = .bytes b)
    (h : Answered t.api t.req t.account resp) : t.StatusHonest ↔ t.Refused ∨ t.Replied := by
  rw [statusHonest_iff_of_response hresp]
  cases h with
  | refused cfg b auth why last unread records body given =>
    refine ⟨fun _ => Or.inl ⟨last, cfg, auth, why⟩, fun _ => ⟨fun g hg => ?_, fun r hr => ?_⟩⟩
    · rw [given] at hg
      cases hg
    · rw [records] at hr
      cases hr
  | rejected cfg b g auth authorized read last unread records body given given_mem status =>
    -- neither side holds: 400 or 503 was given and 200 sent
    refine ⟨fun hs => ?_, ?_⟩
    · have hg : resp.status = g := (hs.1 g given).1
      omega
    · rintro (⟨-, cfg', hcfg', hwhy⟩ | ⟨reply, hreply, -⟩)
      · rw [auth] at hcfg'
        cases hcfg'
        rcases hwhy with hwhy | hwhy
        · rw [authorized] at hwhy
          cases hwhy
        · exact absurd hwhy read
      · rw [last] at hreply
        cases hreply
  | unreachable err r b last unread records body given status =>
    refine ⟨fun hs => ?_, ?_⟩
    · have hg : resp.status = 502 := (hs.1 502 given).1
      omega
    · rintro (⟨hlast, -⟩ | ⟨reply, hreply, -⟩)
      · rw [last] at hlast
        cases hlast
      · rw [last] at hreply
        cases hreply
  | relayed reply r b last unread noStream noted records body given status =>
    refine ⟨fun _ => Or.inr ⟨reply, last, fun _ hs => ?_⟩, fun _ => ⟨fun g hg => ?_, fun r' hr' => ?_⟩⟩
    · rw [noStream] at hs
      cases hs
    · rw [given] at hg
      cases hg
    · rw [records, List.mem_singleton] at hr'
      rw [hr', status]
  | passedOn reply b format last unread noSuccess noError records body given =>
    refine ⟨fun _ => Or.inr ⟨reply, last, fun _ hs => ?_⟩, fun _ => ⟨fun g hg => ?_, fun r hr => ?_⟩⟩
    · simp [Reply.isEventStream, noSuccess] at hs
    · rw [given] at hg
      cases hg
    · rw [records] at hr
      cases hr
  | streamed reply p last stream records body =>
    rw [hbody] at body
    cases body

/-- **The statuses of a request agree exactly when no response was sent for it, it was turned away
before its body was looked at, or upstream replied (with status 200, for an event stream that
`/v1/messages` relayed to its end).** -/
theorem statusHonest_iff {env : Env} {api : ApiFormat} {req : Request} {t : Task}
    (h : Reached env api req t) :
    t.StatusHonest ↔ t.response = none ∨ t.Refused ∨ t.Replied := by
  have hinv : t.Inv := h.inv
  have hnone : t.response = none → (t.StatusHonest ↔ t.response = none ∨ t.Refused ∨ t.Replied) := by
    intro hresp
    refine ⟨fun _ => Or.inl hresp, fun _ resp hr => ?_⟩
    rw [hresp] at hr
    cases hr
  have hopen : t.Relayed [] → t.phase ≠ .finished .complete →
      (t.StatusHonest ↔ t.response = none ∨ t.Refused ∨ t.Replied) := fun hrel hopen =>
    ⟨fun _ => Or.inr (Or.inr (hrel.replied hopen)), fun _ => hrel.statusHonest⟩
  have hsent : ∀ resp, t.response = some resp → (t.StatusHonest ↔ t.Refused ∨ t.Replied) →
      (t.StatusHonest ↔ t.response = none ∨ t.Refused ∨ t.Replied) := by
    intro resp hresp hiff
    rw [hiff]
    refine ⟨Or.inr, fun ho => ho.resolve_left ?_⟩
    rw [hresp]
    nofun
  unfold Inv at hinv
  cases hphase : t.phase with
  | running p =>
    rw [hphase] at hinv
    exact hnone hinv.1
  | streaming p =>
    rw [hphase] at hinv
    exact hopen hinv.2 (by rw [hphase]; nofun)
  | finished e =>
    rw [hphase] at hinv
    cases e with
    | failed => exact hopen hinv (by rw [hphase]; nofun)
    | disconnected pending =>
      cases pending with
      | none => exact hopen hinv (by rw [hphase]; nofun)
      | some e => exact hnone hinv.1
    | complete =>
      rcases hinv with ⟨resp, b, hresp, hbody, hans⟩ | ⟨r, hr, hrel⟩
      · exact hsent resp hresp (statusHonest_iff_of_answered hresp hbody hans)
      · obtain ⟨resp, reply, hresp, hlast, -⟩ := hrel.sent
        have hnot : ¬ t.Refused := by
          rintro ⟨hno, -⟩
          rw [hlast] at hno
          cases hno
        refine hsent resp hresp ((hrel.statusHonest_iff_replied hr hphase).trans ⟨Or.inr, fun ho => ?_⟩)
        exact ho.resolve_left hnot

/-! ### Records -/

/-- The request has issued an upstream call: one was answered, or the client went away during one.
-/
def Issued (t : Task) : Prop :=
  t.account.last ≠ none ∨ ∃ e, t.phase = .finished (.disconnected (some e)) ∧ e.IsUpstream

/-- The response ended as it should, and is none that `messages` passes on without a record: a reply
that is neither a success nor an error. -/
def Noted (t : Task) (e : Ending) : Prop :=
  e = .complete ∧ ∀ reply, t.api = .anthropic → t.account.last = some (.ok reply) →
    isSuccess reply.status = true ∨ 400 ≤ reply.status

/-- The ways of returning with a whole body after an upstream call: one of them stores no record. -/
theorem records_of_answered {t : Task} {resp : Response} {b : List UInt8}
    (h : Answered t.api t.req t.account resp) (hbody : resp.body = .bytes b)
    (hlast : t.account.last ≠ none) :
    (∃ r, t.account.records = [r] ∧ t.Noted .complete) ∨
      (t.account.records = [] ∧ ¬ t.Noted .complete) := by
  cases h with
  | refused cfg b auth why last => exact absurd last hlast
  | rejected cfg b g auth authorized read last => exact absurd last hlast
  | unreachable err r b last unread records =>
    refine Or.inl ⟨r, records, rfl, fun reply _ hreply => ?_⟩
    rw [last] at hreply
    cases hreply
  | relayed reply r b last unread noStream noted records =>
    refine Or.inl ⟨r, records, rfl, fun reply' hapi hreply => ?_⟩
    rw [last] at hreply
    cases hreply
    exact noted hapi
  | passedOn reply b format last unread noSuccess noError records =>
    refine Or.inr ⟨records, fun hn => ?_⟩
    rcases hn.2 reply format last with hs | h400
    · rw [noSuccess] at hs
      cases hs
    · exact absurd h400 noError
  | streamed reply p last stream records body =>
    rw [hbody] at body
    cases body

/-- **A request that has called upstream stores at most one record, and it has stored one when its
response is over exactly when the response ended cleanly and was not a reply below 400 other than
2xx that `messages` passed on.** -/
theorem records_iff {env : Env} {api : ApiFormat} {req : Request} {t : Task} {e : Ending}
    (h : Reached env api req t) (hphase : t.phase = .finished e) (hissued : t.Issued) :
    t.account.records.length ≤ 1 ∧ (t.account.records.length = 1 ↔ t.Noted e) := by
  have hinv : t.Inv := h.inv
  unfold Inv at hinv
  rw [hphase] at hinv
  have hcount : (∃ r, t.account.records = [r] ∧ t.Noted e) ∨
      (t.account.records = [] ∧ ¬ t.Noted e) →
      t.account.records.length ≤ 1 ∧ (t.account.records.length = 1 ↔ t.Noted e) := by
    rintro (⟨r, hrec, hn⟩ | ⟨hrec, hn⟩)
    · rw [hrec]
      exact ⟨le_rfl, ⟨fun _ => hn, fun _ => rfl⟩⟩
    · rw [hrec]
      exact ⟨Nat.zero_le 1, ⟨nofun, fun h => absurd h hn⟩⟩
  apply hcount
  cases e with
  | failed => exact Or.inr ⟨hinv.records_eq, fun hn => nomatch hn.1⟩
  | disconnected pending =>
    cases pending with
    | none => exact Or.inr ⟨hinv.records_eq, fun hn => nomatch hn.1⟩
    | some e => exact Or.inr ⟨hinv.2.2.records hinv.2.1, fun hn => nomatch hn.1⟩
  | complete =>
    have hlast : t.account.last ≠ none := by
      rcases hissued with hlast | ⟨e, he, -⟩
      · exact hlast
      · rw [hphase] at he
        cases he
    rcases hinv with ⟨resp, b, hresp, hbody, hans⟩ | ⟨r, -, hrel⟩
    · exact records_of_answered hans hbody hlast
    · -- a stream comes from a success
      obtain ⟨resp, reply, -, hreply, hstream, -⟩ := hrel.sent
      refine Or.inl ⟨r, hrel.records_eq, rfl, fun reply' _ hreply' => Or.inl ?_⟩
      rw [hreply] at hreply'
      cases hreply'
      simp only [Reply.isEventStream, Bool.and_eq_true] at hstream
      exact hstream.1

/-! ### Particular lives -/

/-- An environment whose parser reads `{}`, and a request with that body. -/
def sampleEnv : Env := envParsing (.object []) []

def emptyRequest : Request := ⟨[], some (Value.object []).toVec⟩

/-- Answers to a request that is admitted and gets a reply, with an empty body. -/
def sampleAnswers (reply : Except String Reply) : (e : Eff) → Option (Answer e)
  | .config => some {}
  | .catalog => some none
  | .keypoolTotal => some 1
  | .acquireKey _ => some (some ⟨0, "sk-1", "main"⟩)
  | .markHealthy _ => some ()
  | .markUnhealthy _ _ => some ()
  | .gateAcquire => some true
  | .bumpThrottled => some ()
  | .touch _ => some none
  | .track _ _ => some ⟨1, 2, some 0, false⟩
  | .analyzeImages _ _ _ => none
  | .send _ => some reply
  | .readBody => some (some [])
  | .sleep _ => some ()
  | .instant => some 0
  | .unixMillis => some 0
  | .localTime => some ""
  | .record _ => some ()
  | .logError _ => some ()
  | .info _ => some ()
  | .abort _ => none

/-- Answers to such a request when the reply has the given body, or one that cannot be read. -/
def bodyAnswers (reply : Reply) (body : Option (List UInt8)) : (e : Eff) → Option (Answer e)
  | .readBody => some body
  | e => sampleAnswers (.ok reply) e

/-- An event stream. -/
def sseReply : Reply := ⟨200, [header "content-type" "text/event-stream"]⟩

/-- A body that is no JSON is answered by an error object that was given 400 and carries 200. -/
theorem invalid_json_sent_as_ok :
    ∃ t resp, Reached sampleEnv .openAI ⟨[], some (Utf8.encode "hello")⟩ t ∧
      t.response = some resp ∧ resp.given = some 400 ∧ resp.status = 200 := by
  have hplayed := reached_played sampleEnv .openAI ⟨[], some (Utf8.encode "hello")⟩
    (sampleAnswers (.ok sseReply))
  exact ⟨_, _, hplayed.trans (.one (.respond rfl rfl)), rfl, rfl, rfl⟩

/-- The status theorem on a request whose reply is relayed as a whole. -/
theorem statusHonest_of_reply :
    ∃ t, Reached sampleEnv .openAI emptyRequest t ∧ t.response ≠ none ∧ t.StatusHonest := by
  have hplayed := reached_played sampleEnv .openAI emptyRequest (sampleAnswers (.ok ⟨200, []⟩))
  have hreached := hplayed.trans (.one (.respond rfl rfl))
  exact ⟨_, hreached, nofun, (statusHonest_iff hreached).2 (Or.inr (Or.inr ⟨_, rfl, nofun⟩))⟩

/-- A stream that fails before its first chunk leaves no record of its request. -/
theorem failed_stream_leaves_no_record :
    ∃ t, Reached sampleEnv .openAI emptyRequest t ∧ t.phase = .finished .failed ∧ t.Issued ∧
      t.account.records = [] := by
  have hplayed := reached_played sampleEnv .openAI emptyRequest (sampleAnswers (.ok sseReply))
  have hfailed := hplayed.trans (.head (.respondStream rfl rfl) (.one (.streamFails rfl)))
  exact ⟨_, hfailed, rfl, Or.inl nofun, rfl⟩

/-- The record theorem on a request whose stream is relayed to its end. -/
theorem one_record_of_stream :
    ∃ t, Reached sampleEnv .openAI emptyRequest t ∧ t.account.records.length = 1 := by
  have hplayed := reached_played sampleEnv .openAI emptyRequest (sampleAnswers (.ok sseReply))
  have hended := hplayed.trans (.head (.respondStream rfl rfl) (.one (.endOfStream 5 rfl)))
  exact ⟨_, hended, (records_iff hended rfl (Or.inl nofun)).2.2 ⟨rfl, nofun⟩⟩

end Task

end Mybro
