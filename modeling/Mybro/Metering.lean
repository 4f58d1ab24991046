import Mybro.Forwarding
import Mybro.Handoff
import Mybro.PayloadFrame
import Mybro.UsageStream

/-!
# What is booked of a request (`routes/chat.rs`, `routes/messages.rs`, `routes/stream.rs`)

A ledger beside the request keeps the key acquired last, the last call with its result, and the
verdict on the key that this result calls for.

* `records_metered`: the record of a request names the key that the last call was made with and the
  model that this call asked for, tells how the call ended, and has the usage of exactly the bytes
  that were relayed, in whatever chunks they came.
* `marks_eq_verdicts`: the key pool is told the verdicts on the calls, one by one, each on the key
  the call was made with, and nothing else.
-/

namespace Mybro

open Value Prog

/-! ### The ledger -/

/-- What the pool is told about a key. -/
inductive Verdict
  | healthy
  | unhealthy (status : ℕ)
  deriving DecidableEq

/-- The verdict that the result of a call calls for, if any. -/
def verdictOn (api : ApiFormat) : Except String Reply → Option Verdict
  | .error _ => some (.unhealthy 502)
  | .ok reply =>
    if isSuccess reply.status then some .healthy
    else match api with
      | .openAI =>
        if reply.status = 500 ∨ reply.status = 503 then some (.unhealthy reply.status) else none
      | .anthropic => if reply.status = 503 then some (.unhealthy reply.status) else none

/-- The key acquired last, the last call, its result, the body of its reply once that has been read,
the verdict that the pool has not been told yet, and the records stored. -/
structure Ledger where
  slot : Option KeySlot := none
  call : Option UpstreamCall := none
  result : Option (Except String Reply) := none
  body : Option (List UInt8) := none
  owed : Option (ℕ × Verdict) := none
  records : List RequestRecord := []

namespace Ledger

/-- The verdict on a call, with the index of the key it is about. -/
def verdict (api : ApiFormat) (l : Ledger) (result : Except String Reply) : Option (ℕ × Verdict) :=
  l.slot.bind fun slot => (verdictOn api result).map fun v => (slot.index, v)

/-- The ledger after one more answer. -/
def add (api : ApiFormat) (l : Ledger) : (e : Eff) → Answer e → Ledger
  | .acquireKey _, slot => { l with slot := Option.or slot l.slot }
  | .send call, result =>
    { l with
      call := some call
      result := some result
      body := none
      owed := l.verdict api result }
  | .readBody, body => { l with body := body }
  | .markHealthy _, _ => { l with owed := none }
  | .markUnhealthy _ _, _ => { l with owed := none }
  | .record r, _ => { l with records := l.records ++ [r] }
  | _, _ => l

/-- A call is made with the key acquired last, the pool is told the verdict on it before the next
call, and nothing else, and only one record is stored. -/
def Honours (l : Ledger) : Eff → Prop
  | .send call => l.owed = none ∧ ∃ slot, l.slot = some slot ∧ call.key = slot.key
  | .markHealthy i => l.owed = some (i, .healthy)
  | .markUnhealthy i status => l.owed = some (i, .unhealthy status)
  | .record _ => l.records = []
  | _ => True

end Ledger

/-- The ledger of a request. -/
def Task.ledger (t : Task) : Ledger := after (Ledger.add t.api) {} t.trace

/-- The pipeline as a record names it. -/
def pipelineName : ApiFormat → String
  | .openAI => "openai"
  | .anthropic => "anthropic"

/-- How a record tells the result of a call: 502 and the error of the transport when there was no
reply; no error for a 2xx reply, with its status or with 200; for any other reply its status, and no
error or the text of its body. -/
def Tells (body : Option (List UInt8)) : Except String Reply → ℕ → Option String → Prop
  | .error err, status, error => status = 502 ∧ error = some err
  | .ok reply, status, error =>
    if isSuccess reply.status then (status = reply.status ∨ status = 200) ∧ error = none
    else status = reply.status ∧ (error = none ∨ error = some (errorText body))

/-- The usage that an event stream reports, whatever its chunks. -/
def streamUsage (env : Env) (bytes : List UInt8) : Usage :=
  Usage.fieldMax ((bytes.splitOn 10).map (lineUsage env.fromSlice))

/-- The usage of what the client got: that of the bytes relayed so far, for an event stream; that of
the body, for another 2xx reply; none, for anything else. -/
def usageOf (env : Env) (body : Option (List UInt8)) (relayed : List UInt8) :
    Except String Reply → Usage
  | .error _ => {}
  | .ok reply =>
    if reply.isEventStream then streamUsage env relayed
    else if isSuccess reply.status then extractUsage env.fromSlice (body.getD [])
    else {}

/-- The last call was made with the key acquired last, which has this name, for this model. -/
def Attributed (l : Ledger) (model keyName : String) : Prop :=
  ∃ (slot : KeySlot) (call : UpstreamCall) (payload : Value), l.slot = some slot ∧
    l.call = some call ∧ call.key = slot.key ∧ keyName = slot.name ∧ call.body = payload.toVec ∧
    payload.get "model" = some (string model)

/-- The record of a request agrees with its ledger and with the bytes relayed. -/
structure Metered (env : Env) (api : ApiFormat) (l : Ledger) (relayed : List UInt8)
    (r : RequestRecord) : Prop where
  attributed : Attributed l r.model r.keyName
  pipeline : r.pipeline = pipelineName api
  outcome : ∃ result, l.result = some result ∧ Tells l.body result r.status r.error ∧
    r.withUsage (usageOf env l.body relayed result) = r

/-! ### The model of the payload -/

/-- The place is not the model, nor below it. -/
def BesideModel (p : List Seg) : Prop := ∃ k rest, p = .key k :: rest ∧ k ≠ "model"

theorem get_model_of_frame {v w : Value} (h : DiffersOnlyAt BesideModel v w) :
    w.get "model" = v.get "model" := by
  have hsame := h.same [.key "model"] ?_ ?_
  · simpa [getAt] using hsame
  · rintro _ hp ⟨k, rest, rfl, hk⟩
    simp [List.cons_prefix_cons, hk] at hp
  · rintro _ hp ⟨k, rest, rfl, hk⟩
    simp [List.cons_prefix_cons, Ne.symm hk] at hp

theorem get_of_setIndex {v w : Value} {k : String} {x : Value} (h : v.setIndex k x = some w) :
    w.get k = some x := by
  cases v with
  | null =>
    cases h
    simp [Value.get]
  | object m =>
    cases h
    simp [Value.get]
  | _ => cases h

theorem isObject_of_get {v x : Value} {k : String} (h : v.get k = some x) : v.isObject = true := by
  cases v <;> first | rfl | cases h

section Model

variable {payload w : Value}

theorem get_model_normalizeTools : (normalizeTools payload).get "model" = payload.get "model" := by
  simp [normalizeTools]

theorem get_model_normalizeThinkingPayload :
    (normalizeThinkingPayload payload).get "model" = payload.get "model" := by
  simp [normalizeThinkingPayload]

theorem get_model_limitImagesInMessages (maxImages : ℕ) :
    (limitImagesInMessages payload maxImages).get "model" = payload.get "model" := by
  refine get_model_of_frame (frame_limitImagesInMessages maxImages fun path hpath => ?_)
  obtain ⟨k, rest, rfl, hk⟩ := hpath.1.head
  rcases hk with rfl | rfl
  · exact ⟨_, _, rfl, by decide⟩
  · exact ⟨_, _, rfl, by decide⟩

theorem get_model_applyAutoThink {catalog : Option Catalog} {resolved : String} {x : Value}
    (hmodel : payload.get "model" = some x) (h : applyAutoThink catalog payload resolved = some w) :
    w.get "model" = payload.get "model" :=
  get_model_of_frame (frame_applyAutoThink (isObject_of_get hmodel)
    ⟨"thinking", [], rfl, nofun⟩ h)

theorem get_model_includeUsage : (includeUsage payload).get "model" = payload.get "model" :=
  get_model_of_frame (frame_includeUsage ⟨"stream_options", [], rfl, nofun⟩)

theorem get_model_replaceParts (descriptions : List String) :
    (replaceParts payload (collectImageParts payload) descriptions).get "model" =
      payload.get "model" := by
  refine get_model_of_frame ((frame_replaceParts payload descriptions).mono fun path hpath => ?_)
  cases hpath.walkPath with
  | system i => exact ⟨_, _, rfl, nofun⟩
  | content i j => exact ⟨_, _, rfl, nofun⟩
  | nested i j k => exact ⟨_, _, rfl, nofun⟩

end Model

/-! ### The preparation of the payload -/

/-- The effect enters nothing in the ledger. -/
def Unentered : Eff → Prop
  | .acquireKey _ | .send _ | .readBody | .record _ | .markHealthy _ | .markUnhealthy _ _ => False
  | _ => True

theorem unentered_of_prepares (e : Eff) (he : Prepares e) : Unentered e := by
  cases e <;> trivial

theorem unentered_perform {e : Eff} (he : Unentered e) :
    Ensures Unentered (fun _ => True) (perform e) := ⟨he, fun _ => trivial⟩

theorem unentered_doIf {c : Prop} [Decidable c] {p : Handler Unit}
    (h : Ensures Unentered (fun _ => True) p) : Ensures Unentered (fun _ => True) (doIf c p) := by
  unfold doIf
  split_ifs
  · exact h
  · trivial

theorem unentered_logUpstreamError (env : Env) (stage url : String) (attempt : ℕ)
    (sessNum : UInt64) (slotName : String) (status : ℕ) (errorBody : String) :
    Ensures Unentered (fun _ => True)
      (logUpstreamError env stage url attempt sessNum slotName status errorBody) :=
  ⟨trivial, fun _ => ⟨trivial, fun _ => trivial⟩⟩

theorem unentered_orPanic {α : Type} (site : Panic) (o : Option α) :
    Ensures Unentered (fun a => o = some a) (orPanic site o) := by
  cases o with
  | none => exact ⟨trivial, nofun⟩
  | some a => rfl

/-- The payload asks for the model. -/
def AsksFor (resolved : String) (payload : Value) : Prop :=
  payload.get "model" = some (string resolved)

theorem unentered_resolveModel (cfg : Config) (payload : Value) :
    Ensures Unentered (fun x => AsksFor x.2 x.1) (resolveModel cfg payload) := by
  refine ⟨trivial, fun catalog => ?_⟩
  show Ensures _ _ (orPanic .index _ >>= _)
  exact ensures_bind (unentered_orPanic _ _) fun _ h => get_of_setIndex h

theorem unentered_visionStep {payload : Value} {resolved model : String} {cfg : Config}
    {key : String} (h : AsksFor model payload) :
    Ensures Unentered (AsksFor model) (visionStep payload resolved cfg key) := by
  refine ⟨trivial, fun catalog => ?_⟩
  show Ensures _ _ (if _ then _ else _)
  split_ifs
  · refine ⟨trivial, fun catalog => ?_⟩
    show Ensures _ _ (if _ then _ else _)
    split_ifs
    · exact h
    · exact ⟨trivial, fun descriptions => (get_model_replaceParts _).trans h⟩
    · exact h
  · exact h

theorem unentered_chatPayload (payload : Value) (slot : KeySlot) (stream : Bool) :
    Ensures Unentered (fun x => AsksFor x.2.2 x.1) (chatPayload payload slot stream) := by
  refine ⟨trivial, fun cfg => ?_⟩
  show Ensures _ _ (resolveModel cfg _ >>= _)
  refine ensures_bind (unentered_resolveModel cfg _) fun p hp =>
    ⟨trivial, fun catalog => ⟨trivial, fun catalog' => ?_⟩⟩
  show Ensures _ _ (orPanic .index _ >>= _)
  have hlimit : AsksFor p.2 (if needsVisionHandoff catalog p.2 cfg then normalizeTools p.1
      else limitImagesInMessages (normalizeTools p.1) cfg.maxImages) := by
    split_ifs
    · exact get_model_normalizeTools.trans hp
    · exact (get_model_limitImagesInMessages _).trans (get_model_normalizeTools.trans hp)
  refine ensures_bind (unentered_orPanic _ _) fun w hw => ?_
  have hthink : AsksFor p.2 (normalizeThinkingPayload w) :=
    get_model_normalizeThinkingPayload.trans ((get_model_applyAutoThink hlimit hw).trans hlimit)
  refine ensures_bind (unentered_visionStep hthink) fun v hv => ?_
  show AsksFor p.2 (if stream then includeUsage v else v)
  split_ifs
  · exact get_model_includeUsage.trans hv
  · exact hv

theorem unentered_messagesPayload (payload : Value) (slot : KeySlot) :
    Ensures Unentered (fun x => AsksFor x.2.2 x.1) (messagesPayload payload slot) := by
  refine ⟨trivial, fun cfg => ?_⟩
  show Ensures _ _ (resolveModel cfg _ >>= _)
  refine ensures_bind (unentered_resolveModel cfg _) fun p hp => ?_
  have hlimit : AsksFor p.2 (limitImagesInMessages p.1 cfg.maxImages) :=
    (get_model_limitImagesInMessages _).trans hp
  exact ensures_bind (unentered_visionStep hlimit) fun w hw => get_model_normalizeTools.trans hw

/-! ### Rules -/

section Rules

variable {α β : Type} {api : ApiFormat} {l : Ledger} {Q : Ledger → α → Prop}

/-- Whatever the answers, the pool is told what is owed, and the values returned satisfy `Q` of the
ledger. -/
abbrev Keeps (api : ApiFormat) (Q : Ledger → α → Prop) : Handler α → Ledger → Prop :=
  Sat (Ledger.add api) Ledger.Honours Q

/-- The rule for a part that enters nothing. -/
theorem keeps_part {P : β → Prop} {p : Handler β} {f : β → Handler α} (hp : Ensures Unentered P p)
    (h : ∀ b, P b → Keeps api Q (f b) l) : Keeps api Q (p >>= f) l := by
  have hsame : ∀ e, Unentered e → l.Honours e ∧ ∀ r, l.add api e r = l := by
    intro e he
    cases e <;> first | exact ⟨trivial, fun _ => rfl⟩ | exact he.elim
  exact sat_bind_of_ensures hsame hp h

theorem keeps_perform {e : Eff} {f : Answer e → Handler α} (he : Unentered e)
    (h : ∀ r, Keeps api Q (f r) l) : Keeps api Q (perform e >>= f) l :=
  keeps_part (unentered_perform he) fun r _ => h r

theorem keeps_readBodyOrEmpty {f : List UInt8 → Handler α}
    (h : ∀ body : Option (List UInt8), Keeps api Q (f (body.getD [])) { l with body := body }) :
    Keeps api Q (readBodyOrEmpty >>= f) l := ⟨trivial, h⟩

theorem keeps_readErrorBody {f : String → Handler α}
    (h : ∀ body : Option (List UInt8), Keeps api Q (f (errorText body)) { l with body := body }) :
    Keeps api Q (readErrorBody >>= f) l := ⟨trivial, h⟩

/-- The pool is told what it is owed. -/
theorem keeps_mark {i : ℕ} {v : Verdict} {f : Unit → Handler α} (howed : l.owed = some (i, v))
    (h : Keeps api Q (f ()) { l with owed := none }) :
    Keeps api Q ((match v with
      | .healthy => perform (.markHealthy i)
      | .unhealthy status => perform (.markUnhealthy i status)) >>= f) l := by
  cases v with
  | healthy => exact ⟨howed, fun _ => h⟩
  | unhealthy status => exact ⟨howed, fun _ => h⟩

end Rules

/-- The last call was made for the model, with the key of this name, and had the result; nothing is
recorded yet. -/
structure Charged (l : Ledger) (model keyName : String) (result : Except String Reply) : Prop where
  attributed : Attributed l model keyName
  result : l.result = some result
  records : l.records = []

/-- Reading the body leaves the call as it was. -/
theorem Charged.body {l : Ledger} {model keyName : String} {result : Except String Reply}
    (h : Charged l model keyName result) (body : Option (List UInt8)) :
    Charged { l with body := body } model keyName result := ⟨h.attributed, h.result, h.records⟩

/-- So does telling the pool. -/
theorem Charged.told {l : Ledger} {model keyName : String} {result : Except String Reply}
    (h : Charged l model keyName result) : Charged { l with owed := none } model keyName result :=
  ⟨h.attributed, h.result, h.records⟩

/-- What a stream will store: the record prepared for it, and the usage accumulated so far. -/
structure PipeMetered (env : Env) (api : ApiFormat) (l : Ledger) (relayed : List UInt8) (p : Pipe) :
    Prop where
  attributed : Attributed l p.record.model p.record.keyName
  pipeline : p.record.pipeline = pipelineName api
  status : p.record.status = 200
  error : p.record.error = none
  reply : ∃ reply, l.result = some (.ok reply) ∧ reply.isEventStream = true
  records : l.records = []
  acc : ∃ chunks : List (List UInt8), chunks.flatten = relayed ∧
    p.acc = chunks.foldl (SseUsageAccumulator.ingest env.fromSlice) {}

/-- What has been stored when the handler returns, or is left to the stream; the pool has been told.
-/
def Books (env : Env) (api : ApiFormat) (l : Ledger) (resp : Response) : Prop :=
  l.owed = none ∧
    match resp.body with
    | .bytes _ => ∀ r ∈ l.records, Metered env api l [] r
    | .stream p => PipeMetered env api l [] p

/-- A handler that keeps its books. -/
abbrev KeepsBooks (env : Env) (api : ApiFormat) : Handler Response → Ledger → Prop :=
  Keeps api (Books env api)

section Handlers

variable {env : Env} {api : ApiFormat} {l : Ledger} {model keyName : String}
variable {result : Except String Reply} {reply : Reply}

theorem books_of_records {resp : Response} {b : List UInt8} (hbody : resp.body = .bytes b)
    (htold : l.owed = none) (h : ∀ r ∈ l.records, Metered env api l [] r) :
    Books env api l resp := by
  refine ⟨htold, ?_⟩
  rw [hbody]
  exact h

/-- A response without a record. -/
theorem books_of_none {resp : Response} {b : List UInt8} (hbody : resp.body = .bytes b)
    (htold : l.owed = none) (h : l.records = []) : Books env api l resp := by
  refine books_of_records hbody htold fun r hr => ?_
  rw [h] at hr
  cases hr

theorem keeps_recordStat {start : ℕ} {ttftMs : Option UInt64} {status : ℕ} {pipeline : String}
    {usage : Usage} {error : Option String} {f : Unit → Handler Response} {resp : Response}
    {b : List UInt8} (hl : Charged l model keyName result) (htold : l.owed = none)
    (hpipeline : pipeline = pipelineName api) (htells : Tells l.body result status error)
    (husage : usage = usageOf env l.body [] result) (hf : f () = pure resp)
    (hbody : resp.body = .bytes b) :
    KeepsBooks env api
      (recordStat start ttftMs status model pipeline keyName usage error >>= f) l := by
  refine ⟨trivial, fun tsMs => ⟨trivial, fun now => ⟨hl.records, fun _ => ?_⟩⟩⟩
  show KeepsBooks env api (f ()) { l with records := l.records ++ [_] }
  rw [hf, hl.records]
  refine books_of_records hbody htold fun r hr => ?_
  obtain rfl := List.mem_singleton.1 hr
  refine ⟨hl.attributed, hpipeline, result, hl.result, htells, ?_⟩
  rw [husage]
  rfl

/-! #### The parts of both handlers -/

/-- What is told of a 2xx reply. -/
theorem tells_success (hs : isSuccess reply.status = true) {status : ℕ}
    (hstatus : status = reply.status ∨ status = 200) (body : Option (List UInt8)) :
    Tells body (.ok reply) status none := by
  simp [Tells, hs, hstatus]

/-- What is told of another reply. -/
theorem tells_failure (hs : isSuccess reply.status = false) {body : Option (List UInt8)}
    {error : Option String} (herror : error = none ∨ error = some (errorText body)) :
    Tells body (.ok reply) reply.status error := by
  simp [Tells, hs, herror]

/-- A reply relayed as a stream. -/
theorem keeps_stream {pipeline : String} {upstreamStart reqStart status : ℕ} {headers : HeaderMap}
    (hl : Charged l model keyName (.ok reply)) (htold : l.owed = none)
    (hs : isSuccess reply.status = true) (hsse : reply.headers.isSse = true)
    (hpipeline : pipeline = pipelineName api) :
    KeepsBooks env api
      (do
        let record ← streamRecord model pipeline keyName
        pure { status := status, headers := headers
               body := .stream (Pipe.new record upstreamStart reqStart) }) l := by
  refine ⟨trivial, fun tsMs => ⟨htold, ?_⟩⟩
  show PipeMetered env api l [] _
  have hstream : reply.isEventStream = true := by simp [Reply.isEventStream, hs, hsse]
  exact ⟨hl.attributed, hpipeline, rfl, rfl, ⟨reply, hl.result, hstream⟩, hl.records, [], rfl, rfl⟩

/-- A 2xx reply read as a whole. -/
theorem keeps_whole {pipeline : String} {upstreamStart reqStart status : ℕ}
    {resp : List UInt8 → Response} (hl : Charged l model keyName (.ok reply))
    (htold : l.owed = none) (hs : isSuccess reply.status = true)
    (hsse : ¬ reply.headers.isSse = true) (hpipeline : pipeline = pipelineName api)
    (hstatus : status = reply.status ∨ status = 200)
    (hresp : ∀ body, ∃ b, (resp body).body = .bytes b) :
    KeepsBooks env api
      (do
        let body ← readBodyOrEmpty
        let now ← perform .instant
        recordStat reqStart (some (elapsedMillis upstreamStart now)) status model pipeline keyName
          (extractUsage env.fromSlice body) none
        pure (resp body)) l := by
  refine keeps_readBodyOrEmpty fun body => keeps_perform trivial fun now => ?_
  obtain ⟨b, hb⟩ := hresp (body.getD [])
  have hno : reply.isEventStream = false := by simp [Reply.isEventStream, hsse]
  refine keeps_recordStat (hl.body body) htold hpipeline (tells_success hs hstatus _) ?_ rfl hb
  simp only [usageOf, hno, hs, if_true]
  rfl

/-- Other replies, and none, have no usage. -/
theorem usageOf_of_failure (hs : isSuccess reply.status = false) (body : Option (List UInt8)) :
    {} = usageOf env body [] (.ok reply) := by
  simp [usageOf, Reply.isEventStream, hs]

/-! #### The OpenAI handler -/

theorem keeps_chatSuccess {c : ChatCall} {slot : KeySlot} (upstreamStart : ℕ)
    (hl : Charged l c.model slot.name (.ok reply)) (hs : isSuccess reply.status = true)
    (howed : l.owed = some (slot.index, .healthy)) :
    KeepsBooks c.env .openAI (chatSuccess c slot upstreamStart reply) l := by
  refine keeps_mark howed ?_
  by_cases hsse : reply.headers.isSse = true
  · rw [if_pos hsse]
    exact keeps_stream hl.told rfl hs hsse rfl
  · rw [if_neg hsse]
    refine keeps_whole hl.told rfl hs hsse rfl (Or.inr rfl) fun body => ?_
    split_ifs
    · exact ⟨_, rfl⟩
    · exact ⟨_, rfl⟩

theorem keeps_chatOther {c : ChatCall} {slot : KeySlot}
    (hl : Charged l c.model slot.name (.ok reply)) (hs : isSuccess reply.status = false)
    (htold : l.owed = none) : KeepsBooks c.env .openAI (chatOther c slot reply) l := by
  refine keeps_part (unentered_doIf (unentered_perform trivial)) fun _ _ => ?_
  refine keeps_readBodyOrEmpty fun body => ?_
  exact keeps_recordStat (hl.body body) htold rfl (tells_failure hs (Or.inl rfl))
    (usageOf_of_failure hs _) rfl rfl

theorem keeps_chatExhausted {c : ChatCall} {slot : KeySlot}
    (hl : Charged l c.model slot.name (.ok reply)) (hs : isSuccess reply.status = false)
    (htold : l.owed = none) :
    KeepsBooks c.env .openAI (chatExhausted c slot reply.status (errorText l.body)) l := by
  refine keeps_part (unentered_doIf (unentered_perform trivial)) fun _ _ => ?_
  exact keeps_recordStat hl htold rfl (tells_failure hs (Or.inr rfl)) (usageOf_of_failure hs _) rfl
    rfl

theorem keeps_chatUnreachable {c : ChatCall} {slot : KeySlot} {err : String}
    (hl : Charged l c.model slot.name (.error err)) (htold : l.owed = none) :
    KeepsBooks c.env .openAI (chatUnreachable c slot err) l :=
  keeps_recordStat hl htold rfl ⟨rfl, rfl⟩ rfl rfl rfl

/-- A retryable failure, given what the next attempt does. -/
theorem keeps_chatFailed {Q : Ledger → Response → Prop} (c : ChatCall) (attempt : ℕ)
    (slot : KeySlot) (status : ℕ) (errorBody : String) {last again : Handler Response}
    (howed : l.owed = some (slot.index, .unhealthy status))
    (hlast : Keeps api Q last { l with owed := none })
    (hagain : attempt ≠ maxRetries → Keeps api Q again { l with owed := none }) :
    Keeps api Q (chatFailed c attempt slot status errorBody last again) l := by
  refine keeps_mark howed ?_
  refine keeps_part (unentered_logUpstreamError _ _ _ _ _ _ _ _) fun _ _ => ?_
  by_cases hmax : attempt = maxRetries
  · rw [if_pos hmax]
    exact hlast
  · rw [if_neg hmax]
    exact keeps_perform trivial fun _ => hagain hmax

/-- The key is in the ledger, the pool has been told what it was owed, and nothing is recorded. -/
structure Holds (slot : KeySlot) (l : Ledger) : Prop where
  slot : l.slot = some slot
  told : l.owed = none
  records : l.records = []

theorem keeps_rotate {attempt : ℕ} {slot : KeySlot} {Q : Ledger → Response → Prop}
    {f : KeySlot → Handler Response} (hl : Holds slot l)
    (h : ∀ slot l, Holds slot l → Keeps api Q (f slot) l) :
    Keeps api Q (rotate attempt slot >>= f) l := by
  unfold rotate
  split_ifs
  · refine ⟨trivial, fun total => ?_⟩
    show Keeps api Q ((if (total : ℕ) > 1 then _ else _) >>= f) l
    split_ifs
    · refine ⟨trivial, fun next => h _ _ ⟨?_, hl.told, hl.records⟩⟩
      -- without another key the old one stays
      show Option.or next l.slot = some (Option.getD next slot)
      cases next with
      | none => exact hl.slot
      | some next => rfl
    · exact h slot l hl
  · exact h slot l hl

/-- The rule for the retry loop, for a condition on the key as well. -/
theorem chatLoop_rule_of_slot {σ : Type} {K : KeySlot → σ → Prop} {S : Handler Response → σ → Prop}
    (c : ChatCall) (after : KeySlot → Handler Response)
    (hattempt : ∀ (attempt : ℕ) (rest : List ℕ) (slot : KeySlot) (s : σ), K slot s →
      (attempt ≠ maxRetries → ∀ (slot : KeySlot) (s : σ), K slot s →
        S (chatLoop c after rest slot) s) →
      S (chatLoop c after (attempt :: rest) slot) s)
    {slot : KeySlot} {s : σ} (hs : K slot s) : S (chatLoop c after attempts slot) s := by
  -- by induction on the attempts that are left after the first
  have hloop : ∀ (n k : ℕ) (slot : KeySlot) (s : σ), k + n = maxRetries → K slot s →
      S (chatLoop c after (List.range' k (n + 1)) slot) s := by
    intro n
    induction n with
    | zero =>
      intro k slot s hk hs
      exact hattempt k [] slot s hs fun hne => absurd hk hne
    | succ n ih =>
      intro k slot s hk hs
      rw [List.range'_succ]
      exact hattempt k _ slot s hs fun _ slot s hs => ih (k + 1) slot s (by omega) hs
  exact hloop 9 1 slot s rfl hs

/-- One attempt, given what the attempts after it do. -/
theorem keeps_attempt (c : ChatCall) (after : KeySlot → Handler Response) {payload : Value}
    (hbody : c.body = payload.toVec) (hmodel : AsksFor c.model payload) (attempt : ℕ)
    (rest : List ℕ) {slot : KeySlot} (hl : Holds slot l)
    (hrest : attempt ≠ maxRetries → ∀ (slot : KeySlot) (l : Ledger), Holds slot l →
      KeepsBooks c.env .openAI (chatLoop c after rest slot) l) :
    KeepsBooks c.env .openAI (chatLoop c after (attempt :: rest) slot) l := by
  refine keeps_rotate hl fun slot l hl => keeps_perform trivial fun upstreamStart =>
    ⟨⟨hl.told, slot, hl.slot, rfl⟩, fun result => ?_⟩
  have hcharged : Charged (l.add .openAI (.send (c.request slot)) result) c.model slot.name
      result :=
    ⟨⟨slot, c.request slot, payload, hl.slot, rfl, rfl, rfl, hbody, hmodel⟩, rfl, hl.records⟩
  have howed : ∀ v, verdictOn .openAI result = some v →
      (l.add .openAI (.send (c.request slot)) result).owed = some (slot.index, v) := by
    intro v hv
    simp [Ledger.add, Ledger.verdict, hl.slot, hv]
  have hagain := fun hmax body => hrest hmax slot
    { l.add .openAI (.send (c.request slot)) result with body := body, owed := none }
    ⟨hl.slot, rfl, hl.records⟩
  refine chatResult_rule (S := fun p => KeepsBooks c.env .openAI p
    (l.add .openAI (.send (c.request slot)) result)) ?_ ?_ ?_ ?_
  · rintro reply rfl hs
    exact keeps_chatSuccess upstreamStart hcharged hs (howed _ (by simp [verdictOn, hs]))
  · rintro reply rfl hs hretry
    have hverdict := howed (.unhealthy reply.status) (by simp [verdictOn, hs, hretry])
    refine keeps_readErrorBody fun body => ?_
    exact keeps_chatFailed c attempt slot _ _ hverdict
      (keeps_chatExhausted (hcharged.body body).told hs rfl) fun hmax => hagain hmax body
  · rintro reply rfl hs hretry
    refine keeps_chatOther hcharged hs ?_
    simp [Ledger.add, Ledger.verdict, hl.slot, verdictOn, hs, hretry]
  · rintro err rfl
    exact keeps_chatFailed c attempt slot 502 err (howed _ rfl)
      (keeps_chatUnreachable hcharged.told rfl) fun hmax => hagain hmax none

theorem keeps_chatUpstream (headers : HeaderMap) (stream : Bool) {p : Prepared}
    (hmodel : AsksFor p.resolvedModel p.payload) (hl : Holds p.slot l) :
    KeepsBooks env .openAI (chatUpstream env headers stream p) l := by
  refine keeps_perform trivial fun reqStart => ?_
  let c : ChatCall := ⟨env, p.resolvedModel, p.sessNum, stream, p.payload.toVec,
    websearch headers p.cfg, reqStart⟩
  have hbody : c.body = p.payload.toVec := rfl
  exact chatLoop_rule_of_slot (K := Holds) (S := KeepsBooks c.env .openAI) c (chatAfterLoop c)
    (fun k rest slot l hl hrest => keeps_attempt c _ hbody hmodel k rest hl hrest) hl

/-! #### The Anthropic handler -/

theorem keeps_messagesSuccess {c : MessagesCall} (upstreamStart : ℕ)
    (hl : Charged l c.model c.slot.name (.ok reply)) (hs : isSuccess reply.status = true)
    (howed : l.owed = some (c.slot.index, .healthy)) :
    KeepsBooks c.env .anthropic (messagesSuccess c upstreamStart reply) l := by
  refine keeps_mark howed ?_
  by_cases hsse : reply.headers.isSse = true
  · rw [if_pos hsse]
    exact keeps_stream hl.told rfl hs hsse rfl
  · rw [if_neg hsse]
    exact keeps_whole hl.told rfl hs hsse rfl (Or.inl rfl) fun body => ⟨_, rfl⟩

theorem keeps_messagesError {c : MessagesCall} (hl : Charged l c.model c.slot.name (.ok reply))
    (hs : isSuccess reply.status = false)
    (howed : l.owed = if reply.status = 503 then some (c.slot.index, .unhealthy reply.status)
      else none) :
    KeepsBooks c.env .anthropic (messagesError c reply) l := by
  refine keeps_readErrorBody fun body => ?_
  refine keeps_part (unentered_logUpstreamError _ _ _ _ _ _ _ _) fun _ _ => ?_
  -- what is left once the pool has been told
  have hrest : ∀ l : Ledger, Charged l c.model c.slot.name (.ok reply) → l.owed = none →
      l.body = body → KeepsBooks c.env .anthropic (do
        doIf (reply.status = 429 ∨ reply.status = 503) (perform .bumpThrottled)
        recordStat c.reqStart none reply.status c.model "anthropic" c.slot.name {}
          (some (errorText body))
        pure { status := reply.status
               headers := reply.headers
               body := .bytes (Utf8.encode (errorText body)) }) l := by
    rintro l hl htold rfl
    refine keeps_part (unentered_doIf (unentered_perform trivial)) fun _ _ => ?_
    exact keeps_recordStat hl htold rfl (tells_failure hs (Or.inr rfl)) (usageOf_of_failure hs _)
      rfl rfl
  unfold doIf
  by_cases h503 : reply.status = 503
  · rw [if_pos h503] at howed ⊢
    exact ⟨howed, fun _ => hrest _ (hl.body body).told rfl rfl⟩
  · rw [if_neg h503] at howed ⊢
    exact hrest _ (hl.body body) howed rfl

theorem keeps_messagesUnreachable {c : MessagesCall} {err : String}
    (hl : Charged l c.model c.slot.name (.error err))
    (howed : l.owed = some (c.slot.index, .unhealthy 502)) :
    KeepsBooks c.env .anthropic (messagesUnreachable c err) l := by
  refine keeps_mark howed ?_
  refine keeps_part (unentered_logUpstreamError _ _ _ _ _ _ _ _) fun _ _ => ?_
  exact keeps_recordStat hl.told rfl rfl ⟨rfl, rfl⟩ rfl rfl rfl

theorem keeps_messagesUpstream (headers : HeaderMap) (stream : Bool) {p : Prepared}
    (hmodel : AsksFor p.resolvedModel p.payload) (hl : Holds p.slot l) :
    KeepsBooks env .anthropic (messagesUpstream env headers stream p) l := by
  refine keeps_perform trivial fun reqStart => keeps_perform trivial fun upstreamStart =>
    ⟨⟨hl.told, p.slot, hl.slot, rfl⟩, fun result => ?_⟩
  have hcharged : Charged (l.add .anthropic (.send ⟨"/messages", p.slot.key, p.payload.toVec,
      stream, websearch headers p.cfg⟩) result) p.resolvedModel p.slot.name result :=
    ⟨⟨p.slot, _, p.payload, hl.slot, rfl, rfl, rfl, rfl, hmodel⟩, rfl, hl.records⟩
  have howed : (l.add .anthropic (.send ⟨"/messages", p.slot.key, p.payload.toVec, stream,
      websearch headers p.cfg⟩) result).owed =
        (verdictOn .anthropic result).map fun v => (p.slot.index, v) := by
    simp [Ledger.add, Ledger.verdict, hl.slot]
  cases result with
  | ok reply =>
    refine messagesReply_rule (S := fun q => KeepsBooks env .anthropic q
      (l.add .anthropic (.send _) (.ok reply))) (fun hs => ?_) (fun hs h400 => ?_) fun hs h400 => ?_
    · exact keeps_messagesSuccess upstreamStart hcharged hs (by rw [howed]; simp [verdictOn, hs])
    · refine keeps_messagesError hcharged hs ?_
      rw [howed]
      simp only [verdictOn, hs, Bool.false_eq_true, if_false]
      split_ifs <;> rfl
    · refine keeps_readBodyOrEmpty fun body => books_of_none rfl ?_ hl.records
      have hlow : reply.status ≠ 503 := by omega
      have hnone : verdictOn .anthropic (.ok reply) = none := by simp [verdictOn, hs, hlow]
      refine howed.trans ?_
      rw [hnone]
      rfl
  | error err => exact keeps_messagesUnreachable hcharged howed

/-! #### Both handlers -/

/-- The choice of a key enters it in the ledger. -/
theorem keeps_selectKey {α : Type} (env : Env) (payload : Value) {Q : Ledger → α → Prop}
    {f : Option (KeySlot × UInt64) → Handler α} (htold : l.owed = none) (hrec : l.records = [])
    (hnone : ∀ l : Ledger, l.owed = none → l.records = [] → Keeps api Q (f none) l)
    (hsome : ∀ slot n l, Holds slot l → Keeps api Q (f (some (slot, n))) l) :
    Keeps api Q (selectKey env payload >>= f) l := by
  refine ⟨trivial, fun touched => ⟨trivial, fun slot => ?_⟩⟩
  cases slot with
  | none => exact hnone _ htold hrec
  | some slot =>
    refine ⟨trivial, fun session => ?_⟩
    show Sat _ _ Q ((doIf _ _ >>= _) >>= f) { l with slot := some slot }
    have hlog := (prepares_logFirstPrompt (session.isNew = true) payload session.sessNum).mono
      unentered_of_prepares fun _ h => h
    rw [sat_bind]
    exact keeps_part hlog fun _ _ => hsome slot session.sessNum _ ⟨rfl, htold, hrec⟩

/-- The part that both pipelines share from the gate on. -/
theorem keeps_admission (env : Env) (payload : Value) {queueFull noKey : Response}
    {preparePayload : KeySlot → Handler (Value × Config × String)}
    {upstream : Prepared → Handler Response} (htold : l.owed = none) (hrec : l.records = [])
    (hfull : ∃ b, queueFull.body = .bytes b) (hnone : ∃ b, noKey.body = .bytes b)
    (hprep : ∀ slot, Ensures Unentered (fun x => AsksFor x.2.2 x.1) (preparePayload slot))
    (hup : ∀ (p : Prepared) (l : Ledger), AsksFor p.resolvedModel p.payload → Holds p.slot l →
      KeepsBooks env api (upstream p) l) :
    KeepsBooks env api
      ((do
          let admitted ← perform .gateAcquire
          if admitted = true then do
            let selected ← selectKey env payload
            match selected with
            | none => pure (.error noKey)
            | some (slot, sessNum) => do
              let (final, cfg, resolved) ← preparePayload slot
              pure (.ok ⟨final, cfg, resolved, slot, sessNum⟩)
          else pure (.error queueFull) : Handler (Except Response Prepared)) >>= fun
        | .error resp => pure resp
        | .ok p => upstream p) l := by
  obtain ⟨b, hb⟩ := hfull
  obtain ⟨b', hb'⟩ := hnone
  refine ⟨trivial, fun admitted => ?_⟩
  cases admitted with
  | false => exact books_of_none hb htold hrec
  | true =>
    show Sat _ _ (Books env api) ((selectKey env payload >>= _) >>= _) l
    rw [sat_bind]
    refine keeps_selectKey env payload htold hrec (fun l htold hrec => ?_) fun slot n l hl => ?_
    · exact books_of_none hb' htold hrec
    · show Sat _ _ _ (preparePayload slot >>= _) l
      exact keeps_part (hprep slot) fun x hx => hup _ l hx hl

theorem keeps_chatParsed (env : Env) (headers : HeaderMap) (payload : Value)
    (htold : l.owed = none) (hrec : l.records = []) :
    KeepsBooks env .openAI (chatParsed env headers payload) l :=
  keeps_admission env payload htold hrec ⟨_, rfl⟩ ⟨_, rfl⟩
    (fun slot => unentered_chatPayload payload slot _)
    fun _ _ hmodel hl => keeps_chatUpstream headers _ hmodel hl

theorem keeps_messagesParsed (env : Env) (headers : HeaderMap) (payload : Value)
    (htold : l.owed = none) (hrec : l.records = []) :
    KeepsBooks env .anthropic (messagesParsed env headers payload) l := by
  refine ⟨trivial, fun total => ?_⟩
  show Sat _ _ _ ((if (total : ℕ) = 0 then _ else _) >>= _) l
  by_cases htotal : (total : ℕ) = 0
  · rw [if_pos htotal]
    exact books_of_none rfl htold hrec
  · rw [if_neg htotal]
    exact keeps_admission env payload htold hrec ⟨_, rfl⟩ ⟨_, rfl⟩
      (fun slot => unentered_messagesPayload payload slot)
      fun _ _ hmodel hl => keeps_messagesUpstream headers _ hmodel hl

/-- The part that both handlers share up to JSON parsing. -/
theorem keeps_received {req : Request} (env : Env) {refusal tooLarge : Response}
    {invalid : String → Response} {parsed : Value → Handler Response}
    (hrefusal : ∃ b, refusal.body = .bytes b) (hlarge : ∃ b, tooLarge.body = .bytes b)
    (hinvalid : ∀ e, ∃ b, (invalid e).body = .bytes b)
    (hparsed : ∀ payload, KeepsBooks env api (parsed payload) {}) :
    KeepsBooks env api
      (do
        let cfg ← perform .config
        if checkAuth cfg req.headers then
          match req.body with
          | none => pure tooLarge
          | some bytes =>
            match env.fromSlice bytes with
            | .error e => pure (invalid e)
            | .ok payload => parsed payload
        else pure refusal) {} := by
  obtain ⟨b, hb⟩ := hrefusal
  obtain ⟨b', hb'⟩ := hlarge
  refine sat_request trivial (fun _ _ => books_of_none hb rfl rfl)
    (fun _ _ _ => books_of_none hb' rfl rfl) (fun _ _ e _ _ _ => ?_)
    fun _ _ payload _ _ _ => hparsed payload
  obtain ⟨b, hb⟩ := hinvalid e
  exact books_of_none hb rfl rfl

/-- **Whatever the answers, a handler stores what agrees with its ledger, or leaves it to the stream
it returns, and tells the pool the verdict on each call before the next one.** -/
theorem keeps_handler (env : Env) (api : ApiFormat) (req : Request) :
    KeepsBooks env api (handler env api req) {} := by
  cases api with
  | openAI =>
    exact keeps_received env ⟨_, rfl⟩ ⟨_, rfl⟩ (fun _ => ⟨_, rfl⟩)
      fun payload => keeps_chatParsed env _ payload rfl rfl
  | anthropic =>
    exact keeps_received env ⟨_, rfl⟩ ⟨_, rfl⟩ (fun _ => ⟨_, rfl⟩)
      fun payload => keeps_messagesParsed env _ payload rfl rfl

end Handlers

/-! ### What the pool is told -/

/-- The marks of a trace. -/
def marks : Trace Answer → List (ℕ × Verdict)
  | [] => []
  | ⟨.markHealthy i, _⟩ :: tr => (i, .healthy) :: marks tr
  | ⟨.markUnhealthy i status, _⟩ :: tr => (i, .unhealthy status) :: marks tr
  | _ :: tr => marks tr

/-- The upstream calls of a trace, each with the key acquired last before it and with its result. -/
def callsOf : Option KeySlot → Trace Answer →
    List (Option KeySlot × UpstreamCall × Except String Reply)
  | _, [] => []
  | slot, ⟨.acquireKey _, acquired⟩ :: tr => callsOf (Option.or acquired slot) tr
  | slot, ⟨.send call, result⟩ :: tr => (slot, call, result) :: callsOf slot tr
  | slot, _ :: tr => callsOf slot tr

/-- The verdict on a call, with the index of its key. -/
def verdictOf (api : ApiFormat) (x : Option KeySlot × UpstreamCall × Except String Reply) :
    Option (ℕ × Verdict) :=
  x.1.bind fun slot => (verdictOn api x.2.2).map fun v => (slot.index, v)

/-- What is owed at the beginning and the verdicts on the calls are the marks and what is owed at
the end. -/
theorem keeps_run {env : Env} {api : ApiFormat} {p q : Handler Response} {tr : Trace Answer}
    (hr : Run p tr q) {l : Ledger} (h : KeepsBooks env api p l) :
    (∀ x ∈ callsOf l.slot tr, ∃ slot, x.1 = some slot ∧ x.2.1.key = slot.key) ∧
      l.owed.toList ++ (callsOf l.slot tr).filterMap (verdictOf api) =
        marks tr ++ (after (Ledger.add api) l tr).owed.toList := by
  induction hr generalizing l with
  | nil p => exact ⟨nofun, List.append_nil _⟩
  | @cons e k r tr q hr ih =>
    obtain ⟨hkeyed, heq⟩ := ih (h.2 r)
    have hhonours := h.1
    cases e with
    | send call =>
      obtain ⟨hnone, slot, hslot, hkey⟩ := hhonours
      refine ⟨List.forall_mem_cons.2 ⟨⟨slot, hslot, hkey⟩, hkeyed⟩, ?_⟩
      rw [hnone]
      refine Eq.trans ?_ heq
      show (callsOf _ _).filterMap _ = (verdictOf api (l.slot, call, r)).toList ++ _
      simp only [callsOf, List.filterMap_cons]
      cases verdictOf api (l.slot, call, r) <;> rfl
    | markHealthy i =>
      refine ⟨hkeyed, ?_⟩
      rw [show l.owed = some (i, .healthy) from hhonours]
      exact congrArg ((i, Verdict.healthy) :: ·) heq
    | markUnhealthy i status =>
      refine ⟨hkeyed, ?_⟩
      rw [show l.owed = some (i, .unhealthy status) from hhonours]
      exact congrArg ((i, Verdict.unhealthy status) :: ·) heq
    | _ => exact ⟨hkeyed, heq⟩

/-- **What the pool is told of a request**: every upstream call is made with the key acquired last;
the marks are the verdicts on the calls, in order, each on the key of its call, and at most the last
verdict is still owed; once the handler has returned, none is. -/
theorem marks_eq_verdicts (env : Env) (api : ApiFormat) (req : Request) {tr : Trace Answer}
    {q : Handler Response} (hr : Run (handler env api req) tr q) :
    (∀ x ∈ callsOf none tr, ∃ slot, x.1 = some slot ∧ x.2.1.key = slot.key) ∧
      ∃ owed : Option (ℕ × Verdict),
        (callsOf none tr).filterMap (verdictOf api) = marks tr ++ owed.toList ∧
          ((∃ resp, q = .ret resp) → owed = none) := by
  have hkeeps : KeepsBooks env api (handler env api req) {} := keeps_handler env api req
  obtain ⟨hkeyed, heq⟩ := keeps_run hr hkeeps
  refine ⟨hkeyed, _, heq, ?_⟩
  rintro ⟨resp, rfl⟩
  exact (hkeeps.run hr).1

/-- Ten calls to an upstream that stays unavailable. -/
theorem marks_eq_verdicts_unavailable :
    ∃ tr resp, Run (handler Task.sampleEnv .openAI Task.emptyRequest) tr (.ret resp) ∧
      marks tr = List.replicate 10 (0, .unhealthy 503) ∧
      (callsOf none tr).filterMap (verdictOf .openAI) = marks tr := by
  have hrun := run_play (Task.sampleAnswers (.ok ⟨503, []⟩))
    (handler Task.sampleEnv .openAI Task.emptyRequest)
  obtain ⟨-, owed, heq, htold⟩ :=
    marks_eq_verdicts Task.sampleEnv .openAI Task.emptyRequest hrun
  refine ⟨_, _, hrun, rfl, heq.trans ?_⟩
  rw [htold ⟨_, rfl⟩]
  exact List.append_nil _

/-! ### The stream -/

namespace PipeMetered

variable {env : Env} {api : ApiFormat} {l : Ledger} {relayed : List UInt8} {p : Pipe}

/-- A chunk passes. -/
theorem chunk (h : PipeMetered env api l relayed p) (bytes : List UInt8) (now : ℕ) :
    PipeMetered env api l (relayed ++ bytes) (p.chunk env bytes now) := by
  have hrecord : ∃ ttftMs, (p.chunk env bytes now).record = { p.record with ttftMs := ttftMs } := by
    unfold Pipe.chunk
    split_ifs
    · exact ⟨p.record.ttftMs, rfl⟩
    · exact ⟨_, rfl⟩
  obtain ⟨ttftMs, hrecord⟩ := hrecord
  obtain ⟨chunks, hchunks, hacc⟩ := h.acc
  refine ⟨?_, ?_, ?_, ?_, h.reply, h.records, chunks ++ [bytes], ?_, ?_⟩
  · rw [hrecord]
    exact h.attributed
  · rw [hrecord]
    exact h.pipeline
  · rw [hrecord]
    exact h.status
  · rw [hrecord]
    exact h.error
  · rw [List.flatten_append, hchunks, List.flatten_singleton]
  · rw [List.foldl_append, ← hacc]
    rfl

/-- The record of the whole stream. -/
theorem complete (h : PipeMetered env api l relayed p) (now : ℕ) :
    Metered env api l relayed (p.complete env now) := by
  obtain ⟨reply, hreply, hstream⟩ := h.reply
  obtain ⟨chunks, hchunks, hacc⟩ := h.acc
  have hs : isSuccess reply.status = true := by
    simp only [Reply.isEventStream, Bool.and_eq_true] at hstream
    exact hstream.1
  have husage : p.acc.finish env.fromSlice = usageOf env l.body relayed (.ok reply) := by
    rw [hacc, SseUsageAccumulator.finish_foldl_ingest, hchunks]
    simp only [usageOf, hstream, if_true, streamUsage]
  refine ⟨h.attributed, h.pipeline, _, hreply, ?_, ?_⟩
  · show Tells l.body (.ok reply) p.record.status p.record.error
    rw [h.error]
    exact tells_success hs (Or.inr h.status) _
  · rw [← husage]
    rfl

end PipeMetered

/-! ### Runs -/

/-- The bytes that an event relays to the client. -/
def TaskEvent.relays : TaskEvent → List UInt8
  | .chunk bytes _ => bytes
  | _ => []

/-- A step of a request, with the bytes relayed so far. -/
def Task.RelayStep (env : Env) (x : Task × List UInt8) (ev : TaskEvent) (y : Task × List UInt8) :
    Prop :=
  Task.Step env x.1 ev y.1 ∧ y.2 = x.2 ++ ev.relays

/-- A request whose arrival was some time ago, and the bytes that have been relayed for it. -/
abbrev Task.Relays (env : Env) (api : ApiFormat) (req : Request) (t : Task) (relayed : List UInt8) :
    Prop :=
  Runs.Leads (Task.RelayStep env) (Task.start env api req, []) (t, relayed)

/-- What is left of the handler, or of the stream, will store what agrees with the ledger; what has
been stored does. -/
def Task.Booked (env : Env) (x : Task × List UInt8) : Prop :=
  match x.1.phase with
  | .running p => x.2 = [] ∧ KeepsBooks env x.1.api p x.1.ledger
  | .streaming p => PipeMetered env x.1.api x.1.ledger x.2 p
  | .finished (.disconnected (some _)) => True
  | .finished _ => ∀ r ∈ x.1.ledger.records, Metered env x.1.api x.1.ledger x.2 r

namespace Task

variable {env : Env} {api : ApiFormat} {req : Request} {t t' : Task} {relayed : List UInt8}
variable {x y : Task × List UInt8} {ev : TaskEvent}

/-- The ledger after one more answer. -/
theorem ledger_snoc (t : Task) (e : Eff) (r : Answer e) (phase : Phase) :
    ({ t with trace := t.trace ++ [⟨e, r⟩], phase := phase } : Task).ledger =
      t.ledger.add t.api e r := by
  simp [ledger]

/-- A stream that is not relayed to its end stores nothing. -/
theorem metered_of_none {l : Ledger} (h : l.records = []) :
    ∀ r ∈ l.records, Metered env api l relayed r := by
  rw [h]
  nofun

/-- **Every step keeps the books.** -/
theorem Booked.step (h : Booked env x) (hst : RelayStep env x ev y) : Booked env y := by
  obtain ⟨t, relayed⟩ := x
  obtain ⟨t', relayed'⟩ := y
  obtain ⟨hst, hrelayed⟩ := hst
  simp only at hst hrelayed
  subst hrelayed
  unfold Booked at h
  cases hst with
  | @answer e k r running =>
    simp only [running] at h
    obtain ⟨rfl, hkeeps⟩ := h
    refine ⟨rfl, ?_⟩
    rw [ledger_snoc]
    exact hkeeps.2 r
  | @respond resp b running body =>
    simp only [running] at h
    obtain ⟨rfl, -, hbooks⟩ := h
    rw [body] at hbooks
    exact hbooks
  | @respondStream resp p running body =>
    simp only [running] at h
    obtain ⟨rfl, -, hbooks⟩ := h
    rw [body] at hbooks
    exact hbooks
  | @chunk p bytes now streaming =>
    simp only [streaming] at h
    show PipeMetered env t.api (ledger _) (relayed ++ bytes) (p.chunk env bytes now)
    rw [ledger_snoc]
    exact h.chunk bytes now
  | @endOfStream p now streaming =>
    simp only [streaming] at h
    have hledger : ({ t with
        trace := t.trace ++ [⟨.instant, now⟩, ⟨.record (p.complete env now), ()⟩]
        phase := .finished .complete } : Task).ledger =
          { t.ledger with records := [p.complete env now] } := by
      have hrec := h.records
      simp only [ledger] at hrec
      simp [ledger, Ledger.add, hrec]
    intro r hr
    rw [hledger] at hr ⊢
    obtain rfl := List.mem_singleton.1 hr
    have hmetered := h.complete now
    show Metered env t.api _ (relayed ++ []) _
    rw [List.append_nil]
    exact ⟨hmetered.attributed, hmetered.pipeline, hmetered.outcome⟩
  | @streamFails p streaming =>
    simp only [streaming] at h
    exact metered_of_none (l := ledger _) h.records
  | @leave e k running suspended => trivial
  | @leaveStream p streaming =>
    simp only [streaming] at h
    exact metered_of_none (l := ledger _) h.records

theorem booked_start (env : Env) (api : ApiFormat) (req : Request) :
    Booked env (start env api req, []) := by
  show _ = _ ∧ KeepsBooks env api (handler env api req) {}
  exact ⟨rfl, keeps_handler env api req⟩

theorem Relays.booked (h : Relays env api req t relayed) : Booked env (t, relayed) :=
  Runs.Leads.inv (P := Booked env) (fun _ _ _ hb hst => hb.step hst) (booked_start env api req) h

/-- The bytes relayed are forgotten. -/
theorem Relays.reached (h : Relays env api req t relayed) : Reached env api req t :=
  Runs.Leads.inv (P := fun x : Task × List UInt8 => Reached env api req x.1)
    (fun _ _ _ hr hst => hr.trans (.one hst.1)) (Runs.Leads.refl _) h

theorem Reached.api_eq (h : Reached env api req t) : t.api = api := by
  refine Runs.Leads.inv (P := fun t => t.api = api) (fun _ _ _ hr hst => ?_) rfl h
  cases hst <;> exact hr

theorem Reached.relays (h : Reached env api req t) : ∃ relayed, Relays env api req t relayed := by
  refine Runs.Leads.inv (P := fun t => ∃ relayed, Relays env api req t relayed) ?_ ⟨[], .refl _⟩ h
  rintro t ev t' ⟨relayed, hr⟩ hst
  exact ⟨_, hr.trans (.one ⟨hst, rfl⟩)⟩

/-- The ledger has the records of the account. -/
theorem records_ledger (t : Task) : t.ledger.records = t.account.records := by
  have hall : ∀ (tr : Trace Answer) (l : Ledger) (a : Account), l.records = a.records →
      (after (Ledger.add t.api) l tr).records = (after Account.add a tr).records := by
    intro tr
    induction tr with
    | nil => exact fun _ _ h => h
    | cons x tr ih =>
      obtain ⟨e, r⟩ := x
      refine fun l a h => ih _ _ ?_
      cases e with
      | send call => cases r <;> exact h
      | record r' => exact congrArg (· ++ [r']) h
      | _ => exact h
  exact hall t.trace {} {} rfl

/-- The records in the ledger of a request whose response is over. -/
theorem Relays.metered (h : Relays env api req t relayed) {e : Ending}
    (hover : t.phase = .finished e) :
    ∀ r ∈ t.ledger.records, Metered env api t.ledger relayed r := by
  have hbooked := h.booked
  unfold Booked at hbooked
  obtain rfl := h.reached.api_eq
  cases e with
  | complete =>
    simp only [hover] at hbooked
    exact hbooked
  | failed =>
    simp only [hover] at hbooked
    exact hbooked
  | disconnected pending =>
    cases pending with
    | none =>
      simp only [hover] at hbooked
      exact hbooked
    | some e =>
      -- a handler that can be left has stored nothing
      have hinv : t.Inv := h.reached.inv
      unfold Inv at hinv
      rw [hover] at hinv
      refine metered_of_none ?_
      rw [records_ledger]
      exact hinv.2.2.records hinv.2.1

/-- **What a record charges, and to whom**: when the response of a request is over, its record
names the key and the model of the last upstream call, tells how this call ended, and has the usage
of the bytes that were relayed. -/
theorem records_metered (h : Relays env api req t relayed) {e : Ending}
    (hover : t.phase = .finished e) :
    ∀ r ∈ t.account.records, Metered env api t.ledger relayed r := by
  rw [← records_ledger]
  exact h.metered hover

theorem relayStep (hst : Step env t ev t') :
    RelayStep env (t, relayed) ev (t', relayed ++ ev.relays) := ⟨hst, rfl⟩

/-- The answers of a run of the handler relay nothing. -/
theorem relays_run {p q : Handler Response} {tr : Trace Answer} (hp : t.phase = .running p)
    (hr : Run p tr q) :
    Runs.Leads (RelayStep env) (t, relayed)
      ({ t with trace := t.trace ++ tr, phase := .running q }, relayed) := by
  induction hr generalizing t with
  | nil p =>
    rw [List.append_nil, ← hp]
    exact .refl _
  | @cons e k r tr q hr ih =>
    have hrest := ih (t := { t with trace := t.trace ++ [⟨e, r⟩], phase := .running (k r) }) rfl
    rw [List.append_assoc] at hrest
    exact .head ⟨.answer r hp, (List.append_nil _).symm⟩ hrest

/-- A chunk with a usage event. -/
def usageChunk : List UInt8 := Utf8.encode "data: {}\n"

/-- The result on a stream of two chunks. -/
theorem records_metered_stream :
    ∃ t relayed r, Relays sampleEnv .openAI emptyRequest t relayed ∧
      relayed = usageChunk ++ usageChunk ∧ t.account.records = [r] ∧
      Metered sampleEnv .openAI t.ledger relayed r := by
  have hplayed := @relays_run sampleEnv (start sampleEnv .openAI emptyRequest) [] _ _ _ rfl
    (run_play (sampleAnswers (.ok sseReply)) (handler sampleEnv .openAI emptyRequest))
  have hended := hplayed.trans (.head (relayStep (.respondStream rfl rfl))
    (.head (relayStep (.chunk usageChunk 1 rfl)) (.head (relayStep (.chunk usageChunk 2 rfl))
      (.one (relayStep (.endOfStream 5 rfl))))))
  refine ⟨_, _, _, hended, ?_, rfl, ?_⟩
  · simp [TaskEvent.relays]
  · exact records_metered hended rfl _ List.mem_cons_self

end Task

end Mybro
