import Mybro.Responses

/-!
# What is forwarded of a reply (`routes/chat.rs`, `routes/messages.rs`)

A reply that is no event stream is read as a whole and sent on. `sat_handler_forwards` says what
each of the two handlers makes of it, in six branches; `faithful_iff` says when that is a faithful
copy: the body byte for byte, a `Content-Length` that is its length, no success where the body could
not be read.
-/

namespace Mybro

open Prog

/-! ### The exchange with upstream -/

/-- The reply that the last upstream call came to, its body when that has been read to its end, and
the records stored. -/
structure Exchange where
  reply : Option Reply := none
  body : Option (List UInt8) := none
  records : List RequestRecord := []

namespace Exchange

/-- The exchange after one more answer. -/
def add (x : Exchange) : (e : Eff) → Answer e → Exchange
  | .send _, .ok reply => { x with reply := some reply, body := none }
  | .send _, .error _ => { x with reply := none, body := none }
  | .readBody, body => { x with body := body }
  | .record r, _ => { x with records := x.records ++ [r] }
  | _, _ => x

end Exchange

/-- The text of an error body, as `read_error_body` gives it. -/
def errorText (body : Option (List UInt8)) : String :=
  match body with
  | some b => Utf8.lossy b
  | none => ""

/-- What is sent for a reply that is no event stream, given what reading its body came to. -/
def forwardedAs (api : ApiFormat) (stream : Bool) (reply : Reply) (body : Option (List UInt8)) :
    Response :=
  match api with
  | .openAI =>
    if isSuccess reply.status then
      if stream then wrapJsonAsSse (body.getD [])
      else { status := 200
             headers := [header "content-type" "application/json"]
             body := .bytes (body.getD []) }
    else if reply.status = 500 ∨ reply.status = 503 then
      { status := reply.status
        headers := [header "content-type" "application/json"]
        body := .bytes (Utf8.encode (errorText body)) }
    else { status := reply.status, headers := reply.headers, body := .bytes (body.getD []) }
  | .anthropic =>
    if isSuccess reply.status then
      { status := reply.status, headers := reply.headers, body := .bytes (body.getD []) }
    else if 400 ≤ reply.status then
      { status := reply.status
        headers := reply.headers
        body := .bytes (Utf8.encode (errorText body)) }
    else { status := reply.status, headers := [], body := .bytes (body.getD []) }

/-- The statuses of the records stored for it. -/
def recordedAs (api : ApiFormat) (reply : Reply) : List ℕ :=
  match api with
  | .openAI => if isSuccess reply.status then [200] else [reply.status]
  | .anthropic =>
    if isSuccess reply.status = true ∨ 400 ≤ reply.status then [reply.status] else []

/-- A reply that is no event stream has been sent on. -/
def SentOn (api : ApiFormat) (stream : Bool) (x : Exchange) (resp : Response) : Prop :=
  ∀ reply, x.reply = some reply → reply.isEventStream = false →
    resp = forwardedAs api stream reply x.body ∧
      x.records.map (fun r => r.status) = recordedAs api reply

/-! ### Rules -/

/-- The effect changes no exchange. -/
def Quiet : Eff → Prop
  | .send _ | .readBody | .record _ => False
  | _ => True

theorem quiet_of_silent {α : Type} {Q : α → Prop} {p : Handler α} (h : Ensures Silent Q p) :
    Ensures Quiet Q p := by
  refine h.mono (fun e he => ?_) fun _ h => h
  cases e <;> trivial

theorem quiet_of_immediate {α : Type} {Q : α → Prop} {p : Handler α} (h : Ensures Immediate Q p) :
    Ensures Quiet Q p := quiet_of_silent (h.mono (fun _ he => he.1) fun _ h => h)

section Rules

variable {α β : Type} {x : Exchange} {Q : Exchange → α → Prop}

/-- Whatever the answers, the values returned satisfy `Q` of the exchange. -/
abbrev Returns (Q : Exchange → α → Prop) : Handler α → Exchange → Prop :=
  Sat Exchange.add (fun _ _ => True) Q

/-- The rule for a part whose effects are all quiet. -/
theorem returns_part {P : β → Prop} {p : Handler β} {f : β → Handler α} (hp : Ensures Quiet P p)
    (h : ∀ b, P b → Returns Q (f b) x) : Returns Q (p >>= f) x := by
  have hquiet : ∀ e, Quiet e → True ∧ ∀ r, x.add e r = x := by
    intro e he
    refine ⟨trivial, fun r => ?_⟩
    cases e <;> first | rfl | exact he.elim
  exact sat_bind_of_ensures hquiet hp h

theorem returns_perform {e : Eff} {f : Answer e → Handler α} (he : Quiet e)
    (h : ∀ r, Returns Q (f r) x) : Returns Q (perform e >>= f) x :=
  returns_part (P := fun _ => True) ⟨he, fun _ => trivial⟩ fun r _ => h r

theorem returns_recordStat {start : ℕ} {ttftMs : Option UInt64} {status : ℕ}
    {model pipeline keyName : String} {usage : Usage} {error : Option String}
    {f : Unit → Handler α} (hrec : x.records = [])
    (h : ∀ r : RequestRecord, r.status = status → Returns Q (f ()) { x with records := [r] }) :
    Returns Q (recordStat start ttftMs status model pipeline keyName usage error >>= f) x := by
  refine returns_perform trivial fun tsMs => returns_perform trivial fun now => ?_
  refine ⟨trivial, fun _ => ?_⟩
  show Returns Q (f ()) { x with records := x.records ++ [_] }
  rw [hrec]
  exact h _ rfl

theorem returns_readBodyOrEmpty {f : List UInt8 → Handler α}
    (h : ∀ body : Option (List UInt8), Returns Q (f (body.getD [])) { x with body := body }) :
    Returns Q (readBodyOrEmpty >>= f) x := ⟨trivial, h⟩

theorem returns_readErrorBody {f : String → Handler α}
    (h : ∀ body : Option (List UInt8), Returns Q (f (errorText body)) { x with body := body }) :
    Returns Q (readErrorBody >>= f) x := ⟨trivial, h⟩

end Rules

/-! ### The OpenAI handler -/

section Handlers

variable {x : Exchange}

/-- Nothing has been forwarded where upstream has not replied. -/
theorem sentOn_of_none {api : ApiFormat} {stream : Bool} (hx : x.reply = none)
    (resp : Response) : SentOn api stream x resp := by
  intro reply hreply
  rw [hx] at hreply
  cases hreply

/-- A reply that has been forwarded as it should. -/
theorem sentOn_of {api : ApiFormat} {stream : Bool} {reply : Reply} {resp : Response}
    (hx : x.reply = some reply)
    (h : resp = forwardedAs api stream reply x.body ∧
      x.records.map (fun r => r.status) = recordedAs api reply) : SentOn api stream x resp := by
  intro reply' hreply _
  obtain rfl := Option.some.inj (hx.symm.trans hreply)
  exact h

theorem returns_chatSuccess (c : ChatCall) (slot : KeySlot) (upstreamStart : ℕ) {reply : Reply}
    (hs : isSuccess reply.status = true) (hx : x.reply = some reply) (hrec : x.records = []) :
    Returns (SentOn .openAI c.stream) (chatSuccess c slot upstreamStart reply) x := by
  refine returns_perform trivial fun _ => ?_
  by_cases hsse : reply.headers.isSse = true
  · rw [if_pos hsse]
    refine returns_part (quiet_of_immediate (immediate_streamRecord _ _ _)) fun record _ => ?_
    -- an event stream is not forwarded as a whole
    intro reply' hreply hno
    obtain rfl := Option.some.inj (hx.symm.trans hreply)
    simp [Reply.isEventStream, hs, hsse] at hno
  · rw [if_neg hsse]
    refine returns_readBodyOrEmpty fun body => returns_perform trivial fun now => ?_
    refine returns_recordStat hrec fun r hr => ?_
    refine sentOn_of hx ⟨?_, ?_⟩
    · simp only [forwardedAs, hs, if_true]
    · simp [recordedAs, hs, hr]

theorem returns_chatOther (c : ChatCall) (slot : KeySlot) {reply : Reply}
    (hs : isSuccess reply.status = false) (hretry : ¬ (reply.status = 500 ∨ reply.status = 503))
    (hx : x.reply = some reply) (hrec : x.records = []) :
    Returns (SentOn .openAI c.stream) (chatOther c slot reply) x := by
  refine returns_part (quiet_of_immediate
    (immediate_doIf (immediate_perform ⟨trivial, nofun, nofun, nofun⟩))) fun _ _ => ?_
  refine returns_readBodyOrEmpty fun body => returns_recordStat hrec fun r hr => ?_
  refine sentOn_of hx ⟨?_, ?_⟩
  · simp [forwardedAs, hs, hretry]
  · simp [recordedAs, hs, hr]

theorem returns_chatExhausted (c : ChatCall) (slot : KeySlot) {reply : Reply}
    (hs : isSuccess reply.status = false) (hretry : reply.status = 500 ∨ reply.status = 503)
    (hx : x.reply = some reply) (hrec : x.records = []) :
    Returns (SentOn .openAI c.stream)
      (chatExhausted c slot reply.status (errorText x.body)) x := by
  refine returns_part (quiet_of_immediate
    (immediate_doIf (immediate_perform ⟨trivial, nofun, nofun, nofun⟩))) fun _ _ => ?_
  refine returns_recordStat hrec fun r hr => ?_
  refine sentOn_of hx ⟨?_, ?_⟩
  · simp [forwardedAs, hs, hretry]
  · simp [recordedAs, hs, hr]

theorem returns_chatUnreachable (c : ChatCall) (slot : KeySlot) (err : String)
    (hx : x.reply = none) (hrec : x.records = []) :
    Returns (SentOn .openAI c.stream) (chatUnreachable c slot err) x := by
  refine returns_recordStat hrec fun r _ => ?_
  exact sentOn_of_none (x := { x with records := [r] }) hx _

/-- A retryable failure, given what the next attempt does. -/
theorem returns_chatFailed {Q : Exchange → Response → Prop} (c : ChatCall) (attempt : ℕ)
    (slot : KeySlot) (status : ℕ) (errorBody : String) {last again : Handler Response}
    (hlast : Returns Q last x) (hagain : attempt ≠ maxRetries → Returns Q again x) :
    Returns Q (chatFailed c attempt slot status errorBody last again) x := by
  refine returns_perform trivial fun _ => ?_
  refine returns_part (quiet_of_immediate (immediate_logUpstreamError _ _ _ _ _ _ _ _))
    fun _ _ => ?_
  by_cases hmax : attempt = maxRetries
  · rw [if_pos hmax]
    exact hlast
  · rw [if_neg hmax]
    exact returns_perform trivial fun _ => hagain hmax

/-- One attempt, given what the attempts after it do; the last attempt has none after it. -/
theorem returns_attempt (c : ChatCall) (after : KeySlot → Handler Response) (attempt : ℕ)
    (rest : List ℕ) (slot : KeySlot) (hrec : x.records = [])
    (hrest : attempt ≠ maxRetries → ∀ (slot : KeySlot) (x : Exchange), x.records = [] →
      Returns (SentOn .openAI c.stream) (chatLoop c after rest slot) x) :
    Returns (SentOn .openAI c.stream) (chatLoop c after (attempt :: rest) slot) x := by
  refine returns_part (quiet_of_silent (silent_of_selects (selects_rotate attempt slot)))
    fun slot _ => returns_perform trivial fun upstreamStart => ⟨trivial, fun result => ?_⟩
  have hagain := fun hmax x hrec => hrest hmax slot x hrec
  refine chatResult_rule (S := fun p => Returns (SentOn .openAI c.stream) p
    (x.add (.send (c.request slot)) result)) ?_ ?_ ?_ ?_
  · rintro reply rfl hs
    exact returns_chatSuccess c slot upstreamStart hs rfl hrec
  · rintro reply rfl hs hretry
    refine returns_readErrorBody fun body => ?_
    exact returns_chatFailed c attempt slot _ _
      (returns_chatExhausted (x := { x with reply := some reply, body := body }) c slot hs hretry
        rfl hrec) fun hmax => hagain hmax _ hrec
  · rintro reply rfl hs hretry
    exact returns_chatOther c slot hs hretry rfl hrec
  · rintro err rfl
    exact returns_chatFailed c attempt slot 502 err (returns_chatUnreachable c slot err rfl hrec)
      fun hmax => hagain hmax _ hrec

/-! ### The Anthropic handler -/

theorem returns_messagesSuccess (stream : Bool) (c : MessagesCall) (upstreamStart : ℕ)
    {reply : Reply} (hs : isSuccess reply.status = true) (hx : x.reply = some reply)
    (hrec : x.records = []) :
    Returns (SentOn .anthropic stream) (messagesSuccess c upstreamStart reply) x := by
  refine returns_perform trivial fun _ => ?_
  by_cases hsse : reply.headers.isSse = true
  · rw [if_pos hsse]
    refine returns_part (quiet_of_immediate (immediate_streamRecord _ _ _)) fun record _ => ?_
    intro reply' hreply hno
    obtain rfl := Option.some.inj (hx.symm.trans hreply)
    simp [Reply.isEventStream, hs, hsse] at hno
  · rw [if_neg hsse]
    refine returns_readBodyOrEmpty fun body => returns_perform trivial fun now => ?_
    refine returns_recordStat hrec fun r hr => ?_
    refine sentOn_of hx ⟨?_, ?_⟩
    · simp [forwardedAs, hs]
    · simp [recordedAs, hs, hr]

theorem returns_messagesError (stream : Bool) (c : MessagesCall) {reply : Reply}
    (hs : isSuccess reply.status = false) (h400 : 400 ≤ reply.status) (hx : x.reply = some reply)
    (hrec : x.records = []) :
    Returns (SentOn .anthropic stream) (messagesError c reply) x := by
  refine returns_readErrorBody fun body => ?_
  refine returns_part (quiet_of_immediate (immediate_logUpstreamError _ _ _ _ _ _ _ _))
    fun _ _ => ?_
  refine returns_part (quiet_of_immediate
    (immediate_doIf (immediate_perform ⟨trivial, nofun, nofun, nofun⟩))) fun _ _ => ?_
  refine returns_part (quiet_of_immediate
    (immediate_doIf (immediate_perform ⟨trivial, nofun, nofun, nofun⟩))) fun _ _ => ?_
  refine returns_recordStat hrec fun r hr => ?_
  refine sentOn_of hx ⟨?_, ?_⟩
  · simp [forwardedAs, hs, h400]
  · simp [recordedAs, hs, h400, hr]

theorem returns_messagesUpstream (env : Env) (headers : HeaderMap) (stream : Bool) (p : Prepared)
    (hrec : x.records = []) :
    Returns (SentOn .anthropic stream) (messagesUpstream env headers stream p) x := by
  refine returns_perform trivial fun reqStart => returns_perform trivial fun upstreamStart =>
    ⟨trivial, fun result => ?_⟩
  cases result with
  | ok reply =>
    refine messagesReply_rule (S := fun p => Returns (SentOn .anthropic stream) p
      (x.add (.send _) (.ok reply))) (fun hs => ?_) (fun hs h400 => ?_) fun hs h400 => ?_
    · exact returns_messagesSuccess stream _ upstreamStart hs rfl hrec
    · exact returns_messagesError stream _ hs h400 rfl hrec
    · refine returns_readBodyOrEmpty fun body => sentOn_of rfl ⟨?_, ?_⟩
      · simp [forwardedAs, hs, h400]
      · simp only [recordedAs, hs, h400]
        exact congrArg _ hrec
  | error err =>
    refine returns_perform trivial fun _ => ?_
    refine returns_part (quiet_of_immediate (immediate_logUpstreamError _ _ _ _ _ _ _ _))
      fun _ _ => ?_
    exact returns_recordStat hrec fun _ _ => sentOn_of_none rfl _

/-! ### Both handlers -/

theorem quiet_chatPrepare (env : Env) (payload : Value) :
    Ensures Quiet (fun _ => True) (chatPrepare env payload) := by
  refine ⟨trivial, fun admitted => ?_⟩
  show Ensures _ _ (if admitted = true then _ else _)
  split_ifs
  · refine ensures_bind (quiet_of_silent (silent_of_selects (selects_selectKey env payload)))
      fun selected _ => ?_
    cases selected with
    | none => trivial
    | some s =>
      exact ensures_bind (quiet_of_silent (silent_of_prepares (prepares_chatPayload payload s.1 _)))
        fun _ _ => trivial
  · trivial

theorem quiet_messagesPrepare (env : Env) (payload : Value) :
    Ensures Quiet (fun _ => True) (messagesPrepare env payload) := by
  refine ⟨trivial, fun total => ?_⟩
  show Ensures _ _ (if (total : ℕ) = 0 then _ else _)
  split_ifs
  · trivial
  · refine ⟨trivial, fun admitted => ?_⟩
    show Ensures _ _ (if admitted = true then _ else _)
    split_ifs
    · refine ensures_bind (quiet_of_silent (silent_of_selects (selects_selectKey env payload)))
        fun selected _ => ?_
      cases selected with
      | none => trivial
      | some s =>
        have hpayload := silent_of_prepares (prepares_messagesPayload payload s.1)
        exact ensures_bind (quiet_of_silent hpayload) fun _ _ => trivial
    · trivial

end Handlers

/-- Whether the body of a request asks for a stream. -/
def asksForStream (env : Env) (req : Request) : Bool :=
  match req.body with
  | none => false
  | some bytes =>
    match env.fromSlice bytes with
    | .error _ => false
    | .ok payload => isStream payload

/-- The part the two handlers have in common: without authorization or a body that can be parsed
there is no upstream call. -/
theorem returns_received {env : Env} {api : ApiFormat} {req : Request} {refusal tooLarge : Response}
    {invalid : String → Response} {parsed : Value → Handler Response}
    (hparsed : ∀ payload, Returns (SentOn api (isStream payload)) (parsed payload) {}) :
    Returns (SentOn api (asksForStream env req))
      (do
        let cfg ← perform .config
        if checkAuth cfg req.headers then
          match req.body with
          | none => pure tooLarge
          | some bytes =>
            match env.fromSlice bytes with
            | .error e => pure (invalid e)
            | .ok payload => parsed payload
        else pure refusal) {} := by
  refine sat_request trivial (fun _ _ => sentOn_of_none rfl _) (fun _ _ _ => sentOn_of_none rfl _)
    (fun _ _ _ _ _ _ => sentOn_of_none rfl _) fun cfg bytes payload _ hbody hjson => ?_
  have hasks : asksForStream env req = isStream payload := by
    unfold asksForStream
    simp only [hbody, hjson]
  rw [hasks]
  exact hparsed payload

/-- **What the handlers forward**: whatever the answers, a reply that is no event stream is sent and
recorded as its branch has it. -/
theorem sat_handler_forwards (env : Env) (api : ApiFormat) (req : Request) :
    Returns (SentOn api (asksForStream env req)) (handler env api req) {} := by
  cases api with
  | openAI =>
    refine returns_received fun payload => ?_
    refine returns_part (quiet_chatPrepare env payload) fun prepared _ => ?_
    cases prepared with
    | error resp => exact sentOn_of_none rfl _
    | ok p =>
      refine returns_perform trivial fun reqStart => ?_
      exact chatLoop_rule (K := fun x => x.records = []) _ _
        (fun k rest slot _ hrec hrest => returns_attempt _ _ k rest slot hrec hrest) p.slot rfl
  | anthropic =>
    refine returns_received fun payload => ?_
    refine returns_part (quiet_messagesPrepare env payload) fun prepared _ => ?_
    cases prepared with
    | error resp => exact sentOn_of_none rfl _
    | ok p => exact returns_messagesUpstream env _ _ p rfl

/-! ### Faithful copies -/

/-- The length a `Content-Length` declares: a decimal number. -/
def declaredLength (v : List UInt8) : Option ℕ :=
  if !v.isEmpty && v.all fun d => 48 ≤ d && d ≤ 57 then
    some (v.foldl (fun n d => n * 10 + (d.toNat - 48)) 0)
  else none

/-- Every `Content-Length` among the headers declares the length `n`. -/
def HeaderMap.Declares (h : HeaderMap) (n : ℕ) : Prop :=
  ∀ v, ("content-length", v) ∈ h → declaredLength v = some n

/-- A response, and the records stored for it, are faithful to the reply they come from. -/
structure Faithful (reply : Reply) (x : Exchange) (resp : Response) : Prop where
  /-- with the status of the reply goes its complete body -/
  body : resp.status = reply.status → ∃ b, x.body = some b ∧ resp.body = .bytes b
  length : ∀ b, resp.body = .bytes b → resp.headers.Declares b.length
  /-- a reply that could not be read is no success, and none is recorded for it -/
  success : x.body = none →
    isSuccess resp.status = false ∧ ∀ r ∈ x.records, isSuccess r.status = false

/-- The body of a reply of this status is forwarded as text. -/
def forwardsText : ApiFormat → ℕ → Prop
  | .openAI, status => status = 500 ∨ status = 503
  | .anthropic, status => 400 ≤ status

/-- The headers of a reply of this status are forwarded. -/
def forwardsHeaders : ApiFormat → ℕ → Prop
  | .openAI, status => isSuccess status = false ∧ ¬ (status = 500 ∨ status = 503)
  | .anthropic, status => isSuccess status = true ∨ 400 ≤ status

/-- The body has been read to its end, it is UTF-8 where it is forwarded as text, and the reply
declares its length where the headers are forwarded. -/
def Intact (api : ApiFormat) (reply : Reply) (body : Option (List UInt8)) : Prop :=
  ∃ b, body = some b ∧
    (forwardsText api reply.status → ∃ text, Utf8.encode text = b) ∧
    (forwardsHeaders api reply.status → reply.headers.Declares b.length)

theorem not_isSuccess_of_le {status : ℕ} (h : 400 ≤ status) : isSuccess status = false := by
  simp only [isSuccess, Bool.and_eq_false_iff, decide_eq_false_iff_not]
  omega

theorem HeaderMap.declares_json (n : ℕ) :
    HeaderMap.Declares [header "content-type" "application/json"] n := by
  intro v hv
  simp [header] at hv

theorem HeaderMap.declares_nil (n : ℕ) : HeaderMap.Declares [] n := nofun

section Faithful

variable {api : ApiFormat} {stream : Bool} {reply : Reply} {x : Exchange}

/-- The status forwarded is a success where that of the reply is. -/
theorem isSuccess_forwardedAs (body : Option (List UInt8)) :
    isSuccess (forwardedAs api false reply body).status = isSuccess reply.status := by
  cases api <;> unfold forwardedAs <;> split_ifs <;> simp_all [isSuccess]

/-- A reply whose body could not be read is not forwarded faithfully. -/
theorem not_faithful_of_unread (hbody : x.body = none) :
    ¬ Faithful reply x (forwardedAs api false reply x.body) := by
  intro h
  have hs : isSuccess reply.status = false :=
    (isSuccess_forwardedAs _).symm.trans (h.success hbody).1
  have hstatus : (forwardedAs api false reply x.body).status = reply.status := by
    cases api <;> unfold forwardedAs <;> split_ifs <;> simp_all
  obtain ⟨b, hb, -⟩ := h.body hstatus
  rw [hbody] at hb
  cases hb

/-- A body that has been read, forwarded as it is under the headers `headers`. -/
theorem faithful_bytes_iff {status : ℕ} {headers : HeaderMap} {b : List UInt8}
    (hbody : x.body = some b) :
    Faithful reply x { status := status, headers := headers, body := .bytes b } ↔
      headers.Declares b.length := by
  constructor
  · intro h
    exact h.length b rfl
  · intro h
    refine ⟨fun _ => ⟨b, hbody, rfl⟩, ?_, ?_⟩
    · rintro _ ⟨⟩
      exact h
    · intro hnone
      rw [hbody] at hnone
      cases hnone

/-- A body that has been read, forwarded as a text with the status of the reply. -/
theorem faithful_text_iff {headers : HeaderMap} {b : List UInt8} (hbody : x.body = some b) :
    Faithful reply x
        { status := reply.status
          headers := headers
          body := .bytes (Utf8.encode (Utf8.lossy b)) } ↔
      (∃ text, Utf8.encode text = b) ∧ headers.Declares b.length := by
  rw [← Utf8.encode_lossy_iff]
  constructor
  · intro h
    obtain ⟨b', hb', heq⟩ := h.body rfl
    obtain rfl := Option.some.inj (hbody.symm.trans hb')
    have hutf8 : Utf8.encode (Utf8.lossy b) = b := Body.bytes.inj heq
    exact ⟨hutf8, h.length b (congrArg _ hutf8)⟩
  · rintro ⟨hutf8, hdeclares⟩
    rw [hutf8]
    exact (faithful_bytes_iff hbody).2 hdeclares

/-- A body that has been read is intact when it survives what its branch does to it. -/
theorem intact_some_iff {b : List UInt8} :
    Intact api reply (some b) ↔
      (forwardsText api reply.status → ∃ text, Utf8.encode text = b) ∧
        (forwardsHeaders api reply.status → reply.headers.Declares b.length) := by
  simp [Intact]

/-- The three branches of `chat_completions`. -/
theorem faithful_openAI_iff {b : List UInt8} (hbody : x.body = some b) :
    Faithful reply x (forwardedAs .openAI false reply (some b)) ↔
      Intact .openAI reply (some b) := by
  rw [intact_some_iff]
  by_cases hs : isSuccess reply.status = true
  · have htext : ¬ (reply.status = 500 ∨ reply.status = 503) := by
      rintro (h | h) <;> simp [h, isSuccess] at hs
    have hheaders : ¬ forwardsHeaders .openAI reply.status := by
      simp [forwardsHeaders, hs]
    simp only [forwardedAs, if_pos hs]
    rw [if_neg nofun, Option.getD_some, faithful_bytes_iff hbody]
    exact iff_of_true (HeaderMap.declares_json _)
      ⟨fun h => absurd h htext, fun h => absurd h hheaders⟩
  by_cases htext : reply.status = 500 ∨ reply.status = 503
  · simp only [forwardedAs, if_neg hs, if_pos htext, errorText]
    rw [faithful_text_iff hbody]
    exact ⟨fun h => ⟨fun _ => h.1, fun h' => absurd htext h'.2⟩,
      fun h => ⟨h.1 htext, HeaderMap.declares_json _⟩⟩
  · simp only [forwardedAs, if_neg hs, if_neg htext, Option.getD_some]
    rw [faithful_bytes_iff hbody]
    exact ⟨fun h => ⟨fun h' => absurd h' htext, fun _ => h⟩,
      fun h => h.2 ⟨by simpa using hs, htext⟩⟩

/-- The three branches of `messages`. -/
theorem faithful_anthropic_iff {stream : Bool} {b : List UInt8} (hbody : x.body = some b) :
    Faithful reply x (forwardedAs .anthropic stream reply (some b)) ↔
      Intact .anthropic reply (some b) := by
  rw [intact_some_iff]
  by_cases hs : isSuccess reply.status = true
  · have htext : ¬ 400 ≤ reply.status := by
      intro h
      rw [not_isSuccess_of_le h] at hs
      cases hs
    simp only [forwardedAs, if_pos hs, Option.getD_some]
    rw [faithful_bytes_iff hbody]
    exact ⟨fun h => ⟨fun h' => absurd h' htext, fun _ => h⟩, fun h => h.2 (Or.inl hs)⟩
  by_cases htext : 400 ≤ reply.status
  · simp only [forwardedAs, if_neg hs, if_pos htext, errorText]
    rw [faithful_text_iff hbody]
    exact ⟨fun h => ⟨fun _ => h.1, fun _ => h.2⟩, fun h => ⟨h.1 htext, h.2 (Or.inr htext)⟩⟩
  · have hheaders : ¬ forwardsHeaders .anthropic reply.status := by
      simp [forwardsHeaders, hs, htext]
    simp only [forwardedAs, if_neg hs, if_neg htext, Option.getD_some]
    rw [faithful_bytes_iff hbody]
    exact iff_of_true (HeaderMap.declares_nil _)
      ⟨fun h => absurd h htext, fun h => absurd h hheaders⟩

/-- **What is forwarded is faithful exactly when the reply was intact.** -/
theorem faithful_forwardedAs_iff (x : Exchange) :
    Faithful reply x (forwardedAs api false reply x.body) ↔ Intact api reply x.body := by
  cases hbody : x.body with
  | none =>
    refine iff_of_false ?_ ?_
    · rw [← hbody]
      exact not_faithful_of_unread hbody
    · rintro ⟨b, hb, -⟩
      cases hb
  | some b =>
    cases api with
    | openAI => exact faithful_openAI_iff hbody
    | anthropic => exact faithful_anthropic_iff hbody

end Faithful

/-- A reply that is answered without streaming: it is no event stream, and no success of a chat
completion that asked for one. -/
def AnsweredWhole (env : Env) (api : ApiFormat) (req : Request) (reply : Reply) : Prop :=
  reply.isEventStream = false ∧
    ¬ (api = .openAI ∧ asksForStream env req = true ∧ isSuccess reply.status = true)

/-- Without streaming the answer does not depend on what the request asked for. -/
theorem AnsweredWhole.forwardedAs_eq {env : Env} {api : ApiFormat} {req : Request} {reply : Reply}
    (h : AnsweredWhole env api req reply) (body : Option (List UInt8)) :
    forwardedAs api (asksForStream env req) reply body = forwardedAs api false reply body := by
  cases api with
  | openAI =>
    unfold forwardedAs
    by_cases hs : isSuccess reply.status = true
    · have hstream : asksForStream env req = false := by
        simpa using fun hstream => h.2 ⟨rfl, hstream, hs⟩
      rw [hstream]
    · simp only [if_neg hs]
  | anthropic => rfl

/-- **The response to a request answered without streaming is faithful to the reply it comes from
exactly when the reply was intact.** -/
theorem faithful_iff {env : Env} {api : ApiFormat} {req : Request} {tr : Trace Answer}
    {resp : Response} {reply : Reply} (hrun : Run (handler env api req) tr (ret resp))
    (hreply : (after Exchange.add {} tr).reply = some reply)
    (hwhole : AnsweredWhole env api req reply) :
    Faithful reply (after Exchange.add {} tr) resp ↔
      Intact api reply (after Exchange.add {} tr).body := by
  have hsat : SentOn api (asksForStream env req) (after Exchange.add {} tr) resp :=
    (sat_handler_forwards env api req).run hrun
  obtain ⟨rfl, -⟩ := hsat reply hreply hwhole.1
  rw [hwhole.forwardedAs_eq]
  exact faithful_forwardedAs_iff _

/-- A refusal of three bytes, which is forwarded as a text with its own headers. -/
theorem faithful_refusal :
    ∃ tr resp, Run (handler Task.sampleEnv .anthropic Task.emptyRequest) tr (ret resp) ∧
      (after Exchange.add {} tr).body = some (Utf8.encode "abc") ∧
      resp.headers = [header "content-length" "3"] ∧ resp.body = .bytes (Utf8.encode "abc") ∧
      Faithful ⟨400, [header "content-length" "3"]⟩ (after Exchange.add {} tr) resp := by
  have hrun := run_play (Task.bodyAnswers ⟨400, [header "content-length" "3"]⟩
    (some (Utf8.encode "abc"))) (handler Task.sampleEnv .anthropic Task.emptyRequest)
  have hbody : Utf8.encode (Utf8.lossy (Utf8.encode "abc")) = Utf8.encode "abc" := by
    rw [Utf8.lossy_encode]
  refine ⟨_, _, hrun, rfl, rfl, congrArg Body.bytes hbody, (faithful_iff hrun rfl ⟨rfl, nofun⟩).2
    ⟨Utf8.encode "abc", rfl, fun _ => ⟨"abc", rfl⟩, fun _ v hv => ?_⟩⟩
  rw [(Prod.mk.inj (List.mem_singleton.1 hv)).2]
  decide

/-- A body of 500 bytes that fails midway is presented, and recorded, as a success of 500 bytes
without any. -/
theorem cut_body_sent_as_success :
    ∃ tr resp, Run (handler Task.sampleEnv .anthropic Task.emptyRequest) tr (ret resp) ∧
      (after Exchange.add {} tr).reply = some ⟨200, [header "content-length" "500"]⟩ ∧
      (after Exchange.add {} tr).body = none ∧ resp.status = 200 ∧
      resp.headers = [header "content-length" "500"] ∧ resp.body = .bytes [] ∧
      (after Exchange.add {} tr).records.map (fun r => r.status) = [200] ∧
      ¬ Faithful ⟨200, [header "content-length" "500"]⟩ (after Exchange.add {} tr) resp := by
  have hrun := run_play (Task.bodyAnswers ⟨200, [header "content-length" "500"]⟩ none)
    (handler Task.sampleEnv .anthropic Task.emptyRequest)
  refine ⟨_, _, hrun, rfl, rfl, rfl, rfl, rfl, rfl, fun h => ?_⟩
  have hstatus := (h.success rfl).1
  cases hstatus

end Mybro
