import Mybro.Chat

/-!
# The Anthropic pipeline (`routes/messages.rs`)

`messages` is the handler of `/v1/messages` and `/messages`, cut at the same stages as the OpenAI
pipeline. It makes one upstream call.
-/

namespace Mybro

open Value

/-- Steps 6 to 10. -/
def messagesPayload (payload : Value) (slot : KeySlot) : Handler (Value × Config × String) := do
  let payload := normalizeThinkingPayload payload
  let cfg ← perform .config
  let (payload, resolved) ← resolveModel cfg payload
  let payload := limitImagesInMessages payload cfg.maxImages
  let payload ← visionStep payload resolved cfg slot.key
  pure (normalizeTools payload, cfg, resolved)

/-- From JSON parsing to the upstream call. -/
def messagesPrepare (env : Env) (payload : Value) : Handler (Except Response Prepared) := do
  let total ← perform .keypoolTotal
  if (total : ℕ) = 0 then pure (.error (anthropicError 503 "No API keys configured"))
  else do
    let admitted ← perform .gateAcquire
    if admitted = true then do
      let selected ← selectKey env payload
      match selected with
      | none => pure (.error (anthropicError 503 "No healthy API keys available"))
      | some (slot, sessNum) => do
        let (final, cfg, resolved) ← messagesPayload payload slot
        pure (.ok ⟨final, cfg, resolved, slot, sessNum⟩)
    else pure (.error (anthropicError 503 "Queue full"))

/-- What the code after the upstream call keeps from before it. -/
structure MessagesCall where
  env : Env
  model : String
  sessNum : UInt64
  slot : KeySlot
  reqStart : ℕ

/-- `log_upstream_error` of this file. -/
def messagesLogError (c : MessagesCall) (status : ℕ) (errorBody : String) : Handler Unit :=
  logUpstreamError c.env "final_attempt" "/v1/messages" 1 c.sessNum c.slot.name status errorBody

/-- A 2xx reply. -/
def messagesSuccess (c : MessagesCall) (upstreamStart : ℕ) (reply : Reply) : Handler Response := do
  perform (.markHealthy c.slot.index)
  if reply.headers.isSse then do
    let record ← streamRecord c.model "anthropic" c.slot.name
    pure { status := reply.status
           headers := reply.headers ++ [header "cache-control" "no-cache"]
           body := .stream (Pipe.new record upstreamStart c.reqStart) }
  else do
    let body ← readBodyOrEmpty
    let now ← perform .instant
    recordStat c.reqStart (some (elapsedMillis upstreamStart now)) reply.status c.model "anthropic"
      c.slot.name (extractUsage c.env.fromSlice body) none
    pure { status := reply.status, headers := reply.headers, body := .bytes body }

/-- A reply from 400 on. -/
def messagesError (c : MessagesCall) (reply : Reply) : Handler Response := do
  let errorBody ← readErrorBody
  messagesLogError c reply.status errorBody
  doIf (reply.status = 503) (perform (.markUnhealthy c.slot.index reply.status))
  doIf (reply.status = 429 ∨ reply.status = 503) (perform .bumpThrottled)
  recordStat c.reqStart none reply.status c.model "anthropic" c.slot.name {} (some errorBody)
  pure { status := reply.status
         headers := reply.headers
         body := .bytes (Utf8.encode errorBody) }

/-- A network error. -/
def messagesUnreachable (c : MessagesCall) (err : String) : Handler Response := do
  perform (.markUnhealthy c.slot.index 502)
  messagesLogError c 502 err
  recordStat c.reqStart none 502 c.model "anthropic" c.slot.name {} (some err)
  pure (anthropicError 502 ("Upstream error: " ++ err))

/-- Steps 11 and 12. -/
def messagesUpstream (env : Env) (headers : HeaderMap) (stream : Bool) (p : Prepared) :
    Handler Response := do
  let reqStart ← perform .instant
  let upstreamStart ← perform .instant
  let c : MessagesCall := ⟨env, p.resolvedModel, p.sessNum, p.slot, reqStart⟩
  let result ← perform (.send ⟨"/messages", p.slot.key, p.payload.toVec, stream,
    websearch headers p.cfg⟩)
  match result with
  | .ok reply =>
    if isSuccess reply.status then messagesSuccess c upstreamStart reply
    else if 400 ≤ reply.status then messagesError c reply
    else do
      -- a status below 400 that is no success: neither recorded nor marked
      let body ← readBodyOrEmpty
      pure { status := reply.status, headers := [], body := .bytes body }
  | .error err => messagesUnreachable c err

/-- `messages` after JSON parsing. -/
def messagesParsed (env : Env) (headers : HeaderMap) (payload : Value) : Handler Response := do
  let prepared ← messagesPrepare env payload
  match prepared with
  | .error resp => pure resp
  | .ok p => messagesUpstream env headers (isStream payload) p

/-- `messages`. -/
def messages (env : Env) (req : Request) : Handler Response := do
  let cfg ← perform .config
  if checkAuth cfg req.headers then
    match req.body with
    | none => pure bodyTooLarge
    | some bytes =>
      match env.fromSlice bytes with
      | .error e => pure (anthropicError 400 ("Invalid JSON: " ++ e))
      | .ok payload => messagesParsed env req.headers payload
  else pure (authErrorResponse .anthropic)

/-- The part between JSON parsing and the upstream call, of either pipeline. -/
def prepare (env : Env) : ApiFormat → Value → Handler (Except Response Prepared)
  | .openAI, payload => chatPrepare env payload
  | .anthropic, payload => messagesPrepare env payload

/-- The handler of a request format. -/
def handler (env : Env) : ApiFormat → Request → Handler Response
  | .openAI, req => chatCompletions env req
  | .anthropic, req => messages env req

end Mybro
