import Mybro.Pipeline

/-!
# The OpenAI pipeline (`routes/chat.rs`)

`chatCompletions` is the handler of `/v1/chat/completions`, cut at its stages: admission, the
preparation of the payload, and the retry loop. The loop is on the list of attempts that are left.
-/

namespace Mybro

open Value

/-- What the part before the upstream call hands to the retry loop. -/
structure Prepared where
  payload : Value
  cfg : Config
  resolvedModel : String
  slot : KeySlot
  sessNum : UInt64

/-- Step 12.5: ask for the usage chunk. -/
def includeUsage (payload : Value) : Value :=
  payload.modifyObject fun obj =>
    let opts := (JsonMap.get obj "stream_options").getD (object [])
    JsonMap.insert obj "stream_options"
      (opts.modifyObject fun opts => JsonMap.insert opts "include_usage" (bool true))

/-- Steps 6 to 12.5. -/
def chatPayload (payload : Value) (slot : KeySlot) (stream : Bool) :
    Handler (Value × Config × String) := do
  let payload := stripReasoningContent payload
  let cfg ← perform .config
  let (payload, resolved) ← resolveModel cfg payload
  let payload := normalizeTools payload
  let catalog ← perform .catalog
  let payload := if needsVisionHandoff catalog resolved cfg then payload
    else limitImagesInMessages payload cfg.maxImages
  let catalog ← perform .catalog
  let payload ← orPanic .index (applyAutoThink catalog payload resolved)
  let payload := normalizeThinkingPayload payload
  let payload ← visionStep payload resolved cfg slot.key
  let payload := if stream then includeUsage payload else payload
  pure (payload, cfg, resolved)

/-- From JSON parsing to the upstream call: admission, key selection, the payload. The guard is not
part of the model's values; it lives until the handler returns. -/
def chatPrepare (env : Env) (payload : Value) : Handler (Except Response Prepared) := do
  let admitted ← perform .gateAcquire
  if admitted = true then do
    let selected ← selectKey env payload
    match selected with
    | none => pure (.error (openaiError 503 "No healthy API keys available" "api_error"))
    | some (slot, sessNum) => do
      let (final, cfg, resolved) ← chatPayload payload slot (isStream payload)
      pure (.ok ⟨final, cfg, resolved, slot, sessNum⟩)
  else pure (.error (openaiError 503 "Queue full" "queue_full"))

/-- What the retry loop keeps from before it. -/
structure ChatCall where
  env : Env
  model : String
  sessNum : UInt64
  stream : Bool
  body : List UInt8
  websearchProvider : String
  reqStart : ℕ

/-- `Upstream::chat_completions`. -/
def ChatCall.request (c : ChatCall) (slot : KeySlot) : UpstreamCall where
  path := "/chat/completions"
  key := slot.key
  body := c.body
  stream := c.stream
  websearchProvider := c.websearchProvider

/-- `wrap_json_as_sse`. -/
def wrapJsonAsSse (body : List UInt8) : Response where
  status := 200
  headers := [header "content-type" "text/event-stream", header "cache-control" "no-cache"]
  body := .bytes (Utf8.encode ("data: " ++ Utf8.lossy body ++ "\n\n" ++ "data: [DONE]\n\n"))

/-- The key of an attempt: from the second one on, another one if the pool has several. -/
def rotate (attempt : ℕ) (slot : KeySlot) : Handler KeySlot :=
  if attempt > 1 then do
    let total ← perform .keypoolTotal
    if (total : ℕ) > 1 then do
      let next ← perform (.acquireKey none)
      -- when no key is usable the attempt goes on with the one that has just failed
      pure (Option.getD next slot)
    else pure slot
  else pure slot

/-- The stage `log_upstream_error` of this file logs. -/
def chatStage (status : ℕ) : String :=
  if status = 500 ∨ status = 503 then "retryable_attempt" else "final_attempt"

/-- `log_upstream_error` of this file. -/
def chatLogError (c : ChatCall) (attempt : ℕ) (slot : KeySlot) (status : ℕ) (errorBody : String) :
    Handler Unit :=
  logUpstreamError c.env (chatStage status) "/v1/chat/completions" attempt c.sessNum slot.name
    status errorBody

/-- A 2xx reply. -/
def chatSuccess (c : ChatCall) (slot : KeySlot) (upstreamStart : ℕ) (reply : Reply) :
    Handler Response := do
  perform (.markHealthy slot.index)
  if reply.headers.isSse then do
    let record ← streamRecord c.model "openai" slot.name
    -- the record goes along with the stream, which stores it when it ends
    pure { status := 200
           headers := [header "content-type" "text/event-stream",
             header "cache-control" "no-cache"]
           body := .stream (Pipe.new record upstreamStart c.reqStart) }
  else do
    let body ← readBodyOrEmpty
    let now ← perform .instant
    recordStat c.reqStart (some (elapsedMillis upstreamStart now)) 200 c.model "openai" slot.name
      (extractUsage c.env.fromSlice body) none
    pure (if c.stream then wrapJsonAsSse body
      else { status := 200
             headers := [header "content-type" "application/json"]
             body := .bytes body })

/-- A reply that is neither 2xx nor retried. -/
def chatOther (c : ChatCall) (slot : KeySlot) (reply : Reply) : Handler Response := do
  doIf (reply.status = 429) (perform .bumpThrottled)
  let body ← readBodyOrEmpty
  recordStat c.reqStart none reply.status c.model "openai" slot.name {} none
  pure { status := reply.status, headers := reply.headers, body := .bytes body }

/-- A 500 or 503 on the last attempt. -/
def chatExhausted (c : ChatCall) (slot : KeySlot) (status : ℕ) (errorBody : String) :
    Handler Response := do
  doIf (status = 503) (perform .bumpThrottled)
  recordStat c.reqStart none status c.model "openai" slot.name {} (some errorBody)
  pure { status := status
         headers := [header "content-type" "application/json"]
         body := .bytes (Utf8.encode errorBody) }

/-- A network error on the last attempt. -/
def chatUnreachable (c : ChatCall) (slot : KeySlot) (err : String) : Handler Response := do
  recordStat c.reqStart none 502 c.model "openai" slot.name {} (some err)
  pure (openaiError 502 ("Upstream error: " ++ err) "upstream_error")

/-- The delay after an attempt, in milliseconds. -/
def retryDelay (attempt : ℕ) : ℕ := 3000 + 3000 * (attempt - 1)

/-- A retryable failure: `last` is what comes of it on the last attempt, `again` the next attempt.
-/
def chatFailed (c : ChatCall) (attempt : ℕ) (slot : KeySlot) (status : ℕ) (errorBody : String)
    (last again : Handler Response) : Handler Response := do
  perform (.markUnhealthy slot.index status)
  chatLogError c attempt slot status errorBody
  if attempt = maxRetries then last
  else do
    perform (.sleep (retryDelay attempt))
    again

/-- What an attempt does with the result of its call. -/
def chatResult (c : ChatCall) (attempt : ℕ) (slot : KeySlot) (upstreamStart : ℕ)
    (again : Handler Response) : Except String Reply → Handler Response
  | .ok reply =>
    if isSuccess reply.status then chatSuccess c slot upstreamStart reply
    else if reply.status = 500 ∨ reply.status = 503 then do
      let errorBody ← readErrorBody
      chatFailed c attempt slot reply.status errorBody
        (chatExhausted c slot reply.status errorBody) again
    else chatOther c slot reply
  | .error err => chatFailed c attempt slot 502 err (chatUnreachable c slot err) again

/-- The code after the retry loop. -/
def chatAfterLoop (c : ChatCall) (slot : KeySlot) : Handler Response := do
  recordStat c.reqStart none 500 c.model "openai" slot.name {} (some "max retries exhausted")
  pure (openaiError 500 "Max retries exhausted" "api_error")

/-- The retry loop, on the attempts that are left, with the code after it. -/
def chatLoop (c : ChatCall) (after : KeySlot → Handler Response) :
    List ℕ → KeySlot → Handler Response
  | [], slot => after slot
  | attempt :: rest, slot => do
    let slot ← rotate attempt slot
    let upstreamStart ← perform .instant
    let result ← perform (.send (c.request slot))
    chatResult c attempt slot upstreamStart (chatLoop c after rest slot) result

/-- The attempts of the retry loop. -/
def attempts : List ℕ := List.range' 1 maxRetries

/-- Steps 13 and 14. -/
def chatUpstream (env : Env) (headers : HeaderMap) (stream : Bool) (p : Prepared) :
    Handler Response := do
  let reqStart ← perform .instant
  let c : ChatCall := ⟨env, p.resolvedModel, p.sessNum, stream, p.payload.toVec,
    websearch headers p.cfg, reqStart⟩
  chatLoop c (chatAfterLoop c) attempts p.slot

/-- `chat_completions` after JSON parsing. -/
def chatParsed (env : Env) (headers : HeaderMap) (payload : Value) : Handler Response := do
  let prepared ← chatPrepare env payload
  match prepared with
  | .error resp => pure resp
  | .ok p => chatUpstream env headers (isStream payload) p

/-- `chat_completions`. -/
def chatCompletions (env : Env) (req : Request) : Handler Response := do
  let cfg ← perform .config
  if checkAuth cfg req.headers then
    match req.body with
    | none => pure bodyTooLarge
    | some bytes =>
      match env.fromSlice bytes with
      | .error e => pure (openaiError 400 ("Invalid JSON: " ++ e) "invalid_request_error")
      | .ok payload => chatParsed env req.headers payload
  else pure (authErrorResponse .openAI)

end Mybro
