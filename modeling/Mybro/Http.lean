import Mybro.Config
import Mybro.UsageParse

/-!
# Requests, replies, responses (`routes/mod.rs`, `routes/stream.rs`, `stats.rs`)

The data both pipelines exchange with their client and with upstream, the credential check, and the
helpers that build the proxy's own error objects. A response body is a byte string, or the stream
that relays an upstream event stream and records the request when it ends.
-/

namespace Mybro

open Value

/-- What the handlers call outside the repository, and the address they log: the JSON parser with
the text of its error, the MD5 digest of a text, the reason phrase of a status, the upstream base.
-/
structure Env where
  fromSlice : List UInt8 → Except String Value
  md5 : String → List UInt8
  canonicalReason : ℕ → Option String
  base : String

/-- An environment whose parser knows the text of one value. -/
def envParsing (v : Value) (digest : List UInt8) : Env where
  fromSlice bytes := if bytes = v.toVec then .ok v else .error "expected value at line 1 column 1"
  md5 _ := digest
  canonicalReason _ := none
  base := "https://api.code.umans.ai/v1"

theorem fromSlice_envParsing (v : Value) (digest : List UInt8) :
    (envParsing v digest).fromSlice v.toVec = .ok v := if_pos rfl

/-! ### Headers -/

/-- A header map, in order; names are in lower case. -/
abbrev HeaderMap := List (String × List UInt8)

/-- `HeaderValue::to_str`: defined on visible ASCII and tabs. -/
def headerText (bytes : List UInt8) : Option String :=
  if bytes.all fun b => (32 ≤ b && b < 127) || b == 9 then
    some (String.ofList (bytes.map fun b => Char.ofNat b.toNat))
  else none

/-- The text of the first header of a name. -/
def HeaderMap.getText (h : HeaderMap) (name : String) : Option String :=
  (List.lookup name h).bind headerText

/-- Whether the content type announces an event stream. -/
def HeaderMap.isSse (h : HeaderMap) : Bool :=
  Utf8.contains ((h.getText "content-type").getD "") "text/event-stream"

/-- A header with a text for its value. -/
def header (name value : String) : String × List UInt8 := (name, Utf8.encode value)

/-! ### Requests and upstream replies -/

/-- `ApiFormat`. -/
inductive ApiFormat
  | openAI
  | anthropic
  deriving DecidableEq, Repr

/-- A request of either pipeline; there is no body when it is too large or cannot be read. -/
structure Request where
  headers : HeaderMap
  body : Option (List UInt8)

/-- `UpstreamError` has its text for a value; a reply's body is read separately. -/
structure Reply where
  status : ℕ
  headers : HeaderMap
  deriving DecidableEq

/-- `StatusCode::is_success`. -/
def isSuccess (status : ℕ) : Bool := 200 ≤ status && status < 300

/-- Whether a reply is relayed as an event stream. -/
def Reply.isEventStream (r : Reply) : Bool := isSuccess r.status && r.headers.isSse

/-- A call of `Upstream::chat_completions` or `Upstream::messages`. -/
structure UpstreamCall where
  path : String
  key : String
  body : List UInt8
  stream : Bool
  websearchProvider : String
  deriving DecidableEq

/-! ### Records -/

/-- `RequestRecord`. -/
structure RequestRecord where
  tsMs : UInt64
  durationMs : UInt64
  ttftMs : Option UInt64
  status : ℕ
  model : String
  pipeline : String
  keyName : String
  tokensIn : UInt64
  tokensOut : UInt64
  cachedTokens : UInt64
  cacheCreationTokens : UInt64
  cached : Bool
  error : Option String
  deriving DecidableEq, Repr

/-- `elapsed().as_millis() as u64`, between two readings of the clock. -/
def elapsedMillis (start now : ℕ) : UInt64 := UInt64.ofNat ((now - start) / 1000000)

/-- The fields of a record that come from the usage of the reply. -/
def RequestRecord.withUsage (r : RequestRecord) (u : Usage) : RequestRecord :=
  { r with
    tokensIn := u.tokensIn
    tokensOut := u.tokensOut
    cachedTokens := u.cached
    cacheCreationTokens := u.creation
    cached := u.cached > 0 || u.creation > 0 }

/-! ### The relayed stream -/

/-- The state of the generator in `pipe_response` with what its callbacks own. -/
structure Pipe where
  record : RequestRecord
  acc : SseUsageAccumulator
  firstArrived : Bool
  upstreamStart : ℕ
  reqStart : ℕ

/-- The stream before its first chunk; `record` is the one the handler prepared. -/
def Pipe.new (record : RequestRecord) (upstreamStart reqStart : ℕ) : Pipe :=
  ⟨record, {}, false, upstreamStart, reqStart⟩

/-- One chunk passes: the first one stops the time to the first token. -/
def Pipe.chunk (env : Env) (p : Pipe) (bytes : List UInt8) (now : ℕ) : Pipe :=
  { p with
    record := if p.firstArrived then p.record
      else { p.record with ttftMs := some (elapsedMillis p.upstreamStart now) }
    firstArrived := true
    acc := p.acc.ingest env.fromSlice bytes }

/-- The record `on_complete` stores at the end of the stream. -/
def Pipe.complete (env : Env) (p : Pipe) (now : ℕ) : RequestRecord :=
  { p.record with durationMs := elapsedMillis p.reqStart now }.withUsage
    (p.acc.finish env.fromSlice)

/-! ### Responses -/

/-- A response body. -/
inductive Body
  | bytes (b : List UInt8)
  | stream (p : Pipe)

/-- A response. `given` is the status passed to `openai_error` or `anthropic_error` when the
response is one of the proxy's own error objects; no client sees it. -/
structure Response where
  status : ℕ
  headers : HeaderMap
  body : Body
  given : Option ℕ := none

/-- What `axum::Json` alone becomes: a response with status 200. -/
def jsonResponse (v : Value) : Response where
  status := 200
  headers := [header "content-type" "application/json"]
  body := .bytes v.toVec

/-- `openai_error`; the status is an argument that nothing reads. -/
def openaiError (status : ℕ) (msg errorType : String) : Response :=
  { jsonResponse (object (JsonMap.ofList [("error",
      object (JsonMap.ofList [("message", string msg), ("type", string errorType)]))])) with
    given := some status }

/-- The error type of a status in `anthropic_error`. -/
def anthropicErrorType (status : ℕ) : String :=
  match status with
  | 400 => "invalid_request_error"
  | 401 => "authentication_error"
  | 403 => "permission_error"
  | 404 => "not_found_error"
  | 429 => "rate_limit_error"
  | 500 => "api_error"
  | 503 => "overloaded_error"
  | _ => "api_error"

/-- `anthropic_error`; the status decides the error type only. -/
def anthropicError (status : ℕ) (msg : String) : Response :=
  { jsonResponse (object (JsonMap.ofList [("type", string "error"), ("error",
      object (JsonMap.ofList
        [("type", string (anthropicErrorType status)), ("message", string msg)]))])) with
    given := some status }

/-- `auth_error_response`. -/
def authErrorResponse (format : ApiFormat) : Response :=
  let body := match format with
    | .openAI => object (JsonMap.ofList [("error", object (JsonMap.ofList
        [("message", string "Invalid API key"), ("type", string "authentication_error"),
          ("code", string "invalid_api_key")]))])
    | .anthropic => object (JsonMap.ofList [("type", string "error"), ("error",
        object (JsonMap.ofList
          [("type", string "authentication_error"), ("message", string "Invalid API key")]))])
  { jsonResponse body with status := 401 }

/-- The response to a body `read_body_limited` refuses. -/
def bodyTooLarge : Response where
  status := 413
  headers := [header "content-type" "text/plain; charset=utf-8"]
  body := .bytes (Utf8.encode "Body too large")

/-! ### Credentials -/

/-- The credential a request presents. -/
def providedKey (headers : HeaderMap) : Option String :=
  (headers.getText "x-api-key").or
    ((headers.getText "authorization").bind fun s => Utf8.stripStart "Bearer " s)

/-- `check_auth`. -/
def checkAuth (cfg : Config) (headers : HeaderMap) : Bool :=
  cfg.apiKeys = [] ||
    match providedKey headers with
    | none => false
    | some provided => cfg.apiKeys.any fun valid => provided = valid

end Mybro
