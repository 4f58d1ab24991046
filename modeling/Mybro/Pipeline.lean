import Mybro.Effects
import Mybro.Payload
import Mybro.SchemaNorm
import Mybro.Vision

/-!
# What the two pipelines share

The steps that `chat_completions` and `messages` both take, with the places where they differ as
parameters. `websearch`, `recordStat` and `logUpstreamError` are the helpers of the two source
files.
-/

namespace Mybro

open Value

/-- Whether the client asks for a stream. -/
def isStream (payload : Value) : Bool := ((payload.get "stream").bind asBool).getD false

/-- The `first prompt` log line of a new session. -/
def logFirstPrompt (payload : Value) (sessNum : UInt64) : Handler Unit := do
  let truncated ← orPanic .slice (firstPrompt payload)
  perform (.info ("[session " ++ toString sessNum.toNat ++ "] first prompt: " ++ truncated))

/-- From the fingerprint to the session: the key slot, if a key is usable, and the session number.
-/
def selectKey (env : Env) (payload : Value) : Handler (Option (KeySlot × UInt64)) := do
  let fp := fingerprintPayload env.md5 payload
  let touched ← perform (.touch fp)
  let slot ← perform (.acquireKey (touched.bind fun t => t.tokenIndex))
  match slot with
  | none => pure none
  | some slot => do
    let session ← perform (.track fp slot.index)
    doIf session.isNew (logFirstPrompt payload session.sessNum)
    pure (some (slot, session.sessNum))

/-- `resolve_model_id` of the payload's model, written back. -/
def resolveModel (cfg : Config) (payload : Value) : Handler (Value × String) := do
  let catalog ← perform .catalog
  let resolved := resolveModelId catalog ((payload.getStr "model").getD "") cfg
  let payload ← orPanic .index (payload.setIndex "model" (string resolved))
  pure (payload, resolved)

/-- The tool normalization of both pipelines. -/
def normalizeTools (payload : Value) : Value := payload.modify "tools" normalizeToolSchemas

/-- `perform_vision_handoff`. -/
def performVisionHandoff (payload : Value) (resolved : String) (cfg : Config) (key : String) :
    Handler Value := do
  let catalog ← perform .catalog
  if needsVisionHandoff catalog resolved cfg then
    let parts := collectImageParts payload
    if parts.isEmpty then pure payload
    else do
      let descriptions ← perform (.analyzeImages (parts.map ImageRef.dataUri) key cfg)
      pure (replaceParts payload parts descriptions.toList)
  else pure payload

/-- The vision step of both pipelines. -/
def visionStep (payload : Value) (resolved : String) (cfg : Config) (key : String) :
    Handler Value := do
  let catalog ← perform .catalog
  if needsVisionHandoff catalog resolved cfg then performVisionHandoff payload resolved cfg key
  else pure payload

/-- The web search provider: the client's header, or the configured one. -/
def websearch (headers : HeaderMap) (cfg : Config) : String :=
  (headers.getText "x-umans-websearch-provider").getD cfg.websearchProvider

/-- `record_stat`. -/
def recordStat (start : ℕ) (ttftMs : Option UInt64) (status : ℕ) (model pipeline keyName : String)
    (usage : Usage) (error : Option String) : Handler Unit := do
  let tsMs ← perform .unixMillis
  let now ← perform .instant
  perform (.record (RequestRecord.withUsage
    { tsMs := tsMs, durationMs := elapsedMillis start now, ttftMs := ttftMs, status := status,
      model := model, pipeline := pipeline, keyName := keyName, tokensIn := 0, tokensOut := 0,
      cachedTokens := 0, cacheCreationTokens := 0, cached := false, error := error } usage))

/-- The record a handler prepares for a stream. -/
def streamRecord (model pipeline keyName : String) : Handler RequestRecord := do
  let tsMs ← perform .unixMillis
  pure
    { tsMs := tsMs, durationMs := 0, ttftMs := none, status := 200, model := model,
      pipeline := pipeline, keyName := keyName, tokensIn := 0, tokensOut := 0, cachedTokens := 0,
      cacheCreationTokens := 0, cached := false, error := none }

/-- `log_upstream_error`, with the stage and the URL in which the two files differ. -/
def logUpstreamError (env : Env) (stage url : String) (attempt : ℕ) (sessNum : UInt64)
    (slotName : String) (status : ℕ) (errorBody : String) : Handler Unit := do
  let timestamp ← perform .localTime
  perform (.logError
    { timestamp := timestamp, stage := stage, attempt := attempt, sessNum := sessNum,
      slotName := slotName, requestUrl := url, upstreamUrl := env.base, status := status,
      statusText := (env.canonicalReason status).getD "",
      body := match env.fromSlice (Utf8.encode errorBody) with
        | .ok v => v
        | .error _ => string errorBody })

/-- `read_body` with the default of `unwrap_or_default`. -/
def readBodyOrEmpty : Handler (List UInt8) := do
  let body ← perform .readBody
  pure (Option.getD body [])

/-- `read_error_body`, and the same code in `messages`. -/
def readErrorBody : Handler String := do
  let body ← perform .readBody
  pure (match body with
    | some b => Utf8.lossy b
    | none => "")

end Mybro
