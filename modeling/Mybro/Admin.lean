import Mybro.Usage

/-!
# Settings and sizing (`routes/config_api.rs`, `routes/usage_api.rs`, `routes/stats_api.rs`, `main.rs`)

Who asks for the concurrency limit and who hands it to the gate: the sizing at startup, the
background refresh, `get_concurrency`, `post_config`, and `get_gate`, which shows it; besides,
`get_usage`.
-/

namespace Mybro

open Value

/-- `AppState::active_key`. -/
def activeKey : Admin (Option String) := do
  let cfg ← act .loadConfig
  if cfg.apiKey ≠ "" then pure (some cfg.apiKey)
  else do
    -- the tokens are masked, so they only tell whether there is a key; the key is the configured one
    let tokens ← act .keypoolTokens
    pure ((List.find? (fun t => t ≠ "" && t ≠ "***") tokens).map fun _ =>
      (((cfg.keys.find? fun k => k.key ≠ "").map ConfigKey.key).getD ""))

/-- `active_key`, when it is not empty. -/
def usableKey : Admin (Option String) := do
  let key ← activeKey
  pure (key.filter fun k => k ≠ "")

/-! ### Sizing the gate -/

/-- The part of the sizing at startup and of the background refresh after `fetch_concurrency`. -/
def resizeGate (configOverride : UInt32) : Admin Unit := do
  let eff ← getEffectiveConcurrency configOverride
  act (.reconcile eff.target)

/-- Step 13 of `main`; the override is the one read before the store is built. -/
def startupSizing (env : Env) (overrideConcurrency : UInt32) : Admin Unit := do
  let key ← usableKey
  match key with
  | none => pure ()
  | some key => do
    let conc ← fetchConcurrency env key true
    match conc with
    | none => pure ()
    | some _ => resizeGate overrideConcurrency

/-- One round of the background refresh, step 14 of `main`. -/
def backgroundRefresh (env : Env) : Admin Unit := do
  let key ← usableKey
  match key with
  | none => pure ()
  | some key => do
    let conc ← fetchConcurrency env key false
    match conc with
    | none => pure ()
    | some _ => do
      let cfg ← act .loadConfig
      resizeGate cfg.overrideConcurrency

/-! ### Showing it -/

/-- A number, or null. -/
def ofOption (n : Option UInt32) : Value :=
  match n with
  | some n => number (.posInt n.toUInt64)
  | none => null

/-- The body of `get_concurrency`. -/
def concurrencyBody (data : LastConcurrency) (overridden : Bool) (active queued : UInt64) : Value :=
  object (JsonMap.ofList
    [("concurrent", number (.posInt data.concurrent.toUInt64)), ("limit", ofOption data.limit),
      ("hard_cap", ofOption data.hardCap), ("user_id", string data.userId),
      ("overridden", bool overridden), ("active", number (.posInt active)),
      ("queued", number (.posInt queued))])

/-- What `get_concurrency` shows without data. -/
def noConcurrency : LastConcurrency := ⟨0, none, none, ""⟩

/-- `get_concurrency`, where `fresh` says whether the query has `fresh=1`. -/
def getConcurrency (env : Env) (headers : HeaderMap) (fresh : Bool) : Admin Response := do
  let cfg ← act .loadConfig
  if checkAuth cfg headers then do
    let key ← usableKey
    match key with
    | none => do
      let active ← act .gateActive
      let queued ← act .gateQueued
      pure (jsonResponse (concurrencyBody noConcurrency false active queued))
    | some key => do
      let conc ← fetchConcurrency env key fresh
      let cfg ← act .loadConfig
      let eff ← getEffectiveConcurrency cfg.overrideConcurrency
      let active ← act .gateActive
      let queued ← act .gateQueued
      pure (jsonResponse (concurrencyBody (conc.getD noConcurrency) eff.overridden active queued))
  else pure (authErrorResponse .openAI)

/-- What `get_usage` shows without data. -/
def noUsage : UsageData := ⟨0, 0, 0, 0, "", "", null⟩

/-- The body of `get_usage`. -/
def usageBody (data : UsageData) (throttled : UInt64) : Value :=
  object (JsonMap.ofList
    [("usage", object (JsonMap.ofList
        [("requests_in_window", number (.posInt data.requestsInWindow)),
          ("tokens_in", number (.posInt data.tokensIn)),
          ("tokens_out", number (.posInt data.tokensOut)),
          ("tokens_cached", number (.posInt data.tokensCached))])),
      ("window", object (JsonMap.ofList [("started_at", string data.windowStartedAt)])),
      ("plan", object (JsonMap.ofList [("display_name", string data.planDisplayName)])),
      ("throttled", number (.posInt throttled))])

/-- `get_usage`, where `fresh` says whether the query has `fresh=1`. -/
def getUsage (env : Env) (headers : HeaderMap) (fresh : Bool) : Admin Response := do
  let cfg ← act .loadConfig
  if checkAuth cfg headers then do
    let key ← usableKey
    match key with
    | none => do
      let throttled ← act .throttledCount
      pure (jsonResponse (usageBody noUsage throttled))
    | some key => do
      let usage ← fetchUsage env key fresh
      let throttled ← act .throttledCount
      pure (jsonResponse (usageBody (usage.getD noUsage) throttled))
  else pure (authErrorResponse .openAI)

/-- The body of `get_gate`. -/
def gateBody (eff : Effective) (active queued throttled : UInt64) : Value :=
  object (JsonMap.ofList
    [("active", number (.posInt active)), ("queued", number (.posInt queued)),
      ("throttled", number (.posInt throttled)), ("limit", ofOption eff.limit),
      ("hard_cap", ofOption eff.hardCap), ("overridden", bool eff.overridden),
      ("max_queue_size", number (.posInt maxQueueSize))])

/-- `get_gate`. -/
def getGate (headers : HeaderMap) : Admin Response := do
  let cfg ← act .loadConfig
  if checkAuth cfg headers then do
    let cfg ← act .loadConfig
    let eff ← getEffectiveConcurrency cfg.overrideConcurrency
    let active ← act .gateActive
    let queued ← act .gateQueued
    let throttled ← act .gateThrottled
    pure (jsonResponse (gateBody eff active queued throttled))
  else pure (authErrorResponse .openAI)

/-! ### Changing the configuration -/

/-- `ConfigUpdate`. -/
structure ConfigUpdate where
  apiKey : Option String := none
  apiKeys : Option (List String) := none
  listenAddr : Option String := none
  enabledModels : Option (List String) := none
  modelDisplayNames : Option (List (String × String)) := none
  wallpaperSource : Option String := none
  overrideConcurrency : Option UInt32 := none
  maxImages : Option ℕ := none
  disabledModels : Option (List String) := none
  visionHandoffEnabled : Option Bool := none
  visionHandoffModel : Option String := none
  visionHandoffPrompt : Option String := none
  visionHandoffCacheEnabled : Option Bool := none
  keys : Option (List ConfigKey) := none

/-- The wallpaper source a text names. -/
def WallpaperSource.ofText (s : String) : WallpaperSource :=
  if s = "none" then .none else if s = "wallhaven" then .wallhaven else .bing

/-- `WallpaperSource`, as it is serialized. -/
def WallpaperSource.text : WallpaperSource → String
  | .none => "none"
  | .bing => "bing"
  | .wallhaven => "wallhaven"

/-- The change `post_config` makes to the configuration. -/
def ConfigUpdate.apply (u : ConfigUpdate) (cfg : Config) : Config :=
  { cfg with
    apiKey := u.apiKey.getD cfg.apiKey
    apiKeys := u.apiKeys.getD cfg.apiKeys
    listenAddr := u.listenAddr.getD cfg.listenAddr
    enabledModels := u.enabledModels.getD cfg.enabledModels
    modelDisplayNames := u.modelDisplayNames.getD cfg.modelDisplayNames
    wallpaperSource := (u.wallpaperSource.map WallpaperSource.ofText).getD cfg.wallpaperSource
    overrideConcurrency := u.overrideConcurrency.getD cfg.overrideConcurrency
    maxImages := u.maxImages.getD cfg.maxImages
    disabledModels := u.disabledModels.getD cfg.disabledModels
    visionHandoffEnabled := u.visionHandoffEnabled.getD cfg.visionHandoffEnabled
    visionHandoffModel := u.visionHandoffModel.getD cfg.visionHandoffModel
    visionHandoffPrompt := u.visionHandoffPrompt.getD cfg.visionHandoffPrompt
    visionHandoffCacheEnabled := u.visionHandoffCacheEnabled.getD cfg.visionHandoffCacheEnabled
    keys := u.keys.getD cfg.keys }

/-- Whether the update asks for another address to listen on. -/
def ConfigUpdate.restartRequired (u : ConfigUpdate) (cfg : Config) : Bool :=
  match u.listenAddr with
  | some v => v ≠ cfg.listenAddr
  | none => false

/-- A configuration as JSON, with `restartRequired`. -/
def configBody (cfg : Config) (restartRequired : Bool) : Value :=
  object (JsonMap.ofList
    [("LISTEN_ADDR", string cfg.listenAddr), ("UPSTREAM_BASE_URL", string cfg.upstreamBaseUrl),
      ("REQUEST_TIMEOUT", string cfg.requestTimeout),
      ("WEBSEARCH_PROVIDER", string cfg.websearchProvider), ("API_KEY", string cfg.apiKey),
      ("API_KEYS", array (cfg.apiKeys.map string)),
      ("KEYS", array (cfg.keys.map fun k => object (JsonMap.ofList
        [("name", string k.name), ("key", string k.key), ("session", string k.session)]))),
      ("ENABLED_MODELS", array (cfg.enabledModels.map string)),
      ("MODEL_DISPLAY_NAMES",
        object (JsonMap.ofList (cfg.modelDisplayNames.map fun p => (p.1, string p.2)))),
      ("OVERRIDE_CONCURRENCY", number (.posInt cfg.overrideConcurrency.toUInt64)),
      ("MAX_IMAGES", number (.posInt (UInt64.ofNat cfg.maxImages))),
      ("DISABLED_MODELS", array (cfg.disabledModels.map string)),
      ("VISION_HANDOFF_ENABLED", bool cfg.visionHandoffEnabled),
      ("VISION_HANDOFF_MODEL", string cfg.visionHandoffModel),
      ("VISION_HANDOFF_PROMPT", string cfg.visionHandoffPrompt),
      ("VISION_HANDOFF_CACHE_ENABLED", bool cfg.visionHandoffCacheEnabled),
      ("VISION_HANDOFF_CACHE_TTL", string cfg.visionHandoffCacheTtl),
      ("wallpaper_source", string cfg.wallpaperSource.text),
      ("restartRequired", bool restartRequired)])

/-- `ConfigStore::update` with the change of `post_config`: the configuration before and after. -/
def updateConfig (u : ConfigUpdate) : Admin (Config × Config) := do
  let cfg ← act .loadConfig
  act (.storeConfig (u.apply cfg))
  pure (cfg, u.apply cfg)

/-- The first side effect of `post_config`: a new override resizes the gate. -/
def resizeOnOverride (u : ConfigUpdate) (newCfg : Config) : Admin Unit :=
  if u.overrideConcurrency.isSome then resizeGate newCfg.overrideConcurrency else pure ()

/-- The second: a new prompt, or a word about the cache, resizes the handoff cache. -/
def resizeCache (u : ConfigUpdate) : Admin Unit :=
  if u.visionHandoffCacheEnabled.isSome || u.visionHandoffPrompt.isSome then do
    let cfg ← act .loadConfig
    act (.resizeHandoffCache handoffCacheSize cfg.handoffCacheTtlDuration)
  else pure ()

/-- The third: new keys rebuild the pool. -/
def rebuildPool (u : ConfigUpdate) (newCfg : Config) : Admin Unit :=
  if u.keys.isSome then act (.rebuild (newCfg.keys.map KeyEntry.fromConfig)) else pure ()

/-- `post_config`. -/
def postConfig (headers : HeaderMap) (u : ConfigUpdate) : Admin Response := do
  let cfg ← act .loadConfig
  if checkAuth cfg headers then do
    let (oldCfg, newCfg) ← updateConfig u
    resizeOnOverride u newCfg
    resizeCache u
    rebuildPool u newCfg
    act .ping
    pure (jsonResponse (configBody newCfg (u.restartRequired oldCfg)))
  else pure (authErrorResponse .openAI)

end Mybro
