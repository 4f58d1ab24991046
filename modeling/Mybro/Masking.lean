import Mybro.HandoffCache
import Mybro.KeyAcquire
import Mybro.Keys

/-!
# Masked keys (`config.rs`, `routes/healthz.rs`, `routes/keys_api.rs`, `routes/config_api.rs`)

`mask_token` cuts a key at byte 10 and four bytes before its end, so it panics when a character lies
across one of these, and with it everything that shows keys. `masksAll_iff` says in which states
nothing panics. What a mask shows of a key is its first ten and its last four bytes.
-/

namespace Mybro

open Prog Value Utf8

/-! ### `mask_token` -/

/-- No character lies across the two cuts. -/
def CutsFit (token : String) : Prop :=
  len token ≤ 14 ∨ (¬ Straddles token.toList 10 ∧ ¬ Straddles token.toList (len token - 4))

/-- A long key and its cuts. -/
theorem maskToken_eq_some_iff {token : String} (h : 14 < len token) {mask : String} :
    maskToken token = some mask ↔ ∃ a b c d, token.toList = a ++ b ∧ byteLen a = 10 ∧
      token.toList = c ++ d ∧ byteLen c = len token - 4 ∧
      mask = String.ofList a ++ "..." ++ String.ofList d := by
  unfold maskToken
  rw [if_neg (Nat.not_le.2 h)]
  simp only [sliceTo, sliceFrom, Option.bind_eq_bind, Option.bind_eq_some_iff,
    Option.map_eq_some_iff, splitAt_eq_some_iff, Prod.exists, Option.some.injEq]
  constructor
  · rintro ⟨_, ⟨a, b, ⟨hab, ha⟩, rfl⟩, _, ⟨c, d, ⟨hcd, hc⟩, rfl⟩, rfl⟩
    exact ⟨a, b, c, d, hab, ha, hcd, hc, rfl⟩
  · rintro ⟨a, b, c, d, hab, ha, hcd, hc, rfl⟩
    exact ⟨_, ⟨a, b, ⟨hab, ha⟩, rfl⟩, _, ⟨c, d, ⟨hcd, hc⟩, rfl⟩, rfl⟩

theorem maskToken_of_short {token : String} (h : len token ≤ 14) :
    maskToken token = some (if token = "" then "" else "***") := if_pos h

/-- **A key can be masked exactly when no character lies across a cut.** -/
theorem isSome_maskToken_iff (token : String) :
    (maskToken token).isSome = true ↔ CutsFit token := by
  unfold CutsFit
  by_cases h : len token ≤ 14
  · simp [maskToken_of_short h, h]
  · have hlong : 14 < len token := Nat.lt_of_not_le h
    rw [or_iff_right h, ← isBoundary_iff_not_straddles (show 10 ≤ len token by omega),
      ← isBoundary_iff_not_straddles (Nat.sub_le (len token) 4), Option.isSome_iff_exists]
    simp only [maskToken_eq_some_iff hlong]
    constructor
    · rintro ⟨_, a, b, c, d, hab, ha, hcd, hc, -⟩
      exact ⟨⟨a, b, hab, ha⟩, ⟨c, d, hcd, hc⟩⟩
    · rintro ⟨⟨a, b, hab, ha⟩, ⟨c, d, hcd, hc⟩⟩
      exact ⟨_, a, b, c, d, hab, ha, hcd, hc, rfl⟩

/-- Two long keys that start and end with the same bytes. -/
structure SameEnds (token token' : String) : Prop where
  long : 14 < len token
  long' : 14 < len token'
  first : (encode token).take 10 = (encode token').take 10
  last : (encode token).drop (len token - 4) = (encode token').drop (len token' - 4)

theorem SameEnds.symm {token token' : String} (h : SameEnds token token') : SameEnds token' token :=
  ⟨h.long', h.long, h.first.symm, h.last.symm⟩

/-- The same ends are cut alike. -/
theorem SameEnds.maskToken_eq_some {token token' : String} (h : SameEnds token token')
    {mask : String} (hmask : maskToken token = some mask) : maskToken token' = some mask := by
  obtain ⟨a, b, c, d, hab, ha, hcd, hc, rfl⟩ := (maskToken_eq_some_iff h.long).1 hmask
  have hfirst : (encode token).take 10 = a.flatMap String.utf8EncodeChar := by
    rw [encode, hab, List.flatMap_append, ← ha, ← length_flatMap_encode, List.take_left]
  have hlast : (encode token).drop (len token - 4) = d.flatMap String.utf8EncodeChar := by
    rw [← hc, encode, hcd, List.flatMap_append, ← length_flatMap_encode, List.drop_left]
  have hstart : encode token' = a.flatMap String.utf8EncodeChar ++ (encode token').drop 10 := by
    rw [← hfirst, h.first, List.take_append_drop]
  have hend : encode token' =
      (encode token').take (len token' - 4) ++ d.flatMap String.utf8EncodeChar := by
    rw [← hlast, h.last, List.take_append_drop]
  obtain ⟨b', hb', -⟩ := prefix_of_encode hstart
  obtain ⟨c', hc', hbytes⟩ := suffix_of_encode hend
  have hlen : byteLen c' = len token' - 4 := by
    rw [← length_flatMap_encode, hbytes, List.length_take, length_encode]
    omega
  exact (maskToken_eq_some_iff h.long').2 ⟨a, b', c', d, hb', ha, hc', hlen, rfl⟩

/-- **The mask hides what is between the first ten and the last four bytes.** -/
theorem SameEnds.maskToken_eq {token token' : String} (h : SameEnds token token') :
    maskToken token = maskToken token' := by
  cases hmask : maskToken token with
  | some mask => exact (h.maskToken_eq_some hmask).symm
  | none =>
    cases hmask' : maskToken token' with
    | none => rfl
    | some mask =>
      rw [h.symm.maskToken_eq_some hmask'] at hmask
      cases hmask

/-! ### Who shows keys -/

/-- The body of `get_config`, with the masked key. -/
def shownConfig (cfg : Config) (masked : String) : Value :=
  object (JsonMap.ofList
    [("listenAddr", string cfg.listenAddr), ("upstreamBaseURL", string cfg.upstreamBaseUrl),
      ("apiKey", string masked), ("enabledModels", array (cfg.enabledModels.map string)),
      ("modelDisplayNames",
        object (JsonMap.ofList (cfg.modelDisplayNames.map fun p => (p.1, string p.2)))),
      ("wallpaperSource", string cfg.wallpaperSource.text),
      ("overrideConcurrency", number (.posInt cfg.overrideConcurrency.toUInt64)),
      ("maxImages", number (.posInt (UInt64.ofNat cfg.maxImages))),
      ("disabledModels", array (cfg.disabledModels.map string)),
      ("visionHandoffEnabled", bool cfg.visionHandoffEnabled),
      ("visionHandoffModel", string cfg.visionHandoffModel),
      ("visionHandoffPrompt", string cfg.visionHandoffPrompt),
      ("visionHandoffCacheEnabled", bool cfg.visionHandoffCacheEnabled)])

/-- `get_config`; there is no response when masking the key panics. -/
def getConfig (headers : HeaderMap) : Admin (Option Response) := do
  let cfg ← act .loadConfig
  if checkAuth cfg headers then do
    let cfg ← act .loadConfig
    pure ((maskToken cfg.apiKey).map fun masked => jsonResponse (shownConfig cfg masked))
  else pure (some (authErrorResponse .openAI))

/-- A key as `get_keys` shows it besides the raw one. -/
def safeKey (k : ConfigKey) : Option Value :=
  (maskToken k.key).map fun masked =>
    object (JsonMap.ofList
      [("name", string k.name), ("token_masked", string masked), ("has_token", bool (k.key ≠ "")),
        ("has_session", bool (k.session ≠ ""))])

/-- A key as it is. -/
def rawKey (k : ConfigKey) : Value :=
  object (JsonMap.ofList
    [("name", string k.name), ("key", string k.key), ("session", string k.session)])

/-- `get_keys`; there is no response when masking a key panics. -/
def getKeys (headers : HeaderMap) : Admin (Option Response) := do
  let cfg ← act .loadConfig
  if checkAuth cfg headers then do
    let cfg ← act .loadConfig
    pure ((cfg.keys.mapM safeKey).map fun safe =>
      jsonResponse (object (JsonMap.ofList
        [("keys", array (cfg.keys.map rawKey)), ("safe", array safe)])))
  else pure (some (authErrorResponse .openAI))

/-- The status of an entry, as it is serialized. -/
def KeyStatus.text : KeyStatus → String
  | .none => "none"
  | .active => "active"
  | .cooldown => "cooldown"

/-- `KeyState`, as it is serialized. -/
def KeyState.toValue (k : KeyState) : Value :=
  object (JsonMap.ofList
    [("name", string k.name), ("status", string k.status.text), ("healthy", bool k.healthy),
      ("remainingCooldown", number (.posInt k.remainingCooldownMs)), ("token", string k.token)])

/-- The port in an address, or 8084. -/
def portOf (listenAddr : String) : UInt64 :=
  ((((listenAddr.toList.splitOn ':')[1]?).bind parseU64).filter fun n => n < 65536).getD 8084

/-- What `healthz` reads besides the configuration and the pool. -/
structure Health where
  startedAt : String
  uptimeSec : UInt64
  modelsCount : ℕ
  runtimeVersion : String
  cache : HandoffCache

/-- The body of `healthz`. -/
def healthBody (cfg : Config) (tokenState : List KeyState) (h : Health) : Value :=
  let size (n : ℕ) : Value := number (.posInt (UInt64.ofNat n))
  let validTokens := tokenState.countP fun t => t.status ≠ .none
  object (JsonMap.ofList
    [("ok", bool true), ("started_at", string h.startedAt),
      ("uptime_sec", number (.posInt h.uptimeSec)), ("api_key_valid", bool (0 < validTokens)),
      ("provider", string "umans"), ("token_state", array (tokenState.map KeyState.toValue)),
      ("valid_tokens", size validTokens), ("total_tokens", size tokenState.length),
      ("models_count", size h.modelsCount), ("runtime", string "rust"),
      ("runtime_version", string h.runtimeVersion),
      ("port", number (.posInt (portOf cfg.listenAddr))),
      ("visionHandoff", object (JsonMap.ofList
        [("enabled", bool cfg.visionHandoffEnabled),
          ("cacheEnabled", bool cfg.visionHandoffCacheEnabled),
          ("cache", object (JsonMap.ofList
            [("size", size h.cache.inner.size), ("maxSize", size h.cache.cap),
              ("ttlMs", size h.cache.ttl), ("hits", number (.posInt h.cache.hits)),
              ("misses", number (.posInt h.cache.misses)),
              ("evictions", number (.posInt h.cache.evictions))]))]))])

/-- `healthz`, which asks for no key; there is no response when masking one panics. -/
def healthz (cfg : Config) (pool : KeyPool) (now : ℕ) (h : Health) : Option Response :=
  (pool.state now).map fun tokenState => jsonResponse (healthBody cfg tokenState h)

theorem isSome_mapM_safeKey (keys : List ConfigKey) :
    (keys.mapM safeKey).isSome = true ↔ ∀ k ∈ keys, (maskToken k.key).isSome = true := by
  induction keys with
  | nil => simp
  | cons k keys ih =>
    rw [List.mapM_cons, List.forall_mem_cons, ← ih, safeKey]
    cases maskToken k.key with
    | none => simp
    | some masked => cases keys.mapM safeKey <;> simp

/-- The tokens of the pool. -/
theorem isSome_stateTokens_iff (p : KeyPool) :
    p.stateTokens.isSome = true ↔ ∀ e ∈ p.entries, (maskToken e.key).isSome = true := by
  rw [← p.map_token_state 0, Option.isSome_map]
  exact KeyPool.isSome_state_iff

namespace AdminState

/-- The keys of the configuration and of the pool. -/
def secrets (s : AdminState) : List String :=
  s.config.apiKey :: (s.config.keys.map ConfigKey.key ++ s.pool.entries.map KeyEntry.key)

/-- **What masking promises**: every key can be masked, its mask hides the middle, and nobody who
shows keys panics. -/
structure MasksAll (env : Env) (s : AdminState) : Prop where
  defined : ∀ key ∈ s.secrets, (maskToken key).isSome = true
  hides : ∀ key ∈ s.secrets, ∀ key', SameEnds key key' →
    ∃ mask, maskToken key = some mask ∧ maskToken key' = some mask
  state : ∀ now, (s.pool.state now).isSome = true
  healthz : ∀ now h, (healthz s.config s.pool now h).isSome = true
  keys : ∀ o headers, ∃ resp, exec (handle env o) (getKeys headers) s = some (some resp, s)
  config : ∀ o headers, ∃ resp, exec (handle env o) (getConfig headers) s = some (some resp, s)
  active : ∀ o, ∃ key, exec (handle env o) activeKey s = some (key, s)

section

variable {env : Env} {s : AdminState}

theorem exec_getKeys (o : Outside) {headers : HeaderMap}
    (h : ∀ k ∈ s.config.keys, (maskToken k.key).isSome = true) :
    ∃ resp, exec (handle env o) (getKeys headers) s = some (some resp, s) := by
  unfold getKeys
  rw [exec_perform_of _ (t := s) (r := s.config) rfl]
  by_cases hauth : checkAuth s.config headers = true
  · rw [if_pos hauth, exec_perform_of _ (t := s) (r := s.config) rfl]
    obtain ⟨safe, hsafe⟩ := Option.isSome_iff_exists.1 ((isSome_mapM_safeKey s.config.keys).2 h)
    rw [hsafe]
    exact ⟨_, rfl⟩
  · rw [if_neg hauth]
    exact ⟨_, rfl⟩

theorem exec_getConfig (o : Outside) {headers : HeaderMap}
    (h : (maskToken s.config.apiKey).isSome = true) :
    ∃ resp, exec (handle env o) (getConfig headers) s = some (some resp, s) := by
  unfold getConfig
  rw [exec_perform_of _ (t := s) (r := s.config) rfl]
  by_cases hauth : checkAuth s.config headers = true
  · rw [if_pos hauth, exec_perform_of _ (t := s) (r := s.config) rfl]
    obtain ⟨masked, hmasked⟩ := Option.isSome_iff_exists.1 h
    rw [hmasked]
    exact ⟨_, rfl⟩
  · rw [if_neg hauth]
    exact ⟨_, rfl⟩

/-- `active_key` asks the pool only when there is no `api_key`. -/
theorem exec_activeKey (o : Outside) : exec (handle env o) activeKey s =
    if s.config.apiKey ≠ "" then some (some s.config.apiKey, s)
    else s.pool.stateTokens.map fun tokens =>
      ((List.find? (fun t => t ≠ "" && t ≠ "***") tokens).map fun _ => firstKey s.config.keys,
        s) := by
  unfold activeKey
  rw [exec_perform_of _ (t := s) (r := s.config) rfl]
  by_cases hkey : s.config.apiKey ≠ ""
  · rw [if_pos hkey, if_pos hkey]
    rfl
  · rw [if_neg hkey, if_neg hkey, exec_perform_bind]
    show (s.pool.stateTokens.map fun tokens => (tokens, s)).bind _ = _
    cases s.pool.stateTokens <;> rfl

/-- **Masking keeps its promise in exactly those states in which no character of a key lies across a
cut.** -/
theorem masksAll_iff (env : Env) (s : AdminState) :
    MasksAll env s ↔ ∀ key ∈ s.secrets, CutsFit key := by
  refine ⟨fun h key hkey => (isSome_maskToken_iff key).1 (h.defined key hkey), fun h => ?_⟩
  have hdefined : ∀ key ∈ s.secrets, (maskToken key).isSome = true :=
    fun key hkey => (isSome_maskToken_iff key).2 (h key hkey)
  have hkeys : ∀ k ∈ s.config.keys, (maskToken k.key).isSome = true := fun k hk =>
    hdefined _ (List.mem_cons_of_mem _ (List.mem_append_left _ (List.mem_map_of_mem hk)))
  have hpool : ∀ e ∈ s.pool.entries, (maskToken e.key).isSome = true := fun e he =>
    hdefined _ (List.mem_cons_of_mem _ (List.mem_append_right _ (List.mem_map_of_mem he)))
  refine ⟨hdefined, fun key hkey key' hends => ?_, fun now => KeyPool.isSome_state_iff.2 hpool,
    fun now h => ?_, fun o headers => exec_getKeys o hkeys,
    fun o headers => exec_getConfig o (hdefined _ List.mem_cons_self), fun o => ?_⟩
  · obtain ⟨mask, hmask⟩ := Option.isSome_iff_exists.1 (hdefined key hkey)
    exact ⟨mask, hmask, hends.maskToken_eq ▸ hmask⟩
  · rw [Mybro.healthz, Option.isSome_map]
    exact KeyPool.isSome_state_iff.2 hpool
  · rw [exec_activeKey]
    obtain ⟨tokens, htokens⟩ := Option.isSome_iff_exists.1
      ((isSome_stateTokens_iff s.pool).2 hpool)
    rw [htokens]
    split_ifs
    · exact ⟨_, rfl⟩
    · exact ⟨_, rfl⟩

end

/-- A key with an `é` at bytes 9 and 10 is added: `mask_token` panics. -/
theorem key_across_cut_panics : ¬ ∀ (env : Env) (o : Outside) (name key session : String)
    (t : AdminState), (exec (handle env o) (postKeys [] (.add name key session)) (start {})).map
      Prod.snd = some t → MasksAll env t := by
  intro h
  have hmask := (h (envParsing sampleUsage []) sampleOutside "A" "sk-123456é12345" "" _ rfl).defined
    "sk-123456é12345" List.mem_cons_self
  exact absurd hmask (by decide)

end AdminState

end Mybro
