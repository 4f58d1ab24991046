import Mybro.AdminRuns
import Mybro.Lib.JsonText

/-!
# What `post_config` shows (`routes/config_api.rs`)

The answer to an update is the whole configuration. `sameBody_iff` says which secrets a client can
tell apart by it: all of them.
-/

namespace Mybro

open Prog Value

/-! ### The body -/

/-- A key as it is serialized. -/
def keyBody (k : ConfigKey) : Value :=
  object (JsonMap.ofList [("name", string k.name), ("key", string k.key),
    ("session", string k.session)])

theorem keyBody_injective : Function.Injective keyBody := by
  intro k l h
  have hname := congrArg (fun v => v.get "name") h
  have hkey := congrArg (fun v => v.get "key") h
  have hsession := congrArg (fun v => v.get "session") h
  simp [keyBody, Value.get, JsonMap.ofList] at hname hkey hsession
  cases k
  cases l
  simp_all

theorem proper_strings (l : List String) : (array (l.map string)).proper = true :=
  proper_array fun _ _ => rfl

theorem proper_keyBody (k : ConfigKey) : (keyBody k).proper = true := by
  unfold keyBody
  refine proper_object ?_
  simp [Value.proper]

theorem proper_displayNames (l : List (String × String)) :
    (object (JsonMap.ofList (l.map fun p => (p.1, string p.2)))).proper = true := by
  refine proper_object fun p hp => ?_
  obtain ⟨q, -, rfl⟩ := List.mem_map.1 hp
  rfl

theorem proper_configBody (cfg : Config) (restartRequired : Bool) :
    (configBody cfg restartRequired).proper = true := by
  have hkeys : (array (cfg.keys.map keyBody)).proper = true :=
    proper_array fun k _ => proper_keyBody k
  unfold configBody
  refine proper_object ?_
  simp only [List.forall_mem_cons]
  refine ⟨rfl, rfl, rfl, rfl, rfl, proper_strings _, hkeys, proper_strings _,
    proper_displayNames _, rfl, rfl, proper_strings _, rfl, rfl, rfl, rfl, rfl, rfl, rfl, nofun⟩

/-- **The body tells the secrets.** -/
theorem secrets_of_configBody {cfg cfg' : Config} {r r' : Bool}
    (h : configBody cfg r = configBody cfg' r') :
    cfg.apiKey = cfg'.apiKey ∧ cfg.apiKeys = cfg'.apiKeys ∧ cfg.keys = cfg'.keys := by
  have hkey := congrArg (fun v => v.get "API_KEY") h
  have hkeys := congrArg (fun v => v.get "API_KEYS") h
  have hlist := congrArg (fun v => v.get "KEYS") h
  simp [configBody, Value.get, JsonMap.get_ofList, List.lookup_cons] at hkey hkeys hlist
  refine ⟨hkey, ?_, ?_⟩
  · exact List.map_injective_iff.2 (fun a b hab => Value.string.inj hab) hkeys
  · exact List.map_injective_iff.2 keyBody_injective hlist

/-- The body of a refusal. -/
def refusal : Value :=
  object (JsonMap.ofList [("error", object (JsonMap.ofList
    [("message", string "Invalid API key"), ("type", string "authentication_error"),
      ("code", string "invalid_api_key")]))])

theorem body_jsonResponse (v : Value) : (jsonResponse v).body = .bytes v.toVec := rfl

theorem body_authErrorResponse : (authErrorResponse .openAI).body = .bytes refusal.toVec := rfl

theorem proper_refusal : refusal.proper = true := by
  unfold refusal
  refine proper_object ?_
  simp only [List.forall_mem_cons]
  exact ⟨proper_object (by simp [Value.proper]), nofun⟩

/-- It is the body of no configuration, since it has a member that none has. -/
theorem configBody_ne_refusal (cfg : Config) (r : Bool) :
    (jsonResponse (configBody cfg r)).body ≠ (authErrorResponse .openAI).body := by
  rw [body_authErrorResponse, body_jsonResponse, ne_eq, Body.bytes.injEq,
    toVec_inj (proper_configBody cfg r) proper_refusal]
  intro h
  have herror := congrArg (fun v => v.get "error") h
  simp [configBody, refusal, Value.get, JsonMap.get_ofList, List.lookup_cons] at herror

/-! ### The answer -/

namespace AdminState

/-- The answer to `post_config`. -/
def postConfigAnswer (s : AdminState) (headers : HeaderMap) (u : ConfigUpdate) : Response :=
  if checkAuth s.config headers then
    jsonResponse (configBody (u.apply s.config) (u.restartRequired s.config))
  else authErrorResponse .openAI

theorem exec_postConfig_answer {env : Env} {o : Outside} {s : AdminState} (headers : HeaderMap)
    (u : ConfigUpdate) :
    (exec (handle env o) (postConfig headers u) s).map Prod.fst =
      some (s.postConfigAnswer headers u) := by
  unfold postConfig postConfigAnswer
  rw [exec_perform_of _ (t := s) (r := s.config) rfl]
  by_cases hauth : checkAuth s.config headers = true
  · simp only [hauth, if_true]
    obtain ⟨g, hg, -⟩ := @exec_resizeOnOverride env o
      { s with config := u.apply s.config } u (u.apply s.config)
    obtain ⟨n, ttl, hcache⟩ := @exec_resizeCache env o
      { s with config := u.apply s.config, gate := g } u
    rw [exec_bind]
    show Option.map Prod.fst (exec (handle env o) (resizeOnOverride u (u.apply s.config) >>= _)
      { s with config := u.apply s.config }) = _
    rw [exec_bind, hg, Option.bind_some, exec_bind, hcache, Option.bind_some, exec_bind,
      exec_rebuildPool]
    rfl
  · simp only [hauth]
    rfl

/-- The body of the answer, as the handler sends it. -/
def answerBody (env : Env) (o : Outside) (s : AdminState) (headers : HeaderMap)
    (u : ConfigUpdate) : Option Body :=
  (exec (handle env o) (postConfig headers u) s).map fun p => p.1.body

theorem answerBody_eq (env : Env) (o : Outside) (s : AdminState) (headers : HeaderMap)
    (u : ConfigUpdate) :
    answerBody env o s headers u = some (s.postConfigAnswer headers u).body := by
  have h := congrArg (Option.map Response.body) (@exec_postConfig_answer env o s headers u)
  rw [Option.map_map] at h
  exact h

end AdminState

/-! ### Two configurations -/

/-- Two configurations differ in nothing but secrets, and these look the same masked. -/
structure SameMasked (cfg cfg' : Config) : Prop where
  rest : { cfg' with apiKey := cfg.apiKey, apiKeys := cfg.apiKeys, keys := cfg.keys } = cfg
  apiKey : maskToken cfg.apiKey = maskToken cfg'.apiKey
  apiKeys : cfg.apiKeys.map maskToken = cfg'.apiKeys.map maskToken
  keys : (cfg.keys.map fun k => (k.name, maskToken k.key, k.session)) =
    cfg'.keys.map fun k => (k.name, maskToken k.key, k.session)

/-- The update sets no secret. -/
def ConfigUpdate.KeepsSecrets (u : ConfigUpdate) : Prop :=
  u.apiKey = none ∧ u.apiKeys = none ∧ u.keys = none

section

variable {env : Env} {o o' : Outside} {s s' : AdminState} {headers : HeaderMap} {u : ConfigUpdate}

theorem SameMasked.eq_of_secrets {cfg cfg' : Config} (h : SameMasked cfg cfg')
    (hkey : cfg.apiKey = cfg'.apiKey) (hkeys : cfg.apiKeys = cfg'.apiKeys)
    (hlist : cfg.keys = cfg'.keys) : cfg = cfg' := by
  rw [← h.rest, hkey, hkeys, hlist]

/-- Who gets the same answer under two configurations is let in under both or under neither. -/
theorem checkAuth_of_same_body
    (h : (s.postConfigAnswer headers u).body = (s'.postConfigAnswer headers u).body) :
    checkAuth s.config headers = checkAuth s'.config headers := by
  unfold AdminState.postConfigAnswer at h
  cases hauth : checkAuth s.config headers with
  | false =>
    cases hauth' : checkAuth s'.config headers with
    | false => rfl
    | true =>
      rw [hauth, hauth', if_neg Bool.false_ne_true, if_pos rfl] at h
      exact absurd h.symm (configBody_ne_refusal _ _)
  | true =>
    cases hauth' : checkAuth s'.config headers with
    | false =>
      rw [hauth, hauth', if_pos rfl, if_neg Bool.false_ne_true] at h
      exact absurd h (configBody_ne_refusal _ _)
    | true => rfl

/-- **Two clients that are let in see the same body only where the secrets are the same.** -/
theorem secrets_of_same_body (hu : u.KeepsSecrets) (hauth : checkAuth s.config headers = true)
    (h : (s.postConfigAnswer headers u).body = (s'.postConfigAnswer headers u).body) :
    s.config.apiKey = s'.config.apiKey ∧ s.config.apiKeys = s'.config.apiKeys ∧
      s.config.keys = s'.config.keys := by
  have hauth' : checkAuth s'.config headers = true := checkAuth_of_same_body h ▸ hauth
  rw [AdminState.postConfigAnswer, AdminState.postConfigAnswer, hauth, hauth', if_pos rfl,
    if_pos rfl, body_jsonResponse, body_jsonResponse, Body.bytes.injEq,
    toVec_inj (proper_configBody _ _) (proper_configBody _ _)] at h
  obtain ⟨hkey, hkeys, hlist⟩ := secrets_of_configBody h
  simp only [ConfigUpdate.apply, hu.1, hu.2.1, hu.2.2, Option.getD_none] at hkey hkeys hlist
  exact ⟨hkey, hkeys, hlist⟩

/-- **Two configurations that differ in secrets give the same body exactly where both refuse the
request.** -/
theorem sameBody_iff (hsame : SameMasked s.config s'.config) (hu : u.KeepsSecrets) :
    AdminState.answerBody env o s headers u = AdminState.answerBody env o' s' headers u ↔
      s.config = s'.config ∨
        checkAuth s.config headers = false ∧ checkAuth s'.config headers = false := by
  rw [AdminState.answerBody_eq, AdminState.answerBody_eq, Option.some.injEq]
  constructor
  · intro h
    cases hauth : checkAuth s.config headers with
    | false => exact Or.inr ⟨rfl, checkAuth_of_same_body h ▸ hauth⟩
    | true =>
      obtain ⟨hkey, hkeys, hlist⟩ := secrets_of_same_body hu hauth h
      exact Or.inl (hsame.eq_of_secrets hkey hkeys hlist)
  · rintro (h | ⟨hauth, hauth'⟩)
    · rw [AdminState.postConfigAnswer, AdminState.postConfigAnswer, h]
    · rw [AdminState.postConfigAnswer, AdminState.postConfigAnswer, hauth, hauth',
        if_neg Bool.false_ne_true, if_neg Bool.false_ne_true]

end

open AdminState

/-- Two short keys look the same masked, and the answer to an empty update tells them apart. -/
theorem empty_update_discloses_key :
    SameMasked { apiKey := "sk-a" } { apiKey := "sk-b" } ∧ ConfigUpdate.KeepsSecrets {} ∧
      answerBody (envParsing sampleUsage []) sampleOutside (start { apiKey := "sk-a" }) [] {} ≠
        answerBody (envParsing sampleUsage []) sampleOutside
          (start { apiKey := "sk-b" }) [] {} := by
  refine ⟨⟨rfl, by decide, rfl, rfl⟩, ⟨rfl, rfl, rfl⟩, fun h => ?_⟩
  rw [answerBody_eq, answerBody_eq, Option.some.injEq] at h
  have hkey : "sk-a" = "sk-b" := (secrets_of_same_body ⟨rfl, rfl, rfl⟩ rfl h).1
  exact absurd hkey (by decide)

/-- The result on a request that neither of two configurations lets in. -/
theorem sameBody_of_refused :
    answerBody (envParsing sampleUsage []) sampleOutside (start { apiKeys := ["a"] }) [] {} =
      answerBody (envParsing sampleUsage []) sampleOutside (start { apiKeys := ["b"] }) [] {} := by
  have hsame : SameMasked (start { apiKeys := ["a"] }).config (start { apiKeys := ["b"] }).config :=
    ⟨rfl, rfl, by decide, rfl⟩
  exact (sameBody_iff hsame ⟨rfl, rfl, rfl⟩).2 (Or.inr ⟨rfl, rfl⟩)

end Mybro
