import Mybro.ConfigFile
import Mybro.Keys

/-!
# What is written back (`config.rs`, `persist.rs`)

The environment overrides fields of the configuration in memory, requests change others, and the
saver writes the whole of it to the file. `notPersisted_iff` says when a field that no request has
set comes out of the file as it went in.
-/

namespace Mybro

open Runs AdminState

/-! ### Fields -/

/-- The fields of `Config`. -/
inductive Field
  | listenAddr
  | upstreamBaseUrl
  | requestTimeout
  | websearchProvider
  | apiKey
  | apiKeys
  | keys
  | enabledModels
  | modelDisplayNames
  | overrideConcurrency
  | maxImages
  | disabledModels
  | visionHandoffEnabled
  | visionHandoffModel
  | visionHandoffPrompt
  | visionHandoffCacheEnabled
  | visionHandoffCacheTtl
  | wallpaperSource
  deriving DecidableEq

/-- What a field holds. -/
@[reducible] def Field.Val : Field → Type
  | apiKeys | enabledModels | disabledModels => List String
  | keys => List ConfigKey
  | modelDisplayNames => List (String × String)
  | overrideConcurrency => UInt32
  | maxImages => ℕ
  | visionHandoffEnabled | visionHandoffCacheEnabled => Bool
  | wallpaperSource => WallpaperSource
  | listenAddr | upstreamBaseUrl | requestTimeout | websearchProvider | apiKey
  | visionHandoffModel | visionHandoffPrompt | visionHandoffCacheTtl => String

/-- The value of a field. -/
def Config.get (cfg : Config) : (f : Field) → f.Val
  | .listenAddr => cfg.listenAddr
  | .upstreamBaseUrl => cfg.upstreamBaseUrl
  | .requestTimeout => cfg.requestTimeout
  | .websearchProvider => cfg.websearchProvider
  | .apiKey => cfg.apiKey
  | .apiKeys => cfg.apiKeys
  | .keys => cfg.keys
  | .enabledModels => cfg.enabledModels
  | .modelDisplayNames => cfg.modelDisplayNames
  | .overrideConcurrency => cfg.overrideConcurrency
  | .maxImages => cfg.maxImages
  | .disabledModels => cfg.disabledModels
  | .visionHandoffEnabled => cfg.visionHandoffEnabled
  | .visionHandoffModel => cfg.visionHandoffModel
  | .visionHandoffPrompt => cfg.visionHandoffPrompt
  | .visionHandoffCacheEnabled => cfg.visionHandoffCacheEnabled
  | .visionHandoffCacheTtl => cfg.visionHandoffCacheTtl
  | .wallpaperSource => cfg.wallpaperSource

/-- What the environment says about a field, if it says anything. -/
def envValue (vars : Vars) : (f : Field) → Option f.Val
  | .listenAddr => vars "LISTEN_ADDR"
  | .upstreamBaseUrl => vars "UPSTREAM_BASE_URL"
  | .requestTimeout => vars "REQUEST_TIMEOUT"
  | .websearchProvider => vars "WEBSEARCH_PROVIDER"
  | .apiKey => vars "UMANS_API_KEY"
  | .apiKeys => (vars "API_KEYS").map splitApiKeys
  | .overrideConcurrency => (vars "OVERRIDE_CONCURRENCY").bind fun v => parseU32 v.toList
  | .maxImages => (vars "MAX_IMAGES").bind fun v => parseUsize v.toList
  | .visionHandoffEnabled => (vars "VISION_HANDOFF_ENABLED").map envFlag
  | .visionHandoffCacheEnabled => (vars "VISION_HANDOFF_CACHE_ENABLED").map envFlag
  | .visionHandoffCacheTtl => vars "VISION_HANDOFF_CACHE_TTL"
  | .keys | .enabledModels | .modelDisplayNames | .disabledModels | .visionHandoffModel
  | .visionHandoffPrompt | .wallpaperSource => none

theorem get_applyEnvOverrides (vars : Vars) (cfg : Config) (f : Field) :
    (applyEnvOverrides vars cfg).get f = (envValue vars f).getD (cfg.get f) := by
  cases f <;> rfl

/-! ### What a request sets -/

/-- Whether an update of the configuration sets a field. -/
def ConfigUpdate.sets (u : ConfigUpdate) : Field → Bool
  | .apiKey => u.apiKey.isSome
  | .apiKeys => u.apiKeys.isSome
  | .listenAddr => u.listenAddr.isSome
  | .enabledModels => u.enabledModels.isSome
  | .modelDisplayNames => u.modelDisplayNames.isSome
  | .wallpaperSource => u.wallpaperSource.isSome
  | .overrideConcurrency => u.overrideConcurrency.isSome
  | .maxImages => u.maxImages.isSome
  | .disabledModels => u.disabledModels.isSome
  | .visionHandoffEnabled => u.visionHandoffEnabled.isSome
  | .visionHandoffModel => u.visionHandoffModel.isSome
  | .visionHandoffPrompt => u.visionHandoffPrompt.isSome
  | .visionHandoffCacheEnabled => u.visionHandoffCacheEnabled.isSome
  | .keys => u.keys.isSome
  | .upstreamBaseUrl | .requestTimeout | .websearchProvider | .visionHandoffCacheTtl => false

/-- Whether an action on the keys sets a field; `api_key` follows the first key. -/
def KeyAction.sets (a : KeyAction) (cfg : Config) : Field → Bool
  | .keys =>
    match a with
    | .add _ _ _ => true
    | .update index _ _ _ | .delete index => index < cfg.keys.length
  | .apiKey =>
    match a with
    | .add _ _ _ => cfg.apiKey = ""
    | .update index _ key _ => index < cfg.keys.length && index = 0 && key ≠ ""
    | .delete index => index < cfg.keys.length && index = 0
  | _ => false

theorem ConfigUpdate.get_apply {u : ConfigUpdate} {f : Field} (h : u.sets f = false)
    (cfg : Config) : (u.apply cfg).get f = cfg.get f := by
  cases f <;> simp_all [ConfigUpdate.sets, ConfigUpdate.apply, Config.get]

theorem KeyAction.get_apply {a : KeyAction} {cfg : Config} {f : Field} (h : a.sets cfg f = false) :
    (a.apply cfg).get f = cfg.get f := by
  cases a with
  | add name key session => cases f <;> simp_all [KeyAction.sets, KeyAction.apply, Config.get]
  | update index name key session =>
    by_cases hindex : index < cfg.keys.length
    · cases f <;> simp_all [KeyAction.sets, KeyAction.apply, Config.get]
    · simp [KeyAction.apply, hindex]
  | delete index =>
    by_cases hindex : index < cfg.keys.length
    · cases f <;> simp_all [KeyAction.sets, KeyAction.apply, Config.get]
    · simp [KeyAction.apply, hindex]

namespace AdminState

/-- Whether a request sets a field; one that is not let in sets nothing. -/
def Sets (f : Field) (s : AdminState) (l : EditEvent × Outside) : Prop :=
  match l.1 with
  | .postKeys headers a => checkAuth s.config headers = true ∧ a.sets s.config f = true
  | .postConfig headers u => checkAuth s.config headers = true ∧ u.sets f = true

/-- **A request leaves alone the fields it does not set.** -/
theorem get_of_not_sets {env : Env} {s t : AdminState} {l : EditEvent × Outside} {f : Field}
    (hst : editStep env s l = some t) (hf : ¬ Sets f s l) : t.config.get f = s.config.get f := by
  obtain ⟨ev, o⟩ := l
  cases ev with
  | postKeys headers a =>
    have ht := (exec_postKeys headers a).symm.trans hst
    by_cases hauth : checkAuth s.config headers = true
    · rw [if_pos hauth] at ht
      cases ht
      exact KeyAction.get_apply (by simpa [Sets, hauth] using hf)
    · rw [if_neg hauth] at ht
      cases ht
      rfl
  | postConfig headers u =>
    obtain ⟨resp, t', ht', hconfig, -, -⟩ := @exec_postConfig env o s headers u
    have ht : t' = t := by
      simp only [editStep, ht', Option.map_some, Option.some.injEq] at hst
      exact hst
    rw [← ht, hconfig]
    unfold configAfter
    by_cases hauth : checkAuth s.config headers = true
    · simp only [hauth, if_true]
      exact ConfigUpdate.get_apply (by simpa [Sets, hauth] using hf) _
    · simp [hauth]

/-- No request of the run sets the field. -/
def Unset (f : Field) (s : AdminState) (r : List ((EditEvent × Outside) × AdminState)) : Prop :=
  EachStep (fun s l => ¬ Sets f s l) s r

/-- A field that no request of a run sets is at its end what it was at its start. -/
theorem Unset.get_final {env : Env} {f : Field} {s : AdminState}
    {r : List ((EditEvent × Outside) × AdminState)} (hr : IsEditRun env s r) (hf : Unset f s r) :
    (final s r).config.get f = s.config.get f := by
  refine (always_of_step (P := fun t => t.config.get f = s.config.get f) ?_ rfl hr hf).final
  intro t l u ht hl hu
  rw [get_of_not_sets hu hl, ht]

end AdminState

/-! ### From file to file -/

/-- **Nothing of the environment is persisted**: a field that no request has set is in the file what
it was in the file that was loaded, and a later start that finds nothing about such fields in its
environment sees that value. -/
structure NotPersisted (json : ConfigText) (contents : Option String) (saved : String)
    (Unset : Field → Prop) : Prop where
  file : ∀ f, Unset f → (loadFile json (some saved)).get f = (loadFile json contents).get f
  restart : ∀ vars cfg, Config.load json (some saved) vars = some cfg →
    ∀ f, Unset f → envValue vars f = none → cfg.get f = (loadFile json contents).get f

/-- **A field comes out of the file as it went in exactly when the environment says nothing else.**
-/
theorem notPersisted_iff {env : Env} {json : ConfigText} {contents : Option String} {vars : Vars}
    {cfg : Config} (hload : Config.load json contents vars = some cfg)
    {r : List ((EditEvent × Outside) × AdminState)} (hr : IsEditRun env (start cfg) r)
    (hsave : json.fromStr ((final (start cfg) r).config.saveToFile json) =
      some (final (start cfg) r).config) :
    NotPersisted json contents ((final (start cfg) r).config.saveToFile json)
        (fun f => Unset f (start cfg) r) ↔
      ∀ f, Unset f (start cfg) r →
        ∀ v, envValue vars f = some v → v = (loadFile json contents).get f := by
  have hsaved : ∀ f, Unset f (start cfg) r →
      (loadFile json (some ((final (start cfg) r).config.saveToFile json))).get f =
        (envValue vars f).getD ((loadFile json contents).get f) := by
    intro f hf
    rw [loadFile_saveToFile hsave, hf.get_final hr, ← get_applyEnvOverrides, ← eq_of_load hload]
    rfl
  constructor
  · intro h f hf v hv
    have hfile := h.file f hf
    rw [hsaved f hf, hv] at hfile
    exact hfile
  · intro h
    have hfile : ∀ f, Unset f (start cfg) r →
        (loadFile json (some ((final (start cfg) r).config.saveToFile json))).get f =
          (loadFile json contents).get f := by
      intro f hf
      rw [hsaved f hf]
      cases hv : envValue vars f with
      | none => rfl
      | some v => exact h f hf v hv
    refine ⟨hfile, fun vars' cfg' hload' f hf hnone => ?_⟩
    rw [eq_of_load hload', get_applyEnvOverrides, hnone, ← hfile f hf]
    rfl

/-! ### Samples -/

/-- The key comes from the environment. -/
def keyVars : Vars := fun name => if name = "UMANS_API_KEY" then some "sk-env" else none

/-- Without a file, the key of the environment is written to one by a request that sets nothing, and
a start without the variable finds it there. -/
theorem environment_key_persisted :
    ∃ cfg r, Config.load (keyText "sk-env") none keyVars = some cfg ∧
      IsEditRun (envParsing sampleUsage []) (start cfg) r ∧
      (keyText "sk-env").fromStr ((final (start cfg) r).config.saveToFile (keyText "sk-env")) =
        some (final (start cfg) r).config ∧
      ¬ NotPersisted (keyText "sk-env") none
        ((final (start cfg) r).config.saveToFile (keyText "sk-env"))
        (fun f => Unset f (start cfg) r) := by
  have hr : IsEditRun (envParsing sampleUsage []) (start { apiKey := "sk-env" })
      [((.postConfig [] {}, sampleOutside), _)] := ⟨rfl, trivial⟩
  refine ⟨{ apiKey := "sk-env" }, _, by decide, hr, fromStr_keyText _, fun h => ?_⟩
  have hunset : ∀ t, Unset .apiKey (start { apiKey := "sk-env" })
      [((.postConfig [] {}, sampleOutside), t)] :=
    fun t => ⟨by simp [Sets, ConfigUpdate.sets], trivial⟩
  have hsaved : (loadFile (keyText "sk-env")
      (some (Config.saveToFile (keyText "sk-env") { apiKey := "sk-env" }))).get .apiKey =
        "sk-env" := by
    rw [loadFile_saveToFile (fromStr_keyText _)]
    rfl
  have hfile : "sk-env" = "" := hsaved.symm.trans (h.file .apiKey (hunset _))
  exact absurd hfile (by decide)

/-- The result on a run that sets the key which the environment overrides. -/
theorem notPersisted_of_set_key :
    ∃ r, IsEditRun (envParsing sampleUsage []) (start { apiKey := "sk-env" }) r ∧
      r.length = 1 ∧
      NotPersisted (keyText "sk-new") none
        ((final (start { apiKey := "sk-env" }) r).config.saveToFile (keyText "sk-new"))
        (fun f => Unset f (start { apiKey := "sk-env" }) r) := by
  have hload : Config.load (keyText "sk-new") none keyVars = some { apiKey := "sk-env" } := by
    decide
  have hr : IsEditRun (envParsing sampleUsage []) (start { apiKey := "sk-env" })
      [((.postConfig [] { apiKey := some "sk-new" }, sampleOutside), _)] := ⟨rfl, trivial⟩
  refine ⟨_, hr, rfl, (notPersisted_iff hload hr (fromStr_keyText _)).2 fun f hf v hv => ?_⟩
  cases f with
  | apiKey => exact absurd ⟨by decide, by decide⟩ hf.1
  | _ => cases hv

end Mybro
