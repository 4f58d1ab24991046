import Mybro.ConfigFile
import Mybro.Lib.JsonRecord

/-!
# The JSON of a configuration (`config.rs`)

`serde_json::to_string_pretty` and `serde_json::from_str` for `Config`, `ConfigKey` and
`WallpaperSource`, as their derives and `#[serde(..)]` attributes make them.
`fromStr_toStringPretty`: what is saved is loaded again.
-/

namespace Mybro

open JsonSyntax Value

/-! ### Writing -/

/-- The text of `WallpaperSource`, in lower case. -/
def WallpaperSource.display : WallpaperSource → String
  | none => "none"
  | bing => "bing"
  | wallhaven => "wallhaven"

/-- The fields of `ConfigKey` under their names. -/
def ConfigKey.members (k : ConfigKey) : List (String × Value) :=
  [("name", string k.name), ("key", string k.key), ("session", string k.session)]

/-- `ConfigKey` as JSON; the members of an object are in the order of the fields. -/
def ConfigKey.toValue (k : ConfigKey) : Value := object k.members

/-- A whole number as JSON. -/
def natValue (n : ℕ) : Value := number (.posInt (UInt64.ofNat n))

/-- The fields of `Config` under their names in the file. -/
def Config.members (cfg : Config) : List (String × Value) :=
  [("LISTEN_ADDR", string cfg.listenAddr),
    ("UPSTREAM_BASE_URL", string cfg.upstreamBaseUrl),
    ("REQUEST_TIMEOUT", string cfg.requestTimeout),
    ("WEBSEARCH_PROVIDER", string cfg.websearchProvider),
    ("API_KEY", string cfg.apiKey),
    ("API_KEYS", array (cfg.apiKeys.map string)),
    ("KEYS", array (cfg.keys.map ConfigKey.toValue)),
    ("ENABLED_MODELS", array (cfg.enabledModels.map string)),
    ("MODEL_DISPLAY_NAMES", object (cfg.modelDisplayNames.map fun p => (p.1, string p.2))),
    ("OVERRIDE_CONCURRENCY", natValue cfg.overrideConcurrency.toNat),
    ("MAX_IMAGES", natValue cfg.maxImages),
    ("DISABLED_MODELS", array (cfg.disabledModels.map string)),
    ("VISION_HANDOFF_ENABLED", bool cfg.visionHandoffEnabled),
    ("VISION_HANDOFF_MODEL", string cfg.visionHandoffModel),
    ("VISION_HANDOFF_PROMPT", string cfg.visionHandoffPrompt),
    ("VISION_HANDOFF_CACHE_ENABLED", bool cfg.visionHandoffCacheEnabled),
    ("VISION_HANDOFF_CACHE_TTL", string cfg.visionHandoffCacheTtl),
    ("wallpaper_source", string cfg.wallpaperSource.display)]

/-- `Config` as JSON. -/
def Config.toValue (cfg : Config) : Value := object cfg.members

/-! ### Reading -/

/-- The names of the fields of `Config`. -/
def configFields : List String :=
  ["LISTEN_ADDR", "UPSTREAM_BASE_URL", "REQUEST_TIMEOUT", "WEBSEARCH_PROVIDER", "API_KEY",
    "API_KEYS", "KEYS", "ENABLED_MODELS", "MODEL_DISPLAY_NAMES", "OVERRIDE_CONCURRENCY",
    "MAX_IMAGES", "DISABLED_MODELS", "VISION_HANDOFF_ENABLED", "VISION_HANDOFF_MODEL",
    "VISION_HANDOFF_PROMPT", "VISION_HANDOFF_CACHE_ENABLED", "VISION_HANDOFF_CACHE_TTL",
    "wallpaper_source"]

/-- The variant of a name. -/
def WallpaperSource.ofName (s : String) : Option WallpaperSource :=
  if s = "none" then some .none
  else if s = "bing" then some .bing
  else if s = "wallhaven" then some .wallhaven
  else Option.none

/-- A variant is its name, or an object with its name as the only key and null under it. -/
def WallpaperSource.ofTree : Tree → Option WallpaperSource
  | .string lexeme => (text lexeme).bind ofName
  | .object [(lexeme, .null)] => (text lexeme).bind ofName
  | _ => Option.none

/-- `ConfigKey` out of JSON. -/
def ConfigKey.ofTree (t : Tree) : Option ConfigKey := do
  let slot ← slots ["name", "key", "session"] t
  let name ← fieldOr slot "name" readString ""
  let key ← fieldOr slot "key" readString ""
  let session ← fieldOr slot "session" readString ""
  return { name, key, session }

/-- `Config` out of JSON; a field that is missing has its default. -/
def Config.ofTree (t : Tree) : Option Config := do
  let slot ← slots configFields t
  let listenAddr ← fieldOr slot "LISTEN_ADDR" readString "127.0.0.1:8084"
  let upstreamBaseUrl ←
    fieldOr slot "UPSTREAM_BASE_URL" readString "https://api.code.umans.ai/v1"
  let requestTimeout ← fieldOr slot "REQUEST_TIMEOUT" readString "15m"
  let websearchProvider ← fieldOr slot "WEBSEARCH_PROVIDER" readString "none"
  let apiKey ← fieldOr slot "API_KEY" readString ""
  let apiKeys ← fieldOr slot "API_KEYS" (readList readString) []
  let keys ← fieldOr slot "KEYS" (readList ConfigKey.ofTree) []
  let enabledModels ← fieldOr slot "ENABLED_MODELS" (readList readString) []
  let modelDisplayNames ← fieldOr slot "MODEL_DISPLAY_NAMES" (readMap readString) []
  let overrideConcurrency ← fieldOr slot "OVERRIDE_CONCURRENCY" (readUnsigned (2 ^ 32)) 0
  let maxImages ← fieldOr slot "MAX_IMAGES" (readUnsigned (2 ^ 64)) 9
  let disabledModels ← fieldOr slot "DISABLED_MODELS" (readList readString) []
  let visionHandoffEnabled ← fieldOr slot "VISION_HANDOFF_ENABLED" readBool false
  let visionHandoffModel ← fieldOr slot "VISION_HANDOFF_MODEL" readString "umans-coder"
  let visionHandoffPrompt ← fieldOr slot "VISION_HANDOFF_PROMPT" readString ""
  let visionHandoffCacheEnabled ← fieldOr slot "VISION_HANDOFF_CACHE_ENABLED" readBool false
  let visionHandoffCacheTtl ← fieldOr slot "VISION_HANDOFF_CACHE_TTL" readString "24h"
  let wallpaperSource ← fieldOr slot "wallpaper_source" WallpaperSource.ofTree .bing
  return {
    listenAddr, upstreamBaseUrl, requestTimeout, websearchProvider, apiKey, apiKeys, keys,
    enabledModels, modelDisplayNames, overrideConcurrency := overrideConcurrency.toUInt32,
    maxImages, disabledModels, visionHandoffEnabled, visionHandoffModel, visionHandoffPrompt,
    visionHandoffCacheEnabled, visionHandoffCacheTtl, wallpaperSource }

/-- `serde_json` on configurations. -/
def configText : ConfigText where
  fromStr text := (parse text.toList).bind Config.ofTree
  toStringPretty cfg := cfg.toValue.prettyText

/-! ### What is saved is loaded -/

/-- What the types of the fields say: the display names are a map, and the number of images is a
`usize`. -/
structure Config.Storable (cfg : Config) : Prop where
  names : (cfg.modelDisplayNames.map Prod.fst).Nodup
  images : cfg.maxImages < 2 ^ 64

theorem elementsIsJson_map {α : Type} {f : α → Value} (h : ∀ x, (f x).isJson = true) (l : List α) :
    elementsIsJson (l.map f) = true := by
  induction l with
  | nil => rfl
  | cons x l ih => rw [List.map_cons, elementsIsJson, h x, ih, Bool.and_self]

theorem membersIsJson_map {α : Type} {f : α → Value} (h : ∀ x, (f x).isJson = true)
    (l : List (String × α)) : membersIsJson (l.map fun p => (p.1, f p.2)) = true := by
  induction l with
  | nil => rfl
  | cons p l ih => rw [List.map_cons, membersIsJson, h p.2, ih, Bool.and_self]

/-- There are no floats in a configuration. -/
theorem Config.isJson_toValue (cfg : Config) : cfg.toValue.isJson = true := by
  have hstrings : ∀ l : List String, elementsIsJson (l.map string) = true :=
    elementsIsJson_map fun _ => rfl
  have hkeys : elementsIsJson (cfg.keys.map ConfigKey.toValue) = true :=
    elementsIsJson_map (fun _ => rfl) _
  have hnames : membersIsJson (cfg.modelDisplayNames.map fun p => (p.1, string p.2)) = true :=
    membersIsJson_map (fun _ => rfl) _
  simp only [toValue, members, natValue, isJson, membersIsJson, Number.isJson, hstrings, hkeys,
    hnames, Bool.and_self]

theorem WallpaperSource.ofTree_display (w : WallpaperSource) :
    ofTree (string w.display).tree = some w := by
  have hofName : ofName w.display = some w := by cases w <;> rfl
  rw [Value.tree, ofTree, text_escaped, Option.bind_some, hofName]

theorem ConfigKey.ofTree_toValue (k : ConfigKey) : ofTree k.toValue.tree = some k := by
  have hslots := slots_object ["name", "key", "session"] (m := k.members)
    (show ["name", "key", "session"].Nodup by decide)
  have hname : fieldOr (written k.members) "name" readString "" = some k.name :=
    fieldOr_written (readString_tree _) rfl
  have hkey : fieldOr (written k.members) "key" readString "" = some k.key :=
    fieldOr_written (readString_tree _) rfl
  have hsession : fieldOr (written k.members) "session" readString "" = some k.session :=
    fieldOr_written (readString_tree _) rfl
  simp only [ofTree, toValue, hslots, Option.bind_eq_bind, Option.bind_some, hname, hkey, hsession]
  rfl

theorem bind_eq_some {α β : Type} {x : Option α} {f : α → Option β} {a : α} {b : β}
    (hx : x = some a) (hf : f a = some b) : x >>= f = some b :=
  Option.bind_eq_some_iff.2 ⟨a, hx, hf⟩

theorem Config.ofTree_toValue {cfg : Config} (h : cfg.Storable) :
    ofTree cfg.toValue.tree = some cfg := by
  have hslots := slots_object configFields (m := cfg.members)
    (show configFields.Nodup by decide)
  have hstrings : ∀ l : List String,
      readList readString (array (l.map string)).tree = some l :=
    fun l => readList_array fun s _ => readString_tree s
  have hkeys : readList ConfigKey.ofTree (array (cfg.keys.map ConfigKey.toValue)).tree =
      some cfg.keys := readList_array fun k _ => k.ofTree_toValue
  have hnames := readMap_object string h.names fun p _ => readString_tree p.2
  have hconcurrency := readUnsigned_tree cfg.overrideConcurrency.toNat_lt
    (cfg.overrideConcurrency.toNat_lt.trans (by decide))
  have himages := readUnsigned_tree h.images h.images
  have hsource := cfg.wallpaperSource.ofTree_display
  have hbool : ∀ b, readBool (bool b).tree = some b := fun _ => rfl
  refine bind_eq_some hslots ?_
  refine bind_eq_some (fieldOr_written (readString_tree cfg.listenAddr) rfl) ?_
  refine bind_eq_some (fieldOr_written (readString_tree cfg.upstreamBaseUrl) rfl) ?_
  refine bind_eq_some (fieldOr_written (readString_tree cfg.requestTimeout) rfl) ?_
  refine bind_eq_some (fieldOr_written (readString_tree cfg.websearchProvider) rfl) ?_
  refine bind_eq_some (fieldOr_written (readString_tree cfg.apiKey) rfl) ?_
  refine bind_eq_some (fieldOr_written (hstrings cfg.apiKeys) rfl) ?_
  refine bind_eq_some (fieldOr_written hkeys rfl) ?_
  refine bind_eq_some (fieldOr_written (hstrings cfg.enabledModels) rfl) ?_
  refine bind_eq_some (fieldOr_written hnames rfl) ?_
  refine bind_eq_some (fieldOr_written hconcurrency rfl) ?_
  refine bind_eq_some (fieldOr_written himages rfl) ?_
  refine bind_eq_some (fieldOr_written (hstrings cfg.disabledModels) rfl) ?_
  refine bind_eq_some (fieldOr_written (hbool cfg.visionHandoffEnabled) rfl) ?_
  refine bind_eq_some (fieldOr_written (readString_tree cfg.visionHandoffModel) rfl) ?_
  refine bind_eq_some (fieldOr_written (readString_tree cfg.visionHandoffPrompt) rfl) ?_
  refine bind_eq_some (fieldOr_written (hbool cfg.visionHandoffCacheEnabled) rfl) ?_
  refine bind_eq_some (fieldOr_written (readString_tree cfg.visionHandoffCacheTtl) rfl) ?_
  refine bind_eq_some (fieldOr_written hsource rfl) ?_
  simp

/-- **A configuration that is saved is loaded again.** -/
theorem fromStr_toStringPretty {cfg : Config} (h : cfg.Storable) :
    configText.fromStr (configText.toStringPretty cfg) = some cfg := by
  have hjson := parse_eq_some_iff.2 (isJson_prettyText cfg.isJson_toValue)
  exact bind_eq_some hjson (Config.ofTree_toValue h)

/-- A configuration with a text that has to be escaped, and a map. -/
theorem fromStr_toStringPretty_names :
    ∃ cfg : Config, cfg.modelDisplayNames = [("a\"b", "c\\\n"), ("é", "")] ∧
      configText.fromStr (configText.toStringPretty cfg) = some cfg :=
  ⟨{ modelDisplayNames := [("a\"b", "c\\\n"), ("é", "")] }, rfl,
    fromStr_toStringPretty ⟨by decide, by decide⟩⟩

/-! ### What is loaded can be saved -/

theorem storable_default : Config.Storable {} := ⟨List.nodup_nil, by decide⟩

theorem fieldOr_cases {α : Type} {slot : String → Option Tree} {name : String}
    {read : Tree → Option α} {default x : α} (h : fieldOr slot name read default = some x) :
    x = default ∨ ∃ t, read t = some x := by
  unfold fieldOr at h
  split at h
  next t _ => exact Or.inr ⟨t, h⟩
  next => exact Or.inl (Option.some.inj h).symm

theorem forall_of_bind {α β : Type} {x : Option α} {f : α → Option β} {P : β → Prop}
    (h : ∀ a, x = some a → ∀ b, f a = some b → P b) : ∀ b, x >>= f = some b → P b := by
  intro b hb
  obtain ⟨a, hx, ha⟩ := Option.bind_eq_some_iff.1 hb
  exact h a hx b ha

theorem Config.storable_ofTree (t : Tree) : ∀ cfg, ofTree t = some cfg → cfg.Storable := by
  -- the display names and the number of images are the ninth and the eleventh field
  iterate 9 refine forall_of_bind fun _ _ => ?_
  refine forall_of_bind fun names hnames => forall_of_bind fun _ _ => ?_
  refine forall_of_bind fun images himages => ?_
  iterate 7 refine forall_of_bind fun _ _ => ?_
  rintro _ ⟨⟩
  refine ⟨?_, ?_⟩
  · rcases fieldOr_cases hnames with rfl | ⟨t, ht⟩
    · exact List.nodup_nil
    · exact nodup_readMap ht
  · rcases fieldOr_cases himages with rfl | ⟨t, ht⟩
    · exact storable_default.images
    · exact readUnsigned_lt ht

theorem storable_loadFile (contents : Option String) : (loadFile configText contents).Storable := by
  unfold loadFile
  split
  next text =>
    cases hread : configText.fromStr text with
    | none => exact storable_default
    | some cfg =>
      obtain ⟨t, -, ht⟩ := Option.bind_eq_some_iff.1 hread
      exact Config.storable_ofTree t cfg ht
  next => exact storable_default

theorem storable_applyEnvOverrides {cfg : Config} (h : cfg.Storable) (vars : Vars) :
    (applyEnvOverrides vars cfg).Storable := by
  refine ⟨h.names, ?_⟩
  show (((vars "MAX_IMAGES").bind fun v => parseUsize v.toList).getD cfg.maxImages) < 2 ^ 64
  cases hread : (vars "MAX_IMAGES").bind fun v => parseUsize v.toList with
  | none => exact h.images
  | some n =>
    obtain ⟨v, -, hn⟩ := Option.bind_eq_some_iff.1 hread
    obtain ⟨k, -, rfl⟩ := Option.map_eq_some_iff.1 hn
    exact k.toNat_lt

end Mybro
