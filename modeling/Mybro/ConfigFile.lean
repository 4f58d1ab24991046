import Mybro.Config
import Mybro.Lib.Json

/-!
# The configuration file (`config.rs`)

`Config::load` reads the file, lets the environment override eleven of its fields, and checks the
result; `save_to_file` writes a configuration back. A file is its contents.
-/

namespace Mybro

/-- What `serde_json` makes of a configuration: `from_str` and `to_string_pretty`. -/
structure ConfigText where
  fromStr : String → Option Config
  toStringPretty : Config → String

/-- `std::env::var`; there is no value when the variable is not set or not Unicode. -/
abbrev Vars := String → Option String

/-- `load_file`; the contents are missing when the file cannot be read. -/
def loadFile (json : ConfigText) (contents : Option String) : Config :=
  match contents with
  | some text => (json.fromStr text).getD {}
  | none => {}

/-! ### The environment -/

/-- `str::parse::<u32>`. -/
def parseU32 (cs : List Char) : Option UInt32 :=
  (parseU64 cs).bind fun n => if n.toNat < 2 ^ 32 then some n.toUInt32 else none

/-- `str::parse::<usize>`, on 64 bits. -/
def parseUsize (cs : List Char) : Option ℕ := (parseU64 cs).map UInt64.toNat

/-- The flag a text stands for. -/
def envFlag (v : String) : Bool := !(v = "false" || v = "0" || v = "")

/-- `split(',')`, and each piece trimmed. -/
def splitApiKeys (v : String) : List String :=
  (v.toList.splitOn ',').map fun piece => Utf8.trim (String.ofList piece)

/-- `apply_env_overrides`. -/
def applyEnvOverrides (vars : Vars) (cfg : Config) : Config :=
  { cfg with
    listenAddr := (vars "LISTEN_ADDR").getD cfg.listenAddr
    upstreamBaseUrl := (vars "UPSTREAM_BASE_URL").getD cfg.upstreamBaseUrl
    requestTimeout := (vars "REQUEST_TIMEOUT").getD cfg.requestTimeout
    websearchProvider := (vars "WEBSEARCH_PROVIDER").getD cfg.websearchProvider
    apiKey := (vars "UMANS_API_KEY").getD cfg.apiKey
    apiKeys := ((vars "API_KEYS").map splitApiKeys).getD cfg.apiKeys
    overrideConcurrency :=
      ((vars "OVERRIDE_CONCURRENCY").bind fun v => parseU32 v.toList).getD cfg.overrideConcurrency
    maxImages := ((vars "MAX_IMAGES").bind fun v => parseUsize v.toList).getD cfg.maxImages
    visionHandoffEnabled :=
      ((vars "VISION_HANDOFF_ENABLED").map envFlag).getD cfg.visionHandoffEnabled
    visionHandoffCacheEnabled :=
      ((vars "VISION_HANDOFF_CACHE_ENABLED").map envFlag).getD cfg.visionHandoffCacheEnabled
    visionHandoffCacheTtl := (vars "VISION_HANDOFF_CACHE_TTL").getD cfg.visionHandoffCacheTtl }

/-! ### Loading and saving -/

/-- Whether `validate` lets the configuration through; otherwise the process exits. -/
def Config.validate (cfg : Config) : Bool := parseDuration cfg.requestTimeout ≠ 0

/-- `Config::load`. -/
def Config.load (json : ConfigText) (contents : Option String) (vars : Vars) : Option Config :=
  let cfg := applyEnvOverrides vars (loadFile json contents)
  if cfg.validate then some cfg else none

/-- `save_to_file`: the new contents of the file. -/
def Config.saveToFile (json : ConfigText) (cfg : Config) : String := json.toStringPretty cfg

theorem eq_of_load {json : ConfigText} {contents : Option String} {vars : Vars} {cfg : Config}
    (h : Config.load json contents vars = some cfg) :
    cfg = applyEnvOverrides vars (loadFile json contents) := by
  simp only [Config.load] at h
  split_ifs at h
  exact (Option.some.inj h).symm

/-- What is read from a file that was saved. -/
theorem loadFile_saveToFile {json : ConfigText} {cfg : Config}
    (h : json.fromStr (cfg.saveToFile json) = some cfg) :
    loadFile json (some (cfg.saveToFile json)) = cfg := by
  simp [loadFile, h]

/-! ### A sample file -/

/-- The text of a configuration that has the default value in every field but `api_key`. -/
def keyJson (key : String) : String :=
  "\x7b\n  \"LISTEN_ADDR\": \"127.0.0.1:8084\",\n" ++
  "  \"UPSTREAM_BASE_URL\": \"https://api.code.umans.ai/v1\",\n" ++
  "  \"REQUEST_TIMEOUT\": \"15m\",\n  \"WEBSEARCH_PROVIDER\": \"none\",\n" ++
  "  \"API_KEY\": " ++ Value.quote key ++ ",\n  \"API_KEYS\": [],\n  \"KEYS\": [],\n" ++
  "  \"ENABLED_MODELS\": [],\n  \"MODEL_DISPLAY_NAMES\": \x7b\x7d,\n" ++
  "  \"OVERRIDE_CONCURRENCY\": 0,\n  \"MAX_IMAGES\": 9,\n  \"DISABLED_MODELS\": [],\n" ++
  "  \"VISION_HANDOFF_ENABLED\": false,\n  \"VISION_HANDOFF_MODEL\": \"umans-coder\",\n" ++
  "  \"VISION_HANDOFF_PROMPT\": \"\",\n  \"VISION_HANDOFF_CACHE_ENABLED\": false,\n" ++
  "  \"VISION_HANDOFF_CACHE_TTL\": \"24h\",\n  \"wallpaper_source\": \"bing\"\n\x7d"

/-- A serializer that knows one such configuration. -/
def keyText (key : String) : ConfigText where
  fromStr text := if text = keyJson key then some { apiKey := key } else none
  toStringPretty cfg := if cfg = { apiKey := key } then keyJson key else ""

theorem fromStr_keyText (key : String) :
    (keyText key).fromStr (Config.saveToFile (keyText key) { apiKey := key }) =
      some { apiKey := key } := by
  simp [keyText, Config.saveToFile]

end Mybro
