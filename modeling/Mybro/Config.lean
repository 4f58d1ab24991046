import Mybro.Constants
import Mybro.Lib.Utf8

/-!
# The configuration (`config.rs`)

The fields of `Config`, with the defaults of `Config::default`, the durations among them, and the
masking of secrets.
-/

namespace Mybro

/-- `ConfigKey`. -/
structure ConfigKey where
  name : String
  key : String
  session : String
  deriving DecidableEq, Repr

/-- `WallpaperSource`. -/
inductive WallpaperSource
  | none
  | bing
  | wallhaven
  deriving DecidableEq, Repr

/-- `Config`. -/
structure Config where
  listenAddr : String := "127.0.0.1:8084"
  upstreamBaseUrl : String := "https://api.code.umans.ai/v1"
  requestTimeout : String := "15m"
  websearchProvider : String := "none"
  apiKey : String := ""
  apiKeys : List String := []
  keys : List ConfigKey := []
  enabledModels : List String := []
  modelDisplayNames : List (String × String) := []
  overrideConcurrency : UInt32 := 0
  maxImages : Nat := 9
  disabledModels : List String := []
  visionHandoffEnabled : Bool := false
  visionHandoffModel : String := "umans-coder"
  visionHandoffPrompt : String := ""
  visionHandoffCacheEnabled : Bool := false
  visionHandoffCacheTtl : String := "24h"
  wallpaperSource : WallpaperSource := .bing
  deriving DecidableEq, Repr

/-! ### Durations -/

/-- The number that digits stand for. -/
def numberOf (ds : List Char) : ℕ := Nat.ofDigitChars 10 ds 0

/-- `str::parse::<u64>`: an optional plus sign and digits, within the range. -/
def parseU64 (cs : List Char) : Option UInt64 :=
  let digits : List Char := match cs with
    | '+' :: rest => rest
    | _ => cs
  let n : ℕ := numberOf digits
  if digits ≠ [] ∧ digits.all Char.isDigit ∧ n < 2 ^ 64 then some (UInt64.ofNat n) else none

/-- A run of ASCII digits. -/
def IsDigits (ds : List Char) : Prop := ds ≠ [] ∧ ∀ c ∈ ds, c.isDigit = true

theorem IsDigits.ne_plus {ds rest : List Char} (h : IsDigits ds) : ds ≠ '+' :: rest := by
  rintro rfl
  exact absurd (h.2 '+' List.mem_cons_self) (by decide)

/-- **What is read as a number**: digits, and a plus sign that may stand before them. -/
theorem parseU64_eq_some_iff {cs : List Char} {n : UInt64} :
    parseU64 cs = some n ↔ ∃ sign ds, (sign = [] ∨ sign = ['+']) ∧ cs = sign ++ ds ∧ IsDigits ds ∧
      numberOf ds < 2 ^ 64 ∧ n = UInt64.ofNat (numberOf ds) := by
  constructor
  · intro h
    unfold parseU64 at h
    split at h
    · rename_i rest
      obtain ⟨⟨hne, hall, hlt⟩, hn⟩ := Option.ite_none_right_eq_some.1 h
      exact ⟨['+'], rest, Or.inr rfl, rfl, ⟨hne, List.all_eq_true.1 hall⟩, hlt,
        (Option.some.inj hn).symm⟩
    · obtain ⟨⟨hne, hall, hlt⟩, hn⟩ := Option.ite_none_right_eq_some.1 h
      exact ⟨[], cs, Or.inl rfl, rfl, ⟨hne, List.all_eq_true.1 hall⟩, hlt,
        (Option.some.inj hn).symm⟩
  · rintro ⟨sign, ds, hsign, rfl, hds, hlt, rfl⟩
    have hread : ∀ digits, digits = ds → (if digits ≠ [] ∧ digits.all Char.isDigit ∧
        numberOf digits < 2 ^ 64 then some (UInt64.ofNat (numberOf digits)) else none) =
          some (UInt64.ofNat (numberOf ds)) := by
      rintro _ rfl
      exact if_pos ⟨hds.1, List.all_eq_true.2 hds.2, hlt⟩
    rcases hsign with rfl | rfl
    · unfold parseU64
      split
      · rename_i rest hrest
        exact absurd hrest hds.ne_plus
      · exact hread _ rfl
    · exact hread _ rfl

/-- The display of a number is read as the number. -/
theorem parseU64_toDigits {n : ℕ} (h : n < 2 ^ 64) :
    parseU64 (Nat.toDigits 10 n) = some (UInt64.ofNat n) := by
  have hvalue : numberOf (Nat.toDigits 10 n) = n := Nat.ofDigitChars_ten_toDigits
  have hds : IsDigits (Nat.toDigits 10 n) :=
    ⟨Nat.toDigits_ne_nil, fun c hc => Nat.isDigit_of_mem_toDigits (by norm_num) le_rfl hc⟩
  exact parseU64_eq_some_iff.2
    ⟨[], Nat.toDigits 10 n, Or.inl rfl, rfl, hds, by rwa [hvalue], by rw [hvalue]⟩

/-- `parse_duration`; the product with the unit wraps. -/
def parseDuration (s : String) : ℕ :=
  let cs := (Utf8.trim s).toList
  let inUnit (mult : UInt64) : ℕ :=
    match parseU64 cs.dropLast with
    | some n => seconds (n * mult).toNat
    | none => 0
  match cs.getLast? with
  | none => 0
  | some 'h' => inUnit 3600
  | some 'm' => inUnit 60
  | some 's' => inUnit 1
  | some _ =>
    match parseU64 cs with
    | some ms => ms.toNat * 1000000
    | none => 0

/-- `Config::handoff_cache_ttl_duration`. -/
def Config.handoffCacheTtlDuration (cfg : Config) : ℕ :=
  let d := parseDuration cfg.visionHandoffCacheTtl
  if d = 0 then seconds 86400 else d

/-! ### Secrets -/

/-- `mask_token`; a slice inside a character panics. -/
def maskToken (token : String) : Option String :=
  if Utf8.len token ≤ 14 then some (if token = "" then "" else "***")
  else do
    let head ← Utf8.sliceTo token 10
    let tail ← Utf8.sliceFrom token (Utf8.len token - 4)
    some (head ++ "..." ++ tail)

end Mybro
