import Mybro.ConfigFile
import Mybro.Http

/-!
# Who is let in (`routes/mod.rs`, `config.rs`)

`check_auth` against the documented rule, an "or" over the two headers, and against the list that
the variable `API_KEYS` stands for.
-/

namespace Mybro

section

variable {cfg : Config} {headers : HeaderMap} {k : String}

/-- The header `X-Api-Key` comes first, and hides the other one whatever its text. -/
theorem providedKey_eq_some_iff :
    providedKey headers = some k ↔
      headers.getText "x-api-key" = some k ∨
        headers.getText "x-api-key" = none ∧
          headers.getText "authorization" = some ("Bearer " ++ k) := by
  unfold providedKey
  cases hkey : headers.getText "x-api-key" with
  | some x => simp
  | none => simp [Option.bind_eq_some_iff, Utf8.stripStart_eq_some_iff]

/-- **What `check_auth` accepts.** -/
theorem checkAuth_iff :
    checkAuth cfg headers = true ↔
      cfg.apiKeys = [] ∨ ∃ k ∈ cfg.apiKeys, providedKey headers = some k := by
  unfold checkAuth
  cases hkey : providedKey headers with
  | none => simp
  | some x =>
    simp only [Bool.or_eq_true, decide_eq_true_eq, List.any_eq_true, Option.some.injEq]

/-! ### The documented rule -/

/-- The rule: no keys are configured, or either header presents one. -/
def Entitled (cfg : Config) (headers : HeaderMap) : Prop :=
  cfg.apiKeys = [] ∨ (∃ k ∈ cfg.apiKeys, headers.getText "x-api-key" = some k) ∨
    ∃ k ∈ cfg.apiKeys, headers.getText "authorization" = some ("Bearer " ++ k)

/-- A key in the header `Authorization` is hidden by some other text in `X-Api-Key`. -/
def HiddenBearer (cfg : Config) (headers : HeaderMap) : Prop :=
  (∃ x, headers.getText "x-api-key" = some x ∧ x ∉ cfg.apiKeys) ∧
    ∃ k ∈ cfg.apiKeys, headers.getText "authorization" = some ("Bearer " ++ k)

/-- Who is let in is entitled to it. -/
theorem entitled_of_checkAuth (h : checkAuth cfg headers = true) : Entitled cfg headers := by
  rcases checkAuth_iff.1 h with hopen | ⟨k, hk, hprov⟩
  · exact Or.inl hopen
  · rcases providedKey_eq_some_iff.1 hprov with hx | ⟨-, hbearer⟩
    · exact Or.inr (Or.inl ⟨k, hk, hx⟩)
    · exact Or.inr (Or.inr ⟨k, hk, hbearer⟩)

/-- A hidden key does not open the door. -/
theorem checkAuth_of_hidden (h : HiddenBearer cfg headers) : checkAuth cfg headers = false := by
  obtain ⟨⟨x, hx, hunlisted⟩, ⟨k, hk, -⟩⟩ := h
  rw [← Bool.not_eq_true, checkAuth_iff]
  rintro (hopen | ⟨k', hk', hprov⟩)
  · rw [hopen] at hk
    cases hk
  · rcases providedKey_eq_some_iff.1 hprov with hx' | ⟨hnone, -⟩
    · rw [hx, Option.some.injEq] at hx'
      exact hunlisted (hx' ▸ hk')
    · rw [hx] at hnone
      cases hnone

/-- **`check_auth` follows the rule exactly where no key is hidden.** -/
theorem checkAuth_entitled_iff (cfg : Config) (headers : HeaderMap) :
    (checkAuth cfg headers = true ↔ Entitled cfg headers) ↔ ¬ HiddenBearer cfg headers := by
  constructor
  · intro hrule hhidden
    have hin : checkAuth cfg headers = true := hrule.2 (Or.inr (Or.inr hhidden.2))
    rw [checkAuth_of_hidden hhidden] at hin
    cases hin
  · intro hhidden
    refine ⟨entitled_of_checkAuth, ?_⟩
    rintro (hopen | ⟨k, hk, hx⟩ | ⟨k, hk, hbearer⟩)
    · exact checkAuth_iff.2 (Or.inl hopen)
    · exact checkAuth_iff.2 (Or.inr ⟨k, hk, providedKey_eq_some_iff.2 (Or.inl hx)⟩)
    · cases hx : headers.getText "x-api-key" with
      | none =>
        have hprov : providedKey headers = some k :=
          providedKey_eq_some_iff.2 (Or.inr ⟨hx, hbearer⟩)
        exact checkAuth_iff.2 (Or.inr ⟨k, hk, hprov⟩)
      | some x =>
        -- another text would hide the bearer, so it is a listed key itself
        have hlisted : x ∈ cfg.apiKeys := by
          by_contra hunlisted
          exact hhidden ⟨⟨x, hx, hunlisted⟩, k, hk, hbearer⟩
        exact checkAuth_iff.2 (Or.inr ⟨x, hlisted, providedKey_eq_some_iff.2 (Or.inl hx)⟩)

/-- An empty `X-Api-Key` hides a listed key. -/
theorem empty_header_hides_bearer :
    ¬ (checkAuth { apiKeys := ["k"] } [header "x-api-key" "", header "authorization" "Bearer k"] =
        true ↔
      Entitled { apiKeys := ["k"] }
        [header "x-api-key" "", header "authorization" "Bearer k"]) := by
  intro hrule
  have hin := hrule.2 (Or.inr (Or.inr ⟨"k", by decide, by decide⟩))
  revert hin
  decide

/-! ### The list in the environment -/

/-- The keys that a value of `API_KEYS` names: its pieces that are not blank. -/
def apiKeyItems (v : String) : List String := (splitApiKeys v).filter fun k => k ≠ ""

/-- Whether a request presents a key, in one header or the other. -/
def Presents (headers : HeaderMap) (k : String) : Prop :=
  headers.getText "x-api-key" = some k ∨ headers.getText "authorization" = some ("Bearer " ++ k)

/-- **No empty credential**: only the keys of the value open the door, and without any it is open.
-/
def NoEmptyCredential (v : String) (cfg : Config) (headers : HeaderMap) : Prop :=
  (apiKeyItems v ≠ [] → checkAuth cfg headers = true → ∃ k ∈ apiKeyItems v, Presents headers k) ∧
    (apiKeyItems v = [] → checkAuth cfg headers = true)

/-- The key of the request, as `check_auth` chooses it, is the empty text. -/
def PresentsEmpty (headers : HeaderMap) : Prop :=
  headers.getText "x-api-key" = some "" ∨
    headers.getText "x-api-key" = none ∧ headers.getText "authorization" = some "Bearer "

theorem splitApiKeys_ne_nil (v : String) : splitApiKeys v ≠ [] := by
  simp [splitApiKeys]

theorem mem_apiKeyItems {v : String} : k ∈ apiKeyItems v ↔ k ∈ splitApiKeys v ∧ k ≠ "" := by
  simp [apiKeyItems]

/-- The list after loading, whatever the file says. -/
theorem apiKeys_of_load {json : ConfigText} {contents : Option String} {vars : Vars} {v : String}
    (hv : vars "API_KEYS" = some v) (hload : Config.load json contents vars = some cfg) :
    cfg.apiKeys = splitApiKeys v := by
  rw [eq_of_load hload]
  simp [applyEnvOverrides, hv]

theorem presentsEmpty_iff : PresentsEmpty headers ↔ providedKey headers = some "" := by
  rw [providedKey_eq_some_iff]
  rfl

/-- With a list that is not empty, only a listed key opens the door. -/
theorem checkAuth_of_splitApiKeys {v : String} (hkeys : cfg.apiKeys = splitApiKeys v) :
    checkAuth cfg headers = true ↔
      (∃ k ∈ apiKeyItems v, providedKey headers = some k) ∨
        "" ∈ splitApiKeys v ∧ PresentsEmpty headers := by
  rw [checkAuth_iff, hkeys, presentsEmpty_iff]
  constructor
  · rintro (hopen | ⟨k, hk, hprov⟩)
    · exact absurd hopen (splitApiKeys_ne_nil v)
    · by_cases hempty : k = ""
      · subst hempty
        exact Or.inr ⟨hk, hprov⟩
      · exact Or.inl ⟨k, mem_apiKeyItems.2 ⟨hk, hempty⟩, hprov⟩
  · rintro (⟨k, hk, hprov⟩ | ⟨hk, hprov⟩)
    · exact Or.inr ⟨k, (mem_apiKeyItems.1 hk).1, hprov⟩
    · exact Or.inr ⟨"", hk, hprov⟩

/-- The key `check_auth` chooses is one that the request presents. -/
theorem presents_of_providedKey (h : providedKey headers = some k) : Presents headers k := by
  rcases providedKey_eq_some_iff.1 h with hx | ⟨-, hbearer⟩
  · exact Or.inl hx
  · exact Or.inr hbearer

/-- **There is no empty credential exactly where no request uses one**: when the value names keys, a
request without any of them does not present the empty text that a stray comma lists; when it names
none, the request presents just that. -/
theorem noEmptyCredential_iff {json : ConfigText} {contents : Option String} {vars : Vars}
    {v : String} (hv : vars "API_KEYS" = some v)
    (hload : Config.load json contents vars = some cfg) (headers : HeaderMap) :
    NoEmptyCredential v cfg headers ↔
      if apiKeyItems v = [] then PresentsEmpty headers
      else
        "" ∈ splitApiKeys v → PresentsEmpty headers → ∃ k ∈ apiKeyItems v, Presents headers k := by
  have haccept : checkAuth cfg headers = true ↔
      (∃ k ∈ apiKeyItems v, providedKey headers = some k) ∨
        "" ∈ splitApiKeys v ∧ PresentsEmpty headers :=
    checkAuth_of_splitApiKeys (apiKeys_of_load hv hload)
  unfold NoEmptyCredential
  split_ifs with hitems
  · -- no key is named, and the list holds empty texts alone
    have hempty : "" ∈ splitApiKeys v := by
      obtain ⟨k, hk⟩ := List.exists_mem_of_ne_nil _ (splitApiKeys_ne_nil v)
      by_cases hne : k = ""
      · exact hne ▸ hk
      · have hmem : k ∈ apiKeyItems v := mem_apiKeyItems.2 ⟨hk, hne⟩
        rw [hitems] at hmem
        cases hmem
    simp [haccept, hitems, hempty]
  · constructor
    · intro hnone hempty hpresents
      exact hnone.1 hitems (haccept.2 (Or.inr ⟨hempty, hpresents⟩))
    · intro hcomma
      refine ⟨fun _ hin => ?_, fun h => absurd h hitems⟩
      rcases haccept.1 hin with ⟨k, hk, hprov⟩ | ⟨hempty, hpresents⟩
      · exact ⟨k, hk, presents_of_providedKey hprov⟩
      · exact hcomma hempty hpresents

end

/-- Nothing but the variable `API_KEYS` is set. -/
def apiKeysVar (v : String) : Vars := fun name => if name = "API_KEYS" then some v else none

/-- Without a file there is nothing to parse. -/
def noText : ConfigText := ⟨fun _ => none, fun _ => ""⟩

/-- A comma at the end of the value lets in a request with an empty `X-Api-Key`. -/
theorem comma_opens_door :
    ∃ cfg, Config.load noText none (apiKeysVar "k,") = some cfg ∧
      ¬ NoEmptyCredential "k," cfg [header "x-api-key" ""] := by
  refine ⟨{ apiKeys := ["k", ""] }, by decide, fun h => ?_⟩
  obtain ⟨k, hk, hpresents⟩ := h.1 (by decide) (by decide)
  have hitems : apiKeyItems "k," = ["k"] := by decide
  rw [hitems, List.mem_singleton] at hk
  subst hk
  revert hpresents
  unfold Presents
  decide

/-- The result on a value that names two keys, and a request with the second. -/
theorem noEmptyCredential_two :
    NoEmptyCredential "a, b" { apiKeys := ["a", "b"] } [header "authorization" "Bearer b"] := by
  have hv : apiKeysVar "a, b" "API_KEYS" = some "a, b" := by decide
  have hload : Config.load noText none (apiKeysVar "a, b") = some { apiKeys := ["a", "b"] } := by
    decide
  refine (noEmptyCredential_iff hv hload _).2 ?_
  rw [if_neg (by decide)]
  exact fun h => absurd h (by decide)

end Mybro
