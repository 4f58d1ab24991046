import Mybro.Masking

/-!
# The active key (`routes/keys_api.rs`, `routes/mod.rs`)

`api_key` is a copy of the key of one of the entries, kept by the three actions of `post_keys` under
different conditions on the index. `activeListed_iff` says in which runs it stays the key of an
entry. When it is empty, `active_key` falls back on the entries, but looks at their masked keys:
`findsActive_iff` says when it finds one.
-/

namespace Mybro

open Prog Runs KeyPool

/-- A key is empty or that of an entry, and empty only if those of all entries are. -/
def Listed (key : String) (keys : List ConfigKey) : Prop :=
  (key = "" ∨ ∃ k ∈ keys, k.key = key) ∧ (key = "" → ∀ k ∈ keys, k.key = "")

/-- `api_key` is listed. -/
def ActiveListed (cfg : Config) : Prop := Listed cfg.apiKey cfg.keys

/-- Where there is a key, it has to be that of an entry. -/
theorem listed_iff_of_ne {key : String} {keys : List ConfigKey} (hkey : key ≠ "") :
    Listed key keys ↔ ∃ k ∈ keys, k.key = key :=
  ⟨fun h => h.1.resolve_left hkey, fun h => ⟨Or.inr h, fun hempty => absurd hempty hkey⟩⟩

/-- Where there is none, no entry may have one. -/
theorem listed_empty_iff {keys : List ConfigKey} :
    Listed "" keys ↔ ¬ ∃ k ∈ keys, k.key ≠ "" := by
  unfold Listed
  simp

/-- The first key that is not empty is the key of an entry; there is none when all are empty. -/
theorem listed_firstKey (keys : List ConfigKey) : Listed (firstKey keys) keys := by
  unfold firstKey
  cases hfind : keys.find? fun k => k.key ≠ "" with
  | none =>
    refine listed_empty_iff.2 fun ⟨k, hk, hne⟩ => ?_
    simpa [hne] using List.find?_eq_none.1 hfind k hk
  | some k =>
    have hkey : k.key ≠ "" := by simpa using List.find?_some hfind
    exact (listed_iff_of_ne hkey).2 ⟨k, List.mem_of_find?_eq_some hfind, rfl⟩

theorem firstKey_eq_empty_iff {keys : List ConfigKey} :
    firstKey keys = "" ↔ ∀ k ∈ keys, k.key = "" := by
  refine ⟨(listed_firstKey keys).2, fun hall => ?_⟩
  by_contra hne
  obtain ⟨k, hk, heq⟩ := (listed_iff_of_ne hne).1 (listed_firstKey keys)
  exact hne (heq ▸ hall k hk)

/-- `api_key` is the key of another entry than the one at the index. -/
def HeldBesides (cfg : Config) (index : ℕ) : Prop :=
  ∃ k ∈ cfg.keys.eraseIdx index, k.key = cfg.apiKey

namespace KeyAction

/-- The condition on an action: where it does not choose `api_key` anew, it leaves an entry with
that key, and gives no key to an entry while `api_key` is empty. -/
def KeepsActive (cfg : Config) : KeyAction → Prop
  | add _ _ _ => True
  | update index _ key _ =>
    index < cfg.keys.length → (index = 0 ∧ key ≠ "") ∨
      if cfg.apiKey = "" then key = "" else key = cfg.apiKey ∨ HeldBesides cfg index
  | delete index =>
    index < cfg.keys.length → index = 0 ∨ cfg.apiKey = "" ∨ HeldBesides cfg index

/-- What is in a list with one element set. -/
theorem exists_mem_set {α : Type} {l : List α} {i : ℕ} (hi : i < l.length) {a : α} {p : α → Prop} :
    (∃ x ∈ l.set i a, p x) ↔ p a ∨ ∃ x ∈ l.eraseIdx i, p x := by
  rw [List.set_eq_take_append_cons_drop, if_pos hi, List.eraseIdx_eq_take_drop_succ]
  simp only [List.mem_append, List.mem_cons]
  constructor
  · rintro ⟨x, hx | rfl | hx, hp⟩
    · exact Or.inr ⟨x, Or.inl hx, hp⟩
    · exact Or.inl hp
    · exact Or.inr ⟨x, Or.inr hx, hp⟩
  · rintro (hp | ⟨x, hx | hx, hp⟩)
    · exact ⟨a, Or.inr (Or.inl rfl), hp⟩
    · exact ⟨x, Or.inl hx, hp⟩
    · exact ⟨x, Or.inr (Or.inr hx), hp⟩

theorem activeListed_add {cfg : Config} (h : ActiveListed cfg) (name key session : String) :
    ActiveListed ((add name key session).apply cfg) := by
  show Listed (if cfg.apiKey = "" then key else cfg.apiKey) (cfg.keys ++ [⟨name, key, session⟩])
  by_cases hkey : cfg.apiKey = ""
  · rw [if_pos hkey]
    refine ⟨Or.inr ⟨_, List.mem_append_right _ (List.mem_singleton_self _), rfl⟩, ?_⟩
    intro hempty k hk
    rcases List.mem_append.1 hk with hk | hk
    · exact h.2 hkey k hk
    · rw [List.mem_singleton.1 hk]
      exact hempty
  · rw [if_neg hkey]
    obtain ⟨k, hk, heq⟩ := h.1.resolve_left hkey
    exact (listed_iff_of_ne hkey).2 ⟨k, List.mem_append_left _ hk, heq⟩

theorem activeListed_update {cfg : Config} (h : ActiveListed cfg) {index : ℕ}
    (hindex : index < cfg.keys.length) (name key session : String) :
    ActiveListed ((update index name key session).apply cfg) ↔
      (update index name key session).KeepsActive cfg := by
  rw [apply, if_pos hindex, KeepsActive, forall_prop_of_true hindex]
  show Listed (if index = 0 ∧ key ≠ "" then key else cfg.apiKey)
    (cfg.keys.set index ⟨name, key, session⟩) ↔ _
  by_cases hfirst : index = 0 ∧ key ≠ ""
  · -- the key of the first entry becomes `api_key`
    rw [if_pos hfirst, listed_iff_of_ne hfirst.2]
    exact ⟨fun _ => Or.inl hfirst, fun _ => (exists_mem_set hindex).2 (Or.inl rfl)⟩
  · rw [if_neg hfirst, or_iff_right hfirst]
    by_cases hkey : cfg.apiKey = ""
    · have hrest : ¬ ∃ k ∈ cfg.keys.eraseIdx index, k.key ≠ "" := by
        rintro ⟨k, hk, hne⟩
        exact hne (h.2 hkey k (List.mem_of_mem_eraseIdx hk))
      rw [if_pos hkey, hkey, listed_empty_iff, exists_mem_set hindex, or_iff_left hrest, not_not]
    · rw [if_neg hkey, listed_iff_of_ne hkey]
      exact exists_mem_set hindex

theorem activeListed_delete {cfg : Config} (h : ActiveListed cfg) {index : ℕ}
    (hindex : index < cfg.keys.length) :
    ActiveListed ((delete index).apply cfg) ↔ (delete index).KeepsActive cfg := by
  rw [apply, if_pos hindex, KeepsActive, forall_prop_of_true hindex]
  show Listed (if index = 0 then firstKey (keysWithout cfg.keys index) else cfg.apiKey)
    (keysWithout cfg.keys index) ↔ _
  by_cases hfirst : index = 0
  · rw [if_pos hfirst]
    exact ⟨fun _ => Or.inl hfirst, fun _ => listed_firstKey _⟩
  · -- there are two entries at least, so no placeholder is needed
    have hrest : cfg.keys.eraseIdx index ≠ [] := by
      refine List.ne_nil_of_length_pos ?_
      rw [List.length_eraseIdx_of_lt hindex]
      omega
    rw [if_neg hfirst, keysWithout, if_neg hrest, or_iff_right hfirst]
    by_cases hkey : cfg.apiKey = ""
    · rw [hkey, listed_empty_iff]
      refine ⟨fun _ => Or.inl rfl, ?_⟩
      rintro - ⟨k, hk, hne⟩
      exact hne (h.2 hkey k (List.mem_of_mem_eraseIdx hk))
    · rw [listed_iff_of_ne hkey, or_iff_right hkey]
      exact Iff.rfl

/-- **What an action does**: it leaves `api_key` the key of an entry exactly when it meets
`KeepsActive`. -/
theorem activeListed_apply_iff {cfg : Config} (h : ActiveListed cfg) (a : KeyAction) :
    ActiveListed (a.apply cfg) ↔ a.KeepsActive cfg := by
  cases a with
  | add name key session => exact ⟨fun _ => trivial, fun _ => activeListed_add h name key session⟩
  | update index name key session =>
    by_cases hindex : index < cfg.keys.length
    · exact activeListed_update h hindex name key session
    · rw [apply, if_neg hindex]
      exact ⟨fun _ hlt => absurd hlt hindex, fun _ => h⟩
  | delete index =>
    by_cases hindex : index < cfg.keys.length
    · exact activeListed_delete h hindex
    · rw [apply, if_neg hindex]
      exact ⟨fun _ hlt => absurd hlt hindex, fun _ => h⟩

end KeyAction

/-! ### Runs -/

namespace AdminState

/-- A request of `POST /api/keys`, run to its end. -/
def keyStep (env : Env) (s : AdminState) (l : (HeaderMap × KeyAction) × Outside) :
    Option AdminState :=
  (exec (handle env l.2) (postKeys l.1.1 l.1.2) s).map Prod.snd

/-- A run of such requests. -/
abbrev IsKeyRun (env : Env) (s : AdminState)
    (r : List (((HeaderMap × KeyAction) × Outside) × AdminState)) : Prop :=
  Runs.IsRun (Runs.ofFun (keyStep env)) s r

/-- The active key is that of an entry. -/
def HasActive (s : AdminState) : Prop := ActiveListed s.config

/-- The condition on a request: it is refused, or its action meets `KeepsActive`. -/
def EditsActive (s : AdminState) (l : (HeaderMap × KeyAction) × Outside) : Prop :=
  checkAuth s.config l.1.1 = true → l.1.2.KeepsActive s.config

/-- **Throughout a run of edits the active key is that of an entry exactly when every edit meets
`KeepsActive`**: an update or a delete takes no key away that is active, unless it is the first one
and another is chosen. -/
theorem activeListed_iff {env : Env} {cfg : Config} (hkeys : cfg.keys = []) (hkey : cfg.apiKey = "")
    {r : List (((HeaderMap × KeyAction) × Outside) × AdminState)}
    (hr : IsKeyRun env (start cfg) r) :
    Always HasActive (start cfg) r ↔ EachStep EditsActive (start cfg) r := by
  refine always_iff_eachStep (J := fun _ => True) (fun _ _ _ _ _ => trivial) ?_ trivial ?_ hr
  · rintro s ⟨⟨headers, a⟩, o⟩ t - hs hst
    have ht := (exec_postKeys headers a).symm.trans hst
    unfold HasActive EditsActive
    by_cases hauth : checkAuth s.config headers = true
    · rw [if_pos hauth] at ht
      cases ht
      rw [forall_prop_of_true hauth]
      exact KeyAction.activeListed_apply_iff hs a
    · rw [if_neg hauth] at ht
      cases ht
      exact ⟨fun _ h => absurd h hauth, fun _ => hs⟩
  · show Listed cfg.apiKey cfg.keys
    rw [hkeys, hkey]
    exact listed_empty_iff.2 nofun

/-- A key without a value is added, and one with a value, which becomes the active one; it is
deleted, and stays active. -/
theorem deleted_key_stays_active : ¬ ∀ (env : Env) (cfg : Config)
    (r : List (((HeaderMap × KeyAction) × Outside) × AdminState)), cfg.keys = [] →
    cfg.apiKey = "" → IsKeyRun env (start cfg) r → Always HasActive (start cfg) r := by
  intro h
  have hr : IsKeyRun (envParsing sampleUsage []) (start {})
      [((([], .add "A" "" ""), sampleOutside), _), ((([], .add "B" "sk-2" ""), sampleOutside), _),
        ((([], .delete 1), sampleOutside), _)] := ⟨rfl, rfl, rfl, trivial⟩
  have hlisted : Listed "sk-2" [⟨"A", "", ""⟩] := (h _ {} _ rfl rfl hr).final
  obtain ⟨k, hk, hkey⟩ := (listed_iff_of_ne (by decide)).1 hlisted
  rw [List.mem_singleton.1 hk] at hkey
  exact absurd hkey (by decide)

/-- The result on a run in which two keys are added and the first one is deleted. -/
theorem activeListed_of_first :
    ∃ r, IsKeyRun (envParsing sampleUsage []) (start {}) r ∧ r.length = 3 ∧
      Always HasActive (start {}) r := by
  have hr : IsKeyRun (envParsing sampleUsage []) (start {})
      [((([], .add "A" "sk-1" ""), sampleOutside), _),
        ((([], .add "B" "sk-2" ""), sampleOutside), _), ((([], .delete 0), sampleOutside), _)] :=
    ⟨rfl, rfl, rfl, trivial⟩
  refine ⟨_, hr, rfl, (activeListed_iff rfl rfl hr).2 ⟨fun _ => trivial, fun _ => trivial, ?_⟩⟩
  exact ⟨fun _ _ => Or.inl rfl, trivial⟩

end AdminState

/-! ### `active_key` -/

/-- The mask of a long key has dots in it. -/
theorem mem_mask_of_long {token mask : String} (h : 14 < Utf8.len token)
    (hmask : maskToken token = some mask) : '.' ∈ mask.toList := by
  obtain ⟨a, b, c, d, -, -, -, -, rfl⟩ := (maskToken_eq_some_iff h).1 hmask
  simp [String.toList_append]

/-- `active_key` takes the mask of a key for a key exactly when it is long. -/
theorem mask_tells_iff {token mask : String} (hmask : maskToken token = some mask) :
    (mask ≠ "" && mask ≠ "***") = true ↔ 14 < Utf8.len token := by
  by_cases h : Utf8.len token ≤ 14
  · rw [maskToken_of_short h] at hmask
    cases hmask
    split_ifs <;> simp [Nat.not_lt.2 h]
  · have hdot := mem_mask_of_long (Nat.lt_of_not_le h) hmask
    have hne : mask ≠ "" := by
      rintro rfl
      exact absurd hdot (by decide)
    have hne' : mask ≠ "***" := by
      rintro rfl
      exact absurd hdot (by decide)
    simp [hne, hne', Nat.lt_of_not_le h]

/-- Some token of the pool tells a key exactly when some key is long. -/
theorem find_token_iff {p : KeyPool} {tokens : List String} (h : p.stateTokens = some tokens) :
    (List.find? (fun t => t ≠ "" && t ≠ "***") tokens).isSome = true ↔
      ∃ e ∈ p.entries, 14 < Utf8.len e.key := by
  rw [List.find?_isSome]
  unfold stateTokens at h
  generalize p.entries = es at h ⊢
  induction es generalizing tokens with
  | nil =>
    cases h
    simp
  | cons e es ih =>
    rw [List.mapM_cons] at h
    obtain ⟨mask, hmask, h⟩ := Option.bind_eq_some_iff.1 h
    obtain ⟨rest, hrest, h⟩ := Option.bind_eq_some_iff.1 h
    cases h
    simp only [List.mem_cons, exists_eq_or_imp, ih hrest, mask_tells_iff hmask]

namespace AdminState

/-- Some key is there to be used. -/
def HasKey (cfg : Config) : Prop := cfg.apiKey ≠ "" ∨ ∃ k ∈ cfg.keys, k.key ≠ ""

/-- **What `active_key` should find**: one of the keys whenever there is any, or else nothing. -/
def FindsActive (cfg : Config) (result : Option (Option String)) : Prop :=
  ∃ found, result = some found ∧
    (HasKey cfg → ∃ key, found = some key ∧ key ≠ "" ∧
      (key = cfg.apiKey ∨ ∃ k ∈ cfg.keys, k.key = key)) ∧
    (¬ HasKey cfg → found = none ∨ found = some "")

/-- The pool is one that `main` or a rebuild makes of the configuration, whatever has happened to
the health of its entries since. -/
def BuiltFrom (s : AdminState) : Prop :=
  s.pool.ids = (initialPool s.config).ids ∨ s.pool.ids = listedIds s.config.keys

/-- Without an `api_key`, the pool has the keys of the list. -/
theorem BuiltFrom.keys_eq {s : AdminState} (h : BuiltFrom s) (hkey : s.config.apiKey = "") :
    s.pool.entries.map KeyEntry.key = s.config.keys.map ConfigKey.key := by
  have hids : s.pool.ids = listedIds s.config.keys := by
    rcases h with h | h
    · rw [h, ids_initialPool, if_neg]
      exact fun hfallback => hfallback.2 hkey
    · exact h
  have hsnd := congrArg (List.map Prod.snd) hids
  rw [KeyPool.ids, listedIds, List.map_map, List.map_map] at hsnd
  exact hsnd

/-- A statement about the keys of the pool is one about those of the list. -/
theorem BuiltFrom.forall_iff {s : AdminState} (h : BuiltFrom s) (hkey : s.config.apiKey = "")
    (q : String → Prop) : (∀ e ∈ s.pool.entries, q e.key) ↔ ∀ k ∈ s.config.keys, q k.key := by
  rw [← List.forall_mem_map (f := KeyEntry.key), h.keys_eq hkey, List.forall_mem_map]

theorem BuiltFrom.exists_iff {s : AdminState} (h : BuiltFrom s) (hkey : s.config.apiKey = "")
    (q : String → Prop) : (∃ e ∈ s.pool.entries, q e.key) ↔ ∃ k ∈ s.config.keys, q k.key := by
  have hforall := h.forall_iff hkey fun key => ¬ q key
  rw [← not_iff_not]
  simpa using hforall

/-- The masks of the pool exist when every key of the list can be masked. -/
theorem BuiltFrom.tokens_iff {s : AdminState} (h : BuiltFrom s) (hkey : s.config.apiKey = "") :
    s.pool.stateTokens.isSome = true ↔ ∀ k ∈ s.config.keys, CutsFit k.key := by
  rw [isSome_stateTokens_iff, ← h.forall_iff hkey CutsFit]
  exact forall₂_congr fun e _ => isSome_maskToken_iff e.key

theorem cutsFit_empty : CutsFit "" := Or.inl (by decide)

/-- Without an `api_key`, some key is there exactly when not all of the list are empty. -/
theorem hasKey_iff {cfg : Config} (hkey : cfg.apiKey = "") :
    HasKey cfg ↔ ¬ ∀ k ∈ cfg.keys, k.key = "" := by
  unfold HasKey
  simp [hkey]

/-- To find nothing is right when there is no key. -/
theorem findsActive_none_iff {cfg : Config} (hkey : cfg.apiKey = "") :
    FindsActive cfg (some none) ↔ ∀ k ∈ cfg.keys, k.key = "" := by
  constructor
  · rintro ⟨found, ⟨⟩, hfound, -⟩
    by_contra hall
    obtain ⟨key, hnone, -⟩ := hfound ((hasKey_iff hkey).2 hall)
    cases hnone
  · intro hall
    exact ⟨_, rfl, fun h => absurd hall ((hasKey_iff hkey).1 h), fun _ => Or.inl rfl⟩

/-- To find the first key that is not empty is right. -/
theorem findsActive_firstKey {cfg : Config} (hkey : cfg.apiKey = "") :
    FindsActive cfg (some (some (firstKey cfg.keys))) := by
  refine ⟨_, rfl, fun h => ?_, fun h => Or.inr ?_⟩
  · have hne : firstKey cfg.keys ≠ "" :=
      fun hnone => (hasKey_iff hkey).1 h (firstKey_eq_empty_iff.1 hnone)
    exact ⟨_, rfl, hne, Or.inr ((listed_iff_of_ne hne).1 (listed_firstKey cfg.keys))⟩
  · rw [hasKey_iff hkey, not_not] at h
    exact congrArg some (firstKey_eq_empty_iff.2 h)

/-- **`active_key` finds what it should exactly when there is an `api_key`, or no key at all, or all
keys can be masked and one of them is long.** -/
theorem findsActive_iff {env : Env} {o : Outside} {s : AdminState} (hbuilt : BuiltFrom s) :
    FindsActive s.config ((exec (handle env o) activeKey s).map Prod.fst) ↔
      s.config.apiKey ≠ "" ∨ (∀ k ∈ s.config.keys, k.key = "") ∨
        ((∀ k ∈ s.config.keys, CutsFit k.key) ∧ ∃ k ∈ s.config.keys, 14 < Utf8.len k.key) := by
  rw [exec_activeKey]
  by_cases hkey : s.config.apiKey ≠ ""
  · rw [if_pos hkey]
    refine ⟨fun _ => Or.inl hkey, fun _ => ⟨_, rfl, fun _ => ⟨_, rfl, hkey, Or.inl rfl⟩, ?_⟩⟩
    exact fun hnone => absurd (Or.inl hkey) hnone
  · have hempty : s.config.apiKey = "" := not_not.1 hkey
    have hcuts := hbuilt.tokens_iff hempty
    rw [if_neg hkey, or_iff_right hkey]
    cases htokens : s.pool.stateTokens with
    | none =>
      -- a key cannot be masked
      have hpanic : ¬ ∀ k ∈ s.config.keys, CutsFit k.key := by
        rw [← hcuts, htokens]
        exact Bool.false_ne_true
      constructor
      · rintro ⟨found, ⟨⟩, -⟩
      · rintro (hall | ⟨hfit, -⟩)
        · exact absurd (fun k hk => (hall k hk).symm ▸ cutsFit_empty) hpanic
        · exact absurd hfit hpanic
    | some tokens =>
      have hfit : ∀ k ∈ s.config.keys, CutsFit k.key := hcuts.1 (by rw [htokens]; rfl)
      have hlong := (find_token_iff htokens).trans
        (hbuilt.exists_iff hempty fun key => 14 < Utf8.len key)
      rw [and_iff_right hfit, ← hlong, Option.map_some]
      cases hfind : List.find? (fun t => t ≠ "" && t ≠ "***") tokens with
      | none =>
        -- the masks tell of no key, so there should be none
        simp only [Option.isSome_none, Bool.false_eq_true, or_false]
        exact findsActive_none_iff hempty
      | some t =>
        simp only [Option.isSome_some, or_true, iff_true]
        exact findsActive_firstKey hempty

/-- The only key is short: `active_key` does not find it. -/
theorem short_key_not_found : ¬ ∀ (env : Env) (o : Outside) (s : AdminState), BuiltFrom s →
    FindsActive s.config ((exec (handle env o) activeKey s).map Prod.fst) := by
  intro h
  obtain ⟨found, hfound, hkey, -⟩ := h (envParsing sampleUsage []) sampleOutside
    (start { keys := [⟨"A", "sk-1", ""⟩] }) (Or.inl rfl)
  obtain ⟨key, rfl, -⟩ := hkey (Or.inr ⟨⟨"A", "sk-1", ""⟩, by simp [start], by decide⟩)
  cases hfound

/-- The result for a long key in cooldown. -/
theorem finds_long_key : FindsActive { keys := [⟨"A", "sk-1234567890123", ""⟩] }
    ((exec (handle (envParsing sampleUsage []) sampleOutside) activeKey
      { start { keys := [⟨"A", "sk-1234567890123", ""⟩] } with
        pool := (start { keys := [⟨"A", "sk-1234567890123", ""⟩] }).pool.markUnhealthy 0 0 503
      }).map Prod.fst) := by
  refine (findsActive_iff (Or.inr ?_)).2 (Or.inr (Or.inr ⟨?_, ?_⟩))
  · rfl
  · simp only [start, List.forall_mem_cons]
    refine ⟨(isSome_maskToken_iff _).1 (by decide), nofun⟩
  · exact ⟨_, List.mem_cons_self, by decide⟩

end AdminState

end Mybro
