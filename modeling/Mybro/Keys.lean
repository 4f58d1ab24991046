import Mybro.AdminRuns

/-!
# Editing the keys (`routes/keys_api.rs`)

`post_keys`, and the runs in which the requests that change the keys or the configuration follow one
another, each run to its end. The pool should always be the one that `main` would build from the
current configuration; `mirrors_iff` says in which runs it is.
-/

namespace Mybro

open Prog Runs KeyPool

/-- `KeyAction`. -/
inductive KeyAction
  | add (name key session : String)
  | update (index : ℕ) (name key session : String)
  | delete (index : ℕ)
  deriving DecidableEq, Repr

/-- The first key that is not empty, or else the empty text. -/
def firstKey (keys : List ConfigKey) : String :=
  ((keys.find? fun k => k.key ≠ "").map ConfigKey.key).getD ""

/-- The keys after a delete: never none at all. -/
def keysWithout (keys : List ConfigKey) (index : ℕ) : List ConfigKey :=
  if keys.eraseIdx index = [] then [⟨"Key 1", "", ""⟩] else keys.eraseIdx index

/-- The change `post_keys` makes to the configuration. -/
def KeyAction.apply (a : KeyAction) (cfg : Config) : Config :=
  match a with
  | .add name key session =>
    { cfg with
      keys := cfg.keys ++ [⟨name, key, session⟩]
      apiKey := if cfg.apiKey = "" then key else cfg.apiKey }
  | .update index name key session =>
    if index < cfg.keys.length then
      { cfg with
        keys := cfg.keys.set index ⟨name, key, session⟩
        apiKey := if index = 0 ∧ key ≠ "" then key else cfg.apiKey }
    else cfg
  | .delete index =>
    if index < cfg.keys.length then
      { cfg with
        keys := keysWithout cfg.keys index
        apiKey := if index = 0 then firstKey (keysWithout cfg.keys index) else cfg.apiKey }
    else cfg

/-- `post_keys`. -/
def postKeys (headers : HeaderMap) (a : KeyAction) : Admin Response := do
  let cfg ← act .loadConfig
  if checkAuth cfg headers then do
    let cfg ← act .loadConfig
    act (.storeConfig (a.apply cfg))
    -- the entries of the list alone: the fallback of `main` is missing here
    act (.rebuild ((a.apply cfg).keys.map KeyEntry.fromConfig))
    act .ping
    pure (jsonResponse (.object (JsonMap.ofList [("success", .bool true)])))
  else pure (authErrorResponse .openAI)

/-! ### What the actions leave of the keys -/

namespace KeyAction

/-- Whether the action adds a key. -/
def isAdd : KeyAction → Bool
  | add _ _ _ => true
  | _ => false

/-- An update keeps the number of keys, and nothing is deleted down to none. -/
theorem keys_apply_eq_nil (a : KeyAction) (cfg : Config) :
    (a.apply cfg).keys = [] ↔ a.isAdd = false ∧ cfg.keys = [] := by
  cases a with
  | add name key session => simp [apply, isAdd]
  | update index name key session =>
    by_cases hindex : index < cfg.keys.length
    · simp [apply, isAdd, hindex]
    · simp [apply, isAdd, hindex]
  | delete index =>
    by_cases hindex : index < cfg.keys.length
    · have hkeys : cfg.keys ≠ [] := List.ne_nil_of_length_pos (Nat.zero_lt_of_lt hindex)
      have hwithout : keysWithout cfg.keys index ≠ [] := by
        unfold keysWithout
        split_ifs with herase
        · nofun
        · exact herase
      simp [apply, isAdd, hindex, hkeys, hwithout]
    · simp [apply, isAdd, hindex]

/-- Where there are no keys and none is added, the configuration stays. -/
theorem apply_of_keys_eq_nil {a : KeyAction} {cfg : Config} (h : (a.apply cfg).keys = []) :
    a.apply cfg = cfg := by
  obtain ⟨hadd, hkeys⟩ := (a.keys_apply_eq_nil cfg).1 h
  cases a with
  | add name key session => cases hadd
  | update index name key session => simp [apply, hkeys]
  | delete index => simp [apply, hkeys]

end KeyAction

/-! ### Runs -/

/-- The requests that change the keys or the configuration. -/
inductive EditEvent
  | postKeys (headers : HeaderMap) (a : KeyAction)
  | postConfig (headers : HeaderMap) (u : ConfigUpdate)

namespace AdminState

/-- One request, run to its end. -/
def editStep (env : Env) (s : AdminState) (l : EditEvent × Outside) : Option AdminState :=
  match l.1 with
  | .postKeys headers a => (exec (handle env l.2) (postKeys headers a) s).map Prod.snd
  | .postConfig headers u => (exec (handle env l.2) (postConfig headers u) s).map Prod.snd

/-- A run of such requests. -/
abbrev IsEditRun (env : Env) (s : AdminState) (r : List ((EditEvent × Outside) × AdminState)) :
    Prop :=
  Runs.IsRun (Runs.ofFun (editStep env)) s r

/-- **The pool mirrors the configuration**: it has the names and keys of the pool that `main` would
build from it. -/
def Mirrors (s : AdminState) : Prop := s.pool.ids = (initialPool s.config).ids

theorem ids_initialPool (cfg : Config) :
    (initialPool cfg).ids =
      if cfg.keys = [] ∧ cfg.apiKey ≠ "" then [("Default", cfg.apiKey)]
      else listedIds cfg.keys := by
  unfold initialPool listedIds
  by_cases hkeys : cfg.keys = []
  · by_cases hkey : cfg.apiKey = ""
    · simp [hkeys, hkey, KeyPool.ids, KeyPool.new]
    · simp [hkeys, hkey, KeyPool.ids, KeyPool.new, KeyEntry.fromConfig, KeyEntry.id]
  · simp [hkeys, KeyPool.ids, KeyPool.new, KeyEntry.fromConfig, KeyEntry.id, Function.comp_def]

/-- The list of keys says all there is to say about the pool of a configuration: there are keys, or
nothing to fall back on. -/
def ListTells (cfg : Config) : Prop := cfg.keys ≠ [] ∨ cfg.apiKey = ""

theorem listTells_apply (a : KeyAction) (cfg : Config) :
    ListTells (a.apply cfg) ↔ a.isAdd = true ∨ ListTells cfg := by
  unfold ListTells
  by_cases hkeys : (a.apply cfg).keys = []
  · obtain ⟨hadd, -⟩ := (a.keys_apply_eq_nil cfg).1 hkeys
    rw [KeyAction.apply_of_keys_eq_nil hkeys, hadd]
    simp
  · have hold : a.isAdd = true ∨ cfg.keys ≠ [] := by
      rw [a.keys_apply_eq_nil, not_and_or, Bool.not_eq_false] at hkeys
      exact hkeys
    exact ⟨fun _ => hold.imp_right Or.inl, fun _ => Or.inl hkeys⟩

/-- A pool built from the list mirrors the configuration when the list tells all. -/
theorem listedIds_eq_iff (cfg : Config) :
    listedIds cfg.keys = (initialPool cfg).ids ↔ ListTells cfg := by
  rw [ids_initialPool]
  unfold ListTells
  by_cases hkeys : cfg.keys = []
  · by_cases hkey : cfg.apiKey = ""
    · simp [hkeys, hkey]
    · simp [hkeys, hkey, listedIds]
  · simp [hkeys]

/-- Two configurations with the same pool. -/
theorem ids_initialPool_eq_iff {cfg cfg' : Config} (hkeys : cfg'.keys = cfg.keys) :
    (initialPool cfg).ids = (initialPool cfg').ids ↔ cfg.keys ≠ [] ∨ cfg'.apiKey = cfg.apiKey := by
  rw [ids_initialPool, ids_initialPool, hkeys]
  by_cases h : cfg.keys = []
  · by_cases hold : cfg.apiKey = ""
    · by_cases hnew : cfg'.apiKey = ""
      · simp [h, hold, hnew]
      · simp [h, hold, hnew, listedIds]
    · by_cases hnew : cfg'.apiKey = ""
      · simp [h, hold, hnew, listedIds, Ne.symm hold]
      · simp [h, hold, hnew, eq_comm]
  · simp [h]

/-! #### What a request does to the pool -/

section Spec

variable {env : Env} {o : Outside} {s t : AdminState}

/-- **`post_keys`** changes the configuration and always rebuilds the pool from the list. -/
theorem exec_postKeys (headers : HeaderMap) (a : KeyAction) :
    (exec (handle env o) (postKeys headers a) s).map Prod.snd =
      some (if checkAuth s.config headers then
        { s with
          config := a.apply s.config
          pool := s.pool.rebuild ((a.apply s.config).keys.map KeyEntry.fromConfig) }
        else s) := by
  unfold postKeys
  rw [exec_perform_of _ (t := s) (r := s.config) rfl]
  by_cases hauth : checkAuth s.config headers = true
  · rw [if_pos hauth, if_pos hauth]
    rfl
  · rw [if_neg hauth, if_neg hauth]
    rfl

/-- The condition on a request under which it leaves the pool a mirror of the configuration: one
that rebuilds the pool leaves keys in the list or no fallback, and one that does not leaves the
fallback alone where it is used. -/
def KeepsMirror (s : AdminState) (l : EditEvent × Outside) : Prop :=
  match l.1 with
  | .postKeys headers a =>
    checkAuth s.config headers = true →
      a.isAdd = true ∨ s.config.keys ≠ [] ∨ s.config.apiKey = ""
  | .postConfig headers u =>
    checkAuth s.config headers = true →
      match u.keys with
      | some keys => keys ≠ [] ∨ u.apiKey.getD s.config.apiKey = ""
      | none => s.config.keys ≠ [] ∨ u.apiKey.getD s.config.apiKey = s.config.apiKey

/-- **What a step does**: from a mirror it leads to a mirror exactly when it meets `KeepsMirror`. -/
theorem editStep_spec {l : EditEvent × Outside} (hs : Mirrors s) (h : editStep env s l = some t) :
    Mirrors t ↔ s.KeepsMirror l := by
  obtain ⟨ev, o⟩ := l
  cases ev with
  | postKeys headers a =>
    have ht := (exec_postKeys headers a).symm.trans h
    unfold KeepsMirror
    by_cases hauth : checkAuth s.config headers = true
    · rw [if_pos hauth] at ht
      cases ht
      unfold Mirrors
      rw [ids_rebuild, listedIds_eq_iff, listTells_apply]
      exact ⟨fun h _ => h, fun h => h hauth⟩
    · rw [if_neg hauth] at ht
      cases ht
      exact ⟨fun _ h => absurd h hauth, fun _ => hs⟩
  | postConfig headers u =>
    obtain ⟨resp, t', ht', hconfig, hpool, -⟩ := @exec_postConfig env o s headers u
    have ht : t' = t := by
      simp only [editStep, ht', Option.map_some, Option.some.injEq] at h
      exact h
    subst ht
    unfold KeepsMirror Mirrors
    rw [hconfig, hpool]
    unfold configAfter
    by_cases hauth : checkAuth s.config headers = true
    · simp only [hauth, if_true]
      unfold poolAfter
      cases hkeys : u.keys with
      | some keys =>
        have hnew : (u.apply s.config).keys = keys := by simp [ConfigUpdate.apply, hkeys]
        rw [Option.isSome_some, if_pos rfl, ids_rebuild, listedIds_eq_iff, ListTells, hnew]
        exact ⟨fun h _ => h, fun h => h trivial⟩
      | none =>
        have hsame : (u.apply s.config).keys = s.config.keys := by simp [ConfigUpdate.apply, hkeys]
        rw [Option.isSome_none, if_neg Bool.false_ne_true, hs, ids_initialPool_eq_iff hsame]
        exact ⟨fun h _ => h, fun h => h trivial⟩
    · simp only [hauth, Bool.false_eq_true, if_false]
      exact ⟨fun _ h => absurd h (by simp), fun _ => hs⟩

end Spec

/-- **Throughout a run the pool mirrors the configuration exactly when every request meets
`KeepsMirror`.** -/
theorem mirrors_iff {env : Env} {cfg : Config} {r : List ((EditEvent × Outside) × AdminState)}
    (hr : IsEditRun env (start cfg) r) :
    Always Mirrors (start cfg) r ↔ EachStep KeepsMirror (start cfg) r := by
  refine always_iff_eachStep (J := fun _ => True) (fun _ _ _ _ _ => trivial) ?_ trivial ?_ hr
  · intro s l t _ hs hst
    exact editStep_spec hs hst
  · rfl

/-- With a key in `api_key` alone, a delete of a key that does not exist empties the pool. -/
theorem delete_of_nothing_empties_pool :
    ∃ r, IsEditRun (envParsing sampleUsage []) (start keyedConfig) r ∧
      (final (start keyedConfig) r).config = keyedConfig ∧
      (final (start keyedConfig) r).pool.ids = [] ∧
      (initialPool keyedConfig).ids = [("Default", "sk-1")] ∧
      ¬ Always Mirrors (start keyedConfig) r := by
  have hr : IsEditRun (envParsing sampleUsage []) (start keyedConfig)
      [((.postKeys [] (.delete 0), sampleOutside), _)] := ⟨rfl, trivial⟩
  refine ⟨_, hr, rfl, rfl, rfl, fun h => ?_⟩
  have hfinal : ([] : List (String × String)) = [("Default", "sk-1")] := h.final
  cases hfinal

/-- The result on a run in which a key is added, and then the list of keys replaced. -/
theorem mirrors_of_listed :
    ∃ r, IsEditRun (envParsing sampleUsage []) (start keyedConfig) r ∧ r.length = 2 ∧
      Always Mirrors (start keyedConfig) r := by
  have hr : IsEditRun (envParsing sampleUsage []) (start keyedConfig)
      [((.postKeys [] (.add "A" "sk-2" ""), sampleOutside), _),
        ((.postConfig [] { keys := some [⟨"B", "sk-3", ""⟩] }, sampleOutside), _)] :=
    ⟨rfl, rfl, trivial⟩
  refine ⟨_, hr, rfl, (mirrors_iff hr).2 ⟨fun _ => ?_, fun _ => ?_, trivial⟩⟩
  · exact Or.inl rfl
  · exact Or.inl (by decide)

/-! ### Edits of keys that do not exist -/

/-- The action is for a key that does not exist. -/
def OutOfRange (cfg : Config) : KeyAction → Prop
  | .add _ _ _ => False
  | .update index _ _ _ => cfg.keys.length ≤ index
  | .delete index => cfg.keys.length ≤ index

/-- The configuration stays. -/
theorem apply_of_outOfRange {cfg : Config} {a : KeyAction} (h : OutOfRange cfg a) :
    a.apply cfg = cfg := by
  cases a with
  | add name key session => exact h.elim
  | update index name key session => exact if_neg (Nat.not_lt.2 h)
  | delete index => exact if_neg (Nat.not_lt.2 h)

/-- Nothing has happened to the pool since it was built from the list of keys: all entries are
healthy, and the cursor is at the first one. -/
def FreshFromList (s : AdminState) : Prop :=
  s.pool = .new (s.config.keys.map KeyEntry.fromConfig)

instance (s : AdminState) : Decidable (FreshFromList s) :=
  inferInstanceAs (Decidable (s.pool = .new _))

/-- **An edit of a key that does not exist leaves the configuration and the pool as they were
exactly when it is refused or the pool is as good as new**: the pool is built again from the list of
keys even if nothing has changed. -/
theorem outOfRange_unchanged_iff {env : Env} {o : Outside} {s : AdminState} {headers : HeaderMap}
    {a : KeyAction} (hout : OutOfRange s.config a) :
    ((exec (handle env o) (postKeys headers a) s).map fun r => (r.2.config, r.2.pool)) =
        some (s.config, s.pool) ↔
      (checkAuth s.config headers = true → FreshFromList s) := by
  have hexec : ((exec (handle env o) (postKeys headers a) s).map fun r =>
      (r.2.config, r.2.pool)) = _ :=
    (Option.map_map ..).symm.trans (congrArg (Option.map fun t : AdminState => (t.config, t.pool))
      (exec_postKeys headers a))
  rw [hexec, apply_of_outOfRange hout]
  by_cases hauth : checkAuth s.config headers = true
  · rw [if_pos hauth]
    simp only [hauth, Option.map_some, Option.some.injEq, Prod.mk.injEq, true_and, forall_const]
    exact eq_comm
  · rw [if_neg hauth]
    exact ⟨fun _ h => absurd h hauth, fun _ => rfl⟩

/-- Two keys, the first in cooldown. -/
def coolingState : AdminState :=
  let s := start { keys := [⟨"A", "sk-1", ""⟩, ⟨"B", "sk-2", ""⟩] }
  { s with pool := s.pool.markUnhealthy 0 0 503 }

/-- A delete of the hundredth key ends the cooldown of the first. -/
theorem delete_of_nothing_heals : ¬ ∀ (env : Env) (o : Outside) (s : AdminState)
    (headers : HeaderMap) (a : KeyAction), OutOfRange s.config a →
    ((exec (handle env o) (postKeys headers a) s).map fun r => (r.2.config, r.2.pool)) =
      some (s.config, s.pool) := by
  intro h
  have hpool := congrArg (Option.map Prod.snd) (h (envParsing sampleUsage []) sampleOutside
    coolingState [] (.delete 99) (by unfold OutOfRange; decide))
  have hfresh : FreshFromList coolingState := (Option.some.inj hpool).symm
  exact absurd hfresh (by decide)

/-- The result on an update of a key that does not exist, with a pool as good as new. -/
theorem unchanged_of_fresh :
    ((exec (handle (envParsing sampleUsage []) sampleOutside)
      (postKeys [] (.update 2 "C" "sk-3" "")) (start { keys := [⟨"A", "sk-1", ""⟩] })).map
        fun r => (r.2.config, r.2.pool)) =
      some ((start { keys := [⟨"A", "sk-1", ""⟩] }).config,
        (start { keys := [⟨"A", "sk-1", ""⟩] }).pool) :=
  (outOfRange_unchanged_iff (by unfold OutOfRange; decide)).2 fun _ => by decide

end AdminState

end Mybro
