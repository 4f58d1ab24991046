import Mybro.Admin
import Mybro.Lib.Runs

/-!
# Runs of the administrative side

The state that the functions of `usage.rs` and the handlers of the settings share, with the meaning
of their effects in it (`AdminState.handle`), and the runs in which startup, the background refresh
and the requests follow one another, each run to its end. The ghost field `lastReply` is the last
usage reply that upstream gave in full.

Two questions are answered about these runs: when the effective concurrency is the one that the
override and the last report call for (`effectiveMeant_iff`), and when it is the limit in force
(`shownInForce_iff`).
-/

namespace Mybro

open Prog Runs

/-! ### The state -/

/-- What a call meets outside: the readings of the clock, and the status and body of the one reply
it can ask for. -/
structure Outside where
  clock : ℕ → ℕ
  status : Except String ℕ
  body : Except String (List UInt8)

/-- The usage reply, when it is given in full: a success whose body can be read and parsed. -/
def Outside.reply (env : Env) (o : Outside) : Option Value :=
  match o.status with
  | .ok status =>
    if isSuccess status then
      match o.body with
      | .ok bytes => (env.fromSlice bytes).toOption
      | .error _ => none
    else none
  | .error _ => none

/-- The state of the administrative side; `readings` counts the clock readings of the call under
way. -/
structure AdminState where
  usage : Option CachedUsage
  concurrency : Option CachedConcurrency
  effective : Option Effective
  throttled : UInt64
  guardHeld : Bool
  config : Config
  pool : KeyPool
  gate : Gate
  handoffSize : ℕ
  handoffTtl : ℕ
  readings : ℕ
  lastReply : Option Value

/-- The key pool `main` builds. -/
def initialPool (cfg : Config) : KeyPool :=
  KeyPool.new <|
    if cfg.keys = [] then
      if cfg.apiKey ≠ "" then [KeyEntry.fromConfig ⟨"Default", cfg.apiKey, ""⟩] else []
    else cfg.keys.map KeyEntry.fromConfig

namespace AdminState

/-- The state `main` builds from the configuration. -/
def start (cfg : Config) : AdminState where
  usage := none
  concurrency := none
  effective := none
  throttled := 0
  guardHeld := false
  config := cfg
  pool := initialPool cfg
  gate := Gate.new none
  handoffSize := handoffCacheSize
  handoffTtl := cfg.handoffCacheTtlDuration
  readings := 0
  lastReply := none

/-- The meaning of an effect. The guard can be taken when it is free, and the tokens of the pool
exist when none of them panics. -/
def handle (env : Env) (o : Outside) :
    (e : AdminEff) → AdminState → Option (AdminAnswer e × AdminState)
  | .loadUsage, s => some (s.usage, s)
  | .storeUsage c, s => some ((), { s with usage := some c })
  | .loadConcurrency, s => some (s.concurrency, s)
  | .storeConcurrency c, s => some ((), { s with concurrency := some c })
  | .loadEffective, s => some (s.effective, s)
  | .storeEffective e, s => some ((), { s with effective := some e })
  | .throttledCount, s => some (s.throttled, s)
  | .resetThrottled, s => some ((), { s with throttled := 0 })
  | .lockFetch, s => if s.guardHeld then none else some ((), { s with guardHeld := true })
  | .unlockFetch, s => some ((), { s with guardHeld := false })
  | .instant, s => some (o.clock s.readings, { s with readings := s.readings + 1 })
  -- the report counts from the moment upstream gives it, before anything is cached
  | .getUsage _, s => some (o.status, { s with lastReply := (o.reply env).or s.lastReply })
  | .readBody, s => some (o.body, s)
  | .loadConfig, s => some (s.config, s)
  | .storeConfig cfg, s => some ((), { s with config := cfg })
  | .keypoolTokens, s => s.pool.stateTokens.map fun tokens => (tokens, s)
  | .rebuild entries, s => some ((), { s with pool := s.pool.rebuild entries })
  | .gateActive, s => some (s.gate.active, s)
  | .gateQueued, s => some (s.gate.queued, s)
  | .gateThrottled, s => some (s.gate.throttled, s)
  | .reconcile l, s => some ((), { s with gate := s.gate.reconcile l })
  | .resizeHandoffCache n ttl, s => some ((), { s with handoffSize := n, handoffTtl := ttl })
  | .ping, s => some ((), s)

end AdminState

/-- What happens: the sizing at startup with the override `main` has read, a round of the background
refresh, and the two requests. -/
inductive AdminEvent
  | startup (overrideConcurrency : UInt32)
  | refresh
  | getConcurrency (headers : HeaderMap) (fresh : Bool)
  | postConfig (headers : HeaderMap) (u : ConfigUpdate)

namespace AdminState

/-- One event, run to its end; `none` when masking a key panics on the way. -/
def step (env : Env) (s : AdminState) (l : AdminEvent × Outside) : Option AdminState :=
  let s := { s with readings := 0 }
  match l.1 with
  | .startup c => (exec (handle env l.2) (startupSizing env c) s).map Prod.snd
  | .refresh => (exec (handle env l.2) (backgroundRefresh env) s).map Prod.snd
  | .getConcurrency headers fresh =>
    (exec (handle env l.2) (getConcurrency env headers fresh) s).map Prod.snd
  | .postConfig headers u => (exec (handle env l.2) (postConfig headers u) s).map Prod.snd

/-- A run of the administrative side. -/
abbrev IsRun (env : Env) (s : AdminState) (r : List ((AdminEvent × Outside) × AdminState)) : Prop :=
  Runs.IsRun (Runs.ofFun (step env)) s r

/-! ### What the functions do to the state -/

section Spec

variable {env : Env} {o : Outside} {s t : AdminState}

/-- `get_effective_concurrency` as a function of the state. -/
def effectiveAt (s : AdminState) (configOverride : UInt32) : Effective :=
  match s.effective, s.concurrency with
  | some eff, _ => eff
  | none, some conc => computeEffectiveFromConc conc.data configOverride
  | none, none => ⟨none, some (UInt32.ofNat defaultConcurrencyLimit), false⟩

@[simp] theorem exec_getEffectiveConcurrency (c : UInt32) :
    exec (handle env o) (getEffectiveConcurrency c) s = some (s.effectiveAt c, s) := by
  unfold effectiveAt
  obtain ⟨usage, concurrency, effective⟩ := s
  cases effective with
  | some eff => rfl
  | none => cases concurrency <;> rfl

@[simp] theorem exec_resizeGate (c : UInt32) :
    exec (handle env o) (resizeGate c) s =
      some ((), { s with gate := s.gate.reconcile (s.effectiveAt c).target }) := by
  unfold resizeGate
  rw [exec_bind, exec_getEffectiveConcurrency]
  rfl

/-! #### `fetch_usage` -/

/-- The usage data that may still be served at a reading of the clock. -/
def youngUsageAt (s : AdminState) (o : Outside) (fresh : Bool) (n : ℕ) : Option UsageData :=
  if fresh then none
  else s.usage.bind fun c => if isYoung c.fetchedAt (o.clock n) then some c.data else none

/-- The usage data that `fetch_usage` returns: from the cache if it is young, else from upstream,
else from the cache all the same. -/
def obtained (env : Env) (s : AdminState) (o : Outside) (fresh : Bool) (n : ℕ) : Option UsageData :=
  ((s.youngUsageAt o fresh n).or (s.youngUsageAt o fresh (n + 1))).or
    (((o.reply env).map UsageData.ofValue).or (s.usage.map CachedUsage.data))

/-- A check of the usage cache reads the clock if there is something to check. -/
theorem exec_youngUsage (fresh : Bool) :
    exec (handle env o) (youngUsage fresh) s = some (s.youngUsageAt o fresh s.readings,
      { s with readings := if fresh ∨ s.usage = none then s.readings else s.readings + 1 }) := by
  obtain ⟨usage⟩ := s
  cases fresh with
  | true => rfl
  | false => cases usage <;> rfl

/-- What a call that changes only the usage cache leaves alone. -/
def OnlyUsage (s t : AdminState) : Prop :=
  t = { s with
    usage := t.usage, throttled := t.throttled, readings := t.readings, lastReply := t.lastReply }

/-- The last report is the one in the usage cache. -/
def Tracked (s : AdminState) : Prop := s.lastReply = s.usage.map fun c => c.data.raw

/-- A reply in hand goes to the cache. -/
theorem exec_keepUsage (v : Value) :
    ∃ t, exec (handle env o) (keepUsage v) s = some (some (UsageData.ofValue v), t) ∧
      OnlyUsage s t ∧ t.lastReply = s.lastReply ∧
      ∃ now, t.usage = some ⟨UsageData.ofValue v, now, windowStart v⟩ := by
  unfold keepUsage
  rw [exec_perform_of _ (t := s) (r := s.usage) rfl]
  by_cases hw : Option.map CachedUsage.windowStartedAt s.usage = some (windowStart v)
  · rw [if_neg (not_not.2 hw)]
    exact ⟨_, rfl, rfl, rfl, _, rfl⟩
  · rw [if_pos hw]
    exact ⟨_, rfl, rfl, rfl, _, rfl⟩

theorem usage_of_young {fresh : Bool} {n : ℕ} {data : UsageData}
    (h : s.youngUsageAt o fresh n = some data) : s.usage.map CachedUsage.data = some data := by
  unfold youngUsageAt at h
  split_ifs at h
  obtain ⟨c, hc, hdata⟩ := Option.bind_eq_some_iff.1 h
  split_ifs at hdata
  rw [hc]
  exact hdata

/-- **The call to upstream in `fetch_usage`**: a reply given in full goes to the cache, and without
one the cache is what remains. -/
theorem exec_requestUsage (key : String) (hs : s.Tracked) :
    ∃ t, exec (handle env o) (requestUsage env key) s =
        some (((o.reply env).map UsageData.ofValue).or (s.usage.map CachedUsage.data), t) ∧
      OnlyUsage s t ∧ t.Tracked ∧
      t.usage.map CachedUsage.data =
        ((o.reply env).map UsageData.ofValue).or (s.usage.map CachedUsage.data) := by
  -- without a reply nothing changes
  have hstale : o.reply env = none → ∃ t, exec (handle env o) staleUsage
      { s with lastReply := (o.reply env).or s.lastReply } =
        some (((o.reply env).map UsageData.ofValue).or (s.usage.map CachedUsage.data), t) ∧
      OnlyUsage s t ∧ t.Tracked ∧ t.usage.map CachedUsage.data =
        ((o.reply env).map UsageData.ofValue).or (s.usage.map CachedUsage.data) := by
    intro hno
    rw [hno]
    exact ⟨s, rfl, rfl, hs, rfl⟩
  unfold requestUsage
  rw [exec_perform_of _ (t := { s with lastReply := (o.reply env).or s.lastReply })
    (r := o.status) rfl]
  cases hstatus : o.status with
  | error e => exact hstale (by rw [Outside.reply, hstatus])
  | ok status =>
    by_cases hsuccess : isSuccess status = true
    · simp only [hsuccess, if_true]
      rw [exec_perform_of _ (t := { s with lastReply := (o.reply env).or s.lastReply })
        (r := o.body) rfl]
      cases hbody : o.body with
      | error e => exact hstale (by simp [Outside.reply, hstatus, hbody])
      | ok bytes =>
        cases hparse : env.fromSlice bytes with
        | error e =>
          simp only [hparse]
          exact hstale (by simp [Outside.reply, hstatus, hbody, hparse, Except.toOption])
        | ok v =>
          have hreply : o.reply env = some v := by
            simp [Outside.reply, hstatus, hsuccess, hbody, hparse, Except.toOption]
          simp only [hparse, hreply]
          obtain ⟨t, ht, honly, hlast, now, husage⟩ :=
            @exec_keepUsage env o { s with lastReply := some v } v
          exact ⟨t, ht, honly, by rw [Tracked, hlast, husage]; rfl, by rw [husage]; rfl⟩
    · simp only [hsuccess]
      exact hstale (by simp [Outside.reply, hstatus, hsuccess])

/-- `fetch_usage` under the guard: its check comes after the one made before. -/
theorem exec_fetchUsageGuarded (key : String) (fresh : Bool) (hs : s.Tracked) :
    ∃ t, exec (handle env o) (fetchUsageGuarded env key fresh) s =
        some ((s.youngUsageAt o fresh s.readings).or
          (((o.reply env).map UsageData.ofValue).or (s.usage.map CachedUsage.data)), t) ∧
      OnlyUsage s t ∧ t.Tracked ∧
      t.usage.map CachedUsage.data = (s.youngUsageAt o fresh s.readings).or
        (((o.reply env).map UsageData.ofValue).or (s.usage.map CachedUsage.data)) := by
  unfold fetchUsageGuarded
  rw [exec_bind, exec_youngUsage]
  cases hyoung : s.youngUsageAt o fresh s.readings with
  | some data => exact ⟨_, rfl, rfl, hs, usage_of_young hyoung⟩
  | none =>
    obtain ⟨t, ht, honly, htracked, husage⟩ := @exec_requestUsage env o
      { s with readings := if fresh ∨ s.usage = none then s.readings else s.readings + 1 } key hs
    exact ⟨t, ht, honly, htracked, husage⟩

/-- **`fetch_usage`**: with the guard free the call completes and returns the data `obtained`, which
the cache then holds. -/
theorem exec_fetchUsage (key : String) (fresh : Bool) (hs : s.Tracked)
    (hfree : s.guardHeld = false) :
    ∃ t, exec (handle env o) (fetchUsage env key fresh) s =
        some (s.obtained env o fresh s.readings, t) ∧
      OnlyUsage s t ∧ t.Tracked ∧
      t.usage.map CachedUsage.data = s.obtained env o fresh s.readings := by
  unfold fetchUsage obtained
  rw [exec_bind, exec_youngUsage]
  cases hfirst : s.youngUsageAt o fresh s.readings with
  | some data => exact ⟨_, rfl, rfl, hs, usage_of_young hfirst⟩
  | none =>
    -- the second check reads the clock again, if there is anything to check
    have hsecond : s.youngUsageAt o fresh
        (if fresh ∨ s.usage = none then s.readings else s.readings + 1) =
          s.youngUsageAt o fresh (s.readings + 1) := by
      unfold youngUsageAt
      split_ifs with h1 h2 <;> simp_all
    obtain ⟨t, ht, honly, htracked, husage⟩ := @exec_fetchUsageGuarded env o
      { s with
        readings := if fresh ∨ s.usage = none then s.readings else s.readings + 1
        guardHeld := true } key fresh hs
    refine ⟨{ t with guardHeld := false }, ?_, ?_, htracked, ?_⟩
    · -- the guard is taken, and dropped at the end
      show exec (handle env o) (act .lockFetch >>= _) _ = _
      rw [exec_perform_of _ (t := { s with
        readings := if fresh ∨ s.usage = none then s.readings else s.readings + 1
        guardHeld := true }) (r := ()) (by simp [handle, hfree]), exec_bind, ht, ← hsecond]
      rfl
    · unfold OnlyUsage at honly ⊢
      rw [honly, hfree]
    · rw [← hsecond]
      exact husage

/-! #### `fetch_concurrency` -/

/-- The concurrency data that may still be served at the first reading of the clock. -/
def youngConcurrencyAt (s : AdminState) (o : Outside) (fresh : Bool) : Option LastConcurrency :=
  if fresh then none
  else s.concurrency.bind fun c => if isYoung c.fetchedAt (o.clock 0) then some c.data else none

/-- The usage data from which a call of `fetch_concurrency` computes the effective concurrency anew:
none when it is answered from its own cache, and none when there is no usage data at all. -/
def newData (env : Env) (s : AdminState) (o : Outside) (fresh : Bool) : Option UsageData :=
  match s.youngConcurrencyAt o fresh with
  | some _ => none
  | none => s.obtained env o fresh 1

/-- The effective concurrency for the override 0 and a reply, or for no reply. -/
def effectiveOf (last : Option Value) : Effective :=
  computeEffectiveFromConc ((last.map LastConcurrency.ofValue).getD noConcurrency) 0

/-- The invariant between two events: the guard is free, and the three caches all hold what the last
reply said, or nothing. -/
structure Inv (s : AdminState) : Prop where
  free : s.guardHeld = false
  tracked : s.Tracked
  caches : (s.lastReply = none ∧ s.concurrency = none ∧ s.effective = none) ∨
    ∃ v now, s.lastReply = some v ∧ s.concurrency = some ⟨LastConcurrency.ofValue v, now⟩ ∧
      s.effective = some (effectiveOf (some v))

theorem inv_start (cfg : Config) : Inv (start cfg) := ⟨rfl, rfl, Or.inl ⟨rfl, rfl, rfl⟩⟩

/-- The override does not matter: the effective concurrency is the one for the override 0. -/
theorem Inv.effectiveAt_eq (hs : Inv s) (c : UInt32) :
    s.effectiveAt c = effectiveOf s.lastReply := by
  unfold effectiveAt
  rcases hs.caches with ⟨hlast, hconc, heff⟩ | ⟨v, now, hlast, hconc, heff⟩
  · rw [hlast, hconc, heff]
    rfl
  · rw [hlast, heff]

theorem exec_youngConcurrency (fresh : Bool) (hn : s.readings = 0) :
    exec (handle env o) (youngConcurrency fresh) s = some (s.youngConcurrencyAt o fresh,
      { s with readings := if fresh ∨ s.concurrency = none then 0 else 1 }) := by
  obtain ⟨usage, concurrency⟩ := s
  cases hn
  cases fresh with
  | true => rfl
  | false => cases concurrency <;> rfl

/-- In a state with the invariant nothing depends on which readings come first. -/
theorem Inv.obtained_eq (hs : Inv s) (fresh : Bool) :
    s.obtained env o fresh (if fresh ∨ s.concurrency = none then 0 else 1) =
      s.obtained env o fresh 1 := by
  by_cases hfresh : fresh = true
  · simp [obtained, youngUsageAt, hfresh]
  · rcases hs.caches with ⟨hlast, hconc, -⟩ | ⟨v, now, -, hconc, -⟩
    · have husage : s.usage = none := by simpa [Tracked, hlast] using hs.tracked.symm
      simp [obtained, youngUsageAt, husage]
    · simp [hfresh, hconc]

/-- With usage data in hand, `fetch_concurrency` fills its two caches from it. -/
theorem exec_keepConcurrency (u : UsageData) :
    ∃ t, exec (handle env o) (keepConcurrency u) s = some (some (LastConcurrency.ofValue u.raw), t) ∧
      ∃ now, t = { s with
        readings := s.readings + 1
        concurrency := some ⟨LastConcurrency.ofValue u.raw, now⟩
        effective := some (effectiveOf (some u.raw)) } :=
  ⟨_, rfl, _, rfl⟩

/-- `fetch_usage` on behalf of `fetch_concurrency`, after its check of the cache. -/
theorem Inv.exec_fetchUsage (hs : Inv s) (key : String) (fresh : Bool) :
    ∃ t, exec (handle env o) (fetchUsage env key fresh)
        { s with readings := if fresh ∨ s.concurrency = none then 0 else 1 } =
          some (s.obtained env o fresh 1, t) ∧
      OnlyUsage s t ∧ t.Tracked ∧ t.lastReply = (s.obtained env o fresh 1).map UsageData.raw := by
  obtain ⟨t, ht, honly, htracked, husage⟩ := @AdminState.exec_fetchUsage env o
    { s with readings := if fresh ∨ s.concurrency = none then 0 else 1 } key fresh hs.tracked hs.free
  have hdata : ({ s with readings := if fresh ∨ s.concurrency = none then 0 else 1 } :
      AdminState).obtained env o fresh (if fresh ∨ s.concurrency = none then 0 else 1) =
        s.obtained env o fresh 1 := hs.obtained_eq fresh
  refine ⟨t, ht.trans (congrArg (fun d => some (d, t)) hdata), honly, htracked, ?_⟩
  rw [htracked, ← hdata, ← husage, Option.map_map]
  rfl

/-- Without any usage data there has been no reply. -/
theorem Inv.lastReply_of_obtained (hs : Inv s) {fresh : Bool} {n : ℕ}
    (h : s.obtained env o fresh n = none) : s.lastReply = none := by
  have hno : s.usage.map CachedUsage.data = none :=
    (Option.or_eq_none_iff.1 (Option.or_eq_none_iff.1 h).2).2
  rw [hs.tracked, Option.map_eq_none_iff.1 hno]
  rfl

/-- **`fetch_concurrency`**: the call completes, keeps the invariant, and leaves configuration, pool
and gate alone. -/
theorem exec_fetchConcurrency (hs : Inv s) (hn : s.readings = 0) (key : String) (fresh : Bool) :
    ∃ d t, exec (handle env o) (fetchConcurrency env key fresh) s = some (d, t) ∧ Inv t ∧
      t.config = s.config ∧ t.gate = s.gate ∧
      t.lastReply = ((s.newData env o fresh).map UsageData.raw).or s.lastReply ∧
      (d = none → s.newData env o fresh = none) := by
  unfold fetchConcurrency newData
  rw [exec_bind, exec_youngConcurrency fresh hn]
  cases hyoung : s.youngConcurrencyAt o fresh with
  | some c => exact ⟨_, _, rfl, ⟨hs.free, hs.tracked, hs.caches⟩, rfl, rfl, rfl, nofun⟩
  | none =>
    obtain ⟨t, ht, honly, htracked, hraw⟩ := @Inv.exec_fetchUsage env o s hs key fresh
    have hfree : t.guardHeld = false := by
      rw [honly]
      exact hs.free
    have hconfig : t.config = s.config := by rw [honly]
    have hgate : t.gate = s.gate := by rw [honly]
    show ∃ d t, exec (handle env o) (fetchUsage env key fresh >>= _) _ = some (d, t) ∧ _
    rw [exec_bind, ht]
    cases hobtained : s.obtained env o fresh 1 with
    | none =>
      -- nothing was ever reported, so the two caches are still empty
      rw [hobtained] at hraw
      have hlast : s.lastReply = none := hs.lastReply_of_obtained hobtained
      refine ⟨none, t, rfl, ⟨hfree, htracked, Or.inl ⟨hraw, ?_⟩⟩, hconfig, hgate, ?_, fun _ => rfl⟩
      · rcases hs.caches with ⟨-, hconc, heff⟩ | ⟨v, now, hv, -⟩
        · rw [honly]
          exact ⟨hconc, heff⟩
        · rw [hlast] at hv
          cases hv
      · rw [hraw, hlast]
        rfl
    | some u =>
      rw [hobtained] at hraw
      obtain ⟨t', ht', now, rfl⟩ := @exec_keepConcurrency env o t u
      exact ⟨_, _, ht', ⟨hfree, htracked, Or.inr ⟨u.raw, now, hraw, rfl, rfl⟩⟩, hconfig, hgate, hraw,
        nofun⟩

/-! #### The events -/

/-- The key `usableKey` finds, if any; there is no answer when masking a key of the pool panics. -/
def keyAt (s : AdminState) : Option (Option String) :=
  if s.config.apiKey ≠ "" then some (some s.config.apiKey)
  else s.pool.stateTokens.map fun tokens =>
    ((tokens.find? fun t => t ≠ "" && t ≠ "***").map fun _ =>
      ((s.config.keys.find? fun k => k.key ≠ "").map ConfigKey.key).getD "").filter fun k => k ≠ ""

theorem exec_usableKey :
    exec (handle env o) usableKey s = s.keyAt.map fun key => (key, s) := by
  unfold usableKey activeKey keyAt
  rw [exec_bind, exec_perform_of _ (t := s) (r := s.config) rfl]
  by_cases hkey : s.config.apiKey ≠ ""
  · rw [if_pos hkey, if_pos hkey]
    simp [hkey]
  · rw [if_neg hkey, if_neg hkey, exec_perform_bind]
    cases htokens : s.pool.stateTokens with
    | none => simp [handle, htokens]
    | some tokens => simp [handle, htokens]

/-- The limit in force is the one that the last reply calls for. -/
def InForce (s : AdminState) : Prop := (effectiveOf s.lastReply).target = some s.gate.granted

/-- The target is always given. -/
theorem exists_target (last : Option Value) : ∃ n, (effectiveOf last).target = some n := by
  unfold effectiveOf
  generalize (last.map LastConcurrency.ofValue).getD noConcurrency = conc
  obtain ⟨concurrent, limit, hardCap, userId⟩ := conc
  cases hardCap <;> exact ⟨_, rfl⟩

/-- Handing the target to the gate puts it in force. -/
theorem Inv.inForce_resized (hs : Inv s) (c : UInt32) :
    InForce { s with gate := s.gate.reconcile (s.effectiveAt c).target } := by
  obtain ⟨n, hn⟩ := exists_target s.lastReply
  unfold InForce
  rw [hs.effectiveAt_eq c, hn, Gate.granted_reconcile]
  rfl

/-- **Fetching, then sizing**: whatever the fetch does, the limit in force stays or becomes the
right one. -/
theorem exec_sizing (hs : Inv s) (hn : s.readings = 0) (key : String) (fresh : Bool)
    {p : LastConcurrency → Admin Unit}
    (hp : ∀ d t, ∃ c, exec (handle env o) (p d) t =
      some ((), { t with gate := t.gate.reconcile (t.effectiveAt c).target })) :
    ∃ t, exec (handle env o) (fetchConcurrency env key fresh >>= fun conc =>
        match conc with
        | none => pure ()
        | some d => p d) s = some ((), t) ∧
      Inv t ∧ t.config = s.config ∧ (InForce s → InForce t) := by
  obtain ⟨d, t, ht, hinv, hconfig, hgate, hlast, hnone⟩ :=
    @exec_fetchConcurrency env o s hs hn key fresh
  rw [exec_bind, ht]
  cases d with
  | none =>
    refine ⟨t, rfl, hinv, hconfig, fun hf => ?_⟩
    rw [hnone rfl] at hlast
    unfold InForce at hf ⊢
    rw [hgate, hlast]
    exact hf
  | some d =>
    obtain ⟨c, hc⟩ := hp d t
    exact ⟨_, hc, ⟨hinv.free, hinv.tracked, hinv.caches⟩, hconfig, fun _ => hinv.inForce_resized c⟩

/-- The configuration after an event. -/
def configAfter (s : AdminState) : AdminEvent → Config
  | .postConfig headers u => if checkAuth s.config headers then u.apply s.config else s.config
  | _ => s.config

/-- The sizing at startup and a round of the background refresh. -/
theorem exec_usableKey_bind {p : String → Admin Unit} (hs : Inv s)
    (hp : ∀ key, ∃ t, exec (handle env o) (p key) s = some ((), t) ∧ Inv t ∧ t.config = s.config ∧
      (InForce s → InForce t))
    (h : (exec (handle env o) (usableKey >>= fun key =>
      match key with
      | none => pure ()
      | some key => p key) s).map Prod.snd = some t) :
    Inv t ∧ t.config = s.config ∧ (InForce s → InForce t) := by
  rw [exec_bind, exec_usableKey] at h
  cases hkey : s.keyAt with
  | none =>
    rw [hkey] at h
    cases h
  | some key =>
    rw [hkey] at h
    cases key with
    | none =>
      cases h
      exact ⟨hs, rfl, id⟩
    | some key =>
      obtain ⟨t', ht', hinv, hconfig, hforce⟩ := hp key
      simp only [Option.map_some, Option.bind_some, ht', Option.some.injEq] at h
      rw [← h]
      exact ⟨hinv, hconfig, hforce⟩

/-- Whether a request to `get_concurrency` gets as far as fetching. -/
def asks (s : AdminState) (headers : HeaderMap) : Bool :=
  checkAuth s.config headers && s.keyAt.join.isSome

/-- **`get_concurrency`** fetches as the sizing does, and leaves the gate alone. -/
theorem exec_getConcurrency {headers : HeaderMap} {fresh : Bool} (hs : Inv s) (hn : s.readings = 0)
    (h : (exec (handle env o) (getConcurrency env headers fresh) s).map Prod.snd = some t) :
    Inv t ∧ t.config = s.config ∧ t.gate = s.gate ∧
      t.lastReply =
        if s.asks headers then ((s.newData env o fresh).map UsageData.raw).or s.lastReply
        else s.lastReply := by
  unfold getConcurrency at h
  rw [exec_perform_of _ (t := s) (r := s.config) rfl] at h
  unfold asks
  by_cases hauth : checkAuth s.config headers = true
  · rw [if_pos hauth, exec_bind, exec_usableKey] at h
    rw [hauth]
    cases hkey : s.keyAt with
    | none =>
      rw [hkey] at h
      cases h
    | some key =>
      rw [hkey] at h
      cases key with
      | none =>
        cases h
        exact ⟨hs, rfl, rfl, rfl⟩
      | some key =>
        obtain ⟨d, t', ht', hinv, hconfig, hgate, hlast, -⟩ :=
          @exec_fetchConcurrency env o s hs hn key fresh
        have hrest : t' = t := by
          simp only [Option.map_some, Option.bind_some] at h
          rw [exec_bind, ht', Option.bind_some, exec_perform_of _ (t := t') (r := t'.config) rfl,
            exec_bind, exec_getEffectiveConcurrency] at h
          cases h
          rfl
        rw [← hrest]
        exact ⟨hinv, hconfig, hgate, hlast⟩
  · rw [if_neg hauth] at h
    cases h
    rw [Bool.not_eq_true] at hauth
    rw [hauth]
    exact ⟨hs, rfl, rfl, rfl⟩

theorem exec_resizeOnOverride (u : ConfigUpdate) (newCfg : Config) :
    ∃ g, exec (handle env o) (resizeOnOverride u newCfg) s = some ((), { s with gate := g }) ∧
      (Inv s → InForce s → InForce { s with gate := g }) := by
  unfold resizeOnOverride
  by_cases hoverride : u.overrideConcurrency.isSome = true
  · rw [if_pos hoverride, exec_resizeGate]
    exact ⟨_, rfl, fun hs _ => hs.inForce_resized _⟩
  · rw [if_neg hoverride]
    exact ⟨s.gate, rfl, fun _ => id⟩

theorem exec_resizeCache (u : ConfigUpdate) :
    ∃ n ttl, exec (handle env o) (resizeCache u) s =
      some ((), { s with handoffSize := n, handoffTtl := ttl }) := by
  unfold resizeCache
  split_ifs
  · exact ⟨_, _, rfl⟩
  · exact ⟨_, _, rfl⟩

/-- The pool after a change of the configuration. -/
def poolAfter (s : AdminState) (u : ConfigUpdate) (newCfg : Config) : KeyPool :=
  if u.keys.isSome then s.pool.rebuild (newCfg.keys.map KeyEntry.fromConfig) else s.pool

theorem exec_rebuildPool (u : ConfigUpdate) (newCfg : Config) :
    exec (handle env o) (rebuildPool u newCfg) s =
      some ((), { s with pool := s.poolAfter u newCfg }) := by
  unfold rebuildPool poolAfter
  split_ifs
  · rfl
  · rfl

/-- **`post_config`** changes the configuration and, with new keys, the pool, and puts the limit in
force if it changes the override. -/
theorem exec_postConfig (headers : HeaderMap) (u : ConfigUpdate) :
    ∃ resp t, exec (handle env o) (postConfig headers u) s = some (resp, t) ∧
      t.config = s.configAfter (.postConfig headers u) ∧
      (t.pool = if checkAuth s.config headers then s.poolAfter u (u.apply s.config) else s.pool) ∧
      (Inv s → Inv t ∧ (InForce s → InForce t)) := by
  unfold postConfig configAfter
  rw [exec_perform_of _ (t := s) (r := s.config) rfl]
  by_cases hauth : checkAuth s.config headers = true
  · simp only [hauth, if_true]
    obtain ⟨g, hg, hforce⟩ := @exec_resizeOnOverride env o
      { s with config := u.apply s.config } u (u.apply s.config)
    obtain ⟨n, ttl, hcache⟩ := @exec_resizeCache env o
      { s with config := u.apply s.config, gate := g } u
    rw [exec_bind]
    show ∃ resp t, exec (handle env o) (resizeOnOverride u (u.apply s.config) >>= _)
      { s with config := u.apply s.config } = some (resp, t) ∧ _
    rw [exec_bind, hg, Option.bind_some, exec_bind, hcache, Option.bind_some, exec_bind,
      exec_rebuildPool]
    refine ⟨_, _, rfl, rfl, rfl, fun hs => ⟨⟨hs.free, hs.tracked, hs.caches⟩, ?_⟩⟩
    exact hforce ⟨hs.free, hs.tracked, hs.caches⟩
  · simp only [hauth]
    exact ⟨_, s, rfl, rfl, rfl, fun hs => ⟨hs, id⟩⟩

end Spec

/-! ### Runs -/

/-- The condition on a step under which it leaves the limit in force: a request to `get_concurrency`
that computes the effective concurrency anew finds the target where it is. -/
def KeepsLimit (env : Env) (s : AdminState) (l : AdminEvent × Outside) : Prop :=
  match l.1 with
  | .getConcurrency headers fresh =>
    s.asks headers = true → ∀ u, s.newData env l.2 fresh = some u →
      (effectiveOf (some u.raw)).target = some s.gate.granted
  | _ => True

/-- What a request to `get_concurrency` does to the last report decides whether the limit stays in
force. -/
theorem inForce_iff_keepsLimit {env : Env} {o : Outside} {s t : AdminState} {headers : HeaderMap}
    {fresh : Bool} (hf : InForce s) (hgate : t.gate = s.gate)
    (hlast : t.lastReply =
      if s.asks headers then ((s.newData env o fresh).map UsageData.raw).or s.lastReply
      else s.lastReply) :
    InForce t ↔ s.KeepsLimit env (.getConcurrency headers fresh, o) := by
  have hkept : t.lastReply = s.lastReply → InForce t := by
    intro hl
    unfold InForce at hf ⊢
    rw [hl, hgate]
    exact hf
  by_cases hasks : s.asks headers = true
  · have hl : t.lastReply = ((s.newData env o fresh).map UsageData.raw).or s.lastReply :=
      hlast.trans (if_pos hasks)
    cases hnew : s.newData env o fresh with
    | none =>
      rw [hnew] at hl
      refine ⟨fun _ _ u hu => ?_, fun _ => hkept hl⟩
      rw [hnew] at hu
      cases hu
    | some u =>
      have hforce : InForce t ↔ (effectiveOf (some u.raw)).target = some s.gate.granted := by
        unfold InForce
        rw [hl, hgate, hnew]
        rfl
      rw [hforce]
      refine ⟨fun htarget _ u' hu' => ?_, fun hkeeps => hkeeps hasks u hnew⟩
      rw [hnew] at hu'
      cases hu'
      exact htarget
  · exact ⟨fun _ h => absurd h hasks, fun _ => hkept (hlast.trans (if_neg hasks))⟩

/-- **What a step does**: it keeps the invariant, it changes the configuration only as `post_config`
does, and from a state whose limit is in force it leads to another one exactly when it meets
`KeepsLimit`. -/
theorem step_spec {env : Env} {s t : AdminState} {l : AdminEvent × Outside} (hs : Inv s)
    (h : step env s l = some t) :
    Inv t ∧ t.config = s.configAfter l.1 ∧ (InForce s → (InForce t ↔ s.KeepsLimit env l)) := by
  obtain ⟨ev, o⟩ := l
  have hs' : Inv { s with readings := 0 } := ⟨hs.free, hs.tracked, hs.caches⟩
  cases ev with
  | startup c =>
    obtain ⟨hinv, hconfig, hforce⟩ := exec_usableKey_bind hs' (fun key =>
      exec_sizing hs' rfl key true fun _ t => ⟨c, exec_resizeGate c⟩) h
    exact ⟨hinv, hconfig, fun hf => ⟨fun _ => trivial, fun _ => hforce hf⟩⟩
  | refresh =>
    obtain ⟨hinv, hconfig, hforce⟩ := exec_usableKey_bind hs' (fun key =>
      exec_sizing hs' rfl key false fun _ t => ⟨t.config.overrideConcurrency, by
        rw [exec_perform_of _ (t := t) (r := t.config) rfl, exec_resizeGate]⟩) h
    exact ⟨hinv, hconfig, fun hf => ⟨fun _ => trivial, fun _ => hforce hf⟩⟩
  | getConcurrency headers fresh =>
    obtain ⟨hinv, hconfig, hgate, hlast⟩ := exec_getConcurrency hs' rfl h
    exact ⟨hinv, hconfig, fun hf => inForce_iff_keepsLimit hf hgate hlast⟩
  | postConfig headers u =>
    obtain ⟨resp, t', ht', hconfig, -, hkeeps⟩ :=
      @exec_postConfig env o { s with readings := 0 } headers u
    obtain ⟨hinv, hforce⟩ := hkeeps hs'
    have ht : t' = t := by
      simp only [step, ht', Option.map_some, Option.some.injEq] at h
      exact h
    rw [← ht]
    exact ⟨hinv, hconfig, fun hf => ⟨fun _ => trivial, fun _ => hforce hf⟩⟩

/-! #### What is shown -/

/-- The effective concurrency that an override and the last report call for. -/
def IsMeant (eff : Effective) (configOverride : UInt32) (last : Option LastConcurrency) : Prop :=
  if 0 < configOverride then
    eff.overridden = true ∧ eff.hardCap =
      some (((last.bind LastConcurrency.hardCap).map fun c => min configOverride c).getD configOverride)
  else
    eff.overridden = false ∧ eff.hardCap = last.bind LastConcurrency.hardCap ∧
      eff.limit = some ((last.bind LastConcurrency.limit).getD 4)

/-- `get_effective_concurrency`, asked with the current override, answers as meant. -/
def EffectiveMeant (env : Env) (s : AdminState) : Prop :=
  ∀ o, ∃ eff, exec (handle env o) (getEffectiveConcurrency s.config.overrideConcurrency) s =
      some (eff, s) ∧
    IsMeant eff s.config.overrideConcurrency (s.lastReply.map LastConcurrency.ofValue)

/-- The limit shown is the limit in force: the gate has granted the hard cap, or else the limit,
that `get_effective_concurrency` answers with. -/
def ShownInForce (env : Env) (s : AdminState) : Prop :=
  ∀ o, ∃ eff, exec (handle env o) (getEffectiveConcurrency s.config.overrideConcurrency) s =
      some (eff, s) ∧
    (eff.hardCap.or eff.limit).map UInt32.toNat = some s.gate.granted

section Shown

variable {env : Env} {s : AdminState}

theorem shownInForce_iff_inForce (hs : Inv s) : ShownInForce env s ↔ InForce s := by
  unfold ShownInForce InForce
  simp only [exec_getEffectiveConcurrency, hs.effectiveAt_eq]
  constructor
  · intro h
    obtain ⟨eff, heff, htarget⟩ := h ⟨fun _ => 0, .error "", .error ""⟩
    cases heff
    exact htarget
  · intro h o
    exact ⟨_, rfl, h⟩

/-- What `get_gate` shows is then in force too. -/
theorem ShownInForce.getGate {o : Outside} {headers : HeaderMap} (h : ShownInForce env s)
    (hauth : checkAuth s.config headers = true) :
    ∃ eff, exec (handle env o) (getGate headers) s =
        some (jsonResponse (gateBody eff s.gate.active s.gate.queued s.gate.throttled), s) ∧
      eff.target = some s.gate.granted := by
  obtain ⟨eff, heff, htarget⟩ := h o
  refine ⟨eff, ?_, htarget⟩
  unfold Mybro.getGate
  rw [exec_perform_of _ (t := s) (r := s.config) rfl, if_pos hauth,
    exec_perform_of _ (t := s) (r := s.config) rfl, exec_bind, heff]
  rfl

/-- **The override is never used**: the answer is as meant exactly when there is none. -/
theorem effectiveMeant_iff_off (hs : Inv s) :
    EffectiveMeant env s ↔ s.config.overrideConcurrency = 0 := by
  unfold EffectiveMeant
  simp only [exec_getEffectiveConcurrency, hs.effectiveAt_eq]
  constructor
  · intro h
    obtain ⟨eff, heff, hmeant⟩ := h ⟨fun _ => 0, .error "", .error ""⟩
    cases heff
    by_contra hne
    -- an override calls for `overridden`, which is never set
    have hpos : 0 < s.config.overrideConcurrency := UInt32.pos_iff_ne_zero.2 hne
    unfold IsMeant at hmeant
    rw [if_pos hpos] at hmeant
    exact absurd hmeant.1 (by simp [effectiveOf, computeEffectiveFromConc])
  · intro h o
    refine ⟨_, rfl, ?_⟩
    unfold IsMeant
    rw [h, if_neg (by decide)]
    cases s.lastReply with
    | none => exact ⟨rfl, rfl, rfl⟩
    | some v => exact ⟨rfl, rfl, rfl⟩

end Shown

/-! #### The two results -/

theorem Inv.step {env : Env} {s t : AdminState} {l : AdminEvent × Outside} (hs : Inv s)
    (h : ofFun (AdminState.step env) s l t) : Inv t := (step_spec hs h).1

/-- **`get_effective_concurrency` answers as meant in exactly those states in which the current
override is 0**, and throughout a run exactly when the override is 0 at first and every accepted
change of the configuration leaves it at 0. -/
theorem effectiveMeant_iff {env : Env} {cfg : Config}
    {r : List ((AdminEvent × Outside) × AdminState)} (hr : IsRun env (start cfg) r) :
    Always (fun s => EffectiveMeant env s ↔ s.config.overrideConcurrency = 0) (start cfg) r ∧
      (Always (EffectiveMeant env) (start cfg) r ↔ cfg.overrideConcurrency = 0 ∧
        EachStep (fun s l => (s.configAfter l.1).overrideConcurrency = 0) (start cfg) r) := by
  have hinv : Always Inv (start cfg) r :=
    always_of_inv (P := Inv) (fun s l t => Inv.step) (inv_start cfg) hr
  have hstart := @effectiveMeant_iff_off env _ (inv_start cfg)
  refine ⟨hinv.mono fun s => effectiveMeant_iff_off, ?_⟩
  by_cases hoff : cfg.overrideConcurrency = 0
  · -- from a state with the override at 0, a step is judged by the configuration it leaves
    have hsteps : Always (EffectiveMeant env) (start cfg) r ↔
        EachStep (fun s l => (s.configAfter l.1).overrideConcurrency = 0) (start cfg) r := by
      refine always_iff_eachStep (J := Inv) (fun s l t => Inv.step) ?_ (inv_start cfg)
        (hstart.2 hoff) hr
      intro s l t hs _ hst
      obtain ⟨ht, hconfig, -⟩ := step_spec hs hst
      rw [effectiveMeant_iff_off ht, hconfig]
    exact ⟨fun h => ⟨hoff, hsteps.1 h⟩, fun h => hsteps.2 h.2⟩
  · exact ⟨fun h => absurd (hstart.1 h.start) hoff, fun h => absurd h.1 hoff⟩

/-- A usage reply with a hard cap of 8 and a limit of 6. -/
def sampleUsage : Value :=
  .object [("limits", .object [("concurrency",
    .object [("hard_cap", .number (.posInt 8)), ("limit", .number (.posInt 6))])])]

/-- What a call meets when upstream gives that reply. -/
def sampleOutside : Outside := ⟨fun _ => 0, .ok 200, .ok sampleUsage.toVec⟩

/-- A configuration with a key. -/
def keyedConfig : Config := { apiKey := "sk-1" }

/-- The override is set to 2 after a reply with a hard cap of 8: the answer is still that cap, as if
there were no override. -/
theorem override_ignored :
    ∃ r, IsRun (envParsing sampleUsage []) (start keyedConfig) r ∧
      (final (start keyedConfig) r).config.overrideConcurrency = 2 ∧
      (final (start keyedConfig) r).effectiveAt 2 = ⟨some 8, some 6, false⟩ ∧
      ¬ Always (EffectiveMeant (envParsing sampleUsage [])) (start keyedConfig) r := by
  have hr : IsRun (envParsing sampleUsage []) (start keyedConfig)
      [((.startup 0, sampleOutside), _),
        ((.postConfig [] { overrideConcurrency := some 2 }, sampleOutside), _)] :=
    ⟨rfl, rfl, trivial⟩
  refine ⟨_, hr, rfl, rfl, fun h => ?_⟩
  have hfinal := Always.final h
  rw [effectiveMeant_iff_off (always_of_inv (P := Inv) (fun s l t => Inv.step) (inv_start _) hr).final]
    at hfinal
  exact absurd hfinal (by decide)

/-- The result on a run in which startup fetches that reply. -/
theorem effectiveMeant_of_startup :
    ∃ r, IsRun (envParsing sampleUsage []) (start keyedConfig) r ∧ r.length = 1 ∧
      Always (EffectiveMeant (envParsing sampleUsage [])) (start keyedConfig) r := by
  have hr : IsRun (envParsing sampleUsage []) (start keyedConfig)
      [((.startup 0, sampleOutside), _)] := ⟨rfl, trivial⟩
  exact ⟨_, hr, rfl, (effectiveMeant_iff hr).2.2 ⟨rfl, rfl, trivial⟩⟩

/-- **The limit shown is the limit in force throughout a run exactly when every step meets
`KeepsLimit`.** -/
theorem shownInForce_iff {env : Env} {cfg : Config}
    {r : List ((AdminEvent × Outside) × AdminState)} (hr : IsRun env (start cfg) r) :
    Always (ShownInForce env) (start cfg) r ↔ EachStep (KeepsLimit env) (start cfg) r := by
  refine always_iff_eachStep (J := Inv) (fun s l t => Inv.step) ?_ (inv_start cfg) ?_ hr
  · intro s l t hs hshown hst
    rw [shownInForce_iff_inForce hs] at hshown
    obtain ⟨ht, -, hkeeps⟩ := step_spec hs hst
    rw [shownInForce_iff_inForce ht]
    exact hkeeps hshown
  · rw [shownInForce_iff_inForce (inv_start cfg)]
    rfl

/-- A fresh `get_concurrency` brings the reply in; it shows 8, and the gate stays at 4. -/
theorem fetch_leaves_gate_behind :
    ∃ r, IsRun (envParsing sampleUsage []) (start keyedConfig) r ∧
      (final (start keyedConfig) r).effectiveAt 0 = ⟨some 8, some 6, false⟩ ∧
      (final (start keyedConfig) r).gate.granted = 4 ∧
      ¬ Always (ShownInForce (envParsing sampleUsage [])) (start keyedConfig) r := by
  have hr : IsRun (envParsing sampleUsage []) (start keyedConfig)
      [((.getConcurrency [] true, sampleOutside), _)] := ⟨rfl, trivial⟩
  refine ⟨_, hr, rfl, rfl, fun h => ?_⟩
  have hfinal := Always.final h
  rw [shownInForce_iff_inForce (always_of_inv (P := Inv) (fun s l t => Inv.step) (inv_start _) hr).final]
    at hfinal
  have htarget : some 8 = some 4 := hfinal
  cases htarget

/-- The result on a run in which the request comes after startup and is answered from the cache. -/
theorem shownInForce_of_cached :
    ∃ r, IsRun (envParsing sampleUsage []) (start keyedConfig) r ∧ r.length = 2 ∧
      Always (ShownInForce (envParsing sampleUsage [])) (start keyedConfig) r := by
  have hr : IsRun (envParsing sampleUsage []) (start keyedConfig)
      [((.startup 0, sampleOutside), _), ((.getConcurrency [] false, sampleOutside), _)] :=
    ⟨rfl, rfl, trivial⟩
  refine ⟨_, hr, rfl, (shownInForce_iff hr).2 ⟨trivial, fun _ u hu => ?_, trivial⟩⟩
  cases hu

end AdminState

end Mybro
