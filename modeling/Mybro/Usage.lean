import Mybro.Http
import Mybro.KeyPool
import Mybro.Gate
import Mybro.Lib.Prog

/-!
# Upstream usage and effective concurrency (`usage.rs`)

The functions that ask upstream for the usage of the account, cache the answer, and derive from it
the concurrency limit. They are programs over the effects of the administrative side of the proxy:
the three caches, the guard that `fetch_usage` holds, the clock, the calls to upstream, and what the
handlers of the settings and `main` read and write besides.
-/

namespace Mybro

open Value

/-! ### Data -/

/-- `UsageData`. -/
structure UsageData where
  requestsInWindow : UInt64
  tokensIn : UInt64
  tokensOut : UInt64
  tokensCached : UInt64
  windowStartedAt : String
  planDisplayName : String
  raw : Value

/-- `LastConcurrency`. -/
structure LastConcurrency where
  concurrent : UInt32
  limit : Option UInt32
  hardCap : Option UInt32
  userId : String
  deriving DecidableEq, Repr

/-- `Effective`. -/
structure Effective where
  hardCap : Option UInt32
  limit : Option UInt32
  overridden : Bool
  deriving DecidableEq, Repr

/-- `CachedUsage`. -/
structure CachedUsage where
  data : UsageData
  fetchedAt : ℕ
  windowStartedAt : String

/-- `CachedConcurrency`. -/
structure CachedConcurrency where
  data : LastConcurrency
  fetchedAt : ℕ

/-! ### Effects -/

/-- The effects of the administrative side. -/
inductive AdminEff
  | loadUsage
  | storeUsage (c : CachedUsage)
  | loadConcurrency
  | storeConcurrency (c : CachedConcurrency)
  | loadEffective
  | storeEffective (e : Effective)
  | throttledCount
  | resetThrottled
  | lockFetch
  | unlockFetch
  | instant
  | getUsage (key : String)
  | readBody
  | loadConfig
  | storeConfig (cfg : Config)
  | keypoolTokens
  | rebuild (entries : List KeyEntry)
  | gateActive
  | gateQueued
  | gateThrottled
  | reconcile (newLimit : Option ℕ)
  | resizeHandoffCache (maxSize ttl : ℕ)
  | ping

/-- What they are answered by: a call to upstream by the status of the reply or its error, a body by
its bytes or the error of reading it. `keypoolTokens` is `KeyPool::state`, which may panic. -/
@[reducible] def AdminAnswer : AdminEff → Type
  | .loadUsage => Option CachedUsage
  | .loadConcurrency => Option CachedConcurrency
  | .loadEffective => Option Effective
  | .throttledCount => UInt64
  | .instant => ℕ
  | .getUsage _ => Except String ℕ
  | .readBody => Except String (List UInt8)
  | .loadConfig => Config
  | .keypoolTokens => List String
  | .gateActive => UInt64
  | .gateQueued => UInt64
  | .gateThrottled => UInt64
  | _ => Unit

/-- A program of the administrative side. -/
abbrev Admin (α : Type) := Prog AdminEff AdminAnswer α

/-- Perform one effect. -/
abbrev act (e : AdminEff) : Admin (AdminAnswer e) := Prog.perform e

/-! ### `fetch_usage` -/

/-- `v[a][b]` as an unsigned integer. -/
def u64At (v : Value) (a b : String) : Option UInt64 :=
  ((v.get a).bind fun x => x.get b).bind asU64

/-- The start of the usage window in a reply. -/
def windowStart (v : Value) : String :=
  (((v.get "window").bind fun w => w.get "started_at").bind asStr).getD ""

/-- The usage data of a reply. -/
def UsageData.ofValue (v : Value) : UsageData where
  requestsInWindow := (u64At v "usage" "requests_in_window").getD 0
  tokensIn := (u64At v "usage" "tokens_in").getD 0
  tokensOut := (u64At v "usage" "tokens_out").getD 0
  tokensCached := (u64At v "usage" "tokens_cached").getD 0
  windowStartedAt := windowStart v
  planDisplayName := (((v.get "plan").bind fun p => p.get "display_name").bind asStr).getD ""
  raw := v

/-- Whether something fetched at an instant may still be served from its cache. -/
def isYoung (fetchedAt now : ℕ) : Bool := now - fetchedAt < usageCacheTtl

/-- The check that `fetch_usage` makes before it takes the guard and again under it. -/
def youngUsage (fresh : Bool) : Admin (Option UsageData) :=
  if fresh then pure none
  else do
    let cached ← act .loadUsage
    match cached with
    | none => pure none
    | some c => do
      let now ← act .instant
      pure (if isYoung c.fetchedAt now then some c.data else none)

/-- What `fetch_usage` returns when upstream fails. -/
def staleUsage : Admin (Option UsageData) := do
  let cached ← act .loadUsage
  pure (Option.map CachedUsage.data cached)

/-- `fetch_usage` with a reply in hand: a new window resets the throttle count. -/
def keepUsage (v : Value) : Admin (Option UsageData) := do
  let old ← act .loadUsage
  if Option.map CachedUsage.windowStartedAt old ≠ some (windowStart v) then act .resetThrottled
  else pure ()
  let now ← act .instant
  act (.storeUsage ⟨UsageData.ofValue v, now, windowStart v⟩)
  pure (some (UsageData.ofValue v))

/-- The call to upstream in `fetch_usage`. -/
def requestUsage (env : Env) (key : String) : Admin (Option UsageData) := do
  let result ← act (.getUsage key)
  match result with
  | .ok status =>
    if isSuccess status then do
      let body ← act .readBody
      match body with
      | .ok bytes =>
        match env.fromSlice bytes with
        | .ok v => keepUsage v
        | .error _ => staleUsage
      | .error _ => staleUsage
    else staleUsage
  | .error _ => staleUsage

/-- `fetch_usage` under the guard. -/
def fetchUsageGuarded (env : Env) (key : String) (fresh : Bool) : Admin (Option UsageData) := do
  let cached ← youngUsage fresh
  match cached with
  | some data => pure (some data)
  | none => requestUsage env key

/-- `fetch_usage`. -/
def fetchUsage (env : Env) (key : String) (fresh : Bool) : Admin (Option UsageData) := do
  let cached ← youngUsage fresh
  match cached with
  | some data => pure (some data)
  | none => do
    -- another call may have filled the cache while this one waited for the guard
    act .lockFetch
    let data ← fetchUsageGuarded env key fresh
    act .unlockFetch
    pure data

/-! ### `fetch_concurrency` -/

/-- `v.limits.concurrency` at a key; the cast to 32 bits truncates. -/
def concurrencyLimit (v : Value) (key : String) : Option UInt32 :=
  ((((v.get "limits").bind fun l => l.get "concurrency").bind fun c => c.get key).bind asU64).map
    UInt64.toUInt32

/-- The concurrency data of a reply. -/
def LastConcurrency.ofValue (v : Value) : LastConcurrency where
  concurrent := ((u64At v "usage" "concurrent_sessions").getD 0).toUInt32
  limit := concurrencyLimit v "limit"
  hardCap := concurrencyLimit v "hard_cap"
  userId := ((v.get "user_id").bind asStr).getD ""

/-- `compute_effective_from_conc`. -/
def computeEffectiveFromConc (conc : LastConcurrency) (configOverride : UInt32) : Effective :=
  if configOverride > 0 then
    { hardCap := (conc.hardCap.map fun c => min configOverride c).or (some configOverride)
      limit := some configOverride
      overridden := true }
  else
    { hardCap := conc.hardCap
      limit := some (conc.limit.getD (UInt32.ofNat defaultConcurrencyLimit))
      overridden := false }

/-- `recompute_effective`. -/
def recomputeEffective (conc : LastConcurrency) (configOverride : UInt32) : Admin Unit :=
  act (.storeEffective (computeEffectiveFromConc conc configOverride))

/-- The cache check of `fetch_concurrency`. -/
def youngConcurrency (fresh : Bool) : Admin (Option LastConcurrency) :=
  if fresh then pure none
  else do
    let cached ← act .loadConcurrency
    match cached with
    | none => pure none
    | some c => do
      let now ← act .instant
      pure (if isYoung c.fetchedAt now then some c.data else none)

/-- `fetch_concurrency` with usage data in hand. The effective concurrency is computed for the
override 0, whatever the configuration says. -/
def keepConcurrency (usage : UsageData) : Admin (Option LastConcurrency) := do
  let data := LastConcurrency.ofValue usage.raw
  let now ← act .instant
  act (.storeConcurrency ⟨data, now⟩)
  recomputeEffective data 0
  pure (some data)

/-- `fetch_concurrency`. -/
def fetchConcurrency (env : Env) (key : String) (fresh : Bool) : Admin (Option LastConcurrency) := do
  let cached ← youngConcurrency fresh
  match cached with
  | some data => pure (some data)
  | none => do
    let usage ← fetchUsage env key fresh
    match usage with
    | none => pure none
    | some usage => keepConcurrency usage

/-! ### `get_effective_concurrency` -/

/-- `compute_effective`. -/
def computeEffective (configOverride : UInt32) : Admin Effective := do
  let cached ← act .loadConcurrency
  match cached with
  | some conc => pure (computeEffectiveFromConc conc.data configOverride)
  | none =>
    pure { hardCap := none
           limit := some (UInt32.ofNat defaultConcurrencyLimit)
           overridden := false }

/-- `get_effective_concurrency`. -/
def getEffectiveConcurrency (configOverride : UInt32) : Admin Effective := do
  let cached ← act .loadEffective
  match cached with
  | some eff => pure eff
  | none => computeEffective configOverride

/-- `eff.hard_cap.or(eff.limit)`, the limit that goes to the gate. -/
def Effective.target (eff : Effective) : Option ℕ := (eff.hardCap.or eff.limit).map UInt32.toNat

end Mybro
