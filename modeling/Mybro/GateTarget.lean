import Mybro.AdminRuns
import Mybro.GateRuns

/-!
# The value handed to the gate (`usage.rs`, `main.rs`, `gate.rs`)

What goes to `Gate::reconcile`, in any run of the administrative side, against what upstream has
reported. The reported number passes a cast to 32 bits on its way, and nothing keeps it from being
0; `handed_exact_iff` says when the value is the reported one and positive.
-/

namespace Mybro

open Prog Runs Value

/-! ### What a report calls for -/

/-- A number of `limits.concurrency`, as reported. -/
def reportedLimit (v : Value) (key : String) : Option UInt64 :=
  (((v.get "limits").bind fun l => l.get "concurrency").bind fun c => c.get key).bind asU64

/-- The number that decides: the hard cap, or else the limit. -/
def decidingLimit (v : Value) : Option UInt64 :=
  (reportedLimit v "hard_cap").or (reportedLimit v "limit")

/-- The limit that the last report calls for, or the default. -/
def calledFor (last : Option Value) : ℕ :=
  ((last.bind decidingLimit).map UInt64.toNat).getD defaultConcurrencyLimit

/-- The condition: the number that decides, if any, is positive and fits in 32 bits. -/
def LimitFits (last : Option Value) : Prop :=
  ∀ n, last.bind decidingLimit = some n → 1 ≤ n.toNat ∧ n.toNat < 2 ^ 32

namespace AdminState

/-- The target is what remains of the deciding number in 32 bits, or the default. -/
theorem target_effectiveOf (last : Option Value) :
    (effectiveOf last).target =
      some (((last.bind decidingLimit).map fun n => n.toNat % 2 ^ 32).getD
        defaultConcurrencyLimit) := by
  cases last with
  | none => rfl
  | some v =>
    have hcap : (LastConcurrency.ofValue v).hardCap =
        (reportedLimit v "hard_cap").map UInt64.toUInt32 := rfl
    have hlimit : (LastConcurrency.ofValue v).limit =
        (reportedLimit v "limit").map UInt64.toUInt32 := rfl
    have htarget : (effectiveOf (some v)).target =
        ((LastConcurrency.ofValue v).hardCap.or (some ((LastConcurrency.ofValue v).limit.getD
          (UInt32.ofNat defaultConcurrencyLimit)))).map UInt32.toNat := rfl
    rw [htarget, hcap, hlimit, Option.bind_some]
    unfold decidingLimit
    cases reportedLimit v "hard_cap" with
    | some n => exact congrArg some (UInt64.toNat_toUInt32 n)
    | none =>
      cases reportedLimit v "limit" with
      | some n => exact congrArg some (UInt64.toNat_toUInt32 n)
      | none => rfl

/-- **When the target is the limit called for, and positive.** -/
theorem target_iff (last : Option Value) :
    ((effectiveOf last).target = some (calledFor last) ∧ 1 ≤ calledFor last) ↔ LimitFits last := by
  rw [target_effectiveOf]
  unfold calledFor LimitFits
  cases last.bind decidingLimit with
  | none => exact iff_of_true ⟨rfl, by decide⟩ nofun
  | some n =>
    simp only [Option.map_some, Option.getD_some, Option.some.injEq, forall_eq']
    constructor
    · rintro ⟨hmod, hpos⟩
      have hlt := Nat.mod_lt n.toNat (show 0 < 2 ^ 32 by decide)
      exact ⟨hpos, by omega⟩
    · rintro ⟨hpos, hlt⟩
      exact ⟨Nat.mod_eq_of_lt hlt, hpos⟩

/-! ### What is handed to the gate -/

/-- In the course of an event, `Gate::reconcile` is called with `n`, in the state `u`. -/
def Hands (env : Env) (s : AdminState) (l : AdminEvent × Outside) (n : Option ℕ)
    (u : AdminState) : Prop :=
  let s := { s with readings := 0 }
  match l.1 with
  | .startup c => Performs (handle env l.2) (startupSizing env c) s (.reconcile n) u
  | .refresh => Performs (handle env l.2) (backgroundRefresh env) s (.reconcile n) u
  | .getConcurrency headers fresh =>
    Performs (handle env l.2) (Mybro.getConcurrency env headers fresh) s (.reconcile n) u
  | .postConfig headers c =>
    Performs (handle env l.2) (Mybro.postConfig headers c) s (.reconcile n) u

/-- An effect other than a resize of the gate. -/
def NoResize (e : AdminEff) : Prop := ∀ n, e ≠ .reconcile n

section NoResize

variable {env : Env}

theorem noResize_pure {α : Type} (a : α) :
    Ensures NoResize (fun _ => True) (pure a : Admin α) := trivial

theorem noResize_act {α : Type} {e : AdminEff} {f : AdminAnswer e → Admin α} (he : NoResize e)
    (hf : ∀ r, Ensures NoResize (fun _ => True) (f r)) :
    Ensures NoResize (fun _ => True) (act e >>= f) := ⟨he, hf⟩

theorem noResize_bind {α β : Type} {p : Admin α} {f : α → Admin β}
    (hp : Ensures NoResize (fun _ => True) p)
    (hf : ∀ a, Ensures NoResize (fun _ => True) (f a)) :
    Ensures NoResize (fun _ => True) (p >>= f) := ensures_bind hp fun a _ => hf a

theorem noResize_usableKey : Ensures NoResize (fun _ => True) usableKey := by
  refine noResize_bind ?_ fun key => noResize_pure _
  refine noResize_act nofun fun cfg => ?_
  split_ifs
  · exact noResize_pure _
  · exact noResize_act nofun fun tokens => noResize_pure _

theorem noResize_youngUsage (fresh : Bool) :
    Ensures NoResize (fun _ => True) (youngUsage fresh) := by
  unfold youngUsage
  split_ifs
  · exact noResize_pure _
  · refine noResize_act nofun fun cached => ?_
    cases cached with
    | none => exact noResize_pure _
    | some c => exact noResize_act nofun fun now => noResize_pure _

theorem noResize_staleUsage : Ensures NoResize (fun _ => True) staleUsage :=
  noResize_act nofun fun _ => noResize_pure _

theorem noResize_keepUsage (v : Value) : Ensures NoResize (fun _ => True) (keepUsage v) := by
  have hstore : Ensures NoResize (fun _ => True) (act .instant >>= fun now =>
      act (.storeUsage ⟨UsageData.ofValue v, now, windowStart v⟩) >>= fun _ =>
        (pure (some (UsageData.ofValue v)) : Admin (Option UsageData))) :=
    noResize_act nofun fun now => noResize_act nofun fun _ => noResize_pure _
  refine noResize_act nofun fun old => ?_
  show Ensures _ _ (ite _ _ _)
  split_ifs
  · exact noResize_act nofun fun _ => hstore
  · exact hstore

theorem noResize_requestUsage (key : String) :
    Ensures NoResize (fun _ => True) (requestUsage env key) := by
  refine noResize_act nofun fun result => ?_
  cases result with
  | error e => exact noResize_staleUsage
  | ok status =>
    simp only
    split_ifs
    · refine noResize_act nofun fun body => ?_
      cases body with
      | error e => exact noResize_staleUsage
      | ok bytes =>
        simp only
        cases env.fromSlice bytes with
        | error e => exact noResize_staleUsage
        | ok v => exact noResize_keepUsage v
    · exact noResize_staleUsage

theorem noResize_fetchUsageGuarded (key : String) (fresh : Bool) :
    Ensures NoResize (fun _ => True) (fetchUsageGuarded env key fresh) := by
  refine noResize_bind (noResize_youngUsage fresh) fun cached => ?_
  cases cached with
  | none => exact noResize_requestUsage key
  | some data => exact noResize_pure _

theorem noResize_fetchUsage (key : String) (fresh : Bool) :
    Ensures NoResize (fun _ => True) (fetchUsage env key fresh) := by
  refine noResize_bind (noResize_youngUsage fresh) fun cached => ?_
  cases cached with
  | none =>
    exact noResize_act nofun fun _ => noResize_bind (noResize_fetchUsageGuarded key fresh) fun _ =>
      noResize_act nofun fun _ => noResize_pure _
  | some data => exact noResize_pure _

/-- **`fetch_concurrency` leaves the gate alone**, whatever it finds. -/
theorem noResize_fetchConcurrency (key : String) (fresh : Bool) :
    Ensures NoResize (fun _ => True) (fetchConcurrency env key fresh) := by
  refine noResize_bind ?_ fun cached => ?_
  · unfold youngConcurrency
    split_ifs
    · exact noResize_pure _
    · refine noResize_act nofun fun cached => ?_
      cases cached with
      | none => exact noResize_pure _
      | some c => exact noResize_act nofun fun now => noResize_pure _
  · cases cached with
    | some data => exact noResize_pure _
    | none =>
      refine noResize_bind (noResize_fetchUsage key fresh) fun usage => ?_
      cases usage with
      | none => exact noResize_pure _
      | some usage =>
        exact noResize_act nofun fun now => noResize_act nofun fun _ => noResize_act nofun fun _ =>
          noResize_pure _

theorem noResize_getEffectiveConcurrency (c : UInt32) :
    Ensures NoResize (fun _ => True) (getEffectiveConcurrency c) := by
  refine noResize_act nofun fun cached => ?_
  cases cached with
  | some eff => exact noResize_pure _
  | none =>
    refine noResize_act nofun fun cached => ?_
    cases cached with
    | some conc => exact noResize_pure _
    | none => exact noResize_pure _

end NoResize

/-! #### The four events -/

section Hands

variable {env : Env} {o : Outside} {s u : AdminState} {n : Option ℕ}

theorem not_performs {α : Type} {p : Admin α} (hp : Ensures NoResize (fun _ => True) p) :
    ¬ Performs (handle env o) p s (.reconcile n) u :=
  fun h => hp.performs h n rfl

/-- What follows a part that leaves the gate alone. -/
theorem performs_bind_of_noResize {α β : Type} {p : Admin α} {f : α → Admin β}
    (hp : Ensures NoResize (fun _ => True) p)
    (h : Performs (handle env o) (p >>= f) s (.reconcile n) u) :
    ∃ a t, exec (handle env o) p s = some (a, t) ∧
      Performs (handle env o) (f a) t (.reconcile n) u :=
  (performs_bind.1 h).resolve_left (not_performs hp)

/-- `resizeGate` hands over the target of the effective concurrency. -/
theorem performs_resizeGate {c : UInt32}
    (h : Performs (handle env o) (resizeGate c) s (.reconcile n) u) :
    u = s ∧ n = (s.effectiveAt c).target := by
  obtain ⟨eff, t, hx, h⟩ := performs_bind_of_noResize (noResize_getEffectiveConcurrency c) h
  rw [exec_getEffectiveConcurrency] at hx
  cases hx
  cases h with
  | here => exact ⟨rfl, rfl⟩
  | later _ hk => cases hk

/-- What is handed over is the target of the last report. -/
def HandsTarget (n : Option ℕ) (u : AdminState) : Prop := n = (effectiveOf u.lastReply).target

theorem Inv.handsTarget (hs : Inv s) {c : UInt32}
    (h : Performs (handle env o) (resizeGate c) s (.reconcile n) u) : HandsTarget n u := by
  obtain ⟨rfl, rfl⟩ := performs_resizeGate h
  exact congrArg Effective.target (hs.effectiveAt_eq c)

/-- Finding a key, fetching, then sizing. -/
theorem handsTarget_sizing {fresh : Bool} {p : Admin Unit} (hs : Inv s) (hn : s.readings = 0)
    (hp : ∀ t, Inv t → Performs (handle env o) p t (.reconcile n) u → HandsTarget n u)
    (h : Performs (handle env o) (usableKey >>= fun key =>
      match key with
      | none => pure ()
      | some key => fetchConcurrency env key fresh >>= fun conc =>
        match conc with
        | none => pure ()
        | some _ => p) s (.reconcile n) u) : HandsTarget n u := by
  obtain ⟨key, t, hx, h⟩ := performs_bind_of_noResize noResize_usableKey h
  rw [exec_usableKey] at hx
  obtain ⟨_, -, hx⟩ := Option.map_eq_some_iff.1 hx
  cases hx
  cases key with
  | none => cases h
  | some key =>
    obtain ⟨d, t, hx, h⟩ := performs_bind_of_noResize (noResize_fetchConcurrency key fresh) h
    obtain ⟨d', t', hx', hinv, -⟩ := @exec_fetchConcurrency env o s hs hn key fresh
    rw [hx] at hx'
    cases hx'
    cases d with
    | none => cases h
    | some d => exact hp t hinv h

theorem handsTarget_postConfig {headers : HeaderMap} {c : ConfigUpdate} (hs : Inv s)
    (h : Performs (handle env o) (Mybro.postConfig headers c) s (.reconcile n) u) :
    HandsTarget n u := by
  unfold Mybro.postConfig at h
  obtain ⟨cfg, t, hx, h⟩ := performs_bind_of_noResize
    (show Ensures NoResize (fun _ => True) (act .loadConfig) from ⟨nofun, fun _ => trivial⟩) h
  cases hx
  split_ifs at h
  · obtain ⟨cfgs, t, hx, h⟩ := performs_bind_of_noResize (p := updateConfig c)
      (noResize_act nofun fun _ => noResize_act nofun fun _ => noResize_pure _) h
    cases hx
    rcases performs_bind.1 h with h | ⟨_, t, -, h⟩
    · -- the one effect on the gate
      unfold resizeOnOverride at h
      split_ifs at h
      · have hinv : Inv { s with config := c.apply s.config } := ⟨hs.free, hs.tracked, hs.caches⟩
        exact hinv.handsTarget h
      · cases h
    · refine absurd h (not_performs (noResize_bind ?_ fun _ => noResize_bind ?_ fun _ =>
        noResize_act nofun fun _ => noResize_pure _))
      · unfold resizeCache
        split_ifs
        · exact noResize_act nofun fun cfg => ⟨nofun, fun _ => trivial⟩
        · exact noResize_pure _
      · unfold rebuildPool
        split_ifs
        · exact ⟨nofun, fun _ => trivial⟩
        · exact noResize_pure _
  · cases h

theorem not_performs_getConcurrency {headers : HeaderMap} {fresh : Bool} :
    ¬ Performs (handle env o) (Mybro.getConcurrency env headers fresh) s (.reconcile n) u := by
  refine not_performs (noResize_act nofun fun cfg => ?_)
  split_ifs
  · refine noResize_bind noResize_usableKey fun key => ?_
    cases key with
    | none => exact noResize_act nofun fun _ => noResize_act nofun fun _ => noResize_pure _
    | some key =>
      exact noResize_bind (noResize_fetchConcurrency key fresh) fun _ => noResize_act nofun fun _ =>
        noResize_bind (noResize_getEffectiveConcurrency _) fun _ => noResize_act nofun fun _ =>
          noResize_act nofun fun _ => noResize_pure _
  · exact noResize_pure _

/-- **Whatever goes to the gate is the target of the last report.** -/
theorem Inv.hands (hs : Inv s) {l : AdminEvent × Outside} (h : s.Hands env l n u) :
    HandsTarget n u := by
  obtain ⟨ev, o⟩ := l
  have hs' : Inv { s with readings := 0 } := ⟨hs.free, hs.tracked, hs.caches⟩
  cases ev with
  | startup c => exact handsTarget_sizing hs' rfl (fun t ht h => ht.handsTarget h) h
  | refresh =>
    refine handsTarget_sizing hs' rfl (fun t ht h => ?_) h
    obtain ⟨cfg, t', hx, h⟩ := performs_bind_of_noResize
      (show Ensures NoResize (fun _ => True) (act .loadConfig) from ⟨nofun, fun _ => trivial⟩) h
    cases hx
    exact ht.handsTarget h
  | getConcurrency headers fresh => exact absurd h not_performs_getConcurrency
  | postConfig headers c => exact handsTarget_postConfig hs' h

/-- A report that comes in while the gate is sized gets to it. -/
theorem Inv.exists_hands (hs : Inv s) {c : UInt32} {key : String} (hkey : s.keyAt = some (some key))
    {v : Value} (hreply : o.reply env = some v) :
    ∃ n u, s.Hands env (.startup c, o) n u ∧ u.lastReply = some v := by
  have hs' : Inv { s with readings := 0 } := ⟨hs.free, hs.tracked, hs.caches⟩
  obtain ⟨d, t, ht, -, -, -, hlast, hnone⟩ :=
    @exec_fetchConcurrency env o { s with readings := 0 } hs' rfl key true
  have hnew : newData env { s with readings := 0 } o true = some (UsageData.ofValue v) := by
    unfold newData youngConcurrencyAt obtained youngUsageAt
    rw [hreply]
    rfl
  have hlast : t.lastReply = some v := by
    rw [hlast, hnew]
    rfl
  obtain ⟨d, rfl⟩ : ∃ d', d = some d' := by
    refine Option.ne_none_iff_exists'.1 fun hd => ?_
    rw [hnone hd] at hnew
    cases hnew
  refine ⟨(t.effectiveAt c).target, t, ?_, hlast⟩
  refine performs_bind.2 (Or.inr ⟨some key, { s with readings := 0 }, ?_, ?_⟩)
  · rw [exec_usableKey]
    show (s.keyAt).map _ = _
    rw [hkey]
    rfl
  · refine performs_bind.2 (Or.inr ⟨some d, t, ht, ?_⟩)
    refine performs_bind.2 (Or.inr ⟨_, t, exec_getEffectiveConcurrency c, .here _ _ _⟩)

end Hands

/-! ### When the value is right -/

/-- The permits of a gate that is resized to a positive limit never run out for good: those that
are free, handed over or owned are at least as many. -/
theorem issued_pos {limit : Option ℕ} {r : List (GateEvent × GateState)}
    (hr : GateState.IsRun (GateState.start limit) r) {n : ℕ} (hn : 1 ≤ n) {g : GateState}
    (hg : (final (GateState.start limit) r).step (.reconcile (some n)) = some g) :
    1 ≤ g.issued := by
  have hall : Always GateState.LedgerInv (GateState.start limit) r :=
    always_of_inv (P := GateState.LedgerInv)
      (fun s e t hs hst => (GateState.step_excess hs hst).1) (GateState.ledgerInv_start limit) hr
  have hle := (GateState.step_excess hall.final hg).1.le_issued
  have hgranted : g.gate.granted = n := by
    rw [← Option.some.inj hg]
    exact Gate.granted_reconcile _ _
  omega

/-- **The value handed to the gate is the one called for, and positive, exactly when the number that
decides is positive and fits in 32 bits**, or there is none, whatever the override; and then the
gate is not left without permits. -/
theorem handed_exact_iff {env : Env} {cfg : Config} {r : List ((AdminEvent × Outside) × AdminState)}
    (hr : IsRun env (start cfg) r) {l : AdminEvent × Outside} {n : Option ℕ} {u : AdminState}
    (h : (final (start cfg) r).Hands env l n u) :
    ((n = some (calledFor u.lastReply) ∧ 1 ≤ calledFor u.lastReply) ↔ LimitFits u.lastReply) ∧
      (LimitFits u.lastReply → ∀ limit rg g, GateState.IsRun (GateState.start limit) rg →
        (final (GateState.start limit) rg).step (.reconcile n) = some g → 1 ≤ g.issued) := by
  have hinv : Always Inv (start cfg) r :=
    always_of_inv (P := Inv) (fun s l t => Inv.step) (inv_start cfg) hr
  have htarget : n = (effectiveOf u.lastReply).target := hinv.final.hands h
  rw [htarget]
  refine ⟨target_iff u.lastReply, fun hfits limit rg g hrg hg => ?_⟩
  obtain ⟨heq, hpos⟩ := (target_iff u.lastReply).2 hfits
  rw [heq] at hg
  exact issued_pos hrg hpos hg

/-- The result for a report at startup, with a hard cap of 8. -/
theorem handed_exact_of_sample :
    ∃ u, (start keyedConfig).Hands (envParsing sampleUsage []) (.startup 0, sampleOutside) (some 8)
        u ∧ calledFor u.lastReply = 8 ∧ LimitFits u.lastReply := by
  obtain ⟨n, u, h, hlast⟩ := @Inv.exists_hands _ _ _ (inv_start keyedConfig) 0 "sk-1" rfl _
    (show sampleOutside.reply (envParsing sampleUsage []) = some sampleUsage from rfl)
  have hcalled : calledFor u.lastReply = 8 := by
    rw [hlast]
    rfl
  have hfits : LimitFits u.lastReply := by
    intro m hm
    rw [hlast] at hm
    cases hm
    decide
  obtain ⟨hn, -⟩ := (handed_exact_iff (r := []) trivial h).1.2 hfits
  rw [hn, hcalled] at h
  exact ⟨u, h, hcalled, hfits⟩

/-- A usage reply with a hard cap that does not fit in 32 bits. -/
def hugeUsage : Value :=
  .object [("limits", .object [("concurrency",
    .object [("hard_cap", .number (.posInt 4294967296)), ("limit", .number (.posInt 6))])])]

/-- What a call meets when upstream gives that reply. -/
def hugeOutside : Outside := ⟨fun _ => 0, .ok 200, .ok hugeUsage.toVec⟩

/-- A hard cap of 2^32 reaches the gate as 0: no permit is left, and the next request waits. -/
theorem huge_hard_cap_handed_as_zero :
    ∃ u t, (start keyedConfig).Hands (envParsing hugeUsage []) (.startup 0, hugeOutside) (some 0)
        u ∧
      step (envParsing hugeUsage []) (start keyedConfig) (.startup 0, hugeOutside) = some t ∧
      calledFor u.lastReply = 4294967296 ∧ t.gate.sem.permits = 0 ∧
      (t.gate.acquire 0).2 = .pending ∧
      ¬ (some 0 = some (calledFor u.lastReply) ∧ 1 ≤ calledFor u.lastReply) := by
  obtain ⟨n, u, h, hlast⟩ := @Inv.exists_hands _ _ _ (inv_start keyedConfig) 0 "sk-1" rfl _
    (show hugeOutside.reply (envParsing hugeUsage []) = some hugeUsage from rfl)
  have hn : n = some 0 := by
    rw [(inv_start keyedConfig).hands h, hlast]
    rfl
  have hcalled : calledFor u.lastReply = 4294967296 := by
    rw [hlast]
    rfl
  rw [hn] at h
  refine ⟨u, _, h, rfl, hcalled, rfl, rfl, ?_⟩
  rintro ⟨hzero, -⟩
  rw [hcalled] at hzero
  cases hzero

end AdminState

end Mybro
