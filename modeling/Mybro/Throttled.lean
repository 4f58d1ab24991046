import Mybro.AdminRuns
import Mybro.Lib.Tasks

/-!
# The throttle count that `get_usage` serves

The handlers of the administrative side run as tasks, in every order of their steps; around them the
gate is used, calls are refused by a full queue, and the pipelines count final 429 and 503 outcomes.
There are two counters. `THROTTLED` of `usage.rs` is reset when the usage window changes, and it is
the one that `get_usage` serves; the refusals and the outcomes are counted by the gate in its own
(`gate.rs`), and nothing ever counts in `THROTTLED`.
-/

namespace Mybro

open Prog Runs Tasks

/-! ### The handlers as tasks -/

/-- The shared state and the time, with two ghost fields: the throttle events since the last fetch
whose window differed from the one stored before, and the numbers served, each with the events at
that time. -/
structure ThrottleWorld where
  st : AdminState
  now : ℕ
  events : ℕ
  served : List (UInt64 × ℕ)

/-- What happens around the handlers: time passes, the gate is used, an outcome is counted. -/
inductive GateUse
  | pass (d : ℕ)
  | acquire (i : ℕ)
  | resume (i : ℕ)
  | cancel (i : ℕ)
  | dropGuard
  | counted

/-- A handler: a request to `get_usage`, or one of the others. -/
inductive AdminTask
  | usage (headers : HeaderMap) (fresh : Bool)
  | other (e : AdminEvent)

/-- A handler that is under way: whether it is a request to `get_usage`, whether it has the guard of
`fetch_usage`, and the throttle count it has read. -/
structure AdminHandler where
  usage : Bool
  holds : Bool := false
  read : Option UInt64 := none

/-- An effect and its answer. -/
def AdminHandler.add (m : AdminHandler) : (e : AdminEff) → AdminAnswer e → AdminHandler
  | .lockFetch, _ => { m with holds := true }
  | .unlockFetch, _ => { m with holds := false }
  | .throttledCount, n => { m with read := some n }
  | _, _ => m

/-- The program of an event. -/
def AdminEvent.program (env : Env) : AdminEvent → Admin (Option Response)
  | .startup c => do
    startupSizing env c
    pure none
  | .refresh => do
    backgroundRefresh env
    pure none
  | .getConcurrency headers fresh => do
    let resp ← Mybro.getConcurrency env headers fresh
    pure (some resp)
  | .postConfig headers u => do
    let resp ← Mybro.postConfig headers u
    pure (some resp)

/-- The program of a handler. -/
def AdminTask.program (env : Env) : AdminTask → Admin (Option Response)
  | .usage headers fresh => do
    let resp ← getUsage env headers fresh
    pure (some resp)
  | .other e => e.program env

namespace ThrottleWorld

/-- The ghost fields after an effect. -/
def note (w : ThrottleWorld) (st : AdminState) : AdminEff → ThrottleWorld
  | .storeUsage c =>
    { w with
      st := st
      events :=
        if w.st.usage.map CachedUsage.windowStartedAt = some c.windowStartedAt then w.events
        else 0 }
  | .throttledCount => { w with st := st, served := (w.st.throttled, w.events) :: w.served }
  | _ => { w with st := st }

/-- The meaning of an effect, with the status and the body of the reply upstream gives. -/
def handle (env : Env) (o : Except String ℕ × Except String (List UInt8)) (e : AdminEff)
    (w : ThrottleWorld) : Option (AdminAnswer e × ThrottleWorld) :=
  (AdminState.handle env ⟨fun _ => w.now, o.1, o.2⟩ e w.st).map fun r => (r.1, note w r.2 e)

/-- A handler that is dropped gives the guard back. -/
def release (m : AdminHandler) (w : ThrottleWorld) : ThrottleWorld :=
  if m.holds then { w with st := { w.st with guardHeld := false } } else w

/-- The gate after a use of it. -/
def withGate (w : ThrottleWorld) (g : Gate) : ThrottleWorld :=
  { w with st := { w.st with gate := g } }

/-- What is used around the handlers; refusals and counted outcomes are throttle events. -/
def around (w : ThrottleWorld) : GateUse → ThrottleWorld
  | .pass d => { w with now := w.now + d }
  | .acquire i =>
    { w.withGate (w.st.gate.acquire i).1 with
      events := if (w.st.gate.acquire i).2 = .queueFull then w.events + 1 else w.events }
  | .resume i => w.withGate (w.st.gate.resume i)
  | .cancel i => w.withGate (w.st.gate.cancel i)
  | .dropGuard => w.withGate w.st.gate.dropGuard
  | .counted => { w.withGate w.st.gate.bumpThrottled with events := w.events + 1 }

/-- The handlers over the shared state. -/
def handlers (env : Env) : System AdminTask (Except String ℕ × Except String (List UInt8)) GateUse
    ThrottleWorld AdminHandler AdminEff AdminAnswer (Option Response) where
  start q := (⟨match q with | .usage _ _ => true | .other _ => false, false, none⟩, q.program env)
  add := AdminHandler.add
  handle o _ := handle env o
  release := release
  outer x w := some (w.around x)

/-- The shared state with the handlers. -/
abbrev Handlers := Pool ThrottleWorld AdminHandler AdminEff AdminAnswer (Option Response)

/-- What can happen next. -/
abbrev HandlerEvent := Event AdminTask (Except String ℕ × Except String (List UInt8)) GateUse

/-- Nothing has happened yet. -/
def start (cfg : Config) (now : ℕ) : Handlers := ⟨⟨AdminState.start cfg, now, 0, []⟩, fun _ => none⟩

/-- A run of the handlers leads from one state to another. -/
abbrev Leads (env : Env) : Handlers → Handlers → Prop := Runs.Leads (ofFun (handlers env).step)

/-! ### What a handler returns -/

/-- A request to `get_usage` returns the auth error, or a body with the count it has read. -/
def Returns (m : AdminHandler) (a : Option Response) : Prop :=
  m.usage = true → ∃ resp, a = some resp ∧ (resp = authErrorResponse .openAI ∨
    ∃ n data, m.read = some n ∧ resp = jsonResponse (usageBody data n))

/-- Whether a handler is a request to `get_usage` does not change. -/
theorem usage_add (m : AdminHandler) (e : AdminEff) (r : AdminAnswer e) :
    (m.add e r).usage = m.usage := by
  cases e <;> rfl

/-- Of what the other handlers return nothing is said. -/
theorem sat_other {p : Admin (Option Response)} {m : AdminHandler} (hm : m.usage = false) :
    Sat AdminHandler.add (fun _ _ => True) Returns p m := by
  induction p generalizing m with
  | ret a =>
    intro h
    rw [hm] at h
    cases h
  | vis e k ih => exact ⟨trivial, fun r => ih r ((usage_add m e r).trans hm)⟩

/-- **`get_usage`** reads the count and returns a body with it. -/
theorem sat_usage (env : Env) (headers : HeaderMap) (fresh : Bool) (m : AdminHandler) :
    Sat AdminHandler.add (fun _ _ => True) Returns
      ((AdminTask.usage headers fresh).program env) m := by
  have hread : ∀ (data : UsageData) (m : AdminHandler),
      Sat AdminHandler.add (fun _ _ => True)
        (fun m a => Sat AdminHandler.add (fun _ _ => True) Returns (pure (some a)) m) (do
          let throttled ← act .throttledCount
          pure (jsonResponse (usageBody data throttled))) m := fun data m =>
    sat_perform trivial fun n _ => ⟨_, rfl, Or.inr ⟨n, data, rfl, rfl⟩⟩
  refine (sat_bind _ _).2 (sat_perform trivial fun cfg => ?_)
  split_ifs
  · refine (sat_bind _ _).2 (sat_of_true _ fun m₁ key => ?_)
    cases key with
    | none => exact hread noUsage m₁
    | some key => exact (sat_bind _ _).2 (sat_of_true _ fun m₂ usage => hread _ m₂)
  · exact fun _ => ⟨_, rfl, Or.inl rfl⟩

/-! ### Runs -/

/-- The invariant: nothing has counted in `THROTTLED`, so every number served is 0, and what a
handler has read has been served. -/
structure Inv (s : Handlers) : Prop where
  sat : System.AllTasks (fun m p => Sat AdminHandler.add (fun _ _ => True) Returns p m) s
  throttled : s.shared.st.throttled = 0
  served : ∀ x ∈ s.shared.served, x.1 = 0
  read : ∀ i m p, s.task i = some (m, p) → ∀ n, m.read = some n → ∃ x ∈ s.shared.served, x.1 = n

theorem inv_start (cfg : Config) (now : ℕ) : Inv (start cfg now) :=
  ⟨System.forall_none, rfl, fun _ hx => absurd hx List.not_mem_nil, System.forall_none⟩

/-- An effect of a handler keeps the count, and serves it when it reads it. -/
theorem handle_spec {env : Env} {o : Except String ℕ × Except String (List UInt8)} {e : AdminEff}
    {w w' : ThrottleWorld} {r : AdminAnswer e} (h : handle env o e w = some (r, w'))
    (hw : w.st.throttled = 0) :
    w'.st.throttled = 0 ∧ (∀ x ∈ w.served, x ∈ w'.served) ∧
      (∀ x ∈ w'.served, x ∈ w.served ∨ x.1 = 0) ∧
      ∀ m : AdminHandler, ∀ n, (m.add e r).read = some n →
        m.read = some n ∨ ∃ x ∈ w'.served, x.1 = n := by
  obtain ⟨⟨r', st'⟩, hst, heq⟩ := Option.map_eq_some_iff.1 h
  cases heq
  cases e with
  | throttledCount =>
    cases hst
    refine ⟨hw, fun x hx => List.mem_cons_of_mem _ hx, fun x hx => ?_, fun m n hn => ?_⟩
    · rcases List.mem_cons.1 hx with rfl | hx
      · exact Or.inr hw
      · exact Or.inl hx
    · exact Or.inr ⟨_, List.mem_cons_self, Option.some.inj hn⟩
  | resetThrottled =>
    cases hst
    exact ⟨rfl, fun _ hx => hx, fun _ hx => .inl hx, fun _ _ hn => .inl hn⟩
  | lockFetch =>
    simp only [AdminState.handle] at hst
    split_ifs at hst
    cases hst
    exact ⟨hw, fun _ hx => hx, fun _ hx => .inl hx, fun _ _ hn => .inl hn⟩
  | keypoolTokens =>
    obtain ⟨tokens, -, heq⟩ := Option.map_eq_some_iff.1 hst
    cases heq
    exact ⟨hw, fun _ hx => hx, fun _ hx => .inl hx, fun _ _ hn => .inl hn⟩
  | _ =>
    cases hst
    exact ⟨hw, fun _ hx => hx, fun _ hx => .inl hx, fun _ _ hn => .inl hn⟩

theorem release_spec (m : AdminHandler) (w : ThrottleWorld) :
    (release m w).st.throttled = w.st.throttled ∧ (release m w).served = w.served := by
  unfold release
  split_ifs
  · exact ⟨rfl, rfl⟩
  · exact ⟨rfl, rfl⟩

theorem around_spec (w : ThrottleWorld) (x : GateUse) :
    (w.around x).st.throttled = w.st.throttled ∧ (w.around x).served = w.served := by
  cases x <;> exact ⟨rfl, rfl⟩

/-- **Every step keeps the invariant.** -/
theorem Inv.step {env : Env} {s t : Handlers} {l : HandlerEvent} (hs : Inv s)
    (h : (handlers env).step s l = some t) : Inv t := by
  have hsat := System.sat_step (S := handlers env) (fun q => by
    cases q with
    | usage headers fresh => exact sat_usage env headers fresh _
    | other e => exact sat_other rfl) hs.sat h
  rcases System.step_cases h with ⟨i, q, -, -, rfl⟩ | ⟨i, o, m, e, k, r, w, -, hi, hw, rfl⟩ |
    ⟨i, m, p, -, hi, rfl⟩ | ⟨x, w, -, hw, rfl⟩
  · exact ⟨hsat, hs.throttled, hs.served,
      System.forall_update (fun c hc => nomatch hc) fun j n p _ hj => hs.read j n p hj⟩
  · obtain ⟨hzero, hmono, hserved, hread⟩ := handle_spec hw hs.throttled
    have hkept : ∀ j n p, s.task j = some (n, p) → ∀ c, n.read = some c →
        ∃ x ∈ w.served, x.1 = c := by
      intro j n p hj c hc
      obtain ⟨x, hx, hxc⟩ := hs.read j n p hj c hc
      exact ⟨x, hmono x hx, hxc⟩
    refine ⟨hsat, hzero, fun x hx => ?_,
      System.forall_update (fun c hc => ?_) fun j n p _ hj => hkept j n p hj⟩
    · exact (hserved x hx).elim (hs.served x) id
    · exact (hread m c hc).elim (hkept i m _ hi c) id
  · obtain ⟨hzero, hserved⟩ := release_spec m s.shared
    refine ⟨hsat, hzero.trans hs.throttled, ?_, System.forall_erase fun j n p _ hj c hc => ?_⟩
    · show ∀ x ∈ (release m s.shared).served, x.1 = 0
      rw [hserved]
      exact hs.served
    · show ∃ x ∈ (release m s.shared).served, x.1 = c
      rw [hserved]
      exact hs.read j n p hj c hc
  · cases hw
    obtain ⟨hzero, hserved⟩ := around_spec s.shared x
    refine ⟨hsat, hzero.trans hs.throttled, ?_, ?_⟩
    · show ∀ x ∈ (s.shared.around _).served, x.1 = 0
      rw [hserved]
      exact hs.served
    · intro j n p hj c hc
      show ∃ x ∈ (s.shared.around _).served, x.1 = c
      rw [hserved]
      exact hs.read j n p hj c hc

/-- **The throttle count that is served.** In every run each number that is served equals the
throttle events since the last change of the window exactly when there are none; and what a request
to `get_usage` returns carries a number served, unless it is the auth error. -/
theorem throttled_served_iff {env : Env} {cfg : Config} {now : ℕ} {s : Handlers}
    (hs : Leads env (start cfg now) s) :
    (∀ x ∈ s.shared.served, x.1.toNat = x.2 ↔ x.2 = 0) ∧
      ∀ i m a, s.task i = some (m, .ret a) → m.usage = true →
        ∃ resp, a = some resp ∧ (resp = authErrorResponse .openAI ∨
          ∃ x ∈ s.shared.served, ∃ data, resp = jsonResponse (usageBody data x.1)) := by
  have hinv : Inv s := hs.inv (P := Inv) (fun _ _ _ hs hst => hs.step hst) (inv_start cfg now)
  refine ⟨fun x hx => ?_, fun i m a hi hm => ?_⟩
  · rw [hinv.served x hx]
    exact eq_comm
  · obtain ⟨resp, ha, hresp⟩ := hinv.sat i m _ hi hm
    refine ⟨resp, ha, hresp.imp id ?_⟩
    rintro ⟨n, data, hread, hbody⟩
    obtain ⟨x, hx, rfl⟩ := hinv.read i m _ hi n hread
    exact ⟨x, hx, data, hbody⟩

/-- A fresh request to `get_usage` is answered. -/
def untilServed : List HandlerEvent :=
  .start 0 (.usage [] true) ::
    List.replicate 11 (.run 0 (.ok 200, .ok AdminState.sampleUsage.toVec))

/-- The result on a run in which nothing has been refused. -/
theorem served_without_events : ∃ s, Leads (envParsing AdminState.sampleUsage [])
    (start AdminState.keyedConfig 0) s ∧ s.shared.served = [(0, 0)] ∧
      ∀ x ∈ s.shared.served, x.1.toNat = x.2 ↔ x.2 = 0 := by
  have hs : Leads (envParsing AdminState.sampleUsage []) (start AdminState.keyedConfig 0) _ :=
    ⟨_, @isRun_along _ _ _ _ untilServed _ rfl, rfl⟩
  exact ⟨_, hs, rfl, (throttled_served_iff hs).1⟩

/-- A counted outcome after that request, and another request. -/
def untilThrottled : List HandlerEvent :=
  untilServed ++ ([.outer .counted, .start 1 (.usage [] false)] : List HandlerEvent) ++
    List.replicate 5 (.run 1 (.error "", .error "") : HandlerEvent)

/-- It is answered by 0. -/
theorem outcome_not_served : ¬ ∀ s, Leads (envParsing AdminState.sampleUsage [])
    (start AdminState.keyedConfig 0) s → ∀ x ∈ s.shared.served, x.1.toNat = x.2 := by
  intro h
  have hs : Leads (envParsing AdminState.sampleUsage []) (start AdminState.keyedConfig 0) _ :=
    ⟨_, @isRun_along _ _ _ _ untilThrottled _ rfl, rfl⟩
  have hone : (0 : UInt64).toNat = 1 := h _ hs (0, 1) List.mem_cons_self
  cases hone

end ThrottleWorld

end Mybro
