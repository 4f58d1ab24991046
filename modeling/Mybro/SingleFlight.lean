import Mybro.AdminRuns
import Mybro.Lib.Tasks

/-!
# Concurrent callers of `fetch_usage`

Any number of callers of `fetch_usage` (`usage.rs`), fresh or not, over the cache, the guard and the
clock, with every order of their steps; a caller may be dropped at any point, and then gives the
guard back. Two facts carry the proofs: only the holder of the guard stores, so what the holder last
saw in the cache is what the cache holds; and a caller asks upstream only under the guard, after a
look that showed no young entry.
-/

namespace Mybro

open Prog Runs Tasks

/-! ### One caller -/

/-- What a caller has done and seen: whether it has the guard, the entry it last saw in the cache
since it began to wait for the guard (its own once it has stored it), its last reading of the clock,
and how often it has asked upstream. -/
structure Caller where
  fresh : Bool
  holds : Bool := false
  look : Option (Option CachedUsage) := none
  time : ℕ := 0
  requests : ℕ := 0

namespace Caller

/-- An effect and its answer. -/
def add (m : Caller) : (e : AdminEff) → AdminAnswer e → Caller
  | .loadUsage, r => { m with look := some r }
  | .storeUsage c, _ => { m with look := some (some c) }
  | .instant, now => { m with time := now }
  | .lockFetch, _ => { m with holds := true, look := none }
  | .unlockFetch, _ => { m with holds := false }
  | .getUsage _, _ => { m with requests := m.requests + 1 }
  | _, _ => m

/-- The last look showed no young entry. -/
def SawOld (m : Caller) : Prop :=
  ∃ u, m.look = some u ∧ ∀ c, u = some c → isYoung c.fetchedAt m.time = false

/-- The last look showed a young entry with the data `d`. -/
def SawYoung (m : Caller) (d : UsageData) : Prop :=
  ∃ c, m.look = some (some c) ∧ isYoung c.fetchedAt m.time = true ∧ d = c.data

/-- The data of the last look. -/
def Saw (m : Caller) (a : Option UsageData) : Prop :=
  ∃ u, m.look = some u ∧ a = u.map CachedUsage.data

theorem SawYoung.saw {m : Caller} {d : UsageData} (h : m.SawYoung d) : m.Saw (some d) := by
  obtain ⟨c, hlook, -, rfl⟩ := h
  exact ⟨some c, hlook, rfl⟩

/-- When a caller performs an effect: it asks upstream once, under the guard, and unless it is fresh
after a look that showed no young entry; it stores and gives the guard back only when it has it. -/
def Asserts (m : Caller) : AdminEff → Prop
  | .getUsage _ => m.holds = true ∧ m.requests = 0 ∧ (m.fresh = false → m.SawOld)
  | .storeUsage _ => m.holds = true
  | .unlockFetch => m.holds = true
  | _ => True

/-- How a caller returns: without the guard, with the data it last saw; without a request that data
was young. -/
structure Returns (m : Caller) (a : Option UsageData) : Prop where
  free : m.holds = false
  saw : m.Saw a
  young : m.requests = 0 → ∃ d, a = some d ∧ m.SawYoung d

/-- What a caller keeps to by itself: it asks at most once, and what it asserts. -/
def Keeps (m : Caller) (p : Admin (Option UsageData)) : Prop :=
  m.requests ≤ 1 ∧ Sat add Asserts Returns p m

theorem Keeps.answer {m : Caller} {e : AdminEff} {k : AdminAnswer e → Admin (Option UsageData)}
    (h : m.Keeps (.vis e k)) (r : AdminAnswer e) : (m.add e r).Keeps (k r) := by
  refine ⟨?_, h.2.2 r⟩
  cases e with
  | getUsage key =>
    show m.requests + 1 ≤ 1
    rw [h.2.1.2.1]
  | _ => exact h.1

variable {env : Env}

/-- A check of the cache: it leaves the guard and the requests alone. -/
theorem sat_youngUsage {m : Caller} {fresh : Bool} (hf : m.fresh = fresh) :
    Sat add Asserts (fun m' r => m'.fresh = fresh ∧ m'.holds = m.holds ∧
      m'.requests = m.requests ∧ (∀ d, r = some d → m'.SawYoung d) ∧
      (r = none → fresh = false → m'.SawOld)) (youngUsage fresh) m := by
  cases fresh with
  | true => exact ⟨hf, rfl, rfl, fun d h => (by cases h), fun _ h => (by cases h)⟩
  | false =>
    refine ⟨trivial, fun cached => ?_⟩
    cases cached with
    | none =>
      refine ⟨hf, rfl, rfl, fun d h => (by cases h), fun _ _ => ⟨none, rfl, ?_⟩⟩
      intro c h
      cases h
    | some c =>
      refine ⟨trivial, fun now => ⟨hf, rfl, rfl, ?_, ?_⟩⟩
      · intro d h
        split_ifs at h with hyoung
        cases h
        exact ⟨c, rfl, hyoung, rfl⟩
      · intro h _
        split_ifs at h with hyoung
        refine ⟨some c, rfl, fun c' hc => ?_⟩
        cases hc
        exact Bool.eq_false_iff.2 hyoung

/-- What remains when upstream fails is looked up again. -/
theorem sat_staleUsage (m : Caller) :
    Sat add Asserts (fun m' a => m'.holds = m.holds ∧ m'.requests = m.requests ∧ m'.Saw a)
      staleUsage m :=
  ⟨trivial, fun cached => ⟨rfl, rfl, cached, rfl, rfl⟩⟩

/-- A reply in hand is stored under the guard. -/
theorem sat_keepUsage {m : Caller} (hm : m.holds = true) (v : Value) :
    Sat add Asserts (fun m' a => m'.holds = m.holds ∧ m'.requests = m.requests ∧ m'.Saw a)
      (keepUsage v) m := by
  unfold keepUsage
  refine sat_perform trivial fun old => ?_
  -- the end is the same with and without a new window
  have hstore : ∀ m₁ : Caller, m₁.holds = m.holds → m₁.requests = m.requests →
      Sat add Asserts (fun m' a => m'.holds = m.holds ∧ m'.requests = m.requests ∧ m'.Saw a)
        (do
          let now ← act .instant
          act (.storeUsage ⟨UsageData.ofValue v, now, windowStart v⟩)
          pure (some (UsageData.ofValue v))) m₁ := by
    intro m₁ hh hn
    exact sat_perform trivial fun now => sat_perform (hh.trans hm) fun _ =>
      ⟨hh, hn, _, rfl, rfl⟩
  split_ifs with hw
  · exact sat_perform trivial fun _ => hstore _ rfl rfl
  · exact hstore _ rfl rfl

/-- The one request, under the guard. -/
theorem sat_requestUsage {m : Caller} (hm : m.holds = true) (hr : m.requests = 0)
    (hold : m.fresh = false → m.SawOld) (key : String) :
    Sat add Asserts (fun m' a => m'.holds = true ∧ m'.requests = 1 ∧ m'.Saw a)
      (requestUsage env key) m := by
  -- whatever comes after the request, the guard and the count stay as they are
  have hafter : ∀ {p : Admin (Option UsageData)},
      Sat add Asserts (fun m' a => m'.holds = m.holds ∧ m'.requests = m.requests + 1 ∧ m'.Saw a) p
        { m with requests := m.requests + 1 } →
      Sat add Asserts (fun m' a => m'.holds = true ∧ m'.requests = 1 ∧ m'.Saw a) p
        { m with requests := m.requests + 1 } := by
    intro p h
    refine h.mono (fun _ _ h => h) ?_
    rintro m' a ⟨hh, hn, hsaw⟩
    exact ⟨hh.trans hm, hn.trans (by rw [hr]), hsaw⟩
  unfold requestUsage
  refine sat_perform ⟨hm, hr, hold⟩ fun result => ?_
  cases result with
  | error e => exact hafter (sat_staleUsage _)
  | ok status =>
    by_cases hs : isSuccess status = true
    · simp only [hs, if_true]
      refine sat_perform trivial fun body => ?_
      cases body with
      | error e => exact hafter (sat_staleUsage _)
      | ok bytes =>
        cases hv : env.fromSlice bytes with
        | error e =>
          simp only [hv]
          exact hafter (sat_staleUsage _)
        | ok v =>
          simp only [hv]
          exact hafter (sat_keepUsage (m := { m with requests := m.requests + 1 }) hm v)
    · simp only [hs]
      exact hafter (sat_staleUsage _)

/-- **What `fetch_usage` asserts by itself.** -/
theorem sat_fetchUsage (key : String) (fresh : Bool) :
    Sat add Asserts Returns (fetchUsage env key fresh) ⟨fresh, false, none, 0, 0⟩ := by
  unfold fetchUsage
  refine (sat_bind _ _).2
    ((sat_youngUsage (m := ⟨fresh, false, none, 0, 0⟩) rfl).mono (fun _ _ h => h) ?_)
  rintro m (_ | d) ⟨hf, hfree, hreq, hyoung, -⟩
  · -- nothing young at the first look: wait for the guard, and look again
    refine sat_perform trivial fun _ => (sat_bind _ _).2 ?_
    unfold fetchUsageGuarded
    refine (sat_bind _ _).2
      ((sat_youngUsage (m := m.add .lockFetch ()) hf).mono (fun _ _ h => h) ?_)
    rintro m' (_ | d) ⟨hf', hhold, hreq', hyoung', hold⟩
    · refine (sat_requestUsage hhold (hreq'.trans hreq) ?_ key).mono (fun _ _ h => h) ?_
      · intro hfresh
        exact hold rfl (hf'.symm.trans hfresh)
      · rintro m₁ a ⟨hh, hn, hsaw⟩
        refine ⟨hh, fun _ => ⟨rfl, hsaw, fun h => ?_⟩⟩
        rw [show (add m₁ .unlockFetch ()).requests = m₁.requests from rfl, hn] at h
        cases h
    · refine ⟨hhold, fun _ => ⟨rfl, (hyoung' d rfl).saw, fun _ => ⟨d, rfl, hyoung' d rfl⟩⟩⟩
  · exact ⟨hfree, (hyoung d rfl).saw, fun _ => ⟨d, rfl, hyoung d rfl⟩⟩

end Caller

/-! ### The callers together -/

/-- What the callers share, the time, and the entries stored so far, the last one first. -/
structure UsageWorld where
  st : AdminState
  now : ℕ
  stored : List CachedUsage

namespace UsageWorld

/-- The entries stored, after an effect. -/
def storedAfter (stored : List CachedUsage) : AdminEff → List CachedUsage
  | .storeUsage c => c :: stored
  | _ => stored

/-- The meaning of an effect, with the status and the body of the reply upstream gives. -/
def handle (env : Env) (o : Except String ℕ × Except String (List UInt8)) (e : AdminEff)
    (w : UsageWorld) : Option (AdminAnswer e × UsageWorld) :=
  (w.st.handle env ⟨fun _ => w.now, o.1, o.2⟩ e).map fun r =>
    (r.1, { w with st := r.2, stored := storedAfter w.stored e })

/-- A caller that is dropped gives the guard back. -/
def release (m : Caller) (w : UsageWorld) : UsageWorld :=
  if m.holds then { w with st := { w.st with guardHeld := false } } else w

/-- The callers of `fetch_usage`, each with its key and `fresh`; around them time passes. -/
def callers (env : Env) : System (String × Bool) (Except String ℕ × Except String (List UInt8)) ℕ
    UsageWorld Caller AdminEff AdminAnswer (Option UsageData) where
  start q := (⟨q.2, false, none, 0, 0⟩, fetchUsage env q.1 q.2)
  add := Caller.add
  handle o _ := handle env o
  release := release
  outer d w := some { w with now := w.now + d }

/-- The shared state with the callers. -/
abbrev Callers := Pool UsageWorld Caller AdminEff AdminAnswer (Option UsageData)

/-- What can happen next. -/
abbrev CallerEvent := Event (String × Bool) (Except String ℕ × Except String (List UInt8)) ℕ

/-- Nobody has called yet. -/
def start (cfg : Config) (now : ℕ) : Callers := ⟨⟨AdminState.start cfg, now, []⟩, fun _ => none⟩

/-! ### One effect -/

/-- What an effect of one caller does to it and to the shared state. -/
structure Moved (m m' : Caller) (w w' : UsageWorld) : Prop where
  now : w'.now = w.now
  time : m'.time = m.time ∨ m'.time = w.now
  /-- the guard stays where it is, is taken when it is free, or is given back -/
  guard : (m'.holds = m.holds ∧ w'.st.guardHeld = w.st.guardHeld) ∨
    (w.st.guardHeld = false ∧ m'.holds = true ∧ w'.st.guardHeld = true) ∨
    (m.holds = true ∧ m'.holds = false ∧ w'.st.guardHeld = false)
  /-- only the holder of the guard stores -/
  usage : (w'.st.usage = w.st.usage ∧ w'.stored = w.stored) ∨
    ∃ c, m.holds = true ∧ w'.st.usage = some c ∧ w'.stored = c :: w.stored
  /-- what is seen is what is there -/
  look : ∀ u, m'.look = some u → w'.st.usage = u ∨
    (m.look = some u ∧ w'.st.usage = w.st.usage ∧ (m'.holds = true → m.holds = true))

variable {env : Env}

theorem moved_handle {o : Except String ℕ × Except String (List UInt8)} {e : AdminEff}
    {w w' : UsageWorld} {r : AdminAnswer e} {m : Caller} (h : handle env o e w = some (r, w'))
    (hm : m.Asserts e) : Moved m (m.add e r) w w' := by
  obtain ⟨⟨r', st'⟩, hst, heq⟩ := Option.map_eq_some_iff.1 h
  cases heq
  cases e with
  | loadUsage =>
    cases hst
    exact ⟨rfl, .inl rfl, .inl ⟨rfl, rfl⟩, .inl ⟨rfl, rfl⟩, fun u hu => .inl (Option.some.inj hu)⟩
  | storeUsage c =>
    cases hst
    exact ⟨rfl, .inl rfl, .inl ⟨rfl, rfl⟩, .inr ⟨c, hm, rfl, rfl⟩,
      fun u hu => .inl (Option.some.inj hu)⟩
  | instant =>
    cases hst
    exact ⟨rfl, .inr rfl, .inl ⟨rfl, rfl⟩, .inl ⟨rfl, rfl⟩, fun u hu => .inr ⟨hu, rfl, id⟩⟩
  | lockFetch =>
    simp only [AdminState.handle] at hst
    split_ifs at hst with hfree
    cases hst
    exact ⟨rfl, .inl rfl, .inr (.inl ⟨Bool.eq_false_iff.2 hfree, rfl, rfl⟩), .inl ⟨rfl, rfl⟩,
      fun u hu => by cases hu⟩
  | unlockFetch =>
    cases hst
    exact ⟨rfl, .inl rfl, .inr (.inr ⟨hm, rfl, rfl⟩), .inl ⟨rfl, rfl⟩,
      fun u hu => .inr ⟨hu, rfl, fun h => by cases h⟩⟩
  | keypoolTokens =>
    obtain ⟨tokens, -, heq⟩ := Option.map_eq_some_iff.1 hst
    cases heq
    exact ⟨rfl, .inl rfl, .inl ⟨rfl, rfl⟩, .inl ⟨rfl, rfl⟩, fun u hu => .inr ⟨hu, rfl, id⟩⟩
  | _ =>
    cases hst
    exact ⟨rfl, .inl rfl, .inl ⟨rfl, rfl⟩, .inl ⟨rfl, rfl⟩, fun u hu => .inr ⟨hu, rfl, id⟩⟩

/-! ### The invariant -/

/-- The invariant of the callers. -/
structure Inv (s : Callers) : Prop where
  keeps : System.AllTasks Caller.Keeps s
  held : ∀ i m p, s.task i = some (m, p) → m.holds = true → s.shared.st.guardHeld = true
  one : ∀ i j m m' p p', s.task i = some (m, p) → s.task j = some (m', p') → m.holds = true →
    m'.holds = true → i = j
  look : ∀ i m p, s.task i = some (m, p) → m.holds = true → ∀ u, m.look = some u →
    s.shared.st.usage = u
  known : ∀ i m p, s.task i = some (m, p) → ∀ c, m.look = some (some c) → c ∈ s.shared.stored
  time : ∀ i m p, s.task i = some (m, p) → m.time ≤ s.shared.now
  head : s.shared.stored.head? = s.shared.st.usage

theorem inv_start (cfg : Config) (now : ℕ) : Inv (start cfg now) :=
  ⟨System.forall_none, System.forall_none,
    fun i _ m _ p _ hi => System.forall_none (P := fun _ _ _ => _) i m p hi,
    System.forall_none, System.forall_none, System.forall_none, rfl⟩

theorem Moved.head {m m' : Caller} {w w' : UsageWorld} (h : Moved m m' w w')
    (hw : w.stored.head? = w.st.usage) : w'.stored.head? = w'.st.usage := by
  rcases h.usage with ⟨husage, hstored⟩ | ⟨c, -, husage, hstored⟩
  · rw [husage, hstored, hw]
  · rw [husage, hstored]
    rfl

theorem Moved.stored_mono {m m' : Caller} {w w' : UsageWorld} (h : Moved m m' w w')
    {c : CachedUsage} (hc : c ∈ w.stored) : c ∈ w'.stored := by
  rcases h.usage with ⟨-, hstored⟩ | ⟨c', -, -, hstored⟩
  · rw [hstored]
    exact hc
  · rw [hstored]
    exact List.mem_cons_of_mem c' hc

section Run

variable {s : Callers} {i : ℕ} {m m' : Caller} {p q : Admin (Option UsageData)} {w : UsageWorld}

/-- While one caller has the guard afterwards, no other has it. -/
theorem Inv.alone (hs : Inv s) (hi : s.task i = some (m, p)) (h : Moved m m' s.shared w) {j : ℕ}
    {n : Caller} {r : Admin (Option UsageData)} (hj : s.task j = some (n, r)) (hij : j ≠ i)
    (hn : n.holds = true) : m'.holds = false ∧ w.st.guardHeld = true ∧
      w.st.usage = s.shared.st.usage := by
  have hm : m.holds = false := by
    by_contra hm
    exact hij (hs.one j i n m r p hj hi hn (by simpa using hm))
  have hguard : s.shared.st.guardHeld = true := hs.held j n r hj hn
  refine ⟨?_, ?_, ?_⟩
  · rcases h.guard with ⟨heq, -⟩ | ⟨hfree, -⟩ | ⟨hm', -⟩
    · exact heq.trans hm
    · simp [hguard] at hfree
    · simp [hm] at hm'
  · rcases h.guard with ⟨-, heq⟩ | ⟨hfree, -⟩ | ⟨hm', -⟩
    · exact heq.trans hguard
    · simp [hguard] at hfree
    · simp [hm] at hm'
  · rcases h.usage with ⟨heq, -⟩ | ⟨c, hm', -⟩
    · exact heq
    · simp [hm] at hm'

/-- An effect of a caller keeps the invariant. -/
theorem Inv.run (hs : Inv s) (hi : s.task i = some (m, p)) (h : Moved m m' s.shared w)
    (hkeeps : System.AllTasks Caller.Keeps ⟨w, Function.update s.task i (some (m', q))⟩) :
    Inv ⟨w, Function.update s.task i (some (m', q))⟩ := by
  refine ⟨hkeeps, ?_, ?_, ?_, ?_, ?_, h.head hs.head⟩
  · refine System.forall_update (fun hn => ?_) fun j n r hij hj hn =>
      (hs.alone hi h hj hij hn).2.1
    rcases h.guard with ⟨heq, hguard⟩ | ⟨-, -, hguard⟩ | ⟨-, hfree, -⟩
    · exact hguard.trans (hs.held i m p hi (heq ▸ hn))
    · exact hguard
    · simp [hfree] at hn
  · intro j j' n n' r r' hj hj' hn hn'
    rcases System.update_eq_some hj with ⟨hji, heq⟩ | ⟨hij, hj⟩
    · cases heq
      rcases System.update_eq_some hj' with ⟨hji', -⟩ | ⟨hij', hj'⟩
      · exact hji.trans hji'.symm
      · simp [(hs.alone hi h hj' hij' hn').1] at hn
    · rcases System.update_eq_some hj' with ⟨-, heq⟩ | ⟨-, hj'⟩
      · cases heq
        simp [(hs.alone hi h hj hij hn).1] at hn'
      · exact hs.one j j' n n' r r' hj hj' hn hn'
  · refine System.forall_update (fun hn u hu => ?_) fun j n r hij hj hn u hu =>
      (hs.alone hi h hj hij hn).2.2.trans (hs.look j n r hj hn u hu)
    rcases h.look u hu with hnow | ⟨hold, husage, hheld⟩
    · exact hnow
    · exact husage.trans (hs.look i m p hi (hheld hn) u hold)
  · refine System.forall_update (fun c hc => ?_) fun j n r _ hj c hc =>
      h.stored_mono (hs.known j n r hj c hc)
    rcases h.look (some c) hc with hnow | ⟨hold, -, -⟩
    · exact List.mem_of_mem_head? ((h.head hs.head).trans hnow)
    · exact h.stored_mono (hs.known i m p hi c hold)
  · refine System.forall_update ?_ fun j n r _ hj => (hs.time j n r hj).trans h.now.ge
    rcases h.time with htime | htime
    · exact (htime.trans_le (hs.time i m p hi)).trans h.now.ge
    · exact (htime.trans h.now.symm).le

/-- A caller that comes keeps the invariant: it has and knows nothing. -/
theorem Inv.come (hs : Inv s) (fresh : Bool)
    (hkeeps : System.AllTasks Caller.Keeps
      ⟨s.shared, Function.update s.task i (some (⟨fresh, false, none, 0, 0⟩, q))⟩) :
    Inv ⟨s.shared, Function.update s.task i (some (⟨fresh, false, none, 0, 0⟩, q))⟩ := by
  refine ⟨hkeeps, ?_, ?_, ?_, ?_, ?_, hs.head⟩
  · exact System.forall_update (fun hn => nomatch hn) fun j n r _ hj => hs.held j n r hj
  · intro j j' n n' r r' hj hj' hn hn'
    rcases System.update_eq_some hj with ⟨-, heq⟩ | ⟨-, hj⟩
    · cases heq
      cases hn
    · rcases System.update_eq_some hj' with ⟨-, heq⟩ | ⟨-, hj'⟩
      · cases heq
        cases hn'
      · exact hs.one j j' n n' r r' hj hj' hn hn'
  · exact System.forall_update (fun hn => nomatch hn) fun j n r _ hj => hs.look j n r hj
  · exact System.forall_update (fun c hc => nomatch hc) fun j n r _ hj => hs.known j n r hj
  · exact System.forall_update (Nat.zero_le _) fun j n r _ hj => hs.time j n r hj

/-- Dropping a caller keeps the invariant. -/
theorem Inv.drop (hs : Inv s) (hi : s.task i = some (m, p)) :
    Inv ⟨release m s.shared, Function.update s.task i none⟩ := by
  have hrest : ∀ {j n r}, Function.update s.task i none j = some (n, r) →
      j ≠ i ∧ s.task j = some (n, r) := by
    intro j n r hj
    rcases System.update_eq_some hj with ⟨-, heq⟩ | hj
    · cases heq
    · exact hj
  have hstored : (release m s.shared).stored = s.shared.stored := by
    unfold release
    split_ifs <;> rfl
  have husage : (release m s.shared).st.usage = s.shared.st.usage := by
    unfold release
    split_ifs <;> rfl
  have hnow : (release m s.shared).now = s.shared.now := by
    unfold release
    split_ifs <;> rfl
  refine ⟨hs.keeps.erase i _, ?_, ?_, ?_, ?_, ?_, ?_⟩
  · intro j n r hj hn
    have hm : ¬ m.holds = true := fun hm =>
      (hrest hj).1 (hs.one j i n m r p (hrest hj).2 hi hn hm)
    show (release m s.shared).st.guardHeld = true
    rw [release, if_neg hm]
    exact hs.held j n r (hrest hj).2 hn
  · intro j j' n n' r r' hj hj'
    exact hs.one j j' n n' r r' (hrest hj).2 (hrest hj').2
  · intro j n r hj hn u hu
    exact husage.trans (hs.look j n r (hrest hj).2 hn u hu)
  · intro j n r hj c hc
    show c ∈ (release m s.shared).stored
    rw [hstored]
    exact hs.known j n r (hrest hj).2 c hc
  · intro j n r hj
    show n.time ≤ (release m s.shared).now
    rw [hnow]
    exact hs.time j n r (hrest hj).2
  · show (release m s.shared).stored.head? = (release m s.shared).st.usage
    rw [hstored, husage]
    exact hs.head

end Run

/-- **Every step keeps the invariant.** -/
theorem Inv.step {s t : Callers} {l : CallerEvent} (hs : Inv s)
    (h : (callers env).step s l = some t) : Inv t := by
  have hkeeps : System.AllTasks Caller.Keeps t :=
    System.allTasks_step (S := callers env)
      (fun q => ⟨Nat.zero_le 1, Caller.sat_fetchUsage q.1 q.2⟩) (fun _ _ _ r h => h.answer r)
      hs.keeps h
  rcases System.step_cases h with ⟨i, q, -, -, rfl⟩ | ⟨i, o, m, e, k, r, w, -, hi, hw, rfl⟩ |
    ⟨i, m, p, -, hi, rfl⟩ | ⟨d, w, -, hw, rfl⟩
  · exact hs.come q.2 hkeeps
  · exact hs.run hi (moved_handle hw (hs.keeps i m _ hi).2.1) hkeeps
  · exact hs.drop hi
  · cases hw
    exact ⟨hs.keeps, hs.held, hs.one, hs.look, hs.known,
      fun i m p hi => (hs.time i m p hi).trans (Nat.le_add_right _ d), hs.head⟩

/-- A run of the callers leads from one state to another. -/
abbrev Leads (env : Env) : Callers → Callers → Prop := Runs.Leads (ofFun (callers env).step)

theorem Inv.leads {s t : Callers} (hs : Inv s) (h : Leads env s t) : Inv t :=
  h.inv (P := Inv) (fun _ _ _ hs hst => hs.step hst) hs

/-! ### Single flight -/

/-- One caller at a time has the guard; each asks upstream at most once, under the guard, and one
that is not fresh only when the last reply stored, if any, is no longer young; who has not asked
returns the data of a reply that has been stored and was young at its last look. -/
structure SingleFlight (s : Callers) : Prop where
  one : ∀ i j m m' p p', s.task i = some (m, p) → s.task j = some (m', p') → m.holds = true →
    m'.holds = true → i = j
  most : ∀ i m p, s.task i = some (m, p) → m.requests ≤ 1
  asks : ∀ i m key k, s.task i = some (m, .vis (.getUsage key) k) → m.holds = true ∧
    (m.fresh = false → ∀ c, s.shared.stored.head? = some c →
      c.fetchedAt + usageCacheTtl ≤ s.shared.now)
  returns : ∀ i m a, s.task i = some (m, .ret a) → m.requests = 0 →
    ∃ c ∈ s.shared.stored, a = some c.data ∧ isYoung c.fetchedAt m.time = true

theorem Inv.singleFlight {s : Callers} (hs : Inv s) : SingleFlight s := by
  refine ⟨hs.one, fun i m p hi => (hs.keeps i m p hi).1, ?_, ?_⟩
  · intro i m key k hi
    obtain ⟨hhold, -, hold⟩ := (hs.keeps i m _ hi).2.1
    refine ⟨hhold, fun hfresh c hc => ?_⟩
    -- what it saw is what the cache still holds
    obtain ⟨u, hlook, hu⟩ := hold hfresh
    have husage : u = some c := (hs.look i m _ hi hhold u hlook).symm.trans (hs.head.symm.trans hc)
    have hage := hu c husage
    have htime := hs.time i m _ hi
    simp only [isYoung, decide_eq_false_iff_not, not_lt] at hage
    have hpos : 0 < usageCacheTtl := by decide
    omega
  · intro i m a hi hr
    obtain ⟨d, rfl, c, hlook, hyoung, rfl⟩ := (hs.keeps i m _ hi).2.young hr
    exact ⟨c, hs.known i m _ hi c hlook, rfl, hyoung⟩

/-- Caller `i` waits for the guard. -/
def Waits (s : Callers) (i : ℕ) : Prop := ∃ m k, s.task i = some (m, .vis .lockFetch k)

/-- What a look can show after `s`, when `later` has been stored since. -/
def ShowsSince (s : Callers) (later : List CachedUsage) (u : Option CachedUsage) : Prop :=
  u = s.shared.st.usage ∨ ∃ c ∈ later, u = some c

/-- Since `s`, caller `i` has seen nothing older than what the cache held then. -/
def Since (s : Callers) (i : ℕ) (t : Callers) : Prop :=
  ∃ later, t.shared.stored = later ++ s.shared.stored ∧
    ∀ m p, t.task i = some (m, p) → (∃ k, p = .vis .lockFetch k) ∨
      ∀ u, m.look = some u → ShowsSince s later u

theorem ShowsSince.mono {s : Callers} {later : List CachedUsage} {u : Option CachedUsage}
    (h : ShowsSince s later u) (c : CachedUsage) : ShowsSince s (c :: later) u := by
  rcases h with h | ⟨c', hc, h⟩
  · exact Or.inl h
  · exact Or.inr ⟨c', List.mem_cons_of_mem c hc, h⟩

/-- The cache holds the last of the entries stored since, or what it held. -/
theorem showsSince_usage {s : Callers} (hs : Inv s) {w : UsageWorld} {later : List CachedUsage}
    (hw : w.stored.head? = w.st.usage) (hstored : w.stored = later ++ s.shared.stored) :
    ShowsSince s later w.st.usage := by
  cases later with
  | nil => exact Or.inl (by rw [← hw, hstored, List.nil_append, hs.head])
  | cons c later => exact Or.inr ⟨c, List.mem_cons_self, by rw [← hw, hstored]; rfl⟩

/-- **Every step keeps `Since`.** -/
theorem Since.step {s t u : Callers} {i : ℕ} {l : CallerEvent} (hs : Inv s) (ht : Inv t)
    (h : Since s i t) (hst : (callers env).step t l = some u) : Since s i u := by
  obtain ⟨later, hstored, hseen⟩ := h
  rcases System.step_cases hst with ⟨j, q, -, -, rfl⟩ | ⟨j, o, m, e, k, r, w, -, hj, hw, rfl⟩ |
    ⟨j, m, p, -, hj, rfl⟩ | ⟨d, w, -, hw, rfl⟩
  · refine ⟨later, hstored, fun n p hn => ?_⟩
    rcases System.update_eq_some hn with ⟨-, heq⟩ | ⟨-, hn⟩
    · cases heq
      exact Or.inr nofun
    · exact hseen n p hn
  · have hmoved := moved_handle hw (ht.keeps j m _ hj).2.1
    obtain ⟨later', hstored', hmono⟩ : ∃ later', w.stored = later' ++ s.shared.stored ∧
        ∀ u, ShowsSince s later u → ShowsSince s later' u := by
      rcases hmoved.usage with ⟨-, heq⟩ | ⟨c, -, -, heq⟩
      · exact ⟨later, heq.trans hstored, fun _ h => h⟩
      · exact ⟨c :: later, by rw [heq, hstored, List.cons_append], fun _ h => h.mono c⟩
    refine ⟨later', hstored', fun n p hn => ?_⟩
    rcases System.update_eq_some hn with ⟨hij, heq⟩ | ⟨-, hn⟩
    · cases heq
      refine Or.inr fun u hu => ?_
      rcases hmoved.look u hu with hnow | ⟨hold, -, -⟩
      · exact hnow ▸ showsSince_usage hs (hmoved.head ht.head) hstored'
      · -- a look from before the step: the caller was not waiting
        rcases hseen m _ (hij ▸ hj) with ⟨k', hk⟩ | hshows
        · cases hk
          cases hu
        · exact hmono u (hshows u hold)
    · rcases hseen n p hn with hwaits | hshows
      · exact Or.inl hwaits
      · exact Or.inr fun u hu => hmono u (hshows u hu)
  · refine ⟨later, ?_, fun n p hn => ?_⟩
    · rw [← hstored]
      show (release m t.shared).stored = t.shared.stored
      unfold release
      split_ifs <;> rfl
    · rcases System.update_eq_some hn with ⟨-, heq⟩ | ⟨-, hn⟩
      · cases heq
      · exact hseen n p hn
  · cases hw
    exact ⟨later, hstored, hseen⟩

theorem Since.leads {s t : Callers} {i : ℕ} (hs : Inv s) (hi : Waits s i) (h : Leads env s t) :
    Since s i t := by
  obtain ⟨m, k, hi⟩ := hi
  have hstart : Since s i s := by
    refine ⟨[], rfl, fun n p hn => Or.inl ⟨k, ?_⟩⟩
    rw [hi] at hn
    cases hn
    rfl
  refine (h.inv (P := fun t => Inv t ∧ Since s i t) ?_ ⟨hs, hstart⟩).2
  rintro t l u ⟨ht, hsince⟩ hst
  exact ⟨ht.step hst, hsince.step hs ht hst⟩

/-- **Single flight for usage.** In every state that the callers reach from the start,
`SingleFlight` holds; and whoever waits for the guard in it returns, if anything has been stored,
the data of the reply stored last or of one stored later. -/
theorem singleFlight_of_leads {cfg : Config} {now : ℕ} {s t : Callers}
    (hs : Leads env (start cfg now) s) (ht : Leads env s t) :
    SingleFlight s ∧ ∀ i c m a, Waits s i → s.shared.stored.head? = some c →
      t.task i = some (m, .ret a) →
        ∃ later, t.shared.stored = later ++ s.shared.stored ∧
          ∃ c' ∈ later ++ [c], a = some c'.data := by
  have hinv : Inv s := (inv_start cfg now).leads hs
  refine ⟨hinv.singleFlight, fun i c m a hi hc hret => ?_⟩
  obtain ⟨later, hstored, hseen⟩ := Since.leads hinv hi ht
  refine ⟨later, hstored, ?_⟩
  obtain ⟨u, hlook, rfl⟩ := ((hinv.leads ht).keeps i m _ hret).2.saw
  rcases hseen m _ hret with ⟨k, hk⟩ | hshows
  · cases hk
  · rcases hshows u hlook with hu | ⟨c', hc', hu⟩
    · exact ⟨c, List.mem_append_right _ List.mem_cons_self, by rw [hu, ← hinv.head, hc]; rfl⟩
    · exact ⟨c', List.mem_append_left _ hc', by rw [hu]; rfl⟩

/-! #### Two runs -/

/-- An environment whose parser knows two texts. -/
def twoReplies : Env where
  __ := envParsing AdminState.sampleUsage []
  fromSlice bytes :=
    if bytes = AdminState.sampleUsage.toVec then .ok AdminState.sampleUsage
    else (envParsing .null []).fromSlice bytes

/-- Caller 1 finds nothing and waits for the guard, while caller 0 fetches and stores. -/
def untilShared : List CallerEvent :=
  ([.start 0 ("sk-1", true), .run 0 (.error "", .error ""), .start 1 ("sk-1", false),
    .run 1 (.error "", .error "")] : List CallerEvent) ++
    List.replicate 6 (.run 0 (.ok 200, .ok AdminState.sampleUsage.toVec) : CallerEvent)

/-- Caller 0 gives the guard back, and caller 1 takes it, looks, and gives it back. -/
def untilAnswered : List CallerEvent :=
  .run 0 (.error "", .error "") :: List.replicate 4 (.run 1 (.error "", .error ""))

/-- The result on a run in which caller 1 waits while caller 0 fetches. -/
theorem waiting_caller_shares : ∃ s t : Callers, ∃ m a, Leads twoReplies (start {} 0) s ∧
    Leads twoReplies s t ∧ Waits s 1 ∧ t.task 1 = some (m, .ret a) ∧ m.requests = 0 ∧
      SingleFlight s ∧ ∃ later, t.shared.stored = later ++ s.shared.stored ∧
        ∃ c ∈ later ++ [⟨UsageData.ofValue AdminState.sampleUsage, 0, ""⟩], a = some c.data := by
  have hs : Leads twoReplies (start {} 0) _ := ⟨_, @isRun_along _ _ _ _ untilShared _ rfl, rfl⟩
  refine ⟨_, _, _, _, hs, ⟨_, @isRun_along _ _ _ _ untilAnswered _ rfl, rfl⟩, ⟨_, _, rfl⟩, rfl, rfl,
    (singleFlight_of_leads hs (.refl _)).1, ?_⟩
  exact (singleFlight_of_leads hs ⟨_, @isRun_along _ _ _ _ untilAnswered _ rfl, rfl⟩).2 1 _ _ _
    ⟨_, _, rfl⟩ rfl rfl

/-- A reading of what callers share: one that is not fresh and under way when a reply is stored
returns its data. -/
def OverlapShares (env : Env) (cfg : Config) : Prop :=
  ∀ s l s' t i m e k m' a c, Leads env (start cfg 0) s → (callers env).step s l = some s' →
    s'.shared.stored = c :: s.shared.stored → s.task i = some (m, .vis e k) → m.fresh = false →
      Leads env s' t → t.task i = some (m', .ret a) → a = some c.data

/-- Caller 0 has stored a reply, the fresh caller 1 is about to store another one, and caller 2 has
looked in between. -/
def untilStale : List CallerEvent :=
  (.start 0 ("sk-1", true) : CallerEvent) ::
    List.replicate 8 (.run 0 (.ok 200, .ok AdminState.sampleUsage.toVec) : CallerEvent) ++
    (.start 1 ("sk-1", true) : CallerEvent) ::
    List.replicate 2 (.run 1 (.ok 200, .error "") : CallerEvent) ++
    ([.start 2 ("sk-1", false), .run 2 (.error "", .error "")] : List CallerEvent) ++
    List.replicate 3 (.run 1 (.error "", .ok Value.null.toVec) : CallerEvent)

/-- Caller 2 returns the young entry that it saw, although the reply of caller 1 has been stored
before it returns. -/
theorem overlap_keeps_old : ¬ OverlapShares twoReplies {} := by
  intro h
  have hr : along (callers twoReplies).step (start {} 0) untilStale = some _ := rfl
  have hold : some (UsageData.ofValue AdminState.sampleUsage) = some (UsageData.ofValue .null) :=
    h _ (.run 1 (.error "", .error "")) _ _ 2 _ _ _ _ _ ⟨UsageData.ofValue .null, 0, ""⟩
      ⟨_, isRun_along hr, rfl⟩ rfl rfl rfl rfl
      (Leads.one (l := .run 2 (.error "", .error "")) rfl) rfl
  have hraw := congrArg (Option.map UsageData.raw) hold
  cases hraw

end UsageWorld

end Mybro
