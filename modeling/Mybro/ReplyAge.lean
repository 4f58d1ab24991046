import Mybro.AdminRuns

/-!
# How old the concurrency data is

Runs in which calls of `fetch_usage` and `fetch_concurrency` (`usage.rs`) follow one another, with
the replies of upstream and the times at which they come. `fetch_concurrency` has a cache of its
own, which it stamps when it fills it from the usage cache: the stamp may be younger than the reply.

Two ghost fields relate the two caches: `replies` lists the replies with their times, and
`filledFrom` is the stamp of the usage entry from which the concurrency cache was last filled.
-/

namespace Mybro

open Prog Runs

/-! ### Calls with the replies they meet -/

/-- The administrative side with the replies of upstream so far, each with the time it came. `now`
is the time after the last call; `failed` says whether an upstream fetch has failed in the call
under way; `answer` is what the last call returned, with the time of the call, if that call was a
`fetch_concurrency` that is not fresh and returned something. -/
structure AgeWorld where
  st : AdminState
  now : ℕ
  replies : List (ℕ × Value)
  failed : Bool
  filledFrom : ℕ
  answer : Option (ℕ × LastConcurrency)

/-- The calls, each with its key and `fresh`. -/
inductive UsageCall
  | usage (key : String) (fresh : Bool)
  | concurrency (key : String) (fresh : Bool)

namespace AgeWorld

/-- The ghost fields after an effect. A reply comes at the reading of the clock that stamps it,
which is the next one. -/
def note (env : Env) (o : Outside) (w : AgeWorld) (st : AdminState) : AdminEff → AgeWorld
  | .getUsage _ => { w with st := st, failed := w.failed || (o.reply env).isNone }
  | .readBody =>
    { w with
      st := st
      replies := ((o.reply env).map fun v => (o.clock w.st.readings, v)).toList ++ w.replies }
  | .storeConcurrency _ =>
    { w with st := st, filledFrom := (w.st.usage.map CachedUsage.fetchedAt).getD 0 }
  | _ => { w with st := st }

/-- The meaning of an effect. -/
def handle (env : Env) (o : Outside) (e : AdminEff) (w : AgeWorld) :
    Option (AdminAnswer e × AgeWorld) :=
  (AdminState.handle env o e w.st).map fun r => (r.1, note env o w r.2 e)

/-- The state in which a call begins. -/
def enter (w : AgeWorld) : AgeWorld :=
  { w with st := { w.st with readings := 0 }, failed := false }

/-- A call, run to its end, and the state after it. -/
def call (env : Env) (w : AgeWorld) (o : Outside) : UsageCall → Option AgeWorld
  | .usage key fresh =>
    (exec (handle env o) (fetchUsage env key fresh) w.enter).map fun r =>
      { r.2 with now := o.clock r.2.st.readings, answer := none }
  | .concurrency key fresh =>
    (exec (handle env o) (fetchConcurrency env key fresh) w.enter).map fun r =>
      { r.2 with
        now := o.clock r.2.st.readings
        answer := if fresh then none else r.1.map fun d => (o.clock 0, d) }

/-- A step is a call; the clock never goes back. -/
def Step (env : Env) (w : AgeWorld) (l : UsageCall × Outside) (w' : AgeWorld) : Prop :=
  Monotone l.2.clock ∧ w.now ≤ l.2.clock 0 ∧ call env w l.2 l.1 = some w'

/-- The state of the proxy when it starts. -/
def start (cfg : Config) (now : ℕ) : AgeWorld := ⟨AdminState.start cfg, now, [], false, 0, none⟩

/-- The answer was extracted from a reply that came less than the TTL before the call, or an
upstream fetch failed during the call. -/
def Recent (w : AgeWorld) : Prop :=
  ∀ T d, w.answer = some (T, d) → w.failed = true ∨
    ∃ u v, (u, v) ∈ w.replies ∧ d = LastConcurrency.ofValue v ∧ T < u + usageCacheTtl

/-! ### What the functions do -/

/-- The usage entry is a reply with its time. -/
def UsageKnown (w : AgeWorld) : Prop :=
  ∀ c, w.st.usage = some c → (c.fetchedAt, c.data.raw) ∈ w.replies

/-- The concurrency entry was extracted from a reply that came when `filledFrom` says. -/
def ConcurrencyKnown (w : AgeWorld) : Prop :=
  ∀ c, w.st.concurrency = some c →
    ∃ v, c.data = LastConcurrency.ofValue v ∧ (w.filledFrom, v) ∈ w.replies

/-- What `fetch_usage` leaves alone. -/
structure Frame (w w' : AgeWorld) : Prop where
  concurrency : w'.st.concurrency = w.st.concurrency
  filledFrom : w'.filledFrom = w.filledFrom
  replies : ∀ x ∈ w.replies, x ∈ w'.replies

theorem Frame.refl (w : AgeWorld) : Frame w w := ⟨rfl, rfl, fun _ h => h⟩

theorem Frame.trans {w w' w'' : AgeWorld} (h : Frame w w') (h' : Frame w' w'') : Frame w w'' :=
  ⟨h'.concurrency.trans h.concurrency, h'.filledFrom.trans h.filledFrom,
    fun x hx => h'.replies x (h.replies x hx)⟩

theorem Frame.known {w w' : AgeWorld} (h : Frame w w') (hw : w.ConcurrencyKnown) :
    w'.ConcurrencyKnown := by
  intro c hc
  obtain ⟨v, hv, hmem⟩ := hw c (h.concurrency ▸ hc)
  exact ⟨v, hv, h.replies _ (h.filledFrom ▸ hmem)⟩

/-- What usage data in hand is worth: it is in the cache, and its reply came less than the TTL
before `T`, or a fetch has failed. -/
def Worth (T : ℕ) (w : AgeWorld) (d : UsageData) : Prop :=
  ∃ c, w.st.usage = some c ∧ d = c.data ∧ (w.failed = true ∨ T < c.fetchedAt + usageCacheTtl)

/-- What `fetch_usage` and its parts, called in a call at `T`, do to the state and return. -/
structure Fetched (T : ℕ) (w : AgeWorld) (r : Option UsageData) (w' : AgeWorld) : Prop where
  frame : Frame w w'
  known : w'.UsageKnown
  worth : ∀ d, r = some d → Worth T w' d

theorem Frame.fetched {T : ℕ} {w w' w'' : AgeWorld} {r : Option UsageData} (h : Frame w w')
    (h' : Fetched T w' r w'') : Fetched T w r w'' := ⟨h.trans h'.frame, h'.known, h'.worth⟩

section Spec

variable {env : Env} {o : Outside} {w : AgeWorld}

theorem lt_of_isYoung {u now T : ℕ} (h : isYoung u now = true) (hT : T ≤ now) :
    T < u + usageCacheTtl := by
  simp only [isYoung, decide_eq_true_eq] at h
  omega

/-- A check of the usage cache. -/
theorem wp_youngUsage (ho : Monotone o.clock) (fresh : Bool) (hw : w.UsageKnown) :
    Wp (handle env o) (Fetched (o.clock 0) w) (youngUsage fresh) w := by
  cases fresh with
  | true => exact ⟨Frame.refl w, hw, nofun⟩
  | false =>
    refine wp_perform fun cached t ht => ?_
    cases ht
    cases hc : w.st.usage with
    | none => exact ⟨Frame.refl w, hw, nofun⟩
    | some c =>
      refine wp_perform fun now t ht => ?_
      cases ht
      refine ⟨⟨rfl, rfl, fun _ h => h⟩, hw, fun d hd => ?_⟩
      split_ifs at hd with hyoung
      cases hd
      exact ⟨c, hc, rfl, Or.inr (lt_of_isYoung hyoung (ho (Nat.zero_le _)))⟩

/-- After a failed fetch whatever the cache holds is returned. -/
theorem wp_staleUsage (hw : w.UsageKnown) (hfailed : w.failed = true) :
    Wp (handle env o) (Fetched (o.clock 0) w) staleUsage w := by
  refine wp_perform fun cached t ht => ?_
  cases ht
  refine ⟨Frame.refl w, hw, fun d hd => ?_⟩
  obtain ⟨c, hc, rfl⟩ := Option.map_eq_some_iff.1 hd
  exact ⟨c, hc, rfl, Or.inl hfailed⟩

/-- A reply that has just come is stored with its time. -/
theorem wp_keepUsage (ho : Monotone o.clock) {v : Value}
    (hv : (o.clock w.st.readings, v) ∈ w.replies) :
    Wp (handle env o) (Fetched (o.clock 0) w) (keepUsage v) w := by
  -- the end is the same with and without a new window
  have hstore : ∀ w₁ : AgeWorld, Frame w w₁ → w₁.st.readings = w.st.readings →
      Wp (handle env o) (Fetched (o.clock 0) w)
        (do
          let now ← act .instant
          act (.storeUsage ⟨UsageData.ofValue v, now, windowStart v⟩)
          pure (some (UsageData.ofValue v))) w₁ := by
    intro w₁ hframe hreadings
    refine wp_perform fun now t ht => wp_perform fun u t' ht' => ?_
    cases ht
    cases ht'
    refine ⟨⟨hframe.concurrency, hframe.filledFrom, hframe.replies⟩, ?_, ?_⟩
    · intro c hc
      cases hc
      exact hframe.replies _ (hreadings ▸ hv)
    · intro d hd
      cases hd
      refine ⟨_, rfl, rfl, Or.inr ?_⟩
      have hle : o.clock 0 ≤ o.clock w₁.st.readings := ho (Nat.zero_le _)
      exact Nat.lt_add_right_iff_pos.2 (by decide) |>.trans_le' hle
  unfold keepUsage
  refine wp_perform fun old t ht => ?_
  cases ht
  split_ifs with hwindow
  · refine wp_perform fun u t ht => ?_
    cases ht
    exact hstore _ ⟨rfl, rfl, fun _ h => h⟩ rfl
  · exact hstore _ (Frame.refl w) rfl

/-- The call to upstream. -/
theorem wp_requestUsage (ho : Monotone o.clock) (key : String) (hw : w.UsageKnown) :
    Wp (handle env o) (Fetched (o.clock 0) w) (requestUsage env key) w := by
  unfold requestUsage
  refine wp_perform fun status t ht => ?_
  cases ht
  -- the state after the request; without a reply in full the fetch has failed
  generalize hasked : note env o w _ (.getUsage key) = w₁
  have hframe : Frame w w₁ := by
    rw [← hasked]
    exact ⟨rfl, rfl, fun _ h => h⟩
  have hknown : w₁.UsageKnown := by
    rw [← hasked]
    exact hw
  have hfailed : o.reply env = none → w₁.failed = true := by
    intro hno
    rw [← hasked]
    simp [note, hno]
  have hstale : o.reply env = none →
      Wp (handle env o) (Fetched (o.clock 0) w) staleUsage w₁ := fun hno =>
    (wp_staleUsage hknown (hfailed hno)).mono fun r t h => hframe.fetched h
  cases hstatus : o.status with
  | error e => exact hstale (by simp [Outside.reply, hstatus])
  | ok status =>
    by_cases hsuccess : isSuccess status = true
    · simp only [hsuccess, if_true]
      refine wp_perform fun body t ht => ?_
      cases ht
      have hsame : o.reply env = none → note env o w₁ w₁.st .readBody = w₁ := by
        intro hno
        simp [note, hno]
      cases hbody : o.body with
      | error e =>
        have hno : o.reply env = none := by simp [Outside.reply, hstatus, hbody]
        simp only [hsame hno]
        exact hstale hno
      | ok bytes =>
        cases hparse : env.fromSlice bytes with
        | error e =>
          have hno : o.reply env = none := by
            simp [Outside.reply, hstatus, hbody, hparse, Except.toOption]
          simp only [hparse, hsame hno]
          exact hstale hno
        | ok v =>
          have hreply : o.reply env = some v := by
            simp [Outside.reply, hstatus, hsuccess, hbody, hparse, Except.toOption]
          simp only [hparse]
          have hcame : Frame w₁ (note env o w₁ w₁.st .readBody) :=
            ⟨rfl, rfl, fun _ h => List.mem_append_right _ h⟩
          refine (wp_keepUsage ho ?_).mono fun r t h => (hframe.trans hcame).fetched h
          simp [note, hreply]
    · simp only [hsuccess]
      exact hstale (by simp [Outside.reply, hstatus, hsuccess])

/-- `fetch_usage` under the guard. -/
theorem wp_fetchUsageGuarded (ho : Monotone o.clock) (key : String) (fresh : Bool)
    (hw : w.UsageKnown) :
    Wp (handle env o) (Fetched (o.clock 0) w) (fetchUsageGuarded env key fresh) w := by
  unfold fetchUsageGuarded
  refine (wp_bind _ _).2 ((wp_youngUsage ho fresh hw).mono ?_)
  rintro (_ | d) w₁ h₁
  · exact (wp_requestUsage ho key h₁.known).mono fun r t h => h₁.frame.fetched h
  · exact h₁

/-- **`fetch_usage`.** -/
theorem wp_fetchUsage (ho : Monotone o.clock) (key : String) (fresh : Bool) (hw : w.UsageKnown) :
    Wp (handle env o) (Fetched (o.clock 0) w) (fetchUsage env key fresh) w := by
  unfold fetchUsage
  refine (wp_bind _ _).2 ((wp_youngUsage ho fresh hw).mono ?_)
  rintro (_ | d) w₁ h₁
  · refine wp_perform fun u w₂ hw₂ => (wp_bind _ _).2 ?_
    simp only [handle, AdminState.handle] at hw₂
    split_ifs at hw₂
    · cases hw₂
    cases hw₂
    refine Wp.mono (wp_fetchUsageGuarded ho key fresh h₁.known) fun r w₃ h₃ => ?_
    refine wp_perform fun u t ht => ?_
    cases ht
    have hframe := h₁.frame.trans ⟨h₃.frame.concurrency, h₃.frame.filledFrom, h₃.frame.replies⟩
    exact ⟨⟨hframe.concurrency, hframe.filledFrom, hframe.replies⟩, h₃.known, h₃.worth⟩
  · exact h₁

/-- The concurrency entry is not served once the reply it was extracted from is no longer young. -/
def ServesYoung (w : AgeWorld) (T : ℕ) : Prop :=
  ∀ c, w.st.concurrency = some c → isYoung c.fetchedAt T = true →
    T < w.filledFrom + usageCacheTtl

/-- The check of the concurrency cache. -/
theorem wp_youngConcurrency {fresh : Bool} (hn : w.st.readings = 0) :
    Wp (handle env o) (fun r w' => Frame w w' ∧ w'.st.usage = w.st.usage ∧ w'.failed = w.failed ∧
      (∀ d, r = some d → fresh = false ∧ ∃ c, w.st.concurrency = some c ∧ d = c.data ∧
        isYoung c.fetchedAt (o.clock 0) = true)) (youngConcurrency fresh) w := by
  cases fresh with
  | true => exact ⟨Frame.refl w, rfl, rfl, nofun⟩
  | false =>
    refine wp_perform fun cached t ht => ?_
    cases ht
    cases hc : w.st.concurrency with
    | none => exact ⟨Frame.refl w, rfl, rfl, nofun⟩
    | some c =>
      refine wp_perform fun now t ht => ?_
      cases ht
      refine ⟨⟨rfl, rfl, fun _ h => h⟩, rfl, rfl, fun d hd => ⟨rfl, c, rfl, ?_⟩⟩
      split_ifs at hd with hyoung
      cases hd
      exact ⟨rfl, hn ▸ hyoung⟩

/-- The concurrency cache is filled from the usage entry that holds the data. -/
theorem wp_keepConcurrency {T : ℕ} {u : UsageData} (hw : w.UsageKnown) (hu : Worth T w u) :
    Wp (handle env o) (fun r w' => w'.UsageKnown ∧ w'.ConcurrencyKnown ∧ ∀ d, r = some d →
      w'.failed = true ∨ ∃ t v, (t, v) ∈ w'.replies ∧ d = LastConcurrency.ofValue v ∧
        T < t + usageCacheTtl) (keepConcurrency u) w := by
  obtain ⟨c, hc, rfl, hworth⟩ := hu
  refine wp_perform fun now t ht => wp_perform fun u t' ht' => wp_perform fun u' t'' ht'' => ?_
  cases ht
  cases ht'
  cases ht''
  refine ⟨hw, ?_, ?_⟩
  · intro c' hc'
    cases hc'
    refine ⟨c.data.raw, rfl, ?_⟩
    have hfrom : (w.st.usage.map CachedUsage.fetchedAt).getD 0 = c.fetchedAt := by
      rw [hc]
      rfl
    show ((w.st.usage.map CachedUsage.fetchedAt).getD 0, c.data.raw) ∈ w.replies
    rw [hfrom]
    exact hw c hc
  · intro d hd
    cases hd
    exact hworth.imp id fun h => ⟨c.fetchedAt, c.data.raw, hw c hc, rfl, h⟩

/-- **`fetch_concurrency`.** -/
theorem wp_fetchConcurrency (ho : Monotone o.clock) (key : String) (fresh : Bool)
    (hn : w.st.readings = 0) (hw : w.UsageKnown) (hc : w.ConcurrencyKnown) :
    Wp (handle env o) (fun r w' => w'.UsageKnown ∧ w'.ConcurrencyKnown ∧
      ((fresh = false → w.ServesYoung (o.clock 0)) → ∀ d, r = some d → w'.failed = true ∨
        ∃ t v, (t, v) ∈ w'.replies ∧ d = LastConcurrency.ofValue v ∧
          o.clock 0 < t + usageCacheTtl)) (fetchConcurrency env key fresh) w := by
  unfold fetchConcurrency
  refine (wp_bind _ _).2 ((wp_youngConcurrency hn).mono ?_)
  rintro (_ | d) w₁ ⟨hframe, husage, -, hyoung⟩
  · have hknown : w₁.UsageKnown := fun c hc => hframe.replies _ (hw c (husage ▸ hc))
    refine (wp_bind _ _).2 ((wp_fetchUsage ho key fresh hknown).mono ?_)
    rintro (_ | u) w₂ h₂
    · exact ⟨h₂.known, h₂.frame.known (hframe.known hc), fun _ => nofun⟩
    · exact (wp_keepConcurrency h₂.known (h₂.worth u rfl)).mono fun r w₃ h =>
        ⟨h.1, h.2.1, fun _ => h.2.2⟩
  · -- served from the cache: the condition says how old the reply is
    refine ⟨fun c hc => hframe.replies _ (hw c (husage ▸ hc)), hframe.known hc,
      fun hserves d' hd => ?_⟩
    cases hd
    obtain ⟨hfresh, c, hcache, rfl, hage⟩ := hyoung d rfl
    obtain ⟨v, hv, hmem⟩ := hc c hcache
    exact Or.inr ⟨w.filledFrom, v, hframe.replies _ hmem, hv, hserves hfresh c hcache hage⟩

end Spec

/-! ### Runs -/

/-- The invariant between calls: both caches hold what replies said, and `filledFrom` is right. -/
structure Inv (w : AgeWorld) : Prop where
  usage : w.UsageKnown
  concurrency : w.ConcurrencyKnown

theorem inv_start (cfg : Config) (now : ℕ) : Inv (start cfg now) := ⟨nofun, nofun⟩

/-- The condition on a call: one of `fetch_concurrency` that is not fresh finds its cache as young
as the reply from which it was filled. -/
def FindsYoung (w : AgeWorld) (l : UsageCall × Outside) : Prop :=
  match l.1 with
  | .concurrency _ fresh => fresh = false → w.ServesYoung (l.2.clock 0)
  | .usage _ _ => True

/-- **What a call does**: it keeps the invariant, and under the condition its answer is recent. -/
theorem step_spec {env : Env} {w w' : AgeWorld} {l : UsageCall × Outside} (hw : Inv w)
    (h : Step env w l w') : Inv w' ∧ (FindsYoung w l → Recent w') := by
  obtain ⟨call, o⟩ := l
  obtain ⟨ho, -, hcall⟩ := h
  have husage : w.enter.UsageKnown := hw.usage
  have hconc : w.enter.ConcurrencyKnown := hw.concurrency
  cases call with
  | usage key fresh =>
    obtain ⟨⟨a, t⟩, hx, rfl⟩ := Option.map_eq_some_iff.1 hcall
    have hfetched := (wp_fetchUsage ho key fresh husage).exec hx
    exact ⟨⟨hfetched.known, hfetched.frame.known hconc⟩, fun _ => nofun⟩
  | concurrency key fresh =>
    obtain ⟨⟨a, t⟩, hx, rfl⟩ := Option.map_eq_some_iff.1 hcall
    obtain ⟨hknown, hfilled, hrecent⟩ :=
      (wp_fetchConcurrency ho key fresh rfl husage hconc).exec hx
    refine ⟨⟨hknown, hfilled⟩, fun hyoung T d hd => ?_⟩
    cases fresh with
    | true => cases hd
    | false =>
      obtain ⟨d', hd', heq⟩ := Option.map_eq_some_iff.1 hd
      cases heq
      exact hrecent hyoung _ hd'

/-- **The age of concurrency data.** In every run in which each call of `fetch_concurrency` that is
not fresh and finds its cache young comes less than the TTL after the stamp of the usage entry from
which that cache was filled, every value returned by such a call was extracted from a reply that
came less than the TTL before the call, or an upstream fetch failed during it. -/
theorem recent_of_findsYoung {env : Env} {cfg : Config} {now : ℕ}
    {r : List ((UsageCall × Outside) × AgeWorld)} (hr : IsRun (Step env) (start cfg now) r)
    (hyoung : EachStep FindsYoung (start cfg now) r) : Always Recent (start cfg now) r := by
  have h : Always (fun w => Inv w ∧ Recent w) (start cfg now) r := by
    refine always_of_step (P := fun w => Inv w ∧ Recent w) ?_ ⟨inv_start cfg now, nofun⟩ hr hyoung
    rintro w l w' ⟨hw, -⟩ hC hst
    obtain ⟨hw', hrecent⟩ := step_spec hw hst
    exact ⟨hw', hrecent hC⟩
  exact h.mono fun w hw => hw.2

/-- What a call at a time meets when upstream gives the sample reply. -/
def sampleAt (t : ℕ) : Outside := ⟨fun _ => t, .ok 200, .ok AdminState.sampleUsage.toVec⟩

/-- The result on a run in which the concurrency data comes from a reply of two minutes before. -/
theorem recent_after_two_minutes :
    ∃ r, IsRun (Step (envParsing AdminState.sampleUsage [])) (start {} 0) r ∧ r.length = 3 ∧
      Always Recent (start {} 0) r := by
  have hr : IsRun (Step (envParsing AdminState.sampleUsage [])) (start {} 0)
      [((.usage "sk-1" true, sampleAt 0), _),
        ((.concurrency "sk-1" false, sampleAt (seconds 60)), _),
        ((.concurrency "sk-1" false, sampleAt (seconds 120)), _)] :=
    ⟨⟨monotone_const, Nat.zero_le _, rfl⟩, ⟨monotone_const, by decide, rfl⟩,
      ⟨monotone_const, by decide, rfl⟩, trivial⟩
  refine ⟨_, hr, rfl, recent_of_findsYoung hr
    ⟨trivial, fun _ c hc => ?_, fun _ c hc _ => ?_, trivial⟩⟩
  · cases hc
  · show seconds 120 < 0 + usageCacheTtl
    decide

/-- Data of a reply that came 598 seconds ago is served: at 299 seconds it fills the concurrency
cache, which is then stamped anew, and 299 seconds later that cache is still young. -/
theorem stale_concurrency_served :
    ∃ r, IsRun (Step (envParsing AdminState.sampleUsage [])) (start {} 0) r ∧
      ¬ Always Recent (start {} 0) r := by
  have hr : IsRun (Step (envParsing AdminState.sampleUsage [])) (start {} 0)
      [((.usage "sk-1" true, sampleAt 0), _),
        ((.concurrency "sk-1" false, sampleAt (seconds 299)), _),
        ((.concurrency "sk-1" false, sampleAt (seconds 598)), _)] :=
    ⟨⟨monotone_const, Nat.zero_le _, rfl⟩, ⟨monotone_const, by decide, rfl⟩,
      ⟨monotone_const, by decide, rfl⟩, trivial⟩
  refine ⟨_, hr, fun h => ?_⟩
  rcases h.final (seconds 598) _ rfl with hfailed | ⟨u, v, hmem, -, hlt⟩
  · cases hfailed
  · -- the only reply came at 0
    have hreplies : (u, v) ∈ [(0, AdminState.sampleUsage)] := hmem
    cases List.mem_singleton.1 hreplies
    exact absurd hlt (by decide)

end AgeWorld

end Mybro
