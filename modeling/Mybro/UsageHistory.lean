import Mybro.AdminRuns
import Mybro.Lib.UrlQuery
import Mybro.StatsQueries

/-!
# The usage history (`routes/usage_api.rs`, `upstream.rs`)

`get_usage_history` puts its decoded parameters together again without encoding them, and takes the
string as the query for upstream and as the key of its cache. `usageHistory_faithful_iff` says for
which parameters the query stands for them, and in which runs an answer of the cache is one to the
question asked.
-/

namespace Mybro

open Runs Value

/-! ### The query -/

/-- The parameters that are forwarded. -/
def historyParams : List String := ["from", "to", "granularity", "scope"]

/-- The parameters that are supplied, with their values. -/
def supplied (params : QueryParams) : List (String × String) :=
  historyParams.filterMap fun k => (params k).map fun v => (k, v)

/-- The query for upstream, and the key of the cache. -/
def historyQuery (params : QueryParams) : String :=
  "&".intercalate (historyParams.filterMap fun k => (params k).map fun v => k ++ "=" ++ v)

/-- The path of `Upstream::get_usage_history`. -/
def usageHistoryPath (query : String) : String :=
  if query = "" then "/usage/history" else "/usage/history?" ++ query

/-- What stands behind the `?` of a path. -/
def queryOfPath (path : String) : List Char := (path.toList.dropWhile (· ≠ '?')).drop 1

/-- The parameters ask the same. -/
def SameQuestion (p q : QueryParams) : Prop := ∀ k ∈ historyParams, p k = q k

/-- The values have no `&`, no `+`, no `#`, no tab and no line break, and no percent escape in them,
and the last one does not end with a space or a control character. -/
structure SafeParams (p : QueryParams) : Prop where
  safe : ∀ k ∈ historyParams, ∀ v, p k = some v → UrlQuery.Safe v.toList
  endsWell : ∀ e ∈ (supplied p).getLast?, UrlQuery.EndsWell e.2.toList

/-! ### The handler -/

/-- `USAGE_HISTORY_CACHE`: what was stored under a query, and when. -/
abbrev HistoryCache := List (String × ℕ × Value)

/-- A response with a text. -/
def textResponse (status : ℕ) (text : String) : Response where
  status := status
  headers := [header "content-type" "text/plain; charset=utf-8"]
  body := .bytes (Utf8.encode text)

/-- The entry for a query, if it is young. -/
def cachedHistory (cache : HistoryCache) (query : String) (now : ℕ) : Option Value :=
  match cache.lookup query with
  | some (fetchedAt, v) => if isYoung fetchedAt now then some v else none
  | none => none

/-- How `get_usage_history` goes on after its checks: it refuses, answers from the cache, or asks
upstream. -/
inductive HistoryStep
  | refuse (response : Response)
  | answer (v : Value)
  | forward (key query : String)

/-- `get_usage_history` up to its call to upstream. -/
def getUsageHistory (cfg : Config) (cache : HistoryCache) (headers : HeaderMap)
    (key : Option String) (params : QueryParams) (now : ℕ) : HistoryStep :=
  if checkAuth cfg headers then
    match key.filter fun k => k ≠ "" with
    | none => .refuse (textResponse 503 "No active key")
    | some key =>
      let query := historyQuery params
      let fresh := decide (params "fresh" = some "1")
      match if fresh then none else cachedHistory cache query now with
      | some v => .answer v
      | none => .forward key query
  else .refuse (authErrorResponse .openAI)

/-- What comes of a call to upstream. -/
def historyReply (env : Env) (o : Outside) : Except String Value :=
  match o.status with
  | .ok status =>
    if isSuccess status then
      match o.body with
      | .ok bytes => .ok ((env.fromSlice bytes).toOption.getD (object []))
      | .error _ => .error "Failed to read usage history"
    else .error "Upstream error"
  | .error _ => .error "Failed to fetch usage history"

/-- `get_usage_history` after its call to upstream: the response, and the cache. -/
def finishUsageHistory (env : Env) (cache : HistoryCache) (query : String) (o : Outside) :
    Response × HistoryCache :=
  match historyReply env o with
  | .ok v => (jsonResponse v, (query, o.clock 0, v) :: cache)
  | .error text => (textResponse 502 text, cache)

/-! ### Runs -/

/-- The cache, the requests that wait for upstream, what upstream has answered to which question,
and what the cache has. -/
structure HistoryState where
  cache : HistoryCache := []
  waiting : List QueryParams := []
  given : List (List (String × String) × Value) := []
  served : List (List (String × String) × Value) := []

/-- What happens: a request comes in, or upstream is done with one that waits. -/
inductive HistoryEvent
  | request (headers : HeaderMap) (key : Option String) (params : QueryParams) (now : ℕ)
  | reply (i : ℕ) (o : Outside)

namespace HistoryState

/-- One step. -/
def step (env : Env) (cfg : Config) (s : HistoryState) : HistoryEvent → Option HistoryState
  | .request headers key params now =>
    match getUsageHistory cfg s.cache headers key params now with
    | .refuse _ => some s
    | .answer v => some { s with served := (supplied params, v) :: s.served }
    | .forward _ _ => some { s with waiting := s.waiting ++ [params] }
  | .reply i o =>
    match s.waiting[i]? with
    | some params => some { s with
        cache := (finishUsageHistory env s.cache (historyQuery params) o).2
        waiting := s.waiting.eraseIdx i
        given :=
          (historyReply env o).toOption.toList.map (fun v => (supplied params, v)) ++ s.given }
    | none => none

/-- A run of the handler. -/
abbrev IsRun (env : Env) (cfg : Config) (s : HistoryState)
    (r : List (HistoryEvent × HistoryState)) : Prop :=
  Runs.IsRun (Runs.ofFun (step env cfg)) s r

/-- Whatever the cache has answered was given for the same question. -/
def ServedRight (s : HistoryState) : Prop := ∀ e ∈ s.served, e ∈ s.given

/-- The condition on a step: a request has safe parameters. -/
def AsksSafely (_ : HistoryState) : HistoryEvent → Prop
  | .request _ _ params _ => SafeParams params
  | .reply _ _ => True

end HistoryState

/-! ### What the query stands for -/

section

variable {p q : QueryParams}

/-- The query that upstream finds in the path. -/
theorem queryOfPath_usageHistoryPath (query : String) :
    queryOfPath (usageHistoryPath query) = query.toList := by
  unfold usageHistoryPath
  split_ifs with hempty
  · rw [hempty]
    decide
  · unfold queryOfPath
    rw [String.toList_append]
    simp

/-- The query of names and values that are joined as strings. -/
theorem toList_intercalate (l : List (String × String)) :
    ("&".intercalate (l.map fun e => e.1 ++ "=" ++ e.2)).toList = UrlQuery.build l := by
  have hsegment : ∀ e : String × String, (e.1 ++ "=" ++ e.2).toList = UrlQuery.segment e := by
    intro e
    rw [String.toList_append, String.toList_append, List.append_assoc]
    rfl
  induction l with
  | nil => rfl
  | cons e l ih =>
    cases l with
    | nil =>
      rw [List.map_singleton, String.intercalate_singleton]
      exact hsegment e
    | cons e' l =>
      rw [List.map_cons, String.intercalate_cons_of_ne_nil (by simp), String.toList_append,
        String.toList_append, ih, hsegment, List.append_assoc]
      rfl

theorem toList_historyQuery (p : QueryParams) :
    (historyQuery p).toList = UrlQuery.build (supplied p) := by
  rw [← toList_intercalate, supplied, List.map_filterMap]
  simp only [Option.map_map]
  rfl

theorem mem_supplied {e : String × String} :
    e ∈ supplied p ↔ e.1 ∈ historyParams ∧ p e.1 = some e.2 := by
  unfold supplied
  rw [List.mem_filterMap]
  constructor
  · rintro ⟨k, hk, h⟩
    obtain ⟨v, hv, rfl⟩ := Option.map_eq_some_iff.1 h
    exact ⟨hk, hv⟩
  · rintro ⟨hk, hv⟩
    exact ⟨e.1, hk, by rw [hv]; rfl⟩

theorem isPlain_of_mem_supplied {e : String × String} (he : e ∈ supplied p) :
    UrlQuery.IsPlain e.1 := by
  have hall : ∀ k ∈ historyParams,
      k.toList.all (fun c => 97 ≤ c.toNat && c.toNat ≤ 122) = true := by decide
  intro c hc
  simpa using List.all_eq_true.1 (hall e.1 (mem_supplied.1 he).1) c hc

/-- The same is supplied exactly when the same is asked. -/
theorem supplied_eq_iff : supplied p = supplied q ↔ SameQuestion p q := by
  constructor
  · intro h k hk
    have hiff : ∀ v, p k = some v ↔ q k = some v := fun v => by
      have hmem : (k, v) ∈ supplied p ↔ (k, v) ∈ supplied q := by rw [h]
      rw [mem_supplied, mem_supplied] at hmem
      simpa [hk] using hmem
    exact Option.ext hiff
  · intro h
    exact List.filterMap_congr fun k hk => by rw [h k hk]

/-- **The query is read as the parameters exactly when they are safe.** -/
theorem parse_historyQuery_iff :
    UrlQuery.parse (historyQuery p).toList = supplied p ↔ SafeParams p := by
  rw [toList_historyQuery, UrlQuery.parse_build_iff fun e he => isPlain_of_mem_supplied he]
  constructor
  · rintro ⟨hsafe, hend⟩
    exact ⟨fun k hk v hv => hsafe (k, v) (mem_supplied.2 ⟨hk, hv⟩), hend⟩
  · rintro ⟨hsafe, hend⟩
    exact ⟨fun e he => hsafe e.1 (mem_supplied.1 he).1 e.2 (mem_supplied.1 he).2, hend⟩

/-- Queries that are read as their parameters are different for different questions. -/
theorem sameQuestion_of_historyQuery (hp : SafeParams p) (hq : SafeParams q)
    (h : historyQuery p = historyQuery q) : SameQuestion p q := by
  rw [← supplied_eq_iff, ← parse_historyQuery_iff.2 hp, ← parse_historyQuery_iff.2 hq, h]

end

/-! ### What the cache answers -/

namespace HistoryState

variable {env : Env} {cfg : Config} {s t : HistoryState} {l : HistoryEvent}

/-- The invariant of a run with safe parameters: what is stored under a query was given for a
question with that query. -/
structure Inv (s : HistoryState) : Prop where
  stored : ∀ query fetchedAt v, (query, fetchedAt, v) ∈ s.cache →
    ∃ p, SafeParams p ∧ historyQuery p = query ∧ (supplied p, v) ∈ s.given
  waiting : ∀ p ∈ s.waiting, SafeParams p
  servedRight : ServedRight s

theorem inv_empty : Inv {} := ⟨nofun, nofun, nofun⟩

/-- An answer of the cache is stored under the query of the parameters. -/
theorem mem_cache_of_answer {cache : HistoryCache} {headers : HeaderMap} {key : Option String}
    {params : QueryParams} {now : ℕ} {v : Value}
    (h : getUsageHistory cfg cache headers key params now = .answer v) :
    ∃ fetchedAt, (historyQuery params, fetchedAt, v) ∈ cache := by
  have hcached : cachedHistory cache (historyQuery params) now = some v := by
    unfold getUsageHistory at h
    split_ifs at h
    split at h
    · cases h
    · simp only at h
      split at h
      · rename_i hfound
        cases h
        split_ifs at hfound
        exact hfound
      · cases h
  unfold cachedHistory at hcached
  split at hcached
  · rename_i fetchedAt v' hlookup
    split_ifs at hcached
    cases hcached
    obtain ⟨l₁, l₂, hcache, -⟩ := List.lookup_eq_some_iff.1 hlookup
    exact ⟨fetchedAt, by rw [hcache]; simp⟩
  · cases hcached

/-- **What a step keeps**, if it asks safely. -/
theorem Inv.step (hs : Inv s) (hsafe : AsksSafely s l)
    (h : HistoryState.step env cfg s l = some t) : Inv t := by
  cases l with
  | request headers key params now =>
    simp only [HistoryState.step] at h
    cases hstep : getUsageHistory cfg s.cache headers key params now with
    | refuse response =>
      rw [hstep] at h
      cases h
      exact hs
    | answer v =>
      rw [hstep] at h
      cases h
      obtain ⟨fetchedAt, hmem⟩ := mem_cache_of_answer hstep
      obtain ⟨p, hp, hquery, hgiven⟩ := hs.stored _ _ _ hmem
      have hsame : supplied p = supplied params :=
        supplied_eq_iff.2 (sameQuestion_of_historyQuery hp hsafe hquery)
      refine ⟨hs.stored, hs.waiting, fun e he => ?_⟩
      rcases List.mem_cons.1 he with rfl | he
      · rw [← hsame]
        exact hgiven
      · exact hs.servedRight e he
    | forward key query =>
      rw [hstep] at h
      cases h
      refine ⟨hs.stored, fun p hp => ?_, hs.servedRight⟩
      rcases List.mem_append.1 hp with hp | hp
      · exact hs.waiting p hp
      · rw [List.mem_singleton.1 hp]
        exact hsafe
  | reply i o =>
    simp only [HistoryState.step] at h
    cases hwaiting : s.waiting[i]? with
    | none =>
      rw [hwaiting] at h
      cases h
    | some params =>
      rw [hwaiting] at h
      cases h
      have hparams : SafeParams params := hs.waiting params (List.mem_of_getElem? hwaiting)
      refine ⟨fun query fetchedAt v hmem => ?_,
        fun p hp => hs.waiting p (List.mem_of_mem_eraseIdx hp),
        fun e he => List.mem_append_right _ (hs.servedRight e he)⟩
      have hold : (query, fetchedAt, v) ∈ s.cache → ∃ p, SafeParams p ∧ historyQuery p = query ∧
          (supplied p, v) ∈ (historyReply env o).toOption.toList.map
            (fun v => (supplied params, v)) ++ s.given := by
        intro hmem
        obtain ⟨p, hp, hquery, hgiven⟩ := hs.stored _ _ _ hmem
        exact ⟨p, hp, hquery, List.mem_append_right _ hgiven⟩
      unfold finishUsageHistory at hmem
      cases hreply : historyReply env o with
      | error text =>
        rw [hreply] at hmem hold
        exact hold hmem
      | ok v' =>
        rw [hreply] at hmem hold
        rcases List.mem_cons.1 hmem with heq | hmem
        · cases heq
          exact ⟨params, hparams, rfl, List.mem_append_left _ (by simp [Except.toOption])⟩
        · exact hold hmem

/-- **When everything is asked safely, the cache answers the question asked.** -/
theorem servedRight_of_asksSafely {r : List (HistoryEvent × HistoryState)} (hr : IsRun env cfg {} r)
    (hsafe : EachStep AsksSafely {} r) : Always ServedRight {} r :=
  (always_of_step (P := Inv) (fun _ _ _ hs hC hst => hs.step hC hst) inv_empty hr hsafe).mono
    fun _ hs => hs.servedRight

end HistoryState

/-! ### When the query is faithful -/

/-- Equal queries mean equal questions, and the queries are read as what was supplied. -/
structure HistoryFaithful (p q : QueryParams) : Prop where
  injective : historyQuery p = historyQuery q → SameQuestion p q
  reads : UrlQuery.parse (queryOfPath (usageHistoryPath (historyQuery p))) = supplied p
  reads' : UrlQuery.parse (queryOfPath (usageHistoryPath (historyQuery q))) = supplied q

/-- **The queries of two questions stand for them exactly when the parameters of both are safe**;
and in a run in which all parameters are, the cache only gives answers to the question asked. -/
theorem usageHistory_faithful_iff (p q : QueryParams) :
    (HistoryFaithful p q ↔ SafeParams p ∧ SafeParams q) ∧
      ∀ (env : Env) (cfg : Config) (r : List (HistoryEvent × HistoryState)),
        HistoryState.IsRun env cfg {} r → EachStep HistoryState.AsksSafely {} r →
          Always HistoryState.ServedRight {} r := by
  refine ⟨⟨fun h => ?_, fun ⟨hp, hq⟩ => ⟨sameQuestion_of_historyQuery hp hq, ?_, ?_⟩⟩,
    fun env cfg r hr hsafe => HistoryState.servedRight_of_asksSafely hr hsafe⟩
  · have hp := h.reads
    have hq := h.reads'
    rw [queryOfPath_usageHistoryPath] at hp hq
    exact ⟨parse_historyQuery_iff.1 hp, parse_historyQuery_iff.1 hq⟩
  · rw [queryOfPath_usageHistoryPath]
    exact parse_historyQuery_iff.2 hp
  · rw [queryOfPath_usageHistoryPath]
    exact parse_historyQuery_iff.2 hq

/-- The parameters of a list of names and values. -/
def paramsOf (l : List (String × String)) : QueryParams := fun k => l.lookup k

/-- An `&` in a value makes two questions one. -/
theorem ampersand_collides :
    historyQuery (paramsOf [("from", "a&to=b")]) =
        historyQuery (paramsOf [("from", "a"), ("to", "b")]) ∧
      ¬ HistoryFaithful (paramsOf [("from", "a&to=b")]) (paramsOf [("from", "a"), ("to", "b")]) ∧
      ∃ r, HistoryState.IsRun (envParsing (.bool true) []) {} {} r ∧
        (final {} r).served = [([("from", "a"), ("to", "b")], .bool true)] ∧
        (final {} r).given = [([("from", "a&to=b")], .bool true)] ∧
        ¬ Always HistoryState.ServedRight {} r := by
  have hequal : historyQuery (paramsOf [("from", "a&to=b")]) =
      historyQuery (paramsOf [("from", "a"), ("to", "b")]) := by decide
  refine ⟨hequal, fun h => ?_, ?_⟩
  · exact absurd (h.injective hequal "to" (by decide)) (by decide)
  · have hr : HistoryState.IsRun (envParsing (.bool true) []) {} {}
        [(.request [] (some "sk-1") (paramsOf [("from", "a&to=b")]) 0, _),
          (.reply 0 ⟨fun _ => 0, .ok 200, .ok (Value.bool true).toVec⟩, _),
          (.request [] (some "sk-1") (paramsOf [("from", "a"), ("to", "b")]) 0, _)] :=
      ⟨rfl, rfl, rfl, trivial⟩
    refine ⟨_, hr, rfl, rfl, fun h => ?_⟩
    have hmem := h.final _ List.mem_cons_self
    have hlength := congrArg (fun e => e.1.length) (List.mem_singleton.1 hmem)
    exact absurd hlength (by decide)

/-- One parameter with a safe value. -/
theorem safeParams_singleton {k v : String} (hv : UrlQuery.Safe v.toList)
    (hend : UrlQuery.EndsWell v.toList) : SafeParams (paramsOf [(k, v)]) := by
  have honly : ∀ k' v', paramsOf [(k, v)] k' = some v' → v' = v := by
    intro k' v' hv'
    unfold paramsOf at hv'
    rw [List.lookup_cons] at hv'
    split at hv' <;> cases hv'
    rfl
  refine ⟨fun k' _ v' hv' => ?_, fun e he => ?_⟩
  · rw [honly k' v' hv']
    exact hv
  · rw [honly e.1 e.2 (mem_supplied.1 (List.mem_of_getLast? he)).2]
    exact hend

/-- Two questions about a day each have different queries; and when the first one is asked again,
the cache gives what upstream answered to it. -/
theorem usageHistory_faithful_days :
    HistoryFaithful (paramsOf [("from", "2026-01-01")]) (paramsOf [("to", "2026-01-01")]) ∧
      ∃ r, HistoryState.IsRun (envParsing (.bool true) []) {} {} r ∧
        (final {} r).served = [([("from", "2026-01-01")], .bool true)] ∧
        Always HistoryState.ServedRight {} r := by
  have hday : UrlQuery.Safe "2026-01-01".toList :=
    ⟨by simp [UrlQuery.isDropped], UrlQuery.not_escaped_of_not_mem (by decide)⟩
  have hend : UrlQuery.EndsWell "2026-01-01".toList := by
    intro c hc
    obtain rfl : '1' = c := Option.some.inj hc
    rfl
  have hfrom : SafeParams (paramsOf [("from", "2026-01-01")]) := safeParams_singleton hday hend
  have hfaithful := usageHistory_faithful_iff (paramsOf [("from", "2026-01-01")])
    (paramsOf [("to", "2026-01-01")])
  have hr : HistoryState.IsRun (envParsing (.bool true) []) {} {}
      [(.request [] (some "sk-1") (paramsOf [("from", "2026-01-01")]) 0, _),
        (.reply 0 ⟨fun _ => 0, .ok 200, .ok (Value.bool true).toVec⟩, _),
        (.request [] (some "sk-1") (paramsOf [("from", "2026-01-01")]) 0, _)] :=
    ⟨rfl, rfl, rfl, trivial⟩
  exact ⟨hfaithful.1.2 ⟨hfrom, safeParams_singleton hday hend⟩, _, hr, rfl,
    hfaithful.2 _ _ _ hr ⟨hfrom, trivial, hfrom, trivial⟩⟩

end Mybro
