import Mybro.BucketSums
import Mybro.Lib.Checked
import Mybro.StatsBreakdown

/-!
# The aggregates with checked arithmetic (`stats.rs`)

The in-memory paths of `buckets`, `summary` and `token_stats` once more, with every addition,
multiplication, subtraction, division and index checked: they return nothing where the build with
overflow checks would panic. Where they return something, it is what the release build computes;
`memoryBucketsChecked_eq_some_iff`, `memorySummaryChecked_eq_some_iff` and
`memoryTokenStatsChecked_eq_some_iff` say for which records that is.
-/

namespace Mybro

/-! ### Buckets -/

/-- What a record adds to the entry of its model, checked. -/
def ModelBucket.addChecked (r : RequestRecord) (e : ModelBucket) : Option ModelBucket := do
  let count ← Checked.add e.count 1
  let latencySumMs ← Checked.add e.latencySumMs r.durationMs
  let tokensIn ← Checked.add e.tokensIn r.tokensIn
  let tokensOut ← Checked.add e.tokensOut r.tokensOut
  some {
    count := count
    latencySumMs := latencySumMs
    tokensIn := tokensIn
    tokensOut := tokensOut }

/-- `entry(..).or_default()`, changed by an `f` that may fail. -/
def modelEntryChecked (name : String) (f : ModelBucket → Option ModelBucket) :
    List (String × ModelBucket) → Option (List (String × ModelBucket))
  | [] => (f {}).map fun b => [(name, b)]
  | (other, b) :: rest =>
    if name = other then (f b).map fun b => (other, b) :: rest
    else if name < other then (f {}).map fun new => (name, new) :: (other, b) :: rest
    else (modelEntryChecked name f rest).map fun rest => (other, b) :: rest

/-- `BucketAcc.add`, checked. -/
def BucketAcc.addChecked (a : BucketAcc) (r : RequestRecord) : Option BucketAcc := do
  let count ← Checked.add a.bucket.count 1
  let errors ← Checked.add a.bucket.errors (tally (r.status ≥ 400))
  let throttled ← Checked.add a.bucket.throttled (tally (isThrottled r))
  let tokensIn ← Checked.add a.bucket.tokensIn r.tokensIn
  let tokensOut ← Checked.add a.bucket.tokensOut r.tokensOut
  let cachedTokens ← Checked.add a.bucket.cachedTokens r.cachedTokens
  let cacheCreationTokens ← Checked.add a.bucket.cacheCreationTokens r.cacheCreationTokens
  let cached ← Checked.add a.bucket.cached (tally (hitsCache r))
  let byModel ← modelEntryChecked r.model (ModelBucket.addChecked r) a.bucket.byModel
  some {
    bucket := { a.bucket with
      count := count
      errors := errors
      throttled := throttled
      maxLatencyMs := max a.bucket.maxLatencyMs r.durationMs
      tokensIn := tokensIn
      tokensOut := tokensOut
      cachedTokens := cachedTokens
      cacheCreationTokens := cacheCreationTokens
      cached := cached
      byModel := byModel }
    latencies := a.latencies ++ [r.durationMs]
    ttfts := a.ttfts ++ r.ttftMs.toList }

/-- The average of a list of machine words, or 0, with the sum checked. -/
def averageChecked (l : List UInt64) : Option ℚ :=
  if l = [] then some 0 else (Checked.sum l).map fun sum => quotient sum.toNat l.length

/-- `percentile`, with the index checked. -/
def percentileChecked (sorted : List UInt64) (p : ℕ) : Option ℚ :=
  match sorted with
  | [] => some 0
  | _ =>
    let idx := (2 * p * (sorted.length - 1) + 100) / 200
    sorted[min idx (sorted.length - 1)]?.map fun x => Rounding.round x.toNat

/-- The second pass of `buckets`, checked. -/
def BucketAcc.finishChecked (a : BucketAcc) : Option StatsBucket :=
  if a.bucket.count = 0 then some a.bucket
  else do
    let avgLatencyMs ← averageChecked a.latencies
    let p50LatencyMs ← percentileChecked a.latencies.mergeSort 50
    let p95LatencyMs ← percentileChecked a.latencies.mergeSort 95
    let avgTtftMs ← averageChecked a.ttfts
    let p50TtftMs ← percentileChecked a.ttfts.mergeSort 50
    let p95TtftMs ← percentileChecked a.ttfts.mergeSort 95
    some { a.bucket with
      avgLatencyMs := avgLatencyMs
      p50LatencyMs := p50LatencyMs
      p95LatencyMs := p95LatencyMs
      avgTtftMs := avgTtftMs
      p50TtftMs := p50TtftMs
      p95TtftMs := p95TtftMs
      cacheHitRate := ratio a.bucket.cachedTokens a.bucket.tokensIn }

/-- The bucket a record is counted in, checked; `some none` where the loop goes on to the next
record. -/
def bucketOfChecked (nowMs windowMs bucketMs : UInt64) (model : Option String) (r : RequestRecord) :
    Option (Option ℕ) :=
  if r.tsMs < startMs nowMs windowMs || r.tsMs > nowMs then some none
  else if !hasModel model r then some none
  else do
    let age ← Checked.sub r.tsMs (startMs nowMs windowMs)
    let bi ← Checked.div age bucketMs
    some (if bi.toNat ≥ numBuckets windowMs bucketMs then none else some bi.toNat)

/-- An empty bucket, its beginning checked. -/
def emptyBucketChecked (start bucketMs : UInt64) (i : ℕ) : Option BucketAcc := do
  let offset ← Checked.mul (UInt64.ofNat i) bucketMs
  let tsMs ← Checked.add start offset
  some { bucket := { tsMs := tsMs } }

/-- The in-memory path of `StatsCollector::buckets`, checked. -/
def memoryBucketsChecked (records : List RequestRecord) (nowMs windowMs bucketMs : UInt64)
    (model : Option String) : Option (List StatsBucket) := do
  let quotient ← Checked.div windowMs bucketMs
  let empty ← (List.range (max quotient 1).toNat).mapM
    (emptyBucketChecked (startMs nowMs windowMs) bucketMs)
  let filled ← records.foldlM (fun buckets r => do
    match ← bucketOfChecked nowMs windowMs bucketMs model r with
    | some bi => do
      let bucket ← buckets[bi]?
      let bucket ← bucket.addChecked r
      some (buckets.set bi bucket)
    | none => some buckets) empty
  filled.mapM BucketAcc.finishChecked

/-! ### Summaries -/

/-- What a record adds to the generated tokens and the generation time, checked. -/
def addGenerationChecked (acc : UInt64 × UInt64) (r : RequestRecord) : Option (UInt64 × UInt64) :=
  match r.ttftMs with
  | some ttft =>
    if r.durationMs > ttft then do
      let tokens ← Checked.add acc.1 r.tokensOut
      let generating ← Checked.sub r.durationMs ttft
      let time ← Checked.add acc.2 generating
      some (tokens, time)
    else some acc
  | none => some acc

/-- The average latency of a summary, with the sum checked. -/
def latencyChecked (rs : List RequestRecord) : Option ℚ :=
  if lenU64 rs > 0 then
    (Checked.sum (rs.map fun r => r.durationMs)).map fun sum =>
      quotient sum.toNat (lenU64 rs).toNat
  else some 0

/-- The in-memory path of `StatsCollector::summary`, checked. -/
def memorySummaryChecked (records : List RequestRecord) (nowMs windowMs : UInt64)
    (model : Option String) : Option StatsSummary := do
  let rs := relevant records nowMs windowMs model
  let cachedTokens ← Checked.sum (rs.map fun r => r.cachedTokens)
  let cacheCreationTokens ← Checked.sum (rs.map fun r => r.cacheCreationTokens)
  let tokensIn ← Checked.sum (rs.map fun r => r.tokensIn)
  let tokensOut ← Checked.sum (rs.map fun r => r.tokensOut)
  let avgLatencyMs ← latencyChecked rs
  let avgTtftMs ← averageChecked (rs.filterMap fun r => r.ttftMs)
  let generated ← rs.foldlM addGenerationChecked (0, 0)
  some {
    count := lenU64 rs
    errors := lenU64 (rs.filter fun r => r.status ≥ 400)
    throttled := lenU64 (rs.filter isThrottled)
    cached := lenU64 (rs.filter fun r => r.cached)
    cachedTokens := cachedTokens
    cacheCreationTokens := cacheCreationTokens
    cacheHitRate := ratio cachedTokens tokensIn
    tokensIn := tokensIn
    tokensOut := tokensOut
    avgLatencyMs := avgLatencyMs
    avgTtftMs := avgTtftMs
    maxContextTokens := ((rs.map fun r => r.tokensIn).max?).getD 0
    genTokensOut := generated.1
    genTimeMs := generated.2 }

/-! ### Token statistics -/

/-- The change a record makes to the summary of its key, checked. -/
def TokenSummary.addChecked (r : RequestRecord) (e : TokenSummary) : Option TokenSummary := do
  let count ← Checked.add e.count 1
  let errors ← Checked.add e.errors (tally (r.status ≥ 400))
  let tokensIn ← Checked.add e.tokensIn r.tokensIn
  let tokensOut ← Checked.add e.tokensOut r.tokensOut
  some { e with count := count, errors := errors, tokensIn := tokensIn, tokensOut := tokensOut }

/-- `entry(..).or_insert_with(..)`, changed by an `f` that may fail. -/
def tokenEntryChecked (name : String) (f : TokenSummary → Option TokenSummary) :
    List TokenSummary → Option (List TokenSummary)
  | [] => (f { keyName := name }).map fun e => [e]
  | e :: rest =>
    if name = e.keyName then (f e).map fun e => e :: rest
    else if name < e.keyName then (f { keyName := name }).map fun new => new :: e :: rest
    else (tokenEntryChecked name f rest).map fun rest => e :: rest

/-- The in-memory path of `StatsCollector::token_stats`, checked. -/
def memoryTokenStatsChecked (records : List RequestRecord) (nowMs windowMs : UInt64)
    (model : Option String) : Option (List TokenSummary) := do
  let byKey ← (relevant records nowMs windowMs model).foldlM
    (fun byKey r => tokenEntryChecked r.keyName (TokenSummary.addChecked r) byKey) []
  some (byKey.map fun e => { e with avgLatencyMs := 0 })

/-! ### What has to fit -/

/-- The sums over the values of some records are machine words. -/
structure ColumnsFit (rs : List RequestRecord) : Prop where
  tokensIn : (rs.map fun r => r.tokensIn.toNat).sum < 2 ^ 64
  tokensOut : (rs.map fun r => r.tokensOut.toNat).sum < 2 ^ 64
  cachedTokens : (rs.map fun r => r.cachedTokens.toNat).sum < 2 ^ 64
  cacheCreationTokens : (rs.map fun r => r.cacheCreationTokens.toNat).sum < 2 ^ 64
  durationMs : (rs.map fun r => r.durationMs.toNat).sum < 2 ^ 64
  ttftMs : ((rs.filterMap fun r => r.ttftMs).map UInt64.toNat).sum < 2 ^ 64

/-- The values that the entry of a model adds up. -/
inductive ModelColumn where
  | count | latencySumMs | tokensIn | tokensOut

def ModelColumn.ofBucket : ModelColumn → ModelBucket → UInt64
  | .count, e => e.count
  | .latencySumMs, e => e.latencySumMs
  | .tokensIn, e => e.tokensIn
  | .tokensOut, e => e.tokensOut

/-- What a record adds to a value of the entry of its model. -/
def ModelColumn.share : ModelColumn → RequestRecord → UInt64
  | .count, _ => 1
  | .latencySumMs, r => r.durationMs
  | .tokensIn, r => r.tokensIn
  | .tokensOut, r => r.tokensOut

/-- The entry of a model after a record, as `BucketAcc.add` has it. -/
def ModelBucket.add (r : RequestRecord) (e : ModelBucket) : ModelBucket where
  count := e.count + 1
  latencySumMs := e.latencySumMs + r.durationMs
  tokensIn := e.tokensIn + r.tokensIn
  tokensOut := e.tokensOut + r.tokensOut

theorem ModelColumn.ofBucket_add (c : ModelColumn) (r : RequestRecord) (e : ModelBucket) :
    c.ofBucket (e.add r) = c.ofBucket e + c.share r := by
  cases c <;> rfl

section

variable {r : RequestRecord} {rs : List RequestRecord}

/-! ### The entries of the models -/

theorem ModelBucket.addChecked_eq {e e' : ModelBucket} (h : e.addChecked r = some e') :
    e' = e.add r := by
  unfold ModelBucket.addChecked at h
  simp only [Option.bind_eq_bind, Option.bind_eq_some_iff, Checked.add_eq_some_iff,
    Option.some.injEq] at h
  obtain ⟨_, ⟨-, rfl⟩, _, ⟨-, rfl⟩, _, ⟨-, rfl⟩, _, ⟨-, rfl⟩, rfl⟩ := h
  rfl

theorem ModelBucket.addChecked_of_fits {e : ModelBucket}
    (h : ∀ c : ModelColumn, (c.ofBucket e).toNat + (c.share r).toNat < 2 ^ 64) :
    e.addChecked r = some (e.add r) := by
  have hcount : Checked.add e.count 1 = _ := Checked.add_of_fits (h .count)
  have htime : Checked.add e.latencySumMs r.durationMs = _ := Checked.add_of_fits (h .latencySumMs)
  have hin : Checked.add e.tokensIn r.tokensIn = _ := Checked.add_of_fits (h .tokensIn)
  have hout : Checked.add e.tokensOut r.tokensOut = _ := Checked.add_of_fits (h .tokensOut)
  unfold ModelBucket.addChecked
  rw [hcount, htime, hin, hout]
  rfl

theorem modelEntryChecked_eq {f : ModelBucket → Option ModelBucket} {g : ModelBucket → ModelBucket}
    (hf : ∀ e e', f e = some e' → e' = g e) {name : String} {l l' : List (String × ModelBucket)}
    (h : modelEntryChecked name f l = some l') : l' = modelEntry name g l := by
  induction l generalizing l' with
  | nil =>
    obtain ⟨b, hb, rfl⟩ := Option.map_eq_some_iff.1 h
    rw [modelEntry, hf _ _ hb]
  | cons e rest ih =>
    unfold modelEntryChecked at h
    unfold modelEntry
    split_ifs at h ⊢
    · obtain ⟨b, hb, rfl⟩ := Option.map_eq_some_iff.1 h
      rw [hf _ _ hb]
    · obtain ⟨b, hb, rfl⟩ := Option.map_eq_some_iff.1 h
      rw [hf _ _ hb]
    · obtain ⟨rest', hrest, rfl⟩ := Option.map_eq_some_iff.1 h
      rw [ih hrest]

theorem modelEntryChecked_of {f : ModelBucket → Option ModelBucket} {g : ModelBucket → ModelBucket}
    (hnew : f {} = some (g {})) (name : String) {l : List (String × ModelBucket)}
    (h : ∀ e ∈ l, f e.2 = some (g e.2)) :
    modelEntryChecked name f l = some (modelEntry name g l) := by
  induction l with
  | nil =>
    unfold modelEntryChecked
    rw [hnew]
    rfl
  | cons e rest ih =>
    rw [List.forall_mem_cons] at h
    unfold modelEntryChecked modelEntry
    split_ifs
    · rw [h.1]
      rfl
    · rw [hnew]
      rfl
    · rw [ih h.2]
      rfl

/-! ### The first pass -/

theorem BucketAcc.addChecked_eq {a a' : BucketAcc} (h : a.addChecked r = some a') :
    a' = a.add r ∧ ∀ t : Total, (t.ofBucket a.bucket).toNat + (t.share r).toNat < 2 ^ 64 := by
  unfold BucketAcc.addChecked at h
  simp only [Option.bind_eq_bind, Option.bind_eq_some_iff, Checked.add_eq_some_iff,
    Option.some.injEq] at h
  obtain ⟨_, ⟨hcount, rfl⟩, _, ⟨herrors, rfl⟩, _, ⟨hthrottled, rfl⟩, _, ⟨hin, rfl⟩, _, ⟨hout, rfl⟩,
    _, ⟨hcached, rfl⟩, _, ⟨hcreation, rfl⟩, _, ⟨-, rfl⟩, byModel, hmodel, rfl⟩ := h
  refine ⟨?_, fun t => ?_⟩
  · rw [modelEntryChecked_eq (fun _ _ => ModelBucket.addChecked_eq) hmodel]
    rfl
  · cases t with
    | count => exact hcount
    | errors => exact herrors
    | throttled => exact hthrottled
    | tokensIn => exact hin
    | tokensOut => exact hout
    | cachedTokens => exact hcached
    | cacheCreationTokens => exact hcreation

/-- The other direction: a record is added where all values fit. -/
theorem BucketAcc.addChecked_of_fits {a : BucketAcc}
    (htotal : ∀ t : Total, (t.ofBucket a.bucket).toNat + (t.share r).toNat < 2 ^ 64)
    (hhit : a.bucket.cached.toNat + (tally (hitsCache r)).toNat < 2 ^ 64)
    (hnew : ModelBucket.addChecked r {} = some (ModelBucket.add r {}))
    (hentries : ∀ e ∈ a.bucket.byModel, e.2.addChecked r = some (e.2.add r)) :
    a.addChecked r = some (a.add r) := by
  have hcount : Checked.add a.bucket.count 1 = _ := Checked.add_of_fits (htotal .count)
  have herrors : Checked.add a.bucket.errors (tally (r.status ≥ 400)) = _ :=
    Checked.add_of_fits (htotal .errors)
  have hthrottled : Checked.add a.bucket.throttled (tally (isThrottled r)) = _ :=
    Checked.add_of_fits (htotal .throttled)
  have hin : Checked.add a.bucket.tokensIn r.tokensIn = _ :=
    Checked.add_of_fits (htotal .tokensIn)
  have hout : Checked.add a.bucket.tokensOut r.tokensOut = _ :=
    Checked.add_of_fits (htotal .tokensOut)
  have hread : Checked.add a.bucket.cachedTokens r.cachedTokens = _ :=
    Checked.add_of_fits (htotal .cachedTokens)
  have hcreation : Checked.add a.bucket.cacheCreationTokens r.cacheCreationTokens = _ :=
    Checked.add_of_fits (htotal .cacheCreationTokens)
  unfold BucketAcc.addChecked
  rw [hcount, herrors, hthrottled, hin, hout, hread, hcreation, Checked.add_of_fits hhit,
    modelEntryChecked_of hnew r.model hentries]
  rfl

/-- The values that a bucket has and what the records left add to them are machine words. -/
structure Room (a : BucketAcc) (rs : List RequestRecord) : Prop where
  total : ∀ t : Total,
    (t.ofBucket a.bucket).toNat + (rs.map fun r => (t.share r).toNat).sum < 2 ^ 64
  cached : a.bucket.cached.toNat + (rs.map fun r => (tally (hitsCache r)).toNat).sum < 2 ^ 64
  models : ∀ c : ModelColumn, (a.bucket.byModel.map fun e => (c.ofBucket e.2).toNat).sum +
    (rs.map fun r => (c.share r).toNat).sum < 2 ^ 64

/-- Where a record fits into the sums over the models, it fits into the entry of every model. -/
theorem ModelBucket.addChecked_of_mem {byModel : List (String × ModelBucket)}
    (hmodels : ∀ c : ModelColumn,
      (byModel.map fun e => (c.ofBucket e.2).toNat).sum + (c.share r).toNat < 2 ^ 64)
    {e : String × ModelBucket} (he : e ∈ byModel) : e.2.addChecked r = some (e.2.add r) := by
  refine ModelBucket.addChecked_of_fits fun c => ?_
  have hle := List.single_le_sum (fun _ _ => Nat.zero_le _) _
    (List.mem_map_of_mem (f := fun e : String × ModelBucket => (c.ofBucket e.2).toNat) he)
  have hsum := hmodels c
  omega

/-- A new entry takes in any record. -/
theorem ModelBucket.addChecked_new : ModelBucket.addChecked r {} = some (ModelBucket.add r {}) := by
  refine ModelBucket.addChecked_of_fits fun c => ?_
  have hzero : (c.ofBucket {}).toNat = 0 := by cases c <;> rfl
  rw [hzero, Nat.zero_add]
  exact (c.share r).toNat_lt

/-- With room for a record, it is added, and there is room for the others. -/
theorem Room.step {a : BucketAcc} (h : Room a (r :: rs)) :
    ∃ a', a.addChecked r = some a' ∧ Room a' rs := by
  obtain ⟨htotal, hcached, hmodels⟩ := h
  simp only [List.map_cons, List.sum_cons] at htotal hcached hmodels
  have hfits : ∀ t : Total, (t.ofBucket a.bucket).toNat + (t.share r).toNat < 2 ^ 64 := fun t => by
    have := htotal t
    omega
  have hhit : a.bucket.cached.toNat + (tally (hitsCache r)).toNat < 2 ^ 64 := by omega
  have hsums : ∀ c : ModelColumn, (a.bucket.byModel.map fun e => (c.ofBucket e.2).toNat).sum +
      (c.share r).toNat < 2 ^ 64 := fun c => by
    have := hmodels c
    omega
  refine ⟨a.add r, BucketAcc.addChecked_of_fits hfits hhit ModelBucket.addChecked_new
    fun e he => ModelBucket.addChecked_of_mem hsums he, ?_, ?_, ?_⟩
  · intro t
    rw [t.ofBucket_add, Checked.toNat_add (hfits t)]
    have := htotal t
    omega
  · show (a.bucket.cached + tally (hitsCache r)).toNat + _ < _
    rw [Checked.toNat_add hhit]
    omega
  · intro c
    have hzero : c.ofBucket {} = 0 := by cases c <;> rfl
    have hsum : ((a.add r).bucket.byModel.map fun e => (c.ofBucket e.2).toNat).sum = _ :=
      sum_modelEntry (f := ModelBucket.add r) hzero (c.ofBucket_add r) r.model (hsums c)
    rw [hsum]
    have := hmodels c
    omega

/-- A new bucket has room for records whose values fit. -/
theorem room_new (hlen : rs.length < 2 ^ 64) (hfits : ColumnsFit rs) (tsMs : UInt64) :
    Room { bucket := { tsMs := tsMs } } rs := by
  have hones : (rs.map fun _ => (1 : UInt64).toNat).sum < 2 ^ 64 := by simpa using hlen
  have htally : ∀ p : RequestRecord → Bool,
      (rs.map fun r => (tally (p r)).toNat).sum < 2 ^ 64 :=
    fun p => (sum_toNat_tally_le p rs).trans_lt hlen
  refine ⟨fun t => ?_, ?_, fun c => ?_⟩
  · have hzero : (t.ofBucket { tsMs := tsMs }).toNat = 0 := by cases t <;> rfl
    rw [hzero, Nat.zero_add]
    cases t with
    | count => exact hones
    | errors => exact htally fun r => r.status ≥ 400
    | throttled => exact htally isThrottled
    | tokensIn => exact hfits.tokensIn
    | tokensOut => exact hfits.tokensOut
    | cachedTokens => exact hfits.cachedTokens
    | cacheCreationTokens => exact hfits.cacheCreationTokens
  · show 0 + _ < _
    rw [Nat.zero_add]
    exact htally hitsCache
  · show 0 + _ < _
    rw [Nat.zero_add]
    cases c with
    | count => exact hones
    | latencySumMs => exact hfits.durationMs
    | tokensIn => exact hfits.tokensIn
    | tokensOut => exact hfits.tokensOut

theorem foldlM_addChecked {a a' : BucketAcc} (h : rs.foldlM BucketAcc.addChecked a = some a') :
    a' = rs.foldl BucketAcc.add a ∧
      ∀ t : Total,
        (t.ofBucket a.bucket).toNat + (rs.map fun r => (t.share r).toNat).sum < 2 ^ 64 := by
  refine ⟨Checked.foldlM_eq_foldl (fun _ _ _ hadd => (BucketAcc.addChecked_eq hadd).1) h,
    fun t => ?_⟩
  refine Checked.foldlM_fits (fun a : BucketAcc => t.ofBucket a.bucket) t.share
    (fun b r b' hadd => ?_) h
  obtain ⟨rfl, hfits⟩ := BucketAcc.addChecked_eq hadd
  exact ⟨hfits t, t.ofBucket_add b r⟩

/-! ### The second pass -/

theorem averageChecked_eq_some_iff {l : List UInt64} {q : ℚ} :
    averageChecked l = some q ↔ (l.map UInt64.toNat).sum < 2 ^ 64 ∧ q = average l := by
  unfold averageChecked average
  split_ifs with hnil
  · subst hnil
    simp [eq_comm]
  · simp only [Option.map_eq_some_iff, Checked.sum_eq_some_iff]
    constructor
    · rintro ⟨_, ⟨hfits, rfl⟩, rfl⟩
      exact ⟨hfits, rfl⟩
    · rintro ⟨hfits, rfl⟩
      exact ⟨_, ⟨hfits, rfl⟩, rfl⟩

/-- The index of a percentile is never out of range. -/
theorem percentileChecked_eq (l : List UInt64) (p : ℕ) :
    percentileChecked l p = some (percentile l p) := by
  by_cases hne : l = []
  · subst hne
    rfl
  · have hlt := rank_lt (List.length_pos_of_ne_nil hne) p
    have hget : percentileChecked l p =
        l[rank l.length p]?.map fun x => Rounding.round x.toNat := by
      cases l with
      | nil => exact absurd rfl hne
      | cons x l => rfl
    rw [hget, List.getElem?_eq_getElem hlt, percentile_eq hlt]
    rfl

/-- The second pass of a bucket that counts something needs the sums of its two lists. -/
theorem BucketAcc.finishChecked_eq_some_iff {a : BucketAcc} (hcount : a.bucket.count ≠ 0)
    {b : StatsBucket} :
    a.finishChecked = some b ↔
      (a.latencies.map UInt64.toNat).sum < 2 ^ 64 ∧ (a.ttfts.map UInt64.toNat).sum < 2 ^ 64 ∧
        b = a.finish := by
  unfold BucketAcc.finishChecked BucketAcc.finish
  rw [if_neg hcount, if_neg hcount]
  simp only [Option.bind_eq_bind, percentileChecked_eq, Option.bind_some, Option.bind_eq_some_iff,
    averageChecked_eq_some_iff, Option.some.injEq]
  constructor
  · rintro ⟨_, ⟨hlatencies, rfl⟩, _, ⟨httfts, rfl⟩, rfl⟩
    exact ⟨hlatencies, httfts, rfl⟩
  · rintro ⟨hlatencies, httfts, rfl⟩
    exact ⟨_, ⟨hlatencies, rfl⟩, _, ⟨httfts, rfl⟩, rfl⟩

/-- **One bucket, checked.** -/
theorem bucketChecked_iff (hlen : rs.length < 2 ^ 64) (tsMs : UInt64) {b : StatsBucket} :
    (∃ a, rs.foldlM BucketAcc.addChecked { bucket := { tsMs := tsMs } } = some a ∧
        a.finishChecked = some b) ↔
      ColumnsFit rs ∧ b = (rs.foldl BucketAcc.add { bucket := { tsMs := tsMs } }).finish := by
  by_cases hnil : rs = []
  · subst hnil
    constructor
    · rintro ⟨a, ha, hb⟩
      obtain rfl := Option.some.inj ha
      exact ⟨⟨by decide, by decide, by decide, by decide, by decide, by decide⟩,
        (Option.some.inj hb).symm⟩
    · rintro ⟨-, rfl⟩
      exact ⟨_, rfl, rfl⟩
  · have hcount : (rs.foldl BucketAcc.add { bucket := { tsMs := tsMs } }).bucket.count ≠ 0 := by
      have htotal : _ = _ + (rs.map Total.count.share).sum :=
        Total.count.ofBucket_foldl { bucket := { tsMs := tsMs } } rs
      rw [sum_share_count] at htotal
      rw [show (rs.foldl BucketAcc.add { bucket := { tsMs := tsMs } }).bucket.count = _ from htotal]
      exact (UInt64.zero_add (lenU64 rs)).symm ▸ lenU64_ne_zero hnil hlen
    have hlatencies := latencies_foldl { bucket := { tsMs := tsMs } } rs
    have httfts := ttfts_foldl { bucket := { tsMs := tsMs } } rs
    rw [List.nil_append] at hlatencies httfts
    constructor
    · rintro ⟨a, ha, hb⟩
      obtain ⟨rfl, htotal⟩ := foldlM_addChecked ha
      obtain ⟨hduration, httft, rfl⟩ := (BucketAcc.finishChecked_eq_some_iff hcount).1 hb
      rw [hlatencies, List.map_map] at hduration
      rw [httfts] at httft
      have hzero : ∀ t : Total, (rs.map fun r => (t.share r).toNat).sum < 2 ^ 64 := fun t => by
        have := htotal t
        omega
      exact ⟨⟨hzero .tokensIn, hzero .tokensOut, hzero .cachedTokens, hzero .cacheCreationTokens,
        hduration, httft⟩, rfl⟩
    · rintro ⟨hfits, rfl⟩
      obtain ⟨a, ha, -⟩ := Checked.exists_foldlM Room (fun _ _ _ => Room.step)
        (room_new hlen hfits tsMs)
      obtain ⟨rfl, -⟩ := foldlM_addChecked ha
      refine ⟨_, ha, (BucketAcc.finishChecked_eq_some_iff hcount).2 ⟨?_, ?_, rfl⟩⟩
      · rw [hlatencies, List.map_map]
        exact hfits.durationMs
      · rw [httfts]
        exact hfits.ttftMs

/-! ### All buckets -/

variable {records : List RequestRecord} {nowMs windowMs bucketMs : UInt64} {model : Option String}

/-- The bucket of a record is found without an error. -/
theorem bucketOfChecked_eq (hsize : bucketMs ≠ 0) (r : RequestRecord) :
    bucketOfChecked nowMs windowMs bucketMs model r =
      some (bucketOf nowMs windowMs bucketMs model r) := by
  unfold bucketOfChecked bucketOf
  by_cases hstart : r.tsMs < startMs nowMs windowMs
  · simp [hstart]
  · by_cases hnow : r.tsMs > nowMs
    · simp [hnow]
    · have hle : startMs nowMs windowMs ≤ r.tsMs := UInt64.not_lt.1 hstart
      by_cases hmodel : hasModel model r = true
      · simp [hstart, hnow, hmodel, Checked.sub_of_le hle, Checked.div_of_ne_zero hsize]
      · simp [hstart, hnow, hmodel]

/-- **No bucket begins after the last moment there is**, whatever the window and the bucket size. -/
theorem bucketStart_lt {i : ℕ} (hi : i < numBuckets windowMs bucketMs) :
    (startMs nowMs windowMs).toNat + i * bucketMs.toNat < 2 ^ 64 := by
  have hwindow := windowMs.toNat_lt
  have hnow := nowMs.toNat_lt
  rw [toNat_startMs]
  rw [toNat_numBuckets] at hi
  have hquotient := Nat.div_mul_le_self windowMs.toNat bucketMs.toNat
  rcases Nat.eq_zero_or_pos i with rfl | hpos
  · omega
  · -- the bucket ends within the window
    have hend : (i + 1) * bucketMs.toNat ≤ windowMs.toNat :=
      (Nat.mul_le_mul_right _ (by omega)).trans hquotient
    rw [Nat.succ_mul] at hend
    rcases Nat.eq_zero_or_pos bucketMs.toNat with hzero | hsize
    · rw [hzero, Nat.div_zero] at hi
      omega
    · omega

theorem emptyBucketChecked_eq (hsize : bucketMs ≠ 0) {i : ℕ}
    (hi : i < numBuckets windowMs bucketMs) :
    emptyBucketChecked (startMs nowMs windowMs) bucketMs i =
      some { bucket := { tsMs := startMs nowMs windowMs + UInt64.ofNat i * bucketMs } } := by
  have hfits := @bucketStart_lt nowMs windowMs bucketMs i hi
  have hpos := toNat_pos hsize
  have hlt : i < 2 ^ 64 := by nlinarith
  have hnat : (UInt64.ofNat i).toNat = i := UInt64.toNat_ofNat_of_lt' hlt
  have hmul : (UInt64.ofNat i).toNat * bucketMs.toNat < 2 ^ 64 := by
    rw [hnat]
    omega
  unfold emptyBucketChecked
  rw [Checked.mul_of_fits hmul, Option.bind_eq_bind, Option.bind_some, Checked.add_of_fits]
  · rfl
  · rw [Checked.toNat_mul hmul, hnat]
    exact hfits

/-- The loop over the records, with the buckets as slots. -/
theorem memoryBucketsChecked_eq (hsize : bucketMs ≠ 0) :
    memoryBucketsChecked records nowMs windowMs bucketMs model =
      (distributeM (bucketOf nowMs windowMs bucketMs model) BucketAcc.addChecked records
        (emptyBuckets nowMs windowMs bucketMs)).bind fun filled =>
          filled.mapM BucketAcc.finishChecked := by
  have hempty : (List.range (numBuckets windowMs bucketMs)).mapM
      (emptyBucketChecked (startMs nowMs windowMs) bucketMs) =
      some (emptyBuckets nowMs windowMs bucketMs) :=
    mapM_eq_map fun i hi => emptyBucketChecked_eq hsize (List.mem_range.1 hi)
  unfold memoryBucketsChecked
  rw [Checked.div_of_ne_zero hsize, Option.bind_eq_bind, Option.bind_some]
  show Option.bind (List.mapM _ (List.range (numBuckets windowMs bucketMs))) _ = _
  rw [hempty, Option.bind_some]
  unfold distributeM
  simp only [bucketOfChecked_eq hsize]
  rfl

/-- What the loop leaves is what the unchecked one leaves. -/
theorem distribute_of_distributeM {slots slots' : List BucketAcc} {idx : RequestRecord → Option ℕ}
    (h : distributeM idx BucketAcc.addChecked rs slots = some slots') :
    slots' = distribute idx BucketAcc.add rs slots := by
  refine Checked.foldlM_eq_foldl (fun slots r slots' hstep => ?_) h
  cases hr : idx r with
  | none =>
    rw [hr] at hstep
    exact (Option.some.inj hstep).symm
  | some i =>
    simp only [hr, Option.bind_eq_bind, Option.bind_eq_some_iff, Option.some.injEq] at hstep
    obtain ⟨b, hb, b', hadd, rfl⟩ := hstep
    show _ = slots.modify i fun b => b.add r
    rw [(BucketAcc.addChecked_eq hadd).1, List.modify_eq_set_getElem?, hb]
    rfl

theorem getElem?_emptyBuckets {i : ℕ} (hi : i < numBuckets windowMs bucketMs) :
    (emptyBuckets nowMs windowMs bucketMs)[i]? =
      some { bucket := { tsMs := startMs nowMs windowMs + UInt64.ofNat i * bucketMs } } := by
  rw [emptyBuckets, List.getElem?_map, List.getElem?_range hi]
  rfl

theorem columnsFit_nil : ColumnsFit [] :=
  ⟨by decide, by decide, by decide, by decide, by decide, by decide⟩

/-- No record is counted in a bucket that there is not. -/
theorem counted_eq_nil {i : ℕ} (hi : ¬ i < numBuckets windowMs bucketMs) :
    counted records nowMs windowMs bucketMs model i = [] := by
  refine List.filter_eq_nil_iff.2 fun r _ hr => hi ?_
  obtain ⟨-, -, hlt, rfl⟩ := bucketOf_eq_some.1 (of_decide_eq_true hr)
  exact hlt

theorem length_counted_lt (hlen : records.length < 2 ^ 64) (i : ℕ) :
    (counted records nowMs windowMs bucketMs model i).length < 2 ^ 64 :=
  (List.length_filter_le _ _).trans_lt hlen

/-- What the checked buckets show: those of the release build, and that the values of the records of
each can be added up. -/
theorem fits_of_memoryBucketsChecked (hlen : records.length < 2 ^ 64) (hsize : bucketMs ≠ 0)
    {bs : List StatsBucket}
    (h : memoryBucketsChecked records nowMs windowMs bucketMs model = some bs) :
    (∀ i, ColumnsFit (counted records nowMs windowMs bucketMs model i)) ∧
      memoryBuckets records nowMs windowMs bucketMs model = some bs := by
  rw [memoryBucketsChecked_eq hsize] at h
  obtain ⟨filled, hfilled, hfinish⟩ := Option.bind_eq_some_iff.1 h
  obtain ⟨hlength, -, hall⟩ := distributeM_eq_some_iff.1 hfilled
  have hslots : filled.length = numBuckets windowMs bucketMs := by
    rw [hlength, emptyBuckets, List.length_map, List.length_range]
  have hbucket : ∀ i < numBuckets windowMs bucketMs, ∃ a, filled[i]? = some a ∧
      a.finishChecked = some a.finish ∧
      ColumnsFit (counted records nowMs windowMs bucketMs model i) := by
    intro i hi
    obtain ⟨a, ha, hslot⟩ := hall i _ (getElem?_emptyBuckets hi)
    obtain ⟨b, -, hb⟩ := exists_of_forall₂ (forall₂_of_mapM hfinish) (List.mem_of_getElem? hslot)
    obtain ⟨hfits, rfl⟩ := (bucketChecked_iff (length_counted_lt hlen i) _).1 ⟨a, ha, hb⟩
    obtain ⟨rfl, -⟩ := foldlM_addChecked ha
    exact ⟨_, hslot, hb, hfits⟩
  refine ⟨fun i => ?_, ?_⟩
  · by_cases hi : i < numBuckets windowMs bucketMs
    · obtain ⟨-, -, -, hfits⟩ := hbucket i hi
      exact hfits
    · rw [counted_eq_nil hi]
      exact columnsFit_nil
  · have hmap : filled.mapM BucketAcc.finishChecked = some (filled.map BucketAcc.finish) := by
      refine mapM_eq_map fun a ha => ?_
      obtain ⟨i, hi⟩ := List.mem_iff_getElem?.1 ha
      have hlt := (List.getElem?_eq_some_iff.1 hi).1
      obtain ⟨a', hslot, hfinished, -⟩ := hbucket i (hslots ▸ hlt)
      rwa [Option.some.inj (hi.symm.trans hslot)]
    rw [memoryBuckets, if_neg hsize, ← distribute_of_distributeM hfilled, ← hmap, hfinish]

/-- When the values can be added up, the checked buckets are made. -/
theorem memoryBucketsChecked_of_fits (hlen : records.length < 2 ^ 64) (hsize : bucketMs ≠ 0)
    (hfits : ∀ i, ColumnsFit (counted records nowMs windowMs bucketMs model i)) :
    memoryBucketsChecked records nowMs windowMs bucketMs model =
      memoryBuckets records nowMs windowMs bucketMs model := by
  have hslots : (emptyBuckets nowMs windowMs bucketMs).length = numBuckets windowMs bucketMs := by
    rw [emptyBuckets, List.length_map, List.length_range]
  have hbucket : ∀ i, ∃ a,
      (counted records nowMs windowMs bucketMs model i).foldlM BucketAcc.addChecked
        { bucket := { tsMs := startMs nowMs windowMs + UInt64.ofNat i * bucketMs } } = some a ∧
      a.finishChecked = some ((counted records nowMs windowMs bucketMs model i).foldl BucketAcc.add
        { bucket := { tsMs := startMs nowMs windowMs + UInt64.ofNat i * bucketMs } }).finish :=
    fun i => (bucketChecked_iff (length_counted_lt hlen i) _).2 ⟨hfits i, rfl⟩
  have hfilled : distributeM (bucketOf nowMs windowMs bucketMs model) BucketAcc.addChecked records
      (emptyBuckets nowMs windowMs bucketMs) =
      some (distribute (bucketOf nowMs windowMs bucketMs model) BucketAcc.add records
        (emptyBuckets nowMs windowMs bucketMs)) := by
    refine distributeM_eq_some_iff.2 ⟨length_distribute _ _ _, fun r _ i hi => ?_, fun i b hb => ?_⟩
    · obtain ⟨-, -, hlt, rfl⟩ := bucketOf_eq_some.1 hi
      rwa [hslots]
    · have hi : i < numBuckets windowMs bucketMs := hslots ▸ (List.getElem?_eq_some_iff.1 hb).1
      obtain ⟨a, ha, -⟩ := hbucket i
      obtain rfl := Option.some.inj ((getElem?_emptyBuckets hi).symm.trans hb)
      refine ⟨a, ha, ?_⟩
      rw [getElem?_distribute, hb, (foldlM_addChecked ha).1]
      rfl
  rw [memoryBucketsChecked_eq hsize, memoryBuckets, if_neg hsize, hfilled, Option.bind_some]
  refine mapM_eq_map fun a ha => ?_
  obtain ⟨i, hi⟩ := List.mem_iff_getElem?.1 ha
  have hlt : i < numBuckets windowMs bucketMs := by
    rw [← hslots, ← length_distribute BucketAcc.add records]
    exact (List.getElem?_eq_some_iff.1 hi).1
  obtain ⟨a', ha', hfinished⟩ := hbucket i
  rw [getElem?_distribute, getElem?_emptyBuckets hlt] at hi
  obtain rfl := (foldlM_addChecked ha').1
  rw [← Option.some.inj hi]
  exact hfinished

/-- **The buckets of the memory, checked**: they are made exactly when the bucket size is not 0 and
the values of the records of each bucket can be added up, and then they are those of the release
build. -/
theorem memoryBucketsChecked_eq_some_iff (hlen : records.length < 2 ^ 64) {bs : List StatsBucket} :
    memoryBucketsChecked records nowMs windowMs bucketMs model = some bs ↔
      bucketMs ≠ 0 ∧ (∀ i, ColumnsFit (counted records nowMs windowMs bucketMs model i)) ∧
        memoryBuckets records nowMs windowMs bucketMs model = some bs := by
  by_cases hsize : bucketMs = 0
  · subst hsize
    constructor
    · nofun
    · rintro ⟨hne, -⟩
      exact absurd rfl hne
  · constructor
    · intro h
      exact ⟨hsize, fits_of_memoryBucketsChecked hlen hsize h⟩
    · rintro ⟨-, hfits, hbs⟩
      rw [memoryBucketsChecked_of_fits hlen hsize hfits, hbs]

/-! ### The summary -/

theorem addGenerationChecked_eq {acc acc' : UInt64 × UInt64}
    (h : addGenerationChecked acc r = some acc') : acc' = addGeneration acc r := by
  unfold addGenerationChecked at h
  unfold addGeneration
  cases hr : r.ttftMs with
  | none =>
    rw [hr] at h
    exact (Option.some.inj h).symm
  | some ttft =>
    simp only [hr] at h ⊢
    split_ifs at h ⊢ with hlater
    · rw [Checked.sub_of_le (UInt64.le_of_lt hlater)] at h
      simp only [Option.bind_eq_bind, Option.bind_some, Option.bind_eq_some_iff,
        Checked.add_eq_some_iff, Option.some.injEq] at h
      obtain ⟨_, ⟨-, rfl⟩, _, ⟨-, rfl⟩, rfl⟩ := h
      rfl
    · exact (Option.some.inj h).symm

/-- There is room for what a record adds to the generation times, when there is for all of its
tokens and its duration, and for `out` and `time` more. -/
theorem exists_addGenerationChecked (acc : UInt64 × UInt64) (r : RequestRecord) {out time : ℕ}
    (hout : acc.1.toNat + (r.tokensOut.toNat + out) < 2 ^ 64)
    (htime : acc.2.toNat + (r.durationMs.toNat + time) < 2 ^ 64) :
    ∃ acc', addGenerationChecked acc r = some acc' ∧ acc'.1.toNat + out < 2 ^ 64 ∧
      acc'.2.toNat + time < 2 ^ 64 := by
  unfold addGenerationChecked
  cases r.ttftMs with
  | none => exact ⟨acc, rfl, by omega, by omega⟩
  | some ttft =>
    by_cases hlater : r.durationMs > ttft
    · have hle := UInt64.le_of_lt hlater
      have hsub := UInt64.toNat_sub_of_le _ _ hle
      have hfits : acc.2.toNat + (r.durationMs - ttft).toNat < 2 ^ 64 := by omega
      have hfits' : acc.1.toNat + r.tokensOut.toNat < 2 ^ 64 := by omega
      refine ⟨(acc.1 + r.tokensOut, acc.2 + (r.durationMs - ttft)), ?_, ?_, ?_⟩
      · simp only [if_pos hlater, Checked.sub_of_le hle, Checked.add_of_fits hfits,
          Checked.add_of_fits hfits', Option.bind_eq_bind, Option.bind_some]
      · rw [Checked.toNat_add hfits']
        omega
      · rw [Checked.toNat_add hfits]
        omega
    · exact ⟨acc, if_neg hlater, by omega, by omega⟩

/-- The generated tokens and the generation time can be added up where all tokens and durations
can. -/
theorem foldlM_addGenerationChecked (hout : (rs.map fun r => r.tokensOut.toNat).sum < 2 ^ 64)
    (htime : (rs.map fun r => r.durationMs.toNat).sum < 2 ^ 64) :
    rs.foldlM addGenerationChecked (0, 0) = some (rs.foldl addGeneration (0, 0)) := by
  have hroom : (0 : UInt64).toNat + (rs.map fun r => r.tokensOut.toNat).sum < 2 ^ 64 ∧
      (0 : UInt64).toNat + (rs.map fun r => r.durationMs.toNat).sum < 2 ^ 64 :=
    ⟨by simpa using hout, by simpa using htime⟩
  obtain ⟨acc, hacc, -⟩ := Checked.exists_foldlM (f := addGenerationChecked) (b := (0, 0))
    (fun acc rs => acc.1.toNat + (rs.map fun r => r.tokensOut.toNat).sum < 2 ^ 64 ∧
      acc.2.toNat + (rs.map fun r => r.durationMs.toNat).sum < 2 ^ 64)
    (fun acc r _ hroom => exists_addGenerationChecked acc r hroom.1 hroom.2) hroom
  rw [hacc, Checked.foldlM_eq_foldl (fun _ _ _ => addGenerationChecked_eq) hacc]

theorem latencyChecked_eq_some_iff (hlen : rs.length < 2 ^ 64) {q : ℚ} :
    latencyChecked rs = some q ↔
      (rs.map fun r => r.durationMs.toNat).sum < 2 ^ 64 ∧
        q = ratio (rs.map fun r => r.durationMs).sum (lenU64 rs) := by
  unfold latencyChecked ratio
  split_ifs with hpos
  · simp only [Option.map_eq_some_iff, Checked.sum_eq_some_iff, List.map_map]
    constructor
    · rintro ⟨_, ⟨hfits, rfl⟩, rfl⟩
      exact ⟨hfits, rfl⟩
    · rintro ⟨hfits, rfl⟩
      exact ⟨_, ⟨hfits, rfl⟩, rfl⟩
  · have hnil : rs = [] := by
      by_contra hne
      have hzero := lenU64_ne_zero hne hlen
      rw [gt_iff_lt, UInt64.lt_iff_toNat_lt, UInt64.toNat_zero, Nat.not_lt, Nat.le_zero] at hpos
      exact hzero (UInt64.toNat_inj.1 hpos)
    subst hnil
    simp [eq_comm]

/-- **The summary of the memory, checked.** -/
theorem memorySummaryChecked_eq_some_iff (hlen : records.length < 2 ^ 64) {summary : StatsSummary} :
    memorySummaryChecked records nowMs windowMs model = some summary ↔
      ColumnsFit (relevant records nowMs windowMs model) ∧
        summary = memorySummary records nowMs windowMs model := by
  have hlen' : (relevant records nowMs windowMs model).length < 2 ^ 64 :=
    length_relevant_le.trans_lt hlen
  unfold memorySummaryChecked memorySummary
  simp only [Option.bind_eq_bind, Option.bind_eq_some_iff, Checked.sum_eq_some_iff,
    averageChecked_eq_some_iff, latencyChecked_eq_some_iff hlen', List.map_map, Option.some.injEq]
  constructor
  · rintro ⟨_, ⟨hread, rfl⟩, _, ⟨hcreation, rfl⟩, _, ⟨hin, rfl⟩, _, ⟨hout, rfl⟩, _, ⟨htime, rfl⟩, _,
      ⟨httft, rfl⟩, generated, hgenerated, rfl⟩
    refine ⟨⟨hin, hout, hread, hcreation, htime, httft⟩, ?_⟩
    rw [Checked.foldlM_eq_foldl (fun _ _ _ => addGenerationChecked_eq) hgenerated]
  · rintro ⟨⟨hin, hout, hread, hcreation, htime, httft⟩, rfl⟩
    exact ⟨_, ⟨hread, rfl⟩, _, ⟨hcreation, rfl⟩, _, ⟨hin, rfl⟩, _, ⟨hout, rfl⟩, _, ⟨htime, rfl⟩, _,
      ⟨httft, rfl⟩, _, foldlM_addGenerationChecked hout htime, rfl⟩

/-! ### The token statistics -/

theorem TokenSummary.addChecked_eq_some_iff {e e' : TokenSummary} :
    e.addChecked r = some e' ↔
      (e.count.toNat + 1 < 2 ^ 64 ∧ e.errors.toNat + (tally (r.status ≥ 400)).toNat < 2 ^ 64 ∧
        e.tokensIn.toNat + r.tokensIn.toNat < 2 ^ 64 ∧
        e.tokensOut.toNat + r.tokensOut.toNat < 2 ^ 64) ∧ e' = e.add r := by
  unfold TokenSummary.addChecked
  simp only [Option.bind_eq_bind, Option.bind_eq_some_iff, Checked.add_eq_some_iff,
    Option.some.injEq]
  constructor
  · rintro ⟨_, ⟨hcount, rfl⟩, _, ⟨herrors, rfl⟩, _, ⟨hin, rfl⟩, _, ⟨hout, rfl⟩, rfl⟩
    exact ⟨⟨hcount, herrors, hin, hout⟩, rfl⟩
  · rintro ⟨⟨hcount, herrors, hin, hout⟩, rfl⟩
    exact ⟨_, ⟨hcount, rfl⟩, _, ⟨herrors, rfl⟩, _, ⟨hin, rfl⟩, _, ⟨hout, rfl⟩, rfl⟩

/-- In a sorted map, it is the summary of the key that is changed. -/
theorem tokenEntryChecked_eq_some_iff {f : TokenSummary → Option TokenSummary}
    {g : TokenSummary → TokenSummary} {name : String} {l l' : List TokenSummary}
    (hf : ∀ e e', f e = some e' → e' = g e) (hl : Sorted l) :
    tokenEntryChecked name f l = some l' ↔
      f (tokensOf l name) = some (g (tokensOf l name)) ∧ l' = tokenEntry name g l := by
  have hchange : ∀ {β : Type} (e : TokenSummary) (k : TokenSummary → β) (out : β),
      (f e).map k = some out ↔ f e = some (g e) ∧ out = k (g e) := by
    intro β e k out
    rw [Option.map_eq_some_iff]
    constructor
    · rintro ⟨e', he', rfl⟩
      rw [← hf e e' he']
      exact ⟨he', rfl⟩
    · rintro ⟨he, rfl⟩
      exact ⟨_, he, rfl⟩
  induction l generalizing l' with
  | nil => exact hchange _ _ _
  | cons other rest ih =>
    obtain ⟨-, hrest⟩ := List.pairwise_cons.1 hl
    unfold tokenEntryChecked tokenEntry
    split_ifs with hname hlt
    · rw [tokensOf_cons_self hname]
      exact hchange _ _ _
    · rw [tokensOf_of_lt hl hlt]
      exact hchange _ _ _
    · rw [tokensOf_cons_of_ne hname, Option.map_eq_some_iff]
      constructor
      · rintro ⟨rest', hrest', rfl⟩
        obtain ⟨hfound, rfl⟩ := (ih hrest).1 hrest'
        exact ⟨hfound, rfl⟩
      · rintro ⟨hfound, rfl⟩
        exact ⟨_, (ih hrest).2 ⟨hfound, rfl⟩, rfl⟩

/-- The tokens of every key can be added up. -/
def TokensFit (rs : List RequestRecord) : Prop :=
  ∀ name, ((ofKey rs name).map fun r => r.tokensIn.toNat).sum < 2 ^ 64 ∧
    ((ofKey rs name).map fun r => r.tokensOut.toNat).sum < 2 ^ 64

theorem toNat_tokensIn_keySummary {name : String}
    (h : (rs.map fun r => r.tokensIn.toNat).sum < 2 ^ 64) :
    (keySummary name rs).tokensIn.toNat = (rs.map fun r => r.tokensIn.toNat).sum :=
  toNat_sum h

theorem toNat_tokensOut_keySummary {name : String}
    (h : (rs.map fun r => r.tokensOut.toNat).sum < 2 ^ 64) :
    (keySummary name rs).tokensOut.toNat = (rs.map fun r => r.tokensOut.toNat).sum :=
  toNat_sum h

/-- The counts of a key never overflow: they count a list. -/
theorem keySummary_counts_fit (hlen : rs.length + 1 < 2 ^ 64) (name : String) (r : RequestRecord) :
    (keySummary name rs).count.toNat + 1 < 2 ^ 64 ∧
      (keySummary name rs).errors.toNat + (tally (r.status ≥ 400)).toNat < 2 ^ 64 := by
  have hfewer := List.length_filter_le (fun r => decide (r.status ≥ 400)) rs
  have hone : (tally (r.status ≥ 400)).toNat ≤ 1 := by
    cases decide (r.status ≥ 400) <;> decide
  refine ⟨?_, ?_⟩
  · show (lenU64 _).toNat + 1 < _
    rw [toNat_lenU64 (by omega)]
    omega
  · show (lenU64 _).toNat + _ < _
    rw [toNat_lenU64 (by omega)]
    omega

/-- One more record adds to the sums of its own key only. -/
theorem tokensFit_append_iff :
    TokensFit (rs ++ [r]) ↔ TokensFit rs ∧
      ((ofKey rs r.keyName).map fun r => r.tokensIn.toNat).sum + r.tokensIn.toNat < 2 ^ 64 ∧
        ((ofKey rs r.keyName).map fun r => r.tokensOut.toNat).sum + r.tokensOut.toNat < 2 ^ 64 := by
  have hown : ∀ v : RequestRecord → ℕ,
      ((ofKey (rs ++ [r]) r.keyName).map v).sum = ((ofKey rs r.keyName).map v).sum + v r := by
    intro v
    rw [ofKey_append, if_pos rfl, List.map_append, List.sum_append]
    simp
  constructor
  · intro hfits
    obtain ⟨hin, hout⟩ := hfits r.keyName
    rw [hown] at hin hout
    refine ⟨fun name => ?_, hin, hout⟩
    by_cases hname : r.keyName = name
    · subst hname
      exact ⟨by omega, by omega⟩
    · have hother := hfits name
      rwa [ofKey_append, if_neg hname] at hother
  · rintro ⟨hfits, hin, hout⟩ name
    by_cases hname : r.keyName = name
    · subst hname
      rw [hown, hown]
      exact ⟨hin, hout⟩
    · rw [ofKey_append, if_neg hname]
      exact hfits name

/-- The map of `token_stats`, checked: it is made exactly when the tokens of every key can be added
up. -/
theorem tokenMapChecked_eq_some_iff (hlen : rs.length < 2 ^ 64) {byKey : List TokenSummary} :
    rs.foldlM (fun byKey r => tokenEntryChecked r.keyName (TokenSummary.addChecked r) byKey) [] =
        some byKey ↔
      TokensFit rs ∧ byKey = tokenMap rs := by
  induction rs using List.reverseRecOn generalizing byKey with
  | nil => simp [TokensFit, ofKey, tokenMap, eq_comm]
  | append_singleton rs r ih =>
    rw [List.length_append, List.length_singleton] at hlen
    have hrun : (rs ++ [r]).foldlM
        (fun byKey r => tokenEntryChecked r.keyName (TokenSummary.addChecked r) byKey) [] =
          some byKey ↔
        TokensFit rs ∧ tokenEntryChecked r.keyName (TokenSummary.addChecked r) (tokenMap rs) =
          some byKey := by
      rw [List.foldlM_append]
      simp only [List.foldlM_cons, List.foldlM_nil, Option.bind_eq_bind, Option.bind_eq_some_iff,
        ih (by omega : rs.length < 2 ^ 64)]
      simp
    obtain ⟨hsorted, hsummaries⟩ := tokenMap_spec rs
    rw [hrun, tokenEntryChecked_eq_some_iff (g := TokenSummary.add r)
      (fun _ _ h => (TokenSummary.addChecked_eq_some_iff.1 h).2) hsorted, tokensOf_eq hsummaries,
      TokenSummary.addChecked_eq_some_iff, tokenMap_append, ← and_assoc, tokensFit_append_iff]
    refine and_congr_left fun _ => and_congr_right fun hfits => ?_
    obtain ⟨hin, hout⟩ := hfits r.keyName
    rw [toNat_tokensIn_keySummary hin, toNat_tokensOut_keySummary hout]
    have hle : (ofKey rs r.keyName).length ≤ rs.length := List.length_filter_le _ _
    have hroom : (ofKey rs r.keyName).length + 1 < 2 ^ 64 := by omega
    obtain ⟨hcount, herrors⟩ := keySummary_counts_fit hroom r.keyName r
    constructor
    · rintro ⟨⟨-, -, hin', hout'⟩, -⟩
      exact ⟨hin', hout'⟩
    · rintro ⟨hin', hout'⟩
      exact ⟨⟨hcount, herrors, hin', hout'⟩, rfl⟩

/-- **The token statistics of the memory, checked.** -/
theorem memoryTokenStatsChecked_eq_some_iff (hlen : records.length < 2 ^ 64)
    {tokens : List TokenSummary} :
    memoryTokenStatsChecked records nowMs windowMs model = some tokens ↔
      TokensFit (relevant records nowMs windowMs model) ∧
        tokens = memoryTokenStats records nowMs windowMs model := by
  have hlen' : (relevant records nowMs windowMs model).length < 2 ^ 64 :=
    length_relevant_le.trans_lt hlen
  unfold memoryTokenStatsChecked memoryTokenStats
  simp only [Option.bind_eq_bind, Option.bind_eq_some_iff, tokenMapChecked_eq_some_iff hlen',
    Option.some.injEq]
  constructor
  · rintro ⟨_, ⟨hfits, rfl⟩, rfl⟩
    exact ⟨hfits, rfl⟩
  · rintro ⟨hfits, rfl⟩
    exact ⟨_, ⟨hfits, rfl⟩, rfl⟩

end

end Mybro
