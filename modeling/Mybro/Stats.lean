import Mathlib.Data.UInt
import Mybro.Http
import Mybro.Lib.Binary64
import Mybro.Lib.Distribute

/-!
# Request statistics (`stats.rs`)

The aggregates that `StatsCollector` computes from the records in memory: `buckets`, `summary` and
`distinct_models`, each with the records of the ring buffer, oldest first, and the reading of the
clock as arguments. Sums of machine words wrap. What the source converts to `f64` is rounded, and so
is every quotient; the index of a percentile is exact.
-/

namespace Mybro

/-! ### Buckets -/

/-- `ModelBucket`. -/
structure ModelBucket where
  count : UInt64 := 0
  latencySumMs : UInt64 := 0
  tokensIn : UInt64 := 0
  tokensOut : UInt64 := 0
  deriving DecidableEq, Repr

/-- `StatsBucket`; the map by model is sorted by its keys. -/
structure StatsBucket where
  tsMs : UInt64
  count : UInt64 := 0
  errors : UInt64 := 0
  throttled : UInt64 := 0
  avgLatencyMs : ℚ := 0
  p50LatencyMs : ℚ := 0
  p95LatencyMs : ℚ := 0
  maxLatencyMs : UInt64 := 0
  avgTtftMs : ℚ := 0
  p50TtftMs : ℚ := 0
  p95TtftMs : ℚ := 0
  tokensIn : UInt64 := 0
  tokensOut : UInt64 := 0
  cached : UInt64 := 0
  cachedTokens : UInt64 := 0
  cacheCreationTokens : UInt64 := 0
  cacheHitRate : ℚ := 0
  byModel : List (String × ModelBucket) := []

/-- `entry(..).or_default()` of a sorted map, changed by `f`. -/
def modelEntry (name : String) (f : ModelBucket → ModelBucket) :
    List (String × ModelBucket) → List (String × ModelBucket)
  | [] => [(name, f {})]
  | (other, b) :: rest =>
    if name = other then (other, f b) :: rest
    else if name < other then (name, f {}) :: (other, b) :: rest
    else (other, b) :: modelEntry name f rest

/-- `now_ms.saturating_sub(window_ms)`. -/
def startMs (nowMs windowMs : UInt64) : UInt64 := if windowMs ≤ nowMs then nowMs - windowMs else 0

/-- Whether a record has the model asked for, if one is. -/
def hasModel (model : Option String) (r : RequestRecord) : Bool :=
  match model with
  | some m => r.model = m
  | none => true

/-- Whether a reply counts as throttled. -/
def isThrottled (r : RequestRecord) : Bool := r.status = 429 || r.status = 503

/-- Whether a record counts as cached in a bucket. -/
def hitsCache (r : RequestRecord) : Bool :=
  r.cached || r.cachedTokens > 0 || r.cacheCreationTokens > 0

/-- One more, if the condition holds. -/
def tally (c : Bool) : UInt64 := if c then 1 else 0

/-- A bucket under construction, with its `latencies_per_bucket` and `ttfts_per_bucket`. -/
structure BucketAcc where
  bucket : StatsBucket
  latencies : List UInt64 := []
  ttfts : List UInt64 := []

/-- The change a record makes to its bucket, in the loop of `buckets`. -/
def BucketAcc.add (a : BucketAcc) (r : RequestRecord) : BucketAcc where
  bucket := { a.bucket with
    count := a.bucket.count + 1
    errors := a.bucket.errors + tally (r.status ≥ 400)
    throttled := a.bucket.throttled + tally (isThrottled r)
    maxLatencyMs := max a.bucket.maxLatencyMs r.durationMs
    tokensIn := a.bucket.tokensIn + r.tokensIn
    tokensOut := a.bucket.tokensOut + r.tokensOut
    cachedTokens := a.bucket.cachedTokens + r.cachedTokens
    cacheCreationTokens := a.bucket.cacheCreationTokens + r.cacheCreationTokens
    cached := a.bucket.cached + tally (hitsCache r)
    byModel := modelEntry r.model (fun e =>
      { count := e.count + 1
        latencySumMs := e.latencySumMs + r.durationMs
        tokensIn := e.tokensIn + r.tokensIn
        tokensOut := e.tokensOut + r.tokensOut }) a.bucket.byModel }
  latencies := a.latencies ++ [r.durationMs]
  ttfts := a.ttfts ++ r.ttftMs.toList

section

variable [Rounding]

/-- `a as f64 / b as f64`. -/
def quotient (a b : ℕ) : ℚ := Rounding.round (Rounding.round a / Rounding.round b)

/-- A quotient of machine words, or 0. -/
def ratio (a b : UInt64) : ℚ := if b > 0 then quotient a.toNat b.toNat else 0

/-- The average of a list of machine words, or 0. -/
def average (l : List UInt64) : ℚ := if l = [] then 0 else quotient l.sum.toNat l.length

/-- `percentile`, for a whole percentage; the index is rounded half up. -/
def percentile (sorted : List UInt64) (p : ℕ) : ℚ :=
  match sorted with
  | [] => 0
  | _ =>
    let idx := (2 * p * (sorted.length - 1) + 100) / 200
    Rounding.round (sorted.getD (min idx (sorted.length - 1)) 0).toNat

/-- The second pass of `buckets`. -/
def BucketAcc.finish (a : BucketAcc) : StatsBucket :=
  if a.bucket.count = 0 then a.bucket
  else
    let latencies := a.latencies.mergeSort
    let ttfts := a.ttfts.mergeSort
    { a.bucket with
      avgLatencyMs := average a.latencies
      p50LatencyMs := percentile latencies 50
      p95LatencyMs := percentile latencies 95
      avgTtftMs := average a.ttfts
      p50TtftMs := percentile ttfts 50
      p95TtftMs := percentile ttfts 95
      cacheHitRate := ratio a.bucket.cachedTokens a.bucket.tokensIn }

end

/-- The number of buckets. -/
def numBuckets (windowMs bucketMs : UInt64) : ℕ := (max (windowMs / bucketMs) 1).toNat

/-- The bucket a record is counted in; `none` where the loop of `buckets` goes on to the next
record. -/
def bucketOf (nowMs windowMs bucketMs : UInt64) (model : Option String) (r : RequestRecord) :
    Option ℕ :=
  if r.tsMs < startMs nowMs windowMs || r.tsMs > nowMs then none
  else if !hasModel model r then none
  else
    let bi := ((r.tsMs - startMs nowMs windowMs) / bucketMs).toNat
    if bi ≥ numBuckets windowMs bucketMs then none else some bi

/-- The empty buckets. -/
def emptyBuckets (nowMs windowMs bucketMs : UInt64) : List BucketAcc :=
  (List.range (numBuckets windowMs bucketMs)).map fun i =>
    { bucket := { tsMs := startMs nowMs windowMs + UInt64.ofNat i * bucketMs } }

/-- The in-memory path of `StatsCollector::buckets`; it panics when the bucket size is 0. -/
def memoryBuckets [Rounding] (records : List RequestRecord) (nowMs windowMs bucketMs : UInt64)
    (model : Option String) : Option (List StatsBucket) :=
  if bucketMs = 0 then none
  else some ((distribute (bucketOf nowMs windowMs bucketMs model) BucketAcc.add records
    (emptyBuckets nowMs windowMs bucketMs)).map BucketAcc.finish)

/-! ### Summaries -/

/-- `StatsSummary`. -/
structure StatsSummary where
  count : UInt64
  errors : UInt64
  throttled : UInt64
  cached : UInt64
  cachedTokens : UInt64
  cacheCreationTokens : UInt64
  cacheHitRate : ℚ
  tokensIn : UInt64
  tokensOut : UInt64
  avgLatencyMs : ℚ
  avgTtftMs : ℚ
  maxContextTokens : UInt64
  genTokensOut : UInt64
  genTimeMs : UInt64
  deriving DecidableEq

/-- The records `summary` looks at. -/
def relevant (records : List RequestRecord) (nowMs windowMs : UInt64) (model : Option String) :
    List RequestRecord :=
  (records.filter fun r => r.tsMs ≥ startMs nowMs windowMs).filter (hasModel model)

/-- The length of a list as a machine word. -/
def lenU64 {α : Type} (l : List α) : UInt64 := UInt64.ofNat l.length

/-- What a record adds to the generated tokens and the generation time. -/
def addGeneration (acc : UInt64 × UInt64) (r : RequestRecord) : UInt64 × UInt64 :=
  match r.ttftMs with
  | some ttft =>
    if r.durationMs > ttft then (acc.1 + r.tokensOut, acc.2 + (r.durationMs - ttft)) else acc
  | none => acc

/-- The in-memory path of `StatsCollector::summary`. -/
def memorySummary [Rounding] (records : List RequestRecord) (nowMs windowMs : UInt64)
    (model : Option String) : StatsSummary :=
  let rs := relevant records nowMs windowMs model
  let cachedTokens := (rs.map fun r => r.cachedTokens).sum
  let tokensIn := (rs.map fun r => r.tokensIn).sum
  let generated := rs.foldl addGeneration (0, 0)
  { count := lenU64 rs
    errors := lenU64 (rs.filter fun r => r.status ≥ 400)
    throttled := lenU64 (rs.filter isThrottled)
    cached := lenU64 (rs.filter fun r => r.cached)
    cachedTokens := cachedTokens
    cacheCreationTokens := (rs.map fun r => r.cacheCreationTokens).sum
    cacheHitRate := ratio cachedTokens tokensIn
    tokensIn := tokensIn
    tokensOut := (rs.map fun r => r.tokensOut).sum
    avgLatencyMs := ratio (rs.map fun r => r.durationMs).sum (lenU64 rs)
    avgTtftMs := average (rs.filterMap fun r => r.ttftMs)
    maxContextTokens := ((rs.map fun r => r.tokensIn).max?).getD 0
    genTokensOut := generated.1
    genTimeMs := generated.2 }

/-- The in-memory path of `StatsCollector::distinct_models`; `BTreeSet` keeps its elements sorted.
-/
def memoryDistinctModels (records : List RequestRecord) (nowMs windowMs : UInt64) : List String :=
  (((records.filter fun r => r.tsMs ≥ startMs nowMs windowMs).map
    fun r => r.model).dedup.insertionSort (· ≤ ·)).insertionSort (· ≤ ·)

/-! ### Windows and counts -/

theorem toNat_startMs (nowMs windowMs : UInt64) :
    (startMs nowMs windowMs).toNat = nowMs.toNat - windowMs.toNat := by
  unfold startMs
  split_ifs with h
  · exact UInt64.toNat_sub_of_le _ _ h
  · rw [UInt64.le_iff_toNat_le] at h
    rw [UInt64.toNat_zero]
    omega

/-- Counting is adding up ones. -/
theorem sum_tally (p : RequestRecord → Bool) (rs : List RequestRecord) :
    (rs.map fun r => tally (p r)).sum = lenU64 (rs.filter p) := by
  induction rs with
  | nil => rfl
  | cons r rs ih =>
    rw [List.map_cons, List.sum_cons, ih]
    by_cases hp : p r = true
    · simp [tally, lenU64, hp, UInt64.ofNat_add, UInt64.add_comm]
    · simp [tally, lenU64, hp]

/-- A reply that took 20 ms, with or without a time to its first token. -/
def sampleRecord (tsMs : UInt64) (ttftMs : Option UInt64) : RequestRecord where
  tsMs := tsMs
  durationMs := 20
  ttftMs := ttftMs
  status := 200
  model := "m"
  pipeline := "openai"
  keyName := "a"
  tokensIn := 30
  tokensOut := 4
  cachedTokens := 10
  cacheCreationTokens := 0
  cached := true
  error := none

end Mybro
