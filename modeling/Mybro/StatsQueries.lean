import Mybro.ConfigFile
import Mybro.StatsChecked

/-!
# The statistics endpoints (`routes/stats_api.rs`)

`get_stats` and `get_token_stats`, with the database of `StatsCollector` and its fall-back to the
records in memory, all arithmetic checked. `statsQueries_safe_iff` says for which parameters,
records and tables they run without an overflow, a division by 0 or an index out of range, and
return buckets that begin at the start of the window plus a multiple of the bucket size.
-/

namespace Mybro

/-! ### What a query finds -/

/-- The rows of the table, with timestamps that the database can hold. -/
structure StatsTable where
  rows : List RequestRow
  tsMs_inI64 : ∀ row ∈ rows, Sql.InI64 row.tsMs

/-- The database as a query finds it: its table, or an error of SQLite. -/
inductive StatsDB where
  | table (t : StatsTable)
  | failing

/-- What a query of `StatsCollector` finds: the ring buffer, the database if there is one, and the
clock as it is read for the database and for the memory. -/
structure StatsView where
  records : List RequestRecord
  length_lt : records.length < 2 ^ 64
  db : Option StatsDB
  dbNowMs : UInt64
  /-- The clock can be compared with the timestamps of the database. -/
  dbNowMs_lt : dbNowMs.toNat < 2 ^ 63
  nowMs : UInt64

/-- The rows that a query is answered from, unless there is an error. -/
def StatsView.table (v : StatsView) : Option StatsTable :=
  match v.db with
  | some (.table t) => some t
  | _ => none

/-- The rows, for a window longer than `MEMORY_WINDOW_MS`. -/
def StatsView.longTable (v : StatsView) (windowMs : UInt64) : Option StatsTable :=
  if windowMs > 5 * 60 * 1000 then v.table else none

/-- `StatsCollector::buckets`. -/
def StatsView.buckets (v : StatsView) (windowMs bucketMs : UInt64) (model : Option String) :
    Option (List StatsBucket) :=
  match (v.longTable windowMs).bind fun t =>
      queryBuckets t.rows v.dbNowMs windowMs bucketMs model with
  | some buckets => some buckets
  | none => memoryBucketsChecked v.records v.nowMs windowMs bucketMs model

/-- `StatsCollector::summary`. -/
def StatsView.summary (v : StatsView) (windowMs : UInt64) (model : Option String) :
    Option StatsSummary :=
  match (v.longTable windowMs).bind fun t => querySummary t.rows v.dbNowMs windowMs model with
  | some summary => some summary
  | none => memorySummaryChecked v.records v.nowMs windowMs model

/-- `StatsCollector::recent`. -/
def StatsView.recent (v : StatsView) (limit : ℕ) (model : Option String) : List RequestRecord :=
  (v.records.reverse.filter (hasModel model)).take limit

/-- `StatsCollector::distinct_models`. -/
def StatsView.distinctModels (v : StatsView) (windowMs : UInt64) : List String :=
  match v.longTable windowMs with
  | some t => queryDistinctModels t.rows v.dbNowMs windowMs
  | none => memoryDistinctModels v.records v.nowMs windowMs

/-- `StatsCollector::token_stats`. -/
def StatsView.tokenStats (v : StatsView) (windowMs : UInt64) (model : Option String) :
    Option (List TokenSummary) :=
  match v.table.bind fun t => queryTokenStats t.rows v.dbNowMs windowMs model with
  | some tokens => some tokens
  | none => memoryTokenStatsChecked v.records v.nowMs windowMs model

/-! ### The endpoints -/

/-- The parameters of a query string. -/
abbrev QueryParams := String → Option String

/-- `params.get(..)` as a number, or its default. -/
def QueryParams.number (params : QueryParams) (name : String) (default : UInt64) : UInt64 :=
  ((params name).bind fun v => parseU64 v.toList).getD default

/-- The model asked for. -/
def QueryParams.model (params : QueryParams) : Option String := (params "model").filter (· ≠ "")

def QueryParams.mode (params : QueryParams) : String := (params "mode").getD "buckets"

/-- What `get_stats` replies. -/
inductive StatsReply where
  | summary (summary : StatsSummary)
  | recent (records : List RequestRecord)
  | models (models : List String)
  | buckets (buckets : List StatsBucket) (summary : StatsSummary) (windowSec bucketSec : UInt64)

/-- `get_stats`; the summary beside the buckets is made by a query of its own, which may find
something else. -/
def getStats (cfg : Config) (headers : HeaderMap) (params : QueryParams) (v v' : StatsView) :
    Option (Except Response StatsReply) :=
  if checkAuth cfg headers then do
    let window := params.number "window" 300
    let bucket := params.number "bucket" 10
    let mode := params.mode
    let limit := ((params "limit").bind fun v => parseUsize v.toList).getD 100
    let model := params.model
    let windowMs ← Checked.mul window 1000
    let bucketMs ← Checked.mul bucket 1000
    if mode = "summary" then do
      let summary ← v.summary windowMs model
      some (.ok (.summary summary))
    else if mode = "recent" then some (.ok (.recent (v.recent limit model)))
    else if mode = "models" then some (.ok (.models (v.distinctModels windowMs)))
    else do
      let buckets ← v.buckets windowMs bucketMs model
      let summary ← v'.summary windowMs model
      some (.ok (.buckets buckets summary window bucket))
  else some (.error (authErrorResponse .openAI))

/-- `get_token_stats`: the window and the token statistics. -/
def getTokenStats (cfg : Config) (headers : HeaderMap) (params : QueryParams) (v : StatsView) :
    Option (Except Response (UInt64 × List TokenSummary)) :=
  if checkAuth cfg headers then do
    let window := params.number "window" 300
    let model := params.model
    let windowMs ← Checked.mul window 1000
    let tokens ← v.tokenStats windowMs model
    some (.ok (window, tokens))
  else some (.error (authErrorResponse .openAI))

/-! ### When the database answers -/

/-- The rows of a group can be shown: no time to first token, which is read as a number of tokens,
and sums that fit and are read as unsigned words. -/
structure GroupReads (rows : List RequestRow) : Prop where
  ttftMs : Sql.avg (rows.map fun row => row.ttftMs) = none
  maxLatency : (Sql.readU64 (Sql.max (rows.map fun row => some row.durationMs))).isSome
  errors : ((sumCase rows fun row => row.status ≥ 400).bind Sql.readU64).isSome
  throttled :
    ((sumCase rows fun row => row.status = 429 || row.status = 503).bind Sql.readU64).isSome
  cached : ((sumCase rows fun row => row.cached = 1).bind Sql.readU64).isSome
  tokensIn : ((sumColumn rows fun row => row.tokensIn).bind Sql.readU64).isSome
  tokensOut : ((sumColumn rows fun row => row.tokensOut).bind Sql.readU64).isSome
  cachedTokens : (sumColumn rows fun row => row.cachedTokens).isSome
  cacheCreationTokens :
    ((sumColumn rows fun row => row.cacheCreationTokens).bind Sql.readU64).isSome

/-- The rows of a key can be shown. -/
@[mk_iff] structure KeyReads (rows : List RequestRow) : Prop where
  errors : ((sumCase rows fun row => row.status ≥ 400).bind Sql.readU64).isSome
  tokensIn : ((sumColumn rows fun row => row.tokensIn).bind Sql.readU64).isSome
  tokensOut : ((sumColumn rows fun row => row.tokensOut).bind Sql.readU64).isSome

/-- The rows can be summed up. -/
@[mk_iff] structure SummaryReads (rows : List RequestRow) : Prop where
  errors : (sumWhen rows (fun row => some (row.status ≥ 400)) fun _ => some 1).isSome
  throttled :
    (sumWhen rows (fun row => some (row.status = 429 || row.status = 503)) fun _ => some 1).isSome
  cached : (sumWhen rows (fun row => some (row.cached = 1)) fun _ => some 1).isSome
  tokensIn : (sumOf rows fun row => row.tokensIn).isSome
  tokensOut : (sumOf rows fun row => row.tokensOut).isSome
  cachedTokens : (sumOf rows fun row => row.cachedTokens).isSome
  cacheCreationTokens : (sumOf rows fun row => row.cacheCreationTokens).isSome
  maxContext : (Sql.readU64 (Sql.max (rows.map fun row => some row.tokensIn))).isSome
  genTokensOut : (sumWhen rows generates fun row => some row.tokensOut).isSome
  genTimeMs :
    (sumWhen rows generates fun row => Sql.sub (some row.durationMs) row.ttftMs).isSome

section

variable {rows table : List RequestRow} {ts : Sql.Value} {nowMs windowMs bucketMs : UInt64}
variable {model : Option String}

theorem getU64OrZero_ofValue (v : Sql.Value) :
    (Sql.Cell.ofValue v).getU64OrZero = Sql.readU64 v := by
  cases v <;> rfl

theorem readBucket_cells (c₀ c₁ c₂ c₃ c₄ c₅ c₆ c₇ c₈ c₉ c₁₀ c₁₁ : Sql.Cell) :
    readBucket [c₀, c₁, c₂, c₃, c₄, c₅, c₆, c₇, c₈, c₉, c₁₀, c₁₁] = (do
      let tokensIn ← c₆.getU64OrZero
      let cachedTokens ← c₁₀.getU64OrZero
      let tsMs ← c₀.getU64
      let count ← c₁.getU64
      let errors ← c₂.getU64
      let throttled ← c₃.getU64
      let maxLatencyMs ← c₅.getU64OrZero
      let tokensOut ← c₇.getU64OrZero
      let cached ← c₈.getU64OrZero
      let cacheCreationTokens ← c₁₁.getU64OrZero
      some {
        tsMs := tsMs
        count := count
        errors := errors
        throttled := throttled
        avgLatencyMs := c₄.getRealOrZero
        maxLatencyMs := maxLatencyMs
        avgTtftMs := c₉.getRealOrZero
        tokensIn := tokensIn
        tokensOut := tokensOut
        cached := cached
        cachedTokens := cachedTokens
        cacheCreationTokens := cacheCreationTokens
        cacheHitRate := ratio cachedTokens tokensIn }) := rfl

theorem readU64_of_getU64 {v : Sql.Value} {n : UInt64} (h : (Sql.Cell.ofValue v).getU64 = some n) :
    Sql.readU64 v = some n := by
  cases v with
  | none => cases h
  | some z => exact h

theorem avg_eq_none_of_getU64OrZero {q : Option ℚ} {n : UInt64}
    (h : (Sql.Cell.ofAvg q).getU64OrZero = some n) : q = none := by
  cases q with
  | none => rfl
  | some q => cases h

/-- What is shown of a group begins where the group begins, and the group can be shown. -/
theorem reads_of_group {b : StatsBucket} (h : (bucketRow ts rows).bind readBucket = some b) :
    (Sql.Cell.ofValue ts).getU64 = some b.tsMs ∧ GroupReads rows := by
  obtain ⟨row, hrow, hb⟩ := Option.bind_eq_some_iff.1 h
  unfold bucketRow at hrow
  obtain ⟨errors, herrors, hrow⟩ := Option.bind_eq_some_iff.1 hrow
  obtain ⟨throttled, hthrottled, hrow⟩ := Option.bind_eq_some_iff.1 hrow
  obtain ⟨tokensIn, hin, hrow⟩ := Option.bind_eq_some_iff.1 hrow
  obtain ⟨tokensOut, hout, hrow⟩ := Option.bind_eq_some_iff.1 hrow
  obtain ⟨cached, hcached, hrow⟩ := Option.bind_eq_some_iff.1 hrow
  obtain ⟨cachedTokens, hread, hrow⟩ := Option.bind_eq_some_iff.1 hrow
  obtain ⟨creation, hcreation, hrow⟩ := Option.bind_eq_some_iff.1 hrow
  obtain rfl := Option.some.inj hrow
  rw [readBucket_cells] at hb
  simp only [getU64OrZero_ofValue] at hb
  obtain ⟨_, hin', hb⟩ := Option.bind_eq_some_iff.1 hb
  obtain ⟨_, hcreation', hb⟩ := Option.bind_eq_some_iff.1 hb
  obtain ⟨tsMs, hts, hb⟩ := Option.bind_eq_some_iff.1 hb
  obtain ⟨_, -, hb⟩ := Option.bind_eq_some_iff.1 hb
  obtain ⟨_, herrors', hb⟩ := Option.bind_eq_some_iff.1 hb
  obtain ⟨_, hthrottled', hb⟩ := Option.bind_eq_some_iff.1 hb
  obtain ⟨_, hmax, hb⟩ := Option.bind_eq_some_iff.1 hb
  obtain ⟨_, hout', hb⟩ := Option.bind_eq_some_iff.1 hb
  obtain ⟨_, hcached', hb⟩ := Option.bind_eq_some_iff.1 hb
  obtain ⟨_, httft, hb⟩ := Option.bind_eq_some_iff.1 hb
  obtain rfl := Option.some.inj hb
  refine ⟨hts, avg_eq_none_of_getU64OrZero httft, ?_, ?_, ?_, ?_, ?_, ?_, ?_, ?_⟩
  · rw [hmax, Option.isSome_some]
  · rw [herrors, Option.bind_some, readU64_of_getU64 herrors', Option.isSome_some]
  · rw [hthrottled, Option.bind_some, readU64_of_getU64 hthrottled', Option.isSome_some]
  · rw [hcached, Option.bind_some, hcached', Option.isSome_some]
  · rw [hin, Option.bind_some, hin', Option.isSome_some]
  · rw [hout, Option.bind_some, hout', Option.isSome_some]
  · rw [hread, Option.isSome_some]
  · rw [hcreation, Option.bind_some, hcreation', Option.isSome_some]

theorem exists_mem_case (hne : rows ≠ []) (c : RequestRow → Bool) :
    ∃ z, some z ∈ rows.map fun row => Sql.caseWhen (some (c row)) (some 1) (some 0) := by
  obtain ⟨row, hrow⟩ := List.exists_mem_of_ne_nil rows hne
  refine ⟨if c row then 1 else 0, List.mem_map.2 ⟨row, hrow, ?_⟩⟩
  cases c row <;> rfl

/-- A group of some rows that can be shown is shown. -/
theorem group_of_reads (hne : rows ≠ []) {t : UInt64} (hts : (Sql.Cell.ofValue ts).getU64 = some t)
    (h : GroupReads rows) : ∃ b, (bucketRow ts rows).bind readBucket = some b := by
  obtain ⟨httft, hmax, herrors, hthrottled, hcached, hin, hout, hread, hcreation⟩ := h
  -- the sums that are not read as numbers that may be missing are not NULL
  rw [sumCase, ← Sql.bind_getU64 (exists_mem_case hne _).choose_spec, ← sumCase]
    at herrors hthrottled
  obtain ⟨_, herrors⟩ := Option.isSome_iff_exists.1 herrors
  obtain ⟨errors, herrors, herrors'⟩ := Option.bind_eq_some_iff.1 herrors
  obtain ⟨_, hthrottled⟩ := Option.isSome_iff_exists.1 hthrottled
  obtain ⟨throttled, hthrottled, hthrottled'⟩ := Option.bind_eq_some_iff.1 hthrottled
  obtain ⟨_, hcached⟩ := Option.isSome_iff_exists.1 hcached
  obtain ⟨cached, hcached, hcached'⟩ := Option.bind_eq_some_iff.1 hcached
  obtain ⟨_, hin⟩ := Option.isSome_iff_exists.1 hin
  obtain ⟨tokensIn, hin, hin'⟩ := Option.bind_eq_some_iff.1 hin
  obtain ⟨_, hout⟩ := Option.isSome_iff_exists.1 hout
  obtain ⟨tokensOut, hout, hout'⟩ := Option.bind_eq_some_iff.1 hout
  obtain ⟨cachedTokens, hread⟩ := Option.isSome_iff_exists.1 hread
  obtain ⟨_, hcreation⟩ := Option.isSome_iff_exists.1 hcreation
  obtain ⟨creation, hcreation, hcreation'⟩ := Option.bind_eq_some_iff.1 hcreation
  obtain ⟨_, hmax⟩ := Option.isSome_iff_exists.1 hmax
  have hcount : (Sql.Cell.ofValue (Sql.count rows)).getU64 = some (lenU64 rows) :=
    Sql.readU64_natCast rows.length
  unfold bucketRow
  rw [herrors, hthrottled, hin, hout, hcached, hread, hcreation, httft]
  simp only [Option.bind_eq_bind, Option.bind_some, readBucket_cells, getU64OrZero_ofValue, hin',
    hcreation', hts, hcount, herrors', hthrottled', hmax, hout', hcached']
  exact ⟨_, rfl⟩

/-- **When the database answers for the summary.** -/
theorem exists_querySummary_iff :
    (∃ summary, querySummary table nowMs windowMs model = some summary) ↔
      SummaryReads (table.filter (whereClause (startMs nowMs windowMs) model)) := by
  unfold querySummary
  generalize table.filter (whereClause (startMs nowMs windowMs) model) = rows
  have hcount : Sql.readU64 (Sql.count rows) = some _ := Sql.readU64_natCast _
  rw [← Option.isSome_iff_exists, summaryReads_iff]
  show ((Sql.readU64 (Sql.count rows)).bind _).isSome = true ↔ _
  rw [hcount, Option.bind_some]
  -- one part of the condition for each aggregate, in the order of the query
  iterate 9 refine isSome_bind_iff fun _ => ?_
  exact (isSome_bind_iff fun _ => iff_true_intro rfl).trans (and_iff_left trivial)

/-- The rows of a key can be shown exactly when its sums can be read. -/
theorem exists_readTokens_iff (hne : rows ≠ []) (keyName : String) :
    (∃ e, readTokens keyName rows = some e) ↔ KeyReads rows := by
  have hcase : ∃ z, some z ∈
      rows.map fun row => Sql.caseWhen (some (decide (row.status ≥ 400))) (some 1) (some 0) :=
    exists_mem_case hne fun row => row.status ≥ 400
  have hcolumn : ∀ v : RequestRow → ℤ, ∃ z, some z ∈ rows.map fun row => some (v row) := by
    intro v
    obtain ⟨row, hrow⟩ := List.exists_mem_of_ne_nil rows hne
    exact ⟨v row, List.mem_map_of_mem hrow⟩
  have hcount : (Sql.Cell.ofValue (Sql.count rows)).getU64 = some (lenU64 rows) :=
    Sql.readU64_natCast rows.length
  unfold readTokens sumCase sumColumn
  rw [hcount, Sql.bind_getU64 hcase.choose_spec, Sql.bind_getU64 (hcolumn _).choose_spec,
    Sql.bind_getU64 (hcolumn _).choose_spec, ← Option.isSome_iff_exists, keyReads_iff]
  simp only [Option.bind_eq_bind, Option.bind_some]
  refine isSome_bind_iff fun _ => isSome_bind_iff fun _ => ?_
  exact (isSome_bind_iff fun _ => iff_true_intro rfl).trans (and_iff_left trivial)

/-- **When the database answers for the tokens.** -/
theorem exists_queryTokenStats_iff :
    (∃ tokens, queryTokenStats table nowMs windowMs model = some tokens) ↔
      ∀ row ∈ table.filter (whereClause (startMs nowMs windowMs) model),
        KeyReads ((table.filter (whereClause (startMs nowMs windowMs) model)).filter
          fun other => other.keyName = row.keyName) := by
  unfold queryTokenStats
  generalize table.filter (whereClause (startMs nowMs windowMs) model) = rows
  have hmap : (∃ tokens, ((Sql.groupBy (fun a b => a ≤ b) (fun row => row.keyName) rows).mapM
      fun group => readTokens group.1 group.2).map
        (fun out => out.mergeSort fun a b => b.count ≤ a.count) = some tokens) ↔
      ∃ out, (Sql.groupBy (fun a b => a ≤ b) (fun row => row.keyName) rows).mapM
        (fun group => readTokens group.1 group.2) = some out := by
    simp only [Option.map_eq_some_iff]
    exact ⟨fun ⟨_, out, hout, _⟩ => ⟨out, hout⟩, fun ⟨out, hout⟩ => ⟨_, out, hout, rfl⟩⟩
  rw [hmap, exists_mapM_iff]
  constructor
  · intro h row hrow
    have hgroup : (row.keyName, rows.filter fun other => other.keyName = row.keyName) ∈
        Sql.groupBy (fun a b => a ≤ b) (fun row => row.keyName) rows := Sql.group_mem hrow
    exact (exists_readTokens_iff (Sql.group_ne_nil hgroup).1 _).1 (h _ hgroup)
  · intro h g hg
    obtain ⟨hkey, hrows⟩ := Sql.mem_groupBy.1 hg
    obtain ⟨row, hrow, hname⟩ := List.mem_map.1 hkey
    refine (exists_readTokens_iff (Sql.group_ne_nil hg).1 _).2 ?_
    rw [hrows, ← hname]
    exact h row hrow

/-! ### Where the groups begin -/

theorem natAbs_castI64 (v : UInt64) :
    (Sql.castI64 v).natAbs = if v.toNat < 2 ^ 63 then v.toNat else 2 ^ 64 - v.toNat := by
  have hlt := v.toNat_lt
  have hvalue : Sql.castI64 v =
      if 2 * v.toNat < 2 ^ 64 then (v.toNat : ℤ) else (v.toNat : ℤ) - (2 ^ 64 : ℕ) :=
    BitVec.toInt_eq_toNat_cond v.toBitVec
  rw [hvalue]
  split_ifs <;> omega

theorem natAbs_castI64_pos (hsize : bucketMs ≠ 0) : 0 < (Sql.castI64 bucketMs).natAbs := by
  have hlt := bucketMs.toNat_lt
  have hpos := toNat_pos hsize
  rw [natAbs_castI64]
  split_ifs <;> omega

/-- A timestamp is rounded down to a multiple of the bucket size, taken as a signed word. -/
theorem bucketTs_eq (hsize : bucketMs ≠ 0) {row : RequestRow} (hrow : 0 ≤ row.tsMs) :
    bucketTs bucketMs row = some ((row.tsMs.toNat / (Sql.castI64 bucketMs).natAbs *
      (Sql.castI64 bucketMs).natAbs : ℕ) : ℤ) := by
  have hpos := natAbs_castI64_pos hsize
  have hne : Sql.castI64 bucketMs ≠ 0 := by
    rwa [← Int.natAbs_pos]
  obtain ⟨n, hn⟩ := Int.eq_ofNat_of_zero_le hrow
  unfold bucketTs
  simp only [hne, if_false, Option.some.injEq]
  rw [hn, Int.toNat_natCast, Nat.cast_mul, Int.natCast_ediv]
  rcases Int.natAbs_eq (Sql.castI64 bucketMs) with h | h
  · rw [← h]
    exact congrArg (· * Sql.castI64 bucketMs) (Int.tdiv_eq_ediv_of_nonneg (Int.natCast_nonneg n))
  · have hneg : ((Sql.castI64 bucketMs).natAbs : ℤ) = -Sql.castI64 bucketMs := by omega
    rw [hneg, Int.ediv_neg, neg_mul_neg]
    exact congrArg (· * Sql.castI64 bucketMs) (Int.tdiv_eq_ediv_of_nonneg (Int.natCast_nonneg n))

theorem getU64_bucketTs (hsize : bucketMs ≠ 0) {row : RequestRow} (hrow : 0 ≤ row.tsMs) :
    (Sql.Cell.ofValue (bucketTs bucketMs row)).getU64 =
      some (UInt64.ofNat (row.tsMs.toNat / (Sql.castI64 bucketMs).natAbs *
        (Sql.castI64 bucketMs).natAbs)) := by
  rw [bucketTs_eq hsize hrow]
  exact Sql.readU64_natCast _

theorem bucketTs_zero (row : RequestRow) : bucketTs 0 row = none := rfl

/-- The rows that a query selects are not before the window, which begins in the range of the
database. -/
theorem tsMs_of_selected (hclock : nowMs.toNat < 2 ^ 63) {row : RequestRow}
    (hrow : row ∈ table.filter (whereClause (startMs nowMs windowMs) model)) :
    ((startMs nowMs windowMs).toNat : ℤ) ≤ row.tsMs := by
  have hstart : row.tsMs ≥ Sql.castI64 (startMs nowMs windowMs) := by
    have h := (List.mem_filter.1 hrow).2
    unfold whereClause at h
    exact of_decide_eq_true (Bool.and_eq_true_iff.1 h).1
  rwa [castI64_startMs hclock] at hstart

/-- The rows selected for the buckets can be shown. -/
def BucketsRead (rows : List RequestRow) (bucketMs : UInt64) : Prop :=
  ∀ row ∈ rows, bucketMs ≠ 0 ∧
    GroupReads (rows.filter fun other => bucketTs bucketMs other = bucketTs bucketMs row)

/-- **When the database answers for the buckets.** -/
theorem exists_queryBuckets_iff (hclock : nowMs.toNat < 2 ^ 63) :
    (∃ bs, queryBuckets table nowMs windowMs bucketMs model = some bs) ↔
      BucketsRead (table.filter (whereClause (startMs nowMs windowMs) model)) bucketMs := by
  have hpast : ∀ row ∈ table.filter (whereClause (startMs nowMs windowMs) model), 0 ≤ row.tsMs :=
    fun row hrow => (Int.natCast_nonneg _).trans (tsMs_of_selected hclock hrow)
  unfold queryBuckets
  rw [exists_mapM_iff]
  generalize table.filter (whereClause (startMs nowMs windowMs) model) = rows at hpast ⊢
  constructor
  · intro h row hrow
    obtain ⟨b, hb⟩ := h _ (Sql.group_mem hrow)
    obtain ⟨hts, hreads⟩ := reads_of_group hb
    refine ⟨?_, hreads⟩
    rintro rfl
    rw [bucketTs_zero] at hts
    cases hts
  · intro h g hg
    obtain ⟨hkey, hrows⟩ := Sql.mem_groupBy.1 hg
    obtain ⟨row, hrow, hts⟩ := List.mem_map.1 hkey
    obtain ⟨hsize, hreads⟩ := h row hrow
    rw [hts, ← hrows] at hreads
    have hread := getU64_bucketTs hsize (hpast row hrow)
    rw [hts] at hread
    exact group_of_reads (Sql.group_ne_nil hg).1 hread hreads

/-- The groups of some rows begin at `start` plus a multiple of the bucket size. A size of at least
2 ^ 63 is negative as a signed word, and no multiple of it but 0 can be added. -/
def Aligned (rows : List RequestRow) (start bucketMs : UInt64) : Prop :=
  if bucketMs.toNat < 2 ^ 63 then rows = [] ∨ bucketMs.toNat ∣ start.toNat
  else ∀ row ∈ rows, row.tsMs.toNat / (2 ^ 64 - bucketMs.toNat) * (2 ^ 64 - bucketMs.toNat) =
    start.toNat

theorem aligned_iff {start : UInt64} (hsize : rows ≠ [] → bucketMs ≠ 0)
    (hstart : ∀ row ∈ rows, (start.toNat : ℤ) ≤ row.tsMs)
    (hrange : ∀ row ∈ rows, row.tsMs < 2 ^ 63) :
    (∀ row ∈ rows, ∃ i : ℕ, row.tsMs.toNat / (Sql.castI64 bucketMs).natAbs *
        (Sql.castI64 bucketMs).natAbs = start.toNat + i * bucketMs.toNat) ↔
      Aligned rows start bucketMs := by
  unfold Aligned
  rw [natAbs_castI64]
  split_ifs with hsmall
  · constructor
    · intro h
      refine or_iff_not_imp_left.2 fun hne => ?_
      obtain ⟨row, hrow⟩ := List.exists_mem_of_ne_nil rows hne
      obtain ⟨i, hi⟩ := h row hrow
      exact (Nat.dvd_add_left (Dvd.intro_left i rfl)).1 (hi ▸ Dvd.intro_left _ rfl)
    · rintro (rfl | ⟨k, hk⟩) row hrow
      · cases hrow
      · -- the window begins at a multiple of the size, and the row is not before it
        have hpos := toNat_pos (hsize (List.ne_nil_of_mem hrow))
        have hle : start.toNat ≤ row.tsMs.toNat := by
          have := hstart row hrow
          omega
        have hquotient : k ≤ row.tsMs.toNat / bucketMs.toNat := by
          rw [Nat.le_div_iff_mul_le hpos, Nat.mul_comm]
          omega
        obtain ⟨i, hi⟩ := Nat.exists_eq_add_of_le hquotient
        refine ⟨i, ?_⟩
        rw [hi, hk, Nat.add_mul, Nat.mul_comm k]
  · refine forall₂_congr fun row hrow => ⟨?_, fun h => ⟨0, ?_⟩⟩
    · rintro ⟨i, hi⟩
      have hle := Nat.div_mul_le_self row.tsMs.toNat (2 ^ 64 - bucketMs.toNat)
      have hlt := hrange row hrow
      rcases Nat.eq_zero_or_pos i with rfl | hpos
      · rw [hi, Nat.zero_mul, Nat.add_zero]
      · have hfar := Nat.le_mul_of_pos_left bucketMs.toNat hpos
        omega
    · rw [h, Nat.zero_mul, Nat.add_zero]

/-- The buckets of the database begin on the grid exactly when the groups of its rows do. -/
theorem onGrid_iff_aligned {bs : List StatsBucket}
    (h : queryBuckets table nowMs windowMs bucketMs model = some bs)
    (hclock : nowMs.toNat < 2 ^ 63) (hrange : ∀ row ∈ table, Sql.InI64 row.tsMs) :
    (∀ b ∈ bs, ∃ i : ℕ,
        b.tsMs.toNat = (startMs nowMs windowMs).toNat + i * bucketMs.toNat) ↔
      Aligned (table.filter (whereClause (startMs nowMs windowMs) model)) (startMs nowMs windowMs)
        bucketMs := by
  have hread := (exists_queryBuckets_iff hclock).1 ⟨bs, h⟩
  have hstart : ∀ row ∈ table.filter (whereClause (startMs nowMs windowMs) model), _ :=
    fun row hrow => tsMs_of_selected hclock hrow
  have hlast : ∀ row ∈ table.filter (whereClause (startMs nowMs windowMs) model),
      row.tsMs < 2 ^ 63 := fun row hrow => (hrange row (List.mem_filter.1 hrow).1).2
  have hgroups := forall₂_of_mapM h
  rw [← aligned_iff (fun hne => ?_) hstart hlast]
  · generalize table.filter (whereClause (startMs nowMs windowMs) model) = rows at *
    -- a bucket begins where the timestamp of each of its rows is rounded to
    have hbegin : ∀ row ∈ rows, ∀ b : StatsBucket,
        (Sql.Cell.ofValue (bucketTs bucketMs row)).getU64 = some b.tsMs →
        b.tsMs.toNat = row.tsMs.toNat / (Sql.castI64 bucketMs).natAbs *
          (Sql.castI64 bucketMs).natAbs := by
      intro row hrow b hb
      rw [getU64_bucketTs (hread row hrow).1 ((Int.natCast_nonneg _).trans (hstart row hrow))] at hb
      have hle := Nat.div_mul_le_self row.tsMs.toNat (Sql.castI64 bucketMs).natAbs
      have hlt := hlast row hrow
      rw [← Option.some.inj hb, UInt64.toNat_ofNat_of_lt' (show _ < 2 ^ 64 by omega)]
    constructor
    · intro hgrid row hrow
      obtain ⟨b, hb, hgroup⟩ := exists_of_forall₂ hgroups (Sql.group_mem hrow)
      obtain ⟨i, hi⟩ := hgrid b hb
      exact ⟨i, (hbegin row hrow b (reads_of_group hgroup).1).symm.trans hi⟩
    · intro hgrid b hb
      obtain ⟨g, hg, hgroup⟩ := exists_of_forall₂ hgroups.flip hb
      obtain ⟨row, hrow, hts⟩ := List.mem_map.1 (Sql.mem_groupBy.1 hg).1
      obtain ⟨i, hi⟩ := hgrid row hrow
      have hfirst := (reads_of_group hgroup).1
      rw [← hts] at hfirst
      exact ⟨i, (hbegin row hrow b hfirst).trans hi⟩
  · obtain ⟨row, hrow⟩ := List.exists_mem_of_ne_nil _ hne
    exact (hread row hrow).1

end

/-! ### What has to hold -/

/-- The buckets begin at the start of the window plus a multiple of the bucket size: those of the
memory one after the other, those of the database some of them. -/
def StatsView.OnGrid (v : StatsView) (windowMs bucketMs : UInt64) (model : Option String)
    (bs : List StatsBucket) : Prop :=
  match (v.longTable windowMs).bind fun t =>
      queryBuckets t.rows v.dbNowMs windowMs bucketMs model with
  | some _ => ∀ b ∈ bs, ∃ i : ℕ,
      b.tsMs.toNat = (startMs v.dbNowMs windowMs).toNat + i * bucketMs.toNat
  | none => ∀ i b, bs[i]? = some b →
      b.tsMs.toNat = (startMs v.nowMs windowMs).toNat + i * bucketMs.toNat

/-- `get_stats` computes its reply without an error, and its buckets are on the grid. -/
def GetStatsSafe (cfg : Config) (headers : HeaderMap) (params : QueryParams) (v v' : StatsView) :
    Prop :=
  ∃ reply, getStats cfg headers params v v' = some reply ∧
    ∀ bs summary windowSec bucketSec, reply = .ok (.buckets bs summary windowSec bucketSec) →
      v.OnGrid (windowSec * 1000) (bucketSec * 1000) params.model bs

/-- `get_token_stats` computes its reply without an error. -/
def GetTokenStatsSafe (cfg : Config) (headers : HeaderMap) (params : QueryParams) (v : StatsView) :
    Prop :=
  ∃ reply, getTokenStats cfg headers params v = some reply

/-! ### When it does -/

/-- The rows that a query selects. -/
def StatsView.selected (v : StatsView) (t : StatsTable) (windowMs : UInt64)
    (model : Option String) : List RequestRow :=
  t.rows.filter (whereClause (startMs v.dbNowMs windowMs) model)

/-- The table from which the buckets can be shown. -/
def StatsView.ShowsBuckets (v : StatsView) (windowMs bucketMs : UInt64) (model : Option String)
    (t : StatsTable) : Prop :=
  v.longTable windowMs = some t ∧ BucketsRead (v.selected t windowMs model) bucketMs

/-- The groups that the database shows are on the grid; without such an answer, the bucket size is
not 0 and the values of the records of each bucket can be added up. -/
structure StatsView.BucketsFit (v : StatsView) (windowMs bucketMs : UInt64)
    (model : Option String) : Prop where
  database : ∀ t, v.ShowsBuckets windowMs bucketMs model t →
    Aligned (v.selected t windowMs model) (startMs v.dbNowMs windowMs) bucketMs
  memory : (∀ t, ¬ v.ShowsBuckets windowMs bucketMs model t) →
    bucketMs ≠ 0 ∧ ∀ i, ColumnsFit (counted v.records v.nowMs windowMs bucketMs model i)

/-- Unless the database sums up its rows, the values of the records can be added up. -/
def StatsView.SummaryFits (v : StatsView) (windowMs : UInt64) (model : Option String) : Prop :=
  (∀ t, v.longTable windowMs = some t → ¬ SummaryReads (v.selected t windowMs model)) →
    ColumnsFit (relevant v.records v.nowMs windowMs model)

/-- Unless the database shows the rows of every key, the tokens of the records of every key can be
added up. -/
def StatsView.TokenStatsFit (v : StatsView) (windowMs : UInt64) (model : Option String) : Prop :=
  (∀ t, v.table = some t → ¬ ∀ row ∈ v.selected t windowMs model,
      KeyReads ((v.selected t windowMs model).filter fun other => other.keyName = row.keyName)) →
    TokensFit (relevant v.records v.nowMs windowMs model)

/-- The parameters, the records and the tables with which `get_stats` is safe. -/
structure StatsFit (params : QueryParams) (v v' : StatsView) : Prop where
  window : (params.number "window" 300).toNat * 1000 < 2 ^ 64
  bucket : (params.number "bucket" 10).toNat * 1000 < 2 ^ 64
  buckets : params.mode ∉ ["summary", "recent", "models"] →
    v.BucketsFit (params.number "window" 300 * 1000) (params.number "bucket" 10 * 1000) params.model
  summary : params.mode ∉ ["recent", "models"] →
    (if params.mode = "summary" then v else v').SummaryFits (params.number "window" 300 * 1000)
      params.model

section

variable (v v' : StatsView) (windowMs bucketMs : UInt64) (model : Option String)

/-- **When the buckets are made and on the grid.** -/
theorem exists_buckets_iff :
    (∃ bs, v.buckets windowMs bucketMs model = some bs ∧ v.OnGrid windowMs bucketMs model bs) ↔
      v.BucketsFit windowMs bucketMs model := by
  unfold StatsView.buckets StatsView.OnGrid
  cases hquery : (v.longTable windowMs).bind fun t =>
      queryBuckets t.rows v.dbNowMs windowMs bucketMs model with
  | some bs =>
    obtain ⟨t, ht, hbs⟩ := Option.bind_eq_some_iff.1 hquery
    have hread := (exists_queryBuckets_iff v.dbNowMs_lt).1 ⟨bs, hbs⟩
    have haligned := onGrid_iff_aligned hbs v.dbNowMs_lt t.tsMs_inI64
    constructor
    · rintro ⟨bs', hbs', hgrid⟩
      obtain rfl : bs = bs' := Option.some.inj hbs'
      refine ⟨fun t' ht' => ?_, fun hnone => absurd ⟨ht, hread⟩ (hnone t)⟩
      obtain rfl := Option.some.inj (ht.symm.trans ht'.1)
      exact haligned.1 hgrid
    · intro hfit
      exact ⟨bs, rfl, haligned.2 (hfit.database t ⟨ht, hread⟩)⟩
  | none =>
    have hnone : ∀ t, ¬ v.ShowsBuckets windowMs bucketMs model t := by
      rintro t ⟨ht, hread⟩
      obtain ⟨bs, hbs⟩ := (exists_queryBuckets_iff v.dbNowMs_lt).2 hread
      rw [ht, Option.bind_some, hbs] at hquery
      cases hquery
    constructor
    · rintro ⟨bs, hbs, -⟩
      obtain ⟨hsize, hfits, -⟩ := (memoryBucketsChecked_eq_some_iff v.length_lt).1 hbs
      exact ⟨fun t ht => absurd ht (hnone t), fun _ => ⟨hsize, hfits⟩⟩
    · intro hfit
      obtain ⟨hsize, hfits⟩ := hfit.memory hnone
      obtain ⟨bs, hmemory⟩ :
          ∃ bs, memoryBuckets v.records v.nowMs windowMs bucketMs model = some bs :=
        ⟨_, if_neg hsize⟩
      refine ⟨bs, (memoryBucketsChecked_eq_some_iff v.length_lt).2 ⟨hsize, hfits, hmemory⟩,
        fun i b hb => ?_⟩
      rw [tsMs_memoryBuckets hmemory hb]
      exact toNat_bucketStart (toNat_pos hsize) (bucketStart_lt (lt_numBuckets hmemory hb))

/-- **When the summary is made.** -/
theorem exists_summary_iff :
    (∃ summary, v.summary windowMs model = some summary) ↔ v.SummaryFits windowMs model := by
  unfold StatsView.summary StatsView.SummaryFits
  cases hquery : (v.longTable windowMs).bind fun t =>
      querySummary t.rows v.dbNowMs windowMs model with
  | some summary =>
    obtain ⟨t, ht, hsummary⟩ := Option.bind_eq_some_iff.1 hquery
    have hreads := exists_querySummary_iff.1 ⟨summary, hsummary⟩
    exact ⟨fun _ hnone => absurd hreads (hnone t ht), fun _ => ⟨summary, rfl⟩⟩
  | none =>
    have hnone : ∀ t, v.longTable windowMs = some t →
        ¬ SummaryReads (v.selected t windowMs model) := by
      intro t ht hreads
      obtain ⟨summary, hsummary⟩ := exists_querySummary_iff.2 hreads
      rw [ht, Option.bind_some, hsummary] at hquery
      cases hquery
    simp only [memorySummaryChecked_eq_some_iff v.length_lt]
    exact ⟨fun ⟨_, hfits, _⟩ _ => hfits, fun hfits => ⟨_, hfits hnone, rfl⟩⟩

/-- **When the token statistics are made.** -/
theorem exists_tokenStats_iff :
    (∃ tokens, v.tokenStats windowMs model = some tokens) ↔ v.TokenStatsFit windowMs model := by
  unfold StatsView.tokenStats StatsView.TokenStatsFit
  cases hquery : v.table.bind fun t => queryTokenStats t.rows v.dbNowMs windowMs model with
  | some tokens =>
    obtain ⟨t, ht, htokens⟩ := Option.bind_eq_some_iff.1 hquery
    have hreads := exists_queryTokenStats_iff.1 ⟨tokens, htokens⟩
    exact ⟨fun _ hnone => absurd hreads (hnone t ht), fun _ => ⟨tokens, rfl⟩⟩
  | none =>
    have hnone : ∀ t, v.table = some t → ¬ ∀ row ∈ v.selected t windowMs model,
        KeyReads ((v.selected t windowMs model).filter
          fun other => other.keyName = row.keyName) := by
      intro t ht hreads
      obtain ⟨tokens, htokens⟩ := exists_queryTokenStats_iff.2 hreads
      rw [ht, Option.bind_some, htokens] at hquery
      cases hquery
    simp only [memoryTokenStatsChecked_eq_some_iff v.length_lt]
    exact ⟨fun ⟨_, hfits, _⟩ _ => hfits, fun hfits => ⟨_, hfits hnone, rfl⟩⟩

end

section

variable (cfg : Config) (headers : HeaderMap) (params : QueryParams) (v v' : StatsView)

/-- A refused request reads nothing. -/
theorem getStats_of_refused (hauth : checkAuth cfg headers = false) :
    GetStatsSafe cfg headers params v v' := by
  refine ⟨.error (authErrorResponse .openAI), ?_, nofun⟩
  unfold getStats
  rw [hauth]
  rfl

/-- An authorised request first turns its seconds into milliseconds. -/
theorem getStats_of_authorised (hauth : checkAuth cfg headers = true)
    (hwindow : (params.number "window" 300).toNat * 1000 < 2 ^ 64)
    (hbucket : (params.number "bucket" 10).toNat * 1000 < 2 ^ 64) :
    getStats cfg headers params v v' =
      if params.mode = "summary" then
        (v.summary (params.number "window" 300 * 1000) params.model).map fun summary =>
          .ok (.summary summary)
      else if params.mode = "recent" then
        some (.ok (.recent (v.recent
          (((params "limit").bind fun v => parseUsize v.toList).getD 100) params.model)))
      else if params.mode = "models" then
        some (.ok (.models (v.distinctModels (params.number "window" 300 * 1000))))
      else
        (v.buckets (params.number "window" 300 * 1000) (params.number "bucket" 10 * 1000)
          params.model).bind fun buckets =>
          (v'.summary (params.number "window" 300 * 1000) params.model).map fun summary =>
            .ok (.buckets buckets summary (params.number "window" 300)
              (params.number "bucket" 10)) := by
  have hwindowMs : Checked.mul (params.number "window" 300) 1000 = _ := Checked.mul_of_fits hwindow
  have hbucketMs : Checked.mul (params.number "bucket" 10) 1000 = _ := Checked.mul_of_fits hbucket
  unfold getStats
  rw [if_pos hauth]
  simp only [hwindowMs, hbucketMs, Option.bind_eq_bind, Option.bind_some, Option.map_eq_bind]
  rfl

/-- Otherwise the milliseconds do not fit. -/
theorem fits_of_getStats (hauth : checkAuth cfg headers = true)
    {reply : Except Response StatsReply} (h : getStats cfg headers params v v' = some reply) :
    (params.number "window" 300).toNat * 1000 < 2 ^ 64 ∧
      (params.number "bucket" 10).toNat * 1000 < 2 ^ 64 := by
  unfold getStats at h
  rw [if_pos hauth] at h
  obtain ⟨_, hwindow, h⟩ := Option.bind_eq_some_iff.1 h
  obtain ⟨_, hbucket, -⟩ := Option.bind_eq_some_iff.1 h
  exact ⟨(Checked.mul_eq_some_iff.1 hwindow).1, (Checked.mul_eq_some_iff.1 hbucket).1⟩

theorem safe_summary_iff (hauth : checkAuth cfg headers = true)
    (hwindow : (params.number "window" 300).toNat * 1000 < 2 ^ 64)
    (hbucket : (params.number "bucket" 10).toNat * 1000 < 2 ^ 64)
    (hmode : params.mode = "summary") :
    GetStatsSafe cfg headers params v v' ↔ StatsFit params v v' := by
  have hfit : StatsFit params v v' ↔
      v.SummaryFits (params.number "window" 300 * 1000) params.model := by
    constructor
    · intro h
      have hsummary := h.summary (by rw [hmode]; decide)
      rwa [if_pos hmode] at hsummary
    · intro h
      refine ⟨hwindow, hbucket, fun hne => absurd hne (by rw [hmode]; decide), fun _ => ?_⟩
      rwa [if_pos hmode]
  unfold GetStatsSafe
  rw [getStats_of_authorised cfg headers params v v' hauth hwindow hbucket, if_pos hmode, hfit,
    ← exists_summary_iff]
  simp only [Option.map_eq_some_iff]
  constructor
  · rintro ⟨_, ⟨summary, hsome, -⟩, -⟩
    exact ⟨summary, hsome⟩
  · rintro ⟨summary, hsome⟩
    exact ⟨_, ⟨summary, hsome, rfl⟩, nofun⟩

/-- The records and the models are listed without arithmetic. -/
theorem safe_list_iff (hauth : checkAuth cfg headers = true)
    (hwindow : (params.number "window" 300).toNat * 1000 < 2 ^ 64)
    (hbucket : (params.number "bucket" 10).toNat * 1000 < 2 ^ 64)
    (hmode : params.mode = "recent" ∨ params.mode = "models") :
    GetStatsSafe cfg headers params v v' ↔ StatsFit params v v' := by
  refine iff_of_true ?_ ⟨hwindow, hbucket, fun hne => absurd hne ?_, fun hne => absurd hne ?_⟩
  · unfold GetStatsSafe
    rw [getStats_of_authorised cfg headers params v v' hauth hwindow hbucket]
    rcases hmode with hmode | hmode
    · rw [hmode, if_neg (by decide), if_pos rfl]
      exact ⟨_, rfl, nofun⟩
    · rw [hmode, if_neg (by decide), if_neg (by decide), if_pos rfl]
      exact ⟨_, rfl, nofun⟩
  · rcases hmode with hmode | hmode <;> simp [hmode]
  · rcases hmode with hmode | hmode <;> simp [hmode]

theorem safe_buckets_iff (hauth : checkAuth cfg headers = true)
    (hwindow : (params.number "window" 300).toNat * 1000 < 2 ^ 64)
    (hbucket : (params.number "bucket" 10).toNat * 1000 < 2 ^ 64)
    (hmode : params.mode ∉ ["summary", "recent", "models"]) :
    GetStatsSafe cfg headers params v v' ↔ StatsFit params v v' := by
  simp only [List.mem_cons, List.not_mem_nil, or_false, not_or] at hmode
  obtain ⟨hsummary, hrecent, hmodels⟩ := hmode
  have hfit : StatsFit params v v' ↔
      v.BucketsFit (params.number "window" 300 * 1000) (params.number "bucket" 10 * 1000)
        params.model ∧
      v'.SummaryFits (params.number "window" 300 * 1000) params.model := by
    constructor
    · intro h
      have hfit := h.summary (by simp [hrecent, hmodels])
      rw [if_neg hsummary] at hfit
      exact ⟨h.buckets (by simp [hsummary, hrecent, hmodels]), hfit⟩
    · rintro ⟨hbuckets, hfit⟩
      refine ⟨hwindow, hbucket, fun _ => hbuckets, fun _ => ?_⟩
      rwa [if_neg hsummary]
  unfold GetStatsSafe
  rw [getStats_of_authorised cfg headers params v v' hauth hwindow hbucket, if_neg hsummary,
    if_neg hrecent, if_neg hmodels, hfit, ← exists_buckets_iff, ← exists_summary_iff]
  constructor
  · rintro ⟨reply, hreply, hgrid⟩
    obtain ⟨bs, hbs, hreply⟩ := Option.bind_eq_some_iff.1 hreply
    obtain ⟨summary, hsome, rfl⟩ := Option.map_eq_some_iff.1 hreply
    exact ⟨⟨bs, hbs, hgrid _ _ _ _ rfl⟩, summary, hsome⟩
  · rintro ⟨⟨bs, hbs, hgrid⟩, summary, hsome⟩
    refine ⟨_, Option.bind_eq_some_iff.2 ⟨bs, hbs, Option.map_eq_some_iff.2
      ⟨summary, hsome, rfl⟩⟩, ?_⟩
    rintro _ _ _ _ ⟨⟩
    exact hgrid

/-- **When `get_stats` is safe**, for an authorised request. -/
theorem getStatsSafe_iff (hauth : checkAuth cfg headers = true) :
    GetStatsSafe cfg headers params v v' ↔ StatsFit params v v' := by
  by_cases hfits : (params.number "window" 300).toNat * 1000 < 2 ^ 64 ∧
      (params.number "bucket" 10).toNat * 1000 < 2 ^ 64
  · obtain ⟨hwindow, hbucket⟩ := hfits
    by_cases hsummary : params.mode = "summary"
    · exact safe_summary_iff cfg headers params v v' hauth hwindow hbucket hsummary
    · by_cases hlist : params.mode = "recent" ∨ params.mode = "models"
      · exact safe_list_iff cfg headers params v v' hauth hwindow hbucket hlist
      · refine safe_buckets_iff cfg headers params v v' hauth hwindow hbucket ?_
        simpa [hsummary] using hlist
  · constructor
    · rintro ⟨reply, hreply, -⟩
      exact absurd (fits_of_getStats cfg headers params v v' hauth hreply) hfits
    · intro h
      exact absurd ⟨h.window, h.bucket⟩ hfits

/-- **When `get_token_stats` is safe**, for an authorised request. -/
theorem getTokenStatsSafe_iff (hauth : checkAuth cfg headers = true) :
    GetTokenStatsSafe cfg headers params v ↔
      (params.number "window" 300).toNat * 1000 < 2 ^ 64 ∧
        v.TokenStatsFit (params.number "window" 300 * 1000) params.model := by
  unfold GetTokenStatsSafe getTokenStats
  rw [if_pos hauth, ← exists_tokenStats_iff]
  simp only [Option.bind_eq_bind, Option.bind_eq_some_iff, Checked.mul_eq_some_iff]
  constructor
  · rintro ⟨_, _, ⟨hwindow, rfl⟩, tokens, htokens, -⟩
    exact ⟨hwindow, tokens, htokens⟩
  · rintro ⟨hwindow, tokens, htokens⟩
    exact ⟨_, _, ⟨hwindow, rfl⟩, tokens, htokens, rfl⟩

/-- **When the statistics endpoints are safe.** -/
theorem statsQueries_safe_iff :
    (GetStatsSafe cfg headers params v v' ↔
        (checkAuth cfg headers = true → StatsFit params v v')) ∧
      (GetTokenStatsSafe cfg headers params v ↔
        (checkAuth cfg headers = true →
          (params.number "window" 300).toNat * 1000 < 2 ^ 64 ∧
            v.TokenStatsFit (params.number "window" 300 * 1000) params.model)) := by
  cases hauth : checkAuth cfg headers with
  | true =>
    rw [getStatsSafe_iff cfg headers params v v' hauth,
      getTokenStatsSafe_iff cfg headers params v hauth]
    simp
  | false =>
    refine ⟨iff_of_true (getStats_of_refused cfg headers params v v' hauth) nofun,
      iff_of_true ⟨.error (authErrorResponse .openAI), ?_⟩ nofun⟩
    unfold getTokenStats
    rw [hauth]
    rfl

end

/-- A collector without records and without a database. -/
def emptyView : StatsView where
  records := []
  length_lt := by decide
  db := none
  dbNowMs := 1000
  dbNowMs_lt := by decide
  nowMs := 1000

/-- A bucket size of 0 is divided by. -/
theorem bucket_zero_divides :
    ¬ ∀ (cfg : Config) (headers : HeaderMap) (params : QueryParams) (v v' : StatsView),
      GetStatsSafe cfg headers params v v' ∧ GetTokenStatsSafe cfg headers params v := by
  intro hall
  have hsafe := (hall {} [] (fun name => if name = "bucket" then some "0" else none) emptyView
    emptyView).1
  rw [getStatsSafe_iff _ _ _ _ _ (by decide)] at hsafe
  have hsize := ((hsafe.buckets (by decide)).memory ?_).1
  · exact hsize (by decide)
  · rintro t ⟨ht, -⟩
    cases ht

end Mybro
