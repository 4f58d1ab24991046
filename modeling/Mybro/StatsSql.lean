import Mybro.Lib.Sql
import Mybro.Stats

/-!
# The statistics database (`db.rs`)

The rows that `flush_batch` writes to the table `requests`, and the two queries `query_summary` and
`query_distinct_models`. `summaries_agree`: over the same records at the same moment they give what
the records in memory give, as long as the numbers fit in the integers of the database.
-/

namespace Mybro

/-! ### The table -/

/-- A row of `requests`. -/
structure RequestRow where
  tsMs : ℤ
  durationMs : ℤ
  ttftMs : Sql.Value
  status : ℤ
  model : String
  pipeline : String
  keyName : String
  tokensIn : ℤ
  tokensOut : ℤ
  cachedTokens : ℤ
  cacheCreationTokens : ℤ
  cached : ℤ
  error : Option String
  deriving DecidableEq

/-- The parameters of the `INSERT` for a record; `none` when one of them is not accepted. -/
def insertParams (rec : RequestRecord) : Option RequestRow := do
  let tsMs ← Sql.ofU64 rec.tsMs
  let durationMs ← Sql.ofU64 rec.durationMs
  let tokensIn ← Sql.ofU64 rec.tokensIn
  let tokensOut ← Sql.ofU64 rec.tokensOut
  some {
    tsMs := tsMs
    durationMs := durationMs
    ttftMs := rec.ttftMs.map Sql.castI64
    status := rec.status
    model := rec.model
    pipeline := rec.pipeline
    keyName := rec.keyName
    tokensIn := tokensIn
    tokensOut := tokensOut
    cachedTokens := Sql.castI64 rec.cachedTokens
    cacheCreationTokens := Sql.castI64 rec.cacheCreationTokens
    cached := if rec.cached then 1 else 0
    error := rec.error }

/-- `flush_batch`, one transaction. -/
def flushBatch (table : List RequestRow) (batch : List RequestRecord) : Option (List RequestRow) :=
  (batch.mapM insertParams).map fun rows => table ++ rows

/-- The table after the flushes of some batches; the task that flushes drops a batch that fails. -/
def flushAll (batches : List (List RequestRecord)) : List RequestRow :=
  batches.foldl (fun table batch => (flushBatch table batch).getD table) []

/-! ### The queries -/

/-- `WHERE ts_ms >= ? AND model = ?`, or without the model. -/
def whereClause (startMs : UInt64) (model : Option String) (row : RequestRow) : Bool :=
  row.tsMs ≥ Sql.castI64 startMs &&
    match model with
    | some m => row.model = m
    | none => true

/-- `SUM(CASE WHEN c THEN v ELSE 0 END)` over some rows, read as an unsigned word. -/
def sumWhen (rows : List RequestRow) (c : RequestRow → Option Bool) (v : RequestRow → Sql.Value) :
    Option UInt64 :=
  (Sql.sum (rows.map fun row => Sql.caseWhen (c row) (v row) (some 0))).bind Sql.readU64

/-- `SUM(v)` over some rows, read as an unsigned word. -/
def sumOf (rows : List RequestRow) (v : RequestRow → ℤ) : Option UInt64 :=
  (Sql.sum (rows.map fun row => some (v row))).bind Sql.readU64

/-- `ttft_ms IS NOT NULL AND duration_ms > ttft_ms`. -/
def generates (row : RequestRow) : Option Bool :=
  Sql.and (Sql.isNotNull row.ttftMs)
    (Sql.compare (fun d t => decide (d > t)) (some row.durationMs) row.ttftMs)

/-- `StatsDB::query_summary`. -/
def querySummary [Rounding] (table : List RequestRow) (nowMs windowMs : UInt64)
    (model : Option String) : Option StatsSummary := do
  let rows := table.filter (whereClause (startMs nowMs windowMs) model)
  let count ← Sql.readU64 (Sql.count rows)
  let errors ← sumWhen rows (fun row => some (row.status ≥ 400)) fun _ => some 1
  let throttled ← sumWhen rows (fun row => some (row.status = 429 || row.status = 503)) fun _ => some 1
  let cached ← sumWhen rows (fun row => some (row.cached = 1)) fun _ => some 1
  let tokensIn ← sumOf rows fun row => row.tokensIn
  let tokensOut ← sumOf rows fun row => row.tokensOut
  let avgLatency := Sql.avg (rows.map fun row => some row.durationMs)
  let avgTtft := Sql.avg (rows.map fun row => row.ttftMs)
  let cachedTokens ← sumOf rows fun row => row.cachedTokens
  let cacheCreationTokens ← sumOf rows fun row => row.cacheCreationTokens
  let maxContext ← Sql.readU64 (Sql.max (rows.map fun row => some row.tokensIn))
  let genTokensOut ← sumWhen rows generates fun row => some row.tokensOut
  let genTimeMs ← sumWhen rows generates fun row => Sql.sub (some row.durationMs) row.ttftMs
  some {
    count := count
    errors := errors
    throttled := throttled
    cached := cached
    cachedTokens := cachedTokens
    cacheCreationTokens := cacheCreationTokens
    cacheHitRate := ratio cachedTokens tokensIn
    tokensIn := tokensIn
    tokensOut := tokensOut
    avgLatencyMs := avgLatency.getD 0
    avgTtftMs := avgTtft.getD 0
    maxContextTokens := maxContext
    genTokensOut := genTokensOut
    genTimeMs := genTimeMs }

/-- `StatsDB::query_distinct_models`. -/
def queryDistinctModels (table : List RequestRow) (nowMs windowMs : UInt64) : List String :=
  Sql.distinctAsc ((table.filter fun row => row.tsMs ≥ Sql.castI64 (startMs nowMs windowMs)).map
    fun row => row.model)

/-! ### What is stored -/

/-- The row of a record whose numbers fit. -/
def rowOf (rec : RequestRecord) : RequestRow where
  tsMs := rec.tsMs.toNat
  durationMs := rec.durationMs.toNat
  ttftMs := rec.ttftMs.map fun t => (t.toNat : ℤ)
  status := rec.status
  model := rec.model
  pipeline := rec.pipeline
  keyName := rec.keyName
  tokensIn := rec.tokensIn.toNat
  tokensOut := rec.tokensOut.toNat
  cachedTokens := rec.cachedTokens.toNat
  cacheCreationTokens := rec.cacheCreationTokens.toNat
  cached := if rec.cached then 1 else 0
  error := rec.error

/-- The numbers of a list of records, and their sums, fit in the integers of the database. -/
structure FitsI64 (records : List RequestRecord) : Prop where
  length : records.length < 2 ^ 63
  tsMs : ∀ r ∈ records, r.tsMs.toNat < 2 ^ 63
  durationMs : (records.map fun r => r.durationMs.toNat).sum < 2 ^ 63
  ttftMs : (records.map fun r => (r.ttftMs.getD 0).toNat).sum < 2 ^ 63
  tokensIn : (records.map fun r => r.tokensIn.toNat).sum < 2 ^ 63
  tokensOut : (records.map fun r => r.tokensOut.toNat).sum < 2 ^ 63
  cachedTokens : (records.map fun r => r.cachedTokens.toNat).sum < 2 ^ 63
  cacheCreationTokens : (records.map fun r => r.cacheCreationTokens.toNat).sum < 2 ^ 63

theorem lt_of_mem_sum {records : List RequestRecord} {f : RequestRecord → ℕ} {bound : ℕ}
    (h : (records.map f).sum < bound) {r : RequestRecord} (hr : r ∈ records) : f r < bound :=
  (List.single_le_sum (fun _ _ => Nat.zero_le _) _ (List.mem_map_of_mem hr)).trans_lt h

theorem FitsI64.insertParams {records : List RequestRecord} (h : FitsI64 records)
    {r : RequestRecord} (hr : r ∈ records) : insertParams r = some (rowOf r) := by
  unfold Mybro.insertParams rowOf
  have httft : r.ttftMs.map Sql.castI64 = r.ttftMs.map fun t => (t.toNat : ℤ) := by
    have hlt := lt_of_mem_sum h.ttftMs hr
    cases ht : r.ttftMs with
    | none => rfl
    | some t =>
      rw [ht] at hlt
      exact congrArg some (Sql.castI64_of_lt hlt)
  rw [Sql.ofU64_of_lt (h.tsMs r hr), Sql.ofU64_of_lt (lt_of_mem_sum h.durationMs hr),
    Sql.ofU64_of_lt (lt_of_mem_sum h.tokensIn hr), Sql.ofU64_of_lt (lt_of_mem_sum h.tokensOut hr),
    Sql.castI64_of_lt (lt_of_mem_sum h.cachedTokens hr),
    Sql.castI64_of_lt (lt_of_mem_sum h.cacheCreationTokens hr), httft]
  rfl

/-- A part of the records fits as well. -/
theorem FitsI64.sublist {part records : List RequestRecord} (h : FitsI64 records)
    (hpart : part.Sublist records) : FitsI64 part := by
  have hsum : ∀ f : RequestRecord → ℕ, (part.map f).sum ≤ (records.map f).sum :=
    fun f => (hpart.map f).sum_le_sum fun _ _ => Nat.zero_le _
  constructor
  · exact hpart.length_le.trans_lt h.length
  · intro r hr
    exact h.tsMs r (hpart.subset hr)
  · exact (hsum _).trans_lt h.durationMs
  · exact (hsum _).trans_lt h.ttftMs
  · exact (hsum _).trans_lt h.tokensIn
  · exact (hsum _).trans_lt h.tokensOut
  · exact (hsum _).trans_lt h.cachedTokens
  · exact (hsum _).trans_lt h.cacheCreationTokens

theorem mapM_eq_map {α β : Type} {f : α → Option β} {g : α → β} {l : List α}
    (h : ∀ a ∈ l, f a = some (g a)) : l.mapM f = some (l.map g) := by
  induction l with
  | nil => rfl
  | cons a l ih =>
    rw [List.mapM_cons, h a List.mem_cons_self, ih fun b hb => h b (List.mem_cons_of_mem a hb)]
    rfl

/-- Element by element, what a list is mapped to. -/
theorem forall₂_of_mapM {α β : Type} {f : α → Option β} {l : List α} {l' : List β}
    (h : l.mapM f = some l') : List.Forall₂ (fun a b => f a = some b) l l' := by
  induction l generalizing l' with
  | nil =>
    obtain rfl : [] = l' := Option.some.inj h
    exact .nil
  | cons a l ih =>
    rw [List.mapM_cons] at h
    obtain ⟨b, hb, hrest⟩ := Option.bind_eq_some_iff.1 h
    obtain ⟨bs, hbs, hl'⟩ := Option.bind_eq_some_iff.1 hrest
    obtain rfl : b :: bs = l' := Option.some.inj hl'
    exact .cons hb (ih hbs)

/-- A computation succeeds when its first part does and the rest does with whatever that gives. -/
theorem isSome_bind_iff {α β : Type} {o : Option α} {f : α → Option β} {p : Prop}
    (h : ∀ a, (f a).isSome = true ↔ p) : (o.bind f).isSome = true ↔ o.isSome = true ∧ p := by
  cases o with
  | none => simp
  | some a => simpa using h a

/-- A list can be mapped when each of its elements can. -/
theorem exists_mapM_iff {α β : Type} {f : α → Option β} {l : List α} :
    (∃ l', l.mapM f = some l') ↔ ∀ a ∈ l, ∃ b, f a = some b := by
  constructor
  · rintro ⟨l', h⟩ a ha
    have hall := forall₂_of_mapM h
    clear h
    induction hall with
    | nil => cases ha
    | cons hb _ ih =>
      rcases List.mem_cons.1 ha with rfl | ha
      · exact ⟨_, hb⟩
      · exact ih ha
  · intro h
    induction l with
    | nil => exact ⟨[], rfl⟩
    | cons a l ih =>
      obtain ⟨b, hb⟩ := h a List.mem_cons_self
      obtain ⟨bs, hbs⟩ := ih fun a ha => h a (List.mem_cons_of_mem _ ha)
      refine ⟨b :: bs, ?_⟩
      rw [List.mapM_cons, hb, hbs]
      rfl

/-- Every batch is stored. -/
theorem flushBatches_append (table : List RequestRow) (batches : List (List RequestRecord))
    (h : FitsI64 batches.flatten) :
    batches.foldl (fun table batch => (flushBatch table batch).getD table) table =
      table ++ batches.flatten.map rowOf := by
  induction batches generalizing table with
  | nil => simp
  | cons batch batches ih =>
    rw [List.flatten_cons] at h ⊢
    have hbatch : flushBatch table batch = some (table ++ batch.map rowOf) := by
      unfold flushBatch
      rw [mapM_eq_map fun r hr => h.insertParams (List.mem_append_left _ hr), Option.map_some]
    rw [List.foldl_cons, hbatch, Option.getD_some,
      ih _ (h.sublist (List.sublist_append_right _ _)), List.map_append, List.append_assoc]

theorem flushAll_eq {batches : List (List RequestRecord)} (h : FitsI64 batches.flatten) :
    flushAll batches = batches.flatten.map rowOf := flushBatches_append [] batches h

/-! ### The rows of a window -/

section

variable {records : List RequestRecord} {nowMs windowMs : UInt64} {model : Option String}

theorem castI64_startMs (hclock : nowMs.toNat < 2 ^ 63) :
    Sql.castI64 (startMs nowMs windowMs) = (startMs nowMs windowMs).toNat := by
  refine Sql.castI64_of_lt ?_
  rw [toNat_startMs]
  omega

theorem tsMs_ge_iff (hclock : nowMs.toNat < 2 ^ 63) (r : RequestRecord) :
    (rowOf r).tsMs ≥ Sql.castI64 (startMs nowMs windowMs) ↔ r.tsMs ≥ startMs nowMs windowMs := by
  rw [castI64_startMs hclock, ge_iff_le, ge_iff_le, UInt64.le_iff_toNat_le]
  exact Nat.cast_le

/-- The rows that the database selects are those of the records selected in memory. -/
theorem filter_whereClause (hclock : nowMs.toNat < 2 ^ 63) :
    (records.map rowOf).filter (whereClause (startMs nowMs windowMs) model) =
      (relevant records nowMs windowMs model).map rowOf := by
  unfold relevant
  rw [List.filter_map, List.filter_filter]
  congr 1
  refine List.filter_congr fun r _ => ?_
  unfold whereClause hasModel
  rw [Bool.and_comm, ← decide_eq_decide.2 (tsMs_ge_iff hclock r)]
  rfl

end

/-! ### Columns -/

theorem sumOf_rowOf {rs : List RequestRecord} (v : RequestRow → ℤ) {f : RequestRecord → UInt64}
    (hv : ∀ r, v (rowOf r) = (f r).toNat) (h : (rs.map fun r => (f r).toNat).sum < 2 ^ 63) :
    sumOf (rs.map rowOf) v = some (rs.map f).sum := by
  unfold sumOf
  rw [List.map_map]
  exact Sql.readU64_sum_map rs (fun r => congrArg some (hv r)) h

theorem sumWhen_rowOf {rs : List RequestRecord} (c : RequestRow → Option Bool)
    (v : RequestRow → Sql.Value) (f : RequestRecord → UInt64)
    (hv : ∀ r, Sql.caseWhen (c (rowOf r)) (v (rowOf r)) (some 0) = some ((f r).toNat : ℤ))
    (h : (rs.map fun r => (f r).toNat).sum < 2 ^ 63) :
    sumWhen (rs.map rowOf) c v = some (rs.map f).sum := by
  unfold sumWhen
  rw [List.map_map]
  exact Sql.readU64_sum_map rs hv h

theorem sum_toNat_tally_le (p : RequestRecord → Bool) (rs : List RequestRecord) :
    (rs.map fun r => (tally (p r)).toNat).sum ≤ rs.length := by
  induction rs with
  | nil => exact le_rfl
  | cons r rs ih =>
    have hr : (tally (p r)).toNat ≤ 1 := by cases p r <;> decide
    rw [List.map_cons, List.sum_cons, List.length_cons]
    omega

/-- The number of records of a kind. -/
theorem sumWhen_one {rs : List RequestRecord} (hlen : rs.length < 2 ^ 63) (c : RequestRow → Bool)
    (p : RequestRecord → Bool) (hc : ∀ r, c (rowOf r) = p r) :
    sumWhen (rs.map rowOf) (fun row => some (c row)) (fun _ => some 1) =
      some (lenU64 (rs.filter p)) := by
  rw [← sum_tally]
  refine sumWhen_rowOf _ _ _ (fun r => ?_) ((sum_toNat_tally_le p rs).trans_lt hlen)
  rw [hc r]
  cases p r <;> rfl

/-- What a record adds to the generated tokens and the generation time. -/
def generated (r : RequestRecord) : UInt64 × UInt64 := addGeneration (0, 0) r

theorem addGeneration_eq (acc : UInt64 × UInt64) (r : RequestRecord) :
    addGeneration acc r = (acc.1 + (generated r).1, acc.2 + (generated r).2) := by
  unfold generated addGeneration
  cases r.ttftMs with
  | none => simp
  | some t =>
    by_cases h : r.durationMs > t
    · simp [h]
    · simp [h]

theorem foldl_addGeneration (acc : UInt64 × UInt64) (rs : List RequestRecord) :
    rs.foldl addGeneration acc =
      (acc.1 + (rs.map fun r => (generated r).1).sum,
        acc.2 + (rs.map fun r => (generated r).2).sum) := by
  induction rs generalizing acc with
  | nil => simp
  | cons r rs ih =>
    rw [List.foldl_cons, ih, addGeneration_eq]
    simp only [List.map_cons, List.sum_cons, UInt64.add_assoc]

/-- The case split of the query is that of the fold. -/
theorem generates_rowOf (r : RequestRecord) :
    Sql.caseWhen (generates (rowOf r)) (some (rowOf r).tokensOut) (some 0) =
        some ((generated r).1.toNat : ℤ) ∧
      Sql.caseWhen (generates (rowOf r)) (Sql.sub (some (rowOf r).durationMs) (rowOf r).ttftMs)
        (some 0) = some ((generated r).2.toNat : ℤ) := by
  unfold generates generated addGeneration rowOf
  cases r.ttftMs with
  | none => exact ⟨rfl, rfl⟩
  | some t =>
    have hiff : (r.durationMs.toNat : ℤ) > t.toNat ↔ r.durationMs > t := by
      rw [gt_iff_lt, gt_iff_lt, UInt64.lt_iff_toNat_lt]
      exact Nat.cast_lt
    by_cases h : r.durationMs > t
    · have hle := UInt64.le_of_lt h
      have hsub := UInt64.toNat_sub_of_le _ _ hle
      rw [UInt64.le_iff_toNat_le] at hle
      simp [Sql.caseWhen, Sql.and, Sql.isNotNull, Sql.compare, Sql.sub, hiff, h, hsub]
      omega
    · simp [Sql.caseWhen, Sql.and, Sql.isNotNull, Sql.compare, hiff, h]

theorem generated_le (r : RequestRecord) :
    (generated r).1.toNat ≤ r.tokensOut.toNat ∧ (generated r).2.toNat ≤ r.durationMs.toNat := by
  unfold generated addGeneration
  cases r.ttftMs with
  | none => simp
  | some t =>
    by_cases h : r.durationMs > t
    · have hsub := UInt64.toNat_sub_of_le _ _ (UInt64.le_of_lt h)
      simp [h, hsub]
    · simp [h]

/-! ### Averages -/

theorem toNat_sum {α : Type} {l : List α} {f : α → UInt64}
    (h : (l.map fun a => (f a).toNat).sum < 2 ^ 64) :
    (l.map f).sum.toNat = (l.map fun a => (f a).toNat).sum := by
  rw [Sql.sum_ofNat, UInt64.toNat_ofNat', Nat.mod_eq_of_lt h]

/-- The average duration. -/
theorem avg_duration [Rounding] {rs : List RequestRecord} (h : FitsI64 rs) :
    (Sql.avg ((rs.map rowOf).map fun row => some row.durationMs)).getD 0 =
      ratio (rs.map fun r => r.durationMs).sum (lenU64 rs) := by
  have hcolumn : ((rs.map rowOf).map fun row => some row.durationMs) =
      (rs.map fun r => some r.durationMs.toNat).map (Option.map Nat.cast) := by
    rw [List.map_map, List.map_map]
    rfl
  have hlen : (lenU64 rs).toNat = rs.length := by
    have hlt := h.length
    rw [lenU64, UInt64.toNat_ofNat', Nat.mod_eq_of_lt (by omega)]
  rw [hcolumn, Sql.avg_natCast, Sql.reduceOption_map_some, ratio,
    toNat_sum (h.durationMs.trans (by decide)), hlen, List.length_map]
  simp only [List.map_eq_nil_iff]
  have hpos : lenU64 rs > 0 ↔ rs ≠ [] := by
    rw [gt_iff_lt, UInt64.lt_iff_toNat_lt, hlen]
    exact List.length_pos_iff
  by_cases hnil : rs = []
  · rw [if_pos hnil, if_neg (hpos.not.2 (not_not.2 hnil))]
  · rw [if_neg hnil, if_pos (hpos.2 hnil)]
    rfl

theorem sum_ttft (rs : List RequestRecord) :
    ((rs.filterMap fun r => r.ttftMs).map fun t => t.toNat).sum =
      (rs.map fun r => (r.ttftMs.getD 0).toNat).sum := by
  induction rs with
  | nil => rfl
  | cons r rs ih =>
    cases ht : r.ttftMs with
    | none => simp [ht, ih]
    | some t => simp [ht, ih]

theorem reduceOption_ttft (rs : List RequestRecord) :
    (rs.map fun r => r.ttftMs.map fun t => t.toNat).reduceOption =
      (rs.filterMap fun r => r.ttftMs).map fun t => t.toNat := by
  induction rs with
  | nil => rfl
  | cons r rs ih =>
    cases ht : r.ttftMs with
    | none => simpa [ht] using ih
    | some t => simpa [ht] using ih

/-- The average time to the first token, of the replies that have one. -/
theorem avg_ttft [Rounding] {rs : List RequestRecord} (h : FitsI64 rs) :
    (Sql.avg ((rs.map rowOf).map fun row => row.ttftMs)).getD 0 =
      average (rs.filterMap fun r => r.ttftMs) := by
  have hcolumn : ((rs.map rowOf).map fun row => row.ttftMs) =
      (rs.map fun r => r.ttftMs.map fun t => t.toNat).map (Option.map Nat.cast) := by
    rw [List.map_map, List.map_map]
    refine List.map_congr_left fun r _ => ?_
    show r.ttftMs.map _ = (r.ttftMs.map _).map _
    rw [Option.map_map]
    rfl
  have hfits : ((rs.filterMap fun r => r.ttftMs).map fun t => t.toNat).sum < 2 ^ 63 := by
    rw [sum_ttft]
    exact h.ttftMs
  have hsum := toNat_sum (hfits.trans (by decide))
  rw [List.map_id'] at hsum
  rw [hcolumn, Sql.avg_natCast, reduceOption_ttft, average, hsum, List.length_map]
  simp only [List.map_eq_nil_iff]
  rfl

/-! ### Agreement -/

/-- **The summary of the database.** -/
theorem querySummary_eq [Rounding] {records : List RequestRecord} (h : FitsI64 records)
    {nowMs : UInt64} (hclock : nowMs.toNat < 2 ^ 63) (windowMs : UInt64)
    (model : Option String) :
    querySummary (records.map rowOf) nowMs windowMs model =
      some (memorySummary records nowMs windowMs model) := by
  have hrs : FitsI64 (relevant records nowMs windowMs model) :=
    h.sublist (List.filter_sublist.trans List.filter_sublist)
  unfold querySummary memorySummary
  simp only [filter_whereClause hclock]
  generalize relevant records nowMs windowMs model = rs at hrs ⊢
  have hcount : Sql.readU64 (Sql.count (rs.map rowOf)) = some (lenU64 rs) := by
    rw [Sql.count, List.length_map, Sql.readU64_natCast]
    rfl
  have herrors := sumWhen_one hrs.length (fun row => row.status ≥ 400) (fun r => r.status ≥ 400)
    fun r => decide_eq_decide.2 Nat.ofNat_le_cast
  have hstatus : ∀ (r : RequestRecord) (n : ℕ), (rowOf r).status = n ↔ r.status = n :=
    fun r n => Nat.cast_inj
  have hthrottled := sumWhen_one hrs.length (fun row => row.status = 429 || row.status = 503)
    isThrottled fun r =>
      congrArg₂ or (decide_eq_decide.2 (hstatus r 429)) (decide_eq_decide.2 (hstatus r 503))
  have hcached := sumWhen_one hrs.length (fun row => row.cached = 1) (fun r => r.cached)
    fun r => by cases hr : r.cached <;> simp [rowOf, hr]
  have htokensIn := sumOf_rowOf (fun row => row.tokensIn) (fun _ => rfl) hrs.tokensIn
  have htokensOut := sumOf_rowOf (fun row => row.tokensOut) (fun _ => rfl) hrs.tokensOut
  have hcachedTokens := sumOf_rowOf (fun row => row.cachedTokens) (fun _ => rfl) hrs.cachedTokens
  have hcreation := sumOf_rowOf (fun row => row.cacheCreationTokens) (fun _ => rfl)
    hrs.cacheCreationTokens
  have hmax : Sql.readU64 (Sql.max ((rs.map rowOf).map fun row => some row.tokensIn)) =
      some ((rs.map fun r => r.tokensIn).max?.getD 0) := by
    rw [← Sql.readU64_max, List.map_map, List.map_map]
    rfl
  have hgenTokens := sumWhen_rowOf generates (fun row => some row.tokensOut)
    (fun r => (generated r).1) (fun r => (generates_rowOf r).1)
    ((List.sum_le_sum fun r _ => (generated_le r).1).trans_lt hrs.tokensOut)
  have hgenTime := sumWhen_rowOf generates (fun row => Sql.sub (some row.durationMs) row.ttftMs)
    (fun r => (generated r).2) (fun r => (generates_rowOf r).2)
    ((List.sum_le_sum fun r _ => (generated_le r).2).trans_lt hrs.durationMs)
  rw [hcount, herrors, hthrottled, hcached, htokensIn, htokensOut, hcachedTokens, hcreation, hmax,
    hgenTokens, hgenTime, avg_duration hrs, avg_ttft hrs, foldl_addGeneration]
  simp

/-- **The models of the database.** -/
theorem queryDistinctModels_eq {records : List RequestRecord} {nowMs : UInt64}
    (hclock : nowMs.toNat < 2 ^ 63) (windowMs : UInt64) :
    queryDistinctModels (records.map rowOf) nowMs windowMs =
      memoryDistinctModels records nowMs windowMs := by
  unfold queryDistinctModels memoryDistinctModels Sql.distinctAsc
  have hrows : ((records.map rowOf).filter fun row =>
      row.tsMs ≥ Sql.castI64 (startMs nowMs windowMs)) =
      (records.filter fun r => r.tsMs ≥ startMs nowMs windowMs).map rowOf := by
    rw [List.filter_map]
    refine congrArg _ (List.filter_congr fun r _ => ?_)
    exact decide_eq_decide.2 (tsMs_ge_iff hclock r)
  rw [hrows, List.map_map,
    (List.pairwise_insertionSort (· ≤ ·) _).insertionSort_eq]
  exact List.mergeSort_eq_insertionSort (· ≤ ·) _

/-- **The database and the memory agree.** Of the same records, all of them flushed, and at the same
moment, both give the same summaries and the same models, however averages and rates are rounded. -/
theorem summaries_agree [Rounding] (batches : List (List RequestRecord))
    (h : FitsI64 batches.flatten) (nowMs windowMs : UInt64) (hclock : nowMs.toNat < 2 ^ 63)
    (model : Option String) :
    querySummary (flushAll batches) nowMs windowMs model =
        some (memorySummary batches.flatten nowMs windowMs model) ∧
      queryDistinctModels (flushAll batches) nowMs windowMs =
        memoryDistinctModels batches.flatten nowMs windowMs := by
  rw [flushAll_eq h]
  exact ⟨querySummary_eq h hclock windowMs model, queryDistinctModels_eq hclock windowMs⟩

/-- Two flushes, one of a reply without a first token. -/
theorem summaries_agree_two :
    querySummary (flushAll [[sampleRecord 5 (some 5)], [sampleRecord 7 none]]) 10 6 (some "m") =
        some (memorySummary [sampleRecord 5 (some 5), sampleRecord 7 none] 10 6 (some "m")) ∧
      queryDistinctModels (flushAll [[sampleRecord 5 (some 5)], [sampleRecord 7 none]]) 10 6 =
        memoryDistinctModels [sampleRecord 5 (some 5), sampleRecord 7 none] 10 6 :=
  summaries_agree [[sampleRecord 5 (some 5)], [sampleRecord 7 none]]
    ⟨by decide, by decide, by decide, by decide, by decide, by decide, by decide, by decide⟩ 10 6
    (by decide) (some "m")

end Mybro
