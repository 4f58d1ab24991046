import Mybro.Stats

/-!
# Buckets and the summary

The buckets and the summary that the dashboard shows side by side are computed from the same
records. `accounted_iff` says for which records, windows and bucket sizes the buckets account for
every record of the summary.
-/

namespace Mybro

/-! ### Machine words -/

theorem toNat_numBuckets (windowMs bucketMs : UInt64) :
    numBuckets windowMs bucketMs = max (windowMs.toNat / bucketMs.toNat) 1 := by
  unfold numBuckets
  show (if windowMs / bucketMs ≤ 1 then (1 : UInt64) else windowMs / bucketMs).toNat = _
  split_ifs with h
  · rw [UInt64.le_iff_toNat_le, UInt64.toNat_div, UInt64.toNat_one] at h
    rw [UInt64.toNat_one]
    omega
  · rw [UInt64.le_iff_toNat_le, UInt64.toNat_div, UInt64.toNat_one] at h
    rw [UInt64.toNat_div]
    omega

/-- The beginning of a bucket, when it is not past the last moment there is. -/
theorem toNat_bucketStart {start bucketMs : UInt64} {i : ℕ} (hpos : 0 < bucketMs.toNat)
    (h : start.toNat + i * bucketMs.toNat < 2 ^ 64) :
    (start + UInt64.ofNat i * bucketMs).toNat = start.toNat + i * bucketMs.toNat := by
  have hi : i < 2 ^ 64 := by nlinarith
  rw [UInt64.toNat_add, UInt64.toNat_mul, UInt64.toNat_ofNat', Nat.mod_eq_of_lt hi,
    Nat.mod_eq_of_lt (show i * bucketMs.toNat < 2 ^ 64 by omega), Nat.mod_eq_of_lt h]

/-! ### Totals -/

/-- The totals that buckets and summaries have in common. -/
inductive Total where
  | count | errors | throttled | tokensIn | tokensOut | cachedTokens | cacheCreationTokens

/-- What a record adds to a total. -/
def Total.share : Total → RequestRecord → UInt64
  | .count, _ => 1
  | .errors, r => tally (r.status ≥ 400)
  | .throttled, r => tally (isThrottled r)
  | .tokensIn, r => r.tokensIn
  | .tokensOut, r => r.tokensOut
  | .cachedTokens, r => r.cachedTokens
  | .cacheCreationTokens, r => r.cacheCreationTokens

def Total.ofBucket : Total → StatsBucket → UInt64
  | .count, b => b.count
  | .errors, b => b.errors
  | .throttled, b => b.throttled
  | .tokensIn, b => b.tokensIn
  | .tokensOut, b => b.tokensOut
  | .cachedTokens, b => b.cachedTokens
  | .cacheCreationTokens, b => b.cacheCreationTokens

def Total.ofSummary : Total → StatsSummary → UInt64
  | .count, s => s.count
  | .errors, s => s.errors
  | .throttled, s => s.throttled
  | .tokensIn, s => s.tokensIn
  | .tokensOut, s => s.tokensOut
  | .cachedTokens, s => s.cachedTokens
  | .cacheCreationTokens, s => s.cacheCreationTokens

theorem Total.ofBucket_add (t : Total) (a : BucketAcc) (r : RequestRecord) :
    t.ofBucket (a.add r).bucket = t.ofBucket a.bucket + t.share r := by
  cases t <;> rfl

/-- The second pass leaves the totals and the beginning of a bucket alone. -/
theorem Total.ofBucket_finish (t : Total) (a : BucketAcc) :
    t.ofBucket a.finish = t.ofBucket a.bucket := by
  unfold BucketAcc.finish
  split_ifs
  · rfl
  · cases t <;> rfl

theorem BucketAcc.tsMs_finish (a : BucketAcc) : a.finish.tsMs = a.bucket.tsMs := by
  unfold BucketAcc.finish
  split_ifs <;> rfl

/-- A value of the bucket that every record adds to. -/
theorem BucketAcc.foldl_of_share {f : StatsBucket → UInt64} {share : RequestRecord → UInt64}
    (hadd : ∀ a r, f (BucketAcc.add a r).bucket = f a.bucket + share r) (a : BucketAcc)
    (rs : List RequestRecord) :
    f (rs.foldl BucketAcc.add a).bucket = f a.bucket + (rs.map share).sum := by
  induction rs generalizing a with
  | nil => simp
  | cons r rs ih =>
    rw [List.foldl_cons, ih, hadd, List.map_cons, List.sum_cons, UInt64.add_assoc]

theorem Total.ofBucket_foldl (t : Total) (a : BucketAcc) (rs : List RequestRecord) :
    t.ofBucket (rs.foldl BucketAcc.add a).bucket =
      t.ofBucket a.bucket + (rs.map t.share).sum :=
  BucketAcc.foldl_of_share t.ofBucket_add a rs

theorem BucketAcc.tsMs_foldl (a : BucketAcc) (rs : List RequestRecord) :
    (rs.foldl BucketAcc.add a).bucket.tsMs = a.bucket.tsMs := by
  induction rs generalizing a with
  | nil => rfl
  | cons r rs ih => rw [List.foldl_cons, ih]; rfl

theorem sum_share_count (rs : List RequestRecord) :
    (rs.map Total.count.share).sum = lenU64 rs := by
  have h := sum_tally (fun _ => true) rs
  rw [List.filter_true] at h
  exact h

/-- The summary adds up what its records add. -/
theorem Total.ofSummary_memorySummary (t : Total) (records : List RequestRecord)
    (nowMs windowMs : UInt64) (model : Option String) :
    t.ofSummary (memorySummary records nowMs windowMs model) =
      ((relevant records nowMs windowMs model).map t.share).sum := by
  cases t with
  | count => exact (sum_share_count _).symm
  | errors => exact (sum_tally (fun r => r.status ≥ 400) _).symm
  | throttled => exact (sum_tally isThrottled _).symm
  | tokensIn => rfl
  | tokensOut => rfl
  | cachedTokens => rfl
  | cacheCreationTokens => rfl

section

variable {records : List RequestRecord} {nowMs windowMs bucketMs : UInt64} {model : Option String}
variable {bs : List StatsBucket}

/-! ### The buckets -/

/-- The records counted in a bucket. -/
def counted (records : List RequestRecord) (nowMs windowMs bucketMs : UInt64) (model : Option String)
    (i : ℕ) : List RequestRecord :=
  ownRecords (bucketOf nowMs windowMs bucketMs model) records i

/-- A bucket as its beginning and its own records make it. -/
theorem getElem?_memoryBuckets (h : memoryBuckets records nowMs windowMs bucketMs model = some bs)
    (i : ℕ) :
    bs[i]? = if i < numBuckets windowMs bucketMs then
      some ((counted records nowMs windowMs bucketMs model i).foldl BucketAcc.add
        { bucket := { tsMs := startMs nowMs windowMs + UInt64.ofNat i * bucketMs } }).finish
      else none := by
  unfold memoryBuckets at h
  split_ifs at h with hzero
  obtain rfl := Option.some.inj h
  rw [List.getElem?_map, getElem?_distribute, emptyBuckets, List.getElem?_map]
  split_ifs with hi
  · rw [List.getElem?_range hi]
    rfl
  · rw [List.getElem?_eq_none (by simpa using hi)]
    rfl

theorem length_memoryBuckets (h : memoryBuckets records nowMs windowMs bucketMs model = some bs) :
    bs.length = numBuckets windowMs bucketMs := by
  unfold memoryBuckets at h
  split_ifs at h with hzero
  obtain rfl := Option.some.inj h
  rw [List.length_map, length_distribute, emptyBuckets, List.length_map, List.length_range]

theorem lt_numBuckets (h : memoryBuckets records nowMs windowMs bucketMs model = some bs) {i : ℕ}
    {b : StatsBucket} (hb : bs[i]? = some b) : i < numBuckets windowMs bucketMs := by
  rw [← length_memoryBuckets h]
  exact (List.getElem?_eq_some_iff.1 hb).1

theorem tsMs_memoryBuckets (h : memoryBuckets records nowMs windowMs bucketMs model = some bs)
    {i : ℕ} {b : StatsBucket} (hb : bs[i]? = some b) :
    b.tsMs = startMs nowMs windowMs + UInt64.ofNat i * bucketMs := by
  have hi := lt_numBuckets h hb
  rw [getElem?_memoryBuckets h, if_pos hi] at hb
  rw [← Option.some.inj hb, BucketAcc.tsMs_finish, BucketAcc.tsMs_foldl]

/-- A total of a bucket is that of its records. -/
theorem ofBucket_memoryBuckets (h : memoryBuckets records nowMs windowMs bucketMs model = some bs)
    {i : ℕ} {b : StatsBucket} (hb : bs[i]? = some b) (t : Total) :
    t.ofBucket b = ((counted records nowMs windowMs bucketMs model i).map t.share).sum := by
  have hi := lt_numBuckets h hb
  rw [getElem?_memoryBuckets h, if_pos hi] at hb
  rw [← Option.some.inj hb, t.ofBucket_finish, t.ofBucket_foldl]
  cases t <;> exact UInt64.zero_add _

/-- A total over the buckets is that of the records counted in some bucket. -/
theorem sum_ofBucket (h : memoryBuckets records nowMs windowMs bucketMs model = some bs)
    (t : Total) :
    (bs.map t.ofBucket).sum =
      ((placedRecords (bucketOf nowMs windowMs bucketMs model) records
        (numBuckets windowMs bucketMs)).map t.share).sum := by
  rw [← sum_slots]
  congr 1
  refine List.ext_getElem? fun i => ?_
  rw [List.getElem?_map, List.getElem?_map]
  cases hb : bs[i]? with
  | none =>
    have hi := List.getElem?_eq_none_iff.1 hb
    rw [length_memoryBuckets h] at hi
    rw [List.getElem?_eq_none (by simpa using hi)]
    rfl
  | some b =>
    rw [List.getElem?_range (lt_numBuckets h hb), Option.map_some, Option.map_some,
      ofBucket_memoryBuckets h hb]
    rfl

/-! ### Which bucket -/

theorem mem_relevant {r : RequestRecord} :
    r ∈ relevant records nowMs windowMs model ↔
      r ∈ records ∧ startMs nowMs windowMs ≤ r.tsMs ∧ hasModel model r = true := by
  simp only [relevant, List.mem_filter, decide_eq_true_eq]
  exact and_assoc

/-- The number of the bucket that a record of the summary belongs to. -/
def slotOf (nowMs windowMs bucketMs : UInt64) (r : RequestRecord) : ℕ :=
  (r.tsMs.toNat - (startMs nowMs windowMs).toNat) / bucketMs.toNat

/-- A record is counted if it is one that the summary may select, not in the future, and there is a
bucket of its number. -/
theorem bucketOf_eq_some {r : RequestRecord} {i : ℕ} :
    bucketOf nowMs windowMs bucketMs model r = some i ↔
      (startMs nowMs windowMs ≤ r.tsMs ∧ r.tsMs ≤ nowMs) ∧ hasModel model r = true ∧
        slotOf nowMs windowMs bucketMs r < numBuckets windowMs bucketMs ∧
        slotOf nowMs windowMs bucketMs r = i := by
  have hslot : startMs nowMs windowMs ≤ r.tsMs →
      ((r.tsMs - startMs nowMs windowMs) / bucketMs).toNat = slotOf nowMs windowMs bucketMs r := by
    intro hstart
    rw [UInt64.toNat_div, UInt64.toNat_sub_of_le _ _ hstart, slotOf]
  unfold bucketOf
  by_cases hstart : startMs nowMs windowMs ≤ r.tsMs
  · by_cases hnow : r.tsMs ≤ nowMs
    · by_cases hmodel : hasModel model r = true
      · simp [hstart, hnow, hmodel, hslot hstart]
      · simp [hstart, hnow, hmodel]
    · simp [hstart, hnow]
  · simp [hstart]

/-- Of the records of the summary, those are counted for which there is a bucket. -/
theorem placedRecords_bucketOf (hpast : ∀ r ∈ records, r.tsMs ≤ nowMs) :
    placedRecords (bucketOf nowMs windowMs bucketMs model) records (numBuckets windowMs bucketMs) =
      (relevant records nowMs windowMs model).filter fun r =>
        slotOf nowMs windowMs bucketMs r < numBuckets windowMs bucketMs := by
  unfold relevant placedRecords
  rw [List.filter_filter, List.filter_filter]
  refine List.filter_congr fun r hr => ?_
  rw [Bool.eq_iff_iff]
  simp only [Option.any_eq_true, bucketOf_eq_some, Bool.and_eq_true, decide_eq_true_eq]
  constructor
  · rintro ⟨i, ⟨⟨hstart, -⟩, hmodel, hslot, -⟩, -⟩
    exact ⟨⟨hslot, hmodel⟩, hstart⟩
  · rintro ⟨⟨hslot, hmodel⟩, hstart⟩
    exact ⟨_, ⟨⟨hstart, hpast r hr⟩, hmodel, hslot, rfl⟩, hslot⟩

/-! ### Accounting for every record -/

/-- The interval of the bucket number `i`, closed at the present for the last one. -/
def InInterval (nowMs bucketMs : UInt64) (bs : List StatsBucket) (i : ℕ) (b : StatsBucket)
    (ts : UInt64) : Prop :=
  b.tsMs.toNat ≤ ts.toNat ∧
    (ts.toNat < b.tsMs.toNat + bucketMs.toNat ∨ i + 1 = bs.length ∧ ts = nowMs)

/-- The buckets account for the selected records: these are shared out among the buckets, each to
one whose interval has its timestamp, and the totals of a bucket are those of its share, so that the
totals over all buckets are those of the summary. -/
structure Accounted (nowMs bucketMs : UInt64) (bs : List StatsBucket) (summary : StatsSummary)
    (selected : List RequestRecord) : Prop where
  shares : ∃ shares : ℕ → List RequestRecord,
    ((List.range bs.length).flatMap shares).Perm selected ∧
    ∀ i b, bs[i]? = some b →
      (∀ t : Total, t.ofBucket b = ((shares i).map t.share).sum) ∧
      ∀ r ∈ shares i, InInterval nowMs bucketMs bs i b r.tsMs
  sums : ∀ t : Total, (bs.map t.ofBucket).sum = t.ofSummary summary

/-- The end of the last whole bucket of a window. -/
def lastEnd (nowMs windowMs bucketMs : UInt64) : ℕ :=
  (nowMs.toNat - windowMs.toNat) + max (windowMs.toNat / bucketMs.toNat) 1 * bucketMs.toNat

theorem toNat_pos (hsize : bucketMs ≠ 0) : 0 < bucketMs.toNat := by
  rw [Nat.pos_iff_ne_zero, ← UInt64.toNat_zero]
  exact fun h => hsize (UInt64.toNat_inj.1 h)

theorem slotOf_lt_iff (hsize : bucketMs ≠ 0) {r : RequestRecord}
    (hr : startMs nowMs windowMs ≤ r.tsMs) :
    slotOf nowMs windowMs bucketMs r < numBuckets windowMs bucketMs ↔
      r.tsMs.toNat < lastEnd nowMs windowMs bucketMs := by
  have hpos := toNat_pos hsize
  rw [UInt64.le_iff_toNat_le, toNat_startMs] at hr
  rw [slotOf, toNat_startMs, toNat_numBuckets, Nat.div_lt_iff_lt_mul hpos, lastEnd]
  omega

/-- A record is counted in a bucket whose interval has its timestamp. -/
theorem inInterval_of_counted (hsize : bucketMs ≠ 0)
    (h : memoryBuckets records nowMs windowMs bucketMs model = some bs) {i : ℕ} {b : StatsBucket}
    (hb : bs[i]? = some b) {r : RequestRecord}
    (hr : r ∈ counted records nowMs windowMs bucketMs model i) :
    InInterval nowMs bucketMs bs i b r.tsMs := by
  have hpos := toNat_pos hsize
  obtain ⟨-, hi⟩ := List.mem_filter.1 hr
  obtain ⟨⟨hstart, -⟩, -, -, hslot⟩ := bucketOf_eq_some.1 (of_decide_eq_true hi)
  rw [UInt64.le_iff_toNat_le] at hstart
  have hlow := Nat.div_mul_le_self (r.tsMs.toNat - (startMs nowMs windowMs).toNat) bucketMs.toNat
  have hhigh := Nat.lt_div_mul_add (a := r.tsMs.toNat - (startMs nowMs windowMs).toNat) hpos
  rw [show (r.tsMs.toNat - (startMs nowMs windowMs).toNat) / bucketMs.toNat = i from hslot]
    at hlow hhigh
  have hbegin : b.tsMs.toNat = (startMs nowMs windowMs).toNat + i * bucketMs.toNat := by
    rw [tsMs_memoryBuckets h hb]
    have hlt := r.tsMs.toNat_lt
    exact toNat_bucketStart hpos (by omega)
  unfold InInterval
  omega

theorem accounted_of_placed (hsize : bucketMs ≠ 0)
    (h : memoryBuckets records nowMs windowMs bucketMs model = some bs)
    (hall : placedRecords (bucketOf nowMs windowMs bucketMs model) records
      (numBuckets windowMs bucketMs) = relevant records nowMs windowMs model) :
    Accounted nowMs bucketMs bs (memorySummary records nowMs windowMs model)
      (relevant records nowMs windowMs model) where
  shares := by
    refine ⟨counted records nowMs windowMs bucketMs model, ?_, fun i b hb =>
      ⟨ofBucket_memoryBuckets h hb, fun r hr => inInterval_of_counted hsize h hb hr⟩⟩
    rw [length_memoryBuckets h, ← hall]
    exact flatMap_ownRecords records _
  sums := by
    intro t
    rw [sum_ofBucket h, hall, t.ofSummary_memorySummary]

theorem lenU64_inj {α : Type} {l l' : List α} (hl : l.length < 2 ^ 64) (hl' : l'.length < 2 ^ 64)
    (h : lenU64 l = lenU64 l') : l.length = l'.length := by
  have hnat := congrArg UInt64.toNat h
  rwa [lenU64, lenU64, UInt64.toNat_ofNat', UInt64.toNat_ofNat', Nat.mod_eq_of_lt hl,
    Nat.mod_eq_of_lt hl'] at hnat

theorem length_relevant_le :
    (relevant records nowMs windowMs model).length ≤ records.length :=
  (List.length_filter_le _ _).trans (List.length_filter_le _ _)

/-- **When the buckets account for every record.** They do exactly when no record of the summary is
past the end of the last whole bucket: what is left of the window after that, the present itself
included, has no bucket. -/
theorem accounted_iff (records : List RequestRecord) (nowMs windowMs bucketMs : UInt64)
    (model : Option String) (hsize : bucketMs ≠ 0) (hpast : ∀ r ∈ records, r.tsMs ≤ nowMs)
    (hlen : records.length < 2 ^ 64) :
    ∃ bs, memoryBuckets records nowMs windowMs bucketMs model = some bs ∧
      (Accounted nowMs bucketMs bs (memorySummary records nowMs windowMs model)
          (relevant records nowMs windowMs model) ↔
        ∀ r ∈ relevant records nowMs windowMs model,
          r.tsMs.toNat < lastEnd nowMs windowMs bucketMs) := by
  obtain ⟨bs, hbs⟩ : ∃ bs, memoryBuckets records nowMs windowMs bucketMs model = some bs :=
    ⟨_, if_neg hsize⟩
  have hplaced : placedRecords (bucketOf nowMs windowMs bucketMs model) records
      (numBuckets windowMs bucketMs) = _ := placedRecords_bucketOf hpast
  refine ⟨bs, hbs, ?_, ?_⟩
  · intro hacc r hr
    have hcount := hacc.sums .count
    rw [sum_ofBucket hbs, hplaced, Total.ofSummary_memorySummary, sum_share_count,
      sum_share_count] at hcount
    have hle : (relevant records nowMs windowMs model).length < 2 ^ 64 :=
      length_relevant_le.trans_lt hlen
    have hsame := lenU64_inj ((List.length_filter_le _ _).trans_lt hle) hle hcount
    have hslot := List.length_filter_eq_length_iff.1 hsame r hr
    exact (slotOf_lt_iff hsize (mem_relevant.1 hr).2.1).1 (of_decide_eq_true hslot)
  · intro hlast
    refine accounted_of_placed hsize hbs ?_
    rw [hplaced, List.filter_eq_self]
    intro r hr
    exact decide_eq_true ((slotOf_lt_iff hsize (mem_relevant.1 hr).2.1).2 (hlast r hr))

end

/-- With a record at the beginning of the window and one in its middle, every record is counted. -/
theorem accounted_two :
    ∃ bs, memoryBuckets [sampleRecord 100 none, sampleRecord 155 none] 200 100 10 none = some bs ∧
      Accounted 200 10 bs (memorySummary [sampleRecord 100 none, sampleRecord 155 none] 200 100 none)
        (relevant [sampleRecord 100 none, sampleRecord 155 none] 200 100 none) := by
  obtain ⟨bs, hbs, hiff⟩ := accounted_iff [sampleRecord 100 none, sampleRecord 155 none] 200 100 10 none
    (by decide) (by decide) (by decide)
  exact ⟨bs, hbs, hiff.2 (by decide)⟩

/-- A record at the present moment is in the summary and in no bucket: the window is ten buckets
long, and there is no eleventh. -/
theorem present_has_no_bucket :
    ¬ ∀ (records : List RequestRecord) (nowMs windowMs bucketMs : UInt64) (model : Option String),
      bucketMs ≠ 0 → (∀ r ∈ records, r.tsMs ≤ nowMs) → records.length < 2 ^ 64 →
      ∃ bs, memoryBuckets records nowMs windowMs bucketMs model = some bs ∧
        Accounted nowMs bucketMs bs (memorySummary records nowMs windowMs model)
          (relevant records nowMs windowMs model) := by
  intro hall
  obtain ⟨bs, hbs, hacc⟩ :=
    hall [sampleRecord 200 none] 200 100 10 none (by decide) (by decide) (by decide)
  have hcount := hacc.sums .count
  rw [sum_ofBucket hbs] at hcount
  exact absurd hcount (by decide)

end Mybro
