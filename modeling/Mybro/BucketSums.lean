import Mybro.StatsBuckets
import Mybro.StatsSql

/-!
# What a bucket says about its records (`stats.rs`)

The loop of `buckets` keeps a dozen running values and a map by model in every bucket, and a second
pass sorts the latencies. `consistent_memoryBuckets` says how the values of one bucket hang together
when no sum wraps: the counts and sums exactly, the percentiles and the average as doubles.
-/

namespace Mybro

open Binary64

/-! ### The values of a bucket -/

/-- The sums over the records are machine words. -/
structure SumsFit (rs : List RequestRecord) : Prop where
  count : rs.length < 2 ^ 64
  durationMs : (rs.map fun r => r.durationMs.toNat).sum < 2 ^ 64
  tokensIn : (rs.map fun r => r.tokensIn.toNat).sum < 2 ^ 64
  tokensOut : (rs.map fun r => r.tokensOut.toNat).sum < 2 ^ 64

theorem SumsFit.sublist {rs rs' : List RequestRecord} (h : SumsFit rs') (hsub : rs.Sublist rs') :
    SumsFit rs where
  count := hsub.length_le.trans_lt h.count
  durationMs := ((hsub.map _).sum_le_sum fun _ _ => Nat.zero_le _).trans_lt h.durationMs
  tokensIn := ((hsub.map _).sum_le_sum fun _ _ => Nat.zero_le _).trans_lt h.tokensIn
  tokensOut := ((hsub.map _).sum_le_sum fun _ _ => Nat.zero_le _).trans_lt h.tokensOut

/-- A latency of the records. -/
def IsLatency (rs : List RequestRecord) (q : ℚ) : Prop := ∃ r ∈ rs, q = r.durationMs.toNat

/-- What the counts and sums of a bucket are to each other, given its records. -/
structure CountsAgree (rs : List RequestRecord) (b : StatsBucket) : Prop where
  throttled_le : b.throttled ≤ b.errors
  errors_le : b.errors ≤ b.count
  cached_le : b.cached ≤ b.count
  modelCounts : (b.byModel.map fun e => e.2.count.toNat).sum = b.count.toNat
  modelTokensIn : (b.byModel.map fun e => e.2.tokensIn.toNat).sum = b.tokensIn.toNat
  modelTokensOut : (b.byModel.map fun e => e.2.tokensOut.toNat).sum = b.tokensOut.toNat
  modelLatencies : (b.byModel.map fun e => e.2.latencySumMs.toNat).sum =
    (rs.map fun r => r.durationMs.toNat).sum
  max_latency : IsLatency rs b.maxLatencyMs.toNat

/-- **What the values of a bucket should be to each other.** -/
structure Consistent (rs : List RequestRecord) (b : StatsBucket) : Prop
    extends CountsAgree rs b where
  p50_latency : IsLatency rs b.p50LatencyMs
  p95_latency : IsLatency rs b.p95LatencyMs
  p50_le_p95 : b.p50LatencyMs ≤ b.p95LatencyMs
  p95_le_max : b.p95LatencyMs ≤ b.maxLatencyMs.toNat
  min_le_avg : ∃ q, IsLatency rs q ∧ (∀ q', IsLatency rs q' → q ≤ q') ∧ q ≤ b.avgLatencyMs
  avg_le_max : b.avgLatencyMs ≤ b.maxLatencyMs.toNat
  ttft : b.p50TtftMs ≤ b.p95TtftMs

/-- **What they are in doubles**: the percentiles are the doubles nearest to latencies, and the
average is between minimum and maximum up to one part in `2 ^ 51`. -/
structure ConsistentInDoubles (rs : List RequestRecord) (b : StatsBucket) : Prop
    extends CountsAgree rs b where
  p50_latency : ∃ q, IsLatency rs q ∧ b.p50LatencyMs = nearest q
  p95_latency : ∃ q, IsLatency rs q ∧ b.p95LatencyMs = nearest q
  p50_le_p95 : b.p50LatencyMs ≤ b.p95LatencyMs
  p95_le_max : b.p95LatencyMs ≤ nearest b.maxLatencyMs.toNat
  min_le_avg : ∃ q, IsLatency rs q ∧ (∀ q', IsLatency rs q' → q ≤ q') ∧
    q * (1 - 1 / 2 ^ 51) ≤ b.avgLatencyMs
  avg_le_max : b.avgLatencyMs ≤ b.maxLatencyMs.toNat * (1 + 1 / 2 ^ 51)
  ttft : b.p50TtftMs ≤ b.p95TtftMs

/-- The numbers that are converted to doubles are small enough for it to be exact. -/
structure SumsExact (rs : List RequestRecord) : Prop where
  count : rs.length ≤ 2 ^ 53
  durationMs : (rs.map fun r => r.durationMs.toNat).sum ≤ 2 ^ 53

/-! ### Running sums -/

/-- What a record adds to the entry of its model, it adds to the sum over the models, as long as
that is a machine word. -/
theorem sum_modelEntry {g : ModelBucket → UInt64} {f : ModelBucket → ModelBucket} {w : UInt64}
    (hzero : g {} = 0) (hf : ∀ e, g (f e) = g e + w) (name : String)
    {l : List (String × ModelBucket)}
    (hfits : (l.map fun e => (g e.2).toNat).sum + w.toNat < 2 ^ 64) :
    ((modelEntry name f l).map fun e => (g e.2).toNat).sum =
      (l.map fun e => (g e.2).toNat).sum + w.toNat := by
  have hnew : (g (f {})).toNat = w.toNat := by rw [hf, hzero, UInt64.zero_add]
  induction l with
  | nil => simp [modelEntry, hnew]
  | cons e l ih =>
    obtain ⟨other, m⟩ := e
    simp only [List.map_cons, List.sum_cons] at hfits ⊢
    have hadded : (g (f m)).toNat = (g m).toNat + w.toNat := by
      rw [hf, UInt64.toNat_add, Nat.mod_eq_of_lt (by omega)]
    unfold modelEntry
    split_ifs
    · simp only [List.map_cons, List.sum_cons, hadded]
      omega
    · simp only [List.map_cons, List.sum_cons, hnew]
      omega
    · simp only [List.map_cons, List.sum_cons, ih (by omega)]
      omega

/-- **The sums over the models are those over the records.** -/
theorem sum_byModel {g : ModelBucket → UInt64} (share : RequestRecord → UInt64) (hzero : g {} = 0)
    (hadd : ∀ r e, g { count := e.count + 1
                       latencySumMs := e.latencySumMs + r.durationMs
                       tokensIn := e.tokensIn + r.tokensIn
                       tokensOut := e.tokensOut + r.tokensOut : ModelBucket } = g e + share r)
    {a : BucketAcc} {rs : List RequestRecord}
    (hfits : (a.bucket.byModel.map fun e => (g e.2).toNat).sum +
      (rs.map fun r => (share r).toNat).sum < 2 ^ 64) :
    ((rs.foldl BucketAcc.add a).bucket.byModel.map fun e => (g e.2).toNat).sum =
      (a.bucket.byModel.map fun e => (g e.2).toNat).sum +
        (rs.map fun r => (share r).toNat).sum := by
  induction rs generalizing a with
  | nil => simp
  | cons r rs ih =>
    rw [List.map_cons, List.sum_cons] at hfits ⊢
    have hentry : ((a.add r).bucket.byModel.map fun e => (g e.2).toNat).sum = _ :=
      sum_modelEntry hzero (hadd r) r.model (w := share r) (by omega)
    rw [List.foldl_cons, ih (by rw [hentry]; omega), hentry]
    omega

/-! ### The lists of latencies -/

theorem latencies_foldl (a : BucketAcc) (rs : List RequestRecord) :
    (rs.foldl BucketAcc.add a).latencies = a.latencies ++ rs.map fun r => r.durationMs := by
  induction rs generalizing a with
  | nil => simp
  | cons r rs ih =>
    rw [List.foldl_cons, ih]
    simp [BucketAcc.add]

theorem maxLatencyMs_foldl (a : BucketAcc) (rs : List RequestRecord) :
    (rs.foldl BucketAcc.add a).bucket.maxLatencyMs =
      (rs.map fun r => r.durationMs).foldl max a.bucket.maxLatencyMs := by
  induction rs generalizing a with
  | nil => rfl
  | cons r rs ih => rw [List.foldl_cons, ih]; rfl

theorem ttfts_foldl (a : BucketAcc) (rs : List RequestRecord) :
    (rs.foldl BucketAcc.add a).ttfts = a.ttfts ++ rs.filterMap fun r => r.ttftMs := by
  induction rs generalizing a with
  | nil => simp
  | cons r rs ih =>
    rw [List.foldl_cons, ih]
    cases ht : r.ttftMs <;> simp [BucketAcc.add, ht]

theorem max_cases (a b : UInt64) : (max a b = a ∧ b ≤ a) ∨ (max a b = b ∧ a ≤ b) := by
  by_cases h : a ≤ b
  · exact Or.inr ⟨if_pos h, h⟩
  · exact Or.inl ⟨if_neg h, (UInt64.le_total a b).resolve_left h⟩

/-- The largest of a list, from a start on. -/
theorem foldl_max_spec (l : List UInt64) (a : UInt64) :
    (l.foldl max a = a ∨ l.foldl max a ∈ l) ∧ a ≤ l.foldl max a ∧ ∀ x ∈ l, x ≤ l.foldl max a := by
  induction l generalizing a with
  | nil => exact ⟨Or.inl rfl, UInt64.le_refl a, nofun⟩
  | cons x l ih =>
    obtain ⟨hmem, hle, hall⟩ := ih (max a x)
    rw [List.foldl_cons, List.forall_mem_cons]
    rcases max_cases a x with ⟨hmax, hxa⟩ | ⟨hmax, hax⟩
    · rw [hmax] at hmem hle hall ⊢
      exact ⟨hmem.imp_right (List.mem_cons_of_mem _), hle, UInt64.le_trans hxa hle, hall⟩
    · rw [hmax] at hmem hle hall ⊢
      refine ⟨Or.inr ?_, UInt64.le_trans hax hle, hle, hall⟩
      rcases hmem with heq | hmem
      · rw [heq]
        exact List.mem_cons_self
      · exact List.mem_cons_of_mem _ hmem

/-! ### Percentiles -/

/-- The place of a percentile in a sorted list. -/
def rank (n p : ℕ) : ℕ := min ((2 * p * (n - 1) + 100) / 200) (n - 1)

theorem rank_lt {n : ℕ} (h : 0 < n) (p : ℕ) : rank n p < n :=
  (min_le_right _ _).trans_lt (Nat.sub_lt h Nat.one_pos)

theorem rank_mono {p q : ℕ} (h : p ≤ q) (n : ℕ) : rank n p ≤ rank n q := by
  unfold rank
  have hmul : 2 * p * (n - 1) ≤ 2 * q * (n - 1) := by gcongr
  omega

theorem percentile_eq {l : List UInt64} {p : ℕ} (h : rank l.length p < l.length) :
    percentile l p = nearest l[rank l.length p].toNat := by
  have hvalue : percentile l p = nearest (l.getD (rank l.length p) 0).toNat := by
    cases l with
    | nil => cases h
    | cons x l => rfl
  rw [hvalue, List.getD_eq_getElem?_getD, List.getElem?_eq_getElem h, Option.getD_some]

/-- A percentile is the double nearest to an element of the list. -/
theorem exists_percentile {l : List UInt64} (h : l ≠ []) (p : ℕ) :
    ∃ x ∈ l, percentile l p = nearest x.toNat := by
  have hlt := rank_lt (List.length_pos_of_ne_nil h) p
  exact ⟨_, List.getElem_mem hlt, percentile_eq hlt⟩

theorem nearest_toNat_mono {x y : UInt64} (h : x ≤ y) :
    nearest x.toNat ≤ nearest y.toNat :=
  nearest_mono (Nat.cast_nonneg _) (Nat.cast_le.2 (UInt64.le_iff_toNat_le.1 h))

/-- A higher percentile is no smaller. -/
theorem percentile_mono {l : List UInt64} (h : l.Pairwise (· ≤ ·)) {p q : ℕ} (hpq : p ≤ q) :
    percentile l p ≤ percentile l q := by
  by_cases hne : l = []
  · subst hne
    exact le_rfl
  · have hp := rank_lt (List.length_pos_of_ne_nil hne) p
    have hq := rank_lt (List.length_pos_of_ne_nil hne) q
    rw [percentile_eq hp, percentile_eq hq]
    refine nearest_toNat_mono ?_
    rcases (rank_mono hpq l.length).lt_or_eq with hlt | heq
    · exact List.pairwise_iff_getElem.1 h _ _ hp hq hlt
    · simp only [heq, UInt64.le_refl]

theorem pairwise_mergeSort_le (l : List UInt64) : l.mergeSort.Pairwise (· ≤ ·) := by
  refine (List.pairwise_mergeSort (fun a b c hab hbc => ?_) (fun a b => ?_) l).imp of_decide_eq_true
  · exact decide_eq_true (UInt64.le_trans (of_decide_eq_true hab) (of_decide_eq_true hbc))
  · simpa using UInt64.le_total a b

/-! ### Counts and averages -/

section

variable {rs : List RequestRecord}

theorem toNat_lenU64 {α : Type} {l : List α} (h : l.length < 2 ^ 64) :
    (lenU64 l).toNat = l.length := by
  rw [lenU64, UInt64.toNat_ofNat', Nat.mod_eq_of_lt h]

/-- Fewer records are counted where the condition is stronger. -/
theorem sum_tally_le {p q : RequestRecord → Bool} (h : rs.length < 2 ^ 64)
    (hpq : ∀ r, p r = true → q r = true) :
    (rs.map fun r => tally (p r)).sum ≤ (rs.map fun r => tally (q r)).sum := by
  rw [sum_tally, sum_tally, UInt64.le_iff_toNat_le,
    toNat_lenU64 ((List.length_filter_le _ _).trans_lt h),
    toNat_lenU64 ((List.length_filter_le _ _).trans_lt h), ← List.countP_eq_length_filter,
    ← List.countP_eq_length_filter]
  exact List.countP_mono_left fun r _ => hpq r

/-- The mean is between any bounds of the latencies. -/
theorem mean_bounds (hne : rs ≠ []) {low high : ℕ} (hlow : ∀ r ∈ rs, low ≤ r.durationMs.toNat)
    (hhigh : ∀ r ∈ rs, r.durationMs.toNat ≤ high) :
    (low : ℚ) ≤ ((rs.map fun r => r.durationMs.toNat).sum : ℕ) / (rs.length : ℚ) ∧
      ((rs.map fun r => r.durationMs.toNat).sum : ℕ) / (rs.length : ℚ) ≤ high := by
  have hpos : (0 : ℚ) < (rs.length : ℚ) := Nat.cast_pos.2 (List.length_pos_of_ne_nil hne)
  have hle : rs.length * low ≤ (rs.map fun r => r.durationMs.toNat).sum := by
    have h := List.card_nsmul_le_sum (rs.map fun r => r.durationMs.toNat) low (by simpa using hlow)
    simpa using h
  have hge : (rs.map fun r => r.durationMs.toNat).sum ≤ rs.length * high := by
    have h := List.sum_le_card_nsmul (rs.map fun r => r.durationMs.toNat) high
      (by simpa using hhigh)
    simpa using h
  rw [le_div_iff₀ hpos, div_le_iff₀ hpos]
  constructor
  · rw [mul_comm]
    exact_mod_cast hle
  · rw [mul_comm]
    exact_mod_cast hge

/-- The average is the rounded quotient of the rounded sum and the rounded number. -/
theorem average_eq (hne : rs ≠ []) (hfits : SumsFit rs) :
    average (rs.map fun r => r.durationMs) =
      nearest (nearest ((rs.map fun r => r.durationMs.toNat).sum : ℕ) / nearest rs.length) := by
  rw [average, if_neg (by simpa using hne), toNat_sum hfits.durationMs, List.length_map]
  rfl

/-- **The average is between the bounds of the latencies**, up to one part in `2 ^ 51`. -/
theorem average_bounds (hne : rs ≠ []) (hfits : SumsFit rs) {low high : ℕ}
    (hlow : ∀ r ∈ rs, low ≤ r.durationMs.toNat) (hhigh : ∀ r ∈ rs, r.durationMs.toNat ≤ high) :
    low * (1 - 1 / 2 ^ 51) ≤ average (rs.map fun r => r.durationMs) ∧
      average (rs.map fun r => r.durationMs) ≤ high * (1 + 1 / 2 ^ 51) := by
  obtain ⟨hge, hle⟩ := mean_bounds hne hlow hhigh
  have hpos : (0 : ℚ) < (rs.length : ℚ) := Nat.cast_pos.2 (List.length_pos_of_ne_nil hne)
  have herror := abs_le.1 (abs_nearest_div_sub_le
    (Nat.cast_nonneg (rs.map fun r => r.durationMs.toNat).sum) hpos)
  rw [average_eq hne hfits]
  constructor <;> linarith

/-- **The average is between the bounds of the latencies** where their sum is exact. -/
theorem average_bounds_of_exact (hne : rs ≠ []) (hfits : SumsFit rs) (hexact : SumsExact rs)
    {low high : ℕ} (hlow : ∀ r ∈ rs, low ≤ r.durationMs.toNat)
    (hhigh : ∀ r ∈ rs, r.durationMs.toNat ≤ high) (hlargest : high ≤ 2 ^ 53) :
    (low : ℚ) ≤ average (rs.map fun r => r.durationMs) ∧
      average (rs.map fun r => r.durationMs) ≤ high := by
  obtain ⟨hge, hle⟩ := mean_bounds hne hlow hhigh
  rw [average_eq hne hfits, nearest_natCast hexact.durationMs, nearest_natCast hexact.count]
  have hnonneg : (0 : ℚ) ≤ low := Nat.cast_nonneg _
  have hle' : low ≤ high := by exact_mod_cast hge.trans hle
  rw [← nearest_natCast (hle'.trans hlargest), ← nearest_natCast hlargest]
  exact ⟨nearest_mono hnonneg hge, nearest_mono (hnonneg.trans hge) hle⟩

/-- There is a least latency. -/
theorem exists_least_latency (hne : rs ≠ []) :
    ∃ r ∈ rs, ∀ r' ∈ rs, r.durationMs.toNat ≤ r'.durationMs.toNat := by
  have hsome : ∃ n, ∃ r ∈ rs, r.durationMs.toNat = n := by
    obtain ⟨r, hr⟩ := List.exists_mem_of_ne_nil rs hne
    exact ⟨_, r, hr, rfl⟩
  obtain ⟨r, hr, heq⟩ := Nat.find_spec hsome
  exact ⟨r, hr, fun r' hr' => heq ▸ Nat.find_min' hsome ⟨r', hr', rfl⟩⟩

/-! ### One bucket -/

/-- A percentile of the latencies is the double nearest to one of them. -/
theorem isLatency_percentile (hne : rs ≠ []) (p : ℕ) :
    ∃ q, IsLatency rs q ∧
      percentile (rs.map fun r => r.durationMs).mergeSort p = nearest q := by
  have hne' : (rs.map fun r => r.durationMs).mergeSort ≠ [] := by
    intro hnil
    have hlen := congrArg List.length hnil
    rw [List.length_mergeSort, List.length_map, List.length_nil, List.length_eq_zero_iff] at hlen
    exact hne hlen
  obtain ⟨x, hx, hvalue⟩ := exists_percentile hne' p
  obtain ⟨r, hr, rfl⟩ := List.mem_map.1 (List.mem_mergeSort.1 hx)
  exact ⟨_, ⟨r, hr, rfl⟩, hvalue⟩

/-- A latency whose sum is exact is a double. -/
theorem IsLatency.nearest_eq {q : ℚ} (h : IsLatency rs q) (hexact : SumsExact rs) :
    nearest q = q := by
  obtain ⟨r, hr, rfl⟩ := h
  have hmem : r.durationMs.toNat ∈ rs.map fun r => r.durationMs.toNat := List.mem_map_of_mem hr
  exact nearest_natCast ((List.single_le_sum (fun _ _ => Nat.zero_le _) _ hmem).trans
    hexact.durationMs)

/-- The largest latency is one of them, and no other exceeds it. -/
theorem isLatency_max (hne : rs ≠ []) :
    IsLatency rs ((rs.map RequestRecord.durationMs).foldl max 0).toNat ∧
      ∀ q, IsLatency rs q → q ≤ ((rs.map RequestRecord.durationMs).foldl max 0).toNat := by
  obtain ⟨hmem, -, hall⟩ := foldl_max_spec (rs.map fun r => r.durationMs) 0
  have hle : ∀ r ∈ rs, r.durationMs ≤ (rs.map fun r => r.durationMs).foldl max 0 :=
    fun r hr => hall _ (List.mem_map_of_mem hr)
  refine ⟨?_, ?_⟩
  · rcases hmem with hzero | hmem
    · -- the largest is 0, and so are all
      obtain ⟨r, hr⟩ := List.exists_mem_of_ne_nil rs hne
      refine ⟨r, hr, ?_⟩
      have hr0 := hle r hr
      rw [hzero, UInt64.le_iff_toNat_le, UInt64.toNat_zero, Nat.le_zero] at hr0
      rw [hzero, hr0]
      rfl
    · obtain ⟨r, hr, heq⟩ := List.mem_map.1 hmem
      exact ⟨r, hr, by rw [heq]⟩
  · rintro _ ⟨r, hr, rfl⟩
    rw [Nat.cast_le, ← UInt64.le_iff_toNat_le]
    exact hle r hr

/-- What the loop of `buckets` leaves in a bucket that takes in these records. -/
structure FirstPass (rs : List RequestRecord) (a : BucketAcc) : Prop where
  total : ∀ t : Total, t.ofBucket a.bucket = (rs.map t.share).sum
  cached : a.bucket.cached = (rs.map fun r => tally (hitsCache r)).sum
  modelCounts : (a.bucket.byModel.map fun e => e.2.count.toNat).sum = rs.length
  modelTokensIn : (a.bucket.byModel.map fun e => e.2.tokensIn.toNat).sum =
    (rs.map fun r => r.tokensIn.toNat).sum
  modelTokensOut : (a.bucket.byModel.map fun e => e.2.tokensOut.toNat).sum =
    (rs.map fun r => r.tokensOut.toNat).sum
  modelLatencies : (a.bucket.byModel.map fun e => e.2.latencySumMs.toNat).sum =
    (rs.map fun r => r.durationMs.toNat).sum
  latencies : a.latencies = rs.map fun r => r.durationMs
  maxLatencyMs : a.bucket.maxLatencyMs = (rs.map RequestRecord.durationMs).foldl max 0

theorem firstPass_foldl (hfits : SumsFit rs) (tsMs : UInt64) :
    FirstPass rs (rs.foldl BucketAcc.add { bucket := { tsMs := tsMs } }) := by
  have hzero : ∀ g : ModelBucket → UInt64,
      (([] : List (String × ModelBucket)).map fun e => (g e.2).toNat).sum = 0 := fun _ => rfl
  refine ⟨fun t => ?_, ?_, ?_, ?_, ?_, ?_, latencies_foldl _ rs, maxLatencyMs_foldl _ rs⟩
  · rw [t.ofBucket_foldl]
    cases t <;> exact UInt64.zero_add _
  · exact (BucketAcc.foldl_of_share (f := StatsBucket.cached) (fun _ _ => rfl) _ rs).trans
      (UInt64.zero_add _)
  · rw [sum_byModel (g := ModelBucket.count) (fun _ => 1) rfl (fun _ _ => rfl)]
    · simp
    · simpa using hfits.count
  · rw [sum_byModel (g := ModelBucket.tokensIn) _ rfl (fun _ _ => rfl), hzero, Nat.zero_add]
    simpa using hfits.tokensIn
  · rw [sum_byModel (g := ModelBucket.tokensOut) _ rfl (fun _ _ => rfl), hzero, Nat.zero_add]
    simpa using hfits.tokensOut
  · rw [sum_byModel (g := ModelBucket.latencySumMs) _ rfl (fun _ _ => rfl), hzero, Nat.zero_add]
    simpa using hfits.durationMs

/-- The counts of a bucket are ordered as the sets they count. -/
theorem FirstPass.counts_le {a : BucketAcc} (h : FirstPass rs a) (hlen : rs.length < 2 ^ 64) :
    a.bucket.throttled ≤ a.bucket.errors ∧ a.bucket.errors ≤ a.bucket.count ∧
      a.bucket.cached ≤ a.bucket.count := by
  have hones : a.bucket.count = (rs.map fun _ => tally true).sum := h.total .count
  have herrors : a.bucket.errors = (rs.map fun r => tally (r.status ≥ 400)).sum := h.total .errors
  have hthrottled : a.bucket.throttled = (rs.map fun r => tally (isThrottled r)).sum :=
    h.total .throttled
  rw [h.cached, hthrottled, herrors, hones]
  refine ⟨sum_tally_le hlen fun r hr => ?_, sum_tally_le hlen fun _ _ => rfl,
    sum_tally_le hlen fun _ _ => rfl⟩
  have hstatus : r.status = 429 ∨ r.status = 503 := by simpa [isThrottled] using hr
  exact decide_eq_true (by omega)

/-- What the second pass finds in a bucket that has taken in its records. -/
theorem FirstPass.count_ne_zero {a : BucketAcc} (h : FirstPass rs a) (hne : rs ≠ [])
    (hlen : rs.length < 2 ^ 64) : a.bucket.count ≠ 0 := by
  intro hzero
  have hcount : a.bucket.count = lenU64 rs := (h.total .count).trans (sum_share_count rs)
  have hnat := congrArg UInt64.toNat (hcount.symm.trans hzero)
  rw [toNat_lenU64 hlen, UInt64.toNat_zero, List.length_eq_zero_iff] at hnat
  exact hne hnat

theorem FirstPass.countsAgree {a : BucketAcc} (h : FirstPass rs a) (hne : rs ≠ [])
    (hfits : SumsFit rs) : CountsAgree rs a.finish := by
  obtain ⟨hthrottled, herrors, hcached⟩ := h.counts_le hfits.count
  have hmax := (isLatency_max hne).1
  rw [← h.maxLatencyMs] at hmax
  rw [BucketAcc.finish, if_neg (h.count_ne_zero hne hfits.count)]
  refine
    { throttled_le := hthrottled, errors_le := herrors, cached_le := hcached
      modelCounts := ?_, modelTokensIn := ?_, modelTokensOut := ?_
      modelLatencies := h.modelLatencies, max_latency := hmax }
  · show _ = a.bucket.count.toNat
    rw [show a.bucket.count = lenU64 rs from (h.total .count).trans (sum_share_count rs),
      toNat_lenU64 hfits.count]
    exact h.modelCounts
  · show _ = a.bucket.tokensIn.toNat
    rw [show a.bucket.tokensIn = _ from h.total .tokensIn]
    exact h.modelTokensIn.trans (toNat_sum hfits.tokensIn).symm
  · show _ = a.bucket.tokensOut.toNat
    rw [show a.bucket.tokensOut = _ from h.total .tokensOut]
    exact h.modelTokensOut.trans (toNat_sum hfits.tokensOut).symm

theorem FirstPass.avgLatencyMs {a : BucketAcc} (h : FirstPass rs a) (hne : rs ≠ [])
    (hfits : SumsFit rs) : a.finish.avgLatencyMs = average (rs.map fun r => r.durationMs) := by
  rw [BucketAcc.finish, if_neg (h.count_ne_zero hne hfits.count), ← h.latencies]

theorem FirstPass.percentiles {a : BucketAcc} (h : FirstPass rs a) (hne : rs ≠ [])
    (hfits : SumsFit rs) :
    a.finish.p50LatencyMs = percentile (rs.map fun r => r.durationMs).mergeSort 50 ∧
      a.finish.p95LatencyMs = percentile (rs.map fun r => r.durationMs).mergeSort 95 := by
  rw [BucketAcc.finish, if_neg (h.count_ne_zero hne hfits.count), ← h.latencies]
  exact ⟨rfl, rfl⟩

theorem FirstPass.ttfts_le {a : BucketAcc} (h : FirstPass rs a) (hne : rs ≠ [])
    (hfits : SumsFit rs) : a.finish.p50TtftMs ≤ a.finish.p95TtftMs := by
  rw [BucketAcc.finish, if_neg (h.count_ne_zero hne hfits.count)]
  exact percentile_mono (pairwise_mergeSort_le _) (by decide)

/-- No latency exceeds the maximum of the bucket. -/
theorem FirstPass.le_maxLatencyMs {a : BucketAcc} (h : FirstPass rs a) (hne : rs ≠ [])
    (hfits : SumsFit rs) : ∀ q, IsLatency rs q → q ≤ a.finish.maxLatencyMs.toNat := by
  rw [BucketAcc.finish, if_neg (h.count_ne_zero hne hfits.count)]
  show ∀ q, IsLatency rs q → q ≤ a.bucket.maxLatencyMs.toNat
  rw [h.maxLatencyMs]
  exact (isLatency_max hne).2

/-- **A bucket that has taken in its records is consistent in doubles after the second pass.** -/
theorem FirstPass.consistentInDoubles {a : BucketAcc} (h : FirstPass rs a) (hne : rs ≠ [])
    (hfits : SumsFit rs) : ConsistentInDoubles rs a.finish := by
  have hmax := h.le_maxLatencyMs hne hfits
  obtain ⟨low, hlow, hlowest⟩ := exists_least_latency hne
  obtain ⟨hp50, hp95⟩ := h.percentiles hne hfits
  obtain ⟨q50, hq50, hv50⟩ := isLatency_percentile hne 50
  obtain ⟨q95, hq95, hv95⟩ := isLatency_percentile hne 95
  obtain ⟨hge, hlt⟩ := average_bounds hne hfits hlowest fun r hr =>
    Nat.cast_le.1 (hmax _ ⟨r, hr, rfl⟩)
  rw [← h.avgLatencyMs hne hfits] at hge hlt
  exact
    { toCountsAgree := h.countsAgree hne hfits
      p50_latency := ⟨q50, hq50, hp50.trans hv50⟩
      p95_latency := ⟨q95, hq95, hp95.trans hv95⟩
      p50_le_p95 := by
        rw [hp50, hp95]
        exact percentile_mono (pairwise_mergeSort_le _) (by decide)
      p95_le_max := by
        rw [hp95, hv95]
        refine nearest_mono ?_ (hmax _ hq95)
        obtain ⟨r, -, rfl⟩ := hq95
        exact Nat.cast_nonneg _
      min_le_avg := by
        refine ⟨_, ⟨low, hlow, rfl⟩, ?_, hge⟩
        rintro _ ⟨r, hr, rfl⟩
        exact Nat.cast_le.2 (hlowest r hr)
      avg_le_max := hlt
      ttft := h.ttfts_le hne hfits }

/-- **Where its latencies add up to a double, it is consistent.** -/
theorem FirstPass.consistent {a : BucketAcc} (h : FirstPass rs a) (hne : rs ≠ [])
    (hfits : SumsFit rs) (hexact : SumsExact rs) : Consistent rs a.finish := by
  have hdoubles := h.consistentInDoubles hne hfits
  have hmax := h.le_maxLatencyMs hne hfits
  obtain ⟨low, hlow, hlowest⟩ := exists_least_latency hne
  obtain ⟨q50, hq50, hv50⟩ := hdoubles.p50_latency
  obtain ⟨q95, hq95, hv95⟩ := hdoubles.p95_latency
  rw [hq50.nearest_eq hexact] at hv50
  rw [hq95.nearest_eq hexact] at hv95
  have hlargest : a.finish.maxLatencyMs.toNat ≤ 2 ^ 53 := by
    obtain ⟨r, hr, heq⟩ := hdoubles.max_latency
    rw [Nat.cast_inj.1 heq]
    exact (List.single_le_sum (fun _ _ => Nat.zero_le _) _ (List.mem_map_of_mem hr)).trans
      hexact.durationMs
  obtain ⟨hge, hlt⟩ := average_bounds_of_exact hne hfits hexact hlowest
    (fun r hr => Nat.cast_le.1 (hmax _ ⟨r, hr, rfl⟩)) hlargest
  rw [← h.avgLatencyMs hne hfits] at hge hlt
  exact
    { toCountsAgree := hdoubles.toCountsAgree
      p50_latency := hv50 ▸ hq50
      p95_latency := hv95 ▸ hq95
      p50_le_p95 := hdoubles.p50_le_p95
      p95_le_max := hv95 ▸ hmax _ hq95
      min_le_avg := by
        refine ⟨_, ⟨low, hlow, rfl⟩, ?_, hge⟩
        rintro _ ⟨r, hr, rfl⟩
        exact Nat.cast_le.2 (hlowest r hr)
      avg_le_max := hlt
      ttft := hdoubles.ttft }

/-- A bucket that counts a record. -/
theorem consistent_of_counted {records : List RequestRecord} (hfits : SumsFit records)
    {nowMs windowMs bucketMs : UInt64} {model : Option String} {bs : List StatsBucket}
    (hbs : memoryBuckets records nowMs windowMs bucketMs model = some bs) {i : ℕ} {b : StatsBucket}
    (hb : bs[i]? = some b) (hcount : 0 < b.count) :
    ConsistentInDoubles (counted records nowMs windowMs bucketMs model i) b ∧
      (SumsExact (counted records nowMs windowMs bucketMs model i) →
        Consistent (counted records nowMs windowMs bucketMs model i) b) := by
  have hrs : counted records nowMs windowMs bucketMs model i ≠ [] := by
    intro hnil
    have htotal := ofBucket_memoryBuckets hbs hb .count
    rw [hnil] at htotal
    have hzero : b.count = 0 := htotal
    rw [hzero] at hcount
    exact absurd hcount (by decide)
  have hfits' : SumsFit (counted records nowMs windowMs bucketMs model i) :=
    hfits.sublist List.filter_sublist
  have hlt := lt_numBuckets hbs hb
  rw [getElem?_memoryBuckets hbs, if_pos hlt] at hb
  rw [← Option.some.inj hb]
  have hpass := firstPass_foldl hfits' (startMs nowMs windowMs + UInt64.ofNat i * bucketMs)
  exact ⟨hpass.consistentInDoubles hrs hfits', hpass.consistent hrs hfits'⟩

/-- **Every in-memory bucket that counts a record is consistent in doubles**, as long as the sums
over the records are machine words; and it is consistent where the sum of its latencies and their
number are at most `2 ^ 53`. -/
theorem consistent_memoryBuckets {records : List RequestRecord} (hfits : SumsFit records)
    (nowMs windowMs : UInt64) {bucketMs : UInt64} (hsize : 0 < bucketMs) (model : Option String) :
    ∃ bs, memoryBuckets records nowMs windowMs bucketMs model = some bs ∧
      ∀ i b, bs[i]? = some b → 0 < b.count →
        ConsistentInDoubles (counted records nowMs windowMs bucketMs model i) b ∧
          (SumsExact (counted records nowMs windowMs bucketMs model i) →
            Consistent (counted records nowMs windowMs bucketMs model i) b) := by
  have hne : bucketMs ≠ 0 := by
    rintro rfl
    exact absurd hsize (by decide)
  obtain ⟨bs, hbs⟩ : ∃ bs, memoryBuckets records nowMs windowMs bucketMs model = some bs :=
    ⟨_, if_neg hne⟩
  exact ⟨bs, hbs, fun i b hb hcount => consistent_of_counted hfits hbs hb hcount⟩

end

/-- Two records in two buckets, one with a time to its first token: both buckets are consistent. -/
theorem consistent_two :
    ∃ bs, memoryBuckets [sampleRecord 100 none, sampleRecord 155 (some 5)] 200 100 10 none =
        some bs ∧
      ∀ i b, bs[i]? = some b → 0 < b.count →
        Consistent (counted [sampleRecord 100 none, sampleRecord 155 (some 5)] 200 100 10 none i)
          b := by
  have hfits : SumsFit [sampleRecord 100 none, sampleRecord 155 (some 5)] :=
    ⟨by decide, by decide, by decide, by decide⟩
  have hsize : (0 : UInt64) < 10 := by decide
  obtain ⟨bs, hbs, hall⟩ := consistent_memoryBuckets hfits 200 100 hsize none
  refine ⟨bs, hbs, fun i b hb hcount => (hall i b hb hcount).2 ?_⟩
  have hsub : (counted [sampleRecord 100 none, sampleRecord 155 (some 5)] 200 100 10 none i).Sublist
      [sampleRecord 100 none, sampleRecord 155 (some 5)] := List.filter_sublist
  exact ⟨hsub.length_le.trans (by decide),
    ((hsub.map _).sum_le_sum fun _ _ => Nat.zero_le _).trans (by decide)⟩

/-- A record whose duration is no double. -/
def longRecord : RequestRecord := { sampleRecord 100 none with durationMs := 9007199254740995 }

/-- The duration is halfway between two doubles, and the upper one is even. -/
theorem nearest_longRecord : nearest (longRecord.durationMs.toNat : ℕ) = 9007199254740996 := by
  have hvalue : longRecord.durationMs.toNat = 9007199254740995 := rfl
  have hulp : ulp (9007199254740995 : ℕ) = 2 := by
    rw [ulp, Int.log_natCast]
    norm_num
  rw [hvalue, nearest, hulp, roundEven]
  norm_num [Int.even_iff]

/-- Alone in its bucket, this record has a percentile above the maximum. -/
theorem rounded_percentile_exceeds_max :
    ¬ ∀ (records : List RequestRecord) (nowMs windowMs bucketMs : UInt64) (model : Option String),
      SumsFit records → 0 < bucketMs →
      ∃ bs, memoryBuckets records nowMs windowMs bucketMs model = some bs ∧
        ∀ i b, bs[i]? = some b → 0 < b.count →
          Consistent (counted records nowMs windowMs bucketMs model i) b := by
  intro hall
  have hfits : SumsFit [longRecord] := ⟨by decide, by decide, by decide, by decide⟩
  obtain ⟨bs, hbs, hconsistent⟩ := hall [longRecord] 200 100 10 none hfits (by decide)
  obtain ⟨b, hb⟩ : ∃ b, bs[0]? = some b := by
    have hlen : 0 < bs.length := by
      rw [length_memoryBuckets hbs]
      decide
    exact ⟨_, List.getElem?_eq_getElem hlen⟩
  have hcount : 0 < b.count := by
    have htotal : b.count = _ := ofBucket_memoryBuckets hbs hb .count
    rw [htotal]
    decide
  have hrounded := (consistent_of_counted hfits hbs hb hcount).1
  have h := hconsistent 0 b hb hcount
  have honly : ∀ q, IsLatency (counted [longRecord] 200 100 10 none 0) q →
      q = (longRecord.durationMs.toNat : ℕ) := by
    rintro _ ⟨r, hr, rfl⟩
    obtain rfl : r = longRecord := List.mem_singleton.1 (List.mem_filter.1 hr).1
    rfl
  obtain ⟨q, hq, hvalue⟩ := hrounded.p95_latency
  rw [honly q hq, nearest_longRecord] at hvalue
  have hle := h.p95_le_max
  rw [hvalue, honly _ h.max_latency] at hle
  have hduration : longRecord.durationMs.toNat = 9007199254740995 := rfl
  rw [hduration] at hle
  norm_num at hle

end Mybro
