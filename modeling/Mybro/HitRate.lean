import Mybro.GenerationTime
import Mybro.Metering
import Mybro.StatsBreakdown
import Mybro.UsageEvents

/-!
# Cache hits against the input (`usage_parse.rs`, `stats.rs`, `db.rs`)

A hit rate is at most 1 when the tokens read from the cache are among the input tokens.
`hits_within_input_iff` says for which replies they are, and when the rates that the memory and the
database give for the records of these replies are at most 1.
-/

namespace Mybro

open Value

/-! ### Usage objects -/

/-- The input tokens that a usage object says were read from the cache. -/
def cacheHits : UsageShape × Value → UInt64
  | (.openai, u) => ((u.get "prompt_tokens_details").map fun d => field d "cached_tokens").getD 0
  | (.anthropic, u) => field u "cache_read_input_tokens"

/-- The input tokens of a usage object, which OpenAI counts together and Anthropic apart. -/
def inputTokens : UsageShape × Value → ℕ
  | (.openai, u) => (field u "prompt_tokens").toNat
  | (.anthropic, u) => inputTotal u % 2 ^ 64

/-- OpenAI's cached tokens are among the prompt tokens; Anthropic's do not make the sum wrap. -/
def WithinInput : UsageShape × Value → Prop
  | (.openai, u) => cacheHits (.openai, u) ≤ field u "prompt_tokens"
  | (.anthropic, u) =>
    ((field u "input_tokens").toNat + (field u "cache_creation_input_tokens").toNat) % 2 ^ 64 +
      (field u "cache_read_input_tokens").toNat < 2 ^ 64

theorem cached_normalize (e : UsageShape × Value) : (normalize e).cached = cacheHits e := by
  obtain ⟨_ | _, u⟩ := e <;> rfl

theorem toNat_tokensIn_normalize (e : UsageShape × Value) :
    (normalize e).tokensIn.toNat = inputTokens e := by
  obtain ⟨_ | _, u⟩ := e
  · rfl
  · exact toNat_tokensIn u

/-- A usage object is within its input exactly when its hits are no more than its input tokens. -/
theorem cacheHits_le_iff (e : UsageShape × Value) :
    (cacheHits e).toNat ≤ inputTokens e ↔ WithinInput e := by
  obtain ⟨_ | _, u⟩ := e
  · exact UInt64.le_iff_toNat_le.symm
  · -- the sum wraps below the hits exactly when adding the hits makes it wrap
    simp only [cacheHits, inputTokens, WithinInput, inputTotal, inputFields, List.map_cons,
      List.map_nil, List.sum_cons, List.sum_nil]
    have hread := (field u "cache_read_input_tokens").toNat_lt
    omega

/-- A word is at most the largest of a list exactly when it is 0 or at most one of them. -/
theorem le_foldr_max_iff {ns : List UInt64} {n : UInt64} :
    n ≤ ns.foldr max 0 ↔ n = 0 ∨ ∃ m ∈ ns, n ≤ m := by
  obtain ⟨hbound, hmem⟩ := largest_iff.2 (rfl : ns.foldr max 0 = _)
  constructor
  · intro h
    rcases hmem with hzero | hmem
    · rw [hzero, UInt64.le_zero_iff] at h
      exact Or.inl h
    · exact Or.inr ⟨_, hmem, h⟩
  · rintro (rfl | ⟨m, hm, hle⟩)
    · exact UInt64.zero_le
    · exact UInt64.le_trans hle (hbound m hm)

theorem foldr_max_le_iff {ns : List UInt64} {n : UInt64} :
    ns.foldr max 0 ≤ n ↔ ∀ m ∈ ns, m ≤ n := by
  obtain ⟨hbound, hmem⟩ := largest_iff.2 (rfl : ns.foldr max 0 = _)
  constructor
  · exact fun h m hm => UInt64.le_trans (hbound m hm) h
  · intro h
    rcases hmem with hzero | hmem
    · rw [hzero]
      exact UInt64.zero_le
    · exact h _ hmem

/-! ### Replies -/

/-- What the proxy sees of a reply with a usage: its body, or the chunks of its event stream. -/
inductive ReplyBytes
  | body (bytes : List UInt8)
  | stream (chunks : List (List UInt8))

section

variable (parse : List UInt8 → Except String Value)

namespace ReplyBytes

/-- The usage that the code computes. -/
def usage : ReplyBytes → Usage
  | .body bytes => extractUsage parse bytes
  | .stream chunks => (chunks.foldl (SseUsageAccumulator.ingest parse) {}).finish parse

/-- The usage objects in a reply, in order. -/
def reports : ReplyBytes → List (UsageShape × Value)
  | .body bytes => ((parse bytes).toOption.bind reportedUsage).toList
  | .stream chunks => streamReports parse chunks.flatten

/-- Each usage object is within its input, or its hits are no more than the input tokens of another
one. -/
def WithinInput (reply : ReplyBytes) : Prop :=
  ∀ e ∈ reply.reports parse, Mybro.WithinInput e ∨
    ∃ e' ∈ reply.reports parse, (cacheHits e).toNat ≤ inputTokens e'

variable {parse}

/-- The usage is the field-wise maximum over the usage objects, in normal form. -/
theorem usage_eq (reply : ReplyBytes) :
    reply.usage parse = Usage.fieldMax ((reply.reports parse).map normalize) := by
  cases reply with
  | body bytes =>
    show extractUsage parse bytes =
      Usage.fieldMax (((parse bytes).toOption.bind reportedUsage).toList.map normalize)
    unfold extractUsage
    cases parse bytes with
    | error msg => rfl
    | ok v =>
      show extractUsageFromValue v = Usage.fieldMax ((reportedUsage v).toList.map normalize)
      rw [extractUsageFromValue_eq]
      cases reportedUsage v with
      | none => rfl
      | some e => exact (Usage.merge_default _).symm
  | stream chunks => exact finish_eq_reports parse chunks

/-- **When the hits of a reply are within its input.** -/
theorem cached_le_iff (reply : ReplyBytes) :
    (reply.usage parse).cached ≤ (reply.usage parse).tokensIn ↔ reply.WithinInput parse := by
  rw [usage_eq, WithinInput]
  generalize reply.reports parse = reports
  show (_ : UInt64) ≤ _ ↔ _
  rw [Usage.fieldMax, foldr_max_le_iff, List.map_map, List.forall_mem_map]
  refine forall₂_congr fun e he => ?_
  simp only [le_foldr_max_iff, List.mem_map, exists_exists_and_eq_and, Function.comp_apply,
    cached_normalize]
  simp only [UInt64.le_iff_toNat_le, toNat_tokensIn_normalize]
  constructor
  · rintro (hzero | hother)
    · refine Or.inl ((cacheHits_le_iff e).1 ?_)
      rw [hzero, UInt64.toNat_zero]
      exact Nat.zero_le _
    · exact Or.inr hother
  · rintro (hwithin | hother)
    · exact Or.inr ⟨e, he, (cacheHits_le_iff e).2 hwithin⟩
    · exact Or.inr hother

end ReplyBytes

/-! ### Records -/

/-- A record has the usage of a reply, and none if it has no TTFT. -/
structure Stores (reply : ReplyBytes) (r : RequestRecord) : Prop where
  usage : r.withUsage (reply.usage parse) = r
  unused : r.ttftMs = none → r.withUsage {} = r

end

/-- **Where the records come from**: when the response of a request is over, each record it has
stored has the usage of a reply. -/
theorem stores_of_stored {env : Env} {api : ApiFormat} {req : Request} {w : Watched}
    (h : Watched.Reached env api req w) {e : Ending} (hover : w.task.phase = .finished e) :
    ∀ x ∈ w.stored, ∃ reply, Stores env.fromSlice reply x.1 := by
  intro x hx
  have htask : Task.Reached env api req w.task :=
    Runs.Leads.inv (P := fun w : Watched => Task.Reached env api req w.task)
      (fun _ _ _ hr hst => hr.trans (.one hst.task)) (Runs.Leads.refl _) h
  obtain ⟨relayed, hrelays⟩ := htask.relays
  have hmem : x.1 ∈ w.task.ledger.records := by
    rw [Task.records_ledger, ← h.inv.records]
    exact List.mem_map_of_mem hx
  obtain ⟨result, -, -, husage⟩ := (hrelays.metered hover x.1 hmem).outcome
  have hunused := (h.inv.stored x hx).1.unused
  -- a call without a usage is as good as a stream without chunks
  cases result with
  | error err => exact ⟨.stream [], husage, hunused⟩
  | ok reply =>
    simp only [usageOf] at husage
    split_ifs at husage with hstream hs
    · refine ⟨.stream [relayed], ?_, hunused⟩
      rw [ReplyBytes.usage, SseUsageAccumulator.finish_foldl_ingest, List.flatten_singleton]
      exact husage
    · exact ⟨.body _, husage, hunused⟩
    · exact ⟨.stream [], husage, hunused⟩

section

variable {parse : List UInt8 → Except String Value} {reply : ReplyBytes} {r : RequestRecord}
variable {row : RequestRow}

theorem Stores.cachedTokens_le (h : Stores parse reply r) (hwithin : reply.WithinInput parse) :
    r.cachedTokens ≤ r.tokensIn := by
  rw [← h.usage]
  exact reply.cached_le_iff.2 hwithin

/-- The columns of a row that a rate depends on. -/
theorem insertParams_columns (h : insertParams r = some row) :
    (r.tokensIn.toNat < 2 ^ 63 ∧ row.tokensIn = r.tokensIn.toNat ∧
      row.cachedTokens = Sql.castI64 r.cachedTokens) ∧
      row.ttftMs = r.ttftMs.map Sql.castI64 ∧
        row.cacheCreationTokens = Sql.castI64 r.cacheCreationTokens := by
  unfold insertParams at h
  simp only [Sql.ofU64, Option.bind_eq_bind, Option.bind_eq_some_iff, Option.ite_none_right_eq_some,
    Option.some.injEq] at h
  obtain ⟨ts, -, d, -, i, ⟨hlt, rfl⟩, o, -, rfl⟩ := h
  exact ⟨⟨hlt, rfl, rfl⟩, rfl, rfl⟩

/-- Hits within the input stay so in the database. -/
theorem Stores.cached_of_row (h : Stores parse reply r) (hwithin : reply.WithinInput parse)
    (hrow : insertParams r = some row) : row.cachedTokens ≤ row.tokensIn := by
  obtain ⟨⟨hlt, hin, hcached⟩, -⟩ := insertParams_columns hrow
  have hle := UInt64.le_iff_toNat_le.1 (h.cachedTokens_le hwithin)
  rw [hin, hcached, Sql.castI64_of_lt (hle.trans_lt hlt)]
  exact_mod_cast hle

/-- A row of the database without a TTFT has no tokens. -/
theorem Stores.creation_of_row (h : Stores parse reply r) (hrow : insertParams r = some row)
    (hnone : row.ttftMs = none) : row.cacheCreationTokens = 0 := by
  obtain ⟨-, httft, hcreation⟩ := insertParams_columns hrow
  rw [httft, Option.map_eq_none_iff] at hnone
  rw [hcreation, ← h.unused hnone]
  rfl

end

/-! ### Rates -/

theorem ratio_le_one_iff (a b : UInt64) :
    ratio a b ≤ 1 ↔ b.toNat = 0 ∨ Binary64.nearest a.toNat ≤ Binary64.nearest b.toNat := by
  unfold ratio quotient
  split_ifs with hb
  · have hpos : 0 < b.toNat := UInt64.lt_iff_toNat_lt.1 hb
    rw [Rounding.round_eq, Rounding.round_eq, Rounding.round_eq,
      Binary64.nearest_div_le_one_iff (Nat.cast_nonneg _) (Nat.cast_pos.2 hpos),
      or_iff_right hpos.ne']
  · have hzero : b = 0 := UInt64.le_zero_iff.1 (UInt64.not_lt.1 hb)
    simp [hzero]

theorem ratio_le_one {a b : UInt64} (h : a ≤ b) : ratio a b ≤ 1 := by
  refine (ratio_le_one_iff a b).2 (Or.inr (Binary64.nearest_mono (Nat.cast_nonneg _) ?_))
  exact_mod_cast UInt64.le_iff_toNat_le.1 h

/-- The records that are summed up together: those of a summary, or those of a bucket. -/
inductive Selected (records : List RequestRecord) : List RequestRecord → Prop
  | summary (nowMs windowMs : UInt64) (model : Option String) :
    Selected records (relevant records nowMs windowMs model)
  | bucket (nowMs windowMs bucketMs : UInt64) (model : Option String) {i : ℕ} (size : bucketMs ≠ 0)
    (slot : i < numBuckets windowMs bucketMs) :
    Selected records (counted records nowMs windowMs bucketMs model i)

theorem Selected.sublist {records rs : List RequestRecord} (h : Selected records rs) :
    rs.Sublist records := by
  cases h with
  | summary => exact List.filter_sublist.trans List.filter_sublist
  | bucket => exact List.filter_sublist

/-- The sums as words: there is no input, or the hits are no more than the input, each as the double
nearest to it. -/
def WordsWithin (rs : List RequestRecord) : Prop :=
  (rs.map fun r => r.tokensIn.toNat).sum % 2 ^ 64 = 0 ∨
    Binary64.nearest ((rs.map fun r => r.cachedTokens.toNat).sum % 2 ^ 64 : ℕ) ≤
      Binary64.nearest ((rs.map fun r => r.tokensIn.toNat).sum % 2 ^ 64 : ℕ)

section

variable {records rs : List RequestRecord} {nowMs windowMs bucketMs : UInt64}
variable {model : Option String}

theorem rate_le_one_iff :
    ratio (rs.map fun r => r.cachedTokens).sum (rs.map fun r => r.tokensIn).sum ≤ 1 ↔
      WordsWithin rs := by
  rw [ratio_le_one_iff, Sql.sum_ofNat, Sql.sum_ofNat, UInt64.toNat_ofNat', UInt64.toNat_ofNat']
  rfl

/-- A sum that does not wrap is within the input when its records are. -/
theorem wordsWithin_of_lt (h : ∀ r ∈ rs, r.cachedTokens ≤ r.tokensIn)
    (hsum : (rs.map fun r => r.tokensIn.toNat).sum < 2 ^ 64) : WordsWithin rs := by
  have hle : (rs.map fun r => r.cachedTokens.toNat).sum ≤ (rs.map fun r => r.tokensIn.toNat).sum :=
    List.sum_le_sum fun r hr => UInt64.le_iff_toNat_le.1 (h r hr)
  refine Or.inr (Binary64.nearest_mono (Nat.cast_nonneg _) ?_)
  rw [Nat.mod_eq_of_lt hsum, Nat.mod_eq_of_lt (hle.trans_lt hsum)]
  exact_mod_cast hle

/-- The rate of a bucket with records in it, and of one that is empty. -/
theorem cacheHitRate_finish {a : BucketAcc} (h : a.bucket.cacheHitRate = 0) :
    a.finish.cacheHitRate =
      if a.finish.count = 0 then 0 else ratio a.finish.cachedTokens a.finish.tokensIn := by
  by_cases hcount : a.bucket.count = 0
  · simp [BucketAcc.finish, hcount, h]
  · simp [BucketAcc.finish, hcount]

theorem cacheHitRate_foldl (a : BucketAcc) (rs : List RequestRecord) :
    (rs.foldl BucketAcc.add a).bucket.cacheHitRate = a.bucket.cacheHitRate := by
  induction rs generalizing a with
  | nil => rfl
  | cons r rs ih => exact ih (a.add r)

/-- The rate of a bucket, which is that of an empty list where it counts nothing. -/
theorem cacheHitRate_memoryBuckets {bs : List StatsBucket} (hlen : records.length < 2 ^ 64)
    (h : memoryBuckets records nowMs windowMs bucketMs model = some bs) {i : ℕ} {b : StatsBucket}
    (hb : bs[i]? = some b) :
    b.cacheHitRate =
      ratio ((counted records nowMs windowMs bucketMs model i).map fun r => r.cachedTokens).sum
        ((counted records nowMs windowMs bucketMs model i).map fun r => r.tokensIn).sum := by
  have hcount : b.count = lenU64 (counted records nowMs windowMs bucketMs model i) :=
    (ofBucket_memoryBuckets h hb .count).trans (sum_share_count _)
  have hhits : b.cachedTokens =
      ((counted records nowMs windowMs bucketMs model i).map fun r => r.cachedTokens).sum :=
    ofBucket_memoryBuckets h hb .cachedTokens
  have hin : b.tokensIn =
      ((counted records nowMs windowMs bucketMs model i).map fun r => r.tokensIn).sum :=
    ofBucket_memoryBuckets h hb .tokensIn
  have hrate : b.cacheHitRate = if b.count = 0 then 0 else ratio b.cachedTokens b.tokensIn := by
    have hi := lt_numBuckets h hb
    rw [getElem?_memoryBuckets h, if_pos hi] at hb
    rw [← Option.some.inj hb]
    exact cacheHitRate_finish (cacheHitRate_foldl _ _)
  rw [hrate, ← hhits, ← hin]
  split_ifs with hzero
  · have hnil : counted records nowMs windowMs bucketMs model i = [] := by
      by_contra hne
      refine lenU64_ne_zero hne ?_ (hcount.symm.trans hzero)
      exact (List.length_filter_le _ _).trans_lt hlen
    rw [hin, hnil]
    rfl
  · rfl

end

/-! ### The database -/

section

variable {parse : List UInt8 → Except String Value} {table : List RequestRow}
variable {nowMs windowMs bucketMs : UInt64} {model : Option String}

/-- The rate of a summary is at most 1 when each row is within its input: a sum that is too large
is an error there, and does not wrap. -/
theorem querySummary_rate_le (h : ∀ row ∈ table, row.cachedTokens ≤ row.tokensIn)
    {summary : StatsSummary} (hquery : querySummary table nowMs windowMs model = some summary) :
    summary.cacheHitRate ≤ 1 := by
  unfold querySummary at hquery
  simp only [Option.bind_eq_bind, Option.bind_eq_some_iff, Option.some.injEq] at hquery
  obtain ⟨_, -, _, -, _, -, _, -, tokensIn, hin, _, -, cachedTokens, hread, _, -, _, -, _, -, _, -,
    rfl⟩ := hquery
  refine ratio_le_one (UInt64.le_iff_toNat_le.2 ?_)
  unfold sumOf at hin hread
  have hhits := Sql.toNat_of_readU64_sum hread
  have hinput := Sql.toNat_of_readU64_sum hin
  rw [Sql.reduceOption_map_some] at hhits hinput
  have hle : ((table.filter (whereClause (startMs nowMs windowMs) model)).map
      fun row => row.cachedTokens).sum ≤ ((table.filter (whereClause (startMs nowMs windowMs)
        model)).map fun row => row.tokensIn).sum :=
    List.sum_le_sum fun row hrow => h row (List.mem_filter.1 hrow).1
  omega

/-- The rate of a bucket is 0: the database shows only rows without a TTFT, and the tokens that it
takes for hits are those written to the cache. -/
theorem queryBuckets_rate_le
    (h : ∀ row ∈ table, row.ttftMs = none → row.cacheCreationTokens = 0) {bs : List StatsBucket}
    (hquery : queryBuckets table nowMs windowMs bucketMs model = some bs) {b : StatsBucket}
    (hb : b ∈ bs) : b.cacheHitRate ≤ 1 := by
  obtain ⟨g, hg, hread⟩ := exists_of_forall₂ (forall₂_of_mapM hquery).flip hb
  obtain ⟨cells, hcells, hbucket⟩ := Option.bind_eq_some_iff.1 hread
  obtain ⟨-, -, -, hcached, hrate⟩ := readBucket_eq_some hbucket
  obtain ⟨-, -, creation, hcreation, hcell⟩ := bucketRow_eq_some hcells
  rw [hcell, Option.bind_some] at hcached
  have hnone : ∀ row ∈ g.2, row.cacheCreationTokens = 0 := by
    intro row hrow
    rw [(Sql.mem_groupBy.1 hg).2] at hrow
    have hselected := (List.mem_filter.1 hrow).1
    refine h row (List.mem_filter.1 hselected).1 ?_
    cases httft : row.ttftMs with
    | none => rfl
    | some ttft =>
      rw [queryBuckets_of_ttft hselected httft] at hquery
      cases hquery
  have hsum : (Sql.sum (g.2.map fun row => some row.cacheCreationTokens)).bind Sql.readU64 =
      some b.cachedTokens := by
    show (sumColumn g.2 _).bind _ = _
    rw [hcreation, Option.bind_some]
    cases creation with
    | none => exact hcached
    | some z => exact hcached
  have hzero := Sql.toNat_of_readU64_sum hsum
  rw [Sql.reduceOption_map_some, List.map_congr_left hnone] at hzero
  rw [hrate]
  refine ratio_le_one (UInt64.le_iff_toNat_le.2 ?_)
  simp only [List.map_const', List.sum_replicate, smul_zero] at hzero
  omega

end

/-! ### What is asked for -/

section

variable (parse : List UInt8 → Except String Value)

/-- Every row of the table is that of some record. -/
def Inserted (records : List RequestRecord) (table : List RequestRow) : Prop :=
  ∀ row ∈ table, ∃ r ∈ records, insertParams r = some row

/-- The hits are within the input: those of each reply, and all rates that are computed from the
records in memory or from rows in the database are at most 1. -/
structure HitsWithinInput (replies : List ReplyBytes) (records : List RequestRecord) : Prop where
  usage : ∀ reply ∈ replies, (reply.usage parse).cached ≤ (reply.usage parse).tokensIn
  summary : ∀ nowMs windowMs model,
    (memorySummary records nowMs windowMs model).cacheHitRate ≤ 1
  buckets : ∀ nowMs windowMs bucketMs model bs,
    memoryBuckets records nowMs windowMs bucketMs model = some bs → ∀ b ∈ bs, b.cacheHitRate ≤ 1
  querySummary : ∀ table, Inserted records table → ∀ nowMs windowMs model summary,
    querySummary table nowMs windowMs model = some summary → summary.cacheHitRate ≤ 1
  queryBuckets : ∀ table, Inserted records table → ∀ nowMs windowMs bucketMs model bs,
    queryBuckets table nowMs windowMs bucketMs model = some bs → ∀ b ∈ bs, b.cacheHitRate ≤ 1

end

/-- **When the hits are within the input**: exactly when the usage objects of each reply are, and
wherever the input tokens of a summary or a bucket in memory add up to more than a word, the sums
are within each other as words. -/
theorem hits_within_input_iff {parse : List UInt8 → Except String Value}
    {replies : List ReplyBytes} {records : List RequestRecord}
    (h : List.Forall₂ (Stores parse) replies records) (hlen : records.length < 2 ^ 64) :
    HitsWithinInput parse replies records ↔
      (∀ reply ∈ replies, reply.WithinInput parse) ∧
        ∀ rs, Selected records rs → 2 ^ 64 ≤ (rs.map fun r => r.tokensIn.toNat).sum →
          WordsWithin rs := by
  constructor
  · intro hits
    refine ⟨fun reply hreply => reply.cached_le_iff.1 (hits.usage reply hreply), ?_⟩
    intro rs hrs _
    cases hrs with
    | summary nowMs windowMs model => exact rate_le_one_iff.1 (hits.summary nowMs windowMs model)
    | @bucket nowMs windowMs bucketMs model i size slot =>
      have hbuckets : memoryBuckets records nowMs windowMs bucketMs model = some _ := if_neg size
      have hb := getElem?_memoryBuckets hbuckets i
      rw [if_pos slot] at hb
      have hrate := hits.buckets _ _ _ _ _ hbuckets _ (List.mem_of_getElem? hb)
      rw [cacheHitRate_memoryBuckets hlen hbuckets hb] at hrate
      exact rate_le_one_iff.1 hrate
  · rintro ⟨hreplies, hsums⟩
    have hrecords : ∀ r ∈ records, ∃ reply ∈ replies, Stores parse reply r := by
      intro r hr
      obtain ⟨reply, hreply, hstores⟩ := exists_of_forall₂ h.flip hr
      exact ⟨reply, hreply, hstores⟩
    -- whatever is summed up in memory, its sum wraps or it does not
    have hwords : ∀ rs, Selected records rs → WordsWithin rs := by
      intro rs hrs
      rcases Nat.lt_or_ge (rs.map fun r => r.tokensIn.toNat).sum (2 ^ 64) with hlt | hge
      · refine wordsWithin_of_lt (fun r hr => ?_) hlt
        obtain ⟨reply, hreply, hstores⟩ := hrecords r (hrs.sublist.subset hr)
        exact hstores.cachedTokens_le (hreplies reply hreply)
      · exact hsums rs hrs hge
    constructor
    · exact fun reply hreply => reply.cached_le_iff.2 (hreplies reply hreply)
    · exact fun nowMs windowMs model => rate_le_one_iff.2 (hwords _ (.summary nowMs windowMs model))
    · intro nowMs windowMs bucketMs model bs hbs b hb
      obtain ⟨i, hi⟩ := List.mem_iff_getElem?.1 hb
      have hsize : bucketMs ≠ 0 := by
        rintro rfl
        cases hbs
      rw [cacheHitRate_memoryBuckets hlen hbs hi]
      exact rate_le_one_iff.2 (hwords _ (.bucket _ _ _ _ hsize (lt_numBuckets hbs hi)))
    · intro table htable nowMs windowMs model summary
      refine querySummary_rate_le fun row hrow => ?_
      obtain ⟨r, hr, hinsert⟩ := htable row hrow
      obtain ⟨reply, hreply, hstores⟩ := hrecords r hr
      exact hstores.cached_of_row (hreplies reply hreply) hinsert
    · intro table htable nowMs windowMs bucketMs model bs hbs b hb
      refine queryBuckets_rate_le (fun row hrow hnone => ?_) hbs hb
      obtain ⟨r, hr, hinsert⟩ := htable row hrow
      obtain ⟨reply, -, hstores⟩ := hrecords r hr
      exact hstores.creation_of_row hinsert hnone

/-- A parser that knows one text only. -/
def parseOnly (text : String) (v : Value) (bytes : List UInt8) : Except String Value :=
  if bytes = Utf8.encode text then .ok v else .error "expected value"

theorem parseOnly_encode (text : String) (v : Value) :
    parseOnly text v (Utf8.encode text) = .ok v := if_pos rfl

/-- A reply in OpenAI's form with ten prompt tokens, four of them from the cache. -/
def wholeText : String :=
  "\x7b\"usage\":\x7b\"prompt_tokens\":10," ++
    "\"prompt_tokens_details\":\x7b\"cached_tokens\":4\x7d\x7d\x7d"

def wholeValue : Value :=
  .object [("usage", .object [("prompt_tokens", .number (.posInt 10)),
    ("prompt_tokens_details", .object [("cached_tokens", .number (.posInt 4))])])]

/-- An environment whose parser also knows this text. -/
def wholeEnv : Env :=
  { Task.sampleEnv with fromSlice := fun bytes =>
      if bytes = Utf8.encode wholeText then .ok wholeValue else Task.sampleEnv.fromSlice bytes }

/-- A request that gets this reply stores four hits among ten input tokens; no rate is above 1. -/
theorem hits_within_whole :
    ∃ w x reply, Watched.Reached wholeEnv .openAI Task.emptyRequest w ∧ w.stored = [x] ∧
      x.1.cachedTokens = 4 ∧ x.1.tokensIn = 10 ∧
      HitsWithinInput wholeEnv.fromSlice [reply] [x.1] := by
  have hplayed := @Watched.leads_run wholeEnv
    { task := Task.start wholeEnv .openAI Task.emptyRequest } _ _ _ rfl
    (Prog.run_play (Task.bodyAnswers ⟨200, []⟩ (some (Utf8.encode wholeText)))
      (handler wholeEnv .openAI Task.emptyRequest)) (by decide)
  have hreached := hplayed.trans (.one (Watched.step_of_task (.respond rfl rfl) (by decide)))
  obtain ⟨w, x, hreached, hstored, hover, hhits, hinput⟩ : ∃ w x,
      Watched.Reached wholeEnv .openAI Task.emptyRequest w ∧ w.stored = [x] ∧
        w.task.phase = .finished .complete ∧ x.1.cachedTokens = 4 ∧ x.1.tokensIn = 10 :=
    ⟨_, _, hreached, rfl, rfl, rfl, rfl⟩
  obtain ⟨reply, hstores⟩ := stores_of_stored hreached hover x (hstored ▸ List.mem_cons_self)
  refine ⟨w, x, reply, hreached, hstored, hhits, hinput,
    (hits_within_input_iff (.cons hstores .nil) (by simp)).2 ⟨?_, fun rs hrs hwraps => ?_⟩⟩
  · intro reply' hreply
    obtain rfl := List.mem_singleton.1 hreply
    refine reply'.cached_le_iff.1 ?_
    have hcached : (reply'.usage wholeEnv.fromSlice).cached = x.1.cachedTokens :=
      congrArg RequestRecord.cachedTokens hstores.usage
    have htokens : (reply'.usage wholeEnv.fromSlice).tokensIn = x.1.tokensIn :=
      congrArg RequestRecord.tokensIn hstores.usage
    rw [hcached, htokens, hhits, hinput]
    decide
  · have hsum := (hrs.sublist.map fun r => r.tokensIn.toNat).sum_le_sum fun _ _ => Nat.zero_le _
    have hwhole : ([x.1].map fun r => r.tokensIn.toNat).sum = 10 := by
      rw [List.map_singleton, List.sum_singleton, hinput]
      rfl
    omega

/-- A reply in OpenAI's form that leaves out the prompt tokens. -/
def partialText : String :=
  "\x7b\"usage\":\x7b\"completion_tokens\":1," ++
    "\"prompt_tokens_details\":\x7b\"cached_tokens\":5\x7d\x7d\x7d"

def partialValue : Value :=
  .object [("usage", .object [("completion_tokens", .number (.posInt 1)),
    ("prompt_tokens_details", .object [("cached_tokens", .number (.posInt 5))])])]

/-- Five hits among no input tokens. -/
theorem partial_not_within :
    ¬ (extractUsage (parseOnly partialText partialValue) (Utf8.encode partialText)).cached ≤
      (extractUsage (parseOnly partialText partialValue) (Utf8.encode partialText)).tokensIn := by
  rw [extractUsage, parseOnly_encode]
  decide

end Mybro
