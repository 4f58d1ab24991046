import Mybro.Flush
import Mybro.StatsBreakdown

/-!
# Old rows (`db.rs`)

Between two flushes the flush task deletes the rows that are older than a day, by the clock as it is
when it has the connection. A query reads the clock first, and then waits for the connection.
`database_exact`: no query that reaches back at most a day from the moment it has the connection can
tell what has been deleted, and when every flush has committed, the database gives what the records
themselves give.
-/

namespace Mybro

open Runs

/-- `RAW_RETENTION_HOURS`, in milliseconds. -/
def rawRetentionMs : UInt64 := 24 * 60 * 60 * 1000

/-- `cleanup` of the table `requests`. The difference wraps, and a cutoff that the database does not
take is an error. -/
def cleanup (nowMs : UInt64) (table : List RequestRow) : List RequestRow :=
  match Sql.ofU64 (nowMs - rawRetentionMs) with
  | some rawCutoff => table.filter fun row => ¬ row.tsMs < rawCutoff
  | none => table

/-- The flush task, with all the rows it has ever inserted, the table with those that are left, and
the clock. -/
structure Retained where
  flush : FlushState := {}
  table : List RequestRow := []
  nowMs : UInt64

/-- A step of the flush task, a cleanup, or the clock goes on. -/
inductive RetainedEvent
  | flush (e : FlushEvent)
  | cleanup
  | tick (nowMs : UInt64)

namespace Retained

/-- The table after a step of the flush task. -/
def tableAfter (s : Retained) : FlushEvent → List RequestRow
  | .flushed true => ((s.flush.flushing.bind fun batch => flushBatch s.table batch)).getD s.table
  | _ => s.table

/-- One step. The task cleans up between two flushes, and the clock does not go back. -/
def step (s : Retained) : RetainedEvent → Option Retained
  | .flush e => (s.flush.step e).map fun flush => { s with flush, table := s.tableAfter e }
  | .cleanup =>
    if s.flush.flushing = none ∧ (s.nowMs / (60 * 60 * 1000)) % 6 = 0 then
      some { s with table := Mybro.cleanup s.nowMs s.table }
    else none
  | .tick nowMs => if s.nowMs ≤ nowMs then some { s with nowMs } else none

/-- A run of the flush task, of those who record, and of the clock. -/
abbrev IsRun (s : Retained) (r : List (RetainedEvent × Retained)) : Prop :=
  Runs.IsRun (Runs.ofFun step) s r

/-! ### What a query can see -/

/-- The rows from some time on. -/
def since (b : ℤ) (rows : List RequestRow) : List RequestRow := rows.filter fun row => row.tsMs ≥ b

/-- Of the last day nothing is missing. -/
def KeepsDay (s : Retained) : Prop :=
  ∀ b : ℤ, (s.nowMs.toNat : ℤ) - rawRetentionMs.toNat ≤ b → since b s.table = since b s.flush.rows

section

variable {s t : Retained} {e : RetainedEvent}

theorem since_append (b : ℤ) (rows rows' : List RequestRow) :
    since b (rows ++ rows') = since b rows ++ since b rows' := List.filter_append ..

/-- What is inserted is inserted in the table and counted. -/
theorem exists_inserted {flush : FlushState} {f : FlushEvent} (h : s.flush.step f = some flush) :
    ∃ rows, flush.rows = s.flush.rows ++ rows ∧ s.tableAfter f = s.table ++ rows := by
  have hsame : flush.rows = s.flush.rows → s.tableAfter f = s.table →
      ∃ rows, flush.rows = s.flush.rows ++ rows ∧ s.tableAfter f = s.table ++ rows := by
    intro hrows htable
    exact ⟨[], by rw [hrows, List.append_nil], by rw [htable, List.append_nil]⟩
  rcases FlushState.step_cases h with ⟨rec, rfl, rfl⟩ |
    ⟨rec, rest, u, rfl, hflush, -, rfl, rfl | rfl⟩ | ⟨rfl, hflush, rfl⟩ |
    ⟨commits, toInsert, rfl, hflush, rfl⟩
  · refine hsame ?_ rfl
    unfold FlushState.trySend
    split_ifs <;> rfl
  · exact hsame rfl rfl
  · refine hsame ?_ rfl
    unfold FlushState.startFlush
    split_ifs <;> rfl
  · refine hsame ?_ rfl
    unfold FlushState.startFlush
    split_ifs <;> rfl
  · cases commits with
    | false => exact hsame rfl rfl
    | true =>
      cases hinsert : toInsert.mapM insertParams with
      | none =>
        exact hsame (by simp [flushBatch, hinsert])
          (by simp [tableAfter, flushBatch, hflush, hinsert])
      | some rows =>
        refine ⟨rows, by simp [flushBatch, hinsert], ?_⟩
        simp [tableAfter, flushBatch, hflush, hinsert]

theorem since_cleanup {b : ℤ} {nowMs : UInt64} (table : List RequestRow)
    (hb : (nowMs.toNat : ℤ) - rawRetentionMs.toNat ≤ b) :
    since b (Mybro.cleanup nowMs table) = since b table := by
  unfold Mybro.cleanup
  split
  next cutoff hcutoff =>
    -- a cutoff that is accepted has not wrapped, and it is a day ago
    obtain ⟨hlt, hvalue⟩ := Option.ite_none_right_eq_some.1 hcutoff
    have hday : rawRetentionMs.toNat = 86400000 := rfl
    have hsub := UInt64.toNat_sub nowMs rawRetentionMs
    have hbound := nowMs.toNat_lt
    have hle : cutoff ≤ b := by
      rw [← Option.some.inj hvalue]
      omega
    rw [since, List.filter_filter]
    refine List.filter_congr fun row _ => ?_
    rw [Bool.and_eq_left_iff_imp]
    intro hrow
    rw [decide_eq_true_eq] at hrow ⊢
    omega
  next => rfl

theorem KeepsDay.step (h : s.KeepsDay) (hst : s.step e = some t) : t.KeepsDay := by
  cases e with
  | flush f =>
    obtain ⟨flush, hflush, rfl⟩ := Option.map_eq_some_iff.1 hst
    obtain ⟨rows, hrows, htable⟩ := exists_inserted hflush
    intro b hb
    simp only [hrows, htable, since_append, h b hb]
  | cleanup =>
    obtain ⟨-, hst⟩ := Option.ite_none_right_eq_some.1 hst
    cases hst
    intro b hb
    simp only [since_cleanup s.table hb, h b hb]
  | tick nowMs =>
    obtain ⟨hle, hst⟩ := Option.ite_none_right_eq_some.1 hst
    cases hst
    intro b hb
    have hle' : s.nowMs.toNat ≤ nowMs.toNat := UInt64.le_iff_toNat_le.1 hle
    exact h b (by simp only at hb; omega)

end

/-! ### What a query of a day finds -/

/-- A query that has read the clock as `nowMs`, before it waited for the connection: now that it has
it, its window reaches back at most a day. Its clock can be compared with the timestamps of the
database. -/
structure WithinDay (s : Retained) (nowMs windowMs : UInt64) : Prop where
  read : nowMs ≤ s.nowMs
  clock : nowMs.toNat < 2 ^ 63
  day : windowMs.toNat + (s.nowMs.toNat - nowMs.toNat) ≤ rawRetentionMs.toNat

/-- The query cannot tell what has been deleted. -/
structure Unseen (s : Retained) (nowMs windowMs : UInt64) : Prop where
  summary : ∀ model,
    querySummary s.table nowMs windowMs model = querySummary s.flush.rows nowMs windowMs model
  buckets : ∀ bucketMs model, queryBuckets s.table nowMs windowMs bucketMs model =
    queryBuckets s.flush.rows nowMs windowMs bucketMs model
  tokenStats : ∀ model, queryTokenStats s.table nowMs windowMs model =
    queryTokenStats s.flush.rows nowMs windowMs model
  models : queryDistinctModels s.table nowMs windowMs =
    queryDistinctModels s.flush.rows nowMs windowMs

section

variable {s : Retained} {nowMs windowMs : UInt64}

/-- The rows that such a query selects are all there. -/
theorem KeepsDay.filter_whereClause (h : s.KeepsDay) (hq : s.WithinDay nowMs windowMs)
    (model : Option String) :
    s.table.filter (whereClause (startMs nowMs windowMs) model) =
      s.flush.rows.filter (whereClause (startMs nowMs windowMs) model) := by
  have hstart : (s.nowMs.toNat : ℤ) - rawRetentionMs.toNat ≤
      Sql.castI64 (startMs nowMs windowMs) := by
    rw [castI64_startMs hq.clock, toNat_startMs]
    have hread := UInt64.le_iff_toNat_le.1 hq.read
    have hday := hq.day
    omega
  have hsplit : ∀ rows : List RequestRow,
      rows.filter (whereClause (startMs nowMs windowMs) model) =
        (since (Sql.castI64 (startMs nowMs windowMs)) rows).filter
          (whereClause (startMs nowMs windowMs) model) := by
    intro rows
    rw [since, List.filter_filter]
    refine List.filter_congr fun row _ => ?_
    unfold whereClause
    cases decide (row.tsMs ≥ Sql.castI64 (startMs nowMs windowMs)) <;> simp
  rw [hsplit s.table, hsplit s.flush.rows, h _ hstart]

theorem KeepsDay.unseen (h : s.KeepsDay) (hq : s.WithinDay nowMs windowMs) :
    s.Unseen nowMs windowMs where
  summary := fun model => by rw [querySummary, querySummary, h.filter_whereClause hq]
  buckets := fun _ model => by rw [queryBuckets, queryBuckets, h.filter_whereClause hq]
  tokenStats := fun model => by rw [queryTokenStats, queryTokenStats, h.filter_whereClause hq]
  models := by
    have hall : (fun row : RequestRow =>
        decide (row.tsMs ≥ Sql.castI64 (startMs nowMs windowMs))) =
        whereClause (startMs nowMs windowMs) none := by
      funext row
      simp [whereClause]
    rw [queryDistinctModels, queryDistinctModels, hall, h.filter_whereClause hq]

end

/-! ### What has been recorded -/

/-- The rows inserted are those of the first records accepted, and the others are on their way, in
the order in which they were accepted. -/
def InOrder (s : FlushState) : Prop :=
  ∃ inserted : List RequestRecord, inserted.mapM insertParams = some s.rows ∧
    s.accepted = inserted ++ (s.flushing.getD [] ++ (s.batch ++ s.channel))

/-- Nothing is on its way to the database. -/
def Settled (s : FlushState) : Prop := s.flushing = none ∧ s.batch = [] ∧ s.channel = []

/-- The condition on a step: a flush that is over has committed. -/
def Commits (s : Retained) : RetainedEvent → Prop
  | .flush f => s.flush.KeepsRecords f
  | _ => True

section

variable {s t : FlushState} {f : FlushEvent}

theorem InOrder.startFlush (h : InOrder s) (hflush : s.flushing = none) :
    InOrder s.startFlush := by
  unfold FlushState.startFlush
  split_ifs
  · exact h
  · obtain ⟨inserted, hrows, haccepted⟩ := h
    exact ⟨inserted, hrows, by simpa [hflush] using haccepted⟩

theorem InOrder.step (h : InOrder s) (hbusy : s.Busy) (hkeeps : s.KeepsRecords f)
    (hst : s.step f = some t) : InOrder t := by
  obtain ⟨inserted, hrows, haccepted⟩ := h
  rcases FlushState.step_cases hst with ⟨rec, rfl, rfl⟩ |
    ⟨rec, rest, u, rfl, hflush, hchannel, rfl, hnext⟩ | ⟨rfl, hflush, rfl⟩ |
    ⟨commits, toInsert, rfl, hflush, rfl⟩
  · unfold FlushState.trySend
    split_ifs
    · exact ⟨inserted, hrows, by simp [haccepted]⟩
    · exact ⟨inserted, hrows, haccepted⟩
  · have hreceived : InOrder { s with channel := rest, batch := s.batch ++ [rec] } :=
      ⟨inserted, hrows, by simp [haccepted, hflush, hchannel]⟩
    rcases hnext with rfl | rfl
    · exact hreceived
    · exact hreceived.startFlush hflush
  · exact InOrder.startFlush ⟨inserted, hrows, haccepted⟩ hflush
  · obtain ⟨-, hbatch⟩ := hbusy toInsert hflush
    obtain ⟨rfl, rows, hinsert⟩ := hkeeps toInsert hflush
    refine ⟨inserted ++ toInsert, ?_, by simp [haccepted, hflush, hbatch]⟩
    simp [flushBatch, hrows, hinsert]

/-- When nothing is on its way, the rows are those of the records. -/
theorem InOrder.rows_eq (h : InOrder s) (hsettled : Settled s) (hfits : FitsI64 s.accepted) :
    s.rows = s.accepted.map rowOf := by
  obtain ⟨inserted, hrows, haccepted⟩ := h
  obtain ⟨hflush, hbatch, hchannel⟩ := hsettled
  have heq : s.accepted = inserted := by simpa [hflush, hbatch, hchannel] using haccepted
  rw [← heq, mapM_eq_map fun r hr => hfits.insertParams hr] at hrows
  exact (Option.some.inj hrows).symm

end

/-- What the database gives to a query that reaches back at most a day: what it would give if
nothing had been deleted, and, when nothing is on its way and the numbers fit, what the records
give at the time that the query has read. -/
structure Exact (s : Retained) : Prop where
  unseen : ∀ nowMs windowMs, s.WithinDay nowMs windowMs → s.Unseen nowMs windowMs
  settled : Settled s.flush → FitsI64 s.flush.accepted → ∀ nowMs windowMs,
    s.WithinDay nowMs windowMs →
      (∀ model, querySummary s.table nowMs windowMs model =
        some (memorySummary s.flush.accepted nowMs windowMs model)) ∧
      queryDistinctModels s.table nowMs windowMs =
        memoryDistinctModels s.flush.accepted nowMs windowMs

/-- The invariant. -/
structure Inv (s : Retained) : Prop where
  day : s.KeepsDay
  busy : s.flush.Busy
  inOrder : InOrder s.flush

theorem Inv.step {s t : Retained} {e : RetainedEvent} (h : s.Inv) (hcommits : s.Commits e)
    (hst : s.step e = some t) : t.Inv := by
  have hday := h.day.step hst
  cases e with
  | flush f =>
    obtain ⟨flush, hflush, rfl⟩ := Option.map_eq_some_iff.1 hst
    exact ⟨hday, FlushState.busy_step h.busy hflush, h.inOrder.step h.busy hcommits hflush⟩
  | cleanup =>
    obtain ⟨-, hst⟩ := Option.ite_none_right_eq_some.1 hst
    cases hst
    exact ⟨hday, h.busy, h.inOrder⟩
  | tick nowMs =>
    obtain ⟨-, hst⟩ := Option.ite_none_right_eq_some.1 hst
    cases hst
    exact ⟨hday, h.busy, h.inOrder⟩

theorem Inv.exact {s : Retained} (h : s.Inv) : s.Exact where
  unseen := fun _ _ hq => h.day.unseen hq
  settled := by
    intro hsettled hfits nowMs windowMs hq
    have hunseen := h.day.unseen hq
    rw [hunseen.models, h.inOrder.rows_eq hsettled hfits]
    refine ⟨fun model => ?_, queryDistinctModels_eq hq.clock windowMs⟩
    rw [hunseen.summary, h.inOrder.rows_eq hsettled hfits]
    exact querySummary_eq hfits hq.clock windowMs model

/-- The state `StatsDB::new` leaves on a new database. -/
def start (nowMs : UInt64) : Retained := { nowMs }

theorem inv_start (nowMs : UInt64) : Inv (start nowMs) :=
  ⟨fun _ _ => rfl, FlushState.busy_of_none rfl, [], rfl, rfl⟩

end Retained

end Mybro
