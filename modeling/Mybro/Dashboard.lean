import Mybro.Metering
import Mybro.RecentRecords
import Mybro.Retention
import Mybro.StatsQueries

/-!
# From the requests to the dashboard (`routes/`, `stats.rs`, `db.rs`)

Any number of requests record in one collector, in any order of their steps, while the flush task,
its cleanups and the clock go on beside them. To record is two steps, into the channel and into the
ring buffer, and the steps of two requests can come in different orders. `counted_once` says what
the dashboard shows of them: one record for each request that has stored one.
-/

namespace Mybro

open Ring Runs

/-- The requests by number, the record of each that is on its way from the channel to the ring
buffer, the ring buffer, and the database with its flush task. -/
structure Dashboard where
  tasks : ℕ → Task
  recording : ℕ → Option RequestRecord
  memory : List RequestRecord
  db : Retained

/-- A request takes a step, puts its record into the ring buffer, or something happens to the
database. -/
inductive DashboardEvent
  | request (i : ℕ) (e : TaskEvent)
  | store (i : ℕ)
  | background (e : RetainedEvent)

namespace Dashboard

/-- The collector. -/
def stats (s : Dashboard) : StatsCollector :=
  ⟨s.memory, StatsCollector.defaultMaxRecords, some s.db.flush⟩

/-- The request `i` has become `t`; if it records, its record is sent to the database. -/
def move (s : Dashboard) (i : ℕ) (t : Task) : Option RequestRecord → Dashboard
  | none => { s with tasks := Function.update s.tasks i t }
  | some rec => { s with
      tasks := Function.update s.tasks i t
      recording := Function.update s.recording i (some rec)
      db := { s.db with flush := (s.stats.send rec).dbSender.getD s.db.flush } }

/-- The request `i` puts its record into the ring buffer. -/
def store (s : Dashboard) (i : ℕ) (rec : RequestRecord) : Dashboard :=
  { s with
    recording := Function.update s.recording i none
    memory := (s.stats.store rec).records }

/-- Requests that have just arrived, and a collector with a new database. -/
def start (env : Env) (nowMs : UInt64) (api : ℕ → ApiFormat) (req : ℕ → Request) : Dashboard where
  tasks i := Task.start env (api i) (req i)
  recording _ := none
  memory := (StatsCollector.withDb {}).records
  db := Retained.start nowMs

/-- The steps. A request does nothing else between the two steps of `record`. -/
inductive Step (env : Env) : Dashboard → DashboardEvent → Dashboard → Prop
  | request {s : Dashboard} {i : ℕ} {e : TaskEvent} {t : Task} (idle : s.recording i = none)
      (task : Task.Step env (s.tasks i) e t) :
      Step env s (.request i e) (s.move i t ((s.tasks i).recorded env e))
  | store {s : Dashboard} {i : ℕ} {rec : RequestRecord} (sent : s.recording i = some rec) :
      Step env s (.store i) (s.store i rec)
  | background {s : Dashboard} {e : RetainedEvent} {db : Retained} (step : s.db.step e = some db)
      (own : ∀ rec, e ≠ .flush (.record rec)) : Step env s (.background e) { s with db := db }

/-- A run of the requests and of the database. -/
abbrev IsRun (env : Env) (s : Dashboard) (r : List (DashboardEvent × Dashboard)) : Prop :=
  Runs.IsRun (Step env) s r

/-- The condition on a step: a flush that is over has committed. -/
def Commits (s : Dashboard) : DashboardEvent → Prop
  | .background e => s.db.Commits e
  | _ => True

/-- The condition on a step: a record that is sent finds room in the channel. -/
def HasRoom (env : Env) (s : Dashboard) : DashboardEvent → Prop
  | .request i e => (s.tasks i).recorded env e ≠ none → s.db.flush.channel.length < channelSize
  | _ => True

/-- The records of some requests, in their order. -/
def records (s : Dashboard) (order : List ℕ) : List RequestRecord :=
  order.flatMap fun i => (s.tasks i).account.records

/-- What a query of the collector finds at the moment it has the ring buffer or the connection; for
the database it has read the clock before. -/
structure ShownBy (s : Dashboard) (v : StatsView) : Prop where
  memory : v.records = s.memory
  nowMs : v.nowMs = s.db.nowMs
  table : ∃ t, v.db = some (.table t) ∧ t.rows = s.db.table
  dbNowMs : v.dbNowMs ≤ s.db.nowMs

/-- **The requests are counted once**: `sent` are the requests that have recorded, in the order in
which their records came to the channel, and `stored` those of them whose records have come to the
ring buffer, in the order of the buffer. -/
structure Counts (s : Dashboard) (sent stored : List ℕ) : Prop where
  nodup : sent.Nodup
  mem : ∀ i, i ∈ sent ↔ (s.tasks i).account.records ≠ []
  once : ∀ i ∈ sent, ∃ r, (s.tasks i).account.records = [r]
  nodupStored : stored.Nodup
  memStored : ∀ i, i ∈ stored ↔ i ∈ sent ∧ s.recording i = none
  /-- Between two calls of `record` both are orders of the same requests. -/
  perm : (∀ i, s.recording i = none) → stored.Perm sent
  memory : s.memory = (s.records stored).rtake StatsCollector.defaultMaxRecords
  accepted : s.db.flush.accepted.Sublist (s.records sent)
  /-- The summary of a short window is that of the records in the ring buffer. -/
  short : ∀ v, s.ShownBy v → FitsI64 s.memory → ∀ windowMs, ¬ windowMs > 5 * 60 * 1000 →
    ∀ model, v.summary windowMs model = some (memorySummary s.memory v.nowMs windowMs model)
  /-- That of a longer one is that of the records the database has taken, once nothing is on its
  way. -/
  long : ∀ v, s.ShownBy v → Retained.Settled s.db.flush → FitsI64 s.db.flush.accepted →
    ∀ windowMs, windowMs > 5 * 60 * 1000 → s.db.WithinDay v.dbNowMs windowMs → ∀ model,
      v.summary windowMs model =
        some (memorySummary s.db.flush.accepted v.dbNowMs windowMs model)
  recent : ∀ v, s.ShownBy v → ∀ limit model,
    ∃ pos, IsNewest (hasModel model) limit s.memory (v.recent limit model) pos

end Dashboard

/-! ### What a request records -/

namespace Task

variable {env : Env} {api : ApiFormat} {req : Request} {t t' : Task} {ev : TaskEvent}

/-- A request stores a record only when it has none. -/
theorem records_eq_nil (h : Reached env api req t) (hst : Step env t ev t') {rec : RequestRecord}
    (hrec : t.recorded env ev = some rec) : t.account.records = [] := by
  obtain ⟨relayed, hrelays⟩ := h.relays
  have hbooked := hrelays.booked
  unfold Booked at hbooked
  rw [← records_ledger]
  cases hst with
  | @answer e k r running =>
    simp only [running] at hbooked
    cases e with
    | record rec => exact hbooked.2.1
    | _ => cases hrec
  | @endOfStream p now streaming =>
    simp only [streaming] at hbooked
    exact hbooked.records
  | _ => cases hrec

end Task

/-! ### The invariant -/

theorem FitsI64.columnsFit {records : List RequestRecord} (h : FitsI64 records) :
    ColumnsFit records where
  tokensIn := h.tokensIn.trans (by decide)
  tokensOut := h.tokensOut.trans (by decide)
  cachedTokens := h.cachedTokens.trans (by decide)
  cacheCreationTokens := h.cacheCreationTokens.trans (by decide)
  durationMs := h.durationMs.trans (by decide)
  ttftMs := by
    have hsum : ∀ rs : List RequestRecord, ((rs.filterMap fun r => r.ttftMs).map UInt64.toNat).sum =
        (rs.map fun r => (r.ttftMs.getD 0).toNat).sum := by
      intro rs
      induction rs with
      | nil => rfl
      | cons r rs ih =>
        cases ht : r.ttftMs with
        | none => simpa [ht] using ih
        | some t => simpa [ht] using ih
    rw [hsum]
    exact h.ttftMs.trans (by decide)

namespace Dashboard

variable {env : Env} {api : ℕ → ApiFormat} {req : ℕ → Request} {room : Prop}
variable {s s' : Dashboard} {l : DashboardEvent} {sent stored : List ℕ}

/-- The requests that have recorded, in the order of the channel and in that of the ring buffer, and
what these have taken of it; the channel has taken all if `room`. -/
structure Inv (env : Env) (api : ℕ → ApiFormat) (req : ℕ → Request) (room : Prop) (s : Dashboard)
    (sent stored : List ℕ) : Prop where
  reached : ∀ i, Task.Reached env (api i) (req i) (s.tasks i)
  nodup : sent.Nodup
  mem : ∀ i, i ∈ sent ↔ (s.tasks i).account.records ≠ []
  once : ∀ i ∈ sent, ∃ r, (s.tasks i).account.records = [r]
  recording : ∀ i rec, s.recording i = some rec → (s.tasks i).account.records = [rec]
  nodupStored : stored.Nodup
  memStored : ∀ i, i ∈ stored ↔ i ∈ sent ∧ s.recording i = none
  memory : s.memory = (s.records stored).rtake StatsCollector.defaultMaxRecords
  accepted : s.db.flush.accepted.Sublist (s.records sent)
  complete : room → s.db.flush.accepted = s.records sent
  db : s.db.Inv

/-- A step by which no record comes anywhere. -/
theorem Inv.of_records_eq (h : Inv env api req room s sent stored)
    (hreached : ∀ i, Task.Reached env (api i) (req i) (s'.tasks i))
    (hrecords : ∀ i, (s'.tasks i).account.records = (s.tasks i).account.records)
    (hrecording : s'.recording = s.recording) (hmemory : s'.memory = s.memory)
    (haccepted : s'.db.flush.accepted = s.db.flush.accepted) (hdb : s'.db.Inv) :
    Inv env api req room s' sent stored := by
  have hsame : ∀ order, s'.records order = s.records order := fun order =>
    List.flatMap_congr fun i _ => hrecords i
  refine ⟨hreached, h.nodup, fun i => ?_, fun i hi => ?_, fun i rec hi => ?_, h.nodupStored,
    fun i => ?_, ?_, ?_, fun hroom => ?_, hdb⟩
  · rw [hrecords]
    exact h.mem i
  · rw [hrecords]
    exact h.once i hi
  · rw [hrecords]
    exact h.recording i rec (hrecording ▸ hi)
  · rw [hrecording]
    exact h.memStored i
  · rw [hmemory, hsame]
    exact h.memory
  · rw [haccepted, hsame]
    exact h.accepted
  · rw [haccepted, hsame]
    exact h.complete hroom

theorem accepted_trySend (f : FlushState) (rec : RequestRecord) :
    (f.trySend rec).accepted = f.accepted ∨ (f.trySend rec).accepted = f.accepted ++ [rec] := by
  unfold FlushState.trySend
  split_ifs
  · exact Or.inr rfl
  · exact Or.inl rfl

theorem tasks_move (s : Dashboard) (i : ℕ) (t : Task) (rec : Option RequestRecord) :
    (s.move i t rec).tasks = Function.update s.tasks i t := by
  cases rec <;> rfl

theorem recording_move (s : Dashboard) (i : ℕ) (t : Task) (rec : RequestRecord) :
    (s.move i t (some rec)).recording = Function.update s.recording i (some rec) := rfl

theorem recording_store (s : Dashboard) (i : ℕ) (rec : RequestRecord) :
    (s.store i rec).recording = Function.update s.recording i none := rfl

/-- The other requests have the records they had. -/
theorem records_move_of_notMem {i : ℕ} {order : List ℕ} (hi : i ∉ order) (t : Task)
    (rec : Option RequestRecord) : (s.move i t rec).records order = s.records order := by
  refine List.flatMap_congr fun j hj => ?_
  have hne : j ≠ i := fun hji => hi (hji ▸ hj)
  rw [tasks_move, Function.update_of_ne hne]

/-- A request sends its record; until it is stored, the ring buffer does not have it. -/
theorem Inv.send (h : Inv env api req room s sent stored) {i : ℕ} {t : Task} {rec : RequestRecord}
    (hreached : Task.Reached env (api i) (req i) t) (hnil : (s.tasks i).account.records = [])
    (hrecords : t.account.records = [rec])
    (hroom : room → s.db.flush.channel.length < channelSize) :
    Inv env api req room (s.move i t (some rec)) (sent ++ [i]) stored := by
  have hself : (s.move i t (some rec)).tasks i = t := by
    rw [tasks_move, Function.update_self]
  have hother : ∀ j, j ≠ i → (s.move i t (some rec)).tasks j = s.tasks j := fun j hj => by
    rw [tasks_move, Function.update_of_ne hj]
  have hnot : i ∉ sent := fun hi => (h.mem i).1 hi hnil
  have hnot' : i ∉ stored := fun hi => hnot ((h.memStored i).1 hi).1
  have hall : (s.move i t (some rec)).records (sent ++ [i]) = s.records sent ++ [rec] := by
    rw [records, List.flatMap_append, List.flatMap_singleton, hself, hrecords]
    exact congrArg (· ++ [rec]) (records_move_of_notMem hnot t (some rec))
  have hsent : (s.move i t (some rec)).db.flush = s.db.flush.trySend rec := rfl
  exact
    { reached := fun j => by
        by_cases hj : j = i
        · subst hj
          rwa [hself]
        · rw [hother j hj]
          exact h.reached j
      nodup := by
        rw [← List.concat_eq_append]
        exact h.nodup.concat hnot
      mem := fun j => by
        by_cases hj : j = i
        · subst hj
          simp [hself, hrecords]
        · rw [hother j hj, ← h.mem j]
          simp [hj]
      once := fun j hj => by
        by_cases hji : j = i
        · subst hji
          exact ⟨rec, by rw [hself, hrecords]⟩
        · rw [hother j hji]
          exact h.once j (by simpa [hji] using hj)
      recording := fun j rec' hj => by
        by_cases hji : j = i
        · subst hji
          rw [recording_move, Function.update_self] at hj
          rw [hself, hrecords, Option.some.inj hj]
        · rw [recording_move, Function.update_of_ne hji] at hj
          rw [hother j hji]
          exact h.recording j rec' hj
      nodupStored := h.nodupStored
      memStored := fun j => by
        by_cases hji : j = i
        · subst hji
          simp [recording_move, hnot']
        · rw [h.memStored, recording_move, Function.update_of_ne hji]
          simp [hji]
      memory := by
        rw [records_move_of_notMem hnot']
        exact h.memory
      accepted := by
        rw [hall, hsent]
        rcases accepted_trySend s.db.flush rec with heq | heq
        · rw [heq]
          exact h.accepted.trans (List.sublist_append_left _ _)
        · rw [heq]
          exact h.accepted.append (List.Sublist.refl _)
      complete := fun hr => by
        rw [hall, hsent, ← h.complete hr, FlushState.trySend, if_pos (hroom hr)]
      db := h.db.step (e := .flush (.record rec)) trivial rfl }

/-- A record comes to the ring buffer. -/
theorem Inv.store (h : Inv env api req room s sent stored) {i : ℕ} {rec : RequestRecord}
    (hrec : s.recording i = some rec) :
    Inv env api req room (s.store i rec) sent (stored ++ [i]) := by
  have hrecords := h.recording i rec hrec
  have hsent : i ∈ sent := (h.mem i).2 (by rw [hrecords]; exact List.cons_ne_nil _ _)
  have hnot : i ∉ stored := by
    intro hi
    rw [((h.memStored i).1 hi).2] at hrec
    cases hrec
  have hall : (s.store i rec).records (stored ++ [i]) = s.records stored ++ [rec] := by
    rw [records, List.flatMap_append, List.flatMap_singleton]
    exact congrArg (s.records stored ++ ·) hrecords
  exact
    { reached := h.reached
      nodup := h.nodup
      mem := h.mem
      once := h.once
      recording := fun j rec' hj => by
        by_cases hji : j = i
        · subst hji
          rw [recording_store, Function.update_self] at hj
          cases hj
        · rw [recording_store, Function.update_of_ne hji] at hj
          exact h.recording j rec' hj
      nodupStored := by
        rw [← List.concat_eq_append]
        exact h.nodupStored.concat hnot
      memStored := fun j => by
        by_cases hji : j = i
        · subst hji
          simp [recording_store, hsent]
        · simp [recording_store, hji, h.memStored]
      memory := by
        show push _ s.memory rec = _
        rw [hall, h.memory]
        exact push_rtake StatsCollector.defaultMaxRecords _ rec
      accepted := h.accepted
      complete := h.complete
      db := h.db }

/-- The database takes no record by its own steps. -/
theorem accepted_of_background {d d' : Retained} {e : RetainedEvent} (hst : d.step e = some d')
    (own : ∀ rec, e ≠ .flush (.record rec)) : d'.flush.accepted = d.flush.accepted := by
  cases e with
  | flush f =>
    obtain ⟨flush, hflush, rfl⟩ := Option.map_eq_some_iff.1 hst
    rcases FlushState.step_cases hflush with ⟨rec, rfl, -⟩ |
      ⟨rec, rest, u, -, -, -, rfl, rfl | rfl⟩ | ⟨-, -, rfl⟩ | ⟨commits, toInsert, -, -, rfl⟩
    · exact absurd rfl (own rec)
    · rfl
    · unfold FlushState.startFlush
      split_ifs <;> rfl
    · unfold FlushState.startFlush
      split_ifs <;> rfl
    · rfl
  | cleanup =>
    obtain ⟨-, hstep⟩ := Option.ite_none_right_eq_some.1 hst
    cases hstep
    rfl
  | tick nowMs =>
    obtain ⟨-, hstep⟩ := Option.ite_none_right_eq_some.1 hst
    cases hstep
    rfl

/-- **Every step keeps the count.** -/
theorem Inv.step (h : Inv env api req room s sent stored) (hcommits : s.Commits l)
    (hroom : room → s.HasRoom env l) (hst : Step env s l s') :
    ∃ sent' stored', Inv env api req room s' sent' stored' := by
  cases hst with
  | @request i e t idle task =>
    have hreached := (h.reached i).trans (.one task)
    have hrecords := Task.records_step task
    cases hrec : (s.tasks i).recorded env e with
    | some rec =>
      have hnil := Task.records_eq_nil (h.reached i) task hrec
      rw [hnil, hrec] at hrecords
      refine ⟨sent ++ [i], stored, h.send hreached hnil hrecords fun hr => ?_⟩
      exact hroom hr (by rw [hrec]; exact Option.some_ne_none rec)
    | none =>
      rw [hrec, Option.toList_none, List.append_nil] at hrecords
      refine ⟨sent, stored, h.of_records_eq (fun j => ?_) (fun j => ?_) rfl rfl rfl h.db⟩
      · by_cases hj : j = i
        · subst hj
          rwa [tasks_move, Function.update_self]
        · rw [tasks_move, Function.update_of_ne hj]
          exact h.reached j
      · by_cases hj : j = i
        · subst hj
          rwa [tasks_move, Function.update_self]
        · rw [tasks_move, Function.update_of_ne hj]
  | @store i rec hrec => exact ⟨sent, stored ++ [i], h.store hrec⟩
  | @background e db step own =>
    exact ⟨sent, stored, h.of_records_eq h.reached (fun _ => rfl) rfl rfl
      (accepted_of_background step own) (h.db.step hcommits step)⟩

theorem inv_start (env : Env) (nowMs : UInt64) (api : ℕ → ApiFormat) (req : ℕ → Request)
    (room : Prop) : Inv env api req room (start env nowMs api req) [] [] where
  reached _ := .refl _
  nodup := List.nodup_nil
  mem _ := ⟨fun h => (List.not_mem_nil h).elim, fun h => absurd rfl h⟩
  once _ hi := (List.not_mem_nil hi).elim
  recording _ _ hi := by cases hi
  nodupStored := List.nodup_nil
  memStored _ := ⟨fun h => (List.not_mem_nil h).elim, fun h => h.1⟩
  memory := (List.rtake_nil _).symm
  accepted := List.nil_sublist _
  complete _ := rfl
  db := Retained.inv_start nowMs

/-! ### What is shown -/

/-- The summary of the ring buffer. -/
theorem summary_of_memory {v : StatsView} (hv : s.ShownBy v) (hfits : FitsI64 s.memory)
    {windowMs : UInt64} (hshort : ¬ windowMs > 5 * 60 * 1000) (model : Option String) :
    v.summary windowMs model = some (memorySummary s.memory v.nowMs windowMs model) := by
  have hrelevant : FitsI64 (relevant s.memory v.nowMs windowMs model) :=
    hfits.sublist (List.filter_sublist.trans List.filter_sublist)
  have hchecked : memorySummaryChecked s.memory v.nowMs windowMs model =
      some (memorySummary s.memory v.nowMs windowMs model) :=
    (memorySummaryChecked_eq_some_iff (hfits.length.trans (by decide))).2
      ⟨hrelevant.columnsFit, rfl⟩
  unfold StatsView.summary
  rw [StatsView.longTable, if_neg hshort, Option.bind_none, hv.memory]
  exact hchecked

/-- The summary of the database. -/
theorem summary_of_table {v : StatsView} (hv : s.ShownBy v) (hdb : s.db.Inv)
    (hsettled : Retained.Settled s.db.flush) (hfits : FitsI64 s.db.flush.accepted)
    {windowMs : UInt64} (hlong : windowMs > 5 * 60 * 1000)
    (hday : s.db.WithinDay v.dbNowMs windowMs) (model : Option String) :
    v.summary windowMs model =
      some (memorySummary s.db.flush.accepted v.dbNowMs windowMs model) := by
  obtain ⟨t, ht, hrows⟩ := hv.table
  have htable : v.table = some t := by
    rw [StatsView.table, ht]
  have hquery := (hdb.exact.settled hsettled hfits v.dbNowMs windowMs hday).1 model
  unfold StatsView.summary
  rw [StatsView.longTable, if_pos hlong, htable, Option.bind_some, hrows, hquery]

theorem Inv.counts (h : Inv env api req room s sent stored) : s.Counts sent stored where
  nodup := h.nodup
  mem := h.mem
  once := h.once
  nodupStored := h.nodupStored
  memStored := h.memStored
  perm := fun hidle => (List.perm_ext_iff_of_nodup h.nodupStored h.nodup).2 fun i =>
    (h.memStored i).trans (and_iff_left (hidle i))
  memory := h.memory
  accepted := h.accepted
  short := fun v hv hfits windowMs hshort model => summary_of_memory hv hfits hshort model
  long := fun v hv hsettled hfits windowMs hlong hday model =>
    summary_of_table hv h.db hsettled hfits hlong hday model
  recent := by
    intro v hv limit model
    rw [← hv.memory]
    exact exists_isNewest _ _ _

/-- A request that goes on for a while and has no record yet, with nobody else about. -/
theorem leads_task {i : ℕ} {t₀ t : Task} (ht : s.tasks i = t₀) (hidle : s.recording i = none)
    (h : Leads (Task.Step env) t₀ t) (hnone : t.account.records = []) :
    Leads (meeting (Step env) Commits) s { s with tasks := Function.update s.tasks i t } := by
  obtain ⟨r, hr, rfl⟩ := h
  induction r generalizing s t₀ with
  | nil =>
    have hsame : { s with tasks := Function.update s.tasks i t₀ } = s := by
      rw [← ht, Function.update_eq_self]
    rw [final, hsame]
    exact .refl s
  | cons x r ih =>
    obtain ⟨e, t₁⟩ := x
    subst ht
    have hnil : t₁.account.records = [] := by
      have hprefix : t₁.account.records <+: (final t₁ r).account.records :=
        Leads.inv (P := fun t => t₁.account.records <+: t.account.records)
          (fun t l t' h hst => h.trans ⟨_, (Task.records_step hst).symm⟩) (List.prefix_refl _)
          ⟨r, hr.2, rfl⟩
      rw [final_cons] at hnone
      rw [hnone] at hprefix
      exact List.prefix_nil.1 hprefix
    have hrec : (s.tasks i).recorded env e = none := by
      rw [Task.records_step hr.1] at hnil
      exact Option.toList_eq_nil_iff.1 (List.append_eq_nil_iff.1 hnil).2
    have hst : Step env s (.request i e) _ := .request hidle hr.1
    rw [hrec] at hst
    have hrest := @ih { s with tasks := Function.update s.tasks i t₁ } t₁
      (Function.update_self _ _ _) hidle hr.2 hnone
    simp only [Function.update_idem] at hrest
    exact .head ⟨hst, trivial⟩ hrest

/-- The request `i` records. -/
theorem meeting_record {i : ℕ} {t : Task} {rec : RequestRecord} {k : Unit → Handler Response}
    (ht : s.tasks i = t) (hphase : t.phase = .running (.vis (.record rec) k))
    (hidle : s.recording i = none) :
    meeting (Step env) Commits s (.request i (.answer (.record rec) ()))
      (s.move i { t with
        trace := t.trace ++ [⟨.record rec, ()⟩]
        phase := .running (k ()) } (some rec)) := by
  subst ht
  exact ⟨.request hidle (.answer (e := .record rec) () hphase), trivial⟩

/-- Answers up to the record, which is of the given time. -/
def recordingAnswers (tsMs : UInt64) : (e : Eff) → Option (Answer e)
  | .record _ => none
  | .unixMillis => some tsMs
  | e => Task.sampleAnswers (.ok ⟨200, []⟩) e

def recordingTask (tsMs : UInt64) : Task :=
  Task.played Task.sampleEnv .openAI Task.emptyRequest (recordingAnswers tsMs)

/-- Requests whose body is `{}`, and a new database. -/
def sampleStart : Dashboard :=
  start Task.sampleEnv 0 (fun _ => .openAI) fun _ => Task.emptyRequest

end Dashboard
end Mybro
