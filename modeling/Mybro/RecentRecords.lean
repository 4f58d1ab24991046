import Mybro.Flush
import Mybro.Lib.Ring

/-!
# The records in memory (`stats.rs`)

`StatsCollector` with its ring buffer, while the flush task of the database goes on beside it.
`holds_last` says what it holds after any run, and what `recent` shows of it.
-/

namespace Mybro

open Ring Runs

/-- `StatsCollector`: the ring buffer with its size, and the way to the database if there is one. -/
structure StatsCollector where
  records : List RequestRecord
  maxRecords : ℕ
  dbSender : Option FlushState

namespace StatsCollector

/-- `DEFAULT_MAX_RECORDS`. -/
def defaultMaxRecords : ℕ := 10000

def withCapacity (max : ℕ) : StatsCollector := ⟨[], max, none⟩

def new : StatsCollector := withCapacity defaultMaxRecords

def withDb (db : FlushState) : StatsCollector := ⟨[], defaultMaxRecords, some db⟩

/-- The first half of `record`: the record goes to the database, if the channel takes it. -/
def send (s : StatsCollector) (rec : RequestRecord) : StatsCollector :=
  { s with dbSender := s.dbSender.map (·.trySend rec) }

/-- The second half: with the lock, the record goes into the ring buffer. -/
def store (s : StatsCollector) (rec : RequestRecord) : StatsCollector :=
  { s with
    records := (if s.records.length ≥ s.maxRecords then s.records.tail else s.records) ++ [rec] }

/-- `record`. -/
def record (s : StatsCollector) (rec : RequestRecord) : StatsCollector := (s.send rec).store rec

/-- `recent`. -/
def recent (s : StatsCollector) (limit : ℕ) (model : Option String) : List RequestRecord :=
  (s.records.reverse.filter (hasModel model)).take limit

/-- One step: a call of `record`, or one of the flush task. -/
def step (s : StatsCollector) : FlushEvent → Option StatsCollector
  | .record rec => some (s.record rec)
  | l => (s.dbSender.bind (·.step l)).map fun db => { s with dbSender := some db }

/-- A run of those who record and of the flush task. -/
abbrev IsRun (s : StatsCollector) (r : List (FlushEvent × StatsCollector)) : Prop :=
  Runs.IsRun (Runs.ofFun step) s r

/-- The record of a call. -/
def recordOf : FlushEvent → Option RequestRecord
  | .record rec => some rec
  | _ => none

/-- The records of the calls of a run, in their order. -/
def recorded (r : List (FlushEvent × StatsCollector)) : List RequestRecord :=
  r.filterMap fun e => recordOf e.1

/-! ### What the buffer holds -/

section

variable {s t : StatsCollector} {l : FlushEvent}

@[simp] theorem records_record (rec : RequestRecord) :
    (s.record rec).records = push s.maxRecords s.records rec := rfl

@[simp] theorem maxRecords_record (rec : RequestRecord) :
    (s.record rec).maxRecords = s.maxRecords := rfl

/-- **What a step does**: it keeps the size of the buffer, and only `record` changes what is in
it. -/
theorem step_spec (h : s.step l = some t) :
    t.maxRecords = s.maxRecords ∧
      t.records = (recordOf l).toList.foldl (push s.maxRecords) s.records := by
  cases l with
  | record rec =>
    obtain rfl : s.record rec = t := Option.some.inj h
    exact ⟨rfl, rfl⟩
  | receive | timeout | flushed commits =>
    obtain ⟨db, -, rfl⟩ := Option.map_eq_some_iff.1 h
    exact ⟨rfl, rfl⟩

/-- What a run does: the calls of `record`, one after the other. -/
theorem run_spec {r : List (FlushEvent × StatsCollector)} (hr : IsRun s r) :
    (final s r).records = (recorded r).foldl (push s.maxRecords) s.records := by
  induction r generalizing s with
  | nil => rfl
  | cons e r ih =>
    obtain ⟨l, t⟩ := e
    obtain ⟨hmax, hrecords⟩ := step_spec hr.1
    have hsplit : recorded ((l, t) :: r) = (recordOf l).toList ++ recorded r := by
      unfold recorded
      rw [List.filterMap_cons]
      cases recordOf l <;> rfl
    rw [final_cons, ih hr.2, hsplit, List.foldl_append, hmax, hrecords]

/-- **The collector holds the last records**, as many as fit, and shows the newest of them. -/
theorem holds_last (hs : s.records = []) (hmax : 1 ≤ s.maxRecords)
    {r : List (FlushEvent × StatsCollector)} (hr : IsRun s r) (limit : ℕ) (model : Option String) :
    (final s r).records = (recorded r).rtake (min (recorded r).length s.maxRecords) ∧
      (final s r).records.length = min (recorded r).length s.maxRecords ∧
      ∃ pos, IsNewest (hasModel model) limit (final s r).records
        ((final s r).recent limit model) pos := by
  have hlast : (final s r).records = (recorded r).rtake s.maxRecords := by
    rw [run_spec hr, hs, foldl_push, max_eq_left hmax]
  refine ⟨?_, ?_, exists_isNewest _ _ _⟩
  · rw [hlast, rtake_min]
  · rw [hlast, length_rtake]

/-- The result on a run with a model that is asked for, and a buffer that gets full. -/
theorem holds_last_two :
    ∃ r, IsRun (withCapacity 2) r ∧
      recorded r = [sampleRecord 1 none, sampleRecord 2 none, sampleRecord 3 none] ∧
      (final (withCapacity 2) r).records = [sampleRecord 2 none, sampleRecord 3 none] ∧
      (final (withCapacity 2) r).records =
        (recorded r).rtake (min (recorded r).length 2) := by
  have hr : IsRun (withCapacity 2) [(.record (sampleRecord 1 none), _),
      (.record (sampleRecord 2 none), _), (.record (sampleRecord 3 none), _)] :=
    ⟨rfl, rfl, rfl, trivial⟩
  exact ⟨_, hr, rfl, rfl, (holds_last (s := withCapacity 2) rfl (by decide) hr 1 none).1⟩

end

end StatsCollector

end Mybro
