import Mybro.Lib.Runs
import Mybro.StatsSql

/-!
# On the way to the database (`stats.rs`, `db.rs`)

A record that is counted goes into a channel, from there into the batch of the flush task, and with
its batch into the table, unless the flush fails. `conserved_iff` says in which runs no record is
lost on the way.
-/

namespace Mybro

open Runs

/-- `CHANNEL_SIZE`. -/
def channelSize : ℕ := 4096

/-- How long a batch gets before it is flushed. -/
def batchSize : ℕ := 128

/-! ### The flush task -/

/-- The channel, the task with the batch it collects or the one it flushes, and the rows inserted so
far; `accepted` lists the records the channel has taken. -/
structure FlushState where
  channel : List RequestRecord := []
  batch : List RequestRecord := []
  flushing : Option (List RequestRecord) := none
  rows : List RequestRow := []
  accepted : List RequestRecord := []

/-- What happens: a request is recorded, the task receives, its timer ends, a flush is over. A flush
can fail for reasons of its own, in the transaction or in the task that runs it. -/
inductive FlushEvent
  | record (rec : RequestRecord)
  | receive
  | timeout
  | flushed (commits : Bool)

namespace FlushState

/-- The batch is taken out and flushed, if there is one. -/
def startFlush (s : FlushState) : FlushState :=
  if s.batch = [] then s else { s with batch := [], flushing := some s.batch }

/-- `try_send` in `record`; a full channel refuses. -/
def trySend (s : FlushState) (rec : RequestRecord) : FlushState :=
  if s.channel.length < channelSize then
    { s with channel := s.channel ++ [rec], accepted := s.accepted ++ [rec] }
  else s

/-- One step; the task waits while a flush is under way. -/
def step (s : FlushState) : FlushEvent → Option FlushState
  | .record rec => some (s.trySend rec)
  | .receive =>
    match s.flushing, s.channel with
    | none, rec :: rest =>
      let s := { s with channel := rest, batch := s.batch ++ [rec] }
      some (if s.batch.length ≥ batchSize then s.startFlush else s)
    | _, _ => none
  | .timeout =>
    match s.flushing with
    | none => some s.startFlush
    | some _ => none
  | .flushed commits =>
    match s.flushing with
    | some toInsert =>
      -- the batch is gone, whatever comes of it
      some { s with
        batch := []
        flushing := none
        rows := if commits then (flushBatch s.rows toInsert).getD s.rows else s.rows }
    | none => none

/-- A run of the flush task and of those who record. -/
abbrev IsRun (s : FlushState) (r : List (FlushEvent × FlushState)) : Prop :=
  Runs.IsRun (Runs.ofFun step) s r

/-! ### Conservation -/

/-- **No record is lost or duplicated**: the accepted ones are those in the channel, those in the
batch, those in the batch that is flushed, and the ones whose rows are in the table. -/
def Conserved (s : FlushState) : Prop :=
  ∃ inserted : List RequestRecord, inserted.mapM insertParams = some s.rows ∧
    (s.accepted : Multiset RequestRecord) =
      s.channel + s.batch + s.flushing.getD [] + inserted

/-- The condition on a step: a flush that is over has committed, with a batch of records that can be
inserted. -/
def KeepsRecords (s : FlushState) : FlushEvent → Prop
  | .flushed commits =>
    ∀ toInsert, s.flushing = some toInsert →
      commits = true ∧ ∃ rows, toInsert.mapM insertParams = some rows
  | _ => True

/-- While a flush is under way, it has something to insert. -/
def Busy (s : FlushState) : Prop :=
  ∀ toInsert, s.flushing = some toInsert → toInsert ≠ [] ∧ s.batch = []

section

variable {s t : FlushState} {l : FlushEvent}

/-! #### The steps -/

/-- **What a step does.** -/
theorem step_cases (h : s.step l = some t) :
    (∃ rec, l = .record rec ∧ t = s.trySend rec) ∨
      (∃ rec rest u, l = .receive ∧ s.flushing = none ∧ s.channel = rec :: rest ∧
        u = { s with channel := rest, batch := s.batch ++ [rec] } ∧ (t = u ∨ t = u.startFlush)) ∨
      (l = .timeout ∧ s.flushing = none ∧ t = s.startFlush) ∨
      ∃ commits toInsert, l = .flushed commits ∧ s.flushing = some toInsert ∧
        t = { s with
          batch := []
          flushing := none
          rows := if commits then (flushBatch s.rows toInsert).getD s.rows else s.rows } := by
  cases l with
  | record rec => exact Or.inl ⟨rec, rfl, (Option.some.inj h).symm⟩
  | receive =>
    simp only [step] at h
    split at h
    · rename_i rec rest hflush hchannel
      refine Or.inr (Or.inl ⟨rec, rest, _, rfl, hflush, hchannel, rfl, ?_⟩)
      rw [← Option.some.inj h]
      split_ifs
      · exact Or.inr rfl
      · exact Or.inl rfl
    · cases h
  | timeout =>
    simp only [step] at h
    split at h
    · rename_i hflush
      exact Or.inr (Or.inr (Or.inl ⟨rfl, hflush, (Option.some.inj h).symm⟩))
    · cases h
  | flushed commits =>
    simp only [step] at h
    split at h
    · rename_i toInsert hflush
      exact Or.inr (Or.inr (Or.inr ⟨commits, toInsert, rfl, hflush, (Option.some.inj h).symm⟩))
    · cases h

theorem busy_of_none (h : s.flushing = none) : s.Busy := by
  intro toInsert hflush
  rw [h] at hflush
  cases hflush

theorem busy_startFlush (h : s.flushing = none) : s.startFlush.Busy := by
  unfold startFlush
  split_ifs with hbatch
  · exact busy_of_none h
  · intro toInsert hflush
    obtain rfl := Option.some.inj hflush
    exact ⟨hbatch, rfl⟩

theorem busy_trySend (rec : RequestRecord) (h : s.Busy) : (s.trySend rec).Busy := by
  unfold trySend
  split_ifs
  · exact h
  · exact h

theorem busy_step (hs : s.Busy) (h : s.step l = some t) : t.Busy := by
  rcases step_cases h with ⟨rec, -, rfl⟩ | ⟨rec, rest, u, -, hflush, -, rfl, rfl | rfl⟩ |
    ⟨-, hflush, rfl⟩ | ⟨commits, toInsert, -, -, rfl⟩
  · exact busy_trySend rec hs
  · exact busy_of_none hflush
  · exact busy_startFlush hflush
  · exact busy_startFlush hflush
  · exact busy_of_none rfl

/-! #### What they do to the records -/

/-- Starting a flush moves the batch. -/
theorem conserved_startFlush (h : s.flushing = none) (hs : s.Conserved) :
    s.startFlush.Conserved := by
  unfold startFlush
  split_ifs with hbatch
  · exact hs
  · obtain ⟨inserted, hrows, hsum⟩ := hs
    refine ⟨inserted, hrows, hsum.trans ?_⟩
    simp [h]

theorem conserved_trySend (rec : RequestRecord) (hs : s.Conserved) :
    (s.trySend rec).Conserved := by
  unfold trySend
  split_ifs
  · obtain ⟨inserted, hrows, hsum⟩ := hs
    refine ⟨inserted, hrows, ?_⟩
    simp only [← Multiset.coe_add, hsum]
    abel
  · exact hs

/-- Receiving moves a record from the channel to the batch. -/
theorem conserved_receive {rec : RequestRecord} {rest : List RequestRecord}
    (hchannel : s.channel = rec :: rest) (hs : s.Conserved) :
    Conserved { s with channel := rest, batch := s.batch ++ [rec] } := by
  obtain ⟨inserted, hrows, hsum⟩ := hs
  refine ⟨inserted, hrows, hsum.trans ?_⟩
  have hcons : ((rec :: rest : List RequestRecord) : Multiset RequestRecord) = [rec] + rest := by
    rw [Multiset.coe_add, List.singleton_append]
  simp only [hchannel, hcons, ← Multiset.coe_add]
  abel

/-- A flush that commits moves the batch to the table. -/
theorem conserved_commit {toInsert : List RequestRecord} {rows : List RequestRow}
    (hflush : s.flushing = some toInsert) (hbatch : s.batch = [])
    (hinsert : toInsert.mapM insertParams = some rows) (hs : s.Conserved) :
    Conserved { s with batch := [], flushing := none, rows := s.rows ++ rows } := by
  obtain ⟨inserted, hrows, hsum⟩ := hs
  refine ⟨inserted ++ toInsert, ?_, hsum.trans ?_⟩
  · rw [List.mapM_append, hrows, hinsert]
    rfl
  · simp only [hflush, hbatch, Option.getD_some, Option.getD_none, ← Multiset.coe_add,
      Multiset.coe_nil]
    abel

/-- **A flush that does not commit loses its batch.** -/
theorem not_conserved_drop {toInsert : List RequestRecord} (hs : s.Conserved) (hbusy : s.Busy)
    (hflush : s.flushing = some toInsert) :
    ¬ Conserved { s with batch := [], flushing := none } := by
  rintro ⟨inserted', hrows', hsum'⟩
  obtain ⟨inserted, hrows, hsum⟩ := hs
  obtain ⟨hne, hbatch⟩ := hbusy toInsert hflush
  have hlength : inserted.length = inserted'.length :=
    (forall₂_of_mapM hrows).length_eq.trans (forall₂_of_mapM hrows').length_eq.symm
  have hcard := congrArg Multiset.card (hsum.symm.trans hsum')
  simp only [hflush, hbatch, Option.getD_some, Option.getD_none, Multiset.card_add,
    Multiset.coe_card, List.length_nil, hlength] at hcard
  have hpos : 0 < toInsert.length := List.length_pos_of_ne_nil hne
  omega

/-- **What a step does to the records**: it keeps them exactly when it meets `KeepsRecords`. -/
theorem conserved_step_iff (hbusy : s.Busy) (hs : s.Conserved) (h : s.step l = some t) :
    t.Conserved ↔ s.KeepsRecords l := by
  rcases step_cases h with ⟨rec, rfl, rfl⟩ | ⟨rec, rest, u, rfl, hflush, hchannel, rfl, rfl | rfl⟩ |
    ⟨rfl, hflush, rfl⟩ | ⟨commits, toInsert, rfl, hflush, rfl⟩
  · exact ⟨fun _ => trivial, fun _ => conserved_trySend rec hs⟩
  · exact ⟨fun _ => trivial, fun _ => conserved_receive hchannel hs⟩
  · refine ⟨fun _ => trivial, fun _ => conserved_startFlush ?_ (conserved_receive hchannel hs)⟩
    exact hflush
  · exact ⟨fun _ => trivial, fun _ => conserved_startFlush hflush hs⟩
  · obtain ⟨-, hbatch⟩ := hbusy toInsert hflush
    cases hinsert : toInsert.mapM insertParams with
    | none =>
      have hdrop := not_conserved_drop hs hbusy hflush
      refine iff_of_false ?_ ?_
      · simpa [flushBatch, hinsert] using hdrop
      · intro hkeeps
        obtain ⟨-, rows, hrows⟩ := hkeeps toInsert hflush
        rw [hinsert] at hrows
        cases hrows
    | some rows =>
      cases commits with
      | false =>
        have hdrop := not_conserved_drop hs hbusy hflush
        refine iff_of_false hdrop fun hkeeps => ?_
        exact Bool.false_ne_true (hkeeps toInsert hflush).1
      | true =>
        have hcommit := conserved_commit hflush hbatch hinsert hs
        refine iff_of_true ?_ ?_
        · simpa [flushBatch, hinsert] using hcommit
        · intro toInsert' hflush'
          rw [hflush] at hflush'
          obtain rfl := Option.some.inj hflush'
          exact ⟨rfl, rows, hinsert⟩

end

/-- **Throughout a run no record is lost or duplicated exactly when every flush of it commits.** -/
theorem conserved_iff {r : List (FlushEvent × FlushState)} (hr : IsRun {} r) :
    Always Conserved {} r ↔ EachStep KeepsRecords {} r := by
  refine always_iff_eachStep (J := Busy) (fun s l t hs => busy_step hs) ?_ (busy_of_none rfl) ?_ hr
  · intro s l t hbusy hs hst
    exact conserved_step_iff hbusy hs hst
  · exact ⟨[], rfl, rfl⟩

/-! ### Samples -/

/-- A record with a number of tokens that the database does not take. -/
def unfitRecord : RequestRecord := { sampleRecord 1 none with tokensIn := 9223372036854775808 }

/-- One record with too many tokens takes another one with it. -/
theorem unfit_record_loses_other :
    ∃ r, IsRun {} r ∧ (final {} r).accepted = [sampleRecord 1 none, unfitRecord] ∧
      (final {} r).rows = [] ∧ ¬ Always Conserved {} r := by
  have hr : IsRun {} [(.record (sampleRecord 1 none), _), (.record unfitRecord, _), (.receive, _),
      (.receive, _), (.timeout, _), (.flushed true, _)] :=
    ⟨rfl, rfl, rfl, rfl, rfl, rfl, trivial⟩
  refine ⟨_, hr, rfl, rfl, fun h => ?_⟩
  obtain ⟨inserted, hrows, hsum⟩ := h.final
  have hlength : inserted.length = 0 := (forall₂_of_mapM hrows).length_eq
  have hcard := congrArg Multiset.card hsum
  simp only [Multiset.card_add, Multiset.coe_card, hlength] at hcard
  exact absurd hcard (by decide)

/-- The result on a run in which a record gets to the table. -/
theorem conserved_of_committed :
    ∃ r, IsRun {} r ∧ r.length = 4 ∧ Always Conserved {} r := by
  have hr : IsRun {} [(.record (sampleRecord 1 none), _), (.receive, _), (.timeout, _),
      (.flushed true, _)] := ⟨rfl, rfl, rfl, rfl, trivial⟩
  refine ⟨_, hr, rfl,
    (conserved_iff hr).2 ⟨trivial, trivial, trivial, fun toInsert h => ?_, trivial⟩⟩
  obtain rfl : [sampleRecord 1 none] = toInsert := Option.some.inj h
  have hfits : FitsI64 [sampleRecord 1 none] :=
    ⟨by decide, by decide, by decide, by decide, by decide, by decide, by decide, by decide⟩
  exact ⟨rfl, _, mapM_eq_map fun rec hrec => hfits.insertParams hrec⟩

end FlushState

end Mybro
