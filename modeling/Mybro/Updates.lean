import Mybro.Keys
import Mybro.Lib.ReadModifyWrite

/-!
# Requests that change the configuration at the same time (`config.rs`, `routes/`)

`ConfigStore::update` loads the configuration, changes a copy and stores the copy, and the pool is
rebuilt later; other requests come in between. `no_lost_update` says in which runs no update is lost
and the pool is in the end the one of the final configuration.
-/

namespace Mybro

open Runs ReadModifyWrite

/-- What a request does to the configuration: `post_keys` or `post_config`. -/
inductive Edit
  | keys (a : KeyAction)
  | config (u : ConfigUpdate)

/-- The change to the configuration. -/
def Edit.apply : Edit → Config → Config
  | .keys a => a.apply
  | .config u => u.apply

/-- Whether the request rebuilds the pool. -/
def Edit.rebuilds : Edit → Bool
  | .keys _ => true
  | .config u => u.keys.isSome

/-- The store with the requests under way, and the pool. -/
structure Editing where
  cell : Cell Config Edit
  pool : KeyPool

/-- A request arrives, takes a step of `ConfigStore::update`, or goes on to its end. -/
inductive EditingEvent
  | arrive (i : ℕ) (headers : HeaderMap) (e : Edit)
  | load (i : ℕ)
  | modify (i : ℕ)
  | store (i : ℕ)
  | finish (i : ℕ)

namespace Editing

/-- The configuration in the store. -/
def config (s : Editing) : Config := s.cell.value

/-- The state `main` builds from the configuration. -/
def start (cfg : Config) : Editing := ⟨{ value := cfg }, initialPool cfg⟩

/-- A step that concerns the store alone. -/
def onCell (s : Editing) (e : ReadModifyWrite.Event Edit) : Option Editing :=
  (s.cell.step Edit.apply e).map fun cell => { s with cell := cell }

/-- The pool that request `i` leaves: it is rebuilt from the configuration that the request has
stored, whatever is in the store by now. -/
def poolAfter (s : Editing) (i : ℕ) : KeyPool :=
  match s.cell.phase i with
  | .stored e new =>
    if e.rebuilds then s.pool.rebuild (new.keys.map KeyEntry.fromConfig) else s.pool
  | _ => s.pool

/-- One step. A request that is not authorized ends at once. -/
def step (s : Editing) : EditingEvent → Option Editing
  | .arrive i headers e =>
    if checkAuth s.config headers then s.onCell (.accept i e) else some s
  | .load i => s.onCell (.load i)
  | .modify i => s.onCell (.modify i)
  | .store i => s.onCell (.store i)
  | .finish i => (s.onCell (.finish i)).map fun t => { t with pool := s.poolAfter i }

/-- A run of requests. -/
abbrev IsRun (s : Editing) (r : List (EditingEvent × Editing)) : Prop :=
  Runs.IsRun (Runs.ofFun step) s r

/-! ### What is asked for -/

/-- No request is under way. -/
def Settled (s : Editing) : Prop :=
  ∀ i, s.cell.phase i = .absent ∨ ∃ e, s.cell.phase i = .finished e

/-- The pool is the one that `main` would build from the configuration. -/
def Mirrors (s : Editing) : Prop := s.pool.ids = (initialPool s.config).ids

/-- **No update is lost**: when no request is under way, the configuration is the result of all the
updates accepted, one after another in some order, and the pool is built from it. -/
def NoLostUpdate (cfg : Config) (s : Editing) : Prop :=
  s.Settled →
    (∃ order : List Edit, order.Perm (s.cell.accepted.map Prod.snd) ∧
      s.config = Cell.serial Edit.apply cfg order) ∧
    s.Mirrors

/-- The condition on a step. A store finds the configuration such that the update makes of it the
copy that is stored, and one without a rebuild leaves the fallback of the pool alone where it is
used. A rebuild still finds the names and keys it has stored, and a list that tells all. -/
def KeepsUpdates (s : Editing) : EditingEvent → Prop
  | .store i => ∀ e new, s.cell.phase i = .modified e new →
      new = e.apply s.config ∧
        (e.rebuilds = false → s.config.keys ≠ [] ∨ (e.apply s.config).apiKey = s.config.apiKey)
  | .finish i => ∀ e new, s.cell.phase i = .stored e new → e.rebuilds = true →
      KeyPool.listedIds new.keys = KeyPool.listedIds s.config.keys ∧ AdminState.ListTells s.config
  | _ => True

/-! ### Runs -/

section

variable {cfg : Config} {s t : Editing} {l : EditingEvent} {i : ℕ}

/-- A request that is to rebuild the pool has stored. -/
def Pending (s : Editing) : Prop :=
  ∃ i e new, s.cell.phase i = .stored e new ∧ e.rebuilds = true

/-- The invariant: the store has the updates stored so far, and the pool mirrors the configuration,
or a request is about to rebuild it. -/
structure Inv (cfg : Config) (s : Editing) : Prop where
  cell : Cell.Inv Edit.apply cfg s.cell
  pool : s.Mirrors ∨ s.Pending

theorem Edit.keys_apply_of_not_rebuilds {e : Edit} (h : e.rebuilds = false) (cfg : Config) :
    (e.apply cfg).keys = cfg.keys := by
  cases e with
  | keys a => cases h
  | config u =>
    have hnone : u.keys = none := by simpa [Edit.rebuilds] using h
    simp [Edit.apply, ConfigUpdate.apply, hnone]

theorem inv_start (cfg : Config) : Inv cfg (start cfg) := ⟨Cell.inv_start _ _, Or.inl rfl⟩

theorem Pending.onCell {e : ReadModifyWrite.Event Edit} (h : s.Pending) (hst : s.onCell e = some t)
    (he : ∀ i edit new, s.cell.phase i = .stored edit new → edit.rebuilds = true → e ≠ .finish i) :
    t.Pending := by
  obtain ⟨j, edit, new, hphase, hrebuilds⟩ := h
  obtain ⟨cell, hcell, rfl⟩ := Option.map_eq_some_iff.1 hst
  exact ⟨j, edit, new, Cell.stored_of_step hphase hcell (he j edit new hphase hrebuilds), hrebuilds⟩

/-- A step that is neither a store nor an end leaves the configuration and the pool alone. -/
theorem Inv.onCell {e : ReadModifyWrite.Event Edit} (h : Inv cfg s) (hst : s.onCell e = some t)
    (hcurrent : s.cell.Current Edit.apply e) (hstore : ∀ i, e ≠ .store i)
    (hfinish : ∀ i, e ≠ .finish i) : Inv cfg t := by
  have hpending := fun hp : s.Pending => hp.onCell hst fun i _ _ _ _ => hfinish i
  obtain ⟨cell, hcell, rfl⟩ := Option.map_eq_some_iff.1 hst
  refine ⟨h.cell.step hcurrent hcell, h.pool.imp (fun hmirrors => ?_) hpending⟩
  unfold Mirrors config
  rw [Cell.value_of_step hcell hstore]
  exact hmirrors

theorem Inv.store (h : Inv cfg s) (hst : s.onCell (.store i) = some t)
    (hkeeps : s.KeepsUpdates (.store i)) : Inv cfg t := by
  have hpending := fun hp : s.Pending => hp.onCell hst fun _ _ _ _ _ => nofun
  obtain ⟨cell, hcell, rfl⟩ := Option.map_eq_some_iff.1 hst
  obtain ⟨e, new, hphase, hstored, hvalue⟩ := Cell.store_cases hcell
  obtain ⟨hnew, hfallback⟩ := hkeeps e new hphase
  have hcurrent : s.cell.Current Edit.apply (.store i) :=
    fun e' new' hphase' => (hkeeps e' new' hphase').1
  refine ⟨h.cell.step hcurrent hcell, ?_⟩
  cases hrebuilds : e.rebuilds with
  | true => exact Or.inr ⟨i, e, new, hstored, hrebuilds⟩
  | false =>
    refine h.pool.imp (fun hmirrors => ?_) hpending
    have hsame := AdminState.ids_initialPool_eq_iff
      (Edit.keys_apply_of_not_rebuilds hrebuilds s.config)
    unfold Mirrors config
    rw [hvalue, hnew, ← hsame.2 (hfallback hrebuilds)]
    exact hmirrors

theorem Inv.finish (h : Inv cfg s) {u : Editing} (hst : s.onCell (.finish i) = some u)
    (hkeeps : s.KeepsUpdates (.finish i)) : Inv cfg { u with pool := s.poolAfter i } := by
  have hpending := fun hp : s.Pending => fun he => hp.onCell hst he
  obtain ⟨cell, hcell, rfl⟩ := Option.map_eq_some_iff.1 hst
  obtain ⟨e, new, hphase⟩ := Cell.finish_cases hcell
  refine ⟨h.cell.step (e := .finish i) trivial hcell, ?_⟩
  cases hrebuilds : e.rebuilds with
  | true =>
    obtain ⟨hkeys, htells⟩ := hkeeps e new hphase hrebuilds
    refine Or.inl ?_
    unfold Mirrors config poolAfter
    rw [Cell.value_of_step hcell nofun, hphase]
    simp only [hrebuilds, if_true]
    rw [KeyPool.ids_rebuild, hkeys]
    exact (AdminState.listedIds_eq_iff _).2 htells
  | false =>
    have hpool : s.poolAfter i = s.pool := by simp [poolAfter, hphase, hrebuilds]
    rw [hpool]
    refine h.pool.imp (fun hmirrors => ?_) fun hp => hpending hp fun j edit _ hj hedit hij => ?_
    · unfold Mirrors config
      rw [Cell.value_of_step hcell nofun]
      exact hmirrors
    · cases hij
      rw [hphase] at hj
      cases hj
      rw [hrebuilds] at hedit
      cases hedit

/-- **Every step that meets the condition keeps the invariant.** -/
theorem Inv.step (h : Inv cfg s) (hkeeps : s.KeepsUpdates l) (hst : s.step l = some t) :
    Inv cfg t := by
  cases l with
  | arrive i headers e =>
    simp only [Editing.step] at hst
    split_ifs at hst
    · exact h.onCell hst trivial nofun nofun
    · cases hst
      exact h
  | load i => exact h.onCell hst trivial nofun nofun
  | modify i => exact h.onCell hst trivial nofun nofun
  | store i => exact h.store hst hkeeps
  | finish i =>
    obtain ⟨u, hu, rfl⟩ := Option.map_eq_some_iff.1 hst
    exact h.finish hu hkeeps

theorem Inv.noLostUpdate (h : Inv cfg s) : NoLostUpdate cfg s := by
  intro hsettled
  constructor
  · refine Cell.serial_of_inv h.cell fun i => ?_
    rcases hsettled i with hi | ⟨e, hi⟩
    · rw [hi]
      rfl
    · rw [hi]
      rfl
  · refine h.pool.resolve_right ?_
    rintro ⟨i, e, new, hphase, -⟩
    rcases hsettled i with hi | ⟨e', hi⟩
    · rw [hi] at hphase
      cases hphase
    · rw [hi] at hphase
      cases hphase

end

/-- **In a run whose steps all meet `KeepsUpdates`, no update is lost.** -/
theorem no_lost_update {cfg : Config} {r : List (EditingEvent × Editing)}
    (hr : IsRun (start cfg) r) (hkeeps : EachStep KeepsUpdates (start cfg) r) :
    Always (NoLostUpdate cfg) (start cfg) r := by
  have hinv : Always (Inv cfg) (start cfg) r :=
    always_of_step (fun _ _ _ h hC hst => h.step hC hst) (inv_start cfg) hr hkeeps
  exact hinv.mono fun _ h => h.noLostUpdate

/-! ### Two keys -/

/-- The request that adds the key `A`, and the one that adds `B`. -/
def addA : Edit := .keys (.add "A" "sk-1" "")

def addB : Edit := .keys (.add "B" "sk-2" "")

/-- The store of the second request comes after the end of the first, its arrival long before. -/
theorem no_lost_update_two :
    ∃ r, IsRun (start {}) r ∧ Always (NoLostUpdate {}) (start {}) r ∧
      (final (start {}) r).config.keys = [⟨"A", "sk-1", ""⟩, ⟨"B", "sk-2", ""⟩] := by
  have hr : IsRun (start {}) [(.arrive 0 [] addA, _), (.load 0, _), (.arrive 1 [] addB, _),
      (.modify 0, _), (.store 0, _), (.load 1, _), (.modify 1, _), (.finish 0, _), (.store 1, _),
      (.finish 1, _)] := ⟨rfl, rfl, rfl, rfl, rfl, rfl, rfl, rfl, rfl, rfl, trivial⟩
  refine ⟨_, hr, no_lost_update hr
    ⟨trivial, trivial, trivial, trivial, ?_, trivial, trivial, ?_, ?_, ?_, trivial⟩, rfl⟩
  · intro e new hphase
    have hadd : Phase.modified addA (addA.apply {}) = .modified e new := hphase
    cases hadd
    exact ⟨rfl, nofun⟩
  · intro e new hphase _
    have hadd : Phase.stored addA (addA.apply {}) = .stored e new := hphase
    cases hadd
    exact ⟨rfl, Or.inl (List.cons_ne_nil _ _)⟩
  · intro e new hphase
    have hadd : Phase.modified addB (addB.apply (addA.apply {})) = .modified e new := hphase
    cases hadd
    exact ⟨rfl, nofun⟩
  · intro e new hphase _
    have hadd : Phase.stored addB (addB.apply (addA.apply {})) = .stored e new := hphase
    cases hadd
    exact ⟨rfl, Or.inl (List.cons_ne_nil _ _)⟩

/-- Each request that adds a key makes the list longer. -/
theorem length_keys_serial {order : List Edit}
    (h : ∀ e ∈ order, ∃ name key session, e = .keys (.add name key session)) (cfg : Config) :
    (Cell.serial Edit.apply cfg order).keys.length = cfg.keys.length + order.length := by
  induction order generalizing cfg with
  | nil => rfl
  | cons e order ih =>
    obtain ⟨name, key, session, rfl⟩ := h e List.mem_cons_self
    have hrest := ih (fun e he => h e (List.mem_cons_of_mem _ he))
      (Edit.apply (.keys (.add name key session)) cfg)
    have hkeys : (Edit.apply (.keys (.add name key session)) cfg).keys =
        cfg.keys ++ [⟨name, key, session⟩] := rfl
    rw [hkeys, List.length_append, List.length_singleton] at hrest
    rw [List.length_cons]
    exact hrest.trans (by omega)

/-- Two keys are added at the same time, and the first one is lost. -/
theorem concurrent_key_lost :
    ∃ r, IsRun (start {}) r ∧ (final (start {}) r).config.keys = [⟨"B", "sk-2", ""⟩] ∧
      ¬ NoLostUpdate {} (final (start {}) r) := by
  have hr : IsRun (start {}) [(.arrive 0 [] addA, _), (.arrive 1 [] addB, _), (.load 0, _),
      (.load 1, _), (.modify 0, _), (.modify 1, _), (.store 0, _), (.store 1, _), (.finish 0, _),
      (.finish 1, _)] := ⟨rfl, rfl, rfl, rfl, rfl, rfl, rfl, rfl, rfl, rfl, trivial⟩
  refine ⟨_, hr, rfl, fun hclaim => ?_⟩
  obtain ⟨⟨order, hperm, hconfig⟩, -⟩ := hclaim fun i => by
    rcases i with _ | _ | i
    · exact Or.inr ⟨addA, rfl⟩
    · exact Or.inr ⟨addB, rfl⟩
    · exact Or.inl rfl
  have horder : order.Perm [addA, addB] := hperm
  have hadds : ∀ e ∈ order, ∃ name key session, e = .keys (.add name key session) := by
    intro e he
    rcases List.mem_pair.1 (horder.mem_iff.1 he) with rfl | rfl
    · exact ⟨_, _, _, rfl⟩
    · exact ⟨_, _, _, rfl⟩
  have hlength := length_keys_serial hadds {}
  rw [← hconfig, horder.length_eq] at hlength
  exact absurd hlength (by decide)

end Editing

end Mybro
