import Mybro.ConfigJson
import Mybro.Saver

/-!
# The configuration after a restart (`config.rs`, `persist.rs`)

A process loads the configuration file, runs, and is stopped at any point, in the middle of a save
too; then the next one starts on the file it has left. A save may fail at any point as well: the
saver warns, and waits again. `restart_loads_snapshot`: what is read is always what the first
process found or a configuration that the store of some process has held, as a whole, and when the
saver waits again after a save that has not failed, it is as late as the last ping.
-/

namespace Mybro

open Runs

/-- The handlers and the saver, and whether the last save has failed. -/
structure Process where
  saver : SaverState
  failed : Bool := false

/-- A step of the handlers or the saver, or a save that fails. -/
inductive ProcessEvent
  | saver (e : SaverEvent)
  | saveFails

/-- The step ends a save. -/
def SaverEvent.saves : SaverEvent → Bool
  | .rename => true
  | _ => false

/-- One step of a process. `save_to_file` may fail in every one of its steps: the temporary file
stays as far as it has been written, and the saver waits again. -/
def Process.step (p : Process) : ProcessEvent → Option Process
  | .saver e => (p.saver.step configText e).map fun s => ⟨s, p.failed && !e.saves⟩
  | .saveFails =>
    match p.saver.pos with
    | .writing _ | .replacing _ => some ⟨{ p.saver with pos := .waiting }, true⟩
    | _ => none

/-- A run of a process. -/
abbrev Process.IsRun (p : Process) (r : List (ProcessEvent × Process)) : Prop :=
  Runs.IsRun (Runs.ofFun Process.step) p r

/-- The life of a process: its environment, and what happens until it is stopped. -/
structure Life where
  vars : Vars
  run : List (ProcessEvent × Process)

namespace Life

/-- Where a process starts on a file; it does not start on a configuration that is not valid. -/
def start (found : Option String) (l : Life) : Option Process :=
  (Config.load configText found l.vars).map fun cfg => ⟨SaverState.start cfg found, false⟩

/-- The file that a process leaves. -/
def left (found : Option String) (l : Life) : Option String :=
  ((l.start found).map fun p => (final p l.run).saver.disk).getD found

/-- The configurations that its store has held. -/
def held (found : Option String) (l : Life) : List Config :=
  ((l.start found).map fun p => (final p l.run).saver.history).getD []

/-- A configuration that is stored is one. -/
def StoresConfig (_ : Process) (e : ProcessEvent) : Prop :=
  ∀ cfg, e = .saver (.store cfg) → cfg.Storable

/-- What happens is a run of the handlers and the saver. -/
def Ok (found : Option String) (l : Life) : Prop :=
  ∀ p, l.start found = some p → p.IsRun l.run ∧ EachStep StoresConfig p l.run

end Life

/-- The file after some processes, one after another. -/
def leftBy (found : Option String) (lives : List Life) : Option String :=
  lives.foldl Life.left found

/-- The configurations that their stores have held. -/
def heldBy (found : Option String) : List Life → List Config
  | [] => []
  | l :: ls => l.held found ++ heldBy (l.left found) ls

/-- Each of the processes runs on the file that the one before it has left. -/
def Lives (found : Option String) : List Life → Prop
  | [] => True
  | l :: ls => l.Ok found ∧ Lives (l.left found) ls

/-- What is read from the file now: what was read first or a configuration that was held, and, once
the saver is parked after a save that has not failed, one as late as the last ping. -/
structure Restores (first : Config) (held : List Config) (p : Process) : Prop where
  snapshot : loadFile configText p.saver.disk = first ∨
    loadFile configText p.saver.disk ∈ held ++ p.saver.history
  parked : p.saver.Parked → p.failed = false → ∀ n, p.saver.pinged = some n →
    p.saver.Since n (loadFile configText p.saver.disk)

/-! ### One process -/

section

variable {found : Option String} {s t : SaverState} {p q : Process} {cfg : Config}

theorem loadFile_saved (h : cfg.Storable) :
    loadFile configText (some (cfg.saveToFile configText)) = cfg :=
  loadFile_saveToFile (fromStr_toStringPretty h)

/-- Only a store changes the history. -/
theorem SaverState.history_of_step {json : ConfigText} {e : SaverEvent}
    (h : s.step json e = some t) :
    t.history = s.history ∨ ∃ cfg, e = .store cfg ∧ t.history = s.history ++ [cfg] := by
  cases e with
  | store cfg =>
    cases h
    exact Or.inr ⟨cfg, rfl, rfl⟩
  | ping =>
    cases h
    exact Or.inl rfl
  | poll | slept | timeout | load | writeSome | write | rename =>
    simp only [SaverState.step] at h
    split at h <;> cases h <;> exact Or.inl rfl

/-- What a step of a process is. -/
theorem Process.step_cases {e : ProcessEvent} (h : p.step e = some q) :
    (∃ e', e = .saver e' ∧ p.saver.step configText e' = some q.saver ∧
      q.failed = (p.failed && !e'.saves)) ∨
    (e = .saveFails ∧ (∃ cfg, p.saver.pos = .writing cfg ∨ p.saver.pos = .replacing cfg) ∧
      q = ⟨{ p.saver with pos := .waiting }, true⟩) := by
  cases e with
  | saver e =>
    obtain ⟨s, hs, rfl⟩ := Option.map_eq_some_iff.1 h
    exact Or.inl ⟨e, rfl, hs, rfl⟩
  | saveFails =>
    simp only [Process.step] at h
    split at h
    · rename_i cfg hpos
      exact Or.inr ⟨rfl, ⟨cfg, Or.inl hpos⟩, (Option.some.inj h).symm⟩
    · rename_i cfg hpos
      exact Or.inr ⟨rfl, ⟨cfg, Or.inr hpos⟩, (Option.some.inj h).symm⟩
    · cases h

/-- Every configuration the store has held can be saved. -/
def AllStorable (p : Process) : Prop := ∀ cfg ∈ p.saver.history, cfg.Storable

theorem AllStorable.step {e : ProcessEvent} (h : AllStorable p) (he : Life.StoresConfig p e)
    (hst : p.step e = some q) : AllStorable q := by
  intro cfg hcfg
  rcases Process.step_cases hst with ⟨e, rfl, hsaver, -⟩ | ⟨-, -, rfl⟩
  · rcases SaverState.history_of_step hsaver with heq | ⟨new, rfl, heq⟩
    · exact h cfg (heq ▸ hcfg)
    · rw [heq] at hcfg
      rcases List.mem_append.1 hcfg with hold | hnew
      · exact h cfg hold
      · rw [List.mem_singleton.1 hnew]
        exact he new rfl
  · exact h cfg hcfg

namespace Process

/-- The last save has failed, and nothing is on its way that starts another. -/
def Lost (p : Process) : Prop := p.failed = true ∧ p.saver.Parked

/-- The invariant: that of the saver, which a save that fails keeps but for the pings that it was
for. -/
def Inv (found : Option String) (p : Process) : Prop :=
  SaverState.Inv configText found p.saver ∨
    p.Lost ∧ SaverState.Inv configText found { p.saver with pinged := none }

/-- While nothing is on its way, the saver waits; a ping is kept again. -/
theorem inv_of_lost {e : SaverEvent} (hlost : p.Lost)
    (h : SaverState.Inv configText found { p.saver with pinged := none })
    (hst : p.saver.step configText e = some t) : Inv found ⟨t, p.failed && !e.saves⟩ := by
  obtain ⟨hfailed, hpos, hsignalled⟩ := hlost
  have hstays : ∀ s' : SaverState, s'.Parked → (⟨s', p.failed && true⟩ : Process).Lost :=
    fun s' hs' => ⟨by rw [hfailed]; rfl, hs'⟩
  cases e with
  | store cfg =>
    cases hst
    exact Or.inr ⟨hstays _ ⟨hpos, hsignalled⟩, h.stored cfg⟩
  | ping =>
    cases hst
    exact Or.inl h.ping
  | poll =>
    have hfalse : p.saver.notify.poll.1 = false :=
      Bool.eq_false_iff.2 fun htrue => hsignalled ((Notify.poll_ready_iff h.valid).1 htrue)
    have hpoll := h.poll_waiting hpos
    simp only [hfalse, Bool.false_eq_true, if_false] at hpoll
    simp only [SaverState.step, hpos, hfalse, Bool.false_eq_true, if_false] at hst
    cases hst
    exact Or.inr ⟨hstays _ ⟨rfl, Notify.not_signalled_poll hsignalled⟩, hpoll⟩
  | slept | timeout | load | writeSome | write | rename =>
    simp only [SaverState.step, hpos] at hst
    cases hst

/-- A save that fails leaves the file as it was. -/
theorem inv_saveFails (h : SaverState.Inv configText found p.saver) :
    Inv found ⟨{ p.saver with pos := .waiting }, true⟩ := by
  by_cases hsignalled : p.saver.notify.Signalled
  · -- a ping has come since the save began, and starts another
    refine Or.inl (.of_idle (fun _ => ⟨nofun, nofun⟩) h.valid (fun n hn => ?_) h.complete)
    exact ⟨(h.pinged n hn).1, Or.inl hsignalled⟩
  · exact Or.inr ⟨⟨rfl, rfl, hsignalled⟩,
      .of_idle (fun _ => ⟨nofun, nofun⟩) h.valid (by rintro n ⟨⟩) h.complete⟩

theorem Inv.step {e : ProcessEvent} (h : Inv found p) (hst : p.step e = some q) : Inv found q := by
  obtain ⟨t, failed⟩ := q
  rcases step_cases hst with ⟨e, rfl, hsaver, rfl⟩ | ⟨rfl, ⟨cfg, hpos⟩, heq⟩
  · rcases h with h | ⟨hlost, h⟩
    · exact Or.inl (h.step hsaver)
    · exact inv_of_lost hlost h hsaver
  · rw [heq]
    rcases h with h | ⟨hlost, -⟩
    · exact inv_saveFails h
    · rw [hlost.2.1] at hpos
      rcases hpos with hpos | hpos <;> cases hpos

theorem Inv.complete (h : Inv found p) : p.saver.Complete configText found := by
  rcases h with h | ⟨-, h⟩
  · exact h.complete
  · exact h.complete

end Process

theorem restores_of_inv (h : p.Inv found) (hall : AllStorable p) :
    Restores (loadFile configText found) [] p where
  snapshot := by
    have hcomplete := h.complete
    unfold SaverState.Complete at hcomplete
    split_ifs at hcomplete with hsaved
    · obtain ⟨cfg, hcfg, hdisk⟩ := hcomplete
      rw [hdisk, loadFile_saved (hall cfg hcfg)]
      exact Or.inr hcfg
    · rw [hcomplete]
      exact Or.inl rfl
  parked := by
    intro hparked hfailed n hn
    rcases h with h | ⟨hlost, -⟩
    · obtain ⟨cfg, ⟨i, hi, hget⟩, hdisk⟩ := h.pingsKept.parked hparked n hn
      rw [hdisk, loadFile_saved (hall cfg (List.mem_of_getElem? hget))]
      exact ⟨i, hi, hget⟩
    · rw [hlost.1] at hfailed
      cases hfailed

theorem restores_always {l : Life} (hl : l.Ok found) (hp : l.start found = some p) :
    Always (Restores (loadFile configText found) []) p l.run := by
  obtain ⟨hr, hstored⟩ := hl p hp
  obtain ⟨cfg, hload, rfl⟩ := Option.map_eq_some_iff.1 hp
  have hcfg : cfg.Storable := by
    rw [eq_of_load hload]
    exact storable_applyEnvOverrides (storable_loadFile found) l.vars
  have hall : AllStorable ⟨SaverState.start cfg found, false⟩ := by
    intro c hc
    rw [List.mem_singleton.1 hc]
    exact hcfg
  have hboth := always_of_step (C := Life.StoresConfig)
    (P := fun p => Process.Inv found p ∧ AllStorable p)
    (fun p e q h he hst => ⟨h.1.step hst, h.2.step he hst⟩)
    ⟨Or.inl (SaverState.inv_start configText found cfg), hall⟩ hr hstored
  exact hboth.mono fun q hq => restores_of_inv hq.1 hq.2

theorem loadFile_left {l : Life} (hl : l.Ok found) :
    loadFile configText (l.left found) = loadFile configText found ∨
      loadFile configText (l.left found) ∈ l.held found := by
  unfold Life.left Life.held
  cases hp : l.start found with
  | none => exact Or.inl rfl
  | some p => exact (restores_always hl hp).final.snapshot

/-! ### One process after another -/

theorem leftBy_cons (l : Life) (ls : List Life) :
    leftBy found (l :: ls) = leftBy (l.left found) ls := List.foldl_cons ..

theorem loadFile_leftBy {lives : List Life} (h : Lives found lives) :
    loadFile configText (leftBy found lives) = loadFile configText found ∨
      loadFile configText (leftBy found lives) ∈ heldBy found lives := by
  induction lives generalizing found with
  | nil => exact Or.inl rfl
  | cons l ls ih =>
    rw [leftBy_cons, heldBy]
    rcases ih h.2 with hsame | hheld
    · rw [hsame]
      exact (loadFile_left h.1).imp_right (List.mem_append_left _)
    · exact Or.inr (List.mem_append_right _ hheld)

theorem lives_append {lives lives' : List Life} (h : Lives found (lives ++ lives')) :
    Lives found lives ∧ Lives (leftBy found lives) lives' := by
  induction lives generalizing found with
  | nil => exact ⟨trivial, h⟩
  | cons l ls ih =>
    rw [leftBy_cons]
    exact ⟨⟨h.1, (ih h.2).1⟩, (ih h.2).2⟩

end

/-- **After any number of restarts**, at every moment of the process that runs now: what the next
process would read from the file is what was read first or a configuration that one of the stores
has held, never a part of one, also when saves fail; and once the saver is parked after a save that
has not failed it is as late as the last ping. -/
theorem restart_loads_snapshot {found : Option String} {before : List Life} {l : Life}
    {p : Process} (h : Lives found (before ++ [l]))
    (hp : l.start (leftBy found before) = some p) :
    Always (Restores (loadFile configText found) (heldBy found before)) p l.run := by
  obtain ⟨hbefore, hl, -⟩ := lives_append h
  refine (restores_always hl hp).mono fun q hq => ⟨?_, hq.parked⟩
  rcases hq.snapshot with hfirst | hheld
  · rw [hfirst]
    exact (loadFile_leftBy hbefore).imp_right (List.mem_append_left _)
  · exact Or.inr (List.mem_append_right _ hheld)

/-- No environment variable is set. -/
def noVars : Vars := fun _ => none

theorem load_noVars {found : Option String} {cfg : Config}
    (hread : loadFile configText found = cfg) (hvalid : cfg.validate = true) :
    Config.load configText found noVars = some cfg := by
  have henv : applyEnvOverrides noVars cfg = cfg := rfl
  rw [Config.load, hread, henv, if_pos hvalid]

theorem storable_key (key : String) : Config.Storable { apiKey := key } :=
  ⟨List.nodup_nil, storable_default.images⟩

/-- What a process does that starts is a run. -/
theorem Life.ok_of_start {found : Option String} {l : Life} {p : Process}
    (hp : l.start found = some p) (hr : p.IsRun l.run) (hstored : EachStep StoresConfig p l.run) :
    l.Ok found := by
  intro q hq
  obtain rfl := Option.some.inj (hp.symm.trans hq)
  exact ⟨hr, hstored⟩

/-- A first save fails after a configuration has been stored, and a second one saves it. -/
theorem exists_run_saveFails :
    ∃ r, Process.IsRun ⟨SaverState.start {} none, false⟩ r ∧
      EachStep Life.StoresConfig ⟨SaverState.start {} none, false⟩ r ∧
      (final (⟨SaverState.start {} none, false⟩ : Process) r).saver.disk =
        some (Config.saveToFile configText { apiKey := "sk-1" }) :=
  ⟨[(.saver (.store { apiKey := "sk-1" }), _), (.saver .ping, _), (.saver .poll, _),
      (.saver .slept, _), (.saver .timeout, _), (.saver .load, _), (.saveFails, _),
      (.saver .ping, _), (.saver .poll, _), (.saver .slept, _), (.saver .timeout, _),
      (.saver .load, _), (.saver .write, _), (.saver .rename, _)],
    ⟨rfl, rfl, rfl, rfl, rfl, rfl, rfl, rfl, rfl, rfl, rfl, rfl, rfl, rfl, trivial⟩,
    ⟨by rintro _ ⟨⟩; exact storable_key _, nofun, nofun, nofun, nofun, nofun, nofun, nofun,
      nofun, nofun, nofun, nofun, nofun, nofun, trivial⟩, rfl⟩

/-- A process is stopped after two characters of the temporary file. -/
theorem exists_run_stopped (text : String) :
    ∃ r, Process.IsRun ⟨SaverState.start { apiKey := "sk-1" } (some text), false⟩ r ∧
      EachStep Life.StoresConfig ⟨SaverState.start { apiKey := "sk-1" } (some text), false⟩ r ∧
      (final (⟨SaverState.start { apiKey := "sk-1" } (some text), false⟩ : Process) r).saver.tmp =
        some (String.ofList
          ((Config.saveToFile configText { apiKey := "sk-2" }).toList.take 2)) :=
  ⟨[(.saver (.store { apiKey := "sk-2" }), _), (.saver .ping, _), (.saver .poll, _),
      (.saver .slept, _), (.saver .timeout, _), (.saver .load, _), (.saver (.writeSome 2), _)],
    ⟨rfl, rfl, rfl, rfl, rfl, rfl, rfl, trivial⟩,
    ⟨by rintro _ ⟨⟩; exact storable_key _, nofun, nofun, nofun, nofun, nofun, nofun, trivial⟩,
    rfl⟩

/-- A process whose first save fails and whose second one does not, and then one that is stopped in
the middle of a save. -/
theorem restart_loads_snapshot_two :
    ∃ (before l : Life) (p : Process), l.start (leftBy none [before]) = some p ∧
      p.saver.store = { apiKey := "sk-1" } ∧
      (final p l.run).saver.tmp = some (String.ofList ['\x7b', '\n']) ∧
      Always (Restores (loadFile configText none) (heldBy none [before])) p l.run := by
  obtain ⟨text, htext⟩ : ∃ text, text = Config.saveToFile configText { apiKey := "sk-1" } :=
    ⟨_, rfl⟩
  obtain ⟨r, hr, hstored, hdisk⟩ := exists_run_saveFails
  obtain ⟨r', hr', hstored', htmp⟩ := exists_run_stopped text
  have hload : loadFile configText (some text) = { apiKey := "sk-1" } := by
    rw [htext, loadFile_saved (storable_key "sk-1")]
  have hstart : Life.start none ⟨noVars, r⟩ = some ⟨SaverState.start {} none, false⟩ := by
    have hnone : loadFile configText none = {} := rfl
    rw [Life.start, load_noVars hnone (by decide +kernel), Option.map_some]
  have hstart' : Life.start (some text) ⟨noVars, r'⟩ =
      some ⟨SaverState.start { apiKey := "sk-1" } (some text), false⟩ := by
    rw [Life.start, load_noVars hload (by decide +kernel), Option.map_some]
  have hleft : Life.left none ⟨noVars, r⟩ = some text := by
    rw [Life.left, hstart, Option.map_some, Option.getD_some, hdisk, htext]
  have hleftBy : leftBy none [⟨noVars, r⟩] = some text := by
    rw [leftBy_cons, hleft, leftBy, List.foldl_nil]
  have hok' := Life.ok_of_start hstart' hr' hstored'
  rw [← hleft] at hok'
  have hlives : Lives none [⟨noVars, r⟩, ⟨noVars, r'⟩] :=
    ⟨Life.ok_of_start hstart hr hstored, hok', trivial⟩
  rw [← hleftBy] at hstart'
  refine ⟨⟨noVars, r⟩, ⟨noVars, r'⟩, _, hstart', rfl, ?_,
    @restart_loads_snapshot none [⟨noVars, r⟩] _ _ hlives hstart'⟩
  have hpretty : ∀ cfg : Config, (cfg.saveToFile configText).toList = cfg.toValue.pretty 0 :=
    fun _ => String.toList_ofList
  rw [hleftBy, htmp, hpretty]
  rfl

end Mybro
