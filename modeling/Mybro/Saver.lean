import Mybro.ConfigFile
import Mybro.Lib.Notify
import Mybro.Lib.Runs

/-!
# The saver (`persist.rs`, `config.rs`)

Handlers store configurations and ping; one task waits for pings, lets them settle, and writes the
current configuration to a temporary file that then becomes the configuration file.
`pings_kept`: in every run, a configuration that was pinged is saved, or its saving is under way.
-/

namespace Mybro

open Runs

/-! ### The task and its surroundings -/

/-- Where the task is: at the outer wait, in the first sleep, in the `select` of the drain loop,
past it, or in `save_to_file` with the snapshot it has loaded. -/
inductive SaverPos
  | waiting
  | sleeping
  | draining
  | loading
  | writing (cfg : Config)
  | replacing (cfg : Config)

/-- The store with the snapshots it held before, the notification, the task, the temporary file and
the configuration file. `pinged` is the number of the snapshot that was current at the last ping,
and `saved` whether the file has been written. -/
structure SaverState where
  store : Config
  earlier : List Config := []
  pinged : Option ℕ := none
  notify : Notify := {}
  pos : SaverPos := .waiting
  tmp : Option String := none
  disk : Option String
  saved : Bool := false

/-- What happens. A file is written piece by piece, and a rename is atomic. -/
inductive SaverEvent
  | store (cfg : Config)
  | ping
  | poll
  | slept
  | timeout
  | load
  | writeSome (chars : ℕ)
  | write
  | rename

namespace SaverState

/-- The snapshots the store has held, the current one last. -/
def history (s : SaverState) : List Config := s.earlier ++ [s.store]

/-- One step of a handler or of the task. -/
def step (json : ConfigText) (s : SaverState) : SaverEvent → Option SaverState
  | .store cfg => some { s with store := cfg, earlier := s.earlier ++ [s.store] }
  | .ping => some { s with notify := s.notify.notifyOne, pinged := some s.earlier.length }
  | .poll =>
    match s.pos with
    | .waiting =>
      some { s with
        notify := s.notify.poll.2
        pos := if s.notify.poll.1 then .sleeping else .waiting }
    -- a future that is ready starts the drain loop over, with a new future and a new timer
    | .draining => some { s with notify := s.notify.poll.2 }
    | _ => none
  | .slept =>
    match s.pos with
    | .sleeping => some { s with pos := .draining }
    | _ => none
  | .timeout =>
    match s.pos with
    | .draining => some { s with notify := s.notify.drop, pos := .loading }
    | _ => none
  | .load =>
    match s.pos with
    | .loading => some { s with pos := .writing s.store }
    | _ => none
  | .writeSome chars =>
    match s.pos with
    | .writing cfg =>
      some { s with tmp := some (String.ofList ((cfg.saveToFile json).toList.take chars)) }
    | _ => none
  | .write =>
    match s.pos with
    | .writing cfg => some { s with tmp := some (cfg.saveToFile json), pos := .replacing cfg }
    | _ => none
  | .rename =>
    match s.pos with
    | .replacing _ => some { s with disk := s.tmp, tmp := none, pos := .waiting, saved := true }
    | _ => none

/-- A run of the handlers and the task. -/
abbrev IsRun (json : ConfigText) (s : SaverState) (r : List (SaverEvent × SaverState)) : Prop :=
  Runs.IsRun (Runs.ofFun (step json)) s r

/-- The state `main` builds: the task waits, and the file is as it was found. -/
def start (cfg : Config) (found : Option String) : SaverState where
  store := cfg
  disk := found

/-! ### Where a change is -/

/-- The configuration is a snapshot the store has held since its number was `p`. -/
def Since (s : SaverState) (p : ℕ) (cfg : Config) : Prop := ∃ i, p ≤ i ∧ s.history[i]? = some cfg

/-- The position of the task says that the change of ping `p` will be, or has been, saved. -/
def Covers (json : ConfigText) (s : SaverState) (p : ℕ) : SaverPos → Prop
  | .waiting => ∃ cfg, s.Since p cfg ∧ s.disk = some (cfg.saveToFile json)
  | .sleeping | .draining | .loading => True
  | .writing cfg | .replacing cfg => s.Since p cfg

/-- The file is what was found, or a snapshot the store has held. -/
def Complete (json : ConfigText) (found : Option String) (s : SaverState) : Prop :=
  if s.saved then ∃ cfg ∈ s.history, s.disk = some (cfg.saveToFile json) else s.disk = found

/-- The invariant: every change that was pinged is represented in a notification or in the position
of the task, which holds nothing but snapshots of the store. -/
structure Inv (json : ConfigText) (found : Option String) (s : SaverState) : Prop where
  valid : s.notify.Valid
  pinged : ∀ p, s.pinged = some p →
    p ≤ s.earlier.length ∧ (s.notify.Signalled ∨ s.Covers json p s.pos)
  held : ∀ cfg, s.pos = .writing cfg ∨ s.pos = .replacing cfg → cfg ∈ s.history
  tmp : ∀ cfg, s.pos = .replacing cfg → s.tmp = some (cfg.saveToFile json)
  complete : s.Complete json found

section

variable {json : ConfigText} {found : Option String} {s t : SaverState} {p : ℕ} {cfg : Config}

theorem store_mem_history (s : SaverState) : s.store ∈ s.history :=
  List.mem_append_right _ List.mem_cons_self

/-- The current snapshot is as late as any. -/
theorem since_store (h : p ≤ s.earlier.length) : s.Since p s.store :=
  ⟨s.earlier.length, h, List.getElem?_concat_length⟩

theorem Since.after_store (h : s.Since p cfg) (new : Config) :
    Since { s with store := new, earlier := s.earlier ++ [s.store] } p cfg := by
  obtain ⟨i, hi, hget⟩ := h
  refine ⟨i, hi, ?_⟩
  have hlt : i < s.history.length := (List.getElem?_eq_some_iff.1 hget).1
  show (s.history ++ [new])[i]? = some cfg
  rw [List.getElem?_append_left hlt, hget]

/-- While the task holds no snapshot, nothing is to be shown of one. -/
theorem Inv.of_idle (hidle : ∀ cfg, s.pos ≠ .writing cfg ∧ s.pos ≠ .replacing cfg)
    (hvalid : s.notify.Valid)
    (hpinged : ∀ p, s.pinged = some p →
      p ≤ s.earlier.length ∧ (s.notify.Signalled ∨ s.Covers json p s.pos))
    (hcomplete : s.Complete json found) : Inv json found s := by
  refine ⟨hvalid, hpinged, ?_, ?_, hcomplete⟩
  · rintro cfg (hwriting | hreplacing)
    · exact absurd hwriting (hidle cfg).1
    · exact absurd hreplacing (hidle cfg).2
  · intro cfg hreplacing
    exact absurd hreplacing (hidle cfg).2

/-! #### One lemma for each step -/

theorem Inv.stored (h : Inv json found s) (new : Config) :
    Inv json found { s with store := new, earlier := s.earlier ++ [s.store] } := by
  have hmem : ∀ cfg ∈ s.history, cfg ∈ s.history ++ [new] :=
    fun cfg hcfg => List.mem_append_left _ hcfg
  refine ⟨h.valid, fun p hp => ?_, fun cfg hcfg => hmem cfg (h.held cfg hcfg), h.tmp, ?_⟩
  · obtain ⟨hle, hcovered⟩ := h.pinged p hp
    have hlength : p ≤ (s.earlier ++ [s.store]).length := by
      rw [List.length_append]
      omega
    refine ⟨hlength, hcovered.imp_right fun hcovers => ?_⟩
    show Covers json _ p s.pos
    cases hpos : s.pos with
    | waiting =>
      rw [hpos] at hcovers
      obtain ⟨cfg, hsince, hdisk⟩ := hcovers
      exact ⟨cfg, hsince.after_store new, hdisk⟩
    | sleeping => trivial
    | draining => trivial
    | loading => trivial
    | writing cfg =>
      rw [hpos] at hcovers
      exact Since.after_store hcovers new
    | replacing cfg =>
      rw [hpos] at hcovers
      exact Since.after_store hcovers new
  · have hcomplete := h.complete
    unfold Complete at hcomplete ⊢
    cases hsaved : s.saved with
    | true =>
      rw [hsaved, if_pos rfl] at hcomplete
      obtain ⟨cfg, hcfg, hdisk⟩ := hcomplete
      rw [if_pos rfl]
      exact ⟨cfg, hmem cfg hcfg, hdisk⟩
    | false =>
      rw [hsaved, if_neg Bool.false_ne_true] at hcomplete
      rw [if_neg Bool.false_ne_true]
      exact hcomplete

/-- A ping is on its way from the moment it is sent. -/
theorem Inv.ping (h : Inv json found s) :
    Inv json found { s with notify := s.notify.notifyOne, pinged := some s.earlier.length } := by
  refine ⟨Notify.valid_notifyOne _, fun p hp => ?_, h.held, h.tmp, h.complete⟩
  obtain rfl := Option.some.inj hp
  exact ⟨le_rfl, Or.inl (Notify.signalled_notifyOne _)⟩

/-- A poll at the outer wait takes the notification along, or finds that there is none. -/
theorem Inv.poll_waiting (h : Inv json found s) (hpos : s.pos = .waiting) :
    Inv json found { s with
      notify := s.notify.poll.2
      pos := if s.notify.poll.1 then .sleeping else .waiting } := by
  have hready := Notify.poll_ready_iff h.valid
  cases hpoll : s.notify.poll.1 with
  | true =>
    refine .of_idle (fun _ => ⟨nofun, nofun⟩) (Notify.valid_poll h.valid) (fun p hp => ?_) h.complete
    exact ⟨(h.pinged p hp).1, Or.inr trivial⟩
  | false =>
    have hnone : ¬ s.notify.Signalled := by
      intro hsignalled
      rw [hready.2 hsignalled] at hpoll
      cases hpoll
    refine .of_idle (fun _ => ⟨nofun, nofun⟩) (Notify.valid_poll h.valid) (fun p hp => ?_) h.complete
    obtain ⟨hle, hcovered⟩ := h.pinged p hp
    refine ⟨hle, Or.inr ?_⟩
    have hcovers := hcovered.resolve_left hnone
    rw [hpos] at hcovers
    exact hcovers

/-- Before the snapshot is loaded, nothing that happens to the notification matters. -/
theorem Inv.before_load (h : Inv json found s) {n : Notify} (hn : n.Valid) {pos : SaverPos}
    (hpos : pos = .draining ∨ pos = .loading) :
    Inv json found { s with notify := n, pos := pos } := by
  have hcovered : ∀ p, s.pinged = some p → p ≤ s.earlier.length := fun p hp => (h.pinged p hp).1
  rcases hpos with rfl | rfl
  · exact .of_idle (fun _ => ⟨nofun, nofun⟩) hn (fun p hp => ⟨hcovered p hp, Or.inr trivial⟩)
      h.complete
  · exact .of_idle (fun _ => ⟨nofun, nofun⟩) hn (fun p hp => ⟨hcovered p hp, Or.inr trivial⟩)
      h.complete

/-- The snapshot is taken after every ping so far. -/
theorem Inv.load (h : Inv json found s) : Inv json found { s with pos := .writing s.store } := by
  refine ⟨h.valid, fun p hp => ?_, ?_, ?_, h.complete⟩
  · have hle := (h.pinged p hp).1
    exact ⟨hle, Or.inr (since_store hle)⟩
  · rintro cfg (hcfg | hcfg)
    · cases hcfg
      exact s.store_mem_history
    · cases hcfg
  · intro cfg hcfg
    cases hcfg

theorem Inv.writeSome (h : Inv json found s) {cfg : Config} (hpos : s.pos = .writing cfg)
    (text : String) : Inv json found { s with tmp := some text } := by
  refine ⟨h.valid, h.pinged, h.held, fun cfg' hcfg => ?_, h.complete⟩
  rw [show s.pos = .replacing cfg' from hcfg] at hpos
  cases hpos

theorem Inv.write (h : Inv json found s) {cfg : Config} (hpos : s.pos = .writing cfg) :
    Inv json found { s with tmp := some (cfg.saveToFile json), pos := .replacing cfg } := by
  refine ⟨h.valid, fun p hp => ?_, ?_, ?_, h.complete⟩
  · obtain ⟨hle, hcovered⟩ := h.pinged p hp
    rw [hpos] at hcovered
    exact ⟨hle, hcovered⟩
  · rintro cfg' (hcfg | hcfg)
    · cases hcfg
    · cases hcfg
      exact h.held cfg (Or.inl hpos)
  · intro cfg' hcfg
    cases hcfg
    rfl

/-- The snapshot becomes the file; a ping since it was loaded is still notified. -/
theorem Inv.rename (h : Inv json found s) {cfg : Config} (hpos : s.pos = .replacing cfg) :
    Inv json found { s with disk := s.tmp, tmp := none, pos := .waiting, saved := true } := by
  have htmp := h.tmp cfg hpos
  refine .of_idle (fun _ => ⟨nofun, nofun⟩) h.valid (fun p hp => ?_) ?_
  · obtain ⟨hle, hcovered⟩ := h.pinged p hp
    rw [hpos] at hcovered
    exact ⟨hle, hcovered.imp_right fun hsince => ⟨cfg, hsince, htmp⟩⟩
  · exact ⟨cfg, h.held cfg (Or.inr hpos), htmp⟩

/-- **Every step keeps the invariant.** -/
theorem Inv.step {e : SaverEvent} (h : Inv json found s) (hst : s.step json e = some t) :
    Inv json found t := by
  cases e with
  | store new =>
    cases hst
    exact h.stored new
  | ping =>
    cases hst
    exact h.ping
  | poll =>
    simp only [SaverState.step] at hst
    split at hst
    · rename_i hpos
      cases hst
      exact h.poll_waiting hpos
    · rename_i hpos
      cases hst
      have hnext := h.before_load (Notify.valid_poll h.valid) (Or.inl rfl)
      rw [← hpos] at hnext
      exact hnext
    · cases hst
  | slept =>
    simp only [SaverState.step] at hst
    split at hst
    · cases hst
      exact h.before_load h.valid (Or.inl rfl)
    · cases hst
  | timeout =>
    simp only [SaverState.step] at hst
    split at hst
    · cases hst
      exact h.before_load (Notify.valid_drop _) (Or.inr rfl)
    · cases hst
  | load =>
    simp only [SaverState.step] at hst
    split at hst
    · cases hst
      exact h.load
    · cases hst
  | writeSome chars =>
    simp only [SaverState.step] at hst
    split at hst
    · rename_i hpos
      cases hst
      exact h.writeSome hpos _
    · cases hst
  | write =>
    simp only [SaverState.step] at hst
    split at hst
    · rename_i hpos
      cases hst
      exact h.write hpos
    · cases hst
  | rename =>
    simp only [SaverState.step] at hst
    split at hst
    · rename_i hpos
      cases hst
      exact h.rename hpos
    · cases hst

theorem inv_start (json : ConfigText) (found : Option String) (cfg : Config) :
    Inv json found (start cfg found) :=
  .of_idle (fun _ => ⟨nofun, nofun⟩) nofun nofun rfl

/-! ### No ping is lost -/

/-- The task is at the outer wait, and no notification is on its way to it. -/
def Parked (s : SaverState) : Prop := s.pos = .waiting ∧ ¬ s.notify.Signalled

/-- **No ping is lost**: when the task is parked, the file is the configuration of the last ping or
a later one; and the file is always complete, the one that was found until the first save, and then
a snapshot the store has held. -/
structure PingsKept (json : ConfigText) (found : Option String) (s : SaverState) : Prop where
  parked : s.Parked → ∀ p, s.pinged = some p →
    ∃ cfg, s.Since p cfg ∧ s.disk = some (cfg.saveToFile json)
  complete : s.Complete json found

theorem Inv.pingsKept (h : Inv json found s) : PingsKept json found s := by
  refine ⟨fun hparked p hp => ?_, h.complete⟩
  have hcovers := (h.pinged p hp).2.resolve_left hparked.2
  rw [hparked.1] at hcovers
  exact hcovers

end

/-- **In every run of handlers and task, no ping is lost.** -/
theorem pings_kept {json : ConfigText} {found : Option String} {cfg : Config}
    {r : List (SaverEvent × SaverState)} (hr : IsRun json (start cfg found) r) :
    Always (PingsKept json found) (start cfg found) r :=
  (always_of_inv (P := Inv json found) (fun _ _ _ h hst => h.step hst)
    (inv_start json found cfg) hr).mono fun _ h => h.pingsKept

/-- A run in which the second store and ping come between the load and the rename; when the task
waits again, the file is the second configuration. -/
theorem pings_kept_two :
    ∃ r, IsRun (keyText "sk-2") (start {} none) r ∧
      Always (PingsKept (keyText "sk-2") none) (start {} none) r ∧
      (Runs.final (start {} none) r).Parked ∧
      (Runs.final (start {} none) r).disk =
        some (Config.saveToFile (keyText "sk-2") { apiKey := "sk-2" }) := by
  obtain ⟨r, hr, hparked, hpinged, hhistory⟩ : ∃ r, IsRun (keyText "sk-2") (start {} none) r ∧
      (Runs.final (start {} none) r).Parked ∧ (Runs.final (start {} none) r).pinged = some 2 ∧
      (Runs.final (start {} none) r).history =
        [{}, { apiKey := "sk-1" }, { apiKey := "sk-2" }] :=
    ⟨[(.store { apiKey := "sk-1" }, _), (.ping, _), (.poll, _), (.slept, _), (.timeout, _),
        (.load, _), (.store { apiKey := "sk-2" }, _), (.ping, _), (.write, _), (.rename, _),
        (.poll, _), (.slept, _), (.timeout, _), (.load, _), (.write, _), (.rename, _), (.poll, _)],
      ⟨rfl, rfl, rfl, rfl, rfl, rfl, rfl, rfl, rfl, rfl, rfl, rfl, rfl, rfl, rfl, rfl, rfl,
        trivial⟩, ⟨rfl, by rintro (h | h) <;> cases h⟩, rfl, rfl⟩
  have hkept := pings_kept hr
  refine ⟨r, hr, hkept, hparked, ?_⟩
  -- the last ping was for the third configuration of the store, and there is no later one
  obtain ⟨cfg, ⟨i, hi, hget⟩, hdisk⟩ := hkept.final.parked hparked 2 hpinged
  rw [hhistory] at hget
  have hlt : i < 3 := (List.getElem?_eq_some_iff.1 hget).1
  obtain rfl : i = 2 := by omega
  rw [hdisk, ← Option.some.inj hget]

/-- Before the first save the file is the one that was found, which may be none. -/
theorem file_missing_at_start :
    ¬ ∀ (json : ConfigText) (found : Option String) (cfg : Config)
      (r : List (SaverEvent × SaverState)), IsRun json (start cfg found) r →
        Always (fun s => ∃ cfg ∈ s.history, s.disk = some (cfg.saveToFile json))
          (start cfg found) r := by
  intro hclaim
  obtain ⟨cfg, -, hdisk⟩ := hclaim (keyText "") none {} [] trivial
  cases hdisk

end SaverState

end Mybro
