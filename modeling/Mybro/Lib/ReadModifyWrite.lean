import Mathlib.Tactic

/-!
# Updates that read, modify and write

Any number of requests share a value. Each loads it, modifies its private copy, and stores the copy;
the steps of different requests may come in any order.

* `Cell`, `step`: the value with the phases of the requests, and one step of a request;
* `Current apply s e`: when `e` is a store, the copy is what the update makes of the present value;
* `Inv`: the value is made by the updates in the order in which they were stored;
* `serial_of_inv`: when every request has stored, the value is that of a serial execution.
-/

namespace ReadModifyWrite

variable {V U : Type}

/-- What a request has done. -/
inductive Phase (V U : Type)
  | absent
  | accepted (u : U)
  | loaded (u : U) (copy : V)
  | modified (u : U) (new : V)
  | stored (u : U) (new : V)
  | finished (u : U)

namespace Phase

/-- The update of the request. -/
def update : Phase V U → Option U
  | absent => none
  | accepted u | loaded u _ | modified u _ | stored u _ | finished u => some u

/-- The update, when it has been stored. -/
def written : Phase V U → Option U
  | stored u _ | finished u => some u
  | _ => none

/-- Whether the request is not under way, or is past its store. -/
def Done (p : Phase V U) : Prop := p.written = p.update

end Phase

/-- The value, the requests by number, those that were accepted, and those that have stored, in the
order of their stores. -/
structure Cell (V U : Type) where
  value : V
  phase : ℕ → Phase V U := fun _ => .absent
  accepted : List (ℕ × U) := []
  log : List (ℕ × U) := []

/-- A step of request `i`. -/
inductive Event (U : Type)
  | accept (i : ℕ) (u : U)
  | load (i : ℕ)
  | modify (i : ℕ)
  | store (i : ℕ)
  | finish (i : ℕ)

namespace Cell

/-- The request moves to another phase. -/
def move (s : Cell V U) (i : ℕ) (p : Phase V U) : Cell V U :=
  { s with phase := Function.update s.phase i p }

/-- One step. -/
def step (apply : U → V → V) (s : Cell V U) : Event U → Option (Cell V U)
  | .accept i u =>
    match s.phase i with
    | .absent => some { s.move i (.accepted u) with accepted := s.accepted ++ [(i, u)] }
    | _ => none
  | .load i =>
    match s.phase i with
    | .accepted u => some (s.move i (.loaded u s.value))
    | _ => none
  | .modify i =>
    match s.phase i with
    | .loaded u copy => some (s.move i (.modified u (apply u copy)))
    | _ => none
  | .store i =>
    match s.phase i with
    | .modified u new =>
      some { s.move i (.stored u new) with value := new, log := s.log ++ [(i, u)] }
    | _ => none
  | .finish i =>
    match s.phase i with
    | .stored u _ => some (s.move i (.finished u))
    | _ => none

/-- What is stored is what the update makes of the present value. -/
def Current (apply : U → V → V) (s : Cell V U) : Event U → Prop
  | .store i => ∀ u new, s.phase i = .modified u new → new = apply u s.value
  | _ => True

/-- The updates one after another. -/
def serial (apply : U → V → V) (v : V) (us : List U) : V := us.foldl (fun v u => apply u v) v

theorem serial_concat (apply : U → V → V) (v : V) (us : List U) (u : U) :
    serial apply v (us ++ [u]) = apply u (serial apply v us) := by
  unfold serial
  rw [List.foldl_append]
  rfl

/-- The value is made by the updates stored so far, in their order; both lists say what the phases
say. -/
structure Inv (apply : U → V → V) (v : V) (s : Cell V U) : Prop where
  value : s.value = serial apply v (s.log.map Prod.snd)
  accepted : ∀ i u, (i, u) ∈ s.accepted ↔ (s.phase i).update = some u
  log : ∀ i u, (i, u) ∈ s.log ↔ (s.phase i).written = some u
  nodup_accepted : s.accepted.Nodup
  nodup_log : s.log.Nodup

section

variable {apply : U → V → V} {v : V} {s t : Cell V U} {e : Event U} {i : ℕ}

theorem inv_start (apply : U → V → V) (v : V) : Inv apply v { value := v } where
  value := rfl
  accepted := by simp [Phase.update]
  log := by simp [Phase.written]
  nodup_accepted := List.nodup_nil
  nodup_log := List.nodup_nil

/-- Membership in a list that a move does not concern. -/
theorem mem_iff_of_move {l : List (ℕ × U)} {f : Phase V U → Option U} {p : Phase V U}
    (hl : ∀ j w, (j, w) ∈ l ↔ f (s.phase j) = some w) (hsame : f p = f (s.phase i))
    (j : ℕ) (w : U) :
    (j, w) ∈ l ↔ f ((s.move i p).phase j) = some w := by
  rw [hl]
  by_cases hj : j = i
  · subst hj
    simp [Cell.move, hsame]
  · simp [Cell.move, hj]

/-- A move that keeps the update and whether it is stored changes nothing. -/
theorem Inv.move (h : Inv apply v s) {p : Phase V U} (hupdate : p.update = (s.phase i).update)
    (hwritten : p.written = (s.phase i).written) : Inv apply v (s.move i p) :=
  ⟨h.value, mem_iff_of_move h.accepted hupdate, mem_iff_of_move h.log hwritten, h.nodup_accepted,
    h.nodup_log⟩

/-- Membership in a list that grows by request `i`. -/
theorem mem_concat_iff {l : List (ℕ × U)} {u : U} {f : Phase V U → Option U} {p : Phase V U}
    (hl : ∀ j w, (j, w) ∈ l ↔ f (s.phase j) = some w) (hold : f (s.phase i) = none)
    (hnew : f p = some u) (j : ℕ) (w : U) :
    (j, w) ∈ l ++ [(i, u)] ↔ f ((s.move i p).phase j) = some w := by
  rw [List.mem_append, List.mem_singleton, hl]
  by_cases hj : j = i
  · subst hj
    simp [Cell.move, hold, hnew, eq_comm]
  · simp [Cell.move, hj]

theorem nodup_concat {l : List (ℕ × U)} {u : U} {f : Phase V U → Option U} (hnodup : l.Nodup)
    (hl : ∀ j w, (j, w) ∈ l ↔ f (s.phase j) = some w) (hold : f (s.phase i) = none) :
    (l ++ [(i, u)]).Nodup := by
  refine List.nodup_append.2 ⟨hnodup, List.nodup_singleton _, fun a ha b hb hab => ?_⟩
  rw [List.mem_singleton.1 hb] at hab
  rw [hab, hl, hold] at ha
  cases ha

/-- **Every step that is current keeps the invariant.** -/
theorem Inv.step (h : Inv apply v s) (hcurrent : s.Current apply e)
    (hst : s.step apply e = some t) :
    Inv apply v t := by
  cases e with
  | accept i u =>
    simp only [Cell.step] at hst
    split at hst
    · rename_i hphase
      cases hst
      have hupdate : (s.phase i).update = none := by rw [hphase]; rfl
      exact ⟨h.value, mem_concat_iff h.accepted hupdate rfl,
        mem_iff_of_move h.log (by rw [hphase]; rfl),
        nodup_concat h.nodup_accepted h.accepted hupdate, h.nodup_log⟩
    · cases hst
  | load i =>
    simp only [Cell.step] at hst
    split at hst
    · rename_i hphase
      cases hst
      exact h.move (by rw [hphase]; rfl) (by rw [hphase]; rfl)
    · cases hst
  | modify i =>
    simp only [Cell.step] at hst
    split at hst
    · rename_i hphase
      cases hst
      exact h.move (by rw [hphase]; rfl) (by rw [hphase]; rfl)
    · cases hst
  | store i =>
    simp only [Cell.step] at hst
    split at hst
    · rename_i u new hphase
      cases hst
      have hwritten : (s.phase i).written = none := by rw [hphase]; rfl
      refine ⟨?_, mem_iff_of_move h.accepted (by rw [hphase]; rfl),
        mem_concat_iff h.log hwritten rfl, h.nodup_accepted,
        nodup_concat h.nodup_log h.log hwritten⟩
      rw [List.map_append]
      show new = serial apply v (s.log.map Prod.snd ++ [u])
      rw [serial_concat, ← h.value]
      exact hcurrent u new hphase
    · cases hst
  | finish i =>
    simp only [Cell.step] at hst
    split at hst
    · rename_i hphase
      cases hst
      exact h.move (by rw [hphase]; rfl) (by rw [hphase]; rfl)
    · cases hst

/-- A request that has stored waits for its own end. -/
theorem stored_of_step {j : ℕ} {u : U} {new : V} (hphase : s.phase j = .stored u new)
    (hst : s.step apply e = some t) (he : e ≠ .finish j) : t.phase j = .stored u new := by
  have hmove : ∀ {i : ℕ} {p : Phase V U}, i ≠ j → (s.move i p).phase j = .stored u new := by
    intro i p hi
    rw [← hphase]
    exact Function.update_of_ne hi.symm _ _
  cases e with
  | accept i w =>
    simp only [Cell.step] at hst
    split at hst
    · rename_i hi
      cases hst
      exact hmove fun hij => by rw [hij, hphase] at hi; cases hi
    · cases hst
  | load i =>
    simp only [Cell.step] at hst
    split at hst
    · rename_i hi
      cases hst
      exact hmove fun hij => by rw [hij, hphase] at hi; cases hi
    · cases hst
  | modify i =>
    simp only [Cell.step] at hst
    split at hst
    · rename_i hi
      cases hst
      exact hmove fun hij => by rw [hij, hphase] at hi; cases hi
    · cases hst
  | store i =>
    simp only [Cell.step] at hst
    split at hst
    · rename_i hi
      cases hst
      exact hmove fun hij => by rw [hij, hphase] at hi; cases hi
    · cases hst
  | finish i =>
    simp only [Cell.step] at hst
    split at hst
    · cases hst
      exact hmove fun hij => he (by rw [hij])
    · cases hst

/-- Only a store changes the value. -/
theorem value_of_step (hst : s.step apply e = some t) (he : ∀ i, e ≠ .store i) :
    t.value = s.value := by
  cases e with
  | store i => exact absurd rfl (he i)
  | accept i u =>
    simp only [Cell.step] at hst
    split at hst <;> cases hst
    rfl
  | load i =>
    simp only [Cell.step] at hst
    split at hst <;> cases hst
    rfl
  | modify i =>
    simp only [Cell.step] at hst
    split at hst <;> cases hst
    rfl
  | finish i =>
    simp only [Cell.step] at hst
    split at hst <;> cases hst
    rfl

/-- What a store does. -/
theorem store_cases (hst : s.step apply (.store i) = some t) :
    ∃ u new, s.phase i = .modified u new ∧ t.phase i = .stored u new ∧ t.value = new := by
  simp only [Cell.step] at hst
  split at hst
  · rename_i u new hphase
    cases hst
    exact ⟨u, new, hphase, Function.update_self _ _ _, rfl⟩
  · cases hst

/-- What an end does. -/
theorem finish_cases (hst : s.step apply (.finish i) = some t) :
    ∃ u new, s.phase i = .stored u new := by
  simp only [Cell.step] at hst
  split at hst
  · rename_i u new hphase
    exact ⟨u, new, hphase⟩
  · cases hst

/-- **When every request that was accepted has stored**, the value is that of all their updates, one
after another in some order. -/
theorem serial_of_inv (h : Inv apply v s) (hdone : ∀ i, (s.phase i).Done) :
    ∃ order : List U, order.Perm (s.accepted.map Prod.snd) ∧ s.value = serial apply v order := by
  have hperm : s.log.Perm s.accepted := by
    rw [List.perm_ext_iff_of_nodup h.nodup_log h.nodup_accepted]
    rintro ⟨i, u⟩
    rw [h.log, h.accepted, hdone i]
  exact ⟨s.log.map Prod.snd, hperm.map _, h.value⟩

end

end Cell

end ReadModifyWrite
