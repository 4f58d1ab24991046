import Mybro.Lib.Prog
import Mybro.Lib.Runs

/-!
# Tasks over a shared state

Any number of tasks run programs over one shared state. A step starts a task, performs the next
effect of one of them, drops one, or is a step of the surroundings. Beside each task runs a monitor,
which takes in the answers the task has got.

* `System`: what the tasks run, what the effects mean in the shared state, and the surroundings;
* `Pool`, `step`: the shared state with the tasks, and one step;
* `step_cases`: what a step does;
* `allTasks_step`, `sat_step`: what holds of every task by itself, in particular what its program
  asserts (`Prog.Sat`), holds in every run.
-/

namespace Tasks

open Prog Runs

variable {Q L X σ M α : Type} {E : Type} {R : E → Type}

/-- `start q` is the program of a task of kind `q` with its monitor; `handle` interprets an effect
in the shared state, with what it finds outside (the monitor is there for ghost fields); `release`
is what dropping a task does to the shared state; `outer` is a step of the surroundings. -/
structure System (Q L X σ M E : Type) (R : E → Type) (α : Type) where
  start : Q → M × Prog E R α
  add : M → (e : E) → R e → M
  handle : L → M → (e : E) → σ → Option (R e × σ)
  release : M → σ → σ
  outer : X → σ → Option σ

/-- The shared state, and the tasks by number: the monitor of each with what is left of its program.
-/
structure Pool (σ M E : Type) (R : E → Type) (α : Type) where
  shared : σ
  task : ℕ → Option (M × Prog E R α) := fun _ => none

/-- What happens next. -/
inductive Event (Q L X : Type)
  | start (i : ℕ) (q : Q)
  | run (i : ℕ) (l : L)
  | drop (i : ℕ)
  | outer (x : X)

namespace System

variable (S : System Q L X σ M E R α)

/-- One step; `none` when it cannot happen. -/
def step (s : Pool σ M E R α) : Event Q L X → Option (Pool σ M E R α)
  | .start i q =>
    match s.task i with
    | none => some { s with task := Function.update s.task i (some (S.start q)) }
    | some _ => none
  | .run i l =>
    match s.task i with
    | some (m, .vis e k) =>
      (S.handle l m e s.shared).map fun r =>
        { shared := r.2, task := Function.update s.task i (some (S.add m e r.1, k r.1)) }
    | _ => none
  | .drop i =>
    (s.task i).map fun x =>
      { shared := S.release x.1 s.shared, task := Function.update s.task i none }
  | .outer x => (S.outer x s.shared).map fun t => { s with shared := t }

/-- A run of the tasks. -/
abbrev IsRun (s : Pool σ M E R α) (r : List (Event Q L X × Pool σ M E R α)) : Prop :=
  Runs.IsRun (ofFun S.step) s r

variable {S} {s t : Pool σ M E R α} {l : Event Q L X}

/-- **What a step does.** -/
theorem step_cases (h : S.step s l = some t) :
    (∃ i q, l = .start i q ∧ s.task i = none ∧
      t = ⟨s.shared, Function.update s.task i (some (S.start q))⟩) ∨
    (∃ i o m e k r u, l = .run i o ∧ s.task i = some (m, .vis e k) ∧
      S.handle o m e s.shared = some (r, u) ∧
      t = ⟨u, Function.update s.task i (some (S.add m e r, k r))⟩) ∨
    (∃ i m p, l = .drop i ∧ s.task i = some (m, p) ∧
      t = ⟨S.release m s.shared, Function.update s.task i none⟩) ∨
    (∃ x u, l = .outer x ∧ S.outer x s.shared = some u ∧ t = ⟨u, s.task⟩) := by
  cases l with
  | start i q =>
    simp only [step] at h
    split at h
    · rename_i hi
      exact Or.inl ⟨i, q, rfl, hi, (Option.some.inj h).symm⟩
    · cases h
  | run i o =>
    simp only [step] at h
    split at h
    · rename_i m e k hi
      obtain ⟨r, hr, rfl⟩ := Option.map_eq_some_iff.1 h
      exact Or.inr (Or.inl ⟨i, o, m, e, k, r.1, r.2, rfl, hi, hr, rfl⟩)
    · cases h
  | drop i =>
    obtain ⟨⟨m, p⟩, hi, rfl⟩ := Option.map_eq_some_iff.1 h
    exact Or.inr (Or.inr (Or.inl ⟨i, m, p, rfl, hi, rfl⟩))
  | outer x =>
    obtain ⟨u, hu, rfl⟩ := Option.map_eq_some_iff.1 h
    exact Or.inr (Or.inr (Or.inr ⟨x, u, rfl, hu, rfl⟩))

/-- Where a task stands after the tasks have changed in one place. -/
theorem update_eq_some {f : ℕ → Option (M × Prog E R α)} {i j : ℕ}
    {x : Option (M × Prog E R α)} {y : M × Prog E R α} (h : Function.update f i x j = some y) :
    (j = i ∧ x = some y) ∨ (j ≠ i ∧ f j = some y) := by
  by_cases hij : j = i
  · subst hij
    exact Or.inl ⟨rfl, by rwa [Function.update_self] at h⟩
  · exact Or.inr ⟨hij, by rwa [Function.update_of_ne hij] at h⟩

/-- Before a task has started, anything holds of every task. -/
theorem forall_none {P : ℕ → M → Prog E R α → Prop} :
    ∀ j n q, (none : Option (M × Prog E R α)) = some (n, q) → P j n q := by
  intro j n q h
  cases h

/-- What holds of every task after one has changed: it holds of that one, and of the others. -/
theorem forall_update {f : ℕ → Option (M × Prog E R α)} {i : ℕ} {m : M} {p : Prog E R α}
    {P : ℕ → M → Prog E R α → Prop} (hnew : P i m p)
    (hold : ∀ j n q, j ≠ i → f j = some (n, q) → P j n q) :
    ∀ j n q, Function.update f i (some (m, p)) j = some (n, q) → P j n q := by
  intro j n q hj
  rcases update_eq_some hj with ⟨rfl, heq⟩ | ⟨hij, hj⟩
  · cases heq
    exact hnew
  · exact hold j n q hij hj

/-- What holds of every task after one has been dropped. -/
theorem forall_erase {f : ℕ → Option (M × Prog E R α)} {i : ℕ} {P : ℕ → M → Prog E R α → Prop}
    (hold : ∀ j n q, j ≠ i → f j = some (n, q) → P j n q) :
    ∀ j n q, Function.update f i none j = some (n, q) → P j n q := by
  intro j n q hj
  rcases update_eq_some hj with ⟨-, heq⟩ | ⟨hij, hj⟩
  · cases heq
  · exact hold j n q hij hj

/-- What holds of every task, by itself. -/
def AllTasks (P : M → Prog E R α → Prop) (s : Pool σ M E R α) : Prop :=
  ∀ i m p, s.task i = some (m, p) → P m p

theorem AllTasks.update {P : M → Prog E R α → Prop} (hs : AllTasks P s) {i : ℕ} {m : M}
    {p : Prog E R α} (u : σ) (h : P m p) :
    AllTasks P ⟨u, Function.update s.task i (some (m, p))⟩ :=
  forall_update h fun j n q _ hj => hs j n q hj

theorem AllTasks.erase {P : M → Prog E R α → Prop} (hs : AllTasks P s) (i : ℕ) (u : σ) :
    AllTasks P ⟨u, Function.update s.task i none⟩ :=
  forall_erase fun j n q _ hj => hs j n q hj

/-- **The rule for properties of one task**: they hold when a task starts, and its own effects keep
them, whatever the answers. -/
theorem allTasks_step {P : M → Prog E R α → Prop} (hstart : ∀ q, P (S.start q).1 (S.start q).2)
    (hrun : ∀ m e k r, P m (.vis e k) → P (S.add m e r) (k r)) (hs : AllTasks P s)
    (h : S.step s l = some t) : AllTasks P t := by
  rcases step_cases h with ⟨i, q, -, -, rfl⟩ | ⟨i, o, m, e, k, r, u, -, hi, -, rfl⟩ |
    ⟨i, m, p, -, -, rfl⟩ | ⟨x, u, -, -, rfl⟩
  · exact hs.update s.shared (hstart q)
  · exact hs.update u (hrun m e k r (hs i m _ hi))
  · exact hs.erase i _
  · exact hs

/-- **What every program asserts, it asserts in every step of the tasks.** -/
theorem sat_step {I : M → E → Prop} {P : M → α → Prop}
    (hstart : ∀ q, Sat S.add I P (S.start q).2 (S.start q).1)
    (hs : AllTasks (fun m p => Sat S.add I P p m) s) (h : S.step s l = some t) :
    AllTasks (fun m p => Sat S.add I P p m) t :=
  allTasks_step hstart (fun _ _ _ r hsat => hsat.2 r) hs h

end System

end Tasks
