import Mathlib.Tactic

/-!
# Runs of a labelled transition relation

A run is the list of its steps, each step with its label and the state it leads to.

* `IsRun step s r`: the steps of `r` follow one another from `s`;
* `Always P s r`: every state of the run, `s` included, satisfies `P`;
* `EachStep C s r`: every step of the run meets `C`, a condition on the label and on the state
  before the step;
* `final s r`: the state the run ends in.

The invariant rule is `always_of_step`; `always_iff_eachStep` says that a condition on the steps
is exact when a single step keeps `P` if and only if it meets the condition.
-/

namespace Runs

variable {S L : Type} {step : S → L → S → Prop}

/-- From `s`, the labels and states of the list follow one another by `step`. -/
def IsRun (step : S → L → S → Prop) : S → List (L × S) → Prop
  | _, [] => True
  | s, (l, t) :: r => step s l t ∧ IsRun step t r

/-- Every state of the run satisfies `P`. -/
def Always (P : S → Prop) : S → List (L × S) → Prop
  | s, [] => P s
  | s, (_, t) :: r => P s ∧ Always P t r

/-- Every step of the run meets `C` in the state before it. -/
def EachStep (C : S → L → Prop) : S → List (L × S) → Prop
  | _, [] => True
  | s, (l, t) :: r => C s l ∧ EachStep C t r

/-- The last state of the run. -/
def final : S → List (L × S) → S
  | s, [] => s
  | _, (_, t) :: r => final t r

@[simp] theorem final_cons (s t : S) (l : L) (r : List (L × S)) :
    final s ((l, t) :: r) = final t r := rfl

theorem Always.start {P : S → Prop} {s : S} {r : List (L × S)} (h : Always P s r) : P s := by
  cases r with
  | nil => exact h
  | cons e r => exact h.1

theorem Always.mono {P Q : S → Prop} (hPQ : ∀ s, P s → Q s) {s : S} {r : List (L × S)}
    (h : Always P s r) : Always Q s r := by
  induction r generalizing s with
  | nil => exact hPQ s h
  | cons e r ih => exact ⟨hPQ s h.1, ih h.2⟩

theorem Always.final {P : S → Prop} {s : S} {r : List (L × S)} (h : Always P s r) :
    P (final s r) := by
  induction r generalizing s with
  | nil => exact h
  | cons e r ih => exact ih h.2

/-- **The invariant rule**: what every step that meets `C` keeps, holds throughout a run whose
steps all meet `C`. -/
theorem always_of_step {P : S → Prop} {C : S → L → Prop}
    (hstep : ∀ s l t, P s → C s l → step s l t → P t) {s : S} {r : List (L × S)}
    (hs : P s) (hr : IsRun step s r) (hC : EachStep C s r) : Always P s r := by
  induction r generalizing s with
  | nil => exact hs
  | cons e r ih => exact ⟨hs, ih (hstep s e.1 e.2 hs hC.1 hr.1) hr.2 hC.2⟩

theorem eachStep_true (s : S) (r : List (L × S)) : EachStep (fun _ _ => True) s r := by
  induction r generalizing s with
  | nil => trivial
  | cons e r ih => exact ⟨trivial, ih e.2⟩

theorem EachStep.mono {C D : S → L → Prop} (hCD : ∀ s l, C s l → D s l) {s : S} {r : List (L × S)}
    (h : EachStep C s r) : EachStep D s r := by
  induction r generalizing s with
  | nil => trivial
  | cons e r ih => exact ⟨hCD s e.1 h.1, ih h.2⟩

theorem EachStep.and {C D : S → L → Prop} {s : S} {r : List (L × S)} (h : EachStep C s r)
    (h' : EachStep D s r) : EachStep (fun s l => C s l ∧ D s l) s r := by
  induction r generalizing s with
  | nil => trivial
  | cons e r ih => exact ⟨⟨h.1, h'.1⟩, ih h.2 h'.2⟩

/-- What the invariant says about each step. -/
theorem eachStep_of_step {P : S → Prop} {C D : S → L → Prop}
    (hstep : ∀ s l t, P s → C s l → step s l t → P t)
    (hD : ∀ s l t, P s → C s l → step s l t → D s l) {s : S} {r : List (L × S)} (hs : P s)
    (hr : IsRun step s r) (hC : EachStep C s r) : EachStep D s r := by
  induction r generalizing s with
  | nil => trivial
  | cons e r ih =>
    exact ⟨hD s e.1 e.2 hs hC.1 hr.1, ih (hstep s e.1 e.2 hs hC.1 hr.1) hr.2 hC.2⟩

/-- The invariant rule without a condition on the steps. -/
theorem always_of_inv {P : S → Prop} (hstep : ∀ s l t, P s → step s l t → P t) {s : S}
    {r : List (L × S)} (hs : P s) (hr : IsRun step s r) : Always P s r :=
  always_of_step (C := fun _ _ => True) (fun s l t h _ hst => hstep s l t h hst) hs hr
    (eachStep_true s r)

/-- **The exactness rule**: when, among the states that satisfy the invariant `J`, a step from a
state with `P` keeps `P` if and only if it meets `C`, then `P` holds throughout a run if and only
if all its steps meet `C`. -/
theorem always_iff_eachStep {J P : S → Prop} {C : S → L → Prop}
    (hJ : ∀ s l t, J s → step s l t → J t)
    (hstep : ∀ s l t, J s → P s → step s l t → (P t ↔ C s l)) {s : S} {r : List (L × S)}
    (hjs : J s) (hs : P s) (hr : IsRun step s r) : Always P s r ↔ EachStep C s r := by
  induction r generalizing s with
  | nil => exact ⟨fun _ => trivial, fun _ => hs⟩
  | cons e r ih =>
    obtain ⟨l, t⟩ := e
    have hjt : J t := hJ s l t hjs hr.1
    have hPC : P t ↔ C s l := hstep s l t hjs hs hr.1
    constructor
    · rintro ⟨-, ht⟩
      exact ⟨hPC.1 ht.start, (ih hjt ht.start hr.2).1 ht⟩
    · rintro ⟨hC, hrest⟩
      have hPt : P t := hPC.2 hC
      exact ⟨hs, (ih hjt hPt hr.2).2 hrest⟩

/-- **The measure rule**: when, among the states that satisfy the invariant `J`, no step lowers the
measure `m` and a step keeps it if and only if it meets `C`, then the measure at the end of a run
is that of its start if and only if all its steps meet `C`. -/
theorem measure_final_iff_eachStep {J : S → Prop} {C : S → L → Prop} {m : S → ℕ}
    (hJ : ∀ s l t, J s → step s l t → J t)
    (hstep : ∀ s l t, J s → step s l t → m s ≤ m t ∧ (m t = m s ↔ C s l)) {s : S}
    {r : List (L × S)} (hjs : J s) (hr : IsRun step s r) :
    m s ≤ m (final s r) ∧ (m (final s r) = m s ↔ EachStep C s r) := by
  induction r generalizing s with
  | nil => exact ⟨le_rfl, fun _ => trivial, fun _ => rfl⟩
  | cons e r ih =>
    obtain ⟨l, t⟩ := e
    obtain ⟨hle, hiff⟩ := hstep s l t hjs hr.1
    obtain ⟨hle', hiff'⟩ := ih (hJ s l t hjs hr.1) hr.2
    refine ⟨hle.trans hle', fun h => ?_, fun h => ?_⟩
    · rw [final_cons] at h
      have ht : m t = m s := by omega
      exact ⟨hiff.1 ht, hiff'.1 (by omega)⟩
    · rw [final_cons, hiff'.2 h.2, hiff.2 h.1]

/-! ### From one state to another -/

/-- Some run leads from `s` to `t`. -/
def Leads (step : S → L → S → Prop) (s t : S) : Prop := ∃ r, IsRun step s r ∧ final s r = t

theorem Leads.refl (s : S) : Leads step s s := ⟨[], trivial, rfl⟩

theorem Leads.head {s t u : S} {l : L} (h : step s l t) (ht : Leads step t u) : Leads step s u := by
  obtain ⟨r, hr, hu⟩ := ht
  exact ⟨(l, t) :: r, ⟨h, hr⟩, hu⟩

theorem Leads.trans {s t u : S} (h : Leads step s t) (ht : Leads step t u) : Leads step s u := by
  obtain ⟨r, hr, rfl⟩ := h
  induction r generalizing s with
  | nil => exact ht
  | cons e r ih => exact .head hr.1 (ih hr.2 ht)

theorem Leads.one {s t : S} {l : L} (h : step s l t) : Leads step s t := .head h (.refl t)

/-- The invariant rule for the states that runs lead to. -/
theorem Leads.inv {P : S → Prop} (hstep : ∀ s l t, P s → step s l t → P t) {s t : S} (hs : P s)
    (h : Leads step s t) : P t := by
  obtain ⟨r, hr, rfl⟩ := h
  exact (always_of_inv hstep hs hr).final

/-- The steps that meet a condition. -/
def meeting (step : S → L → S → Prop) (C : S → L → Prop) (s : S) (l : L) (t : S) : Prop :=
  step s l t ∧ C s l

theorem isRun_meeting {C : S → L → Prop} {s : S} {r : List (L × S)}
    (h : IsRun (meeting step C) s r) : IsRun step s r ∧ EachStep C s r := by
  induction r generalizing s with
  | nil => exact ⟨trivial, trivial⟩
  | cons e r ih =>
    obtain ⟨hrest, hmeets⟩ := ih h.2
    exact ⟨⟨h.1.1, hrest⟩, h.1.2, hmeets⟩

/-- A run that leads somewhere by such steps. -/
theorem Leads.exists_run {C : S → L → Prop} {s t : S} (h : Leads (meeting step C) s t) :
    ∃ r, IsRun step s r ∧ EachStep C s r ∧ final s r = t := by
  obtain ⟨r, hr, hfinal⟩ := h
  exact ⟨r, (isRun_meeting hr).1, (isRun_meeting hr).2, hfinal⟩

theorem Leads.of_meeting {C : S → L → Prop} {s t : S} (h : Leads (meeting step C) s t) :
    Leads step s t := by
  obtain ⟨r, hr, -, hfinal⟩ := h.exists_run
  exact ⟨r, hr, hfinal⟩

/-- A run of a step function that may refuse a label. -/
def ofFun (f : S → L → Option S) (s : S) (l : L) (t : S) : Prop := f s l = some t

/-- The run of a step function along a list of labels, as long as none is refused. -/
def along (f : S → L → Option S) : S → List L → Option (List (L × S))
  | _, [] => some []
  | s, l :: ls => (f s l).bind fun t => (along f t ls).map ((l, t) :: ·)

theorem isRun_along {f : S → L → Option S} {s : S} {ls : List L} {r : List (L × S)}
    (h : along f s ls = some r) : IsRun (ofFun f) s r := by
  induction ls generalizing s r with
  | nil => cases h; trivial
  | cons l ls ih =>
    obtain ⟨t, hst, h⟩ := Option.bind_eq_some_iff.1 h
    obtain ⟨r', hr', rfl⟩ := Option.map_eq_some_iff.1 h
    exact ⟨hst, ih hr'⟩

end Runs
