import Mathlib.Logic.Hydra
import Mybro.Lib.Runs

/-!
# Runs that come to an end

Termination of a labelled transition relation, as far as its steps meet a condition.

* `Halts step C s`: no run from `s` whose steps all meet `C` goes on for ever (`Halts.not_forever`),
  so some run of such steps leads to a state where none is possible (`Halts.exists_blocked`);
* `Blocked step C s`: no step that meets `C` is possible in `s`;
* `halts_of_components`: the state has finitely many components, and each step makes one of them
  smaller and leaves the others alone.
-/

namespace Runs

variable {S L : Type} {step : S → L → S → Prop} {C D : S → L → Prop}

/-- Every run from `s` whose steps all meet `C` comes to an end. -/
def Halts (step : S → L → S → Prop) (C : S → L → Prop) (s : S) : Prop :=
  Acc (fun t s => ∃ l, C s l ∧ step s l t) s

/-- No step that meets `C` is possible. -/
def Blocked (step : S → L → S → Prop) (C : S → L → Prop) (s : S) : Prop :=
  ∀ l t, C s l → ¬ step s l t

theorem Halts.mono (hCD : ∀ s l, C s l → D s l) {s : S} (h : Halts step D s) : Halts step C s := by
  induction h with
  | intro s _ ih =>
    refine ⟨s, ?_⟩
    rintro t ⟨l, hC, hst⟩
    exact ih t ⟨l, hCD s l hC, hst⟩

/-- There is no infinite run. -/
theorem Halts.not_forever {s : S} (h : Halts step C s) :
    ¬ ∃ f : ℕ → S, f 0 = s ∧ ∀ n, ∃ l, C (f n) l ∧ step (f n) l (f (n + 1)) := by
  induction h with
  | intro s _ ih =>
    rintro ⟨f, rfl, hf⟩
    exact ih (f 1) (hf 0) ⟨fun n => f (n + 1), rfl, fun n => hf (n + 1)⟩

/-- Some run goes as far as it can. -/
theorem Halts.exists_blocked {s : S} (h : Halts step C s) :
    ∃ r, IsRun step s r ∧ EachStep C s r ∧ Blocked step C (final s r) := by
  induction h with
  | intro s _ ih =>
    by_cases hs : Blocked step C s
    · exact ⟨[], trivial, trivial, hs⟩
    · simp only [Blocked, not_forall, not_not] at hs
      obtain ⟨l, t, hC, hst⟩ := hs
      obtain ⟨r, hr, hCr, hblocked⟩ := ih t ⟨l, hC, hst⟩
      exact ⟨(l, t) :: r, ⟨hst, hr⟩, ⟨hC, hCr⟩, hblocked⟩

section Components

variable {ι β : Type} [DecidableEq ι] {r : β → β → Prop} {f g : ι → β} {D : Finset ι}

/-- The components as a multiset, one of them replaced by a smaller one. -/
theorem cutExpand_components {i : ι} (hi : i ∈ D) (hless : r (g i) (f i))
    (hrest : ∀ j ∈ D, j ≠ i → g j = f j) :
    Relation.CutExpand r (D.val.map g) (D.val.map f) := by
  have hsplit : D.val = i ::ₘ (D.erase i).val := by
    rw [Finset.erase_val, Multiset.cons_erase hi]
  have hsame : (D.erase i).val.map g = (D.erase i).val.map f := by
    refine Multiset.map_congr rfl fun j hj => ?_
    have hj' : j ∈ D.erase i := hj
    rw [Finset.mem_erase] at hj'
    exact hrest j hj'.2 hj'.1
  rw [hsplit, Multiset.map_cons, Multiset.map_cons, hsame, ← Multiset.singleton_add,
    ← Multiset.singleton_add]
  exact Relation.cutExpand_single_add hless _

/-- **Termination by components**: among the states that satisfy `P`, each step that meets `C` makes
one of finitely many components smaller and keeps the others. -/
theorem halts_of_components (hr : WellFounded r) {P : S → Prop}
    (hP : ∀ s l t, P s → C s l → step s l t → P t) (D : Finset ι) (f : S → ι → β)
    (hstep : ∀ s l t, P s → C s l → step s l t →
      ∃ i ∈ D, r (f t i) (f s i) ∧ ∀ j ∈ D, j ≠ i → f t j = f s j)
    {s : S} (hs : P s) : Halts step C s := by
  have hacc : Acc (Relation.CutExpand r) (D.val.map (f s)) := hr.cutExpand.apply _
  generalize hm : D.val.map (f s) = m at hacc
  induction hacc generalizing s with
  | intro m _ ih =>
    subst hm
    refine ⟨s, ?_⟩
    rintro t ⟨l, hC, hst⟩
    obtain ⟨i, hi, hless, hrest⟩ := hstep s l t hs hC hst
    exact ih _ (cutExpand_components hi hless hrest) (hP s l t hs hC hst) rfl

end Components

end Runs
