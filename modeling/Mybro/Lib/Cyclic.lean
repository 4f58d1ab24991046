import Mathlib.Tactic

/-!
# Going round a cycle

The positions `0, …, n - 1` in cyclic order from a cursor.

* `steps`: how far a position is from the cursor;
* `first`: the first position from the cursor on that satisfies a predicate;
* `Balanced`: how often the positions of a set have been found, when the cursor always moves just
  past the one found: those further on as often as those before them, or once more
  (`Balanced.next`). So each has been found its share of times, rounded down or up
  (`Balanced.count_eq`).
-/

namespace Cyclic

variable {n cursor idx j : ℕ}

/-- The number of steps from the cursor to a position. -/
def steps (n cursor idx : ℕ) : ℕ := (idx + n - cursor % n) % n

/-- The first position that satisfies `p`, from the cursor on. -/
def first (n : ℕ) (p : ℕ → Bool) (cursor : ℕ) : Option ℕ :=
  ((List.range n).map fun i => (cursor + i) % n).find? p

theorem steps_lt (cursor : ℕ) (h : idx < n) : steps n cursor idx < n := Nat.mod_lt _ (by omega)

/-- That many steps lead to the position. -/
theorem add_steps (cursor : ℕ) (h : idx < n) : (cursor + steps n cursor idx) % n = idx := by
  have hc : cursor % n < n := Nat.mod_lt _ (by omega)
  unfold steps
  rw [Nat.add_mod_mod, ← Nat.mod_add_mod,
    show cursor % n + (idx + n - cursor % n) = idx + n by omega, Nat.add_mod_right]
  exact Nat.mod_eq_of_lt h

/-- No other number of steps does, within one round. -/
theorem steps_eq {i : ℕ} (hi : i < n) (h : (cursor + i) % n = idx) : steps n cursor idx = i := by
  have hidx : idx < n := h ▸ Nat.mod_lt _ (by omega)
  have hmod : cursor + steps n cursor idx ≡ cursor + i [MOD n] :=
    (add_steps cursor hidx).trans h.symm
  exact (Nat.ModEq.add_left_cancel' cursor hmod).eq_of_lt_of_lt (steps_lt cursor hidx) hi

/-- Different positions are differently far. -/
theorem steps_inj (hidx : idx < n) (hj : j < n) (h : steps n cursor idx = steps n cursor j) :
    idx = j := by
  rw [← add_steps cursor hidx, h, add_steps cursor hj]

/-- What the search finds: it has passed over everything before. -/
theorem first_eq_some {p : ℕ → Bool} :
    first n p cursor = some idx ↔
      ∃ i < n, (cursor + i) % n = idx ∧ p idx = true ∧ ∀ k < i, p ((cursor + k) % n) = false := by
  unfold first
  rw [List.find?_map, Option.map_eq_some_iff]
  constructor
  · rintro ⟨i, hfind, rfl⟩
    obtain ⟨hp, hi, hbefore⟩ := List.find?_range_eq_some.1 hfind
    exact ⟨i, List.mem_range.1 hi, rfl, hp, fun k hk => by simpa using hbefore k hk⟩
  · rintro ⟨i, hi, rfl, hp, hbefore⟩
    exact ⟨i, List.find?_range_eq_some.2
      ⟨hp, List.mem_range.2 hi, fun k hk => by simpa using hbefore k hk⟩, rfl⟩

/-- **What the search finds**: the position that satisfies `p` and is nearest. -/
theorem first_eq_some_iff {p : ℕ → Bool} :
    first n p cursor = some idx ↔
      idx < n ∧ p idx = true ∧ ∀ j < n, p j = true → steps n cursor idx ≤ steps n cursor j := by
  rw [first_eq_some]
  constructor
  · rintro ⟨i, hi, rfl, hp, hbefore⟩
    refine ⟨Nat.mod_lt _ (by omega), hp, fun j hj hpj => ?_⟩
    rw [steps_eq hi rfl]
    by_contra hlt
    have hskip := hbefore (steps n cursor j) (by omega)
    rw [add_steps cursor hj, hpj] at hskip
    cases hskip
  · rintro ⟨hidx, hp, hnear⟩
    refine ⟨steps n cursor idx, steps_lt cursor hidx, add_steps cursor hidx, hp, fun k hk => ?_⟩
    have hkn : k < n := hk.trans (steps_lt cursor hidx)
    by_contra hpk
    have hle := hnear ((cursor + k) % n) (Nat.mod_lt _ (by omega)) (by simpa using hpk)
    rw [steps_eq hkn rfl] at hle
    omega

theorem first_eq_none_iff {p : ℕ → Bool} : first n p cursor = none ↔ ∀ j < n, p j = false := by
  unfold first
  rw [List.find?_map, Option.map_eq_none_iff, List.find?_range_eq_none]
  constructor
  · intro h j hj
    have hskip := h (steps n cursor j) (steps_lt cursor hj)
    simpa [add_steps cursor hj] using hskip
  · intro h i hi
    simp [h _ (Nat.mod_lt (cursor + i) (show 0 < n by omega))]

/-- The distances from just past a position: those behind it come last. -/
theorem steps_next (hidx : idx < n) (hj : j < n) :
    steps n ((idx + 1) % n) j =
      if steps n cursor idx < steps n cursor j then steps n cursor j - steps n cursor idx - 1
      else steps n cursor j + n - steps n cursor idx - 1 := by
  have hi' := steps_lt cursor hidx
  have hj' := steps_lt cursor hj
  have hmod : idx ≡ cursor + steps n cursor idx [MOD n] :=
    (Nat.mod_eq_of_lt hidx).trans (add_steps cursor hidx).symm
  have hpast : ∀ k, ((idx + 1) % n + k) % n = (cursor + steps n cursor idx + 1 + k) % n := fun k =>
    ((Nat.mod_modEq (idx + 1) n).add_right k).trans ((hmod.add_right 1).add_right k)
  split_ifs with h
  · refine steps_eq (by omega) ?_
    rw [hpast, show cursor + steps n cursor idx + 1 + (steps n cursor j - steps n cursor idx - 1) =
      cursor + steps n cursor j by omega]
    exact add_steps cursor hj
  · refine steps_eq (by omega) ?_
    rw [hpast, show cursor + steps n cursor idx + 1 +
      (steps n cursor j + n - steps n cursor idx - 1) = cursor + steps n cursor j + n by omega,
      Nat.add_mod_right]
    exact add_steps cursor hj

/-! ### Fairness -/

/-- How often the positions in `U` have been found: the nearer ones as often as the others, or once
less. -/
def Balanced (n : ℕ) (U : Finset ℕ) (cursor : ℕ) (count : ℕ → ℕ) : Prop :=
  ∀ i ∈ U, ∀ j ∈ U, steps n cursor i ≤ steps n cursor j → count i ≤ count j ∧ count j ≤ count i + 1

variable {U : Finset ℕ} {count : ℕ → ℕ}

theorem balanced_zero (n : ℕ) (U : Finset ℕ) (cursor : ℕ) : Balanced n U cursor fun _ => 0 :=
  fun _ _ _ _ _ => ⟨le_rfl, Nat.zero_le _⟩

/-- **The nearest one is found**, and becomes the one that is furthest. -/
theorem Balanced.next (h : Balanced n U cursor count) (hU : ∀ i ∈ U, i < n) (hidx : idx ∈ U)
    (hnear : ∀ j ∈ U, steps n cursor idx ≤ steps n cursor j) :
    Balanced n U ((idx + 1) % n) (Function.update count idx (count idx + 1)) := by
  -- a position other than the one found is further, so it comes nearer by the same distance
  have hfar : ∀ j ∈ U, j ≠ idx → steps n cursor idx < steps n cursor j := fun j hj hne =>
    (hnear j hj).lt_of_ne fun heq => hne (steps_inj (hU j hj) (hU idx hidx) heq.symm)
  have hsteps : ∀ j ∈ U, j ≠ idx →
      steps n ((idx + 1) % n) j = steps n cursor j - steps n cursor idx - 1 := fun j hj hne =>
    (steps_next (hU idx hidx) (hU j hj)).trans (if_pos (hfar j hj hne))
  have hlast : steps n ((idx + 1) % n) idx = n - 1 := by
    have hself := steps_lt cursor (hU idx hidx)
    refine (@steps_next n cursor idx idx (hU idx hidx) (hU idx hidx)).trans ?_
    rw [if_neg (lt_irrefl _)]
    omega
  intro i hi j hj hle
  by_cases hii : i = idx
  · subst hii
    by_cases hji : j = i
    · subst hji
      exact ⟨le_rfl, Nat.le_succ _⟩
    · -- nothing is further than the one found
      have hlt := steps_lt cursor (hU j hj)
      rw [hlast, hsteps j hj hji] at hle
      have := hfar j hj hji
      omega
  · by_cases hji : j = idx
    · subst hji
      have := h j hidx i hi (hnear i hi)
      rw [Function.update_of_ne hii, Function.update_self]
      omega
    · rw [hsteps i hi hii, hsteps j hj hji] at hle
      have hi' := hfar i hi hii
      have hj' := hfar j hj hji
      rw [Function.update_of_ne hii, Function.update_of_ne hji]
      exact h i hi j hj (by omega)

/-- **Each position of the set has been found its share of times**, rounded down or up. -/
theorem Balanced.count_eq (h : Balanced n U cursor count) {m : ℕ} (hm : ∑ i ∈ U, count i = m) :
    ∀ i ∈ U, count i = m / U.card ∨ count i = (m + U.card - 1) / U.card := by
  have hclose : ∀ i ∈ U, ∀ j ∈ U, count j ≤ count i + 1 := by
    intro i hi j hj
    rcases le_total (steps n cursor i) (steps n cursor j) with hle | hle
    · exact (h i hi j hj hle).2
    · exact (h j hj i hi hle).1.trans (Nat.le_succ _)
  intro i hi
  have hpos : 0 < U.card := Finset.card_pos.2 ⟨i, hi⟩
  -- the others have been found once less at least, and once more at most
  have hlow : U.card * (count i - 1) + 1 ≤ m ∨ count i = 0 := by
    rcases Nat.eq_zero_or_pos (count i) with hzero | hone
    · exact Or.inr hzero
    · left
      rw [← hm, ← Finset.add_sum_erase U count hi]
      have hrest : (U.erase i).card * (count i - 1) ≤ ∑ j ∈ U.erase i, count j := by
        rw [← smul_eq_mul]
        refine Finset.card_nsmul_le_sum _ _ _ fun j hj => ?_
        have := hclose j (Finset.mem_of_mem_erase hj) i hi
        omega
      rw [Finset.card_erase_of_mem hi] at hrest
      have hsplit : U.card * (count i - 1) = (U.card - 1) * (count i - 1) + (count i - 1) := by
        rw [← Nat.succ_mul, Nat.succ_eq_add_one, Nat.sub_add_cancel hpos]
      omega
  have hhigh : m ≤ U.card * (count i + 1) - 1 := by
    rw [← hm, ← Finset.add_sum_erase U count hi]
    have hrest : ∑ j ∈ U.erase i, count j ≤ (U.erase i).card * (count i + 1) := by
      rw [← smul_eq_mul]
      exact Finset.sum_le_card_nsmul _ _ _ fun j hj => hclose i hi j (Finset.mem_of_mem_erase hj)
    rw [Finset.card_erase_of_mem hi] at hrest
    have hsplit : U.card * (count i + 1) = (U.card - 1) * (count i + 1) + (count i + 1) := by
      rw [← Nat.succ_mul, Nat.succ_eq_add_one, Nat.sub_add_cancel hpos]
    omega
  have hfloor : m / U.card ≤ count i := by
    refine Nat.le_of_lt_add_one ((Nat.div_lt_iff_lt_mul hpos).2 ?_)
    rw [Nat.mul_comm]
    have : 0 < U.card * (count i + 1) := by positivity
    omega
  have hceil : count i ≤ (m + U.card - 1) / U.card := by
    rw [Nat.le_div_iff_mul_le hpos, Nat.mul_comm]
    rcases hlow with hlow | hzero
    · rcases Nat.eq_zero_or_pos (count i) with hzero | hone
      · rw [hzero]
        exact Nat.zero_le _
      · have hsplit : U.card * count i = U.card * (count i - 1) + U.card := by
          rw [← Nat.mul_succ, Nat.succ_eq_add_one, Nat.sub_add_cancel hone]
        omega
    · rw [hzero]
      exact Nat.zero_le _
  have hnear : (m + U.card - 1) / U.card ≤ m / U.card + 1 := by
    rw [← Nat.add_div_right m hpos]
    exact Nat.div_le_div_right (by omega)
  omega

end Cyclic
