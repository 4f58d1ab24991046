import Mathlib.Data.UInt
import Mathlib.Tactic

/-!
# Checked arithmetic of machine words

Arithmetic as it is done with overflow checks: the result is `none` where an operation leaves the
words or divides by 0, and everywhere else what the wrapping operation gives.

* `sum_eq_some_iff`: a list of words can be added up exactly when its sum is a word;
* `foldlM_eq_foldl`, `foldlM_fits`, `exists_foldlM`: loops with checked steps. What they return the
  unchecked steps return; what they have added up is a word; and they get to the end if an
  invariant of what is left lets every step succeed.
-/

namespace Checked

/-- `a + b`. -/
def add (a b : UInt64) : Option UInt64 := if a.toNat + b.toNat < 2 ^ 64 then some (a + b) else none

/-- `a * b`. -/
def mul (a b : UInt64) : Option UInt64 := if a.toNat * b.toNat < 2 ^ 64 then some (a * b) else none

/-- `a - b`. -/
def sub (a b : UInt64) : Option UInt64 := if b ≤ a then some (a - b) else none

/-- `a / b`. -/
def div (a b : UInt64) : Option UInt64 := if b = 0 then none else some (a / b)

/-- The words of a list added up from the left. -/
def sum (l : List UInt64) : Option UInt64 := l.foldlM add 0

variable {a b c : UInt64}

theorem add_eq_some_iff : add a b = some c ↔ a.toNat + b.toNat < 2 ^ 64 ∧ c = a + b := by
  unfold add
  rw [Option.ite_none_right_eq_some, Option.some.injEq, eq_comm (a := c)]

theorem mul_eq_some_iff : mul a b = some c ↔ a.toNat * b.toNat < 2 ^ 64 ∧ c = a * b := by
  unfold mul
  rw [Option.ite_none_right_eq_some, Option.some.injEq, eq_comm (a := c)]

theorem add_of_fits (h : a.toNat + b.toNat < 2 ^ 64) : add a b = some (a + b) := if_pos h

theorem mul_of_fits (h : a.toNat * b.toNat < 2 ^ 64) : mul a b = some (a * b) := if_pos h

theorem sub_of_le (h : b ≤ a) : sub a b = some (a - b) := if_pos h

theorem div_of_ne_zero (h : b ≠ 0) : div a b = some (a / b) := if_neg h

theorem toNat_add (h : a.toNat + b.toNat < 2 ^ 64) : (a + b).toNat = a.toNat + b.toNat := by
  rw [UInt64.toNat_add, Nat.mod_eq_of_lt h]

theorem toNat_mul (h : a.toNat * b.toNat < 2 ^ 64) : (a * b).toNat = a.toNat * b.toNat := by
  rw [UInt64.toNat_mul, Nat.mod_eq_of_lt h]

/-! ### Loops -/

section

variable {β ρ : Type} {f : β → ρ → Option β}

theorem foldlM_cons_eq_some {r : ρ} {rs : List ρ} {b b' : β} :
    (r :: rs).foldlM f b = some b' ↔ ∃ b₁, f b r = some b₁ ∧ rs.foldlM f b₁ = some b' := by
  rw [List.foldlM_cons]
  exact Option.bind_eq_some_iff

/-- **A checked loop returns what the unchecked one returns.** -/
theorem foldlM_eq_foldl {g : β → ρ → β} (h : ∀ b r b', f b r = some b' → b' = g b r)
    {rs : List ρ} {b b' : β} (hrun : rs.foldlM f b = some b') : b' = rs.foldl g b := by
  induction rs generalizing b with
  | nil => exact (Option.some.inj hrun).symm
  | cons r rs ih =>
    obtain ⟨b₁, hstep, hrest⟩ := foldlM_cons_eq_some.1 hrun
    rw [List.foldl_cons, ← h b r b₁ hstep]
    exact ih hrest

/-- **What a checked loop adds up is a word.** -/
theorem foldlM_fits (col : β → UInt64) (share : ρ → UInt64)
    (h : ∀ b r b', f b r = some b' →
      (col b).toNat + (share r).toNat < 2 ^ 64 ∧ col b' = col b + share r)
    {rs : List ρ} {b b' : β} (hrun : rs.foldlM f b = some b') :
    (col b).toNat + (rs.map fun r => (share r).toNat).sum < 2 ^ 64 := by
  induction rs generalizing b with
  | nil =>
    rw [List.map_nil, List.sum_nil, Nat.add_zero]
    exact (col b).toNat_lt
  | cons r rs ih =>
    obtain ⟨b₁, hstep, hrest⟩ := foldlM_cons_eq_some.1 hrun
    obtain ⟨hfits, hcol⟩ := h b r b₁ hstep
    have hrest' := ih hrest
    rw [hcol, toNat_add hfits] at hrest'
    rw [List.map_cons, List.sum_cons]
    omega

/-- **A checked loop gets to its end** under an invariant of what it has and what it has left. -/
theorem exists_foldlM (inv : β → List ρ → Prop)
    (hstep : ∀ b r rs, inv b (r :: rs) → ∃ b', f b r = some b' ∧ inv b' rs) {rs : List ρ} {b : β}
    (h : inv b rs) : ∃ b', rs.foldlM f b = some b' ∧ inv b' [] := by
  induction rs generalizing b with
  | nil => exact ⟨b, rfl, h⟩
  | cons r rs ih =>
    obtain ⟨b₁, hb₁, hinv⟩ := hstep b r rs h
    obtain ⟨b', hb', hend⟩ := ih hinv
    exact ⟨b', foldlM_cons_eq_some.2 ⟨b₁, hb₁, hb'⟩, hend⟩

end

/-! ### Sums -/

theorem foldl_add (l : List UInt64) (a : UInt64) : l.foldl (· + ·) a = a + l.sum := by
  induction l generalizing a with
  | nil => simp
  | cons x l ih => rw [List.foldl_cons, ih, List.sum_cons, UInt64.add_assoc]

/-- **A sum of words**, checked. -/
theorem sum_eq_some_iff {l : List UInt64} {s : UInt64} :
    sum l = some s ↔ (l.map UInt64.toNat).sum < 2 ^ 64 ∧ s = l.sum := by
  constructor
  · intro h
    have hfits := foldlM_fits (fun b => b) (fun r => r) (fun _ _ _ => add_eq_some_iff.1) h
    have hsum := foldlM_eq_foldl (fun _ _ _ hadd => (add_eq_some_iff.1 hadd).2) h
    rw [UInt64.toNat_zero, Nat.zero_add] at hfits
    rw [foldl_add, UInt64.zero_add] at hsum
    exact ⟨hfits, hsum⟩
  · rintro ⟨hfits, rfl⟩
    -- what has been added up and what is left make the whole sum
    have hroom : (0 : UInt64).toNat + (l.map UInt64.toNat).sum < 2 ^ 64 := by
      rwa [UInt64.toNat_zero, Nat.zero_add]
    obtain ⟨s, hs, -⟩ := exists_foldlM (f := add)
      (fun b l => b.toNat + (l.map UInt64.toNat).sum < 2 ^ 64)
      (fun b x l hinv => by
        rw [List.map_cons, List.sum_cons] at hinv
        have hadd : b.toNat + x.toNat < 2 ^ 64 := by omega
        refine ⟨b + x, add_of_fits hadd, ?_⟩
        rw [toNat_add hadd]
        omega) hroom
    have hsum := foldlM_eq_foldl (fun _ _ _ hadd => (add_eq_some_iff.1 hadd).2) hs
    rw [foldl_add, UInt64.zero_add] at hsum
    rw [sum, hs, hsum]

end Checked
