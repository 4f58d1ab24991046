import Mathlib.Algebra.Order.Round
import Mathlib.Data.Int.Log
import Mathlib.Data.Rat.Floor
import Mathlib.Tactic

/-!
# Rounding to doubles

Rounding of a rational number that is not negative to the nearest number of 53 bits, ties to even.
The exponent has no bounds: there is neither overflow nor underflow.

* `nearest_mono`: a larger number is rounded to no smaller one;
* `nearest_of_representable`, `nearest_natCast`: a number of 53 bits stays what it is;
* `abs_nearest_sub_le`: the error is at most one part in `2 ^ 53`;
* `nearest_div_le_one_iff`: a rounded quotient of rounded numbers is at most 1 exactly when the
  numbers are in order;
* `abs_nearest_div_sub_le`: its error is at most one part in `2 ^ 51`.
-/

/-- How the real numbers of a program are rounded. -/
class Rounding where
  round : ℚ → ℚ

namespace Binary64

/-! ### To the nearest integer -/

/-- The nearest integer; of two the even one. -/
def roundEven (q : ℚ) : ℤ :=
  let n := ⌊q⌋
  if q - n < 1 / 2 then n
  else if 1 / 2 < q - n then n + 1
  else if Even n then n else n + 1

theorem abs_roundEven_sub_le (q : ℚ) : |(roundEven q : ℚ) - q| ≤ 1 / 2 := by
  have hlow := Int.floor_le q
  have hhigh := Int.lt_floor_add_one q
  unfold roundEven
  rw [abs_le]
  dsimp only
  split_ifs with hless hmore heven
  · constructor <;> linarith
  · push_cast
    constructor <;> linarith
  · constructor <;> linarith
  · push_cast
    constructor <;> linarith

@[simp] theorem roundEven_intCast (n : ℤ) : roundEven n = n := by
  simp [roundEven]

/-- Where two numbers would be rounded the wrong way round, both are halfway between, and so they
are the same. -/
theorem roundEven_mono {p q : ℚ} (h : p ≤ q) : roundEven p ≤ roundEven q := by
  by_contra hlt
  have hp := abs_le.1 (abs_roundEven_sub_le p)
  have hq := abs_le.1 (abs_roundEven_sub_le q)
  have hstep : (roundEven q : ℚ) + 1 ≤ roundEven p := by exact_mod_cast not_le.1 hlt
  have hsame : p = q := by linarith
  exact hlt (hsame ▸ le_rfl)

theorem lt_roundEven {n : ℤ} {q : ℚ} (h : (n : ℚ) + 1 / 2 < q) : n < roundEven q := by
  have hq := abs_le.1 (abs_roundEven_sub_le q)
  have hlt : (n : ℚ) < roundEven q := by linarith
  exact_mod_cast hlt

/-! ### To 53 bits -/

/-- The distance between the numbers of 53 bits that are as large as `q`. -/
def ulp (q : ℚ) : ℚ := 2 ^ (Int.log 2 q - 52)

/-- **The nearest number of 53 bits.** -/
def nearest (q : ℚ) : ℚ := roundEven (q / ulp q) * ulp q

theorem ulp_pos (q : ℚ) : 0 < ulp q := zpow_pos (by norm_num) _

@[simp] theorem nearest_zero : nearest 0 = 0 := by
  have hzero : roundEven 0 = 0 := by exact_mod_cast roundEven_intCast 0
  simp [nearest, hzero]

theorem two_pow_mul_ulp (q : ℚ) : 2 ^ 52 * ulp q = (2 : ℚ) ^ Int.log 2 q := by
  rw [ulp, zpow_sub₀ (by norm_num)]
  norm_num
  ring

variable {p q : ℚ}

/-- A number has 53 bits before the point, counted in its distance. -/
theorem scaled_bounds (hq : 0 < q) : 2 ^ 52 ≤ q / ulp q ∧ q / ulp q < 2 ^ 53 := by
  have hlow : ((2 : ℕ) : ℚ) ^ Int.log 2 q ≤ q := Int.zpow_log_le_self (by norm_num) hq
  have hhigh : q < ((2 : ℕ) : ℚ) ^ (Int.log 2 q + 1) := Int.lt_zpow_succ_log_self (by norm_num) q
  have hulp := two_pow_mul_ulp q
  rw [Nat.cast_ofNat] at hlow hhigh
  rw [zpow_add_one₀ (by norm_num)] at hhigh
  rw [le_div_iff₀ (ulp_pos q), div_lt_iff₀ (ulp_pos q)]
  constructor <;> linarith

/-- Rounded, the number is still between the same powers of 2. -/
theorem nearest_bounds (hq : 0 < q) :
    (2 : ℚ) ^ Int.log 2 q ≤ nearest q ∧ nearest q ≤ (2 : ℚ) ^ (Int.log 2 q + 1) := by
  obtain ⟨hlow, hhigh⟩ := scaled_bounds hq
  have hpos := (ulp_pos q).le
  have hleast : (2 : ℤ) ^ 52 ≤ roundEven (q / ulp q) := by
    rw [← roundEven_intCast (2 ^ 52)]
    exact roundEven_mono (by push_cast; exact hlow)
  have hmost : roundEven (q / ulp q) ≤ (2 : ℤ) ^ 53 := by
    rw [← roundEven_intCast (2 ^ 53)]
    exact roundEven_mono (by push_cast; exact hhigh.le)
  have hulp := two_pow_mul_ulp q
  rw [zpow_add_one₀ (by norm_num), ← hulp]
  constructor
  · exact mul_le_mul_of_nonneg_right (by exact_mod_cast hleast) hpos
  · calc nearest q ≤ 2 ^ 53 * ulp q := mul_le_mul_of_nonneg_right (by exact_mod_cast hmost) hpos
      _ = 2 ^ 52 * ulp q * 2 := by ring

theorem nearest_nonneg (hq : 0 ≤ q) : 0 ≤ nearest q := by
  rcases hq.eq_or_lt with rfl | hq
  · exact nearest_zero.ge
  · exact (zpow_pos (by norm_num) _).le.trans (nearest_bounds hq).1

theorem nearest_pos (hq : 0 < q) : 0 < nearest q :=
  (zpow_pos (by norm_num) _).trans_le (nearest_bounds hq).1

/-- **Rounding keeps the order.** Numbers between different powers of 2 stay apart, and those
between the same ones are rounded with the same distance. -/
theorem nearest_mono (hp : 0 ≤ p) (h : p ≤ q) : nearest p ≤ nearest q := by
  rcases hp.eq_or_lt with rfl | hp
  · rw [nearest_zero]
    exact nearest_nonneg h
  · have hq := hp.trans_le h
    rcases (Int.log_mono_right (b := 2) hp h).lt_or_eq with hlt | heq
    · exact (nearest_bounds hp).2.trans
        ((zpow_le_zpow_right₀ (by norm_num) (by omega)).trans (nearest_bounds hq).1)
    · have hulp : ulp p = ulp q := by rw [ulp, ulp, heq]
      rw [nearest, nearest, hulp]
      have hscaled : p / ulp q ≤ q / ulp q := div_le_div_of_nonneg_right h (ulp_pos q).le
      exact mul_le_mul_of_nonneg_right (by exact_mod_cast roundEven_mono hscaled) (ulp_pos q).le

/-- **The error of rounding.** -/
theorem abs_nearest_sub_le (hq : 0 ≤ q) : |nearest q - q| ≤ q / 2 ^ 53 := by
  rcases hq.eq_or_lt with rfl | hq
  · simp
  · have hpos := ulp_pos q
    have hscaled : nearest q - q = (roundEven (q / ulp q) - q / ulp q) * ulp q := by
      rw [nearest, sub_mul, div_mul_cancel₀ _ hpos.ne']
    have hulp : 2 ^ 52 * ulp q ≤ q := by
      rw [← le_div_iff₀ hpos]
      exact (scaled_bounds hq).1
    rw [hscaled, abs_mul, abs_of_pos hpos]
    have herror := mul_le_mul_of_nonneg_right (abs_roundEven_sub_le (q / ulp q)) hpos.le
    linarith

/-! ### Numbers of 53 bits -/

/-- A number of 53 bits. -/
def Representable (q : ℚ) : Prop := ∃ (m : ℕ) (e : ℤ), m ≤ 2 ^ 53 ∧ q = m * 2 ^ e

theorem representable_natCast {n : ℕ} (h : n ≤ 2 ^ 53) : Representable n := ⟨n, 0, h, by simp⟩

/-- Between a power of 2 and the next, the numbers of 53 bits are multiples of the distance. -/
theorem Representable.exists_mul_ulp (h : Representable q) (hp : 0 < p) (hpq : p ≤ q) :
    ∃ k : ℤ, q = k * ulp p := by
  obtain ⟨m, e, hm, rfl⟩ := h
  have hpow : (2 : ℚ) ^ Int.log 2 p ≤ p := by
    exact_mod_cast Int.zpow_log_le_self (b := 2) (by norm_num) hp
  have hle : Int.log 2 p - 52 ≤ e + 1 := by
    have hbig : (2 : ℚ) ^ Int.log 2 p ≤ 2 ^ (e + 53) := by
      rw [add_comm, zpow_add₀ (by norm_num)]
      refine (hpow.trans hpq).trans (mul_le_mul_of_nonneg_right ?_ (zpow_pos (by norm_num) _).le)
      exact_mod_cast hm
    have hexp := (zpow_le_zpow_iff_right₀ (by norm_num : (1 : ℚ) < 2)).1 hbig
    omega
  rcases hle.lt_or_eq with hlt | heq
  · obtain ⟨j, hj⟩ := Int.le.dest (Int.lt_add_one_iff.1 hlt)
    refine ⟨m * 2 ^ j, ?_⟩
    rw [ulp, ← hj, zpow_add₀ (by norm_num), zpow_natCast]
    push_cast
    ring
  · -- only the power of 2 itself is as large as this
    have hm' : (2 : ℚ) ^ 53 ≤ m := by
      have hlog : Int.log 2 p = e + 53 := by omega
      rw [hlog, add_comm, zpow_add₀ (by norm_num)] at hpow
      exact le_of_mul_le_mul_right (by exact_mod_cast hpow.trans hpq) (zpow_pos (by norm_num) e)
    have hmax : m = 2 ^ 53 := le_antisymm hm (by exact_mod_cast hm')
    refine ⟨2 ^ 52, ?_⟩
    rw [ulp, heq, zpow_add_one₀ (by norm_num), hmax]
    push_cast
    ring

/-- **A number of 53 bits stays what it is.** -/
theorem nearest_of_representable (h : Representable q) : nearest q = q := by
  rcases eq_or_ne q 0 with rfl | hne
  · exact nearest_zero
  · have hpos : 0 < q := by
      obtain ⟨m, e, -, rfl⟩ := h
      exact lt_of_le_of_ne (by positivity) hne.symm
    obtain ⟨k, hk⟩ := h.exists_mul_ulp hpos le_rfl
    have hscaled : q / ulp q = k := by
      rw [div_eq_iff (ulp_pos q).ne']
      exact hk
    rw [nearest, hscaled, roundEven_intCast]
    exact hk.symm

theorem nearest_natCast {n : ℕ} (h : n ≤ 2 ^ 53) : nearest n = n :=
  nearest_of_representable (representable_natCast h)

theorem representable_nearest (hq : 0 ≤ q) : Representable (nearest q) := by
  rcases hq.eq_or_lt with rfl | hq
  · rw [nearest_zero]
    exact_mod_cast representable_natCast (Nat.zero_le _)
  · have hpos := (ulp_pos q)
    have hnonneg : 0 ≤ roundEven (q / ulp q) := by
      have hle := roundEven_mono (div_nonneg hq.le hpos.le)
      have hzero : roundEven 0 = 0 := by exact_mod_cast roundEven_intCast 0
      rwa [hzero] at hle
    have hmost : roundEven (q / ulp q) ≤ (2 : ℤ) ^ 53 := by
      rw [← roundEven_intCast (2 ^ 53)]
      exact roundEven_mono (by push_cast; exact (scaled_bounds hq).2.le)
    obtain ⟨m, hm⟩ := Int.eq_ofNat_of_zero_le hnonneg
    rw [hm] at hmost
    refine ⟨m, Int.log 2 q - 52, by exact_mod_cast hmost, ?_⟩
    rw [nearest, hm, Int.cast_natCast]
    rfl

/-- The quotient of a number of 53 bits by a smaller one is further from 1 than half the distance
there. -/
theorem one_add_lt_div (hp : Representable p) (hq : Representable q) (hpos : 0 < q) (hlt : q < p) :
    1 + 1 / 2 ^ 53 < p / q := by
  have hulp := ulp_pos q
  obtain ⟨k, hk⟩ := hq.exists_mul_ulp hpos le_rfl
  obtain ⟨l, hl⟩ := hp.exists_mul_ulp hpos hlt.le
  have hkl : (k : ℚ) + 1 ≤ l := by
    have hless : (k : ℚ) < l := by
      rw [hk, hl] at hlt
      exact lt_of_mul_lt_mul_right hlt hulp.le
    exact_mod_cast hless
  have hless : (k : ℚ) < 2 ^ 53 := by
    have hscaled := (scaled_bounds hpos).2
    rwa [(div_eq_iff hulp.ne').2 hk] at hscaled
  rw [lt_div_iff₀ hpos]
  calc (1 + 1 / 2 ^ 53) * q = (1 + 1 / 2 ^ 53) * (k * ulp q) := by rw [← hk]
    _ = (k + k / 2 ^ 53) * ulp q := by ring
    _ < (k + 1) * ulp q := by
      refine mul_lt_mul_of_pos_right ?_ hulp
      rw [add_lt_add_iff_left, div_lt_one (by norm_num)]
      exact hless
    _ ≤ l * ulp q := mul_le_mul_of_nonneg_right hkl hulp.le
    _ = p := hl.symm

/-- **A quotient above 1 is rounded to one above 1**: the next number of 53 bits is further away
than half a distance. -/
theorem one_lt_nearest_div (hp : Representable p) (hq : Representable q) (hpos : 0 < q)
    (hlt : q < p) : 1 < nearest (p / q) := by
  have hquotient := one_add_lt_div hp hq hpos hlt
  have hone : (1 : ℚ) < p / q := lt_trans (by norm_num) hquotient
  have hpq : 0 < p / q := zero_lt_one.trans hone
  rcases (Int.log_mono_right (b := 2) one_pos hone.le).lt_or_eq with hlog | hlog
  · rw [Int.log_one_right] at hlog
    refine lt_of_lt_of_le ?_ (nearest_bounds hpq).1
    exact one_lt_zpow₀ (by norm_num) hlog
  · rw [Int.log_one_right] at hlog
    have hdistance : ulp (p / q) = 1 / 2 ^ 52 := by
      rw [ulp, ← hlog]
      norm_num
    have hstep : (2 : ℤ) ^ 52 < roundEven (p / q / ulp (p / q)) := by
      refine lt_roundEven ?_
      rw [hdistance]
      push_cast
      linarith
    have hstep' : (2 : ℚ) ^ 52 < roundEven (p / q / ulp (p / q)) := by exact_mod_cast hstep
    calc (1 : ℚ) = 2 ^ 52 * ulp (p / q) := by rw [hdistance]; norm_num
      _ < roundEven (p / q / ulp (p / q)) * ulp (p / q) :=
        mul_lt_mul_of_pos_right hstep' (ulp_pos _)

/-- **A rounded quotient is at most 1** exactly when the rounded numbers are in order. -/
theorem nearest_div_le_one_iff (hp : 0 ≤ p) (hq : 0 < q) :
    nearest (nearest p / nearest q) ≤ 1 ↔ nearest p ≤ nearest q := by
  have hpos := nearest_pos hq
  constructor
  · intro h
    by_contra hlt
    exact absurd (one_lt_nearest_div (representable_nearest hp) (representable_nearest hq.le) hpos
      (not_le.1 hlt)) (not_lt.2 h)
  · intro h
    have hone : nearest 1 = 1 := by exact_mod_cast nearest_natCast (n := 1) (by norm_num)
    rw [← hone]
    exact nearest_mono (div_nonneg (nearest_nonneg hp) hpos.le) ((div_le_one hpos).2 h)

/-- **The error of a rounded quotient of rounded numbers.** -/
theorem abs_nearest_div_sub_le (hp : 0 ≤ p) (hq : 0 < q) :
    |nearest (nearest p / nearest q) - p / q| ≤ p / q / 2 ^ 51 := by
  have hbound : ∀ {r : ℚ}, 0 ≤ r →
      r * (1 - 1 / 2 ^ 53) ≤ nearest r ∧ nearest r ≤ r * (1 + 1 / 2 ^ 53) := by
    intro r hr
    have herror := abs_le.1 (abs_nearest_sub_le hr)
    constructor <;> linarith
  obtain ⟨hplow, hphigh⟩ := hbound hp
  obtain ⟨hqlow, hqhigh⟩ := hbound hq.le
  have hpos := nearest_pos hq
  have hx : 0 ≤ p / q := div_nonneg hp hq.le
  obtain ⟨hlow, hhigh⟩ := hbound (div_nonneg (nearest_nonneg hp) hpos.le)
  have hless : nearest p / nearest q ≤ p / q * ((1 + 1 / 2 ^ 53) / (1 - 1 / 2 ^ 53)) := by
    rw [div_mul_div_comm]
    exact div_le_div₀ (by positivity) hphigh (by positivity) hqlow
  have hmore : p / q * ((1 - 1 / 2 ^ 53) / (1 + 1 / 2 ^ 53)) ≤ nearest p / nearest q := by
    rw [div_mul_div_comm]
    exact div_le_div₀ (nearest_nonneg hp) hplow hpos hqhigh
  rw [abs_le]
  constructor
  · have hfactor : (1 : ℚ) - 1 / 2 ^ 51 ≤
        (1 - 1 / 2 ^ 53) / (1 + 1 / 2 ^ 53) * (1 - 1 / 2 ^ 53) := by norm_num
    have hscaled := mul_le_mul_of_nonneg_left hfactor hx
    have hrounded := mul_le_mul_of_nonneg_right hmore (by norm_num : (0 : ℚ) ≤ 1 - 1 / 2 ^ 53)
    linarith
  · have hfactor : (1 + 1 / 2 ^ 53) / (1 - 1 / 2 ^ 53) * (1 + 1 / 2 ^ 53) ≤
        (1 : ℚ) + 1 / 2 ^ 51 := by norm_num
    have hscaled := mul_le_mul_of_nonneg_left hfactor hx
    have hrounded := mul_le_mul_of_nonneg_right hless (by norm_num : (0 : ℚ) ≤ 1 + 1 / 2 ^ 53)
    linarith

end Binary64

/-- Numbers are rounded to doubles. -/
instance : Rounding := ⟨Binary64.nearest⟩

@[simp] theorem Rounding.round_eq (q : ℚ) : Rounding.round q = Binary64.nearest q := rfl
