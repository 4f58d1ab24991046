import Mathlib.Tactic
import Mathlib.Data.List.ReduceOption
import Mathlib.Data.UInt
import Mybro.Lib.Binary64

/-!
# Aggregates of SQL

What the aggregate functions of a database make of a column of integers of 64 bits, some of them
NULL, and what a program reads when it asks for an unsigned word. `none` as a value is NULL; `none`
as a result is an error.

* `mem_groupBy`, `group_ne_nil`: what the groups are;
* `readU64_sum`, `readU64_sum_map`: a sum that fits is read as the sum;
* `toNat_of_readU64_sum`: a sum that is read is the sum;
* `avg_natCast`: an average is that of the values that are not NULL, rounded;
* `readU64_max`: a maximum is read as the maximum.
-/

namespace Sql

variable {ρ : Type}

/-- An integer or NULL. -/
abbrev Value := Option ℤ

/-- What can be stored as an integer. -/
def InI64 (z : ℤ) : Prop := -2 ^ 63 ≤ z ∧ z < 2 ^ 63

instance (z : ℤ) : Decidable (InI64 z) := inferInstanceAs (Decidable (_ ∧ _))

/-! ### Expressions -/

/-- A comparison is unknown if one side is NULL. -/
def compare (p : ℤ → ℤ → Bool) (a b : Value) : Option Bool :=
  match a, b with
  | some x, some y => some (p x y)
  | _, _ => none

/-- `AND` of conditions that may be unknown. -/
def and : Option Bool → Option Bool → Option Bool
  | some false, _ => some false
  | _, some false => some false
  | some true, some true => some true
  | _, _ => none

/-- `IS NOT NULL`, which is never unknown. -/
def isNotNull (a : Value) : Option Bool := some a.isSome

/-- The difference of two integers. -/
def sub (a b : Value) : Value :=
  match a, b with
  | some x, some y => some (x - y)
  | _, _ => none

/-- `CASE WHEN c THEN a ELSE b END`; an unknown condition is not met. -/
def caseWhen (c : Option Bool) (a b : Value) : Value := if c = some true then a else b

/-! ### Aggregates -/

/-- `COUNT(*)`. -/
def count (rows : List ρ) : Value := some rows.length

/-- Integers added up from the left; an error when a partial sum is too large. -/
def sumFrom (acc : ℤ) : List ℤ → Option ℤ
  | [] => some acc
  | v :: vs => if InI64 (acc + v) then sumFrom (acc + v) vs else none

/-- `SUM`, which is NULL when there is nothing to add. -/
def sum (column : List Value) : Option Value :=
  match column.reduceOption with
  | [] => some none
  | vs => (sumFrom 0 vs).map some

/-- `AVG`, for integers whose sum fits: the sum and the number of the values are rounded, and so is
their quotient. -/
def avg [Rounding] (column : List Value) : Option ℚ :=
  match column.reduceOption with
  | [] => none
  | vs => some (Rounding.round (Rounding.round vs.sum / Rounding.round vs.length))

/-- `MAX`. -/
def max (column : List Value) : Value := column.reduceOption.max?

/-- The order of values: NULL comes first. -/
def le : Value → Value → Bool
  | none, _ => true
  | some _, none => false
  | some a, some b => a ≤ b

/-- `GROUP BY`: the keys in their order, each with its rows. -/
def groupBy {κ : Type} [DecidableEq κ] (le : κ → κ → Bool) (key : ρ → κ) (rows : List ρ) :
    List (κ × List ρ) :=
  ((rows.map key).dedup.mergeSort le).map fun k => (k, rows.filter fun row => key row = k)

/-- `SELECT DISTINCT .. ORDER BY .. ASC`. -/
def distinctAsc (column : List String) : List String := column.dedup.mergeSort

/-! ### Values of the program -/

/-- The value of an unsigned word given as a parameter; an error when it is too large. -/
def ofU64 (v : UInt64) : Option ℤ := if v.toNat < 2 ^ 63 then some v.toNat else none

/-- An unsigned word cast to a signed one. -/
def castI64 (v : UInt64) : ℤ := v.toBitVec.toInt

/-- Reading an unsigned word, 0 for NULL; an error for a negative integer. -/
def readU64 : Value → Option UInt64
  | none => some 0
  | some z => if 0 ≤ z then some (UInt64.ofNat z.toNat) else none

/-- A cell of a result. -/
inductive Cell
  | null
  | integer (z : ℤ)
  | real (q : ℚ)
  deriving DecidableEq

def Cell.ofValue : Value → Cell
  | none => .null
  | some z => .integer z

def Cell.ofAvg : Option ℚ → Cell
  | none => .null
  | some q => .real q

/-- `get` of an unsigned word. -/
def Cell.getU64 : Cell → Option UInt64
  | .integer z => readU64 (some z)
  | _ => none

/-- `get` of an unsigned word that may be missing, with the default 0. -/
def Cell.getU64OrZero : Cell → Option UInt64
  | .null => some 0
  | .integer z => readU64 (some z)
  | .real _ => none

/-- `get` of a real number that may be missing, with the default 0; an integer is converted. -/
def Cell.getRealOrZero [Rounding] : Cell → ℚ
  | .null => 0
  | .integer z => Rounding.round z
  | .real q => q

theorem Cell.getRealOrZero_ofAvg [Rounding] (q : Option ℚ) :
    (Cell.ofAvg q).getRealOrZero = q.getD 0 := by
  cases q <;> rfl

/-- The sum of a column that is not all NULL is read the same either way. -/
theorem bind_getU64 {column : List Value} {z : ℤ} (h : some z ∈ column) :
    ((sum column).bind fun v => (Cell.ofValue v).getU64) = (sum column).bind readU64 := by
  have hmem : z ∈ column.reduceOption := List.reduceOption_mem_iff.2 h
  unfold sum
  cases hvalues : column.reduceOption with
  | nil =>
    rw [hvalues] at hmem
    cases hmem
  | cons v vs =>
    simp only [Option.bind_map]
    rfl

theorem ofU64_of_lt {v : UInt64} (h : v.toNat < 2 ^ 63) : ofU64 v = some (v.toNat : ℤ) := if_pos h

theorem castI64_of_lt {v : UInt64} (h : v.toNat < 2 ^ 63) : castI64 v = v.toNat :=
  BitVec.toInt_eq_toNat_of_lt (by show 2 * v.toNat < 2 ^ 64; omega)

theorem readU64_natCast (n : ℕ) : readU64 (some (n : ℤ)) = some (UInt64.ofNat n) := by
  simp [readU64]

/-! ### Groups -/

section

variable {κ : Type} [DecidableEq κ] {le : κ → κ → Bool} {key : ρ → κ} {rows : List ρ}

theorem keys_groupBy : (groupBy le key rows).map Prod.fst = (rows.map key).dedup.mergeSort le := by
  rw [groupBy, List.map_map]
  exact List.map_id _

/-- **The groups**: one for each key there is, with the rows of this key. -/
theorem mem_groupBy {g : κ × List ρ} :
    g ∈ groupBy le key rows ↔
      g.1 ∈ rows.map key ∧ g.2 = rows.filter fun row => key row = g.1 := by
  obtain ⟨k, group⟩ := g
  simp only [groupBy, List.mem_map, List.mem_mergeSort, List.mem_dedup, Prod.mk.injEq]
  constructor
  · rintro ⟨k, hk, rfl, rfl⟩
    exact ⟨hk, rfl⟩
  · rintro ⟨hk, hgroup⟩
    exact ⟨k, hk, rfl, hgroup.symm⟩

/-- A group has a row, and no other rows than there are. -/
theorem group_ne_nil {g : κ × List ρ} (hg : g ∈ groupBy le key rows) :
    g.2 ≠ [] ∧ g.2.length ≤ rows.length := by
  obtain ⟨hkey, hrows⟩ := mem_groupBy.1 hg
  obtain ⟨row, hrow, hk⟩ := List.mem_map.1 hkey
  rw [hrows]
  exact ⟨List.ne_nil_of_mem (List.mem_filter.2 ⟨hrow, decide_eq_true hk⟩),
    List.length_filter_le _ _⟩

/-- The group of a row. -/
theorem group_mem {row : ρ} (hrow : row ∈ rows) :
    (key row, rows.filter fun other => key other = key row) ∈ groupBy le key rows :=
  mem_groupBy.2 ⟨List.mem_map_of_mem hrow, rfl⟩

/-- Every row is in the group of its key. -/
theorem exists_group {row : ρ} (hrow : row ∈ rows) : ∃ g ∈ groupBy le key rows, row ∈ g.2 :=
  ⟨_, group_mem hrow, List.mem_filter.2 ⟨hrow, decide_eq_true rfl⟩⟩

theorem groupBy_ne_nil (h : rows ≠ []) : groupBy le key rows ≠ [] := by
  obtain ⟨row, hrow⟩ := List.exists_mem_of_ne_nil rows h
  obtain ⟨g, hg, -⟩ : ∃ g ∈ groupBy le key rows, row ∈ g.2 := exists_group hrow
  exact List.ne_nil_of_mem hg

end

/-! ### Sums -/

/-- Words added up are the sum of the numbers, as a word. -/
theorem sum_ofNat (rs : List ρ) (f : ρ → UInt64) :
    (rs.map f).sum = UInt64.ofNat (rs.map fun r => (f r).toNat).sum := by
  induction rs with
  | nil => rfl
  | cons r rs ih =>
    rw [List.map_cons, List.sum_cons, ih, List.map_cons, List.sum_cons, UInt64.ofNat_add,
      UInt64.ofNat_toNat]

theorem sumFrom_natCast (acc : ℕ) (ns : List ℕ) (h : acc + ns.sum < 2 ^ 63) :
    sumFrom acc (ns.map Nat.cast) = some ((acc + ns.sum : ℕ) : ℤ) := by
  induction ns generalizing acc with
  | nil => simp [sumFrom]
  | cons n ns ih =>
    rw [List.sum_cons] at h ⊢
    have hfits : InI64 ((acc : ℤ) + n) := by
      unfold InI64
      omega
    rw [List.map_cons, sumFrom, if_pos hfits, ← Nat.cast_add, ih (acc + n) (by omega),
      Nat.add_assoc]

/-- **Reading a sum.** -/
theorem readU64_sum (column : List (Option ℕ)) (h : column.reduceOption.sum < 2 ^ 63) :
    (sum (column.map (Option.map Nat.cast))).bind readU64 =
      some (UInt64.ofNat column.reduceOption.sum) := by
  unfold sum
  rw [List.reduceOption_map]
  cases hns : column.reduceOption with
  | nil => rfl
  | cons n ns =>
    rw [hns] at h
    have hsum := sumFrom_natCast 0 (n :: ns) (by omega)
    rw [Nat.cast_zero, List.map_cons, Nat.zero_add] at hsum
    rw [List.map_cons]
    simp only [hsum, Option.map_some, Option.bind_some]
    exact readU64_natCast _

/-- A sum that is made is the sum. -/
theorem sumFrom_eq_some {acc z : ℤ} {vs : List ℤ} (hacc : InI64 acc) (h : sumFrom acc vs = some z) :
    InI64 z ∧ z = acc + vs.sum := by
  induction vs generalizing acc with
  | nil =>
    obtain rfl := Option.some.inj h
    exact ⟨hacc, by simp⟩
  | cons v vs ih =>
    unfold sumFrom at h
    split_ifs at h with hfits
    obtain ⟨hz, hsum⟩ := ih hfits h
    refine ⟨hz, ?_⟩
    rw [hsum, List.sum_cons]
    ring

/-- **What a sum that is read says.** -/
theorem toNat_of_readU64_sum {column : List Value} {n : UInt64}
    (h : (sum column).bind readU64 = some n) : (n.toNat : ℤ) = column.reduceOption.sum := by
  unfold sum at h
  cases hvalues : column.reduceOption with
  | nil =>
    rw [hvalues] at h
    obtain rfl := Option.some.inj h
    rfl
  | cons v vs =>
    rw [hvalues] at h
    obtain ⟨_, hsum, hread⟩ := Option.bind_eq_some_iff.1 h
    obtain ⟨z, hz, rfl⟩ := Option.map_eq_some_iff.1 hsum
    obtain ⟨hfits, hvalue⟩ := sumFrom_eq_some (by decide : InI64 0) hz
    have hn : (if 0 ≤ z then some (UInt64.ofNat z.toNat) else none) = some n := hread
    split_ifs at hn with hpos
    obtain rfl := Option.some.inj hn
    unfold InI64 at hfits
    rw [UInt64.toNat_ofNat', Nat.mod_eq_of_lt (by omega), Int.toNat_of_nonneg hpos, hvalue,
      zero_add]

theorem reduceOption_map_some {α : Type} (rs : List ρ) (f : ρ → α) :
    (rs.map fun r => some (f r)).reduceOption = rs.map f := by
  induction rs with
  | nil => rfl
  | cons r rs ih => rw [List.map_cons, List.reduceOption_cons_of_some, ih, List.map_cons]

/-- **Reading a sum of words.** -/
theorem readU64_sum_map (rs : List ρ) {g : ρ → Value} {f : ρ → UInt64}
    (hg : ∀ r, g r = some ((f r).toNat : ℤ)) (h : (rs.map fun r => (f r).toNat).sum < 2 ^ 63) :
    (sum (rs.map g)).bind readU64 = some (rs.map f).sum := by
  have hcolumn : rs.map g = (rs.map fun r => some (f r).toNat).map (Option.map Nat.cast) := by
    rw [List.map_map]
    exact List.map_congr_left fun r _ => hg r
  rw [hcolumn, readU64_sum _ (by rwa [reduceOption_map_some]), reduceOption_map_some, sum_ofNat]

/-! ### Averages and maxima -/

theorem avg_ne_none [Rounding] {column : List Value} {z : ℤ} (h : some z ∈ column) :
    avg column ≠ none := by
  have hmem : z ∈ column.reduceOption := List.reduceOption_mem_iff.2 h
  unfold avg
  split
  · rename_i hnil
    rw [hnil] at hmem
    cases hmem
  · exact Option.some_ne_none _

/-- **An average.** -/
theorem avg_natCast [Rounding] (column : List (Option ℕ)) :
    (avg (column.map (Option.map Nat.cast))).getD 0 =
      if column.reduceOption = [] then 0
      else Rounding.round (Rounding.round (column.reduceOption.sum : ℕ) /
        Rounding.round column.reduceOption.length) := by
  unfold avg
  rw [List.reduceOption_map]
  cases hns : column.reduceOption with
  | nil => rfl
  | cons n ns =>
    have hcast : ((((n :: ns).map Nat.cast : List ℤ).sum : ℤ) : ℚ) = ((n :: ns).sum : ℕ) := by
      rw [← Nat.cast_list_sum, Int.cast_natCast]
    rw [List.map_cons] at hcast ⊢
    simp only [hcast, Option.getD_some, List.length_cons, List.length_map, reduceCtorEq, if_false]

/-- The maximum of the images under a map that keeps maxima. -/
theorem max?_map {α β : Type} [Max α] [Max β] (f : α → β)
    (hf : ∀ a b, Max.max (f a) (f b) = f (Max.max a b)) (l : List α) :
    (l.map f).max? = l.max?.map f := by
  cases l with
  | nil => rfl
  | cons a l =>
    rw [List.map_cons, List.max?_cons', List.max?_cons', Option.map_some, List.foldl_map]
    exact congrArg some (List.foldl_hom f hf)

theorem toNat_max (a b : UInt64) :
    Max.max (a.toNat : ℤ) (b.toNat : ℤ) = ((Max.max a b).toNat : ℤ) := by
  show _ = (((if a ≤ b then b else a : UInt64).toNat : ℕ) : ℤ)
  split_ifs with h
  · rw [UInt64.le_iff_toNat_le] at h
    omega
  · rw [UInt64.le_iff_toNat_le] at h
    omega

/-- **Reading a maximum.** -/
theorem readU64_max (l : List UInt64) :
    readU64 (max (l.map fun v => some (v.toNat : ℤ))) = some (l.max?.getD 0) := by
  have hcolumn : (l.map fun v => (some (v.toNat : ℤ) : Value)).reduceOption =
      l.map fun v => (v.toNat : ℤ) := by
    induction l with
    | nil => rfl
    | cons v l ih => rw [List.map_cons, List.reduceOption_cons_of_some, ih, List.map_cons]
  rw [max, hcolumn, max?_map (fun v : UInt64 => (v.toNat : ℤ)) toNat_max]
  cases l.max? with
  | none => rfl
  | some v =>
    rw [Option.map_some, readU64_natCast, UInt64.ofNat_toNat]
    rfl

end Sql
