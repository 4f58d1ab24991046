import Mathlib.Tactic

/-!
# Least recently used caches

A finite map together with the order in which its entries were used, the last one first.

* `find`: the value of a key, without using it;
* `use`: a key becomes the one used last;
* `put`: a key gets a value, and becomes the one used last;
* `pop`: the entry of a key goes;
* `keep n`: only the `n` entries used last stay;
* `keys`: the keys in the order of their use. When `age` grows along it, those that `keep` leaves
  are told by counting the younger ones (`mem_take_iff`).
-/

/-- A map with its order of use. -/
structure Lru (K V : Type) where
  entries : List (K × V)
  nodup : (entries.map Prod.fst).Nodup

namespace Lru

variable {K V : Type}

/-- No entries. -/
def empty : Lru K V := ⟨[], List.nodup_nil⟩

/-- The number of entries. -/
def size (c : Lru K V) : ℕ := c.entries.length

/-- The entries used last. -/
def keep (c : Lru K V) (n : ℕ) : Lru K V :=
  ⟨c.entries.take n, c.nodup.sublist ((List.take_sublist n c.entries).map Prod.fst)⟩

variable [DecidableEq K]

/-- The value of a key. -/
def find (c : Lru K V) (k : K) : Option V := (c.entries.find? fun e => e.1 = k).map Prod.snd

/-- The entries of the other keys. -/
def others (c : Lru K V) (k : K) : List (K × V) := c.entries.filter fun e => e.1 ≠ k

theorem nodup_put (c : Lru K V) (k : K) (v : V) :
    (((k, v) :: c.others k).map Prod.fst).Nodup := by
  rw [List.map_cons, List.nodup_cons]
  refine ⟨fun hk => ?_, c.nodup.sublist (List.filter_sublist.map Prod.fst)⟩
  obtain ⟨e, he, rfl⟩ := List.mem_map.1 hk
  simp [others] at he

/-- A key gets a value. -/
def put (c : Lru K V) (k : K) (v : V) : Lru K V := ⟨(k, v) :: c.others k, c.nodup_put k v⟩

/-- The entry of a key goes. -/
def pop (c : Lru K V) (k : K) : Lru K V :=
  ⟨c.others k, c.nodup.sublist (List.filter_sublist.map Prod.fst)⟩

/-- A key is used, if there is an entry for it. -/
def use (c : Lru K V) (k : K) : Lru K V :=
  match c.find k with
  | some v => c.put k v
  | none => c

@[simp] theorem find_empty (k : K) : (empty : Lru K V).find k = none := rfl

/-- What the others of a key have for another key. -/
theorem find_others {c : Lru K V} {k j : K} (hkj : k ≠ j) :
    (c.others k).find? (fun e => e.1 = j) = c.entries.find? fun e => e.1 = j := by
  rw [others, List.find?_filter]
  congr 1
  funext e
  by_cases he : e.1 = j
  · simp [he, Ne.symm hkj]
  · simp [he]

/-- After a `put`, the key has its value and the other keys have theirs. -/
theorem find_put (c : Lru K V) (k j : K) (v : V) :
    (c.put k v).find j = if k = j then some v else c.find j := by
  unfold find put
  rw [List.find?_cons]
  by_cases hkj : k = j
  · simp [hkj]
  · simp only [hkj, decide_false, if_false, find_others hkj]

/-- Using a key changes no value. -/
@[simp] theorem find_use (c : Lru K V) (k j : K) : (c.use k).find j = c.find j := by
  unfold use
  cases hk : c.find k with
  | none => rfl
  | some v =>
    show (c.put k v).find j = c.find j
    rw [find_put]
    split_ifs with hkj
    · rw [← hkj, hk]
    · rfl

/-- After a `pop`, the key has no value and the other keys have theirs. -/
theorem find_pop (c : Lru K V) (k j : K) :
    (c.pop k).find j = if k = j then none else c.find j := by
  unfold find pop
  split_ifs with hkj
  · rw [Option.map_eq_none_iff, List.find?_eq_none]
    intro e he
    simp only [others, List.mem_filter, decide_eq_true_eq] at he
    simpa [← hkj] using he.2
  · rw [find_others hkj]

/-- An entry that is there after a `pop` was there before. -/
theorem find_of_find_pop {c : Lru K V} {k j : K} {v : V} (h : (c.pop k).find j = some v) :
    c.find j = some v := by
  rw [find_pop] at h
  split_ifs at h
  exact h

/-- An entry that stays keeps its value. -/
theorem find_of_find_keep {c : Lru K V} {n : ℕ} {k : K} {v : V} (h : (c.keep n).find k = some v) :
    c.find k = some v := by
  unfold find keep at h
  unfold find
  obtain ⟨e, he, rfl⟩ := Option.map_eq_some_iff.1 h
  rw [← List.take_append_drop n c.entries, List.find?_append, he]
  rfl

/-! ### The order of the keys -/

/-- The keys, the one used last first. -/
def keys (c : Lru K V) : List K := c.entries.map Prod.fst

omit [DecidableEq K] in
@[simp] theorem length_keys (c : Lru K V) : c.keys.length = c.size := List.length_map _

omit [DecidableEq K] in
@[simp] theorem keys_keep (c : Lru K V) (n : ℕ) : (c.keep n).keys = c.keys.take n := List.map_take

theorem keys_put (c : Lru K V) (k : K) (v : V) :
    (c.put k v).keys = k :: c.keys.filter fun j => j ≠ k := by
  unfold keys put others
  rw [List.map_cons, List.filter_map]
  rfl

/-- The keys are those that have a value. -/
theorem isSome_find_iff {c : Lru K V} {k : K} : (c.find k).isSome = true ↔ k ∈ c.keys := by
  unfold find keys
  rw [Option.isSome_map, List.find?_isSome, List.mem_map]
  simp

theorem find_eq_none_iff {c : Lru K V} {k : K} : c.find k = none ↔ k ∉ c.keys := by
  rw [← isSome_find_iff, Bool.not_eq_true, Option.isSome_eq_false_iff, Option.isNone_iff_eq_none]

theorem use_of_notMem {c : Lru K V} {k : K} (h : k ∉ c.keys) : c.use k = c := by
  rw [use, find_eq_none_iff.2 h]

theorem keys_use {c : Lru K V} {k : K} (h : k ∈ c.keys) :
    (c.use k).keys = k :: c.keys.filter fun j => j ≠ k := by
  obtain ⟨v, hv⟩ := Option.isSome_iff_exists.1 (isSome_find_iff.2 h)
  rw [use, hv]
  exact c.keys_put k v

theorem keys_pop (c : Lru K V) (k : K) : (c.pop k).keys = c.keys.filter fun j => j ≠ k := by
  unfold keys pop others
  rw [List.filter_map]
  rfl

/-- The keys that do not stay are those used longest ago. -/
theorem filter_notMem_keep (c : Lru K V) (n : ℕ) :
    c.keys.filter (fun k => k ∉ (c.keep n).keys) = c.keys.drop n := by
  have hnd : (c.keys.take n ++ c.keys.drop n).Nodup := by
    rw [List.take_append_drop]
    exact c.nodup
  rw [keys_keep]
  conv_lhs => arg 2; rw [← List.take_append_drop n c.keys]
  rw [List.filter_append, List.filter_eq_nil_iff.2, List.nil_append, List.filter_eq_self]
  · intro k hk
    simpa using fun hmem => List.disjoint_of_nodup_append hnd hmem hk
  · intro k hk
    simpa using hk

omit [DecidableEq K] in
/-- A key that is used comes before the others, which are all used one call longer ago. -/
theorem pairwise_behind {l : List K} {age age' : K → ℕ} (h : l.Pairwise fun j k => age j < age k)
    {k : K} (hk : age' k = 0) (hage : ∀ j ∈ l, age' j = age j + 1) :
    (k :: l).Pairwise fun i j => age' i < age' j := by
  rw [List.pairwise_cons]
  refine ⟨fun j hj => ?_, h.imp_of_mem fun hi hj hlt => ?_⟩
  · rw [hk, hage j hj]
    exact Nat.succ_pos _
  · rw [hage _ hi, hage _ hj]
    exact Nat.succ_lt_succ hlt

omit [DecidableEq K] in
/-- What a prefix of a list sorted by age has in it: those with few younger ones. -/
theorem mem_take_iff {l : List K} {age : K → ℕ} (h : l.Pairwise fun j k => age j < age k) {n : ℕ}
    {k : K} (hk : k ∈ l) : k ∈ l.take n ↔ l.countP (fun j => age j < age k) < n := by
  induction l generalizing n with
  | nil => cases hk
  | cons j l ih =>
    obtain ⟨hj, hl⟩ := List.pairwise_cons.1 h
    cases n with
    | zero => simp
    | succ n =>
      rw [List.take_succ_cons, List.mem_cons]
      by_cases hkj : k = j
      · -- the first one has no younger ones
        subst hkj
        have hcount : (k :: l).countP (fun j => age j < age k) = 0 := by
          rw [List.countP_eq_zero]
          intro x hx
          rcases List.mem_cons.1 hx with rfl | hx
          · simp
          · have := hj x hx
            simp only [decide_eq_true_eq]
            omega
        simp [hcount]
      · have hkl : k ∈ l := (List.mem_cons.1 hk).resolve_left hkj
        rw [List.countP_cons_of_pos (by simpa using hj k hkl), Nat.succ_lt_succ_iff, ← ih hl hkl]
        simp [hkj]

end Lru
