import Mathlib.Data.List.DropRight
import Mathlib.Tactic

/-!
# Bounded buffers and their newest entries

* `push`: a buffer of a given capacity takes one more entry, and the oldest leaves when it is full.
  What it holds in the end are the last entries of its history (`foldl_push`).
* `IsNewest`: a list shows the newest of the entries that satisfy a predicate, the newest first. It
  is determined by that (`IsNewest.unique`), and is found by going through the buffer from its end
  (`exists_isNewest`).
-/

namespace Ring

variable {α : Type*}

/-! ### The buffer -/

/-- One more entry in a buffer of capacity `c`. -/
def push (c : ℕ) (buffer : List α) (x : α) : List α :=
  (if c ≤ buffer.length then buffer.tail else buffer) ++ [x]

/-- What is held after one more entry; there is always room for one. -/
theorem push_rtake (c : ℕ) (h : List α) (x : α) :
    push c (h.rtake (max c 1)) x = (h ++ [x]).rtake (max c 1) := by
  have hlen : (h.rtake (max c 1)).length = min h.length (max c 1) := by
    simp only [List.rtake, List.length_drop]
    omega
  unfold push
  rw [hlen]
  unfold List.rtake
  rw [List.length_append, List.length_singleton]
  split_ifs with hfull
  · rw [List.tail_drop, List.drop_append_of_le_length (by omega)]
    by_cases h0 : h.length = 0
    · simp [List.length_eq_zero_iff.1 h0]
    · congr 2
      omega
  · rw [List.drop_append_of_le_length (by omega)]
    congr 2
    omega

/-- **A buffer holds the last entries of its history.** -/
theorem foldl_push (c : ℕ) (h : List α) : h.foldl (push c) [] = h.rtake (max c 1) := by
  induction h using List.reverseRecOn with
  | nil => rw [List.rtake_nil]; rfl
  | append_singleton h x ih => rw [List.foldl_append, ih]; exact push_rtake c h x

theorem length_rtake (n : ℕ) (l : List α) : (l.rtake n).length = min l.length n := by
  simp only [List.rtake, List.length_drop]
  omega

theorem rtake_min (n : ℕ) (l : List α) : l.rtake (min l.length n) = l.rtake n := by
  unfold List.rtake
  congr 1
  omega

/-! ### The newest entries -/

/-- `shown` are the entries of `l` at the positions `pos`: the newest that satisfy `p`, at most
`limit`, the newest first. -/
structure IsNewest (p : α → Bool) (limit : ℕ) (l shown : List α) (pos : List ℕ) : Prop where
  entries : shown.map some = pos.map (l[·]?)
  newestFirst : pos.Pairwise (· > ·)
  satisfies : ∀ x ∈ shown, p x = true
  /-- No newer one is missing. -/
  complete : ∀ i ∈ pos, ∀ j x, i < j → l[j]? = some x → p x = true → j ∈ pos
  length : shown.length = min limit (l.countP p)

section

variable {p : α → Bool} {limit : ℕ} {l shown : List α} {pos : List ℕ}

namespace IsNewest

theorem nodup (h : IsNewest p limit l shown pos) : pos.Nodup :=
  h.newestFirst.imp fun hlt => by omega

theorem length_pos_eq (h : IsNewest p limit l shown pos) : pos.length = min limit (l.countP p) := by
  have hlen := congrArg List.length h.entries
  rw [List.length_map, List.length_map] at hlen
  rw [← hlen, h.length]

/-- A position that is shown is one of an entry that satisfies the predicate. -/
theorem exists_entry (h : IsNewest p limit l shown pos) {i : ℕ} (hi : i ∈ pos) :
    ∃ x, l[i]? = some x ∧ p x = true := by
  have hmem : l[i]? ∈ shown.map some := h.entries ▸ List.mem_map_of_mem hi
  obtain ⟨x, hx, heq⟩ := List.mem_map.1 hmem
  exact ⟨x, heq.symm, h.satisfies x hx⟩

/-- Of two lists of newest entries, one has all the positions of the other. -/
theorem subset_or {shown' : List α} {pos' : List ℕ} (h : IsNewest p limit l shown pos)
    (h' : IsNewest p limit l shown' pos') : pos ⊆ pos' ∨ pos' ⊆ pos := by
  by_contra hnot
  rw [not_or, List.subset_def, List.subset_def] at hnot
  push Not at hnot
  obtain ⟨⟨i, hi, hi'⟩, j, hj', hj⟩ := hnot
  rcases Nat.lt_trichotomy i j with hlt | rfl | hlt
  · obtain ⟨x, hx, hp⟩ := h'.exists_entry hj'
    exact hj (h.complete i hi j x hlt hx hp)
  · exact hj hi
  · obtain ⟨x, hx, hp⟩ := h.exists_entry hi
    exact hi' (h'.complete j hj' i x hlt hx hp)

/-- **The newest entries are determined.** -/
theorem unique {shown' : List α} {pos' : List ℕ} (h : IsNewest p limit l shown pos)
    (h' : IsNewest p limit l shown' pos') : shown = shown' := by
  have hlen : pos.length = pos'.length := h.length_pos_eq.trans h'.length_pos_eq.symm
  have hperm : pos.Perm pos' := by
    rcases subset_or h h' with hsub | hsub
    · exact (List.subperm_of_subset h.nodup hsub).perm_of_length_le hlen.ge
    · exact ((List.subperm_of_subset h'.nodup hsub).perm_of_length_le hlen.le).symm
  have hpos : pos = pos' := hperm.eq_of_pairwise' h.newestFirst h'.newestFirst
  apply List.map_injective_iff.2 (Option.some_injective α)
  rw [h.entries, h'.entries, hpos]

end IsNewest

/-- The positions of the entries that satisfy a predicate, in their order. -/
def positions (p : α → Bool) (l : List α) : List ℕ :=
  (List.range l.length).filter fun i => (l[i]?).any p

theorem mem_positions {i : ℕ} : i ∈ positions p l ↔ ∃ x, l[i]? = some x ∧ p x = true := by
  unfold positions
  rw [List.mem_filter, List.mem_range, Option.any_eq_true]
  constructor
  · rintro ⟨-, x, hx, hp⟩
    exact ⟨x, hx, hp⟩
  · rintro ⟨x, hx, hp⟩
    exact ⟨(List.getElem?_eq_some_iff.1 hx).1, x, hx, hp⟩

theorem pairwise_positions : (positions p l).Pairwise (· < ·) :=
  List.Pairwise.filter _ List.pairwise_lt_range

/-- At these positions are the entries that satisfy the predicate. -/
theorem map_positions : (positions p l).map (l[·]?) = (l.filter p).map some := by
  have hrange : (List.range l.length).map (l[·]?) = l.map some := by
    apply List.ext_getElem
    · simp
    · intro i hi _
      simp
  have hfilter := @List.filter_map _ _ (fun i => l[i]?) (Option.any p) (List.range l.length)
  rw [hrange, List.filter_map] at hfilter
  exact hfilter.symm

/-- **Going through the buffer from its end finds the newest entries.** -/
theorem exists_isNewest (p : α → Bool) (limit : ℕ) (l : List α) :
    ∃ pos, IsNewest p limit l ((l.reverse.filter p).take limit) pos := by
  refine ⟨(positions p l).reverse.take limit, ?_, ?_, ?_, ?_, ?_⟩
  · rw [List.map_take, List.map_take, List.filter_reverse, List.map_reverse, List.map_reverse,
      map_positions]
  · exact (List.pairwise_reverse.2 pairwise_positions).sublist (List.take_sublist _ _)
  · intro x hx
    exact (List.mem_filter.1 (List.mem_of_mem_take hx)).2
  · intro i hi j x hlt hx hp
    have hj : j ∈ (positions p l).reverse := List.mem_reverse.2 (mem_positions.2 ⟨x, hx, hp⟩)
    rw [← List.take_append_drop limit (positions p l).reverse, List.mem_append] at hj
    refine hj.resolve_right fun hdrop => ?_
    -- what is left out is older than what is shown
    have hpairs : ((positions p l).reverse.take limit ++
        (positions p l).reverse.drop limit).Pairwise (· > ·) := by
      rw [List.take_append_drop]
      exact List.pairwise_reverse.2 pairwise_positions
    have hgt : i > j := (List.pairwise_append.1 hpairs).2.2 i hi j hdrop
    omega
  · rw [List.length_take, List.filter_reverse, List.length_reverse, List.countP_eq_length_filter]

end

end Ring
