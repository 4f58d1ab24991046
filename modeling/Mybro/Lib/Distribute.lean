import Mathlib.Tactic

/-!
# Distributing records over slots

Records are taken one by one; each goes to the slot that `idx` names, where `add` takes it in, or
nowhere.

* `getElem?_distribute`: a slot ends up with exactly its own records, in their order;
* `flatMap_ownRecords`: the records of the slots are a partition of those that went to one of them;
* `sum_slots`: so the sums of a quantity over the slots add up to its sum over these records;
* `distributeM_eq_some_iff`: where taking a record in may fail, all of them are taken in exactly
  when there is a slot for each and every slot takes in its own.
-/

variable {ρ β M : Type}

/-- The slots after all the records. -/
def distribute (idx : ρ → Option ℕ) (add : β → ρ → β) (rs : List ρ) (slots : List β) : List β :=
  rs.foldl (fun slots r =>
    match idx r with
    | some i => slots.modify i fun b => add b r
    | none => slots) slots

/-- The records of a slot. -/
def ownRecords (idx : ρ → Option ℕ) (rs : List ρ) (i : ℕ) : List ρ :=
  rs.filter fun r => idx r = some i

/-- The records that go to one of the first `n` slots. -/
def placedRecords (idx : ρ → Option ℕ) (rs : List ρ) (n : ℕ) : List ρ :=
  rs.filter fun r => (idx r).any (· < n)

variable {idx : ρ → Option ℕ}

@[simp] theorem distribute_nil (add : β → ρ → β) (slots : List β) :
    distribute idx add [] slots = slots := rfl

theorem distribute_cons (add : β → ρ → β) (r : ρ) (rs : List ρ) (slots : List β) :
    distribute idx add (r :: rs) slots =
      distribute idx add rs (match idx r with
        | some i => slots.modify i fun b => add b r
        | none => slots) := rfl

/-- **Each slot takes in its own records.** -/
theorem getElem?_distribute (add : β → ρ → β) (rs : List ρ) (slots : List β) (i : ℕ) :
    (distribute idx add rs slots)[i]? =
      slots[i]?.map fun b => (ownRecords idx rs i).foldl add b := by
  induction rs generalizing slots with
  | nil => simp [ownRecords]
  | cons r rs ih =>
    rw [distribute_cons, ih]
    unfold ownRecords
    cases hr : idx r with
    | none => simp [hr]
    | some j =>
      by_cases hj : j = i
      · subst hj
        simp [hr, Function.comp_def]
      · simp [hr, hj]

theorem length_distribute (add : β → ρ → β) (rs : List ρ) (slots : List β) :
    (distribute idx add rs slots).length = slots.length := by
  induction rs generalizing slots with
  | nil => rfl
  | cons r rs ih =>
    rw [distribute_cons, ih]
    cases idx r <;> simp

/-- One more slot takes in its own records only. -/
theorem placedRecords_succ (rs : List ρ) (n : ℕ) :
    (placedRecords idx rs n ++ ownRecords idx rs n).Perm (placedRecords idx rs (n + 1)) := by
  have hold : (placedRecords idx rs (n + 1)).filter (fun r => (idx r).any (· < n)) =
      placedRecords idx rs n := by
    unfold placedRecords
    rw [List.filter_filter]
    refine List.filter_congr fun r _ => ?_
    cases idx r with
    | none => rfl
    | some j => simp; omega
  have hnew : (placedRecords idx rs (n + 1)).filter (fun r => !(idx r).any (· < n)) =
      ownRecords idx rs n := by
    unfold placedRecords ownRecords
    rw [List.filter_filter]
    refine List.filter_congr fun r _ => ?_
    cases idx r with
    | none => rfl
    | some j =>
      rw [Bool.eq_iff_iff]
      simp only [Option.any_some, Bool.and_eq_true, Bool.not_eq_true', decide_eq_true_eq,
        decide_eq_false_iff_not, Option.some.injEq]
      omega
  rw [← hold, ← hnew]
  exact List.filter_append_perm _ _

/-- **The slots share out the records.** -/
theorem flatMap_ownRecords (rs : List ρ) (n : ℕ) :
    ((List.range n).flatMap (ownRecords idx rs)).Perm (placedRecords idx rs n) := by
  induction n with
  | zero =>
    have hnone : placedRecords idx rs 0 = [] := by
      refine List.filter_eq_nil_iff.2 fun r _ => ?_
      cases idx r <;> simp
    rw [hnone]
    rfl
  | succ n ih =>
    rw [List.range_succ, List.flatMap_append, List.flatMap_singleton]
    exact (ih.append_right _).trans (placedRecords_succ rs n)

/-- **The sums over the slots add up.** -/
theorem sum_slots [AddCommMonoid M] (f : ρ → M) (rs : List ρ) (n : ℕ) :
    ((List.range n).map fun i => ((ownRecords idx rs i).map f).sum).sum =
      ((placedRecords idx rs n).map f).sum := by
  rw [← ((flatMap_ownRecords rs n).map f).sum_eq]
  induction List.range n with
  | nil => rfl
  | cons i is ih => simp [ih]

/-! ### Slots that may fail -/

/-- The slots after all the records; nothing, if there is no slot of the number of a record or the
slot does not take it in. -/
def distributeM (idx : ρ → Option ℕ) (add : β → ρ → Option β) (rs : List ρ) (slots : List β) :
    Option (List β) :=
  rs.foldlM (fun slots r =>
    match idx r with
    | some i => do
      let b ← slots[i]?
      let b ← add b r
      some (slots.set i b)
    | none => some slots) slots

variable {add : β → ρ → Option β} {r : ρ} {rs : List ρ} {slots slots' : List β}

theorem distributeM_cons_of_none (hr : idx r = none) :
    distributeM idx add (r :: rs) slots = distributeM idx add rs slots := by
  unfold distributeM
  rw [List.foldlM_cons, hr]
  rfl

theorem distributeM_cons_of_some {i : ℕ} (hr : idx r = some i) :
    distributeM idx add (r :: rs) slots = some slots' ↔
      ∃ b, slots[i]? = some b ∧ ∃ b₁, add b r = some b₁ ∧
        distributeM idx add rs (slots.set i b₁) = some slots' := by
  unfold distributeM
  rw [List.foldlM_cons, hr]
  simp only [Option.bind_eq_bind, Option.bind_assoc, Option.bind_eq_some_iff, Option.some.injEq,
    exists_eq_left']

theorem ownRecords_cons (r : ρ) (rs : List ρ) (i : ℕ) :
    ownRecords idx (r :: rs) i =
      if idx r = some i then r :: ownRecords idx rs i else ownRecords idx rs i := by
  unfold ownRecords
  rw [List.filter_cons]
  simp only [decide_eq_true_eq]

/-- What was in slot `i` has taken in the records of the slot. -/
def TakesIn (idx : ρ → Option ℕ) (add : β → ρ → Option β) (rs : List ρ) (slots slots' : List β)
    (i : ℕ) : Prop :=
  ∀ b, slots[i]? = some b →
    ∃ b', (ownRecords idx rs i).foldlM add b = some b' ∧ slots'[i]? = some b'

/-- Slots that take in nothing stay as they are. -/
theorem takesIn_nil_iff (hlen : slots'.length = slots.length) :
    (∀ i, TakesIn idx add [] slots slots' i) ↔ slots = slots' := by
  constructor
  · intro hslots
    refine List.ext_getElem? fun i => ?_
    cases hb : slots[i]? with
    | none =>
      rw [List.getElem?_eq_none_iff] at hb
      exact (List.getElem?_eq_none (hlen ▸ hb)).symm
    | some b =>
      obtain ⟨b', hb', hslot⟩ := hslots i b hb
      rw [hslot, ← hb']
      rfl
  · rintro rfl i b hb
    exact ⟨b, rfl, hb⟩

/-- When a slot has taken in its first record, every slot is left with the others. -/
theorem takesIn_cons_iff {i j : ℕ} {b b₁ : β} (hr : idx r = some j) (hb : slots[j]? = some b)
    (hadd : add b r = some b₁) :
    TakesIn idx add (r :: rs) slots slots' i ↔ TakesIn idx add rs (slots.set j b₁) slots' i := by
  unfold TakesIn
  rw [ownRecords_cons, hr]
  by_cases hij : j = i
  · subst hij
    rw [if_pos rfl, List.getElem?_set_self (List.getElem?_eq_some_iff.1 hb).1, hb]
    simp [hadd]
  · rw [if_neg (by simpa using hij), List.getElem?_set_ne hij]

/-- **When all records are taken in.** -/
theorem distributeM_eq_some_iff :
    distributeM idx add rs slots = some slots' ↔
      slots'.length = slots.length ∧ (∀ r ∈ rs, ∀ i, idx r = some i → i < slots.length) ∧
        ∀ i b, slots[i]? = some b →
          ∃ b', (ownRecords idx rs i).foldlM add b = some b' ∧ slots'[i]? = some b' := by
  induction rs generalizing slots with
  | nil =>
    constructor
    · intro h
      obtain rfl : slots = slots' := Option.some.inj h
      exact ⟨rfl, by simp, (takesIn_nil_iff rfl).2 rfl⟩
    · rintro ⟨hlen, -, hslots⟩
      exact congrArg some ((takesIn_nil_iff hlen).1 hslots)
  | cons r rs ih =>
    cases hr : idx r with
    | none =>
      rw [distributeM_cons_of_none hr, ih]
      simp [ownRecords_cons, hr]
    | some j =>
      rw [distributeM_cons_of_some hr]
      constructor
      · rintro ⟨b, hb, b₁, hadd, hrest⟩
        obtain ⟨hlen, hin, hslots⟩ := ih.1 hrest
        rw [List.length_set] at hlen hin
        refine ⟨hlen, ?_, fun i => (takesIn_cons_iff hr hb hadd).2 (hslots i)⟩
        rw [List.forall_mem_cons]
        refine ⟨fun i hi => ?_, hin⟩
        obtain rfl : j = i := Option.some.inj (hr.symm.trans hi)
        exact (List.getElem?_eq_some_iff.1 hb).1
      · rintro ⟨hlen, hin, hslots⟩
        rw [List.forall_mem_cons] at hin
        obtain ⟨hj, hin⟩ := hin
        have hb := List.getElem?_eq_getElem (hj j hr)
        -- the slot of the first record takes it in
        obtain ⟨b₂, hfold, -⟩ := hslots j _ hb
        rw [ownRecords_cons, if_pos hr, List.foldlM_cons] at hfold
        obtain ⟨b₁, hadd, -⟩ := Option.bind_eq_some_iff.1 hfold
        refine ⟨_, hb, b₁, hadd, ih.2 ⟨?_, ?_, fun i => (takesIn_cons_iff hr hb hadd).1 (hslots i)⟩⟩
        · rw [List.length_set, hlen]
        · rwa [List.length_set]
