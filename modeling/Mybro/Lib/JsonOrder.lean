import Mathlib.Data.String.Basic
import Mybro.Lib.JsonFrame

/-!
# Ordered objects

A JSON object with its members in the order of their keys is determined by what is stored under each
key (`Ordered.eq_of_get`), and stays ordered when members are stored, dropped or changed. Putting in
its place what is there already changes nothing (`modifyAt_of_getAt`).
-/

namespace JsonMap

/-- The members of an object are in the order of their keys. -/
def Ordered (m : JsonMap) : Prop := (m.map Prod.fst).Pairwise (· < ·)

variable {m m' : JsonMap} {k : String} {v : Value}

theorem mem_of_get (h : m.get k = some v) : (k, v) ∈ m := by
  induction m with
  | nil => simp at h
  | cons p m ih =>
    obtain ⟨k', v'⟩ := p
    rw [get_cons] at h
    split_ifs at h with hk
    · obtain rfl := Option.some.inj h
      rw [hk]
      exact List.mem_cons_self
    · exact List.mem_cons_of_mem _ (ih h)

theorem Ordered.get_of_mem (hm : Ordered m) (h : (k, v) ∈ m) : m.get k = some v := by
  induction m with
  | nil => cases h
  | cons p m ih =>
    obtain ⟨k', v'⟩ := p
    obtain ⟨hfirst, hrest⟩ := List.pairwise_cons.1 hm
    rw [get_cons]
    rcases List.mem_cons.1 h with heq | hmem
    · obtain ⟨rfl, rfl⟩ := Prod.mk.inj heq
      exact if_pos rfl
    · have hlt : k' < k := hfirst k (List.mem_map_of_mem hmem)
      rw [if_neg hlt.ne', ih hrest hmem]

/-- An ordered object is determined by what is stored in it. -/
theorem Ordered.eq_of_get (hm : Ordered m) (hm' : Ordered m') (h : ∀ k, m.get k = m'.get k) :
    m = m' := by
  have hirrefl : Std.Irrefl fun p q : String × Value => p.1 < q.1 := ⟨fun p => lt_irrefl p.1⟩
  refine List.Pairwise.eq_of_mem_iff (List.pairwise_map.1 hm) (List.pairwise_map.1 hm') ?_
  rintro ⟨k, v⟩
  constructor
  · intro hmem
    exact mem_of_get ((h k).symm.trans (hm.get_of_mem hmem))
  · intro hmem
    exact mem_of_get ((h k).trans (hm'.get_of_mem hmem))

theorem mem_keys_insert {k' : String} (h : k' ∈ (m.insert k v).map Prod.fst) :
    k' = k ∨ k' ∈ m.map Prod.fst := by
  induction m with
  | nil => exact Or.inl (List.mem_singleton.1 h)
  | cons p m ih =>
    obtain ⟨k₀, v₀⟩ := p
    rw [insert] at h
    split_ifs at h with heq hlt
    · rcases List.mem_cons.1 h with rfl | hmem
      · exact Or.inl rfl
      · exact Or.inr (List.mem_cons_of_mem _ hmem)
    · rcases List.mem_cons.1 h with rfl | hmem
      · exact Or.inl rfl
      · exact Or.inr hmem
    · rcases List.mem_cons.1 h with rfl | hmem
      · exact Or.inr List.mem_cons_self
      · exact (ih hmem).imp_right fun hmem => List.mem_cons_of_mem _ hmem

theorem Ordered.insert (hm : Ordered m) (k : String) (v : Value) : Ordered (m.insert k v) := by
  induction m with
  | nil => exact List.pairwise_singleton _ _
  | cons p m ih =>
    obtain ⟨k₀, v₀⟩ := p
    obtain ⟨hfirst, hrest⟩ := List.pairwise_cons.1 hm
    rw [JsonMap.insert]
    split_ifs with heq hlt
    · subst heq
      exact hm
    · refine List.pairwise_cons.2 ⟨fun k' hk' => ?_, hm⟩
      rcases List.mem_cons.1 hk' with rfl | hmem
      · exact hlt
      · exact hlt.trans (hfirst k' hmem)
    · refine List.pairwise_cons.2 ⟨fun k' hk' => ?_, ih hrest⟩
      rcases mem_keys_insert hk' with rfl | hmem
      · exact lt_of_le_of_ne (not_lt.1 hlt) (Ne.symm heq)
      · exact hfirst k' hmem

theorem Ordered.remove (hm : Ordered m) (k : String) : Ordered (m.remove k) :=
  hm.sublist (List.filter_sublist.map _)

theorem Ordered.modify (hm : Ordered m) (k : String) (f : Value → Value) :
    Ordered (m.modify k f) := by
  have hkeys : (m.modify k f).map Prod.fst = m.map Prod.fst := by
    rw [JsonMap.modify, List.map_map]
    refine List.map_congr_left fun p _ => ?_
    dsimp only [Function.comp_apply]
    split_ifs <;> rfl
  unfold Ordered
  rw [hkeys]
  exact hm

/-- Changing a member to what it is. -/
theorem Ordered.modify_of_get (hm : Ordered m) {f : Value → Value} (h : m.get k = some v)
    (hv : f v = v) : m.modify k f = m := by
  refine (hm.modify k f).eq_of_get hm fun k' => ?_
  rw [JsonMap.get_modify]
  split_ifs with hk
  · rw [hk, h, Option.map_some, hv]
  · rfl

/-- Storing what is there already. -/
theorem Ordered.insert_of_get (hm : Ordered m) (h : m.get k = some v) : m.insert k v = m := by
  refine (hm.insert k v).eq_of_get hm fun k' => ?_
  rw [get_insert]
  split_ifs with hk
  · rw [hk, h]
  · rfl

end JsonMap

namespace Value

/-- The objects on the way to a node are ordered. -/
def OrderedAlong (path : List Seg) (v : Value) : Prop :=
  ∀ p obj, p <+: path → getAt p v = some (object obj) → JsonMap.Ordered obj

variable {path : List Seg} {v c : Value}

theorem OrderedAlong.key {obj : JsonMap} {k : String}
    (h : OrderedAlong (.key k :: path) (object obj)) (hc : obj.get k = some c) :
    OrderedAlong path c := by
  intro p o hp ho
  refine h (.key k :: p) o ((List.prefix_cons_inj _).2 hp) ?_
  show (JsonMap.get obj k).bind (getAt p) = _
  rw [hc]
  exact ho

theorem OrderedAlong.idx {xs : List Value} {i : ℕ} (h : OrderedAlong (.idx i :: path) (array xs))
    (hc : xs[i]? = some c) : OrderedAlong path c := by
  intro p o hp ho
  refine h (.idx i :: p) o ((List.prefix_cons_inj _).2 hp) ?_
  show (xs[i]?).bind (getAt p) = _
  rw [hc]
  exact ho

/-- Putting what is there already in its place. -/
theorem modifyAt_of_getAt {r : Value} (hordered : OrderedAlong path v)
    (h : getAt path v = some r) : modifyAt path (fun _ => r) v = v := by
  induction path generalizing v with
  | nil => exact (Option.some.inj h).symm
  | cons s path ih =>
    cases s with
    | key k =>
      obtain ⟨c, hc, hpath⟩ := Option.bind_eq_some_iff.1 h
      cases v with
      | object obj =>
        have hobj : JsonMap.Ordered obj := hordered [] obj List.nil_prefix rfl
        exact congrArg object (hobj.modify_of_get hc (ih (hordered.key hc) hpath))
      | _ => cases hc
    | idx i =>
      obtain ⟨c, hc, hpath⟩ := Option.bind_eq_some_iff.1 h
      cases v with
      | array xs =>
        have hxs : xs[i]? = some c := hc
        have hsame := ih (hordered.idx hxs) hpath
        refine congrArg array (List.ext_getElem? fun j => ?_)
        rw [List.getElem?_modify]
        by_cases hij : i = j
        · subst hij
          rw [hxs]
          simpa using hsame
        · simp [hij]
      | _ => cases hc

end Value
