import Mybro.SchemaNorm

/-!
# The post-passes of the schema normalization

What each pass of `postPasses` makes of the members of an object, one lemma for each way it can go:
`combinator_cases` and the `simplify_of_..` lemmas for the combinators, `typeLeft` and `enumLeft`
for what remains of a `type` or `enum` array.
-/

namespace Mybro

open Value

/-! ### The combinators -/

/-- Members stored one after the other. -/
def storeAll (inlined m : JsonMap) : JsonMap := inlined.foldl (fun m p => m.insert p.1 p.2) m

/-- The alternatives that are left without the null ones. -/
def alternatives (arr : List Value) : List Value := arr.filter fun s => !isNullSchema s

/-- The names of the members that a sole alternative brings in. -/
def soleKeys (obj : JsonMap) (key : String) : List String :=
  match obj.get key with
  | some (array arr) =>
    match alternatives arr with
    | [object inlined] => inlined.map Prod.fst
    | _ => []
  | _ => []

section

variable {obj : JsonMap} {key : String} {arr : List Value} {inlined : JsonMap}

theorem simplify_of_absent (h : ∀ arr, obj.get key ≠ some (array arr)) :
    simplifyNullableCombinator obj key = obj ∧ soleKeys obj key = [] := by
  unfold simplifyNullableCombinator soleKeys
  constructor
  · split
    · rename_i arr harr
      exact absurd harr (h arr)
    · rfl
  · split
    · rename_i arr harr
      exact absurd harr (h arr)
    · rfl

theorem simplify_of_none (h : obj.get key = some (array arr)) (hleft : alternatives arr = []) :
    simplifyNullableCombinator obj key = obj.remove key ∧ soleKeys obj key = [] := by
  unfold simplifyNullableCombinator soleKeys
  rw [h]
  unfold alternatives at hleft ⊢
  simp only [hleft, and_self]

theorem simplify_of_sole (h : obj.get key = some (array arr))
    (hleft : alternatives arr = [object inlined]) :
    simplifyNullableCombinator obj key = storeAll inlined (obj.remove key) ∧
      soleKeys obj key = inlined.map Prod.fst := by
  unfold simplifyNullableCombinator soleKeys
  rw [h]
  unfold alternatives at hleft ⊢
  simp only [hleft, storeAll, and_self]

theorem simplify_of_several (h : obj.get key = some (array arr)) (hleft : alternatives arr ≠ [])
    (hsole : ∀ inlined, alternatives arr ≠ [object inlined]) :
    simplifyNullableCombinator obj key = obj.insert key (array (alternatives arr)) ∧
      soleKeys obj key = [] := by
  unfold simplifyNullableCombinator soleKeys
  rw [h]
  constructor
  · dsimp only
    split
    · rename_i hnone
      exact absurd hnone hleft
    · rename_i inlined hinlined
      exact absurd hinlined (hsole inlined)
    · rfl
  · dsimp only
    split
    · rename_i inlined hinlined
      exact absurd hinlined (hsole inlined)
    · rfl

/-- The four ways a combinator is simplified. -/
theorem combinator_cases (obj : JsonMap) (key : String) :
    (∀ arr, obj.get key ≠ some (array arr)) ∨
      ∃ arr, obj.get key = some (array arr) ∧
        (alternatives arr = [] ∨ (∃ inlined, alternatives arr = [object inlined]) ∨
          alternatives arr ≠ [] ∧ ∀ inlined, alternatives arr ≠ [object inlined]) := by
  by_cases h : ∃ arr, obj.get key = some (array arr)
  · obtain ⟨arr, harr⟩ := h
    refine .inr ⟨arr, harr, ?_⟩
    by_cases hleft : alternatives arr = []
    · exact .inl hleft
    · by_cases hsole : ∃ inlined, alternatives arr = [object inlined]
      · exact .inr (.inl hsole)
      · exact .inr (.inr ⟨hleft, not_exists.1 hsole⟩)
  · exact .inl (not_exists.1 h)

end

theorem get_storeAll_of_notMem {inlined m : JsonMap} {k : String} (h : k ∉ inlined.map Prod.fst) :
    (storeAll inlined m).get k = m.get k := by
  induction inlined generalizing m with
  | nil => rfl
  | cons p inlined ih =>
    rw [List.map_cons, List.mem_cons, not_or] at h
    show (storeAll inlined (m.insert p.1 p.2)).get k = _
    rw [ih h.2, JsonMap.get_insert, if_neg h.1]

/-- A member that is stored does not depend on what was there. -/
theorem get_storeAll_of_mem {inlined : JsonMap} {k : String} (h : k ∈ inlined.map Prod.fst)
    (m m' : JsonMap) : (storeAll inlined m).get k = (storeAll inlined m').get k := by
  induction inlined generalizing m m' with
  | nil => simp at h
  | cons p inlined ih =>
    show (storeAll inlined (m.insert p.1 p.2)).get k = (storeAll inlined (m'.insert p.1 p.2)).get k
    by_cases hk : k ∈ inlined.map Prod.fst
    · exact ih hk _ _
    · rw [List.map_cons, List.mem_cons, or_iff_left hk] at h
      rw [get_storeAll_of_notMem hk, get_storeAll_of_notMem hk, JsonMap.get_insert,
        JsonMap.get_insert, if_pos h, if_pos h]

/-! ### The other passes -/

/-- What is left of a `type` array. -/
def typeLeft (arr : List Value) : Option Value :=
  match arr.filter keepsType with
  | [] => none
  | [first] => some first
  | arr' => some (array arr')

/-- What is left of an `enum` array. -/
def enumLeft (arr : List Value) : Option Value :=
  match dedupe [] (arr.filter fun v => !v.isNull) with
  | [] => none
  | arr' => some (array arr')

section

variable {obj : JsonMap} {arr : List Value}

theorem get_normalizeTypeField_of_ne {k : String} (hk : k ≠ "type") :
    (normalizeTypeField obj).get k = obj.get k := by
  unfold normalizeTypeField
  split
  · split
    · rw [JsonMap.get_remove, if_neg hk]
    · rw [JsonMap.get_insert, if_neg hk]
    · rw [JsonMap.get_insert, if_neg hk]
  · rfl

theorem get_normalizeTypeField (h : obj.get "type" = some (array arr)) :
    (normalizeTypeField obj).get "type" = typeLeft arr := by
  unfold normalizeTypeField typeLeft
  rw [h]
  dsimp only
  generalize arr.filter keepsType = left
  obtain _ | ⟨first, _ | ⟨second, rest⟩⟩ := left
  · exact (JsonMap.get_remove obj _ _).trans (if_pos rfl)
  · exact (JsonMap.get_insert obj _ _ _).trans (if_pos rfl)
  · exact (JsonMap.get_insert obj _ _ _).trans (if_pos rfl)

theorem normalizeTypeField_of_absent (h : ∀ arr, obj.get "type" ≠ some (array arr)) :
    normalizeTypeField obj = obj := by
  unfold normalizeTypeField
  split
  · rename_i arr harr
    exact absurd harr (h arr)
  · rfl

theorem get_normalizeEnumField_of_ne {k : String} (hk : k ≠ "enum") :
    (normalizeEnumField obj).get k = obj.get k := by
  unfold normalizeEnumField
  split
  · split
    · rw [JsonMap.get_remove, if_neg hk]
    · rw [JsonMap.get_insert, if_neg hk]
  · rfl

theorem get_normalizeEnumField (h : obj.get "enum" = some (array arr)) :
    (normalizeEnumField obj).get "enum" = enumLeft arr := by
  unfold normalizeEnumField enumLeft
  rw [h]
  dsimp only
  generalize dedupe [] (arr.filter fun v => !v.isNull) = left
  obtain _ | ⟨first, rest⟩ := left
  · exact (JsonMap.get_remove obj _ _).trans (if_pos rfl)
  · exact (JsonMap.get_insert obj _ _ _).trans (if_pos rfl)

theorem normalizeEnumField_of_absent (h : ∀ arr, obj.get "enum" ≠ some (array arr)) :
    normalizeEnumField obj = obj := by
  unfold normalizeEnumField
  split
  · rename_i arr harr
    exact absurd harr (h arr)
  · rfl

theorem removeConstNull_of_null (h : obj.get "const" = some null) :
    removeConstNull obj = obj.remove "const" := by
  unfold removeConstNull
  rw [h]

theorem removeConstNull_of_ne (h : obj.get "const" ≠ some null) : removeConstNull obj = obj := by
  unfold removeConstNull
  split
  · rename_i hnull
    exact absurd hnull h
  · rfl

/-! ### All the passes -/

/-- An object without its null alternatives, a sole alternative merged in. -/
def merged (obj : JsonMap) : JsonMap :=
  simplifyNullableCombinator (simplifyNullableCombinator obj "anyOf") "oneOf"

theorem postPasses_eq (obj : JsonMap) :
    postPasses obj = removeConstNull (normalizeEnumField (normalizeTypeField (merged obj))) := rfl

theorem get_removeConstNull_of_ne {k : String} (hk : k ≠ "const") :
    (removeConstNull obj).get k = obj.get k := by
  by_cases hnull : obj.get "const" = some null
  · rw [removeConstNull_of_null hnull, JsonMap.get_remove, if_neg hk]
  · rw [removeConstNull_of_ne hnull]

/-- Most members come out of the combinators as they are. -/
theorem get_postPasses_of_ne {k : String} (htype : k ≠ "type") (henum : k ≠ "enum")
    (hconst : k ≠ "const") : (postPasses obj).get k = (merged obj).get k := by
  rw [postPasses_eq, get_removeConstNull_of_ne hconst, get_normalizeEnumField_of_ne henum,
    get_normalizeTypeField_of_ne htype]

theorem get_postPasses_type :
    (postPasses obj).get "type" = (normalizeTypeField (merged obj)).get "type" := by
  rw [postPasses_eq, get_removeConstNull_of_ne (by decide), get_normalizeEnumField_of_ne (by decide)]

theorem get_postPasses_enum :
    (postPasses obj).get "enum" = (normalizeEnumField (normalizeTypeField (merged obj))).get "enum" := by
  rw [postPasses_eq, get_removeConstNull_of_ne (by decide)]

/-! ### What remains of an array -/

/-- An array is left of a `type` array exactly when several entries are left or one is itself an
array. -/
theorem typeLeft_ne_array :
    (∀ ts, typeLeft arr ≠ some (array ts)) ↔
      (arr.filter keepsType).length ≤ 1 ∧ ∀ ts, array ts ∉ arr := by
  have hkeep : ∀ ts, array ts ∈ arr ↔ array ts ∈ arr.filter keepsType := by
    intro ts
    rw [List.mem_filter, and_iff_left (show keepsType (array ts) = true from rfl)]
  simp only [hkeep]
  unfold typeLeft
  generalize arr.filter keepsType = left
  obtain _ | ⟨first, _ | ⟨second, rest⟩⟩ := left
  · simp
  · simp [eq_comm]
  · simp

theorem mem_dedupe {seen : List String} {l : List Value} {v : Value} (h : v ∈ dedupe seen l) :
    v ∈ l ∧ v.text ∉ seen := by
  induction l generalizing seen with
  | nil => simp [dedupe] at h
  | cons w l ih =>
    rw [dedupe] at h
    split_ifs at h with hw
    · obtain ⟨hv, hseen⟩ := ih h
      exact ⟨List.mem_cons_of_mem w hv, hseen⟩
    · rcases List.mem_cons.1 h with rfl | hv
      · exact ⟨List.mem_cons_self, hw⟩
      · obtain ⟨hl, hseen⟩ := ih hv
        exact ⟨List.mem_cons_of_mem w hl, fun hin => hseen (List.mem_cons_of_mem _ hin)⟩

theorem nodup_dedupe (seen : List String) (l : List Value) : ((dedupe seen l).map text).Nodup := by
  induction l generalizing seen with
  | nil => exact List.nodup_nil
  | cons w l ih =>
    rw [dedupe]
    split_ifs
    · exact ih seen
    · rw [List.map_cons, List.nodup_cons]
      refine ⟨?_, ih _⟩
      intro hmem
      obtain ⟨v, hv, htext⟩ := List.mem_map.1 hmem
      exact (mem_dedupe hv).2 (by rw [htext]; exact List.mem_cons_self)

/-- What is left of an enumeration has no null and no duplicate. -/
theorem enumLeft_normal {left : List Value} (h : enumLeft arr = some (array left)) :
    (∀ v ∈ left, v.isNull = false) ∧ (left.map text).Nodup := by
  have hleft : left = dedupe [] (arr.filter fun v => !v.isNull) := by
    unfold enumLeft at h
    split at h
    · exact absurd h (by simp)
    · simpa using h.symm
  subst hleft
  refine ⟨fun v hv => ?_, nodup_dedupe _ _⟩
  simpa using (List.mem_filter.1 (mem_dedupe hv).1).2

end

end Mybro
