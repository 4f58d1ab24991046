import Mybro.SchemaPasses

/-!
# The normal form of tool schemas

Which schemas come out of `normalizeSchema` without null alternatives, without `type` arrays, and
with enumerations and constants free of null. The recursion enters the members of objects and
nothing else, and the post-passes run after it. `normalForm_iff` says what that means for the
parameters of tools: whatever is not entered has to be in normal form from the start.
-/

namespace Mybro

open Value

/-! ### Normal form -/

/-- The normal form of an object. -/
structure NormalObject (obj : JsonMap) : Prop where
  combinators : ∀ key ∈ ["anyOf", "oneOf"], ∀ arr, obj.get key = some (array arr) →
    ∀ s ∈ arr, isNullSchema s = false
  type : ∀ arr, obj.get "type" ≠ some (array arr)
  enum : ∀ arr, obj.get "enum" = some (array arr) →
    (∀ v ∈ arr, v.isNull = false) ∧ (arr.map text).Nodup
  const : obj.get "const" ≠ some null

/-- Every object in a value, down to a number of levels, is in normal form. -/
def Normal : ℕ → Value → Prop
  | levels + 1, object obj => NormalObject obj ∧ ∀ k c, JsonMap.get obj k = some c → Normal levels c
  | levels + 1, array arr => ∀ s ∈ arr, Normal levels s
  | _, _ => True

/-! ### Passes and the recursion -/

/-- A change of values, member by member, that leaves everything but objects alone. -/
structure Entering (f : String → Value → Value) : Prop where
  other : ∀ k v, v.isObject = false → f k v = v
  object : ∀ k v, v.isObject = true → (f k v).isObject = true

/-- The members of one object are those of the other, changed. -/
def Changed (f : String → Value → Value) (obj obj' : JsonMap) : Prop :=
  ∀ k, obj'.get k = (obj.get k).map (f k)

/-- A change of values that leaves some members alone. -/
def except (f : String → Value → Value) (ks : List String) : String → Value → Value :=
  fun k v => if k ∈ ks then v else f k v

section

variable {f : String → Value → Value} {obj obj' : JsonMap}

theorem Entering.except (hf : Entering f) (ks : List String) : Entering (except f ks) where
  other := by
    intro k v hv
    unfold Mybro.except
    split_ifs
    · rfl
    · exact hf.other k v hv
  object := by
    intro k v hv
    unfold Mybro.except
    split_ifs
    · exact hv
    · exact hf.object k v hv

theorem Entering.isObject (hf : Entering f) (k : String) (v : Value) :
    (f k v).isObject = v.isObject := by
  cases hv : v.isObject with
  | true => exact hf.object k v hv
  | false => rw [hf.other k v hv, hv]

/-- A member that is no object is seen the same before and after. -/
theorem Changed.get_eq_some_iff (h : Changed f obj obj') (hf : Entering f) (k : String) {v : Value}
    (hv : v.isObject = false) : obj'.get k = some v ↔ obj.get k = some v := by
  rw [h k]
  constructor
  · intro hget
    obtain ⟨w, hw, hwv⟩ := Option.map_eq_some_iff.1 hget
    have hwo := hf.isObject k w
    rw [hwv, hv] at hwo
    rw [hf.other k w hwo.symm] at hwv
    rw [hw, hwv]
  · intro hget
    rw [hget, Option.map_some, hf.other k v hv]

theorem except_nil (f : String → Value → Value) : except f [] = f := by
  funext k v
  simp [Mybro.except]

/-- Simplifying a combinator does not look inside the members, and what it brings in is not changed.
-/
theorem simplify_changed (h : Changed f obj obj') (hf : Entering f) (key : String) :
    Changed (except f (soleKeys obj key)) (simplifyNullableCombinator obj key)
      (simplifyNullableCombinator obj' key) := by
  have hsame : ∀ arr, obj'.get key = some (array arr) ↔ obj.get key = some (array arr) :=
    fun arr => h.get_eq_some_iff hf key rfl
  intro k
  obtain habsent | ⟨arr, harr, hleft | ⟨inlined, hleft⟩ | ⟨hleft, hsole⟩⟩ := combinator_cases obj key
  · obtain ⟨hout, hkeys⟩ := simplify_of_absent habsent
    rw [hout, hkeys, (simplify_of_absent fun arr => mt (hsame arr).1 (habsent arr)).1, except_nil]
    exact h k
  · obtain ⟨hout, hkeys⟩ := simplify_of_none harr hleft
    rw [hout, hkeys, (simplify_of_none ((hsame arr).2 harr) hleft).1, except_nil, JsonMap.get_remove,
      JsonMap.get_remove, h k]
    split_ifs <;> rfl
  · obtain ⟨hout, hkeys⟩ := simplify_of_sole harr hleft
    rw [hout, hkeys, (simplify_of_sole ((hsame arr).2 harr) hleft).1]
    by_cases hk : k ∈ inlined.map Prod.fst
    · have hexcept : except f (inlined.map Prod.fst) k = fun v => v := by
        funext v
        exact if_pos hk
      rw [hexcept, Option.map_id', get_storeAll_of_mem hk _ (obj.remove key)]
    · have hexcept : except f (inlined.map Prod.fst) k = f k := by
        funext v
        exact if_neg hk
      rw [hexcept, get_storeAll_of_notMem hk, get_storeAll_of_notMem hk, JsonMap.get_remove,
        JsonMap.get_remove, h k]
      split_ifs <;> rfl
  · obtain ⟨hout, hkeys⟩ := simplify_of_several harr hleft hsole
    rw [hout, hkeys, (simplify_of_several ((hsame arr).2 harr) hleft hsole).1, except_nil,
      JsonMap.get_insert, JsonMap.get_insert, h k]
    split_ifs
    · exact congrArg some (hf.other _ _ rfl).symm
    · rfl

/-- The name `type`, if it holds an array. -/
def typeKeys (obj : JsonMap) : List String :=
  match obj.get "type" with
  | some (array _) => ["type"]
  | _ => []

theorem typeField_changed (h : Changed f obj obj') (hf : Entering f) :
    Changed (except f (typeKeys obj)) (normalizeTypeField obj) (normalizeTypeField obj') := by
  have hsame : ∀ arr, obj'.get "type" = some (array arr) ↔ obj.get "type" = some (array arr) :=
    fun arr => h.get_eq_some_iff hf "type" rfl
  intro k
  by_cases harr : ∃ arr, obj.get "type" = some (array arr)
  · obtain ⟨arr, harr⟩ := harr
    have hkeys : typeKeys obj = ["type"] := by
      unfold typeKeys
      rw [harr]
    rw [hkeys]
    by_cases hk : k = "type"
    · subst hk
      have hexcept : except f ["type"] "type" = fun v => v := by
        funext v
        exact if_pos List.mem_cons_self
      rw [get_normalizeTypeField harr, get_normalizeTypeField ((hsame arr).2 harr), hexcept,
        Option.map_id']
    · have hexcept : except f ["type"] k = f k := by
        funext v
        exact if_neg (by simpa using hk)
      rw [get_normalizeTypeField_of_ne hk, get_normalizeTypeField_of_ne hk, hexcept, h k]
  · have hkeys : typeKeys obj = [] := by
      unfold typeKeys
      split
      · rename_i arr hget
        exact absurd ⟨arr, hget⟩ harr
      · rfl
    rw [not_exists] at harr
    rw [hkeys, except_nil, normalizeTypeField_of_absent harr,
      normalizeTypeField_of_absent fun arr => mt (hsame arr).1 (harr arr), h k]

theorem enumField_changed (h : Changed f obj obj') (hf : Entering f) :
    Changed f (normalizeEnumField obj) (normalizeEnumField obj') := by
  have hsame : ∀ arr, obj'.get "enum" = some (array arr) ↔ obj.get "enum" = some (array arr) :=
    fun arr => h.get_eq_some_iff hf "enum" rfl
  intro k
  by_cases harr : ∃ arr, obj.get "enum" = some (array arr)
  · obtain ⟨arr, harr⟩ := harr
    by_cases hk : k = "enum"
    · subst hk
      rw [get_normalizeEnumField harr, get_normalizeEnumField ((hsame arr).2 harr)]
      unfold enumLeft
      split
      · rfl
      · exact congrArg some (hf.other _ _ rfl).symm
    · rw [get_normalizeEnumField_of_ne hk, get_normalizeEnumField_of_ne hk, h k]
  · rw [not_exists] at harr
    rw [normalizeEnumField_of_absent harr,
      normalizeEnumField_of_absent fun arr => mt (hsame arr).1 (harr arr), h k]

theorem removeConstNull_changed (h : Changed f obj obj') (hf : Entering f) :
    Changed f (removeConstNull obj) (removeConstNull obj') := by
  have hsame : obj'.get "const" = some null ↔ obj.get "const" = some null :=
    h.get_eq_some_iff hf "const" rfl
  intro k
  by_cases hnull : obj.get "const" = some null
  · rw [removeConstNull_of_null hnull, removeConstNull_of_null (hsame.2 hnull), JsonMap.get_remove,
      JsonMap.get_remove, h k]
    split_ifs <;> rfl
  · rw [removeConstNull_of_ne hnull, removeConstNull_of_ne (mt hsame.1 hnull), h k]

/-! ### All the passes -/

/-- The members that the recursion has not seen when the post-passes are done: those brought in by a
combinator, and what stands in the place of a `type` array. -/
def unseenKeys (obj : JsonMap) : List String :=
  soleKeys obj "anyOf" ++ soleKeys (simplifyNullableCombinator obj "anyOf") "oneOf" ++
    typeKeys (merged obj)

theorem except_except (f : String → Value → Value) (ks ks' : List String) :
    except (except f ks) ks' = except f (ks ++ ks') := by
  funext k v
  by_cases hk : k ∈ ks <;> by_cases hk' : k ∈ ks' <;> simp [Mybro.except, hk, hk']

/-- **The post-passes do not look inside the members.** -/
theorem postPasses_changed (h : Changed f obj obj') (hf : Entering f) :
    Changed (except f (unseenKeys obj)) (postPasses obj) (postPasses obj') := by
  have hany := simplify_changed h hf "anyOf"
  have hone := simplify_changed hany (hf.except _) "oneOf"
  rw [except_except] at hone
  have htype := typeField_changed hone (hf.except _)
  rw [except_except] at htype
  exact removeConstNull_changed (enumField_changed htype (hf.except _)) (hf.except _)

/-! ### Normal objects -/

/-- What an object has to be for the passes to bring it into normal form: once the combinators are
simplified they hold no null alternative, and one entry of a `type` array is left at most. -/
structure Settled (obj : JsonMap) : Prop where
  combinators : ∀ key ∈ ["anyOf", "oneOf"], ∀ arr, (merged obj).get key = some (array arr) →
    ∀ s ∈ arr, isNullSchema s = false
  type : ∀ arr, (merged obj).get "type" = some (array arr) →
    (arr.filter keepsType).length ≤ 1 ∧ ∀ ts, array ts ∉ arr

/-- **When the passes bring an object into normal form.** -/
theorem normalObject_postPasses (obj : JsonMap) : NormalObject (postPasses obj) ↔ Settled obj := by
  have hcombinator : ∀ key ∈ ["anyOf", "oneOf"], (postPasses obj).get key = (merged obj).get key := by
    intro key hkey
    simp only [List.mem_cons, List.not_mem_nil, or_false] at hkey
    obtain rfl | rfl := hkey <;> exact get_postPasses_of_ne (by decide) (by decide) (by decide)
  have htype : (∀ arr, (postPasses obj).get "type" ≠ some (array arr)) ↔
      ∀ arr, (merged obj).get "type" = some (array arr) →
        (arr.filter keepsType).length ≤ 1 ∧ ∀ ts, array ts ∉ arr := by
    rw [get_postPasses_type]
    by_cases harr : ∃ arr, (merged obj).get "type" = some (array arr)
    · obtain ⟨arr, harr⟩ := harr
      rw [get_normalizeTypeField harr, typeLeft_ne_array, harr]
      simp
    · rw [not_exists] at harr
      rw [normalizeTypeField_of_absent harr]
      simp [harr]
  constructor
  · intro h
    refine ⟨fun key hkey arr harr => ?_, htype.1 h.type⟩
    exact h.combinators key hkey arr ((hcombinator key hkey).trans harr)
  · intro h
    refine ⟨fun key hkey arr harr => ?_, htype.2 h.type, ?_, ?_⟩
    · exact h.combinators key hkey arr ((hcombinator key hkey).symm.trans harr)
    · intro arr harr
      rw [get_postPasses_enum] at harr
      by_cases henum : ∃ arr, (normalizeTypeField (merged obj)).get "enum" = some (array arr)
      · obtain ⟨before, hbefore⟩ := henum
        rw [get_normalizeEnumField hbefore] at harr
        exact enumLeft_normal harr
      · rw [not_exists] at henum
        rw [normalizeEnumField_of_absent henum] at harr
        exact absurd harr (henum arr)
    · intro hconst
      rw [postPasses_eq] at hconst
      by_cases hnull : (normalizeEnumField (normalizeTypeField (merged obj))).get "const" = some null
      · rw [removeConstNull_of_null hnull, JsonMap.get_remove, if_pos rfl] at hconst
        exact absurd hconst (by simp)
      · rw [removeConstNull_of_ne hnull] at hconst
        exact hnull hconst

/-- The normal form of an object does not depend on what is inside its members. -/
theorem normalObject_changed (h : Changed f obj obj') (hf : Entering f) :
    NormalObject obj' ↔ NormalObject obj := by
  have harray : ∀ k arr, obj'.get k = some (array arr) ↔ obj.get k = some (array arr) :=
    fun k arr => h.get_eq_some_iff hf k rfl
  have hnull : obj'.get "const" = some null ↔ obj.get "const" = some null :=
    h.get_eq_some_iff hf "const" rfl
  constructor
  · intro hn
    refine ⟨fun key hkey arr harr => ?_, fun arr => ?_, fun arr harr => ?_, mt hnull.2 hn.const⟩
    · exact hn.combinators key hkey arr ((harray key arr).2 harr)
    · exact mt (harray "type" arr).2 (hn.type arr)
    · exact hn.enum arr ((harray "enum" arr).2 harr)
  · intro hn
    refine ⟨fun key hkey arr harr => ?_, fun arr => ?_, fun arr harr => ?_, mt hnull.1 hn.const⟩
    · exact hn.combinators key hkey arr ((harray key arr).1 harr)
    · exact mt (harray "type" arr).1 (hn.type arr)
    · exact hn.enum arr ((harray "enum" arr).1 harr)

end

/-! ### Normal schemas -/

/-- The schemas that come out in normal form: every object that the recursion enters is settled, and
what it does not enter (arrays, skipped members, members brought in by a combinator) is in normal
form from the start. -/
def Normalizable : ℕ → Value → Prop
  | levels + 1, object obj => Settled obj ∧ ∀ k c, (postPasses obj).get k = some c →
      if k ∈ unseenKeys obj ∨ skipped k = true then Normal levels c else Normalizable levels c
  | levels, v => Normal levels v

/-- What the recursion makes of a member. -/
def enter (depth : ℕ) (k : String) (v : Value) : Value :=
  if skipped k then v else normalizeSchema depth [] v

theorem entering_enter (depth : ℕ) : Entering (enter depth) where
  other := by
    intro k v hv
    unfold enter
    split_ifs
    · rfl
    · exact normalizeSchema_of_not_object hv depth []
  object := by
    intro k v hv
    unfold enter
    split_ifs
    · exact hv
    · cases v with
      | object m =>
        cases depth with
        | zero => rfl
        | succ depth =>
          rw [normalizeSchema_object]
          rfl
      | _ => exact absurd hv (by simp [Value.isObject])

theorem changed_normalizeMember (depth : ℕ) (obj : JsonMap) :
    Changed (enter depth) obj (obj.map (normalizeMember depth)) := by
  intro k
  induction obj with
  | nil => rfl
  | cons p obj ih =>
    obtain ⟨k', v⟩ := p
    have hp : normalizeMember depth (k', v) = (k', enter depth k' v) := by
      unfold normalizeMember enter
      split_ifs <;> rfl
    rw [List.map_cons, hp, JsonMap.get_cons, JsonMap.get_cons]
    split_ifs with hk
    · rw [hk, Option.map_some]
    · exact ih

/-- **When normalization leaves a normal form.** -/
theorem normal_iff (depth : ℕ) (v : Value) :
    Normal depth (normalizeSchema depth [] v) ↔ Normalizable depth v := by
  induction depth generalizing v with
  | zero => cases v <;> rfl
  | succ depth ih =>
    cases v with
    | object obj =>
      have hchanged := postPasses_changed (changed_normalizeMember depth obj) (entering_enter depth)
      have hentering := (entering_enter depth).except (unseenKeys obj)
      rw [normalizeSchema_object, Normal, Normalizable, normalObject_changed hchanged hentering,
        normalObject_postPasses]
      refine and_congr_right fun _ => forall_congr' fun k => ?_
      rw [hchanged k]
      cases (postPasses obj).get k with
      | none => simp
      | some c =>
        -- the members that the recursion has seen are those it has entered
        have hmember : Normal depth (except (enter depth) (unseenKeys obj) k c) ↔
            if k ∈ unseenKeys obj ∨ skipped k = true then Normal depth c else Normalizable depth c := by
          unfold Mybro.except enter
          by_cases hk : k ∈ unseenKeys obj
          · simp [hk]
          · by_cases hs : skipped k = true
            · simp [hk, hs]
            · simp [hk, hs, ih c]
        simpa using hmember
    | _ => rfl

/-- **The normal form of tool parameters.** -/
theorem normalForm_iff (tools : Value) (hneeds : needsNormalization tools = true) :
    (∀ i params, getAt (parametersPath i) (normalizeToolSchemas tools) = some params →
        Normal 12 params) ↔
      ∀ i params, getAt (parametersPath i) tools = some params → Normalizable 12 params := by
  refine forall_congr' fun i => ?_
  rw [parametersPath_normalizeToolSchemas hneeds]
  constructor
  · intro h params hparams
    rw [hparams] at h
    exact (normal_iff 12 params).1 (h _ rfl)
  · intro h params hparams
    obtain ⟨before, hbefore, rfl⟩ := Option.map_eq_some_iff.1 hparams
    exact (normal_iff 12 before).2 (h before hbefore)

/-! ### Tools with a schema each -/

/-- A tool with given parameters, as the only one. -/
def oneTool (params : Value) : Value :=
  array [object [("function", object [("name", string "f"), ("parameters", params)])]]

/-- Nullable parameters. -/
def nullableParameters : Value :=
  object [("$defs", object []), ("type", array [string "object", string "null"])]

/-- Parameters of two types. -/
def twoTypeParameters : Value :=
  object [("$defs", object []), ("type", array [string "string", string "integer"])]

theorem normalObject_nil : NormalObject [] where
  combinators := fun _ _ _ h => absurd h (by simp)
  type := fun _ h => absurd h (by simp)
  enum := fun _ h => absurd h (by simp)
  const := by simp

theorem normalizable_nullableParameters : Normalizable 12 nullableParameters := by
  refine ⟨⟨?_, ?_⟩, ?_⟩
  · intro key hkey arr harr
    simp only [List.mem_cons, List.not_mem_nil, or_false] at hkey
    obtain rfl | rfl := hkey
    · exact absurd (show none = some (array arr) from harr) (by simp)
    · exact absurd (show none = some (array arr) from harr) (by simp)
  · intro arr harr
    obtain rfl : [string "object", string "null"] = arr := by
      simpa using show some (array [string "object", string "null"]) = some (array arr) from harr
    exact ⟨by decide, by simp⟩
  · intro k c hc
    have hpasses : postPasses [("$defs", object []), ("type", array [string "object", string "null"])] =
        [("$defs", object []), ("type", string "object")] := rfl
    rw [hpasses, JsonMap.get_cons, JsonMap.get_cons] at hc
    split_ifs at hc with hdefs htype
    · obtain rfl := Option.some.inj hc
      rw [if_pos (.inr (by rw [hdefs]; rfl))]
      exact ⟨normalObject_nil, fun _ _ h => absurd h (by simp)⟩
    · obtain rfl := Option.some.inj hc
      split_ifs <;> exact trivial
    · exact absurd hc (by simp)

/-- Nullable parameters come out in normal form. -/
theorem normalForm_nullable : Normal 12 (normalizeSchema 12 [] nullableParameters) := by
  refine (normalForm_iff (oneTool nullableParameters) (by decide)).2 ?_ 0 _ rfl
  intro i params hparams
  cases i with
  | zero =>
    obtain rfl : nullableParameters = params := Option.some.inj hparams
    exact normalizable_nullableParameters
  | succ i => simp [parametersPath, getAt, oneTool, asArray] at hparams

/-- Parameters of two types keep both. -/
theorem two_types_stay :
    ¬ ∀ tools, needsNormalization tools = true →
      ∀ i params, getAt (parametersPath i) (normalizeToolSchemas tools) = some params →
        Normal 12 params := by
  intro h
  have hnormal := h (oneTool twoTypeParameters) (by decide) 0 twoTypeParameters rfl
  exact hnormal.1.type [string "string", string "integer"] rfl

end Mybro
