import Mybro.Lib.JsonOrder
import Mybro.Lib.JsonSchema
import Mybro.SchemaForm

/-!
# Validity under schema normalization

Whether a tool argument without null that is valid against a schema stays valid against the
normalized one. Each post-pass drops or rewrites members of an object without losing an argument
without null, and `valid_normalizeSchema` carries that through the recursion. The recursion also
enters the object given as a `const`, which is data: it has to come out as it went in.
-/

namespace Mybro

open Value JsonSchema

/-! ### Data that is left alone -/

/-- An object that none of the post-passes changes. -/
structure Untouched (m : JsonMap) : Prop where
  ordered : (m.map Prod.fst).Pairwise (· < ·)
  combinators : ∀ key ∈ ["anyOf", "oneOf"], ∀ arr, m.get key = some (array arr) →
    (∀ s ∈ arr, isNullSchema s = false) ∧ arr ≠ [] ∧ ∀ inlined, arr ≠ [object inlined]
  type : ∀ arr, m.get "type" = some (array arr) →
    (∀ t ∈ arr, keepsType t = true) ∧ 2 ≤ arr.length
  enum : ∀ arr, m.get "enum" = some (array arr) →
    (∀ e ∈ arr, e.isNull = false) ∧ (arr.map text).Nodup ∧ arr ≠ []
  const : m.get "const" ≠ some null

/-- Data that the recursion leaves alone. -/
def Inert : ℕ → Value → Prop
  | depth + 1, object m => Untouched m ∧ ∀ p ∈ m, skipped p.1 = false → Inert depth p.2
  | _, _ => True

theorem dedupe_of_nodup {seen : List String} {l : List Value} (hl : (l.map text).Nodup)
    (hseen : ∀ v ∈ l, v.text ∉ seen) : dedupe seen l = l := by
  induction l generalizing seen with
  | nil => rfl
  | cons v l ih =>
    rw [List.map_cons, List.nodup_cons] at hl
    rw [dedupe, if_neg (hseen v List.mem_cons_self), ih hl.2]
    intro w hw hmem
    rcases List.mem_cons.1 hmem with htext | hmem
    · exact hl.1 (List.mem_map.2 ⟨w, hw, htext⟩)
    · exact hseen w (List.mem_cons_of_mem v hw) hmem

theorem Untouched.postPasses {m : JsonMap} (h : Untouched m) : postPasses m = m := by
  have hcombinator : ∀ key ∈ ["anyOf", "oneOf"], simplifyNullableCombinator m key = m := by
    intro key hkey
    obtain habsent | ⟨arr, harr, -⟩ := combinator_cases m key
    · exact (simplify_of_absent habsent).1
    · obtain ⟨hnull, hne, hsole⟩ := h.combinators key hkey arr harr
      have hall : alternatives arr = arr := List.filter_eq_self.2 fun s hs => by rw [hnull s hs]; rfl
      rw [(simplify_of_several harr (by rwa [hall]) (by rwa [hall])).1, hall]
      exact JsonMap.Ordered.insert_of_get h.ordered harr
  have htype : normalizeTypeField m = m := by
    by_cases harr : ∃ arr, m.get "type" = some (array arr)
    · obtain ⟨arr, harr⟩ := harr
      obtain ⟨hkeep, hlen⟩ := h.type arr harr
      have hall : arr.filter keepsType = arr := List.filter_eq_self.2 hkeep
      unfold normalizeTypeField
      rw [harr]
      dsimp only
      rw [hall]
      obtain _ | ⟨first, _ | ⟨second, rest⟩⟩ := arr
      · simp at hlen
      · simp at hlen
      · exact JsonMap.Ordered.insert_of_get h.ordered harr
    · exact normalizeTypeField_of_absent (not_exists.1 harr)
  have henum : normalizeEnumField m = m := by
    by_cases harr : ∃ arr, m.get "enum" = some (array arr)
    · obtain ⟨arr, harr⟩ := harr
      obtain ⟨hnull, hnodup, hne⟩ := h.enum arr harr
      have hall : (arr.filter fun e => !e.isNull) = arr :=
        List.filter_eq_self.2 fun e he => by rw [hnull e he]; rfl
      unfold normalizeEnumField
      rw [harr]
      dsimp only
      rw [hall, dedupe_of_nodup hnodup fun _ _ => List.not_mem_nil]
      obtain _ | ⟨first, rest⟩ := arr
      · exact absurd rfl hne
      · exact JsonMap.Ordered.insert_of_get h.ordered harr
    · exact normalizeEnumField_of_absent (not_exists.1 harr)
  rw [postPasses_eq, merged, hcombinator "anyOf" (by simp), hcombinator "oneOf" (by simp), htype, henum,
    removeConstNull_of_ne h.const]

/-- **Data that is left alone.** -/
theorem normalizeSchema_inert {depth : ℕ} {v : Value} (h : Inert depth v) :
    normalizeSchema depth [] v = v := by
  induction depth generalizing v with
  | zero => rfl
  | succ depth ih =>
    cases v with
    | object m =>
      obtain ⟨hm, hmembers⟩ := h
      have hsame : m.map (normalizeMember depth) = m := by
        have hp : ∀ p ∈ m, normalizeMember depth p = p := by
          intro p hp
          unfold normalizeMember
          cases hskip : skipped p.1 with
          | true => rfl
          | false => exact Prod.ext rfl (ih (hmembers p hp hskip))
        rw [List.map_congr_left hp, List.map_id']
      rw [normalizeSchema_object, hsame, hm.postPasses]
    | _ => rfl

/-! ### The condition -/

/-- What the recursion meets: a schema, or the map of the schemas of the properties. -/
inductive Place where
  | schema | properties

/-- Every `const` that the recursion meets is left alone. -/
def ConstsInert : ℕ → Place → Value → Prop
  | depth + 1, .schema, object m => ∀ p ∈ m,
      (p.1 = "const" → Inert depth p.2) ∧
      (p.1 = "properties" → ConstsInert depth .properties p.2) ∧
      (p.1 = "items" → ConstsInert depth .schema p.2)
  | depth + 1, .properties, object ps =>
      ∀ p ∈ ps, skipped p.1 = false → ConstsInert depth .schema p.2
  | _, _, _ => True

/-! ### The passes -/

section

variable {M : Meaning} {m : JsonMap} {v : Value}

/-- An argument meets every member of a schema. -/
def Meets (M : Meaning) (m : JsonMap) (v : Value) : Prop :=
  ∀ p ∈ m, memberValid M p.1 p.2 v = true

theorem mem_insert {k : String} {c : Value} {p : String × Value} (h : p ∈ m.insert k c) :
    p = (k, c) ∨ p ∈ m := by
  induction m with
  | nil => exact .inl (List.mem_singleton.1 h)
  | cons q m ih =>
    obtain ⟨k', c'⟩ := q
    rw [JsonMap.insert] at h
    split_ifs at h
    · rcases List.mem_cons.1 h with h | h
      · exact .inl h
      · exact .inr (List.mem_cons_of_mem _ h)
    · rcases List.mem_cons.1 h with h | h
      · exact .inl h
      · exact .inr h
    · rcases List.mem_cons.1 h with h | h
      · exact .inr (h ▸ List.mem_cons_self)
      · exact (ih h).imp id (List.mem_cons_of_mem _)

theorem Meets.remove (h : Meets M m v) (k : String) : Meets M (m.remove k) v :=
  fun p hp => h p (List.mem_of_mem_filter hp)

theorem Meets.insert (h : Meets M m v) {k : String} {c : Value} (hc : memberValid M k c v = true) :
    Meets M (m.insert k c) v := by
  intro p hp
  rcases mem_insert hp with rfl | hp
  · exact hc
  · exact h p hp

theorem Meets.storeAll (h : Meets M m v) {inlined : JsonMap} (hinlined : Meets M inlined v) :
    Meets M (storeAll inlined m) v := by
  induction inlined generalizing m with
  | nil => exact h
  | cons p inlined ih =>
    exact ih (h.insert (hinlined p List.mem_cons_self)) fun q hq => hinlined q (List.mem_cons_of_mem p hq)

theorem eq_null_of_isNull {w : Value} (h : w.isNull = true) : w = null := by
  cases w with
  | null => rfl
  | _ => exact absurd h (by simp [isNull])

/-- A null alternative is met by null only. -/
theorem isNull_of_isNullSchema {s : Value} (hs : isNullSchema s = true) (h : valid M s v = true) :
    v.isNull = true := by
  unfold isNullSchema at hs
  split at hs
  · obtain rfl := of_decide_eq_true hs
    simpa [valid, membersValid, memberValid, ofType, hasType] using h
  · obtain rfl := eq_null_of_isNull hs
    refine M.equal_null v ?_
    simpa [valid, membersValid, memberValid] using h
  · obtain rfl := eq_null_of_isNull hs
    refine M.equal_null v ?_
    simpa [valid, membersValid, memberValid] using h
  · exact absurd hs (by simp)

/-- An alternative that an argument without null meets is not dropped. -/
theorem mem_alternatives (hv : v.isNull = false) {arr : List Value} {s : Value} (hs : s ∈ arr)
    (h : valid M s v = true) : s ∈ alternatives arr := by
  refine List.mem_filter.2 ⟨hs, ?_⟩
  cases hnull : isNullSchema s with
  | false => rfl
  | true => exact absurd (isNull_of_isNullSchema hnull h) (by simp [hv])

theorem countP_alternatives (hv : v.isNull = false) (arr : List Value) :
    ((alternatives arr).countP fun s => valid M s v) = arr.countP fun s => valid M s v := by
  unfold alternatives
  rw [List.countP_filter]
  refine List.countP_congr fun s hs => ?_
  simp only [Bool.and_eq_true, and_iff_left_iff_imp]
  intro h
  exact (List.mem_filter.1 (mem_alternatives hv hs h)).2

/-- A combinator that is met has an alternative that is met. -/
theorem exists_valid_of_combinator {key : String} (hkey : key ∈ ["anyOf", "oneOf"])
    {arr : List Value} (h : memberValid M key (array arr) v = true) :
    ∃ s ∈ arr, valid M s v = true := by
  simp only [List.mem_cons, List.not_mem_nil, or_false] at hkey
  obtain rfl | rfl := hkey
  · exact memberValid_anyOf.1 h
  · have hcount := memberValid_oneOf.1 h
    exact List.countP_pos_iff.1 (by omega)

theorem memberValid_alternatives (hv : v.isNull = false) {key : String}
    (hkey : key ∈ ["anyOf", "oneOf"]) {arr : List Value}
    (h : memberValid M key (array arr) v = true) :
    memberValid M key (array (alternatives arr)) v = true := by
  simp only [List.mem_cons, List.not_mem_nil, or_false] at hkey
  obtain rfl | rfl := hkey
  · obtain ⟨s, hs, hvalid⟩ := memberValid_anyOf.1 h
    exact memberValid_anyOf.2 ⟨s, mem_alternatives hv hs hvalid, hvalid⟩
  · rw [memberValid_oneOf, countP_alternatives hv]
    exact memberValid_oneOf.1 h

/-- Simplifying a combinator keeps the arguments without null. -/
theorem Meets.simplify (h : Meets M m v) (hv : v.isNull = false) {key : String}
    (hkey : key ∈ ["anyOf", "oneOf"]) : Meets M (simplifyNullableCombinator m key) v := by
  obtain habsent | ⟨arr, harr, hcases⟩ := combinator_cases m key
  · rwa [(simplify_of_absent habsent).1]
  · have hmember := h _ (JsonMap.mem_of_get harr)
    obtain hleft | ⟨inlined, hleft⟩ | ⟨hleft, hsole⟩ := hcases
    · rw [(simplify_of_none harr hleft).1]
      exact h.remove key
    · -- the sole alternative is the one that is met
      obtain ⟨s, hs, hvalid⟩ := exists_valid_of_combinator hkey hmember
      have hmem := mem_alternatives hv hs hvalid
      rw [hleft] at hmem
      obtain rfl := List.mem_singleton.1 hmem
      rw [(simplify_of_sole harr hleft).1]
      exact (h.remove key).storeAll (valid_object_iff.1 hvalid)
    · rw [(simplify_of_several harr hleft hsole).1]
      exact h.insert (memberValid_alternatives hv hkey hmember)

/-- An entry of `type` that an argument without null is of is kept, and says the same on its own. -/
theorem keepsType_of_ofType {t : Value} (hv : v.isNull = false) (h : ofType M t v = true) :
    keepsType t = true ∧ memberValid M "type" t v = true := by
  cases t with
  | string s =>
    refine ⟨?_, h⟩
    have hempty : s ≠ "" := by
      rintro rfl
      simp [ofType, hasType] at h
    have hnull : s ≠ "null" := by
      rintro rfl
      simp [ofType, hasType, hv] at h
    simp [keepsType, hempty, hnull]
  | _ => simp [ofType] at h

theorem Meets.typeField (h : Meets M m v) (hv : v.isNull = false) :
    Meets M (normalizeTypeField m) v := by
  by_cases harr : ∃ arr, m.get "type" = some (array arr)
  · obtain ⟨arr, harr⟩ := harr
    obtain ⟨t, ht, htype⟩ := memberValid_type.1 (h _ (JsonMap.mem_of_get harr))
    have hmem : t ∈ arr.filter keepsType := List.mem_filter.2 ⟨ht, (keepsType_of_ofType hv htype).1⟩
    unfold normalizeTypeField
    rw [harr]
    dsimp only
    generalize arr.filter keepsType = left at hmem ⊢
    obtain _ | ⟨first, _ | ⟨second, rest⟩⟩ := left
    · exact h.remove "type"
    · obtain rfl := List.mem_singleton.1 hmem
      exact h.insert (keepsType_of_ofType hv htype).2
    · exact h.insert (memberValid_type.2 ⟨t, hmem, htype⟩)
  · rwa [normalizeTypeField_of_absent (not_exists.1 harr)]

theorem exists_mem_dedupe {seen : List String} {l : List Value} {e : Value} (he : e ∈ l)
    (hseen : e.text ∉ seen) : ∃ e' ∈ dedupe seen l, e'.text = e.text := by
  induction l generalizing seen with
  | nil => simp at he
  | cons w l ih =>
    rw [dedupe]
    rcases List.mem_cons.1 he with rfl | he
    · rw [if_neg hseen]
      exact ⟨e, List.mem_cons_self, rfl⟩
    · split_ifs with hw
      · exact ih he hseen
      · by_cases htext : e.text = w.text
        · exact ⟨w, List.mem_cons_self, htext.symm⟩
        · have hnew : e.text ∉ w.text :: seen := by
            rw [List.mem_cons, not_or]
            exact ⟨htext, hseen⟩
          obtain ⟨e', he', heq⟩ := ih he hnew
          exact ⟨e', List.mem_cons_of_mem w he', heq⟩

theorem Meets.enumField (h : Meets M m v) (hv : v.isNull = false) :
    Meets M (normalizeEnumField m) v := by
  by_cases harr : ∃ arr, m.get "enum" = some (array arr)
  · obtain ⟨arr, harr⟩ := harr
    obtain ⟨e, he, hequal⟩ := memberValid_enum.1 (h _ (JsonMap.mem_of_get harr))
    have hnull : e.isNull = false := by
      cases hn : e.isNull with
      | false => rfl
      | true =>
        obtain rfl := eq_null_of_isNull hn
        exact absurd (M.equal_null v hequal) (by simp [hv])
    have hmem : e ∈ arr.filter fun e => !e.isNull := List.mem_filter.2 ⟨he, by rw [hnull]; rfl⟩
    obtain ⟨e', he', htext⟩ := exists_mem_dedupe hmem List.not_mem_nil
    have hnull' : e'.isNull = false := by simpa using (List.mem_filter.1 (mem_dedupe he').1).2
    have hequal' := M.equal_text v e e' hnull hnull' htext.symm hequal
    unfold normalizeEnumField
    rw [harr]
    dsimp only
    generalize dedupe [] (arr.filter fun e => !e.isNull) = left at he' ⊢
    obtain _ | ⟨first, rest⟩ := left
    · exact h.remove "enum"
    · exact h.insert (memberValid_enum.2 ⟨e', he', hequal'⟩)
  · rwa [normalizeEnumField_of_absent (not_exists.1 harr)]

theorem Meets.removeConstNull (h : Meets M m v) : Meets M (removeConstNull m) v := by
  by_cases hnull : m.get "const" = some null
  · rw [removeConstNull_of_null hnull]
    exact h.remove "const"
  · rwa [removeConstNull_of_ne hnull]

/-- **The post-passes keep the arguments without null.** -/
theorem Meets.postPasses (h : Meets M m v) (hv : v.isNull = false) : Meets M (postPasses m) v := by
  have hmerged : Meets M (merged m) v :=
    (h.simplify hv List.mem_cons_self).simplify hv (List.mem_cons_of_mem _ List.mem_cons_self)
  exact ((hmerged.typeField hv).enumField hv).removeConstNull

end

/-! ### The recursion -/

section

variable {M : Meaning}

/-- An object comes out as an object. -/
theorem exists_normalizeSchema_object (depth : ℕ) (m : JsonMap) :
    ∃ m', normalizeSchema depth [] (object m) = object m' := by
  cases depth with
  | zero => exact ⟨m, rfl⟩
  | succ depth => exact ⟨_, normalizeSchema_object depth m⟩

/-- Members that are neither arrays nor null leave the passes nothing to change. -/
theorem postPasses_of_plain {ps : JsonMap} (harray : ∀ p ∈ ps, ∀ arr, p.2 ≠ array arr)
    (hnull : ∀ p ∈ ps, p.2 ≠ null) : postPasses ps = ps := by
  have habsent : ∀ k arr, ps.get k ≠ some (array arr) :=
    fun k arr hget => harray _ (JsonMap.mem_of_get hget) arr rfl
  rw [postPasses_eq, merged, (simplify_of_absent (habsent "anyOf")).1,
    (simplify_of_absent (habsent "oneOf")).1, normalizeTypeField_of_absent (habsent "type"),
    normalizeEnumField_of_absent (habsent "enum"),
    removeConstNull_of_ne fun hget => hnull _ (JsonMap.mem_of_get hget) rfl]

/-- A schema, and what the recursion makes of it, is an object or a boolean. -/
theorem plain_of_isSchema {s : Value} (hs : isSchema s = true) (depth : ℕ) :
    (∀ arr, normalizeSchema depth [] s ≠ array arr) ∧ normalizeSchema depth [] s ≠ null := by
  cases s with
  | object m =>
    obtain ⟨m', hm'⟩ := exists_normalizeSchema_object depth m
    rw [hm']
    exact ⟨fun _ => by simp, by simp⟩
  | bool b =>
    rw [normalizeSchema_of_not_object rfl]
    exact ⟨fun _ => by simp, by simp⟩
  | _ => simp [isSchema] at hs

/-- What the recursion keeps at a depth: the arguments of a schema, and those of the properties. -/
structure KeepsArguments (M : Meaning) (depth : ℕ) : Prop where
  schema : ∀ s v, isSchema s = true → ConstsInert depth .schema s → noNull v = true →
    valid M s v = true → valid M (normalizeSchema depth [] s) v = true
  properties : ∀ ps v, (∀ p ∈ ps, isSchema p.2 = true) → ConstsInert depth .properties (object ps) →
    noNull v = true → propertiesValid M ps v = true →
    memberValid M "properties" (normalizeSchema depth [] (object ps)) v = true

theorem keepsArguments_zero : KeepsArguments M 0 where
  schema := fun _ _ _ _ _ h => h
  properties := fun _ _ _ _ _ h => memberValid_properties.trans h

/-- Normalizing one member of a schema keeps the arguments. -/
theorem memberValid_normalizeMember {depth : ℕ} (ih : KeepsArguments M depth) {p : String × Value}
    {v : Value} (hmember : isMember p.1 p.2 = true)
    (hconsts : (p.1 = "const" → Inert depth p.2) ∧
      (p.1 = "properties" → ConstsInert depth .properties p.2) ∧
      (p.1 = "items" → ConstsInert depth .schema p.2))
    (hv : noNull v = true) (h : memberValid M p.1 p.2 v = true) :
    memberValid M (normalizeMember depth p).1 (normalizeMember depth p).2 v = true := by
  obtain ⟨k, s⟩ := p
  obtain ⟨hconst, hproperties, hitems⟩ := hconsts
  unfold normalizeMember
  split_ifs
  · exact h
  · dsimp only at *
    cases s with
    | object m =>
      by_cases hk : k = "const"
      · rw [normalizeSchema_inert (hconst hk)]
        exact h
      by_cases hp : k = "properties"
      · subst hp
        have hps : ∀ p ∈ m, isSchema p.2 = true := allProperties_iff.1 (by simpa [isMember] using hmember)
        exact ih.properties m v hps (hproperties rfl) hv h
      obtain ⟨m', hm'⟩ := exists_normalizeSchema_object depth m
      by_cases hi : k = "items"
      · subst hi
        have hs : isSchema (object m) = true := by
          simp only [isMember, if_neg (show ¬ "items" = "properties" by decide), if_true] at hmember
          exact hmember
        rw [hm', memberValid_items, ← hm']
        rintro vs rfl e he
        exact ih.schema _ e hs (hitems rfl) (noNull_of_mem hv he) (memberValid_items.1 h vs rfl e he)
      · rw [hm']
        exact memberValid_object hk hp hi
    | _ =>
      rw [normalizeSchema_of_not_object rfl]
      exact h

theorem keepsArguments_succ {depth : ℕ} (ih : KeepsArguments M depth) :
    KeepsArguments M (depth + 1) where
  schema := by
    intro s v hs hconsts hv h
    cases s with
    | object m =>
      rw [normalizeSchema_object]
      rw [isSchema_object_iff] at hs
      have hmeets : Meets M (m.map (normalizeMember depth)) v := by
        intro q hq
        obtain ⟨p, hp, rfl⟩ := List.mem_map.1 hq
        exact memberValid_normalizeMember ih (hs p hp) (hconsts p hp) hv (valid_object_iff.1 h p hp)
      exact valid_object_iff.2 (hmeets.postPasses (isNull_of_noNull hv))
    | _ => exact h
  properties := by
    intro ps v hps hconsts hv h
    have hplain : ∀ q ∈ ps.map (normalizeMember depth), (∀ arr, q.2 ≠ array arr) ∧ q.2 ≠ null := by
      intro q hq
      obtain ⟨p, hp, rfl⟩ := List.mem_map.1 hq
      unfold normalizeMember
      split_ifs
      · exact plain_of_isSchema (hps p hp) 0
      · exact plain_of_isSchema (hps p hp) depth
    rw [normalizeSchema_object,
      postPasses_of_plain (fun q hq => (hplain q hq).1) fun q hq => (hplain q hq).2,
      memberValid_properties, propertiesValid_iff]
    intro q hq c hc
    obtain ⟨p, hp, rfl⟩ := List.mem_map.1 hq
    have hvalid := propertiesValid_iff.1 h p hp
    unfold normalizeMember at hc ⊢
    split_ifs at hc ⊢ with hskip
    · exact hvalid c hc
    · exact ih.schema _ c (hps p hp) (hconsts p hp (by simpa using hskip)) (noNull_of_get hv hc)
        (hvalid c hc)

/-- **Normalization keeps the arguments without null.** -/
theorem keepsArguments (depth : ℕ) : KeepsArguments M depth := by
  induction depth with
  | zero => exact keepsArguments_zero
  | succ depth ih => exact keepsArguments_succ ih

/-- **Validity under normalization.** An argument without null that is valid against a schema stays
valid against the normalized schema, provided the recursion leaves every `const` alone. -/
theorem valid_normalizeSchema (M : Meaning) (s v : Value) (hs : isSchema s = true)
    (hconsts : ConstsInert 12 .schema s) (hv : noNull v = true) (h : valid M s v = true) :
    valid M (normalizeSchema 12 [] s) v = true :=
  (keepsArguments 12).schema s v hs hconsts hv h

end

/-! ### Constants that are objects -/

/-- The schema of an argument that is an object of one member, a nullable string, with a default. -/
def nullableSchema : Value :=
  object [("properties", object [("a", object [("default", string "x"),
    ("type", array [string "string", string "null"])])]), ("type", string "object")]

theorem constsInert_nullableSchema : ConstsInert 12 .schema nullableSchema := by
  simp [nullableSchema, ConstsInert]

/-- A string is valid for the nullable string, and stays valid when null is no longer allowed. -/
theorem valid_nullableSchema :
    valid .byText (normalizeSchema 12 [] nullableSchema) (object [("a", string "b")]) = true :=
  valid_normalizeSchema .byText nullableSchema _ (by decide) constsInert_nullableSchema (by decide)
    (by decide)

/-- The condition is needed: of a schema that is a `const` without null, the normalized one accepts
the constant only if its text comes out as it went in. -/
theorem text_of_const_kept {m : JsonMap} (hm : noNull (object m) = true)
    (h : ∀ v, noNull v = true → valid .byText (object [("const", object m)]) v = true →
      valid .byText (normalizeSchema 12 [] (object [("const", object m)])) v = true) :
    (normalizeSchema 11 [] (object m)).text = (object m).text := by
  have hvalid := h (object m) hm (by
    simp [valid, membersValid, memberValid, Meaning.byText])
  obtain ⟨m', hm'⟩ := exists_normalizeSchema_object 11 m
  have hout : normalizeSchema 12 [] (object [("const", object m)]) = object [("const", object m')] := by
    have hmap : [("const", object m)].map (normalizeMember 11) = [("const", object m')] := by
      show [("const", normalizeSchema 11 [] (object m))] = _
      rw [hm']
    rw [normalizeSchema_object, hmap, postPasses_of_plain]
    · simp
    · simp
  rw [hout] at hvalid
  rw [hm']
  have hequal : (object m).text = (object m').text := by
    simpa [valid, membersValid, memberValid, Meaning.byText, isNull] using hvalid
  exact hequal.symm

/-- The schema whose only value is an object that looks like an enumeration with a duplicate. -/
def constSchema : Value := object [("const", object [("enum", array [string "a", string "a"])])]

/-- The only valid argument of the schema is not valid any more: the recursion has dropped the
duplicate from the constant. -/
theorem const_is_rewritten :
    ¬ ∀ (M : Meaning) (s v : Value), isSchema s = true → noNull v = true → valid M s v = true →
      valid M (normalizeSchema 12 [] s) v = true := by
  intro h
  have hvalid := h .byText constSchema (object [("enum", array [string "a", string "a"])]) (by decide)
    (by decide) (by decide)
  exact absurd hvalid (by decide)

end Mybro
