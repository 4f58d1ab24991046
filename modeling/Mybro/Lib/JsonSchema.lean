import Mybro.Lib.Json

/-!
# The meaning of JSON schemas

Which values are valid against a schema built from `type`, `enum`, `const`, `anyOf`, `oneOf`,
`properties`, `required` and `items`; every other member is an annotation. A schema that is an
object stands for the conjunction of its members (`valid_object_iff`), so that what is known about a
schema is known member by member.
-/

namespace JsonSchema

open Value

/-- What validation takes from JSON itself: which values are equal, and which floats are whole
numbers. Values of the same text are equal, and nothing but null equals null. -/
structure Meaning where
  equal : Value → Value → Bool
  whole : String → Bool
  equal_null : ∀ v, equal v null = true → v.isNull = true
  equal_text : ∀ v a b, a.isNull = false → b.isNull = false → a.text = b.text →
    equal v a = true → equal v b = true

/-- Values are equal when they have the same text, null only to itself; a float is whole if its text
ends in `.0`. -/
def Meaning.byText : Meaning where
  equal a b := decide (a.text = b.text) && (a.isNull == b.isNull)
  whole t := t.endsWith ".0"
  equal_null := by
    intro v h
    rw [Bool.and_eq_true, beq_iff_eq] at h
    exact h.2
  equal_text := by
    intro v a b ha hb hab h
    rw [Bool.and_eq_true, beq_iff_eq, decide_eq_true_eq] at h ⊢
    exact ⟨h.1.trans hab, h.2.trans (ha.trans hb.symm)⟩

/-- Whether a value is of the type of a given name. -/
def hasType (M : Meaning) : String → Value → Bool
  | "null", v => v.isNull
  | "boolean", .bool _ => true
  | "string", string _ => true
  | "array", array _ => true
  | "object", object _ => true
  | "number", number _ => true
  | "integer", number (.posInt _) => true
  | "integer", number (.negInt _) => true
  | "integer", number (.float t) => M.whole t
  | _, _ => false

/-- Whether a value is of the type that an entry of `type` names. -/
def ofType (M : Meaning) (t v : Value) : Bool :=
  match t with
  | string s => hasType M s v
  | _ => false

/-- Whether an object has a required member. -/
def hasRequired (name v : Value) : Bool :=
  match name, v with
  | string s, object m => (JsonMap.get m s).isSome
  | _, _ => true

mutual

/-- Whether a value is valid against a schema. -/
def valid (M : Meaning) : Value → Value → Bool
  | object m, v => membersValid M m v
  | .bool b, _ => b
  | _, _ => true
termination_by structural s => s

def membersValid (M : Meaning) : List (String × Value) → Value → Bool
  | [], _ => true
  | (k, s) :: m, v => memberValid M k s v && membersValid M m v
termination_by structural m => m

/-- What one member of a schema says. -/
def memberValid (M : Meaning) (k : String) : Value → Value → Bool
  | array arr, v =>
    if k = "const" then M.equal v (array arr)
    else if k = "type" then arr.any fun t => ofType M t v
    else if k = "enum" then arr.any fun e => M.equal v e
    else if k = "anyOf" then anyValid M arr v
    else if k = "oneOf" then countValid M arr v = 1
    else if k = "required" then arr.all fun name => hasRequired name v
    else if k = "items" then
      match v with
      | array vs => eachValid M arr vs
      | _ => true
    else true
  | object m, v =>
    if k = "const" then M.equal v (object m)
    else if k = "properties" then propertiesValid M m v
    else if k = "items" then
      match v with
      | array vs => vs.all fun e => membersValid M m e
      | _ => true
    else true
  | .bool b, v =>
    if k = "const" then M.equal v (.bool b)
    else if k = "items" then
      match v with
      | array vs => vs.all fun _ => b
      | _ => true
    else true
  | s, v =>
    if k = "const" then M.equal v s
    else if k = "type" then ofType M s v
    else true
termination_by structural s => s

def anyValid (M : Meaning) : List Value → Value → Bool
  | [], _ => false
  | s :: arr, v => valid M s v || anyValid M arr v
termination_by structural arr => arr

def countValid (M : Meaning) : List Value → Value → ℕ
  | [], _ => 0
  | s :: arr, v => countValid M arr v + if valid M s v then 1 else 0
termination_by structural arr => arr

def eachValid (M : Meaning) : List Value → List Value → Bool
  | s :: arr, v :: vs => valid M s v && eachValid M arr vs
  | _, _ => true
termination_by structural arr => arr

def propertiesValid (M : Meaning) : List (String × Value) → Value → Bool
  | [], _ => true
  | (name, s) :: ps, v =>
    (match v.get name with
      | some c => valid M s c
      | none => true) && propertiesValid M ps v
termination_by structural ps => ps

end

/-! ### Member by member -/

section

variable {M : Meaning} {m ps : JsonMap} {arr : List Value} {v : Value}

theorem membersValid_iff :
    membersValid M m v = true ↔ ∀ p ∈ m, memberValid M p.1 p.2 v = true := by
  induction m with
  | nil => simp [membersValid]
  | cons p m ih =>
    obtain ⟨k, s⟩ := p
    rw [membersValid, Bool.and_eq_true, ih, List.forall_mem_cons]

/-- **A schema is the conjunction of its members.** -/
theorem valid_object_iff :
    valid M (object m) v = true ↔ ∀ p ∈ m, memberValid M p.1 p.2 v = true := membersValid_iff

theorem anyValid_iff : anyValid M arr v = true ↔ ∃ s ∈ arr, valid M s v = true := by
  induction arr with
  | nil => simp [anyValid]
  | cons s arr ih => simp [anyValid, ih]

theorem countValid_eq : countValid M arr v = arr.countP fun s => valid M s v := by
  induction arr with
  | nil => rfl
  | cons s arr ih => rw [countValid, List.countP_cons, ih]

theorem propertiesValid_iff :
    propertiesValid M ps v = true ↔
      ∀ p ∈ ps, ∀ c, v.get p.1 = some c → valid M p.2 c = true := by
  induction ps with
  | nil => simp [propertiesValid]
  | cons p ps ih =>
    obtain ⟨name, s⟩ := p
    rw [propertiesValid, Bool.and_eq_true, ih, List.forall_mem_cons]
    refine and_congr_left fun _ => ?_
    cases v.get name <;> simp

theorem memberValid_anyOf :
    memberValid M "anyOf" (array arr) v = true ↔ ∃ s ∈ arr, valid M s v = true := by
  rw [← anyValid_iff]
  rfl

theorem memberValid_oneOf :
    memberValid M "oneOf" (array arr) v = true ↔ (arr.countP fun s => valid M s v) = 1 := by
  rw [← countValid_eq]
  exact decide_eq_true_iff

theorem memberValid_type :
    memberValid M "type" (array arr) v = true ↔ ∃ t ∈ arr, ofType M t v = true := List.any_eq_true

theorem memberValid_enum :
    memberValid M "enum" (array arr) v = true ↔ ∃ e ∈ arr, M.equal v e = true := List.any_eq_true

theorem memberValid_properties :
    memberValid M "properties" (object ps) v = propertiesValid M ps v := rfl

/-- An object as `items` is a schema of each element. -/
theorem memberValid_items :
    memberValid M "items" (object m) v = true ↔
      ∀ vs, v = array vs → ∀ e ∈ vs, valid M (object m) e = true := by
  cases v with
  | array vs =>
    constructor
    · rintro h _ ⟨⟩ e he
      exact List.all_eq_true.1 h e he
    · intro h
      exact List.all_eq_true.2 (h vs rfl)
  | _ => simp [memberValid]

/-- Objects are no schemas in the place of another keyword. -/
theorem memberValid_object {k : String} (hconst : k ≠ "const") (hproperties : k ≠ "properties")
    (hitems : k ≠ "items") : memberValid M k (object m) v = true := by
  simp [memberValid, hconst, hproperties, hitems]

end

/-! ### Well-formed schemas and null-free values -/

def isString : Value → Bool
  | string _ => true
  | _ => false

mutual

/-- Whether a value is a schema: every keyword holds what it has to hold. -/
def isSchema : Value → Bool
  | .bool _ => true
  | object m => allMembers m
  | _ => false

def allMembers : List (String × Value) → Bool
  | [] => true
  | (k, s) :: m => isMember k s && allMembers m

def isMember (k : String) : Value → Bool
  | array arr =>
    if k = "type" ∨ k = "required" then arr.all isString
    else if k = "anyOf" ∨ k = "oneOf" ∨ k = "items" then allSchemas arr
    else k ≠ "properties"
  | object m =>
    if k = "properties" then allProperties m
    else if k = "items" then allMembers m
    else k ∉ ["type", "enum", "anyOf", "oneOf", "required"]
  | .bool _ => k ∉ ["type", "enum", "anyOf", "oneOf", "required", "properties"]
  | string _ => k ∉ ["enum", "anyOf", "oneOf", "required", "properties", "items"]
  | _ => k ∉ ["type", "enum", "anyOf", "oneOf", "required", "properties", "items"]

def allSchemas : List Value → Bool
  | [] => true
  | s :: arr => isSchema s && allSchemas arr

def allProperties : List (String × Value) → Bool
  | [] => true
  | (_, s) :: ps => isSchema s && allProperties ps

/-- Whether there is no null anywhere in a value. -/
def noNull : Value → Bool
  | null => false
  | array vs => elementsNoNull vs
  | object m => membersNoNull m
  | _ => true

def elementsNoNull : List Value → Bool
  | [] => true
  | v :: vs => noNull v && elementsNoNull vs

def membersNoNull : List (String × Value) → Bool
  | [] => true
  | (_, v) :: m => noNull v && membersNoNull m

end

section

variable {m ps : JsonMap} {vs : List Value} {v : Value}

theorem isSchema_object_iff : isSchema (object m) = true ↔ ∀ p ∈ m, isMember p.1 p.2 = true := by
  show allMembers m = true ↔ _
  induction m with
  | nil => simp [allMembers]
  | cons p m ih =>
    obtain ⟨k, s⟩ := p
    rw [allMembers, Bool.and_eq_true, ih, List.forall_mem_cons]

theorem allProperties_iff : allProperties ps = true ↔ ∀ p ∈ ps, isSchema p.2 = true := by
  induction ps with
  | nil => simp [allProperties]
  | cons p ps ih =>
    obtain ⟨k, s⟩ := p
    rw [allProperties, Bool.and_eq_true, ih, List.forall_mem_cons]

theorem isNull_of_noNull (h : noNull v = true) : v.isNull = false := by
  cases v with
  | null => exact absurd h (by simp [noNull])
  | _ => rfl

theorem noNull_of_mem (h : noNull (array vs) = true) {e : Value} (he : e ∈ vs) :
    noNull e = true := by
  replace h : elementsNoNull vs = true := h
  induction vs with
  | nil => simp at he
  | cons w vs ih =>
    rw [elementsNoNull, Bool.and_eq_true] at h
    rcases List.mem_cons.1 he with rfl | hvs
    · exact h.1
    · exact ih hvs h.2

theorem noNull_of_get (h : noNull v = true) {k : String} {c : Value} (hc : v.get k = some c) :
    noNull c = true := by
  cases v with
  | object m =>
    replace h : membersNoNull m = true := h
    replace hc : JsonMap.get m k = some c := hc
    induction m with
    | nil => simp at hc
    | cons p m ih =>
      obtain ⟨k', w⟩ := p
      rw [membersNoNull, Bool.and_eq_true] at h
      rw [JsonMap.get_cons] at hc
      split_ifs at hc with hk
      · obtain rfl := Option.some.inj hc
        exact h.1
      · exact ih h.2 hc
  | _ => simp [Value.get] at hc

end

end JsonSchema
