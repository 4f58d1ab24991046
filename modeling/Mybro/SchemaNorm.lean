import Mybro.Lib.Json

/-!
# Tool schema normalization (`schema_norm.rs`)

`normalizeToolSchemas` rewrites the `parameters` schema of every tool when one of them mentions a
reference or a definition. The recursion of `normalizeSchema` is on the depth that is left.
-/

namespace Mybro

open Value

/-! ### The guard -/

/-- Whether an object has a member. -/
def hasKey (m : JsonMap) (k : String) : Bool := (m.get k).isSome

mutual

/-- `has_ref_or_defs`. -/
def hasRefOrDefs : Value → Bool
  | object m => hasKey m "$ref" || hasKey m "$defs" || hasKey m "definitions" || membersHaveRef m
  | array xs => elementsHaveRef xs
  | _ => false

def elementsHaveRef : List Value → Bool
  | [] => false
  | v :: vs => hasRefOrDefs v || elementsHaveRef vs

def membersHaveRef : List (String × Value) → Bool
  | [] => false
  | (_, v) :: m => hasRefOrDefs v || membersHaveRef m

end

/-- `needs_normalization`. -/
def needsNormalization (tools : Value) : Bool :=
  match tools.asArray with
  | some arr => arr.any fun tool =>
      match (tool.get "function").bind fun f => f.get "parameters" with
      | some params => hasRefOrDefs params
      | none => false
  | none => false

/-! ### The post-passes -/

/-- `is_null_schema`. -/
def isNullSchema : Value → Bool
  | object [("type", string s)] => s = "null"
  | object [("const", v)] => v.isNull
  | object [("enum", array [v])] => v.isNull
  | _ => false

/-- `simplify_nullable_combinator`. -/
def simplifyNullableCombinator (obj : JsonMap) (key : String) : JsonMap :=
  match obj.get key with
  | some (array arr) =>
    match arr.filter fun s => !isNullSchema s with
    | [] => obj.remove key
    | [object inlined] => inlined.foldl (fun m p => m.insert p.1 p.2) (obj.remove key)
    | arr' => obj.insert key (array arr')
  | _ => obj

/-- The elements of a `type` array that `normalize_type_field` keeps. -/
def keepsType : Value → Bool
  | null => false
  | string s => s ≠ "" && s ≠ "null"
  | _ => true

/-- `normalize_type_field`. -/
def normalizeTypeField (obj : JsonMap) : JsonMap :=
  match obj.get "type" with
  | some (array arr) =>
    match arr.filter keepsType with
    | [] => obj.remove "type"
    | [first] => obj.insert "type" first
    | arr' => obj.insert "type" (array arr')
  | _ => obj

/-- Keep the first of the elements with the same JSON text; `seen` are the texts so far. -/
def dedupe (seen : List String) : List Value → List Value
  | [] => []
  | v :: vs => if v.text ∈ seen then dedupe seen vs else v :: dedupe (v.text :: seen) vs

/-- `normalize_enum_field`. -/
def normalizeEnumField (obj : JsonMap) : JsonMap :=
  match obj.get "enum" with
  | some (array arr) =>
    match dedupe [] (arr.filter fun v => !v.isNull) with
    | [] => obj.remove "enum"
    | arr' => obj.insert "enum" (array arr')
  | _ => obj

/-- Drop a `const` that is null. -/
def removeConstNull (obj : JsonMap) : JsonMap :=
  match obj.get "const" with
  | some null => obj.remove "const"
  | _ => obj

/-- Everything `normalize_schema` does to an object after its members. -/
def postPasses (obj : JsonMap) : JsonMap :=
  let obj := simplifyNullableCombinator obj "anyOf"
  let obj := simplifyNullableCombinator obj "oneOf"
  removeConstNull (normalizeEnumField (normalizeTypeField obj))

/-! ### The recursion -/

/-- The definitions an object declares itself, those under `definitions` first. -/
def localDefs (obj : JsonMap) : JsonMap :=
  ((obj.get "definitions").bind asObject).getD [] ++ ((obj.get "$defs").bind asObject).getD []

/-- `resolve_ref`. -/
def resolveRef (ref : String) (loc defs : JsonMap) : Option Value :=
  match (Utf8.stripStart "#/definitions/" ref).or (Utf8.stripStart "#/$defs/" ref) with
  | some name => (loc.get name).or (defs.get name)
  | none => none

/-- The value that replaces an object which is exactly a reference. -/
def refTarget (obj : JsonMap) (defs : JsonMap) : Option Value :=
  match obj with
  | [(k, string ref)] => if k = "$ref" then resolveRef ref (localDefs obj) defs else none
  | _ => none

/-- The members `normalize_schema` does not enter. -/
def skipped (k : String) : Bool := k = "definitions" || k = "$defs" || k = "nullable"

/-- `normalize_schema`; the definitions passed down are never extended. -/
def normalizeSchema : ℕ → JsonMap → Value → Value
  | depth + 1, defs, object obj =>
    match refTarget obj defs with
    | some resolved => normalizeSchema depth [] resolved
    | none =>
      object (postPasses (obj.map fun p =>
        if skipped p.1 then p else (p.1, normalizeSchema depth defs p.2)))
  | _, _, node => node

/-- Without definitions passed down there are none to resolve a reference with: an object that is
exactly a reference declares none. -/
@[simp] theorem refTarget_nil (obj : JsonMap) : refTarget obj [] = none := by
  unfold refTarget
  split
  · rename_i k ref
    split_ifs with hk
    · subst hk
      unfold resolveRef
      cases (Utf8.stripStart "#/definitions/" ref).or (Utf8.stripStart "#/$defs/" ref) with
      | none => rfl
      | some name => simp [localDefs]
    · rfl
  · rfl

/-- What becomes of a member of an object. -/
def normalizeMember (depth : ℕ) (p : String × Value) : String × Value :=
  if skipped p.1 then p else (p.1, normalizeSchema depth [] p.2)

theorem normalizeSchema_object (depth : ℕ) (obj : JsonMap) :
    normalizeSchema (depth + 1) [] (object obj) = object (postPasses (obj.map (normalizeMember depth))) := by
  rw [normalizeSchema, refTarget_nil]
  rfl

theorem normalizeSchema_of_not_object {v : Value} (h : v.isObject = false) (depth : ℕ)
    (defs : JsonMap) : normalizeSchema depth defs v = v := by
  cases v with
  | object m => exact absurd h (by simp)
  | _ => cases depth <;> rfl

/-- `normalize_tool_schemas`. -/
def normalizeToolSchemas (tools : Value) : Value :=
  if needsNormalization tools then
    tools.modifyArray (List.map fun tool =>
      tool.modify "function" fun f => f.modify "parameters" (normalizeSchema 12 []))
  else tools

/-! ### The parameters of a tool -/

/-- The parameters of the tool number `i`. -/
def parametersPath (i : ℕ) : List Seg := [.idx i, .key "function", .key "parameters"]

theorem parametersPath_eq_some {tools params : Value} {i : ℕ} :
    getAt (parametersPath i) tools = some params ↔
      ∃ arr tool f, tools = array arr ∧ arr[i]? = some tool ∧ tool.get "function" = some f ∧
        f.get "parameters" = some params := by
  unfold parametersPath
  simp only [getAt, Option.bind_eq_some_iff]
  constructor
  · rintro ⟨tool, ⟨arr, harr, htool⟩, f, hf, p, hp, hparams⟩
    cases tools with
    | array xs =>
      obtain rfl := Option.some.inj harr
      exact ⟨xs, tool, f, rfl, htool, hf, hp.trans hparams⟩
    | _ => simp [Value.asArray] at harr
  · rintro ⟨arr, tool, f, rfl, htool, hf, hp⟩
    exact ⟨tool, ⟨arr, rfl, htool⟩, f, hf, params, hp, rfl⟩

/-- The parameters of every tool are normalized. -/
theorem parametersPath_normalizeToolSchemas {tools : Value} (hneeds : needsNormalization tools = true)
    (i : ℕ) :
    getAt (parametersPath i) (normalizeToolSchemas tools) =
      (getAt (parametersPath i) tools).map (normalizeSchema 12 []) := by
  rw [normalizeToolSchemas, if_pos hneeds]
  unfold parametersPath
  simp only [getAt, asArray_modifyArray]
  cases htool : tools.asArray.bind fun xs => xs[i]? with
  | none =>
    have hout : (tools.asArray.map (List.map fun tool => tool.modify "function" fun f =>
        f.modify "parameters" (normalizeSchema 12 []))).bind (fun xs => xs[i]?) = none := by
      cases harr : tools.asArray with
      | none => rfl
      | some arr => simpa [harr] using htool
    rw [hout]
    rfl
  | some tool =>
    have hout : (tools.asArray.map (List.map fun tool => tool.modify "function" fun f =>
        f.modify "parameters" (normalizeSchema 12 []))).bind (fun xs => xs[i]?) =
        some (tool.modify "function" fun f => f.modify "parameters" (normalizeSchema 12 [])) := by
      obtain ⟨arr, harr, hi⟩ := Option.bind_eq_some_iff.1 htool
      rw [harr, Option.map_some, Option.bind_some, List.getElem?_map, hi, Option.map_some]
    rw [hout]
    cases hf : tool.get "function" with
    | none => simp [hf]
    | some f =>
      cases hp : f.get "parameters" with
      | none => simp [hf, hp]
      | some params => simp [hf, hp]

end Mybro
