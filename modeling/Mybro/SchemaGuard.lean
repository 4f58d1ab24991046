import Mybro.Lib.JsonFrame
import Mybro.SchemaNorm

/-!
# The guard in front of the normalization

`needs_normalization` scans the parameters of all tools for three keys (`needsNormalization_iff`).
When it finds one, every tool is normalized; when it does not, none is, whatever else the normalizer
would have rewritten (`normalizeToolSchemas_guarded`). So what becomes of a tool depends on the
other tools (`tool_depends_on_others`).
-/

namespace Mybro

open Value

/-! ### The scan -/

/-- The first value occurs in the second, as itself, in a member or in an element. -/
inductive Occurs : Value → Value → Prop
  | self (v : Value) : Occurs v v
  | member {x v : Value} {m : JsonMap} {k : String} (hm : (k, v) ∈ m) (h : Occurs x v) :
      Occurs x (object m)
  | element {x v : Value} {xs : List Value} (hv : v ∈ xs) (h : Occurs x v) : Occurs x (array xs)

/-- The object refers to a definition or has some. -/
def RefKey (m : JsonMap) : Prop := ∃ k ∈ ["$ref", "$defs", "definitions"], hasKey m k = true

/-- An object with one of the three keys occurs in the schema. -/
def MentionsRef (params : Value) : Prop := ∃ m, Occurs (object m) params ∧ RefKey m

theorem refKey_iff {m : JsonMap} :
    RefKey m ↔ (hasKey m "$ref" || hasKey m "$defs" || hasKey m "definitions") = true := by
  simp [RefKey, or_assoc]

/-- Nothing occurs in a scalar. -/
theorem not_mentionsRef {v : Value} (hobj : ∀ m, v ≠ object m) (harr : ∀ xs, v ≠ array xs) :
    ¬ MentionsRef v := by
  rintro ⟨m, hocc, -⟩
  cases hocc with
  | self => exact hobj m rfl
  | member hm h => exact hobj _ rfl
  | element hv h => exact harr _ rfl

mutual

/-- **The scan finds a key at any depth.** -/
theorem hasRefOrDefs_iff : ∀ v : Value, hasRefOrDefs v = true ↔ MentionsRef v
  | object m => by
    have hmembers := membersHaveRef_iff m
    rw [hasRefOrDefs, Bool.or_eq_true, ← refKey_iff, hmembers]
    constructor
    · rintro (h | ⟨p, hp, m', hm', h⟩)
      · exact ⟨m, .self _, h⟩
      · exact ⟨m', .member hp hm', h⟩
    · rintro ⟨m', hm', h⟩
      cases hm' with
      | self => exact Or.inl h
      | member hp hocc => exact Or.inr ⟨_, hp, m', hocc, h⟩
  | array xs => by
    have helements := elementsHaveRef_iff xs
    rw [hasRefOrDefs, helements]
    constructor
    · rintro ⟨v, hv, m', hm', h⟩
      exact ⟨m', .element hv hm', h⟩
    · rintro ⟨m', hm', h⟩
      cases hm' with
      | element hv hocc => exact ⟨_, hv, m', hocc, h⟩
  | .null => ⟨nofun, fun h => absurd h (not_mentionsRef nofun nofun)⟩
  | .bool _ => ⟨nofun, fun h => absurd h (not_mentionsRef nofun nofun)⟩
  | .number _ => ⟨nofun, fun h => absurd h (not_mentionsRef nofun nofun)⟩
  | .string _ => ⟨nofun, fun h => absurd h (not_mentionsRef nofun nofun)⟩

theorem elementsHaveRef_iff : ∀ xs : List Value,
    elementsHaveRef xs = true ↔ ∃ v ∈ xs, MentionsRef v
  | [] => by simp [elementsHaveRef]
  | v :: vs => by
    have hv := hasRefOrDefs_iff v
    have hvs := elementsHaveRef_iff vs
    rw [elementsHaveRef, Bool.or_eq_true, hv, hvs, List.exists_mem_cons_iff]

theorem membersHaveRef_iff : ∀ m : List (String × Value),
    membersHaveRef m = true ↔ ∃ p ∈ m, MentionsRef p.2
  | [] => by simp [membersHaveRef]
  | (k, v) :: m => by
    have hv := hasRefOrDefs_iff v
    have hm := membersHaveRef_iff m
    rw [membersHaveRef, Bool.or_eq_true, hv, hm, List.exists_mem_cons_iff]

end

/-- The parameters of some tool refer to a definition or have some. -/
def SomeRef (tools : Value) : Prop :=
  ∃ i params, getAt (parametersPath i) tools = some params ∧ MentionsRef params

theorem needsNormalization_iff (tools : Value) :
    needsNormalization tools = true ↔ SomeRef tools := by
  unfold needsNormalization
  constructor
  · intro h
    split at h
    · rename_i arr harr
      obtain ⟨tool, htool, h⟩ := List.any_eq_true.1 h
      obtain ⟨i, hi⟩ := List.getElem?_of_mem htool
      split at h
      · rename_i params hparams
        obtain ⟨f, hf, hp⟩ := Option.bind_eq_some_iff.1 hparams
        refine ⟨i, params, ?_, (hasRefOrDefs_iff params).1 h⟩
        simp only [parametersPath, getAt, harr, Option.bind_some, hi, hf, hp]
      · cases h
    · cases h
  · rintro ⟨i, params, hparams, h⟩
    obtain ⟨arr, tool, f, rfl, htool, hf, hp⟩ := parametersPath_eq_some.1 hparams
    refine List.any_eq_true.2 ⟨tool, List.mem_of_getElem? htool, ?_⟩
    simp only [hf, Option.bind_some, hp]
    exact (hasRefOrDefs_iff params).2 h

/-! ### The guard -/

/-- What becomes of one tool. -/
def normalizeTool (tool : Value) : Value :=
  tool.modify "function" fun f => f.modify "parameters" (normalizeSchema 12 [])

/-- `normalize_tool_schemas` without its guard. -/
def normalizeAllTools (tools : Value) : Value := tools.modifyArray (List.map normalizeTool)

/-- The tool number `i`. -/
def toolAt (i : ℕ) (tools : Value) : Option Value := getAt [.idx i] tools

theorem toolAt_normalizeAllTools (i : ℕ) (tools : Value) :
    toolAt i (normalizeAllTools tools) = (toolAt i tools).map normalizeTool := by
  simp only [toolAt, getAt, normalizeAllTools, asArray_modifyArray]
  cases tools.asArray with
  | none => rfl
  | some arr => simp

theorem normalizeToolSchemas_of_ref {tools : Value} (h : SomeRef tools) :
    normalizeToolSchemas tools = normalizeAllTools tools :=
  if_pos ((needsNormalization_iff tools).2 h)

theorem normalizeToolSchemas_of_noRef {tools : Value} (h : ¬ SomeRef tools) :
    normalizeToolSchemas tools = tools :=
  if_neg fun hneeds => h ((needsNormalization_iff tools).1 hneeds)

/-- **What the guard does**: with a reference or a definition in the parameters of some tool all
tools are normalized, without one none is; and the same tool in two arrays that agree on this
becomes the same. -/
theorem normalizeToolSchemas_guarded (tools : Value) :
    (SomeRef tools → normalizeToolSchemas tools = normalizeAllTools tools) ∧
      (¬ SomeRef tools → normalizeToolSchemas tools = tools) ∧
      ∀ tools' i j, toolAt i tools = toolAt j tools' → (SomeRef tools ↔ SomeRef tools') →
        toolAt i (normalizeToolSchemas tools) = toolAt j (normalizeToolSchemas tools') := by
  refine ⟨normalizeToolSchemas_of_ref, normalizeToolSchemas_of_noRef, ?_⟩
  intro tools' i j hsame hagree
  by_cases h : SomeRef tools
  · rw [normalizeToolSchemas_of_ref h, normalizeToolSchemas_of_ref (hagree.1 h),
      toolAt_normalizeAllTools, toolAt_normalizeAllTools, hsame]
  · rw [normalizeToolSchemas_of_noRef h, normalizeToolSchemas_of_noRef fun h' => h (hagree.2 h'),
      hsame]

/-! ### A tool whose form depends on the others -/

/-- A tool with a nullable parameter. -/
def nullableTool : Value :=
  object [("function", object [("parameters",
    object [("type", array [string "string", string "null"])])])]

/-- A tool that has definitions. -/
def definingTool : Value :=
  object [("function", object [("parameters", object [("$defs", object [])])])]

/-- The type that the parameters of the first tool are declared to have, if it is a single one. -/
def firstType (tools : Value) : Option String :=
  (getAt (parametersPath 0) tools).bind fun params => params.getStr "type"

/-- Alone the nullable type stays; next to a tool with definitions it goes. -/
theorem tool_depends_on_others :
    normalizeToolSchemas (array [nullableTool]) ≠ normalizeAllTools (array [nullableTool]) ∧
      toolAt 0 (array [nullableTool]) = toolAt 0 (array [nullableTool, definingTool]) ∧
      toolAt 0 (normalizeToolSchemas (array [nullableTool])) ≠
        toolAt 0 (normalizeToolSchemas (array [nullableTool, definingTool])) := by
  have htype : ∀ tools, firstType tools = (toolAt 0 tools).bind fun tool =>
      (getAt [.key "function", .key "parameters"] tool).bind
        fun params => params.getStr "type" := by
    intro tools
    rw [firstType, toolAt, ← Option.bind_assoc, ← getAt_append]
    rfl
  refine ⟨fun h => ?_, rfl, fun h => ?_⟩
  · exact absurd (congrArg firstType h) (by decide)
  · have h' : firstType (normalizeToolSchemas (array [nullableTool])) =
        firstType (normalizeToolSchemas (array [nullableTool, definingTool])) := by
      rw [htype, htype, h]
    exact absurd h' (by decide)

end Mybro
