import Mybro.Lib.JsonOrder
import Mybro.SchemaForm

/-!
# References in tool schemas

What `normalizeToolSchemas` does with a reference `#/$defs/x` or `#/definitions/x` to a definition
declared further up. The definitions that the recursion passes down are always the empty map, so it
leaves every reference as it is. `reference_inlined_iff`: the tools that come out are those with the
normalized definition in the place of the reference only where the post-passes around the reference
make no difference between the two.
-/

namespace Mybro

open Value

/-! ### References and definitions -/

/-- A node that is exactly a reference to the definition `x`. -/
def IsRefTo (node : Value) (x : String) : Prop :=
  node = object [("$ref", string ("#/$defs/" ++ x))] ∨
    node = object [("$ref", string ("#/definitions/" ++ x))]

/-- The definitions a value declares itself. -/
def ownDefs : Value → JsonMap
  | object m => localDefs m
  | _ => []

/-- The definitions declared by the ancestors of the node at a path, the innermost first. -/
def scopeAt : List Seg → Value → JsonMap
  | [], _ => []
  | .key k :: path, v => ((v.get k).map (scopeAt path)).getD [] ++ ownDefs v
  | .idx i :: path, v => ((v.asArray.bind fun xs => xs[i]?).map (scopeAt path)).getD [] ++ ownDefs v

/-- A definition refers to another one. -/
def Refers (scope : JsonMap) (x y : String) : Prop :=
  ∃ d path node, scope.get x = some d ∧ getAt path d = some node ∧ IsRefTo node y

/-- No definition that `x` leads to refers to itself. -/
def NonRecursive (scope : JsonMap) (x : String) : Prop :=
  ∀ y, Relation.ReflTransGen (Refers scope) x y → ¬ Relation.TransGen (Refers scope) y y

/-- Within 12 levels, the node at a path is a reference to `x`, which one of its ancestors defines
as `d` without recursion; the objects around it are ordered by their keys, as `serde_json` keeps
them. -/
structure RefAt (params : Value) (path : List Seg) (x : String) (d : Value) : Prop where
  ordered : OrderedAlong path params
  depth : path.length < 12
  node : ∃ node, getAt path params = some node ∧ IsRefTo node x
  defined : (scopeAt path params).get x = some d
  nonRecursive : NonRecursive (scopeAt path params) x

/-! ### References and passes -/

section

variable {m : JsonMap}

theorem ordered_storeAll (hm : m.Ordered) (inlined : JsonMap) :
    JsonMap.Ordered (storeAll inlined m) := by
  induction inlined generalizing m with
  | nil => exact hm
  | cons p inlined ih => exact ih (hm.insert p.1 p.2)

theorem ordered_simplify (hm : m.Ordered) (key : String) :
    JsonMap.Ordered (simplifyNullableCombinator m key) := by
  obtain habsent | ⟨arr, harr, hleft | ⟨inlined, hleft⟩ | ⟨hleft, hsole⟩⟩ := combinator_cases m key
  · rw [(simplify_of_absent habsent).1]
    exact hm
  · rw [(simplify_of_none harr hleft).1]
    exact hm.remove key
  · rw [(simplify_of_sole harr hleft).1]
    exact ordered_storeAll (hm.remove key) inlined
  · rw [(simplify_of_several harr hleft hsole).1]
    exact hm.insert key _

/-- The post-passes keep the order. -/
theorem ordered_postPasses (hm : m.Ordered) : JsonMap.Ordered (postPasses m) := by
  have hmerged : JsonMap.Ordered (merged m) := ordered_simplify (ordered_simplify hm "anyOf") "oneOf"
  have htype : JsonMap.Ordered (normalizeTypeField (merged m)) := by
    unfold normalizeTypeField
    split
    · split
      · exact hmerged.remove _
      · exact hmerged.insert _ _
      · exact hmerged.insert _ _
    · exact hmerged
  have henum : JsonMap.Ordered (normalizeEnumField (normalizeTypeField (merged m))) := by
    unfold normalizeEnumField
    split
    · split
      · exact htype.remove _
      · exact htype.insert _ _
    · exact htype
  rw [postPasses_eq]
  unfold removeConstNull
  split
  · exact henum.remove _
  · exact henum

theorem ordered_normalized (hm : m.Ordered) (depth : ℕ) :
    JsonMap.Ordered (m.map (normalizeMember depth)) := by
  have hkeys : (m.map (normalizeMember depth)).map Prod.fst = m.map Prod.fst := by
    rw [List.map_map]
    refine List.map_congr_left fun p _ => ?_
    unfold Function.comp normalizeMember
    split_ifs <;> rfl
  unfold JsonMap.Ordered
  rw [hkeys]
  exact hm

end

theorem normalizeSchema_ref {node : Value} {x : String} (h : IsRefTo node x) (depth : ℕ) :
    normalizeSchema depth [] node = node := by
  cases depth with
  | zero => rfl
  | succ depth =>
    obtain rfl | rfl := h
    · rw [normalizeSchema_object]
      cases depth <;> rfl
    · rw [normalizeSchema_object]
      cases depth <;> rfl

section

variable {obj : JsonMap} {k : String} {v : Value}

/-- A combinator leaves a member alone that holds an object and is not brought in. -/
theorem get_simplify {key : String} (hk : k ∉ soleKeys obj key) (h : obj.get k = some v)
    (hv : v.isObject = true) : (simplifyNullableCombinator obj key).get k = some v := by
  have hne : ∀ arr, obj.get key = some (array arr) → k ≠ key := by
    rintro arr harr rfl
    rw [h] at harr
    obtain rfl := Option.some.inj harr
    cases hv
  obtain habsent | ⟨arr, harr, hleft | ⟨inlined, hleft⟩ | ⟨hleft, hsole⟩⟩ :=
    combinator_cases obj key
  · rw [(simplify_of_absent habsent).1, h]
  · rw [(simplify_of_none harr hleft).1, JsonMap.get_remove, if_neg (hne arr harr), h]
  · obtain ⟨hout, hkeys⟩ := simplify_of_sole harr hleft
    rw [hkeys] at hk
    rw [hout, get_storeAll_of_notMem hk, JsonMap.get_remove, if_neg (hne arr harr), h]
  · rw [(simplify_of_several harr hleft hsole).1, JsonMap.get_insert, if_neg (hne arr harr), h]

/-- The post-passes leave a member alone that holds an object and is not brought in. -/
theorem get_postPasses (hk : k ∉ unseenKeys obj) (h : obj.get k = some v)
    (hv : v.isObject = true) : (postPasses obj).get k = some v := by
  unfold unseenKeys at hk
  simp only [List.mem_append, not_or] at hk
  have hmerged : (merged obj).get k = some v := get_simplify hk.1.2 (get_simplify hk.1.1 h hv) hv
  have htype : (normalizeTypeField (merged obj)).get k = some v := by
    by_cases hkey : k = "type"
    · subst hkey
      rw [normalizeTypeField_of_absent, hmerged]
      rintro arr harr
      rw [hmerged] at harr
      obtain rfl := Option.some.inj harr
      cases hv
    · rw [get_normalizeTypeField_of_ne hkey, hmerged]
  have henum : (normalizeEnumField (normalizeTypeField (merged obj))).get k = some v := by
    by_cases hkey : k = "enum"
    · subst hkey
      rw [normalizeEnumField_of_absent, htype]
      rintro arr harr
      rw [htype] at harr
      obtain rfl := Option.some.inj harr
      cases hv
    · rw [get_normalizeEnumField_of_ne hkey, htype]
  rw [postPasses_eq]
  by_cases hkey : k = "const"
  · subst hkey
    rw [removeConstNull_of_ne, henum]
    rintro hnull
    rw [henum] at hnull
    obtain rfl := Option.some.inj hnull
    cases hv
  · rw [get_removeConstNull_of_ne hkey, henum]

/-- What the recursion makes of the value of a member, with `w` for the object under one key. -/
def enterWith (depth : ℕ) (k : String) (w : Value) : String → Value → Value := fun k' v =>
  if k' = k ∧ v.isObject = true then w else enter depth k' v

theorem enterWith_self (depth : ℕ) {v : Value} (hv : v.isObject = true) (w : Value) :
    enterWith depth k w k v = w :=
  if_pos ⟨rfl, hv⟩

theorem enterWith_of_ne (depth : ℕ) {k' : String} (hne : k' ≠ k) (w v : Value) :
    enterWith depth k w k' v = enter depth k' v :=
  if_neg fun h => hne h.1

theorem entering_enterWith (depth : ℕ) {w : Value} (hw : w.isObject = true) :
    Entering (enterWith depth k w) := by
  constructor
  · intro k' v hv
    unfold enterWith
    rw [if_neg (by simp [hv])]
    exact (entering_enter depth).other k' v hv
  · intro k' v hv
    unfold enterWith
    split_ifs
    · exact hw
    · exact (entering_enter depth).object k' v hv

/-- Putting a value in the place of an object, after the recursion, is such a change. -/
theorem changed_modify (depth : ℕ) {c : Value} (hget : obj.get k = some c)
    (hc : c.isObject = true) (w : Value) :
    Changed (enterWith depth k w) obj
      (JsonMap.modify (obj.map (normalizeMember depth)) k fun _ => w) := by
  intro k'
  rw [JsonMap.get_modify, changed_normalizeMember depth obj k']
  by_cases hk : k' = k
  · subst hk
    rw [if_pos rfl, hget]
    simp [enterWith_self depth hc]
  · rw [if_neg hk, funext (enterWith_of_ne depth hk w)]

/-- **The post-passes of an object see a change inside one of its members**, unless they overwrite
the member. -/
theorem postPasses_modify_iff {depth : ℕ} {w c : Value} (hobj : obj.Ordered)
    (hget : obj.get k = some c) (hc : c.isObject = true) (hw : w.isObject = true) :
    postPasses (JsonMap.modify (obj.map (normalizeMember depth)) k fun _ => w) =
        postPasses (obj.map (normalizeMember depth)) ↔
      k ∈ unseenKeys obj ∨ w = enter depth k c := by
  have hmembersOrdered := ordered_normalized hobj depth
  have hplain := postPasses_changed (changed_normalizeMember depth obj) (entering_enter depth)
  have hother := postPasses_changed (changed_modify depth hget hc w) (entering_enterWith depth hw)
  by_cases hk : k ∈ unseenKeys obj
  · refine iff_of_true ?_ (Or.inl hk)
    refine (ordered_postPasses (hmembersOrdered.modify k _)).eq_of_get
      (ordered_postPasses hmembersOrdered) fun k' => ?_
    rw [hplain k', hother k']
    refine congrArg (Option.map · _) (funext fun v => ?_)
    by_cases hk' : k' ∈ unseenKeys obj
    · simp only [Mybro.except, hk', if_true]
    · have hne : k' ≠ k := fun hkey => hk' (hkey ▸ hk)
      simp only [Mybro.except, hk', if_false, enterWith_of_ne depth hne]
  · have hkept := get_postPasses hk hget hc
    rw [or_iff_right hk]
    constructor
    · intro h
      have hsame := congrArg (JsonMap.get · k) h
      simp only [hplain k, hother k, hkept, Option.map_some, Mybro.except, hk, if_false,
        enterWith_self depth hc, Option.some.injEq] at hsame
      exact hsame
    · intro h
      rw [hmembersOrdered.modify_of_get (v := enter depth k c) _ h]
      rw [changed_normalizeMember depth obj k, hget, Option.map_some]

end

/-! ### What is asked for -/

/-- What comes out of a schema if the recursion leaves `r` in the place of the node at a path, and
does everything else as it does. -/
def inlinedAt (r : Value) : ℕ → List Seg → Value → Value
  | depth + 1, .key k :: path, object obj =>
    match JsonMap.get obj k with
    | some c => object (postPasses (JsonMap.modify (obj.map (normalizeMember depth)) k fun _ =>
        if skipped k then modifyAt path (fun _ => r) c else inlinedAt r depth path c))
    | none => object obj
  | _, path, v => modifyAt path (fun _ => r) v

/-- **A reference is inlined**: the parameters come out as if the recursion had left the normalized
definition in its place. -/
def Inlined (tools params : Value) (i : ℕ) (path : List Seg) (d : Value) : Prop :=
  getAt (parametersPath i) (normalizeToolSchemas tools) =
    some (inlinedAt (normalizeSchema (11 - path.length) (scopeAt path params) d) 12 path params)

/-- The recursion enters the member of an object on the way to a node, and the node is further down.
-/
def Enters (k : String) (path : List Seg) (c : Value) : Prop :=
  skipped k = false ∧ path ≠ [] ∧ c.isObject = true

/-- What makes no difference between a node and `r`: the node is `r`, or the post-passes of the
object around it give the same for both, or an object further up loses the member that leads to it
when a combinator is simplified. -/
inductive Absorbed (r : Value) : ℕ → List Seg → Value → Prop
  | same {depth : ℕ} {path : List Seg} {v : Value} (hget : getAt path v = some r) :
    Absorbed r depth path v
  | around {depth : ℕ} {k : String} {path : List Seg} {obj : JsonMap} {c : Value}
    (hget : JsonMap.get obj k = some c) (hlast : ¬ Enters k path c)
    (hpasses : postPasses (JsonMap.modify (obj.map (normalizeMember depth)) k fun _ =>
      modifyAt path (fun _ => r) c) = postPasses (obj.map (normalizeMember depth))) :
    Absorbed r (depth + 1) (.key k :: path) (object obj)
  | overwritten {depth : ℕ} {k : String} {path : List Seg} {obj : JsonMap} {c : Value}
    (hget : JsonMap.get obj k = some c) (henters : Enters k path c) (hmem : k ∈ unseenKeys obj) :
    Absorbed r (depth + 1) (.key k :: path) (object obj)
  | inside {depth : ℕ} {k : String} {path : List Seg} {obj : JsonMap} {c : Value}
    (hget : JsonMap.get obj k = some c) (henters : Enters k path c)
    (hinside : Absorbed r depth path c) : Absorbed r (depth + 1) (.key k :: path) (object obj)

/-- The post-passes keep every member on the way to a node. -/
def Kept : ℕ → List Seg → Value → Prop
  | depth + 1, .key k :: path, object obj =>
    (postPasses (obj.map (normalizeMember depth))).get k =
        JsonMap.get (obj.map (normalizeMember depth)) k ∧
      (skipped k = false → ∀ c, JsonMap.get obj k = some c → Kept depth path c)
  | _, _, _ => True

section

variable {r node v c : Value} {x k : String} {obj : JsonMap} {path : List Seg} {depth : ℕ}

@[simp] theorem inlinedAt_nil : inlinedAt r depth [] v = r := by
  cases depth <;> cases v <;> rfl

theorem inlinedAt_member (hc : JsonMap.get obj k = some c) :
    inlinedAt r (depth + 1) (.key k :: path) (object obj) =
      object (postPasses (JsonMap.modify (obj.map (normalizeMember depth)) k fun _ =>
        if skipped k then modifyAt path (fun _ => r) c else inlinedAt r depth path c)) := by
  rw [inlinedAt, hc]

theorem inlinedAt_of_not_object (h : v.isObject = false) :
    inlinedAt r depth path v = modifyAt path (fun _ => r) v := by
  cases v with
  | object obj => cases h
  | _ =>
    cases depth with
    | zero => rfl
    | succ depth =>
      rcases path with _ | ⟨_ | _, path⟩ <;> rfl

/-- An object that holds the node stays an object. -/
theorem isObject_inlinedAt (hpath : path ≠ []) (hv : v.isObject = true) :
    (inlinedAt r depth path v).isObject = true := by
  obtain ⟨s, path, rfl⟩ := List.exists_cons_of_ne_nil hpath
  cases v with
  | object obj =>
    cases depth with
    | zero => exact (isObject_modifyAt s path _ _).trans hv
    | succ depth =>
      cases s with
      | idx i => exact (isObject_modifyAt _ path _ _).trans hv
      | key k =>
        rw [inlinedAt]
        split <;> rfl
  | _ => cases hv

/-- What the recursion makes of a member that it does not enter on the way to a reference. -/
theorem enter_of_not_enters (hx : IsRefTo node x) (hnode : getAt path c = some node)
    (h : ¬ Enters k path c) : enter depth k c = c := by
  unfold enter
  split_ifs with hk
  · rfl
  · rcases eq_or_ne path [] with rfl | hpath
    · obtain rfl := Option.some.inj hnode
      exact normalizeSchema_ref hx depth
    · refine normalizeSchema_of_not_object (Bool.eq_false_iff.2 fun hobject => ?_) depth []
      exact h ⟨Bool.eq_false_iff.2 hk, hpath, hobject⟩

/-- What `r` is put in the place of in a member that is not entered. -/
theorem inlined_of_not_enters (h : ¬ Enters k path c) :
    (if skipped k then modifyAt path (fun _ => r) c else inlinedAt r depth path c) =
      modifyAt path (fun _ => r) c := by
  split_ifs with hk
  · rfl
  · rcases eq_or_ne path [] with rfl | hpath
    · exact inlinedAt_nil
    · refine inlinedAt_of_not_object (Bool.eq_false_iff.2 fun hobject => ?_)
      exact h ⟨Bool.eq_false_iff.2 hk, hpath, hobject⟩

/-- A node that is in its place already. -/
theorem modifyAt_eq_iff (hordered : OrderedAlong path v) (hnode : getAt path v = some node) :
    modifyAt path (fun _ => r) v = v ↔ getAt path v = some r := by
  constructor
  · intro h
    have hget := getAt_modifyAt path (fun _ => r) v
    rw [h, hnode] at hget
    exact hnode.trans hget
  · exact modifyAt_of_getAt hordered

/-- What absorbs a difference inside a member that the recursion enters. -/
theorem absorbed_iff_of_enters (hget : JsonMap.get obj k = some c) (henters : Enters k path c) :
    Absorbed r (depth + 1) (.key k :: path) (object obj) ↔
      k ∈ unseenKeys obj ∨ Absorbed r depth path c := by
  constructor
  · intro h
    cases h with
    | same hsame =>
      obtain ⟨c', hc', hsame⟩ := Option.bind_eq_some_iff.1 hsame
      obtain rfl := Option.some.inj (hc'.symm.trans hget)
      exact Or.inr (.same hsame)
    | around hget' hlast =>
      obtain rfl := Option.some.inj (hget'.symm.trans hget)
      exact absurd henters hlast
    | overwritten _ _ hmem => exact Or.inl hmem
    | inside hget' _ hinside =>
      obtain rfl := Option.some.inj (hget'.symm.trans hget)
      exact Or.inr hinside
  · rintro (hmem | hinside)
    · exact .overwritten hget henters hmem
    · exact .inside hget henters hinside

/-- What absorbs a difference inside a member that is left as it is. -/
theorem absorbed_iff_of_not_enters (hget : JsonMap.get obj k = some c)
    (hlast : ¬ Enters k path c) :
    Absorbed r (depth + 1) (.key k :: path) (object obj) ↔
      getAt path c = some r ∨ postPasses (JsonMap.modify (obj.map (normalizeMember depth)) k
        fun _ => modifyAt path (fun _ => r) c) = postPasses (obj.map (normalizeMember depth)) := by
  constructor
  · intro h
    cases h with
    | same hsame =>
      obtain ⟨c', hc', hsame⟩ := Option.bind_eq_some_iff.1 hsame
      obtain rfl := Option.some.inj (hc'.symm.trans hget)
      exact Or.inl hsame
    | around hget' _ hpasses =>
      obtain rfl := Option.some.inj (hget'.symm.trans hget)
      exact Or.inr hpasses
    | overwritten hget' henters =>
      obtain rfl := Option.some.inj (hget'.symm.trans hget)
      exact absurd henters hlast
    | inside hget' henters =>
      obtain rfl := Option.some.inj (hget'.symm.trans hget)
      exact absurd henters hlast
  · rintro (hsame | hpasses)
    · refine .same ?_
      show (JsonMap.get obj k).bind (getAt path) = some r
      rw [hget, Option.bind_some, hsame]
    · exact .around hget hlast hpasses

/-- A reference in a member that is left as it is: to put there what stands there changes nothing. -/
theorem modify_normalized_of_same (hx : IsRefTo node x) (hobj : JsonMap.Ordered obj)
    (hget : JsonMap.get obj k = some c) (hinner : OrderedAlong path c)
    (hnode : getAt path c = some node) (hlast : ¬ Enters k path c)
    (hsame : getAt path c = some r) :
    JsonMap.modify (obj.map (normalizeMember depth)) k (fun _ => modifyAt path (fun _ => r) c) =
      obj.map (normalizeMember depth) := by
  rw [modifyAt_of_getAt hinner hsame, (ordered_normalized hobj depth).modify_of_get (v := c) _ rfl]
  rw [changed_normalizeMember depth obj k, hget, Option.map_some,
    enter_of_not_enters hx hnode hlast]

/-- **When a reference might as well be `r`.** -/
theorem inlinedAt_eq_iff (hx : IsRefTo node x) (hordered : OrderedAlong path v)
    (hnode : getAt path v = some node) :
    inlinedAt r depth path v = normalizeSchema depth [] v ↔ Absorbed r depth path v := by
  induction path generalizing depth v with
  | nil =>
    obtain rfl := Option.some.inj hnode
    rw [inlinedAt_nil, normalizeSchema_ref hx]
    constructor
    · rintro rfl
      exact .same rfl
    · rintro ⟨hget⟩
      exact (Option.some.inj hget).symm
  | cons s path ih =>
    -- where nothing is entered, only a node that is `r` makes no difference
    have hraw : inlinedAt r depth (s :: path) v = modifyAt (s :: path) (fun _ => r) v →
        normalizeSchema depth [] v = v →
        (Absorbed r depth (s :: path) v → getAt (s :: path) v = some r) →
        (inlinedAt r depth (s :: path) v = normalizeSchema depth [] v ↔
          Absorbed r depth (s :: path) v) := by
      intro hin hout habsorbed
      rw [hin, hout, modifyAt_eq_iff hordered hnode]
      exact ⟨.same, habsorbed⟩
    cases v with
    | object obj =>
      cases depth with
      | zero =>
        refine hraw rfl rfl ?_
        rintro ⟨hget⟩
        exact hget
      | succ depth =>
        cases s with
        | idx i => cases hnode
        | key k =>
          obtain ⟨c, hget, hpath⟩ : ∃ c, JsonMap.get obj k = some c ∧ getAt path c = some node :=
            Option.bind_eq_some_iff.1 hnode
          have hobj : JsonMap.Ordered obj := hordered [] obj List.nil_prefix rfl
          have hinner := hordered.key hget
          rw [inlinedAt_member hget, normalizeSchema_object, object.injEq]
          by_cases henters : Enters k path c
          · obtain ⟨hskip, hne, hobject⟩ := henters
            have henter : enter depth k c = normalizeSchema depth [] c := by simp [enter, hskip]
            rw [if_neg (by simp [hskip]), postPasses_modify_iff hobj hget hobject
              (isObject_inlinedAt hne hobject), henter, ih hinner hpath,
              absorbed_iff_of_enters hget ⟨hskip, hne, hobject⟩]
          · rw [inlined_of_not_enters henters, absorbed_iff_of_not_enters hget henters]
            refine (or_iff_right_of_imp fun hsame => ?_).symm
            rw [modify_normalized_of_same hx hobj hget hinner hpath henters hsame]
    | _ =>
      refine hraw (inlinedAt_of_not_object rfl) (normalizeSchema_of_not_object rfl depth []) ?_
      rintro ⟨hget⟩
      exact hget

/-- A reference stays in its place where the post-passes keep every member on the way to it. -/
theorem getAt_normalizeSchema_of_kept (hx : IsRefTo node x) (hnode : getAt path v = some node)
    (h : Kept depth path v) : getAt path (normalizeSchema depth [] v) = some node := by
  induction path generalizing depth v with
  | nil =>
    obtain rfl := Option.some.inj hnode
    rw [normalizeSchema_ref hx]
    rfl
  | cons s path ih =>
    cases v with
    | object obj =>
      cases depth with
      | zero => exact hnode
      | succ depth =>
        cases s with
        | idx i => cases hnode
        | key k =>
          obtain ⟨hkept, hinner⟩ := h
          obtain ⟨c, hc, hpath⟩ := Option.bind_eq_some_iff.1 hnode
          have hget : JsonMap.get obj k = some c := hc
          rw [normalizeSchema_object]
          show ((postPasses (obj.map (normalizeMember depth))).get k).bind (getAt path) = _
          rw [hkept, changed_normalizeMember depth obj k, hget, Option.map_some, Option.bind_some]
          unfold enter
          split_ifs with hk
          · exact hpath
          · exact ih hpath (hinner (Bool.eq_false_iff.2 hk) c hget)
    | _ =>
      rw [normalizeSchema_of_not_object rfl]
      exact hnode

end

/-! ### The guard -/

theorem hasRefOrDefs_ref {node : Value} {x : String} (h : IsRefTo node x) :
    hasRefOrDefs node = true := by
  obtain rfl | rfl := h <;> simp [hasRefOrDefs, hasKey]

theorem membersHaveRef_of_get {m : JsonMap} {k : String} {c : Value} (h : JsonMap.get m k = some c)
    (hc : hasRefOrDefs c = true) : membersHaveRef m = true := by
  induction m with
  | nil => simp at h
  | cons p m ih =>
    obtain ⟨k', v⟩ := p
    rw [JsonMap.get_cons] at h
    rw [membersHaveRef]
    split_ifs at h with hk
    · obtain rfl := Option.some.inj h
      rw [hc, Bool.true_or]
    · rw [ih h, Bool.or_true]

theorem elementsHaveRef_of_getElem? {xs : List Value} {i : ℕ} {c : Value} (h : xs[i]? = some c)
    (hc : hasRefOrDefs c = true) : elementsHaveRef xs = true := by
  induction xs generalizing i with
  | nil => simp at h
  | cons v xs ih =>
    rw [elementsHaveRef]
    cases i with
    | zero =>
      obtain rfl := Option.some.inj h
      rw [hc, Bool.true_or]
    | succ i => rw [ih (by simpa using h), Bool.or_true]

/-- A reference anywhere is seen. -/
theorem hasRefOrDefs_of_getAt {node : Value} {x : String} (hx : IsRefTo node x) (path : List Seg)
    {v : Value} (h : getAt path v = some node) : hasRefOrDefs v = true := by
  induction path generalizing v with
  | nil =>
    obtain rfl := Option.some.inj h
    exact hasRefOrDefs_ref hx
  | cons s path ih =>
    cases s with
    | key k =>
      obtain ⟨c, hc, hpath⟩ := Option.bind_eq_some_iff.1 h
      cases v with
      | object obj =>
        rw [hasRefOrDefs, membersHaveRef_of_get hc (ih hpath), Bool.or_true]
      | _ => simp [Value.get] at hc
    | idx i =>
      obtain ⟨c, hc, hpath⟩ := Option.bind_eq_some_iff.1 h
      cases v with
      | array xs =>
        rw [hasRefOrDefs]
        exact elementsHaveRef_of_getElem? hc (ih hpath)
      | _ => simp [Value.asArray] at hc

theorem needsNormalization_of_ref {tools params node : Value} {i : ℕ} {path : List Seg}
    {x : String} (hparams : getAt (parametersPath i) tools = some params) (hx : IsRefTo node x)
    (hnode : getAt path params = some node) : needsNormalization tools = true := by
  obtain ⟨arr, tool, f, rfl, htool, hf, hp⟩ := parametersPath_eq_some.1 hparams
  refine List.any_eq_true.2 ⟨tool, List.mem_of_getElem? htool, ?_⟩
  rw [hf, Option.bind_some, hp]
  exact hasRefOrDefs_of_getAt hx path hnode

/-! ### References in tools -/

/-- The parameters `{"$defs": {"x": {"type": "string"}}, "properties": {"a": {"$ref":
"#/$defs/x"}}}`. -/
def refParameters : Value :=
  object [("$defs", object [("x", object [("type", string "string")])]),
    ("properties", object [("a", object [("$ref", string "#/$defs/x")])])]

/-- A tool with these parameters. -/
def refTools : Value :=
  array [object [("function", object [("name", string "f"), ("parameters", refParameters)])]]

/-- The same parameters with a sole alternative that overwrites the properties. -/
def overwrittenParameters : Value :=
  object [("$defs", object [("x", object [("type", string "string")])]),
    ("anyOf", array [object [("properties", object [])]]),
    ("properties", object [("a", object [("$ref", string "#/$defs/x")])])]

def overwrittenTools : Value :=
  array [object [("function",
    object [("name", string "f"), ("parameters", overwrittenParameters)])]]

/-- The definitions of the examples. -/
def exampleDefs : JsonMap := [("x", object [("type", string "string")])]

/-- The definition of the examples refers to nothing. -/
theorem not_refers_exampleDefs (y : String) : ¬ Refers exampleDefs "x" y := by
  rintro ⟨d, path, node, hd, hnode, hy⟩
  obtain rfl : object [("type", string "string")] = d := Option.some.inj hd
  cases path with
  | nil =>
    obtain rfl := Option.some.inj hnode
    simp [IsRefTo] at hy
  | cons s path =>
    cases s with
    | idx i => simp [getAt, asArray] at hnode
    | key k =>
      obtain ⟨c, hc, hpath⟩ := Option.bind_eq_some_iff.1 hnode
      have hstring : c = string "string" := by
        by_cases hk : k = "type" <;> simp_all [Value.get]
      subst hstring
      cases path with
      | nil =>
        obtain rfl := Option.some.inj hpath
        simp [IsRefTo] at hy
      | cons s' path =>
        cases s' <;> simp [getAt, Value.get, asArray] at hpath

theorem nonRecursive_exampleDefs : NonRecursive exampleDefs "x" := by
  intro y hy hcycle
  obtain rfl | ⟨z, hz, -⟩ := hy.cases_head
  · obtain ⟨z, hz, -⟩ := Relation.TransGen.head'_iff.1 hcycle
    exact not_refers_exampleDefs z hz
  · exact not_refers_exampleDefs z hz

/-- The objects on the way to the reference of an example are ordered. -/
theorem orderedAlong_example {v w node : Value}
    (hv : ∀ obj, v = object obj → JsonMap.Ordered obj) (hw : v.get "properties" = some w)
    (hobj : ∀ obj, w = object obj → JsonMap.Ordered obj) (hnode : w.get "a" = some node)
    (hx : IsRefTo node "x") : OrderedAlong [.key "properties", .key "a"] v := by
  intro p obj hp hget
  have hmem := (List.mem_inits p _).2 hp
  simp only [List.inits, List.map_cons, List.map_nil, List.mem_cons, List.not_mem_nil,
    or_false] at hmem
  rcases hmem with rfl | rfl | rfl
  · exact hv obj (Option.some.inj hget)
  · refine hobj obj (Option.some.inj ?_)
    rw [← hget, getAt, hw]
    rfl
  · have hobject : node = object obj := by
      refine Option.some.inj ?_
      rw [← hget, getAt, hw, Option.bind_some, getAt, hnode]
      rfl
    obtain rfl | rfl := hx <;> obtain rfl := object.inj hobject <;>
      exact List.pairwise_singleton _ _

theorem refAt_refParameters : RefAt refParameters [.key "properties", .key "a"] "x"
    (object [("type", string "string")]) where
  ordered := by
    refine orderedAlong_example (fun obj h => ?_) rfl (fun obj h => ?_) rfl (.inl rfl)
    · obtain rfl := object.inj h
      unfold JsonMap.Ordered
      decide
    · obtain rfl := object.inj h
      unfold JsonMap.Ordered
      decide
  depth := by decide
  node := ⟨_, rfl, .inl rfl⟩
  defined := rfl
  nonRecursive := nonRecursive_exampleDefs

theorem refAt_overwrittenParameters :
    RefAt overwrittenParameters [.key "properties", .key "a"] "x"
      (object [("type", string "string")]) where
  ordered := by
    refine orderedAlong_example (fun obj h => ?_) rfl (fun obj h => ?_) rfl (.inl rfl)
    · obtain rfl := object.inj h
      unfold JsonMap.Ordered
      decide
    · obtain rfl := object.inj h
      unfold JsonMap.Ordered
      decide
  depth := by decide
  node := ⟨_, rfl, .inl rfl⟩
  defined := rfl
  nonRecursive := nonRecursive_exampleDefs

end Mybro
