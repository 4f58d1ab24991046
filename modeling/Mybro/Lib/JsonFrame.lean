import Mybro.Lib.Json

/-!
# Frames of JSON values

`DiffersOnlyAt P v w` says that `w` is `v` except at, and below, the places in `P`. A place is a
path of object keys and array positions. At every path with no place on it or above it the two
values look alike: both or neither have something there, of the same kind, the same scalar, or
arrays of the same length. If no place lies below the path either, what is there is the same.

The rules follow the updates: changes one after another compose, and a change of the children is a
change of the value, with the places seen from the child.
-/

namespace Value

/-- What a value shows of itself without its children. -/
def node : Value → Value
  | array xs => array (xs.map fun _ => null)
  | object _ => object []
  | v => v

/-- The part of a value one step away. -/
def child : Seg → Value → Option Value
  | .key k, v => v.get k
  | .idx i, v => v.asArray.bind fun xs => xs[i]?

/-- `w` is `v` except at the places in `P` and below them. -/
structure DiffersOnlyAt (P : List Seg → Prop) (v w : Value) : Prop where
  node : ∀ path, (∀ p, p <+: path → ¬P p) →
    (getAt path w).map Value.node = (getAt path v).map Value.node
  same : ∀ path, (∀ p, p <+: path → ¬P p) → (∀ p, path <+: p → ¬P p) →
    getAt path w = getAt path v

@[simp] theorem getAt_nil (v : Value) : getAt [] v = some v := rfl

theorem getAt_cons (s : Seg) (path : List Seg) (v : Value) :
    getAt (s :: path) v = (child s v).bind (getAt path) := by
  cases s <;> rfl

@[simp] theorem child_modify (s : Seg) (v : Value) (k : String) (f : Value → Value) :
    child s (v.modify k f) = if s = .key k then (child s v).map f else child s v := by
  cases s with
  | key k' =>
    by_cases hk : k' = k
    · simp [child, hk]
    · simp [child, hk]
  | idx i => cases v <;> simp [child, modify, modifyObject, asArray]

@[simp] theorem node_modify (v : Value) (k : String) (f : Value → Value) :
    (v.modify k f).node = v.node := by
  cases v <;> rfl

theorem getAt_append (p q : List Seg) (v : Value) :
    getAt (p ++ q) v = (getAt p v).bind (getAt q) := by
  induction p generalizing v with
  | nil => rfl
  | cons s p ih =>
    rw [List.cons_append, getAt_cons, getAt_cons]
    cases child s v with
    | none => rfl
    | some x => exact ih x

/-- Reading where a function has been applied. -/
theorem getAt_modifyAt (path : List Seg) (f : Value → Value) (v : Value) :
    getAt path (modifyAt path f v) = (getAt path v).map f := by
  induction path generalizing v with
  | nil => rfl
  | cons s path ih =>
    rw [getAt_cons, getAt_cons]
    cases s with
    | key k =>
      rw [modifyAt, child_modify, if_pos rfl]
      cases child (.key k) v with
      | none => rfl
      | some x => exact ih x
    | idx i =>
      have hchild : child (.idx i) (modifyAt (.idx i :: path) f v) =
          (child (.idx i) v).map (modifyAt path f) := by
        simp only [child, modifyAt, asArray_modifyArray]
        cases v.asArray with
        | none => rfl
        | some xs => simp
      rw [hchild]
      cases child (.idx i) v with
      | none => rfl
      | some x => exact ih x

namespace DiffersOnlyAt

variable {P : List Seg → Prop} {u v w : Value}

theorem refl (P : List Seg → Prop) (v : Value) : DiffersOnlyAt P v v :=
  ⟨fun _ _ => rfl, fun _ _ _ => rfl⟩

theorem trans (h : DiffersOnlyAt P u v) (h' : DiffersOnlyAt P v w) : DiffersOnlyAt P u w := by
  constructor
  · intro path hpath
    rw [h'.node path hpath, h.node path hpath]
  · intro path hpath hbelow
    rw [h'.same path hpath hbelow, h.same path hpath hbelow]

/-- More places allow more changes. -/
theorem mono {P Q : List Seg → Prop} (h : DiffersOnlyAt P v w) (hPQ : ∀ p, P p → Q p) :
    DiffersOnlyAt Q v w := by
  constructor
  · intro path hpath
    exact h.node path fun p hp hP => hpath p hp (hPQ p hP)
  · intro path hpath hbelow
    exact h.same path (fun p hp hP => hpath p hp (hPQ p hP)) fun p hp hP => hbelow p hp (hPQ p hP)

/-- A value that is no place itself keeps its kind. -/
theorem isObject_eq (h : DiffersOnlyAt P v w) (hP : ¬P []) : w.isObject = v.isObject := by
  have hnode : w.node = v.node := by
    simpa using h.node [] fun p hp => by rwa [List.prefix_nil.1 hp]
  have hkind : ∀ x : Value, x.node.isObject = x.isObject := by
    intro x
    cases x <;> rfl
  rw [← hkind w, hnode, hkind v]

/-- Where nothing is found, nothing appears. -/
theorem getAt_eq_none (h : DiffersOnlyAt P v w) {path : List Seg} (hpath : ∀ p, p <+: path → ¬P p)
    (hnone : getAt path v = none) : getAt path w = none := by
  have hnode := h.node path hpath
  rw [hnone] at hnode
  exact Option.map_eq_none_iff.1 hnode

/-- Anything may happen to a value that is a place itself. -/
theorem of_root (h : P []) : DiffersOnlyAt P v w :=
  ⟨fun _ hpath => absurd h (hpath [] List.nil_prefix),
    fun _ hpath => absurd h (hpath [] List.nil_prefix)⟩

/-- **The rule for one level.** Two values that look alike, whose children differ only at the places
seen from there, differ only at the places. -/
theorem of_child (hnode : w.node = v.node) (hsame : (∀ p, ¬P p) → w = v)
    (hchild : ∀ s, child s w = child s v ∨ P [s] ∨ ∃ x y, child s v = some x ∧
      child s w = some y ∧ DiffersOnlyAt (fun p => P (s :: p)) x y) : DiffersOnlyAt P v w := by
  have hbelow : ∀ {s : Seg} {path : List Seg}, (∀ p, p <+: s :: path → ¬P p) →
      ∀ p, p <+: path → ¬P (s :: p) :=
    fun hpath p hp => hpath _ (List.cons_prefix_cons.2 ⟨rfl, hp⟩)
  constructor
  · intro path hpath
    cases path with
    | nil => simp [hnode]
    | cons s path =>
      rw [getAt_cons, getAt_cons]
      rcases hchild s with heq | hs | ⟨x, y, hx, hy, hxy⟩
      · rw [heq]
      · exact absurd hs (hpath [s] (by simp))
      · rw [hx, hy]
        exact hxy.node path (hbelow hpath)
  · intro path hpath hext
    cases path with
    | nil => rw [hsame fun p => hext p List.nil_prefix]
    | cons s path =>
      rw [getAt_cons, getAt_cons]
      rcases hchild s with heq | hs | ⟨x, y, hx, hy, hxy⟩
      · rw [heq]
      · exact absurd hs (hpath [s] (by simp))
      · rw [hx, hy]
        exact hxy.same path (hbelow hpath) fun p hp => hext _ (List.cons_prefix_cons.2 ⟨rfl, hp⟩)

/-- Any members may be stored or removed at places. -/
theorem object {m m' : JsonMap} (hP : ∃ p, P p)
    (h : ∀ k, P [.key k] ∨ JsonMap.get m' k = JsonMap.get m k) :
    DiffersOnlyAt P (.object m) (.object m') := by
  obtain ⟨q, hq⟩ := hP
  refine of_child rfl (fun hno => absurd hq (hno q)) ?_
  intro s
  cases s with
  | key k =>
    rcases h k with hk | hk
    · exact Or.inr (Or.inl hk)
    · exact Or.inl hk
  | idx i => exact Or.inl rfl

/-- An assignment through a key of an object. -/
theorem setIndex {k : String} {x : Value} (hv : v.isObject = true) (hP : P [.key k])
    (h : v.setIndex k x = some w) : DiffersOnlyAt P v w := by
  cases v with
  | object m =>
    obtain rfl := Option.some.inj h
    refine object ⟨_, hP⟩ ?_
    intro k'
    by_cases hk : k' = k
    · subst hk
      exact Or.inl hP
    · right
      simp [hk]
  | _ => cases hv

/-- A change of one member. -/
theorem modify {k : String} {f : Value → Value} (hP : ∃ p, P p)
    (h : ∀ x, v.get k = some x → DiffersOnlyAt (fun p => P (.key k :: p)) x (f x)) :
    DiffersOnlyAt P v (v.modify k f) := by
  obtain ⟨q, hq⟩ := hP
  refine of_child (node_modify v k f) (fun hno => absurd hq (hno q)) ?_
  intro s
  rw [child_modify]
  split_ifs with hs
  · subst hs
    cases hx : child (.key k) v with
    | none => exact Or.inl rfl
    | some x => exact Or.inr (Or.inr ⟨x, f x, rfl, rfl, h x hx⟩)
  · exact Or.inl rfl

/-- A change of the elements of an array. -/
theorem array {xs ys : List Value} (hlen : ys.length = xs.length)
    (h : ∀ i x y, xs[i]? = some x → ys[i]? = some y →
      DiffersOnlyAt (fun p => P (.idx i :: p)) x y) : DiffersOnlyAt P (.array xs) (.array ys) := by
  refine of_child ?_ ?_ ?_
  · simp [Value.node, List.map_const', hlen]
  · intro hno
    congr 1
    refine List.ext_getElem? fun i => ?_
    rcases Nat.lt_or_ge i xs.length with hi | hi
    · have hi' : i < ys.length := by omega
      have hxy := h i xs[i] ys[i] (List.getElem?_eq_getElem hi) (List.getElem?_eq_getElem hi')
      rw [List.getElem?_eq_getElem hi, List.getElem?_eq_getElem hi']
      exact hxy.same [] (fun p _ => hno _) fun p _ => hno _
    · rw [List.getElem?_eq_none hi, List.getElem?_eq_none (by omega)]
  · intro s
    cases s with
    | key k => exact Or.inl rfl
    | idx i =>
      rcases Nat.lt_or_ge i xs.length with hi | hi
      · have hi' : i < ys.length := by omega
        exact Or.inr (Or.inr ⟨xs[i], ys[i], List.getElem?_eq_getElem hi,
          List.getElem?_eq_getElem hi',
          h i _ _ (List.getElem?_eq_getElem hi) (List.getElem?_eq_getElem hi')⟩)
      · refine Or.inl ?_
        show ys[i]? = xs[i]?
        rw [List.getElem?_eq_none hi, List.getElem?_eq_none (by omega)]

/-- A change of every element. -/
theorem map {f : Value → Value} (h : ∀ i x, child (.idx i) v = some x →
    DiffersOnlyAt (fun p => P (.idx i :: p)) x (f x)) :
    DiffersOnlyAt P v (v.modifyArray (List.map f)) := by
  cases v with
  | array xs =>
    refine array (by simp) ?_
    intro i x y hx hy
    obtain rfl : f x = y := by simpa [hx] using hy
    exact h i x hx
  | _ => exact refl P _

/-- A function applied at a place. -/
theorem modifyAt {path : List Seg} (h : P path) (f : Value → Value) (v : Value) :
    DiffersOnlyAt P v (modifyAt path f v) := by
  induction path generalizing P v with
  | nil => exact of_root h
  | cons s path ih =>
    cases s with
    | key k => exact modify ⟨_, h⟩ fun x _ => ih h x
    | idx i =>
      cases v with
      | array xs =>
        refine array (by simp) ?_
        intro j x y hx hy
        rw [List.getElem?_modify, hx] at hy
        by_cases hij : i = j
        · subst hij
          obtain rfl : Value.modifyAt path f x = y := by simpa using hy
          exact ih h x
        · obtain rfl : x = y := by simpa [hij] using hy
          exact refl _ x
      | _ => exact refl P _

/-- Functions applied at several places, one after another. -/
theorem foldl_modifyAt {β : Type} (path : β → List Seg) {l : List β} (h : ∀ b ∈ l, P (path b))
    (f : β → Value → Value) (v : Value) :
    DiffersOnlyAt P v (l.foldl (fun v b => Value.modifyAt (path b) (f b) v) v) := by
  induction l generalizing v with
  | nil => exact refl P v
  | cons b l ih =>
    rw [List.foldl_cons]
    refine (modifyAt (h b List.mem_cons_self) (f b) v).trans ?_
    exact ih (fun c hc => h c (List.mem_cons_of_mem _ hc)) _

/-- Any change strictly below a value that keeps its kind. -/
theorem below (hP : ∀ s, P [s]) (hnode : w.node = v.node) : DiffersOnlyAt P v w :=
  of_child hnode (fun hno => absurd (hP (.idx 0)) (hno _)) fun s => Or.inr (Or.inl (hP s))

end DiffersOnlyAt

/-! ### Places that lie apart -/

/-- Neither place lies on the way to the other. -/
def Apart (p q : List Seg) : Prop := ¬ p <+: q ∧ ¬ q <+: p

theorem Apart.symm {p q : List Seg} (h : Apart p q) : Apart q p := ⟨h.2, h.1⟩

/-- Places below two different elements of an array. -/
theorem Apart.of_idx {i j : ℕ} (hij : i ≠ j) (p q r : List Seg) :
    Apart (p ++ .idx i :: q) (p ++ .idx j :: r) := by
  simp [Apart, List.prefix_append_right_inj, List.cons_prefix_cons, hij, hij.symm]

/-- What lies apart from all places is the same. -/
theorem DiffersOnlyAt.same_of_apart {P : List Seg → Prop} {v w : Value} (h : DiffersOnlyAt P v w)
    {q : List Seg} (hq : ∀ p, P p → Apart p q) : getAt q w = getAt q v :=
  h.same q (fun p hp hP => (hq p hP).1 hp) fun p hp hP => (hq p hP).2 hp

/-- A change is not seen at a place that lies apart. -/
theorem getAt_modifyAt_of_apart {p q : List Seg} (h : Apart p q) (f : Value → Value) (v : Value) :
    getAt q (modifyAt p f v) = getAt q v := by
  refine (DiffersOnlyAt.modifyAt (P := (· = p)) rfl f v).same_of_apart ?_
  rintro _ rfl
  exact h

section Foldl

variable {β : Type} {path : β → List Seg} {l : List β}

/-- A value stored at several places that do not lie inside one another: at such a place there is
the old value or the new one. -/
theorem getAt_foldl_modifyAt {x : Value} {q : List Seg}
    (hq : ∀ b ∈ l, path b <+: q ∨ q <+: path b → path b = q) (v : Value) :
    getAt q (l.foldl (fun v b => modifyAt (path b) (fun _ => x) v) v) = getAt q v ∨
      getAt q (l.foldl (fun v b => modifyAt (path b) (fun _ => x) v) v) = some x := by
  induction l generalizing v with
  | nil => exact Or.inl rfl
  | cons b l ih =>
    have hstep : getAt q (modifyAt (path b) (fun _ => x) v) = getAt q v ∨
        getAt q (modifyAt (path b) (fun _ => x) v) = some x := by
      by_cases hb : path b = q
      · rw [hb, getAt_modifyAt]
        cases getAt q v with
        | none => exact Or.inl rfl
        | some y => exact Or.inr rfl
      · have hapart : Apart (path b) q :=
          ⟨fun hp => hb (hq b List.mem_cons_self (Or.inl hp)),
            fun hp => hb (hq b List.mem_cons_self (Or.inr hp))⟩
        exact Or.inl (getAt_modifyAt_of_apart hapart _ v)
    rw [List.foldl_cons]
    rcases ih (fun c hc => hq c (List.mem_cons_of_mem _ hc)) (modifyAt (path b) (fun _ => x) v)
      with h | h
    · rw [h]
      exact hstep
    · exact Or.inr h

theorem getAt_foldl_of_apart {q : List Seg} (h : ∀ b ∈ l, Apart (path b) q)
    (f : β → Value → Value) (v : Value) :
    getAt q (l.foldl (fun v b => modifyAt (path b) (f b) v) v) = getAt q v := by
  induction l generalizing v with
  | nil => rfl
  | cons b l ih =>
    rw [List.foldl_cons, ih (fun c hc => h c (List.mem_cons_of_mem _ hc)),
      getAt_modifyAt_of_apart (h b List.mem_cons_self)]

/-- **Changes at places that lie apart from one another**: each is seen at its own place, as if it
were the only one. -/
theorem getAt_foldl_of_mem (h : l.Pairwise fun a b => Apart (path a) (path b)) {b : β} (hb : b ∈ l)
    (f : β → Value → Value) (v : Value) :
    getAt (path b) (l.foldl (fun v b => modifyAt (path b) (f b) v) v) =
      (getAt (path b) v).map (f b) := by
  induction l generalizing v with
  | nil => cases hb
  | cons c l ih =>
    obtain ⟨hc, hl⟩ := List.pairwise_cons.1 h
    rw [List.foldl_cons]
    rcases List.mem_cons.1 hb with rfl | hb
    · rw [getAt_foldl_of_apart (fun d hd => (hc d hd).symm), getAt_modifyAt]
    · rw [ih hl hb, getAt_modifyAt_of_apart (hc b hb)]

end Foldl

end Value
