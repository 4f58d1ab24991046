import Mathlib.Tactic
import Mybro.Lib.Utf8

/-!
# JSON values

Parsed JSON as a Rust program holds it: numbers are unsigned or negative machine integers or
floats (a float is carried by the text it is printed as), and an object is the list of its members
in key order, one member for each key.

Accessors are total and return `none` on a value of another shape. The one partial operation is the
assignment through an index, `setIndex`, which has no result on a value that is neither an object
nor null.
-/

/-- A JSON number. -/
inductive Number
  | posInt (n : UInt64)
  | negInt (n : Int64)
  | float (text : String)
  deriving DecidableEq, Repr

/-- A JSON value. -/
inductive Value
  | null
  | bool (b : Bool)
  | number (n : Number)
  | string (s : String)
  | array (xs : List Value)
  | object (m : List (String × Value))

/-- The members of an object. -/
abbrev JsonMap := List (String × Value)

namespace JsonMap

/-- The value stored under a key. -/
def get (m : JsonMap) (k : String) : Option Value := m.lookup k

/-- Store a value under a key, in key order. -/
def insert (m : JsonMap) (k : String) (v : Value) : JsonMap :=
  match m with
  | [] => [(k, v)]
  | (k', v') :: m =>
    if k = k' then (k, v) :: m
    else if k < k' then (k, v) :: (k', v') :: m
    else (k', v') :: insert m k v

/-- Without the member of a key. -/
def remove (m : JsonMap) (k : String) : JsonMap := m.filter fun p => p.1 ≠ k

/-- Change the value stored under a key, if there is one. -/
def modify (m : JsonMap) (k : String) (f : Value → Value) : JsonMap :=
  m.map fun p => if p.1 = k then (p.1, f p.2) else p

/-- The object with the given members, later ones overwriting earlier ones. -/
def ofList (l : List (String × Value)) : JsonMap := l.foldl (fun m p => insert m p.1 p.2) []

@[simp] theorem get_nil (k : String) : get [] k = none := rfl

@[simp] theorem get_cons (k k' : String) (v : Value) (m : JsonMap) :
    get ((k', v) :: m) k = if k = k' then some v else get m k := by
  rw [get, List.lookup_cons]
  split_ifs with h
  · rw [beq_iff_eq.2 h]
  · rw [beq_false_of_ne h]
    rfl

@[simp] theorem get_insert (m : JsonMap) (k k' : String) (v : Value) :
    get (insert m k v) k' = if k' = k then some v else get m k' := by
  induction m with
  | nil => simp [insert]
  | cons p m ih =>
    obtain ⟨k₀, v₀⟩ := p
    simp only [insert]
    split_ifs with h1 h2 <;> grind [get_cons]

@[simp] theorem get_remove (m : JsonMap) (k k' : String) :
    get (remove m k) k' = if k' = k then none else get m k' := by
  induction m with
  | nil => simp [remove]
  | cons p m ih =>
    obtain ⟨k₀, v₀⟩ := p
    have ih' : get (List.filter (fun p => decide (p.1 ≠ k)) m) k' =
        if k' = k then none else get m k' := ih
    simp only [remove, List.filter_cons]
    grind [get_cons]

@[simp] theorem get_modify (m : JsonMap) (k k' : String) (f : Value → Value) :
    get (modify m k f) k' = if k' = k then (get m k').map f else get m k' := by
  induction m with
  | nil => simp [modify]
  | cons p m ih =>
    obtain ⟨k₀, v₀⟩ := p
    have ih' : get (List.map (fun p => if p.1 = k then (p.1, f p.2) else p) m) k' =
        if k' = k then (get m k').map f else get m k' := ih
    simp only [modify, List.map_cons]
    grind [get_cons]

/-- The last member of a key is the one that counts. -/
theorem get_ofList (l : List (String × Value)) (k : String) :
    get (ofList l) k = l.reverse.lookup k := by
  have hfold : ∀ (l : List (String × Value)) (m : JsonMap),
      get (l.foldl (fun m p => insert m p.1 p.2) m) k = (l.reverse.lookup k).or (get m k) := by
    intro l
    induction l with
    | nil => simp
    | cons p l ih =>
      intro m
      obtain ⟨k', v⟩ := p
      rw [List.foldl_cons, ih, get_insert, List.reverse_cons, List.lookup_append, Option.or_assoc]
      split_ifs with h
      · simp [h]
      · simp [List.lookup_cons, beq_false_of_ne h]
  rw [ofList, hfold, get_nil, Option.or_none]

end JsonMap

namespace Value

/-! ### Accessors -/

/-- The member of an object. -/
def get : Value → String → Option Value
  | object m, k => JsonMap.get m k
  | _, _ => none

def asStr : Value → Option String
  | string s => some s
  | _ => none

def asBool : Value → Option Bool
  | bool b => some b
  | _ => none

def asArray : Value → Option (List Value)
  | array xs => some xs
  | _ => none

def asObject : Value → Option JsonMap
  | object m => some m
  | _ => none

/-- The unsigned integer a number is, if it is one. -/
def asU64 : Value → Option UInt64
  | number (.posInt n) => some n
  | _ => none

def isNull : Value → Bool
  | null => true
  | _ => false

def isObject : Value → Bool
  | object _ => true
  | _ => false

/-- The string stored under a key. -/
def getStr (v : Value) (k : String) : Option String := (v.get k).bind asStr

/-! ### Updates -/

/-- Apply a function to the members, if the value is an object. -/
def modifyObject (v : Value) (f : JsonMap → JsonMap) : Value :=
  match v with
  | object m => object (f m)
  | v => v

/-- Apply a function to the elements, if the value is an array. -/
def modifyArray (v : Value) (f : List Value → List Value) : Value :=
  match v with
  | array xs => array (f xs)
  | v => v

/-- Apply a function to the member of a key, if there is one. -/
def modify (v : Value) (k : String) (f : Value → Value) : Value :=
  v.modifyObject fun m => JsonMap.modify m k f

/-- Assign through a string index: null becomes an object first, and a value of any other shape
than an object has no such place. -/
def setIndex : Value → String → Value → Option Value
  | null, k, x => some (object [(k, x)])
  | object m, k, x => some (object (JsonMap.insert m k x))
  | _, _, _ => none

/-- One step into a value: an object key or an array position. -/
inductive Seg
  | key (k : String)
  | idx (i : ℕ)
  deriving DecidableEq

/-- Apply a function at a path, if the path leads somewhere. -/
def modifyAt : List Seg → (Value → Value) → Value → Value
  | [], f, v => f v
  | .key k :: path, f, v => v.modify k (modifyAt path f)
  | .idx i :: path, f, v => v.modifyArray fun xs => xs.modify i (modifyAt path f)

/-- The value at a path, if the path leads somewhere. -/
def getAt : List Seg → Value → Option Value
  | [], v => some v
  | .key k :: path, v => (v.get k).bind (getAt path)
  | .idx i :: path, v => (v.asArray.bind fun xs => xs[i]?).bind (getAt path)

@[simp] theorem get_modify (v : Value) (k k' : String) (f : Value → Value) :
    (v.modify k f).get k' = if k' = k then (v.get k).map f else v.get k' := by
  cases v with
  | object m =>
    show JsonMap.get (JsonMap.modify m k f) k' = _
    rw [JsonMap.get_modify]
    split_ifs with h
    · rw [h]
      rfl
    · rfl
  | _ => split_ifs <;> rfl

@[simp] theorem asArray_modifyArray (v : Value) (f : List Value → List Value) :
    (v.modifyArray f).asArray = v.asArray.map f := by
  cases v <;> rfl

@[simp] theorem isObject_object (m : JsonMap) : (object m).isObject = true := rfl

@[simp] theorem isObject_modifyObject (v : Value) (f : JsonMap → JsonMap) :
    (v.modifyObject f).isObject = v.isObject := by
  cases v <;> rfl

@[simp] theorem isObject_modifyArray (v : Value) (f : List Value → List Value) :
    (v.modifyArray f).isObject = v.isObject := by
  cases v <;> rfl

@[simp] theorem isObject_modify (v : Value) (k : String) (f : Value → Value) :
    (v.modify k f).isObject = v.isObject := v.isObject_modifyObject _

/-- A path into a value leaves its shape alone when it is not empty. -/
theorem isObject_modifyAt (s : Seg) (path : List Seg) (f : Value → Value) (v : Value) :
    (modifyAt (s :: path) f v).isObject = v.isObject := by
  cases s with
  | key k => simp [modifyAt]
  | idx i => simp [modifyAt]

/-- A sequence of changes at paths that are not empty leaves the shape alone. -/
theorem isObject_foldl_modifyAt {β : Type} (path : β → List Seg) (f : β → Value → Value)
    {l : List β} (h : ∀ b ∈ l, path b ≠ []) (v : Value) :
    (l.foldl (fun v b => modifyAt (path b) (f b) v) v).isObject = v.isObject := by
  induction l generalizing v with
  | nil => rfl
  | cons b l ih =>
    rw [List.foldl_cons, ih fun c hc => h c (List.mem_cons_of_mem _ hc)]
    cases hp : path b with
    | nil => exact absurd hp (h b List.mem_cons_self)
    | cons s rest => exact isObject_modifyAt s rest _ v

/-- **Where assignment through a key is defined.** -/
theorem setIndex_isSome_iff (v : Value) (k : String) (x : Value) :
    (∃ w, v.setIndex k x = some w) ↔ v.isObject = true ∨ v = null := by
  cases v <;> simp [setIndex, isObject]

theorem isObject_of_setIndex {v w : Value} {k : String} {x : Value}
    (h : v.setIndex k x = some w) : w.isObject = true := by
  cases v <;> simp only [setIndex, Option.some.injEq, reduceCtorEq] at h <;> subst h <;> rfl

/-! ### Text -/

/-- A hexadecimal digit, in lower case. -/
def hexDigit (n : ℕ) : Char := if n < 10 then Char.ofNat (48 + n) else Char.ofNat (87 + n)

/-- A character inside a JSON string. -/
def escapeChar (c : Char) : String :=
  if c = '"' then "\\\""
  else if c = '\\' then "\\\\"
  else if c.toNat = 8 then "\\b"
  else if c.toNat = 12 then "\\f"
  else if c = '\n' then "\\n"
  else if c = '\r' then "\\r"
  else if c = '\t' then "\\t"
  else if c.toNat < 32 then
    String.ofList ['\\', 'u', '0', '0', hexDigit (c.toNat / 16), hexDigit (c.toNat % 16)]
  else String.ofList [c]

/-- A string as JSON text. -/
def quote (s : String) : String := "\"" ++ String.join (s.toList.map escapeChar) ++ "\""

/-- A number as JSON text. -/
def numberText : Number → String
  | .posInt n => toString n.toNat
  | .negInt n => toString n.toInt
  | .float text => text

mutual

/-- The compact JSON text of a value. -/
def text : Value → String
  | null => "null"
  | bool b => if b then "true" else "false"
  | number n => numberText n
  | string s => quote s
  | array xs => "[" ++ elementsText xs ++ "]"
  | object m => "\x7b" ++ membersText m ++ "\x7d"

def elementsText : List Value → String
  | [] => ""
  | [v] => text v
  | v :: vs => text v ++ "," ++ elementsText vs

def membersText : List (String × Value) → String
  | [] => ""
  | [(k, v)] => quote k ++ ":" ++ text v
  | (k, v) :: m => quote k ++ ":" ++ text v ++ "," ++ membersText m

end

/-- The bytes of the compact JSON text. -/
def toVec (v : Value) : List UInt8 := Utf8.encode v.text

end Value
