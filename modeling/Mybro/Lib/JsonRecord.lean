import Mybro.Lib.JsonPretty

/-!
# Records out of JSON trees

How a derived reader takes a value of a type out of the tree of a JSON text: strings, flags, whole
numbers, lists and maps, and records, whose fields are the members of an object or the elements of
an array and may be missing. For each of them there is the lemma that says what is read of the text
of a value: `readString_tree`, `readUnsigned_tree`, `readAll_map`, `readMap_object`,
`slots_object`.
-/

namespace JsonSyntax

/-! ### Scalars -/

/-- The characters of a string. -/
def text (lexeme : List Char) : Option String := (unescape lexeme).map String.ofList

def readString : Tree → Option String
  | .string lexeme => text lexeme
  | _ => none

def readBool : Tree → Option Bool
  | .bool b => some b
  | _ => none

/-- A whole number below a bound; it has no sign, no fraction and no exponent. -/
def readUnsigned (bound : ℕ) : Tree → Option ℕ
  | .number lexeme =>
    if lexeme.all Char.isDigit ∧ Nat.ofDigitChars 10 lexeme 0 < bound then
      some (Nat.ofDigitChars 10 lexeme 0)
    else none
  | _ => none

theorem text_escaped (s : String) : text (escaped s.toList) = some s := by
  rw [text, unescape_escaped, Option.map_some, String.ofList_toList]

theorem readString_tree (s : String) : readString (Value.string s).tree = some s := text_escaped s

theorem readUnsigned_tree {bound n : ℕ} (hbound : n < bound) (hn : n < 2 ^ 64) :
    readUnsigned bound (Value.number (.posInt (UInt64.ofNat n))).tree = some n := by
  have hdigits : (Nat.toDigits 10 n).all Char.isDigit = true :=
    List.all_eq_true.2 fun c hc => Nat.isDigit_of_mem_toDigits (by decide) (by decide) hc
  rw [Value.tree, Value.numberText, UInt64.toNat_ofNat_of_lt' hn, Value.toList_toString_nat,
    readUnsigned, Nat.ofDigitChars_ten_toDigits, if_pos ⟨hdigits, hbound⟩]

theorem readUnsigned_lt {bound n : ℕ} {t : Tree} (h : readUnsigned bound t = some n) :
    n < bound := by
  cases t with
  | number lexeme =>
    obtain ⟨⟨-, hlt⟩, hn⟩ := Option.ite_none_right_eq_some.1 h
    rw [← Option.some.inj hn]
    exact hlt
  | _ => cases h

/-! ### Lists and maps -/

/-- Every entry read, if each of them can be. -/
def readAll {α β : Type} (read : α → Option β) : List α → Option (List β)
  | [] => some []
  | x :: xs => (read x).bind fun y => (readAll read xs).map fun ys => y :: ys

def readList {α : Type} (read : Tree → Option α) : Tree → Option (List α)
  | .array ts => readAll read ts
  | _ => none

/-- The members of an object under their keys. -/
def keyed (ms : List (List Char × Tree)) : Option (List (String × Tree)) :=
  readAll (fun p => (text p.1).map fun k => (k, p.2)) ms

/-- A map in which the last entry of a key counts. -/
def putLast {α : Type} (m : List (String × α)) (p : String × α) : List (String × α) :=
  m.filter (fun q => q.1 ≠ p.1) ++ [p]

def readMap {α : Type} (read : Tree → Option α) : Tree → Option (List (String × α))
  | .object ms => (keyed ms).bind fun ms =>
    (readAll (fun p => (read p.2).map fun x => (p.1, x)) ms).map fun entries =>
      entries.foldl putLast []
  | _ => none

section

variable {α β γ : Type}

theorem readAll_map {read : α → Option β} {f : γ → α} {g : γ → β} {l : List γ}
    (h : ∀ x ∈ l, read (f x) = some (g x)) : readAll read (l.map f) = some (l.map g) := by
  induction l with
  | nil => rfl
  | cons x l ih =>
    rw [List.forall_mem_cons] at h
    rw [List.map_cons, readAll, h.1, Option.bind_some, ih h.2, Option.map_some, List.map_cons]

/-- A list of values that are read back one by one is read back. -/
theorem readList_array {read : Tree → Option α} {value : α → Value} {l : List α}
    (h : ∀ x ∈ l, read (value x).tree = some x) :
    readList read (Value.array (l.map value)).tree = some l := by
  have hall := readAll_map (f := fun x => (value x).tree) (g := id) h
  rw [List.map_id] at hall
  rw [Value.tree, Value.elementsTree_eq, List.map_map]
  exact hall

theorem keyed_members (m : List (String × Value)) :
    keyed (Value.membersTree m) = some (m.map fun p => (p.1, p.2.tree)) := by
  rw [Value.membersTree_eq]
  exact readAll_map fun p _ => by rw [text_escaped, Option.map_some]

theorem nodup_putLast {m : List (String × α)} (h : (m.map Prod.fst).Nodup) (p : String × α) :
    ((putLast m p).map Prod.fst).Nodup := by
  rw [putLast, List.map_append, List.map_singleton]
  refine List.Nodup.append (h.sublist (List.filter_sublist.map _)) (List.nodup_singleton _) ?_
  intro k hk hk'
  obtain ⟨q, hq, rfl⟩ := List.mem_map.1 hk
  have hne := of_decide_eq_true (List.mem_filter.1 hq).2
  exact hne (List.mem_singleton.1 hk')

/-- In the map that is read every key is there once. -/
theorem nodup_readMap {read : Tree → Option α} {t : Tree} {m : List (String × α)}
    (h : readMap read t = some m) : (m.map Prod.fst).Nodup := by
  have hfold : ∀ (l : List (String × α)) (m : List (String × α)), (m.map Prod.fst).Nodup →
      ((l.foldl putLast m).map Prod.fst).Nodup := by
    intro l
    induction l with
    | nil => exact fun _ hm => hm
    | cons p l ih => exact fun m hm => ih _ (nodup_putLast hm p)
  cases t with
  | object ms =>
    obtain ⟨ms, -, h⟩ := Option.bind_eq_some_iff.1 h
    obtain ⟨entries, -, rfl⟩ := Option.map_eq_some_iff.1 h
    exact hfold entries [] List.nodup_nil
  | _ => cases h

theorem foldl_putLast {l m : List (String × α)} (h : ((m ++ l).map Prod.fst).Nodup) :
    l.foldl putLast m = m ++ l := by
  induction l generalizing m with
  | nil => rw [List.foldl_nil, List.append_nil]
  | cons p l ih =>
    have hput : putLast m p = m ++ [p] := by
      rw [putLast, List.filter_eq_self.2]
      intro q hq
      refine decide_eq_true fun heq => ?_
      rw [List.map_append, List.map_cons] at h
      exact (List.nodup_append.1 h).2.2 q.1 (List.mem_map_of_mem hq) p.1 List.mem_cons_self heq
    rw [List.foldl_cons, hput, ih (by rwa [List.append_assoc]), List.append_assoc,
      List.singleton_append]

/-- A map with every key once is read back. -/
theorem readMap_object {read : Tree → Option α} (value : α → Value) {m : List (String × α)}
    (hkeys : (m.map Prod.fst).Nodup) (h : ∀ p ∈ m, read (value p.2).tree = some p.2) :
    readMap read (Value.object (m.map fun p => (p.1, value p.2))).tree = some m := by
  have hentry : ∀ p ∈ m, ((read (value p.2).tree).map fun x => (p.1, x)) = some (id p) := by
    intro p hp
    rw [h p hp, Option.map_some]
    rfl
  have hall : readAll (fun p : String × Tree => (read p.2).map fun x => (p.1, x))
      (m.map fun p => (p.1, (value p.2).tree)) = some (m.map id) := readAll_map hentry
  rw [List.map_id] at hall
  rw [Value.tree, readMap, keyed_members, Option.bind_some, List.map_map]
  exact (congrArg (Option.map fun entries => entries.foldl putLast []) hall).trans
    (congrArg some (foldl_putLast hkeys))

end

/-! ### Records -/

/-- The values of the fields of a record, out of the members of an object or the elements of an
array. Members of other names are passed over; a field that is there twice is an error, and so are
more elements than there are fields. -/
def slots (names : List String) : Tree → Option (String → Option Tree)
  | .object ms => (keyed ms).bind fun ms =>
    if ∀ n ∈ names, (ms.filter fun p => p.1 = n).length ≤ 1 then some fun n => ms.lookup n
    else none
  | .array ts =>
    if ts.length ≤ names.length then some fun n => (names.zip ts).lookup n else none
  | _ => none

/-- The value of a field, or its default when the field is missing. -/
def fieldOr {α : Type} (slot : String → Option Tree) (name : String) (read : Tree → Option α)
    (default : α) : Option α :=
  match slot name with
  | some t => read t
  | none => some default

theorem lookup_map_snd {α β : Type} (f : α → β) (m : List (String × α)) (k : String) :
    (m.map fun p => (p.1, f p.2)).lookup k = (m.lookup k).map f := by
  induction m with
  | nil => rfl
  | cons p m ih =>
    rw [List.map_cons, List.lookup_cons, List.lookup_cons, ih]
    cases k == p.1 <;> rfl

theorem length_filter_key_le {α : Type} {m : List (String × α)} (h : (m.map Prod.fst).Nodup)
    (k : String) : (m.filter fun p => p.1 = k).length ≤ 1 := by
  induction m with
  | nil => exact Nat.zero_le _
  | cons p m ih =>
    rw [List.map_cons, List.nodup_cons] at h
    rw [List.filter_cons]
    split_ifs with hp
    · have hnone : m.filter (fun q => q.1 = k) = [] := by
        refine List.filter_eq_nil_iff.2 fun q hq heq => h.1 ?_
        rw [of_decide_eq_true hp, ← of_decide_eq_true heq]
        exact List.mem_map_of_mem hq
      rw [hnone]
      rfl
    · exact ih h.2

/-- The fields of a record that was written. -/
def written (m : List (String × Value)) (name : String) : Option Tree :=
  (m.lookup name).map Value.tree

/-- A record that was written with its fields as the members of an object. -/
theorem slots_object (names : List String) {m : List (String × Value)}
    (h : (m.map Prod.fst).Nodup) :
    slots names (Value.object m).tree = some (written m) := by
  have hkeys : ((m.map fun p => (p.1, p.2.tree)).map Prod.fst).Nodup := by
    rw [List.map_map]
    exact h
  rw [Value.tree, slots, keyed_members, Option.bind_some,
    if_pos fun n _ => length_filter_key_le hkeys n]
  exact congrArg some (funext fun n => lookup_map_snd Value.tree m n)

theorem fieldOr_written {α : Type} {m : List (String × Value)} {name : String} {v : Value}
    {read : Tree → Option α} {default x : α} (hread : read v.tree = some x)
    (hlookup : m.lookup name = some v) : fieldOr (written m) name read default = some x := by
  rw [fieldOr, written, hlookup]
  exact hread

end JsonSyntax
