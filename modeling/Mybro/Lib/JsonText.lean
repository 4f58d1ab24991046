import Mybro.Lib.Json
import Mybro.Lib.JsonSyntax

/-!
# The text of a JSON value determines it

The compact text of a value followed by something that does not continue a number can be read in one
way only (`text_append_inj`), so two values with the same text, or the same bytes, are the same
(`text_injOn`, `toVec_injOn`). Numbers have to be proper: a negative integer is negative, and a
float is printed with a point or an exponent.
-/

namespace Value

open JsonSyntax (isHex hexValue)

/-! ### Strings -/

/-- The character a backslash and a letter stand for. -/
def shortEscape (c : Char) : Char :=
  if c = 'b' then Char.ofNat 8 else if c = 'f' then Char.ofNat 12 else if c = 'n' then '\n'
  else if c = 'r' then '\r' else if c = 't' then '\t' else c

/-- The first character of the text of a string, and the text after it. -/
def readChar : List Char → Option (Char × List Char)
  | '\\' :: 'u' :: _ :: _ :: h :: l :: rest =>
    some (Char.ofNat (16 * hexValue h + hexValue l), rest)
  | '\\' :: c :: rest => some (shortEscape c, rest)
  | '"' :: _ => none
  | c :: rest => some (c, rest)
  | [] => none

theorem hexValue_hexDigit {n : ℕ} (h : n < 16) :
    isHex (hexDigit n) = true ∧ hexValue (hexDigit n) = n := by
  have hall : ∀ n < 16, isHex (hexDigit n) = true ∧ hexValue (hexDigit n) = n := by decide
  exact hall n h

/-- **What is escaped can be read.** -/
theorem readChar_escapeChar (c : Char) (rest : List Char) :
    readChar ((escapeChar c).toList ++ rest) = some (c, rest) := by
  have hc : ∀ n : ℕ, c.toNat = n → c = Char.ofNat n := by
    rintro n rfl
    exact (Char.ofNat_toNat c).symm
  by_cases hquote : c = '"'
  · subst hquote; rfl
  by_cases hback : c = '\\'
  · subst hback; rfl
  by_cases h8 : c.toNat = 8
  · rw [hc 8 h8]; rfl
  by_cases h12 : c.toNat = 12
  · rw [hc 12 h12]; rfl
  by_cases hlf : c = '\n'
  · subst hlf; rfl
  by_cases hcr : c = '\r'
  · subst hcr; rfl
  by_cases htab : c = '\t'
  · subst htab; rfl
  rw [escapeChar, if_neg hquote, if_neg hback, if_neg h8, if_neg h12, if_neg hlf, if_neg hcr,
    if_neg htab]
  by_cases hctl : c.toNat < 32
  · -- the other control characters are four hexadecimal digits
    have hvalue : 16 * hexValue (hexDigit (c.toNat / 16)) + hexValue (hexDigit (c.toNat % 16)) =
        c.toNat := by
      rw [(hexValue_hexDigit (by omega)).2, (hexValue_hexDigit (by omega)).2]
      omega
    simp only [if_pos hctl, String.toList_ofList, List.cons_append, List.nil_append, readChar,
      hvalue, Char.ofNat_toNat]
  · simp only [if_neg hctl, String.toList_ofList, List.cons_append, List.nil_append]
    unfold readChar
    split <;> simp_all

theorem toList_quote (s : String) :
    (quote s).toList =
      '"' :: ((s.toList.flatMap fun c => (escapeChar c).toList) ++ ['"']) := by
  have hquote : "\"".toList = ['"'] := rfl
  rw [quote, String.toList_append, String.toList_append, String.toList_join, List.flatMap_map,
    hquote, List.singleton_append, List.cons_append]

theorem escapes_append_inj {cs ds a b : List Char}
    (h : (cs.flatMap fun c => (escapeChar c).toList) ++ '"' :: a =
      (ds.flatMap fun c => (escapeChar c).toList) ++ '"' :: b) : cs = ds ∧ a = b := by
  have hend : ∀ rest, readChar ('"' :: rest) = none := fun _ => rfl
  induction cs generalizing ds with
  | nil =>
    cases ds with
    | nil => exact ⟨rfl, (List.cons.inj h).2⟩
    | cons d ds =>
      have hread := congrArg readChar h
      rw [List.flatMap_cons, List.append_assoc, readChar_escapeChar] at hread
      exact absurd ((hend a).symm.trans hread) nofun
  | cons c cs ih =>
    cases ds with
    | nil =>
      have hread := congrArg readChar h
      rw [List.flatMap_cons, List.append_assoc, readChar_escapeChar] at hread
      exact absurd (hread.trans (hend b)) nofun
    | cons d ds =>
      have hread := congrArg readChar h
      rw [List.flatMap_cons, List.flatMap_cons, List.append_assoc, List.append_assoc,
        readChar_escapeChar, readChar_escapeChar, Option.some.injEq, Prod.mk.injEq] at hread
      obtain ⟨rfl, hrest⟩ := hread
      obtain ⟨rfl, hab⟩ := ih hrest
      exact ⟨rfl, hab⟩

/-- **A quoted string can be read in one way.** -/
theorem quote_append_inj {s t : String} {a b : List Char}
    (h : (quote s).toList ++ a = (quote t).toList ++ b) : s = t ∧ a = b := by
  rw [toList_quote, toList_quote, List.cons_append, List.cons_append, List.append_assoc,
    List.append_assoc] at h
  obtain ⟨hst, hab⟩ := escapes_append_inj (List.cons.inj h).2
  exact ⟨String.toList_inj.1 hst, hab⟩

/-! ### Numbers -/

/-- The characters that integers do not have. -/
def isFloatChar (c : Char) : Bool := c = '.' || c = 'e' || c = 'E'

end Value

/-- Whether a number is the only one with its text: an integer that is said to be negative is, and a
float is not printed like an integer. -/
def Number.proper : Number → Bool
  | .posInt _ => true
  | .negInt n => n.toInt < 0
  | .float t => t.toList.all JsonSyntax.isNumberChar && t.toList.any Value.isFloatChar

namespace Value

open JsonSyntax (isNumberChar Stops span_number)

theorem toList_toString_nat (n : ℕ) : (toString n).toList = Nat.toDigits 10 n := by
  rw [Nat.toString_eq_repr, Nat.repr, String.toList_ofList]

theorem toString_negative {z : ℤ} (h : z < 0) : toString z = "-" ++ toString z.natAbs := by
  obtain ⟨n, rfl⟩ := Int.eq_negSucc_of_lt_zero h
  rfl

theorem isDigit_of_mem_nat {n : ℕ} {c : Char} (h : c ∈ (toString n).toList) : c.isDigit = true := by
  rw [toList_toString_nat] at h
  exact Nat.isDigit_of_mem_toDigits (by decide) (by decide) h

theorem isNumberChar_of_mem_nat {n : ℕ} {c : Char} (h : c ∈ (toString n).toList) :
    isNumberChar c = true := by
  simp [isNumberChar, isDigit_of_mem_nat h]

theorem toString_nat_injective {m n : ℕ} (h : toString m = toString n) : m = n := by
  have hdigits := congrArg String.toList h
  rw [toList_toString_nat, toList_toString_nat] at hdigits
  rw [← Nat.ofDigitChars_toDigits (b := 10) (n := m) (by decide) (by decide), hdigits,
    Nat.ofDigitChars_toDigits (by decide) (by decide)]

theorem isFloatChar_of_digit {c : Char} (h : c.isDigit = true ∨ c = '-') :
    isFloatChar c = false := by
  have hne : ∀ d, d.isDigit = false → d ≠ '-' → c ≠ d := by
    rintro d hd hminus rfl
    rcases h with h | h
    · rw [hd] at h
      cases h
    · exact hminus h
  simp [isFloatChar, hne '.' (by decide) (by decide), hne 'e' (by decide) (by decide),
    hne 'E' (by decide) (by decide)]

section

variable {m n : Number}

theorem toInt_neg {z : Int64} (h : (Number.negInt z).proper = true) : z.toInt < 0 :=
  of_decide_eq_true h

theorem numberText_ne_empty (h : n.proper = true) : numberText n ≠ "" := by
  cases n with
  | posInt n =>
    intro hempty
    have hdigits := congrArg String.toList hempty
    rw [numberText, toList_toString_nat] at hdigits
    exact Nat.toDigits_ne_nil hdigits
  | negInt z =>
    rw [numberText, toString_negative (toInt_neg h)]
    intro hempty
    have hlist := congrArg String.toList hempty
    rw [String.toList_append] at hlist
    exact absurd (List.append_eq_nil_iff.1 hlist).1 (by decide)
  | float t =>
    rintro rfl
    exact absurd h (by decide)

/-- The characters of an integer are digits, after a sign. -/
theorem isDigit_of_mem_negInt {z : Int64} (h : (Number.negInt z).proper = true) {c : Char}
    (hc : c ∈ (numberText (.negInt z)).toList) : c.isDigit = true ∨ c = '-' := by
  rw [numberText, toString_negative (toInt_neg h), String.toList_append] at hc
  rcases List.mem_append.1 hc with hminus | hdigits
  · exact Or.inr (List.mem_singleton.1 hminus)
  · exact Or.inl (isDigit_of_mem_nat hdigits)

theorem isNumberChar_of_mem (h : n.proper = true) {c : Char} (hc : c ∈ (numberText n).toList) :
    isNumberChar c = true := by
  cases n with
  | posInt n => exact isNumberChar_of_mem_nat hc
  | negInt z =>
    rcases isDigit_of_mem_negInt h hc with hdigit | rfl
    · simp [isNumberChar, hdigit]
    · decide
  | float t => exact List.all_eq_true.1 (Bool.and_eq_true_iff.1 h).1 c hc

/-- An integer is not printed like a float. -/
theorem numberText_ne_float {t : String} (ht : (Number.float t).proper = true)
    (hn : ∀ c ∈ (numberText n).toList, c.isDigit = true ∨ c = '-') :
    numberText n ≠ numberText (.float t) := by
  intro h
  obtain ⟨c, hc, hfloat⟩ := List.any_eq_true.1 (Bool.and_eq_true_iff.1 ht).2
  rw [isFloatChar_of_digit (hn c (h ▸ hc))] at hfloat
  cases hfloat

/-- A natural number is not printed like a negative one. -/
theorem numberText_ne_negInt {k : UInt64} {z : Int64} (h : (Number.negInt z).proper = true) :
    numberText (.posInt k) ≠ numberText (.negInt z) := by
  rw [numberText, numberText, toString_negative (toInt_neg h)]
  intro heq
  have hmem : '-' ∈ (toString k.toNat).toList := by
    rw [heq, String.toList_append]
    exact List.mem_append_left _ (by decide)
  exact absurd (isDigit_of_mem_nat hmem) (by decide)

theorem negInt_inj {y z : Int64} (hy : (Number.negInt y).proper = true)
    (hz : (Number.negInt z).proper = true)
    (h : numberText (.negInt y) = numberText (.negInt z)) : y = z := by
  have hy' := toInt_neg hy
  have hz' := toInt_neg hz
  rw [numberText, numberText, toString_negative hy', toString_negative hz',
    ← String.toList_inj, String.toList_append, String.toList_append,
    List.append_cancel_left_eq, String.toList_inj] at h
  have habs : y.toInt.natAbs = z.toInt.natAbs := toString_nat_injective h
  exact Int64.toInt_inj.1 (by omega)

theorem numberText_injOn (hm : m.proper = true) (hn : n.proper = true)
    (h : numberText m = numberText n) : m = n := by
  cases m with
  | posInt m =>
    cases n with
    | posInt n => rw [UInt64.toNat_inj.1 (toString_nat_injective h)]
    | negInt z => exact absurd h (numberText_ne_negInt hn)
    | float t => exact absurd h (numberText_ne_float hn fun c hc => Or.inl (isDigit_of_mem_nat hc))
  | negInt y =>
    cases n with
    | posInt n => exact absurd h.symm (numberText_ne_negInt hm)
    | negInt z => rw [negInt_inj hm hn h]
    | float t => exact absurd h (numberText_ne_float hn fun c hc => isDigit_of_mem_negInt hm hc)
  | float s =>
    cases n with
    | posInt n =>
      exact absurd h.symm (numberText_ne_float hm fun c hc => Or.inl (isDigit_of_mem_nat hc))
    | negInt z =>
      exact absurd h.symm (numberText_ne_float hm fun c hc => isDigit_of_mem_negInt hn hc)
    | float t => rw [show s = t from h]

end

theorem number_append_inj {m n : Number} (hm : m.proper = true) (hn : n.proper = true)
    {a b : List Char} (ha : Stops a) (hb : Stops b)
    (h : (numberText m).toList ++ a = (numberText n).toList ++ b) : m = n ∧ a = b := by
  have hmn : (numberText m).toList = (numberText n).toList := by
    rw [← (span_number (fun c => isNumberChar_of_mem hm) ha).1, h,
      (span_number (fun c => isNumberChar_of_mem hn) hb).1]
  refine ⟨numberText_injOn hm hn (String.toList_inj.1 hmn), ?_⟩
  rw [hmn] at h
  exact List.append_cancel_left h

/-! ### Values -/

mutual

/-- Whether every number in a value is the only one with its text. -/
def proper : Value → Bool
  | number n => n.proper
  | array xs => elementsProper xs
  | object m => membersProper m
  | _ => true
termination_by structural v => v

def elementsProper : List Value → Bool
  | [] => true
  | v :: vs => v.proper && elementsProper vs
termination_by structural vs => vs

def membersProper : List (String × Value) → Bool
  | [] => true
  | (_, v) :: m => v.proper && membersProper m
termination_by structural m => m

end

theorem elementsProper_iff {xs : List Value} :
    elementsProper xs = true ↔ ∀ v ∈ xs, v.proper = true := by
  induction xs with
  | nil => simp [elementsProper]
  | cons v vs ih => simp [elementsProper, ih]

theorem membersProper_insert {m : JsonMap} {k : String} {v : Value} (hm : membersProper m = true)
    (hv : v.proper = true) : membersProper (JsonMap.insert m k v) = true := by
  induction m with
  | nil => simp [JsonMap.insert, membersProper, hv]
  | cons p m ih =>
    obtain ⟨k', v'⟩ := p
    rw [membersProper, Bool.and_eq_true] at hm
    unfold JsonMap.insert
    split_ifs with heq hlt
    · simp [membersProper, hv, hm.2]
    · simp [membersProper, hv, hm.1, hm.2]
    · simp [membersProper, hm.1, ih hm.2]

theorem proper_object {l : List (String × Value)} (h : ∀ p ∈ l, p.2.proper = true) :
    (object (JsonMap.ofList l)).proper = true := by
  have hfold : ∀ (l : List (String × Value)) (m : JsonMap), (∀ p ∈ l, p.2.proper = true) →
      membersProper m = true →
        membersProper (l.foldl (fun m p => JsonMap.insert m p.1 p.2) m) = true := by
    intro l
    induction l with
    | nil => exact fun m _ hm => hm
    | cons p l ih =>
      intro m hl hm
      rw [List.forall_mem_cons] at hl
      exact ih _ hl.2 (membersProper_insert hm hl.1)
  rw [proper, JsonMap.ofList]
  exact hfold l [] h rfl

theorem proper_array {α : Type} {f : α → Value} {l : List α} (h : ∀ a ∈ l, (f a).proper = true) :
    (array (l.map f)).proper = true := by
  rw [proper]
  refine elementsProper_iff.2 fun v hv => ?_
  obtain ⟨a, ha, rfl⟩ := List.mem_map.1 hv
  exact h a ha

/-- The constructors, numbered. -/
def shape : Value → ℕ
  | null => 0
  | bool _ => 1
  | number _ => 2
  | string _ => 3
  | array _ => 4
  | object _ => 5

/-- The shape of the value whose text starts with a character. -/
def charShape (c : Char) : ℕ :=
  if c = 'n' then 0
  else if c = 't' ∨ c = 'f' then 1
  else if isNumberChar c then 2
  else if c = '"' then 3
  else if c = '[' then 4
  else if c = '\x7b' then 5
  else 6

/-- The text after the first element, or the first member. -/
def restText {α : Type} (text : List α → String) : List α → List Char
  | [] => []
  | x :: xs => ',' :: (text (x :: xs)).toList

theorem toList_elementsText (v : Value) (vs : List Value) :
    (elementsText (v :: vs)).toList = v.text.toList ++ restText elementsText vs := by
  cases vs with
  | nil => simp [elementsText, restText]
  | cons w ws => simp [elementsText, restText]

theorem toList_membersText (k : String) (v : Value) (m : List (String × Value)) :
    (membersText ((k, v) :: m)).toList =
      (quote k).toList ++ ':' :: (v.text.toList ++ restText membersText m) := by
  cases m with
  | nil => simp [membersText, restText]
  | cons p m => simp [membersText, restText]

theorem toList_text_array (xs : List Value) :
    (array xs).text.toList = '[' :: ((elementsText xs).toList ++ [']']) := by
  simp [text]

theorem toList_text_object (m : List (String × Value)) :
    (object m).text.toList = '\x7b' :: ((membersText m).toList ++ ['\x7d']) := by
  simp [text]

/-- The first character tells the shape. -/
theorem exists_head_text {v : Value} (h : v.proper = true) :
    ∃ c rest, v.text.toList = c :: rest ∧ charShape c = v.shape := by
  cases v with
  | null => exact ⟨'n', _, rfl, by decide⟩
  | bool b =>
    cases b with
    | false => exact ⟨'f', _, rfl, by decide⟩
    | true => exact ⟨'t', _, rfl, by decide⟩
  | number n =>
    have hne : (numberText n).toList ≠ [] := by
      intro hnil
      exact numberText_ne_empty h (String.toList_inj.1 hnil)
    obtain ⟨c, rest, hc⟩ := List.exists_cons_of_ne_nil hne
    refine ⟨c, rest, hc, ?_⟩
    have hnum : isNumberChar c = true := isNumberChar_of_mem h (hc ▸ List.mem_cons_self)
    have hn : c ≠ 'n' := by rintro rfl; exact absurd hnum (by decide)
    have ht : c ≠ 't' := by rintro rfl; exact absurd hnum (by decide)
    have hf : c ≠ 'f' := by rintro rfl; exact absurd hnum (by decide)
    simp [charShape, shape, hnum, hn, ht, hf]
  | string s => exact ⟨'"', _, toList_quote s, rfl⟩
  | array xs => exact ⟨'[', _, toList_text_array xs, rfl⟩
  | object m => exact ⟨'\x7b', _, toList_text_object m, rfl⟩

theorem shape_eq_of_append {v w : Value} (hv : v.proper = true) (hw : w.proper = true)
    {a b : List Char} (h : v.text.toList ++ a = w.text.toList ++ b) : v.shape = w.shape := by
  obtain ⟨c, rest, hc, hcv⟩ := exists_head_text hv
  obtain ⟨d, rest', hd, hdw⟩ := exists_head_text hw
  rw [hc, hd, List.cons_append, List.cons_append] at h
  rw [← hcv, ← hdw, (List.cons.inj h).1]

theorem text_append_ne {v : Value} (hv : v.proper = true) {a b : List Char} {d : Char}
    (hd : charShape d = 6) : v.text.toList ++ a ≠ d :: b := by
  intro h
  obtain ⟨c, rest, hc, hcv⟩ := exists_head_text hv
  rw [hc, List.cons_append] at h
  rw [(List.cons.inj h).1, hd] at hcv
  cases v <;> exact absurd hcv (by simp [shape])

theorem stops_rest {α : Type} {text : List α → String} (xs : List α) {c : Char} {a : List Char}
    (hc : isNumberChar c = false) : Stops (restText text xs ++ c :: a) := by
  cases xs with
  | nil =>
    intro d hd
    obtain rfl : c = d := Option.some.inj hd
    exact hc
  | cons x xs =>
    intro d hd
    obtain rfl : ',' = d := Option.some.inj hd
    decide

theorem rest_append {α : Type} {text : List α → String} {xs ys : List α} {c : Char}
    {a b : List Char} (hc : c ≠ ',')
    (h : restText text xs ++ c :: a = restText text ys ++ c :: b) :
    (text xs).toList ++ c :: a = (text ys).toList ++ c :: b := by
  cases xs with
  | nil =>
    cases ys with
    | nil => rw [(List.cons.inj h).2]
    | cons y ys => exact absurd (List.cons.inj h).1 hc
  | cons x xs =>
    cases ys with
    | nil => exact absurd (List.cons.inj h).1.symm hc
    | cons y ys => exact (List.cons.inj h).2

mutual

/-- **The text of a value can be read in one way**, up to where it stops. -/
theorem text_append_inj : ∀ (v w : Value), v.proper = true → w.proper = true → ∀ {a b : List Char},
    Stops a → Stops b → v.text.toList ++ a = w.text.toList ++ b → v = w ∧ a = b
  | v, w, hv, hw, a, b, ha, hb, h => by
    have hshape := shape_eq_of_append hv hw h
    cases v with
    | null =>
      cases w with
      | null => exact ⟨rfl, List.append_cancel_left h⟩
      | _ => exact absurd hshape (by simp [shape])
    | bool x =>
      cases w with
      | bool y =>
        cases x <;> cases y
        · exact ⟨rfl, List.append_cancel_left h⟩
        · exact absurd (List.cons.inj h).1 (by decide)
        · exact absurd (List.cons.inj h).1 (by decide)
        · exact ⟨rfl, List.append_cancel_left h⟩
      | _ => exact absurd hshape (by simp [shape])
    | number m =>
      cases w with
      | number n =>
        obtain ⟨rfl, hab⟩ := number_append_inj hv hw ha hb h
        exact ⟨rfl, hab⟩
      | _ => exact absurd hshape (by simp [shape])
    | string s =>
      cases w with
      | string t =>
        obtain ⟨rfl, hab⟩ := quote_append_inj h
        exact ⟨rfl, hab⟩
      | _ => exact absurd hshape (by simp [shape])
    | array xs =>
      cases w with
      | array ys =>
        rw [toList_text_array, toList_text_array, List.cons_append, List.cons_append,
          List.append_assoc, List.append_assoc] at h
        obtain ⟨rfl, hab⟩ := elements_append_inj xs ys hv hw (List.cons.inj h).2
        exact ⟨rfl, hab⟩
      | _ => exact absurd hshape (by simp [shape])
    | object m =>
      cases w with
      | object n =>
        rw [toList_text_object, toList_text_object, List.cons_append, List.cons_append,
          List.append_assoc, List.append_assoc] at h
        obtain ⟨rfl, hab⟩ := members_append_inj m n hv hw (List.cons.inj h).2
        exact ⟨rfl, hab⟩
      | _ => exact absurd hshape (by simp [shape])

theorem elements_append_inj : ∀ (xs ys : List Value), elementsProper xs = true →
    elementsProper ys = true →
    ∀ {a b : List Char},
      (elementsText xs).toList ++ ']' :: a = (elementsText ys).toList ++ ']' :: b →
        xs = ys ∧ a = b
  | [], [], _, _, a, b, h => ⟨rfl, (List.cons.inj h).2⟩
  | [], w :: ws, _, hys, a, b, h => by
    rw [elementsProper, Bool.and_eq_true] at hys
    rw [toList_elementsText, List.append_assoc] at h
    exact absurd h.symm (text_append_ne hys.1 (by decide))
  | v :: vs, [], hxs, _, a, b, h => by
    rw [elementsProper, Bool.and_eq_true] at hxs
    rw [toList_elementsText, List.append_assoc] at h
    exact absurd h (text_append_ne hxs.1 (by decide))
  | v :: vs, w :: ws, hxs, hys, a, b, h => by
    rw [elementsProper, Bool.and_eq_true] at hxs hys
    rw [toList_elementsText, toList_elementsText, List.append_assoc, List.append_assoc] at h
    obtain ⟨rfl, hrest⟩ := text_append_inj v w hxs.1 hys.1 (stops_rest vs (by decide))
      (stops_rest ws (by decide)) h
    obtain ⟨rfl, hab⟩ := elements_append_inj vs ws hxs.2 hys.2 (rest_append (by decide) hrest)
    exact ⟨rfl, hab⟩

theorem members_append_inj : ∀ (m n : List (String × Value)), membersProper m = true →
    membersProper n = true →
    ∀ {a b : List Char},
      (membersText m).toList ++ '\x7d' :: a = (membersText n).toList ++ '\x7d' :: b →
        m = n ∧ a = b
  | [], [], _, _, a, b, h => ⟨rfl, (List.cons.inj h).2⟩
  | [], (k, w) :: n, _, _, a, b, h => by
    rw [toList_membersText, List.append_assoc, toList_quote] at h
    exact absurd (List.cons.inj h).1 (by decide)
  | (k, v) :: m, [], _, _, a, b, h => by
    rw [toList_membersText, List.append_assoc, toList_quote] at h
    exact absurd (List.cons.inj h).1 (by decide)
  | (k, v) :: m, (k', w) :: n, hm, hn, a, b, h => by
    rw [membersProper, Bool.and_eq_true] at hm hn
    rw [toList_membersText, toList_membersText, List.append_assoc, List.append_assoc] at h
    obtain ⟨rfl, hvalue⟩ := quote_append_inj h
    rw [List.cons_append, List.cons_append, List.append_assoc, List.append_assoc] at hvalue
    obtain ⟨rfl, hrest⟩ := text_append_inj v w hm.1 hn.1 (stops_rest m (by decide))
      (stops_rest n (by decide)) (List.cons.inj hvalue).2
    obtain ⟨rfl, hab⟩ := members_append_inj m n hm.2 hn.2 (rest_append (by decide) hrest)
    exact ⟨rfl, hab⟩

end

/-- **Two values with the same text are the same.** -/
theorem text_inj {v w : Value} (hv : v.proper = true) (hw : w.proper = true) :
    v.text = w.text ↔ v = w := by
  refine ⟨fun h => ?_, fun h => h ▸ rfl⟩
  have hstops : Stops [] := nofun
  exact (text_append_inj v w hv hw hstops hstops (by rw [h])).1

theorem toVec_inj {v w : Value} (hv : v.proper = true) (hw : w.proper = true) :
    v.toVec = w.toVec ↔ v = w :=
  Utf8.encode_injective.eq_iff.trans (text_inj hv hw)

end Value
