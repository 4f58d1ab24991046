import Mybro.Lib.JsonSyntax
import Mybro.Lib.JsonText

/-!
# JSON texts with a line for every entry

`Value.pretty` is the text of a value with every element and every member on a line of its own,
indented by two blanks a level.

* `unescape_escapes`: what was escaped is what is read;
* `reads_pretty`: the text of a value is read as the tree of the value, and nothing of what follows
  it is taken, as long as the numbers in the value are written as JSON has them;
* `isJson_prettyText`: so the whole text is a JSON text with that tree.
-/

namespace JsonSyntax

/-! ### Strings -/

/-- The number that hexadecimal digits stand for. -/
def hexNumber (cs : List Char) : ℕ := cs.foldl (fun n c => 16 * n + hexValue c) 0

/-- The first halves of the surrogate pairs. -/
def isLeading (n : ℕ) : Bool := 0xD800 ≤ n && n < 0xDC00

/-- The second halves of the surrogate pairs. -/
def isTrailing (n : ℕ) : Bool := 0xDC00 ≤ n && n < 0xE000

/-- The character of a surrogate pair. -/
def ofPair (m n : ℕ) : Char := Char.ofNat ((m - 0xD800) * 0x400 + (n - 0xDC00) + 0x10000)

/-- The characters that the inside of a string stands for; half of a surrogate pair is an error. -/
def unescape : List Char → Option (List Char)
  | [] => some []
  | '\\' :: 'u' :: a :: b :: c :: d :: cs =>
    let m := hexNumber [a, b, c, d]
    if isLeading m then
      match cs with
      | '\\' :: 'u' :: a :: b :: c :: d :: cs =>
        let n := hexNumber [a, b, c, d]
        if isTrailing n then (unescape cs).map fun s => ofPair m n :: s else none
      | _ => none
    else if isTrailing m then none
    else (unescape cs).map fun s => Char.ofNat m :: s
  | '\\' :: c :: cs => (unescape cs).map fun s => Value.shortEscape c :: s
  | c :: cs => (unescape cs).map fun s => c :: s

example : unescape "\\u00e9\\ud83d\\ude00\\n".toList = some ['é', '😀', '\n'] ∧
    unescape "\\ud83d\\n".toList = none := by decide +kernel

/-- The inside of the text of a string. -/
def escaped (s : List Char) : List Char := s.flatMap fun c => (Value.escapeChar c).toList

theorem quote_eq (s : String) :
    (Value.quote s).toList = '"' :: (escaped s.toList ++ ['"']) :=
  Value.toList_quote s

/-- What a character is written as: a backslash and a letter, four hexadecimal digits, or itself. -/
theorem escapeChar_cases (c : Char) :
    (∃ d ∈ escapes, (Value.escapeChar c).toList = ['\\', d] ∧ Value.shortEscape d = c) ∨
      (c.toNat < 32 ∧ (Value.escapeChar c).toList =
        ['\\', 'u', '0', '0', Value.hexDigit (c.toNat / 16), Value.hexDigit (c.toNat % 16)]) ∨
      ((Value.escapeChar c).toList = [c] ∧ c ≠ '"' ∧ c ≠ '\\' ∧ 32 ≤ c.toNat) := by
  have hc : ∀ n : ℕ, c.toNat = n → c = Char.ofNat n := by
    rintro n rfl
    exact (Char.ofNat_toNat c).symm
  by_cases hquote : c = '"'
  · exact Or.inl ⟨'"', by decide, by rw [hquote]; rfl, hquote.symm⟩
  by_cases hback : c = '\\'
  · exact Or.inl ⟨'\\', by decide, by rw [hback]; rfl, hback.symm⟩
  by_cases h8 : c.toNat = 8
  · exact Or.inl ⟨'b', by decide, by rw [hc 8 h8]; rfl, (hc 8 h8).symm⟩
  by_cases h12 : c.toNat = 12
  · exact Or.inl ⟨'f', by decide, by rw [hc 12 h12]; rfl, (hc 12 h12).symm⟩
  by_cases hlf : c = '\n'
  · exact Or.inl ⟨'n', by decide, by rw [hlf]; rfl, hlf.symm⟩
  by_cases hcr : c = '\r'
  · exact Or.inl ⟨'r', by decide, by rw [hcr]; rfl, hcr.symm⟩
  by_cases htab : c = '\t'
  · exact Or.inl ⟨'t', by decide, by rw [htab]; rfl, htab.symm⟩
  rw [Value.escapeChar, if_neg hquote, if_neg hback, if_neg h8, if_neg h12, if_neg hlf,
    if_neg hcr, if_neg htab]
  by_cases hctl : c.toNat < 32
  · rw [if_pos hctl, String.toList_ofList]
    exact Or.inr (Or.inl ⟨hctl, rfl⟩)
  · rw [if_neg hctl, String.toList_ofList]
    exact Or.inr (Or.inr ⟨rfl, hquote, hback, Nat.le_of_not_lt hctl⟩)

theorem unescape_short {d : Char} (hd : d ≠ 'u') (cs : List Char) :
    unescape ('\\' :: d :: cs) = (unescape cs).map fun s => Value.shortEscape d :: s := by
  rw [unescape.eq_def]
  split
  next heq => cases heq
  next heq =>
    cases heq
    exact absurd rfl hd
  next heq =>
    cases heq
    rfl
  next hother heq =>
    cases heq
    exact absurd rfl (hother d cs rfl)

theorem unescape_plain {c : Char} (hc : c ≠ '\\') (cs : List Char) :
    unescape (c :: cs) = (unescape cs).map fun s => c :: s := by
  rw [unescape.eq_def]
  split <;> simp_all

theorem unescape_hex {a b c d : Char} (hleading : isLeading (hexNumber [a, b, c, d]) = false)
    (htrailing : isTrailing (hexNumber [a, b, c, d]) = false) (cs : List Char) :
    unescape ('\\' :: 'u' :: a :: b :: c :: d :: cs) =
      (unescape cs).map fun s => Char.ofNat (hexNumber [a, b, c, d]) :: s := by
  rw [unescape.eq_def]
  simp [hleading, htrailing]

theorem unescape_escapeChar (c : Char) (cs : List Char) :
    unescape ((Value.escapeChar c).toList ++ cs) = (unescape cs).map fun s => c :: s := by
  rcases escapeChar_cases c with ⟨d, hd, hc, rfl⟩ | ⟨hctl, hc⟩ | ⟨hc, -, hback, -⟩
  · rw [hc, List.cons_append, List.singleton_append]
    have hu : d ≠ 'u' := by
      rintro rfl
      exact absurd hd (by decide)
    exact unescape_short hu cs
  · have hlow := (Value.hexValue_hexDigit (n := c.toNat % 16) (by omega)).2
    have hhigh := (Value.hexValue_hexDigit (n := c.toNat / 16) (by omega)).2
    have hzero : hexValue '0' = 0 := by decide
    have hnumber : hexNumber ['0', '0', Value.hexDigit (c.toNat / 16),
        Value.hexDigit (c.toNat % 16)] = c.toNat := by
      simp only [hexNumber, List.foldl_cons, List.foldl_nil, hzero, hlow, hhigh]
      omega
    have hleading : isLeading c.toNat = false := by
      simp only [isLeading, Bool.and_eq_false_iff, decide_eq_false_iff_not]
      omega
    have htrailing : isTrailing c.toNat = false := by
      simp only [isTrailing, Bool.and_eq_false_iff, decide_eq_false_iff_not]
      omega
    rw [← hnumber] at hleading htrailing
    have hread := unescape_hex hleading htrailing cs
    rw [hnumber, Char.ofNat_toNat] at hread
    rw [hc]
    exact hread
  · rw [hc, List.singleton_append]
    exact unescape_plain hback cs

/-- **What was escaped is what is read.** -/
theorem unescape_escaped (s : List Char) : unescape (escaped s) = some s := by
  induction s with
  | nil => rfl
  | cons c s ih =>
    rw [escaped, List.flatMap_cons, unescape_escapeChar]
    exact congrArg (Option.map fun s => c :: s) ih

theorem readChars_escapeChar (c : Char) (cs : List Char) :
    readChars .plain ((Value.escapeChar c).toList ++ cs) =
      (readChars .plain cs).map fun p => ((Value.escapeChar c).toList ++ p.1, p.2) := by
  rcases escapeChar_cases c with ⟨d, hd, hc, -⟩ | ⟨hctl, hc⟩ | ⟨hc, hquote, hback, hctl⟩
  · have hu : d ≠ 'u' := by
      rintro rfl
      exact absurd hd (by decide)
    simp [hc, readChars, StringState.next, hd, hu, Function.comp_def]
  · have hlow := (Value.hexValue_hexDigit (n := c.toNat % 16) (by omega)).1
    have hhigh := (Value.hexValue_hexDigit (n := c.toNat / 16) (by omega)).1
    have hzero : isHex '0' = true := by decide
    simp [hc, readChars, StringState.next, hlow, hhigh, hzero, Function.comp_def]
  · have hlt : ¬ c.toNat < 0x20 := by omega
    simp [hc, readChars, StringState.next, hquote, hback, hlt]

theorem readChars_escaped (s rest : List Char) :
    readChars .plain (escaped s ++ '"' :: rest) = some (escaped s, rest) := by
  induction s with
  | nil => simp [escaped, readChars]
  | cons c s ih =>
    rw [escaped, List.flatMap_cons, List.append_assoc, readChars_escapeChar]
    exact congrArg (Option.map fun p : List Char × List Char =>
      ((Value.escapeChar c).toList ++ p.1, p.2)) ih

/-! ### Numbers -/

/-- No zero stands in front of the digits of a number that has others. -/
theorem head_toDigits {n : ℕ} (h : n ≠ 0) : (Nat.toDigits 10 n).head? ≠ some '0' := by
  induction n using Nat.strongRecOn with
  | ind n ih =>
    rw [Nat.toDigits_eq_if (by decide)]
    split_ifs with hlt
    · have hall : ∀ n < 10, n ≠ 0 → n.digitChar ≠ '0' := by decide
      rw [List.head?_cons]
      exact fun hc => hall n hlt h (Option.some.inj hc)
    · have hpos : n / 10 ≠ 0 := by omega
      rw [List.head?_append_of_ne_nil _ Nat.toDigits_ne_nil]
      exact ih (n / 10) (by omega) hpos

theorem isUnsigned_toDigits (n : ℕ) : isUnsigned (Nat.toDigits 10 n) = true := by
  by_cases h : n = 0
  · rw [h]
    rfl
  have hhead := head_toDigits h
  have hdigits : ∀ c ∈ Nat.toDigits 10 n, c.isDigit = true :=
    fun c hc => Nat.isDigit_of_mem_toDigits (by decide) (by decide) hc
  obtain ⟨c, cs, hcs⟩ := List.exists_cons_of_ne_nil (Nat.toDigits_ne_nil (n := n) (b := 10))
  rw [hcs] at hhead hdigits ⊢
  rw [List.forall_mem_cons] at hdigits
  have hc : c ≠ '0' := fun hc => hhead (congrArg some hc)
  have hrest : cs.dropWhile Char.isDigit = [] := List.dropWhile_eq_nil_iff.2 hdigits.2
  rw [isUnsigned, if_neg hc, hdigits.1, hrest]
  rfl

theorem isNumber_of_isUnsigned {cs : List Char} (h : isUnsigned cs = true) :
    isNumber cs = true := by
  cases cs with
  | nil => cases h
  | cons c cs =>
    rw [isNumber]
    split_ifs with hc
    · rw [hc] at h
      cases h
    · exact h

/-- Whether a text is a number as JSON has them. -/
def isLexeme (cs : List Char) : Bool := isNumber cs && cs.all isNumberChar

theorem isLexeme_toDigits (n : ℕ) : isLexeme (Nat.toDigits 10 n) = true := by
  refine Bool.and_eq_true_iff.2 ⟨isNumber_of_isUnsigned (isUnsigned_toDigits n), ?_⟩
  refine List.all_eq_true.2 fun c hc => ?_
  simp [isNumberChar, Nat.isDigit_of_mem_toDigits (by decide) (by decide) hc]

theorem isLexeme_minus {cs : List Char} (h : isUnsigned cs = true)
    (hchars : cs.all isNumberChar = true) : isLexeme ('-' :: cs) = true := by
  simp [isLexeme, isNumber, h, hchars, isNumberChar]

/-- A number is read, and nothing of what follows it. -/
theorem readValue_lexeme {s : List Char} (h : isLexeme s = true) {rest : List Char}
    (hrest : Stops rest) : readValue 1 (s ++ rest) = some (.number s, rest) := by
  obtain ⟨hnumber, hall⟩ := Bool.and_eq_true_iff.1 h
  have hchars := List.all_eq_true.1 hall
  obtain ⟨htake, hdrop⟩ := span_number hchars hrest
  cases s with
  | nil => cases hnumber
  | cons c s =>
    have hc : c ∉ valueStarts := by
      intro hmem
      have hnone : valueStarts.all (fun c => !isNumberChar c) = true := by decide
      have hno := List.all_eq_true.1 hnone c hmem
      rw [hchars c List.mem_cons_self] at hno
      cases hno
    rw [List.cons_append] at htake hdrop ⊢
    rw [readValue_number hc, htake, hdrop, if_pos hnumber]

end JsonSyntax

/-- Whether a number is written as JSON has them. -/
def Number.isJson : Number → Bool
  | .float t => JsonSyntax.isLexeme t.toList
  | _ => true

namespace Value

open JsonSyntax

theorem isLexeme_numberText {n : Number} (h : n.isJson = true) :
    isLexeme (numberText n).toList = true := by
  cases n with
  | posInt n =>
    rw [numberText, toList_toString_nat]
    exact isLexeme_toDigits _
  | negInt z =>
    rw [numberText]
    rcases lt_or_ge z.toInt 0 with hneg | hpos
    · rw [toString_negative hneg, String.toList_append, toList_toString_nat]
      obtain ⟨-, hall⟩ := Bool.and_eq_true_iff.1 (isLexeme_toDigits z.toInt.natAbs)
      exact isLexeme_minus (isUnsigned_toDigits _) hall
    · obtain ⟨n, hn⟩ := Int.eq_ofNat_of_zero_le hpos
      have htext : (toString z.toInt).toList = Nat.toDigits 10 n := by
        rw [hn]
        exact toList_toString_nat n
      rw [htext]
      exact isLexeme_toDigits _
  | float t => exact h

/-! ### The text of a value -/

/-- A line break and the indentation of a level. -/
def newline (depth : ℕ) : List Char := '\n' :: List.replicate (2 * depth) ' '

/-- What stands before an entry. -/
def separator (depth : ℕ) (first : Bool) : List Char :=
  if first then newline depth else ',' :: newline depth

/-- What stands after the last entry, and the closing bracket. -/
def closing {α : Type} (depth : ℕ) (close : Char) (entries : List α) : List Char :=
  if entries.isEmpty then [close] else newline depth ++ [close]

mutual

/-- The text of a value at a level, with a line for every entry. -/
def pretty (depth : ℕ) : Value → List Char
  | null => ['n', 'u', 'l', 'l']
  | bool true => ['t', 'r', 'u', 'e']
  | bool false => ['f', 'a', 'l', 's', 'e']
  | number n => (numberText n).toList
  | string s => (quote s).toList
  | array xs => '[' :: (prettyElements (depth + 1) true xs ++ closing depth ']' xs)
  | object m => '\x7b' :: (prettyMembers (depth + 1) true m ++ closing depth '\x7d' m)
termination_by structural v => v

def prettyElements (depth : ℕ) (first : Bool) : List Value → List Char
  | [] => []
  | v :: vs => separator depth first ++ (pretty depth v ++ prettyElements depth false vs)
termination_by structural vs => vs

def prettyMembers (depth : ℕ) (first : Bool) : List (String × Value) → List Char
  | [] => []
  | (k, v) :: m =>
    separator depth first ++
      ((quote k).toList ++ (':' :: ' ' :: (pretty depth v ++ prettyMembers depth false m)))
termination_by structural m => m

end

example : pretty 0 (object [("a", array [bool true, null]), ("b", array [])]) =
    "\x7b\n  \"a\": [\n    true,\n    null\n  ],\n  \"b\": []\n\x7d".toList := by decide +kernel

/-- The text of a value, with a line for every entry. -/
def prettyText (v : Value) : String := String.ofList (pretty 0 v)

mutual

/-- Whether every number in a value is written as JSON has them. -/
def isJson : Value → Bool
  | number n => n.isJson
  | array xs => elementsIsJson xs
  | object m => membersIsJson m
  | _ => true
termination_by structural v => v

def elementsIsJson : List Value → Bool
  | [] => true
  | v :: vs => v.isJson && elementsIsJson vs
termination_by structural vs => vs

def membersIsJson : List (String × Value) → Bool
  | [] => true
  | (_, v) :: m => v.isJson && membersIsJson m
termination_by structural m => m

end

mutual

/-- The tree of the text of a value. -/
def tree : Value → Tree
  | null => .null
  | bool b => .bool b
  | number n => .number (numberText n).toList
  | string s => .string (escaped s.toList)
  | array xs => .array (elementsTree xs)
  | object m => .object (membersTree m)
termination_by structural v => v

def elementsTree : List Value → List Tree
  | [] => []
  | v :: vs => v.tree :: elementsTree vs
termination_by structural vs => vs

def membersTree : List (String × Value) → List (List Char × Tree)
  | [] => []
  | (k, v) :: m => (escaped k.toList, v.tree) :: membersTree m
termination_by structural m => m

end

theorem elementsTree_eq (xs : List Value) : elementsTree xs = xs.map tree := by
  induction xs with
  | nil => rfl
  | cons v vs ih => rw [elementsTree, ih, List.map_cons]

theorem membersTree_eq (m : List (String × Value)) :
    membersTree m = m.map fun p => (escaped p.1.toList, p.2.tree) := by
  induction m with
  | nil => rfl
  | cons p m ih => rw [membersTree, ih, List.map_cons]

end Value

namespace JsonSyntax

open Value

/-! ### What is read -/

theorem gap_newline (depth : ℕ) : Gap (newline depth) := by
  intro c hc
  rcases List.mem_cons.1 hc with rfl | hc
  · rfl
  · rw [List.eq_of_mem_replicate hc]
    rfl

/-- With enough fuel a text is read as a whole, and nothing of what follows it is taken. -/
def ReadsAs {α : Type} (read : ℕ → List Char → Option (α × List Char)) (cs : List Char) (x : α) :
    Prop :=
  ∃ enough, ∀ fuel, enough ≤ fuel → ∀ rest, Stops rest → read fuel (cs ++ rest) = some (x, rest)

/-- A text that begins with neither white space nor a closing bracket. -/
def Opens (close : Char) (cs : List Char) : Prop :=
  ∃ c rest, cs = c :: rest ∧ isWs c = false ∧ c ≠ close

section

variable {α β : Type} {close : Char} {w w' : List Char}

theorem readTail_last (hclose : isWs close = false) (hcomma : close ≠ ',') (hw : Gap w)
    (entries : List Char → Option (List α × List Char)) (x : α) (rest : List Char) :
    readTail close entries x (w ++ close :: rest) = some ([x], rest) := by
  rw [readTail, skipWs_append hw, skipWs_cons hclose]
  simp [expect, hcomma]

theorem readTail_comma (hw : Gap w) {cs : List Char} (hcs : Opens close cs)
    (entries : List Char → Option (List α × List Char)) (x : α) (rest : List Char) :
    readTail close entries x (',' :: (w ++ (cs ++ rest))) =
      (entries (cs ++ rest)).map fun p => (x :: p.1, p.2) := by
  obtain ⟨c, cs, rfl, hc, -⟩ := hcs
  rw [readTail, skipWs_cons rfl, expect_eq_some_iff.2 (List.singleton_append ..).symm]
  simp only [skipWs_append hw, List.cons_append, skipWs_cons hc]

theorem readBody_opens (hw : Gap w) {cs : List Char} (hcs : Opens close cs)
    (entries : List Char → Option (List α × List Char)) (rest : List Char) :
    readBody close entries (w ++ (cs ++ rest)) = entries (cs ++ rest) := by
  obtain ⟨c, cs, rfl, hc, hne⟩ := hcs
  simp only [readBody, skipWs_append hw, List.cons_append, skipWs_cons hc, expect, if_neg hne]

/-- **Entries, one after another**: each of them is read as it stands, and the brackets and commas
around them are left out. -/
theorem readsAs_entries {entries : ℕ → List Char → Option (List α × List Char)}
    {item : ℕ → List Char → Option (α × List Char)} (hclose : isWs close = false)
    (hcomma : close ≠ ',') (hnumber : isNumberChar close = false)
    (hentries : ∀ fuel cs, entries (fuel + 1) cs =
      (item fuel cs).bind fun p => readTail close (entries fuel) p.1 p.2)
    (hw : Gap w) (hw' : Gap w') {text : β → List Char} {value : β → α} (b : β) (bs : List β)
    (hopens : ∀ b' ∈ b :: bs, Opens close (text b'))
    (hitems : ∀ b' ∈ b :: bs, ReadsAs item (text b') (value b')) :
    ReadsAs entries
      (text b ++ ((bs.flatMap fun b' => ',' :: (w ++ text b')) ++ (w' ++ [close])))
      (value b :: bs.map value) := by
  induction bs generalizing b with
  | nil =>
    obtain ⟨enough, hread⟩ := hitems b List.mem_cons_self
    refine ⟨enough + 1, fun fuel hfuel rest _ => ?_⟩
    obtain ⟨fuel, rfl⟩ := Nat.exists_eq_add_of_le' hfuel
    have hstops : Stops (w' ++ close :: rest) := stops_append hw' fun c hc => by
      cases hc
      exact hnumber
    rw [← Nat.add_assoc, hentries, List.flatMap_nil, List.nil_append, List.append_assoc,
      List.append_assoc, List.singleton_append, hread _ (Nat.le_add_left ..) _ hstops,
      Option.bind_some, readTail_last hclose hcomma hw', List.map_nil]
  | cons b' bs ih =>
    obtain ⟨enough, hread⟩ := hitems b List.mem_cons_self
    obtain ⟨enough', hread'⟩ := ih b' (fun c hc => hopens c (List.mem_cons_of_mem _ hc))
      fun c hc => hitems c (List.mem_cons_of_mem _ hc)
    refine ⟨max enough enough' + 1, fun fuel hfuel rest hrest => ?_⟩
    obtain ⟨fuel, rfl⟩ := Nat.exists_eq_add_of_le' hfuel
    have hstops : ∀ tail, Stops (',' :: tail) := fun tail c hc => by
      cases hc
      rfl
    have hopens' := hopens b' (List.mem_cons_of_mem _ List.mem_cons_self)
    have htail := hread' (fuel + max enough enough') (by omega) rest hrest
    simp only [List.append_assoc, List.cons_append, List.nil_append] at htail
    simp only [← Nat.add_assoc, hentries, List.flatMap_cons, List.append_assoc, List.cons_append,
      List.nil_append]
    rw [hread (fuel + max enough enough') (by omega) _ (hstops _), Option.bind_some,
      readTail_comma hw hopens', htail, Option.map_some, List.map_cons]

end

theorem prettyElements_eq (depth : ℕ) (vs : List Value) :
    prettyElements depth false vs =
      vs.flatMap fun v => ',' :: (newline depth ++ pretty depth v) := by
  induction vs with
  | nil => rfl
  | cons v vs ih => simp [prettyElements, separator, ih]

/-- A member as it is written. -/
def memberText (depth : ℕ) (p : String × Value) : List Char :=
  (quote p.1).toList ++ (':' :: ' ' :: pretty depth p.2)

theorem prettyMembers_cons (depth : ℕ) (first : Bool) (p : String × Value)
    (m : List (String × Value)) : prettyMembers depth first (p :: m) =
      separator depth first ++ (memberText depth p ++ prettyMembers depth false m) := by
  simp [prettyMembers, memberText]

theorem prettyMembers_eq (depth : ℕ) (m : List (String × Value)) :
    prettyMembers depth false m =
      m.flatMap fun p => ',' :: (newline depth ++ memberText depth p) := by
  induction m with
  | nil => rfl
  | cons p m ih => simp [prettyMembers_cons, separator, ih]

/-- The text of a value is read as its tree. -/
def ReadsBack (v : Value) : Prop := ∀ depth, ReadsAs readValue (pretty depth v) v.tree

theorem readsAs_of_one {cs : List Char} {t : Tree}
    (h : ∀ rest, Stops rest → readValue 1 (cs ++ rest) = some (t, rest)) :
    ReadsAs readValue cs t :=
  ⟨1, fun _ hfuel rest hrest => readValue_mono hfuel (h rest hrest)⟩

/-- No value begins with a closing bracket. -/
theorem ReadsBack.opens {v : Value} (h : ReadsBack v) (close : Char) (hclose : close ∉ valueStarts)
    (hnumber : isNumberChar close = false) (depth : ℕ) : Opens close (pretty depth v) := by
  obtain ⟨enough, hread⟩ := h depth
  have hread := hread (enough + 1) (Nat.le_succ _) [] nofun
  obtain ⟨used, hused, hword, -⟩ := readValue_spec hread
  rw [List.append_nil] at hused hread
  rw [List.append_nil] at hused
  obtain ⟨c, rest, hcs, -, hc⟩ := hword.head
  rw [← hused] at hcs
  refine ⟨c, rest, hcs, hc, ?_⟩
  rintro rfl
  rw [hcs, readValue_number hclose, List.takeWhile_cons_of_neg (by simp [hnumber])] at hread
  cases hread

/-- One member of an object. -/
def readMember (fuel : ℕ) (cs : List Char) : Option ((List Char × Tree) × List Char) :=
  (expect ['"'] cs).bind fun cs => (readChars .plain cs).bind fun key =>
    (expect [':'] (skipWs key.2)).bind fun cs =>
      (readValue fuel (skipWs cs)).map fun p => ((key.1, p.1), p.2)

theorem readMembers_eq (fuel : ℕ) (cs : List Char) :
    readMembers (fuel + 1) cs =
      (readMember fuel cs).bind fun p => readTail '\x7d' (readMembers fuel) p.1 p.2 := by
  simp only [readMembers, readMember, Option.bind_assoc, Option.bind_map, Function.comp_def]

theorem readsAs_member {p : String × Value} (h : ReadsBack p.2) (depth : ℕ) :
    ReadsAs readMember (memberText depth p) (escaped p.1.toList, p.2.tree) := by
  obtain ⟨enough, hread⟩ := h depth
  refine ⟨enough, fun fuel hfuel rest hrest => ?_⟩
  obtain ⟨c, cs, hcs, hc, -⟩ := h.opens ']' (by decide) (by decide) depth
  have hvalue := hread fuel hfuel rest hrest
  rw [hcs, List.cons_append] at hvalue
  have hblank : skipWs (' ' :: c :: (cs ++ rest)) = c :: (cs ++ rest) := by
    rw [← List.singleton_append, skipWs_append (by decide), skipWs_cons hc]
  simp only [memberText, quote_eq, hcs, List.cons_append, List.append_assoc, readMember,
    List.nil_append, expect, if_true, Option.bind_some, readChars_escaped,
    skipWs_cons (c := ':') rfl, hblank, hvalue, Option.map_some]

theorem opens_member (depth : ℕ) (p : String × Value) : Opens '\x7d' (memberText depth p) :=
  ⟨'"', _, by rw [memberText, quote_eq, List.cons_append], by decide, by decide⟩

/-- A bracket, entries, and the closing bracket. -/
theorem readsAs_bracket {α β : Type} {open' close : Char} {make : List α → Tree}
    {entries : ℕ → List Char → Option (List α × List Char)}
    (hread : ∀ fuel cs, readValue (fuel + 1) (open' :: cs) =
      (readBody close (entries fuel) cs).map fun p => (make p.1, p.2))
    {depth depth' : ℕ} {text : β → List Char} {b : β} {bs : List β} {xs : List α}
    (hopens : Opens close (text b))
    (hentries : ReadsAs entries (text b ++
      ((bs.flatMap fun b' => ',' :: (newline depth ++ text b')) ++ (newline depth' ++ [close])))
      xs) :
    ReadsAs readValue (open' :: ((newline depth ++ (text b ++
      bs.flatMap fun b' => ',' :: (newline depth ++ text b'))) ++ (newline depth' ++ [close])))
      (make xs) := by
  obtain ⟨enough, hentries⟩ := hentries
  refine ⟨enough + 1, fun fuel hfuel rest hrest => ?_⟩
  obtain ⟨fuel, rfl⟩ := Nat.exists_eq_add_of_le' hfuel
  have hbody := hentries (fuel + enough) (Nat.le_add_left ..) rest hrest
  simp only [List.append_assoc] at hbody
  rw [← Nat.add_assoc, List.cons_append, hread, List.append_assoc, List.append_assoc,
    List.append_assoc, List.append_assoc, readBody_opens (gap_newline depth) hopens, hbody,
    Option.map_some]

theorem readsBack_array {xs : List Value} (h : ∀ v ∈ xs, ReadsBack v) :
    ReadsBack (array xs) := by
  intro depth
  cases xs with
  | nil => exact ⟨2, fun fuel hfuel rest _ => readValue_mono hfuel rfl⟩
  | cons v vs =>
    have hopens : ∀ u ∈ v :: vs, Opens ']' (pretty (depth + 1) u) :=
      fun u hu => (h u hu).opens ']' (by decide) (by decide) _
    rw [pretty, prettyElements, prettyElements_eq, tree, elementsTree, elementsTree_eq]
    exact readsAs_bracket readValue_array (hopens v List.mem_cons_self)
      (readsAs_entries (by decide) (by decide) (by decide) (fun _ _ => rfl)
        (gap_newline _) (gap_newline _) v vs hopens fun u hu => h u hu (depth + 1))

theorem readsBack_object {m : List (String × Value)} (h : ∀ p ∈ m, ReadsBack p.2) :
    ReadsBack (object m) := by
  intro depth
  cases m with
  | nil => exact ⟨2, fun fuel hfuel rest _ => readValue_mono hfuel rfl⟩
  | cons p m =>
    rw [pretty, prettyMembers_cons, prettyMembers_eq, tree, membersTree, membersTree_eq]
    exact readsAs_bracket readValue_object (opens_member (depth + 1) p)
      (readsAs_entries (by decide) (by decide) (by decide) readMembers_eq
        (gap_newline _) (gap_newline _) p m (fun q _ => opens_member _ q)
        fun q hq => readsAs_member (h q hq) (depth + 1))

mutual

/-- **The text of a value is read as the tree of the value**, and what follows it is left. -/
theorem reads_pretty : ∀ v : Value, v.isJson = true → ReadsBack v
  | .null, _ => fun _ => readsAs_of_one fun rest _ => by simp [pretty, tree, readValue, expect]
  | .bool true, _ => fun _ => readsAs_of_one fun rest _ => by simp [pretty, tree, readValue, expect]
  | .bool false, _ => fun _ => readsAs_of_one fun rest _ => by
      simp [pretty, tree, readValue, expect]
  | .number n, h => fun _ => readsAs_of_one fun _ hrest =>
      readValue_lexeme (isLexeme_numberText h) hrest
  | .string s, _ => fun _ => readsAs_of_one fun rest _ => by
      rw [pretty, quote_eq, tree, List.cons_append, readValue_string, List.append_assoc,
        List.singleton_append, readChars_escaped, Option.map_some]
  | .array xs, h => readsBack_array (reads_elements xs h)
  | .object m, h => readsBack_object (reads_members m h)

theorem reads_elements : ∀ vs : List Value, elementsIsJson vs = true → ∀ v ∈ vs, ReadsBack v
  | [], _ => nofun
  | v :: vs, h => by
    obtain ⟨hv, hvs⟩ := Bool.and_eq_true_iff.1 h
    exact List.forall_mem_cons.2 ⟨reads_pretty v hv, reads_elements vs hvs⟩

theorem reads_members : ∀ m : List (String × Value), membersIsJson m = true →
    ∀ p ∈ m, ReadsBack p.2
  | [], _ => nofun
  | (k, v) :: m, h => by
    obtain ⟨hv, hm⟩ := Bool.and_eq_true_iff.1 h
    exact List.forall_mem_cons.2 ⟨reads_pretty v hv, reads_members m hm⟩

end

/-- **The text of a value is a JSON text**, with the tree of the value. -/
theorem isJson_prettyText {v : Value} (h : v.isJson = true) :
    IsJson v.prettyText.toList v.tree := by
  obtain ⟨enough, hread⟩ := reads_pretty v h 0
  have hread := hread enough le_rfl [] nofun
  have hopens := (reads_pretty v h).opens ']' (by decide) (by decide) 0
  obtain ⟨c, rest, hcs, hc, -⟩ := hopens
  rw [List.append_nil] at hread
  rw [prettyText, String.toList_ofList]
  refine ⟨enough, [], ?_, nofun⟩
  rw [hcs, skipWs_cons hc, ← hcs, hread]

/-! ### The text tells the value -/

theorem escaped_injective : Function.Injective escaped := by
  intro s t h
  have hread := congrArg unescape h
  rw [unescape_escaped, unescape_escaped] at hread
  exact Option.some.inj hread

theorem escaped_inj {s t : String} (h : escaped s.toList = escaped t.toList) : s = t :=
  String.toList_inj.1 (escaped_injective h)

mutual

/-- The tree tells the value, when its numbers are told by their texts. -/
theorem tree_inj : ∀ v w : Value, v.proper = true → w.proper = true → v.tree = w.tree → v = w
  | .null, w, _, _, h => by cases w <;> first | rfl | cases h
  | .bool b, w, _, _, h => by
    cases w with
    | bool c =>
      cases h
      rfl
    | _ => cases h
  | .number m, w, hv, hw, h => by
    cases w with
    | number n => rw [numberText_injOn hv hw (String.toList_inj.1 (Tree.number.inj h))]
    | _ => cases h
  | .string s, w, _, _, h => by
    cases w with
    | string t => rw [escaped_inj (Tree.string.inj h)]
    | _ => cases h
  | .array xs, w, hv, hw, h => by
    cases w with
    | array ys => rw [elementsTree_inj xs ys hv hw (Tree.array.inj h)]
    | _ => cases h
  | .object m, w, hv, hw, h => by
    cases w with
    | object n => rw [membersTree_inj m n hv hw (Tree.object.inj h)]
    | _ => cases h

theorem elementsTree_inj : ∀ xs ys : List Value, elementsProper xs = true →
    elementsProper ys = true → elementsTree xs = elementsTree ys → xs = ys
  | [], [], _, _, _ => rfl
  | [], _ :: _, _, _, h => by cases h
  | _ :: _, [], _, _, h => by cases h
  | v :: vs, w :: ws, hv, hw, h => by
    obtain ⟨hv, hvs⟩ := Bool.and_eq_true_iff.1 hv
    obtain ⟨hw, hws⟩ := Bool.and_eq_true_iff.1 hw
    obtain ⟨hhead, htail⟩ := List.cons.inj h
    rw [tree_inj v w hv hw hhead, elementsTree_inj vs ws hvs hws htail]

theorem membersTree_inj : ∀ m n : List (String × Value), membersProper m = true →
    membersProper n = true → membersTree m = membersTree n → m = n
  | [], [], _, _, _ => rfl
  | [], _ :: _, _, _, h => by cases h
  | _ :: _, [], _, _, h => by cases h
  | (k, v) :: m, (l, w) :: n, hv, hw, h => by
    obtain ⟨hv, hm⟩ := Bool.and_eq_true_iff.1 hv
    obtain ⟨hw, hn⟩ := Bool.and_eq_true_iff.1 hw
    obtain ⟨hhead, htail⟩ := List.cons.inj h
    obtain ⟨hkey, hvalue⟩ := Prod.mk.inj hhead
    rw [escaped_inj hkey, tree_inj v w hv hw hvalue, membersTree_inj m n hm hn htail]

end

/-- **The text of a value can be read in one way**, up to where it stops. -/
theorem pretty_append_inj {v w : Value} (hv : v.isJson = true) (hw : w.isJson = true)
    (hv' : v.proper = true) (hw' : w.proper = true) {depth : ℕ} {a b : List Char} (ha : Stops a)
    (hb : Stops b) (h : pretty depth v ++ a = pretty depth w ++ b) : v = w ∧ a = b := by
  obtain ⟨enough, hread⟩ := reads_pretty v hv depth
  obtain ⟨enough', hread'⟩ := reads_pretty w hw depth
  have hfirst := hread (max enough enough') (le_max_left _ _) a ha
  have hsecond := hread' (max enough enough') (le_max_right _ _) b hb
  rw [h, hsecond] at hfirst
  obtain ⟨htree, hrest⟩ := Prod.mk.inj (Option.some.inj hfirst)
  exact ⟨tree_inj v w hv' hw' htree.symm, hrest.symm⟩

end JsonSyntax
