import Mathlib.Tactic

/-!
# Strings addressed by byte offsets

A Unicode string is a list of characters, and an offset into it counts the bytes of the UTF-8
encodings of the characters before it.

* `byteLen`, `splitAt`: cutting at a byte offset, which is defined exactly at the character
  boundaries (`splitAt_isSome_iff`), that is, inside the string where no character straddles the
  offset (`isBoundary_iff_not_straddles`);
* `find`, `trimStart`, `trim`, `stripStart`, `Contains`: the searches and trims that go with it;
* `encode`, `decode`, `lossy`: UTF-8 bytes, strictly decoded, or with every maximal ill-formed piece
  replaced by `U+FFFD`;
* `decode_append_lf`, `trim_append_lf`: a line feed at the end is decoded by itself and trimmed
  away;
* `decode_encode`, `lossy_encode`: what was encoded is decoded again;
* `prefix_of_encode`, `suffix_of_encode`: the bytes of one string can start or end those of another
  only as the characters do;
* `countP_lossy`: decoding with replacements neither adds nor removes ASCII.
-/

namespace Utf8

/-! ### Byte offsets -/

/-- The number of bytes of the encoding. -/
def byteLen : List Char → ℕ
  | [] => 0
  | c :: cs => c.utf8Size + byteLen cs

@[simp] theorem byteLen_nil : byteLen [] = 0 := rfl

@[simp] theorem byteLen_cons (c : Char) (cs : List Char) :
    byteLen (c :: cs) = c.utf8Size + byteLen cs := rfl

@[simp] theorem byteLen_append (a b : List Char) : byteLen (a ++ b) = byteLen a + byteLen b := by
  induction a with
  | nil => simp
  | cons c cs ih => simp only [List.cons_append, byteLen_cons, ih]; omega

/-- Both sides of the byte offset `n`, when it falls between two characters. -/
def splitAt : List Char → ℕ → Option (List Char × List Char)
  | [], n => if n = 0 then some ([], []) else none
  | c :: cs, n =>
    if n = 0 then some ([], c :: cs)
    else if c.utf8Size ≤ n then (splitAt cs (n - c.utf8Size)).map fun p => (c :: p.1, p.2)
    else none

theorem splitAt_eq_some_iff {cs a b : List Char} {n : ℕ} :
    splitAt cs n = some (a, b) ↔ cs = a ++ b ∧ byteLen a = n := by
  induction cs generalizing a n with
  | nil =>
    simp only [splitAt]
    split_ifs with hn
    · subst hn
      simp only [Option.some.injEq, Prod.mk.injEq]
      constructor
      · rintro ⟨rfl, rfl⟩; exact ⟨rfl, rfl⟩
      · rintro ⟨h, -⟩
        obtain ⟨rfl, rfl⟩ := List.append_eq_nil_iff.1 h.symm
        exact ⟨rfl, rfl⟩
    · simp only [false_iff, not_and]
      intro h
      obtain ⟨rfl, rfl⟩ := List.append_eq_nil_iff.1 h.symm
      exact fun h0 => hn h0.symm
  | cons c cs ih =>
    have hc : 0 < c.utf8Size := c.utf8Size_pos
    simp only [splitAt]
    split_ifs with hn hle
    · subst hn
      simp only [Option.some.injEq, Prod.mk.injEq]
      constructor
      · rintro ⟨rfl, rfl⟩; exact ⟨rfl, rfl⟩
      · rintro ⟨h, h0⟩
        cases a with
        | nil => exact ⟨rfl, h⟩
        | cons d a => simp only [byteLen_cons] at h0; have := d.utf8Size_pos; omega
    · simp only [Option.map_eq_some_iff, Prod.mk.injEq, Prod.exists]
      constructor
      · rintro ⟨a', b', hs, rfl, rfl⟩
        obtain ⟨rfl, hlen⟩ := ih.1 hs
        exact ⟨rfl, by simp only [byteLen_cons]; omega⟩
      · rintro ⟨h, hlen⟩
        cases a with
        | nil => simp only [byteLen_nil] at hlen; omega
        | cons d a =>
          obtain ⟨rfl, rfl⟩ := List.cons_eq_cons.1 h
          exact ⟨a, b, ih.2 ⟨rfl, by simp only [byteLen_cons] at hlen; omega⟩, rfl, rfl⟩
    · simp only [false_iff, not_and]
      intro h hlen
      cases a with
      | nil => simp only [byteLen_nil] at hlen; omega
      | cons d a =>
        obtain ⟨rfl, -⟩ := List.cons_eq_cons.1 h
        simp only [byteLen_cons] at hlen
        omega

/-- The offset falls between two characters, or at an end of the string. -/
def IsBoundary (cs : List Char) (n : ℕ) : Prop := ∃ a b, cs = a ++ b ∧ byteLen a = n

/-- The offset falls strictly inside the encoding of a character. -/
def Straddles (cs : List Char) (n : ℕ) : Prop :=
  ∃ a c b, cs = a ++ c :: b ∧ byteLen a < n ∧ n < byteLen a + c.utf8Size

theorem splitAt_isSome_iff {cs : List Char} {n : ℕ} :
    (∃ p, splitAt cs n = some p) ↔ IsBoundary cs n := by
  constructor
  · rintro ⟨⟨a, b⟩, h⟩
    exact ⟨a, b, splitAt_eq_some_iff.1 h⟩
  · rintro ⟨a, b, h⟩
    exact ⟨(a, b), splitAt_eq_some_iff.2 h⟩

/-- An offset inside the string is a boundary, or inside a character. -/
theorem isBoundary_or_straddles {cs : List Char} {n : ℕ} (h : n ≤ byteLen cs) :
    IsBoundary cs n ∨ Straddles cs n := by
  induction cs generalizing n with
  | nil => exact Or.inl ⟨[], [], rfl, by simp only [byteLen_nil] at h ⊢; omega⟩
  | cons c cs ih =>
    rcases Nat.eq_zero_or_pos n with rfl | hn
    · exact Or.inl ⟨[], c :: cs, rfl, rfl⟩
    by_cases hle : c.utf8Size ≤ n
    · simp only [byteLen_cons] at h
      rcases ih (n := n - c.utf8Size) (by omega) with ⟨a, b, rfl, ha⟩ | ⟨a, d, b, rfl, h1, h2⟩
      · exact Or.inl ⟨c :: a, b, rfl, by simp only [byteLen_cons]; omega⟩
      · exact Or.inr ⟨c :: a, d, b, rfl, by simp only [byteLen_cons]; omega,
          by simp only [byteLen_cons]; omega⟩
    · exact Or.inr ⟨[], c, cs, rfl, hn, by simp only [byteLen_nil]; omega⟩

theorem not_straddles_of_isBoundary {cs : List Char} {n : ℕ} (h : IsBoundary cs n) :
    ¬ Straddles cs n := by
  rintro ⟨a, c, b, rfl, h1, h2⟩
  obtain ⟨a', b', he, rfl⟩ := h
  rcases List.append_eq_append_iff.1 he with ⟨l, rfl, hl⟩ | ⟨l, rfl, hl⟩
  · cases l with
    | nil => simp at h1
    | cons d l =>
      obtain ⟨rfl, rfl⟩ := List.cons_eq_cons.1 hl
      simp only [byteLen_append, byteLen_cons] at h2
      omega
  · simp only [byteLen_append] at h1
    omega

theorem isBoundary_iff_not_straddles {cs : List Char} {n : ℕ} (h : n ≤ byteLen cs) :
    IsBoundary cs n ↔ ¬ Straddles cs n :=
  ⟨not_straddles_of_isBoundary, fun hs => (isBoundary_or_straddles h).resolve_right hs⟩

/-- The bytes of the string before the offset; `none` where it is no character boundary. -/
def sliceTo (s : String) (n : ℕ) : Option String :=
  (splitAt s.toList n).map fun p => String.ofList p.1

/-- The bytes of the string from the offset on; `none` where it is no character boundary. -/
def sliceFrom (s : String) (n : ℕ) : Option String :=
  (splitAt s.toList n).map fun p => String.ofList p.2

/-- The part of a string before a character boundary. -/
theorem sliceTo_eq {s : String} {a b : List Char} (h : s.toList = a ++ b) :
    sliceTo s (byteLen a) = some (String.ofList a) := by
  have hs : splitAt s.toList (byteLen a) = some (a, b) := splitAt_eq_some_iff.2 ⟨h, rfl⟩
  rw [sliceTo, hs]
  rfl

/-- The part of a string behind a character boundary. -/
theorem sliceFrom_eq {s : String} {a b : List Char} (h : s.toList = a ++ b) :
    sliceFrom s (byteLen a) = some (String.ofList b) := by
  have hs : splitAt s.toList (byteLen a) = some (a, b) := splitAt_eq_some_iff.2 ⟨h, rfl⟩
  rw [sliceFrom, hs]
  rfl

/-- An offset inside a character is inside the string. -/
theorem lt_of_straddles {cs : List Char} {n : ℕ} (h : Straddles cs n) : n < byteLen cs := by
  obtain ⟨a, c, b, rfl, -, h2⟩ := h
  simp only [byteLen_append, byteLen_cons]
  omega

/-- The length of a string in bytes. -/
def len (s : String) : ℕ := byteLen s.toList

theorem sliceTo_isSome_iff {s : String} {n : ℕ} :
    (∃ t, sliceTo s n = some t) ↔ IsBoundary s.toList n := by
  rw [← splitAt_isSome_iff]
  simp only [sliceTo, Option.map_eq_some_iff]
  exact ⟨fun ⟨_, p, hp, _⟩ => ⟨p, hp⟩, fun ⟨p, hp⟩ => ⟨_, p, hp, rfl⟩⟩

/-! ### Searching and trimming -/

/-- The byte offset of the first occurrence of a character. -/
def find (c : Char) : List Char → Option ℕ
  | [] => none
  | d :: cs => if d = c then some 0 else (find c cs).map (d.utf8Size + ·)

theorem find_eq_some {c : Char} {cs : List Char} {n : ℕ} (h : find c cs = some n) :
    ∃ a b, cs = a ++ c :: b ∧ byteLen a = n ∧ c ∉ a := by
  induction cs generalizing n with
  | nil => cases h
  | cons d cs ih =>
    simp only [find] at h
    split_ifs at h with hd
    · subst hd
      cases h
      exact ⟨[], cs, rfl, rfl, List.not_mem_nil⟩
    · obtain ⟨m, hm, rfl⟩ := Option.map_eq_some_iff.1 h
      obtain ⟨a, b, rfl, rfl, hc⟩ := ih hm
      exact ⟨d :: a, b, rfl, rfl, by simp [hc, Ne.symm hd]⟩

theorem find_eq_none {c : Char} {cs : List Char} : find c cs = none ↔ c ∉ cs := by
  induction cs with
  | nil => simp [find]
  | cons d cs ih =>
    simp only [find]
    split_ifs with hd
    · simp [hd]
    · rw [Option.map_eq_none_iff, ih]
      simp [Ne.symm hd]

/-- The characters with the Unicode property `White_Space`. -/
def isWhitespace (c : Char) : Bool :=
  (0x09 ≤ c.toNat && c.toNat ≤ 0x0D) || c.toNat == 0x20 || c.toNat == 0x85 || c.toNat == 0xA0 ||
    c.toNat == 0x1680 || (0x2000 ≤ c.toNat && c.toNat ≤ 0x200A) || c.toNat == 0x2028 ||
    c.toNat == 0x2029 || c.toNat == 0x202F || c.toNat == 0x205F || c.toNat == 0x3000

/-- Without leading white space. -/
def trimStart (s : String) : String := String.ofList (s.toList.dropWhile isWhitespace)

/-- Without leading and trailing white space. -/
def trim (s : String) : String :=
  String.ofList ((s.toList.dropWhile isWhitespace).reverse.dropWhile isWhitespace).reverse

/-- The rest of a string after a given start. -/
def stripStart (p s : String) : Option String :=
  if p.toList <+: s.toList then some (String.ofList (s.toList.drop p.toList.length)) else none

theorem stripStart_eq_some_iff {p s t : String} : stripStart p s = some t ↔ s = p ++ t := by
  unfold stripStart
  split_ifs with h
  · obtain ⟨rest, hrest⟩ := h
    rw [← hrest, List.drop_left, Option.some.injEq]
    constructor
    · rintro rfl
      rw [← String.toList_inj, ← hrest]
      simp
    · rintro rfl
      rw [String.toList_append] at hrest
      rw [List.append_cancel_left hrest, String.ofList_toList]
  · simp only [false_iff]
    rintro rfl
    exact h ⟨t.toList, by rw [String.toList_append]⟩

/-- Whether one string occurs in another. -/
def contains (s p : String) : Bool := decide (p.toList <:+: s.toList)

/-! ### Bytes -/

/-- The UTF-8 encoding. -/
def encode (s : String) : List UInt8 := s.toList.flatMap String.utf8EncodeChar

theorem encode_injective : Function.Injective encode := by
  intro s t h
  have hbytes : ∀ u : String, u.toByteArray = (encode u).toByteArray := by
    intro u
    rw [encode, ← List.utf8Encode]
    exact String.utf8Encode_toList.symm
  rw [← String.toByteArray_inj, hbytes, hbytes, h]

/-- A continuation byte. -/
def isCont (b : UInt8) : Bool := 0x80 ≤ b && b ≤ 0xBF

/-- The second bytes allowed after the first byte of a three-byte sequence. -/
def second3 (a b : UInt8) : Bool :=
  if a = 0xE0 then 0xA0 ≤ b && b ≤ 0xBF
  else if a = 0xED then 0x80 ≤ b && b ≤ 0x9F
  else isCont b

/-- The second bytes allowed after the first byte of a four-byte sequence. -/
def second4 (a b : UInt8) : Bool :=
  if a = 0xF0 then 0x90 ≤ b && b ≤ 0xBF
  else if a = 0xF4 then 0x80 ≤ b && b ≤ 0x8F
  else isCont b

/-- The character with the given leading payload and continuation bytes. -/
def join (lead : ℕ) (conts : List UInt8) : Char :=
  Char.ofNat (conts.foldl (fun n b => n * 64 + (b.toNat - 0x80)) lead)

/-- The first unit of a byte string: a character, or `none` for a maximal ill-formed piece, with
the bytes after it. -/
def next : List UInt8 → Option (Option Char × List UInt8)
  | [] => none
  | a :: rest =>
    if a < 0x80 then some (some (Char.ofNat a.toNat), rest)
    else if 0xC2 ≤ a && a ≤ 0xDF then
      match rest with
      | b :: rest' =>
        if isCont b then some (some (join (a.toNat - 0xC0) [b]), rest') else some (none, rest)
      | [] => some (none, [])
    else if 0xE0 ≤ a && a ≤ 0xEF then
      match rest with
      | b :: rest' =>
        if second3 a b then
          match rest' with
          | c :: rest'' =>
            if isCont c then some (some (join (a.toNat - 0xE0) [b, c]), rest'')
            else some (none, rest')
          | [] => some (none, [])
        else some (none, rest)
      | [] => some (none, [])
    else if 0xF0 ≤ a && a ≤ 0xF4 then
      match rest with
      | b :: rest' =>
        if second4 a b then
          match rest' with
          | c :: rest'' =>
            if isCont c then
              match rest'' with
              | d :: rest''' =>
                if isCont d then some (some (join (a.toNat - 0xF0) [b, c, d]), rest''')
                else some (none, rest'')
              | [] => some (none, [])
            else some (none, rest')
          | [] => some (none, [])
        else some (none, rest)
      | [] => some (none, [])
    else some (none, rest)

/-- The units of a byte string, at most `fuel` of them. -/
def units : ℕ → List UInt8 → List (Option Char)
  | 0, _ => []
  | fuel + 1, bs =>
    match next bs with
    | none => []
    | some (u, rest) => u :: units fuel rest

/-- The units of a byte string; every unit has at least one byte. -/
def allUnits (bs : List UInt8) : List (Option Char) := units bs.length bs

/-- Strict decoding. -/
def decode (bs : List UInt8) : Option String := ((allUnits bs).mapM id).map String.ofList

/-- Decoding with every ill-formed piece replaced by `U+FFFD`. -/
def lossy (bs : List UInt8) : String :=
  String.ofList ((allUnits bs).map fun u => u.getD (Char.ofNat 0xFFFD))

example : decode [0x61, 0xC3, 0xA9, 0xE2, 0x82, 0xAC] = some "aé€" := by decide

example : lossy [0x61, 0xE2, 0x82, 0x62, 0xFF] = "a\uFFFDb\uFFFD" := by decide

/-! ### A line feed at the end -/

/-- A unit takes the first byte and some of those after it. -/
theorem next_cons (a : UInt8) (rest : List UInt8) :
    ∃ u k, next (a :: rest) = some (u, rest.drop k) := by
  simp only [next]
  by_cases h1 : a < 0x80
  · rw [if_pos h1]
    exact ⟨_, 0, rfl⟩
  by_cases h2 : (0xC2 ≤ a && a ≤ 0xDF) = true
  · rw [if_neg h1, if_pos h2]
    cases rest with
    | nil => exact ⟨none, 0, rfl⟩
    | cons b rest =>
      cases hb : isCont b with
      | false => exact ⟨none, 0, by simp [hb]⟩
      | true => exact ⟨_, 1, by simp only [hb, if_true]; rfl⟩
  by_cases h3 : (0xE0 ≤ a && a ≤ 0xEF) = true
  · rw [if_neg h1, if_neg h2, if_pos h3]
    cases rest with
    | nil => exact ⟨none, 0, rfl⟩
    | cons b rest =>
      cases hb : second3 a b with
      | false => exact ⟨none, 0, by simp [hb]⟩
      | true =>
        cases rest with
        | nil => exact ⟨none, 1, by simp [hb]⟩
        | cons c rest =>
          cases hc : isCont c with
          | false => exact ⟨none, 1, by simp [hb, hc]⟩
          | true => exact ⟨_, 2, by simp only [hb, hc, if_true]; rfl⟩
  by_cases h4 : (0xF0 ≤ a && a ≤ 0xF4) = true
  · rw [if_neg h1, if_neg h2, if_neg h3, if_pos h4]
    cases rest with
    | nil => exact ⟨none, 0, rfl⟩
    | cons b rest =>
      cases hb : second4 a b with
      | false => exact ⟨none, 0, by simp [hb]⟩
      | true =>
        cases rest with
        | nil => exact ⟨none, 1, by simp [hb]⟩
        | cons c rest =>
          cases hc : isCont c with
          | false => exact ⟨none, 1, by simp [hb, hc]⟩
          | true =>
            cases rest with
            | nil => exact ⟨none, 2, by simp [hb, hc]⟩
            | cons d rest =>
              cases hd : isCont d with
              | false => exact ⟨none, 2, by simp [hb, hc, hd]⟩
              | true => exact ⟨_, 3, by simp only [hb, hc, hd, if_true]; rfl⟩
  · rw [if_neg h1, if_neg h2, if_neg h3, if_neg h4]
    exact ⟨none, 0, rfl⟩

theorem length_lt_of_next {bs rest : List UInt8} {u : Option Char}
    (h : next bs = some (u, rest)) : rest.length < bs.length := by
  cases bs with
  | nil => cases h
  | cons a bs =>
    obtain ⟨u', k, hnext⟩ := next_cons a bs
    rw [hnext, Option.some.injEq, Prod.mk.injEq] at h
    obtain ⟨-, rfl⟩ := h
    rw [List.length_drop, List.length_cons]
    omega

theorem next_ne_none {bs : List UInt8} (h : bs ≠ []) : next bs ≠ none := by
  obtain ⟨a, rest, rfl⟩ := List.exists_cons_of_ne_nil h
  obtain ⟨u, k, hnext⟩ := next_cons a rest
  simp [hnext]

/-- A line feed is no continuation of a sequence, so it does not change the unit before it. -/
theorem next_append_lf {bs : List UInt8} (h : bs ≠ []) :
    next (bs ++ [10]) = (next bs).map fun p => (p.1, p.2 ++ [10]) := by
  have hcont : isCont 10 = false := by decide
  have hsecond3 : ∀ a, second3 a 10 = false := by
    intro a
    unfold second3
    split_ifs <;> decide
  have hsecond4 : ∀ a, second4 a 10 = false := by
    intro a
    unfold second4
    split_ifs <;> decide
  obtain ⟨a, rest, rfl⟩ := List.exists_cons_of_ne_nil h
  simp only [List.cons_append, next]
  by_cases h1 : a < 0x80
  · simp [h1]
  by_cases h2 : (0xC2 ≤ a && a ≤ 0xDF) = true
  · simp only [if_neg h1, if_pos h2]
    cases rest with
    | nil => simp [hcont]
    | cons b rest => cases hb : isCont b <;> simp [hb]
  by_cases h3 : (0xE0 ≤ a && a ≤ 0xEF) = true
  · simp only [if_neg h1, if_neg h2, if_pos h3]
    cases rest with
    | nil => simp [hsecond3]
    | cons b rest =>
      cases hb : second3 a b with
      | false => simp [hb]
      | true =>
        cases rest with
        | nil => simp [hb, hcont]
        | cons c rest => cases hc : isCont c <;> simp [hb, hc]
  by_cases h4 : (0xF0 ≤ a && a ≤ 0xF4) = true
  · simp only [if_neg h1, if_neg h2, if_neg h3, if_pos h4]
    cases rest with
    | nil => simp [hsecond4]
    | cons b rest =>
      cases hb : second4 a b with
      | false => simp [hb]
      | true =>
        cases rest with
        | nil => simp [hb, hcont]
        | cons c rest =>
          cases hc : isCont c with
          | false => simp [hb, hc]
          | true =>
            cases rest with
            | nil => simp [hb, hc, hcont]
            | cons d rest => cases hd : isCont d <;> simp [hb, hc, hd]
  simp only [if_neg h1, if_neg h2, if_neg h3, if_neg h4, Option.map_some]

theorem units_nil (fuel : ℕ) : units fuel [] = [] := by
  cases fuel <;> rfl

theorem units_append_lf {fuel : ℕ} {bs : List UInt8} (h : bs.length ≤ fuel) :
    units (fuel + 1) (bs ++ [10]) = units fuel bs ++ [some '\n'] := by
  induction fuel generalizing bs with
  | zero =>
    obtain rfl : bs = [] := List.eq_nil_of_length_eq_zero (Nat.le_zero.1 h)
    rfl
  | succ fuel ih =>
    by_cases hbs : bs = []
    · subst hbs
      rw [units_nil]
      rfl
    · unfold units
      rw [next_append_lf hbs]
      cases hnext : next bs with
      | none => exact absurd hnext (next_ne_none hbs)
      | some p =>
        have hlt : p.2.length < bs.length := length_lt_of_next hnext
        have hrest := @ih p.2 (by omega)
        simp only [Option.map_some, List.cons_append, hrest]

theorem decode_append_lf (bs : List UInt8) :
    decode (bs ++ [10]) = (decode bs).map fun s => String.ofList (s.toList ++ ['\n']) := by
  unfold decode allUnits
  rw [List.length_append, List.length_singleton, units_append_lf le_rfl, List.mapM_append]
  cases (units bs.length bs).mapM id with
  | none => rfl
  | some cs => simp

theorem trim_append_lf (cs : List Char) :
    trim (String.ofList (cs ++ ['\n'])) = trim (String.ofList cs) := by
  have hlf : isWhitespace '\n' = true := by decide
  unfold trim
  simp only [String.toList_ofList, List.dropWhile_append]
  split_ifs with hempty
  · rw [List.isEmpty_iff.1 hempty]
    simp [hlf]
  · simp [hlf]

/-- White space in front is trimmed away. -/
theorem trim_cons {c : Char} (hc : isWhitespace c = true) (cs : List Char) :
    trim (String.ofList (c :: cs)) = trim (String.ofList cs) := by
  unfold trim
  simp only [String.toList_ofList, List.dropWhile_cons, hc, if_true]

/-- A trimmed string stays trimmed behind a start that does not begin with white space. -/
theorem trim_append {c : Char} {p s : List Char} (hc : isWhitespace c = false) (hs : s ≠ [])
    (h : trim (String.ofList s) = String.ofList s) :
    trim (String.ofList (c :: p ++ s)) = String.ofList (c :: p ++ s) := by
  unfold trim at h ⊢
  rw [String.ofList_inj, String.toList_ofList] at h
  have hlen := congrArg List.length h
  rw [List.length_reverse] at hlen
  have hstart : s.dropWhile isWhitespace = s := by
    refine (List.dropWhile_suffix _).eq_of_length_le ?_
    rw [← hlen, ← @List.length_reverse _ (s.dropWhile isWhitespace)]
    exact (List.dropWhile_suffix _).length_le
  have hend : s.reverse.dropWhile isWhitespace = s.reverse := by
    rw [hstart] at h
    rw [← List.reverse_inj, h, List.reverse_reverse]
  have hne : s.reverse.isEmpty = false := by simpa using hs
  rw [String.toList_ofList, List.cons_append, List.dropWhile_cons, hc, if_neg Bool.false_ne_true,
    ← List.cons_append, List.reverse_append, List.dropWhile_append, hend, hne,
    if_neg Bool.false_ne_true, ← List.reverse_append, List.reverse_reverse]

/-! ### Decoding what was encoded -/

theorem isCont_iff {b : UInt8} : isCont b = true ↔ 0x80 ≤ b.toNat ∧ b.toNat ≤ 0xBF := by
  simp [isCont, UInt8.le_iff_toNat_le]

/-- The second byte of three: a continuation byte, and in a range of its own after `0xE0` (the
sequence is not too long) and `0xED` (it is no surrogate). -/
theorem second3_iff {a b : UInt8} : second3 a b = true ↔
    isCont b = true ∧ (a.toNat = 0xE0 → 0xA0 ≤ b.toNat) ∧ (a.toNat = 0xED → b.toNat ≤ 0x9F) := by
  unfold second3
  simp only [isCont_iff, ← UInt8.toNat_inj, UInt8.reduceToNat]
  split_ifs <;> simp only [isCont_iff, Bool.and_eq_true, decide_eq_true_eq, UInt8.le_iff_toNat_le,
    UInt8.reduceToNat] <;> omega

/-- The second byte of four: a continuation byte, and in a range of its own after `0xF0` (the
sequence is not too long) and `0xF4` (the number is that of a character). -/
theorem second4_iff {a b : UInt8} : second4 a b = true ↔
    isCont b = true ∧ (a.toNat = 0xF0 → 0x90 ≤ b.toNat) ∧ (a.toNat = 0xF4 → b.toNat ≤ 0x8F) := by
  unfold second4
  simp only [isCont_iff, ← UInt8.toNat_inj, UInt8.reduceToNat]
  split_ifs <;> simp only [isCont_iff, Bool.and_eq_true, decide_eq_true_eq, UInt8.le_iff_toNat_le,
    UInt8.reduceToNat] <;> omega

/-- A byte below `0x80` is a character. -/
theorem next_ascii {a : UInt8} (ha : a.toNat < 0x80) (rest : List UInt8) :
    next (a :: rest) = some (some (Char.ofNat a.toNat), rest) :=
  if_pos (UInt8.lt_iff_toNat_lt.2 ha)

/-- A sequence of two bytes is a character. -/
theorem next_two {a b : UInt8} (ha : 0xC2 ≤ a.toNat ∧ a.toNat ≤ 0xDF) (hb : isCont b = true)
    (rest : List UInt8) :
    next (a :: b :: rest) = some (some (join (a.toNat - 0xC0) [b]), rest) := by
  simp only [next, UInt8.lt_iff_toNat_lt, UInt8.le_iff_toNat_le, UInt8.reduceToNat]
  rw [if_neg (by omega), if_pos (by simp; omega), if_pos hb]

/-- A sequence of three bytes is a character. -/
theorem next_three {a b c : UInt8} (ha : 0xE0 ≤ a.toNat ∧ a.toNat ≤ 0xEF)
    (hb : second3 a b = true) (hc : isCont c = true) (rest : List UInt8) :
    next (a :: b :: c :: rest) = some (some (join (a.toNat - 0xE0) [b, c]), rest) := by
  simp only [next, UInt8.lt_iff_toNat_lt, UInt8.le_iff_toNat_le, UInt8.reduceToNat]
  rw [if_neg (by omega), if_neg (by simp; omega), if_pos (by simp; omega), if_pos hb, if_pos hc]

/-- A sequence of four bytes is a character. -/
theorem next_four {a b c d : UInt8} (ha : 0xF0 ≤ a.toNat ∧ a.toNat ≤ 0xF4)
    (hb : second4 a b = true) (hc : isCont c = true) (hd : isCont d = true) (rest : List UInt8) :
    next (a :: b :: c :: d :: rest) = some (some (join (a.toNat - 0xF0) [b, c, d]), rest) := by
  simp only [next, UInt8.lt_iff_toNat_lt, UInt8.le_iff_toNat_le, UInt8.reduceToNat]
  rw [if_neg (by omega), if_neg (by simp; omega), if_neg (by simp; omega), if_pos (by simp; omega),
    if_pos hb, if_pos hc, if_pos hd]

/-- The first unit of an encoded character is the character. -/
theorem next_encodeChar (c : Char) (rest : List UInt8) :
    next (String.utf8EncodeChar c ++ rest) = some (some c, rest) := by
  have hvalid : c.toNat < 0xD800 ∨ 0xDFFF < c.toNat ∧ c.toNat < 0x110000 := c.valid
  have hjoin : ∀ lead conts, conts.foldl (fun n b => n * 64 + (b.toNat - 0x80)) lead = c.toNat →
      join lead conts = c := fun lead conts h => by rw [join, h, Char.ofNat_toNat]
  have hbyte : ∀ n < 256, (UInt8.ofNat n).toNat = n := fun n hn => by
    rw [UInt8.toNat_ofNat']
    omega
  unfold String.utf8EncodeChar
  simp only [show c.val.toNat = c.toNat from rfl]
  split_ifs with h1 h2 h3
  · have ha := hbyte c.toNat (by omega)
    rw [List.cons_append, List.nil_append, next_ascii (by omega), ha, Char.ofNat_toNat]
  · generalize ha : UInt8.ofNat (c.toNat / 64 % 0x20 + 0xc0) = a
    generalize hb : UInt8.ofNat (c.toNat % 0x40 + 0x80) = b
    have ha' : a.toNat = c.toNat / 64 + 0xc0 := by rw [← ha, hbyte _ (by omega)]; omega
    have hb' : b.toNat = c.toNat % 64 + 0x80 := by rw [← hb, hbyte _ (by omega)]
    have hcont : isCont b = true := isCont_iff.2 (by omega)
    rw [List.cons_append, List.cons_append, List.nil_append, next_two (by omega) hcont, hjoin]
    simp only [List.foldl_cons, List.foldl_nil, ha', hb']
    omega
  · generalize ha : UInt8.ofNat (c.toNat / 4096 % 0x10 + 0xe0) = a
    generalize hb : UInt8.ofNat (c.toNat / 64 % 0x40 + 0x80) = b
    generalize hd : UInt8.ofNat (c.toNat % 0x40 + 0x80) = d
    have ha' : a.toNat = c.toNat / 4096 + 0xe0 := by rw [← ha, hbyte _ (by omega)]; omega
    have hb' : b.toNat = c.toNat / 64 % 64 + 0x80 := by rw [← hb, hbyte _ (by omega)]
    have hd' : d.toNat = c.toNat % 64 + 0x80 := by rw [← hd, hbyte _ (by omega)]
    have hcont : isCont d = true := isCont_iff.2 (by omega)
    have hsecond : second3 a b = true :=
      second3_iff.2 ⟨isCont_iff.2 (by omega), by omega, by omega⟩
    rw [List.cons_append, List.cons_append, List.cons_append, List.nil_append,
      next_three (by omega) hsecond hcont, hjoin]
    simp only [List.foldl_cons, List.foldl_nil, ha', hb', hd']
    omega
  · generalize ha : UInt8.ofNat (c.toNat / 262144 % 0x08 + 0xf0) = a
    generalize hb : UInt8.ofNat (c.toNat / 4096 % 0x40 + 0x80) = b
    generalize hd : UInt8.ofNat (c.toNat / 64 % 0x40 + 0x80) = d
    generalize he : UInt8.ofNat (c.toNat % 0x40 + 0x80) = e
    have ha' : a.toNat = c.toNat / 262144 + 0xf0 := by rw [← ha, hbyte _ (by omega)]; omega
    have hb' : b.toNat = c.toNat / 4096 % 64 + 0x80 := by rw [← hb, hbyte _ (by omega)]
    have hd' : d.toNat = c.toNat / 64 % 64 + 0x80 := by rw [← hd, hbyte _ (by omega)]
    have he' : e.toNat = c.toNat % 64 + 0x80 := by rw [← he, hbyte _ (by omega)]
    have hcont : isCont d = true := isCont_iff.2 (by omega)
    have hcont' : isCont e = true := isCont_iff.2 (by omega)
    have hsecond : second4 a b = true :=
      second4_iff.2 ⟨isCont_iff.2 (by omega), by omega, by omega⟩
    rw [List.cons_append, List.cons_append, List.cons_append, List.cons_append, List.nil_append,
      next_four (by omega) hsecond hcont hcont', hjoin]
    simp only [List.foldl_cons, List.foldl_nil, ha', hb', hd', he']
    omega

theorem units_encode (cs : List Char) {fuel : ℕ}
    (h : (cs.flatMap String.utf8EncodeChar).length ≤ fuel) :
    units fuel (cs.flatMap String.utf8EncodeChar) = cs.map some := by
  induction cs generalizing fuel with
  | nil => exact units_nil fuel
  | cons c cs ih =>
    rw [List.flatMap_cons, List.length_append] at h
    have hpos : 0 < (String.utf8EncodeChar c).length :=
      List.length_pos_iff.2 String.utf8EncodeChar_ne_nil
    obtain ⟨fuel, rfl⟩ := Nat.exists_eq_add_one_of_ne_zero (show fuel ≠ 0 by omega)
    rw [List.flatMap_cons, units, next_encodeChar]
    simp only
    rw [ih (by omega), List.map_cons]

/-- An encoded string is well formed throughout. -/
theorem allUnits_encode (s : String) : allUnits (encode s) = s.toList.map some :=
  units_encode s.toList le_rfl

@[simp] theorem decode_encode (s : String) : decode (encode s) = some s := by
  have h : (s.toList.map some).mapM id = some s.toList := by
    induction s.toList with
    | nil => rfl
    | cons c cs ih => simp [ih]
  rw [decode, allUnits_encode, h, Option.map_some, String.ofList_toList]

@[simp] theorem lossy_encode (s : String) : lossy (encode s) = s := by
  rw [lossy, allUnits_encode, List.map_map]
  simp [Function.comp_def]

/-- The lossy text of some bytes encodes to them exactly when they are UTF-8. -/
theorem encode_lossy_iff {bs : List UInt8} : encode (lossy bs) = bs ↔ ∃ s, encode s = bs := by
  constructor
  · intro h
    exact ⟨_, h⟩
  · rintro ⟨s, rfl⟩
    rw [lossy_encode]

theorem encode_append (s t : String) : encode (s ++ t) = encode s ++ encode t := by
  rw [encode, String.toList_append, List.flatMap_append]
  rfl

/-! ### Encodings inside encodings -/

theorem length_flatMap_encode (cs : List Char) :
    (cs.flatMap String.utf8EncodeChar).length = byteLen cs := by
  induction cs with
  | nil => rfl
  | cons c cs ih =>
    rw [List.flatMap_cons, List.length_append, ih, String.length_utf8EncodeChar, byteLen_cons]

theorem length_encode (s : String) : (encode s).length = len s := length_flatMap_encode s.toList

theorem encodeChar_append_inj {c d : Char} {as bs : List UInt8}
    (h : String.utf8EncodeChar c ++ as = String.utf8EncodeChar d ++ bs) : c = d ∧ as = bs := by
  have hnext := next_encodeChar c as
  rw [h, next_encodeChar d bs] at hnext
  cases hnext
  exact ⟨rfl, rfl⟩

/-- The first byte of a character. -/
theorem exists_encodeChar (c : Char) :
    ∃ x l, String.utf8EncodeChar c = x :: l ∧ x.IsUTF8FirstByte := by
  obtain ⟨x, l, hx⟩ := List.exists_cons_of_ne_nil (@String.utf8EncodeChar_ne_nil c)
  refine ⟨x, l, hx, ?_⟩
  have hfirst := @UInt8.isUTF8FirstByte_getElem_zero_utf8EncodeChar c
  simpa [hx] using hfirst

/-- No other byte of a character is a first byte. -/
theorem not_first_of_encodeChar {c : Char} {as bs : List UInt8} {x : UInt8}
    (h : String.utf8EncodeChar c = as ++ x :: bs) (has : as ≠ []) : ¬ x.IsUTF8FirstByte := by
  have hlt : as.length < (String.utf8EncodeChar c).length := by
    rw [h]
    simp
  have hfirst := @UInt8.isUTF8FirstByte_getElem_utf8EncodeChar c as.length hlt
  have hx : (String.utf8EncodeChar c)[as.length] = x := by simp [h]
  rw [hx] at hfirst
  rw [hfirst]
  exact fun hzero => has (List.eq_nil_of_length_eq_zero hzero)

/-- An encoding that starts another one encodes a start. -/
theorem prefix_of_encode {a cs : List Char} {bs : List UInt8}
    (h : cs.flatMap String.utf8EncodeChar = a.flatMap String.utf8EncodeChar ++ bs) :
    ∃ b, cs = a ++ b ∧ b.flatMap String.utf8EncodeChar = bs := by
  induction a generalizing cs with
  | nil => exact ⟨cs, rfl, h⟩
  | cons c a ih =>
    rw [List.flatMap_cons, List.append_assoc] at h
    cases cs with
    | nil =>
      obtain ⟨x, l, hx, -⟩ := exists_encodeChar c
      rw [hx] at h
      cases h
    | cons d cs =>
      obtain ⟨rfl, hrest⟩ := encodeChar_append_inj h
      obtain ⟨b, rfl, hb⟩ := ih hrest
      exact ⟨b, rfl, hb⟩

/-- An encoding that ends another one encodes an end. -/
theorem suffix_of_encode {b cs : List Char} {bs : List UInt8}
    (h : cs.flatMap String.utf8EncodeChar = bs ++ b.flatMap String.utf8EncodeChar) :
    ∃ a, cs = a ++ b ∧ a.flatMap String.utf8EncodeChar = bs := by
  induction cs generalizing bs with
  | nil =>
    obtain ⟨rfl, hb⟩ := List.append_eq_nil_iff.1 h.symm
    cases b with
    | nil => exact ⟨[], rfl, rfl⟩
    | cons d b =>
      obtain ⟨x, l, hx, -⟩ := exists_encodeChar d
      rw [List.flatMap_cons, hx] at hb
      cases hb
  | cons c cs ih =>
    by_cases hbs : bs = []
    · subst hbs
      rw [List.nil_append, ← List.append_nil (List.flatMap _ b)] at h
      obtain ⟨e, he, hnil⟩ := prefix_of_encode h
      cases e with
      | nil => exact ⟨[], by rw [he, List.append_nil, List.nil_append], rfl⟩
      | cons d e =>
        obtain ⟨x, l, hx, -⟩ := exists_encodeChar d
        rw [List.flatMap_cons, hx] at hnil
        cases hnil
    · rw [List.flatMap_cons] at h
      have hwhole : ∀ l, bs = String.utf8EncodeChar c ++ l →
          cs.flatMap String.utf8EncodeChar = l ++ b.flatMap String.utf8EncodeChar →
          ∃ a, c :: cs = a ++ b ∧ a.flatMap String.utf8EncodeChar = bs := by
        intro l hl hr
        obtain ⟨a, rfl, ha⟩ := ih hr
        exact ⟨c :: a, rfl, by rw [List.flatMap_cons, ha, hl]⟩
      rcases List.append_eq_append_iff.1 h with ⟨l, hl, hr⟩ | ⟨l, hl, hr⟩
      · exact hwhole l hl hr
      · cases l with
        | nil => exact hwhole [] (by simpa using hl.symm) (by simpa using hr.symm)
        | cons x l =>
          -- the end would begin inside the first character
          cases b with
          | nil => cases hr
          | cons d b =>
            obtain ⟨y, k, hy, hfirst⟩ := exists_encodeChar d
            rw [List.flatMap_cons, hy] at hr
            have hyx : y = x := (List.cons.inj hr).1
            rw [hyx] at hfirst
            exact absurd hfirst (not_first_of_encodeChar hl hbs)

/-! ### ASCII -/

/-- The number a sequence stands for, when it is that of a character. -/
theorem toNat_join {lead : ℕ} {conts : List UInt8} {n : ℕ}
    (hn : conts.foldl (fun n b => n * 64 + (b.toNat - 0x80)) lead = n) (hv : n.isValidChar) :
    (join lead conts).toNat = n := by
  rw [join, hn, Char.ofNat, dif_pos hv]
  rfl

theorem le_toNat_join_two {a b : UInt8} (ha : 0xC2 ≤ a.toNat ∧ a.toNat ≤ 0xDF)
    (hb : isCont b = true) : 0x80 ≤ (join (a.toNat - 0xC0) [b]).toNat := by
  rw [isCont_iff] at hb
  rw [toNat_join rfl (by simp only [List.foldl_cons, List.foldl_nil]; exact Or.inl (by omega))]
  simp only [List.foldl_cons, List.foldl_nil]
  omega

theorem le_toNat_join_three {a b c : UInt8} (ha : 0xE0 ≤ a.toNat ∧ a.toNat ≤ 0xEF)
    (hb : second3 a b = true) (hc : isCont c = true) :
    0x80 ≤ (join (a.toNat - 0xE0) [b, c]).toNat := by
  obtain ⟨hb, hfirst, hlast⟩ := second3_iff.1 hb
  rw [isCont_iff] at hb hc
  rw [toNat_join rfl (by
    simp only [List.foldl_cons, List.foldl_nil, Nat.isValidChar]
    omega)]
  simp only [List.foldl_cons, List.foldl_nil]
  omega

theorem le_toNat_join_four {a b c d : UInt8} (ha : 0xF0 ≤ a.toNat ∧ a.toNat ≤ 0xF4)
    (hb : second4 a b = true) (hc : isCont c = true) (hd : isCont d = true) :
    0x80 ≤ (join (a.toNat - 0xF0) [b, c, d]).toNat := by
  obtain ⟨hb, hfirst, hlast⟩ := second4_iff.1 hb
  rw [isCont_iff] at hb hc hd
  rw [toNat_join rfl (by
    simp only [List.foldl_cons, List.foldl_nil, Nat.isValidChar]
    omega)]
  simp only [List.foldl_cons, List.foldl_nil]
  omega

/-- **What the first unit is**: an ASCII byte, or bytes that are not ASCII, for a character that is
not or for none. -/
theorem next_spec {a : UInt8} {rest rest' : List UInt8} {u : Option Char}
    (h : next (a :: rest) = some (u, rest')) :
    (a.toNat < 0x80 ∧ u = some (Char.ofNat a.toNat) ∧ rest' = rest) ∨
      0x80 ≤ a.toNat ∧ (∃ conts, rest = conts ++ rest' ∧ ∀ b ∈ conts, 0x80 ≤ b.toNat) ∧
        ∀ c, u = some c → 0x80 ≤ c.toNat := by
  have hle : ∀ {b : UInt8}, isCont b = true → 0x80 ≤ b.toNat := fun hb => (isCont_iff.1 hb).1
  simp only [next, UInt8.lt_iff_toNat_lt, UInt8.le_iff_toNat_le, UInt8.reduceToNat,
    Bool.and_eq_true, decide_eq_true_eq] at h
  by_cases h1 : a.toNat < 0x80
  · rw [if_pos h1] at h
    cases h
    exact Or.inl ⟨h1, rfl, rfl⟩
  rw [if_neg h1] at h
  refine Or.inr ⟨by omega, ?_⟩
  by_cases h2 : 0xC2 ≤ a.toNat ∧ a.toNat ≤ 0xDF
  · rw [if_pos h2] at h
    cases rest with
    | nil => cases h; exact ⟨⟨[], rfl, nofun⟩, nofun⟩
    | cons b rest =>
      simp only at h
      split_ifs at h with hb
      · cases h
        refine ⟨⟨[b], rfl, by simpa using hle hb⟩, ?_⟩
        intro x hx
        rw [← Option.some.inj hx]
        exact le_toNat_join_two h2 hb
      · cases h; exact ⟨⟨[], rfl, nofun⟩, nofun⟩
  rw [if_neg h2] at h
  by_cases h3 : 0xE0 ≤ a.toNat ∧ a.toNat ≤ 0xEF
  · rw [if_pos h3] at h
    cases rest with
    | nil => cases h; exact ⟨⟨[], rfl, nofun⟩, nofun⟩
    | cons b rest =>
      simp only at h
      split_ifs at h with hb
      · have hb' := hle (second3_iff.1 hb).1
        cases rest with
        | nil => cases h; exact ⟨⟨[b], rfl, by simpa using hb'⟩, nofun⟩
        | cons c rest =>
          simp only at h
          split_ifs at h with hc
          · cases h
            refine ⟨⟨[b, c], rfl, by simpa using ⟨hb', hle hc⟩⟩, ?_⟩
            intro x hx
            rw [← Option.some.inj hx]
            exact le_toNat_join_three h3 hb hc
          · cases h; exact ⟨⟨[b], rfl, by simpa using hb'⟩, nofun⟩
      · cases h; exact ⟨⟨[], rfl, nofun⟩, nofun⟩
  rw [if_neg h3] at h
  by_cases h4 : 0xF0 ≤ a.toNat ∧ a.toNat ≤ 0xF4
  · rw [if_pos h4] at h
    cases rest with
    | nil => cases h; exact ⟨⟨[], rfl, nofun⟩, nofun⟩
    | cons b rest =>
      simp only at h
      split_ifs at h with hb
      · have hb' := hle (second4_iff.1 hb).1
        cases rest with
        | nil => cases h; exact ⟨⟨[b], rfl, by simpa using hb'⟩, nofun⟩
        | cons c rest =>
          simp only at h
          split_ifs at h with hc
          · cases rest with
            | nil => cases h; exact ⟨⟨[b, c], rfl, by simpa using ⟨hb', hle hc⟩⟩, nofun⟩
            | cons d rest =>
              simp only at h
              split_ifs at h with hd
              · cases h
                refine ⟨⟨[b, c, d], rfl, by simpa using ⟨hb', hle hc, hle hd⟩⟩, ?_⟩
                intro x hx
                rw [← Option.some.inj hx]
                exact le_toNat_join_four h4 hb hc hd
              · cases h; exact ⟨⟨[b, c], rfl, by simpa using ⟨hb', hle hc⟩⟩, nofun⟩
          · cases h; exact ⟨⟨[b], rfl, by simpa using hb'⟩, nofun⟩
      · cases h; exact ⟨⟨[], rfl, nofun⟩, nofun⟩
  · rw [if_neg h4] at h
    cases h
    exact ⟨⟨[], rfl, nofun⟩, nofun⟩

/-- Whether a character is ASCII. -/
def isAscii (c : Char) : Bool := c.toNat < 0x80

/-- Whether a byte is one of ASCII. -/
def isAsciiByte (b : UInt8) : Bool := b.toNat < 0x80

theorem countP_eq_zero_of_le {bs : List UInt8} (h : ∀ b ∈ bs, 0x80 ≤ b.toNat) :
    bs.countP isAsciiByte = 0 := by
  rw [List.countP_eq_zero]
  intro b hb
  have hle := h b hb
  simp only [isAsciiByte, decide_eq_true_eq]
  omega

/-- A unit of the lossy text is ASCII exactly when it is an ASCII byte. -/
theorem countP_units {fuel : ℕ} {bs : List UInt8} (h : bs.length ≤ fuel) :
    ((units fuel bs).map fun u => u.getD (Char.ofNat 0xFFFD)).countP isAscii =
      bs.countP isAsciiByte := by
  induction fuel generalizing bs with
  | zero => rw [List.eq_nil_of_length_eq_zero (by omega : bs.length = 0)]; rfl
  | succ fuel ih =>
    cases bs with
    | nil => rfl
    | cons a rest =>
      obtain ⟨u, k, hnext⟩ := next_cons a rest
      have hlen := length_lt_of_next hnext
      rw [units, hnext, List.map_cons, List.countP_cons, ih (by simp at h hlen ⊢; omega)]
      rcases next_spec hnext with ⟨ha, rfl, hrest⟩ | ⟨ha, ⟨conts, hrest, hconts⟩, hu⟩
      · have hchar : isAscii (Char.ofNat a.toNat) = true := by
          have hn : (Char.ofNat a.toNat).toNat = a.toNat :=
            @toNat_join a.toNat [] _ rfl (Or.inl (by omega))
          simp only [isAscii, hn, decide_eq_true_eq]
          exact ha
        rw [hrest, Option.getD_some, List.countP_cons, if_pos hchar,
          if_pos (by simpa [isAsciiByte] using ha)]
      · have hchar : isAscii (u.getD (Char.ofNat 0xFFFD)) = false := by
          cases u with
          | none => rfl
          | some c => simpa [isAscii] using hu c rfl
        rw [if_neg (by simp [hchar]), List.countP_cons, if_neg (by simp [isAsciiByte]; omega)]
        conv_rhs => rw [hrest, List.countP_append, countP_eq_zero_of_le hconts]
        omega

/-- **The lossy text has as many ASCII characters as there are ASCII bytes.** -/
theorem countP_lossy (bs : List UInt8) :
    (lossy bs).toList.countP isAscii = bs.countP isAsciiByte := by
  rw [lossy, String.toList_ofList]
  exact countP_units le_rfl

/-- The bytes of a character are ASCII as the character is. -/
theorem countP_encodeChar (c : Char) :
    (String.utf8EncodeChar c).countP isAsciiByte = if isAscii c then 1 else 0 := by
  have hcount := @countP_units _ (String.utf8EncodeChar c) le_rfl
  have hlen : ([c].flatMap String.utf8EncodeChar).length ≤ (String.utf8EncodeChar c).length := by
    simp
  have hunits := units_encode [c] hlen
  rw [List.flatMap_cons, List.flatMap_nil, List.append_nil] at hunits
  rw [← hcount, hunits]
  simp [List.countP_cons]

theorem byteLen_singleton {c : Char} (hc : isAscii c = true) : byteLen [c] = 1 := by
  have hsize : c.utf8Size = 1 := Char.utf8Size_eq_one_iff.2 (by
    rw [UInt32.le_iff_toNat_le]
    exact Nat.le_of_lt_succ (of_decide_eq_true hc))
  rw [byteLen_cons, byteLen_nil, hsize]

/-- The last byte of a character is one of ASCII only for that character. -/
theorem getLast?_encodeChar {c a : Char} (ha : isAscii a = true) :
    (String.utf8EncodeChar c).getLast? = some (UInt8.ofNat a.toNat) ↔ c = a := by
  have hlt : a.toNat < 0x80 := of_decide_eq_true ha
  have hbyte : (UInt8.ofNat a.toNat).toNat = a.toNat := by
    rw [UInt8.toNat_ofNat']
    exact Nat.mod_eq_of_lt (hlt.trans (by decide))
  by_cases hc : isAscii c = true
  · have hsize : c.utf8Size = 1 := by simpa using byteLen_singleton hc
    have hlt' : c.toNat < 0x80 := of_decide_eq_true hc
    have hmod : c.val.toUInt8.toNat = c.toNat := by
      rw [UInt32.toNat_toUInt8]
      exact Nat.mod_eq_of_lt (hlt'.trans (by decide))
    rw [String.utf8EncodeChar_eq_singleton hsize, List.getLast?_singleton, Option.some.injEq,
      ← UInt8.toNat_inj, ← Char.toNat_inj, hmod, hbyte]
  · refine iff_of_false (fun hlast => ?_) (fun heq => hc (heq ▸ ha))
    have hcount := countP_encodeChar c
    rw [if_neg hc, List.countP_eq_zero] at hcount
    refine hcount _ (List.mem_of_getLast? hlast) ?_
    rw [isAsciiByte, hbyte]
    exact decide_eq_true hlt

/-- The last byte of a string is one of ASCII exactly when that is its last character. -/
theorem getLast?_encode {s : String} {a : Char} (ha : isAscii a = true) :
    (encode s).getLast? = some (UInt8.ofNat a.toNat) ↔ s.toList.getLast? = some a := by
  unfold encode
  cases hlast : s.toList.getLast? with
  | none =>
    rw [List.getLast?_eq_none_iff.1 hlast]
    simp
  | some c =>
    obtain ⟨x, hx⟩ := List.getLast?_eq_some_iff.1 hlast
    rw [hx, List.flatMap_append, List.flatMap_singleton,
      List.getLast?_append_of_ne_nil _ (String.utf8EncodeChar_ne_nil), getLast?_encodeChar ha,
      Option.some.injEq]

end Utf8
