import Mybro.Lib.Utf8

/-!
# Lowercase

`str::to_lowercase` over the tables of `char`: every character by itself, but for the capital sigma,
which depends on whether it ends a word.

* `lowerFrom`, `toLowercase`: the conversion, of which what comes before a space says nothing about
  what comes behind it (`lowerFrom_sep`);
* `prefix_lowerFrom`: an ASCII prefix without `i` and `k` in lowercase has been one before, so
  that it ends at a character boundary of the same offset.
-/

/-- The tables `char::to_lowercase`, `Cased` and `Case_Ignorable`. Only `U+0130` and `U+212A` have
something ASCII to begin their lowercase with. -/
structure CaseTables where
  toLower : Char → List Char
  cased : Char → Bool
  caseIgnorable : Char → Bool
  toLower_ascii : ∀ c : Char, c.toNat < 128 → toLower c = [c.toLower]
  toLower_nonAscii : ∀ c : Char, 128 ≤ c.toNat →
    ∃ d ds, toLower c = d :: ds ∧ (128 ≤ d.toNat ∨ d = 'i' ∨ d = 'k')
  cased_space : cased ' ' = false
  caseIgnorable_space : caseIgnorable ' ' = false

namespace CaseTables

/-- All characters are ASCII. -/
def IsAscii (cs : List Char) : Prop := ∀ c ∈ cs, c.toNat < 128

variable (T : CaseTables)

/-- Behind the characters that do not count comes one with a case. -/
def ignorableThenCased (cs : List Char) : Bool :=
  match cs.dropWhile T.caseIgnorable with
  | c :: _ => T.cased c
  | [] => false

/-- The lowercase of a string behind the characters `before`, the nearest of them first. -/
def lowerFrom (before : List Char) : List Char → List Char
  | [] => []
  | c :: cs =>
    (if c = 'Σ' then
      [if T.ignorableThenCased before && !T.ignorableThenCased cs then 'ς' else 'σ']
    else T.toLower c) ++ lowerFrom (c :: before) cs

/-- `str::to_lowercase`. -/
def toLowercase (s : String) : String := String.ofList (T.lowerFrom [] s.toList)

/-! ### ASCII -/

theorem byteLen_ascii {cs : List Char} (h : IsAscii cs) : Utf8.byteLen cs = cs.length := by
  induction cs with
  | nil => rfl
  | cons c cs ih =>
    obtain ⟨hc, hcs⟩ := List.forall_mem_cons.1 h
    have hsize : c.utf8Size = 1 := Char.utf8Size_eq_one_iff.2 (by
      rw [UInt32.le_iff_toNat_le]
      exact Nat.le_of_lt_succ hc)
    rw [Utf8.byteLen_cons, List.length_cons, ih hcs, hsize, Nat.add_comm]

theorem eq_space_of_toLower {c : Char} (h : c.toLower = ' ') : c = ' ' := by
  unfold Char.toLower at h
  split_ifs at h with hupper
  · -- a capital letter is lowered to a letter
    have hval := congrArg (fun c : Char => c.val.toNat) h
    obtain ⟨hge, hle⟩ := hupper
    rw [ge_iff_le, UInt32.le_iff_toNat_le] at hge
    rw [UInt32.le_iff_toNat_le] at hle
    simp only [UInt32.toNat_add] at hval
    have hA : 'A'.val.toNat = 65 := rfl
    have hZ : 'Z'.val.toNat = 90 := rfl
    have hdiff : ('a'.val - 'A'.val).toNat = 32 := rfl
    have hspace : ' '.val.toNat = 32 := rfl
    omega
  · exact h

theorem lowerFrom_cons_ascii {c : Char} (hc : c.toNat < 128) (before cs : List Char) :
    T.lowerFrom before (c :: cs) = c.toLower :: T.lowerFrom (c :: before) cs := by
  have hne : c ≠ 'Σ' := by
    rintro rfl
    exact absurd hc (by decide)
  rw [lowerFrom, if_neg hne, T.toLower_ascii c hc]
  rfl

/-- ASCII is lowered character by character. -/
theorem lowerFrom_ascii {q : List Char} (hq : IsAscii q) (before rest : List Char) :
    T.lowerFrom before (q ++ rest) =
      q.map Char.toLower ++ T.lowerFrom (q.reverse ++ before) rest := by
  induction q generalizing before with
  | nil => rfl
  | cons c q ih =>
    obtain ⟨hc, hq⟩ := List.forall_mem_cons.1 hq
    rw [List.cons_append, lowerFrom_cons_ascii T hc, ih hq, List.map_cons, List.reverse_cons,
      List.append_assoc]
    rfl

/-- The lowercase of any other character begins with none that is ASCII, but for two. -/
theorem lowerFrom_cons_nonAscii {c : Char} (hc : 128 ≤ c.toNat) (before cs : List Char) :
    ∃ d ds, T.lowerFrom before (c :: cs) = d :: ds ∧ (128 ≤ d.toNat ∨ d = 'i' ∨ d = 'k') := by
  unfold lowerFrom
  split_ifs with hsigma
  · exact ⟨_, _, rfl, Or.inl (by decide)⟩
  · exact ⟨_, _, rfl, Or.inl (by decide)⟩
  · obtain ⟨d, ds, heq, hd⟩ := T.toLower_nonAscii c hc
    exact ⟨d, _, by rw [heq]; rfl, hd⟩

/-- **An ASCII prefix of the lowercase**, without `i` and `k`, is the lowercase of an ASCII
prefix. -/
theorem prefix_lowerFrom {p cs before : List Char}
    (hp : ∀ d ∈ p, d.toNat < 128 ∧ d ≠ 'i' ∧ d ≠ 'k') (h : p <+: T.lowerFrom before cs) :
    ∃ q rest, cs = q ++ rest ∧ IsAscii q ∧ q.map Char.toLower = p := by
  induction p generalizing cs before with
  | nil => exact ⟨[], cs, rfl, nofun, rfl⟩
  | cons d p ih =>
    obtain ⟨⟨hd, hi, hk⟩, hrest⟩ := List.forall_mem_cons.1 hp
    cases cs with
    | nil => exact absurd (List.prefix_nil.1 h) (List.cons_ne_nil _ _)
    | cons c cs =>
      rcases Nat.lt_or_ge c.toNat 128 with hc | hc
      · rw [lowerFrom_cons_ascii T hc, List.cons_prefix_cons] at h
        obtain ⟨rfl, h⟩ := h
        obtain ⟨q, rest, rfl, hq, rfl⟩ := ih hrest h
        exact ⟨c :: q, rest, rfl, List.forall_mem_cons.2 ⟨hc, hq⟩, rfl⟩
      · obtain ⟨d', ds, heq, hd'⟩ := T.lowerFrom_cons_nonAscii hc before cs
        rw [heq, List.cons_prefix_cons] at h
        obtain ⟨rfl, -⟩ := h
        rcases hd' with hd' | rfl | rfl
        · omega
        · exact absurd rfl hi
        · exact absurd rfl hk

/-! ### Words -/

/-- A space has no case, and ends the word. -/
theorem ignorableThenCased_sep (pre b : List Char) :
    T.ignorableThenCased (pre ++ ' ' :: b) = T.ignorableThenCased pre := by
  unfold ignorableThenCased
  induction pre with
  | nil => simp [T.caseIgnorable_space, T.cased_space]
  | cons c pre ih =>
    rw [List.cons_append, List.dropWhile_cons, List.dropWhile_cons]
    split_ifs
    · exact ih
    · rfl

/-- **What comes before a space does not matter behind it.** -/
theorem lowerFrom_sep (pre b cs : List Char) :
    T.lowerFrom (pre ++ ' ' :: b) cs = T.lowerFrom pre cs := by
  induction cs generalizing pre with
  | nil => rfl
  | cons c cs ih =>
    unfold lowerFrom
    rw [ignorableThenCased_sep, ← List.cons_append, ih]

/-! ### Tables -/

/-- `char::to_lowercase` where the result is ASCII: of the capital letters, and of the Kelvin sign.
-/
def lowerChar (c : Char) : Char := if c.toNat = 0x212A then 'k' else c.toLower

theorem toLower_of_nonAscii {c : Char} (h : 128 ≤ c.toNat) : c.toLower = c := by
  unfold Char.toLower
  split_ifs with hupper
  · have hle := hupper.2
    rw [UInt32.le_iff_toNat_le] at hle
    have hZ : 'Z'.val.toNat = 90 := rfl
    have hc : c.toNat = c.val.toNat := rfl
    omega
  · rfl

/-- Tables for the letters of ASCII and for the two letters that are lowered to something ASCII. -/
def basic : CaseTables where
  toLower c :=
    if c.toNat = 0x0130 then ['i', Char.ofNat 0x0307] else [lowerChar c]
  cased c := c.isAlpha || c.toNat = 0x0130 || c.toNat = 0x212A
  caseIgnorable c := c ∈ ['.', ':', '^']
  toLower_ascii c hc := by rw [if_neg (by omega), lowerChar, if_neg (by omega)]
  toLower_nonAscii c hc := by
    unfold lowerChar
    split_ifs
    · exact ⟨_, _, rfl, Or.inr (Or.inl rfl)⟩
    · exact ⟨_, _, rfl, Or.inr (Or.inr rfl)⟩
    · refine ⟨_, _, rfl, Or.inl ?_⟩
      rw [toLower_of_nonAscii hc]
      exact hc
  cased_space := by decide
  caseIgnorable_space := by decide

example : basic.toLowercase "\u212AEY" = "key" := by decide

end CaseTables
