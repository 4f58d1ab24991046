import Mybro.Config
import Mybro.Lib.Checked

/-!
# The texts of durations (`config.rs`)

`parse_duration` looks at the last byte of the trimmed text, slices the text before it, has the
library read the rest as a number, and multiplies. `parseDurationChecked` is that run with a slice
inside a character and a product that leaves the words as failures. `parseDuration_exact_iff` says
for which texts the run goes through and its result is the duration that the text denotes.
-/

namespace Mybro

/-! ### What a text denotes -/

/-- The unit of a number; without a letter behind it the number is in milliseconds. -/
inductive DurationUnit
  | hours
  | minutes
  | seconds
  | millis
  deriving DecidableEq, Repr

namespace DurationUnit

/-- What stands behind the number. -/
def suffix : DurationUnit → List Char
  | hours => ['h']
  | minutes => ['m']
  | seconds => ['s']
  | millis => []

/-- The factor: how many seconds an hour or a minute has. -/
def count : DurationUnit → UInt64
  | hours => 3600
  | minutes => 60
  | seconds => 1
  | millis => 1

/-- The nanoseconds of a second or a millisecond. -/
def base : DurationUnit → ℕ
  | hours => 1000000000
  | minutes => 1000000000
  | seconds => 1000000000
  | millis => 1000000

end DurationUnit

/-- The trimmed text is a number with a unit, the product of both fits in a word, and `d` is the
duration. -/
def Denotes (cs : List Char) (d : ℕ) : Prop :=
  ∃ (ds : List Char) (u : DurationUnit), cs = ds ++ u.suffix ∧ IsDigits ds ∧
    numberOf ds * u.count.toNat < 2 ^ 64 ∧ d = numberOf ds * u.count.toNat * u.base

/-! ### The run with its checks -/

/-- A number before a unit, from the bytes before the last one. -/
def checkedInUnit (s : String) (mult : UInt64) : Option ℕ := do
  let num ← Utf8.sliceTo s (Utf8.len s - 1)
  match parseU64 num.toList with
  | some n => (Checked.mul n mult).map fun secs => seconds secs.toNat
  | none => some 0

/-- `parse_duration`; it fails where a slice is inside a character or a product wraps. -/
def parseDurationChecked (text : String) : Option ℕ :=
  let s := Utf8.trim text
  match (Utf8.encode s).getLast? with
  | none => some 0
  | some last =>
    if last = UInt8.ofNat 'h'.toNat then checkedInUnit s 3600
    else if last = UInt8.ofNat 'm'.toNat then checkedInUnit s 60
    else if last = UInt8.ofNat 's'.toNat then checkedInUnit s 1
    else
      match parseU64 s.toList with
      | some ms => some (ms.toNat * 1000000)
      | none => some 0

/-- Nothing wraps and no slice fails; a text that denotes a duration gives it, and any other text
gives 0. -/
structure DurationExact (text : String) : Prop where
  runs : parseDurationChecked text = some (parseDuration text)
  value : ∀ d, Denotes (Utf8.trim text).toList d → parseDuration text = d
  zero : (∀ d, ¬ Denotes (Utf8.trim text).toList d) → parseDuration text = 0

/-- The library finds a number in the text: digits before the unit, and a sign that may stand before
them. -/
structure ReadAs (cs sign ds : List Char) (u : DurationUnit) : Prop where
  isSign : sign = [] ∨ sign = ['+']
  text : cs = sign ++ ds ++ u.suffix
  digits : IsDigits ds
  word : numberOf ds < 2 ^ 64

/-- The condition: the product of the number and its unit fits, and after a plus sign the number
is 0. -/
def DurationFits (text : String) : Prop :=
  ∀ sign ds u, ReadAs (Utf8.trim text).toList sign ds u →
    numberOf ds * u.count.toNat < 2 ^ 64 ∧ (sign = ['+'] → numberOf ds = 0)

/-! ### Number and unit -/

section

variable {cs ds : List Char}

/-- The unit that the last character of a text stands for. -/
def unitOf (cs : List Char) : DurationUnit :=
  match cs.getLast? with
  | some 'h' => .hours
  | some 'm' => .minutes
  | some 's' => .seconds
  | _ => .millis

/-- What is read as the number. -/
def numeralOf (cs : List Char) : List Char := if unitOf cs = .millis then cs else cs.dropLast

/-- The last character decides. -/
theorem unitOf_cases (cs : List Char) :
    (cs.getLast? = some 'h' ∧ unitOf cs = .hours ∧ numeralOf cs = cs.dropLast) ∨
    (cs.getLast? = some 'm' ∧ unitOf cs = .minutes ∧ numeralOf cs = cs.dropLast) ∨
    (cs.getLast? = some 's' ∧ unitOf cs = .seconds ∧ numeralOf cs = cs.dropLast) ∨
    ((∀ a ∈ ['h', 'm', 's'], cs.getLast? ≠ some a) ∧ unitOf cs = .millis ∧ numeralOf cs = cs) := by
  unfold numeralOf unitOf
  split
  · rename_i h
    exact Or.inl ⟨h, rfl, rfl⟩
  · rename_i h
    exact Or.inr (Or.inl ⟨h, rfl, rfl⟩)
  · rename_i h
    exact Or.inr (Or.inr (Or.inl ⟨h, rfl, rfl⟩))
  · rename_i hh hm hs
    exact Or.inr (Or.inr (Or.inr ⟨by simpa using ⟨hh, hm, hs⟩, rfl, rfl⟩))

theorem numeralOf_append_suffix (cs : List Char) : numeralOf cs ++ (unitOf cs).suffix = cs := by
  have hlast : ∀ a, cs.getLast? = some a → cs.dropLast ++ [a] = cs := by
    intro a ha
    obtain ⟨x, rfl⟩ := List.getLast?_eq_some_iff.1 ha
    rw [List.dropLast_concat]
  obtain ⟨h, hunit, hnum⟩ | ⟨h, hunit, hnum⟩ | ⟨h, hunit, hnum⟩ | ⟨-, hunit, hnum⟩ :=
    unitOf_cases cs <;> rw [hunit, hnum]
  · exact hlast 'h' h
  · exact hlast 'm' h
  · exact hlast 's' h
  · exact List.append_nil cs

/-- Digits are followed by no unit of their own. -/
theorem unitOf_eq (hds : IsDigits ds) (sign : List Char) (u : DurationUnit) :
    unitOf (sign ++ ds ++ u.suffix) = u := by
  cases u with
  | hours => simp [unitOf, DurationUnit.suffix]
  | minutes => simp [unitOf, DurationUnit.suffix]
  | seconds => simp [unitOf, DurationUnit.suffix]
  | millis =>
    have hlast : ∃ c, ds.getLast? = some c ∧ c.isDigit = true := by
      refine ⟨ds.getLast hds.1, List.getLast?_eq_some_getLast hds.1, ?_⟩
      exact hds.2 _ (List.getLast_mem hds.1)
    obtain ⟨c, hc, hdigit⟩ := hlast
    have hnone : c ≠ 'h' ∧ c ≠ 'm' ∧ c ≠ 's' := by
      refine ⟨?_, ?_, ?_⟩ <;> (rintro rfl; exact absurd hdigit (by decide))
    simp [unitOf, DurationUnit.suffix, List.getLast?_append_of_ne_nil _ hds.1, hc, hnone]

namespace ReadAs

variable {sign sign' ds' : List Char} {u u' : DurationUnit}

theorem unitOf_eq (h : ReadAs cs sign ds u) : unitOf cs = u := by
  rw [h.text]
  exact Mybro.unitOf_eq h.digits sign u

theorem numeralOf_eq (h : ReadAs cs sign ds u) : numeralOf cs = sign ++ ds := by
  have hsplit := (numeralOf_append_suffix cs).trans h.text
  rw [h.unitOf_eq] at hsplit
  exact List.append_cancel_right hsplit

theorem parse_eq (h : ReadAs cs sign ds u) :
    parseU64 (numeralOf cs) = some (UInt64.ofNat (numberOf ds)) := by
  rw [h.numeralOf_eq]
  exact parseU64_eq_some_iff.2 ⟨sign, ds, h.isSign, rfl, h.digits, h.word, rfl⟩

/-- A text is read in one way. -/
theorem unique (h : ReadAs cs sign ds u) (h' : ReadAs cs sign' ds' u') :
    sign = sign' ∧ ds = ds' ∧ u = u' := by
  have hnumeral : sign ++ ds = sign' ++ ds' := h.numeralOf_eq.symm.trans h'.numeralOf_eq
  have hunit : u = u' := h.unitOf_eq.symm.trans h'.unitOf_eq
  rcases h.isSign with rfl | rfl <;> rcases h'.isSign with rfl | rfl
  · exact ⟨rfl, hnumeral, hunit⟩
  · exact absurd hnumeral h.digits.ne_plus
  · exact absurd hnumeral.symm h'.digits.ne_plus
  · exact ⟨rfl, List.append_cancel_left hnumeral, hunit⟩

theorem of_parse {n : UInt64} (h : parseU64 (numeralOf cs) = some n) :
    ∃ sign ds, ReadAs cs sign ds (unitOf cs) ∧ n = UInt64.ofNat (numberOf ds) := by
  obtain ⟨sign, ds, hsign, htext, hdigits, hword, hn⟩ := parseU64_eq_some_iff.1 h
  refine ⟨sign, ds, ⟨hsign, ?_, hdigits, hword⟩, hn⟩
  rw [← htext]
  exact (numeralOf_append_suffix cs).symm

theorem of_denotes {d : ℕ} (h : Denotes cs d) :
    ∃ ds u, ReadAs cs [] ds u ∧ d = numberOf ds * u.count.toNat * u.base := by
  obtain ⟨ds, u, htext, hdigits, hfits, hd⟩ := h
  have hcount : 1 ≤ u.count.toNat := by cases u <;> decide
  exact ⟨ds, u, ⟨Or.inl rfl, htext, hdigits,
    (Nat.le_mul_of_pos_right (numberOf ds) hcount).trans_lt hfits⟩, hd⟩

end ReadAs

end

/-! ### What the runs compute -/

section

variable (text : String)

/-- The run without checks. -/
theorem parseDuration_eq :
    parseDuration text =
      match parseU64 (numeralOf (Utf8.trim text).toList) with
      | some n => (n * (unitOf (Utf8.trim text).toList).count).toNat *
          (unitOf (Utf8.trim text).toList).base
      | none => 0 := by
  obtain ⟨h, hunit, hnum⟩ | ⟨h, hunit, hnum⟩ | ⟨h, hunit, hnum⟩ | ⟨h, hunit, hnum⟩ :=
    unitOf_cases (Utf8.trim text).toList <;> rw [hunit, hnum] <;> unfold parseDuration
  · simp only [h]
    cases parseU64 (Utf8.trim text).toList.dropLast with
    | none => rfl
    | some n => simp only [seconds, DurationUnit.count, DurationUnit.base]
  · simp only [h]
    cases parseU64 (Utf8.trim text).toList.dropLast with
    | none => rfl
    | some n => simp only [seconds, DurationUnit.count, DurationUnit.base]
  · simp only [h]
    cases parseU64 (Utf8.trim text).toList.dropLast with
    | none => rfl
    | some n => simp only [seconds, DurationUnit.count, DurationUnit.base]
  · simp only [DurationUnit.count, DurationUnit.base, mul_one]
    split
    · rename_i hlast
      rw [List.getLast?_eq_none_iff.1 hlast]
      rfl
    · rename_i hlast
      exact absurd hlast (h 'h' (by simp))
    · rename_i hlast
      exact absurd hlast (h 'm' (by simp))
    · rename_i hlast
      exact absurd hlast (h 's' (by simp))
    · cases parseU64 (Utf8.trim text).toList <;> rfl

/-- The bytes before an ASCII character at the end. -/
theorem sliceTo_len_sub_one {s : String} {a : Char} (ha : Utf8.isAscii a = true)
    (hlast : s.toList.getLast? = some a) :
    Utf8.sliceTo s (Utf8.len s - 1) = some (String.ofList s.toList.dropLast) := by
  obtain ⟨x, hx⟩ := List.getLast?_eq_some_iff.1 hlast
  have hlen : Utf8.len s - 1 = Utf8.byteLen x := by
    rw [Utf8.len, hx, Utf8.byteLen_append, Utf8.byteLen_singleton ha, Nat.add_sub_cancel]
  rw [hlen, Utf8.sliceTo_eq hx, hx, List.dropLast_concat]

theorem checkedInUnit_eq {s : String} {a : Char} (ha : Utf8.isAscii a = true)
    (hlast : s.toList.getLast? = some a) (mult : UInt64) :
    checkedInUnit s mult =
      match parseU64 s.toList.dropLast with
      | some n => (Checked.mul n mult).map fun secs => seconds secs.toNat
      | none => some 0 := by
  unfold checkedInUnit
  rw [sliceTo_len_sub_one ha hlast, Option.bind_eq_bind, Option.bind_some, String.toList_ofList]

/-- The run with its checks. -/
theorem parseDurationChecked_eq :
    parseDurationChecked text =
      match parseU64 (numeralOf (Utf8.trim text).toList) with
      | some n => (Checked.mul n (unitOf (Utf8.trim text).toList).count).map fun product =>
          product.toNat * (unitOf (Utf8.trim text).toList).base
      | none => some 0 := by
  obtain ⟨h, hunit, hnum⟩ | ⟨h, hunit, hnum⟩ | ⟨h, hunit, hnum⟩ | ⟨h, hunit, hnum⟩ :=
    unitOf_cases (Utf8.trim text).toList <;> rw [hunit, hnum] <;> unfold parseDurationChecked
  · simp only [(Utf8.getLast?_encode rfl).2 h]
    rw [if_pos trivial, checkedInUnit_eq rfl h]
    cases parseU64 (Utf8.trim text).toList.dropLast <;> rfl
  · simp only [(Utf8.getLast?_encode rfl).2 h]
    rw [if_neg (by decide), if_pos trivial, checkedInUnit_eq rfl h]
    cases parseU64 (Utf8.trim text).toList.dropLast <;> rfl
  · simp only [(Utf8.getLast?_encode rfl).2 h]
    rw [if_neg (by decide), if_neg (by decide), if_pos trivial, checkedInUnit_eq rfl h]
    cases parseU64 (Utf8.trim text).toList.dropLast <;> rfl
  · have hbyte : ∀ a ∈ ['h', 'm', 's'],
        (Utf8.encode (Utf8.trim text)).getLast? ≠ some (UInt8.ofNat a.toNat) := by
      intro a ha hlast
      have hascii : ∀ a ∈ ['h', 'm', 's'], Utf8.isAscii a = true := List.all_eq_true.1 rfl
      exact h a ha ((Utf8.getLast?_encode (hascii a ha)).1 hlast)
    have hmul : ∀ n : UInt64, Checked.mul n DurationUnit.millis.count = some n := by
      intro n
      have hfits : n.toNat * (1 : UInt64).toNat < 2 ^ 64 := by
        rw [UInt64.toNat_one, mul_one]
        exact n.toNat_lt
      rw [DurationUnit.count, Checked.mul_of_fits hfits, mul_one]
    simp only [hmul]
    split
    · rename_i hlast
      have hempty : Utf8.trim text = "" := Utf8.encode_injective (List.getLast?_eq_none_iff.1 hlast)
      rw [hempty]
      rfl
    · rename_i last hlast
      have hne : ∀ a ∈ ['h', 'm', 's'], last ≠ UInt8.ofNat a.toNat := by
        rintro a ha rfl
        exact hbyte a ha hlast
      rw [if_neg (hne 'h' (by simp)), if_neg (hne 'm' (by simp)), if_neg (hne 's' (by simp))]
      cases parseU64 (Utf8.trim text).toList <;> rfl

end

/-! ### When the result is exact -/

section

variable {text : String} {sign ds : List Char} {u : DurationUnit}

/-- The run with its checks goes through exactly when the product fits. -/
theorem ReadAs.isSome_checked_iff (h : ReadAs (Utf8.trim text).toList sign ds u) :
    (∃ d, parseDurationChecked text = some d) ↔ numberOf ds * u.count.toNat < 2 ^ 64 := by
  have hnumber : (UInt64.ofNat (numberOf ds)).toNat = numberOf ds :=
    UInt64.toNat_ofNat_of_lt' h.word
  rw [parseDurationChecked_eq, h.parse_eq, h.unitOf_eq]
  constructor
  · rintro ⟨d, hd⟩
    obtain ⟨product, hproduct, -⟩ := Option.map_eq_some_iff.1 hd
    have hfits := (Checked.mul_eq_some_iff.1 hproduct).1
    rwa [hnumber] at hfits
  · intro hfits
    simp only
    rw [Checked.mul_of_fits (by rwa [hnumber])]
    exact ⟨_, rfl⟩

/-- A product that fits is the result of both runs. -/
theorem ReadAs.runs_eq (h : ReadAs (Utf8.trim text).toList sign ds u)
    (hfits : numberOf ds * u.count.toNat < 2 ^ 64) :
    parseDuration text = numberOf ds * u.count.toNat * u.base ∧
      parseDurationChecked text = some (parseDuration text) := by
  have hnumber : (UInt64.ofNat (numberOf ds)).toNat = numberOf ds :=
    UInt64.toNat_ofNat_of_lt' h.word
  have hword : (UInt64.ofNat (numberOf ds)).toNat * u.count.toNat < 2 ^ 64 := by rwa [hnumber]
  rw [parseDurationChecked_eq, parseDuration_eq, h.parse_eq, h.unitOf_eq]
  simp only
  rw [Checked.mul_of_fits hword, Checked.toNat_mul hword, hnumber]
  exact ⟨rfl, by rw [Option.map_some, Checked.toNat_mul hword, hnumber]⟩

/-- Without a plus sign before it, a number whose product fits is the duration of the text. -/
theorem ReadAs.denotes (h : ReadAs (Utf8.trim text).toList [] ds u)
    (hfits : numberOf ds * u.count.toNat < 2 ^ 64) :
    Denotes (Utf8.trim text).toList (numberOf ds * u.count.toNat * u.base) :=
  ⟨ds, u, h.text, h.digits, hfits, rfl⟩

/-- **A text in which a number is read.** -/
theorem ReadAs.exact_iff (h : ReadAs (Utf8.trim text).toList sign ds u) :
    DurationExact text ↔
      numberOf ds * u.count.toNat < 2 ^ 64 ∧ (sign = ['+'] → numberOf ds = 0) := by
  constructor
  · intro hexact
    have hfits := h.isSome_checked_iff.1 ⟨_, hexact.runs⟩
    refine ⟨hfits, ?_⟩
    rintro rfl
    have hnone : ∀ d, ¬ Denotes (Utf8.trim text).toList d := by
      intro d hd
      obtain ⟨ds', u', h', -⟩ := ReadAs.of_denotes hd
      exact absurd (h.unique h').1 (by decide)
    have hzero := hexact.zero hnone
    rw [(h.runs_eq hfits).1] at hzero
    have hcount : u.count.toNat ≠ 0 := by cases u <;> decide
    have hbase : u.base ≠ 0 := by cases u <;> decide
    simpa [hcount, hbase] using hzero
  · rintro ⟨hfits, hplus⟩
    obtain ⟨hvalue, hruns⟩ := h.runs_eq hfits
    refine ⟨hruns, fun d hd => ?_, fun hnone => ?_⟩
    · obtain ⟨ds', u', h', rfl⟩ := ReadAs.of_denotes hd
      obtain ⟨-, rfl, rfl⟩ := h.unique h'
      exact hvalue
    · rcases h.isSign with rfl | rfl
      · exact absurd (h.denotes hfits) (hnone _)
      · rw [hvalue, hplus rfl, Nat.zero_mul, Nat.zero_mul]

/-- A text in which no number is read gives 0. -/
theorem exact_of_not_readAs (h : ∀ sign ds u, ¬ ReadAs (Utf8.trim text).toList sign ds u) :
    DurationExact text := by
  have hnone : parseU64 (numeralOf (Utf8.trim text).toList) = none := by
    rw [Option.eq_none_iff_forall_ne_some]
    intro n hn
    obtain ⟨sign, ds, hread, -⟩ := ReadAs.of_parse hn
    exact h sign ds _ hread
  have hzero : parseDuration text = 0 := by rw [parseDuration_eq, hnone]
  refine ⟨by rw [parseDurationChecked_eq, hnone, hzero], fun d hd => ?_, fun _ => hzero⟩
  obtain ⟨ds, u, hread, -⟩ := ReadAs.of_denotes hd
  exact absurd hread (h [] ds u)

end

/-- **A text gives the duration it denotes, with nothing wrapped, exactly when** the product of its
number and its unit fits and it has no plus sign before a number other than 0; no slice is taken
inside a character, whatever the text. -/
theorem parseDuration_exact_iff (text : String) :
    (DurationExact text ↔ DurationFits text) ∧
      ∀ a ∈ ['h', 'm', 's'], (Utf8.encode (Utf8.trim text)).getLast? = some (UInt8.ofNat a.toNat) →
        Utf8.IsBoundary (Utf8.trim text).toList (Utf8.len (Utf8.trim text) - 1) := by
  constructor
  · by_cases hread : ∃ sign ds u, ReadAs (Utf8.trim text).toList sign ds u
    · obtain ⟨sign, ds, u, h⟩ := hread
      rw [h.exact_iff]
      constructor
      · intro hfits sign' ds' u' h'
        obtain ⟨rfl, rfl, rfl⟩ := h.unique h'
        exact hfits
      · intro hfits
        exact hfits sign ds u h
    · push Not at hread
      exact iff_of_true (exact_of_not_readAs hread) fun sign ds u h => absurd h (hread sign ds u)
  · intro a ha hlast
    have hascii : Utf8.isAscii a = true := by
      simp only [List.mem_cons, List.not_mem_nil, or_false] at ha
      rcases ha with rfl | rfl | rfl <;> rfl
    exact Utf8.sliceTo_isSome_iff.1
      ⟨_, sliceTo_len_sub_one hascii ((Utf8.getLast?_encode hascii).1 hlast)⟩

/-- The result for fifteen minutes with white space around them. -/
theorem parseDuration_exact_minutes :
    DurationExact " 15m\n" ∧ parseDuration " 15m\n" = seconds 900 := by
  have hread : ReadAs (Utf8.trim " 15m\n").toList [] ['1', '5'] .minutes :=
    ⟨Or.inl rfl, by decide, ⟨by decide, List.all_eq_true.1 rfl⟩, by decide⟩
  refine ⟨(parseDuration_exact_iff _).1.2 fun sign ds u h => ?_, by decide⟩
  obtain ⟨rfl, rfl, rfl⟩ := hread.unique h
  decide

/-- A plus sign is let through, and a number of hours wraps. -/
theorem plus_sign_accepted_and_hours_wrap :
    (parseDuration "+5s" = seconds 5 ∧ ¬ DurationExact "+5s") ∧
      parseDuration "18446744073709551615h" = seconds 18446744073709548016 ∧
      ¬ DurationExact "18446744073709551615h" := by
  have hplus : ReadAs (Utf8.trim "+5s").toList ['+'] ['5'] .seconds :=
    ⟨Or.inr rfl, by decide, ⟨by decide, List.all_eq_true.1 rfl⟩, by decide⟩
  have hhours : ReadAs (Utf8.trim "18446744073709551615h").toList []
      "18446744073709551615".toList .hours :=
    ⟨Or.inl rfl, by decide, ⟨by decide, List.all_eq_true.1 rfl⟩, by decide⟩
  refine ⟨⟨by decide, fun h => ?_⟩, by decide, fun h => ?_⟩
  · exact absurd ((hplus.exact_iff.1 h).2 rfl) (by decide)
  · exact absurd (hhours.exact_iff.1 h).1 (by decide)

end Mybro
