import Mathlib.Data.List.TakeWhile
import Mathlib.Tactic

/-!
# JSON texts

A reader of JSON texts (RFC 8259) over lists of characters. It yields the tree of a text, with its
numbers and strings as they are written.

* `readValue`: one value from the front, with what is left; `IsJson` is a whole text;
* `readValue_spec`: what has been read is a `Word`, and it is read again in front of anything else
  that does not go on with a number;
* `readValue_mono`: the fuel does not change what is read, and `readValue_enough`: the length of
  the text tells how much is enough; so `parse` decides what is a JSON text;
* `IsJson.gap_of_append`: so a JSON text that goes on with white space after a JSON text goes on
  with nothing else;
* `IsJson.linesStart`: every line of a JSON text begins the way a token does.
-/

namespace JsonSyntax

/-- The tree of a JSON text. -/
inductive Tree
  | null
  | bool (b : Bool)
  | number (lexeme : List Char)
  | string (lexeme : List Char)
  | array (xs : List Tree)
  | object (ms : List (List Char × Tree))

/-! ### Tokens -/

/-- White space. -/
def isWs (c : Char) : Bool := c = ' ' || c = '\t' || c = '\n' || c = '\r'

/-- The characters that end a line. -/
def isBreak (c : Char) : Bool := c = '\n' || c = '\r'

/-- Without white space in front. -/
def skipWs (cs : List Char) : List Char := cs.dropWhile isWs

/-- The rest after some characters. -/
def expect : List Char → List Char → Option (List Char)
  | [], cs => some cs
  | _ :: _, [] => none
  | p :: ps, c :: cs => if c = p then expect ps cs else none

/-- The characters of numbers. -/
def isNumberChar (c : Char) : Bool :=
  c.isDigit || c = '-' || c = '+' || c = '.' || c = 'e' || c = 'E'

/-- The exponent of a number, if there is one. -/
def isExponent : List Char → Bool
  | [] => true
  | c :: cs =>
    (c = 'e' || c = 'E') &&
      let digits := if cs.head? = some '+' ∨ cs.head? = some '-' then cs.tail else cs
      !digits.isEmpty && digits.all Char.isDigit

/-- The fraction and the exponent of a number, if there are any. -/
def isFraction : List Char → Bool
  | [] => true
  | c :: cs =>
    if c = '.' then !(cs.takeWhile Char.isDigit).isEmpty && isExponent (cs.dropWhile Char.isDigit)
    else isExponent (c :: cs)

/-- A number without its sign: no zero is in front of another digit. -/
def isUnsigned : List Char → Bool
  | [] => false
  | c :: cs =>
    if c = '0' then isFraction cs else c.isDigit && isFraction (cs.dropWhile Char.isDigit)

/-- A number. -/
def isNumber : List Char → Bool
  | [] => false
  | c :: cs => if c = '-' then isUnsigned cs else isUnsigned (c :: cs)

/-- Where in a string: between two characters, after a backslash, or in front of the last `n + 1` of
four hexadecimal digits. -/
inductive StringState
  | plain
  | escape
  | hex (n : ℕ)
  deriving DecidableEq

/-- The characters that a backslash may stand in front of, but for `u`. -/
def escapes : List Char := ['"', '\\', '/', 'b', 'f', 'n', 'r', 't']

def isHex (c : Char) : Bool :=
  c.isDigit || ('a' ≤ c && c ≤ 'f') || ('A' ≤ c && c ≤ 'F')

/-- The value of a hexadecimal digit. -/
def hexValue (c : Char) : ℕ :=
  if c.isDigit then c.toNat - 48 else if c.toNat < 97 then c.toNat - 55 else c.toNat - 87

/-- One character of a string; control characters are none. -/
def StringState.next : StringState → Char → Option StringState
  | plain, c => if c = '\\' then some escape else if c.toNat < 0x20 then none else some plain
  | escape, c => if c = 'u' then some (hex 3) else if c ∈ escapes then some plain else none
  | hex n, c => if isHex c then some (if n = 0 then plain else hex (n - 1)) else none

/-- The rest of a string up to its closing quote, and what is left. -/
def readChars : StringState → List Char → Option (List Char × List Char)
  | _, [] => none
  | st, c :: cs =>
    if st = .plain ∧ c = '"' then some ([], cs)
    else (st.next c).bind fun st' => (readChars st' cs).map fun p => (c :: p.1, p.2)

/-! ### Values -/

/-- What follows an opening bracket: the closing one, or the first entry and so on. -/
def readBody {α : Type} (close : Char) (entries : List Char → Option (List α × List Char))
    (cs : List Char) : Option (List α × List Char) :=
  match expect [close] (skipWs cs) with
  | some rest => some ([], rest)
  | none => entries (skipWs cs)

/-- What follows an entry: a comma and the next one, or the closing bracket. -/
def readTail {α : Type} (close : Char) (entries : List Char → Option (List α × List Char)) (x : α)
    (cs : List Char) : Option (List α × List Char) :=
  match expect [','] (skipWs cs) with
  | some rest => (entries (skipWs rest)).map fun p => (x :: p.1, p.2)
  | none => (expect [close] (skipWs cs)).map fun rest => ([x], rest)

mutual

/-- One value, and what is left. -/
def readValue : ℕ → List Char → Option (Tree × List Char)
  | 0, _ => none
  | _ + 1, [] => none
  | fuel + 1, c :: cs =>
    if c = '"' then (readChars .plain cs).map fun p => (.string p.1, p.2)
    else if c = '[' then
      (readBody ']' (readElements fuel) cs).map fun p => (.array p.1, p.2)
    else if c = '\x7b' then
      (readBody '\x7d' (readMembers fuel) cs).map fun p => (.object p.1, p.2)
    else if c = 'n' then (expect ['u', 'l', 'l'] cs).map fun rest => (.null, rest)
    else if c = 't' then (expect ['r', 'u', 'e'] cs).map fun rest => (.bool true, rest)
    else if c = 'f' then (expect ['a', 'l', 's', 'e'] cs).map fun rest => (.bool false, rest)
    else if isNumber ((c :: cs).takeWhile isNumberChar) then
      some (.number ((c :: cs).takeWhile isNumberChar), (c :: cs).dropWhile isNumberChar)
    else none
termination_by structural fuel => fuel

/-- The elements of an array, from its first one to the closing bracket. -/
def readElements : ℕ → List Char → Option (List Tree × List Char)
  | 0, _ => none
  | fuel + 1, cs => (readValue fuel cs).bind fun p => readTail ']' (readElements fuel) p.1 p.2
termination_by structural fuel => fuel

/-- The members of an object, from its first one to the closing brace. -/
def readMembers : ℕ → List Char → Option (List (List Char × Tree) × List Char)
  | 0, _ => none
  | fuel + 1, cs =>
    (expect ['"'] cs).bind fun cs => (readChars .plain cs).bind fun key =>
      (expect [':'] (skipWs key.2)).bind fun cs => (readValue fuel (skipWs cs)).bind fun p =>
        readTail '\x7d' (readMembers fuel) (key.1, p.1) p.2
termination_by structural fuel => fuel

end

theorem readValue_string (fuel : ℕ) (cs : List Char) :
    readValue (fuel + 1) ('"' :: cs) = (readChars .plain cs).map fun p => (.string p.1, p.2) := by
  simp [readValue]

theorem readValue_array (fuel : ℕ) (cs : List Char) :
    readValue (fuel + 1) ('[' :: cs) =
      (readBody ']' (readElements fuel) cs).map fun p => (.array p.1, p.2) := by
  simp [readValue]

theorem readValue_object (fuel : ℕ) (cs : List Char) :
    readValue (fuel + 1) ('\x7b' :: cs) =
      (readBody '\x7d' (readMembers fuel) cs).map fun p => (.object p.1, p.2) := by
  simp [readValue]

theorem readValue_null (fuel : ℕ) (cs : List Char) :
    readValue (fuel + 1) ('n' :: cs) =
      (expect ['u', 'l', 'l'] cs).map fun rest => (.null, rest) := by
  simp [readValue]

theorem readValue_true (fuel : ℕ) (cs : List Char) :
    readValue (fuel + 1) ('t' :: cs) =
      (expect ['r', 'u', 'e'] cs).map fun rest => (.bool true, rest) := by
  simp [readValue]

theorem readValue_false (fuel : ℕ) (cs : List Char) :
    readValue (fuel + 1) ('f' :: cs) =
      (expect ['a', 'l', 's', 'e'] cs).map fun rest => (.bool false, rest) := by
  simp [readValue]

/-- The first characters of the values that are no numbers. -/
def valueStarts : List Char := ['"', '[', '\x7b', 'n', 't', 'f']

theorem readValue_number {c : Char} (hc : c ∉ valueStarts) (fuel : ℕ) (cs : List Char) :
    readValue (fuel + 1) (c :: cs) =
      if isNumber ((c :: cs).takeWhile isNumberChar) then
        some (.number ((c :: cs).takeWhile isNumberChar), (c :: cs).dropWhile isNumberChar)
      else none := by
  simp only [valueStarts, List.mem_cons, List.not_mem_nil, or_false, not_or] at hc
  obtain ⟨hquote, harray, hobject, hnull, htrue, hfalse⟩ := hc
  rw [readValue, if_neg hquote, if_neg harray, if_neg hobject, if_neg hnull, if_neg htrue,
    if_neg hfalse]

/-- Only white space. -/
def Gap (cs : List Char) : Prop := ∀ c ∈ cs, isWs c = true

instance : DecidablePred Gap := fun _ => decidable_of_iff _ List.all_eq_true

/-- A JSON text: one value, with white space around it. -/
def IsJson (text : List Char) (t : Tree) : Prop :=
  ∃ fuel rest, readValue fuel (skipWs text) = some (t, rest) ∧ Gap rest

theorem exists_isJson {text : List Char} (fuel : ℕ)
    (h : (readValue fuel (skipWs text)).any (fun p => Gap p.2) = true) : ∃ t, IsJson text t := by
  cases hread : readValue fuel (skipWs text) with
  | none =>
    rw [hread, Option.any_none] at h
    cases h
  | some p =>
    rw [hread, Option.any_some, decide_eq_true_eq] at h
    exact ⟨p.1, fuel, p.2, hread, h⟩

example : (readValue 4 "[\"\\u00e9\", -1.5e+3]\n".toList).any (fun p => Gap p.2) = true := by
  decide +kernel

example : readValue 4 "[01]".toList = none ∧ readValue 4 "[1,]".toList = none ∧
    readValue 4 "\"\n\"".toList = none := by
  simp only [← Option.isNone_iff_eq_none]
  decide +kernel

/-! ### Words -/

/-- The characters that a token begins with, and white space. -/
def isStart (c : Char) : Bool :=
  isWs c || c.isDigit || c ∈ ['"', '[', ']', '\x7b', '\x7d', ',', ':', '-', 'n', 't', 'f']

/-- Every line after the first one is empty or begins with the start of a token or white space. -/
def LinesStart (cs : List Char) : Prop := cs.IsChain fun a b => isBreak a = true → isStart b = true

/-- A piece of a JSON text between white space. -/
structure Word (cs : List Char) : Prop where
  head : ∃ c rest, cs = c :: rest ∧ isStart c = true ∧ isWs c = false
  last : ∀ c ∈ cs.getLast?, isWs c = false
  lines : LinesStart cs

theorem isWs_of_isBreak {c : Char} (h : isBreak c = true) : isWs c = true := by
  simp only [isBreak, isWs, Bool.or_eq_true, decide_eq_true_eq] at h ⊢
  tauto

theorem isStart_of_isWs {c : Char} (h : isWs c = true) : isStart c = true := by
  simp [isStart, h]

theorem Gap.append {a b : List Char} (ha : Gap a) (hb : Gap b) : Gap (a ++ b) :=
  fun c hc => (List.mem_append.1 hc).elim (ha c) (hb c)

theorem Gap.left {a b : List Char} (h : Gap (a ++ b)) : Gap a :=
  fun c hc => h c (List.mem_append_left b hc)

theorem Gap.right {a b : List Char} (h : Gap (a ++ b)) : Gap b :=
  fun c hc => h c (List.mem_append_right a hc)

/-- The white space in front. -/
theorem exists_gap (cs : List Char) : ∃ w, Gap w ∧ w ++ skipWs cs = cs :=
  ⟨cs.takeWhile isWs, fun _ hc => List.mem_takeWhile_imp hc, List.takeWhile_append_dropWhile⟩

theorem skipWs_append {w : List Char} (hw : Gap w) (cs : List Char) :
    skipWs (w ++ cs) = skipWs cs :=
  List.dropWhile_append_of_pos hw

theorem skipWs_cons {c : Char} (hc : isWs c = false) (cs : List Char) :
    skipWs (c :: cs) = c :: cs :=
  List.dropWhile_cons_of_neg (by simp [hc])

theorem Word.skipWs {cs : List Char} (h : Word cs) (rest : List Char) :
    skipWs (cs ++ rest) = cs ++ rest := by
  obtain ⟨c, cs, rfl, -, hc⟩ := h.head
  exact skipWs_cons hc _

theorem Gap.linesStart {w : List Char} (hw : Gap w) : LinesStart w := by
  refine List.isChain_iff_forall_rel_of_append_cons_cons.2 ?_
  rintro a b l₁ l₂ rfl -
  exact isStart_of_isWs (hw b (by simp))

theorem linesStart_of_noBreak {cs : List Char} (h : ∀ c ∈ cs, isBreak c = false) :
    LinesStart cs := by
  refine List.isChain_iff_forall_rel_of_append_cons_cons.2 ?_
  rintro a b l₁ l₂ rfl ha
  rw [h a (by simp)] at ha
  cases ha

/-- What follows white space and begins like a line may follow anything. -/
theorem LinesStart.append {a b : List Char} (ha : LinesStart a) (hb : LinesStart b)
    (hhead : ∀ c ∈ b.head?, isStart c = true) : LinesStart (a ++ b) :=
  List.IsChain.append ha hb fun _ _ c hc _ => hhead c hc

theorem Word.isStart_head {cs : List Char} (h : Word cs) : ∀ c ∈ cs.head?, isStart c = true := by
  obtain ⟨c, cs, rfl, hc, -⟩ := h.head
  rintro _ ⟨⟩
  exact hc

theorem Gap.isStart_head {w : List Char} (hw : Gap w) : ∀ c ∈ w.head?, isStart c = true :=
  fun c hc => isStart_of_isWs (hw c (List.mem_of_mem_head? hc))

/-- A word without a line break. -/
theorem word_of_noBreak {c : Char} {cs : List Char} (hc : isStart c = true)
    (hws : isWs c = false) (hcs : ∀ d ∈ cs, isBreak d = false)
    (hlast : ∀ d ∈ (c :: cs).getLast?, isWs d = false) : Word (c :: cs) where
  head := ⟨c, cs, rfl, hc, hws⟩
  last := hlast
  lines := linesStart_of_noBreak fun d hd => by
    rcases List.mem_cons.1 hd with rfl | hd
    · exact Bool.eq_false_iff.2 fun h => by rw [isWs_of_isBreak h] at hws; cases hws
    · exact hcs d hd

/-- A word without a line break, by computation. -/
theorem word_of_all {c : Char} {cs : List Char} (hc : (isStart c && !isWs c) = true)
    (hcs : (cs.all fun d => !isBreak d) = true)
    (hlast : ((c :: cs).getLast?.all fun d => !isWs d) = true) : Word (c :: cs) := by
  obtain ⟨hstart, hws⟩ := Bool.and_eq_true_iff.1 hc
  refine word_of_noBreak hstart (by simpa using hws) (fun d hd => ?_) fun d hd => ?_
  · simpa using List.all_eq_true.1 hcs d hd
  · rw [Option.mem_def] at hd
    rw [hd, Option.all_some] at hlast
    simpa using hlast

/-- Two words with white space between them. -/
theorem Word.append {a w b : List Char} (ha : Word a) (hw : Gap w) (hb : Word b) :
    Word (a ++ (w ++ b)) where
  head := by
    obtain ⟨c, a, rfl, hc⟩ := ha.head
    exact ⟨c, a ++ (w ++ b), rfl, hc⟩
  last := by
    obtain ⟨c, b, rfl, -⟩ := hb.head
    rw [← List.append_assoc, List.getLast?_append_of_ne_nil _ (by simp)]
    exact hb.last
  lines := by
    refine ha.lines.append (hw.linesStart.append hb.lines hb.isStart_head) fun c hc => ?_
    rw [List.head?_append, Option.mem_def, Option.or_eq_some_iff] at hc
    rcases hc with hc | ⟨-, hc⟩
    · exact hw.isStart_head c hc
    · exact hb.isStart_head c hc

/-! ### What is read -/

theorem expect_eq_some_iff {p cs rest : List Char} :
    expect p cs = some rest ↔ cs = p ++ rest := by
  induction p generalizing cs with
  | nil => simp [expect]
  | cons c p ih =>
    cases cs with
    | nil => simp [expect]
    | cons d cs =>
      simp only [expect]
      split_ifs with hd
      · rw [ih, hd, List.cons_append, List.cons_inj_right]
      · simp [hd]

theorem StringState.isBreak_of_next {st st' : StringState} {c : Char} (h : st.next c = some st') :
    isBreak c = false := by
  refine Bool.eq_false_iff.2 fun hc => ?_
  simp only [isBreak, Bool.or_eq_true, decide_eq_true_eq] at hc
  rcases hc with rfl | rfl <;> cases st <;> cases h

theorem readChars_spec {st : StringState} {cs s rest : List Char}
    (h : readChars st cs = some (s, rest)) :
    cs = s ++ '"' :: rest ∧ (∀ c ∈ s, isBreak c = false) ∧
      ∀ rest', readChars st (s ++ '"' :: rest') = some (s, rest') := by
  induction cs generalizing st s with
  | nil => cases h
  | cons c cs ih =>
    simp only [readChars] at h
    split_ifs at h with hend
    · obtain ⟨rfl, rfl⟩ := hend
      cases h
      exact ⟨rfl, nofun, fun rest' => by simp [readChars]⟩
    · obtain ⟨st', hst', h⟩ := Option.bind_eq_some_iff.1 h
      obtain ⟨⟨s', rest⟩, hread, ⟨⟩⟩ := Option.map_eq_some_iff.1 h
      obtain ⟨rfl, hbreak, hagain⟩ := ih hread
      refine ⟨rfl, ?_, fun rest' => ?_⟩
      · exact List.forall_mem_cons.2 ⟨StringState.isBreak_of_next hst', hbreak⟩
      · simp only [List.cons_append, readChars, if_neg hend, hst', Option.bind_some, hagain,
          Option.map_some]

/-- Whatever does not go on with a number. -/
def Stops (cs : List Char) : Prop := ∀ c ∈ cs.head?, isNumberChar c = false

/-- The function takes a word from the front of `cs`, and again in front of anything else. -/
def Reads {α : Type*} (read : List Char → Option (α × List Char)) (cs : List Char) (x : α)
    (rest : List Char) : Prop :=
  ∃ used, cs = used ++ rest ∧ Word used ∧
    ∀ rest', Stops rest' → read (used ++ rest') = some (x, rest')

theorem isNumberChar_of_isWs {c : Char} (h : isWs c = true) : isNumberChar c = false := by
  simp only [isWs, Bool.or_eq_true, decide_eq_true_eq] at h
  rcases h with ((rfl | rfl) | rfl) | rfl <;> rfl

theorem stops_append {w b : List Char} (hw : Gap w) (hb : Stops b) : Stops (w ++ b) := by
  cases w with
  | nil => exact hb
  | cons c w =>
    rintro _ ⟨⟩
    exact isNumberChar_of_isWs (hw c List.mem_cons_self)

theorem Gap.stops {w : List Char} (hw : Gap w) : Stops w := by
  simpa using stops_append hw (b := []) nofun

theorem Word.stops {cs : List Char} (h : Word cs) (hc : Stops cs) (rest : List Char) :
    Stops (cs ++ rest) := by
  obtain ⟨c, cs, rfl, -⟩ := h.head
  exact hc

/-- The characters between values. -/
def punctuation : List Char := ['[', ']', '\x7b', '\x7d', ',', ':']

theorem word_punctuation {c : Char} (hc : c ∈ punctuation) : Word [c] ∧ Stops [c] := by
  have h : punctuation.all (fun c => isStart c && !isWs c && !isNumberChar c) = true := by decide
  have h' := List.all_eq_true.1 h c hc
  simp only [Bool.and_eq_true, Bool.not_eq_true'] at h'
  obtain ⟨⟨hstart, hws⟩, hnum⟩ := h'
  exact ⟨word_of_noBreak hstart hws nofun (by rintro _ ⟨⟩; exact hws), by rintro _ ⟨⟩; exact hnum⟩

theorem word_string {s : List Char} (hs : ∀ c ∈ s, isBreak c = false) :
    Word ('"' :: (s ++ ['"'])) := by
  refine word_of_noBreak rfl rfl ?_ ?_
  · intro c hc
    rcases List.mem_append.1 hc with hc | hc
    · exact hs c hc
    · rw [List.mem_singleton.1 hc]
      rfl
  · rw [← List.cons_append, List.getLast?_append_of_ne_nil _ (by simp)]
    rintro _ ⟨⟩
    rfl

section entries

variable {α : Type} {entries : List Char → Option (List α × List Char)} {close : Char}
  {cs rest : List Char} {xs : List α}

theorem expect_singleton_append {c : Char} {used : List Char} (h : Word used)
    (hnone : expect [c] (used ++ cs) = none) (rest : List Char) :
    expect [c] (used ++ rest) = none := by
  obtain ⟨d, used, rfl, -⟩ := h.head
  simp only [List.cons_append, expect] at hnone ⊢
  split_ifs at hnone with hd
  rw [if_neg hd]

theorem readBody_spec (hclose : close ∈ punctuation)
    (hentries : ∀ cs xs rest, entries cs = some (xs, rest) → Reads entries cs xs rest)
    (h : readBody close entries cs = some (xs, rest)) :
    ∃ w used, cs = w ++ (used ++ rest) ∧ Gap w ∧ Word used ∧
      ∀ rest', Stops rest' → readBody close entries (w ++ (used ++ rest')) = some (xs, rest') := by
  obtain ⟨w, hw, hcs⟩ := exists_gap cs
  unfold readBody at h
  split at h
  next rest₀ hclosed =>
    cases h
    have hword := (word_punctuation hclose).1
    rw [expect_eq_some_iff] at hclosed
    refine ⟨w, [close], by rw [← hclosed, hcs], hw, hword, fun rest' _ => ?_⟩
    rw [readBody, skipWs_append hw, hword.skipWs, expect_eq_some_iff.2 rfl]
  next hopen =>
    obtain ⟨used, hused, hword, hagain⟩ := hentries _ _ _ h
    rw [hused] at hopen
    refine ⟨w, used, by rw [← hused, hcs], hw, hword, fun rest' hrest' => ?_⟩
    rw [readBody, skipWs_append hw, hword.skipWs, expect_singleton_append hword hopen]
    exact hagain rest' hrest'

theorem readTail_spec (hclose : close ∈ punctuation) (hcomma : close ≠ ',')
    (hentries : ∀ cs xs rest, entries cs = some (xs, rest) → Reads entries cs xs rest) {x : α}
    (h : readTail close entries x cs = some (xs, rest)) :
    ∃ w used, cs = w ++ (used ++ rest) ∧ Gap w ∧ Word used ∧ Stops used ∧ ∀ rest', Stops rest' →
      readTail close entries x (w ++ (used ++ rest')) = some (xs, rest') := by
  obtain ⟨w, hw, hcs⟩ := exists_gap cs
  unfold readTail at h
  split at h
  next rest₀ hsome =>
    obtain ⟨⟨ys, rest⟩, hmore, ⟨⟩⟩ := Option.map_eq_some_iff.1 h
    obtain ⟨hpunct, hstops⟩ := word_punctuation (c := ',') (by decide)
    obtain ⟨used, hused, hword, hagain⟩ := hentries _ _ _ hmore
    obtain ⟨w₀, hw₀, hcs₀⟩ := exists_gap rest₀
    rw [expect_eq_some_iff] at hsome
    refine ⟨w, [','] ++ (w₀ ++ used), ?_, hw, hpunct.append hw₀ hword, hpunct.stops hstops _,
      fun rest' hrest' => ?_⟩
    · rw [← hcs, hsome, ← hcs₀, hused, List.append_assoc, List.append_assoc]
    · rw [readTail, skipWs_append hw, List.append_assoc, hpunct.skipWs, expect_eq_some_iff.2 rfl]
      simp only
      rw [List.append_assoc, skipWs_append hw₀, hword.skipWs, hagain rest' hrest', Option.map_some]
  next hnone =>
    obtain ⟨rest, hclosed, ⟨⟩⟩ := Option.map_eq_some_iff.1 h
    obtain ⟨hword, hstops⟩ := word_punctuation hclose
    rw [expect_eq_some_iff] at hclosed
    refine ⟨w, [close], by rw [← hclosed, hcs], hw, hword, hstops, fun rest' _ => ?_⟩
    have hneq : expect [','] ([close] ++ rest') = none := by simp [expect, hcomma]
    rw [readTail, skipWs_append hw, hword.skipWs, hneq, expect_eq_some_iff.2 rfl]
    rfl

end entries

/-- A number begins with its sign or a digit. -/
theorem isStart_of_isNumber {c : Char} {cs : List Char} (h : isNumber (c :: cs) = true) :
    isStart c = true := by
  simp only [isNumber] at h
  split_ifs at h with hminus
  · rw [hminus]
    rfl
  · simp only [isUnsigned] at h
    split_ifs at h with hzero
    · rw [hzero]
      rfl
    · simp [isStart, (Bool.and_eq_true_iff.1 h).1]

theorem isWs_of_isNumberChar {c : Char} (h : isNumberChar c = true) : isWs c = false :=
  Bool.eq_false_iff.2 fun hws => by
    rw [isNumberChar_of_isWs hws] at h
    cases h

theorem word_number {s : List Char} (hs : isNumber s = true)
    (hchars : ∀ c ∈ s, isNumberChar c = true) : Word s := by
  cases s with
  | nil => cases hs
  | cons c s =>
    have hws := isWs_of_isNumberChar (hchars c List.mem_cons_self)
    refine word_of_noBreak (isStart_of_isNumber hs) hws ?_ ?_
    · intro d hd
      refine Bool.eq_false_iff.2 fun hbreak => ?_
      have hws := isWs_of_isNumberChar (hchars d (List.mem_cons_of_mem c hd))
      rw [isWs_of_isBreak hbreak] at hws
      cases hws
    · exact fun d hd => isWs_of_isNumberChar (hchars d (List.mem_of_getLast? hd))

theorem span_number {s rest : List Char} (hchars : ∀ c ∈ s, isNumberChar c = true)
    (hrest : Stops rest) :
    (s ++ rest).takeWhile isNumberChar = s ∧ (s ++ rest).dropWhile isNumberChar = rest := by
  rw [List.takeWhile_append_of_pos hchars, List.dropWhile_append_of_pos hchars]
  cases rest with
  | nil => simp
  | cons c rest =>
    have hc : ¬ isNumberChar c = true := by simp [hrest c rfl]
    rw [List.takeWhile_cons_of_neg hc, List.dropWhile_cons_of_neg hc, List.append_nil]
    exact ⟨rfl, rfl⟩

/-- What is read of a value at a given fuel is a word, read again in front of anything else. -/
def ReadsValues (fuel : ℕ) : Prop :=
  ∀ cs t rest, readValue fuel cs = some (t, rest) → Reads (readValue fuel) cs t rest

def ReadsElements (fuel : ℕ) : Prop :=
  ∀ cs ts rest, readElements fuel cs = some (ts, rest) → Reads (readElements fuel) cs ts rest

def ReadsMembers (fuel : ℕ) : Prop :=
  ∀ cs ms rest, readMembers fuel cs = some (ms, rest) → Reads (readMembers fuel) cs ms rest

theorem readsElements_succ {fuel : ℕ} (hvalues : ReadsValues fuel)
    (helements : ReadsElements fuel) : ReadsElements (fuel + 1) := by
  intro cs ts rest h
  simp only [readElements] at h
  obtain ⟨⟨t, r⟩, hvalue, htail⟩ := Option.bind_eq_some_iff.1 h
  obtain ⟨v, rfl, hv, hagain⟩ := hvalues _ _ _ hvalue
  obtain ⟨w, used, rfl, hw, hused, hstops, htail'⟩ :=
    readTail_spec (by decide) (by decide) helements htail
  refine ⟨v ++ (w ++ used), by simp only [List.append_assoc], hv.append hw hused,
    fun rest' hrest' => ?_⟩
  have hvalue' := hagain (w ++ (used ++ rest')) (stops_append hw (hused.stops hstops rest'))
  simp only [readElements, List.append_assoc, hvalue', Option.bind_some]
  exact htail' rest' hrest'

theorem readsMembers_succ {fuel : ℕ} (hvalues : ReadsValues fuel) (hmembers : ReadsMembers fuel) :
    ReadsMembers (fuel + 1) := by
  intro cs ms rest h
  simp only [readMembers] at h
  obtain ⟨cs₁, hquote, h⟩ := Option.bind_eq_some_iff.1 h
  obtain ⟨⟨key, r₁⟩, hkey, h⟩ := Option.bind_eq_some_iff.1 h
  obtain ⟨cs₂, hcolon, h⟩ := Option.bind_eq_some_iff.1 h
  obtain ⟨⟨t, r₂⟩, hvalue, htail⟩ := Option.bind_eq_some_iff.1 h
  rw [expect_eq_some_iff] at hquote hcolon
  obtain ⟨rfl, hbreak, hkey'⟩ := readChars_spec hkey
  obtain ⟨v, hcs₂, hv, hagain⟩ := hvalues _ _ _ hvalue
  obtain ⟨w, used, rfl, hw, hused, hstops, htail'⟩ :=
    readTail_spec (by decide) (by decide) hmembers htail
  -- white space stands on both sides of the colon
  obtain ⟨w₁, hw₁, hr₁⟩ := exists_gap r₁
  obtain ⟨w₂, hw₂, hr₂⟩ := exists_gap cs₂
  have hpunct := (word_punctuation (c := ':') (by decide)).1
  refine ⟨'"' :: (key ++ ['"']) ++ (w₁ ++ ([':'] ++ (w₂ ++ (v ++ (w ++ used))))), ?_, ?_,
    fun rest' hrest' => ?_⟩
  · rw [hquote, ← hr₁, hcolon, ← hr₂, hcs₂]
    simp only [List.append_assoc, List.cons_append, List.nil_append]
  · exact (word_string hbreak).append hw₁ (hpunct.append hw₂ (hv.append hw hused))
  · have hvalue' := hagain (w ++ (used ++ rest')) (stops_append hw (hused.stops hstops rest'))
    have hquote' : ∀ cs, expect ['"'] ('"' :: cs) = some cs := fun cs => by simp [expect]
    have hcolon' : ∀ cs, expect [':'] (':' :: cs) = some cs := fun cs => by simp [expect]
    simp only [readMembers, List.append_assoc, List.cons_append, List.nil_append, hquote',
      Option.bind_some, hkey', skipWs_append hw₁, skipWs_cons (c := ':') rfl, hcolon',
      skipWs_append hw₂, hv.skipWs, hvalue']
    exact htail' rest' hrest'

/-- A bracket and what follows it. -/
theorem reads_body {α : Type} {open' close : Char}
    {entries : List Char → Option (List α × List Char)} {make : List α → Tree}
    {read : List Char → Option (Tree × List Char)}
    (hread : ∀ cs, read (open' :: cs) =
      (readBody close entries cs).map fun p => (make p.1, p.2))
    (hopen : open' ∈ punctuation) (hclose : close ∈ punctuation)
    (hentries : ∀ cs xs rest, entries cs = some (xs, rest) → Reads entries cs xs rest)
    {cs rest : List Char} {t : Tree} (h : read (open' :: cs) = some (t, rest)) :
    Reads read (open' :: cs) t rest := by
  rw [hread] at h
  obtain ⟨⟨xs, rest⟩, hbody, ⟨⟩⟩ := Option.map_eq_some_iff.1 h
  obtain ⟨w, used, rfl, hw, hused, hagain⟩ := readBody_spec hclose hentries hbody
  refine ⟨[open'] ++ (w ++ used), by simp, (word_punctuation hopen).1.append hw hused,
    fun rest' hrest' => ?_⟩
  rw [List.append_assoc, List.singleton_append, hread, List.append_assoc, hagain rest' hrest',
    Option.map_some]

/-- A literal. -/
theorem reads_literal {c : Char} {cs word rest : List Char} {t u : Tree}
    {read : List Char → Option (Tree × List Char)}
    (hread : ∀ cs, read (c :: cs) = (expect word cs).map fun rest => (u, rest))
    (hword : Word (c :: word)) (h : read (c :: cs) = some (t, rest)) :
    Reads read (c :: cs) t rest := by
  rw [hread] at h
  obtain ⟨rest, hexpect, ⟨⟩⟩ := Option.map_eq_some_iff.1 h
  rw [expect_eq_some_iff] at hexpect
  subst hexpect
  exact ⟨c :: word, rfl, hword, fun rest' _ => by
    rw [List.cons_append, hread, expect_eq_some_iff.2 rfl, Option.map_some]⟩

theorem reads_number {c : Char} {cs rest : List Char} {t : Tree} {fuel : ℕ}
    (hc : c ∉ valueStarts) (h : readValue (fuel + 1) (c :: cs) = some (t, rest)) :
    Reads (readValue (fuel + 1)) (c :: cs) t rest := by
  rw [readValue_number hc] at h
  split_ifs at h with hnumber
  cases h
  have hchars : ∀ d ∈ (c :: cs).takeWhile isNumberChar, isNumberChar d = true :=
    fun d hd => List.mem_takeWhile_imp hd
  have hsplit := List.takeWhile_append_dropWhile (p := isNumberChar) (l := c :: cs)
  generalize (c :: cs).takeWhile isNumberChar = s at hnumber hchars hsplit
  refine ⟨s, hsplit.symm, word_number hnumber hchars, fun rest' hrest' => ?_⟩
  cases s with
  | nil => cases hnumber
  | cons d s =>
    obtain ⟨rfl, -⟩ := List.cons_eq_cons.1 hsplit
    obtain ⟨htake, hdrop⟩ := span_number hchars hrest'
    rw [List.cons_append] at htake hdrop ⊢
    rw [readValue_number hc, htake, hdrop, if_pos hnumber]

theorem reads_string {cs rest : List Char} {t : Tree} {fuel : ℕ}
    (h : readValue (fuel + 1) ('"' :: cs) = some (t, rest)) :
    Reads (readValue (fuel + 1)) ('"' :: cs) t rest := by
  rw [readValue_string] at h
  obtain ⟨⟨s, rest⟩, hs, ⟨⟩⟩ := Option.map_eq_some_iff.1 h
  obtain ⟨rfl, hbreak, hagain⟩ := readChars_spec hs
  refine ⟨'"' :: (s ++ ['"']), by simp, word_string hbreak, fun rest' _ => ?_⟩
  rw [List.cons_append, readValue_string, List.append_assoc, List.singleton_append, hagain,
    Option.map_some]

theorem readsValues_succ {fuel : ℕ} (helements : ReadsElements fuel)
    (hmembers : ReadsMembers fuel) : ReadsValues (fuel + 1) := by
  intro cs t rest h
  cases cs with
  | nil => cases h
  | cons c cs =>
    by_cases hc : c ∈ valueStarts
    · simp only [valueStarts, List.mem_cons, List.not_mem_nil, or_false] at hc
      rcases hc with rfl | rfl | rfl | rfl | rfl | rfl
      · exact reads_string h
      · exact reads_body (readValue_array fuel) (by decide) (by decide) helements h
      · exact reads_body (readValue_object fuel) (by decide) (by decide) hmembers h
      · exact reads_literal (readValue_null fuel)
          (word_of_all rfl rfl rfl) h
      · exact reads_literal (readValue_true fuel)
          (word_of_all rfl rfl rfl) h
      · exact reads_literal (readValue_false fuel)
          (word_of_all rfl rfl rfl) h
    · exact reads_number hc h

theorem reads_all (fuel : ℕ) : ReadsValues fuel ∧ ReadsElements fuel ∧ ReadsMembers fuel := by
  induction fuel with
  | zero => exact ⟨nofun, nofun, nofun⟩
  | succ fuel ih =>
    obtain ⟨hvalues, helements, hmembers⟩ := ih
    exact ⟨readsValues_succ helements hmembers, readsElements_succ hvalues helements,
      readsMembers_succ hvalues hmembers⟩

/-- What has been read is a word, and it is read again in front of anything else that does not go
on with a number. -/
theorem readValue_spec {fuel : ℕ} {cs rest : List Char} {t : Tree}
    (h : readValue fuel cs = some (t, rest)) : Reads (readValue fuel) cs t rest :=
  (reads_all fuel).1 cs t rest h

/-! ### Fuel -/

/-- What one function reads, another one reads too. -/
def Within {α : Type} (read read' : List Char → Option (α × List Char)) : Prop :=
  ∀ cs p, read cs = some p → read' cs = some p

theorem within_body {α : Type} {close : Char}
    {entries entries' : List Char → Option (List α × List Char)} (h : Within entries entries') :
    Within (readBody close entries) (readBody close entries') := by
  intro cs p hp
  unfold readBody at hp ⊢
  split at hp
  · exact hp
  · exact h _ p hp

theorem within_tail {α : Type} {close : Char} {x : α}
    {entries entries' : List Char → Option (List α × List Char)} (h : Within entries entries') :
    Within (readTail close entries x) (readTail close entries' x) := by
  intro cs p hp
  unfold readTail at hp ⊢
  split at hp
  · obtain ⟨q, hq, rfl⟩ := Option.map_eq_some_iff.1 hp
    exact Option.map_eq_some_iff.2 ⟨q, h _ q hq, rfl⟩
  · exact hp

theorem withinValues_succ {fuel : ℕ}
    (helements : Within (readElements fuel) (readElements (fuel + 1)))
    (hmembers : Within (readMembers fuel) (readMembers (fuel + 1))) :
    Within (readValue (fuel + 1)) (readValue (fuel + 2)) := by
  intro cs p h
  cases cs with
  | nil => cases h
  | cons c cs =>
    by_cases hc : c ∈ valueStarts
    · simp only [valueStarts, List.mem_cons, List.not_mem_nil, or_false] at hc
      rcases hc with rfl | rfl | rfl | rfl | rfl | rfl
      · rwa [readValue_string] at h ⊢
      · rw [readValue_array] at h ⊢
        obtain ⟨q, hq, rfl⟩ := Option.map_eq_some_iff.1 h
        rw [within_body helements cs q hq, Option.map_some]
      · rw [readValue_object] at h ⊢
        obtain ⟨q, hq, rfl⟩ := Option.map_eq_some_iff.1 h
        rw [within_body hmembers cs q hq, Option.map_some]
      · rwa [readValue_null] at h ⊢
      · rwa [readValue_true] at h ⊢
      · rwa [readValue_false] at h ⊢
    · rwa [readValue_number hc] at h ⊢

theorem withinElements_succ {fuel : ℕ} (hvalues : Within (readValue fuel) (readValue (fuel + 1)))
    (helements : Within (readElements fuel) (readElements (fuel + 1))) :
    Within (readElements (fuel + 1)) (readElements (fuel + 2)) := by
  intro cs p h
  rw [readElements] at h ⊢
  obtain ⟨q, hq, htail⟩ := Option.bind_eq_some_iff.1 h
  rw [hvalues cs q hq, Option.bind_some]
  exact within_tail helements _ p htail

theorem withinMembers_succ {fuel : ℕ} (hvalues : Within (readValue fuel) (readValue (fuel + 1)))
    (hmembers : Within (readMembers fuel) (readMembers (fuel + 1))) :
    Within (readMembers (fuel + 1)) (readMembers (fuel + 2)) := by
  intro cs p h
  rw [readMembers] at h ⊢
  obtain ⟨cs₁, hquote, h⟩ := Option.bind_eq_some_iff.1 h
  obtain ⟨key, hkey, h⟩ := Option.bind_eq_some_iff.1 h
  obtain ⟨cs₂, hcolon, h⟩ := Option.bind_eq_some_iff.1 h
  obtain ⟨q, hq, htail⟩ := Option.bind_eq_some_iff.1 h
  rw [hquote, Option.bind_some, hkey, Option.bind_some, hcolon, Option.bind_some,
    hvalues _ q hq, Option.bind_some]
  exact within_tail hmembers _ p htail

theorem within_all (fuel : ℕ) :
    Within (readValue fuel) (readValue (fuel + 1)) ∧
      Within (readElements fuel) (readElements (fuel + 1)) ∧
      Within (readMembers fuel) (readMembers (fuel + 1)) := by
  induction fuel with
  | zero => exact ⟨nofun, nofun, nofun⟩
  | succ fuel ih =>
    obtain ⟨hvalues, helements, hmembers⟩ := ih
    exact ⟨withinValues_succ helements hmembers, withinElements_succ hvalues helements,
      withinMembers_succ hvalues hmembers⟩

/-- More fuel reads the same. -/
theorem readValue_mono {fuel fuel' : ℕ} (hle : fuel ≤ fuel') {cs : List Char}
    {p : Tree × List Char} (h : readValue fuel cs = some p) : readValue fuel' cs = some p := by
  induction hle with
  | refl => exact h
  | step _ ih => exact (within_all _).1 cs p ih

theorem readValue_unique {fuel fuel' : ℕ} {cs : List Char} {p q : Tree × List Char}
    (hp : readValue fuel cs = some p) (hq : readValue fuel' cs = some q) : p = q := by
  have hp' := readValue_mono (le_max_left fuel fuel') hp
  have hq' := readValue_mono (le_max_right fuel fuel') hq
  rw [hp'] at hq'
  exact Option.some.inj hq'

/-- What one function reads of a text up to a length, another one reads too. -/
def WithinUpTo {α : Type} (n : ℕ) (read read' : List Char → Option (α × List Char)) : Prop :=
  ∀ cs p, cs.length ≤ n → read cs = some p → read' cs = some p

theorem length_skipWs_le (cs : List Char) : (skipWs cs).length ≤ cs.length :=
  (List.dropWhile_sublist _).length_le

theorem length_of_expect {c : Char} {cs rest : List Char} (h : expect [c] cs = some rest) :
    rest.length + 1 = cs.length := by
  rw [expect_eq_some_iff.1 h]
  rfl

theorem length_readChars_lt {st : StringState} {cs : List Char} {p : List Char × List Char}
    (h : readChars st cs = some p) : p.2.length < cs.length := by
  obtain ⟨s, rest⟩ := p
  obtain ⟨hcs, -⟩ := readChars_spec h
  show rest.length < cs.length
  rw [hcs, List.length_append, List.length_cons]
  omega

theorem length_readValue_le {fuel : ℕ} {cs : List Char} {p : Tree × List Char}
    (h : readValue fuel cs = some p) : p.2.length ≤ cs.length := by
  obtain ⟨t, rest⟩ := p
  obtain ⟨used, hcs, -⟩ := readValue_spec h
  rw [hcs, List.length_append]
  exact Nat.le_add_left _ _

theorem withinUpTo_body {α : Type} {n : ℕ} {close : Char}
    {entries entries' : List Char → Option (List α × List Char)}
    (h : WithinUpTo n entries entries') :
    WithinUpTo n (readBody close entries) (readBody close entries') := by
  intro cs p hlen hp
  unfold readBody at hp ⊢
  split at hp
  · exact hp
  · exact h _ p ((length_skipWs_le cs).trans hlen) hp

/-- What follows a comma is shorter. -/
theorem withinUpTo_tail {α : Type} {n : ℕ} {close : Char} {x : α}
    {entries entries' : List Char → Option (List α × List Char)}
    (h : WithinUpTo n entries entries') :
    WithinUpTo (n + 1) (readTail close entries x) (readTail close entries' x) := by
  intro cs p hlen hp
  unfold readTail at hp ⊢
  split at hp
  next rest hcomma =>
    obtain ⟨q, hq, rfl⟩ := Option.map_eq_some_iff.1 hp
    have hrest := length_of_expect hcomma
    have hcs := length_skipWs_le cs
    have hskip := length_skipWs_le rest
    exact Option.map_eq_some_iff.2 ⟨q, h _ q (by omega) hq, rfl⟩
  next => exact hp

theorem enoughValues {n fuel fuel' : ℕ}
    (helements : WithinUpTo n (readElements fuel) (readElements fuel'))
    (hmembers : WithinUpTo n (readMembers fuel) (readMembers fuel')) :
    WithinUpTo (n + 1) (readValue (fuel + 1)) (readValue (fuel' + 1)) := by
  intro cs p hlen h
  cases cs with
  | nil => cases h
  | cons c cs =>
    have hcs : cs.length ≤ n := Nat.le_of_succ_le_succ hlen
    by_cases hc : c ∈ valueStarts
    · simp only [valueStarts, List.mem_cons, List.not_mem_nil, or_false] at hc
      rcases hc with rfl | rfl | rfl | rfl | rfl | rfl
      · rwa [readValue_string] at h ⊢
      · rw [readValue_array] at h ⊢
        obtain ⟨q, hq, rfl⟩ := Option.map_eq_some_iff.1 h
        rw [withinUpTo_body helements cs q hcs hq, Option.map_some]
      · rw [readValue_object] at h ⊢
        obtain ⟨q, hq, rfl⟩ := Option.map_eq_some_iff.1 h
        rw [withinUpTo_body hmembers cs q hcs hq, Option.map_some]
      · rwa [readValue_null] at h ⊢
      · rwa [readValue_true] at h ⊢
      · rwa [readValue_false] at h ⊢
    · rwa [readValue_number hc] at h ⊢

theorem enoughElements {n fuel fuel' : ℕ}
    (hvalues : WithinUpTo (n + 1) (readValue fuel) (readValue fuel'))
    (helements : WithinUpTo n (readElements fuel) (readElements fuel')) :
    WithinUpTo (n + 1) (readElements (fuel + 1)) (readElements (fuel' + 1)) := by
  intro cs p hlen h
  rw [readElements] at h ⊢
  obtain ⟨q, hq, htail⟩ := Option.bind_eq_some_iff.1 h
  rw [hvalues cs q hlen hq, Option.bind_some]
  exact withinUpTo_tail helements _ p ((length_readValue_le hq).trans hlen) htail

theorem enoughMembers {n fuel fuel' : ℕ}
    (hvalues : WithinUpTo (n + 1) (readValue fuel) (readValue fuel'))
    (hmembers : WithinUpTo n (readMembers fuel) (readMembers fuel')) :
    WithinUpTo (n + 1) (readMembers (fuel + 1)) (readMembers (fuel' + 1)) := by
  intro cs p hlen h
  rw [readMembers] at h ⊢
  obtain ⟨cs₁, hquote, h⟩ := Option.bind_eq_some_iff.1 h
  obtain ⟨key, hkey, h⟩ := Option.bind_eq_some_iff.1 h
  obtain ⟨cs₂, hcolon, h⟩ := Option.bind_eq_some_iff.1 h
  obtain ⟨q, hq, htail⟩ := Option.bind_eq_some_iff.1 h
  -- each piece is shorter than the one before
  have h₁ := length_of_expect hquote
  have h₂ := length_readChars_lt hkey
  have h₃ := length_of_expect hcolon
  have h₄ := length_readValue_le hq
  have hkeyWs := length_skipWs_le key.2
  have hvalueWs := length_skipWs_le cs₂
  rw [hquote, Option.bind_some, hkey, Option.bind_some, hcolon, Option.bind_some,
    hvalues _ q (by omega) hq, Option.bind_some]
  exact withinUpTo_tail hmembers _ p (by omega) htail

/-- How much fuel is enough for the texts up to a length. -/
theorem enough_all (n : ℕ) : ∀ fuel, WithinUpTo n (readValue fuel) (readValue (2 * n + 1)) ∧
    WithinUpTo n (readElements fuel) (readElements (2 * n + 2)) ∧
      WithinUpTo n (readMembers fuel) (readMembers (2 * n + 2)) := by
  induction n with
  | zero =>
    intro fuel
    have hnil : ∀ {cs : List Char}, cs.length ≤ 0 → cs = [] :=
      fun h => List.length_eq_zero_iff.1 (Nat.le_zero.1 h)
    refine ⟨fun cs p hlen h => ?_, fun cs p hlen h => ?_, fun cs p hlen h => ?_⟩
    · rw [hnil hlen] at h
      cases fuel <;> cases h
    · rw [hnil hlen] at h
      cases fuel with
      | zero => cases h
      | succ fuel => cases fuel <;> cases h
    · rw [hnil hlen] at h
      cases fuel <;> cases h
  | succ n ih =>
    have hvalues : ∀ fuel, WithinUpTo (n + 1) (readValue fuel) (readValue (2 * n + 2 + 1)) := by
      intro fuel
      cases fuel with
      | zero => exact nofun
      | succ fuel => exact enoughValues (ih fuel).2.1 (ih fuel).2.2
    intro fuel
    refine ⟨hvalues fuel, ?_⟩
    cases fuel with
    | zero => exact ⟨nofun, nofun⟩
    | succ fuel =>
      have helements : WithinUpTo n (readElements fuel) (readElements (2 * n + 2 + 1)) :=
        fun cs p hlen h => (within_all _).2.1 cs p ((ih fuel).2.1 cs p hlen h)
      have hmembers : WithinUpTo n (readMembers fuel) (readMembers (2 * n + 2 + 1)) :=
        fun cs p hlen h => (within_all _).2.2 cs p ((ih fuel).2.2 cs p hlen h)
      exact ⟨enoughElements (hvalues fuel) helements, enoughMembers (hvalues fuel) hmembers⟩

/-- The length of the text tells how much fuel is enough. -/
theorem readValue_enough {fuel : ℕ} {cs : List Char} {p : Tree × List Char}
    (h : readValue fuel cs = some p) : readValue (2 * cs.length + 1) cs = some p :=
  (enough_all cs.length fuel).1 cs p le_rfl h

/-! ### Texts -/

/-- A JSON text is a word between white space, read with any white space after it. -/
theorem isJson_iff {text : List Char} {t : Tree} :
    IsJson text t ↔ ∃ w used w', text = w ++ (used ++ w') ∧ Gap w ∧ Word used ∧ Gap w' ∧
      ∃ fuel, ∀ rest, Stops rest → readValue fuel (used ++ rest) = some (t, rest) := by
  constructor
  · rintro ⟨fuel, rest, hread, hrest⟩
    obtain ⟨used, hused, hword, hagain⟩ := readValue_spec hread
    obtain ⟨w, hw, htext⟩ := exists_gap text
    refine ⟨w, used, rest, ?_, hw, hword, hrest, fuel, hagain⟩
    rw [← hused, htext]
  · rintro ⟨w, used, w', rfl, hw, hword, hw', fuel, hread⟩
    refine ⟨fuel, w', ?_, hw'⟩
    rw [skipWs_append hw, hword.skipWs]
    exact hread w' hw'.stops

/-- The tree of a JSON text; there is none when it is no JSON text. -/
def parse (text : List Char) : Option Tree :=
  (readValue (2 * (skipWs text).length + 1) (skipWs text)).bind fun p =>
    if Gap p.2 then some p.1 else none

theorem parse_eq_some_iff {text : List Char} {t : Tree} : parse text = some t ↔ IsJson text t := by
  unfold parse
  constructor
  · intro h
    obtain ⟨⟨u, rest⟩, hread, h⟩ := Option.bind_eq_some_iff.1 h
    obtain ⟨hgap, hu⟩ := Option.ite_none_right_eq_some.1 h
    cases Option.some.inj hu
    exact ⟨_, rest, hread, hgap⟩
  · rintro ⟨fuel, rest, hread, hgap⟩
    rw [readValue_enough hread, Option.bind_some, if_pos hgap]

/-- Every line of a JSON text begins the way a token does. -/
theorem IsJson.linesStart {text : List Char} {t : Tree} (h : IsJson text t) : LinesStart text := by
  obtain ⟨w, used, w', rfl, hw, hword, hw', -⟩ := isJson_iff.1 h
  refine hw.linesStart.append (hword.lines.append hw'.linesStart hw'.isStart_head) ?_
  obtain ⟨c, used, rfl, hc, -⟩ := hword.head
  rintro _ ⟨⟩
  exact hc

/-- What goes on behind a JSON text with white space, and is a JSON text as a whole, goes on with
nothing else. -/
theorem IsJson.gap_of_append {text rest : List Char} {t u : Tree} (h : IsJson text t)
    (hrest : Stops rest) (hwhole : IsJson (text ++ rest) u) : Gap rest := by
  obtain ⟨w, used, w', rfl, hw, hword, hw', fuel, hread⟩ := isJson_iff.1 h
  obtain ⟨fuel', rest', hread', hrest'⟩ := hwhole
  rw [List.append_assoc, skipWs_append hw, List.append_assoc, hword.skipWs] at hread'
  have hp := readValue_unique (hread (w' ++ rest) (stops_append hw' hrest)) hread'
  rw [Prod.mk.injEq] at hp
  refine Gap.right (a := w') ?_
  rw [hp.2]
  exact hrest'

/-- White space at the end of a JSON text can be left out. -/
theorem IsJson.of_append_gap {text w : List Char} {t : Tree} (h : IsJson (text ++ w) t)
    (hw : Gap w) : IsJson text t := by
  obtain ⟨w₀, used, w', he, hw₀, hword, hw', hread⟩ := isJson_iff.1 h
  -- the last character of the value is no white space, so it belongs to `text`
  rw [← List.append_assoc] at he
  rcases List.append_eq_append_iff.1 he with ⟨l, hl, rfl⟩ | ⟨l, rfl, hl⟩
  · rcases List.eq_nil_or_concat l with rfl | ⟨l, c, rfl⟩
    · refine isJson_iff.2 ⟨w₀, used, [], ?_, hw₀, hword, nofun, hread⟩
      rw [List.append_nil, hl, List.append_nil]
    · have hc : isWs c = true := hw c (by simp)
      have hne : used ≠ [] := by
        rintro rfl
        obtain ⟨_, _, hnil, -⟩ := hword.head
        cases hnil
      have hlast : used.getLast? = some c := by
        rw [← List.getLast?_append_of_ne_nil w₀ hne, hl]
        simp
      rw [hword.last c hlast] at hc
      cases hc
  · exact isJson_iff.2 ⟨w₀, used, l, List.append_assoc .., hw₀, hword, (hl ▸ hw').left, hread⟩

end JsonSyntax
