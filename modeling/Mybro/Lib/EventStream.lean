import Mathlib.Data.List.Chain
import Mathlib.Tactic

/-!
# Event streams

Server-sent events as a client reads them: the lines of a text, which end with a line feed, a
carriage return or both, their fields, and the data of the events between blank lines.

* `lines_append`: a line feed separates the lines before it from those after it;
* `lines_append_of_break`, `starts_of_mem_tail`: the first line, and how the others begin;
* `events_quiet`, `events_dispatch`: lines that hold no data, and the event that ends among them.
-/

namespace EventStream

/-- The characters that end a line. -/
def isBreak (c : Char) : Bool := c = '\n' || c = '\r'

/-- The lines of a text; what is behind the last line end is none. -/
def lines : List Char → List (List Char)
  | [] => []
  | '\r' :: '\n' :: cs => [] :: lines cs
  | c :: cs => if isBreak c then [] :: lines cs else (lines cs).modifyHead (c :: ·)

/-- The name of the field in a line. -/
def fieldName (line : List Char) : List Char := line.takeWhile (· ≠ ':')

/-- The value of the field in a line: what is behind the colon and one space. -/
def fieldValue (line : List Char) : List Char :=
  match (line.dropWhile (· ≠ ':')).tail with
  | ' ' :: value => value
  | value => value

/-- What a line adds to the data of the event: the value of a `data` field, and a line feed. -/
def dataOf (line : List Char) : List Char :=
  if fieldName line = ['d', 'a', 't', 'a'] then fieldValue line ++ ['\n'] else []

/-- The data of the events that end in the given lines, of which the first one has some data from
the lines before. A blank line ends an event, and the last line feed of its data does not count. -/
def events : List Char → List (List Char) → List (List Char)
  | _, [] => []
  | data, line :: ls =>
    if line = [] then
      if data = [] then events [] ls else data.dropLast :: events [] ls
    else events (data ++ dataOf line) ls

/-- The data of the events of a text. -/
def decode (text : List Char) : List (List Char) := events [] (lines text)

example : decode "data: a\r\ndata:b\rid: 1\n\n: c\ndata\n\ndata: d".toList =
    ["a\nb".toList, []] := by decide

/-! ### Lines -/

theorem lines_crlf (cs : List Char) : lines ('\r' :: '\n' :: cs) = [] :: lines cs := rfl

/-- A character that ends a line by itself. -/
theorem lines_cons_of_break {c : Char} {cs : List Char} (hc : isBreak c = true)
    (h : c = '\r' → cs.head? ≠ some '\n') : lines (c :: cs) = [] :: lines cs := by
  rw [lines.eq_def]
  split
  · contradiction
  · rename_i he
    obtain ⟨rfl, rfl⟩ := List.cons_eq_cons.1 he
    exact absurd rfl (h rfl)
  · rename_i he
    obtain ⟨rfl, rfl⟩ := List.cons_eq_cons.1 he
    exact if_pos hc

theorem lines_cons_of_not_break {c : Char} (hc : isBreak c = false) (cs : List Char) :
    lines (c :: cs) = (lines cs).modifyHead (c :: ·) := by
  rw [lines.eq_def]
  split
  · contradiction
  · rename_i he
    obtain ⟨rfl, -⟩ := List.cons_eq_cons.1 he
    cases hc
  · rename_i he
    obtain ⟨rfl, rfl⟩ := List.cons_eq_cons.1 he
    exact if_neg (by simp [hc])

/-- A text is empty, or begins with both characters, one character that ends a line, or one that
belongs to a line. -/
theorem lines_induction {motive : List Char → Prop} (nil : motive [])
    (crlf : ∀ cs, motive cs → motive ('\r' :: '\n' :: cs))
    (stop : ∀ c cs, isBreak c = true → (c = '\r' → cs.head? ≠ some '\n') → motive cs →
      motive (c :: cs))
    (char : ∀ c cs, isBreak c = false → motive cs → motive (c :: cs)) (cs : List Char) :
    motive cs := by
  induction cs using lines.induct with
  | case1 => exact nil
  | case2 cs ih => exact crlf cs ih
  | case3 c cs h hc ih =>
    refine stop c cs hc (fun hr hn => ?_) ih
    obtain ⟨cs, rfl⟩ := List.head?_eq_some_iff.1 hn
    exact h cs hr rfl
  | case4 c cs h hc ih => exact char c cs (by simpa using hc) ih

/-- The first line, when a line end follows it. -/
theorem lines_append_of_break {a : List Char} (ha : ∀ c ∈ a, isBreak c = false) {c : Char}
    (hc : isBreak c = true) (cs : List Char) : ∃ ls, lines (a ++ c :: cs) = a :: ls := by
  induction a with
  | nil =>
    by_cases h : c = '\r' ∧ cs.head? = some '\n'
    · obtain ⟨rfl, h⟩ := h
      obtain ⟨cs, rfl⟩ := List.head?_eq_some_iff.1 h
      exact ⟨lines cs, rfl⟩
    · exact ⟨lines cs, lines_cons_of_break hc fun hr hn => h ⟨hr, hn⟩⟩
  | cons d a ih =>
    obtain ⟨hd, ha⟩ := List.forall_mem_cons.1 ha
    obtain ⟨ls, hls⟩ := ih ha
    exact ⟨ls, by rw [List.cons_append, lines_cons_of_not_break hd, hls, List.modifyHead_cons]⟩

theorem lines_append_lf_ne_nil (cs : List Char) : lines (cs ++ ['\n']) ≠ [] := by
  induction cs with
  | nil => exact List.cons_ne_nil _ _
  | cons c cs ih =>
    rw [List.cons_append]
    cases hc : isBreak c with
    | false =>
      rw [lines_cons_of_not_break hc]
      simpa using ih
    | true =>
      obtain ⟨ls, hls⟩ := lines_append_of_break (a := []) nofun hc (cs ++ ['\n'])
      rw [List.nil_append] at hls
      rw [hls]
      exact List.cons_ne_nil _ _

/-- A line feed separates the lines before it from those after it. -/
theorem lines_append (a b : List Char) :
    lines (a ++ '\n' :: b) = lines (a ++ ['\n']) ++ lines b := by
  induction a using lines_induction with
  | nil => rfl
  | crlf a ih => simp only [List.cons_append, lines_crlf, ih]
  | stop c a hc h ih =>
    by_cases hr : c = '\r' ∧ a = []
    · obtain ⟨rfl, rfl⟩ := hr
      rfl
    · have h' : ∀ b', c = '\r' → (a ++ '\n' :: b').head? ≠ some '\n' := by
        intro b' hc
        cases a with
        | nil => exact absurd ⟨hc, rfl⟩ hr
        | cons d a => exact h hc
      rw [List.cons_append, List.cons_append, lines_cons_of_break hc (h' b),
        lines_cons_of_break hc (h' []), ih, List.cons_append]
  | char c a hc ih =>
    rw [List.cons_append, List.cons_append, lines_cons_of_not_break hc,
      lines_cons_of_not_break hc, ih]
    cases hl : lines (a ++ ['\n']) with
    | nil => exact absurd hl (lines_append_lf_ne_nil a)
    | cons l ls => rfl

/-- A line is empty or begins as the predicate says. -/
def Starts (p : Char → Prop) (line : List Char) : Prop := ∀ c ∈ line.head?, p c

theorem starts_head {p : Char → Prop} {cs l : List Char} {ls : List (List Char)}
    (h : lines cs = l :: ls) (hcs : Starts p cs) : Starts p l := by
  cases cs with
  | nil => cases h
  | cons c cs =>
    cases hc : isBreak c with
    | true =>
      obtain ⟨ls', hls⟩ := lines_append_of_break (a := []) nofun hc cs
      rw [List.nil_append, h] at hls
      obtain ⟨rfl, -⟩ := List.cons_eq_cons.1 hls
      exact nofun
    | false =>
      rw [lines_cons_of_not_break hc] at h
      cases hl : lines cs with
      | nil =>
        rw [hl] at h
        cases h
      | cons l' ls' =>
        rw [hl, List.modifyHead_cons] at h
        obtain ⟨rfl, -⟩ := List.cons_eq_cons.1 h
        exact hcs

/-- Where every line end is followed by a character that satisfies the predicate, all lines but the
first are empty or begin with such a character. -/
theorem starts_of_mem_tail {p : Char → Prop} {cs : List Char}
    (h : cs.IsChain fun a b => isBreak a = true → p b) :
    ∀ l ∈ (lines cs).tail, Starts p l := by
  -- behind a line end, the first line begins like the rest of the text
  have hall : ∀ {cs : List Char}, Starts p cs → (∀ l ∈ (lines cs).tail, Starts p l) →
      ∀ l ∈ lines cs, Starts p l := by
    intro cs hcs htail l hl
    cases hlines : lines cs with
    | nil =>
      rw [hlines] at hl
      cases hl
    | cons l' ls =>
      rw [hlines] at hl htail
      rcases List.mem_cons.1 hl with rfl | hl
      · exact starts_head hlines hcs
      · exact htail l hl
  induction cs using lines_induction with
  | nil => nofun
  | crlf cs ih =>
    obtain ⟨-, h⟩ := List.isChain_cons.1 h
    obtain ⟨hhead, h⟩ := List.isChain_cons.1 h
    exact hall (fun c hc => hhead c hc rfl) (ih h)
  | stop c cs hc hne ih =>
    obtain ⟨hhead, h⟩ := List.isChain_cons.1 h
    rw [lines_cons_of_break hc hne]
    exact hall (fun d hd => hhead d hd hc) (ih h)
  | char c cs hc ih =>
    rw [lines_cons_of_not_break hc, List.tail_modifyHead]
    exact ih (List.isChain_cons.1 h).2

/-! ### Events -/

theorem events_cons {l : List Char} (hl : l ≠ []) (data : List Char) (ls : List (List Char)) :
    events data (l :: ls) = events (data ++ dataOf l) ls :=
  if_neg hl

/-- Lines that hold no data, between events. -/
theorem events_quiet {ls : List (List Char)} (h : ∀ l ∈ ls, dataOf l = [])
    (rest : List (List Char)) : events [] (ls ++ rest) = events [] rest := by
  induction ls with
  | nil => rfl
  | cons l ls ih =>
    obtain ⟨hl, hls⟩ := List.forall_mem_cons.1 h
    rw [List.cons_append, events, hl, List.append_nil, if_pos rfl, ih hls, ite_self]

/-- Lines that hold no data end an event where one of them is blank. -/
theorem events_dispatch {data : List Char} (hdata : data ≠ []) {ls : List (List Char)}
    (h : ∀ l ∈ ls, dataOf l = []) (hblank : [] ∈ ls) (rest : List (List Char)) :
    events data (ls ++ rest) = data.dropLast :: events [] rest := by
  induction ls with
  | nil => cases hblank
  | cons l ls ih =>
    obtain ⟨hl, hls⟩ := List.forall_mem_cons.1 h
    rw [List.cons_append]
    by_cases hempty : l = []
    · rw [hempty, events, if_pos rfl, if_neg hdata, events_quiet hls]
    · rw [events_cons hempty, hl, List.append_nil]
      exact ih hls ((List.mem_cons.1 hblank).resolve_left (Ne.symm hempty))

/-- A line that does not begin the name of a `data` field holds no data. -/
theorem dataOf_of_starts {p : Char → Prop} (hp : ¬ p 'd') {l : List Char} (hl : Starts p l) :
    dataOf l = [] := by
  refine if_neg fun h => hp (hl 'd' ?_)
  have hprefix : fieldName l <+: l := List.takeWhile_prefix _
  rw [h] at hprefix
  obtain ⟨rest, rfl⟩ := hprefix
  rfl

end EventStream
