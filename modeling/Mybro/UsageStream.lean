import Mybro.UsageParse

/-!
# The usage of an event stream does not depend on its chunks

What `SseUsageAccumulator` computes, in terms of the byte sequence that has passed. After any chunks
the buffer is what follows the last newline, and the usage that of the lines before
(`foldl_ingest`); the end result is the field-wise maximum over the lines (`finish_ingest`).
-/

namespace Mybro

variable (parse : List UInt8 → Except String Value)

/-! ### Merging -/

namespace Usage

theorem toNat_max (m n : UInt64) : (max m n).toNat = max m.toNat n.toNat := by
  show (if m ≤ n then n else m).toNat = max m.toNat n.toNat
  split_ifs with h
  · rw [UInt64.le_iff_toNat_le] at h
    omega
  · rw [UInt64.le_iff_toNat_le] at h
    omega

theorem merge_assoc (u v w : Usage) : (u.merge v).merge w = u.merge (v.merge w) := by
  simp only [merge, mk.injEq, ← UInt64.toNat_inj, toNat_max, max_assoc, and_self]

@[simp] theorem merge_default (u : Usage) : u.merge {} = u := by
  have hmax : ∀ n : UInt64, max n 0 = n := fun n => by simp [← UInt64.toNat_inj, toNat_max]
  simp only [merge, hmax]

@[simp] theorem default_merge (u : Usage) : merge {} u = u := by
  have hmax : ∀ n : UInt64, max 0 n = n := fun n => by simp [← UInt64.toNat_inj, toNat_max]
  simp only [merge, hmax]

/-- The field-wise maximum. -/
def fieldMax (us : List Usage) : Usage where
  tokensIn := (us.map tokensIn).foldr max 0
  tokensOut := (us.map tokensOut).foldr max 0
  cached := (us.map cached).foldr max 0
  creation := (us.map creation).foldr max 0

@[simp] theorem fieldMax_nil : fieldMax [] = {} := rfl

@[simp] theorem fieldMax_cons (u : Usage) (us : List Usage) :
    fieldMax (u :: us) = u.merge (fieldMax us) := rfl

end Usage

/-! ### Lines -/

/-- The usage extracted from a line. -/
def lineUsage (line : List UInt8) : Usage := processLine parse {} line

/-- A line is merged into the usage so far. -/
theorem processLine_eq (usage : Usage) (line : List UInt8) :
    processLine parse usage line = usage.merge (lineUsage parse line) := by
  unfold lineUsage processLine
  cases (Utf8.decode line).bind fun s => Utf8.stripStart "data:" (Utf8.trim s) with
  | none => simp
  | some rest =>
    simp only
    split_ifs with hempty
    · simp
    · cases parse (Utf8.encode (Utf8.trim rest)) <;> simp

theorem foldl_processLine (lines : List (List UInt8)) (usage : Usage) :
    lines.foldl (processLine parse) usage =
      usage.merge (Usage.fieldMax (lines.map (lineUsage parse))) := by
  induction lines generalizing usage with
  | nil => simp
  | cons line lines ih =>
    rw [List.foldl_cons, ih, processLine_eq, Usage.merge_assoc]
    rfl

/-- The newline at the end of a line carries nothing. -/
theorem lineUsage_append_lf (line : List UInt8) :
    lineUsage parse (line ++ [10]) = lineUsage parse line := by
  unfold lineUsage processLine
  rw [Utf8.decode_append_lf]
  cases Utf8.decode line with
  | none => rfl
  | some s =>
    have htrim := Utf8.trim_append_lf s.toList
    rw [String.ofList_toList] at htrim
    rw [Option.map_some, Option.bind_some, Option.bind_some, htrim]

@[simp] theorem lineUsage_nil : lineUsage parse [] = {} := rfl

/-- **`completeLines` splits at the newlines**: with their newlines taken off and the rest behind
them, the complete lines are the lines of the bytes. -/
theorem splitOn_eq_completeLines (bs : List UInt8) :
    ∃ lines, (completeLines bs).1 = lines.map (· ++ [10]) ∧
      bs.splitOn 10 = lines ++ [(completeLines bs).2] := by
  induction bs with
  | nil => exact ⟨[], rfl, rfl⟩
  | cons b bs ih =>
    obtain ⟨lines, hlines, hsplit⟩ := ih
    rw [List.splitOn_cons_eq_if_modifyHead, hsplit]
    simp only [completeLines]
    generalize completeLines bs = p at hlines ⊢
    obtain ⟨ls, rest⟩ := p
    obtain rfl : ls = lines.map (· ++ [10]) := hlines
    by_cases hb : b = 10
    · exact ⟨[] :: lines, by simp [hb], by simp [hb]⟩
    · cases lines with
      | nil => exact ⟨[], by simp [hb], by simp [hb]⟩
      | cons l ls => exact ⟨(b :: l) :: ls, by simp [hb], by simp [hb]⟩

/-- **The lines of a sequence that arrives in two parts**: those of the first part, then those of
what it leaves over together with the second. -/
theorem completeLines_append (a b : List UInt8) :
    completeLines (a ++ b) =
      ((completeLines a).1 ++ (completeLines ((completeLines a).2 ++ b)).1,
        (completeLines ((completeLines a).2 ++ b)).2) := by
  induction a with
  | nil => rfl
  | cons x a ih =>
    by_cases hx : x = 10
    · simp [completeLines, hx, ih]
    · simp only [List.cons_append, completeLines, if_neg hx, ih]
      generalize completeLines a = p
      obtain ⟨ls, rest⟩ := p
      cases ls with
      | nil => simp [completeLines, hx]
      | cons l ls => simp

/-! ### The accumulator -/

namespace SseUsageAccumulator

/-- **The invariant of the accumulator**: after some chunks it holds what follows the last newline,
and the usage of the lines before. -/
theorem foldl_ingest (chunks : List (List UInt8)) :
    chunks.foldl (ingest parse) {} =
      { lineBuf := (completeLines chunks.flatten).2
        usage := (completeLines chunks.flatten).1.foldl (processLine parse) {} } := by
  induction chunks using List.reverseRecOn with
  | nil => rfl
  | append_singleton chunks chunk ih =>
    rw [List.foldl_append, ih, List.flatten_append, List.flatten_singleton, completeLines_append]
    simp [ingest, List.foldl_append]

/-- The end of the stream ends the last line. -/
theorem finish_eq (a : SseUsageAccumulator) :
    a.finish parse = a.usage.merge (lineUsage parse a.lineBuf) := by
  unfold finish
  split_ifs with hempty
  · simp [hempty]
  · exact processLine_eq parse a.usage a.lineBuf

theorem fieldMax_append (us vs : List Usage) :
    Usage.fieldMax (us ++ vs) = (Usage.fieldMax us).merge (Usage.fieldMax vs) := by
  induction us with
  | nil => simp
  | cons u us ih => rw [List.cons_append, Usage.fieldMax_cons, ih, Usage.fieldMax_cons, Usage.merge_assoc]

/-- The usage of a whole stream, in whatever chunks it arrives. -/
theorem finish_foldl_ingest (chunks : List (List UInt8)) :
    (chunks.foldl (ingest parse) {}).finish parse =
      Usage.fieldMax ((chunks.flatten.splitOn 10).map (lineUsage parse)) := by
  obtain ⟨lines, hlines, hsplit⟩ := splitOn_eq_completeLines chunks.flatten
  rw [foldl_ingest, finish_eq, hsplit, hlines, foldl_processLine, List.map_map, List.map_append,
    fieldMax_append, Usage.default_merge]
  have hlf : lineUsage parse ∘ (· ++ [10]) = lineUsage parse :=
    funext fun line => lineUsage_append_lf parse line
  simp [hlf]

/-- **Chunking does not matter**: two ways of cutting a byte sequence into chunks give the same
usage, the field-wise maximum over the lines of the sequence. -/
theorem finish_of_chunks {bytes : List UInt8} {chunks chunks' : List (List UInt8)}
    (h : chunks.flatten = bytes) (h' : chunks'.flatten = bytes) :
    (chunks.foldl (ingest parse) {}).finish parse = (chunks'.foldl (ingest parse) {}).finish parse ∧
      (chunks.foldl (ingest parse) {}).finish parse =
        Usage.fieldMax ((bytes.splitOn 10).map (lineUsage parse)) := by
  rw [finish_foldl_ingest, finish_foldl_ingest, h, h']
  exact ⟨rfl, rfl⟩

/-- A line with a usage event, and the event. -/
def sampleLine : List UInt8 := Utf8.encode "data: {}\n"

def sampleEvent (_ : List UInt8) : Except String Value :=
  .ok (.object [("usage", .object [("completion_tokens", .number (.posInt 7))])])

/-- The result for a line cut in its middle, with an empty chunk in between. -/
theorem finish_of_cut_line :
    ([sampleLine.take 3, [], sampleLine.drop 3].foldl (ingest sampleEvent) {}).finish sampleEvent =
        ([sampleLine].foldl (ingest sampleEvent) {}).finish sampleEvent ∧
      ([sampleLine.take 3, [], sampleLine.drop 3].foldl (ingest sampleEvent) {}).finish sampleEvent =
        Usage.fieldMax ((sampleLine.splitOn 10).map (lineUsage sampleEvent)) :=
  finish_of_chunks sampleEvent rfl rfl

end SseUsageAccumulator

end Mybro
