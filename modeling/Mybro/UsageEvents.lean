import Mathlib.Data.Finset.Lattice.Fold
import Mybro.UsageStream

/-!
# The events behind the usage of a stream (`usage_parse.rs`)

Merging is the supremum of a semilattice, so the order and the number of the lines do not matter
(`finish_eq_of_same_lines`). A sum does matter: the total input is summed up event by event before
it is maximised, and `streaming_agrees_iff` says when the maximum is that of the whole object.
-/

namespace Mybro

open Value

/-! ### Merging as a supremum -/

namespace Usage

theorem merge_comm (u v : Usage) : u.merge v = v.merge u := by
  simp only [merge, mk.injEq, ← UInt64.toNat_inj, toNat_max, max_comm, and_self]

theorem merge_self (u : Usage) : u.merge u = u := by
  have hmax : ∀ n : UInt64, max n n = n := fun n => by simp [← UInt64.toNat_inj, toNat_max]
  simp only [merge, hmax]

instance : Max Usage := ⟨merge⟩

instance : SemilatticeSup Usage := .mk' merge_comm merge_assoc merge_self

instance : OrderBot Usage where
  bot := {}
  bot_le := default_merge

/-- The field-wise maximum is the supremum. -/
theorem fieldMax_eq_sup (us : List Usage) : fieldMax us = us.toFinset.sup id := by
  rw [← List.foldr_sup_eq_sup_toFinset]
  induction us with
  | nil => rfl
  | cons u us ih =>
    rw [fieldMax_cons, ih]
    rfl

/-- It depends on what is in the list only, not on the order and the repetitions. -/
theorem fieldMax_congr {us vs : List Usage} (h : ∀ u, u ∈ us ↔ u ∈ vs) :
    fieldMax us = fieldMax vs := by
  rw [fieldMax_eq_sup, fieldMax_eq_sup]
  congr 1
  ext u
  rw [List.mem_toFinset, List.mem_toFinset, h]

end Usage

/-! ### Complete lines -/

section Lines

variable (parse : List UInt8 → Except String Value)

/-- A line with the newline that ends it. -/
def IsLine (line : List UInt8) : Prop := ∃ l, 10 ∉ l ∧ line = l ++ [10]

theorem splitOn_flatten {ls : List (List UInt8)} (h : ∀ l ∈ ls, 10 ∉ l) :
    (ls.map (· ++ [10])).flatten.splitOn 10 = ls ++ [[]] := by
  induction ls with
  | nil => rfl
  | cons l ls ih =>
    rw [List.forall_mem_cons] at h
    rw [List.map_cons, List.flatten_cons, List.append_assoc, List.singleton_append,
      List.splitOn_append_cons_self_of_not_mem h.1, ih h.2, List.cons_append]

theorem exists_of_isLine {lines : List (List UInt8)} (h : ∀ line ∈ lines, IsLine line) :
    ∃ ls : List (List UInt8), (∀ l ∈ ls, 10 ∉ l) ∧ lines = ls.map (· ++ [10]) := by
  induction lines with
  | nil => exact ⟨[], by simp, rfl⟩
  | cons line lines ih =>
    rw [List.forall_mem_cons] at h
    obtain ⟨⟨l, hl, rfl⟩, hlines⟩ := h
    obtain ⟨ls, hls, rfl⟩ := ih hlines
    exact ⟨l :: ls, List.forall_mem_cons.2 ⟨hl, hls⟩, rfl⟩

/-- The usage of a stream of complete lines is the field-wise maximum over them. -/
theorem finish_of_lines {lines chunks : List (List UInt8)} (h : ∀ line ∈ lines, IsLine line)
    (hchunks : chunks.flatten = lines.flatten) :
    (chunks.foldl (SseUsageAccumulator.ingest parse) {}).finish parse =
      Usage.fieldMax (lines.map (lineUsage parse)) := by
  obtain ⟨ls, hls, rfl⟩ := exists_of_isLine h
  have hlf : lineUsage parse ∘ (· ++ [10]) = lineUsage parse :=
    funext fun line => lineUsage_append_lf parse line
  rw [SseUsageAccumulator.finish_foldl_ingest, hchunks, splitOn_flatten hls, List.map_map, hlf,
    List.map_append, SseUsageAccumulator.fieldMax_append]
  simp

/-- **Order and repetition do not matter**: two lists of complete lines with the same lines in them
give the same usage, however they are cut into chunks. -/
theorem finish_eq_of_same_lines {lines lines' chunks chunks' : List (List UInt8)}
    (hlines : ∀ line ∈ lines, IsLine line) (hsame : ∀ line, line ∈ lines ↔ line ∈ lines')
    (hchunks : chunks.flatten = lines.flatten) (hchunks' : chunks'.flatten = lines'.flatten) :
    (chunks.foldl (SseUsageAccumulator.ingest parse) {}).finish parse =
      (chunks'.foldl (SseUsageAccumulator.ingest parse) {}).finish parse := by
  rw [finish_of_lines parse hlines hchunks,
    finish_of_lines parse (fun line h => hlines line ((hsame line).2 h)) hchunks']
  refine Usage.fieldMax_congr fun u => ?_
  simp only [List.mem_map, hsame]

/-! ### Events of a stream -/

/-- The JSON value of a data line, if it carries one. -/
def lineValue (line : List UInt8) : Option Value :=
  ((Utf8.decode line).bind fun s => Utf8.stripStart "data:" (Utf8.trim s)).bind fun rest =>
    if Utf8.trim rest = "" ∨ Utf8.trim rest = "[DONE]" then none
    else (parse (Utf8.encode (Utf8.trim rest))).toOption

/-- The two kinds of usage objects. -/
inductive UsageShape
  | openai
  | anthropic
  deriving DecidableEq

/-- The usage object of a reply or an event, with its kind. -/
def reportedUsage (v : Value) : Option (UsageShape × Value) :=
  match (v.get "message").bind fun m => m.get "usage" with
  | some u => some (.anthropic, u)
  | none =>
    (v.get "usage").map fun u =>
      if (u.get "prompt_tokens").isSome || (u.get "completion_tokens").isSome then (.openai, u)
      else (.anthropic, u)

/-- The usage objects of a stream, in order. -/
def streamReports (bytes : List UInt8) : List (UsageShape × Value) :=
  (bytes.splitOn 10).filterMap fun line => (lineValue parse line).bind reportedUsage

/-- A usage object in the normal form. -/
def normalize : UsageShape × Value → Usage
  | (.openai, u) => fromOpenaiUsage u
  | (.anthropic, u) => fromAnthropicUsage u

/-- Extraction normalises the usage object that is reported. -/
theorem extractUsageFromValue_eq (v : Value) :
    extractUsageFromValue v = ((reportedUsage v).map normalize).getD {} := by
  unfold extractUsageFromValue reportedUsage
  cases (v.get "message").bind fun m => m.get "usage" with
  | some u => rfl
  | none =>
    cases v.get "usage" with
    | none => rfl
    | some u =>
      simp only [Option.map_some, Option.getD_some]
      split_ifs <;> rfl

theorem lineUsage_eq (line : List UInt8) :
    lineUsage parse line =
      (((lineValue parse line).bind reportedUsage).map normalize).getD {} := by
  unfold lineUsage processLine lineValue
  cases (Utf8.decode line).bind fun s => Utf8.stripStart "data:" (Utf8.trim s) with
  | none => rfl
  | some rest =>
    simp only [Option.bind_some]
    split_ifs with hempty
    · rfl
    · cases parse (Utf8.encode (Utf8.trim rest)) with
      | error e => rfl
      | ok v => exact (Usage.default_merge _).trans (extractUsageFromValue_eq v)

/-- What reports nothing does not count for the maximum. -/
theorem fieldMax_getD {α : Type} (f : α → Option Usage) (xs : List α) :
    Usage.fieldMax (xs.map fun x => (f x).getD {}) = Usage.fieldMax (xs.filterMap f) := by
  induction xs with
  | nil => rfl
  | cons x xs ih =>
    rw [List.map_cons, Usage.fieldMax_cons, ih]
    cases hf : f x with
    | none => rw [List.filterMap_cons_none hf, Option.getD_none, Usage.default_merge]
    | some u => rw [List.filterMap_cons_some hf, Option.getD_some, Usage.fieldMax_cons]

/-- **The usage of a stream** is the field-wise maximum over its usage objects, in normal form. -/
theorem finish_eq_reports (chunks : List (List UInt8)) :
    (chunks.foldl (SseUsageAccumulator.ingest parse) {}).finish parse =
      Usage.fieldMax ((streamReports parse chunks.flatten).map normalize) := by
  rw [SseUsageAccumulator.finish_foldl_ingest, streamReports, List.map_filterMap,
    ← fieldMax_getD]
  congr 1
  exact List.map_congr_left fun line _ => lineUsage_eq parse line

/-- The line of an event, without its newline. -/
def eventLine (text : String) : List UInt8 := Utf8.encode ("data: " ++ text)

/-- A text that an event can carry. -/
structure IsPayload (text : String) : Prop where
  trimmed : Utf8.trim text = text
  ne_empty : text ≠ ""
  ne_done : text ≠ "[DONE]"
  oneLine : 10 ∉ Utf8.encode text

variable {parse}

theorem lineValue_eventLine {text : String} (h : IsPayload text) :
    lineValue parse (eventLine text) = (parse (Utf8.encode text)).toOption := by
  have hne : text.toList ≠ [] := by simpa using h.ne_empty
  have htext : Utf8.trim (String.ofList text.toList) = String.ofList text.toList := by
    simpa using h.trimmed
  have hstart :
      "data: " ++ text = String.ofList ('d' :: ['a', 't', 'a', ':', ' '] ++ text.toList) := by
    simp [← String.toList_inj]
  have hline : Utf8.trim ("data: " ++ text) = "data: " ++ text := by
    rw [hstart]
    exact Utf8.trim_append (by decide) hne htext
  have hspace : " " ++ text = String.ofList (' ' :: text.toList) := by
    simp
  have hrest : Utf8.trim (" " ++ text) = text := by
    rw [hspace, Utf8.trim_cons (by decide), htext, String.ofList_toList]
  have hstrip : Utf8.stripStart "data:" ("data: " ++ text) = some (" " ++ text) :=
    Utf8.stripStart_eq_some_iff.2 (by rw [← String.append_assoc]; rfl)
  unfold lineValue eventLine
  rw [Utf8.decode_encode, Option.bind_some, hline, hstrip, Option.bind_some, hrest,
    if_neg (by simp [h.ne_empty, h.ne_done])]

theorem notMem_eventLine {text : String} (h : IsPayload text) : 10 ∉ eventLine text := by
  rw [eventLine, Utf8.encode_append, List.mem_append, not_or]
  exact ⟨by decide, h.oneLine⟩

/-- The usage objects of a stream of events. -/
theorem streamReports_eventLines {texts : List String} (h : ∀ text ∈ texts, IsPayload text) :
    streamReports parse ((texts.map eventLine).map (· ++ [10])).flatten =
      texts.filterMap fun text => (parse (Utf8.encode text)).toOption.bind reportedUsage := by
  have hnil : [[]].filterMap (fun line => (lineValue parse line).bind reportedUsage) = [] := rfl
  rw [streamReports, splitOn_flatten (List.forall_mem_map.2 fun text htext =>
    notMem_eventLine (h text htext)), List.filterMap_append, hnil, List.append_nil,
    List.filterMap_map]
  exact List.filterMap_congr fun text htext => by
    rw [Function.comp_apply, lineValue_eventLine (h text htext)]

end Lines

/-! ### Largest readings -/

/-- `n` is the largest of the words in a list, or 0 if there are none. -/
def Largest (ns : List UInt64) (n : UInt64) : Prop := (∀ m ∈ ns, m ≤ n) ∧ (n = 0 ∨ n ∈ ns)

instance (ns : List UInt64) (n : UInt64) : Decidable (Largest ns n) :=
  decidable_of_iff (ns.all (· ≤ n) = true ∧ (n = 0 ∨ n ∈ ns)) (by simp [Largest])

theorem largest_iff {ns : List UInt64} {n : UInt64} : Largest ns n ↔ ns.foldr max 0 = n := by
  have hle : ∀ m ∈ ns, m ≤ ns.foldr max 0 := by
    induction ns with
    | nil => simp
    | cons k ns ih =>
      simp only [List.forall_mem_cons, List.foldr_cons, UInt64.le_iff_toNat_le, Usage.toNat_max]
        at ih ⊢
      exact ⟨le_max_left _ _, fun m hm => (ih m hm).trans (le_max_right _ _)⟩
  have hmem : ns.foldr max 0 = 0 ∨ ns.foldr max 0 ∈ ns := by
    clear hle
    induction ns with
    | nil => exact Or.inl rfl
    | cons k ns ih =>
      have hmax : max k (ns.foldr max 0) = k ∨ max k (ns.foldr max 0) = ns.foldr max 0 := by
        simp only [← UInt64.toNat_inj, Usage.toNat_max]
        exact max_choice _ _
      rw [List.foldr_cons]
      rcases hmax with hk | hns
      · rw [hk]
        exact Or.inr List.mem_cons_self
      · rw [hns]
        exact ih.imp_right (List.mem_cons_of_mem k)
  constructor
  · rintro ⟨hbound, hn⟩
    have h0 : ns.foldr max 0 ≤ n := by
      rcases hmem with h | h
      · rw [h]
        exact UInt64.zero_le
      · exact hbound _ h
    refine UInt64.le_antisymm h0 ?_
    rcases hn with rfl | hn
    · exact UInt64.zero_le
    · exact hle n hn
  · rintro rfl
    exact ⟨hle, hmem⟩

theorem largest_map_iff {α : Type} {f : α → UInt64} {xs : List α} {n : UInt64} :
    Largest (xs.map f) n ↔
      (∀ x ∈ xs, (f x).toNat ≤ n.toNat) ∧ (n.toNat = 0 ∨ ∃ x ∈ xs, (f x).toNat = n.toNat) := by
  unfold Largest
  rw [List.forall_mem_map, List.mem_map, ← UInt64.toNat_inj, UInt64.toNat_zero]
  simp only [UInt64.le_iff_toNat_le, UInt64.toNat_inj]

/-! ### Streaming against non-streaming -/

/-- The fields of an Anthropic usage object. -/
def usageFields : List String :=
  ["input_tokens", "output_tokens", "cache_read_input_tokens", "cache_creation_input_tokens"]

/-- The fields that the total input is the sum of. -/
def inputFields : List String :=
  ["input_tokens", "cache_read_input_tokens", "cache_creation_input_tokens"]

/-- The total input, before it wraps. -/
def inputTotal (u : Value) : ℕ := (inputFields.map fun key => (field u key).toNat).sum

/-- Some event reads all the input fields of the object `u` at once, when there is any input and its
total fits in a machine word. A total that wraps must be the largest of the wrapped totals of the
events. -/
def ReadTogether (u : Value) (es : List Value) : Prop :=
  if inputTotal u < 2 ^ 64 then
    inputTotal u = 0 ∨ ∃ e ∈ es, ∀ key ∈ inputFields, field e key = field u key
  else
    (∀ e ∈ es, inputTotal e % 2 ^ 64 ≤ inputTotal u % 2 ^ 64) ∧
      (inputTotal u % 2 ^ 64 = 0 ∨ ∃ e ∈ es, inputTotal e % 2 ^ 64 = inputTotal u % 2 ^ 64)

theorem toNat_tokensIn (u : Value) :
    (fromAnthropicUsage u).tokensIn.toNat = inputTotal u % 2 ^ 64 := by
  simp only [fromAnthropicUsage, inputTotal, inputFields, UInt64.toNat_add, List.map_cons,
    List.map_nil, List.sum_cons, List.sum_nil]
  omega

/-- An object that exceeds another in no input field has the smaller total, and an equal one only
when all the fields are equal. -/
theorem inputTotal_le {e u : Value} (h : ∀ key ∈ inputFields, field e key ≤ field u key) :
    inputTotal e ≤ inputTotal u ∧
      (inputTotal e = inputTotal u → ∀ key ∈ inputFields, field e key = field u key) := by
  simp only [inputFields, List.forall_mem_cons, UInt64.le_iff_toNat_le] at h
  simp only [inputTotal, inputFields, List.map_cons, List.map_nil, List.sum_cons, List.sum_nil,
    List.forall_mem_cons, ← UInt64.toNat_inj]
  refine ⟨by omega, fun heq => ⟨?_, ?_, ?_, by simp⟩⟩
  all_goals omega

theorem inputTotal_congr {e u : Value} (h : ∀ key ∈ inputFields, field e key = field u key) :
    inputTotal e = inputTotal u := by
  unfold inputTotal
  congr 1
  exact List.map_congr_left fun key hkey => by rw [h key hkey]

/-- The total input is the largest one exactly when the input fields are read together. -/
theorem largest_tokensIn_iff {u : Value} {es : List Value}
    (h : ∀ e ∈ es, ∀ key ∈ inputFields, field e key ≤ field u key) :
    Largest (es.map fun e => (fromAnthropicUsage e).tokensIn) (fromAnthropicUsage u).tokensIn ↔
      ReadTogether u es := by
  rw [largest_map_iff]
  simp only [toNat_tokensIn]
  unfold ReadTogether
  split_ifs with hfits
  · -- no total wraps
    have hmod : ∀ e ∈ es, inputTotal e % 2 ^ 64 = inputTotal e := fun e he =>
      Nat.mod_eq_of_lt ((inputTotal_le (h e he)).1.trans_lt hfits)
    rw [Nat.mod_eq_of_lt hfits]
    constructor
    · rintro ⟨-, hzero | ⟨e, he, heq⟩⟩
      · exact Or.inl hzero
      · exact Or.inr ⟨e, he, (inputTotal_le (h e he)).2 ((hmod e he).symm.trans heq)⟩
    · intro hread
      refine ⟨fun e he => (hmod e he).trans_le (inputTotal_le (h e he)).1, hread.imp_right ?_⟩
      rintro ⟨e, he, hfield⟩
      exact ⟨e, he, (hmod e he).trans (inputTotal_congr hfield)⟩
  · rfl

/-- **Streaming and non-streaming usage agree** for a usage object whose fields are spread over the
events of a stream, exactly when its input fields are read together. -/
theorem streaming_agrees_iff (parse : List UInt8 → Except String Value) (body : List UInt8)
    (chunks : List (List UInt8)) (v u : Value) (hbody : parse body = .ok v)
    (hu : reportedUsage v = some (.anthropic, u))
    (hshape : ∀ e ∈ streamReports parse chunks.flatten, e.1 = .anthropic)
    (hlargest : ∀ key ∈ usageFields,
      Largest ((streamReports parse chunks.flatten).map fun e => field e.2 key) (field u key)) :
    (chunks.foldl (SseUsageAccumulator.ingest parse) {}).finish parse = extractUsage parse body ↔
      ReadTogether u ((streamReports parse chunks.flatten).map Prod.snd) := by
  have hbodyUsage : extractUsage parse body = fromAnthropicUsage u := by
    rw [extractUsage, hbody]
    exact (extractUsageFromValue_eq v).trans (by rw [hu]; rfl)
  rw [finish_eq_reports, hbodyUsage]
  generalize streamReports parse chunks.flatten = reports at hshape hlargest ⊢
  have hnormal : reports.map normalize = (reports.map Prod.snd).map fromAnthropicUsage := by
    rw [List.map_map]
    refine List.map_congr_left fun e he => ?_
    obtain ⟨shape, e⟩ := e
    obtain rfl : shape = .anthropic := hshape _ he
    rfl
  have hfields : ∀ key ∈ usageFields,
      Largest ((reports.map Prod.snd).map fun e => field e key) (field u key) := by
    intro key hkey
    rw [List.map_map]
    exact hlargest key hkey
  rw [hnormal]
  generalize reports.map Prod.snd = es at hfields ⊢
  have hsub : ∀ key ∈ inputFields, key ∈ usageFields := by decide
  rw [← largest_tokensIn_iff fun e he key hkey =>
    (hfields key (hsub key hkey)).1 _ (List.mem_map_of_mem he), largest_iff]
  simp only [usageFields, List.forall_mem_cons, largest_iff] at hfields
  obtain ⟨-, hout, hread, hcreation, -⟩ := hfields
  simp only [Usage.fieldMax, fromAnthropicUsage, Usage.mk.injEq, List.map_map, Function.comp_def]
  simp only [hout, hread, hcreation, and_true]

/-! ### Two events, and a reply -/

/-- The start of a message, with 10 input tokens. -/
def startText : String :=
  "\x7b\"message\":\x7b\"usage\":\x7b\"input_tokens\":10\x7d\x7d\x7d"

def startUsage : Value := .object [("input_tokens", .number (.posInt 10))]

/-- A later event, with 5 more tokens that were read from the cache. -/
def deltaText : String := "\x7b\"usage\":\x7b\"cache_read_input_tokens\":5\x7d\x7d"

def deltaUsage : Value := .object [("cache_read_input_tokens", .number (.posInt 5))]

/-- A reply, or an event, with both. -/
def bothText : String :=
  "\x7b\"usage\":\x7b\"cache_read_input_tokens\":5,\"input_tokens\":10\x7d\x7d"

def bothUsage : Value :=
  .object [("cache_read_input_tokens", .number (.posInt 5)), ("input_tokens", .number (.posInt 10))]

/-- The parser on these texts. -/
def sampleParse (bytes : List UInt8) : Except String Value :=
  if bytes = Utf8.encode startText then
    .ok (.object [("message", .object [("usage", startUsage)])])
  else if bytes = Utf8.encode deltaText then .ok (.object [("usage", deltaUsage)])
  else if bytes = Utf8.encode bothText then .ok (.object [("usage", bothUsage)])
  else .error "expected value"

theorem sampleParse_start : sampleParse (Utf8.encode startText) =
    .ok (.object [("message", .object [("usage", startUsage)])]) := if_pos rfl

theorem sampleParse_delta :
    sampleParse (Utf8.encode deltaText) = .ok (.object [("usage", deltaUsage)]) :=
  (if_neg (Utf8.encode_injective.ne (by decide))).trans (if_pos rfl)

theorem sampleParse_both :
    sampleParse (Utf8.encode bothText) = .ok (.object [("usage", bothUsage)]) :=
  (if_neg (Utf8.encode_injective.ne (by decide))).trans
    ((if_neg (Utf8.encode_injective.ne (by decide))).trans (if_pos rfl))

theorem isPayload_samples : ∀ text ∈ [startText, deltaText, bothText], IsPayload text := by
  intro text htext
  refine ⟨?_, ?_, ?_, ?_⟩
  all_goals
    revert text
    decide +kernel

/-- A stream of events. -/
def eventStream (texts : List String) : List UInt8 :=
  ((texts.map eventLine).map (· ++ [10])).flatten

theorem streamReports_both : streamReports sampleParse (eventStream [startText, bothText]) =
    [(.anthropic, startUsage), (.anthropic, bothUsage)] := by
  have hsub : [startText, bothText] ⊆ [startText, deltaText, bothText] := by simp
  rw [eventStream, streamReports_eventLines fun text htext => isPayload_samples text (hsub htext)]
  simp only [List.filterMap_cons, sampleParse_start, sampleParse_both, List.filterMap_nil]
  rfl

theorem streamReports_delta : streamReports sampleParse (eventStream [startText, deltaText]) =
    [(.anthropic, startUsage), (.anthropic, deltaUsage)] := by
  have hsub : [startText, deltaText] ⊆ [startText, deltaText, bothText] := by simp
  rw [eventStream, streamReports_eventLines fun text htext => isPayload_samples text (hsub htext)]
  simp only [List.filterMap_cons, sampleParse_start, sampleParse_delta, List.filterMap_nil]
  rfl

/-- The two events, or the second one before the first and then once more, in one chunk. -/
theorem finish_eq_of_same_lines_sample :
    ([eventLine startText ++ [10], eventLine deltaText ++ [10]].foldl
        (SseUsageAccumulator.ingest sampleParse) {}).finish sampleParse =
      ([eventStream [deltaText, startText, deltaText]].foldl
        (SseUsageAccumulator.ingest sampleParse) {}).finish sampleParse := by
  refine @finish_eq_of_same_lines sampleParse
    (([startText, deltaText].map eventLine).map (· ++ [10]))
    (([deltaText, startText, deltaText].map eventLine).map (· ++ [10])) _ _
    (fun line hline => ?_) (fun line => ?_) rfl (by simp [eventStream])
  · obtain ⟨l, hl, rfl⟩ := List.mem_map.1 hline
    obtain ⟨text, htext, rfl⟩ := List.mem_map.1 hl
    have hsub : [startText, deltaText] ⊆ [startText, deltaText, bothText] := by simp
    exact ⟨_, notMem_eventLine (isPayload_samples text (hsub htext)), rfl⟩
  · simp only [List.map_cons, List.map_nil, List.mem_cons, List.not_mem_nil, or_false]
    generalize (line = eventLine startText ++ [10]) = isStart
    generalize (line = eventLine deltaText ++ [10]) = isDelta
    tauto

/-- The reply's object, after an event with one of its fields and another with both. -/
theorem streaming_agrees_sample :
    ([eventStream [startText, bothText]].foldl (SseUsageAccumulator.ingest sampleParse) {}).finish
        sampleParse = extractUsage sampleParse (Utf8.encode bothText) := by
  refine (streaming_agrees_iff sampleParse _ _ _ bothUsage sampleParse_both rfl ?_ ?_).2 ?_
  all_goals rw [List.flatten_singleton, streamReports_both]
  · decide
  · decide
  · exact Or.inr ⟨bothUsage, by simp, fun key _ => rfl⟩

/-- The two fields in two events: each is read in full, but the total input never is. -/
theorem streaming_differs_sample :
    (∀ key ∈ usageFields, Largest ((streamReports sampleParse
        (eventStream [startText, deltaText])).map fun e => field e.2 key) (field bothUsage key)) ∧
      ([eventStream [startText, deltaText]].foldl (SseUsageAccumulator.ingest sampleParse)
        {}).finish sampleParse ≠ extractUsage sampleParse (Utf8.encode bothText) := by
  rw [finish_eq_reports, List.flatten_singleton, streamReports_delta, extractUsage,
    sampleParse_both]
  decide

end Mybro
