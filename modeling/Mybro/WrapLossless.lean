import Mybro.Chat
import Mybro.Lib.EventStream
import Mybro.Lib.JsonSyntax

/-!
# A JSON reply as an event stream

`wrapJsonAsSse` puts a JSON reply behind a single `data: `. The client reads two events
(`streamEvents_wrapJsonAsSse`): the first line of the reply, and `[DONE]`. The other lines of a JSON
text begin the way tokens do, so none of them is a `data` line. What the client reads is the reply
exactly when only white space stands behind its first line (`lossless_iff`): a reply over several
lines is cut off.
-/

namespace Mybro

open JsonSyntax (IsJson Gap Tree)

/-- The data of the events of a response, as a client reads it. -/
def streamEvents (resp : Response) : List (List Char) :=
  match resp.body with
  | .bytes bytes => EventStream.decode (Utf8.lossy bytes).toList
  | .stream _ => []

/-- A text up to its first line end. -/
def firstLine (text : List Char) : List Char := text.takeWhile fun c => !EventStream.isBreak c

/-- What is left of a text from its first line end on. -/
def otherLines (text : List Char) : List Char := text.dropWhile fun c => !EventStream.isBreak c

theorem firstLine_append_otherLines (text : List Char) :
    firstLine text ++ otherLines text = text :=
  List.takeWhile_append_dropWhile

theorem isBreak_firstLine (text : List Char) :
    ∀ c ∈ firstLine text, EventStream.isBreak c = false :=
  fun _ hc => by simpa using List.mem_takeWhile_imp hc

/-- The other lines are empty, or go on with a line end. -/
theorem otherLines_cases (text : List Char) :
    otherLines text = [] ∨
      ∃ c rest, otherLines text = c :: rest ∧ EventStream.isBreak c = true := by
  have h := List.head?_dropWhile_not (fun c => !EventStream.isBreak c) text
  unfold otherLines
  cases hrest : text.dropWhile fun c => !EventStream.isBreak c with
  | nil => exact Or.inl rfl
  | cons c rest =>
    rw [hrest] at h
    exact Or.inr ⟨c, rest, rfl, by simpa using h⟩

/-- What the proxy puts behind the reply. -/
def doneEvent : List Char := "data: [DONE]\n\n".toList

theorem isBreak_data : ∀ c ∈ "data: ".toList, EventStream.isBreak c = false := by
  intro c hc
  have h : ("data: ".toList.all fun c => !EventStream.isBreak c) = true := by decide
  simpa using List.all_eq_true.1 h c hc

/-- The first line of a text behind `data: `. -/
theorem lines_wrapped (text : List Char) :
    ∃ ls, EventStream.lines ("data: ".toList ++ (text ++ ['\n'])) =
      ("data: ".toList ++ firstLine text) :: ls := by
  have hfirst : ∀ c ∈ "data: ".toList ++ firstLine text, EventStream.isBreak c = false :=
    fun c hc => (List.mem_append.1 hc).elim (isBreak_data c) (isBreak_firstLine text c)
  obtain ⟨c, rest, htext, hc⟩ : ∃ c rest, text ++ ['\n'] = firstLine text ++ c :: rest ∧
      EventStream.isBreak c = true := by
    have htext := firstLine_append_otherLines text
    rcases otherLines_cases text with hother | ⟨c, rest, hother, hc⟩
    · rw [hother, List.append_nil] at htext
      exact ⟨'\n', [], by rw [htext], rfl⟩
    · refine ⟨c, rest ++ ['\n'], ?_, hc⟩
      rw [← List.cons_append, ← hother, ← List.append_assoc, htext]
  obtain ⟨ls, hls⟩ := EventStream.lines_append_of_break hfirst hc rest
  rw [List.append_assoc, ← htext] at hls
  exact ⟨ls, hls⟩

/-- The other lines of a text whose lines begin the way tokens do hold no data. -/
theorem quiet_wrapped {text : List Char} (h : JsonSyntax.LinesStart text) :
    ∀ l ∈ (EventStream.lines ("data: ".toList ++ (text ++ ['\n']))).tail,
      EventStream.dataOf l = [] := by
  have hchain : JsonSyntax.LinesStart ("data: ".toList ++ (text ++ ['\n'])) := by
    refine List.IsChain.append (JsonSyntax.linesStart_of_noBreak isBreak_data) ?_ ?_
    · exact h.append (List.isChain_singleton _) (by rintro _ ⟨⟩; rfl)
    · rintro _ ⟨⟩ b - hbreak
      cases hbreak
  exact fun l hl => EventStream.dataOf_of_starts (p := fun c => JsonSyntax.isStart c = true)
    (by decide) (EventStream.starts_of_mem_tail hchain l hl)

/-- The events of a text whose lines begin the way tokens do, behind `data: `. -/
theorem decode_wrapped {text : List Char} (h : JsonSyntax.LinesStart text) :
    EventStream.decode ("data: ".toList ++ text ++ '\n' :: '\n' :: doneEvent) =
      [firstLine text, "[DONE]".toList] := by
  obtain ⟨ls, hls⟩ := lines_wrapped text
  have hquiet := quiet_wrapped h
  rw [hls, List.tail_cons] at hquiet
  have hquiet' : ∀ l ∈ ls ++ [[]], EventStream.dataOf l = [] := fun l hl =>
    (List.mem_append.1 hl).elim (hquiet l) fun hl => by rw [List.mem_singleton.1 hl]; rfl
  have hlines : EventStream.lines ("data: ".toList ++ text ++ '\n' :: '\n' :: doneEvent) =
      ("data: ".toList ++ firstLine text) :: (ls ++ [[]] ++ EventStream.lines doneEvent) := by
    rw [EventStream.lines_append, List.append_assoc, hls, List.cons_append, List.append_assoc]
    rfl
  have hdata : EventStream.dataOf ("data: ".toList ++ firstLine text) = firstLine text ++ ['\n'] :=
    rfl
  have hdone : EventStream.events [] (EventStream.lines doneEvent) = ["[DONE]".toList] := by decide
  have hne : "data: ".toList ++ firstLine text ≠ [] := List.cons_ne_nil _ _
  rw [EventStream.decode, hlines, EventStream.events_cons hne, hdata,
    List.nil_append, EventStream.events_dispatch (List.concat_ne_nil _ _) hquiet' (by simp), hdone,
    List.dropLast_concat]

/-- The client reads two events: the first line of the reply, and `[DONE]`. -/
theorem streamEvents_wrapJsonAsSse {text : String} {t : Tree} (h : IsJson text.toList t) :
    streamEvents (wrapJsonAsSse (Utf8.encode text)) =
      [firstLine text.toList, "[DONE]".toList] := by
  have htext : ("data: " ++ text ++ "\n\n" ++ "data: [DONE]\n\n").toList =
      "data: ".toList ++ text.toList ++ '\n' :: '\n' :: doneEvent := by
    rw [String.toList_append, String.toList_append, String.toList_append, List.append_assoc]
    rfl
  rw [← decode_wrapped h.linesStart, ← htext, streamEvents, wrapJsonAsSse, Utf8.lossy_encode]
  exact congrArg (fun s => EventStream.decode (String.toList s)) (Utf8.lossy_encode _)

/-- The client reads two events, the first one as the value of the reply. -/
def Lossless {α : Type} (value : Tree → α) (body : List UInt8) (t : Tree) : Prop :=
  ∃ data t', streamEvents (wrapJsonAsSse body) = [data, "[DONE]".toList] ∧ IsJson data t' ∧
    value t' = value t

theorem gap_of_lossless {α : Type} {value : Tree → α} {text : String} {t : Tree}
    (h : IsJson text.toList t) (hlossless : Lossless value (Utf8.encode text) t) :
    Gap (otherLines text.toList) := by
  obtain ⟨data, t', hdata, hread, -⟩ := hlossless
  rw [streamEvents_wrapJsonAsSse h, List.cons_eq_cons] at hdata
  obtain ⟨rfl, -⟩ := hdata
  rw [← firstLine_append_otherLines text.toList] at h
  refine hread.gap_of_append ?_ h
  rcases otherLines_cases text.toList with hother | ⟨c, rest, hother, hc⟩
  · rw [hother]
    exact nofun
  · rw [hother]
    rintro _ ⟨⟩
    exact JsonSyntax.isNumberChar_of_isWs (JsonSyntax.isWs_of_isBreak hc)

theorem lossless_of_gap {α : Type} (value : Tree → α) {text : String} {t : Tree}
    (h : IsJson text.toList t) (hgap : Gap (otherLines text.toList)) :
    Lossless value (Utf8.encode text) t := by
  refine ⟨_, t, streamEvents_wrapJsonAsSse h, ?_, rfl⟩
  rw [← firstLine_append_otherLines text.toList] at h
  exact h.of_append_gap hgap

/-- Wrapping a JSON text is lossless exactly when only white space stands behind its first line. -/
theorem lossless_iff {α : Type} (value : Tree → α) {text : String} {t : Tree}
    (h : IsJson text.toList t) :
    Lossless value (Utf8.encode text) t ↔ Gap (otherLines text.toList) :=
  ⟨gap_of_lossless h, lossless_of_gap value h⟩

theorem lossless_compact :
    ∃ t, IsJson "\x7b\"a\": 1\x7d\r\n".toList t ∧
      Lossless id (Utf8.encode "\x7b\"a\": 1\x7d\r\n") t := by
  obtain ⟨t, ht⟩ : ∃ t, IsJson "\x7b\"a\": 1\x7d\r\n".toList t :=
    JsonSyntax.exists_isJson 4 (by decide +kernel)
  exact ⟨t, ht, (lossless_iff id ht).2 (by decide)⟩

/-- Of a reply over three lines, the client reads an opening brace, which has no value at all. -/
theorem pretty_not_lossless :
    ∃ t, IsJson "\x7b\n \"a\": 1\n\x7d".toList t ∧
      ∀ (α : Type) (value : Tree → α),
        ¬ Lossless value (Utf8.encode "\x7b\n \"a\": 1\n\x7d") t := by
  obtain ⟨t, ht⟩ : ∃ t, IsJson "\x7b\n \"a\": 1\n\x7d".toList t :=
    JsonSyntax.exists_isJson 4 (by decide +kernel)
  refine ⟨t, ht, fun α value h => ?_⟩
  exact absurd (gap_of_lossless ht h) (by decide)

end Mybro
