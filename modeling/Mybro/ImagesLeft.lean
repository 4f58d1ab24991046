import Mybro.Handoff

/-!
# Images that a handoff leaves

The content arrays of a payload go on inside every `tool_result`, those of the system prompt
included; the walk of `collect_image_parts` enters the `tool_result`s of messages once. A handoff
keeps the content arrays (`contentArray_iff`) and leaves exactly the images that were not collected
(`imageIn_iff`): those without a URI, and those further inside (`noImageLeft_iff`).
-/

namespace Mybro

open Value

/-- The places of the arrays of content parts: the system prompt, the content of a message, and the
content of a `tool_result` in such an array. -/
inductive ContentArray (payload : Value) : List Seg → Prop
  | system : ContentArray payload [.key "system"]
  | message (i : ℕ) : ContentArray payload [.key "messages", .idx i, .key "content"]
  | toolResult {path : List Seg} (h : ContentArray payload path) (i : ℕ)
      (ht : partType (path ++ [Seg.idx i]) payload = some "tool_result") :
      ContentArray payload (path ++ [Seg.idx i, .key "content"])

/-- An image part in an array of content parts. -/
def ImageIn (payload : Value) (path : List Seg) : Prop :=
  ∃ p i, ContentArray payload p ∧ path = p ++ [Seg.idx i] ∧ ImageAt path payload

/-- No image part is left in any array of content parts. -/
def NoImageLeft (payload : Value) : Prop := ∀ path, ¬ ImageIn payload path

/-- The part at the place has a URI, and the place is one of the system prompt, of the content of a
message or of a `tool_result` in that content. -/
def Reachable (payload : Value) (path : List Seg) : Prop :=
  WalkPath path ∧ ∃ part uri, getAt path payload = some part ∧ extractImageUri part = some uri

/-- What matters here of a handoff: it changes collected parts only, into texts. -/
structure Handed (payload w : Value) : Prop where
  frame : DiffersOnlyAt (Collected payload) payload w
  texts : ∀ path, Collected payload path → partType path w = some "text"

section Arrays

variable {payload w : Value} {p : List Seg}

/-- A path ends in a position: what is collected around it is collected at it or above. -/
theorem not_collected_concat {i : ℕ} (hp : ∀ q, q <+: p → ¬ Collected payload q)
    (hi : ¬ Collected payload (p ++ [Seg.idx i])) :
    ∀ q, q <+: p ++ [Seg.idx i] → ¬ Collected payload q := by
  intro q hq
  rcases List.prefix_concat_iff.1 hq with rfl | hq
  · exact hi
  · exact hp q hq

/-- Nothing is collected around an array of content parts, as long as the `tool_result`s that it
lies in are not collected. -/
theorem ContentArray.above {v : Value} (h : ContentArray v p)
    (hv : ∀ path, partType path v = some "tool_result" → ¬ Collected payload path) :
    ∀ q, q <+: p → ¬ Collected payload q := by
  induction h with
  | system =>
    intro q hq hcollected
    have hlen := hq.length_le
    cases hcollected.walkPath <;> simp at hlen
  | message i =>
    intro q hq hcollected
    have hlen := hq.length_le
    cases hcollected.walkPath with
    | system j => simp [List.cons_prefix_cons] at hq
    | content j k => simp at hlen
    | nested j k l => simp at hlen
  | @toolResult p h i ht ih =>
    intro q hq
    rw [show p ++ [Seg.idx i, .key "content"] = p ++ [Seg.idx i] ++ [Seg.key "content"] by simp]
      at hq
    rcases List.prefix_concat_iff.1 hq with rfl | hq
    · exact fun hcollected => hcollected.walkPath.ne_key rfl
    · exact not_collected_concat ih (hv _ ht) q hq

theorem Handed.above (hw : Handed payload w) (h : ContentArray w p) :
    ∀ q, q <+: p → ¬ Collected payload q := by
  refine h.above fun path ht hcollected => ?_
  rw [hw.texts path hcollected] at ht
  simp at ht

/-- **A handoff keeps the arrays of content parts.** -/
theorem contentArray_iff (hw : Handed payload w) :
    ContentArray w p ↔ ContentArray payload p := by
  constructor
  · intro h
    induction h with
    | system => exact .system
    | message i => exact .message i
    | @toolResult p h i ht ih =>
      refine .toolResult ih i ?_
      have hi : ¬ Collected payload (p ++ [Seg.idx i]) :=
        hw.above (h.toolResult i ht) _ ⟨[.key "content"], by simp⟩
      rw [← partType_eq hw.frame (not_collected_concat (hw.above h) hi), ht]
  · intro h
    induction h with
    | system => exact .system
    | message i => exact .message i
    | toolResult h i ht ih =>
      refine .toolResult ih i ?_
      have hi := not_collected_of_toolResult ht
      rw [partType_eq hw.frame (not_collected_concat (hw.above ih) hi), ht]

/-- **The images that are left** are those that were not collected. -/
theorem imageIn_iff (hw : Handed payload w) {path : List Seg} :
    ImageIn w path ↔ ImageIn payload path ∧ ¬ Collected payload path := by
  constructor
  · rintro ⟨p, i, hp, rfl, himage⟩
    rw [imageAt_iff] at himage
    have hi : ¬ Collected payload (p ++ [Seg.idx i]) := by
      intro hcollected
      rw [hw.texts _ hcollected] at himage
      simp at himage
    rw [partType_eq hw.frame (not_collected_concat (hw.above hp) hi), ← imageAt_iff] at himage
    exact ⟨⟨p, i, (contentArray_iff hw).1 hp, rfl, himage⟩, hi⟩
  · rintro ⟨⟨p, i, hp, rfl, himage⟩, hi⟩
    have hp' := (contentArray_iff hw).2 hp
    refine ⟨p, i, hp', rfl, ?_⟩
    rw [imageAt_iff] at himage ⊢
    rwa [partType_eq hw.frame (not_collected_concat (hw.above hp') hi)]

end Arrays

/-- The array around a `tool_result`'s content. -/
theorem ContentArray.of_toolResult {payload : Value} (path : List Seg) {i : ℕ}
    (h : ContentArray payload (path ++ [Seg.idx i, .key "content"]))
    (hne : path ≠ [.key "messages"]) :
    partType (path ++ [Seg.idx i]) payload = some "tool_result" := by
  generalize hq : path ++ [Seg.idx i, .key "content"] = q at h
  cases h with
  | system =>
    have hlen := congrArg List.length hq
    simp at hlen
  | message j =>
    have heq : path ++ [Seg.idx i, .key "content"] =
        [Seg.key "messages"] ++ [Seg.idx j, .key "content"] := hq
    exact absurd (List.append_inj_left' heq rfl) hne
  | @toolResult p h j ht =>
    have hpath : path = p := List.append_inj_left' hq rfl
    have hi := List.append_inj_right' hq rfl
    rw [List.cons.injEq, Seg.idx.injEq] at hi
    rw [hpath, hi.1]
    exact ht

/-- Of the images, those are collected that have a URI at a place that is walked. -/
theorem collected_iff {payload : Value} {path : List Seg} (h : ImageIn payload path) :
    Collected payload path ↔ Reachable payload path := by
  constructor
  · rintro ⟨r, hr, rfl⟩
    obtain ⟨⟨hwalk, -⟩, part, hpart, huri⟩ := mem_collectImageParts_iff.1 hr
    exact ⟨hwalk, part, r.dataUri, hpart, huri⟩
  · rintro ⟨hwalk, part, uri, hpart, huri⟩
    refine ⟨⟨path, uri⟩, mem_collectImageParts_iff.2 ⟨⟨hwalk, ?_⟩, part, hpart, huri⟩, rfl⟩
    rintro i j k rfl
    obtain ⟨p, l, hp, heq, -⟩ := h
    have heq' : [Seg.key "messages", .idx i, .key "content", .idx j, .key "content"] ++
        [Seg.idx k] = p ++ [Seg.idx l] := heq
    rw [← List.append_inj_left' heq' rfl] at hp
    exact ContentArray.of_toolResult [.key "messages", .idx i, .key "content"] hp (by simp)

theorem handed_handoffWith {payload : Value} {descriptions : List String}
    (hlen : descriptions.length = (collectImageParts payload).length) :
    Handed payload (handoffWith payload descriptions).1 := by
  rw [handoffWith_eq]
  exact ⟨frame_replaceParts payload descriptions, fun path h => partType_of_collected hlen h⟩

/-- **No image is left exactly when every image has a URI and lies no deeper than the walk goes.**
-/
theorem noImageLeft_iff {payload w : Value} {resolved key : String} {cfg : Config}
    {tr : Prog.Trace Answer}
    (hrun : Prog.Run (performVisionHandoff payload resolved cfg key) tr (.ret w))
    (hneeds : ∀ catalog, ⟨.catalog, catalog⟩ ∈ tr →
      needsVisionHandoff catalog resolved cfg = true) :
    NoImageLeft w ↔ ∀ path, ImageIn payload path → Reachable payload path := by
  obtain ⟨catalog, hcatalog, h⟩ := run_performVisionHandoff hrun
  rw [if_pos (hneeds catalog hcatalog)] at h
  obtain ⟨descriptions, hlen, rfl⟩ := h
  have hw := handed_handoffWith hlen
  constructor
  · intro hleft path himage
    by_contra hreach
    exact hleft path ((imageIn_iff hw).2 ⟨himage, fun h => hreach ((collected_iff himage).1 h)⟩)
  · intro hall path himage
    obtain ⟨himage, hnot⟩ := (imageIn_iff hw).1 himage
    exact hnot ((collected_iff himage).2 (hall path himage))

/-! ### A run with and a run without an image left -/

/-- A configuration and a catalog with a model that cannot see. -/
def handoffConfig : Config := { visionHandoffEnabled := true }

def blindCatalog : Option Catalog :=
  some
    { info := JsonMap.ofList [("m", object (JsonMap.ofList [("capabilities",
        object (JsonMap.ofList [("supports_vision", string "via-handoff")]))]))]
      display := []
      orderedIds := ["m"] }

theorem needsVisionHandoff_blind :
    needsVisionHandoff blindCatalog "m" handoffConfig = true := by decide

/-- An image part with a URL. -/
def imageWithUrl : Value :=
  object (JsonMap.ofList [("type", string "image_url"),
    ("image_url", object (JsonMap.ofList [("url", string "data:,x")]))])

/-- A `tool_result` with one part. -/
def toolResultOf (part : Value) : Value :=
  object (JsonMap.ofList [("type", string "tool_result"), ("content", array [part])])

/-- A payload with one message of one part. -/
def messageOf (part : Value) : Value :=
  object (JsonMap.ofList
    [("messages", array [object (JsonMap.ofList [("content", array [part])])])])

/-- Runs of the handoff on one message part, whose images get the descriptions. -/
theorem exists_run_messageOf (part : Value) (descriptions : List String)
    (hlen : descriptions.length = (collectImageParts (messageOf part)).length) :
    ∃ tr w, Prog.Run (performVisionHandoff (messageOf part) "m" handoffConfig "key") tr (.ret w) ∧
      ∀ catalog, ⟨.catalog, catalog⟩ ∈ tr →
        needsVisionHandoff catalog "m" handoffConfig = true := by
  obtain ⟨tr, hrun, hcatalog⟩ := exists_run_performVisionHandoff needsVisionHandoff_blind
    (messageOf part) "key" descriptions hlen
  refine ⟨tr, _, hrun, fun catalog hmem => ?_⟩
  rw [hcatalog catalog hmem]
  exact needsVisionHandoff_blind

/-- An image in a `tool_result` in a `tool_result` is not even collected. -/
theorem nested_image_left :
    ∃ tr w, Prog.Run (performVisionHandoff (messageOf (toolResultOf (toolResultOf imageWithUrl)))
        "m" handoffConfig "key") tr (.ret w) ∧
      (∀ catalog, ⟨.catalog, catalog⟩ ∈ tr →
        needsVisionHandoff catalog "m" handoffConfig = true) ∧ ¬ NoImageLeft w := by
  obtain ⟨tr, w, hrun, hneeds⟩ :=
    exists_run_messageOf (toolResultOf (toolResultOf imageWithUrl)) [] (by decide)
  refine ⟨tr, w, hrun, hneeds, fun hleft => ?_⟩
  obtain ⟨catalog, hcatalog, h⟩ := run_performVisionHandoff hrun
  rw [if_pos (hneeds catalog hcatalog)] at h
  obtain ⟨descriptions, hlen, rfl⟩ := h
  -- nothing is collected, so the payload is as it was
  have hsame : (handoffWith (messageOf (toolResultOf (toolResultOf imageWithUrl))) descriptions).1 =
      messageOf (toolResultOf (toolResultOf imageWithUrl)) := by
    rw [handoffWith, if_pos (by decide)]
  rw [hsame] at hleft
  have harray : ContentArray (messageOf (toolResultOf (toolResultOf imageWithUrl)))
      [.key "messages", .idx 0, .key "content", .idx 0, .key "content", .idx 0, .key "content"] :=
    @ContentArray.toolResult _ [.key "messages", .idx 0, .key "content", .idx 0, .key "content"]
      (@ContentArray.toolResult _ [.key "messages", .idx 0, .key "content"] (.message 0) 0
        (by decide)) 0 (by decide)
  exact hleft _ ⟨_, 0, harray, rfl, imageAt_iff.2 (Or.inl (by decide))⟩

/-- The arrays of a message whose one part is a `tool_result` with an image. -/
theorem contentArray_toolResultOf {p : List Seg}
    (h : ContentArray (messageOf (toolResultOf imageWithUrl)) p) :
    p = [.key "system"] ∨ (∃ i, p = [.key "messages", .idx i, .key "content"]) ∨
      p = [.key "messages", .idx 0, .key "content", .idx 0, .key "content"] := by
  induction h with
  | system => exact Or.inl rfl
  | message i => exact Or.inr (Or.inl ⟨i, rfl⟩)
  | toolResult h i ht ih =>
    rcases ih with rfl | ⟨j, rfl⟩ | rfl
    · cases ht
    · rcases j with _ | j
      · rcases i with _ | i
        · exact Or.inr (Or.inr rfl)
        · cases ht
      · cases ht
    · rcases i with _ | i
      · exact absurd ht (by decide)
      · cases ht

/-- An image in a `tool_result` is described. -/
theorem noImageLeft_toolResult :
    ∃ tr w, Prog.Run (performVisionHandoff (messageOf (toolResultOf imageWithUrl)) "m" handoffConfig
        "key") tr (.ret w) ∧ NoImageLeft w := by
  obtain ⟨tr, w, hrun, hneeds⟩ := exists_run_messageOf (toolResultOf imageWithUrl) ["a"] (by decide)
  refine ⟨tr, w, hrun, (noImageLeft_iff hrun hneeds).2 fun path himage => ?_⟩
  obtain ⟨p, i, harray, rfl, part, hpart, himage⟩ := himage
  rcases contentArray_toolResultOf harray with rfl | ⟨j, rfl⟩ | rfl
  · cases hpart
  · rcases j with _ | j
    · rcases i with _ | i
      · cases hpart
        exact absurd himage (by decide)
      · cases hpart
    · cases hpart
  · rcases i with _ | i
    · exact ⟨.nested 0 0 0, part, "data:,x", hpart, by cases hpart; decide⟩
    · cases hpart

end Mybro
