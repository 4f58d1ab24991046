import Mybro.Catalog

/-!
# Payload normalization (`payload.rs`)

The transformations of a request body, on JSON values of any shape. Two operations can panic in the
source and are partial here: slicing a string at a byte offset, and assigning through a string
index.
-/

namespace Mybro

open Value

/-! ### Reasoning content and thinking -/

/-- The loop body of `strip_reasoning_content`. -/
def stripMessage (msg : Value) : Value :=
  if msg.getStr "role" = some "assistant" then
    msg.modifyObject fun m => (m.remove "reasoning_content").remove "reasoningContent"
  else msg

/-- `strip_reasoning_content`. -/
def stripReasoningContent (payload : Value) : Value :=
  payload.modify "messages" fun ms => ms.modifyArray (List.map stripMessage)

/-- The change `normalize_thinking_payload` makes to the `thinking` object. -/
def renameBudgetTokens (thinking : JsonMap) : JsonMap :=
  match thinking.get "budgetTokens", thinking.get "budget_tokens" with
  | some v, none => (thinking.remove "budgetTokens").insert "budget_tokens" v
  | _, _ => thinking

/-- `normalize_thinking_payload`. -/
def normalizeThinkingPayload (payload : Value) : Value :=
  payload.modify "thinking" fun t => t.modifyObject renameBudgetTokens

/-- `apply_auto_think`; `none` where the index assignment panics. -/
def applyAutoThink (catalog : Option Catalog) (payload : Value) (resolvedModel : String) :
    Option Value :=
  let reasoning := ((catalog.bind fun cat => cat.info.get resolvedModel).bind
    fun info => info.get "capabilities").bind fun caps => caps.get "reasoning"
  match reasoning with
  | none => some payload
  | some reasoning =>
    let supported := ((reasoning.get "supported").bind asBool).getD false
    let canDisable := ((reasoning.get "can_disable").bind asBool).getD false
    if supported && !canDisable then
      payload.setIndex "thinking" (object (JsonMap.ofList [("type", string "adaptive")]))
    else some payload

/-! ### Limiting images -/

/-- `ImagePos`, with the JSON pointer as its list of steps; the message index is -1 for `system`. -/
structure ImagePos where
  path : List Seg
  msgIndex : ℤ

/-- `is_image_part`. -/
def isImagePart (part : Value) : Bool :=
  match part.getStr "type" with
  | some t => t = "image_url" || t = "image"
  | none => false

/-- The positions of the image parts of one array, which lies at a path. -/
def positionsIn (path : List Seg) (msgIndex : ℤ) (parts : List Value) : List ImagePos :=
  parts.zipIdx.filterMap fun p =>
    if isImagePart p.1 then some ⟨path ++ [.idx p.2], msgIndex⟩ else none

/-- The first half of `limit_images_in_messages`: all image parts, those of `system` first. -/
def imagePositions (payload : Value) : List ImagePos :=
  let system := match (payload.get "system").bind asArray with
    | some parts => positionsIn [.key "system"] (-1) parts
    | none => []
  let messages := match (payload.get "messages").bind asArray with
    | some ms => ms.zipIdx.flatMap fun p =>
        match (p.1.get "content").bind asArray with
        | some parts => positionsIn [.key "messages", .idx p.2, .key "content"] p.2 parts
        | none => []
    | none => []
  system ++ messages

/-- The text part that stands for a removed image. -/
def previouslyShared : Value :=
  object (JsonMap.ofList [("type", string "text"), ("text", string "(Image previously shared)")])

/-- `limit_images_in_messages`. -/
def limitImagesInMessages (payload : Value) (maxImages : ℕ) : Value :=
  if maxImages = 0 then payload
  else
    let positions := imagePositions payload
    let count := positions.length
    if count ≤ maxImages then payload
    else
      let sorted := positions.mergeSort fun a b => a.msgIndex ≤ b.msgIndex
      (sorted.take (count - maxImages)).foldl
        (fun v pos => modifyAt pos.path (fun _ => previouslyShared) v) payload

/-- The paths at which image parts are looked for. -/
def ImagePath (path : List Seg) : Prop :=
  (∃ i, path = [.key "system", .idx i]) ∨
    ∃ i j, path = [.key "messages", .idx i, .key "content", .idx j]

/-- A place of an image part in a payload. -/
def ImagePlace (payload : Value) (path : List Seg) : Prop :=
  ImagePath path ∧ ∃ part, getAt path payload = some part ∧ isImagePart part = true

theorem ImagePath.ne_nil {path : List Seg} (h : ImagePath path) : path ≠ [] := by
  rcases h with ⟨i, rfl⟩ | ⟨i, j, rfl⟩
  · simp
  · simp

theorem mem_positionsIn {path : List Seg} {i : ℤ} {parts : List Value} {pos : ImagePos}
    (h : pos ∈ positionsIn path i parts) :
    ∃ j part, pos.path = path ++ [.idx j] ∧ parts[j]? = some part ∧ isImagePart part = true := by
  obtain ⟨⟨part, j⟩, hmem, hp⟩ := List.mem_filterMap.1 h
  split_ifs at hp with himage
  cases hp
  exact ⟨j, part, rfl, List.mk_mem_zipIdx_iff_getElem?.1 hmem, himage⟩

/-- The collected positions are places of image parts. -/
theorem mem_imagePositions {payload : Value} {pos : ImagePos} (h : pos ∈ imagePositions payload) :
    ImagePlace payload pos.path := by
  unfold imagePositions at h
  rcases List.mem_append.1 h with h | h
  · split at h
    · rename_i parts hparts
      obtain ⟨j, part, hpath, hpart, himage⟩ := mem_positionsIn h
      rw [hpath]
      refine ⟨Or.inl ⟨j, rfl⟩, part, ?_, himage⟩
      obtain ⟨system, hsystem, harr⟩ := Option.bind_eq_some_iff.1 hparts
      simp [getAt, hsystem, harr, hpart]
    · cases h
  · split at h
    · rename_i ms hms
      obtain ⟨⟨msg, i⟩, hmem, hp⟩ := List.mem_flatMap.1 h
      split at hp
      · rename_i parts hparts
        obtain ⟨j, part, hpath, hpart, himage⟩ := mem_positionsIn hp
        rw [hpath]
        refine ⟨Or.inr ⟨i, j, rfl⟩, part, ?_, himage⟩
        obtain ⟨messages, hmessages, harr⟩ := Option.bind_eq_some_iff.1 hms
        obtain ⟨content, hcontent, harr'⟩ := Option.bind_eq_some_iff.1 hparts
        have hmsg : ms[i]? = some msg := List.mk_mem_zipIdx_iff_getElem?.1 hmem
        simp [getAt, hmessages, harr, hmsg, hcontent, harr', hpart]
      · cases hp
    · cases h

/-! ### Message text -/

/-- `msg_text`. -/
def msgText (m : Value) : String :=
  match (m.get "content").bind asStr with
  | some s => s
  | none =>
    match (m.get "content").bind asArray with
    | some parts =>
      (parts.findSome? fun part =>
        if part.getStr "type" = some "text" then part.getStr "text" else none).getD ""
    | none => ""

/-- Whether a message is the user's. -/
def isUser (msg : Value) : Bool := decide (msg.getStr "role" = some "user")

/-- Two hexadecimal digits of a byte. -/
def hexByte (b : UInt8) : List Char := [hexDigit (b.toNat / 16), hexDigit (b.toNat % 16)]

/-- `fingerprint_payload`, for a digest function in the place of MD5. -/
def fingerprintPayload (md5 : String → List UInt8) (payload : Value) : String :=
  match (payload.get "messages").bind asArray with
  | none => ""
  | some ms =>
    (ms.findSome? fun msg =>
      if isUser msg && msgText msg ≠ "" then
        some (String.ofList (((md5 (msgText msg)).flatMap hexByte).take 12))
      else none).getD ""

/-! ### The first prompt -/

/-- `strip_bracket_prefix`; `none` where the slice panics. -/
def stripBracketPrefix (s : String) : Option String :=
  if s.toList.head? = some '[' then
    match Utf8.find ']' s.toList with
    | some pos => (Utf8.sliceFrom s (pos + 1)).map Utf8.trimStart
    | none => some s
  else some s

/-- `extract_user_prompt`; `none` where a slice panics. -/
def extractUserPrompt (payload : Value) : Option String :=
  match (payload.get "messages").bind asArray with
  | none => some ""
  | some ms =>
    match ms.reverse.find? isUser with
    | some msg => stripBracketPrefix (msgText msg)
    | none => some ""

/-- The text of the `first prompt` log line of both pipelines; `none` where a slice panics. -/
def firstPrompt (payload : Value) : Option String :=
  (extractUserPrompt payload).bind fun prompt =>
    if Utf8.len prompt > 80 then Utf8.sliceTo prompt 80 else some prompt

end Mybro
