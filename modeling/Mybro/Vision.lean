import Mybro.Catalog

/-!
# Vision handoff (`vision.rs`)

Collecting the image parts of a payload, and the loop that replaces them by their descriptions. The
JSON pointers of the source are lists of steps.
-/

namespace Mybro

open Value

/-- `ImageRef`. -/
structure ImageRef where
  path : List Seg
  dataUri : String

/-- `extract_image_uri`. -/
def extractImageUri (part : Value) : Option String :=
  match part.getStr "type" with
  | some "image_url" => (part.get "image_url").bind fun iu => iu.getStr "url"
  | some "image" =>
    match part.get "source" with
    | none => none
    | some source =>
      match source.getStr "type" with
      | some "base64" =>
        (source.getStr "data").map fun data =>
          "data:" ++ (source.getStr "media_type").getD "image/png" ++ ";base64," ++ data
      | some "url" => source.getStr "url"
      | _ => none
  | _ => none

/-- The reference to one part at a path, if it is an image with a URI. -/
def imageRefAt (path : List Seg) (part : Value) : List ImageRef :=
  match extractImageUri part with
  | some uri => [⟨path, uri⟩]
  | none => []

/-- The image parts of an array that lies at a path. -/
def imageRefsIn (path : List Seg) (parts : List Value) : List ImageRef :=
  parts.zipIdx.flatMap fun p => imageRefAt (path ++ [.idx p.2]) p.1

/-- The image parts at one content part of a message, those of a `tool_result` included. -/
def contentImageRefs (path : List Seg) (part : Value) : List ImageRef :=
  imageRefAt path part ++
    if part.getStr "type" = some "tool_result" then
      match (part.get "content").bind asArray with
      | some nested => imageRefsIn (path ++ [.key "content"]) nested
      | none => []
    else []

/-- `collect_image_parts`. -/
def collectImageParts (payload : Value) : List ImageRef :=
  let system := match (payload.get "system").bind asArray with
    | some parts => imageRefsIn [.key "system"] parts
    | none => []
  let messages := match (payload.get "messages").bind asArray with
    | some ms => ms.zipIdx.flatMap fun p =>
        match (p.1.get "content").bind asArray with
        | some content => content.zipIdx.flatMap fun q =>
            contentImageRefs [.key "messages", .idx p.2, .key "content", .idx q.2] q.1
        | none => []
    | none => []
  system ++ messages

/-- The text that stands for the image with number `i` of `count`. -/
def imageLabel (count i : ℕ) (desc : String) : String :=
  let what := " content — analyzed by vision module, shown as text because the active model " ++
    "cannot see images:]\n"
  if count > 1 then "[Image " ++ toString (i + 1) ++ what ++ desc else "[Image" ++ what ++ desc

/-- The replacement loop of `perform_vision_handoff`. -/
def replaceParts (payload : Value) (parts : List ImageRef) (descriptions : List String) : Value :=
  ((parts.zip descriptions).zipIdx.foldl fun v p =>
    modifyAt p.1.1.path (fun _ => object (JsonMap.ofList
      [("type", string "text"), ("text", string (imageLabel parts.length p.2 p.1.2))])) v) payload

/-! ### Where the collected parts lie -/

theorem mem_imageRefAt {path : List Seg} {part : Value} {r : ImageRef}
    (h : r ∈ imageRefAt path part) : r.path = path := by
  unfold imageRefAt at h
  split at h
  · rw [List.mem_singleton.1 h]
  · cases h

theorem mem_imageRefsIn {path : List Seg} {parts : List Value} {r : ImageRef}
    (h : r ∈ imageRefsIn path parts) : ∃ i, r.path = path ++ [.idx i] := by
  obtain ⟨p, -, hp⟩ := List.mem_flatMap.1 h
  exact ⟨p.2, mem_imageRefAt hp⟩

theorem mem_contentImageRefs {path : List Seg} {part : Value} {r : ImageRef}
    (h : r ∈ contentImageRefs path part) : ∃ rest, r.path = path ++ rest := by
  unfold contentImageRefs at h
  rcases List.mem_append.1 h with h | h
  · exact ⟨[], by rw [mem_imageRefAt h, List.append_nil]⟩
  · split_ifs at h
    · split at h
      · obtain ⟨i, hi⟩ := mem_imageRefsIn h
        exact ⟨[.key "content", .idx i], by rw [hi, List.append_assoc]; rfl⟩
      · cases h
    · cases h

/-- Every collected part lies strictly inside the payload, behind an object key. -/
theorem mem_collectImageParts {payload : Value} {r : ImageRef}
    (h : r ∈ collectImageParts payload) : ∃ k rest, r.path = .key k :: rest := by
  unfold collectImageParts at h
  rcases List.mem_append.1 h with h | h
  · split at h
    · obtain ⟨i, hi⟩ := mem_imageRefsIn h
      exact ⟨"system", [.idx i], hi⟩
    · cases h
  · split at h
    · obtain ⟨p, -, hp⟩ := List.mem_flatMap.1 h
      split at hp
      · obtain ⟨q, -, hq⟩ := List.mem_flatMap.1 hp
        obtain ⟨rest, hr⟩ := mem_contentImageRefs hq
        exact ⟨"messages", _, hr⟩
      · cases hp
    · cases h

/-- The replacement loop leaves the shape of the payload alone. -/
theorem isObject_replaceParts (payload : Value) (descriptions : List String) :
    (replaceParts payload (collectImageParts payload) descriptions).isObject =
      payload.isObject := by
  refine isObject_foldl_modifyAt (fun p : (ImageRef × String) × ℕ => p.1.1.path) _
    (fun p hp => ?_) payload
  have hmem : p.1.1 ∈ collectImageParts payload :=
    (List.of_mem_zip (List.fst_mem_of_mem_zipIdx hp)).1
  obtain ⟨k, rest, h⟩ := mem_collectImageParts hmem
  rw [h]
  exact List.cons_ne_nil _ _

end Mybro
