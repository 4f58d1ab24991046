import Mathlib.Data.Set.Card
import Mybro.Handoff
import Mybro.ImageLimit
import Mybro.ImagesLeft

/-!
# The image limit against everything that is forwarded

`limit_images_in_messages` counts and replaces the images of the system prompt and of the contents
of messages. `collect_image_parts` looks inside `tool_result`s too, and what it finds there comes on
top of the limit: `length_collectImageParts_limit` counts both, and `capped_iff` says when the limit
bounds everything all the same.
-/

namespace Mybro

open Value

/-- The part at a place has a URI. -/
def hasUri (payload : Value) (path : List Seg) : Bool :=
  ((getAt path payload).bind extractImageUri).isSome

/-- The newest places of image parts, as many as the limit allows. -/
def newestPlaces (payload : Value) (maxImages : ℕ) : List (List Seg) :=
  (imagePlaces payload).drop ((imagePlaces payload).length - maxImages)

/-- An image with a URI inside a `tool_result`. -/
def NestedImage (payload : Value) (path : List Seg) : Prop :=
  hasUri payload path = true ∧ ∃ i j k,
    path = [.key "messages", .idx i, .key "content", .idx j, .key "content", .idx k] ∧
      partType [.key "messages", .idx i, .key "content", .idx j] payload = some "tool_result"

theorem hasUri_iff {payload : Value} {path : List Seg} :
    hasUri payload path = true ↔
      ∃ part uri, getAt path payload = some part ∧ extractImageUri part = some uri := by
  unfold hasUri
  cases getAt path payload with
  | none => simp
  | some part => simp [Option.isSome_iff_exists]

/-- The places of the collected references. -/
theorem mem_map_path_iff {payload : Value} {path : List Seg} :
    path ∈ (collectImageParts payload).map ImageRef.path ↔
      Walked payload path ∧ hasUri payload path = true := by
  rw [List.mem_map, hasUri_iff]
  constructor
  · rintro ⟨r, hr, rfl⟩
    obtain ⟨hwalked, part, hpart, huri⟩ := mem_collectImageParts_iff.1 hr
    exact ⟨hwalked, part, r.dataUri, hpart, huri⟩
  · rintro ⟨hwalked, part, uri, hpart, huri⟩
    exact ⟨⟨path, uri⟩, mem_collectImageParts_iff.2 ⟨hwalked, part, hpart, huri⟩, rfl⟩

theorem nodup_map_path (payload : Value) : ((collectImageParts payload).map ImageRef.path).Nodup :=
  List.pairwise_map.2 ((pairwise_apart payload).imp fun {r s} (h : Apart r.path s.path)
    (heq : r.path = s.path) => h.1 (heq ▸ List.prefix_rfl))

/-- A list without repetitions is as long as the set of its members is large. -/
theorem length_eq_ncard {α : Type} {l : List α} {s : Set α} (hl : l.Nodup)
    (hs : ∀ x, x ∈ l ↔ x ∈ s) : l.length = s.ncard := by
  classical
  have hset : s = ↑l.toFinset := by
    ext x
    simp [hs]
  rw [hset, Set.ncard_coe_finset, List.toFinset_card_of_nodup hl]

section Limit

variable {payload : Value} {maxImages : ℕ}

/-- Direct images: those left with a URI are the newest. -/
theorem direct_iff (hmax : 1 ≤ maxImages) {path : List Seg} (hpath : ImagePath path) :
    hasUri (limitImagesInMessages payload maxImages) path = true ↔
      path ∈ newestPlaces payload maxImages ∧ hasUri payload path = true := by
  have hsame : path ∈ newestPlaces payload maxImages →
      getAt path (limitImagesInMessages payload maxImages) = getAt path payload := by
    intro h
    refine getAt_limit_of_apart hmax fun p hp => ?_
    refine (imagePath_of_mem (mem_of_mem_oldPlaces hp)).apart hpath fun heq => ?_
    have hnodup : (imagePlaces payload).Nodup := (pairwise_imagePlaces payload).imp Older.ne
    exact List.disjoint_take_drop hnodup le_rfl hp (heq ▸ h)
  constructor
  · intro h
    obtain ⟨part, uri, hpart, huri⟩ := hasUri_iff.1 h
    have hnew : path ∈ newestPlaces payload maxImages :=
      (imagePlace_limit_iff hmax path).1 ⟨hpath, part, hpart, isImagePart_of_uri huri⟩
    refine ⟨hnew, ?_⟩
    rw [hasUri, ← hsame hnew]
    exact h
  · rintro ⟨hnew, h⟩
    rw [hasUri, hsame hnew]
    exact h

/-- Nothing changes inside a `tool_result`, and a replaced part is none. -/
theorem nested_iff (hmax : 1 ≤ maxImages) {path : List Seg} :
    NestedImage (limitImagesInMessages payload maxImages) path ↔ NestedImage payload path := by
  have hpart : ∀ i j, partType [.key "messages", .idx i, .key "content", .idx j]
      (limitImagesInMessages payload maxImages) = some "tool_result" ∨
      partType [.key "messages", .idx i, .key "content", .idx j] payload = some "tool_result" →
      ∀ p ∈ oldPlaces payload maxImages,
        Apart p [.key "messages", .idx i, .key "content", .idx j] := by
    intro i j htype p hp
    have hpath := imagePath_of_mem (mem_of_mem_oldPlaces hp)
    refine hpath.apart (Or.inr ⟨i, j, rfl⟩) ?_
    rintro rfl
    rcases htype with htype | htype
    · rw [partType, getAt_limit_of_old hmax hp] at htype
      revert htype
      decide
    · obtain ⟨-, part, hpart, himage⟩ := (mem_imagePlaces payload _).1 (mem_of_mem_oldPlaces hp)
      rw [partType, hpart, Option.bind_some] at htype
      rw [isImagePart, htype] at himage
      cases himage
  have hsame : ∀ i j, partType [.key "messages", .idx i, .key "content", .idx j]
      (limitImagesInMessages payload maxImages) = some "tool_result" ∨
      partType [.key "messages", .idx i, .key "content", .idx j] payload = some "tool_result" →
      getAt [.key "messages", .idx i, .key "content", .idx j]
        (limitImagesInMessages payload maxImages) =
          getAt [.key "messages", .idx i, .key "content", .idx j] payload :=
    fun i j htype => getAt_limit_of_apart hmax (hpart i j htype)
  have hnested : ∀ v i j k, hasUri v [.key "messages", .idx i, .key "content", .idx j,
      .key "content", .idx k] = (((getAt [.key "messages", .idx i, .key "content", .idx j] v).bind
        (getAt [.key "content", .idx k])).bind extractImageUri).isSome := by
    intro v i j k
    rw [hasUri, ← getAt_append]
    rfl
  constructor
  · rintro ⟨huri, i, j, k, rfl, htype⟩
    have heq := hsame i j (Or.inl htype)
    rw [hnested, heq, ← hnested] at huri
    exact ⟨huri, i, j, k, rfl, by rw [partType, ← heq]; exact htype⟩
  · rintro ⟨huri, i, j, k, rfl, htype⟩
    have heq := hsame i j (Or.inr htype)
    rw [hnested, ← heq, ← hnested] at huri
    exact ⟨huri, i, j, k, rfl, by rw [partType, heq]; exact htype⟩

/-- The two kinds of images with a URI that are walked. -/
theorem walked_iff (v : Value) (path : List Seg) :
    Walked v path ∧ hasUri v path = true ↔
      (ImagePath path ∧ hasUri v path = true) ∨ NestedImage v path := by
  constructor
  · rintro ⟨⟨hwalk, hnested⟩, huri⟩
    cases hwalk with
    | system i => exact Or.inl ⟨Or.inl ⟨i, rfl⟩, huri⟩
    | content i j => exact Or.inl ⟨Or.inr ⟨i, j, rfl⟩, huri⟩
    | nested i j k => exact Or.inr ⟨huri, i, j, k, rfl, hnested i j k rfl⟩
  · rintro (⟨⟨i, rfl⟩ | ⟨i, j, rfl⟩, huri⟩ | ⟨huri, i, j, k, rfl, htype⟩)
    · exact ⟨⟨.system i, fun _ _ _ h => by simp at h⟩, huri⟩
    · exact ⟨⟨.content i j, fun _ _ _ h => by simp at h⟩, huri⟩
    · refine ⟨⟨.nested i j k, fun i' j' k' h => ?_⟩, huri⟩
      simp only [List.cons.injEq, Seg.idx.injEq, true_and, and_true] at h
      obtain ⟨rfl, rfl, -⟩ := h
      exact htype

/-- **What is forwarded under a limit**: of the newest direct images those with a URI, and all that
lie in `tool_result`s. -/
theorem length_collectImageParts_limit (hmax : 1 ≤ maxImages) :
    (collectImageParts (limitImagesInMessages payload maxImages)).length =
      (newestPlaces payload maxImages).countP (hasUri payload) +
        {path | NestedImage payload path}.ncard := by
  set w := limitImagesInMessages payload maxImages
  set direct := (newestPlaces payload maxImages).filter (hasUri payload)
  have hnodup : direct.Nodup :=
    (((pairwise_imagePlaces payload).imp Older.ne).sublist (List.drop_sublist _ _)).filter _
  have hmem : ∀ path, path ∈ (collectImageParts w).map ImageRef.path ↔
      path ∈ {path | path ∈ direct} ∪ {path | NestedImage payload path} := by
    intro path
    rw [mem_map_path_iff, walked_iff, nested_iff hmax, Set.mem_union, Set.mem_ofPred_eq,
      Set.mem_ofPred_eq, List.mem_filter]
    refine or_congr_left ⟨fun ⟨hpath, h⟩ => (direct_iff hmax hpath).1 h, fun h => ?_⟩
    have hpath := imagePath_of_mem (List.mem_of_mem_drop h.1)
    exact ⟨hpath, (direct_iff hmax hpath).2 h⟩
  have hdisjoint : Disjoint {path | path ∈ direct} {path | NestedImage payload path} := by
    rw [Set.disjoint_left]
    rintro path hdirect ⟨-, i, j, k, rfl, -⟩
    rcases imagePath_of_mem (List.mem_of_mem_drop (List.mem_filter.1 hdirect).1) with
      ⟨l, h⟩ | ⟨l, m, h⟩
    · simp at h
    · simp at h
  have hfinite : {path | NestedImage payload path}.Finite := by
    refine (List.finite_toSet ((collectImageParts w).map ImageRef.path)).subset fun path h => ?_
    exact (hmem path).2 (Or.inr h)
  rw [← List.length_map (f := ImageRef.path), length_eq_ncard (nodup_map_path w) hmem,
    Set.ncard_union_eq hdisjoint direct.finite_toSet hfinite,
    ← length_eq_ncard (s := {path | path ∈ direct}) hnodup fun _ => Iff.rfl,
    List.countP_eq_length_filter]

end Limit

/-- **The limit bounds everything that is forwarded** exactly when the images in `tool_result`s
leave room for the newest direct ones. -/
theorem capped_iff (payload : Value) (maxImages : ℕ) (hmax : 1 ≤ maxImages) :
    (collectImageParts (limitImagesInMessages payload maxImages)).length ≤ maxImages ↔
      (newestPlaces payload maxImages).countP (hasUri payload) +
        {path | NestedImage payload path}.ncard ≤ maxImages := by
  rw [length_collectImageParts_limit hmax]

/-- A message with an image of its own and a `tool_result` with another one. -/
def imageAndScreenshot : Value :=
  object (JsonMap.ofList [("messages", array [object (JsonMap.ofList
    [("content", array [imageWithUrl, toolResultOf imageWithUrl])])])])

theorem nestedImage_imageAndScreenshot {path : List Seg}
    (h : NestedImage imageAndScreenshot path) :
    path = [.key "messages", .idx 0, .key "content", .idx 1, .key "content", .idx 0] := by
  obtain ⟨huri, i, j, k, rfl, htype⟩ := h
  rcases i with _ | i
  · rcases j with _ | _ | j
    · exact absurd htype (by decide)
    · rcases k with _ | k
      · rfl
      · cases huri
    · cases htype
  · cases htype

/-- A limit of two lets both through, and bounds them. -/
theorem capped_two :
    (collectImageParts imageAndScreenshot).length = 2 ∧
      (collectImageParts (limitImagesInMessages imageAndScreenshot 2)).length ≤ 2 := by
  refine ⟨by decide, (capped_iff imageAndScreenshot 2 (by decide)).2 ?_⟩
  have hdirect : (newestPlaces imageAndScreenshot 2).countP (hasUri imageAndScreenshot) = 1 := by
    decide
  have hsub : {path | NestedImage imageAndScreenshot path} ⊆
      {[.key "messages", .idx 0, .key "content", .idx 1, .key "content", .idx 0]} :=
    fun path h => nestedImage_imageAndScreenshot h
  have hnested := (Set.ncard_le_ncard hsub).trans_eq (Set.ncard_singleton _)
  omega

/-- A `tool_result` with two images. -/
def twoScreenshots : Value :=
  object (JsonMap.ofList
    [("type", string "tool_result"), ("content", array [imageWithUrl, imageWithUrl])])

/-- They pass a limit of one. -/
theorem twoScreenshots_not_capped :
    ¬ (collectImageParts (limitImagesInMessages (messageOf twoScreenshots) 1)).length ≤ 1 := by
  decide

end Mybro
