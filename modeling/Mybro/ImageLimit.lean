import Mybro.PayloadFrame
import Mybro.Pointer

/-!
# The image limit keeps the newest

The positions that `limit_images_in_messages` collects are exactly the places of image parts
(`mem_imagePlaces`), in the order of their age (`pairwise_imagePlaces`), so the sort that follows
does nothing and what is replaced are the oldest ones (`capped_limitImagesInMessages`).
-/

namespace Mybro

open Value

/-- The image part at the first place is older than the one at the second: the system prompt comes
before all messages. -/
inductive Older : List Seg → List Seg → Prop
  | system {i j : ℕ} (h : i < j) : Older [.key "system", .idx i] [.key "system", .idx j]
  | systemFirst (i j k : ℕ) :
      Older [.key "system", .idx i] [.key "messages", .idx j, .key "content", .idx k]
  | message {i j : ℕ} (h : i < j) (k l : ℕ) :
      Older [.key "messages", .idx i, .key "content", .idx k]
        [.key "messages", .idx j, .key "content", .idx l]
  | part (i : ℕ) {k l : ℕ} (h : k < l) :
      Older [.key "messages", .idx i, .key "content", .idx k]
        [.key "messages", .idx i, .key "content", .idx l]

/-- The places of the image parts, oldest first. -/
def imagePlaces (payload : Value) : List (List Seg) := (imagePositions payload).map ImagePos.path

/-- The places of the parts that are too many. -/
def oldPlaces (payload : Value) (maxImages : ℕ) : List (List Seg) :=
  (imagePlaces payload).take ((imagePlaces payload).length - maxImages)

/-- What capping the images of a payload at `maxImages` comes to: `places` has the image parts,
oldest first; those that are too many have become the fixed text, the others are left and nothing
else has changed. -/
structure Capped (payload : Value) (maxImages : ℕ) (places : List (List Seg)) (w : Value) :
    Prop where
  byAge : places.Pairwise Older
  all : ∀ path, path ∈ places ↔ ImagePlace payload path
  shared : ∀ path ∈ places.take (places.length - maxImages), getAt path w = some previouslyShared
  frame : DiffersOnlyAt (· ∈ places.take (places.length - maxImages)) payload w
  left : ∀ path, ImagePlace w path ↔ path ∈ places.drop (places.length - maxImages)
  count : (places.drop (places.length - maxImages)).length = min places.length maxImages

theorem Older.ne {p q : List Seg} (h : Older p q) : p ≠ q := by
  intro heq
  cases h with
  | system h => simp at heq; omega
  | systemFirst i j k => simp at heq
  | message h k l => simp at heq; omega
  | part i h => simp at heq; omega

/-! ### The order of the positions -/

/-- Positions in the order of their age. -/
def Ordered (a b : ImagePos) : Prop := a.msgIndex ≤ b.msgIndex ∧ Older a.path b.path

theorem msgIndex_of_mem {path : List Seg} {i : ℤ} {parts : List Value} {pos : ImagePos}
    (h : pos ∈ positionsIn path i parts) : pos.msgIndex = i := by
  obtain ⟨p, -, hp⟩ := List.mem_filterMap.1 h
  split_ifs at hp
  cases hp
  rfl

/-- The positions in one array, when parts further on are younger. -/
theorem pairwise_positionsIn {path : List Seg} {i : ℤ} (parts : List Value)
    (holder : ∀ j k, j < k → Older (path ++ [Seg.idx j]) (path ++ [Seg.idx k])) :
    (positionsIn path i parts).Pairwise Ordered := by
  refine List.pairwise_filterMap.2 ((pairwise_zipIdx parts).imp fun hlt a ha b hb => ?_)
  split_ifs at ha hb
  cases ha
  cases hb
  exact ⟨le_rfl, holder _ _ hlt⟩

/-- The collected positions are in the order of their age already. -/
theorem pairwise_imagePositions (payload : Value) : (imagePositions payload).Pairwise Ordered := by
  unfold imagePositions
  refine List.pairwise_append.2 ⟨?_, ?_, ?_⟩
  · split
    · exact pairwise_positionsIn _ fun j k h => .system h
    · exact List.Pairwise.nil
  · split
    · rename_i ms hms
      refine List.pairwise_flatMap.2 ⟨fun p _ => ?_, (pairwise_zipIdx ms).imp ?_⟩
      · split
        · exact pairwise_positionsIn _ fun j k h => .part p.2 h
        · exact List.Pairwise.nil
      · intro p q hlt a ha b hb
        split at ha
        · split at hb
          · obtain ⟨j, -, hpath, -⟩ := mem_positionsIn ha
            obtain ⟨k, -, hpath', -⟩ := mem_positionsIn hb
            rw [Ordered, msgIndex_of_mem ha, msgIndex_of_mem hb, hpath, hpath']
            exact ⟨by exact_mod_cast hlt.le, .message hlt j k⟩
          · cases hb
        · cases ha
    · exact List.Pairwise.nil
  · intro a ha b hb
    split at ha
    · split at hb
      · obtain ⟨p, -, hb⟩ := List.mem_flatMap.1 hb
        split at hb
        · obtain ⟨j, -, hpath, -⟩ := mem_positionsIn ha
          obtain ⟨k, -, hpath', -⟩ := mem_positionsIn hb
          rw [Ordered, msgIndex_of_mem ha, msgIndex_of_mem hb, hpath, hpath']
          exact ⟨by omega, .systemFirst j p.2 k⟩
        · cases hb
      · cases hb
    · cases ha

theorem pairwise_imagePlaces (payload : Value) : (imagePlaces payload).Pairwise Older :=
  List.pairwise_map.2 ((pairwise_imagePositions payload).imp fun h => h.2)

/-- The sort finds the positions sorted. -/
theorem mergeSort_imagePositions (payload : Value) :
    (imagePositions payload).mergeSort (fun a b => a.msgIndex ≤ b.msgIndex) =
      imagePositions payload :=
  List.mergeSort_of_pairwise ((pairwise_imagePositions payload).imp fun h => decide_eq_true h.1)

/-! ### All places are collected -/

/-- Every image part of an array has a position. -/
theorem exists_mem_positionsIn (path : List Seg) {i : ℤ} {parts : List Value} {j : ℕ} {part : Value}
    (hpart : parts[j]? = some part) (himage : isImagePart part = true) :
    ⟨path ++ [Seg.idx j], i⟩ ∈ positionsIn path i parts :=
  List.mem_filterMap.2 ⟨(part, j), List.mk_mem_zipIdx_iff_getElem?.2 hpart, if_pos himage⟩

theorem mem_imagePlaces (payload : Value) (path : List Seg) :
    path ∈ imagePlaces payload ↔ ImagePlace payload path := by
  constructor
  · intro h
    obtain ⟨pos, hpos, rfl⟩ := List.mem_map.1 h
    exact mem_imagePositions hpos
  · rintro ⟨⟨j, rfl⟩ | ⟨i, j, rfl⟩, part, hpart, himage⟩
    · simp only [getAt, Option.bind_eq_some_iff, Option.some.injEq, exists_eq_right] at hpart
      obtain ⟨system, hsystem, parts, hparts, hpart⟩ := hpart
      have harr : (payload.get "system").bind asArray = some parts := by
        rw [hsystem, Option.bind_some, hparts]
      refine List.mem_map_of_mem (f := ImagePos.path) (List.mem_append_left _ ?_)
        (a := ⟨[.key "system", .idx j], -1⟩)
      rw [harr]
      exact exists_mem_positionsIn [.key "system"] hpart himage
    · simp only [getAt, Option.bind_eq_some_iff, Option.some.injEq, exists_eq_right] at hpart
      obtain ⟨messages, hmessages, msg, ⟨ms, hms, hmsg⟩, content, hcontent, parts, hparts,
        hpart⟩ := hpart
      have harr : (payload.get "messages").bind asArray = some ms := by
        rw [hmessages, Option.bind_some, hms]
      have harr' : (msg.get "content").bind asArray = some parts := by
        rw [hcontent, Option.bind_some, hparts]
      refine List.mem_map_of_mem (f := ImagePos.path) (List.mem_append_right _ ?_)
        (a := ⟨[.key "messages", .idx i, .key "content", .idx j], i⟩)
      rw [harr]
      refine List.mem_flatMap.2 ⟨(msg, i), List.mk_mem_zipIdx_iff_getElem?.2 hmsg, ?_⟩
      simp only [harr']
      exact exists_mem_positionsIn [.key "messages", .idx i, .key "content"] hpart himage

/-- Places of image parts lie apart. -/
theorem ImagePath.apart {p q : List Seg} (hp : ImagePath p) (hq : ImagePath q) (hne : p ≠ q) :
    Apart p q :=
  ⟨fun h => hne (hp.eq_of_inside hq h), fun h => hne (hq.eq_of_inside hp h).symm⟩

theorem imagePath_of_mem {payload : Value} {path : List Seg} (h : path ∈ imagePlaces payload) :
    ImagePath path :=
  ((mem_imagePlaces payload path).1 h).1

/-! ### The limit -/

/-- The limit stores the text at the places of the parts that are too many, one after another. -/
theorem limitImagesInMessages_eq {payload : Value} {maxImages : ℕ} (hmax : 1 ≤ maxImages) :
    limitImagesInMessages payload maxImages =
      (oldPlaces payload maxImages).foldl (fun v p => modifyAt p (fun _ => previouslyShared) v)
        payload := by
  have hlen : (imagePlaces payload).length = (imagePositions payload).length := List.length_map _
  unfold limitImagesInMessages oldPlaces
  simp only [hlen]
  rw [if_neg (by omega)]
  split_ifs with hcount
  · rw [Nat.sub_eq_zero_of_le hcount, List.take_zero, List.foldl_nil]
  · rw [mergeSort_imagePositions, imagePlaces, ← List.map_take, List.foldl_map]

section Places

variable {payload : Value} {maxImages : ℕ}

theorem mem_of_mem_oldPlaces {path : List Seg} (h : path ∈ oldPlaces payload maxImages) :
    path ∈ imagePlaces payload :=
  List.mem_of_mem_take h

/-- What lies apart from the replaced parts stays. -/
theorem getAt_limit_of_apart (hmax : 1 ≤ maxImages) {path : List Seg}
    (h : ∀ p ∈ oldPlaces payload maxImages, Apart p path) :
    getAt path (limitImagesInMessages payload maxImages) = getAt path payload := by
  rw [limitImagesInMessages_eq hmax]
  exact getAt_foldl_of_apart h (fun _ _ => previouslyShared) payload

/-- Where a part was too many there is the text. -/
theorem getAt_limit_of_old (hmax : 1 ≤ maxImages) {path : List Seg}
    (h : path ∈ oldPlaces payload maxImages) :
    getAt path (limitImagesInMessages payload maxImages) = some previouslyShared := by
  have hapart : (oldPlaces payload maxImages).Pairwise fun p q => Apart p q := by
    refine ((pairwise_imagePlaces payload).sublist (List.take_sublist _ _)).imp_of_mem ?_
    intro p q hp hq holder
    exact (imagePath_of_mem (mem_of_mem_oldPlaces hp)).apart
      (imagePath_of_mem (mem_of_mem_oldPlaces hq)) holder.ne
  obtain ⟨-, part, hpart, -⟩ := (mem_imagePlaces payload path).1 (mem_of_mem_oldPlaces h)
  rw [limitImagesInMessages_eq hmax]
  refine (getAt_foldl_of_mem hapart h (fun _ _ => previouslyShared) payload).trans ?_
  rw [hpart]
  rfl

/-- **The image parts that are left**: the newest. -/
theorem imagePlace_limit_iff (hmax : 1 ≤ maxImages) (path : List Seg) :
    ImagePlace (limitImagesInMessages payload maxImages) path ↔
      path ∈ (imagePlaces payload).drop ((imagePlaces payload).length - maxImages) := by
  have hnodup : (imagePlaces payload).Nodup := (pairwise_imagePlaces payload).imp Older.ne
  have hsame : ImagePath path → path ∉ oldPlaces payload maxImages →
      getAt path (limitImagesInMessages payload maxImages) = getAt path payload := by
    intro hpath hold
    refine getAt_limit_of_apart hmax fun p hp => ?_
    exact (imagePath_of_mem (mem_of_mem_oldPlaces hp)).apart hpath fun heq => hold (heq ▸ hp)
  constructor
  · rintro ⟨hpath, part, hpart, himage⟩
    by_cases hold : path ∈ oldPlaces payload maxImages
    · -- the text is no image part
      rw [getAt_limit_of_old hmax hold] at hpart
      obtain rfl := Option.some.inj hpart
      exact absurd himage (by decide)
    · have hmem : path ∈ imagePlaces payload := by
        refine (mem_imagePlaces payload path).2 ⟨hpath, part, ?_, himage⟩
        rw [← hsame hpath hold, hpart]
      rw [← List.take_append_drop ((imagePlaces payload).length - maxImages) (imagePlaces payload)]
        at hmem
      exact (List.mem_append.1 hmem).resolve_left hold
  · intro h
    obtain ⟨hpath, part, hpart, himage⟩ := (mem_imagePlaces payload path).1 (List.mem_of_mem_drop h)
    refine ⟨hpath, part, ?_, himage⟩
    rw [hsame hpath fun hold => List.disjoint_take_drop hnodup le_rfl hold h, hpart]

end Places

/-- The number of the image parts is that of their places. -/
theorem length_imagePlaces {payload : Value} {places : List (List Seg)} (h : places.Nodup)
    (hall : ∀ path, ImagePlace payload path ↔ path ∈ places) :
    (imagePlaces payload).length = places.length := by
  have hnodup : (imagePlaces payload).Nodup := (pairwise_imagePlaces payload).imp Older.ne
  refine ((List.perm_ext_iff_of_nodup hnodup h).2 fun path => ?_).length_eq
  rw [mem_imagePlaces, hall]

/-- A payload without too many images is left alone. -/
theorem limitImagesInMessages_of_le {payload : Value} {maxImages : ℕ} (hmax : 1 ≤ maxImages)
    (h : (imagePlaces payload).length ≤ maxImages) :
    limitImagesInMessages payload maxImages = payload := by
  rw [limitImagesInMessages_eq hmax, oldPlaces, Nat.sub_eq_zero_of_le h, List.take_zero,
    List.foldl_nil]

/-- **The limit is exact and keeps the newest**, and applying it again changes nothing. -/
theorem capped_limitImagesInMessages (payload : Value) (maxImages : ℕ) (hmax : 1 ≤ maxImages) :
    Capped payload maxImages (imagePlaces payload) (limitImagesInMessages payload maxImages) ∧
      limitImagesInMessages (limitImagesInMessages payload maxImages) maxImages =
        limitImagesInMessages payload maxImages := by
  have hcount : ((imagePlaces payload).drop ((imagePlaces payload).length - maxImages)).length =
      min (imagePlaces payload).length maxImages := by
    rw [List.length_drop]
    omega
  refine ⟨⟨pairwise_imagePlaces payload, mem_imagePlaces payload, ?_, ?_, ?_, hcount⟩, ?_⟩
  · exact fun path h => getAt_limit_of_old hmax h
  · rw [limitImagesInMessages_eq hmax]
    exact DiffersOnlyAt.foldl_modifyAt id (fun p hp => hp) (fun _ _ => previouslyShared) payload
  · exact imagePlace_limit_iff hmax
  · have hnodup : (imagePlaces payload).Nodup := (pairwise_imagePlaces payload).imp Older.ne
    refine limitImagesInMessages_of_le hmax ?_
    rw [length_imagePlaces (hnodup.sublist (List.drop_sublist _ _)) (imagePlace_limit_iff hmax),
      hcount]
    exact min_le_right _ _

/-- A system prompt that is an image, and a message with another one. -/
def twoImages : Value :=
  object (JsonMap.ofList
    [("system", array [object (JsonMap.ofList [("type", string "image")])]),
      ("messages", array [object (JsonMap.ofList
        [("content", array [object (JsonMap.ofList [("type", string "image_url")])])])])])

/-- Of two images the one in the system prompt goes. -/
theorem capped_twoImages :
    (imagePlaces twoImages).length = 2 ∧
      Capped twoImages 1 (imagePlaces twoImages) (limitImagesInMessages twoImages 1) :=
  ⟨by decide, (capped_limitImagesInMessages twoImages 1 le_rfl).1⟩

/-! ### By the path texts -/

/-- **The limit as the source writes it**, with the paths printed and parsed again. -/
theorem limitImagesInMessages_eq_navigate {payload : Value} {maxImages : ℕ} (hmax : 1 ≤ maxImages)
    (hfits : ∀ p ∈ imagePlaces payload, Fits p) :
    limitImagesInMessages payload maxImages =
      (oldPlaces payload maxImages).foldl
        (fun v p => navigatePointerMut (pointerText p) (fun _ => previouslyShared) v) payload := by
  rw [limitImagesInMessages_eq hmax]
  refine List.foldl_ext _ _ _ fun v p hp => ?_
  have hmem : p ∈ imagePlaces payload := mem_of_mem_oldPlaces hp
  have hpath : ImagePath p := imagePath_of_mem hmem
  refine (navigatePointerMut_pointerText hpath.ne_nil (plainSeg_of_imageKeys ?_ (hfits p hmem))
    _ v).symm
  rcases hpath with ⟨i, rfl⟩ | ⟨i, j, rfl⟩
  · simp [imageKeys]
  · simp [imageKeys]

end Mybro
