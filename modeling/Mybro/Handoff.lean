import Mybro.Lib.JsonFrame
import Mybro.Pipeline
import Mybro.Pointer

/-!
# What a vision handoff replaces

The collected references are the parts with a URI at the places where `collect_image_parts` looks
(`mem_collectImageParts_iff`), and they lie apart from one another (`pairwise_apart`); so the loop
puts each description where its image was and changes nothing else (`replaced_handoff`).
-/

namespace Mybro

open Value Prog

/-! ### The places that are walked -/

/-- The places at which `collect_image_parts` looks for images. -/
inductive WalkPath : List Seg → Prop
  | system (i : ℕ) : WalkPath [.key "system", .idx i]
  | content (i j : ℕ) : WalkPath [.key "messages", .idx i, .key "content", .idx j]
  | nested (i j k : ℕ) :
      WalkPath [.key "messages", .idx i, .key "content", .idx j, .key "content", .idx k]

/-- The type of the part at a place. -/
def partType (path : List Seg) (v : Value) : Option String :=
  (getAt path v).bind fun part => part.getStr "type"

/-- A place of the payload that is walked: a nested one only inside a `tool_result`. -/
def Walked (payload : Value) (path : List Seg) : Prop :=
  WalkPath path ∧ ∀ i j k,
    path = [.key "messages", .idx i, .key "content", .idx j, .key "content", .idx k] →
      partType [.key "messages", .idx i, .key "content", .idx j] payload = some "tool_result"

/-- The part has a URI only if it is an image. -/
theorem isImagePart_of_uri {part : Value} {uri : String} (h : extractImageUri part = some uri) :
    isImagePart part = true := by
  unfold extractImageUri at h
  unfold isImagePart
  split at h
  · rename_i htype
    rw [htype]
    rfl
  · rename_i htype
    rw [htype]
    rfl
  · cases h

theorem mem_imageRefAt_iff {path : List Seg} {part : Value} {r : ImageRef} :
    r ∈ imageRefAt path part ↔ r.path = path ∧ extractImageUri part = some r.dataUri := by
  unfold imageRefAt
  cases extractImageUri part with
  | none => simp
  | some uri =>
    rw [List.mem_singleton]
    constructor
    · rintro rfl
      exact ⟨rfl, rfl⟩
    · rintro ⟨hpath, huri⟩
      obtain ⟨path', uri'⟩ := r
      cases hpath
      cases huri
      rfl

theorem mem_imageRefsIn_iff {path : List Seg} {parts : List Value} {r : ImageRef} :
    r ∈ imageRefsIn path parts ↔
      ∃ i part, parts[i]? = some part ∧ r.path = path ++ [Seg.idx i] ∧
        extractImageUri part = some r.dataUri := by
  unfold imageRefsIn
  rw [List.mem_flatMap]
  constructor
  · rintro ⟨⟨part, i⟩, hmem, hr⟩
    obtain ⟨hpath, huri⟩ := mem_imageRefAt_iff.1 hr
    exact ⟨i, part, List.mk_mem_zipIdx_iff_getElem?.1 hmem, hpath, huri⟩
  · rintro ⟨i, part, hpart, hpath, huri⟩
    exact ⟨(part, i), List.mk_mem_zipIdx_iff_getElem?.2 hpart, mem_imageRefAt_iff.2 ⟨hpath, huri⟩⟩

theorem mem_contentImageRefs_iff {path : List Seg} {part : Value} {r : ImageRef} :
    r ∈ contentImageRefs path part ↔
      r ∈ imageRefAt path part ∨ part.getStr "type" = some "tool_result" ∧
        ∃ nested, (part.get "content").bind asArray = some nested ∧
          r ∈ imageRefsIn (path ++ [Seg.key "content"]) nested := by
  unfold contentImageRefs
  rw [List.mem_append]
  refine or_congr_right ?_
  split_ifs with htype
  · cases hnested : (part.get "content").bind asArray with
    | none => simp
    | some nested => simp [htype]
  · simp [htype]

/-- A part of the array that a value has under a key. -/
theorem getAt_key_idx {v : Value} {k : String} {i : ℕ} {x : Value} :
    getAt [.key k, .idx i] v = some x ↔
      ∃ xs, (v.get k).bind asArray = some xs ∧ xs[i]? = some x := by
  simp only [getAt, Option.bind_eq_some_iff, Option.some.injEq, exists_eq_right]
  constructor
  · rintro ⟨a, ha, xs, hxs, hx⟩
    exact ⟨xs, ⟨a, ha, hxs⟩, hx⟩
  · rintro ⟨xs, ⟨a, ha, hxs⟩, hx⟩
    exact ⟨a, ha, xs, hxs, hx⟩

/-- A part of the content of a message. -/
theorem getAt_content {payload : Value} {i j : ℕ} {part : Value} :
    getAt [.key "messages", .idx i, .key "content", .idx j] payload = some part ↔
      ∃ ms msg parts, (payload.get "messages").bind asArray = some ms ∧ ms[i]? = some msg ∧
        (msg.get "content").bind asArray = some parts ∧ parts[j]? = some part := by
  rw [show ([.key "messages", .idx i, .key "content", .idx j] : List Seg) =
    [Seg.key "messages", .idx i] ++ [Seg.key "content", .idx j] from rfl, getAt_append,
    Option.bind_eq_some_iff]
  constructor
  · rintro ⟨msg, hmsg, hpart⟩
    obtain ⟨ms, hms, hmsg⟩ := getAt_key_idx.1 hmsg
    obtain ⟨parts, hparts, hpart⟩ := getAt_key_idx.1 hpart
    exact ⟨ms, msg, parts, hms, hmsg, hparts, hpart⟩
  · rintro ⟨ms, msg, parts, hms, hmsg, hparts, hpart⟩
    exact ⟨msg, getAt_key_idx.2 ⟨ms, hms, hmsg⟩, getAt_key_idx.2 ⟨parts, hparts, hpart⟩⟩

/-- The two walks of `collect_image_parts`. -/
theorem mem_collectImageParts_cases {payload : Value} {r : ImageRef} :
    r ∈ collectImageParts payload ↔
      (∃ parts, (payload.get "system").bind asArray = some parts ∧
        r ∈ imageRefsIn [.key "system"] parts) ∨
      ∃ i j part, getAt [.key "messages", .idx i, .key "content", .idx j] payload = some part ∧
        r ∈ contentImageRefs [.key "messages", .idx i, .key "content", .idx j] part := by
  unfold collectImageParts
  rw [List.mem_append]
  refine or_congr ?_ ?_
  · cases hsystem : (payload.get "system").bind asArray with
    | none => simp
    | some parts => simp
  · constructor
    · intro h
      split at h
      · rename_i ms hms
        obtain ⟨⟨msg, i⟩, hmsg, h⟩ := List.mem_flatMap.1 h
        split at h
        · rename_i parts hparts
          obtain ⟨⟨part, j⟩, hpart, h⟩ := List.mem_flatMap.1 h
          exact ⟨i, j, part, getAt_content.2 ⟨ms, msg, parts, hms,
            List.mk_mem_zipIdx_iff_getElem?.1 hmsg, hparts,
            List.mk_mem_zipIdx_iff_getElem?.1 hpart⟩, h⟩
        · cases h
      · cases h
    · rintro ⟨i, j, part, hpart, h⟩
      obtain ⟨ms, msg, parts, hms, hmsg, hparts, hpart⟩ := getAt_content.1 hpart
      rw [hms]
      refine List.mem_flatMap.2 ⟨(msg, i), List.mk_mem_zipIdx_iff_getElem?.2 hmsg, ?_⟩
      simp only [hparts]
      exact List.mem_flatMap.2 ⟨(part, j), List.mk_mem_zipIdx_iff_getElem?.2 hpart, h⟩

/-- **What is collected**: the parts with a URI at the places that are walked. -/
theorem mem_collectImageParts_iff {payload : Value} {r : ImageRef} :
    r ∈ collectImageParts payload ↔ Walked payload r.path ∧
      ∃ part, getAt r.path payload = some part ∧ extractImageUri part = some r.dataUri := by
  rw [mem_collectImageParts_cases]
  constructor
  · rintro (⟨parts, hparts, h⟩ | ⟨i, j, part, hpart, h⟩)
    · obtain ⟨i, part, hpart, hpath, huri⟩ := mem_imageRefsIn_iff.1 h
      rw [hpath]
      exact ⟨⟨.system i, by simp⟩, part, getAt_key_idx.2 ⟨parts, hparts, hpart⟩, huri⟩
    · rcases mem_contentImageRefs_iff.1 h with h | ⟨htype, nested, hnested, h⟩
      · obtain ⟨hpath, huri⟩ := mem_imageRefAt_iff.1 h
        rw [hpath]
        exact ⟨⟨.content i j, by simp⟩, part, hpart, huri⟩
      · obtain ⟨k, x, hx, hpath, huri⟩ := mem_imageRefsIn_iff.1 h
        rw [hpath]
        refine ⟨⟨.nested i j k, ?_⟩, x, ?_, huri⟩
        · intro i' j' k' heq
          simp only [List.cons_append, List.nil_append, List.cons.injEq, Seg.idx.injEq] at heq
          obtain ⟨-, rfl, -, rfl, -⟩ := heq
          rw [partType, hpart]
          exact htype
        · rw [List.append_assoc, getAt_append, hpart]
          exact getAt_key_idx.2 ⟨nested, hnested, hx⟩
  · obtain ⟨path, uri⟩ := r
    rintro ⟨⟨hwalk, hnest⟩, part, hpart, huri⟩
    cases hwalk with
    | system i =>
      obtain ⟨parts, hparts, hpart⟩ := getAt_key_idx.1 hpart
      exact Or.inl ⟨parts, hparts, mem_imageRefsIn_iff.2 ⟨i, part, hpart, rfl, huri⟩⟩
    | content i j =>
      exact Or.inr ⟨i, j, part, hpart, mem_contentImageRefs_iff.2
        (Or.inl (mem_imageRefAt_iff.2 ⟨rfl, huri⟩))⟩
    | nested i j k =>
      have htype := hnest i j k rfl
      obtain ⟨outer, houter, htype⟩ := Option.bind_eq_some_iff.1 htype
      have hinner : getAt [.key "content", .idx k] outer = some part := by
        have happ := getAt_append [.key "messages", .idx i, .key "content", .idx j]
          [.key "content", .idx k] payload
        rw [houter, Option.bind_some] at happ
        exact happ.symm.trans hpart
      obtain ⟨nested, hnested, hk⟩ := getAt_key_idx.1 hinner
      exact Or.inr ⟨i, j, outer, houter, mem_contentImageRefs_iff.2 (Or.inr ⟨htype, nested, hnested,
        mem_imageRefsIn_iff.2 ⟨k, part, hk, rfl, huri⟩⟩)⟩

/-! ### The places lie apart -/

/-- References whose places lie apart. -/
def RefsApart (a b : ImageRef) : Prop := Apart a.path b.path

/-- References collected from different elements of an array lie apart. -/
theorem pairwise_flatMap_zipIdx {xs : List Value} {g : Value × ℕ → List ImageRef} (path : List Seg)
    (hin : ∀ p ∈ xs.zipIdx, (g p).Pairwise RefsApart)
    (hpath : ∀ p, ∀ r ∈ g p, ∃ rest, r.path = path ++ .idx p.2 :: rest) :
    (xs.zipIdx.flatMap g).Pairwise RefsApart := by
  refine List.pairwise_flatMap.2 ⟨hin, ?_⟩
  refine (pairwise_zipIdx xs).imp fun {p q} hpq a ha b hb => ?_
  obtain ⟨rest, ha⟩ := hpath p a ha
  obtain ⟨rest', hb⟩ := hpath q b hb
  rw [RefsApart, ha, hb]
  exact Apart.of_idx hpq.ne path rest rest'

theorem pairwise_imageRefsIn (path : List Seg) (parts : List Value) :
    (imageRefsIn path parts).Pairwise RefsApart := by
  refine pairwise_flatMap_zipIdx path (fun p _ => ?_) fun p r hr => ?_
  · unfold imageRefAt
    split
    · exact List.pairwise_singleton _ _
    · exact List.Pairwise.nil
  · exact ⟨[], (mem_imageRefAt_iff.1 hr).1⟩

/-- A `tool_result` is no image itself. -/
theorem pairwise_contentImageRefs (path : List Seg) (part : Value) :
    (contentImageRefs path part).Pairwise RefsApart := by
  by_cases htype : part.getStr "type" = some "tool_result"
  · have huri : extractImageUri part = none := by simp [extractImageUri, htype]
    rw [contentImageRefs, imageRefAt, huri, List.nil_append, if_pos htype]
    split
    · exact pairwise_imageRefsIn _ _
    · exact List.Pairwise.nil
  · rw [contentImageRefs, if_neg htype, List.append_nil]
    unfold imageRefAt
    split
    · exact List.pairwise_singleton _ _
    · exact List.Pairwise.nil

/-- **The collected references lie apart from one another.** -/
theorem pairwise_apart (payload : Value) : (collectImageParts payload).Pairwise RefsApart := by
  unfold collectImageParts
  refine List.pairwise_append.2 ⟨?_, ?_, ?_⟩
  · split
    · exact pairwise_imageRefsIn _ _
    · exact List.Pairwise.nil
  · split
    · refine pairwise_flatMap_zipIdx [.key "messages"] (fun p _ => ?_) fun p r hr => ?_
      · split
        · refine pairwise_flatMap_zipIdx [.key "messages", .idx p.2, .key "content"]
            (fun q _ => pairwise_contentImageRefs _ _) fun q r hr => ?_
          obtain ⟨rest, hrest⟩ := mem_contentImageRefs hr
          exact ⟨rest, hrest⟩
        · exact List.Pairwise.nil
      · split at hr
        · obtain ⟨q, -, hr⟩ := List.mem_flatMap.1 hr
          obtain ⟨rest, hrest⟩ := mem_contentImageRefs hr
          exact ⟨.key "content" :: .idx q.2 :: rest, hrest⟩
        · cases hr
    · exact List.Pairwise.nil
  · intro a ha b hb
    split at ha
    · obtain ⟨i, hi⟩ := mem_imageRefsIn ha
      split at hb
      · obtain ⟨p, -, hb⟩ := List.mem_flatMap.1 hb
        split at hb
        · obtain ⟨q, -, hb⟩ := List.mem_flatMap.1 hb
          obtain ⟨rest, hrest⟩ := mem_contentImageRefs hb
          rw [RefsApart, hi, hrest]
          simp [Apart, List.cons_prefix_cons]
        · cases hb
      · cases hb
    · cases ha

/-! ### The replacement loop -/

/-- The part that carries the description number `i` of `count`. -/
def descriptionPart (count i : ℕ) (desc : String) : Value :=
  object (JsonMap.ofList [("type", string "text"), ("text", string (imageLabel count i desc))])

/-- Some reference was collected at the place. -/
def Collected (payload : Value) (path : List Seg) : Prop :=
  ∃ r ∈ collectImageParts payload, r.path = path

theorem replaceParts_eq (payload : Value) (parts : List ImageRef) (descriptions : List String) :
    replaceParts payload parts descriptions =
      (parts.zip descriptions).zipIdx.foldl (fun v p => modifyAt p.1.1.path
        (fun _ => descriptionPart parts.length p.2 p.1.2) v) payload := rfl

section Loop

variable {payload : Value} {descriptions : List String}

/-- Pairs of a reference and a description lie apart as the references do. -/
theorem pairwise_zip {parts : List ImageRef} (h : parts.Pairwise RefsApart)
    (hlen : descriptions.length = parts.length) :
    (parts.zip descriptions).zipIdx.Pairwise fun p q => Apart p.1.1.path q.1.1.path := by
  have hmap : ((parts.zip descriptions).zipIdx.map Prod.fst).map Prod.fst = parts := by
    rw [List.zipIdx_map_fst, List.map_fst_zip hlen.ge]
  rw [← hmap, List.pairwise_map, List.pairwise_map] at h
  exact h

/-- At the place of a reference there is its description. -/
theorem getAt_replaceParts (hlen : descriptions.length = (collectImageParts payload).length) {i : ℕ}
    (hi : i < (collectImageParts payload).length) :
    getAt (collectImageParts payload)[i].path
        (replaceParts payload (collectImageParts payload) descriptions) =
      some (descriptionPart (collectImageParts payload).length i descriptions[i]) := by
  have hi' : i < descriptions.length := by omega
  have hmem : (((collectImageParts payload)[i], descriptions[i]), i) ∈
      ((collectImageParts payload).zip descriptions).zipIdx := by
    rw [List.mk_mem_zipIdx_iff_getElem?]
    exact List.getElem?_zip_eq_some.2
      ⟨List.getElem?_eq_getElem hi, List.getElem?_eq_getElem hi'⟩
  obtain ⟨-, part, hpart, -⟩ := mem_collectImageParts_iff.1 (List.getElem_mem hi)
  rw [replaceParts_eq]
  refine (getAt_foldl_of_mem (pairwise_zip (pairwise_apart payload) hlen) hmem
    (fun p _ => descriptionPart _ p.2 p.1.2) payload).trans ?_
  rw [hpart]
  rfl

/-- Nothing changes but at the places of references. -/
theorem frame_replaceParts (payload : Value) (descriptions : List String) :
    DiffersOnlyAt (Collected payload) payload
      (replaceParts payload (collectImageParts payload) descriptions) := by
  rw [replaceParts_eq]
  refine .foldl_modifyAt (fun p : (ImageRef × String) × ℕ => p.1.1.path) (fun p hp => ?_)
    (fun p _ => descriptionPart _ p.2 p.1.2) payload
  exact ⟨p.1.1, (List.of_mem_zip (List.fst_mem_of_mem_zipIdx hp)).1, rfl⟩

/-- At every place of a reference there is some description. -/
theorem getAt_of_collected (hlen : descriptions.length = (collectImageParts payload).length)
    {path : List Seg} (h : Collected payload path) :
    ∃ i desc, getAt path (replaceParts payload (collectImageParts payload) descriptions) =
      some (descriptionPart (collectImageParts payload).length i desc) := by
  obtain ⟨r, hr, rfl⟩ := h
  obtain ⟨i, hi, rfl⟩ := List.getElem_of_mem hr
  exact ⟨i, _, getAt_replaceParts hlen hi⟩

end Loop

/-! ### What the walk sees afterwards -/

@[simp] theorem getStr_descriptionPart (count i : ℕ) (desc : String) :
    (descriptionPart count i desc).getStr "type" = some "text" := by
  simp [descriptionPart, getStr, Value.get, JsonMap.get_ofList, List.lookup_cons, asStr]

theorem Collected.walkPath {payload : Value} {path : List Seg} (h : Collected payload path) :
    WalkPath path := by
  obtain ⟨r, hr, rfl⟩ := h
  exact (mem_collectImageParts_iff.1 hr).1.1

/-- A place of a reference ends in a position. -/
theorem WalkPath.ne_key {path p : List Seg} {k : String} (h : WalkPath path) :
    path ≠ p ++ [Seg.key k] := by
  intro heq
  have hlast := congrArg List.getLast? heq
  rw [List.getLast?_concat] at hlast
  cases h <;> simp at hlast

/-- No key of a place of a reference is `type`. -/
theorem WalkPath.type_notMem {path : List Seg} (h : WalkPath path) : Seg.key "type" ∉ path := by
  cases h <;> simp

/-- The type of a part stays, when no reference was collected at it or around it. -/
theorem partType_eq {payload w : Value} (h : DiffersOnlyAt (Collected payload) payload w)
    {path : List Seg} (hpath : ∀ p, p <+: path → ¬ Collected payload p) :
    partType path w = partType path payload := by
  have htype : ∀ v : Value, partType path v = (getAt (path ++ [Seg.key "type"]) v).bind asStr := by
    intro v
    rw [partType, getAt_append]
    cases getAt path v with
    | none => rfl
    | some part => simp [getStr, getAt]
  rw [htype, htype]
  refine congrArg (Option.bind · asStr) (h.same (path ++ [Seg.key "type"]) ?_ ?_)
  · intro p hp hcollected
    rcases List.prefix_concat_iff.1 hp with rfl | hp
    · exact hcollected.walkPath.ne_key rfl
    · exact hpath p hp hcollected
  · intro p hp hcollected
    exact hcollected.walkPath.type_notMem (hp.subset (by simp))

/-- A walked place around another one is that of a `tool_result`, or the same. -/
theorem WalkPath.inside {p q : List Seg} (hp : WalkPath p) (hq : WalkPath q) (h : p <+: q) :
    p = q ∨ ∃ i j k, p = [.key "messages", .idx i, .key "content", .idx j] ∧
      q = [.key "messages", .idx i, .key "content", .idx j, .key "content", .idx k] := by
  cases hp with
  | system i =>
    cases hq <;> simp_all [List.cons_prefix_cons]
  | content i j =>
    cases hq with
    | system i' => simp [List.cons_prefix_cons] at h
    | content i' j' =>
      left
      simpa [List.cons_prefix_cons] using h
    | nested i' j' k =>
      right
      simp only [List.cons_prefix_cons, Seg.idx.injEq] at h
      obtain ⟨-, rfl, -, rfl, -⟩ := h
      exact ⟨i, j, k, rfl, rfl⟩
  | nested i j k =>
    cases hq with
    | system i' => simp [List.cons_prefix_cons] at h
    | content i' j' => simp [List.cons_prefix_cons] at h
    | nested i' j' k' =>
      left
      simpa [List.cons_prefix_cons] using h

theorem isImagePart_iff {part : Value} :
    isImagePart part = true ↔
      part.getStr "type" = some "image_url" ∨ part.getStr "type" = some "image" := by
  unfold isImagePart
  cases part.getStr "type" with
  | none => simp
  | some t => simp

/-- The part at a place is an image. -/
def ImageAt (path : List Seg) (v : Value) : Prop :=
  ∃ part, getAt path v = some part ∧ isImagePart part = true

theorem imageAt_iff {path : List Seg} {v : Value} :
    ImageAt path v ↔ partType path v = some "image_url" ∨ partType path v = some "image" := by
  unfold ImageAt partType
  cases getAt path v with
  | none => simp
  | some part => simp [isImagePart_iff]

/-- Only images are collected. -/
theorem Collected.imageAt {payload : Value} {path : List Seg} (h : Collected payload path) :
    ImageAt path payload := by
  obtain ⟨r, hr, rfl⟩ := h
  obtain ⟨-, part, hpart, huri⟩ := mem_collectImageParts_iff.1 hr
  exact ⟨part, hpart, isImagePart_of_uri huri⟩

/-- A `tool_result` is not collected. -/
theorem not_collected_of_toolResult {payload : Value} {path : List Seg}
    (h : partType path payload = some "tool_result") : ¬ Collected payload path := by
  intro hcollected
  have himage := imageAt_iff.1 hcollected.imageAt
  rw [h] at himage
  simp at himage

section After

variable {payload : Value} {descriptions : List String}

/-- Where an image was described, there is a text. -/
theorem partType_of_collected (hlen : descriptions.length = (collectImageParts payload).length)
    {path : List Seg} (h : Collected payload path) :
    partType path (replaceParts payload (collectImageParts payload) descriptions) =
      some "text" := by
  obtain ⟨i, desc, hat⟩ := getAt_of_collected hlen h
  rw [partType, hat, Option.bind_some, getStr_descriptionPart]

/-- **Nothing is left to collect.** -/
theorem collectImageParts_replaceParts
    (hlen : descriptions.length = (collectImageParts payload).length) :
    collectImageParts (replaceParts payload (collectImageParts payload) descriptions) = [] := by
  have hframe := frame_replaceParts payload descriptions
  refine List.eq_nil_iff_forall_not_mem.2 fun r hr => ?_
  obtain ⟨⟨hwalk, hnest⟩, part, hpart, huri⟩ := mem_collectImageParts_iff.1 hr
  have himage := imageAt_iff.1 ⟨part, hpart, isImagePart_of_uri huri⟩
  -- no reference was collected at this place or around it
  have habove : ∀ p, p <+: r.path → ¬ Collected payload p := by
    intro p hp hcollected
    have htext := partType_of_collected hlen hcollected
    rcases hcollected.walkPath.inside hwalk hp with rfl | ⟨i, j, k, rfl, hpath⟩
    · rw [htext] at himage
      simp at himage
    · rw [hnest i j k hpath] at htext
      simp at htext
  have htype : partType r.path payload = some "image_url" ∨
      partType r.path payload = some "image" := by
    rwa [← partType_eq hframe habove]
  -- nor inside it, since it is no `tool_result`
  have hsame : getAt r.path payload = some part := by
    rw [← hpart]
    refine (hframe.same _ habove fun p hp hcollected => ?_).symm
    rcases hwalk.inside hcollected.walkPath hp with heq | ⟨i, j, k, hpath, rfl⟩
    · exact habove p (heq ▸ List.prefix_rfl) hcollected
    · obtain ⟨r', hr', hpath'⟩ := hcollected
      have htool := (mem_collectImageParts_iff.1 hr').1.2 i j k hpath'
      rw [hpath, htool] at htype
      simp at htype
  refine habove r.path List.prefix_rfl
    ⟨r, mem_collectImageParts_iff.2 ⟨⟨hwalk, ?_⟩, part, hsame, huri⟩, rfl⟩
  intro i j k hpath
  rw [← hnest i j k hpath]
  refine (partType_eq hframe fun p hp => habove p (hp.trans ?_)).symm
  rw [hpath]
  exact ⟨[.key "content", .idx k], rfl⟩

end After

/-! ### The handoff -/

/-- `perform_vision_handoff` from the references on, given their descriptions: the payload, and the
number it returns. -/
def handoffWith (payload : Value) (descriptions : List String) : Value × ℕ :=
  let parts := collectImageParts payload
  if parts.isEmpty then (payload, 0)
  else (replaceParts payload parts descriptions, parts.length)

/-- The descriptions are where the images were, and nothing else has changed. -/
structure Replaced (payload : Value) (descriptions : List String) (w : Value) : Prop where
  described : ∀ i (h : i < (collectImageParts payload).length) (h' : i < descriptions.length),
    getAt (collectImageParts payload)[i].path w =
      some (descriptionPart (collectImageParts payload).length i descriptions[i])
  frame : DiffersOnlyAt (Collected payload) payload w
  nothingLeft : collectImageParts w = []

theorem handoffWith_eq (payload : Value) (descriptions : List String) :
    handoffWith payload descriptions =
      (replaceParts payload (collectImageParts payload) descriptions,
        (collectImageParts payload).length) := by
  unfold handoffWith
  simp only
  split_ifs with h
  · rw [List.isEmpty_iff.1 h]
    rfl
  · rfl

/-- **A handoff replaces every collected image and nothing else**, and returns their number. -/
theorem replaced_handoff (payload : Value) (descriptions : List String)
    (hlen : descriptions.length = (collectImageParts payload).length) :
    Replaced payload descriptions (handoffWith payload descriptions).1 ∧
      (handoffWith payload descriptions).2 = (collectImageParts payload).length := by
  rw [handoffWith_eq]
  refine ⟨⟨fun i h h' => getAt_replaceParts hlen h, frame_replaceParts payload descriptions,
    collectImageParts_replaceParts hlen⟩, rfl⟩

/-- What a run of the handoff does to the payload: nothing, when the model needs none, and otherwise
the replacement, for as many descriptions as there are images. -/
theorem run_performVisionHandoff {payload w : Value} {resolved key : String} {cfg : Config}
    {tr : Trace Answer} (h : Run (performVisionHandoff payload resolved cfg key) tr (.ret w)) :
    ∃ catalog, ⟨.catalog, catalog⟩ ∈ tr ∧
      if needsVisionHandoff catalog resolved cfg then
        ∃ descriptions, descriptions.length = (collectImageParts payload).length ∧
          w = (handoffWith payload descriptions).1
      else w = payload := by
  obtain ⟨catalog, tr', rfl, hrun⟩ := run_perform_ret h
  refine ⟨catalog, List.mem_cons_self, ?_⟩
  by_cases hneeds : needsVisionHandoff catalog resolved cfg = true
  · rw [if_pos hneeds] at hrun ⊢
    by_cases hempty : (collectImageParts payload).isEmpty = true
    · -- without images the catalog is all that is asked for
      simp only [hempty] at hrun
      cases hrun
      refine ⟨[], ?_, ?_⟩
      · rw [List.isEmpty_iff.1 hempty]
        rfl
      · rw [handoffWith, if_pos hempty]
    · simp only [if_neg hempty] at hrun
      obtain ⟨descriptions, tr'', rfl, hreplaced⟩ := run_perform_ret hrun
      cases hreplaced
      refine ⟨descriptions.toList, ?_, ?_⟩
      · rw [descriptions.toList_length, List.length_map]
      · rw [handoffWith, if_neg hempty]
  · rw [if_neg hneeds] at hrun ⊢
    cases hrun
    rfl

/-- Every replacement is the result of a run. -/
theorem exists_run_performVisionHandoff {catalog : Option Catalog} {resolved : String}
    {cfg : Config} (hneeds : needsVisionHandoff catalog resolved cfg = true) (payload : Value)
    (key : String) (descriptions : List String)
    (hlen : descriptions.length = (collectImageParts payload).length) :
    ∃ tr, Run (performVisionHandoff payload resolved cfg key) tr
        (.ret (handoffWith payload descriptions).1) ∧
      ∀ c, ⟨.catalog, c⟩ ∈ tr → c = catalog := by
  unfold performVisionHandoff
  by_cases hempty : (collectImageParts payload).isEmpty = true
  · refine ⟨[⟨.catalog, catalog⟩], run_perform _ ?_, ?_⟩
    · rw [if_pos hneeds, handoffWith, if_pos hempty]
      simp only [hempty]
      exact .nil _
    · intro c hc
      cases List.mem_singleton.1 hc
      rfl
  · refine ⟨[⟨.catalog, catalog⟩, ⟨.analyzeImages ((collectImageParts payload).map ImageRef.dataUri)
      key cfg, ⟨descriptions, ?_⟩⟩], run_perform _ ?_, ?_⟩
    · rw [hlen, List.length_map]
    · rw [if_pos hneeds, handoffWith, if_neg hempty]
      simp only [if_neg hempty]
      exact run_perform _ (.nil _)
    · intro c hc
      rcases List.mem_cons.1 hc with hc | hc
      · cases hc
        rfl
      · cases List.mem_singleton.1 hc

/-- A question about two images, the second one in a `tool_result`. -/
def twoImagesAsked : Value :=
  object (JsonMap.ofList [("model", string "m"), ("messages", array [object (JsonMap.ofList
    [("role", string "user"), ("content", array [
      object (JsonMap.ofList [("type", string "text"), ("text", string "Which is older?")]),
      object (JsonMap.ofList [("type", string "image_url"),
        ("image_url", object (JsonMap.ofList [("url", string "data:,x")]))]),
      object (JsonMap.ofList [("type", string "tool_result"), ("content", array [
        object (JsonMap.ofList [("type", string "image"), ("source", object (JsonMap.ofList
          [("type", string "url"), ("url", string "data:,y")]))])])])])])])])

/-- The two images are described with their numbers, and the rest is as it was. -/
theorem replaced_handoff_two :
    ∃ w, (handoffWith twoImagesAsked ["a cat", "a dog"]).1 = w ∧
      Replaced twoImagesAsked ["a cat", "a dog"] w ∧
      getAt [.key "messages", .idx 0, .key "content", .idx 1] w =
        some (descriptionPart 2 0 "a cat") ∧
      getAt [.key "messages", .idx 0, .key "content", .idx 2, .key "content", .idx 0] w =
        some (descriptionPart 2 1 "a dog") ∧
      getAt [.key "messages", .idx 0, .key "content", .idx 0] w =
        getAt [.key "messages", .idx 0, .key "content", .idx 0] twoImagesAsked ∧
      getAt [.key "model"] w = some (string "m") := by
  have hcollected : collectImageParts twoImagesAsked =
      [⟨[.key "messages", .idx 0, .key "content", .idx 1], "data:,x"⟩,
        ⟨[.key "messages", .idx 0, .key "content", .idx 2, .key "content", .idx 0], "data:,y"⟩] :=
    rfl
  have hapart : ∀ path p, (path = [.key "model"] ∨
      path = [.key "messages", .idx 0, .key "content", .idx 0]) →
        Collected twoImagesAsked p → ¬ p <+: path ∧ ¬ path <+: p := by
    rintro path p hpath ⟨r, hr, rfl⟩
    rw [hcollected] at hr
    rcases hpath with rfl | rfl <;> fin_cases hr <;> decide
  have hreplaced := (replaced_handoff twoImagesAsked ["a cat", "a dog"] (by decide)).1
  refine ⟨_, rfl, hreplaced, ?_, ?_, ?_, ?_⟩
  · exact hreplaced.described 0 (by decide) (by decide)
  · exact hreplaced.described 1 (by decide) (by decide)
  · exact hreplaced.frame.same _ (fun p hp hc => (hapart _ p (Or.inr rfl) hc).1 hp)
      fun p hp hc => (hapart _ p (Or.inr rfl) hc).2 hp
  · exact hreplaced.frame.same _ (fun p hp hc => (hapart _ p (Or.inl rfl) hc).1 hp)
      fun p hp hc => (hapart _ p (Or.inl rfl) hc).2 hp

/-- **The loop as the source writes it**, with the paths printed and parsed again. -/
theorem replaceParts_eq_navigate {payload : Value} (descriptions : List String)
    (hfits : ∀ r ∈ collectImageParts payload, Fits r.path) :
    replaceParts payload (collectImageParts payload) descriptions =
      ((collectImageParts payload).zip descriptions).zipIdx.foldl (fun v p =>
        navigatePointerMut (pointerText p.1.1.path) (fun _ =>
          descriptionPart (collectImageParts payload).length p.2 p.1.2) v) payload := by
  rw [replaceParts_eq]
  refine List.foldl_ext _ _ _ fun v p hp => ?_
  have hmem : p.1.1 ∈ collectImageParts payload :=
    (List.of_mem_zip (List.fst_mem_of_mem_zipIdx hp)).1
  have hwalk : WalkPath p.1.1.path := (mem_collectImageParts_iff.1 hmem).1.1
  have hne : p.1.1.path ≠ [] := by
    intro hnil
    rw [hnil] at hwalk
    cases hwalk
  refine (navigatePointerMut_pointerText hne (plainSeg_of_imageKeys ?_ (hfits _ hmem)) _ v).symm
  intro k hk
  generalize p.1.1.path = path at hwalk hk
  cases hwalk <;> simp at hk <;> rcases hk with rfl | rfl | rfl <;> simp [imageKeys]

end Mybro
