import Mybro.Forwarding
import Mybro.ImagesForwarded
import Mybro.ImagesLeft
import Mybro.PayloadFrame

/-!
# What is sent upstream (`routes/chat.rs`, `routes/messages.rs`)

`forwarded_of_sent` is about the OpenAI pipeline without a vision handoff. Here are both pipelines,
with every combination of the cap on images and the handoff: `sentAs_of_sent`. The images lie apart
from all that the other steps change, so each of them is found by the cap and by the handoff where
the client has put it, and what stands there in the end is the image itself, the text of the cap, or
the description that the vision module has given of this very image.
-/

namespace Mybro

open Value Prog

/-! ### The places -/

/-- The places at which a pipeline may change a payload. -/
inductive Changeable (api : ApiFormat) (payload : Value) (path : List Seg) : Prop
  | overwritten (h : Overwritten (api = .openAI && isStream payload) path)
  | reasoning (format : api = .openAI) (h : ReasoningPlace payload path)
  | image (h : ImagePlace payload path)
  | collected (h : Collected payload path)

/-- What stands at the place of an image of the payload: the image, the text of the cap, or the
description that was the answer to the question for this image. -/
inductive Shown (payload : Value) (tr : Trace Answer) (path : List Seg) : Option Value → Prop
  | kept : Shown payload tr path (getAt path payload)
  | shared : Shown payload tr path (some previouslyShared)
  | described {dataUris : List String} {key : String} {cfg : Config}
      {descriptions : List.Vector String dataUris.length} {part : Value} {uri desc : String} (i : ℕ)
      (asked : ⟨.analyzeImages dataUris key cfg, descriptions⟩ ∈ tr)
      (part_eq : getAt path payload = some part) (uri_eq : extractImageUri part = some uri)
      (question : dataUris[i]? = some uri) (answer : descriptions.toList[i]? = some desc) :
      Shown payload tr path (some (descriptionPart dataUris.length i desc))

/-- What a pipeline makes of a payload: it differs only at the changeable places; in the OpenAI
pipeline the reasoning fields of assistant messages are gone; at the place of an image there is the
image or one of the texts that stand for it; and either no image has been described, or none with a
URI is left. -/
structure SentAs (api : ApiFormat) (payload : Value) (tr : Trace Answer) (w : Value) : Prop where
  frame : DiffersOnlyAt (Changeable api payload) payload w
  removed : api = .openAI → ∀ path, ReasoningPlace payload path → getAt path w = none
  images : ∀ path, ImagePlace payload path ∨ Collected payload path →
    Shown payload tr path (getAt path w)
  allOrNone : (∀ path, ImagePlace payload path ∨ Collected payload path →
      getAt path w = getAt path payload ∨ getAt path w = some previouslyShared) ∨
    collectImageParts w = []

/-! ### Images lie apart from the other changes -/

section Aside

variable {payload v w : Value} {path : List Seg} {P : List Seg → Prop}

/-- A place that is overwritten, or a reasoning field. -/
def Aside (payload : Value) (path : List Seg) : Prop :=
  (∃ stream, Overwritten stream path) ∨ ReasoningPlace payload path

theorem WalkPath.head (h : WalkPath path) :
    ∃ k rest, path = .key k :: rest ∧ (k = "messages" ∨ k = "system") := by
  cases h with
  | system i => exact ⟨_, _, rfl, Or.inr rfl⟩
  | content i j => exact ⟨_, _, rfl, Or.inl rfl⟩
  | nested i j k => exact ⟨_, _, rfl, Or.inl rfl⟩

theorem ImagePath.walkPath (h : ImagePath path) : WalkPath path := by
  rcases h with ⟨i, rfl⟩ | ⟨i, j, rfl⟩
  · exact .system i
  · exact .content i j

/-- A reasoning field and a place that is walked lie in different members of a message. -/
theorem ReasoningPlace.apart_walkPath {p : List Seg} (hp : ReasoningPlace payload p)
    (h : WalkPath path) : Apart p path := by
  obtain ⟨i, k, msg, rfl, hk, -, -⟩ := hp
  cases h with
  | system j => simp [Apart, List.cons_prefix_cons]
  | content j l => rcases hk with rfl | rfl <;> simp [Apart, List.cons_prefix_cons]
  | nested j l m => rcases hk with rfl | rfl <;> simp [Apart, List.cons_prefix_cons]

theorem Aside.apart {p : List Seg} (hp : Aside payload p) (h : WalkPath path) : Apart p path := by
  rcases hp with ⟨stream, hp⟩ | hp
  · obtain ⟨k, rest, rfl, hk⟩ := h.head
    exact hp.apart hk
  · exact hp.apart_walkPath h

/-- The other changes are not seen where images are. -/
theorem getAt_walkPath (hP : ∀ p, P p → Aside payload p) (h : DiffersOnlyAt P v w)
    (hpath : WalkPath path) : getAt path w = getAt path v :=
  h.same_of_apart fun p hp => (hP p hp).apart hpath

/-- Whether a place is walked is seen at the places that are walked. -/
theorem walked_congr (h : ∀ path, WalkPath path → getAt path w = getAt path v) (path : List Seg) :
    Walked w path ↔ Walked v path := by
  refine and_congr_right fun _ => forall₃_congr fun i j k => imp_congr_right fun _ => ?_
  rw [partType, partType, h _ (.content i j)]

/-- The same references are collected. -/
theorem mem_collectImageParts_congr (h : ∀ path, WalkPath path → getAt path w = getAt path v)
    (r : ImageRef) : r ∈ collectImageParts w ↔ r ∈ collectImageParts v := by
  rw [mem_collectImageParts_iff, mem_collectImageParts_iff, walked_congr h]
  refine and_congr_right fun hwalked => ?_
  rw [h _ hwalked.1]

theorem imagePlace_congr (h : ∀ path, WalkPath path → getAt path w = getAt path v) :
    ImagePlace w path ↔ ImagePlace v path := by
  refine and_congr_right fun hpath => ?_
  rw [h _ hpath.walkPath]

end Aside

/-! ### The cap on images -/

section Cap

variable {v : Value} {n : ℕ} {path : List Seg}

theorem getStr_previouslyShared : previouslyShared.getStr "type" = some "text" := by decide

theorem extractImageUri_previouslyShared : extractImageUri previouslyShared = none := by
  simp [extractImageUri, getStr_previouslyShared]

/-- A walked place inside another one that is no image. -/
theorem Walked.not_imagePlace_above {p : List Seg} (h : Walked v path) (hp : ImagePlace v p)
    (hpre : p <+: path) : p = path := by
  rcases hp.1.walkPath.inside h.1 hpre with rfl | ⟨i, j, k, rfl, rfl⟩
  · rfl
  · have htype := h.2 i j k rfl
    have himage := imageAt_iff.1 hp.2
    rw [htype] at himage
    simp at himage

/-- At a place that is walked the cap leaves what is there, or puts its text. -/
theorem getAt_limit_of_walked (h : Walked v path) :
    getAt path (limitImagesInMessages v n) = getAt path v ∨
      getAt path (limitImagesInMessages v n) = some previouslyShared := by
  by_cases hpath : ImagePath path
  · exact getAt_limitImagesInMessages v hpath n
  · left
    have hframe : DiffersOnlyAt (ImagePlace v) v (limitImagesInMessages v n) :=
      frame_limitImagesInMessages n fun _ hp => hp
    refine hframe.same path (fun p hpre hp => ?_) fun p hpre hp => ?_
    · exact hpath (h.not_imagePlace_above hp hpre ▸ hp.1)
    · -- nothing that is capped lies deeper than a nested part
      rcases h.1.inside hp.1.walkPath hpre with rfl | ⟨i, j, k, rfl, rfl⟩
      · exact hpath hp.1
      · exact hpath (Or.inr ⟨i, j, rfl⟩)

/-- The cap makes no `tool_result`. -/
theorem walked_of_limit (h : Walked (limitImagesInMessages v n) path) : Walked v path := by
  refine ⟨h.1, fun i j k hpath => ?_⟩
  have htype := h.2 i j k hpath
  rw [partType] at htype ⊢
  rcases getAt_limitImagesInMessages v (Or.inr ⟨i, j, rfl⟩) n with hsame | hshared
  · rw [← hsame]
    exact htype
  · rw [hshared, Option.bind_some, getStr_previouslyShared] at htype
    simp at htype

/-- What is collected after the cap was there before. -/
theorem mem_collectImageParts_of_limit {r : ImageRef}
    (h : r ∈ collectImageParts (limitImagesInMessages v n)) : r ∈ collectImageParts v := by
  obtain ⟨hwalked, part, hpart, huri⟩ := mem_collectImageParts_iff.1 h
  have hold := walked_of_limit hwalked
  refine mem_collectImageParts_iff.2 ⟨hold, part, ?_, huri⟩
  rcases getAt_limit_of_walked (n := n) hold with hsame | hshared
  · rw [← hsame]
    exact hpart
  · rw [hshared] at hpart
    obtain rfl := Option.some.inj hpart
    rw [extractImageUri_previouslyShared] at huri
    cases huri

end Cap

/-! ### The steps together -/

/-- What the vision step does: nothing, or it puts the answers where it has collected images. -/
def Described (tr : Trace Answer) (v w : Value) : Prop :=
  w = v ∨ ∃ key cfg descriptions,
    ⟨.analyzeImages ((collectImageParts v).map ImageRef.dataUri) key cfg, descriptions⟩ ∈ tr ∧
      w = replaceParts v (collectImageParts v) descriptions.toList

section Places

variable {payload : Value} {path : List Seg}

/-- A place of an image is walked. -/
theorem walked_of_image (h : ImagePlace payload path ∨ Collected payload path) :
    Walked payload path := by
  rcases h with himage | ⟨r, hr, rfl⟩
  · refine ⟨himage.1.walkPath, fun i j k hpath => ?_⟩
    rcases himage.1 with ⟨_, rfl⟩ | ⟨_, _, rfl⟩
    · simp at hpath
    · simp at hpath
  · exact (mem_collectImageParts_iff.1 hr).1

/-- At a place of an image there is an image. -/
theorem imageAt_of_image (h : ImagePlace payload path ∨ Collected payload path) :
    ImageAt path payload := h.elim (fun himage => himage.2) fun hcollected => hcollected.imageAt

end Places

/-- The steps of a pipeline, `n` being the number of images that the cap leaves: around the cap and
the vision step there are only steps that change places of `P`, where no image lies. -/
structure Staged (P : List Seg → Prop) (tr : Trace Answer) (n : ℕ) (payload a b c d w : Value) :
    Prop where
  aside : ∀ p, P p → Aside payload p
  front : DiffersOnlyAt P payload a
  cap : b = a ∨ b = limitImagesInMessages a n
  middle : DiffersOnlyAt P b c
  vision : Described tr c d
  back : DiffersOnlyAt P d w

namespace Staged

variable {P : List Seg → Prop} {tr : Trace Answer} {n : ℕ} {payload a b c d w : Value}
  {path : List Seg}

/-- What the vision step collects are images of the payload. -/
theorem mem_collectImageParts (hs : Staged P tr n payload a b c d w) {r : ImageRef}
    (h : r ∈ collectImageParts c) : r ∈ collectImageParts payload := by
  refine (mem_collectImageParts_congr (fun _ => getAt_walkPath hs.aside hs.front) r).1 ?_
  have hb := (mem_collectImageParts_congr (fun _ => getAt_walkPath hs.aside hs.middle) r).1 h
  rcases hs.cap with rfl | rfl
  · exact hb
  · exact mem_collectImageParts_of_limit hb

/-- The frame of the steps together: the cap and the vision step find images where the first steps
have left them. -/
theorem frame (hs : Staged P tr n payload a b c d w) :
    DiffersOnlyAt (fun p => P p ∨ ImagePlace payload p ∨ Collected payload p) payload w := by
  have hcapped : DiffersOnlyAt (ImagePlace payload) a b := by
    rcases hs.cap with rfl | rfl
    · exact .refl _ _
    · refine frame_limitImagesInMessages n fun p hp => ?_
      exact (imagePlace_congr fun _ => getAt_walkPath hs.aside hs.front).1 hp
  have hdescribed : DiffersOnlyAt (Collected payload) c d := by
    rcases hs.vision with rfl | ⟨key, cfg, descriptions, -, rfl⟩
    · exact .refl _ _
    · refine (frame_replaceParts c _).mono ?_
      rintro p ⟨r, hr, rfl⟩
      exact ⟨r, hs.mem_collectImageParts hr, rfl⟩
  have hleft : ∀ {v v' : Value}, DiffersOnlyAt P v v' →
      DiffersOnlyAt (fun p => P p ∨ ImagePlace payload p ∨ Collected payload p) v v' :=
    fun h => h.mono fun _ => Or.inl
  exact (hleft hs.front).trans ((hcapped.mono fun _ hp => Or.inr (Or.inl hp)).trans
    ((hleft hs.middle).trans ((hdescribed.mono fun _ hp => Or.inr (Or.inr hp)).trans
      (hleft hs.back))))

/-- The place of an image of the payload, as the vision step finds it: the image, or the text of the
cap. -/
theorem getAt_capped (hs : Staged P tr n payload a b c d w)
    (hpath : ImagePlace payload path ∨ Collected payload path) :
    getAt path c = getAt path payload ∨ getAt path c = some previouslyShared := by
  have hwalked : Walked a path :=
    (walked_congr (fun _ => getAt_walkPath hs.aside hs.front) _).2 (walked_of_image hpath)
  rw [getAt_walkPath hs.aside hs.middle hwalked.1, ← getAt_walkPath hs.aside hs.front hwalked.1]
  rcases hs.cap with rfl | rfl
  · exact Or.inl rfl
  · exact getAt_limit_of_walked hwalked

/-- The replacement leaves the place of an image alone that it has not collected itself. -/
theorem getAt_replaced_of_not_collected (hs : Staged P tr n payload a b c d w)
    (hpath : ImagePlace payload path ∨ Collected payload path) (hnot : ¬ Collected c path)
    (descriptions : List String) :
    getAt path (replaceParts c (collectImageParts c) descriptions) = getAt path c := by
  have hwalked := walked_of_image hpath
  refine (frame_replaceParts c descriptions).same path (fun p hpre hp => ?_) fun p hpre hp => ?_
  · rcases hp.walkPath.inside hwalked.1 hpre with rfl | ⟨i, j, k, rfl, rfl⟩
    · exact hnot hp
    · -- around an image in a `tool_result` nothing is collected
      obtain ⟨r, hr, hrp⟩ := hp
      refine not_collected_of_toolResult (hwalked.2 i j k rfl) ⟨r, ?_, hrp⟩
      exact hs.mem_collectImageParts hr
  · rcases hwalked.1.inside hp.walkPath hpre with rfl | ⟨i, j, k, rfl, rfl⟩
    · exact hnot hp
    · -- an image is no `tool_result`, and neither is the text of the cap
      obtain ⟨r, hr, hrp⟩ := hp
      have htype := (mem_collectImageParts_iff.1 hr).1.2 i j k hrp
      rw [partType] at htype
      rcases hs.getAt_capped hpath with hsame | hshared
      · have himage := imageAt_iff.1 (imageAt_of_image hpath)
        rw [partType, ← hsame, htype] at himage
        simp at himage
      · rw [hshared, Option.bind_some, getStr_previouslyShared] at htype
        simp at htype

/-- **The images in what the steps make of a payload.** -/
theorem shown (hs : Staged P tr n payload a b c d w)
    (hpath : ImagePlace payload path ∨ Collected payload path) :
    Shown payload tr path (getAt path w) := by
  have hcapped : Shown payload tr path (getAt path c) := by
    rcases hs.getAt_capped hpath with hsame | hshared
    · rw [hsame]
      exact .kept
    · rw [hshared]
      exact .shared
  rw [getAt_walkPath hs.aside hs.back (walked_of_image hpath).1]
  rcases hs.vision with rfl | ⟨key, cfg, descriptions, hasked, rfl⟩
  · exact hcapped
  · have hlen : descriptions.toList.length = (collectImageParts c).length := by
      rw [descriptions.toList_length, List.length_map]
    by_cases hcollected : Collected c path
    · obtain ⟨r, hr, rfl⟩ := hcollected
      obtain ⟨i, hi, rfl⟩ := List.getElem_of_mem hr
      have hold := hs.mem_collectImageParts hr
      obtain ⟨-, part, hpart, huri⟩ := mem_collectImageParts_iff.1 hold
      have hdesc : descriptions.toList[i]? = some descriptions.toList[i] :=
        List.getElem?_eq_getElem _
      have hquestion : ((collectImageParts c).map ImageRef.dataUri)[i]? =
          some (collectImageParts c)[i].dataUri := by
        rw [List.getElem?_map, List.getElem?_eq_getElem hi, Option.map_some]
      have hshown := Shown.described i hasked hpart huri hquestion hdesc
      rw [getAt_replaceParts hlen hi]
      simpa only [List.length_map] using hshown
    · rw [hs.getAt_replaced_of_not_collected hpath hcollected]
      exact hcapped

/-- Either no image has been described, or none with a URI is left. -/
theorem allOrNone (hs : Staged P tr n payload a b c d w) :
    (∀ path, ImagePlace payload path ∨ Collected payload path →
      getAt path w = getAt path payload ∨ getAt path w = some previouslyShared) ∨
    collectImageParts w = [] := by
  rcases hs.vision with rfl | ⟨key, cfg, descriptions, -, rfl⟩
  · refine Or.inl fun path hpath => ?_
    rw [getAt_walkPath hs.aside hs.back (walked_of_image hpath).1]
    exact hs.getAt_capped hpath
  · refine Or.inr (List.eq_nil_iff_forall_not_mem.2 fun r hr => ?_)
    have hlen : descriptions.toList.length = (collectImageParts c).length := by
      rw [descriptions.toList_length, List.length_map]
    rw [mem_collectImageParts_congr (fun _ => getAt_walkPath hs.aside hs.back),
      collectImageParts_replaceParts hlen] at hr
    exact List.not_mem_nil hr

/-- What the steps make of a payload is as a pipeline may send it, when `P` has only places that the
pipeline may change. -/
theorem sentAs {api : ApiFormat} (hs : Staged P tr n payload a b c d w)
    (hP : ∀ p, P p → Changeable api payload p)
    (hremoved : api = .openAI → ∀ path, ReasoningPlace payload path → getAt path w = none) :
    SentAs api payload tr w where
  frame := hs.frame.mono fun p hp => hp.elim (hP p) fun himage => himage.elim .image .collected
  removed := hremoved
  images _ hpath := hs.shown hpath
  allOrNone := hs.allOrNone

end Staged

/-! ### Both pipelines -/

section Pipelines

variable {payload p₁ p₂ p₃ p₄ : Value} {tr : Trace Answer} {resolved : String} {n : ℕ}

/-- The steps of the OpenAI pipeline. -/
theorem sentAs_chat {catalog : Option Catalog} (hobj : payload.isObject = true)
    (h₁ : (stripReasoningContent payload).setIndex "model" (string resolved) = some p₁)
    (h₂ : p₂ = normalizeTools p₁ ∨ p₂ = limitImagesInMessages (normalizeTools p₁) n)
    (h₃ : applyAutoThink catalog p₂ resolved = some p₃)
    (h₄ : Described tr (normalizeThinkingPayload p₃) p₄) :
    SentAs .openAI payload tr (if isStream payload then includeUsage p₄ else p₄) := by
  have hstrip : (stripReasoningContent payload).isObject = true := by
    rw [stripReasoningContent, isObject_modify, hobj]
  have hkind : p₂.isObject = true := by
    have htools : (normalizeTools p₁).isObject = true := by
      rw [normalizeTools, isObject_modify]
      exact isObject_of_setIndex h₁
    rcases h₂ with rfl | rfl
    · exact htools
    · rw [isObject_limitImagesInMessages, htools]
  -- all but the first step, for any payload and any set of places with those that are overwritten
  have hstaged : ∀ {v : Value} {P : List Seg → Prop}, (∀ p, P p → Aside v p) →
      (∀ p, Overwritten (isStream payload) p → P p) → DiffersOnlyAt P v (normalizeTools p₁) →
      Staged P tr n v (normalizeTools p₁) p₂ (normalizeThinkingPayload p₃) p₄
        (if isStream payload then includeUsage p₄ else p₄) := by
    intro v P haside hP hfront
    refine ⟨haside, hfront, h₂, ?_, h₄, ?_⟩
    · exact (frame_applyAutoThink hkind (hP _ .thinking) h₃).trans
        (frame_normalizeThinkingPayload (hP _ .thinking))
    · split_ifs with hs
      · exact frame_includeUsage (hP _ (.streamOptions hs))
      · exact .refl _ _
  have hfront : DiffersOnlyAt
      (fun p => Overwritten (isStream payload) p ∨ ReasoningPlace payload p) payload
      (normalizeTools p₁) :=
    (frame_stripReasoningContent ⟨_, Or.inl .model⟩ fun _ => Or.inr).trans
      (frame_front hstrip (fun _ => Or.inl) h₁)
  refine (hstaged (fun p hp => hp.imp_left fun h => ⟨_, h⟩) (fun _ => Or.inl) hfront).sentAs
    (fun p hp => hp.elim (fun h => .overwritten h) (.reasoning rfl)) fun _ path hpath => ?_
  -- after the first step the fields are gone, and the others do not bring them back
  have hrest := (hstaged (fun p hp => Or.inl ⟨_, hp⟩) (fun _ h => h)
    (frame_front hstrip (fun _ h => h) h₁)).frame
  refine hrest.getAt_eq_none ?_ (getAt_stripReasoningContent hpath)
  rintro p hpre (hp | hp | hp)
  · obtain ⟨i, k, msg, rfl, -⟩ := hpath
    exact (hp.apart (Or.inl rfl)).1 hpre
  · exact (hpath.apart_walkPath hp.1.walkPath).2 hpre
  · exact (hpath.apart_walkPath hp.walkPath).2 hpre

/-- The steps of the Anthropic pipeline. -/
theorem sentAs_messages (hobj : payload.isObject = true)
    (h₁ : (normalizeThinkingPayload payload).setIndex "model" (string resolved) = some p₁)
    (h₂ : Described tr (limitImagesInMessages p₁ n) p₂) :
    SentAs .anthropic payload tr (normalizeTools p₂) := by
  have hthink : (normalizeThinkingPayload payload).isObject = true := by
    rw [normalizeThinkingPayload, isObject_modify, hobj]
  have hstaged : Staged (Overwritten false) tr n payload p₁ (limitImagesInMessages p₁ n)
      (limitImagesInMessages p₁ n) p₂ (normalizeTools p₂) :=
    { aside := fun p hp => Or.inl ⟨_, hp⟩
      front := (frame_normalizeThinkingPayload .thinking).trans (.setIndex hthink .model h₁)
      cap := Or.inr rfl
      middle := .refl _ _
      vision := h₂
      back := frame_normalizeTools .parameters }
  refine hstaged.sentAs (fun p hp => .overwritten hp) fun hopenAI => ?_
  cases hopenAI

end Pipelines

/-! ### The steps in a run -/

section Runs

variable {payload : Value} {tr : Trace Answer}

theorem Shown.mono {path : List Seg} {x : Option Value} {tr' : Trace Answer}
    (h : Shown payload tr path x) (hsub : ∀ x ∈ tr, x ∈ tr') : Shown payload tr' path x := by
  cases h with
  | kept => exact .kept
  | shared => exact .shared
  | described i asked part_eq uri_eq question answer =>
    exact .described i (hsub _ asked) part_eq uri_eq question answer

theorem SentAs.mono {api : ApiFormat} {w : Value} {tr' : Trace Answer} (h : SentAs api payload tr w)
    (hsub : ∀ x ∈ tr, x ∈ tr') : SentAs api payload tr' w :=
  ⟨h.frame, h.removed, fun path hpath => (h.images path hpath).mono hsub, h.allOrNone⟩

theorem described_of_visionStep {resolved key : String} {cfg : Config} {w : Value}
    (hrun : Run (visionStep payload resolved cfg key) tr (.ret w)) : Described tr payload w := by
  obtain ⟨catalog, tr₁, rfl, hstep⟩ := run_perform_ret hrun
  by_cases hneeds : needsVisionHandoff catalog resolved cfg = true
  · rw [if_pos hneeds] at hstep
    obtain ⟨catalog', tr₂, rfl, hhandoff⟩ := run_perform_ret hstep
    by_cases hneeds' : needsVisionHandoff catalog' resolved cfg = true
    · rw [if_pos hneeds'] at hhandoff
      by_cases hempty : (collectImageParts payload).isEmpty = true
      · simp only [hempty] at hhandoff
        cases hhandoff
        exact Or.inl rfl
      · simp only [if_neg hempty] at hhandoff
        obtain ⟨descriptions, tr₃, rfl, hreplaced⟩ := run_perform_ret hhandoff
        cases hreplaced
        refine Or.inr ⟨key, cfg, descriptions, ?_, rfl⟩
        exact List.mem_cons_of_mem _ (List.mem_cons_of_mem _ List.mem_cons_self)
    · rw [if_neg hneeds'] at hhandoff
      cases hhandoff
      exact Or.inl rfl
  · rw [if_neg hneeds] at hstep
    cases hstep
    exact Or.inl rfl

/-- What the payload stage of the OpenAI pipeline returns. -/
theorem sentAs_chatPayload {slot : KeySlot} {w : Value} {cfg : Config} {resolved : String}
    (hobj : payload.isObject = true)
    (hrun : Run (chatPayload payload slot (isStream payload)) tr (.ret (w, cfg, resolved))) :
    SentAs .openAI payload tr w := by
  obtain ⟨cfg', tr₁, rfl, hcfg⟩ := run_perform_ret hrun
  obtain ⟨⟨p₁, r⟩, tr₂, tr₃, rfl, hmodel, hrest⟩ := run_bind_ret hcfg
  obtain ⟨cat, tr₄, rfl, hwrite⟩ := run_perform_ret hmodel
  obtain ⟨p, h₁, hpair⟩ := run_orPanic hwrite
  obtain ⟨cat₁, tr₅, rfl, hlimit⟩ := run_perform_ret hrest
  obtain ⟨cat₂, tr₆, rfl, hthink⟩ := run_perform_ret hlimit
  obtain ⟨p₃, h₃, hvision⟩ := run_orPanic hthink
  obtain ⟨p₄, tr₇, tr₈, rfl, hstep, hend⟩ := run_bind_ret hvision
  cases hpair with
  | nil =>
    cases hend with
    | nil =>
      have hdescribed := described_of_visionStep hstep
      suffices hsent : SentAs .openAI payload tr₇
          (if isStream payload then includeUsage p₄ else p₄) from
        hsent.mono (by simp +contextual)
      split_ifs at h₃
      · exact sentAs_chat (n := 0) hobj h₁ (Or.inl rfl) h₃ hdescribed
      · exact sentAs_chat hobj h₁ (Or.inr rfl) h₃ hdescribed

/-- What the payload stage of the Anthropic pipeline returns. -/
theorem sentAs_messagesPayload {slot : KeySlot} {w : Value} {cfg : Config} {resolved : String}
    (hobj : payload.isObject = true)
    (hrun : Run (messagesPayload payload slot) tr (.ret (w, cfg, resolved))) :
    SentAs .anthropic payload tr w := by
  obtain ⟨cfg', tr₁, rfl, hcfg⟩ := run_perform_ret hrun
  obtain ⟨⟨p₁, r⟩, tr₂, tr₃, rfl, hmodel, hrest⟩ := run_bind_ret hcfg
  obtain ⟨cat, tr₄, rfl, hwrite⟩ := run_perform_ret hmodel
  obtain ⟨p, h₁, hpair⟩ := run_orPanic hwrite
  obtain ⟨p₂, tr₅, tr₆, rfl, hstep, hend⟩ := run_bind_ret hrest
  cases hpair with
  | nil =>
    cases hend with
    | nil =>
      have hsent : SentAs .anthropic payload tr₅ (normalizeTools p₂) :=
        sentAs_messages hobj h₁ (described_of_visionStep hstep)
      exact hsent.mono (by simp +contextual)

/-- What the part before the call prepares, in either pipeline. -/
theorem sentAs_prepare {env : Env} {api : ApiFormat} {p : Prepared} (hobj : payload.isObject = true)
    (hrun : Run (prepare env api payload) tr (.ret (.ok p))) : SentAs api payload tr p.payload := by
  cases api with
  | openAI =>
    obtain ⟨admitted, tr₁, rfl, hadmitted⟩ := run_perform_ret hrun
    split_ifs at hadmitted
    · obtain ⟨selected, tr₂, tr₃, rfl, -, hrest⟩ := run_bind_ret hadmitted
      cases selected with
      | none => cases hrest
      | some s =>
        obtain ⟨⟨w, cfg, resolved⟩, tr₄, tr₅, rfl, hpayload, hend⟩ := run_bind_ret hrest
        cases hend with
        | nil => exact (sentAs_chatPayload hobj hpayload).mono (by simp +contextual)
    · cases hadmitted
  | anthropic =>
    obtain ⟨total, tr₁, rfl, htotal⟩ := run_perform_ret hrun
    split_ifs at htotal
    · cases htotal
    · obtain ⟨admitted, tr₂, rfl, hadmitted⟩ := run_perform_ret htotal
      split_ifs at hadmitted
      · obtain ⟨selected, tr₃, tr₄, rfl, -, hrest⟩ := run_bind_ret hadmitted
        cases selected with
        | none => cases hrest
        | some s =>
          obtain ⟨⟨w, cfg, resolved⟩, tr₅, tr₆, rfl, hpayload, hend⟩ := run_bind_ret hrest
          cases hend with
          | nil => exact (sentAs_messagesPayload hobj hpayload).mono (by simp +contextual)
      · cases hadmitted

end Runs

/-! ### What is sent -/

section Sent

variable {body : List UInt8}

/-- Nothing is sent before the payload is prepared. -/
theorem noSend_prepare (env : Env) (api : ApiFormat) (payload : Value) :
    Ensures (fun e => ∀ call, e ≠ .send call) (fun _ => True) (prepare env api payload) := by
  have hquiet : Ensures Quiet (fun _ => True) (prepare env api payload) := by
    cases api with
    | openAI => exact quiet_chatPrepare env payload
    | anthropic => exact quiet_messagesPrepare env payload
  refine hquiet.mono ?_ fun _ _ => trivial
  rintro _ he call rfl
  exact he

theorem carries_messagesSuccess (c : MessagesCall) (upstreamStart : ℕ) (reply : Reply) :
    Ensures (Carries body) (fun _ => True) (messagesSuccess c upstreamStart reply) := by
  refine ⟨nofun, fun _ => ?_⟩
  show Ensures _ _ (if reply.headers.isSse = true then _ else _)
  split_ifs
  · exact ⟨nofun, fun _ => trivial⟩
  · refine ensures_bind carries_readBodyOrEmpty fun _ _ => ⟨nofun, fun _ => ?_⟩
    show Ensures _ _ (recordStat _ _ _ _ _ _ _ _ >>= _)
    exact ensures_bind (carries_recordStat _ _ _ _ _ _ _ _) fun _ _ => trivial

theorem carries_messagesError (c : MessagesCall) (reply : Reply) :
    Ensures (Carries body) (fun _ => True) (messagesError c reply) := by
  refine ensures_bind carries_readErrorBody fun _ _ => ⟨nofun, fun _ => ⟨nofun, fun _ => ?_⟩⟩
  show Ensures _ _ (doIf _ _ >>= _)
  refine ensures_bind (carries_doIf ⟨nofun, fun _ => trivial⟩) fun _ _ => ?_
  refine ensures_bind (carries_doIf ⟨nofun, fun _ => trivial⟩) fun _ _ => ?_
  exact ensures_bind (carries_recordStat _ _ _ _ _ _ _ _) fun _ _ => trivial

theorem carries_messagesUpstream (env : Env) (headers : HeaderMap) (stream : Bool) (p : Prepared) :
    Ensures (Carries p.payload.toVec) (fun _ => True) (messagesUpstream env headers stream p) := by
  refine ⟨nofun, fun reqStart => ⟨nofun, fun upstreamStart => ⟨?_, fun result => ?_⟩⟩⟩
  · intro call hcall
    cases hcall
    rfl
  · cases result with
    | ok reply =>
      refine messagesReply_rule (S := Ensures (Carries p.payload.toVec) (fun _ => True))
        (fun _ => carries_messagesSuccess _ _ _) (fun _ _ => carries_messagesError _ _)
        fun _ _ => ensures_bind carries_readBodyOrEmpty fun _ _ => trivial
    | error err =>
      refine ⟨nofun, fun _ => ⟨nofun, fun _ => ⟨nofun, fun _ => ?_⟩⟩⟩
      show Ensures _ _ (recordStat _ _ _ _ _ _ _ _ >>= _)
      exact ensures_bind (carries_recordStat _ _ _ _ _ _ _ _) fun _ _ => trivial

/-- From the prepared payload to a call, in either pipeline. -/
theorem sent_of_parsed {env : Env} {api : ApiFormat} {payload : Value} {tr : Trace Answer}
    {call : UpstreamCall} {k : Except String Reply → Handler Response}
    {rest : Prepared → Handler Response} (hobj : payload.isObject = true)
    (hrest : ∀ p, Ensures (Carries p.payload.toVec) (fun _ => True) (rest p))
    (hrun : Run (prepare env api payload >>= fun prepared => match prepared with
      | .error resp => pure resp
      | .ok p => rest p) tr (.vis (.send call) k)) :
    ∃ w, SentAs api payload tr w ∧ call.body = w.toVec := by
  obtain ⟨prepared, tr₁, tr₂, rfl, hprep, hsend⟩ :=
    (noSend_prepare env api payload).run_bind (fun h => h call rfl) hrun
  cases prepared with
  | error resp => cases hsend
  | ok p =>
    refine ⟨p.payload, (sentAs_prepare hobj hprep).mono (by simp +contextual), ?_⟩
    exact ((hrest p).run hsend).1 call rfl

end Sent

/-- A payload with one image, for a model that cannot see. -/
def imagePayload : Value :=
  object [("messages", array [object [("content", array [imageWithUrl])]]), ("model", string "m")]

/-- Answers up to the call, with a description for every image. -/
def describingAnswers : (e : Eff) → Option (Answer e)
  | .config => some handoffConfig
  | .catalog => some blindCatalog
  | .analyzeImages dataUris _ _ => some ⟨dataUris.map fun _ => "a cat", List.length_map _⟩
  | e => System.unsentAnswers e

end Mybro
