import Mybro.Messages

/-!
# Where the pipelines can panic

Between JSON parsing and the upstream call a handler slices strings at byte offsets and assigns
through string indices; both can panic. The bracket prefix is always cut at a character boundary, so
the one slice that can fail is the cut of the first prompt at byte 80 (`firstPrompt_isSome_iff`);
the one assignment that can fail is that of the model, on a body that is neither an object nor null,
since every other step keeps the shape of the payload.
-/

namespace Mybro

open Value Utf8 Prog

/-! ### The first prompt -/

/-- The text of the last user message. -/
def LastUserText (payload : Value) (t : String) : Prop :=
  ∃ before m later, (payload.get "messages").bind asArray = some (before ++ m :: later) ∧
    isUser m = true ∧ (∀ x ∈ later, isUser x = false) ∧ msgText m = t

/-- A text without its bracketed start: what follows the first closing bracket, without leading
white space, when the text starts with an opening one; else the whole text. -/
inductive Unbracketed : List Char → List Char → Prop
  | bracket (a b : List Char) : ']' ∉ a →
      Unbracketed ('[' :: a ++ ']' :: b) (b.dropWhile isWhitespace)
  | plain (t : List Char) : (¬ ∃ a b, t = '[' :: a ++ ']' :: b) → Unbracketed t t

/-- No character of the unbracketed last user text lies across byte 80. -/
def CutFits (payload : Value) : Prop :=
  ∀ t p, LastUserText payload t → Unbracketed t.toList p → ¬ Straddles p 80

theorem lastUserText_iff {payload : Value} {t : String} :
    LastUserText payload t ↔ ∃ ms m, (payload.get "messages").bind asArray = some ms ∧
      ms.reverse.find? isUser = some m ∧ msgText m = t := by
  constructor
  · rintro ⟨before, m, later, hms, hm, hlater, ht⟩
    refine ⟨_, m, hms, List.find?_eq_some_iff_append.2 ⟨hm, later.reverse, before.reverse, ?_, ?_⟩, ht⟩
    · simp
    · intro x hx
      simp [hlater x (List.mem_reverse.1 hx)]
  · rintro ⟨ms, m, hms, hfind, ht⟩
    obtain ⟨hm, as, bs, hrev, has⟩ := List.find?_eq_some_iff_append.1 hfind
    refine ⟨bs.reverse, m, as.reverse, ?_, hm, fun x hx => ?_, ht⟩
    · have hms' : ms = bs.reverse ++ m :: as.reverse := by
        rw [← List.reverse_reverse ms, hrev]
        simp
      rw [hms, hms']
    · simpa using has x (List.mem_reverse.1 hx)

/-- Stripping the bracket prefix never slices inside a character. -/
theorem exists_stripBracketPrefix (s : String) :
    ∃ p, stripBracketPrefix s = some (String.ofList p) ∧ Unbracketed s.toList p := by
  have hplain : stripBracketPrefix s = some s → (¬ ∃ a b, s.toList = '[' :: a ++ ']' :: b) →
      ∃ p, stripBracketPrefix s = some (String.ofList p) ∧ Unbracketed s.toList p :=
    fun h hno => ⟨s.toList, by rw [h, String.ofList_toList], .plain _ hno⟩
  by_cases hhead : s.toList.head? = some '['
  · cases hfind : Utf8.find ']' s.toList with
    | none =>
      refine hplain (by simp [stripBracketPrefix, hhead, hfind]) ?_
      rintro ⟨a, b, h⟩
      exact find_eq_none.1 hfind (by rw [h]; simp)
    | some pos =>
      obtain ⟨a, b, h, hlen, ha⟩ := find_eq_some hfind
      have hstrip : stripBracketPrefix s =
          some (trimStart (String.ofList b)) := by
        -- the bracket takes one byte, so the offset behind it is a boundary
        have hslice := sliceFrom_eq (s := s) (a := a ++ [']']) (b := b) (by rw [h]; simp)
        have hpos : byteLen (a ++ [']']) = pos + 1 := by
          rw [byteLen_append, hlen]
          rfl
        rw [hpos] at hslice
        simp [stripBracketPrefix, hhead, hfind, hslice]
      cases a with
      | nil =>
        rw [h] at hhead
        cases hhead
      | cons c a =>
        have hc : c = '[' := by
          rw [h] at hhead
          exact Option.some.inj hhead
        subst hc
        refine ⟨b.dropWhile isWhitespace, ?_, ?_⟩
        · rw [hstrip, trimStart, String.toList_ofList]
        · rw [h]
          exact .bracket a b fun hmem => ha (List.mem_cons_of_mem _ hmem)
  · refine hplain (by simp [stripBracketPrefix, hhead]) ?_
    rintro ⟨a, b, h⟩
    exact hhead (by rw [h]; rfl)

/-- The unbracketed text is unique. -/
theorem Unbracketed.unique {t p p' : List Char} (h : Unbracketed t p) (h' : Unbracketed t p') :
    p = p' := by
  cases h with
  | plain _ hno =>
    generalize ht : t = t' at h'
    cases h' with
    | plain => rfl
    | bracket a b ha => exact absurd ⟨a, b, ht⟩ hno
  | bracket a b ha =>
    generalize ht : '[' :: a ++ ']' :: b = t' at h'
    cases h' with
    | plain _ hno => exact absurd ⟨a, b, ht.symm⟩ hno
    | bracket a' b' ha' =>
      -- were one of the two parts longer, it would hold the bracket that ends the other
      have hcut : a ++ ']' :: b = a' ++ ']' :: b' := List.tail_eq_of_cons_eq ht
      rcases List.append_eq_append_iff.1 hcut with ⟨l, hl, hr⟩ | ⟨l, hl, hr⟩
      · cases l with
        | nil => rw [(List.cons_eq_cons.1 hr).2]
        | cons c l =>
          obtain ⟨rfl, -⟩ := List.cons_eq_cons.1 hr
          exact absurd (by rw [hl]; simp) ha'
      · cases l with
        | nil => rw [(List.cons_eq_cons.1 hr).2]
        | cons c l =>
          obtain ⟨rfl, -⟩ := List.cons_eq_cons.1 hr
          exact absurd (by rw [hl]; simp) ha

/-- The prompt can be cut exactly when no character lies across byte 80. -/
theorem cut_isSome_iff (prompt : String) :
    (∃ t, (if len prompt > 80 then sliceTo prompt 80 else some prompt) = some t) ↔
      ¬ Straddles prompt.toList 80 := by
  split_ifs with hlen
  · rw [sliceTo_isSome_iff, isBoundary_iff_not_straddles (le_of_lt hlen)]
  · refine ⟨fun _ hs => hlen (lt_of_straddles hs), fun _ => ⟨_, rfl⟩⟩

/-- **The first prompt is defined exactly when the cut at byte 80 fits.** -/
theorem firstPrompt_isSome_iff (payload : Value) :
    (∃ t, firstPrompt payload = some t) ↔ CutFits payload := by
  unfold firstPrompt extractUserPrompt
  have hempty : (∃ t, ((some "" : Option String).bind fun prompt =>
      if len prompt > 80 then sliceTo prompt 80 else some prompt) = some t) := ⟨"", rfl⟩
  cases hms : (payload.get "messages").bind asArray with
  | none =>
    refine ⟨fun _ t p hlast => ?_, fun _ => hempty⟩
    obtain ⟨ms, m, h, -⟩ := lastUserText_iff.1 hlast
    rw [hms] at h
    cases h
  | some ms =>
    cases hfind : ms.reverse.find? isUser with
    | none =>
      refine ⟨fun _ t p hlast => ?_, fun _ => by simpa only [hfind] using hempty⟩
      obtain ⟨ms', m, h, hm, -⟩ := lastUserText_iff.1 hlast
      rw [hms] at h
      cases h
      rw [hfind] at hm
      cases hm
    | some m =>
      obtain ⟨p, hstrip, hp⟩ := exists_stripBracketPrefix (msgText m)
      have hcut := cut_isSome_iff (String.ofList p)
      rw [String.toList_ofList] at hcut
      simp only [hfind, hstrip, Option.bind_some]
      rw [hcut]
      constructor
      · intro hfits t p' hlast hp'
        obtain ⟨ms', m', h, hm', rfl⟩ := lastUserText_iff.1 hlast
        rw [hms] at h
        cases h
        rw [hfind] at hm'
        cases hm'
        rwa [hp'.unique hp]
      · exact fun hfits => hfits (msgText m) p (lastUserText_iff.2 ⟨ms, m, hms, hfind, rfl⟩) hp

/-! ### The shape of the payload -/

theorem exists_setIndex {v : Value} (h : v.isObject = true ∨ v = null) (k : String) (x : Value) :
    ∃ w, v.setIndex k x = some w ∧ w.isObject = true := by
  obtain ⟨w, hw⟩ := (v.setIndex_isSome_iff k x).2 h
  exact ⟨w, hw, isObject_of_setIndex hw⟩

theorem isObject_limitImagesInMessages (payload : Value) (maxImages : ℕ) :
    (limitImagesInMessages payload maxImages).isObject = payload.isObject := by
  unfold limitImagesInMessages
  simp only
  split_ifs
  · rfl
  · rfl
  · refine isObject_foldl_modifyAt ImagePos.path _ (fun pos hpos => ?_) payload
    exact (mem_imagePositions (List.mem_mergeSort.1 (List.mem_of_mem_take hpos))).1.ne_nil

theorem exists_applyAutoThink (catalog : Option Catalog) {payload : Value} (resolved : String)
    (h : payload.isObject = true) :
    ∃ w, applyAutoThink catalog payload resolved = some w ∧ w.isObject = true := by
  unfold applyAutoThink
  simp only
  split
  · exact ⟨payload, rfl, h⟩
  · split_ifs
    · exact exists_setIndex (Or.inl h) _ _
    · exact ⟨payload, rfl, h⟩

/-- Steps that only look for members leave a body without members alone. -/
theorem modify_of_not_isObject {v : Value} (h : v.isObject = false) (k : String)
    (f : Value → Value) : v.modify k f = v := by
  cases v with
  | object m => cases h
  | _ => rfl

/-! ### The effects on the way -/

/-- The effect is no panic. -/
def NoPanic (e : Eff) : Prop := ∀ site, e ≠ .abort site

theorem ensures_visionStep {payload : Value} (resolved : String) (cfg : Config) (key : String)
    (h : payload.isObject = true) :
    Ensures NoPanic (fun w : Value => w.isObject = true) (visionStep payload resolved cfg key) := by
  have hperform : Ensures NoPanic (fun w : Value => w.isObject = true)
      (performVisionHandoff payload resolved cfg key) := by
    refine ⟨nofun, fun catalog => ?_⟩
    show Ensures _ _ (if _ then _ else _)
    split_ifs
    · exact h
    · refine ⟨nofun, fun descriptions => ?_⟩
      show (replaceParts payload _ _).isObject = true
      rw [isObject_replaceParts, h]
    · exact h
  refine ⟨nofun, fun catalog => ?_⟩
  show Ensures _ _ (if _ then _ else _)
  split_ifs
  · exact hperform
  · exact h

theorem ensures_resolveModel (cfg : Config) {payload : Value}
    (h : payload.isObject = true ∨ payload = null) :
    Ensures NoPanic (fun p : Value × String => p.1.isObject = true) (resolveModel cfg payload) := by
  refine ⟨nofun, fun catalog => ?_⟩
  obtain ⟨w, hw, hobj⟩ := exists_setIndex h "model"
    (string (resolveModelId catalog ((payload.getStr "model").getD "") cfg))
  show Ensures _ _ (orPanic .index _ >>= _)
  rw [hw]
  exact hobj

theorem isObject_includeUsage (payload : Value) :
    (includeUsage payload).isObject = payload.isObject := isObject_modifyObject _ _

theorem ensures_chatPayload {payload : Value} (slot : KeySlot) (stream : Bool)
    (h : payload.isObject = true ∨ payload = null) :
    Ensures NoPanic (fun p : Value × Config × String => p.1.isObject = true)
      (chatPayload payload slot stream) := by
  have hstrip : (stripReasoningContent payload).isObject = true ∨
      stripReasoningContent payload = null := by
    rcases h with h | rfl
    · exact Or.inl (by rw [stripReasoningContent, isObject_modify, h])
    · exact Or.inr rfl
  refine ⟨nofun, fun cfg => ?_⟩
  show Ensures _ _ (resolveModel cfg _ >>= _)
  -- writing the model makes an object of null, and from here on every step keeps it one
  refine ensures_bind (ensures_resolveModel cfg hstrip) ?_
  rintro ⟨payload₁, resolved⟩ h₁
  refine ⟨nofun, fun catalog => ⟨nofun, fun catalog' => ?_⟩⟩
  have h₂ : (if needsVisionHandoff catalog resolved cfg then normalizeTools payload₁
      else limitImagesInMessages (normalizeTools payload₁) cfg.maxImages).isObject = true := by
    have htools : (normalizeTools payload₁).isObject = true := by
      rw [normalizeTools, isObject_modify]
      exact h₁
    split_ifs
    · exact htools
    · rw [isObject_limitImagesInMessages, htools]
  obtain ⟨w, hw, h₃⟩ := exists_applyAutoThink catalog' resolved h₂
  show Ensures _ _ (orPanic .index _ >>= _)
  rw [hw]
  show Ensures _ _ (visionStep _ resolved cfg slot.key >>= _)
  refine ensures_bind (ensures_visionStep resolved cfg slot.key ?_) fun payload₄ h₄ => ?_
  · rw [normalizeThinkingPayload, isObject_modify, h₃]
  · show (if stream then includeUsage payload₄ else payload₄).isObject = true
    split_ifs
    · rw [isObject_includeUsage, h₄]
    · exact h₄

theorem ensures_messagesPayload {payload : Value} (slot : KeySlot)
    (h : payload.isObject = true ∨ payload = null) :
    Ensures NoPanic (fun p : Value × Config × String => p.1.isObject = true)
      (messagesPayload payload slot) := by
  have hthink : (normalizeThinkingPayload payload).isObject = true ∨
      normalizeThinkingPayload payload = null := by
    rcases h with h | rfl
    · exact Or.inl (by rw [normalizeThinkingPayload, isObject_modify, h])
    · exact Or.inr rfl
  refine ⟨nofun, fun cfg => ?_⟩
  show Ensures _ _ (resolveModel cfg _ >>= _)
  refine ensures_bind (ensures_resolveModel cfg hthink) ?_
  rintro ⟨payload₁, resolved⟩ h₁
  refine ensures_bind (ensures_visionStep resolved cfg slot.key ?_) fun payload₂ h₂ => ?_
  · rw [isObject_limitImagesInMessages]
    exact h₁
  · show (normalizeTools payload₂).isObject = true
    rw [normalizeTools, isObject_modify, h₂]

/-- The effect is no panic, except at the slice of a first prompt that cannot be cut. -/
def SliceAtMost (payload : Value) (e : Eff) : Prop :=
  ∀ site, e = .abort site → site = .slice ∧ ¬ CutFits payload

theorem NoPanic.sliceAtMost {payload : Value} {e : Eff} (h : NoPanic e) : SliceAtMost payload e :=
  fun site he => absurd he (h site)

theorem ensures_selectKey (env : Env) (payload : Value) :
    Ensures (SliceAtMost payload) (fun _ => True) (selectKey env payload) := by
  refine ⟨nofun, fun touched => ⟨nofun, fun slot => ?_⟩⟩
  cases slot with
  | none => trivial
  | some slot =>
    refine ⟨nofun, fun session => ?_⟩
    show Ensures _ _ (doIf _ _ >>= _)
    unfold doIf logFirstPrompt
    have hcut := firstPrompt_isSome_iff payload
    split_ifs
    · cases hprompt : firstPrompt payload with
      | some t => exact ⟨nofun, fun _ => trivial⟩
      | none =>
        refine ⟨?_, nofun⟩
        rintro _ ⟨⟩
        refine ⟨rfl, fun hfits => ?_⟩
        obtain ⟨t, ht⟩ := hcut.2 hfits
        rw [hprompt] at ht
        cases ht
    · trivial

/-- What the part before the upstream call may come to: an error response, or an object to
forward. -/
def Accepted : Except Response Prepared → Prop
  | .error resp => resp.given ≠ none
  | .ok p => p.payload.isObject = true

theorem ensures_prepare (env : Env) (api : ApiFormat) {v : Value}
    (h : v.isObject = true ∨ v = null) :
    Ensures (SliceAtMost v) Accepted (prepare env api v) := by
  have hpayload : ∀ {p : Handler (Value × Config × String)},
      Ensures NoPanic (fun p : Value × Config × String => p.1.isObject = true) p →
      Ensures (SliceAtMost v) (fun p : Value × Config × String => p.1.isObject = true) p :=
    fun hp => hp.mono (fun _ he => he.sliceAtMost) fun _ hq => hq
  cases api with
  | openAI =>
    refine ⟨nofun, fun admitted => ?_⟩
    show Ensures _ _ (if _ then _ else _)
    split_ifs
    · refine ensures_bind (ensures_selectKey env v) fun selected _ => ?_
      cases selected with
      | none => exact Option.some_ne_none _
      | some s => exact ensures_bind (hpayload (ensures_chatPayload s.1 _ h)) fun p hp => hp
    · exact Option.some_ne_none _
  | anthropic =>
    refine ⟨nofun, fun total => ?_⟩
    show Ensures _ _ (if _ then _ else _)
    split_ifs
    · exact Option.some_ne_none _
    · refine ⟨nofun, fun admitted => ?_⟩
      show Ensures _ _ (if _ then _ else _)
      split_ifs
      · refine ensures_bind (ensures_selectKey env v) fun selected _ => ?_
        cases selected with
        | none => exact Option.some_ne_none _
        | some s => exact ensures_bind (hpayload (ensures_messagesPayload s.1 h)) fun p hp => hp
      · exact Option.some_ne_none _

/-! ### Runs that panic -/

/-- Some run ends in a panic at the site. -/
def Panics {α : Type} (site : Panic) (p : Handler α) : Prop :=
  ∃ k, Reaches p (.vis (.abort site) k)

section Panics

variable {α β : Type} {site : Panic}

theorem Panics.bind {p : Handler α} (h : Panics site p) (f : α → Handler β) :
    Panics site (p >>= f) := by
  obtain ⟨k, hk⟩ := h
  exact ⟨_, hk.bind f⟩

theorem Panics.after {p : Handler α} {f : α → Handler β} {a : α} (h : Reaches p (.ret a))
    (hf : Panics site (f a)) : Panics site (p >>= f) := by
  obtain ⟨k, hk⟩ := hf
  exact ⟨k, (h.bind f).trans hk⟩

theorem Panics.answer {e : Eff} {k : Answer e → Handler α} (r : Answer e)
    (h : Panics site (k r)) : Panics site (.vis e k) := by
  obtain ⟨k', hk⟩ := h
  exact ⟨k', .answer r hk⟩

theorem panics_orPanic_none (f : α → Handler β) : Panics site (orPanic site none >>= f) :=
  ⟨_, .refl _⟩

end Panics

/-- A new session whose first prompt cannot be cut. -/
theorem panics_selectKey (env : Env) {payload : Value} (h : ¬ CutFits payload) :
    Panics .slice (selectKey env payload) := by
  have hnone : firstPrompt payload = none := by
    cases hf : firstPrompt payload with
    | none => rfl
    | some t => exact absurd ((firstPrompt_isSome_iff payload).1 ⟨t, hf⟩) h
  have hlog : Panics .slice (logFirstPrompt payload 1) := by
    unfold logFirstPrompt
    rw [hnone]
    exact panics_orPanic_none _
  refine Panics.answer (e := Eff.touch _) (none : Option TouchResult) ?_
  refine Panics.answer (e := Eff.acquireKey _) (some ⟨0, "", ""⟩ : Option KeySlot) ?_
  refine Panics.answer (e := Eff.track _ _) (⟨1, 1, some 0, true⟩ : TouchResult) ?_
  exact hlog.bind _

/-- A session that is known already. -/
theorem reaches_selectKey (env : Env) (payload : Value) :
    Reaches (selectKey env payload) (.ret (some (⟨0, "", ""⟩, 1))) := by
  refine .answer (e := Eff.touch _) (none : Option TouchResult) ?_
  refine .answer (e := Eff.acquireKey _) (some ⟨0, "", ""⟩ : Option KeySlot) ?_
  refine .answer (e := Eff.track _ _) (⟨1, 2, some 0, false⟩ : TouchResult) ?_
  exact .refl _

/-- The model is written into a body that has no place for it. -/
theorem panics_resolveModel (cfg : Config) {payload : Value}
    (h : ¬ (payload.isObject = true ∨ payload = null)) :
    Panics .index (resolveModel cfg payload) := by
  have hnone : ∀ x, payload.setIndex "model" x = none := by
    intro x
    cases hs : payload.setIndex "model" x with
    | none => rfl
    | some w => exact absurd ((payload.setIndex_isSome_iff "model" x).1 ⟨w, hs⟩) h
  refine Panics.answer (e := Eff.catalog) (none : Option Catalog) ?_
  show Panics .index (orPanic .index (payload.setIndex "model" _) >>= _)
  rw [hnone]
  exact panics_orPanic_none _

/-- Whatever happens during key selection, or with the payload once there is a key, happens in the
part before the upstream call. -/
theorem panics_prepare (env : Env) (api : ApiFormat) {site : Panic} {payload : Value}
    (h : Panics site (selectKey env payload) ∨
      (∃ slot sessNum, Reaches (selectKey env payload) (.ret (some (slot, sessNum))) ∧
        Panics site (chatPayload payload slot (isStream payload)) ∧
        Panics site (messagesPayload payload slot))) :
    Panics site (prepare env api payload) := by
  cases api with
  | openAI =>
    refine Panics.answer (e := Eff.gateAcquire) true ?_
    show Panics site (selectKey env payload >>= _)
    rcases h with h | ⟨slot, sessNum, hsel, hchat, -⟩
    · exact h.bind _
    · exact Panics.after hsel (hchat.bind _)
  | anthropic =>
    refine Panics.answer (e := Eff.keypoolTotal) (1 : ℕ) ?_
    refine Panics.answer (e := Eff.gateAcquire) true ?_
    show Panics site (selectKey env payload >>= _)
    rcases h with h | ⟨slot, sessNum, hsel, -, hmessages⟩
    · exact h.bind _
    · exact Panics.after hsel (hmessages.bind _)

theorem panics_slice (env : Env) (api : ApiFormat) {payload : Value} (h : ¬ CutFits payload) :
    Panics .slice (prepare env api payload) :=
  panics_prepare env api (Or.inl (panics_selectKey env h))

theorem panics_index (env : Env) (api : ApiFormat) {payload : Value}
    (h : ¬ (payload.isObject = true ∨ payload = null)) :
    Panics .index (prepare env api payload) := by
  have hobj : payload.isObject = false := by simpa using fun hobj => h (Or.inl hobj)
  refine panics_prepare env api (Or.inr ⟨_, _, reaches_selectKey env payload, ?_, ?_⟩)
  · refine Panics.answer (e := Eff.config) ({} : Config) ?_
    show Panics .index (resolveModel {} (stripReasoningContent payload) >>= _)
    rw [stripReasoningContent, modify_of_not_isObject hobj]
    exact (panics_resolveModel {} h).bind _
  · refine Panics.answer (e := Eff.config) ({} : Config) ?_
    show Panics .index (resolveModel {} (normalizeThinkingPayload payload) >>= _)
    rw [normalizeThinkingPayload, modify_of_not_isObject hobj]
    exact (panics_resolveModel {} h).bind _

/-- What happens before the upstream call happens in the handler. -/
theorem panics_handler {env : Env} (api : ApiFormat) {bytes : List UInt8} {v : Value} {site : Panic}
    (hparse : env.fromSlice bytes = .ok v) (h : Panics site (prepare env api v)) :
    Panics site (handler env api ⟨[], some bytes⟩) := by
  cases api with
  | openAI =>
    have hhandler : handler env .openAI ⟨[], some bytes⟩ = perform .config >>= fun cfg =>
        if checkAuth cfg [] then chatParsed env [] v else pure (authErrorResponse .openAI) := by
      unfold handler chatCompletions
      simp only [hparse]
    rw [hhandler]
    exact Panics.answer (e := Eff.config) ({} : Config) (h.bind _)
  | anthropic =>
    have hhandler : handler env .anthropic ⟨[], some bytes⟩ = perform .config >>= fun cfg =>
        if checkAuth cfg [] then messagesParsed env [] v else pure (authErrorResponse .anthropic) := by
      unfold handler messages
      simp only [hparse]
    rw [hhandler]
    exact Panics.answer (e := Eff.config) ({} : Config) (h.bind _)

/-! ### Both panics, exactly -/

/-- **Between JSON parsing and the upstream call** no string index panics exactly for the bodies
that are an object or null; and nothing panics at all, and what is not refused is forwarded as an
object, exactly for those of them whose first prompt can be cut. -/
theorem prepare_sound_iff (env : Env) (api : ApiFormat) (v : Value) :
    (¬ Panics .index (prepare env api v) ↔ v.isObject = true ∨ v = null) ∧
    (((∀ site, ¬ Panics site (prepare env api v)) ∧
      ∀ r, Reaches (prepare env api v) (.ret r) → Accepted r) ↔
      (v.isObject = true ∨ v = null) ∧ CutFits v) := by
  have hreached := fun hshape => (ensures_iff _).1 (@ensures_prepare env api v hshape)
  refine ⟨⟨fun hpanic => ?_, ?_⟩, ⟨?_, ?_⟩⟩
  · by_contra h
    exact hpanic (panics_index env api h)
  · rintro hshape ⟨k, hr⟩
    obtain ⟨hsite, -⟩ := (hreached hshape).2 _ k hr .index rfl
    cases hsite
  · rintro ⟨hpanic, -⟩
    constructor
    · by_contra h
      exact hpanic _ (panics_index env api h)
    · by_contra h
      exact hpanic _ (panics_slice env api h)
  · rintro ⟨hshape, hcut⟩
    refine ⟨fun site ⟨k, hr⟩ => ?_, (hreached hshape).1⟩
    exact ((hreached hshape).2 _ k hr site rfl).2 hcut

/-- The body `[]` panics both handlers. -/
theorem array_body_panics :
    Panics .index (handler (envParsing (array []) []) .openAI ⟨[], some (array []).toVec⟩) ∧
      Panics .index (handler (envParsing (array []) []) .anthropic ⟨[], some (array []).toVec⟩) := by
  have hshape : ¬ ((array []).isObject = true ∨ array [] = null) := by simp [isObject]
  exact ⟨panics_handler .openAI (fromSlice_envParsing _ _) (panics_index _ .openAI hshape),
    panics_handler .anthropic (fromSlice_envParsing _ _) (panics_index _ .anthropic hshape)⟩

/-- **The first-prompt line panics for no payload object whose first prompt can be cut, and for
every other one.** -/
theorem slice_panics_iff (env : Env) (api : ApiFormat) (payload : Value)
    (h : payload.isObject = true) :
    ¬ Panics .slice (prepare env api payload) ↔ CutFits payload := by
  constructor
  · intro hpanic
    by_contra hcut
    exact hpanic (panics_slice env api hcut)
  · rintro hcut ⟨k, hr⟩
    exact (((ensures_iff _).1 (ensures_prepare env api (Or.inl h))).2 _ k hr .slice rfl).2 hcut

/-- A request whose one message is the user's. -/
def userRequest (text : String) : Value :=
  object [("messages", array [object [("content", string text), ("role", string "user")]])]

theorem lastUserText_userRequest (text : String) : LastUserText (userRequest text) text :=
  ⟨[], _, [], rfl, rfl, nofun, rfl⟩

/-- One ASCII letter, then forty letters of two bytes each. -/
def accented : String := String.ofList ('a' :: List.replicate 40 'é')

theorem not_cutFits_accented : ¬ CutFits (userRequest accented) := by
  intro h
  have hplain : Unbracketed accented.toList ('a' :: List.replicate 40 'é') := by
    have htoList : accented.toList = 'a' :: List.replicate 40 'é' := String.toList_ofList
    rw [htoList]
    refine .plain _ ?_
    rintro ⟨a, b, hab⟩
    exact absurd (List.head_eq_of_cons_eq hab) (by decide)
  have hstraddles : Straddles ('a' :: List.replicate 40 'é') 80 :=
    ⟨'a' :: List.replicate 39 'é', 'é', [], by decide, by decide, by decide⟩
  exact h accented _ (lastUserText_userRequest accented) hplain hstraddles

/-- A prompt of 81 bytes whose last character takes bytes 79 and 80, with its MD5 digest. -/
theorem accented_prompt_panics :
    Panics .slice (handler
      (envParsing (userRequest accented)
        [8, 132, 107, 171, 83, 7, 230, 10, 247, 196, 246, 186, 154, 229, 118, 45])
      .openAI ⟨[], some (userRequest accented).toVec⟩) :=
  panics_handler .openAI (fromSlice_envParsing _ _) (panics_slice _ .openAI not_cutFits_accented)

theorem firstPrompt_hello : firstPrompt (userRequest "hello") = some "hello" := rfl

/-- The theorem on a short prompt. -/
theorem greeting_does_not_panic :
    ¬ Panics .slice (prepare (envParsing null []) .openAI (userRequest "hello")) :=
  (slice_panics_iff (envParsing null []) .openAI (userRequest "hello") rfl).2
    ((firstPrompt_isSome_iff _).1 ⟨_, firstPrompt_hello⟩)

end Mybro
