import Mybro.System
import Mybro.Lib.JsonFrame

/-!
# What the OpenAI pipeline leaves alone

Without a vision handoff the pipeline changes a payload at a few kinds of places only (`Editable`).
Each step has its frame; the paths of the image parts are collected after the first three steps,
which do not touch them, so they are places of image parts in the client's payload as well.
-/

namespace Mybro

open Value Prog

/-! ### The places -/

/-- A reasoning field of an assistant message. -/
def ReasoningPlace (payload : Value) (path : List Seg) : Prop :=
  ∃ i k msg, path = [.key "messages", .idx i, .key k] ∧
    (k = "reasoning_content" ∨ k = "reasoningContent") ∧
    getAt [.key "messages", .idx i] payload = some msg ∧ msg.getStr "role" = some "assistant"

/-- The places that are overwritten whatever is there: three fields of the payload, and what lies in
the parameters of its tools. -/
inductive Overwritten (stream : Bool) : List Seg → Prop
  | model : Overwritten stream [.key "model"]
  | thinking : Overwritten stream [.key "thinking"]
  | streamOptions (h : stream = true) : Overwritten stream [.key "stream_options"]
  | parameters (i : ℕ) (s : Seg) :
      Overwritten stream [.key "tools", .idx i, .key "function", .key "parameters", s]

/-- The places at which the pipeline may change a payload. -/
inductive Editable (payload : Value) (stream : Bool) (path : List Seg) : Prop
  | overwritten (h : Overwritten stream path)
  | reasoning (h : ReasoningPlace payload path)
  | image (h : ImagePlace payload path)

/-- What the pipeline makes of a payload: it differs only at the editable places; the reasoning
fields of assistant messages are gone; an image part is itself or the text that stands for it. -/
structure Forwarded (payload : Value) (stream : Bool) (w : Value) : Prop where
  frame : DiffersOnlyAt (Editable payload stream) payload w
  removed : ∀ path, ReasoningPlace payload path → getAt path w = none
  shared : ∀ path, ImagePlace payload path →
    getAt path w = getAt path payload ∨ getAt path w = some previouslyShared

/-! ### The frame of each step -/

section Steps

variable {P : List Seg → Prop} {payload w : Value}

theorem frame_stripReasoningContent (hP : ∃ p, P p) (h : ∀ path, ReasoningPlace payload path → P path) :
    DiffersOnlyAt P payload (stripReasoningContent payload) := by
  refine .modify hP fun ms hms => .map fun i msg hmsg => ?_
  have hget : getAt [.key "messages", .idx i] payload = some msg := by
    rw [getAt_cons, show child (.key "messages") payload = some ms from hms, Option.bind_some,
      getAt_cons, hmsg]
    rfl
  unfold stripMessage
  split_ifs with hrole
  · have hplace : ∀ k, k = "reasoning_content" ∨ k = "reasoningContent" →
        P [.key "messages", .idx i, .key k] :=
      fun k hk => h _ ⟨i, k, msg, rfl, hk, hget, hrole⟩
    cases msg with
    | object m =>
      refine .object ⟨_, hplace _ (Or.inl rfl)⟩ ?_
      intro k
      by_cases hk : k = "reasoning_content" ∨ k = "reasoningContent"
      · exact Or.inl (hplace k hk)
      · right
        rw [not_or] at hk
        simp [hk]
    | _ => exact .refl _ _
  · exact .refl _ _

/-- Normalizing a schema keeps its kind. -/
theorem node_normalizeSchema (depth : ℕ) (v : Value) :
    (normalizeSchema depth [] v).node = v.node := by
  cases depth with
  | zero => rfl
  | succ depth =>
    cases v with
    | object m =>
      rw [normalizeSchema_object]
      rfl
    | _ => rfl

theorem frame_normalizeTools
    (hplace : ∀ i s, P [.key "tools", .idx i, .key "function", .key "parameters", s]) :
    DiffersOnlyAt P payload (normalizeTools payload) := by
  refine .modify ⟨_, hplace 0 (.idx 0)⟩ fun tools htools => ?_
  unfold normalizeToolSchemas
  split_ifs
  · refine .map fun i tool htool => ?_
    refine .modify ⟨_, hplace i (.idx 0)⟩ fun f hf => ?_
    refine .modify ⟨_, hplace i (.idx 0)⟩ fun params hparams => ?_
    exact .below (hplace i) (node_normalizeSchema 12 params)
  · exact .refl _ _

theorem frame_limitImagesInMessages (maxImages : ℕ) (h : ∀ path, ImagePlace payload path → P path) :
    DiffersOnlyAt P payload (limitImagesInMessages payload maxImages) := by
  unfold limitImagesInMessages
  simp only
  split_ifs
  · exact .refl _ _
  · exact .refl _ _
  · refine .foldl_modifyAt ImagePos.path ?_ _ payload
    intro pos hpos
    exact h _ (mem_imagePositions (List.mem_mergeSort.1 (List.mem_of_mem_take hpos)))

theorem frame_applyAutoThink {catalog : Option Catalog} {resolved : String}
    (hobj : payload.isObject = true) (hP : P [.key "thinking"])
    (h : applyAutoThink catalog payload resolved = some w) : DiffersOnlyAt P payload w := by
  unfold applyAutoThink at h
  simp only at h
  split at h
  · obtain rfl := Option.some.inj h
    exact .refl _ _
  · split_ifs at h
    · exact .setIndex hobj hP h
    · obtain rfl := Option.some.inj h
      exact .refl _ _

theorem frame_normalizeThinkingPayload (hP : P [.key "thinking"]) :
    DiffersOnlyAt P payload (normalizeThinkingPayload payload) :=
  .modify ⟨_, hP⟩ fun _ _ => .of_root hP

theorem frame_includeUsage (hP : P [.key "stream_options"]) :
    DiffersOnlyAt P payload (includeUsage payload) := by
  cases payload with
  | object m =>
    refine .object ⟨_, hP⟩ ?_
    intro k
    by_cases hk : k = "stream_options"
    · subst hk
      exact Or.inl hP
    · right
      simp [hk]
  | _ => exact .refl _ _

end Steps

/-! ### The places lie apart -/

/-- What is overwritten lies neither in a message nor in the system prompt. -/
theorem Overwritten.apart {stream : Bool} {p path : List Seg} {k : String}
    (h : Overwritten stream p) (hk : k = "messages" ∨ k = "system") :
    ¬ p <+: .key k :: path ∧ ¬ .key k :: path <+: p := by
  rcases hk with rfl | rfl
  · cases h <;> simp [List.cons_prefix_cons]
  · cases h <;> simp [List.cons_prefix_cons]

theorem ImagePath.head {path : List Seg} (h : ImagePath path) :
    ∃ k rest, path = .key k :: rest ∧ (k = "messages" ∨ k = "system") := by
  rcases h with ⟨i, rfl⟩ | ⟨i, j, rfl⟩
  · exact ⟨_, _, rfl, Or.inr rfl⟩
  · exact ⟨_, _, rfl, Or.inl rfl⟩

/-- No image part lies in a reasoning field or the other way round. -/
theorem ReasoningPlace.apart {payload : Value} {p path : List Seg} (hp : ReasoningPlace payload p)
    (h : ImagePath path) : ¬ p <+: path ∧ ¬ path <+: p := by
  obtain ⟨i, k, msg, rfl, hk, -, -⟩ := hp
  rcases h with ⟨j, rfl⟩ | ⟨j, l, rfl⟩
  · simp [List.cons_prefix_cons]
  · rcases hk with rfl | rfl
    · simp [List.cons_prefix_cons]
    · simp [List.cons_prefix_cons]

/-- No image part lies in another one. -/
theorem ImagePath.eq_of_inside {p q : List Seg} (hp : ImagePath p) (hq : ImagePath q)
    (h : p <+: q) : p = q := by
  rcases hp with ⟨i, rfl⟩ | ⟨i, j, rfl⟩
  · rcases hq with ⟨i', rfl⟩ | ⟨i', j', rfl⟩
    · simpa [List.cons_prefix_cons] using h
    · simp [List.cons_prefix_cons] at h
  · rcases hq with ⟨i', rfl⟩ | ⟨i', j', rfl⟩
    · simp [List.cons_prefix_cons] at h
    · simpa [List.cons_prefix_cons] using h

/-- Changes in the overwritten places and the reasoning fields do not reach the image parts. -/
theorem getAt_of_imagePath {payload v w : Value} {stream : Bool} {path : List Seg}
    (h : DiffersOnlyAt (fun p => Overwritten stream p ∨ ReasoningPlace payload p) v w)
    (hpath : ImagePath path) : getAt path w = getAt path v := by
  have hapart : ∀ p, Overwritten stream p ∨ ReasoningPlace payload p →
      ¬ p <+: path ∧ ¬ path <+: p := by
    rintro p (hp | hp)
    · obtain ⟨k, rest, rfl, hk⟩ := hpath.head
      exact hp.apart hk
    · exact hp.apart hpath
  exact h.same path (fun p hp hP => (hapart p hP).1 hp) fun p hp hP => (hapart p hP).2 hp

/-- Changes in the overwritten places and of image parts bring no reasoning field back. -/
theorem getAt_of_reasoningPlace {payload v w : Value} {stream : Bool} {path : List Seg}
    (h : DiffersOnlyAt (fun p => Overwritten stream p ∨ ImagePath p) v w)
    (hpath : ReasoningPlace payload path) (hnone : getAt path v = none) : getAt path w = none := by
  refine h.getAt_eq_none ?_ hnone
  rintro p hp (hP | hP)
  · obtain ⟨i, k, msg, rfl, -⟩ := hpath
    exact (hP.apart (Or.inl rfl)).1 hp
  · exact (hpath.apart hP).2 hp

/-! ### The steps together -/

/-- After the first step no assistant message has a reasoning field. -/
theorem getAt_stripReasoningContent {payload : Value} {path : List Seg}
    (h : ReasoningPlace payload path) : getAt path (stripReasoningContent payload) = none := by
  obtain ⟨i, k, msg, rfl, hk, hmsg, hrole⟩ := h
  obtain ⟨ms, hms, hmsg⟩ := Option.bind_eq_some_iff.1 hmsg
  rw [getAt_cons] at hmsg
  obtain ⟨x, hchild, hx⟩ := Option.bind_eq_some_iff.1 hmsg
  obtain rfl : msg = x := (Option.some.inj hx).symm
  have hmessages : child (.key "messages") (stripReasoningContent payload) =
      some (ms.modifyArray (List.map stripMessage)) := by
    rw [stripReasoningContent, child_modify, if_pos rfl]
    exact congrArg (Option.map _) hms
  have hstripped : child (.idx i) (ms.modifyArray (List.map stripMessage)) = some (stripMessage msg) := by
    obtain ⟨xs, hxs, hx⟩ := Option.bind_eq_some_iff.1 hchild
    simp [child, hxs, hx]
  rw [getAt_cons, hmessages, Option.bind_some, getAt_cons, hstripped, Option.bind_some, stripMessage,
    if_pos hrole]
  cases msg with
  | object m =>
    rcases hk with rfl | rfl
    · simp [getAt, modifyObject, Value.get]
    · simp [getAt, modifyObject, Value.get]
  | _ => rfl

/-- At a place of an image part the limit leaves the part or puts the text in its place. -/
theorem getAt_limitImagesInMessages (payload : Value) {path : List Seg} (h : ImagePath path)
    (maxImages : ℕ) :
    getAt path (limitImagesInMessages payload maxImages) = getAt path payload ∨
      getAt path (limitImagesInMessages payload maxImages) = some previouslyShared := by
  unfold limitImagesInMessages
  simp only
  split_ifs
  · exact Or.inl rfl
  · exact Or.inl rfl
  · refine getAt_foldl_modifyAt ?_ payload
    intro pos hpos hpre
    have hplace := mem_imagePositions (List.mem_mergeSort.1 (List.mem_of_mem_take hpos))
    rcases hpre with hpre | hpre
    · exact hplace.1.eq_of_inside h hpre
    · exact (h.eq_of_inside hplace.1 hpre).symm

section Together

variable {payload p₁ p₃ p₄ : Value} {stream : Bool} {resolved : String} {P : List Seg → Prop}

/-- The model and the tools. -/
theorem frame_front (hobj : payload.isObject = true) (hP : ∀ p, Overwritten stream p → P p)
    (h₁ : payload.setIndex "model" (string resolved) = some p₁) :
    DiffersOnlyAt P payload (normalizeTools p₁) :=
  (DiffersOnlyAt.setIndex hobj (hP _ .model) h₁).trans
    (frame_normalizeTools fun i s => hP _ (.parameters i s))

/-- The thinking field and the stream options. -/
theorem frame_back {catalog : Option Catalog} (hobj : p₃.isObject = true)
    (hP : ∀ p, Overwritten stream p → P p) (h₄ : applyAutoThink catalog p₃ resolved = some p₄) :
    DiffersOnlyAt P p₃ (if stream then includeUsage (normalizeThinkingPayload p₄)
      else normalizeThinkingPayload p₄) := by
  have hthink : DiffersOnlyAt P p₃ (normalizeThinkingPayload p₄) :=
    (frame_applyAutoThink hobj (hP _ .thinking) h₄).trans
      (frame_normalizeThinkingPayload (hP _ .thinking))
  split_ifs with hs
  · exact hthink.trans (frame_includeUsage (hP _ (.streamOptions hs)))
  · exact hthink

/-- **The steps of the pipeline without a vision handoff, one after another.** -/
theorem forwarded_of_steps {catalog : Option Catalog} {n : ℕ} (hobj : payload.isObject = true)
    (h₁ : (stripReasoningContent payload).setIndex "model" (string resolved) = some p₁)
    (h₃ : p₃ = normalizeTools p₁ ∨ p₃ = limitImagesInMessages (normalizeTools p₁) n)
    (h₄ : applyAutoThink catalog p₃ resolved = some p₄) :
    Forwarded payload stream (if stream then includeUsage (normalizeThinkingPayload p₄)
      else normalizeThinkingPayload p₄) := by
  have hstrip : (stripReasoningContent payload).isObject = true := by
    rw [stripReasoningContent, isObject_modify, hobj]
  have hfront : DiffersOnlyAt (fun p => Overwritten stream p ∨ ReasoningPlace payload p) payload
      (normalizeTools p₁) :=
    (frame_stripReasoningContent ⟨_, Or.inl .model⟩ fun _ => Or.inr).trans
      (frame_front hstrip (fun _ => Or.inl) h₁)
  -- the image parts are looked for after the first three steps
  have hplace : ∀ path, ImagePlace (normalizeTools p₁) path → ImagePlace payload path := by
    rintro path ⟨hpath, part, hpart, himage⟩
    exact ⟨hpath, part, by rw [← getAt_of_imagePath hfront hpath, hpart], himage⟩
  have himages : DiffersOnlyAt (ImagePlace payload) (normalizeTools p₁) p₃ := by
    rcases h₃ with rfl | rfl
    · exact .refl _ _
    · exact frame_limitImagesInMessages n hplace
  have hkind : p₃.isObject = true := by
    rw [himages.isObject_eq fun h => h.1.ne_nil rfl, normalizeTools, isObject_modify]
    exact isObject_of_setIndex h₁
  constructor
  · have hall : DiffersOnlyAt (Editable payload stream) payload p₃ := by
      refine DiffersOnlyAt.trans (hfront.mono ?_) (himages.mono fun _ => .image)
      rintro p (hp | hp)
      · exact .overwritten hp
      · exact .reasoning hp
    exact hall.trans (frame_back hkind (fun _ => .overwritten) h₄)
  · intro path hpath
    have hrest : DiffersOnlyAt (fun p => Overwritten stream p ∨ ImagePath p)
        (stripReasoningContent payload) p₃ :=
      (frame_front hstrip (fun _ => Or.inl) h₁).trans (himages.mono fun _ h => Or.inr h.1)
    exact getAt_of_reasoningPlace (hrest.trans (frame_back hkind (fun _ => Or.inl) h₄)) hpath
      (getAt_stripReasoningContent hpath)
  · intro path hpath
    have hback : DiffersOnlyAt (fun p => Overwritten stream p ∨ ReasoningPlace payload p) p₃ _ :=
      frame_back hkind (fun _ => Or.inl) h₄
    rw [getAt_of_imagePath hback hpath.1]
    rcases h₃ with rfl | rfl
    · exact Or.inl (getAt_of_imagePath hfront hpath.1)
    · rcases getAt_limitImagesInMessages (normalizeTools p₁) hpath.1 n with h | h
      · exact Or.inl (h.trans (getAt_of_imagePath hfront hpath.1))
      · exact Or.inr h

end Together

/-! ### What stays -/

section Stays

variable {payload w : Value} {stream : Bool}

/-- What lies apart from the editable places is the same. -/
theorem Forwarded.same (h : Forwarded payload stream w) {path : List Seg}
    (hpath : ∀ p, Editable payload stream p → ¬ p <+: path ∧ ¬ path <+: p) :
    getAt path w = getAt path payload :=
  h.frame.same path (fun p hp hP => (hpath p hP).1 hp) fun p hp hP => (hpath p hP).2 hp

/-- The roles of all messages stay, with the number and order of the messages. -/
theorem Forwarded.role (h : Forwarded payload stream w) (i : ℕ) :
    getAt [.key "messages", .idx i, .key "role"] w =
      getAt [.key "messages", .idx i, .key "role"] payload := by
  refine h.same ?_
  rintro p (hp | ⟨j, k, msg, rfl, hk, -⟩ | ⟨⟨j, rfl⟩ | ⟨j, l, rfl⟩, -⟩)
  · exact hp.apart (Or.inl rfl)
  · rcases hk with rfl | rfl
    · simp [List.cons_prefix_cons]
    · simp [List.cons_prefix_cons]
  · simp [List.cons_prefix_cons]
  · simp [List.cons_prefix_cons]

/-- A message whose content is not an array keeps it. -/
theorem Forwarded.content (h : Forwarded payload stream w) {i : ℕ} {v : Value}
    (hv : getAt [.key "messages", .idx i, .key "content"] payload = some v)
    (harr : v.asArray = none) : getAt [.key "messages", .idx i, .key "content"] w = some v := by
  rw [← hv]
  refine h.same ?_
  rintro p (hp | ⟨j, k, msg, rfl, hk, -⟩ | ⟨⟨j, rfl⟩ | ⟨j, l, rfl⟩, part, hpart, -⟩)
  · exact hp.apart (Or.inl rfl)
  · rcases hk with rfl | rfl
    · simp [List.cons_prefix_cons]
    · simp [List.cons_prefix_cons]
  · simp [List.cons_prefix_cons]
  · -- an image part would lie in an array
    have hne : i ≠ j := by
      rintro rfl
      simp only [getAt, Option.bind_eq_some_iff] at hv hpart
      obtain ⟨ms, hms, msg, hmsg, c, hc, hcv⟩ := hv
      obtain ⟨ms', hms', msg', hmsg', c', hc', x, hx, -⟩ := hpart
      grind
    simp [List.cons_prefix_cons, hne, Ne.symm hne]

end Stays

/-! ### The steps in a run -/

/-- In no combination of the configurations and catalogs that have been read does the model of the
payload need a vision handoff. -/
def NoHandoff (payload : Value) (tr : Trace Answer) : Prop :=
  ∀ cfg cat cat', ⟨.config, cfg⟩ ∈ tr → ⟨.catalog, cat⟩ ∈ tr → ⟨.catalog, cat'⟩ ∈ tr →
    needsVisionHandoff cat' (resolveModelId cat ((payload.getStr "model").getD "") cfg) cfg = false

theorem NoHandoff.mono {payload : Value} {tr tr' : Trace Answer} (h : NoHandoff payload tr')
    (hsub : ∀ x ∈ tr, x ∈ tr') : NoHandoff payload tr :=
  fun cfg cat cat' hcfg hcat hcat' => h cfg cat cat' (hsub _ hcfg) (hsub _ hcat) (hsub _ hcat')

/-- Stripping the reasoning fields leaves the model alone. -/
theorem getStr_stripReasoningContent (payload : Value) :
    (stripReasoningContent payload).getStr "model" = payload.getStr "model" := by
  simp [getStr, stripReasoningContent]

section Runs

variable {payload : Value} {tr : Trace Answer}

theorem run_orPanic {α β : Type} {site : Panic} {o : Option α} {f : α → Handler β} {b : β}
    (h : Run (orPanic site o >>= f) tr (.ret b)) : ∃ a, o = some a ∧ Run (f a) tr (.ret b) := by
  cases o with
  | some a => exact ⟨a, rfl, h⟩
  | none =>
    cases h with
    | cons r _ => exact r.elim

theorem visionStep_run {resolved key : String} {cfg : Config} {w : Value}
    (hrun : Run (visionStep payload resolved cfg key) tr (.ret w))
    (hno : ∀ cat, ⟨.catalog, cat⟩ ∈ tr → needsVisionHandoff cat resolved cfg = false) :
    w = payload := by
  obtain ⟨cat, tr', rfl, hrest⟩ := run_perform_ret hrun
  simp only [hno cat List.mem_cons_self, Bool.false_eq_true, if_false] at hrest
  cases hrest with
  | nil => rfl

/-- What the payload stage of the pipeline returns. -/
theorem chatPayload_run {slot : KeySlot} {stream : Bool} {w : Value} {cfg : Config}
    {resolved : String} (hobj : payload.isObject = true)
    (hrun : Run (chatPayload payload slot stream) tr (.ret (w, cfg, resolved)))
    (hno : NoHandoff payload tr) : Forwarded payload stream w := by
  obtain ⟨cfg', tr₁, rfl, hcfg⟩ := run_perform_ret hrun
  obtain ⟨⟨p₁, r⟩, tr₂, tr₃, rfl, hmodel, hrest⟩ := run_bind_ret hcfg
  obtain ⟨cat, tr₄, rfl, hwrite⟩ := run_perform_ret hmodel
  obtain ⟨p, h₁, hpair⟩ := run_orPanic hwrite
  obtain ⟨cat₁, tr₅, rfl, hlimit⟩ := run_perform_ret hrest
  obtain ⟨cat₂, tr₆, rfl, hthink⟩ := run_perform_ret hlimit
  obtain ⟨p₄, h₄, hvision⟩ := run_orPanic hthink
  obtain ⟨p₅, tr₇, tr₈, rfl, hstep, hend⟩ := run_bind_ret hvision
  rw [getStr_stripReasoningContent] at h₁ hpair
  cases hpair with
  | nil =>
    cases hend with
    | nil =>
      have hsame : p₅ = normalizeThinkingPayload p₄ := by
        refine visionStep_run hstep fun cat' hcat' => ?_
        exact hno cfg cat cat' (by simp) (by simp) (by simp [hcat'])
      rw [hsame]
      split_ifs at h₄
      · exact forwarded_of_steps (n := 0) hobj h₁ (Or.inl rfl) h₄
      · exact forwarded_of_steps hobj h₁ (Or.inr rfl) h₄

end Runs

/-! ### What is sent -/

/-- Every call to upstream carries the body. -/
def Carries (body : List UInt8) (e : Eff) : Prop := ∀ call, e = .send call → call.body = body

section Sent

variable {α : Type} {body : List UInt8}

theorem carries_of_silent {p : Handler α} (h : Ensures Silent (fun _ => True) p) :
    Ensures (Carries body) (fun _ => True) p := by
  refine h.mono ?_ fun _ _ => trivial
  rintro _ he call rfl
  exact he.elim

theorem carries_recordStat (start : ℕ) (ttftMs : Option UInt64) (status : ℕ)
    (model pipeline keyName : String) (usage : Usage) (error : Option String) :
    Ensures (Carries body) (fun _ => True)
      (recordStat start ttftMs status model pipeline keyName usage error) :=
  ⟨nofun, fun _ => ⟨nofun, fun _ => ⟨nofun, fun _ => trivial⟩⟩⟩

theorem carries_readBodyOrEmpty : Ensures (Carries body) (fun _ => True) readBodyOrEmpty :=
  ⟨nofun, fun _ => trivial⟩

theorem carries_readErrorBody : Ensures (Carries body) (fun _ => True) readErrorBody :=
  ⟨nofun, fun _ => trivial⟩

theorem carries_doIf {c : Prop} [Decidable c] {p : Handler Unit}
    (h : Ensures (Carries body) (fun _ => True) p) :
    Ensures (Carries body) (fun _ => True) (doIf c p) := by
  unfold doIf
  split_ifs
  · exact h
  · trivial

variable {c : ChatCall}

theorem carries_chatSuccess (slot : KeySlot) (upstreamStart : ℕ) (reply : Reply) :
    Ensures (Carries body) (fun _ => True) (chatSuccess c slot upstreamStart reply) := by
  refine ⟨nofun, fun _ => ?_⟩
  show Ensures _ _ (if reply.headers.isSse = true then _ else _)
  by_cases hsse : reply.headers.isSse = true
  · rw [if_pos hsse]
    exact ⟨nofun, fun _ => trivial⟩
  · rw [if_neg hsse]
    refine ensures_bind carries_readBodyOrEmpty fun _ _ => ⟨nofun, fun _ => ?_⟩
    show Ensures _ _ (recordStat _ _ _ _ _ _ _ _ >>= _)
    exact ensures_bind (carries_recordStat _ _ _ _ _ _ _ _) fun _ _ => trivial

theorem carries_chatOther (slot : KeySlot) (reply : Reply) :
    Ensures (Carries body) (fun _ => True) (chatOther c slot reply) := by
  refine ensures_bind (carries_doIf ⟨nofun, fun _ => trivial⟩) fun _ _ => ?_
  refine ensures_bind carries_readBodyOrEmpty fun _ _ => ?_
  exact ensures_bind (carries_recordStat _ _ _ _ _ _ _ _) fun _ _ => trivial

theorem carries_chatFailed (attempt : ℕ) (slot : KeySlot) (status : ℕ) (errorBody : String)
    {last again : Handler Response} (hlast : Ensures (Carries body) (fun _ => True) last)
    (hagain : Ensures (Carries body) (fun _ => True) again) :
    Ensures (Carries body) (fun _ => True)
      (chatFailed c attempt slot status errorBody last again) := by
  refine ⟨nofun, fun _ => ⟨nofun, fun _ => ⟨nofun, fun _ => ?_⟩⟩⟩
  show Ensures _ _ (if _ then _ else _)
  split_ifs
  · exact hlast
  · exact ⟨nofun, fun _ => hagain⟩

theorem carries_chatResult (attempt : ℕ) (slot : KeySlot) (upstreamStart : ℕ)
    {again : Handler Response} (hagain : Ensures (Carries body) (fun _ => True) again)
    (result : Except String Reply) :
    Ensures (Carries body) (fun _ => True) (chatResult c attempt slot upstreamStart again result) := by
  refine chatResult_rule (fun reply _ _ => ?_) (fun reply _ _ _ => ?_) (fun reply _ _ _ => ?_)
    fun err _ => ?_
  · exact carries_chatSuccess slot upstreamStart reply
  · refine ensures_bind carries_readErrorBody fun _ _ => carries_chatFailed _ _ _ _ ?_ hagain
    refine ensures_bind (carries_doIf ⟨nofun, fun _ => trivial⟩) fun _ _ => ?_
    exact ensures_bind (carries_recordStat _ _ _ _ _ _ _ _) fun _ _ => trivial
  · exact carries_chatOther slot reply
  · refine carries_chatFailed _ _ _ _ ?_ hagain
    exact ensures_bind (carries_recordStat _ _ _ _ _ _ _ _) fun _ _ => trivial

/-- Every attempt sends the body of the call, by induction on the attempts that are left. -/
theorem carries_chatLoop (attempts : List ℕ) (slot : KeySlot) :
    Ensures (Carries c.body) (fun _ => True) (chatLoop c (chatAfterLoop c) attempts slot) := by
  induction attempts generalizing slot with
  | nil => exact ensures_bind (carries_recordStat _ _ _ _ _ _ _ _) fun _ _ => trivial
  | cons attempt rest ih =>
    have hrotate := silent_of_selects (selects_rotate attempt slot)
    refine ensures_bind (carries_of_silent hrotate) fun next _ => ?_
    refine ⟨nofun, fun upstreamStart => ⟨?_, fun result => ?_⟩⟩
    · intro call hcall
      cases hcall
      rfl
    · exact carries_chatResult attempt next upstreamStart (ih next) result

theorem carries_chatUpstream (env : Env) (headers : HeaderMap) (stream : Bool) (p : Prepared) :
    Ensures (Carries p.payload.toVec) (fun _ => True) (chatUpstream env headers stream p) :=
  ⟨nofun, fun reqStart => carries_chatLoop (c := ⟨env, p.resolvedModel, p.sessNum, stream,
    p.payload.toVec, websearch headers p.cfg, reqStart⟩) attempts p.slot⟩

end Sent

/-- Nothing is sent before the payload is prepared. -/
theorem noSend_chatPrepare (env : Env) (payload : Value) :
    Ensures (fun e => ∀ call, e ≠ .send call) (fun _ => True) (chatPrepare env payload) := by
  have hsilent : ∀ {α : Type} {p : Handler α}, Ensures Silent (fun _ => True) p →
      Ensures (fun e => ∀ call, e ≠ .send call) (fun _ => True) p := by
    intro α p hp
    refine hp.mono ?_ fun _ _ => trivial
    rintro _ he call rfl
    exact he.elim
  refine ⟨nofun, fun admitted => ?_⟩
  show Ensures _ _ (if admitted = true then _ else _)
  split_ifs
  · have hselect := silent_of_selects (selects_selectKey env payload)
    refine ensures_bind (hsilent hselect) fun selected _ => ?_
    cases selected with
    | none => trivial
    | some s =>
      have hpayload := prepares_chatPayload payload s.1 (isStream payload)
      exact ensures_bind (hsilent (silent_of_prepares hpayload)) fun _ _ => trivial
  · trivial

/-- What the handler prepares for a payload object. -/
theorem chatPrepare_run {env : Env} {payload : Value} {tr : Trace Answer} {p : Prepared}
    (hobj : payload.isObject = true) (hrun : Run (chatPrepare env payload) tr (.ret (.ok p)))
    (hno : NoHandoff payload tr) : Forwarded payload (isStream payload) p.payload := by
  cases hrun with
  | cons admitted hadmitted =>
    replace hadmitted : Run (if admitted = true then _ else _) _ _ := hadmitted
    split_ifs at hadmitted
    · obtain ⟨selected, tr₁, tr₂, rfl, hselect, hrest⟩ := run_bind_ret hadmitted
      cases selected with
      | none => cases hrest
      | some s =>
        obtain ⟨⟨w, cfg, resolved⟩, tr₃, tr₄, rfl, hpayload, hend⟩ := run_bind_ret hrest
        cases hend with
        | nil =>
          refine chatPayload_run hobj hpayload (hno.mono ?_)
          simp +contextual
    · cases hadmitted

/-- **The payload that is sent upstream** differs from the client's only at the editable places, in
every run in which no vision handoff applies. -/
theorem forwarded_of_sent {env : Env} {req : Request} {bytes : List UInt8} {payload : Value}
    {tr : Trace Answer} {call : UpstreamCall} {k : Except String Reply → Handler Response}
    (hread : req.body = some bytes) (hparse : env.fromSlice bytes = .ok payload)
    (hobj : payload.isObject = true)
    (hrun : Run (chatCompletions env req) tr (.vis (.send call) k)) (hno : NoHandoff payload tr) :
    ∃ w, Forwarded payload (isStream payload) w ∧ call.body = w.toVec := by
  cases hrun with
  | cons cfg hauth =>
    replace hauth : Run (if checkAuth cfg req.headers = true then _ else _) _ _ := hauth
    split_ifs at hauth
    · simp only [hread, hparse] at hauth
      obtain ⟨prepared, tr₁, tr₂, rfl, hprep, hsend⟩ :=
        (noSend_chatPrepare env payload).run_bind (fun h => h call rfl) hauth
      cases prepared with
      | error resp => cases hsend
      | ok p =>
        refine ⟨p.payload, chatPrepare_run hobj hprep (hno.mono ?_), ?_⟩
        · simp +contextual
        · exact ((carries_chatUpstream env req.headers (isStream payload) p).run hsend).1 call rfl
    · cases hauth

/-- A conversation with one message of the assistant. -/
def assistantPayload : Value :=
  object [("messages", array [object [("content", string "yes"), ("reasoning_content", string "hm"),
    ("role", string "assistant")]])]

/-- The theorem on a conversation whose only message is the assistant's. -/
theorem forwarded_of_sent_assistant :
    ∃ (call : UpstreamCall) (w : Value), Forwarded assistantPayload false w ∧ call.body = w.toVec := by
  have hrun := run_play System.unsentAnswers (chatCompletions (envParsing assistantPayload [])
    ⟨[], some assistantPayload.toVec⟩)
  obtain ⟨call, k, hcall⟩ : ∃ call k, (play System.unsentAnswers (chatCompletions
    (envParsing assistantPayload []) ⟨[], some assistantPayload.toVec⟩)).2 = .vis (.send call) k :=
    ⟨_, _, rfl⟩
  rw [hcall] at hrun
  refine ⟨call, forwarded_of_sent rfl (fromSlice_envParsing _ _) rfl hrun ?_⟩
  intro cfg cat cat' _ _ hcat'
  have hnone : System.unsentAnswers .catalog = some cat' := mem_play hcat'
  cases hnone
  simp [needsVisionHandoff]

end Mybro
