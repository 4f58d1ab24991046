import Mybro.Admin
import Mybro.Lib.JsonText
import Mybro.Lib.Lru
import Mybro.Lib.Tasks

/-!
# The handoff cache (`handoff_cache.rs`, `vision.rs`)

`analyze_image` asks the handoff model for a description of an image and keeps it in a cache under
the digest of the image's URI. The model and the prompt are not part of the key: they go into the
request only, and `post_config`, which changes them, leaves the entries where they are.

Analyses run as tasks over the cache and the configuration, in every order of their steps, while the
configuration is edited and time passes. The ghost field `source` says for which configuration and
image the entry of a digest was stored.
-/

namespace Mybro

open Prog Runs Tasks Value

/-! ### `HandoffCache` -/

/-- `CacheEntry`. -/
structure CacheEntry where
  desc : String
  inserted : ℕ

/-- `HandoffCache`; its lifetime is in milliseconds, a machine word. -/
structure HandoffCache where
  inner : Lru (List UInt8) CacheEntry
  cap : ℕ
  ttl : ℕ
  hits : UInt64
  misses : UInt64
  evictions : UInt64

namespace HandoffCache

/-- A duration as it is kept. -/
def millis (ttl : ℕ) : ℕ := ttl / 1000000 % 2 ^ 64

/-- A capacity as it is kept: never 0. -/
def capacity (maxSize : ℕ) : ℕ := if maxSize = 0 then 50 else maxSize

/-- `HandoffCache::new`. -/
def new (maxSize ttl : ℕ) : HandoffCache := ⟨.empty, capacity maxSize, millis ttl, 0, 0, 0⟩

/-- Whether an entry has not expired. -/
def isLive (c : HandoffCache) (now : ℕ) (e : CacheEntry) : Bool :=
  now - e.inserted < c.ttl * 1000000

/-- `HandoffCache::get`. -/
def get (c : HandoffCache) (now : ℕ) (digest : List UInt8) : Option String × HandoffCache :=
  match c.inner.find digest with
  | some e =>
    if c.isLive now e then
      (some e.desc, { c with inner := c.inner.use digest, hits := c.hits + 1 })
    else (none, { c with inner := (c.inner.use digest).pop digest, misses := c.misses + 1 })
  | none => (none, { c with misses := c.misses + 1 })

/-- The eviction in `set`: the entry used longest ago goes when the cache is full. -/
def evict (c : HandoffCache) : HandoffCache :=
  if c.cap ≤ c.inner.size then
    { c with
      inner := c.inner.keep (c.inner.size - 1)
      evictions := if c.inner.size = 0 then c.evictions else c.evictions + 1 }
  else c

/-- `HandoffCache::set`. -/
def set (c : HandoffCache) (now : ℕ) (digest : List UInt8) (desc : String) : HandoffCache :=
  { c.evict with inner := c.evict.inner.put digest ⟨desc, now⟩ }

/-- `HandoffCache::resize`: the entries that fit stay. -/
def resize (c : HandoffCache) (maxSize ttl : ℕ) : HandoffCache :=
  { c with inner := c.inner.keep (capacity maxSize), cap := capacity maxSize, ttl := millis ttl }

/-- The cache can answer with `e`. -/
def Holds (c : HandoffCache) (now : ℕ) (digest : List UInt8) (e : CacheEntry) : Prop :=
  c.inner.find digest = some e ∧ c.isLive now e = true

theorem get_of_holds {c : HandoffCache} {now : ℕ} {digest : List UInt8} {e : CacheEntry}
    (h : c.Holds now digest e) : (c.get now digest).1 = some e.desc := by
  unfold get
  rw [h.1]
  simp only [h.2, if_true]

/-- `get` answers with an entry that has not expired. -/
theorem holds_of_get {c : HandoffCache} {now : ℕ} {digest : List UInt8} {desc : String}
    (h : (c.get now digest).1 = some desc) : ∃ e, c.Holds now digest e ∧ e.desc = desc := by
  unfold get at h
  cases hfind : c.inner.find digest with
  | none =>
    rw [hfind] at h
    cases h
  | some e =>
    rw [hfind] at h
    by_cases hlive : c.isLive now e = true
    · simp only [hlive, if_true] at h
      exact ⟨e, ⟨hfind, hlive⟩, Option.some.inj h⟩
    · simp only [hlive] at h
      cases h

/-- `get` adds no entry and changes none. -/
theorem find_of_find_get {c : HandoffCache} {now : ℕ} {digest j : List UInt8} {e : CacheEntry}
    (h : (c.get now digest).2.inner.find j = some e) : c.inner.find j = some e := by
  unfold get at h
  cases hfind : c.inner.find digest with
  | none =>
    rw [hfind] at h
    exact h
  | some e' =>
    rw [hfind] at h
    by_cases hlive : c.isLive now e' = true
    · simp only [hlive, if_true, Lru.find_use] at h
      exact h
    · simp only [hlive] at h
      rw [← Lru.find_use]
      exact Lru.find_of_find_pop h

theorem find_of_find_evict {c : HandoffCache} {j : List UInt8} {e : CacheEntry}
    (h : c.evict.inner.find j = some e) : c.inner.find j = some e := by
  unfold evict at h
  by_cases hfull : c.cap ≤ c.inner.size
  · rw [if_pos hfull] at h
    exact Lru.find_of_find_keep h
  · rw [if_neg hfull] at h
    exact h

/-- After `set`, the digest has its new entry, and what the others have they had before. -/
theorem find_set {c : HandoffCache} {now : ℕ} {digest j : List UInt8} {desc : String}
    {e : CacheEntry} (h : (c.set now digest desc).inner.find j = some e) :
    (j = digest ∧ e = ⟨desc, now⟩) ∨ (j ≠ digest ∧ c.inner.find j = some e) := by
  rw [show (c.set now digest desc).inner = c.evict.inner.put digest ⟨desc, now⟩ from rfl,
    Lru.find_put] at h
  split_ifs at h with hj
  · exact Or.inl ⟨hj.symm, (Option.some.inj h).symm⟩
  · exact Or.inr ⟨Ne.symm hj, find_of_find_evict h⟩

end HandoffCache

/-! ### `analyze_image` -/

/-- What `do_request` gives: the status, and the body or the error of reading it. -/
structure VisionReply where
  status : ℕ
  body : Except String (List UInt8)

/-- The effects of an analysis: the configuration the handler has loaded, the cache, and the call of
`Upstream::chat_completions`, which is neither streamed nor searches the web. -/
inductive VisionEff
  | loadConfig
  | cacheGet (digest : List UInt8)
  | cacheSet (digest : List UInt8) (desc : String)
  | chatCompletions (key : String) (body : List UInt8)

/-- What they are answered by. -/
@[reducible] def VisionAnswer : VisionEff → Type
  | .loadConfig => Config
  | .cacheGet _ => Option String
  | .cacheSet _ _ => Unit
  | .chatCompletions _ _ => Except String VisionReply

/-- A program with these effects. -/
abbrev VisionProg (α : Type) := Prog VisionEff VisionAnswer α

/-- Perform one effect. -/
abbrev visionAct (e : VisionEff) : VisionProg (VisionAnswer e) := Prog.perform e

/-- The text of a content that is an array of parts. -/
def joinTexts (parts : List Value) : String :=
  String.join (parts.filterMap fun p => p.getStr "text")

/-- `extract_chat_content`. -/
def extractChatContent (resp : Value) : String :=
  match ((((resp.get "choices").bind asArray).bind fun xs : List Value => xs[0]?).bind
      fun c : Value => c.get "message").bind fun m : Value => m.get "content" with
  | some (.string s) => s
  | some (.array parts) => joinTexts parts
  | _ => ""

/-- The prompt of an analysis. -/
def handoffPrompt (cfg : Config) : String :=
  if cfg.visionHandoffPrompt = "" then defaultHandoffPrompt else cfg.visionHandoffPrompt

/-- The request of an analysis. -/
def visionBody (model prompt dataUri : String) : Value :=
  object (JsonMap.ofList
    [("model", string model), ("stream", bool false),
      ("messages", array
        [object (JsonMap.ofList [("role", string "system"), ("content", string prompt)]),
          object (JsonMap.ofList
            [("role", string "user"),
              ("content", array
                [object (JsonMap.ofList
                    [("type", string "text"), ("text", string "Describe this image.")]),
                  object (JsonMap.ofList
                    [("type", string "image_url"),
                      ("image_url", object (JsonMap.ofList [("url", string dataUri)]))])])])])])

/-- A status code as it is displayed. -/
def displayStatus (env : Env) (status : ℕ) : String :=
  toString status ++ " " ++ (env.canonicalReason status).getD "<unknown status code>"

/-- The description in a reply, or the text that stands for it when the analysis fails. -/
def readDescription (env : Env) : Except String VisionReply → Except String String
  | .ok resp =>
    if isSuccess resp.status then
      match resp.body with
      | .ok bytes =>
        match env.fromSlice bytes with
        | .ok v => .ok (extractChatContent v)
        | .error e => .error ("[Image analysis failed: parse error: " ++ e ++ "]")
      | .error e => .error ("[Image analysis failed: " ++ e ++ "]")
    else .error ("[Image analysis failed: HTTP " ++ displayStatus env resp.status ++ "]")
  | .error e => .error ("[Image analysis failed: " ++ e ++ "]")

section

variable (env : Env) (sha256 : String → List UInt8)

/-- `analyze_image` after its check of the cache. -/
def askVision (dataUri key : String) (cfg : Config) (cached : Bool) : VisionProg String := do
  let result ← visionAct (.chatCompletions key
    (visionBody cfg.visionHandoffModel (handoffPrompt cfg) dataUri).toVec)
  match readDescription env result with
  | .ok desc =>
    if cached then do
      visionAct (.cacheSet (sha256 dataUri) desc)
      pure desc
    else pure desc
  | .error text => pure text

/-- `analyze_image` with the answer of the cache. -/
def orAsk (dataUri key : String) (cfg : Config) : Option String → VisionProg String
  | some desc => pure desc
  | none => askVision env sha256 dataUri key cfg true

/-- `analyze_image`; `cached` says whether there is a cache. -/
def analyzeImage (dataUri key : String) (cfg : Config) (cached : Bool) : VisionProg String :=
  if cached then do
    let desc ← visionAct (.cacheGet (sha256 dataUri))
    orAsk env sha256 dataUri key cfg desc
  else askVision env sha256 dataUri key cfg false

/-- The analysis of an image by a handler, with the configuration it has loaded. -/
def analysis (dataUri key : String) : VisionProg String := do
  let cfg ← visionAct .loadConfig
  analyzeImage env sha256 dataUri key cfg cfg.visionHandoffCacheEnabled

end

/-! #### The request -/

theorem proper_pair {v w : Value} (hv : v.proper = true) (hw : w.proper = true) :
    (array [v, w]).proper = true := by
  rw [proper]
  simp [elementsProper, hv, hw]

theorem proper_visionBody (model prompt dataUri : String) :
    (visionBody model prompt dataUri).proper = true := by
  unfold visionBody
  refine proper_object ?_
  simp only [List.forall_mem_cons]
  refine ⟨rfl, rfl, proper_pair (proper_object ?_) (proper_object ?_), nofun⟩
  · simp only [List.forall_mem_cons]
    exact ⟨rfl, rfl, nofun⟩
  · simp only [List.forall_mem_cons]
    refine ⟨rfl, proper_pair (proper_object ?_) (proper_object ?_), nofun⟩
    · simp only [List.forall_mem_cons]
      exact ⟨rfl, rfl, nofun⟩
    · simp only [List.forall_mem_cons]
      refine ⟨rfl, proper_object ?_, nofun⟩
      simp only [List.forall_mem_cons]
      exact ⟨rfl, nofun⟩

/-- **The request tells the model, the prompt and the image**: a function of the request is one of
these three. -/
theorem toVec_visionBody_inj {model prompt dataUri model' prompt' dataUri' : String} :
    (visionBody model prompt dataUri).toVec = (visionBody model' prompt' dataUri').toVec ↔
      model = model' ∧ prompt = prompt' ∧ dataUri = dataUri' := by
  rw [toVec_inj (proper_visionBody _ _ _) (proper_visionBody _ _ _)]
  refine ⟨fun h => ⟨?_, ?_, ?_⟩, fun ⟨hmodel, hprompt, huri⟩ => by rw [hmodel, hprompt, huri]⟩
  · have hmodel := congrArg (fun v => v.getStr "model") h
    simpa [visionBody, getStr, Value.get, JsonMap.get_ofList, List.lookup_cons, asStr] using hmodel
  · have hprompt := congrArg (fun v =>
      (getAt [.key "messages", .idx 0] v).bind fun m => m.getStr "content") h
    simpa [visionBody, getAt, getStr, Value.get, JsonMap.get_ofList, List.lookup_cons, asStr,
      asArray] using hprompt
  · have huri := congrArg (fun v =>
      (getAt [.key "messages", .idx 1, .key "content", .idx 1, .key "image_url"] v).bind fun m =>
        m.getStr "url") h
    simpa [visionBody, getAt, getStr, Value.get, JsonMap.get_ofList, List.lookup_cons, asStr,
      asArray] using huri

/-! ### Analyses as tasks -/

/-- A handoff model that always succeeds, and whose reply is a function of the request. -/
structure VisionModel (env : Env) where
  reply : List UInt8 → List UInt8
  value : List UInt8 → Value
  parses : ∀ body, env.fromSlice (reply body) = .ok (value body)

/-- What the handoff model says about an image. -/
def VisionModel.describe {env : Env} (V : VisionModel env) (model prompt dataUri : String) :
    String :=
  extractChatContent (V.value (visionBody model prompt dataUri).toVec)

/-- What it says for a configuration. -/
def VisionModel.describeFor {env : Env} (V : VisionModel env) (cfg : Config) (dataUri : String) :
    String :=
  V.describe cfg.visionHandoffModel (handoffPrompt cfg) dataUri

/-- The configuration, the cache and the time; and for each digest the configuration and the image
for which its entry was last stored. -/
structure HandoffWorld where
  config : Config
  cache : HandoffCache
  now : ℕ
  source : List UInt8 → Config × String

/-- What happens around the analyses: time passes; `post_config` changes the configuration; it sizes
the cache by the configuration in force. -/
inductive HandoffEdit
  | pass (d : ℕ)
  | edit (u : ConfigUpdate)
  | resize

/-- An analysis under way: its image, and the configuration it has loaded. -/
structure Analysis where
  dataUri : String
  config : Option Config := none

/-- An effect and its answer. -/
def Analysis.add (m : Analysis) : (e : VisionEff) → VisionAnswer e → Analysis
  | .loadConfig, cfg => { m with config := some cfg }
  | _, _ => m

namespace HandoffWorld

variable {env : Env} (V : VisionModel env) (sha256 : String → List UInt8)

/-- The meaning of an effect of the analysis `m`. -/
def handle (m : Analysis) :
    (e : VisionEff) → HandoffWorld → Option (VisionAnswer e × HandoffWorld)
  | .loadConfig, w => some (w.config, w)
  | .cacheGet digest, w =>
    some ((w.cache.get w.now digest).1, { w with cache := (w.cache.get w.now digest).2 })
  | .cacheSet digest desc, w =>
    some ((), { w with
      cache := w.cache.set w.now digest desc
      source := Function.update w.source digest (m.config.getD {}, m.dataUri) })
  | .chatCompletions _ body, w => some (.ok ⟨200, .ok (V.reply body)⟩, w)

/-- What happens around the analyses. -/
def around (w : HandoffWorld) : HandoffEdit → HandoffWorld
  | .pass d => { w with now := w.now + d }
  | .edit u => { w with config := u.apply w.config }
  | .resize =>
    { w with cache := w.cache.resize handoffCacheSize w.config.handoffCacheTtlDuration }

/-- The analyses over the shared state, each with its image and key. -/
def analyses : System (String × String) Unit HandoffEdit HandoffWorld Analysis VisionEff
    VisionAnswer String where
  start q := (⟨q.1, none⟩, analysis env sha256 q.1 q.2)
  add := Analysis.add
  handle _ m := handle V m
  release _ w := w
  outer x w := some (w.around x)

/-- The shared state with the analyses. -/
abbrev Analyses := Pool HandoffWorld Analysis VisionEff VisionAnswer String

/-- What can happen next. -/
abbrev AnalysisEvent := Event (String × String) Unit HandoffEdit

/-- The state when the proxy starts. -/
def start (cfg : Config) (now : ℕ) : Analyses :=
  ⟨⟨cfg, .new handoffCacheSize cfg.handoffCacheTtlDuration, now, fun _ => (cfg, "")⟩, fun _ => none⟩

/-- If the analysis returns now, then what the handoff model says about its image for the
configuration it has loaded. -/
def Right (m : Analysis) (p : VisionProg String) : Prop :=
  ∀ a cfg, p = .ret a → m.config = some cfg → a = V.describeFor cfg m.dataUri

/-- Every analysis that has returned has returned what it returns without a cache. -/
def Transparent (s : Analyses) : Prop := System.AllTasks (Right V) s

/-- If the cache can answer, then with an entry stored for a configuration and an image about which
the handoff model says the same as for those of the analysis. -/
def FindsOwn (w : HandoffWorld) (m : Analysis) : Prop :=
  ∀ cfg e, m.config = some cfg → w.cache.Holds w.now (sha256 m.dataUri) e →
    V.describeFor (w.source (sha256 m.dataUri)).1 (w.source (sha256 m.dataUri)).2 =
      V.describeFor cfg m.dataUri

/-- The condition on a step: an analysis that asks the cache meets `FindsOwn`. -/
def AsksWell (s : Analyses) : AnalysisEvent → Prop
  | .run i _ => ∀ m digest k, s.task i = some (m, .vis (.cacheGet digest) k) →
      FindsOwn V sha256 s.shared m
  | _ => True

/-! ### What an analysis does -/

/-- Where an analysis stands. -/
inductive Phase : Analysis → VisionProg String → Prop
  | start (dataUri key : String) : Phase ⟨dataUri, none⟩ (analysis env sha256 dataUri key)
  | look (dataUri key : String) (cfg : Config) :
      Phase ⟨dataUri, some cfg⟩ (analyzeImage env sha256 dataUri key cfg true)
  | ask (dataUri key : String) (cfg : Config) (cached : Bool) :
      Phase ⟨dataUri, some cfg⟩ (askVision env sha256 dataUri key cfg cached)
  | store (dataUri : String) (cfg : Config) :
      Phase ⟨dataUri, some cfg⟩ (.vis (.cacheSet (sha256 dataUri) (V.describeFor cfg dataUri))
        fun _ => .ret (V.describeFor cfg dataUri))
  | done (m : Analysis) (a : String) : Phase m (.ret a)

/-- Every entry is what the handoff model said for its source. -/
def Sound (w : HandoffWorld) : Prop :=
  ∀ digest e, w.cache.inner.find digest = some e →
    e.desc = V.describeFor (w.source digest).1 (w.source digest).2

/-- What an effect of the analysis `m` does: it leads to the next phase and keeps the entries sound;
and the analysis is right after it, unless the effect asks the cache: then exactly when the cache
answers well. -/
def Performs (m : Analysis) (e : VisionEff) (w : HandoffWorld) (m' : Analysis)
    (p : VisionProg String) (w' : HandoffWorld) : Prop :=
  Phase V sha256 m' p ∧ Sound V w' ∧
    (Right V m' p ↔ ∀ digest, e = .cacheGet digest → FindsOwn V sha256 w m)

variable {V sha256}

theorem readDescription_reply (body : List UInt8) :
    readDescription env (.ok ⟨200, .ok (V.reply body)⟩) =
      .ok (extractChatContent (V.value body)) := by
  unfold readDescription
  simp only [show isSuccess 200 = true from rfl, if_true, V.parses]

theorem right_vis (m : Analysis) (e : VisionEff) (k : VisionAnswer e → VisionProg String) :
    Right V m (.vis e k) := nofun

/-- The cache is asked. -/
theorem performs_look {dataUri key : String} {cfg : Config} {w : HandoffWorld} (hw : Sound V w) :
    Performs V sha256 ⟨dataUri, some cfg⟩ (.cacheGet (sha256 dataUri)) w ⟨dataUri, some cfg⟩
      (orAsk env sha256 dataUri key cfg (w.cache.get w.now (sha256 dataUri)).1)
      { w with cache := (w.cache.get w.now (sha256 dataUri)).2 } := by
  have hsound : Sound V { w with cache := (w.cache.get w.now (sha256 dataUri)).2 } :=
    fun digest e he => hw digest e (HandoffCache.find_of_find_get he)
  cases hget : (w.cache.get w.now (sha256 dataUri)).1 with
  | none =>
    refine ⟨.ask dataUri key cfg true, hsound, fun _ _ _ cfg' e _ he => ?_,
      fun _ => right_vis _ _ _⟩
    rw [HandoffCache.get_of_holds he] at hget
    cases hget
  | some desc =>
    obtain ⟨e, he, rfl⟩ := HandoffCache.holds_of_get hget
    refine ⟨.done _ _, hsound, ?_, ?_⟩
    · rintro hright - - cfg' e' hcfg -
      rw [← hw _ e he.1]
      exact hright e.desc cfg' rfl hcfg
    · intro hown a cfg' ha hcfg
      cases ha
      rw [hw _ e he.1]
      exact hown _ rfl cfg' e hcfg he

/-- The handoff model is asked. -/
theorem performs_ask {dataUri key : String} {cfg : Config} {w : HandoffWorld} {cached : Bool}
    {body : List UInt8} (hw : Sound V w)
    (hbody : body = (visionBody cfg.visionHandoffModel (handoffPrompt cfg) dataUri).toVec) :
    Performs V sha256 ⟨dataUri, some cfg⟩ (.chatCompletions key body) w ⟨dataUri, some cfg⟩
      (match readDescription env (.ok ⟨200, .ok (V.reply body)⟩) with
      | .ok desc =>
        if cached then do
          visionAct (.cacheSet (sha256 dataUri) desc)
          pure desc
        else pure desc
      | .error text => pure text) w := by
  rw [readDescription_reply, hbody]
  cases cached with
  | true => exact ⟨.store dataUri cfg, hw, fun _ => nofun, fun _ => right_vis _ _ _⟩
  | false =>
    refine ⟨.done _ _, hw, fun _ => nofun, fun _ a cfg' ha hcfg => ?_⟩
    cases ha
    cases hcfg
    rfl

/-- The description is stored. -/
theorem sound_store {w : HandoffWorld} {dataUri : String} {cfg : Config} (hw : Sound V w) :
    Sound V { w with
      cache := w.cache.set w.now (sha256 dataUri) (V.describeFor cfg dataUri)
      source := Function.update w.source (sha256 dataUri) (cfg, dataUri) } := by
  intro digest e he
  rcases HandoffCache.find_set he with ⟨rfl, rfl⟩ | ⟨hne, he⟩
  · simp only [Function.update_self]
  · simp only [Function.update_of_ne hne]
    exact hw digest e he

/-- **An effect of an analysis.** -/
theorem performs_handle {m : Analysis} {e : VisionEff} {k : VisionAnswer e → VisionProg String}
    {w w' : HandoffWorld} {r : VisionAnswer e} (hp : Phase V sha256 m (.vis e k)) (hw : Sound V w)
    (h : handle V m e w = some (r, w')) : Performs V sha256 m e w (m.add e r) (k r) w' := by
  generalize hprog : Prog.vis e k = p at hp
  cases hp with
  | start dataUri key =>
    cases hprog
    cases h
    show Performs V sha256 _ _ _ _ (analyzeImage env sha256 dataUri key w.config
      w.config.visionHandoffCacheEnabled) _
    refine ⟨?_, hw, fun _ => nofun, fun _ => ?_⟩
    · cases w.config.visionHandoffCacheEnabled with
      | true => exact .look dataUri key w.config
      | false => exact .ask dataUri key w.config false
    · cases w.config.visionHandoffCacheEnabled <;> exact right_vis _ _ _
  | look dataUri key cfg =>
    cases hprog
    cases h
    exact performs_look hw
  | ask dataUri key cfg cached =>
    cases hprog
    cases h
    exact performs_ask hw rfl
  | store dataUri cfg =>
    cases hprog
    cases h
    refine ⟨.done _ _, sound_store hw, fun _ => nofun, fun _ a cfg' ha hcfg => ?_⟩
    cases ha
    cases hcfg
    rfl
  | done m a => cases hprog

/-! ### Runs -/

/-- The invariant. -/
structure Inv (V : VisionModel env) (sha256 : String → List UInt8) (s : Analyses) : Prop where
  phases : System.AllTasks (Phase V sha256) s
  sound : Sound V s.shared

theorem inv_start (cfg : Config) (now : ℕ) : Inv V sha256 (start cfg now) :=
  ⟨System.forall_none, nofun⟩

/-- What happens around the analyses leaves the entries sound. -/
theorem sound_around {w : HandoffWorld} (hw : Sound V w) (x : HandoffEdit) :
    Sound V (w.around x) := by
  cases x with
  | resize => exact fun digest e he => hw digest e (Lru.find_of_find_keep he)
  | _ => exact hw

/-- **What a step does**: it keeps the invariant, and from a state in which every analysis has been
right it leads to another one exactly when it meets `AsksWell`. -/
theorem step_spec {s t : Analyses} {l : AnalysisEvent} (hs : Inv V sha256 s)
    (h : (analyses V sha256).step s l = some t) :
    Inv V sha256 t ∧ (Transparent V s → (Transparent V t ↔ AsksWell V sha256 s l)) := by
  rcases System.step_cases h with ⟨i, q, rfl, -, rfl⟩ | ⟨i, o, m, e, k, r, w, rfl, hi, hw, rfl⟩ |
    ⟨i, m, p, rfl, hi, rfl⟩ | ⟨x, w, rfl, hw, rfl⟩
  · exact ⟨⟨hs.phases.update _ (.start q.1 q.2), hs.sound⟩, fun hright =>
      ⟨fun _ => trivial, fun _ => System.AllTasks.update hright _ (right_vis _ _ _)⟩⟩
  · obtain ⟨hphase, hsound, hiff⟩ := performs_handle (hs.phases i m _ hi) hs.sound hw
    refine ⟨⟨hs.phases.update w hphase, hsound⟩, fun hright => ?_⟩
    -- the analysis that moves decides, and it asks the cache or does not
    have hmoved :
        Transparent V (⟨w, Function.update s.task i (some (m.add e r, k r))⟩ : Analyses) ↔
        Right V (m.add e r) (k r) :=
      ⟨fun ht => ht i _ _ (Function.update_self _ _ _),
        fun hm => System.AllTasks.update hright w hm⟩
    rw [show (analyses V sha256).add = Analysis.add from rfl, hmoved, hiff]
    constructor
    · intro hown m' digest k' hi'
      rw [hi] at hi'
      cases hi'
      exact hown digest rfl
    · rintro hasks digest rfl
      exact hasks m digest k hi
  · exact ⟨⟨hs.phases.erase i _, hs.sound⟩, fun hright =>
      ⟨fun _ => trivial, fun _ => System.AllTasks.erase hright i _⟩⟩
  · cases hw
    exact ⟨⟨hs.phases, sound_around hs.sound x⟩, fun hright => ⟨fun _ => trivial, fun _ => hright⟩⟩

/-- **The handoff cache is transparent in exactly those runs in which it is asked well.** With a
handoff model that always succeeds and whose reply is a function of the request, throughout a run
every analysis returns what it returns without a cache if and only if each time the cache can
answer, its entry was stored for a configuration and an image about which the model says the same;
in particular if their model, prompt and image are the same. -/
theorem transparent_iff_asksWell {cfg : Config} {now : ℕ} {r : List (AnalysisEvent × Analyses)}
    (hr : (analyses V sha256).IsRun (start cfg now) r) :
    Always (Transparent V) (start cfg now) r ↔ EachStep (AsksWell V sha256) (start cfg now) r := by
  refine always_iff_eachStep (J := Inv V sha256) ?_ ?_ (inv_start cfg now) nofun hr
  · intro s l t hs hst
    exact (step_spec hs hst).1
  · intro s l t hs hright hst
    exact (step_spec hs hst).2 hright

/-! #### Two runs -/

/-- A chat completion with a text. -/
def chatReply (text : String) : Value :=
  object (JsonMap.ofList [("choices", array [object (JsonMap.ofList
    [("message", object (JsonMap.ofList [("content", string text)]))])])])

/-- The completion with one of two texts. -/
@[irreducible] def parseCompletion (bytes : List UInt8) : Value :=
  if bytes = (chatReply "a dog").toVec then chatReply "a dog" else chatReply "a cat"

theorem parse_dog : parseCompletion (chatReply "a dog").toVec = chatReply "a dog" := by
  unfold parseCompletion
  exact if_pos rfl

theorem parse_cat : parseCompletion (chatReply "a cat").toVec = chatReply "a cat" := by
  unfold parseCompletion
  exact if_neg (by decide)

/-- An environment whose parser knows these completions. -/
def twoCompletions : Env where
  __ := envParsing (chatReply "a cat") []
  fromSlice bytes := .ok (parseCompletion bytes)

/-- An image. -/
def sampleUri : String := "data:image/png;base64,AA=="

/-- The digest of that image. -/
def sampleDigest : List UInt8 :=
  [226, 196, 191, 152, 104, 90, 141, 6, 116, 228, 47, 224, 85, 230, 118, 141, 125, 168, 72,
   105, 29, 79, 167, 201, 219, 213, 176, 112, 61, 157, 250, 244]

/-- The reply of a handoff model that sees a dog only when it is asked to. -/
@[irreducible] def dogReply (body : List UInt8) : List UInt8 :=
  if body = (visionBody "umans-coder" "Find the dog." sampleUri).toVec then
    (chatReply "a dog").toVec
  else (chatReply "a cat").toVec

/-- This handoff model. -/
def dogLover : VisionModel twoCompletions where
  reply := dogReply
  value body := parseCompletion (dogReply body)
  parses _ := rfl

theorem describe_dogLover (model prompt dataUri : String) : dogLover.describe model prompt dataUri =
    extractChatContent (parseCompletion (dogReply (visionBody model prompt dataUri).toVec)) := rfl

/-- A configuration with the cache, and a short prompt. -/
def cachingConfig : Config :=
  { visionHandoffCacheEnabled := true, visionHandoffPrompt := "Describe." }

/-- What `post_config` makes of it. -/
def dogConfig : Config := { cachingConfig with visionHandoffPrompt := "Find the dog." }

theorem describe_caching : dogLover.describeFor cachingConfig sampleUri = "a cat" := by
  have hprompt : handoffPrompt cachingConfig = "Describe." := if_neg (by decide)
  have hreply : dogReply (visionBody "umans-coder" "Describe." sampleUri).toVec =
      (chatReply "a cat").toVec := by
    unfold dogReply
    refine if_neg ?_
    rw [toVec_visionBody_inj]
    decide
  rw [VisionModel.describeFor, hprompt, describe_dogLover,
    show cachingConfig.visionHandoffModel = "umans-coder" from rfl, hreply, parse_cat]
  rfl

theorem describe_dog : dogLover.describeFor dogConfig sampleUri = "a dog" := by
  have hprompt : handoffPrompt dogConfig = "Find the dog." := if_neg (by decide)
  have hreply : dogReply (visionBody "umans-coder" "Find the dog." sampleUri).toVec =
      (chatReply "a dog").toVec := by
    unfold dogReply
    exact if_pos rfl
  rw [VisionModel.describeFor, hprompt, describe_dogLover,
    show dogConfig.visionHandoffModel = "umans-coder" from rfl, hreply, parse_dog]
  rfl

/-- The image is analysed twice. -/
def analysedTwice : List AnalysisEvent :=
  [.start 0 (sampleUri, "sk-1"), .run 0 (), .run 0 (), .run 0 (), .run 0 (),
    .start 1 (sampleUri, "sk-1"), .run 1 (), .run 1 ()]

/-- The result on the run in which it is analysed twice, the second time from the cache. -/
theorem transparent_twice : ∃ r, (analyses dogLover fun _ => sampleDigest).IsRun
    (start cachingConfig 0) r ∧ r.length = 8 ∧
    Always (Transparent dogLover) (start cachingConfig 0) r := by
  have hr : (analyses dogLover fun _ => sampleDigest).IsRun (start cachingConfig 0) _ :=
    @isRun_along _ _ _ _ analysedTwice _ rfl
  refine ⟨_, hr, rfl, (transparent_iff_asksWell hr).2
    ⟨trivial, ?_, ?_, ?_, ?_, trivial, ?_, ?_, trivial⟩⟩
  · intro m digest k h
    cases h
  · -- nothing is in the cache yet
    intro m digest k h cfg e hcfg hholds
    cases h
    cases hholds.1
  · intro m digest k h
    cases h
  · intro m digest k h
    cases h
  · intro m digest k h
    cases h
  · -- the entry is from the first analysis
    intro m digest k h cfg e hcfg hholds
    cases h
    cases hcfg
    rfl

/-- It is analysed, the prompt is changed by `post_config`, and it is analysed again. -/
def analysedForTheDog : List AnalysisEvent :=
  [.start 0 (sampleUri, "sk-1"), .run 0 (), .run 0 (), .run 0 (), .run 0 (),
    .outer (.edit { visionHandoffPrompt := some "Find the dog." }), .outer .resize,
    .start 1 (sampleUri, "sk-1"), .run 1 (), .run 1 ()]

/-- The second analysis returns the description that was made for the old prompt. -/
theorem old_prompt_served : ¬ ∀ r, (analyses dogLover fun _ => sampleDigest).IsRun
    (start cachingConfig 0) r → Always (Transparent dogLover) (start cachingConfig 0) r := by
  intro h
  have hr : (analyses dogLover fun _ => sampleDigest).IsRun (start cachingConfig 0) _ :=
    @isRun_along _ _ _ _ analysedForTheDog _ rfl
  have hold : extractChatContent (parseCompletion (dogReply (visionBody
      cachingConfig.visionHandoffModel (handoffPrompt cachingConfig) sampleUri).toVec)) =
        dogLover.describeFor dogConfig sampleUri :=
    (h _ hr).final 1 ⟨sampleUri, some dogConfig⟩ _ rfl _ dogConfig rfl rfl
  rw [← describe_dogLover, ← VisionModel.describeFor, describe_caching, describe_dog] at hold
  exact absurd hold (by decide)

end HandoffWorld

end Mybro
