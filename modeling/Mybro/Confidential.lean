import Mybro.Lib.TwoRuns
import Mybro.Responses

/-!
# Credentials stay where they belong (`routes/chat.rs`, `routes/messages.rs`)

The upstream keys are in the configuration and in the slots of the key pool, the credentials of the
clients in the configuration and in the headers of the requests. `hideKeys` blanks them out of an
effect and its answer. `credentials_confidential` says that nothing else depends on them: whoever
sees all that a request does, with the keys of its upstream calls blanked out, and its response,
learns about the credentials only whether they are valid.
-/

namespace Mybro

open Value Prog

/-! ### Blanking out -/

/-- A slot without its key. -/
def KeySlot.hideKey (slot : KeySlot) : KeySlot := { slot with key := "" }

/-- A configuration without the upstream keys and the credentials of the clients. -/
def Config.hideKeys (cfg : Config) : Config := { cfg with apiKey := "", apiKeys := [], keys := [] }

/-- An effect without the key it carries. -/
def Eff.hideKeys : Eff → Eff
  | .send call => .send { call with key := "" }
  | .analyzeImages dataUris _ cfg => .analyzeImages dataUris "" cfg.hideKeys
  | e => e

/-- An effect and its answer without the keys in them. -/
def hideKeys : (Σ e, Answer e) → Σ e, Answer e
  | ⟨.config, cfg⟩ => ⟨.config, Config.hideKeys cfg⟩
  | ⟨.acquireKey preferred, slot⟩ => ⟨.acquireKey preferred, Option.map KeySlot.hideKey slot⟩
  | ⟨.send call, result⟩ => ⟨.send { call with key := "" }, result⟩
  | ⟨.analyzeImages dataUris _ cfg, descriptions⟩ =>
    ⟨.analyzeImages dataUris "" cfg.hideKeys, descriptions⟩
  | x => x

/-- A request without the headers that carry a credential. -/
def Request.hideCredentials (req : Request) : Request :=
  { req with headers := req.headers.filter fun h => h.1 ≠ "x-api-key" && h.1 ≠ "authorization" }

/-- The two programs show the same apart from keys, and return values related by `Q`. -/
abbrev Hides {α β : Type} (Q : α → β → Prop) : Handler α → Handler β → Prop :=
  Alike Eff.hideKeys hideKeys Q

/-! ### Rules -/

/-- The effect is answered by no key. -/
def Keyless : Eff → Prop
  | .config | .acquireKey _ => False
  | _ => True

theorem answer_eq_of_keyless (e : Eff) (he : Keyless e) (r r' : Answer e)
    (h : hideKeys ⟨e, r⟩ = hideKeys ⟨e, r'⟩) : r = r' := by
  cases e with
  | config => exact he.elim
  | acquireKey preferred => exact he.elim
  | _ =>
    cases h
    rfl

section Rules

variable {α β γ : Type} {Q : α → β → Prop}

theorem hides_perform {e : Eff} {f : Answer e → Handler α} {f' : Answer e → Handler β}
    (he : Keyless e) (hf : ∀ r, Hides Q (f r) (f' r)) :
    Hides Q (perform e >>= f) (perform e >>= f') := by
  refine alike_perform rfl fun r r' hr => ?_
  obtain rfl := answer_eq_of_keyless e he r r' hr
  exact hf r

/-- The rule for a part that both programs have in common. -/
theorem hides_part {p : Handler γ} {f : γ → Handler α} {f' : γ → Handler β}
    (hp : Ensures Keyless (fun _ => True) p) (hf : ∀ a, Hides Q (f a) (f' a)) :
    Hides Q (p >>= f) (p >>= f') :=
  alike_part answer_eq_of_keyless hp fun a _ => hf a

theorem hides_same {p : Handler α} (hp : Ensures Keyless (fun _ => True) p) :
    Hides (· = ·) p p :=
  (alike_of_ensures answer_eq_of_keyless hp).mono fun _ _ h => h.1

theorem hides_config {f : Config → Handler α} {f' : Config → Handler β}
    (hf : ∀ cfg cfg', cfg.hideKeys = cfg'.hideKeys → Hides Q (f cfg) (f' cfg')) :
    Hides Q (perform .config >>= f) (perform .config >>= f') := by
  refine alike_perform rfl fun cfg cfg' h => hf cfg cfg' ?_
  exact eq_of_heq (Sigma.mk.inj h).2

theorem hides_acquireKey {preferred : Option ℕ} {f : Option KeySlot → Handler α}
    {f' : Option KeySlot → Handler β}
    (hf : ∀ slot slot', Option.map KeySlot.hideKey slot = Option.map KeySlot.hideKey slot' →
      Hides Q (f slot) (f' slot')) :
    Hides Q (perform (.acquireKey preferred) >>= f) (perform (.acquireKey preferred) >>= f') := by
  refine alike_perform rfl fun slot slot' h => hf slot slot' ?_
  exact eq_of_heq (Sigma.mk.inj h).2

theorem hides_send {call call' : UpstreamCall}
    (hcall : (Eff.send call).hideKeys = (Eff.send call').hideKeys)
    {f : Except String Reply → Handler α} {f' : Except String Reply → Handler β}
    (hf : ∀ result, Hides Q (f result) (f' result)) :
    Hides Q (perform (.send call) >>= f) (perform (.send call') >>= f') := by
  refine alike_perform hcall fun result result' h => ?_
  obtain rfl : result = result' := eq_of_heq (Sigma.mk.inj h).2
  exact hf result

theorem hides_analyzeImages {dataUris : List String} {key key' : String} {cfg cfg' : Config}
    (hcfg : cfg.hideKeys = cfg'.hideKeys) {f : List.Vector String dataUris.length → Handler α}
    {f' : List.Vector String dataUris.length → Handler β}
    (hf : ∀ descriptions, Hides Q (f descriptions) (f' descriptions)) :
    Hides Q (perform (.analyzeImages dataUris key cfg) >>= f)
      (perform (.analyzeImages dataUris key' cfg') >>= f') := by
  refine alike_perform (congrArg (Eff.analyzeImages dataUris "") hcfg) fun r r' h => ?_
  obtain rfl : r = r' := eq_of_heq (Sigma.mk.inj h).2
  exact hf r

end Rules

/-- What does not read the keys of a configuration. -/
theorem eq_of_hideKeys {γ : Type} {cfg cfg' : Config} (F : Config → γ)
    (hF : ∀ c, F c = F c.hideKeys) (h : cfg.hideKeys = cfg'.hideKeys) : F cfg = F cfg' :=
  (hF cfg).trans ((congrArg F h).trans (hF cfg').symm)

/-- What does not read the key of a slot. -/
theorem eq_of_hideKey {γ : Type} {slot slot' : KeySlot} (F : KeySlot → γ)
    (hF : ∀ s, F s = F s.hideKey) (h : slot.hideKey = slot'.hideKey) : F slot = F slot' :=
  (hF slot).trans ((congrArg F h).trans (hF slot').symm)

/-! ### Parts that are answered by no key -/

section Keyless

variable {α β : Type}

theorem keyless_perform {e : Eff} {f : Answer e → Handler α} (he : Keyless e)
    (hf : ∀ r, Ensures Keyless (fun _ => True) (f r)) :
    Ensures Keyless (fun _ => True) (perform e >>= f) := ⟨he, hf⟩

theorem keyless_bind {p : Handler β} {f : β → Handler α} (hp : Ensures Keyless (fun _ => True) p)
    (hf : ∀ b, Ensures Keyless (fun _ => True) (f b)) :
    Ensures Keyless (fun _ => True) (p >>= f) := ensures_bind hp fun b _ => hf b

end Keyless

theorem keyless_effect {e : Eff} (he : Keyless e) :
    Ensures Keyless (fun _ => True) (perform e) := ⟨he, fun _ => trivial⟩

theorem keyless_readBodyOrEmpty : Ensures Keyless (fun _ => True) readBodyOrEmpty :=
  ⟨trivial, fun _ => trivial⟩

theorem keyless_readErrorBody : Ensures Keyless (fun _ => True) readErrorBody :=
  ⟨trivial, fun _ => trivial⟩

theorem keyless_streamRecord (model pipeline keyName : String) :
    Ensures Keyless (fun _ => True) (streamRecord model pipeline keyName) :=
  ⟨trivial, fun _ => trivial⟩

theorem keyless_orPanic {α : Type} (site : Panic) (o : Option α) :
    Ensures Keyless (fun _ => True) (orPanic site o) := by
  cases o with
  | none => exact ⟨trivial, nofun⟩
  | some a => trivial

theorem keyless_doIf {c : Prop} [Decidable c] {p : Handler Unit}
    (h : Ensures Keyless (fun _ => True) p) : Ensures Keyless (fun _ => True) (doIf c p) := by
  unfold doIf
  split_ifs
  · exact h
  · trivial

theorem keyless_logFirstPrompt (payload : Value) (sessNum : UInt64) :
    Ensures Keyless (fun _ => True) (logFirstPrompt payload sessNum) :=
  keyless_bind (keyless_orPanic _ _) fun _ => keyless_effect trivial

theorem keyless_resolveModel (cfg : Config) (payload : Value) :
    Ensures Keyless (fun _ => True) (resolveModel cfg payload) :=
  keyless_perform trivial fun _ => keyless_bind (keyless_orPanic _ _) fun _ => trivial

theorem keyless_recordStat (start : ℕ) (ttftMs : Option UInt64) (status : ℕ)
    (model pipeline keyName : String) (usage : Usage) (error : Option String) :
    Ensures Keyless (fun _ => True)
      (recordStat start ttftMs status model pipeline keyName usage error) :=
  keyless_perform trivial fun _ => keyless_perform trivial fun _ => keyless_effect trivial

theorem keyless_logUpstreamError (env : Env) (stage url : String) (attempt : ℕ) (sessNum : UInt64)
    (slotName : String) (status : ℕ) (errorBody : String) :
    Ensures Keyless (fun _ => True)
      (logUpstreamError env stage url attempt sessNum slotName status errorBody) :=
  keyless_perform trivial fun _ => keyless_effect trivial

theorem keyless_chatSuccess (c : ChatCall) (slot : KeySlot) (upstreamStart : ℕ) (reply : Reply) :
    Ensures Keyless (fun _ => True) (chatSuccess c slot upstreamStart reply) := by
  refine keyless_perform trivial fun _ => ?_
  split
  · exact keyless_bind (keyless_streamRecord _ _ _) fun _ => trivial
  · refine keyless_bind keyless_readBodyOrEmpty fun body => keyless_perform trivial fun now => ?_
    exact keyless_bind (keyless_recordStat _ _ _ _ _ _ _ _) fun _ => trivial

theorem keyless_chatOther (c : ChatCall) (slot : KeySlot) (reply : Reply) :
    Ensures Keyless (fun _ => True) (chatOther c slot reply) := by
  refine keyless_bind (keyless_doIf (keyless_effect trivial)) fun _ => ?_
  refine keyless_bind keyless_readBodyOrEmpty fun body => ?_
  exact keyless_bind (keyless_recordStat _ _ _ _ _ _ _ _) fun _ => trivial

theorem keyless_chatExhausted (c : ChatCall) (slot : KeySlot) (status : ℕ) (errorBody : String) :
    Ensures Keyless (fun _ => True) (chatExhausted c slot status errorBody) := by
  refine keyless_bind (keyless_doIf (keyless_effect trivial)) fun _ => ?_
  exact keyless_bind (keyless_recordStat _ _ _ _ _ _ _ _) fun _ => trivial

theorem keyless_chatUnreachable (c : ChatCall) (slot : KeySlot) (err : String) :
    Ensures Keyless (fun _ => True) (chatUnreachable c slot err) :=
  keyless_bind (keyless_recordStat _ _ _ _ _ _ _ _) fun _ => trivial

theorem keyless_messagesSuccess (c : MessagesCall) (upstreamStart : ℕ) (reply : Reply) :
    Ensures Keyless (fun _ => True) (messagesSuccess c upstreamStart reply) := by
  refine keyless_perform trivial fun _ => ?_
  split
  · exact keyless_bind (keyless_streamRecord _ _ _) fun _ => trivial
  · refine keyless_bind keyless_readBodyOrEmpty fun body => keyless_perform trivial fun now => ?_
    exact keyless_bind (keyless_recordStat _ _ _ _ _ _ _ _) fun _ => trivial

theorem keyless_messagesError (c : MessagesCall) (reply : Reply) :
    Ensures Keyless (fun _ => True) (messagesError c reply) := by
  refine keyless_bind keyless_readErrorBody fun body => ?_
  refine keyless_bind (keyless_logUpstreamError _ _ _ _ _ _ _ _) fun _ => ?_
  refine keyless_bind (keyless_doIf (keyless_effect trivial)) fun _ => ?_
  refine keyless_bind (keyless_doIf (keyless_effect trivial)) fun _ => ?_
  exact keyless_bind (keyless_recordStat _ _ _ _ _ _ _ _) fun _ => trivial

theorem keyless_messagesUnreachable (c : MessagesCall) (err : String) :
    Ensures Keyless (fun _ => True) (messagesUnreachable c err) := by
  refine keyless_perform trivial fun _ => ?_
  refine keyless_bind (keyless_logUpstreamError _ _ _ _ _ _ _ _) fun _ => ?_
  exact keyless_bind (keyless_recordStat _ _ _ _ _ _ _ _) fun _ => trivial

/-! ### From the payload to the call -/

/-- What the preparation hands on, without keys. -/
def Prepared.hideKeys (p : Prepared) : Prepared :=
  { p with cfg := p.cfg.hideKeys, slot := p.slot.hideKey }

theorem hides_selectKey (env : Env) (payload : Value) :
    Hides (fun x y => Option.map (fun z : KeySlot × UInt64 => (z.1.hideKey, z.2)) x =
        Option.map (fun z : KeySlot × UInt64 => (z.1.hideKey, z.2)) y)
      (selectKey env payload) (selectKey env payload) := by
  refine hides_perform trivial fun touched => hides_acquireKey fun slot slot' hslot => ?_
  cases slot with
  | none =>
    cases slot' with
    | none => exact alike_ret rfl
    | some slot' => cases hslot
  | some slot =>
    cases slot' with
    | none => cases hslot
    | some slot' =>
      have hkey : slot.hideKey = slot'.hideKey := Option.some.inj hslot
      have hindex : slot.index = slot'.index := eq_of_hideKey (·.index) (fun _ => rfl) hkey
      show Hides _ (perform (.track _ slot.index) >>= _) (perform (.track _ slot'.index) >>= _)
      rw [hindex]
      refine hides_perform trivial fun session => ?_
      refine hides_part (keyless_doIf (keyless_logFirstPrompt _ _)) fun _ => alike_ret ?_
      simp only [Option.map_some, hkey]

theorem hides_visionStep {cfg cfg' : Config} (hcfg : cfg.hideKeys = cfg'.hideKeys)
    (payload : Value) (resolved key key' : String) :
    Hides (· = ·) (visionStep payload resolved cfg key)
      (visionStep payload resolved cfg' key') := by
  have hneeds : ∀ catalog, needsVisionHandoff catalog resolved cfg =
      needsVisionHandoff catalog resolved cfg' := fun catalog =>
    eq_of_hideKeys (needsVisionHandoff catalog resolved) (fun _ => rfl) hcfg
  refine hides_perform trivial fun catalog => ?_
  show Hides _ (if _ then _ else _) (if _ then _ else _)
  rw [hneeds]
  split_ifs
  · refine hides_perform trivial fun catalog => ?_
    show Hides _ (if _ then _ else _) (if _ then _ else _)
    rw [hneeds]
    split_ifs
    · show Hides _ (if _ then _ else _) (if _ then _ else _)
      split_ifs
      · exact alike_ret rfl
      · exact hides_analyzeImages hcfg fun _ => alike_ret rfl
    · exact alike_ret rfl
  · exact alike_ret rfl

/-- The payload prepared for a call, with its configuration and model, and one like it. -/
def LikePayload (x y : Value × Config × String) : Prop :=
  x.1 = y.1 ∧ x.2.1.hideKeys = y.2.1.hideKeys ∧ x.2.2 = y.2.2

theorem hides_chatPayload (payload : Value) (slot slot' : KeySlot) (stream : Bool) :
    Hides LikePayload (chatPayload payload slot stream) (chatPayload payload slot' stream) := by
  refine hides_config fun cfg cfg' hcfg => ?_
  rw [eq_of_hideKeys (fun c => resolveModel c (stripReasoningContent payload)) (fun _ => rfl) hcfg]
  refine hides_part (keyless_resolveModel _ _) fun x => ?_
  refine hides_perform trivial fun catalog => hides_perform trivial fun catalog' => ?_
  rw [eq_of_hideKeys (needsVisionHandoff catalog x.2) (fun _ => rfl) hcfg,
    eq_of_hideKeys (fun c => c.maxImages) (fun _ => rfl) hcfg]
  refine hides_part (keyless_orPanic _ _) fun payload' => ?_
  refine alike_bind (hides_visionStep hcfg _ _ _ _) ?_
  rintro payload _ rfl
  exact alike_ret ⟨rfl, hcfg, rfl⟩

theorem hides_messagesPayload (payload : Value) (slot slot' : KeySlot) :
    Hides LikePayload (messagesPayload payload slot) (messagesPayload payload slot') := by
  refine hides_config fun cfg cfg' hcfg => ?_
  rw [eq_of_hideKeys (fun c => resolveModel c (normalizeThinkingPayload payload)) (fun _ => rfl)
    hcfg]
  refine hides_part (keyless_resolveModel _ _) fun x => ?_
  rw [eq_of_hideKeys (fun c => c.maxImages) (fun _ => rfl) hcfg]
  refine alike_bind (hides_visionStep hcfg _ _ _ _) ?_
  rintro payload _ rfl
  exact alike_ret ⟨rfl, hcfg, rfl⟩

/-- Two results of the preparation that show the same. -/
def LikePrepared (x y : Except Response Prepared) : Prop :=
  Except.map Prepared.hideKeys x = Except.map Prepared.hideKeys y

theorem likePrepared_ok {x y : Value × Config × String} {slot slot' : KeySlot} (h : LikePayload x y)
    (hslot : slot.hideKey = slot'.hideKey) (sessNum : UInt64) :
    LikePrepared (.ok ⟨x.1, x.2.1, x.2.2, slot, sessNum⟩)
      (.ok ⟨y.1, y.2.1, y.2.2, slot', sessNum⟩) := by
  obtain ⟨hpayload, hcfg, hmodel⟩ := h
  simp only [LikePrepared, Except.map, Prepared.hideKeys, hpayload, hcfg, hmodel, hslot]

/-- The key selected, then the payload, in either pipeline. -/
theorem hides_selected (env : Env) (payload : Value) (refused : Response)
    {prep : KeySlot → Handler (Value × Config × String)}
    (hprep : ∀ slot slot', Hides LikePayload (prep slot) (prep slot')) :
    Hides LikePrepared
      (selectKey env payload >>= fun selected => match selected with
        | none => pure (.error refused)
        | some (slot, sessNum) => do
          let (final, cfg, resolved) ← prep slot
          pure (.ok ⟨final, cfg, resolved, slot, sessNum⟩))
      (selectKey env payload >>= fun selected => match selected with
        | none => pure (.error refused)
        | some (slot, sessNum) => do
          let (final, cfg, resolved) ← prep slot
          pure (.ok ⟨final, cfg, resolved, slot, sessNum⟩)) := by
  refine alike_bind (hides_selectKey env payload) fun selected selected' h => ?_
  match selected, selected', h with
  | none, none, _ => exact alike_ret rfl
  | some (slot, sessNum), some (slot', sessNum'), h =>
    obtain ⟨hslot, hsess⟩ := Prod.mk.inj (Option.some.inj h)
    obtain rfl : sessNum = sessNum' := hsess
    refine alike_bind (hprep slot slot') fun x y hxy => ?_
    exact alike_ret (likePrepared_ok hxy hslot sessNum)

theorem hides_chatPrepare (env : Env) (payload : Value) :
    Hides LikePrepared (chatPrepare env payload) (chatPrepare env payload) := by
  refine hides_perform trivial fun admitted => ?_
  by_cases h : admitted = true
  · rw [if_pos h]
    exact hides_selected env payload _ fun slot slot' => hides_chatPayload payload slot slot' _
  · rw [if_neg h]
    exact alike_ret rfl

theorem hides_messagesPrepare (env : Env) (payload : Value) :
    Hides LikePrepared (messagesPrepare env payload) (messagesPrepare env payload) := by
  refine hides_perform trivial fun total => ?_
  by_cases h : (total : ℕ) = 0
  · rw [if_pos h]
    exact alike_ret rfl
  rw [if_neg h]
  refine hides_perform trivial fun admitted => ?_
  by_cases h : admitted = true
  · rw [if_pos h]
    exact hides_selected env payload _ fun slot slot' => hides_messagesPayload payload slot slot'
  · rw [if_neg h]
    exact alike_ret rfl

/-! ### The upstream calls -/

theorem hides_rotate (attempt : ℕ) {slot slot' : KeySlot} (h : slot.hideKey = slot'.hideKey) :
    Hides (fun s s' => s.hideKey = s'.hideKey) (rotate attempt slot) (rotate attempt slot') := by
  unfold rotate
  split_ifs
  · refine hides_perform trivial fun total => ?_
    show Hides _ (if _ then _ else _) (if _ then _ else _)
    split_ifs
    · refine hides_acquireKey fun next next' hnext => alike_ret ?_
      cases next with
      | none =>
        cases next' with
        | none => exact h
        | some next' => cases hnext
      | some next =>
        cases next' with
        | none => cases hnext
        | some next' => exact Option.some.inj hnext
    · exact alike_ret h
  · exact alike_ret h

theorem hides_chatFailed (c : ChatCall) (attempt : ℕ) (slot : KeySlot) (status : ℕ)
    (errorBody : String) {last again again' : Handler Response}
    (hlast : Ensures Keyless (fun _ => True) last) (hagain : Hides (· = ·) again again') :
    Hides (· = ·) (chatFailed c attempt slot status errorBody last again)
      (chatFailed c attempt slot status errorBody last again') := by
  refine hides_perform trivial fun _ => ?_
  refine hides_part (keyless_logUpstreamError _ _ _ _ _ _ _ _) fun _ => ?_
  split_ifs
  · exact hides_same hlast
  · exact hides_perform trivial fun _ => hagain

theorem hides_chatResult (c : ChatCall) (attempt : ℕ) (slot : KeySlot) (upstreamStart : ℕ)
    {again again' : Handler Response} (hagain : Hides (· = ·) again again')
    (result : Except String Reply) :
    Hides (· = ·) (chatResult c attempt slot upstreamStart again result)
      (chatResult c attempt slot upstreamStart again' result) := by
  cases result with
  | ok reply =>
    show Hides _ (if _ then _ else _) (if _ then _ else _)
    split_ifs
    · exact hides_same (keyless_chatSuccess c slot upstreamStart reply)
    · refine hides_part keyless_readErrorBody fun errorBody => ?_
      exact hides_chatFailed c attempt slot _ _ (keyless_chatExhausted c slot _ _) hagain
    · exact hides_same (keyless_chatOther c slot reply)
  | error err =>
    exact hides_chatFailed c attempt slot _ _ (keyless_chatUnreachable c slot err) hagain

/-- By induction on the attempts that are left. -/
theorem hides_chatLoop (c : ChatCall) (l : List ℕ) {slot slot' : KeySlot}
    (h : slot.hideKey = slot'.hideKey) :
    Hides (· = ·) (chatLoop c (chatAfterLoop c) l slot) (chatLoop c (chatAfterLoop c) l slot') := by
  induction l generalizing slot slot' with
  | nil =>
    show Hides _ (chatAfterLoop c slot) (chatAfterLoop c slot')
    rw [eq_of_hideKey (chatAfterLoop c) (fun _ => rfl) h]
    exact hides_same (keyless_bind (keyless_recordStat _ _ _ _ _ _ _ _) fun _ => trivial)
  | cons attempt rest ih =>
    refine alike_bind (hides_rotate attempt h) fun slot slot' h => ?_
    refine hides_perform trivial fun upstreamStart => ?_
    refine hides_send rfl fun result => ?_
    have hresult := eq_of_hideKey (fun s => chatResult c attempt s upstreamStart
      (chatLoop c (chatAfterLoop c) rest slot) result) (fun _ => by cases result <;> rfl) h
    rw [hresult]
    exact hides_chatResult c attempt slot' upstreamStart (ih h) result

theorem lookup_filter {β : Type} {name : String} {p : String × β → Bool}
    (hp : ∀ v, p (name, v) = true) (l : List (String × β)) :
    List.lookup name (l.filter p) = List.lookup name l := by
  induction l with
  | nil => rfl
  | cons h l ih =>
    obtain ⟨n, v⟩ := h
    by_cases hn : name = n
    · subst hn
      rw [List.filter_cons_of_pos (hp v), List.lookup_cons_self, List.lookup_cons_self]
    · have hne : (name == n) = false := beq_false_of_ne hn
      rw [List.filter_cons]
      split_ifs
      · rw [List.lookup_cons, List.lookup_cons, hne, ih]
      · rw [List.lookup_cons, hne, ih]

/-- A header that carries no credential. -/
theorem getText_hideCredentials (req : Request) {name : String} (hkey : name ≠ "x-api-key")
    (hauth : name ≠ "authorization") :
    req.hideCredentials.headers.getText name = req.headers.getText name := by
  have hlookup : List.lookup name req.hideCredentials.headers = List.lookup name req.headers :=
    lookup_filter (fun _ => by simp [hkey, hauth]) req.headers
  exact congrArg (Option.bind · headerText) hlookup

theorem websearch_congr {req req' : Request} (hreq : req.hideCredentials = req'.hideCredentials)
    {cfg cfg' : Config} (hcfg : cfg.hideKeys = cfg'.hideKeys) :
    websearch req.headers cfg = websearch req'.headers cfg' := by
  have hheader : req.headers.getText "x-umans-websearch-provider" =
      req'.headers.getText "x-umans-websearch-provider" := by
    rw [← getText_hideCredentials req (by decide) (by decide), hreq,
      getText_hideCredentials req' (by decide) (by decide)]
  have hprovider : cfg.websearchProvider = cfg'.websearchProvider :=
    eq_of_hideKeys (·.websearchProvider) (fun _ => rfl) hcfg
  simp only [websearch, hheader, hprovider]

theorem hides_chatUpstream (env : Env) {req req' : Request}
    (hreq : req.hideCredentials = req'.hideCredentials) (stream : Bool) {p p' : Prepared}
    (h : p.hideKeys = p'.hideKeys) :
    Hides (· = ·) (chatUpstream env req.headers stream p)
      (chatUpstream env req'.headers stream p') := by
  obtain ⟨payload, cfg, model, slot, sessNum⟩ := p
  obtain ⟨payload', cfg', model', slot', sessNum'⟩ := p'
  obtain ⟨rfl, hcfg, rfl, hslot, rfl⟩ := Prepared.mk.inj h
  refine hides_perform trivial fun reqStart => ?_
  rw [websearch_congr hreq hcfg]
  exact hides_chatLoop _ attempts hslot

theorem hides_messagesUpstream (env : Env) {req req' : Request}
    (hreq : req.hideCredentials = req'.hideCredentials) (stream : Bool) {p p' : Prepared}
    (h : p.hideKeys = p'.hideKeys) :
    Hides (· = ·) (messagesUpstream env req.headers stream p)
      (messagesUpstream env req'.headers stream p') := by
  obtain ⟨payload, cfg, model, slot, sessNum⟩ := p
  obtain ⟨payload', cfg', model', slot', sessNum'⟩ := p'
  obtain ⟨rfl, hcfg, rfl, hslot, rfl⟩ := Prepared.mk.inj h
  refine hides_perform trivial fun reqStart => hides_perform trivial fun upstreamStart => ?_
  rw [websearch_congr hreq hcfg]
  refine hides_send rfl fun result => ?_
  cases result with
  | ok reply =>
    show Hides _ (if _ then _ else _) (if _ then _ else _)
    split_ifs
    · rw [eq_of_hideKey (fun s => messagesSuccess ⟨env, model, sessNum, s, reqStart⟩ upstreamStart
        reply) (fun _ => rfl) hslot]
      exact hides_same (keyless_messagesSuccess _ _ _)
    · rw [eq_of_hideKey (fun s => messagesError ⟨env, model, sessNum, s, reqStart⟩ reply)
        (fun _ => rfl) hslot]
      exact hides_same (keyless_messagesError _ _)
    · exact hides_same (keyless_bind keyless_readBodyOrEmpty fun _ => trivial)
  | error err =>
    show Hides _ (messagesUnreachable _ err) (messagesUnreachable _ err)
    rw [eq_of_hideKey (fun s => messagesUnreachable ⟨env, model, sessNum, s, reqStart⟩ err)
      (fun _ => rfl) hslot]
    exact hides_same (keyless_messagesUnreachable _ _)

/-- The preparation, then the call, in either pipeline. -/
theorem hides_parsed {prep : Handler (Except Response Prepared)}
    {rest rest' : Prepared → Handler Response} (hprep : Hides LikePrepared prep prep)
    (hrest : ∀ p p' : Prepared, p.hideKeys = p'.hideKeys → Hides (· = ·) (rest p) (rest' p')) :
    Hides (· = ·)
      (prep >>= fun prepared => match prepared with
        | .error resp => pure resp
        | .ok p => rest p)
      (prep >>= fun prepared => match prepared with
        | .error resp => pure resp
        | .ok p => rest' p) := by
  refine alike_bind hprep fun x y h => ?_
  match x, y, h with
  | .error resp, .error resp', h => exact alike_ret (Except.error.inj h)
  | .ok p, .ok p', h => exact hrest p p' (Except.ok.inj h)

theorem hides_chatParsed (env : Env) {req req' : Request}
    (hreq : req.hideCredentials = req'.hideCredentials) (payload : Value) :
    Hides (· = ·) (chatParsed env req.headers payload) (chatParsed env req'.headers payload) :=
  hides_parsed (hides_chatPrepare env payload) fun _ _ h => hides_chatUpstream env hreq _ h

theorem hides_messagesParsed (env : Env) {req req' : Request}
    (hreq : req.hideCredentials = req'.hideCredentials) (payload : Value) :
    Hides (· = ·) (messagesParsed env req.headers payload)
      (messagesParsed env req'.headers payload) :=
  hides_parsed (hides_messagesPrepare env payload) fun _ _ h =>
    hides_messagesUpstream env hreq _ h

/-! ### Both handlers -/

/-- After the check of the credential, which has come out the same. -/
theorem hides_checked {b b' : Bool} (hb : b = b') (read : Option (List UInt8))
    {f f' : List UInt8 → Handler Response} (refused : Response)
    (hf : ∀ bytes, Hides (· = ·) (f bytes) (f' bytes)) :
    Hides (· = ·)
      (if b then match read with
        | none => pure bodyTooLarge
        | some bytes => f bytes
      else pure refused)
      (if b' then match read with
        | none => pure bodyTooLarge
        | some bytes => f' bytes
      else pure refused) := by
  subst hb
  split_ifs
  · cases read with
    | none => exact alike_ret rfl
    | some bytes => exact hf bytes
  · exact alike_ret rfl

/-- A handler reads the configuration its credential is checked against; then nothing depends on the
credential but the verdict. -/
theorem hides_handler (env : Env) (api : ApiFormat) {req req' : Request}
    (hreq : req.hideCredentials = req'.hideCredentials) :
    ∃ k k', handler env api req = .vis .config k ∧ handler env api req' = .vis .config k' ∧
      ∀ cfg cfg', checkAuth cfg req.headers = checkAuth cfg' req'.headers →
        Hides (· = ·) (k cfg) (k' cfg') := by
  have hbody : req.hideCredentials.body = req'.hideCredentials.body := congrArg Request.body hreq
  change req.body = req'.body at hbody
  cases api with
  | openAI =>
    refine ⟨_, _, rfl, rfl, fun cfg cfg' hauth => ?_⟩
    rw [← hbody]
    refine hides_checked hauth req.body _ fun bytes => ?_
    split
    · exact alike_ret rfl
    · exact hides_chatParsed env hreq _
  | anthropic =>
    refine ⟨_, _, rfl, rfl, fun cfg cfg' hauth => ?_⟩
    rw [← hbody]
    refine hides_checked hauth req.body _ fun bytes => ?_
    split
    · exact alike_ret rfl
    · exact hides_messagesParsed env hreq _

/-- **Credentials are confidential**: two requests that differ only in the headers that carry a
credential, with the same verdict on it, and whose questions are answered alike apart from the keys
handed out and the keys and credentials in the configuration, do the same, one step after the other,
apart from the key in a call to upstream: the same calls, records, log lines, error reports and
marks, and the same response. -/
theorem credentials_confidential (env : Env) (api : ApiFormat) {req req' : Request}
    (hreq : req.hideCredentials = req'.hideCredentials) {tr tr' : Trace Answer}
    {q q' : Handler Response} (hr : Run (handler env api req) tr q)
    (hr' : Run (handler env api req') tr' q')
    (hauth : ∀ cfg cfg', tr.head? = some ⟨.config, cfg⟩ → tr'.head? = some ⟨.config, cfg'⟩ →
      checkAuth cfg req.headers = checkAuth cfg' req'.headers)
    (hsame : List.Forall₂
      (fun x y => x.1.hideKeys = y.1.hideKeys → hideKeys x = hideKeys y) tr tr') :
    tr.map hideKeys = tr'.map hideKeys ∧ (∀ resp, q = .ret resp ↔ q' = .ret resp) ∧
      ∀ e k, q = .vis e k → ∃ e' k', q' = .vis e' k' ∧ e'.hideKeys = e.hideKeys := by
  obtain ⟨k, k', hk, hk', hrest⟩ := hides_handler env api hreq
  rw [hk] at hr
  rw [hk'] at hr'
  cases hsame with
  | nil =>
    cases hr
    cases hr'
    refine ⟨rfl, fun resp => ⟨fun h => (by cases h), fun h => (by cases h)⟩, ?_⟩
    rintro e k ⟨⟩
    exact ⟨_, _, rfl, rfl⟩
  | cons hhead htail =>
    cases hr with
    | cons cfg hr =>
      cases hr' with
      | cons cfg' hr' =>
        have hview := hhead rfl
        obtain ⟨hmap, hleft⟩ := (hrest cfg cfg' (hauth cfg cfg' rfl rfl)).run hr hr' htail
        refine ⟨?_, hleft.next⟩
        rw [List.map_cons, List.map_cons, hview, hmap]

/-- Answers to a request of a client with this credential, by a proxy with this key. -/
def answersWith (credential key : String) : (e : Eff) → Option (Answer e)
  | .config => some { apiKey := key, apiKeys := [credential] }
  | .acquireKey _ => some (some ⟨0, key, "main"⟩)
  | e => Task.sampleAnswers (.ok ⟨200, []⟩) e

/-- A request with this header and the body `{}`. -/
def requestWith (name value : String) : Request :=
  { Task.emptyRequest with headers := [header name value] }

/-- The requests of two clients, with other credentials, by proxies with other keys. -/
theorem credentials_confidential_two :
    ∃ tr tr' resp, Run (handler Task.sampleEnv .openAI (requestWith "x-api-key" "alice")) tr
        (.ret resp) ∧
      Run (handler Task.sampleEnv .openAI (requestWith "authorization" "Bearer bob")) tr'
        (.ret resp) ∧
      tr.map hideKeys = tr'.map hideKeys := by
  have hr := run_play (answersWith "alice" "sk-1")
    (handler Task.sampleEnv .openAI (requestWith "x-api-key" "alice"))
  have hr' := run_play (answersWith "bob" "sk-2")
    (handler Task.sampleEnv .openAI (requestWith "authorization" "Bearer bob"))
  have hreq : (requestWith "x-api-key" "alice").hideCredentials =
      (requestWith "authorization" "Bearer bob").hideCredentials := rfl
  have hconf := credentials_confidential Task.sampleEnv .openAI hreq hr hr' ?_ ?_
  · have hresp := (hconf.2.1 _).1 rfl
    rw [hresp] at hr'
    exact ⟨_, _, _, hr, hr', hconf.1⟩
  · rintro cfg cfg' ⟨⟩ ⟨⟩
    decide
  · repeat' first | exact .nil | refine .cons (fun _ => rfl) ?_

end Mybro
