import Mybro.HandoffCache

/-!
# What an analysis stores (`vision.rs`)

One analysis against one reply of the handoff model, whatever that is: an error of the network, any
status, a body that cannot be read or parsed, any JSON value. Its text should be stored and
returned; where there is none, nothing should be stored and the failure be told. `storesText_iff`
says for which replies that is so: all but a successful JSON without text, whose empty description
is stored.
-/

namespace Mybro

open Prog Value HandoffWorld

/-- The text of the first choice's message: a string, or the texts of parts, if any has one. -/
def messageText (resp : Value) : Option String :=
  match ((((resp.get "choices").bind asArray).bind fun xs : List Value => xs[0]?).bind
      fun c : Value => c.get "message").bind fun m : Value => m.get "content" with
  | some (.string s) => some s
  | some (.array parts) =>
    if parts.any fun p => (p.getStr "text").isSome then some (joinTexts parts) else none
  | _ => none

/-- Without a text, nothing is joined. -/
theorem joinTexts_eq_empty {parts : List Value}
    (h : (parts.any fun p => (p.getStr "text").isSome) = false) : joinTexts parts = "" := by
  have hnone : (parts.filterMap fun p => p.getStr "text") = [] := by
    rw [List.filterMap_eq_nil_iff]
    intro p hp
    have htext := List.any_eq_false.1 h p hp
    rwa [Bool.not_eq_true, Option.isSome_eq_false_iff, Option.isNone_iff_eq_none] at htext
  rw [joinTexts, hnone]
  rfl

/-- Without a text, the description is empty. -/
theorem extractChatContent_eq (resp : Value) :
    extractChatContent resp = (messageText resp).getD "" := by
  unfold extractChatContent messageText
  generalize (((((resp.get "choices").bind asArray).bind fun xs : List Value => xs[0]?).bind
      fun c : Value => c.get "message").bind fun m : Value => m.get "content") = content
  cases content with
  | none => rfl
  | some v =>
    cases v with
    | array parts =>
      cases hany : parts.any fun p => (p.getStr "text").isSome with
      | true => simp [hany]
      | false => simp [hany, joinTexts_eq_empty hany]
    | _ => rfl

section

variable (env : Env)

/-- The JSON of a successful reply. -/
def replyJson (reply : Except String VisionReply) : Option Value :=
  match reply with
  | .ok resp =>
    match isSuccess resp.status, resp.body with
    | true, .ok bytes => (env.fromSlice bytes).toOption
    | _, _ => none
  | .error _ => none

/-- The text in a reply. -/
def replyText (reply : Except String VisionReply) : Option String :=
  (replyJson env reply).bind messageText

/-- A successful JSON without text. -/
def Wordless (reply : Except String VisionReply) : Prop :=
  ∃ v, replyJson env reply = some v ∧ messageText v = none

/-- The text stands for a failed analysis. -/
def TellsFailure (text : String) : Prop := ∃ detail, text = "[Image analysis failed" ++ detail

/-- What an analysis reads in a reply: a description if that is a JSON that succeeded, or else a
text that stands for the failure. -/
theorem readDescription_cases (reply : Except String VisionReply) :
    (∃ v, replyJson env reply = some v ∧
      readDescription env reply = .ok ((messageText v).getD "")) ∨
    (replyJson env reply = none ∧
      ∃ text, readDescription env reply = .error text ∧ TellsFailure text) := by
  unfold replyJson readDescription
  cases reply with
  | error e =>
    refine Or.inr ⟨rfl, _, rfl, ": " ++ e ++ "]", ?_⟩
    rw [← String.append_assoc, ← String.append_assoc]
    rfl
  | ok resp =>
    cases hsuccess : isSuccess resp.status with
    | false =>
      refine Or.inr ⟨by simp [hsuccess],
        "[Image analysis failed: HTTP " ++ displayStatus env resp.status ++ "]",
        by simp [hsuccess], ": HTTP " ++ displayStatus env resp.status ++ "]", ?_⟩
      rw [← String.append_assoc, ← String.append_assoc]
      rfl
    | true =>
      cases hbody : resp.body with
      | error e =>
        refine Or.inr ⟨by simp [hsuccess, hbody], "[Image analysis failed: " ++ e ++ "]",
          by simp [hsuccess, hbody], ": " ++ e ++ "]", ?_⟩
        rw [← String.append_assoc, ← String.append_assoc]
        rfl
      | ok bytes =>
        cases hparse : env.fromSlice bytes with
        | error e =>
          refine Or.inr ⟨by simp [hsuccess, hbody, hparse, Except.toOption],
            "[Image analysis failed: parse error: " ++ e ++ "]",
            by simp [hsuccess, hbody, hparse], ": parse error: " ++ e ++ "]", ?_⟩
          rw [← String.append_assoc, ← String.append_assoc]
          rfl
        | ok v =>
          refine Or.inl ⟨v, by simp [hsuccess, hbody, hparse, Except.toOption], ?_⟩
          simp [hsuccess, hbody, hparse, extractChatContent_eq]

/-! ### One analysis -/

/-- The effects of an analysis that gets a reply: the cache is asked at one time and written at
another. -/
def answerWith (cfg : Config) (asked written : ℕ) (reply : Except String VisionReply) :
    (e : VisionEff) → HandoffCache → Option (VisionAnswer e × HandoffCache)
  | .loadConfig, c => some (cfg, c)
  | .cacheGet digest, c => some (c.get asked digest)
  | .cacheSet digest desc, c => some ((), c.set written digest desc)
  | .chatCompletions _ _, c => some (reply, c)

variable (sha256 : String → List UInt8)

/-- The cache after the check for an image. -/
def afterCheck (c : HandoffCache) (asked : ℕ) (dataUri : String) (cached : Bool) : HandoffCache :=
  if cached then (c.get asked (sha256 dataUri)).2 else c

/-- **What an analysis should do with a reply**: a text is returned, and stored if there is a cache;
without one the failure is told and nothing stored. -/
def StoresText (c : HandoffCache) (written : ℕ) (dataUri : String) (cached : Bool)
    (reply : Except String VisionReply) (result : Option (String × HandoffCache)) : Prop :=
  ∃ text c', result = some (text, c') ∧
    match replyText env reply with
    | some desc => text = desc ∧ c' = if cached then c.set written (sha256 dataUri) desc else c
    | none => TellsFailure text ∧ c' = c

variable {env sha256}

/-- An analysis that the cache does not answer. -/
theorem exec_analyzeImage (c : HandoffCache) (asked written : ℕ) (dataUri key : String)
    (cfg : Config) (cached : Bool) (reply : Except String VisionReply)
    (hmiss : cached = true → (c.get asked (sha256 dataUri)).1 = none) :
    exec (answerWith cfg asked written reply) (analyzeImage env sha256 dataUri key cfg cached) c =
      some (match readDescription env reply with
        | .ok desc => (desc, if cached then
            (afterCheck sha256 c asked dataUri cached).set written (sha256 dataUri) desc
          else afterCheck sha256 c asked dataUri cached)
        | .error text => (text, afterCheck sha256 c asked dataUri cached)) := by
  unfold analyzeImage afterCheck
  cases cached with
  | true =>
    rw [if_pos rfl, if_pos rfl, visionAct, exec_perform_bind]
    show exec _ (orAsk env sha256 dataUri key cfg (c.get asked (sha256 dataUri)).1)
      (c.get asked (sha256 dataUri)).2 = _
    rw [hmiss rfl]
    show exec _ (askVision env sha256 dataUri key cfg true) _ = _
    unfold askVision
    rw [visionAct, exec_perform_bind]
    show exec _ (match readDescription env reply with
      | .ok desc => _
      | .error text => pure text) _ = _
    cases readDescription env reply <;> rfl
  | false =>
    show exec _ (askVision env sha256 dataUri key cfg false) _ = _
    unfold askVision
    rw [visionAct, exec_perform_bind]
    show exec _ (match readDescription env reply with
      | .ok desc => _
      | .error text => pure text) _ = _
    cases readDescription env reply <;> rfl

theorem not_tellsFailure_empty : ¬ TellsFailure "" := by
  rintro ⟨detail, h⟩
  have hlen := congrArg String.length h
  rw [String.length_append] at hlen
  exact absurd hlen (by
    rw [show "[Image analysis failed".length = 22 from rfl, show "".length = 0 from rfl]
    omega)

/-- For a successful JSON without text, an empty description is returned. -/
theorem not_storesText {c : HandoffCache} {asked written : ℕ} {dataUri key : String} {cfg : Config}
    {cached : Bool} {reply : Except String VisionReply}
    (hmiss : cached = true → (c.get asked (sha256 dataUri)).1 = none) (h : Wordless env reply) :
    ¬ StoresText env sha256 (afterCheck sha256 c asked dataUri cached) written dataUri cached reply
      (exec (answerWith cfg asked written reply)
        (analyzeImage env sha256 dataUri key cfg cached) c) := by
  obtain ⟨v, hjson, htext⟩ := h
  rw [exec_analyzeImage c asked written dataUri key cfg cached reply hmiss]
  unfold StoresText replyText
  rcases readDescription_cases env reply with ⟨v', hjson', hread⟩ | ⟨hnone, -⟩
  · rw [hjson] at hjson'
    cases hjson'
    rw [hjson, hread, Option.bind_some, htext]
    rintro ⟨text, c', ⟨⟩, htells, -⟩
    exact not_tellsFailure_empty htells
  · rw [hjson] at hnone
    cases hnone

/-- **An analysis that the cache does not answer does with the reply what it should, unless the
reply is a successful JSON without text.** -/
theorem storesText_iff (c : HandoffCache) (asked written : ℕ) (dataUri key : String) (cfg : Config)
    (cached : Bool) (reply : Except String VisionReply)
    (hmiss : cached = true → (c.get asked (sha256 dataUri)).1 = none) :
    StoresText env sha256 (afterCheck sha256 c asked dataUri cached) written dataUri cached reply
      (exec (answerWith cfg asked written reply)
        (analyzeImage env sha256 dataUri key cfg cached) c) ↔ ¬ Wordless env reply := by
  refine ⟨fun hstores hwordless => not_storesText hmiss hwordless hstores, fun hwords => ?_⟩
  rw [exec_analyzeImage c asked written dataUri key cfg cached reply hmiss]
  unfold StoresText replyText
  rcases readDescription_cases env reply with ⟨v, hjson, hread⟩ | ⟨hjson, text, hread, htells⟩
  · rw [hjson, hread, Option.bind_some]
    cases htext : messageText v with
    | some desc => exact ⟨desc, _, rfl, rfl, rfl⟩
    | none => exact absurd ⟨v, hjson, htext⟩ hwords
  · rw [hjson, hread]
    exact ⟨text, _, rfl, htells, rfl⟩

end

/-! #### Two replies -/

theorem replyJson_toVec (v : Value) :
    replyJson (envParsing v []) (.ok ⟨200, .ok v.toVec⟩) = some v := by
  unfold replyJson
  simp only [show isSuccess 200 = true from rfl, fromSlice_envParsing, Except.toOption]

/-- The analysis of an image with an empty cache, for a reply that is a JSON. -/
def analysed (v : Value) : Option (String × HandoffCache) :=
  exec (answerWith cachingConfig 1 2 (.ok ⟨200, .ok v.toVec⟩))
    (analyzeImage (envParsing v []) (fun _ => sampleDigest) sampleUri "sk-1" cachingConfig true)
    (.new 50 1000000)

/-- The result on a chat completion. -/
theorem storesText_cat : StoresText (envParsing (chatReply "a cat") []) (fun _ => sampleDigest)
    (afterCheck (fun _ => sampleDigest) (.new 50 1000000) 1 sampleUri true) 2 sampleUri true
    (.ok ⟨200, .ok (chatReply "a cat").toVec⟩) (analysed (chatReply "a cat")) := by
  refine (storesText_iff _ 1 2 sampleUri "sk-1" cachingConfig true _ fun _ => rfl).2 ?_
  rintro ⟨v, hjson, htext⟩
  rw [replyJson_toVec] at hjson
  cases hjson
  cases htext

/-- A successful `{}` has no text: an empty description is stored for the image. -/
theorem empty_description_stored : ¬ ∀ (env : Env) (sha256 : String → List UInt8)
    (c : HandoffCache) (asked written : ℕ) (dataUri key : String) (cfg : Config) (cached : Bool)
    (reply : Except String VisionReply),
    (cached = true → (c.get asked (sha256 dataUri)).1 = none) →
    StoresText env sha256 (afterCheck sha256 c asked dataUri cached) written dataUri cached reply
      (exec (answerWith cfg asked written reply)
        (analyzeImage env sha256 dataUri key cfg cached) c) := by
  intro h
  refine not_storesText (fun _ => rfl) ?_ (h (envParsing (object (JsonMap.ofList [])) [])
    (fun _ => sampleDigest) (.new 50 1000000) 1 2 sampleUri "sk-1" cachingConfig true
    (.ok ⟨200, .ok (object (JsonMap.ofList [])).toVec⟩) fun _ => rfl)
  exact ⟨_, replyJson_toVec _, rfl⟩

end Mybro
