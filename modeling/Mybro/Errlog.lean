import Mybro.Lib.Lowercase
import Mybro.Messages

/-!
# The error log (`errlog.rs`, `routes/chat.rs`, `routes/messages.rs`)

The keys whose values must not reach the log, and what `log_upstream_error` of both pipelines makes
of two upstream bodies that differ in such values only.
-/

namespace Mybro

open Prog Value

/-! ### Sensitive keys -/

/-- The keys of `redact_value_in_place`, in lower case. -/
def sensitiveKeys : List String :=
  ["api_key", "apikey", "token", "password", "secret", "authorization"]

/-- Whether a value under this key is sensitive. -/
def isSensitive (k : String) : Bool :=
  sensitiveKeys.contains (String.ofList (k.toList.map CaseTables.lowerChar))

mutual

/-- The two values differ in nothing but values under a sensitive key, at any depth. -/
def SameButSensitive : Value → Value → Prop
  | array xs, array ys => elementsSame xs ys
  | object m, object n => membersSame m n
  | v, w => v = w
termination_by structural v => v

def elementsSame : List Value → List Value → Prop
  | [], [] => True
  | v :: vs, w :: ws => SameButSensitive v w ∧ elementsSame vs ws
  | _, _ => False
termination_by structural vs => vs

def membersSame : List (String × Value) → List (String × Value) → Prop
  | [], [] => True
  | (k, v) :: m, (k', w) :: n =>
    k = k' ∧ (isSensitive k = true ∨ SameButSensitive v w) ∧ membersSame m n
  | _, _ => False
termination_by structural m => m

end

mutual

/-- Whether a value has no member under a sensitive key, at any depth. -/
def noSensitive : Value → Bool
  | array xs => elementsNoSensitive xs
  | object m => membersNoSensitive m
  | _ => true
termination_by structural v => v

def elementsNoSensitive : List Value → Bool
  | [] => true
  | v :: vs => noSensitive v && elementsNoSensitive vs
termination_by structural vs => vs

def membersNoSensitive : List (String × Value) → Bool
  | [] => true
  | (k, v) :: m => !isSensitive k && noSensitive v && membersNoSensitive m
termination_by structural m => m

end

mutual

/-- Without sensitive members there is nothing to differ in. -/
theorem eq_of_noSensitive : ∀ v w : Value, noSensitive v = true → SameButSensitive v w → v = w
  | array xs, w, hv, h => by
    cases w with
    | array ys => rw [elements_eq_of_noSensitive xs ys hv h]
    | _ => exact h
  | object m, w, hv, h => by
    cases w with
    | object n => rw [members_eq_of_noSensitive m n hv h]
    | _ => exact h
  | null, _, _, h => h
  | .bool _, _, _, h => h
  | number _, _, _, h => h
  | string _, _, _, h => h

theorem elements_eq_of_noSensitive : ∀ vs ws : List Value, elementsNoSensitive vs = true →
    elementsSame vs ws → vs = ws
  | [], [], _, _ => rfl
  | [], _ :: _, _, h => h.elim
  | _ :: _, [], _, h => h.elim
  | v :: vs, w :: ws, hv, h => by
    rw [elementsNoSensitive, Bool.and_eq_true] at hv
    rw [eq_of_noSensitive v w hv.1 h.1, elements_eq_of_noSensitive vs ws hv.2 h.2]

theorem members_eq_of_noSensitive : ∀ m n : List (String × Value), membersNoSensitive m = true →
    membersSame m n → m = n
  | [], [], _, _ => rfl
  | [], _ :: _, _, h => h.elim
  | _ :: _, [], _, h => h.elim
  | (k, v) :: m, (k', w) :: n, hv, h => by
    rw [membersNoSensitive, Bool.and_eq_true, Bool.and_eq_true, Bool.not_eq_true'] at hv
    obtain ⟨rfl, hvalue, hrest⟩ := h
    rcases hvalue with hk | hvalue
    · rw [hv.1.1] at hk
      cases hk
    · rw [eq_of_noSensitive v w hv.1.2 hvalue, members_eq_of_noSensitive m n hv.2 hrest]

end

/-! ### What is logged -/

/-- The record of `log_upstream_error`. -/
def errorRecord (env : Env) (stage url : String) (attempt : ℕ) (sessNum : UInt64)
    (slotName : String) (status : ℕ) (timestamp : String) (body : Value) : ErrorRecord where
  timestamp := timestamp
  stage := stage
  attempt := attempt
  sessNum := sessNum
  slotName := slotName
  requestUrl := url
  upstreamUrl := env.base
  status := status
  statusText := (env.canonicalReason status).getD ""
  body := body

/-- Two programs that are answered in the same way, the clock included, log the same records. -/
def SameRecords (p q : Handler Unit) : Prop :=
  ∀ tr r r' k k', Run p tr (vis (.logError r) k) → Run q tr (vis (.logError r') k') → r = r'

section

variable {env : Env} {stage url slotName : String} {attempt status : ℕ} {sessNum : UInt64}
  {errorBody errorBody' : String} {v w : Value}

theorem logUpstreamError_eq (hv : env.fromSlice (Utf8.encode errorBody) = .ok v) :
    logUpstreamError env stage url attempt sessNum slotName status errorBody =
      perform .localTime >>= fun timestamp => perform (.logError
        (errorRecord env stage url attempt sessNum slotName status timestamp v)) := by
  unfold logUpstreamError
  rw [hv]
  rfl

/-- The only record it logs, and when. -/
theorem run_logUpstreamError (hv : env.fromSlice (Utf8.encode errorBody) = .ok v)
    {tr : Trace Answer} {r : ErrorRecord} {k : Answer (.logError r) → Handler Unit}
    (h : Run (logUpstreamError env stage url attempt sessNum slotName status errorBody) tr
      (vis (.logError r) k)) :
    ∃ timestamp, tr = [⟨.localTime, timestamp⟩] ∧
      r = errorRecord env stage url attempt sessNum slotName status timestamp v := by
  rw [logUpstreamError_eq hv] at h
  cases h with
  | cons timestamp h =>
    cases h with
    | nil => exact ⟨timestamp, rfl, rfl⟩
    | cons _ h => cases h

/-- **The body of the record is the upstream body as it came.** -/
theorem sameRecords_logUpstreamError (hv : env.fromSlice (Utf8.encode errorBody) = .ok v)
    (hw : env.fromSlice (Utf8.encode errorBody') = .ok w) :
    SameRecords (logUpstreamError env stage url attempt sessNum slotName status errorBody)
      (logUpstreamError env stage url attempt sessNum slotName status errorBody') ↔ v = w := by
  constructor
  · intro h
    have hrun : ∀ {body : String} {x : Value}, env.fromSlice (Utf8.encode body) = .ok x →
        Run (logUpstreamError env stage url attempt sessNum slotName status body)
          [⟨.localTime, ""⟩] (vis (.logError
            (errorRecord env stage url attempt sessNum slotName status "" x)) Prog.ret) := by
      intro body x hx
      rw [logUpstreamError_eq hx]
      exact .cons (show Answer .localTime from "") (.nil _)
    exact congrArg ErrorRecord.body (h _ _ _ _ _ (hrun hv) (hrun hw))
  · rintro rfl tr r r' k k' hr hr'
    obtain ⟨timestamp, rfl, rfl⟩ := run_logUpstreamError hv hr
    obtain ⟨timestamp', htr, rfl⟩ := run_logUpstreamError hw hr'
    cases htr
    rfl

end

/-- **In both pipelines, the records of two JSON bodies are the same exactly when the bodies are**,
whatever they differ in; bodies that differ in sensitive members only are, when there is none. -/
theorem records_same_iff {c : ChatCall} {d : MessagesCall} {errorBody errorBody' : String}
    {v w : Value} (henv : d.env = c.env)
    (hv : c.env.fromSlice (Utf8.encode errorBody) = .ok v)
    (hw : c.env.fromSlice (Utf8.encode errorBody') = .ok w) (attempt status : ℕ) (slot : KeySlot) :
    (SameRecords (chatLogError c attempt slot status errorBody)
        (chatLogError c attempt slot status errorBody') ↔ v = w) ∧
      (SameRecords (messagesLogError d status errorBody) (messagesLogError d status errorBody') ↔
        v = w) ∧
      (noSensitive v = true → SameButSensitive v w → v = w) := by
  refine ⟨sameRecords_logUpstreamError hv hw, ?_, eq_of_noSensitive v w⟩
  rw [← henv] at hv hw
  exact sameRecords_logUpstreamError hv hw

/-! ### Samples -/

/-- An error body with a token. -/
def tokenBody (token : String) : Value := object [("token", string token)]

/-- A parser that knows two such bodies. -/
def parseToken (bytes : List UInt8) : Except String Value :=
  if bytes = (tokenBody "a").toVec then .ok (tokenBody "a")
  else if bytes = (tokenBody "b").toVec then .ok (tokenBody "b")
  else .error "expected value at line 1 column 1"

def tokenEnv : Env := { envParsing (tokenBody "a") [] with fromSlice := parseToken }

theorem toVec_tokenBody : (tokenBody "b").toVec ≠ (tokenBody "a").toVec := by decide

theorem parseToken_a : parseToken (tokenBody "a").toVec = .ok (tokenBody "a") := if_pos rfl

theorem parseToken_b : parseToken (tokenBody "b").toVec = .ok (tokenBody "b") :=
  (if_neg toVec_tokenBody).trans (if_pos rfl)

/-- A call of each handler. -/
def tokenChat : ChatCall := ⟨tokenEnv, "m", 1, false, [], "none", 0⟩

def tokenMessages : MessagesCall := ⟨tokenEnv, "m", 1, ⟨0, "k", "Key 1"⟩, 0⟩

/-- Two bodies that differ in a token are logged with the token. -/
theorem token_is_logged :
    SameButSensitive (tokenBody "a") (tokenBody "b") ∧
      ¬ SameRecords (chatLogError tokenChat 1 ⟨0, "k", "Key 1"⟩ 400 (tokenBody "a").text)
        (chatLogError tokenChat 1 ⟨0, "k", "Key 1"⟩ 400 (tokenBody "b").text) ∧
      ¬ SameRecords (messagesLogError tokenMessages 400 (tokenBody "a").text)
        (messagesLogError tokenMessages 400 (tokenBody "b").text) := by
  have hne : tokenBody "a" ≠ tokenBody "b" := fun h => toVec_tokenBody (by rw [h])
  refine ⟨⟨rfl, Or.inl (by decide), trivial⟩, fun h => ?_, fun h => ?_⟩
  · exact hne ((sameRecords_logUpstreamError parseToken_a parseToken_b).1 h)
  · exact hne ((sameRecords_logUpstreamError parseToken_a parseToken_b).1 h)

/-- A parser that also knows the first body with a space before it. -/
def parseSpaced (bytes : List UInt8) : Except String Value :=
  if bytes = Utf8.encode (" " ++ (tokenBody "a").text) then .ok (tokenBody "a")
  else parseToken bytes

def spacedEnv : Env := { tokenEnv with fromSlice := parseSpaced }

/-- Two texts of one body are logged alike. -/
theorem records_same_iff_spaced :
    SameRecords
        (chatLogError { tokenChat with env := spacedEnv } 1 ⟨0, "k", "Key 1"⟩ 400
          (tokenBody "a").text)
        (chatLogError { tokenChat with env := spacedEnv } 1 ⟨0, "k", "Key 1"⟩ 400
          (" " ++ (tokenBody "a").text)) ∧
      SameRecords
        (messagesLogError { tokenMessages with env := spacedEnv } 400 (tokenBody "a").text)
        (messagesLogError { tokenMessages with env := spacedEnv } 400
          (" " ++ (tokenBody "a").text)) := by
  have hne : Utf8.encode (tokenBody "a").text ≠ Utf8.encode (" " ++ (tokenBody "a").text) := by
    decide
  have ha : parseSpaced (Utf8.encode (tokenBody "a").text) = .ok (tokenBody "a") := by
    rw [parseSpaced, if_neg hne]
    exact parseToken_a
  have hb : parseSpaced (Utf8.encode (" " ++ (tokenBody "a").text)) = .ok (tokenBody "a") :=
    if_pos rfl
  obtain ⟨hchat, hmessages, -⟩ := @records_same_iff { tokenChat with env := spacedEnv }
    { tokenMessages with env := spacedEnv } (tokenBody "a").text (" " ++ (tokenBody "a").text)
    (tokenBody "a") (tokenBody "a") rfl ha hb 1 400 ⟨0, "k", "Key 1"⟩
  exact ⟨hchat.2 rfl, hmessages.2 rfl⟩

end Mybro
