import Mybro.ConfigJson
import Mybro.Effects

/-!
# The error log file (`errlog.rs`, `routes/`)

`ErrorLog::log_error` writes a line, the record as JSON with a line for every field, and an empty
line, and it holds the lock of the file meanwhile. `logFile_prefix_iff`: whatever the error bodies
and names hold, the file tells the records, in their order.
-/

namespace Mybro

open JsonSyntax
open Value

/-! ### What is written -/

/-- `RequestLog` as `log_upstream_error` fills it. -/
def requestLog (url : String) : Value :=
  object [("method", string "POST"), ("url", string url), ("headers", object []),
    ("body", string "[redacted]")]

/-- `UpstreamLog` as `log_upstream_error` fills it. -/
def ErrorRecord.upstreamLog (r : ErrorRecord) : Value :=
  object [("url", string r.upstreamUrl), ("method", string "POST"), ("headers", object []),
    ("status", natValue r.status), ("statusText", string r.statusText), ("body", r.body)]

/-- `ErrorRecord` as JSON; the members are in the order of the fields. -/
def ErrorRecord.toValue (r : ErrorRecord) : Value :=
  object [("timestamp", string r.timestamp), ("errorType", string "upstream_http_error"),
    ("stage", string r.stage), ("attempt", natValue r.attempt),
    ("sessNum", number (.posInt r.sessNum)), ("slotName", string r.slotName),
    ("request", requestLog r.requestUrl), ("upstream", r.upstreamLog)]

/-- The line in front of a record. -/
def errorLine : List Char := "--- HTTP ERROR ---\n".toList

/-- `log_error`: what is written to the file. -/
def logError (r : ErrorRecord) : List Char :=
  errorLine ++ (pretty 0 r.toValue ++ ['\n', '\n'])

/-- The file after some records. -/
def logFile (rs : List ErrorRecord) : List Char := rs.flatMap logError

/-! ### What can be told from the file -/

/-- The attempt is a `u32` and the status a `u16`, and the numbers in the body are those of JSON. -/
structure ErrorRecord.Loggable (r : ErrorRecord) : Prop where
  attempt : r.attempt < 2 ^ 32
  status : r.status < 2 ^ 16
  isJson : r.body.isJson = true
  proper : r.body.proper = true

theorem ErrorRecord.Loggable.isJson_toValue {r : ErrorRecord} (h : r.Loggable) :
    r.toValue.isJson = true := by
  simp only [toValue, upstreamLog, requestLog, natValue, Value.isJson, membersIsJson,
    Number.isJson, h.isJson, Bool.and_self]

theorem ErrorRecord.Loggable.proper_toValue {r : ErrorRecord} (h : r.Loggable) :
    r.toValue.proper = true := by
  simp only [toValue, upstreamLog, requestLog, natValue, Value.proper, membersProper,
    Number.proper, h.proper, Bool.and_self]

theorem natValue_inj {m n : ℕ} (hm : m < 2 ^ 64) (hn : n < 2 ^ 64)
    (h : natValue m = natValue n) : m = n := by
  have heq : UInt64.ofNat m = UInt64.ofNat n := Number.posInt.inj (Value.number.inj h)
  rw [← UInt64.toNat_ofNat_of_lt' hm, heq, UInt64.toNat_ofNat_of_lt' hn]

/-- Every field of the record is in its JSON. -/
theorem ErrorRecord.toValue_inj {r s : ErrorRecord} (hr : r.Loggable) (hs : s.Loggable)
    (h : r.toValue = s.toValue) : r = s := by
  have hattempt := natValue_inj (m := r.attempt) (n := s.attempt)
    (hr.attempt.trans (by decide)) (hs.attempt.trans (by decide))
  have hstatus := natValue_inj (m := r.status) (n := s.status)
    (hr.status.trans (by decide)) (hs.status.trans (by decide))
  cases r
  cases s
  simp only [toValue, upstreamLog, requestLog, Value.object.injEq, List.cons.injEq, Prod.mk.injEq,
    Value.string.injEq, Value.number.injEq, Number.posInt.injEq, true_and, and_true] at h
  obtain ⟨rfl, rfl, hattempt', rfl, rfl, rfl, rfl, hstatus', rfl, rfl⟩ := h
  obtain rfl := hattempt hattempt'
  obtain rfl := hstatus hstatus'
  rfl

theorem logError_append_inj {r s : ErrorRecord} (hr : r.Loggable) (hs : s.Loggable)
    {a b : List Char} (h : logError r ++ a = logError s ++ b) : r = s ∧ a = b := by
  have hstops : ∀ c, Stops (['\n', '\n'] ++ c) := by
    rintro c _ ⟨⟩
    rfl
  simp only [logError, List.append_assoc] at h
  have h := List.append_cancel_left h
  obtain ⟨hvalue, hrest⟩ := pretty_append_inj hr.isJson_toValue hs.isJson_toValue hr.proper_toValue
    hs.proper_toValue (hstops a) (hstops b) h
  exact ⟨ErrorRecord.toValue_inj hr hs hvalue, List.append_cancel_left hrest⟩

/-- **A log goes on where another one ended exactly when its records do**: no text in a record is
taken for the end of it or for another record. -/
theorem logFile_prefix_iff {rs ss : List ErrorRecord} (hrs : ∀ r ∈ rs, r.Loggable)
    (hss : ∀ s ∈ ss, s.Loggable) : logFile rs <+: logFile ss ↔ rs <+: ss := by
  constructor
  · rintro ⟨rest, hrest⟩
    induction rs generalizing ss with
    | nil => exact List.nil_prefix
    | cons r rs ih =>
      cases ss with
      | nil => cases hrest
      | cons s ss =>
        rw [List.forall_mem_cons] at hrs hss
        rw [logFile, logFile, List.flatMap_cons, List.flatMap_cons, List.append_assoc] at hrest
        obtain ⟨rfl, htail⟩ := logError_append_inj hrs.1 hss.1 hrest
        exact (List.prefix_cons_inj r).2 (ih hrs.2 hss.2 htail)
  · rintro ⟨ss, rfl⟩
    exact ⟨logFile ss, List.flatMap_append.symm⟩

/-- A record with a text as its body. -/
def recordOf (body : String) : ErrorRecord where
  timestamp := "2024-01-01T00:00:00+00:00"
  stage := "final_attempt"
  attempt := 1
  sessNum := 1
  slotName := "Key 1"
  requestUrl := "/v1/messages"
  upstreamUrl := "https://api.code.umans.ai/v1"
  status := 400
  statusText := "Bad Request"
  body := string body

theorem loggable_recordOf (body : String) : (recordOf body).Loggable :=
  ⟨Nat.le_of_ble_eq_true rfl, Nat.le_of_ble_eq_true rfl, rfl, rfl⟩

/-- A text that looks like the end of a record and the beginning of another one. -/
def forgedBody : String := "\"\n\x7d\n\n--- HTTP ERROR ---\n"

theorem logFile_prefix_iff_forged :
    ¬ logFile [recordOf forgedBody] <+: logFile [recordOf "", recordOf ""] := by
  have hall : ∀ bodies : List String, ∀ r ∈ bodies.map recordOf, r.Loggable := by
    intro bodies r hr
    obtain ⟨body, -, rfl⟩ := List.mem_map.1 hr
    exact loggable_recordOf body
  intro h
  have hrecords := (logFile_prefix_iff (hall [forgedBody]) (hall ["", ""])).1 h
  have hbody := congrArg ErrorRecord.body (List.cons_prefix_cons.1 hrecords).1
  exact absurd (Value.string.inj hbody) (by decide)

end Mybro
