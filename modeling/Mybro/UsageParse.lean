import Mybro.Lib.Json

/-!
# Token usage (`usage_parse.rs`)

Reading the usage block of a reply, and the accumulator that reads it out of an event stream while
the chunks pass. Token counts are machine words; `parse` stands for the JSON parser.
-/

namespace Mybro

open Value

/-- `Usage`. -/
structure Usage where
  tokensIn : UInt64 := 0
  tokensOut : UInt64 := 0
  cached : UInt64 := 0
  creation : UInt64 := 0
  deriving DecidableEq, Repr

/-- `Usage::merge`. -/
def Usage.merge (u other : Usage) : Usage where
  tokensIn := max u.tokensIn other.tokensIn
  tokensOut := max u.tokensOut other.tokensOut
  cached := max u.cached other.cached
  creation := max u.creation other.creation

/-- `field`. -/
def field (u : Value) (key : String) : UInt64 := ((u.get key).bind asU64).getD 0

/-- `from_openai_usage`. -/
def fromOpenaiUsage (u : Value) : Usage :=
  let details := u.get "prompt_tokens_details"
  { tokensIn := field u "prompt_tokens"
    tokensOut := field u "completion_tokens"
    cached := (details.map fun d => field d "cached_tokens").getD 0
    creation := (details.map fun d => field d "cache_creation_tokens").getD 0 }

/-- `from_anthropic_usage`; the sum wraps. -/
def fromAnthropicUsage (u : Value) : Usage :=
  let cached := field u "cache_read_input_tokens"
  let creation := field u "cache_creation_input_tokens"
  { tokensIn := field u "input_tokens" + cached + creation
    tokensOut := field u "output_tokens"
    cached := cached
    creation := creation }

/-- `extract_usage_from_value`. -/
def extractUsageFromValue (v : Value) : Usage :=
  match (v.get "message").bind fun m => m.get "usage" with
  | some u => fromAnthropicUsage u
  | none =>
    match v.get "usage" with
    | none => {}
    | some u =>
      if (u.get "prompt_tokens").isSome || (u.get "completion_tokens").isSome then fromOpenaiUsage u
      else fromAnthropicUsage u

/-- `extract_usage`. -/
def extractUsage (parse : List UInt8 → Except String Value) (body : List UInt8) : Usage :=
  match parse body with
  | .ok v => extractUsageFromValue v
  | .error _ => {}

/-- `SseUsageAccumulator`. -/
structure SseUsageAccumulator where
  lineBuf : List UInt8 := []
  usage : Usage := {}
  deriving DecidableEq, Repr

/-- The complete lines of a buffer, each with its newline, and what follows the last newline. -/
def completeLines : List UInt8 → List (List UInt8) × List UInt8
  | [] => ([], [])
  | b :: bs =>
    if b = 10 then ([b] :: (completeLines bs).1, (completeLines bs).2)
    else
      match completeLines bs with
      | (l :: ls, rest) => ((b :: l) :: ls, rest)
      | ([], rest) => ([], b :: rest)

/-- The usage a line adds to the one so far. -/
def processLine (parse : List UInt8 → Except String Value) (usage : Usage) (line : List UInt8) :
    Usage :=
  match (Utf8.decode line).bind fun s => Utf8.stripStart "data:" (Utf8.trim s) with
  | none => usage
  | some rest =>
    let payload := Utf8.trim rest
    if payload = "" ∨ payload = "[DONE]" then usage
    else
      match parse (Utf8.encode payload) with
      | .ok v => usage.merge (extractUsageFromValue v)
      | .error _ => usage

/-- `SseUsageAccumulator::ingest`. -/
def SseUsageAccumulator.ingest (parse : List UInt8 → Except String Value)
    (a : SseUsageAccumulator) (chunk : List UInt8) : SseUsageAccumulator :=
  let lines := completeLines (a.lineBuf ++ chunk)
  { lineBuf := lines.2, usage := lines.1.foldl (processLine parse) a.usage }

/-- `SseUsageAccumulator::finish`. -/
def SseUsageAccumulator.finish (parse : List UInt8 → Except String Value)
    (a : SseUsageAccumulator) : Usage :=
  if a.lineBuf = [] then a.usage else processLine parse a.usage a.lineBuf

end Mybro
