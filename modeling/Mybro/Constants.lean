import Mathlib.Init

/-!
# Constants

The constants of `constants.rs` and `gate.rs` that the modelled code reads. Durations are in
nanoseconds, the unit of every clock reading of the model.
-/

namespace Mybro

/-- `MAX_RETRIES`: upstream calls made for one chat request. -/
def maxRetries : Nat := 10

/-- `MAX_QUEUE_SIZE`: requests that may wait for the gate. -/
def maxQueueSize : UInt64 := 256

/-- `DEFAULT_CONCURRENCY_LIMIT`: the gate's limit when upstream reports none. -/
def defaultConcurrencyLimit : Nat := 4

/-- `n` seconds as a duration. -/
def seconds (n : Nat) : Nat := n * 1000000000

/-- `CONVERSATION_MAP_MAX`: sessions that are remembered. -/
def conversationMapMax : Nat := 10000

/-- `USAGE_CACHE_TTL`. -/
def usageCacheTtl : Nat := seconds 300

/-- `HANDOFF_CACHE_SIZE`. -/
def handoffCacheSize : Nat := 50

/-- `DEFAULT_HANDOFF_PROMPT`. -/
def defaultHandoffPrompt : String :=
  "You are an image captioning module. Your output is fed verbatim into another model " ++
    "as the sole visual content of the image — it cannot see the image itself, only your " ++
    "text.\n\n" ++
    "Produce a factual, third-person description of the image contents. Do NOT use first " ++
    "person (\"I see...\"). Do NOT address the reader. Do NOT speculate about what the " ++
    "user wants.\n\n" ++
    "Cover:\n" ++
    "- Type of image (screenshot, photograph, diagram, UI, log, etc.) and overall layout\n" ++
    "- All visible elements (objects, UI widgets, people, regions) and their spatial " ++
    "arrangement\n" ++
    "- Exact transcription of any visible text, code, or labels (use quotes)\n" ++
    "- Salient technical details (file paths, error messages, colors, dimensions, " ++
    "filenames)\n\n" ++
    "Write as a single coherent description, not a bulleted list. Be thorough but " ++
    "concise."

end Mybro
