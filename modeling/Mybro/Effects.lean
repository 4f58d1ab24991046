import Mathlib.Data.Vector.Basic
import Mybro.Catalog
import Mybro.Http
import Mybro.KeyPool
import Mybro.Lib.Prog

/-!
# What the pipelines do to the world

The effects of the two handlers: the shared state they read and write, the calls they make and wait
for, the clocks, the logs. A handler is a program over these effects; who answers them, and how, is
left open.
-/

namespace Mybro

/-- `TouchResult`. -/
structure TouchResult where
  sessNum : UInt64
  requestCount : UInt64
  tokenIndex : Option ℕ
  isNew : Bool
  deriving DecidableEq

/-- The fields of `ErrorRecord` that `log_upstream_error` does not fill with constants. -/
structure ErrorRecord where
  timestamp : String
  stage : String
  attempt : ℕ
  sessNum : UInt64
  slotName : String
  requestUrl : String
  upstreamUrl : String
  status : ℕ
  statusText : String
  body : Value

/-- Where a handler can panic; the release profile aborts the process. -/
inductive Panic
  | slice
  | index
  deriving DecidableEq

/-- The effects of the handlers. -/
inductive Eff
  | config
  | catalog
  | keypoolTotal
  | acquireKey (preferred : Option ℕ)
  | markHealthy (index : ℕ)
  | markUnhealthy (index status : ℕ)
  | gateAcquire
  | bumpThrottled
  | touch (fp : String)
  | track (fp : String) (tokenIndex : ℕ)
  | analyzeImages (dataUris : List String) (key : String) (cfg : Config)
  | send (call : UpstreamCall)
  | readBody
  | sleep (ms : ℕ)
  | instant
  | unixMillis
  | localTime
  | record (r : RequestRecord)
  | logError (r : ErrorRecord)
  | info (line : String)
  | abort (site : Panic)

/-- What an effect is answered by. A body that cannot be read is `none`; clocks are in nanoseconds
unless they say otherwise; a panic is not answered. -/
@[reducible] def Answer : Eff → Type
  | .config => Config
  | .catalog => Option Catalog
  | .keypoolTotal => ℕ
  | .acquireKey _ => Option KeySlot
  | .gateAcquire => Bool
  | .touch _ => Option TouchResult
  | .track _ _ => TouchResult
  | .analyzeImages dataUris _ _ => List.Vector String dataUris.length
  | .send _ => Except String Reply
  | .readBody => Option (List UInt8)
  | .instant => ℕ
  | .unixMillis => UInt64
  | .localTime => String
  | .abort _ => Empty
  | _ => Unit

/-- A handler, or a part of one. -/
abbrev Handler (α : Type) := Prog Eff Answer α

/-- Perform one effect. -/
abbrev perform (e : Eff) : Handler (Answer e) := Prog.perform e

namespace Eff

/-- Whether the handler is suspended while the effect is under way. -/
def Suspends : Eff → Prop
  | .gateAcquire | .analyzeImages _ _ _ | .send _ | .readBody | .sleep _ => True
  | _ => False

/-- Whether the effect is a call to upstream. -/
def IsUpstream : Eff → Prop
  | .analyzeImages _ _ _ | .send _ => True
  | _ => False

instance : DecidablePred Suspends := fun e => by cases e <;> unfold Suspends <;> infer_instance

instance : DecidablePred IsUpstream := fun e => by cases e <;> unfold IsUpstream <;> infer_instance

end Eff

/-- A step taken only under a condition. -/
def doIf (c : Prop) [Decidable c] (p : Handler Unit) : Handler Unit := if c then p else pure ()

/-- The value, or a panic. -/
def orPanic {α : Type} (site : Panic) : Option α → Handler α
  | some a => pure a
  | none => .vis (.abort site) fun e => nomatch e

end Mybro
