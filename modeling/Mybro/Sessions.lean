import Mybro.Chat
import Mybro.Lib.Lru
import Mybro.Lib.Runs

/-!
# Conversations and their keys (`sessions.rs`)

The session table, and the turns of conversations that share it with the key pool. A turn is what
`selectKey` does (look the session up, acquire a key, store its index) and the marks and rotations
of the retry loop after it; the turns of all requests in flight interleave, and so do rebuilds of
the pool.
-/

namespace Mybro

open Prog

/-! ### `ConvMap` -/

/-- `Session`. -/
structure Session where
  tokenIndex : ℕ
  requestCount : UInt64
  sessNum : UInt64
  deriving DecidableEq, Repr

/-- `ConvMap`. -/
structure ConvMap where
  sessions : Lru String Session
  counter : UInt64

/-- `EVICT_THRESHOLD`: sessions that an eviction leaves. -/
def evictThreshold : ℕ := 8000

/-- The answer about a session that exists. -/
def Session.touchResult (s : Session) : TouchResult :=
  ⟨s.sessNum, s.requestCount, some s.tokenIndex, false⟩

namespace ConvMap

/-- `ConvMap::new`. -/
def new : ConvMap := ⟨.empty, 0⟩

/-- The session of a fingerprint. -/
def session (m : ConvMap) (fp : String) : Option Session := m.sessions.find fp

/-- `ConvMap::touch`; `get` makes the session the one used last. -/
def touch (m : ConvMap) (fp : String) : Option TouchResult × ConvMap :=
  ((m.session fp).map Session.touchResult, { m with sessions := m.sessions.use fp })

/-- The sessions that stay when a new one comes. -/
def roomy (m : ConvMap) : Lru String Session :=
  if conversationMapMax ≤ m.sessions.size then m.sessions.keep evictThreshold else m.sessions

/-- `ConvMap::track`. -/
def track (m : ConvMap) (fp : String) (tokenIndex : ℕ) : TouchResult × ConvMap :=
  match m.session fp with
  | some s =>
    let s : Session := { s with requestCount := s.requestCount + 1, tokenIndex := tokenIndex }
    (s.touchResult, { m with sessions := m.sessions.put fp s })
  | none =>
    let sessNum := m.counter + 1
    (⟨sessNum, 1, some tokenIndex, true⟩,
      { sessions := m.roomy.put fp ⟨tokenIndex, 1, sessNum⟩, counter := sessNum })

@[simp] theorem session_new (fp : String) : new.session fp = none := rfl

@[simp] theorem session_touch (m : ConvMap) (fp fp' : String) :
    (m.touch fp).2.session fp' = m.session fp' := m.sessions.find_use fp fp'

/-- The session after a `track`: the old one counted on, or a new one. -/
def tracked (m : ConvMap) (fp : String) (tokenIndex : ℕ) : Session :=
  match m.session fp with
  | some s => ⟨tokenIndex, s.requestCount + 1, s.sessNum⟩
  | none => ⟨tokenIndex, 1, m.counter + 1⟩

@[simp] theorem tokenIndex_tracked (m : ConvMap) (fp : String) (tokenIndex : ℕ) :
    (m.tracked fp tokenIndex).tokenIndex = tokenIndex := by
  unfold tracked
  cases m.session fp <;> rfl

/-- **What `track` does to the fingerprint it is called with.** -/
theorem session_track_self (m : ConvMap) (fp : String) (tokenIndex : ℕ) :
    (m.track fp tokenIndex).2.session fp = some (m.tracked fp tokenIndex) := by
  unfold track tracked
  cases m.session fp with
  | some s => exact (Lru.find_put _ _ _ _).trans (if_pos rfl)
  | none => exact (Lru.find_put _ _ _ _).trans (if_pos rfl)

/-- **What `track` does to the others**: they stay as they are, or are evicted. -/
theorem session_of_track {m : ConvMap} {fp fp' : String} {tokenIndex : ℕ} {s : Session}
    (hne : fp ≠ fp') (h : (m.track fp tokenIndex).2.session fp' = some s) :
    m.session fp' = some s := by
  unfold track at h
  cases hs : m.session fp with
  | some s' =>
    rw [hs] at h
    have hput : (m.sessions.put fp _).find fp' = some s := h
    rwa [Lru.find_put, if_neg hne] at hput
  | none =>
    rw [hs] at h
    have hput : (m.roomy.put fp _).find fp' = some s := h
    rw [Lru.find_put, if_neg hne] at hput
    unfold roomy at hput
    split_ifs at hput
    · exact Lru.find_of_find_keep hput
    · exact hput

end ConvMap

/-! ### Turns -/

/-- The key index a session remembers. `key` is the key that was at this index when it was stored;
the code does not keep it. -/
structure Remembered where
  index : ℕ
  key : String
  deriving DecidableEq, Repr

/-- How far a request is with its turn. -/
inductive TurnState
  | away
  | touched (fp : String) (preferred : Option Remembered)
  | acquired (fp : String) (slot : KeySlot)
  | serving (slot : KeySlot)
  deriving DecidableEq, Repr

/-- The slot a request holds. -/
def TurnState.slot : TurnState → Option KeySlot
  | acquired _ slot => some slot
  | serving slot => some slot
  | _ => none

/-- The pool and the session table, with the turns of the requests by number. `storedKey` says with
which key the index of a session was stored; the code does not keep it. -/
structure Serving where
  pool : KeyPool
  convMap : ConvMap
  turns : ℕ → TurnState
  storedKey : String → String

/-- What happens: a request looks up the session of its payload, acquires a key, stores its index,
rotates to another key, marks its key, is over; or the pool is rebuilt. -/
inductive ServingEvent
  | touch (i : ℕ) (payload : Value)
  | acquire (i now : ℕ)
  | track (i : ℕ)
  | rotate (i now : ℕ)
  | markHealthy (i : ℕ)
  | markUnhealthy (i now status : ℕ)
  | leave (i : ℕ)
  | rebuild (keys : List ConfigKey)

/-- The request that takes the step. -/
def ServingEvent.request : ServingEvent → Option ℕ
  | touch i _ | acquire i _ | track i | rotate i _ | markHealthy i | markUnhealthy i _ _ | leave i =>
    some i
  | rebuild _ => none

namespace Serving

/-- The pool that `main` builds, no sessions and no requests. -/
def start (pool : KeyPool) : Serving := ⟨pool, .new, fun _ => .away, fun _ => ""⟩

/-- The turn of a request goes on. -/
def setTurn (s : Serving) (i : ℕ) (t : TurnState) : Serving :=
  { s with turns := Function.update s.turns i t }

/-- What the session of a fingerprint remembers. -/
def remembered (s : Serving) (fp : String) : Option Remembered :=
  (s.convMap.session fp).map fun x => ⟨x.tokenIndex, s.storedKey fp⟩

/-- What `touch` answers about the session of a fingerprint: the index to prefer. -/
def recalled (s : Serving) (fp : String) : Option Remembered :=
  ((s.convMap.touch fp).1.bind fun t => t.tokenIndex).map fun i => ⟨i, s.storedKey fp⟩

/-- `touch` answers what the session remembers. -/
theorem recalled_eq (s : Serving) (fp : String) : s.recalled fp = s.remembered fp := by
  unfold recalled remembered ConvMap.touch
  cases s.convMap.session fp <;> rfl

/-- A request with a slot, if the acquisition has given one. -/
def given (s : Serving) (i : ℕ) (t : KeySlot → TurnState) (otherwise : TurnState)
    (r : Option KeySlot × KeyPool) : Serving :=
  { s.setTurn i ((r.1.map t).getD otherwise) with pool := r.2 }

@[simp] theorem turns_setTurn (s : Serving) (i : ℕ) (t : TurnState) : (s.setTurn i t).turns i = t :=
  Function.update_self _ _ _

@[simp] theorem turns_given (s : Serving) (i : ℕ) (t : KeySlot → TurnState) (otherwise : TurnState)
    (r : Option KeySlot × KeyPool) :
    (s.given i t otherwise r).turns i = (r.1.map t).getD otherwise := Function.update_self _ _ _

/-- The steps. The digest function stands in the place of MD5. -/
inductive Step (md5 : String → List UInt8) : Serving → ServingEvent → Serving → Prop
  | touch {s : Serving} {i : ℕ} {fp : String} (payload : Value) (away : s.turns i = .away)
      (digest : fingerprintPayload md5 payload = fp) :
      Step md5 s (.touch i payload)
        { s.setTurn i (.touched fp (s.recalled fp)) with convMap := (s.convMap.touch fp).2 }
  -- without a usable key the request is answered with an error
  | acquire {s : Serving} {i : ℕ} {fp : String} {preferred : Option Remembered} (now : ℕ)
      (touched : s.turns i = .touched fp preferred) :
      Step md5 s (.acquire i now)
        (s.given i (.acquired fp) .away (s.pool.acquire now (preferred.map Remembered.index)))
  | track {s : Serving} {i : ℕ} {fp : String} {slot : KeySlot}
      (acquired : s.turns i = .acquired fp slot) :
      Step md5 s (.track i)
        { s.setTurn i (.serving slot) with
          convMap := (s.convMap.track fp slot.index).2
          storedKey := Function.update s.storedKey fp slot.key }
  -- without another usable key the request goes on with the one it has
  | rotate {s : Serving} {i : ℕ} {slot : KeySlot} (now : ℕ) (serving : s.turns i = .serving slot) :
      Step md5 s (.rotate i now) (s.given i .serving (.serving slot) (s.pool.acquire now none))
  | markHealthy {s : Serving} {i : ℕ} {slot : KeySlot} (serving : s.turns i = .serving slot) :
      Step md5 s (.markHealthy i) { s with pool := s.pool.markHealthy slot.index }
  | markUnhealthy {s : Serving} {i : ℕ} {slot : KeySlot} (now status : ℕ)
      (serving : s.turns i = .serving slot) :
      Step md5 s (.markUnhealthy i now status)
        { s with pool := s.pool.markUnhealthy now slot.index status }
  | leave {s : Serving} (i : ℕ) : Step md5 s (.leave i) (s.setTurn i .away)
  | rebuild {s : Serving} (keys : List ConfigKey) :
      Step md5 s (.rebuild keys) { s with pool := s.pool.rebuild (keys.map KeyEntry.fromConfig) }

/-- A run of the requests and rebuilds. -/
abbrev IsRun (md5 : String → List UInt8) (s : Serving) (r : List (ServingEvent × Serving)) : Prop :=
  Runs.IsRun (Step md5) s r

/-- The other requests stay where they are. -/
theorem Step.turns_of_ne {md5 : String → List UInt8} {s t : Serving} {l : ServingEvent} {j : ℕ}
    (h : Step md5 s l t) (hj : l.request ≠ some j) : t.turns j = s.turns j := by
  have hset : ∀ i x, l.request = some i → Function.update s.turns i x j = s.turns j := by
    intro i x hi
    refine Function.update_of_ne ?_ x s.turns
    rintro rfl
    exact hj hi
  cases h with
  | touch payload away digest => exact hset _ _ rfl
  | acquire now touched => exact hset _ _ rfl
  | track acquired => exact hset _ _ rfl
  | rotate now serving => exact hset _ _ rfl
  | markHealthy serving => rfl
  | markUnhealthy now status serving => rfl
  | leave i => exact hset _ _ rfl
  | rebuild keys => rfl

/-- **What a step does to the sessions**: it looks one up, or stores an index. -/
theorem Step.convMap_cases {md5 : String → List UInt8} {s t : Serving} {l : ServingEvent}
    (h : Step md5 s l t) :
    (∀ fp, t.convMap.session fp = s.convMap.session fp) ∨
      ∃ i fp slot, l = .track i ∧ s.turns i = .acquired fp slot ∧
        t.convMap = (s.convMap.track fp slot.index).2 := by
  cases h with
  | touch payload away digest => exact Or.inl fun fp => s.convMap.session_touch _ fp
  | track acquired => exact Or.inr ⟨_, _, _, rfl, acquired, rfl⟩
  | acquire now touched => exact Or.inl fun _ => rfl
  | rotate now serving => exact Or.inl fun _ => rfl
  | markHealthy serving => exact Or.inl fun _ => rfl
  | markUnhealthy now status serving => exact Or.inl fun _ => rfl
  | leave i => exact Or.inl fun _ => rfl
  | rebuild keys => exact Or.inl fun _ => rfl

end Serving

/-! ### Samples -/

/-- A payload with one message of the user. -/
def userMessage : Value :=
  .object (JsonMap.ofList [("role", .string "user"), ("content", .string "hi")])

def samplePayload : Value := .object [("messages", .array [userMessage])]

/-- A digest, and a pool with two keys. -/
def sampleDigest (_ : String) : List UInt8 := [1, 2, 3, 4, 5, 6]

def keysAB : KeyPool :=
  .new [.fromConfig ⟨"A", "sk-a", ""⟩, .fromConfig ⟨"B", "sk-b", ""⟩]

end Mybro
