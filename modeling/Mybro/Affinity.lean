import Mybro.Sessions

/-!
# A conversation keeps its key

A turn whose messages extend those of an earlier turn has its fingerprint, finds its session, and
acquires the key with the index stored there as long as that key is usable (`key_affinity`),
whatever the other requests do in between.
-/

namespace Mybro

open Value Prog Runs

/-! ### The fingerprint of a conversation -/

/-- Messages appended to an array with a fingerprint do not change it. -/
theorem fingerprintPayload_append {md5 : String → List UInt8} {payload payload' : Value}
    {ms more : List Value} (h : (payload.get "messages").bind asArray = some ms)
    (h' : (payload'.get "messages").bind asArray = some (ms ++ more))
    (hne : fingerprintPayload md5 payload ≠ "") :
    fingerprintPayload md5 payload' = fingerprintPayload md5 payload := by
  unfold fingerprintPayload at hne ⊢
  rw [h] at hne ⊢
  rw [h']
  simp only [List.findSome?_append] at hne ⊢
  -- the fingerprint is that of a message of the earlier array, which comes first in the later one
  cases hfirst : ms.findSome? fun msg =>
      if isUser msg && msgText msg ≠ "" then
        some (String.ofList (((md5 (msgText msg)).flatMap hexByte).take 12))
      else none with
  | some digest => rfl
  | none =>
    rw [hfirst] at hne
    exact absurd rfl hne

/-! ### What the other requests leave of a session -/

namespace Serving

variable {md5 : String → List UInt8} {fp : String}

/-- The session is there. -/
def Present (fp : String) (s : Serving) : Prop := ∃ x, s.convMap.session fp = some x

/-- An index stored for the fingerprint is the given one. -/
def StoresOnly (fp : String) (idx : ℕ) (s : Serving) : ServingEvent → Prop
  | .track i => ∀ slot, s.turns i = .acquired fp slot → slot.index = idx
  | _ => True

/-- A session that is still there after a step has its number, and its index if no other is stored.
-/
theorem Step.session_kept {s t : Serving} {l : ServingEvent} (h : Step md5 s l t) {x : Session}
    (hx : s.convMap.session fp = some x) (ht : Present fp t) :
    ∃ y, t.convMap.session fp = some y ∧ y.sessNum = x.sessNum ∧
      (StoresOnly fp x.tokenIndex s l → y.tokenIndex = x.tokenIndex) := by
  rcases h.convMap_cases with hsame | ⟨i, fp', slot, rfl, hturn, hmap⟩
  · exact ⟨x, (hsame fp).trans hx, rfl, fun _ => rfl⟩
  · by_cases hfp : fp' = fp
    · subst hfp
      refine ⟨_, by rw [hmap]; exact s.convMap.session_track_self _ _, ?_, fun hstores => ?_⟩
      · simp only [ConvMap.tracked, hx]
      · have hidx : slot.index = x.tokenIndex := hstores slot hturn
        simp only [ConvMap.tracked, hx, hidx]
    · obtain ⟨y, hy⟩ := ht
      rw [hmap] at hy
      have hyx := ConvMap.session_of_track hfp hy
      rw [hx] at hyx
      cases hyx
      exact ⟨x, by rw [hmap]; exact hy, rfl, fun _ => rfl⟩

/-- The same for a whole run in which the session is never evicted. -/
theorem session_kept_of_run {s : Serving} {r : List (ServingEvent × Serving)} (hr : IsRun md5 s r)
    (hpresent : Always (Present fp) s r) {x : Session} (hx : s.convMap.session fp = some x) :
    ∃ y, (final s r).convMap.session fp = some y ∧ y.sessNum = x.sessNum ∧
      (EachStep (StoresOnly fp x.tokenIndex) s r → y.tokenIndex = x.tokenIndex) := by
  induction r generalizing s x with
  | nil => exact ⟨x, hx, rfl, fun _ => rfl⟩
  | cons e r ih =>
    obtain ⟨y, hy, hnum, hidx⟩ := Step.session_kept hr.1 hx hpresent.2.start
    obtain ⟨z, hz, hnum', hidx'⟩ := ih hr.2 hpresent.2 hy
    refine ⟨z, hz, hnum'.trans hnum, fun hstores => ?_⟩
    have hyx : y.tokenIndex = x.tokenIndex := hidx hstores.1
    rw [hyx] at hidx'
    exact hidx' hstores.2

theorem Step.touch_eq {s t : Serving} {j : ℕ} {payload : Value}
    (h : Step md5 s (.touch j payload) t) :
    t = { s.setTurn j (.touched (fingerprintPayload md5 payload)
          (s.recalled (fingerprintPayload md5 payload))) with
      convMap := (s.convMap.touch (fingerprintPayload md5 payload)).2 } := by
  cases h with
  | touch _ away digest => rw [digest]

theorem Step.acquire_eq {s t : Serving} {j now : ℕ} {preferred : Option Remembered}
    (h : Step md5 s (.acquire j now) t) (hturn : s.turns j = .touched fp preferred) :
    t = s.given j (.acquired fp) .away (s.pool.acquire now (preferred.map Remembered.index)) := by
  cases h with
  | acquire _ touched =>
    rw [hturn] at touched
    cases touched
    rfl

theorem Step.track_eq {s t : Serving} {j : ℕ} {slot : KeySlot} (h : Step md5 s (.track j) t)
    (hturn : s.turns j = .acquired fp slot) :
    t = { s.setTurn j (.serving slot) with
      convMap := (s.convMap.track fp slot.index).2
      storedKey := Function.update s.storedKey fp slot.key } := by
  cases h with
  | track acquired =>
    rw [hturn] at acquired
    cases acquired
    rfl

/-- A request that takes no step stays where it is. -/
theorem turns_of_run {s : Serving} {r : List (ServingEvent × Serving)} {j : ℕ} (hr : IsRun md5 s r)
    (hown : EachStep (fun _ l => l.request ≠ some j) s r) : (final s r).turns j = s.turns j := by
  induction r generalizing s with
  | nil => rfl
  | cons e r ih =>
    rw [← Step.turns_of_ne hr.1 hown.1]
    exact ih hr.2 hown.2

end Serving

/-! ### Turns -/

open Serving

/-- **A turn** of the request `j`, which begins in the state `s`: it looks the session of its
payload up, acquires a key at `now`, and stores the index, while other requests go on in between. -/
structure TurnTaken (md5 : String → List UInt8) (j : ℕ) (payload : Value) (now : ℕ)
    (s : Serving) where
  touched : Serving
  between : List (ServingEvent × Serving)
  acquired : Serving
  after : List (ServingEvent × Serving)
  tracked : Serving
  slot : KeySlot
  touch : Step md5 s (.touch j payload) touched
  others : IsRun md5 touched between
  others_own : EachStep (fun _ l => l.request ≠ some j) touched between
  acquire : Step md5 (final touched between) (.acquire j now) acquired
  got : acquired.turns j = .acquired (fingerprintPayload md5 payload) slot
  others' : IsRun md5 acquired after
  others_own' : EachStep (fun _ l => l.request ≠ some j) acquired after
  track : Step md5 (final acquired after) (.track j) tracked

namespace TurnTaken

variable {md5 : String → List UInt8} {j : ℕ} {payload : Value} {now : ℕ} {s : Serving}

/-- The state in which the key is acquired. -/
def atAcquire (T : TurnTaken md5 j payload now s) : Serving := final T.touched T.between

/-- The state in which the index is stored. -/
def atTrack (T : TurnTaken md5 j payload now s) : Serving := final T.acquired T.after

/-- The index the turn prefers: what `touch` answered at the beginning. -/
def preferred (_ : TurnTaken md5 j payload now s) : Option ℕ :=
  (s.recalled (fingerprintPayload md5 payload)).map Remembered.index

/-- The state after the acquisition. -/
theorem acquired_eq (T : TurnTaken md5 j payload now s) :
    T.acquired = T.atAcquire.given j (.acquired (fingerprintPayload md5 payload)) .away
      (T.atAcquire.pool.acquire now T.preferred) := by
  refine T.acquire.acquire_eq ?_
  rw [turns_of_run T.others T.others_own, T.touch.touch_eq]
  exact turns_setTurn s j _

/-- The acquisition gives the slot of the turn. -/
theorem acquire_eq_slot (T : TurnTaken md5 j payload now s) :
    (T.atAcquire.pool.acquire now T.preferred).1 = some T.slot := by
  have hgot := T.got
  rw [T.acquired_eq, turns_given] at hgot
  cases hslot : (T.atAcquire.pool.acquire now T.preferred).1 with
  | none =>
    rw [hslot] at hgot
    cases hgot
  | some slot =>
    rw [hslot] at hgot
    cases hgot
    rfl

/-- The session after the turn. -/
theorem session_tracked (T : TurnTaken md5 j payload now s) :
    T.tracked.convMap.session (fingerprintPayload md5 payload) =
      some (T.atTrack.convMap.tracked (fingerprintPayload md5 payload) T.slot.index) := by
  have hturn : T.atTrack.turns j = .acquired (fingerprintPayload md5 payload) T.slot := by
    rw [atTrack, turns_of_run T.others' T.others_own']
    exact T.got
  rw [Step.track_eq T.track hturn]
  exact ConvMap.session_track_self _ _ _

/-- **A turn is what `selectKey` does**: with the answers of the turn it comes to the log line of a
new session, or at once to its end. -/
theorem run_selectKey {env : Env} (T : TurnTaken env.md5 j payload now s) :
    Run (selectKey env payload)
      [⟨.touch (fingerprintPayload env.md5 payload),
          (s.convMap.touch (fingerprintPayload env.md5 payload)).1⟩,
        ⟨.acquireKey T.preferred, (T.atAcquire.pool.acquire now T.preferred).1⟩,
        ⟨.track (fingerprintPayload env.md5 payload) T.slot.index,
          (T.atTrack.convMap.track (fingerprintPayload env.md5 payload) T.slot.index).1⟩]
      (do
        let session := (T.atTrack.convMap.track (fingerprintPayload env.md5 payload) T.slot.index).1
        doIf session.isNew (logFirstPrompt payload session.sessNum)
        pure (some (T.slot, session.sessNum))) := by
  have hpreferred : (s.convMap.touch (fingerprintPayload env.md5 payload)).1.bind
      (fun t => t.tokenIndex) = T.preferred := by
    rw [preferred, recalled, Option.map_map]
    exact Option.map_id'.symm
  have hslot := T.acquire_eq_slot
  rw [← hpreferred] at hslot ⊢
  rw [hslot]
  exact .cons _ (.cons _ (.cons _ (.nil _)))

/-- **Conversation key affinity**. Let a turn with a fingerprint have stored its index, and a later
turn extend its messages. As long as the session is not evicted, no other index is stored for it
before the later turn begins, and the entry is usable when the later turn acquires its key, the
later turn has the same fingerprint, asks the pool for the same index, acquires it without moving
the cursor, and counts the same session on by one. -/
theorem key_affinity {env : Env} {i : ℕ} {payload' : Value} {now' : ℕ} {ms more : List Value}
    {r : List (ServingEvent × Serving)} (T : TurnTaken env.md5 i payload now s)
    (hr : IsRun env.md5 T.tracked r) (T' : TurnTaken env.md5 j payload' now' (final T.tracked r))
    (hms : (payload.get "messages").bind asArray = some ms)
    (hms' : (payload'.get "messages").bind asArray = some (ms ++ more))
    (hne : fingerprintPayload env.md5 payload ≠ "")
    (hkept : Always (Present (fingerprintPayload env.md5 payload)) T.tracked r)
    (hkept_between : Always (Present (fingerprintPayload env.md5 payload)) T'.touched T'.between)
    (hkept_after : Always (Present (fingerprintPayload env.md5 payload)) T'.acquired T'.after)
    (hlatest : EachStep (StoresOnly (fingerprintPayload env.md5 payload) T.slot.index) T.tracked r)
    (husable : T'.atAcquire.pool.usableAt now' T.slot.index = true) :
    fingerprintPayload env.md5 payload' = fingerprintPayload env.md5 payload ∧
      (∃ touched tracked rest, Run (selectKey env payload')
        [⟨.touch (fingerprintPayload env.md5 payload), touched⟩,
          ⟨.acquireKey (some T.slot.index), some T'.slot⟩,
          ⟨.track (fingerprintPayload env.md5 payload) T.slot.index, tracked⟩] rest) ∧
      T'.slot.index = T.slot.index ∧ T'.atAcquire.pool.slotAt T.slot.index = some T'.slot ∧
      T'.acquired.pool.cursor = T'.atAcquire.pool.cursor ∧
      ∃ x y, T.tracked.convMap.session (fingerprintPayload env.md5 payload) = some x ∧
        T'.atTrack.convMap.session (fingerprintPayload env.md5 payload) = some y ∧
        T'.tracked.convMap.session (fingerprintPayload env.md5 payload) =
          some ⟨T.slot.index, y.requestCount + 1, x.sessNum⟩ := by
  have hsame : fingerprintPayload env.md5 payload' = fingerprintPayload env.md5 payload :=
    fingerprintPayload_append hms hms' hne
  -- the session from the earlier turn to the beginning of the later one
  obtain ⟨x, hx, hxidx⟩ : ∃ x,
      T.tracked.convMap.session (fingerprintPayload env.md5 payload) = some x ∧
        x.tokenIndex = T.slot.index := ⟨_, T.session_tracked, ConvMap.tokenIndex_tracked _ _ _⟩
  obtain ⟨y, hy, hynum, hyidx⟩ := session_kept_of_run hr hkept hx
  rw [hxidx] at hyidx
  have hidx : y.tokenIndex = T.slot.index := hyidx hlatest
  have hpreferred : T'.preferred = some T.slot.index := by
    simp only [preferred, recalled_eq, remembered, hsame, hy, hidx, Option.map_some]
  -- the key is the preferred one
  have hasked := T'.run_selectKey
  have hslot := T'.acquire_eq_slot
  rw [hslot, hpreferred, hsame] at hasked
  have hacq := T'.acquired_eq
  rw [hpreferred, KeyPool.acquire_preferred husable] at hslot hacq
  have hindex : T'.slot.index = T.slot.index := (KeyPool.slotAt_eq_some hslot).1
  -- the session from there to the end of the later turn
  have htouched : T'.touched.convMap.session (fingerprintPayload env.md5 payload) = some y := by
    rw [T'.touch.touch_eq]
    exact (ConvMap.session_touch _ _ _).trans hy
  obtain ⟨z, hz, hznum, -⟩ := session_kept_of_run T'.others hkept_between htouched
  have hacquired : T'.acquired.convMap.session (fingerprintPayload env.md5 payload) = some z := by
    rw [hacq]
    exact hz
  obtain ⟨w, hw, hwnum, -⟩ := session_kept_of_run T'.others' hkept_after hacquired
  rw [hindex] at hasked
  refine ⟨hsame, ⟨_, _, _, hasked⟩, hindex, hslot, by rw [hacq]; rfl, x, w, hx, hw, ?_⟩
  rw [← hsame, T'.session_tracked, hsame, hindex, atTrack]
  simp only [ConvMap.tracked, hw, hwnum, hznum, hynum]

/-- A turn that no other request interrupts. -/
def direct (away : s.turns j = .away) (slot : KeySlot)
    (h : (s.pool.acquire now
      ((s.recalled (fingerprintPayload md5 payload)).map Remembered.index)).1 = some slot) :
    TurnTaken md5 j payload now s :=
  have got : (Serving.given _ j (.acquired (fingerprintPayload md5 payload)) .away
      (s.pool.acquire now
        ((s.recalled (fingerprintPayload md5 payload)).map Remembered.index))).turns j =
      .acquired (fingerprintPayload md5 payload) slot := by
    rw [turns_given, h]
    rfl
  { touched := _, between := [], acquired := _, after := [], tracked := _, slot := slot
    touch := .touch payload away rfl
    others := trivial
    others_own := trivial
    acquire := .acquire now (turns_setTurn s j _)
    got := got
    others' := trivial
    others_own' := trivial
    track := .track got }

/-- A payload that goes on after the one of `samplePayload`. -/
def laterPayload : Value := object [("messages", array ([userMessage] ++ [null]))]

/-- An environment with the digest of the samples. -/
def digestEnv : Env := { envParsing .null [] with md5 := sampleDigest }

/-- A first turn, a step of another request, and a second turn of the same conversation. -/
def firstTurn : TurnTaken digestEnv.md5 0 samplePayload 0 (start keysAB) :=
  direct rfl ⟨0, "sk-a", "A"⟩ rfl

def meanwhile : List (ServingEvent × Serving) := [(.leave 2, firstTurn.tracked.setTurn 2 .away)]

def secondTurn : TurnTaken digestEnv.md5 1 laterPayload 0 (final firstTurn.tracked meanwhile) :=
  direct rfl ⟨0, "sk-a", "A"⟩ rfl

/-- The second turn gets the key of the first although the cursor has moved on. -/
theorem key_affinity_second :
    firstTurn.tracked.pool.cursor = 1 ∧ secondTurn.slot.index = firstTurn.slot.index ∧
      ∃ touched tracked rest, Run (selectKey digestEnv laterPayload)
        [⟨.touch (fingerprintPayload digestEnv.md5 samplePayload), touched⟩,
          ⟨.acquireKey (some 0), some ⟨0, "sk-a", "A"⟩⟩,
          ⟨.track (fingerprintPayload digestEnv.md5 samplePayload) 0, tracked⟩] rest := by
  have hr : IsRun digestEnv.md5 firstTurn.tracked meanwhile := ⟨.leave 2, trivial⟩
  have hms : (samplePayload.get "messages").bind asArray = some [userMessage] := rfl
  have hms' : (laterPayload.get "messages").bind asArray = some ([userMessage] ++ [null]) := rfl
  obtain ⟨-, hasked, hindex, -⟩ := key_affinity firstTurn hr secondTurn hms hms' (by decide)
    ⟨⟨_, rfl⟩, ⟨_, rfl⟩⟩ ⟨_, rfl⟩ ⟨_, rfl⟩ ⟨trivial, trivial⟩ rfl
  exact ⟨rfl, hindex, hasked⟩

end TurnTaken

end Mybro
