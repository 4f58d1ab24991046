import Mybro.Sessions

/-!
# The session table over its history (`sessions.rs`)

What `ConvMap` holds, as a function of the calls so far. The abstract table knows no list of
entries: a fingerprint is held from its first `track` on, until a new one comes while there are
10,000 and it is not among the 8,000 used last. `refines_after` says that `ConvMap` holds the same,
with the counts and the numbers of the abstract table as machine words.
-/

namespace Mybro

/-- A call on the session table. -/
inductive ConvCall
  | touch (fp : String)
  | track (fp : String) (tokenIndex : ℕ)

/-- The fingerprint of a call. -/
def ConvCall.fp : ConvCall → String
  | touch fp => fp
  | track fp _ => fp

namespace ConvMap

/-- The table after one more call. -/
def call (m : ConvMap) : ConvCall → ConvMap
  | .touch fp => (m.touch fp).2
  | .track fp tokenIndex => (m.track fp tokenIndex).2

/-- The table after a history, its last call first. -/
def after : List ConvCall → ConvMap
  | [] => new
  | c :: h => (after h).call c

/-! ### The abstract table -/

/-- The number of calls since a fingerprint was touched or tracked. -/
def age (h : List ConvCall) (fp : String) : ℕ := h.findIdx fun c => c.fp = fp

/-- Of the fingerprints held, the `n` touched or tracked last. -/
def recentOf (held : Finset String) (h : List ConvCall) (n : ℕ) : Finset String :=
  {fp ∈ held | (held.filter fun fp' => age h fp' < age h fp).card < n}

/-- The fingerprints held after a history. -/
def held : List ConvCall → Finset String
  | [] => ∅
  | .touch _ :: h => held h
  | .track fp _ :: h =>
    if fp ∈ held h then held h
    else if 10000 ≤ (held h).card then insert fp (recentOf (held h) h 8000)
    else insert fp (held h)

/-- The `n` fingerprints touched or tracked last. -/
def recent (h : List ConvCall) (n : ℕ) : Finset String := recentOf (held h) h n

/-- The call starts a session. -/
def Inserts (h : List ConvCall) (c : ConvCall) : Prop := ∃ i, c = .track c.fp i ∧ c.fp ∉ held h

instance (h : List ConvCall) : DecidablePred (Inserts h)
  | .touch _ => isFalse fun ⟨_, h, _⟩ => nomatch h
  | .track fp i => decidable_of_iff (fp ∉ held h) ⟨fun hfp => ⟨i, rfl, hfp⟩, fun ⟨_, _, hfp⟩ => hfp⟩

/-- The number of sessions started. -/
def insertions : List ConvCall → ℕ
  | [] => 0
  | c :: h => if Inserts h c then insertions h + 1 else insertions h

/-- The number of times a fingerprint was tracked since its session was started. -/
def requests : List ConvCall → String → ℕ
  | [], _ => 0
  | .touch _ :: h, fp => requests h fp
  | .track fp' _ :: h, fp =>
    if fp' = fp then if fp ∈ held h then requests h fp + 1 else 1 else requests h fp

/-- The number of the session of a fingerprint. -/
def number : List ConvCall → String → ℕ
  | [], _ => 0
  | .touch _ :: h, fp => number h fp
  | .track fp' _ :: h, fp => if fp' = fp ∧ fp ∉ held h then insertions h + 1 else number h fp

/-- The index a fingerprint was tracked with last. -/
def lastToken : List ConvCall → String → ℕ
  | [], _ => 0
  | .touch _ :: h, fp => lastToken h fp
  | .track fp' i :: h, fp => if fp' = fp then i else lastToken h fp

/-- The session of a fingerprint, as machine words have it. -/
def sessionOf (h : List ConvCall) (fp : String) : Session :=
  ⟨lastToken h fp, UInt64.ofNat (requests h fp), UInt64.ofNat (number h fp)⟩

/-! ### The order of use -/

theorem age_cons (c : ConvCall) (h : List ConvCall) (fp : String) :
    age (c :: h) fp = if c.fp = fp then 0 else age h fp + 1 := by
  unfold age
  rw [List.findIdx_cons]
  by_cases hc : c.fp = fp <;> simp [hc]

/-- The keys of the map are those held, the one used last first. -/
structure InOrder (h : List ConvCall) (keys : List String) : Prop where
  mem : ∀ fp, fp ∈ keys ↔ fp ∈ held h
  byAge : keys.Pairwise fun a b => age h a < age h b

/-- What keeps its place behind the fingerprint of the next call. -/
theorem pairwise_behind {h : List ConvCall} {keys : List String}
    (hkeys : keys.Pairwise fun a b => age h a < age h b) {c : ConvCall} (hc : c.fp ∉ keys) :
    (c.fp :: keys).Pairwise fun a b => age (c :: h) a < age (c :: h) b := by
  have hage : ∀ a ∈ keys, age (c :: h) a = age h a + 1 := by
    intro a ha
    rw [age_cons, if_neg]
    rintro rfl
    exact hc ha
  exact Lru.pairwise_behind hkeys (by rw [age_cons, if_pos rfl]) hage

theorem InOrder.nodup {h : List ConvCall} {keys : List String} (hkeys : InOrder h keys) :
    keys.Nodup :=
  hkeys.byAge.imp fun hlt heq => (heq ▸ hlt).false

theorem InOrder.held_eq {h : List ConvCall} {keys : List String} (hkeys : InOrder h keys) :
    held h = keys.toFinset := by
  ext fp
  rw [List.mem_toFinset, hkeys.mem]

theorem InOrder.card {h : List ConvCall} {keys : List String} (hkeys : InOrder h keys) :
    (held h).card = keys.length := by
  rw [hkeys.held_eq, List.toFinset_card_of_nodup hkeys.nodup]

/-- The first `n` keys are the `n` used last. -/
theorem InOrder.mem_take {h : List ConvCall} {keys : List String} (hkeys : InOrder h keys) (n : ℕ)
    (fp : String) : fp ∈ keys.take n ↔ fp ∈ recent h n := by
  have hcount : ((held h).filter fun fp' => age h fp' < age h fp).card =
      keys.countP fun fp' => age h fp' < age h fp := by
    rw [hkeys.held_eq, List.countP_eq_length_filter,
      ← List.toFinset_card_of_nodup (hkeys.nodup.filter _)]
    congr 1
    ext fp'
    simp
  unfold recent recentOf
  rw [Finset.mem_filter, hcount, ← hkeys.mem]
  constructor
  · intro hfp
    have hmem := List.mem_of_mem_take hfp
    exact ⟨hmem, (Lru.mem_take_iff hkeys.byAge hmem).1 hfp⟩
  · rintro ⟨hmem, hlt⟩
    exact (Lru.mem_take_iff hkeys.byAge hmem).2 hlt

/-- The fingerprint of a call comes to the front of what stays. -/
theorem InOrder.next {h : List ConvCall} {keys rest : List String} (hkeys : InOrder h keys)
    (hrest : rest.Sublist keys) {c : ConvCall}
    (hmem : ∀ fp, fp ∈ held (c :: h) ↔ fp = c.fp ∨ fp ∈ rest) :
    InOrder (c :: h) (c.fp :: rest.filter fun fp => fp ≠ c.fp) where
  mem := by
    intro fp
    rw [hmem, List.mem_cons, List.mem_filter, decide_eq_true_eq]
    tauto
  byAge := pairwise_behind (hkeys.byAge.sublist (List.filter_sublist.trans hrest)) (by simp)

theorem held_track {h : List ConvCall} {fp : String} (i : ℕ) (hfp : fp ∉ held h) :
    held (.track fp i :: h) =
      insert fp (if 10000 ≤ (held h).card then recent h 8000 else held h) := by
  rw [held, if_neg hfp]
  split_ifs <;> rfl

theorem held_track_of_mem {h : List ConvCall} {fp : String} (i : ℕ) (hfp : fp ∈ held h) :
    held (.track fp i :: h) = held h := by
  rw [held, if_pos hfp]

/-- The keys that stay when a new session comes. -/
theorem keys_roomy (m : ConvMap) :
    m.roomy.keys =
      if 10000 ≤ m.sessions.size then m.sessions.keys.take 8000 else m.sessions.keys := by
  unfold roomy conversationMapMax evictThreshold
  split_ifs
  · exact Lru.keys_keep _ _
  · rfl

/-- **The order of the entries**: those held, the one used last first. -/
theorem inOrder_after (h : List ConvCall) : InOrder h (after h).sessions.keys := by
  induction h with
  | nil => exact ⟨fun fp => by simp [after, new, Lru.keys, Lru.empty, held], List.Pairwise.nil⟩
  | cons c h ih =>
    cases c with
    | touch fp =>
      by_cases hfp : fp ∈ held h
      · show InOrder _ ((after h).sessions.use fp).keys
        rw [Lru.keys_use ((ih.mem fp).2 hfp)]
        refine ih.next (List.Sublist.refl _) fun fp' => ?_
        rw [ih.mem, held]
        exact ⟨Or.inr, fun hor => hor.elim (fun heq => heq ▸ hfp) id⟩
      · have hkeys : fp ∉ (after h).sessions.keys := fun hmem => hfp ((ih.mem fp).1 hmem)
        show InOrder _ ((after h).sessions.use fp).keys
        rw [Lru.use_of_notMem hkeys]
        exact ⟨ih.mem, (List.pairwise_cons.1 (pairwise_behind (c := .touch fp) ih.byAge hkeys)).2⟩
    | track fp i =>
      by_cases hfp : fp ∈ held h
      · obtain ⟨s, hs⟩ := Option.isSome_iff_exists.1 (Lru.isSome_find_iff.2 ((ih.mem fp).2 hfp))
        have hcall : (after (.track fp i :: h)).sessions =
            (after h).sessions.put fp { s with
              requestCount := s.requestCount + 1, tokenIndex := i } := by
          simp only [after, call, track, session, hs]
        rw [hcall, Lru.keys_put]
        refine ih.next (List.Sublist.refl _) fun fp' => ?_
        rw [ih.mem, held_track_of_mem i hfp]
        exact ⟨Or.inr, fun hor => hor.elim (fun heq => heq ▸ hfp) id⟩
      · have hnone : (after h).session fp = none :=
          Lru.find_eq_none_iff.2 fun hmem => hfp ((ih.mem fp).1 hmem)
        have hcall : (after (.track fp i :: h)).sessions =
            (after h).roomy.put fp ⟨i, 1, (after h).counter + 1⟩ := by
          simp only [after, call, track, hnone]
        rw [hcall, Lru.keys_put, keys_roomy, ← Lru.length_keys, ← ih.card]
        split_ifs with hfull
        · refine ih.next (List.take_sublist _ _) fun fp' => ?_
          rw [held_track i hfp, if_pos hfull, Finset.mem_insert, ih.mem_take]
          rfl
        · refine ih.next (List.Sublist.refl _) fun fp' => ?_
          rw [held_track i hfp, if_neg hfull, Finset.mem_insert, ih.mem]
          rfl

theorem isSome_session_iff (h : List ConvCall) (fp : String) :
    ((after h).session fp).isSome = true ↔ fp ∈ held h :=
  Lru.isSome_find_iff.trans ((inOrder_after h).mem fp)

theorem session_eq_none_iff (h : List ConvCall) (fp : String) :
    (after h).session fp = none ↔ fp ∉ held h :=
  Lru.find_eq_none_iff.trans (not_congr ((inOrder_after h).mem fp))

theorem size_after (h : List ConvCall) : (after h).sessions.size = (held h).card := by
  rw [(inOrder_after h).card, Lru.length_keys]

/-! ### The sessions -/

/-- Only a new session evicts others. -/
theorem held_of_held_cons {h : List ConvCall} {c : ConvCall} {fp : String} (hne : c.fp ≠ fp)
    (hfp : fp ∈ held (c :: h)) : fp ∈ held h := by
  cases c with
  | touch fp' => exact hfp
  | track fp' i =>
    by_cases hfp' : fp' ∈ held h
    · rwa [held_track_of_mem i hfp'] at hfp
    · rw [held_track i hfp', Finset.mem_insert] at hfp
      rcases hfp with rfl | hfp
      · exact absurd rfl hne
      · split_ifs at hfp
        · exact Finset.mem_of_mem_filter fp hfp
        · exact hfp

/-- **The sessions** are those of the abstract table, and so is the counter. -/
theorem session_after (h : List ConvCall) :
    (∀ fp ∈ held h, (after h).session fp = some (sessionOf h fp)) ∧
      (after h).counter = UInt64.ofNat (insertions h) := by
  induction h with
  | nil => exact ⟨fun fp hfp => by simp [held] at hfp, rfl⟩
  | cons c h ih =>
    obtain ⟨hsession, hcounter⟩ := ih
    cases c with
    | touch fp' =>
      have hinserts : ¬ Inserts h (.touch fp') := fun ⟨_, hc, _⟩ => nomatch hc
      refine ⟨fun fp hfp => ?_, ?_⟩
      · exact ((after h).session_touch fp' fp).trans (hsession fp hfp)
      · rw [insertions, if_neg hinserts]
        exact hcounter
    | track fp' i =>
      refine ⟨fun fp hfp => ?_, ?_⟩
      · by_cases hne : fp' = fp
        · subst hne
          refine ((after h).session_track_self fp' i).trans ?_
          unfold tracked sessionOf
          by_cases hold : fp' ∈ held h
          · rw [hsession fp' hold]
            simp [sessionOf, lastToken, requests, number, hold, UInt64.ofNat_add]
          · rw [(session_eq_none_iff h fp').2 hold, hcounter]
            simp [lastToken, requests, number, hold, UInt64.ofNat_add]
        · obtain ⟨s, hs⟩ := Option.isSome_iff_exists.1 ((isSome_session_iff _ fp).2 hfp)
          have hold := session_of_track hne hs
          rw [hsession fp (held_of_held_cons (c := .track fp' i) hne hfp)] at hold
          rw [hs, ← hold]
          simp [sessionOf, lastToken, requests, number, hne]
      · by_cases hold : fp' ∈ held h
        · have hinserts : ¬ Inserts h (.track fp' i) := fun ⟨_, _, hc⟩ => hc hold
          rw [insertions, if_neg hinserts]
          simp only [after, call, track, hsession fp' hold]
          exact hcounter
        · have hinserts : Inserts h (.track fp' i) := ⟨i, rfl, hold⟩
          rw [insertions, if_pos hinserts]
          simp only [after, call, track, (session_eq_none_iff h fp').2 hold]
          rw [hcounter, UInt64.ofNat_add]
          rfl

/-! ### Since the session was started -/

/-- The call evicts the session of a fingerprint. -/
def Evicts (h : List ConvCall) (c : ConvCall) (fp : String) : Prop :=
  fp ∈ held h ∧ fp ∉ held (c :: h)

/-- None of some calls, made after others, evicts the session of a fingerprint. -/
def Kept (fp : String) : List ConvCall → List ConvCall → Prop
  | [], _ => True
  | c :: h₁, h₂ => ¬ Evicts (h₁ ++ h₂) c fp ∧ Kept fp h₁ h₂

/-- Whether the call tracks a fingerprint. -/
def tracks (fp : String) : ConvCall → Bool
  | .touch _ => false
  | .track fp' _ => fp' = fp

variable {fp : String} {h₁ h₂ : List ConvCall} {i : ℕ}

/-- A fingerprint just tracked is held. -/
theorem mem_held_track (h : List ConvCall) (fp : String) (i : ℕ) :
    fp ∈ held (.track fp i :: h) := by
  by_cases hfp : fp ∈ held h
  · rwa [held_track_of_mem i hfp]
  · rw [held_track i hfp]
    exact Finset.mem_insert_self _ _

/-- What has been tracked and not evicted since is held. -/
theorem Kept.mem_held (hkept : Kept fp h₁ (.track fp i :: h₂)) :
    fp ∈ held (h₁ ++ .track fp i :: h₂) := by
  induction h₁ with
  | nil => exact mem_held_track h₂ fp i
  | cons c h₁ ih =>
    by_contra hnot
    exact hkept.1 ⟨ih hkept.2, hnot⟩

/-- **What is held** has been tracked and not evicted since. -/
theorem mem_held_iff {h : List ConvCall} :
    fp ∈ held h ↔ ∃ h₁ i h₂, h = h₁ ++ .track fp i :: h₂ ∧ Kept fp h₁ (.track fp i :: h₂) := by
  constructor
  · intro hfp
    induction h with
    | nil => simp [held] at hfp
    | cons c h ih =>
      by_cases hold : fp ∈ held h
      · obtain ⟨h₁, i, h₂, rfl, hkept⟩ := ih hold
        exact ⟨c :: h₁, i, h₂, rfl, fun hevicts => hevicts.2 hfp, hkept⟩
      · cases c with
        | touch fp' => exact absurd hfp hold
        | track fp' i =>
          obtain rfl : fp' = fp := by
            by_contra hne
            exact hold (held_of_held_cons (c := .track fp' i) hne hfp)
          exact ⟨[], i, h, rfl, trivial⟩
  · rintro ⟨h₁, i, h₂, rfl, hkept⟩
    exact hkept.mem_held

/-- The number of requests and of the session, from the call that started it. -/
theorem Kept.requests_number (hkept : Kept fp h₁ (.track fp i :: h₂)) (hnew : fp ∉ held h₂) :
    requests (h₁ ++ .track fp i :: h₂) fp = h₁.countP (tracks fp) + 1 ∧
      number (h₁ ++ .track fp i :: h₂) fp = insertions h₂ + 1 := by
  induction h₁ with
  | nil => simp [requests, number, hnew]
  | cons c h₁ ih =>
    obtain ⟨hrequests, hnumber⟩ := ih hkept.2
    have hheld := hkept.2.mem_held
    cases c with
    | touch fp' =>
      simp [requests, number, tracks, hrequests, hnumber]
    | track fp' j =>
      by_cases hfp : fp' = fp
      · simp [requests, number, tracks, hfp, hheld, hrequests, hnumber]
      · simp [requests, number, tracks, hfp, hrequests, hnumber]

/-! ### The refinement -/

/-- A call evicts only if it starts a session while there are 10,000. -/
theorem evicts_iff {h : List ConvCall} {c : ConvCall} {fp : String} :
    Evicts h c fp ↔
      Inserts h c ∧ 10000 ≤ (held h).card ∧ fp ∈ held h ∧ fp ∉ recent h 8000 := by
  unfold Evicts
  cases c with
  | touch fp' =>
    constructor
    · rintro ⟨hfp, hnot⟩
      exact absurd hfp hnot
    · rintro ⟨⟨_, hc, _⟩, -⟩
      nomatch hc
  | track fp' i =>
    by_cases hfp' : fp' ∈ held h
    · rw [held_track_of_mem i hfp']
      constructor
      · rintro ⟨hfp, hnot⟩
        exact absurd hfp hnot
      · rintro ⟨⟨_, _, hnot⟩, -⟩
        exact absurd hfp' hnot
    · have hinserts : Inserts h (.track fp' i) := ⟨i, rfl, hfp'⟩
      rw [held_track i hfp', Finset.mem_insert, not_or]
      constructor
      · rintro ⟨hfp, -, hnot⟩
        split_ifs at hnot with hfull
        · exact ⟨hinserts, hfull, hfp, hnot⟩
        · exact absurd hfp hnot
      · rintro ⟨-, hfull, hfp, hnot⟩
        rw [if_pos hfull]
        exact ⟨hfp, fun heq => hfp' (heq ▸ hfp), hnot⟩

theorem card_recent {h : List ConvCall} {n : ℕ} (hn : n ≤ (held h).card) :
    (recent h n).card = n := by
  have hkeys := inOrder_after h
  have hset : recent h n = ((after h).sessions.keys.take n).toFinset := by
    ext fp
    rw [List.mem_toFinset, hkeys.mem_take]
  rw [hset, List.toFinset_card_of_nodup (hkeys.nodup.sublist (List.take_sublist _ _)),
    List.length_take, ← hkeys.card]
  exact Nat.min_eq_left hn

/-- There are never more than 10,000 sessions. -/
theorem card_held_le (h : List ConvCall) : (held h).card ≤ 10000 := by
  induction h with
  | nil => simp [held]
  | cons c h ih =>
    cases c with
    | touch fp => exact ih
    | track fp i =>
      by_cases hfp : fp ∈ held h
      · rwa [held_track_of_mem i hfp]
      · rw [held_track i hfp]
        refine (Finset.card_insert_le _ _).trans ?_
        split_ifs with hfull
        · rw [card_recent (by omega)]
          omega
        · omega

theorem insertions_le_append (h₁ h₂ : List ConvCall) : insertions h₂ ≤ insertions (h₁ ++ h₂) := by
  induction h₁ with
  | nil => exact le_rfl
  | cons c h₁ ih =>
    rw [List.cons_append, insertions]
    split_ifs
    · exact ih.trans (Nat.le_succ _)
    · exact ih

/-- **How a table refines the abstract one** after a history: which sessions there are, what is
stored in them, and what an eviction leaves. -/
structure Refines (h : List ConvCall) (m : ConvMap) : Prop where
  bounded : m.sessions.size ≤ 10000
  present : ∀ fp, (m.session fp).isSome = true ↔
    ∃ h₁ i h₂, h = h₁ ++ .track fp i :: h₂ ∧ Kept fp h₁ (.track fp i :: h₂)
  session : ∀ fp h₁ i h₂, h = h₁ ++ .track fp i :: h₂ → fp ∉ held h₂ →
    Kept fp h₁ (.track fp i :: h₂) → m.session fp = some ⟨lastToken h fp,
      UInt64.ofNat (h₁.countP (tracks fp) + 1), UInt64.ofNat (insertions h₂ + 1)⟩
  distinct : ∀ h₁ c h₁' c' h₂, h = h₁ ++ c :: (h₁' ++ c' :: h₂) → Inserts h₂ c' →
    Inserts (h₁' ++ c' :: h₂) c → insertions (h₁' ++ c' :: h₂) < insertions h₂ + 2 ^ 64 →
      UInt64.ofNat (insertions h₂ + 1) ≠ UInt64.ofNat (insertions (h₁' ++ c' :: h₂) + 1)
  evicts : ∀ c fp, (m.session fp).isSome = true → (m.call c).session fp = none →
    m.session c.fp = none ∧ (∃ i, c = .track c.fp i) ∧ m.sessions.size = 10000
  leaves : ∀ fp i, m.session fp = none → m.sessions.size = 10000 → (recent h 8000).card = 8000 ∧
    ∀ fp', ((m.call (.track fp i)).session fp').isSome = true ↔ fp' = fp ∨ fp' ∈ recent h 8000

/-- **`ConvMap` refines the abstract table**, after every sequence of calls. -/
theorem refines_after (h : List ConvCall) : Refines h (after h) where
  bounded := by
    rw [size_after]
    exact card_held_le h
  present := fun fp => (isSome_session_iff h fp).trans mem_held_iff
  session := by
    rintro fp h₁ i h₂ rfl hnew hkept
    rw [(session_after _).1 fp hkept.mem_held, sessionOf, (hkept.requests_number hnew).1,
      (hkept.requests_number hnew).2]
  distinct := by
    rintro h₁ c h₁' c' h₂ rfl hc' hc hlt heq
    have hle := insertions_le_append h₁' (c' :: h₂)
    rw [insertions, if_pos hc'] at hle
    have hnat := congrArg UInt64.toNat heq
    rw [UInt64.toNat_ofNat', UInt64.toNat_ofNat'] at hnat
    omega
  evicts := by
    intro c fp hsome hnone
    have hevicts : Evicts h c fp :=
      ⟨(isSome_session_iff h fp).1 hsome, (session_eq_none_iff (c :: h) fp).1 hnone⟩
    obtain ⟨⟨i, hc, hnew⟩, hfull, -⟩ := evicts_iff.1 hevicts
    refine ⟨(session_eq_none_iff h c.fp).2 hnew, ⟨i, hc⟩, ?_⟩
    rw [size_after]
    exact le_antisymm (card_held_le h) hfull
  leaves := by
    intro fp i hnone hfull
    rw [size_after] at hfull
    refine ⟨card_recent (by omega), fun fp' => ?_⟩
    rw [show (after h).call (.track fp i) = after (.track fp i :: h) from rfl, isSome_session_iff,
      held_track i ((session_eq_none_iff h fp).1 hnone), if_pos hfull.ge, Finset.mem_insert]

/-! ### Beyond the machine words -/

/-- A fingerprint for each number. -/
def freshName (n : ℕ) : String := String.ofList (List.replicate (n + 1) 'a')

/-- A history of `n` fingerprints tracked once each. -/
def fresh : ℕ → List ConvCall
  | 0 => []
  | n + 1 => .track (freshName n) 0 :: fresh n

theorem freshName_inj {m n : ℕ} (h : freshName m = freshName n) : m = n := by
  rw [freshName, freshName, String.ofList_inj] at h
  simpa using congrArg List.length h

/-- Each of them is new. -/
theorem lt_of_mem_held_fresh {n : ℕ} {fp : String} (h : fp ∈ held (fresh n)) :
    ∃ m < n, fp = freshName m := by
  induction n with
  | zero => simp [fresh, held] at h
  | succ n ih =>
    by_cases hfp : freshName n = fp
    · exact ⟨n, Nat.lt_succ_self n, hfp.symm⟩
    · obtain ⟨m, hm, rfl⟩ := ih (held_of_held_cons (c := .track (freshName n) 0) hfp h)
      exact ⟨m, hm.trans (Nat.lt_succ_self n), rfl⟩

theorem notMem_held_fresh (n : ℕ) : freshName n ∉ held (fresh n) := by
  intro h
  obtain ⟨m, hm, heq⟩ := lt_of_mem_held_fresh h
  exact hm.ne (freshName_inj heq).symm

theorem insertions_fresh (n : ℕ) : insertions (fresh n) = n := by
  induction n with
  | zero => rfl
  | succ n ih =>
    have hinserts : Inserts (fresh n) (.track (freshName n) 0) := ⟨0, rfl, notMem_held_fresh n⟩
    rw [fresh, insertions, if_pos hinserts, ih]

theorem sessNum_fresh (n : ℕ) :
    ((after (fresh (n + 1))).session (freshName n)).map Session.sessNum =
      some (UInt64.ofNat (n + 1)) := by
  have hheld : freshName n ∈ held (fresh (n + 1)) := mem_held_track _ _ _
  have hnumber : number (fresh (n + 1)) (freshName n) = n + 1 := by
    rw [fresh, number, if_pos ⟨rfl, notMem_held_fresh n⟩, insertions_fresh]
  rw [(session_after _).1 _ hheld, Option.map_some, sessionOf, hnumber]

theorem exists_fresh_append {n : ℕ} (hn : 0 < n) : ∃ between, fresh n = between ++ fresh 1 := by
  obtain ⟨n, rfl⟩ := Nat.exists_eq_add_one_of_ne_zero hn.ne'
  induction n with
  | zero => exact ⟨[], rfl⟩
  | succ n ih =>
    obtain ⟨between, h⟩ := ih (Nat.succ_pos n)
    exact ⟨.track (freshName (n + 1)) 0 :: between, by rw [fresh, h, List.cons_append]⟩

/-- The first session and the one after `2 ^ 64` sessions, of another fingerprint, have the same
number. -/
theorem sessNum_again :
    (∃ between, fresh (2 ^ 64) = between ++ fresh 1) ∧ freshName (2 ^ 64) ≠ freshName 0 ∧
      ((after (fresh 1)).session (freshName 0)).map Session.sessNum = some 1 ∧
      ((after (fresh (2 ^ 64 + 1))).session (freshName (2 ^ 64))).map Session.sessNum = some 1 :=
  ⟨exists_fresh_append (by norm_num), fun h => absurd (freshName_inj h) (by norm_num),
    sessNum_fresh 0, (sessNum_fresh (2 ^ 64)).trans (congrArg some (by decide))⟩

end ConvMap
end Mybro
