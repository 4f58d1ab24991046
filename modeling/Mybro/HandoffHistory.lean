import Mybro.HandoffCache

/-!
# The handoff cache over its history (`handoff_cache.rs`)

What `HandoffCache` holds, as a function of the calls so far, each with its time. A call evicts
what it takes out of the cache for its capacity: `get` evicts nothing, as it removes only what has
expired.

* `held_iff`: the cache has the entry of the last `set` of a digest until that is evicted or found
  expired; `get_over_history` says what `get` answers and counts;
* `keepsLru_iff_hasRoom`: in which histories a `set` evicts and counts as it should.
-/

namespace Mybro

/-- A call on the cache. -/
inductive CacheCall
  | get (digest : List UInt8)
  | set (digest : List UInt8) (desc : String)
  | resize (maxSize ttl : ℕ)

/-- The calls so far, the last one first, each with its time. -/
abbrev CacheHistory := List (ℕ × CacheCall)

namespace CacheCall

/-- The digest that a call uses, if the cache has it. -/
def digest : CacheCall → Option (List UInt8)
  | get d => some d
  | set d _ => some d
  | resize _ _ => none

/-- The digest that a call sets. -/
def stores : CacheCall → Option (List UInt8)
  | set d _ => some d
  | _ => none

end CacheCall

namespace HandoffCache

/-- The cache after one more call. -/
def call (c : HandoffCache) (l : ℕ × CacheCall) : HandoffCache :=
  match l.2 with
  | .get d => (c.get l.1 d).2
  | .set d desc => c.set l.1 d desc
  | .resize maxSize ttl => c.resize maxSize ttl

/-- The digests that a call evicts. -/
def evicts (c : HandoffCache) (l : ℕ × CacheCall) : List (List UInt8) :=
  match l.2 with
  | .get _ => []
  | _ => c.inner.keys.filter fun d => d ∉ (c.call l).inner.keys

/-- The call asks for a digest whose entry has expired. -/
def FindsExpired (c : HandoffCache) (l : ℕ × CacheCall) (d : List UInt8) : Prop :=
  l.2 = .get d ∧ ∃ e, c.inner.find d = some e ∧ c.isLive l.1 e = false

/-! ### What a call does to the entries -/

/-- The number of entries that stay when `set` makes room. -/
def room (c : HandoffCache) : ℕ := if c.cap ≤ c.inner.size then c.inner.size - 1 else c.inner.size

theorem keys_evict (c : HandoffCache) : c.evict.inner.keys = c.inner.keys.take c.room := by
  unfold evict room
  by_cases hfull : c.cap ≤ c.inner.size
  · rw [if_pos hfull, if_pos hfull]
    exact c.inner.keys_keep _
  · rw [if_neg hfull, if_neg hfull, ← Lru.length_keys, List.take_length]

theorem keys_set (c : HandoffCache) (now : ℕ) (d : List UInt8) (desc : String) :
    (c.set now d desc).inner.keys = d :: (c.inner.keys.take c.room).filter fun j => j ≠ d := by
  rw [← keys_evict]
  exact c.evict.inner.keys_put d _

/-- What `set` evicts: what it makes room for, but for the digest itself. -/
theorem evicts_set (c : HandoffCache) (now : ℕ) (d : List UInt8) (desc : String) :
    c.evicts (now, .set d desc) = (c.inner.keys.drop c.room).filter fun j => j ≠ d := by
  rw [← c.inner.filter_notMem_keep c.room, List.filter_filter]
  show c.inner.keys.filter (fun j => j ∉ (c.set now d desc).inner.keys) = _
  rw [keys_set]
  refine List.filter_congr fun j _ => ?_
  by_cases hj : j = d <;> simp [hj]

theorem evicts_resize (c : HandoffCache) (now maxSize ttl : ℕ) :
    c.evicts (now, .resize maxSize ttl) = c.inner.keys.drop (capacity maxSize) := by
  rw [← c.inner.filter_notMem_keep (capacity maxSize)]
  exact List.filter_congr fun j _ => decide_eq_decide.2 Iff.rfl

/-- A call that does not set a digest gives it no entry. -/
theorem find_of_find_call {c : HandoffCache} {l : ℕ × CacheCall} {d : List UInt8} {e : CacheEntry}
    (hl : l.2.stores ≠ some d) (h : (c.call l).inner.find d = some e) :
    c.inner.find d = some e := by
  obtain ⟨now, call⟩ := l
  cases call with
  | get d' => exact find_of_find_get h
  | set d' desc =>
    rcases find_set h with ⟨rfl, -⟩ | ⟨-, h⟩
    · exact absurd rfl hl
    · exact h
  | resize maxSize ttl => exact Lru.find_of_find_keep h

/-- What a call that evicts leaves in the cache. -/
theorem mem_keys_call {c : HandoffCache} {l : ℕ × CacheCall} {d : List UInt8}
    (hl : ∀ d, l.2 ≠ .get d) (hd : d ∈ c.inner.keys) (h : d ∉ c.evicts l) :
    d ∈ (c.call l).inner.keys := by
  obtain ⟨now, call⟩ := l
  by_contra hlost
  refine h ?_
  cases call with
  | get d' => exact absurd rfl (hl d')
  | _ => exact List.mem_filter.2 ⟨hd, by simpa using hlost⟩

/-- What `get` leaves in the cache. -/
theorem find_get (c : HandoffCache) (now : ℕ) (d j : List UInt8) :
    (c.get now d).2.inner.find j =
      if d = j ∧ ∃ e, c.inner.find d = some e ∧ c.isLive now e = false then none
      else c.inner.find j := by
  unfold get
  cases hfind : c.inner.find d with
  | none => simp
  | some e =>
    by_cases hlive : c.isLive now e = true
    · simp [hlive]
    · simp [hlive, Lru.find_pop]

/-- **What a call leaves of the entries**: a digest that it does not set keeps its entry, unless it
is evicted or found expired. -/
theorem find_call_iff {c : HandoffCache} {l : ℕ × CacheCall} {d : List UInt8} {e : CacheEntry}
    (hl : l.2.stores ≠ some d) : (c.call l).inner.find d = some e ↔
      c.inner.find d = some e ∧ d ∉ c.evicts l ∧ ¬ c.FindsExpired l d := by
  by_cases hget : ∃ d', l.2 = .get d'
  · obtain ⟨now, call⟩ := l
    obtain ⟨d', rfl⟩ := hget
    show (c.get now d').2.inner.find d = some e ↔ _
    rw [find_get]
    by_cases hexpired : d' = d ∧ ∃ e, c.inner.find d' = some e ∧ c.isLive now e = false
    · rw [if_pos hexpired]
      obtain ⟨rfl, hexpired⟩ := hexpired
      exact ⟨nofun, fun h => absurd ⟨rfl, hexpired⟩ h.2.2⟩
    · rw [if_neg hexpired]
      refine ⟨fun h => ⟨h, List.not_mem_nil, ?_⟩, fun h => h.1⟩
      rintro ⟨heq, hlive⟩
      cases heq
      exact hexpired ⟨rfl, hlive⟩
  · constructor
    · intro h
      refine ⟨find_of_find_call hl h, fun hlost => ?_, fun hex => hget ⟨d, hex.1⟩⟩
      have hmem : d ∈ (c.call l).inner.keys := Lru.isSome_find_iff.1 (by rw [h]; rfl)
      obtain ⟨now, call⟩ := l
      cases call with
      | get d' => exact hget ⟨d', rfl⟩
      | _ => exact absurd hmem (by simpa using (List.mem_filter.1 hlost).2)
    · rintro ⟨h, hstay, -⟩
      have hmem : d ∈ (c.call l).inner.keys :=
        mem_keys_call (fun d' heq => hget ⟨d', heq⟩) (Lru.isSome_find_iff.1 (by rw [h]; rfl)) hstay
      obtain ⟨e', he'⟩ := Option.isSome_iff_exists.1 (Lru.isSome_find_iff.2 hmem)
      have heq := find_of_find_call hl he'
      rw [h] at heq
      rw [he', ← heq]

/-! ### Histories -/

section

variable (c₀ : HandoffCache)

/-- The cache after a history. -/
def after : CacheHistory → HandoffCache
  | [] => c₀
  | l :: h => (after h).call l

/-- What was stored with the last `set` of a digest, and when. -/
def lastSet : CacheHistory → List UInt8 → Option CacheEntry
  | [], _ => none
  | (now, .set d' desc) :: h, d => if d' = d then some ⟨desc, now⟩ else lastSet h d
  | _ :: h, d => lastSet h d

/-- A digest has been evicted since it was last set. -/
def Evicted : CacheHistory → List UInt8 → Prop
  | [], _ => False
  | l :: h, d => l.2.stores ≠ some d ∧ (Evicted h d ∨ d ∈ (after c₀ h).evicts l)

/-- A digest has been found expired since it was last set. -/
def Expired : CacheHistory → List UInt8 → Prop
  | [], _ => False
  | l :: h, d => l.2.stores ≠ some d ∧ (Expired h d ∨ (after c₀ h).FindsExpired l d)

/-- The number of digests evicted. -/
def evicted : CacheHistory → ℕ
  | [] => 0
  | l :: h => evicted h + ((after c₀ h).evicts l).length

end

theorem lastSet_cons {l : ℕ × CacheCall} {d : List UInt8} (hl : l.2.stores ≠ some d)
    (h : CacheHistory) : lastSet (l :: h) d = lastSet h d := by
  obtain ⟨now, call⟩ := l
  cases call with
  | set d' desc =>
    have hne : d' ≠ d := fun heq => hl (congrArg some heq)
    rw [lastSet, if_neg hne]
  | _ => rfl

/-- **What the cache holds**: what was stored with the last `set` of a digest, if it has been
neither evicted nor found expired since. -/
theorem held_iff (maxSize ttl : ℕ) (h : CacheHistory) (d : List UInt8) (e : CacheEntry) :
    (after (new maxSize ttl) h).inner.find d = some e ↔
      lastSet h d = some e ∧ ¬ Evicted (new maxSize ttl) h d ∧ ¬ Expired (new maxSize ttl) h d := by
  induction h with
  | nil => exact ⟨nofun, fun h => h.1⟩
  | cons l h ih =>
    by_cases hl : l.2.stores = some d
    · -- the call sets the digest
      obtain ⟨now, call⟩ := l
      cases call with
      | set d' desc =>
        cases hl
        show ((after _ h).set now d desc).inner.find d = some e ↔ _
        rw [show ((after (new maxSize ttl) h).set now d desc).inner =
          (after (new maxSize ttl) h).evict.inner.put d ⟨desc, now⟩ from rfl, Lru.find_put,
          if_pos rfl, lastSet, if_pos rfl]
        exact ⟨fun heq => ⟨heq, fun hev => hev.1 rfl, fun hex => hex.1 rfl⟩, fun heq => heq.1⟩
      | _ => cases hl
    · rw [show after (new maxSize ttl) (l :: h) = (after (new maxSize ttl) h).call l from rfl,
        find_call_iff hl, ih, lastSet_cons hl, Evicted, Expired]
      tauto

/-! #### The size -/

theorem capacity_pos (maxSize : ℕ) : 0 < capacity maxSize := by
  unfold capacity
  split_ifs <;> omega

/-- A cache within its capacity. -/
structure Bounded (c : HandoffCache) : Prop where
  pos : 0 < c.cap
  size_le : c.inner.size ≤ c.cap

theorem Bounded.room_lt {c : HandoffCache} (hc : c.Bounded) : c.room < c.cap := by
  have hpos := hc.pos
  have hle := hc.size_le
  unfold room
  split_ifs <;> omega

theorem cap_set (c : HandoffCache) (now : ℕ) (d : List UInt8) (desc : String) :
    (c.set now d desc).cap = c.cap := by
  show c.evict.cap = c.cap
  unfold evict
  split_ifs <;> rfl

theorem Bounded.set {c : HandoffCache} (hc : c.Bounded) (now : ℕ) (d : List UInt8)
    (desc : String) : (c.set now d desc).Bounded := by
  refine ⟨by rw [cap_set]; exact hc.pos, ?_⟩
  rw [cap_set, ← Lru.length_keys, keys_set, List.length_cons]
  have hfilter : ((c.inner.keys.take c.room).filter fun j => j ≠ d).length ≤ c.room :=
    (List.length_filter_le _ _).trans (List.length_take_le _ _)
  have hroom := hc.room_lt
  omega

/-- The keys after `get`: a digest that is found comes first, or goes if its entry has expired. -/
theorem keys_get (c : HandoffCache) (now : ℕ) (d : List UInt8) :
    (d ∉ c.inner.keys ∧ (c.get now d).2.inner.keys = c.inner.keys) ∨
    (d ∈ c.inner.keys ∧ (c.get now d).2.inner.keys = d :: c.inner.keys.filter fun j => j ≠ d) ∨
    (c.get now d).2.inner.keys = c.inner.keys.filter fun j => j ≠ d := by
  unfold get
  cases hfind : c.inner.find d with
  | none => exact Or.inl ⟨Lru.find_eq_none_iff.1 hfind, rfl⟩
  | some e =>
    have hmem : d ∈ c.inner.keys := Lru.isSome_find_iff.1 (by rw [hfind]; rfl)
    by_cases hlive : c.isLive now e = true
    · simp only [hlive, if_true]
      exact Or.inr (Or.inl ⟨hmem, Lru.keys_use hmem⟩)
    · simp only [hlive]
      refine Or.inr (Or.inr ?_)
      show ((c.inner.use d).pop d).keys = _
      rw [Lru.keys_pop, Lru.keys_use hmem, List.filter_cons_of_neg (by simp), List.filter_filter]
      simp

theorem cap_get (c : HandoffCache) (now : ℕ) (d : List UInt8) :
    (c.get now d).2.cap = c.cap ∧ (c.get now d).2.evictions = c.evictions := by
  unfold get
  cases c.inner.find d with
  | none => exact ⟨rfl, rfl⟩
  | some e => by_cases hlive : c.isLive now e = true <;> simp [hlive]

/-- A digest among the keys makes room for itself. -/
theorem length_behind_le {l : List (List UInt8)} {d : List UInt8} (hd : d ∈ l) :
    (d :: l.filter fun j => j ≠ d).length ≤ l.length := by
  rw [List.length_cons]
  refine List.length_filter_lt_length_iff_exists.2 ⟨d, hd, by simp⟩

theorem Bounded.get {c : HandoffCache} (hc : c.Bounded) (now : ℕ) (d : List UInt8) :
    (c.get now d).2.Bounded := by
  obtain ⟨hcap, -⟩ := c.cap_get now d
  refine ⟨by rw [hcap]; exact hc.pos, ?_⟩
  have hle := hc.size_le
  rw [← Lru.length_keys] at hle
  rw [hcap, ← Lru.length_keys]
  rcases c.keys_get now d with ⟨-, hkeys⟩ | ⟨hmem, hkeys⟩ | hkeys
  · rw [hkeys]
    exact hle
  · rw [hkeys]
    exact (length_behind_le hmem).trans hle
  · rw [hkeys]
    exact (List.length_filter_le _ _).trans hle

theorem Bounded.resize (c : HandoffCache) (maxSize ttl : ℕ) : (c.resize maxSize ttl).Bounded := by
  refine ⟨capacity_pos maxSize, ?_⟩
  rw [← Lru.length_keys]
  show (c.inner.keep (capacity maxSize)).keys.length ≤ capacity maxSize
  rw [Lru.keys_keep]
  exact List.length_take_le _ _

/-- A call keeps the cache within its capacity. -/
theorem Bounded.call {c : HandoffCache} (hc : c.Bounded) (l : ℕ × CacheCall) :
    (c.call l).Bounded := by
  obtain ⟨now, call⟩ := l
  cases call with
  | get d => exact hc.get now d
  | set d desc => exact hc.set now d desc
  | resize maxSize ttl => exact Bounded.resize c maxSize ttl

theorem bounded_after (maxSize ttl : ℕ) (h : CacheHistory) :
    (after (new maxSize ttl) h).Bounded := by
  induction h with
  | nil => exact ⟨capacity_pos maxSize, Nat.zero_le _⟩
  | cons l h ih => exact ih.call l

/-! ### Freshness -/

/-- What `get` counts: one more hit when it has an answer, one more miss when it has none. -/
theorem counts_get (c : HandoffCache) (now : ℕ) (d : List UInt8) :
    ((c.get now d).2.hits, (c.get now d).2.misses) =
      if (c.get now d).1.isSome then (c.hits + 1, c.misses) else (c.hits, c.misses + 1) := by
  unfold get
  cases c.inner.find d with
  | none => rfl
  | some e => by_cases hlive : c.isLive now e = true <;> simp [hlive]

theorem get_eq_some_iff {c : HandoffCache} {now : ℕ} {d : List UInt8} {desc : String} :
    (c.get now d).1 = some desc ↔ ∃ e, c.Holds now d e ∧ e.desc = desc :=
  ⟨holds_of_get, fun ⟨_, he, hdesc⟩ => hdesc ▸ get_of_holds he⟩

/-- **`get` over the history**: it answers with what was stored with the last `set` of the digest,
if that was less than the lifetime in force ago and the digest has been neither evicted nor found
expired since; it counts one hit when it answers and one miss when it does not; and the cache stays
within its capacity. -/
theorem get_over_history (maxSize ttl : ℕ) (h : CacheHistory) (now : ℕ) (d : List UInt8) :
    (∀ desc, ((after (new maxSize ttl) h).get now d).1 = some desc ↔
      ∃ t, lastSet h d = some ⟨desc, t⟩ ∧ now - t < (after (new maxSize ttl) h).ttl * 1000000 ∧
        ¬ Evicted (new maxSize ttl) h d ∧ ¬ Expired (new maxSize ttl) h d) ∧
    (((after (new maxSize ttl) h).get now d).2.hits,
        ((after (new maxSize ttl) h).get now d).2.misses) =
      (if ((after (new maxSize ttl) h).get now d).1.isSome then
        ((after (new maxSize ttl) h).hits + 1, (after (new maxSize ttl) h).misses)
      else ((after (new maxSize ttl) h).hits, (after (new maxSize ttl) h).misses + 1)) ∧
    (after (new maxSize ttl) h).inner.size ≤ (after (new maxSize ttl) h).cap := by
  refine ⟨fun desc => ?_, counts_get _ now d, (bounded_after maxSize ttl h).size_le⟩
  rw [get_eq_some_iff]
  constructor
  · rintro ⟨e, ⟨hfind, hlive⟩, rfl⟩
    obtain ⟨hset, hstay⟩ := (held_iff maxSize ttl h d e).1 hfind
    exact ⟨e.inserted, hset, by simpa [isLive] using hlive, hstay⟩
  · rintro ⟨t, hset, hlive, hstay⟩
    exact ⟨⟨desc, t⟩, ⟨(held_iff maxSize ttl h d _).2 ⟨hset, hstay⟩,
      by simpa [isLive] using hlive⟩, rfl⟩

/-- An entry is found expired, and then its lifetime is raised: `get` does not answer any more,
although the entry is younger than its lifetime and has not been evicted. -/
theorem found_expired_stays_gone : ¬ ∀ (maxSize ttl : ℕ) (h : CacheHistory) (now : ℕ)
    (d : List UInt8) (desc : String) (t : ℕ),
    ((now, CacheCall.get d) :: h).Pairwise (fun later earlier => earlier.1 ≤ later.1) →
    lastSet h d = some ⟨desc, t⟩ → now - t < (after (new maxSize ttl) h).ttl * 1000000 →
    ¬ Evicted (new maxSize ttl) h d →
    ((after (new maxSize ttl) h).get now d).1 = some desc := by
  intro h
  have hget := h 50 1000000 [(2000000, .resize 50 3600000000000), (2000000, .get [7]),
    (0, .set [7] "a cat")] 3000000 [7] "a cat" 0 (by decide) rfl (by decide) ?_
  · cases hget
  · -- the last `set` comes first of all, and after it the cache has one entry at most
    rintro ⟨-, ⟨-, ⟨hset, -⟩ | hget⟩ | hresize⟩
    · exact hset rfl
    · cases hget
    · exact absurd hresize (by decide)

/-! ### The order of use -/

/-- The number of calls since a digest was used. -/
def age (h : CacheHistory) (d : List UInt8) : ℕ := h.findIdx fun l => l.2.digest = some d

theorem age_cons (l : ℕ × CacheCall) (h : CacheHistory) (d : List UInt8) :
    age (l :: h) d = if l.2.digest = some d then 0 else age h d + 1 := by
  unfold age
  rw [List.findIdx_cons]
  by_cases hl : l.2.digest = some d <;> simp [hl]

/-- The keys are in the order of their use, the one used last first. -/
def ByAge (h : CacheHistory) (keys : List (List UInt8)) : Prop :=
  keys.Pairwise fun i j => age h i < age h j

theorem ByAge.sublist {h : CacheHistory} {keys keys' : List (List UInt8)} (hkeys : ByAge h keys)
    (hsub : keys'.Sublist keys) : ByAge h keys' :=
  List.Pairwise.sublist hsub hkeys

/-- Keys that a call does not use keep their order. -/
theorem ByAge.other {h : CacheHistory} {keys : List (List UInt8)} (hkeys : ByAge h keys)
    {l : ℕ × CacheCall} (hl : ∀ d ∈ keys, l.2.digest ≠ some d) : ByAge (l :: h) keys := by
  refine hkeys.imp_of_mem fun hi hj hlt => ?_
  rw [age_cons, age_cons, if_neg (hl _ hi), if_neg (hl _ hj)]
  exact Nat.succ_lt_succ hlt

/-- The key that a call uses comes first. -/
theorem ByAge.behind {h : CacheHistory} {keys : List (List UInt8)} (hkeys : ByAge h keys)
    {l : ℕ × CacheCall} {d : List UInt8} (hl : l.2.digest = some d) :
    ByAge (l :: h) (d :: keys.filter fun j => j ≠ d) := by
  refine Lru.pairwise_behind (List.Pairwise.sublist List.filter_sublist hkeys)
    (by rw [age_cons, if_pos hl]) ?_
  intro j hj
  have hne : j ≠ d := by simpa using (List.mem_filter.1 hj).2
  rw [age_cons, if_neg]
  rw [hl]
  exact fun heq => hne (Option.some.inj heq).symm

theorem ByAge.without {h : CacheHistory} {keys : List (List UInt8)} (hkeys : ByAge h keys)
    {l : ℕ × CacheCall} {d : List UInt8} (hl : l.2.digest = some d) :
    ByAge (l :: h) (keys.filter fun j => j ≠ d) :=
  (hkeys.behind hl).tail

/-- A call keeps the order of use. -/
theorem ByAge.call {c : HandoffCache} {h : CacheHistory} (hc : ByAge h c.inner.keys)
    (l : ℕ × CacheCall) : ByAge (l :: h) (c.call l).inner.keys := by
  obtain ⟨now, call⟩ := l
  cases call with
  | get d =>
    show ByAge _ (c.get now d).2.inner.keys
    rcases c.keys_get now d with ⟨hnew, hkeys⟩ | ⟨-, hkeys⟩ | hkeys
    · rw [hkeys]
      refine hc.other fun j hj heq => hnew ?_
      cases heq
      exact hj
    · rw [hkeys]
      exact hc.behind rfl
    · rw [hkeys]
      exact hc.without rfl
  | set d desc =>
    show ByAge _ (c.set now d desc).inner.keys
    rw [keys_set]
    exact (hc.sublist (List.take_sublist _ _)).behind rfl
  | resize maxSize ttl =>
    show ByAge _ (c.inner.keep (capacity maxSize)).keys
    rw [Lru.keys_keep]
    exact (hc.sublist (List.take_sublist _ _)).other fun d _ => nofun

theorem byAge_after (maxSize ttl : ℕ) (h : CacheHistory) :
    ByAge h (after (new maxSize ttl) h).inner.keys := by
  induction h with
  | nil => exact List.Pairwise.nil
  | cons l h ih => exact ih.call l

/-! ### What makes room -/

/-- **What a `set` should keep** of the cache after `h`: it takes out at most one other digest, and
only if the digest is new and the cache full, and then the one used longest ago; afterwards the
digest is there, and the cache within its capacity. -/
structure SetsWell (c : HandoffCache) (h : CacheHistory) (now : ℕ) (d : List UInt8)
    (desc : String) : Prop where
  one : (c.evicts (now, .set d desc)).length ≤ 1
  oldest : ∀ j ∈ c.evicts (now, .set d desc),
    d ∉ c.inner.keys ∧ c.cap ≤ c.inner.size ∧ ∀ k ∈ c.inner.keys, age h k ≤ age h j
  present : d ∈ (c.set now d desc).inner.keys
  size_le : (c.set now d desc).inner.size ≤ (c.set now d desc).cap

/-- The condition on a call: a digest that is set comes to a full cache only if it is new, and then
the count can grow; a `resize` leaves room for all entries. -/
def HasRoom (c : HandoffCache) (l : ℕ × CacheCall) : Prop :=
  match l.2 with
  | .get _ => True
  | .set d _ =>
    c.inner.size < c.cap ∨ (d ∉ c.inner.keys ∧ c.evictions.toNat + 1 < 2 ^ 64)
  | .resize maxSize _ => c.inner.size ≤ capacity maxSize

section

variable (c₀ : HandoffCache)

/-- The last call keeps what LRU must keep, and after it `evictions` is the number of digests
evicted. -/
def KeepsLru (h : CacheHistory) (l : ℕ × CacheCall) : Prop :=
  (∀ d desc, l.2 = .set d desc → SetsWell (after c₀ h) h l.1 d desc) ∧
    (after c₀ (l :: h)).evictions.toNat = evicted c₀ (l :: h)

/-- Every call of a history meets `C`, a condition on it and on the calls before it. -/
def EachCall (C : CacheHistory → ℕ × CacheCall → Prop) : CacheHistory → Prop
  | [] => True
  | l :: h => C h l ∧ EachCall C h

end

/-- The key used longest ago. -/
theorem ByAge.le_last {h : CacheHistory} {keys : List (List UInt8)} {d : List UInt8}
    (hkeys : ByAge h (keys ++ [d])) {k : List UInt8} (hk : k ∈ keys ++ [d]) :
    age h k ≤ age h d := by
  rcases List.mem_append.1 hk with hk | hk
  · exact ((List.pairwise_append.1 hkeys).2.2 k hk d (List.mem_singleton_self d)).le
  · rw [List.mem_singleton.1 hk]

theorem evictions_set {c : HandoffCache} (hc : c.Bounded) (now : ℕ) (d : List UInt8)
    (desc : String) : (c.set now d desc).evictions =
      if c.cap ≤ c.inner.size then c.evictions + 1 else c.evictions := by
  have hpos := hc.pos
  show c.evict.evictions = _
  unfold evict
  split_ifs with hfull hzero
  · omega
  · rfl
  · rfl

/-- A `set` while the cache is not full evicts nothing. -/
theorem evicts_set_of_lt {c : HandoffCache} (hlt : c.inner.size < c.cap) (now : ℕ) (d : List UInt8)
    (desc : String) : c.evicts (now, .set d desc) = [] := by
  rw [evicts_set, room, if_neg (by omega), ← Lru.length_keys, List.drop_length, List.filter_nil]

/-- A `set` while the cache is full evicts the digest used longest ago, if that is another one. -/
theorem evicts_set_of_full {c : HandoffCache} (hc : c.Bounded) (hfull : c.cap ≤ c.inner.size)
    (now : ℕ) (d : List UInt8) (desc : String) :
    ∃ keys last, c.inner.keys = keys ++ [last] ∧
      c.evicts (now, .set d desc) = if last = d then [] else [last] := by
  have hne : c.inner.keys ≠ [] := by
    have hpos := hc.pos
    refine List.ne_nil_of_length_pos ?_
    rw [Lru.length_keys]
    omega
  refine ⟨_, _, (List.dropLast_append_getLast hne).symm, ?_⟩
  rw [evicts_set, room, if_pos hfull, ← Lru.length_keys, List.drop_length_sub_one hne]
  split_ifs with hlast <;> simp [hlast]

section

variable {c : HandoffCache} {h : CacheHistory}

/-- A `set` keeps what it must if it evicts nothing, or for a new digest the one used longest
ago. -/
theorem setsWell_of (hc : c.Bounded) {now : ℕ} {d : List UInt8} {desc : String}
    (hev : c.evicts (now, .set d desc) = [] ∨ ∃ keys last, c.inner.keys = keys ++ [last] ∧
      c.evicts (now, .set d desc) = [last] ∧ d ∉ c.inner.keys ∧ c.cap ≤ c.inner.size)
    (hage : ByAge h c.inner.keys) : SetsWell c h now d desc := by
  have hpresent : d ∈ (c.set now d desc).inner.keys := by
    rw [keys_set]
    exact List.mem_cons_self
  rcases hev with hev | ⟨keys, last, hkeys, hev, hnew, hfull⟩
  · exact ⟨by simp [hev], by simp [hev], hpresent, (hc.set now d desc).size_le⟩
  · refine ⟨by simp [hev], fun j hj => ?_, hpresent, (hc.set now d desc).size_le⟩
    rw [hev, List.mem_singleton] at hj
    subst hj
    refine ⟨hnew, hfull, fun k hk => ?_⟩
    rw [hkeys] at hage hk
    exact hage.le_last hk

/-- **A `set` keeps what it must, and counts right, exactly when it has room.** -/
theorem setsWell_iff (hc : c.Bounded) (hage : ByAge h c.inner.keys) (now : ℕ) (d : List UInt8)
    (desc : String) :
    (SetsWell c h now d desc ∧ (c.set now d desc).evictions.toNat =
      c.evictions.toNat + (c.evicts (now, .set d desc)).length) ↔
        HasRoom c (now, .set d desc) := by
  rw [evictions_set hc]
  unfold HasRoom
  by_cases hfull : c.cap ≤ c.inner.size
  · obtain ⟨keys, last, hkeys, hev⟩ := evicts_set_of_full hc hfull now d desc
    have hlt := c.evictions.toNat_lt
    rw [if_pos hfull, UInt64.toNat_add, hev]
    by_cases hlast : last = d
    · -- the digest itself is evicted: nothing goes, but it is counted
      have hmem : d ∈ c.inner.keys := by simp [hkeys, hlast]
      rw [if_pos hlast]
      simp only [hmem, not_true_eq_false, false_and, or_false, List.length_nil]
      refine ⟨fun h => ?_, fun h => absurd h (by omega)⟩
      have hcount := h.2
      simp at hcount
      omega
    · rw [if_neg hlast]
      by_cases hmem : d ∈ c.inner.keys
      · simp only [hmem, not_true_eq_false, false_and, or_false]
        refine ⟨fun h => ?_, fun h => absurd h (by omega)⟩
        refine absurd hmem (h.1.oldest last ?_).1
        rw [hev, if_neg hlast]
        exact List.mem_singleton_self last
      · have hwell : SetsWell c h now d desc :=
          setsWell_of hc (Or.inr ⟨keys, last, hkeys, by rw [hev, if_neg hlast], hmem, hfull⟩) hage
        simp only [hwell, hmem, true_and, not_false_eq_true, List.length_singleton]
        simp
        omega
  · have hev := evicts_set_of_lt (Nat.lt_of_not_le hfull) now d desc
    rw [if_neg hfull, hev]
    exact ⟨fun _ => Or.inl (Nat.lt_of_not_le hfull),
      fun _ => ⟨setsWell_of hc (Or.inl hev) hage, rfl⟩⟩

end

/-- **What one more call does**: it keeps what LRU must keep exactly when it has room. -/
theorem keepsLru_iff {maxSize ttl : ℕ} {h : CacheHistory}
    (hcount : (after (new maxSize ttl) h).evictions.toNat = evicted (new maxSize ttl) h)
    (l : ℕ × CacheCall) :
    KeepsLru (new maxSize ttl) h l ↔ HasRoom (after (new maxSize ttl) h) l := by
  have hc := bounded_after maxSize ttl h
  unfold KeepsLru
  rw [evicted, ← hcount]
  obtain ⟨now, call⟩ := l
  cases call with
  | get d =>
    have hsame : (after (new maxSize ttl) ((now, .get d) :: h)).evictions =
        (after (new maxSize ttl) h).evictions := ((after (new maxSize ttl) h).cap_get now d).2
    rw [hsame]
    exact ⟨fun _ => trivial, fun _ => ⟨nofun, rfl⟩⟩
  | set d desc =>
    rw [← setsWell_iff hc (byAge_after maxSize ttl h) now d desc]
    refine and_congr_left' ⟨fun hwell => hwell d desc rfl, ?_⟩
    rintro hwell _ _ ⟨⟩
    exact hwell
  | resize maxSize' ttl' =>
    have hsame : (after (new maxSize ttl) ((now, .resize maxSize' ttl') :: h)).evictions =
        (after (new maxSize ttl) h).evictions := rfl
    rw [hsame, evicts_resize, List.length_drop, Lru.length_keys]
    show _ ↔ (after (new maxSize ttl) h).inner.size ≤ capacity maxSize'
    refine ⟨fun hkeeps => ?_, fun hroom => ⟨nofun, by omega⟩⟩
    have hcount' := hkeeps.2
    omega

/-- **The handoff cache keeps what LRU must keep in exactly those histories in which every call has
room**: throughout, a `set` takes out at most one other digest, namely the one used longest ago when
a new one comes to a full cache, and `evictions` is the number of digests taken out for the
capacity, if and only if no digest is set again while the cache is full and no `resize` takes
entries away. -/
theorem keepsLru_iff_hasRoom (maxSize ttl : ℕ) (h : CacheHistory) :
    EachCall (KeepsLru (new maxSize ttl)) h ↔
      EachCall (fun h => HasRoom (after (new maxSize ttl) h)) h := by
  -- as long as every call has had room, the count is right
  suffices hboth : (EachCall (KeepsLru (new maxSize ttl)) h ↔
      EachCall (fun h => HasRoom (after (new maxSize ttl) h)) h) ∧
      (EachCall (KeepsLru (new maxSize ttl)) h →
        (after (new maxSize ttl) h).evictions.toNat = evicted (new maxSize ttl) h) from hboth.1
  induction h with
  | nil => exact ⟨Iff.rfl, fun _ => rfl⟩
  | cons l h ih =>
    refine ⟨?_, fun hkeeps => hkeeps.1.2⟩
    constructor
    · rintro ⟨hl, hh⟩
      exact ⟨(keepsLru_iff (ih.2 hh) l).1 hl, ih.1.1 hh⟩
    · rintro ⟨hl, hh⟩
      have hkeeps := ih.1.2 hh
      exact ⟨(keepsLru_iff (ih.2 hkeeps) l).2 hl, hkeeps⟩

/-- A digest is set again while the cache is full: the other one goes. -/
theorem set_again_evicts : ¬ ∀ (maxSize ttl : ℕ) (h : CacheHistory),
    h.Pairwise (fun later earlier => earlier.1 ≤ later.1) →
      EachCall (KeepsLru (new maxSize ttl)) h := by
  intro hall
  have hkeeps := hall 2 1000000 [(2, .set [2] "b"), (1, .set [2] "b"), (0, .set [1] "a")]
    (by decide)
  exact (hkeeps.1.1 [2] "b" rfl).oldest [1] (by decide) |>.1 (by decide)

end HandoffCache

end Mybro
