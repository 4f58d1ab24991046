import Mybro.Errlog
import Mybro.Lib.JsonFrame

/-!
# The redaction walk (`errlog.rs`)

`redact_value_in_place` redacts the values under sensitive keys and goes on everywhere but in the
contents of messages: of these it truncates the strings, and leaves what is no string as it is.
`redacts_iff` says for which bodies the walk is complete.
-/

namespace Mybro

open Value

/-! ### The walk -/

/-- `to_lowercase`, as far as it matters for ASCII keys. -/
def lowered (k : String) : String := String.ofList (k.toList.map CaseTables.lowerChar)

/-- What takes the place of a sensitive value. -/
def redacted : Value := string "[REDACTED]"

/-- What becomes of the content of a message; the slice panics inside a character. -/
def redactContent : Value → Option Value
  | string s =>
    if Utf8.len s > 2000 then
      (Utf8.sliceTo s 2000).map fun start => string (start ++ "...[truncated]")
    else some (string s)
  | v => some v

mutual

/-- `redact_value_in_place`; `none` when it panics. -/
def redactValueInPlace : Bool → Value → Option Value
  | inMessages, array xs => (redactElements inMessages xs).map array
  | inMessages, object m => (redactMembers inMessages m).map object
  | _, v => some v
termination_by structural _ v => v

/-- Its loop over the elements of an array. -/
def redactElements : Bool → List Value → Option (List Value)
  | _, [] => some []
  | inMessages, v :: vs =>
    (redactValueInPlace inMessages v).bind fun w => (redactElements inMessages vs).map (w :: ·)
termination_by structural _ vs => vs

/-- Its loop over the members of an object. -/
def redactMembers : Bool → List (String × Value) → Option (List (String × Value))
  | _, [] => some []
  | inMessages, (k, v) :: m =>
    (if isSensitive k then some redacted
      else if lowered k = "messages" then redactValueInPlace true v
      else if inMessages && lowered k = "content" then redactContent v
      else redactValueInPlace false v).bind fun w =>
        (redactMembers inMessages m).map ((k, w) :: ·)
termination_by structural _ m => m

end

/-- `redact_body_json`. -/
def redactBodyJson (body : Value) : Option Value := redactValueInPlace false body

/-- What becomes of one member. -/
def redactEntry (inMessages : Bool) (k : String) (v : Value) : Option Value :=
  if isSensitive k then some redacted
  else if inMessages && lowered k = "content" then redactContent v
  else redactValueInPlace (lowered k = "messages") v

theorem redactMembers_cons (b : Bool) (k : String) (v : Value) (m : List (String × Value)) :
    redactMembers b ((k, v) :: m) =
      (redactEntry b k v).bind fun w => (redactMembers b m).map ((k, w) :: ·) := by
  rw [redactMembers, redactEntry]
  congr 1
  by_cases hmessages : lowered k = "messages"
  · simp [hmessages]
  · simp [hmessages]

/-! ### What redaction is for -/

/-- The member of an object somewhere in a value. -/
inductive EntryIn (k : String) (x : Value) : Value → Prop
  | here {m : List (String × Value)} (h : (k, x) ∈ m) : EntryIn k x (object m)
  | element {xs : List Value} {v : Value} (h : v ∈ xs) (hx : EntryIn k x v) : EntryIn k x (array xs)
  | member {m : List (String × Value)} {k' : String} {v : Value} (h : (k', v) ∈ m)
      (hx : EntryIn k x v) : EntryIn k x (object m)

/-- Every member under a sensitive key, at any depth, has been redacted. -/
def AllRedacted (v : Value) : Prop := ∀ k x, EntryIn k x v → isSensitive k = true → x = redacted

/-- The contents of the messages in a value, with their places; the flag says whether the value is a
message itself, or a list of them. -/
inductive MessageContent : Bool → Value → List Seg → Value → Prop
  | here {m : List (String × Value)} {k : String} {x : Value} (hk : lowered k = "content")
      (h : (k, x) ∈ m) : MessageContent true (object m) [.key k] x
  | element {b : Bool} {xs : List Value} {i : ℕ} {v x : Value} {path : List Seg}
      (h : xs[i]? = some v) (hx : MessageContent b v path x) :
      MessageContent b (array xs) (.idx i :: path) x
  | member {b : Bool} {m : List (String × Value)} {k : String} {v x : Value} {path : List Seg}
      (h : (k, v) ∈ m) (hs : isSensitive k = false) (hc : (b && lowered k = "content") = false)
      (hx : MessageContent (lowered k = "messages") v path x) :
      MessageContent b (object m) (.key k :: path) x

/-- A place under a sensitive key. -/
def SensitivePlace (path : List Seg) : Prop := ∃ p k, path = p ++ [.key k] ∧ isSensitive k = true

/-- A place that redaction may change: under a sensitive key, or an over-long content string. -/
def RedactPlace (b : Bool) (v : Value) (path : List Seg) : Prop :=
  SensitivePlace path ∨ ∃ s, MessageContent b v path (string s) ∧ 2000 < Utf8.len s

/-- **What a complete redaction is**: all sensitive members are redacted, and nothing else changes
but over-long content strings. -/
structure Redacts (v w : Value) : Prop where
  complete : AllRedacted w
  frame : DiffersOnlyAt (RedactPlace false v) v w

/-- A message content that the walk deals with: an over-long string can be cut at 2000 bytes, and
anything else holds no sensitive member that is not redacted already. -/
def Fine (x : Value) : Prop :=
  (∀ s, x = string s → 2000 < Utf8.len s → Utf8.IsBoundary s.toList 2000) ∧ AllRedacted x

/-! ### Entries -/

theorem allRedacted_array {xs : List Value} :
    AllRedacted (array xs) ↔ ∀ v ∈ xs, AllRedacted v := by
  constructor
  · exact fun h v hv k x hx => h k x (.element hv hx)
  · rintro h k x (_ | ⟨hv, hx⟩)
    exact h _ hv k x hx

theorem allRedacted_object {m : List (String × Value)} :
    AllRedacted (object m) ↔
      ∀ p ∈ m, (isSensitive p.1 = true → p.2 = redacted) ∧ AllRedacted p.2 := by
  constructor
  · exact fun h p hp => ⟨h p.1 p.2 (.here hp), fun k x hx => h k x (.member hp hx)⟩
  · rintro h k x (hp | _ | ⟨hp, hx⟩)
    · exact (h _ hp).1
    · exact (h _ hp).2 k x hx

theorem allRedacted_scalar {v : Value} (harray : ∀ xs, v ≠ array xs) (hobject : ∀ m, v ≠ object m) :
    AllRedacted v := by
  rintro k x (_ | _ | _)
  · exact absurd rfl (hobject _)
  · exact absurd rfl (harray _)
  · exact absurd rfl (hobject _)

theorem allRedacted_string (s : String) : AllRedacted (string s) :=
  allRedacted_scalar (fun _ => nofun) (fun _ => nofun)

/-! ### When the walk is complete -/

/-- A content can be dealt with exactly when its over-long string can be cut. -/
theorem isSome_redactContent_iff {x : Value} :
    (redactContent x).isSome = true ↔
      ∀ s, x = string s → 2000 < Utf8.len s → Utf8.IsBoundary s.toList 2000 := by
  cases x with
  | string s =>
    simp only [redactContent]
    split_ifs with hlen
    · rw [Option.isSome_map, Option.isSome_iff_exists, Utf8.sliceTo_isSome_iff]
      simp [hlen]
    · simp [hlen]
  | _ => simp [redactContent]

theorem mem_of_redactElements {b : Bool} {vs ws : List Value} (h : redactElements b vs = some ws)
    {v : Value} (hv : v ∈ vs) : ∃ w ∈ ws, redactValueInPlace b v = some w := by
  induction vs generalizing ws with
  | nil => cases hv
  | cons x vs ih =>
    rw [redactElements] at h
    obtain ⟨y, hy, h⟩ := Option.bind_eq_some_iff.1 h
    obtain ⟨ws, hws, rfl⟩ := Option.map_eq_some_iff.1 h
    rcases List.mem_cons.1 hv with rfl | hv
    · exact ⟨y, List.mem_cons_self, hy⟩
    · obtain ⟨w, hw, hvw⟩ := ih hws hv
      exact ⟨w, List.mem_cons_of_mem y hw, hvw⟩

theorem mem_of_redactMembers {b : Bool} {m n : List (String × Value)}
    (h : redactMembers b m = some n) {k : String} {v : Value} (hv : (k, v) ∈ m) :
    ∃ w, (k, w) ∈ n ∧ redactEntry b k v = some w := by
  induction m generalizing n with
  | nil => cases hv
  | cons p m ih =>
    obtain ⟨k', x⟩ := p
    rw [redactMembers_cons] at h
    obtain ⟨y, hy, h⟩ := Option.bind_eq_some_iff.1 h
    obtain ⟨n, hn, rfl⟩ := Option.map_eq_some_iff.1 h
    rcases List.mem_cons.1 hv with heq | hv
    · cases heq
      exact ⟨y, List.mem_cons_self, hy⟩
    · obtain ⟨w, hw, hvw⟩ := ih hn hv
      exact ⟨w, List.mem_cons_of_mem _ hw, hvw⟩

/-- **The walk leaves the contents of messages alone**: they have been dealt with, and what holds
members is there as it was. -/
theorem entryIn_of_messageContent {b : Bool} {v x : Value} {path : List Seg}
    (hx : MessageContent b v path x) {w : Value} (hw : redactValueInPlace b v = some w) :
    (redactContent x).isSome = true ∧ ∀ k y, EntryIn k y x → EntryIn k y w := by
  induction hx generalizing w with
  | @here m k x hk h =>
    obtain ⟨n, hn, rfl⟩ := Option.map_eq_some_iff.1 hw
    obtain ⟨y, hy, hentry⟩ := mem_of_redactMembers hn h
    have hsensitive : isSensitive k = false := by
      rw [isSensitive, show String.ofList (k.toList.map CaseTables.lowerChar) = "content" from hk]
      decide
    rw [redactEntry, if_neg (by simp [hsensitive]), if_pos (by simp [hk])] at hentry
    refine ⟨by rw [hentry]; rfl, fun k' z hz => .member hy ?_⟩
    cases x with
    | string s => nomatch hz
    | _ =>
      cases hentry
      exact hz
  | element h _ ih =>
    obtain ⟨ws, hws, rfl⟩ := Option.map_eq_some_iff.1 hw
    obtain ⟨y, hy, hvy⟩ := mem_of_redactElements hws (List.mem_of_getElem? h)
    obtain ⟨hsome, hentries⟩ := ih hvy
    exact ⟨hsome, fun k z hz => .element hy (hentries k z hz)⟩
  | member h hs hc _ ih =>
    obtain ⟨n, hn, rfl⟩ := Option.map_eq_some_iff.1 hw
    obtain ⟨y, hy, hentry⟩ := mem_of_redactMembers hn h
    rw [redactEntry, if_neg (by simp [hs]), if_neg (by simp [hc])] at hentry
    obtain ⟨hsome, hentries⟩ := ih hentry
    exact ⟨hsome, fun k z hz => .member hy (hentries k z hz)⟩

/-- What the walk makes of a value whose contents of messages are fine. -/
def Good (b : Bool) (v w : Value) : Prop := AllRedacted w ∧ DiffersOnlyAt (RedactPlace b v) v w

/-- What it makes of a member. -/
def GoodEntry (b : Bool) (k : String) (x y : Value) : Prop :=
  if isSensitive k then y = redacted
  else if b && lowered k = "content" then
    AllRedacted y ∧ (y = x ∨ ∃ s, x = string s ∧ 2000 < Utf8.len s)
  else Good (lowered k = "messages") x y

/-- A member whose contents of messages are fine. -/
def CleanEntry (b : Bool) (k : String) (x : Value) : Prop :=
  isSensitive k = false →
    if b && lowered k = "content" then Fine x
    else ∀ path y, MessageContent (lowered k = "messages") x path y → Fine y

theorem good_scalar {b : Bool} {v : Value} (harray : ∀ xs, v ≠ array xs)
    (hobject : ∀ m, v ≠ object m) : Good b v v :=
  ⟨allRedacted_scalar harray hobject, .refl _ v⟩

theorem getElem?_of_forall₂ {α β : Type} {R : α → β → Prop} {xs : List α} {ys : List β}
    (h : List.Forall₂ R xs ys) {i : ℕ} {y : β} (hy : ys[i]? = some y) :
    ∃ x, xs[i]? = some x ∧ R x y := by
  obtain ⟨hi, rfl⟩ := List.getElem?_eq_some_iff.1 hy
  have hi' : i < xs.length := h.length_eq ▸ hi
  exact ⟨xs[i], List.getElem?_eq_getElem hi', h.get hi' hi⟩

theorem good_array {b : Bool} {xs ys : List Value} (h : List.Forall₂ (Good b) xs ys) :
    Good b (array xs) (array ys) := by
  refine ⟨?_, .array h.length_eq.symm fun i x y hx hy => ?_⟩
  · rw [allRedacted_array]
    intro y hy
    obtain ⟨i, hi⟩ := List.mem_iff_getElem?.1 hy
    obtain ⟨x, -, hgood⟩ := getElem?_of_forall₂ h hi
    exact hgood.1
  · obtain ⟨x', hx', hgood⟩ := getElem?_of_forall₂ h hy
    obtain rfl : x' = x := Option.some.inj (hx'.symm.trans hx)
    refine hgood.2.mono fun path hpath => ?_
    rcases hpath with ⟨p, k, rfl, hk⟩ | ⟨s, hs, hlen⟩
    · exact Or.inl ⟨.idx i :: p, k, rfl, hk⟩
    · exact Or.inr ⟨s, .element hx hs, hlen⟩

/-- The members under a key on both sides. -/
theorem get_of_forall₂ {R : String → Value → Value → Prop} {m n : List (String × Value)}
    (h : List.Forall₂ (fun p q => q.1 = p.1 ∧ R p.1 p.2 q.2) m n) (k : String) :
    (JsonMap.get m k = none ∧ JsonMap.get n k = none) ∨
      ∃ x y, JsonMap.get m k = some x ∧ JsonMap.get n k = some y ∧ (k, x) ∈ m ∧ R k x y := by
  induction h with
  | nil => exact Or.inl ⟨rfl, rfl⟩
  | @cons p q m n hpq _ ih =>
    obtain ⟨k₁, x⟩ := p
    obtain ⟨k₂, y⟩ := q
    obtain ⟨hkey, hR⟩ := hpq
    obtain rfl : k₂ = k₁ := hkey
    rw [JsonMap.get_cons, JsonMap.get_cons]
    by_cases hk : k = k₂
    · subst hk
      exact Or.inr ⟨x, y, if_pos rfl, if_pos rfl, List.mem_cons_self, hR⟩
    · rw [if_neg hk, if_neg hk]
      rcases ih with hnone | ⟨x', y', hx', hy', hmem, hR'⟩
      · exact Or.inl hnone
      · exact Or.inr ⟨x', y', hx', hy', List.mem_cons_of_mem _ hmem, hR'⟩

theorem good_object {b : Bool} {m n : List (String × Value)}
    (h : List.Forall₂ (fun p q => q.1 = p.1 ∧ GoodEntry b p.1 p.2 q.2) m n) :
    Good b (object m) (object n) := by
  constructor
  · rw [allRedacted_object]
    intro q hq
    obtain ⟨i, hi⟩ := List.mem_iff_getElem?.1 hq
    obtain ⟨p, -, hkey, hgood⟩ := getElem?_of_forall₂ h hi
    rw [hkey]
    unfold GoodEntry at hgood
    split_ifs at hgood with hs hc
    · rw [hgood]
      exact ⟨fun _ => rfl, allRedacted_string _⟩
    · exact ⟨fun hs' => absurd hs' hs, hgood.1⟩
    · exact ⟨fun hs' => absurd hs' hs, hgood.1⟩
  · have hplace : RedactPlace b (object m) [.key "token"] :=
      Or.inl ⟨[], "token", rfl, by decide⟩
    refine .of_child rfl (fun hno => absurd hplace (hno _)) fun s => ?_
    cases s with
    | idx i => exact Or.inl rfl
    | key k =>
      rcases get_of_forall₂ h k with ⟨hm, hn⟩ | ⟨x, y, hx, hy, hmem, hgood⟩
      · exact Or.inl (hn.trans hm.symm)
      · unfold GoodEntry at hgood
        split_ifs at hgood with hs hc
        · exact Or.inr (Or.inl (Or.inl ⟨[], k, rfl, hs⟩))
        · rw [Bool.and_eq_true, decide_eq_true_eq] at hc
          rcases hgood.2 with rfl | ⟨s, rfl, hlen⟩
          · exact Or.inl (hy.trans hx.symm)
          · obtain ⟨rfl, hcontent⟩ := hc
            exact Or.inr (Or.inl (Or.inr ⟨s, .here hcontent hmem, hlen⟩))
        · refine Or.inr (Or.inr ⟨x, y, hx, hy, hgood.2.mono fun path hpath => ?_⟩)
          rcases hpath with ⟨p, k', rfl, hk'⟩ | ⟨s, hs', hlen⟩
          · exact Or.inl ⟨.key k :: p, k', rfl, hk'⟩
          · exact Or.inr ⟨s, .member hmem (by simpa using hs) (by simpa using hc) hs', hlen⟩

/-- A content that is fine, and what becomes of it. -/
theorem good_content {x : Value} (h : Fine x) : ∃ y, redactContent x = some y ∧
    AllRedacted y ∧ (y = x ∨ ∃ s, x = string s ∧ 2000 < Utf8.len s) := by
  obtain ⟨y, hy⟩ := Option.isSome_iff_exists.1 (isSome_redactContent_iff.2 h.1)
  refine ⟨y, hy, ?_⟩
  cases x with
  | string s =>
    simp only [redactContent] at hy
    split_ifs at hy with hlen
    · obtain ⟨start, -, rfl⟩ := Option.map_eq_some_iff.1 hy
      exact ⟨allRedacted_string _, Or.inr ⟨s, rfl, hlen⟩⟩
    · cases hy
      exact ⟨h.2, Or.inl rfl⟩
  | _ =>
    cases hy
    exact ⟨h.2, Or.inl rfl⟩

mutual

/-- **What the walk does**: it comes to an end and redacts everything, when the contents of messages
are fine. -/
theorem good_of_fine : ∀ (v : Value) (b : Bool), (∀ path x, MessageContent b v path x → Fine x) →
    ∃ w, redactValueInPlace b v = some w ∧ Good b v w
  | array xs, b, h => by
    obtain ⟨ys, hys, hgood⟩ := good_elements xs b fun v hv path x hx => by
      obtain ⟨i, hi⟩ := List.mem_iff_getElem?.1 hv
      exact h _ x (.element hi hx)
    exact ⟨array ys, by rw [redactValueInPlace, hys]; rfl, good_array hgood⟩
  | object m, b, h => by
    obtain ⟨n, hn, hgood⟩ := good_members m b fun p hp hs => by
      split_ifs with hc
      · rw [Bool.and_eq_true, decide_eq_true_eq] at hc
        obtain ⟨rfl, hcontent⟩ := hc
        exact h _ p.2 (.here hcontent hp)
      · exact fun path x hx => h _ x (.member hp hs (by simpa using hc) hx)
    exact ⟨object n, by rw [redactValueInPlace, hn]; rfl, good_object hgood⟩
  | null, b, _ => ⟨null, rfl, good_scalar (fun _ => nofun) (fun _ => nofun)⟩
  | .bool c, b, _ => ⟨.bool c, rfl, good_scalar (fun _ => nofun) (fun _ => nofun)⟩
  | number n, b, _ => ⟨number n, rfl, good_scalar (fun _ => nofun) (fun _ => nofun)⟩
  | string s, b, _ => ⟨string s, rfl, good_scalar (fun _ => nofun) (fun _ => nofun)⟩

theorem good_elements : ∀ (vs : List Value) (b : Bool),
    (∀ v ∈ vs, ∀ path x, MessageContent b v path x → Fine x) →
    ∃ ws, redactElements b vs = some ws ∧ List.Forall₂ (Good b) vs ws
  | [], _, _ => ⟨[], rfl, .nil⟩
  | v :: vs, b, h => by
    rw [List.forall_mem_cons] at h
    obtain ⟨w, hw, hgood⟩ := good_of_fine v b h.1
    obtain ⟨ws, hws, hrest⟩ := good_elements vs b h.2
    exact ⟨w :: ws, by rw [redactElements, hw, hws]; rfl, .cons hgood hrest⟩

theorem good_members : ∀ (m : List (String × Value)) (b : Bool),
    (∀ p ∈ m, CleanEntry b p.1 p.2) →
    ∃ n, redactMembers b m = some n ∧
      List.Forall₂ (fun p q => q.1 = p.1 ∧ GoodEntry b p.1 p.2 q.2) m n
  | [], _, _ => ⟨[], rfl, .nil⟩
  | (k, v) :: m, b, h => by
    rw [List.forall_mem_cons] at h
    obtain ⟨n, hn, hrest⟩ := good_members m b h.2
    have hentry : ∃ w, redactEntry b k v = some w ∧ GoodEntry b k v w := by
      unfold redactEntry GoodEntry
      by_cases hs : isSensitive k = true
      · simp only [if_pos hs]
        exact ⟨redacted, rfl, rfl⟩
      · have hclean := h.1 (by simpa using hs)
        simp only [if_neg hs]
        split_ifs at hclean ⊢ with hc
        · exact good_content hclean
        · exact good_of_fine v (lowered k = "messages") hclean
    obtain ⟨w, hw, hgood⟩ := hentry
    exact ⟨(k, w) :: n, by rw [redactMembers_cons, hw, hn]; rfl, .cons ⟨rfl, hgood⟩ hrest⟩

end

/-- **When redaction is complete**: exactly when every content of a message that the walk comes to
is fine. -/
theorem redacts_iff (body : Value) :
    (∃ w, redactBodyJson body = some w ∧ Redacts body w) ↔
      ∀ path x, MessageContent false body path x → Fine x := by
  constructor
  · rintro ⟨w, hw, hredacts⟩ path x hx
    obtain ⟨hsome, hentries⟩ := entryIn_of_messageContent hx hw
    exact ⟨isSome_redactContent_iff.1 hsome, fun k y hy => hredacts.complete k y (hentries k y hy)⟩
  · intro h
    obtain ⟨w, hw, hgood⟩ := good_of_fine body false h
    exact ⟨w, hw, hgood.1, hgood.2⟩

/-- A message whose content is a list of parts, one of them with a token. -/
def tokenInContent : Value :=
  object [("messages", array [object [("content", array [object [("token", string "x")]])]])]

/-- The token is not redacted. -/
theorem tokenInContent_not_redacted :
    ¬ ∃ w, redactBodyJson tokenInContent = some w ∧ Redacts tokenInContent w := by
  rintro ⟨w, hw, hredacts⟩
  obtain rfl : tokenInContent = w := Option.some.inj (Eq.trans rfl hw)
  have hentry : EntryIn "token" (string "x") tokenInContent :=
    .member List.mem_cons_self (.element List.mem_cons_self (.member List.mem_cons_self
      (.element List.mem_cons_self (.here List.mem_cons_self))))
  have hx := hredacts.complete _ _ hentry (by decide)
  rw [redacted, string.injEq] at hx
  revert hx
  decide

end Mybro
