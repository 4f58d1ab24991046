import Mybro.ConfigFile
import Mybro.Payload
import Mybro.Vision

/-!
# Path texts (`navigate_pointer_mut`)

Both `payload.rs` and `vision.rs` collect the places of images as texts such as
`/messages/3/content/1` and parse them again to get there. The model keeps the list of steps; here
is that nothing is lost on the way (`parsePointer_pointerText`): a text that was printed from steps
leads along the same steps, as long as no key looks like a number or has a slash in it.
-/

namespace Mybro

open Value

/-- What `format!` prints of one step. -/
def segText : Seg → List Char
  | .key k => k.toList
  | .idx i => (toString i).toList

/-- The text of a path. -/
def pointerText (path : List Seg) : String :=
  String.ofList (path.flatMap fun s => '/' :: segText s)

/-- One part of a path text: a number is an array position, anything else an object key. -/
def pointerSeg (part : List Char) : Seg :=
  match parseUsize part with
  | some i => .idx i
  | none => .key (String.ofList part)

/-- The steps along which `navigate_pointer_mut` follows a path text. -/
def parsePointer (path : String) : List Seg :=
  ((path.toList.dropWhile fun c => c = '/').splitOn '/').map pointerSeg

/-- `navigate_pointer_mut`, and a change of the value found there. -/
def navigatePointerMut (path : String) (f : Value → Value) (v : Value) : Value :=
  modifyAt (parsePointer path) f v

/-- A step that its text stands for: a key that is not empty, has no slash in it and is no number,
or a position that fits a machine word. -/
def PlainSeg : Seg → Prop
  | .key k => k.toList ≠ [] ∧ '/' ∉ k.toList ∧ parseUsize k.toList = none
  | .idx i => i < 2 ^ 64

theorem segText_idx (i : ℕ) : segText (.idx i) = Nat.toDigits 10 i := by
  rw [segText, Nat.toString_eq_repr, Nat.toList_repr]

theorem isDigit_of_mem_segText {i : ℕ} {c : Char} (h : c ∈ segText (.idx i)) :
    c.isDigit = true := by
  rw [segText_idx] at h
  exact Nat.isDigit_of_mem_toDigits (by norm_num) le_rfl h

/-- A printed number is read back. -/
theorem parseUsize_segText {i : ℕ} (h : i < 2 ^ 64) : parseUsize (segText (.idx i)) = some i := by
  rw [segText_idx, parseUsize, parseU64_toDigits h, Option.map_some, UInt64.toNat_ofNat_of_lt' h]

theorem PlainSeg.segText_ne_nil {s : Seg} (h : PlainSeg s) : segText s ≠ [] := by
  cases s with
  | key k => exact h.1
  | idx i =>
    rw [segText_idx]
    exact Nat.toDigits_ne_nil

theorem PlainSeg.slash_notMem {s : Seg} (h : PlainSeg s) : '/' ∉ segText s := by
  cases s with
  | key k => exact h.2.1
  | idx i => exact fun hmem => absurd (isDigit_of_mem_segText hmem) (by decide)

theorem PlainSeg.pointerSeg_segText {s : Seg} (h : PlainSeg s) : pointerSeg (segText s) = s := by
  cases s with
  | key k =>
    have hkey : parseUsize (segText (.key k)) = none := h.2.2
    rw [pointerSeg, hkey]
    exact congrArg Seg.key String.ofList_toList
  | idx i => rw [pointerSeg, parseUsize_segText h]

/-- The parts of a path text that has lost its first slash. -/
theorem splitOn_segText (s : Seg) (path : List Seg) (h : ∀ t ∈ s :: path, PlainSeg t) :
    (segText s ++ path.flatMap fun t => '/' :: segText t).splitOn '/' =
      (s :: path).map segText := by
  induction path generalizing s with
  | nil =>
    rw [List.flatMap_nil, List.append_nil,
      List.splitOn_eq_singleton (h s List.mem_cons_self).slash_notMem]
    rfl
  | cons t path ih =>
    have hrest := ih t fun x hx => h x (List.mem_cons_of_mem _ hx)
    rw [List.flatMap_cons, List.cons_append,
      List.splitOn_append_cons_self_of_not_mem (h s List.mem_cons_self).slash_notMem, hrest]
    rfl

/-- **A path text leads where it was printed from.** -/
theorem parsePointer_pointerText {path : List Seg} (hne : path ≠ []) (h : ∀ s ∈ path, PlainSeg s) :
    parsePointer (pointerText path) = path := by
  obtain ⟨s, rest, rfl⟩ := List.exists_cons_of_ne_nil hne
  have hs : PlainSeg s := h s List.mem_cons_self
  obtain ⟨c, cs, hc⟩ := List.exists_cons_of_ne_nil hs.segText_ne_nil
  have hslash : c ≠ '/' := by
    rintro rfl
    exact hs.slash_notMem (hc ▸ List.mem_cons_self)
  have hdrop : (pointerText (s :: rest)).toList.dropWhile (fun c => c = '/') =
      segText s ++ rest.flatMap fun t => '/' :: segText t := by
    rw [pointerText, String.toList_ofList, List.flatMap_cons, List.cons_append,
      List.dropWhile_cons_of_pos (by decide), hc, List.cons_append,
      List.dropWhile_cons_of_neg (by simpa using hslash)]
  rw [parsePointer, hdrop, splitOn_segText s rest h, List.map_map]
  refine (List.map_congr_left fun t ht => ?_).trans (List.map_id _)
  exact (h t ht).pointerSeg_segText

/-- A change through a path text is the change at the path. -/
theorem navigatePointerMut_pointerText {path : List Seg} (hne : path ≠ [])
    (h : ∀ s ∈ path, PlainSeg s) (f : Value → Value) (v : Value) :
    navigatePointerMut (pointerText path) f v = modifyAt path f v := by
  rw [navigatePointerMut, parsePointer_pointerText hne h]

/-! ### The paths to images -/

/-- The elements of an array come with growing positions. -/
theorem pairwise_zipIdx {α : Type} (xs : List α) : xs.zipIdx.Pairwise fun a b => a.2 < b.2 := by
  rw [← List.pairwise_map (f := Prod.snd) (R := (· < ·)), List.zipIdx_map_snd]
  exact List.pairwise_lt_range'

/-- The keys of the paths to images. -/
def imageKeys : List String := ["system", "messages", "content"]

/-- The positions of the path fit a machine word, as those of an array in memory do. -/
def Fits (path : List Seg) : Prop := ∀ i, Seg.idx i ∈ path → i < 2 ^ 64

theorem plainSeg_of_imageKeys {path : List Seg} (hkeys : ∀ k, Seg.key k ∈ path → k ∈ imageKeys)
    (hfits : Fits path) : ∀ s ∈ path, PlainSeg s := by
  intro s hs
  cases s with
  | key k =>
    have hplain : ∀ k ∈ imageKeys, PlainSeg (.key k) := by
      simp only [PlainSeg, imageKeys]
      decide
    exact hplain k (hkeys k hs)
  | idx i => exact hfits i hs

end Mybro
