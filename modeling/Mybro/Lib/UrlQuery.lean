import Mathlib.Data.List.DropRight
import Mybro.Lib.Utf8

/-!
# Query strings of URLs

What the receiver of a URL reads from its query, when the query was put together from names and
values without encoding them.

* `text`: what the parsing of the URL leaves of a query at its end. What it percent-encodes is
  decoded again by the receiver and is left as it is here;
* `decode`, `parse`: the values of a form, `+` and percent escapes decoded;
* `build`: the query put together;
* `Safe`: a value without separators and escapes. The query is parsed into what it was built from
  exactly when all values are safe and nothing is trimmed from its end (`parse_build_iff`).
-/

namespace UrlQuery

/-! ### Reading -/

/-- The value of a hexadecimal digit. -/
def hexDigit (c : Char) : Option ℕ :=
  if 48 ≤ c.toNat ∧ c.toNat ≤ 57 then some (c.toNat - 48)
  else if 97 ≤ c.toNat ∧ c.toNat ≤ 102 then some (c.toNat - 87)
  else if 65 ≤ c.toNat ∧ c.toNat ≤ 70 then some (c.toNat - 55)
  else none

/-- The byte of a percent escape at the beginning. -/
def escaped : List Char → Option UInt8
  | '%' :: a :: b :: _ => do
    let x ← hexDigit a
    let y ← hexDigit b
    some (UInt8.ofNat (16 * x + y))
  | _ => none

/-- The bytes of a name or a value, behind some characters that are skipped. -/
def unescape : ℕ → List Char → List UInt8
  | _, [] => []
  | skip + 1, _ :: cs => unescape skip cs
  | 0, c :: cs =>
    match escaped (c :: cs) with
    | some x => x :: unescape 2 cs
    | none => (if c = '+' then [0x20] else String.utf8EncodeChar c) ++ unescape 0 cs

/-- A name or a value. -/
def decode (cs : List Char) : String := Utf8.lossy (unescape 0 cs)

/-- Name and value of a part; without `=` the value is empty. -/
def parsePart (part : List Char) : String × String :=
  (decode (part.takeWhile (· ≠ '=')), decode ((part.dropWhile (· ≠ '=')).drop 1))

/-- The parts of a query that are not empty. -/
def parts (q : List Char) : List (List Char) := (q.splitOn '&').filter (· ≠ [])

/-- What is trimmed from the end of a URL. -/
def isTrimmed (c : Char) : Bool := c.toNat ≤ 0x20

/-- What is dropped from a URL wherever it stands. -/
def isDropped (c : Char) : Bool := c = '\t' || c = '\n' || c = '\r'

/-- What the parsing of a URL leaves of the query at its end; a `#` begins the fragment. -/
def text (q : List Char) : List Char :=
  ((q.rdropWhile isTrimmed).filter fun c => !isDropped c).takeWhile (· ≠ '#')

/-- The names and values of a query. -/
def parse (q : List Char) : List (String × String) := (parts (text q)).map parsePart

/-! ### Building -/

/-- A name with its value. -/
def segment (e : String × String) : List Char := e.1.toList ++ '=' :: e.2.toList

/-- The query of some names and values, none of them encoded. -/
def build : List (String × String) → List Char
  | [] => []
  | [e] => segment e
  | e :: e' :: l => segment e ++ '&' :: build (e' :: l)

/-- A name that consists of letters. -/
def IsPlain (name : String) : Prop := ∀ c ∈ name.toList, 97 ≤ c.toNat ∧ c.toNat ≤ 122

/-- A value without separators, dropped characters and escapes. -/
structure Safe (cs : List Char) : Prop where
  separator : ∀ c ∈ cs, c ≠ '&' ∧ c ≠ '+' ∧ c ≠ '#' ∧ isDropped c = false
  escape : ∀ t, t <:+ cs → escaped t = none

/-- Nothing is trimmed from the end. -/
def EndsWell (q : List Char) : Prop := ∀ c, q.getLast? = some c → isTrimmed c = false

/-! ### Escapes -/

section Escapes

variable {cs : List Char}

theorem isAscii_of_hexDigit {c : Char} {n : ℕ} (h : hexDigit c = some n) :
    Utf8.isAscii c = true := by
  unfold hexDigit at h
  simp only [Utf8.isAscii, decide_eq_true_eq]
  split_ifs at h <;> omega

theorem exists_of_escaped {x : UInt8} (h : escaped cs = some x) :
    ∃ a b rest, cs = '%' :: a :: b :: rest ∧ Utf8.isAscii a = true ∧ Utf8.isAscii b = true := by
  unfold escaped at h
  split at h
  · rename_i a b rest
    obtain ⟨m, hm, h⟩ := Option.bind_eq_some_iff.1 h
    obtain ⟨n, hn, -⟩ := Option.bind_eq_some_iff.1 h
    exact ⟨a, b, rest, rfl, isAscii_of_hexDigit hm, isAscii_of_hexDigit hn⟩
  · cases h

/-- The bytes of a character that does not begin an escape. -/
theorem countP_unescaped (c : Char) :
    (if c = '+' then [0x20] else String.utf8EncodeChar c).countP Utf8.isAsciiByte =
      if Utf8.isAscii c then 1 else 0 := by
  split_ifs with hplus hascii hascii
  · rfl
  · rw [hplus] at hascii
    exact absurd rfl hascii
  · rw [Utf8.countP_encodeChar, if_pos hascii]
  · rw [Utf8.countP_encodeChar, if_neg hascii]

/-- An escape has three characters for one byte. -/
theorem countP_escape {c : Char} {x : UInt8} {bs : List UInt8} (h : escaped (c :: cs) = some x)
    (hle : bs.countP Utf8.isAsciiByte ≤ (cs.drop 2).countP Utf8.isAscii) :
    (x :: bs).countP Utf8.isAsciiByte + 2 ≤ (c :: cs).countP Utf8.isAscii := by
  obtain ⟨a, b, rest, heq, ha, hb⟩ := exists_of_escaped h
  obtain ⟨rfl, rfl⟩ := List.cons_eq_cons.1 heq
  have hpercent : Utf8.isAscii '%' = true := rfl
  have hthree : ('%' :: a :: b :: rest).countP Utf8.isAscii = rest.countP Utf8.isAscii + 3 := by
    simp only [List.countP_cons, hpercent, ha, hb, if_true]
  rw [List.drop_succ_cons, List.drop_succ_cons, List.drop_zero] at hle
  rw [hthree, List.countP_cons]
  split_ifs <;> omega

/-- Without a percent sign there is no escape. -/
theorem not_escaped_of_not_mem (h : '%' ∉ cs) (t : List Char) (ht : t <:+ cs) :
    escaped t = none := by
  unfold escaped
  split
  · exact absurd (ht.subset List.mem_cons_self) h
  · rfl

theorem countP_unescape_cons {c : Char} (h : escaped (c :: cs) = none) :
    (unescape 0 (c :: cs)).countP Utf8.isAsciiByte =
      (unescape 0 cs).countP Utf8.isAsciiByte + if Utf8.isAscii c then 1 else 0 := by
  rw [unescape, h, List.countP_append, countP_unescaped, Nat.add_comm]

/-- Decoding brings no ASCII in. -/
theorem countP_unescape_le (skip : ℕ) (cs : List Char) :
    (unescape skip cs).countP Utf8.isAsciiByte ≤ (cs.drop skip).countP Utf8.isAscii := by
  induction cs generalizing skip with
  | nil => simp [unescape]
  | cons c cs ih =>
    cases skip with
    | succ skip => exact ih skip
    | zero =>
      rw [List.drop_zero]
      cases hescape : escaped (c :: cs) with
      | none =>
        have hle := ih 0
        rw [List.drop_zero] at hle
        rw [countP_unescape_cons hescape, List.countP_cons]
        exact Nat.add_le_add_right hle _
      | some x =>
        have htwo := countP_escape hescape (ih 2)
        unfold unescape
        rw [hescape]
        exact Nat.le_of_add_right_le htwo

/-- An escape takes more than it gives. -/
theorem countP_unescape_lt {t : List Char} (ht : t <:+ cs) (hescape : escaped t ≠ none) :
    (unescape 0 cs).countP Utf8.isAsciiByte < cs.countP Utf8.isAscii := by
  induction cs with
  | nil =>
    rw [List.suffix_nil.1 ht] at hescape
    exact absurd rfl hescape
  | cons c cs ih =>
    cases hfirst : escaped (c :: cs) with
    | none =>
      rcases List.suffix_cons_iff.1 ht with rfl | ht
      · exact absurd hfirst hescape
      · rw [countP_unescape_cons hfirst, List.countP_cons]
        exact Nat.add_lt_add_right (ih ht) _
    | some x =>
      have htwo := countP_escape hfirst (countP_unescape_le 2 cs)
      unfold unescape
      rw [hfirst]
      simp only
      omega

/-- Without escapes only `+` is decoded. -/
theorem decode_of_not_escaped (h : ∀ t, t <:+ cs → escaped t = none) :
    decode cs = String.ofList (cs.map fun c => if c = '+' then ' ' else c) := by
  have hbytes : unescape 0 cs =
      (cs.map fun c => if c = '+' then ' ' else c).flatMap String.utf8EncodeChar := by
    induction cs with
    | nil => rfl
    | cons c cs ih =>
      unfold unescape
      rw [h _ List.suffix_rfl, ih fun t ht => h t (ht.trans (List.suffix_cons c cs)), List.map_cons,
        List.flatMap_cons]
      split_ifs <;> rfl
  have hencode : unescape 0 cs =
      Utf8.encode (String.ofList (cs.map fun c => if c = '+' then ' ' else c)) := by
    rw [hbytes, Utf8.encode, String.toList_ofList]
  rw [decode, hencode, Utf8.lossy_encode]

/-- **A part of a value that is decoded to the whole value** is the whole, without escapes. -/
theorem eq_of_decode {v : List Char} (hsub : cs.Sublist v) (h : decode cs = String.ofList v) :
    cs = v ∧ (∀ t, t <:+ cs → escaped t = none) ∧ '+' ∉ cs := by
  have hcount : v.countP Utf8.isAscii = (unescape 0 cs).countP Utf8.isAsciiByte := by
    rw [← Utf8.countP_lossy, ← decode, h, String.toList_ofList]
  have hescape : ∀ t, t <:+ cs → escaped t = none := by
    intro t ht
    by_contra hne
    have hlt := countP_unescape_lt ht hne
    have hle : cs.countP Utf8.isAscii ≤ v.countP Utf8.isAscii := hsub.countP_le
    omega
  have hv : cs.map (fun c => if c = '+' then ' ' else c) = v := by
    rw [decode_of_not_escaped hescape] at h
    simpa using congrArg String.toList h
  have heq : cs = v := hsub.eq_of_length (by rw [← hv, List.length_map])
  refine ⟨heq, hescape, fun hplus => ?_⟩
  rw [← heq] at hv
  have hc := List.map_inj_left.1 (hv.trans (List.map_id cs).symm) '+' hplus
  simp at hc

end Escapes

/-! ### Parts -/

section Parts

/-- Trimming goes no further than to a character that is not trimmed. -/
theorem rdropWhile_append_cons {p : Char → Bool} {c : Char} (hc : p c = false) (x w : List Char) :
    (x ++ c :: w).rdropWhile p = x ++ c :: w.rdropWhile p := by
  unfold List.rdropWhile
  rw [List.reverse_append, List.reverse_cons, List.append_assoc, List.dropWhile_append]
  split_ifs with hempty
  · rw [List.isEmpty_iff.1 hempty, List.singleton_append, List.dropWhile_cons, hc]
    simp
  · simp

/-- A character that the parsing of the URL leaves as it is. -/
def IsKept (c : Char) : Prop := c ≠ '#' ∧ isDropped c = false

theorem filter_of_isKept {x : List Char} (h : ∀ c ∈ x, IsKept c) :
    x.filter (fun c => !isDropped c) = x :=
  List.filter_eq_self.2 fun c hc => by rw [(h c hc).2]; rfl

/-- The parsing of the URL leaves a beginning without `#` and dropped characters. -/
theorem text_append {x w : List Char} {c : Char} (hx : ∀ d ∈ x, IsKept d) (hc : IsKept c)
    (htrim : isTrimmed c = false) : text (x ++ c :: w) = x ++ c :: text w := by
  unfold text
  rw [rdropWhile_append_cons htrim, List.filter_append, List.filter_cons, filter_of_isKept hx,
    if_pos (by rw [hc.2]; rfl), List.takeWhile_append_of_pos fun d hd => by simpa using (hx d hd).1,
    List.takeWhile_cons, if_pos (by simpa using hc.1)]

/-- What is left after the parsing of the URL has no `#` and no dropped character. -/
theorem isKept_of_mem_text {q : List Char} {c : Char} (h : c ∈ text q) : IsKept c := by
  have hmem : c ∈ (q.rdropWhile isTrimmed).filter fun c => !isDropped c :=
    List.takeWhile_subset _ h
  exact ⟨by simpa using List.mem_takeWhile_imp h, by simpa using (List.mem_filter.1 hmem).2⟩

theorem text_sublist (q : List Char) : (text q).Sublist q :=
  ((List.takeWhile_sublist _).trans List.filter_sublist).trans
    (List.rdropWhile_prefix isTrimmed q).sublist

/-- The first part ends at the first `&`. -/
theorem parts_append {a y : List Char} (ha : '&' ∉ a) (hne : a ≠ []) :
    parts (a ++ '&' :: y) = a :: parts y := by
  unfold parts
  rw [List.splitOn_append_cons_self_of_not_mem ha, List.filter_cons, if_pos (by simpa using hne)]

theorem parts_single {a : List Char} (ha : '&' ∉ a) (hne : a ≠ []) : parts a = [a] := by
  unfold parts
  rw [List.splitOn_eq_singleton ha, List.filter_cons, if_pos (by simpa using hne), List.filter_nil]

/-- A part is cut at its first `=`. -/
theorem parsePart_append {k a : List Char} (hk : '=' ∉ k) :
    parsePart (k ++ '=' :: a) = (decode k, decode a) := by
  have hpos : ∀ c ∈ k, decide (c ≠ '=') = true := fun c hc => by
    simpa using fun heq : c = '=' => hk (heq ▸ hc)
  unfold parsePart
  rw [List.takeWhile_append_of_pos hpos, List.dropWhile_append_of_pos hpos]
  simp

/-- **The first name and value**: the value ends at the first `&`. -/
theorem map_parsePart_cons {k : List Char} (hk : '=' ∉ k) (hk' : '&' ∉ k) (w : List Char) :
    (parts (k ++ '=' :: w)).map parsePart =
      (decode k, decode (w.takeWhile (· ≠ '&'))) ::
        (parts ((w.dropWhile (· ≠ '&')).drop 1)).map parsePart := by
  have hvalue : '&' ∉ w.takeWhile (· ≠ '&') := fun h => by
    simpa using List.mem_takeWhile_imp h
  have hpart : '&' ∉ k ++ '=' :: w.takeWhile (· ≠ '&') := by
    simp only [List.mem_append, List.mem_cons, not_or]
    exact ⟨hk', by decide, hvalue⟩
  have hne : k ++ '=' :: w.takeWhile (· ≠ '&') ≠ [] := by simp
  have hsplit : k ++ '=' :: w =
      (k ++ '=' :: w.takeWhile (· ≠ '&')) ++ w.dropWhile (· ≠ '&') := by
    rw [List.append_assoc, List.cons_append, List.takeWhile_append_dropWhile]
  rw [hsplit]
  cases hrest : w.dropWhile (· ≠ '&') with
  | nil =>
    rw [List.append_nil, parts_single hpart hne, List.map_singleton, parsePart_append hk]
    rfl
  | cons c y =>
    have hc : c = '&' := by
      have hne : w.dropWhile (· ≠ '&') ≠ [] := by
        rw [hrest]
        exact List.cons_ne_nil c y
      have hhead := List.head_dropWhile_not (· ≠ '&') hne
      simp only [hrest, List.head_cons] at hhead
      simpa using hhead
    rw [hc, parts_append hpart hne, List.map_cons, parsePart_append hk]
    rfl

end Parts

/-! ### Names and values -/

section Build

variable {k : String} {v y : List Char}

theorem IsPlain.isKept (hk : IsPlain k) : ∀ c ∈ k.toList, IsKept c := by
  intro c hc
  obtain ⟨hge, hle⟩ := hk c hc
  refine ⟨?_, ?_⟩
  · rintro rfl
    exact absurd hge (by decide)
  · unfold isDropped
    rw [Bool.or_eq_false_iff, Bool.or_eq_false_iff]
    refine ⟨⟨decide_eq_false ?_, decide_eq_false ?_⟩, decide_eq_false ?_⟩ <;>
      (rintro rfl; exact absurd hge (by decide))

theorem IsPlain.not_mem (hk : IsPlain k) {c : Char} (hc : c.toNat < 97) : c ∉ k.toList :=
  fun hmem => absurd (hk c hmem).1 (by omega)

theorem IsPlain.decode_eq (hk : IsPlain k) : decode k.toList = k := by
  rw [decode_of_not_escaped (not_escaped_of_not_mem (hk.not_mem (by decide)))]
  have hid : k.toList.map (fun c => if c = '+' then ' ' else c) = k.toList := by
    refine (List.map_congr_left fun c hc => if_neg ?_).trans (List.map_id _)
    rintro rfl
    exact hk.not_mem (by decide) hc
  rw [hid, String.ofList_toList]

theorem Safe.decode_eq (hv : Safe v) : decode v = String.ofList v := by
  rw [decode_of_not_escaped hv.escape]
  congr 1
  exact (List.map_congr_left fun c hc => if_neg (hv.separator c hc).2.1).trans (List.map_id _)

theorem Safe.isKept (hv : Safe v) : ∀ c ∈ v, IsKept c :=
  fun c hc => ⟨(hv.separator c hc).2.2.1, (hv.separator c hc).2.2.2⟩

/-- The first name and value of a query, and what is left of the rest. -/
theorem parse_cons (hk : IsPlain k) (w : List Char) :
    parse (k.toList ++ '=' :: w) =
      (k, decode ((text w).takeWhile (· ≠ '&'))) ::
        (parts (((text w).dropWhile (· ≠ '&')).drop 1)).map parsePart := by
  unfold parse
  rw [text_append hk.isKept ⟨by decide, by decide⟩ (by decide),
    map_parsePart_cons (hk.not_mem (by decide)) (hk.not_mem (by decide)), hk.decode_eq]

/-- Before another name, a safe value is read as it is. -/
theorem parse_cons_safe (hk : IsPlain k) (hv : Safe v) :
    parse (k.toList ++ '=' :: (v ++ '&' :: y)) = (k, String.ofList v) :: parse y := by
  have hpos : ∀ c ∈ v, decide (c ≠ '&') = true := fun c hc => by simpa using (hv.separator c hc).1
  rw [parse_cons hk, text_append hv.isKept ⟨by decide, by decide⟩ (by decide),
    List.takeWhile_append_of_pos hpos, List.dropWhile_append_of_pos hpos]
  simp [hv.decode_eq, parse]

/-- At the end, a safe value is read as it is when nothing is trimmed from it. -/
theorem parse_last_safe (hk : IsPlain k) (hv : Safe v) (hend : EndsWell v) :
    parse (k.toList ++ '=' :: v) = [(k, String.ofList v)] := by
  have htext : text v = v := by
    cases hlast : v.getLast? with
    | none =>
      rw [List.getLast?_eq_none_iff.1 hlast]
      rfl
    | some c =>
      obtain ⟨x, rfl⟩ := List.getLast?_eq_some_iff.1 hlast
      exact text_append (fun d hd => hv.isKept d (List.mem_append_left _ hd))
        (hv.isKept c (by simp)) (hend c hlast)
  have hpos : ∀ c ∈ v, decide (c ≠ '&') = true := fun c hc => by simpa using (hv.separator c hc).1
  rw [parse_cons hk, htext, List.takeWhile_eq_self_iff.2 hpos, List.dropWhile_eq_nil_iff.2 hpos,
    hv.decode_eq]
  rfl

/-- What is read as a value is a part of what stands there. -/
theorem takeWhile_text_sublist (v : List Char) {tail : List Char}
    (htail : tail = [] ∨ ∃ y, tail = '&' :: y) :
    ((text (v ++ tail)).takeWhile (· ≠ '&')).Sublist v := by
  rcases htail with rfl | ⟨y, rfl⟩
  · rw [List.append_nil]
    exact (List.takeWhile_sublist _).trans (text_sublist v)
  · unfold text
    rw [rdropWhile_append_cons (by decide), List.filter_append, List.filter_cons,
      if_pos (by decide), List.takeWhile_takeWhile]
    refine List.Sublist.trans ?_ (List.filter_sublist (p := fun c => !isDropped c))
    rw [List.takeWhile_append]
    split_ifs with hall
    · simp
    · exact List.takeWhile_sublist _

/-- **What is read as the value it is** is safe. -/
theorem safe_of_decode {tail : List Char} (htail : tail = [] ∨ ∃ y, tail = '&' :: y)
    (h : decode ((text (v ++ tail)).takeWhile (· ≠ '&')) = String.ofList v) :
    (text (v ++ tail)).takeWhile (· ≠ '&') = v ∧ Safe v := by
  obtain ⟨heq, hescape, hplus⟩ := eq_of_decode (takeWhile_text_sublist v htail) h
  rw [heq] at hescape hplus
  refine ⟨heq, ⟨fun c hc => ?_, hescape⟩⟩
  have hmem : c ∈ (text (v ++ tail)).takeWhile (· ≠ '&') := by
    rw [heq]
    exact hc
  have hkept := isKept_of_mem_text (List.takeWhile_subset _ hmem)
  refine ⟨by simpa using List.mem_takeWhile_imp hmem, ?_, hkept⟩
  rintro rfl
  exact hplus hc

/-! #### The whole query -/

theorem build_single (e : String × String) : build [e] = e.1.toList ++ '=' :: e.2.toList := rfl

theorem build_cons (e : String × String) {l : List (String × String)} (hl : l ≠ []) :
    build (e :: l) = e.1.toList ++ '=' :: (e.2.toList ++ '&' :: build l) := by
  obtain ⟨e', l, rfl⟩ := List.exists_cons_of_ne_nil hl
  rw [build, segment, List.append_assoc]
  rfl

/-- A value that the parsing of the URL leaves as it is does not end badly. -/
theorem endsWell_of_text (h : (text v).takeWhile (· ≠ '&') = v) : EndsWell v := by
  intro c hc
  by_contra htrim
  rw [Bool.not_eq_false] at htrim
  obtain ⟨x, rfl⟩ := List.getLast?_eq_some_iff.1 hc
  have hsub : ((text (x ++ [c])).takeWhile (· ≠ '&')).Sublist x := by
    refine (List.takeWhile_sublist _).trans ?_
    unfold text
    rw [List.rdropWhile_concat_pos _ _ _ htrim]
    exact text_sublist x
  have hlen := hsub.length_le
  rw [h, List.length_append, List.length_singleton] at hlen
  omega

/-- One name and value. -/
theorem parse_build_single {e : String × String} (hk : IsPlain e.1) :
    parse (build [e]) = [e] ↔ Safe e.2.toList ∧ EndsWell e.2.toList := by
  rw [build_single]
  constructor
  · intro h
    rw [parse_cons hk, List.cons_eq_cons] at h
    have hvalue := congrArg Prod.snd h.1
    have hdecode : decode ((text (e.2.toList ++ [])).takeWhile (· ≠ '&')) =
        String.ofList e.2.toList := by
      rw [List.append_nil, String.ofList_toList]
      exact hvalue
    obtain ⟨heq, hsafe⟩ := safe_of_decode (Or.inl rfl) hdecode
    rw [List.append_nil] at heq
    exact ⟨hsafe, endsWell_of_text heq⟩
  · rintro ⟨hsafe, hend⟩
    rw [parse_last_safe hk hsafe hend, String.ofList_toList]

/-- A value before another name that is read as it is. -/
theorem safe_of_parse_cons {e : String × String} {l : List (String × String)} (hk : IsPlain e.1)
    (h : parse (e.1.toList ++ '=' :: (e.2.toList ++ '&' :: y)) = e :: l) : Safe e.2.toList := by
  rw [parse_cons hk, List.cons_eq_cons] at h
  obtain ⟨hfirst, -⟩ := h
  have hvalue := congrArg Prod.snd hfirst
  have htail : '&' :: y = [] ∨ ∃ z, '&' :: y = '&' :: z := Or.inr ⟨y, rfl⟩
  refine (safe_of_decode htail ?_).2
  rw [String.ofList_toList]
  exact hvalue

/-- A safe value before another name. -/
theorem parse_build_cons_iff {e : String × String} {l : List (String × String)} (hk : IsPlain e.1)
    (hv : Safe e.2.toList) (hl : l ≠ []) :
    parse (build (e :: l)) = e :: l ↔ parse (build l) = l := by
  have hcons : parse (build (e :: l)) = e :: parse (build l) := by
    rw [build_cons e hl, parse_cons_safe hk hv, String.ofList_toList]
  rw [hcons, List.cons_inj_right]

/-- **The query is read as it was built exactly when its values are safe** and nothing is trimmed
from the last one. -/
theorem parse_build_iff {l : List (String × String)} (hl : ∀ e ∈ l, IsPlain e.1) :
    parse (build l) = l ↔
      (∀ e ∈ l, Safe e.2.toList) ∧ ∀ e ∈ l.getLast?, EndsWell e.2.toList := by
  induction l with
  | nil => exact iff_of_true rfl ⟨nofun, nofun⟩
  | cons e l ih =>
    obtain ⟨hk, hrest⟩ := List.forall_mem_cons.1 hl
    by_cases hnil : l = []
    · rw [hnil, parse_build_single hk, List.forall_mem_singleton]
      simp
    rw [List.getLast?_cons_of_ne_nil hnil, List.forall_mem_cons]
    constructor
    · intro h
      have hv : Safe e.2.toList := safe_of_parse_cons hk (build_cons e hnil ▸ h)
      obtain ⟨hall, hend⟩ := (ih hrest).1 ((parse_build_cons_iff hk hv hnil).1 h)
      exact ⟨⟨hv, hall⟩, hend⟩
    · rintro ⟨⟨hv, hall⟩, hend⟩
      exact (parse_build_cons_iff hk hv hnil).2 ((ih hrest).2 ⟨hall, hend⟩)

end Build

end UrlQuery
