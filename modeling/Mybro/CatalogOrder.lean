import Mathlib.Data.Prod.Lex
import Mathlib.Data.String.Basic
import Mybro.Catalog
import Mybro.Lib.Lowercase

/-!
# The order of the catalog (`catalog.rs`)

`Catalog::from_info` iterates a hash map twice, in any order: for the ids, which it sorts, and for
the display names, which the comparison of the sort looks up. `fromInfo_canonical` says that the
snapshot does not depend on either order, and what it is.
-/

namespace Mybro

open Value

/-- The map of a `/models/info` reply: each id once, with what is said of it. -/
structure ModelsInfo where
  members : JsonMap
  nodup : (members.map Prod.fst).Nodup

/-- An order in which the hash map is iterated. -/
structure ModelsInfo.Order (m : ModelsInfo) where
  entries : List (String × Value)
  perm : entries.Perm m.members

def ModelsInfo.ids (m : ModelsInfo) : List String := m.members.map Prod.fst

section

variable (T : CaseTables)

/-- The `display_name` of a model, or nothing. -/
def givenName (infoObj : Value) : String := ((infoObj.get "display_name").bind asStr).getD ""

/-- `display_name.to_lowercase().starts_with("umans ")`. -/
def hasBrand (name : String) : Bool := "umans ".toList.isPrefixOf (T.toLowercase name).toList

/-- The display name of a model; the prefix is cut off at a byte offset. -/
def displayName (infoObj : Value) : Option String :=
  if hasBrand T (givenName infoObj) then Utf8.sliceFrom (givenName infoObj) (Utf8.len "umans ")
  else some (givenName infoObj)

/-- The comparison of the sort. -/
def compareIds (display : List (String × String)) (a b : String) : Ordering :=
  let da := ((display.lookup a).map T.toLowercase).getD ""
  let db := ((display.lookup b).map T.toLowercase).getD ""
  (compare da db).then (compare a b)

/-- `Catalog::from_info`, with the orders of its two iterations; `none` when the slice panics. -/
def Catalog.fromInfo (m : ModelsInfo) (keys entries : m.Order) : Option Catalog := do
  let display ← entries.entries.mapM fun e => (displayName T e.2).map fun name => (e.1, name)
  some {
    info := m.members
    display := display
    orderedIds := (keys.entries.map Prod.fst).mergeSort fun a b => (compareIds T display a b).isLE }

/-- `Catalog::all_catalog_models`. -/
def Catalog.allCatalogModels (cat : Catalog) (config : Config) : List String :=
  if cat.orderedIds = [] then config.enabledModels else cat.orderedIds

/-! ### The display names -/

/-- A name without the prefix, in whatever case it is. -/
def shownName (name : String) : String :=
  if hasBrand T name then String.ofList (name.toList.drop 6) else name

/-- A name with the prefix begins with five letters and a space. -/
theorem exists_of_hasBrand {name : String} (h : hasBrand T name = true) :
    ∃ p rest, name.toList = p ++ ' ' :: rest ∧ CaseTables.IsAscii p ∧
      p.map Char.toLower = "umans".toList := by
  have hprefix : ['u', 'm', 'a', 'n', 's', ' '] <+: T.lowerFrom [] name.toList := by
    have h' := List.isPrefixOf_iff_prefix.1 h
    rwa [CaseTables.toLowercase, String.toList_ofList, String.toList_ofList] at h'
  obtain ⟨q, rest, hname, hq, hmap⟩ := T.prefix_lowerFrom (by simp) hprefix
  obtain ⟨p, l, rfl, hp, hl⟩ := List.map_eq_append_iff.1
    (show q.map Char.toLower = "umans".toList ++ [' '] from hmap)
  obtain ⟨c, rfl, hc⟩ := List.map_eq_singleton_iff.1 hl
  rw [CaseTables.eq_space_of_toLower hc] at hname
  refine ⟨p, rest, ?_, fun d hd => hq d (List.mem_append_left _ hd), hp⟩
  rw [hname, List.append_assoc]
  rfl

/-- **The slice never panics**, and takes off six characters. -/
theorem displayName_eq (infoObj : Value) :
    displayName T infoObj = some (shownName T (givenName infoObj)) := by
  unfold displayName shownName
  split_ifs with hbrand
  · obtain ⟨p, rest, hname, hp, hmap⟩ := exists_of_hasBrand T hbrand
    have hlen : p.length = 5 := by
      rw [← List.length_map Char.toLower, hmap]
      rfl
    have hsplit : (givenName infoObj).toList = (p ++ [' ']) ++ rest := by
      rw [hname, List.append_assoc]
      rfl
    have hbytes : Utf8.byteLen (p ++ [' ']) = Utf8.len "umans " := by
      rw [Utf8.byteLen_append, CaseTables.byteLen_ascii hp, hlen]
      rfl
    rw [← hbytes, Utf8.sliceFrom_eq hsplit, hsplit,
      List.drop_left' (by rw [List.length_append, hlen]; rfl)]
  · rfl

example :
    displayName .basic (.object [("display_name", .string "UMANS Coder")]) = some "Coder" := by
  decide

/-- A name in lowercase without the prefix. -/
def withoutBrand (name : String) : String :=
  if "umans ".toList.isPrefixOf name.toList then String.ofList (name.toList.drop 6) else name

/-- Taking the prefix off and lowering can be done in either order. -/
theorem toLowercase_shownName (name : String) :
    T.toLowercase (shownName T name) = withoutBrand (T.toLowercase name) := by
  unfold shownName withoutBrand
  by_cases hbrand : hasBrand T name = true
  · rw [if_pos hbrand, if_pos (show "umans ".toList.isPrefixOf (T.toLowercase name).toList = true
      from hbrand)]
    obtain ⟨p, rest, hname, hp, hmap⟩ := exists_of_hasBrand T hbrand
    have hlen : p.length = 5 := by
      rw [← List.length_map Char.toLower, hmap]
      rfl
    have hlower : T.lowerFrom [] name.toList =
        (p.map Char.toLower ++ [' ']) ++ T.lowerFrom [] rest := by
      rw [hname, T.lowerFrom_ascii hp, T.lowerFrom_cons_ascii (by decide)]
      -- the space hides the prefix from what follows
      rw [List.append_nil, ← List.nil_append (' ' :: p.reverse), T.lowerFrom_sep, List.append_assoc]
      rfl
    have hrest : name.toList.drop 6 = rest := by
      rw [hname, ← List.singleton_append, ← List.append_assoc]
      exact List.drop_left' (by rw [List.length_append, hlen]; rfl)
    unfold CaseTables.toLowercase
    rw [String.toList_ofList, String.toList_ofList, hrest, hlower]
    congr 1
    exact (List.drop_left' (by rw [List.length_append, List.length_map, hlen]; rfl)).symm
  · rw [if_neg hbrand, if_neg (show ¬"umans ".toList.isPrefixOf (T.toLowercase name).toList = true
      from hbrand)]

/-! ### The order -/

namespace ModelsInfo

variable (m : ModelsInfo)

/-- The display name of an id, without the prefix. -/
def name (id : String) : String := shownName T (givenName ((m.members.lookup id).getD null))

/-- What the ids are ordered by: the display name in lowercase, then the id. -/
def sortKey (id : String) : String ×ₗ String := toLex (T.toLowercase (m.name T id), id)

end ModelsInfo

/-- In a map a key is found with the value it stands with. -/
theorem lookup_of_mem {α : Type} {l : List (String × α)} (hnodup : (l.map Prod.fst).Nodup)
    {k : String} {v : α} (h : (k, v) ∈ l) : l.lookup k = some v := by
  induction l with
  | nil => cases h
  | cons e l ih =>
    obtain ⟨k', v'⟩ := e
    rw [List.map_cons, List.nodup_cons] at hnodup
    rcases List.mem_cons.1 h with heq | h
    · cases heq
      exact List.lookup_cons_self
    · have hne : k ≠ k' := fun heq => hnodup.1 (heq ▸ List.mem_map.2 ⟨(k, v), h, rfl⟩)
      rw [List.lookup_cons, beq_false_of_ne hne]
      exact ih hnodup.2 h

/-- The comparison goes by the display name in lowercase, then by the id. -/
theorem isLE_compareIds (display : List (String × String)) (a b : String) :
    (compareIds T display a b).isLE = true ↔
      toLex (((display.lookup a).map T.toLowercase).getD "", a) ≤
        toLex (((display.lookup b).map T.toLowercase).getD "", b) := by
  unfold compareIds
  rw [Ordering.isLE_then_iff_or, Prod.Lex.toLex_le_toLex, compare_lt_iff_lt, compare_eq_iff_eq,
    Ordering.ne_gt_iff_isLE.symm.trans (compare_le_iff_le (a := a) (b := b))]

/-- A sort by that comparison is a sort by those pairs. -/
theorem pairwise_sorted (display : List (String × String)) (ids : List String) :
    (ids.mergeSort fun a b => (compareIds T display a b).isLE).Pairwise fun a b =>
      toLex (((display.lookup a).map T.toLowercase).getD "", a) ≤
        toLex (((display.lookup b).map T.toLowercase).getD "", b) := by
  refine (List.pairwise_mergeSort ?_ ?_ ids).imp fun {a b} h => (isLE_compareIds T display a b).1 h
  · intro a b c hab hbc
    rw [isLE_compareIds] at hab hbc ⊢
    exact hab.trans hbc
  · intro a b
    rw [Bool.or_eq_true, isLE_compareIds, isLE_compareIds]
    exact le_total _ _

/-- What a snapshot of a `/models/info` map is. -/
structure Catalog.Canonical (m : ModelsInfo) (cat : Catalog) : Prop where
  info : cat.info = m.members
  perm : cat.orderedIds.Perm m.ids
  nodup : cat.orderedIds.Nodup
  increasing : cat.orderedIds.Pairwise fun a b => m.sortKey T a < m.sortKey T b
  lowered : ∀ id, T.toLowercase (m.name T id) =
    withoutBrand (T.toLowercase (givenName ((m.members.lookup id).getD null)))
  unique : ∀ l : List String, l.Perm m.ids → (l.Pairwise fun a b => m.sortKey T a < m.sortKey T b) →
    l = cat.orderedIds
  displayIds : (cat.display.map Prod.fst).Perm m.ids
  display : ∀ id ∈ m.ids, cat.display.lookup id = some (m.name T id)
  effective : ∀ config, cat.orderedIds ≠ [] → (cat.effectiveModels config).Sublist cat.orderedIds ∧
    ∀ id, id ∈ cat.effectiveModels config ↔ id ∈ cat.orderedIds ∧ id ∉ config.disabledModels
  all : ∀ config, cat.orderedIds ≠ [] → cat.allCatalogModels config = cat.orderedIds

section

variable {T} {m : ModelsInfo}

theorem ModelsInfo.Order.perm_ids (o : m.Order) : (o.entries.map Prod.fst).Perm m.ids :=
  o.perm.map Prod.fst

/-- Two lists that increase strictly by a key and hold the same are the same. -/
theorem eq_of_increasing {α β : Type} [LinearOrder β] {key : α → β} {l l' : List α}
    (hperm : l.Perm l') (h : l.Pairwise fun a b => key a < key b)
    (h' : l'.Pairwise fun a b => key a < key b) : l = l' :=
  hperm.eq_of_pairwise (fun _ _ _ _ hab hba => absurd hba hab.not_gt) h h'

/-- The display names of an iteration, as they are looked up. -/
theorem lookup_display (o : m.Order) {id : String} (hid : id ∈ m.ids) :
    (o.entries.map fun e => (e.1, shownName T (givenName e.2))).lookup id =
      some (m.name T id) := by
  obtain ⟨⟨k, v⟩, hmem, hk⟩ := List.mem_map.1 hid
  obtain rfl : k = id := hk
  have hv : m.members.lookup k = some v := lookup_of_mem m.nodup hmem
  unfold ModelsInfo.name
  rw [hv, Option.getD_some]
  refine lookup_of_mem ?_ (List.mem_map.2 ⟨(k, v), o.perm.mem_iff.2 hmem, rfl⟩)
  rw [List.map_map]
  exact o.perm_ids.nodup_iff.2 m.nodup

/-- What the two iterations and the sort give. -/
theorem fromInfo_eq (keys entries : m.Order) :
    Catalog.fromInfo T m keys entries = some {
      info := m.members
      display := entries.entries.map fun e => (e.1, shownName T (givenName e.2))
      orderedIds := (keys.entries.map Prod.fst).mergeSort fun a b =>
        (compareIds T (entries.entries.map fun e => (e.1, shownName T (givenName e.2)))
          a b).isLE } := by
  have hdisplay : (entries.entries.mapM fun e =>
      (displayName T e.2).map fun name => (e.1, name)) =
        some (entries.entries.map fun e => (e.1, shownName T (givenName e.2))) := by
    simp only [displayName_eq, Option.map_some]
    exact List.mapM_pure
  unfold Catalog.fromInfo
  rw [hdisplay]
  rfl

/-- **Every snapshot of the map is canonical.** -/
theorem canonical_of_fromInfo {keys entries : m.Order} {cat : Catalog}
    (h : Catalog.fromInfo T m keys entries = some cat) : cat.Canonical T m := by
  rw [fromInfo_eq] at h
  have hdisplay : cat.display =
      entries.entries.map fun e => (e.1, shownName T (givenName e.2)) := by
    rw [← Option.some.inj h]
  have hids : cat.orderedIds = (keys.entries.map Prod.fst).mergeSort fun a b =>
      (compareIds T cat.display a b).isLE := by
    rw [hdisplay, ← Option.some.inj h]
  have hlookup : ∀ id ∈ m.ids, cat.display.lookup id = some (m.name T id) := by
    intro id hid
    rw [hdisplay]
    exact lookup_display entries hid
  have hperm : cat.orderedIds.Perm m.ids := by
    rw [hids]
    exact (List.mergeSort_perm _ _).trans keys.perm_ids
  have hnodup : cat.orderedIds.Nodup := hperm.nodup_iff.2 m.nodup
  have hle : cat.orderedIds.Pairwise fun a b => m.sortKey T a ≤ m.sortKey T b := by
    have hsorted := pairwise_sorted T cat.display (keys.entries.map Prod.fst)
    rw [← hids] at hsorted
    refine hsorted.imp_of_mem fun {a b} ha hb hab => ?_
    rw [hlookup a (hperm.mem_iff.1 ha), hlookup b (hperm.mem_iff.1 hb)] at hab
    exact hab
  have hlt : cat.orderedIds.Pairwise fun a b => m.sortKey T a < m.sortKey T b := by
    refine (hle.and hnodup).imp fun {a b} hab => lt_of_le_of_ne hab.1 fun heq => hab.2 ?_
    exact congrArg (fun k => (ofLex k).2) heq
  exact {
    info := by rw [← Option.some.inj h]
    perm := hperm
    nodup := hnodup
    increasing := hlt
    lowered := fun id => toLowercase_shownName T _
    unique := fun l hl hincreasing => eq_of_increasing (hl.trans hperm.symm) hincreasing hlt
    displayIds := by
      rw [hdisplay, List.map_map]
      exact entries.perm_ids
    display := hlookup
    effective := fun config hne => by
      unfold Catalog.effectiveModels
      rw [if_neg hne]
      exact ⟨List.filter_sublist, fun id => by rw [List.mem_filter, decide_eq_true_eq]⟩
    all := fun config hne => if_neg hne }

end

/-- **The order of the catalog is canonical**: in whatever orders the hash map is iterated, there
is a snapshot, always with the same list of ids, and it is canonical. -/
theorem fromInfo_canonical (m : ModelsInfo) :
    ∃ orderedIds, ∀ keys entries : m.Order, ∃ cat, Catalog.fromInfo T m keys entries = some cat ∧
      cat.orderedIds = orderedIds ∧ cat.Canonical T m := by
  obtain ⟨cat, hcat⟩ : ∃ cat, Catalog.fromInfo T m ⟨m.members, .refl _⟩ ⟨m.members, .refl _⟩ =
      some cat := ⟨_, fromInfo_eq _ _⟩
  refine ⟨cat.orderedIds, fun keys entries => ?_⟩
  obtain ⟨cat', hcat'⟩ : ∃ cat, Catalog.fromInfo T m keys entries = some cat :=
    ⟨_, fromInfo_eq _ _⟩
  have hcanon' : cat'.Canonical T m := canonical_of_fromInfo hcat'
  exact ⟨cat', hcat', (canonical_of_fromInfo hcat).unique _ hcanon'.perm hcanon'.increasing,
    hcanon'⟩

end

/-- Three models: one with the prefix in capitals, and one without a display name. -/
def threeModels : ModelsInfo where
  members := [("umans-flash", .object [("display_name", .string "Flash")]),
    ("umans-coder", .object [("display_name", .string "UMANS Coder")]),
    ("umans-base", .object [])]
  nodup := by decide

/-- The map iterated one way for the ids and the other way for the names. -/
theorem fromInfo_canonical_three :
    ∃ cat, Catalog.fromInfo .basic threeModels ⟨threeModels.members, .refl _⟩
        ⟨threeModels.members.reverse, List.reverse_perm _⟩ = some cat ∧
      cat.orderedIds = ["umans-base", "umans-coder", "umans-flash"] ∧
      cat.display.lookup "umans-coder" = some "Coder" := by
  obtain ⟨ids, h⟩ := fromInfo_canonical .basic threeModels
  obtain ⟨cat, hcat, -, hcanon⟩ := h ⟨threeModels.members, .refl _⟩
    ⟨threeModels.members.reverse, List.reverse_perm _⟩
  refine ⟨cat, hcat, (hcanon.unique _ (by decide) (by decide)).symm, ?_⟩
  rw [hcanon.display "umans-coder" (by decide)]
  decide

end Mybro
