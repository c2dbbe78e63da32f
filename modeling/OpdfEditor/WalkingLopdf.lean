import OpdfEditor.PageWalk

/-!
A PDF library that meets all of the laws: references are followed as far as they go,
and pages are listed unless the page tree goes down further than the file has objects.
-/
namespace OpdfEditor
namespace WalkingLopdf

open ReferenceLopdf (dereference)

theorem dereference_next {objects : Objects} {limit : Nat} {id next : ObjectId}
    (h : objects.lookup id = some (.reference next)) :
    dereference objects (limit + 1) id = dereference objects limit next := by
  simp [dereference, h]

/-- A chain that ends goes on with a reference, or ends where it is. -/
theorem dereference_cases {objects : Objects} {limit : Nat} {id target : ObjectId}
    (h : dereference objects (limit + 1) id = some target) :
    (∃ next, objects.lookup id = some (.reference next) ∧
      dereference objects limit next = some target) ∨
    ∃ object, objects.lookup id = some object ∧ object.isReference = false ∧ id = target := by
  unfold dereference at h
  split at h
  · cases h
  · rename_i next hnext
    exact .inl ⟨next, hnext, h⟩
  · rename_i object hplain hobject
    refine .inr ⟨object, hobject, ?_, Option.some.inj h⟩
    cases object with
    | reference next => exact absurd rfl (hplain next)
    | _ => rfl

theorem dereference_lands {objects : Objects} {limit : Nat} {id target : ObjectId}
    (h : dereference objects limit id = some target) : Leads objects id target := by
  induction limit generalizing id with
  | zero => cases h
  | succ limit ih =>
    rcases dereference_cases h with ⟨next, hnext, hrest⟩ | ⟨object, hobject, hplain, rfl⟩
    · exact .next hnext (ih hrest)
    · exact .here hobject hplain

theorem dereference_leads {objects : Objects} {id target : ObjectId} (h : Leads objects id target) :
    ∃ limit, dereference objects limit id = some target := by
  induction h with
  | here hobject hplain => exact ⟨1, ReferenceLopdf.dereference_self hobject hplain⟩
  | next hnext _ ih =>
    obtain ⟨limit, hlimit⟩ := ih
    exact ⟨limit + 1, (dereference_next hnext).trans hlimit⟩

/-- A chain does without an identifier it does not pass through. -/
theorem dereference_erase {objects : Objects} {limit : Nat} {avoided id target : ObjectId}
    (h : dereference objects limit id = some target)
    (havoids : ∀ shorter ≤ limit, dereference objects shorter avoided ≠ some target) :
    dereference (objects.erase avoided) limit id = some target := by
  induction limit generalizing id with
  | zero => cases h
  | succ limit ih =>
    have hne : id ≠ avoided := by
      rintro rfl
      exact havoids (limit + 1) (Nat.le_refl _) h
    rcases dereference_cases h with ⟨next, hnext, hrest⟩ | ⟨object, hobject, hplain, rfl⟩
    · rw [dereference_next ((Finmap.lookup_erase_ne hne).trans hnext)]
      exact ih hrest fun shorter hshorter => havoids shorter (Nat.le_succ_of_le hshorter)
    · exact ReferenceLopdf.dereference_self ((Finmap.lookup_erase_ne hne).trans hobject) hplain

theorem dereference_of_erase {objects : Objects} {limit : Nat} {avoided id target : ObjectId}
    (h : dereference (objects.erase avoided) limit id = some target) :
    dereference objects limit id = some target := by
  have hlookup : ∀ {id object}, (objects.erase avoided).lookup id = some object →
      objects.lookup id = some object := by
    intro id object hobject
    rw [← Finmap.lookup_erase_ne (Finmap.mem_erase.1 (Finmap.mem_of_lookup_eq_some hobject)).1]
    exact hobject
  induction limit generalizing id with
  | zero => cases h
  | succ limit ih =>
    rcases dereference_cases h with ⟨next, hnext, hrest⟩ | ⟨object, hobject, hplain, rfl⟩
    · exact (dereference_next (hlookup hnext)).trans (ih hrest)
    · exact ReferenceLopdf.dereference_self (hlookup hobject) hplain

/-- A chain that ends has passed through no identifier twice. -/
theorem dereference_short {objects : Objects} {limit : Nat} {id target : ObjectId}
    (h : dereference objects limit id = some target) :
    dereference objects (objects.keys.card + 1) id = some target := by
  induction limit using Nat.strong_induction_on generalizing objects id with
  | _ limit ih =>
    by_cases hshorter : ∃ shorter < limit, dereference objects shorter id = some target
    · obtain ⟨shorter, hlt, hless⟩ := hshorter
      exact ih shorter hlt hless
    have havoids : ∀ shorter < limit, dereference objects shorter id ≠ some target := by
      simpa using hshorter
    cases limit with
    | zero => cases h
    | succ limit =>
      rcases dereference_cases h with ⟨next, hnext, hrest⟩ | ⟨object, hobject, hplain, rfl⟩
      · have herased := dereference_erase hrest fun shorter hle =>
          havoids shorter (Nat.lt_succ_of_le hle)
        have hshort := dereference_of_erase (ih limit (Nat.lt_succ_self _) herased)
        have hmem : id ∈ objects.keys := Finmap.mem_keys.2 (Finmap.mem_of_lookup_eq_some hnext)
        have hcard : (objects.erase id).keys.card + 1 = objects.keys.card := by
          rw [Finmap.keys_erase]
          exact Finset.card_erase_add_one hmem
        rwa [dereference_next hnext, ← hcard]
      · exact ReferenceLopdf.dereference_self hobject hplain

abbrev unlisted : Lopdf where
  dereference objects := dereference objects (objects.keys.card + 1)
  failure _ _ := "object not found"
  pageIter _ := []
  pruneObjects := ReferenceLopdf.pruneObjects
  renumberObjects := id

section

local instance : Lopdf := unlisted

/-- The pages a child stands for, where `list` lists those below a node. -/
def pagesAt (objects : Objects) (list : List Object → Option (List ObjectId)) (kid : Object) :
    Option (List ObjectId) :=
  match kid.asReference with
  | none => some []
  | some id =>
    if typeAt objects id = some "Page" then some [id]
    else if typeAt objects id = some "Pages" then list (kidsAt objects id)
    else some []

def listPages (objects : Objects) : Nat → List Object → Option (List ObjectId)
  | 0, _ => none
  | depth + 1, kids => (kids.mapM (pagesAt objects (listPages objects depth))).map List.flatten

/-- The pages of a file whose page tree goes down no further than it has objects. -/
def pageIter (file : LopdfDocument) : List ObjectId :=
  (listPages file.objects (file.objects.keys.card + 1) (treeKids file)).getD []

end

scoped instance : Lopdf := { unlisted with pageIter }

theorem pagesAt_eq (objects : Objects) (list : List Object → Option (List ObjectId)) (kid : Object) :
    pagesAt objects list kid =
      match kid.asReference with
      | none => some []
      | some id =>
        if typeAt objects id = some "Page" then some [id]
        else if typeAt objects id = some "Pages" then list (kidsAt objects id)
        else some [] := rfl

theorem pageIter_eq (file : LopdfDocument) : Lopdf.pageIter file =
    (listPages file.objects (file.objects.keys.card + 1) (treeKids file)).getD [] := rfl

theorem listPages_cons (objects : Objects) (depth : Nat) (kid : Object) (kids : List Object) :
    listPages objects (depth + 1) (kid :: kids) =
      (pagesAt objects (listPages objects depth) kid).bind fun first =>
        (listPages objects (depth + 1) kids).map (first ++ ·) := by
  simp only [listPages, List.mapM_cons]
  cases pagesAt objects (listPages objects depth) kid with
  | none => rfl
  | some first =>
    cases kids.mapM (pagesAt objects (listPages objects depth)) with
    | none => rfl
    | some rest => rfl

/-- A walk with enough budget comes to all pages that are listed, and goes on with what is left. -/
theorem walk_of_listPages {objects : Objects} {depth : Nat} {kids : List Object} {pages : List ObjectId}
    (h : listPages objects depth kids = some pages) :
    ∃ cost, ∀ budget rest, walk objects (cost + budget) (kids ++ rest) =
      pages ++ walk objects budget rest := by
  induction depth generalizing kids pages with
  | zero => cases h
  | succ depth ihDepth =>
    induction kids generalizing pages with
    | nil =>
      cases h
      exact ⟨0, fun budget rest => by rw [Nat.zero_add]; rfl⟩
    | cons kid kids ih =>
      rw [listPages_cons] at h
      obtain ⟨first, hfirst, hrest⟩ := Option.bind_eq_some_iff.1 h
      obtain ⟨others, hothers, rfl⟩ := Option.map_eq_some_iff.1 hrest
      obtain ⟨cost, hcost⟩ := ih hothers
      rw [pagesAt_eq] at hfirst
      cases hkid : kid.asReference with
      | none =>
        rw [hkid] at hfirst
        cases hfirst
        refine ⟨cost + 1, fun budget rest => ?_⟩
        rw [Nat.add_right_comm, List.cons_append, walk, hkid]
        exact hcost budget rest
      | some id =>
        rw [hkid] at hfirst
        dsimp only at hfirst
        by_cases hpage : typeAt objects id = some "Page"
        · rw [if_pos hpage] at hfirst
          cases hfirst
          refine ⟨cost + 1, fun budget rest => ?_⟩
          rw [Nat.add_right_comm, List.cons_append, walk, hkid]
          dsimp only
          rw [if_pos hpage, hcost]
          rfl
        rw [if_neg hpage] at hfirst
        by_cases hnode : typeAt objects id = some "Pages"
        · rw [if_pos hnode] at hfirst
          obtain ⟨below, hbelow⟩ := ihDepth hfirst
          refine ⟨below + cost + 1, fun budget rest => ?_⟩
          rw [Nat.add_right_comm, List.cons_append, walk, hkid]
          dsimp only
          rw [if_neg hpage, if_pos hnode, Nat.add_assoc, hbelow, hcost, List.append_assoc]
        · rw [if_neg hnode] at hfirst
          cases hfirst
          refine ⟨cost + 1, fun budget rest => ?_⟩
          rw [Nat.add_right_comm, List.cons_append, walk, hkid]
          dsimp only
          rw [if_neg hpage, if_neg hnode]
          exact hcost budget rest

theorem pageIter_walk (file : LopdfDocument) :
    ∃ budget, Lopdf.pageIter file = walk file.objects budget (treeKids file) := by
  rw [pageIter_eq]
  cases hpages : listPages file.objects (file.objects.keys.card + 1) (treeKids file) with
  | none => exact ⟨0, rfl⟩
  | some pages =>
    obtain ⟨cost, hcost⟩ := walk_of_listPages hpages
    refine ⟨cost, ?_⟩
    have hwalk := hcost 0 []
    rw [List.append_nil, Nat.add_zero] at hwalk
    rw [hwalk, walk, List.append_nil]
    rfl

theorem dereference_iff {objects : Objects} {id target : ObjectId} :
    Lopdf.dereference objects id = some target ↔ Leads objects id target := by
  refine ⟨dereference_lands, fun hleads => ?_⟩
  obtain ⟨limit, hlimit⟩ := dereference_leads hleads
  exact dereference_short hlimit

scoped instance : LawfulDereference where
  dereference_self hobject hplain := dereference_iff.2 (.here hobject hplain)
  dereference_lands h := (dereference_iff.1 h).lookup

theorem mem_of_getDictionary {objects : Objects} {id : ObjectId} {dict : Dictionary}
    (h : Objects.getDictionary objects id = .ok dict) : id ∈ objects := by
  have hobject := getDictionary_eq_ok.1 h
  unfold Objects.getObject at hobject
  cases hdereference : Lopdf.dereference objects id with
  | none => simp [hdereference] at hobject
  | some target => exact ReferenceLopdf.mem_of_dereference hdereference

/-- What an object that is no reference leads to is the object itself. -/
theorem getDictionary_plain {objects : Objects} {id : ObjectId} (h : isAlias objects id = false) :
    (Objects.getDictionary objects id).toOption = (objects.lookup id).bind Object.asDict := by
  cases hlookup : objects.lookup id with
  | none =>
    cases hdict : Objects.getDictionary objects id with
    | error e => rfl
    | ok dict => exact absurd (mem_of_getDictionary hdict) (Finmap.lookup_eq_none.1 hlookup)
  | some object =>
    have hplain : object.isReference = false := by simpa [isAlias, hlookup] using h
    have hself := LawfulDereference.dereference_self hlookup hplain
    rw [Objects.getDictionary, Objects.getObject, hself, Option.bind_some, hlookup, Option.bind_some]
    cases object <;> rfl

theorem typeAt_plain {objects : Objects} {id : ObjectId} (h : isAlias objects id = false) :
    typeAt objects id = statedType objects id := by
  rw [typeAt, getDictionary_plain h]
  rfl

theorem isAlias_of_statedType {objects : Objects} {id : ObjectId} {typeName : String}
    (h : statedType objects id = some typeName) : isAlias objects id = false := by
  obtain ⟨object, hobject, hplain⟩ := lookup_of_statedType h
  rw [isAlias, hobject]
  exact hplain

/-- Every node entered takes one step of the depth the walk is given. -/
theorem listPages_of_walks {objects : Objects} {path : Finset ObjectId} {kids : List Object}
    {pages : List ObjectId} (h : Walks objects path kids pages) {depth : Nat}
    (hdepth : (objects.keys \ path).card < depth) : listPages objects depth kids = some pages := by
  obtain ⟨depth, rfl⟩ := Nat.exists_eq_add_one_of_ne_zero (Nat.ne_of_gt (Nat.zero_lt_of_lt hdepth))
  induction h generalizing depth with
  | nil => rfl
  | @skip path kid kids pages hskip _ ih =>
    rw [listPages_cons, ih depth hdepth, pagesAt_eq]
    cases hkid : kid.asReference with
    | none => rfl
    | some id =>
      obtain ⟨halias, hpage, hpages⟩ := hskip id (Object.asReference_eq_some.1 hkid)
      dsimp only
      rw [typeAt_plain halias, if_neg hpage, if_neg hpages]
      rfl
  | @page path id kids pages htype _ ih =>
    rw [listPages_cons, ih depth hdepth, pagesAt_eq]
    simp only [Object.asReference]
    rw [typeAt_plain (isAlias_of_statedType htype), if_pos htype]
    rfl
  | @node path id d kids below pages hlookup htype hnew _ _ ihBelow ih =>
    have hstated : statedType objects id = some "Pages" := by
      simp [statedType, hlookup, Object.asDict, htype, Object.asName]
    have hsub := card_left_lt (Finmap.mem_of_lookup_eq_some hlookup) hnew
    obtain ⟨depth, rfl⟩ := Nat.exists_eq_add_one_of_ne_zero (show depth ≠ 0 by omega)
    have hbelow : listPages objects (depth + 1) (kidsOf objects d) = some below :=
      ihBelow depth (by omega)
    have hkids : kidsAt objects id = kidsOf objects d := by
      rw [kidsAt, Objects.getDictionary_of_lookup hlookup]
      rfl
    rw [listPages_cons, ih (depth + 1) hdepth, pagesAt_eq]
    simp only [Object.asReference]
    rw [typeAt_plain (isAlias_of_statedType hstated), if_neg (by simp [hstated]), if_pos hstated,
      hkids, hbelow]
    rfl

theorem mem_of_pageIter {file : LopdfDocument} {id : ObjectId} (h : id ∈ Lopdf.pageIter file) :
    id ∈ file.objects := by
  obtain ⟨budget, hwalk⟩ := pageIter_walk file
  rw [hwalk] at h
  obtain ⟨dict, hdict, -⟩ := Option.bind_eq_some_iff.1 (typeAt_of_walk h)
  exact mem_of_getDictionary (toOption_eq_some.1 hdict)

theorem root_of_pageIter {file : LopdfDocument} {id : ObjectId} (h : id ∈ Lopdf.pageIter file) :
    ∃ catalog root, file.catalog = .ok catalog ∧
      Dictionary.get catalog "Pages" = some (.reference root) ∧ root ∈ file.objects := by
  obtain ⟨budget, hwalk⟩ := pageIter_walk file
  rw [hwalk] at h
  have hkids : treeKids file ≠ [] := by
    intro hnil
    rw [hnil] at h
    cases budget <;> cases h
  unfold treeKids at hkids
  cases hroot : readRootPagesId file with
  | error e => simp [hroot] at hkids
  | ok root =>
    rw [hroot] at hkids
    have hmem : root ∈ file.objects := by
      unfold kidsAt at hkids
      cases hdict : Objects.getDictionary file.objects root with
      | error e => simp [hdict, Except.toOption] at hkids
      | ok dict => exact mem_of_getDictionary hdict
    obtain ⟨catalogId, catalog, hcatalogId, hcatalog, hpages⟩ := readRootPagesId_eq_ok.1 hroot
    refine ⟨catalog, root, ?_, hpages, hmem⟩
    rw [LopdfDocument.catalog, hcatalogId]
    exact hcatalog

scoped instance : LawfulLopdf where
  pageIter_eq {file root pages} h := by
    obtain ⟨catalogId, catalog, node, hroot, hcatalog, hpages, hnode, hwalk⟩ := h.walks
    have hread : file.catalog = .ok catalog := by
      unfold LopdfDocument.catalog
      rw [hroot]
      exact Objects.getDictionary_of_lookup hcatalog
    have hkids : treeKids file = kidsOf file.objects node := by
      rw [treeKids, readRootPagesId, hread]
      simp only [hpages, Option.bind_some, Object.asReference]
      rw [kidsAt, Objects.getDictionary_of_lookup hnode]
      rfl
    rw [pageIter_eq, hkids, listPages_of_walks hwalk
      (Nat.lt_succ_of_le (Finset.card_le_card Finset.sdiff_subset))]
    rfl
  pageIter_mem := mem_of_pageIter
  pageIter_root := root_of_pageIter
  prune_trailer _ := rfl
  prune_keeps := ReferenceLopdf.prune_keeps
  prune_drops := ReferenceLopdf.prune_drops
  renumber d := ⟨id, .refl d⟩

scoped instance : LawfulWalk where
  dereference_iff := dereference_iff
  pageIter_walk := pageIter_walk

end WalkingLopdf
end OpdfEditor
