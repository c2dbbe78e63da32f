import OpdfEditor.Lopdf
import OpdfEditor.FiniteClosure

/-!
What is relied on of the PDF library: pages are listed by a depth-first walk of
`/Kids`, pruning keeps what the trailer reaches, and renumbering is an injective
renaming. A reference implementation shows the laws can be met.
-/
namespace OpdfEditor

/-! ### References -/

namespace Object

mutual
/-- Every identifier a value refers to. -/
def links : Object → List ObjectId
  | .reference id => [id]
  | .array items => itemLinks items
  | .dictionary entries => entryLinks entries
  | .stream entries _ => entryLinks entries
  | _ => []

def itemLinks : List Object → List ObjectId
  | [] => []
  | item :: items => links item ++ itemLinks items

def entryLinks : List (String × Object) → List ObjectId
  | [] => []
  | (_, value) :: entries => links value ++ entryLinks entries
end

mutual
/-- Rewrite every identifier a value refers to. -/
def rename (f : ObjectId → ObjectId) : Object → Object
  | .reference id => .reference (f id)
  | .array items => .array (renameItems f items)
  | .dictionary entries => .dictionary (renameEntries f entries)
  | .stream entries content => .stream (renameEntries f entries) content
  | object => object

def renameItems (f : ObjectId → ObjectId) : List Object → List Object
  | [] => []
  | item :: items => rename f item :: renameItems f items

def renameEntries (f : ObjectId → ObjectId) : List (String × Object) → List (String × Object)
  | [] => []
  | (key, value) :: entries => (key, rename f value) :: renameEntries f entries
end

mutual
/-- Renaming nothing changes nothing. -/
theorem rename_id : ∀ object : Object, object.rename id = object
  | .null | .boolean _ | .integer _ | .real _ | .name _ | .string _ _ | .reference _ => rfl
  | .array items => congrArg array (renameItems_id items)
  | .dictionary entries => congrArg dictionary (renameEntries_id entries)
  | .stream entries content => congrArg (stream · content) (renameEntries_id entries)

theorem renameItems_id : ∀ items : List Object, renameItems id items = items
  | [] => rfl
  | item :: items => by rw [renameItems, rename_id item, renameItems_id items]

theorem renameEntries_id : ∀ entries : List (String × Object), renameEntries id entries = entries
  | [] => rfl
  | (key, value) :: entries => by rw [renameEntries, rename_id value, renameEntries_id entries]
end

mutual
/-- A renamed value refers to what it referred to, renamed. -/
theorem links_rename (f : ObjectId → ObjectId) : ∀ object : Object,
    (object.rename f).links = object.links.map f
  | .null | .boolean _ | .integer _ | .real _ | .name _ | .string _ _ | .reference _ => rfl
  | .array items => itemLinks_rename f items
  | .dictionary entries => entryLinks_rename f entries
  | .stream entries _ => entryLinks_rename f entries

theorem itemLinks_rename (f : ObjectId → ObjectId) : ∀ items : List Object,
    itemLinks (renameItems f items) = (itemLinks items).map f
  | [] => rfl
  | item :: items => by
    rw [renameItems, itemLinks, itemLinks, links_rename f item, itemLinks_rename f items,
      List.map_append]

theorem entryLinks_rename (f : ObjectId → ObjectId) : ∀ entries : List (String × Object),
    entryLinks (renameEntries f entries) = (entryLinks entries).map f
  | [] => rfl
  | (key, value) :: entries => by
    rw [renameEntries, entryLinks, entryLinks, links_rename f value, entryLinks_rename f entries,
      List.map_append]
end

theorem mem_entryLinks {entries : List (String × Object)} {id : ObjectId} :
    id ∈ entryLinks entries ↔ ∃ entry ∈ entries, id ∈ entry.2.links := by
  induction entries with
  | nil => simp [entryLinks]
  | cons entry entries ih => simp [entryLinks, ih]

theorem mem_itemLinks {items : List Object} {id : ObjectId} :
    id ∈ itemLinks items ↔ ∃ item ∈ items, id ∈ item.links := by
  induction items with
  | nil => simp [itemLinks]
  | cons item items ih => simp [itemLinks, ih]

theorem links_subset_entryLinks {entries : List (String × Object)} {key : String} {value : Object}
    (h : Dictionary.get entries key = some value) : value.links ⊆ entryLinks entries :=
  fun _ hid => mem_entryLinks.2 ⟨_, Dictionary.mem_of_get h, hid⟩

end Object

theorem renameItems_eq_map (f : ObjectId → ObjectId) (items : List Object) :
    Object.renameItems f items = items.map (Object.rename f) := by
  induction items with
  | nil => rfl
  | cons item items ih => rw [Object.renameItems, ih, List.map_cons]

theorem renameEntries_eq_map (f : ObjectId → ObjectId) (entries : List (String × Object)) :
    Object.renameEntries f entries = entries.map fun entry => (entry.1, entry.2.rename f) := by
  induction entries with
  | nil => rfl
  | cons entry entries ih => rw [Object.renameEntries, ih, List.map_cons]

/-- What a renamed dictionary holds is renamed. -/
theorem Dictionary.get_renameEntries (f : ObjectId → ObjectId) (d : Dictionary) (key : String) :
    get (Object.renameEntries f d) key = (get d key).map (Object.rename f) := by
  induction d with
  | nil => rfl
  | cons entry d ih =>
    obtain ⟨k, v⟩ := entry
    rw [Object.renameEntries, get_cons, get_cons, ih]
    split <;> rfl

/-- One object refers to another identifier. -/
def Links (objects : Objects) (source target : ObjectId) : Prop :=
  ∃ object, objects.lookup source = some object ∧ target ∈ object.links

/-- Following every reference from the trailer leads to this identifier. -/
def LopdfDocument.Reaches (d : LopdfDocument) (id : ObjectId) : Prop :=
  ∃ start ∈ Object.entryLinks d.trailer, Relation.ReflTransGen (Links d.objects) start id

namespace LopdfDocument

theorem reaches_of_trailer {d : LopdfDocument} {key : String} {id : ObjectId}
    (h : Dictionary.get d.trailer key = some (.reference id)) : d.Reaches id :=
  ⟨id, Object.links_subset_entryLinks h (List.mem_singleton_self _), .refl⟩

theorem Reaches.tail {d : LopdfDocument} {source target : ObjectId} (h : d.Reaches source)
    (hlink : Links d.objects source target) : d.Reaches target := by
  obtain ⟨start, hstart, hreach⟩ := h
  exact ⟨start, hstart, hreach.tail hlink⟩

end LopdfDocument

/-! ### The page tree -/

def kidsOf (objects : Objects) (node : Dictionary) : List Object :=
  match Dictionary.get node "Kids" with
  | some (.array items) => items
  | some (.reference id) =>
    match objects.lookup id with
    | some (.array items) => items
    | _ => []
  | _ => []

def statedType (objects : Objects) (id : ObjectId) : Option String :=
  ((objects.lookup id).bind Object.asDict).bind fun d => (Dictionary.get d "Type").bind Object.asName

theorem lookup_of_statedType {objects : Objects} {id : ObjectId} {typeName : String}
    (h : statedType objects id = some typeName) :
    ∃ object, objects.lookup id = some object ∧ object.isReference = false := by
  obtain ⟨d, hd, -⟩ := Option.bind_eq_some_iff.1 h
  obtain ⟨object, hobject, hdict⟩ := Option.bind_eq_some_iff.1 hd
  exact ⟨object, hobject, by rw [Object.asDict_eq_some.1 hdict]; rfl⟩

def isAlias (objects : Objects) (id : ObjectId) : Bool :=
  (objects.lookup id).any Object.isReference

/-- A child the walk of the page tree passes over. -/
def IsSkipped (objects : Objects) (kid : Object) : Prop :=
  ∀ id, kid = .reference id →
    isAlias objects id = false ∧ statedType objects id ≠ some "Page" ∧
      statedType objects id ≠ some "Pages"

/-- A depth-first walk of `/Kids` below the nodes in `path`, listing the pages it comes to. -/
inductive Walks (objects : Objects) : Finset ObjectId → List Object → List ObjectId → Prop
  | nil {path : Finset ObjectId} : Walks objects path [] []
  | skip {path : Finset ObjectId} {kid : Object} {kids : List Object} {pages : List ObjectId} :
    IsSkipped objects kid → Walks objects path kids pages → Walks objects path (kid :: kids) pages
  | page {path : Finset ObjectId} {id : ObjectId} {kids : List Object} {pages : List ObjectId} :
    statedType objects id = some "Page" → Walks objects path kids pages →
      Walks objects path (.reference id :: kids) (id :: pages)
  | node {path : Finset ObjectId} {id : ObjectId} {d : Dictionary} {kids : List Object}
      {below pages : List ObjectId} :
    objects.lookup id = some (.dictionary d) → Dictionary.get d "Type" = some (.name "Pages") →
      id ∉ path → Walks objects (insert id path) (kidsOf objects d) below →
      Walks objects path kids pages → Walks objects path (.reference id :: kids) (below ++ pages)

/-- The trailer names a catalog, the catalog a page tree, and the tree these pages in order. -/
structure PageTree (file : LopdfDocument) (root : ObjectId) (pages : List ObjectId) : Prop where
  walks : ∃ catalogId catalog node,
    Dictionary.get file.trailer "Root" = some (.reference catalogId) ∧
    file.objects.lookup catalogId = some (.dictionary catalog) ∧
    Dictionary.get catalog "Pages" = some (.reference root) ∧
    file.objects.lookup root = some (.dictionary node) ∧
    Walks file.objects {root} (kidsOf file.objects node) pages

/-- One document is another with its objects renamed. -/
structure Renames (f : ObjectId → ObjectId) (d d' : LopdfDocument) : Prop where
  injective : Function.Injective f
  lookup : ∀ id, d'.objects.lookup (f id) = (d.objects.lookup id).map (Object.rename f)
  onto : ∀ id ∈ d'.objects, ∃ source, id = f source
  trailer : d'.trailer = Object.renameEntries f d.trailer

theorem Renames.refl (d : LopdfDocument) : Renames id d d := by
  have hid : Object.rename id = id := funext Object.rename_id
  exact ⟨Function.injective_id, fun id' => by simp [hid], fun id' _ => ⟨id', rfl⟩,
    (Object.renameEntries_id _).symm⟩

/-- What the trailer leads to is led to under its new identifier. -/
theorem Renames.reaches {f : ObjectId → ObjectId} {d d' : LopdfDocument} (h : Renames f d d')
    {id : ObjectId} (hid : d.Reaches id) : d'.Reaches (f id) := by
  obtain ⟨start, hstart, hreach⟩ := hid
  induction hreach with
  | refl =>
    refine ⟨f start, ?_, .refl⟩
    rw [h.trailer, Object.entryLinks_rename]
    exact List.mem_map_of_mem hstart
  | @tail source target _ hlink ih =>
    obtain ⟨object, hobject, htarget⟩ := hlink
    refine ih.tail ⟨object.rename f, ?_, ?_⟩
    · rw [h.lookup, hobject]
      rfl
    · rw [Object.links_rename]
      exact List.mem_map_of_mem htarget

/-- A renaming makes no objects and loses none. -/
theorem Renames.mem_iff {f : ObjectId → ObjectId} {d d' : LopdfDocument} (h : Renames f d d')
    (id : ObjectId) : f id ∈ d'.objects ↔ id ∈ d.objects := by
  rw [← Finmap.lookup_isSome, ← Finmap.lookup_isSome, h.lookup, Option.isSome_map]

class LawfulLopdf [Lopdf] : Prop extends LawfulDereference where
  pageIter_eq : ∀ {file : LopdfDocument} {root : ObjectId} {pages : List ObjectId},
    PageTree file root pages → Lopdf.pageIter file = pages
  /-- Only objects are listed as pages, whatever the tree looks like. -/
  pageIter_mem : ∀ {file : LopdfDocument} {id : ObjectId},
    id ∈ Lopdf.pageIter file → id ∈ file.objects
  /-- A page is only come to from a page tree root that exists. -/
  pageIter_root : ∀ {file : LopdfDocument} {id : ObjectId}, id ∈ Lopdf.pageIter file →
    ∃ catalog root, file.catalog = .ok catalog ∧
      Dictionary.get catalog "Pages" = some (.reference root) ∧ root ∈ file.objects
  prune_trailer : ∀ d : LopdfDocument, (Lopdf.pruneObjects d).trailer = d.trailer
  prune_keeps : ∀ {d : LopdfDocument} {id : ObjectId}, d.Reaches id →
    (Lopdf.pruneObjects d).objects.lookup id = d.objects.lookup id
  prune_drops : ∀ {d : LopdfDocument} {id : ObjectId}, ¬ d.Reaches id →
    (Lopdf.pruneObjects d).objects.lookup id = none
  renumber : ∀ d : LopdfDocument, ∃ f, Renames f d (Lopdf.renumberObjects d)

/-- Entering a node leaves fewer to enter. -/
theorem card_left_lt {objects : Objects} {path : Finset ObjectId} {id : ObjectId} (hid : id ∈ objects)
    (hnew : id ∉ path) : (objects.keys \ insert id path).card < (objects.keys \ path).card := by
  rw [Finset.sdiff_insert]
  exact Finset.card_erase_lt_of_mem (Finset.mem_sdiff.2 ⟨Finmap.mem_keys.2 hid, hnew⟩)

/-! ### A reference implementation -/

namespace ReferenceLopdf

def referenceLimit : Nat := 128

/-- Follow at most `limit` references. -/
def dereference (objects : Objects) : Nat → ObjectId → Option ObjectId
  | 0, _ => none
  | limit + 1, id =>
    match objects.lookup id with
    | none => none
    | some (.reference next) => dereference objects limit next
    | some _ => some id

/-- An object that is no reference is where it leads. -/
theorem dereference_self {objects : Objects} {id : ObjectId} {object : Object}
    (h : objects.lookup id = some object) (hobject : object.isReference = false) {limit : Nat} :
    dereference objects (limit + 1) id = some id := by
  cases object <;> simp_all [dereference, Object.isReference]

/-- List the pages below some children; `depth` bounds how far down the walk goes. -/
def listPages (objects : Objects) : Nat → List Object → List ObjectId
  | 0, _ => []
  | depth + 1, kids => kids.flatMap fun kid =>
    match kid.asReference with
    | none => []
    | some id =>
      match dereference objects referenceLimit id with
      | none => []
      | some target =>
        if statedType objects target = some "Page" then [id]
        else if statedType objects target = some "Pages" then
          match (objects.lookup target).bind Object.asDict with
          | some d => listPages objects depth (kidsOf objects d)
          | none => []
        else []

def pageIter (file : LopdfDocument) : List ObjectId :=
  let objects := file.objects
  match (Dictionary.get file.trailer "Root").bind Object.asReference with
  | none => []
  | some catalogId =>
    match (objects.lookup catalogId).bind Object.asDict with
    | none => []
    | some catalog =>
      match (Dictionary.get catalog "Pages").bind Object.asReference with
      | none => []
      | some root =>
        match (objects.lookup root).bind Object.asDict with
        | none => []
        | some node => listPages objects (objects.keys.card + 1) (kidsOf objects node)

def linked (objects : Objects) (id : ObjectId) : Finset ObjectId :=
  match objects.lookup id with
  | none => ∅
  | some object => object.links.toFinset ∩ objects.keys

def reached (d : LopdfDocument) : Finset ObjectId :=
  FiniteClosure.closure (linked d.objects) d.objects.keys.card
    ((Object.entryLinks d.trailer).toFinset ∩ d.objects.keys)

def restrict (objects : Objects) (keep : Finset ObjectId) : Objects :=
  Finmap.keysLookupEquiv.symm
    ⟨(objects.keys ∩ keep, fun id => if id ∈ keep then objects.lookup id else none), fun id => by
      by_cases h : id ∈ keep <;> simp [h, Finmap.lookup_isSome, Finmap.mem_keys]⟩

def pruneObjects (d : LopdfDocument) : LopdfDocument :=
  { d with objects := restrict d.objects (reached d) }

theorem lookup_restrict (objects : Objects) (keep : Finset ObjectId) (id : ObjectId) :
    (restrict objects keep).lookup id = if id ∈ keep then objects.lookup id else none :=
  Finmap.keysLookupEquiv_symm_apply_lookup _ _

theorem mem_linked {objects : Objects} {source target : ObjectId} :
    target ∈ linked objects source ↔ Links objects source target ∧ target ∈ objects := by
  unfold linked Links
  cases objects.lookup source with
  | none => simp
  | some object => simp [Finmap.mem_keys]

/-- What is reached and exists is reached along objects that exist. -/
theorem mem_reached {d : LopdfDocument} {id : ObjectId} :
    id ∈ reached d ↔ d.Reaches id ∧ id ∈ d.objects := by
  unfold reached
  rw [FiniteClosure.mem_closure_iff (fun a _ target htarget =>
      Finmap.mem_keys.2 (mem_linked.1 htarget).2) Finset.inter_subset_right]
  constructor
  · rintro ⟨start, hstart, hreach⟩
    obtain ⟨hlink, hpresent⟩ := Finset.mem_inter.1 hstart
    refine ⟨⟨start, List.mem_toFinset.1 hlink, ?_⟩, ?_⟩
    · exact Relation.ReflTransGen.mono (fun _ _ h => (mem_linked.1 h).1) _ _ hreach
    · cases hreach with
      | refl => exact Finmap.mem_keys.1 hpresent
      | tail _ hstep => exact (mem_linked.1 hstep).2
  · rintro ⟨⟨start, hstart, hreach⟩, hid⟩
    -- an identifier something is reached through is one an object stands under
    have hthrough : start ∈ d.objects ∧
        Relation.ReflTransGen (fun x y => y ∈ linked d.objects x) start id := by
      clear hstart
      induction hreach using Relation.ReflTransGen.head_induction_on with
      | refl => exact ⟨hid, .refl⟩
      | head hstep _ ih =>
        have ⟨_, hobject, _⟩ := hstep
        exact ⟨Finmap.mem_of_lookup_eq_some hobject, .head (mem_linked.2 ⟨hstep, ih.1⟩) ih.2⟩
    exact ⟨start, Finset.mem_inter.2 ⟨List.mem_toFinset.2 hstart, Finmap.mem_keys.2 hthrough.1⟩,
      hthrough.2⟩

/-- Every node entered takes one step of the depth the walk is given. -/
theorem listPages_of_walks {objects : Objects} {path : Finset ObjectId} {kids : List Object}
    {pages : List ObjectId} (h : Walks objects path kids pages) {depth : Nat}
    (hdepth : (objects.keys \ path).card < depth) : listPages objects depth kids = pages := by
  induction h generalizing depth with
  | nil => cases depth <;> rfl
  | @skip path kid kids pages hskip _ ih =>
    cases depth with
    | zero => omega
    | succ depth =>
      have hrest := ih hdepth
      unfold listPages at hrest ⊢
      rw [List.flatMap_cons, hrest]
      cases hkid : kid.asReference with
      | none => rfl
      | some id =>
        obtain ⟨halias, hpage, hpages⟩ := hskip id (Object.asReference_eq_some.1 hkid)
        cases hlookup : objects.lookup id with
        | none => simp [referenceLimit, dereference, hlookup]
        | some object =>
          have hobject : object.isReference = false := by simpa [isAlias, hlookup] using halias
          simp [referenceLimit, dereference_self hlookup hobject, hpage, hpages]
  | page htype _ ih =>
    cases depth with
    | zero => omega
    | succ depth =>
      have hrest := ih hdepth
      unfold listPages at hrest ⊢
      rw [List.flatMap_cons, hrest]
      obtain ⟨object, hlookup, hobject⟩ := lookup_of_statedType htype
      simp [Object.asReference, referenceLimit, dereference_self hlookup hobject, htype]
  | @node path id d kids below pages hlookup htype hnew _ _ ihBelow ih =>
    cases depth with
    | zero => omega
    | succ depth =>
      have hrest := ih hdepth
      have hsub := card_left_lt (Finmap.mem_of_lookup_eq_some hlookup) hnew
      have hbelow : listPages objects depth (kidsOf objects d) = below := ihBelow (by omega)
      unfold listPages at hrest ⊢
      rw [List.flatMap_cons, hrest]
      have hstated : statedType objects id = some "Pages" := by
        simp [statedType, hlookup, Object.asDict, htype, Object.asName]
      simp [Object.asReference, referenceLimit, dereference_self hlookup rfl, hstated, hlookup,
        Object.asDict, hbelow]

scoped instance : Lopdf where
  dereference objects := dereference objects referenceLimit
  failure _ _ := "object not found"
  pageIter := pageIter
  pruneObjects := pruneObjects
  renumberObjects := id

scoped instance : LawfulDereference where
  dereference_self h hobject := dereference_self h hobject
  dereference_lands {objects id target} h := by
    have hlands : ∀ limit id, dereference objects limit id = some target →
        ∃ object, objects.lookup target = some object ∧ object.isReference = false := by
      intro limit
      induction limit with
      | zero => intro id h; cases h
      | succ limit ih =>
        intro id h
        unfold dereference at h
        split at h
        · cases h
        · exact ih _ h
        · rename_i object hnot hobject
          cases h
          refine ⟨object, hobject, ?_⟩
          cases object <;> simp_all [Object.isReference]
    exact hlands referenceLimit id h

theorem mem_of_dereference {objects : Objects} {limit : Nat} {id target : ObjectId}
    (h : dereference objects limit id = some target) : id ∈ objects := by
  cases limit with
  | zero => cases h
  | succ limit =>
    unfold dereference at h
    split at h
    · cases h
    · rename_i hlookup
      exact Finmap.mem_of_lookup_eq_some hlookup
    · rename_i hlookup
      exact Finmap.mem_of_lookup_eq_some hlookup

/-- Pages that are listed are there. -/
theorem mem_of_listPages {objects : Objects} {depth : Nat} {kids : List Object} {id : ObjectId}
    (h : id ∈ listPages objects depth kids) : id ∈ objects := by
  induction depth generalizing kids with
  | zero => cases h
  | succ depth ih =>
    obtain ⟨kid, -, hkid⟩ := List.mem_flatMap.1 h
    split at hkid
    · cases hkid
    split at hkid
    · cases hkid
    rename_i target htarget
    split at hkid
    · rw [List.mem_singleton.1 hkid]
      exact mem_of_dereference htarget
    split at hkid
    · split at hkid
      · exact ih hkid
      · cases hkid
    · cases hkid

/-- A listed page was come to from a root that exists. -/
theorem root_of_pageIter {file : LopdfDocument} {id : ObjectId} (h : id ∈ pageIter file) :
    id ∈ file.objects ∧ ∃ catalog root, file.catalog = .ok catalog ∧
      Dictionary.get catalog "Pages" = some (.reference root) ∧ root ∈ file.objects := by
  unfold pageIter at h
  dsimp only at h
  split at h
  · cases h
  rename_i catalogId hcatalogId
  split at h
  · cases h
  rename_i catalog hcatalog
  split at h
  · cases h
  rename_i root hroot
  split at h
  · cases h
  rename_i node hnode
  obtain ⟨catalogObject, hlookup, hdict⟩ := Option.bind_eq_some_iff.1 hcatalog
  obtain ⟨value, hvalue, href⟩ := Option.bind_eq_some_iff.1 hroot
  obtain ⟨nodeObject, hnodeLookup, -⟩ := Option.bind_eq_some_iff.1 hnode
  refine ⟨mem_of_listPages h, catalog, root, ?_, ?_, Finmap.mem_of_lookup_eq_some hnodeLookup⟩
  · unfold LopdfDocument.catalog
    rw [hcatalogId]
    exact Objects.getDictionary_of_lookup (Object.asDict_eq_some.1 hdict ▸ hlookup)
  · rw [hvalue, Object.asReference_eq_some.1 href]

/-- What the trailer reaches is kept. -/
theorem prune_keeps {d : LopdfDocument} {id : ObjectId} (h : d.Reaches id) :
    (pruneObjects d).objects.lookup id = d.objects.lookup id := by
  simp only [pruneObjects, lookup_restrict]
  split
  · rfl
  · rename_i hnot
    rw [mem_reached, not_and] at hnot
    exact (Finmap.lookup_eq_none.2 (hnot h)).symm

/-- What it does not reach is dropped. -/
theorem prune_drops {d : LopdfDocument} {id : ObjectId} (h : ¬ d.Reaches id) :
    (pruneObjects d).objects.lookup id = none := by
  simp only [pruneObjects, lookup_restrict]
  rw [if_neg fun hmem => h (mem_reached.1 hmem).1]

scoped instance : LawfulLopdf where
  pageIter_eq {file root pages} h := by
    obtain ⟨catalogId, catalog, node, hroot, hcatalog, hpages, hnode, hwalk⟩ := h.walks
    simp only [Lopdf.pageIter, pageIter, hroot, Option.bind_some, Object.asReference, hcatalog,
      Object.asDict, hpages, hnode]
    refine listPages_of_walks hwalk (Nat.lt_succ_of_le (Finset.card_le_card Finset.sdiff_subset))
  pageIter_mem h := (root_of_pageIter h).1
  pageIter_root h := (root_of_pageIter h).2
  prune_trailer _ := rfl
  prune_keeps := prune_keeps
  prune_drops := prune_drops
  renumber d := ⟨id, .refl d⟩

end ReferenceLopdf
end OpdfEditor
