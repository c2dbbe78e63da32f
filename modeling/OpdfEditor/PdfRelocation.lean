import OpdfEditor.PdfReading
import OpdfEditor.PdfSession

/-!
A file whose objects are moved to other identifiers, with what nothing leads to
left out, has the same pages in the same order, and they read the same.
-/
namespace OpdfEditor

/-! ### The walk of the page tree -/

theorem links_of_entryOf {objects : Objects} {id : ObjectId} {key : String} {value : Object}
    (h : entryOf objects id key = some value) {target : ObjectId} (htarget : target ∈ value.links) :
    Links objects id target := by
  obtain ⟨d, hd, hvalue⟩ := lookup_of_entryOf h
  exact ⟨_, hd, Object.links_subset_entryLinks hvalue htarget⟩

section Walk

variable {f : ObjectId → ObjectId} {at_ : ObjectId → Prop} {objects objects' : Objects}

theorem kidsOf_links (hclosed : ∀ a b, at_ a → Links objects a b → at_ b) {id : ObjectId}
    {d : Dictionary} (hd : objects.lookup id = some (.dictionary d)) (hid : at_ id) :
    ∀ target ∈ Object.itemLinks (kidsOf objects d), at_ target := by
  intro target htarget
  unfold kidsOf at htarget
  have hentry := entryOf_of_lookup hd "Kids"
  split at htarget
  · rename_i items hkids
    rw [hkids] at hentry
    exact hclosed id target hid (links_of_entryOf hentry htarget)
  · rename_i node hkids
    rw [hkids] at hentry
    have hnode : at_ node := hclosed id node hid (links_of_entryOf hentry (List.mem_singleton_self _))
    split at htarget
    · rename_i items hitems
      exact hclosed node target hnode ⟨_, hitems, htarget⟩
    · cases htarget
  · cases htarget

/-- Some objects are carried over to other identifiers: each states the type it did, and those
that are no pages are as they were. -/
structure Carries (f : ObjectId → ObjectId) (at_ : ObjectId → Prop) (objects objects' : Objects) :
    Prop where
  injective : Function.Injective f
  closed : ∀ a b, at_ a → Links objects a b → at_ b
  stated : ∀ id, at_ id → statedType objects' (f id) = statedType objects id
  node : ∀ id, at_ id → statedType objects id ≠ some "Page" →
    objects'.lookup (f id) = (objects.lookup id).map (Object.rename f)

theorem Carries.isAlias (h : Carries f at_ objects objects') {id : ObjectId} (hid : at_ id) :
    isAlias objects' (f id) = isAlias objects id := by
  by_cases hpage : statedType objects id = some "Page"
  · have hpage' := (h.stated id hid).trans hpage
    obtain ⟨object, hobject, hplain⟩ := lookup_of_statedType hpage
    obtain ⟨object', hobject', hplain'⟩ := lookup_of_statedType hpage'
    simp [OpdfEditor.isAlias, hobject, hobject', hplain, hplain']
  · unfold OpdfEditor.isAlias
    rw [h.node id hid hpage]
    cases objects.lookup id with
    | none => rfl
    | some object => cases object <;> rfl

/-- The children of a node that is carried over. -/
theorem Carries.kidsOf (h : Carries f at_ objects objects') {id : ObjectId} {d : Dictionary}
    (hd : objects.lookup id = some (.dictionary d)) (hid : at_ id) :
    kidsOf objects' (Object.renameEntries f d) = Object.renameItems f (kidsOf objects d) := by
  unfold OpdfEditor.kidsOf
  rw [Dictionary.get_renameEntries]
  cases hkids : Dictionary.get d "Kids" with
  | none => rfl
  | some value =>
    cases value with
    | reference node =>
      have hnode : at_ node := h.closed id node hid
        (links_of_entryOf ((entryOf_of_lookup hd "Kids").trans hkids) (List.mem_singleton_self _))
      simp only [Option.map_some, Object.rename]
      by_cases hpage : statedType objects node = some "Page"
      · obtain ⟨_, hlookup, -⟩ := lookup_of_entryOf (statedType_page.1 hpage)
        obtain ⟨_, hlookup', -⟩ :=
          lookup_of_entryOf (statedType_page.1 ((h.stated node hnode).trans hpage))
        rw [hlookup, hlookup']
        rfl
      · rw [h.node node hnode hpage]
        cases objects.lookup node with
        | none => rfl
        | some object => cases object <;> rfl
    | _ => rfl

/-- The walk comes to the same pages where page tree nodes are carried over. -/
theorem Carries.walks (h : Carries f at_ objects objects') {path : Finset ObjectId}
    {kids : List Object} {pages : List ObjectId} (hwalk : Walks objects path kids pages)
    (hkids : ∀ id ∈ Object.itemLinks kids, at_ id) :
    Walks objects' (path.image f) (Object.renameItems f kids) (pages.map f) := by
  induction hwalk with
  | nil => exact .nil
  | @skip path kid kids pages hskip _ ih =>
    have hkid : ∀ id ∈ kid.links, at_ id := fun id hid => hkids id (List.mem_append_left _ hid)
    refine .skip ?_ (ih fun id hid => hkids id (List.mem_append_right _ hid))
    intro target htarget
    cases kid with
    | reference id =>
      simp only [Object.rename, Object.reference.injEq] at htarget
      subst htarget
      obtain ⟨hplain, hpage, hpages⟩ := hskip id rfl
      have hid : at_ id := hkid id (List.mem_singleton_self _)
      exact ⟨(h.isAlias hid).trans hplain, by rwa [h.stated id hid], by rwa [h.stated id hid]⟩
    | _ => simp [Object.rename] at htarget
  | @page path id kids pages htype _ ih =>
    have hid : at_ id := hkids id (List.mem_append_left _ (List.mem_singleton_self _))
    exact .page ((h.stated id hid).trans htype)
      (ih fun id hid => hkids id (List.mem_append_right _ hid))
  | @node path id d kids below pages hlookup htype hnew _ _ ihBelow ih =>
    have hid : at_ id := hkids id (List.mem_append_left _ (List.mem_singleton_self _))
    have hpage : statedType objects id ≠ some "Page" := by
      rw [ne_eq, statedType_page, entryOf_of_lookup hlookup, htype]
      simp
    have hlookup' : objects'.lookup (f id) = some (.dictionary (Object.renameEntries f d)) := by
      rw [h.node id hid hpage, hlookup]
      rfl
    have hbelow := ihBelow (kidsOf_links h.closed hlookup hid)
    rw [Finset.image_insert, ← h.kidsOf hlookup hid] at hbelow
    rw [List.map_append]
    refine .node hlookup' (by rw [Dictionary.get_renameEntries, htype]; rfl) ?_ hbelow
      (ih fun id hid => hkids id (List.mem_append_right _ hid))
    rwa [h.injective.mem_finset_image]

/-- Everything a walk comes to states that it is a page and was led to. -/
theorem Walks.mem (hclosed : ∀ a b, at_ a → Links objects a b → at_ b) {path : Finset ObjectId}
    {kids : List Object} {pages : List ObjectId} (h : Walks objects path kids pages)
    (hkids : ∀ id ∈ Object.itemLinks kids, at_ id) :
    ∀ page ∈ pages, at_ page ∧ statedType objects page = some "Page" := by
  induction h with
  | nil => exact fun _ hpage => absurd hpage List.not_mem_nil
  | skip _ _ ih => exact ih fun id hid => hkids id (List.mem_append_right _ hid)
  | page htype _ ih =>
    intro page hpage
    rcases List.mem_cons.1 hpage with rfl | hpage
    · exact ⟨hkids page (List.mem_append_left _ (List.mem_singleton_self _)), htype⟩
    · exact ih (fun id hid => hkids id (List.mem_append_right _ hid)) page hpage
  | @node path id d kids below pages hlookup _ _ _ _ ihBelow ih =>
    have hid : at_ id := hkids id (List.mem_append_left _ (List.mem_singleton_self _))
    intro page hpage
    rcases List.mem_append.1 hpage with hpage | hpage
    · exact ihBelow (kidsOf_links hclosed hlookup hid) page hpage
    · exact ih (fun id hid => hkids id (List.mem_append_right _ hid)) page hpage

end Walk

theorem PageTree.stated {file : LopdfDocument} {root : ObjectId} {pages : List ObjectId}
    (h : PageTree file root pages) : ∀ page ∈ pages, statedType file.objects page = some "Page" := by
  obtain ⟨_, _, _, _, _, _, _, hwalk⟩ := h.walks
  have hclosed : ∀ a b, True → Links file.objects a b → True := fun _ _ _ _ => trivial
  exact fun page hpage => (Walks.mem hclosed hwalk (fun _ _ => trivial) page hpage).2

theorem PageTree.root_mem {file : LopdfDocument} {root : ObjectId} {pages : List ObjectId}
    (h : PageTree file root pages) : root ∈ file.objects := by
  obtain ⟨_, _, _, _, _, _, hroot, _⟩ := h.walks
  exact Finmap.mem_of_lookup_eq_some hroot

/-! ### Files that show some slots -/

/-- A page tree whose root is no page itself and hangs under nothing. -/
structure ProperTree (file : LopdfDocument) (root : ObjectId) (pages : List ObjectId) : Prop
    extends PageTree file root pages where
  root_page : statedType file.objects root ≠ some "Page"
  root_top : parentOf file.objects root = none

/-- A file shows some slots: its pages are theirs, in order, and read as they say. -/
structure Depicts (file : LopdfDocument) (root : ObjectId) (slots : List PageSlot) : Prop where
  tree : ProperTree file root (slots.map PageSlot.objectId)
  size : ∀ slot ∈ slots, readPageSize file.objects slot.objectId = slot.size
  rotation : ∀ slot ∈ slots, readPageRotation file.objects slot.objectId = slot.rotation

theorem ProperTree.readRootPagesId [Lopdf] [LawfulDereference] {file : LopdfDocument}
    {root : ObjectId} {pages : List ObjectId} (h : ProperTree file root pages) :
    readRootPagesId file = .ok root := by
  obtain ⟨catalogId, catalog, _, hcatalogId, hcatalog, hpages, -, -⟩ := h.walks
  have hread : file.catalog = .ok catalog := by
    unfold LopdfDocument.catalog
    rw [hcatalogId]
    exact Objects.getDictionary_of_lookup hcatalog
  unfold OpdfEditor.readRootPagesId
  rw [hread]
  dsimp only
  rw [hpages]
  rfl

/-- A file without pages, as a reader finds one: a page tree root with nothing below it and nothing
to hand down, and besides it nothing but dictionaries and streams. Writing the minimal file out adds
such objects to it, the cross-reference stream for one. -/
structure Pageless (file : LopdfDocument) (root : ObjectId) : Prop
    extends ProperTree file root [] where
  counted : file.Counted
  unstated : ∀ key ∈ ["MediaBox", "Rotate"], entryOf file.objects root key = none
  barren : ∀ id, Barren (file.objects.lookup id)

def PageSlot.shown (slot : PageSlot) : PageSize × Rotation := (slot.size, slot.rotation)

/-- A file that shows some slots opens as a document that shows the same. -/
theorem Depicts.load [Lopdf] [LawfulLopdf] {file : LopdfDocument} {root : ObjectId}
    {slots : List PageSlot} (h : Depicts file root slots) (hslots : slots ≠ []) (id : DocumentId) :
    ∃ reopened, PdfDocument.load id file = .ok reopened ∧
      reopened.pages.live.map PageSlot.shown = slots.map PageSlot.shown := by
  obtain ⟨-, hlive⟩ := PdfDocument.readPages_live file
  have hshown : (readPages file).live.map PageSlot.shown = slots.map PageSlot.shown := by
    have hread : ((readPages file).live.map fun slot => { slot with id := 0 }).map PageSlot.shown =
        slots.map PageSlot.shown := by
      rw [hlive, LawfulLopdf.pageIter_eq h.tree.toPageTree, List.map_map, List.map_map]
      refine List.map_congr_left fun slot hslot => ?_
      exact Prod.ext (h.size slot hslot) (h.rotation slot hslot)
    rwa [List.map_map] at hread
  have hpages : (readPages file).live.length ≠ 0 := by
    rw [← List.length_map (f := PageSlot.shown), hshown, List.length_map]
    exact fun hlength => hslots (List.length_eq_zero_iff.1 hlength)
  have hroot := h.tree.readRootPagesId
  unfold PdfDocument.load PdfDocument.buildFromIncremental
  rw [show (IncrementalDocument.load file).previous = file from rfl, hroot]
  dsimp only
  rw [if_neg hpages]
  exact ⟨_, rfl, hshown⟩

/-! ### Moving objects -/

/-- Objects at some identifiers, which lead to no others, are moved to new ones. -/
structure Relocates (f : ObjectId → ObjectId) (at_ : ObjectId → Prop) (objects objects' : Objects) :
    Prop where
  injective : Function.Injective f
  closed : ∀ a b, at_ a → Links objects a b → at_ b
  lookup : ∀ id, at_ id → objects'.lookup (f id) = (objects.lookup id).map (Object.rename f)

namespace Relocates

variable {f : ObjectId → ObjectId} {at_ : ObjectId → Prop} {objects objects' : Objects}

theorem mirrors (h : Relocates f at_ objects objects') : Mirrors f at_ objects objects' :=
  fun id hid => .inl (h.lookup id hid).symm

theorem entryOf (h : Relocates f at_ objects objects') {id : ObjectId} (hid : at_ id) (key : String) :
    entryOf objects' (f id) key = (OpdfEditor.entryOf objects id key).map (Object.rename f) := by
  unfold OpdfEditor.entryOf
  rw [h.lookup id hid]
  cases objects.lookup id with
  | none => rfl
  | some object =>
    cases object with
    | dictionary d => exact Dictionary.get_renameEntries f d key
    | _ => rfl

theorem parentOf (h : Relocates f at_ objects objects') {id : ObjectId} (hid : at_ id) :
    parentOf objects' (f id) = (OpdfEditor.parentOf objects id).map f := by
  unfold OpdfEditor.parentOf
  rw [h.entryOf hid]
  cases OpdfEditor.entryOf objects id "Parent" with
  | none => rfl
  | some value => cases value <;> rfl

theorem carries (h : Relocates f at_ objects objects') : Carries f at_ objects objects' := by
  refine ⟨h.injective, h.closed, fun id hid => ?_, fun id hid _ => h.lookup id hid⟩
  rw [statedType_eq, statedType_eq, h.entryOf hid]
  cases OpdfEditor.entryOf objects id "Type" with
  | none => rfl
  | some value => cases value <;> rfl

/-- From one copy of some objects that leaves them where they were to one that moves them. -/
theorem from_copy {copy : Objects} {copied : ObjectId → Prop}
    (hcopy : Relocates id copied objects copy) (h : Relocates f at_ objects objects') :
    Relocates f (fun id => copied id ∧ at_ id) copy objects' := by
  have hlookup {id' : ObjectId} (hid : copied id') : copy.lookup id' = objects.lookup id' :=
    (hcopy.lookup id' hid).trans (map_rename_id _)
  refine ⟨h.injective, fun source target hsource hlink => ?_, fun id hid => ?_⟩
  · have hlink' : Links objects source target := by
      obtain ⟨object, hobject, htarget⟩ := hlink
      exact ⟨object, (hlookup hsource.1).symm.trans hobject, htarget⟩
    exact ⟨hcopy.closed source target hsource.1 hlink', h.closed source target hsource.2 hlink'⟩
  · rw [hlookup hid.1, h.lookup id hid.2]

theorem at_parent (h : Relocates f at_ objects objects') {id parent : ObjectId} (hid : at_ id)
    (hparent : OpdfEditor.parentOf objects id = some parent) : at_ parent := by
  obtain ⟨value, hvalue, href⟩ := Option.bind_eq_some_iff.1 hparent
  obtain rfl := Object.asReference_eq_some.1 href
  exact h.closed id parent hid (links_of_entryOf hvalue (List.mem_singleton_self _))

theorem findInheritedIn (h : Relocates f at_ objects objects') (key : String) (limit : Nat)
    {id : ObjectId} (hid : at_ id) :
    findInheritedIn objects' key limit (f id) =
      (OpdfEditor.findInheritedIn objects key limit id).map (Object.rename f) := by
  induction limit generalizing id with
  | zero => rfl
  | succ limit ih =>
    rw [findInheritedIn_succ, findInheritedIn_succ, h.entryOf hid, h.parentOf hid]
    cases hparent : OpdfEditor.parentOf objects id with
    | none => simp
    | some parent =>
      have hrest := ih (h.at_parent hid hparent)
      cases OpdfEditor.entryOf objects id key <;> simp [hrest]

/-- What a page finds leads to nothing beyond what was moved. -/
theorem at_found (h : Relocates f at_ objects objects') {key : String} {limit : Nat} {id : ObjectId}
    (hid : at_ id) {value : Object}
    (hvalue : OpdfEditor.findInheritedIn objects key limit id = some value) :
    ∀ target ∈ value.links, at_ target := by
  induction limit generalizing id with
  | zero => cases hvalue
  | succ limit ih =>
    rw [findInheritedIn_succ] at hvalue
    cases hentry : OpdfEditor.entryOf objects id key with
    | some own =>
      rw [hentry] at hvalue
      cases hvalue
      exact fun target htarget => h.closed id target hid (links_of_entryOf hentry htarget)
    | none =>
      rw [hentry, Option.none_or] at hvalue
      obtain ⟨parent, hparent, hvalue⟩ := Option.bind_eq_some_iff.1 hvalue
      exact ih (h.at_parent hid hparent) hvalue

theorem sees (h : Relocates f at_ objects objects') {value : Object}
    (hvalue : ∀ target ∈ value.links, at_ target) : Sees at_ objects value := by
  refine sees_of_closed Object.links (fun id => List.mem_singleton_self id) ?_ ?_ hvalue
  · exact fun items item hmem target htarget => Object.mem_itemLinks.2 ⟨item, hmem, htarget⟩
  · exact fun id object hid hobject _ target htarget => h.closed id target hid ⟨object, hobject, htarget⟩

theorem sees_found (h : Relocates f at_ objects objects') {page : ObjectId} (hpage : at_ page)
    {key : String} (value : Object) (hvalue : findInheritedAttribute objects page key = some value) :
    Sees at_ objects value :=
  h.sees (h.at_found hpage hvalue)

theorem readPageSize (h : Relocates f at_ objects objects') {page : ObjectId} (hpage : at_ page) :
    readPageSize objects' (f page) = OpdfEditor.readPageSize objects page := by
  rw [readPageSize_eq, readPageSize_eq, findInheritedAttribute, h.findInheritedIn _ _ hpage]
  exact h.mirrors.measuredSize (h.sees_found hpage)

theorem readPageRotation (h : Relocates f at_ objects objects') {page : ObjectId} (hpage : at_ page) :
    readPageRotation objects' (f page) = OpdfEditor.readPageRotation objects page := by
  rw [readPageRotation_eq, readPageRotation_eq, findInheritedAttribute, h.findInheritedIn _ _ hpage]
  exact h.mirrors.measuredRotation (h.sees_found hpage)

end Relocates

/-- A file whose objects are moved has the same page tree, in the new place. -/
theorem PageTree.relocates {f : ObjectId → ObjectId} {at_ : ObjectId → Prop}
    {file file' : LopdfDocument} {root : ObjectId} {pages : List ObjectId}
    (h : PageTree file root pages) (hmoved : Relocates f at_ file.objects file'.objects)
    (hstart : ∀ id, Dictionary.get file.trailer "Root" = some (.reference id) → at_ id)
    (hroot : Dictionary.get file'.trailer "Root" =
      (Dictionary.get file.trailer "Root").map (Object.rename f)) :
    PageTree file' (f root) (pages.map f) ∧ at_ root ∧ ∀ page ∈ pages, at_ page := by
  obtain ⟨catalogId, catalog, node, hcatalogId, hcatalog, hpages, hnode, hwalk⟩ := h.walks
  have hatCatalog := hstart catalogId hcatalogId
  have hatRoot : at_ root := hmoved.closed catalogId root hatCatalog (links_of_entryOf
    ((entryOf_of_lookup hcatalog "Pages").trans hpages) (List.mem_singleton_self _))
  have hkids := kidsOf_links hmoved.closed hnode hatRoot
  refine ⟨⟨f catalogId, Object.renameEntries f catalog, Object.renameEntries f node, ?_, ?_, ?_, ?_,
    ?_⟩, hatRoot, fun page hpage => (hwalk.mem hmoved.closed hkids page hpage).1⟩
  · rw [hroot, hcatalogId]
    rfl
  · rw [hmoved.lookup catalogId hatCatalog, hcatalog]
    rfl
  · rw [Dictionary.get_renameEntries, hpages]
    rfl
  · rw [hmoved.lookup root hatRoot, hnode]
    rfl
  · have hwalk' := hmoved.carries.walks hwalk hkids
    rwa [Finset.image_singleton, ← hmoved.carries.kidsOf hnode hatRoot] at hwalk'

def PageSlot.moved (f : ObjectId → ObjectId) (slot : PageSlot) : PageSlot :=
  PdfDocument.rebindSlot slot (f slot.objectId)

/-- A file whose objects are moved shows the same slots. -/
theorem Depicts.relocates {f : ObjectId → ObjectId} {at_ : ObjectId → Prop}
    {file file' : LopdfDocument} {root : ObjectId} {slots : List PageSlot}
    (h : Depicts file root slots) (hmoved : Relocates f at_ file.objects file'.objects)
    (hstart : ∀ id, Dictionary.get file.trailer "Root" = some (.reference id) → at_ id)
    (hroot : Dictionary.get file'.trailer "Root" =
      (Dictionary.get file.trailer "Root").map (Object.rename f)) :
    Depicts file' (f root) (slots.map (PageSlot.moved f)) := by
  obtain ⟨htree, hatRoot, hat⟩ := h.tree.toPageTree.relocates hmoved hstart hroot
  have hids : (slots.map (PageSlot.moved f)).map PageSlot.objectId =
      (slots.map PageSlot.objectId).map f := by
    rw [List.map_map, List.map_map]
    rfl
  refine ⟨⟨hids ▸ htree, ?_, ?_⟩, ?_, ?_⟩
  · rw [hmoved.carries.stated root hatRoot]
    exact h.tree.root_page
  · rw [hmoved.parentOf hatRoot, h.tree.root_top]
    rfl
  · intro slot' hslot'
    obtain ⟨slot, hslot, rfl⟩ := List.mem_map.1 hslot'
    exact (hmoved.readPageSize (hat _ (List.mem_map_of_mem hslot))).trans (h.size slot hslot)
  · intro slot' hslot'
    obtain ⟨slot, hslot, rfl⟩ := List.mem_map.1 hslot'
    exact (hmoved.readPageRotation (hat _ (List.mem_map_of_mem hslot))).trans (h.rotation slot hslot)

/-! ### Compacted files -/

/-- Writing and parsing again gives the same catalog and, wherever the trailer leads, the same
objects. What the library writes next to them for its own use may come back as objects, too. -/
structure LopdfDocument.ReadsBackAs (written file : LopdfDocument) : Prop where
  lookup : ∀ id, written.Reaches id → file.objects.lookup id = written.objects.lookup id
  root : Dictionary.get file.trailer "Root" = Dictionary.get written.trailer "Root"

theorem LopdfDocument.ReadsBackAs.refl (file : LopdfDocument) : file.ReadsBackAs file :=
  ⟨fun _ _ => rfl, rfl⟩

/-- What is read back is what was written, with its objects where they were. -/
theorem LopdfDocument.ReadsBackAs.relocates {source written file : LopdfDocument}
    (h : written.ReadsBackAs file) (hobjects : written.objects = source.objects)
    (hroot : Dictionary.get written.trailer "Root" = Dictionary.get source.trailer "Root") :
    Relocates id written.Reaches source.objects file.objects ∧
      (∀ id, Dictionary.get source.trailer "Root" = some (.reference id) → written.Reaches id) ∧
      Dictionary.get file.trailer "Root" =
        (Dictionary.get source.trailer "Root").map (Object.rename id) := by
  rw [← hobjects, ← hroot]
  refine ⟨⟨Function.injective_id, fun _ _ hid hlink => hid.tail hlink, fun id' hid => ?_⟩,
    fun _ hid => LopdfDocument.reaches_of_trailer hid, ?_⟩
  · rw [map_rename_id]
    exact h.lookup id' hid
  · rw [map_rename_id, h.root]

/-- If this file is read back in once it is written, it is what was written, with its object numbers
counted. -/
def SaveEnv.FaithfulAt (env : SaveEnv) (written : LopdfDocument) : Prop :=
  ∀ file, env.parse written = .ok file → written.ReadsBackAs file ∧ file.Counted

def SaveEnv.Faithful (env : SaveEnv) : Prop := ∀ written, env.FaithfulAt written

/-- The file a compacting save of this document writes. -/
def PdfDocument.Compacts [Lopdf] (d : PdfDocument) (written : LopdfDocument) : Prop :=
  ∃ d₁, d.materializeChanges = (.ok (), d₁) ∧ written = d₁.buildCompactedDocument

/-- What a compacting save of this document reads back in is what it wrote. -/
def SaveEnv.FaithfulTo [Lopdf] (env : SaveEnv) (d : PdfDocument) : Prop :=
  ∀ written, d.Compacts written → env.FaithfulAt written

theorem SaveEnv.Faithful.to [Lopdf] {env : SaveEnv} (h : env.Faithful) (d : PdfDocument) :
    env.FaithfulTo d := fun written _ => h written

/-- Pruning breaks no path from the trailer. -/
theorem reaches_pruned [Lopdf] [LawfulLopdf] {d : LopdfDocument} {id : ObjectId} (h : d.Reaches id) :
    (Lopdf.pruneObjects d).Reaches id := by
  obtain ⟨start, hstart, hreach⟩ := h
  induction hreach with
  | refl => exact ⟨start, LawfulLopdf.prune_trailer d ▸ hstart, .refl⟩
  | tail hsource hlink ih =>
    obtain ⟨object, hobject, htarget⟩ := hlink
    exact ih.tail ⟨object, (LawfulLopdf.prune_keeps ⟨start, hstart, hsource⟩).trans hobject, htarget⟩

/-- A compacted file, read back in, holds what was reached, renamed. -/
theorem relocates_compacted [Lopdf] [LawfulLopdf] {merged compacted file : LopdfDocument}
    {f : ObjectId → ObjectId} (h : Renames f (Lopdf.pruneObjects merged) compacted)
    (hfile : compacted.ReadsBackAs file) :
    Relocates f merged.Reaches merged.objects file.objects ∧
      (∀ id, Dictionary.get merged.trailer "Root" = some (.reference id) → merged.Reaches id) ∧
      Dictionary.get file.trailer "Root" =
        (Dictionary.get merged.trailer "Root").map (Object.rename f) := by
  refine ⟨⟨h.injective, fun _ _ hid hlink => hid.tail hlink, fun id hid => ?_⟩,
    fun id hid => LopdfDocument.reaches_of_trailer hid, ?_⟩
  · rw [hfile.lookup _ (h.reaches (reaches_pruned hid)), h.lookup, LawfulLopdf.prune_keeps hid]
  · rw [hfile.root, h.trailer, LawfulLopdf.prune_trailer, Dictionary.get_renameEntries]

/-- A compacted file, read back in, shows the slots of the document it was made from. -/
theorem Depicts.compacted [Lopdf] [LawfulLopdf] {merged file : LopdfDocument} {root : ObjectId}
    {slots : List PageSlot} (h : Depicts merged root slots)
    (hfile : (Lopdf.renumberObjects (Lopdf.pruneObjects merged)).ReadsBackAs file) :
    ∃ f : ObjectId → ObjectId, Depicts file (f root) (slots.map (PageSlot.moved f)) := by
  obtain ⟨f, hrenames⟩ := LawfulLopdf.renumber (Lopdf.pruneObjects merged)
  obtain ⟨hmoved, hstart, htrailer⟩ := relocates_compacted hrenames hfile
  exact ⟨f, h.relocates hmoved hstart htrailer⟩

/-- A file shows the slots it shows when it is read back in. -/
theorem Depicts.reread {written file : LopdfDocument} {root : ObjectId} {slots : List PageSlot}
    (h : Depicts written root slots) (hfile : written.ReadsBackAs file) : Depicts file root slots := by
  obtain ⟨hmoved, hstart, hroot⟩ := hfile.relocates rfl rfl
  have hreread := h.relocates hmoved hstart hroot
  have htree := hreread.tree
  rw [List.map_map] at htree
  exact ⟨htree, fun slot hslot => hreread.size (slot.moved id) (List.mem_map_of_mem hslot),
    fun slot hslot => hreread.rotation (slot.moved id) (List.mem_map_of_mem hslot)⟩

end OpdfEditor
