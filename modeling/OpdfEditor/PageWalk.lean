import OpdfEditor.PdfRelocation

/-!
Pages are listed depth first over `/Kids`, whatever the page tree looks like: a tree
that is none is walked until the library gives up. The walk of a file is the walk of
every file it is renamed to, and that of any update that keeps types and children.
-/
namespace OpdfEditor

/-! ### References -/

/-- Following references from one identifier leads to another, which holds none itself. -/
inductive Leads (objects : Objects) : ObjectId → ObjectId → Prop
  | here {id : ObjectId} {object : Object} (hobject : objects.lookup id = some object)
      (hplain : object.isReference = false) : Leads objects id id
  | next {id next target : ObjectId} (hnext : objects.lookup id = some (.reference next))
      (hrest : Leads objects next target) : Leads objects id target

theorem Leads.lookup {objects : Objects} {id target : ObjectId} (h : Leads objects id target) :
    ∃ object, objects.lookup target = some object ∧ object.isReference = false := by
  induction h with
  | here hobject hplain => exact ⟨_, hobject, hplain⟩
  | next _ _ ih => exact ih

section

variable [Lopdf]

/-! ### The walk -/

/-- The type of the dictionary an identifier leads to. -/
def typeAt (objects : Objects) (id : ObjectId) : Option String :=
  (Objects.getDictionary objects id).toOption.bind fun d => (Dictionary.get d "Type").bind Object.asName

def kidsAt (objects : Objects) (id : ObjectId) : List Object :=
  match (Objects.getDictionary objects id).toOption with
  | some node => kidsOf objects node
  | none => []

/-- The pages come to by looking at so many children, depth first. -/
def walk (objects : Objects) : Nat → List Object → List ObjectId
  | 0, _ => []
  | _ + 1, [] => []
  | budget + 1, kid :: rest =>
    match kid.asReference with
    | none => walk objects budget rest
    | some id =>
      if typeAt objects id = some "Page" then id :: walk objects budget rest
      else if typeAt objects id = some "Pages" then walk objects budget (kidsAt objects id ++ rest)
      else walk objects budget rest

def treeKids (file : LopdfDocument) : List Object :=
  match readRootPagesId file with
  | .ok root => kidsAt file.objects root
  | .error _ => []

end

/-- References are followed to where they lead, and pages are listed by a walk that may stop early. -/
class LawfulWalk [Lopdf] : Prop extends LawfulLopdf where
  dereference_iff : ∀ {objects : Objects} {id target : ObjectId},
    Lopdf.dereference objects id = some target ↔ Leads objects id target
  pageIter_walk : ∀ file : LopdfDocument, ∃ budget,
    Lopdf.pageIter file = walk file.objects budget (treeKids file)

section

variable [Lopdf]

/-- A walk that stops early has come to the first pages of one that does not. -/
theorem walk_grows (objects : Objects) {budget budget' : Nat} (h : budget ≤ budget')
    (kids : List Object) : walk objects budget kids <+: walk objects budget' kids := by
  induction budget generalizing budget' kids with
  | zero => exact List.nil_prefix
  | succ budget ih =>
    obtain ⟨budget', rfl⟩ := Nat.exists_eq_add_one_of_ne_zero (Nat.ne_of_gt (Nat.lt_of_lt_of_le
      (Nat.succ_pos _) h))
    have hrest := fun kids => ih (Nat.le_of_succ_le_succ h) kids
    cases kids with
    | nil => exact List.prefix_rfl
    | cons kid rest =>
      unfold walk
      cases kid.asReference with
      | none => exact hrest rest
      | some id =>
        dsimp only
        split_ifs
        · exact (List.prefix_cons_inj id).2 (hrest rest)
        · exact hrest _
        · exact hrest rest

/-- Walks over the same children that come to as many pages come to the same. -/
theorem walk_eq_of_length (objects : Objects) {budget budget' : Nat} {kids : List Object}
    (h : (walk objects budget kids).length = (walk objects budget' kids).length) :
    walk objects budget kids = walk objects budget' kids := by
  rcases Nat.le_total budget budget' with hle | hle
  · exact (walk_grows objects hle kids).eq_of_length h
  · exact ((walk_grows objects hle kids).eq_of_length h.symm).symm

/-- Everything a walk comes to is a page. -/
theorem typeAt_of_walk {objects : Objects} {budget : Nat} {kids : List Object} {id : ObjectId}
    (h : id ∈ walk objects budget kids) : typeAt objects id = some "Page" := by
  induction budget generalizing kids with
  | zero => cases h
  | succ budget ih =>
    cases kids with
    | nil => cases h
    | cons kid rest =>
      unfold walk at h
      cases hkid : kid.asReference with
      | none =>
        rw [hkid] at h
        exact ih h
      | some first =>
        rw [hkid] at h
        dsimp only at h
        split_ifs at h with hpage hnode
        · rcases List.mem_cons.1 h with rfl | h
          · exact hpage
          · exact ih h
        · exact ih h
        · exact ih h

/-- Children that are all pages are come to one after another. -/
theorem walk_of_pages {objects : Objects} {ids : List ObjectId}
    (h : ∀ id ∈ ids, typeAt objects id = some "Page") (budget : Nat) :
    walk objects budget (ids.map .reference) = ids.take budget := by
  induction ids generalizing budget with
  | nil => cases budget <;> rfl
  | cons id ids ih =>
    cases budget with
    | zero => rfl
    | succ budget =>
      rw [List.map_cons, walk]
      simp only [Object.asReference, h id List.mem_cons_self, if_pos, List.take_succ_cons]
      rw [ih (fun id hid => h id (List.mem_cons_of_mem _ hid))]

/-- A walk is told by the types and children of what it comes to. -/
theorem walk_congr {objects objects' : Objects}
    (htype : ∀ id, typeAt objects' id = typeAt objects id)
    (hkids : ∀ id, typeAt objects id = some "Pages" → kidsAt objects' id = kidsAt objects id)
    (budget : Nat) (kids : List Object) : walk objects' budget kids = walk objects budget kids := by
  induction budget generalizing kids with
  | zero => rfl
  | succ budget ih =>
    cases kids with
    | nil => rfl
    | cons kid rest =>
      unfold walk
      cases kid.asReference with
      | none => exact ih rest
      | some id =>
        simp only [htype id, ih]
        split_ifs with hpage hnode
        · rfl
        · rw [hkids id hnode]
        · rfl

/-! ### What identifiers lead to -/

variable [LawfulWalk]

theorem getObject_eq_ok {objects : Objects} {id : ObjectId} {object : Object} :
    Objects.getObject objects id = .ok object ↔
      ∃ target, Leads objects id target ∧ objects.lookup target = some object := by
  unfold Objects.getObject
  constructor
  · intro h
    cases hdereference : Lopdf.dereference objects id with
    | none => simp [hdereference] at h
    | some target =>
      have hleads := LawfulWalk.dereference_iff.1 hdereference
      obtain ⟨landed, hlanded, -⟩ := hleads.lookup
      simp only [hdereference, Option.bind_some, hlanded, Except.ok.injEq] at h
      exact ⟨target, hleads, h ▸ hlanded⟩
  · rintro ⟨target, hleads, hobject⟩
    simp [LawfulWalk.dereference_iff.2 hleads, hobject]

omit [LawfulWalk] in
theorem getDictionary_eq_ok {objects : Objects} {id : ObjectId} {dict : Dictionary} :
    Objects.getDictionary objects id = .ok dict ↔
      Objects.getObject objects id = .ok (.dictionary dict) := by
  unfold Objects.getDictionary
  constructor
  · intro h
    split at h
    · cases h
    · rename_i object hobject
      split at h
      · rename_i d hd
        cases h
        rw [hobject, Object.asDict_eq_some.1 hd]
      · cases h
  · intro h
    rw [h]
    rfl

theorem getDictionary_leads {objects : Objects} {id : ObjectId} {dict : Dictionary} :
    Objects.getDictionary objects id = .ok dict ↔
      ∃ target, Leads objects id target ∧ objects.lookup target = some (.dictionary dict) :=
  getDictionary_eq_ok.trans getObject_eq_ok

omit [Lopdf] [LawfulWalk] in
theorem toOption_eq_some {ε α : Type} {result : Except ε α} {a : α} :
    result.toOption = some a ↔ result = .ok a := by
  cases result <;> simp [Except.toOption]

/-! ### Files that are renamed -/

section Relocates

variable {f : ObjectId → ObjectId} {at_ : ObjectId → Prop} {objects objects' : Objects}

omit [Lopdf] [LawfulWalk] in
theorem Relocates.at_leads (h : Relocates f at_ objects objects') {id target : ObjectId}
    (hleads : Leads objects id target) (hid : at_ id) : at_ target := by
  induction hleads with
  | here _ _ => exact hid
  | next hnext _ ih => exact ih (h.closed _ _ hid ⟨_, hnext, List.mem_singleton_self _⟩)

omit [Lopdf] [LawfulWalk] in
theorem Relocates.leads (h : Relocates f at_ objects objects') {id target : ObjectId}
    (hleads : Leads objects id target) (hid : at_ id) : Leads objects' (f id) (f target) := by
  induction hleads with
  | @here id object hobject hplain =>
    have hmoved : objects'.lookup (f id) = some (object.rename f) := by
      rw [h.lookup id hid, hobject]
      rfl
    refine .here hmoved ?_
    cases object with
    | reference _ => cases hplain
    | _ => rfl
  | @next id next target hnext _ ih =>
    have hmoved : objects'.lookup (f id) = some (.reference (f next)) := by
      rw [h.lookup id hid, hnext]
      rfl
    exact .next hmoved (ih (h.closed _ _ hid ⟨_, hnext, List.mem_singleton_self _⟩))

omit [Lopdf] [LawfulWalk] in
/-- Nothing is led to but what was moved. -/
theorem Relocates.leads_back (h : Relocates f at_ objects objects') {id' target' : ObjectId}
    (hleads : Leads objects' id' target') {id : ObjectId} (hid : at_ id) (hf : f id = id') :
    ∃ target, f target = target' ∧ Leads objects id target := by
  induction hleads generalizing id with
  | @here id' object' hobject hplain =>
    subst hf
    rw [h.lookup id hid] at hobject
    obtain ⟨object, hsource, rfl⟩ := Option.map_eq_some_iff.1 hobject
    refine ⟨id, rfl, .here hsource ?_⟩
    cases object with
    | reference _ => cases hplain
    | _ => rfl
  | @next id' next' target' hnext _ ih =>
    subst hf
    rw [h.lookup id hid] at hnext
    obtain ⟨object, hobject, hrename⟩ := Option.map_eq_some_iff.1 hnext
    cases object with
    | reference next =>
      cases hrename
      obtain ⟨target, htarget, hrest⟩ :=
        ih (h.closed _ _ hid ⟨_, hobject, List.mem_singleton_self _⟩) rfl
      exact ⟨target, htarget, .next hobject hrest⟩
    | _ => cases hrename

theorem Relocates.getDictionary (h : Relocates f at_ objects objects') {id : ObjectId} (hid : at_ id) :
    (Objects.getDictionary objects' (f id)).toOption =
      (Objects.getDictionary objects id).toOption.map (Object.renameEntries f) := by
  refine Option.ext fun dict' => ?_
  rw [toOption_eq_some, getDictionary_leads, Option.map_eq_some_iff]
  simp only [toOption_eq_some, getDictionary_leads]
  constructor
  · rintro ⟨target', hmoved, hdict⟩
    obtain ⟨target, rfl, hleads⟩ := h.leads_back hmoved hid rfl
    rw [h.lookup target (h.at_leads hleads hid)] at hdict
    obtain ⟨object, hobject, hrename⟩ := Option.map_eq_some_iff.1 hdict
    cases object with
    | dictionary dict =>
      cases hrename
      exact ⟨dict, ⟨target, hleads, hobject⟩, rfl⟩
    | _ => cases hrename
  · rintro ⟨dict, ⟨target, hleads, hdict⟩, rfl⟩
    refine ⟨f target, h.leads hleads hid, ?_⟩
    rw [h.lookup target (h.at_leads hleads hid), hdict]
    rfl

theorem Relocates.typeAt (h : Relocates f at_ objects objects') {id : ObjectId} (hid : at_ id) :
    typeAt objects' (f id) = OpdfEditor.typeAt objects id := by
  unfold OpdfEditor.typeAt
  rw [h.getDictionary hid]
  cases (Objects.getDictionary objects id).toOption with
  | none => rfl
  | some dict =>
    simp only [Option.map_some, Option.bind_some, Dictionary.get_renameEntries]
    cases Dictionary.get dict "Type" with
    | none => rfl
    | some value => cases value <;> rfl

theorem Relocates.kidsAt (h : Relocates f at_ objects objects') {id : ObjectId} (hid : at_ id) :
    kidsAt objects' (f id) = Object.renameItems f (OpdfEditor.kidsAt objects id) ∧
      ∀ target ∈ Object.itemLinks (OpdfEditor.kidsAt objects id), at_ target := by
  unfold OpdfEditor.kidsAt
  rw [h.getDictionary hid]
  cases hdict : (Objects.getDictionary objects id).toOption with
  | none => exact ⟨rfl, fun _ htarget => absurd htarget List.not_mem_nil⟩
  | some dict =>
    obtain ⟨target, hleads, hnode⟩ := getDictionary_leads.1 (toOption_eq_some.1 hdict)
    have htarget := h.at_leads hleads hid
    exact ⟨h.carries.kidsOf hnode htarget, kidsOf_links h.closed hnode htarget⟩

omit [Lopdf] [LawfulWalk] in
theorem renameItems_append (f : ObjectId → ObjectId) (items items' : List Object) :
    Object.renameItems f (items ++ items') = Object.renameItems f items ++ Object.renameItems f items' := by
  simp only [renameItems_eq_map, List.map_append]

omit [Lopdf] [LawfulWalk] in
theorem forall_itemLinks_append {items items' : List Object}
    (h : ∀ id ∈ Object.itemLinks items, at_ id) (h' : ∀ id ∈ Object.itemLinks items', at_ id) :
    ∀ id ∈ Object.itemLinks (items ++ items'), at_ id := by
  intro id hid
  obtain ⟨item, hitem, hlink⟩ := Object.mem_itemLinks.1 hid
  rcases List.mem_append.1 hitem with hitem | hitem
  · exact h id (Object.mem_itemLinks.2 ⟨item, hitem, hlink⟩)
  · exact h' id (Object.mem_itemLinks.2 ⟨item, hitem, hlink⟩)

/-- The walk of moved children comes to the pages moved. -/
theorem Relocates.walk (h : Relocates f at_ objects objects') (budget : Nat) {kids : List Object}
    (hkids : ∀ id ∈ Object.itemLinks kids, at_ id) :
    walk objects' budget (Object.renameItems f kids) = (OpdfEditor.walk objects budget kids).map f := by
  induction budget generalizing kids with
  | zero => rfl
  | succ budget ih =>
    cases kids with
    | nil => rfl
    | cons kid rest =>
      have hrest : ∀ id ∈ Object.itemLinks rest, at_ id := fun id hid =>
        hkids id (List.mem_append_right _ hid)
      rw [Object.renameItems, OpdfEditor.walk, OpdfEditor.walk]
      cases kid with
      | reference id =>
        have hid : at_ id := hkids id (List.mem_append_left _ (List.mem_singleton_self _))
        obtain ⟨hmoved, hbelow⟩ := h.kidsAt hid
        simp only [Object.rename, Object.asReference, h.typeAt hid, hmoved, ← renameItems_append]
        split_ifs
        · rw [ih hrest, List.map_cons]
        · exact ih (forall_itemLinks_append hbelow hrest)
        · exact ih hrest
      | _ => exact ih hrest

/-- A walk comes to nothing but what was moved. -/
theorem Relocates.at_walk (h : Relocates f at_ objects objects') {budget : Nat} {kids : List Object}
    (hkids : ∀ id ∈ Object.itemLinks kids, at_ id) :
    ∀ id ∈ OpdfEditor.walk objects budget kids, at_ id := by
  induction budget generalizing kids with
  | zero => exact fun _ hid => absurd hid List.not_mem_nil
  | succ budget ih =>
    cases kids with
    | nil => exact fun _ hid => absurd hid List.not_mem_nil
    | cons kid rest =>
      have hrest : ∀ id ∈ Object.itemLinks rest, at_ id := fun id hid =>
        hkids id (List.mem_append_right _ hid)
      rw [OpdfEditor.walk]
      cases kid with
      | reference id =>
        have hid : at_ id := hkids id (List.mem_append_left _ (List.mem_singleton_self _))
        simp only [Object.asReference]
        split_ifs
        · exact List.forall_mem_cons.2 ⟨hid, ih hrest⟩
        · exact ih (forall_itemLinks_append (h.kidsAt hid).2 hrest)
        · exact ih hrest
      | _ => exact ih hrest

end Relocates

omit [LawfulWalk] in
/-- The root of a page tree is named by the catalog, and that by the trailer. -/
theorem readRootPagesId_eq_ok {file : LopdfDocument} {root : ObjectId} :
    readRootPagesId file = .ok root ↔ ∃ catalogId catalog,
      Dictionary.get file.trailer "Root" = some (.reference catalogId) ∧
        Objects.getDictionary file.objects catalogId = .ok catalog ∧
          Dictionary.get catalog "Pages" = some (.reference root) := by
  unfold readRootPagesId LopdfDocument.catalog
  constructor
  · intro h
    split at h
    · cases h
    rename_i catalog hcatalog
    split at hcatalog
    swap
    · cases hcatalog
    rename_i catalogId hcatalogId
    split at h
    swap
    · cases h
    rename_i root' hpages
    cases h
    obtain ⟨value, hvalue, href⟩ := Option.bind_eq_some_iff.1 hcatalogId
    obtain ⟨node, hnode, hreference⟩ := Option.bind_eq_some_iff.1 hpages
    obtain rfl := Object.asReference_eq_some.1 href
    obtain rfl := Object.asReference_eq_some.1 hreference
    exact ⟨catalogId, catalog, hvalue, hcatalog, hnode⟩
  · rintro ⟨catalogId, catalog, hcatalogId, hcatalog, hpages⟩
    simp only [hcatalogId, Option.bind_some, Object.asReference, hcatalog, hpages]

/-- The pages of a file that another was moved to are what some walk of that one comes to. -/
theorem pageIter_relocated {f : ObjectId → ObjectId} {at_ : ObjectId → Prop}
    {file file' : LopdfDocument} (h : Relocates f at_ file.objects file'.objects)
    (hstart : ∀ id, Dictionary.get file.trailer "Root" = some (.reference id) → at_ id)
    (htrailer : Dictionary.get file'.trailer "Root" =
      (Dictionary.get file.trailer "Root").map (Object.rename f))
    {root : ObjectId} (hroot : readRootPagesId file = .ok root) :
    readRootPagesId file' = .ok (f root) ∧ at_ root ∧
      ∃ budget, Lopdf.pageIter file' = (walk file.objects budget (treeKids file)).map f := by
  obtain ⟨catalogId, catalog, hcatalogId, hcatalog, hpages⟩ := readRootPagesId_eq_ok.1 hroot
  have hatCatalog := hstart catalogId hcatalogId
  have hroot' : readRootPagesId file' = .ok (f root) := by
    refine readRootPagesId_eq_ok.2 ⟨f catalogId, Object.renameEntries f catalog, ?_, ?_, ?_⟩
    · rw [htrailer, hcatalogId]
      rfl
    · have hdict := h.getDictionary hatCatalog
      rw [hcatalog] at hdict
      exact toOption_eq_some.1 hdict
    · rw [Dictionary.get_renameEntries, hpages]
      rfl
  have hatRoot : at_ root := by
    obtain ⟨target, hleads, hdict⟩ := getDictionary_leads.1 hcatalog
    refine h.closed target root (h.at_leads hleads hatCatalog) ⟨_, hdict, ?_⟩
    exact Object.links_subset_entryLinks hpages (List.mem_singleton_self _)
  refine ⟨hroot', hatRoot, ?_⟩
  obtain ⟨budget, hwalk⟩ := LawfulWalk.pageIter_walk file'
  obtain ⟨hkids, hlinks⟩ := h.kidsAt hatRoot
  refine ⟨budget, ?_⟩
  rw [hwalk, treeKids, hroot', treeKids, hroot]
  dsimp only
  rw [hkids]
  exact h.walk budget hlinks

/-! ### Updates -/

omit [Lopdf] [LawfulWalk] in
/-- The same object, or the same dictionary but for the entries under some keys. -/
def SameBut (keys : List String) (object object' : Object) : Prop :=
  object' = object ∨ ∃ dict dict' : Dictionary, object = .dictionary dict ∧ object' = .dictionary dict' ∧
    ∀ key ∉ keys, Dictionary.get dict' key = Dictionary.get dict key

omit [Lopdf] [LawfulWalk] in
theorem SameBut.refl (keys : List String) (object : Object) : SameBut keys object object := .inl rfl

omit [Lopdf] [LawfulWalk] in
theorem SameBut.dictionary {keys : List String} {dict : Dictionary} {object : Object}
    (h : SameBut keys (.dictionary dict) object) : ∃ dict' : Dictionary, object = .dictionary dict' ∧
      ∀ key ∉ keys, Dictionary.get dict' key = Dictionary.get dict key := by
  rcases h with rfl | ⟨_, dict', ⟨⟩, rfl, hkeys⟩
  · exact ⟨dict, rfl, fun _ _ => rfl⟩
  · exact ⟨dict', rfl, hkeys⟩

omit [Lopdf] [LawfulWalk] in
theorem SameBut.isReference {keys : List String} {object object' : Object}
    (h : SameBut keys object object') (hplain : object.isReference = false) :
    object'.isReference = false := by
  rcases h with rfl | ⟨_, _, -, rfl, -⟩
  · exact hplain
  · rfl

omit [Lopdf] [LawfulWalk] in
theorem SameBut.set {keys : List String} {object : Object} {dict : Dictionary} {key : String}
    (h : SameBut keys object (.dictionary dict)) (hkey : key ∈ keys) (value : Object) :
    SameBut keys object (.dictionary (Dictionary.set key value dict)) := by
  have hset : ∀ key' ∉ keys,
      Dictionary.get (Dictionary.set key value dict) key' = Dictionary.get dict key' := by
    intro key' hkey'
    refine Dictionary.get_set_of_ne ?_ value dict
    rintro rfl
    exact hkey' hkey
  rcases h with rfl | ⟨original, _, rfl, ⟨⟩, hkeys⟩
  · exact .inr ⟨dict, _, rfl, rfl, hset⟩
  · exact .inr ⟨original, _, rfl, rfl, fun key' hkey' => (hset key' hkey').trans (hkeys key' hkey')⟩

/-- What is appended in place of an object of the file is that object but for some entries. -/
def Amends (keys : List String) (d : IncrementalDocument) : Prop :=
  ∀ id object, d.newDocument.objects.lookup id = some object → id ∈ d.previous.objects →
    ∃ original, Objects.getObject d.previous.objects id = .ok original ∧ SameBut keys original object

theorem getObject_self {objects : Objects} {id : ObjectId} {object : Object}
    (hobject : objects.lookup id = some object) (hplain : object.isReference = false) :
    Objects.getObject objects id = .ok object :=
  getObject_eq_ok.2 ⟨id, .here hobject hplain, hobject⟩

theorem isReference_of_getObject {objects : Objects} {id : ObjectId} {object : Object}
    (h : Objects.getObject objects id = .ok object) : object.isReference = false := by
  obtain ⟨target, hleads, hobject⟩ := getObject_eq_ok.1 h
  obtain ⟨landed, hlanded, hplain⟩ := hleads.lookup
  rw [hobject] at hlanded
  exact Option.some.inj hlanded ▸ hplain

theorem getObject_next {objects : Objects} {id next : ObjectId}
    (h : objects.lookup id = some (.reference next)) :
    (Objects.getObject objects id).toOption = (Objects.getObject objects next).toOption := by
  refine Option.ext fun object => ?_
  simp only [toOption_eq_some, getObject_eq_ok]
  constructor
  · rintro ⟨target, hleads, hobject⟩
    cases hleads with
    | here hself hplain =>
      rw [h] at hself
      cases hself
      cases hplain
    | next hnext hrest =>
      rw [h] at hnext
      cases hnext
      exact ⟨target, hrest, hobject⟩
  · rintro ⟨target, hleads, hobject⟩
    exact ⟨target, .next h hleads, hobject⟩

theorem mem_of_getObject {objects : Objects} {id : ObjectId} {object : Object}
    (h : Objects.getObject objects id = .ok object) : id ∈ objects := by
  obtain ⟨target, hleads, -⟩ := getObject_eq_ok.1 h
  cases hleads with
  | here hobject _ => exact Finmap.mem_of_lookup_eq_some hobject
  | next hnext _ => exact Finmap.mem_of_lookup_eq_some hnext

section Amends

variable {keys : List String} {d : IncrementalDocument}

/-- What is appended in place of what an identifier led to is that, but for some entries. -/
theorem Amends.getObject_appended (h : Amends keys d) {id : ObjectId} {original appended : Object}
    (horiginal : Objects.getObject d.previous.objects id = .ok original)
    (hnew : d.newDocument.objects.lookup id = some appended) :
    Objects.getObject d.view id = .ok appended ∧ SameBut keys original appended := by
  obtain ⟨original', horiginal', hsame⟩ := h id appended hnew (mem_of_getObject horiginal)
  rw [horiginal] at horiginal'
  cases horiginal'
  refine ⟨getObject_self (IncrementalDocument.lookup_view_of_new hnew) ?_, hsame⟩
  exact hsame.isReference (isReference_of_getObject horiginal)

/-- What an identifier led to in the file it leads to in the update, but for some entries. -/
theorem Amends.getObject (h : Amends keys d) {id : ObjectId} {original : Object}
    (horiginal : Objects.getObject d.previous.objects id = .ok original) :
    ∃ object, Objects.getObject d.view id = .ok object ∧ SameBut keys original object := by
  obtain ⟨target, hleads, -⟩ := getObject_eq_ok.1 horiginal
  induction hleads with
  | @here id object hobject hplain =>
    cases hnew : d.newDocument.objects.lookup id with
    | none =>
      rw [getObject_self hobject hplain] at horiginal
      cases horiginal
      refine ⟨original, getObject_self ?_ hplain, .refl keys original⟩
      rw [IncrementalDocument.lookup_view, hnew, Option.none_or, hobject]
    | some appended => exact ⟨appended, h.getObject_appended horiginal hnew⟩
  | @next id next target hnext _ ih =>
    cases hnew : d.newDocument.objects.lookup id with
    | none =>
      have hview : d.view.lookup id = some (.reference next) := by
        rw [IncrementalDocument.lookup_view, hnew, Option.none_or, hnext]
      have hrest := getObject_next hnext
      rw [horiginal] at hrest
      obtain ⟨object, hobject, halike⟩ := ih (toOption_eq_some.1 hrest.symm)
      refine ⟨object, toOption_eq_some.1 ?_, halike⟩
      rw [getObject_next hview, hobject]
      rfl
    | some appended => exact ⟨appended, h.getObject_appended horiginal hnew⟩

/-- Where nothing new is appended, an identifier leads to nothing it did not lead to in the file. -/
theorem Amends.getObject_back (h : Amends keys d)
    (hold : ∀ id ∈ d.newDocument.objects, id ∈ d.previous.objects) {id : ObjectId} {object : Object}
    (hobject : Objects.getObject d.view id = .ok object) :
    ∃ original, Objects.getObject d.previous.objects id = .ok original ∧ SameBut keys original object := by
  have hamended : ∀ {id appended}, d.newDocument.objects.lookup id = some appended →
      ∃ original, Objects.getObject d.previous.objects id = .ok original ∧
        SameBut keys original appended := fun hnew =>
    h _ _ hnew (hold _ (Finmap.mem_of_lookup_eq_some hnew))
  obtain ⟨target, hleads, -⟩ := getObject_eq_ok.1 hobject
  induction hleads with
  | @here id landed hlanded hplain =>
    rw [getObject_self hlanded hplain] at hobject
    cases hobject
    rw [IncrementalDocument.lookup_view] at hlanded
    cases hnew : d.newDocument.objects.lookup id with
    | none =>
      rw [hnew, Option.none_or] at hlanded
      exact ⟨_, getObject_self hlanded hplain, .refl keys _⟩
    | some appended =>
      rw [hnew, Option.some_or] at hlanded
      cases hlanded
      exact hamended hnew
  | @next id next target hnext _ ih =>
    have hrest := getObject_next hnext
    rw [hobject] at hrest
    rw [IncrementalDocument.lookup_view] at hnext
    cases hnew : d.newDocument.objects.lookup id with
    | none =>
      rw [hnew, Option.none_or] at hnext
      obtain ⟨original, horiginal, halike⟩ := ih (toOption_eq_some.1 hrest.symm)
      refine ⟨original, toOption_eq_some.1 ?_, halike⟩
      rw [getObject_next hnext, horiginal]
      rfl
    | some appended =>
      rw [hnew, Option.some_or] at hnext
      cases hnext
      obtain ⟨original, horiginal, halike⟩ := hamended hnew
      cases halike.isReference (isReference_of_getObject horiginal)

/-- A dictionary of the file is one of the update, with the entries it had under other keys. -/
theorem Amends.getDictionary (h : Amends keys d) {id : ObjectId} {dict : Dictionary}
    (hdict : Objects.getDictionary d.previous.objects id = .ok dict) :
    ∃ dict', Objects.getDictionary d.view id = .ok dict' ∧
      ∀ key ∉ keys, Dictionary.get dict' key = Dictionary.get dict key := by
  obtain ⟨object, hobject, halike⟩ := h.getObject (getDictionary_eq_ok.1 hdict)
  obtain ⟨dict', rfl, hkeys⟩ := halike.dictionary
  exact ⟨dict', getDictionary_eq_ok.2 hobject, hkeys⟩

theorem Amends.getDictionary_back (h : Amends keys d)
    (hold : ∀ id ∈ d.newDocument.objects, id ∈ d.previous.objects) {id : ObjectId} {dict' : Dictionary}
    (hdict : Objects.getDictionary d.view id = .ok dict') :
    ∃ dict, Objects.getDictionary d.previous.objects id = .ok dict ∧
      ∀ key ∉ keys, Dictionary.get dict' key = Dictionary.get dict key := by
  obtain ⟨original, horiginal, halike⟩ := h.getObject_back hold (getDictionary_eq_ok.1 hdict)
  rcases halike with rfl | ⟨dict, _, rfl, ⟨⟩, hkeys⟩
  · exact ⟨dict', getDictionary_eq_ok.2 horiginal, fun _ _ => rfl⟩
  · exact ⟨dict, getDictionary_eq_ok.2 horiginal, hkeys⟩

/-- The dictionary behind an identifier differs nowhere that matters. -/
theorem Amends.getDictionary_same (h : Amends keys d)
    (hold : ∀ id ∈ d.newDocument.objects, id ∈ d.previous.objects) (id : ObjectId) :
    (Objects.getDictionary d.view id).toOption = none ∧
        (Objects.getDictionary d.previous.objects id).toOption = none ∨
      ∃ dict dict' : Dictionary, (Objects.getDictionary d.view id).toOption = some dict' ∧
        (Objects.getDictionary d.previous.objects id).toOption = some dict ∧
        ∀ key ∉ keys, Dictionary.get dict' key = Dictionary.get dict key := by
  cases hdict : Objects.getDictionary d.previous.objects id with
  | ok dict =>
    obtain ⟨dict', hdict', hkeys⟩ := h.getDictionary hdict
    exact .inr ⟨dict, dict', by rw [hdict']; rfl, rfl, hkeys⟩
  | error e =>
    cases hdict' : Objects.getDictionary d.view id with
    | error e' => exact .inl ⟨rfl, rfl⟩
    | ok dict' =>
      obtain ⟨dict, hwrong, -⟩ := h.getDictionary_back hold hdict'
      rw [hdict] at hwrong
      cases hwrong

theorem Amends.typeAt (h : Amends keys d)
    (hold : ∀ id ∈ d.newDocument.objects, id ∈ d.previous.objects) (htype : "Type" ∉ keys)
    (id : ObjectId) : typeAt d.view id = OpdfEditor.typeAt d.previous.objects id := by
  unfold OpdfEditor.typeAt
  rcases h.getDictionary_same hold id with ⟨hnone, hnone'⟩ | ⟨dict, dict', hdict', hdict, hkeys⟩
  · rw [hnone, hnone']
  · rw [hdict', hdict, Option.bind_some, Option.bind_some, hkeys "Type" htype]

omit [Lopdf] [LawfulWalk] in
theorem previous_of_appended (hold : ∀ id object, d.newDocument.objects.lookup id = some object →
      id ∈ d.previous.objects ∧ ∃ dict, object = .dictionary dict) (id : ObjectId)
    (hid : id ∈ d.newDocument.objects) : id ∈ d.previous.objects := by
  obtain ⟨object, hobject⟩ := Finmap.mem_iff.1 hid
  exact (hold id object hobject).1

/-- Where only dictionaries of the file are appended, a list of children stays what it is. -/
theorem Amends.kidsAt (h : Amends keys d)
    (hold : ∀ id object, d.newDocument.objects.lookup id = some object →
      id ∈ d.previous.objects ∧ ∃ dict, object = .dictionary dict)
    (hkids : "Kids" ∉ keys) (id : ObjectId) :
    kidsAt d.view id = OpdfEditor.kidsAt d.previous.objects id := by
  unfold OpdfEditor.kidsAt
  rcases h.getDictionary_same (previous_of_appended hold) id with
    ⟨hnone, hnone'⟩ | ⟨dict, dict', hdict', hdict, hkeys⟩
  · rw [hnone, hnone']
  rw [hdict', hdict]
  simp only [kidsOf, hkeys "Kids" hkids]
  cases Dictionary.get dict "Kids" with
  | none => rfl
  | some value =>
    cases value with
    | reference node =>
      dsimp only
      rw [IncrementalDocument.lookup_view]
      cases hnew : d.newDocument.objects.lookup node with
      | none => rw [Option.none_or]
      | some object =>
        obtain ⟨hmem, entries, rfl⟩ := hold node object hnew
        obtain ⟨original, horiginal, halike⟩ := h node _ hnew hmem
        rw [Option.some_or]
        cases hprevious : d.previous.objects.lookup node with
        | none => rfl
        | some object =>
          cases object with
          | array items =>
            rw [getObject_self hprevious rfl] at horiginal
            cases horiginal
            rcases halike with hwrong | ⟨_, _, hwrong, -, -⟩ <;> cases hwrong
          | _ => rfl
    | _ => rfl

/-- An update of dictionaries of the file that keeps types and children keeps the walk. -/
theorem Amends.walk (h : Amends keys d)
    (hold : ∀ id object, d.newDocument.objects.lookup id = some object →
      id ∈ d.previous.objects ∧ ∃ dict, object = .dictionary dict)
    (htype : "Type" ∉ keys) (hkids : "Kids" ∉ keys) (budget : Nat) (kids : List Object) :
    walk d.view budget kids = OpdfEditor.walk d.previous.objects budget kids := by
  exact walk_congr (h.typeAt (previous_of_appended hold) htype) (fun id _ => h.kidsAt hold hkids id) budget kids

end Amends

end

end OpdfEditor
