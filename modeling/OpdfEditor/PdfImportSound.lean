import OpdfEditor.PdfSound
import OpdfEditor.CopyReach

/-!
What an import leaves behind the slots it adds: each copied page carries the box it
had or inherited, which measures in the target what it measured in the source,
unless something its box runs into was left behind and stands for another object
there.
-/
namespace OpdfEditor

/-! ### The entries of a copied page -/

namespace Dictionary

theorem get_setMissing (d : Dictionary) (entry : String × Object) (key : String) :
    get (setMissing d entry) key = (get d key).or (if key = entry.1 then some entry.2 else none) := by
  unfold setMissing
  split
  · rename_i hhas
    by_cases h : key = entry.1
    · obtain ⟨value, hvalue⟩ := Option.isSome_iff_exists.1 hhas
      rw [h, hvalue]
      rfl
    · rw [if_neg h, Option.or_none]
  · rename_i hhas
    by_cases h : key = entry.1
    · rw [h, get_set_self, has_eq_false.1 (Bool.eq_false_iff.2 hhas), if_pos rfl]
      rfl
    · rw [if_neg h, Option.or_none, get_set_of_ne h]

theorem get_foldl_setMissing (inherited : List (String × Object)) (d : Dictionary) (key : String) :
    get (inherited.foldl setMissing d) key = (get d key).or (get inherited key) := by
  induction inherited generalizing d with
  | nil => simp
  | cons entry inherited ih =>
    rw [List.foldl_cons, ih, get_setMissing, get_cons, Option.or_assoc]
    split <;> rfl

theorem get_detachPage (inherited : List (String × Object)) (d : Dictionary) {key : String}
    (hkey : key ≠ "Parent") :
    get (detachPage inherited d) key = (get d key).or (get inherited key) := by
  rw [detachPage, get_foldl_setMissing, get_remove_of_ne hkey]

end Dictionary

theorem get_collectInherited (source : Objects) (page : ObjectId) {key : String} :
    Dictionary.get (collectInherited source page) key =
      if key ∈ inheritableKeys then findInheritedAttribute source page key else none := by
  unfold collectInherited
  generalize inheritableKeys = keys
  induction keys with
  | nil => rfl
  | cons first keys ih =>
    cases hfirst : findInheritedAttribute source page first with
    | none =>
      rw [List.filterMap_cons_none (by rw [hfirst]; rfl), ih]
      by_cases h : key = first
      · subst h
        simp [hfirst]
      · simp [h]
    | some value =>
      rw [List.filterMap_cons_some (by rw [hfirst]; rfl), Dictionary.get_cons, ih]
      by_cases h : key = first
      · subst h
        simp [hfirst]
      · simp [h]

/-! ### Reading a copied page -/

/-- Every object of one graph is one of the other. -/
def Within (objects after : Objects) : Prop :=
  ∀ id object, objects.lookup id = some object → after.lookup id = some object

theorem Within.barren {objects after : Objects} (h : Within objects after) {id : ObjectId}
    (hbarren : Barren (after.lookup id)) : Barren (objects.lookup id) :=
  fun object hobject => hbarren object (h id object hobject)

section Copied

variable {source : Objects} {page : ObjectId} {dict : Dictionary} {target after : LopdfDocument}
  {mapping : IdMapping} {copied : ObjectId}

theorem Copied.entryOf (h : Copied source page dict target mapping copied after)
    (hpage : source.lookup page = some (.dictionary dict)) {key : String} (hkey : key ≠ "Parent") :
    entryOf after.objects copied key =
      ((Dictionary.get dict key).or (Dictionary.get (collectInherited source page) key)).map
        (Object.rename mapping.apply) := by
  have hcopy := h.copy hpage h.entry
  rw [copiedObject_page hpage] at hcopy
  rw [entryOf_of_lookup hcopy, Dictionary.get_renameEntries, Dictionary.get_detachPage _ _ hkey]

/-- A copied page carries what the page found. -/
theorem Copied.entryOf_inherited (h : Copied source page dict target mapping copied after)
    (hpage : source.lookup page = some (.dictionary dict)) {key : String}
    (hkey : key ∈ inheritableKeys) :
    OpdfEditor.entryOf after.objects copied key =
      (findInheritedAttribute source page key).map (Object.rename mapping.apply) := by
  have hparent : key ≠ "Parent" := by
    rintro rfl
    simp [inheritableKeys] at hkey
  rw [h.entryOf hpage hparent, get_collectInherited, if_pos hkey]
  cases hown : Dictionary.get dict key with
  | none => rfl
  | some value =>
    rw [findInheritedAttribute_of_entry ((entryOf_of_lookup hpage key).trans hown)]
    rfl

/-- What the copy of a page mirrors of its source: the objects copied, and those left behind that
stand for nothing. -/
def CarriesOver (source : Objects) (mapping : IdMapping) (after : Objects) (id : ObjectId) : Prop :=
  id ∈ mapping.map Prod.fst ∨ id ∉ mapping.map Prod.fst ∧ copies source id = false ∧
    Barren (after.lookup id)

/-- Only a page tree node is there and left behind. -/
theorem dictionary_of_not_copies {id : ObjectId} {object : Object} (h : copies source id = false)
    (hobject : source.lookup id = some object) : ∃ d, object = .dictionary d := by
  have hnode : isPageNode source id = true := by
    unfold copies at h
    simpa [hobject] using h
  unfold isPageNode at hnode
  rw [hobject] at hnode
  cases object with
  | dictionary d => exact ⟨d, rfl⟩
  | _ => cases hnode

theorem barren_of_not_copies {id : ObjectId} (h : copies source id = false) :
    Barren (source.lookup id) := by
  intro object hobject
  obtain ⟨d, rfl⟩ := dictionary_of_not_copies h hobject
  trivial

/-- Where an object was copied, its copy is there. -/
theorem Copied.moved (h : Copied source page dict target mapping copied after)
    (hpage : source.lookup page = some (.dictionary dict)) {objects : Objects}
    (hobjects : Within after.objects objects) {id : ObjectId} (hid : id ∈ mapping.map Prod.fst) :
    mapping.apply id ∈ objects ∧ Interchangeable
      ((source.lookup id).map (Object.rename mapping.apply)) (objects.lookup (mapping.apply id)) := by
  obtain ⟨numbered, hassigned, -⟩ := h.assigned
  obtain ⟨copy, hentry⟩ := IdMapping.exists_of_mem hid
  have hcopy := h.copy hpage hentry
  rw [IdMapping.apply_of_entry hassigned.nodup hentry]
  by_cases hsame : id = page
  · subst hsame
    rw [copiedObject_page hpage] at hcopy
    have hlookup := hobjects _ _ hcopy
    refine ⟨Finmap.mem_of_lookup_eq_some hlookup, ?_⟩
    rw [hpage, hlookup]
    exact .inr ⟨.dictionary _, .dictionary _⟩
  · obtain ⟨object, hobject⟩ := Finmap.mem_iff.1 (Finmap.mem_keys.1 (hassigned.present id hid))
    rw [copiedObject_of_ne hsame, hobject] at hcopy
    have hlookup := hobjects _ _ hcopy
    refine ⟨Finmap.mem_of_lookup_eq_some hlookup, ?_⟩
    rw [hobject, hlookup]
    exact .inl rfl

theorem Copied.mirrors (h : Copied source page dict target mapping copied after)
    (hpage : source.lookup page = some (.dictionary dict)) {objects final : Objects}
    (hobjects : Within after.objects objects) (hfinal : Within objects final) :
    Mirrors mapping.apply (CarriesOver source mapping final) source objects := by
  rintro id (hcopied | ⟨hleft, hnot, hbarren⟩)
  · exact (h.moved hpage hobjects hcopied).2
  · rw [IdMapping.apply_of_not_mem hleft]
    exact .inr ⟨Barren.rename.2 (barren_of_not_copies hnot), hfinal.barren hbarren⟩

/-- What is mirrored is there, or stands for nothing. -/
theorem Copied.stays (h : Copied source page dict target mapping copied after)
    (hpage : source.lookup page = some (.dictionary dict)) {objects final : Objects}
    (hobjects : Within after.objects objects) {id : ObjectId}
    (hid : CarriesOver source mapping final id) :
    mapping.apply id ∈ objects ∨ Barren (final.lookup (mapping.apply id)) := by
  rcases hid with hcopied | ⟨hleft, -, hbarren⟩
  · exact .inl (h.moved hpage hobjects hcopied).1
  · rw [IdMapping.apply_of_not_mem hleft]
    exact .inr hbarren

/-- What a page's attribute runs into is copied where the copy follows references at all. -/
theorem Assigned.sees {source : Objects} {page : ObjectId} {target numbered : LopdfDocument}
    {mapping : IdMapping} (h : Assigned source target (startFrontier source page) [] mapping numbered)
    {key : String} (hkey : key ∈ inheritableKeys) {value : Object}
    (hvalue : findInheritedAttribute source page key = some value) :
    Sees (fun id => copies source id = true → id ∈ mapping.map Prod.fst) source value := by
  refine sees_of_closed collectReferences (fun id => List.mem_singleton_self id) ?_ ?_ ?_
  · intro items item hitem referenced href
    change referenced ∈ collectItemReferences items
    induction items with
    | nil => cases hitem
    | cons first items ih =>
      rw [collectItemReferences, List.mem_append]
      rcases List.mem_cons.1 hitem with rfl | hitem
      · exact .inl href
      · exact .inr (ih hitem)
  · intro id object hid hobject hdict referenced href hcopies
    refine h.closed id (hid ?_) object hobject referenced href hcopies
    by_contra hnot
    obtain ⟨d, rfl⟩ := dictionary_of_not_copies (Bool.eq_false_iff.2 hnot) hobject
    cases hdict
  · intro referenced href hcopies
    refine h.reached referenced ((seen_enqueue _ _ _ _).2 (.inl ?_)) hcopies
    refine List.mem_flatMap.2 ⟨(key, value), Dictionary.mem_of_get ?_, href⟩
    rw [get_collectInherited, if_pos hkey, hvalue]

/-- What a page's attribute runs into is carried over where what is left behind stands for nothing. -/
theorem Copied.sees (h : Copied source page dict target mapping copied after) {key : String}
    (hkey : key ∈ inheritableKeys) {value : Object}
    (hvalue : findInheritedAttribute source page key = some value) {objects : Objects}
    (hsees : Sees (fun id => copies source id = true ∨ Barren (objects.lookup id)) source value) :
    Sees (CarriesOver source mapping objects) source value := by
  obtain ⟨numbered, hassigned, -⟩ := h.assigned
  refine (hsees.and (hassigned.sees hkey hvalue)).mono fun id hid => ?_
  by_cases hmem : id ∈ mapping.map Prod.fst
  · exact .inl hmem
  · have hnot : copies source id = false := Bool.eq_false_iff.2 fun hcopies => hmem (hid.2 hcopies)
    exact .inr ⟨hmem, hnot, hid.1.resolve_left (by simp [hnot])⟩

end Copied

/-! ### Rounds of an import -/

namespace PdfDocument

/-- The box and the rotation a page brings to the next save run into what is there, or into what is
free. -/
def Uncaptured (d : PdfDocument) (free : ObjectId → Prop) : Prop :=
  ∀ slot ∈ d.pages.known, ∀ key value,
    key = "MediaBox" ∨ key = "Rotate" ∧ slot.rotationChanged = false →
    d.attributeOf slot.objectId key = some value → Sees (fun id => id ∈ d.view ∨ free id) d.view value

/-- What an import relies on of a page it brings in: it is a page that measures in the objects it
comes from what is shown of it, and what its box leads to without being copied is free. -/
structure Importable (source : Objects) (free : ObjectId → Prop) (slot : PageSlot) : Prop where
  page : statedType source slot.objectId = some "Page"
  size : readPageSize source slot.objectId = slot.size
  box : ∀ value, findInheritedAttribute source slot.objectId "MediaBox" = some value →
    Sees (fun id => copies source id = true ∨ free id) source value

theorem Uncaptured.mono {d : PdfDocument} {free free' : ObjectId → Prop} (h : d.Uncaptured free)
    (hfree : ∀ id, id ∉ d.view → free id → free' id) : d.Uncaptured free' := by
  intro slot hslot key value hkey hvalue
  refine (h slot hslot key value hkey hvalue).mono fun id hid => ?_
  by_cases hmem : id ∈ d.view
  · exact .inl hmem
  · exact .inr (hfree id hmem (hid.resolve_left hmem))

theorem Importable.mono {source : Objects} {free free' : ObjectId → Prop} {slot : PageSlot}
    (h : Importable source free slot) (hfree : ∀ id, free id → free' id) :
    Importable source free' slot :=
  ⟨h.page, h.size, fun value hvalue => (h.box value hvalue).mono fun id => Or.imp_right (hfree id)⟩

variable {d d₁ : PdfDocument} {pages : List ObjectId}

/-- Objects added are added to what was there. -/
theorem Grown.within (h : Grown d d₁)
    (hbounded : ∀ id ∈ d.view, id.1 ≤ d.incremental.newDocument.maxId) : Within d.view d₁.view := by
  intro id object hobject
  rw [h.lookup_view (hbounded id (Finmap.mem_of_lookup_eq_some hobject)), hobject]

theorem Grown.bounded (h : Grown d d₁)
    (hbounded : ∀ id ∈ d.view, id.1 ≤ d.incremental.newDocument.maxId) : ∀ id ∈ d₁.view, id.1 ≤ d₁.incremental.newDocument.maxId := by
  intro id hid
  rcases h.lookup id with hsame | hfresh
  · refine (hbounded id ?_).trans h.maxId
    unfold view at hid ⊢
    rwa [← Finmap.lookup_isSome, IncrementalDocument.lookup_view, hsame, h.previous,
      ← IncrementalDocument.lookup_view, Finmap.lookup_isSome] at hid
  · exact hfresh.2

section Rounds

variable [Lopdf] [LawfulDereference] {source after : Objects} {slot : PageSlot} {atIndex : Nat}
  {id : PageId}

/-- One round of an import keeps every slot backed, and adds one that is. -/
theorem ImportStep.grounded (hstep : ImportStep source slot atIndex d id d₁) (h : Grounded d pages)
    (hkept : d.Uncaptured fun id => Barren (after.lookup id))
    (hslot : Importable source (fun id => Barren (after.lookup id)) slot)
    (hwithin : Within d₁.view after) :
    Grounded d₁ pages ∧ d₁.Uncaptured fun id => Barren (after.lookup id) := by
  have hgrown := hstep.grown
  obtain ⟨dict, mapping, copied, before, rest, hdict, hcopied, hlive, hlive'⟩ := hstep.copies
  obtain ⟨numbered, hassigned, -⟩ := hcopied.assigned
  have hfresh := (hassigned.numbered.fresh copied (List.mem_map.2 ⟨_, hcopied.entry, rfl⟩)).2.1
  have hcreated : d₁.incremental.previous.maxId < copied.1 := by
    rw [hgrown.previous]
    exact h.grows.trans_lt hfresh
  have hprevious : copied ∉ d₁.incremental.previous.objects := by
    rw [hgrown.previous] at hcreated ⊢
    exact h.not_mem_previous hcreated
  have hview : Within d₁.incremental.newDocument.objects d₁.view :=
    fun id object => IncrementalDocument.lookup_view_of_new
  have hentry : ∀ {key : String} {entry : Option Object},
      entryOf d₁.incremental.newDocument.objects copied key = entry →
        entryOf d₁.view copied key = entry := by
    intro key entry hentry
    rw [← hentry]
    exact entryOf_congr ((hview _ _ hcopied.detached).trans hcopied.detached.symm) key
  have hundisturbed :
      Undisturbed (fun id => id ∈ d.view ∨ Barren (after.lookup id)) d.view d₁.view :=
    h.undisturbed hgrown fun id hid hnot => hwithin.barren (hid.resolve_left hnot)
  have hstays : ∀ id, id ∈ d.view ∨ Barren (after.lookup id) →
      id ∈ d₁.view ∨ Barren (after.lookup id) := by
    refine fun id => Or.imp_left fun hmem => ?_
    rwa [← Finmap.lookup_isSome, hgrown.lookup_view (h.mem_view hmem), Finmap.lookup_isSome]
  -- the box of the page is among what was copied, and measures the same there
  have hmirrors := hcopied.mirrors hdict hview hwithin
  have hbox : entryOf d₁.view copied "MediaBox" =
      (findInheritedAttribute source slot.objectId "MediaBox").map (Object.rename mapping.apply) :=
    hentry (hcopied.entryOf_inherited hdict (by decide))
  have hsees : ∀ value, findInheritedAttribute source slot.objectId "MediaBox" = some value →
      Sees (CarriesOver source mapping after) source value :=
    fun value hvalue => hcopied.sees (by decide) hvalue (hslot.box value hvalue)
  have hadded : Backed d₁ pages ⟨d.pages.next, copied, slot.size, slot.rotation, true⟩ := by
    refine ⟨.inr hcreated, ?_, .inl (attributeOf_created hprevious _).symm, .inl rfl, ?_, .inl rfl⟩
    · have htype := statedType_page.1 hslot.page
      rw [entryOf_of_lookup hdict] at htype
      refine hentry ?_
      rw [hcopied.entryOf hdict (by decide), htype]
      rfl
    · rw [attributeOf_created hprevious, hbox, hmirrors.measuredSize hsees, ← readPageSize_eq]
      exact hslot.size
  constructor
  · refine h.grow hgrown hcopied.trailer (hstep.settled h.settled) fun other hother => ?_
    rcases known_of_insert hstep.keeps.removed hlive hlive' hother with rfl | hold
    · exact hadded
    · exact .grow h hgrown hold hundisturbed (hkept other hold _ · (.inl rfl))
        fun hchanged value => hkept other hold _ value (.inr ⟨rfl, hchanged⟩)
  · intro other hother key value hkey hvalue
    rcases known_of_insert hstep.keeps.removed hlive hlive' hother with rfl | hold
    · rcases hkey with rfl | ⟨-, hchanged⟩
      · rw [attributeOf_created hprevious, hbox] at hvalue
        obtain ⟨found, hfound, rfl⟩ := Option.map_eq_some_iff.1 hvalue
        exact hmirrors.sees (fun id hid => hcopied.stays hdict hview hid) (hsees found hfound)
      · cases hchanged
    · rw [hgrown.attributeOf (h.slot_bounded hold)] at hvalue
      exact hundisturbed.sees hstays (hkept other hold key value hkey hvalue)

omit [Lopdf] [LawfulDereference] in
theorem Importable.isCopyable {free : ObjectId → Prop} (h : Importable source free slot) :
    IsCopyable source slot := by
  obtain ⟨dict, hdict, -⟩ := lookup_of_entryOf (statedType_page.1 h.page)
  exact ⟨dict, hdict⟩

/-- An import of pages that can be brought in keeps every slot backed. -/
theorem importResolved_grounded {slots : List PageSlot} (hat : atIndex ≤ d.pages.live.length)
    (h : Grounded d pages)
    (hslots : ∀ slot ∈ slots, Importable source (fun id => Barren (after.lookup id)) slot)
    (hkept : d.Uncaptured fun id => Barren (after.lookup id))
    (hwithin : Within (importResolved source slots atIndex d).2.view after) :
    Grounded (importResolved source slots atIndex d).2 pages := by
  induction slots generalizing atIndex d with
  | nil => exact h
  | cons slot slots ih =>
    have hslot := hslots slot List.mem_cons_self
    rcases importResolved_cons source slot slots d hat with ⟨hnone, -⟩ | ⟨id, d₁, hstep, heq⟩
    · exact absurd hslot.isCopyable (not_isCopyable_of_none hnone)
    · rw [heq] at hwithin ⊢
      have hat' : atIndex + 1 ≤ d₁.pages.live.length := by
        have := hstep.length
        omega
      have hbounded := hstep.grown.bounded fun id => h.mem_view
      have hround : Within d₁.view after := fun id object hobject =>
        hwithin id object ((importResolved_grown source slots hat').within hbounded id object hobject)
      obtain ⟨hgrounded, hkept'⟩ := hstep.grounded h hkept hslot hround
      exact ih hat' hgrounded (fun later hlater => hslots later (List.mem_cons_of_mem _ hlater))
        hkept' hwithin

/-! ### Whole imports -/

/-- The numbers an import hands out: the next ones, as many as there are objects to copy. -/
def HandsOut (source : Objects) (slots : List PageSlot) (d : PdfDocument) (id : ObjectId) : Prop :=
  id.2 = 0 ∧ d.incremental.newDocument.maxId < id.1 ∧ id.1 ≤ d.incremental.newDocument.maxId +
    (slots.map fun slot => (copiedIds source slot.objectId).card).sum

omit [LawfulDereference] in
/-- A copy takes as many numbers as there are objects to copy. -/
theorem copyPageInto_maxId {page : ObjectId} {dict : Dictionary}
    (hpage : source.lookup page = some (.dictionary dict)) (target : LopdfDocument) :
    (copyPageInto source page target).2.maxId = target.maxId + (copiedIds source page).card := by
  have hcloned : (cloneObjects source (copyMapping source page target).1
      (copyMapping source page target).2).maxId = target.maxId + (copiedIds source page).card :=
    (cloneEntries_fields source _ _ _).2.2.trans (copyMapping_maxId hpage target)
  unfold copyPageInto placeCopy
  simp only [hpage, Option.bind_some, Object.asDict]
  split
  · exact hcloned
  · split <;> exact hcloned

/-- One round hands out as many numbers as there are objects to copy for its page. -/
theorem ImportStep.handsOut (hstep : ImportStep source slot atIndex d id d₁) :
    d₁.incremental.newDocument.maxId =
        d.incremental.newDocument.maxId + (copiedIds source slot.objectId).card ∧
      ∀ object, d₁.view.lookup object = d.view.lookup object ∨ HandsOut source [slot] d object := by
  obtain ⟨dict, hdict⟩ := isCopyable_of_step hstep
  obtain ⟨copied, target, hcopy, -, -, -, -, -, rfl⟩ := hstep.copied
  obtain ⟨_, _, hcopy', hcopied⟩ := copyPageInto_copied hdict d.incremental.newDocument
  have hmaxId := copyPageInto_maxId hdict d.incremental.newDocument
  obtain ⟨-, rfl⟩ := Prod.ext_iff.1 (hcopy'.symm.trans hcopy)
  rw [hcopy] at hmaxId
  refine ⟨hmaxId, fun object => ?_⟩
  by_cases hfresh : object ∈
      (copyMapping source slot.objectId d.incremental.newDocument).1.map Prod.snd
  · exact .inr (by simpa [HandsOut] using (mem_copyMapping_numbers hdict _).1 hfresh)
  · refine .inl ?_
    unfold view
    rw [IncrementalDocument.lookup_view, IncrementalDocument.lookup_view, hstep.keeps.previous,
      hcopied.other object hfresh]

/-- An import changes only what stands under the numbers it hands out. -/
theorem importResolved_handsOut {slots : List PageSlot} (hat : atIndex ≤ d.pages.live.length)
    (object : ObjectId) :
    (importResolved source slots atIndex d).2.view.lookup object = d.view.lookup object ∨
      HandsOut source slots d object := by
  induction slots generalizing atIndex d with
  | nil => exact .inl rfl
  | cons slot slots ih =>
    rcases importResolved_cons source slot slots d hat with ⟨hnone, heq⟩ | ⟨id, d₁, hstep, heq⟩
    · rw [heq, copyPageInto_none (not_isCopyable_of_none hnone)]
      exact .inl rfl
    · rw [heq]
      have hlen := hstep.length
      obtain ⟨hmaxId, hround⟩ := hstep.handsOut
      rcases ih (show atIndex + 1 ≤ d₁.pages.live.length by omega) with hsame | ⟨hzero, hlow, hhigh⟩
      · rw [hsame]
        refine (hround object).imp_right fun ⟨hzero, hlow, hhigh⟩ => ⟨hzero, hlow, ?_⟩
        simp only [List.map_cons, List.map_nil, List.sum_cons, List.sum_nil] at hhigh ⊢
        omega
      · refine .inr ⟨hzero, by omega, ?_⟩
        rw [List.map_cons, List.sum_cons]
        omega

/-- What an import of pages relies on: no reference that leads nowhere, in a box or a rotation a
page brings to the next save or in a box brought in, has a number that the import hands out, and
none that is left behind has the number of anything but a dictionary or a stream. -/
structure ImportSafe (source : Objects) (slots : List PageSlot) (d : PdfDocument) : Prop where
  pages : ∀ slot ∈ slots, Importable source
    (fun id => Barren (d.view.lookup id) ∧ ¬ HandsOut source slots d id) slot
  kept : d.Uncaptured fun id => ¬ HandsOut source slots d id

theorem importPages_sound (h : Sound d pages) {source : PdfDocument} {ids : List PageId}
    (hsafe : ∀ slots, atIndex ≤ d.pages.live.length → ids.mapM source.pages.findSlot = .ok slots →
      ImportSafe source.view slots d) :
    Sound (importPages source ids atIndex d).2 pages := by
  unfold importPages
  cases hcheck : d.pages.checkInsertionIndex atIndex with
  | error e => exact h
  | ok _ =>
    cases hresolve : ids.mapM source.pages.findSlot with
    | error e => exact h
    | ok slots =>
      have hat := checkInsertionIndex_eq_ok.1 hcheck
      obtain ⟨hslots, hkept⟩ := hsafe slots hat hresolve
      have hother : ∀ id, (importResolved source.view slots atIndex d).2.view.lookup id =
          d.view.lookup id ∨ HandsOut source.view slots d id := importResolved_handsOut hat
      dsimp only
      rcases importResolved_error source.view slots d hat with
        ⟨-, newIds, hok⟩ | ⟨before, bad, rest, hsplit, -, hbad, -⟩
      swap
      · exact absurd (hslots bad (by simp [hsplit])).isCopyable hbad
      rcases himport : importResolved source.view slots atIndex d with ⟨e | imported, d₂⟩
      · rw [himport] at hok
        cases hok
      rw [himport] at hother
      dsimp only at hother ⊢
      -- what is free before the import stands for nothing after it
      have hslots' : ∀ slot ∈ slots, Importable source.view (fun id => Barren (d₂.view.lookup id)) slot :=
        fun slot hslot => (hslots slot hslot).mono fun id ⟨hbarren, hfree⟩ =>
          (hother id).resolve_right hfree ▸ hbarren
      have hkept' : d.Uncaptured fun id => Barren (d₂.view.lookup id) := by
        refine hkept.mono fun id hid hfree => ?_
        rw [(hother id).resolve_right hfree, Finmap.lookup_eq_none.2 hid]
        exact .none
      have hgrounded : Grounded d₂ pages := by
        have := importResolved_grounded hat h.toGrounded hslots' hkept'
          (by rw [himport]; exact fun _ _ hobject => hobject)
        rwa [himport] at this
      cases slots with
      | nil =>
        cases himport
        exact h.of_same rfl rfl rfl rfl
      | cons slot slots =>
        rcases importResolved_cons source.view slot slots d hat with ⟨-, heq⟩ | ⟨id, d₁, -, heq⟩
        · rw [himport] at heq
          cases heq
        · obtain ⟨newId, rest, rfl⟩ : ∃ newId rest, imported = newId :: rest := by
            rw [himport] at heq
            cases hrest : (importResolved source.view slots (atIndex + 1) d₁).1 with
            | error e => simp [hrest, Except.map] at heq
            | ok rest =>
              simp only [hrest, Except.map, Prod.mk.injEq, Except.ok.injEq] at heq
              exact ⟨id, rest, heq.1⟩
          refine ⟨hgrounded.of_same rfl rfl (hgrounded.settled.of_same rfl fun _ hid => hid)
            hgrounded.backed, fun _ _ _ => rfl, fun hstructural => ?_⟩
          cases hstructural

end Rounds
end PdfDocument
end OpdfEditor
