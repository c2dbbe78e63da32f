import OpdfEditor.PdfRelocation
import OpdfEditor.PdfResidue

/-!
What the objects behind a document have to do with its slots, whatever session of
edits and saves led there: each page is one of the file or was created since, and
the box and the rotation it brings to the next save measure what its slot says.
-/
namespace OpdfEditor

namespace PdfDocument

/-- The attribute a page brings to the next save: what it carries or inherits in the file, or what
it was created with. -/
def attributeOf (d : PdfDocument) (page : ObjectId) (key : String) : Option Object :=
  if page ∈ d.incremental.previous.objects then
    findInheritedAttribute d.incremental.previous.objects page key
  else entryOf d.view page key

/-- The page carries the attribute, or a page of the file does not carry it yet. -/
def Fills (d : PdfDocument) (page : ObjectId) (key : String) : Prop :=
  entryOf d.view page key = d.attributeOf page key ∨
    entryOf d.view page key = none ∧ entryOf d.incremental.previous.objects page key = none

def writtenKeys : List String := ["Parent", "Kids", "Count"] ++ inheritableKeys

theorem Pending.key_mem [Lopdf] {d : PdfDocument} {edit : Edit} (h : d.Pending edit) :
    edit.key ∈ writtenKeys := by
  rcases h.inv with ⟨hinherited, -⟩ | ⟨hkey, -⟩ | ⟨hkey, -⟩ | ⟨hkey, -⟩ | ⟨hkey, -⟩
  · exact List.mem_append_right _ hinherited
  all_goals
    rw [hkey]
    decide

/-- What the object behind a slot holds; `pages` are the pages of the file. -/
structure Backed (d : PdfDocument) (pages : List ObjectId) (slot : PageSlot) : Prop where
  origin : slot.objectId ∈ pages ∨ d.incremental.previous.maxId < slot.objectId.1
  type : entryOf d.view slot.objectId "Type" = some (.name "Page")
  box : d.Fills slot.objectId "MediaBox"
  rotate : slot.rotationChanged = true ∨ d.Fills slot.objectId "Rotate" ∨
    entryOf d.view slot.objectId "Rotate" = some (.integer slot.rotation.degrees)
  size : measuredSize d.view (d.attributeOf slot.objectId "MediaBox") = slot.size
  rotation : slot.rotationChanged = true ∨
    measuredRotation d.view (d.attributeOf slot.objectId "Rotate") = slot.rotation

/-- What holds of the objects behind a document, whatever is still to be saved. -/
structure Grounded (d : PdfDocument) (pages : List ObjectId) : Prop where
  tree : ProperTree d.incremental.previous d.rootPagesId pages
  counted : d.incremental.previous.Counted
  settled : d.Settled
  grows : d.incremental.previous.maxId ≤ d.incremental.newDocument.maxId
  bounded : ∀ id ∈ d.incremental.newDocument.objects, id.1 ≤ d.incremental.newDocument.maxId
  trailer : d.incremental.newDocument.trailer = d.incremental.previous.trailer
  root : ∃ dict, d.view.lookup d.rootPagesId = some (.dictionary dict)
  root_entry : ∀ key, key ≠ "Kids" → key ≠ "Count" →
    entryOf d.view d.rootPagesId key = entryOf d.incremental.previous.objects d.rootPagesId key
  kept : ∀ id ∈ d.incremental.previous.objects, ∀ key, key ∉ writtenKeys →
    entryOf d.view id key = entryOf d.incremental.previous.objects id key
  backed : ∀ slot ∈ d.pages.known, Backed d pages slot

/-- While the tree was not edited, only rotations of its pages differ from the file. -/
structure Unmoved (d : PdfDocument) (pages : List ObjectId) : Prop where
  live : d.pages.live.map PageSlot.objectId = pages
  entry : ∀ id key, key ≠ "Rotate" →
    entryOf d.view id key = entryOf d.incremental.previous.objects id key
  lookup : ∀ id, (∀ slot ∈ d.pages.live, slot.rotationChanged = true → slot.objectId ≠ id) →
    d.view.lookup id = d.incremental.previous.objects.lookup id

/-- What holds of a document after any safe session. -/
structure Sound (d : PdfDocument) (pages : List ObjectId) : Prop extends Grounded d pages where
  flagged : ∀ slot ∈ d.pages.known, slot.rotationChanged = true → d.dirty.rotations = true
  unmoved : d.dirty.structural = false → Unmoved d pages

section Grounded

variable {d d' : PdfDocument} {pages : List ObjectId}

theorem Grounded.mem_view (h : Grounded d pages) {id : ObjectId} (hid : id ∈ d.view) :
    id.1 ≤ d.incremental.newDocument.maxId := by
  rcases Finmap.mem_union.1 hid with hnew | hold
  · exact h.bounded id hnew
  · exact (h.counted id hold).trans h.grows

theorem Grounded.mem_previous (h : Grounded d pages) {page : ObjectId} (hpage : page ∈ pages) :
    page ∈ d.incremental.previous.objects := by
  obtain ⟨object, hobject, -⟩ := lookup_of_statedType (h.tree.stated page hpage)
  exact Finmap.mem_of_lookup_eq_some hobject

theorem Grounded.not_mem_previous (h : Grounded d pages) {id : ObjectId}
    (hid : d.incremental.previous.maxId < id.1) : id ∉ d.incremental.previous.objects :=
  fun hmem => absurd (h.counted id hmem) (by omega)

theorem Backed.dict {slot : PageSlot} (h : Backed d pages slot) :
    ∃ dict, d.view.lookup slot.objectId = some (.dictionary dict) := by
  obtain ⟨dict, hdict, -⟩ := lookup_of_entryOf h.type
  exact ⟨dict, hdict⟩

/-- The root of the page tree is no page. -/
theorem Grounded.root_ne (h : Grounded d pages) {slot : PageSlot} (hslot : slot ∈ d.pages.known) :
    slot.objectId ≠ d.rootPagesId := by
  intro heq
  have htype := (h.backed slot hslot).type
  rw [heq, h.root_entry "Type" (by decide) (by decide)] at htype
  exact h.tree.root_page (statedType_page.2 htype)

theorem Grounded.names_dict (h : Grounded d pages) {id : ObjectId} (hid : d.Names id) :
    ∃ dict, d.view.lookup id = some (.dictionary dict) := by
  rcases hid with rfl | ⟨slot, hslot, rfl⟩
  · exact h.root
  · exact (h.backed slot hslot).dict

/-- A page of the file finds what the file gives it. -/
theorem attributeOf_previous {page : ObjectId} (hpage : page ∈ d.incremental.previous.objects)
    (key : String) : d.attributeOf page key =
      findInheritedAttribute d.incremental.previous.objects page key := if_pos hpage

/-- A page created finds what it carries. -/
theorem attributeOf_created {page : ObjectId} (hpage : page ∉ d.incremental.previous.objects)
    (key : String) : d.attributeOf page key = entryOf d.view page key := if_neg hpage

/-! ### Calls that change no object -/

theorem attributeOf_of_same (hincremental : d'.incremental = d.incremental) :
    d'.attributeOf = d.attributeOf := by
  funext page key
  unfold attributeOf view
  rw [hincremental]

theorem Backed.of_same {slot : PageSlot} (h : Backed d pages slot)
    (hincremental : d'.incremental = d.incremental) : Backed d' pages slot := by
  have hview : d'.view = d.view := congrArg IncrementalDocument.view hincremental
  have hattribute := attributeOf_of_same hincremental
  obtain ⟨horigin, htype, hbox, hrotate, hsize, hrotation⟩ := h
  unfold Fills at hbox hrotate
  rw [← hincremental] at horigin hbox hrotate
  rw [← hview] at htype hbox hrotate hsize hrotation
  rw [← hattribute] at hbox hrotate hsize hrotation
  exact ⟨horigin, htype, hbox, hrotate, hsize, hrotation⟩

theorem Grounded.of_same (h : Grounded d pages) (hincremental : d'.incremental = d.incremental)
    (hroot : d'.rootPagesId = d.rootPagesId) (hsettled : d'.Settled)
    (hbacked : ∀ slot ∈ d'.pages.known, Backed d pages slot) : Grounded d' pages := by
  have hview : d'.view = d.view := congrArg IncrementalDocument.view hincremental
  refine ⟨?_, ?_, hsettled, ?_, ?_, ?_, ?_, ?_, ?_, fun slot hslot =>
    (hbacked slot hslot).of_same hincremental⟩
  · rw [hincremental, hroot]
    exact h.tree
  · rw [hincremental]
    exact h.counted
  · rw [hincremental]
    exact h.grows
  · rw [hincremental]
    exact h.bounded
  · rw [hincremental]
    exact h.trailer
  · rw [hview, hroot]
    exact h.root
  · rw [hview, hroot, hincremental]
    exact h.root_entry
  · rw [hview, hincremental]
    exact h.kept

theorem Sound.of_same (h : Sound d pages) (hincremental : d'.incremental = d.incremental)
    (hroot : d'.rootPagesId = d.rootPagesId) (hpages : d'.pages = d.pages)
    (hdirty : d'.dirty = d.dirty) : Sound d' pages := by
  have hnames : ∀ id, d'.Names id → d.Names id := by
    intro id hid
    unfold Names at hid ⊢
    rwa [hroot, hpages] at hid
  refine ⟨h.toGrounded.of_same hincremental hroot (h.settled.of_same hincremental hnames) ?_, ?_, ?_⟩
  · rw [hpages]
    exact h.backed
  · rw [hpages, hdirty]
    exact h.flagged
  · intro hstructural
    rw [hdirty] at hstructural
    obtain ⟨hlive, hentry, hlookup⟩ := h.unmoved hstructural
    have hview : d'.view = d.view := congrArg IncrementalDocument.view hincremental
    exact ⟨hpages ▸ hlive, by rwa [hview, hincremental], by rwa [hview, hincremental, hpages]⟩

/-- Turning the slot leaves the object behind it. -/
theorem Backed.rotated {slot : PageSlot} (h : Backed d pages slot) (rotation : Rotation) :
    Backed d pages (slot.rotate rotation) :=
  ⟨h.origin, h.type, h.box, .inl rfl, h.size, .inl rfl⟩

/-- Removing, restoring and moving pages keep a document sound. -/
theorem Rearranged.sound (h : Sound d pages) (hmoved : Rearranged d d') : Sound d' pages := by
  have hknown : ∀ slot ∈ d'.pages.known, slot ∈ d.pages.known :=
    fun slot hslot => hmoved.known.mem_iff.1 hslot
  refine ⟨h.toGrounded.of_same hmoved.incremental hmoved.rootPagesId (hmoved.settled h.settled)
    fun slot hslot => h.backed slot (hknown slot hslot), ?_, ?_⟩
  · intro slot hslot hchanged
    rw [hmoved.dirty]
    exact h.flagged slot (hknown slot hslot) hchanged
  · intro hstructural
    rw [hmoved.dirty] at hstructural
    cases hstructural

/-- So does turning a page. -/
theorem Turned.sound {rotation : Rotation} (h : Sound d pages) (hturned : Turned rotation d d') :
    Sound d' pages := by
  obtain ⟨before, turned, after, hlive, hlive'⟩ := hturned.live
  have hbacked : ∀ slot ∈ d'.pages.known, Backed d pages slot := by
    intro slot hslot
    simp only [Roster.known, hlive', hturned.removed, List.append_assoc, List.cons_append,
      List.mem_append, List.mem_cons] at hslot
    have hold := h.backed
    simp only [Roster.known, hlive, List.append_assoc, List.cons_append, List.mem_append,
      List.mem_cons] at hold
    rcases hslot with hslot | rfl | hslot
    · exact hold slot (.inl hslot)
    · exact (hold turned (.inr (.inl rfl))).rotated rotation
    · exact hold slot (.inr (.inr hslot))
  refine ⟨h.toGrounded.of_same hturned.incremental hturned.rootPagesId (hturned.settled h.settled)
    hbacked, ?_, ?_⟩
  · intro slot _ _
    rw [hturned.dirty]
  · intro hstructural
    rw [hturned.dirty] at hstructural
    obtain ⟨hids, hentry, hlookup⟩ := h.unmoved hstructural
    have hview : d'.view = d.view := congrArg IncrementalDocument.view hturned.incremental
    refine ⟨?_, ?_, ?_⟩
    · rw [← hids, hlive, hlive', List.map_append, List.map_append, List.map_cons, List.map_cons]
      rfl
    · rw [hview, hturned.incremental]
      exact hentry
    · intro id hid
      rw [hview, hturned.incremental]
      refine hlookup id fun slot hslot hchanged => ?_
      rw [hlive, List.mem_append, List.mem_cons] at hslot
      rw [hlive'] at hid
      rcases hslot with hslot | rfl | hslot
      · exact hid slot (List.mem_append_left _ hslot) hchanged
      · exact hid (slot.rotate rotation) (List.mem_append_right _ List.mem_cons_self) rfl
      · exact hid slot (List.mem_append_right _ (List.mem_cons_of_mem _ hslot)) hchanged

/-! ### Objects that are added -/

/-- Objects numbered so far stay as they are. -/
theorem Grown.lookup_view (hgrown : Grown d d') {id : ObjectId}
    (hid : id.1 ≤ d.incremental.newDocument.maxId) : d'.view.lookup id = d.view.lookup id := by
  unfold view
  rw [IncrementalDocument.lookup_view, IncrementalDocument.lookup_view, hgrown.previous]
  rcases hgrown.lookup id with hsame | hfresh
  · rw [hsame]
  · omega

theorem Grown.entryOf (hgrown : Grown d d') {id : ObjectId}
    (hid : id.1 ≤ d.incremental.newDocument.maxId) (key : String) :
    entryOf d'.view id key = OpdfEditor.entryOf d.view id key :=
  entryOf_congr (hgrown.lookup_view hid) key

/-- A page that was there before finds what it found. -/
theorem Grown.attributeOf (hgrown : Grown d d') {page : ObjectId}
    (hpage : page.1 ≤ d.incremental.newDocument.maxId) (key : String) :
    d'.attributeOf page key = d.attributeOf page key := by
  unfold PdfDocument.attributeOf
  rw [hgrown.previous, hgrown.entryOf hpage]

theorem Grounded.slot_bounded (h : Grounded d pages) {slot : PageSlot}
    (hslot : slot ∈ d.pages.known) : slot.objectId.1 ≤ d.incremental.newDocument.maxId :=
  h.settled.bounded _ (.inr ⟨slot, hslot, rfl⟩)

/-- Adding objects leaves a slot backed whose box and rotation run into nothing new. -/
theorem Backed.grow (h : Grounded d pages) (hgrown : Grown d d') {slot : PageSlot}
    (hslot : slot ∈ d.pages.known) {at_ : ObjectId → Prop} (hsame : Undisturbed at_ d.view d'.view)
    (hbox : ∀ value, d.attributeOf slot.objectId "MediaBox" = some value → Sees at_ d.view value)
    (hrotate : slot.rotationChanged = false → ∀ value,
      d.attributeOf slot.objectId "Rotate" = some value → Sees at_ d.view value) :
    Backed d' pages slot := by
  have hbound := h.slot_bounded hslot
  have hbacked := h.backed slot hslot
  have hfills : ∀ key, d.Fills slot.objectId key → d'.Fills slot.objectId key := by
    intro key hkey
    unfold Fills
    rw [hgrown.entryOf hbound, hgrown.attributeOf hbound, hgrown.previous]
    exact hkey
  refine ⟨?_, ?_, hfills _ hbacked.box, ?_, ?_, ?_⟩
  · rw [hgrown.previous]
    exact hbacked.origin
  · rw [hgrown.entryOf hbound]
    exact hbacked.type
  · rw [hgrown.entryOf hbound]
    exact hbacked.rotate.imp_right (Or.imp_left (hfills _))
  · rw [hgrown.attributeOf hbound, hsame.measuredSize hbox]
    exact hbacked.size
  · cases hchanged : slot.rotationChanged with
    | true => exact .inl rfl
    | false =>
      rw [hgrown.attributeOf hbound, hsame.measuredRotation (hrotate hchanged)]
      exact .inr (hbacked.rotation.resolve_left (by simp [hchanged]))

/-- Objects added under fresh numbers disturb nothing behind the slots. -/
theorem Grounded.grow (h : Grounded d pages) (hgrown : Grown d d')
    (htrailer : d'.incremental.newDocument.trailer = d.incremental.newDocument.trailer)
    (hsettled : d'.Settled) (hbacked : ∀ slot ∈ d'.pages.known, Backed d' pages slot) :
    Grounded d' pages := by
  have hrootBound := h.settled.bounded _ (.inl rfl)
  refine ⟨?_, ?_, hsettled, ?_, ?_, ?_, ?_, ?_, ?_, hbacked⟩
  · rw [hgrown.previous, hgrown.rootPagesId]
    exact h.tree
  · rw [hgrown.previous]
    exact h.counted
  · rw [hgrown.previous]
    exact h.grows.trans hgrown.maxId
  · intro id hid
    rcases hgrown.lookup id with hsame | hfresh
    · rw [← Finmap.lookup_isSome, hsame, Finmap.lookup_isSome] at hid
      exact (h.bounded id hid).trans hgrown.maxId
    · exact hfresh.2
  · rw [htrailer, hgrown.previous]
    exact h.trailer
  · rw [hgrown.rootPagesId, hgrown.lookup_view hrootBound]
    exact h.root
  · intro key hkids hcount
    rw [hgrown.rootPagesId, hgrown.entryOf hrootBound, hgrown.previous]
    exact h.root_entry key hkids hcount
  · intro id hid key hkey
    rw [hgrown.previous] at hid ⊢
    rw [hgrown.entryOf ((h.counted id hid).trans h.grows)]
    exact h.kept id hid key hkey

/-- What was not there is nothing, and what is there was handed out already. -/
theorem Grounded.undisturbed (h : Grounded d pages) (hgrown : Grown d d') {at_ : ObjectId → Prop}
    (hat : ∀ id, at_ id → id ∉ d.view → Barren (d'.view.lookup id)) :
    Undisturbed at_ d.view d'.view := by
  intro id hid
  by_cases hmem : id ∈ d.view
  · exact .inl (hgrown.lookup_view (h.mem_view hmem)).symm
  · rw [Finmap.lookup_eq_none.2 hmem]
    exact .inr ⟨.none, hat id hid hmem⟩

/-- After an insertion the slots known are the one added and those before. -/
theorem known_of_insert {before after : List PageSlot} {added : PageSlot}
    (hremoved : d'.pages.removed = d.pages.removed) (hlive : d.pages.live = before ++ after)
    (hlive' : d'.pages.live = before ++ added :: after) {slot : PageSlot}
    (hslot : slot ∈ d'.pages.known) : slot = added ∨ slot ∈ d.pages.known := by
  simp only [Roster.known, hlive', hremoved, List.append_assoc, List.cons_append, List.mem_append,
    List.mem_cons] at hslot
  simp only [Roster.known, hlive, List.append_assoc, List.mem_append]
  tauto

/-- So does inserting a blank one of a positive size. -/
theorem Inserted.sound {size : PageSize} (h : Sound d pages) (hinserted : Inserted size d d')
    (hwidth : size.widthPt.IsPositive) (hheight : size.heightPt.IsPositive) : Sound d' pages := by
  obtain ⟨before, after, hlive, hlive'⟩ := hinserted.live
  have hgrown := hinserted.grown
  have hprevious : (d.incremental.newDocument.maxId + 1, 0) ∉ d'.incremental.previous.objects := by
    have hgrows := h.grows
    rw [hgrown.previous]
    exact h.toGrounded.not_mem_previous (by simp only; omega)
  have hnew : d'.view.lookup (d.incremental.newDocument.maxId + 1, 0) =
      some (.dictionary (blankPageDictionary d.rootPagesId size)) := by
    refine IncrementalDocument.lookup_view_of_new ?_
    rw [hinserted.incremental]
    exact Finmap.lookup_insert _
  have hentry := entryOf_of_lookup hnew
  -- a blank page is a dictionary, which nothing can be read off
  have hundisturbed : Undisturbed (fun _ => True) d.view d'.view := by
    refine h.undisturbed hgrown fun id _ hid => ?_
    by_cases hfresh : id = (d.incremental.newDocument.maxId + 1, 0)
    · rw [hfresh, hnew]
      exact .dictionary _
    · have hsame : d'.incremental.newDocument.objects.lookup id =
          d.incremental.newDocument.objects.lookup id := by
        rw [hinserted.incremental]
        exact Finmap.lookup_insert_of_ne _ hfresh
      have hnone : d.view.lookup id = none := Finmap.lookup_eq_none.2 hid
      unfold view at hnone ⊢
      rw [IncrementalDocument.lookup_view, hsame, hgrown.previous, ← IncrementalDocument.lookup_view,
        hnone]
      exact .none
  have hblank : Backed d' pages
      ⟨d.pages.next, (d.incremental.newDocument.maxId + 1, 0), size, .none, false⟩ := by
    refine ⟨.inr ?_, hentry "Type", .inl (attributeOf_created hprevious _).symm,
      .inr (.inl (.inl (attributeOf_created hprevious _).symm)), ?_, .inr ?_⟩
    · rw [hgrown.previous]
      exact Nat.lt_succ_of_le h.grows
    · rw [attributeOf_created hprevious, hentry]
      exact measureMediaBox_blank d'.view hwidth hheight
    · rw [attributeOf_created hprevious, hentry]
      rfl
  refine ⟨h.toGrounded.grow hgrown ?_ (hinserted.settled h.settled) ?_, ?_, ?_⟩
  · rw [hinserted.incremental]
    rfl
  · intro slot hslot
    rcases known_of_insert hinserted.removed hlive hlive' hslot with rfl | hold
    · exact hblank
    · exact .grow h.toGrounded hgrown hold hundisturbed (fun value _ => sees_of_forall (fun _ => trivial) value)
        fun _ value _ => sees_of_forall (fun _ => trivial) value
  · intro slot hslot hchanged
    rw [hinserted.dirty]
    rcases known_of_insert hinserted.removed hlive hlive' hslot with rfl | hold
    · cases hchanged
    · exact h.flagged slot hold hchanged
  · intro hstructural
    rw [hinserted.dirty] at hstructural
    cases hstructural

end Grounded

end PdfDocument
end OpdfEditor
