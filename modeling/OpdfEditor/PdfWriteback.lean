import OpdfEditor.PdfSound

/-!
What a save leaves of a document: every page in the file carries or finds the box
and the rotation its slot shows, unless the root of the page tree gives it one it
did not have, or it shares an entry with a page turned another way.
-/
namespace OpdfEditor

namespace PdfDocument

/-! ### The objects after a save -/

section Written

variable [Lopdf] [LawfulDereference] {d d₁ : PdfDocument} {pages : List ObjectId}

theorem Grounded.editable (h : Grounded d pages) {id : ObjectId}
    (hid : d.Names id) : ∃ dict, d.incremental.editable id = some dict ∧
      d.view.lookup id = some (.dictionary dict) := by
  obtain ⟨dict, hdict⟩ := h.names_dict hid
  refine ⟨dict, ?_, hdict⟩
  unfold view at hdict
  rw [IncrementalDocument.lookup_view] at hdict
  unfold IncrementalDocument.editable
  cases hnew : d.incremental.newDocument.objects.lookup id with
  | some object =>
    rw [hnew, Option.some_or, Option.some.injEq] at hdict
    rw [hdict]
    rfl
  | none =>
    rw [hnew, Option.none_or] at hdict
    dsimp only
    rw [Objects.getDictionary_of_lookup hdict]
    rfl

/-- Whatever is pending can be written. -/
theorem Grounded.materializes (h : Grounded d pages) :
    ∃ d₁, d.materializeChanges = (.ok (), d₁) := by
  have hnames : ∀ edit ∈ d.pendingEdits, d.Names edit.target :=
    fun edit hedit => (mem_pendingEdits.1 hedit).names
  obtain ⟨incremental, happly⟩ := IncrementalDocument.applyEdits_succeeds
    (fun edit hedit => h.settled.settled _ (hnames edit hedit)) fun edit hedit => by
      obtain ⟨dict, hdict, -⟩ := h.editable (hnames edit hedit)
      exact Option.isSome_of_eq_some hdict
  unfold materializeChanges
  rw [happly]
  exact ⟨_, rfl⟩

theorem Grounded.lookup_materialized (h : Grounded d pages)
    (hm : d.materializeChanges = (.ok (), d₁)) (id : ObjectId) :
    (d₁.view.lookup id = d.view.lookup id ∧ ∀ key value, ¬ d.Pending ⟨id, key, value⟩) ∨
    ∃ dict, d.view.lookup id = some (.dictionary dict) ∧ d₁.view.lookup id = some (.dictionary
      (Dictionary.setAll (IncrementalDocument.editsAt id d.pendingEdits) dict)) := by
  obtain ⟨hedited, -⟩ := materializeChanges_edited h.settled hm
  by_cases hpending : ∃ key value, d.Pending ⟨id, key, value⟩
  · obtain ⟨key, value, hpending⟩ := hpending
    obtain ⟨dict, hdict, hwritten⟩ := hedited.written _ (mem_pendingEdits.2 hpending)
    obtain ⟨dict', hdict', hview⟩ := h.editable hpending.names
    rw [hdict] at hdict'
    cases hdict'
    exact .inr ⟨dict, hview, IncrementalDocument.lookup_view_of_new hwritten⟩
  · have hnone : ∀ key value, ¬ d.Pending ⟨id, key, value⟩ :=
      fun key value hpend => hpending ⟨key, value, hpend⟩
    exact .inl ⟨lookup_materialized_of_idle h.settled hm hnone, hnone⟩

/-- Each entry is what was written last, or what it was. -/
theorem Grounded.entryOf_materialized (h : Grounded d pages)
    (hm : d.materializeChanges = (.ok (), d₁)) (id : ObjectId) (key : String) :
    entryOf d₁.view id key = (d.lastWritten id key).or (entryOf d.view id key) := by
  rcases h.lookup_materialized hm id with ⟨hsame, hnone⟩ | ⟨dict, hdict, hwritten⟩
  · rw [lastWritten_eq_none.2 (hnone key), Option.none_or]
    exact entryOf_congr hsame key
  · rw [entryOf_of_lookup hwritten, entryOf_of_lookup hdict, Dictionary.get_setAll]
    rfl

theorem Grounded.entryOf_unwritten (h : Grounded d pages)
    (hm : d.materializeChanges = (.ok (), d₁)) {id : ObjectId} {key : String}
    (hlast : d.lastWritten id key = none) : entryOf d₁.view id key = entryOf d.view id key := by
  rw [h.entryOf_materialized hm, hlast, Option.none_or]

theorem Grounded.entryOf_written (h : Grounded d pages)
    (hm : d.materializeChanges = (.ok (), d₁)) {id : ObjectId} {key : String} {value : Object}
    (hlast : d.lastWritten id key = some value) : entryOf d₁.view id key = some value := by
  rw [h.entryOf_materialized hm, hlast, Option.some_or]

/-- Only dictionaries are written to. -/
theorem Grounded.undisturbed_materialized (h : Grounded d pages)
    (hm : d.materializeChanges = (.ok (), d₁)) : Undisturbed (fun _ => True) d.view d₁.view := by
  intro id _
  rcases h.lookup_materialized hm id with ⟨hsame, -⟩ | ⟨dict, hdict, hwritten⟩
  · exact .inl hsame.symm
  · rw [hdict, hwritten]
    exact .inr ⟨.dictionary _, .dictionary _⟩

theorem Grounded.measuredSize_materialized (h : Grounded d pages)
    (hm : d.materializeChanges = (.ok (), d₁)) (found : Option Object) :
    measuredSize d₁.view found = measuredSize d.view found :=
  (h.undisturbed_materialized hm).measuredSize fun value _ => sees_of_forall (fun _ => trivial) value

theorem Grounded.measuredRotation_materialized (h : Grounded d pages)
    (hm : d.materializeChanges = (.ok (), d₁)) (found : Option Object) :
    measuredRotation d₁.view found = measuredRotation d.view found :=
  (h.undisturbed_materialized hm).measuredRotation
    fun value _ => sees_of_forall (fun _ => trivial) value

/-! ### What is written last -/

omit [LawfulDereference] in
theorem lastWritten_kept {id : ObjectId} {key : String} (hkey : key ∉ writtenKeys) :
    d.lastWritten id key = none := by
  rw [lastWritten_eq_none]
  intro value hpending
  exact hkey hpending.key_mem

omit [LawfulDereference] in
theorem Grounded.lastWritten_root (h : Grounded d pages) {key : String} (hkids : key ≠ "Kids")
    (hcount : key ≠ "Count") : d.lastWritten d.rootPagesId key = none := by
  rw [lastWritten_eq_none]
  intro value hpending
  generalize hedit : (⟨d.rootPagesId, key, value⟩ : Edit) = edit at hpending
  cases hpending with
  | inherited _ hslot _ =>
    exact h.root_ne (List.mem_append_left _ hslot) (congrArg Edit.target hedit).symm
  | parent _ hslot =>
    exact h.root_ne (List.mem_append_left _ hslot) (congrArg Edit.target hedit).symm
  | kids _ => exact hkids (congrArg Edit.key hedit)
  | count _ => exact hcount (congrArg Edit.key hedit)
  | rotation _ hslot _ =>
    exact h.root_ne (List.mem_append_left _ hslot) (congrArg Edit.target hedit).symm

theorem carriesOwn_eq_false {previous : LopdfDocument} {page : ObjectId} {dict : Dictionary}
    (hpage : previous.objects.lookup page = some (.dictionary dict)) {key : String} :
    carriesOwn previous page key = false ↔ entryOf previous.objects page key = none := by
  rw [entryOf_of_lookup hpage, carriesOwn, Objects.getDictionary_of_lookup hpage]
  exact Dictionary.has_eq_false

omit [Lopdf] [LawfulDereference] in
theorem Grounded.previous_dict (h : Grounded d pages) {page : ObjectId} (hpage : page ∈ pages) :
    ∃ dict, d.incremental.previous.objects.lookup page = some (.dictionary dict) := by
  obtain ⟨dict, hdict, -⟩ := lookup_of_entryOf (statedType_page.1 (h.tree.stated page hpage))
  exact ⟨dict, hdict⟩

omit [LawfulDereference] in
/-- An attribute written to a page, other than the rotation it was turned to, is the one it
inherits in the file. -/
theorem inherited_of_lastWritten {page : ObjectId} {key : String} {value : Object}
    (hkey : key ∈ inheritableKeys) (hturned : ¬ (key = "Rotate" ∧ d.Rotates page))
    (hlast : d.lastWritten page key = some value) :
    page ∈ d.incremental.previous.objects ∧ d.attributeOf page key = some value := by
  have hinherited : (key, value) ∈ inheritedAttributes d.incremental.previous page := by
    rcases (pending_of_lastWritten hlast).inv with
      ⟨-, hinherited⟩ | ⟨rfl, -⟩ | ⟨rfl, -⟩ | ⟨rfl, -⟩ | hrotates
    · exact hinherited
    · simp [inheritableKeys] at hkey
    · simp [inheritableKeys] at hkey
    · simp [inheritableKeys] at hkey
    · exact absurd hrotates hturned
  obtain ⟨hmem, -, -, hfound⟩ := mem_inheritedAttributes.1 hinherited
  exact ⟨hmem, (attributeOf_previous hmem key).trans hfound⟩

/-! ### Slots after a save -/

/-- Where the next save looks for a page's rotation once it has been written: up from a node that
states none and is given none. -/
def LooksUp (d : PdfDocument) (node parent : ObjectId) : Prop :=
  ¬ d.Rotates node ∧ entryOf d.view node "Rotate" = none ∧ parentOf d.view node = some parent

/-- What a save relies on. -/
structure SaveSafe (d : PdfDocument) : Prop where
  /-- A page without a box anywhere takes the root's, which is as large. -/
  box : d.dirty.structural = true → ∀ slot ∈ d.pages.live,
    d.attributeOf slot.objectId "MediaBox" = none →
      measuredSize d.view (entryOf d.view d.rootPagesId "MediaBox") = defaultPageSize
  /-- A page without a rotation anywhere takes the root's, which is none. -/
  rotate : d.dirty.structural = true → ∀ slot ∈ d.pages.live, ¬ d.Rotates slot.objectId →
    entryOf d.view slot.objectId "Rotate" = none → d.attributeOf slot.objectId "Rotate" = none →
      measuredRotation d.view (entryOf d.view d.rootPagesId "Rotate") = .none
  /-- Slots of one object are turned together. -/
  shared : ∀ turned ∈ d.pages.live, turned.rotationChanged = true → ∀ slot ∈ d.pages.known,
    slot.objectId = turned.objectId → slot.rotation = turned.rotation
  /-- A page that takes its rotation from another is turned with it. -/
  nested : d.dirty.structural = false → ∀ turned ∈ d.pages.live, turned.rotationChanged = true →
    ∀ slot ∈ d.pages.live, Relation.ReflTransGen d.LooksUp slot.objectId turned.objectId →
      slot.rotation = turned.rotation

theorem materialized_same (h : Grounded d pages) (hm : d.materializeChanges = (.ok (), d₁)) :
    d₁ = { d with incremental := d₁.incremental } ∧
      d₁.incremental.previous = d.incremental.previous ∧
      d₁.incremental.newDocument =
        { d.incremental.newDocument with objects := d₁.incremental.newDocument.objects } := by
  obtain ⟨hedited, hsame⟩ := materializeChanges_edited h.settled hm
  exact ⟨hsame, hedited.touched.previous, hedited.touched.fields⟩

/-- An attribute a save does not turn stays what it is, and stays filled. -/
theorem Grounded.fills_materialized (h : Grounded d pages)
    (hm : d.materializeChanges = (.ok (), d₁)) {page : ObjectId} {key : String}
    (hkey : key ∈ inheritableKeys) (hturned : ¬ (key = "Rotate" ∧ d.Rotates page)) :
    d₁.attributeOf page key = d.attributeOf page key ∧ (d.Fills page key → d₁.Fills page key) := by
  obtain ⟨-, hprevious, -⟩ := materialized_same h hm
  have hattribute : d₁.attributeOf page key = d.attributeOf page key := by
    unfold attributeOf
    rw [hprevious]
    split
    · rfl
    · rename_i hcreated
      cases hlast : d.lastWritten page key with
      | none => exact h.entryOf_unwritten hm hlast
      | some value => exact absurd (inherited_of_lastWritten hkey hturned hlast).1 hcreated
  refine ⟨hattribute, fun hfills => ?_⟩
  unfold Fills at hfills ⊢
  rw [hattribute, hprevious]
  cases hlast : d.lastWritten page key with
  | none =>
    rw [h.entryOf_unwritten hm hlast]
    exact hfills
  | some value =>
    rw [h.entryOf_written hm hlast, (inherited_of_lastWritten hkey hturned hlast).2]
    exact .inl rfl

/-- A page that is turned states its rotation. -/
theorem Grounded.turned_materialized (h : Grounded d pages) (hsafe : d.SaveSafe)
    (hm : d.materializeChanges = (.ok (), d₁)) {slot : PageSlot} (hslot : slot ∈ d.pages.known)
    (hrotates : d.Rotates slot.objectId) :
    entryOf d₁.view slot.objectId "Rotate" = some (.integer slot.rotation.degrees) := by
  obtain ⟨hrotations, turned, hlive, hchanged, hid⟩ := hrotates
  obtain ⟨last, hlast, hlastChanged, hlastId, hwritten⟩ :=
    lastWritten_rotation hrotations hlive hchanged
  rw [hsafe.shared last hlast hlastChanged slot hslot (hid.symm.trans hlastId.symm), ← hid]
  exact h.entryOf_written hm hwritten

theorem Sound.backed_materialized (h : Sound d pages) (hsafe : d.SaveSafe)
    (hm : d.materializeChanges = (.ok (), d₁)) {slot : PageSlot} (hslot : slot ∈ d.pages.known) :
    Backed d₁ pages slot := by
  obtain ⟨-, hprevious, -⟩ := materialized_same h.toGrounded hm
  have hbacked := h.backed slot hslot
  obtain ⟨hboxSame, hbox⟩ := h.fills_materialized hm
    (show "MediaBox" ∈ inheritableKeys by decide) fun hrotate => absurd hrotate.1 (by decide)
  refine ⟨?_, ?_, hbox hbacked.box, ?_, ?_, ?_⟩
  · rw [hprevious]
    exact hbacked.origin
  · rw [h.entryOf_unwritten hm (lastWritten_kept (by decide))]
    exact hbacked.type
  · by_cases hrotates : d.Rotates slot.objectId
    · exact .inr (.inr (h.turned_materialized hsafe hm hslot hrotates))
    have hturned : ¬ ("Rotate" = "Rotate" ∧ d.Rotates slot.objectId) := fun hrotate => hrotates hrotate.2
    obtain ⟨hrotateSame, hrotate⟩ := h.fills_materialized hm (by decide) hturned
    rcases hbacked.rotate with hchanged | hfills | hstated
    · exact .inl hchanged
    · exact .inr (.inl (hrotate hfills))
    · refine .inr ?_
      cases hlast : d.lastWritten slot.objectId "Rotate" with
      | none =>
        rw [h.entryOf_unwritten hm hlast]
        exact .inr hstated
      | some value =>
        refine .inl (.inl ?_)
        rw [hrotateSame, (inherited_of_lastWritten (by decide) hturned hlast).2]
        exact h.entryOf_written hm hlast
  · rw [hboxSame, h.measuredSize_materialized hm]
    exact hbacked.size
  · refine hbacked.rotation.imp_right fun hrotation => ?_
    rw [h.measuredRotation_materialized hm]
    by_cases hrotates : d.Rotates slot.objectId
    · -- a page of the file still finds what it did, one created since what it was turned to
      by_cases hpage : slot.objectId ∈ d.incremental.previous.objects
      · rw [attributeOf_previous (hprevious ▸ hpage), hprevious, ← attributeOf_previous hpage]
        exact hrotation
      · rw [attributeOf_created (hprevious ▸ hpage), h.turned_materialized hsafe hm hslot hrotates]
        exact measureRotation_degrees d.view slot.rotation
    · rw [(h.fills_materialized hm (by decide) fun hrotate => hrotates hrotate.2).1]
      exact hrotation

omit [LawfulDereference] in
/-- Without a structural edit only rotations are written. -/
theorem Pending.unmoved (hstructural : d.dirty.structural = false) {id : ObjectId} {key : String}
    {value : Object} (h : d.Pending ⟨id, key, value⟩) : key = "Rotate" ∧ d.Rotates id := by
  generalize hedit : (⟨id, key, value⟩ : Edit) = edit at h
  cases h with
  | inherited hmoved _ _ => simp [hstructural] at hmoved
  | parent hmoved _ => simp [hstructural] at hmoved
  | kids hmoved => simp [hstructural] at hmoved
  | count hmoved => simp [hstructural] at hmoved
  | rotation hrotations hslot hchanged =>
    exact ⟨congrArg Edit.key hedit, hrotations, _, hslot, hchanged, (congrArg Edit.target hedit).symm⟩

theorem Grounded.lookup_unmoved (h : Grounded d pages) (hm : d.materializeChanges = (.ok (), d₁))
    (hstructural : d.dirty.structural = false) {id : ObjectId} (hid : ¬ d.Rotates id) :
    d₁.view.lookup id = d.view.lookup id := by
  rcases h.lookup_materialized hm id with ⟨hsame, -⟩ | ⟨dict, hdict, hwritten⟩
  · exact hsame
  · have hnone : IncrementalDocument.editsAt id d.pendingEdits = [] := by
      refine IncrementalDocument.editsAt_eq_nil.2 fun edit hedit htarget => hid ?_
      exact htarget ▸ (Pending.unmoved hstructural (mem_pendingEdits.1 hedit)).2
    rw [hwritten, hnone, Dictionary.setAll_nil, hdict]

theorem Sound.materialized (h : Sound d pages) (hsafe : d.SaveSafe)
    (hm : d.materializeChanges = (.ok (), d₁)) : Sound d₁ pages := by
  obtain ⟨hsame, hprevious, hnew⟩ := materialized_same h.toGrounded hm
  have hroot : d₁.rootPagesId = d.rootPagesId := by rw [hsame]
  have hpages : d₁.pages = d.pages := by rw [hsame]
  have hdirty : d₁.dirty = d.dirty := by rw [hsame]
  have hsettled : d₁.Settled := by
    have := materializeChanges_settled h.settled
    rwa [hm] at this
  have htouched := (materializeChanges_edited h.settled hm).1.touched
  refine ⟨⟨?_, ?_, hsettled, ?_, ?_, ?_, ?_, ?_, ?_, ?_⟩, ?_, ?_⟩
  · rw [hprevious, hroot]
    exact h.tree
  · rw [hprevious]
    exact h.counted
  · rw [hprevious, hnew]
    exact h.grows
  · intro id hid
    rw [hnew]
    rcases htouched.lookup id with hkept | ⟨htarget, -⟩
    · rw [← Finmap.lookup_isSome, hkept, Finmap.lookup_isSome] at hid
      exact h.bounded id hid
    · obtain ⟨edit, hedit, rfl⟩ := List.mem_map.1 htarget
      exact h.settled.bounded _ (mem_pendingEdits.1 hedit).names
  · rw [hprevious, hnew]
    exact h.trailer
  · rw [hroot]
    rcases h.lookup_materialized hm d.rootPagesId with ⟨hkept, -⟩ | ⟨dict, -, hwritten⟩
    · rw [hkept]
      exact h.root
    · exact ⟨_, hwritten⟩
  · intro key hkids hcount
    rw [hroot, hprevious, h.entryOf_unwritten hm (h.lastWritten_root hkids hcount)]
    exact h.root_entry key hkids hcount
  · intro id hid key hkey
    rw [hprevious] at hid ⊢
    rw [h.entryOf_unwritten hm (lastWritten_kept hkey)]
    exact h.kept id hid key hkey
  · rw [hpages]
    exact fun slot hslot => h.backed_materialized hsafe hm hslot
  · rw [hpages, hdirty]
    exact h.flagged
  · intro hstructural
    rw [hdirty] at hstructural
    obtain ⟨hlive, hentry, hlookup⟩ := h.unmoved hstructural
    refine ⟨hpages ▸ hlive, ?_, ?_⟩
    · intro id key hkey
      have hlast : d.lastWritten id key = none := by
        rw [lastWritten_eq_none]
        exact fun value hpending => hkey (hpending.unmoved hstructural).1
      rw [hprevious, h.entryOf_unwritten hm hlast]
      exact hentry id key hkey
    · intro id hid
      rw [hpages] at hid
      rw [hprevious, h.lookup_unmoved hm hstructural]
      · exact hlookup id hid
      · rintro ⟨-, slot, hslot, hchanged, hsame⟩
        exact hid slot hslot hchanged hsame

/-! ### Reading a page back -/

/-- After a structural save a page carries what it brought. -/
theorem Grounded.entry_materialized (h : Grounded d pages) (hm : d.materializeChanges = (.ok (), d₁))
    (hstructural : d.dirty.structural = true) {slot : PageSlot} (hslot : slot ∈ d.pages.live)
    {key : String} (hkey : key ∈ inheritableKeys)
    (hturned : ¬ (key = "Rotate" ∧ d.Rotates slot.objectId)) (hfills : d.Fills slot.objectId key) :
    entryOf d₁.view slot.objectId key = d.attributeOf slot.objectId key := by
  have hknown : slot ∈ d.pages.known := List.mem_append_left _ hslot
  cases hlast : d.lastWritten slot.objectId key with
  | some value =>
    rw [h.entryOf_written hm hlast, (inherited_of_lastWritten hkey hturned hlast).2]
  | none =>
    rw [h.entryOf_unwritten hm hlast]
    rcases hfills with hcarries | ⟨hnone, hnonePrevious⟩
    · exact hcarries
    rw [hnone]
    rcases (h.backed slot hknown).origin with hpage | hcreated
    · rw [attributeOf_previous (h.mem_previous hpage)]
      cases hfound : findInheritedAttribute d.incremental.previous.objects slot.objectId key with
      | none => rfl
      | some value =>
        obtain ⟨dict, hdict⟩ := h.previous_dict hpage
        have hinherited := mem_inheritedAttributes.2
          ⟨h.mem_previous hpage, hkey, (carriesOwn_eq_false hdict).2 hnonePrevious, hfound⟩
        have hwritten := lastWritten_inherited hstructural hslot hinherited hturned
        rw [hlast] at hwritten
        cases hwritten
    · rw [attributeOf_created (h.not_mem_previous hcreated), hnone]

/-- A page under the flattened tree finds what it carries, or what the root does. -/
theorem Grounded.find_materialized (h : Grounded d pages) (hm : d.materializeChanges = (.ok (), d₁))
    (hstructural : d.dirty.structural = true) {slot : PageSlot} (hslot : slot ∈ d.pages.live)
    {key : String} (hkids : key ≠ "Kids") (hcount : key ≠ "Count") :
    findInheritedAttribute d₁.view slot.objectId key =
      (entryOf d₁.view slot.objectId key).or (entryOf d.view d.rootPagesId key) := by
  cases hentry : entryOf d₁.view slot.objectId key with
  | some value => exact findInheritedAttribute_of_entry hentry
  | none =>
    have hparent : parentOf d₁.view slot.objectId = some d.rootPagesId := by
      unfold parentOf
      rw [h.entryOf_written hm (lastWritten_parent hstructural hslot)]
      rfl
    have htop : parentOf d₁.view d.rootPagesId = none := by
      unfold parentOf
      rw [h.entryOf_unwritten hm (h.lastWritten_root (by decide) (by decide)),
        h.root_entry _ (by decide) (by decide)]
      exact h.tree.root_top
    rw [findInheritedAttribute_of_top hentry hparent htop, Option.none_or]
    exact h.entryOf_unwritten hm (h.lastWritten_root hkids hcount)

theorem Sound.size_moved (h : Sound d pages) (hsafe : d.SaveSafe)
    (hm : d.materializeChanges = (.ok (), d₁)) (hstructural : d.dirty.structural = true)
    {slot : PageSlot} (hslot : slot ∈ d.pages.live) :
    readPageSize d₁.view slot.objectId = slot.size := by
  have hbacked := h.backed slot (List.mem_append_left _ hslot)
  rw [readPageSize_eq, h.measuredSize_materialized hm, ← hbacked.size,
    h.find_materialized hm hstructural hslot (by decide) (by decide),
    h.entry_materialized hm hstructural hslot (by decide) (fun hrotate => absurd hrotate.1 (by decide))
      hbacked.box]
  cases hattribute : d.attributeOf slot.objectId "MediaBox" with
  | some value => rfl
  | none => exact hsafe.box hstructural slot hslot hattribute

theorem Sound.rotation_turned (h : Sound d pages) (hsafe : d.SaveSafe)
    (hm : d.materializeChanges = (.ok (), d₁)) {slot : PageSlot} (hslot : slot ∈ d.pages.live)
    (hrotates : d.Rotates slot.objectId) :
    readPageRotation d₁.view slot.objectId = slot.rotation := by
  rw [readPageRotation_eq, findInheritedAttribute_of_entry
    (h.turned_materialized hsafe hm (List.mem_append_left _ hslot) hrotates)]
  exact measureRotation_degrees d₁.view slot.rotation

omit [Lopdf] [LawfulDereference] in
theorem Sound.rotates (h : Sound d pages) {slot : PageSlot} (hslot : slot ∈ d.pages.live)
    (hchanged : slot.rotationChanged = true) : d.Rotates slot.objectId :=
  ⟨h.flagged slot (List.mem_append_left _ hslot) hchanged, slot, hslot, hchanged, rfl⟩

theorem Sound.rotation_moved (h : Sound d pages) (hsafe : d.SaveSafe)
    (hm : d.materializeChanges = (.ok (), d₁)) (hstructural : d.dirty.structural = true)
    {slot : PageSlot} (hslot : slot ∈ d.pages.live) :
    readPageRotation d₁.view slot.objectId = slot.rotation := by
  have hknown : slot ∈ d.pages.known := List.mem_append_left _ hslot
  have hbacked := h.backed slot hknown
  by_cases hrotates : d.Rotates slot.objectId
  · exact h.rotation_turned hsafe hm hslot hrotates
  have hchanged : ¬ slot.rotationChanged = true := fun hchanged => hrotates (h.rotates hslot hchanged)
  have hturned : ¬ ("Rotate" = "Rotate" ∧ d.Rotates slot.objectId) := fun hrotate => hrotates hrotate.2
  have hrotation := hbacked.rotation.resolve_left hchanged
  rw [readPageRotation_eq, h.measuredRotation_materialized hm,
    h.find_materialized hm hstructural hslot (by decide) (by decide)]
  rcases hbacked.rotate.resolve_left hchanged with hfills | hstated
  · rw [h.entry_materialized hm hstructural hslot (by decide) hturned hfills]
    cases hattribute : d.attributeOf slot.objectId "Rotate" with
    | some value =>
      rw [hattribute] at hrotation
      exact hrotation
    | none =>
      have hnone : entryOf d.view slot.objectId "Rotate" = none := by
        rcases hfills with hcarries | ⟨hnone, -⟩
        · rw [hcarries, hattribute]
        · exact hnone
      rw [hattribute] at hrotation
      rw [← hrotation]
      exact hsafe.rotate hstructural slot hslot hrotates hnone hattribute
  · cases hlast : d.lastWritten slot.objectId "Rotate" with
    | none =>
      rw [h.entryOf_unwritten hm hlast, hstated]
      exact measureRotation_degrees d.view slot.rotation
    | some value =>
      rw [h.entryOf_written hm hlast]
      rw [(inherited_of_lastWritten (by decide) hturned hlast).2] at hrotation
      exact hrotation

/-- Without a structural edit a page finds the box it did. -/
theorem Sound.size_unmoved (h : Sound d pages) (hm : d.materializeChanges = (.ok (), d₁))
    (hstructural : d.dirty.structural = false) {slot : PageSlot} (hslot : slot ∈ d.pages.live) :
    readPageSize d₁.view slot.objectId = slot.size := by
  obtain ⟨hlive, hentry, -⟩ := h.unmoved hstructural
  have hpage : slot.objectId ∈ pages := hlive ▸ List.mem_map_of_mem hslot
  have hentries : ∀ id key, key ≠ "Rotate" →
      entryOf d₁.view id key = entryOf d.incremental.previous.objects id key := by
    intro id key hkey
    rw [← hentry id key hkey]
    refine h.entryOf_unwritten hm (lastWritten_eq_none.2 fun value hpending => ?_)
    exact hkey (hpending.unmoved hstructural).1
  have hfound : findInheritedAttribute d₁.view slot.objectId "MediaBox" =
      d.attributeOf slot.objectId "MediaBox" := by
    rw [attributeOf_previous (h.mem_previous hpage)]
    refine findInheritedIn_congr _ (fun id => hentries id _ (by decide)) (fun id => ?_) _
    unfold parentOf
    rw [hentries id _ (by decide)]
  rw [readPageSize_eq, hfound, h.measuredSize_materialized hm]
  exact (h.backed slot (List.mem_append_left _ hslot)).size

/-- Going up from a page, the rotation found is the one it found in the file, or one a page above
it was turned to. -/
theorem Sound.find_unmoved (h : Sound d pages) (hsafe : d.SaveSafe)
    (hm : d.materializeChanges = (.ok (), d₁)) (hstructural : d.dirty.structural = false)
    {slot : PageSlot} (hslot : slot ∈ d.pages.live) (limit : Nat) {node : ObjectId}
    (hnode : Relation.ReflTransGen d.LooksUp slot.objectId node) :
    findInheritedIn d₁.view "Rotate" limit node =
        findInheritedIn d.incremental.previous.objects "Rotate" limit node ∨
      findInheritedIn d₁.view "Rotate" limit node = some (.integer slot.rotation.degrees) := by
  obtain ⟨hlive, hentry, hlookup⟩ := h.unmoved hstructural
  induction limit generalizing node with
  | zero => exact .inl rfl
  | succ limit ih =>
    rw [findInheritedIn_succ, findInheritedIn_succ]
    by_cases hrotates : d.Rotates node
    · obtain ⟨hrotations, turned, hturned, hchanged, rfl⟩ := hrotates
      obtain ⟨last, hlast, hlastChanged, hlastId, hwritten⟩ :=
        lastWritten_rotation hrotations hturned hchanged
      rw [hsafe.nested hstructural last hlast hlastChanged slot hslot (hlastId ▸ hnode),
        h.entryOf_written hm hwritten]
      exact .inr rfl
    · have hsame : d.view.lookup node = d.incremental.previous.objects.lookup node :=
        hlookup node fun other hother hchanged heq => hrotates (heq ▸ h.rotates hother hchanged)
      have hwritten : d₁.view.lookup node = d.incremental.previous.objects.lookup node :=
        (h.lookup_unmoved hm hstructural hrotates).trans hsame
      have hparent : parentOf d₁.view node = parentOf d.incremental.previous.objects node := by
        unfold parentOf
        rw [entryOf_congr hwritten]
      rw [entryOf_congr hwritten, hparent]
      cases hown : entryOf d.incremental.previous.objects node "Rotate" with
      | some value => exact .inl rfl
      | none =>
        rw [Option.none_or, Option.none_or]
        cases hup : parentOf d.incremental.previous.objects node with
        | none => exact .inl rfl
        | some parent =>
          refine ih (hnode.tail ⟨hrotates, ?_, ?_⟩)
          · rw [entryOf_congr hsame, hown]
          · unfold parentOf at hup ⊢
            rw [entryOf_congr hsame, hup]

theorem Sound.rotation_unmoved (h : Sound d pages) (hsafe : d.SaveSafe)
    (hm : d.materializeChanges = (.ok (), d₁)) (hstructural : d.dirty.structural = false)
    {slot : PageSlot} (hslot : slot ∈ d.pages.live) :
    readPageRotation d₁.view slot.objectId = slot.rotation := by
  by_cases hrotates : d.Rotates slot.objectId
  · exact h.rotation_turned hsafe hm hslot hrotates
  have hpage : slot.objectId ∈ pages :=
    (h.unmoved hstructural).live ▸ List.mem_map_of_mem hslot
  have hrotation := (h.backed slot (List.mem_append_left _ hslot)).rotation.resolve_left
    fun hchanged => hrotates (h.rotates hslot hchanged)
  rw [attributeOf_previous (h.mem_previous hpage)] at hrotation
  rw [readPageRotation_eq]
  rcases h.find_unmoved hsafe hm hstructural hslot parentChainLimit .refl with hsame | hturned
  · rw [findInheritedAttribute, hsame, h.measuredRotation_materialized hm]
    exact hrotation
  · rw [findInheritedAttribute, hturned]
    exact measureRotation_degrees d₁.view slot.rotation

/-! ### The page tree read back -/

/-- The catalog still names the root of the page tree. -/
theorem Grounded.catalog_materialized (h : Grounded d pages)
    (hm : d.materializeChanges = (.ok (), d₁)) : ∃ catalogId catalog node,
      Dictionary.get d.incremental.previous.trailer "Root" = some (.reference catalogId) ∧
      d₁.view.lookup catalogId = some (.dictionary catalog) ∧
      Dictionary.get catalog "Pages" = some (.reference d.rootPagesId) ∧
      d₁.view.lookup d.rootPagesId = some (.dictionary node) := by
  obtain ⟨catalogId, catalog, _, hcatalogId, hcatalog, hpages, -, -⟩ := h.tree.walks
  have hentry : entryOf d₁.view catalogId "Pages" = some (.reference d.rootPagesId) := by
    rw [h.entryOf_unwritten hm (lastWritten_kept (by decide)),
      h.kept catalogId (Finmap.mem_of_lookup_eq_some hcatalog) _ (by decide),
      entryOf_of_lookup hcatalog, hpages]
  obtain ⟨catalog', hcatalog', hpages'⟩ := lookup_of_entryOf hentry
  obtain ⟨node, hnode⟩ : ∃ node, d₁.view.lookup d.rootPagesId = some (.dictionary node) := by
    rcases h.lookup_materialized hm d.rootPagesId with ⟨hsame, -⟩ | ⟨dict, -, hwritten⟩
    · rw [hsame]
      exact h.root
    · exact ⟨_, hwritten⟩
  exact ⟨catalogId, catalog', node, hcatalogId, hcatalog', hpages', hnode⟩

/-- The flattened tree lists the pages in order. -/
theorem Sound.walks_moved (h : Sound d pages) (hm : d.materializeChanges = (.ok (), d₁))
    (hstructural : d.dirty.structural = true) {node : Dictionary}
    (hnode : d₁.view.lookup d.rootPagesId = some (.dictionary node)) :
    Walks d₁.view {d.rootPagesId} (kidsOf d₁.view node) (d.pages.live.map PageSlot.objectId) := by
  have hkids : Dictionary.get node "Kids" = some (.array d.flatKids) := by
    rw [← entryOf_of_lookup hnode]
    exact h.entryOf_written hm (lastWritten_kids hstructural)
  have htype : ∀ slot ∈ d.pages.live, statedType d₁.view slot.objectId = some "Page" := by
    intro slot hslot
    rw [statedType_page, h.entryOf_unwritten hm (lastWritten_kept (by decide))]
    exact (h.backed slot (List.mem_append_left _ hslot)).type
  unfold kidsOf
  rw [hkids]
  dsimp only
  unfold flatKids
  generalize d.pages.live = slots at htype ⊢
  induction slots with
  | nil => exact .nil
  | cons slot slots ih =>
    exact .page (htype slot List.mem_cons_self) (ih fun later hlater =>
      htype later (List.mem_cons_of_mem _ hlater))

/-- Without a structural edit the walk comes to the same pages. -/
theorem Sound.walks_unmoved (h : Sound d pages) (hm : d.materializeChanges = (.ok (), d₁))
    (hstructural : d.dirty.structural = false) {node : Dictionary}
    (hnode : d₁.view.lookup d.rootPagesId = some (.dictionary node)) :
    Walks d₁.view {d.rootPagesId} (kidsOf d₁.view node) (d.pages.live.map PageSlot.objectId) := by
  obtain ⟨hlive, hentry, hlookup⟩ := h.unmoved hstructural
  have hstated : ∀ id, statedType d₁.view id = statedType d.incremental.previous.objects id := by
    intro id
    rw [statedType_eq, statedType_eq, h.entryOf_unwritten hm (lastWritten_kept (by decide)),
      hentry id _ (by decide)]
  have hother : ∀ id, statedType d.incremental.previous.objects id ≠ some "Page" →
      d₁.view.lookup id = d.incremental.previous.objects.lookup id := by
    intro id hid
    have hpage : ∀ slot ∈ d.pages.live, slot.objectId ≠ id := by
      rintro slot hslot rfl
      exact hid (h.tree.stated _ (hlive ▸ List.mem_map_of_mem hslot))
    rw [h.lookup_unmoved hm hstructural (fun hrotates => ?_)]
    · exact hlookup id fun slot hslot _ => hpage slot hslot
    · obtain ⟨-, slot, hslot, -, heq⟩ := hrotates
      exact hpage slot hslot heq
  have hcarries : Carries (fun target => target) (fun _ => True) d.incremental.previous.objects
      d₁.view :=
    ⟨fun _ _ heq => heq, fun _ _ _ _ => trivial, fun id _ => hstated id, fun id _ hid => by
      rw [hother id hid]
      exact (map_rename_id _).symm⟩
  obtain ⟨-, -, node', -, -, -, hnode', hwalk⟩ := h.tree.walks
  obtain rfl : node = node' := by
    rw [hother _ h.tree.root_page, hnode'] at hnode
    cases hnode
    rfl
  have hwalk' := hcarries.walks hwalk fun _ _ => trivial
  have hkids := hcarries.kidsOf hnode' trivial
  have hitems : ∀ items, Object.renameItems (fun target => target) items = items := Object.renameItems_id
  have hentries : Object.renameEntries (fun target => target) node = node := Object.renameEntries_id node
  rw [hentries] at hkids
  rw [← hkids, Finset.image_id', List.map_id', ← hlive] at hwalk'
  exact hwalk'

/-- A file that holds what a save writes lists the pages of the document. -/
theorem Sound.properTree (h : Sound d pages) (hm : d.materializeChanges = (.ok (), d₁))
    {file : LopdfDocument} (hobjects : file.objects = d₁.view)
    (htrailer : Dictionary.get file.trailer "Root" =
      Dictionary.get d.incremental.previous.trailer "Root") :
    ProperTree file d.rootPagesId (d.pages.live.map PageSlot.objectId) := by
  obtain ⟨catalogId, catalog, node, hcatalogId, hcatalog, hpages, hnode⟩ :=
    h.catalog_materialized hm
  rw [← htrailer] at hcatalogId
  have hroot : ∀ key, key ≠ "Kids" → key ≠ "Count" → entryOf d₁.view d.rootPagesId key =
      entryOf d.incremental.previous.objects d.rootPagesId key := fun key hkids hcount =>
    (h.entryOf_unwritten hm (h.lastWritten_root hkids hcount)).trans (h.root_entry key hkids hcount)
  refine ⟨⟨catalogId, catalog, node, hcatalogId, ?_, hpages, ?_, ?_⟩, ?_, ?_⟩
  · rw [hobjects, hcatalog]
  · rw [hobjects, hnode]
  · rw [hobjects]
    cases hstructural : d.dirty.structural with
    | true => exact h.walks_moved hm hstructural hnode
    | false => exact h.walks_unmoved hm hstructural hnode
  · rw [hobjects, statedType_eq, hroot _ (by decide) (by decide), ← statedType_eq]
    exact h.tree.root_page
  · unfold parentOf
    rw [hobjects, hroot _ (by decide) (by decide)]
    exact h.tree.root_top

/-- A file that holds what a safe save writes shows the pages of the document. -/
theorem Sound.depicts (h : Sound d pages) (hsafe : d.SaveSafe)
    (hm : d.materializeChanges = (.ok (), d₁)) {file : LopdfDocument} (hobjects : file.objects = d₁.view)
    (htrailer : Dictionary.get file.trailer "Root" =
      Dictionary.get d.incremental.previous.trailer "Root") :
    Depicts file d.rootPagesId d.pages.live := by
  refine ⟨h.properTree hm hobjects htrailer, fun slot hslot => ?_, fun slot hslot => ?_⟩
  · rw [hobjects]
    cases hstructural : d.dirty.structural with
    | true => exact h.size_moved hsafe hm hstructural hslot
    | false => exact h.size_unmoved hm hstructural hslot
  · rw [hobjects]
    cases hstructural : d.dirty.structural with
    | true => exact h.rotation_moved hsafe hm hstructural hslot
    | false => exact h.rotation_unmoved hsafe hm hstructural hslot

end Written
end PdfDocument
end OpdfEditor
