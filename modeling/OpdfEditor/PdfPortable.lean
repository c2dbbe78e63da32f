import OpdfEditor.CarriedBox
import OpdfEditor.PdfBinding
import OpdfEditor.PdfReopening
import OpdfEditor.RunExtraction
import OpdfEditor.WalkingLopdf

/-!
Two ways into a document. Imported directly, a page shows the size its slot has in the
source; carried, it shows what the copy of its box measures in the scratch document.
-/
namespace OpdfEditor

/-! ### Imports that come out the same -/

section Imports

variable {D : Type} [Document D] [LawfulDocument D]

/-- Two imports into a document came out the same: the same identities, in the same page list, at the
same revision. -/
structure SameImport (newIds newIds' : List PageId) (d d' : D) : Prop where
  ids : newIds' = newIds
  live : (roster d').live = (roster d).live
  revision : Document.revision d' = Document.revision d

omit [Document D] [LawfulDocument D] in
/-- A page under a new identity keeps its looks and nothing else. -/
theorem zipWith_withId (pages : List PageInfo) (ids : List PageId) :
    List.zipWith PageInfo.withId pages ids =
      List.zipWith (fun looks id => ⟨id, looks.1, looks.2⟩) (pages.map PageInfo.geometry) ids := by
  rw [List.zipWith_map_left]
  rfl

/-- Imports at one place come out the same exactly when the pages brought in look the same. -/
theorem sameImport_iff {source source' d e e' : D} {ids ids' newIds newIds' : List PageId}
    {atIndex : Nat} {pages pages' : List PageInfo}
    (h : Document.importPages source ids atIndex d = (.ok newIds, e))
    (h' : Document.importPages source' ids' atIndex d = (.ok newIds', e'))
    (hpages : ids.mapM (Document.page · source) = .ok pages)
    (hpages' : ids'.mapM (Document.page · source') = .ok pages') :
    SameImport newIds newIds' e e' ↔ pages'.map PageInfo.geometry = pages.map PageInfo.geometry := by
  obtain ⟨-, hrevision, -⟩ := LawfulDocument.importPages_ok _ _ _ _ _ _ h
  obtain ⟨-, hrevision', -⟩ := LawfulDocument.importPages_ok _ _ _ _ _ _ h'
  obtain ⟨_, hfound, -, hids, hlive, -⟩ := importPages_live h
  obtain ⟨_, hfound', -, hids', hlive', -⟩ := importPages_live h'
  obtain rfl := Except.ok.inj (hpages.symm.trans hfound)
  obtain rfl := Except.ok.inj (hpages'.symm.trans hfound')
  constructor
  · rintro ⟨hsame, hsameLive, -⟩
    rw [hids, hids'] at hsame
    have hlength : pages'.length = pages.length := by simpa using congrArg List.length hsame
    rw [hlive, hlive', List.append_left_inj, List.append_right_inj] at hsameLive
    have hlooks := congrArg (List.map PageInfo.geometry) hsameLive
    rwa [map_geometry_zipWith (by simp), map_geometry_zipWith (by simp)] at hlooks
  · intro hlooks
    have hlength : pages'.length = pages.length := by simpa using congrArg List.length hlooks
    refine ⟨?_, ?_, hrevision'.trans hrevision.symm⟩
    · rw [hids, hids', hlength]
    · rw [hlive, hlive', zipWith_withId, zipWith_withId, hlooks, hlength]

end Imports

/-- Whether some object states that it is a page. -/
def LopdfDocument.HoldsPage (file : LopdfDocument) : Prop :=
  ∃ id ∈ file.objects, statedType file.objects id = some "Page"

instance (file : LopdfDocument) : Decidable file.HoldsPage :=
  decidable_of_iff (∃ id ∈ file.objects.keys, statedType file.objects id = some "Page")
    (exists_congr fun id => by rw [Finmap.mem_keys])

/-- What is read back in is what was written, with its object numbers counted, if it holds a page. -/
def SaveEnv.FaithfulOnPages (env : SaveEnv) : Prop :=
  ∀ written file, written.HoldsPage → env.parse written = .ok file →
    written.ReadsBackAs file ∧ file.Counted

namespace PdfDocument

variable [Lopdf]

/-! ### Pages gathered at the end of a document -/

/-- The slot of a page brought in, and what is behind it. -/
structure Arrives (source objects : Objects) (slot : PageSlot) (mapping : IdMapping)
    (added : PageSlot) : Prop where
  entry : (slot.objectId, added.objectId) ∈ mapping
  rotation : added.rotation = slot.rotation
  turned : added.rotationChanged = true
  type : entryOf objects added.objectId "Type" = some (.name "Page")
  box : entryOf objects added.objectId "MediaBox" =
    (findInheritedAttribute source slot.objectId "MediaBox").map (Object.rename mapping.apply)

/-- What bringing pages in at the end of a document adds to it. -/
structure Gathered (source : Objects) (slots : List PageSlot) (mappings : List IdMapping)
    (d d' : PdfDocument) : Prop where
  grown : Grown d d'
  trailer : d'.incremental.newDocument.trailer = d.incremental.newDocument.trailer
  removed : d'.pages.removed = d.pages.removed
  settled : d.Settled → d'.Settled
  live : ∃ added, d'.pages.live = d.pages.live ++ added ∧ (added.map PageSlot.objectId).Nodup ∧
    List.Forall₂ (fun carried => Arrives source d'.view carried.1 carried.2)
      (slots.zip mappings) added
  nodup : ∀ mapping ∈ mappings, (mapping.map Prod.fst).Nodup
  fresh : ∀ mapping ∈ mappings, ∀ id ∈ mapping.map Prod.snd,
    d.incremental.newDocument.maxId < id.1 ∧ id.1 ≤ d'.incremental.newDocument.maxId
  copied : ∀ mapping ∈ mappings, ∀ entry ∈ mapping, Interchangeable
    ((source.lookup entry.1).map (Object.rename mapping.apply)) (d'.view.lookup entry.2)
  other : ∀ id, (∀ mapping ∈ mappings, id ∉ mapping.map Prod.snd) →
    d'.view.lookup id = d.view.lookup id

omit [Lopdf] in
theorem Arrives.mem {source objects : Objects} {slot added : PageSlot} {mapping : IdMapping}
    (h : Arrives source objects slot mapping added) : added.objectId ∈ mapping.map Prod.snd :=
  List.mem_map.2 ⟨_, h.entry, rfl⟩

omit [Lopdf] in
theorem Arrives.grown {source : Objects} {d d' : PdfDocument} {slot added : PageSlot}
    {mapping : IdMapping} (h : Arrives source d.view slot mapping added) (hgrown : Grown d d')
    (hid : added.objectId.1 ≤ d.incremental.newDocument.maxId) :
    Arrives source d'.view slot mapping added := by
  refine ⟨h.entry, h.rotation, h.turned, ?_, ?_⟩
  · rw [hgrown.entryOf hid]
    exact h.type
  · rw [hgrown.entryOf hid]
    exact h.box

omit [Lopdf] in
theorem Gathered.nil (source : Objects) (d : PdfDocument) : Gathered source [] [] d d where
  grown := .of_same rfl rfl
  trailer := rfl
  removed := rfl
  settled := fun hsettled => hsettled
  live := ⟨[], (List.append_nil _).symm, List.nodup_nil, .nil⟩
  nodup mapping hmapping := by cases hmapping
  fresh mapping hmapping := by cases hmapping
  copied mapping hmapping := by cases hmapping
  other _ _ := rfl

omit [Lopdf] in
/-- Every page brought in is one of those asked for, as one of the copies holds it. -/
theorem exists_arrives {source objects : Objects} {slots added : List PageSlot}
    {mappings : List IdMapping}
    (h : List.Forall₂ (fun carried => Arrives source objects carried.1 carried.2)
      (slots.zip mappings) added) {slot : PageSlot} (hslot : slot ∈ added) :
    ∃ asked, ∃ mapping ∈ mappings, Arrives source objects asked mapping slot := by
  generalize hpairs : slots.zip mappings = pairs at h
  have hmem : ∀ pair ∈ pairs, pair.2 ∈ mappings := fun pair hpair =>
    (List.of_mem_zip (hpairs ▸ hpair)).2
  clear hpairs
  induction h with
  | nil => cases hslot
  | @cons pair first pairs added harrives _ ih =>
    rcases List.mem_cons.1 hslot with rfl | hslot
    · exact ⟨pair.1, pair.2, hmem pair List.mem_cons_self, harrives⟩
    · exact ih hslot fun pair hpair => hmem pair (List.mem_cons_of_mem _ hpair)

omit [Lopdf] in
/-- Bringing in one page and then others is bringing in all of them. -/
theorem Gathered.cons {source : Objects} {slot : PageSlot} {slots : List PageSlot}
    {mapping : IdMapping} {mappings : List IdMapping} {d d₁ d' : PdfDocument}
    (h : Gathered source [slot] [mapping] d d₁) (h' : Gathered source slots mappings d₁ d') :
    Gathered source (slot :: slots) (mapping :: mappings) d d' := by
  obtain ⟨added, hlive, hadded, hfirst⟩ := h.live
  obtain ⟨rest, hlive', hrest, hothers⟩ := h'.live
  have hearly : ∀ id ∈ mapping.map Prod.snd, d.incremental.newDocument.maxId < id.1 ∧
      id.1 ≤ d₁.incremental.newDocument.maxId := h.fresh mapping List.mem_cons_self
  obtain _ | ⟨harrives, _ | _⟩ := hfirst
  rename_i first
  refine ⟨h.grown.trans h'.grown, h'.trailer.trans h.trailer, h'.removed.trans h.removed,
    fun hsettled => h'.settled (h.settled hsettled), ⟨first :: rest, ?_, ?_, ?_⟩, ?_, ?_, ?_, ?_⟩
  · rw [hlive', hlive, List.append_assoc]
    rfl
  · refine List.nodup_cons.2 ⟨fun hmem => ?_, hrest⟩
    -- pages brought in later have later numbers
    obtain ⟨later, hlater, hid⟩ := List.mem_map.1 hmem
    obtain ⟨_, mapping', hmapping', harrives'⟩ := exists_arrives hothers hlater
    have hfirstId := (hearly _ harrives.mem).2
    have hlaterId := (h'.fresh mapping' hmapping' _ harrives'.mem).1
    rw [hid] at hlaterId
    omega
  · exact .cons (harrives.grown h'.grown (hearly _ harrives.mem).2) hothers
  · intro other hother
    rcases List.mem_cons.1 hother with rfl | hother
    · exact h.nodup _ List.mem_cons_self
    · exact h'.nodup other hother
  · intro other hother id hid
    have hle := h.grown.maxId
    have hle' := h'.grown.maxId
    rcases List.mem_cons.1 hother with rfl | hother
    · obtain ⟨hlow, hhigh⟩ := hearly id hid
      omega
    · obtain ⟨hlow, hhigh⟩ := h'.fresh other hother id hid
      omega
  · intro other hother entry hentry
    rcases List.mem_cons.1 hother with rfl | hother
    · rw [h'.grown.lookup_view (hearly _ (List.mem_map.2 ⟨_, hentry, rfl⟩)).2]
      exact h.copied _ List.mem_cons_self entry hentry
    · exact h'.copied other hother entry hentry
  · intro id hid
    rw [h'.other id fun other hother => hid other (List.mem_cons_of_mem _ hother)]
    refine h.other id fun other hother => hid other ?_
    rw [List.mem_singleton.1 hother]
    exact List.mem_cons_self

section

variable [LawfulDereference] {source : Objects}

/-- One round of an import gathers one page. -/
theorem ImportStep.gathered {slot : PageSlot} {d d₁ : PdfDocument} {id : PageId}
    (hstep : ImportStep source slot d.pages.live.length d id d₁)
    (hpage : ∀ object, source.lookup slot.objectId = some object → object.asDict.isSome = true →
      IsPage object) :
    Gathered source [slot] [(copyMapping source slot.objectId d.incremental.newDocument).1] d d₁ := by
  obtain ⟨dict, copied, before, after, hdict, hcopied, hlive, hlength, hlive'⟩ := hstep.copies_next
  obtain ⟨numbered, hassigned, hmaxId⟩ := hcopied.assigned
  obtain rfl : after = [] := by
    have hlengths := congrArg List.length hlive
    rw [List.length_append, hlength] at hlengths
    exact List.eq_nil_of_length_eq_zero (by omega)
  rw [List.append_nil] at hlive
  subst hlive
  have hview : Within d₁.incremental.newDocument.objects d₁.view :=
    fun id object => IncrementalDocument.lookup_view_of_new
  have hentry : ∀ key, entryOf d₁.view copied key =
      entryOf d₁.incremental.newDocument.objects copied key := fun key =>
    entryOf_congr ((hview _ _ hcopied.detached).trans hcopied.detached.symm) key
  obtain ⟨_, ⟨⟩, htype⟩ := hpage _ hdict rfl
  refine ⟨hstep.grown, hcopied.trailer, hstep.keeps.removed, hstep.settled,
    ⟨_, hlive', List.nodup_singleton _, .cons ⟨hcopied.entry, rfl, rfl, ?_, ?_⟩ .nil⟩, ?_, ?_, ?_, ?_⟩
  · rw [hentry, hcopied.entryOf hdict (by decide), htype]
    rfl
  · rw [hentry]
    exact hcopied.entryOf_inherited hdict (by decide)
  · intro mapping hmapping
    rw [List.mem_singleton.1 hmapping]
    exact hassigned.nodup
  · intro mapping hmapping id hid
    rw [List.mem_singleton.1 hmapping] at hid
    rw [hmaxId]
    exact (hassigned.numbered.fresh id hid).2
  · intro mapping hmapping entry hmem
    obtain rfl := List.mem_singleton.1 hmapping
    have hmoved := hcopied.moved hdict hview (List.mem_map.2 ⟨entry, hmem, rfl⟩)
    rw [IdMapping.apply_of_entry hassigned.nodup hmem] at hmoved
    exact hmoved.2
  · intro id hid
    unfold view
    rw [IncrementalDocument.lookup_view, IncrementalDocument.lookup_view, hstep.keeps.previous,
      hcopied.other id (hid _ List.mem_cons_self)]

/-- The numbers it hands out are those of the page's own copy. -/
theorem ImportStep.handedOut {slot : PageSlot} {atIndex : Nat} {d d₁ : PdfDocument} {id : PageId}
    (hstep : ImportStep source slot atIndex d id d₁) (pages : List ObjectId) :
    handedOut source (slot.objectId :: pages) d.incremental.newDocument.maxId =
      (copyMapping source slot.objectId d.incremental.newDocument).1 ::
        OpdfEditor.handedOut source pages d₁.incremental.newDocument.maxId := by
  obtain ⟨dict, hdict⟩ := isCopyable_of_step hstep
  rw [handedOut_cons, copyMapping_maxId hdict, hstep.handsOut.1]

/-- An import at the end of a document gathers the pages there. -/
theorem importResolved_gathered {slots : List PageSlot} {d d' : PdfDocument} {ids : List PageId}
    (hpages : ∀ slot ∈ slots, ∀ object, source.lookup slot.objectId = some object →
      object.asDict.isSome = true → IsPage object)
    (h : importResolved source slots d.pages.live.length d = (.ok ids, d')) :
    Gathered source slots (handedOut source (slots.map PageSlot.objectId)
      d.incremental.newDocument.maxId) d d' := by
  induction slots generalizing d ids with
  | nil =>
    cases h
    exact .nil source _
  | cons slot slots ih =>
    rcases importResolved_cons source slot slots d (Nat.le_refl _) with ⟨-, heq⟩ | ⟨id, d₁, hstep, heq⟩
    · rw [heq] at h
      cases h
    · rw [heq] at h
      rcases hrest : importResolved source slots (d.pages.live.length + 1) d₁ with ⟨e | rest, d₂⟩
      · simp [hrest, Except.map] at h
      · simp only [hrest, Except.map, Prod.mk.injEq, Except.ok.injEq] at h
        obtain ⟨-, rfl⟩ := h
        rw [← hstep.length.1] at hrest
        rw [List.map_cons, hstep.handedOut]
        exact (hstep.gathered (hpages slot List.mem_cons_self)).cons
          (ih (fun later hlater => hpages later (List.mem_cons_of_mem _ hlater)) hrest)

end

/-! ### The scratch document -/

/-- What is relied on of a document created from nothing, numbered so far. -/
structure Blank (maxId : Nat) (d : PdfDocument) : Prop where
  sound : Sound d []
  removed : d.pages.removed = []
  live : d.pages.live = []
  barren : ∀ id, Barren (d.view.lookup id)
  maxId : d.incremental.newDocument.maxId = maxId
  root : ∀ key ∈ ["MediaBox", "Rotate"], entryOf d.view d.rootPagesId key = none

theorem blank_of_empty [LawfulLopdf] {env : SaveEnv} {id : DocumentId} {file : LopdfDocument}
    {root : ObjectId} {d : PdfDocument} (hparse : env.parse buildEmptyDocument = .ok file)
    (hpageless : Pageless file root) (h : empty env id = .ok d) : Blank file.maxId d := by
  have hsettled := (Starts.created hparse hpageless h).settled
  obtain ⟨hroot, hpages, hincremental, -⟩ := empty_eq_ok hparse hpageless h
  have hview := view_of_load hincremental
  have hlive : d.pages.live = [] := by
    rw [hpages]
    rfl
  have hdepicts : Depicts file d.rootPagesId d.pages.live := by
    rw [hlive, hroot]
    exact ⟨hpageless.toProperTree, by simp, by simp⟩
  have hremoved : d.pages.removed = [] := by
    rw [hpages]
    rfl
  have hsound := sound_of_depicts hdepicts hpageless.counted hsettled hincremental hremoved
    fun slot hslot => by
      rw [hlive] at hslot
      cases hslot
  rw [hlive] at hsound
  refine ⟨hsound, hremoved, hlive, ?_, ?_, ?_⟩
  · rw [hview]
    exact hpageless.barren
  · rw [hincremental]
    rfl
  · rw [hview, hroot]
    exact hpageless.unstated

def remeasure (d : PdfDocument) (slot : PageSlot) : PageSlot :=
  { slot with size := measuredSize d.view (d.attributeOf slot.objectId "MediaBox") }

omit [Lopdf] in
theorem pageId_remeasure (d : PdfDocument) (slot : PageSlot) :
    pageId (d.remeasure slot) = pageId slot := rfl

/-- The document as it is, the sizes of its pages as their boxes measure. -/
def remeasured (d : PdfDocument) : PdfDocument :=
  { d with pages := d.pages.map d.remeasure d.pageId_remeasure }

/-- Nothing that is saved depends on the sizes of slots. -/
theorem remeasured_pendingEdits (d : PdfDocument) : d.remeasured.pendingEdits = d.pendingEdits := by
  simp [pendingEdits, inheritedEdits, pageTreeEdits, rotationEdits, flatKids, remeasured, remeasure,
    List.flatMap_map, List.filter_map, Function.comp_def]

/-- The sizes that slots show have no part in what a save writes. -/
theorem remeasured_materialize {d d₁ : PdfDocument} (h : d.materializeChanges = (.ok (), d₁)) :
    d.remeasured.materializeChanges = (.ok (), { d.remeasured with incremental := d₁.incremental }) := by
  unfold materializeChanges at h ⊢
  rw [remeasured_pendingEdits]
  rcases happly : d.incremental.applyEdits d.pendingEdits with ⟨result, incremental⟩
  rw [happly] at h
  cases h
  have hsame : d.remeasured.incremental = d.incremental := rfl
  rw [hsame, happly]

section Scratch

variable {source : Objects} {slots : List PageSlot} {mappings : List IdMapping} {maxId : Nat}
  {s d : PdfDocument}

omit [Lopdf] in
theorem Gathered.holds (h : Gathered source slots mappings s d) (hblank : Blank maxId s) :
    Holds source mappings d.view where
  nodup := h.nodup
  copied := h.copied
  other id hid := by
    rw [h.other id hid]
    exact hblank.barren id

omit [Lopdf] in
theorem Gathered.created (h : Gathered source slots mappings s d) (hblank : Blank maxId s)
    {mapping : IdMapping} (hmapping : mapping ∈ mappings) {id : ObjectId}
    (hid : id ∈ mapping.map Prod.snd) : d.incremental.previous.maxId < id.1 := by
  rw [h.grown.previous]
  exact hblank.sound.grows.trans_lt (h.fresh mapping hmapping id hid).1

omit [Lopdf] in
theorem Gathered.attributeOf (h : Gathered source slots mappings s d) (hblank : Blank maxId s)
    {mapping : IdMapping} (hmapping : mapping ∈ mappings) {id : ObjectId}
    (hid : id ∈ mapping.map Prod.snd) (key : String) : d.attributeOf id key = entryOf d.view id key := by
  refine attributeOf_created ?_ key
  have hcreated := h.created hblank hmapping hid
  rw [h.grown.previous] at hcreated ⊢
  exact hblank.sound.not_mem_previous hcreated

omit [Lopdf] in
/-- A page brought in measures what it measures as it was carried. -/
theorem Gathered.measures (h : Gathered source slots mappings s d) (hblank : Blank maxId s)
    {mapping : IdMapping} (hmapping : mapping ∈ mappings) {asked added : PageSlot}
    (harrives : Arrives source d.view asked mapping added) :
    (d.remeasure added).size = carriedSize source mappings mapping asked.objectId := by
  unfold remeasure
  rw [h.attributeOf hblank hmapping harrives.mem, harrives.box]
  exact (h.holds hblank).measuredSize hmapping asked.objectId

omit [Lopdf] in
theorem Gathered.remeasured_known (h : Gathered source slots mappings s d) (hblank : Blank maxId s) :
    ∃ added, d.remeasured.pages.live = added.map d.remeasure ∧
      d.remeasured.pages.known = added.map d.remeasure ∧ (added.map PageSlot.objectId).Nodup ∧
      List.Forall₂ (fun carried => Arrives source d.view carried.1 carried.2)
        (slots.zip mappings) added := by
  obtain ⟨added, hlive, hnodup, harrivals⟩ := h.live
  have hremoved : d.pages.removed = [] := h.removed.trans hblank.removed
  rw [hblank.live, List.nil_append] at hlive
  refine ⟨added, ?_, ?_, hnodup, harrivals⟩
  · simp [remeasured, hlive]
  · simp [Roster.known, remeasured, hlive, hremoved]

omit [Lopdf] in
theorem Gathered.arrived (h : Gathered source slots mappings s d) (hblank : Blank maxId s) {slot : PageSlot}
    (hslot : slot ∈ d.remeasured.pages.known) : ∃ asked, ∃ mapping ∈ mappings, ∃ added,
      slot = d.remeasure added ∧ Arrives source d.view asked mapping added := by
  obtain ⟨added, -, hknown, -, harrivals⟩ := h.remeasured_known hblank
  rw [hknown] at hslot
  obtain ⟨arrived, harrived, rfl⟩ := List.mem_map.1 hslot
  obtain ⟨asked, mapping, hmapping, harrives⟩ := exists_arrives harrivals harrived
  exact ⟨asked, mapping, hmapping, arrived, rfl, harrives⟩

omit [Lopdf] in
/-- With the sizes their boxes measure, the pages brought in are sound. -/
theorem Gathered.sound (h : Gathered source slots mappings s d) (hblank : Blank maxId s)
    (hdirty : d.dirty = ⟨true, true⟩) : Sound d.remeasured [] := by
  have hgrown : Grown s d.remeasured := h.grown.trans (.of_same rfl rfl)
  have hsettled : d.remeasured.Settled := by
    refine (h.settled hblank.sound.settled).of_same rfl ?_
    rintro id (hroot | ⟨slot, hslot, hid⟩)
    · exact .inl hroot
    · obtain ⟨added, hadded, rfl⟩ : ∃ added ∈ d.pages.known, d.remeasure added = slot := by
        simpa [Roster.known, remeasured, or_and_right, exists_or] using hslot
      exact .inr ⟨added, hadded, hid⟩
  refine ⟨hblank.sound.grow hgrown h.trailer hsettled fun slot hslot => ?_, ?_, ?_⟩
  · obtain ⟨asked, mapping, hmapping, added, rfl, harrives⟩ := h.arrived hblank hslot
    exact ⟨.inr (h.created hblank hmapping harrives.mem), harrives.type,
      .inl (h.attributeOf hblank hmapping harrives.mem _).symm, .inl harrives.turned, rfl,
      .inl harrives.turned⟩
  · intro slot _ _
    exact congrArg DirtyState.rotations hdirty
  · intro hstructural
    have htrue : d.dirty.structural = true := congrArg DirtyState.structural hdirty
    exact absurd (htrue.symm.trans hstructural) (by decide)

omit [Lopdf] in
/-- A document gathered from nothing is safe to save. -/
theorem Gathered.saveSafe (h : Gathered source slots mappings s d) (hblank : Blank maxId s)
    (hdirty : d.dirty = ⟨true, true⟩) : d.remeasured.SaveSafe where
  box _ _ _ _ := by
    have hroot : entryOf d.view d.rootPagesId "MediaBox" = none := by
      rw [h.grown.rootPagesId, h.grown.entryOf (hblank.sound.settled.bounded _ (.inl rfl))]
      exact hblank.root _ List.mem_cons_self
    exact congrArg (measuredSize d.view) hroot
  rotate _ slot hslot hnot _ _ := by
    obtain ⟨asked, mapping, -, added, rfl, harrives⟩ :=
      h.arrived hblank (List.mem_append_left _ hslot)
    exact absurd ⟨congrArg DirtyState.rotations hdirty, _, hslot, harrives.turned, rfl⟩ hnot
  shared turned hturned _ slot hslot hsame := by
    obtain ⟨added, -, hknown, hnodup, -⟩ := h.remeasured_known hblank
    have hdistinct : (d.remeasured.pages.known.map PageSlot.objectId).Nodup := by
      rw [hknown, List.map_map]
      exact hnodup
    rw [List.inj_on_of_nodup_map hdistinct hslot (List.mem_append_left _ hturned) hsame]
  nested hstructural := by
    have htrue : d.dirty.structural = true := congrArg DirtyState.structural hdirty
    exact absurd (htrue.symm.trans hstructural) (by decide)

/-- A list of pages as the copies of their boxes measure them. -/
def carriedPages (source : Objects) (slots : List PageSlot) (mappings : List IdMapping) :
    List (PageSize × Rotation) :=
  (slots.zip mappings).map fun carried =>
    (carriedSize source mappings carried.2 carried.1.objectId, carried.1.rotation)

omit [Lopdf] in
theorem length_carriedPages (source : Objects) (slots : List PageSlot) (maxId : Nat) :
    (carriedPages source slots (handedOut source (slots.map PageSlot.objectId) maxId)).length =
      slots.length := by
  rw [carriedPages, List.length_map, List.length_zip, length_handedOut, List.length_map, Nat.min_self]

omit [Lopdf] in
/-- Measured again, it shows the pages carried. -/
theorem Gathered.shown (h : Gathered source slots mappings s d) (hblank : Blank maxId s) :
    d.remeasured.pages.live.map PageSlot.shown = carriedPages source slots mappings := by
  obtain ⟨added, hlive, -, -, harrivals⟩ := h.remeasured_known hblank
  have hmappings : ∀ carried ∈ slots.zip mappings, carried.2 ∈ mappings :=
    fun carried hcarried => (List.of_mem_zip hcarried).2
  rw [hlive, carriedPages]
  generalize slots.zip mappings = pairs at harrivals hmappings
  clear hlive
  induction harrivals with
  | nil => rfl
  | @cons carried first pairs added harrives _ ih =>
    have hsize := h.measures hblank (hmappings carried List.mem_cons_self) harrives
    have hrotation : (d.remeasure first).rotation = carried.1.rotation := harrives.rotation
    rw [List.map_cons, List.map_cons, List.map_cons,
      ih fun pair hpair => hmappings pair (List.mem_cons_of_mem _ hpair), PageSlot.shown, hsize,
      hrotation]

/-- The file a scratch document is written to shows the pages brought in, each as its copied box
measures. -/
theorem Gathered.depicts_compacted [LawfulLopdf] (h : Gathered source slots mappings s d)
    (hblank : Blank maxId s) (hdirty : d.dirty = ⟨true, true⟩) {d₁ : PdfDocument}
    (hm : d.materializeChanges = (.ok (), d₁)) {file : LopdfDocument}
    (hfile : d₁.buildCompactedDocument.ReadsBackAs file)
    (hpages : carriedPages source slots mappings ≠ []) : ∃ root carried,
      Depicts file root carried ∧ carried ≠ [] ∧
        carried.map PageSlot.shown = carriedPages source slots mappings := by
  have hshown := h.shown hblank
  -- what is written is what the document writes that shows what its boxes measure
  obtain ⟨f, hdepicts⟩ := (h.sound hblank hdirty).depicts_compacted (h.saveSafe hblank hdirty)
    (remeasured_materialize hm) hfile
  have hmoved : (d.remeasured.pages.live.map (PageSlot.moved f)).map PageSlot.shown =
      carriedPages source slots mappings := by
    rw [List.map_map, ← hshown]
    rfl
  refine ⟨_, _, hdepicts, fun hnil => hpages ?_, hmoved⟩
  rw [← hmoved, hnil, List.map_nil]

/-- It holds a page, as it is written. -/
theorem Gathered.holdsPage [LawfulLopdf] (h : Gathered source slots mappings s d)
    (hblank : Blank maxId s) (hdirty : d.dirty = ⟨true, true⟩) {d₁ : PdfDocument}
    (hm : d.materializeChanges = (.ok (), d₁)) (hpages : carriedPages source slots mappings ≠ []) :
    d₁.buildCompactedDocument.HoldsPage := by
  obtain ⟨root, carried, hdepicts, hne, -⟩ := h.depicts_compacted hblank hdirty hm (.refl _) hpages
  obtain ⟨slot, hslot⟩ := List.exists_mem_of_ne_nil _ hne
  have hpage := hdepicts.tree.stated _ (List.mem_map_of_mem hslot)
  obtain ⟨object, hobject, -⟩ := lookup_of_statedType hpage
  exact ⟨_, Finmap.mem_of_lookup_eq_some hobject, hpage⟩

/-- The file a scratch document is written to reads back as the pages brought in. -/
theorem Gathered.reads_back [LawfulLopdf] (h : Gathered source slots mappings s d)
    (hblank : Blank maxId s) (hdirty : d.dirty = ⟨true, true⟩) {d₁ : PdfDocument}
    (hm : d.materializeChanges = (.ok (), d₁)) {file : LopdfDocument}
    (hfile : d₁.buildCompactedDocument.ReadsBackAs file)
    (hpages : carriedPages source slots mappings ≠ []) (newId : DocumentId) :
    ∃ reopened, load newId file = .ok reopened ∧
      reopened.pages.live.map PageSlot.shown = carriedPages source slots mappings := by
  obtain ⟨root, carried, hdepicts, hne, hcarried⟩ := h.depicts_compacted hblank hdirty hm hfile hpages
  rw [← hcarried]
  exact hdepicts.load hne newId

end Scratch

/-! ### The two routes -/

/-- An export, taken apart. -/
theorem exportPages_eq_ok {env : SaveEnv} {scratchId : DocumentId} {ids : List PageId}
    {source : PdfDocument} {carried : PortablePages}
    (h : exportPages env scratchId ids source = .ok carried) :
    ids = [] ∧ carried = .pdfPayload .empty ∨
    ∃ scratch newIds filled written bytes, ids ≠ [] ∧ empty env scratchId = .ok scratch ∧
      importPages source ids 0 scratch = (.ok newIds, filled) ∧
      filled.materializeChanges = (.ok (), written) ∧
      env.bytes written.buildCompactedDocument = .ok bytes ∧ carried = .pdfPayload bytes := by
  unfold exportPages at h
  split at h
  · cases h
  split at h
  · rename_i hids
    cases h
    exact .inl ⟨List.isEmpty_iff.1 hids, rfl⟩
  rename_i hids
  split at h
  · cases h
  rename_i scratch hscratch
  split at h
  · cases h
  rename_i newIds filled himport
  split at h
  · cases h
  rename_i written hwritten
  cases hbytes : env.bytes written.buildCompactedDocument with
  | error e =>
    rw [hbytes] at h
    cases h
  | ok bytes =>
    rw [hbytes] at h
    cases h
    exact .inr ⟨scratch, newIds, filled, written, bytes, fun hnil => hids (List.isEmpty_iff.2 hnil),
      hscratch, himport, hwritten, hbytes, rfl⟩

omit [Lopdf] in
theorem bytes_eq_ok {env : SaveEnv} {document : LopdfDocument} {bytes : PdfBytes}
    (h : env.bytes document = .ok bytes) : (∃ e, bytes = .damaged e) ∨
      ∃ file, env.parse document = .ok file ∧ bytes = .file file := by
  unfold SaveEnv.bytes at h
  split at h
  · cases h
  split at h
  · cases h
    exact .inl ⟨_, rfl⟩
  · cases h
    exact .inr ⟨_, ‹_›, rfl⟩

/-- Every page listed measures what its slot shows, carried into a document numbered so far. -/
def SizesCarry (maxId : Nat) (source : PdfDocument) (ids : List PageId) : Prop :=
  ∀ slots, ids.mapM source.pages.findSlot = .ok slots →
    let mappings := handedOut source.view (slots.map PageSlot.objectId) maxId
    ∀ carried ∈ slots.zip mappings,
      carriedSize source.view mappings carried.2 carried.1.objectId = carried.1.size

omit [Lopdf] in
/-- The pages carried are those exported exactly if their boxes measure what their slots show. -/
theorem carriedPages_eq_iff {source : Objects} {slots : List PageSlot} {mappings : List IdMapping}
    (hlength : slots.length = mappings.length) :
    carriedPages source slots mappings = slots.map PageSlot.shown ↔
      ∀ carried ∈ slots.zip mappings,
        carriedSize source mappings carried.2 carried.1.objectId = carried.1.size := by
  have hslots : slots.map PageSlot.shown = (slots.zip mappings).map (PageSlot.shown ·.1) :=
    calc slots.map PageSlot.shown
        = ((slots.zip mappings).map Prod.fst).map PageSlot.shown := by
          rw [List.map_fst_zip hlength.le]
      _ = (slots.zip mappings).map (PageSlot.shown ·.1) := List.map_map
  rw [hslots, carriedPages, List.map_inj_left]
  simp [PageSlot.shown]

section Routes

variable {source : PdfDocument} {ids newIds : List PageId} {maxId : Nat}

/-- The scratch document an export fills holds the pages, numbered on from nothing. -/
theorem gathered_of_import [LawfulDereference] {s d : PdfDocument} (hblank : Blank maxId s)
    {slots : List PageSlot} (hslots : ids.mapM source.pages.findSlot = .ok slots)
    (hpages : ∀ slot ∈ slots, ∀ object, source.view.lookup slot.objectId = some object →
      object.asDict.isSome = true → IsPage object)
    (h : importPages source ids 0 s = (.ok newIds, d)) :
    Gathered source.view slots
      (handedOut source.view (slots.map PageSlot.objectId) maxId) s d := by
  obtain ⟨_, d₁, -, hfound, himport, rfl⟩ := importPages_eq_ok h
  obtain rfl := Except.ok.inj (hslots.symm.trans hfound)
  have hend : s.pages.live.length = 0 := by
    rw [hblank.live]
    rfl
  rw [← hend] at himport
  have hgathered := importResolved_gathered hpages himport
  rw [hblank.maxId] at hgathered
  exact { hgathered with
    grown := hgathered.grown.trans (.of_same rfl rfl)
    settled := fun hsettled => (hgathered.settled hsettled).of_same rfl fun _ hid => hid }

theorem dirty_of_import {s d : PdfDocument} (hids : ids ≠ [])
    (h : importPages source ids 0 s = (.ok newIds, d)) : d.dirty = ⟨true, true⟩ := by
  obtain ⟨pages, hpages, -, hnewIds, -, -⟩ := OpdfEditor.importPages_live (D := PdfDocument) h
  obtain ⟨_, d₁, -, -, -, rfl⟩ := importPages_eq_ok h
  have hlength : newIds.length = ids.length := by
    rw [hnewIds, List.length_range']
    exact (Traversal.mapM_eq_ok.1 hpages).length_eq.symm
  have hnonempty : newIds.isEmpty = false := by
    rw [List.isEmpty_eq_false_iff]
    rintro rfl
    exact hids (List.eq_nil_of_length_eq_zero hlength.symm)
  exact if_neg (by simp [hnonempty])

/-- Bringing back nothing brings in nothing. -/
theorem importPortable_empty {sourceId : DocumentId} {atIndex : Nat} {d d' : PdfDocument}
    (h : importPortable sourceId (.pdfPayload .empty) atIndex d = (.ok newIds, d')) :
    newIds = [] ∧ d' = { d with revision := d.revision + 1 } := by
  unfold importPortable at h
  split at h
  · cases h
  · cases h
    exact ⟨rfl, rfl⟩

/-- Bringing back a file is importing from what it opens as. -/
theorem importPortable_file {sourceId : DocumentId} {file : LopdfDocument} {atIndex : Nat}
    {d d' : PdfDocument}
    (h : importPortable sourceId (.pdfPayload (.file file)) atIndex d = (.ok newIds, d')) :
    ∃ reopened, load sourceId file = .ok reopened ∧
      importPages reopened reopened.pages.ids atIndex d = (.ok newIds, d') := by
  unfold importPortable at h
  split at h
  · cases h
  simp only [PortablePages.takePdf, loadFromBytes] at h
  split at h
  · cases h
  · exact ⟨_, ‹_›, h⟩

theorem not_importPortable_damaged {sourceId : DocumentId} {e : Error} {atIndex : Nat}
    {d d' : PdfDocument} :
    importPortable sourceId (.pdfPayload (.damaged e)) atIndex d ≠ (.ok newIds, d') := by
  unfold importPortable
  intro h
  split at h
  · cases h
  · simp [PortablePages.takePdf, loadFromBytes] at h

omit [Lopdf] in
/-- The condition says that the pages carried are the pages asked for. -/
theorem sizesCarry_iff {slots : List PageSlot} (hslots : ids.mapM source.pages.findSlot = .ok slots) :
    SizesCarry maxId source ids ↔ carriedPages source.view slots (handedOut source.view
      (slots.map PageSlot.objectId) maxId) = slots.map PageSlot.shown := by
  rw [carriedPages_eq_iff (by rw [length_handedOut, List.length_map])]
  constructor
  · intro h
    exact h slots hslots
  · intro h _ hfound
    obtain rfl := Except.ok.inj (hslots.symm.trans hfound)
    exact h

omit [Lopdf] in
/-- Sizes carry where they are what the boxes measure, and no box runs into a reference that is left
behind with the number of a copy. -/
theorem sizesCarry_of_free (h : ∀ slots, ids.mapM source.pages.findSlot = .ok slots →
    ∀ slot ∈ slots, IsCopyable source.view slot ∧ readPageSize source.view slot.objectId = slot.size ∧
      ∀ value, findInheritedAttribute source.view slot.objectId "MediaBox" = some value →
        Sees (fun id => copies source.view id = true ∨ holder (handedOut source.view
          (slots.map PageSlot.objectId) maxId) id = none) source.view value) :
    SizesCarry maxId source ids := by
  intro slots hslots mappings carried hcarried
  obtain ⟨⟨dict, hdict⟩, hsize, hbox⟩ := h slots hslots carried.1 (List.of_mem_zip hcarried).1
  obtain ⟨target, hmapping⟩ : ∃ target,
      carried.2 = (copyMapping source.view carried.1.objectId target).1 := by
    have hpaired : (carried.1.objectId, carried.2) ∈ (slots.map PageSlot.objectId).zip mappings := by
      rw [List.zip_map_left]
      exact List.mem_map.2 ⟨carried, hcarried, rfl⟩
    exact copyMapping_of_mem_zip hpaired
  rw [← hsize, readPageSize_eq, carriedSize, hmapping]
  cases hvalue : findInheritedAttribute source.view carried.1.objectId "MediaBox" with
  | none => rfl
  | some value =>
    have hassigned := copyMapping_assigned hdict target
    exact measureCarriedBox_of_leadsOn (hassigned.leadsOn (by decide) hvalue (hbox value hvalue))

/-- Pages brought in from one document and carried into another come out the same exactly when every
box measures, as it is carried into the scratch document, what the page shows. -/
theorem portable_route_agrees [LawfulWalk] (hsource : Reachable source) {env : SaveEnv}
    {created : LopdfDocument} {root : ObjectId}
    (hcreated : env.parse buildEmptyDocument = .ok created) (hpageless : Pageless created root)
    (hfaithful : env.FaithfulOnPages)
    {scratchId sourceId : DocumentId} {carried : PortablePages}
    (hexport : exportPages env scratchId ids source = .ok carried) {atIndex : Nat}
    {d direct portable : PdfDocument} {portableIds : List PageId}
    (hdirect : importPages source ids atIndex d = (.ok newIds, direct))
    (hportable : importPortable sourceId carried atIndex d = (.ok portableIds, portable)) :
    SameImport newIds portableIds direct portable ↔ SizesCarry created.maxId source ids := by
  obtain ⟨slots, d₁, -, hslots, himport, hdirect'⟩ := importPages_eq_ok hdirect
  rw [sizesCarry_iff hslots]
  rcases exportPages_eq_ok hexport with
    ⟨rfl, rfl⟩ | ⟨scratch, scratchIds, filled, written, bytes, hids, hempty, hfill, hm, hbytes, rfl⟩
  · -- an export of no pages is carried as no bytes, and either import only moves the revision
    obtain ⟨rfl, rfl⟩ := importPortable_empty hportable
    cases hslots
    cases himport
    exact iff_of_true ⟨rfl, congrArg (·.pages.infos.live) hdirect'.symm,
      congrArg PdfDocument.revision hdirect'.symm⟩ rfl
  rcases bytes_eq_ok hbytes with ⟨e, rfl⟩ | ⟨file, hparse, rfl⟩
  · exact absurd hportable not_importPortable_damaged
  have hpages : ∀ slot ∈ slots, ∀ object, source.view.lookup slot.objectId = some object →
      object.asDict.isSome = true → IsPage object := by
    intro slot hslot object hobject hdict
    exact hsource.bound.page_view (List.mem_append_left _ (live_of_mapM hslots hslot)) hobject hdict
  have hblank := blank_of_empty hcreated hpageless hempty
  have hgathered := gathered_of_import hblank hslots hpages hfill
  have hnonempty : carriedPages source.view slots (handedOut source.view
      (slots.map PageSlot.objectId) created.maxId) ≠ [] := by
    intro hnil
    have hlength := length_carriedPages source.view slots created.maxId
    rw [hnil, ← (Traversal.mapM_eq_ok.1 hslots).length_eq] at hlength
    exact hids (List.eq_nil_of_length_eq_zero hlength.symm)
  have hdirty := dirty_of_import hids hfill
  have hwritten := hfaithful _ _ (hgathered.holdsPage hblank hdirty hm hnonempty) hparse
  obtain ⟨reopened, hload, hreopened⟩ :=
    hgathered.reads_back hblank hdirty hm hwritten.1 hnonempty sourceId
  obtain ⟨_, hload', hcarried⟩ := importPortable_file hportable
  obtain rfl := Except.ok.inj (hload.symm.trans hload')
  -- both imports insert what they are given at the same place, so only the looks of it can differ
  have hlisted : reopened.pages.ids.mapM (Document.page · reopened) = .ok reopened.pages.infos.live := by
    rw [← Roster.infos_ids]
    exact OpdfEditor.mapM_page (D := PdfDocument) reopened fun _ hslot => hslot
  rw [sameImport_iff (D := PdfDocument) hdirect hcarried (mapM_page hslots) hlisted,
    Roster.infos_live, List.map_map, List.map_map]
  exact Eq.congr_left hreopened

end Routes

end PdfDocument

/-! ### A page that comes out narrower -/

/-- The cross-reference stream a document is written with, without its table. -/
def crossReferenceStream : Object :=
  .stream [("Type", .name "XRef"), ("Size", .integer 4), ("Root", .reference (2, 0))] []

/-- The minimal file as it is read back in: the cross-reference stream is one of its objects. -/
def scratchFile : LopdfDocument := (buildEmptyDocument.addObject crossReferenceStream).2

theorem pageless_scratchFile : Pageless scratchFile (1, 0) where
  walks := by
    have hlookup : ∀ id ∈ [((1, 0) : ObjectId), (2, 0)],
        scratchFile.objects.lookup id = buildEmptyDocument.objects.lookup id := by
      intro id hid
      refine Finmap.lookup_insert_of_ne _ ?_
      rintro rfl
      exact absurd hid (by decide)
    exact ⟨(2, 0), _, _, rfl, (hlookup _ (by decide)).trans PdfDocument.lookup_catalog_empty, rfl,
      (hlookup _ (by decide)).trans PdfDocument.lookup_root_empty, .nil⟩
  root_page := by decide +kernel
  root_top := by decide +kernel
  counted := by decide +kernel
  unstated := by decide +kernel
  barren := barren_of_keys (by decide +kernel)

/-- What holds a page is read back in as it was written, anything else with the cross-reference
stream it was written with. -/
def SaveEnv.streaming : SaveEnv :=
  { SaveEnv.counting with
    parse := fun written =>
      if written.HoldsPage then SaveEnv.counting.parse written
      else .ok (written.addObject crossReferenceStream).2 }

theorem SaveEnv.faithfulOnPages_streaming : SaveEnv.streaming.FaithfulOnPages := by
  intro written file hpage hparse
  have hkept : SaveEnv.streaming.parse written = SaveEnv.counting.parse written := if_pos hpage
  exact SaveEnv.faithful_counting written file (hkept ▸ hparse)

theorem SaveEnv.parse_streaming : SaveEnv.streaming.parse buildEmptyDocument = .ok scratchFile := by
  have hnone : ¬ buildEmptyDocument.HoldsPage := by decide +kernel
  simp only [streaming, if_neg hnone]
  rfl

namespace StrayBoxFile

open ImportFixture (catalog)
open scoped WalkingLopdf

def file : LopdfDocument where
  version := "1.7"
  objects := [⟨(1, 0), catalog⟩,
    ⟨(2, 0), .dictionary [("Type", .name "Pages"), ("Kids", .array [.reference (3, 0)]),
      ("Count", .integer 1)]⟩,
    ⟨(3, 0), .dictionary [("Type", .name "Page"), ("Parent", .reference (2, 0)),
      ("MediaBox", .array [.integer 0, .integer 0, .reference (5, 0), .integer 792]),
      ("StructParents", .reference (6, 0))]⟩,
    ⟨(6, 0), .integer 300⟩].toFinmap
  trailer := [("Root", .reference (1, 0))]
  maxId := 6

def opened : PdfDocument := (PdfDocument.load 1 file).toOption.get (by decide +kernel)

def carried : PortablePages :=
  (PdfDocument.exportPages .streaming 2 [0] opened).toOption.get (by decide +kernel)

/-- A nested document with a page put in, one turned and one taken out, none of it saved. -/
def edited : PdfDocument :=
  ((PdfDocument.load 5 NestedFile.file).toOption.get (by decide +kernel)).run
    [.insert 0 .letter, .rotate 1 .half, .remove 2]

def repeated : PortablePages :=
  (PdfDocument.exportPages .streaming 2 [1, 3, 1, 0] edited).toOption.get (by decide +kernel)

end StrayBoxFile

namespace PdfDocument

open scoped WalkingLopdf

theorem outcome_of_fst (outcome : Outcome PdfDocument (List PageId)) (ids : List PageId)
    (h : outcome.1.toOption = some ids) : outcome = (.ok ids, outcome.2) :=
  Prod.ext (toOption_eq_some.1 h) rfl

theorem eq_ok_get {α : Type} (result : Except Error α) (h : result.toOption.isSome = true) :
    result = .ok (result.toOption.get h) :=
  toOption_eq_some.1 (Option.some_get h).symm

/-- The number a box keeps is that of a copy in the scratch document, and the page comes out narrower. -/
theorem stray_box_is_carried_narrower :
    load 1 StrayBoxFile.file = .ok StrayBoxFile.opened ∧ Reachable StrayBoxFile.opened ∧
      SaveEnv.streaming.parse buildEmptyDocument = .ok scratchFile ∧ Pageless scratchFile (1, 0) ∧
      SaveEnv.streaming.FaithfulOnPages ∧
      (∀ slot ∈ StrayBoxFile.opened.pages.live,
        slot.size.widthPt.IsPositive ∧ slot.size.heightPt.IsPositive) ∧
      exportPages .streaming 2 [0] StrayBoxFile.opened = .ok StrayBoxFile.carried ∧
      ∃ newIds portableIds direct portable,
        importPages StrayBoxFile.opened [0] 0 StrayBoxFile.opened = (.ok newIds, direct) ∧
        importPortable 3 StrayBoxFile.carried 0 StrayBoxFile.opened = (.ok portableIds, portable) ∧
        ¬ SameImport newIds portableIds direct portable := by
  have hload : load 1 StrayBoxFile.file = .ok StrayBoxFile.opened := rfl
  have hreachable : Reachable (StrayBoxFile.opened.run []) :=
    .run (.opened hload (by decide +kernel)) (by simp) (by simp)
  have hportable := outcome_of_fst
    (importPortable 3 StrayBoxFile.carried 0 StrayBoxFile.opened) [1] (by decide +kernel)
  refine ⟨hload, hreachable, SaveEnv.parse_streaming, pageless_scratchFile,
    SaveEnv.faithfulOnPages_streaming, by decide +kernel, rfl, _, _, _, _, rfl, hportable,
    fun hsame => ?_⟩
  have hsizes := congrArg (List.map PageInfo.size) hsame.live
  exact absurd hsizes (by decide +kernel)

/-- Pages put in, turned and repeated arrive the same either way. -/
theorem nested_pages_are_carried_alike :
    exportPages .streaming 2 [1, 3, 1, 0] StrayBoxFile.edited = .ok StrayBoxFile.repeated ∧
      ∃ newIds portableIds direct portable,
        importPages StrayBoxFile.edited [1, 3, 1, 0] 1 StrayBoxFile.opened = (.ok newIds, direct) ∧
        importPortable 4 StrayBoxFile.repeated 1 StrayBoxFile.opened = (.ok portableIds, portable) ∧
        SameImport newIds portableIds direct portable := by
  have hload : load 5 NestedFile.file = .ok
      ((load 5 NestedFile.file).toOption.get (by decide +kernel)) := rfl
  have hsource : Reachable StrayBoxFile.edited :=
    .run (.opened hload (by decide +kernel)) (by simp [SessionStep.Counts]) (by simp)
  have hexport : exportPages .streaming 2 [1, 3, 1, 0] StrayBoxFile.edited = .ok StrayBoxFile.repeated :=
    eq_ok_get _ _
  have hdirect := outcome_of_fst
    (importPages StrayBoxFile.edited [1, 3, 1, 0] 1 StrayBoxFile.opened) [1, 2, 3, 4] (by decide +kernel)
  have hportable := outcome_of_fst
    (importPortable 4 StrayBoxFile.repeated 1 StrayBoxFile.opened) [1, 2, 3, 4] (by decide +kernel)
  have hread : ∀ slot ∈ StrayBoxFile.edited.pages.live,
      ((StrayBoxFile.edited.view.lookup slot.objectId).bind Object.asDict).isSome = true ∧
      readPageSize StrayBoxFile.edited.view slot.objectId = slot.size ∧
      (findInheritedAttribute StrayBoxFile.edited.view slot.objectId "MediaBox").all
        (·.links.isEmpty) = true := by
    decide +kernel
  refine ⟨hexport, _, _, _, _, hdirect, hportable, (portable_route_agrees hsource
    SaveEnv.parse_streaming pageless_scratchFile SaveEnv.faithfulOnPages_streaming hexport hdirect
    hportable).2 (sizesCarry_of_free ?_)⟩
  intro slots hslots slot hslot
  obtain ⟨hdict, hsize, hdirect⟩ := hread slot (live_of_mapM hslots hslot)
  refine ⟨?_, hsize, fun value hvalue => ?_⟩
  · obtain ⟨dict, hdict⟩ := Option.isSome_iff_exists.1 hdict
    obtain ⟨object, hobject, hasDict⟩ := Option.bind_eq_some_iff.1 hdict
    exact ⟨dict, Object.asDict_eq_some.1 hasDict ▸ hobject⟩
  · rw [hvalue] at hdirect
    exact sees_of_direct (List.isEmpty_iff.1 hdirect)

end PdfDocument
end OpdfEditor
