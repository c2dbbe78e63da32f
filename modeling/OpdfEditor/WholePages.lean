import OpdfEditor.TidyPages

/-!
Tidy files whose boxes lead only to what is copied along with a page. Pages brought in from such
files, one file after the other, make up a document that is orderly again, and so is a file it is
written to.
-/
namespace OpdfEditor

open PdfDocument (KeepsLooks pageShown)

/-! ### What travels with a page -/

/-- Whatever a value leads to is taken along by a copy. -/
def Travels (objects : Objects) (value : Object) : Prop := Sees (fun id => copies objects id = true) objects value

theorem isPageNode_eq (objects : Objects) (id : ObjectId) : isPageNode objects id =
    (statedType objects id).any fun typeName => typeName = "Page" || typeName = "Pages" := by
  unfold isPageNode statedType
  cases (objects.lookup id).bind Object.asDict with
  | none => rfl
  | some dict =>
    simp only [Option.bind_some]
    cases (Dictionary.get dict "Type").bind Object.asName <;> rfl

theorem copies_congr {objects objects' : Objects} {id id' : ObjectId}
    (hthere : (objects'.lookup id').isSome = (objects.lookup id).isSome)
    (hstated : statedType objects' id' = statedType objects id) :
    copies objects' id' = copies objects id := by
  unfold copies
  rw [hthere, isPageNode_eq, isPageNode_eq, hstated]

theorem mem_of_copies {objects : Objects} {id : ObjectId} (h : copies objects id = true) :
    id ∈ objects := by
  unfold copies at h
  simp only [Bool.and_eq_true, Finmap.lookup_isSome] at h
  exact h.1

/-- A copy takes no page along. -/
theorem copies_page {objects : Objects} {id : ObjectId} (h : statedType objects id = some "Page") :
    copies objects id = false := by
  unfold copies
  rw [isPageNode_eq, h]
  simp

theorem statedType_rename {objects objects' : Objects} {id id' : ObjectId} {f : ObjectId → ObjectId}
    (h : objects'.lookup id' = (objects.lookup id).map (Object.rename f)) :
    statedType objects' id' = statedType objects id := by
  unfold statedType
  rw [h]
  cases objects.lookup id with
  | none => rfl
  | some object =>
    cases object with
    | dictionary dict =>
      simp only [Option.map_some, Object.rename, Option.bind_some, Object.asDict,
        Dictionary.get_renameEntries]
      cases Dictionary.get dict "Type" with
      | none => rfl
      | some value => cases value <;> rfl
    | _ => rfl

theorem travels_of_direct {objects : Objects} {value : Object} (h : value.links = []) :
    Travels objects value := PdfDocument.sees_of_direct h

/-- What travels goes on to travel where nothing about what is copied changes. -/
theorem Travels.undisturbed {objects objects' : Objects} {at_ : ObjectId → Prop}
    (hsame : Undisturbed at_ objects objects') (hat : ∀ id, copies objects id = true → at_ id)
    (hcopies : ∀ id, copies objects id = true → copies objects' id = true) {value : Object}
    (h : Travels objects value) : Travels objects' value := by
  have hundisturbed : Undisturbed (fun id => copies objects id = true) objects objects' :=
    fun id hid => hsame id (hat id hid)
  exact hundisturbed.sees hcopies h

theorem Relocates.copies {f : ObjectId → ObjectId} {at_ : ObjectId → Prop} {objects objects' : Objects}
    (h : Relocates f at_ objects objects') {id : ObjectId} (hid : at_ id) :
    copies objects' (f id) = OpdfEditor.copies objects id := by
  refine copies_congr ?_ (h.carries.stated id hid)
  rw [h.lookup id hid, Option.isSome_map]

theorem Relocates.travels {f : ObjectId → ObjectId} {at_ : ObjectId → Prop} {objects objects' : Objects}
    (h : Relocates f at_ objects objects') {value : Object} (hvalue : ∀ target ∈ value.links, at_ target)
    (htravels : Travels objects value) : Travels objects' (value.rename f) := by
  have hboth := (h.sees hvalue).and htravels
  have hmirrors : Mirrors f (fun id => at_ id ∧ OpdfEditor.copies objects id = true) objects objects' :=
    fun id hid => h.mirrors id hid.1
  exact hmirrors.sees (fun id hid => (h.copies hid.1).trans hid.2) hboth

/-- A tidy file whose boxes, those of its pages and that of the root, travel. -/
structure Whole (file : LopdfDocument) (root : ObjectId) (pages : List ObjectId) : Prop
    extends Tidy file root pages where
  travels : ∀ node ∈ root :: pages, ∀ value,
    findInheritedAttribute file.objects node "MediaBox" = some value → Travels file.objects value

theorem Whole.relocates {f : ObjectId → ObjectId} {at_ : ObjectId → Prop} {file file' : LopdfDocument}
    {root : ObjectId} {pages : List ObjectId} (h : Whole file root pages)
    (hmoved : Relocates f at_ file.objects file'.objects)
    (hstart : ∀ id, Dictionary.get file.trailer "Root" = some (.reference id) → at_ id)
    (hroot : Dictionary.get file'.trailer "Root" =
      (Dictionary.get file.trailer "Root").map (Object.rename f)) (hcounted : file'.Counted) :
    Whole file' (f root) (pages.map f) := by
  obtain ⟨htree, hatRoot, hat⟩ := h.toPageTree.relocates hmoved hstart hroot
  refine ⟨(h.toTidy.relocates hmoved hstart hroot hcounted).1, fun node' hnode' value' hvalue' => ?_⟩
  rw [← List.map_cons, List.mem_map] at hnode'
  obtain ⟨node, hnode, rfl⟩ := hnode'
  have hatNode : at_ node := by
    rcases List.mem_cons.1 hnode with rfl | hpage
    · exact hatRoot
    · exact hat node hpage
  rw [findInheritedAttribute, hmoved.findInheritedIn _ _ hatNode] at hvalue'
  obtain ⟨value, hvalue, rfl⟩ := Option.map_eq_some_iff.1 hvalue'
  exact hmoved.travels (hmoved.at_found hatNode hvalue) (h.travels node hnode value hvalue)

namespace PdfDocument

/-! ### Documents whose boxes travel -/

/-- An orderly document whose boxes, those its pages bring to the next save and that of the root,
travel. -/
structure Complete (d : PdfDocument) (pages : List ObjectId) : Prop extends Orderly d pages where
  travels : ∀ slot ∈ d.pages.known, ∀ value, d.attributeOf slot.objectId "MediaBox" = some value →
    Travels d.view value
  rootTravels : ∀ value, entryOf d.view d.rootPagesId "MediaBox" = some value → Travels d.view value

section Steps

variable {d d' : PdfDocument} {pages : List ObjectId}

theorem Complete.of_slots (h : Complete d pages) (horderly : Orderly d' pages)
    (hold : ∀ slot ∈ d'.pages.known, ∃ old ∈ d.pages.known, old.objectId = slot.objectId)
    (hincremental : d'.incremental = d.incremental) (hroot : d'.rootPagesId = d.rootPagesId) :
    Complete d' pages := by
  have hattribute := attributeOf_of_same hincremental
  have hview : d'.view = d.view := congrArg IncrementalDocument.view hincremental
  refine ⟨horderly, fun slot hslot value hvalue => ?_, fun value hvalue => ?_⟩
  · obtain ⟨old, hknown, hid⟩ := hold slot hslot
    rw [hattribute, ← hid] at hvalue
    rw [hview]
    exact h.travels old hknown value hvalue
  · rw [hview, hroot] at hvalue
    rw [hview]
    exact h.rootTravels value hvalue

theorem Rearranged.complete (hmoved : Rearranged d d') (h : Complete d pages) : Complete d' pages :=
  h.of_slots (hmoved.orderly h.toOrderly) (fun slot hslot => ⟨slot, hmoved.known.mem_iff.1 hslot, rfl⟩)
    hmoved.incremental hmoved.rootPagesId

theorem Turned.complete {rotation : Rotation} (hturned : Turned rotation d d') (h : Complete d pages) :
    Complete d' pages :=
  h.of_slots (hturned.orderly h.toOrderly) hturned.known hturned.incremental hturned.rootPagesId

end Steps

section Files

variable [Lopdf] {d d₁ : PdfDocument} {pages : List ObjectId}

/-- A document freshly opened from a whole file is complete. -/
theorem complete_load [LawfulLopdf] {file : LopdfDocument} {root : ObjectId} (h : Whole file root pages)
    {id : DocumentId} (hload : load id file = .ok d) : Complete d pages := by
  have horderly := orderly_load h.toTidy hload
  obtain ⟨-, -, -, hincremental, -⟩ := load_eq_ok hload
  obtain ⟨hremoved, -⟩ := listed_load hload
  obtain ⟨rfl, hids, -⟩ := load_lists hload h.toProperTree
  have hview := view_of_load hincremental
  refine ⟨horderly, fun slot hslot value hvalue => ?_, fun value hvalue => ?_⟩
  · rw [Roster.known, hremoved, List.append_nil] at hslot
    have hpage : slot.objectId ∈ pages := hids ▸ List.mem_map_of_mem hslot
    rw [attributeOf_previous (horderly.mem_previous hpage), hincremental] at hvalue
    rw [hview]
    exact h.travels _ (List.mem_cons_of_mem _ hpage) value hvalue
  · rw [hview] at hvalue ⊢
    exact h.travels _ List.mem_cons_self value (findInheritedAttribute_of_entry hvalue)

section Written

variable [LawfulDereference]

/-- A save changes nothing about what a copy takes along. -/
theorem Grounded.copies_materialized (h : Grounded d pages) (hm : d.materializeChanges = (.ok (), d₁))
    (id : ObjectId) : copies d₁.view id = copies d.view id := by
  refine copies_congr ?_ ?_
  · rcases h.lookup_materialized hm id with ⟨hsame, -⟩ | ⟨dict, hdict, hwritten⟩
    · rw [hsame]
    · rw [hdict, hwritten]
      rfl
  · rw [statedType_eq, statedType_eq, h.entryOf_unwritten hm (lastWritten_kept (by decide))]

theorem Grounded.travels_materialized (h : Grounded d pages) (hm : d.materializeChanges = (.ok (), d₁))
    {value : Object} (htravels : Travels d.view value) : Travels d₁.view value :=
  htravels.undisturbed (h.undisturbed_materialized hm) (fun _ _ => trivial) fun id hid =>
    (h.copies_materialized hm id).trans hid

/-- The box a page of a written file finds is the one it brought, or the root's. -/
theorem Complete.found_written (h : Complete d pages) (hm : d.materializeChanges = (.ok (), d₁))
    {slot : PageSlot} (hslot : slot ∈ d.pages.live) {value : Object}
    (hvalue : findInheritedAttribute d₁.view slot.objectId "MediaBox" = some value) :
    d.attributeOf slot.objectId "MediaBox" = some value ∨
      entryOf d.view d.rootPagesId "MediaBox" = some value := by
  cases hstructural : d.dirty.structural with
  | true =>
    have hbox := (h.backed slot (List.mem_append_left _ hslot)).box
    rw [h.find_materialized hm hstructural hslot (by decide) (by decide),
      h.entry_materialized hm hstructural hslot (by decide) (fun hrotate => absurd hrotate.1 (by decide))
        hbox, Option.or_eq_some_iff] at hvalue
    exact hvalue.imp_right And.right
  | false =>
    rw [h.toSound.box_unmoved hm hstructural hslot] at hvalue
    exact .inl hvalue

/-- What a save of a complete document writes is whole. -/
theorem Complete.whole (h : Complete d pages) (hm : d.materializeChanges = (.ok (), d₁))
    {file : LopdfDocument} (hobjects : file.objects = d₁.view)
    (htrailer : Dictionary.get file.trailer "Root" =
      Dictionary.get d.incremental.previous.trailer "Root") (hcounted : file.Counted) :
    Whole file d.rootPagesId (d.pages.live.map PageSlot.objectId) := by
  have htidy := (h.toOrderly.tidy hm hobjects htrailer hcounted).1
  refine ⟨htidy, fun node hnode value hvalue => ?_⟩
  rw [hobjects] at hvalue ⊢
  rcases List.mem_cons.1 hnode with rfl | hpage
  · have hentry : entryOf d₁.view d.rootPagesId "MediaBox" = some value := by
      have htop := htidy.root_top
      rw [hobjects] at htop
      rwa [findInheritedAttribute, parentChainLimit, findInheritedIn_succ, htop, Option.bind_none,
        Option.or_none] at hvalue
    rw [h.root_materialized hm (by decide)] at hentry
    exact h.travels_materialized hm (h.rootTravels value hentry)
  · obtain ⟨slot, hslot, rfl⟩ := List.mem_map.1 hpage
    refine h.travels_materialized hm ?_
    rcases h.found_written hm hslot hvalue with hbrought | hroot
    · exact h.travels slot (List.mem_append_left _ hslot) value hbrought
    · exact h.rootTravels value hroot

end Written

section Saves

variable [LawfulLopdf] {d' : PdfDocument} {env : SaveEnv} {written reread : LopdfDocument}

/-- An incremental save of a complete document writes a whole file that shows its pages. -/
theorem Complete.written_incremental (h : Complete d pages)
    (hsave : d.saveIncremental env = (.ok written, d')) (hreread : written.ReadsBackAs reread)
    (hcounted : reread.Counted) : ∃ root pages', Whole reread root pages' ∧
      pages'.map (pageShown reread.objects) = d.pages.live.map PageSlot.shown := by
  obtain ⟨d₁, hm, hobjects, hroot⟩ := h.toSound.writes_incremental hsave
  obtain ⟨hsame, hsameRoot, hmerged⟩ := h.toOrderly.merged hm
  have hwhole := h.whole hm hsame hsameRoot hmerged
  have hshown := (h.toOrderly.tidy hm hsame hsameRoot hmerged).2
  obtain ⟨hmoved, hstart, htrailer⟩ :=
    hreread.relocates (hobjects.trans hsame.symm) (hroot.trans hsameRoot.symm)
  exact ⟨_, _, hwhole.relocates hmoved hstart htrailer hcounted,
    (hwhole.toTidy.relocates hmoved hstart htrailer hcounted).2.trans hshown⟩

/-- A compacting save of a complete document writes a whole file that shows its pages. -/
theorem Complete.written_compacted (h : Complete d pages)
    (hsave : d.saveCompacted env = (.ok written, d')) (hreread : written.ReadsBackAs reread)
    (hcounted : reread.Counted) : ∃ root pages', Whole reread root pages' ∧
      pages'.map (pageShown reread.objects) = d.pages.live.map PageSlot.shown := by
  obtain ⟨d₁, -, -, hm, rfl, -⟩ := saveCompacted_ok hsave
  obtain ⟨hobjects, hroot, hmerged⟩ := h.toOrderly.merged hm
  have hwhole := h.whole hm hobjects hroot hmerged
  have hshown := (h.toOrderly.tidy hm hobjects hroot hmerged).2
  obtain ⟨f, hrenames⟩ := LawfulLopdf.renumber (Lopdf.pruneObjects d₁.mergedDocument)
  obtain ⟨hmoved, hstart, htrailer⟩ := relocates_compacted hrenames hreread
  exact ⟨_, _, hwhole.relocates hmoved hstart htrailer hcounted,
    (hwhole.toTidy.relocates hmoved hstart htrailer hcounted).2.trans hshown⟩

end Saves
end Files

/-! ### Pages brought in -/

/-- What bringing pages in keeps of a document whose root gives them nothing: every slot it has was
brought in. -/
structure Gathering (d : PdfDocument) (pages : List ObjectId) : Prop extends Grounded d pages where
  distinct : (d.pages.known.map PageSlot.objectId).Nodup
  turned : ∀ slot ∈ d.pages.known, slot.rotationChanged = true
  root_entries : ∀ key ∈ ["MediaBox", "Rotate"], entryOf d.view d.rootPagesId key = none
  apart : ∀ page ∈ pages, ∀ other ∈ pages,
    ¬ Relation.TransGen (HangsUnder d.incremental.previous.objects) page other
  travels : ∀ slot ∈ d.pages.known, ∀ value, d.attributeOf slot.objectId "MediaBox" = some value →
    Travels d.view value

section Gathering

variable {d d₁ : PdfDocument} {pages : List ObjectId}

theorem Gathering.of_same (h : Gathering d pages) (hincremental : d₁.incremental = d.incremental)
    (hroot : d₁.rootPagesId = d.rootPagesId) (hpages : d₁.pages = d.pages) : Gathering d₁ pages := by
  have hview : d₁.view = d.view := congrArg IncrementalDocument.view hincremental
  have hsettled : d₁.Settled := by
    refine h.settled.of_same hincremental fun id hid => ?_
    unfold Names at hid ⊢
    rwa [hroot, hpages] at hid
  refine ⟨h.toGrounded.of_same hincremental hroot hsettled fun slot hslot => ?_, ?_, ?_, ?_, ?_, ?_⟩
  · exact h.backed slot (hpages ▸ hslot)
  · rw [hpages]
    exact h.distinct
  · rw [hpages]
    exact h.turned
  · rw [hview, hroot]
    exact h.root_entries
  · rw [hincremental]
    exact h.apart
  · rw [hpages, hview, attributeOf_of_same hincremental]
    exact h.travels

/-- Once pages were brought in, the document is complete. -/
theorem Gathering.complete (h : Gathering d pages) (hdirty : d.dirty = ⟨true, true⟩) :
    Complete d pages := by
  have hsound : Sound d pages := by
    refine ⟨h.toGrounded, fun _ _ _ => congrArg DirtyState.rotations hdirty, fun hstructural => ?_⟩
    rw [hdirty] at hstructural
    cases hstructural
  refine ⟨⟨hsound, h.distinct, fun _ _ _ => ?_, fun _ _ _ => ?_, h.apart⟩, h.travels, fun value hvalue => ?_⟩
  · rw [h.root_entries "MediaBox" (by decide)]
    rfl
  · rw [h.root_entries "Rotate" (by decide)]
    rfl
  · rw [h.root_entries "MediaBox" (by decide)] at hvalue
    cases hvalue

/-- The boxes there already run into nothing an import could hand out a number for. -/
theorem Gathering.uncaptured (h : Gathering d pages) (free : ObjectId → Prop) : d.Uncaptured free := by
  rintro slot hslot key value (rfl | ⟨-, hunturned⟩) hvalue
  · exact (h.travels slot hslot value hvalue).mono fun id hid => .inl (mem_of_copies hid)
  · rw [h.turned slot hslot] at hunturned
    cases hunturned

theorem Grown.travels (hgrown : Grown d d₁) (h : Grounded d pages) {value : Object}
    (htravels : Travels d.view value) : Travels d₁.view value := by
  have hundisturbed : Undisturbed (· ∈ d.view) d.view d₁.view :=
    h.undisturbed hgrown fun id hid hnot => absurd hid hnot
  refine htravels.undisturbed hundisturbed (fun _ => mem_of_copies) fun id hid => ?_
  have hlookup := hgrown.lookup_view (h.mem_view (mem_of_copies hid))
  have hstated : statedType d₁.view id = statedType d.view id := by
    unfold statedType
    rw [hlookup]
  exact (copies_congr (by rw [hlookup]) hstated).trans hid

section Rounds

variable [Lopdf] [LawfulDereference] {source : Objects} {slot : PageSlot} {atIndex : Nat} {id : PageId}

omit [Lopdf] [LawfulDereference] in
/-- The box of a page that is copied travels on from the copy. -/
theorem travels_of_copied {dict : Dictionary} {target after : LopdfDocument} {mapping : IdMapping}
    {copied : ObjectId} (h : Copied source slot.objectId dict target mapping copied after)
    (hpage : source.lookup slot.objectId = some (.dictionary dict)) {objects : Objects}
    (hobjects : Within after.objects objects) {free : ObjectId → Prop} (hslot : Importable source free slot)
    {value : Object} (hvalue : findInheritedAttribute source slot.objectId "MediaBox" = some value)
    (htravels : Travels source value) : Travels objects (value.rename mapping.apply) := by
  obtain ⟨numbered, hassigned, -⟩ := h.assigned
  have hsees := htravels.and (hassigned.sees (by decide) hvalue)
  have hmirrors : Mirrors mapping.apply
      (fun id => copies source id = true ∧ (copies source id = true → id ∈ mapping.map Prod.fst))
      source objects := fun id hid => (h.moved hpage hobjects (hid.2 hid.1)).2
  refine hmirrors.sees (fun id hid => ?_) hsees
  obtain ⟨copy, hentry⟩ := IdMapping.exists_of_mem (hid.2 hid.1)
  have hne : id ≠ slot.objectId := by
    rintro rfl
    rw [copies_page hslot.page] at hid
    cases hid.1
  have hcopy := h.copy hpage hentry
  rw [copiedObject_of_ne hne] at hcopy
  obtain ⟨object, hobject⟩ := Finmap.mem_iff.1 (Finmap.mem_keys.1 (hassigned.present id (hid.2 hid.1)))
  rw [hobject] at hcopy
  have hlookup : objects.lookup (mapping.apply id) =
      (source.lookup id).map (Object.rename mapping.apply) := by
    rw [IdMapping.apply_of_entry hassigned.nodup hentry, hobject]
    exact hobjects _ _ hcopy
  rw [copies_congr (by rw [hlookup, Option.isSome_map]) (statedType_rename hlookup)]
  exact hid.1

/-- Bringing in one page whose box travels. -/
theorem ImportStep.gathering (hstep : ImportStep source slot atIndex d id d₁) (h : Gathering d pages)
    (hslot : Importable source (fun _ => False) slot) : Gathering d₁ pages := by
  have hgrown := hstep.grown
  have hwithin : Within d₁.view d₁.view := fun _ _ hobject => hobject
  obtain ⟨hgrounded, -⟩ := hstep.grounded h.toGrounded (h.uncaptured _)
    (hslot.mono fun _ hfalse => hfalse.elim) hwithin
  obtain ⟨dict, mapping, copied, before, rest, hdict, hcopied, hlive, hlive'⟩ := hstep.copies
  obtain ⟨numbered, hassigned, -⟩ := hcopied.assigned
  have hfresh := (hassigned.numbered.fresh copied (List.mem_map.2 ⟨_, hcopied.entry, rfl⟩)).2.1
  have hknown : d₁.pages.known.Perm (⟨d.pages.next, copied, slot.size, slot.rotation, true⟩ ::
      d.pages.known) := by
    rw [Roster.known, Roster.known, hlive', hlive, hstep.keeps.removed, List.append_assoc,
      List.append_assoc, List.cons_append]
    exact List.perm_middle
  have hview : Within d₁.incremental.newDocument.objects d₁.view :=
    fun id object => IncrementalDocument.lookup_view_of_new
  refine ⟨hgrounded, ?_, fun other hother => ?_, ?_, ?_, fun other hother value hvalue => ?_⟩
  · rw [(hknown.map PageSlot.objectId).nodup_iff, List.map_cons, List.nodup_cons]
    refine ⟨fun hmem => ?_, h.distinct⟩
    obtain ⟨old, hold, hid⟩ := List.mem_map.1 hmem
    have hbounded := h.slot_bounded hold
    rw [hid] at hbounded
    exact absurd hfresh (Nat.not_lt.2 hbounded)
  · rcases List.mem_cons.1 (hknown.mem_iff.1 hother) with rfl | hold
    · rfl
    · exact h.turned other hold
  · intro key hkey
    obtain ⟨node, hnode⟩ := h.root
    rw [hgrown.rootPagesId, hgrown.entryOf (h.mem_view (Finmap.mem_of_lookup_eq_some hnode))]
    exact h.root_entries key hkey
  · rw [hgrown.previous]
    exact h.apart
  · rcases List.mem_cons.1 (hknown.mem_iff.1 hother) with rfl | hold
    · have hcreated : copied ∉ d₁.incremental.previous.objects := by
        rw [hgrown.previous]
        exact h.not_mem_previous (h.grows.trans_lt hfresh)
      have hbox : entryOf d₁.view copied "MediaBox" =
          (findInheritedAttribute source slot.objectId "MediaBox").map (Object.rename mapping.apply) := by
        rw [← hcopied.entryOf_inherited hdict (by decide)]
        exact entryOf_congr ((hview _ _ hcopied.detached).trans hcopied.detached.symm) _
      rw [attributeOf_created hcreated, hbox] at hvalue
      obtain ⟨found, hfound, rfl⟩ := Option.map_eq_some_iff.1 hvalue
      refine travels_of_copied hcopied hdict hview hslot hfound ((hslot.box found hfound).mono fun id hid => ?_)
      exact hid.resolve_right not_false
    · rw [hgrown.attributeOf (h.slot_bounded hold)] at hvalue
      exact hgrown.travels h.toGrounded (h.travels other hold value hvalue)

/-- Bringing in pages whose boxes travel, whether or not all of them go through. -/
theorem Gathering.importPages (h : Gathering d pages) {source : PdfDocument} {ids : List PageId}
    (hslots : ∀ slots, ids.mapM source.pages.findSlot = .ok slots →
      ∀ slot ∈ slots, Importable source.view (fun _ => False) slot) (atIndex : Nat) :
    Gathering (importPages source ids atIndex d).2 pages := by
  rcases importPages_cases source ids atIndex d with hsame | ⟨slots, dirty, revision, hat, hfound, heq⟩
  · rwa [hsame]
  · have himported : Gathering (importResolved source.view slots atIndex d).2 pages :=
      importResolved_induct (P := (Gathering · pages))
        (fun slot hslot _ _ _ _ hstep hd => hstep.gathering hd (hslots slots hfound slot hslot)) hat h
    rw [heq]
    exact himported.of_same rfl rfl rfl

end Rounds

section Sources

variable [Lopdf] [LawfulLopdf]

/-- The pages of a whole file can be brought in. -/
theorem importable_of_load {file : LopdfDocument} {root : ObjectId} (h : Whole file root pages)
    {id : DocumentId} (hload : load id file = .ok d) :
    ∀ slot ∈ d.pages.live, Importable d.view (fun _ => False) slot := by
  obtain ⟨-, -, -, hincremental, -⟩ := load_eq_ok hload
  obtain ⟨-, hids, hread⟩ := load_lists hload h.toProperTree
  intro slot hslot
  have hpage : slot.objectId ∈ pages := hids ▸ List.mem_map_of_mem hslot
  rw [view_of_load hincremental]
  exact ⟨h.toProperTree.stated _ hpage, (hread slot hslot).1, fun value hvalue =>
    (h.travels _ (List.mem_cons_of_mem _ hpage) value hvalue).mono fun _ => .inl⟩

/-- Nothing is gathered yet in a document created from nothing. -/
theorem gathering_of_empty {env : SaveEnv} {id : DocumentId} {file : LopdfDocument} {root : ObjectId}
    (hparse : env.parse buildEmptyDocument = .ok file) (hpageless : Pageless file root)
    (h : empty env id = .ok d) : Gathering d [] := by
  have hblank := blank_of_empty hparse hpageless h
  have hknown : d.pages.known = [] := by rw [Roster.known, hblank.live, hblank.removed, List.append_nil]
  refine ⟨hblank.sound.toGrounded, ?_, ?_, ?_, ?_, ?_⟩
  · rw [hknown]
    exact List.nodup_nil
  · rw [hknown]
    exact List.forall_mem_nil _
  · exact hblank.root
  · exact List.forall_mem_nil _
  · rw [hknown]
    exact List.forall_mem_nil _

end Sources
end Gathering
end PdfDocument

theorem NestedFile.whole : Whole NestedFile.file (2, 0) [(4, 0), (5, 0), (6, 0)] where
  toTidy := NestedFile.tidy
  travels node hnode value hvalue := by
    have hdirect : ∀ node ∈ [(2, 0), (4, 0), (5, 0), (6, 0)], ∀ box ∈
        findInheritedAttribute NestedFile.file.objects node "MediaBox", box.links = [] := by
      decide +kernel
    exact travels_of_direct (hdirect node hnode value hvalue)

end OpdfEditor
