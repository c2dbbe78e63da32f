import OpdfEditor.PageConservation
import OpdfEditor.PdfCompaction
import OpdfEditor.PdfPortable

/-!
The two documents a split leaves, each written out compacted. The first half keeps the
first pages under a flattened page tree, where a page that found no box or no rotation
takes that of the root; the second half holds copies.
-/
namespace OpdfEditor
namespace PdfDocument

/-! ### The first half -/

theorem Rearranged.trans {d d₁ d₂ : PdfDocument} (h : Rearranged d d₁) (h' : Rearranged d₁ d₂) :
    Rearranged d d₂ where
  known := h'.known.trans h.known
  incremental := h'.incremental.trans h.incremental
  rootPagesId := h'.rootPagesId.trans h.rootPagesId
  dirty := by rw [h'.dirty, h.dirty]

/-- Removing a live page leaves the pages before and after it. -/
theorem removePage_at {d : PdfDocument} {before after : List PageSlot} {slot : PageSlot}
    (hlive : d.pages.live = before ++ slot :: after) :
    Rearranged d (d.removePage slot.id).2 ∧ (d.removePage slot.id).2.pages.live = before ++ after := by
  have hmem : slot.id ∈ d.pages.ids := by
    rw [Roster.ids, hlive, List.map_append]
    exact List.mem_append_right _ List.mem_cons_self
  obtain ⟨pages, hremove, -⟩ := Roster.removeSlot_filter hmem
  obtain ⟨before', slot', after', hlive', hid, hpages, -⟩ := Roster.removeSlot_eq_ok.1 hremove
  obtain ⟨rfl, -, rfl⟩ := Roster.split_unique (hlive ▸ d.pages.live_nodup)
    (hlive.symm.trans hlive') hid.symm
  unfold removePage
  rw [hremove]
  exact ⟨⟨Roster.removeSlot_known hremove, rfl, rfl, rfl⟩, hpages⟩

/-- Removing the last pages one after the other leaves the first. -/
theorem removeEach_last [Lopdf] {tail : List PageSlot} (htail : tail ≠ []) {d : PdfDocument}
    {head : List PageSlot} (hlive : d.pages.live = head ++ tail) :
    Rearranged d (removeEach d (tail.map pageId)) ∧
      (removeEach d (tail.map pageId)).pages.live = head := by
  induction tail generalizing d with
  | nil => exact absurd rfl htail
  | cons slot tail ih =>
    obtain ⟨hmoved, hrest⟩ := removePage_at hlive
    rcases List.eq_nil_or_concat tail with rfl | ⟨init, last, heq⟩
    · exact ⟨hmoved, hrest.trans (List.append_nil _)⟩
    · obtain ⟨hlater, hhead⟩ := ih (by rw [heq]; simp) hrest
      exact ⟨hmoved.trans hlater, hhead⟩

/-! ### What a flattened page tree reads as -/

/-- What a page shows in a file. -/
def pageShown (objects : Objects) (page : ObjectId) : PageSize × Rotation :=
  (readPageSize objects page, readPageRotation objects page)

/-- What a page shows right under the root of a page tree: what it finds, or else what the root
carries. -/
def flatShown (objects : Objects) (root page : ObjectId) : PageSize × Rotation :=
  (measuredSize objects
      ((findInheritedAttribute objects page "MediaBox").or (entryOf objects root "MediaBox")),
    measuredRotation objects
      ((findInheritedAttribute objects page "Rotate").or (entryOf objects root "Rotate")))

/-- A page found a box and a rotation, or the root gives it none that reads otherwise. -/
structure KeepsLooks (objects : Objects) (root page : ObjectId) : Prop where
  box : findInheritedAttribute objects page "MediaBox" = none →
    measuredSize objects (entryOf objects root "MediaBox") = defaultPageSize
  rotation : findInheritedAttribute objects page "Rotate" = none →
    measuredRotation objects (entryOf objects root "Rotate") = .none

theorem flatShown_eq_iff {objects : Objects} {root page : ObjectId} :
    flatShown objects root page = pageShown objects page ↔ KeepsLooks objects root page := by
  rw [pageShown, readPageSize_eq, readPageRotation_eq, flatShown, Prod.mk.injEq]
  constructor
  · rintro ⟨hsize, hrotation⟩
    refine ⟨fun hnone => ?_, fun hnone => ?_⟩
    · rwa [hnone, Option.none_or] at hsize
    · rwa [hnone, Option.none_or] at hrotation
  · rintro ⟨hbox, hrotation⟩
    constructor
    · cases hfound : findInheritedAttribute objects page "MediaBox" with
      | some box => rw [Option.some_or]
      | none => exact hbox hfound
    · cases hfound : findInheritedAttribute objects page "Rotate" with
      | some value => rw [Option.some_or]
      | none => exact hrotation hfound

section Flattened

variable [Lopdf] [LawfulLopdf] {d d₁ : PdfDocument} {pages : List ObjectId}

/-- After a structural save of a document nothing was appended to, a page that is not turned finds
what it did, or what the root carries. -/
theorem Sound.found_flattened (h : Sound d pages) (hview : d.view = d.incremental.previous.objects)
    (hm : d.materializeChanges = (.ok (), d₁)) (hstructural : d.dirty.structural = true)
    {slot : PageSlot} (hslot : slot ∈ d.pages.live) (hunturned : ¬ d.Rotates slot.objectId)
    {key : String} (hkey : key ∈ inheritableKeys) :
    findInheritedAttribute d₁.view slot.objectId key =
      (findInheritedAttribute d.view slot.objectId key).or (entryOf d.view d.rootPagesId key) := by
  have hpage : slot.objectId ∈ d.incremental.previous.objects := by
    obtain ⟨dict, hdict⟩ := (h.backed slot (List.mem_append_left _ hslot)).dict
    rw [← hview]
    exact Finmap.mem_of_lookup_eq_some hdict
  have hkids : key ≠ "Kids" := by
    rintro rfl
    simp [inheritableKeys] at hkey
  have hcount : key ≠ "Count" := by
    rintro rfl
    simp [inheritableKeys] at hkey
  rw [h.find_materialized hm hstructural hslot hkids hcount,
    h.entry_materialized hm hstructural hslot hkey (fun hrotate => hunturned hrotate.2)
      (fills_of_view hview hpage key), attributeOf_previous hpage, ← hview]

/-- The file such a document is compacted into shows its pages right under the root. -/
theorem Sound.reads_flattened (h : Sound d pages) (hview : d.view = d.incremental.previous.objects)
    (hstructural : d.dirty.structural = true)
    (hunturned : ∀ slot ∈ d.pages.live, slot.rotationChanged = false)
    (hm : d.materializeChanges = (.ok (), d₁)) {file : LopdfDocument}
    (hfile : d₁.buildCompactedDocument.ReadsBackAs file) (hlive : d.pages.live ≠ [])
    (newId : DocumentId) : ∃ reopened, load newId file = .ok reopened ∧
      reopened.pages.live.map PageSlot.shown =
        d.pages.live.map fun slot => flatShown d.view d.rootPagesId slot.objectId := by
  have hnot : ∀ slot ∈ d.pages.live, ¬ d.Rotates slot.objectId := by
    rintro slot hslot ⟨-, turned, hturned, hchanged, -⟩
    rw [hunturned turned hturned] at hchanged
    cases hchanged
  -- the slots as the written file shows them
  let reshown (slot : PageSlot) : PageSlot :=
    { slot with
      size := (flatShown d.view d.rootPagesId slot.objectId).1
      rotation := (flatShown d.view d.rootPagesId slot.objectId).2 }
  have hids : (d.pages.live.map reshown).map PageSlot.objectId =
      d.pages.live.map PageSlot.objectId := List.map_map
  obtain ⟨-, hprevious, -⟩ := materialized_same h.toGrounded hm
  have hmerged : Depicts d₁.mergedDocument d.rootPagesId (d.pages.live.map reshown) := by
    refine ⟨?_, fun shown hshown => ?_, fun shown hshown => ?_⟩
    · rw [hids]
      refine h.properTree hm rfl ?_
      simp only [mergedDocument, hprevious]
      exact Dictionary.get_remove_of_ne (by decide) _
    · obtain ⟨slot, hslot, rfl⟩ := List.mem_map.1 hshown
      have hfound := h.found_flattened hview hm hstructural hslot (hnot slot hslot)
        (show "MediaBox" ∈ inheritableKeys by decide)
      exact (readPageSize_eq _ _).trans
        ((congrArg _ hfound).trans (h.measuredSize_materialized hm _))
    · obtain ⟨slot, hslot, rfl⟩ := List.mem_map.1 hshown
      have hfound := h.found_flattened hview hm hstructural hslot (hnot slot hslot)
        (show "Rotate" ∈ inheritableKeys by decide)
      exact (readPageRotation_eq _ _).trans
        ((congrArg _ hfound).trans (h.measuredRotation_materialized hm _))
  obtain ⟨f, hdepicts⟩ := hmerged.compacted hfile
  obtain ⟨reopened, hload, hshown⟩ := hdepicts.load (by simpa using hlive) newId
  refine ⟨reopened, hload, ?_⟩
  rw [hshown, List.map_map, List.map_map]
  rfl

end Flattened

/-! ### What copies of pages read as -/

/-- What the copies of pages show in a document without pages, numbered so far. -/
def carriedShown (maxId : Nat) (objects : Objects) (pages : List ObjectId) :
    List (PageSize × Rotation) :=
  let mappings := handedOut objects pages maxId
  (pages.zip mappings).map fun carried =>
    (carriedSize objects mappings carried.2 carried.1, readPageRotation objects carried.1)

/-- The copies of pages measure what the pages do. -/
def BoxesCarry (maxId : Nat) (objects : Objects) (pages : List ObjectId) : Prop :=
  let mappings := handedOut objects pages maxId
  ∀ carried ∈ pages.zip mappings,
    carriedSize objects mappings carried.2 carried.1 = readPageSize objects carried.1

theorem carriedShown_eq_iff {maxId : Nat} {objects : Objects} {pages : List ObjectId} :
    carriedShown maxId objects pages = pages.map (pageShown objects) ↔
      BoxesCarry maxId objects pages := by
  have hpages : pages.map (pageShown objects) =
      (pages.zip (handedOut objects pages maxId)).map (pageShown objects ·.1) :=
    calc pages.map (pageShown objects)
        = ((pages.zip (handedOut objects pages maxId)).map Prod.fst).map (pageShown objects) := by
          rw [List.map_fst_zip (length_handedOut _ _ _).ge]
      _ = _ := List.map_map
  rw [hpages, carriedShown, List.map_inj_left]
  simp [pageShown, BoxesCarry]

theorem carriedPages_eq_shown {maxId : Nat} {objects : Objects} {slots : List PageSlot}
    (hread : ∀ slot ∈ slots, readPageRotation objects slot.objectId = slot.rotation) :
    carriedPages objects slots (handedOut objects (slots.map PageSlot.objectId) maxId) =
      carriedShown maxId objects (slots.map PageSlot.objectId) := by
  rw [carriedShown, carriedPages, List.zip_map_left, List.map_map]
  refine List.map_congr_left fun carried hcarried => ?_
  exact Prod.ext rfl (hread carried.1 (List.of_mem_zip hcarried).1).symm

/-! ### Both halves, written and read back in -/

section Halves

variable [Lopdf] [LawfulLopdf] {id : DocumentId} {file : LopdfDocument} {root : ObjectId}
  {pages : List ObjectId} {opened target head tail : PdfDocument} {boundary maxId : Nat}
  {inverse : Command PdfDocument}

/-- The file the first half is written to shows the first pages under a flattened tree. -/
theorem head_reads_back (hload : load id file = .ok opened) (htree : ProperTree file root pages)
    (hcounted : file.Counted) (hsplit : splitAt opened target boundary = (.ok inverse, head, tail))
    (hboundary : boundary < pages.length) {env : SaveEnv} (hfaithful : env.FaithfulTo head)
    {written : LopdfDocument} {head' : PdfDocument}
    (hsave : head.saveCompacted env = (.ok written, head')) :
    ∃ file', env.parse written = .ok file' ∧ ∀ readerId, ∃ reopened,
      load readerId file' = .ok reopened ∧
      reopened.pages.live.map PageSlot.shown = (pages.take boundary).map (flatShown file.objects root) := by
  have hsound := sound_load hload htree hcounted
  obtain ⟨rfl, hids, hread⟩ := load_lists hload htree
  obtain ⟨-, -, -, hincremental, -⟩ := load_eq_ok hload
  have htail : opened.pages.live.drop boundary ≠ [] := by
    rw [← hids, List.length_map] at hboundary
    simpa using hboundary
  obtain ⟨hmoved, hlive⟩ := removeEach_last htail (List.take_append_drop boundary _).symm
  have hhead : head = removeEach opened ((opened.pages.live.drop boundary).map pageId) := by
    rw [splitAt_head hsplit, List.map_drop]
    rfl
  rw [← hhead] at hmoved hlive
  have hview : head.view = file.objects :=
    (congrArg IncrementalDocument.view hmoved.incremental).trans (view_of_load hincremental)
  have hprevious : head.incremental.previous = file := by
    rw [hmoved.incremental, hincremental]
    rfl
  have hstructural : head.dirty.structural = true := by rw [hmoved.dirty]
  obtain ⟨d₁, file', hnonempty, hm, rfl, hparse, -⟩ := saveCompacted_ok hsave
  refine ⟨file', hparse, fun readerId => ?_⟩
  obtain ⟨reopened, hreopened, hshown⟩ := (hmoved.sound hsound).reads_flattened
    (hview.trans (congrArg LopdfDocument.objects hprevious).symm) hstructural
    (fun slot hslot => (hread slot (List.mem_of_mem_take (hlive ▸ hslot))).2.2) hm
    (hfaithful _ ⟨_, hm, rfl⟩ _ hparse).1 (fun hnil => hnonempty (congrArg List.length hnil)) readerId
  refine ⟨reopened, hreopened, ?_⟩
  rw [hshown, hlive, hview, hmoved.rootPagesId, ← hids, ← List.map_take, List.map_map]
  rfl

theorem load_shown (hload : load id file = .ok opened) (htree : ProperTree file root pages) :
    opened.pages.live.map PageSlot.shown = pages.map (pageShown file.objects) := by
  obtain ⟨-, hids, hread⟩ := load_lists hload htree
  rw [← hids, List.map_map]
  exact List.map_congr_left fun slot hslot =>
    Prod.ext (hread slot hslot).1.symm (hread slot hslot).2.1.symm

/-- The file the second half is written to shows what the copies of the last pages do. -/
theorem tail_reads_back (hload : load id file = .ok opened) (htree : ProperTree file root pages)
    (hblank : Blank maxId target) (hsplit : splitAt opened target boundary = (.ok inverse, head, tail))
    (hboundary : boundary < pages.length) {env : SaveEnv} (hfaithful : env.FaithfulTo tail)
    {written : LopdfDocument} {tail' : PdfDocument}
    (hsave : tail.saveCompacted env = (.ok written, tail')) :
    ∃ file', env.parse written = .ok file' ∧ ∀ readerId, ∃ reopened,
      load readerId file' = .ok reopened ∧
      reopened.pages.live.map PageSlot.shown =
        carriedShown maxId file.objects (pages.drop boundary) := by
  obtain ⟨-, hids, hread⟩ := load_lists hload htree
  obtain ⟨-, -, -, hincremental, -⟩ := load_eq_ok hload
  have hview := view_of_load hincremental
  have hdropped : (opened.pages.live.drop boundary).map PageSlot.objectId = pages.drop boundary := by
    rw [List.map_drop, hids]
  obtain ⟨newIds, -, himport, -, -⟩ := splitAt_eq_ok hsplit
  have hcount : Document.pageCount target = 0 := congrArg List.length hblank.live
  have htailIds : (Document.pageIds opened).drop boundary =
      (opened.pages.live.drop boundary).map pageId := List.map_drop.symm
  rw [hcount, htailIds] at himport
  have hslots : ((opened.pages.live.drop boundary).map pageId).mapM opened.pages.findSlot =
      .ok (opened.pages.live.drop boundary) := by
    refine Traversal.mapM_eq_ok.2 (List.forall₂_map_left_iff.2 (List.forall₂_same.2 fun slot hslot => ?_))
    exact Roster.findSlot_eq_ok.2 ⟨List.mem_of_mem_drop hslot, rfl⟩
  have hpage : ∀ slot ∈ opened.pages.live.drop boundary, ∀ object,
      opened.view.lookup slot.objectId = some object → object.asDict.isSome = true → IsPage object := by
    intro slot hslot object hobject _
    have hmem : slot.objectId ∈ pages := hids ▸ List.mem_map_of_mem (List.mem_of_mem_drop hslot)
    obtain ⟨dict, hdict, htype⟩ :=
      lookup_of_entryOf (statedType_page.1 (htree.stated slot.objectId hmem))
    rw [hview, hdict] at hobject
    exact ⟨dict, (Option.some.inj hobject).symm, htype⟩
  have hgathered := gathered_of_import hblank hslots hpage himport
  rw [hview] at hgathered
  have hcarried := @carriedPages_eq_shown maxId _ _ fun slot hslot =>
    (hread slot (List.mem_of_mem_drop (i := boundary) hslot)).2.1
  have htail : opened.pages.live.drop boundary ≠ [] := by
    rw [← hids, List.length_map] at hboundary
    simpa using hboundary
  have hnonempty : carriedShown maxId file.objects (pages.drop boundary) ≠ [] := by
    rw [← hdropped, ← hcarried]
    refine List.ne_nil_of_length_pos ?_
    rw [length_carriedPages]
    exact List.length_pos_iff.2 htail
  obtain ⟨d₁, file', -, hm, rfl, hparse, -⟩ := saveCompacted_ok hsave
  refine ⟨file', hparse, fun readerId => ?_⟩
  rw [← hdropped, ← hcarried] at hnonempty ⊢
  exact hgathered.reads_back hblank (dirty_of_import (by simpa using htail) himport) hm
    (hfaithful _ ⟨_, hm, rfl⟩ _ hparse).1 hnonempty readerId

end Halves

end PdfDocument
end OpdfEditor
