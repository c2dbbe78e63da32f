import OpdfEditor.PdfBinding
import OpdfEditor.PdfReopening
import OpdfEditor.WalkingLopdf

/-!
What a compaction binds each identity to. The n-th slot gets the n-th page of the
rewritten file, which is the page it named as long as the page tree lists the slots in
order: because it was flattened, or because nothing was done to pages and tree alike.
An import that fails part-way leaves slots in with neither.
-/
namespace OpdfEditor
namespace PdfDocument

variable [Lopdf]

/-! ### Page trees that were not edited -/

/-- The slots name the pages of the file, in order, and only rotations were written. -/
structure Untouched (d : PdfDocument) : Prop where
  live : d.pages.live.map PageSlot.objectId = Lopdf.pageIter d.incremental.previous
  own : ∀ id object, d.incremental.newDocument.objects.lookup id = some object →
    id ∈ d.incremental.previous.objects ∧ ∃ dict, object = .dictionary dict
  amends : Amends ["Rotate"] d.incremental

theorem untouched_of_empty {d : PdfDocument} (hempty : d.incremental.newDocument.objects = ∅)
    (hlive : d.pages.live.map PageSlot.objectId = Lopdf.pageIter d.incremental.previous) :
    Untouched d := by
  refine ⟨hlive, ?_, ?_⟩
  · intro id object hobject
    rw [hempty] at hobject
    cases hobject
  · intro id object hobject
    rw [hempty] at hobject
    cases hobject

theorem Untouched.of_same {d d' : PdfDocument} (h : Untouched d)
    (hincremental : d'.incremental = d.incremental)
    (hlive : d'.pages.live.map PageSlot.objectId = d.pages.live.map PageSlot.objectId) :
    Untouched d' := by
  refine ⟨?_, ?_, ?_⟩
  · rw [hlive, hincremental]
    exact h.live
  · rw [hincremental]
    exact h.own
  · rw [hincremental]
    exact h.amends

theorem Turned.untouched {rotation : Rotation} {d d' : PdfDocument} (hturned : Turned rotation d d')
    (h : Untouched d) : Untouched d' := by
  obtain ⟨before, turned, after, hlive, hlive'⟩ := hturned.live
  refine h.of_same hturned.incremental ?_
  rw [hlive, hlive', List.map_append, List.map_append]
  rfl

/-- The slots of a document freshly opened name the pages of its file. -/
theorem untouched_load {id : DocumentId} {file : LopdfDocument} {d : PdfDocument}
    (h : load id file = .ok d) : Untouched d := by
  obtain ⟨-, hpages, -, hincremental, -⟩ := load_eq_ok h
  obtain ⟨-, hlive⟩ := readPages_live file
  refine untouched_of_empty ?_ ?_
  · rw [hincremental]
    rfl
  · have hids := congrArg (List.map PageSlot.objectId) hlive
    rw [List.map_map, List.map_map] at hids
    rw [hpages, hincremental]
    exact hids.trans (List.map_id _)

/-- A document continued from the file it was compacted into names the pages of that. -/
theorem Rebased.untouched {file : LopdfDocument} {d d' : PdfDocument} (h : Rebased file d d') :
    Untouched d' := by
  refine untouched_of_empty ?_ ?_
  · rw [h.incremental]
    rfl
  · have hpage : (fun (slot : PageSlot) (id : ObjectId) => (rebindSlot slot id).objectId) =
        fun _ id => id := rfl
    have hprevious : d'.incremental.previous = file := congrArg IncrementalDocument.previous h.incremental
    calc d'.pages.live.map PageSlot.objectId
        = List.zipWith (fun _ id => id) d.pages.live (Lopdf.pageIter file) := by
          rw [h.live, List.map_zipWith, hpage]
      _ = (List.zip d.pages.live (Lopdf.pageIter file)).map Prod.snd := by
          rw [List.zip, List.map_zipWith]
      _ = Lopdf.pageIter d'.incremental.previous := by
          rw [List.map_snd_zip (Nat.le_of_eq h.length), hprevious]

theorem Starts.untouched {d : PdfDocument} (h : Starts d) [LawfulLopdf] : Untouched d := by
  cases h with
  | opened hload _ => exact untouched_load hload
  | created hparse hpageless hempty =>
    obtain ⟨-, hpages, hincremental, -⟩ := empty_eq_ok hparse hpageless hempty
    refine untouched_of_empty ?_ ?_
    · rw [hincremental]
      rfl
    · rw [hpages, hincremental]
      exact (LawfulLopdf.pageIter_eq hpageless.toPageTree).symm

/-! ### Imports that fail part-way -/

/-- An import that does not fail part-way changes no page, or leaves the tree to be flattened. -/
theorem importPages_whole [LawfulDereference] {source : PdfDocument} {ids : List PageId} {atIndex : Nat}
    {d : PdfDocument} (h : ¬ ImportsPartly source ids atIndex d) :
    (importPages source ids atIndex d).2.dirty.structural = true ∨
      ∃ revision, (importPages source ids atIndex d).2 = { d with revision } := by
  unfold importPages
  cases hcheck : d.pages.checkInsertionIndex atIndex with
  | error e => exact .inr ⟨d.revision, rfl⟩
  | ok _ =>
    have hat := checkInsertionIndex_eq_ok.1 hcheck
    cases hresolve : ids.mapM source.pages.findSlot with
    | error e => exact .inr ⟨d.revision, rfl⟩
    | ok slots =>
      dsimp only
      cases slots with
      | nil => exact .inr ⟨d.revision + 1, rfl⟩
      | cons slot slots =>
        rcases importResolved_cons source.view slot slots d hat with ⟨hnone, heq⟩ | ⟨id, d₁, hstep, heq⟩
        · rw [heq, copyPageInto_none (not_isCopyable_of_none hnone)]
          exact .inr ⟨d.revision, rfl⟩
        have hlength := hstep.length
        rcases importResolved_error source.view slots d₁ (by omega : atIndex + 1 ≤ d₁.pages.live.length)
          with ⟨-, newIds, hok⟩ | ⟨before, bad, after, hsplit, -, hbad, -⟩
        · rw [heq, hok]
          exact .inl rfl
        · refine absurd ⟨hat, slot, slots, hresolve, isCopyable_of_step hstep, bad, ?_, hbad⟩ h
          rw [hsplit]
          exact List.mem_append_right _ List.mem_cons_self

theorem importPortable_whole [LawfulDereference] {sourceId : DocumentId} {pages : PortablePages}
    {atIndex : Nat} {d : PdfDocument} (h : ¬ CarriesPartly sourceId pages atIndex d) :
    (importPortable sourceId pages atIndex d).2.dirty.structural = true ∨
      ∃ revision, (importPortable sourceId pages atIndex d).2 = { d with revision } := by
  unfold importPortable
  split
  · exact .inr ⟨d.revision, rfl⟩
  split
  · exact .inr ⟨d.revision, rfl⟩
  · exact .inr ⟨d.revision + 1, rfl⟩
  rename_i bytes hnonempty hbytes
  split
  · exact .inr ⟨d.revision, rfl⟩
  rename_i source hsource
  refine importPages_whole fun hpartly => h ?_
  cases bytes with
  | empty => cases hsource
  | damaged e => cases hsource
  | file file =>
    cases pages with
    | vecPayload pages => cases hbytes
    | pdfPayload carried =>
      cases hbytes
      exact ⟨file, source, rfl, hsource, hpartly⟩

/-- The call is an import that fails with some of its pages in. -/
def FailsPartly (d : PdfDocument) : SessionStep → Prop
  | .importFrom source ids atIndex => ImportsPartly source ids atIndex d
  | .importPortable sourceId pages atIndex => CarriesPartly sourceId pages atIndex d
  | _ => False

/-- The call is a compaction that succeeds. -/
def Rewrites (d : PdfDocument) : SessionStep → Prop
  | .saveCompacted env => (d.saveCompacted env).1.isOk = true
  | _ => False

/-- Some import of the run failed part-way and the file was not rewritten since; `torn` says the
same of what came before the run. -/
def Torn (d : PdfDocument) (torn : Prop) : List SessionStep → Prop
  | [] => torn
  | step :: steps => Torn (d.step step) (d.FailsPartly step ∨ torn ∧ ¬ d.Rewrites step) steps

/-! ### Saves that write rotations only -/

/-- Where the tree is not to be flattened, a save writes rotations of listed pages. -/
theorem Untouched.pending {d : PdfDocument} (h : Untouched d) (hstructural : d.dirty.structural = false)
    {edit : Edit} (hedit : d.Pending edit) :
    edit.key = "Rotate" ∧ edit.target ∈ Lopdf.pageIter d.incremental.previous := by
  cases hedit with
  | inherited htrue _ _ => simp [hstructural] at htrue
  | parent htrue _ => simp [hstructural] at htrue
  | kids htrue => simp [hstructural] at htrue
  | count htrue => simp [hstructural] at htrue
  | rotation _ hslot _ => exact ⟨rfl, h.live ▸ List.mem_map_of_mem hslot⟩

variable [LawfulWalk]

theorem Untouched.materialize {d : PdfDocument} (h : Untouched d) (hsettled : d.Settled)
    (hstructural : d.dirty.structural = false) : Untouched (d.materializeChanges).2 := by
  have htouched := materializeChanges_touched hsettled
  have hkeeps := d.materializeChanges_keeps
  have hholds : IncrementalDocument.Holds (fun id object =>
      (id ∈ d.incremental.previous.objects ∧ ∃ dict, object = .dictionary dict) ∧
      ∃ original, Objects.getObject d.incremental.previous.objects id = .ok original ∧
        SameBut ["Rotate"] original object) (d.incremental.applyEdits d.pendingEdits).2 := by
    refine IncrementalDocument.applyEdits_holds (fun edit hedit => ⟨fun object hobject => ?_, ?_⟩)
      (fun edit hedit => hsettled.settled _ (mem_pendingEdits.1 hedit).names) ?_
    · obtain ⟨-, hlisted⟩ := h.pending hstructural (mem_pendingEdits.1 hedit)
      obtain ⟨page, hpage, dict, rfl, -⟩ := page_of_listed hlisted
      rw [hobject] at hpage
      cases hpage
      exact ⟨⟨mem_of_getObject hobject, dict, rfl⟩, _, hobject, .refl _ _⟩
    · rintro dict ⟨⟨hmem, -⟩, original, horiginal, halike⟩
      obtain ⟨hkey, -⟩ := h.pending hstructural (mem_pendingEdits.1 hedit)
      refine ⟨⟨hmem, _, rfl⟩, original, horiginal, halike.set ?_ edit.value⟩
      rw [hkey]
      exact List.mem_singleton_self _
    · intro id object hobject
      have hown := h.own id object hobject
      exact ⟨hown, h.amends id object hobject hown.1⟩
  have hincremental : (d.materializeChanges).2.incremental =
      (d.incremental.applyEdits d.pendingEdits).2 := rfl
  rw [← hincremental] at hholds
  refine ⟨?_, ?_, ?_⟩
  · rw [htouched.previous, hkeeps]
    exact h.live
  · rw [htouched.previous]
    exact fun id object hobject => (hholds id object hobject).1
  · intro id object hobject _
    rw [htouched.previous]
    exact (hholds id object hobject).2

/-! ### Runs -/

/-- The tree is to be flattened, or nothing was done to pages and tree. -/
def Aligned (d : PdfDocument) : Prop := d.dirty.structural = true ∨ Untouched d

theorem Aligned.materialize {d : PdfDocument} (h : Aligned d) (hsettled : d.Settled) :
    Aligned (d.materializeChanges).2 := by
  cases hstructural : d.dirty.structural with
  | true =>
    rw [d.materializeChanges_keeps]
    exact .inl hstructural
  | false =>
    rcases h with htrue | huntouched
    · simp [hstructural] at htrue
    · exact .inr (huntouched.materialize hsettled hstructural)

omit [LawfulWalk] in
theorem Rewrites.untouched {d : PdfDocument} {step : SessionStep} (h : d.Rewrites step) :
    Untouched (d.step step) := by
  cases step with
  | saveCompacted env =>
    rcases hsave : d.saveCompacted env with ⟨e | written, d'⟩
    · simp [Rewrites, hsave, Except.isOk, Except.toBool] at h
    · obtain ⟨d₁, file, -, -, -, -, hrebased⟩ := saveCompacted_ok hsave
      have hstep : d.step (.saveCompacted env) = d' := congrArg Prod.snd hsave
      rw [hstep]
      exact hrebased.untouched
  | _ => cases h

/-- A call other than an import that fails part-way keeps pages and tree aligned. -/
theorem Aligned.step {d : PdfDocument} (h : Aligned d) (hsettled : d.Settled) {step : SessionStep}
    (hwhole : ¬ d.FailsPartly step) : Aligned (d.step step) := by
  have hsame : ∀ d', d' = d → Aligned d' := by
    rintro d' rfl
    exact h
  have hmoved : ∀ d', Rearranged d d' → Aligned d' := by
    intro d' hmoved
    refine .inl ?_
    rw [hmoved.dirty]
  have hrevised : ∀ d', (d'.dirty.structural = true ∨ ∃ revision, d' = { d with revision }) →
      Aligned d' := by
    rintro d' (hstructural | ⟨revision, rfl⟩)
    · exact .inl hstructural
    · exact h.imp_right fun huntouched => huntouched.of_same rfl rfl
  cases step with
  | remove id => exact (removePage_cases d id).elim (hsame _) (hmoved _)
  | restore id atIndex => exact (restorePage_cases d id atIndex).elim (hsame _) (hmoved _)
  | move id toIndex => exact (movePage_cases d id toIndex).elim (hsame _) (hmoved _)
  | rotate id rotation =>
    rcases setRotation_cases d id rotation with heq | hturned
    · exact hsame _ heq
    · refine h.imp (fun hstructural => ?_) hturned.untouched
      rw [PdfDocument.step, hturned.dirty]
      exact hstructural
  | insert atIndex size =>
    rcases insertPage_cases d atIndex size with heq | hinserted
    · exact hsame _ heq
    · refine .inl ?_
      rw [PdfDocument.step, hinserted.dirty]
  | importFrom source ids atIndex => exact hrevised _ (importPages_whole hwhole)
  | importPortable sourceId pages atIndex => exact hrevised _ (importPortable_whole hwhole)
  | saveIncremental env => exact saveIncremental_preserves env h (h.materialize hsettled)
  | saveCompacted env =>
    refine saveCompacted_preserves env h (h.materialize hsettled) fun _ _ _ _ _ hrebased => ?_
    exact .inr hrebased.untouched

/-- Pages and tree stay aligned over a run, unless an import fails part-way in it and the file is
not rewritten afterwards. -/
theorem Aligned.run {d : PdfDocument} {torn : Prop} (h : torn ∨ Aligned d) (hsettled : d.Settled)
    {steps : List SessionStep} (hcounts : ∀ step ∈ steps, step.Counts) :
    d.Torn torn steps ∨ Aligned (d.run steps) := by
  induction steps generalizing d torn with
  | nil => exact h
  | cons step steps ih =>
    refine ih ?_ (hsettled.step (hcounts step List.mem_cons_self))
      fun later hlater => hcounts later (List.mem_cons_of_mem _ hlater)
    by_cases hfails : d.FailsPartly step
    · exact .inl (.inl hfails)
    rcases h with htorn | haligned
    · by_cases hrewrites : d.Rewrites step
      · exact .inr (.inr hrewrites.untouched)
      · exact .inl (.inr ⟨htorn, hrewrites⟩)
    · exact .inr (haligned.step hsettled hfails)

/-! ### Compacting -/

/-- The update hangs under the root the file does. -/
theorem Bound.root_merged {d : PdfDocument} (h : Bound d) :
    readRootPagesId d.mergedDocument = .ok d.rootPagesId := by
  obtain ⟨catalogId, catalog, hcatalogId, hcatalog, hpages⟩ := readRootPagesId_eq_ok.1 h.root
  obtain ⟨catalog', hcatalog', hkeys⟩ := h.amends.getDictionary hcatalog
  refine readRootPagesId_eq_ok.2 ⟨catalogId, catalog', ?_, hcatalog', ?_⟩
  · exact (Dictionary.get_remove_of_ne (by decide) _).trans hcatalogId
  · exact (hkeys "Pages" (by decide)).trans hpages

/-- After a structural edit is written, the children of the root are the slots, and pages all. -/
theorem Bound.flattened {d d₁ : PdfDocument} (h : Bound d) (hstructural : d.dirty.structural = true)
    (hm : d.materializeChanges = (.ok (), d₁)) :
    kidsAt d₁.view d.rootPagesId = (d.pages.live.map PageSlot.objectId).map Object.reference ∧
      ∀ id ∈ d.pages.live.map PageSlot.objectId, typeAt d₁.view id = some "Page" := by
  have hbound := h.materialized hm
  obtain ⟨hedited, hkeeps⟩ := materializeChanges_edited h.settled hm
  have hpages : d₁.pages = d.pages := by rw [hkeeps]
  constructor
  · obtain ⟨dict, -, hwritten⟩ := hedited.written _ (mem_pendingEdits.2 (.kids hstructural))
    have hview := IncrementalDocument.lookup_view_of_new hwritten
    have hget : Dictionary.get (Dictionary.setAll
        (IncrementalDocument.editsAt d.rootPagesId d.pendingEdits) dict) "Kids" =
          some (.array d.flatKids) := by
      have hlast := lastWritten_kids hstructural
      rw [lastWritten] at hlast
      rw [Dictionary.get_setAll, hlast]
      rfl
    rw [kidsAt, view, Objects.getDictionary_of_lookup hview]
    simp only [Except.toOption, kidsOf, hget, flatKids, List.map_map]
    rfl
  · intro id hid
    obtain ⟨slot, hslot, rfl⟩ := List.mem_map.1 hid
    obtain ⟨dict, -, hwritten⟩ := hedited.written _ (mem_pendingEdits.2 (.parent hstructural hslot))
    obtain ⟨_, ⟨⟩, hpage⟩ := hbound.page slot (hpages ▸ List.mem_append_left _ hslot) _ hwritten
    rw [typeAt, view, Objects.getDictionary_of_lookup (IncrementalDocument.lookup_view_of_new hwritten)]
    simp only [Except.toOption, Option.bind_some, hpage, Object.asName]

/-- A walk of the tree a save leaves comes to the slots in order, if it comes to as many pages. -/
theorem Bound.walk_merged {d d₁ : PdfDocument} (h : Bound d) (haligned : Aligned d)
    (hm : d.materializeChanges = (.ok (), d₁)) {budget : Nat}
    (hlength : (walk d₁.view budget (treeKids d₁.mergedDocument)).length = d.pages.live.length) :
    walk d₁.view budget (treeKids d₁.mergedDocument) = d.pages.live.map PageSlot.objectId := by
  have hbound := h.materialized hm
  obtain ⟨hedited, hkeeps⟩ := materializeChanges_edited h.settled hm
  have hroot : d₁.rootPagesId = d.rootPagesId := by rw [hkeeps]
  have hpages : d₁.pages = d.pages := by rw [hkeeps]
  have hkids : treeKids d₁.mergedDocument = kidsAt d₁.view d.rootPagesId := by
    rw [treeKids, hbound.root_merged, hroot]
    rfl
  rw [hkids] at hlength ⊢
  cases hstructural : d.dirty.structural with
  | true =>
    obtain ⟨hflat, htype⟩ := h.flattened hstructural hm
    rw [hflat, walk_of_pages htype] at hlength ⊢
    refine List.take_of_length_le ?_
    rw [List.length_take, List.length_map] at hlength
    rw [List.length_map]
    omega
  | false =>
    have huntouched : Untouched d := by
      rcases haligned with htrue | huntouched
      · simp [hstructural] at htrue
      · exact huntouched
    have huntouched₁ : Untouched d₁ := by
      have hmaterialized := huntouched.materialize h.settled hstructural
      rwa [hm] at hmaterialized
    obtain ⟨budget', hiter⟩ := LawfulWalk.pageIter_walk d₁.incremental.previous
    have hlive : d.pages.live.map PageSlot.objectId =
        walk d₁.incremental.previous.objects budget' (kidsAt d₁.incremental.previous.objects d.rootPagesId) := by
      rw [← hpages, huntouched₁.live, hiter, treeKids, hbound.root, hroot]
    have hview : d₁.view = d₁.incremental.view := rfl
    rw [hview, huntouched₁.amends.kidsAt huntouched₁.own (by decide),
      huntouched₁.amends.walk huntouched₁.own (by decide) (by decide)] at hlength ⊢
    rw [hlive]
    refine walk_eq_of_length _ ?_
    rw [hlength, ← hlive, List.length_map]

/-- What a compaction that succeeds should leave: every identity stays where it was and names the
image of the object it named, whatever the survivors were renumbered to. -/
structure RebindsEach (d : PdfDocument) (written : LopdfDocument) (d' : PdfDocument) : Prop where
  renumbered : ∃ f, Renames f (Lopdf.pruneObjects (d.materializeChanges).2.mergedDocument) written
  live : ∀ f, Renames f (Lopdf.pruneObjects (d.materializeChanges).2.mergedDocument) written →
    d'.pages.live = d.pages.live.map (PageSlot.moved f)
  image : ∀ f, Renames f (Lopdf.pruneObjects (d.materializeChanges).2.mergedDocument) written →
    ∀ slot ∈ d.pages.live, d'.view.lookup (f slot.objectId) =
      ((d.materializeChanges).2.view.lookup slot.objectId).map (Object.rename f)
  removed : d'.pages.removed = []
  dirty : d'.dirty = .clean
  id : d'.id = d.id
  revision : d'.revision = d.revision

/-- What a call that fails should leave: pages, trash, base bytes, dirty state and revision. -/
structure LeavesAlone (d d' : PdfDocument) : Prop where
  pages : d'.pages = d.pages
  previous : d'.incremental.previous = d.incremental.previous
  rootPagesId : d'.rootPagesId = d.rootPagesId
  dirty : d'.dirty = d.dirty
  id : d'.id = d.id
  revision : d'.revision = d.revision

/-- A document continued from the file it was compacted into has its slots name the images of what
they named, whatever the survivors were renumbered to. -/
theorem Bound.slots_rebound {d d₁ d' : PdfDocument} (h : Bound d) (haligned : Aligned d)
    (hm : d.materializeChanges = (.ok (), d₁)) {file : LopdfDocument} (hrebased : Rebased file d₁ d')
    (hreads : d₁.buildCompactedDocument.ReadsBackAs file) {f : ObjectId → ObjectId}
    (hf : Renames f (Lopdf.pruneObjects d₁.mergedDocument) d₁.buildCompactedDocument) :
    d'.pages.live = d.pages.live.map (PageSlot.moved f) ∧ ∀ slot ∈ d.pages.live,
      d'.view.lookup (f slot.objectId) = (d₁.view.lookup slot.objectId).map (Object.rename f) := by
  have hpages : d₁.pages = d.pages := by rw [(materializeChanges_edited h.settled hm).2]
  have hbound := h.materialized hm
  obtain ⟨hmoved, hstart, htrailer⟩ := relocates_compacted hf hreads
  obtain ⟨-, hatRoot, budget, hiter⟩ := pageIter_relocated hmoved hstart htrailer hbound.root_merged
  have hkids : treeKids d₁.mergedDocument = kidsAt d₁.mergedDocument.objects d₁.rootPagesId := by
    rw [treeKids, hbound.root_merged]
  have hlength := congrArg List.length hiter
  rw [List.length_map, hrebased.length, hpages] at hlength
  have hwalk : walk d₁.mergedDocument.objects budget (treeKids d₁.mergedDocument) =
      d.pages.live.map PageSlot.objectId := h.walk_merged haligned hm hlength.symm
  have hwalked : ∀ id ∈ walk d₁.mergedDocument.objects budget (treeKids d₁.mergedDocument),
      d₁.mergedDocument.Reaches id := by
    rw [hkids]
    exact hmoved.at_walk (hmoved.kidsAt hatRoot).2
  constructor
  · rw [hrebased.live, hpages, hiter, hwalk, List.map_map, List.zipWith_map_right, List.zipWith_self]
    rfl
  · intro slot hslot
    rw [view_of_load hrebased.incremental]
    exact hmoved.lookup _ (hwalked _ (hwalk ▸ List.mem_map_of_mem hslot))

theorem Bound.rebinds {d d' : PdfDocument} (h : Bound d) (haligned : Aligned d) {env : SaveEnv}
    (hfaithful : env.Faithful) {written : LopdfDocument}
    (hsave : d.saveCompacted env = (.ok written, d')) : RebindsEach d written d' := by
  have hidentity := saveCompacted_identity env d
  rw [hsave] at hidentity
  obtain ⟨d₁, file, -, hm, rfl, hparse, hrebased⟩ := saveCompacted_ok hsave
  obtain ⟨hreads, -⟩ := hfaithful _ _ hparse
  have hfile : (d.materializeChanges).2 = d₁ := congrArg Prod.snd hm
  refine ⟨?_, ?_, ?_, hrebased.removed, hrebased.dirty, hidentity.1, hidentity.2⟩
  · rw [hfile]
    exact LawfulLopdf.renumber _
  · rw [hfile]
    exact fun f hf => (h.slots_rebound haligned hm hrebased hreads hf).1
  · rw [hfile]
    exact fun f hf => (h.slots_rebound haligned hm hrebased hreads hf).2

omit [LawfulWalk] in
/-- A compaction that fails has written pending changes at most. -/
theorem leavesAlone_of_error [LawfulDereference] {d d' : PdfDocument} (h : d.Settled) {env : SaveEnv}
    {e : Error} (hsave : d.saveCompacted env = (.error e, d')) : LeavesAlone d d' := by
  have hprevious : d'.incremental.previous = d.incremental.previous := by
    have hcases := saveCompacted_cases env d
    rw [hsave] at hcases
    rcases hcases with rfl | rfl | ⟨written, ⟨⟩⟩
    · rfl
    · exact (materializeChanges_touched h).previous
  have hkeeps := saveCompacted_error hsave
  refine ⟨?_, hprevious, ?_, ?_, ?_, ?_⟩
  all_goals rw [hkeeps]

/-- After any session, a compaction that succeeds binds every identity to its own object and one
that fails leaves the document alone, provided that no import failed part-way since the file was
opened or last rewritten, or the page tree is to be flattened. -/
theorem compaction_rebinds_each {start : PdfDocument} (hstart : Starts start)
    (steps : List SessionStep) (hcounts : ∀ step ∈ steps, step.Counts)
    (hsources : ∀ source ids atIndex, SessionStep.importFrom source ids atIndex ∈ steps →
      Reachable source) {env : SaveEnv} (hfaithful : env.Faithful) :
    let d := start.run steps
    (¬ start.Torn False steps ∨ d.dirty.structural = true →
      ∀ written d', d.saveCompacted env = (.ok written, d') → RebindsEach d written d') ∧
    ∀ e d', d.saveCompacted env = (.error e, d') → LeavesAlone d d' := by
  intro d
  have hbound : Bound d := (Reachable.run hstart hcounts hsources).bound
  refine ⟨fun hcondition written d' hsave => ?_, fun e d' hsave => leavesAlone_of_error hbound.settled hsave⟩
  refine hbound.rebinds ?_ hfaithful hsave
  have haligned : start.Torn False steps ∨ Aligned d :=
    Aligned.run (.inr (.inr hstart.untouched)) hstart.settled hcounts
  rcases hcondition with hwhole | hstructural
  · exact haligned.resolve_left hwhole
  · exact .inl hstructural

end PdfDocument

namespace TornFile

open ImportFixture (aliasedFile catalog pageObject)
open scoped WalkingLopdf

def file : LopdfDocument where
  version := "1.7"
  objects := [⟨(1, 0), catalog⟩,
    ⟨(2, 0), .dictionary [("Type", .name "Pages"),
      ("Kids", .array [.reference (3, 0), .reference (4, 0)])]⟩,
    ⟨(3, 0), pageObject⟩].toFinmap
  trailer := [("Root", .reference (1, 0))]
  maxId := 3

def opened : PdfDocument := (PdfDocument.load 1 file).toOption.get (by decide +kernel)

def source : PdfDocument := (PdfDocument.load 2 aliasedFile).toOption.get (by decide +kernel)

def torn : PdfDocument := opened.run [.importFrom source [0, 1] 0]

def written : LopdfDocument := torn.materializeChanges.2.buildCompactedDocument

def nested : PdfDocument := (PdfDocument.load 3 NestedFile.file).toOption.get (by decide +kernel)

def steps : List SessionStep := [.remove 0, .importFrom opened [0] 1, .insert 0 .letter,
  .saveCompacted .counting, .rotate 1 .half]

end TornFile

namespace PdfDocument

open scoped WalkingLopdf

/-- An import that fails part-way has a compaction give two identities each other's objects. -/
theorem torn_document_is_rebound_crosswise :
    ∃ opened source written d', load 1 TornFile.file = .ok opened ∧
      load 2 ImportFixture.aliasedFile = .ok source ∧
      (opened.run [.importFrom source [0, 1] 0]).saveCompacted .counting = (.ok written, d') ∧
      ¬ RebindsEach (opened.run [.importFrom source [0, 1] 0]) written d' := by
  refine ⟨TornFile.opened, TornFile.source, TornFile.written, _, rfl, rfl, rfl, fun hrebinds => ?_⟩
  have hids := congrArg (List.map PageSlot.objectId) (hrebinds.live (fun target => target) (.refl _))
  exact absurd hids (by decide +kernel)

/-- A nested tree is flattened by a first compaction and left as it is by a second. -/
theorem nested_pages_are_rebound :
    load 3 NestedFile.file = .ok TornFile.nested ∧ ∃ written d',
      (TornFile.nested.run TornFile.steps).saveCompacted .counting = (.ok written, d') ∧
      RebindsEach (TornFile.nested.run TornFile.steps) written d' := by
  have hload : load 3 NestedFile.file = .ok TornFile.nested := rfl
  have hopened : load 1 TornFile.file = .ok TornFile.opened := rfl
  have hrun : Reachable (TornFile.opened.run []) :=
    .run (.opened hopened (by decide +kernel)) (by simp) (by simp)
  have hcounts : ∀ step ∈ TornFile.steps, step.Counts := by
    simp [TornFile.steps, SessionStep.Counts, SaveEnv.counts_counting]
  have hsources : ∀ source ids atIndex,
      SessionStep.importFrom source ids atIndex ∈ TornFile.steps → Reachable source := by
    intro source ids atIndex hmem
    simp only [TornFile.steps, List.mem_cons, reduceCtorEq, SessionStep.importFrom.injEq,
      List.not_mem_nil, or_false, false_or] at hmem
    rw [hmem.1]
    exact hrun
  have hwhole : ¬ TornFile.nested.Torn False TornFile.steps := by
    simp only [TornFile.steps, Torn, FailsPartly, false_or, false_and, or_false]
    rintro ⟨⟨⟨⟨-, slot, slots, hresolve, -, later, hlater, -⟩, -⟩, -⟩, -⟩
    have hone : [0].mapM TornFile.opened.pages.findSlot = .ok [⟨0, (3, 0), .letter, .none, false⟩] := rfl
    rw [hone] at hresolve
    cases hresolve
    cases hlater
  have hsave : (TornFile.nested.run TornFile.steps).saveCompacted .counting = (.ok _, _) := rfl
  exact ⟨hload, _, _, hsave, (compaction_rebinds_each (.opened hload (by decide +kernel)) TornFile.steps
    hcounts hsources SaveEnv.faithful_counting).1 (.inl hwhole) _ _ hsave⟩

end PdfDocument
end OpdfEditor
