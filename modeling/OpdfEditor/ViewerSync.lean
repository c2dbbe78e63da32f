import OpdfEditor.EditedTiles
import OpdfEditor.LayoutScan
import OpdfEditor.PdfSession

/-!
The viewer in step with the document: after whatever the user and the frames do, it draws the open
document's own snapshot, lays out that snapshot, and is on one of its pages if there are any.
-/
namespace OpdfEditor

/-! ### The current page -/

theorem slice_subset {α : Type} (range : IndexRange) (xs : List α) : range.slice xs ⊆ xs :=
  fun _ h => List.mem_of_mem_drop (List.mem_of_mem_take h)

/-- The best page so far is one of those looked at. -/
theorem foldl_keepBetter_index {topPt bottomPt covered : ℚ} {placements : List PagePlacement}
    {best : Option (Nat × ℚ)} {index : Nat}
    (h : placements.foldl (keepBetter topPt bottomPt) best = some (index, covered)) :
    (∃ covered, best = some (index, covered)) ∨ ∃ placement ∈ placements, placement.index = index := by
  induction placements generalizing best with
  | nil => exact .inl ⟨covered, h⟩
  | cons placement placements ih =>
    rcases ih h with ⟨covered, hkept⟩ | ⟨later, hlater, hindex⟩
    · unfold keepBetter at hkept
      dsimp only at hkept
      split at hkept
      · exact .inl ⟨covered, hkept⟩
      split at hkept
      · cases hkept
        exact .inr ⟨placement, List.mem_cons_self, rfl⟩
      · split at hkept
        · cases hkept
          exact .inr ⟨placement, List.mem_cons_self, rfl⟩
        · cases hkept
          exact .inl ⟨_, rfl⟩
    · exact .inr ⟨later, List.mem_cons_of_mem _ hlater, hindex⟩

/-- Wherever the viewport is, the page found is one of the layout's, and one is found unless the
layout is empty. -/
theorem findCurrentPage_index {layout : DocumentLayout}
    (hindices : ∀ placement ∈ layout.placements, placement.index < layout.placements.length)
    (topPt heightPt : ℚ) :
    (findCurrentPage layout topPt heightPt = none ↔ layout.placements = []) ∧
    ∀ index, findCurrentPage layout topPt heightPt = some index → index < layout.placements.length := by
  unfold findCurrentPage
  split
  · rename_i hempty
    exact ⟨iff_of_true rfl (List.isEmpty_iff.1 hempty), nofun⟩
  rename_i hpages
  have hpages : layout.placements ≠ [] := fun hnil => hpages (List.isEmpty_iff.2 hnil)
  have hlength := List.length_pos_iff.2 hpages
  dsimp only
  split
  · rename_i index covered hbest
    refine ⟨iff_of_false nofun hpages, ?_⟩
    rintro _ ⟨⟩
    rcases foldl_keepBetter_index hbest with ⟨_, hnone⟩ | ⟨placement, hmem, rfl⟩
    · cases hnone
    · exact hindices placement (slice_subset _ _ hmem)
  · refine ⟨iff_of_false nofun hpages, ?_⟩
    rintro _ ⟨⟩
    omega

theorem layOut_length (snapshot : DocumentSnapshot) :
    (ViewerState.layOut snapshot).placements.length = snapshot.pages.length :=
  computeDocumentLayout_length _ _ _

theorem layOut_index (snapshot : DocumentSnapshot) :
    ∀ placement ∈ (ViewerState.layOut snapshot).placements,
      placement.index < (ViewerState.layOut snapshot).placements.length := by
  intro placement hmem
  obtain ⟨before, after, hsplit⟩ := List.append_of_mem hmem
  have hindex : placement.index = before.length := by
    unfold ViewerState.layOut computeDocumentLayout at hsplit
    split at hsplit
    · cases before <;> cases hsplit
    · have := placePages_index snapshot.pages 0 _ hsplit
      omega
  rw [hindex, hsplit, List.length_append, List.length_cons]
  omega

namespace ViewerState

/-- The viewer lays out the snapshot it draws, and is on one of its pages if there are any. -/
structure OnPage (v : ViewerState) : Prop where
  layout : v.layout = layOut v.snapshot
  none_iff : v.currentPage = none ↔ v.snapshot.pages = []
  within : ∀ index, v.currentPage = some index → index < v.snapshot.pages.length

variable {v : ViewerState}

/-- Looking the current page up again is right whatever it was. -/
theorem onPage_refreshCurrentPage (hlayout : v.layout = layOut v.snapshot) :
    v.refreshCurrentPage.OnPage := by
  have hempty : (layOut v.snapshot).placements = [] ↔ v.snapshot.pages = [] := by
    rw [← List.length_eq_zero_iff, layOut_length, List.length_eq_zero_iff]
  obtain ⟨hnone, hsome⟩ := findCurrentPage_index (layOut_index v.snapshot)
    (v.scrollOffsetPx / clampZoom v.zoom) (v.viewportSizePx.2 / clampZoom v.zoom)
  rw [← hlayout] at hnone hsome
  refine ⟨hlayout, hnone.trans (hlayout ▸ hempty), fun index hindex => ?_⟩
  have hlt := hsome index hindex
  rwa [hlayout, layOut_length] at hlt

theorem onPage_setZoomAnchored (hlayout : v.layout = layOut v.snapshot) (newZoom anchorPx : ℚ) :
    (v.setZoomAnchored newZoom anchorPx).OnPage := onPage_refreshCurrentPage hlayout

theorem OnPage.scrollToPage (h : v.OnPage) (index : Nat) (marginPt : ℚ) :
    (v.scrollToPage index marginPt).OnPage := by
  unfold ViewerState.scrollToPage
  split
  · exact h
  · rename_i targetPt htarget
    obtain ⟨placement, hplacement, -⟩ := Option.map_eq_some_iff.1 htarget
    have hindex : index < v.snapshot.pages.length := by
      rw [← layOut_length, ← h.layout]
      exact (List.getElem?_eq_some_iff.1 hplacement).1
    refine ⟨h.layout, iff_of_false nofun (List.length_pos_iff.1 (Nat.zero_lt_of_lt hindex)), ?_⟩
    rintro _ ⟨⟩
    exact hindex

/-- Fitting the zoom leaves the viewer on one of its pages. -/
theorem OnPage.reapplyFitMode (h : v.OnPage) : v.reapplyFitMode.OnPage := by
  have hfitted : ({ v with fittedViewportPx := v.viewportSizePx } : ViewerState).OnPage :=
    ⟨h.layout, h.none_iff, h.within⟩
  unfold ViewerState.reapplyFitMode
  dsimp only
  split
  · exact hfitted
  · exact onPage_setZoomAnchored hfitted.layout _ _
  split
  · exact hfitted
  · exact onPage_setZoomAnchored hfitted.layout _ _

theorem OnPage.syncFitToViewport (h : v.OnPage) : v.syncFitToViewport.2.OnPage := by
  unfold ViewerState.syncFitToViewport
  split
  · exact h.reapplyFitMode
  · exact h

theorem onPage_new (snapshot : DocumentSnapshot) : (ViewerState.new snapshot).OnPage := by
  have hempty : (layOut snapshot).isEmpty = true ↔ snapshot.pages = [] := by
    rw [DocumentLayout.isEmpty, List.isEmpty_iff, ← List.length_eq_zero_iff, layOut_length,
      List.length_eq_zero_iff]
  refine ⟨rfl, ?_, ?_⟩
  · simp [ViewerState.new, hempty]
  · intro index hindex
    simp only [ViewerState.new, Option.ite_none_left_eq_some, Option.some.injEq] at hindex
    obtain ⟨hpages, rfl⟩ := hindex
    exact List.length_pos_iff.2 (fun hnil => hpages (hempty.2 hnil))

/-- Adopting a snapshot puts the viewer on one of its pages, wherever the last one was scrolled to. -/
theorem onPage_replaceSnapshot (snapshot : DocumentSnapshot) (v : ViewerState) :
    (v.replaceSnapshot snapshot).OnPage := (onPage_refreshCurrentPage rfl).reapplyFitMode

theorem onPage_openDocument (snapshot : DocumentSnapshot) (v : ViewerState) :
    (v.openDocument snapshot).OnPage := (onPage_refreshCurrentPage rfl).reapplyFitMode

/-- Zoom by the wheel or a pinch, anchored at the pointer: the distance it is below the top of the
viewport, if it is over the window at all. -/
def applyWheelZoom (zoomDelta : ℚ) (pointerPx : Option ℚ) (v : ViewerState) : ViewerState :=
  if |zoomDelta - 1| < 1 / 10000 then v
  else
    let anchorPx := match pointerPx with
      | some pointerPx => max 0 (min pointerPx v.viewportSizePx.2)
      | none => v.viewportSizePx.2 / 2
    { v with fitMode := .free }.setZoomAnchored (v.zoom * zoomDelta) anchorPx

/-- So does a zoom with the wheel. -/
theorem OnPage.applyWheelZoom (h : v.OnPage) (zoomDelta : ℚ) (pointerPx : Option ℚ) :
    (v.applyWheelZoom zoomDelta pointerPx).OnPage := by
  unfold ViewerState.applyWheelZoom
  split
  · exact h
  · exact onPage_setZoomAnchored (v := { v with fitMode := .free }) h.layout _ _

@[simp] theorem applyWheelZoom_snapshot (zoomDelta : ℚ) (pointerPx : Option ℚ) (v : ViewerState) :
    (v.applyWheelZoom zoomDelta pointerPx).snapshot = v.snapshot := by
  unfold applyWheelZoom
  split
  · rfl
  · exact setZoomAnchored_snapshot _ _ _

end ViewerState
section Lopdf

variable [Lopdf]

/-! ### What a save leaves -/

omit [Lopdf] in
/-- Pointing the slots at the objects of another file leaves what they show. -/
theorem zipWith_rebindSlot_info {slots : List PageSlot} {objectIds : List ObjectId}
    (h : objectIds.length = slots.length) :
    (List.zipWith PdfDocument.rebindSlot slots objectIds).map PageSlot.info = slots.map PageSlot.info := by
  induction slots generalizing objectIds with
  | nil => rfl
  | cons slot slots ih =>
    cases objectIds with
    | nil => cases h
    | cons objectId objectIds => exact congrArg (slot.info :: ·) (ih (Nat.succ.inj h))

/-- A compaction shows the pages it was given, whether or not it succeeds. -/
theorem saveCompacted_live (env : SaveEnv) (d : PdfDocument) :
    (d.saveCompacted env).2.pages.live.map PageSlot.info = d.pages.live.map PageSlot.info := by
  rcases hsave : d.saveCompacted env with ⟨e | written, d'⟩
  · rw [PdfDocument.saveCompacted_error hsave]
  · obtain ⟨d₁, file, -, hmaterialized, -, -, hrebased⟩ := PdfDocument.saveCompacted_ok hsave
    have hpages : (d.materializeChanges).2.pages = d.pages := by rw [d.materializeChanges_keeps]
    rw [hmaterialized] at hpages
    rw [hrebased.live, zipWith_rebindSlot_info hrebased.length, hpages]

/-- No save changes what a document is drawn from. -/
theorem snapshotOf_save (env : SaveEnv) (mode : SaveMode) (d : EditableDocument) :
    snapshotOf (d.save env mode).2 = snapshotOf d := by
  obtain ⟨hid, hrevision⟩ := d.save_identity env mode
  have hlive : (roster (d.save env mode).2).live = (roster d).live := by
    cases d with
    | vec d => cases mode <;> rfl
    | pdf d =>
      cases mode with
      | incremental =>
        have hkeeps := (EditableDocument.pdf d).saveIncremental_keeps env
        exact congrArg Roster.live hkeeps.roster
      | compacted => exact saveCompacted_live env d
  unfold snapshotOf
  rw [hid, hrevision, hlive]

/-! ### The shell -/

/-- What the viewer draws for a document, or for none. -/
def Draws (document : Option EditableDocument) (snapshot : DocumentSnapshot) : Prop :=
  match document with
  | some d => DocumentSnapshot.of d = .ok snapshot
  | none => ∃ id, snapshot = ⟨id, [], 0⟩

/-- The snapshot a document was opened with is its own. -/
def OpenedDocument.Matches (opened : OpenedDocument) : Prop :=
  DocumentSnapshot.of opened.document = .ok opened.snapshot

/-- Whatever opens documents hands each over with its own snapshot. -/
def Surroundings.OpensMatching (around : Surroundings) : Prop :=
  ∀ path opened, around.openPath path = .ok opened → opened.Matches

theorem matches_openSyntheticDocument {id : DocumentId} {pageCount : Nat} {opened : OpenedDocument}
    (h : openSyntheticDocument id pageCount = .ok opened) : opened.Matches := by
  unfold openSyntheticDocument at h
  split at h
  · cases h
  split at h
  · cases h
  · rename_i document _ snapshot hsnapshot
    cases h
    exact hsnapshot

/-- The production opener takes the snapshot from the document it parsed. -/
theorem matches_openPdf {id : DocumentId} {path : String} {file : Except Error LopdfDocument}
    {pdfiumError : Option String} {opened : OpenedDocument}
    (h : openPdf id path file pdfiumError = .ok opened) : opened.Matches := by
  obtain ⟨system, -, hsnapshot, -⟩ := OpdfApp.openPdf_eq_ok h
  rw [OpenedDocument.Matches, of_eq_snapshotOf, hsnapshot]

/-- What the user does in a frame, and what the frame and the render worker do. -/
inductive WindowEvent where
  | action (action : MenuAction)
  /-- Discard, Cancel and Save on the prompt about unsaved changes. -/
  | confirmDiscard | cancelDiscard | saveFirst
  | confirmCompaction | cancelCompaction
  | exchange (pixelsPerPoint : ℚ) (maxTextureSide : Nat)
  | wheelZoom (zoomDelta : ℚ) (pointerPx : Option ℚ)
  /-- A page number entered in the toolbar. -/
  | jumpToPage (index : Nat)
  | showRail (maxTextureSide : Nat) (topPx heightPx : ℚ)
  | clickThumbnail (index : Nat)
  | showCanvas (pixelsPerPoint : ℚ) (maxTextureSide : Nat) (scrollOffsetPx : ℚ)
    (viewportSizePx : ℚ × ℚ)
  | syncFit
  | work (fault : Option String)

namespace OpdfApp

open ViewerState (OnPage)

/-- Save, and go through with the exit only if that left nothing unsaved. -/
def saveFirst (around : Surroundings) (app : OpdfApp) : OpdfApp :=
  if app.exitPending.isNone then app
  else
    let saved := app.saveInPlace around
    if saved.hasUnsavedChanges then saved.cancelDiscard else saved.confirmDiscard around

def handle [Pdfium] (app : OpdfApp) (event : WindowEvent × Surroundings) : OpdfApp :=
  match event.1 with
  | .action action => app.applyAction event.2 action
  | .confirmDiscard => app.confirmDiscard event.2
  | .cancelDiscard => app.cancelDiscard
  | .saveFirst => app.saveFirst event.2
  | .confirmCompaction => app.confirmCompaction event.2
  | .cancelCompaction => app.cancelCompaction
  | .exchange pixelsPerPoint maxTextureSide =>
    { app with surfaces := app.surfaces.step (.exchange pixelsPerPoint maxTextureSide) }
  | .wheelZoom zoomDelta pointerPx => app.modifyState (ViewerState.applyWheelZoom zoomDelta pointerPx)
  | .jumpToPage index => app.modifyState (ViewerState.scrollToPage index 0)
  | .showRail maxTextureSide topPx heightPx =>
    { app with surfaces := app.surfaces.step (.showRail maxTextureSide topPx heightPx) }
  | .clickThumbnail index =>
    { app.modifyState (ViewerState.scrollToPage index 0) with pageEntry := toString (index + 1) }
  | .showCanvas pixelsPerPoint maxTextureSide scrollOffsetPx viewportSizePx =>
    if app.surfaces.viewer.pageCount = 0 then app
    else
      { app with
        surfaces := app.surfaces.step
          (.showCanvas pixelsPerPoint maxTextureSide scrollOffsetPx viewportSizePx) }
  | .syncFit => app.modifyState fun v => v.syncFitToViewport.2
  | .work fault => { app with surfaces := { app.surfaces with service := app.surfaces.service.work fault } }

def handleAll [Pdfium] (app : OpdfApp) (events : List (WindowEvent × Surroundings)) : OpdfApp :=
  events.foldl handle app

/-- The viewer draws the open document, and is on one of its pages if it has any. -/
structure InStep (app : OpdfApp) : Prop where
  sound : app.Sound
  draws : Draws app.document app.surfaces.viewer.snapshot
  onPage : app.surfaces.viewer.OnPage

variable {app app' : OpdfApp}

/-- A step of the view over the same snapshot. -/
theorem InStep.of_view (h : app.InStep) (hsound : app'.Sound) (hdocument : app'.document = app.document)
    (hsnapshot : app'.surfaces.viewer.snapshot = app.surfaces.viewer.snapshot)
    (honPage : app'.surfaces.viewer.OnPage) : app'.InStep :=
  ⟨hsound, by rw [hdocument, hsnapshot]; exact h.draws, honPage⟩

/-- A step that leaves the viewer, and what the document is drawn from. -/
theorem InStep.of_document (h : app.InStep) (hsound : app'.Sound)
    (hsnapshot : app'.document.map snapshotOf = app.document.map snapshotOf)
    (hviewer : app'.surfaces.viewer = app.surfaces.viewer) : app'.InStep := by
  refine ⟨hsound, ?_, hviewer ▸ h.onPage⟩
  have hdraws := h.draws
  rw [hviewer]
  cases hdocument : app.document with
  | none =>
    rw [hdocument] at hsnapshot hdraws
    rw [Option.map_eq_none_iff.1 hsnapshot]
    exact hdraws
  | some d =>
    rw [hdocument] at hsnapshot hdraws
    obtain ⟨d', hdocument', hsame⟩ := Option.map_eq_some_iff.1 hsnapshot
    rw [hdocument']
    simp only [Draws, of_eq_snapshotOf] at hdraws ⊢
    rw [hsame]
    exact hdraws

/-! ### Opening and closing -/

/-- The shell starts in step with its document. -/
theorem inStep_new {opened : OpenedDocument} (h : opened.Matches) : (OpdfApp.new opened).InStep :=
  ⟨sound_new opened, h, ViewerState.onPage_new opened.snapshot⟩

theorem inStep_installDocument {document : Option EditableDocument} {snapshot : DocumentSnapshot}
    (h : Draws document snapshot) (path : Option String) (service : ShellService) (app : OpdfApp) :
    (app.installDocument document path service snapshot).InStep := by
  refine ⟨sound_installDocument _ _ _ _ _, ?_, ?_⟩
  · have hsnapshot : (app.installDocument document path service snapshot).surfaces.viewer.snapshot =
        snapshot := by
      simp only [installDocument, modifyState, Surfaces.openDocument, ViewerState.scrollToPage_snapshot,
        ViewerState.openDocument_snapshot]
    rw [hsnapshot]
    exact h
  · exact (ViewerState.onPage_openDocument snapshot app.surfaces.viewer).scrollToPage 0 0

theorem inStep_closeDocument (around : Surroundings) (app : OpdfApp) :
    (app.closeDocument around).InStep := by
  have hdraws : Draws none ⟨around.freshId, [], 0⟩ := ⟨around.freshId, rfl⟩
  exact inStep_installDocument hdraws _ _ app

/-- It stays so when another one is opened. -/
theorem InStep.openChosenPath (h : app.InStep) {around : Surroundings} (hopens : around.OpensMatching) :
    (app.openChosenPath around).InStep := by
  unfold OpdfApp.openChosenPath
  split
  · exact h
  · unfold absorbOpen
    split
    · rename_i opened hopened
      have hdraws : Draws (some opened.document) opened.snapshot := hopens _ opened hopened
      have hinstalled := inStep_installDocument hdraws opened.path opened.service app
      exact ⟨⟨hinstalled.sound.edits, hinstalled.sound.follows⟩, hinstalled.draws, hinstalled.onPage⟩
    · exact ⟨⟨h.sound.edits, h.sound.follows⟩, h.draws, h.onPage⟩

theorem InStep.carryOut (h : app.InStep) {around : Surroundings} (hopens : around.OpensMatching)
    (intent : ExitIntent) : (app.carryOut around intent).InStep := by
  cases intent with
  | close => exact inStep_closeDocument around app
  | quit => exact ⟨⟨h.sound.edits, h.sound.follows⟩, h.draws, h.onPage⟩
  | «open» => exact h.openChosenPath hopens

theorem InStep.confirmDiscard (h : app.InStep) {around : Surroundings} (hopens : around.OpensMatching) :
    (app.confirmDiscard around).InStep := by
  unfold OpdfApp.confirmDiscard
  split
  · exact h
  · have hanswered : InStep { app with exitPending := none } :=
      ⟨⟨h.sound.edits, h.sound.follows⟩, h.draws, h.onPage⟩
    exact hanswered.carryOut hopens _

/-- It does when an exit is asked for. -/
theorem InStep.requestExit (h : app.InStep) {around : Surroundings} (hopens : around.OpensMatching)
    (intent : ExitIntent) : (app.requestExit around intent).InStep := by
  unfold OpdfApp.requestExit mayAbandonDocument
  split
  · rename_i hmay
    split at hmay
    · cases hmay
    · cases hmay
      exact h.carryOut hopens intent
  · rename_i hmay
    split at hmay
    · cases hmay
      exact ⟨⟨h.sound.edits, h.sound.follows⟩, h.draws, h.onPage⟩
    · cases hmay

/-! ### Saving -/

/-- The view and what it is drawn from stay. -/
structure Saved (app app' : OpdfApp) : Prop where
  snapshot : app'.document.map snapshotOf = app.document.map snapshotOf
  surfaces : app'.surfaces = app.surfaces

/-- A save leaves the view alone. -/
theorem saved_saveTo (around : Surroundings) (path : String) (mode : SaveMode) (app : OpdfApp) :
    Saved app (app.saveTo around path mode).2 := by
  unfold saveTo
  cases hdocument : app.document with
  | none => exact ⟨by rw [hdocument], rfl⟩
  | some d =>
    have hsame := snapshotOf_save around.save mode d
    dsimp only
    split
    · rename_i d' hsave
      rw [hsave] at hsame
      exact ⟨by rw [hdocument]; exact congrArg some hsame, rfl⟩
    · rename_i e d' hsave
      rw [hsave] at hsame
      exact ⟨by rw [hdocument]; exact congrArg some hsame, rfl⟩

theorem saved_saveToChosenPath (around : Surroundings) (app : OpdfApp) :
    Saved app (app.saveToChosenPath around) := by
  unfold saveToChosenPath
  split
  · exact ⟨rfl, rfl⟩
  split
  · exact ⟨rfl, rfl⟩
  · exact saved_saveTo around _ _ app

theorem saved_saveInPlace (around : Surroundings) (app : OpdfApp) :
    Saved app (app.saveInPlace around) := by
  unfold saveInPlace
  split
  · exact ⟨rfl, rfl⟩
  split
  · exact saved_saveTo around _ _ app
  · exact saved_saveToChosenPath around app

theorem saved_confirmCompaction (around : Surroundings) (app : OpdfApp) :
    Saved app (app.confirmCompaction around) := by
  unfold confirmCompaction
  split
  swap
  · exact ⟨rfl, rfl⟩
  dsimp only
  split
  · exact ⟨rfl, rfl⟩
  rename_i path _
  have hsaved := saved_saveTo around path .compacted { app with compactionPending := false }
  split
  · rename_i saved hresult
    rw [hresult] at hsaved
    exact ⟨hsaved.snapshot, hsaved.surfaces⟩
  · rename_i failed hresult
    rw [hresult] at hsaved
    exact ⟨hsaved.snapshot, hsaved.surfaces⟩

theorem InStep.saved (h : app.InStep) (hsound : app'.Sound) (hsaved : Saved app app') : app'.InStep :=
  h.of_document hsound hsaved.snapshot (by rw [hsaved.surfaces])

/-- Saving before an exit keeps the shell in step. -/
theorem InStep.saveFirst (h : app.InStep) {around : Surroundings} (hopens : around.OpensMatching) :
    (app.saveFirst around).InStep := by
  unfold OpdfApp.saveFirst
  split
  · exact h
  have hsaved := h.saved (continues_saveInPlace h.sound around).sound (saved_saveInPlace around app)
  dsimp only
  split
  · exact ⟨⟨hsaved.sound.edits, hsaved.sound.follows⟩, hsaved.draws, hsaved.onPage⟩
  · exact hsaved.confirmDiscard hopens

/-! ### Editing -/

/-- An edit that changes the document is drawn at once, and one that does not leaves the view. -/
theorem InStep.redraws (h : app.InStep) (hsound : app'.Sound) (hredraws : Redraws app app') :
    app'.InStep := by
  rcases hredraws with ⟨hsurfaces, hdocument⟩ | ⟨_, d', -, hdocument, -, hsurfaces⟩
  · exact h.of_view hsound hdocument (by rw [hsurfaces]) (hsurfaces ▸ h.onPage)
  · refine ⟨hsound, ?_, ?_⟩
    · rw [hdocument, hsurfaces]
      exact (of_eq_snapshotOf d').trans
        (congrArg Except.ok (ViewerState.replaceSnapshot_snapshot _ _).symm)
    · rw [hsurfaces]
      exact ViewerState.onPage_replaceSnapshot _ _

/-- The current page is one of the pages drawn, and there is one unless none is drawn. -/
theorem InStep.currentPage_iff (h : app.InStep) :
    (app.currentPage = none ↔ app.surfaces.viewer.snapshot.pages = []) ∧
    ∀ page, app.currentPage = some page → page ∈ app.surfaces.viewer.snapshot.pages := by
  refine ⟨?_, fun page hpage => ?_⟩
  · rw [← h.onPage.none_iff]
    constructor
    · intro hnone
      cases hindex : app.surfaces.viewer.currentPage with
      | none => rfl
      | some index =>
        have hlt := h.onPage.within index hindex
        rw [OpdfApp.currentPage, hindex, Option.bind_some, List.getElem?_eq_getElem hlt] at hnone
        cases hnone
    · intro hnone
      rw [OpdfApp.currentPage, hnone, Option.bind_none]
  · obtain ⟨index, -, hindex⟩ := Option.bind_eq_some_iff.1 hpage
    exact List.mem_of_getElem? hindex

/-- A page action acts on a live page of the open document, if it has any. -/
theorem InStep.acts_on_live_page (h : app.InStep) {d : EditableDocument}
    (hdocument : app.document = some d) (hpages : Document.pageCount d ≠ 0) :
    ∃ page, Document.page page.id d = .ok page ∧
      app.deleteCurrentPage = app.applyCommand (.removePage page.id) ∧
      app.rotateCurrentPage = app.applyCommand (.setRotation page.id (page.rotation.rotatedBy .quarter)) := by
  obtain ⟨hnone, hmem⟩ := h.currentPage_iff
  have hdraws := h.draws
  rw [hdocument] at hdraws
  have hsnapshot : app.surfaces.viewer.snapshot = snapshotOf d := by
    simpa [Draws, of_eq_snapshotOf] using hdraws.symm
  cases hpage : app.currentPage with
  | none =>
    have hempty := hnone.1 hpage
    rw [hsnapshot] at hempty
    exact absurd ((LawfulDocument.pageCount_eq d).trans (congrArg List.length hempty)) hpages
  | some page =>
    have hlive := hmem page hpage
    rw [hsnapshot] at hlive
    refine ⟨page, ?_, ?_, ?_⟩
    · rw [LawfulDocument.page_eq]
      exact Roster.findSlot_eq_ok.2 ⟨hlive, rfl⟩
    · rw [deleteCurrentPage, hpage]
    · rw [rotateCurrentPage, hpage]

theorem InStep.acts_on_nothing (h : app.InStep) (hpages : app.surfaces.viewer.snapshot.pages = []) :
    app.deleteCurrentPage = app ∧ app.rotateCurrentPage = app := by
  have hnone := h.currentPage_iff.1.2 hpages
  constructor
  · rw [deleteCurrentPage, hnone]
  · rw [rotateCurrentPage, hnone]

/-! ### Whole runs -/

variable [Pdfium]

/-- Every event keeps the history sound. -/
theorem sound_handle (h : app.Sound) (event : WindowEvent × Surroundings) : (app.handle event).Sound := by
  obtain ⟨event, around⟩ := event
  cases event with
  | action action => exact sound_step h (.action action, around)
  | confirmDiscard => exact sound_step h (.confirmDiscard, around)
  | saveFirst =>
    have hsaved := sound_step h (.action .save, around)
    simp only [handle, OpdfApp.saveFirst]
    split
    · exact h
    split
    · exact sound_step hsaved (.cancelDiscard, around)
    · exact sound_step hsaved (.confirmDiscard, around)
  | confirmCompaction => exact sound_step h (.confirmCompaction, around)
  | showCanvas pixelsPerPoint maxTextureSide scrollOffsetPx viewportSizePx =>
    simp only [handle]
    split
    · exact h
    · exact ⟨h.edits, h.follows⟩
  | _ => exact ⟨h.edits, h.follows⟩

omit [Pdfium] in
theorem InStep.modifyState (h : app.InStep) {f : ViewerState → ViewerState}
    (hsnapshot : ∀ v, (f v).snapshot = v.snapshot) (honPage : ∀ v, v.OnPage → (f v).OnPage) :
    (app.modifyState f).InStep :=
  h.of_view ⟨h.sound.edits, h.sound.follows⟩ rfl (hsnapshot _) (honPage _ h.onPage)

omit [Pdfium] [Lopdf] in
theorem applyViewAction_snapshot (action : MenuAction) (v : ViewerState) :
    (applyViewAction action v).snapshot = v.snapshot := by
  cases action <;> simp [applyViewAction]

omit [Pdfium] [Lopdf] in
/-- Zooming, fitting, going to a page and turning the view stay on a page. -/
theorem onPage_applyViewAction (action : MenuAction) {v : ViewerState} (h : v.OnPage) :
    (applyViewAction action v).OnPage := by
  have hfree : ({ v with fitMode := .free } : ViewerState).OnPage := ⟨h.layout, h.none_iff, h.within⟩
  have hwidth : ({ v with fitMode := .width } : ViewerState).OnPage := ⟨h.layout, h.none_iff, h.within⟩
  have hpage : ({ v with fitMode := .page } : ViewerState).OnPage := ⟨h.layout, h.none_iff, h.within⟩
  cases action with
  | zoomIn | zoomOut | zoomActual => exact ViewerState.onPage_setZoomAnchored hfree.layout _ _
  | fitWidth => exact hwidth.reapplyFitMode
  | fitPage => exact hpage.reapplyFitMode
  | firstPage | lastPage | nextPage | previousPage => exact h.scrollToPage _ _
  | toggleRail | rotateViewClockwise | rotateViewCounterClockwise => exact ⟨h.layout, h.none_iff, h.within⟩
  | _ => exact h

/-- Every event keeps the shell in step. -/
theorem inStep_handle (h : app.InStep) (event : WindowEvent × Surroundings)
    (hopens : event.2.OpensMatching) : (app.handle event).InStep := by
  have hsound := sound_handle h.sound event
  obtain ⟨event, around⟩ := event
  cases event with
  | action action =>
    cases action with
    | openDocument => exact h.requestExit hopens .open
    | closeDocument => exact h.requestExit hopens .close
    | quit => exact h.requestExit hopens .quit
    | save => exact h.saved hsound (saved_saveInPlace around app)
    | saveAs => exact h.saved hsound (saved_saveToChosenPath around app)
    | undo => exact h.redraws hsound (redraws_undoEdit h.sound)
    | redo => exact h.redraws hsound (redraws_redoEdit h.sound)
    | rotatePageClockwise => exact h.redraws hsound (redraws_rotateCurrentPage h.sound)
    | deletePage => exact h.redraws hsound (redraws_deleteCurrentPage h.sound)
    | compact =>
      simp only [handle, applyAction, askToCompact] at hsound ⊢
      split
      · exact h
      · exact ⟨⟨h.sound.edits, h.sound.follows⟩, h.draws, h.onPage⟩
    | generateSynthetic pageCount =>
      simp only [handle, applyAction, loadSynthetic]
      split
      · exact h
      · rename_i opened hopened
        have hdraws : Draws (some opened.document) opened.snapshot := matches_openSyntheticDocument hopened
        exact inStep_installDocument hdraws _ _ app
    | showAbout => exact ⟨hsound, h.draws, h.onPage⟩
    | zoomIn | zoomOut | zoomActual | fitWidth | fitPage | firstPage | lastPage | nextPage
    | previousPage | toggleRail | rotateViewClockwise | rotateViewCounterClockwise =>
      exact h.modifyState (applyViewAction_snapshot _) fun _ => onPage_applyViewAction _
  | confirmDiscard => exact h.confirmDiscard hopens
  | cancelDiscard => exact ⟨hsound, h.draws, h.onPage⟩
  | saveFirst => exact h.saveFirst hopens
  | confirmCompaction => exact h.saved hsound (saved_confirmCompaction around app)
  | cancelCompaction => exact ⟨hsound, h.draws, h.onPage⟩
  | exchange pixelsPerPoint maxTextureSide =>
    refine h.of_view hsound rfl (Surfaces.step_snapshot _ _) ?_
    have hviewer : (app.surfaces.step (.exchange pixelsPerPoint maxTextureSide)).viewer =
        app.surfaces.viewer := by rw [Surfaces.step_exchange]
    exact hviewer ▸ h.onPage
  | wheelZoom zoomDelta pointerPx =>
    exact h.modifyState (ViewerState.applyWheelZoom_snapshot _ _) fun _ hv => hv.applyWheelZoom _ _
  | jumpToPage index =>
    exact h.modifyState (ViewerState.scrollToPage_snapshot _ _) fun _ hv => hv.scrollToPage _ _
  | showRail maxTextureSide topPx heightPx => exact ⟨hsound, h.draws, h.onPage⟩
  | clickThumbnail index =>
    have hscrolled := h.modifyState (ViewerState.scrollToPage_snapshot index 0)
      fun _ hv => hv.scrollToPage _ _
    exact ⟨hsound, hscrolled.draws, hscrolled.onPage⟩
  | showCanvas pixelsPerPoint maxTextureSide scrollOffsetPx viewportSizePx =>
    simp only [handle] at hsound ⊢
    split
    · exact h
    · exact ⟨⟨h.sound.edits, h.sound.follows⟩, h.draws,
        ViewerState.onPage_refreshCurrentPage h.onPage.layout⟩
  | syncFit =>
    exact h.modifyState ViewerState.syncFitToViewport_snapshot fun _ hv => hv.syncFitToViewport
  | work fault => exact ⟨hsound, h.draws, h.onPage⟩

/-- So does every run. -/
theorem inStep_handleAll (h : app.InStep) (events : List (WindowEvent × Surroundings))
    (hopens : ∀ event ∈ events, event.2.OpensMatching) : (app.handleAll events).InStep := by
  induction events generalizing app with
  | nil => exact h
  | cons event events ih =>
    exact ih (inStep_handle h event (hopens event List.mem_cons_self))
      fun later hlater => hopens later (List.mem_cons_of_mem _ hlater)

/-- In every run of what the user, the frames and the worker do, over documents handed over with
their own snapshots, the viewer draws the open document's current snapshot, or an empty one if none
is open; it lays out that snapshot; its current page is none exactly where there are no pages and an
index of one otherwise. So deleting and turning the current page act on a live page, or on nothing
where there is none. -/
theorem viewer_stays_in_step (opened : OpenedDocument) (hopened : opened.Matches)
    (events : List (WindowEvent × Surroundings)) (hopens : ∀ event ∈ events, event.2.OpensMatching) :
    let app := (OpdfApp.new opened).handleAll events
    let viewer := app.surfaces.viewer
    Draws app.document viewer.snapshot ∧
    viewer.layout = ViewerState.layOut viewer.snapshot ∧
    (viewer.currentPage = none ↔ viewer.snapshot.pages = []) ∧
    (∀ index, viewer.currentPage = some index → index < viewer.snapshot.pages.length) ∧
    (∀ d, app.document = some d → Document.pageCount d ≠ 0 →
      ∃ page, Document.page page.id d = .ok page ∧
        app.deleteCurrentPage = app.applyCommand (.removePage page.id) ∧
        app.rotateCurrentPage =
          app.applyCommand (.setRotation page.id (page.rotation.rotatedBy .quarter))) ∧
    (viewer.snapshot.pages = [] → app.deleteCurrentPage = app ∧ app.rotateCurrentPage = app) := by
  intro app viewer
  have h : app.InStep := inStep_handleAll (inStep_new hopened) events hopens
  exact ⟨h.draws, h.onPage.layout, h.onPage.none_iff, h.onPage.within,
    fun _ hdocument hpages => h.acts_on_live_page hdocument hpages, h.acts_on_nothing⟩

end OpdfApp
end Lopdf

/-! ### Deleting down to the last page -/

namespace FailedCompaction

/-- Go to the last page of the file, delete it, try to compact what is left, and take the deletion
back. -/
def session : List (WindowEvent × Surroundings) :=
  [.showCanvas 1 8192 900 (800, 600), .action .lastPage, .action .deletePage, .action .fitPage,
    .action .compact, .confirmCompaction, .action .undo].map (·, around)

theorem around_opensMatching [Lopdf] : around.OpensMatching := fun _ _ h => by cases h

end FailedCompaction

namespace OpdfApp

open scoped ReferenceLopdf BlankPdfium

/-- The only page is deleted and put back, and the viewer is on it again. -/
theorem viewer_follows_session :
    ∃ opened, openPdf 1 "plain.pdf" (.ok ImportFixture.plainFile) none = .ok opened ∧
      let app := (OpdfApp.new opened).handleAll FailedCompaction.session
      Draws app.document app.surfaces.viewer.snapshot ∧
        (app.surfaces.viewer.currentPage = none ↔ app.surfaces.viewer.snapshot.pages = []) := by
  obtain ⟨opened, hopened⟩ : ∃ opened,
      openPdf 1 "plain.pdf" (.ok ImportFixture.plainFile) none = .ok opened := ⟨_, rfl⟩
  have hopens : ∀ event ∈ FailedCompaction.session, event.2.OpensMatching := by
    intro event hevent
    obtain ⟨kind, -, rfl⟩ := List.mem_map.1 hevent
    exact FailedCompaction.around_opensMatching
  obtain ⟨hdraws, -, hnone, -⟩ :=
    viewer_stays_in_step opened (matches_openPdf hopened) FailedCompaction.session hopens
  exact ⟨opened, hopened, hdraws, hnone⟩

end OpdfApp
end OpdfEditor
