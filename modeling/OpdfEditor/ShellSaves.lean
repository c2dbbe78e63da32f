import OpdfEditor.TidyPages
import OpdfEditor.ViewerSync

/-!
What the shell writes. A property that edits of one page and saves keep, and that every document
opened has, holds of the open document in every run; one such property is that either save writes
a file which opens again with the pages on screen.
-/
namespace OpdfEditor

namespace UndoStack

/-! ### Properties an edit keeps -/

variable {D : Type} [Document D] [LawfulDocument D] {P : D → Prop}

/-- Every edit of one page keeps the property, whether or not it goes through. -/
def EditsKeep (P : D → Prop) : Prop :=
  ∀ (command : Command D) (page : PageId), command.edited = some page → ∀ d, P d → P (command.apply d).2

omit [LawfulDocument D] in
/-- An edit keeps what the method behind it keeps. -/
theorem editsKeep_of_methods (hremove : ∀ page d, P d → P (Document.removePage page d).2)
    (hrestore : ∀ page atIndex d, P d → P (Document.restorePage page atIndex d).2)
    (hmove : ∀ page toIndex d, P d → P (Document.movePage page toIndex d).2)
    (hrotate : ∀ page rotation d, P d → P (Document.setRotation page rotation d).2) : EditsKeep P := by
  intro command page hc d h
  cases command with
  | removePage page =>
    have hafter := hremove page d h
    rw [Command.apply_removePage, Command.applyRemovePage]
    cases Document.indexOf page d with
    | error e => exact h
    | ok index =>
      rcases hmethod : Document.removePage page d with ⟨e | ⟨⟩, d'⟩ <;> rwa [hmethod] at hafter
  | restorePage page atIndex =>
    have hafter := hrestore page atIndex d h
    rw [Command.apply_restorePage, Command.applyRestorePage]
    rcases hmethod : Document.restorePage page atIndex d with ⟨e | ⟨⟩, d'⟩ <;> rwa [hmethod] at hafter
  | movePage page toIndex =>
    have hafter := hmove page toIndex d h
    rw [Command.apply_movePage, Command.applyMovePage]
    cases Document.indexOf page d with
    | error e => exact h
    | ok index =>
      rcases hmethod : Document.movePage page toIndex d with ⟨e | ⟨⟩, d'⟩ <;> rwa [hmethod] at hafter
  | setRotation page rotation =>
    have hafter := hrotate page rotation d h
    rw [Command.apply_setRotation, Command.applySetRotation]
    cases Document.page page d with
    | error e => exact h
    | ok info =>
      rcases hmethod : Document.setRotation page rotation d with ⟨e | ⟨⟩, d'⟩ <;>
        rwa [hmethod] at hafter
  | _ => cases hc

variable {s : UndoStack D} {d : D}

omit [LawfulDocument D] in
/-- An edit on the undo stack keeps what edits of one page keep. -/
theorem kept_applyCommand (hkeep : EditsKeep P) {command : Command D} {page : PageId}
    (hc : command.edited = some page) (h : P d) : P (s.applyCommand command d).2.2 := by
  have hafter := hkeep command page hc d h
  unfold UndoStack.applyCommand
  rcases happly : command.apply d with ⟨e | inverse, d'⟩
  · rwa [happly] at hafter
  · rw [happly] at hafter
    dsimp only
    split <;> exact hafter

/-- So does an undo, whose entry edits one page. -/
theorem kept_undoLast (hkeep : EditsKeep P) (hs : s.EditsKnown d) (h : P d) :
    P (s.undoLast d).2.2 := by
  unfold UndoStack.undoLast
  rcases hundo : s.undo with _ | ⟨c, undo⟩
  · exact h
  obtain ⟨page, hc, -⟩ := hs c (by simp [hundo])
  have hafter := hkeep c page hc d h
  dsimp only
  rcases happly : c.apply d with ⟨e | inverse, d'⟩
  · rwa [happly] at hafter
  · rwa [happly] at hafter

/-- So does a redo. -/
theorem kept_redoLast (hkeep : EditsKeep P) (hs : s.EditsKnown d) (h : P d) :
    P (s.redoLast d).2.2 := by
  unfold UndoStack.redoLast
  rcases hredo : s.redo with _ | ⟨c, redo⟩
  · exact h
  obtain ⟨page, hc, -⟩ := hs c (by simp [hredo])
  have hafter := hkeep c page hc d h
  dsimp only
  rcases happly : c.apply d with ⟨e | inverse, d'⟩
  · rwa [happly] at hafter
  · rwa [happly] at hafter

end UndoStack

section Lopdf

variable [Lopdf]

/-! ### Properties of the open document -/

/-- A property that an event keeps of this document under these answers, and that whatever is opened
has. -/
structure Keeps (P : EditableDocument → Prop) (around : Surroundings)
    (document : Option EditableDocument) : Prop where
  edit : UndoStack.EditsKeep P
  save : ∀ mode d, document = some d → P d → P (d.save around.save mode).2
  opens : ∀ path opened, around.openPath path = .ok opened → P opened.document
  synthetic : ∀ d, P (.vec d)

namespace OpdfApp

/-- The document that is open, if any, has the property. -/
def Holds (P : EditableDocument → Prop) (app : OpdfApp) : Prop := ∀ d, app.document = some d → P d

variable {P : EditableDocument → Prop} {app app' : OpdfApp} {around : Surroundings}
  {document : Option EditableDocument}

omit [Lopdf] in
theorem Holds.of_same (h : app.Holds P) (hdocument : app'.document = app.document) : app'.Holds P := by
  intro d hd
  exact h d (hdocument ▸ hd)

omit [Lopdf] in
theorem holds_of_some {d : EditableDocument} (hdocument : app.document = some d) (h : P d) :
    app.Holds P := by
  intro d' hd'
  obtain rfl := Option.some.inj (hdocument.symm.trans hd')
  exact h

/-- Whatever is opened has the property. -/
theorem Holds.openChosenPath (h : app.Holds P) (hkeeps : Keeps P around document) :
    (app.openChosenPath around).Holds P := by
  unfold OpdfApp.openChosenPath
  split
  · exact h
  · unfold absorbOpen
    split
    · rename_i path _ opened hopened
      exact holds_of_some rfl (hkeeps.opens _ opened hopened)
    · exact h.of_same rfl

theorem Holds.carryOut (h : app.Holds P) (hkeeps : Keeps P around document) (intent : ExitIntent) :
    (app.carryOut around intent).Holds P := by
  cases intent with
  | close => exact fun d hd => by cases hd
  | quit => exact h.of_same rfl
  | «open» => exact h.openChosenPath hkeeps

/-- Asking for an exit keeps it, whether it is carried out or held back. -/
theorem Holds.requestExit (h : app.Holds P) (hkeeps : Keeps P around document) (intent : ExitIntent) :
    (app.requestExit around intent).Holds P := by
  unfold OpdfApp.requestExit mayAbandonDocument
  split
  · rename_i hmay
    split at hmay
    · cases hmay
    · cases hmay
      exact h.carryOut hkeeps intent
  · rename_i hmay
    split at hmay
    · cases hmay
      exact h.of_same rfl
    · cases hmay

theorem Holds.confirmDiscard (h : app.Holds P) (hkeeps : Keeps P around document) :
    (app.confirmDiscard around).Holds P := by
  unfold OpdfApp.confirmDiscard
  split
  · exact h
  · have hanswered : Holds P { app with exitPending := none } := h.of_same rfl
    exact hanswered.carryOut hkeeps _

/-! ### Saving -/

/-- A save keeps it, whether it goes through or not. -/
theorem Holds.saveTo (h : app.Holds P) (hkeeps : Keeps P around app.document) (path : String) (mode : SaveMode) :
    (app.saveTo around path mode).2.Holds P := by
  unfold OpdfApp.saveTo
  cases hdocument : app.document with
  | none => exact h
  | some d =>
    have hsaved := hkeeps.save mode d hdocument (h d hdocument)
    dsimp only
    split
    · rename_i d' hsave
      rw [hsave] at hsaved
      exact holds_of_some rfl hsaved
    · rename_i e d' hsave
      rw [hsave] at hsaved
      exact holds_of_some rfl hsaved

theorem Holds.saveToChosenPath (h : app.Holds P) (hkeeps : Keeps P around app.document) :
    (app.saveToChosenPath around).Holds P := by
  unfold OpdfApp.saveToChosenPath
  split
  · exact h
  split
  · exact h
  · exact h.saveTo hkeeps _ _

theorem Holds.saveInPlace (h : app.Holds P) (hkeeps : Keeps P around app.document) :
    (app.saveInPlace around).Holds P := by
  unfold OpdfApp.saveInPlace
  split
  · exact h
  split
  · exact h.saveTo hkeeps _ _
  · exact h.saveToChosenPath hkeeps

/-- So does saving before an exit. -/
theorem Holds.saveFirst (h : app.Holds P) (hkeeps : Keeps P around app.document) :
    (app.saveFirst around).Holds P := by
  unfold OpdfApp.saveFirst
  split
  · exact h
  have hsaved := h.saveInPlace hkeeps
  dsimp only
  split
  · exact hsaved.of_same rfl
  · exact hsaved.confirmDiscard hkeeps

/-- So does a compaction. -/
theorem Holds.confirmCompaction (h : app.Holds P) (hkeeps : Keeps P around app.document) :
    (app.confirmCompaction around).Holds P := by
  unfold OpdfApp.confirmCompaction
  split
  swap
  · exact h
  have hanswered : Holds P { app with compactionPending := false } := h.of_same rfl
  dsimp only
  split
  · exact hanswered
  rename_i path _
  have hsaved := hanswered.saveTo hkeeps path .compacted
  split
  · rename_i saved hresult
    rw [hresult] at hsaved
    exact hsaved.of_same rfl
  · rename_i failed hresult
    rw [hresult] at hsaved
    exact hsaved

/-! ### Editing -/

theorem Holds.resnapshot (h : app.Holds P) : app.resnapshot.Holds P :=
  h.of_same (by rw [resnapshot_keeps])

/-- An edit of one page keeps it. -/
theorem Holds.applyCommand (h : app.Holds P) (hkeeps : Keeps P around document)
    {command : Command EditableDocument} {page : PageId} (hc : command.edited = some page) :
    (app.applyCommand command).Holds P := by
  unfold OpdfApp.applyCommand
  cases hdocument : app.document with
  | none => exact h
  | some d =>
    have hedited := UndoStack.kept_applyCommand (s := app.undo) hkeeps.edit hc (h d hdocument)
    dsimp only
    rcases happly : app.undo.applyCommand command d with ⟨e | ⟨⟩, undo, d'⟩
    · rw [happly] at hedited
      exact holds_of_some rfl hedited
    · rw [happly] at hedited
      exact Holds.resnapshot (holds_of_some rfl hedited)

/-- So does an undo. -/
theorem Holds.undoEdit (h : app.Holds P) (hsound : app.Sound) (hkeeps : Keeps P around document) :
    app.undoEdit.Holds P := by
  unfold OpdfApp.undoEdit
  cases hdocument : app.document with
  | none => exact h
  | some d =>
    have hedited := UndoStack.kept_undoLast hkeeps.edit (hsound.edits d hdocument) (h d hdocument)
    dsimp only
    rcases hundo : app.undo.undoLast d with ⟨e | _ | _, undo, d'⟩
    · rw [hundo] at hedited
      exact holds_of_some rfl hedited
    · rw [hundo] at hedited
      exact holds_of_some rfl hedited
    · rw [hundo] at hedited
      exact Holds.resnapshot (holds_of_some rfl hedited)

/-- So does a redo. -/
theorem Holds.redoEdit (h : app.Holds P) (hsound : app.Sound) (hkeeps : Keeps P around document) :
    app.redoEdit.Holds P := by
  unfold OpdfApp.redoEdit
  cases hdocument : app.document with
  | none => exact h
  | some d =>
    have hedited := UndoStack.kept_redoLast hkeeps.edit (hsound.edits d hdocument) (h d hdocument)
    dsimp only
    rcases hredo : app.undo.redoLast d with ⟨e | _ | _, undo, d'⟩
    · rw [hredo] at hedited
      exact holds_of_some rfl hedited
    · rw [hredo] at hedited
      exact holds_of_some rfl hedited
    · rw [hredo] at hedited
      exact Holds.resnapshot (holds_of_some rfl hedited)

/-! ### Runs -/

variable [Pdfium]

/-- Every event does. -/
theorem holds_handle (h : app.Holds P) (hsound : app.Sound) (event : WindowEvent × Surroundings)
    (hkeeps : Keeps P event.2 app.document) : (app.handle event).Holds P := by
  obtain ⟨event, around⟩ := event
  cases event with
  | action action =>
    cases action with
    | openDocument => exact h.requestExit hkeeps .open
    | closeDocument => exact h.requestExit hkeeps .close
    | quit => exact h.requestExit hkeeps .quit
    | save => exact h.saveInPlace hkeeps
    | saveAs => exact h.saveToChosenPath hkeeps
    | undo => exact h.undoEdit hsound hkeeps
    | redo => exact h.redoEdit hsound hkeeps
    | rotatePageClockwise =>
      simp only [handle, applyAction, rotateCurrentPage]
      split
      · exact h
      · exact h.applyCommand hkeeps rfl
    | deletePage =>
      simp only [handle, applyAction, deleteCurrentPage]
      split
      · exact h
      · exact h.applyCommand hkeeps rfl
    | compact =>
      simp only [handle, applyAction, askToCompact]
      split <;> exact h
    | generateSynthetic pageCount =>
      simp only [handle, applyAction, loadSynthetic, openSyntheticDocument]
      split
      · exact h
      · rename_i opened hopened
        split at hopened
        · cases hopened
        split at hopened
        · cases hopened
        · cases hopened
          exact holds_of_some rfl (hkeeps.synthetic _)
    | zoomIn | zoomOut | zoomActual | fitWidth | fitPage | firstPage | lastPage | nextPage
    | previousPage | toggleRail | rotateViewClockwise | rotateViewCounterClockwise | showAbout =>
      exact h.of_same rfl
  | confirmDiscard => exact h.confirmDiscard hkeeps
  | saveFirst => exact h.saveFirst hkeeps
  | confirmCompaction => exact h.confirmCompaction hkeeps
  | showCanvas pixelsPerPoint maxTextureSide scrollOffsetPx viewportSizePx =>
    simp only [handle]
    split <;> exact h
  | _ => exact h.of_same rfl

/-- Every event of a run keeps the property of the document that is open then. -/
def KeepsAlong (P : EditableDocument → Prop) : OpdfApp → List (WindowEvent × Surroundings) → Prop
  | _, [] => True
  | app, event :: events => Keeps P event.2 app.document ∧ KeepsAlong P (app.handle event) events

/-- A property kept along a run holds of the document open at its end. -/
theorem holds_handleAll (h : app.Holds P) (hsound : app.Sound)
    (events : List (WindowEvent × Surroundings)) (hkeeps : app.KeepsAlong P events) :
    (app.handleAll events).Holds P := by
  induction events generalizing app with
  | nil => exact h
  | cons event events ih =>
    obtain ⟨hevent, hlater⟩ := hkeeps
    exact ih (holds_handle h hsound event hevent) (sound_handle hsound event) hlater

end OpdfApp

/-! ### What is written -/

/-- A file that is open is orderly. -/
def EditableDocument.Orderly : EditableDocument → Prop
  | .pdf d => ∃ pages, d.Orderly pages
  | .vec _ => True

/-- Files are opened that are tidy, and what a save writes reads back as it was written. -/
structure Surroundings.Orderly (around : Surroundings) : Prop where
  opens : ∀ path opened, around.openPath path = .ok opened → ∃ id file root pages pdfiumError,
    Tidy file root pages ∧ openPdf id path (.ok file) pdfiumError = .ok opened
  faithful : around.save.Faithful

/-- Files are opened that are tidy, and what a compaction of this document writes reads back as it
was written. -/
structure Surroundings.OrderlyFor (around : Surroundings) (document : Option EditableDocument) :
    Prop where
  opens : ∀ path opened, around.openPath path = .ok opened → ∃ id file root pages pdfiumError,
    Tidy file root pages ∧ openPdf id path (.ok file) pdfiumError = .ok opened
  faithful : ∀ d, document = some (.pdf d) → around.save.FaithfulTo d

theorem Surroundings.Orderly.forDocument {around : Surroundings} (h : around.Orderly)
    (document : Option EditableDocument) : around.OrderlyFor document :=
  ⟨h.opens, fun d _ => h.faithful.to d⟩

/-- At every event of a run, files are opened that are tidy, and what a compaction of the document
open then writes reads back as it was written. -/
def OpdfApp.OrderlyAlong [Pdfium] : OpdfApp → List (WindowEvent × Surroundings) → Prop
  | _, [] => True
  | app, event :: events =>
    event.2.OrderlyFor app.document ∧ OpdfApp.OrderlyAlong (app.handle event) events

/-- A run is over tidy files if every event of it is. -/
theorem OpdfApp.orderlyAlong_of_forall [Pdfium] {app : OpdfApp}
    {events : List (WindowEvent × Surroundings)} (h : ∀ event ∈ events, event.2.Orderly) :
    app.OrderlyAlong events := by
  induction events generalizing app with
  | nil => trivial
  | cons event events ih =>
    exact ⟨(h event List.mem_cons_self).forDocument _, ih fun later hlater =>
      h later (List.mem_cons_of_mem _ hlater)⟩

/-- Every file opened along such a run is tidy. -/
theorem OpdfApp.OrderlyAlong.opens [Pdfium] {app : OpdfApp}
    {events : List (WindowEvent × Surroundings)} (h : app.OrderlyAlong events) :
    ∀ event ∈ events, ∀ path opened, event.2.openPath path = .ok opened →
      ∃ id file root pages pdfiumError,
        Tidy file root pages ∧ openPdf id path (.ok file) pdfiumError = .ok opened := by
  induction events generalizing app with
  | nil => exact List.forall_mem_nil _
  | cons event events ih => exact List.forall_mem_cons.2 ⟨h.1.opens, ih h.2⟩

/-- Edits of single pages keep a document orderly. -/
theorem edits_keep_orderly : UndoStack.EditsKeep EditableDocument.Orderly := by
  refine UndoStack.editsKeep_of_methods ?_ ?_ ?_ ?_
  · rintro page (d | d) h
    · obtain ⟨pages, h⟩ := h
      rcases d.removePage_cases page with hsame | hmoved
      · exact ⟨pages, hsame.symm ▸ h⟩
      · exact ⟨pages, hmoved.orderly h⟩
    · trivial
  · rintro page atIndex (d | d) h
    · obtain ⟨pages, h⟩ := h
      rcases d.restorePage_cases page atIndex with hsame | hmoved
      · exact ⟨pages, hsame.symm ▸ h⟩
      · exact ⟨pages, hmoved.orderly h⟩
    · trivial
  · rintro page toIndex (d | d) h
    · obtain ⟨pages, h⟩ := h
      rcases d.movePage_cases page toIndex with hsame | hmoved
      · exact ⟨pages, hsame.symm ▸ h⟩
      · exact ⟨pages, hmoved.orderly h⟩
    · trivial
  · rintro page rotation (d | d) h
    · obtain ⟨pages, h⟩ := h
      rcases d.setRotation_cases page rotation with hsame | hturned
      · exact ⟨pages, hsame.symm ▸ h⟩
      · exact ⟨pages, hturned.orderly h⟩
    · trivial

variable [LawfulLopdf]

/-- A tidy file is opened as an orderly document. -/
theorem orderly_openPdf {id : DocumentId} {path : String} {file : LopdfDocument} {root : ObjectId}
    {pages : List ObjectId} (htidy : Tidy file root pages) {pdfiumError : Option String}
    {opened : OpenedDocument} (h : openPdf id path (.ok file) pdfiumError = .ok opened) :
    opened.document.Orderly := by
  unfold openPdf at h
  dsimp only at h
  split at h
  · cases h
  rename_i document hload
  split at h
  · cases h
  cases h
  exact ⟨pages, PdfDocument.orderly_load htidy hload⟩

/-- Every event keeps the open document orderly. -/
theorem keeps_orderly {around : Surroundings} {document : Option EditableDocument}
    (h : around.OrderlyFor document) : Keeps EditableDocument.Orderly around document where
  edit := edits_keep_orderly
  save mode d hdocument hd := by
    cases d with
    | vec d => cases mode <;> trivial
    | pdf d =>
      obtain ⟨pages, hd⟩ := hd
      cases mode with
      | incremental => exact ⟨pages, hd.saveIncremental _⟩
      | compacted => exact hd.saveCompacted (h.faithful d hdocument)
  opens path opened hopened := by
    obtain ⟨_, _, _, _, _, htidy, hopened⟩ := h.opens path opened hopened
    exact orderly_openPdf htidy hopened
  synthetic _ := trivial

/-- Along a run over tidy files, the open document stays orderly. -/
theorem OpdfApp.OrderlyAlong.keeps [Pdfium] {app : OpdfApp}
    {events : List (WindowEvent × Surroundings)} (h : app.OrderlyAlong events) :
    app.KeepsAlong EditableDocument.Orderly events := by
  induction events generalizing app with
  | nil => trivial
  | cons event events ih => exact ⟨keeps_orderly h.1, ih h.2⟩

/-- Whichever save of an orderly document goes through, the file it writes is tidy and shows the
pages of the document, of which there are some. -/
theorem PdfDocument.Orderly.written {d : PdfDocument} {pages : List ObjectId} (h : d.Orderly pages)
    {env : SaveEnv} {written reread : LopdfDocument}
    (hwritten : (d.saveIncremental env).1 = .ok written ∨ (d.saveCompacted env).1 = .ok written)
    (hreread : written.ReadsBackAs reread) (hcounted : reread.Counted) :
    d.pages.live ≠ [] ∧ ∃ root pages', Tidy reread root pages' ∧
      pages'.map (PdfDocument.pageShown reread.objects) = d.pages.live.map PageSlot.shown := by
  rcases hwritten with hok | hok
  · have hsave : d.saveIncremental env = (.ok written, _) := Prod.ext hok rfl
    refine ⟨fun hnil => ?_, h.written_incremental hsave hreread hcounted⟩
    rw [PdfDocument.saveIncremental, if_pos (by rw [hnil]; rfl)] at hok
    cases hok
  · have hsave : d.saveCompacted env = (.ok written, _) := Prod.ext hok rfl
    refine ⟨fun hnil => ?_, h.written_compacted hsave hreread hcounted⟩
    rw [PdfDocument.saveCompacted, if_pos (by rw [hnil]; rfl)] at hok
    cases hok

/-- A tidy file with pages opens in the shell with its pages on screen. -/
theorem Tidy.opensPdf {file : LopdfDocument} {root : ObjectId} {pages : List ObjectId}
    (h : Tidy file root pages) (hpages : pages ≠ []) (id : DocumentId) (path : String)
    (pdfiumError : Option String) : ∃ opened, openPdf id path (.ok file) pdfiumError = .ok opened ∧
      opened.snapshot.pages.map PageInfo.geometry = pages.map (PdfDocument.pageShown file.objects) := by
  obtain ⟨d, hload, hshown⟩ := PdfDocument.exists_load_of_tidy h hpages id
  have hsnapshot : DocumentSnapshot.of d = .ok ⟨d.id, d.pages.live.map PageSlot.info, d.revision⟩ :=
    snapshot_of d
  unfold openPdf
  simp only [hload, hsnapshot]
  refine ⟨_, rfl, ?_⟩
  rw [← hshown, List.map_map]
  rfl

namespace OpdfApp

variable [Pdfium]

end OpdfApp
end Lopdf

namespace ShellSession

open scoped ReferenceLopdf BlankPdfium

def around : Surroundings := ⟨none, some "copy.pdf", fun path => .error (.io path), .counting, 7⟩

theorem around_orderly : around.Orderly := by
  refine ⟨fun path opened h => ?_, SaveEnv.faithful_counting⟩
  cases h

def events : List (WindowEvent × Surroundings) :=
  [.showCanvas 1 8192 0 (800, 600), .action .firstPage, .action .rotatePageClockwise,
    .action .lastPage, .action .deletePage, .action .save, .action .compact, .confirmCompaction,
    .action .firstPage, .action .rotatePageClockwise].map (·, around)

def opened : OpenedDocument :=
  (openPdf 1 "nested.pdf" (.ok NestedFile.file) none).toOption.get (by decide +kernel)

def reached : OpdfApp := (OpdfApp.new opened).handleAll events

def asPdf : EditableDocument → Option PdfDocument
  | .pdf d => some d
  | .vec _ => none

def edited : PdfDocument := (reached.document.bind asPdf).get (by decide +kernel)

def written : LopdfDocument := (edited.saveIncremental .counting).1.toOption.get (by decide +kernel)

def reread : LopdfDocument := (SaveEnv.counting.parse written).toOption.get (by decide +kernel)

theorem openPdf_file : openPdf 1 "nested.pdf" (.ok NestedFile.file) none = .ok opened := rfl

theorem events_orderly : ∀ event ∈ events, event.2.Orderly := by
  intro event hevent
  obtain ⟨kind, -, rfl⟩ := List.mem_map.1 hevent
  exact around_orderly

theorem reached_document : reached.document = some (.pdf edited) := rfl

theorem saveIncremental_edited : (edited.saveIncremental .counting).1 = .ok written :=
  PdfDocument.eq_ok_get _ _

theorem parse_written : SaveEnv.counting.parse written = .ok reread := PdfDocument.eq_ok_get _ _

end ShellSession

namespace OpdfApp

open scoped ReferenceLopdf BlankPdfium

end OpdfApp
end OpdfEditor
