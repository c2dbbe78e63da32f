import OpdfEditor.EditableDocument
import OpdfEditor.ShellService
import OpdfEditor.Surfaces
import OpdfEditor.UndoStack

/-!
The application shell: the one place that owns the open document, its history, its
service and its caches, and applies user actions. What the user answers in a dialog
and what the file system does are inputs of each action.
-/
namespace OpdfEditor

/-! ### Opening documents -/

/-- A document the shell has opened, with the service that renders it and the snapshot both were
built from. -/
structure OpenedDocument where
  document : EditableDocument
  service : ShellService
  snapshot : DocumentSnapshot
  path : Option String

def syntheticSizes : List PageSize :=
  [.a4, .letter, ⟨.ofInt 1224, .ofInt 792⟩, ⟨.ofInt 420, .ofInt 1200⟩, ⟨.ofInt 288, .ofInt 288⟩]

def syntheticRotations : List Rotation := [.none, .quarter, .half, .threeQuarter]

def appendSyntheticPages : Nat → Nat → VecDocument → Except Error VecDocument
  | 0, _, d => .ok d
  | count + 1, index, d =>
    match d.insertPage index (syntheticSizes.getD (index % syntheticSizes.length) .letter) with
    | (.error e, _) => .error e
    | (.ok id, d') =>
      match d'.setRotation id (syntheticRotations.getD (index % syntheticRotations.length) .none) with
      | (.error e, _) => .error e
      | (.ok (), d'') => appendSyntheticPages count (index + 1) d''

def buildSyntheticDocument (id : DocumentId) (pageCount : Nat) : Except Error VecDocument :=
  appendSyntheticPages pageCount 0 (.new id)

def openSyntheticDocument (id : DocumentId) (pageCount : Nat) : Except Error OpenedDocument :=
  match buildSyntheticDocument id pageCount with
  | .error e => .error e
  | .ok document =>
    match DocumentSnapshot.of document with
    | .error e => .error e
    | .ok snapshot => .ok ⟨.vec document, .fake (.new snapshot), snapshot, none⟩

/-- The production opener, over a file given as it parses: a service starts on the snapshot the
shell will draw, and its worker may find that Pdfium cannot open the file. -/
def openPdf [Lopdf] (id : DocumentId) (path : String) (file : Except Error LopdfDocument)
    (pdfiumError : Option String) : Except Error OpenedDocument :=
  match file with
  | .error e => .error e
  | .ok file =>
    match PdfDocument.load id file with
    | .error e => .error e
    | .ok document =>
      match DocumentSnapshot.of document with
      | .error e => .error e
      | .ok snapshot =>
        let system := match pdfiumError with
          | none => RenderSystem.start snapshot
          | some reason => .startFailing snapshot reason
        .ok ⟨.pdf document, .pdfium system, snapshot, some path⟩

/-! ### The application -/

/-- What the user asked for that would abandon the open document. -/
inductive ExitIntent where
  | close | quit | open
  deriving DecidableEq

/-- Something the user asked for from the menu bar, toolbar or keyboard. -/
inductive MenuAction where
  | openDocument | save | saveAs | closeDocument | undo | redo | rotatePageClockwise | deletePage
  | compact | quit
  | generateSynthetic (pageCount : Nat)
  | zoomIn | zoomOut | zoomActual | fitWidth | fitPage
  | firstPage | lastPage | nextPage | previousPage
  | toggleRail | rotateViewClockwise | rotateViewCounterClockwise | showAbout
  deriving DecidableEq

/-- What the user and the file system answer during one action. -/
structure Surroundings where
  choosePdf : Option String
  chooseSavePath : Option String
  openPath : String → Except Error OpenedDocument
  save : SaveEnv
  /-- The identity minted for a document or an empty snapshot. -/
  freshId : DocumentId

structure OpdfApp where
  /-- `state`, `canvas_cache`, `rail_cache` and `service`. -/
  surfaces : Surfaces ShellService
  document : Option EditableDocument
  documentPath : Option String
  /-- The history of the open document, and only that one. -/
  undo : UndoStack EditableDocument
  compactionPending : Bool
  /-- The revision the document was at when it was last written to disk. -/
  savedRevision : Option UInt64
  exitPending : Option ExitIntent
  pageEntry : String
  showAbout : Bool
  lastError : Option String
  /-- How often the window was told to close. -/
  closeCommands : Nat

def canvasCacheBudgetBytes : Nat := 256 * 1024 * 1024

def railCacheBudgetBytes : Nat := 32 * 1024 * 1024

section Lopdf

variable [Lopdf]

namespace OpdfApp

def new (opened : OpenedDocument) : OpdfApp where
  surfaces := .start opened.snapshot canvasCacheBudgetBytes railCacheBudgetBytes opened.service
  document := some opened.document
  documentPath := opened.path
  undo := .withLimit defaultUndoLimit
  compactionPending := false
  savedRevision := some (Document.revision opened.document)
  exitPending := none
  pageEntry := "1"
  showAbout := false
  lastError := none
  closeCommands := 0

def modifyState (f : ViewerState → ViewerState) (app : OpdfApp) : OpdfApp :=
  { app with surfaces := { app.surfaces with viewer := f app.surfaces.viewer } }

/-! ### Installing a document -/

/-- The one place a document, its origin, its service and its snapshot are installed together. -/
def installDocument (document : Option EditableDocument) (path : Option String)
    (service : ShellService) (snapshot : DocumentSnapshot) (app : OpdfApp) : OpdfApp :=
  { app with
    document
    documentPath := path
    undo := app.undo.clear
    savedRevision := document.map Document.revision
    surfaces := app.surfaces.openDocument snapshot service
    pageEntry := "1" }.modifyState (ViewerState.scrollToPage 0 0)

def openDocument (opened : OpenedDocument) (app : OpdfApp) : OpdfApp :=
  app.installDocument (some opened.document) opened.path opened.service opened.snapshot

/-- Install an opened document, or record why it could not be opened. -/
def absorbOpen (result : Except Error OpenedDocument) (path : String) (app : OpdfApp) : OpdfApp :=
  match result with
  | .ok opened => { app.openDocument opened with lastError := none }
  | .error e => { app with lastError := some s!"could not open {path}: {e.display}" }

def openChosenPath (around : Surroundings) (app : OpdfApp) : OpdfApp :=
  match around.choosePdf with
  | none => app
  | some path => app.absorbOpen (around.openPath path) path

def closeDocument (around : Surroundings) (app : OpdfApp) : OpdfApp :=
  let snapshot : DocumentSnapshot := ⟨around.freshId, [], 0⟩
  app.installDocument none none (.fake (.new snapshot)) snapshot

/-! ### Saving -/

/-- Write the open document, answering whether it was written. A failed write leaves the
document open as it is. -/
def saveTo (around : Surroundings) (path : String) (mode : SaveMode) (app : OpdfApp) :
    Bool × OpdfApp :=
  match app.document with
  | none => (false, app)
  | some document =>
    match document.save around.save mode with
    | (.ok (), document') =>
      (true,
        { app with
          document := some document'
          documentPath := some path
          savedRevision := some (Document.revision document')
          lastError := none })
    | (.error e, document') =>
      (false,
        { app with
          document := some document'
          lastError := some s!"could not save {path}: {e.display}" })

def saveToChosenPath (around : Surroundings) (app : OpdfApp) : OpdfApp :=
  if app.document.isNone then app
  else
    match around.chooseSavePath with
    | none => app
    | some path => (app.saveTo around path .incremental).2

/-- Save to the document's own path, asking for one if it has none. -/
def saveInPlace (around : Surroundings) (app : OpdfApp) : OpdfApp :=
  if app.document.isNone then app
  else
    match app.documentPath with
    | some path => (app.saveTo around path .incremental).2
    | none => app.saveToChosenPath around

/-! ### Editing -/

def resnapshot (app : OpdfApp) : OpdfApp :=
  match app.document with
  | none => app
  | some document =>
    match DocumentSnapshot.of document with
    | .error e => { app with lastError := some s!"could not read the edited document: {e.display}" }
    | .ok snapshot => { app with surfaces := app.surfaces.replaceSnapshot snapshot }

def applyCommand (command : Command EditableDocument) (app : OpdfApp) : OpdfApp :=
  match app.document with
  | none => app
  | some document =>
    match app.undo.applyCommand command document with
    | (.error e, undo, document') =>
      { app with
        undo
        document := some document'
        lastError := some s!"could not apply the edit: {e.display}" }
    | (.ok (), undo, document') => { app with undo, document := some document' }.resnapshot

def undoEdit (app : OpdfApp) : OpdfApp :=
  match app.document with
  | none => app
  | some document =>
    match app.undo.undoLast document with
    | (.ok true, undo, document') => { app with undo, document := some document' }.resnapshot
    | (.ok false, undo, document') => { app with undo, document := some document' }
    | (.error e, undo, document') =>
      { app with
        undo
        document := some document'
        lastError := some s!"could not undo: {e.display}" }

def redoEdit (app : OpdfApp) : OpdfApp :=
  match app.document with
  | none => app
  | some document =>
    match app.undo.redoLast document with
    | (.ok true, undo, document') => { app with undo, document := some document' }.resnapshot
    | (.ok false, undo, document') => { app with undo, document := some document' }
    | (.error e, undo, document') =>
      { app with
        undo
        document := some document'
        lastError := some s!"could not redo: {e.display}" }

def currentPage (app : OpdfApp) : Option PageInfo :=
  app.surfaces.viewer.currentPage.bind fun index => app.surfaces.viewer.snapshot.pages[index]?

def deleteCurrentPage (app : OpdfApp) : OpdfApp :=
  match app.currentPage with
  | none => app
  | some page => app.applyCommand (.removePage page.id)

def rotateCurrentPage (app : OpdfApp) : OpdfApp :=
  match app.currentPage with
  | none => app
  | some page => app.applyCommand (.setRotation page.id (page.rotation.rotatedBy .quarter))

/-! ### Unsaved changes -/

def hasUnsavedChanges (app : OpdfApp) : Bool :=
  match app.document with
  | some document => app.savedRevision ≠ some (Document.revision document)
  | none => false

/-- Whether an exit may go ahead at once; if not, the prompt is raised. -/
def mayAbandonDocument (intent : ExitIntent) (app : OpdfApp) : Bool × OpdfApp :=
  if app.hasUnsavedChanges then (false, { app with exitPending := some intent }) else (true, app)

def sendClose (app : OpdfApp) : OpdfApp := { app with closeCommands := app.closeCommands + 1 }

def carryOut (around : Surroundings) (intent : ExitIntent) (app : OpdfApp) : OpdfApp :=
  match intent with
  | .close => app.closeDocument around
  | .quit => app.sendClose
  | .open => app.openChosenPath around

def confirmDiscard (around : Surroundings) (app : OpdfApp) : OpdfApp :=
  match app.exitPending with
  | none => app
  | some intent => { app with exitPending := none }.carryOut around intent

def cancelDiscard (app : OpdfApp) : OpdfApp := { app with exitPending := none }

/-! ### Compaction -/

def askToCompact (app : OpdfApp) : OpdfApp :=
  if app.document.isNone then app else { app with compactionPending := true }

/-- Go ahead with the compacting save. The history goes only once it has succeeded. -/
def confirmCompaction (around : Surroundings) (app : OpdfApp) : OpdfApp :=
  if app.compactionPending then
    let answered := { app with compactionPending := false }
    match answered.documentPath.orElse fun () => around.chooseSavePath with
    | none => answered
    | some path =>
      match answered.saveTo around path .compacted with
      | (true, saved) => { saved with undo := saved.undo.clear }
      | (false, failed) => failed
  else app

def cancelCompaction (app : OpdfApp) : OpdfApp := { app with compactionPending := false }

/-! ### Actions -/

def loadSynthetic (around : Surroundings) (pageCount : Nat) (app : OpdfApp) : OpdfApp :=
  match openSyntheticDocument around.freshId pageCount with
  | .error _ => app
  | .ok opened => app.openDocument opened

/-- An exit asked for from the menu: carried out, or held back until the user has answered. -/
def requestExit (around : Surroundings) (intent : ExitIntent) (app : OpdfApp) : OpdfApp :=
  match app.mayAbandonDocument intent with
  | (true, app') => app'.carryOut around intent
  | (false, app') => app'

def applyViewAction (action : MenuAction) (v : ViewerState) : ViewerState :=
  let anchorPx := v.viewportSizePx.2 / 2
  let lastPage := v.pageCount - 1
  let current := v.currentPage.getD 0
  match action with
  | .zoomIn => { v with fitMode := .free }.setZoomAnchored (stepZoomIn v.zoom) anchorPx
  | .zoomOut => { v with fitMode := .free }.setZoomAnchored (stepZoomOut v.zoom) anchorPx
  | .zoomActual => { v with fitMode := .free }.setZoomAnchored 1 anchorPx
  | .fitWidth => { v with fitMode := .width }.reapplyFitMode
  | .fitPage => { v with fitMode := .page }.reapplyFitMode
  | .firstPage => v.scrollToPage 0 0
  | .lastPage => v.scrollToPage lastPage 0
  | .nextPage => v.scrollToPage (min (current + 1) lastPage) 0
  | .previousPage => v.scrollToPage (current - 1) 0
  | .toggleRail => { v with railVisible := !v.railVisible }
  | .rotateViewClockwise => { v with viewRotation := v.viewRotation.rotatedBy .quarter }
  | .rotateViewCounterClockwise => { v with viewRotation := v.viewRotation.rotatedBy .threeQuarter }
  | _ => v

def applyAction (around : Surroundings) (action : MenuAction) (app : OpdfApp) : OpdfApp :=
  match action with
  | .openDocument => app.requestExit around .open
  | .save => app.saveInPlace around
  | .saveAs => app.saveToChosenPath around
  | .closeDocument => app.requestExit around .close
  | .undo => app.undoEdit
  | .redo => app.redoEdit
  | .rotatePageClockwise => app.rotateCurrentPage
  | .deletePage => app.deleteCurrentPage
  | .compact => app.askToCompact
  | .quit => app.requestExit around .quit
  | .generateSynthetic pageCount => app.loadSynthetic around pageCount
  | .showAbout => { app with showAbout := true }
  | viewAction => app.modifyState (applyViewAction viewAction)

/-! ### Runs -/

end OpdfApp

/-- What can happen to the shell: a menu action or an answer to a prompt, part of a frame, or a
step of the render worker. -/
inductive ShellEvent where
  | action (action : MenuAction)
  | confirmDiscard | cancelDiscard | confirmCompaction | cancelCompaction
  | surface (event : SurfaceEvent)
  | work (fault : Option String)

namespace OpdfApp

def step [Pdfium] (app : OpdfApp) (event : ShellEvent × Surroundings) : OpdfApp :=
  match event.1 with
  | .action action => app.applyAction event.2 action
  | .confirmDiscard => app.confirmDiscard event.2
  | .cancelDiscard => app.cancelDiscard
  | .confirmCompaction => app.confirmCompaction event.2
  | .cancelCompaction => app.cancelCompaction
  | .surface surfaceEvent => { app with surfaces := app.surfaces.step surfaceEvent }
  | .work fault => { app with surfaces := { app.surfaces with service := app.surfaces.service.work fault } }

def run [Pdfium] (app : OpdfApp) (events : List (ShellEvent × Surroundings)) : OpdfApp :=
  events.foldl step app

end OpdfApp
end Lopdf
end OpdfEditor
