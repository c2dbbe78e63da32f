import OpdfEditor.PdfCopy
import OpdfEditor.Document

/-!
A real PDF file behind the document contract: page order and identity live in
memory, and the objects behind them are touched only to create pages or to save.
-/
namespace OpdfEditor

structure PageSlot where
  id : PageId
  objectId : ObjectId
  size : PageSize
  rotation : Rotation
  /-- Whether `rotation` differs from what the file records, so a save must write it. -/
  rotationChanged : Bool
  deriving DecidableEq

instance : HasPageId PageSlot := ⟨PageSlot.id⟩

@[simp] theorem pageId_pageSlot (slot : PageSlot) : pageId slot = slot.id := rfl

namespace PageSlot

def info (slot : PageSlot) : PageInfo := ⟨slot.id, slot.size, slot.rotation⟩

/-- A slot the file's records agree with. -/
def make (objectId : ObjectId) (size : PageSize) (rotation : Rotation) (id : PageId) : PageSlot :=
  ⟨id, objectId, size, rotation, false⟩

def rotate (rotation : Rotation) (slot : PageSlot) : PageSlot :=
  { slot with rotation, rotationChanged := true }

def markRotated (slot : PageSlot) : PageSlot := { slot with rotationChanged := true }

@[simp] theorem pageId_info (slot : PageSlot) : pageId slot.info = pageId slot := rfl

end PageSlot

abbrev PageMap := Roster PageSlot

def Roster.infos (pages : PageMap) : Roster PageInfo := pages.map PageSlot.info fun _ => rfl

namespace Roster

@[simp] theorem infos_live (pages : PageMap) : pages.infos.live = pages.live.map PageSlot.info := rfl
@[simp] theorem infos_removed (pages : PageMap) :
    pages.infos.removed = pages.removed.map PageSlot.info := rfl
@[simp] theorem infos_next (pages : PageMap) : pages.infos.next = pages.next := rfl
@[simp] theorem infos_ids (pages : PageMap) : pages.infos.ids = pages.ids := Roster.map_ids _ _ _
@[simp] theorem infos_findIndex (pages : PageMap) (id : PageId) :
    pages.infos.findIndex id = pages.findIndex id := Roster.map_findIndex _ _ _ _
/-- The calls on the page map are those on the roster of the pages it shows. -/
theorem infos_findSlot (pages : PageMap) (id : PageId) :
    pages.infos.findSlot id = (pages.findSlot id).map PageSlot.info := Roster.map_findSlot _ _ _ _
theorem infos_removeSlot (pages : PageMap) (id : PageId) :
    pages.infos.removeSlot id = (pages.removeSlot id).map infos := Roster.map_removeSlot _ _ _ _
theorem infos_restoreSlot (pages : PageMap) (id : PageId) (atIndex : Nat) :
    pages.infos.restoreSlot id atIndex = (pages.restoreSlot id atIndex).map infos :=
  Roster.map_restoreSlot _ _ _ _ _
theorem infos_relocateSlot (pages : PageMap) (id : PageId) (toIndex : Nat) :
    pages.infos.relocateSlot id toIndex =
      ((pages.relocateSlot id toIndex).1, (pages.relocateSlot id toIndex).2.infos) :=
  Roster.map_relocateSlot _ _ _ _ _
theorem infos_rotate (pages : PageMap) (id : PageId) (rotation : Rotation) :
    pages.infos.modifySlot id (PageInfo.withRotation rotation) (fun _ => rfl) =
      (pages.modifySlot id (PageSlot.rotate rotation) fun _ => rfl).map infos :=
  Roster.map_modifySlot _ _ _ _ _ _ fun _ => rfl
/-- A page inserted is shown as the blank page of its size. -/
theorem infos_insertSlot (pages : PageMap) (atIndex : Nat) (objectId : ObjectId) (size : PageSize) :
    pages.infos.insertSlot atIndex (PageInfo.blank size) (fun _ => rfl) =
      (pages.insertSlot atIndex (PageSlot.make objectId size .none) fun _ => rfl).map
        fun (id, r) => (id, infos r) :=
  Roster.map_insertSlot PageSlot.info (fun _ => rfl) pages atIndex
    (PageSlot.make objectId size .none) fun _ => rfl

end Roster

/-- What a save still has to write out. -/
structure DirtyState where
  structural : Bool
  rotations : Bool
  deriving DecidableEq

def DirtyState.clean : DirtyState := ⟨false, false⟩

def DirtyState.isClean (dirty : DirtyState) : Bool := !dirty.structural && !dirty.rotations

structure PdfDocument where
  id : DocumentId
  incremental : IncrementalDocument
  rootPagesId : ObjectId
  pages : PageMap
  revision : UInt64
  dirty : DirtyState

section Lopdf

variable [Lopdf]

def readRootPagesId (previous : LopdfDocument) : Except Error ObjectId :=
  match previous.catalog with
  | .error e => .error e
  | .ok catalog =>
    match (Dictionary.get catalog "Pages").bind Object.asReference with
    | some id => .ok id
    | none => .error (.malformed "the catalog names no page tree")

def readPages (previous : LopdfDocument) : PageMap :=
  (Lopdf.pageIter previous).foldl (fun pages objectId =>
    pages.appendSlot (PageSlot.make objectId (readPageSize previous.objects objectId)
      (readPageRotation previous.objects objectId)) fun _ => rfl) .empty

namespace PdfDocument

/-- An appended revision announces the version of the file it extends. -/
def announceVersion (incremental : IncrementalDocument) : IncrementalDocument :=
  { incremental with
    newDocument := { incremental.newDocument with version := incremental.previous.version } }

def buildFromIncremental (id : DocumentId) (incremental : IncrementalDocument) :
    Except Error PdfDocument :=
  match readRootPagesId incremental.previous with
  | .error e => .error e
  | .ok rootPagesId =>
    let pages := readPages incremental.previous
    if pages.live.length = 0 then .error (.malformed "document contains no pages")
    else
      .ok {
        id
        incremental := announceVersion incremental
        rootPagesId
        pages
        revision := 0
        dirty := .clean }

def load (id : DocumentId) (file : LopdfDocument) : Except Error PdfDocument :=
  buildFromIncremental id (IncrementalDocument.load file)

/-- The objects of the document, appended ones first. -/
def view (d : PdfDocument) : Objects := d.incremental.view

def withTarget (d : PdfDocument) (target : LopdfDocument) : PdfDocument :=
  { d with incremental := { d.incremental with newDocument := target } }

def page (id : PageId) (d : PdfDocument) : Except Error PageInfo :=
  (d.pages.findSlot id).map PageSlot.info

def commitStructure (d : PdfDocument) (pages : PageMap) : PdfDocument :=
  { d with pages, dirty := { d.dirty with structural := true }, revision := d.revision + 1 }

def removePage (id : PageId) (d : PdfDocument) : Outcome PdfDocument Unit :=
  match d.pages.removeSlot id with
  | .error e => (.error e, d)
  | .ok pages => (.ok (), d.commitStructure pages)

def restorePage (id : PageId) (atIndex : Nat) (d : PdfDocument) : Outcome PdfDocument Unit :=
  match d.pages.restoreSlot id atIndex with
  | .error e => (.error e, d)
  | .ok pages => (.ok (), d.commitStructure pages)

def movePage (id : PageId) (toIndex : Nat) (d : PdfDocument) : Outcome PdfDocument Unit :=
  match d.pages.relocateSlot id toIndex with
  | (.error e, pages) => (.error e, { d with pages })
  | (.ok (), pages) => (.ok (), d.commitStructure pages)

/-- The rotation is recorded as changed even when the value is the same: the file may inherit a
different one from an ancestor. -/
def setRotation (id : PageId) (rotation : Rotation) (d : PdfDocument) : Outcome PdfDocument Unit :=
  match d.pages.modifySlot id (PageSlot.rotate rotation) fun _ => rfl with
  | .error e => (.error e, d)
  | .ok pages =>
    (.ok (), { d with pages, dirty := { d.dirty with rotations := true }, revision := d.revision + 1 })

/-- The position is checked before the blank page is built. -/
def insertPage (atIndex : Nat) (size : PageSize) (d : PdfDocument) : Outcome PdfDocument PageId :=
  match d.pages.checkInsertionIndex atIndex with
  | .error e => (.error e, d)
  | .ok () =>
    let (objectId, target) := buildBlankPage d.incremental.newDocument d.rootPagesId size
    match d.pages.insertSlot atIndex (PageSlot.make objectId size .none) fun _ => rfl with
    | .error e => (.error e, d.withTarget target)
    | .ok (id, pages) => (.ok id, (d.withTarget target).commitStructure pages)

/-- Copy and insert each resolved source page in turn. A page that cannot be copied ends
it where it stands. -/
def importResolved (source : Objects) : List PageSlot → Nat → PdfDocument →
    Outcome PdfDocument (List PageId)
  | [], _, d => (.ok [], d)
  | slot :: slots, atIndex, d =>
    match copyPageInto source slot.objectId d.incremental.newDocument with
    | (none, target) =>
      (.error (.malformed s!"source page object {slot.objectId} could not be copied"),
        d.withTarget target)
    | (some copied, target) =>
      match d.pages.insertSlot atIndex (PageSlot.make copied slot.size slot.rotation) fun _ => rfl with
      | .error e => (.error e, d.withTarget target)
      | .ok (id, pages) =>
        -- the source may have rotated the page without saving, so the next save states it
        match pages.modifySlot id PageSlot.markRotated fun _ => rfl with
        | .error e => (.error e, { d.withTarget target with pages })
        | .ok pages =>
          match importResolved source slots (atIndex + 1) { d.withTarget target with pages } with
          | (.error e, d') => (.error e, d')
          | (.ok ids, d') => (.ok (id :: ids), d')

/-- Every source page is resolved before the target is touched. An empty import changes nothing
on disk but still advances the revision. -/
def importPages (source : PdfDocument) (ids : List PageId) (atIndex : Nat) (d : PdfDocument) :
    Outcome PdfDocument (List PageId) :=
  match d.pages.checkInsertionIndex atIndex with
  | .error e => (.error e, d)
  | .ok () =>
    match ids.mapM source.pages.findSlot with
    | .error e => (.error e, d)
    | .ok resolved =>
      match importResolved source.view resolved atIndex d with
      | (.error e, d') => (.error e, d')
      | (.ok imported, d') =>
        (.ok imported,
          { d' with
            dirty := if imported.isEmpty then d'.dirty else ⟨true, true⟩
            revision := d'.revision + 1 })

end PdfDocument
end Lopdf

/-- Serialized bytes, as far as reading them back goes. -/
inductive PdfBytes where
  | empty
  | damaged (error : Error)
  | file (document : LopdfDocument)

/-- Pages taken out of one document and not yet put into another. -/
inductive PortablePages where
  | vecPayload (pages : List PageInfo)
  | pdfPayload (bytes : PdfBytes)

def PortablePages.payloadType : PortablePages → String
  | vecPayload _ => "opdf_core::fakes::vec_document::VecPortablePayload"
  | pdfPayload _ => "opdf_pdf::document::PdfPortablePayload"

/-- Take back a payload this implementation put in; another implementation's is refused. -/
def PortablePages.takePdf (pages : PortablePages) : Except Error PdfBytes :=
  match pages with
  | pdfPayload bytes => .ok bytes
  | vecPayload _ => .error (.unsupported
      s!"these pages were exported by a different document implementation ({pages.payloadType}) and cannot be imported here (opdf_pdf::document::PdfPortablePayload); the carrier's contents are opaque, so there is nothing to fall back on")

section Lopdf

variable [Lopdf]

namespace PdfDocument

def loadFromBytes (id : DocumentId) : PdfBytes → Except Error PdfDocument
  | .empty => .error (.malformed "the bytes are not a document")
  | .damaged error => .error error
  | .file document => load id document

/-- Insert carried pages: the carrier is read as a document of its own, under a fresh identity,
and every page of it imported. -/
def importPortable (sourceId : DocumentId) (pages : PortablePages) (atIndex : Nat)
    (d : PdfDocument) : Outcome PdfDocument (List PageId) :=
  match d.pages.checkInsertionIndex atIndex with
  | .error e => (.error e, d)
  | .ok () =>
    match pages.takePdf with
    | .error e => (.error e, d)
    | .ok .empty => (.ok [], { d with revision := d.revision + 1 })
    | .ok bytes =>
      match loadFromBytes sourceId bytes with
      | .error e => (.error e, d)
      | .ok source => importPages source source.pages.ids atIndex d

instance : Document PdfDocument where
  id := PdfDocument.id
  revision := PdfDocument.revision
  pageCount d := d.pages.live.length
  pageIds d := d.pages.ids
  page := page
  indexOf id d := d.pages.findIndex id
  removePage := removePage
  restorePage := restorePage
  movePage := movePage
  setRotation := setRotation
  insertPage := insertPage
  importPages := importPages

end PdfDocument
end Lopdf
end OpdfEditor
