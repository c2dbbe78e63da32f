import OpdfEditor.PdfSave

/-!
Carrying pages out of a document: they are imported into a scratch document that
starts from nothing, written out, and carried as the bytes of a file of their own.
-/
namespace OpdfEditor

def createdDocumentVersion : String := "1.7"

def buildEmptyDocument : LopdfDocument :=
  let blank : LopdfDocument := ⟨createdDocumentVersion, ∅, [], 0⟩
  let (pagesId, document) := blank.addObject (.dictionary
    [("Type", .name "Pages"), ("Kids", .array []), ("Count", .integer 0)])
  let (catalogId, document) := document.addObject (.dictionary
    [("Type", .name "Catalog"), ("Pages", .reference pagesId)])
  { document with trailer := [("Root", .reference catalogId)] }

/-- The bytes a document is serialized to, as far as reading them back goes. -/
def SaveEnv.bytes (env : SaveEnv) (document : LopdfDocument) : Except Error PdfBytes :=
  match env.serialize document with
  | .error e => .error e
  | .ok () =>
    match env.parse document with
    | .error e => .ok (.damaged e)
    | .ok file => .ok (.file file)

namespace PdfDocument

variable [Lopdf]

/-- A document with no pages: the minimal file, opened as any file is. -/
def empty (env : SaveEnv) (id : DocumentId) : Except Error PdfDocument :=
  match env.bytes buildEmptyDocument with
  | .error e => .error e
  | .ok .empty => .error (.malformed "the bytes are not a document")
  | .ok (.damaged e) => .error e
  | .ok (.file file) =>
    match readRootPagesId file with
    | .error e => .error e
    | .ok rootPagesId =>
      .ok {
        id
        incremental := announceVersion (IncrementalDocument.load file)
        rootPagesId
        pages := .empty
        revision := 0
        dirty := .clean }

/-- Serialize pages into a standalone file and carry its bytes. A file without pages does not
parse, so an export of none is carried as no bytes. -/
def exportPages (env : SaveEnv) (scratchId : DocumentId) (ids : List PageId) (d : PdfDocument) :
    Except Error PortablePages :=
  match ids.mapM d.pages.findSlot with
  | .error e => .error e
  | .ok _ =>
    if ids.isEmpty then .ok (.pdfPayload .empty)
    else
      match empty env scratchId with
      | .error e => .error e
      | .ok scratch =>
        match importPages d ids 0 scratch with
        | (.error e, _) => .error e
        | (.ok _, scratch) =>
          match scratch.materializeChanges with
          | (.error e, _) => .error e
          | (.ok (), scratch) => (env.bytes scratch.buildCompactedDocument).map .pdfPayload

end PdfDocument
end OpdfEditor
