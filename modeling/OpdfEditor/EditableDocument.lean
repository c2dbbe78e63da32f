import OpdfEditor.PdfImport
import OpdfEditor.PdfSave
import OpdfEditor.VecDocument

/-!
The document a shell owns: whichever implementation is behind the trait object, with
the two ways to save it.
-/
namespace OpdfEditor

inductive SaveMode where
  | incremental | compacted
  deriving DecidableEq

/-- A document the shell can save. -/
inductive EditableDocument where
  | pdf (document : PdfDocument)
  | vec (document : VecDocument)

/-- What a call leaves, seen from around the document it was made on. -/
def Outcome.within {D E α : Type} (f : D → E) (outcome : Outcome D α) : Outcome E α :=
  (outcome.1, f outcome.2)

section Lopdf

variable [Lopdf]

namespace EditableDocument

def id : EditableDocument → DocumentId
  | pdf d => Document.id d
  | vec d => Document.id d

def revision : EditableDocument → UInt64
  | pdf d => Document.revision d
  | vec d => Document.revision d

def pageCount : EditableDocument → Nat
  | pdf d => Document.pageCount d
  | vec d => Document.pageCount d

def pageIds : EditableDocument → List PageId
  | pdf d => Document.pageIds d
  | vec d => Document.pageIds d

def page (id : PageId) : EditableDocument → Except Error PageInfo
  | pdf d => Document.page id d
  | vec d => Document.page id d

def indexOf (id : PageId) : EditableDocument → Except Error Nat
  | pdf d => Document.indexOf id d
  | vec d => Document.indexOf id d

def removePage (id : PageId) : EditableDocument → Outcome EditableDocument Unit
  | pdf d => (Document.removePage id d).within pdf
  | vec d => (Document.removePage id d).within vec

def restorePage (id : PageId) (atIndex : Nat) : EditableDocument → Outcome EditableDocument Unit
  | pdf d => (Document.restorePage id atIndex d).within pdf
  | vec d => (Document.restorePage id atIndex d).within vec

def movePage (id : PageId) (toIndex : Nat) : EditableDocument → Outcome EditableDocument Unit
  | pdf d => (Document.movePage id toIndex d).within pdf
  | vec d => (Document.movePage id toIndex d).within vec

def setRotation (id : PageId) (rotation : Rotation) :
    EditableDocument → Outcome EditableDocument Unit
  | pdf d => (Document.setRotation id rotation d).within pdf
  | vec d => (Document.setRotation id rotation d).within vec

def insertPage (atIndex : Nat) (size : PageSize) : EditableDocument → Outcome EditableDocument PageId
  | pdf d => (Document.insertPage atIndex size d).within pdf
  | vec d => (Document.insertPage atIndex size d).within vec

/-- Importing from another document is no method of the trait object, so nothing calls it here. -/
def importPages (_source : EditableDocument) (_ids : List PageId) (_atIndex : Nat)
    (d : EditableDocument) : Outcome EditableDocument (List PageId) :=
  (.error (.unsupported "a trait object cannot import from another document"), d)

instance : Document EditableDocument where
  id := id
  revision := revision
  pageCount := pageCount
  pageIds := pageIds
  page := page
  indexOf := indexOf
  removePage := removePage
  restorePage := restorePage
  movePage := movePage
  setRotation := setRotation
  insertPage := insertPage
  importPages := importPages

/-! ### Saving -/

/-- Only the real file has a format; the in-memory document writes down what was asked for. -/
def saveIncremental (env : SaveEnv) : EditableDocument → Outcome EditableDocument Unit
  | pdf d =>
    let saved := d.saveIncremental env
    (saved.1.map fun _ => (), pdf saved.2)
  | vec d => (env.writeText s!"incremental {Document.pageCount d} pages\n", vec d)

def saveCompacted (env : SaveEnv) : EditableDocument → Outcome EditableDocument Unit
  | pdf d =>
    let saved := d.saveCompacted env
    (saved.1.map fun _ => (), pdf saved.2)
  | vec d => (env.writeText s!"compacted {Document.pageCount d} pages\n", vec d)

def save (env : SaveEnv) : SaveMode → EditableDocument → Outcome EditableDocument Unit
  | .incremental => saveIncremental env
  | .compacted => saveCompacted env

/-! ### The laws pass through the trait object -/

def roster : EditableDocument → Roster PageInfo
  | pdf d => OpdfEditor.roster d
  | vec d => OpdfEditor.roster d

/-- An operation of the document inside is one of the document around it. -/
theorem mutates_within {D α : Type} [Document D] {inner : D → Roster PageInfo}
    {f : D → EditableDocument} {d : D} {outcome : Outcome D α}
    {spec : Except Error (α × Roster PageInfo)} (hroster : ∀ d, roster (f d) = inner d)
    (hrevision : ∀ d, revision (f d) = Document.revision d) (hid : ∀ d, id (f d) = Document.id d)
    (h : Mutates inner d outcome spec) : Mutates roster (f d) (outcome.within f) spec := by
  cases spec with
  | error e => exact congrArg (Outcome.within f) h
  | ok result =>
    obtain ⟨hvalue, hafter, hrev, hsame⟩ := h
    refine ⟨hvalue, (hroster _).trans hafter, ?_, ?_⟩
    · exact (hrevision _).trans (hrev.trans (congrArg (· + 1) (hrevision d).symm))
    · exact (hid _).trans (hsame.trans (hid d).symm)

theorem mutates_pdf {α : Type} {d : PdfDocument} {outcome : Outcome PdfDocument α}
    {spec : Except Error (α × Roster PageInfo)}
    (h : Mutates OpdfEditor.roster d outcome spec) : Mutates roster (pdf d) (outcome.within pdf) spec :=
  mutates_within (fun _ => rfl) (fun _ => rfl) (fun _ => rfl) h

theorem mutates_vec {α : Type} {d : VecDocument} {outcome : Outcome VecDocument α}
    {spec : Except Error (α × Roster PageInfo)}
    (h : Mutates OpdfEditor.roster d outcome spec) : Mutates roster (vec d) (outcome.within vec) spec :=
  mutates_within (fun _ => rfl) (fun _ => rfl) (fun _ => rfl) h

instance : LawfulDocument EditableDocument where
  roster := roster
  pageCount_eq d := by
    cases d with
    | pdf d => exact LawfulDocument.pageCount_eq d
    | vec d => exact LawfulDocument.pageCount_eq d
  pageIds_eq d := by
    cases d with
    | pdf d => exact LawfulDocument.pageIds_eq d
    | vec d => exact LawfulDocument.pageIds_eq d
  page_eq id d := by
    cases d with
    | pdf d => exact LawfulDocument.page_eq id d
    | vec d => exact LawfulDocument.page_eq id d
  indexOf_eq id d := by
    cases d with
    | pdf d => exact LawfulDocument.indexOf_eq id d
    | vec d => exact LawfulDocument.indexOf_eq id d
  removePage_spec id d := by
    cases d with
    | pdf d => exact mutates_pdf (LawfulDocument.removePage_spec id d)
    | vec d => exact mutates_vec (LawfulDocument.removePage_spec id d)
  restorePage_spec id atIndex d := by
    cases d with
    | pdf d => exact mutates_pdf (LawfulDocument.restorePage_spec id atIndex d)
    | vec d => exact mutates_vec (LawfulDocument.restorePage_spec id atIndex d)
  movePage_spec id toIndex d := by
    cases d with
    | pdf d => exact mutates_pdf (LawfulDocument.movePage_spec id toIndex d)
    | vec d => exact mutates_vec (LawfulDocument.movePage_spec id toIndex d)
  setRotation_spec id rotation d := by
    cases d with
    | pdf d => exact mutates_pdf (LawfulDocument.setRotation_spec id rotation d)
    | vec d => exact mutates_vec (LawfulDocument.setRotation_spec id rotation d)
  insertPage_spec atIndex size d := by
    cases d with
    | pdf d => exact mutates_pdf (LawfulDocument.insertPage_spec atIndex size d)
    | vec d => exact mutates_vec (LawfulDocument.insertPage_spec atIndex size d)
  importPages_ok source ids atIndex d d' newIds h := by cases h

/-- `d'` shows what `d` shows, keeps its trash and is at the same revision. -/
structure Keeps (d d' : EditableDocument) : Prop where
  roster : OpdfEditor.roster d' = OpdfEditor.roster d
  revision : Document.revision d' = Document.revision d
  id : Document.id d' = Document.id d

theorem Keeps.below {d d' : EditableDocument} (h : Keeps d d') : Below d d' :=
  ⟨h.id.symm, h.roster ▸ .refl _⟩

theorem keeps_pdf {d d' : PdfDocument} (hpages : d'.pages = d.pages)
    (hrevision : d'.revision = d.revision) (hid : d'.id = d.id) : Keeps (pdf d) (pdf d') :=
  ⟨congrArg Roster.infos hpages, hrevision, hid⟩

/-- An incremental save keeps the document, whether or not it succeeds. -/
theorem saveIncremental_keeps (env : SaveEnv) (d : EditableDocument) :
    Keeps d (d.saveIncremental env).2 := by
  cases d with
  | pdf d =>
    have hkeeps := d.saveIncremental_keeps env
    exact keeps_pdf (by rw [hkeeps]) (by rw [hkeeps]) (by rw [hkeeps])
  | vec d => exact ⟨rfl, rfl, rfl⟩

/-- A compaction that fails keeps the document. -/
theorem saveCompacted_error_keeps {env : SaveEnv} {d d' : EditableDocument} {e : Error}
    (h : d.saveCompacted env = (.error e, d')) : Keeps d d' := by
  cases d with
  | vec d =>
    cases (Prod.mk.inj h).2
    exact ⟨rfl, rfl, rfl⟩
  | pdf d =>
    unfold saveCompacted at h
    dsimp only at h
    rcases hsaved : d.saveCompacted env with ⟨e' | file, saved⟩
    · have hkeeps := PdfDocument.saveCompacted_error hsaved
      rw [hsaved] at h
      cases h
      exact keeps_pdf (by rw [hkeeps]) (by rw [hkeeps]) (by rw [hkeeps])
    · rw [hsaved] at h
      cases h

/-- No save moves the revision or the identity. -/
theorem save_identity (env : SaveEnv) (mode : SaveMode) (d : EditableDocument) :
    Document.id (d.save env mode).2 = Document.id d ∧
    Document.revision (d.save env mode).2 = Document.revision d := by
  cases d with
  | vec d => cases mode <;> exact ⟨rfl, rfl⟩
  | pdf d =>
    cases mode with
    | incremental =>
      have hid : (d.saveIncremental env).2.id = d.id := by rw [d.saveIncremental_keeps env]
      have hrevision : (d.saveIncremental env).2.revision = d.revision := by
        rw [d.saveIncremental_keeps env]
      exact ⟨hid, hrevision⟩
    | compacted => exact d.saveCompacted_identity env

end EditableDocument
end Lopdf
end OpdfEditor
