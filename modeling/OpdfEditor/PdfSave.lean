import OpdfEditor.PdfDocument

/-!
Writing the in-memory page state back into objects, as an update appended to the
original bytes or as a freshly serialized file. A save may fail at every step
that touches the outside, and the document keeps what the steps before it did.
-/
namespace OpdfEditor

/-- What the outside makes of one save. A file is given as what it parses as. -/
structure SaveEnv where
  serialize : LopdfDocument → Except Error Unit
  write : LopdfDocument → Except Error Unit
  /-- Reading the bytes just written back in. -/
  parse : LopdfDocument → Except Error LopdfDocument
  /-- Writing a file that is only text. -/
  writeText : String → Except Error Unit

/-- Nothing fails, and writing then parsing is the identity. -/
def SaveEnv.reliable : SaveEnv := ⟨fun _ => .ok (), fun _ => .ok (), .ok, fun _ => .ok ()⟩

/-- An entry to write into one dictionary of the appended revision. -/
structure Edit where
  target : ObjectId
  key : String
  value : Object

namespace IncrementalDocument

variable [Lopdf]

/-- Clone the object into the appended revision unless it is there, then edit it. -/
def applyEdit (edit : Edit) (d : IncrementalDocument) : Outcome IncrementalDocument Unit :=
  match d.optCloneObjectToNewDocument edit.target with
  | .error e => (.error e, d)
  | .ok d' =>
    match Objects.modifyDictionary d'.newDocument.objects edit.target
        (Dictionary.set edit.key edit.value) with
    | .error e => (.error e, d')
    | .ok objects => (.ok (), { d' with newDocument := { d'.newDocument with objects } })

def applyEdits : List Edit → IncrementalDocument → Outcome IncrementalDocument Unit
  | [], d => (.ok (), d)
  | edit :: edits, d =>
    match d.applyEdit edit with
    | (.error e, d') => (.error e, d')
    | (.ok (), d') => applyEdits edits d'

end IncrementalDocument

namespace PdfDocument

variable [Lopdf]

/-! ### Materialisation -/

def carriesOwn (previous : LopdfDocument) (objectId : ObjectId) (key : String) : Bool :=
  match Objects.getDictionary previous.objects objectId with
  | .ok page => Dictionary.has page key
  | .error _ => false

/-- The attributes one page of the previous revision inherits. Pages this session created or
brought in are not in it. -/
def inheritedAttributes (previous : LopdfDocument) (objectId : ObjectId) :
    List (String × Object) :=
  if objectId ∈ previous.objects then
    inheritableKeys.filterMap fun key =>
      if carriesOwn previous objectId key then none
      else (findInheritedAttribute previous.objects objectId key).map (key, ·)
  else []

/-- Copy every attribute a page inherits onto the page itself. -/
def inheritedEdits (d : PdfDocument) : List Edit :=
  d.pages.live.flatMap fun slot =>
    (inheritedAttributes d.incremental.previous slot.objectId).map fun entry =>
      ⟨slot.objectId, entry.1, entry.2⟩

/-- The root node's new children: every page, in order. -/
def flatKids (d : PdfDocument) : List Object := d.pages.live.map fun slot => .reference slot.objectId

def pageTreeEdits (d : PdfDocument) : List Edit :=
  (d.pages.live.map fun slot => ⟨slot.objectId, "Parent", .reference d.rootPagesId⟩) ++
    [⟨d.rootPagesId, "Kids", .array d.flatKids⟩,
      ⟨d.rootPagesId, "Count", .integer d.pages.live.length⟩]

def rotationEdits (d : PdfDocument) : List Edit :=
  (d.pages.live.filter (·.rotationChanged)).map fun slot =>
    ⟨slot.objectId, "Rotate", .integer slot.rotation.degrees⟩

/-- Structural changes come first: flattening writes an inherited `/Rotate` down, which an
explicit rotation must then overwrite. -/
def pendingEdits (d : PdfDocument) : List Edit :=
  (if d.dirty.structural then d.inheritedEdits ++ d.pageTreeEdits else []) ++
    (if d.dirty.rotations then d.rotationEdits else [])

def materializeChanges (d : PdfDocument) : Outcome PdfDocument Unit :=
  match d.incremental.applyEdits d.pendingEdits with
  | (result, incremental) => (result, { d with incremental })

/-! ### Compaction -/

/-- Previous revision and appended objects as one document, before anything is dropped. -/
def mergedDocument (d : PdfDocument) : LopdfDocument where
  version := d.incremental.previous.version
  objects := d.view
  trailer := Dictionary.remove "Prev" d.incremental.previous.trailer
  maxId := d.incremental.newDocument.maxId

/-- Objects nothing reaches are dropped and the survivors renumbered. -/
def buildCompactedDocument (d : PdfDocument) : LopdfDocument :=
  Lopdf.renumberObjects (Lopdf.pruneObjects d.mergedDocument)

def rebindSlot (slot : PageSlot) (objectId : ObjectId) : PageSlot :=
  { slot with objectId, rotationChanged := false }

def rebindObjects (pages : PageMap) (objectIds : List ObjectId) : Except Error PageMap :=
  if h : objectIds.length = pages.live.length then
    .ok (pages.zipLive rebindSlot (fun _ _ => rfl) objectIds h)
  else
    .error (.malformed
      s!"the written file holds {objectIds.length} pages, the document {pages.live.length}")

/-- Continue from a file that already holds the whole state. Nothing changes unless every check
passes. -/
def rebaseOnto (file : Except Error LopdfDocument) (d : PdfDocument) : Outcome PdfDocument Unit :=
  match file with
  | .error e => (.error e, d)
  | .ok file =>
    match readRootPagesId file with
    | .error e => (.error e, d)
    | .ok rootPagesId =>
      match rebindObjects d.pages (Lopdf.pageIter file) with
      | .error e => (.error e, d)
      | .ok pages =>
        (.ok (),
          { d with
            incremental := announceVersion (IncrementalDocument.load file)
            rootPagesId
            pages
            dirty := .clean })

/-! ### Saving -/

def noPages : Error := .unsupported "cannot save a document with no pages"

/-- Append an update to the original bytes, or reproduce them if nothing changed. Answers the
file written. -/
def saveIncremental (env : SaveEnv) (d : PdfDocument) : Outcome PdfDocument LopdfDocument :=
  if d.pages.live.length = 0 then (.error noPages, d)
  else if d.dirty.isClean then
    match env.write d.incremental.previous with
    | .error e => (.error e, d)
    | .ok () => (.ok d.incremental.previous, d)
  else
    match d.materializeChanges with
    | (.error e, d') => (.error e, d')
    | (.ok (), d') =>
      -- what serialising does to numbering and trailer is put back afterwards, failed or not
      match env.write d'.incremental.written with
      | .error e => (.error e, d')
      | .ok () => (.ok d'.incremental.written, d')

/-- Write a fresh file without unreferenced objects and continue from it. The trash is purged
only once the file is written and read back. -/
def saveCompacted (env : SaveEnv) (d : PdfDocument) : Outcome PdfDocument LopdfDocument :=
  if d.pages.live.length = 0 then (.error noPages, d)
  else
    match d.materializeChanges with
    | (.error e, d') => (.error e, d')
    | (.ok (), d') =>
      let compacted := d'.buildCompactedDocument
      match env.serialize compacted with
      | .error e => (.error e, d')
      | .ok () =>
        match env.write compacted with
        | .error e => (.error e, d')
        | .ok () =>
          match d'.rebaseOnto (env.parse compacted) with
          | (.error e, d'') => (.error e, d'')
          | (.ok (), d'') => (.ok compacted, { d'' with pages := d''.pages.purgeTrash })

/-! ### What a save does to the page map -/

theorem materializeChanges_keeps (d : PdfDocument) :
    (d.materializeChanges).2 = { d with incremental := (d.materializeChanges).2.incremental } := by
  unfold materializeChanges
  rcases d.incremental.applyEdits d.pendingEdits with ⟨result, incremental⟩
  rfl

/-- An incremental save changes at most what writing the pending changes does. -/
theorem saveIncremental_cases (env : SaveEnv) (d : PdfDocument) :
    (d.saveIncremental env).2 = d ∨ (d.saveIncremental env).2 = (d.materializeChanges).2 := by
  unfold saveIncremental
  split
  · exact .inl rfl
  split
  · split
    · exact .inl rfl
    · exact .inl rfl
  · split
    · rename_i h
      exact .inr (by rw [h])
    · rename_i h
      split
      · exact .inr (by rw [h])
      · exact .inr (by rw [h])

/-- An incremental save leaves the page map alone, whether or not it succeeds. -/
theorem saveIncremental_keeps (env : SaveEnv) (d : PdfDocument) :
    (d.saveIncremental env).2 = { d with incremental := (d.saveIncremental env).2.incremental } := by
  rcases saveIncremental_cases env d with h | h
  · rw [h]
  · rw [h]
    exact d.materializeChanges_keeps

/-- A compaction either fails, having at most written the pending changes, or rebases. -/
theorem saveCompacted_cases (env : SaveEnv) (d : PdfDocument) :
    (d.saveCompacted env).2 = d ∨ (d.saveCompacted env).2 = (d.materializeChanges).2 ∨
    ∃ written, (d.saveCompacted env).1 = .ok written := by
  rcases h : d.saveCompacted env with ⟨e | written, d'⟩
  · unfold saveCompacted at h
    split at h
    · cases h
      exact .inl rfl
    split at h
    · rename_i hm
      cases h
      exact .inr (.inl (by rw [hm]))
    rename_i d₁ hm
    dsimp only at h
    split at h
    · cases h
      exact .inr (.inl (by rw [hm]))
    split at h
    · cases h
      exact .inr (.inl (by rw [hm]))
    split at h
    · rename_i hrebase
      cases h
      unfold rebaseOnto at hrebase
      refine .inr (.inl ?_)
      split at hrebase
      · cases hrebase
        rw [hm]
      split at hrebase
      · cases hrebase
        rw [hm]
      split at hrebase
      · cases hrebase
        rw [hm]
      · cases hrebase
    · cases h
  · exact .inr (.inr ⟨written, rfl⟩)

/-- A compaction that fails leaves pages and trash as they were. -/
theorem saveCompacted_error {env : SaveEnv} {d d' : PdfDocument} {e : Error}
    (h : d.saveCompacted env = (.error e, d')) :
    d' = { d with incremental := d'.incremental } := by
  have hcases := saveCompacted_cases env d
  rw [h] at hcases
  rcases hcases with rfl | rfl | ⟨written, ⟨⟩⟩
  · rfl
  · exact d.materializeChanges_keeps

theorem rebaseOnto_identity (file : Except Error LopdfDocument) (d : PdfDocument) :
    (d.rebaseOnto file).2.id = d.id ∧ (d.rebaseOnto file).2.revision = d.revision := by
  unfold rebaseOnto
  split
  · exact ⟨rfl, rfl⟩
  split
  · exact ⟨rfl, rfl⟩
  split <;> exact ⟨rfl, rfl⟩

/-- A compaction leaves identity and revision alone, whether or not it succeeds. -/
theorem saveCompacted_identity (env : SaveEnv) (d : PdfDocument) :
    (d.saveCompacted env).2.id = d.id ∧ (d.saveCompacted env).2.revision = d.revision := by
  have hid : (d.materializeChanges).2.id = d.id := by rw [d.materializeChanges_keeps]
  have hrevision : (d.materializeChanges).2.revision = d.revision := by
    rw [d.materializeChanges_keeps]
  unfold saveCompacted
  split
  · exact ⟨rfl, rfl⟩
  split
  · rename_i hm
    rw [hm] at hid hrevision
    exact ⟨hid, hrevision⟩
  rename_i d₁ hm
  rw [hm] at hid hrevision
  dsimp only
  split
  · exact ⟨hid, hrevision⟩
  split
  · exact ⟨hid, hrevision⟩
  obtain ⟨hrebased, hrebasedRevision⟩ := rebaseOnto_identity (env.parse d₁.buildCompactedDocument) d₁
  split
  · rename_i h
    rw [h] at hrebased hrebasedRevision
    exact ⟨hrebased.trans hid, hrebasedRevision.trans hrevision⟩
  · rename_i h
    rw [h] at hrebased hrebasedRevision
    exact ⟨hrebased.trans hid, hrebasedRevision.trans hrevision⟩

end PdfDocument
end OpdfEditor
