import OpdfEditor.Document

/-!
The in-memory document: page metadata in a vector and no content at all. Every
operation is one on its roster, so it satisfies the document laws, and unlike a
document over a real file it leaves nothing behind when an import fails.
-/
namespace OpdfEditor

structure VecDocument where
  id : DocumentId
  /-- `pages`, `removed` and `allocator`. -/
  roster : Roster PageInfo
  revision : UInt64

namespace VecDocument

def new (id : DocumentId) : VecDocument := ⟨id, .empty, 0⟩

def withPages (id : DocumentId) (count : Nat) (size : PageSize) : VecDocument :=
  { new id with
    roster := (List.replicate count size).foldl
      (fun roster size => roster.appendSlot (PageInfo.blank size) (PageInfo.pageId_blank size)) .empty }

/-- Keep the edited page list and advance the revision, as every mutation that succeeds does. -/
def commit (d : VecDocument) (roster : Roster PageInfo) : VecDocument :=
  { d with roster, revision := d.revision + 1 }

def page (id : PageId) (d : VecDocument) : Except Error PageInfo := d.roster.findSlot id

def removePage (id : PageId) (d : VecDocument) : Outcome VecDocument Unit :=
  match d.roster.removeSlot id with
  | .error e => (.error e, d)
  | .ok roster => (.ok (), d.commit roster)

def restorePage (id : PageId) (atIndex : Nat) (d : VecDocument) : Outcome VecDocument Unit :=
  match d.roster.restoreSlot id atIndex with
  | .error e => (.error e, d)
  | .ok roster => (.ok (), d.commit roster)

def movePage (id : PageId) (toIndex : Nat) (d : VecDocument) : Outcome VecDocument Unit :=
  match d.roster.relocateSlot id toIndex with
  | (.error e, roster) => (.error e, { d with roster })
  | (.ok (), roster) => (.ok (), d.commit roster)

def setRotation (id : PageId) (rotation : Rotation) (d : VecDocument) : Outcome VecDocument Unit :=
  match d.roster.modifySlot id (PageInfo.withRotation rotation)
    (PageInfo.pageId_withRotation rotation) with
  | .error e => (.error e, d)
  | .ok roster => (.ok (), d.commit roster)

def insertPage (atIndex : Nat) (size : PageSize) (d : VecDocument) : Outcome VecDocument PageId :=
  match d.roster.insertSlot atIndex (PageInfo.blank size) (PageInfo.pageId_blank size) with
  | .error e => (.error e, d)
  | .ok (id, roster) => (.ok id, d.commit roster)

/-- Every source page is resolved before the target is touched. -/
def importPages (source : VecDocument) (ids : List PageId) (atIndex : Nat) (d : VecDocument) :
    Outcome VecDocument (List PageId) :=
  match d.roster.checkInsertionIndex atIndex with
  | .error e => (.error e, d)
  | .ok () =>
    match ids.mapM (page · source) with
    | .error e => (.error e, d)
    | .ok imported =>
      match d.roster.insertEach PageInfo.withId PageInfo.pageId_withId imported atIndex with
      -- not reached: the position was checked above
      | .error e => (.error e, d)
      | .ok (newIds, roster) => (.ok newIds, d.commit roster)

instance : Document VecDocument where
  id := VecDocument.id
  revision := VecDocument.revision
  pageCount d := d.roster.live.length
  pageIds d := d.roster.ids
  page := page
  indexOf id d := d.roster.findIndex id
  removePage := removePage
  restorePage := restorePage
  movePage := movePage
  setRotation := setRotation
  insertPage := insertPage
  importPages := importPages

@[simp] theorem commit_roster (d : VecDocument) (r : Roster PageInfo) : (d.commit r).roster = r := rfl
@[simp] theorem commit_revision (d : VecDocument) (r : Roster PageInfo) :
    (d.commit r).revision = d.revision + 1 := rfl
@[simp] theorem commit_id (d : VecDocument) (r : Roster PageInfo) : (d.commit r).id = d.id := rfl

/-- A failed import leaves the document alone. -/
theorem importPages_error {source d d' : VecDocument} {ids : List PageId} {atIndex : Nat} {e : Error}
    (h : importPages source ids atIndex d = (.error e, d')) : d' = d := by
  unfold importPages at h
  split at h
  · exact (congrArg Prod.snd h).symm
  split at h
  · exact (congrArg Prod.snd h).symm
  split at h
  · exact (congrArg Prod.snd h).symm
  · cases h

theorem importPages_eq_ok {source d d' : VecDocument} {ids newIds : List PageId} {atIndex : Nat}
    (h : importPages source ids atIndex d = (.ok newIds, d')) :
    ∃ pages r, ids.mapM (page · source) = .ok pages ∧ atIndex ≤ d.roster.live.length ∧
      d.roster.insertEach PageInfo.withId (fun _ _ => rfl) pages atIndex = .ok (newIds, r) ∧
      d' = d.commit r := by
  unfold importPages at h
  split at h
  · cases h
  rename_i hcheck
  split at h
  · cases h
  rename_i pages hpages
  split at h
  · cases h
  rename_i ids' r hinsert
  cases h
  refine ⟨pages, r, hpages, ?_, hinsert, rfl⟩
  unfold Roster.checkInsertionIndex at hcheck
  split at hcheck
  · cases hcheck
  · omega

instance : LawfulDocument VecDocument where
  roster := VecDocument.roster
  pageCount_eq _ := rfl
  pageIds_eq _ := rfl
  page_eq _ _ := rfl
  indexOf_eq _ _ := rfl
  removePage_spec id d := by
    cases h : d.roster.removeSlot id <;>
      simp [Mutates, Document.removePage, Document.revision, Document.id, removePage, h, Except.map]
  restorePage_spec id atIndex d := by
    cases h : d.roster.restoreSlot id atIndex <;>
      simp [Mutates, Document.restorePage, Document.revision, Document.id, restorePage, h, Except.map]
  movePage_spec id toIndex d := by
    rcases h : d.roster.relocateSlot id toIndex with ⟨e | ⟨⟩, r⟩
    · have hsame := Roster.relocateSlot_eq_error h
      subst hsame
      simp [Mutates, Document.movePage, movePage, h, Except.map]
    · simp [Mutates, Document.movePage, Document.revision, Document.id, movePage, h, Except.map]
  setRotation_spec id rotation d := by
    cases h : d.roster.modifySlot id (PageInfo.withRotation rotation) fun _ => rfl <;>
      simp [Mutates, Document.setRotation, Document.revision, Document.id, setRotation, h, Except.map]
  insertPage_spec atIndex size d := by
    rcases h : d.roster.insertSlot atIndex (PageInfo.blank size) fun _ => rfl with e | ⟨id, r⟩ <;>
      simp [Mutates, Document.insertPage, Document.revision, Document.id, insertPage, h]
  importPages_ok source ids atIndex d d' newIds h := by
    obtain ⟨pages, r, hpages, hat, hinsert, rfl⟩ := importPages_eq_ok h
    exact ⟨⟨pages, hpages, hat, hinsert⟩, rfl, rfl⟩

example : (withPages 1 3 .letter).roster.ids = [0, 1, 2] := rfl

end VecDocument
end OpdfEditor
