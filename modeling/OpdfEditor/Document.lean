import OpdfEditor.RosterReplay

/-!
The document contract: the operations every document implementation provides,
and the law that ties each of them to a roster of pages.
-/
namespace OpdfEditor

/-- A paginated document that can be inspected and structurally modified. -/
class Document (D : Type) where
  id : D → DocumentId
  /-- A counter that advances whenever this document's structure changes. -/
  revision : D → UInt64
  pageCount : D → Nat
  pageIds : D → List PageId
  page : PageId → D → Except Error PageInfo
  indexOf : PageId → D → Except Error Nat
  removePage : PageId → D → Outcome D Unit
  restorePage : PageId → Nat → D → Outcome D Unit
  movePage : PageId → Nat → D → Outcome D Unit
  setRotation : PageId → Rotation → D → Outcome D Unit
  insertPage : Nat → PageSize → D → Outcome D PageId
  importPages : D → List PageId → Nat → D → Outcome D (List PageId)

def DocumentSnapshot.of [Document D] (document : D) : Except Error DocumentSnapshot := do
  let pages ← (Document.pageIds document).mapM (Document.page · document)
  return ⟨Document.id document, pages, Document.revision document⟩

def PageInfo.withId (page : PageInfo) (id : PageId) : PageInfo := { page with id }

def PageInfo.withRotation (rotation : Rotation) (page : PageInfo) : PageInfo :=
  { page with rotation }

def PageInfo.blank (size : PageSize) (id : PageId) : PageInfo := ⟨id, size, .none⟩

theorem PageInfo.pageId_withId (page : PageInfo) (id : PageId) : pageId (page.withId id) = id := rfl

theorem PageInfo.pageId_withRotation (rotation : Rotation) (page : PageInfo) :
    pageId (page.withRotation rotation) = pageId page := rfl

theorem PageInfo.pageId_blank (size : PageSize) (id : PageId) :
    pageId (PageInfo.blank size id) = id := rfl

/-- A mutation of `d` that answers as its specification on the roster does: on failure nothing
moved, on success the roster is the specified one and the revision advanced by one. -/
def Mutates [Document D] (roster : D → Roster PageInfo) (d : D) (outcome : Outcome D α) :
    Except Error (α × Roster PageInfo) → Prop
  | .error e => outcome = (.error e, d)
  | .ok (a, r) => outcome.1 = .ok a ∧ roster outcome.2 = r ∧
      Document.revision outcome.2 = Document.revision d + 1 ∧
      Document.id outcome.2 = Document.id d

/-- The operations of a document are those of the roster of its pages. Importing is
specified where it succeeds: only some implementations leave the document alone where it fails. -/
class LawfulDocument (D : Type) [Document D] where
  roster : D → Roster PageInfo
  pageCount_eq : ∀ d : D, Document.pageCount d = (roster d).live.length
  pageIds_eq : ∀ d : D, Document.pageIds d = (roster d).ids
  page_eq : ∀ (id : PageId) (d : D), Document.page id d = (roster d).findSlot id
  indexOf_eq : ∀ (id : PageId) (d : D), Document.indexOf id d = (roster d).findIndex id
  removePage_spec : ∀ (id : PageId) (d : D), Mutates roster d (Document.removePage id d)
    (((roster d).removeSlot id).map ((), ·))
  restorePage_spec : ∀ (id : PageId) (atIndex : Nat) (d : D),
    Mutates roster d (Document.restorePage id atIndex d)
      (((roster d).restoreSlot id atIndex).map ((), ·))
  movePage_spec : ∀ (id : PageId) (toIndex : Nat) (d : D),
    Mutates roster d (Document.movePage id toIndex d)
      (((roster d).relocateSlot id toIndex).1.map (·, ((roster d).relocateSlot id toIndex).2))
  setRotation_spec : ∀ (id : PageId) (rotation : Rotation) (d : D),
    Mutates roster d (Document.setRotation id rotation d)
      (((roster d).modifySlot id (PageInfo.withRotation rotation)
        (PageInfo.pageId_withRotation rotation)).map ((), ·))
  insertPage_spec : ∀ (atIndex : Nat) (size : PageSize) (d : D),
    Mutates roster d (Document.insertPage atIndex size d)
      ((roster d).insertSlot atIndex (PageInfo.blank size) (PageInfo.pageId_blank size))
  importPages_ok : ∀ (source : D) (ids : List PageId) (atIndex : Nat) (d d' : D)
    (newIds : List PageId), Document.importPages source ids atIndex d = (.ok newIds, d') →
      (∃ pages, ids.mapM (Document.page · source) = .ok pages ∧ atIndex ≤ (roster d).live.length ∧
        (roster d).insertEach PageInfo.withId PageInfo.pageId_withId pages atIndex =
          .ok (newIds, roster d')) ∧
      Document.revision d' = Document.revision d + 1 ∧ Document.id d' = Document.id d

export LawfulDocument (roster)

section Lawful

variable {D : Type} [Document D] [LawfulDocument D]

theorem length_pageIds (d : D) : (Document.pageIds d).length = (roster d).live.length := by
  rw [LawfulDocument.pageIds_eq, Roster.ids, List.length_map]

/-- Resolving the identities of live pages finds those pages. -/
theorem mapM_page (d : D) {slots : List PageInfo} (h : ∀ slot ∈ slots, slot ∈ (roster d).live) :
    (slots.map pageId).mapM (Document.page · d) = Except.ok slots := by
  induction slots with
  | nil => rfl
  | cons slot slots ih =>
    have hslot : Document.page (pageId slot) d = .ok slot := by
      rw [LawfulDocument.page_eq]
      exact Roster.findSlot_eq_ok.2 ⟨h slot (by simp), rfl⟩
    rw [List.map_cons, List.mapM_cons, hslot, ih fun s hs => h s (by simp [hs])]
    rfl

/-- A snapshot of a lawful document lists its pages in order. -/
theorem snapshot_of (d : D) : DocumentSnapshot.of d =
    .ok ⟨Document.id d, (roster d).live, Document.revision d⟩ := by
  unfold DocumentSnapshot.of
  rw [LawfulDocument.pageIds_eq, Roster.ids, mapM_page d fun _ h => h]
  rfl

/-- What an import leaves: the pages it was given, under consecutive fresh identities, in a row. -/
theorem importPages_live {source d d' : D} {ids newIds : List PageId} {atIndex : Nat}
    (h : Document.importPages source ids atIndex d = (.ok newIds, d')) :
    ∃ pages, ids.mapM (Document.page · source) = .ok pages ∧ atIndex ≤ (roster d).live.length ∧
      newIds = List.range' (roster d).next pages.length ∧
      (roster d').live = (roster d).live.take atIndex ++
        List.zipWith PageInfo.withId pages (List.range' (roster d).next pages.length) ++
          (roster d).live.drop atIndex ∧
      (roster d').removed = (roster d).removed := by
  obtain ⟨⟨pages, hpages, hat, hinsert⟩, -, -⟩ := LawfulDocument.importPages_ok _ _ _ _ _ _ h
  have hlen : ((roster d).live.take atIndex).length = atIndex := by simp [hat]
  obtain ⟨r, hr, hlive, hremoved, -⟩ := Roster.insertEach_eq_ok PageInfo.withId
    PageInfo.pageId_withId pages (roster d) _ _ (List.take_append_drop atIndex _).symm
  rw [hlen, hinsert] at hr
  simp only [Except.ok.injEq, Prod.mk.injEq] at hr
  obtain ⟨rfl, hr⟩ := hr
  subst hr
  exact ⟨pages, hpages, hat, rfl, hlive, hremoved⟩

/-- `e` shows the pages `d` shows, is the same document, and lost nothing `d` could restore. -/
structure Below (d e : D) : Prop where
  id : Document.id d = Document.id e
  roster : (roster d).Below (OpdfEditor.roster e)

theorem Below.refl (d : D) : Below d d := ⟨rfl, .refl _⟩

theorem Below.trans {d e f : D} (h : Below d e) (h' : Below e f) : Below d f :=
  ⟨h.id.trans h'.id, h.roster.trans h'.roster⟩

end Lawful
end OpdfEditor
