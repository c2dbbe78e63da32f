import OpdfEditor.CopyReach

/-!
Whether the deep copy of a page is complete. The walk passes over every `/Parent` entry,
not only the page's own, so an object that only such an entry leads to is left behind.
-/
namespace OpdfEditor

/-- Everything an object refers to as it is copied. -/
def keptReferences (source : Objects) (page id : ObjectId) : List ObjectId :=
  ((copiedObject source page id).map Object.links).getD []

/-- What an object refers to under `/Parent` as it is copied; the page's own `/Parent` is gone. -/
def skippedReferences (source : Objects) (page id : ObjectId) : List ObjectId :=
  ((copiedObject source page id).map parentReferences).getD []

/-- Following every reference from the page and from what it inherits, its own `/Parent` and
other page tree nodes aside, leads to this object. -/
def PageReaches (source : Objects) (page : ObjectId) : ObjectId → Prop :=
  Relation.ReflTransGen
    (fun x y => y ∈ keptReferences source page x ∧ copies source y = true) page

/-- Everything the page reaches has a copy, each copy is its object with its references renamed,
and they name the copies. -/
structure CopiesCompletely [Lopdf] (source : Objects) (page : ObjectId) (target : LopdfDocument) : Prop where
  result : (copyPageInto source page target).1 = (copyMapping source page target).1.lookup page
  reached : ∀ id, PageReaches source page id →
    ∃ copy, (copyMapping source page target).1.lookup id = some copy
  copied : ∀ id copy, (copyMapping source page target).1.lookup id = some copy →
    ∃ object, copiedObject source page id = some object ∧
      (copyPageInto source page target).2.objects.lookup copy =
        some (object.rename (copyMapping source page target).1.apply)
  named : ∀ id copy, (copyMapping source page target).1.lookup id = some copy →
    ∀ referenced ∈ keptReferences source page id, copies source referenced = true →
      ∃ copy', (copyMapping source page target).1.lookup referenced = some copy'

/-- Whatever copied objects refer to under `/Parent` is come to some other way. -/
def ParentsCopied (source : Objects) (page : ObjectId) : Prop :=
  ∀ id ∈ copiedIds source page, ∀ referenced ∈ skippedReferences source page id,
    copies source referenced = true → referenced ∈ copiedIds source page

instance (source : Objects) (page : ObjectId) : Decidable (ParentsCopied source page) :=
  inferInstanceAs (Decidable (∀ id ∈ copiedIds source page,
    ∀ referenced ∈ skippedReferences source page id,
      copies source referenced = true → referenced ∈ copiedIds source page))

section

variable {source : Objects} {page : ObjectId} {d : Dictionary}

theorem copiedObject_of_mem (hpage : source.lookup page = some (.dictionary d)) {id : ObjectId}
    (hid : id ∈ copiedIds source page) : ∃ object, copiedObject source page id = some object := by
  by_cases h : id = page
  · subst h
    exact ⟨_, copiedObject_page hpage⟩
  · rw [copiedObject_of_ne h]
    exact Finmap.mem_iff.1 (copiedIds_present (Finmap.mem_of_lookup_eq_some hpage) hid)

/-- Only a reference under `/Parent` leads out of what is copied. -/
theorem kept_copied (hpage : source.lookup page = some (.dictionary d))
    (hparents : ParentsCopied source page) {id referenced : ObjectId}
    (hid : id ∈ copiedIds source page) (hkept : referenced ∈ keptReferences source page id)
    (hcopies : copies source referenced = true) : referenced ∈ copiedIds source page := by
  obtain ⟨object, hobject⟩ := copiedObject_of_mem hpage hid
  have hlink : referenced ∈ object.links := by simpa [keptReferences, hobject] using hkept
  cases (mem_links_iff object).1 hlink with
  | inl hcollected => exact collected_copied hpage hid hobject hcollected hcopies
  | inr hskipped =>
    refine hparents id hid referenced ?_ hcopies
    simpa [skippedReferences, hobject] using hskipped

theorem skipped_kept {id referenced : ObjectId}
    (h : referenced ∈ skippedReferences source page id) :
    referenced ∈ keptReferences source page id := by
  unfold skippedReferences at h
  unfold keptReferences
  cases hobject : copiedObject source page id with
  | none => simp [hobject] at h
  | some object =>
    rw [hobject] at h
    exact (mem_links_iff object).2 (.inr h)

theorem pageReaches_copied (hpage : source.lookup page = some (.dictionary d))
    (hparents : ParentsCopied source page) {id : ObjectId} (h : PageReaches source page id) :
    id ∈ copiedIds source page := by
  induction h with
  | refl => exact page_copied
  | tail _ hstep ih => exact kept_copied hpage hparents ih hstep.1 hstep.2

theorem lookup_copyMapping (hpage : source.lookup page = some (.dictionary d))
    (target : LopdfDocument) {id : ObjectId} :
    (∃ copy, (copyMapping source page target).1.lookup id = some copy) ↔
      id ∈ copiedIds source page := by
  rw [← mem_copyMapping hpage target]
  have hnodup := (copyMapping_assigned hpage target).nodup
  constructor
  · rintro ⟨copy, hcopy⟩
    exact List.mem_map.2 ⟨_, (IdMapping.lookup_eq_some hnodup).1 hcopy, rfl⟩
  · intro hid
    obtain ⟨copy, hcopy⟩ := IdMapping.exists_of_mem hid
    exact ⟨copy, (IdMapping.lookup_eq_some hnodup).2 hcopy⟩

variable [Lopdf] [LawfulDereference]

/-- The copy of a page is complete exactly when whatever copied objects refer to under a
`/Parent` entry, the page's own aside, is also come to along other references. -/
theorem copy_is_complete (hpage : source.lookup page = some (.dictionary d))
    (target : LopdfDocument) :
    CopiesCompletely source page target ↔ ParentsCopied source page := by
  obtain ⟨copiedId, after, hcopy, hcopied⟩ := copyPageInto_copied hpage target
  have hnodup := (copyMapping_assigned hpage target).nodup
  constructor
  · intro hcomplete id hid referenced hskipped hcopies
    obtain ⟨copy, hlookup⟩ := (lookup_copyMapping hpage target).2 hid
    exact (lookup_copyMapping hpage target).1
      (hcomplete.named id copy hlookup referenced (skipped_kept hskipped) hcopies)
  · intro hparents
    refine ⟨?_, ?_, ?_, ?_⟩
    · rw [hcopy]
      exact ((IdMapping.lookup_eq_some hnodup).2 hcopied.entry).symm
    · intro id hreaches
      exact (lookup_copyMapping hpage target).2 (pageReaches_copied hpage hparents hreaches)
    · intro id copy hlookup
      have hid := (lookup_copyMapping hpage target).1 ⟨copy, hlookup⟩
      obtain ⟨object, hobject⟩ := copiedObject_of_mem hpage hid
      refine ⟨object, hobject, ?_⟩
      rw [hcopy, hcopied.copy hpage ((IdMapping.lookup_eq_some hnodup).1 hlookup), hobject]
      rfl
    · intro id copy hlookup referenced hkept hcopies
      have hid := (lookup_copyMapping hpage target).1 ⟨copy, hlookup⟩
      exact (lookup_copyMapping hpage target).2 (kept_copied hpage hparents hid hkept hcopies)

end

/-! ### A form field -/

namespace FormFile

open scoped ReferenceLopdf

/-- A page that lists these annotations, among them a widget whose `/Parent` is the form field
it shows. -/
def page (annotations : List Object) : Dictionary :=
  [("Type", .name "Page"), ("Parent", .reference (5, 0)), ("Contents", .reference (2, 0)),
    ("Annots", .array annotations)]

def source (annotations : List Object) : Objects :=
  [⟨(1, 0), .dictionary (page annotations)⟩,
    ⟨(2, 0), .stream [] []⟩,
    ⟨(3, 0), .dictionary [("Subtype", .name "Widget"), ("Parent", .reference (4, 0))]⟩,
    ⟨(4, 0), .dictionary [("FT", .name "Tx"), ("T", .string "name" .literal),
      ("Kids", .array [.reference (3, 0)])]⟩,
    ⟨(5, 0), .dictionary [("Type", .name "Pages"), ("Kids", .array [.reference (1, 0)]),
      ("Resources", .dictionary [])]⟩].toFinmap

def target : LopdfDocument where
  version := "1.7"
  objects := [⟨(1, 0), .dictionary [("Type", .name "Catalog"), ("Pages", .reference (2, 0))]⟩,
    ⟨(2, 0), .dictionary [("Type", .name "Pages"), ("Kids", .array [])]⟩].toFinmap
  trailer := [("Root", .reference (1, 0))]
  maxId := 2

end FormFile

open scoped ReferenceLopdf

/-- The page reaches the field its widget shows, and the field is left behind. -/
theorem field_is_left_behind :
    PageReaches (FormFile.source [.reference (3, 0)]) (1, 0) (4, 0) ∧
      ¬ CopiesCompletely (FormFile.source [.reference (3, 0)]) (1, 0) FormFile.target := by
  have hwidget : (3, 0) ∈ keptReferences (FormFile.source [.reference (3, 0)]) (1, 0) (1, 0) ∧
      copies (FormFile.source [.reference (3, 0)]) (3, 0) = true := by decide +kernel
  have hfield : (4, 0) ∈ keptReferences (FormFile.source [.reference (3, 0)]) (1, 0) (3, 0) ∧
      copies (FormFile.source [.reference (3, 0)]) (4, 0) = true := by decide +kernel
  have hreaches : PageReaches (FormFile.source [.reference (3, 0)]) (1, 0) (4, 0) :=
    .tail (.single hwidget) hfield
  have hmissing : (copyMapping (FormFile.source [.reference (3, 0)]) (1, 0)
      FormFile.target).1.lookup (4, 0) = none := by decide +kernel
  refine ⟨hreaches, fun hcomplete => ?_⟩
  obtain ⟨copy, hcopy⟩ := hcomplete.reached (4, 0) hreaches
  rw [hmissing] at hcopy
  cases hcopy

/-- With the field listed among the annotations the copy is complete. -/
theorem listed_field_is_copied :
    CopiesCompletely (FormFile.source [.reference (3, 0), .reference (4, 0)]) (1, 0)
      FormFile.target :=
  (copy_is_complete (d := FormFile.page [.reference (3, 0), .reference (4, 0)]) rfl _).2
    (by decide +kernel)

end OpdfEditor
