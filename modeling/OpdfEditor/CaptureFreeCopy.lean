import OpdfEditor.CompleteCopy

/-!
Whether the deep copy of a page captures anything. A reference whose object is not copied
keeps its number, and in the target that number may be another object's.
-/
namespace OpdfEditor

/-- What a copy leaves in a target that extends some earlier objects: no reference of a created
object leads to one that was there before, and one that was not copied leads nowhere. -/
structure CapturesNothing [Lopdf] (source : Objects) (page : ObjectId) (target : LopdfDocument)
    (earlier : Objects) : Prop where
  existing : ∀ copy ∈ (copyMapping source page target).1.map Prod.snd, ∀ object,
    (copyPageInto source page target).2.objects.lookup copy = some object →
      ∀ id ∈ object.links, id ∈ target.objects ∨ id ∈ earlier →
        id ∈ (copyMapping source page target).1.map Prod.snd
  uncopied : ∀ id ∈ (copyMapping source page target).1.map Prod.fst,
    ∀ referenced ∈ keptReferences source page id,
      referenced ∉ (copyMapping source page target).1.map Prod.fst →
        referenced ∉ (copyPageInto source page target).2.objects ∧ referenced ∉ earlier

/-- A number the target already uses, or that the copy is about to use. -/
def Taken (source : Objects) (page : ObjectId) (target : LopdfDocument) (earlier : Objects)
    (id : ObjectId) : Prop :=
  id ∈ target.objects ∨ id ∈ earlier ∨
    id.2 = 0 ∧ target.maxId < id.1 ∧ id.1 ≤ target.maxId + (copiedIds source page).card

/-- The numbers of what is referred to and not copied are free in the target. -/
def UncopiedFree (source : Objects) (page : ObjectId) (target : LopdfDocument)
    (earlier : Objects) : Prop :=
  ∀ id ∈ copiedIds source page, ∀ referenced ∈ keptReferences source page id,
    referenced ∉ copiedIds source page → ¬ Taken source page target earlier referenced

instance (source : Objects) (page : ObjectId) (target : LopdfDocument) (earlier : Objects)
    (id : ObjectId) : Decidable (Taken source page target earlier id) :=
  inferInstanceAs (Decidable (id ∈ target.objects ∨ id ∈ earlier ∨
    id.2 = 0 ∧ target.maxId < id.1 ∧ id.1 ≤ target.maxId + (copiedIds source page).card))

instance (source : Objects) (page : ObjectId) (target : LopdfDocument) (earlier : Objects) :
    Decidable (UncopiedFree source page target earlier) :=
  inferInstanceAs (Decidable (∀ id ∈ copiedIds source page,
    ∀ referenced ∈ keptReferences source page id,
      referenced ∉ copiedIds source page → ¬ Taken source page target earlier referenced))

section

variable {source : Objects} {page : ObjectId} {d : Dictionary}

/-- A copy adds its copies to the target, and nothing else. -/
theorem Copied.mem_objects {target after : LopdfDocument} {mapping : IdMapping} {copied : ObjectId}
    (h : Copied source page d target mapping copied after)
    (hpage : source.lookup page = some (.dictionary d)) (id : ObjectId) :
    id ∈ after.objects ↔ id ∈ target.objects ∨ id ∈ mapping.map Prod.snd := by
  by_cases hid : id ∈ mapping.map Prod.snd
  · obtain ⟨⟨sourceId, copy⟩, hentry, rfl⟩ := List.mem_map.1 hid
    obtain ⟨numbered, hassigned, -⟩ := h.assigned
    have hsource : sourceId ∈ source.keys := hassigned.present _ (List.mem_map.2 ⟨_, hentry, rfl⟩)
    have hcopied : ∃ object, copiedObject source page sourceId = some object := by
      by_cases heq : sourceId = page
      · subst heq
        exact ⟨_, copiedObject_page hpage⟩
      · rw [copiedObject_of_ne heq]
        exact Finmap.mem_iff.1 (Finmap.mem_keys.1 hsource)
    obtain ⟨object, hobject⟩ := hcopied
    have hlookup := h.copy hpage hentry
    rw [hobject] at hlookup
    simp [hid, Finmap.mem_of_lookup_eq_some hlookup]
  · rw [← Finmap.lookup_isSome, h.other id hid, Finmap.lookup_isSome]
    simp [hid]

theorem IdMapping.apply_mem {mapping : IdMapping} (hnodup : (mapping.map Prod.fst).Nodup)
    {id : ObjectId} (h : id ∈ mapping.map Prod.fst) : mapping.apply id ∈ mapping.map Prod.snd := by
  obtain ⟨copy, hcopy⟩ := IdMapping.exists_of_mem h
  rw [IdMapping.apply_of_entry hnodup hcopy]
  exact List.mem_map.2 ⟨_, hcopy, rfl⟩

variable [Lopdf] [LawfulDereference]

/-- The copy of a page captures nothing exactly when every reference it keeps without copying
what it names carries a number the target does not use. -/
theorem copy_captures_nothing (hpage : source.lookup page = some (.dictionary d))
    (target : LopdfDocument) (earlier : Objects) :
    CapturesNothing source page target earlier ↔ UncopiedFree source page target earlier := by
  obtain ⟨copiedId, after, hcopy, hcopied⟩ := copyPageInto_copied hpage target
  have hnodup := (copyMapping_assigned hpage target).nodup
  have hafter : (copyPageInto source page target).2 = after := congrArg Prod.snd hcopy
  have hmem := hcopied.mem_objects hpage
  constructor
  · intro hcaptures id hid referenced hkept hnot htaken
    rw [← mem_copyMapping hpage target] at hid hnot
    obtain ⟨hfree, hearlier⟩ := hcaptures.uncopied id hid referenced hkept hnot
    rw [hafter, hmem, mem_copyMapping_numbers hpage target] at hfree
    rcases htaken with htarget | hold | hnumber
    · exact hfree (.inl htarget)
    · exact hearlier hold
    · exact hfree (.inr hnumber)
  · intro hfree
    constructor
    · intro copy hcopied' object hobject id hlink hthere
      obtain ⟨⟨sourceId, copy'⟩, hentry, rfl⟩ := List.mem_map.1 hcopied'
      have hsource : sourceId ∈ (copyMapping source page target).1.map Prod.fst :=
        List.mem_map.2 ⟨_, hentry, rfl⟩
      rw [hafter, hcopied.copy hpage hentry] at hobject
      obtain ⟨original, horiginal, rfl⟩ := Option.map_eq_some_iff.1 hobject
      rw [Object.links_rename] at hlink
      obtain ⟨referenced, hreferenced, rfl⟩ := List.mem_map.1 hlink
      by_cases hin : referenced ∈ (copyMapping source page target).1.map Prod.fst
      · exact IdMapping.apply_mem hnodup hin
      -- what was not copied keeps its number, and that number is free
      · rw [IdMapping.apply_of_not_mem hin] at hthere
        have hkept : referenced ∈ keptReferences source page sourceId := by
          simpa [keptReferences, horiginal] using hreferenced
        rw [mem_copyMapping hpage target] at hsource hin
        exact absurd (hthere.imp_right .inl) (hfree sourceId hsource referenced hkept hin)
    · intro id hid referenced hkept hnot
      rw [mem_copyMapping hpage target] at hid hnot
      have hfree' := hfree id hid referenced hkept hnot
      rw [hafter, hmem, mem_copyMapping_numbers hpage target]
      simp only [Taken, not_or] at hfree'
      exact ⟨fun h => h.elim hfree'.1 hfree'.2.2, hfree'.2.1⟩

end

/-! ### A link to another page -/

namespace LinkFile

def page : Dictionary :=
  [("Type", .name "Page"), ("Parent", .reference (3, 0)), ("Annots", .array [.reference (5, 0)])]

def source : Objects :=
  [⟨(1, 0), .dictionary page⟩,
    ⟨(2, 0), .dictionary [("Type", .name "Page"), ("Parent", .reference (3, 0))]⟩,
    ⟨(3, 0), .dictionary [("Type", .name "Pages"),
      ("Kids", .array [.reference (1, 0), .reference (2, 0)])]⟩,
    ⟨(5, 0), .dictionary [("Subtype", .name "Link"),
      ("Dest", .array [.reference (2, 0), .name "Fit"])]⟩].toFinmap

/-- A target revision that starts out empty, after a file of so many objects. -/
def target (maxId : Nat) : LopdfDocument where
  version := "1.7"
  objects := ∅
  trailer := [("Root", .reference (1, 0))]
  maxId := maxId

def earlier : Objects :=
  [⟨(1, 0), .dictionary [("Type", .name "Catalog"), ("Pages", .reference (2, 0))]⟩,
    ⟨(2, 0), .dictionary [("Type", .name "Pages"), ("Kids", .array [])]⟩].toFinmap

end LinkFile

open scoped ReferenceLopdf

/-- The copied link leads to the page tree of the document it was copied into. -/
theorem link_captures_page_tree :
    (∃ d, (copyPageInto LinkFile.source (1, 0) (LinkFile.target 2)).2.objects.lookup (4, 0) =
      some (.dictionary d) ∧ (2, 0) ∈ (Object.dictionary d).links ∧ (2, 0) ∈ LinkFile.earlier) ∧
    ¬ CapturesNothing LinkFile.source (1, 0) (LinkFile.target 2) LinkFile.earlier := by
  have hlink : (copyPageInto LinkFile.source (1, 0) (LinkFile.target 2)).2.objects.lookup (4, 0) =
      some (.dictionary [("Subtype", .name "Link"),
        ("Dest", .array [.reference (2, 0), .name "Fit"])]) := rfl
  have hpresent : (2, 0) ∈ LinkFile.earlier := by decide +kernel
  refine ⟨⟨_, hlink, by decide, hpresent⟩, fun hcaptures => ?_⟩
  have hcopied := hcaptures.existing (4, 0) (by decide +kernel) _ hlink (2, 0) (by decide)
    (.inr hpresent)
  exact absurd hcopied (by decide +kernel)

/-- Where nothing carries the other page's number the link leads nowhere. -/
theorem link_captures_nothing :
    CapturesNothing LinkFile.source (1, 0) (LinkFile.target 2) ∅ :=
  (copy_captures_nothing (d := LinkFile.page) rfl _ ∅).2 (by decide +kernel)

end OpdfEditor
