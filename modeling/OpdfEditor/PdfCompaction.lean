import OpdfEditor.PdfSession
import OpdfEditor.Split

/-!
What a compaction leaves out: an object stays exactly when something still leads
to it from the trailer, through any entry of any object the save does not
rewrite. Removing a page from the page tree is not enough to be rid of it.
-/
namespace OpdfEditor

namespace PdfDocument

variable [Lopdf]

/-- A reference that leads on once the pending changes are written: the page tree root leads to
every page and every page to the root, whatever `/Kids` and `/Parent` said before; a page leads to
what it inherits; every other entry leads where it did. -/
inductive LeadsOn (d : PdfDocument) : ObjectId → ObjectId → Prop
  | untouched {source target : ObjectId} : (∀ key value, ¬ d.Pending ⟨source, key, value⟩) →
      Links d.view source target → LeadsOn d source target
  | kept {source target : ObjectId} {key : String} {value : Object} {dict : Dictionary}
    {entry : String × Object} : d.Pending ⟨source, key, value⟩ →
      d.incremental.editable source = some dict → entry ∈ dict →
      (∀ value, ¬ d.Pending ⟨source, entry.1, value⟩) → target ∈ entry.2.links →
        LeadsOn d source target
  | kid {slot : PageSlot} : d.dirty.structural = true → slot ∈ d.pages.live →
      LeadsOn d d.rootPagesId slot.objectId
  | parent {slot : PageSlot} : d.dirty.structural = true → slot ∈ d.pages.live →
      LeadsOn d slot.objectId d.rootPagesId
  | inherited {slot : PageSlot} {key : String} {value : Object} {target : ObjectId} :
    d.dirty.structural = true → slot ∈ d.pages.live →
      (key, value) ∈ inheritedAttributes d.incremental.previous slot.objectId →
      ¬ (key = "Rotate" ∧ d.Rotates slot.objectId) → target ∈ value.links →
        LeadsOn d slot.objectId target

/-- Something leads to an object from the trailer. -/
def LeadsTo (d : PdfDocument) (id : ObjectId) : Prop :=
  ∃ start ∈ Object.entryLinks (Dictionary.remove "Prev" d.incremental.previous.trailer),
    Relation.ReflTransGen d.LeadsOn start id

/-- What the entries a save writes lead to. -/
theorem leadsOn_lastWritten {d : PdfDocument} {source target : ObjectId} {key : String}
    {value : Object} (h : d.lastWritten source key = some value) (htarget : target ∈ value.links) :
    d.LeadsOn source target := by
  have hpending := pending_of_lastWritten h
  generalize hedit : (⟨source, key, value⟩ : Edit) = edit at hpending
  cases hpending with
  | inherited hstructural hslot hinherited =>
    obtain ⟨rfl, rfl, rfl⟩ := Edit.mk.injEq .. ▸ hedit
    refine .inherited hstructural hslot hinherited ?_ htarget
    rintro ⟨rfl, hrotations, other, hother, hchanged, hid⟩
    obtain ⟨last, -, -, -, hlast⟩ := lastWritten_rotation hrotations hother hchanged
    rw [hid, h] at hlast
    cases hlast
    cases htarget
  | parent hstructural hslot =>
    obtain ⟨rfl, rfl, rfl⟩ := Edit.mk.injEq .. ▸ hedit
    rw [List.mem_singleton.1 htarget]
    exact .parent hstructural hslot
  | kids hstructural =>
    obtain ⟨rfl, rfl, rfl⟩ := Edit.mk.injEq .. ▸ hedit
    obtain ⟨item, hitem, hlink⟩ := Object.mem_itemLinks.1 htarget
    obtain ⟨slot, hslot, rfl⟩ := List.mem_map.1 hitem
    rw [List.mem_singleton.1 hlink]
    exact .kid hstructural hslot
  | count _ =>
    obtain ⟨rfl, rfl, rfl⟩ := Edit.mk.injEq .. ▸ hedit
    cases htarget
  | rotation _ _ _ =>
    obtain ⟨rfl, rfl, rfl⟩ := Edit.mk.injEq .. ▸ hedit
    cases htarget

/-- Once the pending changes are written, objects refer to what was told beforehand. -/
theorem links_materialized [LawfulDereference] {d d₁ : PdfDocument} (h : d.Settled)
    (hm : d.materializeChanges = (.ok (), d₁)) (source target : ObjectId) :
    Links d₁.view source target ↔ d.LeadsOn source target := by
  obtain ⟨hedited, -⟩ := materializeChanges_edited h hm
  by_cases hpending : ∃ key value, d.Pending ⟨source, key, value⟩
  · obtain ⟨key, value, hpending⟩ := hpending
    obtain ⟨dict, hdict, hwritten⟩ := hedited.written _ (mem_pendingEdits.2 hpending)
    have hview : d₁.view.lookup source = _ := IncrementalDocument.lookup_view_of_new hwritten
    have hlinks : Links d₁.view source target ↔ ∃ entry ∈ Dictionary.setAll
        (IncrementalDocument.editsAt source d.pendingEdits) dict, target ∈ entry.2.links := by
      unfold Links
      rw [hview, ← Object.mem_entryLinks]
      simp [Object.links]
    have hkeeps : ∀ entry : String × Object,
        (∀ written ∈ IncrementalDocument.editsAt source d.pendingEdits, written.1 ≠ entry.1) ↔
          ∀ value, ¬ d.Pending ⟨source, entry.1, value⟩ := by
      intro entry
      rw [← lastWritten_eq_none, lastWritten, Dictionary.get_eq_none]
      simp only [List.mem_reverse]
    rw [hlinks]
    constructor
    · rintro ⟨entry, hentry, htarget⟩
      rcases Dictionary.mem_setAll.1 hentry with ⟨hold, hother⟩ | hlast
      · exact .kept hpending hdict hold ((hkeeps entry).1 hother) htarget
      · exact leadsOn_lastWritten hlast htarget
    · have hlast : ∀ {key : String} {value : Object}, d.lastWritten source key = some value →
          target ∈ value.links → ∃ entry ∈ Dictionary.setAll
            (IncrementalDocument.editsAt source d.pendingEdits) dict, target ∈ entry.2.links :=
        fun {key value} hlast htarget =>
          ⟨(key, value), Dictionary.mem_setAll.2 (.inr hlast), htarget⟩
      intro hleads
      cases hleads with
      | untouched hnone _ => exact absurd hpending (hnone key value)
      | kept _ hdict' hold hother htarget =>
        rw [hdict] at hdict'
        cases hdict'
        exact ⟨_, Dictionary.mem_setAll.2 (.inl ⟨hold, (hkeeps _).2 hother⟩), htarget⟩
      | kid hstructural hslot =>
        refine hlast (lastWritten_kids hstructural) (Object.mem_itemLinks.2 ?_)
        exact ⟨_, List.mem_map_of_mem hslot, List.mem_singleton_self _⟩
      | parent hstructural hslot =>
        exact hlast (lastWritten_parent hstructural hslot) (List.mem_singleton_self _)
      | inherited hstructural hslot hinherited hrotates htarget =>
        exact hlast (lastWritten_inherited hstructural hslot hinherited hrotates) htarget
  · have hnone : ∀ key value, ¬ d.Pending ⟨source, key, value⟩ :=
      fun key value h => hpending ⟨key, value, h⟩
    have hsame := lookup_materialized_of_idle h hm hnone
    constructor
    · rintro ⟨object, hobject, htarget⟩
      exact .untouched hnone ⟨object, hsame ▸ hobject, htarget⟩
    · intro hleads
      cases hleads with
      | untouched _ hlinks =>
        obtain ⟨object, hobject, htarget⟩ := hlinks
        exact ⟨object, hsame ▸ hobject, htarget⟩
      | kept h _ _ _ _ => exact absurd h (hnone _ _)
      | kid hstructural _ => exact absurd (.kids hstructural) (hnone _ _)
      | parent hstructural hslot => exact absurd (.parent hstructural hslot) (hnone _ _)
      | inherited hstructural hslot hinherited _ _ =>
        exact absurd (.inherited hstructural hslot hinherited) (hnone _ _)

theorem reaches_materialized [LawfulDereference] {d d₁ : PdfDocument} (h : d.Settled)
    (hm : d.materializeChanges = (.ok (), d₁)) (id : ObjectId) :
    d₁.mergedDocument.Reaches id ↔ d.LeadsTo id := by
  have hprevious := (materializeChanges_edited h hm).1.touched.previous
  have hlinks : Links d₁.mergedDocument.objects = d.LeadsOn := by
    funext source target
    exact propext (links_materialized h hm source target)
  unfold LopdfDocument.Reaches LeadsTo
  rw [hlinks]
  simp only [mergedDocument, hprevious]

/-! ### Compacting -/

/-- The written file holds the page dictionary a slot stands for: what pruning kept of it, under
the identifier renumbering gave it. -/
def HoldsPage (d : PdfDocument) (written : LopdfDocument) (slot : PageSlot) : Prop :=
  ∃ id f, Lopdf.dereference d.view slot.objectId = some id ∧
    Renames f (Lopdf.pruneObjects (d.materializeChanges).2.mergedDocument) written ∧
    f id ∈ written.objects

/-- Something leads to the page dictionary a slot stands for. -/
def LeadsToPage (d : PdfDocument) (slot : PageSlot) : Prop :=
  ∃ id, Lopdf.dereference d.view slot.objectId = some id ∧ d.LeadsTo id

/-- A successful compaction carries a page over exactly when something leads to it. -/
theorem holdsPage_iff [LawfulLopdf] {d d' : PdfDocument} {env : SaveEnv} {written : LopdfDocument}
    (h : d.Settled) (hsave : d.saveCompacted env = (.ok written, d')) (slot : PageSlot) :
    d.HoldsPage written slot ↔ d.LeadsToPage slot := by
  obtain ⟨d₁, file, -, hm, rfl, -, -⟩ := saveCompacted_ok hsave
  obtain ⟨hedited, -⟩ := materializeChanges_edited h hm
  unfold HoldsPage LeadsToPage
  rw [hm]
  constructor
  · rintro ⟨id, f, hid, hrenames, hmem⟩
    refine ⟨id, hid, (reaches_materialized h hm id).1 ?_⟩
    by_contra hreaches
    have hdropped := LawfulLopdf.prune_drops hreaches
    exact Finmap.lookup_eq_none.1 hdropped ((Renames.mem_iff hrenames id).1 hmem)
  · rintro ⟨id, hid, hleads⟩
    obtain ⟨f, hrenames⟩ := LawfulLopdf.renumber (Lopdf.pruneObjects d₁.mergedDocument)
    refine ⟨id, f, hid, hrenames, (Renames.mem_iff hrenames id).2 ?_⟩
    obtain ⟨object, hobject, -⟩ := LawfulDereference.dereference_lands hid
    rw [← Finmap.lookup_isSome, LawfulLopdf.prune_keeps ((reaches_materialized h hm id).2 hleads)]
    exact Finmap.lookup_isSome.2 (hedited.touched.mem_view (Finmap.mem_of_lookup_eq_some hobject))

/-- Removing pages one after the other is a session of its own. -/
theorem removeEach_eq_run (d : PdfDocument) (ids : List PageId) :
    removeEach d ids = d.run (ids.map .remove) := by
  unfold removeEach run
  rw [List.foldl_map]
  rfl

theorem Settled.removeEach [LawfulLopdf] {d : PdfDocument} (h : d.Settled) (ids : List PageId) :
    (OpdfEditor.removeEach d ids).Settled := by
  rw [removeEach_eq_run]
  refine h.run fun step hstep => ?_
  obtain ⟨id, -, rfl⟩ := List.mem_map.1 hstep
  trivial

/-- After any session, a successful compaction is rid of the pages in the trash exactly when
nothing leads to them any more; half of a document that was split likewise of the other half. -/
theorem compaction_purges_the_trash [LawfulLopdf] {id : DocumentId} {file : LopdfDocument}
    {opened : PdfDocument} (hload : load id file = .ok opened) (hcounted : file.Counted)
    (steps : List SessionStep) (hsteps : ∀ step ∈ steps, step.Counts) :
    let d := opened.run steps
    (∀ env written d', d.saveCompacted env = (.ok written, d') →
      ((∀ slot ∈ d.pages.removed, ¬ d.HoldsPage written slot) ↔
        ∀ slot ∈ d.pages.removed, ¬ d.LeadsToPage slot)) ∧
    ∀ target boundary inverse head tail, splitAt d target boundary = (.ok inverse, head, tail) →
      ∀ env written head', head.saveCompacted env = (.ok written, head') →
        ((∀ slot ∈ d.pages.live.drop boundary, ¬ head.HoldsPage written slot) ↔
          ∀ slot ∈ d.pages.live.drop boundary, ¬ head.LeadsToPage slot) := by
  intro d
  have hsettled : d.Settled := (settled_load hload hcounted).run hsteps
  constructor
  · intro env written d' hsave
    exact forall₂_congr fun slot _ => not_congr (holdsPage_iff hsettled hsave slot)
  · intro target boundary inverse head tail hsplit env written head' hsave
    have hhead : head.Settled := splitAt_head hsplit ▸ hsettled.removeEach _
    exact forall₂_congr fun slot _ => not_congr (holdsPage_iff hhead hsave slot)

end PdfDocument

namespace OutlinedFile

open scoped ReferenceLopdf

def file : LopdfDocument where
  version := "1.7"
  objects := [⟨(1, 0), .dictionary [("Type", .name "Catalog"), ("Pages", .reference (2, 0)),
      ("Outlines", .reference (5, 0))]⟩,
    ⟨(2, 0), .dictionary [("Type", .name "Pages"),
      ("Kids", .array [.reference (3, 0), .reference (4, 0)])]⟩,
    ⟨(3, 0), ImportFixture.pageObject⟩, ⟨(4, 0), ImportFixture.pageObject⟩,
    ⟨(5, 0), .dictionary [("First", .reference (6, 0)), ("Last", .reference (6, 0))]⟩,
    ⟨(6, 0), .dictionary [("Title", .string "Second" .literal), ("Parent", .reference (5, 0)),
      ("Dest", .array [.reference (4, 0), .name "Fit"])]⟩].toFinmap
  trailer := [("Root", .reference (1, 0))]
  maxId := 6

def opened : PdfDocument := (PdfDocument.load 1 file).toOption.get (by decide +kernel)

theorem load_file : PdfDocument.load 1 file = .ok opened := rfl

theorem counted_file : file.Counted := by decide +kernel

def compacted (id : PageId) : LopdfDocument :=
  (opened.step (.remove id)).materializeChanges.2.buildCompactedDocument

end OutlinedFile

namespace PdfDocument

open OutlinedFile (file opened load_file counted_file compacted)
open scoped ReferenceLopdf

/-- The second page is removed and the document compacted, and the outline still leads to it. -/
theorem removed_page_survives_compaction :
    ∃ opened written d', load 1 file = .ok opened ∧
      (opened.run [.remove 1]).saveCompacted .reliable = (.ok written, d') ∧
      ∃ slot ∈ (opened.run [.remove 1]).pages.removed,
        (opened.run [.remove 1]).HoldsPage written slot := by
  have hremoved : (opened.run [.remove 1]).pages.removed = [⟨1, (4, 0), .letter, .none, false⟩] := by
    decide +kernel
  have hpage : Lopdf.dereference (opened.run [.remove 1]).view (4, 0) = some (4, 0) := by
    decide +kernel
  have hheld : (4, 0) ∈ (compacted 1).objects := by decide +kernel
  refine ⟨opened, compacted 1, _, load_file, rfl, ⟨1, (4, 0), .letter, .none, false⟩, ?_, ?_⟩
  · rw [hremoved]
    exact List.mem_singleton_self _
  · exact ⟨(4, 0), fun target => target, hpage, .refl _, hheld⟩

/-- Nothing leads to the first page, and it is gone once it is removed and the document compacted. -/
theorem compaction_purges_the_first_page :
    (opened.run [.remove 0]).pages.removed = [⟨0, (3, 0), .letter, .none, false⟩] ∧
      ∀ slot ∈ (opened.run [.remove 0]).pages.removed,
        ¬ (opened.run [.remove 0]).LeadsToPage slot := by
  have hremoved : (opened.run [.remove 0]).pages.removed = [⟨0, (3, 0), .letter, .none, false⟩] := by
    decide +kernel
  have hpurges := (compaction_purges_the_trash load_file counted_file [.remove 0]
    (by simp [SessionStep.Counts])).1 .reliable (compacted 0) _ rfl
  refine ⟨hremoved, hpurges.1 ?_⟩
  rintro slot hslot ⟨id, f, hid, hrenames, hmem⟩
  rw [hremoved, List.mem_singleton] at hslot
  subst hslot
  have hpage : Lopdf.dereference (opened.run [.remove 0]).view (3, 0) = some (3, 0) := by
    decide +kernel
  obtain rfl : id = (3, 0) := Option.some.inj (hid.symm.trans hpage)
  have hdropped : (3, 0) ∉ (Lopdf.pruneObjects
      ((opened.run [.remove 0]).materializeChanges).2.mergedDocument).objects := by
    decide +kernel
  exact hdropped ((hrenames.mem_iff _).1 hmem)

end PdfDocument
end OpdfEditor
