import OpdfEditor.RunExtraction
import OpdfEditor.SelectionEdits
import OpdfEditor.WholePages

/-!
Documents made out of others: pages appended to a document created from nothing, the head left
by a split, and pages turned. What is made out of whole files is complete, so that what is
written of it is a whole file again, and it shows the pages it was made of.
-/
namespace OpdfEditor

/-! ### Lists that go together -/

theorem exists_of_forall₂_left {α β : Type} {R : α → β → Prop} {xs : List α} {ys : List β}
    (h : List.Forall₂ R xs ys) {x : α} (hx : x ∈ xs) : ∃ y ∈ ys, R x y := by
  induction h with
  | nil => cases hx
  | @cons x' y xs ys hxy _ ih =>
    rcases List.mem_cons.1 hx with rfl | hx
    · exact ⟨y, List.mem_cons_self, hxy⟩
    · obtain ⟨y', hy', hxy'⟩ := ih hx
      exact ⟨y', List.mem_cons_of_mem _ hy', hxy'⟩

theorem exists_of_forall₂_right {α β : Type} {R : α → β → Prop} {xs : List α} {ys : List β}
    (h : List.Forall₂ R xs ys) {y : β} (hy : y ∈ ys) : ∃ x ∈ xs, R x y :=
  exists_of_forall₂_left h.flip hy

namespace PdfDocument

def looks (d : PdfDocument) : List (PageSize × Rotation) := d.pages.live.map PageSlot.shown

/-- Opened from a whole file: nothing is pending that cannot be written, and every page can be
brought into another document. -/
structure Opened (d : PdfDocument) : Prop where
  complete : ∃ pages, Complete d pages
  importable : ∀ slot ∈ d.pages.live, Importable d.view (fun _ => False) slot

/-- Created from nothing, with pages brought in. -/
structure Composed (d : PdfDocument) : Prop extends Gathering d [] where
  dirtied : d.pages.live ≠ [] → d.dirty = ⟨true, true⟩

theorem Composed.complete {d : PdfDocument} (h : Composed d) (hlive : d.pages.live ≠ []) :
    Complete d [] := h.toGathering.complete (h.dirtied hlive)

section Made

variable [Lopdf] {d d' : PdfDocument}

theorem looks_eq (d : PdfDocument) : d.looks = (roster d).live.map PageInfo.geometry := by
  change _ = (d.pages.live.map PageSlot.info).map PageInfo.geometry
  rw [List.map_map]
  rfl

theorem length_looks (d : PdfDocument) : d.looks.length = Document.pageCount d := by
  rw [LawfulDocument.pageCount_eq, looks_eq, List.length_map]

theorem roster_live (d : PdfDocument) : (roster d).live = d.pages.live.map PageSlot.info := rfl

/-! ### Where documents come from -/

section Sources

variable [LawfulLopdf]

theorem opened_load {file : LopdfDocument} {root : ObjectId} {pages : List ObjectId}
    (h : Whole file root pages) {id : DocumentId} (hload : load id file = .ok d) :
    Opened d ∧ d.looks = pages.map (pageShown file.objects) :=
  ⟨⟨⟨pages, complete_load h hload⟩, importable_of_load h hload⟩, load_shown hload h.toProperTree⟩

theorem composed_of_empty {env : SaveEnv} {id : DocumentId} {file : LopdfDocument} {root : ObjectId}
    (hparse : env.parse buildEmptyDocument = .ok file) (hpageless : Pageless file root)
    (h : empty env id = .ok d) : Composed d ∧ d.looks = [] := by
  have hlive := (blank_of_empty hparse hpageless h).live
  refine ⟨⟨gathering_of_empty hparse hpageless h, fun hne => absurd hlive hne⟩, ?_⟩
  rw [looks, hlive]
  rfl

end Sources

/-! ### Pages appended -/

/-- An import at the end shows the pages it was given after those there. -/
theorem appended_looks {source : PdfDocument} {ids newIds : List PageId} {pages : List PageInfo}
    (hpages : ids.mapM (Document.page · source) = .ok pages)
    (himport : Document.importPages source ids (Document.pageCount d) d = (.ok newIds, d')) :
    d'.looks = d.looks ++ pages.map PageInfo.geometry := by
  obtain ⟨found, hfound, -, -, hlive, -⟩ := importPages_live himport
  obtain rfl := Except.ok.inj (hpages.symm.trans hfound)
  rw [looks_eq, looks_eq, hlive, LawfulDocument.pageCount_eq, List.take_length, List.drop_length,
    List.append_nil, List.map_append, map_geometry_zipWith (by simp)]

/-- An import that brought in something marked the document changed. -/
theorem dirty_importPages {source : PdfDocument} {ids newIds : List PageId} {atIndex : Nat}
    (himport : importPages source ids atIndex d = (.ok newIds, d')) :
    d'.dirty = if newIds.isEmpty then d.dirty else ⟨true, true⟩ := by
  unfold importPages at himport
  split at himport
  · cases himport
  rename_i hcheck
  split at himport
  · cases himport
  rename_i slots hslots
  split at himport
  · cases himport
  rename_i imported d₁ hresolved
  cases himport
  have hkeeps := importResolved_keeps source.view slots d (checkInsertionIndex_eq_ok.1 hcheck)
  rw [hresolved] at hkeeps
  dsimp only
  rw [hkeeps.dirty]

section Copies

variable [LawfulDereference] {source : PdfDocument}

theorem Composed.appended (h : Composed d) (hsource : Opened source) {ids newIds : List PageId}
    (himport : Document.importPages source ids (Document.pageCount d) d = (.ok newIds, d')) :
    Composed d' := by
  have hslots : ∀ slots, ids.mapM source.pages.findSlot = .ok slots →
      ∀ slot ∈ slots, Importable source.view (fun _ => False) slot := by
    intro slots hslots slot hslot
    obtain ⟨id, -, hfound⟩ := Traversal.exists_of_mapM hslots hslot
    exact hsource.importable slot (Roster.findSlot_eq_ok.1 hfound).1
  have hgathering := h.toGathering.importPages hslots (Document.pageCount d)
  have hafter : (PdfDocument.importPages source ids (Document.pageCount d) d).2 = d' :=
    congrArg Prod.snd himport
  rw [hafter] at hgathering
  refine ⟨hgathering, fun hlive => ?_⟩
  rw [dirty_importPages himport]
  split
  · rename_i hnone
    obtain ⟨pages, hpages, -, hids, -⟩ := importPages_live himport
    have hlength := congrArg List.length hids
    rw [List.isEmpty_iff.1 hnone, List.length_range', List.length_nil] at hlength
    have hlooks := appended_looks hpages himport
    rw [List.eq_nil_of_length_eq_zero hlength.symm, List.map_nil, List.append_nil] at hlooks
    refine h.dirtied fun hempty => hlive ?_
    rw [looks, looks, hempty] at hlooks
    exact List.map_eq_nil_iff.1 hlooks
  · rfl

/-- Appending documents one after the other. -/
theorem Composed.merged {count : Nat} {sources : List PdfDocument}
    {removals : List (Command PdfDocument)} {inverse : Command PdfDocument}
    (hsources : ∀ source ∈ sources, Opened source) (h : Composed d)
    (happly : Command.applyMerge Command.apply count sources removals d = (.ok inverse, d')) :
    Composed d' ∧ d'.looks = d.looks ++ sources.flatMap looks := by
  induction sources generalizing removals d with
  | nil =>
    cases happly
    exact ⟨h, by simp⟩
  | cons source sources ih =>
    rw [Command.applyMerge] at happly
    split at happly
    · rename_i newIds d₁ himport
      have hall := OpdfEditor.mapM_page source fun _ hslot => hslot
      rw [← Roster.ids, ← LawfulDocument.pageIds_eq] at hall
      obtain ⟨hd', hlooks⟩ := ih (fun other hother => hsources other (List.mem_cons_of_mem _ hother))
        (h.appended (hsources source List.mem_cons_self) himport) happly
      refine ⟨hd', ?_⟩
      rw [hlooks, appended_looks hall himport, ← looks_eq, List.append_assoc, List.flatMap_cons]
    · cases happly

theorem Composed.extracted {runs : List (Nat × Nat)}
    (hruns : ∀ run ∈ runs, run.1 ≤ run.2 ∧ run.2 ≤ (Document.pageIds source).length)
    (hsource : Opened source) (h : Composed d) (hextract : extractRuns source runs d = (.ok (), d')) :
    Composed d' := by
  induction runs generalizing d with
  | nil =>
    cases hextract
    exact h
  | cons run runs ih =>
    obtain ⟨⟨hrange, hbound⟩, hrest⟩ := List.forall_mem_cons.1 hruns
    rw [extractRuns_cons runs hrange hbound] at hextract
    split at hextract
    · cases hextract
    · rename_i newIds d₁ himport
      exact ih hrest (h.appended hsource himport) hextract

end Copies

/-! ### Pages taken out -/

/-- The head a split leaves. -/
theorem Complete.head {pages : List ObjectId} (h : Complete d pages) {boundary : Nat}
    (hboundary : boundary < d.pages.live.length) :
    Complete (removeEach d ((Document.pageIds d).drop boundary)) pages ∧
      (removeEach d ((Document.pageIds d).drop boundary)).looks = d.looks.take boundary := by
  have htail : d.pages.live.drop boundary ≠ [] := by
    rw [Ne, List.drop_eq_nil_iff]
    omega
  have hids : (Document.pageIds d).drop boundary = (d.pages.live.drop boundary).map pageId :=
    List.map_drop.symm
  obtain ⟨hmoved, hlive⟩ := removeEach_last htail (List.take_append_drop boundary _).symm
  rw [hids]
  refine ⟨hmoved.complete h, ?_⟩
  rw [looks, hlive, List.map_take]
  rfl

/-! ### Pages turned -/

theorem Complete.rotated {pages : List ObjectId} {ids : List PageId} {rotation : Rotation}
    {inverse : Command PdfDocument} (h : Complete d pages)
    (happly : (rotateSelection ids rotation).apply d = (.ok inverse, d')) : Complete d' pages := by
  rw [rotateSelection, Command.apply_sequence] at happly
  refine Command.applySequence_keeps (P := (Complete · pages)) ?_ happly h
  intro command hcommand d inverse d' happly hd
  obtain ⟨id, -, rfl⟩ := List.mem_map.1 hcommand
  rw [Command.apply_setRotation, Command.applySetRotation] at happly
  split at happly
  · cases happly
  split at happly
  · cases happly
  rename_i d₁ hturned
  cases happly
  have hafter : (PdfDocument.setRotation id rotation d).2 = d' := congrArg Prod.snd hturned
  rcases setRotation_cases d id rotation with hsame | hmoved
  · rwa [← hafter, hsame]
  · rw [hafter] at hmoved
    exact hmoved.complete hd

/-- Turning the pages at some positions turns what they show. -/
theorem rotated_looks {indices : List Nat} {ids : List PageId} {rotation : Rotation}
    {inverse : Command PdfDocument}
    (hids : List.Forall₂ (fun i id => (Document.pageIds d)[i]? = some id) indices ids)
    (happly : (rotateSelection ids rotation).apply d = (.ok inverse, d')) :
    d'.looks = d.looks.mapIdx fun i look => if i ∈ indices then (look.1, rotation) else look := by
  have hmem : ∀ i page, (roster d).live[i]? = some page → (page.id ∈ ids ↔ i ∈ indices) := by
    intro i page hpage
    have hi : (Document.pageIds d)[i]? = some page.id := by
      rw [LawfulDocument.pageIds_eq, Roster.ids, List.getElem?_map, hpage]
      rfl
    have hnodup : (Document.pageIds d).Nodup := by
      rw [LawfulDocument.pageIds_eq]
      exact (roster d).live_nodup
    constructor
    · intro hid
      obtain ⟨j, hj, hat⟩ := exists_of_forall₂_right hids hid
      rwa [(List.getElem?_inj (List.getElem?_eq_some_iff.1 hi).1 hnodup).1 (hi.trans hat.symm)]
    · intro hid
      obtain ⟨id, hmem, hat⟩ := exists_of_forall₂_left hids hid
      rwa [← Option.some.inj (hat.symm.trans hi)]
  rw [looks_eq, looks_eq, (rotateSelection_live happly).2]
  refine List.ext_getElem? fun i => ?_
  rw [List.getElem?_map, List.getElem?_map, List.getElem?_mapIdx, List.getElem?_map]
  cases hpage : (roster d).live[i]? with
  | none => rfl
  | some page =>
    simp only [Option.map_some, hmem i page hpage]
    split <;> rfl

end Made
end PdfDocument
end OpdfEditor
