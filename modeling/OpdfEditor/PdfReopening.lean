import OpdfEditor.PdfWriteback
import OpdfEditor.PdfImportSound

/-!
The file a save writes, read back, holds the pages of the document, sizes and
rotations included, after any session whose saves and imports do not run into one
of the places where it does not. A blank page inserted under a turned root is one.
-/
namespace OpdfEditor
namespace PdfDocument

/-! ### Documents freshly read -/

theorem view_of_load {d : PdfDocument} {file : LopdfDocument}
    (h : d.incremental = announceVersion (IncrementalDocument.load file)) :
    d.view = file.objects := by
  refine Finmap.ext_lookup fun id => ?_
  unfold view
  rw [IncrementalDocument.lookup_view, h]
  rfl

/-- Where nothing is appended, a page of the file carries or finds what it did. -/
theorem fills_of_view {d : PdfDocument} (hview : d.view = d.incremental.previous.objects)
    {page : ObjectId} (hpage : page ∈ d.incremental.previous.objects) (key : String) :
    d.Fills page key := by
  unfold Fills
  rw [attributeOf_previous hpage, hview]
  cases hentry : entryOf d.incremental.previous.objects page key with
  | none => exact .inr ⟨rfl, rfl⟩
  | some value => exact .inl (findInheritedAttribute_of_entry hentry).symm

/-- A document whose file shows its slots, with nothing to save. -/
theorem sound_of_depicts {d : PdfDocument} {file : LopdfDocument}
    (hdepicts : Depicts file d.rootPagesId d.pages.live) (hcounted : file.Counted)
    (hsettled : d.Settled)
    (hincremental : d.incremental = announceVersion (IncrementalDocument.load file))
    (hremoved : d.pages.removed = [])
    (hunturned : ∀ slot ∈ d.pages.live, slot.rotationChanged = false) :
    Sound d (d.pages.live.map PageSlot.objectId) := by
  have hview := view_of_load hincremental
  have hprevious : d.incremental.previous = file := by
    rw [hincremental]
    rfl
  have hnone : ∀ id, d.incremental.newDocument.objects.lookup id = none := by
    intro id
    rw [hincremental]
    rfl
  have hlive : ∀ slot ∈ d.pages.known, slot ∈ d.pages.live := by
    intro slot hslot
    rwa [Roster.known, hremoved, List.append_nil] at hslot
  have hfills : ∀ page key, page ∈ file.objects → d.Fills page key := by
    intro page key hpage
    refine fills_of_view ?_ (hprevious.symm ▸ hpage) key
    rw [hview, hprevious]
  have hbacked : ∀ slot ∈ d.pages.known, Backed d (d.pages.live.map PageSlot.objectId) slot := by
    intro slot hslot
    have hmem := List.mem_map_of_mem (f := PageSlot.objectId) (hlive slot hslot)
    have htype := hdepicts.tree.stated _ hmem
    have hpage : slot.objectId ∈ file.objects := by
      obtain ⟨object, hobject, -⟩ := lookup_of_statedType htype
      exact Finmap.mem_of_lookup_eq_some hobject
    refine ⟨.inl hmem, ?_, hfills _ _ hpage, .inr (.inl (hfills _ _ hpage)), ?_, .inr ?_⟩
    · rw [hview]
      exact statedType_page.1 htype
    · rw [attributeOf_previous (hprevious.symm ▸ hpage), hview, hprevious, ← readPageSize_eq]
      exact hdepicts.size slot (hlive slot hslot)
    · rw [attributeOf_previous (hprevious.symm ▸ hpage), hview, hprevious, ← readPageRotation_eq]
      exact hdepicts.rotation slot (hlive slot hslot)
  refine ⟨⟨?_, ?_, hsettled, ?_, ?_, ?_, ?_, ?_, ?_, hbacked⟩, ?_, ?_⟩
  · rw [hprevious]
    exact hdepicts.tree
  · rw [hprevious]
    exact hcounted
  · rw [hincremental]
    exact Nat.le_refl _
  · intro id hid
    exact absurd hid (Finmap.lookup_eq_none.1 (hnone id))
  · rw [hincremental]
    rfl
  · obtain ⟨-, -, node, -, -, -, hnode, -⟩ := hdepicts.tree.walks
    rw [hview]
    exact ⟨node, hnode⟩
  · intro key _ _
    rw [hview, hprevious]
  · intro id _ key _
    rw [hview, hprevious]
  · intro slot hslot hchanged
    rw [hunturned slot (hlive slot hslot)] at hchanged
    cases hchanged
  · intro _
    refine ⟨rfl, fun id key _ => ?_, fun id _ => ?_⟩
    · rw [hview, hprevious]
    · rw [hview, hprevious]

section

variable [Lopdf] [LawfulLopdf]

/-- A document freshly opened lists the pages of its file, each slot as the file reads. -/
theorem load_lists {id : DocumentId} {file : LopdfDocument} {d : PdfDocument} {root : ObjectId}
    {pages : List ObjectId} (h : load id file = .ok d) (htree : ProperTree file root pages) :
    d.rootPagesId = root ∧ d.pages.live.map PageSlot.objectId = pages ∧
      ∀ slot ∈ d.pages.live, readPageSize file.objects slot.objectId = slot.size ∧
        readPageRotation file.objects slot.objectId = slot.rotation ∧ slot.rotationChanged = false := by
  obtain ⟨hroot, hpages, -, -, -⟩ := load_eq_ok h
  obtain ⟨-, hlive⟩ := readPages_live file
  rw [← hpages, LawfulLopdf.pageIter_eq htree.toPageTree] at hlive
  refine ⟨Except.ok.inj (hroot.symm.trans htree.readRootPagesId), ?_, fun slot hslot => ?_⟩
  · have hobjects := congrArg (List.map PageSlot.objectId) hlive
    rw [List.map_map, List.map_map] at hobjects
    exact hobjects.trans (List.map_id _)
  · have hmem := List.mem_map_of_mem (f := fun slot : PageSlot => { slot with id := 0 }) hslot
    rw [hlive] at hmem
    obtain ⟨objectId, -, heq⟩ := List.mem_map.1 hmem
    obtain rfl : objectId = slot.objectId := congrArg PageSlot.objectId heq
    exact ⟨congrArg PageSlot.size heq, congrArg PageSlot.rotation heq,
      (congrArg PageSlot.rotationChanged heq).symm⟩

theorem sound_load {id : DocumentId} {file : LopdfDocument} {d : PdfDocument} {root : ObjectId}
    {pages : List ObjectId} (h : load id file = .ok d) (htree : ProperTree file root pages)
    (hcounted : file.Counted) : Sound d pages := by
  obtain ⟨-, -, -, hincremental, -⟩ := load_eq_ok h
  obtain ⟨hremoved, -⟩ := listed_load h
  obtain ⟨rfl, hids, hread⟩ := load_lists h htree
  rw [← hids] at htree ⊢
  exact sound_of_depicts ⟨htree, fun slot hslot => (hread slot hslot).1,
    fun slot hslot => (hread slot hslot).2.1⟩ hcounted (settled_load h hcounted) hincremental hremoved
    fun slot hslot => (hread slot hslot).2.2

/-! ### Files that are written -/

omit [Lopdf] [LawfulLopdf] in
theorem clean_of_isClean {d : PdfDocument} (h : d.dirty.isClean = true) :
    d.dirty.structural = false ∧ d.dirty.rotations = false := by
  unfold DirtyState.isClean at h
  simpa using h

/-- An incremental save writes a file that shows the pages of the document. -/
theorem Sound.depicts_incremental {d d' : PdfDocument} {pages : List ObjectId} (h : Sound d pages)
    (hsafe : d.SaveSafe) {env : SaveEnv} {written : LopdfDocument}
    (hsave : d.saveIncremental env = (.ok written, d')) :
    Depicts written d.rootPagesId d.pages.live := by
  unfold saveIncremental at hsave
  split at hsave
  · cases hsave
  split at hsave
  · rename_i hclean
    obtain ⟨hstructural, hrotations⟩ := clean_of_isClean hclean
    split at hsave
    · cases hsave
    cases hsave
    -- nothing is pending, so the file is already what would be written
    have hm : d.materializeChanges = (.ok (), d) := by
      unfold materializeChanges pendingEdits
      rw [hstructural, hrotations]
      rfl
    refine h.depicts hsafe hm (Finmap.ext_lookup fun id => ?_) rfl
    refine ((h.unmoved hstructural).lookup id fun slot hslot hchanged => ?_).symm
    have hflagged := h.flagged slot (List.mem_append_left _ hslot) hchanged
    rw [hrotations] at hflagged
    cases hflagged
  · split at hsave
    · cases hsave
    rename_i d₁ hm
    split at hsave
    · cases hsave
    cases hsave
    obtain ⟨-, -, hnew⟩ := materialized_same h.toGrounded hm
    refine h.depicts hsafe hm rfl ?_
    have htrailer := congrArg LopdfDocument.trailer hnew
    exact congrArg (Dictionary.get · "Root") (htrailer.trans h.trailer)

/-- A compacted file, read back in, shows the pages of the document. -/
theorem Sound.depicts_compacted {d d₁ : PdfDocument} {pages : List ObjectId} (h : Sound d pages)
    (hsafe : d.SaveSafe) (hm : d.materializeChanges = (.ok (), d₁)) {file : LopdfDocument}
    (hfile : d₁.buildCompactedDocument.ReadsBackAs file) :
    ∃ f : ObjectId → ObjectId,
      Depicts file (f d.rootPagesId) (d.pages.live.map (PageSlot.moved f)) := by
  obtain ⟨-, hprevious, -⟩ := materialized_same h.toGrounded hm
  have hmerged : Depicts d₁.mergedDocument d.rootPagesId d.pages.live := by
    refine h.depicts hsafe hm rfl ?_
    simp only [mergedDocument, hprevious]
    exact Dictionary.get_remove_of_ne (by decide) _
  exact hmerged.compacted hfile

/-! ### Saving goes on from sound documents -/

theorem Sound.saveIncremental {d : PdfDocument} {pages : List ObjectId} (h : Sound d pages)
    (hsafe : d.SaveSafe) (env : SaveEnv) : Sound (d.saveIncremental env).2 pages := by
  obtain ⟨d₁, hm⟩ := h.materializes
  refine saveIncremental_preserves (P := (Sound · pages)) env h ?_
  rw [hm]
  exact h.materialized hsafe hm

theorem Rebased.sound {d d₁ d' : PdfDocument} {pages : List ObjectId} {file : LopdfDocument}
    (hrebased : Rebased file d₁ d') (h : Sound d pages) (hsafe : d.SaveSafe)
    (hm : d.materializeChanges = (.ok (), d₁)) (hlive : d.pages.live ≠ [])
    (hfile : d₁.buildCompactedDocument.ReadsBackAs file) (hcounted : file.Counted) :
    ∃ pages', Sound d' pages' := by
  obtain ⟨hsame, -, -⟩ := materialized_same h.toGrounded hm
  have hpages : d₁.pages = d.pages := by rw [hsame]
  obtain ⟨f, hdepicts⟩ := h.depicts_compacted hsafe hm hfile
  have hids : Lopdf.pageIter file = d.pages.live.map fun slot => f slot.objectId := by
    rw [LawfulLopdf.pageIter_eq hdepicts.tree.toPageTree, List.map_map]
    rfl
  have hmoved : d'.pages.live = d.pages.live.map (PageSlot.moved f) := by
    rw [hrebased.live, hids, hpages, List.zipWith_map_right, List.zipWith_self]
    rfl
  have hroot : f d.rootPagesId = d'.rootPagesId :=
    Except.ok.inj (hdepicts.tree.readRootPagesId.symm.trans hrebased.root)
  rw [hroot, ← hmoved] at hdepicts
  refine ⟨_, sound_of_depicts hdepicts hcounted (hrebased.settled hcounted (hpages ▸ hlive))
    hrebased.incremental hrebased.removed (fun slot hslot => ?_)⟩
  rw [hmoved] at hslot
  obtain ⟨source, -, rfl⟩ := List.mem_map.1 hslot
  rfl

theorem Sound.saveCompacted {d : PdfDocument} {pages : List ObjectId} (h : Sound d pages)
    (hsafe : d.SaveSafe) {env : SaveEnv} (hfaithful : env.Faithful) :
    ∃ pages', Sound (d.saveCompacted env).2 pages' := by
  refine saveCompacted_preserves (P := fun d' => ∃ pages', Sound d' pages') env ⟨pages, h⟩ ?_ ?_
  · obtain ⟨d₁, hm⟩ := h.materializes
    rw [hm]
    exact ⟨pages, h.materialized hsafe hm⟩
  · intro d₁ file hlive hm hparse hrebased
    obtain ⟨hfile, hcounted⟩ := hfaithful _ _ hparse
    refine hrebased.sound h hsafe hm (fun hnil => hlive ?_) hfile hcounted
    rw [hnil]
    rfl

end
end PdfDocument

/-! ### Whole sessions -/

/-- A call of a session: blank pages are of finite positive size, pages are brought in from another
open document, and a compaction reads back in what it wrote. -/
def SessionStep.Admitted : SessionStep → Prop
  | .insert _ size => size.widthPt.IsPositive ∧ size.heightPt.IsPositive
  | .importPortable _ _ _ => False
  | .saveCompacted env => env.Faithful
  | _ => True

namespace PdfDocument

variable [Lopdf]

/-- What a call must not run into. -/
def SafeStep (d : PdfDocument) : SessionStep → Prop
  | .importFrom source ids atIndex => ∀ slots, atIndex ≤ d.pages.live.length →
    ids.mapM source.pages.findSlot = .ok slots → ImportSafe source.view slots d
  | .saveIncremental _ | .saveCompacted _ => d.SaveSafe
  | _ => True

/-- No call of a session runs into it. -/
def SafeSession (d : PdfDocument) : List SessionStep → Prop
  | [] => True
  | step :: steps => d.SafeStep step ∧ SafeSession (d.step step) steps

variable [LawfulLopdf]

theorem Sound.step {d : PdfDocument} {pages : List ObjectId} (h : Sound d pages) {step : SessionStep}
    (hadmitted : step.Admitted) (hsafe : d.SafeStep step) : ∃ pages', Sound (d.step step) pages' := by
  cases step with
  | remove id =>
    rcases removePage_cases d id with hsame | hmoved
    · exact ⟨pages, by rwa [PdfDocument.step, hsame]⟩
    · exact ⟨pages, hmoved.sound h⟩
  | restore id atIndex =>
    rcases restorePage_cases d id atIndex with hsame | hmoved
    · exact ⟨pages, by rwa [PdfDocument.step, hsame]⟩
    · exact ⟨pages, hmoved.sound h⟩
  | move id toIndex =>
    rcases movePage_cases d id toIndex with hsame | hmoved
    · exact ⟨pages, by rwa [PdfDocument.step, hsame]⟩
    · exact ⟨pages, hmoved.sound h⟩
  | rotate id rotation =>
    rcases setRotation_cases d id rotation with hsame | hturned
    · exact ⟨pages, by rwa [PdfDocument.step, hsame]⟩
    · exact ⟨pages, hturned.sound h⟩
  | insert atIndex size =>
    rcases insertPage_cases d atIndex size with hsame | hinserted
    · exact ⟨pages, by rwa [PdfDocument.step, hsame]⟩
    · exact ⟨pages, hinserted.sound h hadmitted.1 hadmitted.2⟩
  | importFrom source ids atIndex => exact ⟨pages, importPages_sound h hsafe⟩
  | importPortable sourceId carried atIndex => exact hadmitted.elim
  | saveIncremental env => exact ⟨pages, h.saveIncremental hsafe env⟩
  | saveCompacted env => exact h.saveCompacted hsafe hadmitted

theorem Sound.run {d : PdfDocument} {pages : List ObjectId} (h : Sound d pages)
    {steps : List SessionStep} (hadmitted : ∀ step ∈ steps, step.Admitted)
    (hsafe : d.SafeSession steps) : ∃ pages', Sound (d.run steps) pages' := by
  induction steps generalizing d pages with
  | nil => exact ⟨pages, h⟩
  | cons step steps ih =>
    obtain ⟨pages', h'⟩ := h.step (hadmitted step List.mem_cons_self) hsafe.1
    exact ih h' (fun later hlater => hadmitted later (List.mem_cons_of_mem _ hlater)) hsafe.2

/-- After any session that runs into none of them, the file a save writes reads back as the pages
the document shows, in order, of the same sizes and rotations. -/
theorem saved_pages_read_back {id : DocumentId} {file : LopdfDocument} {opened : PdfDocument}
    {root : ObjectId} {pages : List ObjectId} (hload : load id file = .ok opened)
    (htree : ProperTree file root pages) (hcounted : file.Counted) (steps : List SessionStep)
    (hadmitted : ∀ step ∈ steps, step.Admitted) (hsafe : opened.SafeSession steps)
    (hsave : (opened.run steps).SaveSafe) {env : SaveEnv} {written reread : LopdfDocument}
    (hwritten : ((opened.run steps).saveIncremental env).1 = .ok written ∨
      ((opened.run steps).saveCompacted env).1 = .ok written)
    (hreread : written.ReadsBackAs reread) (newId : DocumentId) :
    ∃ reopened, load newId reread = .ok reopened ∧
      reopened.pages.live.map PageSlot.shown = (opened.run steps).pages.live.map PageSlot.shown := by
  obtain ⟨pages', h⟩ := (sound_load hload htree hcounted).run hadmitted hsafe
  rcases hwritten with hok | hok
  · have hdepicts := h.depicts_incremental hsave
      (Prod.ext hok rfl : (opened.run steps).saveIncremental env = (.ok written, _))
    refine (hdepicts.reread hreread).load ?_ newId
    intro hnil
    rw [saveIncremental, if_pos (by rw [hnil]; rfl)] at hok
    cases hok
  · obtain ⟨d₁, -, hlive, hm, rfl, -, -⟩ := saveCompacted_ok
      (Prod.ext hok rfl : (opened.run steps).saveCompacted env = (.ok written, _))
    obtain ⟨f, hdepicts⟩ := h.depicts_compacted hsave hm hreread
    obtain ⟨reopened, hreopened, hshown⟩ := hdepicts.load
      (fun hnil => hlive (congrArg List.length (List.map_eq_nil_iff.1 hnil))) newId
    refine ⟨reopened, hreopened, hshown.trans ?_⟩
    rw [List.map_map]
    rfl

/-! ### Documents that are safe at a glance -/

omit [Lopdf] [LawfulLopdf] in
/-- A structural edit is safe to save where every page has a box, the root turns none, and no two
slots share an object. -/
theorem saveSafe_of_distinct {d : PdfDocument} (hstructural : d.dirty.structural = true)
    (hbox : ∀ slot ∈ d.pages.live, (d.attributeOf slot.objectId "MediaBox").isSome = true)
    (hrotate : entryOf d.view d.rootPagesId "Rotate" = none)
    (hdistinct : (d.pages.known.map PageSlot.objectId).Nodup) : d.SaveSafe where
  box _ slot hslot hnone := by
    have hsome := hbox slot hslot
    rw [hnone] at hsome
    cases hsome
  rotate _ _ _ _ _ _ := by
    rw [hrotate]
    rfl
  shared turned hturned _ slot hslot hsame := by
    have hknown : turned ∈ d.pages.known := List.mem_append_left _ hturned
    rw [List.inj_on_of_nodup_map hdistinct hslot hknown hsame]
  nested hunmoved := by
    rw [hstructural] at hunmoved
    cases hunmoved

omit [Lopdf] [LawfulLopdf] in
/-- A value without references meets nothing. -/
theorem sees_of_direct {at_ : ObjectId → Prop} {objects : Objects} {value : Object}
    (h : value.links = []) : Sees at_ objects value := by
  have hnone : Sees (fun _ => False) objects value := by
    refine sees_of_closed Object.links (fun id => List.mem_singleton_self id) ?_ ?_ ?_
    · exact fun items item hmem target htarget => Object.mem_itemLinks.2 ⟨item, hmem, htarget⟩
    · exact fun _ _ hmet => hmet.elim
    · intro target htarget
      rw [h] at htarget
      cases htarget
  exact hnone.mono fun _ hmet => hmet.elim

omit [Lopdf] [LawfulLopdf] in
/-- Boxes and rotations without references capture nothing. -/
theorem uncaptured_of_direct {d : PdfDocument} (free : ObjectId → Prop)
    (h : ∀ slot ∈ d.pages.known, ∀ key ∈ ["MediaBox", "Rotate"],
      (d.attributeOf slot.objectId key).all (·.links.isEmpty) = true) : d.Uncaptured free := by
  intro slot hslot key value hkey hvalue
  have hdirect := h slot hslot key (by rcases hkey with rfl | ⟨rfl, -⟩ <;> simp)
  rw [hvalue] at hdirect
  exact sees_of_direct (List.isEmpty_iff.1 hdirect)

end PdfDocument

/-! ### A session that reads back, and one that does not -/

theorem SaveEnv.faithful_counting : SaveEnv.counting.Faithful := by
  intro written file hparse
  have hcounted := SaveEnv.counts_counting written file hparse
  unfold counting at hparse
  dsimp only at hparse
  split at hparse
  · cases hparse
    exact ⟨.refl _, hcounted⟩
  · cases hparse

namespace NestedFile

open scoped ReferenceLopdf

def box (width height : Int) : Object :=
  .array [.integer 0, .integer 0, .integer width, .integer height]

def root : Dictionary := [("Type", .name "Pages"), ("MediaBox", box 200 100),
  ("Kids", .array [.reference (3, 0), .reference (6, 0)]), ("Count", .integer 3)]

def turned : Dictionary := [("Type", .name "Pages"), ("Parent", .reference (2, 0)),
  ("Rotate", .integer 90), ("Kids", .array [.reference (4, 0), .reference (5, 0)]),
  ("Count", .integer 2)]

def file : LopdfDocument where
  version := "1.7"
  objects := [⟨(1, 0), ImportFixture.catalog⟩, ⟨(2, 0), .dictionary root⟩,
    ⟨(3, 0), .dictionary turned⟩,
    ⟨(4, 0), .dictionary [("Type", .name "Page"), ("Parent", .reference (3, 0))]⟩,
    ⟨(5, 0), .dictionary [("Type", .name "Page"), ("Parent", .reference (3, 0)),
      ("Rotate", .integer 180)]⟩,
    ⟨(6, 0), .dictionary [("Type", .name "Page"), ("Parent", .reference (2, 0)),
      ("MediaBox", box 300 300)]⟩].toFinmap
  trailer := [("Root", .reference (1, 0))]
  maxId := 6

def opened : PdfDocument := (PdfDocument.load 1 file).toOption.get (by decide +kernel)

theorem properTree : ProperTree file (2, 0) [(4, 0), (5, 0), (6, 0)] := by
  have hpage : ∀ id ∈ ([(4, 0), (5, 0), (6, 0)] : List ObjectId),
      statedType file.objects id = some "Page" := by
    decide +kernel
  have hbelow : Walks file.objects {(3, 0), (2, 0)} (kidsOf file.objects turned) [(4, 0), (5, 0)] :=
    .page (hpage _ (by decide)) (.page (hpage _ (by decide)) .nil)
  have hwalk :
      Walks file.objects {(2, 0)} (kidsOf file.objects root) ([(4, 0), (5, 0)] ++ [(6, 0)]) :=
    .node rfl rfl (by decide) hbelow (.page (hpage _ (by decide)) .nil)
  exact ⟨⟨_, _, root, rfl, rfl, rfl, rfl, hwalk⟩, by decide +kernel, by decide +kernel⟩

def imported : PdfDocument := opened.run [.remove 1, .insert 1 .letter]

theorem importSafe (slots : List PageSlot) (hslots : [0].mapM opened.pages.findSlot = .ok slots) :
    PdfDocument.ImportSafe opened.view slots imported := by
  have hread : ∀ slot ∈ opened.pages.live.take 1,
      statedType opened.view slot.objectId = some "Page" ∧
      readPageSize opened.view slot.objectId = slot.size ∧
      (findInheritedAttribute opened.view slot.objectId "MediaBox").all (·.links.isEmpty) = true := by
    decide +kernel
  obtain rfl : opened.pages.live.take 1 = slots :=
    Except.ok.inj ((rfl : _ = [0].mapM opened.pages.findSlot).trans hslots)
  refine ⟨fun slot hslot => ?_, PdfDocument.uncaptured_of_direct _ (by decide +kernel)⟩
  obtain ⟨htype, hsize, hdirect⟩ := hread slot hslot
  refine ⟨htype, hsize, fun value hvalue => ?_⟩
  rw [hvalue] at hdirect
  exact PdfDocument.sees_of_direct (List.isEmpty_iff.1 hdirect)

/-- A page is removed, a blank one put in and one brought in from the file itself; the document is
saved, a page turned, and the document compacted and rearranged. -/
def steps : List SessionStep := [.remove 1, .insert 1 .letter, .importFrom opened [0] 0,
  .saveIncremental .counting, .rotate 2 .half, .saveCompacted .counting, .move 0 2]

end NestedFile

namespace TurnedFile

open scoped ReferenceLopdf

def file : LopdfDocument where
  version := "1.7"
  objects := [⟨(1, 0), ImportFixture.catalog⟩,
    ⟨(2, 0), .dictionary [("Type", .name "Pages"), ("Rotate", .integer 90),
      ("Kids", .array [.reference (3, 0)]), ("Count", .integer 1)]⟩,
    ⟨(3, 0), ImportFixture.pageObject⟩].toFinmap
  trailer := [("Root", .reference (1, 0))]
  maxId := 3

def opened : PdfDocument := (PdfDocument.load 1 file).toOption.get (by decide +kernel)

def edited : PdfDocument := opened.run [.insert 1 .letter]

def written : LopdfDocument :=
  (edited.saveIncremental .reliable).1.toOption.get (by decide +kernel)

def reopened : PdfDocument := (PdfDocument.load 2 written).toOption.get (by decide +kernel)

end TurnedFile

namespace PdfDocument

open scoped ReferenceLopdf

/-- Every page of an edited, saved and compacted document reads back. -/
theorem nested_session_reads_back :
    ∃ written reopened,
      ((NestedFile.opened.run NestedFile.steps).saveIncremental .reliable).1 = .ok written ∧
      load 2 written = .ok reopened ∧ reopened.pages.live.map PageSlot.shown =
        (NestedFile.opened.run NestedFile.steps).pages.live.map PageSlot.shown := by
  have hsaved : (NestedFile.opened.run (NestedFile.steps.take 3)).SaveSafe :=
    saveSafe_of_distinct rfl (by decide +kernel) (by decide +kernel) (by decide +kernel)
  have hcompacted : (NestedFile.opened.run (NestedFile.steps.take 5)).SaveSafe :=
    saveSafe_of_distinct rfl (by decide +kernel) (by decide +kernel) (by decide +kernel)
  have hlast : (NestedFile.opened.run NestedFile.steps).SaveSafe :=
    saveSafe_of_distinct (by decide +kernel) (by decide +kernel) (by decide +kernel)
      (by decide +kernel)
  have hadmitted : ∀ step ∈ NestedFile.steps, step.Admitted := by
    intro step hstep
    simp only [NestedFile.steps, List.mem_cons, List.not_mem_nil, or_false] at hstep
    rcases hstep with rfl | rfl | rfl | rfl | rfl | rfl | rfl
    · trivial
    · exact ⟨by decide +kernel, by decide +kernel⟩
    · trivial
    · trivial
    · trivial
    · exact SaveEnv.faithful_counting
    · trivial
  have hload : load 1 NestedFile.file = .ok NestedFile.opened := rfl
  have hwritten :
      ((NestedFile.opened.run NestedFile.steps).saveIncremental .reliable).1 = .ok _ := rfl
  obtain ⟨reopened, hreopened, hshown⟩ := saved_pages_read_back hload
    NestedFile.properTree (by decide +kernel) NestedFile.steps hadmitted
    ⟨trivial, trivial, fun slots _ => NestedFile.importSafe slots, hsaved, trivial, hcompacted, trivial, trivial⟩ hlast
    (.inl hwritten) (.refl _) 2
  exact ⟨_, reopened, rfl, hreopened, hshown⟩

/-- A blank page put under a root that turns its pages reads back turned. -/
theorem blank_page_reads_back_turned :
    load 1 TurnedFile.file = .ok TurnedFile.opened ∧
      TurnedFile.edited = TurnedFile.opened.run [.insert 1 .letter] ∧
      (TurnedFile.edited.saveIncremental .reliable).1 = .ok TurnedFile.written ∧
      load 2 TurnedFile.written = .ok TurnedFile.reopened ∧
      TurnedFile.edited.pages.live.map PageSlot.shown = [(.letter, .quarter), (.letter, .none)] ∧
      TurnedFile.reopened.pages.live.map PageSlot.shown =
        [(.letter, .quarter), (.letter, .quarter)] :=
  ⟨rfl, rfl, rfl, rfl, by decide +kernel, by decide +kernel⟩

end PdfDocument
end OpdfEditor
