import OpdfEditor.PageWalk
import OpdfEditor.PdfImportSound
import OpdfEditor.PdfResave
import OpdfEditor.Traversal

/-!
What slots are bound to. In every document a session leads to, importing only from such
documents, each slot names a page of the file or one created since, and what is
appended in place of the file's objects keeps their types.
-/
namespace OpdfEditor
namespace PdfDocument

variable [Lopdf]

def IsPage (object : Object) : Prop :=
  ∃ dict : Dictionary, object = .dictionary dict ∧ Dictionary.get dict "Type" = some (.name "Page")

omit [Lopdf] in
theorem IsPage.set {dict : Dictionary} (h : IsPage (.dictionary dict)) {key : String}
    (hkey : key ≠ "Type") (value : Object) : IsPage (.dictionary (Dictionary.set key value dict)) := by
  obtain ⟨_, ⟨⟩, htype⟩ := h
  exact ⟨_, rfl, (Dictionary.get_set_of_ne (Ne.symm hkey) value dict).trans htype⟩

/-- What ties the slots of a document to its objects. -/
structure Bound (d : PdfDocument) : Prop where
  settled : d.Settled
  counted : ∀ id ∈ d.incremental.previous.objects, id.1 ≤ d.incremental.newDocument.maxId
  root : readRootPagesId d.incremental.previous = .ok d.rootPagesId
  listed : ∀ slot ∈ d.pages.known, slot.objectId ∈ Lopdf.pageIter d.incremental.previous ∨
    slot.objectId ∉ d.incremental.previous.objects ∧ slot.objectId ∈ d.incremental.newDocument.objects
  page : ∀ slot ∈ d.pages.known, ∀ object,
    d.incremental.newDocument.objects.lookup slot.objectId = some object → IsPage object
  amends : Amends writtenKeys d.incremental

theorem Bound.bounded {d : PdfDocument} (h : Bound d) {slot : PageSlot} (hslot : slot ∈ d.pages.known) :
    slot.objectId.1 ≤ d.incremental.newDocument.maxId :=
  h.settled.bounded _ (.inr ⟨slot, hslot, rfl⟩)

/-- Nothing is appended yet, and every slot names a page of the file. -/
theorem bound_of_empty {d : PdfDocument} (hsettled : d.Settled)
    (hempty : d.incremental.newDocument.objects = ∅)
    (hcounted : ∀ id ∈ d.incremental.previous.objects, id.1 ≤ d.incremental.newDocument.maxId)
    (hroot : readRootPagesId d.incremental.previous = .ok d.rootPagesId)
    (hlisted : ∀ slot ∈ d.pages.known, slot.objectId ∈ Lopdf.pageIter d.incremental.previous) :
    Bound d := by
  refine ⟨hsettled, hcounted, hroot, fun slot hslot => .inl (hlisted slot hslot), ?_, ?_⟩
  · intro slot _ object hobject
    rw [hempty] at hobject
    cases hobject
  · intro id object hobject
    rw [hempty] at hobject
    cases hobject

/-- Slots stay, or come in for pages created. -/
theorem Bound.grow {d d' : PdfDocument} (h : Bound d) (hgrown : Grown d d') (hsettled : d'.Settled)
    (hslots : ∀ slot ∈ d'.pages.known, (∃ old ∈ d.pages.known, old.objectId = slot.objectId) ∨
      d.incremental.newDocument.maxId < slot.objectId.1 ∧ ∃ object,
        d'.incremental.newDocument.objects.lookup slot.objectId = some object ∧ IsPage object) :
    Bound d' := by
  have hkept : ∀ id : ObjectId, id.1 ≤ d.incremental.newDocument.maxId →
      d'.incremental.newDocument.objects.lookup id = d.incremental.newDocument.objects.lookup id := by
    intro id hid
    rcases hgrown.lookup id with hsame | hfresh
    · exact hsame
    · omega
  refine ⟨hsettled, fun id hid => ?_, ?_, fun slot hslot => ?_, fun slot hslot object hobject => ?_, ?_⟩
  · rw [hgrown.previous] at hid
    exact (h.counted id hid).trans hgrown.maxId
  · rw [hgrown.previous, hgrown.rootPagesId]
    exact h.root
  · rw [hgrown.previous]
    rcases hslots slot hslot with ⟨old, hold, hid⟩ | ⟨hfresh, object, hobject, -⟩
    · rw [← hid]
      refine (h.listed old hold).imp_right (And.imp_right fun hmem => ?_)
      rwa [← Finmap.lookup_isSome, hkept _ (h.bounded hold), Finmap.lookup_isSome]
    · refine .inr ⟨fun hmem => ?_, Finmap.mem_of_lookup_eq_some hobject⟩
      have := h.counted _ hmem
      omega
  · rcases hslots slot hslot with ⟨old, hold, hid⟩ | ⟨-, created, hcreated, hpage⟩
    · rw [← hid, hkept _ (h.bounded hold)] at hobject
      exact h.page old hold object hobject
    · rw [hcreated] at hobject
      cases hobject
      exact hpage
  · intro id object hobject hid
    rw [hgrown.previous] at hid ⊢
    rw [hkept id (h.counted id hid)] at hobject
    exact h.amends id object hobject hid

theorem Bound.of_known {d d' : PdfDocument} (h : Bound d) (hsettled : d'.Settled)
    (hincremental : d'.incremental = d.incremental) (hroot : d'.rootPagesId = d.rootPagesId)
    (hslots : ∀ slot ∈ d'.pages.known, ∃ old ∈ d.pages.known, old.objectId = slot.objectId) :
    Bound d' :=
  h.grow (.of_same hincremental hroot) hsettled fun slot hslot => .inl (hslots slot hslot)

/-! ### Calls other than saves -/

theorem Rearranged.bound {d d' : PdfDocument} (hmoved : Rearranged d d') (h : Bound d) : Bound d' :=
  h.of_known (hmoved.settled h.settled) hmoved.incremental hmoved.rootPagesId fun slot hslot =>
    ⟨slot, hmoved.known.mem_iff.1 hslot, rfl⟩

theorem Turned.bound {rotation : Rotation} {d d' : PdfDocument} (hturned : Turned rotation d d')
    (h : Bound d) : Bound d' :=
  h.of_known (hturned.settled h.settled) hturned.incremental hturned.rootPagesId hturned.known

/-- A slot comes in for a page created. -/
theorem Bound.insert {d d' : PdfDocument} (h : Bound d) (hgrown : Grown d d') (hsettled : d'.Settled)
    {before after : List PageSlot} {added : PageSlot} (hremoved : d'.pages.removed = d.pages.removed)
    (hlive : d.pages.live = before ++ after) (hlive' : d'.pages.live = before ++ added :: after)
    (hfresh : d.incremental.newDocument.maxId < added.objectId.1) {object : Object}
    (hobject : d'.incremental.newDocument.objects.lookup added.objectId = some object)
    (hpage : IsPage object) : Bound d' := by
  refine h.grow hgrown hsettled fun slot hslot => ?_
  rcases known_of_insert hremoved hlive hlive' hslot with rfl | hold
  · exact .inr ⟨hfresh, object, hobject, hpage⟩
  · exact .inl ⟨slot, hold, rfl⟩

theorem Inserted.bound {size : PageSize} {d d' : PdfDocument} (hinserted : Inserted size d d')
    (h : Bound d) : Bound d' := by
  obtain ⟨before, after, hlive, hlive'⟩ := hinserted.live
  have hobject : d'.incremental.newDocument.objects.lookup
      (d.incremental.newDocument.maxId + 1, 0) =
        some (.dictionary (blankPageDictionary d.rootPagesId size)) := by
    rw [hinserted.incremental]
    exact Finmap.lookup_insert _
  exact h.insert hinserted.grown (hinserted.settled h.settled) hinserted.removed hlive hlive'
    (Nat.lt_succ_self _) hobject ⟨_, rfl, rfl⟩

theorem ImportStep.bound [LawfulDereference] {source : Objects} {slot : PageSlot} {atIndex : Nat}
    {d d₁ : PdfDocument} {id : PageId} (hstep : ImportStep source slot atIndex d id d₁)
    (hsource : ∀ object, source.lookup slot.objectId = some object → object.asDict.isSome = true →
      IsPage object) (h : Bound d) : Bound d₁ := by
  obtain ⟨dict, mapping, copied, before, after, hdict, hcopied, hlive, hlive'⟩ := hstep.copies
  obtain ⟨numbered, hassigned, -⟩ := hcopied.assigned
  obtain ⟨_, ⟨⟩, htype⟩ := hsource _ hdict rfl
  have hcopy := hcopied.entryOf hdict (show "Type" ≠ "Parent" by decide)
  rw [htype] at hcopy
  obtain ⟨copy, hlookup, hcopyType⟩ := lookup_of_entryOf hcopy
  exact h.insert hstep.grown (hstep.settled h.settled) hstep.keeps.removed hlive hlive'
    (hassigned.numbered.fresh copied (List.mem_map.2 ⟨_, hcopied.entry, rfl⟩)).2.1 hlookup
    ⟨copy, rfl, hcopyType⟩

variable [LawfulWalk]

/-- A listed page leads to a page dictionary. -/
theorem page_of_listed {file : LopdfDocument} {id : ObjectId} (h : id ∈ Lopdf.pageIter file) :
    ∃ object, Objects.getObject file.objects id = .ok object ∧ IsPage object := by
  obtain ⟨budget, hwalk⟩ := LawfulWalk.pageIter_walk file
  rw [hwalk] at h
  have htype := typeAt_of_walk h
  obtain ⟨dict, hdict, hname⟩ := Option.bind_eq_some_iff.1 htype
  obtain ⟨value, hvalue, hvalueName⟩ := Option.bind_eq_some_iff.1 hname
  refine ⟨_, getDictionary_eq_ok.1 (toOption_eq_some.1 hdict), dict, rfl, ?_⟩
  cases value with
  | name bytes =>
    cases hvalueName
    exact hvalue
  | _ => cases hvalueName

/-- What a page of a document is cloned from is a page. -/
theorem Bound.clone {d : PdfDocument} (h : Bound d) {slot : PageSlot} (hslot : slot ∈ d.pages.known)
    {object : Object}
    (hobject : Objects.getObject d.incremental.previous.objects slot.objectId = .ok object) :
    IsPage object := by
  rcases h.listed slot hslot with hlisted | ⟨hfresh, -⟩
  · obtain ⟨page, hpage, hispage⟩ := page_of_listed hlisted
    rw [hobject] at hpage
    cases hpage
    exact hispage
  · exact absurd (mem_of_getObject hobject) hfresh

/-- A slot whose object is a dictionary of the document itself names a page. -/
theorem Bound.page_view {d : PdfDocument} (h : Bound d) {slot : PageSlot} (hslot : slot ∈ d.pages.known)
    {object : Object} (hobject : d.view.lookup slot.objectId = some object)
    (hdict : object.asDict.isSome = true) : IsPage object := by
  unfold view at hobject
  rw [IncrementalDocument.lookup_view] at hobject
  cases hnew : d.incremental.newDocument.objects.lookup slot.objectId with
  | some appended =>
    rw [hnew, Option.some_or] at hobject
    cases hobject
    exact h.page slot hslot _ hnew
  | none =>
    rw [hnew, Option.none_or] at hobject
    refine h.clone hslot (getObject_self hobject ?_)
    cases object with
    | reference _ => cases hdict
    | _ => rfl

omit [Lopdf] [LawfulWalk] in
/-- Pages asked for by identity are live pages. -/
theorem live_of_mapM {d : PdfDocument} {ids : List PageId} {slots : List PageSlot}
    (h : ids.mapM d.pages.findSlot = .ok slots) {slot : PageSlot} (hslot : slot ∈ slots) :
    slot ∈ d.pages.live := by
  obtain ⟨id, -, hfound⟩ := Traversal.exists_of_mapM h hslot
  exact (Roster.findSlot_eq_ok.1 hfound).1

theorem importPages_bound {d source : PdfDocument} (h : Bound d)
    (hsource : ∀ slot ∈ source.pages.live, ∀ object, source.view.lookup slot.objectId = some object →
      object.asDict.isSome = true → IsPage object) (ids : List PageId) (atIndex : Nat) :
    Bound (importPages source ids atIndex d).2 := by
  rcases importPages_cases source ids atIndex d with hsame | ⟨slots, dirty, revision, hat, hslots, heq⟩
  · rwa [hsame]
  · have hresolved : Bound (importResolved source.view slots atIndex d).2 := by
      refine importResolved_induct (fun slot hslot _ _ _ _ hstep => hstep.bound ?_) hat h
      exact hsource slot (live_of_mapM hslots hslot)
    rw [heq]
    refine hresolved.of_known (hresolved.settled.of_same rfl fun _ hid => hid) rfl rfl ?_
    exact fun slot hslot => ⟨slot, hslot, rfl⟩

/-! ### Files that are opened -/

/-- Every slot of a document freshly opened names a page. -/
theorem page_of_load {id : DocumentId} {file : LopdfDocument} {d : PdfDocument}
    (h : load id file = .ok d) {slot : PageSlot} (hslot : slot ∈ d.pages.live) {object : Object}
    (hobject : d.view.lookup slot.objectId = some object) (hdict : object.asDict.isSome = true) :
    IsPage object := by
  obtain ⟨-, -, -, hincremental, -⟩ := load_eq_ok h
  obtain ⟨-, hlisted⟩ := listed_load h
  obtain ⟨page, hpage, hispage⟩ := page_of_listed (hlisted slot hslot)
  have hself : Objects.getObject file.objects slot.objectId = .ok object := by
    unfold view at hobject
    rw [IncrementalDocument.lookup_view, hincremental] at hobject
    refine getObject_self hobject ?_
    cases object with
    | reference _ => cases hdict
    | _ => rfl
  rw [hself] at hpage
  cases hpage
  exact hispage

theorem importPortable_bound {d : PdfDocument} (h : Bound d) (sourceId : DocumentId)
    (pages : PortablePages) (atIndex : Nat) : Bound (importPortable sourceId pages atIndex d).2 := by
  unfold importPortable
  split
  · exact h
  split
  · exact h
  · exact h.of_known (h.settled.of_same rfl fun _ hid => hid) rfl rfl fun slot hslot => ⟨slot, hslot, rfl⟩
  rename_i bytes _ _
  split
  · exact h
  rename_i source hsource
  refine importPages_bound h (fun slot hslot object hobject hdict => ?_) _ _
  cases bytes with
  | empty => cases hsource
  | damaged e => cases hsource
  | file file => exact page_of_load hsource hslot hobject hdict

theorem Starts.bound {d : PdfDocument} (h : Starts d) : Bound d := by
  have hsettled := h.settled
  cases h with
  | opened hload hcounted =>
    obtain ⟨hroot, -, -, hincremental, -⟩ := load_eq_ok hload
    obtain ⟨hremoved, hlisted⟩ := listed_load hload
    refine bound_of_empty hsettled ?_ ?_ ?_ fun slot hslot => ?_
    · rw [hincremental]
      rfl
    · rw [hincremental]
      exact hcounted
    · rw [hincremental]
      exact hroot
    · rw [Roster.known, hremoved, List.append_nil] at hslot
      rw [hincremental]
      exact hlisted slot hslot
  | created hparse hpageless hempty =>
    obtain ⟨hroot, hpages, hincremental, -⟩ := empty_eq_ok hparse hpageless hempty
    refine bound_of_empty hsettled ?_ ?_ ?_ fun slot hslot => ?_
    · rw [hincremental]
      rfl
    · rw [hincremental]
      exact hpageless.counted
    · rw [hincremental, hroot]
      exact hpageless.readRootPagesId
    · rw [hpages] at hslot
      cases hslot

/-! ### Saves -/

/-- Writing the pending changes keeps the types of what is written to, however far it gets. -/
theorem Bound.materialize {d : PdfDocument} (h : Bound d) : Bound (d.materializeChanges).2 := by
  have htouched := materializeChanges_touched h.settled
  have hkeeps := d.materializeChanges_keeps
  have hpages : (d.materializeChanges).2.pages = d.pages := by rw [hkeeps]
  have hholds : IncrementalDocument.Holds (fun id object =>
      (id ∈ d.incremental.previous.objects → ∃ original,
        Objects.getObject d.incremental.previous.objects id = .ok original ∧
          SameBut writtenKeys original object) ∧
      ∀ slot ∈ d.pages.known, slot.objectId = id → IsPage object)
      (d.incremental.applyEdits d.pendingEdits).2 := by
    refine IncrementalDocument.applyEdits_holds (fun edit hedit => ⟨?_, ?_⟩)
      (fun edit hedit => h.settled.settled _ (mem_pendingEdits.1 hedit).names) ?_
    · intro object hobject
      refine ⟨fun _ => ⟨object, hobject, .refl _ _⟩, ?_⟩
      rintro slot hslot hid
      exact h.clone hslot (hid ▸ hobject)
    · rintro dict ⟨halike, hpage⟩
      have hkey := (mem_pendingEdits.1 hedit).key_mem
      refine ⟨fun hmem => ?_, fun slot hslot hid => ?_⟩
      · obtain ⟨original, horiginal, halike⟩ := halike hmem
        exact ⟨original, horiginal, halike.set hkey edit.value⟩
      · refine (hpage slot hslot hid).set ?_ edit.value
        rintro htype
        rw [htype] at hkey
        exact absurd hkey (by decide)
    · intro id object hobject
      refine ⟨h.amends id object hobject, ?_⟩
      rintro slot hslot rfl
      exact h.page slot hslot object hobject
  have hincremental : (d.materializeChanges).2.incremental =
      (d.incremental.applyEdits d.pendingEdits).2 := rfl
  rw [← hincremental] at hholds
  refine ⟨materializeChanges_settled h.settled, ?_, ?_, fun slot hslot => ?_,
    fun slot hslot object hobject => ?_, fun id object hobject hid => ?_⟩
  · rw [htouched.previous, htouched.fields]
    exact h.counted
  · rw [htouched.previous, hkeeps]
    exact h.root
  · rw [hpages] at hslot
    rw [htouched.previous]
    refine (h.listed slot hslot).imp_right (And.imp_right fun hmem => ?_)
    rw [← Finmap.lookup_isSome] at hmem ⊢
    rcases htouched.lookup slot.objectId with hsame | ⟨-, object, hobject, -⟩
    · rwa [hsame]
    · rw [hobject]
      rfl
  · exact (hholds _ object hobject).2 slot (hpages ▸ hslot) rfl
  · rw [htouched.previous] at hid ⊢
    exact (hholds id object hobject).1 hid

theorem Bound.materialized {d d₁ : PdfDocument} (h : Bound d) {result : Except Error Unit}
    (hm : d.materializeChanges = (result, d₁)) : Bound d₁ := by
  have hmaterialized := h.materialize
  rwa [hm] at hmaterialized

omit [LawfulWalk] in
/-- A document continued from the file it was compacted into starts over. -/
theorem Rebased.bound {file : LopdfDocument} {d d' : PdfDocument} (h : Rebased file d d')
    (hsettled : d'.Settled) (hcounted : file.Counted) : Bound d' := by
  refine bound_of_empty hsettled ?_ ?_ ?_ fun slot hslot => ?_
  · rw [h.incremental]
    rfl
  · rw [h.incremental]
    exact hcounted
  · rw [h.incremental]
    exact h.root
  · rw [Roster.known, h.removed, List.append_nil] at hslot
    rw [h.incremental]
    exact h.listed hslot

/-! ### Whole sessions -/

/-- The documents a session leads to, importing only from such documents. -/
inductive Reachable : PdfDocument → Prop
  | run {start : PdfDocument} {steps : List SessionStep} (hstart : Starts start)
      (hcounts : ∀ step ∈ steps, step.Counts)
      (hsources : ∀ source ids atIndex, SessionStep.importFrom source ids atIndex ∈ steps →
        Reachable source) : Reachable (start.run steps)

theorem Bound.step {d : PdfDocument} (h : Bound d) {step : SessionStep} (hcounts : step.Counts)
    (hsource : ∀ source ids atIndex, step = .importFrom source ids atIndex → Bound source) :
    Bound (d.step step) := by
  have hsettled := h.settled.step hcounts
  have hsame : ∀ d', d' = d → Bound d' := by
    rintro d' rfl
    exact h
  cases step with
  | remove id => exact (removePage_cases d id).elim (hsame _) fun hmoved => hmoved.bound h
  | restore id atIndex =>
    exact (restorePage_cases d id atIndex).elim (hsame _) fun hmoved => hmoved.bound h
  | move id toIndex => exact (movePage_cases d id toIndex).elim (hsame _) fun hmoved => hmoved.bound h
  | rotate id rotation =>
    exact (setRotation_cases d id rotation).elim (hsame _) fun hturned => hturned.bound h
  | insert atIndex size =>
    exact (insertPage_cases d atIndex size).elim (hsame _) fun hinserted => hinserted.bound h
  | importFrom source ids atIndex =>
    have hbound := hsource source ids atIndex rfl
    exact importPages_bound h (fun slot hslot object hobject hdict =>
      hbound.page_view (List.mem_append_left _ hslot) hobject hdict) ids atIndex
  | importPortable sourceId pages atIndex => exact importPortable_bound h sourceId pages atIndex
  | saveIncremental env => exact saveIncremental_preserves env h h.materialize
  | saveCompacted env =>
    refine saveCompacted_preserves env h h.materialize fun d₁ file _ _ hparse hrebased => ?_
    exact hrebased.bound hsettled (hcounts _ _ hparse)

theorem Bound.run {d : PdfDocument} (h : Bound d) {steps : List SessionStep}
    (hcounts : ∀ step ∈ steps, step.Counts)
    (hsources : ∀ source ids atIndex, SessionStep.importFrom source ids atIndex ∈ steps →
      Bound source) : Bound (d.run steps) := by
  induction steps generalizing d with
  | nil => exact h
  | cons step steps ih =>
    refine ih (h.step (hcounts step List.mem_cons_self) ?_)
      (fun later hlater => hcounts later (List.mem_cons_of_mem _ hlater))
      fun source ids atIndex hmem => hsources source ids atIndex (List.mem_cons_of_mem _ hmem)
    rintro source ids atIndex rfl
    exact hsources source ids atIndex List.mem_cons_self

theorem Reachable.bound {d : PdfDocument} (h : Reachable d) : Bound d := by
  induction h with
  | run hstart hcounts _ ih => exact hstart.bound.run hcounts ih

end PdfDocument
end OpdfEditor
