import OpdfEditor.PdfImport
import OpdfEditor.PdfMaterialize

/-!
Whole sessions over one PDF document: every edit and save, what each of them can
do to the slots and the objects behind them, and what holds of every document a
session leads to.
-/
namespace OpdfEditor

/-- One call on a document. An import brings the document it copies from. -/
inductive SessionStep where
  | remove (id : PageId)
  | restore (id : PageId) (atIndex : Nat)
  | move (id : PageId) (toIndex : Nat)
  | rotate (id : PageId) (rotation : Rotation)
  | insert (atIndex : Nat) (size : PageSize)
  | importFrom (source : PdfDocument) (ids : List PageId) (atIndex : Nat)
  | importPortable (sourceId : DocumentId) (pages : PortablePages) (atIndex : Nat)
  | saveIncremental (env : SaveEnv)
  | saveCompacted (env : SaveEnv)

namespace PdfDocument

variable [Lopdf]

def step (d : PdfDocument) : SessionStep → PdfDocument
  | .remove id => (d.removePage id).2
  | .restore id atIndex => (d.restorePage id atIndex).2
  | .move id toIndex => (d.movePage id toIndex).2
  | .rotate id rotation => (d.setRotation id rotation).2
  | .insert atIndex size => (d.insertPage atIndex size).2
  | .importFrom source ids atIndex => (importPages source ids atIndex d).2
  | .importPortable sourceId pages atIndex => (importPortable sourceId pages atIndex d).2
  | .saveIncremental env => (d.saveIncremental env).2
  | .saveCompacted env => (d.saveCompacted env).2

def run (d : PdfDocument) (steps : List SessionStep) : PdfDocument := steps.foldl step d

/-! ### What each call can do -/

/-- The slots change places between the pages and the trash, and the next save rewrites the tree. -/
structure Rearranged (d d' : PdfDocument) : Prop where
  known : d'.pages.known.Perm d.pages.known
  incremental : d'.incremental = d.incremental
  rootPagesId : d'.rootPagesId = d.rootPagesId
  dirty : d'.dirty = { d.dirty with structural := true }

omit [Lopdf] in
theorem removePage_cases (d : PdfDocument) (id : PageId) :
    (d.removePage id).2 = d ∨ Rearranged d (d.removePage id).2 := by
  unfold removePage
  cases h : d.pages.removeSlot id with
  | error e => exact .inl rfl
  | ok pages => exact .inr ⟨Roster.removeSlot_known h, rfl, rfl, rfl⟩

omit [Lopdf] in
theorem restorePage_cases (d : PdfDocument) (id : PageId) (atIndex : Nat) :
    (d.restorePage id atIndex).2 = d ∨ Rearranged d (d.restorePage id atIndex).2 := by
  unfold restorePage
  cases h : d.pages.restoreSlot id atIndex with
  | error e => exact .inl rfl
  | ok pages => exact .inr ⟨Roster.restoreSlot_known h, rfl, rfl, rfl⟩

omit [Lopdf] in
theorem movePage_cases (d : PdfDocument) (id : PageId) (toIndex : Nat) :
    (d.movePage id toIndex).2 = d ∨ Rearranged d (d.movePage id toIndex).2 := by
  unfold movePage
  rcases h : d.pages.relocateSlot id toIndex with ⟨e | ⟨⟩, pages⟩
  · obtain rfl := Roster.relocateSlot_eq_error h
    exact .inl rfl
  · exact .inr ⟨Roster.relocateSlot_known h, rfl, rfl, rfl⟩

/-- One page is turned, and the next save writes it. -/
structure Turned (rotation : Rotation) (d d' : PdfDocument) : Prop where
  live : ∃ before slot after, d.pages.live = before ++ slot :: after ∧
    d'.pages.live = before ++ slot.rotate rotation :: after
  removed : d'.pages.removed = d.pages.removed
  incremental : d'.incremental = d.incremental
  rootPagesId : d'.rootPagesId = d.rootPagesId
  dirty : d'.dirty = { d.dirty with rotations := true }

omit [Lopdf] in
theorem setRotation_cases (d : PdfDocument) (id : PageId) (rotation : Rotation) :
    (d.setRotation id rotation).2 = d ∨ Turned rotation d (d.setRotation id rotation).2 := by
  unfold setRotation
  cases h : d.pages.modifySlot id (PageSlot.rotate rotation) fun _ => rfl with
  | error e => exact .inl rfl
  | ok pages =>
    obtain ⟨before, slot, after, hlive, -, hlive', hremoved', -⟩ := Roster.modifySlot_eq_ok.1 h
    exact .inr ⟨⟨before, slot, after, hlive, hlive'⟩, hremoved', rfl, rfl, rfl⟩

/-- A blank page under a fresh identifier is among the pages. -/
structure Inserted (size : PageSize) (d d' : PdfDocument) : Prop where
  live : ∃ before after, d.pages.live = before ++ after ∧ d'.pages.live =
    before ++ ⟨d.pages.next, (d.incremental.newDocument.maxId + 1, 0), size, .none, false⟩ :: after
  removed : d'.pages.removed = d.pages.removed
  incremental : d'.incremental =
    { d.incremental with
      newDocument := (buildBlankPage d.incremental.newDocument d.rootPagesId size).2 }
  rootPagesId : d'.rootPagesId = d.rootPagesId
  dirty : d'.dirty = { d.dirty with structural := true }

omit [Lopdf] in
theorem insertPage_cases (d : PdfDocument) (atIndex : Nat) (size : PageSize) :
    (d.insertPage atIndex size).2 = d ∨ Inserted size d (d.insertPage atIndex size).2 := by
  unfold insertPage
  cases hcheck : d.pages.checkInsertionIndex atIndex with
  | error e => exact .inl rfl
  | ok _ =>
    obtain ⟨pages, hpages⟩ := insertSlot_exists (checkInsertionIndex_eq_ok.1 hcheck)
      (PageSlot.make (buildBlankPage d.incremental.newDocument d.rootPagesId size).1 size .none)
      fun _ => rfl
    obtain ⟨before, after, hlive, -, -, hlive', hremoved', -⟩ := Roster.insertSlot_eq_ok.1 hpages
    simp only [hpages]
    exact .inr ⟨⟨before, after, hlive, hlive'⟩, hremoved', rfl, rfl, rfl⟩

/-- What every round of an import keeps, the import keeps as far as it goes. -/
theorem importResolved_induct {P : PdfDocument → Prop} {source : Objects} [LawfulDereference]
    {slots : List PageSlot}
    (hstep : ∀ slot ∈ slots, ∀ atIndex d id d', ImportStep source slot atIndex d id d' → P d → P d')
    {atIndex : Nat} {d : PdfDocument} (hat : atIndex ≤ d.pages.live.length) (h : P d) :
    P (importResolved source slots atIndex d).2 := by
  induction slots generalizing atIndex d with
  | nil => exact h
  | cons slot slots ih =>
    rcases importResolved_cons source slot slots d hat with ⟨hnone, heq⟩ | ⟨id, d₁, hround, heq⟩
    · have hbad : ¬ IsCopyable source slot := by
        rintro ⟨dict, hdict⟩
        obtain ⟨-, copied, after, hcopy, -⟩ :=
          copyPageInto_of_dictionary hdict d.incremental.newDocument
        rw [hcopy] at hnone
        cases hnone
      rw [heq, copyPageInto_none hbad]
      exact h
    · rw [heq]
      have hlength := hround.length
      exact ih (fun later hlater => hstep later (List.mem_cons_of_mem _ hlater)) (by omega)
        (hstep slot List.mem_cons_self _ _ _ _ hround h)

end PdfDocument

/-- The highest object number was counted when the file was parsed. -/
def LopdfDocument.Counted (file : LopdfDocument) : Prop := ∀ id ∈ file.objects, id.1 ≤ file.maxId

instance (file : LopdfDocument) : Decidable file.Counted :=
  decidable_of_iff (∀ id ∈ file.objects.keys, id.1 ≤ file.maxId)
    (forall_congr' fun id => by rw [Finmap.mem_keys])

/-- A file read back in has its object numbers counted. -/
def SaveEnv.Counts (env : SaveEnv) : Prop :=
  ∀ file file', env.parse file = .ok file' → file'.Counted

/-- What is relied on of a call: files it reads back have their object numbers counted. -/
def SessionStep.Counts : SessionStep → Prop
  | .saveIncremental env | .saveCompacted env => env.Counts
  | _ => True

namespace PdfDocument

/-! ### Identifiers stay settled -/

/-- Objects numbered so far stay, and what is newly named is a dictionary. -/
theorem Settled.grow {d d' : PdfDocument} (h : d.Settled)
    (hmaxId : d.incremental.newDocument.maxId ≤ d'.incremental.newDocument.maxId)
    (hold : ∀ id : ObjectId, id.1 ≤ d.incremental.newDocument.maxId →
      d'.incremental.newDocument.objects.lookup id = d.incremental.newDocument.objects.lookup id)
    (hnames : ∀ id, d'.Names id → d.Names id ∨ id.1 ≤ d'.incremental.newDocument.maxId ∧
      ∃ dict, d'.incremental.newDocument.objects.lookup id = some (.dictionary dict)) :
    d'.Settled := by
  refine ⟨fun id hid => ?_, fun id hid object hobject => ?_⟩
  · rcases hnames id hid with hold | ⟨hbound, -⟩
    · exact (h.bounded id hold).trans hmaxId
    · exact hbound
  · rcases hnames id hid with hnamed | ⟨-, dict, hdict⟩
    · rw [hold id (h.bounded id hnamed)] at hobject
      exact h.settled id hnamed object hobject
    · rw [hdict] at hobject
      cases hobject
      rfl

theorem Settled.of_same {d d' : PdfDocument} (h : d.Settled)
    (hincremental : d'.incremental = d.incremental) (hnames : ∀ id, d'.Names id → d.Names id) :
    d'.Settled := by
  refine h.grow ?_ ?_ fun id hid => .inl (hnames id hid)
  · rw [hincremental]
  · intro id _
    rw [hincremental]

theorem Rearranged.settled {d d' : PdfDocument} (hd : d.Settled) (h : Rearranged d d') :
    d'.Settled := by
  refine hd.of_same h.incremental fun id hid => ?_
  rcases hid with hroot | ⟨slot, hslot, rfl⟩
  · exact .inl (hroot.trans h.rootPagesId)
  · exact .inr ⟨slot, h.known.mem_iff.1 hslot, rfl⟩

/-- Turning a page leaves the objects behind the slots. -/
theorem Turned.known {rotation : Rotation} {d d' : PdfDocument} (h : Turned rotation d d') :
    ∀ slot ∈ d'.pages.known, ∃ old ∈ d.pages.known, old.objectId = slot.objectId := by
  intro slot hslot
  obtain ⟨before, turned, after, hlive, hlive'⟩ := h.live
  simp only [Roster.known, hlive, hlive', h.removed, List.append_assoc, List.cons_append,
    List.mem_append, List.mem_cons] at hslot ⊢
  rcases hslot with hslot | rfl | hslot
  · exact ⟨slot, .inl hslot, rfl⟩
  · exact ⟨turned, .inr (.inl rfl), rfl⟩
  · exact ⟨slot, .inr (.inr hslot), rfl⟩

theorem Turned.settled {rotation : Rotation} {d d' : PdfDocument} (hd : d.Settled)
    (h : Turned rotation d d') : d'.Settled := by
  refine hd.of_same h.incremental fun id hid => ?_
  rcases hid with hroot | ⟨slot, hslot, rfl⟩
  · exact .inl (hroot.trans h.rootPagesId)
  · exact .inr (h.known slot hslot)

/-- What is known after a slot was put between two others. -/
theorem names_of_insert {d d' : PdfDocument} {before after : List PageSlot} {added : PageSlot}
    (hroot : d'.rootPagesId = d.rootPagesId) (hremoved : d'.pages.removed = d.pages.removed)
    (hlive : d.pages.live = before ++ after) (hlive' : d'.pages.live = before ++ added :: after)
    {id : ObjectId} (h : d'.Names id) : d.Names id ∨ id = added.objectId := by
  rcases h with rfl | ⟨slot, hslot, rfl⟩
  · exact .inl (.inl hroot)
  · simp only [Roster.known, hlive', hremoved, List.append_assoc, List.cons_append,
      List.mem_append, List.mem_cons] at hslot
    rcases hslot with hslot | rfl | hslot
    · exact .inl (.inr ⟨slot, by simp [Roster.known, hlive, hslot], rfl⟩)
    · exact .inr rfl
    · exact .inl (.inr ⟨slot, by
        rcases hslot with hslot | hslot <;> simp [Roster.known, hlive, hslot], rfl⟩)

theorem Inserted.settled {size : PageSize} {d d' : PdfDocument} (hd : d.Settled)
    (h : Inserted size d d') : d'.Settled := by
  obtain ⟨before, after, hlive, hlive'⟩ := h.live
  refine hd.grow ?_ ?_ ?_
  · rw [h.incremental]
    exact Nat.le_succ _
  · intro id hid
    rw [h.incremental]
    refine Finmap.lookup_insert_of_ne _ fun heq => ?_
    rw [heq] at hid
    exact Nat.not_succ_le_self _ hid
  · intro id hid
    rcases names_of_insert h.rootPagesId h.removed hlive hlive' hid with hid | rfl
    · exact .inl hid
    · refine .inr ⟨?_, blankPageDictionary d.rootPagesId size, ?_⟩
      · rw [h.incremental]
        exact Nat.le_refl _
      · rw [h.incremental]
        exact Finmap.lookup_insert _

variable [Lopdf]

/-- One round of an import copies its page under what pass one numbers next. -/
theorem ImportStep.copies_next [LawfulDereference] {source : Objects} {slot : PageSlot} {atIndex : Nat}
    {d d₁ : PdfDocument} {id : PageId} (h : ImportStep source slot atIndex d id d₁) :
    ∃ dict copied before after, source.lookup slot.objectId = some (.dictionary dict) ∧
      Copied source slot.objectId dict d.incremental.newDocument
        (copyMapping source slot.objectId d.incremental.newDocument).1 copied
        d₁.incremental.newDocument ∧
      d.pages.live = before ++ after ∧ before.length = atIndex ∧
      d₁.pages.live = before ++ ⟨d.pages.next, copied, slot.size, slot.rotation, true⟩ :: after := by
  obtain ⟨dict, hdict⟩ := isCopyable_of_step h
  obtain ⟨copied, target, hcopy, before, after, hlive, hlength, hlive', hnew⟩ := h.copied
  obtain ⟨copied', target', hcopy', hcopied⟩ := copyPageInto_copied hdict d.incremental.newDocument
  rw [hcopy] at hcopy'
  cases hcopy'
  exact ⟨dict, copied, before, after, hdict, hnew ▸ hcopied, hlive, hlength, hlive'⟩

/-- What one round of an import adds to the target: objects under fresh identifiers, the copied
page among them. -/
theorem ImportStep.copies [LawfulDereference] {source : Objects} {slot : PageSlot} {atIndex : Nat}
    {d d₁ : PdfDocument} {id : PageId} (h : ImportStep source slot atIndex d id d₁) :
    ∃ dict mapping copied before after, source.lookup slot.objectId = some (.dictionary dict) ∧
      Copied source slot.objectId dict d.incremental.newDocument mapping copied
        d₁.incremental.newDocument ∧
      d.pages.live = before ++ after ∧
      d₁.pages.live = before ++ ⟨d.pages.next, copied, slot.size, slot.rotation, true⟩ :: after := by
  obtain ⟨dict, copied, before, after, hdict, hcopied, hlive, -, hlive'⟩ := h.copies_next
  exact ⟨dict, _, copied, before, after, hdict, hcopied, hlive, hlive'⟩

theorem ImportStep.settled [LawfulDereference] {source : Objects} {slot : PageSlot} {atIndex : Nat}
    {d d₁ : PdfDocument} {id : PageId} (h : ImportStep source slot atIndex d id d₁)
    (hd : d.Settled) : d₁.Settled := by
  obtain ⟨dict, mapping, copied, before, after, -, hcopied, hlive, hlive'⟩ := h.copies
  obtain ⟨numbered, hassigned, hmaxId⟩ := hcopied.assigned
  have hnumbered := hassigned.numbered
  refine hd.grow ?_ ?_ ?_
  · rw [hmaxId]
    exact hnumbered.maxId
  · intro id hid
    refine hcopied.other id fun hmem => ?_
    have := (hnumbered.fresh id hmem).2.1
    omega
  · intro id hid
    rcases names_of_insert h.keeps.rootPagesId h.keeps.removed hlive hlive' hid with hid | rfl
    · exact .inl hid
    · refine .inr ⟨?_, _, hcopied.detached⟩
      rw [hmaxId]
      exact (hnumbered.fresh id (List.mem_map.2 ⟨_, hcopied.entry, rfl⟩)).2.2

/-- An import that gets past its checks leaves what its rounds leave. -/
theorem importPages_cases (source : PdfDocument) (ids : List PageId) (atIndex : Nat)
    (d : PdfDocument) :
    (importPages source ids atIndex d).2 = d ∨
    ∃ slots dirty revision, atIndex ≤ d.pages.live.length ∧
      ids.mapM source.pages.findSlot = .ok slots ∧ (importPages source ids atIndex d).2 =
        { (importResolved source.view slots atIndex d).2 with dirty, revision } := by
  unfold importPages
  cases hcheck : d.pages.checkInsertionIndex atIndex with
  | error e => exact .inl rfl
  | ok _ =>
    cases hresolve : ids.mapM source.pages.findSlot with
    | error e => exact .inl rfl
    | ok slots =>
      refine .inr ⟨slots, ?_⟩
      dsimp only
      rcases importResolved source.view slots atIndex d with ⟨e | imported, d'⟩
      · exact ⟨_, _, checkInsertionIndex_eq_ok.1 hcheck, rfl, rfl⟩
      · exact ⟨_, _, checkInsertionIndex_eq_ok.1 hcheck, rfl, rfl⟩

theorem importPages_settled [LawfulDereference] {d : PdfDocument} (h : d.Settled)
    (source : PdfDocument) (ids : List PageId) (atIndex : Nat) :
    (importPages source ids atIndex d).2.Settled := by
  rcases importPages_cases source ids atIndex d with hsame | ⟨slots, dirty, revision, hat, -, heq⟩
  · rwa [hsame]
  · rw [heq]
    have hresolved : (importResolved source.view slots atIndex d).2.Settled :=
      importResolved_induct (fun _ _ _ _ _ _ hround => hround.settled) hat h
    exact hresolved.of_same rfl fun _ hid => hid

theorem importPortable_settled [LawfulDereference] {d : PdfDocument} (h : d.Settled)
    (sourceId : DocumentId) (pages : PortablePages) (atIndex : Nat) :
    (importPortable sourceId pages atIndex d).2.Settled := by
  unfold importPortable
  split
  · exact h
  split
  · exact h
  · exact h.of_same rfl fun _ hid => hid
  split
  · exact h
  · exact importPages_settled h _ _ _

/-! ### Saving -/

/-- The document continued from a file it was compacted into. -/
structure Rebased (file : LopdfDocument) (d d' : PdfDocument) : Prop where
  root : readRootPagesId file = .ok d'.rootPagesId
  length : (Lopdf.pageIter file).length = d.pages.live.length
  live : d'.pages.live = List.zipWith rebindSlot d.pages.live (Lopdf.pageIter file)
  removed : d'.pages.removed = []
  incremental : d'.incremental = announceVersion (IncrementalDocument.load file)
  dirty : d'.dirty = .clean

/-- A compaction that succeeds, taken apart. -/
theorem saveCompacted_ok {env : SaveEnv} {d d' : PdfDocument} {written : LopdfDocument}
    (h : d.saveCompacted env = (.ok written, d')) :
    ∃ d₁ file, d.pages.live.length ≠ 0 ∧ d.materializeChanges = (.ok (), d₁) ∧
      written = d₁.buildCompactedDocument ∧ env.parse written = .ok file ∧ Rebased file d₁ d' := by
  unfold saveCompacted at h
  split at h
  · cases h
  rename_i hpages
  split at h
  · cases h
  rename_i d₁ hm
  dsimp only at h
  split at h
  · cases h
  split at h
  · cases h
  split at h
  · cases h
  rename_i d₂ hrebase
  cases h
  unfold rebaseOnto at hrebase
  split at hrebase
  · cases hrebase
  rename_i file hparse
  split at hrebase
  · cases hrebase
  rename_i root hroot
  split at hrebase
  · cases hrebase
  rename_i pages hpages'
  cases hrebase
  unfold rebindObjects at hpages'
  split at hpages'
  · rename_i hlength
    cases hpages'
    exact ⟨d₁, file, hpages, hm, rfl, hparse, hroot, hlength, rfl, rfl, rfl, rfl⟩
  · cases hpages'

/-- An incremental save keeps what holds of the document and of it with its changes written. -/
theorem saveIncremental_preserves {P : PdfDocument → Prop} {d : PdfDocument} (env : SaveEnv) (h : P d)
    (hwritten : P (d.materializeChanges).2) : P (d.saveIncremental env).2 := by
  rcases saveIncremental_cases env d with heq | heq
  · rwa [heq]
  · rwa [heq]

/-- So does a compaction, if it holds of the document rebased onto the file written, too. -/
theorem saveCompacted_preserves {P : PdfDocument → Prop} {d : PdfDocument} (env : SaveEnv) (h : P d)
    (hwritten : P (d.materializeChanges).2)
    (hrebased : ∀ d₁ file, d.pages.live.length ≠ 0 → d.materializeChanges = (.ok (), d₁) →
      env.parse d₁.buildCompactedDocument = .ok file → Rebased file d₁ (d.saveCompacted env).2 →
      P (d.saveCompacted env).2) : P (d.saveCompacted env).2 := by
  rcases saveCompacted_cases env d with heq | heq | ⟨written, hok⟩
  · rwa [heq]
  · rwa [heq]
  · obtain ⟨d₁, file, hpages, hm, rfl, hparse, hrebase⟩ :=
      saveCompacted_ok (Prod.ext hok rfl : d.saveCompacted env = (.ok written, _))
    exact hrebased d₁ file hpages hm hparse hrebase

theorem materializeChanges_settled [LawfulDereference] {d : PdfDocument} (h : d.Settled) :
    (d.materializeChanges).2.Settled := by
  have htouched := materializeChanges_touched h
  have hkeeps := d.materializeChanges_keeps
  have hnames : ∀ id, (d.materializeChanges).2.Names id → d.Names id := by
    intro id hid
    rw [hkeeps] at hid
    exact hid
  refine ⟨fun id hid => ?_, fun id hid => htouched.settled (h.settled id (hnames id hid))⟩
  rw [htouched.fields]
  exact h.bounded id (hnames id hid)

/-- Nothing is appended yet, and every page is an object of the file. -/
theorem settled_of_load [LawfulLopdf] {file : LopdfDocument} {d : PdfDocument}
    (hcounted : file.Counted) (hroot : readRootPagesId file = .ok d.rootPagesId)
    (hlive : ∀ slot ∈ d.pages.live, slot.objectId ∈ Lopdf.pageIter file)
    (hpages : d.pages.live ≠ []) (hremoved : d.pages.removed = [])
    (hincremental : d.incremental = announceVersion (IncrementalDocument.load file)) :
    d.Settled := by
  have hbounded : ∀ id, d.Names id → id ∈ file.objects := by
    rintro id (rfl | ⟨slot, hslot, rfl⟩)
    · obtain ⟨slot, hslot⟩ := List.exists_mem_of_ne_nil _ hpages
      obtain ⟨catalog, root, hcatalog, hnode, hmem⟩ := LawfulLopdf.pageIter_root (hlive slot hslot)
      simp only [readRootPagesId, hcatalog, hnode, Option.bind_some, Object.asReference,
        Except.ok.injEq] at hroot
      exact hroot ▸ hmem
    · rw [Roster.known, hremoved, List.append_nil] at hslot
      exact LawfulLopdf.pageIter_mem (hlive slot hslot)
  refine ⟨fun id hid => ?_, fun id _ object hobject => ?_⟩
  · rw [hincremental]
    exact hcounted id (hbounded id hid)
  · rw [hincremental] at hobject
    cases hobject

/-- Every slot is bound to a page of the file. -/
theorem Rebased.listed {file : LopdfDocument} {d d' : PdfDocument} (h : Rebased file d d')
    {slot : PageSlot} (hslot : slot ∈ d'.pages.live) : slot.objectId ∈ Lopdf.pageIter file := by
  rw [h.live] at hslot
  obtain ⟨index, hindex⟩ := List.getElem?_of_mem hslot
  obtain ⟨old, id, -, hid, rfl⟩ := List.getElem?_zipWith_eq_some.1 hindex
  exact List.mem_of_getElem? hid

theorem Rebased.settled [LawfulLopdf] {file : LopdfDocument} {d d' : PdfDocument}
    (h : Rebased file d d') (hcounted : file.Counted) (hpages : d.pages.live ≠ []) :
    d'.Settled := by
  refine settled_of_load hcounted h.root (fun slot hslot => h.listed hslot) ?_ h.removed
    h.incremental
  intro hnil
  have hlength := congrArg List.length (h.live.symm.trans hnil)
  have hpos := List.length_pos_iff.2 hpages
  simp only [List.length_zipWith, List.length_nil, h.length] at hlength
  omega

/-- The slots of a freshly parsed document, their identities apart. -/
theorem readPages_live (previous : LopdfDocument) :
    (readPages previous).removed = [] ∧
    (readPages previous).live.map (fun slot => { slot with id := 0 }) =
      (Lopdf.pageIter previous).map fun objectId =>
        PageSlot.make objectId (readPageSize previous.objects objectId)
          (readPageRotation previous.objects objectId) 0 := by
  unfold readPages
  induction Lopdf.pageIter previous using List.reverseRecOn with
  | nil => exact ⟨rfl, rfl⟩
  | append_singleton ids id ih =>
    rw [List.foldl_append]
    refine ⟨ih.1, ?_⟩
    rw [List.map_append, ← ih.2]
    exact List.map_append

/-- A document freshly opened, taken apart. -/
theorem load_eq_ok {id : DocumentId} {file : LopdfDocument} {d : PdfDocument}
    (h : load id file = .ok d) :
    readRootPagesId file = .ok d.rootPagesId ∧ d.pages = readPages file ∧ d.pages.live ≠ [] ∧
      d.incremental = announceVersion (IncrementalDocument.load file) ∧ d.dirty = .clean := by
  unfold load buildFromIncremental at h
  split at h
  · cases h
  rename_i root hroot
  dsimp only at h
  split at h
  · cases h
  rename_i hpages
  cases h
  exact ⟨hroot, rfl, fun hnil => hpages (by rw [IncrementalDocument.load]; exact congrArg List.length hnil),
    rfl, rfl⟩

/-- Every slot of a document freshly opened names a page of the file. -/
theorem listed_load {id : DocumentId} {file : LopdfDocument} {d : PdfDocument}
    (h : load id file = .ok d) : d.pages.removed = [] ∧
      ∀ slot ∈ d.pages.live, slot.objectId ∈ Lopdf.pageIter file := by
  obtain ⟨-, hpages, -, -, -⟩ := load_eq_ok h
  obtain ⟨hremoved, hlive⟩ := readPages_live file
  rw [← hpages] at hremoved hlive
  refine ⟨hremoved, fun slot hslot => ?_⟩
  have hmem := List.mem_map_of_mem (f := fun slot : PageSlot => { slot with id := 0 }) hslot
  rw [hlive] at hmem
  obtain ⟨objectId, hobjectId, heq⟩ := List.mem_map.1 hmem
  exact congrArg PageSlot.objectId heq ▸ hobjectId

theorem settled_load [LawfulLopdf] {id : DocumentId} {file : LopdfDocument} {d : PdfDocument}
    (h : load id file = .ok d) (hcounted : file.Counted) : d.Settled := by
  obtain ⟨hroot, -, hne, hincremental, -⟩ := load_eq_ok h
  obtain ⟨hremoved, hlisted⟩ := listed_load h
  exact settled_of_load hcounted hroot hlisted hne hremoved hincremental

theorem Settled.step [LawfulLopdf] {d : PdfDocument} (h : d.Settled) {step : SessionStep}
    (hstep : step.Counts) : (d.step step).Settled := by
  cases step with
  | remove id =>
    rcases removePage_cases d id with hsame | hmoved
    · rwa [PdfDocument.step, hsame]
    · exact hmoved.settled h
  | restore id atIndex =>
    rcases restorePage_cases d id atIndex with hsame | hmoved
    · rwa [PdfDocument.step, hsame]
    · exact hmoved.settled h
  | move id toIndex =>
    rcases movePage_cases d id toIndex with hsame | hmoved
    · rwa [PdfDocument.step, hsame]
    · exact hmoved.settled h
  | rotate id rotation =>
    rcases setRotation_cases d id rotation with hsame | hturned
    · rwa [PdfDocument.step, hsame]
    · exact hturned.settled h
  | insert atIndex size =>
    rcases insertPage_cases d atIndex size with hsame | hinserted
    · rwa [PdfDocument.step, hsame]
    · exact hinserted.settled h
  | importFrom source ids atIndex => exact importPages_settled h source ids atIndex
  | importPortable sourceId pages atIndex => exact importPortable_settled h sourceId pages atIndex
  | saveIncremental env => exact saveIncremental_preserves env h (materializeChanges_settled h)
  | saveCompacted env =>
    refine saveCompacted_preserves env h (materializeChanges_settled h) ?_
    intro d₁ file hpages hm hparse hrebased
    refine hrebased.settled (hstep _ _ hparse) ?_
    have hkeeps : d₁ = { d with incremental := d₁.incremental } := by
      simpa only [hm] using d.materializeChanges_keeps
    rw [hkeeps]
    exact fun hnil => hpages (congrArg List.length hnil)

/-- Every document a session leads to keeps its identifiers settled. -/
theorem Settled.run [LawfulLopdf] {d : PdfDocument} (h : d.Settled) {steps : List SessionStep}
    (hsteps : ∀ step ∈ steps, step.Counts) : (d.run steps).Settled := by
  induction steps generalizing d with
  | nil => exact h
  | cons step steps ih =>
    exact ih (h.step (hsteps step List.mem_cons_self)) fun later hlater =>
      hsteps later (List.mem_cons_of_mem _ hlater)

end PdfDocument
end OpdfEditor
