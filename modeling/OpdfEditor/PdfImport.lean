import OpdfEditor.PdfDocument
import OpdfEditor.ObjectGraph

/-!
The PDF document satisfies the document laws where its operations succeed. An import
that fails changes nothing unless a page that can be copied is followed by one that
cannot.
-/
namespace OpdfEditor
namespace PdfDocument

variable [Lopdf]

/-- What an import never touches, whether or not it succeeds. -/
structure ImportKeeps (d d' : PdfDocument) : Prop where
  id : d'.id = d.id
  revision : d'.revision = d.revision
  dirty : d'.dirty = d.dirty
  rootPagesId : d'.rootPagesId = d.rootPagesId
  previous : d'.incremental.previous = d.incremental.previous
  removed : d'.pages.removed = d.pages.removed

omit [Lopdf] in
theorem ImportKeeps.refl (d : PdfDocument) : ImportKeeps d d := ⟨rfl, rfl, rfl, rfl, rfl, rfl⟩

omit [Lopdf] in
theorem ImportKeeps.trans {d e f : PdfDocument} (h : ImportKeeps d e) (h' : ImportKeeps e f) :
    ImportKeeps d f :=
  ⟨h'.id.trans h.id, h'.revision.trans h.revision, h'.dirty.trans h.dirty,
    h'.rootPagesId.trans h.rootPagesId, h'.previous.trans h.previous, h'.removed.trans h.removed⟩

/-- One round of an import: the page is copied and its slot inserted, marked for the next save. -/
structure ImportStep (source : Objects) (slot : PageSlot) (atIndex : Nat) (d : PdfDocument)
    (id : PageId) (d₁ : PdfDocument) : Prop where
  copied : ∃ copied target, copyPageInto source slot.objectId d.incremental.newDocument =
      (some copied, target) ∧
    ∃ before after, d.pages.live = before ++ after ∧ before.length = atIndex ∧
      d₁.pages.live = before ++ ⟨d.pages.next, copied, slot.size, slot.rotation, true⟩ :: after ∧
      d₁.incremental.newDocument = target
  id : id = d.pages.next
  next : d₁.pages.next = d.pages.next + 1
  keeps : ImportKeeps d d₁

omit [Lopdf] in
/-- The slot that was just inserted is there to be marked. -/
theorem markRotated_insertSlot {r r₁ : PageMap} {atIndex : Nat} {make : PageId → PageSlot}
    {hmake : ∀ id, pageId (make id) = id} {id : PageId}
    (h : r.insertSlot atIndex make hmake = .ok (id, r₁)) :
    ∃ r₂, r₁.modifySlot id PageSlot.markRotated (fun _ => rfl) = .ok r₂ ∧
      ∃ before after, r.live = before ++ after ∧ before.length = atIndex ∧ id = r.next ∧
        r₂.live = before ++ (make r.next).markRotated :: after ∧ r₂.removed = r.removed ∧
        r₂.next = r.next + 1 := by
  obtain ⟨before, after, hl, hlen, rfl, hlive, hremoved, hnext⟩ := Roster.insertSlot_eq_ok.1 h
  obtain ⟨r₂, hr₂⟩ : ∃ r₂, r₁.modifySlot r.next PageSlot.markRotated (fun _ => rfl) = .ok r₂ := by
    unfold Roster.modifySlot
    split
    · rename_i hnone
      exact absurd (hmake _) (Roster.position_eq_none.1 hnone (make r.next) (by simp [hlive]))
    · exact ⟨_, rfl⟩
  obtain ⟨before', slot, after', hl', hid, hlive', hremoved', hnext'⟩ := Roster.modifySlot_eq_ok.1 hr₂
  obtain ⟨rfl, rfl, rfl⟩ := Roster.split_unique (hlive ▸ r₁.live_nodup) (hlive.symm.trans hl')
    ((hmake _).trans hid.symm)
  exact ⟨r₂, hr₂, before, after, hl, hlen, rfl, hlive', hremoved'.trans hremoved,
    hnext'.trans hnext⟩

omit [Lopdf] in
theorem insertSlot_exists {r : PageMap} {atIndex : Nat} (hat : atIndex ≤ r.live.length)
    (make : PageId → PageSlot) (hmake : ∀ id, pageId (make id) = id) :
    ∃ r', r.insertSlot atIndex make hmake = .ok (r.next, r') := by
  unfold Roster.insertSlot
  rw [dif_neg (by omega)]
  exact ⟨_, rfl⟩

/-- A round either fails to copy the page, or inserts it and goes on with the rest. -/
theorem importResolved_cons (source : Objects) (slot : PageSlot) (slots : List PageSlot)
    {atIndex : Nat} (d : PdfDocument) (hat : atIndex ≤ d.pages.live.length) :
    ((copyPageInto source slot.objectId d.incremental.newDocument).1 = none ∧
      importResolved source (slot :: slots) atIndex d =
        (.error (.malformed s!"source page object {slot.objectId} could not be copied"),
          d.withTarget (copyPageInto source slot.objectId d.incremental.newDocument).2)) ∨
    ∃ id d₁, ImportStep source slot atIndex d id d₁ ∧
      importResolved source (slot :: slots) atIndex d =
        ((importResolved source slots (atIndex + 1) d₁).1.map (id :: ·),
          (importResolved source slots (atIndex + 1) d₁).2) := by
  rcases hcopy : copyPageInto source slot.objectId d.incremental.newDocument with ⟨_ | copied, target⟩
  · exact .inl ⟨rfl, by simp [importResolved, hcopy]⟩
  refine .inr ?_
  obtain ⟨r₁, hr₁⟩ := insertSlot_exists hat (PageSlot.make copied slot.size slot.rotation) fun _ => rfl
  obtain ⟨r₂, hr₂, before, after, hl, hlen, -, hlive, hremoved, hnext⟩ := markRotated_insertSlot hr₁
  refine ⟨d.pages.next, { d.withTarget target with pages := r₂ },
    ⟨⟨copied, target, hcopy, before, after, hl, hlen, hlive, rfl⟩, rfl, hnext,
      ⟨rfl, rfl, rfl, rfl, rfl, hremoved⟩⟩, ?_⟩
  simp only [importResolved, hcopy, hr₁, hr₂]
  rcases importResolved source slots (atIndex + 1) { d.withTarget target with pages := r₂ } with
    ⟨e | ids, d'⟩ <;> rfl

theorem ImportStep.length {source : Objects} {slot : PageSlot} {atIndex : Nat} {d d₁ : PdfDocument}
    {id : PageId} (h : ImportStep source slot atIndex d id d₁) :
    d₁.pages.live.length = d.pages.live.length + 1 ∧ atIndex ≤ d.pages.live.length := by
  obtain ⟨copied, target, -, before, after, hl, hlen, hlive, -⟩ := h.copied
  simp only [hl, hlive, List.length_append, List.length_cons]
  omega

theorem importResolved_keeps (source : Objects) (slots : List PageSlot) {atIndex : Nat}
    (d : PdfDocument) (hat : atIndex ≤ d.pages.live.length) :
    ImportKeeps d (importResolved source slots atIndex d).2 := by
  induction slots generalizing atIndex d with
  | nil => exact .refl _
  | cons slot slots ih =>
    rcases importResolved_cons source slot slots d hat with ⟨-, h⟩ | ⟨id, d₁, hstep, h⟩
    · rw [h]
      exact ⟨rfl, rfl, rfl, rfl, rfl, rfl⟩
    · rw [h]
      have hlen := hstep.length
      exact hstep.keeps.trans (ih d₁ (by omega))

/-- A successful import inserts the pages it resolved side by side under fresh identities. -/
theorem importResolved_ok {source : Objects} {slots : List PageSlot} {atIndex : Nat}
    {d d' : PdfDocument} {ids : List PageId} (hat : atIndex ≤ d.pages.live.length)
    (h : importResolved source slots atIndex d = (.ok ids, d')) :
    d.pages.infos.insertEach PageInfo.withId (fun _ _ => rfl) (slots.map PageSlot.info) atIndex =
      .ok (ids, d'.pages.infos) := by
  induction slots generalizing atIndex d ids with
  | nil =>
    cases h
    rfl
  | cons slot slots ih =>
    rcases importResolved_cons source slot slots d hat with ⟨-, h'⟩ | ⟨id, d₁, hstep, h'⟩
    · rw [h'] at h
      cases h
    · rw [h'] at h
      rcases hrest : importResolved source slots (atIndex + 1) d₁ with ⟨e | rest, d₂⟩
      · simp [hrest, Except.map] at h
      · simp only [hrest, Except.map, Prod.mk.injEq, Except.ok.injEq] at h
        obtain ⟨rfl, rfl⟩ := h
        have hlen := hstep.length
        have hinsert : d.pages.infos.insertSlot atIndex (PageInfo.withId slot.info) (fun _ => rfl) =
            .ok (id, d₁.pages.infos) := by
          obtain ⟨copied, target, -, before, after, hl, hlen', hlive, -⟩ := hstep.copied
          refine Roster.insertSlot_eq_ok.2 ⟨before.map PageSlot.info, after.map PageSlot.info,
            by simp [hl], by simp [hlen'], hstep.id, ?_, ?_, hstep.next⟩
          · simp [hlive, PageSlot.info, PageInfo.withId]
          · simp [hstep.keeps.removed]
        simp only [List.map_cons, Roster.insertEach, hinsert, ih (by omega) hrest]

theorem mapM_page {d : PdfDocument} {ids : List PageId} {slots : List PageSlot}
    (h : ids.mapM d.pages.findSlot = .ok slots) :
    ids.mapM (Document.page · d) = .ok (slots.map PageSlot.info) := by
  induction ids generalizing slots with
  | nil =>
    cases h
    rfl
  | cons id ids ih =>
    rw [List.mapM_cons] at h ⊢
    cases hslot : d.pages.findSlot id with
    | error e => simp [hslot, bind, Except.bind] at h
    | ok slot =>
      cases hrest : ids.mapM d.pages.findSlot with
      | error e => simp [hslot, hrest, bind, Except.bind] at h
      | ok rest =>
        simp only [hslot, hrest, bind, Except.bind, pure, Except.pure, Except.ok.injEq] at h
        subst h
        have hpage : Document.page id d = .ok slot.info := by
          simp [Document.page, page, hslot, Except.map]
        rw [hpage, ih hrest]
        rfl

omit [Lopdf] in
theorem checkInsertionIndex_beyond {σ : Type} [HasPageId σ] {r : Roster σ} {index : Nat}
    (h : ¬ index ≤ r.live.length) :
    r.checkInsertionIndex index = .error (.indexOutOfBounds index r.live.length) := by
  unfold Roster.checkInsertionIndex
  rw [if_pos (by omega)]

omit [Lopdf] in
theorem checkInsertionIndex_eq_ok {σ : Type} [HasPageId σ] {r : Roster σ} {index : Nat} :
    r.checkInsertionIndex index = .ok () ↔ index ≤ r.live.length := by
  unfold Roster.checkInsertionIndex
  split
  · simp
    omega
  · simp
    omega

/-- A successful import, taken apart. -/
theorem importPages_eq_ok {source d d' : PdfDocument} {ids newIds : List PageId} {atIndex : Nat}
    (h : importPages source ids atIndex d = (.ok newIds, d')) :
    ∃ slots d₁, atIndex ≤ d.pages.live.length ∧ ids.mapM source.pages.findSlot = .ok slots ∧
      importResolved source.view slots atIndex d = (.ok newIds, d₁) ∧
      d' = { d₁ with
        dirty := if newIds.isEmpty then d₁.dirty else ⟨true, true⟩
        revision := d₁.revision + 1 } := by
  unfold importPages at h
  split at h
  · cases h
  rename_i hcheck
  split at h
  · cases h
  rename_i slots hslots
  split at h
  · cases h
  rename_i imported d₁ himport
  cases h
  exact ⟨slots, d₁, checkInsertionIndex_eq_ok.1 hcheck, hslots, himport, rfl⟩

/-- A document over a real file obeys the document laws. -/
instance : LawfulDocument PdfDocument where
  roster d := d.pages.infos
  pageCount_eq d := by simp [Document.pageCount]
  pageIds_eq d := by simp [Document.pageIds]
  page_eq id d := by simp [Document.page, page, Roster.infos_findSlot]
  indexOf_eq id d := by simp [Document.indexOf]
  removePage_spec id d := by
    rw [Roster.infos_removeSlot]
    cases h : d.pages.removeSlot id <;>
      simp [Mutates, Document.removePage, Document.revision, Document.id, removePage, h, Except.map,
        commitStructure]
  restorePage_spec id atIndex d := by
    rw [Roster.infos_restoreSlot]
    cases h : d.pages.restoreSlot id atIndex <;>
      simp [Mutates, Document.restorePage, Document.revision, Document.id, restorePage, h, Except.map,
        commitStructure]
  movePage_spec id toIndex d := by
    rw [Roster.infos_relocateSlot]
    rcases h : d.pages.relocateSlot id toIndex with ⟨e | ⟨⟩, r⟩
    · have hsame := Roster.relocateSlot_eq_error h
      subst hsame
      simp [Mutates, Document.movePage, movePage, h, Except.map]
    · simp [Mutates, Document.movePage, Document.revision, Document.id, movePage, h, Except.map,
        commitStructure]
  setRotation_spec id rotation d := by
    rw [Roster.infos_rotate]
    cases h : d.pages.modifySlot id (PageSlot.rotate rotation) fun _ => rfl <;>
      simp [Mutates, Document.setRotation, Document.revision, Document.id, setRotation, h, Except.map]
  insertPage_spec atIndex size d := by
    rcases hblank : buildBlankPage d.incremental.newDocument d.rootPagesId size with ⟨objectId, target⟩
    rw [Roster.infos_insertSlot d.pages atIndex objectId size]
    by_cases hat : atIndex ≤ d.pages.live.length
    · obtain ⟨pages, hpages⟩ := insertSlot_exists hat (PageSlot.make objectId size .none) fun _ => rfl
      simp [Mutates, Document.insertPage, Document.revision, Document.id, insertPage, hblank,
        checkInsertionIndex_eq_ok.2 hat, hpages, Except.map, commitStructure, withTarget]
    · have hcheck := checkInsertionIndex_beyond hat
      have hinsert : d.pages.insertSlot atIndex (PageSlot.make objectId size .none) (fun _ => rfl) =
          .error (.indexOutOfBounds atIndex d.pages.live.length) := by
        unfold Roster.insertSlot
        rw [dif_pos (by omega)]
      simp [Mutates, Document.insertPage, insertPage, hcheck, hinsert, Except.map]
  importPages_ok source ids atIndex d d' newIds h := by
    obtain ⟨slots, d₁, hat, hslots, himport, rfl⟩ := importPages_eq_ok h
    have hkeeps := importResolved_keeps source.view slots d hat
    rw [himport] at hkeeps
    have hinsert := importResolved_ok hat himport
    refine ⟨⟨slots.map PageSlot.info, mapM_page hslots, by simpa using hat, hinsert⟩, ?_, hkeeps.id⟩
    exact congrArg (· + 1) hkeeps.revision

/-! ### Imports that fail -/

/-- Everything a caller can tell two states of a document apart by. -/
structure SameState (d d' : PdfDocument) : Prop where
  live : d'.pages.infos.live = d.pages.infos.live
  removed : d'.pages.infos.removed = d.pages.infos.removed
  dirty : d'.dirty = d.dirty
  revision : d'.revision = d.revision

omit [Lopdf] in
theorem SameState.refl (d : PdfDocument) : SameState d d := ⟨rfl, rfl, rfl, rfl⟩

def IsCopyable (source : Objects) (slot : PageSlot) : Prop :=
  ∃ d, source.lookup slot.objectId = some (.dictionary d)

/-- An import that inserts at least one page and then fails: the position is valid, every id
resolves, the first page can be copied and a later one cannot. -/
def ImportsPartly (source : PdfDocument) (ids : List PageId) (atIndex : Nat) (d : PdfDocument) :
    Prop :=
  atIndex ≤ d.pages.live.length ∧ ∃ slot slots, ids.mapM source.pages.findSlot = .ok (slot :: slots) ∧
    IsCopyable source.view slot ∧ ∃ later ∈ slots, ¬ IsCopyable source.view later

theorem copyPageInto_none {source : Objects} {slot : PageSlot} (h : ¬ IsCopyable source slot)
    (target : LopdfDocument) : copyPageInto source slot.objectId target = (none, target) := by
  unfold copyPageInto
  cases hdict : (source.lookup slot.objectId).bind Object.asDict with
  | none => rfl
  | some d =>
    obtain ⟨object, hobject, hasDict⟩ := Option.bind_eq_some_iff.1 hdict
    exact absurd ⟨d, Object.asDict_eq_some.1 hasDict ▸ hobject⟩ h

theorem not_isCopyable_of_none [LawfulDereference] {source : Objects} {slot : PageSlot}
    {target : LopdfDocument} (h : (copyPageInto source slot.objectId target).1 = none) :
    ¬ IsCopyable source slot := by
  rintro ⟨dict, hdict⟩
  obtain ⟨-, copied, after, hcopy, -⟩ := copyPageInto_of_dictionary hdict target
  rw [hcopy] at h
  cases h

theorem isCopyable_of_step [LawfulDereference] {source : Objects} {slot : PageSlot} {atIndex : Nat}
    {d d₁ : PdfDocument} {id : PageId} (h : ImportStep source slot atIndex d id d₁) :
    IsCopyable source slot := by
  obtain ⟨copied, target, hcopy, -⟩ := h.copied
  by_contra hnot
  rw [copyPageInto_none hnot] at hcopy
  cases hcopy

/-- An import of resolved pages fails exactly where one of them cannot be copied, and by then
every page before it is in. -/
theorem importResolved_error [LawfulDereference] (source : Objects) (slots : List PageSlot)
    {atIndex : Nat} (d : PdfDocument) (hat : atIndex ≤ d.pages.live.length) :
    ((∀ slot ∈ slots, IsCopyable source slot) ∧
      ∃ ids, (importResolved source slots atIndex d).1 = .ok ids) ∨
    ∃ before bad after, slots = before ++ bad :: after ∧ (∀ slot ∈ before, IsCopyable source slot) ∧
      ¬ IsCopyable source bad ∧ (∃ e, (importResolved source slots atIndex d).1 = .error e) ∧
      (importResolved source slots atIndex d).2.pages.live.length =
        d.pages.live.length + before.length ∧
      (before = [] → (importResolved source slots atIndex d).2 = d) := by
  induction slots generalizing atIndex d with
  | nil => exact .inl ⟨by simp, [], rfl⟩
  | cons slot slots ih =>
    rcases importResolved_cons source slot slots d hat with ⟨hnone, h⟩ | ⟨id, d₁, hstep, h⟩
    · have hbad := not_isCopyable_of_none hnone
      refine .inr ⟨[], slot, slots, rfl, by simp, hbad, ?_, ?_, fun _ => ?_⟩
      · exact ⟨_, congrArg Prod.fst h⟩
      · rw [h]
        rfl
      · rw [h, copyPageInto_none hbad]
        rfl
    · have hslot := isCopyable_of_step hstep
      have hlen := hstep.length
      have hat' : atIndex + 1 ≤ d₁.pages.live.length := by omega
      rcases ih d₁ hat' with
        ⟨hall, ids, hok⟩ | ⟨before, bad, after, rfl, hbefore, hbad, ⟨e, herror⟩, hlive, -⟩
      · refine .inl ⟨?_, id :: ids, by rw [h, hok]; rfl⟩
        intro s hs
        rcases List.mem_cons.1 hs with rfl | hs
        · exact hslot
        · exact hall s hs
      · refine .inr ⟨slot :: before, bad, after, rfl, ?_, hbad, ⟨e, by rw [h, herror]; rfl⟩, ?_, by simp⟩
        · intro s hs
          rcases List.mem_cons.1 hs with rfl | hs
          · exact hslot
          · exact hbefore s hs
        · rw [h]
          simp only [hlive, List.length_cons]
          omega

/-- A failed import leaves the document as it was unless it inserted some of its pages first. -/
theorem importPages_unchanged [LawfulDereference] (source : PdfDocument) (ids : List PageId)
    (atIndex : Nat) (d : PdfDocument) :
    (∀ e d', importPages source ids atIndex d = (.error e, d') → SameState d d') ↔
      ¬ ImportsPartly source ids atIndex d := by
  unfold importPages ImportsPartly
  by_cases hat : atIndex ≤ d.pages.live.length
  swap
  · have hcheck : ∃ e, d.pages.checkInsertionIndex atIndex = .error e := by
      unfold Roster.checkInsertionIndex
      rw [if_pos (by omega)]
      exact ⟨_, rfl⟩
    obtain ⟨e, he⟩ := hcheck
    simp only [he, hat, false_and, not_false_iff, iff_true]
    rintro e' d' ⟨⟩
    exact .refl _
  rw [checkInsertionIndex_eq_ok.2 hat]
  dsimp only
  cases hresolve : ids.mapM source.pages.findSlot with
  | error e =>
    simp only [reduceCtorEq, false_and, exists_false, and_false, not_false_iff, iff_true]
    rintro e' d' ⟨⟩
    exact .refl _
  | ok resolved =>
    dsimp only
    have hkeeps := importResolved_keeps source.view resolved d hat
    rcases importResolved_error source.view resolved d hat with
      ⟨hall, newIds, hok⟩ | ⟨before, bad, after, hsplit, hbefore, hbad, ⟨e, herror⟩, hlive, hnone⟩
    · rcases himport : importResolved source.view resolved atIndex d with ⟨_ | _, d₁⟩
      · rw [himport] at hok
        cases hok
      · refine iff_of_true (by rintro e d' ⟨⟩) ?_
        rintro ⟨-, slot, slots, hcons, -, later, hlater, hnot⟩
        cases hcons
        exact hnot (hall later (List.mem_cons_of_mem _ hlater))
    · rcases himport : importResolved source.view resolved atIndex d with ⟨e' | _, d₁⟩
      swap
      · rw [himport] at herror
        cases herror
      rw [himport] at hkeeps hlive hnone
      dsimp only at hkeeps hlive hnone ⊢
      cases before with
      | nil =>
        obtain rfl := hnone rfl
        refine iff_of_true ?_ ?_
        · rintro e d' ⟨⟩
          exact .refl _
        · rintro ⟨-, slot, slots, hcons, hcopyable, -⟩
          rw [hsplit] at hcons
          cases hcons
          exact hbad hcopyable
      | cons slot before =>
        refine iff_of_false ?_ ?_
        · intro h
          have hsame := congrArg List.length (h e' d₁ rfl).live
          simp only [Roster.infos_live, List.length_map, hlive, List.length_cons] at hsame
          omega
        · rw [not_not]
          exact ⟨hat, slot, before ++ bad :: after, by rw [hsplit]; rfl, hbefore slot (by simp), bad,
            by simp, hbad⟩

/-- A carrier whose pages are inserted partly and then fail. -/
def CarriesPartly (sourceId : DocumentId) (pages : PortablePages) (atIndex : Nat)
    (d : PdfDocument) : Prop :=
  ∃ file source, pages = .pdfPayload (.file file) ∧ load sourceId file = .ok source ∧
    ImportsPartly source source.pages.ids atIndex d

/-- Carried pages fail and change nothing as any import does. -/
theorem importPortable_unchanged [LawfulDereference] (sourceId : DocumentId)
    (pages : PortablePages) (atIndex : Nat) (d : PdfDocument) :
    (∀ e d', importPortable sourceId pages atIndex d = (.error e, d') → SameState d d') ↔
      ¬ CarriesPartly sourceId pages atIndex d := by
  unfold importPortable
  by_cases hat : atIndex ≤ d.pages.live.length
  swap
  · rw [checkInsertionIndex_beyond hat]
    refine iff_of_true ?_ ?_
    · rintro e d' ⟨⟩
      exact .refl _
    · rintro ⟨file, source, -, -, hpartly⟩
      exact hat hpartly.1
  rw [checkInsertionIndex_eq_ok.2 hat]
  cases pages with
  | vecPayload infos =>
    refine iff_of_true ?_ (by rintro ⟨file, source, ⟨⟩, -⟩)
    rintro e d' ⟨⟩
    exact .refl _
  | pdfPayload bytes =>
    cases bytes with
    | empty => exact iff_of_true (by rintro e d' ⟨⟩) (by rintro ⟨file, source, ⟨⟩, -⟩)
    | damaged error =>
      refine iff_of_true ?_ (by rintro ⟨file, source, ⟨⟩, -⟩)
      rintro e d' ⟨⟩
      exact .refl _
    | file file =>
      simp only [PortablePages.takePdf, loadFromBytes]
      cases hload : load sourceId file with
      | error error =>
        refine iff_of_true ?_ ?_
        · rintro e d' ⟨⟩
          exact .refl _
        · rintro ⟨file', source, ⟨⟩, hload', -⟩
          rw [hload] at hload'
          cases hload'
      | ok source =>
        dsimp only
        rw [importPages_unchanged, not_iff_not]
        constructor
        · intro hpartly
          exact ⟨file, source, rfl, hload, hpartly⟩
        · rintro ⟨file', source', ⟨⟩, hload', hpartly⟩
          rw [hload] at hload'
          cases hload'
          exact hpartly

/-- A failed import, of a document's pages or of carried ones, leaves the target as it was
exactly when it does not fail after it has inserted some of its pages. -/
theorem failed_import_unchanged [LawfulDereference] (atIndex : Nat) (d : PdfDocument) :
    (∀ source ids,
      (∀ e d', importPages source ids atIndex d = (.error e, d') → SameState d d') ↔
        ¬ ImportsPartly source ids atIndex d) ∧
    ∀ sourceId pages,
      (∀ e d', importPortable sourceId pages atIndex d = (.error e, d') → SameState d d') ↔
        ¬ CarriesPartly sourceId pages atIndex d :=
  ⟨fun source ids => importPages_unchanged source ids atIndex d,
    fun sourceId pages => importPortable_unchanged sourceId pages atIndex d⟩

end PdfDocument

namespace ImportFixture

def catalog : Object :=
  .dictionary [("Type", .name "Catalog"), ("Pages", .reference (2, 0))]

def pageObject : Object := .dictionary [("Type", .name "Page"), ("Parent", .reference (2, 0))]

def plainFile : LopdfDocument where
  version := "1.7"
  objects := [⟨(1, 0), catalog⟩,
    ⟨(2, 0), .dictionary [("Type", .name "Pages"), ("Kids", .array [.reference (3, 0)])]⟩,
    ⟨(3, 0), pageObject⟩].toFinmap
  trailer := [("Root", .reference (1, 0))]
  maxId := 3

def aliasedFile : LopdfDocument where
  version := "1.7"
  objects := [⟨(1, 0), catalog⟩,
    ⟨(2, 0), .dictionary [("Type", .name "Pages"),
      ("Kids", .array [.reference (3, 0), .reference (4, 0)])]⟩,
    ⟨(3, 0), pageObject⟩, ⟨(4, 0), .reference (3, 0)⟩].toFinmap
  trailer := [("Root", .reference (1, 0))]
  maxId := 4

end ImportFixture

namespace PdfDocument

open ImportFixture
open scoped ReferenceLopdf

/-- The first page is in when the second cannot be copied, and the revision has not moved. -/
theorem failed_import_keeps_a_page :
    ∃ source d e d', load 1 aliasedFile = .ok source ∧ load 2 plainFile = .ok d ∧
      importPages source source.pages.ids 0 d = (.error e, d') ∧ d.pages.ids = [0] ∧
      d'.pages.ids = [1, 0] ∧ d'.revision = d.revision ∧ ¬ SameState d d' := by
  refine ⟨_, _, _, _, rfl, rfl, rfl, rfl, rfl, rfl, fun hsame => ?_⟩
  exact absurd (congrArg List.length hsame.live) (by decide)

/-- Importing an unknown page fails before anything is touched. -/
theorem failed_import_unchanged_unknown :
    ∃ d, load 2 plainFile = .ok d ∧
      ∀ e d', importPages d [7] 0 d = (.error e, d') → SameState d d' := by
  refine ⟨_, rfl, ((failed_import_unchanged 0 _).1 _ [7]).2 ?_⟩
  rintro ⟨-, slot, slots, hresolve, -⟩
  cases hresolve

end PdfDocument
end OpdfEditor
