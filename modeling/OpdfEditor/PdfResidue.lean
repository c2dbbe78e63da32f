import OpdfEditor.PdfSession

/-!
What saves leave alone. Since a document was opened or last rebased, the appended revision
holds the page tree root, pages that were there at a save, and objects the session created,
and of what the file holds only the entries a save rewrites differ.
-/
namespace OpdfEditor

/-! ### Whatever edits keep -/

namespace IncrementalDocument

variable [Lopdf]

def Holds (P : ObjectId → Object → Prop) (d : IncrementalDocument) : Prop :=
  ∀ id object, d.newDocument.objects.lookup id = some object → P id object

/-- An edit that fails has cloned its object at most. -/
theorem applyEdit_error {d d' : IncrementalDocument} {edit : Edit} {e : Error}
    (h : d.applyEdit edit = (.error e, d')) :
    d' = d ∨ ∃ object, Objects.getObject d.previous.objects edit.target = .ok object ∧
      d' = { d with newDocument := d.newDocument.setObject edit.target object } := by
  unfold applyEdit optCloneObjectToNewDocument at h
  split at h
  · cases h
    exact .inl rfl
  rename_i d₁ hclone
  split at h
  · cases h
    split at hclone
    · cases hclone
      exact .inl rfl
    split at hclone
    · cases hclone
    · rename_i object hobject
      cases hclone
      exact .inr ⟨object, hobject, rfl⟩
  · cases h

omit [Lopdf] in
theorem Holds.setObject {P : ObjectId → Object → Prop} {d : IncrementalDocument} (h : d.Holds P)
    {id : ObjectId} {object : Object} (hobject : P id object) :
    Holds P { d with newDocument := d.newDocument.setObject id object } := by
  intro id' object' hlookup
  by_cases heq : id' = id
  · subst heq
    have hself : (d.newDocument.setObject id' object).objects.lookup id' = some object :=
      Finmap.lookup_insert _
    rw [hself] at hlookup
    exact Option.some.inj hlookup ▸ hobject
  · have hother : (d.newDocument.setObject id object).objects.lookup id' =
        d.newDocument.objects.lookup id' := Finmap.lookup_insert_of_ne _ heq
    rw [hother] at hlookup
    exact h id' object' hlookup

/-- What holds of an object as it is cloned, and is kept when an entry is set. -/
structure Kept (P : ObjectId → Object → Prop) (d : IncrementalDocument) (edit : Edit) : Prop where
  clone : ∀ object, Objects.getObject d.previous.objects edit.target = .ok object →
    P edit.target object
  set : ∀ dict, P edit.target (.dictionary dict) →
    P edit.target (.dictionary (Dictionary.set edit.key edit.value dict))

theorem editable_holds {P : ObjectId → Object → Prop} {d : IncrementalDocument} {edit : Edit}
    (hkept : Kept P d edit) (h : d.Holds P) {dict : Dictionary}
    (hdict : d.editable edit.target = some dict) : P edit.target (.dictionary dict) := by
  unfold editable at hdict
  cases hlookup : d.newDocument.objects.lookup edit.target with
  | some object =>
    rw [hlookup] at hdict
    exact Object.asDict_eq_some.1 hdict ▸ h _ _ hlookup
  | none =>
    simp only [hlookup, Objects.getDictionary] at hdict
    cases hobject : Objects.getObject d.previous.objects edit.target with
    | error e => simp [hobject, Except.toOption] at hdict
    | ok object =>
      rw [hobject] at hdict
      cases hentries : object.asDict with
      | none => simp [hentries, Except.toOption] at hdict
      | some entries =>
        simp only [hentries, Except.toOption, Option.some.injEq] at hdict
        obtain rfl := Object.asDict_eq_some.1 hentries
        exact hdict ▸ hkept.clone _ hobject

variable [LawfulDereference]

/-- An edit keeps what it keeps of the one object it writes. -/
theorem applyEdit_holds {P : ObjectId → Object → Prop} {d : IncrementalDocument} {edit : Edit}
    (hkept : Kept P d edit) (hsettled : d.Settled edit.target) (h : d.Holds P) :
    (d.applyEdit edit).2.Holds P := by
  cases applyEdit_cases hsettled with
  | inl hwritten =>
    obtain ⟨dict, hdict, hwritten⟩ := hwritten
    rw [hwritten]
    exact h.setObject (hkept.set dict (editable_holds hkept h hdict))
  | inr hfailed =>
    obtain ⟨-, e, d', hfailed, -⟩ := hfailed
    rw [hfailed]
    cases applyEdit_error hfailed with
    | inl hsame => exact hsame ▸ h
    | inr hcloned =>
      obtain ⟨object, hobject, rfl⟩ := hcloned
      exact h.setObject (hkept.clone object hobject)

/-- It is kept by any number of edits, whether or not they all go through. -/
theorem applyEdits_holds {P : ObjectId → Object → Prop} {edits : List Edit} {d : IncrementalDocument}
    (hkept : ∀ edit ∈ edits, Kept P d edit) (hsettled : ∀ edit ∈ edits, d.Settled edit.target)
    (h : d.Holds P) : (d.applyEdits edits).2.Holds P := by
  induction edits generalizing d with
  | nil => exact h
  | cons edit edits ih =>
    have hfirst := applyEdit_holds (hkept edit List.mem_cons_self)
      (hsettled edit List.mem_cons_self) h
    unfold applyEdits
    cases applyEdit_cases (hsettled edit List.mem_cons_self) with
    | inl hwritten =>
      obtain ⟨dict, -, hwritten⟩ := hwritten
      rw [hwritten] at hfirst ⊢
      refine ih (fun later hlater => ?_) (fun later hlater => ?_) hfirst
      · exact ⟨(hkept later (List.mem_cons_of_mem _ hlater)).clone,
          (hkept later (List.mem_cons_of_mem _ hlater)).set⟩
      · exact (touched_write d edit dict).settled (hsettled later (List.mem_cons_of_mem _ hlater))
    | inr hfailed =>
      obtain ⟨-, e, d', hfailed, -⟩ := hfailed
      rw [hfailed] at hfirst ⊢
      exact hfirst

end IncrementalDocument

/-! ### What happened since the last rebase -/

namespace SessionStep

def isSave : SessionStep → Bool
  | .saveIncremental _ | .saveCompacted _ => true
  | _ => false

/-- Whether a call brings in pages the document did not have. -/
def creates : SessionStep → Bool
  | .insert _ _ | .importFrom _ _ _ | .importPortable _ _ _ => true
  | _ => false

end SessionStep

namespace PdfDocument

section

variable [Lopdf]

/-- Whether a call changes which pages there are or their order. -/
def restructures (d : PdfDocument) : SessionStep → Bool
  | .remove id => (d.removePage id).1.isOk
  | .restore id atIndex => (d.restorePage id atIndex).1.isOk
  | .move id toIndex => (d.movePage id toIndex).1.isOk
  | .insert atIndex size => (d.insertPage atIndex size).1.isOk
  | .importFrom source ids atIndex => (importPages source ids atIndex d).1.toOption.any (· ≠ [])
  | .importPortable sourceId pages atIndex =>
    (importPortable sourceId pages atIndex d).1.toOption.any (· ≠ [])
  | .rotate _ _ | .saveIncremental _ | .saveCompacted _ => false

/-- Whether a call makes the document continue from a new file. -/
def rebases (d : PdfDocument) : SessionStep → Bool
  | .saveCompacted env => (d.saveCompacted env).1.isOk
  | _ => false

/-- No call of a run makes the document continue from a new file. -/
def SinceRebase (base : PdfDocument) (steps : List SessionStep) : Prop :=
  ∀ before step after, steps = before ++ step :: after → (base.run before).rebases step = false

/-- Some call of a run changed which pages there are or their order. -/
def Restructured (base : PdfDocument) (steps : List SessionStep) : Prop :=
  ∃ before step after, steps = before ++ step :: after ∧ (base.run before).restructures step = true

/-- An object was a page of the document when it was saved. -/
def LiveAtSave (base : PdfDocument) (steps : List SessionStep) (id : ObjectId) : Prop :=
  ∃ before step after, steps = before ++ step :: after ∧ step.isSave = true ∧
    ∃ slot ∈ (base.run before).pages.live, slot.objectId = id

/-- An object came in with a call that brings in pages, under an identifier the file does not use. -/
def CreatedBy (base : PdfDocument) (steps : List SessionStep) (id : ObjectId) : Prop :=
  id ∉ base.incremental.previous.objects ∧ ∃ before step after, steps = before ++ step :: after ∧
    step.creates = true ∧ id ∉ (base.run before).incremental.newDocument.objects ∧
    id ∈ ((base.run before).step step).incremental.newDocument.objects

/-- The entries saves rewrite in an object that was this dictionary in the file. -/
inductive Rewritable (base : PdfDocument) (steps : List SessionStep) (id : ObjectId)
    (original : Dictionary) : String → Prop
  | rotate : LiveAtSave base steps id → Rewritable base steps id original "Rotate"
  | parent : LiveAtSave base steps id → Restructured base steps →
      Rewritable base steps id original "Parent"
  | inherited {key : String} : LiveAtSave base steps id → Restructured base steps →
      key ∈ inheritableKeys → Dictionary.get original key = none →
      Rewritable base steps id original key
  | kids : id = base.rootPagesId → Restructured base steps →
      Rewritable base steps id original "Kids"
  | count : id = base.rootPagesId → Restructured base steps →
      Rewritable base steps id original "Count"

/-- What is appended in an object's place is the file's own object, up to rewritten entries. -/
def Resembles (base : PdfDocument) (steps : List SessionStep) (id : ObjectId) (object : Object) :
    Prop :=
  ∃ original, Objects.getObject base.incremental.previous.objects id = .ok original ∧
    (object = original ∨ ∃ dict dict₀, object = .dictionary dict ∧ original = .dictionary dict₀ ∧
      ∀ key, Dictionary.get dict key = Dictionary.get dict₀ key ∨ Rewritable base steps id dict₀ key)

/-- What a run leaves appended to the file it started from. -/
structure PreservesRest (base : PdfDocument) (steps : List SessionStep) : Prop where
  contents : ∀ id ∈ (base.run steps).incremental.newDocument.objects,
    id = base.rootPagesId ∧ Restructured base steps ∨ LiveAtSave base steps id ∨
      CreatedBy base steps id
  original : ∀ id object, (base.run steps).incremental.newDocument.objects.lookup id = some object →
    id ∈ base.incremental.previous.objects → Resembles base steps id object

theorem run_concat (d : PdfDocument) (steps : List SessionStep) (step : SessionStep) :
    d.run (steps ++ [step]) = (d.run steps).step step := by
  simp [run]

variable {base : PdfDocument} {steps : List SessionStep} {step : SessionStep} {id : ObjectId}

theorem SinceRebase.init (h : SinceRebase base (steps ++ [step])) : SinceRebase base steps :=
  fun before earlier after hsplit => h before earlier (after ++ [step]) (by simp [hsplit])

theorem SinceRebase.last (h : SinceRebase base (steps ++ [step])) :
    (base.run steps).rebases step = false := h steps step [] rfl

theorem Restructured.concat (h : Restructured base steps) : Restructured base (steps ++ [step]) := by
  obtain ⟨before, earlier, after, rfl, hchanged⟩ := h
  exact ⟨before, earlier, after ++ [step], by simp, hchanged⟩

theorem LiveAtSave.concat (h : LiveAtSave base steps id) : LiveAtSave base (steps ++ [step]) id := by
  obtain ⟨before, earlier, after, rfl, hsave⟩ := h
  exact ⟨before, earlier, after ++ [step], by simp, hsave⟩

theorem CreatedBy.concat (h : CreatedBy base steps id) : CreatedBy base (steps ++ [step]) id := by
  obtain ⟨hfresh, before, earlier, after, rfl, hcreated⟩ := h
  exact ⟨hfresh, before, earlier, after ++ [step], by simp, hcreated⟩

theorem Rewritable.concat {original : Dictionary} {key : String}
    (h : Rewritable base steps id original key) :
    Rewritable base (steps ++ [step]) id original key := by
  cases h with
  | rotate hlive => exact .rotate hlive.concat
  | parent hlive hchanged => exact .parent hlive.concat hchanged.concat
  | inherited hlive hchanged hkey hlacks => exact .inherited hlive.concat hchanged.concat hkey hlacks
  | kids hroot hchanged => exact .kids hroot hchanged.concat
  | count hroot hchanged => exact .count hroot hchanged.concat

theorem Resembles.concat {object : Object} (h : Resembles base steps id object) :
    Resembles base (steps ++ [step]) id object := by
  obtain ⟨original, horiginal, hsame | ⟨dict, dict₀, hdict, hdict₀, hkeys⟩⟩ := h
  · exact ⟨original, horiginal, .inl hsame⟩
  · exact ⟨original, horiginal, .inr ⟨dict, dict₀, hdict, hdict₀,
      fun key => (hkeys key).imp_right Rewritable.concat⟩⟩

end

/-! ### Calls that add objects -/

/-- Objects are only added, under identifiers not handed out before. -/
structure Grown (d d' : PdfDocument) : Prop where
  previous : d'.incremental.previous = d.incremental.previous
  rootPagesId : d'.rootPagesId = d.rootPagesId
  maxId : d.incremental.newDocument.maxId ≤ d'.incremental.newDocument.maxId
  lookup : ∀ id, d'.incremental.newDocument.objects.lookup id =
      d.incremental.newDocument.objects.lookup id ∨
    d.incremental.newDocument.maxId < id.1 ∧ id.1 ≤ d'.incremental.newDocument.maxId

theorem Grown.of_same {d d' : PdfDocument} (hincremental : d'.incremental = d.incremental)
    (hroot : d'.rootPagesId = d.rootPagesId) : Grown d d' := by
  refine ⟨?_, hroot, ?_, fun id => .inl ?_⟩ <;> rw [hincremental]

/-- Calls that only add objects do so one after the other. -/
theorem Grown.trans {d e f : PdfDocument} (h : Grown d e) (h' : Grown e f) : Grown d f := by
  have hle := h.maxId
  have hle' := h'.maxId
  refine ⟨h'.previous.trans h.previous, h'.rootPagesId.trans h.rootPagesId, hle.trans hle', ?_⟩
  intro id
  cases h'.lookup id with
  | inl hsame =>
    rw [hsame]
    exact (h.lookup id).imp_right fun hfresh => ⟨hfresh.1, by omega⟩
  | inr hfresh => exact .inr ⟨by omega, hfresh.2⟩

/-- A blank page is an object added. -/
theorem Inserted.grown {size : PageSize} {d d' : PdfDocument} (h : Inserted size d d') :
    Grown d d' := by
  refine ⟨?_, h.rootPagesId, ?_, fun id => ?_⟩
  · rw [h.incremental]
  · rw [h.incremental]
    exact Nat.le_succ _
  · rw [h.incremental]
    by_cases hid : id = (d.incremental.newDocument.maxId + 1, 0)
    · subst hid
      exact .inr ⟨Nat.lt_succ_self _, Nat.le_refl _⟩
    · exact .inl (Finmap.lookup_insert_of_ne _ hid)

section

variable [Lopdf] [LawfulDereference]

/-- So are the copies of a page. -/
theorem ImportStep.grown {source : Objects} {slot : PageSlot} {atIndex : Nat} {d d₁ : PdfDocument}
    {id : PageId} (h : ImportStep source slot atIndex d id d₁) : Grown d d₁ := by
  obtain ⟨dict, mapping, copied, before, after, -, hcopied, -, -⟩ := h.copies
  obtain ⟨numbered, hassigned, hmaxId⟩ := hcopied.assigned
  refine ⟨h.keeps.previous, h.keeps.rootPagesId, ?_, fun id => ?_⟩
  · rw [hmaxId]
    exact hassigned.numbered.maxId
  · by_cases hid : id ∈ mapping.map Prod.snd
    · rw [hmaxId]
      exact .inr (hassigned.numbered.fresh id hid).2
    · exact .inl (hcopied.other id hid)

/-- So are those of an import, even of one that fails on the way. -/
theorem importResolved_grown (source : Objects) (slots : List PageSlot) {atIndex : Nat}
    {d : PdfDocument} (hat : atIndex ≤ d.pages.live.length) :
    Grown d (importResolved source slots atIndex d).2 := by
  have hstart : Grown d d := .of_same rfl rfl
  refine importResolved_induct ?_ hat hstart
  intro slot _ atIndex e id e' hround h
  exact h.trans hround.grown

/-- An import adds objects, and unless it brings in a page it does not mark the tree for the next
save. -/
theorem importPages_grown (source : PdfDocument) (ids : List PageId) (atIndex : Nat)
    (d : PdfDocument) :
    Grown d (importPages source ids atIndex d).2 ∧
      ((importPages source ids atIndex d).2.dirty.structural = true → d.dirty.structural = true ∨
        (importPages source ids atIndex d).1.toOption.any (· ≠ []) = true) := by
  unfold importPages
  cases hcheck : d.pages.checkInsertionIndex atIndex with
  | error e => exact ⟨.of_same rfl rfl, .inl⟩
  | ok _ =>
    cases ids.mapM source.pages.findSlot with
    | error e => exact ⟨.of_same rfl rfl, .inl⟩
    | ok slots =>
      have hat := checkInsertionIndex_eq_ok.1 hcheck
      have hgrown := importResolved_grown source.view slots hat
      have hdirty := (importResolved_keeps source.view slots d hat).dirty
      dsimp only
      generalize importResolved source.view slots atIndex d = result at hgrown hdirty
      obtain ⟨e | imported, d'⟩ := result
      · exact ⟨hgrown, fun h => .inl (hdirty ▸ h)⟩
      · refine ⟨hgrown.trans (.of_same rfl rfl), fun h => ?_⟩
        cases imported with
        | nil => exact .inl (hdirty ▸ h)
        | cons first rest => exact .inr rfl

theorem importPortable_grown (sourceId : DocumentId) (pages : PortablePages) (atIndex : Nat)
    (d : PdfDocument) :
    Grown d (importPortable sourceId pages atIndex d).2 ∧
      ((importPortable sourceId pages atIndex d).2.dirty.structural = true →
        d.dirty.structural = true ∨
          (importPortable sourceId pages atIndex d).1.toOption.any (· ≠ []) = true) := by
  unfold importPortable
  split
  · exact ⟨.of_same rfl rfl, .inl⟩
  split
  · exact ⟨.of_same rfl rfl, .inl⟩
  · exact ⟨.of_same rfl rfl, .inl⟩
  split
  · exact ⟨.of_same rfl rfl, .inl⟩
  · exact importPages_grown _ _ _ _

/-- What a call other than a save does: it only adds objects, only if it brings in pages, and has
the next save rewrite the tree only if it changed which pages there are or their order. -/
structure Edits (d : PdfDocument) (step : SessionStep) : Prop where
  grown : Grown d (d.step step)
  creates : step.creates = true ∨ (d.step step).incremental = d.incremental
  dirty : (d.step step).dirty.structural = true →
    d.dirty.structural = true ∨ d.restructures step = true

omit [LawfulDereference] in
theorem Edits.of_same {d : PdfDocument} {step : SessionStep}
    (hincremental : (d.step step).incremental = d.incremental)
    (hroot : (d.step step).rootPagesId = d.rootPagesId)
    (hdirty : (d.step step).dirty.structural = true →
      d.dirty.structural = true ∨ d.restructures step = true) : Edits d step :=
  ⟨.of_same hincremental hroot, .inr hincremental, hdirty⟩

/-- Every call but a save only adds objects. -/
theorem edits_of_not_save (d : PdfDocument) {step : SessionStep} (h : step.isSave = false) :
    Edits d step := by
  cases step with
  | remove id =>
    cases hslot : d.pages.removeSlot id with
    | error e => refine .of_same ?_ ?_ ?_ <;> simp [PdfDocument.step, removePage, hslot]; exact .inl
    | ok pages =>
      refine .of_same ?_ ?_ fun _ => .inr ?_ <;>
        simp [PdfDocument.step, restructures, removePage, hslot, commitStructure, Except.isOk,
          Except.toBool]
  | restore id atIndex =>
    cases hslot : d.pages.restoreSlot id atIndex with
    | error e => refine .of_same ?_ ?_ ?_ <;> simp [PdfDocument.step, restorePage, hslot]; exact .inl
    | ok pages =>
      refine .of_same ?_ ?_ fun _ => .inr ?_ <;>
        simp [PdfDocument.step, restructures, restorePage, hslot, commitStructure, Except.isOk,
          Except.toBool]
  | move id toIndex =>
    rcases hslot : d.pages.relocateSlot id toIndex with ⟨e | ⟨⟩, pages⟩
    · refine .of_same ?_ ?_ ?_ <;> simp [PdfDocument.step, movePage, hslot]; exact .inl
    · refine .of_same ?_ ?_ fun _ => .inr ?_ <;>
        simp [PdfDocument.step, restructures, movePage, hslot, commitStructure, Except.isOk,
          Except.toBool]
  | rotate id rotation =>
    cases setRotation_cases d id rotation with
    | inl hsame => refine .of_same ?_ ?_ ?_ <;> rw [PdfDocument.step, hsame]; exact .inl
    | inr hturned =>
      refine .of_same hturned.incremental hturned.rootPagesId fun hdirty => .inl ?_
      rw [PdfDocument.step, hturned.dirty] at hdirty
      exact hdirty
  | insert atIndex size =>
    cases hcheck : d.pages.checkInsertionIndex atIndex with
    | error e => refine .of_same ?_ ?_ ?_ <;> simp [PdfDocument.step, insertPage, hcheck]; exact .inl
    | ok _ =>
      obtain ⟨pages, hpages⟩ := insertSlot_exists (checkInsertionIndex_eq_ok.1 hcheck)
        (PageSlot.make (buildBlankPage d.incremental.newDocument d.rootPagesId size).1 size .none)
        fun _ => rfl
      refine ⟨?_, .inl rfl, fun _ => .inr ?_⟩
      · cases insertPage_cases d atIndex size with
        | inl hsame => exact .of_same (congrArg incremental hsame) (congrArg rootPagesId hsame)
        | inr hinserted => exact hinserted.grown
      · simp only [restructures, insertPage, hcheck, hpages]
        rfl
  | importFrom source ids atIndex =>
    obtain ⟨hgrown, hdirty⟩ := importPages_grown source ids atIndex d
    exact ⟨hgrown, .inl rfl, hdirty⟩
  | importPortable sourceId pages atIndex =>
    obtain ⟨hgrown, hdirty⟩ := importPortable_grown sourceId pages atIndex d
    exact ⟨hgrown, .inl rfl, hdirty⟩
  | saveIncremental env => cases h
  | saveCompacted env => cases h

end

/-! ### Saves -/

section

variable [Lopdf]

theorem getDictionary_of_getObject {objects : Objects} {id : ObjectId} {dict : Dictionary}
    (h : Objects.getObject objects id = .ok (.dictionary dict)) :
    Objects.getDictionary objects id = .ok dict := by
  simp [Objects.getDictionary, h, Object.asDict]

/-- A page is only given attributes it does not carry itself. -/
theorem lacks_of_inherited {previous : LopdfDocument} {id : ObjectId} {key : String} {value : Object}
    (h : (key, value) ∈ inheritedAttributes previous id) {dict : Dictionary}
    (hdict : Objects.getObject previous.objects id = .ok (.dictionary dict)) :
    Dictionary.get dict key = none := by
  obtain ⟨-, -, hown, -⟩ := mem_inheritedAttributes.1 h
  simp only [carriesOwn, getDictionary_of_getObject hdict] at hown
  exact Dictionary.has_eq_false.1 hown

variable {base : PdfDocument} {steps : List SessionStep} {step : SessionStep}

theorem liveAtSave_last {id : ObjectId} {slot : PageSlot} (hsave : step.isSave = true)
    (hslot : slot ∈ (base.run steps).pages.live) (hid : slot.objectId = id) :
    LiveAtSave base (steps ++ [step]) id := ⟨steps, step, [], rfl, hsave, slot, hslot, hid⟩

/-- Every entry a save writes may be rewritten. -/
theorem Pending.rewritable {edit : Edit} (hsave : step.isSave = true)
    (hprevious : (base.run steps).incremental.previous = base.incremental.previous)
    (hroot : (base.run steps).rootPagesId = base.rootPagesId)
    (hstructural : (base.run steps).dirty.structural = true → Restructured base steps)
    (h : (base.run steps).Pending edit) {original : Dictionary}
    (horiginal : Objects.getObject base.incremental.previous.objects edit.target =
      .ok (.dictionary original)) :
    Rewritable base (steps ++ [step]) edit.target original edit.key := by
  cases h with
  | inherited hdirty hslot hinherited =>
    rw [hprevious] at hinherited
    exact .inherited (liveAtSave_last hsave hslot rfl) (hstructural hdirty).concat
      (mem_inheritedAttributes.1 hinherited).2.1 (lacks_of_inherited hinherited horiginal)
  | parent hdirty hslot =>
    exact .parent (liveAtSave_last hsave hslot rfl) (hstructural hdirty).concat
  | kids hdirty => exact .kids hroot (hstructural hdirty).concat
  | count hdirty => exact .count hroot (hstructural hdirty).concat
  | rotation _ hslot _ => exact .rotate (liveAtSave_last hsave hslot rfl)

/-- What a save writes goes into the root of a tree that was restructured, or into a page that is
live. -/
theorem Pending.written {edit : Edit} (hsave : step.isSave = true)
    (hroot : (base.run steps).rootPagesId = base.rootPagesId)
    (hstructural : (base.run steps).dirty.structural = true → Restructured base steps)
    (h : (base.run steps).Pending edit) :
    edit.target = base.rootPagesId ∧ Restructured base (steps ++ [step]) ∨
      LiveAtSave base (steps ++ [step]) edit.target := by
  cases h with
  | inherited _ hslot _ => exact .inr (liveAtSave_last hsave hslot rfl)
  | parent _ hslot => exact .inr (liveAtSave_last hsave hslot rfl)
  | kids hdirty => exact .inl ⟨hroot, (hstructural hdirty).concat⟩
  | count hdirty => exact .inl ⟨hroot, (hstructural hdirty).concat⟩
  | rotation _ hslot _ => exact .inr (liveAtSave_last hsave hslot rfl)

/-- Rewriting an entry that may be rewritten keeps the likeness. -/
theorem Resembles.set {id : ObjectId} {dict : Dictionary} {key : String} {value : Object}
    (h : Resembles base steps id (.dictionary dict))
    (hrewritable : ∀ original, Objects.getObject base.incremental.previous.objects id =
      .ok (.dictionary original) → Rewritable base steps id original key) :
    Resembles base steps id (.dictionary (Dictionary.set key value dict)) := by
  obtain ⟨original, horiginal, hlike⟩ := h
  have hdictionary : ∃ dict₀, original = .dictionary dict₀ ∧ ∀ key,
      Dictionary.get dict key = Dictionary.get dict₀ key ∨ Rewritable base steps id dict₀ key := by
    rcases hlike with hsame | ⟨_, dict₀, hdict, rfl, hkeys⟩
    · exact ⟨dict, hsame.symm, fun _ => .inl rfl⟩
    · cases hdict
      exact ⟨dict₀, rfl, hkeys⟩
  obtain ⟨dict₀, rfl, hkeys⟩ := hdictionary
  refine ⟨_, horiginal, .inr ⟨_, dict₀, rfl, rfl, fun key' => ?_⟩⟩
  by_cases heq : key' = key
  · subst heq
    exact .inr (hrewritable dict₀ horiginal)
  · rw [Dictionary.get_set_of_ne heq]
    exact hkeys key'

end

/-! ### Whole runs -/

/-- A document that has just been opened, or has just been rebased. -/
structure Based [Lopdf] (base : PdfDocument) : Prop where
  empty : base.incremental.newDocument.objects = ∅
  dirty : base.dirty = .clean
  counted : ∀ id ∈ base.incremental.previous.objects, id.1 ≤ base.incremental.newDocument.maxId
  settled : base.Settled

/-- What a run leaves, with what carries it to the next call. -/
structure Residue [Lopdf] (base : PdfDocument) (steps : List SessionStep) : Prop
    extends PreservesRest base steps where
  settled : (base.run steps).Settled
  previous : (base.run steps).incremental.previous = base.incremental.previous
  rootPagesId : (base.run steps).rootPagesId = base.rootPagesId
  maxId : base.incremental.newDocument.maxId ≤ (base.run steps).incremental.newDocument.maxId
  numbered : ∀ id ∈ (base.run steps).incremental.newDocument.objects,
    id.1 ≤ (base.run steps).incremental.newDocument.maxId
  structural : (base.run steps).dirty.structural = true → Restructured base steps

section

variable [Lopdf]

/-- At its start a run has left nothing. -/
theorem Based.residue {base : PdfDocument} (h : Based base) : Residue base [] := by
  have hnone : ∀ id, base.incremental.newDocument.objects.lookup id = none := by
    simp [h.empty]
  refine ⟨⟨?_, ?_⟩, h.settled, rfl, rfl, Nat.le_refl _, ?_, ?_⟩
  · intro id hid
    exact absurd hid (Finmap.lookup_eq_none.1 (hnone id))
  · intro id object hobject
    exact absurd (hobject.symm.trans (hnone id)) (by simp)
  · intro id hid
    exact absurd hid (Finmap.lookup_eq_none.1 (hnone id))
  · intro hstructural
    rw [run, List.foldl_nil, h.dirty] at hstructural
    cases hstructural

variable {base : PdfDocument} {steps : List SessionStep} {step : SessionStep}

/-- A call that is no save adds what it creates, and leaves the rest of the revision alone. -/
theorem Residue.edit (hbased : Based base) (h : Residue base steps)
    (hedits : Edits (base.run steps) step) (hsettled : ((base.run steps).step step).Settled) :
    Residue base (steps ++ [step]) := by
  have hgrown := hedits.grown
  have hmaxId := h.maxId
  have hfirst : ∀ id ∈ base.incremental.previous.objects,
      id.1 ≤ (base.run steps).incremental.newDocument.maxId :=
    fun id hid => (hbased.counted id hid).trans hmaxId
  refine ⟨⟨?_, ?_⟩, ?_, ?_, ?_, ?_, ?_, ?_⟩ <;> simp only [run_concat]
  · intro id hid
    by_cases hold : id ∈ (base.run steps).incremental.newDocument.objects
    · exact (h.contents id hold).imp (And.imp_right Restructured.concat)
        (Or.imp LiveAtSave.concat CreatedBy.concat)
    have hfresh : (base.run steps).incremental.newDocument.maxId < id.1 := by
      cases hgrown.lookup id with
      | inl hsame =>
        rw [← Finmap.lookup_isSome, hsame, Finmap.lookup_isSome] at hid
        exact absurd hid hold
      | inr hfresh => exact hfresh.1
    cases hedits.creates with
    | inl hcreates =>
      refine .inr (.inr ⟨fun hbase => ?_, steps, step, [], rfl, hcreates, hold, hid⟩)
      have := hfirst id hbase
      omega
    | inr hsame => exact absurd (hsame ▸ hid) hold
  · intro id object hobject hbase
    have := hfirst id hbase
    cases hgrown.lookup id with
    | inl hsame => exact (h.original id object (hsame ▸ hobject) hbase).concat
    | inr hfresh => omega
  · exact hsettled
  · exact hgrown.previous.trans h.previous
  · exact hgrown.rootPagesId.trans h.rootPagesId
  · exact hmaxId.trans hgrown.maxId
  · intro id hid
    cases hgrown.lookup id with
    | inl hsame =>
      rw [← Finmap.lookup_isSome, hsame, Finmap.lookup_isSome] at hid
      exact (h.numbered id hid).trans hgrown.maxId
    | inr hfresh => exact hfresh.2
  · intro hstructural
    cases hedits.dirty hstructural with
    | inl hbefore => exact (h.structural hbefore).concat
    | inr hchanged => exact ⟨steps, step, [], rfl, hchanged⟩

/-- A call that does nothing leaves everything as it is. -/
theorem Residue.idle (h : Residue base steps) (hstep : (base.run steps).step step = base.run steps) :
    Residue base (steps ++ [step]) := by
  refine ⟨⟨?_, ?_⟩, ?_, ?_, ?_, ?_, ?_, ?_⟩ <;> simp only [run_concat, hstep]
  · intro id hid
    exact (h.contents id hid).imp (And.imp_right Restructured.concat)
      (Or.imp LiveAtSave.concat CreatedBy.concat)
  · exact fun id object hobject hbase => (h.original id object hobject hbase).concat
  · exact h.settled
  · exact h.previous
  · exact h.rootPagesId
  · exact h.maxId
  · exact h.numbered
  · exact fun hstructural => (h.structural hstructural).concat

/-- Writing the pending changes rewrites what may be rewritten, however far it gets. -/
theorem Residue.materialize [LawfulDereference] (h : Residue base steps) (hsave : step.isSave = true)
    (hstep : (base.run steps).step step = ((base.run steps).materializeChanges).2) :
    Residue base (steps ++ [step]) := by
  have htouched := materializeChanges_touched h.settled
  have hkeeps := (base.run steps).materializeChanges_keeps
  have hpending : ∀ edit ∈ (base.run steps).pendingEdits, (base.run steps).Pending edit :=
    fun edit hedit => mem_pendingEdits.1 hedit
  have hmaxId : ((base.run steps).materializeChanges).2.incremental.newDocument.maxId =
      (base.run steps).incremental.newDocument.maxId := by rw [htouched.fields]
  refine ⟨⟨?_, ?_⟩, ?_, ?_, ?_, ?_, ?_, ?_⟩ <;> simp only [run_concat, hstep]
  · intro id hid
    cases htouched.lookup id with
    | inl hsame =>
      rw [← Finmap.lookup_isSome, hsame, Finmap.lookup_isSome] at hid
      exact (h.contents id hid).imp (And.imp_right Restructured.concat)
        (Or.imp LiveAtSave.concat CreatedBy.concat)
    | inr hwritten =>
      obtain ⟨edit, hedit, rfl⟩ := List.mem_map.1 hwritten.1
      exact ((hpending edit hedit).written hsave h.rootPagesId h.structural).imp_right .inl
  · have hholds : IncrementalDocument.Holds (fun id object =>
        id ∈ base.incremental.previous.objects → Resembles base (steps ++ [step]) id object)
        ((base.run steps).incremental.applyEdits (base.run steps).pendingEdits).2 := by
      refine IncrementalDocument.applyEdits_holds (fun edit hedit => ⟨?_, ?_⟩)
        (fun edit hedit => h.settled.settled _ (hpending edit hedit).names) ?_
      · intro object hobject _
        rw [h.previous] at hobject
        exact ⟨object, hobject, .inl rfl⟩
      · intro dict hdict hbase
        exact (hdict hbase).set fun original horiginal =>
          (hpending edit hedit).rewritable hsave h.previous h.rootPagesId h.structural horiginal
      · exact fun id object hobject hbase => (h.original id object hobject hbase).concat
    unfold materializeChanges
    rcases happly : (base.run steps).incremental.applyEdits (base.run steps).pendingEdits with
      ⟨result, incremental⟩
    rw [happly] at hholds
    exact hholds
  · exact materializeChanges_settled h.settled
  · exact htouched.previous.trans h.previous
  · rw [hkeeps]
    exact h.rootPagesId
  · rw [hmaxId]
    exact h.maxId
  · intro id hid
    rw [hmaxId]
    cases htouched.lookup id with
    | inl hsame =>
      rw [← Finmap.lookup_isSome, hsame, Finmap.lookup_isSome] at hid
      exact h.numbered id hid
    | inr hwritten =>
      obtain ⟨edit, hedit, rfl⟩ := List.mem_map.1 hwritten.1
      exact h.settled.bounded _ (hpending edit hedit).names
  · intro hstructural
    rw [hkeeps] at hstructural
    exact (h.structural hstructural).concat

end

section

variable [Lopdf] [LawfulLopdf] {base : PdfDocument} {steps : List SessionStep}

/-- One call keeps the account of what the run left. -/
theorem Residue.step (hbased : Based base) (h : Residue base steps) {step : SessionStep}
    (hcounts : step.Counts) (hsince : (base.run steps).rebases step = false) :
    Residue base (steps ++ [step]) := by
  cases hsave : step.isSave with
  | false => exact h.edit hbased (edits_of_not_save _ hsave) (h.settled.step hcounts)
  | true =>
    cases step with
    | saveIncremental env =>
      cases saveIncremental_cases env (base.run steps) with
      | inl hsame => exact h.idle hsame
      | inr hwritten => exact h.materialize rfl hwritten
    | saveCompacted env =>
      rcases saveCompacted_cases env (base.run steps) with hsame | hwritten | ⟨written, hok⟩
      · exact h.idle hsame
      · exact h.materialize rfl hwritten
      · rw [rebases, hok] at hsince
        cases hsince
    | _ => cases hsave

/-- So does every run that is not rebased. -/
theorem Residue.run (hbased : Based base) (hcounts : ∀ step ∈ steps, step.Counts)
    (hsince : SinceRebase base steps) : Residue base steps := by
  induction steps using List.reverseRecOn with
  | nil => exact hbased.residue
  | append_singleton steps step ih =>
    have hbefore := ih (fun earlier hearlier => hcounts earlier (List.mem_append_left _ hearlier))
      hsince.init
    exact hbefore.step hbased (hcounts step (by simp)) hsince.last

theorem based_load {id : DocumentId} {file : LopdfDocument} {d : PdfDocument}
    (h : load id file = .ok d) (hcounted : file.Counted) : Based d := by
  obtain ⟨-, -, -, hincremental, hdirty⟩ := load_eq_ok h
  refine ⟨?_, hdirty, ?_, settled_load h hcounted⟩
  · rw [hincremental]
    rfl
  · rw [hincremental]
    exact hcounted

/-- A compaction starts a new account. -/
theorem based_rebase {d : PdfDocument} (h : d.Settled) {step : SessionStep} (hcounts : step.Counts)
    (hrebases : d.rebases step = true) : Based (d.step step) := by
  have hsettled := h.step hcounts
  cases step with
  | saveCompacted env =>
    rcases hsave : d.saveCompacted env with ⟨e | written, d'⟩
    · rw [rebases, hsave] at hrebases
      cases hrebases
    · obtain ⟨d₁, file, -, -, -, hparse, hrebased⟩ := saveCompacted_ok hsave
      rw [PdfDocument.step, hsave] at hsettled ⊢
      refine ⟨?_, hrebased.dirty, ?_, hsettled⟩
      · rw [hrebased.incremental]
        rfl
      · rw [hrebased.incremental]
        exact hcounts _ _ hparse
  | _ => cases hrebases

omit [LawfulLopdf] in
/-- Without a structural edit only pages are written to, and only their `/Rotate`. -/
theorem PreservesRest.unstructured (h : PreservesRest base steps) (hnone : ¬ Restructured base steps)
    {id : ObjectId} {object : Object}
    (hobject : (base.run steps).incremental.newDocument.objects.lookup id = some object)
    (hbase : id ∈ base.incremental.previous.objects) :
    LiveAtSave base steps id ∧ ∃ original,
      Objects.getObject base.incremental.previous.objects id = .ok original ∧
      (object = original ∨ ∃ dict dict₀, object = .dictionary dict ∧ original = .dictionary dict₀ ∧
        ∀ key, key ≠ "Rotate" → Dictionary.get dict key = Dictionary.get dict₀ key) := by
  constructor
  · rcases h.contents id (Finmap.mem_of_lookup_eq_some hobject) with hroot | hlive | hcreated
    · exact absurd hroot.2 hnone
    · exact hlive
    · exact absurd hbase hcreated.1
  · obtain ⟨original, horiginal, hsame | ⟨dict, dict₀, hdict, hdict₀, hkeys⟩⟩ :=
      h.original id object hobject hbase
    · exact ⟨original, horiginal, .inl hsame⟩
    · refine ⟨original, horiginal, .inr ⟨dict, dict₀, hdict, hdict₀, fun key hkey => ?_⟩⟩
      cases hkeys key with
      | inl hsame => exact hsame
      | inr hrewritable =>
        cases hrewritable with
        | rotate => exact absurd rfl hkey
        | parent _ hchanged => exact absurd hchanged hnone
        | inherited _ hchanged => exact absurd hchanged hnone
        | kids _ hchanged => exact absurd hchanged hnone
        | count _ hchanged => exact absurd hchanged hnone

/-- Since it was opened or last rebased, whatever was edited and saved, a document has appended
nothing but its page tree root, pages that were there at a save and objects it created; what it
appended over the file's own objects differs only in entries saves rewrite; and without a
structural edit it is only pages, and only their `/Rotate`. -/
theorem saving_preserves_the_rest {id : DocumentId} {file : LopdfDocument} {opened : PdfDocument}
    (hload : load id file = .ok opened) (hcounted : file.Counted) (before after : List SessionStep)
    (hcounts : ∀ step ∈ before ++ after, step.Counts)
    (hbase : before = [] ∨ ∃ earlier step, before = earlier ++ [step] ∧
      (opened.run earlier).rebases step = true)
    (hsince : SinceRebase (opened.run before) after) :
    PreservesRest (opened.run before) after ∧
      (¬ Restructured (opened.run before) after → ∀ id object,
        ((opened.run before).run after).incremental.newDocument.objects.lookup id = some object →
        id ∈ (opened.run before).incremental.previous.objects →
        LiveAtSave (opened.run before) after id ∧ ∃ original,
          Objects.getObject (opened.run before).incremental.previous.objects id = .ok original ∧
          (object = original ∨ ∃ dict dict₀, object = .dictionary dict ∧
            original = .dictionary dict₀ ∧
            ∀ key, key ≠ "Rotate" → Dictionary.get dict key = Dictionary.get dict₀ key)) := by
  have hbased : Based (opened.run before) := by
    rcases hbase with rfl | ⟨earlier, step, rfl, hrebases⟩
    · exact based_load hload hcounted
    · rw [run_concat]
      refine based_rebase ((settled_load hload hcounted).run fun other hother => ?_) ?_ hrebases
      · exact hcounts other (by simp [hother])
      · exact hcounts step (by simp)
  have hresidue : Residue (opened.run before) after :=
    .run hbased (fun step hstep => hcounts step (List.mem_append_right _ hstep)) hsince
  exact ⟨hresidue.toPreservesRest, fun hnone id object hobject hold =>
    hresidue.unstructured hnone hobject hold⟩

end
end PdfDocument

/-! ### A page tree root that is listed as a page -/

/-- A reliable save that only reads back files whose object numbers are counted. -/
def SaveEnv.counting : SaveEnv :=
  { SaveEnv.reliable with
    parse := fun file =>
      if file.Counted then .ok file else .error (.malformed "an object number was not counted") }

theorem SaveEnv.counts_counting : SaveEnv.counting.Counts := by
  intro file file' hparse
  unfold counting at hparse
  dsimp only at hparse
  split at hparse
  · rename_i hcounted
    cases hparse
    exact hcounted
  · cases hparse

namespace RootPageFile

open scoped ReferenceLopdf

def root : Dictionary := [("Type", .name "Page"), ("Kids", .array [.reference (2, 0)])]

def file : LopdfDocument where
  version := "1.7"
  objects := [⟨(1, 0), ImportFixture.catalog⟩, ⟨(2, 0), .dictionary root⟩].toFinmap
  trailer := [("Root", .reference (1, 0))]
  maxId := 2

def opened : PdfDocument := (PdfDocument.load 1 file).toOption.get (by decide +kernel)

def plainOpened : PdfDocument :=
  (PdfDocument.load 1 ImportFixture.plainFile).toOption.get (by decide +kernel)

end RootPageFile

namespace PdfDocument

open RootPageFile
open scoped ReferenceLopdf

/-- With no structural edit, turning its page and saving rewrites the root node. -/
theorem root_node_is_rewritten :
    load 1 file = .ok opened ∧ opened.rootPagesId = (2, 0) ∧
    Objects.getObject file.objects (2, 0) = .ok (.dictionary root) ∧
    Dictionary.get root "Rotate" = none ∧
    ∃ d : Dictionary, (opened.run [.rotate 0 .quarter,
        .saveIncremental .counting]).incremental.newDocument.objects.lookup (2, 0) =
      some (.dictionary d) ∧ Dictionary.get d "Rotate" = some (.integer 90) :=
  ⟨rfl, rfl, rfl, rfl, _, rfl, rfl⟩

/-- A page is turned, the document compacted, the page turned again and saved. -/
theorem saving_preserves_the_rest_turned :
    PreservesRest (plainOpened.run [.rotate 0 .quarter, .saveCompacted .counting])
      [.rotate 0 .half, .saveIncremental .counting] := by
  refine (saving_preserves_the_rest (rfl : load 1 ImportFixture.plainFile = .ok plainOpened)
    (by decide +kernel) _ _ ?_ (.inr ⟨[.rotate 0 .quarter], _, rfl, rfl⟩) ?_).1
  · intro step hstep
    simp only [List.cons_append, List.nil_append, List.mem_cons, List.not_mem_nil, or_false] at hstep
    rcases hstep with rfl | rfl | rfl | rfl
    · trivial
    · exact SaveEnv.counts_counting
    · trivial
    · exact SaveEnv.counts_counting
  · intro before step after hsplit
    have hmem : step ∈ [SessionStep.rotate 0 .half, .saveIncremental .counting] := by
      rw [hsplit]
      simp
    simp only [List.mem_cons, List.not_mem_nil, or_false] at hmem
    rcases hmem with rfl | rfl <;> rfl

end PdfDocument
end OpdfEditor
