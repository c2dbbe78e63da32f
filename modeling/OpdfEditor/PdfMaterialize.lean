import OpdfEditor.PdfSave
import OpdfEditor.ObjectGraph

/-!
What writing the pending changes does to the objects of a document: every
dictionary that is written to holds the entries written last, and every other
object stays as it was.
-/
namespace OpdfEditor
namespace IncrementalDocument

/-- The entries some edits write into one object, in order. -/
def editsAt (id : ObjectId) (edits : List Edit) : List (String × Object) :=
  (edits.filter (·.target = id)).map fun edit => (edit.key, edit.value)

@[simp] theorem editsAt_nil (id : ObjectId) : editsAt id [] = [] := rfl

theorem editsAt_cons_self (edit : Edit) (edits : List Edit) :
    editsAt edit.target (edit :: edits) = (edit.key, edit.value) :: editsAt edit.target edits := by
  simp [editsAt]

theorem editsAt_cons_of_ne {id : ObjectId} {edit : Edit} (h : edit.target ≠ id)
    (edits : List Edit) : editsAt id (edit :: edits) = editsAt id edits := by
  simp [editsAt, h]

theorem editsAt_append (id : ObjectId) (edits edits' : List Edit) :
    editsAt id (edits ++ edits') = editsAt id edits ++ editsAt id edits' := by
  simp [editsAt]

theorem mem_editsAt {id : ObjectId} {key : String} {value : Object} {edits : List Edit} :
    (key, value) ∈ editsAt id edits ↔ ⟨id, key, value⟩ ∈ edits := by
  simp only [editsAt, List.mem_map, List.mem_filter, decide_eq_true_eq, Prod.mk.injEq]
  constructor
  · rintro ⟨⟨target, k, v⟩, ⟨hmem, rfl⟩, rfl, rfl⟩
    exact hmem
  · exact fun hmem => ⟨_, ⟨hmem, rfl⟩, rfl, rfl⟩

theorem editsAt_eq_nil {id : ObjectId} {edits : List Edit} :
    editsAt id edits = [] ↔ ∀ edit ∈ edits, edit.target ≠ id := by
  simp [editsAt]

/-- What the appended revision holds under an identifier is no mere reference to another. -/
def Settled (d : IncrementalDocument) (id : ObjectId) : Prop :=
  ∀ object, d.newDocument.objects.lookup id = some object → object.isReference = false

theorem lookup_view_of_new {d : IncrementalDocument} {id : ObjectId} {object : Object}
    (h : d.newDocument.objects.lookup id = some object) : d.view.lookup id = some object := by
  rw [lookup_view, h]
  rfl

variable [Lopdf]

/-- The dictionary an edit of this identifier starts from. -/
def editable (d : IncrementalDocument) (id : ObjectId) : Option Dictionary :=
  match d.newDocument.objects.lookup id with
  | some object => object.asDict
  | none => (Objects.getDictionary d.previous.objects id).toOption

/-- The revision with an edit gone through. -/
def write (d : IncrementalDocument) (edit : Edit) (dict : Dictionary) : IncrementalDocument :=
  { d with newDocument :=
      d.newDocument.setObject edit.target (.dictionary (Dictionary.set edit.key edit.value dict)) }

/-- Nothing but some objects of the appended revision is touched, and none becomes a reference. -/
structure Touched (targets : List ObjectId) (d d' : IncrementalDocument) : Prop where
  previous : d'.previous = d.previous
  fields : d'.newDocument = { d.newDocument with objects := d'.newDocument.objects }
  lookup : ∀ id, d'.newDocument.objects.lookup id = d.newDocument.objects.lookup id ∨
    id ∈ targets ∧ ∃ object, d'.newDocument.objects.lookup id = some object ∧
      object.isReference = false

omit [Lopdf] in
theorem Touched.refl (targets : List ObjectId) (d : IncrementalDocument) : Touched targets d d :=
  ⟨rfl, rfl, fun _ => .inl rfl⟩

omit [Lopdf] in
theorem Touched.trans {targets targets' : List ObjectId} {d e f : IncrementalDocument}
    (h : Touched targets d e) (h' : Touched targets' e f) : Touched (targets ++ targets') d f := by
  refine ⟨h'.previous.trans h.previous, by rw [h'.fields, h.fields], fun id => ?_⟩
  rcases h'.lookup id with hsame | ⟨htarget, hobject⟩
  · rw [hsame]
    rcases h.lookup id with hsame | ⟨htarget, hobject⟩
    · exact .inl hsame
    · exact .inr ⟨List.mem_append_left _ htarget, hobject⟩
  · exact .inr ⟨List.mem_append_right _ htarget, hobject⟩

omit [Lopdf] in
theorem Touched.settled {targets : List ObjectId} {d d' : IncrementalDocument}
    (h : Touched targets d d') {id : ObjectId} (hid : d.Settled id) : d'.Settled id := by
  intro object hobject
  rcases h.lookup id with hsame | ⟨-, written, hwritten, hsettled⟩
  · exact hid object (hsame ▸ hobject)
  · rw [hwritten] at hobject
    cases hobject
    exact hsettled

omit [Lopdf] in
theorem Touched.mem_view {targets : List ObjectId} {d d' : IncrementalDocument}
    (h : Touched targets d d') {id : ObjectId} (hid : id ∈ d.view) : id ∈ d'.view := by
  rw [← Finmap.lookup_isSome, lookup_view] at hid ⊢
  rcases h.lookup id with hsame | ⟨-, object, hobject, -⟩
  · rwa [hsame, h.previous]
  · simp [hobject]

omit [Lopdf] in
theorem touched_set (d : IncrementalDocument) (id : ObjectId) {object : Object}
    (hobject : object.isReference = false) :
    Touched [id] d { d with newDocument := d.newDocument.setObject id object } := by
  refine ⟨rfl, rfl, fun id' => ?_⟩
  by_cases h : id' = id
  · subst h
    exact .inr ⟨List.mem_singleton_self _, object, Finmap.lookup_insert _, hobject⟩
  · exact .inl (Finmap.lookup_insert_of_ne _ h)

section Lawful

variable [LawfulDereference]

theorem getObject_isReference {objects : Objects} {id : ObjectId} {object : Object}
    (h : Objects.getObject objects id = .ok object) : object.isReference = false := by
  unfold Objects.getObject at h
  cases hdereference : Lopdf.dereference objects id with
  | none => simp [hdereference] at h
  | some target =>
    obtain ⟨landed, hlanded, hsettled⟩ := LawfulDereference.dereference_lands hdereference
    simp only [hdereference, Option.bind_some, hlanded, Except.ok.injEq] at h
    exact h ▸ hsettled

theorem modifyDictionary_of_not_dict {objects : Objects} {id : ObjectId} {object : Object}
    (h : objects.lookup id = some object) (hsettled : object.isReference = false)
    (hdict : object.asDict = none) (f : Dictionary → Dictionary) :
    Objects.modifyDictionary objects id f = .error (.malformed (Lopdf.failure objects id)) := by
  simp [Objects.modifyDictionary, LawfulDereference.dereference_self h hsettled, h, hdict]

/-- Where the edited object is no reference, an edit writes its entry into the dictionary it
starts from, or fails where there is none. -/
theorem applyEdit_cases {d : IncrementalDocument} {edit : Edit} (hsettled : d.Settled edit.target) :
    (∃ dict, d.editable edit.target = some dict ∧ d.applyEdit edit = (.ok (), d.write edit dict)) ∨
    d.editable edit.target = none ∧
      ∃ e d', d.applyEdit edit = (.error e, d') ∧ Touched [edit.target] d d' := by
  unfold applyEdit optCloneObjectToNewDocument editable
  cases hnew : d.newDocument.objects.lookup edit.target with
  | some object =>
    rw [if_pos (Finmap.mem_of_lookup_eq_some hnew)]
    cases hdict : object.asDict with
    | some dict =>
      obtain rfl := Object.asDict_eq_some.1 hdict
      refine .inl ⟨dict, rfl, ?_⟩
      dsimp only
      rw [Objects.modifyDictionary_of_lookup hnew]
      rfl
    | none =>
      have hmodify := modifyDictionary_of_not_dict hnew (hsettled object hnew) hdict
        (Dictionary.set edit.key edit.value)
      exact .inr ⟨hdict, _, d, by dsimp only; rw [hmodify], .refl _ d⟩
  | none =>
    rw [if_neg (Finmap.lookup_eq_none.1 hnew)]
    unfold Objects.getDictionary
    cases hobject : Objects.getObject d.previous.objects edit.target with
    | error e => exact .inr ⟨rfl, e, d, rfl, .refl _ d⟩
    | ok object =>
      have hplain := getObject_isReference hobject
      have hlookup : (d.newDocument.setObject edit.target object).objects.lookup edit.target =
          some object := Finmap.lookup_insert _
      cases hdict : object.asDict with
      | some dict =>
        obtain rfl := Object.asDict_eq_some.1 hdict
        refine .inl ⟨dict, by simp [Except.toOption, Object.asDict], ?_⟩
        dsimp only
        rw [Objects.modifyDictionary_of_lookup hlookup]
        simp only [write, LopdfDocument.setObject, Finmap.insert_insert]
      | none =>
        have hmodify := modifyDictionary_of_not_dict hlookup hplain hdict
          (Dictionary.set edit.key edit.value)
        exact .inr ⟨by simp [hdict, Except.toOption], _,
          { d with newDocument := d.newDocument.setObject edit.target object },
          by dsimp only; rw [hmodify],
          touched_set d edit.target hplain⟩

/-- Some edits gone through. -/
structure Edited (edits : List Edit) (d d' : IncrementalDocument) : Prop where
  touched : Touched (edits.map Edit.target) d d'
  written : ∀ edit ∈ edits, ∃ dict, d.editable edit.target = some dict ∧
    d'.newDocument.objects.lookup edit.target =
      some (.dictionary (Dictionary.setAll (editsAt edit.target edits) dict))
  other : ∀ id, (∀ edit ∈ edits, edit.target ≠ id) →
    d'.newDocument.objects.lookup id = d.newDocument.objects.lookup id

omit [LawfulDereference] in
theorem editable_write_of_ne {d : IncrementalDocument} {edit : Edit} {id : ObjectId}
    (h : edit.target ≠ id) (dict : Dictionary) :
    (d.write edit dict).editable id = d.editable id := by
  have hlookup : (d.write edit dict).newDocument.objects.lookup id =
      d.newDocument.objects.lookup id := Finmap.lookup_insert_of_ne _ (Ne.symm h)
  unfold editable
  rw [hlookup]
  rfl

omit [LawfulDereference] in
theorem editable_write_self (d : IncrementalDocument) (edit : Edit) (dict : Dictionary) :
    (d.write edit dict).editable edit.target = some (Dictionary.set edit.key edit.value dict) := by
  have hlookup : (d.write edit dict).newDocument.objects.lookup edit.target =
      some (.dictionary (Dictionary.set edit.key edit.value dict)) := Finmap.lookup_insert _
  unfold editable
  rw [hlookup]
  rfl

omit [Lopdf] [LawfulDereference] in
theorem touched_write (d : IncrementalDocument) (edit : Edit) (dict : Dictionary) :
    Touched [edit.target] d (d.write edit dict) := touched_set d edit.target rfl

/-- Edits go through or stop at the first that fails; either way only their targets are touched. -/
theorem applyEdits_touched {edits : List Edit} {d : IncrementalDocument}
    (hsettled : ∀ edit ∈ edits, d.Settled edit.target) :
    Touched (edits.map Edit.target) d (d.applyEdits edits).2 := by
  induction edits generalizing d with
  | nil => exact .refl _ d
  | cons edit edits ih =>
    unfold applyEdits
    rcases applyEdit_cases (hsettled edit List.mem_cons_self) with
      ⟨dict, -, h⟩ | ⟨-, e, d', h, htouched⟩
    · rw [h]
      have hwrite := touched_write d edit dict
      exact hwrite.trans (ih fun other hother =>
        hwrite.settled (hsettled other (List.mem_cons_of_mem _ hother)))
    · rw [h]
      exact htouched.trans (.refl (edits.map Edit.target) d')

omit [LawfulDereference] in
/-- A first edit and the rest. -/
theorem Edited.cons {edit : Edit} {edits : List Edit} {d d' : IncrementalDocument}
    {dict : Dictionary} (hdict : d.editable edit.target = some dict)
    (h : Edited edits (d.write edit dict) d') : Edited (edit :: edits) d d' := by
  refine ⟨(touched_write d edit dict).trans h.touched, ?_, ?_⟩
  · intro other hother
    by_cases heq : edit.target = other.target
    · refine ⟨dict, heq ▸ hdict, ?_⟩
      rw [← heq, editsAt_cons_self, Dictionary.setAll_cons]
      by_cases hlater : ∃ later ∈ edits, later.target = edit.target
      · obtain ⟨later, hlater, hsame⟩ := hlater
        obtain ⟨dict', hdict', hwritten⟩ := h.written later hlater
        rw [hsame, editable_write_self] at hdict'
        rw [hsame] at hwritten
        cases hdict'
        exact hwritten
      · have hnone : ∀ later ∈ edits, later.target ≠ edit.target := by simpa using hlater
        rw [h.other _ hnone, editsAt_eq_nil.2 hnone]
        exact Finmap.lookup_insert _
    · have hmem : other ∈ edits := by
        rcases List.mem_cons.1 hother with rfl | hmem
        · exact absurd rfl heq
        · exact hmem
      obtain ⟨dict', hdict', hwritten⟩ := h.written other hmem
      rw [editable_write_of_ne heq] at hdict'
      exact ⟨dict', hdict', by rw [hwritten, editsAt_cons_of_ne heq]⟩
  · intro id hid
    rw [h.other id fun later hlater => hid later (List.mem_cons_of_mem _ hlater)]
    exact Finmap.lookup_insert_of_ne _ (Ne.symm (hid edit List.mem_cons_self))

/-- Edits that all go through. -/
theorem applyEdits_edited {edits : List Edit} {d d' : IncrementalDocument}
    (hsettled : ∀ edit ∈ edits, d.Settled edit.target) (h : d.applyEdits edits = (.ok (), d')) :
    Edited edits d d' := by
  induction edits generalizing d with
  | nil =>
    cases h
    exact ⟨.refl _ _, by simp, fun _ _ => rfl⟩
  | cons edit edits ih =>
    unfold applyEdits at h
    rcases applyEdit_cases (hsettled edit List.mem_cons_self) with
      ⟨dict, hdict, hstep⟩ | ⟨-, e, d₁, hstep, -⟩
    · rw [hstep] at h
      exact .cons hdict (ih (fun other hother => (touched_write d edit dict).settled
        (hsettled other (List.mem_cons_of_mem _ hother))) h)
    · rw [hstep] at h
      cases h

/-- Edits of dictionaries all go through. -/
theorem applyEdits_succeeds {edits : List Edit} {d : IncrementalDocument}
    (hsettled : ∀ edit ∈ edits, d.Settled edit.target)
    (hdict : ∀ edit ∈ edits, (d.editable edit.target).isSome) :
    ∃ d', d.applyEdits edits = (.ok (), d') := by
  induction edits generalizing d with
  | nil => exact ⟨d, rfl⟩
  | cons edit edits ih =>
    unfold applyEdits
    rcases applyEdit_cases (hsettled edit List.mem_cons_self) with
      ⟨dict, -, hstep⟩ | ⟨hnone, -⟩
    · rw [hstep]
      dsimp only
      have hsettled' : ∀ other ∈ edits, (d.write edit dict).Settled other.target :=
        fun other hother => (touched_write d edit dict).settled
          (hsettled other (List.mem_cons_of_mem _ hother))
      refine ih hsettled' fun other hother => ?_
      by_cases heq : edit.target = other.target
      · rw [← heq, editable_write_self]
        rfl
      · rw [editable_write_of_ne heq]
        exact hdict other (List.mem_cons_of_mem _ hother)
    · have hsome := hdict edit List.mem_cons_self
      rw [hnone] at hsome
      cases hsome

end Lawful
end IncrementalDocument

/-! ### The pending changes of a document -/

namespace PdfDocument

variable [Lopdf]

/-- An entry the next save writes. -/
inductive Pending (d : PdfDocument) : Edit → Prop
  | inherited {slot : PageSlot} {key : String} {value : Object} :
    d.dirty.structural = true → slot ∈ d.pages.live →
      (key, value) ∈ inheritedAttributes d.incremental.previous slot.objectId →
        Pending d ⟨slot.objectId, key, value⟩
  | parent {slot : PageSlot} : d.dirty.structural = true → slot ∈ d.pages.live →
      Pending d ⟨slot.objectId, "Parent", .reference d.rootPagesId⟩
  | kids : d.dirty.structural = true → Pending d ⟨d.rootPagesId, "Kids", .array d.flatKids⟩
  | count : d.dirty.structural = true →
      Pending d ⟨d.rootPagesId, "Count", .integer d.pages.live.length⟩
  | rotation {slot : PageSlot} : d.dirty.rotations = true → slot ∈ d.pages.live →
      slot.rotationChanged = true →
        Pending d ⟨slot.objectId, "Rotate", .integer slot.rotation.degrees⟩

theorem mem_inheritedEdits {d : PdfDocument} {edit : Edit} :
    edit ∈ d.inheritedEdits ↔ ∃ slot ∈ d.pages.live,
      ∃ entry ∈ inheritedAttributes d.incremental.previous slot.objectId,
        edit = ⟨slot.objectId, entry.1, entry.2⟩ := by
  simp only [inheritedEdits, List.mem_flatMap, List.mem_map, eq_comm]

omit [Lopdf] in
theorem mem_pageTreeEdits {d : PdfDocument} {edit : Edit} :
    edit ∈ d.pageTreeEdits ↔
      (∃ slot ∈ d.pages.live, edit = ⟨slot.objectId, "Parent", .reference d.rootPagesId⟩) ∨
      edit = ⟨d.rootPagesId, "Kids", .array d.flatKids⟩ ∨
      edit = ⟨d.rootPagesId, "Count", .integer d.pages.live.length⟩ := by
  simp only [pageTreeEdits, List.mem_append, List.mem_map, List.mem_cons, List.not_mem_nil, or_false,
    eq_comm]

omit [Lopdf] in
theorem mem_rotationEdits {d : PdfDocument} {edit : Edit} :
    edit ∈ d.rotationEdits ↔ ∃ slot ∈ d.pages.live, slot.rotationChanged = true ∧
      edit = ⟨slot.objectId, "Rotate", .integer slot.rotation.degrees⟩ := by
  simp only [rotationEdits, List.mem_map, List.mem_filter, and_assoc, eq_comm]

/-- What a save writes, entry by entry. -/
theorem mem_pendingEdits {d : PdfDocument} {edit : Edit} :
    edit ∈ d.pendingEdits ↔ d.Pending edit := by
  unfold pendingEdits
  constructor
  · intro h
    rcases List.mem_append.1 h with h | h
    · cases hstructural : d.dirty.structural with
      | false => simp [hstructural] at h
      | true =>
        rw [hstructural, if_pos rfl] at h
        rcases List.mem_append.1 h with h | h
        · obtain ⟨slot, hslot, entry, hentry, rfl⟩ := mem_inheritedEdits.1 h
          exact .inherited hstructural hslot hentry
        · rcases mem_pageTreeEdits.1 h with ⟨slot, hslot, rfl⟩ | rfl | rfl
          · exact .parent hstructural hslot
          · exact .kids hstructural
          · exact .count hstructural
    · cases hrotations : d.dirty.rotations with
      | false => simp [hrotations] at h
      | true =>
        rw [hrotations, if_pos rfl] at h
        obtain ⟨slot, hslot, hchanged, rfl⟩ := mem_rotationEdits.1 h
        exact .rotation hrotations hslot hchanged
  · intro h
    refine List.mem_append.2 ?_
    cases h with
    | inherited hstructural hslot hentry =>
      rw [if_pos hstructural]
      exact .inl (List.mem_append_left _ (mem_inheritedEdits.2 ⟨_, hslot, _, hentry, rfl⟩))
    | parent hstructural hslot =>
      rw [if_pos hstructural]
      exact .inl (List.mem_append_right _ (mem_pageTreeEdits.2 (.inl ⟨_, hslot, rfl⟩)))
    | kids hstructural =>
      rw [if_pos hstructural]
      exact .inl (List.mem_append_right _ (mem_pageTreeEdits.2 (.inr (.inl rfl))))
    | count hstructural =>
      rw [if_pos hstructural]
      exact .inl (List.mem_append_right _ (mem_pageTreeEdits.2 (.inr (.inr rfl))))
    | rotation hrotations hslot hchanged =>
      rw [if_pos hrotations]
      exact .inr (mem_rotationEdits.2 ⟨_, hslot, hchanged, rfl⟩)

/-- What a save leaves under a key of an object it writes to. -/
def lastWritten (d : PdfDocument) (id : ObjectId) (key : String) : Option Object :=
  Dictionary.get (IncrementalDocument.editsAt id d.pendingEdits).reverse key

theorem pending_of_lastWritten {d : PdfDocument} {id : ObjectId} {key : String} {value : Object}
    (h : d.lastWritten id key = some value) : d.Pending ⟨id, key, value⟩ := by
  have hmem : (key, value) ∈ IncrementalDocument.editsAt id d.pendingEdits :=
    List.mem_reverse.1 (Dictionary.mem_of_get h)
  exact mem_pendingEdits.1 (IncrementalDocument.mem_editsAt.1 hmem)

theorem lastWritten_eq_none {d : PdfDocument} {id : ObjectId} {key : String} :
    d.lastWritten id key = none ↔ ∀ value, ¬ d.Pending ⟨id, key, value⟩ := by
  simp only [lastWritten, Dictionary.get_eq_none, List.mem_reverse, Prod.forall,
    IncrementalDocument.mem_editsAt, mem_pendingEdits]
  constructor
  · exact fun h value hpending => h key value hpending rfl
  · rintro h k value hpending rfl
    exact h value hpending

/-- Where only one value is written, that is what is left. -/
theorem lastWritten_of_unique {d : PdfDocument} {id : ObjectId} {key : String} {value : Object}
    (h : d.Pending ⟨id, key, value⟩) (hunique : ∀ other, d.Pending ⟨id, key, other⟩ → other = value) :
    d.lastWritten id key = some value := by
  cases hlast : d.lastWritten id key with
  | none => exact absurd h (lastWritten_eq_none.1 hlast value)
  | some other => rw [hunique other (pending_of_lastWritten hlast)]

/-- An explicit rotation is written after everything else. -/
theorem lastWritten_rotation {d : PdfDocument} {slot : PageSlot} (hrotations : d.dirty.rotations = true)
    (hslot : slot ∈ d.pages.live) (hchanged : slot.rotationChanged = true) :
    ∃ other ∈ d.pages.live, other.rotationChanged = true ∧ other.objectId = slot.objectId ∧
      d.lastWritten slot.objectId "Rotate" = some (.integer other.rotation.degrees) := by
  let rotations := (IncrementalDocument.editsAt slot.objectId d.rotationEdits).reverse
  have hmem : ("Rotate", Object.integer slot.rotation.degrees) ∈ rotations :=
    List.mem_reverse.2 (IncrementalDocument.mem_editsAt.2
      (mem_rotationEdits.2 ⟨slot, hslot, hchanged, rfl⟩))
  cases hget : Dictionary.get rotations "Rotate" with
  | none => exact absurd rfl (Dictionary.get_eq_none.1 hget _ hmem)
  | some value =>
    obtain ⟨other, hother, hchanged', heq⟩ := mem_rotationEdits.1
      (IncrementalDocument.mem_editsAt.1 (List.mem_reverse.1 (Dictionary.mem_of_get hget)))
    obtain ⟨htarget, -, rfl⟩ := Edit.mk.injEq .. ▸ heq
    refine ⟨other, hother, hchanged', htarget.symm, ?_⟩
    simp only [lastWritten, pendingEdits, hrotations, if_true, IncrementalDocument.editsAt_append,
      List.reverse_append, Dictionary.get, List.lookup_append]
    exact Option.or_of_isSome (Option.isSome_of_eq_some hget) |>.trans hget

def Rotates (d : PdfDocument) (id : ObjectId) : Prop :=
  d.dirty.rotations = true ∧ ∃ slot ∈ d.pages.live, slot.rotationChanged = true ∧ slot.objectId = id

/-- What a page of the file inherits: what it finds and does not carry. -/
theorem mem_inheritedAttributes {previous : LopdfDocument} {id : ObjectId} {key : String}
    {value : Object} : (key, value) ∈ inheritedAttributes previous id ↔
      id ∈ previous.objects ∧ key ∈ inheritableKeys ∧ carriesOwn previous id key = false ∧
        findInheritedAttribute previous.objects id key = some value := by
  unfold inheritedAttributes
  by_cases hid : id ∈ previous.objects
  swap
  · simp [hid]
  rw [if_pos hid, List.mem_filterMap]
  constructor
  · rintro ⟨found, hmem, hfound⟩
    split at hfound
    · cases hfound
    · rename_i hown
      obtain ⟨object, hobject, heq⟩ := Option.map_eq_some_iff.1 hfound
      cases heq
      exact ⟨hid, hmem, Bool.eq_false_iff.2 hown, hobject⟩
  · rintro ⟨-, hmem, hown, hfound⟩
    exact ⟨key, hmem, by rw [hown, hfound]; rfl⟩

/-- What a page inherits is told by the key. -/
theorem inheritedAttributes_unique {previous : LopdfDocument} {id : ObjectId} {key : String}
    {value value' : Object} (h : (key, value) ∈ inheritedAttributes previous id)
    (h' : (key, value') ∈ inheritedAttributes previous id) : value = value' := by
  obtain ⟨-, -, -, hfound⟩ := mem_inheritedAttributes.1 h
  obtain ⟨-, -, -, hfound'⟩ := mem_inheritedAttributes.1 h'
  exact Option.some.inj (hfound.symm.trans hfound')

/-- Every pending entry told by its key. -/
theorem Pending.inv {d : PdfDocument} {id : ObjectId} {key : String} {value : Object}
    (h : d.Pending ⟨id, key, value⟩) :
    (key ∈ inheritableKeys ∧ (key, value) ∈ inheritedAttributes d.incremental.previous id) ∨
    (key = "Parent" ∧ value = .reference d.rootPagesId) ∨
    (key = "Kids" ∧ value = .array d.flatKids) ∨
    (key = "Count" ∧ value = .integer d.pages.live.length) ∨
    (key = "Rotate" ∧ d.Rotates id) := by
  generalize hedit : (⟨id, key, value⟩ : Edit) = edit at h
  cases h with
  | inherited _ _ hinherited =>
    obtain ⟨rfl, rfl, rfl⟩ := Edit.mk.injEq .. ▸ hedit
    exact .inl ⟨(mem_inheritedAttributes.1 hinherited).2.1, hinherited⟩
  | parent _ _ =>
    obtain ⟨rfl, rfl, rfl⟩ := Edit.mk.injEq .. ▸ hedit
    exact .inr (.inl ⟨rfl, rfl⟩)
  | kids _ =>
    obtain ⟨rfl, rfl, rfl⟩ := Edit.mk.injEq .. ▸ hedit
    exact .inr (.inr (.inl ⟨rfl, rfl⟩))
  | count _ =>
    obtain ⟨rfl, rfl, rfl⟩ := Edit.mk.injEq .. ▸ hedit
    exact .inr (.inr (.inr (.inl ⟨rfl, rfl⟩)))
  | rotation hrotations hslot hchanged =>
    obtain ⟨rfl, rfl, rfl⟩ := Edit.mk.injEq .. ▸ hedit
    exact .inr (.inr (.inr (.inr ⟨rfl, hrotations, _, hslot, hchanged, rfl⟩)))

/-- A tree that is flattened hangs every page under its root. -/
theorem lastWritten_parent {d : PdfDocument} {slot : PageSlot}
    (hstructural : d.dirty.structural = true) (hslot : slot ∈ d.pages.live) :
    d.lastWritten slot.objectId "Parent" = some (.reference d.rootPagesId) := by
  refine lastWritten_of_unique (.parent hstructural hslot) fun other hother => ?_
  rcases hother.inv with ⟨hkey, -⟩ | ⟨-, hvalue⟩ | ⟨hkey, -⟩ | ⟨hkey, -⟩ | ⟨hkey, -⟩
  · simp [inheritableKeys] at hkey
  · exact hvalue
  all_goals exact absurd hkey (by decide)

/-- Its root lists every page. -/
theorem lastWritten_kids {d : PdfDocument} (hstructural : d.dirty.structural = true) :
    d.lastWritten d.rootPagesId "Kids" = some (.array d.flatKids) := by
  refine lastWritten_of_unique (.kids hstructural) fun other hother => ?_
  rcases hother.inv with ⟨hkey, -⟩ | ⟨hkey, -⟩ | ⟨-, hvalue⟩ | ⟨hkey, -⟩ | ⟨hkey, -⟩
  · simp [inheritableKeys] at hkey
  · exact absurd hkey (by decide)
  · exact hvalue
  all_goals exact absurd hkey (by decide)

/-- An inherited value is what a save leaves, unless an explicit rotation takes its place. -/
theorem lastWritten_inherited {d : PdfDocument} {slot : PageSlot} {key : String} {value : Object}
    (hstructural : d.dirty.structural = true) (hslot : slot ∈ d.pages.live)
    (hinherited : (key, value) ∈ inheritedAttributes d.incremental.previous slot.objectId)
    (hrotates : ¬ (key = "Rotate" ∧ d.Rotates slot.objectId)) :
    d.lastWritten slot.objectId key = some value := by
  obtain ⟨-, hkey, -⟩ := mem_inheritedAttributes.1 hinherited
  refine lastWritten_of_unique (.inherited hstructural hslot hinherited) fun other hother => ?_
  rcases hother.inv with ⟨-, hinherited'⟩ | ⟨rfl, -⟩ | ⟨rfl, -⟩ | ⟨rfl, -⟩ | hrotate
  · exact inheritedAttributes_unique hinherited' hinherited
  · simp [inheritableKeys] at hkey
  · simp [inheritableKeys] at hkey
  · simp [inheritableKeys] at hkey
  · exact absurd hrotate hrotates

/-- The identifiers of the page tree root and of every page, live or removed. -/
def Names (d : PdfDocument) (id : ObjectId) : Prop :=
  id = d.rootPagesId ∨ ∃ slot ∈ d.pages.known, slot.objectId = id

/-- Saves write into the root and into pages only. -/
theorem Pending.names {d : PdfDocument} {edit : Edit} (h : d.Pending edit) : d.Names edit.target := by
  cases h with
  | inherited _ hslot _ => exact .inr ⟨_, List.mem_append_left _ hslot, rfl⟩
  | parent _ hslot => exact .inr ⟨_, List.mem_append_left _ hslot, rfl⟩
  | kids _ => exact .inl rfl
  | count _ => exact .inl rfl
  | rotation _ hslot _ => exact .inr ⟨_, List.mem_append_left _ hslot, rfl⟩

/-- The objects a save may write to were handed out already, and none of them is a reference. -/
structure Settled (d : PdfDocument) : Prop where
  bounded : ∀ id, d.Names id → id.1 ≤ d.incremental.newDocument.maxId
  settled : ∀ id, d.Names id → d.incremental.Settled id

open IncrementalDocument (Touched Edited)

/-- A save touches nothing but the objects it writes into. -/
theorem materializeChanges_touched [LawfulDereference] {d : PdfDocument} (h : d.Settled) :
    Touched (d.pendingEdits.map Edit.target) d.incremental (d.materializeChanges).2.incremental := by
  have htouched := IncrementalDocument.applyEdits_touched fun edit hedit =>
    h.settled _ (mem_pendingEdits.1 hedit).names
  unfold materializeChanges
  rcases happly : d.incremental.applyEdits d.pendingEdits with ⟨result, incremental⟩
  rw [happly] at htouched
  exact htouched

/-- One that goes through has written all it had to. -/
theorem materializeChanges_edited [LawfulDereference] {d d' : PdfDocument} (h : d.Settled)
    (hm : d.materializeChanges = (.ok (), d')) :
    Edited d.pendingEdits d.incremental d'.incremental ∧
      d' = { d with incremental := d'.incremental } := by
  unfold materializeChanges at hm
  rcases happly : d.incremental.applyEdits d.pendingEdits with ⟨result, incremental⟩
  rw [happly] at hm
  cases hm
  exact ⟨IncrementalDocument.applyEdits_edited (fun edit hedit =>
    h.settled _ (mem_pendingEdits.1 hedit).names) happly, rfl⟩

/-- An object nothing is pending for stays as it is. -/
theorem lookup_materialized_of_idle [LawfulDereference] {d d' : PdfDocument} (h : d.Settled)
    (hm : d.materializeChanges = (.ok (), d')) {id : ObjectId}
    (hidle : ∀ key value, ¬ d.Pending ⟨id, key, value⟩) : d'.view.lookup id = d.view.lookup id := by
  obtain ⟨hedited, -⟩ := materializeChanges_edited h hm
  have hother := hedited.other id fun edit hedit htarget =>
    hidle edit.key edit.value (htarget ▸ mem_pendingEdits.1 hedit)
  unfold view
  rw [IncrementalDocument.lookup_view, IncrementalDocument.lookup_view, hother,
    hedited.touched.previous]

end PdfDocument
end OpdfEditor
