import OpdfEditor.DiffDigests

/-!
What an empty comparison says about two documents. Following one path of keys and positions from
both catalogs leads to values that agree, provided that wherever it leads to two references
reading alike as deep as the rounds go settles what the references stand for.
-/
namespace OpdfEditor
namespace Roundtrip

open ColourRefinement (TextsMatch Alike colour)

section Graph

variable [Lopdf] [StreamDecoder]

/-- The value a path leads to from the catalog; references are followed on the way. -/
def valueAt (document : LopdfDocument) (path : List PathStep) : Option Object :=
  path.foldl (fun value step => (value.bind (dereference document.objects)).bind (child · step))
    ((rootReference document).map .reference)

/-- The shape of the value a path leads to, and of what it refers to unless that is missing. -/
def viewAt (document : LopdfDocument) (path : List PathStep) : Option (Shape × Option Shape) :=
  (valueAt document path).map fun value =>
    (shape value, (dereference document.objects value).map shape)

/-- Every path leads to equal values from both catalogs, and dangles in both or neither. -/
def GraphsAgree (before after : LopdfDocument) : Prop :=
  ∀ path, viewAt before path = viewAt after path

/-- What is fed for two identifiers agrees so many references deep. -/
def ReadAlike (before after : LopdfDocument) : Nat → ObjectId → ObjectId → Prop :=
  Alike (textAt before.objects) (textAt after.objects)

/-- References on one path that read alike, as deep as the last round but one, name objects that
are equivalent with their own references reading alike as deep. -/
def Settled (before after : LopdfDocument) : Prop :=
  ∀ path id id', valueAt before path = some (.reference id) →
    valueAt after path = some (.reference id') →
      ReadAlike before after (refinementRounds - 1) id id' →
        TargetsEquivalent (ReadAlike before after (refinementRounds - 1)) before after id id'

@[simp] theorem valueAt_nil (document : LopdfDocument) :
    valueAt document [] = (rootReference document).map .reference := rfl

theorem valueAt_concat (document : LopdfDocument) (path : List PathStep) (step : PathStep) :
    valueAt document (path ++ [step]) =
      ((valueAt document path).bind (dereference document.objects)).bind (child · step) := by
  simp [valueAt]

omit [StreamDecoder] in
theorem dereference_of_value {objects : Objects} {object : Object} (h : object.isReference = false) :
    dereference objects object = some object := by
  cases object <;> first | rfl | cases h

omit [Lopdf] in
theorem isReference_of_shape {object object' : Object} (h : shape object = shape object') :
    object.isReference = object'.isReference := by
  cases object <;> cases object' <;> first | rfl | cases h

/-! ### From the catalogs along a path -/

/-- Following equivalent references is settled, and other values stand for themselves. -/
theorem Settled.dereference {before after : LopdfDocument} (h : Settled before after)
    {path : List PathStep} {value value' : Object} (hvalue : valueAt before path = some value)
    (hvalue' : valueAt after path = some value')
    (hequivalent : Equivalent (ReadAlike before after (refinementRounds - 1)) value value') :
    Option.Rel (Equivalent (ReadAlike before after (refinementRounds - 1)))
      (dereference before.objects value) (dereference after.objects value') := by
  cases hequivalent with
  | reference hid => exact h path _ _ hvalue hvalue' hid
  | value hobject hshape hvalues =>
    rw [dereference_of_value hobject,
      dereference_of_value ((isReference_of_shape hshape).symm.trans hobject)]
    exact .some (.value hobject hshape hvalues)

theorem Settled.equivalent {before after : LopdfDocument} (h : Settled before after)
    (hroot : Option.Rel (ReadAlike before after (refinementRounds - 1)) (rootReference before)
      (rootReference after)) (path : List PathStep) :
    Option.Rel (Equivalent (ReadAlike before after (refinementRounds - 1))) (valueAt before path)
      (valueAt after path) := by
  induction path using List.reverseRecOn with
  | nil =>
    rw [valueAt_nil, valueAt_nil, Option.map_eq_bind, Option.map_eq_bind]
    exact rel_bind hroot fun id id' _ _ hid => .some (.reference hid)
  | append_singleton path step ih =>
    rw [valueAt_concat, valueAt_concat]
    exact rel_bind
      (rel_bind ih fun value value' hvalue hvalue' => h.dereference hvalue hvalue')
      fun object object' _ _ hobjects => hobjects.child step

/-! ### Back from agreement along every path -/

/-- Some path leads to both references. -/
def Reached (before after : LopdfDocument) (id id' : ObjectId) : Prop :=
  ∃ path, valueAt before path = some (.reference id) ∧ valueAt after path = some (.reference id')

section

variable {before after : LopdfDocument}

theorem GraphsAgree.view_eq (h : GraphsAgree before after) {path : List PathStep}
    {value value' : Object} (hvalue : valueAt before path = some value)
    (hvalue' : valueAt after path = some value') : shape value = shape value' ∧
      (dereference before.objects value).map shape = (dereference after.objects value').map shape := by
  have hview := h path
  simpa [viewAt, hvalue, hvalue'] using hview

/-- What one path leads to is equivalent, references being related when a path leads to both. -/
theorem GraphsAgree.equivalent (h : GraphsAgree before after) {value : Object}
    {path : List PathStep} {value' : Object} (hvalue : valueAt before path = some value)
    (hvalue' : valueAt after path = some value') :
    Equivalent (Reached before after) value value' := by
  induction value using Object.childInduction generalizing path value' with
  | step value ih =>
    have hshape := (h.view_eq hvalue hvalue').1
    cases hreference : value.isReference with
    | true =>
      have hreference' := (isReference_of_shape hshape).symm.trans hreference
      cases value <;> cases hreference
      cases value' <;> cases hreference'
      exact .reference ⟨path, hvalue, hvalue'⟩
    | false =>
      have hreference' := (isReference_of_shape hshape).symm.trans hreference
      refine .value hreference hshape fun step c c' hc hc' => ?_
      have hstep : valueAt before (path ++ [step]) = some c := by
        rw [valueAt_concat, hvalue, Option.bind_some, dereference_of_value hreference]
        exact hc
      have hstep' : valueAt after (path ++ [step]) = some c' := by
        rw [valueAt_concat, hvalue', Option.bind_some, dereference_of_value hreference']
        exact hc'
      exact ih c (mem_children_of_child hc) hstep hstep'

variable [LawfulDereference]

omit [StreamDecoder] in
theorem isReference_of_getObject {objects : Objects} {id : ObjectId} {object : Object}
    (h : Objects.getObject objects id = .ok object) : object.isReference = false := by
  obtain ⟨target, htarget, hlookup⟩ := lookup_of_getObject h
  obtain ⟨landed, hlanded, hlands⟩ := LawfulDereference.dereference_lands htarget
  rw [hlookup] at hlanded
  exact Option.some.inj hlanded ▸ hlands

omit [StreamDecoder] in
theorem isReference_of_dereference {objects : Objects} {id : ObjectId} {object : Object}
    (h : dereference objects (.reference id) = some object) : object.isReference = false := by
  cases hobject : Objects.getObject objects id with
  | error e => simp [dereference, hobject, Except.toOption] at h
  | ok found =>
    have heq : found = object := by simpa [dereference, hobject, Except.toOption] using h
    exact isReference_of_getObject (heq ▸ hobject)

theorem GraphsAgree.targets (h : GraphsAgree before after) {id id' : ObjectId}
    (hreached : Reached before after id id') :
    TargetsEquivalent (Reached before after) before after id id' := by
  obtain ⟨path, hvalue, hvalue'⟩ := hreached
  have htargets := (h.view_eq hvalue hvalue').2
  change Option.Rel _ (dereference before.objects (.reference id))
    (dereference after.objects (.reference id'))
  cases hobject : dereference before.objects (.reference id) with
  | none =>
    rw [hobject, Option.map_none, eq_comm, Option.map_eq_none_iff] at htargets
    rw [htargets]
    exact .none
  | some object =>
    rw [hobject, Option.map_some, eq_comm, Option.map_eq_some_iff] at htargets
    obtain ⟨object', hobject', hshape⟩ := htargets
    rw [hobject']
    refine .some (.value (isReference_of_dereference hobject) hshape.symm fun step c c' hc hc' => ?_)
    have hstep : valueAt before (path ++ [step]) = some c := by
      rw [valueAt_concat, hvalue, Option.bind_some, hobject]
      exact hc
    have hstep' : valueAt after (path ++ [step]) = some c' := by
      rw [valueAt_concat, hvalue', Option.bind_some, hobject']
      exact hc'
    exact h.equivalent hstep hstep'

end

variable [LawfulDereference] {before after : ParsedDocument}

/-- In documents that agree, references on one path read alike at every depth. -/
theorem GraphsAgree.readAlike (h : GraphsAgree before.toLopdfDocument after.toLopdfDocument) (n : Nat)
    {id id' : ObjectId} (hreached : Reached before.toLopdfDocument after.toLopdfDocument id id') :
    ReadAlike before.toLopdfDocument after.toLopdfDocument n id id' :=
  ColourRefinement.alike_of_simulation (fun _ _ hids => (h.targets hids).agree) n hreached

theorem GraphsAgree.settled (h : GraphsAgree before.toLopdfDocument after.toLopdfDocument) :
    Settled before.toLopdfDocument after.toLopdfDocument := by
  intro path id id' hvalue hvalue' _
  exact rel_mono (fun _ _ hequivalent => hequivalent.mono fun _ _ hids => h.readAlike _ hids)
    (h.targets ⟨path, hvalue, hvalue'⟩)

variable {D : Type} [Sha256 D] [DecidableEq D]

/-- Documents that agree along every path are never told apart at the catalog. -/
theorem documentChanged_of_agree
    (h : GraphsAgree before.toLopdfDocument after.toLopdfDocument) :
    (diffBytes D before.toLopdfDocument after.toLopdfDocument).documentChanged = false := by
  have hroots : Option.Rel (ReadAlike before.toLopdfDocument after.toLopdfDocument refinementRounds)
      (rootReference before.toLopdfDocument) (rootReference after.toLopdfDocument) := by
    refine rel_of_isSome ?_ fun root root' hroot hroot' => h.readAlike _ ⟨[], ?_, ?_⟩
    · simpa [viewAt] using congrArg Option.isSome (h [])
    · rw [valueAt_nil, hroot, Option.map_some]
    · rw [valueAt_nil, hroot', Option.map_some]
  have hdigests : (catalogDigest before.toLopdfDocument
      (refineObjectDigests before.toLopdfDocument) : Option D) =
        catalogDigest after.toLopdfDocument (refineObjectDigests after.toLopdfDocument) := by
    rw [catalogDigest_eq, catalogDigest_eq]
    exact map_eq_of_rel hroots fun _ _ _ _ hread => ColourRefinement.colour_eq_of_alike _ _ _ hread
  simp [diffBytes, hdigests]

variable [LawfulSha256 D]

omit [LawfulDereference] in
/-- Where the comparison finds nothing, both catalogs read alike. -/
theorem readAlike_of_isEmpty {before after : LopdfDocument}
    (h : (diffBytes D before after).isEmpty = true) :
    Option.Rel (ReadAlike before after (refinementRounds - 1)) (rootReference before)
      (rootReference after) := by
  have hdigests : (catalogDigest before (refineObjectDigests before) : Option D) =
      catalogDigest after (refineObjectDigests after) := by
    by_contra hne
    simp [StructuralDiff.isEmpty, diffBytes, hne] at h
  rw [catalogDigest_eq, catalogDigest_eq] at hdigests
  cases hroot : rootReference before with
  | none =>
    rw [hroot, Option.map_none, eq_comm, Option.map_eq_none_iff] at hdigests
    rw [hdigests]
    exact .none
  | some root =>
    rw [hroot, Option.map_some, eq_comm, Option.map_eq_some_iff] at hdigests
    obtain ⟨root', hroot', hcolours⟩ := hdigests
    rw [hroot']
    exact .some (ColourRefinement.Alike.pred
      ((ColourRefinement.colour_eq_iff LawfulSha256.injective _ _).1 hcolours.symm))

/-- Where the comparison finds nothing, the documents agree along every path exactly if what
reads alike as deep as the rounds go is settled. -/
theorem empty_diff_is_sound_iff (hempty : (diffBytes D before.toLopdfDocument
    after.toLopdfDocument).isEmpty = true) :
    GraphsAgree before.toLopdfDocument after.toLopdfDocument ↔
      Settled before.toLopdfDocument after.toLopdfDocument := by
  constructor
  · exact GraphsAgree.settled
  · intro hsettled path
    have hvalues := hsettled.equivalent (readAlike_of_isEmpty hempty) path
    refine map_eq_of_rel hvalues fun value value' hvalue hvalue' hequivalent => ?_
    have htargets := hsettled.dereference hvalue hvalue' hequivalent
    have hshapes := map_eq_of_rel htargets fun _ _ _ _ hobjects => hobjects.shape_eq
    rw [hequivalent.shape_eq, hshapes]

end Graph

/-! ### Three references are not deep enough -/

def outlineEntry (title : String) (beside : List (String × ObjectId)) : Object :=
  .dictionary (("Title", .string title .literal) :: ("Parent", .reference (4, 0)) ::
    beside.map fun entry => (entry.1, .reference entry.2))

def bookmarks (third : String) : LopdfDocument where
  version := "1.7"
  objects := [
    ⟨(1, 0), .dictionary [("Type", .name "Catalog"), ("Pages", .reference (2, 0)),
      ("Outlines", .reference (4, 0))]⟩,
    ⟨(2, 0), .dictionary [("Type", .name "Pages"), ("Count", .integer 1),
      ("Kids", .array [.reference (3, 0)])]⟩,
    ⟨(3, 0), .dictionary [("Type", .name "Page"), ("Parent", .reference (2, 0)),
      ("MediaBox", .array [.integer 0, .integer 0, .integer 612, .integer 792])]⟩,
    ⟨(4, 0), .dictionary [("Type", .name "Outlines"), ("Count", .integer 5),
      ("First", .reference (5, 0)), ("Last", .reference (9, 0))]⟩,
    ⟨(5, 0), outlineEntry "Preface" [("Next", (6, 0))]⟩,
    ⟨(6, 0), outlineEntry "Methods" [("Prev", (5, 0)), ("Next", (7, 0))]⟩,
    ⟨(7, 0), outlineEntry third [("Prev", (6, 0)), ("Next", (8, 0))]⟩,
    ⟨(8, 0), outlineEntry "Remarks" [("Prev", (7, 0)), ("Next", (9, 0))]⟩,
    ⟨(9, 0), outlineEntry "Index" [("Prev", (8, 0))]⟩].toFinmap
  trailer := [("Root", .reference (1, 0))]
  maxId := 9

section Bookmarks

open scoped ReferenceLopdf NumberedDigests

def results : ParsedDocument where
  toLopdfDocument := bookmarks "Results"
  keysOnce := by decide +kernel

def retracted : ParsedDocument where
  toLopdfDocument := bookmarks "Retracted"
  keysOnce := by decide +kernel

def entriesAway : ObjectId → Nat
  | (1, 0) => 4
  | (2, 0) => 4
  | (3, 0) => 4
  | (4, 0) => 3
  | (5, 0) => 2
  | (6, 0) => 1
  | (8, 0) => 1
  | (9, 0) => 2
  | _ => 0

/-- Away from the third entry the two files are fed alike, and a reference leads at most one
closer to it. -/
theorem textAt_bookmarks : ∀ id ∈ [(1, 0), (2, 0), (3, 0), (4, 0), (5, 0), (6, 0), (8, 0), (9, 0)],
    textAt results.objects id = textAt retracted.objects id ∧
      ∀ glyph ∈ textAt results.objects id, ∀ target ∈ glyph.vertex,
        entriesAway id ≤ entriesAway target + 1 := by
  decide +kernel

theorem mem_of_entriesAway {id : ObjectId} (h : 0 < entriesAway id) :
    id ∈ [(1, 0), (2, 0), (3, 0), (4, 0), (5, 0), (6, 0), (8, 0), (9, 0)] := by
  unfold entriesAway at h
  split at h <;> first | omega | simp

theorem bookmarks_readAlike (n : Nat) {id : ObjectId} (h : n ≤ entriesAway id) :
    ReadAlike results.toLopdfDocument retracted.toLopdfDocument n id id := by
  refine ColourRefinement.alike_of_near (fun n id => n ≤ entriesAway id) ?_ n h
  intro n id hid
  obtain ⟨htext, hmarks⟩ := textAt_bookmarks id (mem_of_entriesAway (Nat.lt_of_lt_of_le n.succ_pos hid))
  refine ⟨htext, fun target htarget => ?_⟩
  have hcloser := hmarks _ htarget target rfl
  omega

/-- The page refers to nothing, so what is fed for it does not depend on digests. -/
theorem bookmarks_page (digests digests' : ObjectId → Option Nat) :
    (pageContentDigest results.toLopdfDocument (3, 0) digests : Nat) =
      pageContentDigest retracted.toLopdfDocument (3, 0) digests' := by
  have htext : pageText results.objects (3, 0) = pageText retracted.objects (3, 0) := by decide +kernel
  have hmarks : ∀ glyph ∈ pageText retracted.objects (3, 0), glyph.vertex = none := by decide +kernel
  have hagree : TextsMatch (fun _ _ : ObjectId => False) (pageText retracted.objects (3, 0))
      (pageText retracted.objects (3, 0)) := TextsMatch.refl fun id hid => by cases hmarks _ hid
  rw [pageContentDigest_eq, pageContentDigest_eq, htext,
    flatMap_fill_eq_of_agree (fun _ _ hfalse => hfalse.elim) hagree]

theorem bookmarks_isEmpty :
    (diffBytes Nat results.toLopdfDocument retracted.toLopdfDocument).isEmpty = true := by
  have hpages : pagePairs results.toLopdfDocument retracted.toLopdfDocument =
      [(((3, 0), (3, 0)), 0)] := by decide +kernel
  rw [isEmpty_iff, hpages]
  refine ⟨?_, by decide +kernel, by decide +kernel, ?_, by decide +kernel⟩
  · rw [catalogDigest_eq, catalogDigest_eq]
    exact congrArg some
      (ColourRefinement.colour_eq_of_alike _ _ _ (bookmarks_readAlike refinementRounds (by decide)))
  · intro pair hpair
    rw [List.mem_singleton.1 hpair]
    exact bookmarks_page _ _

theorem bookmarks_disagree : ¬ GraphsAgree results.toLopdfDocument retracted.toLopdfDocument :=
  fun h => absurd (h [.key "Outlines", .key "First", .key "Next", .key "Next", .key "Title"])
    (by decide +kernel)

/-- Five outline entries, the third retitled: the comparison finds nothing, and yet following
`/Outlines`, `/First` and `/Next` twice leads to different titles. -/
theorem retitled_entry_is_overlooked :
    (diffBytes Nat results.toLopdfDocument retracted.toLopdfDocument).isEmpty = true ∧
      ¬ GraphsAgree results.toLopdfDocument retracted.toLopdfDocument :=
  ⟨bookmarks_isEmpty, bookmarks_disagree⟩

theorem results_isEmpty :
    (diffBytes Nat results.toLopdfDocument results.toLopdfDocument).isEmpty = true := by
  have hpages : pagePairs results.toLopdfDocument results.toLopdfDocument =
      [(((3, 0), (3, 0)), 0)] := by decide +kernel
  rw [isEmpty_iff, hpages]
  refine ⟨rfl, rfl, by decide +kernel, fun pair hpair => ?_, rfl⟩
  rw [List.mem_singleton.1 hpair]

/-- The entry retitled is not settled; compared with itself the file is. -/
theorem retitled_entry_is_unsettled :
    ((diffBytes Nat results.toLopdfDocument retracted.toLopdfDocument).isEmpty = true ∧
      ¬ Settled results.toLopdfDocument retracted.toLopdfDocument) ∧
    ((diffBytes Nat results.toLopdfDocument results.toLopdfDocument).isEmpty = true ∧
      Settled results.toLopdfDocument results.toLopdfDocument) :=
  ⟨⟨bookmarks_isEmpty, fun h => bookmarks_disagree ((empty_diff_is_sound_iff bookmarks_isEmpty).2 h)⟩,
    results_isEmpty, (empty_diff_is_sound_iff results_isEmpty).1 fun _ => rfl⟩

end Bookmarks

end Roundtrip
end OpdfEditor
