import OpdfEditor.PdfObjects
import OpdfEditor.ObjectGraph

/-!
What reading a page depends on: the entries of the page and of its ancestors, and
the objects met while a value is resolved. Two object graphs that mirror each
other there measure the same, one under new identifiers or with dictionaries
rewritten.
-/
namespace OpdfEditor

/-! ### Entries and ancestors -/

def entryOf (objects : Objects) (id : ObjectId) (key : String) : Option Object :=
  ((objects.lookup id).bind Object.asDict).bind (Dictionary.get · key)

/-- The node a page tree node names as its parent. -/
def parentOf (objects : Objects) (id : ObjectId) : Option ObjectId :=
  (entryOf objects id "Parent").bind Object.asReference

theorem entryOf_of_lookup {objects : Objects} {id : ObjectId} {d : Dictionary}
    (h : objects.lookup id = some (.dictionary d)) (key : String) :
    entryOf objects id key = Dictionary.get d key := by
  simp [entryOf, h, Object.asDict]

theorem entryOf_congr {objects objects' : Objects} {id : ObjectId}
    (h : objects.lookup id = objects'.lookup id) (key : String) :
    entryOf objects id key = entryOf objects' id key := by
  unfold entryOf
  rw [h]

/-- Only a dictionary holds entries. -/
theorem lookup_of_entryOf {objects : Objects} {id : ObjectId} {key : String} {value : Object}
    (h : entryOf objects id key = some value) :
    ∃ d, objects.lookup id = some (.dictionary d) ∧ Dictionary.get d key = some value := by
  obtain ⟨d, hd, hvalue⟩ := Option.bind_eq_some_iff.1 h
  obtain ⟨object, hobject, hdict⟩ := Option.bind_eq_some_iff.1 hd
  exact ⟨d, Object.asDict_eq_some.1 hdict ▸ hobject, hvalue⟩

theorem statedType_eq (objects : Objects) (id : ObjectId) :
    statedType objects id = (entryOf objects id "Type").bind Object.asName := by
  simp only [statedType, entryOf, Option.bind_assoc]

theorem statedType_page {objects : Objects} {id : ObjectId} {typeName : String} :
    statedType objects id = some typeName ↔ entryOf objects id "Type" = some (.name typeName) := by
  rw [statedType_eq, Option.bind_eq_some_iff]
  constructor
  · rintro ⟨value, hvalue, hname⟩
    cases value with
    | name bytes =>
      cases hname
      exact hvalue
    | _ => cases hname
  · exact fun h => ⟨_, h, rfl⟩

/-- An attribute is found on the node itself, or going up from its parent. -/
theorem findInheritedIn_succ (objects : Objects) (key : String) (limit : Nat) (id : ObjectId) :
    findInheritedIn objects key (limit + 1) id =
      (entryOf objects id key).or ((parentOf objects id).bind (findInheritedIn objects key limit)) := by
  conv_lhs => unfold findInheritedIn
  unfold parentOf entryOf
  cases (objects.lookup id).bind Object.asDict with
  | none => rfl
  | some d =>
    cases hkey : Dictionary.get d key with
    | some value => simp [hkey]
    | none =>
      cases hparent : (Dictionary.get d "Parent").bind Object.asReference <;> simp [hkey, hparent]

/-- A page carries what it finds without looking further up. -/
theorem findInheritedAttribute_of_entry {objects : Objects} {page : ObjectId} {key : String}
    {value : Object} (h : entryOf objects page key = some value) :
    findInheritedAttribute objects page key = some value := by
  rw [findInheritedAttribute, parentChainLimit, findInheritedIn_succ, h]
  rfl

/-- Without an entry of its own, a page directly under a node with none above finds what that
node carries. -/
theorem findInheritedAttribute_of_top {objects : Objects} {page root : ObjectId} {key : String}
    (hpage : entryOf objects page key = none) (hparent : parentOf objects page = some root)
    (htop : parentOf objects root = none) :
    findInheritedAttribute objects page key = entryOf objects root key := by
  rw [findInheritedAttribute, parentChainLimit, findInheritedIn_succ, hpage, hparent,
    Option.none_or, Option.bind_some, findInheritedIn_succ, htop, Option.bind_none, Option.or_none]

/-- An attribute is found alike where ancestors hold the same entry and the same parent. -/
theorem findInheritedIn_congr {objects objects' : Objects} {key : String} (limit : Nat)
    (hentry : ∀ id, entryOf objects' id key = entryOf objects id key)
    (hparent : ∀ id, parentOf objects' id = parentOf objects id) (id : ObjectId) :
    findInheritedIn objects' key limit id = findInheritedIn objects key limit id := by
  induction limit generalizing id with
  | zero => rfl
  | succ limit ih =>
    rw [findInheritedIn_succ, findInheritedIn_succ, hentry, hparent]
    congr 2
    funext parent
    exact ih parent

/-! ### Measuring -/

def measuredSize (objects : Objects) : Option Object → PageSize
  | some value => measureMediaBox objects value
  | none => defaultPageSize

def measuredRotation (objects : Objects) : Option Object → Rotation
  | some value => measureRotation objects value
  | none => .none

/-- Reading a page's size is finding its box and measuring it. -/
theorem readPageSize_eq (objects : Objects) (page : ObjectId) :
    readPageSize objects page =
      measuredSize objects (findInheritedAttribute objects page "MediaBox") := by
  unfold readPageSize measuredSize
  cases findInheritedAttribute objects page "MediaBox" <;> rfl

/-- Reading its rotation is finding the entry and reading it. -/
theorem readPageRotation_eq (objects : Objects) (page : ObjectId) :
    readPageRotation objects page =
      measuredRotation objects (findInheritedAttribute objects page "Rotate") := by
  unfold readPageRotation measuredRotation
  cases findInheritedAttribute objects page "Rotate" <;> rfl

/-- An explicit rotation reads as what it states. -/
theorem measureRotation_degrees (objects : Objects) (rotation : Rotation) :
    measureRotation objects (.integer rotation.degrees) = rotation := by
  cases rotation <;> rfl

/-- A blank page measures what it was made with. -/
theorem measureMediaBox_blank (objects : Objects) {size : PageSize} (hwidth : size.widthPt.IsPositive)
    (hheight : size.heightPt.IsPositive) : measureMediaBox objects (blankMediaBox size) = size := by
  have hsize : measureMediaBox objects (blankMediaBox size) =
      measureCorners .zero .zero size.widthPt size.heightPt := rfl
  rw [hsize, measureCorners, Binary32.F32.abs_sub_zero hwidth, Binary32.F32.abs_sub_zero hheight,
    if_pos ⟨hwidth, hheight⟩]

/-! ### Resolving values -/

def Object.HasEntries : Object → Prop
  | .dictionary _ | .stream _ _ => True
  | _ => False

instance : DecidablePred Object.HasEntries
  | .dictionary _ | .stream _ _ => .isTrue trivial
  | .null | .boolean _ | .integer _ | .real _ | .name _ | .string _ _ | .array _ | .reference _ =>
    .isFalse id

theorem Object.hasEntries_rename {f : ObjectId → ObjectId} (o : Object) :
    (o.rename f).HasEntries ↔ o.HasEntries := by
  cases o <;> exact Iff.rfl

theorem Object.HasEntries.asFloat {o : Object} (h : o.HasEntries) : o.asFloat = none := by
  cases o <;> first | rfl | cases h

theorem Object.HasEntries.asArray {o : Object} (h : o.HasEntries) : o.asArray = none := by
  cases o <;> first | rfl | cases h

theorem Object.HasEntries.asInt {o : Object} (h : o.HasEntries) : o.asInt = none := by
  cases o <;> first | rfl | cases h

/-- Nothing, a dictionary or a stream: none is a number or an array, or leads on to one. -/
def Barren (object : Option Object) : Prop := ∀ o, object = some o → o.HasEntries

/-- The same object, or nothing to be had from either. -/
def Interchangeable (object object' : Option Object) : Prop :=
  object = object' ∨ Barren object ∧ Barren object'

theorem Barren.none : Barren none := fun _ h => by cases h

theorem Barren.some {o : Object} (h : o.HasEntries) : Barren (some o) := by
  rintro _ ⟨⟩
  exact h

theorem Barren.dictionary (d : Dictionary) : Barren (Option.some (.dictionary d)) := .some trivial

theorem barren_of_keys {objects : Objects}
    (h : ∀ id ∈ objects.keys, ∀ o ∈ objects.lookup id, o.HasEntries) (id : ObjectId) :
    Barren (objects.lookup id) := fun o ho =>
  h id (Finmap.mem_keys.2 (Finmap.mem_of_lookup_eq_some ho)) o ho

/-- Whatever dictionaries and streams do not answer, nothing answers here. -/
theorem Barren.bind {α : Type} {object : Option Object} (h : Barren object) {g : Object → Option α}
    (hg : ∀ o, o.HasEntries → g o = Option.none) : object.bind g = Option.none := by
  cases object with
  | none => rfl
  | some o => exact hg o (h o rfl)

theorem Barren.rename {f : ObjectId → ObjectId} {object : Option Object} :
    Barren (object.map (Object.rename f)) ↔ Barren object := by
  cases object with
  | none => exact iff_of_true .none .none
  | some o =>
    constructor
    · rintro h _ ⟨⟩
      exact o.hasEntries_rename.1 (h _ rfl)
    · rintro h _ ⟨⟩
      exact o.hasEntries_rename.2 (h o rfl)

/-- A dictionary or a stream resolves to itself, within any bound that is left. -/
theorem resolveReferenceIn_of_hasEntries (objects : Objects) (limit : Nat) {o : Object}
    (h : o.HasEntries) : resolveReferenceIn objects (limit + 1) o = some o := by
  cases o with
  | dictionary | stream => rfl
  | _ => cases h

theorem Interchangeable.bind_eq {α : Type} {object object' : Option Object}
    (h : Interchangeable object object') {g : Object → Option α}
    (hg : ∀ o, o.HasEntries → g o = none) : object.bind g = object'.bind g := by
  cases h with
  | inl h => rw [h]
  | inr h => rw [h.1.bind hg, h.2.bind hg]

/-- One graph mirrors another at some identifiers, up to where nothing is to be had. -/
def Mirrors (f : ObjectId → ObjectId) (at_ : ObjectId → Prop) (objects objects' : Objects) : Prop :=
  ∀ id, at_ id → Interchangeable ((objects.lookup id).map (Object.rename f)) (objects'.lookup (f id))

/-- Every identifier met while a value is resolved is one of some. -/
def Meets (at_ : ObjectId → Prop) (objects : Objects) : Nat → Object → Prop
  | limit + 1, .reference id =>
    at_ id ∧ ∀ object, objects.lookup id = some object → Meets at_ objects limit object
  | _, _ => True

/-- Likewise for a value and, if it is an array, its items. -/
structure Sees (at_ : ObjectId → Prop) (objects : Objects) (value : Object) : Prop where
  self : Meets at_ objects referenceChainLimit value
  items : ∀ items, resolveReference objects value = some (.array items) →
    ∀ item ∈ items, Meets at_ objects referenceChainLimit item

section Meets

variable {at_ at' : ObjectId → Prop} {objects : Objects}

theorem Meets.mono (hat : ∀ id, at_ id → at' id) (limit : Nat) {value : Object}
    (h : Meets at_ objects limit value) : Meets at' objects limit value := by
  induction limit generalizing value with
  | zero => cases value <;> trivial
  | succ limit ih =>
    cases value with
    | reference id => exact ⟨hat id h.1, fun object hobject => ih (h.2 object hobject)⟩
    | _ => trivial

theorem Sees.mono (hat : ∀ id, at_ id → at' id) {value : Object} (h : Sees at_ objects value) :
    Sees at' objects value :=
  ⟨h.self.mono hat _, fun items hitems item hitem => (h.items items hitems item hitem).mono hat _⟩

theorem Meets.and (limit : Nat) {value : Object} (h : Meets at_ objects limit value)
    (h' : Meets at' objects limit value) : Meets (fun id => at_ id ∧ at' id) objects limit value := by
  induction limit generalizing value with
  | zero => cases value <;> trivial
  | succ limit ih =>
    cases value with
    | reference id =>
      exact ⟨⟨h.1, h'.1⟩, fun object hobject => ih (h.2 object hobject) (h'.2 object hobject)⟩
    | _ => trivial

theorem Sees.and {value : Object} (h : Sees at_ objects value) (h' : Sees at' objects value) :
    Sees (fun id => at_ id ∧ at' id) objects value :=
  ⟨h.self.and _ h'.self, fun items hitems item hitem =>
    (h.items items hitems item hitem).and _ (h'.items items hitems item hitem)⟩

theorem meets_of_forall (h : ∀ id, at_ id) (limit : Nat) (value : Object) :
    Meets at_ objects limit value := by
  induction limit generalizing value with
  | zero => cases value <;> trivial
  | succ limit ih =>
    cases value with
    | reference id => exact ⟨h id, fun object _ => ih object⟩
    | _ => trivial

theorem sees_of_forall (h : ∀ id, at_ id) (value : Object) : Sees at_ objects value :=
  ⟨meets_of_forall h _ value, fun _ _ item _ => meets_of_forall h _ item⟩

/-- What is met from a value is among what its references lead to, and those of every object met
that is no dictionary. -/
theorem meets_of_closed {refs : Object → List ObjectId} (href : ∀ id, id ∈ refs (.reference id))
    (hclosed : ∀ id object, at_ id → objects.lookup id = some object → object.asDict = none →
      ∀ target ∈ refs object, at_ target)
    (limit : Nat) {value : Object} (hvalue : ∀ target ∈ refs value, at_ target) :
    Meets at_ objects limit value := by
  induction limit generalizing value with
  | zero => cases value <;> trivial
  | succ limit ih =>
    cases value with
    | reference id =>
      have hid := hvalue id (href id)
      refine ⟨hid, fun object hobject => ?_⟩
      cases hdict : object.asDict with
      | none => exact ih (hclosed id object hid hobject hdict)
      | some d =>
        obtain rfl := Object.asDict_eq_some.1 hdict
        cases limit <;> trivial
    | _ => trivial

/-- Where references lead on only to where they may, so does what they come to. -/
theorem resolved_of_closed {refs : Object → List ObjectId} (href : ∀ id, id ∈ refs (.reference id))
    (hclosed : ∀ id object, at_ id → objects.lookup id = some object → object.asDict = none →
      ∀ target ∈ refs object, at_ target)
    (limit : Nat) {value resolved : Object} (hvalue : ∀ target ∈ refs value, at_ target)
    (hresolved : resolveReferenceIn objects limit value = some resolved)
    (hdict : resolved.asDict = none) : ∀ target ∈ refs resolved, at_ target := by
  induction limit generalizing value with
  | zero => cases hresolved
  | succ limit ih =>
    cases value with
    | reference id =>
      simp only [resolveReferenceIn] at hresolved
      cases hlookup : objects.lookup id with
      | none => simp [hlookup] at hresolved
      | some object =>
        rw [hlookup] at hresolved
        cases hobject : object.asDict with
        | none => exact ih (hclosed id object (hvalue id (href id)) hlookup hobject) hresolved
        | some d =>
          obtain rfl := Object.asDict_eq_some.1 hobject
          cases limit with
          | zero => cases hresolved
          | succ limit =>
            cases hresolved
            cases hdict
    | _ =>
      cases hresolved
      exact hvalue

/-- Likewise of everything a value and its items lead to. -/
theorem sees_of_closed (refs : Object → List ObjectId) (href : ∀ id, id ∈ refs (.reference id))
    (hitem : ∀ items item, item ∈ items → ∀ target ∈ refs item, target ∈ refs (.array items))
    (hclosed : ∀ id object, at_ id → objects.lookup id = some object → object.asDict = none →
      ∀ target ∈ refs object, at_ target)
    {value : Object} (hvalue : ∀ target ∈ refs value, at_ target) : Sees at_ objects value := by
  refine ⟨meets_of_closed href hclosed _ hvalue, fun items hitems item hmem => ?_⟩
  refine meets_of_closed href hclosed _ fun target htarget => ?_
  exact resolved_of_closed href hclosed _ hvalue hitems rfl target (hitem items item hmem target htarget)

end Meets

section Mirrors

variable {f : ObjectId → ObjectId} {at_ at' : ObjectId → Prop} {objects objects' : Objects}

/-- Nothing to be had at an identifier, nothing to be had from a reference to it. -/
theorem Barren.resolve {id : ObjectId} (h : Barren (objects.lookup id)) (limit : Nat) :
    Barren (resolveReferenceIn objects limit (.reference id)) := by
  cases limit with
  | zero => exact .none
  | succ limit =>
    unfold resolveReferenceIn
    cases hlookup : objects.lookup id with
    | none => exact .none
    | some object =>
      have hentries := h object hlookup
      cases limit with
      | zero => exact .none
      | succ limit =>
        dsimp only
        rw [resolveReferenceIn_of_hasEntries objects limit hentries]
        exact .some hentries

/-- References followed in both graphs come to the same, or to nothing to be had. -/
theorem Mirrors.resolve (h : Mirrors f at_ objects objects') (limit : Nat) {value : Object}
    (hmeets : Meets at_ objects limit value) :
    Interchangeable ((resolveReferenceIn objects limit value).map (Object.rename f))
      (resolveReferenceIn objects' limit (value.rename f)) := by
  induction limit generalizing value with
  | zero => exact .inl rfl
  | succ limit ih =>
    cases value with
    | reference id =>
      obtain ⟨hid, hrest⟩ := hmeets
      cases h id hid with
      | inl hsame =>
        simp only [Object.rename, resolveReferenceIn]
        rw [← hsame]
        cases hlookup : objects.lookup id with
        | none => exact .inl rfl
        | some object => exact ih (hrest object hlookup)
      | inr hbarren =>
        exact .inr ⟨Barren.rename.2 ((Barren.rename.1 hbarren.1).resolve _), hbarren.2.resolve _⟩
    | _ => exact .inl rfl

theorem Mirrors.meets (h : Mirrors f at_ objects objects') (hat : ∀ id, at_ id → at' (f id))
    (limit : Nat) {value : Object} (hmeets : Meets at_ objects limit value) :
    Meets at' objects' limit (value.rename f) := by
  induction limit generalizing value with
  | zero => cases value <;> trivial
  | succ limit ih =>
    cases value with
    | reference id =>
      obtain ⟨hid, hrest⟩ := hmeets
      refine ⟨hat id hid, fun object hobject => ?_⟩
      cases h id hid with
      | inl hsame =>
        rw [hobject] at hsame
        obtain ⟨source, hsource, rfl⟩ := Option.map_eq_some_iff.1 hsame
        exact ih (hrest source hsource)
      | inr hbarren =>
        have hentries := hbarren.2 object hobject
        cases object with
        | dictionary | stream => cases limit <;> trivial
        | _ => cases hentries
    | _ => trivial

theorem Mirrors.sees (h : Mirrors f at_ objects objects') (hat : ∀ id, at_ id → at' (f id))
    {value : Object} (hsees : Sees at_ objects value) : Sees at' objects' (value.rename f) := by
  refine ⟨h.meets hat _ hsees.self, fun items hitems item hitem => ?_⟩
  have hresolve : Interchangeable ((resolveReference objects value).map (Object.rename f))
      (resolveReference objects' (value.rename f)) := h.resolve referenceChainLimit hsees.self
  cases hresolve with
  | inl hsame =>
    rw [hitems] at hsame
    obtain ⟨source, hsource, hrename⟩ := Option.map_eq_some_iff.1 hsame
    cases source with
    | array sourceItems =>
      simp only [Object.rename, Object.array.injEq, renameItems_eq_map] at hrename
      subst hrename
      obtain ⟨sourceItem, hmem, rfl⟩ := List.mem_map.1 hitem
      exact h.meets hat _ (hsees.items sourceItems hsource sourceItem hmem)
    | _ => cases hrename
  | inr hbarren =>
    cases hbarren.2 _ hitems

/-- Whatever is read off an object that renaming leaves alone is read off in either graph. -/
theorem Mirrors.read (h : Mirrors f at_ objects objects') {α : Type} {g : Object → Option α}
    (hg : ∀ o, o.HasEntries → g o = none) (hrename : ∀ object : Object, g (object.rename f) = g object)
    {value : Object} (hmeets : Meets at_ objects referenceChainLimit value) :
    (resolveReference objects' (value.rename f)).bind g = (resolveReference objects value).bind g := by
  have hbind := (h.resolve referenceChainLimit hmeets).bind_eq hg
  unfold resolveReference
  rw [← hbind, Option.bind_map]
  congr 1
  funext object
  exact hrename object

theorem Mirrors.readCorner (h : Mirrors f at_ objects objects') {corner : Object}
    (hmeets : Meets at_ objects referenceChainLimit corner) :
    readCorner objects' (corner.rename f) = readCorner objects corner :=
  h.read (fun _ => Object.HasEntries.asFloat) (fun object => by cases object <;> rfl) hmeets

/-- A media box measures the same in either graph. -/
theorem Mirrors.measureMediaBox (h : Mirrors f at_ objects objects') {value : Object}
    (hsees : Sees at_ objects value) :
    measureMediaBox objects' (value.rename f) = measureMediaBox objects value := by
  have hbind := (h.resolve referenceChainLimit hsees.self).bind_eq fun _ => Object.HasEntries.asArray
  have hitems : (resolveReference objects' (value.rename f)).bind Object.asArray =
      ((resolveReference objects value).bind Object.asArray).map (List.map (Object.rename f)) := by
    unfold resolveReference
    rw [← hbind, Option.bind_map, Option.map_bind]
    congr 1
    funext object
    cases object with
    | array items => simp [Object.rename, Object.asArray, renameItems_eq_map]
    | _ => rfl
  unfold OpdfEditor.measureMediaBox
  rw [hitems]
  cases harray : (resolveReference objects value).bind Object.asArray with
  | none => rfl
  | some items =>
    obtain ⟨object, hobject, hasArray⟩ := Option.bind_eq_some_iff.1 harray
    obtain rfl : object = .array items := by
      cases object <;> simp_all [Object.asArray]
    have hcorner := fun item hitem => h.readCorner (hsees.items items hobject item hitem)
    match items with
    | [] | [_] | [_, _] | [_, _, _] | _ :: _ :: _ :: _ :: _ :: _ => rfl
    | [llx, lly, urx, ury] =>
      simp only [Option.map_some, List.map_cons, List.map_nil, hcorner llx (by simp),
        hcorner lly (by simp), hcorner urx (by simp), hcorner ury (by simp)]

/-- A rotation measures the same in either graph. -/
theorem Mirrors.measureRotation (h : Mirrors f at_ objects objects') {value : Object}
    (hsees : Sees at_ objects value) :
    measureRotation objects' (value.rename f) = measureRotation objects value := by
  unfold OpdfEditor.measureRotation
  rw [h.read (fun _ => Object.HasEntries.asInt) (fun object => by cases object <;> rfl) hsees.self]

/-- A box measures the same in a graph and in one that mirrors it. -/
theorem Mirrors.measuredSize (h : Mirrors f at_ objects objects') {found : Option Object}
    (hsees : ∀ value, found = some value → Sees at_ objects value) :
    measuredSize objects' (found.map (Object.rename f)) = measuredSize objects found := by
  cases found with
  | none => rfl
  | some value => exact h.measureMediaBox (hsees value rfl)

/-- A rotation reads the same, too. -/
theorem Mirrors.measuredRotation (h : Mirrors f at_ objects objects') {found : Option Object}
    (hsees : ∀ value, found = some value → Sees at_ objects value) :
    measuredRotation objects' (found.map (Object.rename f)) = measuredRotation objects found := by
  cases found with
  | none => rfl
  | some value => exact h.measureRotation (hsees value rfl)

end Mirrors

/-! ### Graphs where little changes -/

/-- What may be met stays, or gives nothing before and after. -/
def Undisturbed (at_ : ObjectId → Prop) (objects objects' : Objects) : Prop :=
  ∀ id, at_ id → Interchangeable (objects.lookup id) (objects'.lookup id)

theorem map_rename_id (object : Option Object) : object.map (Object.rename id) = object := by
  cases object with
  | none => rfl
  | some object => exact congrArg some (Object.rename_id object)

section Undisturbed

variable {at_ at' : ObjectId → Prop} {objects objects' : Objects}

theorem Undisturbed.mirrors (h : Undisturbed at_ objects objects') : Mirrors id at_ objects objects' := by
  intro target htarget
  rw [map_rename_id]
  exact h target htarget

theorem Undisturbed.sees (h : Undisturbed at_ objects objects') (hat : ∀ id, at_ id → at' id)
    {value : Object} (hsees : Sees at_ objects value) : Sees at' objects' value := by
  rw [← Object.rename_id value]
  exact h.mirrors.sees hat hsees

/-- A box measures the same where nothing it meets is disturbed. -/
theorem Undisturbed.measuredSize (h : Undisturbed at_ objects objects') {found : Option Object}
    (hsees : ∀ value, found = some value → Sees at_ objects value) :
    measuredSize objects' found = OpdfEditor.measuredSize objects found := by
  rw [← h.mirrors.measuredSize hsees, map_rename_id]

/-- A rotation reads the same, too. -/
theorem Undisturbed.measuredRotation (h : Undisturbed at_ objects objects') {found : Option Object}
    (hsees : ∀ value, found = some value → Sees at_ objects value) :
    measuredRotation objects' found = OpdfEditor.measuredRotation objects found := by
  rw [← h.mirrors.measuredRotation hsees, map_rename_id]

end Undisturbed

end OpdfEditor
