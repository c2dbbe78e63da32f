import OpdfEditor.PdfImportSound

/-!
What a media box measures once it was copied. A reference the copier follows leads to
the copy of what it named; one it leaves behind keeps its number, and leads to whatever
was copied under that.
-/
namespace OpdfEditor

open Binary32 (F32)

/-! ### Numbers handed out -/

/-- The numbers the copies of pages get, brought in one after the other into a document numbered
so far: page by page, each object a copy comes to in turn. -/
def handedOut (source : Objects) : List ObjectId → Nat → List IdMapping
  | [], _ => []
  | page :: pages, maxId =>
    IdMapping.numberOn [] maxId (copyOrder source page) ::
      handedOut source pages (maxId + (copyOrder source page).length)

/-- They are what pass one assigns. -/
theorem handedOut_cons (source : Objects) (page : ObjectId) (pages : List ObjectId)
    (target : LopdfDocument) :
    handedOut source (page :: pages) target.maxId = (copyMapping source page target).1 ::
      handedOut source pages (copyMapping source page target).2.maxId := by
  rw [copyMapping_eq]
  rfl

theorem length_handedOut (source : Objects) (pages : List ObjectId) (maxId : Nat) :
    (handedOut source pages maxId).length = pages.length := by
  induction pages generalizing maxId with
  | nil => rfl
  | cons page pages ih => exact congrArg (· + 1) (ih _)

theorem copyMapping_of_mem_zip {source : Objects} {pages : List ObjectId} {maxId : Nat}
    {carried : ObjectId × IdMapping} (h : carried ∈ pages.zip (handedOut source pages maxId)) :
    ∃ target, carried.2 = (copyMapping source carried.1 target).1 := by
  induction pages generalizing maxId with
  | nil => cases h
  | cons page pages ih =>
    rcases List.mem_cons.1 h with rfl | h
    · exact ⟨⟨"", ∅, [], maxId⟩, by rw [copyMapping_eq]⟩
    · exact ih h

/-! ### Reading what was copied -/

/-- The object whose copy was handed a number, and the copy it was part of. -/
def holder (mappings : List IdMapping) (id : ObjectId) : Option (IdMapping × ObjectId) :=
  mappings.findSome? fun mapping => (mapping.find? (·.2 = id)).map fun entry => (mapping, entry.1)

/-- What a reference of a copied value leads to: the object it names if that was copied along, or
else the one whose copy holds the number it keeps. -/
def carriedTo (mappings : List IdMapping) (mapping : IdMapping) (id : ObjectId) :
    Option (IdMapping × ObjectId) :=
  if id ∈ mapping.map Prod.fst then some (mapping, id) else holder mappings id

section

variable (source : Objects) (mappings : List IdMapping)

/-- Follow at most `limit` references of a copied value to the value they name, and the copy that is
part of. -/
def resolveCarriedIn : Nat → IdMapping → Object → Option (IdMapping × Object)
  | 0, _, _ => none
  | limit + 1, mapping, .reference id =>
    match carriedTo mappings mapping id with
    | none => none
    | some (mapping, id) =>
      match source.lookup id with
      | none => none
      | some object => resolveCarriedIn limit mapping object
  | _ + 1, mapping, object => some (mapping, object)

def resolveCarried (mapping : IdMapping) (object : Object) : Option (IdMapping × Object) :=
  resolveCarriedIn source mappings referenceChainLimit mapping object

/-- One corner coordinate of a copied box. -/
def carriedCorner (mapping : IdMapping) (corner : Object) : Option F32 :=
  (resolveCarried source mappings mapping corner).bind fun found => found.2.asFloat

/-- The size a copied `/MediaBox` value gives, or the default if it cannot be read. -/
def measureCarriedBox (mapping : IdMapping) (value : Object) : PageSize :=
  match resolveCarried source mappings mapping value with
  | some (mapping, .array [llx, lly, urx, ury]) =>
    match carriedCorner source mappings mapping llx, carriedCorner source mappings mapping lly,
      carriedCorner source mappings mapping urx, carriedCorner source mappings mapping ury with
    | some llx, some lly, some urx, some ury => measureCorners llx lly urx ury
    | _, _, _, _ => defaultPageSize
  | _ => defaultPageSize

/-- The size of the copy of a page. -/
def carriedSize (mapping : IdMapping) (page : ObjectId) : PageSize :=
  match findInheritedAttribute source page "MediaBox" with
  | some value => measureCarriedBox source mappings mapping value
  | none => defaultPageSize

end

theorem mem_of_holder {mappings : List IdMapping} {id : ObjectId} {mapping : IdMapping}
    {origin : ObjectId} (h : holder mappings id = some (mapping, origin)) :
    mapping ∈ mappings ∧ (origin, id) ∈ mapping := by
  obtain ⟨found, hmem, hfound⟩ := List.exists_of_findSome?_eq_some h
  obtain ⟨⟨origin', id'⟩, hentry, heq⟩ := Option.map_eq_some_iff.1 hfound
  cases heq
  have hid : id' = id := by simpa using List.find?_some hentry
  exact ⟨hmem, hid ▸ List.mem_of_find?_eq_some hentry⟩

theorem holder_eq_none {mappings : List IdMapping} {id : ObjectId} (h : holder mappings id = none) :
    ∀ mapping ∈ mappings, id ∉ mapping.map Prod.snd := by
  intro mapping hmapping hid
  obtain ⟨entry, hentry, rfl⟩ := List.mem_map.1 hid
  have hnone := List.findSome?_eq_none_iff.1 h mapping hmapping
  simpa using List.find?_eq_none.1 (Option.map_eq_none_iff.1 hnone) entry hentry

/-- Some objects hold what was copied, and next to it nothing but dictionaries and streams. -/
structure Holds (source : Objects) (mappings : List IdMapping) (objects : Objects) : Prop where
  nodup : ∀ mapping ∈ mappings, (mapping.map Prod.fst).Nodup
  copied : ∀ mapping ∈ mappings, ∀ entry ∈ mapping, Interchangeable
    ((source.lookup entry.1).map (Object.rename mapping.apply)) (objects.lookup entry.2)
  other : ∀ id, (∀ mapping ∈ mappings, id ∉ mapping.map Prod.snd) → Barren (objects.lookup id)

namespace Holds

variable {source : Objects} {mappings : List IdMapping} {objects : Objects}

/-- A copied reference leads to the copy of what the reading goes on with, or nowhere. -/
theorem carriedTo (h : Holds source mappings objects) {mapping : IdMapping} (hmapping : mapping ∈ mappings)
    (id : ObjectId) :
    (∃ mapping' ∈ mappings, ∃ id', carriedTo mappings mapping id = some (mapping', id') ∧ Interchangeable
      ((source.lookup id').map (Object.rename mapping'.apply)) (objects.lookup (mapping.apply id))) ∨
    carriedTo mappings mapping id = none ∧ Barren (objects.lookup (mapping.apply id)) := by
  unfold OpdfEditor.carriedTo
  by_cases hid : id ∈ mapping.map Prod.fst
  · obtain ⟨copy, hentry⟩ := IdMapping.exists_of_mem hid
    rw [if_pos hid, IdMapping.apply_of_entry (h.nodup mapping hmapping) hentry]
    exact .inl ⟨mapping, hmapping, id, rfl, h.copied mapping hmapping _ hentry⟩
  · rw [if_neg hid, IdMapping.apply_of_not_mem hid]
    cases hholder : holder mappings id with
    | none => exact .inr ⟨rfl, h.other id (holder_eq_none hholder)⟩
    | some found =>
      obtain ⟨mapping', origin⟩ := found
      obtain ⟨hmem, hentry⟩ := mem_of_holder hholder
      exact .inl ⟨mapping', hmem, origin, rfl, h.copied mapping' hmem _ hentry⟩

/-- Reading on in the copy is reading on in the source, as it was carried. -/
theorem resolve (h : Holds source mappings objects) (limit : Nat) {mapping : IdMapping}
    (hmapping : mapping ∈ mappings) (value : Object) :
    Interchangeable ((resolveCarriedIn source mappings limit mapping value).map
      fun found => found.2.rename found.1.apply)
      (resolveReferenceIn objects limit (value.rename mapping.apply)) := by
  induction limit generalizing mapping value with
  | zero => exact .inl rfl
  | succ limit ih =>
    cases value with
    | reference id =>
      rcases h.carriedTo hmapping id with ⟨mapping', hmapping', id', hto, hsame | hbarren⟩ | ⟨hnone, hbarren⟩
      · simp only [Object.rename, resolveReferenceIn, resolveCarriedIn, hto]
        rw [← hsame]
        cases source.lookup id' with
        | none => exact .inl rfl
        | some object => exact ih hmapping' object
      · refine .inr ⟨?_, hbarren.2.resolve _⟩
        simp only [resolveCarriedIn, hto]
        cases hobject : source.lookup id' with
        | none => exact .none
        | some object =>
          have hentries := Barren.rename.1 hbarren.1 object hobject
          cases limit with
          | zero => exact .none
          | succ limit =>
            cases object with
            | dictionary | stream => exact .some trivial
            | _ => cases hentries
      · refine .inr ⟨?_, hbarren.resolve _⟩
        simp only [resolveCarriedIn, hnone]
        exact .none
    | _ => exact .inl rfl

theorem resolve_mem (h : Holds source mappings objects) (limit : Nat) {mapping : IdMapping}
    (hmapping : mapping ∈ mappings) {value : Object} {found : IdMapping × Object}
    (hfound : resolveCarriedIn source mappings limit mapping value = some found) :
    found.1 ∈ mappings := by
  induction limit generalizing mapping value with
  | zero => cases hfound
  | succ limit ih =>
    cases value with
    | reference id =>
      rcases h.carriedTo hmapping id with ⟨mapping', hmapping', id', hto, -⟩ | ⟨hnone, -⟩
      · simp only [resolveCarriedIn, hto] at hfound
        cases hobject : source.lookup id' with
        | none => simp [hobject] at hfound
        | some object =>
          rw [hobject] at hfound
          exact ih hmapping' hfound
      · simp only [resolveCarriedIn, hnone] at hfound
        cases hfound
    | _ =>
      cases hfound
      exact hmapping

theorem readCorner (h : Holds source mappings objects) {mapping : IdMapping}
    (hmapping : mapping ∈ mappings) (corner : Object) :
    readCorner objects (corner.rename mapping.apply) = carriedCorner source mappings mapping corner := by
  have hbind := (h.resolve referenceChainLimit hmapping corner).bind_eq fun _ => Object.HasEntries.asFloat
  unfold OpdfEditor.readCorner carriedCorner resolveReference resolveCarried
  rw [← hbind, Option.bind_map]
  congr 1
  funext found
  obtain ⟨mapping', object⟩ := found
  cases object <;> rfl

/-- A copied box measures what it measures in the source, as it was carried. -/
theorem measureMediaBox (h : Holds source mappings objects) {mapping : IdMapping}
    (hmapping : mapping ∈ mappings) (value : Object) :
    measureMediaBox objects (value.rename mapping.apply) =
      measureCarriedBox source mappings mapping value := by
  have hbind := (h.resolve referenceChainLimit hmapping value).bind_eq fun _ => Object.HasEntries.asArray
  unfold OpdfEditor.measureMediaBox measureCarriedBox
  unfold resolveReference
  rw [← hbind]
  unfold resolveCarried
  cases hresolve : resolveCarriedIn source mappings referenceChainLimit mapping value with
  | none => rfl
  | some found =>
    obtain ⟨mapping', object⟩ := found
    have hmapping' : mapping' ∈ mappings := h.resolve_mem _ hmapping hresolve
    cases object with
    | array items =>
      simp only [Option.map_some, Option.bind_some, Object.rename, Object.asArray]
      rcases items with _ | ⟨llx, _ | ⟨lly, _ | ⟨urx, _ | ⟨ury, _ | _⟩⟩⟩⟩
      case cons.cons.cons.cons.nil =>
        simp only [Object.renameItems]
        rewrite [h.readCorner hmapping', h.readCorner hmapping', h.readCorner hmapping',
          h.readCorner hmapping']
        rfl
      all_goals rfl
    | _ => rfl

theorem measuredSize (h : Holds source mappings objects) {mapping : IdMapping}
    (hmapping : mapping ∈ mappings) (page : ObjectId) :
    measuredSize objects ((findInheritedAttribute source page "MediaBox").map
      (Object.rename mapping.apply)) = carriedSize source mappings mapping page := by
  unfold carriedSize
  cases findInheritedAttribute source page "MediaBox" with
  | none => rfl
  | some value => exact h.measureMediaBox hmapping value

end Holds

/-! ### Boxes that nothing gets into -/

/-- What a copied reference leads to is what it names, or nothing on either side. -/
def LeadsOn (source : Objects) (mappings : List IdMapping) (mapping : IdMapping) (id : ObjectId) :
    Prop :=
  carriedTo mappings mapping id = some (mapping, id) ∨
    carriedTo mappings mapping id = none ∧ Barren (source.lookup id)

section

variable {source : Objects} {mappings : List IdMapping} {mapping : IdMapping}

/-- A copied page attribute leads on where what is left behind keeps a number no copy was handed. -/
theorem Assigned.leadsOn {page : ObjectId} {target numbered : LopdfDocument}
    (h : Assigned source target (startFrontier source page) [] mapping numbered) {key : String}
    (hkey : key ∈ inheritableKeys) {value : Object}
    (hvalue : findInheritedAttribute source page key = some value)
    (hfree : Sees (fun id => copies source id = true ∨ holder mappings id = none) source value) :
    Sees (LeadsOn source mappings mapping) source value := by
  refine (hfree.and (h.sees hkey hvalue)).mono fun id hid => ?_
  by_cases hmem : id ∈ mapping.map Prod.fst
  · exact .inl (if_pos hmem)
  · have hnot : copies source id = false := Bool.eq_false_iff.2 fun hcopies => hmem (hid.2 hcopies)
    exact .inr ⟨(if_neg hmem).trans (hid.1.resolve_left (by simp [hnot])), barren_of_not_copies hnot⟩

/-- Reading on in such a value is reading on in the source. -/
theorem resolveCarriedIn_of_leadsOn (limit : Nat) {value : Object}
    (hmeets : Meets (LeadsOn source mappings mapping) source limit value) :
    resolveCarriedIn source mappings limit mapping value =
        (resolveReferenceIn source limit value).map (Prod.mk mapping) ∨
      resolveCarriedIn source mappings limit mapping value = none ∧
        Barren (resolveReferenceIn source limit value) := by
  induction limit generalizing value with
  | zero => exact .inl rfl
  | succ limit ih =>
    cases value with
    | reference id =>
      obtain ⟨hto | ⟨hnone, hbarren⟩, hrest⟩ := hmeets
      · simp only [resolveCarriedIn, resolveReferenceIn, hto]
        cases hobject : source.lookup id with
        | none => exact .inl rfl
        | some object => exact ih (hrest object hobject)
      · refine .inr ⟨?_, hbarren.resolve _⟩
        simp only [resolveCarriedIn, hnone]
    | _ => exact .inl rfl

theorem carriedCorner_of_leadsOn {corner : Object}
    (hmeets : Meets (LeadsOn source mappings mapping) source referenceChainLimit corner) :
    carriedCorner source mappings mapping corner = readCorner source corner := by
  unfold carriedCorner resolveCarried readCorner resolveReference
  rcases resolveCarriedIn_of_leadsOn referenceChainLimit hmeets with hsame | ⟨hnone, hbarren⟩
  · rw [hsame, Option.bind_map]
    rfl
  · rw [hnone, hbarren.bind fun _ => Object.HasEntries.asFloat]
    rfl

/-- A box that leads on measures what it measures in the source. -/
theorem measureCarriedBox_of_leadsOn {value : Object}
    (hsees : Sees (LeadsOn source mappings mapping) source value) :
    measureCarriedBox source mappings mapping value = measureMediaBox source value := by
  have hitems := hsees.items
  unfold measureCarriedBox measureMediaBox resolveCarried
  unfold resolveReference at hitems ⊢
  rcases resolveCarriedIn_of_leadsOn referenceChainLimit hsees.self with hsame | ⟨hnone, hbarren⟩
  · rw [hsame]
    cases hresolve : resolveReferenceIn source referenceChainLimit value with
    | none => rfl
    | some object =>
      cases object with
      | array items =>
        have hcorner : ∀ item ∈ items, carriedCorner source mappings mapping item =
            readCorner source item :=
          fun item hitem => carriedCorner_of_leadsOn (hitems items hresolve item hitem)
        rcases items with _ | ⟨llx, _ | ⟨lly, _ | ⟨urx, _ | ⟨ury, _ | _⟩⟩⟩⟩
        case cons.cons.cons.cons.nil =>
          simp only [Option.map_some, Option.bind_some, Object.asArray]
          rewrite [hcorner llx (by simp), hcorner lly (by simp), hcorner urx (by simp),
            hcorner ury (by simp)]
          rfl
        all_goals rfl
      | _ => rfl
  · rw [hnone, hbarren.bind fun _ => Object.HasEntries.asArray]

end

end OpdfEditor
