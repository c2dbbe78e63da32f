import OpdfEditor.DiffDigests

/-!
A document written again with other object numbers, keys in another order and strings in another
notation: pages, inherited attributes, reachable identifiers and digests are those of the first
document under their new numbers, and the comparison finds nothing but pages without a size.
-/
namespace OpdfEditor
namespace Roundtrip

open Binary64 (F64)
open ColourRefinement (Glyph TextsMatch Alike colour)

/-! ### Writing a document again -/

/-- One value is another with its references renamed, its keys in any order and its strings in any
notation. -/
inductive Respells (f : ObjectId → ObjectId) : Object → Object → Prop
  | null : Respells f .null .null
  | boolean (value : Bool) : Respells f (.boolean value) (.boolean value)
  | integer (value : Int) : Respells f (.integer value) (.integer value)
  | real (value : Binary32.F32) : Respells f (.real value) (.real value)
  | name (bytes : String) : Respells f (.name bytes) (.name bytes)
  | string (bytes : String) (format format' : StringFormat) :
    Respells f (.string bytes format) (.string bytes format')
  | array {items items' : List Object} : items.length = items'.length →
    (∀ (i : Nat) item item', items[i]? = some item → items'[i]? = some item' → Respells f item item') →
      Respells f (.array items) (.array items')
  | dictionary {entries entries' : List (String × Object)} :
    (entries.map Prod.fst).Perm (entries'.map Prod.fst) →
    (∀ key value value', Dictionary.get entries key = some value →
      Dictionary.get entries' key = some value' → Respells f value value') →
      Respells f (.dictionary entries) (.dictionary entries')
  | stream {entries entries' : List (String × Object)} (content : List UInt8) :
    (entries.map Prod.fst).Perm (entries'.map Prod.fst) →
    (∀ key value value', Dictionary.get entries key = some value →
      Dictionary.get entries' key = some value' → Respells f value value') →
      Respells f (.stream entries content) (.stream entries' content)
  | reference (id : ObjectId) : Respells f (.reference id) (.reference (f id))

/-- One document is another written again, its identifiers renamed; what is missing stays so. -/
structure Respelled (f : ObjectId → ObjectId) (d d' : LopdfDocument) : Prop where
  injective : Function.Injective f
  lookup : ∀ id, Option.Rel (Respells f) (d.objects.lookup id) (d'.objects.lookup (f id))
  onto : ∀ id ∈ d'.objects, ∃ source, id = f source
  trailer : Respells f (.dictionary d.trailer) (.dictionary d'.trailer)

/-- Decoding reads the entries by their keys, and no object number or string notation. -/
class LawfulDecoder [StreamDecoder] : Prop where
  decompressedContent_respells : ∀ {f : ObjectId → ObjectId} {entries entries' : Dictionary}
    (content : List UInt8), Respells f (.dictionary entries) (.dictionary entries') →
      StreamDecoder.decompressedContent entries content =
        StreamDecoder.decompressedContent entries' content

/-- The library follows references and lists pages whatever their numbers are. -/
class LawfulNumbering [Lopdf] : Prop where
  dereference_respelled : ∀ {f : ObjectId → ObjectId} {d d' : LopdfDocument}, Respelled f d d' →
    ∀ id, Lopdf.dereference d'.objects (f id) = (Lopdf.dereference d.objects id).map f
  pageIter_respelled : ∀ {f : ObjectId → ObjectId} {d d' : LopdfDocument}, Respelled f d d' →
    Lopdf.pageIter d' = (Lopdf.pageIter d).map f

theorem mem_links_of_value {object : Object} (h : object.asReference = none) {id : ObjectId} :
    id ∈ object.links ↔ ∃ value ∈ object.children, id ∈ value.links := by
  cases object with
  | reference target => cases h
  | array items => exact Object.mem_itemLinks
  | dictionary entries =>
    simp only [Object.links, Object.mem_entryLinks, Object.children, List.mem_map,
      exists_exists_and_eq_and]
  | stream entries content =>
    simp only [Object.links, Object.mem_entryLinks, Object.children, List.mem_map,
      exists_exists_and_eq_and]
  | _ => simp [Object.links, Object.children]

namespace Respells

variable {f : ObjectId → ObjectId}

/-- Respelled dictionaries hold respelled values under the same keys. -/
theorem get {entries entries' : Dictionary} (h : Respells f (.dictionary entries) (.dictionary entries'))
    (key : String) :
    Option.Rel (Respells f) (Dictionary.get entries key) (Dictionary.get entries' key) := by
  cases h with
  | dictionary hkeys hvalues =>
    have hsome : (Dictionary.get entries key).isSome = (Dictionary.get entries' key).isSome :=
      Bool.eq_iff_iff.2 (isSome_get.trans (hkeys.mem_iff.trans isSome_get.symm))
    exact rel_of_isSome hsome (hvalues key)

theorem asReference {object object' : Object} (h : Respells f object object') :
    object'.asReference = object.asReference.map f := by
  cases h <;> rfl

theorem get_asReference {entries entries' : Dictionary}
    (h : Respells f (.dictionary entries) (.dictionary entries')) (key : String) :
    (Dictionary.get entries' key).bind Object.asReference =
      ((Dictionary.get entries key).bind Object.asReference).map f := by
  rw [Option.map_bind]
  exact (bind_eq_of_rel (h.get key) fun _ _ _ _ hvalues => hvalues.asReference.symm).symm

theorem asDict {object object' : Object} (h : Respells f object object') :
    Option.Rel (fun entries entries' => Respells f (.dictionary entries) (.dictionary entries'))
      object.asDict object'.asDict := by
  cases h with
  | dictionary hkeys hvalues => exact .some (.dictionary hkeys hvalues)
  | _ => exact .none

theorem items {items items' : List Object} (h : Respells f (.array items) (.array items')) :
    List.Forall₂ (Respells f) items items' := by
  cases h with
  | array hlength hitems =>
    refine List.forall₂_of_length_eq_of_get hlength fun i hi hi' => ?_
    exact hitems i _ _ (List.getElem?_eq_getElem hi) (List.getElem?_eq_getElem hi')

theorem asArray {object object' : Object} (h : Respells f object object') :
    Option.Rel (List.Forall₂ (Respells f)) object.asArray object'.asArray := by
  cases h with
  | array hlength hitems => exact .some (Respells.array hlength hitems).items
  | _ => exact .none

/-- A respelled number is the number. -/
theorem asF64_eq {value value' : Object} (h : Respells f value value') : asF64 value' = asF64 value := by
  cases h <;> rfl

theorem asInt_eq {value value' : Object} (h : Respells f value value') : value'.asInt = value.asInt := by
  cases h <;> rfl

/-- A value written again is equivalent to the first. -/
theorem equivalent [StreamDecoder] [LawfulDecoder] {object object' : Object}
    (h : Respells f object object') : Equivalent (fun id id' => id' = f id) object object' := by
  have hkeys {entries entries' : Dictionary}
      (hperm : (entries.map Prod.fst).Perm (entries'.map Prod.fst)) :
      (entries.map Prod.fst).toFinset = (entries'.map Prod.fst).toFinset :=
    List.toFinset_eq_of_perm _ _ hperm
  induction h with
  | reference id => exact .reference rfl
  | @array items items' hlength hitems ih =>
    refine .value rfl (congrArg Shape.array hlength) fun step value value' hvalue hvalue' => ?_
    cases step with
    | key k => cases hvalue
    | index i => exact ih i value value' hvalue hvalue'
  | @dictionary entries entries' hperm hvalues ih =>
    refine .value rfl (congrArg Shape.dictionary (hkeys hperm)) fun step value value' hvalue hvalue' => ?_
    cases step with
    | key k => exact ih k value value' hvalue hvalue'
    | index i => cases hvalue
  | @stream entries entries' content hperm hvalues ih =>
    have hdecoded := LawfulDecoder.decompressedContent_respells content (.dictionary hperm hvalues)
    have hunpacked : unpacked entries content = unpacked entries' content := by
      rw [unpacked, unpacked, hdecoded]
    have hpacking := packing_eq hunpacked
    refine .value rfl ?_ fun step value value' hvalue hvalue' => ?_
    · rw [shape, shape, hkeys hperm, hpacking, hunpacked]
    · cases step with
      | key k =>
        simp only [child, Option.ite_none_left_eq_some] at hvalue hvalue'
        exact ih k value value' hvalue.2 hvalue'.2
      | index i => cases hvalue
  | _ =>
    refine .value rfl rfl fun step value value' hvalue _ => ?_
    cases hvalue

/-- What is inside a value written again is what was inside it, written again. -/
theorem children {object object' : Object} (h : Respells f object object') (hproper : object.Proper)
    (hproper' : object'.Proper) :
    (∀ value ∈ object.children, ∃ value' ∈ object'.children, Respells f value value') ∧
      ∀ value' ∈ object'.children, ∃ value ∈ object.children, Respells f value value' := by
  have hentries {entries entries' : Dictionary} (hnodup : (entries.map Prod.fst).Nodup)
      (hnodup' : (entries'.map Prod.fst).Nodup)
      (h : Respells f (.dictionary entries) (.dictionary entries')) :
      (∀ value ∈ entries.map Prod.snd, ∃ value' ∈ entries'.map Prod.snd, Respells f value value') ∧
        ∀ value' ∈ entries'.map Prod.snd, ∃ value ∈ entries.map Prod.snd, Respells f value value' := by
    constructor
    · intro value hvalue
      obtain ⟨⟨key, value⟩, hentry, rfl⟩ := List.mem_map.1 hvalue
      have hget := h.get key
      rw [Dictionary.get_of_mem hnodup hentry] at hget
      obtain ⟨value', hvalue', hrespells⟩ := rel_some_left hget
      exact ⟨value', List.mem_map.2 ⟨_, Dictionary.mem_of_get hvalue', rfl⟩, hrespells⟩
    · intro value' hvalue'
      obtain ⟨⟨key, value'⟩, hentry', rfl⟩ := List.mem_map.1 hvalue'
      have hget := h.get key
      rw [Dictionary.get_of_mem hnodup' hentry'] at hget
      obtain ⟨value, hvalue, hrespells⟩ := rel_some_right hget
      exact ⟨value, List.mem_map.2 ⟨_, Dictionary.mem_of_get hvalue, rfl⟩, hrespells⟩
  cases h with
  | array hlength hitems =>
    constructor
    · intro value hvalue
      obtain ⟨i, hi, rfl⟩ := List.mem_iff_getElem.1 hvalue
      exact ⟨_, List.getElem_mem (hlength ▸ hi),
        hitems i _ _ (List.getElem?_eq_getElem hi) (List.getElem?_eq_getElem (hlength ▸ hi))⟩
    · intro value' hvalue'
      obtain ⟨i, hi', rfl⟩ := List.mem_iff_getElem.1 hvalue'
      exact ⟨_, List.getElem_mem (hlength ▸ hi'),
        hitems i _ _ (List.getElem?_eq_getElem (hlength ▸ hi')) (List.getElem?_eq_getElem hi')⟩
  | dictionary hperm hvalues =>
    exact hentries hproper.nodup hproper'.nodup (.dictionary hperm hvalues)
  | stream content hperm hvalues =>
    exact hentries hproper.nodup hproper'.nodup (.dictionary hperm hvalues)
  | _ => simp [Object.children]

/-- What a value written again refers to. -/
theorem mem_links {object object' : Object} (h : Respells f object object')
    (hproper : object.Proper) (hproper' : object'.Proper) {id' : ObjectId} :
    id' ∈ object'.links ↔ ∃ id ∈ object.links, f id = id' := by
  induction object using Object.childInduction generalizing object' with
  | step object ih =>
    cases hreference : object.asReference with
    | some target =>
      cases Object.asReference_eq_some.1 hreference
      cases h
      simp [Object.links, eq_comm]
    | none =>
      have hreference' : object'.asReference = none := by rw [h.asReference, hreference]; rfl
      obtain ⟨hforth, hback⟩ := h.children hproper hproper'
      rw [mem_links_of_value hreference']
      constructor
      · rintro ⟨value', hvalue', hid'⟩
        obtain ⟨value, hvalue, hrespells⟩ := hback value' hvalue'
        obtain ⟨id, hid, rfl⟩ := (ih value hvalue hrespells (hproper.child hvalue)
          (hproper'.child hvalue')).1 hid'
        exact ⟨id, (mem_links_of_value hreference).2 ⟨value, hvalue, hid⟩, rfl⟩
      · rintro ⟨id, hid, rfl⟩
        obtain ⟨value, hvalue, hid⟩ := (mem_links_of_value hreference).1 hid
        obtain ⟨value', hvalue', hrespells⟩ := hforth value hvalue
        exact ⟨value', hvalue', (ih value hvalue hrespells (hproper.child hvalue)
          (hproper'.child hvalue')).2 ⟨id, hid, rfl⟩⟩

/-- Renaming alone is a way of writing again. -/
theorem rename (f : ObjectId → ObjectId) (object : Object) : Respells f object (object.rename f) := by
  have hkeys (entries : Dictionary) :
      (entries.map Prod.fst).Perm ((Object.renameEntries f entries).map Prod.fst) := by
    rw [renameEntries_eq_map, List.map_map]
    exact .refl _
  have hvalues {entries : Dictionary}
      (ih : ∀ value ∈ entries.map Prod.snd, Respells f value (value.rename f)) (key : String)
      (value value' : Object) (hvalue : Dictionary.get entries key = some value)
      (hvalue' : Dictionary.get (Object.renameEntries f entries) key = some value') :
      Respells f value value' := by
    rw [Dictionary.get_renameEntries, hvalue, Option.map_some] at hvalue'
    exact Option.some.inj hvalue' ▸ ih value (List.mem_map.2 ⟨_, Dictionary.mem_of_get hvalue, rfl⟩)
  induction object using Object.childInduction with
  | step object ih =>
    cases object with
    | array items =>
      rw [Object.rename, renameItems_eq_map]
      refine .array (List.length_map _).symm fun i item item' hitem hitem' => ?_
      rw [List.getElem?_map, hitem, Option.map_some] at hitem'
      exact Option.some.inj hitem' ▸ ih item (List.mem_of_getElem? hitem)
    | dictionary entries => exact .dictionary (hkeys entries) (hvalues ih)
    | stream entries content => exact .stream content (hkeys entries) (hvalues ih)
    | null => exact .null
    | boolean value => exact .boolean value
    | integer value => exact .integer value
    | real value => exact .real value
    | name bytes => exact .name bytes
    | string bytes format => exact .string bytes format format
    | reference id => exact .reference id

end Respells

theorem respelled_of_renames {f : ObjectId → ObjectId} {d d' : LopdfDocument} (h : Renames f d d') :
    Respelled f d d' where
  injective := h.injective
  lookup id := by
    rw [h.lookup]
    cases d.objects.lookup id with
    | none => exact .none
    | some object => exact .some (.rename f object)
  onto := h.onto
  trailer := h.trailer ▸ .rename f (.dictionary d.trailer)

/-! ### What is carried over to the document written again -/

namespace Respelled

variable {f : ObjectId → ObjectId}

section

variable {d d' : LopdfDocument}

theorem rootReference (h : Respelled f d d') : rootReference d' = (rootReference d).map f :=
  h.trailer.get_asReference "Root"

theorem entries (h : Respelled f d d') (id : ObjectId) :
    Option.Rel (fun entries entries' => Respells f (.dictionary entries) (.dictionary entries'))
      ((d.objects.lookup id).bind Object.asDict) ((d'.objects.lookup (f id)).bind Object.asDict) :=
  rel_bind (h.lookup id) fun _ _ _ _ hobjects => hobjects.asDict

theorem keys (h : Respelled f d d') : d'.objects.keys = d.objects.keys.image f := by
  ext id'
  rw [Finmap.mem_keys, Finset.mem_image]
  constructor
  · intro hid'
    obtain ⟨id, rfl⟩ := h.onto id' hid'
    obtain ⟨object', hobject'⟩ := Finmap.mem_iff.1 hid'
    obtain ⟨object, hobject, -⟩ := rel_some_right (hobject' ▸ h.lookup id)
    exact ⟨id, Finmap.mem_keys.2 (Finmap.mem_of_lookup_eq_some hobject), rfl⟩
  · rintro ⟨id, hid, rfl⟩
    obtain ⟨object, hobject⟩ := Finmap.mem_iff.1 (Finmap.mem_keys.1 hid)
    obtain ⟨object', hobject', -⟩ := rel_some_left (hobject ▸ h.lookup id)
    exact Finmap.mem_of_lookup_eq_some hobject'

end

section Lookups

variable [Lopdf] [LawfulNumbering] {d d' : LopdfDocument}

/-- What an identifier ends up naming is respelled with it. -/
theorem getObject (h : Respelled f d d') (id : ObjectId) :
    Option.Rel (Respells f) (Objects.getObject d.objects id).toOption
      (Objects.getObject d'.objects (f id)).toOption := by
  rw [toOption_getObject, toOption_getObject, LawfulNumbering.dereference_respelled h]
  cases Lopdf.dereference d.objects id with
  | none => exact .none
  | some target => exact h.lookup target

theorem dereference (h : Respelled f d d') {value value' : Object} (hvalue : Respells f value value') :
    Option.Rel (Respells f) (dereference d.objects value) (dereference d'.objects value') := by
  cases hvalue with
  | reference id => exact h.getObject id
  | array hlength hitems => exact .some (.array hlength hitems)
  | dictionary hperm hvalues => exact .some (.dictionary hperm hvalues)
  | stream content hperm hvalues => exact .some (.stream content hperm hvalues)
  | null => exact .some .null
  | boolean value => exact .some (.boolean value)
  | integer value => exact .some (.integer value)
  | real value => exact .some (.real value)
  | name bytes => exact .some (.name bytes)
  | string bytes format format' => exact .some (.string bytes format format')

/-- An inherited attribute is found on the same node of the chain. -/
theorem inheritedIn (h : Respelled f d d') (key : String) (limit : Nat) (seen : Finset ObjectId)
    (id : ObjectId) : Option.Rel (Respells f) (inheritedIn d.objects key limit seen id)
      (inheritedIn d'.objects key limit (seen.image f) (f id)) := by
  induction limit generalizing seen id with
  | zero => exact .none
  | succ limit ih =>
    rw [Roundtrip.inheritedIn, Roundtrip.inheritedIn]
    by_cases hseen : id ∈ seen
    · rw [if_pos hseen, if_pos (h.injective.mem_finset_image.2 hseen)]
      exact .none
    · rw [if_neg hseen, if_neg fun hmem => hseen (h.injective.mem_finset_image.1 hmem)]
      have hentries := rel_bind (h.getObject id) fun object object' _ _ hobjects => hobjects.asDict
      cases hdict : ((Objects.getObject d.objects id).toOption).bind Object.asDict with
      | none =>
        rw [hdict] at hentries
        rw [rel_none_left hentries]
        exact .none
      | some entries =>
        rw [hdict] at hentries
        obtain ⟨entries', hdict', hrespells⟩ := rel_some_left hentries
        rw [hdict']
        dsimp only
        have hkey := hrespells.get key
        cases hvalue : Dictionary.get entries key with
        | some value =>
          rw [hvalue] at hkey
          obtain ⟨value', hvalue', hvalues⟩ := rel_some_left hkey
          rw [hvalue']
          exact .some hvalues
        | none =>
          rw [hvalue] at hkey
          rw [rel_none_left hkey]
          dsimp only
          have hparent := hrespells.get "Parent"
          cases hvalue : Dictionary.get entries "Parent" with
          | none =>
            rw [hvalue] at hparent
            rw [rel_none_left hparent]
            exact .none
          | some value =>
            rw [hvalue] at hparent
            obtain ⟨value', hvalue', hvalues⟩ := rel_some_left hparent
            rw [hvalue']
            cases hvalues with
            | reference parent =>
              dsimp only
              rw [← Finset.image_insert]
              exact ih (insert id seen) parent
            | _ => exact .none

/-- So is what a page inherits. -/
theorem inheritedAttribute (h : Respelled f d d') (page : ObjectId) (key : String) :
    Option.Rel (Respells f) (inheritedAttribute d.objects page key)
      (inheritedAttribute d'.objects (f page) key) := by
  have hin := h.inheritedIn key parentChainLimit ∅ page
  rwa [Finset.image_empty] at hin

omit [Lopdf] [LawfulNumbering] in
/-- A respelled box has the same extents. -/
theorem boxExtents_eq {box box' : Option (List Object)}
    (h : Option.Rel (List.Forall₂ (Respells f)) box box') : boxExtents box' = boxExtents box := by
  cases h with
  | none => rfl
  | some hvalues =>
    cases hvalues with
    | nil => rfl
    | cons hllx hvalues =>
      cases hvalues with
      | nil => rfl
      | cons hlly hvalues =>
        cases hvalues with
        | nil => rfl
        | cons hurx hvalues =>
          cases hvalues with
          | nil => rfl
          | cons hury _ =>
            rw [boxExtents, boxExtents, hllx.asF64_eq, hlly.asF64_eq, hurx.asF64_eq, hury.asF64_eq]

omit [Lopdf] [LawfulNumbering] in
theorem bind_asInt_eq {value value' : Option Object} (h : Option.Rel (Respells f) value value') :
    value'.bind Object.asInt = value.bind Object.asInt := by
  cases h with
  | none => rfl
  | some hvalues => exact hvalues.asInt_eq

/-- A page written again measures the same. -/
theorem pageGeometry (h : Respelled f d d') (page : ObjectId) :
    pageGeometry d'.objects (f page) = pageGeometry d.objects page := by
  have hbox := boxExtents_eq (rel_bind (h.inheritedAttribute page "MediaBox")
    fun value value' _ _ hvalues => rel_bind (h.dereference hvalues)
      fun object object' _ _ hobjects => hobjects.asArray)
  have hrotation := rel_bind (h.inheritedAttribute page "Rotate")
    fun value value' _ _ hvalues => h.dereference hvalues
  unfold Roundtrip.pageGeometry
  unfold resolveArray
  dsimp only
  rw [hbox, bind_asInt_eq hrotation]

end Lookups

section Digests

variable [Lopdf] [LawfulNumbering] {d d' : ParsedDocument}

theorem mem_neighbours (h : Respelled f d.toLopdfDocument d'.toLopdfDocument) {id id' : ObjectId} :
    id' ∈ neighbours d'.objects (f id) ↔ ∃ target ∈ neighbours d.objects id, f target = id' := by
  rw [neighbours_eq, neighbours_eq]
  have hobjects := h.getObject id
  cases hobject : (Objects.getObject d.objects id).toOption with
  | none =>
    rw [hobject] at hobjects
    rw [rel_none_left hobjects]
    simp
  | some object =>
    rw [hobject] at hobjects
    obtain ⟨object', hobject', hrespells⟩ := rel_some_left hobjects
    rw [hobject']
    exact hrespells.mem_links (proper_of_getObject d hobject) (proper_of_getObject d' hobject')

/-- What is reachable is what was reachable, renamed. -/
theorem reachableObjectIds (h : Respelled f d.toLopdfDocument d'.toLopdfDocument) :
    reachableObjectIds d'.toLopdfDocument = (reachableObjectIds d.toLopdfDocument).image f := by
  cases hroot : Roundtrip.rootReference d.toLopdfDocument with
  | none =>
    have hroot' : Roundtrip.rootReference d'.toLopdfDocument = none := by
      rw [h.rootReference, hroot, Option.map_none]
    simp [Roundtrip.reachableObjectIds, hroot, hroot']
  | some root =>
    have hroot' : Roundtrip.rootReference d'.toLopdfDocument = some (f root) := by
      rw [h.rootReference, hroot, Option.map_some]
    ext id'
    rw [Finset.mem_image, mem_reachableObjectIds hroot']
    constructor
    · intro hreach
      induction hreach with
      | refl => exact ⟨root, (mem_reachableObjectIds hroot).2 .refl, rfl⟩
      | tail _ hstep ih =>
        obtain ⟨id, hid, rfl⟩ := ih
        obtain ⟨target, htarget, rfl⟩ := h.mem_neighbours.1 hstep
        exact ⟨target, mem_reachableObjectIds_next hid htarget, rfl⟩
    · rintro ⟨id, hid, rfl⟩
      rw [mem_reachableObjectIds hroot] at hid
      exact hid.lift f fun source target hstep => h.mem_neighbours.2 ⟨target, hstep, rfl⟩

/-- As many references dangle. -/
theorem countDanglingReferences (h : Respelled f d.toLopdfDocument d'.toLopdfDocument) :
    countDanglingReferences d'.toLopdfDocument = countDanglingReferences d.toLopdfDocument := by
  have hmissing (id : ObjectId) : (Objects.getObject d'.objects (f id)).toOption = none ↔
      (Objects.getObject d.objects id).toOption = none := by
    have hobjects := h.getObject id
    generalize (Objects.getObject d.objects id).toOption = object at hobjects ⊢
    generalize (Objects.getObject d'.objects (f id)).toOption = object' at hobjects ⊢
    cases hobjects <;> simp
  unfold Roundtrip.countDanglingReferences
  rw [h.reachableObjectIds, Finset.filter_image, Finset.card_image_of_injective _ h.injective]
  simp only [hmissing]

variable [StreamDecoder] [LawfulDecoder]

/-- An identifier and its new number are fed alike. -/
theorem agree (h : Respelled f d.toLopdfDocument d'.toLopdfDocument) (id : ObjectId) :
    TextsMatch (fun id id' => id' = f id) (textAt d.objects id) (textAt d'.objects (f id)) :=
  TargetsEquivalent.agree (rel_mono (fun _ _ => Respells.equivalent) (h.getObject id))

theorem agree_pageText (h : Respelled f d.toLopdfDocument d'.toLopdfDocument) (page : ObjectId) :
    TextsMatch (fun id id' => id' = f id) (pageText d.objects page) (pageText d'.objects (f page)) := by
  have hobjects := h.getObject page
  unfold pageText
  cases hobject : (Objects.getObject d.objects page).toOption with
  | none =>
    rw [hobject] at hobjects
    rw [rel_none_left hobjects]
    exact agree_letters _ _
  | some object =>
    rw [hobject] at hobjects
    obtain ⟨object', hobject', hrespells⟩ := rel_some_left hobjects
    rw [hobject']
    have hproper := proper_of_getObject d hobject
    have hproper' := proper_of_getObject d' hobject'
    cases hrespells with
    | @dictionary entries entries' hperm hvalues =>
      refine agree_feedDictionary hproper.nodup hproper'.nodup (fun key _ => hperm.mem_iff)
        fun key _ value value' hvalue hvalue' => ?_
      have hmem : value ∈ (Object.dictionary entries).children :=
        List.mem_map.2 ⟨_, Dictionary.mem_of_get hvalue, rfl⟩
      have hmem' : value' ∈ (Object.dictionary entries').children :=
        List.mem_map.2 ⟨_, Dictionary.mem_of_get hvalue', rfl⟩
      exact (hvalues key value value' hvalue hvalue').equivalent.agree (hproper.child hmem)
        (hproper'.child hmem')
    | _ => exact agree_letters _ _

variable {D : Type} [Sha256 D]

/-- Digests go with the identifiers. -/
theorem digestsAfter (h : Respelled f d.toLopdfDocument d'.toLopdfDocument) (n : Nat) (id : ObjectId) :
    (digestsAfter d'.toLopdfDocument n (f id) : Option D) = digestsAfter d.toLopdfDocument n id := by
  have hmem : f id ∈ Roundtrip.reachableObjectIds d'.toLopdfDocument ↔
      id ∈ Roundtrip.reachableObjectIds d.toLopdfDocument := by
    rw [h.reachableObjectIds, h.injective.mem_finset_image]
  by_cases hid : id ∈ Roundtrip.reachableObjectIds d.toLopdfDocument
  · have hsimulation := ColourRefinement.alike_of_simulation
      (R := fun id id' => id' = f id) (fun id id' hids => hids ▸ h.agree id) n (rfl : f id = f id)
    rw [digestsAfter_eq n hid, digestsAfter_eq n (hmem.2 hid),
      ColourRefinement.colour_eq_of_alike _ _ n hsimulation]
  · cases n with
    | zero => simp [Roundtrip.digestsAfter, hid, hmem]
    | succ n => simp [Roundtrip.digestsAfter, hid, hmem]

/-- Every object keeps its digest under its new identifier. -/
theorem refineObjectDigests (h : Respelled f d.toLopdfDocument d'.toLopdfDocument) (id : ObjectId) :
    (refineObjectDigests d'.toLopdfDocument (f id) : Option D) =
      refineObjectDigests d.toLopdfDocument id := by
  rw [Roundtrip.refineObjectDigests, Roundtrip.refineObjectDigests, h.digestsAfter]

/-- So does the catalog. -/
theorem catalogDigest (h : Respelled f d.toLopdfDocument d'.toLopdfDocument) :
    (catalogDigest d'.toLopdfDocument (Roundtrip.refineObjectDigests d'.toLopdfDocument) : Option D) =
      catalogDigest d.toLopdfDocument (Roundtrip.refineObjectDigests d.toLopdfDocument) := by
  rw [Roundtrip.catalogDigest, Roundtrip.catalogDigest, h.rootReference]
  cases Roundtrip.rootReference d.toLopdfDocument with
  | none => rw [Option.map_none, Option.bind_none, Option.bind_none]
  | some root => rw [Option.map_some, Option.bind_some, Option.bind_some, h.refineObjectDigests]

/-- So does the content of every page. -/
theorem pageContentDigest (h : Respelled f d.toLopdfDocument d'.toLopdfDocument) (page : ObjectId) :
    (pageContentDigest d'.toLopdfDocument (f page) (Roundtrip.refineObjectDigests d'.toLopdfDocument) : D) =
      pageContentDigest d.toLopdfDocument page (Roundtrip.refineObjectDigests d.toLopdfDocument) := by
  rw [pageContentDigest_eq, pageContentDigest_eq]
  refine congrArg Sha256.digest (flatMap_fill_eq_of_agree (fun id id' hid => ?_)
    (h.agree_pageText page)).symm
  rw [hid, h.refineObjectDigests]

end Digests
end Respelled

/-! ### Pages without a size -/

section Blind

variable [Lopdf]

/-- The box a page inherits spans a number in both directions: no corner is what is not a number,
and none lies as infinitely far as the one opposite. -/
def Measured (objects : Objects) (page : ObjectId) : Prop :=
  ∀ llx lly urx ury rest, (inheritedAttribute objects page "MediaBox").bind (resolveArray objects) =
    some (llx :: lly :: urx :: ury :: rest) →
      ¬ F64.Indeterminate (asF64 urx) (asF64 llx) ∧ ¬ F64.Indeterminate (asF64 ury) (asF64 lly)

/-- A page has the geometry it has unless it cannot be measured. -/
theorem pageGeometry_eq_self {objects : Objects} {page : ObjectId} :
    (pageGeometry objects page).eq (pageGeometry objects page) = true ↔ Measured objects page := by
  have hself (g : PageGeometry) : g.eq g = true ↔ g.widthPt ≠ .nan ∧ g.heightPt ≠ .nan := by
    simp [PageGeometry.eq]
  rw [hself]
  unfold pageGeometry Measured
  dsimp only
  generalize (inheritedAttribute objects page "MediaBox").bind (resolveArray objects) = box
  constructor
  · rintro ⟨hwidth, hheight⟩ llx lly urx ury rest rfl
    simpa [boxExtents, F64.sub_eq_nan] using And.intro hwidth hheight
  · intro hmeasurable
    unfold boxExtents
    split
    · rename_i llx lly urx ury rest
      simpa [F64.sub_eq_nan] using hmeasurable llx lly urx ury rest rfl
    · simp

variable [LawfulNumbering] [StreamDecoder] [LawfulDecoder] {f : ObjectId → ObjectId}
  {d d' : ParsedDocument} {D : Type} [Sha256 D] [DecidableEq D]

omit [StreamDecoder] [LawfulDecoder] in
/-- Pages are compared with themselves. -/
theorem forall_pagePairs (h : Respelled f d.toLopdfDocument d'.toLopdfDocument)
    {P : ObjectId × ObjectId → Prop} :
    (∀ pair ∈ pagePairs d.toLopdfDocument d'.toLopdfDocument, P pair.1) ↔
      ∀ page ∈ Lopdf.pageIter d.toLopdfDocument, P (page, f page) := by
  have hpages : (pagePairs d.toLopdfDocument d'.toLopdfDocument).map Prod.fst =
      (Lopdf.pageIter d.toLopdfDocument).map fun page => (page, f page) := by
    rw [pagePairs, List.zipIdx_map_fst, LawfulNumbering.pageIter_respelled h,
      List.map_prod_left_eq_zip]
  rw [← List.forall_mem_map (f := Prod.fst) (P := P), hpages, List.forall_mem_map]

/-- Comparing a document with itself written again finds nothing exactly if every page can be
measured. -/
theorem respelled_diff_isEmpty_iff (h : Respelled f d.toLopdfDocument d'.toLopdfDocument) :
    (diffBytes D d.toLopdfDocument d'.toLopdfDocument).isEmpty = true ↔
      ∀ page ∈ Lopdf.pageIter d.toLopdfDocument, Measured d.objects page := by
  have hlength : (Lopdf.pageIter d.toLopdfDocument).length = (Lopdf.pageIter d'.toLopdfDocument).length := by
    rw [LawfulNumbering.pageIter_respelled h, List.length_map]
  have hgeometry := forall_pagePairs h (P := fun pair =>
    (pageGeometry d.objects pair.1).eq (pageGeometry d'.objects pair.2) = true)
  have hcontent := forall_pagePairs h (P := fun pair =>
    (pageContentDigest d.toLopdfDocument pair.1 (refineObjectDigests d.toLopdfDocument) : D) =
      pageContentDigest d'.toLopdfDocument pair.2 (refineObjectDigests d'.toLopdfDocument))
  rw [isEmpty_iff, hgeometry, hcontent]
  simp only [h.pageGeometry, pageGeometry_eq_self]
  constructor
  · rintro ⟨-, -, hmeasurable, -⟩
    exact hmeasurable
  · intro hmeasurable
    exact ⟨h.catalogDigest.symm, hlength, hmeasurable,
      fun page _ => (h.pageContentDigest page).symm, h.countDanglingReferences.symm⟩

end Blind
end Roundtrip

/-! ### A library that does not look at numbers -/

namespace ReferenceLopdf

open Roundtrip

variable {f : ObjectId → ObjectId} {d d' : LopdfDocument}

theorem dereference_respelled (h : Respelled f d d') (limit : Nat) (id : ObjectId) :
    dereference d'.objects limit (f id) = (dereference d.objects limit id).map f := by
  induction limit generalizing id with
  | zero => rfl
  | succ limit ih =>
    have hobjects := h.lookup id
    unfold dereference
    cases hobject : d.objects.lookup id with
    | none =>
      rw [hobject] at hobjects
      rw [rel_none_left hobjects]
      rfl
    | some object =>
      rw [hobject] at hobjects
      obtain ⟨object', hobject', hrespells⟩ := rel_some_left hobjects
      rw [hobject']
      cases hrespells with
      | reference next => exact ih next
      | _ => rfl

theorem statedType_respelled (h : Respelled f d d') (id : ObjectId) :
    statedType d'.objects (f id) = statedType d.objects id := by
  have hname {value value' : Object} (hvalues : Respells f value value') :
      value'.asName = value.asName := by cases hvalues <;> rfl
  exact (bind_eq_of_rel (h.entries id) fun entries entries' _ _ hentries' =>
    bind_eq_of_rel (hentries'.get "Type") fun value value' _ _ hvalues => (hname hvalues).symm).symm

theorem kidsOf_respelled (h : Respelled f d d') {node node' : Dictionary}
    (hnode : Respells f (.dictionary node) (.dictionary node')) :
    List.Forall₂ (Respells f) (kidsOf d.objects node) (kidsOf d'.objects node') := by
  have hkids := hnode.get "Kids"
  unfold kidsOf
  cases hvalue : Dictionary.get node "Kids" with
  | none =>
    rw [hvalue] at hkids
    rw [rel_none_left hkids]
    exact .nil
  | some value =>
    rw [hvalue] at hkids
    obtain ⟨value', hvalue', hrespells⟩ := rel_some_left hkids
    rw [hvalue']
    cases hrespells with
    | array hlength hitems => exact (Respells.array hlength hitems).items
    | reference id =>
      have hobjects := h.lookup id
      dsimp only
      cases hobject : d.objects.lookup id with
      | none =>
        rw [hobject] at hobjects
        rw [rel_none_left hobjects]
        exact .nil
      | some object =>
        rw [hobject] at hobjects
        obtain ⟨object', hobject', hrespells⟩ := rel_some_left hobjects
        rw [hobject']
        cases hrespells with
        | array hlength hitems => exact (Respells.array hlength hitems).items
        | _ => exact .nil
    | _ => exact .nil

theorem listPages_respelled (h : Respelled f d d') (depth : Nat) {kids kids' : List Object}
    (hkids : List.Forall₂ (Respells f) kids kids') :
    listPages d'.objects depth kids' = (listPages d.objects depth kids).map f := by
  induction depth generalizing kids kids' with
  | zero => rfl
  | succ depth ih =>
    unfold listPages
    induction hkids with
    | nil => rfl
    | @cons kid kid' kids kids' hkid _ ihKids =>
      rw [List.flatMap_cons, List.flatMap_cons, List.map_append, ihKids, hkid.asReference]
      congr 1
      cases kid.asReference with
      | none => rfl
      | some id =>
        dsimp only [Option.map_some]
        rw [dereference_respelled h]
        cases dereference d.objects referenceLimit id with
        | none => rfl
        | some target =>
          dsimp only [Option.map_some]
          rw [statedType_respelled h]
          split
          · rfl
          · split
            · have hentries := h.entries target
              cases hnode : (d.objects.lookup target).bind Object.asDict with
              | none =>
                rw [hnode] at hentries
                rw [rel_none_left hentries]
                rfl
              | some node =>
                rw [hnode] at hentries
                obtain ⟨node', hnode', hrespells⟩ := rel_some_left hentries
                rw [hnode']
                exact ih (kidsOf_respelled h hrespells)
            · rfl

/-- The pages of a respelled document are those it had, renamed. -/
theorem pageIter_respelled (h : Respelled f d d') : pageIter d' = (pageIter d).map f := by
  have hcard : d'.objects.keys.card = d.objects.keys.card := by
    rw [h.keys, Finset.card_image_of_injective _ h.injective]
  have hroot := h.rootReference
  unfold rootReference at hroot
  unfold pageIter
  dsimp only
  rw [hroot]
  cases (Dictionary.get d.trailer "Root").bind Object.asReference with
  | none => rfl
  | some catalogId =>
    dsimp only [Option.map_some]
    have hcatalog := h.entries catalogId
    cases hentries : (d.objects.lookup catalogId).bind Object.asDict with
    | none =>
      rw [hentries] at hcatalog
      rw [rel_none_left hcatalog]
      rfl
    | some catalog =>
      rw [hentries] at hcatalog
      obtain ⟨catalog', hcatalog', hrespells⟩ := rel_some_left hcatalog
      rw [hcatalog']
      dsimp only
      rw [hrespells.get_asReference]
      cases (Dictionary.get catalog "Pages").bind Object.asReference with
      | none => rfl
      | some root =>
        dsimp only [Option.map_some]
        have hnode := h.entries root
        cases hentries : (d.objects.lookup root).bind Object.asDict with
        | none =>
          rw [hentries] at hnode
          rw [rel_none_left hnode]
          rfl
        | some node =>
          rw [hentries] at hnode
          obtain ⟨node', hnode', hrespells⟩ := rel_some_left hnode
          rw [hnode']
          dsimp only
          rw [hcard, listPages_respelled h _ (kidsOf_respelled h hrespells)]

scoped instance : LawfulNumbering where
  dereference_respelled h := dereference_respelled h referenceLimit
  pageIter_respelled := pageIter_respelled

end ReferenceLopdf
namespace Roundtrip

open scoped ReferenceLopdf NumberedDigests

scoped instance : LawfulDecoder where
  decompressedContent_respells _ _ := rfl

def pageObjects (mediaBox : List Object) : List (Σ _ : ObjectId, Object) := [
  ⟨(1, 0), .dictionary [("Type", .name "Catalog"), ("Pages", .reference (2, 0))]⟩,
  ⟨(2, 0), .dictionary [("Type", .name "Pages"), ("Count", .integer 1),
    ("Kids", .array [.reference (3, 0)])]⟩,
  ⟨(3, 0), .dictionary [("Type", .name "Page"), ("Parent", .reference (2, 0)),
    ("MediaBox", .array mediaBox)]⟩]

def singlePage (mediaBox : List Object) : LopdfDocument where
  version := "1.7"
  objects := (pageObjects mediaBox).toFinmap
  trailer := [("Root", .reference (1, 0))]
  maxId := 3

def tenOn (id : ObjectId) : ObjectId := (id.1 + 10, id.2)

def singlePageTenOn (mediaBox : List Object) : LopdfDocument where
  version := "1.7"
  objects := ((pageObjects mediaBox).map (.map tenOn fun _ => Object.rename tenOn)).toFinmap
  trailer := [("Root", .reference (11, 0))]
  maxId := 13

theorem singlePage_renames (mediaBox : List Object) :
    Renames tenOn (singlePage mediaBox) (singlePageTenOn mediaBox) := by
  have hinjective : Function.Injective tenOn := fun id id' h => by
    obtain ⟨hnumber, hgeneration⟩ := Prod.mk.inj h
    exact Prod.ext (Nat.add_right_cancel hnumber) hgeneration
  refine ⟨hinjective, fun id => ?_, fun id hid => ?_, rfl⟩
  · rw [singlePage, singlePageTenOn, Finmap.dlookup_list_toFinmap, Finmap.dlookup_list_toFinmap]
    exact List.dlookup_map _ hinjective _ _
  · obtain ⟨object, hobject⟩ := (Finmap.mem_list_toFinmap _ _).1 hid
    obtain ⟨⟨source, value⟩, -, heq⟩ := List.mem_map.1 hobject
    exact ⟨source, (congrArg Sigma.fst heq).symm⟩

def letterBox : List Object := [.integer 0, .integer 0, .integer 612, .integer 792]

def letterPage : ParsedDocument where
  toLopdfDocument := singlePage letterBox
  keysOnce := by decide +kernel

def letterPageTenOn : ParsedDocument where
  toLopdfDocument := singlePageTenOn letterBox
  keysOnce := by decide +kernel

/-- A letter page is not told apart from the same page under other numbers. -/
theorem letter_page_is_seen_as_unchanged :
    Respelled tenOn letterPage.toLopdfDocument letterPageTenOn.toLopdfDocument ∧
      (diffBytes Nat letterPage.toLopdfDocument letterPageTenOn.toLopdfDocument).isEmpty = true := by
  have hrespelled : Respelled tenOn letterPage.toLopdfDocument letterPageTenOn.toLopdfDocument :=
    respelled_of_renames (singlePage_renames letterBox)
  have hgeometry : ∀ page ∈ Lopdf.pageIter letterPage.toLopdfDocument,
      (pageGeometry letterPage.objects page).eq (pageGeometry letterPage.objects page) = true := by
    decide +kernel
  exact ⟨hrespelled, (respelled_diff_isEmpty_iff hrespelled).2 fun page hpage =>
    pageGeometry_eq_self.1 (hgeometry page hpage)⟩

/-- A box whose corners are single-precision numbers too large to be finite. -/
def endlessBox : List Object :=
  [.real (.inf false), .integer 0, .real (.inf false), .integer 792]

def endless : ParsedDocument where
  toLopdfDocument := singlePage endlessBox
  keysOnce := by decide +kernel

theorem endless_geometry : ¬ (pageGeometry endless.objects (3, 0)).eq
    (pageGeometry endless.objects (3, 0)) = true := by decide +kernel

/-- Compared with itself, under the numbers it has, a file with an endless page differs. -/
theorem endless_page_differs_from_itself :
    Respelled id endless.toLopdfDocument endless.toLopdfDocument ∧
      (diffBytes Nat endless.toLopdfDocument endless.toLopdfDocument).isEmpty = false := by
  refine ⟨respelled_of_renames (Renames.refl _), Bool.eq_false_iff.2 fun hempty => ?_⟩
  have hpair : (((3, 0), (3, 0)), 0) ∈
      pagePairs endless.toLopdfDocument endless.toLopdfDocument := by decide +kernel
  exact endless_geometry ((isEmpty_iff.1 hempty).2.2.1 _ hpair)

end Roundtrip
end OpdfEditor
