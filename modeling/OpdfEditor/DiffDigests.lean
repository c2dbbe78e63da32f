import OpdfEditor.DiffEquivalence
import Mathlib.Logic.Encodable.Basic
import Mathlib.Logic.Equiv.List

/-!
Rounds of digests as colour refinement: a vertex is an identifier, its text what is fed for it
with every reference left open, and filling in the digests of one round gives the next.
-/
namespace OpdfEditor
namespace Roundtrip

open ColourRefinement (Glyph TextsMatch Alike colour)

/-! ### Filling in digests -/

section Fill

variable {D : Type}

/-- What is fed for a glyph of a text once digests are known. -/
def fill (digests : ObjectId → Option D) : Glyph Char ObjectId → Feed D
  | .letter c => [.letter c]
  | .mark id =>
    match digests id with
    | some digest => [.mark digest]
    | none => letters dangling

theorem fill_letters (digests : ObjectId → Option D) (ls : List Char) :
    (ls.map Glyph.letter).flatMap (fill digests) = ls.map Glyph.letter := by
  induction ls with
  | nil => rfl
  | cons c ls ih => rw [List.map_cons, List.flatMap_cons, ih, List.map_cons, fill, List.singleton_append]

@[simp] theorem letters_fill (digests : ObjectId → Option D) (text : String) :
    (letters text).flatMap (fill digests) = letters text := fill_letters digests _

@[simp] theorem littleEndian_fill (digests : ObjectId → Option D) (width n : Nat) :
    (littleEndian width n).flatMap (fill digests) = littleEndian width n := by
  have h := fill_letters digests ((List.range width).map fun i => Char.ofNat (n / 256 ^ i % 256))
  simpa [littleEndian, Function.comp_def] using h

@[simp] theorem feedLength_fill (digests : ObjectId → Option D) (n : Nat) :
    (feedLength n).flatMap (fill digests) = feedLength n := littleEndian_fill digests 8 n

@[simp] theorem feedBytes_fill (digests : ObjectId → Option D) (bytes : List UInt8) :
    (feedBytes bytes).flatMap (fill digests) = feedBytes bytes := by
  have h := fill_letters digests (bytes.map fun byte => Char.ofNat byte.toNat)
  simpa [feedBytes, Function.comp_def] using h

/-- Where every reference has a digest, filling in is renaming. -/
theorem flatMap_fill {digests : ObjectId → Option D} {f : ObjectId → D} {text : Feed ObjectId}
    (h : ∀ id, Glyph.mark id ∈ text → digests id = some (f id)) :
    text.flatMap (fill digests) = text.map (Glyph.map f) := by
  induction text with
  | nil => rfl
  | cons glyph text ih =>
    rw [List.flatMap_cons, List.map_cons, ih fun id hid => h id (List.mem_cons_of_mem _ hid)]
    cases glyph with
    | letter c => rfl
    | mark id => simp [fill, h id List.mem_cons_self, Glyph.map]

/-- Texts that agree are filled in the same way, if related references are. -/
theorem flatMap_fill_eq_of_agree {R : ObjectId → ObjectId → Prop} {digests digests' : ObjectId → Option D}
    (hR : ∀ id id', R id id' → digests id = digests' id') {text text' : Feed ObjectId}
    (h : TextsMatch R text text') : text.flatMap (fill digests) = text'.flatMap (fill digests') := by
  induction h with
  | nil => rfl
  | cons hglyph _ ih =>
    rw [List.flatMap_cons, List.flatMap_cons, ih]
    cases hglyph with
    | letter c => rfl
    | mark hid => rw [fill, fill, hR _ _ hid]

theorem feedDictionary_fill (digests : ObjectId → Option D) (excluded : List String)
    (entries : List (String × Feed ObjectId)) :
    (feedDictionary excluded entries).flatMap (fill digests) =
      feedDictionary excluded (entries.map fun entry => (entry.1, entry.2.flatMap (fill digests))) := by
  let filled (entry : String × Feed ObjectId) : String × Feed D :=
    (entry.1, entry.2.flatMap (fill digests))
  have hkept : ((entries.map filled).filter (·.1 ∉ excluded)).insertionSort
      (fun a b => a.1 ≤ b.1) =
        ((entries.filter (·.1 ∉ excluded)).insertionSort fun a b => a.1 ≤ b.1).map filled := by
    rw [List.map_insertionSort _ (fun a b : String × Feed D => a.1 ≤ b.1) filled _
      fun _ _ _ _ => Iff.rfl, List.filter_map]
    rfl
  unfold feedDictionary
  rw [hkept]
  simp only [List.flatMap_append, letters_fill, feedLength_fill, List.length_map,
    List.flatMap_assoc, List.flatMap_map, filled]

variable [StreamDecoder]

theorem feedContent_fill (digests : ObjectId → Option D) (entries : Dictionary)
    (content : List UInt8) :
    (feedContent entries content).flatMap (fill digests) = feedContent entries content := by
  unfold feedContent
  split <;> simp

theorem feedEntries_fill {digests : ObjectId → Option D} {entries : Dictionary}
    (h : ∀ value ∈ entries.map Prod.snd,
      feedObject digests value = (feedObject some value).flatMap (fill digests)) :
    feedEntries digests entries =
      (feedEntries some entries).map fun entry => (entry.1, entry.2.flatMap (fill digests)) := by
  rw [feedEntries_eq, feedEntries_eq, List.map_map]
  exact List.map_congr_left fun entry hentry =>
    Prod.ext rfl (h entry.2 (List.mem_map.2 ⟨entry, hentry, rfl⟩))

/-- What is fed for a value is its text with the digests filled in. -/
theorem feedObject_eq_fill (digests : ObjectId → Option D) (object : Object) :
    feedObject digests object = (feedObject some object).flatMap (fill digests) := by
  induction object using Object.childInduction with
  | step object ih =>
    cases object with
    | array items =>
      rw [feedObject, feedObject, feedItems_eq, feedItems_eq]
      simp only [List.flatMap_append, letters_fill, feedLength_fill, List.flatMap_assoc]
      have hitems : items.flatMap (feedObject digests) = _ := List.flatMap_congr ih
      rw [hitems]
    | dictionary entries => rw [feedObject, feedObject, feedDictionary_fill, feedEntries_fill ih]
    | stream entries content =>
      rw [feedObject, feedObject, List.flatMap_append, List.flatMap_append, feedDictionary_fill,
        feedContent_fill, letters_fill, feedEntries_fill ih]
    | reference id => cases hdigest : digests id <;> simp [feedObject, feedReference, fill, hdigest]
    | boolean value => simp [feedObject, fill]
    | _ => simp [feedObject]

end Fill

/-! ### Texts -/

section Text

variable [StreamDecoder]

omit [StreamDecoder] in
theorem links_of_child {object value : Object} (h : value ∈ object.children) :
    value.links ⊆ object.links := by
  cases object with
  | array items => exact fun id hid => Object.mem_itemLinks.2 ⟨value, h, hid⟩
  | dictionary entries =>
    obtain ⟨entry, hentry, rfl⟩ := List.mem_map.1 h
    exact fun id hid => Object.mem_entryLinks.2 ⟨entry, hentry, hid⟩
  | stream entries content =>
    obtain ⟨entry, hentry, rfl⟩ := List.mem_map.1 h
    exact fun id hid => Object.mem_entryLinks.2 ⟨entry, hentry, hid⟩
  | _ => cases h

omit [StreamDecoder] in
theorem mark_mem_feedDictionary {excluded : List String} {entries : List (String × Feed ObjectId)}
    {id : ObjectId} (h : Glyph.mark id ∈ feedDictionary excluded entries) :
    ∃ entry ∈ entries, Glyph.mark id ∈ entry.2 := by
  simp only [feedDictionary, letters, feedLength, littleEndian, List.mem_append, List.mem_map,
    reduceCtorEq, and_false, exists_false, false_or, List.mem_flatMap, List.mem_insertionSort,
    List.mem_filter] at h
  obtain ⟨entry, ⟨hentry, -⟩, hmark⟩ := h
  exact ⟨entry, hentry, hmark⟩

theorem mark_mem_feedContent {entries : Dictionary} {content : List UInt8} {id : ObjectId} :
    Glyph.mark id ∉ feedContent entries content := by
  unfold feedContent
  split <;> simp [letters, feedLength, littleEndian, feedBytes]

/-- The references left open in a value's text are the value's. -/
theorem links_of_mark {object : Object} {id : ObjectId} (h : Glyph.mark id ∈ feedObject some object) :
    id ∈ object.links := by
  induction object using Object.childInduction with
  | step object ih =>
    have hentries {entries : Dictionary} (hvalues : entries.map Prod.snd ⊆ object.children)
        (hmark : ∃ entry ∈ feedEntries some entries, Glyph.mark id ∈ entry.2) :
        id ∈ object.links := by
      obtain ⟨fed, hfed, hmark⟩ := hmark
      rw [feedEntries_eq] at hfed
      obtain ⟨entry, hentry, rfl⟩ := List.mem_map.1 hfed
      have hvalue := hvalues (List.mem_map.2 ⟨entry, hentry, rfl⟩)
      exact links_of_child hvalue (ih entry.2 hvalue hmark)
    cases object with
    | array items =>
      rw [feedObject, feedItems_eq] at h
      simp only [letters, feedLength, littleEndian, List.mem_append, List.mem_map, reduceCtorEq,
        and_false, exists_false, false_or, List.mem_flatMap] at h
      obtain ⟨item, hitem, hmark⟩ := h
      exact links_of_child hitem (ih item hitem hmark)
    | dictionary entries => exact hentries (List.Subset.refl _) (mark_mem_feedDictionary h)
    | stream entries content =>
      rw [feedObject, List.mem_append, List.mem_append] at h
      have hdictionary := (h.resolve_right mark_mem_feedContent).resolve_left (by simp [letters])
      exact hentries (List.Subset.refl _) (mark_mem_feedDictionary hdictionary)
    | reference target => simpa [feedObject, feedReference, letters, Object.links] using h
    | _ => simp [feedObject, letters, feedLength, littleEndian] at h

variable [Lopdf]

/-- What is fed for an identifier, references left open. -/
def textAt (objects : Objects) (id : ObjectId) : Feed ObjectId := feedTarget objects some id

theorem feedTarget_eq_fill {D : Type} (objects : Objects) (digests : ObjectId → Option D)
    (id : ObjectId) : feedTarget objects digests id = (textAt objects id).flatMap (fill digests) := by
  unfold textAt feedTarget
  split
  · exact feedObject_eq_fill digests _
  · exact (letters_fill digests _).symm

theorem neighbours_of_mark {objects : Objects} {id target : ObjectId}
    (h : Glyph.mark target ∈ textAt objects id) : target ∈ neighbours objects id := by
  unfold textAt feedTarget at h
  unfold neighbours
  split at h
  · exact links_of_mark h
  · simp [letters] at h

end Text

/-! ### Reachable identifiers -/

section Reachable

variable [Lopdf]

theorem toOption_getObject (objects : Objects) (id : ObjectId) :
    (Objects.getObject objects id).toOption =
      (Lopdf.dereference objects id).bind objects.lookup := by
  unfold Objects.getObject
  cases (Lopdf.dereference objects id).bind objects.lookup <;> rfl

theorem lookup_of_getObject {objects : Objects} {id : ObjectId} {object : Object}
    (h : Objects.getObject objects id = .ok object) :
    ∃ target, Lopdf.dereference objects id = some target ∧ objects.lookup target = some object := by
  unfold Objects.getObject at h
  split at h
  · rename_i hfound
    cases h
    exact Option.bind_eq_some_iff.1 hfound
  · cases h

theorem neighbours_eq (objects : Objects) (id : ObjectId) :
    neighbours objects id = ((Objects.getObject objects id).toOption).elim [] Object.links := by
  unfold neighbours
  cases Objects.getObject objects id <;> rfl

theorem proper_of_getObject (d : ParsedDocument) {id : ObjectId} {object : Object}
    (h : (Objects.getObject d.objects id).toOption = some object) : object.Proper := by
  rw [toOption_getObject] at h
  obtain ⟨_, -, hlookup⟩ := Option.bind_eq_some_iff.1 h
  exact d.proper hlookup

theorem mem_mentioned {objects : Objects} {root id target : ObjectId}
    (h : target ∈ neighbours objects id) : target ∈ mentioned objects root := by
  unfold neighbours at h
  split at h
  · rename_i object hobject
    obtain ⟨holder, -, hlookup⟩ := lookup_of_getObject hobject
    refine Finset.mem_insert_of_mem (Finset.mem_biUnion.2
      ⟨holder, Finmap.mem_keys.2 (Finmap.mem_of_lookup_eq_some hlookup), ?_⟩)
    simpa [hlookup] using h
  · cases h

/-- What is visited is what a chain of references leads to from the catalog. -/
theorem mem_reachableObjectIds {document : LopdfDocument} {root id : ObjectId}
    (hroot : rootReference document = some root) :
    id ∈ reachableObjectIds document ↔
      Relation.ReflTransGen (fun x y => y ∈ neighbours document.objects x) root id := by
  unfold reachableObjectIds
  rw [hroot]
  exact Worklist.mem_search (fun _ _ _ h => mem_mentioned h) (Finset.mem_insert_self _ _)

theorem mem_reachableObjectIds_next {document : LopdfDocument} {id target : ObjectId}
    (h : id ∈ reachableObjectIds document) (htarget : target ∈ neighbours document.objects id) :
    target ∈ reachableObjectIds document := by
  cases hroot : rootReference document with
  | none => simp [reachableObjectIds, hroot] at h
  | some root =>
    rw [mem_reachableObjectIds hroot] at h ⊢
    exact h.tail htarget

end Reachable

/-! ### Equivalent targets -/

section Targets

variable [Lopdf] [StreamDecoder]

def TargetsEquivalent (R : ObjectId → ObjectId → Prop) (before after : LopdfDocument)
    (id id' : ObjectId) : Prop :=
  Option.Rel (Equivalent R) (Objects.getObject before.objects id).toOption
    (Objects.getObject after.objects id').toOption

/-- Equivalent targets are fed alike. -/
theorem TargetsEquivalent.agree {R : ObjectId → ObjectId → Prop} {before after : ParsedDocument}
    {id id' : ObjectId}
    (h : TargetsEquivalent R before.toLopdfDocument after.toLopdfDocument id id') :
    TextsMatch R (textAt before.objects id) (textAt after.objects id') := by
  unfold TargetsEquivalent at h
  unfold textAt feedTarget
  cases hobject : Objects.getObject before.objects id with
  | error e =>
    rw [hobject] at h
    cases hobject' : Objects.getObject after.objects id' with
    | error e' => exact agree_letters R _
    | ok object' =>
      rw [hobject'] at h
      cases h
  | ok object =>
    rw [hobject] at h
    cases hobject' : Objects.getObject after.objects id' with
    | error e' =>
      rw [hobject'] at h
      cases h
    | ok object' =>
      rw [hobject'] at h
      cases h with
      | some hequivalent =>
        obtain ⟨_, -, hlookup⟩ := lookup_of_getObject hobject
        obtain ⟨_, -, hlookup'⟩ := lookup_of_getObject hobject'
        exact hequivalent.agree (before.proper hlookup) (after.proper hlookup')

end Targets

/-! ### Digests -/

section Digests

variable [Lopdf] [StreamDecoder] {D : Type} [Sha256 D]

/-- A reachable identifier's digest is its colour. -/
theorem digestsAfter_eq {document : LopdfDocument} (n : Nat) {id : ObjectId}
    (h : id ∈ reachableObjectIds document) :
    (digestsAfter document n id : Option D) =
      some (colour Sha256.digest Sha256.zero (textAt document.objects) n id) := by
  induction n generalizing id with
  | zero => simp [digestsAfter, h, colour]
  | succ n ih =>
    have hfilled : (textAt document.objects id).flatMap (fill (digestsAfter document n)) = _ :=
      flatMap_fill fun target htarget => ih (mem_reachableObjectIds_next h (neighbours_of_mark htarget))
    rw [digestsAfter, if_pos h, feedTarget_eq_fill, hfilled, colour]

theorem catalogDigest_eq (document : LopdfDocument) :
    (catalogDigest document (refineObjectDigests document) : Option D) =
      (rootReference document).map
        (colour Sha256.digest Sha256.zero (textAt document.objects) refinementRounds) := by
  unfold catalogDigest
  cases hroot : rootReference document with
  | none => rfl
  | some root => exact digestsAfter_eq _ ((mem_reachableObjectIds hroot).2 .refl)

/-- What is fed for a page, references left open. -/
def pageText (objects : Objects) (page : ObjectId) : Feed ObjectId :=
  match ((Objects.getObject objects page).toOption).bind Object.asDict with
  | some entries => feedDictionary ["Parent"] (feedEntries some entries)
  | none => letters dangling

theorem pageContentDigest_eq (document : LopdfDocument) (page : ObjectId)
    (digests : ObjectId → Option D) : pageContentDigest document page digests =
      Sha256.digest ((pageText document.objects page).flatMap (fill digests)) := by
  unfold pageContentDigest pageText
  cases ((Objects.getObject document.objects page).toOption).bind Object.asDict with
  | some entries =>
    simp only [feedDictionary_fill, feedEntries_fill fun value _ => feedObject_eq_fill digests value]
  | none => simp only [letters_fill]

variable [DecidableEq D]

/-- Nothing is found when each of the parts finds nothing. -/
theorem isEmpty_iff {before after : LopdfDocument} : (diffBytes D before after).isEmpty = true ↔
    (catalogDigest before (refineObjectDigests before) : Option D) =
        catalogDigest after (refineObjectDigests after) ∧
      (Lopdf.pageIter before).length = (Lopdf.pageIter after).length ∧
      (∀ pair ∈ pagePairs before after,
        (pageGeometry before.objects pair.1.1).eq (pageGeometry after.objects pair.1.2) = true) ∧
      (∀ pair ∈ pagePairs before after,
        (pageContentDigest before pair.1.1 (refineObjectDigests before) : D) =
          pageContentDigest after pair.1.2 (refineObjectDigests after)) ∧
      countDanglingReferences before = countDanglingReferences after := by
  have hchanged (m n : Nat) : (changed m n).isNone = true ↔ m = n := by
    by_cases hmn : m = n <;> simp [changed, hmn]
  simp only [StructuralDiff.isEmpty, diffBytes, Bool.and_eq_true, hchanged, Bool.not_eq_true',
    decide_eq_false_iff_not, not_not, List.isEmpty_iff, pageGeometryChanges, pagesWithChangedContent,
    List.filterMap_eq_nil_iff, ite_eq_left_iff, reduceCtorEq, imp_false, Bool.not_eq_false, and_assoc,
    Bool.not_eq_true]

end Digests

/-! ### A hash without collisions -/

/-- No two texts have one digest. -/
class LawfulSha256 (D : Type) [Sha256 D] : Prop where
  injective : Function.Injective (Sha256.digest : Feed D → D)

/-- Texts are numbered. -/
def numbered (text : Feed Nat) : Nat :=
  Encodable.encode (text.map fun glyph =>
    match glyph with
    | .letter c => (Sum.inl c.toNat : Nat ⊕ Nat)
    | .mark n => .inr n)

theorem numbered_injective : Function.Injective numbered := by
  refine Encodable.encode_injective.comp (List.map_injective_iff.2 ?_)
  intro glyph glyph' h
  cases glyph <;> cases glyph' <;> simp_all [Char.toNat_inj]

namespace NumberedDigests

scoped instance : Sha256 Nat where
  zero := 0
  digest := numbered

scoped instance : LawfulSha256 Nat where
  injective := numbered_injective

/-- No stream can be decoded. -/
scoped instance : StreamDecoder where
  decompressedContent _ _ := none

end NumberedDigests

end Roundtrip
end OpdfEditor
