import OpdfEditor.BlindDiff
import OpdfEditor.CaptureFreeCopy
import OpdfEditor.ShellSaves

/-!
The two saves against the diff. An incremental save leaves every object where it was and appends; a
compacting one drops what nothing reaches and numbers the rest afresh. The structural diff looks at
nothing but what the catalog reaches, and at no numbers, so it cannot tell the two files apart.
-/
namespace OpdfEditor

/-- Following references comes to what they lead to, and does not look at numbers or at anything
else on the way. -/
class LawfulFollowing [Lopdf] : Prop where
  dereference_leads : ∀ {objects : Objects} {id target : ObjectId},
    Lopdf.dereference objects id = some target → Relation.ReflTransGen (Links objects) id target
  dereference_relocates : ∀ {f : ObjectId → ObjectId} {at_ : ObjectId → Prop} {objects objects' : Objects},
    Relocates f at_ objects objects' → ∀ id, at_ id →
      Lopdf.dereference objects' (f id) = (Lopdf.dereference objects id).map f

namespace Roundtrip

open ColourRefinement (TextsMatch)

section Rename

variable {f : ObjectId → ObjectId}

theorem rel_rename (object : Option Object) :
    Option.Rel (Respells f) object (object.map (Object.rename f)) := by
  cases object with
  | none => exact .none
  | some object => exact .some (.rename f object)

/-- Values that agree under a relation agree under it where it concerns what they refer to. -/
theorem Equivalent.within [StreamDecoder] {R : ObjectId → ObjectId → Prop} {at_ : ObjectId → Prop}
    {object object' : Object} (h : Equivalent R object object')
    (hlinks : ∀ id ∈ object.links, at_ id) :
    Equivalent (fun id id' => at_ id ∧ R id id') object object' := by
  induction h with
  | reference hid => exact .reference ⟨hlinks _ (List.mem_singleton_self _), hid⟩
  | value hobject hshape hchildren ih =>
    refine .value hobject hshape fun step value value' hvalue hvalue' => ih step value value' hvalue hvalue'
      fun id hid => hlinks id (links_of_child (mem_children_of_child hvalue) hid)

end Rename

/-! ### Moving what the catalog reaches -/

/-- A document whose objects are moved, and whose catalog is the one moved. -/
structure Moved (f : ObjectId → ObjectId) (at_ : ObjectId → Prop) (d d' : LopdfDocument) : Prop where
  relocates : Relocates f at_ d.objects d'.objects
  start : ∀ root, rootReference d = some root → at_ root
  root : rootReference d' = (rootReference d).map f

namespace Moved

variable [Lopdf] [LawfulFollowing] {f : ObjectId → ObjectId} {at_ : ObjectId → Prop}

section Documents

variable {d d' : LopdfDocument}

/-- What was moved leads to nothing else. -/
theorem at_follows (h : Moved f at_ d d') {id target : ObjectId} (hid : at_ id)
    (htarget : Lopdf.dereference d.objects id = some target) : at_ target := by
  have hleads := LawfulFollowing.dereference_leads htarget
  clear htarget
  induction hleads with
  | refl => exact hid
  | tail _ hlink ih => exact h.relocates.closed _ _ ih hlink

theorem getObject (h : Moved f at_ d d') {id : ObjectId} (hid : at_ id) :
    (Objects.getObject d'.objects (f id)).toOption =
      (Objects.getObject d.objects id).toOption.map (Object.rename f) := by
  rw [toOption_getObject, toOption_getObject, LawfulFollowing.dereference_relocates h.relocates id hid]
  cases htarget : Lopdf.dereference d.objects id with
  | none => rfl
  | some target => exact h.relocates.lookup target (h.at_follows hid htarget)

/-- What a moved object refers to was moved. -/
theorem at_links (h : Moved f at_ d d') {id : ObjectId} {object : Object} (hid : at_ id)
    (hobject : (Objects.getObject d.objects id).toOption = some object) :
    ∀ target ∈ object.links, at_ target := by
  rw [toOption_getObject] at hobject
  obtain ⟨target, htarget, hlookup⟩ := Option.bind_eq_some_iff.1 hobject
  exact fun next hnext => h.relocates.closed target next (h.at_follows hid htarget) ⟨object, hlookup, hnext⟩

/-- An inherited attribute is found on the same node of the chain. -/
theorem inheritedIn (h : Moved f at_ d d') (key : String) (limit : Nat) (seen : Finset ObjectId)
    {id : ObjectId} (hid : at_ id) : inheritedIn d'.objects key limit (seen.image f) (f id) =
      (inheritedIn d.objects key limit seen id).map (Object.rename f) := by
  induction limit generalizing seen id with
  | zero => rfl
  | succ limit ih =>
    have hmem := h.relocates.injective.mem_finset_image (s := seen) (a := id)
    rw [Roundtrip.inheritedIn, Roundtrip.inheritedIn, h.getObject hid]
    by_cases hseen : id ∈ seen
    · rw [if_pos hseen, if_pos (hmem.2 hseen)]
      rfl
    · rw [if_neg hseen, if_neg fun hseen' => hseen (hmem.1 hseen')]
      cases hobject : (Objects.getObject d.objects id).toOption with
      | none => rfl
      | some object =>
        cases object with
        | dictionary entries =>
          dsimp only [Option.map_some, Option.bind_some, Object.rename, Object.asDict]
          rw [Dictionary.get_renameEntries, Dictionary.get_renameEntries]
          cases Dictionary.get entries key with
          | some value => rfl
          | none =>
            cases hparent : Dictionary.get entries "Parent" with
            | none => rfl
            | some value =>
              cases value with
              | reference parent =>
                have hatParent : at_ parent := h.at_links hid hobject parent
                  (Object.links_subset_entryLinks hparent (List.mem_singleton_self _))
                dsimp only [Option.map_none, Option.map_some, Object.rename]
                rw [← Finset.image_insert]
                exact ih (insert id seen) hatParent
              | _ => rfl
        | _ => rfl

/-- What a page inherits refers to nothing that was not moved. -/
theorem at_inherited (h : Moved f at_ d d') {key : String} {limit : Nat} {seen : Finset ObjectId}
    {id : ObjectId} (hid : at_ id) {value : Object}
    (hvalue : Roundtrip.inheritedIn d.objects key limit seen id = some value) :
    ∀ target ∈ value.links, at_ target := by
  induction limit generalizing seen id with
  | zero => cases hvalue
  | succ limit ih =>
    rw [Roundtrip.inheritedIn] at hvalue
    split at hvalue
    · cases hvalue
    split at hvalue
    · cases hvalue
    rename_i entries hentries
    obtain ⟨object, hobject, hdict⟩ := Option.bind_eq_some_iff.1 hentries
    obtain rfl := Object.asDict_eq_some.1 hdict
    have hlinks := h.at_links hid hobject
    split at hvalue
    · rename_i hget
      cases hvalue
      exact fun target htarget => hlinks target (Object.links_subset_entryLinks hget htarget)
    split at hvalue
    · rename_i hparent
      exact ih (hlinks _ (Object.links_subset_entryLinks hparent (List.mem_singleton_self _))) hvalue
    · cases hvalue

theorem dereference (h : Moved f at_ d d') {value : Object} (hvalue : ∀ target ∈ value.links, at_ target) :
    Roundtrip.dereference d'.objects (value.rename f) =
      (Roundtrip.dereference d.objects value).map (Object.rename f) := by
  cases value with
  | reference id => exact h.getObject (hvalue id (List.mem_singleton_self _))
  | _ => rfl

/-- What a page finds under a key, once followed, is what it found, moved. -/
theorem resolved (h : Moved f at_ d d') {page : ObjectId} (hpage : at_ page) (key : String) :
    (inheritedAttribute d'.objects (f page) key).bind (Roundtrip.dereference d'.objects) =
      ((inheritedAttribute d.objects page key).bind (Roundtrip.dereference d.objects)).map
        (Object.rename f) := by
  have hin := h.inheritedIn key parentChainLimit ∅ hpage
  rw [Finset.image_empty] at hin
  unfold inheritedAttribute
  rw [hin]
  cases hvalue : Roundtrip.inheritedIn d.objects key parentChainLimit ∅ page with
  | none => rfl
  | some value => exact h.dereference (h.at_inherited hpage hvalue)

/-- A moved page measures the same. -/
theorem pageGeometry (h : Moved f at_ d d') {page : ObjectId} (hpage : at_ page) :
    pageGeometry d'.objects (f page) = pageGeometry d.objects page := by
  have hbox : Option.Rel (List.Forall₂ (Respells f))
      ((inheritedAttribute d.objects page "MediaBox").bind (resolveArray d.objects))
      ((inheritedAttribute d'.objects (f page) "MediaBox").bind (resolveArray d'.objects)) := by
    unfold resolveArray
    rw [← Option.bind_assoc, ← Option.bind_assoc, h.resolved hpage]
    exact rel_bind (rel_rename _) fun object object' _ _ hobjects => hobjects.asArray
  have hrotation := Respelled.bind_asInt_eq (rel_rename (f := f)
    ((inheritedAttribute d.objects page "Rotate").bind (Roundtrip.dereference d.objects)))
  unfold Roundtrip.pageGeometry
  dsimp only
  rw [Respelled.boxExtents_eq hbox, h.resolved hpage, hrotation]

end Documents

/-! ### Digests of what was moved -/

section Digests

variable {d d' : ParsedDocument}

theorem mem_neighbours (h : Moved f at_ d.toLopdfDocument d'.toLopdfDocument) {id id' : ObjectId}
    (hid : at_ id) :
    id' ∈ neighbours d'.objects (f id) ↔ ∃ target ∈ neighbours d.objects id, f target = id' := by
  rw [neighbours_eq, neighbours_eq, h.getObject hid]
  cases (Objects.getObject d.objects id).toOption with
  | none => simp
  | some object =>
    dsimp only [Option.map_some, Option.elim_some]
    rw [Object.links_rename]
    exact List.mem_map

theorem at_reachable (h : Moved f at_ d.toLopdfDocument d'.toLopdfDocument) {id : ObjectId}
    (hid : id ∈ reachableObjectIds d.toLopdfDocument) : at_ id := by
  cases hroot : rootReference d.toLopdfDocument with
  | none => simp [Roundtrip.reachableObjectIds, hroot] at hid
  | some root =>
    rw [mem_reachableObjectIds hroot] at hid
    induction hid with
    | refl => exact h.start root hroot
    | @tail source target _ hstep ih =>
      rw [neighbours_eq] at hstep
      cases hobject : (Objects.getObject d.objects source).toOption with
      | none => simp [hobject] at hstep
      | some object =>
        rw [hobject] at hstep
        exact h.at_links ih hobject target hstep

/-- What is reachable is what was reachable, in its new place. -/
theorem reachableObjectIds (h : Moved f at_ d.toLopdfDocument d'.toLopdfDocument) :
    reachableObjectIds d'.toLopdfDocument = (reachableObjectIds d.toLopdfDocument).image f := by
  have hroots := h.root
  cases hroot : rootReference d.toLopdfDocument with
  | none =>
    rw [hroot] at hroots
    simp [Roundtrip.reachableObjectIds, hroot, hroots]
  | some root =>
    rw [hroot] at hroots
    ext id'
    rw [Finset.mem_image, mem_reachableObjectIds hroots]
    constructor
    · intro hreach
      induction hreach with
      | refl => exact ⟨root, (mem_reachableObjectIds hroot).2 .refl, rfl⟩
      | tail _ hstep ih =>
        obtain ⟨id, hid, rfl⟩ := ih
        obtain ⟨target, htarget, rfl⟩ := (h.mem_neighbours (h.at_reachable hid)).1 hstep
        exact ⟨target, mem_reachableObjectIds_next hid htarget, rfl⟩
    · rintro ⟨id, hid, rfl⟩
      rw [mem_reachableObjectIds hroot] at hid
      induction hid with
      | refl => exact .refl
      | tail hreach hstep ih =>
        have hat := h.at_reachable ((mem_reachableObjectIds hroot).2 hreach)
        exact ih.tail ((h.mem_neighbours hat).2 ⟨_, hstep, rfl⟩)

theorem countDanglingReferences (h : Moved f at_ d.toLopdfDocument d'.toLopdfDocument) :
    countDanglingReferences d'.toLopdfDocument = countDanglingReferences d.toLopdfDocument := by
  unfold Roundtrip.countDanglingReferences
  rw [h.reachableObjectIds, Finset.filter_image,
    Finset.card_image_of_injective _ h.relocates.injective]
  refine congrArg Finset.card (Finset.filter_congr fun id hid => ?_)
  rw [h.getObject (h.at_reachable hid), Option.map_eq_none_iff]

variable [StreamDecoder] [LawfulDecoder]

/-- An identifier that was moved and its new place are fed alike. -/
theorem agree (h : Moved f at_ d.toLopdfDocument d'.toLopdfDocument) {id : ObjectId} (hid : at_ id) :
    TextsMatch (fun id id' => at_ id ∧ id' = f id) (textAt d.objects id) (textAt d'.objects (f id)) := by
  refine TargetsEquivalent.agree ?_
  unfold TargetsEquivalent
  rw [h.getObject hid]
  cases hobject : (Objects.getObject d.objects id).toOption with
  | none => exact .none
  | some object =>
    exact .some ((Respells.rename f object).equivalent.within (h.at_links hid hobject))

theorem agree_pageText (h : Moved f at_ d.toLopdfDocument d'.toLopdfDocument) {page : ObjectId}
    (hpage : at_ page) :
    TextsMatch (fun id id' => at_ id ∧ id' = f id) (pageText d.objects page)
      (pageText d'.objects (f page)) := by
  have hget := h.getObject hpage
  unfold pageText
  rw [hget]
  cases hobject : (Objects.getObject d.objects page).toOption with
  | none => exact agree_letters _ _
  | some object =>
    rw [hobject] at hget
    have hproper := proper_of_getObject d hobject
    have hproper' := proper_of_getObject d' hget
    cases object with
    | dictionary entries =>
      refine agree_feedDictionary hproper.nodup hproper'.nodup (fun key _ => ?_)
        fun key _ value value' hvalue hvalue' => ?_
      · rw [← isSome_get, ← isSome_get, Dictionary.get_renameEntries, Option.isSome_map]
      · rw [Dictionary.get_renameEntries, hvalue] at hvalue'
        cases hvalue'
        have hlinks : ∀ id ∈ value.links, at_ id := fun id hid =>
          h.at_links hpage hobject id (Object.links_subset_entryLinks hvalue hid)
        have hmem : value ∈ (Object.dictionary entries).children :=
          List.mem_map.2 ⟨_, Dictionary.mem_of_get hvalue, rfl⟩
        have hmem' : value.rename f ∈ (Object.dictionary (Object.renameEntries f entries)).children :=
          List.mem_map.2 ⟨(key, value.rename f), by
            rw [renameEntries_eq_map]
            exact List.mem_map.2 ⟨_, Dictionary.mem_of_get hvalue, rfl⟩, rfl⟩
        exact ((Respells.rename f value).equivalent.within hlinks).agree (hproper.child hmem)
          (hproper'.child hmem')
    | _ => exact agree_letters _ _

variable {D : Type} [Sha256 D]

/-- Digests go with the objects. -/
theorem digestsAfter (h : Moved f at_ d.toLopdfDocument d'.toLopdfDocument) (n : Nat) (id : ObjectId) :
    (digestsAfter d'.toLopdfDocument n (f id) : Option D) = digestsAfter d.toLopdfDocument n id := by
  have hmem : f id ∈ Roundtrip.reachableObjectIds d'.toLopdfDocument ↔
      id ∈ Roundtrip.reachableObjectIds d.toLopdfDocument := by
    rw [h.reachableObjectIds, h.relocates.injective.mem_finset_image]
  by_cases hid : id ∈ Roundtrip.reachableObjectIds d.toLopdfDocument
  · have hsimulation := ColourRefinement.alike_of_simulation
      (R := fun id id' => at_ id ∧ id' = f id) (fun id id' hids => hids.2 ▸ h.agree hids.1) n
      ⟨h.at_reachable hid, rfl⟩
    rw [digestsAfter_eq n hid, digestsAfter_eq n (hmem.2 hid),
      ColourRefinement.colour_eq_of_alike _ _ n hsimulation]
  · cases n with
    | zero => simp [Roundtrip.digestsAfter, hid, hmem]
    | succ n => simp [Roundtrip.digestsAfter, hid, hmem]

theorem refineObjectDigests (h : Moved f at_ d.toLopdfDocument d'.toLopdfDocument) (id : ObjectId) :
    (refineObjectDigests d'.toLopdfDocument (f id) : Option D) =
      refineObjectDigests d.toLopdfDocument id := by
  rw [Roundtrip.refineObjectDigests, Roundtrip.refineObjectDigests, h.digestsAfter]

theorem catalogDigest (h : Moved f at_ d.toLopdfDocument d'.toLopdfDocument) :
    (catalogDigest d'.toLopdfDocument (Roundtrip.refineObjectDigests d'.toLopdfDocument) : Option D) =
      catalogDigest d.toLopdfDocument (Roundtrip.refineObjectDigests d.toLopdfDocument) := by
  rw [Roundtrip.catalogDigest, Roundtrip.catalogDigest, h.root]
  cases rootReference d.toLopdfDocument with
  | none => rw [Option.map_none, Option.bind_none, Option.bind_none]
  | some root => rw [Option.map_some, Option.bind_some, Option.bind_some, h.refineObjectDigests]

theorem pageContentDigest (h : Moved f at_ d.toLopdfDocument d'.toLopdfDocument) {page : ObjectId}
    (hpage : at_ page) :
    (pageContentDigest d'.toLopdfDocument (f page) (Roundtrip.refineObjectDigests d'.toLopdfDocument) : D) =
      pageContentDigest d.toLopdfDocument page (Roundtrip.refineObjectDigests d.toLopdfDocument) := by
  rw [pageContentDigest_eq, pageContentDigest_eq]
  refine congrArg Sha256.digest (flatMap_fill_eq_of_agree (fun id id' hids => ?_)
    (h.agree_pageText hpage)).symm
  rw [hids.2, h.refineObjectDigests]

variable [DecidableEq D]

/-- The diff finds nothing in what was moved exactly if every page can be measured. -/
theorem diff_isEmpty_iff (h : Moved f at_ d.toLopdfDocument d'.toLopdfDocument)
    (hat : ∀ page ∈ Lopdf.pageIter d.toLopdfDocument, at_ page)
    (hpages : Lopdf.pageIter d'.toLopdfDocument = (Lopdf.pageIter d.toLopdfDocument).map f) :
    (diffBytes D d.toLopdfDocument d'.toLopdfDocument).isEmpty = true ↔
      ∀ page ∈ Lopdf.pageIter d.toLopdfDocument, Measured d.objects page := by
  have hpairs {P : ObjectId × ObjectId → Prop} :
      (∀ pair ∈ pagePairs d.toLopdfDocument d'.toLopdfDocument, P pair.1) ↔
        ∀ page ∈ Lopdf.pageIter d.toLopdfDocument, P (page, f page) := by
    have hfst : (pagePairs d.toLopdfDocument d'.toLopdfDocument).map Prod.fst =
        (Lopdf.pageIter d.toLopdfDocument).map fun page => (page, f page) := by
      rw [pagePairs, List.zipIdx_map_fst, hpages, List.map_prod_left_eq_zip]
    rw [← List.forall_mem_map (f := Prod.fst) (P := P), hfst, List.forall_mem_map]
  have hgeometry := hpairs (P := fun pair =>
    (Roundtrip.pageGeometry d.objects pair.1).eq (Roundtrip.pageGeometry d'.objects pair.2) = true)
  have hcontent := hpairs (P := fun pair =>
    (Roundtrip.pageContentDigest d.toLopdfDocument pair.1 (Roundtrip.refineObjectDigests d.toLopdfDocument) : D) =
      Roundtrip.pageContentDigest d'.toLopdfDocument pair.2 (Roundtrip.refineObjectDigests d'.toLopdfDocument))
  rw [isEmpty_iff, hgeometry, hcontent]
  constructor
  · rintro ⟨-, -, hmeasured, -⟩ page hpage
    have hsame := hmeasured page hpage
    rwa [h.pageGeometry (hat page hpage), pageGeometry_eq_self] at hsame
  · intro hmeasured
    refine ⟨h.catalogDigest.symm, by rw [hpages, List.length_map], fun page hpage => ?_,
      fun page hpage => (h.pageContentDigest (hat page hpage)).symm, h.countDanglingReferences.symm⟩
    rw [h.pageGeometry (hat page hpage)]
    exact pageGeometry_eq_self.2 (hmeasured page hpage)

end Digests
end Moved
end Roundtrip

/-! ### Two saves of one document -/

section Saves

open Roundtrip (rootReference Moved Measured diffBytes)

variable [Lopdf] [LawfulLopdf] {d : PdfDocument} {pages : List ObjectId}

/-- From the file an incremental save writes to the one a compacting save writes, what the catalog
reaches is moved, and the pages with it. -/
theorem PdfDocument.Orderly.saves_move (h : d.Orderly pages) {env env' : SaveEnv}
    {appended compacted kept fresh : LopdfDocument}
    (hincremental : (d.saveIncremental env).1 = .ok appended)
    (hcompacted : (d.saveCompacted env').1 = .ok compacted)
    (hkept : appended.ReadsBackAs kept) (hfresh : compacted.ReadsBackAs fresh) :
    ∃ f at_, Moved f at_ kept fresh ∧ (∀ page ∈ Lopdf.pageIter kept, at_ page) ∧
      Lopdf.pageIter fresh = (Lopdf.pageIter kept).map f := by
  obtain ⟨d₁, hm, hobjects, hroot⟩ := h.toSound.writes_incremental
    (Prod.ext hincremental rfl : d.saveIncremental env = (.ok appended, _))
  obtain ⟨d₂, -, -, hm', rfl, -⟩ := PdfDocument.saveCompacted_ok
    (Prod.ext hcompacted rfl : d.saveCompacted env' = (.ok compacted, _))
  obtain rfl : d₁ = d₂ := congrArg Prod.snd (hm.symm.trans hm')
  obtain ⟨hsame, hsameRoot, hmerged⟩ := h.merged hm
  have htree := (h.tidy hm hsame hsameRoot hmerged).1.toPageTree
  -- both files are read off the merged document, one of them where it left its objects
  obtain ⟨hcopied, hstart, hkeptRoot⟩ :=
    hkept.relocates (hobjects.trans hsame.symm) (hroot.trans hsameRoot.symm)
  obtain ⟨f, hrenames⟩ := LawfulLopdf.renumber (Lopdf.pruneObjects d₁.mergedDocument)
  obtain ⟨hmoved, hstart', hfreshRoot⟩ := relocates_compacted hrenames hfresh
  obtain ⟨hkeptTree, -, hat⟩ := htree.relocates hcopied hstart hkeptRoot
  obtain ⟨hfreshTree, -, hat'⟩ := htree.relocates hmoved hstart' hfreshRoot
  have hkeptPages := LawfulLopdf.pageIter_eq hkeptTree
  rw [List.map_id] at hkeptPages
  rw [map_rename_id] at hkeptRoot
  refine ⟨f, _, ⟨hcopied.from_copy hmoved, fun root hreference => ?_, ?_⟩,
    hkeptPages ▸ fun page hpage => ⟨hat page hpage, hat' page hpage⟩, ?_⟩
  · obtain ⟨value, hvalue, href⟩ := Option.bind_eq_some_iff.1 hreference
    obtain rfl := Object.asReference_eq_some.1 href
    rw [hkeptRoot] at hvalue
    exact ⟨hstart root hvalue, hstart' root hvalue⟩
  · unfold rootReference
    rw [hfreshRoot, hkeptRoot]
    cases Dictionary.get d₁.mergedDocument.trailer "Root" with
    | none => rfl
    | some value => cases value <;> rfl
  · rw [hkeptPages]
    exact LawfulLopdf.pageIter_eq hfreshTree

namespace OpdfApp

variable [Pdfium] [LawfulFollowing] [Roundtrip.StreamDecoder] [Roundtrip.LawfulDecoder] {D : Type}
  [Roundtrip.Sha256 D] [DecidableEq D]

end OpdfApp
end Saves

/-! ### The reference implementation -/

namespace ReferenceLopdf

theorem dereference_leads {objects : Objects} {limit : Nat} {id target : ObjectId}
    (h : dereference objects limit id = some target) :
    Relation.ReflTransGen (Links objects) id target := by
  induction limit generalizing id with
  | zero => cases h
  | succ limit ih =>
    unfold dereference at h
    split at h
    · cases h
    · rename_i next hlookup
      exact .head ⟨_, hlookup, List.mem_singleton_self _⟩ (ih h)
    · cases h
      exact .refl

theorem dereference_relocates {f : ObjectId → ObjectId} {at_ : ObjectId → Prop}
    {objects objects' : Objects} (h : Relocates f at_ objects objects') (limit : Nat) {id : ObjectId}
    (hid : at_ id) : dereference objects' limit (f id) = (dereference objects limit id).map f := by
  induction limit generalizing id with
  | zero => rfl
  | succ limit ih =>
    unfold dereference
    rw [h.lookup id hid]
    cases hlookup : objects.lookup id with
    | none => rfl
    | some object =>
      cases object with
      | reference next => exact ih (h.closed id next hid ⟨_, hlookup, List.mem_singleton_self _⟩)
      | _ => rfl

scoped instance : LawfulFollowing where
  dereference_leads := dereference_leads
  dereference_relocates h _ hid := dereference_relocates h referenceLimit hid

end ReferenceLopdf

namespace ShellSession

open scoped ReferenceLopdf BlankPdfium Roundtrip.NumberedDigests Roundtrip

def compacted : LopdfDocument := (edited.saveCompacted .counting).1.toOption.get (by decide +kernel)

def kept : ParsedDocument where
  toLopdfDocument := reread
  keysOnce := by decide +kernel

def fresh : ParsedDocument where
  toLopdfDocument := (SaveEnv.counting.parse compacted).toOption.get (by decide +kernel)
  keysOnce := by decide +kernel

theorem saveCompacted_edited : (edited.saveCompacted .counting).1 = .ok compacted :=
  PdfDocument.eq_ok_get _ _

theorem parse_compacted : SaveEnv.counting.parse compacted = .ok fresh.toLopdfDocument :=
  PdfDocument.eq_ok_get _ (by decide +kernel)

theorem kept_reads : written.ReadsBackAs kept.toLopdfDocument :=
  (SaveEnv.faithful_counting _ _ parse_written).1

theorem fresh_reads : compacted.ReadsBackAs fresh.toLopdfDocument :=
  (SaveEnv.faithful_counting _ _ parse_compacted).1

/-- Every page of the file written can be measured. -/
theorem kept_measured : ∀ page ∈ Lopdf.pageIter kept.toLopdfDocument,
    Roundtrip.Measured kept.objects page := by
  have hgeometry : ∀ page ∈ Lopdf.pageIter kept.toLopdfDocument,
      (Roundtrip.pageGeometry kept.objects page).eq (Roundtrip.pageGeometry kept.objects page) = true := by
    decide +kernel
  exact fun page hpage => Roundtrip.pageGeometry_eq_self.1 (hgeometry page hpage)

end ShellSession

namespace OpdfApp

open scoped ReferenceLopdf BlankPdfium Roundtrip.NumberedDigests Roundtrip

end OpdfApp
end OpdfEditor
