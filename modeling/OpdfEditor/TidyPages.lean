import OpdfEditor.PdfInheritance
import OpdfEditor.SplitHalves

/-!
Files whose pages are tidy: each listed once and none below another, and none would come to
look otherwise right under the root. A document opened from such a file stays safe to save
while its pages are taken out, put back, moved and turned, and what a save writes is tidy
again.
-/
namespace OpdfEditor

open PdfDocument (KeepsLooks pageShown)

/-- A node names another as its parent. -/
def HangsUnder (objects : Objects) (id parent : ObjectId) : Prop := parentOf objects id = some parent

/-- What a save relies on to write every page as it is shown, told by the file alone. -/
structure Tidy (file : LopdfDocument) (root : ObjectId) (pages : List ObjectId) : Prop
    extends ProperTree file root pages where
  counted : file.Counted
  distinct : pages.Nodup
  looks : ∀ page ∈ pages, KeepsLooks file.objects root page
  apart : ∀ page ∈ pages, ∀ other ∈ pages, ¬ Relation.TransGen (HangsUnder file.objects) page other

/-! ### Tidy files, renumbered -/

section Relocated

variable {f : ObjectId → ObjectId} {at_ : ObjectId → Prop} {objects objects' : Objects}

/-- What hangs above a moved page is where it hung before. -/
theorem Relocates.hangsUnder (h : Relocates f at_ objects objects') {id above : ObjectId} (hid : at_ id)
    (hangs : Relation.TransGen (HangsUnder objects') (f id) above) :
    ∃ above', above = f above' ∧ at_ above' ∧ Relation.TransGen (HangsUnder objects) id above' := by
  have hstep : ∀ {node parent : ObjectId}, at_ node → HangsUnder objects' (f node) parent →
      ∃ parent', parent = f parent' ∧ at_ parent' ∧ HangsUnder objects node parent' := by
    intro node parent hnode hparent
    rw [HangsUnder, h.parentOf hnode] at hparent
    obtain ⟨parent', hparent', rfl⟩ := Option.map_eq_some_iff.1 hparent
    exact ⟨parent', rfl, h.at_parent hnode hparent', hparent'⟩
  induction hangs with
  | single hparent =>
    obtain ⟨parent', rfl, hat, hparent'⟩ := hstep hid hparent
    exact ⟨parent', rfl, hat, .single hparent'⟩
  | tail _ hparent ih =>
    obtain ⟨node', rfl, hat, hchain⟩ := ih
    obtain ⟨parent', rfl, hat', hparent'⟩ := hstep hat hparent
    exact ⟨parent', rfl, hat', hchain.tail hparent'⟩

theorem Relocates.keepsLooks (h : Relocates f at_ objects objects') {root page : ObjectId}
    (hroot : at_ root) (hpage : at_ page) (hlooks : KeepsLooks objects root page) :
    KeepsLooks objects' (f root) (f page) := by
  have hfound : ∀ {key : String}, findInheritedAttribute objects' (f page) key = none →
      findInheritedAttribute objects page key = none := by
    intro key hnone
    rw [findInheritedAttribute, h.findInheritedIn _ _ hpage] at hnone
    exact Option.map_eq_none_iff.1 hnone
  have hsees : ∀ {key : String} {value : Object}, OpdfEditor.entryOf objects root key = some value →
      Sees at_ objects value := fun hentry =>
    h.sees fun target htarget => h.closed root target hroot (links_of_entryOf hentry htarget)
  refine ⟨fun hnone => ?_, fun hnone => ?_⟩
  · rw [h.entryOf hroot, h.mirrors.measuredSize fun _ => hsees]
    exact hlooks.box (hfound hnone)
  · rw [h.entryOf hroot, h.mirrors.measuredRotation fun _ => hsees]
    exact hlooks.rotation (hfound hnone)

end Relocated

/-- A tidy file whose objects are moved is tidy in the new place, and its pages show the same. -/
theorem Tidy.relocates {f : ObjectId → ObjectId} {at_ : ObjectId → Prop} {file file' : LopdfDocument}
    {root : ObjectId} {pages : List ObjectId} (h : Tidy file root pages)
    (hmoved : Relocates f at_ file.objects file'.objects)
    (hstart : ∀ id, Dictionary.get file.trailer "Root" = some (.reference id) → at_ id)
    (hroot : Dictionary.get file'.trailer "Root" =
      (Dictionary.get file.trailer "Root").map (Object.rename f)) (hcounted : file'.Counted) :
    Tidy file' (f root) (pages.map f) ∧
      (pages.map f).map (pageShown file'.objects) = pages.map (pageShown file.objects) := by
  obtain ⟨htree, hatRoot, hat⟩ := h.toPageTree.relocates hmoved hstart hroot
  refine ⟨⟨⟨htree, ?_, ?_⟩, hcounted, h.distinct.map hmoved.injective, ?_, ?_⟩, ?_⟩
  · rw [hmoved.carries.stated root hatRoot]
    exact h.root_page
  · rw [hmoved.parentOf hatRoot, h.root_top]
    rfl
  · intro page' hpage'
    obtain ⟨page, hpage, rfl⟩ := List.mem_map.1 hpage'
    exact hmoved.keepsLooks hatRoot (hat page hpage) (h.looks page hpage)
  · intro page' hpage' other' hother' hangs
    obtain ⟨page, hpage, rfl⟩ := List.mem_map.1 hpage'
    obtain ⟨other, hother, rfl⟩ := List.mem_map.1 hother'
    obtain ⟨above, habove, -, hchain⟩ := hmoved.hangsUnder (hat page hpage) hangs
    rw [← hmoved.injective habove] at hchain
    exact h.apart page hpage other hother hchain
  · rw [List.map_map]
    exact List.map_congr_left fun page hpage =>
      Prod.ext (hmoved.readPageSize (hat page hpage)) (hmoved.readPageRotation (hat page hpage))

namespace PdfDocument

/-! ### Documents that stay safe to save -/

/-- A sound document whose slots are of different pages, none below another in the file, and none
that would come to look otherwise right under the root. -/
structure Orderly (d : PdfDocument) (pages : List ObjectId) : Prop extends Sound d pages where
  distinct : (d.pages.known.map PageSlot.objectId).Nodup
  rootBox : ∀ slot ∈ d.pages.known, d.attributeOf slot.objectId "MediaBox" = none →
    measuredSize d.view (entryOf d.view d.rootPagesId "MediaBox") = defaultPageSize
  rootRotation : ∀ slot ∈ d.pages.known, d.attributeOf slot.objectId "Rotate" = none →
    measuredRotation d.view (entryOf d.view d.rootPagesId "Rotate") = .none
  apart : ∀ page ∈ pages, ∀ other ∈ pages,
    ¬ Relation.TransGen (HangsUnder d.incremental.previous.objects) page other

section Steps

variable {d d' : PdfDocument} {pages : List ObjectId}

theorem Orderly.same_slot (h : Orderly d pages) {slot other : PageSlot} (hslot : slot ∈ d.pages.known)
    (hother : other ∈ d.pages.known) (hsame : slot.objectId = other.objectId) : slot = other :=
  List.inj_on_of_nodup_map h.distinct hslot hother hsame

/-- Where nothing was rearranged, looking up from a page leads to no other page. -/
theorem Orderly.looksUp (h : Orderly d pages) (hstructural : d.dirty.structural = false)
    {slot other : PageSlot} (hslot : slot ∈ d.pages.live) (hother : other ∈ d.pages.live)
    (hups : Relation.ReflTransGen d.LooksUp slot.objectId other.objectId) : slot = other := by
  obtain ⟨hlive, hentry, -⟩ := h.unmoved hstructural
  have hmem : ∀ slot ∈ d.pages.live, slot.objectId ∈ pages := fun slot hslot =>
    hlive ▸ List.mem_map_of_mem hslot
  have hhangs : ∀ node parent, d.LooksUp node parent →
      HangsUnder d.incremental.previous.objects node parent := by
    rintro node parent ⟨-, -, hparent⟩
    unfold HangsUnder
    unfold parentOf at hparent ⊢
    rwa [← hentry node "Parent" (by decide)]
  rcases Relation.reflTransGen_iff_eq_or_transGen.1 hups with hsame | hchain
  · exact h.same_slot (List.mem_append_left _ hslot) (List.mem_append_left _ hother) hsame.symm
  · exact absurd (Relation.TransGen.mono hhangs _ _ hchain) (h.apart _ (hmem slot hslot) _ (hmem other hother))

/-- An orderly document is safe to save. -/
theorem Orderly.saveSafe (h : Orderly d pages) : d.SaveSafe where
  box _ slot hslot := h.rootBox slot (List.mem_append_left _ hslot)
  rotate _ slot hslot _ _ := h.rootRotation slot (List.mem_append_left _ hslot)
  shared turned hturned _ slot hslot hsame := by
    rw [h.same_slot hslot (List.mem_append_left _ hturned) hsame]
  nested hstructural turned hturned _ slot hslot hups := by
    rw [h.looksUp hstructural hslot hturned hups]

/-- What is orderly about the slots is told by what they are of. -/
theorem Orderly.of_slots (h : Orderly d pages) (hsound : Sound d' pages)
    (hids : (d'.pages.known.map PageSlot.objectId).Perm (d.pages.known.map PageSlot.objectId))
    (hincremental : d'.incremental = d.incremental) (hroot : d'.rootPagesId = d.rootPagesId) :
    Orderly d' pages := by
  have hold : ∀ slot ∈ d'.pages.known, ∃ old ∈ d.pages.known, old.objectId = slot.objectId := by
    intro slot hslot
    exact List.mem_map.1 (hids.mem_iff.1 (List.mem_map_of_mem hslot))
  have hattribute := attributeOf_of_same hincremental
  have hview : d'.view = d.view := congrArg IncrementalDocument.view hincremental
  refine ⟨hsound, hids.nodup_iff.2 h.distinct, fun slot hslot hnone => ?_, fun slot hslot hnone => ?_,
    ?_⟩
  · obtain ⟨old, hknown, hid⟩ := hold slot hslot
    rw [hattribute, ← hid] at hnone
    rw [hview, hroot]
    exact h.rootBox old hknown hnone
  · obtain ⟨old, hknown, hid⟩ := hold slot hslot
    rw [hattribute, ← hid] at hnone
    rw [hview, hroot]
    exact h.rootRotation old hknown hnone
  · rw [hincremental]
    exact h.apart

theorem Rearranged.orderly (hmoved : Rearranged d d') (h : Orderly d pages) : Orderly d' pages :=
  h.of_slots (hmoved.sound h.toSound) (hmoved.known.map _) hmoved.incremental hmoved.rootPagesId

theorem Turned.orderly {rotation : Rotation} (hturned : Turned rotation d d') (h : Orderly d pages) :
    Orderly d' pages := by
  obtain ⟨before, slot, after, hlive, hlive'⟩ := hturned.live
  refine h.of_slots (hturned.sound h.toSound) (List.Perm.of_eq ?_) hturned.incremental
    hturned.rootPagesId
  rw [Roster.known, Roster.known, hturned.removed, hlive, hlive']
  simp [PageSlot.rotate]

end Steps
/-! ### Opened from tidy files -/

section Files

variable {d d₁ : PdfDocument} {pages : List ObjectId}

/-- A document that holds a tidy file and nothing else is orderly. -/
theorem orderly_of_tidy {file : LopdfDocument} (h : Tidy file d.rootPagesId pages)
    (hsound : Sound d pages) (hlive : d.pages.live.map PageSlot.objectId = pages)
    (hremoved : d.pages.removed = [])
    (hincremental : d.incremental = announceVersion (IncrementalDocument.load file)) :
    Orderly d pages := by
  have hview := view_of_load hincremental
  have hprevious : d.incremental.previous = file := by
    rw [hincremental]
    rfl
  have hknown : d.pages.known = d.pages.live := by rw [Roster.known, hremoved, List.append_nil]
  have hlisted : ∀ slot ∈ d.pages.known, slot.objectId ∈ pages := fun slot hslot =>
    hlive ▸ List.mem_map_of_mem (hknown ▸ hslot)
  have hfound : ∀ slot ∈ d.pages.known, ∀ key, d.attributeOf slot.objectId key =
      findInheritedAttribute file.objects slot.objectId key := by
    intro slot hslot key
    rw [attributeOf_previous (hsound.mem_previous (hlisted slot hslot)), hprevious]
  refine ⟨hsound, ?_, fun slot hslot hnone => ?_, fun slot hslot hnone => ?_, ?_⟩
  · rw [hknown, hlive]
    exact h.distinct
  · rw [hfound slot hslot] at hnone
    rw [hview]
    exact (h.looks _ (hlisted slot hslot)).box hnone
  · rw [hfound slot hslot] at hnone
    rw [hview]
    exact (h.looks _ (hlisted slot hslot)).rotation hnone
  · rw [hprevious]
    exact h.apart

variable [Lopdf]

/-- A document freshly opened from a tidy file is orderly. -/
theorem orderly_load [LawfulLopdf] {file : LopdfDocument} {root : ObjectId} (h : Tidy file root pages)
    {id : DocumentId} (hload : load id file = .ok d) : Orderly d pages := by
  obtain ⟨-, -, -, hincremental, -⟩ := load_eq_ok hload
  obtain ⟨hremoved, -⟩ := listed_load hload
  obtain ⟨rfl, hids, -⟩ := load_lists hload h.toProperTree
  exact orderly_of_tidy h (sound_load hload h.toProperTree h.counted) hids hremoved hincremental

/-- A tidy file with pages opens, showing them. -/
theorem exists_load_of_tidy [LawfulLopdf] {file : LopdfDocument} {root : ObjectId} (h : Tidy file root pages)
    (hpages : pages ≠ []) (id : DocumentId) : ∃ d, load id file = .ok d ∧
      d.pages.live.map PageSlot.shown = pages.map (pageShown file.objects) := by
  let slots := pages.map fun page =>
    (⟨0, page, readPageSize file.objects page, readPageRotation file.objects page, false⟩ : PageSlot)
  have hids : slots.map PageSlot.objectId = pages := by simp [slots, Function.comp_def]
  have hdepicts : Depicts file root slots := by
    refine ⟨hids.symm ▸ h.toProperTree, fun slot hslot => ?_, fun slot hslot => ?_⟩
    · obtain ⟨page, -, rfl⟩ := List.mem_map.1 hslot
      rfl
    · obtain ⟨page, -, rfl⟩ := List.mem_map.1 hslot
      rfl
  obtain ⟨d, hload, hshown⟩ := hdepicts.load (by simpa [slots] using hpages) id
  refine ⟨d, hload, hshown.trans ?_⟩
  simp [slots, Function.comp_def, PageSlot.shown, pageShown]

/-! ### What is written -/

section Written

variable [LawfulDereference]

/-- An attribute that is nowhere to be found after a save was nowhere to be found before. -/
theorem Grounded.attributeOf_none (h : Grounded d pages) (hm : d.materializeChanges = (.ok (), d₁))
    {page : ObjectId} {key : String} (hnone : d₁.attributeOf page key = none) :
    d.attributeOf page key = none := by
  obtain ⟨-, hprevious, -⟩ := materialized_same h hm
  by_cases hpage : page ∈ d.incremental.previous.objects
  · rw [attributeOf_previous (hprevious ▸ hpage), hprevious] at hnone
    rwa [attributeOf_previous hpage]
  · rw [attributeOf_created (hprevious ▸ hpage), h.entryOf_materialized hm,
      Option.or_eq_none_iff] at hnone
    rw [attributeOf_created hpage]
    exact hnone.2

theorem Grounded.root_materialized (h : Grounded d pages) (hm : d.materializeChanges = (.ok (), d₁))
    {key : String} (hkey : key ∈ inheritableKeys) :
    entryOf d₁.view d.rootPagesId key = entryOf d.view d.rootPagesId key := by
  obtain ⟨hkids, hcount, -⟩ := ne_of_inheritable hkey
  exact h.entryOf_unwritten hm (h.lastWritten_root hkids hcount)

/-- Writing the pending edits keeps a document orderly. -/
theorem Orderly.materialized (h : Orderly d pages) (hm : d.materializeChanges = (.ok (), d₁)) :
    Orderly d₁ pages := by
  have hground := h.toGrounded
  obtain ⟨hsame, hprevious, -⟩ := materialized_same hground hm
  have hpages : d₁.pages = d.pages := by rw [hsame]
  have hroot : d₁.rootPagesId = d.rootPagesId := by rw [hsame]
  refine ⟨h.toSound.materialized h.saveSafe hm, hpages ▸ h.distinct, fun slot hslot hnone => ?_,
    fun slot hslot hnone => ?_, hprevious ▸ h.apart⟩
  · rw [hpages] at hslot
    rw [hroot, hground.root_materialized hm (by decide), hground.measuredSize_materialized hm]
    exact h.rootBox slot hslot (hground.attributeOf_none hm hnone)
  · rw [hpages] at hslot
    rw [hroot, hground.root_materialized hm (by decide), hground.measuredRotation_materialized hm]
    exact h.rootRotation slot hslot (hground.attributeOf_none hm hnone)

/-- A page a save does not rearrange finds the box it brought. -/
theorem Sound.box_unmoved (h : Sound d pages) (hm : d.materializeChanges = (.ok (), d₁))
    (hstructural : d.dirty.structural = false) {slot : PageSlot} (hslot : slot ∈ d.pages.live) :
    findInheritedAttribute d₁.view slot.objectId "MediaBox" =
      d.attributeOf slot.objectId "MediaBox" := by
  obtain ⟨hlive, hentry, -⟩ := h.unmoved hstructural
  have hentries : ∀ id key, key ≠ "Rotate" →
      entryOf d₁.view id key = entryOf d.incremental.previous.objects id key := by
    intro id key hkey
    rw [← hentry id key hkey]
    refine h.entryOf_unwritten hm (lastWritten_eq_none.2 fun value hpending => ?_)
    exact hkey (hpending.unmoved hstructural).1
  rw [attributeOf_previous (h.mem_previous (hlive ▸ List.mem_map_of_mem hslot))]
  refine findInheritedIn_congr _ (fun id => hentries id _ (by decide)) (fun id => ?_) _
  unfold parentOf
  rw [hentries id _ (by decide)]

/-- Nor does it find a rotation where it brought none. -/
theorem Orderly.rotation_unmoved (h : Orderly d pages) (hm : d.materializeChanges = (.ok (), d₁))
    (hstructural : d.dirty.structural = false) {slot : PageSlot} (hslot : slot ∈ d.pages.live)
    (hnone : findInheritedAttribute d₁.view slot.objectId "Rotate" = none) :
    d.attributeOf slot.objectId "Rotate" = none := by
  have hlive := (h.unmoved hstructural).live
  rw [attributeOf_previous (h.mem_previous (hlive ▸ List.mem_map_of_mem hslot))]
  rcases h.toSound.find_unmoved h.saveSafe hm hstructural hslot parentChainLimit .refl
    with hsame | hturned
  · exact hsame.symm.trans hnone
  · rw [findInheritedAttribute, hturned] at hnone
    cases hnone

/-- What a save writes of a page would not come to look otherwise under the root. -/
theorem Orderly.keepsLooks (h : Orderly d pages) (hm : d.materializeChanges = (.ok (), d₁))
    {slot : PageSlot} (hslot : slot ∈ d.pages.live) :
    KeepsLooks d₁.view d.rootPagesId slot.objectId := by
  have hground := h.toGrounded
  have hknown : slot ∈ d.pages.known := List.mem_append_left _ hslot
  cases hstructural : d.dirty.structural with
  | true =>
    -- right under the root a page that finds nothing finds nothing there either
    have hnone : ∀ {key : String}, key ∈ inheritableKeys →
        findInheritedAttribute d₁.view slot.objectId key = none →
          entryOf d₁.view d.rootPagesId key = none := by
      intro key hkey hnone
      obtain ⟨hkids, hcount, -⟩ := ne_of_inheritable hkey
      rw [hground.find_materialized hm hstructural hslot hkids hcount, Option.or_eq_none_iff] at hnone
      rw [hground.root_materialized hm hkey, hnone.2]
    refine ⟨fun hbox => ?_, fun hrotation => ?_⟩
    · rw [hnone (by decide) hbox]
      rfl
    · rw [hnone (by decide) hrotation]
      rfl
  | false =>
    refine ⟨fun hbox => ?_, fun hrotation => ?_⟩
    · rw [hground.root_materialized hm (by decide), hground.measuredSize_materialized hm]
      rw [h.toSound.box_unmoved hm hstructural hslot] at hbox
      exact h.rootBox slot hknown hbox
    · rw [hground.root_materialized hm (by decide), hground.measuredRotation_materialized hm]
      exact h.rootRotation slot hknown (h.rotation_unmoved hm hstructural hslot hrotation)

/-- No page a save writes hangs under another. -/
theorem Orderly.apart_written (h : Orderly d pages) (hm : d.materializeChanges = (.ok (), d₁))
    {slot other : PageSlot} (hslot : slot ∈ d.pages.live) (hother : other ∈ d.pages.live) :
    ¬ Relation.TransGen (HangsUnder d₁.view) slot.objectId other.objectId := by
  have hground := h.toGrounded
  intro hchain
  cases hstructural : d.dirty.structural with
  | true =>
    have hparent : parentOf d₁.view slot.objectId = some d.rootPagesId := by
      unfold parentOf
      rw [hground.entryOf_written hm (lastWritten_parent hstructural hslot)]
      rfl
    have htop : parentOf d₁.view d.rootPagesId = none := by
      unfold parentOf
      rw [hground.entryOf_unwritten hm (hground.lastWritten_root (by decide) (by decide)),
        hground.root_entry _ (by decide) (by decide)]
      exact hground.tree.root_top
    -- the root is all there is above a page
    have habove : ∀ node, Relation.TransGen (HangsUnder d₁.view) slot.objectId node →
        node = d.rootPagesId := by
      intro node hnode
      induction hnode with
      | single hup => exact Option.some.inj (hup.symm.trans hparent)
      | tail _ hup ih =>
        rw [ih, HangsUnder, htop] at hup
        cases hup
    exact hground.root_ne (List.mem_append_left _ hother) (habove _ hchain)
  | false =>
    have hd₁ := (h.materialized hm).toSound
    obtain ⟨hsame, hprevious, -⟩ := materialized_same hground hm
    have hunmoved := hd₁.unmoved (by rw [hsame]; exact hstructural)
    have hlive := (h.unmoved hstructural).live
    refine h.apart _ (hlive ▸ List.mem_map_of_mem hslot) _ (hlive ▸ List.mem_map_of_mem hother)
      (Relation.TransGen.mono (fun node parent hup => ?_) _ _ hchain)
    unfold HangsUnder at hup ⊢
    unfold parentOf at hup ⊢
    rwa [← hprevious, ← hunmoved.entry node "Parent" (by decide)]

/-- What a save of an orderly document writes is tidy, and its pages read as they are shown. -/
theorem Orderly.tidy (h : Orderly d pages) (hm : d.materializeChanges = (.ok (), d₁))
    {file : LopdfDocument} (hobjects : file.objects = d₁.view)
    (htrailer : Dictionary.get file.trailer "Root" =
      Dictionary.get d.incremental.previous.trailer "Root") (hcounted : file.Counted) :
    Tidy file d.rootPagesId (d.pages.live.map PageSlot.objectId) ∧
      (d.pages.live.map PageSlot.objectId).map (pageShown file.objects) =
        d.pages.live.map PageSlot.shown := by
  have hdepicts := h.toSound.depicts h.saveSafe hm hobjects htrailer
  refine ⟨⟨hdepicts.tree, hcounted, ?_, ?_, ?_⟩, ?_⟩
  · refine h.distinct.sublist ?_
    rw [Roster.known, List.map_append]
    exact List.sublist_append_left _ _
  · intro page hpage
    obtain ⟨slot, hslot, rfl⟩ := List.mem_map.1 hpage
    rw [hobjects]
    exact h.keepsLooks hm hslot
  · intro page hpage other hother
    obtain ⟨slot, hslot, rfl⟩ := List.mem_map.1 hpage
    obtain ⟨another, hanother, rfl⟩ := List.mem_map.1 hother
    rw [hobjects]
    exact h.apart_written hm hslot hanother
  · rw [List.map_map]
    exact List.map_congr_left fun slot hslot =>
      Prod.ext (hdepicts.size slot hslot) (hdepicts.rotation slot hslot)

end Written
/-! ### Both saves -/

section Saves

variable [LawfulLopdf] {d' : PdfDocument} {env : SaveEnv} {written reread : LopdfDocument}

/-- An incremental save writes the objects its edits leave, under the trailer of the file. -/
theorem Sound.writes_incremental (h : Sound d pages) (hsave : d.saveIncremental env = (.ok written, d')) :
    ∃ d₁, d.materializeChanges = (.ok (), d₁) ∧ written.objects = d₁.view ∧
      Dictionary.get written.trailer "Root" =
        Dictionary.get d.incremental.previous.trailer "Root" := by
  unfold PdfDocument.saveIncremental at hsave
  split at hsave
  · cases hsave
  split at hsave
  · rename_i hclean
    obtain ⟨hstructural, hrotations⟩ := clean_of_isClean hclean
    split at hsave
    · cases hsave
    cases hsave
    -- nothing is pending, and nothing was appended
    have hm : d.materializeChanges = (.ok (), d) := by
      unfold materializeChanges pendingEdits
      rw [hstructural, hrotations]
      rfl
    refine ⟨d, hm, Finmap.ext_lookup fun id => ?_, rfl⟩
    refine ((h.unmoved hstructural).lookup id fun slot hslot hchanged => ?_).symm
    have hflagged := h.flagged slot (List.mem_append_left _ hslot) hchanged
    rw [hrotations] at hflagged
    cases hflagged
  · split at hsave
    · cases hsave
    rename_i d₁ hm
    split at hsave
    · cases hsave
    cases hsave
    obtain ⟨-, -, hnew⟩ := materialized_same h.toGrounded hm
    exact ⟨_, hm, rfl, congrArg (Dictionary.get · "Root")
      ((congrArg LopdfDocument.trailer hnew).trans h.trailer)⟩

/-- The two layers laid together are a file of the objects, with the root of the bytes on disk. -/
theorem Orderly.merged (h : Orderly d pages) (hm : d.materializeChanges = (.ok (), d₁)) :
    d₁.mergedDocument.objects = d₁.view ∧
      Dictionary.get d₁.mergedDocument.trailer "Root" =
        Dictionary.get d.incremental.previous.trailer "Root" ∧ d₁.mergedDocument.Counted := by
  obtain ⟨-, hprevious, -⟩ := materialized_same h.toGrounded hm
  refine ⟨rfl, ?_, fun id hid => (h.materialized hm).toGrounded.mem_view hid⟩
  rw [← hprevious]
  exact Dictionary.get_remove_of_ne (by decide) _

/-- An incremental save of an orderly document writes a tidy file that shows its pages. -/
theorem Orderly.written_incremental (h : Orderly d pages)
    (hsave : d.saveIncremental env = (.ok written, d')) (hreread : written.ReadsBackAs reread)
    (hcounted : reread.Counted) : ∃ root pages', Tidy reread root pages' ∧
      pages'.map (pageShown reread.objects) = d.pages.live.map PageSlot.shown := by
  obtain ⟨d₁, hm, hobjects, hroot⟩ := h.toSound.writes_incremental hsave
  obtain ⟨hsame, hsameRoot, hmerged⟩ := h.merged hm
  obtain ⟨htidy, hshown⟩ := h.tidy hm hsame hsameRoot hmerged
  obtain ⟨hmoved, hstart, htrailer⟩ :=
    hreread.relocates (hobjects.trans hsame.symm) (hroot.trans hsameRoot.symm)
  obtain ⟨htidy', hshown'⟩ := htidy.relocates hmoved hstart htrailer hcounted
  exact ⟨_, _, htidy', hshown'.trans hshown⟩

theorem Orderly.saveIncremental (h : Orderly d pages) (env : SaveEnv) :
    Orderly (d.saveIncremental env).2 pages := by
  obtain ⟨d₁, hm⟩ := h.materializes
  refine saveIncremental_preserves (P := (Orderly · pages)) env h ?_
  rw [hm]
  exact h.materialized hm

/-- A compacting save moves the objects its edits leave. -/
theorem Orderly.compacted (h : Orderly d pages) (hm : d.materializeChanges = (.ok (), d₁))
    (hfile : d₁.buildCompactedDocument.ReadsBackAs reread) (hcounted : reread.Counted) :
    ∃ f : ObjectId → ObjectId,
      Tidy reread (f d.rootPagesId) (d.pages.live.map fun slot => f slot.objectId) ∧
      (d.pages.live.map fun slot => f slot.objectId).map (pageShown reread.objects) =
        d.pages.live.map PageSlot.shown := by
  obtain ⟨hobjects, hroot, hmerged⟩ := h.merged hm
  obtain ⟨htidy, hshown⟩ := h.tidy hm hobjects hroot hmerged
  obtain ⟨f, hrenames⟩ := LawfulLopdf.renumber (Lopdf.pruneObjects d₁.mergedDocument)
  obtain ⟨hmoved, hstart, htrailer⟩ := relocates_compacted hrenames hfile
  obtain ⟨htidy', hshown'⟩ := htidy.relocates hmoved hstart htrailer hcounted
  have hids : (d.pages.live.map PageSlot.objectId).map f =
      d.pages.live.map fun slot => f slot.objectId := List.map_map
  rw [hids] at htidy' hshown'
  exact ⟨f, htidy', hshown'.trans hshown⟩

/-- A compacting save of an orderly document writes a tidy file that shows its pages. -/
theorem Orderly.written_compacted (h : Orderly d pages)
    (hsave : d.saveCompacted env = (.ok written, d')) (hreread : written.ReadsBackAs reread)
    (hcounted : reread.Counted) : ∃ root pages', Tidy reread root pages' ∧
      pages'.map (pageShown reread.objects) = d.pages.live.map PageSlot.shown := by
  obtain ⟨d₁, -, -, hm, rfl, -⟩ := saveCompacted_ok hsave
  obtain ⟨f, htidy, hshown⟩ := h.compacted hm hreread hcounted
  exact ⟨_, _, htidy, hshown⟩

/-- After a compacting save the document is orderly over the file it wrote. -/
theorem Orderly.rebased (h : Orderly d pages) {file : LopdfDocument} (hrebased : Rebased file d₁ d')
    (hm : d.materializeChanges = (.ok (), d₁)) (hlive : d.pages.live ≠ [])
    (hfile : d₁.buildCompactedDocument.ReadsBackAs file) (hcounted : file.Counted) :
    ∃ pages', Orderly d' pages' := by
  obtain ⟨hsame, -, -⟩ := materialized_same h.toGrounded hm
  have hpages : d₁.pages = d.pages := by rw [hsame]
  obtain ⟨f, htidy, -⟩ := h.compacted hm hfile hcounted
  have hids : Lopdf.pageIter file = d.pages.live.map fun slot => f slot.objectId :=
    LawfulLopdf.pageIter_eq htidy.toPageTree
  have hobjects : d'.pages.live.map PageSlot.objectId = d.pages.live.map fun slot => f slot.objectId := by
    rw [hrebased.live, hids, hpages, List.zipWith_map_right, List.zipWith_self, List.map_map]
    rfl
  have hroot : f d.rootPagesId = d'.rootPagesId :=
    Except.ok.inj (htidy.toProperTree.readRootPagesId.symm.trans hrebased.root)
  obtain ⟨pages', hsound⟩ := hrebased.sound h.toSound h.saveSafe hm hlive hfile hcounted
  have hpages' : pages' = d.pages.live.map fun slot => f slot.objectId := by
    rw [← hobjects]
    refine ((hsound.unmoved ?_).live).symm
    rw [hrebased.dirty]
    rfl
  rw [hroot] at htidy
  rw [hpages'] at hsound
  exact ⟨_, orderly_of_tidy htidy hsound hobjects hrebased.removed hrebased.incremental⟩

/-- A compacting save of an orderly document leaves it orderly, where what it wrote is read back. -/
theorem Orderly.saveCompacted (h : Orderly d pages) (hfaithful : env.FaithfulTo d) :
    ∃ pages', Orderly (d.saveCompacted env).2 pages' := by
  refine saveCompacted_preserves (P := fun d' => ∃ pages', Orderly d' pages') env ⟨pages, h⟩ ?_ ?_
  · obtain ⟨d₁, hm⟩ := h.materializes
    rw [hm]
    exact ⟨pages, h.materialized hm⟩
  · intro d₁ file hlive hm hparse hrebased
    obtain ⟨hfile, hcounted⟩ := hfaithful _ ⟨_, hm, rfl⟩ _ hparse
    exact h.rebased hrebased hm (fun hnil => hlive (congrArg List.length hnil)) hfile hcounted

end Saves
end Files
end PdfDocument

/-- No page hangs below another where what is above pages is none, and all there is above that. -/
theorem apart_of_above {objects : Objects} {pages : List ObjectId} (above : List ObjectId)
    (hpages : ∀ page ∈ pages, ∀ parent ∈ parentOf objects page, parent ∈ above)
    (habove : ∀ node ∈ above, ∀ parent ∈ parentOf objects node, parent ∈ above)
    (hnone : ∀ page ∈ pages, page ∉ above) :
    ∀ page ∈ pages, ∀ other ∈ pages, ¬ Relation.TransGen (HangsUnder objects) page other := by
  intro page hpage other hother hchain
  refine hnone other hother ?_
  clear hother
  induction hchain with
  | single hparent => exact hpages page hpage _ hparent
  | tail _ hparent ih => exact habove _ ih _ hparent

theorem NestedFile.tidy : Tidy NestedFile.file (2, 0) [(4, 0), (5, 0), (6, 0)] where
  toProperTree := NestedFile.properTree
  counted := by decide +kernel
  distinct := by decide
  looks page hpage := by
    simp only [List.mem_cons, List.not_mem_nil, or_false] at hpage
    rcases hpage with rfl | rfl | rfl <;> exact ⟨by decide +kernel, by decide +kernel⟩
  apart := apart_of_above [(3, 0), (2, 0)] (by decide +kernel) (by decide +kernel) (by decide)

end OpdfEditor
