import OpdfEditor.PdfReopening
import OpdfEditor.PdfResave

/-!
What pages inherit. Flattening takes the nodes between a page and the root out of the
page's ancestry, so what the page found there is written onto the page first; and this
holds of every save of a session, finished or not, until the document is rebased.
-/
namespace OpdfEditor

/-! ### Ancestry -/

/-- The nodes above one in a page tree, up to the root, which has none above it. -/
inductive Ascends (objects : Objects) (root : ObjectId) : ObjectId → List ObjectId → Prop
  | root {dict : Dictionary} (hroot : objects.lookup root = some (.dictionary dict))
      (htop : parentOf objects root = none) : Ascends objects root root []
  | up {id parent : ObjectId} {above : List ObjectId} (hparent : parentOf objects id = some parent)
      (hrest : Ascends objects root parent above) : Ascends objects root id (parent :: above)

section Ascends

variable {objects objects' : Objects} {root id : ObjectId} {above : List ObjectId} {key : String}

theorem lookup_of_parentOf {parent : ObjectId} (h : parentOf objects id = some parent) :
    ∃ dict, objects.lookup id = some (.dictionary dict) := by
  obtain ⟨value, hvalue, -⟩ := Option.bind_eq_some_iff.1 h
  obtain ⟨dict, hdict, -⟩ := lookup_of_entryOf hvalue
  exact ⟨dict, hdict⟩

theorem Ascends.lookup (h : Ascends objects root id above) :
    ∃ dict, objects.lookup id = some (.dictionary dict) := by
  cases h with
  | root hroot _ => exact ⟨_, hroot⟩
  | up hparent _ => exact lookup_of_parentOf hparent

theorem Ascends.lookup_above (h : Ascends objects root id above) :
    ∀ node ∈ above, ∃ dict, objects.lookup node = some (.dictionary dict) := by
  induction h with
  | root _ _ => simp
  | up _ hrest ih =>
    intro node hnode
    rcases List.mem_cons.1 hnode with rfl | hnode
    · exact hrest.lookup
    · exact ih node hnode

theorem Ascends.top (h : Ascends objects root id above) : parentOf objects root = none := by
  induction h with
  | root _ htop => exact htop
  | up _ _ ih => exact ih

/-- The root is above every other node. -/
theorem Ascends.mem (h : Ascends objects root id above) : id = root ∨ root ∈ above := by
  induction h with
  | root _ _ => exact .inl rfl
  | up _ _ ih =>
    rcases ih with rfl | hmem
    · exact .inr List.mem_cons_self
    · exact .inr (List.mem_cons_of_mem _ hmem)

/-- A walk that gets to the root and finds nothing has found nothing there. -/
theorem Ascends.entryOf_root (h : Ascends objects root id above) {limit : Nat}
    (hlimit : above.length < limit) (hnone : findInheritedIn objects key limit id = none) :
    entryOf objects root key = none := by
  induction h generalizing limit with
  | root _ _ =>
    obtain ⟨limit, rfl⟩ := Nat.exists_eq_add_one_of_ne_zero (Nat.ne_of_gt hlimit)
    rw [findInheritedIn_succ] at hnone
    exact (Option.or_eq_none_iff.1 hnone).1
  | up hparent _ ih =>
    obtain ⟨limit, rfl⟩ := Nat.exists_eq_add_one_of_ne_zero (Nat.ne_of_gt (Nat.zero_lt_of_lt hlimit))
    rw [findInheritedIn_succ, hparent, Option.bind_some] at hnone
    refine ih ?_ (Option.or_eq_none_iff.1 hnone).2
    rw [List.length_cons] at hlimit
    omega

/-- Where the nodes above hold what they held, a walk finds what it found. -/
theorem Ascends.findInheritedIn_eq (h : Ascends objects root id above)
    (hentry : ∀ node ∈ id :: above, entryOf objects' node key = entryOf objects node key)
    (hparents : ∀ node ∈ id :: above, parentOf objects' node = parentOf objects node) (limit : Nat) :
    findInheritedIn objects' key limit id = findInheritedIn objects key limit id := by
  induction h generalizing limit with
  | root _ htop =>
    cases limit with
    | zero => rfl
    | succ limit =>
      rw [findInheritedIn_succ, findInheritedIn_succ, hentry _ List.mem_cons_self,
        hparents _ List.mem_cons_self, htop, Option.bind_none, Option.bind_none]
  | up hparent _ ih =>
    cases limit with
    | zero => rfl
    | succ limit =>
      have hrest := ih (fun node hnode => hentry node (List.mem_cons_of_mem _ hnode))
        (fun node hnode => hparents node (List.mem_cons_of_mem _ hnode)) limit
      rw [findInheritedIn_succ, findInheritedIn_succ, hentry _ List.mem_cons_self,
        hparents _ List.mem_cons_self, hparent, Option.bind_some, Option.bind_some, hrest]

/-- A node that is its own parent finds only what it carries. -/
theorem findInheritedIn_of_loop (hloop : parentOf objects id = some id)
    (hentry : entryOf objects id key = none) (limit : Nat) :
    findInheritedIn objects key limit id = none := by
  induction limit with
  | zero => rfl
  | succ limit ih => rw [findInheritedIn_succ, hentry, hloop, Option.bind_some, ih, Option.or_none]

/-- A page that finds nothing carries nothing. -/
theorem findInheritedAttribute_eq_none (h : findInheritedAttribute objects id key = none) :
    entryOf objects id key = none := by
  cases hentry : entryOf objects id key with
  | none => rfl
  | some value =>
    rw [findInheritedAttribute_of_entry hentry] at h
    cases h

end Ascends

/-! ### What was written onto pages -/

namespace PdfDocument

theorem ne_of_inheritable {key : String} (h : key ∈ inheritableKeys) :
    key ≠ "Kids" ∧ key ≠ "Count" ∧ key ≠ "Parent" := by
  refine ⟨?_, ?_, ?_⟩ <;> rintro rfl <;> simp [inheritableKeys] at h

/-- The rotation of a page backed by this object was changed, since the document was opened or last
rebased. -/
def TurnedAt (d : PdfDocument) (id : ObjectId) : Prop :=
  ∃ slot ∈ d.pages.known, slot.objectId = id ∧ slot.rotationChanged = true

/-- A dictionary carries itself what the object finds in the previous revision. -/
def CarriesFound (d : PdfDocument) (id : ObjectId) (dict : Dictionary) (key : String) : Prop :=
  Dictionary.get dict key = findInheritedAttribute d.incremental.previous.objects id key ∨
    key = "Rotate" ∧ d.TurnedAt id

section

variable [Lopdf]

/-- What a dictionary of the previous revision has become. A page is moved under the root only
with everything it found written down, and nothing but a page is given an attribute. -/
structure Mended (d : PdfDocument) (id : ObjectId) (original dict : Dictionary) : Prop where
  entry : ∀ key ∈ inheritableKeys,
    Dictionary.get dict key = Dictionary.get original key ∨ d.CarriesFound id dict key
  parent : Dictionary.get dict "Parent" = Dictionary.get original "Parent" ∨
    Dictionary.get dict "Parent" = some (.reference d.rootPagesId) ∧
      ∀ key ∈ inheritableKeys, d.CarriesFound id dict key
  rest : id ∉ Lopdf.pageIter d.incremental.previous → ∀ key, key ≠ "Kids" → key ≠ "Count" →
    Dictionary.get dict key = Dictionary.get original key

theorem Mended.refl (d : PdfDocument) (id : ObjectId) (original : Dictionary) :
    d.Mended id original original :=
  ⟨fun _ _ => .inl rfl, .inl rfl, fun _ _ _ _ => rfl⟩

theorem Mended.mono {d d' : PdfDocument} {id : ObjectId} {original dict : Dictionary}
    (h : d.Mended id original dict)
    (hprevious : d'.incremental.previous = d.incremental.previous)
    (hroot : d'.rootPagesId = d.rootPagesId) (hturned : d.TurnedAt id → d'.TurnedAt id) :
    d'.Mended id original dict := by
  have hfound : ∀ key, d.CarriesFound id dict key → d'.CarriesFound id dict key := by
    intro key hkey
    rw [CarriesFound, hprevious]
    exact hkey.imp_right (And.imp_right hturned)
  refine ⟨fun key hkey => (h.entry key hkey).imp_right (hfound key), ?_, ?_⟩
  · rw [hroot]
    exact h.parent.imp_right (And.imp_right fun hall key hkey => hfound key (hall key hkey))
  · rw [hprevious]
    exact h.rest

/-- What holds of every document a session leads to. -/
structure Inherits (d : PdfDocument) : Prop where
  settled : d.Settled
  counted : ∀ id ∈ d.incremental.previous.objects, id.1 ≤ d.incremental.newDocument.maxId
  listed : ∀ slot ∈ d.pages.known, slot.objectId ∈ Lopdf.pageIter d.incremental.previous ∨
    slot.objectId ∉ d.incremental.previous.objects
  mended : ∀ id original object, d.incremental.previous.objects.lookup id = some (.dictionary original) →
    d.incremental.newDocument.objects.lookup id = some object →
      ∃ dict, object = .dictionary dict ∧ d.Mended id original dict

/-! ### Finding an attribute -/

/-- A node above pages holds in the merged view what it held. -/
theorem Inherits.entryOf_view {d : PdfDocument} (h : Inherits d) {id : ObjectId} {original : Dictionary}
    (horiginal : d.incremental.previous.objects.lookup id = some (.dictionary original))
    (hid : id ∉ Lopdf.pageIter d.incremental.previous) {key : String} (hkids : key ≠ "Kids")
    (hcount : key ≠ "Count") :
    entryOf d.view id key = entryOf d.incremental.previous.objects id key := by
  cases hnew : d.incremental.newDocument.objects.lookup id with
  | none =>
    refine entryOf_congr ?_ key
    rw [view, IncrementalDocument.lookup_view, hnew, Option.none_or]
  | some object =>
    obtain ⟨dict, rfl, hmended⟩ := h.mended id original object horiginal hnew
    have hview : d.view.lookup id = some (.dictionary dict) :=
      IncrementalDocument.lookup_view_of_new hnew
    rw [entryOf_of_lookup hview, entryOf_of_lookup horiginal]
    exact hmended.rest hid key hkids hcount

section Finding

variable {d : PdfDocument} {page : ObjectId} {above : List ObjectId} {key : String}

/-- The nodes above a page hold in the merged view what they held. -/
theorem Inherits.above_same (h : Inherits d)
    (hascends : Ascends d.incremental.previous.objects d.rootPagesId page above)
    (hleaf : ∀ node ∈ above, node ∉ Lopdf.pageIter d.incremental.previous) {node : ObjectId}
    (hnode : node ∈ above) :
    (∀ key, key ≠ "Kids" → key ≠ "Count" →
      entryOf d.view node key = entryOf d.incremental.previous.objects node key) ∧
      parentOf d.view node = parentOf d.incremental.previous.objects node := by
  obtain ⟨original, horiginal⟩ := hascends.lookup_above node hnode
  have hentry : ∀ key, key ≠ "Kids" → key ≠ "Count" →
      entryOf d.view node key = entryOf d.incremental.previous.objects node key :=
    fun key => h.entryOf_view horiginal (hleaf node hnode)
  refine ⟨hentry, ?_⟩
  rw [parentOf, hentry "Parent" (by decide) (by decide), parentOf]

/-- A page that itself holds what it held finds what it found. -/
theorem Inherits.find_of_same (h : Inherits d)
    (hascends : Ascends d.incremental.previous.objects d.rootPagesId page above)
    (hleaf : ∀ node ∈ above, node ∉ Lopdf.pageIter d.incremental.previous)
    (hkey : key ∈ inheritableKeys)
    (hentry : entryOf d.view page key = entryOf d.incremental.previous.objects page key)
    (hparent : parentOf d.view page = parentOf d.incremental.previous.objects page) :
    findInheritedAttribute d.view page key =
      findInheritedAttribute d.incremental.previous.objects page key := by
  obtain ⟨hkids, hcount, -⟩ := ne_of_inheritable hkey
  refine hascends.findInheritedIn_eq (List.forall_mem_cons.2 ⟨hentry, fun node hnode => ?_⟩)
    (List.forall_mem_cons.2 ⟨hparent, fun node hnode => ?_⟩) parentChainLimit
  · exact (h.above_same hascends hleaf hnode).1 key hkids hcount
  · exact (h.above_same hascends hleaf hnode).2

/-- A page moved under the root finds nothing where it found nothing before and carries nothing. -/
theorem Inherits.find_moved (h : Inherits d)
    (hascends : Ascends d.incremental.previous.objects d.rootPagesId page above)
    (hlimit : above.length < parentChainLimit)
    (hleaf : ∀ node ∈ above, node ∉ Lopdf.pageIter d.incremental.previous)
    (hkey : key ∈ inheritableKeys) (hmoved : parentOf d.view page = some d.rootPagesId)
    (hempty : entryOf d.view page key = none)
    (hnone : findInheritedAttribute d.incremental.previous.objects page key = none) :
    findInheritedAttribute d.view page key = none := by
  obtain ⟨hkids, hcount, -⟩ := ne_of_inheritable hkey
  rcases hascends.mem with hself | hmem
  · rw [← hself] at hmoved
    exact findInheritedIn_of_loop hmoved hempty parentChainLimit
  · obtain ⟨hentry, hparent⟩ := h.above_same hascends hleaf hmem
    rw [findInheritedAttribute_of_top hempty hmoved (hparent.trans hascends.top),
      hentry key hkids hcount, hascends.entryOf_root hlimit hnone]

/-- A page finds in the merged view what it found in the previous revision, unless it was turned. -/
theorem Inherits.find (h : Inherits d)
    (hascends : Ascends d.incremental.previous.objects d.rootPagesId page above)
    (hlimit : above.length < parentChainLimit)
    (hleaf : ∀ node ∈ above, node ∉ Lopdf.pageIter d.incremental.previous)
    (hkey : key ∈ inheritableKeys) (hturned : key = "Rotate" → ¬ d.TurnedAt page) :
    findInheritedAttribute d.view page key =
      findInheritedAttribute d.incremental.previous.objects page key := by
  obtain ⟨original, horiginal⟩ := hascends.lookup
  cases hnew : d.incremental.newDocument.objects.lookup page with
  | none =>
    have hlookup : d.view.lookup page = d.incremental.previous.objects.lookup page := by
      rw [view, IncrementalDocument.lookup_view, hnew, Option.none_or]
    refine h.find_of_same hascends hleaf hkey (entryOf_congr hlookup key) ?_
    rw [parentOf, entryOf_congr hlookup, parentOf]
  | some object =>
    obtain ⟨dict, rfl, hmended⟩ := h.mended page original object horiginal hnew
    have hlookup : d.view.lookup page = some (.dictionary dict) :=
      IncrementalDocument.lookup_view_of_new hnew
    have hview := entryOf_of_lookup hlookup
    have hprevious := entryOf_of_lookup horiginal
    -- a page that carries what it found finds it there, if it found anything
    have hcarried : d.CarriesFound page dict key → ∀ value,
        findInheritedAttribute d.incremental.previous.objects page key = some value →
        findInheritedAttribute d.view page key = some value := by
      intro hfound value hvalue
      rcases hfound with hfound | ⟨hrotate, hturn⟩
      · exact findInheritedAttribute_of_entry ((hview key).trans (hfound.trans hvalue))
      · exact absurd hturn (hturned hrotate)
    -- a page that was neither given the attribute nor moved holds what it held
    have hsame : Dictionary.get dict key = Dictionary.get original key →
        Dictionary.get dict "Parent" = Dictionary.get original "Parent" →
        findInheritedAttribute d.view page key =
          findInheritedAttribute d.incremental.previous.objects page key := by
      intro hentry hparent
      refine h.find_of_same hascends hleaf hkey ?_ ?_
      · rw [hview, hprevious, hentry]
      · rw [parentOf, parentOf, hview, hprevious, hparent]
    cases hfind : findInheritedAttribute d.incremental.previous.objects page key with
    | some value =>
      rcases hmended.parent with hparent | ⟨-, hall⟩
      · rcases hmended.entry key hkey with hentry | hfound
        · rw [← hfind]
          exact hsame hentry hparent
        · exact hcarried hfound value hfind
      · exact hcarried (hall key hkey) value hfind
    | none =>
      have hbare : Dictionary.get original key = none :=
        (hprevious key).symm.trans (findInheritedAttribute_eq_none hfind)
      have hdict : Dictionary.get dict key = none := by
        rcases hmended.entry key hkey with hentry | hfound | ⟨hrotate, hturn⟩
        · rw [hentry, hbare]
        · rw [hfound, hfind]
        · exact absurd hturn (hturned hrotate)
      rcases hmended.parent with hparent | ⟨hparent, -⟩
      · rw [← hfind]
        exact hsame (hdict.trans hbare.symm) hparent
      · have hmoved : parentOf d.view page = some d.rootPagesId := by
          rw [parentOf, hview, hparent]
          rfl
        exact h.find_moved hascends hlimit hleaf hkey hmoved ((hview key).trans hdict) hfind

end Finding

end

/-! ### Calls other than saves -/

/-- Slots stay, or come in for objects created, and changed rotations stay changed. -/
structure Follows (d d' : PdfDocument) : Prop where
  grown : Grown d d'
  named : ∀ slot ∈ d'.pages.known, (∃ old ∈ d.pages.known, old.objectId = slot.objectId) ∨
    d.incremental.newDocument.maxId < slot.objectId.1
  turned : ∀ id, d.TurnedAt id → d'.TurnedAt id

theorem Follows.of_known {d d' : PdfDocument} (hincremental : d'.incremental = d.incremental)
    (hroot : d'.rootPagesId = d.rootPagesId) (hknown : d'.pages.known.Perm d.pages.known) :
    Follows d d' := by
  refine ⟨.of_same hincremental hroot, fun slot hslot => .inl ?_, ?_⟩
  · exact ⟨slot, hknown.mem_iff.1 hslot, rfl⟩
  · rintro id ⟨slot, hslot, hid⟩
    exact ⟨slot, hknown.mem_iff.2 hslot, hid⟩

theorem Follows.refl (d : PdfDocument) : Follows d d := .of_known rfl rfl (List.Perm.refl _)

theorem Follows.trans {d e f : PdfDocument} (h : Follows d e) (h' : Follows e f) : Follows d f := by
  refine ⟨h.grown.trans h'.grown, fun slot hslot => ?_, fun id hid => h'.turned id (h.turned id hid)⟩
  rcases h'.named slot hslot with ⟨old, hold, hid⟩ | hfresh
  · rw [← hid]
    exact h.named old hold
  · exact .inr (h.grown.maxId.trans_lt hfresh)

/-- A slot put in for an object added follows. -/
theorem Follows.of_insert {d d' : PdfDocument} (hgrown : Grown d d') {before after : List PageSlot}
    {added : PageSlot} (hremoved : d'.pages.removed = d.pages.removed)
    (hlive : d.pages.live = before ++ after) (hlive' : d'.pages.live = before ++ added :: after)
    (hfresh : d.incremental.newDocument.maxId < added.objectId.1) : Follows d d' := by
  refine ⟨hgrown, fun slot hslot => ?_, ?_⟩
  · rcases known_of_insert hremoved hlive hlive' hslot with rfl | hold
    · exact .inr hfresh
    · exact .inl ⟨slot, hold, rfl⟩
  · rintro id ⟨slot, hslot, hid⟩
    refine ⟨slot, ?_, hid⟩
    simp only [Roster.known, hlive, hlive', hremoved, List.append_assoc, List.cons_append,
      List.mem_append, List.mem_cons] at hslot ⊢
    tauto

theorem Rearranged.follows {d d' : PdfDocument} (h : Rearranged d d') : Follows d d' :=
  .of_known h.incremental h.rootPagesId h.known

theorem Turned.follows {rotation : Rotation} {d d' : PdfDocument} (h : Turned rotation d d') :
    Follows d d' := by
  obtain ⟨before, turned, after, hlive, hlive'⟩ := h.live
  refine ⟨.of_same h.incremental h.rootPagesId, fun slot hslot => .inl (h.known slot hslot), ?_⟩
  · rintro id ⟨slot, hslot, hid, hchanged⟩
    simp only [Roster.known, hlive, List.append_assoc, List.cons_append, List.mem_append,
      List.mem_cons] at hslot
    simp only [TurnedAt, Roster.known, hlive', h.removed, List.append_assoc, List.cons_append,
      List.mem_append, List.mem_cons]
    rcases hslot with hslot | rfl | hslot
    · exact ⟨slot, .inl hslot, hid, hchanged⟩
    · exact ⟨slot.rotate rotation, .inr (.inl rfl), hid, rfl⟩
    · exact ⟨slot, .inr (.inr hslot), hid, hchanged⟩

theorem Inserted.follows {size : PageSize} {d d' : PdfDocument} (h : Inserted size d d') :
    Follows d d' := by
  obtain ⟨before, after, hlive, hlive'⟩ := h.live
  exact .of_insert h.grown h.removed hlive hlive' (Nat.lt_succ_self _)

section

variable [Lopdf]

theorem ImportStep.follows [LawfulDereference] {source : Objects} {slot : PageSlot} {atIndex : Nat}
    {d d₁ : PdfDocument} {id : PageId} (h : ImportStep source slot atIndex d id d₁) : Follows d d₁ := by
  obtain ⟨dict, mapping, copied, before, after, -, hcopied, hlive, hlive'⟩ := h.copies
  obtain ⟨numbered, hassigned, -⟩ := hcopied.assigned
  refine .of_insert h.grown h.keeps.removed hlive hlive' ?_
  exact (hassigned.numbered.fresh copied (List.mem_map.2 ⟨_, hcopied.entry, rfl⟩)).2.1

/-- An import follows, even if it fails on the way. -/
theorem importPages_follows [LawfulDereference] (source : PdfDocument) (ids : List PageId)
    (atIndex : Nat) (d : PdfDocument) : Follows d (importPages source ids atIndex d).2 := by
  rcases importPages_cases source ids atIndex d with hsame | ⟨slots, dirty, revision, hat, -, heq⟩
  · rw [hsame]
    exact .refl d
  · have hround : ∀ slot ∈ slots, ∀ atIndex e id e', ImportStep source.view slot atIndex e id e' →
        Follows d e → Follows d e' :=
      fun slot _ atIndex e id e' hstep hfollows => hfollows.trans hstep.follows
    have hresolved : Follows d (importResolved source.view slots atIndex d).2 :=
      importResolved_induct hround hat (.refl d)
    rw [heq]
    exact hresolved.trans (.of_known rfl rfl (List.Perm.refl _))

theorem importPortable_follows [LawfulDereference] (sourceId : DocumentId) (pages : PortablePages)
    (atIndex : Nat) (d : PdfDocument) : Follows d (importPortable sourceId pages atIndex d).2 := by
  unfold importPortable
  split
  · exact .refl d
  split
  · exact .refl d
  · exact .of_known rfl rfl (List.Perm.refl _)
  split
  · exact .refl d
  · exact importPages_follows _ _ _ _

/-- So does every call but a save. -/
theorem step_follows [LawfulDereference] (d : PdfDocument) {step : SessionStep}
    (h : step.isSave = false) : Follows d (d.step step) := by
  have hsame : ∀ d', d' = d → Follows d d' := by
    rintro d' rfl
    exact .refl d'
  cases step with
  | remove id => exact (removePage_cases d id).elim (hsame _) Rearranged.follows
  | restore id atIndex => exact (restorePage_cases d id atIndex).elim (hsame _) Rearranged.follows
  | move id toIndex => exact (movePage_cases d id toIndex).elim (hsame _) Rearranged.follows
  | rotate id rotation => exact (setRotation_cases d id rotation).elim (hsame _) Turned.follows
  | insert atIndex size => exact (insertPage_cases d atIndex size).elim (hsame _) Inserted.follows
  | importFrom source ids atIndex => exact importPages_follows source ids atIndex d
  | importPortable sourceId pages atIndex => exact importPortable_follows sourceId pages atIndex d
  | saveIncremental env => cases h
  | saveCompacted env => cases h

/-- A call that is no save writes to no object of the previous revision. -/
theorem Inherits.follows {d d' : PdfDocument} (h : Inherits d) (hfollows : Follows d d')
    (hsettled : d'.Settled) : Inherits d' := by
  have hgrown := hfollows.grown
  refine ⟨hsettled, fun id hid => ?_, fun slot hslot => ?_, fun id original object horiginal hobject => ?_⟩
  · rw [hgrown.previous] at hid
    exact (h.counted id hid).trans hgrown.maxId
  · rw [hgrown.previous]
    rcases hfollows.named slot hslot with ⟨old, hold, hid⟩ | hfresh
    · rw [← hid]
      exact h.listed old hold
    · refine .inr fun hmem => ?_
      have := h.counted _ hmem
      omega
  · rw [hgrown.previous] at horiginal
    have hbound := h.counted id (Finmap.mem_of_lookup_eq_some horiginal)
    rcases hgrown.lookup id with hsame | hfresh
    · obtain ⟨dict, hdict, hmended⟩ := h.mended id original object horiginal (hsame ▸ hobject)
      exact ⟨dict, hdict, hmended.mono hgrown.previous hgrown.rootPagesId (hfollows.turned id)⟩
    · omega

end

/-! ### Saves -/

section

open IncrementalDocument (Edited)

variable [Lopdf] {d : PdfDocument} {id : ObjectId} {original dict : Dictionary}

theorem carriesOwn_of_lookup [LawfulDereference] {previous : LopdfDocument} {key : String}
    (h : previous.objects.lookup id = some (.dictionary original)) :
    carriesOwn previous id key = Dictionary.has original key := by
  rw [carriesOwn, Objects.getDictionary_of_lookup h]

/-- An attribute that is written is what the page found, or a rotation that was changed. -/
theorem Pending.found {key : String} {value : Object} (h : d.Pending ⟨id, key, value⟩)
    (hkey : key ∈ inheritableKeys) :
    findInheritedAttribute d.incremental.previous.objects id key = some value ∨
      key = "Rotate" ∧ d.TurnedAt id := by
  obtain ⟨hkids, hcount, hparent⟩ := ne_of_inheritable hkey
  rcases h.inv with ⟨-, hinherited⟩ | ⟨hwrong, -⟩ | ⟨hwrong, -⟩ | ⟨hwrong, -⟩ | ⟨hrotate, -, slot, hslot, hchanged, hid⟩
  · exact .inl (mem_inheritedAttributes.1 hinherited).2.2.2
  · exact absurd hwrong hparent
  · exact absurd hwrong hkids
  · exact absurd hwrong hcount
  · exact .inr ⟨hrotate, slot, List.mem_append_left _ hslot, hid, hchanged⟩

/-- Only the tree below the root is written elsewhere than onto a page. -/
theorem Pending.onto {edit : Edit} (h : d.Pending edit) :
    (∃ slot ∈ d.pages.known, slot.objectId = edit.target) ∨ edit.key = "Kids" ∨ edit.key = "Count" := by
  cases h with
  | inherited _ hslot _ => exact .inl ⟨_, List.mem_append_left _ hslot, rfl⟩
  | parent _ hslot => exact .inl ⟨_, List.mem_append_left _ hslot, rfl⟩
  | kids _ => exact .inr (.inl rfl)
  | count _ => exact .inr (.inr rfl)
  | rotation _ hslot _ => exact .inl ⟨_, List.mem_append_left _ hslot, rfl⟩

/-- Only the pages are moved, under the root. -/
theorem Pending.moved {value : Object} (h : d.Pending ⟨id, "Parent", value⟩) :
    d.dirty.structural = true ∧ value = .reference d.rootPagesId ∧
      ∃ slot ∈ d.pages.live, slot.objectId = id := by
  generalize hedit : (⟨id, "Parent", value⟩ : Edit) = edit at h
  cases h with
  | inherited _ _ hinherited =>
    obtain ⟨-, hkey, -⟩ := Edit.mk.injEq .. ▸ hedit
    exact absurd hkey.symm (ne_of_inheritable (mem_inheritedAttributes.1 hinherited).2.1).2.2
  | parent hstructural hslot =>
    obtain ⟨rfl, -, rfl⟩ := Edit.mk.injEq .. ▸ hedit
    exact ⟨hstructural, rfl, _, hslot, rfl⟩
  | kids _ => simp at hedit
  | count _ => simp at hedit
  | rotation _ _ _ => simp at hedit

/-- Whatever a page inherits is written before any page is moved under the root. -/
theorem inheritedEdits_before {before after : List Edit} (h : d.pendingEdits = before ++ after)
    {value : Object} (hmoved : ⟨id, "Parent", value⟩ ∈ before) :
    ∀ edit ∈ d.inheritedEdits, edit ∈ before := by
  have hpending : d.Pending ⟨id, "Parent", value⟩ :=
    mem_pendingEdits.1 (h ▸ List.mem_append_left _ hmoved)
  obtain ⟨hstructural, -, -⟩ := hpending.moved
  have hnot : (⟨id, "Parent", value⟩ : Edit) ∉ d.inheritedEdits := by
    intro hmem
    obtain ⟨slot, -, entry, hentry, heq⟩ := mem_inheritedEdits.1 hmem
    obtain ⟨-, hkey, -⟩ := Edit.mk.injEq .. ▸ heq
    have hinheritable := (mem_inheritedAttributes.1 hentry).2.1
    exact (ne_of_inheritable hinheritable).2.2 hkey.symm
  rw [pendingEdits, if_pos hstructural, List.append_assoc] at h
  intro edit hedit
  rcases List.append_eq_append_iff.1 h with ⟨later, rfl, -⟩ | ⟨rest, hsplit, -⟩
  · exact List.mem_append_left _ hedit
  · exact absurd (hsplit ▸ List.mem_append_left _ hmoved) hnot

/-- A page moved under the root carries itself what was not written onto it, if it finds that. -/
theorem found_of_unwritten [LawfulDereference]
    (horiginal : d.incremental.previous.objects.lookup id = some (.dictionary original))
    {before after : List Edit} (hsplit : d.pendingEdits = before ++ after) {value : Object}
    (hmoved : ⟨id, "Parent", value⟩ ∈ before) {key : String} (hkey : key ∈ inheritableKeys)
    (hunwritten : ∀ value, (⟨id, key, value⟩ : Edit) ∉ before) :
    Dictionary.get original key = findInheritedAttribute d.incremental.previous.objects id key := by
  have hpending : d.Pending ⟨id, "Parent", value⟩ :=
    mem_pendingEdits.1 (hsplit ▸ List.mem_append_left _ hmoved)
  obtain ⟨-, -, slot, hslot, hid⟩ := hpending.moved
  cases hown : Dictionary.get original key with
  | some own =>
    exact (findInheritedAttribute_of_entry ((entryOf_of_lookup horiginal key).trans hown)).symm
  | none =>
    cases hfind : findInheritedAttribute d.incremental.previous.objects id key with
    | none => rfl
    | some found =>
      -- the attribute would have been written before the page was moved
      have hinherited : (key, found) ∈ inheritedAttributes d.incremental.previous id := by
        refine mem_inheritedAttributes.2 ⟨Finmap.mem_of_lookup_eq_some horiginal, hkey, ?_, hfind⟩
        rw [carriesOwn_of_lookup horiginal]
        exact Dictionary.has_eq_false.2 hown
      refine absurd (inheritedEdits_before hsplit hmoved ⟨id, key, found⟩ ?_) (hunwritten found)
      exact mem_inheritedEdits.2 ⟨slot, hslot, (key, found), hid ▸ hinherited, by rw [hid]⟩

/-- Any number of the pending entries may be written, first to last. -/
theorem Mended.setAll [LawfulDereference] (hinherits : Inherits d)
    (h : d.Mended id original dict)
    (horiginal : d.incremental.previous.objects.lookup id = some (.dictionary original))
    {before after : List Edit} (hsplit : d.pendingEdits = before ++ after) :
    d.Mended id original (Dictionary.setAll (IncrementalDocument.editsAt id before) dict) := by
  have hmem : ∀ {key value},
      Dictionary.get (IncrementalDocument.editsAt id before).reverse key = some value →
        ⟨id, key, value⟩ ∈ before := fun hget =>
    IncrementalDocument.mem_editsAt.1 (List.mem_reverse.1 (Dictionary.mem_of_get hget))
  have hpending : ∀ {key value},
      Dictionary.get (IncrementalDocument.editsAt id before).reverse key = some value →
        d.Pending ⟨id, key, value⟩ := fun hget =>
    mem_pendingEdits.1 (hsplit ▸ List.mem_append_left _ (hmem hget))
  -- what is written is what was found, so what was carried before is carried after
  have hwritten : ∀ key ∈ inheritableKeys, (∀ value,
      Dictionary.get (IncrementalDocument.editsAt id before).reverse key ≠ some value) ∨
      d.CarriesFound id (Dictionary.setAll (IncrementalDocument.editsAt id before) dict) key := by
    intro key hkey
    cases hget : Dictionary.get (IncrementalDocument.editsAt id before).reverse key with
    | none => exact .inl (by simp)
    | some value =>
      refine .inr (((hpending hget).found hkey).imp_left fun hfound => ?_)
      rw [Dictionary.get_setAll, hget, hfound]
      rfl
  have hkept : ∀ key, (∀ value,
      Dictionary.get (IncrementalDocument.editsAt id before).reverse key ≠ some value) →
      Dictionary.get (Dictionary.setAll (IncrementalDocument.editsAt id before) dict) key =
        Dictionary.get dict key := by
    intro key hnone
    rw [Dictionary.get_setAll, Option.eq_none_iff_forall_ne_some.2 hnone, Option.none_or]
  have hcarried : ∀ key ∈ inheritableKeys, d.CarriesFound id dict key →
      d.CarriesFound id (Dictionary.setAll (IncrementalDocument.editsAt id before) dict) key := by
    intro key hkey hfound
    rcases hwritten key hkey with hnone | hcarries
    · exact hfound.imp_left (hkept key hnone).trans
    · exact hcarries
  refine ⟨fun key hkey => ?_, ?_, fun hunlisted key hkids hcount => ?_⟩
  · rcases hwritten key hkey with hnone | hcarries
    · rw [hkept key hnone]
      exact (h.entry key hkey).imp_right (hcarried key hkey)
    · exact .inr hcarries
  · cases hget : Dictionary.get (IncrementalDocument.editsAt id before).reverse "Parent" with
    | none =>
      rw [hkept "Parent" (by simp [hget])]
      exact h.parent.imp_right (And.imp_right fun hall key hkey => hcarried key hkey (hall key hkey))
    | some value =>
      obtain ⟨-, hvalue, -⟩ := (hpending hget).moved
      refine .inr ⟨by rw [Dictionary.get_setAll, hget, hvalue]; rfl, fun key hkey => ?_⟩
      rcases hwritten key hkey with hnone | hcarries
      swap
      · exact hcarries
      rcases h.entry key hkey with hentry | hfound
      swap
      · exact hcarried key hkey hfound
      refine .inl ((hkept key hnone).trans (hentry.trans ?_))
      refine found_of_unwritten horiginal hsplit (hmem hget) hkey fun found hedit => ?_
      have hentries := List.mem_reverse.2 (IncrementalDocument.mem_editsAt.2 hedit)
      exact Dictionary.get_eq_none.1 (Option.eq_none_iff_forall_ne_some.2 hnone) _ hentries rfl
  · rw [hkept key fun value hget => ?_]
    · exact h.rest hunlisted key hkids hcount
    · rcases (hpending hget).onto with ⟨slot, hslot, hid⟩ | hkey | hkey
      · dsimp only at hid
        rcases hinherits.listed slot hslot with hlisted | hfresh
        · exact hunlisted (hid ▸ hlisted)
        · exact hfresh (hid ▸ Finmap.mem_of_lookup_eq_some horiginal)
      · exact hkids hkey
      · exact hcount hkey

/-- Edits that are applied get through some of them, and at most clone what the next is for. -/
theorem applyEdits_reaches [LawfulDereference] {edits : List Edit} {d : IncrementalDocument}
    (hsettled : ∀ edit ∈ edits, d.Settled edit.target) :
    ∃ before after d₁, edits = before ++ after ∧ Edited before d d₁ ∧
      ((d.applyEdits edits).2 = d₁ ∨ ∃ id object, Objects.getObject d.previous.objects id = .ok object ∧
        (d.applyEdits edits).2 = { d₁ with newDocument := d₁.newDocument.setObject id object }) := by
  rcases h : d.applyEdits edits with ⟨e | ⟨⟩, d'⟩
  · obtain ⟨before, edit, after, d₁, rfl, hbefore, hfails⟩ := IncrementalDocument.applyEdits_eq_error h
    have hedited := IncrementalDocument.applyEdits_edited
      (fun edit hedit => hsettled edit (List.mem_append_left _ hedit)) hbefore
    refine ⟨before, edit :: after, d₁, rfl, hedited, ?_⟩
    rcases IncrementalDocument.applyEdit_error hfails with rfl | ⟨object, hobject, rfl⟩
    · exact .inl rfl
    · rw [hedited.touched.previous] at hobject
      exact .inr ⟨edit.target, object, hobject, rfl⟩
  · exact ⟨edits, [], d', (List.append_nil _).symm,
      IncrementalDocument.applyEdits_edited hsettled h, .inl rfl⟩

theorem getObject_of_lookup [LawfulDereference] {objects : Objects} {dict : Dictionary}
    (h : objects.lookup id = some (.dictionary dict)) :
    Objects.getObject objects id = .ok (.dictionary dict) := by
  simp [Objects.getObject, LawfulDereference.dereference_self h rfl, h]

/-- The dictionary an edit of a page starts from was mended, or is the file's own. -/
theorem Inherits.editable [LawfulDereference] (h : Inherits d)
    (horiginal : d.incremental.previous.objects.lookup id = some (.dictionary original))
    (hdict : d.incremental.editable id = some dict) : d.Mended id original dict := by
  unfold IncrementalDocument.editable at hdict
  cases hnew : d.incremental.newDocument.objects.lookup id with
  | none =>
    rw [hnew] at hdict
    simp only [Objects.getDictionary_of_lookup horiginal, Except.toOption, Option.some.injEq] at hdict
    subst hdict
    exact .refl d id original
  | some object =>
    obtain ⟨mended, rfl, hmended⟩ := h.mended id original object horiginal hnew
    rw [hnew] at hdict
    cases hdict
    exact hmended

/-- Writing the pending changes leaves every page finding what it found, however far it gets. -/
theorem Inherits.materialize [LawfulDereference] (h : Inherits d) :
    Inherits (d.materializeChanges).2 := by
  have htouched := materializeChanges_touched h.settled
  have hkeeps := d.materializeChanges_keeps
  have hpages : (d.materializeChanges).2.pages = d.pages := by rw [hkeeps]
  have hroot : (d.materializeChanges).2.rootPagesId = d.rootPagesId := by rw [hkeeps]
  refine ⟨materializeChanges_settled h.settled, ?_, ?_, ?_⟩
  · rw [htouched.previous, htouched.fields]
    exact h.counted
  · rw [htouched.previous, hpages]
    exact h.listed
  · intro id original object horiginal hobject
    rw [htouched.previous] at horiginal
    suffices hmended : ∃ dict, object = .dictionary dict ∧ d.Mended id original dict by
      obtain ⟨dict, hdict, hmended⟩ := hmended
      refine ⟨dict, hdict, hmended.mono htouched.previous hroot ?_⟩
      rintro ⟨slot, hslot, hid⟩
      exact ⟨slot, hpages ▸ hslot, hid⟩
    have hincremental : (d.materializeChanges).2.incremental =
        (d.incremental.applyEdits d.pendingEdits).2 := rfl
    rw [hincremental] at hobject
    obtain ⟨before, after, d₁, hsplit, hedited, hreached⟩ :=
      applyEdits_reaches fun edit hedit => h.settled.settled _ (mem_pendingEdits.1 hedit).names
    have hwritten : d₁.newDocument.objects.lookup id = some object →
        ∃ dict, object = .dictionary dict ∧ d.Mended id original dict := by
      intro hlookup
      by_cases hid : ∃ edit ∈ before, edit.target = id
      · obtain ⟨edit, hedit, rfl⟩ := hid
        obtain ⟨dict, hdict, hset⟩ := hedited.written edit hedit
        rw [hset] at hlookup
        cases hlookup
        exact ⟨_, rfl, (h.editable horiginal hdict).setAll h horiginal hsplit⟩
      · rw [hedited.other id fun edit hedit heq => hid ⟨edit, hedit, heq⟩] at hlookup
        exact h.mended id original object horiginal hlookup
    rcases hreached with hdone | ⟨cloned, copy, hcopy, hdone⟩
    · exact hwritten (hdone ▸ hobject)
    · rw [hdone] at hobject
      by_cases hid : id = cloned
      · subst hid
        rw [getObject_of_lookup horiginal] at hcopy
        cases hcopy
        have hself : (d₁.newDocument.setObject id (.dictionary original)).objects.lookup id =
            some (.dictionary original) := Finmap.lookup_insert _
        rw [hself] at hobject
        cases hobject
        exact ⟨original, rfl, .refl d id original⟩
      · exact hwritten ((Finmap.lookup_insert_of_ne _ hid).symm.trans hobject)

end

/-! ### Whole sessions -/

section

variable [Lopdf]

/-- Nothing is appended yet, and every slot names a page of the file. -/
theorem inherits_of_empty {d : PdfDocument} (hsettled : d.Settled)
    (hempty : d.incremental.newDocument.objects = ∅)
    (hcounted : ∀ id ∈ d.incremental.previous.objects, id.1 ≤ d.incremental.newDocument.maxId)
    (hlisted : ∀ slot ∈ d.pages.known, slot.objectId ∈ Lopdf.pageIter d.incremental.previous) :
    Inherits d := by
  refine ⟨hsettled, hcounted, fun slot hslot => .inl (hlisted slot hslot), ?_⟩
  intro id original object _ hobject
  rw [hempty] at hobject
  cases hobject

/-- A session starts with pages that inherit what the file gives them. -/
theorem Starts.inherits [LawfulLopdf] {d : PdfDocument} (h : Starts d) : Inherits d := by
  have hsettled := h.settled
  cases h with
  | opened hload hcounted =>
    obtain ⟨-, -, -, hincremental, -⟩ := load_eq_ok hload
    obtain ⟨hremoved, hlisted⟩ := listed_load hload
    refine inherits_of_empty hsettled ?_ ?_ fun slot hslot => ?_
    · rw [hincremental]
      rfl
    · rw [hincremental]
      exact hcounted
    · rw [Roster.known, hremoved, List.append_nil] at hslot
      rw [hincremental]
      exact hlisted slot hslot
  | created hparse hpageless hempty =>
    obtain ⟨-, hpages, hincremental, -⟩ := empty_eq_ok hparse hpageless hempty
    refine inherits_of_empty hsettled ?_ ?_ fun slot hslot => ?_
    · rw [hincremental]
      rfl
    · rw [hincremental]
      exact hpageless.counted
    · rw [hpages] at hslot
      cases hslot

/-- They do after every call. -/
theorem Inherits.step [LawfulLopdf] {d : PdfDocument} (h : Inherits d) {step : SessionStep}
    (hcounts : step.Counts) : Inherits (d.step step) := by
  have hsettled := h.settled.step hcounts
  cases hsave : step.isSave with
  | false => exact h.follows (step_follows d hsave) hsettled
  | true =>
    cases step with
    | saveIncremental env => exact saveIncremental_preserves env h h.materialize
    | saveCompacted env =>
      refine saveCompacted_preserves env h h.materialize fun d₁ file _ _ hparse hrebased => ?_
      refine inherits_of_empty hsettled ?_ ?_ fun slot hslot => ?_
      · rw [hrebased.incremental]
        rfl
      · rw [hrebased.incremental]
        exact hcounts _ _ hparse
      · rw [Roster.known, hrebased.removed, List.append_nil] at hslot
        rw [hrebased.incremental]
        exact hrebased.listed hslot
    | _ => cases hsave

/-- They do after every run. -/
theorem Inherits.run [LawfulLopdf] {d : PdfDocument} (h : Inherits d) {steps : List SessionStep}
    (hcounts : ∀ step ∈ steps, step.Counts) : Inherits (d.run steps) := by
  induction steps generalizing d with
  | nil => exact h
  | cons step steps ih =>
    exact ih (h.step (hcounts step List.mem_cons_self)) fun later hlater =>
      hcounts later (List.mem_cons_of_mem _ hlater)

/-- The pending changes written any number of times, whether or not all of them could be. -/
def materialized (n : Nat) (d : PdfDocument) : PdfDocument :=
  (fun d : PdfDocument => (d.materializeChanges).2)^[n] d

/-- Writing the pending changes any number of times leaves pages and root alone. -/
theorem Inherits.materialized [LawfulDereference] {d : PdfDocument} (h : Inherits d) (n : Nat) :
    Inherits (d.materialized n) ∧ (d.materialized n).pages = d.pages ∧
      (d.materialized n).rootPagesId = d.rootPagesId ∧
      (d.materialized n).incremental.previous = d.incremental.previous := by
  induction n generalizing d with
  | zero => exact ⟨h, rfl, rfl, rfl⟩
  | succ n ih =>
    obtain ⟨hinherits, hpages, hroot, hprevious⟩ := ih h.materialize
    have hkeeps := d.materializeChanges_keeps
    refine ⟨hinherits, hpages.trans ?_, hroot.trans ?_, hprevious.trans ?_⟩
    · rw [hkeeps]
    · rw [hkeeps]
    · exact (materializeChanges_touched h.settled).previous

/-- Whatever was edited and saved before, and however often the pending changes are written, a page
finds in the merged view what it found in the previous revision: each attribute that it or a
node above it carries, and none that none of them carries. Only `/Rotate` of a page that was
turned is not what it was. The page is in a tree: the nodes above it are no pages, and the root is
among those a walk gets to. -/
theorem flattening_preserves_inheritance [LawfulLopdf] {start d : PdfDocument} (hstart : Starts start)
    {steps : List SessionStep} (hcounts : ∀ step ∈ steps, step.Counts) (hd : start.run steps = d)
    {page : ObjectId} {above : List ObjectId}
    (hascends : Ascends d.incremental.previous.objects d.rootPagesId page above)
    (hlimit : above.length < parentChainLimit)
    (hleaf : ∀ node ∈ above, node ∉ Lopdf.pageIter d.incremental.previous)
    {key : String} (hkey : key ∈ inheritableKeys)
    (hturned : key = "Rotate" → ∀ slot ∈ d.pages.known, slot.objectId = page →
      slot.rotationChanged = false) (n : Nat) :
    findInheritedAttribute (d.materialized n).view page key =
      findInheritedAttribute d.incremental.previous.objects page key := by
  obtain ⟨hinherits, hpages, hroot, hprevious⟩ := (hd ▸ hstart.inherits.run hcounts).materialized n
  have hfound := hinherits.find (by rwa [hprevious, hroot]) hlimit (by rwa [hprevious]) hkey ?_
  · rwa [hprevious] at hfound
  · rintro hrotate ⟨slot, hslot, hid, hchanged⟩
    rw [hpages] at hslot
    rw [hturned hrotate slot hslot hid] at hchanged
    cases hchanged

end

open scoped ReferenceLopdf

/-- A page turned by the node above it stays turned, saved under the root in another place. -/
theorem nested_page_keeps_rotation :
    findInheritedAttribute ((NestedFile.opened.run
      [.move 0 2, .saveIncremental .counting, .remove 1]).materialized 2).view (4, 0) "Rotate" =
        some (.integer 90) := by
  have hcounts : ∀ step ∈ [SessionStep.move 0 2, .saveIncremental .counting, .remove 1],
      step.Counts := by
    intro step hstep
    simp only [List.mem_cons, List.not_mem_nil, or_false] at hstep
    rcases hstep with rfl | rfl | rfl
    · trivial
    · exact SaveEnv.counts_counting
    · trivial
  have hload : load 1 NestedFile.file = .ok NestedFile.opened := rfl
  have hascends : Ascends NestedFile.file.objects (2, 0) (4, 0) [(3, 0), (2, 0)] :=
    .up rfl (.up rfl (.root rfl rfl))
  exact flattening_preserves_inheritance (.opened hload (by decide +kernel)) hcounts rfl hascends
    (by decide) (by decide +kernel) (by decide) (fun _ => by decide +kernel) 2

end PdfDocument
end OpdfEditor
