import OpdfEditor.ObjectGraph
import OpdfEditor.PdfCopy
import Mathlib.Order.Interval.Finset.Nat

/-!
Which objects the deep copy of a page copies, told from the source alone: those reached
along references outside `/Parent` from the page and from what it inherits. Each is
copied once, under one of as many consecutive fresh numbers.
-/
namespace OpdfEditor

/-! ### References in and outside `/Parent` -/

mutual
def parentReferences : Object → List ObjectId
  | .array items => parentItemReferences items
  | .dictionary entries => parentEntryReferences entries
  | .stream entries _ => parentEntryReferences entries
  | _ => []

def parentItemReferences : List Object → List ObjectId
  | [] => []
  | item :: items => parentReferences item ++ parentItemReferences items

def parentEntryReferences : List (String × Object) → List ObjectId
  | [] => []
  | (key, value) :: entries =>
    (if key = "Parent" then value.links else parentReferences value) ++ parentEntryReferences entries
end

mutual
/-- What the copy collects and what it skips is everything a value refers to. -/
theorem mem_links_iff {id : ObjectId} : ∀ object : Object,
    id ∈ object.links ↔ id ∈ collectReferences object ∨ id ∈ parentReferences object
  | .null | .boolean _ | .integer _ | .real _ | .name _ | .string _ _ | .reference _ => by
    simp [Object.links, collectReferences, parentReferences]
  | .array items => mem_itemLinks_iff items
  | .dictionary entries => mem_entryLinks_iff entries
  | .stream entries _ => mem_entryLinks_iff entries

theorem mem_itemLinks_iff {id : ObjectId} : ∀ items : List Object,
    id ∈ Object.itemLinks items ↔ id ∈ collectItemReferences items ∨ id ∈ parentItemReferences items
  | [] => by simp [Object.itemLinks, collectItemReferences, parentItemReferences]
  | item :: items => by
    simp only [Object.itemLinks, collectItemReferences, parentItemReferences, List.mem_append,
      mem_links_iff item, mem_itemLinks_iff items]
    tauto

theorem mem_entryLinks_iff {id : ObjectId} : ∀ entries : List (String × Object),
    id ∈ Object.entryLinks entries ↔
      id ∈ collectDictionaryReferences entries ∨ id ∈ parentEntryReferences entries
  | [] => by simp [Object.entryLinks, collectDictionaryReferences, parentEntryReferences]
  | (key, value) :: entries => by
    simp only [Object.entryLinks, collectDictionaryReferences, parentEntryReferences, List.mem_append,
      mem_links_iff value, mem_entryLinks_iff entries]
    split
    · simp [mem_links_iff value]
      tauto
    · tauto
end

mutual
/-- Rewriting references is renaming them, those without a copy to themselves. -/
theorem remapReferences_eq_rename (mapping : IdMapping) :
    ∀ object : Object, remapReferences mapping object = object.rename mapping.apply
  | .null | .boolean _ | .integer _ | .real _ | .name _ | .string _ _ | .reference _ => rfl
  | .array items => congrArg Object.array (remapItems_eq_rename mapping items)
  | .dictionary entries => congrArg Object.dictionary (remapEntries_eq_rename mapping entries)
  | .stream entries content =>
    congrArg (Object.stream · content) (remapEntries_eq_rename mapping entries)

theorem remapItems_eq_rename (mapping : IdMapping) :
    ∀ items : List Object, remapItems mapping items = Object.renameItems mapping.apply items
  | [] => rfl
  | item :: items => by
    rw [remapItems, Object.renameItems, remapReferences_eq_rename mapping item,
      remapItems_eq_rename mapping items]

/-- Remapping references is renaming them. -/
theorem remapEntries_eq_rename (mapping : IdMapping) : ∀ entries : List (String × Object),
    remapEntries mapping entries = Object.renameEntries mapping.apply entries
  | [] => rfl
  | (key, value) :: entries => by
    rw [remapEntries, Object.renameEntries, remapReferences_eq_rename mapping value,
      remapEntries_eq_rename mapping entries]
end

theorem mem_collectDictionaryReferences {entries : List (String × Object)} {id : ObjectId} :
    id ∈ collectDictionaryReferences entries ↔
      ∃ entry ∈ entries, entry.1 ≠ "Parent" ∧ id ∈ collectReferences entry.2 := by
  induction entries with
  | nil => simp [collectDictionaryReferences]
  | cons entry entries ih =>
    obtain ⟨key, value⟩ := entry
    by_cases h : key = "Parent"
    · simp [collectDictionaryReferences, h, ih]
    · simp [collectDictionaryReferences, h, ih]

/-! ### The objects a copy comes to -/

/-- The objects the copy goes on to from an object. -/
def followed (source : Objects) (id : ObjectId) : Finset ObjectId :=
  match source.lookup id with
  | none => ∅
  | some object => (collectReferences object).toFinset.filter (copies source ·)

/-- The page, and the objects the attributes it inherits refer to. -/
def copyStarts (source : Objects) (page : ObjectId) : Finset ObjectId :=
  insert page
    (((collectInherited source page).flatMap (collectReferences ·.2)).toFinset.filter (copies source ·))

/-- The objects the copy of a page comes to. -/
def copiedIds (source : Objects) (page : ObjectId) : Finset ObjectId :=
  FiniteClosure.closure (followed source) source.keys.card (copyStarts source page)

/-- The copy goes on to the references of an object that are there and no page tree nodes. -/
theorem mem_followed {source : Objects} {id target : ObjectId} {object : Object}
    (h : source.lookup id = some object) :
    target ∈ followed source id ↔ target ∈ collectReferences object ∧ copies source target = true := by
  simp [followed, h]

theorem followed_subset (source : Objects) (id : ObjectId) : followed source id ⊆ source.keys := by
  intro target htarget
  unfold followed at htarget
  split at htarget
  · simp at htarget
  · exact mem_keys_of_copies (Finset.mem_filter.1 htarget).2

theorem copyStarts_subset {source : Objects} {page : ObjectId} (hpage : page ∈ source) :
    copyStarts source page ⊆ source.keys := by
  intro start hstart
  cases Finset.mem_insert.1 hstart with
  | inl h => exact h ▸ Finmap.mem_keys.2 hpage
  | inr h => exact mem_keys_of_copies (Finset.mem_filter.1 h).2

section Reach

variable {source : Objects} {page : ObjectId}

/-- The copy comes to what its starts lead to. -/
theorem mem_copiedIds (hpage : page ∈ source) {id : ObjectId} : id ∈ copiedIds source page ↔
    ∃ start ∈ copyStarts source page,
      Relation.ReflTransGen (fun x y => y ∈ followed source x) start id :=
  FiniteClosure.mem_closure_iff (fun id _ => followed_subset source id) (copyStarts_subset hpage)

theorem copyStarts_copied {start : ObjectId} (h : start ∈ copyStarts source page) :
    start ∈ copiedIds source page :=
  FiniteClosure.subset_closure _ _ _ h

theorem page_copied : page ∈ copiedIds source page :=
  copyStarts_copied (Finset.mem_insert_self _ _)

/-- What is followed from a copied object is copied. -/
theorem followed_copied (hpage : page ∈ source) {id target : ObjectId}
    (hid : id ∈ copiedIds source page) (htarget : target ∈ followed source id) :
    target ∈ copiedIds source page := by
  obtain ⟨start, hstart, hreach⟩ := (mem_copiedIds hpage).1 hid
  exact (mem_copiedIds hpage).2 ⟨start, hstart, hreach.tail htarget⟩

/-- Only what is there is copied. -/
theorem copiedIds_present (hpage : page ∈ source) {id : ObjectId}
    (hid : id ∈ copiedIds source page) : id ∈ source := by
  obtain ⟨start, hstart, hreach⟩ := (mem_copiedIds hpage).1 hid
  cases hreach with
  | refl => exact Finmap.mem_keys.1 (copyStarts_subset hpage hstart)
  | tail _ hstep => exact Finmap.mem_keys.1 (followed_subset source _ hstep)

/-! ### The order of the walk -/

/-- The objects a walk takes off its list, in order. -/
def walked (source : Objects) : Nat → Frontier → List ObjectId
  | 0, _ => []
  | fuel + 1, frontier =>
    match frontier.pending with
    | [] => []
    | current :: pending =>
      match source.lookup current with
      | none => walked source fuel { frontier with pending }
      | some object =>
        current ::
          walked source fuel (enqueue source (collectReferences object) { frontier with pending })

/-- The objects the copy of a page comes to, in the order it does. -/
def copyOrder (source : Objects) (page : ObjectId) : List ObjectId :=
  walked source source.keys.card (startFrontier source page)

/-- Objects numbered one after the other, on from a highest number. -/
def IdMapping.numberOn : IdMapping → Nat → List ObjectId → IdMapping
  | mapping, _, [] => mapping
  | mapping, maxId, id :: ids => numberOn ((id, (maxId + 1, 0)) :: mapping) (maxId + 1) ids

theorem IdMapping.length_numberOn (mapping : IdMapping) (maxId : Nat) (ids : List ObjectId) :
    (mapping.numberOn maxId ids).length = mapping.length + ids.length := by
  induction ids generalizing mapping maxId with
  | nil => rfl
  | cons id ids ih =>
    rw [numberOn, ih, List.length_cons, List.length_cons]
    omega

/-- Pass one numbers the objects in the order they are come to. -/
theorem assignIds_eq (source : Objects) (fuel : Nat) (f : Frontier) (mapping : IdMapping)
    (target : LopdfDocument) :
    assignIds source fuel f mapping target =
      (mapping.numberOn target.maxId (walked source fuel f),
        { target with maxId := target.maxId + (walked source fuel f).length }) := by
  induction fuel generalizing f mapping target with
  | zero => rfl
  | succ fuel ih =>
    unfold assignIds walked
    cases f.pending with
    | nil => rfl
    | cons current pending =>
      dsimp only
      cases source.lookup current with
      | none => exact ih _ _ _
      | some object =>
        dsimp only [LopdfDocument.newObjectId]
        rw [ih, List.length_cons, Nat.add_right_comm, Nat.add_assoc]
        rfl

/-- Pass one numbers what it comes to, in that order, on from the target's highest number. -/
theorem copyMapping_eq (source : Objects) (page : ObjectId) (target : LopdfDocument) :
    copyMapping source page target = (IdMapping.numberOn [] target.maxId (copyOrder source page),
      { target with maxId := target.maxId + (copyOrder source page).length }) :=
  assignIds_eq source source.keys.card (startFrontier source page) [] target

/-! ### Pass one numbers exactly these -/

theorem enqueue_within {ids : List ObjectId} {f : Frontier} {allowed : ObjectId → Prop}
    (hpending : ∀ id ∈ f.pending, allowed id)
    (hids : ∀ id ∈ ids, copies source id = true → allowed id) :
    ∀ id ∈ (enqueue source ids f).pending, allowed id := by
  induction ids generalizing f with
  | nil => exact hpending
  | cons id ids ih =>
    have hrest : ∀ id ∈ ids, copies source id = true → allowed id :=
      fun id hid => hids id (List.mem_cons_of_mem _ hid)
    unfold enqueue
    split
    · exact ih hpending hrest
    refine ih ?_ hrest
    intro id' hid'
    dsimp only at hid'
    split at hid'
    · rename_i hcopies
      cases List.mem_cons.1 hid' with
      | inl h => exact h ▸ hids id List.mem_cons_self hcopies
      | inr h => exact hpending id' h
    · exact hpending id' hid'

/-- The walk stays within whatever holds where it starts and is kept by following references. -/
theorem assignIds_within {allowed : ObjectId → Prop}
    (hfollow : ∀ id, allowed id → ∀ target ∈ followed source id, allowed target) (fuel : Nat)
    {f : Frontier} {mapping : IdMapping} {target : LopdfDocument}
    (hpending : ∀ id ∈ f.pending, allowed id) (hmapping : ∀ id ∈ mapping.map Prod.fst, allowed id) :
    ∀ id ∈ (assignIds source fuel f mapping target).1.map Prod.fst, allowed id := by
  induction fuel generalizing f mapping target with
  | zero => exact hmapping
  | succ fuel ih =>
    unfold assignIds
    split
    · exact hmapping
    rename_i current pending hsplit
    rw [hsplit] at hpending
    have hrest : ∀ id ∈ pending, allowed id := fun id hid => hpending id (List.mem_cons_of_mem _ hid)
    split
    · exact ih hrest hmapping
    rename_i object hobject
    have hcurrent : allowed current := hpending current List.mem_cons_self
    refine ih (enqueue_within hrest fun id hid hcopies => ?_) ?_
    · exact hfollow current hcurrent id ((mem_followed hobject).2 ⟨hid, hcopies⟩)
    · intro id hid
      cases List.mem_cons.1 hid with
      | inl h => exact h ▸ hcurrent
      | inr h => exact hmapping id h

variable {d : Dictionary}

/-- What pass one numbers is what the copy comes to. -/
theorem mem_copyMapping (hpage : source.lookup page = some (.dictionary d)) (target : LopdfDocument)
    {id : ObjectId} :
    id ∈ (copyMapping source page target).1.map Prod.fst ↔ id ∈ copiedIds source page := by
  have hpresent : page ∈ source := Finmap.mem_of_lookup_eq_some hpage
  have hassigned := copyMapping_assigned hpage target
  constructor
  · refine assignIds_within (fun id hid => fun _ => followed_copied hpresent hid) _ ?_ (by simp) id
    refine enqueue_within ?_ ?_
    · intro id hid
      rw [List.mem_singleton.1 hid]
      exact page_copied
    · intro id hid hcopies
      refine copyStarts_copied (Finset.mem_insert_of_mem (Finset.mem_filter.2 ⟨?_, hcopies⟩))
      exact List.mem_toFinset.2 hid
  · intro hid
    obtain ⟨start, hstart, hreach⟩ := (mem_copiedIds hpresent).1 hid
    induction hreach with
    | refl =>
      cases Finset.mem_insert.1 hstart with
      | inl h => exact h ▸ hassigned.queued page (pending_enqueue _ _ _ (by simp))
      | inr h =>
        obtain ⟨hmem, hcopies⟩ := Finset.mem_filter.1 h
        exact hassigned.reached start
          ((seen_enqueue _ _ _ _).2 (.inl (List.mem_toFinset.1 hmem))) hcopies
    | tail hreach hstep ih =>
      have hbefore := (mem_copiedIds hpresent).2 ⟨start, hstart, hreach⟩
      obtain ⟨object, hobject⟩ := Finmap.mem_iff.1 (copiedIds_present hpresent hbefore)
      obtain ⟨hmem, hcopies⟩ := (mem_followed hobject).1 hstep
      exact hassigned.closed _ (ih hbefore) object hobject _ hmem hcopies

theorem length_copyMapping (hpage : source.lookup page = some (.dictionary d))
    (target : LopdfDocument) :
    (copyMapping source page target).1.length = (copiedIds source page).card := by
  have hset : ((copyMapping source page target).1.map Prod.fst).toFinset = copiedIds source page := by
    ext id
    rw [List.mem_toFinset, mem_copyMapping hpage target]
  rw [← hset, List.toFinset_card_of_nodup (copyMapping_assigned hpage target).nodup, List.length_map]

/-- It comes to each object once. -/
theorem length_copyOrder (hpage : source.lookup page = some (.dictionary d)) :
    (copyOrder source page).length = (copiedIds source page).card := by
  have hlength := length_copyMapping hpage ⟨"", ∅, [], 0⟩
  rwa [copyMapping_eq, IdMapping.length_numberOn, List.length_nil, Nat.zero_add] at hlength

/-- It hands out as many numbers as there are objects to copy. -/
theorem copyMapping_maxId (hpage : source.lookup page = some (.dictionary d))
    (target : LopdfDocument) :
    (copyMapping source page target).2.maxId = target.maxId + (copiedIds source page).card := by
  rw [copyMapping_eq, length_copyOrder hpage]

end Reach

/-! ### What is copied of each object -/

/-- An object as it is copied: the page without its parent and with what it inherits written
out, any other object as it stands. -/
def copiedObject (source : Objects) (page id : ObjectId) : Option Object :=
  if id = page then
    ((source.lookup page).bind Object.asDict).map fun d =>
      .dictionary (detachPage (collectInherited source page) d)
  else source.lookup id

namespace Dictionary

theorem remove_renameEntries (f : ObjectId → ObjectId) (key : String) (d : Dictionary) :
    remove key (Object.renameEntries f d) = Object.renameEntries f (remove key d) := by
  simp only [renameEntries_eq_map, remove, List.filter_map]
  rfl

theorem set_renameEntries (f : ObjectId → ObjectId) (key : String) (value : Object)
    (d : Dictionary) :
    set key (value.rename f) (Object.renameEntries f d) = Object.renameEntries f (set key value d) := by
  induction d with
  | nil => rfl
  | cons entry d ih =>
    obtain ⟨k, v⟩ := entry
    by_cases h : k = key
    · simp [Object.renameEntries, set, h, remove_renameEntries]
    · simp [Object.renameEntries, set, h, ih]

end Dictionary

theorem setMissing_renameEntries (f : ObjectId → ObjectId) (d : Dictionary) (entry : String × Object) :
    setMissing (Object.renameEntries f d) (entry.1, entry.2.rename f) =
      Object.renameEntries f (setMissing d entry) := by
  have hhas : Dictionary.has (Object.renameEntries f d) entry.1 = Dictionary.has d entry.1 := by
    simp [Dictionary.has, Dictionary.get_renameEntries]
  unfold setMissing
  rw [hhas, Dictionary.set_renameEntries]
  split <;> rfl

theorem foldl_setMissing_renameEntries (f : ObjectId → ObjectId) (inherited : List (String × Object))
    (d : Dictionary) :
    (inherited.map fun entry => (entry.1, entry.2.rename f)).foldl setMissing
        (Object.renameEntries f d) =
      Object.renameEntries f (inherited.foldl setMissing d) := by
  induction inherited generalizing d with
  | nil => rfl
  | cons entry inherited ih =>
    rw [List.map_cons, List.foldl_cons, List.foldl_cons, setMissing_renameEntries]
    exact ih (setMissing d entry)

/-- Standing alone comes to the same before and after references are rewritten. -/
theorem detachPage_renameEntries (f : ObjectId → ObjectId) (inherited : List (String × Object))
    (d : Dictionary) :
    detachPage (inherited.map fun entry => (entry.1, entry.2.rename f)) (Object.renameEntries f d) =
      Object.renameEntries f (detachPage inherited d) := by
  unfold detachPage
  rw [Dictionary.remove_renameEntries, foldl_setMissing_renameEntries]

theorem mem_foldl_setMissing {inherited : List (String × Object)} {d : Dictionary}
    {entry : String × Object} (h : entry ∈ inherited.foldl setMissing d) :
    entry ∈ d ∨ entry ∈ inherited := by
  induction inherited generalizing d with
  | nil => exact .inl h
  | cons first inherited ih =>
    cases ih h with
    | inr hlater => exact .inr (List.mem_cons_of_mem _ hlater)
    | inl hfirst =>
      unfold setMissing at hfirst
      split at hfirst
      · exact .inl hfirst
      · cases Dictionary.mem_set.1 hfirst with
        | inl hkept => exact .inl hkept.1
        | inr hset => exact .inr (hset ▸ List.mem_cons_self)

section Copy

variable {source : Objects} {page : ObjectId} {d : Dictionary}

/-- The page is copied without its parent and with what it inherits. -/
theorem copiedObject_page (hpage : source.lookup page = some (.dictionary d)) :
    copiedObject source page page =
      some (.dictionary (detachPage (collectInherited source page) d)) := by
  simp [copiedObject, hpage, Object.asDict]

/-- Everything else is copied as it is. -/
theorem copiedObject_of_ne {id : ObjectId} (h : id ≠ page) :
    copiedObject source page id = source.lookup id := if_neg h

/-- What the walk collects of an object as it is copied, it goes on to. -/
theorem collected_copied (hpage : source.lookup page = some (.dictionary d)) {id target : ObjectId}
    (hid : id ∈ copiedIds source page) {object : Object}
    (hobject : copiedObject source page id = some object) (htarget : target ∈ collectReferences object)
    (hcopies : copies source target = true) : target ∈ copiedIds source page := by
  have hpresent : page ∈ source := Finmap.mem_of_lookup_eq_some hpage
  by_cases h : id = page
  · subst h
    rw [copiedObject_page hpage] at hobject
    cases hobject
    obtain ⟨entry, hentry, hkey, hmem⟩ := mem_collectDictionaryReferences.1 htarget
    cases mem_foldl_setMissing hentry with
    | inl hown =>
      have hcollect : target ∈ collectReferences (.dictionary d) :=
        mem_collectDictionaryReferences.2 ⟨entry, (Dictionary.mem_remove.1 hown).1, hkey, hmem⟩
      exact followed_copied hpresent hid ((mem_followed hpage).2 ⟨hcollect, hcopies⟩)
    | inr hinherited =>
      have hcollect : target ∈ (collectInherited source id).flatMap (collectReferences ·.2) :=
        List.mem_flatMap.2 ⟨entry, hinherited, hmem⟩
      rw [← List.mem_toFinset] at hcollect
      exact copyStarts_copied (Finset.mem_insert_of_mem (Finset.mem_filter.2 ⟨hcollect, hcopies⟩))
  · rw [copiedObject_of_ne h] at hobject
    exact followed_copied hpresent hid ((mem_followed hobject).2 ⟨htarget, hcopies⟩)

/-- Every copy is its object with the references to copied objects renamed. -/
theorem Copied.copy {target after : LopdfDocument} {mapping : IdMapping} {copied : ObjectId}
    (h : Copied source page d target mapping copied after)
    (hpage : source.lookup page = some (.dictionary d)) {id copy : ObjectId}
    (hentry : (id, copy) ∈ mapping) :
    after.objects.lookup copy = (copiedObject source page id).map (Object.rename mapping.apply) := by
  obtain ⟨numbered, hassigned, -⟩ := h.assigned
  by_cases hid : id = page
  · subst hid
    have hcopy : copied = copy := by
      have hfirst := (IdMapping.lookup_eq_some hassigned.nodup).2 h.entry
      have hsecond := (IdMapping.lookup_eq_some hassigned.nodup).2 hentry
      exact Option.some.inj (hfirst.symm.trans hsecond)
    rw [← hcopy, h.detached, copiedObject_page hpage, Option.map_some, Object.rename,
      remapEntries_eq_rename, ← detachPage_renameEntries]
    simp only [remapInherited, remapReferences_eq_rename]
  · have hpresent : id ∈ source.keys := hassigned.present id (List.mem_map.2 ⟨_, hentry, rfl⟩)
    obtain ⟨object, hobject⟩ := Finmap.mem_iff.1 (Finmap.mem_keys.1 hpresent)
    rw [h.object id copy object hentry hobject hid, copiedObject_of_ne hid, hobject, Option.map_some,
      remapReferences_eq_rename]

/-- The copies get the next consecutive numbers. -/
theorem mem_copyMapping_numbers (hpage : source.lookup page = some (.dictionary d))
    (target : LopdfDocument) {id : ObjectId} :
    id ∈ (copyMapping source page target).1.map Prod.snd ↔
      id.2 = 0 ∧ target.maxId < id.1 ∧ id.1 ≤ target.maxId + (copiedIds source page).card := by
  have hassigned := copyMapping_assigned hpage target
  have hfresh := hassigned.numbered.fresh
  rw [copyMapping_maxId hpage] at hfresh
  refine ⟨hfresh id, ?_⟩
  -- as many distinct numbers as the interval holds fill it
  have hsubset : ((copyMapping source page target).1.map Prod.snd).toFinset ⊆
      (Finset.Ioc target.maxId (target.maxId + (copiedIds source page).card)).map
        ⟨fun n => (n, 0), fun _ _ h => congrArg Prod.fst h⟩ := by
    intro id hid
    obtain ⟨hzero, hlow, hhigh⟩ := hfresh id (List.mem_toFinset.1 hid)
    exact Finset.mem_map.2 ⟨id.1, Finset.mem_Ioc.2 ⟨hlow, hhigh⟩, Prod.ext rfl hzero.symm⟩
  have hfill := Finset.eq_of_subset_of_card_le hsubset (by
    rw [Finset.card_map, Nat.card_Ioc, List.toFinset_card_of_nodup hassigned.numbered.nodup,
      List.length_map, length_copyMapping hpage target]
    omega)
  rintro ⟨hzero, hlow, hhigh⟩
  rw [← List.mem_toFinset, hfill]
  exact Finset.mem_map.2 ⟨id.1, Finset.mem_Ioc.2 ⟨hlow, hhigh⟩, Prod.ext rfl hzero.symm⟩

end Copy

end OpdfEditor
