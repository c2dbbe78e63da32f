import OpdfEditor.PdfObjects
import Mathlib.Data.Finset.Card

/-!
What the deep copy of a page produces: every object the page reaches gets exactly
one fresh identifier, its copy is the object with its references rewritten, and
nothing that was in the target before is touched.
-/
namespace OpdfEditor

namespace Frontier

/-- The walk has room for the objects it has not come across yet. -/
def measure (source : Objects) (f : Frontier) : Nat := (source.keys \ f.seen).card + f.pending.length

end Frontier

theorem mem_keys_of_copies {source : Objects} {id : ObjectId} (h : copies source id = true) :
    id ∈ source.keys := by
  simp only [copies, Bool.and_eq_true] at h
  exact Finmap.mem_keys.2 (Finmap.lookup_isSome.1 h.1)

theorem enqueue_measure (source : Objects) (ids : List ObjectId) (f : Frontier) :
    (enqueue source ids f).measure source ≤ f.measure source := by
  induction ids generalizing f with
  | nil => exact Nat.le_refl _
  | cons id ids ih =>
    unfold enqueue
    split
    · exact ih f
    rename_i hnew
    refine (ih _).trans ?_
    unfold Frontier.measure
    have hsub : source.keys \ insert id f.seen ⊆ source.keys \ f.seen :=
      Finset.sdiff_subset_sdiff (Finset.Subset.refl _) (Finset.subset_insert _ _)
    split
    · rename_i hcopies
      have hlt : (source.keys \ insert id f.seen).card < (source.keys \ f.seen).card := by
        refine Finset.card_lt_card ⟨hsub, fun hle => ?_⟩
        have hmem := hle (Finset.mem_sdiff.2 ⟨mem_keys_of_copies hcopies, hnew⟩)
        simp at hmem
      simp only [List.length_cons]
      omega
    · have := Finset.card_le_card hsub
      dsimp only
      omega

/-- Everything queued or visited exists and was come across once, and everything come across
that the copy follows is queued or visited. -/
structure Explored (source : Objects) (f : Frontier) (visited : List ObjectId) : Prop where
  nodup : (f.pending ++ visited).Nodup
  present : ∀ id ∈ f.pending ++ visited, id ∈ source.keys
  seen : ∀ id ∈ f.pending ++ visited, id ∈ f.seen
  reached : ∀ id ∈ f.seen, copies source id = true → id ∈ f.pending ++ visited

/-- The references of everything visited have been come across. -/
def Closed (source : Objects) (f : Frontier) (visited : List ObjectId) : Prop :=
  ∀ id ∈ visited, ∀ object, source.lookup id = some object →
    ∀ referenced ∈ collectReferences object, referenced ∈ f.seen

theorem Explored.meet {source : Objects} {f : Frontier} {visited : List ObjectId}
    (h : Explored source f visited) {id : ObjectId} (hnew : id ∉ f.seen) :
    Explored source { seen := insert id f.seen
                      pending := if copies source id then id :: f.pending else f.pending } visited := by
  have hfresh : id ∉ f.pending ++ visited := fun hmem => hnew (h.seen id hmem)
  split
  · rename_i hcopies
    refine ⟨List.nodup_cons.2 ⟨hfresh, h.nodup⟩, ?_, ?_, ?_⟩
    · intro id' hid'
      rcases List.mem_cons.1 hid' with rfl | hid'
      · exact mem_keys_of_copies hcopies
      · exact h.present id' hid'
    · intro id' hid'
      rcases List.mem_cons.1 hid' with rfl | hid'
      · exact Finset.mem_insert_self _ _
      · exact Finset.mem_insert_of_mem (h.seen id' hid')
    · intro id' hid' hcopies'
      rcases Finset.mem_insert.1 hid' with rfl | hid'
      · exact List.mem_cons_self
      · exact List.mem_cons_of_mem _ (h.reached id' hid' hcopies')
  · rename_i hcopies
    refine ⟨h.nodup, h.present, fun id' hid' => Finset.mem_insert_of_mem (h.seen id' hid'), ?_⟩
    intro id' hid' hcopies'
    rcases Finset.mem_insert.1 hid' with rfl | hid'
    · exact absurd hcopies' hcopies
    · exact h.reached id' hid' hcopies'

theorem Explored.enqueue {source : Objects} {f : Frontier} {visited : List ObjectId}
    (h : Explored source f visited) (ids : List ObjectId) :
    Explored source (enqueue source ids f) visited := by
  induction ids generalizing f with
  | nil => exact h
  | cons id ids ih =>
    unfold OpdfEditor.enqueue
    split
    · exact ih h
    · rename_i hnew
      exact ih (h.meet hnew)

theorem seen_enqueue (source : Objects) (ids : List ObjectId) (f : Frontier) (id : ObjectId) :
    id ∈ (enqueue source ids f).seen ↔ id ∈ ids ∨ id ∈ f.seen := by
  induction ids generalizing f with
  | nil => simp [enqueue]
  | cons id' ids ih =>
    unfold enqueue
    split
    · rename_i hseen
      rw [ih, List.mem_cons]
      constructor
      · rintro (h | h)
        · exact .inl (.inr h)
        · exact .inr h
      · rintro ((rfl | h) | h)
        · exact .inr hseen
        · exact .inl h
        · exact .inr h
    · rw [ih, List.mem_cons, Finset.mem_insert]
      tauto

/-- Visiting the next queued object. -/
theorem Explored.visit {source : Objects} {f : Frontier} {visited pending : List ObjectId}
    {current : ObjectId} (h : Explored source f visited) (hpending : f.pending = current :: pending) :
    Explored source { f with pending } (current :: visited) := by
  have hperm : (pending ++ current :: visited).Perm (f.pending ++ visited) := by
    rw [hpending]
    exact List.perm_middle
  refine ⟨hperm.nodup_iff.2 h.nodup, fun id hid => h.present id (hperm.mem_iff.1 hid),
    fun id hid => h.seen id (hperm.mem_iff.1 hid), fun id hid hcopies => ?_⟩
  exact hperm.mem_iff.2 (h.reached id hid hcopies)

/-- The identifiers handed out so far are fresh, distinct and within the target's numbering. -/
structure Numbered (base target : LopdfDocument) (mapping : IdMapping) : Prop where
  objects : target.objects = base.objects
  version : target.version = base.version
  trailer : target.trailer = base.trailer
  maxId : base.maxId ≤ target.maxId
  nodup : (mapping.map Prod.snd).Nodup
  fresh : ∀ id ∈ mapping.map Prod.snd, id.2 = 0 ∧ base.maxId < id.1 ∧ id.1 ≤ target.maxId

theorem Numbered.start (base : LopdfDocument) : Numbered base base [] :=
  ⟨rfl, rfl, rfl, Nat.le_refl _, List.nodup_nil, by simp⟩

theorem Numbered.next {base target : LopdfDocument} {mapping : IdMapping}
    (h : Numbered base target mapping) (current : ObjectId) :
    Numbered base target.newObjectId.2 ((current, target.newObjectId.1) :: mapping) := by
  have hle := h.maxId
  refine ⟨h.objects, h.version, h.trailer, Nat.le_succ_of_le h.maxId, ?_, ?_⟩
  · refine List.nodup_cons.2 ⟨fun hmem => ?_, h.nodup⟩
    have := (h.fresh _ hmem).2.2
    simp only [LopdfDocument.newObjectId] at this
    omega
  · intro id hid
    rcases List.mem_cons.1 hid with rfl | hid
    · exact ⟨rfl, Nat.lt_succ_of_le hle, Nat.le_refl _⟩
    · obtain ⟨h0, h1, h2⟩ := h.fresh id hid
      exact ⟨h0, h1, Nat.le_succ_of_le h2⟩

/-- What pass one leaves: nothing queued, everything come across visited and numbered. -/
structure Assigned (source : Objects) (base : LopdfDocument) (f : Frontier) (mapping₀ : IdMapping)
    (mapping : IdMapping) (target : LopdfDocument) : Prop where
  numbered : Numbered base target mapping
  nodup : (mapping.map Prod.fst).Nodup
  present : ∀ id ∈ mapping.map Prod.fst, id ∈ source.keys
  queued : ∀ id ∈ f.pending, id ∈ mapping.map Prod.fst
  earlier : ∀ entry ∈ mapping₀, entry ∈ mapping
  reached : ∀ id ∈ f.seen, copies source id = true → id ∈ mapping.map Prod.fst
  closed : ∀ id ∈ mapping.map Prod.fst, ∀ object, source.lookup id = some object →
    ∀ referenced ∈ collectReferences object, copies source referenced = true →
      referenced ∈ mapping.map Prod.fst

theorem pending_enqueue (source : Objects) (ids : List ObjectId) (f : Frontier) {id : ObjectId}
    (h : id ∈ f.pending) : id ∈ (enqueue source ids f).pending := by
  induction ids generalizing f with
  | nil => exact h
  | cons id' ids ih =>
    unfold enqueue
    split
    · exact ih f h
    · refine ih _ ?_
      dsimp only
      split
      · exact List.mem_cons_of_mem _ h
      · exact h

theorem Assigned.done {source : Objects} {base : LopdfDocument} {f : Frontier}
    {mapping : IdMapping} {target : LopdfDocument} (hempty : f.pending = [])
    (hexplored : Explored source f (mapping.map Prod.fst))
    (hclosed : Closed source f (mapping.map Prod.fst)) (hnumbered : Numbered base target mapping) :
    Assigned source base f mapping mapping target := by
  have hreached := hexplored.reached
  have hnodup := hexplored.nodup
  have hpresent := hexplored.present
  simp only [hempty, List.nil_append] at hreached hnodup hpresent
  exact ⟨hnumbered, hnodup, hpresent, by simp [hempty], fun _ h => h, hreached,
    fun id hid object hobject referenced href hcopies =>
      hreached referenced (hclosed id hid object hobject referenced href) hcopies⟩

/-- Pass one visits everything there is to visit. -/
theorem assignIds_assigned {source : Objects} {base : LopdfDocument} (fuel : Nat) {f : Frontier}
    {mapping : IdMapping} {target : LopdfDocument} (hfuel : f.measure source ≤ fuel)
    (hexplored : Explored source f (mapping.map Prod.fst))
    (hclosed : Closed source f (mapping.map Prod.fst)) (hnumbered : Numbered base target mapping) :
    Assigned source base f mapping (assignIds source fuel f mapping target).1
      (assignIds source fuel f mapping target).2 := by
  induction fuel generalizing f mapping target with
  | zero =>
    unfold Frontier.measure at hfuel
    exact .done (List.length_eq_zero_iff.1 (by omega)) hexplored hclosed hnumbered
  | succ fuel ih =>
    unfold assignIds
    split
    · rename_i hempty
      exact .done hempty hexplored hclosed hnumbered
    rename_i current pending hpending
    obtain ⟨object, hobject⟩ := Finmap.mem_iff.1
      (Finmap.mem_keys.1 (hexplored.present current (by simp [hpending])))
    rw [hobject]
    dsimp only
    have hvisit : Explored source (enqueue source (collectReferences object) { f with pending })
        (((current, target.newObjectId.1) :: mapping).map Prod.fst) :=
      (hexplored.visit hpending).enqueue (collectReferences object)
    have hclosed' : Closed source (enqueue source (collectReferences object) { f with pending })
        (current :: mapping.map Prod.fst) := by
      intro id hid object' hobject' referenced href
      rw [seen_enqueue]
      rcases List.mem_cons.1 hid with rfl | hid
      · rw [hobject] at hobject'
        cases hobject'
        exact .inl href
      · exact .inr (hclosed id hid object' hobject' referenced href)
    have hmeasure : (enqueue source (collectReferences object) { f with pending }).measure source ≤
        fuel := by
      refine (enqueue_measure _ _ _).trans ?_
      unfold Frontier.measure at hfuel ⊢
      simp only [hpending, List.length_cons] at hfuel ⊢
      omega
    have hrest := ih hmeasure hvisit hclosed' (hnumbered.next current)
    refine ⟨hrest.numbered, hrest.nodup, hrest.present, ?_, ?_, ?_, hrest.closed⟩
    · intro id hid
      rw [hpending] at hid
      rcases List.mem_cons.1 hid with rfl | hid
      · exact List.mem_map_of_mem (hrest.earlier (id, _) List.mem_cons_self)
      · exact hrest.queued id (pending_enqueue _ _ _ hid)
    · exact fun entry hentry => hrest.earlier entry (List.mem_cons_of_mem _ hentry)
    · intro id hid hcopies
      exact hrest.reached id ((seen_enqueue _ _ _ _).2 (.inr hid)) hcopies

/-! ### Pass two -/

theorem cloneEntries_fields (source : Objects) (mapping entries : IdMapping) (target : LopdfDocument) :
    (cloneEntries source mapping entries target).version = target.version ∧
    (cloneEntries source mapping entries target).trailer = target.trailer ∧
    (cloneEntries source mapping entries target).maxId = target.maxId := by
  induction entries generalizing target with
  | nil => exact ⟨rfl, rfl, rfl⟩
  | cons entry entries ih =>
    unfold cloneEntries
    split
    · exact ih target
    · exact ih _

/-- Objects that are no copy stay as they were. -/
theorem cloneEntries_other {source : Objects} {mapping entries : IdMapping} {target : LopdfDocument}
    {id : ObjectId} (h : id ∉ entries.map Prod.snd) :
    (cloneEntries source mapping entries target).objects.lookup id = target.objects.lookup id := by
  induction entries generalizing target with
  | nil => rfl
  | cons entry entries ih =>
    simp only [List.map_cons, List.mem_cons, not_or] at h
    unfold cloneEntries
    split
    · exact ih h.2
    · rw [ih h.2]
      exact Finmap.lookup_insert_of_ne _ h.1

/-- Each copy is its object with the references rewritten. -/
theorem cloneEntries_copy {source : Objects} (mapping : IdMapping) {entries : IdMapping}
    (target : LopdfDocument) {sourceId targetId : ObjectId} {object : Object} (hnodup : (entries.map Prod.snd).Nodup)
    (hmem : (sourceId, targetId) ∈ entries) (hobject : source.lookup sourceId = some object) :
    (cloneEntries source mapping entries target).objects.lookup targetId =
      some (remapReferences mapping object) := by
  induction entries generalizing target with
  | nil => cases hmem
  | cons entry entries ih =>
    obtain ⟨hnot, hnodup⟩ := List.nodup_cons.1 hnodup
    unfold cloneEntries
    rcases List.mem_cons.1 hmem with rfl | hmem
    · rw [hobject]
      dsimp only
      rw [cloneEntries_other hnot]
      exact Finmap.lookup_insert _
    · split
      · exact ih _ hnodup hmem
      · exact ih _ hnodup hmem

/-! ### The whole copy -/

theorem IdMapping.lookup_eq_some {mapping : IdMapping} (hnodup : (mapping.map Prod.fst).Nodup)
    {sourceId targetId : ObjectId} :
    mapping.lookup sourceId = some targetId ↔ (sourceId, targetId) ∈ mapping := by
  induction mapping with
  | nil => simp
  | cons entry mapping ih =>
    obtain ⟨k, v⟩ := entry
    obtain ⟨hnot, hnodup⟩ := List.nodup_cons.1 hnodup
    by_cases h : sourceId = k
    · subst h
      have : (sourceId, targetId) ∉ mapping := fun hmem => hnot (List.mem_map.2 ⟨_, hmem, rfl⟩)
      simp [this, eq_comm]
    · have hbeq : (sourceId == k) = false := by simpa using h
      simp [List.lookup_cons, hbeq, ih hnodup, h]

theorem IdMapping.exists_of_mem {mapping : IdMapping} {id : ObjectId}
    (h : id ∈ mapping.map Prod.fst) : ∃ targetId, (id, targetId) ∈ mapping := by
  obtain ⟨entry, hentry, rfl⟩ := List.mem_map.1 h
  exact ⟨entry.2, hentry⟩

theorem IdMapping.apply_of_entry {mapping : IdMapping} (hnodup : (mapping.map Prod.fst).Nodup)
    {id copy : ObjectId} (hentry : (id, copy) ∈ mapping) : mapping.apply id = copy := by
  rw [IdMapping.apply, (IdMapping.lookup_eq_some hnodup).2 hentry]
  rfl

theorem IdMapping.apply_of_not_mem {mapping : IdMapping} {id : ObjectId}
    (hid : id ∉ mapping.map Prod.fst) : mapping.apply id = id := by
  have hnone : mapping.lookup id = none := by
    refine List.lookup_eq_none_iff.2 fun entry hentry => ?_
    rw [bne_iff_ne]
    exact fun heq => hid (List.mem_map.2 ⟨entry, hentry, heq.symm⟩)
  rw [IdMapping.apply, hnone]
  rfl

theorem copyMapping_assigned {source : Objects} {page : ObjectId} {d : Dictionary}
    (hpage : source.lookup page = some (.dictionary d)) (target : LopdfDocument) :
    Assigned source target (startFrontier source page) [] (copyMapping source page target).1
      (copyMapping source page target).2 := by
  have hkey : page ∈ source.keys := Finmap.mem_keys.2 (Finmap.mem_of_lookup_eq_some hpage)
  have hstart : Explored source ⟨{page}, [page]⟩ [] :=
    ⟨by simp, by simpa using hkey, by simp, by simp⟩
  refine assignIds_assigned _ ((enqueue_measure _ _ _).trans ?_) (hstart.enqueue _) ?_ (.start target)
  · have := Finset.card_sdiff_add_card_eq_card (Finset.singleton_subset_iff.2 hkey)
    simp only [Frontier.measure, List.length_singleton]
    simpa using this.le
  · intro id hid
    cases hid

/-- What the copy of one page leaves in the target. -/
structure Copied (source : Objects) (page : ObjectId) (d : Dictionary) (target : LopdfDocument)
    (mapping : IdMapping) (copied : ObjectId) (after : LopdfDocument) : Prop where
  assigned : ∃ numbered, Assigned source target (startFrontier source page) [] mapping numbered ∧
    after.maxId = numbered.maxId
  entry : (page, copied) ∈ mapping
  version : after.version = target.version
  trailer : after.trailer = target.trailer
  other : ∀ id, id ∉ mapping.map Prod.snd → after.objects.lookup id = target.objects.lookup id
  object : ∀ sourceId targetId object, (sourceId, targetId) ∈ mapping →
    source.lookup sourceId = some object → sourceId ≠ page →
      after.objects.lookup targetId = some (remapReferences mapping object)
  detached : after.objects.lookup copied =
    some (.dictionary (detachPage (remapInherited source page mapping) (remapEntries mapping d)))

/-- Copying a page whose object is a dictionary succeeds, with what pass one numbered. -/
theorem copyPageInto_copied [Lopdf] [LawfulDereference] {source : Objects} {page : ObjectId}
    {d : Dictionary} (hpage : source.lookup page = some (.dictionary d)) (target : LopdfDocument) :
    ∃ copied after, copyPageInto source page target = (some copied, after) ∧
      Copied source page d target (copyMapping source page target).1 copied after := by
  have hassigned := copyMapping_assigned hpage target
  unfold copyPageInto placeCopy
  rw [hpage]
  generalize copyMapping source page target = result at hassigned
  obtain ⟨mapping, numbered⟩ := result
  dsimp only at hassigned ⊢
  obtain ⟨copied, hcopied⟩ : ∃ copied, (page, copied) ∈ mapping :=
    IdMapping.exists_of_mem (hassigned.queued page (pending_enqueue _ _ _ (by simp)))
  have hclone := cloneEntries_copy mapping numbered hassigned.numbered.nodup hcopied hpage
  obtain ⟨hversion, htrailer, hmaxId⟩ := cloneEntries_fields source mapping mapping numbered
  refine ⟨copied, { cloneObjects source mapping numbered with
      objects := (cloneObjects source mapping numbered).objects.insert copied (.dictionary
        (detachPage (remapInherited source page mapping) (remapEntries mapping d))) },
    ?_, ⟨numbered, hassigned, hmaxId⟩, hcopied, hversion.trans hassigned.numbered.version,
    htrailer.trans hassigned.numbered.trailer, ?_, ?_, Finmap.lookup_insert _⟩
  · have hmodify := Objects.modifyDictionary_of_lookup hclone
      (detachPage (remapInherited source page mapping))
    simp only [Option.bind_some, Object.asDict, (IdMapping.lookup_eq_some hassigned.nodup).2 hcopied,
      cloneObjects, hmodify]
  · intro id hid
    have hne : id ≠ copied := fun heq => hid (heq ▸ List.mem_map.2 ⟨_, hcopied, rfl⟩)
    rw [Finmap.lookup_insert_of_ne _ hne]
    refine (cloneEntries_other hid).trans ?_
    rw [hassigned.numbered.objects]
  · intro sourceId targetId object hmem hobject hne
    have hne' : targetId ≠ copied := by
      intro heq
      subst heq
      exact hne (congrArg Prod.fst (List.inj_on_of_nodup_map hassigned.numbered.nodup hmem hcopied rfl))
    rw [Finmap.lookup_insert_of_ne _ hne']
    exact cloneEntries_copy mapping numbered hassigned.numbered.nodup hmem hobject

theorem copyPageInto_of_dictionary [Lopdf] [LawfulDereference] {source : Objects} {page : ObjectId}
    {d : Dictionary} (hpage : source.lookup page = some (.dictionary d)) (target : LopdfDocument) :
    ∃ mapping copied after, copyPageInto source page target = (some copied, after) ∧
      Copied source page d target mapping copied after :=
  ⟨_, copyPageInto_copied hpage target⟩

end OpdfEditor
