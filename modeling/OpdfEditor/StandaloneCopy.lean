import OpdfEditor.CaptureFreeCopy
import OpdfEditor.CopyNumbering
import OpdfEditor.PdfImportSound

/-!
The deep copy of a page as a walk: the loop ends on every object graph, and while there
are numbers left what it creates is new, what was there stays, no other page tree node
comes along, and the page that comes out stands on its own.
-/
namespace OpdfEditor

section Loop

/-- `while let Some(current) = pending.pop()`, as it runs without any bound, to what was assigned or
into a panic. -/
inductive Visits (overflow : Overflow) (source : Objects) : Frontier → IdMapping → LopdfDocument →
    Option (IdMapping × LopdfDocument) → Prop
  | done {f : Frontier} {mapping : IdMapping} {target : LopdfDocument} (hempty : f.pending = []) :
      Visits overflow source f mapping target (some (mapping, target))
  | skip {f : Frontier} {mapping : IdMapping} {target : LopdfDocument} {current : ObjectId}
      {pending : List ObjectId} {result : Option (IdMapping × LopdfDocument)}
      (hpending : f.pending = current :: pending) (habsent : source.lookup current = none)
      (rest : Visits overflow source { f with pending } mapping target result) :
      Visits overflow source f mapping target result
  | panic {f : Frontier} {mapping : IdMapping} {target : LopdfDocument} {current : ObjectId}
      {pending : List ObjectId} {object : Object}
      (hpending : f.pending = current :: pending) (hobject : source.lookup current = some object)
      (hnone : target.newObjectId32 overflow = none) :
      Visits overflow source f mapping target none
  | visit {f : Frontier} {mapping : IdMapping} {target target' : LopdfDocument} {current id : ObjectId}
      {pending : List ObjectId} {object : Object} {result : Option (IdMapping × LopdfDocument)}
      (hpending : f.pending = current :: pending) (hobject : source.lookup current = some object)
      (hid : target.newObjectId32 overflow = some (id, target'))
      (rest : Visits overflow source
        (enqueue source (collectReferences object) { f with pending }) ((current, id) :: mapping)
        target' result) :
      Visits overflow source f mapping target result

variable {overflow : Overflow} {source : Objects}

/-- The loop has at most one outcome. -/
theorem Visits.unique {f : Frontier} {mapping : IdMapping} {target : LopdfDocument}
    {result result' : Option (IdMapping × LopdfDocument)}
    (h : Visits overflow source f mapping target result)
    (h' : Visits overflow source f mapping target result') : result = result' := by
  induction h with
  | done hempty =>
    cases h' with
    | done _ => rfl
    | skip hpending _ _ | panic hpending _ _ | visit hpending _ _ _ =>
      rw [hempty] at hpending
      cases hpending
  | skip hpending habsent _ ih =>
    cases h' with
    | done hempty =>
      rw [hpending] at hempty
      cases hempty
    | skip hpending' _ rest =>
      rw [hpending] at hpending'
      cases hpending'
      exact ih rest
    | panic hpending' hobject _ | visit hpending' hobject _ _ =>
      rw [hpending] at hpending'
      cases hpending'
      rw [habsent] at hobject
      cases hobject
  | panic hpending hobject hnone =>
    cases h' with
    | done hempty =>
      rw [hpending] at hempty
      cases hempty
    | skip hpending' habsent _ =>
      rw [hpending] at hpending'
      cases hpending'
      rw [hobject] at habsent
      cases habsent
    | panic _ _ _ => rfl
    | visit _ _ hid _ =>
      rw [hnone] at hid
      cases hid
  | visit hpending hobject hid _ ih =>
    cases h' with
    | done hempty =>
      rw [hpending] at hempty
      cases hempty
    | skip hpending' habsent _ =>
      rw [hpending] at hpending'
      cases hpending'
      rw [hobject] at habsent
      cases habsent
    | panic _ _ hnone =>
      rw [hid] at hnone
      cases hnone
    | visit hpending' hobject' hid' rest =>
      rw [hpending] at hpending'
      cases hpending'
      rw [hobject] at hobject'
      cases hobject'
      rw [hid] at hid'
      cases hid'
      exact ih rest

/-- Each turn of the loop uses up one unit of what is left to come across or to visit. -/
theorem visits_assignIds32 (fuel : Nat) {f : Frontier} (mapping : IdMapping) (target : LopdfDocument)
    (hfuel : f.measure source ≤ fuel) : Visits overflow source f mapping target
      (assignIds32 overflow source fuel f mapping target) := by
  induction fuel generalizing f mapping target with
  | zero =>
    unfold Frontier.measure at hfuel
    exact .done (List.length_eq_zero_iff.1 (by omega))
  | succ fuel ih =>
    unfold assignIds32
    cases hpending : f.pending with
    | nil => exact .done hpending
    | cons current pending =>
      have hrest : ({ f with pending } : Frontier).measure source ≤ fuel := by
        unfold Frontier.measure at hfuel ⊢
        rw [hpending, List.length_cons] at hfuel
        dsimp only
        omega
      dsimp only
      cases hobject : source.lookup current with
      | none => exact .skip hpending hobject (ih _ _ hrest)
      | some object =>
        dsimp only
        cases hid : target.newObjectId32 overflow with
        | none => exact .panic hpending hobject hid
        | some handed => exact .visit hpending hobject hid (ih _ _ ((enqueue_measure _ _ _).trans hrest))

/-- The walk of a copy ends, whatever the objects refer to. -/
theorem visits_copy {page : ObjectId} (hpage : page ∈ source) (target : LopdfDocument) :
    Visits overflow source (startFrontier source page) [] target
      (assignIds32 overflow source source.keys.card (startFrontier source page) [] target) := by
  refine visits_assignIds32 _ _ _ ((enqueue_measure _ _ _).trans ?_)
  have hkey : page ∈ source.keys := Finmap.mem_keys.2 hpage
  have hcard := Finset.card_sdiff_add_card_eq_card (Finset.singleton_subset_iff.2 hkey)
  simp only [Frontier.measure, List.length_singleton]
  simpa using hcard.le

end Loop

/-! ### What comes along -/

section Copy

variable {source : Objects} {page : ObjectId} {d : Dictionary}

/-- Besides the page itself a copy comes only to objects that are no page tree node. -/
theorem copies_of_copiedIds (hpage : page ∈ source) {id : ObjectId}
    (hid : id ∈ copiedIds source page) (hne : id ≠ page) : copies source id = true := by
  obtain ⟨start, hstart, hreach⟩ := (mem_copiedIds hpage).1 hid
  cases hreach with
  | refl =>
    cases Finset.mem_insert.1 hstart with
    | inl h => exact absurd h hne
    | inr h => exact (Finset.mem_filter.1 h).2
  | @tail previous _ _ hstep =>
    unfold followed at hstep
    split at hstep
    · cases Finset.notMem_empty _ hstep
    · exact (Finset.mem_filter.1 hstep).2

/-- What a copy leaves in a target: new objects under new identifiers, the old ones as they were,
and a page that has no parent and carries everything the source finds for it. -/
structure StandsAlone (source : Objects) (page : ObjectId) (target : LopdfDocument)
    (mapping : IdMapping) (copied : ObjectId) (after : LopdfDocument) : Prop where
  distinct : (mapping.map Prod.snd).Nodup
  fresh : ∀ id ∈ mapping.map Prod.snd, id ∉ target.objects
  created : ∀ id, id ∈ after.objects ↔ id ∈ target.objects ∨ id ∈ mapping.map Prod.snd
  unchanged : ∀ id ∈ target.objects, after.objects.lookup id = target.objects.lookup id
  once : (mapping.map Prod.fst).Nodup
  noPageNode : ∀ id ∈ mapping.map Prod.fst, id ≠ page → isPageNode source id = false
  page : (page, copied) ∈ mapping ∧ ∃ dict, after.objects.lookup copied = some (.dictionary dict) ∧
    Dictionary.get dict "Parent" = none ∧
    ∀ key ∈ inheritableKeys, Dictionary.get dict key =
      (findInheritedAttribute source page key).map (remapReferences mapping)

theorem get_parent_detachPage (inherited : List (String × Object)) (d : Dictionary)
    (h : ∀ entry ∈ inherited, entry.1 ≠ "Parent") :
    Dictionary.get (detachPage inherited d) "Parent" = none := by
  rw [detachPage, Dictionary.get_foldl_setMissing, Dictionary.get_remove_self, Option.none_or,
    Dictionary.get_eq_none]
  exact h

/-- Pass two may take what pass one numbered in any order. -/
theorem cloneEntries_perm (mapping : IdMapping) {entries entries' : IdMapping}
    (hperm : entries.Perm entries') (hnodup : (entries.map Prod.snd).Nodup)
    (hpresent : ∀ id ∈ entries.map Prod.fst, id ∈ source) (target : LopdfDocument) :
    cloneEntries source mapping entries target = cloneEntries source mapping entries' target := by
  have hobjects : (cloneEntries source mapping entries target).objects =
      (cloneEntries source mapping entries' target).objects := by
    refine Finmap.ext_lookup fun id => ?_
    by_cases hid : id ∈ entries.map Prod.snd
    · obtain ⟨⟨sourceId, targetId⟩, hentry, rfl⟩ := List.mem_map.1 hid
      obtain ⟨object, hobject⟩ := Finmap.mem_iff.1 (hpresent sourceId (List.mem_map_of_mem hentry))
      rw [cloneEntries_copy mapping target hnodup hentry hobject,
        cloneEntries_copy mapping target ((hperm.map _).nodup_iff.1 hnodup) (hperm.mem_iff.1 hentry)
          hobject]
    · rw [cloneEntries_other hid, cloneEntries_other fun h => hid ((hperm.map _).mem_iff.2 h)]
  have hfields := cloneEntries_fields source mapping entries target
  have hfields' := cloneEntries_fields source mapping entries' target
  generalize cloneEntries source mapping entries target = first at *
  generalize cloneEntries source mapping entries' target = second at *
  obtain ⟨version, objects, trailer, maxId⟩ := first
  obtain ⟨version', objects', trailer', maxId'⟩ := second
  obtain ⟨rfl, rfl, rfl⟩ := hfields
  obtain ⟨rfl, rfl, rfl⟩ := hfields'
  dsimp only at hobjects
  rw [hobjects]

theorem copied_standsAlone (hpage : source.lookup page = some (.dictionary d))
    {target : LopdfDocument} (hbound : ∀ id ∈ target.objects, id.1 ≤ target.maxId)
    {copied : ObjectId} {after : LopdfDocument}
    (h : Copied source page d target (copyMapping source page target).1 copied after) :
    StandsAlone source page target (copyMapping source page target).1 copied after := by
  have hassigned := copyMapping_assigned hpage target
  have hpresent : page ∈ source := Finmap.mem_of_lookup_eq_some hpage
  have hfresh : ∀ id ∈ (copyMapping source page target).1.map Prod.snd, id ∉ target.objects := by
    intro id hid hmem
    have hhigh := ((mem_copyMapping_numbers hpage target).1 hid).2.1
    have hlow := hbound id hmem
    omega
  have hdict := h.copy hpage h.entry
  rw [copiedObject_page hpage] at hdict
  refine ⟨hassigned.numbered.nodup, hfresh, h.mem_objects hpage, ?_, hassigned.nodup, ?_, h.entry,
    _, hdict, ?_, ?_⟩
  · intro id hid
    exact h.other id fun hmem => hfresh id hmem hid
  · intro id hid hne
    rw [mem_copyMapping hpage target] at hid
    have hcopies := copies_of_copiedIds hpresent hid hne
    rw [copies, Bool.and_eq_true, Bool.not_eq_true'] at hcopies
    exact hcopies.2
  · rw [Dictionary.get_renameEntries, get_parent_detachPage]
    · rfl
    · intro entry hentry hparent
      obtain ⟨key, hkey, hvalue⟩ := List.mem_filterMap.1 hentry
      obtain ⟨value, -, rfl⟩ := Option.map_eq_some_iff.1 hvalue
      subst hparent
      simp [inheritableKeys] at hkey
  · intro key hkey
    have hfound := h.entryOf_inherited hpage hkey
    rw [entryOf_of_lookup hdict] at hfound
    rw [hfound]
    cases findInheritedAttribute source page key with
    | none => rfl
    | some value => exact congrArg some (remapReferences_eq_rename _ value).symm

variable [Lopdf] [LawfulDereference]

/-- A copy ends on every object graph, if only in a panic. Of anything but a dictionary it makes
nothing; of a page, with a number left for every object it copies, it makes new objects only, none of
them another page tree node, and a page that stands alone, in whatever order pass two takes what pass
one numbered. -/
theorem copy_stands_alone (overflow : Overflow) (source : Objects) (page : ObjectId)
    {target : LopdfDocument} (hbound : ∀ id ∈ target.objects, id.1 ≤ target.maxId) :
    ((∀ d, source.lookup page ≠ some (.dictionary d)) →
      copyPageInto32 overflow source page target = some (none, target)) ∧
    ∀ d, source.lookup page = some (.dictionary d) →
      (∃ result, Visits overflow source (startFrontier source page) [] target result) ∧
      (target.maxId + (copiedIds source page).card < objectNumbers → ∃ mapping numbered,
        Visits overflow source (startFrontier source page) [] target (some (mapping, numbered)) ∧
        (∀ entries, entries.Perm mapping →
          cloneEntries source mapping entries numbered = cloneObjects source mapping numbered) ∧
        ∃ copied after, copyPageInto32 overflow source page target = some (some copied, after) ∧
          StandsAlone source page target mapping copied after) := by
  constructor
  · intro hnone
    unfold copyPageInto32
    cases hdict : (source.lookup page).bind Object.asDict with
    | none => rfl
    | some d =>
      obtain ⟨object, hobject, hasDict⟩ := Option.bind_eq_some_iff.1 hdict
      rw [Object.asDict_eq_some.1 hasDict] at hobject
      exact absurd hobject (hnone d)
  · intro d hpage
    have hvisits : Visits overflow source (startFrontier source page) [] target
        (assignIds32 overflow source source.keys.card (startFrontier source page) [] target) :=
      visits_copy (Finmap.mem_of_lookup_eq_some hpage) target
    refine ⟨⟨_, hvisits⟩, fun hroom => ?_⟩
    obtain ⟨copied, after, hcopy, hcopied⟩ := copyPageInto_copied hpage target
    have hassigned := copyMapping_assigned hpage target
    rw [← length_copyOrder hpage] at hroom
    rw [assignIds32_of_room _ _ _ hroom] at hvisits
    rw [length_copyOrder hpage] at hroom
    refine ⟨(copyMapping source page target).1, (copyMapping source page target).2, hvisits, ?_,
      copied, after, ?_, copied_standsAlone hpage hbound hcopied⟩
    · intro entries hperm
      refine (cloneEntries_perm _ hperm.symm hassigned.numbered.nodup ?_ _).symm
      exact fun id hid => Finmap.mem_keys.1 (hassigned.present id hid)
    · rw [copyPageInto32_of_room hpage hroom, hcopy]

end Copy

open scoped ReferenceLopdf

/-- A document that has handed out the last number, with its catalog. -/
def LinkFile.fullTarget : LopdfDocument where
  version := "1.7"
  objects := [⟨(1, 0), .dictionary [("Type", .name "Catalog")]⟩].toFinmap
  trailer := [("Root", .reference (1, 0))]
  maxId := objectNumbers - 1

/-- Copied into it, a page with a link panics, or goes under the number 0 and its link under that of
the catalog. -/
theorem link_overwrites_catalog :
    (∀ id ∈ LinkFile.fullTarget.objects, id.1 ≤ LinkFile.fullTarget.maxId) ∧
    copyPageInto32 .panics LinkFile.source (1, 0) LinkFile.fullTarget = none ∧
    ∃ after, copyPageInto32 .wraps LinkFile.source (1, 0) LinkFile.fullTarget =
        some (some (0, 0), after) ∧
      (1, 0) ∈ LinkFile.fullTarget.objects ∧
      after.objects.lookup (1, 0) ≠ LinkFile.fullTarget.objects.lookup (1, 0) := by
  refine ⟨by decide +kernel, rfl, _, rfl, by decide +kernel, fun hsame => ?_⟩
  have htype := congrArg (fun object => (object.bind Object.asDict).bind (Dictionary.get · "Type")) hsame
  exact absurd (congrArg Option.isSome htype) (by decide +kernel)

/-- A page with a link to another page, copied into an empty revision. -/
theorem link_stands_alone : ∃ mapping copied after,
    copyPageInto32 .wraps LinkFile.source (1, 0) (LinkFile.target 2) = some (some copied, after) ∧
      StandsAlone LinkFile.source (1, 0) (LinkFile.target 2) mapping copied after := by
  have hbound : ∀ id ∈ (LinkFile.target 2).objects, id.1 ≤ (LinkFile.target 2).maxId := by
    intro id hid
    cases Finmap.notMem_empty hid
  obtain ⟨mapping, -, -, -, copied, after, hcopy, halone⟩ :=
    ((copy_stands_alone .wraps LinkFile.source (1, 0) hbound).2 LinkFile.page rfl).2 (by decide +kernel)
  exact ⟨mapping, copied, after, hcopy, halone⟩

end OpdfEditor
