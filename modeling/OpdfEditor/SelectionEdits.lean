import OpdfEditor.ArgumentReading
import OpdfEditor.CommandSteps
import OpdfEditor.Rollback

/-!
Deleting and rotating a whole selection of pages as one command. Either acts on exactly
the pages it names, in whatever order it names them; a page named twice can be rotated
twice but not deleted twice.
-/
namespace OpdfEditor

/-! ### Rosters, one page after the other -/

namespace Roster

variable {σ : Type} [HasPageId σ] {r r' : Roster σ} {id : PageId} {ids : List PageId}

theorem mem_ids {slot : σ} (h : slot ∈ r.live) : pageId slot ∈ r.ids := List.mem_map_of_mem h

/-- The page a removal names was live, and is the only one to leave the list. -/
theorem live_of_removeSlot (h : r.removeSlot id = .ok r') :
    id ∈ r.ids ∧ r'.live = r.live.filter fun slot => pageId slot ≠ id := by
  obtain ⟨before, slot, after, hlive, rfl, -⟩ := removeSlot_eq_ok.1 h
  have hmem : pageId slot ∈ r.ids := mem_ids (by simp [hlive])
  obtain ⟨removed, hremoved, hfilter, -⟩ := removeSlot_filter hmem
  obtain rfl := Except.ok.inj (h.symm.trans hremoved)
  exact ⟨hmem, hfilter⟩

theorem mem_ids_of_removeSlot (h : r.removeSlot id = .ok r') {other : PageId} :
    other ∈ r'.ids ↔ other ∈ r.ids ∧ other ≠ id := by
  rw [ids, ids, (live_of_removeSlot h).2, List.mem_map, List.mem_map]
  constructor
  · rintro ⟨slot, hslot, rfl⟩
    obtain ⟨hlive, hne⟩ := List.mem_filter.1 hslot
    exact ⟨⟨slot, hlive, rfl⟩, of_decide_eq_true hne⟩
  · rintro ⟨⟨slot, hlive, rfl⟩, hne⟩
    exact ⟨slot, List.mem_filter.2 ⟨hlive, decide_eq_true hne⟩, rfl⟩

/-- Removing pages in turn works where they are live and differ. -/
theorem removals_iff : (∃ r', ids.foldlM (fun r id => r.removeSlot id) r = .ok r') ↔
    ids.Nodup ∧ ∀ id ∈ ids, id ∈ r.ids := by
  induction ids generalizing r with
  | nil => exact iff_of_true ⟨r, rfl⟩ ⟨List.nodup_nil, List.forall_mem_nil _⟩
  | cons id ids ih =>
    rw [List.foldlM_cons, List.nodup_cons, List.forall_mem_cons]
    constructor
    · rintro ⟨r', h⟩
      obtain ⟨r₁, hfirst, hrest⟩ := bind_eq_ok.1 h
      obtain ⟨hnodup, hlive⟩ := ih.1 ⟨r', hrest⟩
      have hmem := fun other hother => (mem_ids_of_removeSlot hfirst).1 (hlive other hother)
      exact ⟨⟨fun hid => (hmem id hid).2 rfl, hnodup⟩, (live_of_removeSlot hfirst).1,
        fun other hother => (hmem other hother).1⟩
    · rintro ⟨⟨hid, hnodup⟩, hfirst, hlive⟩
      obtain ⟨r₁, hr₁, -⟩ := removeSlot_filter hfirst
      obtain ⟨r', hr'⟩ := (@ih r₁).2 ⟨hnodup, fun other hother =>
        (mem_ids_of_removeSlot hr₁).2 ⟨hlive other hother, fun hsame => hid (hsame ▸ hother)⟩⟩
      exact ⟨r', bind_eq_ok.2 ⟨r₁, hr₁, hr'⟩⟩

/-- They leave the list, whatever order they go in. -/
theorem removals_live (h : ids.foldlM (fun r id => r.removeSlot id) r = .ok r') :
    r'.live = r.live.filter fun slot => pageId slot ∉ ids := by
  induction ids generalizing r with
  | nil =>
    cases h
    simp
  | cons id ids ih =>
    rw [List.foldlM_cons] at h
    obtain ⟨r₁, hfirst, hrest⟩ := bind_eq_ok.1 h
    rw [ih hrest, (live_of_removeSlot hfirst).2, List.filter_filter]
    refine List.filter_congr fun slot _ => ?_
    simp [Bool.and_comm]

variable {f : σ → σ} {hf : ∀ slot, pageId (f slot) = pageId slot}

/-- The page a change names was live, and is the only one to change. -/
theorem live_of_modifySlot (h : r.modifySlot id f hf = .ok r') :
    id ∈ r.ids ∧ r'.ids = r.ids ∧ r'.removed = r.removed ∧
      r'.live = r.live.map fun slot => if pageId slot = id then f slot else slot := by
  obtain ⟨before, slot, after, hlive, rfl, hlive', hremoved, -⟩ := modifySlot_eq_ok.1 h
  have hothers := not_mem_of_split (hlive ▸ r.live_nodup)
  have hkept : ∀ slots : List σ, (∀ other ∈ slots, other ∈ before ++ after) →
      slots.map (fun other => if pageId other = pageId slot then f other else other) = slots :=
    fun slots hslots => (List.map_congr_left fun other hother =>
      if_neg (hothers other (hslots other hother))).trans (List.map_id' slots)
  refine ⟨mem_ids (by simp [hlive]), ?_, hremoved, ?_⟩
  · rw [ids, ids, hlive', hlive, List.map_append, List.map_append, List.map_cons, List.map_cons, hf]
  · rw [hlive', hlive, List.map_append, List.map_cons, if_pos rfl,
      hkept before fun _ => List.mem_append_left _, hkept after fun _ => List.mem_append_right _]

variable (f hf)

theorem exists_modifySlot (h : id ∈ r.ids) : ∃ r', r.modifySlot id f hf = .ok r' := by
  obtain ⟨slot, hslot, rfl⟩ := List.mem_map.1 h
  unfold modifySlot
  split
  · rename_i hnone
    exact absurd rfl (position_eq_none.1 hnone slot hslot)
  · exact ⟨_, rfl⟩

/-- Changing pages in turn works where they are live, and a change made twice is made once. -/
theorem changes_iff : (∃ r', ids.foldlM (fun r id => r.modifySlot id f hf) r = .ok r') ↔
    ∀ id ∈ ids, id ∈ r.ids := by
  induction ids generalizing r with
  | nil => exact iff_of_true ⟨r, rfl⟩ (List.forall_mem_nil _)
  | cons id ids ih =>
    rw [List.foldlM_cons, List.forall_mem_cons]
    constructor
    · rintro ⟨r', h⟩
      obtain ⟨r₁, hfirst, hrest⟩ := bind_eq_ok.1 h
      obtain ⟨hid, hids, -⟩ := live_of_modifySlot hfirst
      exact ⟨hid, hids ▸ ih.1 ⟨r', hrest⟩⟩
    · rintro ⟨hid, hlive⟩
      obtain ⟨r₁, hr₁⟩ := exists_modifySlot f hf hid
      obtain ⟨r', hr'⟩ := (@ih r₁).2 ((live_of_modifySlot hr₁).2.1 ▸ hlive)
      exact ⟨r', bind_eq_ok.2 ⟨r₁, hr₁, hr'⟩⟩

variable {f hf}

theorem changes_live (hidem : ∀ slot, f (f slot) = f slot)
    (h : ids.foldlM (fun r id => r.modifySlot id f hf) r = .ok r') :
    r'.removed = r.removed ∧
      r'.live = r.live.map fun slot => if pageId slot ∈ ids then f slot else slot := by
  induction ids generalizing r with
  | nil =>
    cases h
    simp
  | cons id ids ih =>
    rw [List.foldlM_cons] at h
    obtain ⟨r₁, hfirst, hrest⟩ := bind_eq_ok.1 h
    obtain ⟨-, -, hremoved, hlive⟩ := live_of_modifySlot hfirst
    obtain ⟨hremoved', hlive'⟩ := ih hrest
    refine ⟨hremoved'.trans hremoved, ?_⟩
    rw [hlive', hlive, List.map_map]
    refine List.map_congr_left fun slot _ => ?_
    by_cases hid : pageId slot = id
    · simp [hid, hf, hidem]
    · simp [hid]

end Roster

/-! ### A command for every page of a selection -/

namespace Command

variable {D : Type} [Document D] [LawfulDocument D]

/-- Commands that move the roster as a step on it does, and are rejected where the step is. -/
structure Follows (command : PageId → Command D)
    (step : Roster PageInfo → PageId → Except Error (Roster PageInfo)) : Prop where
  moves : ∀ {page : PageId} {d d' : D} {inverse : Command D},
    (command page).apply d = (.ok inverse, d') → step (roster d) page = .ok (roster d')
  runs : ∀ {page : PageId} {d : D} {r : Roster PageInfo}, step (roster d) page = .ok r →
    ∃ inverse d', (command page).apply d = (.ok inverse, d')

/-- Applied in turn they take the steps in turn. -/
theorem Follows.sequence {command : PageId → Command D}
    {step : Roster PageInfo → PageId → Except Error (Roster PageInfo)} (h : Follows command step)
    {label : String} {ids : List PageId} {applied : List (Command D)} {d : D} {r : Roster PageInfo} :
    (∃ inverse d', applySequence apply label (ids.map command) applied d = (.ok inverse, d') ∧
      roster d' = r) ↔ ids.foldlM step (roster d) = .ok r := by
  induction ids generalizing applied d with
  | nil =>
    constructor
    · rintro ⟨inverse, d', heq, rfl⟩
      cases heq
      rfl
    · intro heq
      exact ⟨_, d, rfl, Except.ok.inj heq⟩
  | cons id ids ih =>
    rw [List.map_cons, applySequence, List.foldlM_cons]
    rcases happly : (command id).apply d with ⟨e | inverse, d₁⟩
    · refine iff_of_false ?_ fun hsteps => ?_
      · rintro ⟨inverse, d', heq, -⟩
        cases heq
      · obtain ⟨r₁, hfirst, -⟩ := bind_eq_ok.1 hsteps
        obtain ⟨inverse, d', hok⟩ := h.runs hfirst
        rw [happly] at hok
        cases hok
    · rw [h.moves happly]
      exact ih

omit [LawfulDocument D] in
/-- What every step keeps, a sequence of them keeps. -/
theorem applySequence_keeps {P : D → Prop} {label : String} {commands applied : List (Command D)}
    {inverse : Command D} {d d' : D}
    (hsteps : ∀ command ∈ commands, ∀ d inverse d', command.apply d = (.ok inverse, d') → P d → P d')
    (happly : applySequence apply label commands applied d = (.ok inverse, d')) (h : P d) : P d' := by
  induction commands generalizing applied d with
  | nil =>
    cases happly
    exact h
  | cons command commands ih =>
    rw [applySequence] at happly
    split at happly
    · rename_i inverse₁ d₁ hfirst
      exact ih (fun other hother => hsteps other (List.mem_cons_of_mem _ hother)) happly
        (hsteps command List.mem_cons_self _ _ _ hfirst h)
    · cases happly

theorem follows_removePage :
    Follows (D := D) removePage fun r id => r.removeSlot id where
  moves happly := by
    obtain ⟨-, -, -, hremove, -⟩ := applyRemovePage_ok happly
    exact hremove
  runs hstep := by
    obtain ⟨index, hindex⟩ := findIndex_of_removeSlot hstep
    obtain ⟨d', hrun, -⟩ := applyRemovePage_run hindex hstep
    exact ⟨_, d', hrun⟩

theorem follows_setRotation (rotation : Rotation) : Follows (D := D) (setRotation · rotation)
    fun r id => r.modifySlot id (PageInfo.withRotation rotation) fun _ => rfl where
  moves happly := by
    obtain ⟨-, -, -, hmodify, -⟩ := applySetRotation_ok happly
    exact hmodify
  runs hstep := by
    obtain ⟨info, hinfo⟩ := findSlot_of_modifySlot hstep
    obtain ⟨d', hrun, -⟩ := applySetRotation_run hinfo hstep
    exact ⟨_, d', hrun⟩

end Command

variable {D : Type} [Document D] [LawfulDocument D] {d d' : D} {ids : List PageId}
  {inverse : Command D} {rotation : Rotation}

theorem deleteSelection_runs : (∃ inverse d', (deleteSelection ids).apply d = (.ok inverse, d')) ↔
    ids.Nodup ∧ ∀ id ∈ ids, id ∈ (roster d).ids := by
  rw [deleteSelection, Command.apply_sequence, ← Roster.removals_iff]
  constructor
  · rintro ⟨inverse, d', h⟩
    exact ⟨_, Command.follows_removePage.sequence.1 ⟨inverse, d', h, rfl⟩⟩
  · rintro ⟨r, h⟩
    obtain ⟨inverse, d', hok, -⟩ := Command.follows_removePage.sequence.2 h
    exact ⟨inverse, d', hok⟩

theorem deleteSelection_live (h : (deleteSelection ids).apply d = (.ok inverse, d')) :
    (roster d').live = (roster d).live.filter fun page => page.id ∉ ids := by
  rw [deleteSelection, Command.apply_sequence] at h
  exact Roster.removals_live (Command.follows_removePage.sequence.1 ⟨inverse, d', h, rfl⟩)

theorem rotateSelection_runs :
    (∃ inverse d', (rotateSelection ids rotation).apply d = (.ok inverse, d')) ↔
      ∀ id ∈ ids, id ∈ (roster d).ids := by
  rw [rotateSelection, Command.apply_sequence,
    ← Roster.changes_iff (PageInfo.withRotation rotation) fun _ => rfl]
  constructor
  · rintro ⟨inverse, d', h⟩
    exact ⟨_, (Command.follows_setRotation rotation).sequence.1 ⟨inverse, d', h, rfl⟩⟩
  · rintro ⟨r, h⟩
    obtain ⟨inverse, d', hok, -⟩ := (Command.follows_setRotation rotation).sequence.2 h
    exact ⟨inverse, d', hok⟩

theorem rotateSelection_live (h : (rotateSelection ids rotation).apply d = (.ok inverse, d')) :
    (roster d').removed = (roster d).removed ∧ (roster d').live = (roster d).live.map fun page =>
      if page.id ∈ ids then page.withRotation rotation else page := by
  rw [rotateSelection, Command.apply_sequence] at h
  exact Roster.changes_live (fun _ => rfl)
    ((Command.follows_setRotation rotation).sequence.1 ⟨inverse, d', h, rfl⟩)

omit [LawfulDocument D] in
theorem atomic_deleteSelection (ids : List PageId) : (deleteSelection (D := D) ids).Atomic :=
  .sequence (List.forall_mem_map.2 fun id _ => .removePage id)

omit [LawfulDocument D] in
theorem atomic_rotateSelection (ids : List PageId) (rotation : Rotation) :
    (rotateSelection (D := D) ids rotation).Atomic :=
  .sequence (List.forall_mem_map.2 fun id _ => .setRotation id rotation)

/-- A command on a selection: it goes through exactly where `admits`, does then what `does` says
of the live pages, and can be taken back; where it fails the live pages are what they were. -/
structure ActsOn (command : Command D) (d : D) (admits : Prop) (does : List PageInfo → List PageInfo) :
    Prop where
  runs : (∃ inverse d', command.apply d = (.ok inverse, d')) ↔ admits
  live : ∀ inverse d', command.apply d = (.ok inverse, d') → (roster d').live = does (roster d).live
  undone : ∀ inverse d', command.apply d = (.ok inverse, d') → ∃ redo d'',
    inverse.apply d' = (.ok redo, d'') ∧ (roster d'').live = (roster d).live
  rejected : ∀ e d', command.apply d = (.error e, d') → (roster d').live = (roster d).live

theorem actsOn_of {command : Command D} {admits : Prop} {does : List PageInfo → List PageInfo}
    (hatomic : command.Atomic) (hruns : (∃ inverse d', command.apply d = (.ok inverse, d')) ↔ admits)
    (hlive : ∀ inverse d', command.apply d = (.ok inverse, d') →
      (roster d').live = does (roster d).live) : ActsOn command d admits does where
  runs := hruns
  live := hlive
  undone inverse d' happly := by
    obtain ⟨-, redo, d'', hredo, hbelow⟩ := Command.undone command happly
    exact ⟨redo, d'', hredo, hbelow.roster.live.symm⟩
  rejected e d' happly := (hatomic.rejects happly).roster.live.symm

/-- Deleting a selection goes through exactly where it names live pages and none of them twice, and
takes them out of the list whatever order it names them in; rotating one goes through exactly where
it names live pages, and turns these and no others, once each. Either can be taken back, and one that
fails on the way leaves the list as it was. -/
theorem selections_act_on_the_pages_they_name (ids : List PageId) (rotation : Rotation) (d : D) :
    ActsOn (deleteSelection ids) d (ids.Nodup ∧ ∀ id ∈ ids, id ∈ Document.pageIds d)
      (fun live => live.filter fun page => page.id ∉ ids) ∧
    ActsOn (rotateSelection ids rotation) d (∀ id ∈ ids, id ∈ Document.pageIds d)
      (fun live => live.map fun page =>
        if page.id ∈ ids then page.withRotation rotation else page) := by
  rw [LawfulDocument.pageIds_eq]
  exact ⟨actsOn_of (atomic_deleteSelection ids) deleteSelection_runs
      fun _ _ happly => deleteSelection_live happly,
    actsOn_of (atomic_rotateSelection ids rotation) rotateSelection_runs
      fun _ _ happly => (rotateSelection_live happly).2⟩

/-- Both on three pages in memory. -/
theorem selections_act_on_three_pages :
    ActsOn (deleteSelection [2, 0]) (VecDocument.withPages 1 3 .a4)
      (([2, 0] : List PageId).Nodup ∧ ∀ id ∈ [2, 0], id ∈ Document.pageIds (VecDocument.withPages 1 3 .a4))
      (fun live => live.filter fun page => page.id ∉ [2, 0]) ∧
    ActsOn (rotateSelection [2, 0, 2] .half) (VecDocument.withPages 1 3 .a4)
      (∀ id ∈ [2, 0, 2], id ∈ Document.pageIds (VecDocument.withPages 1 3 .a4))
      (fun live => live.map fun page => if page.id ∈ [2, 0, 2] then page.withRotation .half else page) :=
  ⟨(selections_act_on_the_pages_they_name [2, 0] .half _).1,
    (selections_act_on_the_pages_they_name [2, 0, 2] .half _).2⟩

end OpdfEditor
