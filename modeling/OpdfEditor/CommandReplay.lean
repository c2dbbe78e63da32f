import OpdfEditor.CommandSteps
import OpdfEditor.UndoHistory

/-!
Commands over a lawful document form a reversible system: an inverse replays on
every document that shows the same pages and has lost nothing from its trash, and
a command that ran is undone by what it handed back.
-/
namespace OpdfEditor
namespace Command

variable {D : Type} [Document D] [LawfulDocument D]

def runs (c : Command D) (d : D) : Option (Command D × D) :=
  match c.apply d with
  | (.ok inverse, d') => some (inverse, d')
  | (.error _, _) => none

omit [LawfulDocument D] in
@[simp] theorem runs_eq_some {c inverse : Command D} {d d' : D} :
    c.runs d = some (inverse, d') ↔ c.apply d = (.ok inverse, d') := by
  unfold runs
  rcases c.apply d with ⟨_ | _, _⟩ <;> simp

/-- Commands that allocate no identity, as every inverse is. -/
inductive Recorded : Command D → Prop
  | removePage (page) : Recorded (.removePage page)
  | restorePage (id atIndex) : Recorded (.restorePage id atIndex)
  | movePage (page toIndex) : Recorded (.movePage page toIndex)
  | setRotation (page rotation) : Recorded (.setRotation page rotation)
  | sequence {label commands} (h : ∀ c ∈ commands, Recorded c) : Recorded (.sequence label commands)
  | boundInverse {binding inverse} (h : Recorded inverse) : Recorded (.boundInverse binding inverse)

/-! ### An inverse replays -/

theorem Moves.below {d d' e e' : D} {r : Roster PageInfo} (he : Moves e e' r) (h : Below d e)
    (hid : Document.id d' = Document.id d) (hr : (OpdfEditor.roster d').Below r) : Below d' e' :=
  ⟨hid.trans (h.id.trans he.id.symm), he.roster ▸ hr⟩

/-- A larger document answers as the smaller one did. -/
def ReplaysAbove (c : Command D) : Prop :=
  ∀ {inverse : Command D} {d d' e : D}, Below d e → c.apply d = (.ok inverse, d') →
    ∃ e', c.apply e = (.ok inverse, e') ∧ Below d' e'

theorem applySequence_replay {label : String} {commands applied : List (Command D)}
    {inverse : Command D} {d d' e : D} (hsteps : ∀ c ∈ commands, ReplaysAbove c) (h : Below d e)
    (happly : applySequence apply label commands applied d = (.ok inverse, d')) :
    ∃ e', applySequence apply label commands applied e = (.ok inverse, e') ∧ Below d' e' := by
  induction commands generalizing applied d e with
  | nil =>
    cases happly
    exact ⟨e, rfl, h⟩
  | cons c cs ih =>
    unfold applySequence at happly ⊢
    split at happly
    · rename_i inv d₁ hstep
      obtain ⟨e₁, he₁, hbelow⟩ := hsteps c (by simp) h hstep
      rw [he₁]
      exact ih (fun c hc => hsteps c (by simp [hc])) hbelow happly
    · cases happly

theorem Recorded.replaysAbove {c : Command D} (hc : Recorded c) : ReplaysAbove c := by
  induction hc with
  | removePage page =>
    intro inverse d d' e h happly
    obtain ⟨index, hindex, rfl, hremove, -, hid⟩ := applyRemovePage_ok happly
    obtain ⟨r, hr, hbelow⟩ := h.roster.removeSlot hremove
    obtain ⟨e', he, hmoves⟩ := applyRemovePage_run ((h.roster.findIndex page).trans hindex) hr
    exact ⟨e', he, hmoves.below h hid hbelow⟩
  | restorePage id atIndex =>
    intro inverse d d' e h happly
    obtain ⟨rfl, hrestore, -, hid⟩ := applyRestorePage_ok happly
    obtain ⟨r, hr, hbelow⟩ := h.roster.restoreSlot hrestore
    obtain ⟨e', he, hmoves⟩ := applyRestorePage_run hr
    exact ⟨e', he, hmoves.below h hid hbelow⟩
  | movePage page toIndex =>
    intro inverse d d' e h happly
    obtain ⟨fromIndex, hindex, rfl, hmove, -, hid⟩ := applyMovePage_ok happly
    obtain ⟨r, hr, hbelow⟩ := h.roster.relocateSlot hmove
    obtain ⟨e', he, hmoves⟩ := applyMovePage_run ((h.roster.findIndex page).trans hindex) hr
    exact ⟨e', he, hmoves.below h hid hbelow⟩
  | setRotation page rotation =>
    intro inverse d d' e h happly
    obtain ⟨info, hinfo, rfl, hset, -, hid⟩ := applySetRotation_ok happly
    obtain ⟨r, hr, hbelow⟩ := h.roster.modifySlot hset
    obtain ⟨e', he, hmoves⟩ := applySetRotation_run (h.roster.findSlot hinfo) hr
    exact ⟨e', he, hmoves.below h hid hbelow⟩
  | sequence hcommands ih =>
    intro inverse d d' e h happly
    rw [apply_sequence] at happly ⊢
    exact applySequence_replay (fun c hc => ih c hc) h happly
  | boundInverse hinner ih =>
    intro inverse d d' e h happly
    rw [apply_boundInverse] at happly ⊢
    unfold applyBoundInverse at happly ⊢
    rw [← h.id]
    split at happly
    · cases happly
    rename_i hbound
    rw [if_neg hbound]
    split at happly
    · cases happly
    rename_i redo d₁ hstep
    cases happly
    obtain ⟨e', he, hbelow⟩ := ih h hstep
    exact ⟨e', by simp [he], hbelow⟩

theorem replayable : UndoHistory.Replayable (runs (D := D)) Below Recorded where
  refl := Below.refl
  trans := Below.trans
  replay hc h hrun := by
    obtain ⟨e', he, hbelow⟩ := hc.replaysAbove h (runs_eq_some.1 hrun)
    exact ⟨e', runs_eq_some.2 he, hbelow⟩

/-! ### A command is undone by what it hands back -/

/-- What a successful application hands back is recorded and lands above the start. -/
def Undone (c : Command D) : Prop :=
  ∀ {inverse : Command D} {d d' : D}, c.apply d = (.ok inverse, d') →
    Recorded inverse ∧ ∃ redo d'', inverse.apply d' = (.ok redo, d'') ∧ Below d d''

theorem Moves.above {d d' d'' : D} {r : Roster PageInfo} (h : Moves d' d'' r)
    (hid : Document.id d' = Document.id d) (hr : (OpdfEditor.roster d).Below r) : Below d d'' :=
  ⟨(h.id.trans hid).symm, h.roster ▸ hr⟩

/-- Inverses that unwind the document run as one sequence, in that order. -/
theorem applySequence_unwinds {label : String} {commands applied : List (Command D)} {d origin : D}
    (h : UndoHistory.Unwinds runs Below commands d origin) :
    ∃ inverse d', applySequence apply label commands applied d = (.ok inverse, d') ∧
      Below origin d' := by
  induction h generalizing applied with
  | nil h => exact ⟨_, _, rfl, h⟩
  | cons step rest ih =>
    obtain ⟨inverse, d', hrest, hbelow⟩ := ih
    refine ⟨inverse, d', ?_, hbelow⟩
    unfold applySequence
    rw [runs_eq_some.1 step]
    exact hrest

/-- Inverses that unwind the document roll it back without a second failure. -/
theorem rollBack_unwinds (label : String) (original : Error) {applied : List (Command D)}
    {d origin : D} (h : UndoHistory.Unwinds runs Below applied d origin) :
    ∃ d', rollBack apply label original applied d = (original, d') ∧ Below origin d' := by
  induction h with
  | nil h => exact ⟨_, rfl, h⟩
  | cons step rest ih =>
    obtain ⟨d', hrest, hbelow⟩ := ih
    exact ⟨d', by simp only [rollBack, runs_eq_some.1 step, hrest], hbelow⟩

theorem applySequence_undone {label : String} {commands applied : List (Command D)}
    {inverse : Command D} {d d' origin : D} (hsteps : ∀ c ∈ commands, Undone c)
    (happlied : ∀ c ∈ applied, Recorded c)
    (hunwinds : UndoHistory.Unwinds runs Below applied d origin)
    (happly : applySequence apply label commands applied d = (.ok inverse, d')) :
    ∃ applied', inverse = sequence s!"Undo: {label}" applied' ∧ (∀ c ∈ applied', Recorded c) ∧
      UndoHistory.Unwinds runs Below applied' d' origin := by
  induction commands generalizing applied d with
  | nil =>
    cases happly
    exact ⟨applied, rfl, happlied, hunwinds⟩
  | cons c cs ih =>
    unfold applySequence at happly
    split at happly
    · rename_i inv d₁ hstep
      obtain ⟨hrecorded, redo, d₂, hredo, hbelow⟩ := hsteps c (by simp) hstep
      exact ih (fun c hc => hsteps c (by simp [hc])) (List.forall_mem_cons.2 ⟨hrecorded, happlied⟩)
        (hunwinds.collect replayable happlied (runs_eq_some.2 hredo) hbelow) happly
    · cases happly

/-- Removing pages one after another, none of which `origin` shows, leads back above it. -/
theorem unwinds_removals {ids : List PageId} {d origin : D} (hnodup : ids.Nodup)
    (hlive : ∀ id ∈ ids, id ∈ (roster d).ids)
    (horigin : (roster origin).live = (roster d).live.filter (pageId · ∉ ids))
    (htrash : ∀ slot ∈ (roster origin).removed, slot ∈ (roster d).removed)
    (hid : Document.id origin = Document.id d) :
    UndoHistory.Unwinds runs Below (ids.map removePage) d origin := by
  induction ids generalizing d with
  | nil => exact .nil ⟨hid, by simpa using horigin, htrash⟩
  | cons id ids ih =>
    obtain ⟨hnot, hnodup⟩ := List.nodup_cons.1 hnodup
    obtain ⟨r, hr, hfilter, hsub⟩ := Roster.removeSlot_filter (hlive id (by simp))
    obtain ⟨index, hindex⟩ := findIndex_of_removeSlot hr
    obtain ⟨d₁, hrun, hmoves⟩ := applyRemovePage_run hindex hr
    refine .cons (runs_eq_some.2 hrun) (ih hnodup ?_ ?_ ?_ (hid.trans hmoves.id.symm))
    · intro id' hid'
      obtain ⟨slot, hslot, rfl⟩ := List.mem_map.1 (hlive id' (by simp [hid']))
      rw [hmoves.roster, Roster.ids, hfilter]
      refine List.mem_map_of_mem (List.mem_filter.2 ⟨hslot, ?_⟩)
      have : pageId slot ≠ id := fun heq => hnot (heq ▸ hid')
      simpa using this
    · rw [horigin, hmoves.roster, hfilter, List.filter_filter]
      refine List.filter_congr fun slot _ => ?_
      simp [Bool.and_comm]
    · intro slot hslot
      rw [hmoves.roster]
      exact hsub slot (htrash slot hslot)

/-- The pages of one import, removed in any order, are gone again. -/
theorem unwinds_import {source : D} {ids newIds order : List PageId} {atIndex : Nat} {d d' : D}
    (h : Document.importPages source ids atIndex d = (.ok newIds, d')) (horder : order.Perm newIds) :
    UndoHistory.Unwinds runs Below (order.map removePage) d' d := by
  obtain ⟨-, -, hid⟩ := LawfulDocument.importPages_ok _ _ _ _ _ _ h
  obtain ⟨pages, -, -, rfl, hlive, hremoved⟩ := importPages_live h
  have hnew : ∀ slot ∈ List.zipWith PageInfo.withId pages
      (List.range' (roster d).next pages.length), pageId slot ∈ order := by
    intro slot hslot
    obtain ⟨i, hi, rfl⟩ := List.mem_iff_getElem.1 hslot
    simp only [List.getElem_zipWith]
    exact horder.mem_iff.2 (List.getElem_mem _)
  have hold : ∀ slot ∈ (roster d).live, pageId slot ∉ order := by
    intro slot hslot hmem
    have hlt : pageId slot < (roster d).next :=
      (roster d).issued.left.below _ (List.mem_map_of_mem hslot)
    exact Nat.not_le.2 hlt (List.mem_range'_1.1 (horder.mem_iff.1 hmem)).1
  refine unwinds_removals (horder.nodup_iff.2 List.nodup_range') ?_ ?_ ?_ hid.symm
  · intro id hmem
    have hlength : (List.zipWith PageInfo.withId pages
        (List.range' (roster d).next pages.length)).map pageId =
          List.range' (roster d).next pages.length := by
      refine List.ext_getElem (by simp) fun i h₁ h₂ => by simp [PageInfo.withId]
    rw [Roster.ids, hlive, List.map_append, List.map_append, hlength]
    simp [horder.mem_iff.1 hmem]
  · rw [hlive, List.filter_append, List.filter_append]
    have htake := List.filter_eq_self.2 fun slot (hs : slot ∈ (roster d).live.take atIndex) =>
      decide_eq_true (hold slot (List.mem_of_mem_take hs))
    have hdrop := List.filter_eq_self.2 fun slot (hs : slot ∈ (roster d).live.drop atIndex) =>
      decide_eq_true (hold slot (List.mem_of_mem_drop hs))
    have hmiddle : List.filter (pageId · ∉ order) (List.zipWith PageInfo.withId pages
        (List.range' (roster d).next pages.length)) = [] :=
      List.filter_eq_nil_iff.2 fun slot hs => by simpa using hnew slot hs
    rw [htake, hdrop, hmiddle]
    simp
  · intro slot hslot
    rwa [hremoved]

omit [Document D] [LawfulDocument D] in
theorem recorded_map_removePage (ids : List PageId) : ∀ c ∈ ids.map (removePage (D := D)), Recorded c := by
  intro c hc
  obtain ⟨id, -, rfl⟩ := List.mem_map.1 hc
  exact .removePage id

theorem applyMerge_undone {count : Nat} {sources : List D} {removals : List (Command D)}
    {inverse : Command D} {d d' origin : D} (hremovals : ∀ c ∈ removals, Recorded c)
    (hunwinds : UndoHistory.Unwinds runs Below removals d origin)
    (happly : applyMerge apply count sources removals d = (.ok inverse, d')) :
    ∃ removals', inverse = sequence s!"Undo merge of {count} documents" removals' ∧
      (∀ c ∈ removals', Recorded c) ∧ UndoHistory.Unwinds runs Below removals' d' origin := by
  induction sources generalizing removals d with
  | nil =>
    cases happly
    exact ⟨removals, rfl, hremovals, hunwinds⟩
  | cons source sources ih =>
    unfold applyMerge at happly
    split at happly
    · rename_i newIds d₁ himport
      have hnew := unwinds_import himport newIds.reverse_perm
      rw [← List.map_reverse] at happly
      exact ih (List.forall_mem_append.2 ⟨recorded_map_removePage _, hremovals⟩)
        (hnew.append replayable hunwinds hremovals) happly
    · cases happly

/-- A sequence of inverses that unwinds to `d` is an inverse that lands above `d`. -/
theorem undone_of_unwinds {label : String} {commands : List (Command D)} {d d' : D}
    (hrecorded : ∀ c ∈ commands, Recorded c)
    (h : UndoHistory.Unwinds runs Below commands d' d) :
    Recorded (sequence label commands) ∧
      ∃ redo d'', (sequence label commands).apply d' = (.ok redo, d'') ∧ Below d d'' := by
  refine ⟨.sequence hrecorded, ?_⟩
  rw [apply_sequence]
  exact applySequence_unwinds h

/-- Every command is undone by what it hands back. -/
theorem undone (c : Command D) : Undone c := by
  intro inverse d d' happly
  match c with
  | removePage page =>
    obtain ⟨index, hindex, rfl, hremove, -, hid⟩ := applyRemovePage_ok happly
    obtain ⟨r, hr, hbelow⟩ := Roster.restoreSlot_removeSlot hindex hremove
    obtain ⟨d'', hrun, hmoves⟩ := applyRestorePage_run hr
    exact ⟨.restorePage _ _, _, d'', hrun, hmoves.above hid hbelow⟩
  | restorePage id atIndex =>
    obtain ⟨rfl, hrestore, -, hid⟩ := applyRestorePage_ok happly
    obtain ⟨r, hr, hbelow⟩ := Roster.removeSlot_restoreSlot hrestore
    obtain ⟨index, hindex⟩ := findIndex_of_removeSlot hr
    obtain ⟨d'', hrun, hmoves⟩ := applyRemovePage_run hindex hr
    exact ⟨.removePage _, _, d'', hrun, hmoves.above hid hbelow⟩
  | movePage page toIndex =>
    obtain ⟨fromIndex, hindex, rfl, hmove, -, hid⟩ := applyMovePage_ok happly
    obtain ⟨r, hr, hbelow⟩ := Roster.relocateSlot_relocateSlot hindex hmove
    obtain ⟨index, hindex'⟩ := findIndex_of_relocateSlot hr
    obtain ⟨d'', hrun, hmoves⟩ := applyMovePage_run hindex' hr
    exact ⟨.movePage _ _, _, d'', hrun, hmoves.above hid hbelow⟩
  | setRotation page rotation =>
    obtain ⟨info, hinfo, rfl, hset, -, hid⟩ := applySetRotation_ok happly
    have hback := Roster.modifySlot_modifySlot
      (g := PageInfo.withRotation info.rotation) (fun _ => rfl) hinfo rfl hset
    obtain ⟨info', hinfo'⟩ := findSlot_of_modifySlot hback
    obtain ⟨d'', hrun, hmoves⟩ := applySetRotation_run hinfo' hback
    exact ⟨.setRotation _ _, _, d'', hrun, hmoves.above hid (.refl _)⟩
  | insertBlankPage atIndex size =>
    obtain ⟨newId, rfl, hinsert, -, hid⟩ := applyInsertBlankPage_ok happly
    obtain ⟨r, hr, hbelow⟩ := Roster.removeSlot_insertSlot hinsert
    obtain ⟨index, hindex⟩ := findIndex_of_removeSlot hr
    obtain ⟨d'', hrun, hmoves⟩ := applyRemovePage_run hindex hr
    exact ⟨.removePage _, _, d'', hrun, hmoves.above hid hbelow⟩
  | importPages source ids atIndex =>
    simp only [apply_importPages, applyImportPages] at happly
    split at happly
    · cases happly
    rename_i newIds d₁ himport
    cases happly
    exact undone_of_unwinds (recorded_map_removePage _) (unwinds_import himport (.refl _))
  | sequence label commands =>
    rw [apply_sequence] at happly
    obtain ⟨applied, rfl, hrecorded, hunwinds⟩ := applySequence_undone
      (fun c _ => undone c) (by simp) (.nil (Below.refl d)) happly
    exact undone_of_unwinds hrecorded hunwinds
  | merge sources =>
    rw [apply_merge] at happly
    obtain ⟨removals, rfl, hrecorded, hunwinds⟩ :=
      applyMerge_undone (by simp) (.nil (Below.refl d)) happly
    exact undone_of_unwinds hrecorded hunwinds
  | boundInverse binding inner =>
    rw [apply_boundInverse] at happly
    unfold applyBoundInverse at happly
    split at happly
    · cases happly
    rename_i hbound
    split at happly
    · cases happly
    rename_i redo d₁ hstep
    cases happly
    obtain ⟨hrecorded, redo', d'', hredo, hbelow⟩ := undone inner hstep
    refine ⟨.boundInverse hrecorded, boundInverse binding redo', d'', ?_, hbelow⟩
    rw [apply_boundInverse]
    unfold applyBoundInverse
    rw [(advances inner hstep).id, if_neg hbound, hredo]

theorem reversible : UndoHistory.Reversible (runs (D := D)) Below Recorded where
  toReplayable := replayable
  recorded hrun := (undone _ (runs_eq_some.1 hrun)).1
  inverse hrun := by
    obtain ⟨-, redo, d'', hredo, hbelow⟩ := undone _ (runs_eq_some.1 hrun)
    exact ⟨redo, d'', runs_eq_some.2 hredo, hbelow⟩

end Command
end OpdfEditor
