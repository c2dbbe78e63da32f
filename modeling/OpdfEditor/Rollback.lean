import OpdfEditor.UndoStack

/-!
What a composite meets when it rolls back. A step may fail after any number of others
succeeded, at any depth; the inverses collected so far then run against the very state
they were computed for, so none of them fails and the error is the failing step's own.
-/
namespace OpdfEditor

/-- A failure that left nothing half applied. -/
def Error.Plain (e : Error) : Prop := ∀ original rollback, e ≠ .rollbackFailed original rollback

namespace Roster

variable {r : Roster PageInfo} {id : PageId} {e : Error}

theorem plain_of_findIndex (h : r.findIndex id = .error e) : e.Plain := by
  obtain ⟨-, rfl⟩ := findIndex_eq_error.1 h
  exact fun _ _ heq => by cases heq

theorem plain_of_findSlot (h : r.findSlot id = .error e) : e.Plain := by
  unfold findSlot at h
  split at h <;> cases h
  exact fun _ _ heq => by cases heq

theorem plain_of_removeSlot (h : r.removeSlot id = .error e) : e.Plain := by
  unfold removeSlot at h
  split at h <;> cases h
  exact fun _ _ heq => by cases heq

theorem plain_of_restoreSlot {atIndex : Nat} (h : r.restoreSlot id atIndex = .error e) :
    e.Plain := by
  unfold restoreSlot at h
  split at h
  · cases h
    exact fun _ _ heq => by cases heq
  split at h
  · cases h
    exact fun _ _ heq => by cases heq
  split at h <;> cases h
  exact fun _ _ heq => by cases heq

theorem plain_of_relocateSlot {toIndex : Nat} (h : (r.relocateSlot id toIndex).1 = .error e) :
    e.Plain := by
  unfold relocateSlot at h
  split at h
  · cases h
    exact fun _ _ heq => by cases heq
  dsimp only at h
  split at h <;> cases h
  exact fun _ _ heq => by cases heq

theorem plain_of_modifySlot {f : PageInfo → PageInfo} {hf : ∀ s, pageId (f s) = pageId s}
    (h : r.modifySlot id f hf = .error e) : e.Plain := by
  unfold modifySlot at h
  split at h <;> cases h
  exact fun _ _ heq => by cases heq

theorem plain_of_insertSlot {atIndex : Nat} {make : PageId → PageInfo}
    {hmake : ∀ id, pageId (make id) = id} (h : r.insertSlot atIndex make hmake = .error e) :
    e.Plain := by
  unfold insertSlot at h
  split at h <;> cases h
  exact fun _ _ heq => by cases heq

theorem plain_of_checkInsertionIndex {index : Nat} (h : r.checkInsertionIndex index = .error e) :
    e.Plain := by
  unfold checkInsertionIndex at h
  split at h <;> cases h
  exact fun _ _ heq => by cases heq

theorem plain_of_insertEach {make : α → PageId → PageInfo} {hmake : ∀ a id, pageId (make a id) = id}
    {as : List α} {atIndex : Nat} (h : insertEach make hmake as atIndex r = .error e) : e.Plain := by
  induction as generalizing atIndex r with
  | nil => cases h
  | cons a as ih =>
    unfold insertEach at h
    split at h
    · rename_i herror
      cases h
      exact plain_of_insertSlot herror
    split at h
    · rename_i herror
      cases h
      exact ih herror
    · cases h

end Roster

namespace Command

section Failures

variable {D : Type} [Document D] [LawfulDocument D]

theorem mutates_plain {d d' : D} {outcome : Outcome D α} {spec : Except Error (α × Roster PageInfo)}
    {e : Error} (h : Mutates roster d outcome spec) (hspec : ∀ e, spec = .error e → e.Plain)
    (ho : outcome = (.error e, d')) : e.Plain := by
  subst ho
  cases spec with
  | error error =>
    cases h
    exact hspec _ rfl
  | ok result => exact absurd h.1 (by simp)

theorem plain_of_map {x : Except Error α} {f : α → β} {e : Error}
    (hx : ∀ e, x = .error e → e.Plain) (h : x.map f = .error e) : e.Plain := by
  cases x with
  | error error =>
    cases h
    exact hx _ rfl
  | ok a => cases h

/-- An edit of one page never fails half way. -/
theorem edit_plain {c : Command D} {page : PageId} {e : Error} {d d' : D}
    (hc : c.edited = some page) (h : c.apply d = (.error e, d')) : e.Plain := by
  cases c with
  | removePage target =>
    simp only [apply_removePage, applyRemovePage, LawfulDocument.indexOf_eq] at h
    split at h
    · rename_i herror
      cases h
      exact Roster.plain_of_findIndex herror
    split at h <;> cases h
    rename_i hremove
    exact mutates_plain (LawfulDocument.removePage_spec target d)
      (fun _ => plain_of_map fun _ => Roster.plain_of_removeSlot) hremove
  | restorePage target atIndex =>
    simp only [apply_restorePage, applyRestorePage] at h
    split at h <;> cases h
    rename_i hrestore
    exact mutates_plain (LawfulDocument.restorePage_spec target atIndex d)
      (fun _ => plain_of_map fun _ => Roster.plain_of_restoreSlot) hrestore
  | movePage target toIndex =>
    simp only [apply_movePage, applyMovePage, LawfulDocument.indexOf_eq] at h
    split at h
    · rename_i herror
      cases h
      exact Roster.plain_of_findIndex herror
    split at h <;> cases h
    rename_i hmove
    exact mutates_plain (LawfulDocument.movePage_spec target toIndex d)
      (fun _ => plain_of_map fun _ => Roster.plain_of_relocateSlot) hmove
  | setRotation target rotation =>
    simp only [apply_setRotation, applySetRotation, LawfulDocument.page_eq] at h
    split at h
    · rename_i herror
      cases h
      exact Roster.plain_of_findSlot herror
    split at h <;> cases h
    rename_i hset
    exact mutates_plain (LawfulDocument.setRotation_spec target rotation d)
      (fun _ => plain_of_map fun _ => Roster.plain_of_modifySlot) hset
  | insertBlankPage atIndex size => cases hc
  | importPages source ids atIndex => cases hc
  | sequence label commands => cases hc
  | merge sources => cases hc
  | boundInverse binding inverse => cases hc

/-- A command whose failure is never a failed rollback. -/
def FailsPlainly (c : Command D) : Prop :=
  ∀ {e : Error} {d d' : D}, c.apply d = (.error e, d') → e.Plain

/-! ### The inverses a composite collects -/

/-- Applying the commands in order succeeds; `applied` is what they handed back, most recent
first. -/
inductive Collects : List (Command D) → D → List (Command D) → D → Prop
  | nil {d} : Collects [] d [] d
  | snoc {commands c inverse applied d d₁ d₂} (rest : Collects commands d applied d₁)
      (step : c.apply d₁ = (.ok inverse, d₂)) : Collects (commands ++ [c]) d (inverse :: applied) d₂

/-- Appending every page of the sources in order succeeds; `removals` takes them out again. -/
inductive Appends : List D → D → List (Command D) → D → Prop
  | nil {d} : Appends [] d [] d
  | snoc {sources source newIds removals d d₁ d₂} (rest : Appends sources d removals d₁)
      (step : Document.importPages source (Document.pageIds source) (Document.pageCount d₁) d₁ =
        (.ok newIds, d₂)) :
      Appends (sources ++ [source]) d ((newIds.map removePage).reverse ++ removals) d₂

/-- Applying the command to `d`, some composite in it fails at `d₁` and sets out to roll back
`applied` from there. -/
inductive RollsBack : Command D → D → List (Command D) → D → Prop
  | sequence {label before c after applied e d d₁ d₂} (hbefore : Collects before d applied d₁)
      (hfails : c.apply d₁ = (.error e, d₂)) :
      RollsBack (.sequence label (before ++ c :: after)) d applied d₂
  | merge {before source after removals e d d₁ d₂} (hbefore : Appends before d removals d₁)
      (hfails : Document.importPages source (Document.pageIds source) (Document.pageCount d₁) d₁ =
        (.error e, d₂)) :
      RollsBack (.merge (before ++ source :: after)) d removals d₂
  | within {label before c after applied inner d d₁ d₂} (hbefore : Collects before d applied d₁)
      (hinner : RollsBack c d₁ inner d₂) :
      RollsBack (.sequence label (before ++ c :: after)) d inner d₂
  | bound {inverse applied d d₂} (hinner : RollsBack inverse d applied d₂) :
      RollsBack (.boundInverse (Document.id d) inverse) d applied d₂

omit [LawfulDocument D] in
/-- A sequence fails at one of its steps, and rolls back what the steps before it handed back. -/
theorem applySequence_eq_error {label : String} {before commands applied : List (Command D)}
    {e : Error} {d d₁ d' : D} (hbefore : Collects before d applied d₁)
    (h : applySequence apply label commands applied d₁ = (.error e, d')) :
    ∃ steps c after applied' e' d₂ d₃, commands = steps ++ c :: after ∧
      Collects (before ++ steps) d applied' d₂ ∧ c.apply d₂ = (.error e', d₃) ∧
      rollBack apply label e' applied' d₃ = (e, d') := by
  induction commands generalizing before applied d₁ with
  | nil => cases h
  | cons c commands ih =>
    unfold applySequence at h
    split at h
    · rename_i inverse d₂ hstep
      obtain ⟨steps, c', after, applied', e', d₃, d₄, rfl, hcollects, hfails, hback⟩ :=
        ih (hbefore.snoc hstep) h
      refine ⟨c :: steps, c', after, applied', e', d₃, d₄, rfl, ?_, hfails, hback⟩
      simpa using hcollects
    · rename_i e' d₂ hstep
      cases h
      exact ⟨[], c, commands, applied, e', d₁, d₂, rfl, by simpa using hbefore, hstep, rfl⟩

omit [LawfulDocument D] in
/-- A merge fails at one of its sources, and takes out again what came from those before it. -/
theorem applyMerge_eq_error {count : Nat} {before sources : List D} {removals : List (Command D)}
    {e : Error} {d d₁ d' : D} (hbefore : Appends before d removals d₁)
    (h : applyMerge apply count sources removals d₁ = (.error e, d')) :
    ∃ merged source after removals' e' d₂ d₃, sources = merged ++ source :: after ∧
      Appends (before ++ merged) d removals' d₂ ∧
      Document.importPages source (Document.pageIds source) (Document.pageCount d₂) d₂ =
        (.error e', d₃) ∧
      rollBack apply s!"Merge {count} documents" e' removals' d₃ = (e, d') := by
  induction sources generalizing before removals d₁ with
  | nil => cases h
  | cons source sources ih =>
    unfold applyMerge at h
    split at h
    · rename_i newIds d₂ hstep
      obtain ⟨merged, source', after, removals', e', d₃, d₄, rfl, happends, hfails, hback⟩ :=
        ih (hbefore.snoc hstep) h
      refine ⟨source :: merged, source', after, removals', e', d₃, d₄, rfl, ?_, hfails, hback⟩
      simpa using happends
    · rename_i e' d₂ hstep
      cases h
      exact ⟨[], source, sources, removals, e', d₁, d₂, rfl, by simpa using hbefore, hstep, rfl⟩

theorem Collects.unwinds {before applied : List (Command D)} {d d₁ : D}
    (h : Collects before d applied d₁) :
    (∀ c ∈ applied, Recorded c) ∧ UndoHistory.Unwinds runs Below applied d₁ d := by
  induction h with
  | nil => exact ⟨by simp, .nil (.refl _)⟩
  | snoc rest step ih =>
    obtain ⟨hrecorded, redo, d₃, hredo, hbelow⟩ := undone _ step
    refine ⟨?_, ih.2.collect replayable ih.1 (runs_eq_some.2 hredo) hbelow⟩
    intro c hc
    cases hc with
    | head => exact hrecorded
    | tail _ hc => exact ih.1 c hc

theorem Appends.unwinds {before : List D} {removals : List (Command D)} {d d₁ : D}
    (h : Appends before d removals d₁) :
    (∀ c ∈ removals, Recorded c) ∧ UndoHistory.Unwinds runs Below removals d₁ d := by
  induction h with
  | nil => exact ⟨by simp, .nil (.refl _)⟩
  | snoc rest step ih =>
    have hnew := unwinds_import step (List.reverse_perm _)
    rw [← List.map_reverse]
    refine ⟨?_, hnew.append replayable ih.2 ih.1⟩
    intro c hc
    cases List.mem_append.1 hc with
    | inl hc => exact recorded_map_removePage _ c hc
    | inr hc => exact ih.1 c hc

/-- Every inverse a composite sets out to roll back applies where it is rolled back. -/
theorem RollsBack.unwinds {c : Command D} {applied : List (Command D)} {d d₁ : D}
    (hc : c.Atomic) (h : RollsBack c d applied d₁) :
    ∃ origin, UndoHistory.Unwinds runs Below applied d₁ origin := by
  induction h with
  | sequence hbefore hfails =>
    cases hc with
    | sequence hcommands =>
      obtain ⟨hrecorded, hunwinds⟩ := hbefore.unwinds
      exact ⟨_, hunwinds.raise replayable hrecorded ((hcommands _ (by simp)).rejects hfails)⟩
  | merge hbefore hfails =>
    cases hc with
    | merge hsources =>
      obtain ⟨hrecorded, hunwinds⟩ := hbefore.unwinds
      exact ⟨_, hsources _ (by simp) hfails ▸ hunwinds⟩
  | within hbefore hinner ih =>
    cases hc with
    | sequence hcommands => exact ih (hcommands _ (by simp))
  | bound hinner ih =>
    cases hc with
    | boundInverse hinverse => exact ih hinverse

/-- What a sequence fails with is what its failing step failed with. -/
theorem sequence_failsPlainly {label : String} {commands : List (Command D)}
    (hatomic : ∀ c ∈ commands, Atomic c) (hplain : ∀ c ∈ commands, FailsPlainly c) :
    FailsPlainly (.sequence label commands) := by
  intro e d d' happly
  rw [apply_sequence] at happly
  obtain ⟨steps, c, after, applied, e', d₁, d₂, rfl, hcollects, hfails, hback⟩ :=
    applySequence_eq_error .nil happly
  obtain ⟨hrecorded, hunwinds⟩ := hcollects.unwinds
  have hraised := hunwinds.raise replayable hrecorded ((hatomic c (by simp)).rejects hfails)
  obtain ⟨d₃, hrolled, -⟩ := rollBack_unwinds label e' hraised
  rw [hrolled] at hback
  cases hback
  exact hplain c (by simp) hfails

end Failures
end Command

namespace VecDocument

open Command

theorem plain_of_mapM_page {source : VecDocument} {ids : List PageId} {e : Error}
    (h : ids.mapM (page · source) = .error e) : e.Plain := by
  induction ids with
  | nil => cases h
  | cons id ids ih =>
    rw [List.mapM_cons] at h
    cases hpage : page id source with
    | error error =>
      rw [hpage] at h
      cases h
      exact Roster.plain_of_findSlot hpage
    | ok info =>
      rw [hpage] at h
      cases hrest : ids.mapM (page · source) with
      | error error =>
        rw [hrest] at h
        cases h
        exact ih hrest
      | ok infos =>
        rw [hrest] at h
        cases h

theorem importPages_plain {source d d' : VecDocument} {ids : List PageId} {atIndex : Nat} {e : Error}
    (h : importPages source ids atIndex d = (.error e, d')) : e.Plain := by
  unfold importPages at h
  split at h
  · rename_i herror
    cases h
    exact Roster.plain_of_checkInsertionIndex herror
  split at h
  · rename_i herror
    cases h
    exact plain_of_mapM_page herror
  split at h
  · rename_i herror
    cases h
    exact Roster.plain_of_insertEach herror
  · cases h

theorem merge_failsPlainly (sources : List VecDocument) : FailsPlainly (.merge sources) := by
  intro e d d' happly
  rw [apply_merge] at happly
  obtain ⟨merged, source, after, removals, e', d₁, d₂, -, happends, hfails, hback⟩ :=
    applyMerge_eq_error .nil happly
  obtain rfl := importPages_error hfails
  obtain ⟨d₃, hrolled, -⟩ :=
    rollBack_unwinds s!"Merge {sources.length} documents" e' happends.unwinds.2
  rw [hrolled] at hback
  cases hback
  exact importPages_plain hfails

/-- No command over the in-memory document ever reports a failed rollback. -/
theorem failsPlainly (c : Command VecDocument) : c.FailsPlainly := by
  intro e d d' happly
  match c with
  | .removePage page => exact edit_plain rfl happly
  | .restorePage id atIndex => exact edit_plain rfl happly
  | .movePage page toIndex => exact edit_plain rfl happly
  | .setRotation page rotation => exact edit_plain rfl happly
  | .insertBlankPage atIndex size =>
    simp only [apply_insertBlankPage, applyInsertBlankPage] at happly
    split at happly <;> cases happly
    rename_i hinsert
    exact mutates_plain (LawfulDocument.insertPage_spec atIndex size d)
      (fun _ => Roster.plain_of_insertSlot) hinsert
  | .importPages source ids atIndex =>
    simp only [apply_importPages, applyImportPages] at happly
    split at happly <;> cases happly
    rename_i herror
    exact importPages_plain herror
  | .sequence label commands =>
    exact sequence_failsPlainly (fun c _ => UndoStack.VecDocument.atomic c)
      (fun c _ => failsPlainly c) happly
  | .merge sources => exact merge_failsPlainly sources happly
  | .boundInverse binding inverse =>
    rw [apply_boundInverse] at happly
    unfold applyBoundInverse at happly
    split at happly
    · cases happly
      exact fun _ _ heq => by cases heq
    split at happly <;> cases happly
    rename_i hstep
    exact failsPlainly inverse hstep

/-- A command that fails on an in-memory document leaves its page list as it was and reports its
own failure; wherever a composite inside rolls back, every inverse it collected applies. -/
theorem composite_commands_are_atomic (c : Command VecDocument) (d : VecDocument) :
    (∀ e d', c.apply d = (.error e, d') →
      d'.roster.live = d.roster.live ∧ ∀ original rollback, e ≠ .rollbackFailed original rollback) ∧
    ∀ applied d₁, RollsBack c d applied d₁ →
      ∃ origin, UndoHistory.Unwinds runs Below applied d₁ origin := by
  constructor
  · intro e d' happly
    have hbelow := (UndoStack.VecDocument.atomic c).rejects happly
    exact ⟨hbelow.roster.live.symm, failsPlainly c happly⟩
  · intro applied d₁ hrolls
    exact hrolls.unwinds (UndoStack.VecDocument.atomic c)

/-- Two pages are removed, and then one of them again. -/
theorem composite_commands_are_atomic_deleting_twice :
    ∃ e d', (deleteSelection [0, 2, 0]).apply (withPages 1 3 .a4) = (.error e, d') ∧
      d'.roster.live = (withPages 1 3 .a4).roster.live :=
  ⟨_, _, rfl, ((composite_commands_are_atomic (deleteSelection [0, 2, 0]) (withPages 1 3 .a4)).1
    _ _ rfl).1⟩

end VecDocument
end OpdfEditor
