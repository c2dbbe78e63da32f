import OpdfEditor.CommandReplay

/-!
Commands that leave no trace: one that is rejected rolls back what it had applied, and
one that does not move the revision changes nothing.
-/
namespace OpdfEditor
namespace Command

variable {D : Type} [Document D] [LawfulDocument D]

/-! ### A rejected command -/

/-- Imports inside the command leave the document alone where they fail. -/
inductive Atomic : Command D → Prop
  | removePage (page) : Atomic (.removePage page)
  | restorePage (id atIndex) : Atomic (.restorePage id atIndex)
  | movePage (page toIndex) : Atomic (.movePage page toIndex)
  | setRotation (page rotation) : Atomic (.setRotation page rotation)
  | insertBlankPage (atIndex size) : Atomic (.insertBlankPage atIndex size)
  | importPages {source ids atIndex} (h : ∀ {d d' : D} {e : Error},
      Document.importPages source ids atIndex d = (.error e, d') → d' = d) :
      Atomic (.importPages source ids atIndex)
  | sequence {label commands} (h : ∀ c ∈ commands, Atomic c) : Atomic (.sequence label commands)
  | merge {sources} (h : ∀ source ∈ sources, ∀ {ids : List PageId} {atIndex : Nat} {d d' : D} {e : Error},
      Document.importPages source ids atIndex d = (.error e, d') → d' = d) : Atomic (.merge sources)
  | boundInverse {binding inverse} (h : Atomic inverse) : Atomic (.boundInverse binding inverse)

/-- A failed application ends above where it began. -/
def Rejects (c : Command D) : Prop :=
  ∀ {e : Error} {d d' : D}, c.apply d = (.error e, d') → Below d d'

theorem applySequence_rejects {label : String} {commands applied : List (Command D)} {e : Error}
    {d d' origin : D} (hsteps : ∀ c ∈ commands, Rejects c) (happlied : ∀ c ∈ applied, Recorded c)
    (hunwinds : UndoHistory.Unwinds runs Below applied d origin)
    (happly : applySequence apply label commands applied d = (.error e, d')) : Below origin d' := by
  induction commands generalizing applied d with
  | nil => cases happly
  | cons c cs ih =>
    unfold applySequence at happly
    split at happly
    · rename_i inv d₁ hstep
      obtain ⟨hrecorded, redo, d₂, hredo, hbelow⟩ := undone c hstep
      exact ih (fun c hc => hsteps c (by simp [hc])) (List.forall_mem_cons.2 ⟨hrecorded, happlied⟩)
        (hunwinds.collect replayable happlied (runs_eq_some.2 hredo) hbelow) happly
    · rename_i e' d₁ hstep
      have hraised := hunwinds.raise replayable happlied (hsteps c (by simp) hstep)
      obtain ⟨d₂, hback, hbelow⟩ := rollBack_unwinds label e' hraised
      rw [hback] at happly
      cases happly
      exact hbelow

theorem applyMerge_rejects {count : Nat} {sources : List D} {removals : List (Command D)} {e : Error}
    {d d' origin : D}
    (hatomic : ∀ source ∈ sources, ∀ {ids : List PageId} {atIndex : Nat} {d d' : D} {e : Error},
      Document.importPages source ids atIndex d = (.error e, d') → d' = d)
    (hremovals : ∀ c ∈ removals, Recorded c)
    (hunwinds : UndoHistory.Unwinds runs Below removals d origin)
    (happly : applyMerge apply count sources removals d = (.error e, d')) : Below origin d' := by
  induction sources generalizing removals d with
  | nil => cases happly
  | cons source sources ih =>
    unfold applyMerge at happly
    split at happly
    · rename_i newIds d₁ himport
      have hnew := unwinds_import himport newIds.reverse_perm
      rw [← List.map_reverse] at happly
      exact ih (fun s hs => hatomic s (by simp [hs]))
        (List.forall_mem_append.2 ⟨recorded_map_removePage _, hremovals⟩)
        (hnew.append replayable hunwinds hremovals) happly
    · rename_i e' d₁ himport
      obtain rfl := hatomic source (by simp) himport
      obtain ⟨d₂, hback, hbelow⟩ := rollBack_unwinds s!"Merge {count} documents" e' hunwinds
      rw [hback] at happly
      cases happly
      exact hbelow

theorem below_of_eq {d d' : D} (h : d' = d) : Below d d' := h ▸ .refl d

/-- A rejected command leaves the pages as they were, whatever part of it had been applied. -/
theorem Atomic.rejects {c : Command D} (hc : Atomic c) : Rejects c := by
  induction hc with
  | removePage page =>
    intro e d d' happly
    exact below_of_eq (edit_rejects rfl happly)
  | restorePage id atIndex =>
    intro e d d' happly
    exact below_of_eq (edit_rejects rfl happly)
  | movePage page toIndex =>
    intro e d d' happly
    exact below_of_eq (edit_rejects rfl happly)
  | setRotation page rotation =>
    intro e d d' happly
    exact below_of_eq (edit_rejects rfl happly)
  | insertBlankPage atIndex size =>
    intro e d d' happly
    simp only [apply_insertBlankPage, applyInsertBlankPage] at happly
    split at happly <;> cases happly
    rename_i hinsert
    exact below_of_eq (mutates_error (LawfulDocument.insertPage_spec atIndex size d) hinsert)
  | importPages himport =>
    intro e d d' happly
    simp only [apply_importPages, applyImportPages] at happly
    split at happly <;> cases happly
    rename_i herror
    exact below_of_eq (himport herror)
  | sequence hcommands ih =>
    intro e d d' happly
    rw [apply_sequence] at happly
    exact applySequence_rejects (fun c hc => ih c hc) (by simp) (.nil (.refl d)) happly
  | merge hsources =>
    intro e d d' happly
    rw [apply_merge] at happly
    exact applyMerge_rejects hsources (by simp) (.nil (.refl d)) happly
  | boundInverse hinner ih =>
    intro e d d' happly
    rw [apply_boundInverse] at happly
    unfold applyBoundInverse at happly
    split at happly
    · cases happly
      exact .refl _
    split at happly <;> cases happly
    rename_i hstep
    exact ih hstep

/-! ### A command that changed nothing -/

omit [Document D] [LawfulDocument D] in
theorem mutationsOf_eq_zero {commands : List (Command D)} (h : mutationsOf commands = 0) :
    ∀ c ∈ commands, c.mutations = 0 := by
  induction commands with
  | nil => simp
  | cons c cs ih =>
    simp only [mutationsOf, Nat.add_eq_zero_iff] at h
    simpa using ⟨h.1, ih h.2⟩

omit [LawfulDocument D] in
theorem applySequence_eq_self {label : String} {commands applied : List (Command D)}
    {inverse : Command D} {d d' : D}
    (hself : ∀ c ∈ commands, ∀ {inverse : Command D} {d d' : D},
      c.apply d = (.ok inverse, d') → d' = d)
    (happly : applySequence apply label commands applied d = (.ok inverse, d')) : d' = d := by
  induction commands generalizing applied d with
  | nil =>
    cases happly
    rfl
  | cons c cs ih =>
    unfold applySequence at happly
    split at happly
    · rename_i inv d₁ hstep
      obtain rfl := hself c (by simp) hstep
      exact ih (fun c hc => hself c (by simp [hc])) happly
    · cases happly

omit [LawfulDocument D] in
/-- A command without mutations leaves the document itself, not only its pages. -/
theorem apply_eq_self (c : Command D) (hc : c.mutations = 0) {inverse : Command D} {d d' : D}
    (happly : c.apply d = (.ok inverse, d')) : d' = d := by
  match c with
  | sequence label commands =>
    rw [apply_sequence] at happly
    have hzero := mutationsOf_eq_zero (by simpa [mutations] using hc)
    exact applySequence_eq_self (fun c hmem => apply_eq_self c (hzero c hmem)) happly
  | merge sources =>
    obtain rfl : sources = [] := List.length_eq_zero_iff.1 (by simpa [mutations] using hc)
    rw [apply_merge] at happly
    cases happly
    rfl
  | boundInverse binding inner =>
    rw [apply_boundInverse] at happly
    unfold applyBoundInverse at happly
    split at happly
    · cases happly
    split at happly <;> cases happly
    rename_i hstep
    exact apply_eq_self inner (by simpa [mutations] using hc) hstep
  | removePage _ | restorePage .. | movePage .. | setRotation .. | insertBlankPage .. | importPages .. =>
    simp [mutations] at hc

/-- A command small enough to fit an address space changed nothing if the revision stood still. -/
theorem apply_unchanged {c : Command D} (hc : c.mutations < 2 ^ 64) {inverse : Command D} {d d' : D}
    (happly : c.apply d = (.ok inverse, d')) (hrev : Document.revision d' = Document.revision d) :
    d' = d := by
  refine apply_eq_self c ?_ happly
  have hadvance := (advances c happly).revision
  rw [hrev] at hadvance
  have hzero : UInt64.ofNat c.mutations = 0 := by
    have := congrArg (· - Document.revision d) hadvance
    simpa [UInt64.add_comm] using this.symm
  have := congrArg UInt64.toNat hzero
  rw [UInt64.toNat_ofNat_of_lt' hc] at this
  simpa using this

end Command
end OpdfEditor
