import OpdfEditor.OpdfApp

/-!
The history the shell keeps: in every run of the shell each queued entry edits one page
the document still knows, and undoing and redoing never fail, whatever saves failed.
-/
namespace OpdfEditor

namespace UndoStack

variable {D : Type} [Document D] [LawfulDocument D]

open Command (outlines edit_ok edit_rejects)

/-- Every queued entry edits one page, and the document still knows that page. -/
def EditsKnown (s : UndoStack D) (d : D) : Prop :=
  ∀ c ∈ s.undo ++ s.redo, ∃ page, c.edited = some page ∧ page ∈ (outlines d).map Prod.fst

/-- The document is where it was, or one edit of one page further. -/
structure Edited (d d' : D) : Prop where
  outlines : (outlines d').Perm (outlines d)
  id : Document.id d' = Document.id d
  revision : d' = d ∨ Document.revision d' = Document.revision d + 1

theorem Edited.refl (d : D) : Edited d d := ⟨.refl _, rfl, .inl rfl⟩

variable {s : UndoStack D} {d d' : D}

omit [Document D] in
theorem EditsKnown.perm [Document D] [LawfulDocument D] (hs : s.EditsKnown d)
    (h : (outlines d').Perm (outlines d)) : s.EditsKnown d' := by
  intro c hc
  obtain ⟨page, hedited, hknown⟩ := hs c hc
  exact ⟨page, hedited, (h.map Prod.fst).mem_iff.2 hknown⟩

theorem editsKnown_clear (s : UndoStack D) (d : D) : s.clear.EditsKnown d := by
  intro c hc
  cases hc

/-- An entry that ran leaves an entry of the same kind behind. -/
theorem edited_of_run {c inverse : Command D} {page : PageId} (hc : c.edited = some page)
    (h : c.apply d = (.ok inverse, d')) :
    Edited d d' ∧ ∃ page, inverse.edited = some page ∧ page ∈ (outlines d').map Prod.fst := by
  obtain ⟨hinverse, hknown, hperm, hrevision, hid⟩ := edit_ok hc h
  exact ⟨⟨hperm, hid, .inr hrevision⟩, page, hinverse, (hperm.map Prod.fst).mem_iff.2 hknown⟩

/-- Entries that were queued, and one that edits a page the document knows. -/
theorem EditsKnown.replace (hs : s.EditsKnown d) (hedited : Edited d d') {inverse : Command D}
    (hinverse : ∃ page, inverse.edited = some page ∧ page ∈ (outlines d').map Prod.fst)
    {s' : UndoStack D}
    (hqueued : ∀ c ∈ s'.undo ++ s'.redo, c = inverse ∨ c ∈ s.undo ++ s.redo) : s'.EditsKnown d' := by
  intro c hc
  rcases hqueued c hc with rfl | hold
  · exact hinverse
  · exact hs.perm hedited.outlines c hold

theorem editsKnown_applyCommand (hs : s.EditsKnown d) {command : Command D} {page : PageId}
    (hc : command.edited = some page) :
    (s.applyCommand command d).2.1.EditsKnown (s.applyCommand command d).2.2 ∧
    Edited d (s.applyCommand command d).2.2 := by
  unfold UndoStack.applyCommand
  rcases happly : command.apply d with ⟨e | inverse, d'⟩
  · obtain rfl := edit_rejects hc happly
    exact ⟨hs, .refl _⟩
  · obtain ⟨hedited, hinverse⟩ := edited_of_run hc happly
    dsimp only
    split
    · exact ⟨hs.perm hedited.outlines, hedited⟩
    · refine ⟨hs.replace hedited hinverse fun c hmem => ?_, hedited⟩
      have hqueue : c ∈ inverse :: s.undo := by
        simp only [List.append_nil] at hmem
        split at hmem
        · exact List.mem_of_mem_dropLast hmem
        · exact hmem
      exact (List.mem_cons.1 hqueue).imp_right (List.mem_append_left _)

theorem editsKnown_undoLast (hs : s.EditsKnown d) :
    (s.undoLast d).2.1.EditsKnown (s.undoLast d).2.2 ∧ Edited d (s.undoLast d).2.2 := by
  unfold UndoStack.undoLast
  rcases hundo : s.undo with _ | ⟨c, undo⟩
  · exact ⟨hs, .refl d⟩
  obtain ⟨page, hc, -⟩ := hs c (by simp [hundo])
  dsimp only
  rcases happly : c.apply d with ⟨e | inverse, d'⟩
  · obtain rfl := edit_rejects hc happly
    exact ⟨hs, .refl _⟩
  · obtain ⟨hedited, hinverse⟩ := edited_of_run hc happly
    refine ⟨hs.replace hedited hinverse fun entry hmem => ?_, hedited⟩
    simp only [List.mem_append, List.mem_cons] at hmem
    simp only [hundo, List.mem_append, List.mem_cons]
    tauto

theorem editsKnown_redoLast (hs : s.EditsKnown d) :
    (s.redoLast d).2.1.EditsKnown (s.redoLast d).2.2 ∧ Edited d (s.redoLast d).2.2 := by
  unfold UndoStack.redoLast
  rcases hredo : s.redo with _ | ⟨c, redo⟩
  · exact ⟨hs, .refl d⟩
  obtain ⟨page, hc, -⟩ := hs c (by simp [hredo])
  dsimp only
  rcases happly : c.apply d with ⟨e | inverse, d'⟩
  · obtain rfl := edit_rejects hc happly
    exact ⟨hs, .refl _⟩
  · obtain ⟨hedited, hinverse⟩ := edited_of_run hc happly
    refine ⟨hs.replace hedited hinverse fun entry hmem => ?_, hedited⟩
    simp only [List.mem_append, List.mem_cons] at hmem
    simp only [hredo, List.mem_append, List.mem_cons]
    tauto

/-- A command that is rejected leaves the document as it is. -/
theorem applyCommand_rejected {command : Command D} {page : PageId} (hc : command.edited = some page)
    {e : Error} (h : (s.applyCommand command d).1 = .error e) : (s.applyCommand command d).2.2 = d := by
  unfold UndoStack.applyCommand at h ⊢
  rcases happly : command.apply d with ⟨e | inverse, d'⟩
  · exact edit_rejects hc happly
  · rw [happly] at h
    dsimp only at h
    split at h <;> cases h

/-- So does an undo that finds nothing to undo, or fails. -/
theorem undoLast_kept (hs : s.EditsKnown d) (h : (s.undoLast d).1 ≠ .ok true) :
    (s.undoLast d).2.2 = d := by
  unfold UndoStack.undoLast at h ⊢
  rcases hundo : s.undo with _ | ⟨c, undo⟩
  · rfl
  obtain ⟨page, hc, -⟩ := hs c (by simp [hundo])
  rw [hundo] at h
  dsimp only at h ⊢
  rcases happly : c.apply d with ⟨e | inverse, d'⟩
  · exact edit_rejects hc happly
  · rw [happly] at h
    exact absurd rfl h

theorem redoLast_kept (hs : s.EditsKnown d) (h : (s.redoLast d).1 ≠ .ok true) :
    (s.redoLast d).2.2 = d := by
  unfold UndoStack.redoLast at h ⊢
  rcases hredo : s.redo with _ | ⟨c, redo⟩
  · rfl
  obtain ⟨page, hc, -⟩ := hs c (by simp [hredo])
  rw [hredo] at h
  dsimp only at h ⊢
  rcases happly : c.apply d with ⟨e | inverse, d'⟩
  · exact edit_rejects hc happly
  · rw [happly] at h
    exact absurd rfl h

/-! ### Undoing all the way -/

def undoTimes : Nat → UndoStack D → D → Option (UndoStack D × D)
  | 0, s, d => some (s, d)
  | n + 1, s, d =>
    match s.undoLast d with
    | (.ok true, s', d') => undoTimes n s' d'
    | _ => none

def redoTimes : Nat → UndoStack D → D → Option (UndoStack D × D)
  | 0, s, d => some (s, d)
  | n + 1, s, d =>
    match s.redoLast d with
    | (.ok true, s', d') => redoTimes n s' d'
    | _ => none

variable {h : UndoHistory.Cursor (List PageInfo)}

theorem Follows.undoTimes (hf : Follows s d h) {n : Nat} (hn : n ≤ s.undoDepth) :
    ∃ after, undoTimes n s d = some after := by
  induction n generalizing s d h with
  | zero => exact ⟨_, rfl⟩
  | succ n ih =>
    obtain ⟨hback, hresult, -⟩ := hf.undoLast
    have hlength : h.past.length = s.undoDepth := hf.tracks.undo_length
    have hlength' : h.back.past.length = (s.undoLast d).2.1.undoDepth := hback.tracks.undo_length
    cases hpast : h.past with
    | nil =>
      rw [hpast] at hlength
      simp only [List.length_nil] at hlength
      omega
    | cons view past =>
      have hgo : h.canGoBack = true := by simp [UndoHistory.Cursor.canGoBack, hpast]
      have hroom : n ≤ (s.undoLast d).2.1.undoDepth := by
        rw [← hlength']
        simp only [UndoHistory.Cursor.back, hpast]
        rw [hpast, List.length_cons] at hlength
        omega
      obtain ⟨after, hafter⟩ := ih hback hroom
      rw [hgo] at hresult
      refine ⟨after, ?_⟩
      unfold UndoStack.undoTimes
      rcases hlast : s.undoLast d with ⟨result, s', d'⟩
      rw [hlast] at hresult hafter
      dsimp only at hresult
      subst hresult
      exact hafter

theorem Follows.redoTimes (hf : Follows s d h) {n : Nat} (hn : n ≤ s.redoDepth) :
    ∃ after, redoTimes n s d = some after := by
  induction n generalizing s d h with
  | zero => exact ⟨_, rfl⟩
  | succ n ih =>
    obtain ⟨hforward, hresult, -⟩ := hf.redoLast
    have hlength : h.future.length = s.redoDepth := hf.tracks.redo_length
    have hlength' : h.forward.future.length = (s.redoLast d).2.1.redoDepth :=
      hforward.tracks.redo_length
    cases hfuture : h.future with
    | nil =>
      rw [hfuture] at hlength
      simp only [List.length_nil] at hlength
      omega
    | cons view future =>
      have hgo : h.canGoForward = true := by simp [UndoHistory.Cursor.canGoForward, hfuture]
      have hroom : n ≤ (s.redoLast d).2.1.redoDepth := by
        rw [← hlength']
        simp only [UndoHistory.Cursor.forward, hfuture]
        rw [hfuture, List.length_cons] at hlength
        omega
      obtain ⟨after, hafter⟩ := ih hforward hroom
      rw [hgo] at hresult
      refine ⟨after, ?_⟩
      unfold UndoStack.redoTimes
      rcases hlast : s.redoLast d with ⟨result, s', d'⟩
      rw [hlast] at hresult hafter
      dsimp only at hresult
      subst hresult
      exact hafter

end UndoStack

section Lopdf

variable [Lopdf]

namespace OpdfApp

open UndoStack (Follows EditsKnown)

/-- The open document's history replays, and names only pages the document knows. -/
structure Sound (app : OpdfApp) : Prop where
  edits : ∀ d, app.document = some d → app.undo.EditsKnown d
  follows : ∀ d, app.document = some d → ∃ h, Follows app.undo d h

/-- The same document stays open, its history still replays, and no exit was asked for, answered
or carried out. -/
structure Continues (app app' : OpdfApp) : Prop where
  sound : app'.Sound
  document : app'.document.map Document.id = app.document.map Document.id
  exitPending : app'.exitPending = app.exitPending
  closeCommands : app'.closeCommands = app.closeCommands

variable {app app' : OpdfApp}

theorem Continues.refl (h : app.Sound) : Continues app app := ⟨h, rfl, rfl, rfl⟩

/-- Nothing but the view, the caches, the service and the messages moved. -/
theorem Continues.of_same (h : app.Sound) (hdocument : app'.document = app.document)
    (hundo : app'.undo = app.undo) (hexit : app'.exitPending = app.exitPending)
    (hclose : app'.closeCommands = app.closeCommands) : Continues app app' := by
  refine ⟨⟨?_, ?_⟩, by rw [hdocument], hexit, hclose⟩
  · rw [hdocument, hundo]
    exact h.edits
  · rw [hdocument, hundo]
    exact h.follows

/-- The document moved on together with its history. -/
theorem Continues.of_moved {d d' : EditableDocument} (hdocument : app.document = some d)
    (hdocument' : app'.document = some d') (hid : Document.id d' = Document.id d)
    (hedits : app'.undo.EditsKnown d') (hfollows : ∃ h, Follows app'.undo d' h)
    (hexit : app'.exitPending = app.exitPending) (hclose : app'.closeCommands = app.closeCommands) :
    Continues app app' := by
  refine ⟨⟨?_, ?_⟩, ?_, hexit, hclose⟩
  · intro e he
    obtain rfl := Option.some.inj (hdocument'.symm.trans he)
    exact hedits
  · intro e he
    obtain rfl := Option.some.inj (hdocument'.symm.trans he)
    exact hfollows
  · rw [hdocument, hdocument']
    exact congrArg some hid

theorem sound_new (opened : OpenedDocument) : (OpdfApp.new opened).Sound := by
  refine ⟨?_, ?_⟩
  · intro d _ c hc
    cases hc
  · intro d _
    exact ⟨_, .start _ d⟩

theorem sound_installDocument (document : Option EditableDocument) (path : Option String)
    (service : ShellService) (snapshot : DocumentSnapshot) (app : OpdfApp) :
    (app.installDocument document path service snapshot).Sound := by
  refine ⟨?_, ?_⟩
  · intro d _
    exact UndoStack.editsKnown_clear _ d
  · intro d _
    exact ⟨_, UndoStack.follows_clear _ d⟩

theorem sound_openChosenPath (h : app.Sound) (around : Surroundings) :
    (app.openChosenPath around).Sound := by
  unfold openChosenPath
  split
  · exact h
  · unfold absorbOpen
    split
    · rename_i opened _
      have hinstalled := sound_installDocument (some opened.document) opened.path opened.service
        opened.snapshot app
      exact ⟨hinstalled.edits, hinstalled.follows⟩
    · exact ⟨h.edits, h.follows⟩

theorem sound_carryOut (h : app.Sound) (around : Surroundings) (intent : ExitIntent) :
    (app.carryOut around intent).Sound := by
  cases intent with
  | close => exact sound_installDocument _ _ _ _ app
  | quit => exact ⟨h.edits, h.follows⟩
  | «open» => exact sound_openChosenPath h around

/-! ### Saving -/

/-- Writing the document keeps it and its history, unless it is a compaction that succeeds. -/
theorem continues_saveTo (h : app.Sound) (around : Surroundings) (path : String) (mode : SaveMode)
    (hmode : mode = .incremental ∨ (app.saveTo around path mode).1 = false) :
    Continues app (app.saveTo around path mode).2 := by
  unfold saveTo at hmode ⊢
  cases hdocument : app.document with
  | none => exact .refl h
  | some d =>
    obtain ⟨history, hfollows⟩ := h.follows d hdocument
    have hedits := h.edits d hdocument
    rw [hdocument] at hmode
    dsimp only at hmode ⊢
    rcases hsave : d.save around.save mode with ⟨e | ⟨⟩, d'⟩
    · have hkeeps : EditableDocument.Keeps d d' := by
        cases mode with
        | incremental =>
          have := d.saveIncremental_keeps around.save
          rwa [show d.saveIncremental around.save = _ from hsave] at this
        | compacted => exact EditableDocument.saveCompacted_error_keeps hsave
      exact .of_moved hdocument rfl hkeeps.id (hedits.perm (by rw [Command.outlines, Command.outlines, hkeeps.roster]))
        ⟨history, hfollows.raise hkeeps.below⟩ rfl rfl
    · rw [hsave] at hmode
      have hincremental : mode = .incremental := hmode.resolve_right (by simp)
      subst hincremental
      have hkeeps := d.saveIncremental_keeps around.save
      rw [show d.saveIncremental around.save = _ from hsave] at hkeeps
      exact .of_moved hdocument rfl hkeeps.id (hedits.perm (by rw [Command.outlines, Command.outlines, hkeeps.roster]))
        ⟨history, hfollows.raise hkeeps.below⟩ rfl rfl

theorem continues_saveToChosenPath (h : app.Sound) (around : Surroundings) :
    Continues app (app.saveToChosenPath around) := by
  unfold saveToChosenPath
  split
  · exact .refl h
  split
  · exact .refl h
  · exact continues_saveTo h around _ _ (.inl rfl)

theorem continues_saveInPlace (h : app.Sound) (around : Surroundings) :
    Continues app (app.saveInPlace around) := by
  unfold saveInPlace
  split
  · exact .refl h
  split
  · exact continues_saveTo h around _ _ (.inl rfl)
  · exact continues_saveToChosenPath h around

/-- A compaction the user confirmed either succeeds, and takes the history with it, or costs
nothing. -/
theorem continues_confirmCompaction (h : app.Sound) (around : Surroundings) :
    Continues app (app.confirmCompaction around) := by
  unfold confirmCompaction
  split
  swap
  · exact .refl h
  have hanswered : Sound { app with compactionPending := false } := ⟨h.edits, h.follows⟩
  dsimp only
  split
  · exact .of_same h rfl rfl rfl rfl
  rename_i path hpath
  have hsaved := continues_saveTo hanswered around path .compacted
  rcases hresult : saveTo around path .compacted { app with compactionPending := false } with
    ⟨_ | _, saved⟩
  · rw [hresult] at hsaved
    have hcontinues := hsaved (.inr rfl)
    exact ⟨hcontinues.sound, hcontinues.document, hcontinues.exitPending, hcontinues.closeCommands⟩
  · -- the written document is the same one, and its history starts over
    unfold saveTo at hresult
    dsimp only at hresult
    split at hresult
    · cases hresult
    rename_i d hdocument
    split at hresult
    · rename_i d' hsave
      cases hresult
      have hid := (d.save_identity around.save .compacted).1
      rw [hsave] at hid
      exact .of_moved hdocument rfl hid (UndoStack.editsKnown_clear _ _)
        ⟨_, UndoStack.follows_clear _ _⟩ rfl rfl
    · cases hresult

/-! ### Editing -/

/-- Showing an edit touches the view, the caches and the messages alone. -/
theorem resnapshot_keeps (app : OpdfApp) :
    app.resnapshot =
      { app with surfaces := app.resnapshot.surfaces, lastError := app.resnapshot.lastError } := by
  unfold resnapshot
  split
  · rfl
  split <;> rfl

theorem continues_resnapshot (h : app.Sound) : Continues app app.resnapshot :=
  .of_same h (by rw [resnapshot_keeps]) (by rw [resnapshot_keeps]) (by rw [resnapshot_keeps])
    (by rw [resnapshot_keeps])

theorem Continues.trans {app'' : OpdfApp} (h : Continues app app') (h' : Continues app' app'') :
    Continues app app'' :=
  ⟨h'.sound, h'.document.trans h.document, h'.exitPending.trans h.exitPending,
    h'.closeCommands.trans h.closeCommands⟩

theorem continues_applyCommand (h : app.Sound) {command : Command EditableDocument} {page : PageId}
    (hc : command.edited = some page) (hatomic : command.Atomic)
    (hfits : command.mutations < 2 ^ 64) : Continues app (app.applyCommand command) := by
  unfold OpdfApp.applyCommand
  cases hdocument : app.document with
  | none => exact .refl h
  | some d =>
    obtain ⟨history, hfollows⟩ := h.follows d hdocument
    obtain ⟨hknown, hedited⟩ := UndoStack.editsKnown_applyCommand (h.edits d hdocument) hc
    have hfollows' := (hfollows.applyCommand hatomic hfits).1
    dsimp only
    rcases happly : app.undo.applyCommand command d with ⟨e | ⟨⟩, undo, d'⟩
    · rw [happly] at hknown hedited hfollows'
      exact .of_moved hdocument rfl hedited.id hknown ⟨_, hfollows'⟩ rfl rfl
    · rw [happly] at hknown hedited hfollows'
      have hmoved : Continues app { app with undo, document := some d' } :=
        .of_moved hdocument rfl hedited.id hknown ⟨_, hfollows'⟩ rfl rfl
      exact hmoved.trans (continues_resnapshot hmoved.sound)

theorem continues_undoEdit (h : app.Sound) : Continues app app.undoEdit := by
  unfold undoEdit
  cases hdocument : app.document with
  | none => exact .refl h
  | some d =>
    obtain ⟨history, hfollows⟩ := h.follows d hdocument
    obtain ⟨hknown, hedited⟩ := UndoStack.editsKnown_undoLast (h.edits d hdocument)
    have hfollows' := hfollows.undoLast.1
    dsimp only
    rcases hundo : app.undo.undoLast d with ⟨e | _ | _, undo, d'⟩
    · rw [hundo] at hknown hedited hfollows'
      exact .of_moved hdocument rfl hedited.id hknown ⟨_, hfollows'⟩ rfl rfl
    · rw [hundo] at hknown hedited hfollows'
      exact .of_moved hdocument rfl hedited.id hknown ⟨_, hfollows'⟩ rfl rfl
    · rw [hundo] at hknown hedited hfollows'
      have hmoved : Continues app { app with undo, document := some d' } :=
        .of_moved hdocument rfl hedited.id hknown ⟨_, hfollows'⟩ rfl rfl
      exact hmoved.trans (continues_resnapshot hmoved.sound)

theorem continues_redoEdit (h : app.Sound) : Continues app app.redoEdit := by
  unfold redoEdit
  cases hdocument : app.document with
  | none => exact .refl h
  | some d =>
    obtain ⟨history, hfollows⟩ := h.follows d hdocument
    obtain ⟨hknown, hedited⟩ := UndoStack.editsKnown_redoLast (h.edits d hdocument)
    have hfollows' := hfollows.redoLast.1
    dsimp only
    rcases hredo : app.undo.redoLast d with ⟨e | _ | _, undo, d'⟩
    · rw [hredo] at hknown hedited hfollows'
      exact .of_moved hdocument rfl hedited.id hknown ⟨_, hfollows'⟩ rfl rfl
    · rw [hredo] at hknown hedited hfollows'
      exact .of_moved hdocument rfl hedited.id hknown ⟨_, hfollows'⟩ rfl rfl
    · rw [hredo] at hknown hedited hfollows'
      have hmoved : Continues app { app with undo, document := some d' } :=
        .of_moved hdocument rfl hedited.id hknown ⟨_, hfollows'⟩ rfl rfl
      exact hmoved.trans (continues_resnapshot hmoved.sound)

theorem continues_deleteCurrentPage (h : app.Sound) : Continues app app.deleteCurrentPage := by
  unfold deleteCurrentPage
  split
  · exact .refl h
  · exact continues_applyCommand h rfl (.removePage _) (by simp [Command.mutations])

theorem continues_rotateCurrentPage (h : app.Sound) : Continues app app.rotateCurrentPage := by
  unfold rotateCurrentPage
  split
  · exact .refl h
  · exact continues_applyCommand h rfl (.setRotation _ _) (by simp [Command.mutations])

/-! ### Whole runs -/

variable [Pdfium]

/-- An event that may put another document on screen, or send the shell away. -/
def MayLeave : ShellEvent → Bool
  | .action .openDocument | .action .closeDocument | .action .quit
  | .action (.generateSynthetic _) | .confirmDiscard | .cancelDiscard => true
  | _ => false

/-- Every other event continues with the document that is open. -/
theorem continues_step (h : app.Sound) (event : ShellEvent × Surroundings)
    (hstays : MayLeave event.1 = false) : Continues app (app.step event) := by
  obtain ⟨event, around⟩ := event
  cases event with
  | action action =>
    cases action with
    | openDocument => cases hstays
    | save => exact continues_saveInPlace h around
    | saveAs => exact continues_saveToChosenPath h around
    | closeDocument => cases hstays
    | undo => exact continues_undoEdit h
    | redo => exact continues_redoEdit h
    | rotatePageClockwise => exact continues_rotateCurrentPage h
    | deletePage => exact continues_deleteCurrentPage h
    | compact =>
      simp only [step, applyAction, askToCompact]
      split
      · exact .refl h
      · exact .of_same h rfl rfl rfl rfl
    | quit => cases hstays
    | generateSynthetic pageCount => cases hstays
    | zoomIn | zoomOut | zoomActual | fitWidth | fitPage | firstPage | lastPage | nextPage
    | previousPage | toggleRail | rotateViewClockwise | rotateViewCounterClockwise | showAbout =>
      exact .of_same h rfl rfl rfl rfl
  | confirmDiscard => cases hstays
  | cancelDiscard => cases hstays
  | confirmCompaction => exact continues_confirmCompaction h around
  | cancelCompaction => exact .of_same h rfl rfl rfl rfl
  | surface event => exact .of_same h rfl rfl rfl rfl
  | work fault => exact .of_same h rfl rfl rfl rfl

omit [Pdfium] in
theorem sound_requestExit (h : app.Sound) (around : Surroundings) (intent : ExitIntent) :
    (app.requestExit around intent).Sound := by
  unfold requestExit mayAbandonDocument
  split
  · rename_i hmay
    split at hmay
    · cases hmay
    · cases hmay
      exact sound_carryOut h around intent
  · rename_i hmay
    split at hmay
    · cases hmay
      exact ⟨h.edits, h.follows⟩
    · cases hmay

theorem sound_step (h : app.Sound) (event : ShellEvent × Surroundings) : (app.step event).Sound := by
  obtain ⟨event, around⟩ := event
  by_cases hstays : MayLeave event = false
  · exact (continues_step h (event, around) hstays).sound
  cases event with
  | action action =>
    cases action with
    | openDocument => exact sound_requestExit h around .open
    | closeDocument => exact sound_requestExit h around .close
    | quit => exact sound_requestExit h around .quit
    | generateSynthetic pageCount =>
      simp only [step, applyAction, loadSynthetic]
      split
      · exact h
      · exact sound_installDocument _ _ _ _ app
    | _ => exact absurd rfl hstays
  | confirmDiscard =>
    simp only [step, confirmDiscard]
    split
    · exact h
    · have hanswered : Sound { app with exitPending := none } := ⟨h.edits, h.follows⟩
      exact sound_carryOut hanswered around _
  | cancelDiscard => exact ⟨h.edits, h.follows⟩
  | _ => exact absurd rfl hstays

theorem sound_run (h : app.Sound) (events : List (ShellEvent × Surroundings)) :
    (app.run events).Sound := by
  induction events generalizing app with
  | nil => exact h
  | cons event events ih => exact ih (sound_step h event)

omit [Pdfium] in
/-- A compaction that cannot be written leaves the queue as it is. -/
theorem undo_confirmCompaction {d d' : EditableDocument} {around : Surroundings} {e : Error}
    (hdocument : app.document = some d) (hfailed : d.saveCompacted around.save = (.error e, d')) :
    (app.confirmCompaction around).undo = app.undo := by
  unfold confirmCompaction
  split
  swap
  · rfl
  dsimp only
  split
  · rfl
  have hsave : d.save around.save .compacted = (.error e, d') := hfailed
  simp only [saveTo, hdocument, hsave]

/-- In every run of the shell, undoing and redoing succeed all the way down both stacks, every
queued entry edits a page that is shown or can be restored, and a compaction that fails costs
no entry. -/
theorem history_survives_saving (opened : OpenedDocument)
    (events : List (ShellEvent × Surroundings)) :
    let app := (OpdfApp.new opened).run events
    ∀ d, app.document = some d →
      (∃ undone, (app.undo.undoLast d).1 = .ok undone) ∧
      (∃ redone, (app.undo.redoLast d).1 = .ok redone) ∧
      app.undo.EditsKnown d ∧
      (∀ n ≤ app.undo.undoDepth, ∃ after, app.undo.undoTimes n d = some after) ∧
      (∀ n ≤ app.undo.redoDepth, ∃ after, app.undo.redoTimes n d = some after) ∧
      ∀ around e d', d.saveCompacted around.save = (.error e, d') →
        (app.confirmCompaction around).undo = app.undo := by
  intro app d hdocument
  have hsound : app.Sound := sound_run (sound_new opened) events
  obtain ⟨history, hfollows⟩ := hsound.follows d hdocument
  exact ⟨⟨_, hfollows.undoLast.2.1⟩, ⟨_, hfollows.redoLast.2.1⟩, hsound.edits d hdocument,
    fun _ hn => hfollows.undoTimes hn, fun _ hn => hfollows.redoTimes hn,
    fun _ _ _ hfailed => undo_confirmCompaction hdocument hfailed⟩

end OpdfApp
end Lopdf

namespace FailedCompaction

def fullDisk : SaveEnv :=
  ⟨fun _ => .ok (), fun _ => .error (.io "no space left on device"), .ok,
    fun _ => .error (.io "no space left on device")⟩

def around : Surroundings := ⟨none, none, fun path => .error (.io path), fullDisk, 7⟩

def events : List (ShellEvent × Surroundings) :=
  [.action .rotatePageClockwise, .action .compact, .confirmCompaction].map (·, around)

end FailedCompaction

namespace OpdfApp

open scoped ReferenceLopdf BlankPdfium

/-- The turn is still undone after the compaction failed. -/
theorem turn_is_undone_after_failed_compaction :
    ∃ opened d, openPdf 1 "plain.pdf" (.ok ImportFixture.plainFile) none = .ok opened ∧
      ((OpdfApp.new opened).run FailedCompaction.events).document = some d ∧
      ((OpdfApp.new opened).run FailedCompaction.events).undo.undoDepth = 1 ∧
      ∃ after, ((OpdfApp.new opened).run FailedCompaction.events).undo.undoTimes 1 d = some after :=
  ⟨_, _, rfl, rfl, rfl,
    (history_survives_saving _ FailedCompaction.events _ rfl).2.2.2.1 1 (Nat.le_refl 1)⟩

end OpdfApp
end OpdfEditor
