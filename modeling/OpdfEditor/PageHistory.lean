import OpdfEditor.ViewerSync

/-!
The editor as its user sees it: a place in a history of page lists. Deleting and turning the page on
screen are new places, undo and redo are steps along the history, only opening, closing and
compacting start it over, and everything else leaves it.
-/
namespace OpdfEditor

open UndoHistory (Cursor)
open UndoStack (Follows)

namespace Roster

variable {σ : Type} [HasPageId σ] {r : Roster σ} {slot : σ} {index : Nat}

/-- A slot is found by its identity where it stands. -/
theorem position_of_getElem? (h : r.live[index]? = some slot) :
    position (pageId slot) r.live = some index := by
  obtain ⟨hlt, hslot⟩ := List.getElem?_eq_some_iff.1 h
  have hsplit : r.live = r.live.take index ++ slot :: r.live.drop (index + 1) := by
    rw [← hslot, List.getElem_cons_drop, List.take_append_drop]
  have hposition := position_live hsplit
  rwa [List.length_take, Nat.min_eq_left hlt.le] at hposition

/-- The page at a place can be removed. -/
theorem removeSlot_of_getElem? (h : r.live[index]? = some slot) :
    ∃ r', r.removeSlot (pageId slot) = .ok r' ∧ r'.live = r.live.eraseIdx index := by
  have hposition := position_of_getElem? h
  unfold removeSlot
  split
  · rename_i hnone
    rw [hposition] at hnone
    cases hnone
  · rename_i found hfound
    obtain rfl := Option.some.inj (hposition.symm.trans hfound)
    exact ⟨_, rfl, rfl⟩

/-- So can its slot be rewritten. -/
theorem modifySlot_of_getElem? (h : r.live[index]? = some slot) (f : σ → σ)
    (hf : ∀ s, pageId (f s) = pageId s) :
    ∃ r', r.modifySlot (pageId slot) f hf = .ok r' ∧ r'.live = r.live.modify index f := by
  unfold modifySlot
  rw [position_of_getElem? h]
  exact ⟨_, rfl, rfl⟩

end Roster

/-- Changing one element is a matter of what that element becomes. -/
theorem modify_congr {α : Type} {xs : List α} {index : Nat} {x : α} {f g : α → α}
    (h : xs[index]? = some x) (hfg : f x = g x) : xs.modify index f = xs.modify index g := by
  refine List.ext_getElem? fun i => ?_
  rw [List.getElem?_modify, List.getElem?_modify]
  by_cases hi : index = i
  · subst hi
    rw [h]
    exact congrArg some ((if_pos rfl).trans (hfg.trans (if_pos rfl).symm))
  · simp only [hi, if_false]

def PageInfo.turned (page : PageInfo) : PageInfo :=
  page.withRotation (page.rotation.rotatedBy .quarter)

/-- Where an event takes the history, if it does not start it over. -/
def WindowEvent.place (current : Option Nat) (h : Cursor (List PageInfo)) :
    WindowEvent → Cursor (List PageInfo)
  | .action .deletePage =>
    (current.map fun index => h.push defaultUndoLimit (h.present.eraseIdx index)).getD h
  | .action .rotatePageClockwise =>
    (current.map fun index =>
      h.push defaultUndoLimit (h.present.modify index PageInfo.turned)).getD h
  | .action .undo => h.back
  | .action .redo => h.forward
  | _ => h

/-- An event that can put another document on screen, or none. -/
def WindowEvent.opens : WindowEvent → Bool
  | .action .openDocument | .action .closeDocument | .action (.generateSynthetic _)
  | .confirmDiscard | .saveFirst => true
  | _ => false

section Lopdf

variable [Lopdf]

namespace OpdfApp

variable {app app' : OpdfApp} {h : Cursor (List PageInfo)}

/-- The shell stands at this place: what is on screen is the present, and what is queued leads
through the past and the future. -/
structure StandsAt (app : OpdfApp) (h : Cursor (List PageInfo)) : Prop where
  inStep : app.InStep
  limit : app.undo.limit = defaultUndoLimit
  follows : ∀ d, app.document = some d → Follows app.undo d h
  closed : app.document = none → h = ⟨[], [], []⟩ ∧ app.undo = .withLimit defaultUndoLimit

/-- What is on screen is the present. -/
theorem StandsAt.shown (hs : app.StandsAt h) : app.surfaces.viewer.snapshot.pages = h.present := by
  have hdraws := hs.inStep.draws
  cases hdocument : app.document with
  | none =>
    rw [hdocument] at hdraws
    obtain ⟨id, hsnapshot⟩ := hdraws
    rw [hsnapshot, (hs.closed hdocument).1]
  | some d =>
    rw [hdocument] at hdraws
    have hsnapshot : app.surfaces.viewer.snapshot = snapshotOf d := by
      simpa [Draws, of_eq_snapshotOf] using hdraws.symm
    rw [hsnapshot]
    exact (hs.follows d hdocument).tracks.present

/-- The depths are the lengths of past and future. -/
theorem StandsAt.depths (hs : app.StandsAt h) :
    app.undo.undoDepth = h.past.length ∧ app.undo.redoDepth = h.future.length := by
  cases hdocument : app.document with
  | none =>
    obtain ⟨rfl, hundo⟩ := hs.closed hdocument
    rw [hundo]
    exact ⟨rfl, rfl⟩
  | some d =>
    have htracks := (hs.follows d hdocument).tracks
    exact ⟨htracks.undo_length.symm, htracks.redo_length.symm⟩

/-! ### What leaves the history -/

/-- The history is kept, over a document that shows the same and lost nothing. -/
structure Kept (app app' : OpdfApp) : Prop where
  undo : app'.undo = app.undo
  document : Option.Rel Below app.document app'.document

theorem kept_of_same (hundo : app'.undo = app.undo) (hdocument : app'.document = app.document) :
    Kept app app' := by
  refine ⟨hundo, ?_⟩
  rw [hdocument]
  cases app.document with
  | none => exact .none
  | some d => exact .some (.refl d)

theorem Kept.trans {app'' : OpdfApp} (hkept : Kept app app') (hkept' : Kept app' app'') :
    Kept app app'' := by
  refine ⟨hkept'.undo.trans hkept.undo, ?_⟩
  have hbelow := hkept.document
  have hbelow' := hkept'.document
  generalize app.document = document, app'.document = document',
    app''.document = document'' at hbelow hbelow' ⊢
  cases hbelow with
  | none =>
    cases hbelow'
    exact .none
  | some hbelow =>
    cases hbelow' with
    | some hbelow' => exact .some (hbelow.trans hbelow')

/-- An event that keeps the history leaves the shell at its place. -/
theorem StandsAt.kept (hs : app.StandsAt h) (hinStep : app'.InStep) (hkept : Kept app app') :
    app'.StandsAt h := by
  refine ⟨hinStep, by rw [hkept.undo, hs.limit], fun d' hdocument' => ?_, fun hdocument' => ?_⟩
  · have hbelow := hkept.document
    rw [hdocument'] at hbelow
    cases hdocument : app.document with
    | none =>
      rw [hdocument] at hbelow
      cases hbelow
    | some d =>
      rw [hdocument] at hbelow
      cases hbelow with
      | some hbelow =>
        rw [hkept.undo]
        exact (hs.follows d hdocument).raise hbelow
  · have hbelow := hkept.document
    rw [hdocument'] at hbelow
    cases hdocument : app.document with
    | none =>
      obtain ⟨hplace, hundo⟩ := hs.closed hdocument
      exact ⟨hplace, hkept.undo.trans hundo⟩
    | some d =>
      rw [hdocument] at hbelow
      cases hbelow

/-- With both stacks dropped, a history of what is on screen begins. -/
theorem standsAt_cleared (hinStep : app'.InStep) (hlimit : app.undo.limit = defaultUndoLimit)
    (hundo : app'.undo = app.undo.clear) :
    app'.StandsAt ⟨[], app'.surfaces.viewer.snapshot.pages, []⟩ := by
  have hempty : app'.undo = .withLimit defaultUndoLimit := by
    rw [hundo, ← hlimit]
    rfl
  have hdraws := hinStep.draws
  refine ⟨hinStep, by rw [hempty]; rfl, fun d hdocument => ?_, fun hdocument => ?_⟩
  · rw [hdocument] at hdraws
    have hsnapshot : app'.surfaces.viewer.snapshot = snapshotOf d := by
      simpa [Draws, of_eq_snapshotOf] using hdraws.symm
    rw [hsnapshot, hempty]
    exact .start defaultUndoLimit d
  · rw [hdocument] at hdraws
    obtain ⟨id, hsnapshot⟩ := hdraws
    exact ⟨by rw [hsnapshot], hempty⟩

/-- A save keeps the history, unless it is a compaction that goes through. -/
theorem kept_saveTo (around : Surroundings) (path : String) (mode : SaveMode) (app : OpdfApp)
    (hmode : mode = .incremental ∨ (app.saveTo around path mode).1 = false) :
    Kept app (app.saveTo around path mode).2 := by
  unfold saveTo at hmode ⊢
  cases hdocument : app.document with
  | none => exact kept_of_same rfl rfl
  | some d =>
    rw [hdocument] at hmode
    dsimp only at hmode ⊢
    have hkeeps : ∀ outcome d', d.save around.save mode = (outcome, d') →
        (mode = .incremental ∨ ∃ e, outcome = .error e) → EditableDocument.Keeps d d' := by
      rintro outcome d' hsave (rfl | ⟨e, rfl⟩)
      · have hincremental := d.saveIncremental_keeps around.save
        rwa [show d.saveIncremental around.save = _ from hsave] at hincremental
      · cases mode with
        | incremental =>
          have hincremental := d.saveIncremental_keeps around.save
          rwa [show d.saveIncremental around.save = _ from hsave] at hincremental
        | compacted => exact EditableDocument.saveCompacted_error_keeps hsave
    rcases hsave : d.save around.save mode with ⟨e | ⟨⟩, d'⟩
    · refine ⟨rfl, ?_⟩
      rw [hdocument]
      exact .some (hkeeps _ _ hsave (.inr ⟨e, rfl⟩)).below
    · rw [hsave] at hmode
      refine ⟨rfl, ?_⟩
      rw [hdocument]
      exact .some (hkeeps _ _ hsave (.inl (hmode.resolve_right (by simp)))).below

theorem kept_saveToChosenPath (around : Surroundings) (app : OpdfApp) :
    Kept app (app.saveToChosenPath around) := by
  unfold saveToChosenPath
  split
  · exact kept_of_same rfl rfl
  split
  · exact kept_of_same rfl rfl
  · exact kept_saveTo around _ _ app (.inl rfl)

theorem kept_saveInPlace (around : Surroundings) (app : OpdfApp) :
    Kept app (app.saveInPlace around) := by
  unfold saveInPlace
  split
  · exact kept_of_same rfl rfl
  split
  · exact kept_saveTo around _ _ app (.inl rfl)
  · exact kept_saveToChosenPath around app

/-! ### What starts it over -/

/-- The history is kept, or both stacks are dropped. -/
def KeptOrCleared (app app' : OpdfApp) : Prop := Kept app app' ∨ app'.undo = app.undo.clear

/-- A compaction keeps it or drops it. -/
theorem keptOrCleared_confirmCompaction (around : Surroundings) (app : OpdfApp) :
    KeptOrCleared app (app.confirmCompaction around) := by
  unfold confirmCompaction
  split
  swap
  · exact .inl (kept_of_same rfl rfl)
  dsimp only
  split
  · exact .inl (kept_of_same rfl rfl)
  rename_i path _
  have hkept := kept_saveTo around path .compacted { app with compactionPending := false }
  have hundo : ∀ path mode app, (saveTo around path mode app).2.undo = app.undo := by
    intro path mode app
    unfold saveTo
    split
    · rfl
    · split <;> rfl
  rcases hresult : saveTo around path .compacted { app with compactionPending := false } with
    ⟨_ | _, saved⟩
  · rw [hresult] at hkept
    exact .inl ⟨(hkept (.inr rfl)).undo, (hkept (.inr rfl)).document⟩
  · have hsaved := hundo path .compacted { app with compactionPending := false }
    rw [hresult] at hsaved
    exact .inr (congrArg UndoStack.clear hsaved)

theorem keptOrCleared_openChosenPath (around : Surroundings) (app : OpdfApp) :
    KeptOrCleared app (app.openChosenPath around) := by
  unfold openChosenPath
  split
  · exact .inl (kept_of_same rfl rfl)
  · unfold absorbOpen
    split
    · exact .inr rfl
    · exact .inl (kept_of_same rfl rfl)

theorem keptOrCleared_carryOut (around : Surroundings) (intent : ExitIntent) (app : OpdfApp) :
    KeptOrCleared app (app.carryOut around intent) := by
  cases intent with
  | close => exact .inr rfl
  | quit => exact .inl (kept_of_same rfl rfl)
  | «open» => exact keptOrCleared_openChosenPath around app

/-- So does an exit that is asked for. -/
theorem keptOrCleared_requestExit (around : Surroundings) (intent : ExitIntent) (app : OpdfApp) :
    KeptOrCleared app (app.requestExit around intent) := by
  unfold requestExit mayAbandonDocument
  by_cases hunsaved : app.hasUnsavedChanges = true
  · rw [if_pos hunsaved]
    exact .inl (kept_of_same rfl rfl)
  · rw [if_neg hunsaved]
    exact keptOrCleared_carryOut around intent app

theorem keptOrCleared_confirmDiscard (around : Surroundings) (app : OpdfApp) :
    KeptOrCleared app (app.confirmDiscard around) := by
  unfold confirmDiscard
  split
  · exact .inl (kept_of_same rfl rfl)
  · rename_i intent _
    rcases keptOrCleared_carryOut around intent { app with exitPending := none } with hkept | hcleared
    · exact .inl ⟨hkept.undo, hkept.document⟩
    · exact .inr hcleared

theorem keptOrCleared_saveFirst (around : Surroundings) (app : OpdfApp) :
    KeptOrCleared app (app.saveFirst around) := by
  have hsaved := kept_saveInPlace around app
  unfold saveFirst
  split
  · exact .inl (kept_of_same rfl rfl)
  dsimp only
  split
  · exact .inl ⟨hsaved.undo, hsaved.document⟩
  · rcases keptOrCleared_confirmDiscard around (app.saveInPlace around) with hkept | hcleared
    · exact .inl (hsaved.trans hkept)
    · exact .inr (by rw [hcleared, hsaved.undo])

/-! ### What moves along it -/

/-- Putting an edited document on screen says nothing. -/
theorem lastError_resnapshot (app : OpdfApp) : app.resnapshot.lastError = app.lastError := by
  unfold resnapshot
  split
  · rfl
  · rw [of_eq_snapshotOf]

theorem applyCommand_of_run {command : Command EditableDocument} {page : PageId}
    (hedits : command.edited = some page) {d d' : EditableDocument} {inverse : Command EditableDocument}
    (hrun : command.apply d = (.ok inverse, d')) (s : UndoStack EditableDocument) :
    (s.applyCommand command d).1 = .ok () ∧ (s.applyCommand command d).2.2 = d' ∧
      UndoStack.records command d = true := by
  have hrevision := (Command.edit_ok hedits hrun).2.2.2.1
  have hmoved : Document.revision d' ≠ Document.revision d := by
    rw [hrevision]
    simp
  unfold UndoStack.applyCommand UndoStack.records
  rw [hrun]
  dsimp only
  rw [if_neg hmoved]
  exact ⟨rfl, rfl, by simpa using hmoved⟩

/-- A document with a history that leads through this place. -/
theorem standsAt_of_follows (hinStep : app'.InStep) (hlimit : app'.undo.limit = defaultUndoLimit)
    {d : EditableDocument} (hdocument : app'.document = some d) (hfollows : Follows app'.undo d h) :
    app'.StandsAt h := by
  refine ⟨hinStep, hlimit, fun d' hdocument' => ?_, fun hclosed => ?_⟩
  · obtain rfl := Option.some.inj (hdocument.symm.trans hdocument')
    exact hfollows
  · rw [hdocument] at hclosed
    cases hclosed

/-- What an edit, an undo or a redo leaves is put on screen at its place, without a word. -/
theorem standsAt_resnapshot {undo : UndoStack EditableDocument} {d : EditableDocument}
    (hinStep : (resnapshot { app with undo, document := some d }).InStep)
    (hlimit : undo.limit = defaultUndoLimit) (hfollows : Follows undo d h) :
    (resnapshot { app with undo, document := some d }).StandsAt h ∧
    (resnapshot { app with undo, document := some d }).lastError = app.lastError := by
  refine ⟨standsAt_of_follows hinStep ?_ (by rw [resnapshot_keeps]) ?_, lastError_resnapshot _⟩
  · rw [resnapshot_keeps]
    exact hlimit
  · rw [resnapshot_keeps]
    exact hfollows

/-- A command that runs is a new place. -/
theorem StandsAt.applyCommand (hs : app.StandsAt h) {command : Command EditableDocument}
    {page : PageId} (hedits : command.edited = some page) (hatomic : command.Atomic)
    (hfits : command.mutations < 2 ^ 64) {d d' : EditableDocument} (hdocument : app.document = some d)
    {inverse : Command EditableDocument} (hrun : command.apply d = (.ok inverse, d')) :
    (app.applyCommand command).StandsAt (h.push defaultUndoLimit (UndoStack.pageList d')) ∧
    (app.applyCommand command).lastError = app.lastError := by
  have hinStep : (app.applyCommand command).InStep :=
    hs.inStep.redraws (continues_applyCommand hs.inStep.sound hedits hatomic hfits).sound
      (redraws_applyCommand hs.inStep.sound hedits)
  obtain ⟨hok, hafter, hrecords⟩ := applyCommand_of_run hedits hrun app.undo
  obtain ⟨hfollows, hlimit⟩ := (hs.follows d hdocument).applyCommand hatomic hfits
  rw [hafter, hrecords, if_pos rfl, hs.limit] at hfollows
  have happlied : app.applyCommand command =
      resnapshot { app with undo := (app.undo.applyCommand command d).2.1, document := some d' } := by
    unfold OpdfApp.applyCommand
    rw [hdocument]
    dsimp only
    rcases hresult : app.undo.applyCommand command d with ⟨outcome, undo, after⟩
    rw [hresult] at hok hafter
    obtain rfl : outcome = .ok () := hok
    obtain rfl : after = d' := hafter
    rfl
  rw [happlied] at hinStep ⊢
  exact standsAt_resnapshot hinStep (hlimit.trans hs.limit) hfollows

/-- An undo is a step back. -/
theorem StandsAt.undoEdit (hs : app.StandsAt h) :
    app.undoEdit.StandsAt h.back ∧ app.undoEdit.lastError = app.lastError := by
  have hinStep : app.undoEdit.InStep :=
    hs.inStep.redraws (continues_undoEdit hs.inStep.sound).sound (redraws_undoEdit hs.inStep.sound)
  unfold OpdfApp.undoEdit at hinStep ⊢
  cases hdocument : app.document with
  | none =>
    obtain ⟨rfl, -⟩ := hs.closed hdocument
    exact ⟨hs, rfl⟩
  | some d =>
    obtain ⟨hfollows, hanswer, hlimit⟩ := (hs.follows d hdocument).undoLast
    rw [hdocument] at hinStep
    dsimp only at hinStep ⊢
    rcases hresult : app.undo.undoLast d with ⟨outcome, undo, d'⟩
    rw [hresult] at hfollows hanswer hlimit hinStep
    obtain rfl : outcome = .ok h.canGoBack := hanswer
    cases hback : h.canGoBack with
    | false =>
      rw [hback] at hinStep
      exact ⟨standsAt_of_follows hinStep (hlimit.trans hs.limit) rfl hfollows, rfl⟩
    | true =>
      rw [hback] at hinStep
      exact standsAt_resnapshot hinStep (hlimit.trans hs.limit) hfollows

/-- A redo is a step forward. -/
theorem StandsAt.redoEdit (hs : app.StandsAt h) :
    app.redoEdit.StandsAt h.forward ∧ app.redoEdit.lastError = app.lastError := by
  have hinStep : app.redoEdit.InStep :=
    hs.inStep.redraws (continues_redoEdit hs.inStep.sound).sound (redraws_redoEdit hs.inStep.sound)
  unfold OpdfApp.redoEdit at hinStep ⊢
  cases hdocument : app.document with
  | none =>
    obtain ⟨rfl, -⟩ := hs.closed hdocument
    exact ⟨hs, rfl⟩
  | some d =>
    obtain ⟨hfollows, hanswer, hlimit⟩ := (hs.follows d hdocument).redoLast
    rw [hdocument] at hinStep
    dsimp only at hinStep ⊢
    rcases hresult : app.undo.redoLast d with ⟨outcome, undo, d'⟩
    rw [hresult] at hfollows hanswer hlimit hinStep
    obtain rfl : outcome = .ok h.canGoForward := hanswer
    cases hforward : h.canGoForward with
    | false =>
      rw [hforward] at hinStep
      exact ⟨standsAt_of_follows hinStep (hlimit.trans hs.limit) rfl hfollows, rfl⟩
    | true =>
      rw [hforward] at hinStep
      exact standsAt_resnapshot hinStep (hlimit.trans hs.limit) hfollows

/-! ### The page on screen -/

/-- Either no page is on screen and an edit of it does nothing, or it is the one at the current
index of the present, live in the open document. -/
theorem StandsAt.currentPage_cases (hs : app.StandsAt h) :
    app.surfaces.viewer.currentPage = none ∧ app.currentPage = none ∨
    ∃ index page d, app.surfaces.viewer.currentPage = some index ∧ app.currentPage = some page ∧
      app.document = some d ∧ (roster d).live = h.present ∧ (roster d).live[index]? = some page := by
  cases hindex : app.surfaces.viewer.currentPage with
  | none => exact .inl ⟨rfl, by rw [OpdfApp.currentPage, hindex, Option.bind_none]⟩
  | some index =>
    have hlt := hs.inStep.onPage.within index hindex
    have hget := List.getElem?_eq_getElem hlt
    cases hdocument : app.document with
    | none =>
      rw [hs.shown, (hs.closed hdocument).1] at hlt
      cases hlt
    | some d =>
      have hlive : (roster d).live = h.present := (hs.follows d hdocument).tracks.present
      refine .inr ⟨index, _, d, rfl, by rw [OpdfApp.currentPage, hindex, Option.bind_some, hget], rfl,
        hlive, ?_⟩
      rw [hlive, ← hs.shown, hget]

/-- Deleting the current page makes a new present. -/
theorem StandsAt.deleteCurrentPage (hs : app.StandsAt h) :
    app.deleteCurrentPage.StandsAt
      (WindowEvent.place app.surfaces.viewer.currentPage h (.action .deletePage)) ∧
    app.deleteCurrentPage.lastError = app.lastError := by
  unfold OpdfApp.deleteCurrentPage
  rcases hs.currentPage_cases with ⟨hindex, hpage⟩ | ⟨index, page, d, hindex, hpage, hdocument, hlive, hget⟩
  · rw [hindex, hpage]
    exact ⟨hs, rfl⟩
  · rw [hindex, hpage]
    obtain ⟨r, hremove, herased⟩ := Roster.removeSlot_of_getElem? hget
    have hfound : (roster d).findIndex page.id = .ok index := by
      rw [Roster.findIndex, show page.id = pageId page from rfl, Roster.position_of_getElem? hget]
    obtain ⟨d', hrun, hmoves⟩ := Command.applyRemovePage_run hfound hremove
    have hstands := hs.applyCommand rfl (.removePage page.id) (by simp [Command.mutations]) hdocument
      ((congrFun (Command.apply_removePage page.id) d).trans hrun)
    have hpages : UndoStack.pageList d' = h.present.eraseIdx index := by
      rw [UndoStack.pageList, hmoves.roster, herased, hlive]
    rwa [hpages] at hstands

/-- So does turning it. -/
theorem StandsAt.rotateCurrentPage (hs : app.StandsAt h) :
    app.rotateCurrentPage.StandsAt
      (WindowEvent.place app.surfaces.viewer.currentPage h (.action .rotatePageClockwise)) ∧
    app.rotateCurrentPage.lastError = app.lastError := by
  unfold OpdfApp.rotateCurrentPage
  rcases hs.currentPage_cases with ⟨hindex, hpage⟩ | ⟨index, page, d, hindex, hpage, hdocument, hlive, hget⟩
  · rw [hindex, hpage]
    exact ⟨hs, rfl⟩
  · rw [hindex, hpage]
    obtain ⟨r, hmodify, hturned⟩ := Roster.modifySlot_of_getElem? hget
      (PageInfo.withRotation (page.rotation.rotatedBy .quarter)) (fun _ => rfl)
    have hfound : (roster d).findSlot page.id = .ok page :=
      Roster.findSlot_eq_ok.2 ⟨List.mem_of_getElem? hget, rfl⟩
    obtain ⟨d', hrun, hmoves⟩ := Command.applySetRotation_run hfound hmodify
    have hstands := hs.applyCommand rfl (.setRotation page.id (page.rotation.rotatedBy .quarter))
      (by simp [Command.mutations]) hdocument ((congrFun (Command.apply_setRotation _ _) d).trans hrun)
    have hpages : UndoStack.pageList d' = h.present.modify index PageInfo.turned := by
      rw [UndoStack.pageList, hmoves.roster, hturned, ← hlive]
      exact modify_congr hget rfl
    rwa [hpages] at hstands

/-! ### Whole runs -/

/-- A document that is opened starts a history. -/
theorem standsAt_new {opened : OpenedDocument} (hopened : opened.Matches) :
    (OpdfApp.new opened).StandsAt ⟨[], opened.snapshot.pages, []⟩ := by
  have hlimit : (OpdfApp.new opened).undo.limit = defaultUndoLimit := rfl
  exact standsAt_cleared (inStep_new hopened) hlimit rfl

variable [Pdfium]

/-- Where an event leads from a place: along the history, or to the start of another one, that of
the pages a document was opened with or of the pages a compaction was asked for on. -/
inductive MovesTo (app : OpdfApp) (event : WindowEvent × Surroundings)
    (h : Cursor (List PageInfo)) : Cursor (List PageInfo) → Prop
  | along : MovesTo app event h (event.1.place app.surfaces.viewer.currentPage h)
  | opened : event.1.opens = true →
    MovesTo app event h ⟨[], (app.handle event).surfaces.viewer.snapshot.pages, []⟩
  | compacted : event.1 = .confirmCompaction → MovesTo app event h ⟨[], h.present, []⟩

/-- Where the events lead, one after the other. -/
inductive LeadsTo : OpdfApp → Cursor (List PageInfo) → List (WindowEvent × Surroundings) →
    Cursor (List PageInfo) → Prop
  | nil {app : OpdfApp} {h : Cursor (List PageInfo)} : LeadsTo app h [] h
  | cons {app : OpdfApp} {h h' h'' : Cursor (List PageInfo)} {event : WindowEvent × Surroundings}
    {events : List (WindowEvent × Surroundings)} (first : MovesTo app event h h')
    (rest : LeadsTo (app.handle event) h' events h'') : LeadsTo app h (event :: events) h''

theorem StandsAt.opened (hs : app.StandsAt h) {event : WindowEvent × Surroundings}
    (hopens : event.1.opens = true) (hinStep : (app.handle event).InStep)
    (houtcome : KeptOrCleared app (app.handle event))
    (hplace : event.1.place app.surfaces.viewer.currentPage h = h) :
    ∃ h', MovesTo app event h h' ∧ (app.handle event).StandsAt h' := by
  rcases houtcome with hkept | hcleared
  · exact ⟨_, .along, hplace.symm ▸ hs.kept hinStep hkept⟩
  · exact ⟨_, .opened hopens, standsAt_cleared hinStep hs.limit hcleared⟩

/-- One event. -/
theorem StandsAt.handle (hs : app.StandsAt h) (event : WindowEvent × Surroundings)
    (hopens : event.2.OpensMatching) :
    ∃ h', MovesTo app event h h' ∧ (app.handle event).StandsAt h' := by
  have hinStep := inStep_handle hs.inStep event hopens
  have hkeeps : event.1.place app.surfaces.viewer.currentPage h = h → Kept app (app.handle event) →
      ∃ h', MovesTo app event h h' ∧ (app.handle event).StandsAt h' := fun hplace hkept =>
    ⟨_, .along, hplace.symm ▸ hs.kept hinStep hkept⟩
  obtain ⟨event, around⟩ := event
  cases event with
  | action action =>
    cases action with
    | openDocument => exact hs.opened rfl hinStep (keptOrCleared_requestExit around .open app) rfl
    | closeDocument => exact hs.opened rfl hinStep (keptOrCleared_requestExit around .close app) rfl
    | generateSynthetic pageCount =>
      refine hs.opened rfl hinStep ?_ rfl
      simp only [OpdfApp.handle, applyAction, loadSynthetic]
      split
      · exact .inl (kept_of_same rfl rfl)
      · exact .inr rfl
    | deletePage => exact ⟨_, .along, hs.deleteCurrentPage.1⟩
    | rotatePageClockwise => exact ⟨_, .along, hs.rotateCurrentPage.1⟩
    | undo => exact ⟨_, .along, hs.undoEdit.1⟩
    | redo => exact ⟨_, .along, hs.redoEdit.1⟩
    | save => exact hkeeps rfl (kept_saveInPlace around app)
    | saveAs => exact hkeeps rfl (kept_saveToChosenPath around app)
    | quit =>
      refine hkeeps rfl ?_
      simp only [OpdfApp.handle, applyAction, requestExit, mayAbandonDocument]
      by_cases hunsaved : app.hasUnsavedChanges = true
      · rw [if_pos hunsaved]
        exact kept_of_same rfl rfl
      · rw [if_neg hunsaved]
        exact kept_of_same rfl rfl
    | compact =>
      refine hkeeps rfl ?_
      simp only [OpdfApp.handle, applyAction, askToCompact]
      split <;> exact kept_of_same rfl rfl
    | showAbout | zoomIn | zoomOut | zoomActual | fitWidth | fitPage | firstPage | lastPage | nextPage
    | previousPage | toggleRail | rotateViewClockwise | rotateViewCounterClockwise =>
      exact hkeeps rfl (kept_of_same rfl rfl)
  | confirmDiscard => exact hs.opened rfl hinStep (keptOrCleared_confirmDiscard around app) rfl
  | saveFirst => exact hs.opened rfl hinStep (keptOrCleared_saveFirst around app) rfl
  | confirmCompaction =>
    rcases keptOrCleared_confirmCompaction around app with hkept | hcleared
    · exact hkeeps rfl hkept
    · have hstands := standsAt_cleared hinStep hs.limit hcleared
      have hsame : (app.handle (.confirmCompaction, around)).surfaces.viewer.snapshot.pages =
          h.present := by
        rw [← hs.shown]
        exact congrArg (fun surfaces => surfaces.viewer.snapshot.pages)
          (saved_confirmCompaction around app).surfaces
      rw [hsame] at hstands
      exact ⟨_, .compacted rfl, hstands⟩
  | showCanvas pixelsPerPoint maxTextureSide scrollOffsetPx viewportSizePx =>
    refine hkeeps rfl ?_
    simp only [OpdfApp.handle]
    split <;> exact kept_of_same rfl rfl
  | _ => exact hkeeps rfl (kept_of_same rfl rfl)

/-- A whole run. -/
theorem StandsAt.handleAll (hs : app.StandsAt h) {events : List (WindowEvent × Surroundings)}
    (hopens : ∀ event ∈ events, event.2.OpensMatching) :
    ∃ h', LeadsTo app h events h' ∧ (app.handleAll events).StandsAt h' := by
  induction events generalizing app h with
  | nil => exact ⟨h, .nil, hs⟩
  | cons event events ih =>
    obtain ⟨hfirst, hrest⟩ := List.forall_mem_cons.1 hopens
    obtain ⟨h₁, hmoves, hs₁⟩ := hs.handle event hfirst
    obtain ⟨h₂, hleads, hs₂⟩ := ih hs₁ hrest
    exact ⟨h₂, .cons hmoves hleads, hs₂⟩

/-- In every session what is on screen is the present of a history of page lists, and the depths of
undo and redo are the lengths of its past and future. Deleting and turning the page on screen are
new places in it, undo and redo are steps along it, only opening, closing and compacting start it
over, and nothing else moves it; and no edit, undo or redo ever reports a failure. -/
theorem editor_is_a_place_in_a_history (opened : OpenedDocument) (hopened : opened.Matches)
    (events : List (WindowEvent × Surroundings)) (hopens : ∀ event ∈ events, event.2.OpensMatching) :
    let app := (OpdfApp.new opened).handleAll events
    ∃ h, LeadsTo (OpdfApp.new opened) ⟨[], opened.snapshot.pages, []⟩ events h ∧
      app.surfaces.viewer.snapshot.pages = h.present ∧
      app.undo.undoDepth = h.past.length ∧ app.undo.redoDepth = h.future.length ∧
      app.deleteCurrentPage.lastError = app.lastError ∧ app.rotateCurrentPage.lastError = app.lastError ∧
      app.undoEdit.lastError = app.lastError ∧ app.redoEdit.lastError = app.lastError := by
  intro app
  obtain ⟨h, hleads, hs⟩ := (standsAt_new hopened).handleAll hopens
  exact ⟨h, hleads, hs.shown, hs.depths.1, hs.depths.2, hs.deleteCurrentPage.2,
    hs.rotateCurrentPage.2, hs.undoEdit.2, hs.redoEdit.2⟩

end OpdfApp
end Lopdf

namespace OpdfApp

open scoped ReferenceLopdf BlankPdfium

/-- After a deletion, a compaction that fails and an undo, the session is back where it began, with
the deletion ahead of it. -/
theorem deletion_is_ahead_again :
    ∃ opened, openPdf 1 "plain.pdf" (.ok ImportFixture.plainFile) none = .ok opened ∧
      let app := (OpdfApp.new opened).handleAll FailedCompaction.session
      ∃ h, LeadsTo (OpdfApp.new opened) ⟨[], opened.snapshot.pages, []⟩ FailedCompaction.session h ∧
        app.surfaces.viewer.snapshot.pages = h.present ∧ h.past.length = 0 ∧ h.future.length = 1 := by
  have hopened : openPdf 1 "plain.pdf" (.ok ImportFixture.plainFile) none = .ok _ := rfl
  have hopens : ∀ event ∈ FailedCompaction.session, event.2.OpensMatching := by
    intro event hevent
    obtain ⟨kind, -, rfl⟩ := List.mem_map.1 hevent
    exact FailedCompaction.around_opensMatching
  refine ⟨_, hopened, ?_⟩
  obtain ⟨h, hleads, hshown, hpast, hfuture, -⟩ :=
    editor_is_a_place_in_a_history _ (matches_openPdf hopened) FailedCompaction.session hopens
  exact ⟨h, hleads, hshown, hpast.symm.trans (by decide +kernel), hfuture.symm.trans (by decide +kernel)⟩

end OpdfApp
end OpdfEditor
