import OpdfEditor.ShellHistory

/-!
What becomes of unsaved edits: as long as no synthetic document is generated over them
and no document comes or goes behind a prompt that is still open, the only way out of a
document with unsaved edits is the answer to a prompt raised for it.
-/
namespace OpdfEditor

section Lopdf

variable [Lopdf]

namespace OpdfApp

def documentId (app : OpdfApp) : Option DocumentId := app.document.map Document.id

/-- The document on screen was replaced or closed, or the window was told to close. -/
def Abandons (app app' : OpdfApp) : Prop :=
  app'.documentId ≠ app.documentId ∨ app'.closeCommands ≠ app.closeCommands

instance (app app' : OpdfApp) : Decidable (app.Abandons app') :=
  inferInstanceAs (Decidable (_ ∨ _))

/-- Whether the dialog and the opener put another document on screen. -/
def opens (around : Surroundings) : Bool :=
  match around.choosePdf with
  | none => false
  | some path => (around.openPath path).isOk

/-- A step that neither generates a document over unsaved edits nor replaces or closes one while
an earlier prompt is open. -/
def Guarded (app : OpdfApp) (event : ShellEvent × Surroundings) : Prop :=
  match event.1 with
  | .action (.generateSynthetic _) => app.hasUnsavedChanges = false ∧ app.exitPending = none
  | .action .openDocument =>
    app.hasUnsavedChanges = true ∨ app.exitPending = none ∨ opens event.2 = false
  | .action .closeDocument => app.hasUnsavedChanges = true ∨ app.exitPending = none
  | _ => True

variable {app app' : OpdfApp}

@[simp] theorem installDocument_exitPending (document : Option EditableDocument)
    (path : Option String) (service : ShellService) (snapshot : DocumentSnapshot) (app : OpdfApp) :
    (app.installDocument document path service snapshot).exitPending = app.exitPending := rfl

/-- Carrying an exit out answers no prompt. -/
theorem carryOut_exitPending (around : Surroundings) (intent : ExitIntent) (app : OpdfApp) :
    (app.carryOut around intent).exitPending = app.exitPending := by
  cases intent with
  | close => rfl
  | quit => rfl
  | «open» =>
    show (app.openChosenPath around).exitPending = app.exitPending
    unfold openChosenPath
    split
    · rfl
    · unfold absorbOpen
      split <;> rfl

/-- An open that does not come about leaves the document alone. -/
theorem openChosenPath_document {around : Surroundings} (h : opens around = false) (app : OpdfApp) :
    (app.openChosenPath around).document = app.document := by
  unfold opens at h
  unfold openChosenPath
  split
  · rfl
  · rename_i path hpath
    rw [hpath] at h
    dsimp only at h
    unfold absorbOpen
    split
    · rename_i opened hopened
      rw [hopened] at h
      cases h
    · rfl

/-- What an exit asked for from the menu comes to. -/
theorem requestExit_cases (around : Surroundings) (intent : ExitIntent) (app : OpdfApp) :
    app.hasUnsavedChanges = true ∧
      app.requestExit around intent = { app with exitPending := some intent } ∨
    app.hasUnsavedChanges = false ∧ app.requestExit around intent = app.carryOut around intent := by
  unfold requestExit mayAbandonDocument
  cases app.hasUnsavedChanges with
  | true => exact .inl ⟨rfl, rfl⟩
  | false => exact .inr ⟨rfl, rfl⟩

end OpdfApp

/-- The exit an event asks for. -/
def ShellEvent.exitAsked : ShellEvent → Option ExitIntent
  | .action .openDocument => some .open
  | .action .closeDocument => some .close
  | .action .quit => some .quit
  | _ => none

/-- The shell, and the document its open prompt was raised for. -/
structure PromptedApp where
  app : OpdfApp
  promptFor : Option DocumentId

namespace PromptedApp

open OpdfApp (Guarded Abandons Sound MayLeave)

def start (opened : OpenedDocument) : PromptedApp := ⟨.new opened, none⟩

variable [Pdfium]

def step (w : PromptedApp) (event : ShellEvent × Surroundings) : PromptedApp :=
  let app' := w.app.step event
  { app := app'
    promptFor :=
      if app'.exitPending.isNone then none
      else if event.1.exitAsked.isSome && w.app.hasUnsavedChanges then w.app.documentId
      else w.promptFor }

def GuardedRun : PromptedApp → List (ShellEvent × Surroundings) → Prop
  | _, [] => True
  | w, event :: events => Guarded w.app event ∧ (w.step event).GuardedRun events

/-- An open prompt is about the document that is open. -/
structure Prompted (w : PromptedApp) : Prop where
  sound : w.app.Sound
  prompt : w.app.exitPending.isSome → w.promptFor = w.app.documentId ∧ w.app.document.isSome

variable {w : PromptedApp}

/-- A step that asks no exit, and keeps the document and the prompt, keeps what the prompt is
about. -/
theorem Prompted.kept (h : w.Prompted) {event : ShellEvent × Surroundings}
    (hsound : (w.app.step event).Sound) (hasked : event.1.exitAsked = none)
    (hdocument : (w.app.step event).documentId = w.app.documentId)
    (hexit : (w.app.step event).exitPending = w.app.exitPending) : (w.step event).Prompted := by
  refine ⟨hsound, ?_⟩
  intro hpending
  have hpending' : (w.app.step event).exitPending.isSome := hpending
  have hold := h.prompt (hexit ▸ hpending')
  have hsome : (w.app.step event).document.isSome := by
    have := congrArg Option.isSome hdocument
    simpa [OpdfApp.documentId, hold.2] using this
  refine ⟨?_, hsome⟩
  have hnone : (w.app.step event).exitPending.isNone = false := by
    simpa using hpending'
  simp only [step, hnone, hasked, Option.isSome_none, Bool.false_and, Bool.false_eq_true, if_false]
  exact hold.1.trans hdocument.symm

/-- With no prompt open there is nothing to keep. -/
theorem prompted_of_none {event : ShellEvent × Surroundings} (hsound : (w.app.step event).Sound)
    (hexit : (w.app.step event).exitPending = none) : (w.step event).Prompted := by
  refine ⟨hsound, ?_⟩
  intro hpending
  have hpending' : (w.app.step event).exitPending.isSome := hpending
  rw [hexit] at hpending'
  cases hpending'

/-- A step abandons unsaved edits only as the answer to a prompt raised for the open document. -/
def AsksFirst (w : PromptedApp) (event : ShellEvent × Surroundings) : Prop :=
  w.app.hasUnsavedChanges = true → Abandons w.app (w.app.step event) →
    event.1 = .confirmDiscard ∧ w.app.exitPending.isSome ∧ w.promptFor = w.app.documentId

/-- A step that keeps the document and leaves the window open abandons nothing. -/
theorem asksFirst_of_kept {event : ShellEvent × Surroundings}
    (hdocument : (w.app.step event).documentId = w.app.documentId)
    (hclose : (w.app.step event).closeCommands = w.app.closeCommands) : w.AsksFirst event := by
  rintro - (hid | hcommands)
  · exact absurd hdocument hid
  · exact absurd hclose hcommands

/-- Asking for an exit over unsaved edits raises the prompt for the open document. -/
theorem prompted_raise {event : ShellEvent × Surroundings} (hsound : (w.app.step event).Sound)
    {intent : ExitIntent} (hasked : event.1.exitAsked = some intent)
    (hunsaved : w.app.hasUnsavedChanges = true)
    (hraised : w.app.step event = { w.app with exitPending := some intent }) :
    (w.step event).Prompted ∧ w.AsksFirst event := by
  have hdocument : (w.app.step event).documentId = w.app.documentId := by rw [hraised]; rfl
  refine ⟨⟨hsound, fun _ => ⟨?_, ?_⟩⟩, asksFirst_of_kept hdocument (by rw [hraised])⟩
  · have hnone : (w.app.step event).exitPending.isNone = false := by rw [hraised]; rfl
    simp only [step, hnone, hasked, hunsaved, Option.isSome_some, Bool.true_and,
      Bool.false_eq_true, if_false, if_true]
    exact hdocument.symm
  · -- there are unsaved edits, so there is a document
    show (w.app.step event).document.isSome
    rw [hraised]
    unfold OpdfApp.hasUnsavedChanges at hunsaved
    cases hopen : w.app.document with
    | none => simp [hopen] at hunsaved
    | some d => rfl

/-- An exit asked for is carried out without a prompt only where there are no unsaved edits; the
document then goes only when no prompt is open. -/
theorem prompted_requestExit (h : w.Prompted) {event : ShellEvent × Surroundings}
    (hsound : (w.app.step event).Sound) (intent : ExitIntent)
    (hasked : event.1.exitAsked = some intent)
    (hstep : w.app.step event = w.app.requestExit event.2 intent)
    (hquiet : w.app.hasUnsavedChanges = false → w.app.exitPending = none ∨
      (w.app.carryOut event.2 intent).documentId = w.app.documentId) :
    (w.step event).Prompted ∧ w.AsksFirst event := by
  rcases w.app.requestExit_cases event.2 intent with ⟨hunsaved, hraised⟩ | ⟨hclean, hcarried⟩
  · exact prompted_raise hsound hasked hunsaved (hstep.trans hraised)
  rw [hcarried] at hstep
  have hexit : (w.app.step event).exitPending = w.app.exitPending := by
    rw [hstep, OpdfApp.carryOut_exitPending]
  refine ⟨?_, fun hunsaved => by rw [hclean] at hunsaved; cases hunsaved⟩
  rcases hquiet hclean with hnone | hdocument
  · exact prompted_of_none hsound (hexit.trans hnone)
  rw [← hstep] at hdocument
  refine ⟨hsound, fun hpending => ?_⟩
  have hpending' : (w.app.step event).exitPending.isSome := hpending
  have hold := h.prompt (hexit ▸ hpending')
  have hnone : (w.app.step event).exitPending.isNone = false := by simpa using hpending'
  refine ⟨?_, ?_⟩
  · simp only [step, hnone, hclean, Bool.and_false, Bool.false_eq_true, if_false]
    exact hold.1.trans hdocument.symm
  · show (w.app.step event).document.isSome
    have := congrArg Option.isSome hdocument
    simpa [OpdfApp.documentId, hold.2] using this

/-- A step that cannot leave the document continues in it. -/
theorem prompted_stay (h : w.Prompted) {event : ShellEvent × Surroundings}
    (hstays : MayLeave event.1 = false) : (w.step event).Prompted ∧ w.AsksFirst event := by
  have hcontinues := OpdfApp.continues_step h.sound event hstays
  have hasked : event.1.exitAsked = none := by
    obtain ⟨event, around⟩ := event
    cases event with
    | action action => cases action <;> first | rfl | cases hstays
    | _ => rfl
  exact ⟨h.kept (OpdfApp.sound_step h.sound event) hasked hcontinues.document hcontinues.exitPending,
    asksFirst_of_kept hcontinues.document hcontinues.closeCommands⟩

theorem prompted_openDocument (h : w.Prompted) {around : Surroundings}
    (hguarded : Guarded w.app (.action .openDocument, around)) :
    (w.step (.action .openDocument, around)).Prompted ∧
      w.AsksFirst (.action .openDocument, around) := by
  refine prompted_requestExit h (OpdfApp.sound_step h.sound _) .open rfl rfl fun hclean => ?_
  rcases hguarded with hunsaved | hnone | hcancelled
  · rw [hclean] at hunsaved
    cases hunsaved
  · exact .inl hnone
  · exact .inr (congrArg (Option.map Document.id) (OpdfApp.openChosenPath_document hcancelled w.app))

theorem prompted_closeDocument (h : w.Prompted) {around : Surroundings}
    (hguarded : Guarded w.app (.action .closeDocument, around)) :
    (w.step (.action .closeDocument, around)).Prompted ∧
      w.AsksFirst (.action .closeDocument, around) := by
  refine prompted_requestExit h (OpdfApp.sound_step h.sound _) .close rfl rfl fun hclean => ?_
  rcases hguarded with hunsaved | hnone
  · rw [hclean] at hunsaved
    cases hunsaved
  · exact .inl hnone

/-- Quitting closes the window and leaves the document where it is. -/
theorem prompted_quit (h : w.Prompted) (around : Surroundings) :
    (w.step (.action .quit, around)).Prompted ∧ w.AsksFirst (.action .quit, around) :=
  prompted_requestExit h (OpdfApp.sound_step h.sound _) .quit rfl rfl fun _ => .inr rfl

theorem prompted_generateSynthetic (h : w.Prompted) {pageCount : Nat} {around : Surroundings}
    (hguarded : Guarded w.app (.action (.generateSynthetic pageCount), around)) :
    (w.step (.action (.generateSynthetic pageCount), around)).Prompted ∧
      w.AsksFirst (.action (.generateSynthetic pageCount), around) := by
  obtain ⟨hclean, hnone⟩ := hguarded
  refine ⟨prompted_of_none (OpdfApp.sound_step h.sound _) ?_,
    fun hunsaved => by rw [hclean] at hunsaved; cases hunsaved⟩
  simp only [OpdfApp.step, OpdfApp.applyAction, OpdfApp.loadSynthetic]
  split
  · exact hnone
  · exact hnone

/-- The answer to the prompt leaves the document it was raised for. -/
theorem prompted_confirmDiscard (h : w.Prompted) (around : Surroundings) :
    (w.step (.confirmDiscard, around)).Prompted ∧ w.AsksFirst (.confirmDiscard, around) := by
  have hsound := OpdfApp.sound_step h.sound (.confirmDiscard, around)
  cases hpending : w.app.exitPending with
  | none =>
    have hsame : w.app.step (.confirmDiscard, around) = w.app := by
      simp only [OpdfApp.step, OpdfApp.confirmDiscard, hpending]
    exact ⟨prompted_of_none hsound (by rw [hsame, hpending]),
      asksFirst_of_kept (by rw [hsame]) (by rw [hsame])⟩
  | some intent =>
    refine ⟨prompted_of_none hsound ?_, fun _ _ => ⟨rfl, by rw [hpending]; rfl, ?_⟩⟩
    · simp only [OpdfApp.step, OpdfApp.confirmDiscard, hpending, OpdfApp.carryOut_exitPending]
    · exact (h.prompt (by rw [hpending]; rfl)).1

/-- What one guarded step keeps, and when it may abandon unsaved edits. -/
theorem prompted_step (h : w.Prompted) {event : ShellEvent × Surroundings}
    (hguarded : Guarded w.app event) : (w.step event).Prompted ∧ w.AsksFirst event := by
  by_cases hstays : MayLeave event.1 = false
  · exact prompted_stay h hstays
  obtain ⟨event, around⟩ := event
  cases event with
  | action action =>
    cases action with
    | openDocument => exact prompted_openDocument h hguarded
    | closeDocument => exact prompted_closeDocument h hguarded
    | quit => exact prompted_quit h around
    | generateSynthetic pageCount => exact prompted_generateSynthetic h hguarded
    | _ => exact absurd rfl hstays
  | confirmDiscard => exact prompted_confirmDiscard h around
  | cancelDiscard =>
    exact ⟨prompted_of_none (OpdfApp.sound_step h.sound _) rfl, asksFirst_of_kept rfl rfl⟩
  | _ => exact absurd rfl hstays

theorem prompted_run (h : w.Prompted) {events : List (ShellEvent × Surroundings)}
    (hguarded : w.GuardedRun events) : (events.foldl step w).Prompted := by
  induction events generalizing w with
  | nil => exact h
  | cons event events ih => exact ih (prompted_step h hguarded.1).1 hguarded.2

theorem GuardedRun.split {before after : List (ShellEvent × Surroundings)}
    {event : ShellEvent × Surroundings} (h : w.GuardedRun (before ++ event :: after)) :
    w.GuardedRun before ∧ Guarded (before.foldl step w).app event := by
  induction before generalizing w with
  | nil => exact ⟨trivial, h.1⟩
  | cons first before ih => exact ⟨⟨h.1, (ih h.2).1⟩, (ih h.2).2⟩

omit [Pdfium] in
theorem prompted_start (opened : OpenedDocument) : (start opened).Prompted :=
  ⟨OpdfApp.sound_new opened, fun h => by cases h⟩

/-- In every run of guarded steps, a step that replaces or closes a document with unsaved edits
is the answer to a prompt raised for that document. -/
theorem unsaved_edits_are_asked_about (opened : OpenedDocument)
    (events : List (ShellEvent × Surroundings)) (hguarded : (start opened).GuardedRun events)
    (before after : List (ShellEvent × Surroundings)) (event : ShellEvent × Surroundings)
    (hsplit : events = before ++ event :: after) :
    let w := before.foldl step (start opened)
    w.app.hasUnsavedChanges = true → Abandons w.app (w.app.step event) →
      event.1 = .confirmDiscard ∧ w.app.exitPending.isSome ∧ w.promptFor = w.app.documentId := by
  intro w
  subst hsplit
  obtain ⟨hbefore, hevent⟩ := hguarded.split
  exact (prompted_step (prompted_run (prompted_start opened) hbefore) hevent).2

end PromptedApp
end Lopdf

namespace UnsavedTurn

def around : Surroundings := ⟨none, none, fun path => .error (.io path), .reliable, 7⟩

def turn : ShellEvent × Surroundings := (.action .rotatePageClockwise, around)

def generate : ShellEvent × Surroundings := (.action (.generateSynthetic 1), around)

def close : ShellEvent × Surroundings := (.action .closeDocument, around)

def confirm : ShellEvent × Surroundings := (.confirmDiscard, around)

end UnsavedTurn

namespace PromptedApp

open UnsavedTurn
open OpdfApp (Abandons)
open scoped ReferenceLopdf BlankPdfium

/-- Generating a synthetic document drops the turned page without a word. -/
theorem generating_drops_unsaved_edits :
    ∃ opened, openPdf 1 "plain.pdf" (.ok ImportFixture.plainFile) none = .ok opened ∧
      let w := (start opened).step turn
      w.app.hasUnsavedChanges = true ∧ Abandons w.app (w.app.step generate) ∧
      ¬ (generate.1 = .confirmDiscard ∧ w.app.exitPending.isSome ∧ w.promptFor = w.app.documentId) :=
  ⟨_, rfl, rfl, .inl (by decide), nofun⟩

/-- Closing it asks first, and closes on the answer. -/
theorem closing_asks_about_unsaved_edits :
    ∃ opened, openPdf 1 "plain.pdf" (.ok ImportFixture.plainFile) none = .ok opened ∧
      let w := [turn, close].foldl step (start opened)
      w.app.hasUnsavedChanges = true ∧ Abandons w.app (w.app.step confirm) ∧
      w.promptFor = w.app.documentId :=
  ⟨_, rfl, rfl, .inl (by decide),
    (unsaved_edits_are_asked_about _ [turn, close, confirm] ⟨trivial, .inl rfl, trivial, trivial⟩
      [turn, close] [] confirm rfl rfl (.inl (by decide))).2.2⟩

end PromptedApp
end OpdfEditor
