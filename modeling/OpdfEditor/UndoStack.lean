import OpdfEditor.CommandRejection
import OpdfEditor.VecDocument

/-!
The undo stack over any lawful document: what is queued always replays the page
lists it was recorded over, so the two stacks are a list of page lists with a
cursor in it.
-/
namespace OpdfEditor

open UndoHistory (Cursor Tracks)

/-- Applied commands' inverses, most recent first on both stacks. -/
structure UndoStack (D : Type) where
  undo : List (Command D)
  redo : List (Command D)
  limit : { n : Nat // 0 < n }

def defaultUndoLimit : { n : Nat // 0 < n } := ⟨100, by decide⟩

namespace UndoStack

variable {D : Type} [Document D]

def withLimit (limit : { n : Nat // 0 < n }) : UndoStack D := ⟨[], [], limit⟩

def undoDepth (s : UndoStack D) : Nat := s.undo.length

def redoDepth (s : UndoStack D) : Nat := s.redo.length

/-- Apply a command, recording its inverse unless the revision stood still. -/
def applyCommand (command : Command D) (s : UndoStack D) (d : D) :
    Except Error Unit × UndoStack D × D :=
  match command.apply d with
  | (.error e, d') => (.error e, s, d')
  | (.ok inverse, d') =>
    if Document.revision d' = Document.revision d then (.ok (), s, d')
    else
      let undo := inverse :: s.undo
      (.ok (), { s with undo := if undo.length > s.limit then undo.dropLast else undo, redo := [] }, d')

/-- Undo the most recently applied command; a failing entry stays queued. -/
def undoLast (s : UndoStack D) (d : D) : Except Error Bool × UndoStack D × D :=
  match s.undo with
  | [] => (.ok false, s, d)
  | command :: undo =>
    match command.apply d with
    | (.ok inverse, d') => (.ok true, { s with undo, redo := inverse :: s.redo }, d')
    | (.error e, d') => (.error e, s, d')

/-- Redo the most recently undone command; a failing entry stays queued. -/
def redoLast (s : UndoStack D) (d : D) : Except Error Bool × UndoStack D × D :=
  match s.redo with
  | [] => (.ok false, s, d)
  | command :: redo =>
    match command.apply d with
    | (.ok inverse, d') => (.ok true, { s with undo := inverse :: s.undo, redo }, d')
    | (.error e, d') => (.error e, s, d')

def clear (s : UndoStack D) : UndoStack D := { s with undo := [], redo := [] }

section Lawful

variable [LawfulDocument D]

def pageList (d : D) : List PageInfo := (roster d).live

omit [Document D] in
theorem below_pageList [Document D] [LawfulDocument D] {d e : D} (h : Below d e) :
    pageList d = pageList e :=
  h.roster.live

/-- The stack realises the cursor at the document, within its limit. -/
structure Follows (s : UndoStack D) (d : D) (h : Cursor (List PageInfo)) : Prop where
  tracks : Tracks Command.runs pageList Command.Recorded s.undo s.redo d h
  bounded : s.undo.length + s.redo.length ≤ s.limit

theorem Follows.start (limit : { n : Nat // 0 < n }) (d : D) :
    Follows (withLimit limit) d ⟨[], pageList d, []⟩ :=
  ⟨.start d, Nat.zero_le _⟩

variable {s : UndoStack D} {d : D} {h : Cursor (List PageInfo)}

/-- Dropping both stacks leaves a history of the present alone. -/
theorem follows_clear (s : UndoStack D) (d : D) : Follows s.clear d ⟨[], pageList d, []⟩ :=
  ⟨.start d, Nat.zero_le _⟩

/-- A document that shows the same and lost nothing keeps its history. -/
theorem Follows.raise {e : D} (hf : Follows s d h) (hle : Below d e) : Follows s e h :=
  ⟨hf.tracks.raise Command.replayable below_pageList hle, hf.bounded⟩

/-- Whether applying the command is recorded: it succeeds and the revision moves. -/
def records (command : Command D) (d : D) : Bool :=
  match command.apply d with
  | (.error _, _) => false
  | (.ok _, d') => Document.revision d' ≠ Document.revision d

theorem Follows.applyCommand (hf : Follows s d h) {command : Command D} (hatomic : command.Atomic)
    (hfits : command.mutations < 2 ^ 64) :
    Follows (s.applyCommand command d).2.1 (s.applyCommand command d).2.2
      (if records command d then h.push s.limit (pageList (s.applyCommand command d).2.2) else h) ∧
    (s.applyCommand command d).2.1.limit = s.limit := by
  unfold UndoStack.applyCommand records
  rcases happly : command.apply d with ⟨e | inverse, d'⟩
  · exact ⟨hf.raise (hatomic.rejects happly), rfl⟩
  · by_cases hrev : Document.revision d' = Document.revision d
    · obtain rfl := Command.apply_unchanged hfits happly hrev
      simp [hf]
    · simp only [hrev, if_false, ne_eq, not_false_eq_true, decide_true, if_true]
      refine ⟨⟨hf.tracks.record Command.reversible below_pageList (Command.runs_eq_some.2 happly) _,
        ?_⟩, trivial⟩
      have hlen := hf.bounded
      have hroom : (inverse :: s.undo).length ≤ s.limit + 1 := by
        simp only [List.length_cons]
        omega
      simpa [Cursor.trim] using Cursor.length_trim _ hroom

theorem Follows.undoLast (hf : Follows s d h) :
    Follows (s.undoLast d).2.1 (s.undoLast d).2.2 h.back ∧ (s.undoLast d).1 = .ok h.canGoBack ∧
    (s.undoLast d).2.1.limit = s.limit := by
  obtain ⟨undo, redo, limit⟩ := s
  have hlen := hf.tracks.undo_length
  cases undo with
  | nil =>
    have hpast : h.past = [] := List.length_eq_zero_iff.1 hlen
    simp only [UndoStack.undoLast, Cursor.back, Cursor.canGoBack, hpast]
    exact ⟨hf, rfl, trivial⟩
  | cons command undo =>
    obtain ⟨inverse, d', hrun, htracks⟩ := hf.tracks.stepBack Command.reversible below_pageList
    obtain ⟨view, past, hpast⟩ := List.exists_cons_of_length_eq_add_one (n := undo.length) (by simpa using hlen)
    simp only [UndoStack.undoLast, Command.runs_eq_some.1 hrun, Cursor.canGoBack, hpast]
    refine ⟨⟨htracks, ?_⟩, rfl, trivial⟩
    have := hf.bounded
    simp only [List.length_cons] at this ⊢
    omega

theorem Follows.redoLast (hf : Follows s d h) :
    Follows (s.redoLast d).2.1 (s.redoLast d).2.2 h.forward ∧
    (s.redoLast d).1 = .ok h.canGoForward ∧ (s.redoLast d).2.1.limit = s.limit := by
  obtain ⟨undo, redo, limit⟩ := s
  have hlen := hf.tracks.redo_length
  cases redo with
  | nil =>
    have hfuture : h.future = [] := List.length_eq_zero_iff.1 hlen
    simp only [UndoStack.redoLast, Cursor.forward, Cursor.canGoForward, hfuture]
    exact ⟨hf, rfl, trivial⟩
  | cons command redo =>
    obtain ⟨inverse, d', hrun, htracks⟩ := hf.tracks.stepForward Command.reversible below_pageList
    obtain ⟨view, future, hfuture⟩ :=
      List.exists_cons_of_length_eq_add_one (n := redo.length) (by simpa using hlen)
    simp only [UndoStack.redoLast, Command.runs_eq_some.1 hrun, Cursor.canGoForward, hfuture]
    refine ⟨⟨htracks, ?_⟩, rfl, trivial⟩
    have := hf.bounded
    simp only [List.length_cons] at this ⊢
    omega

end Lawful

/-! ### Whole sessions -/

/-- What a user of the stack does. A command lives in a 64-bit address space, which bounds how
many mutations it can hold. -/
inductive Action (D : Type) where
  | apply (command : Command D) (fits : command.mutations < 2 ^ 64)
  | undo
  | redo

/-- The stack and the document, and the cursor into the page lists recorded so far. -/
structure Session (D : Type) where
  stack : UndoStack D
  document : D
  cursor : Cursor (List PageInfo)

namespace Session

variable [LawfulDocument D]

def start (limit : { n : Nat // 0 < n }) (d : D) : Session D :=
  ⟨withLimit limit, d, ⟨[], pageList d, []⟩⟩

/-- One action on the stack. The cursor only learns whether an application was recorded. -/
def step (s : Session D) : Action D → Session D
  | .apply command _ =>
    let after := (s.stack.applyCommand command s.document).2
    ⟨after.1, after.2, if records command s.document
      then s.cursor.push s.stack.limit (pageList after.2) else s.cursor⟩
  | .undo =>
    let after := (s.stack.undoLast s.document).2
    ⟨after.1, after.2, s.cursor.back⟩
  | .redo =>
    let after := (s.stack.redoLast s.document).2
    ⟨after.1, after.2, s.cursor.forward⟩

def run (s : Session D) (actions : List (Action D)) : Session D := actions.foldl step s

def Faithful (s : Session D) : Prop := Follows s.stack s.document s.cursor

theorem faithful_step {s : Session D} (hatomic : ∀ c : Command D, c.Atomic) (h : s.Faithful)
    (action : Action D) : (s.step action).Faithful ∧ (s.step action).stack.limit = s.stack.limit := by
  cases action with
  | apply command fits => exact Follows.applyCommand h (hatomic command) fits
  | undo => exact ⟨(Follows.undoLast h).1, (Follows.undoLast h).2.2⟩
  | redo => exact ⟨(Follows.redoLast h).1, (Follows.redoLast h).2.2⟩

theorem faithful_run {s : Session D} (hatomic : ∀ c : Command D, c.Atomic) (h : s.Faithful)
    (actions : List (Action D)) :
    (s.run actions).Faithful ∧ (s.run actions).stack.limit = s.stack.limit := by
  induction actions generalizing s with
  | nil => exact ⟨h, rfl⟩
  | cons action actions ih =>
    obtain ⟨hstep, hlimit⟩ := faithful_step hatomic h action
    obtain ⟨hrun, hlimit'⟩ := ih hstep
    exact ⟨hrun, hlimit'.trans hlimit⟩

end Session

/-- Over the in-memory document every command is all or nothing. -/
theorem VecDocument.atomic (c : Command VecDocument) : c.Atomic := by
  match c with
  | .removePage page => exact .removePage page
  | .restorePage id atIndex => exact .restorePage id atIndex
  | .movePage page toIndex => exact .movePage page toIndex
  | .setRotation page rotation => exact .setRotation page rotation
  | .insertBlankPage atIndex size => exact .insertBlankPage atIndex size
  | .importPages source ids atIndex => exact .importPages VecDocument.importPages_error
  | .sequence label commands => exact .sequence fun c _ => VecDocument.atomic c
  | .merge sources => exact .merge fun _ _ _ _ _ _ _ => VecDocument.importPages_error
  | .boundInverse binding inverse => exact .boundInverse (VecDocument.atomic inverse)

/-- The undo stack over an in-memory document is a list of page lists with a cursor: at every
point of every session the document shows the cursor's present, undo and redo answer whether
there is somewhere to go and never fail, and the two depths stay within the limit. -/
theorem session_follows_cursor (d : VecDocument) (limit : { n : Nat // 0 < n })
    (actions : List (Action VecDocument)) :
    let s := (Session.start limit d).run actions
    s.document.roster.live = s.cursor.present ∧
    s.stack.undoDepth = s.cursor.past.length ∧ s.stack.redoDepth = s.cursor.future.length ∧
    s.stack.undoDepth + s.stack.redoDepth ≤ limit ∧
    (s.stack.undoLast s.document).1 = .ok s.cursor.canGoBack ∧
    (s.stack.redoLast s.document).1 = .ok s.cursor.canGoForward := by
  intro s
  have hstart : (Session.start limit d).Faithful := Follows.start limit d
  obtain ⟨hfollows, hlimit⟩ := Session.faithful_run VecDocument.atomic hstart actions
  have hbound : s.stack.undo.length + s.stack.redo.length ≤ s.stack.limit := hfollows.bounded
  have hlimit' : s.stack.limit = limit := hlimit
  rw [hlimit'] at hbound
  exact ⟨hfollows.tracks.present, hfollows.tracks.undo_length.symm,
    hfollows.tracks.redo_length.symm, hbound, (Follows.undoLast hfollows).2.1,
    (Follows.redoLast hfollows).2.1⟩

end UndoStack
end OpdfEditor
