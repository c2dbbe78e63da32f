import OpdfEditor.EditableDocument
import OpdfEditor.PdfReopening
import OpdfEditor.RunExtraction
import OpdfEditor.Traversal
import OpdfEditor.UndoStack

/-!
A document as its contract shows it. All the contract lets anyone see of a lawful document is an
in-memory one, and every command, and every session of an undo stack, commutes with looking at the
document that way: nothing built on the contract can tell a file from the fake it is tested with.
-/
namespace OpdfEditor

variable {D E : Type}

/-! ### Commands over what is seen -/

namespace Command

mutual
/-- The same change with its source documents exchanged. -/
def map (f : D → E) : Command D → Command E
  | removePage page => .removePage page
  | restorePage id atIndex => .restorePage id atIndex
  | movePage page toIndex => .movePage page toIndex
  | setRotation page rotation => .setRotation page rotation
  | insertBlankPage atIndex size => .insertBlankPage atIndex size
  | importPages source ids atIndex => .importPages (f source) ids atIndex
  | sequence label commands => .sequence label (mapAll f commands)
  | merge sources => .merge (sources.map f)
  | boundInverse binding inverse => .boundInverse binding (inverse.map f)

def mapAll (f : D → E) : List (Command D) → List (Command E)
  | [] => []
  | command :: commands => command.map f :: mapAll f commands
end

mutual
/-- The documents a change takes pages from. -/
def sources : Command D → List D
  | importPages source _ _ => [source]
  | sequence _ commands => sourcesOf commands
  | merge sources => sources
  | boundInverse _ inverse => inverse.sources
  | _ => []

def sourcesOf : List (Command D) → List D
  | [] => []
  | command :: commands => command.sources ++ sourcesOf commands
end

theorem mapAll_eq (f : D → E) (commands : List (Command D)) :
    mapAll f commands = commands.map (map f) := by
  induction commands with
  | nil => rfl
  | cons command commands ih => rw [mapAll, ih, List.map_cons]

theorem sourcesOf_eq (commands : List (Command D)) : sourcesOf commands = commands.flatMap sources := by
  induction commands with
  | nil => rfl
  | cons command commands ih => rw [sourcesOf, ih, List.flatMap_cons]

theorem label_merge_map (f : D → E) (sources : List D) :
    (merge (sources.map f)).label = (merge sources).label :=
  congrArg (fun count : Nat => s!"Merge {count} documents") (List.length_map f)

/-- A command and its image are called the same. -/
@[simp] theorem label_map (f : D → E) : ∀ c : Command D, (c.map f).label = c.label
  | merge sources => label_merge_map f sources
  | boundInverse _ inverse => label_map f inverse
  | removePage _ | restorePage _ _ | movePage _ _ | setRotation _ _ | insertBlankPage _ _ => rfl
  | importPages _ _ _ | sequence _ _ => rfl

mutual
/-- A command and its image count as many revisions. -/
theorem mutations_map (f : D → E) : ∀ c : Command D, (c.map f).mutations = c.mutations
  | sequence _ commands => mutationsOf_mapAll f commands
  | merge _ => List.length_map f
  | boundInverse _ inverse => mutations_map f inverse
  | removePage _ | restorePage _ _ | movePage _ _ | setRotation _ _ | insertBlankPage _ _ => rfl
  | importPages _ _ _ => rfl

theorem mutationsOf_mapAll (f : D → E) :
    ∀ commands : List (Command D), mutationsOf (mapAll f commands) = mutationsOf commands
  | [] => rfl
  | command :: commands =>
    congrArg₂ (· + ·) (mutations_map f command) (mutationsOf_mapAll f commands)
end

/-- What a command hands back takes pages from nowhere. -/
theorem Recorded.sources_eq_nil {c : Command D} (h : Recorded c) : c.sources = [] := by
  induction h with
  | sequence _ ih =>
    rw [sources, sourcesOf_eq]
    exact List.flatMap_eq_nil_iff.2 ih
  | boundInverse _ ih => exact ih
  | _ => rfl

end Command

/-! ### What is seen of a document -/

section Seen

variable [Document D] [LawfulDocument D]

/-- The in-memory document a document looks like. -/
def seen (d : D) : VecDocument := ⟨Document.id d, roster d, Document.revision d⟩

/-- A mutation looks like the one of the in-memory document that has its specification. -/
theorem Mutates.seen_eq {α : Type} {d : D} {outcome : Outcome D α} {outcome' : Outcome VecDocument α}
    {spec : Except Error (α × Roster PageInfo)} (h : Mutates roster d outcome spec)
    (h' : Mutates roster (seen d) outcome' spec) : outcome' = outcome.within seen := by
  cases spec with
  | error e =>
    have hd : outcome = (.error e, d) := h
    have hseen : outcome' = (.error e, seen d) := h'
    rw [hd, hseen]
    rfl
  | ok result =>
    obtain ⟨a, r⟩ := result
    obtain ⟨hok, hroster, hrevision, hid⟩ := h
    obtain ⟨hok', hroster', hrevision', hid'⟩ := h'
    have hsame : outcome'.2 = ⟨Document.id outcome.2, roster outcome.2, Document.revision outcome.2⟩ := by
      rw [hid, hroster, hrevision]
      cases hseen : outcome'.2 with
      | mk id pages revision =>
        rw [hseen] at hroster' hrevision' hid'
        cases hroster'
        cases hrevision'
        cases hid'
        rfl
    exact Prod.ext (hok'.trans hok.symm) hsame

theorem indexOf_seen (id : PageId) (d : D) : Document.indexOf id (seen d) = Document.indexOf id d :=
  (LawfulDocument.indexOf_eq id d).symm

theorem page_seen (id : PageId) (d : D) : Document.page id (seen d) = Document.page id d :=
  (LawfulDocument.page_eq id d).symm

theorem pageIds_seen (d : D) : Document.pageIds (seen d) = Document.pageIds d :=
  (LawfulDocument.pageIds_eq d).symm

theorem pageCount_seen (d : D) : Document.pageCount (seen d) = Document.pageCount d :=
  (LawfulDocument.pageCount_eq d).symm

/-- The calls on what is seen of a document are those on the document, seen. -/
theorem removePage_seen (id : PageId) (d : D) :
    Document.removePage id (seen d) = (Document.removePage id d).within seen :=
  (LawfulDocument.removePage_spec id d).seen_eq (LawfulDocument.removePage_spec id (seen d))

theorem restorePage_seen (id : PageId) (atIndex : Nat) (d : D) :
    Document.restorePage id atIndex (seen d) = (Document.restorePage id atIndex d).within seen :=
  (LawfulDocument.restorePage_spec id atIndex d).seen_eq (LawfulDocument.restorePage_spec id atIndex (seen d))

theorem movePage_seen (id : PageId) (toIndex : Nat) (d : D) :
    Document.movePage id toIndex (seen d) = (Document.movePage id toIndex d).within seen :=
  (LawfulDocument.movePage_spec id toIndex d).seen_eq (LawfulDocument.movePage_spec id toIndex (seen d))

theorem setRotation_seen (id : PageId) (rotation : Rotation) (d : D) :
    Document.setRotation id rotation (seen d) = (Document.setRotation id rotation d).within seen :=
  (LawfulDocument.setRotation_spec id rotation d).seen_eq
    (LawfulDocument.setRotation_spec id rotation (seen d))

theorem insertPage_seen (atIndex : Nat) (size : PageSize) (d : D) :
    Document.insertPage atIndex size (seen d) = (Document.insertPage atIndex size d).within seen :=
  (LawfulDocument.insertPage_spec atIndex size d).seen_eq
    (LawfulDocument.insertPage_spec atIndex size (seen d))

/-- A document whose pages can be imported wherever the pages seen of it can. -/
def ImportsAsSeen (source : D) : Prop := ∀ (ids : List PageId) (atIndex : Nat) (d : D),
  Document.importPages (seen source) ids atIndex (seen d) =
    (Document.importPages source ids atIndex d).within seen

namespace Command

/-- The outcome of a command, as it is seen. -/
def seenOutcome (outcome : Outcome D (Command D)) : Outcome VecDocument (Command VecDocument) :=
  (outcome.1.map (map seen), seen outcome.2)

/-- Applying the command and then looking is looking and then applying it. -/
def AsSeen (c : Command D) : Prop :=
  ∀ d : D, (c.map seen).apply (seen d) = seenOutcome (c.apply d)

/-- The commands on one page see nothing but the page list. -/
theorem asSeen_removePage (page : PageId) : AsSeen (D := D) (removePage page) := by
  intro d
  rw [map, apply_removePage, apply_removePage]
  unfold applyRemovePage
  rw [indexOf_seen, removePage_seen]
  cases Document.indexOf page d with
  | error e => rfl
  | ok index => rcases Document.removePage page d with ⟨_ | _, _⟩ <;> rfl

theorem asSeen_restorePage (id : PageId) (atIndex : Nat) :
    AsSeen (D := D) (restorePage id atIndex) := by
  intro d
  rw [map, apply_restorePage, apply_restorePage]
  unfold applyRestorePage
  rw [restorePage_seen]
  rcases Document.restorePage id atIndex d with ⟨_ | _, _⟩ <;> rfl

theorem asSeen_movePage (page : PageId) (toIndex : Nat) : AsSeen (D := D) (movePage page toIndex) := by
  intro d
  rw [map, apply_movePage, apply_movePage]
  unfold applyMovePage
  rw [indexOf_seen, movePage_seen]
  cases Document.indexOf page d with
  | error e => rfl
  | ok index => rcases Document.movePage page toIndex d with ⟨_ | _, _⟩ <;> rfl

theorem asSeen_setRotation (page : PageId) (rotation : Rotation) :
    AsSeen (D := D) (setRotation page rotation) := by
  intro d
  rw [map, apply_setRotation, apply_setRotation]
  unfold applySetRotation
  rw [page_seen, setRotation_seen]
  cases Document.page page d with
  | error e => rfl
  | ok info => rcases Document.setRotation page rotation d with ⟨_ | _, _⟩ <;> rfl

theorem asSeen_insertBlankPage (atIndex : Nat) (size : PageSize) :
    AsSeen (D := D) (insertBlankPage atIndex size) := by
  intro d
  rw [map, apply_insertBlankPage, apply_insertBlankPage]
  unfold applyInsertBlankPage
  rw [insertPage_seen]
  rcases Document.insertPage atIndex size d with ⟨_ | _, _⟩ <;> rfl

omit [Document D] [LawfulDocument D] in
theorem map_removals (f : D → E) (ids : List PageId) :
    (ids.map removePage).map (map f) = ids.map removePage := by
  rw [List.map_map]
  rfl

/-- An import sees what its source lets it see. -/
theorem asSeen_importPages {source : D} (h : ImportsAsSeen source) (ids : List PageId)
    (atIndex : Nat) : AsSeen (importPages source ids atIndex) := by
  intro d
  rw [map, apply_importPages, apply_importPages]
  unfold applyImportPages
  rw [h ids atIndex d]
  rcases Document.importPages source ids atIndex d with ⟨_ | newIds, d'⟩
  · rfl
  · have hremovals := map_removals (seen (D := D)) newIds
    rw [← mapAll_eq] at hremovals
    exact Prod.ext (congrArg (Except.ok ∘ sequence "Undo import") hremovals.symm) rfl

/-- Inverses roll back what is seen as they roll back the document, with the same words. -/
theorem rollBack_seen (label : String) (original : Error) {applied : List (Command D)}
    (happlied : ∀ c ∈ applied, AsSeen c) (d : D) :
    rollBack apply label original (applied.map (map seen)) (seen d) =
      ((rollBack apply label original applied d).1, seen (rollBack apply label original applied d).2) := by
  induction applied generalizing d with
  | nil => rfl
  | cons c applied ih =>
    obtain ⟨hfirst, hrest⟩ := List.forall_mem_cons.1 happlied
    rw [List.map_cons]
    unfold rollBack
    rw [hfirst d, label_map]
    rcases c.apply d with ⟨e | inverse, d'⟩
    · rfl
    · exact ih hrest d'

/-- A command and whatever it hands back. -/
def AsSeenBack (c : Command D) : Prop :=
  AsSeen c ∧ ∀ {inverse : Command D} {d d' : D}, c.apply d = (.ok inverse, d') → AsSeen inverse

/-- A sequence is seen step by step, its rollback included. -/
theorem applySequence_seen {label : String} {commands applied : List (Command D)}
    (hcommands : ∀ c ∈ commands, AsSeenBack c) (happlied : ∀ c ∈ applied, AsSeen c) (d : D) :
    applySequence apply label (commands.map (map seen)) (applied.map (map seen)) (seen d) =
      seenOutcome (applySequence apply label commands applied d) := by
  induction commands generalizing applied d with
  | nil => exact Prod.ext (congrArg (Except.ok ∘ sequence _) (mapAll_eq _ _).symm) rfl
  | cons c commands ih =>
    obtain ⟨⟨hseen, hback⟩, hrest⟩ := List.forall_mem_cons.1 hcommands
    rw [List.map_cons]
    unfold applySequence
    rw [hseen d]
    rcases hstep : c.apply d with ⟨e | inverse, d'⟩
    · dsimp only [seenOutcome, Except.map]
      rw [rollBack_seen label e happlied d']
    · exact ih hrest (List.forall_mem_cons.2 ⟨hback hstep, happlied⟩) d'

/-- A merge is seen source by source. -/
theorem applyMerge_seen {count : Nat} {sources : List D} {removals : List (Command D)}
    (hsources : ∀ source ∈ sources, ImportsAsSeen source) (hremovals : ∀ c ∈ removals, AsSeen c)
    (d : D) : applyMerge apply count (sources.map seen) (removals.map (map seen)) (seen d) =
      seenOutcome (applyMerge apply count sources removals d) := by
  induction sources generalizing removals d with
  | nil => exact Prod.ext (congrArg (Except.ok ∘ sequence _) (mapAll_eq _ _).symm) rfl
  | cons source sources ih =>
    obtain ⟨hfirst, hrest⟩ := List.forall_mem_cons.1 hsources
    rw [List.map_cons]
    unfold applyMerge
    rw [pageIds_seen, pageCount_seen, hfirst _ _ d]
    rcases Document.importPages source (Document.pageIds source) (Document.pageCount d) d with
      ⟨e | newIds, d'⟩
    · dsimp only [Outcome.within]
      rw [rollBack_seen _ e hremovals d']
      rfl
    · have hnew : ∀ c ∈ (newIds.map removePage).reverse, AsSeen (D := D) c := by
        intro c hc
        obtain ⟨id, -, rfl⟩ := List.mem_map.1 (List.mem_reverse.1 hc)
        exact asSeen_removePage id
      have hnext := ih hrest (List.forall_mem_append.2 ⟨hnew, hremovals⟩) d'
      rw [List.map_append, List.map_reverse, map_removals] at hnext
      exact hnext

theorem applyBoundInverse_seen {binding : DocumentId} {inverse : Command D} (h : AsSeen inverse) :
    AsSeen (boundInverse binding inverse) := by
  intro d
  rw [map, apply_boundInverse, apply_boundInverse]
  unfold applyBoundInverse
  have hid : Document.id (seen d) = Document.id d := rfl
  rw [hid, label_map, h d]
  by_cases hbound : binding ≠ Document.id d
  · rw [if_pos hbound, if_pos hbound]
    rfl
  · rw [if_neg hbound, if_neg hbound]
    rcases inverse.apply d with ⟨e | redo, d'⟩ <;> rfl

/-- Every command whose sources can be imported as they are seen commutes with looking. -/
theorem asSeen_of_height (n : Nat) {c : Command D} (hheight : c.height ≤ n)
    (hsources : ∀ source ∈ c.sources, ImportsAsSeen source) : AsSeen c := by
  induction n generalizing c with
  | zero => exact absurd (height_pos c) (by omega)
  | succ n ih =>
    cases c with
    | removePage page => exact asSeen_removePage page
    | restorePage id atIndex => exact asSeen_restorePage id atIndex
    | movePage page toIndex => exact asSeen_movePage page toIndex
    | setRotation page rotation => exact asSeen_setRotation page rotation
    | insertBlankPage atIndex size => exact asSeen_insertBlankPage atIndex size
    | importPages source ids atIndex =>
      exact asSeen_importPages (hsources source List.mem_cons_self) ids atIndex
    | sequence label commands =>
      intro d
      rw [map, mapAll_eq, apply_sequence, apply_sequence]
      refine applySequence_seen (fun c hc => ?_) (List.forall_mem_nil _) d
      have hlow : c.height ≤ n := heights_le.1 (Nat.le_of_succ_le_succ hheight) c hc
      have hwithin : ∀ source ∈ c.sources, ImportsAsSeen source := fun source hsource =>
        hsources source (by
          rw [sources, sourcesOf_eq]
          exact List.mem_flatMap.2 ⟨c, hc, hsource⟩)
      -- an inverse is no part of the sequence, but it is no higher than what it reverses
      refine ⟨ih hlow hwithin, fun {inverse d d'} hstep => ?_⟩
      have hrecorded := (undone c hstep).1
      have hback : inverse.height ≤ c.height := applyAt_height c.height hstep
      exact ih (hback.trans hlow) (by simp [hrecorded.sources_eq_nil])
    | merge sources =>
      intro d
      rw [map, apply_merge, apply_merge, List.length_map]
      exact applyMerge_seen hsources (List.forall_mem_nil _) d
    | boundInverse binding inverse =>
      exact applyBoundInverse_seen (ih (Nat.le_of_succ_le_succ hheight) hsources)

/-- Every command is seen as it is applied, if its sources are. -/
theorem asSeen {c : Command D} (hsources : ∀ source ∈ c.sources, ImportsAsSeen source) : AsSeen c :=
  asSeen_of_height c.height le_rfl hsources

/-- What a command handed back can be applied to what is seen as well. -/
theorem Recorded.asSeen {c : Command D} (h : Recorded c) : AsSeen c :=
  Command.asSeen (by simp [h.sources_eq_nil])

end Command

/-! ### Sessions over what is seen -/

namespace UndoStack

/-- The same stack with the source documents of its entries exchanged. -/
def map (f : D → E) (s : UndoStack D) : UndoStack E :=
  ⟨s.undo.map (Command.map f), s.redo.map (Command.map f), s.limit⟩

/-- Everything queued was handed back by a command. -/
structure Queued (s : UndoStack D) : Prop where
  undo : ∀ c ∈ s.undo, Command.Recorded c
  redo : ∀ c ∈ s.redo, Command.Recorded c

/-- A step of the stack, as it is seen. -/
def seenStep {α : Type} (after : Except Error α × UndoStack D × D) :
    Except Error α × UndoStack VecDocument × VecDocument :=
  (after.1, after.2.1.map seen, seen after.2.2)

/-- An application recorded on the stack is seen so. -/
theorem applyCommand_seen {command : Command D} (h : command.AsSeen) (s : UndoStack D) (d : D) :
    (s.map seen).applyCommand (command.map seen) (seen d) = seenStep (s.applyCommand command d) := by
  unfold UndoStack.applyCommand
  rw [h d]
  rcases command.apply d with ⟨e | inverse, d'⟩
  · rfl
  · dsimp only [Command.seenOutcome, Except.map]
    have hrevision : ∀ d : D, Document.revision (seen d) = Document.revision d := fun _ => rfl
    rw [hrevision, hrevision]
    by_cases hstill : Document.revision d' = Document.revision d
    · rw [if_pos hstill, if_pos hstill]
      rfl
    · rw [if_neg hstill, if_neg hstill]
      have htrim : ∀ entries : List (Command D), (if (entries.map (Command.map seen)).length > s.limit
            then (entries.map (Command.map seen)).dropLast else entries.map (Command.map seen)) =
          (if entries.length > s.limit then entries.dropLast else entries).map (Command.map seen) := by
        intro entries
        rw [List.length_map, apply_ite (List.map (Command.map seen)), List.map_dropLast]
      exact congrArg (fun undo => (Except.ok (), UndoStack.mk undo [] s.limit, seen d'))
        (htrim (inverse :: s.undo))

/-- So is an undo, whose entry was handed back by a command. -/
theorem undoLast_seen {s : UndoStack D} (hs : s.Queued) (d : D) :
    (s.map seen).undoLast (seen d) = seenStep (s.undoLast d) := by
  obtain ⟨undo, redo, limit⟩ := s
  cases undo with
  | nil => rfl
  | cons command undo =>
    have hseen := (hs.undo command List.mem_cons_self).asSeen d
    simp only [UndoStack.undoLast, map, List.map_cons, hseen]
    rcases command.apply d with ⟨e | inverse, d'⟩ <;> rfl

/-- So is a redo. -/
theorem redoLast_seen {s : UndoStack D} (hs : s.Queued) (d : D) :
    (s.map seen).redoLast (seen d) = seenStep (s.redoLast d) := by
  obtain ⟨undo, redo, limit⟩ := s
  cases redo with
  | nil => rfl
  | cons command redo =>
    have hseen := (hs.redo command List.mem_cons_self).asSeen d
    simp only [UndoStack.redoLast, map, List.map_cons, hseen]
    rcases command.apply d with ⟨e | inverse, d'⟩ <;> rfl

theorem Queued.applyCommand {s : UndoStack D} (h : s.Queued) (command : Command D) (d : D) :
    (s.applyCommand command d).2.1.Queued := by
  unfold UndoStack.applyCommand
  rcases hstep : command.apply d with ⟨e | inverse, d'⟩
  · exact h
  · dsimp only
    split
    · exact h
    · have hundo : ∀ c ∈ inverse :: s.undo, Command.Recorded c :=
        List.forall_mem_cons.2 ⟨(Command.undone command hstep).1, h.undo⟩
      refine ⟨fun c hc => hundo c ?_, List.forall_mem_nil _⟩
      split at hc
      · exact List.mem_of_mem_dropLast hc
      · exact hc

theorem Queued.undoLast {s : UndoStack D} (h : s.Queued) (d : D) : (s.undoLast d).2.1.Queued := by
  obtain ⟨undo, redo, limit⟩ := s
  cases undo with
  | nil => exact h
  | cons command undo =>
    simp only [UndoStack.undoLast]
    rcases hstep : command.apply d with ⟨e | inverse, d'⟩
    · exact h
    · exact ⟨(List.forall_mem_cons.1 h.undo).2,
        List.forall_mem_cons.2 ⟨(Command.undone command hstep).1, h.redo⟩⟩

theorem Queued.redoLast {s : UndoStack D} (h : s.Queued) (d : D) : (s.redoLast d).2.1.Queued := by
  obtain ⟨undo, redo, limit⟩ := s
  cases redo with
  | nil => exact h
  | cons command redo =>
    simp only [UndoStack.redoLast]
    rcases hstep : command.apply d with ⟨e | inverse, d'⟩
    · exact h
    · exact ⟨List.forall_mem_cons.2 ⟨(Command.undone command hstep).1, h.undo⟩,
        (List.forall_mem_cons.1 h.redo).2⟩

def Action.map (f : D → E) : Action D → Action E
  | .apply command fits => .apply (command.map f) ((Command.mutations_map f command).trans_lt fits)
  | .undo => .undo
  | .redo => .redo

def Action.sources : Action D → List D
  | .apply command _ => command.sources
  | .undo => []
  | .redo => []

namespace Session

/-- What a user is told of an action: whether there was anything to do, or why it failed. -/
def answer (s : Session D) : Action D → Except Error Bool
  | .apply command _ => (s.stack.applyCommand command s.document).1.map fun _ => true
  | .undo => (s.stack.undoLast s.document).1
  | .redo => (s.stack.redoLast s.document).1

omit [LawfulDocument D] in
theorem answer_import (s : Session D) (source : D) (ids : List PageId) (atIndex : Nat)
    (fits : (Command.importPages source ids atIndex).mutations < 2 ^ 64) :
    s.answer (.apply (.importPages source ids atIndex) fits) =
      (Document.importPages source ids atIndex s.document).1.map fun _ => true := by
  unfold answer UndoStack.applyCommand
  dsimp only
  rw [Command.apply_importPages]
  unfold Command.applyImportPages
  rcases Document.importPages source ids atIndex s.document with ⟨e | newIds, d'⟩
  · rfl
  · dsimp only
    split <;> rfl

def answers : List (Action D) → Session D → List (Except Error Bool)
  | [], _ => []
  | action :: actions, s => s.answer action :: answers actions (s.step action)

def look (s : Session D) : Session VecDocument := ⟨s.stack.map seen, seen s.document, s.cursor⟩

/-- Whether an application is recorded can be seen. -/
theorem records_seen {command : Command D} (h : command.AsSeen) (d : D) :
    records (command.map seen) (seen d) = records command d := by
  unfold records
  rw [h d]
  rcases command.apply d with ⟨_ | _, _⟩ <;> rfl

/-- One action: the same answer, and the same session to look at. -/
theorem look_step {s : Session D} (hs : s.stack.Queued) {action : Action D}
    (haction : ∀ source ∈ action.sources, ImportsAsSeen source) :
    s.look.answer (action.map seen) = s.answer action ∧
    s.look.step (action.map seen) = (s.step action).look ∧ (s.step action).stack.Queued := by
  cases action with
  | apply command fits =>
    have hcommand := Command.asSeen haction
    have hafter := applyCommand_seen hcommand s.stack s.document
    refine ⟨congrArg (fun after => after.1.map fun _ => true) hafter, ?_,
      hs.applyCommand command s.document⟩
    simp only [step, Action.map, look, hafter, records_seen hcommand]
    rfl
  | undo =>
    have hafter := undoLast_seen hs s.document
    refine ⟨congrArg Prod.fst hafter, ?_, hs.undoLast s.document⟩
    simp only [step, Action.map, look, hafter]
    rfl
  | redo =>
    have hafter := redoLast_seen hs s.document
    refine ⟨congrArg Prod.fst hafter, ?_, hs.redoLast s.document⟩
    simp only [step, Action.map, look, hafter]
    rfl

/-- A whole run. -/
theorem look_run {s : Session D} (hs : s.stack.Queued) {actions : List (Action D)}
    (hactions : ∀ action ∈ actions, ∀ source ∈ action.sources, ImportsAsSeen source) :
    answers (actions.map (Action.map seen)) s.look = answers actions s ∧
    s.look.run (actions.map (Action.map seen)) = (s.run actions).look ∧
    (s.run actions).stack.Queued := by
  induction actions generalizing s with
  | nil => exact ⟨rfl, rfl, hs⟩
  | cons action actions ih =>
    obtain ⟨hfirst, hrest⟩ := List.forall_mem_cons.1 hactions
    obtain ⟨hanswer, hlook, hqueued⟩ := look_step hs hfirst
    obtain ⟨hanswers, hrun, hqueued'⟩ := ih hqueued hrest
    refine ⟨?_, ?_, hqueued'⟩
    · rw [List.map_cons, answers, answers, hanswer, hlook, hanswers]
    · rw [List.map_cons]
      change (s.look.step (action.map seen)).run _ = _
      rw [hlook, hrun]
      rfl

theorem queued_start (limit : { n : Nat // 0 < n }) (d : D) :
    (start limit d).stack.Queued :=
  ⟨List.forall_mem_nil _, List.forall_mem_nil _⟩

end Session
end UndoStack

end Seen

/-! ### Files as sources -/

namespace PdfDocument

variable [Lopdf]

/-- The pages looked up for an import are those of the slots found. -/
theorem mapM_page_eq (d : PdfDocument) (ids : List PageId) :
    ids.mapM (Document.page · d) = (ids.mapM d.pages.findSlot).map (List.map PageSlot.info) := by
  induction ids with
  | nil => rfl
  | cons id ids ih =>
    have hpage : Document.page id d = (d.pages.findSlot id).map PageSlot.info := rfl
    rw [List.mapM_cons, List.mapM_cons, ih, hpage]
    cases d.pages.findSlot id with
    | error e => rfl
    | ok slot => cases ids.mapM d.pages.findSlot <;> rfl

/-- Every page of the file can be copied. -/
def AllCopyable (d : PdfDocument) : Prop := ∀ slot ∈ d.pages.live, IsCopyable d.view slot

/-- A file whose pages can all be copied is a source like the one seen of it. -/
theorem AllCopyable.importsAsSeen [LawfulDereference] {source : PdfDocument}
    (h : source.AllCopyable) : ImportsAsSeen source := by
  intro ids atIndex d
  change VecDocument.importPages (seen source) ids atIndex (seen d) =
    (importPages source ids atIndex d).within seen
  have hpages : ids.mapM (VecDocument.page · (seen source)) =
      (ids.mapM source.pages.findSlot).map (List.map PageSlot.info) := by
    rw [← mapM_page_eq]
    exact congrArg ids.mapM (funext fun id => page_seen id source)
  have hlength : (seen d).roster.live.length = d.pages.live.length := List.length_map _
  unfold VecDocument.importPages importPages
  by_cases hat : atIndex ≤ d.pages.live.length
  swap
  · rw [checkInsertionIndex_beyond hat, checkInsertionIndex_beyond (hlength ▸ hat), hlength]
    rfl
  rw [checkInsertionIndex_eq_ok.2 hat, checkInsertionIndex_eq_ok.2 (hlength ▸ hat)]
  dsimp only
  rw [hpages]
  cases hslots : ids.mapM source.pages.findSlot with
  | error e => rfl
  | ok slots =>
    dsimp only [Except.map]
    have hlive : ∀ slot ∈ slots, slot ∈ source.pages.live := fun slot hslot => by
      obtain ⟨id, -, hid⟩ := Traversal.exists_of_mapM hslots hslot
      exact (Roster.findSlot_eq_ok.1 hid).1
    rcases importResolved_error source.view slots d hat with
      ⟨-, newIds, hok⟩ | ⟨before, bad, after, rfl, -, hbad, -⟩
    · have himported : importResolved source.view slots atIndex d =
          (.ok newIds, (importResolved source.view slots atIndex d).2) := Prod.ext hok rfl
      have hkeeps := importResolved_keeps source.view slots d hat
      have hinsert := importResolved_ok hat himported
      have hinserted : (seen d).roster.insertEach PageInfo.withId PageInfo.pageId_withId
          (slots.map PageSlot.info) atIndex = .ok (newIds, _) := hinsert
      rw [himported, hinserted]
      have hcommit : ∀ d₁ : PdfDocument, d₁.id = d.id → d₁.revision = d.revision →
          (seen d).commit d₁.pages.infos = seen { d₁ with
            dirty := if newIds.isEmpty then d₁.dirty else ⟨true, true⟩
            revision := d₁.revision + 1 } := by
        intro d₁ hid hrevision
        have hsame : VecDocument.mk d.id d₁.pages.infos (d.revision + 1) =
            ⟨d₁.id, d₁.pages.infos, d₁.revision + 1⟩ := by rw [hid, hrevision]
        exact hsame
      exact Prod.ext rfl (hcommit _ hkeeps.id hkeeps.revision)
    · exact absurd (h bad (hlive bad (by simp))) hbad

/-- Only such a file is: appended to itself, it shows whether a page cannot be copied. -/
theorem allCopyable_of_appended [LawfulDereference] {source : PdfDocument}
    (h : (Document.importPages source (Document.pageIds source) (Document.pageCount source) source).1.map
        (fun _ => true) =
      (Document.importPages (seen source) (Document.pageIds source) (Document.pageCount source)
        (seen source)).1.map fun _ => true) : source.AllCopyable := by
  obtain ⟨newIds, after, hvec⟩ := (VecDocument.importsCopyable (seen source) (seen source)
    (Document.pageIds source) fun id hid => pageIds_seen source ▸ hid).2 fun _ _ => trivial
  rw [pageCount_seen] at hvec
  rw [hvec] at h
  rcases himport : Document.importPages source (Document.pageIds source) (Document.pageCount source)
    source with ⟨e | newIds', after'⟩
  · rw [himport] at h
    cases h
  · intro slot hslot
    have hcopyable := (importsCopyable source source (Document.pageIds source) fun id hid => hid).1
      ⟨newIds', after', himport⟩ (pageId slot) (List.mem_map_of_mem hslot)
    exact (copyablePage_iff hslot).1 hcopyable

end PdfDocument

namespace UndoStack

variable [Lopdf]

/-- The session over a file goes as the one over what is seen of it: the same answers and errors,
the same pages, identities and revisions, the same stacks. Its history is faithful, and neither
undo nor redo fails. -/
structure EditedAsInMemory (p : PdfDocument) (limit : { n : Nat // 0 < n })
    (actions : List (Action PdfDocument)) : Prop where
  answers : Session.answers actions (.start limit p) =
    Session.answers (actions.map (Action.map seen)) (.start limit (seen p))
  look : ((Session.start limit p).run actions).look =
    (Session.start limit (seen p)).run (actions.map (Action.map seen))
  present : pageList ((Session.start limit p).run actions).document =
    ((Session.start limit p).run actions).cursor.present
  undo : (((Session.start limit p).run actions).stack.undoLast
      ((Session.start limit p).run actions).document).1 =
    .ok ((Session.start limit p).run actions).cursor.canGoBack
  redo : (((Session.start limit p).run actions).stack.redoLast
      ((Session.start limit p).run actions).document).1 =
    .ok ((Session.start limit p).run actions).cursor.canGoForward

/-- Every session drawing on copyable sources is edited as in memory. -/
theorem editedAsInMemory [LawfulDereference] (p : PdfDocument) (limit : { n : Nat // 0 < n })
    {actions : List (Action PdfDocument)}
    (hsources : ∀ action ∈ actions, ∀ source ∈ action.sources, source.AllCopyable) :
    EditedAsInMemory p limit actions := by
  obtain ⟨hanswers, hrun, hqueued⟩ := Session.look_run (Session.queued_start limit p)
    fun action haction source hsource => (hsources action haction source hsource).importsAsSeen
  have hrun : (Session.start limit (seen p)).run (actions.map (Action.map seen)) =
    ((Session.start limit p).run actions).look := hrun
  -- over the in-memory document every command is all or nothing, so its history is faithful
  have hstart : (Session.start limit (seen p)).Faithful := Follows.start limit (seen p)
  have hfollows := (Session.faithful_run VecDocument.atomic hstart
    (actions.map (Action.map seen))).1
  rw [hrun] at hfollows
  refine ⟨hanswers.symm, hrun.symm, hfollows.tracks.present, ?_, ?_⟩
  · have hundone := congrArg Prod.fst (undoLast_seen hqueued ((Session.start limit p).run actions).document)
    exact hundone.symm.trans (Follows.undoLast hfollows).2.1
  · have hredone := congrArg Prod.fst (redoLast_seen hqueued ((Session.start limit p).run actions).document)
    exact hredone.symm.trans (Follows.redoLast hfollows).2.1

/-- Editing files goes, in every session, as editing in memory what is seen of them exactly when
every page of the files drawn on can be copied. -/
theorem files_are_edited_as_in_memory [LawfulDereference] (sources : PdfDocument → Prop) :
    (∀ source, sources source → source.AllCopyable) ↔
      ∀ (p : PdfDocument) (limit : { n : Nat // 0 < n }) (actions : List (Action PdfDocument)),
        (∀ action ∈ actions, ∀ source ∈ action.sources, sources source) →
          EditedAsInMemory p limit actions := by
  constructor
  · intro hcopyable p limit actions hactions
    exact editedAsInMemory p limit fun action haction source hsource =>
      hcopyable source (hactions action haction source hsource)
  · intro hedited source hsource
    have fits : (Command.importPages source (Document.pageIds source) (Document.pageCount source)
      : Command PdfDocument).mutations < 2 ^ 64 := by
      change 1 < 2 ^ 64
      decide
    have h := (hedited source defaultUndoLimit [.apply (.importPages source _ _) fits]
      (by simpa [Action.sources, Command.sources] using hsource)).answers
    simp only [Session.answers, List.map_cons, List.map_nil, Action.map, Session.answer_import,
      Command.map, List.cons.injEq, and_true] at h
    exact PdfDocument.allCopyable_of_appended h

end UndoStack

/-! ### One session over a file -/

namespace SeenSession

open UndoStack
open scoped ReferenceLopdf

/-- Two copies of the file are appended and undone, a refused sequence changes nothing, and the
append is redone. -/
def edits : List (Action PdfDocument) :=
  [.apply (.merge [NestedFile.opened, NestedFile.opened]) (by decide), .undo,
    .apply (.sequence "Turn" [.setRotation 0 .half, .removePage 9]) (by decide), .redo]

theorem allCopyable_opened : NestedFile.opened.AllCopyable := by
  have hread : ∀ slot ∈ NestedFile.opened.pages.live,
      ((NestedFile.opened.view.lookup slot.objectId).bind Object.asDict).isSome = true := by
    decide +kernel
  intro slot hslot
  obtain ⟨dict, hdict⟩ := Option.isSome_iff_exists.1 (hread slot hslot)
  obtain ⟨object, hobject, hdict⟩ := Option.bind_eq_some_iff.1 hdict
  exact ⟨dict, by rw [hobject, Object.asDict_eq_some.1 hdict]⟩

theorem sources_edits : ∀ action ∈ edits, ∀ source ∈ action.sources, source.AllCopyable := by
  have hsources : ∀ action ∈ edits, ∀ source ∈ action.sources, source = NestedFile.opened := by
    simp [edits, Action.sources, Command.sources, Command.sourcesOf]
  intro action haction source hsource
  rw [hsources action haction source hsource]
  exact allCopyable_opened

end SeenSession

open scoped ReferenceLopdf in
/-- What the user is told, and the pages there are in the end, computed in memory. -/
theorem copies_are_appended_as_in_memory :
    (UndoStack.Session.answers SeenSession.edits (.start defaultUndoLimit
      NestedFile.opened)).map Except.toOption = [some true, some true, none, some true] ∧
    Document.pageIds ((UndoStack.Session.start defaultUndoLimit NestedFile.opened).run
      SeenSession.edits).document = [0, 1, 2, 3, 4, 5, 6, 7, 8] := by
  have h := (UndoStack.files_are_edited_as_in_memory PdfDocument.AllCopyable).1 (fun _ h => h)
    NestedFile.opened defaultUndoLimit SeenSession.edits SeenSession.sources_edits
  refine ⟨?_, ?_⟩
  · rw [h.answers]
    decide +kernel
  · have hdocument := congrArg UndoStack.Session.document h.look
    rw [← pageIds_seen]
    exact (congrArg Document.pageIds hdocument).trans (by decide +kernel)

end OpdfEditor
