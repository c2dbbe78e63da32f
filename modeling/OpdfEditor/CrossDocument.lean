import OpdfEditor.CommandReplay
import OpdfEditor.Split
import OpdfEditor.VecDocument

/-!
Operations over two documents hand back an inverse for one of them. Every document
counts its pages from zero, so nothing but the binding keeps that inverse, and what
it hands back in turn, from taking pages out of the other.
-/
namespace OpdfEditor

/-- What an extraction added to the target, and how to take it back out. -/
structure Extraction (D : Type) where
  pageIds : List PageId
  inverse : Command D

section Operations

variable {D : Type} [Document D]

def extractRange (source target : D) (startIndex endIndex : Nat) : Outcome D (Extraction D) :=
  let pageIds := Document.pageIds source
  if endIndex > pageIds.length then
    (.error (.indexOutOfBounds endIndex pageIds.length), target)
  else if startIndex > endIndex then (.error (.invalidRange startIndex endIndex), target)
  else
    let ids := (pageIds.take endIndex).drop startIndex
    match Document.importPages source ids (Document.pageCount target) target with
    | (.error e, target') => (.error e, target')
    | (.ok newIds, target') =>
      (.ok ⟨newIds, .boundInverse (Document.id target')
        (.sequence "Undo extraction" (newIds.map .removePage))⟩, target')

end Operations

namespace Command

variable {D : Type} [Document D]

/-- Commands obtained from one by applying it, then what it hands back, and so on, to
whatever documents. -/
inductive HandedDown : Command D → Command D → Prop
  | refl {c} : HandedDown c c
  | step {c c' c'' d d'} (rest : HandedDown c c') (happly : c'.apply d = (.ok c'', d')) :
      HandedDown c c''

/-- A binding is never shed. -/
theorem HandedDown.bound {binding : DocumentId} {c c' : Command D} (h : HandedDown c c')
    (hc : ∃ inner, c = boundInverse binding inner) : ∃ inner, c' = boundInverse binding inner := by
  induction h with
  | refl => exact hc
  | step rest happly ih =>
    obtain ⟨inner, rfl⟩ := ih
    rw [apply_boundInverse] at happly
    unfold applyBoundInverse at happly
    split at happly
    · cases happly
    split at happly
    · cases happly
    · cases happly
      exact ⟨_, rfl⟩

/-- A bound command refuses every other document, and leaves it as it is. -/
theorem boundInverse_refuses {binding : DocumentId} (inner : Command D) {other : D}
    (h : Document.id other ≠ binding) :
    ∃ text, (boundInverse binding inner).apply other = (.error (.unsupported text), other) := by
  rw [apply_boundInverse]
  unfold applyBoundInverse
  rw [if_pos h.symm]
  exact ⟨_, rfl⟩

/-- On its own document it does what the command inside does. -/
theorem boundInverse_applies {inner redo : Command D} {d d' : D}
    (h : inner.apply d = (.ok redo, d')) :
    (boundInverse (Document.id d) inner).apply d =
      (.ok (boundInverse (Document.id d) redo), d') := by
  rw [apply_boundInverse]
  unfold applyBoundInverse
  rw [if_neg (fun hne => hne rfl), h]

variable [LawfulDocument D]

/-- Everything handed down from an inverse is refused by every document but the one it was built
against, and there, step after step, it leads back and forth between the pages before the
operation and the pages after it. -/
structure StaysBound (inverse : Command D) (before after : D) : Prop where
  refuses : ∀ c, HandedDown inverse c → ∀ other, Document.id other ≠ Document.id after →
    ∃ text, c.apply other = (.error (.unsupported text), other)
  alternates : ∀ n, ∃ c d c' d', UndoHistory.Handover runs n (inverse, after) (c, d) ∧
    c.apply d = (.ok c', d') ∧
    (roster d).live = (if n % 2 = 0 then (roster after).live else (roster before).live) ∧
    (roster d').live = if n % 2 = 0 then (roster before).live else (roster after).live

/-- A bound inverse that runs and lands above the document before the operation stays bound. -/
theorem staysBound_of_apply {inner redo : Command D} {before after d : D}
    (happly : inner.apply after = (.ok redo, d)) (hbelow : Below before d) :
    StaysBound (boundInverse (Document.id after) inner) before after := by
  constructor
  · intro c hc other hother
    obtain ⟨inner', rfl⟩ := hc.bound ⟨inner, rfl⟩
    exact boundInverse_refuses inner' hother
  · intro n
    have hrun := runs_eq_some.2 (boundInverse_applies happly)
    have hview : ∀ {d d' : D}, Below d d' → (roster d).live = (roster d').live :=
      fun h => h.roster.live
    obtain ⟨c, dₙ, c', dₙ', hover, hstep, hhere, hthere⟩ :=
      reversible.alternates hview hrun n
    rw [hbelow.roster.live]
    exact ⟨c, dₙ, c', dₙ', hover, runs_eq_some.1 hstep, hhere, hthere⟩

end Command

section Bound

variable {D : Type} [Document D] [LawfulDocument D]

theorem extractRange_bound {source target target' : D} {startIndex endIndex : Nat}
    {extraction : Extraction D}
    (h : extractRange source target startIndex endIndex = (.ok extraction, target')) :
    extraction.inverse.StaysBound target target' := by
  unfold extractRange at h
  dsimp only at h
  split at h
  · cases h
  split at h
  · cases h
  split at h
  · cases h
  · rename_i newIds d₁ himport
    cases h
    have hunwinds := Command.unwinds_import himport (.refl newIds)
    have hundone : ∃ redo d,
        (Command.sequence "Undo extraction" (newIds.map .removePage)).apply target' = (.ok redo, d) ∧
          Below target d :=
      (Command.undone_of_unwinds (Command.recorded_map_removePage newIds) hunwinds).2
    obtain ⟨redo, d, happly, hbelow⟩ := hundone
    exact Command.staysBound_of_apply happly hbelow

theorem splitAt_bound {document target document' target' : D} {boundaryIndex : Nat}
    {inverse : Command D}
    (h : splitAt document target boundaryIndex = (.ok inverse, document', target')) :
    inverse.StaysBound document document' := by
  unfold splitAt at h
  dsimp only at h
  split at h
  · cases h
  split at h
  · cases h
  split at h
  · cases h
  · rename_i hsequence
    cases h
    obtain ⟨-, redo, d, happly, hbelow⟩ := Command.undone _ hsequence
    exact Command.staysBound_of_apply happly hbelow

/-- The inverses of an extraction and of a split stay bound, through any number of undos and
redos. -/
theorem cross_document_inverses_stay_bound (source target : D) :
    (∀ startIndex endIndex extraction target',
      extractRange source target startIndex endIndex = (.ok extraction, target') →
        extraction.inverse.StaysBound target target') ∧
    ∀ boundaryIndex inverse source' target',
      splitAt source target boundaryIndex = (.ok inverse, source', target') →
        inverse.StaysBound source source' :=
  ⟨fun _ _ _ _ h => extractRange_bound h, fun _ _ _ _ h => splitAt_bound h⟩

end Bound

/-- Two pages extracted from one document into another, which shows one page of its own. -/
theorem cross_document_inverses_stay_bound_extracted :
    ∃ extraction target', extractRange (VecDocument.withPages 1 3 .a4)
        (VecDocument.withPages 2 1 .letter) 1 3 = (.ok extraction, target') ∧
      extraction.pageIds = [1, 2] ∧
      extraction.inverse.StaysBound (VecDocument.withPages 2 1 .letter) target' :=
  ⟨_, _, rfl, rfl, (cross_document_inverses_stay_bound (VecDocument.withPages 1 3 .a4)
    (VecDocument.withPages 2 1 .letter)).1 1 3 _ _ rfl⟩

end OpdfEditor
