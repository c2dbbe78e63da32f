import OpdfEditor.CommandSteps

/-!
Splitting a document in two: the tail is copied into a second document and then
removed from the first.
-/
namespace OpdfEditor

variable {D : Type} [Document D]

/-- Split a document at a boundary; answers the inverse of the removal, and both documents. -/
def splitAt (document target : D) (boundaryIndex : Nat) : Except Error (Command D) × D × D :=
  let pageIds := Document.pageIds document
  if boundaryIndex > pageIds.length then
    (.error (.indexOutOfBounds boundaryIndex pageIds.length), document, target)
  else
    let tailIds := pageIds.drop boundaryIndex
    match Document.importPages document tailIds (Document.pageCount target) target with
    | (.error e, target') => (.error e, document, target')
    | (.ok _, target') =>
      match (Command.sequence "Split off the tail" (tailIds.map .removePage)).apply document with
      | (.error e, document') => (.error e, document', target')
      | (.ok inverse, document') =>
        (.ok (.boundInverse (Document.id document') inverse), document', target')

def removeEach (document : D) (ids : List PageId) : D :=
  ids.foldl (fun d id => (Document.removePage id d).2) document

theorem applySequence_removals {label : String} {ids : List PageId} {applied : List (Command D)}
    {inverse : Command D} {d d' : D}
    (h : Command.applySequence Command.apply label (ids.map .removePage) applied d =
      (.ok inverse, d')) : d' = removeEach d ids := by
  induction ids generalizing applied d with
  | nil =>
    cases h
    rfl
  | cons id ids ih =>
    rw [List.map_cons, Command.applySequence, Command.apply_removePage] at h
    split at h
    · rename_i inv d₁ hremove
      have hstep : d₁ = (Document.removePage id d).2 := by
        unfold Command.applyRemovePage at hremove
        split at hremove
        · cases hremove
        split at hremove
        · cases hremove
        rename_i hok
        cases hremove
        rw [hok]
      rw [ih h, hstep]
      rfl
    · cases h

/-- A split that succeeds, taken apart. -/
theorem splitAt_eq_ok {document target head tail : D} {boundaryIndex : Nat} {inverse : Command D}
    (h : splitAt document target boundaryIndex = (.ok inverse, head, tail)) :
    let tailIds := (Document.pageIds document).drop boundaryIndex
    ∃ newIds removal,
      Document.importPages document tailIds (Document.pageCount target) target = (.ok newIds, tail) ∧
      (Command.sequence "Split off the tail" (tailIds.map .removePage)).apply document =
        (.ok removal, head) ∧
      inverse = .boundInverse (Document.id head) removal := by
  unfold splitAt at h
  dsimp only at h
  split at h
  · cases h
  split at h
  · cases h
  rename_i newIds target' himport
  split at h
  · cases h
  rename_i removal document' hsequence
  cases h
  exact ⟨newIds, removal, himport, hsequence, rfl⟩

/-- A split that succeeds leaves the head with the tail removed. -/
theorem splitAt_head {document target head tail : D} {boundaryIndex : Nat} {inverse : Command D}
    (h : splitAt document target boundaryIndex = (.ok inverse, head, tail)) :
    head = removeEach document ((Document.pageIds document).drop boundaryIndex) := by
  obtain ⟨-, removal, -, hsequence, -⟩ := splitAt_eq_ok h
  rw [Command.apply_sequence] at hsequence
  exact applySequence_removals hsequence

end OpdfEditor
