import OpdfEditor.Document

/-!
Every change to a document is a command whose application hands back the command
that reverses it. Composites apply their steps in order and, when one fails,
apply the inverses collected so far, most recent first.

An inverse is computed while applying, so a composite rolls back commands that
are no part of it. Application is therefore bounded by the height of the command,
which no inverse exceeds; `apply_sequence` and its siblings give the recursion
of the source back without the bound.
-/
namespace OpdfEditor

inductive Command (D : Type) where
  | removePage (page : PageId)
  | restorePage (id : PageId) (atIndex : Nat)
  | movePage (page : PageId) (toIndex : Nat)
  | setRotation (page : PageId) (rotation : Rotation)
  | insertBlankPage (atIndex : Nat) (size : PageSize)
  | importPages (source : D) (ids : List PageId) (atIndex : Nat)
  | sequence (label : String) (commands : List (Command D))
  | merge (sources : List D)
  /-- Applies only to the document it was built against. -/
  | boundInverse (binding : DocumentId) (inverse : Command D)

namespace Command

variable {D : Type}

def label : Command D → String
  | removePage page => s!"Remove {PageId.display page}"
  | restorePage id atIndex => s!"Restore {PageId.display id} at position {atIndex + 1}"
  | movePage page toIndex => s!"Move {PageId.display page} to position {toIndex + 1}"
  | setRotation page rotation => s!"Rotate {PageId.display page} to {rotation.degrees} degrees"
  | insertBlankPage atIndex _ => s!"Insert a blank page at position {atIndex + 1}"
  | importPages _ ids atIndex => s!"Import {ids.length} pages at position {atIndex + 1}"
  | sequence label _ => label
  | merge sources => s!"Merge {sources.length} documents"
  | boundInverse _ inverse => inverse.label

mutual
/-- How deeply composites nest; importing and merging hand back a sequence. -/
def height : Command D → Nat
  | sequence _ commands => heights commands + 1
  | boundInverse _ inverse => inverse.height + 1
  | importPages .. | merge _ => 2
  | _ => 1

def heights : List (Command D) → Nat
  | [] => 0
  | command :: commands => max command.height (heights commands)
end

mutual
/-- How many times a successful application advances the revision. -/
def mutations : Command D → Nat
  | sequence _ commands => mutationsOf commands
  | boundInverse _ inverse => inverse.mutations
  | merge sources => sources.length
  | _ => 1

def mutationsOf : List (Command D) → Nat
  | [] => 0
  | command :: commands => command.mutations + mutationsOf commands
end

/-- Commands are no higher than a bound exactly if each of them is. -/
theorem heights_le {commands : List (Command D)} {n : Nat} :
    heights commands ≤ n ↔ ∀ c ∈ commands, c.height ≤ n := by
  induction commands with
  | nil => simp [heights]
  | cons c cs ih => simp [heights, ih]

theorem height_pos (c : Command D) : 0 < c.height := by
  cases c <;> simp [height]

section Apply

variable [Document D]

def applyRemovePage (page : PageId) (d : D) : Outcome D (Command D) :=
  match Document.indexOf page d with
  | .error e => (.error e, d)
  | .ok index =>
    match Document.removePage page d with
    | (.error e, d') => (.error e, d')
    | (.ok (), d') => (.ok (restorePage page index), d')

def applyRestorePage (id : PageId) (atIndex : Nat) (d : D) : Outcome D (Command D) :=
  match Document.restorePage id atIndex d with
  | (.error e, d') => (.error e, d')
  | (.ok (), d') => (.ok (removePage id), d')

def applyMovePage (page : PageId) (toIndex : Nat) (d : D) : Outcome D (Command D) :=
  match Document.indexOf page d with
  | .error e => (.error e, d)
  | .ok fromIndex =>
    match Document.movePage page toIndex d with
    | (.error e, d') => (.error e, d')
    | (.ok (), d') => (.ok (movePage page fromIndex), d')

def applySetRotation (page : PageId) (rotation : Rotation) (d : D) : Outcome D (Command D) :=
  match Document.page page d with
  | .error e => (.error e, d)
  | .ok info =>
    match Document.setRotation page rotation d with
    | (.error e, d') => (.error e, d')
    | (.ok (), d') => (.ok (setRotation page info.rotation), d')

def applyInsertBlankPage (atIndex : Nat) (size : PageSize) (d : D) : Outcome D (Command D) :=
  match Document.insertPage atIndex size d with
  | (.error e, d') => (.error e, d')
  | (.ok id, d') => (.ok (removePage id), d')

def applyImportPages (source : D) (ids : List PageId) (atIndex : Nat) (d : D) :
    Outcome D (Command D) :=
  match Document.importPages source ids atIndex d with
  | (.error e, d') => (.error e, d')
  | (.ok newIds, d') => (.ok (sequence "Undo import" (newIds.map removePage)), d')

variable (run : Command D → D → Outcome D (Command D))

/-- Undo `applied`, most recently applied first, and produce the error to report. Rollback
stops at the first inverse that fails. -/
def rollBack (label : String) (original : Error) : List (Command D) → D → Error × D
  | [], d => (original, d)
  | rollback :: applied, d =>
    match run rollback d with
    | (.ok _, d') => rollBack label original applied d'
    | (.error e, d') =>
      (.rollbackFailed original (.unsupported
        s!"'{label}' was left partially applied because undoing '{rollback.label}' reported: {e.display}"),
        d')

def applySequence (label : String) : List (Command D) → List (Command D) → D → Outcome D (Command D)
  | [], applied, d => (.ok (sequence s!"Undo: {label}" applied), d)
  | command :: commands, applied, d =>
    match run command d with
    | (.ok inverse, d') => applySequence label commands (inverse :: applied) d'
    | (.error e, d') =>
      let (error, d'') := rollBack run label e applied d'
      (.error error, d'')

/-- Append every page of every source, in order; `removals` is most recent first. -/
def applyMerge (count : Nat) : List D → List (Command D) → D → Outcome D (Command D)
  | [], removals, d => (.ok (sequence s!"Undo merge of {count} documents" removals), d)
  | source :: sources, removals, d =>
    match Document.importPages source (Document.pageIds source) (Document.pageCount d) d with
    | (.ok newIds, d') => applyMerge count sources ((newIds.map removePage).reverse ++ removals) d'
    | (.error e, d') =>
      let (error, d'') := rollBack run s!"Merge {count} documents" e removals d'
      (.error error, d'')

def applyBoundInverse (binding : DocumentId) (inverse : Command D) (d : D) : Outcome D (Command D) :=
  if binding ≠ Document.id d then
    (.error (.unsupported (s!"'{inverse.label}' was built against {DocumentId.display binding} and must not be applied to {DocumentId.display (Document.id d)}: its page ids name pages of the document it came from")), d)
  else
    match run inverse d with
    | (.error e, d') => (.error e, d')
    | (.ok redo, d') => (.ok (boundInverse binding redo), d')

/-- One application, with the applications inside it left to `run`. -/
def dispatch : Command D → D → Outcome D (Command D)
  | removePage page => applyRemovePage page
  | restorePage id atIndex => applyRestorePage id atIndex
  | movePage page toIndex => applyMovePage page toIndex
  | setRotation page rotation => applySetRotation page rotation
  | insertBlankPage atIndex size => applyInsertBlankPage atIndex size
  | importPages source ids atIndex => applyImportPages source ids atIndex
  | sequence label commands => applySequence run label commands []
  | merge sources => applyMerge run sources.length sources []
  | boundInverse binding inverse => applyBoundInverse run binding inverse

/-- Application with a bound on how deeply composites may still nest. -/
def applyAt : Nat → Command D → D → Outcome D (Command D)
  | 0 => fun _ d => (.error (.unsupported "nested too deeply"), d)
  | fuel + 1 => dispatch (applyAt fuel)

def apply (c : Command D) (d : D) : Outcome D (Command D) := applyAt c.height c d

end Apply

/-! ### The bound is never reached -/

section Fuel

/-- No application hands back a command that nests deeper than the one applied. -/
def KeepsHeight (run : Command D → D → Outcome D (Command D)) : Prop :=
  ∀ {c inverse : Command D} {d d' : D}, run c d = (.ok inverse, d') → inverse.height ≤ c.height

/-- The inverse of a sequence nests no deeper than its steps. -/
theorem applySequence_height {run : Command D → D → Outcome D (Command D)} (hrun : KeepsHeight run)
    {label : String} {commands applied : List (Command D)} {inverse : Command D} {d d' : D} {n : Nat}
    (hc : heights commands ≤ n) (ha : heights applied ≤ n)
    (h : applySequence run label commands applied d = (.ok inverse, d')) : inverse.height ≤ n + 1 := by
  induction commands generalizing applied d with
  | nil =>
    simp only [applySequence, Prod.mk.injEq, Except.ok.injEq] at h
    rw [← h.1]
    simpa [height] using ha
  | cons c cs ih =>
    simp only [heights, max_le_iff] at hc
    unfold applySequence at h
    split at h
    · rename_i inv d₁ hstep
      exact ih hc.2 (by simpa [heights] using ⟨(hrun hstep).trans hc.1, ha⟩) h
    · cases h

theorem heights_map_removePage (ids : List PageId) :
    heights (ids.map (removePage (D := D))) ≤ 1 := by
  rw [heights_le]
  intro c hc
  obtain ⟨id, -, rfl⟩ := List.mem_map.1 hc
  exact Nat.le_refl _

theorem heights_append {cs cs' : List (Command D)} {n : Nat} :
    heights (cs ++ cs') ≤ n ↔ heights cs ≤ n ∧ heights cs' ≤ n := by
  simp [heights_le, or_imp, forall_and]

/-- Two ways to run commands that agree up to a height. -/
def AgreeTo (n : Nat) (run run' : Command D → D → Outcome D (Command D)) : Prop :=
  ∀ c : Command D, c.height ≤ n → run c = run' c

/-- Rolling back asks only for commands as high as those applied. -/
theorem rollBack_congr {run run' : Command D → D → Outcome D (Command D)} {n : Nat}
    (hrun : AgreeTo n run run') (label : String) (original : Error) (applied : List (Command D))
    (d : D) (ha : heights applied ≤ n) :
    rollBack run label original applied d = rollBack run' label original applied d := by
  induction applied generalizing d with
  | nil => rfl
  | cons c cs ih =>
    simp only [heights, max_le_iff] at ha
    simp only [rollBack, hrun c ha.1, ih _ ha.2]

/-- A sequence asks only for commands as high as its steps. -/
theorem applySequence_congr {run run' : Command D → D → Outcome D (Command D)} {n : Nat}
    (hrun : AgreeTo n run run') (hkeep : KeepsHeight run) (label : String)
    (commands applied : List (Command D)) (d : D) (hc : heights commands ≤ n)
    (ha : heights applied ≤ n) :
    applySequence run label commands applied d = applySequence run' label commands applied d := by
  induction commands generalizing applied d with
  | nil => rfl
  | cons c cs ih =>
    simp only [heights, max_le_iff] at hc
    unfold applySequence
    rw [← hrun c hc.1]
    split
    · rename_i inverse d' hstep
      exact ih _ _ hc.2 (by simpa [heights] using ⟨(hkeep hstep).trans hc.1, ha⟩)
    · rw [rollBack_congr hrun _ _ _ _ ha]

variable [Document D]

/-- The inverse of a merge is a sequence of removals. -/
theorem applyMerge_height {run : Command D → D → Outcome D (Command D)} {count : Nat}
    {sources : List D} {removals : List (Command D)} {inverse : Command D} {d d' : D}
    (hr : heights removals ≤ 1) (h : applyMerge run count sources removals d = (.ok inverse, d')) :
    inverse.height ≤ 2 := by
  induction sources generalizing removals d with
  | nil =>
    simp only [applyMerge, Prod.mk.injEq, Except.ok.injEq] at h
    rw [← h.1]
    simpa [height] using hr
  | cons source sources ih =>
    unfold applyMerge at h
    split at h
    · rename_i newIds d₁ hstep
      refine ih (heights_append.2 ⟨?_, hr⟩) h
      have := heights_le.1 (heights_map_removePage (D := D) newIds)
      exact heights_le.2 fun c hc => this c (List.mem_reverse.1 hc)
    · cases h

/-- One application hands back nothing deeper, if those inside it do not. -/
theorem dispatch_height {run : Command D → D → Outcome D (Command D)} (hrun : KeepsHeight run) :
    KeepsHeight (dispatch run) := by
  intro c inverse d d' h
  cases c with
  | removePage page =>
    simp only [dispatch, applyRemovePage] at h
    split at h
    · cases h
    split at h <;> cases h
    exact Nat.le_refl _
  | restorePage id atIndex =>
    simp only [dispatch, applyRestorePage] at h
    split at h <;> cases h
    exact Nat.le_refl _
  | movePage page toIndex =>
    simp only [dispatch, applyMovePage] at h
    split at h
    · cases h
    split at h <;> cases h
    exact Nat.le_refl _
  | setRotation page rotation =>
    simp only [dispatch, applySetRotation] at h
    split at h
    · cases h
    split at h <;> cases h
    exact Nat.le_refl _
  | insertBlankPage atIndex size =>
    simp only [dispatch, applyInsertBlankPage] at h
    split at h <;> cases h
    exact Nat.le_refl _
  | importPages source ids atIndex =>
    simp only [dispatch, applyImportPages] at h
    split at h <;> cases h
    exact Nat.succ_le_succ (heights_map_removePage _)
  | sequence label commands => exact applySequence_height hrun (Nat.le_refl _) (Nat.zero_le _) h
  | merge sources => exact applyMerge_height (Nat.zero_le _) h
  | boundInverse binding inner =>
    simp only [dispatch, applyBoundInverse] at h
    split at h
    · cases h
    split at h
    · cases h
    rename_i redo d₁ hstep
    cases h
    exact Nat.succ_le_succ (hrun hstep)

/-- So no application does, at any bound. -/
theorem applyAt_height (fuel : Nat) : KeepsHeight (applyAt (D := D) fuel) := by
  induction fuel with
  | zero =>
    intro c inverse d d' h
    cases h
  | succ fuel ih => exact dispatch_height ih

theorem applyMerge_congr {run run' : Command D → D → Outcome D (Command D)} {n : Nat} (hn : 1 ≤ n)
    (hrun : AgreeTo n run run') (count : Nat) (sources : List D) (removals : List (Command D)) (d : D)
    (hr : heights removals ≤ n) :
    applyMerge run count sources removals d = applyMerge run' count sources removals d := by
  induction sources generalizing removals d with
  | nil => rfl
  | cons source sources ih =>
    unfold applyMerge
    split
    · rename_i newIds d' hstep
      refine ih _ _ (heights_append.2 ⟨?_, hr⟩)
      have := heights_le.1 (heights_map_removePage (D := D) newIds)
      exact heights_le.2 fun c hc => (this c (List.mem_reverse.1 hc)).trans hn
    · rw [rollBack_congr hrun _ _ _ _ hr]

/-- One application asks only for commands less high. -/
theorem dispatch_congr {run run' : Command D → D → Outcome D (Command D)} (hkeep : KeepsHeight run)
    (c : Command D) (hrun : AgreeTo (c.height - 1) run run') :
    dispatch run c = dispatch run' c := by
  funext d
  cases c with
  | sequence label commands =>
    exact applySequence_congr hrun hkeep label commands [] d (Nat.le_refl _) (Nat.zero_le _)
  | merge sources =>
    exact applyMerge_congr (Nat.le_refl 1) hrun _ sources [] d (Nat.zero_le _)
  | boundInverse binding inverse =>
    simp only [dispatch, applyBoundInverse, hrun inverse (Nat.le_refl _)]
  | _ => rfl

/-- Any bound that covers the height gives the same application. -/
theorem applyAt_eq {c : Command D} {n m : Nat} (hn : c.height ≤ n) (hm : c.height ≤ m) :
    applyAt n c = applyAt m c := by
  induction n generalizing m c with
  | zero => exact absurd (height_pos c) (by omega)
  | succ n ih =>
    obtain ⟨m, rfl⟩ : ∃ k, m = k + 1 := ⟨m - 1, by have := height_pos c; omega⟩
    refine dispatch_congr (applyAt_height n) c fun inner hinner => ?_
    exact ih (by omega) (by omega)

/-- A bound the command stays under makes no difference. -/
theorem applyAt_eq_apply {c : Command D} {n : Nat} (hn : c.height ≤ n) : applyAt n c = apply c :=
  applyAt_eq hn (Nat.le_refl _)

/-- Application unfolds once, with nothing left of the bound. -/
theorem apply_eq_dispatch (c : Command D) : apply c = dispatch apply c := by
  obtain ⟨n, hn⟩ : ∃ n, c.height = n + 1 := ⟨c.height - 1, by have := height_pos c; omega⟩
  have : apply c = dispatch (applyAt n) c := by
    funext d
    simp only [apply, hn, applyAt]
  rw [this]
  refine dispatch_congr (applyAt_height n) c fun inner hinner => ?_
  exact applyAt_eq_apply (by omega)

/-- The recursive equations of the composites. -/
theorem apply_sequence (label : String) (commands : List (Command D)) :
    apply (sequence label commands) = applySequence apply label commands [] :=
  apply_eq_dispatch _

theorem apply_merge (sources : List D) :
    apply (merge sources) = applyMerge apply sources.length sources [] :=
  apply_eq_dispatch _

theorem apply_boundInverse (binding : DocumentId) (inverse : Command D) :
    apply (boundInverse binding inverse) = applyBoundInverse apply binding inverse :=
  apply_eq_dispatch _

@[simp] theorem apply_removePage (page : PageId) :
    apply (D := D) (removePage page) = applyRemovePage page := rfl
@[simp] theorem apply_restorePage (id : PageId) (atIndex : Nat) :
    apply (D := D) (restorePage id atIndex) = applyRestorePage id atIndex := rfl
@[simp] theorem apply_movePage (page : PageId) (toIndex : Nat) :
    apply (D := D) (movePage page toIndex) = applyMovePage page toIndex := rfl
@[simp] theorem apply_setRotation (page : PageId) (rotation : Rotation) :
    apply (D := D) (setRotation page rotation) = applySetRotation page rotation := rfl
@[simp] theorem apply_insertBlankPage (atIndex : Nat) (size : PageSize) :
    apply (D := D) (insertBlankPage atIndex size) = applyInsertBlankPage atIndex size := rfl
@[simp] theorem apply_importPages (source : D) (ids : List PageId) (atIndex : Nat) :
    apply (importPages source ids atIndex) = applyImportPages source ids atIndex := rfl

end Fuel
end Command

def deleteSelection (ids : List PageId) : Command D :=
  let label := match ids.length with
    | 0 => "Delete no pages"
    | 1 => "Delete 1 page"
    | count => s!"Delete {count} pages"
  .sequence label (ids.map .removePage)

def rotateSelection (ids : List PageId) (rotation : Rotation) : Command D :=
  let label := match ids.length with
    | 0 => s!"Rotate no pages to {rotation.degrees} degrees"
    | 1 => s!"Rotate 1 page to {rotation.degrees} degrees"
    | count => s!"Rotate {count} pages to {rotation.degrees} degrees"
  .sequence label (ids.map (.setRotation · rotation))

end OpdfEditor
