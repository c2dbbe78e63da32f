import OpdfEditor.Command

/-!
What one application of a command does to the roster of a lawful document, to its
revision and to its identity.
-/
namespace OpdfEditor
namespace Command

variable {D : Type} [Document D] [LawfulDocument D]

/-! ### Leaf commands, as operations on the roster -/

/-- A call that goes through does what the roster does, and counts one revision. -/
theorem mutates_ok {d d' : D} {outcome : Outcome D α} {spec : Except Error (α × Roster PageInfo)}
    {a : α} (h : Mutates roster d outcome spec) (ho : outcome = (.ok a, d')) :
    spec = .ok (a, roster d') ∧ Document.revision d' = Document.revision d + 1 ∧
      Document.id d' = Document.id d := by
  cases spec with
  | error e => exact absurd (h.symm.trans ho) (by simp)
  | ok result =>
    obtain ⟨b, r⟩ := result
    obtain ⟨h1, h2, h3, h4⟩ := h
    subst ho
    simp only [Except.ok.injEq] at h1
    exact ⟨by simp [h1, h2], h3, h4⟩

/-- Where the roster lets it, the call goes through. -/
theorem mutates_of_ok {d : D} {outcome : Outcome D α} {spec : Except Error (α × Roster PageInfo)}
    {a : α} {r : Roster PageInfo} (h : Mutates roster d outcome spec) (hs : spec = .ok (a, r)) :
    ∃ d', outcome = (.ok a, d') ∧ roster d' = r ∧ Document.id d' = Document.id d := by
  subst hs
  exact ⟨outcome.2, Prod.ext h.1 rfl, h.2.1, h.2.2.2⟩

/-- A call that fails leaves the document as it was. -/
theorem mutates_error {d d' : D} {outcome : Outcome D α} {spec : Except Error (α × Roster PageInfo)}
    {e : Error} (h : Mutates roster d outcome spec) (ho : outcome = (.error e, d')) : d' = d := by
  cases spec with
  | error e' => exact congrArg Prod.snd (ho.symm.trans h)
  | ok result =>
    have := h.1
    rw [ho] at this
    cases this

@[simp] theorem except_map_eq_ok {x : Except Error (Roster PageInfo)} {r : Roster PageInfo} :
    x.map (fun r => ((), r)) = .ok ((), r) ↔ x = .ok r := by
  cases x <;> simp [Except.map]

/-- What a leaf command does where it succeeds: the roster moves as specified, and the
document stays the same one. -/
structure Moves (d d' : D) (r : Roster PageInfo) : Prop where
  roster : OpdfEditor.roster d' = r
  id : Document.id d' = Document.id d

/-- A removal that goes through is undone by a restoration to the place the page had. -/
theorem applyRemovePage_ok {page : PageId} {d d' : D} {inverse : Command D}
    (h : applyRemovePage page d = (.ok inverse, d')) :
    ∃ index, (roster d).findIndex page = .ok index ∧ inverse = restorePage page index ∧
      (roster d).removeSlot page = .ok (roster d') ∧
      Document.revision d' = Document.revision d + 1 ∧ Document.id d' = Document.id d := by
  unfold applyRemovePage at h
  rw [LawfulDocument.indexOf_eq] at h
  split at h
  · cases h
  rename_i index hindex
  split at h
  · cases h
  rename_i hremove
  cases h
  obtain ⟨hspec, hrev, hid⟩ := mutates_ok (LawfulDocument.removePage_spec page d) hremove
  exact ⟨index, hindex, rfl, except_map_eq_ok.1 hspec, hrev, hid⟩

/-- A page the roster can remove is removed. -/
theorem applyRemovePage_run {page : PageId} {d : D} {index : Nat} {r : Roster PageInfo}
    (hindex : (roster d).findIndex page = .ok index) (hr : (roster d).removeSlot page = .ok r) :
    ∃ d', applyRemovePage page d = (.ok (restorePage page index), d') ∧ Moves d d' r := by
  obtain ⟨d', hremove, hroster, hid⟩ :=
    mutates_of_ok (LawfulDocument.removePage_spec page d) (except_map_eq_ok.2 hr)
  exact ⟨d', by simp [applyRemovePage, LawfulDocument.indexOf_eq, hindex, hremove], hroster, hid⟩

/-- A restoration that goes through is undone by a removal. -/
theorem applyRestorePage_ok {id : PageId} {atIndex : Nat} {d d' : D} {inverse : Command D}
    (h : applyRestorePage id atIndex d = (.ok inverse, d')) :
    inverse = removePage id ∧ (roster d).restoreSlot id atIndex = .ok (roster d') ∧
      Document.revision d' = Document.revision d + 1 ∧ Document.id d' = Document.id d := by
  unfold applyRestorePage at h
  split at h
  · cases h
  rename_i hrestore
  cases h
  obtain ⟨hspec, hrev, hid⟩ := mutates_ok (LawfulDocument.restorePage_spec id atIndex d) hrestore
  exact ⟨rfl, except_map_eq_ok.1 hspec, hrev, hid⟩

/-- A page the roster can restore is restored. -/
theorem applyRestorePage_run {id : PageId} {atIndex : Nat} {d : D} {r : Roster PageInfo}
    (hr : (roster d).restoreSlot id atIndex = .ok r) :
    ∃ d', applyRestorePage id atIndex d = (.ok (removePage id), d') ∧ Moves d d' r := by
  obtain ⟨d', hrestore, hroster, hid⟩ :=
    mutates_of_ok (LawfulDocument.restorePage_spec id atIndex d) (except_map_eq_ok.2 hr)
  exact ⟨d', by simp [applyRestorePage, hrestore], hroster, hid⟩

/-- A move that goes through is undone by a move back. -/
theorem applyMovePage_ok {page : PageId} {toIndex : Nat} {d d' : D} {inverse : Command D}
    (h : applyMovePage page toIndex d = (.ok inverse, d')) :
    ∃ fromIndex, (roster d).findIndex page = .ok fromIndex ∧ inverse = movePage page fromIndex ∧
      (roster d).relocateSlot page toIndex = (.ok (), roster d') ∧
      Document.revision d' = Document.revision d + 1 ∧ Document.id d' = Document.id d := by
  unfold applyMovePage at h
  rw [LawfulDocument.indexOf_eq] at h
  split at h
  · cases h
  rename_i fromIndex hindex
  split at h
  · cases h
  rename_i hmove
  cases h
  obtain ⟨hspec, hrev, hid⟩ := mutates_ok (LawfulDocument.movePage_spec page toIndex d) hmove
  refine ⟨fromIndex, hindex, rfl, ?_, hrev, hid⟩
  rcases hr : (roster d).relocateSlot page toIndex with ⟨e | ⟨⟩, r⟩
  · simp [hr, Except.map] at hspec
  · simpa [hr, Except.map] using hspec

/-- A page the roster can move is moved. -/
theorem applyMovePage_run {page : PageId} {toIndex fromIndex : Nat} {d : D} {r : Roster PageInfo}
    (hindex : (roster d).findIndex page = .ok fromIndex)
    (hr : (roster d).relocateSlot page toIndex = (.ok (), r)) :
    ∃ d', applyMovePage page toIndex d = (.ok (movePage page fromIndex), d') ∧ Moves d d' r := by
  obtain ⟨d', hmove, hroster, hid⟩ := mutates_of_ok (LawfulDocument.movePage_spec page toIndex d)
    (a := ()) (r := r) (by simp [hr, Except.map])
  exact ⟨d', by simp [applyMovePage, LawfulDocument.indexOf_eq, hindex, hmove], hroster, hid⟩

/-- A rotation that goes through is undone by the one the page had. -/
theorem applySetRotation_ok {page : PageId} {rotation : Rotation} {d d' : D} {inverse : Command D}
    (h : applySetRotation page rotation d = (.ok inverse, d')) :
    ∃ info, (roster d).findSlot page = .ok info ∧ inverse = setRotation page info.rotation ∧
      (roster d).modifySlot page (PageInfo.withRotation rotation) (fun _ => rfl) = .ok (roster d') ∧
      Document.revision d' = Document.revision d + 1 ∧ Document.id d' = Document.id d := by
  unfold applySetRotation at h
  rw [LawfulDocument.page_eq] at h
  split at h
  · cases h
  rename_i info hinfo
  split at h
  · cases h
  rename_i hset
  cases h
  obtain ⟨hspec, hrev, hid⟩ := mutates_ok (LawfulDocument.setRotation_spec page rotation d) hset
  exact ⟨info, hinfo, rfl, except_map_eq_ok.1 hspec, hrev, hid⟩

/-- A page the roster shows is turned. -/
theorem applySetRotation_run {page : PageId} {rotation : Rotation} {d : D} {info : PageInfo}
    {r : Roster PageInfo} (hinfo : (roster d).findSlot page = .ok info)
    (hr : (roster d).modifySlot page (PageInfo.withRotation rotation) (fun _ => rfl) = .ok r) :
    ∃ d', applySetRotation page rotation d = (.ok (setRotation page info.rotation), d') ∧
      Moves d d' r := by
  obtain ⟨d', hset, hroster, hid⟩ :=
    mutates_of_ok (LawfulDocument.setRotation_spec page rotation d) (except_map_eq_ok.2 hr)
  exact ⟨d', by simp [applySetRotation, LawfulDocument.page_eq, hinfo, hset], hroster, hid⟩

/-- An insertion that goes through is undone by removing the fresh page. -/
theorem applyInsertBlankPage_ok {atIndex : Nat} {size : PageSize} {d d' : D} {inverse : Command D}
    (h : applyInsertBlankPage atIndex size d = (.ok inverse, d')) :
    ∃ id, inverse = removePage id ∧ (roster d).insertSlot atIndex (PageInfo.blank size)
        (fun _ => rfl) = .ok (id, roster d') ∧
      Document.revision d' = Document.revision d + 1 ∧ Document.id d' = Document.id d := by
  unfold applyInsertBlankPage at h
  split at h
  · cases h
  rename_i hinsert
  cases h
  obtain ⟨hspec, hrev, hid⟩ := mutates_ok (LawfulDocument.insertPage_spec atIndex size d) hinsert
  exact ⟨_, rfl, hspec, hrev, hid⟩

theorem findIndex_of_removeSlot {r r' : Roster PageInfo} {page : PageId}
    (h : r.removeSlot page = .ok r') : ∃ index, r.findIndex page = .ok index := by
  obtain ⟨before, slot, after, hl, hid, -, -, -⟩ := Roster.removeSlot_eq_ok.1 h
  exact ⟨before.length, Roster.findIndex_eq_ok.2 ⟨before, slot, after, hl, hid, rfl⟩⟩

theorem findIndex_of_relocateSlot {r r' : Roster PageInfo} {page : PageId} {toIndex : Nat}
    (h : r.relocateSlot page toIndex = (.ok (), r')) : ∃ index, r.findIndex page = .ok index := by
  obtain ⟨before, slot, after, -, -, hl, hid, -, -, -, -, -⟩ := Roster.relocateSlot_eq_ok.1 h
  exact ⟨before.length, Roster.findIndex_eq_ok.2 ⟨before, slot, after, hl, hid, rfl⟩⟩

theorem findSlot_of_modifySlot {r r' : Roster PageInfo} {page : PageId} {f : PageInfo → PageInfo}
    {hf : ∀ s, pageId (f s) = pageId s} (h : r.modifySlot page f hf = .ok r') :
    ∃ info, r.findSlot page = .ok info := by
  obtain ⟨before, slot, after, hl, hid, -, -, -⟩ := Roster.modifySlot_eq_ok.1 h
  exact ⟨slot, Roster.findSlot_eq_ok.2 ⟨by simp [hl], hid⟩⟩

/-! ### What a successful application does to revision and identity -/

/-- The revision advanced `n` times and the document is still the same one. -/
structure Advances (n : Nat) (d d' : D) : Prop where
  revision : Document.revision d' = Document.revision d + UInt64.ofNat n
  id : Document.id d' = Document.id d

omit [LawfulDocument D] in
theorem Advances.zero (d : D) : Advances 0 d d := ⟨by simp, rfl⟩

omit [LawfulDocument D] in
theorem Advances.trans {n m : Nat} {d e f : D} (h : Advances n d e) (h' : Advances m e f) :
    Advances (n + m) d f :=
  ⟨by rw [h'.revision, h.revision, UInt64.ofNat_add, UInt64.add_assoc], h'.id.trans h.id⟩

omit [LawfulDocument D] in
/-- A sequence counts as many revisions as its steps do. -/
theorem applySequence_advances {label : String} {commands applied : List (Command D)}
    {inverse : Command D} {d d' : D}
    (hsteps : ∀ c ∈ commands, ∀ {inverse : Command D} {d d' : D},
      c.apply d = (.ok inverse, d') → Advances c.mutations d d')
    (happly : applySequence apply label commands applied d = (.ok inverse, d')) :
    Advances (mutationsOf commands) d d' := by
  induction commands generalizing applied d with
  | nil =>
    cases happly
    exact .zero _
  | cons c cs ih =>
    unfold applySequence at happly
    split at happly
    · rename_i inv d₁ hstep
      exact (hsteps c (by simp) hstep).trans (ih (fun c hc => hsteps c (by simp [hc])) happly)
    · cases happly

/-- A merge counts one revision a source. -/
theorem applyMerge_advances {count : Nat} {sources : List D} {removals : List (Command D)}
    {inverse : Command D} {d d' : D}
    (happly : applyMerge apply count sources removals d = (.ok inverse, d')) :
    Advances sources.length d d' := by
  induction sources generalizing removals d with
  | nil =>
    cases happly
    exact .zero _
  | cons source sources ih =>
    unfold applyMerge at happly
    split at happly
    · rename_i newIds d₁ himport
      obtain ⟨-, hrev, hid⟩ := LawfulDocument.importPages_ok _ _ _ _ _ _ himport
      rw [List.length_cons, Nat.add_comm]
      exact Advances.trans ⟨hrev, hid⟩ (ih happly)
    · cases happly

/-- Each mutation of a successful application advances the revision by one. -/
theorem advances (c : Command D) {inverse : Command D} {d d' : D}
    (happly : c.apply d = (.ok inverse, d')) : Advances c.mutations d d' := by
  match c with
  | removePage page =>
    obtain ⟨-, -, -, -, hrev, hid⟩ := applyRemovePage_ok happly
    exact ⟨hrev, hid⟩
  | restorePage id atIndex =>
    obtain ⟨-, -, hrev, hid⟩ := applyRestorePage_ok happly
    exact ⟨hrev, hid⟩
  | movePage page toIndex =>
    obtain ⟨-, -, -, -, hrev, hid⟩ := applyMovePage_ok happly
    exact ⟨hrev, hid⟩
  | setRotation page rotation =>
    obtain ⟨-, -, -, -, hrev, hid⟩ := applySetRotation_ok happly
    exact ⟨hrev, hid⟩
  | insertBlankPage atIndex size =>
    obtain ⟨-, -, -, hrev, hid⟩ := applyInsertBlankPage_ok happly
    exact ⟨hrev, hid⟩
  | importPages source ids atIndex =>
    simp only [apply_importPages, applyImportPages] at happly
    split at happly
    · cases happly
    rename_i himport
    cases happly
    obtain ⟨-, hrev, hid⟩ := LawfulDocument.importPages_ok _ _ _ _ _ _ himport
    exact ⟨hrev, hid⟩
  | sequence label commands =>
    rw [apply_sequence] at happly
    exact applySequence_advances (fun c _ => advances c) happly
  | merge sources =>
    rw [apply_merge] at happly
    exact applyMerge_advances happly
  | boundInverse binding inner =>
    rw [apply_boundInverse] at happly
    unfold applyBoundInverse at happly
    split at happly
    · cases happly
    split at happly
    · cases happly
    rename_i hstep
    cases happly
    exact advances inner hstep

/-! ### Edits of one page -/

omit [Document D] [LawfulDocument D] in
/-- The page a command removes, restores, moves or turns. -/
def edited : Command D → Option PageId
  | removePage page => some page
  | restorePage id _ => some id
  | movePage page _ => some page
  | setRotation page _ => some page
  | _ => none

/-- Identity and size of every page the document shows or could restore. -/
def outlines (d : D) : List (PageId × PageSize) :=
  (roster d).known.map fun page => (page.id, page.size)

/-- An edit of one page is reversed by one of the same page, and keeps every page known, at its
size. -/
theorem edit_ok {c inverse : Command D} {page : PageId} {d d' : D} (hc : c.edited = some page)
    (h : c.apply d = (.ok inverse, d')) :
    inverse.edited = some page ∧ page ∈ (outlines d).map Prod.fst ∧
    (outlines d').Perm (outlines d) ∧
    Document.revision d' = Document.revision d + 1 ∧ Document.id d' = Document.id d := by
  cases c with
  | removePage target =>
    obtain rfl : target = page := Option.some.inj hc
    obtain ⟨index, -, rfl, hremove, hrevision, hid⟩ := applyRemovePage_ok h
    obtain ⟨before, slot, after, hlive, rfl, hlive', hremoved', -⟩ := Roster.removeSlot_eq_ok.1 hremove
    refine ⟨rfl, ?_, List.Perm.map _ ?_, hrevision, hid⟩
    · simp [outlines, Roster.known, hlive]
    · rw [Roster.known, Roster.known, hlive, hlive', hremoved']
      calc ((before ++ after) ++ ((roster d).removed ++ [slot])).Perm
            (slot :: ((before ++ after) ++ (roster d).removed)) := by
            rw [← List.append_assoc]
            exact List.perm_append_singleton _ _
        _ |>.Perm ((before ++ slot :: after) ++ (roster d).removed) :=
            List.Perm.append_right _ List.perm_middle.symm
  | restorePage target atIndex =>
    obtain rfl : target = page := Option.some.inj hc
    obtain ⟨rfl, hrestore, hrevision, hid⟩ := applyRestorePage_ok h
    obtain ⟨trashBefore, slot, trashAfter, before, after, hremoved, rfl, hlive, -, hlive', hremoved',
      -⟩ := Roster.restoreSlot_eq_ok.1 hrestore
    refine ⟨rfl, ?_, List.Perm.map _ ?_, hrevision, hid⟩
    · simp [outlines, Roster.known, hremoved]
    · rw [Roster.known, Roster.known, hlive, hlive', hremoved, hremoved']
      calc ((before ++ slot :: after) ++ (trashBefore ++ trashAfter)).Perm
            (slot :: ((before ++ after) ++ (trashBefore ++ trashAfter))) :=
            List.Perm.append_right _ List.perm_middle
        _ |>.Perm ((before ++ after) ++ (trashBefore ++ slot :: trashAfter)) :=
            (List.perm_middle.symm).trans (List.Perm.append_left _ List.perm_middle.symm)
  | movePage target toIndex =>
    obtain rfl : target = page := Option.some.inj hc
    obtain ⟨fromIndex, -, rfl, hmove, hrevision, hid⟩ := applyMovePage_ok h
    obtain ⟨before, slot, after, before', after', hlive, rfl, hrest, -, hlive', hremoved', -⟩ :=
      Roster.relocateSlot_eq_ok.1 hmove
    refine ⟨rfl, ?_, List.Perm.map _ ?_, hrevision, hid⟩
    · simp [outlines, Roster.known, hlive]
    · rw [Roster.known, Roster.known, hlive, hlive', hremoved']
      refine List.Perm.append_right _ ?_
      calc (before' ++ slot :: after').Perm (slot :: (before' ++ after')) := List.perm_middle
        _ |>.Perm (before ++ slot :: after) := hrest ▸ List.perm_middle.symm
  | setRotation target rotation =>
    obtain rfl : target = page := Option.some.inj hc
    obtain ⟨info, -, rfl, hset, hrevision, hid⟩ := applySetRotation_ok h
    obtain ⟨before, slot, after, hlive, rfl, hlive', hremoved', -⟩ := Roster.modifySlot_eq_ok.1 hset
    refine ⟨rfl, ?_, List.Perm.of_eq ?_, hrevision, hid⟩
    · simp [outlines, Roster.known, hlive]
    · simp [outlines, Roster.known, hlive, hlive', hremoved', PageInfo.withRotation]
  | insertBlankPage atIndex size => cases hc
  | importPages source ids atIndex => cases hc
  | sequence label commands => cases hc
  | merge sources => cases hc
  | boundInverse binding inverse => cases hc

/-- An edit of one page that fails changes nothing. -/
theorem edit_rejects {c : Command D} {page : PageId} {e : Error} {d d' : D}
    (hc : c.edited = some page) (h : c.apply d = (.error e, d')) : d' = d := by
  cases c with
  | removePage target =>
    simp only [apply_removePage, applyRemovePage] at h
    split at h
    · cases h
      rfl
    split at h <;> cases h
    rename_i hremove
    exact mutates_error (LawfulDocument.removePage_spec target d) hremove
  | restorePage target atIndex =>
    simp only [apply_restorePage, applyRestorePage] at h
    split at h <;> cases h
    rename_i hrestore
    exact mutates_error (LawfulDocument.restorePage_spec target atIndex d) hrestore
  | movePage target toIndex =>
    simp only [apply_movePage, applyMovePage] at h
    split at h
    · cases h
      rfl
    split at h <;> cases h
    rename_i hmove
    exact mutates_error (LawfulDocument.movePage_spec target toIndex d) hmove
  | setRotation target rotation =>
    simp only [apply_setRotation, applySetRotation] at h
    split at h
    · cases h
      rfl
    split at h <;> cases h
    rename_i hset
    exact mutates_error (LawfulDocument.setRotation_spec target rotation d) hset
  | insertBlankPage atIndex size => cases hc
  | importPages source ids atIndex => cases hc
  | sequence label commands => cases hc
  | merge sources => cases hc
  | boundInverse binding inverse => cases hc

end Command
end OpdfEditor
