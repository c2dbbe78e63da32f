import OpdfEditor.CrossDocument

/-!
Splitting conserves pages: the head keeps its own first pages, the target gains copies
of the rest under fresh identities, and the inverse puts the head back.
-/
namespace OpdfEditor

section Split

variable {D : Type} [Document D] [LawfulDocument D]

/-- Removing live pages one after the other drops exactly those. -/
theorem removeEach_live {ids : List PageId} {d : D} (hnodup : ids.Nodup)
    (hlive : ∀ id ∈ ids, id ∈ (roster d).ids) :
    (roster (removeEach d ids)).live = (roster d).live.filter (pageId · ∉ ids) := by
  induction ids generalizing d with
  | nil => simp [removeEach]
  | cons id ids ih =>
    obtain ⟨hnot, hnodup⟩ := List.nodup_cons.1 hnodup
    obtain ⟨r, hr, hfilter, -⟩ := Roster.removeSlot_filter (hlive id (by simp))
    have hremoved : roster (Document.removePage id d).2 = r := by
      have hspec := LawfulDocument.removePage_spec id d
      rw [hr] at hspec
      exact hspec.2.1
    have hrest : ∀ id' ∈ ids, id' ∈ (roster (Document.removePage id d).2).ids := by
      intro id' hid'
      obtain ⟨slot, hslot, rfl⟩ := List.mem_map.1 (hlive id' (by simp [hid']))
      rw [hremoved, Roster.ids, hfilter]
      refine List.mem_map_of_mem (List.mem_filter.2 ⟨hslot, ?_⟩)
      have hne : pageId slot ≠ id := fun heq => hnot (heq ▸ hid')
      simpa using hne
    have hstep := ih hnodup hrest
    rw [hremoved, hfilter, List.filter_filter] at hstep
    rw [removeEach, List.foldl_cons]
    refine hstep.trans (List.filter_congr fun slot _ => ?_)
    simp [Bool.and_comm]

/-- Dropping everything from a position on leaves what comes before it. -/
theorem filter_tail {slots : List PageInfo} (h : (slots.map pageId).Nodup) (n : Nat) :
    slots.filter (pageId · ∉ (slots.drop n).map pageId) = slots.take n := by
  have hsplit := List.take_append_drop n slots
  have hapart : ∀ slot ∈ slots.take n, pageId slot ∉ (slots.drop n).map pageId := by
    rw [← hsplit, List.map_append] at h
    intro slot hslot hmem
    exact (List.nodup_append.1 h).2.2 _ (List.mem_map_of_mem hslot) _ hmem rfl
  have hkeep : (slots.take n).filter (pageId · ∉ (slots.drop n).map pageId) = slots.take n :=
    List.filter_eq_self.2 fun slot hslot => decide_eq_true (hapart slot hslot)
  have hdrop : (slots.drop n).filter (pageId · ∉ (slots.drop n).map pageId) = [] :=
    List.filter_eq_nil_iff.2 fun slot hslot => by
      rw [decide_eq_true_eq, not_not]
      exact List.mem_map_of_mem hslot
  calc slots.filter (pageId · ∉ (slots.drop n).map pageId)
      = (slots.take n ++ slots.drop n).filter (pageId · ∉ (slots.drop n).map pageId) := by
        rw [hsplit]
    _ = slots.take n := by rw [List.filter_append, hkeep, hdrop, List.append_nil]

/-- What a split leaves behind. A fresh identity is past every one the target has handed out. -/
structure Splits (document target : D) (boundaryIndex : Nat) (inverse : Command D)
    (document' target' : D) : Prop where
  head : (roster document').live = (roster document).live.take boundaryIndex
  tail : ∃ newIds, (roster target').live = (roster target).live ++
      List.zipWith PageInfo.withId ((roster document).live.drop boundaryIndex) newIds ∧
    newIds.length = ((roster document).live.drop boundaryIndex).length ∧ newIds.Nodup ∧
    ∀ id ∈ newIds, (roster target).next ≤ id
  undo : ∃ redo restored, inverse.apply document' = (.ok redo, restored) ∧
    (roster restored).live = (roster document).live

theorem splitAt_splits {document target document' target' : D} {boundaryIndex : Nat}
    {inverse : Command D}
    (h : splitAt document target boundaryIndex = (.ok inverse, document', target')) :
    Splits document target boundaryIndex inverse document' target' := by
  have hhead := splitAt_head h
  have htail : (Document.pageIds document).drop boundaryIndex =
      ((roster document).live.drop boundaryIndex).map pageId := by
    rw [LawfulDocument.pageIds_eq, Roster.ids, List.map_drop]
  obtain ⟨newIds, removal, himport, hsequence, rfl⟩ := splitAt_eq_ok h
  constructor
  · rw [hhead, htail, removeEach_live, filter_tail (roster document).live_nodup]
    · exact (roster document).live_nodup.sublist ((List.drop_sublist _ _).map _)
    · intro id hid
      rw [List.map_drop] at hid
      exact List.mem_of_mem_drop hid
  · obtain ⟨pages, hpages, -, rfl, hlive, -⟩ := importPages_live himport
    have hfound : (((roster document).live.drop boundaryIndex).map pageId).mapM
        (Document.page · document) = .ok ((roster document).live.drop boundaryIndex) :=
      mapM_page document fun slot hslot => List.mem_of_mem_drop hslot
    rw [htail, hfound] at hpages
    cases hpages
    rw [LawfulDocument.pageCount_eq, List.take_length, List.drop_length, List.append_nil] at hlive
    exact ⟨_, hlive, by simp, List.nodup_range', fun id hid => (List.mem_range'_1.1 hid).1⟩
  · obtain ⟨-, redo, restored, happly, hbelow⟩ := Command.undone _ hsequence
    exact ⟨_, restored, Command.boundInverse_applies happly, hbelow.roster.live.symm⟩

/-- Past the end nothing is split and nothing is touched. -/
theorem splitAt_beyond {document target : D} {boundaryIndex : Nat}
    (h : Document.pageCount document < boundaryIndex) :
    splitAt document target boundaryIndex =
      (.error (.indexOutOfBounds boundaryIndex (Document.pageCount document)), document, target) := by
  have hlength : (Document.pageIds document).length = Document.pageCount document := by
    rw [length_pageIds, LawfulDocument.pageCount_eq]
  unfold splitAt
  dsimp only
  rw [hlength, if_pos h]

end Split

theorem splitAt_import_error {document target target' : VecDocument} {boundaryIndex : Nat} {e : Error}
    (hbound : boundaryIndex ≤ Document.pageCount document)
    (h : Document.importPages document ((Document.pageIds document).drop boundaryIndex)
      (Document.pageCount target) target = (.error e, target')) :
    splitAt document target boundaryIndex = (.error e, document, target) := by
  have hsame : target' = target := VecDocument.importPages_error h
  have hlength : (Document.pageIds document).length = Document.pageCount document := by
    rw [length_pageIds, LawfulDocument.pageCount_eq]
  unfold splitAt
  dsimp only
  rw [if_neg (by omega), h, hsame]

/-- A split conserves pages: where it succeeds the head keeps its first pages, the target gains
copies of the rest and the inverse restores the head; where the boundary is past the end, or an
in-memory import fails, neither document changes. -/
theorem split_conserves_pages :
    (∀ {D : Type} [Document D] [LawfulDocument D] (document target : D) (boundaryIndex : Nat),
      (∀ inverse document' target',
        splitAt document target boundaryIndex = (.ok inverse, document', target') →
          Splits document target boundaryIndex inverse document' target') ∧
      (Document.pageCount document < boundaryIndex →
        splitAt document target boundaryIndex =
          (.error (.indexOutOfBounds boundaryIndex (Document.pageCount document)), document,
            target))) ∧
    ∀ (document target : VecDocument) (boundaryIndex : Nat) (e : Error) (target' : VecDocument),
      Document.importPages document ((Document.pageIds document).drop boundaryIndex)
        (Document.pageCount target) target = (.error e, target') →
      ∃ e', splitAt document target boundaryIndex = (.error e', document, target) := by
  refine ⟨fun document target boundaryIndex =>
    ⟨fun _ _ _ h => splitAt_splits h, splitAt_beyond⟩, ?_⟩
  intro document target boundaryIndex e target' h
  by_cases hbound : boundaryIndex ≤ Document.pageCount document
  · exact ⟨e, splitAt_import_error hbound h⟩
  · exact ⟨_, splitAt_beyond (Nat.not_le.1 hbound)⟩

end OpdfEditor
