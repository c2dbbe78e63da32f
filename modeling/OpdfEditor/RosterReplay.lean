import OpdfEditor.Roster

/-!
Why an inverse recorded against one roster still works on a later one: what an
operation does depends on the live order and on the slots it finds in the trash,
so a roster with the same live order and a larger trash answers it the same way.
-/
namespace OpdfEditor
namespace Roster

variable {σ τ : Type} [HasPageId σ] [HasPageId τ]

/-- `t` shows what `r` shows and has lost nothing `r` could restore. -/
structure Below (r t : Roster σ) : Prop where
  live : r.live = t.live
  removed : ∀ slot ∈ r.removed, slot ∈ t.removed

theorem Below.refl (r : Roster σ) : Below r r := ⟨rfl, fun _ h => h⟩

theorem Below.trans {r s t : Roster σ} (h : Below r s) (h' : Below s t) : Below r t :=
  ⟨h.live.trans h'.live, fun slot hs => h'.removed slot (h.removed slot hs)⟩

/-- A larger roster finds a page where the smaller one does, and only then. -/
theorem Below.findIndex {r t : Roster σ} (h : Below r t) (id : PageId) :
    t.findIndex id = r.findIndex id := by
  simp only [Roster.findIndex, h.live]

/-- A larger roster finds the same slot for a page. -/
theorem Below.findSlot {r t : Roster σ} (h : Below r t) {id : PageId} {slot : σ}
    (hs : r.findSlot id = .ok slot) : t.findSlot id = .ok slot := by
  rw [findSlot_eq_ok] at hs ⊢
  exact h.live ▸ hs

/-! ### The same operation on a larger roster -/

/-- Removing a page goes through over a larger roster, too, and what is left is larger. -/
theorem Below.removeSlot {r t r' : Roster σ} {id : PageId} (h : Below r t)
    (hr : r.removeSlot id = .ok r') : ∃ t', t.removeSlot id = .ok t' ∧ Below r' t' := by
  obtain ⟨before, slot, after, hl, hid, hlive, hremoved, -⟩ := removeSlot_eq_ok.1 hr
  obtain ⟨t', ht'⟩ : ∃ t', t.removeSlot id = .ok t' := by
    unfold Roster.removeSlot
    split
    · rename_i hnone
      exact absurd hid (position_eq_none.1 hnone slot (by simp [← h.live, hl]))
    · exact ⟨_, rfl⟩
  obtain ⟨before', slot', after', hl', hid', hlive', hremoved', -⟩ := removeSlot_eq_ok.1 ht'
  have hsplit : before ++ slot :: after = before' ++ slot' :: after' := by
    rw [← hl, ← hl', h.live]
  obtain ⟨rfl, rfl, rfl⟩ := split_unique (hl ▸ r.live_nodup) hsplit (hid.trans hid'.symm)
  refine ⟨t', ht', hlive.trans hlive'.symm, fun s hs => ?_⟩
  rw [hremoved, List.mem_append] at hs
  rw [hremoved', List.mem_append]
  exact hs.imp_left (h.removed s)

/-- So does restoring one; what the larger roster could restore besides is in no one's way. -/
theorem Below.restoreSlot {r t r' : Roster σ} {id : PageId} {atIndex : Nat} (h : Below r t)
    (hr : r.restoreSlot id atIndex = .ok r') :
    ∃ t', t.restoreSlot id atIndex = .ok t' ∧ Below r' t' := by
  obtain ⟨tb, slot, ta, before, after, hr1, hid, hl, hlen, hlive, hremoved, -⟩ :=
    restoreSlot_eq_ok.1 hr
  have hmem : slot ∈ t.removed := h.removed slot (by simp [hr1])
  obtain ⟨t', ht'⟩ : ∃ t', t.restoreSlot id atIndex = .ok t' := by
    unfold Roster.restoreSlot
    have habsent : ¬ (t.live.any (pageId · == id)) := by
      simp only [List.any_eq_true, beq_iff_eq, not_exists, not_and]
      exact fun s hs heq => t.disjoint hs hmem (heq.trans hid.symm)
    rw [if_neg habsent]
    split
    · rename_i hnone
      exact absurd hid (position_eq_none.1 hnone slot hmem)
    · rw [dif_neg (by simp [← h.live, hl, ← hlen])]
      exact ⟨_, rfl⟩
  obtain ⟨tb', slot', ta', before', after', hr1', hid', hl', hlen', hlive', hremoved', -⟩ :=
    restoreSlot_eq_ok.1 ht'
  have hslot : slot = slot' :=
    List.inj_on_of_nodup_map t.removed_nodup hmem (by simp [hr1']) (hid.trans hid'.symm)
  subst hslot
  obtain ⟨rfl, rfl⟩ := List.append_inj (hl.symm.trans (h.live.trans hl')) (hlen.trans hlen'.symm)
  refine ⟨t', ht', hlive.trans hlive'.symm, fun s hs => ?_⟩
  have hne : pageId s ≠ pageId slot :=
    not_mem_of_split (hr1 ▸ r.removed_nodup) s (hremoved ▸ hs)
  have hold : s ∈ r.removed := by
    rw [hremoved] at hs
    rw [hr1]
    exact (List.perm_middle.mem_iff).2 (List.mem_cons_of_mem _ hs)
  have hnew := h.removed s hold
  rw [hr1'] at hnew
  rw [hremoved']
  exact (List.mem_cons.1 (List.perm_middle.mem_iff.1 hnew)).resolve_left
    fun heq => hne (congrArg pageId heq)

/-- So does moving one. -/
theorem Below.relocateSlot {r t r' : Roster σ} {id : PageId} {toIndex : Nat} (h : Below r t)
    (hr : r.relocateSlot id toIndex = (.ok (), r')) :
    ∃ t', t.relocateSlot id toIndex = (.ok (), t') ∧ Below r' t' := by
  obtain ⟨before, slot, after, before', after', hl, hid, hsplit, hlen, hlive, hremoved, hnext⟩ :=
    relocateSlot_eq_ok.1 hr
  let t' : Roster σ :=
    { live := r'.live
      removed := t.removed
      next := t.next
      issued := by
        refine t.issued.perm (List.Perm.append_right _ (List.Perm.map _ ?_))
        rw [← h.live, hlive, hl]
        exact List.perm_middle.trans ((hsplit ▸ List.Perm.refl _ : (slot :: (before' ++ after')).Perm
          (slot :: (before ++ after))).trans List.perm_middle.symm) }
  refine ⟨t', relocateSlot_eq_ok.2 ⟨before, slot, after, before', after', h.live ▸ hl, hid, hsplit,
    hlen, hlive, rfl, rfl⟩, rfl, fun s hs => h.removed s (hremoved ▸ hs)⟩

/-- So does rewriting a slot. -/
theorem Below.modifySlot {r t r' : Roster σ} {id : PageId} {f : σ → σ}
    {hf : ∀ s, pageId (f s) = pageId s} (h : Below r t) (hr : r.modifySlot id f hf = .ok r') :
    ∃ t', t.modifySlot id f hf = .ok t' ∧ Below r' t' := by
  obtain ⟨before, slot, after, hl, hid, hlive, hremoved, hnext⟩ := modifySlot_eq_ok.1 hr
  let t' : Roster σ :=
    { live := r'.live
      removed := t.removed
      next := t.next
      issued := by
        have hids : r'.live.map pageId = t.live.map pageId := by
          rw [← h.live, hlive, hl]
          simp [hf]
        exact hids ▸ t.issued }
  exact ⟨t', modifySlot_eq_ok.2 ⟨before, slot, after, h.live ▸ hl, hid, hlive, rfl, rfl⟩, rfl,
    fun s hs => h.removed s (hremoved ▸ hs)⟩

/-! ### An operation and its inverse -/

/-- Restoring a page where it was takes its removal back. -/
theorem restoreSlot_removeSlot {r r' : Roster σ} {id : PageId} {index : Nat}
    (hi : r.findIndex id = .ok index) (hr : r.removeSlot id = .ok r') :
    ∃ r'', r'.restoreSlot id index = .ok r'' ∧ Below r r'' := by
  obtain ⟨before, slot, after, hl, hid, hlive, hremoved, hnext⟩ := removeSlot_eq_ok.1 hr
  obtain ⟨before', slot', after', hl', hid', hindex⟩ := findIndex_eq_ok.1 hi
  obtain ⟨rfl, rfl, rfl⟩ :=
    split_unique (hl ▸ r.live_nodup) (hl.symm.trans hl') (hid.trans hid'.symm)
  refine ⟨{ r with next := r'.next, issued := hnext ▸ r.issued },
    restoreSlot_eq_ok.2 ⟨r.removed, slot, [], before, after, hremoved, hid, hlive, hindex.symm,
      hl, by simp, rfl⟩, rfl, fun s hs => hs⟩

/-- Removing a page takes its restoration back. -/
theorem removeSlot_restoreSlot {r r' : Roster σ} {id : PageId} {atIndex : Nat}
    (hr : r.restoreSlot id atIndex = .ok r') :
    ∃ r'', r'.removeSlot id = .ok r'' ∧ Below r r'' := by
  obtain ⟨tb, slot, ta, before, after, hr1, hid, hl, hlen, hlive, hremoved, hnext⟩ :=
    restoreSlot_eq_ok.1 hr
  let r'' : Roster σ :=
    { live := r.live
      removed := tb ++ ta ++ [slot]
      next := r.next
      issued := by
        refine r.issued.perm (List.Perm.append_left _ (List.Perm.map _ ?_))
        rw [hr1]
        exact (List.perm_append_singleton _ _).trans List.perm_middle.symm }
  refine ⟨r'', removeSlot_eq_ok.2 ⟨before, slot, after, hlive, hid, hl, by rw [hremoved], hnext.symm⟩,
    rfl, fun s hs => ?_⟩
  rw [hr1] at hs
  exact (List.perm_append_singleton _ _).mem_iff.2 (List.perm_middle.mem_iff.1 hs)

/-- Moving a page to where it was takes the move back. -/
theorem relocateSlot_relocateSlot {r r' : Roster σ} {id : PageId} {toIndex fromIndex : Nat}
    (hi : r.findIndex id = .ok fromIndex) (hr : r.relocateSlot id toIndex = (.ok (), r')) :
    ∃ r'', r'.relocateSlot id fromIndex = (.ok (), r'') ∧ Below r r'' := by
  obtain ⟨before, slot, after, before', after', hl, hid, hsplit, hlen, hlive, hremoved, hnext⟩ :=
    relocateSlot_eq_ok.1 hr
  obtain ⟨before₀, slot₀, after₀, hl₀, hid₀, hindex⟩ := findIndex_eq_ok.1 hi
  obtain ⟨rfl, rfl, rfl⟩ :=
    split_unique (hl ▸ r.live_nodup) (hl.symm.trans hl₀) (hid.trans hid₀.symm)
  exact ⟨r, relocateSlot_eq_ok.2 ⟨before', slot, after', before, after, hlive, hid, hsplit.symm,
    hindex.symm, hl, hremoved.symm, hnext.symm⟩, Below.refl r⟩

/-- Two edits of one slot whose second undoes the first leave the roster as it was. -/
theorem modifySlot_modifySlot {r r' : Roster σ} {id : PageId} {f g : σ → σ}
    {hf : ∀ s, pageId (f s) = pageId s} (hg : ∀ s, pageId (g s) = pageId s) {slot : σ}
    (hs : r.findSlot id = .ok slot) (hgf : g (f slot) = slot) (hr : r.modifySlot id f hf = .ok r') :
    r'.modifySlot id g hg = .ok r := by
  obtain ⟨before, found, after, hl, hid, hlive, hremoved, hnext⟩ := modifySlot_eq_ok.1 hr
  obtain ⟨hmem, hid'⟩ := findSlot_eq_ok.1 hs
  obtain rfl : slot = found :=
    List.inj_on_of_nodup_map r.live_nodup hmem (by simp [hl]) (hid'.trans hid.symm)
  exact modifySlot_eq_ok.2 ⟨before, f slot, after, hlive, (hf slot).trans hid, by rw [hgf, hl],
    hremoved.symm, hnext.symm⟩

/-- Removing a page takes its insertion back, but for the identity it was given. -/
theorem removeSlot_insertSlot {r r' : Roster σ} {atIndex : Nat} {make : PageId → σ}
    {hmake : ∀ id, pageId (make id) = id} {id : PageId}
    (hr : r.insertSlot atIndex make hmake = .ok (id, r')) :
    ∃ r'', r'.removeSlot id = .ok r'' ∧ Below r r'' := by
  obtain ⟨before, after, hl, hlen, rfl, hlive, hremoved, hnext⟩ := insertSlot_eq_ok.1 hr
  let r'' : Roster σ :=
    { live := r.live
      removed := r.removed ++ [make r.next]
      next := r'.next
      issued := by
        have := r'.issued
        rw [hremoved, hlive] at this
        refine this.perm ?_
        rw [hl, ← List.map_append, ← List.map_append]
        refine List.Perm.map _ ?_
        have hassoc : before ++ make r.next :: after ++ r.removed =
            before ++ make r.next :: (after ++ r.removed) := by simp
        rw [← List.append_assoc, List.append_assoc before, hassoc]
        exact (List.perm_append_singleton _ _).trans List.perm_middle.symm }
  exact ⟨r'', removeSlot_eq_ok.2 ⟨before, make r.next, after, hlive, hmake _, hl, by rw [hremoved],
    rfl⟩, rfl, fun s hs => List.mem_append_left _ hs⟩

/-- Removing a live page drops exactly the slot of that identity. -/
theorem removeSlot_filter {r : Roster σ} {id : PageId} (h : id ∈ r.ids) :
    ∃ r', r.removeSlot id = .ok r' ∧ r'.live = r.live.filter (pageId · ≠ id) ∧
      ∀ slot ∈ r.removed, slot ∈ r'.removed := by
  obtain ⟨slot, hslot, hid⟩ := List.mem_map.1 h
  obtain ⟨before, after, hl⟩ := List.append_of_mem hslot
  obtain ⟨r', hr'⟩ : ∃ r', r.removeSlot id = .ok r' := by
    unfold removeSlot
    split
    · rename_i hnone
      exact absurd hid (position_eq_none.1 hnone slot hslot)
    · exact ⟨_, rfl⟩
  obtain ⟨before', slot', after', hl', hid', hlive, hremoved, -⟩ := removeSlot_eq_ok.1 hr'
  refine ⟨r', hr', ?_, fun s hs => hremoved ▸ List.mem_append_left _ hs⟩
  have hne := not_mem_of_split (hl' ▸ r.live_nodup)
  have hfilter : (before' ++ after').filter (pageId · ≠ id) = before' ++ after' :=
    List.filter_eq_self.2 fun s hs => by simpa [hid'] using hne s hs
  rw [hlive, hl', List.filter_append, List.filter_cons_of_neg (by simp [hid']), ← List.filter_append,
    hfilter]

/-! ### Forgetting what a slot carries besides the page -/

section Map

variable (f : σ → τ) (hf : ∀ s, pageId (f s) = pageId s)

/-- The same roster seen through a projection of its slots. -/
def map (r : Roster σ) : Roster τ where
  live := r.live.map f
  removed := r.removed.map f
  next := r.next
  issued := by
    have hcomp : pageId ∘ f = (pageId : σ → PageId) := funext hf
    simpa [hcomp] using r.issued

@[simp] theorem map_live (r : Roster σ) : (r.map f hf).live = r.live.map f := rfl
@[simp] theorem map_removed (r : Roster σ) : (r.map f hf).removed = r.removed.map f := rfl
@[simp] theorem map_next (r : Roster σ) : (r.map f hf).next = r.next := rfl

include hf in
/-- A projection that keeps identities finds a page at the same place. -/
theorem position_map (id : PageId) (slots : List σ) :
    position id (slots.map f) = position id slots := by
  simp [position, List.findIdx?_map, Function.comp_def, hf]

@[simp] theorem map_ids (r : Roster σ) : (r.map f hf).ids = r.ids := by
  simp [ids, Function.comp_def, hf]

@[simp] theorem map_findIndex (r : Roster σ) (id : PageId) :
    (r.map f hf).findIndex id = r.findIndex id := by
  simp only [findIndex, map_live, position_map f hf]

/-- The slot found for a page is seen through the projection, too. -/
theorem map_findSlot (r : Roster σ) (id : PageId) :
    (r.map f hf).findSlot id = (r.findSlot id).map f := by
  cases h : r.findSlot id with
  | ok slot =>
    obtain ⟨hmem, hid⟩ := findSlot_eq_ok.1 h
    exact findSlot_eq_ok.2 ⟨List.mem_map_of_mem hmem, (hf slot).trans hid⟩
  | error e =>
    unfold findSlot at h ⊢
    split at h
    · cases h
    · rename_i hnone
      cases h
      split
      · rename_i hsome
        rw [map_live, position_map f hf, hnone] at hsome
        cases hsome
      · rfl

@[simp] theorem map_checkInsertionIndex (r : Roster σ) (index : Nat) :
    (r.map f hf).checkInsertionIndex index = r.checkInsertionIndex index := by
  simp [checkInsertionIndex]

/-- Removing a page and then looking is looking and then removing it; likewise for the other calls.
-/
theorem map_removeSlot (r : Roster σ) (id : PageId) :
    (r.map f hf).removeSlot id = (r.removeSlot id).map (map f hf) := by
  cases h : r.removeSlot id with
  | ok r' =>
    obtain ⟨before, slot, after, hl, hid, hlive, hremoved, hnext⟩ := removeSlot_eq_ok.1 h
    exact removeSlot_eq_ok.2 ⟨before.map f, f slot, after.map f, by simp [hl], (hf slot).trans hid,
      by simp [hlive], by simp [hremoved], hnext⟩
  | error e =>
    unfold removeSlot at h ⊢
    split at h
    · rename_i hnone
      cases h
      split
      · rfl
      · rename_i hsome
        rw [map_live, position_map f hf, hnone] at hsome
        cases hsome
    · cases h

theorem map_restoreSlot (r : Roster σ) (id : PageId) (atIndex : Nat) :
    (r.map f hf).restoreSlot id atIndex = (r.restoreSlot id atIndex).map (map f hf) := by
  cases h : r.restoreSlot id atIndex with
  | ok r' =>
    obtain ⟨tb, slot, ta, before, after, hr, hid, hl, hlen, hlive, hremoved, hnext⟩ :=
      restoreSlot_eq_ok.1 h
    exact restoreSlot_eq_ok.2 ⟨tb.map f, f slot, ta.map f, before.map f, after.map f, by simp [hr],
      (hf slot).trans hid, by simp [hl], by simp [hlen], by simp [hlive], by simp [hremoved], hnext⟩
  | error e =>
    have hany : (r.map f hf).live.any (pageId · == id) = r.live.any (pageId · == id) := by
      simp [Function.comp_def, hf]
    unfold restoreSlot at h ⊢
    rw [hany]
    split at h
    · rename_i hpresent
      cases h
      rw [if_pos hpresent]
      rfl
    rename_i habsent
    rw [if_neg habsent]
    split at h
    · rename_i hnone
      cases h
      split
      · rfl
      · rename_i hsome
        rw [map_removed, position_map f hf, hnone] at hsome
        cases hsome
    rename_i hsome
    split at h
    · rename_i hat
      cases h
      split
      · rename_i hnone
        rw [map_removed, position_map f hf, hsome] at hnone
        cases hnone
      · rw [dif_pos (by simpa using hat)]
        simp
        rfl
    · cases h

theorem map_relocateSlot (r : Roster σ) (id : PageId) (toIndex : Nat) :
    (r.map f hf).relocateSlot id toIndex =
      ((r.relocateSlot id toIndex).1, (r.relocateSlot id toIndex).2.map f hf) := by
  rcases h : r.relocateSlot id toIndex with ⟨e | ⟨⟩, r'⟩
  · have hsame := relocateSlot_eq_error h
    subst hsame
    have herror : ((r'.map f hf).relocateSlot id toIndex).1 = .error e := by
      unfold relocateSlot at h ⊢
      split at h
      · rename_i hnone
        cases h
        split
        · rfl
        · rename_i hsome
          rw [map_live, position_map f hf, hnone] at hsome
          cases hsome
      · rename_i fromIndex hsome
        dsimp only at h
        split at h
        · rename_i hto
          obtain ⟨rfl⟩ := Except.error.inj (congrArg Prod.fst h)
          split
          · rename_i hnone
            rw [map_live, position_map f hf, hsome] at hnone
            cases hnone
          · rename_i found hfound
            rw [map_live, position_map f hf, hsome] at hfound
            cases hfound
            dsimp only
            rw [dif_pos (by simpa [List.length_eraseIdx] using hto)]
            simp
        · cases h
    exact Prod.ext herror (relocateSlot_eq_error (Prod.ext herror rfl))
  · obtain ⟨before, slot, after, before', after', hl, hid, hsplit, hlen, hlive, hremoved, hnext⟩ :=
      relocateSlot_eq_ok.1 h
    exact relocateSlot_eq_ok.2 ⟨before.map f, f slot, after.map f, before'.map f, after'.map f,
      by simp [hl], (hf slot).trans hid, by simp only [← List.map_append, hsplit], by simp [hlen],
      by simp [hlive], by simp [hremoved], hnext⟩

/-- Rewriting a slot is seen as rewriting what is seen of it, where the two rewritings agree. -/
theorem map_modifySlot (r : Roster σ) (id : PageId) {g : σ → σ} {g' : τ → τ}
    (hg : ∀ s, pageId (g s) = pageId s) (hg' : ∀ t, pageId (g' t) = pageId t)
    (hcomm : ∀ s, f (g s) = g' (f s)) :
    (r.map f hf).modifySlot id g' hg' = (r.modifySlot id g hg).map (map f hf) := by
  cases h : r.modifySlot id g hg with
  | ok r' =>
    obtain ⟨before, slot, after, hl, hid, hlive, hremoved, hnext⟩ := modifySlot_eq_ok.1 h
    exact modifySlot_eq_ok.2 ⟨before.map f, f slot, after.map f, by simp [hl], (hf slot).trans hid,
      by simp [hlive, hcomm], by simp [hremoved], hnext⟩
  | error e =>
    unfold modifySlot at h ⊢
    split at h
    · rename_i hnone
      cases h
      split
      · rfl
      · rename_i hsome
        rw [map_live, position_map f hf, hnone] at hsome
        cases hsome
    · cases h

theorem map_insertSlot (r : Roster σ) (atIndex : Nat) (make : PageId → σ)
    (hmake : ∀ id, pageId (make id) = id) :
    (r.map f hf).insertSlot atIndex (f ∘ make) (fun id => (hf _).trans (hmake id)) =
      (r.insertSlot atIndex make hmake).map fun (id, r') => (id, r'.map f hf) := by
  cases h : r.insertSlot atIndex make hmake with
  | ok result =>
    obtain ⟨before, after, hl, hlen, hid, hlive, hremoved, hnext⟩ := insertSlot_eq_ok.1 h
    exact insertSlot_eq_ok.2 ⟨before.map f, after.map f, by simp [hl], by simp [hlen], hid,
      by simp [hlive], by simp [hremoved], hnext⟩
  | error e =>
    unfold insertSlot at h ⊢
    split at h
    · rename_i hat
      cases h
      rw [dif_pos (by simpa using hat)]
      simp
      rfl
    · cases h

end Map

end Roster
end OpdfEditor
