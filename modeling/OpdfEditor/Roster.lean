import OpdfEditor.Page
import Mathlib.Data.List.Perm.Basic

/-!
The page bookkeeping that every document implementation shares: the live slots
in document order, the slots that were removed and are kept for restoration, and
the allocator. No identity is ever held twice and none was issued ahead of the
allocator, so a roster cannot be built that breaks either.
-/
namespace OpdfEditor

/-- A slot that names the page it stands for. -/
class HasPageId (σ : Type) where
  pageId : σ → PageId

export HasPageId (pageId)

instance : HasPageId PageInfo := ⟨PageInfo.id⟩

@[simp] theorem pageId_pageInfo (page : PageInfo) : pageId page = page.id := rfl

/-- All identities in use are distinct and were issued by the allocator. -/
structure Issued (ids : List PageId) (next : Nat) : Prop where
  nodup : ids.Nodup
  below : ∀ id ∈ ids, id < next

theorem Issued.perm {ids ids' : List PageId} (h : Issued ids next) (hp : ids'.Perm ids) :
    Issued ids' next :=
  ⟨hp.nodup_iff.2 h.nodup, fun id hid => h.below id (hp.mem_iff.1 hid)⟩

/-- The allocator's next identity is fresh. -/
theorem Issued.fresh {ids : List PageId} (h : Issued ids next) : Issued (next :: ids) (next + 1) := by
  refine ⟨List.nodup_cons.2 ⟨fun hmem => Nat.lt_irrefl _ (h.below _ hmem), h.nodup⟩, ?_⟩
  intro id hid
  rcases List.mem_cons.1 hid with rfl | hid
  · exact Nat.lt_succ_self _
  · exact Nat.lt_succ_of_lt (h.below id hid)

/-- Identities in the trash may be forgotten. -/
theorem Issued.left {live removed : List PageId} (h : Issued (live ++ removed) next) :
    Issued live next :=
  ⟨(List.nodup_append.1 h.nodup).1, fun id hid => h.below id (List.mem_append_left _ hid)⟩

@[ext]
structure Roster (σ : Type) [HasPageId σ] where
  live : List σ
  removed : List σ
  /-- What the allocator hands out next. -/
  next : Nat
  issued : Issued (live.map pageId ++ removed.map pageId) next

namespace Roster

variable {σ τ : Type} [HasPageId σ] [HasPageId τ]

def empty : Roster σ := ⟨[], [], 0, ⟨List.nodup_nil, by simp⟩⟩

/-- Page identities in document order. -/
def ids (r : Roster σ) : List PageId := r.live.map pageId

/-- Every slot the roster still knows, live or removed. -/
def known (r : Roster σ) : List σ := r.live ++ r.removed

def position (id : PageId) (slots : List σ) : Option Nat := slots.findIdx? (pageId · == id)

/-- A position splits the list at the slot it names. -/
theorem position_eq_some {id : PageId} {slots : List σ} {index : Nat}
    (h : position id slots = some index) :
    ∃ before slot after, slots = before ++ slot :: after ∧ before.length = index ∧
      pageId slot = id := by
  obtain ⟨hlt, hid, -⟩ := List.findIdx?_eq_some_iff_getElem.1 h
  refine ⟨slots.take index, slots[index], slots.drop (index + 1), ?_, ?_, by simpa using hid⟩
  · simp
  · simp; omega

theorem position_lt {id : PageId} {slots : List σ} {index : Nat}
    (h : position id slots = some index) : index < slots.length := by
  obtain ⟨before, slot, after, rfl, rfl, -⟩ := position_eq_some h
  simp

theorem position_eq_none {id : PageId} {slots : List σ} :
    position id slots = none ↔ ∀ slot ∈ slots, pageId slot ≠ id := by
  simp [position, List.findIdx?_eq_none_iff]

/-- Where identities are distinct, the split determines the position. -/
theorem position_split {id : PageId} {before after : List σ} {slot : σ}
    (hid : pageId slot = id) (hbefore : ∀ s ∈ before, pageId s ≠ id) :
    position id (before ++ slot :: after) = some before.length := by
  have hnone : before.findIdx? (pageId · == id) = none := by
    simpa [position] using position_eq_none.2 hbefore
  simp [position, List.findIdx?_append, hnone, List.findIdx?_cons, hid]

/-- No other slot names the page a slot names. -/
theorem not_mem_of_split {before after : List σ} {slot : σ}
    (h : ((before ++ slot :: after).map pageId).Nodup) :
    ∀ s ∈ before ++ after, pageId s ≠ pageId slot := by
  have hperm : ((before ++ slot :: after).map pageId).Perm
      (pageId slot :: (before ++ after).map pageId) :=
    List.perm_middle.map pageId
  have hcons := List.nodup_cons.1 (hperm.nodup_iff.1 h)
  intro s hs heq
  exact hcons.1 (heq ▸ List.mem_map_of_mem hs)

/-- Two splits of one list at slots of the same identity are the same split. -/
theorem split_unique {before before' after after' : List σ} {slot slot' : σ}
    (h : ((before ++ slot :: after).map pageId).Nodup)
    (heq : before ++ slot :: after = before' ++ slot' :: after') (hid : pageId slot = pageId slot') :
    before = before' ∧ slot = slot' ∧ after = after' := by
  have hpos : position (pageId slot) (before ++ slot :: after) = some before.length :=
    position_split rfl fun s hs => not_mem_of_split h s (List.mem_append_left _ hs)
  have hpos' : position (pageId slot) (before' ++ slot' :: after') = some before'.length :=
    position_split hid.symm fun s hs => hid ▸ not_mem_of_split (heq ▸ h) s (List.mem_append_left _ hs)
  rw [heq, hpos'] at hpos
  obtain ⟨h1, h2⟩ := List.append_inj heq (Option.some.inj hpos).symm
  exact ⟨h1, List.cons_eq_cons.1 h2⟩

/-- No page is shown twice. -/
theorem live_nodup (r : Roster σ) : (r.live.map pageId).Nodup := r.issued.left.nodup

/-- No page is in the trash twice. -/
theorem removed_nodup (r : Roster σ) : (r.removed.map pageId).Nodup :=
  (List.nodup_append.1 r.issued.nodup).2.1

/-- No page is both shown and in the trash. -/
theorem disjoint (r : Roster σ) {s t : σ} (hs : s ∈ r.live) (ht : t ∈ r.removed) :
    pageId s ≠ pageId t :=
  (List.nodup_append.1 r.issued.nodup).2.2 _ (List.mem_map_of_mem hs) _ (List.mem_map_of_mem ht)

/-- A removal moves an identity from the pages to the trash. -/
theorem issued_remove {live removed : List σ} {index : Nat} {next : Nat} (hlt : index < live.length)
    (h : Issued (live.map pageId ++ removed.map pageId) next) :
    Issued ((live.eraseIdx index).map pageId ++
      (removed ++ [live.get ⟨index, hlt⟩]).map pageId) next := by
  refine h.perm ?_
  rw [← List.map_append, ← List.map_append]
  refine List.Perm.map _ ?_
  calc (live.eraseIdx index ++ (removed ++ [live.get ⟨index, hlt⟩])).Perm
        (live.get ⟨index, hlt⟩ :: (live.eraseIdx index ++ removed)) := by
        rw [← List.append_assoc]
        exact List.perm_append_singleton _ _
    _ |>.Perm (live ++ removed) :=
        (List.getElem_cons_eraseIdx_perm hlt).append_right removed

/-- A restoration moves one back. -/
theorem issued_restore {live removed : List σ} {index atIndex : Nat} {next : Nat}
    (hlt : index < removed.length) (hat : atIndex ≤ live.length)
    (h : Issued (live.map pageId ++ removed.map pageId) next) :
    Issued ((live.insertIdx atIndex (removed.get ⟨index, hlt⟩)).map pageId ++
      (removed.eraseIdx index).map pageId) next := by
  refine h.perm ?_
  rw [← List.map_append, ← List.map_append]
  refine List.Perm.map _ ?_
  calc (live.insertIdx atIndex (removed.get ⟨index, hlt⟩) ++ removed.eraseIdx index).Perm
        (removed.get ⟨index, hlt⟩ :: (live ++ removed.eraseIdx index)) :=
        (List.perm_insertIdx _ _ hat).append_right _
    _ |>.Perm (live ++ (removed.get ⟨index, hlt⟩ :: removed.eraseIdx index)) :=
        List.perm_middle.symm
    _ |>.Perm (live ++ removed) :=
        (List.getElem_cons_eraseIdx_perm hlt).append_left live

/-- A move changes the order of the identities. -/
theorem issued_relocate {live removed : List σ} {index toIndex : Nat} {next : Nat}
    (hlt : index < live.length) (hto : toIndex ≤ (live.eraseIdx index).length)
    (h : Issued (live.map pageId ++ removed.map pageId) next) :
    Issued (((live.eraseIdx index).insertIdx toIndex (live.get ⟨index, hlt⟩)).map pageId ++
      removed.map pageId) next := by
  refine h.perm (List.Perm.append_right _ (List.Perm.map _ ?_))
  exact (List.perm_insertIdx _ _ hto).trans (List.getElem_cons_eraseIdx_perm hlt)

/-- An insertion takes the next identity. -/
theorem issued_insert {live removed : List σ} {slot : σ} {atIndex next : Nat}
    (hat : atIndex ≤ live.length) (hid : pageId slot = next)
    (h : Issued (live.map pageId ++ removed.map pageId) next) :
    Issued ((live.insertIdx atIndex slot).map pageId ++ removed.map pageId) (next + 1) := by
  refine h.fresh.perm ?_
  rw [← hid, ← List.cons_append, ← List.map_cons]
  exact ((List.perm_insertIdx _ _ hat).map pageId).append_right _

/-- Rewriting a slot leaves the identities alone. -/
theorem issued_modify {live removed : List σ} {index next : Nat} {f : σ → σ}
    (hf : ∀ s, pageId (f s) = pageId s)
    (h : Issued (live.map pageId ++ removed.map pageId) next) :
    Issued ((live.modify index f).map pageId ++ removed.map pageId) next := by
  have : (live.modify index f).map pageId = live.map pageId := by
    rw [List.map_eq_iff]
    intro i
    simp only [List.getElem?_modify, List.getElem?_map]
    by_cases hi : index = i
    · simp [hi, hf, Function.comp_def]
    · simp [hi]
  rwa [this]

/-! ### Operations -/

def findIndex (id : PageId) (r : Roster σ) : Except Error Nat :=
  match position id r.live with
  | some index => .ok index
  | none => .error (.pageNotFound id)

def findSlot (id : PageId) (r : Roster σ) : Except Error σ :=
  match h : position id r.live with
  | some index => .ok (r.live.get ⟨index, position_lt h⟩)
  | none => .error (.pageNotFound id)

/-- Reject an insertion position beyond the end; the page count itself is a valid append. -/
def checkInsertionIndex (index : Nat) (r : Roster σ) : Except Error Unit :=
  if index > r.live.length then .error (.indexOutOfBounds index r.live.length) else .ok ()

/-- Remove a page from document order, retaining its slot for restoration. -/
def removeSlot (id : PageId) (r : Roster σ) : Except Error (Roster σ) :=
  match h : position id r.live with
  | none => .error (.pageNotFound id)
  | some index =>
    .ok {
      live := r.live.eraseIdx index
      removed := r.removed ++ [r.live.get ⟨index, position_lt h⟩]
      next := r.next
      issued := issued_remove (position_lt h) r.issued }

def restoreSlot (id : PageId) (atIndex : Nat) (r : Roster σ) : Except Error (Roster σ) :=
  if r.live.any (pageId · == id) then
    .error (.unsupported s!"{PageId.display id} is currently present and cannot be restored")
  else
    match h : position id r.removed with
    | none => .error (.pageNotFound id)
    | some trashIndex =>
      if hat : atIndex > r.live.length then .error (.indexOutOfBounds atIndex r.live.length)
      else
        .ok {
          live := r.live.insertIdx atIndex (r.removed.get ⟨trashIndex, position_lt h⟩)
          removed := r.removed.eraseIdx trashIndex
          next := r.next
          issued := issued_restore (position_lt h) (Nat.le_of_not_lt hat) r.issued }

/-- Move a page to a new position. A rejected target puts the page back where it came from. -/
def relocateSlot (id : PageId) (toIndex : Nat) (r : Roster σ) : Outcome (Roster σ) Unit :=
  match h : position id r.live with
  | none => (.error (.pageNotFound id), r)
  | some fromIndex =>
    let slot := r.live.get ⟨fromIndex, position_lt h⟩
    if hto : toIndex > (r.live.eraseIdx fromIndex).length then
      (.error (.indexOutOfBounds toIndex r.live.length),
        { live := (r.live.eraseIdx fromIndex).insertIdx fromIndex slot
          removed := r.removed
          next := r.next
          issued := issued_relocate (position_lt h) (by
            rw [List.length_eraseIdx_of_lt (position_lt h)]
            exact Nat.le_sub_one_of_lt (position_lt h)) r.issued })
    else
      (.ok (),
        { live := (r.live.eraseIdx fromIndex).insertIdx toIndex slot
          removed := r.removed
          next := r.next
          issued := issued_relocate (position_lt h) (Nat.le_of_not_lt hto) r.issued })

def modifySlot (id : PageId) (f : σ → σ) (hf : ∀ s, pageId (f s) = pageId s) (r : Roster σ) :
    Except Error (Roster σ) :=
  match position id r.live with
  | none => .error (.pageNotFound id)
  | some index =>
    .ok {
      live := r.live.modify index f
      removed := r.removed
      next := r.next
      issued := issued_modify hf r.issued }

/-- Insert a slot at a position, returning its fresh identity. -/
def insertSlot (atIndex : Nat) (make : PageId → σ) (hmake : ∀ id, pageId (make id) = id)
    (r : Roster σ) : Except Error (PageId × Roster σ) :=
  if hat : atIndex > r.live.length then .error (.indexOutOfBounds atIndex r.live.length)
  else
    .ok (r.next,
      { live := r.live.insertIdx atIndex (make r.next)
        removed := r.removed
        next := r.next + 1
        issued := issued_insert (Nat.le_of_not_lt hat) (hmake r.next) r.issued })

/-- Insert one slot for each entry of a list, side by side from a position on. -/
def insertEach (make : α → PageId → σ) (hmake : ∀ a id, pageId (make a id) = id) :
    List α → Nat → Roster σ → Except Error (List PageId × Roster σ)
  | [], _, r => .ok ([], r)
  | a :: as, atIndex, r =>
    match r.insertSlot atIndex (make a) (hmake a) with
    | .error e => .error e
    | .ok (id, r') =>
      match insertEach make hmake as (atIndex + 1) r' with
      | .error e => .error e
      | .ok (ids, r'') => .ok (id :: ids, r'')

def appendSlot (make : PageId → σ) (hmake : ∀ id, pageId (make id) = id) (r : Roster σ) : Roster σ where
  live := r.live ++ [make r.next]
  removed := r.removed
  next := r.next + 1
  issued := by
    have := issued_insert (Nat.le_refl r.live.length) (hmake r.next) r.issued
    rwa [List.insertIdx_length_self] at this

def purgeTrash (r : Roster σ) : Roster σ where
  live := r.live
  removed := []
  next := r.next
  issued := by simpa using r.issued.left

/-- Rewrite every live slot from a list that runs alongside, leaving identities alone. -/
def zipLive (f : σ → α → σ) (hf : ∀ s a, pageId (f s a) = pageId s) (as : List α) (r : Roster σ)
    (hlen : as.length = r.live.length) : Roster σ where
  live := List.zipWith f r.live as
  removed := r.removed
  next := r.next
  issued := by
    have hids : (List.zipWith f r.live as).map pageId = r.live.map pageId := by
      refine List.ext_getElem (by simp [hlen]) fun i _ _ => ?_
      simp [hf]
    exact hids ▸ r.issued

/-! ### What each operation does to the two lists -/

/-- The position of a live slot, read off a split of the list. -/
theorem position_live {r : Roster σ} {before after : List σ} {slot : σ}
    (hl : r.live = before ++ slot :: after) :
    position (pageId slot) r.live = some before.length := by
  have hnodup := hl ▸ r.live_nodup
  rw [hl]
  exact position_split rfl fun s hs => not_mem_of_split hnodup s (List.mem_append_left _ hs)

/-- The position of a removed slot, read off a split of the trash. -/
theorem position_removed {r : Roster σ} {before after : List σ} {slot : σ}
    (hr : r.removed = before ++ slot :: after) :
    position (pageId slot) r.removed = some before.length := by
  have hnodup := hr ▸ r.removed_nodup
  rw [hr]
  exact position_split rfl fun s hs => not_mem_of_split hnodup s (List.mem_append_left _ hs)

omit [HasPageId σ] in
@[simp] theorem insertIdx_length_append (before after : List σ) (x : σ) :
    (before ++ after).insertIdx before.length x = before ++ x :: after := by
  induction before with
  | nil => simp
  | cons y before ih => simp [ih]

omit [HasPageId σ] in
@[simp] theorem modify_length_append (before after : List σ) (slot : σ) (f : σ → σ) :
    (before ++ slot :: after).modify before.length f = before ++ f slot :: after := by
  induction before with
  | nil => simp
  | cons y before ih => simp [ih]

omit [HasPageId σ] in
/-- An insertion splits the list where it inserts. -/
theorem insertIdx_split {l : List σ} {atIndex : Nat} (x : σ) (h : atIndex ≤ l.length) :
    ∃ before after, l = before ++ after ∧ before.length = atIndex ∧
      l.insertIdx atIndex x = before ++ x :: after := by
  have hlen : (l.take atIndex).length = atIndex := by simp [h]
  refine ⟨l.take atIndex, l.drop atIndex, by simp, hlen, ?_⟩
  have := insertIdx_length_append (l.take atIndex) (l.drop atIndex) x
  rwa [List.take_append_drop, hlen] at this

/-- A page is found at the place it has in the list. -/
theorem findIndex_eq_ok {r : Roster σ} {id : PageId} {index : Nat} :
    r.findIndex id = .ok index ↔ ∃ before slot after, r.live = before ++ slot :: after ∧
      pageId slot = id ∧ index = before.length := by
  unfold findIndex
  constructor
  · intro h
    split at h
    · rename_i found hpos
      cases h
      obtain ⟨before, slot, after, hl, hlen, hid⟩ := position_eq_some hpos
      exact ⟨before, slot, after, hl, hid, hlen.symm⟩
    · cases h
  · rintro ⟨before, slot, after, hl, rfl, rfl⟩
    rw [position_live hl]

/-- A page is not found exactly where it is not shown, and the error names it. -/
theorem findIndex_eq_error {r : Roster σ} {id : PageId} {e : Error} :
    r.findIndex id = .error e ↔ (∀ slot ∈ r.live, pageId slot ≠ id) ∧ e = .pageNotFound id := by
  unfold findIndex
  split
  · rename_i index hpos
    have : ¬ ∀ slot ∈ r.live, pageId slot ≠ id := by
      rw [← position_eq_none, hpos]
      simp
    simp [this]
  · rename_i hpos
    simp only [Except.error.injEq]
    exact ⟨fun h => ⟨fun slot hs => position_eq_none.1 hpos slot hs, h.symm⟩, fun h => h.2.symm⟩

theorem findSlot_eq_ok {r : Roster σ} {id : PageId} {slot : σ} :
    r.findSlot id = .ok slot ↔ slot ∈ r.live ∧ pageId slot = id := by
  unfold findSlot
  split
  · rename_i index hpos
    obtain ⟨before, found, after, hl, hlen, hid⟩ := position_eq_some hpos
    have hget : r.live.get ⟨index, position_lt hpos⟩ = found := by
      simp [hl, ← hlen]
    rw [hget, Except.ok.injEq]
    constructor
    · rintro rfl
      exact ⟨by simp [hl], hid⟩
    · rintro ⟨hmem, hid'⟩
      have hinj := List.inj_on_of_nodup_map r.live_nodup
      exact hinj (by simp [hl]) hmem (hid.trans hid'.symm)
  · rename_i hpos
    simp only [reduceCtorEq, false_iff, not_and]
    exact position_eq_none.1 hpos slot

/-- A removal takes the page out of the list and puts it last in the trash. -/
theorem removeSlot_eq_ok {r r' : Roster σ} {id : PageId} :
    r.removeSlot id = .ok r' ↔ ∃ before slot after, r.live = before ++ slot :: after ∧
      pageId slot = id ∧ r'.live = before ++ after ∧ r'.removed = r.removed ++ [slot] ∧
      r'.next = r.next := by
  unfold removeSlot
  constructor
  · intro h
    split at h
    · cases h
    · rename_i index hpos
      cases h
      obtain ⟨before, slot, after, hl, rfl, hid⟩ := position_eq_some hpos
      refine ⟨before, slot, after, hl, hid, ?_, ?_, rfl⟩
      · simp [hl, List.eraseIdx_append_of_length_le]
      · simp [hl]
  · rintro ⟨before, slot, after, hl, rfl, hlive, hremoved, hnext⟩
    have hpos := position_live hl
    split
    · rename_i hnone
      rw [hpos] at hnone
      cases hnone
    · rename_i index hsome
      obtain rfl : before.length = index := Option.some.inj (hpos.symm.trans hsome)
      congr 1
      ext1
      · simp [hl, hlive, List.eraseIdx_append_of_length_le]
      · simp [hl, hremoved]
      · exact hnext.symm

/-- A restoration takes the page out of the trash and puts it where it is asked to. -/
theorem restoreSlot_eq_ok {r r' : Roster σ} {id : PageId} {atIndex : Nat} :
    r.restoreSlot id atIndex = .ok r' ↔ ∃ trashBefore slot trashAfter before after,
      r.removed = trashBefore ++ slot :: trashAfter ∧ pageId slot = id ∧
      r.live = before ++ after ∧ before.length = atIndex ∧ r'.live = before ++ slot :: after ∧
      r'.removed = trashBefore ++ trashAfter ∧ r'.next = r.next := by
  unfold restoreSlot
  constructor
  · intro h
    split at h
    · cases h
    split at h
    · cases h
    rename_i trashIndex hpos
    split at h
    · cases h
    rename_i hat
    cases h
    obtain ⟨trashBefore, slot, trashAfter, hr, rfl, hid⟩ := position_eq_some hpos
    obtain ⟨before, after, hl, hlen, hins⟩ := insertIdx_split slot (Nat.le_of_not_lt hat)
    refine ⟨trashBefore, slot, trashAfter, before, after, hr, hid, hl, hlen, ?_, ?_, rfl⟩
    · simp [hr, hins]
    · simp [hr, List.eraseIdx_append_of_length_le]
  · rintro ⟨trashBefore, slot, trashAfter, before, after, hr, rfl, hl, rfl, hlive, hremoved, hnext⟩
    have hpos := position_removed hr
    have habsent : ¬ (r.live.any (pageId · == pageId slot)) := by
      simp only [List.any_eq_true, beq_iff_eq, not_exists, not_and]
      exact fun s hs => r.disjoint hs (by simp [hr])
    rw [if_neg habsent]
    split
    · rename_i hnone
      rw [hpos] at hnone
      cases hnone
    · rename_i index hsome
      obtain rfl : trashBefore.length = index := Option.some.inj (hpos.symm.trans hsome)
      rw [dif_neg (by simp [hl])]
      congr 1
      ext1
      · simp [hl, hr, hlive]
      · simp [hr, hremoved, List.eraseIdx_append_of_length_le]
      · exact hnext.symm

/-- A move takes the page out of the list and puts it where it is asked to. -/
theorem relocateSlot_eq_ok {r r' : Roster σ} {id : PageId} {toIndex : Nat} :
    r.relocateSlot id toIndex = (.ok (), r') ↔ ∃ before slot after before' after',
      r.live = before ++ slot :: after ∧ pageId slot = id ∧ before ++ after = before' ++ after' ∧
      before'.length = toIndex ∧ r'.live = before' ++ slot :: after' ∧ r'.removed = r.removed ∧
      r'.next = r.next := by
  unfold relocateSlot
  constructor
  · intro h
    split at h
    · cases h
    rename_i fromIndex hpos
    dsimp only at h
    split at h
    · cases h
    rename_i hto
    cases h
    obtain ⟨before, slot, after, hl, rfl, hid⟩ := position_eq_some hpos
    obtain ⟨before', after', hsplit, hlen, hins⟩ := insertIdx_split slot (Nat.le_of_not_lt hto)
    have herase : r.live.eraseIdx before.length = before ++ after := by
      simp [hl, List.eraseIdx_append_of_length_le]
    refine ⟨before, slot, after, before', after', hl, hid, herase ▸ hsplit, hlen, ?_, rfl, rfl⟩
    simp only [← hins]
    simp [hl]
  · rintro ⟨before, slot, after, before', after', hl, rfl, hsplit, rfl, hlive, hremoved, hnext⟩
    have hpos := position_live hl
    have herase : r.live.eraseIdx before.length = before' ++ after' := by
      simp [hl, List.eraseIdx_append_of_length_le, hsplit]
    split
    · rename_i hnone
      rw [hpos] at hnone
      cases hnone
    · rename_i index hsome
      obtain rfl : before.length = index := Option.some.inj (hpos.symm.trans hsome)
      dsimp only
      rw [dif_neg (by simp [herase])]
      congr 1
      ext1
      · simp only [herase, insertIdx_length_append, hlive]
        simp [hl]
      · exact hremoved.symm
      · exact hnext.symm

/-- A rejected move leaves the order exactly as it was. -/
theorem relocateSlot_eq_error {r r' : Roster σ} {id : PageId} {toIndex : Nat} {e : Error}
    (h : r.relocateSlot id toIndex = (.error e, r')) : r' = r := by
  unfold relocateSlot at h
  split at h
  · cases h
    rfl
  rename_i fromIndex hpos
  dsimp only at h
  split at h
  · obtain ⟨before, slot, after, hl, rfl, -⟩ := position_eq_some hpos
    cases h
    ext1
    · simp [hl, List.eraseIdx_append_of_length_le]
    · rfl
    · rfl
  · cases h

/-- A slot is rewritten where it stands. -/
theorem modifySlot_eq_ok {r r' : Roster σ} {id : PageId} {f : σ → σ}
    {hf : ∀ s, pageId (f s) = pageId s} :
    r.modifySlot id f hf = .ok r' ↔ ∃ before slot after, r.live = before ++ slot :: after ∧
      pageId slot = id ∧ r'.live = before ++ f slot :: after ∧ r'.removed = r.removed ∧
      r'.next = r.next := by
  unfold modifySlot
  constructor
  · intro h
    split at h
    · cases h
    rename_i index hpos
    cases h
    obtain ⟨before, slot, after, hl, rfl, hid⟩ := position_eq_some hpos
    exact ⟨before, slot, after, hl, hid, by simp [hl], rfl, rfl⟩
  · rintro ⟨before, slot, after, hl, rfl, hlive, hremoved, hnext⟩
    have hpos := position_live hl
    simp only [hpos]
    congr 1
    ext1
    · simp [hl, hlive]
    · exact hremoved.symm
    · exact hnext.symm

/-- An insertion puts a slot with the next identity where it is asked to. -/
theorem insertSlot_eq_ok {r r' : Roster σ} {atIndex : Nat} {make : PageId → σ}
    {hmake : ∀ id, pageId (make id) = id} {id : PageId} :
    r.insertSlot atIndex make hmake = .ok (id, r') ↔ ∃ before after, r.live = before ++ after ∧
      before.length = atIndex ∧ id = r.next ∧ r'.live = before ++ make r.next :: after ∧
      r'.removed = r.removed ∧ r'.next = r.next + 1 := by
  unfold insertSlot
  constructor
  · intro h
    split at h
    · cases h
    rename_i hat
    cases h
    obtain ⟨before, after, hl, hlen, hins⟩ := insertIdx_split (make r.next) (Nat.le_of_not_lt hat)
    exact ⟨before, after, hl, hlen, rfl, hins, rfl, rfl⟩
  · rintro ⟨before, after, hl, rfl, rfl, hlive, hremoved, hnext⟩
    rw [dif_neg (by simp [hl])]
    congr 2
    ext1
    · simp [hl, hlive]
    · exact hremoved.symm
    · exact hnext.symm

/-- Inserting side by side at a valid position succeeds, with consecutive fresh identities. -/
theorem insertEach_eq_ok (make : α → PageId → σ) (hmake : ∀ a id, pageId (make a id) = id)
    (as : List α) (r : Roster σ) (before after : List σ) (hl : r.live = before ++ after) :
    ∃ r', insertEach make hmake as before.length r = .ok (List.range' r.next as.length, r') ∧
      r'.live = before ++ List.zipWith make as (List.range' r.next as.length) ++ after ∧
      r'.removed = r.removed ∧ r'.next = r.next + as.length := by
  induction as generalizing r before with
  | nil => exact ⟨r, by simp [insertEach], by simp [hl], rfl, rfl⟩
  | cons a as ih =>
    have hat : ¬ before.length > r.live.length := by simp [hl]
    obtain ⟨r₁, hr₁⟩ : ∃ r₁, r.insertSlot before.length (make a) (hmake a) = .ok (r.next, r₁) := by
      unfold insertSlot
      rw [dif_neg hat]
      exact ⟨_, rfl⟩
    obtain ⟨before', after', hl', hlen', -, hlive, hremoved, hnext⟩ := insertSlot_eq_ok.1 hr₁
    obtain ⟨rfl, rfl⟩ := List.append_inj (hl.symm.trans hl') hlen'.symm
    obtain ⟨r₂, hr₂, hlive₂, hremoved₂, hnext₂⟩ :=
      ih r₁ (before ++ [make a r.next]) (by simp [hlive])
    have hlen : (before ++ [make a r.next]).length = before.length + 1 := by simp
    rw [hlen, hnext] at hr₂
    refine ⟨r₂, ?_, ?_, hremoved₂.trans hremoved, ?_⟩
    · simp [insertEach, hr₁, hr₂, List.range'_succ]
    · simp [hlive₂, hnext, List.range'_succ]
    · rw [hnext₂, hnext]
      simp only [List.length_cons]
      omega

/-! ### What each operation knows afterwards -/

/-- No page is forgotten by a removal, a restoration or a move. -/
theorem removeSlot_known {r r' : Roster σ} {id : PageId} (h : r.removeSlot id = .ok r') :
    r'.known.Perm r.known := by
  obtain ⟨before, slot, after, hlive, -, hlive', hremoved', -⟩ := removeSlot_eq_ok.1 h
  simp only [known, hlive, hlive', hremoved', ← List.append_assoc]
  refine (List.perm_append_singleton slot _).trans ?_
  simpa using List.perm_middle.symm

theorem restoreSlot_known {r r' : Roster σ} {id : PageId} {atIndex : Nat}
    (h : r.restoreSlot id atIndex = .ok r') : r'.known.Perm r.known := by
  obtain ⟨trashBefore, slot, trashAfter, before, after, hremoved, -, hlive, -, hlive', hremoved', -⟩ :=
    restoreSlot_eq_ok.1 h
  simp only [known, hlive, hlive', hremoved, hremoved']
  calc ((before ++ slot :: after) ++ (trashBefore ++ trashAfter)).Perm
        (slot :: ((before ++ after) ++ (trashBefore ++ trashAfter))) := by
        rw [List.append_assoc, List.append_assoc]
        exact List.perm_middle
    _ |>.Perm ((before ++ after) ++ (trashBefore ++ slot :: trashAfter)) := by
        rw [← List.append_assoc, ← List.append_assoc]
        exact List.perm_middle.symm

theorem relocateSlot_known {r r' : Roster σ} {id : PageId} {toIndex : Nat}
    (h : r.relocateSlot id toIndex = (.ok (), r')) : r'.known.Perm r.known := by
  obtain ⟨before, slot, after, before', after', hlive, -, hsplit, -, hlive', hremoved', -⟩ :=
    relocateSlot_eq_ok.1 h
  simp only [known, hlive, hlive', hremoved']
  refine List.Perm.append_right _ (List.perm_middle.trans ?_)
  rw [← hsplit]
  exact List.perm_middle.symm

end Roster
end OpdfEditor
