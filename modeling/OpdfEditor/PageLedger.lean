import OpdfEditor.CommandSteps
import OpdfEditor.PdfSave
import OpdfEditor.VecDocument

/-!
What becomes of every page identity: a ledger beside the bookkeeping notes which
identities were ever issued and which were purged, and over every run of calls each
issued one is live, removed or purged, and only one of these.
-/
namespace OpdfEditor

namespace Roster

variable {σ : Type} [HasPageId σ]

/-- What a call may do to a roster: hand out the next identities, and bring removed slots back. -/
structure Shifts (r r' : Roster σ) (newIds : List PageId) : Prop where
  fresh : newIds = List.range' r.next newIds.length
  next : r'.next = r.next + newIds.length
  account : (r'.known.map pageId).Perm (r.known.map pageId ++ newIds)
  kept : ∀ slot ∈ r.removed, slot ∈ r'.removed ∨ pageId slot ∈ r'.ids

theorem Shifts.refl (r : Roster σ) : r.Shifts r [] :=
  ⟨rfl, rfl, by simp, fun _ h => .inl h⟩

/-- Identities change places between pages and trash. -/
theorem shifts_of_known {r r' : Roster σ} (hknown : r'.known.Perm r.known) (hnext : r'.next = r.next)
    (hkept : ∀ slot ∈ r.removed, slot ∈ r'.removed ∨ pageId slot ∈ r'.ids) : r.Shifts r' [] :=
  ⟨rfl, hnext, by simpa using hknown.map pageId, hkept⟩

/-- The calls on a roster shift identities between its pages and its trash. -/
theorem shifts_removeSlot {r r' : Roster σ} {id : PageId} (h : r.removeSlot id = .ok r') :
    r.Shifts r' [] := by
  obtain ⟨before, slot, after, -, -, -, hremoved, hnext⟩ := removeSlot_eq_ok.1 h
  refine shifts_of_known (removeSlot_known h) hnext fun slot' hslot' => .inl ?_
  rw [hremoved]
  exact List.mem_append_left _ hslot'

theorem shifts_restoreSlot {r r' : Roster σ} {id : PageId} {atIndex : Nat}
    (h : r.restoreSlot id atIndex = .ok r') : r.Shifts r' [] := by
  obtain ⟨trashBefore, slot, trashAfter, before, after, hremoved, -, -, -, hlive', hremoved', hnext⟩ :=
    restoreSlot_eq_ok.1 h
  refine shifts_of_known (restoreSlot_known h) hnext fun slot' hslot' => ?_
  rw [hremoved, List.mem_append, List.mem_cons] at hslot'
  rw [hremoved', List.mem_append, ids, hlive']
  rcases hslot' with hbefore | rfl | hafter
  · exact .inl (.inl hbefore)
  · exact .inr (List.mem_map_of_mem (by simp))
  · exact .inl (.inr hafter)

theorem shifts_relocateSlot {r r' : Roster σ} {id : PageId} {toIndex : Nat}
    (h : r.relocateSlot id toIndex = (.ok (), r')) : r.Shifts r' [] := by
  obtain ⟨-, -, -, -, -, -, -, -, -, -, hremoved, hnext⟩ := relocateSlot_eq_ok.1 h
  exact shifts_of_known (relocateSlot_known h) hnext fun _ hslot => .inl (hremoved ▸ hslot)

/-- Rewriting live slots in place changes no identity. -/
theorem shifts_of_ids {r r' : Roster σ} (hids : r'.ids = r.ids) (hremoved : r'.removed = r.removed)
    (hnext : r'.next = r.next) : r.Shifts r' [] := by
  refine ⟨rfl, hnext, ?_, fun _ hslot => .inl (hremoved ▸ hslot)⟩
  rw [ids, ids] at hids
  rw [known, known, List.map_append, List.map_append, hids, hremoved, List.append_nil]

theorem shifts_modifySlot {r r' : Roster σ} {id : PageId} {f : σ → σ}
    {hf : ∀ s, pageId (f s) = pageId s} (h : r.modifySlot id f hf = .ok r') : r.Shifts r' [] := by
  obtain ⟨before, slot, after, hlive, -, hlive', hremoved, hnext⟩ := modifySlot_eq_ok.1 h
  refine shifts_of_ids ?_ hremoved hnext
  simp [ids, hlive, hlive', hf]

theorem shifts_zipLive {r : Roster σ} {f : σ → α → σ} {hf : ∀ s a, pageId (f s a) = pageId s}
    {as : List α} (hlen : as.length = r.live.length) : r.Shifts (r.zipLive f hf as hlen) [] := by
  refine shifts_of_ids ?_ rfl rfl
  refine List.ext_getElem (by simp [ids, zipLive, hlen]) fun i _ _ => ?_
  simp [ids, zipLive, hf]

/-- One new slot, or several side by side. -/
theorem shifts_of_insert {r r' : Roster σ} (before after slots : List σ) {newIds : List PageId}
    (hids : slots.map pageId = newIds) (hfresh : newIds = List.range' r.next newIds.length)
    (hlive : r.live = before ++ after) (hlive' : r'.live = before ++ slots ++ after)
    (hremoved : r'.removed = r.removed) (hnext : r'.next = r.next + newIds.length) :
    r.Shifts r' newIds := by
  refine ⟨hfresh, hnext, ?_, fun _ hslot => .inl (hremoved ▸ hslot)⟩
  rw [known, known, ← hids, ← List.map_append]
  refine List.Perm.map _ ?_
  rw [hlive, hlive', hremoved, List.append_assoc, List.append_assoc, List.append_assoc,
    List.append_assoc]
  refine List.Perm.append_left _ (List.perm_append_comm.trans ?_)
  rw [List.append_assoc]

/-- An insertion hands one identity out. -/
theorem shifts_insertSlot {r r' : Roster σ} {atIndex : Nat} {make : PageId → σ}
    {hmake : ∀ id, pageId (make id) = id} {id : PageId}
    (h : r.insertSlot atIndex make hmake = .ok (id, r')) : r.Shifts r' [id] := by
  obtain ⟨before, after, hlive, -, rfl, hlive', hremoved, hnext⟩ := insertSlot_eq_ok.1 h
  exact shifts_of_insert before after [make r.next] (by simp [hmake]) rfl hlive
    (by rw [hlive', List.append_assoc, List.singleton_append]) hremoved hnext

theorem shifts_appendSlot (r : Roster σ) (make : PageId → σ) (hmake : ∀ id, pageId (make id) = id) :
    r.Shifts (r.appendSlot make hmake) [r.next] :=
  shifts_of_insert r.live [] [make r.next] (by simp [hmake]) rfl
    (List.append_nil _).symm (List.append_nil _).symm rfl rfl

/-- An import hands one out for each slot, in order. -/
theorem shifts_insertEach {r r' : Roster σ} {make : α → PageId → σ}
    {hmake : ∀ a id, pageId (make a id) = id} {as : List α} {atIndex : Nat} {newIds : List PageId}
    (hat : atIndex ≤ r.live.length) (h : insertEach make hmake as atIndex r = .ok (newIds, r')) :
    r.Shifts r' newIds := by
  have hlen : (r.live.take atIndex).length = atIndex := by simp [hat]
  obtain ⟨r₁, hr₁, hlive, hremoved, hnext⟩ := insertEach_eq_ok make hmake as r _ _
    (List.take_append_drop atIndex _).symm
  rw [hlen, h] at hr₁
  cases hr₁
  have hids : (List.zipWith make as (List.range' r.next as.length)).map pageId =
      List.range' r.next as.length := by
    refine List.ext_getElem (by simp) fun i _ _ => ?_
    simp [hmake]
  exact shifts_of_insert _ _ _ hids (by simp) (List.take_append_drop atIndex _).symm hlive hremoved
    (by simpa using hnext)

/-- One shift after another that leaves the trash alone. -/
theorem Shifts.trans {r r' r'' : Roster σ} {newIds newIds' : List PageId} (h : r.Shifts r' newIds)
    (h' : r'.Shifts r'' newIds') (hremoved : r''.removed = r.removed) :
    r.Shifts r'' (newIds ++ newIds') := by
  refine ⟨?_, ?_, ?_, fun _ hslot => .inl (hremoved ▸ hslot)⟩
  · have hfresh' := h'.fresh
    rw [h.next] at hfresh'
    rw [List.length_append, ← List.range'_append_1, ← h.fresh, ← hfresh']
  · rw [h'.next, h.next, List.length_append, Nat.add_assoc]
  · rw [← List.append_assoc]
    exact h'.account.trans (h.account.append_right _)

end Roster

/-- A state that keeps a roster, with what was ever issued and what was purged. -/
structure PageLedger (S : Type) where
  state : S
  issued : List PageId
  purged : List PageId

namespace PageLedger

variable {S σ : Type} [HasPageId σ] (roster : S → Roster σ)

/-- A ledger opened on a state: what it knows was issued, and nothing was purged. -/
def start (state : S) : PageLedger S := ⟨state, (roster state).known.map pageId, []⟩

/-- The call succeeded and handed these identities out. -/
def advance (l : PageLedger S) (state : S) (newIds : List PageId) : PageLedger S :=
  { l with state, issued := l.issued ++ newIds }

/-- Everything issued is live, removed or purged, once; the allocator is past it. -/
structure Balanced (l : PageLedger S) : Prop where
  account : l.issued.Perm ((roster l.state).known.map pageId ++ l.purged)
  once : l.issued.Nodup
  below : ∀ id ∈ l.issued, id < (roster l.state).next

/-- What one call may do: hand out the next identities, purge some, and bring some back. -/
structure Turn (l l' : PageLedger S) (newIds purgedIds : List PageId) : Prop where
  issued : l'.issued = l.issued ++ newIds
  purged : l'.purged = l.purged ++ purgedIds
  fresh : newIds = List.range' (roster l.state).next newIds.length
  next : (roster l'.state).next = (roster l.state).next + newIds.length
  account : ((roster l'.state).known.map pageId ++ purgedIds).Perm
    ((roster l.state).known.map pageId ++ newIds)
  kept : ∀ slot ∈ (roster l.state).removed, slot ∈ (roster l'.state).removed ∨
    pageId slot ∈ (roster l'.state).ids ∨ pageId slot ∈ l'.purged

/-- Calls that neither restore nor purge a page, one after the other. -/
inductive Spares (step : PageLedger S → κ → PageLedger S) (id : PageId) :
    PageLedger S → PageLedger S → Prop
  | refl {l : PageLedger S} : Spares step id l l
  | call {l l' : PageLedger S} (before : Spares step id l l') (call : κ)
      (notRestored : id ∉ (roster (step l' call).state).ids)
      (notPurged : id ∉ (step l' call).purged) : Spares step id l (step l' call)

/-- What holds of the identities in a state. -/
structure Identified (l : PageLedger S) : Prop where
  distinct : ((roster l.state).known.map pageId).Nodup
  below : ∀ id ∈ (roster l.state).known.map pageId, id < (roster l.state).next
  once : l.issued.Nodup
  /-- Everything issued is live, removed or purged, and only one of these. -/
  accounted : ∀ id, id ∈ l.issued ↔
    id ∈ (roster l.state).ids ++ (roster l.state).removed.map pageId ++ l.purged
  apart : ((roster l.state).ids ++ (roster l.state).removed.map pageId ++ l.purged).Nodup
  indexOf : ∀ n id, (roster l.state).ids[n]? = some id → (roster l.state).findIndex id = .ok n

variable {roster}

/-- A ledger opened on a state is balanced. -/
theorem balanced_start (state : S) : (start roster state).Balanced roster := by
  have hissued := (roster state).issued
  rw [← List.map_append] at hissued
  exact ⟨by simp [start], hissued.nodup, hissued.below⟩

/-- A turn keeps it balanced. -/
theorem Balanced.turn {l l' : PageLedger S} {newIds purgedIds : List PageId}
    (h : l.Balanced roster) (hturn : l.Turn roster l' newIds purgedIds) : l'.Balanced roster := by
  have hnew : ∀ id ∈ newIds, (roster l.state).next ≤ id ∧
      id < (roster l.state).next + newIds.length := by
    intro id hid
    rw [hturn.fresh] at hid
    simpa using List.mem_range'_1.1 hid
  constructor
  · have haccount := h.account.append_right newIds
    rw [hturn.issued, hturn.purged]
    calc l.issued ++ newIds
        |>.Perm ((roster l.state).known.map pageId ++ l.purged ++ newIds) := haccount
      _ |>.Perm ((roster l.state).known.map pageId ++ newIds ++ l.purged) := by
          rw [List.append_assoc, List.append_assoc]
          exact List.perm_append_comm.append_left _
      _ |>.Perm ((roster l'.state).known.map pageId ++ purgedIds ++ l.purged) :=
          hturn.account.symm.append_right _
      _ |>.Perm ((roster l'.state).known.map pageId ++ (l.purged ++ purgedIds)) := by
          rw [List.append_assoc]
          exact List.perm_append_comm.append_left _
  · rw [hturn.issued, List.nodup_append]
    refine ⟨h.once, ?_, ?_⟩
    · rw [hturn.fresh]
      exact List.nodup_range'
    · intro id hid id' hid' heq
      have hlt := h.below id hid
      have hle := (hnew id' hid').1
      rw [heq] at hlt
      exact Nat.not_lt.2 hle hlt
  · intro id hid
    rw [hturn.next]
    rw [hturn.issued] at hid
    rcases List.mem_append.1 hid with hold | hfresh
    · exact Nat.lt_add_right _ (h.below id hold)
    · exact (hnew id hfresh).2

theorem turn_of_shifts {l : PageLedger S} {state : S} {newIds : List PageId}
    (h : (roster l.state).Shifts (roster state) newIds) :
    l.Turn roster (l.advance state newIds) newIds [] where
  issued := rfl
  purged := (List.append_nil _).symm
  fresh := h.fresh
  next := h.next
  account := by
    rw [List.append_nil]
    exact h.account
  kept := fun slot hslot => (h.kept slot hslot).imp id .inl

/-- A call that was refused. -/
theorem Turn.refl (l : PageLedger S) : l.Turn roster l [] [] where
  issued := (List.append_nil _).symm
  purged := (List.append_nil _).symm
  fresh := rfl
  next := rfl
  account := .refl _
  kept := fun _ hslot => .inl hslot

/-! ### Over a run -/

/-- A balanced ledger identifies its pages. -/
theorem Balanced.identified {l : PageLedger S} (h : l.Balanced roster) : l.Identified roster := by
  have hknown := (roster l.state).issued
  rw [← List.map_append] at hknown
  have haccount := h.account
  rw [Roster.known, List.map_append] at haccount
  refine ⟨hknown.nodup, hknown.below, h.once, fun id => haccount.mem_iff,
    haccount.nodup_iff.1 h.once, ?_⟩
  intro n id hid
  rw [Roster.ids, List.getElem?_map] at hid
  obtain ⟨slot, hslot, rfl⟩ := Option.map_eq_some_iff.1 hid
  obtain ⟨hlt, hget⟩ := List.getElem?_eq_some_iff.1 hslot
  refine Roster.findIndex_eq_ok.2 ⟨(roster l.state).live.take n, slot,
    (roster l.state).live.drop (n + 1), ?_, rfl, by simp; omega⟩
  rw [← hget]
  simp

/-- The slot a page has when it is removed stays in the trash as it is. -/
theorem Spares.kept {step : PageLedger S → κ → PageLedger S} {id : PageId} {l l' : PageLedger S}
    (hstep : ∀ (l : PageLedger S) call, ∃ newIds purgedIds,
      l.Turn roster (step l call) newIds purgedIds)
    (h : Spares roster step id l l') {slot : σ}
    (hslot : slot ∈ (roster l.state).removed) (hid : pageId slot = id) :
    slot ∈ (roster l'.state).removed := by
  induction h with
  | refl => exact hslot
  | call before call notRestored notPurged ih =>
    obtain ⟨newIds, purgedIds, hturn⟩ := hstep _ call
    rcases hturn.kept slot ih with hkept | hlive | hpurged
    · exact hkept
    · exact absurd (hid ▸ hlive) notRestored
    · exact absurd (hid ▸ hpurged) notPurged

/-- Restoring a page from the trash puts its slot where it is asked for, and moves no other. -/
theorem restoreSlot_of_removed {r : Roster σ} {slot : σ} (hslot : slot ∈ r.removed) {atIndex : Nat}
    (hat : atIndex ≤ r.live.length) : ∃ r', r.restoreSlot (pageId slot) atIndex = .ok r' ∧
      r'.live = r.live.take atIndex ++ slot :: r.live.drop atIndex ∧
      r'.findIndex (pageId slot) = .ok atIndex ∧ r'.findSlot (pageId slot) = .ok slot := by
  obtain ⟨trashBefore, trashAfter, hremoved⟩ := List.append_of_mem hslot
  have hpos := Roster.position_removed hremoved
  have habsent : ¬ (r.live.any (pageId · == pageId slot)) := by
    simp only [List.any_eq_true, beq_iff_eq, not_exists, not_and]
    exact fun s hs => r.disjoint hs hslot
  obtain ⟨r', hr'⟩ : ∃ r', r.restoreSlot (pageId slot) atIndex = .ok r' := by
    unfold Roster.restoreSlot
    rw [if_neg habsent]
    split
    · rename_i hnone
      rw [hpos] at hnone
      cases hnone
    · rw [dif_neg (by omega)]
      exact ⟨_, rfl⟩
  obtain ⟨before', slot', after', before, after, hremoved', hid, hlive, hlength, hlive', -, -⟩ :=
    Roster.restoreSlot_eq_ok.1 hr'
  obtain ⟨rfl, rfl, rfl⟩ := Roster.split_unique (hremoved ▸ r.removed_nodup)
    (hremoved.symm.trans hremoved') hid.symm
  have htake : r.live.take atIndex = before := by rw [hlive, ← hlength, List.take_left]
  have hdrop : r.live.drop atIndex = after := by rw [hlive, ← hlength, List.drop_left]
  refine ⟨r', hr', by rw [hlive', htake, hdrop], ?_, ?_⟩
  · exact Roster.findIndex_eq_ok.2 ⟨before, slot, after, hlive', rfl, hlength.symm⟩
  · exact Roster.findSlot_eq_ok.2 ⟨by rw [hlive']; simp, rfl⟩

/-- What a run of calls promises: the identities stay accounted for, and a page that is removed and
then neither restored nor purged comes back as it was, where it is asked for. -/
structure Keeps (roster : S → Roster σ) (step : PageLedger S → κ → PageLedger S) (remove : PageId → κ)
    (restore : PageId → Nat → κ) (first : PageLedger S) : Prop where
  identified : ∀ calls : List κ, (calls.foldl step first).Identified roster
  restores : ∀ (calls : List κ) (id : PageId) (slot : σ) (l : PageLedger S),
    (roster (calls.foldl step first).state).findSlot id = .ok slot →
    Spares roster step id (step (calls.foldl step first) (remove id)) l →
    ∀ atIndex ≤ (roster l.state).live.length,
      (roster (step l (restore id atIndex)).state).live =
        (roster l.state).live.take atIndex ++ slot :: (roster l.state).live.drop atIndex ∧
      (roster (step l (restore id atIndex)).state).findIndex id = .ok atIndex ∧
      (roster (step l (restore id atIndex)).state).findSlot id = .ok slot

/-- So does a run of turns. -/
theorem balanced_run {step : PageLedger S → κ → PageLedger S}
    (hstep : ∀ (l : PageLedger S) call, ∃ newIds purgedIds,
      l.Turn roster (step l call) newIds purgedIds) (calls : List κ) {l : PageLedger S}
    (h : l.Balanced roster) : (calls.foldl step l).Balanced roster := by
  induction calls generalizing l with
  | nil => exact h
  | cons call calls ih =>
    obtain ⟨newIds, purgedIds, hturn⟩ := hstep l call
    exact ih (h.turn hturn)

/-- An implementation whose calls are turns and whose removal and restoration are the roster's
keeps the promise. -/
theorem keeps_of_turns {step : PageLedger S → κ → PageLedger S} {remove : PageId → κ}
    {restore : PageId → Nat → κ} {first : PageLedger S} (hfirst : first.Balanced roster)
    (hstep : ∀ (l : PageLedger S) call, ∃ newIds purgedIds,
      l.Turn roster (step l call) newIds purgedIds)
    (hremove : ∀ (l : PageLedger S) id r, (roster l.state).removeSlot id = .ok r →
      roster (step l (remove id)).state = r)
    (hrestore : ∀ (l : PageLedger S) id atIndex r, (roster l.state).restoreSlot id atIndex = .ok r →
      roster (step l (restore id atIndex)).state = r) :
    Keeps roster step remove restore first := by
  refine ⟨fun calls => (balanced_run hstep calls hfirst).identified, ?_⟩
  intro calls id slot l hslot hspares atIndex hat
  obtain ⟨hmem, rfl⟩ := Roster.findSlot_eq_ok.1 hslot
  -- the removal moves the very slot to the trash
  obtain ⟨before, after, hlive⟩ := List.append_of_mem hmem
  obtain ⟨r, hr, -, -⟩ := Roster.removeSlot_filter (List.mem_map_of_mem hmem)
  obtain ⟨before', slot', after', hlive', hid', -, hremoved, -⟩ := Roster.removeSlot_eq_ok.1 hr
  obtain ⟨rfl, rfl, rfl⟩ := Roster.split_unique (hlive ▸ Roster.live_nodup _)
    (hlive.symm.trans hlive') hid'.symm
  have htrash : slot ∈ (roster (step (calls.foldl step first) (remove (pageId slot))).state).removed := by
    rw [hremove _ _ _ hr, hremoved]
    simp
  obtain ⟨r', hr', hshown, hindex, hfound⟩ :=
    restoreSlot_of_removed (hspares.kept hstep htrash rfl) hat
  rw [hrestore _ _ _ _ hr']
  exact ⟨hshown, hindex, hfound⟩

end PageLedger

/-! ### The page map -/

/-- One call on a page map. -/
inductive PageMapCall where
  | append (objectId : ObjectId) (size : PageSize) (rotation : Rotation)
  | insert (atIndex : Nat) (objectId : ObjectId) (size : PageSize) (rotation : Rotation)
  | importSlots (slots : List (ObjectId × PageSize × Rotation)) (atIndex : Nat)
  | remove (id : PageId)
  | restore (id : PageId) (atIndex : Nat)
  | move (id : PageId) (toIndex : Nat)
  | rotate (id : PageId) (rotation : Rotation)
  | rebind (objectIds : List ObjectId)
  | purge

namespace PageMapCall

open PageLedger

/-- A page map is its own roster. -/
def self (pages : PageMap) : Roster PageSlot := pages

theorem pageId_make (objectId : ObjectId) (size : PageSize) (rotation : Rotation) (id : PageId) :
    pageId (PageSlot.make objectId size rotation id) = id := rfl

theorem pageId_markRotated (slot : PageSlot) : pageId slot.markRotated = pageId slot := rfl

theorem pageId_rotate (rotation : Rotation) (slot : PageSlot) :
    pageId (slot.rotate rotation) = pageId slot := rfl

/-- What an import does to the map: each slot is inserted beside the last, and marked. -/
def importEach : List (ObjectId × PageSize × Rotation) → Nat → PageLedger PageMap → PageLedger PageMap
  | [], _, l => l
  | (objectId, size, rotation) :: slots, atIndex, l =>
    match l.state.insertSlot atIndex (PageSlot.make objectId size rotation)
        (pageId_make objectId size rotation) with
    | .error _ => l
    | .ok (id, pages) =>
      match pages.modifySlot id PageSlot.markRotated pageId_markRotated with
      | .error _ => l.advance pages [id]
      | .ok pages => importEach slots (atIndex + 1) (l.advance pages [id])

def step (l : PageLedger PageMap) : PageMapCall → PageLedger PageMap
  | append objectId size rotation =>
    l.advance (l.state.appendSlot (PageSlot.make objectId size rotation)
      (pageId_make objectId size rotation)) [l.state.next]
  | insert atIndex objectId size rotation =>
    match l.state.insertSlot atIndex (PageSlot.make objectId size rotation)
        (pageId_make objectId size rotation) with
    | .error _ => l
    | .ok (id, pages) => l.advance pages [id]
  | importSlots slots atIndex => importEach slots atIndex l
  | remove id =>
    match l.state.removeSlot id with
    | .error _ => l
    | .ok pages => l.advance pages []
  | restore id atIndex =>
    match l.state.restoreSlot id atIndex with
    | .error _ => l
    | .ok pages => l.advance pages []
  | move id toIndex => l.advance (l.state.relocateSlot id toIndex).2 []
  | rotate id rotation =>
    match l.state.modifySlot id (PageSlot.rotate rotation) (pageId_rotate rotation) with
    | .error _ => l
    | .ok pages => l.advance pages []
  | rebind objectIds =>
    match PdfDocument.rebindObjects l.state objectIds with
    | .error _ => l
    | .ok pages => l.advance pages []
  | purge =>
    { l with
      state := l.state.purgeTrash
      purged := l.purged ++ l.state.removed.map pageId }

/-- An import inserts new slots and leaves the trash alone, even where it stops halfway. -/
theorem importEach_shifts (slots : List (ObjectId × PageSize × Rotation)) (atIndex : Nat)
    (l : PageLedger PageMap) : ∃ state newIds, importEach slots atIndex l = l.advance state newIds ∧
      l.state.Shifts state newIds ∧ state.removed = l.state.removed := by
  have hstay : l = l.advance l.state [] := by simp [advance]
  induction slots generalizing atIndex l with
  | nil => exact ⟨l.state, [], hstay, .refl _, rfl⟩
  | cons first slots ih =>
    obtain ⟨objectId, size, rotation⟩ := first
    rw [importEach]
    cases hinsert : l.state.insertSlot atIndex (PageSlot.make objectId size rotation) fun _ => rfl with
    | error e => exact ⟨l.state, [], hstay, .refl _, rfl⟩
    | ok inserted =>
      obtain ⟨id, pages⟩ := inserted
      have hshifts := Roster.shifts_insertSlot hinsert
      have hremoved : pages.removed = l.state.removed := by
        obtain ⟨-, -, -, -, -, -, hremoved, -⟩ := Roster.insertSlot_eq_ok.1 hinsert
        exact hremoved
      dsimp only
      cases hmark : pages.modifySlot id PageSlot.markRotated fun _ => rfl with
      | error e => exact ⟨pages, [id], rfl, hshifts, hremoved⟩
      | ok marked =>
        have hmarked : marked.removed = pages.removed := by
          obtain ⟨-, -, -, -, -, -, hmarked, -⟩ := Roster.modifySlot_eq_ok.1 hmark
          exact hmarked
        obtain ⟨state, newIds, hrest, hshifts', hremoved'⟩ :=
          ih (atIndex + 1) (l.advance marked [id]) (by simp [advance])
        have hboth := (hshifts.trans (Roster.shifts_modifySlot hmark) (hmarked.trans hremoved)).trans
          hshifts' (hremoved'.trans (hmarked.trans hremoved))
        refine ⟨state, [id] ++ [] ++ newIds, ?_, hboth, hremoved'.trans (hmarked.trans hremoved)⟩
        dsimp only
        rw [hrest]
        simp [advance]

theorem step_turn (l : PageLedger PageMap) (call : PageMapCall) :
    ∃ newIds purgedIds, l.Turn self (step l call) newIds purgedIds := by
  have hrefused : ∃ newIds purgedIds, l.Turn self l newIds purgedIds := ⟨[], [], .refl l⟩
  have hshifted : ∀ {state : PageMap} {newIds : List PageId}, l.state.Shifts state newIds →
      ∃ handed purgedIds, l.Turn self (l.advance state newIds) handed purgedIds := fun h =>
    ⟨_, [], turn_of_shifts h⟩
  cases call with
  | append objectId size rotation =>
    rw [step]
    exact hshifted (Roster.shifts_appendSlot _ _ _)
  | insert atIndex objectId size rotation =>
    rw [step]
    cases h : l.state.insertSlot atIndex (PageSlot.make objectId size rotation) fun _ => rfl with
    | error e => exact hrefused
    | ok inserted => exact hshifted (Roster.shifts_insertSlot h)
  | importSlots slots atIndex =>
    obtain ⟨state, newIds, himport, hshifts, -⟩ := importEach_shifts slots atIndex l
    rw [step, himport]
    exact hshifted hshifts
  | remove id =>
    rw [step]
    cases h : l.state.removeSlot id with
    | error e => exact hrefused
    | ok pages => exact hshifted (Roster.shifts_removeSlot h)
  | restore id atIndex =>
    rw [step]
    cases h : l.state.restoreSlot id atIndex with
    | error e => exact hrefused
    | ok pages => exact hshifted (Roster.shifts_restoreSlot h)
  | move id toIndex =>
    rw [step]
    rcases h : l.state.relocateSlot id toIndex with ⟨e | ⟨⟩, pages⟩
    · obtain rfl := Roster.relocateSlot_eq_error h
      exact hshifted (.refl _)
    · exact hshifted (Roster.shifts_relocateSlot h)
  | rotate id rotation =>
    rw [step]
    cases h : l.state.modifySlot id (PageSlot.rotate rotation) fun _ => rfl with
    | error e => exact hrefused
    | ok pages => exact hshifted (Roster.shifts_modifySlot h)
  | rebind objectIds =>
    rw [step]
    cases h : PdfDocument.rebindObjects l.state objectIds with
    | error e => exact hrefused
    | ok pages =>
      unfold PdfDocument.rebindObjects at h
      split at h
      · cases h
        exact hshifted (Roster.shifts_zipLive _)
      · cases h
  | purge =>
    refine ⟨[], l.state.removed.map pageId, ?_⟩
    rw [step]
    refine ⟨(List.append_nil _).symm, rfl, rfl, rfl, ?_, ?_⟩
    · simp [self, Roster.purgeTrash, Roster.known]
    · intro slot hslot
      exact .inr (.inr (List.mem_append_right _ (List.mem_map_of_mem hslot)))

theorem keeps : Keeps self step remove restore (start self Roster.empty) := by
  refine keeps_of_turns (balanced_start _) step_turn ?_ ?_
  · intro l id r h
    rw [step]
    change l.state.removeSlot id = .ok r at h
    rw [h]
    rfl
  · intro l id atIndex r h
    rw [step]
    change l.state.restoreSlot id atIndex = .ok r at h
    rw [h]
    rfl

end PageMapCall

/-! ### The in-memory document -/

/-- Take back a payload the in-memory document put in. -/
def PortablePages.takeVec (pages : PortablePages) : Except Error (List PageInfo) :=
  match pages with
  | vecPayload pages => .ok pages
  | pdfPayload _ => .error (.unsupported
      s!"these pages were exported by a different document implementation ({pages.payloadType}) and cannot be imported here (opdf_core::fakes::vec_document::VecPortablePayload); the carrier's contents are opaque, so there is nothing to fall back on")

def VecDocument.importPortable (pages : PortablePages) (atIndex : Nat) (d : VecDocument) :
    Outcome VecDocument (List PageId) :=
  match d.roster.checkInsertionIndex atIndex with
  | .error e => (.error e, d)
  | .ok () =>
    match pages.takeVec with
    | .error e => (.error e, d)
    | .ok imported =>
      match d.roster.insertEach PageInfo.withId PageInfo.pageId_withId imported atIndex with
      -- not reached: the position was checked above
      | .error e => (.error e, d)
      | .ok (newIds, roster) => (.ok newIds, d.commit roster)

/-- One call on an in-memory document. -/
inductive VecCall where
  | insert (atIndex : Nat) (size : PageSize)
  | importPages (source : VecDocument) (ids : List PageId) (atIndex : Nat)
  | importPortable (pages : PortablePages) (atIndex : Nat)
  | remove (id : PageId)
  | restore (id : PageId) (atIndex : Nat)
  | move (id : PageId) (toIndex : Nat)
  | rotate (id : PageId) (rotation : Rotation)

namespace VecCall

open PageLedger

/-- The ledger after a call that answers with the identities it handed out. -/
def issue (l : PageLedger VecDocument) (newIds : α → List PageId) :
    Outcome VecDocument α → PageLedger VecDocument
  | (.error _, d) => l.advance d []
  | (.ok a, d) => l.advance d (newIds a)

def step (l : PageLedger VecDocument) : VecCall → PageLedger VecDocument
  | insert atIndex size => issue l (fun id => [id]) (l.state.insertPage atIndex size)
  | importPages source ids atIndex =>
    issue l (fun newIds => newIds) (VecDocument.importPages source ids atIndex l.state)
  | importPortable pages atIndex => issue l (fun newIds => newIds) (l.state.importPortable pages atIndex)
  | remove id => issue l (fun _ => []) (l.state.removePage id)
  | restore id atIndex => issue l (fun _ => []) (l.state.restorePage id atIndex)
  | move id toIndex => issue l (fun _ => []) (l.state.movePage id toIndex)
  | rotate id rotation => issue l (fun _ => []) (l.state.setRotation id rotation)

/-- A call that changes nothing when refused. -/
theorem turn_of_issue {l : PageLedger VecDocument} {newIds : α → List PageId}
    {result : Outcome VecDocument α} (hrefused : ∀ e d, result = (.error e, d) → d = l.state)
    (hdone : ∀ a d, result = (.ok a, d) → l.state.roster.Shifts d.roster (newIds a)) :
    ∃ handed purgedIds, l.Turn VecDocument.roster (issue l newIds result) handed purgedIds := by
  rcases result with ⟨e | a, d⟩
  · obtain rfl := hrefused e d rfl
    exact ⟨[], [], turn_of_shifts (.refl _)⟩
  · exact ⟨newIds a, [], turn_of_shifts (hdone a d rfl)⟩

/-- A call that does to the roster what its specification says. -/
theorem turn_of_mutates {l : PageLedger VecDocument} {newIds : α → List PageId}
    {result : Outcome VecDocument α} {spec : Except Error (α × Roster PageInfo)}
    (hresult : Mutates VecDocument.roster l.state result spec)
    (hspec : ∀ a r, spec = .ok (a, r) → l.state.roster.Shifts r (newIds a)) :
    ∃ handed purgedIds, l.Turn VecDocument.roster (issue l newIds result) handed purgedIds := by
  rcases spec with e | ⟨a, r⟩
  · refine turn_of_issue (fun _ _ h => ?_) fun _ _ h => ?_
    · exact (congrArg Prod.snd (hresult.symm.trans h)).symm
    · cases hresult.symm.trans h
  · obtain ⟨hok, hroster, -, -⟩ := hresult
    refine turn_of_issue (fun e d h => ?_) fun a' d h => ?_
    · rw [h] at hok
      cases hok
    · rw [h] at hok hroster
      cases hok
      exact hroster ▸ hspec a r rfl

/-- A payload that is refused changes nothing. -/
theorem importPortable_refused {pages : PortablePages} {atIndex : Nat} {d d' : VecDocument}
    {e : Error} (h : d.importPortable pages atIndex = (.error e, d')) : d' = d := by
  unfold VecDocument.importPortable at h
  split at h
  · exact (congrArg Prod.snd h).symm
  split at h
  · exact (congrArg Prod.snd h).symm
  split at h
  · exact (congrArg Prod.snd h).symm
  · cases h

/-- One that is taken hands out an identity for each page. -/
theorem importPortable_shifts {pages : PortablePages} {atIndex : Nat} {d d' : VecDocument}
    {newIds : List PageId} (h : d.importPortable pages atIndex = (.ok newIds, d')) :
    d.roster.Shifts d'.roster newIds := by
  unfold VecDocument.importPortable at h
  split at h
  · cases h
  rename_i hcheck
  split at h
  · cases h
  split at h
  · cases h
  rename_i hinsert
  cases h
  refine Roster.shifts_insertEach ?_ hinsert
  unfold Roster.checkInsertionIndex at hcheck
  split at hcheck
  · cases hcheck
  · omega

theorem step_turn (l : PageLedger VecDocument) (call : VecCall) :
    ∃ newIds purgedIds, l.Turn VecDocument.roster (step l call) newIds purgedIds := by
  cases call with
  | insert atIndex size =>
    exact turn_of_mutates (LawfulDocument.insertPage_spec atIndex size l.state) fun id r h =>
      Roster.shifts_insertSlot h
  | importPages source ids atIndex =>
    refine turn_of_issue (fun e d => VecDocument.importPages_error) ?_
    intro newIds d h
    obtain ⟨pages, r, -, hat, hinsert, rfl⟩ := VecDocument.importPages_eq_ok h
    exact Roster.shifts_insertEach hat hinsert
  | importPortable pages atIndex =>
    exact turn_of_issue (fun e d => importPortable_refused) fun newIds d => importPortable_shifts
  | remove id =>
    refine turn_of_mutates (LawfulDocument.removePage_spec id l.state) fun _ r h =>
      Roster.shifts_removeSlot (Command.except_map_eq_ok.1 h)
  | restore id atIndex =>
    refine turn_of_mutates (LawfulDocument.restorePage_spec id atIndex l.state) fun _ r h =>
      Roster.shifts_restoreSlot (Command.except_map_eq_ok.1 h)
  | move id toIndex =>
    refine turn_of_mutates (LawfulDocument.movePage_spec id toIndex l.state) fun _ r h => ?_
    rcases hmoved : (roster l.state).relocateSlot id toIndex with ⟨e | ⟨⟩, moved⟩
    · rw [hmoved] at h
      cases h
    · rw [hmoved] at h
      cases h
      exact Roster.shifts_relocateSlot hmoved
  | rotate id rotation =>
    refine turn_of_mutates (LawfulDocument.setRotation_spec id rotation l.state) fun _ r h =>
      Roster.shifts_modifySlot (Command.except_map_eq_ok.1 h)

theorem keeps (first : VecDocument) :
    Keeps VecDocument.roster step remove restore (start VecDocument.roster first) := by
  refine keeps_of_turns (balanced_start _) step_turn ?_ ?_
  · intro l id r h
    simp only [step, VecDocument.removePage, h]
    rfl
  · intro l id atIndex r h
    simp only [step, VecDocument.restorePage, h]
    rfl

end VecCall

/-- Over any run of calls on a page map, and on an in-memory document, identities are distinct,
never issued twice and accounted for, and a removed page comes back with its very slot. -/
theorem identities_accounted :
    PageLedger.Keeps PageMapCall.self PageMapCall.step PageMapCall.remove PageMapCall.restore
      (PageLedger.start PageMapCall.self Roster.empty) ∧
    ∀ first : VecDocument, PageLedger.Keeps VecDocument.roster VecCall.step VecCall.remove
      VecCall.restore (PageLedger.start VecDocument.roster first) :=
  ⟨PageMapCall.keeps, VecCall.keeps⟩

end OpdfEditor
