import OpdfEditor.LeastRecentlyUsed
import OpdfEditor.RenderWorker

/-!
The worker's tile cache over whole runs of calls: its map, its recency queue and its byte
count stay in step, the queue is the order of last use, and an insertion evicts no more
than it has to.
-/
namespace OpdfEditor
namespace WorkerCache

open LeastRecentlyUsed

def pixelBytes (tile : Tile) : Nat := tile.pixels.length

inductive Call where
  | get (request : RenderRequest)
  | insert (request : RenderRequest) (tile : Tile)
  | retainRevision (revision : UInt64)

def step (c : WorkerCache) : Call → WorkerCache
  | .get request => ((c.get request).map Prod.snd).getD c
  | .insert request tile => c.insert request tile
  | .retainRevision revision => c.retainRevision revision

def used (c : WorkerCache) : Call → Option RenderRequest
  | .get request => if c.contains request then some request else none
  | .insert request tile => if tile.pixels.length > c.budgetBytes then none else some request
  | .retainRevision _ => none

def run (c : WorkerCache) (calls : List Call) : WorkerCache := calls.foldl step c

def usesOf (c : WorkerCache) (calls : List Call) : List (Option RenderRequest) :=
  uses step used c calls

/-- The map, the queue and the counter agree. -/
structure Consistent (c : WorkerCache) : Prop where
  keys : (c.entries.map Prod.fst).Nodup
  /-- The queue lists each cached key once and nothing else. -/
  queue : c.recency.Perm (c.entries.map Prod.fst)
  counted : c.bytes = footprint pixelBytes c.entries
  within : c.bytes ≤ c.budgetBytes

theorem consistent_withBudget (budget : Nat) : (withBudget budget).Consistent :=
  ⟨List.nodup_nil, List.Perm.refl _, rfl, Nat.zero_le _⟩

theorem contains_iff {c : WorkerCache} {request : RenderRequest} :
    c.contains request = true ↔ request ∈ c.entries.map Prod.fst := by
  simp [contains, List.lookup_isSome_iff]

namespace Consistent

variable {c : WorkerCache}

theorem mem_recency (h : c.Consistent) {request : RenderRequest} :
    request ∈ c.recency ↔ c.contains request = true :=
  h.queue.mem_iff.trans contains_iff.symm

theorem nodup (h : c.Consistent) : c.recency.Nodup := h.queue.nodup_iff.2 h.keys

theorem touch (h : c.Consistent) {request : RenderRequest} (hin : request ∈ c.recency) :
    (c.touch request).Consistent := by
  refine ⟨h.keys, ?_, h.counted, h.within⟩
  have hrotated : (c.recency.erase request ++ [request]).Perm c.recency :=
    (List.perm_append_singleton request _).trans (List.perm_cons_erase hin).symm
  exact hrotated.trans h.queue

/-- An over-full cache has something to evict. -/
theorem recency_ne_nil (h : c.Consistent) {tile : Tile} (hsize : tile.pixels.length ≤ c.budgetBytes)
    (hover : c.bytes + tile.pixels.length > c.budgetBytes) : c.recency ≠ [] := by
  intro hempty
  have hentries : c.entries = [] := by
    have hperm := h.queue
    rw [hempty] at hperm
    exact List.map_eq_nil_iff.1 hperm.nil_eq.symm
  have hbytes := h.counted
  rw [hentries] at hbytes
  have : c.bytes = 0 := hbytes
  omega

/-- Dropping the front of the queue from the map and the queue leaves them agreeing. -/
theorem drop (h : c.Consistent) (n : Nat) :
    (⟨without (c.recency.take n) c.entries, c.recency.drop n,
      footprint pixelBytes (without (c.recency.take n) c.entries), c.budgetBytes⟩ :
        WorkerCache).Consistent := by
  refine ⟨keys_filter_nodup h.keys _, ?_, rfl, ?_⟩
  · refine (List.perm_ext_iff_of_nodup (h.nodup.sublist (List.drop_sublist _ _))
      (keys_filter_nodup h.keys _)).2 fun request => ?_
    have hsplit : request ∈ c.recency.take n ∨ request ∈ c.recency.drop n ↔ request ∈ c.recency := by
      rw [← List.mem_append, List.take_append_drop]
    have hapart : request ∈ c.recency.take n → request ∉ c.recency.drop n :=
      fun htake hdrop => List.disjoint_take_drop h.nodup (Nat.le_refl n) htake hdrop
    have hcached : request ∈ c.recency ↔ ∃ tile, (request, tile) ∈ c.entries := by
      rw [h.queue.mem_iff]
      simp
    have hkept : request ∈ (without (c.recency.take n) c.entries).map Prod.fst ↔
        request ∈ c.recency ∧ request ∉ c.recency.take n := by
      rw [hcached]
      simp [mem_without]
    refine Iff.trans ?_ hkept.symm
    tauto
  · have hall := h.within
    rw [h.counted] at hall
    have := footprint_partition pixelBytes (fun entry => decide (entry.1 ∉ c.recency.take n)) c.entries
    dsimp only [without]
    omega

theorem evictOldest (h : c.Consistent) : c.evictOldest.Consistent := by
  have hdrop := h.drop 1
  unfold WorkerCache.evictOldest
  cases hqueue : c.recency with
  | nil => exact h
  | cons oldest recency =>
    have hcounted : c.bytes - sizeAt pixelBytes oldest c.entries =
        footprint pixelBytes (erase oldest c.entries) := by
      have := footprint_erase pixelBytes oldest h.keys
      have := h.counted
      omega
    rw [hqueue, List.take_succ_cons, List.take_zero, without_cons, without_nil, ← hcounted] at hdrop
    exact hdrop

end Consistent

/-- Making room is the eviction loop on the queue. -/
theorem makeRoom_eq (tileBytes : Nat) (c : WorkerCache) :
    makeRoom tileBytes c.recency.length c =
      let loop := evictLoop pixelBytes (fun used => decide (used + tileBytes ≤ c.budgetBytes))
        c.recency c.entries c.bytes
      ⟨loop.2.1, loop.1, loop.2.2, c.budgetBytes⟩ := by
  obtain ⟨entries, recency, bytes, budget⟩ := c
  induction recency generalizing entries bytes with
  | nil => rfl
  | cons oldest recency ih =>
    by_cases hfits : bytes + tileBytes ≤ budget
    · simp [makeRoom, evictLoop, hfits, Nat.not_lt.2 hfits]
    · have hover : bytes + tileBytes > budget := Nat.lt_of_not_le hfits
      simp only [List.length_cons, makeRoom, hover, if_true, evictLoop, hfits, decide_false,
        Bool.false_eq_true, if_false]
      exact ih (erase oldest entries) (bytes - sizeAt pixelBytes oldest entries)

theorem insert_refused {c : WorkerCache} {request : RenderRequest} {tile : Tile}
    (hsize : tile.pixels.length > c.budgetBytes) : c.insert request tile = c := if_pos hsize

theorem insert_again {c : WorkerCache} {request : RenderRequest} {tile : Tile}
    (hsize : ¬ tile.pixels.length > c.budgetBytes) (h : c.contains request = true) :
    c.insert request tile = c.touch request := by
  unfold WorkerCache.insert
  rw [if_neg hsize, if_pos h]

/-- What an insertion of a new tile evicts: the first `dropped` keys of the queue, no fewer of
which would have made room. -/
structure MakesRoom (c : WorkerCache) (request : RenderRequest) (tile : Tile) (dropped : Nat) :
    Prop where
  shortest : ShortestFit
    (fun m => footprint pixelBytes (without (c.recency.take m) c.entries) + tile.pixels.length ≤
      c.budgetBytes) c.recency.length dropped
  fits : footprint pixelBytes (without (c.recency.take dropped) c.entries) + tile.pixels.length ≤
    c.budgetBytes
  entries : (c.insert request tile).entries =
    without (c.recency.take dropped) c.entries ++ [(request, tile)]
  recency : (c.insert request tile).recency = c.recency.drop dropped ++ [request]
  bytes : (c.insert request tile).bytes =
    footprint pixelBytes (without (c.recency.take dropped) c.entries) + tile.pixels.length

theorem Consistent.makesRoom {c : WorkerCache} (h : c.Consistent) {request : RenderRequest}
    {tile : Tile} (hsize : tile.pixels.length ≤ c.budgetBytes) (hnew : c.contains request = false) :
    ∃ dropped, c.MakesRoom request tile dropped := by
  obtain ⟨dropped, hshortest, hloop⟩ := evictLoop_drops pixelBytes
    (fun used => decide (used + tile.pixels.length ≤ c.budgetBytes)) c.recency h.keys
  simp only [decide_eq_true_eq] at hshortest
  have hroom := makeRoom_eq tile.pixels.length c
  rw [h.counted, hloop] at hroom
  have hinsert : c.insert request tile =
      ⟨without (c.recency.take dropped) c.entries ++ [(request, tile)],
        c.recency.drop dropped ++ [request],
        footprint pixelBytes (without (c.recency.take dropped) c.entries) + tile.pixels.length,
        c.budgetBytes⟩ := by
    unfold WorkerCache.insert
    rw [if_neg (Nat.not_lt.2 hsize), if_neg (by simp [hnew])]
    simp only [hroom]
  refine ⟨dropped, hshortest, ?_, ?_, ?_, ?_⟩
  · rcases hshortest.enough with hfits | hall
    · exact hfits
    · -- with the whole queue gone nothing is held, and the tile alone fits
      by_contra hover
      refine (h.drop dropped).recency_ne_nil hsize (Nat.lt_of_not_le hover) ?_
      rw [hall]
      exact List.drop_length
  all_goals rw [hinsert]

theorem Consistent.insert {c : WorkerCache} (h : c.Consistent) (request : RenderRequest)
    (tile : Tile) : (c.insert request tile).Consistent := by
  by_cases hsize : tile.pixels.length > c.budgetBytes
  · rw [insert_refused hsize]
    exact h
  cases hnew : c.contains request with
  | true =>
    rw [insert_again hsize hnew]
    exact h.touch (h.mem_recency.2 hnew)
  | false =>
    obtain ⟨dropped, hroom⟩ := h.makesRoom (Nat.le_of_not_lt hsize) hnew
    have hkept := h.drop dropped
    have hfresh : request ∉ (without (c.recency.take dropped) c.entries).map Prod.fst := by
      intro hmem
      obtain ⟨entry, hentry, rfl⟩ := List.mem_map.1 hmem
      have hin : c.contains entry.1 = true :=
        contains_iff.2 (List.mem_map_of_mem (mem_without.1 hentry).1)
      rw [hnew] at hin
      cases hin
    have hbudget : (c.insert request tile).budgetBytes = c.budgetBytes := by
      unfold WorkerCache.insert
      rw [if_neg hsize, if_neg (by simp [hnew]), makeRoom_eq]
    refine ⟨?_, ?_, ?_, ?_⟩
    · rw [hroom.entries, List.map_append]
      exact List.nodup_append.2 ⟨hkept.keys, by simp, by
        intro a ha b hb heq
        obtain rfl := List.mem_singleton.1 hb
        exact hfresh (heq ▸ ha)⟩
    · rw [hroom.entries, hroom.recency, List.map_append]
      exact hkept.queue.append_right [request]
    · rw [hroom.entries, hroom.bytes]
      simp [footprint, pixelBytes]
    · rw [hroom.bytes, hbudget]
      exact hroom.fits

theorem Consistent.retainRevision {c : WorkerCache} (h : c.Consistent) (revision : UInt64) :
    (c.retainRevision revision).Consistent := by
  refine ⟨keys_filter_nodup h.keys _, ?_, rfl, ?_⟩
  · have hfiltered := h.queue.filter fun request => decide (request.revision = revision)
    rw [List.filter_map] at hfiltered
    exact hfiltered
  · have hpart := footprint_partition pixelBytes
      (fun entry => decide (entry.1.revision = revision)) c.entries
    have hwithin := h.within
    rw [h.counted] at hwithin
    exact Nat.le_trans (Nat.le.intro hpart) hwithin

theorem get_hit {c : WorkerCache} {request : RenderRequest} (h : c.contains request = true) :
    c.step (.get request) = c.touch request := by
  obtain ⟨tile, htile⟩ := Option.isSome_iff_exists.1 h
  simp [step, get, htile]

theorem get_miss {c : WorkerCache} {request : RenderRequest} (h : c.contains request = false) :
    c.step (.get request) = c := by
  have hnone : c.entries.lookup request = none := Option.isSome_eq_false_iff.1 h |> Option.isNone_iff_eq_none.1
  simp [step, get, hnone]

theorem Consistent.step {c : WorkerCache} (h : c.Consistent) (call : Call) :
    (c.step call).Consistent := by
  cases call with
  | get request =>
    cases hfound : c.contains request with
    | true =>
      rw [get_hit hfound]
      exact h.touch (h.mem_recency.2 hfound)
    | false =>
      rw [get_miss hfound]
      exact h
  | insert request tile => exact h.insert request tile
  | retainRevision revision => exact h.retainRevision revision

/-- One call keeps the queue in the order of last use. -/
theorem Consistent.step_inUseOrder {c : WorkerCache} (h : c.Consistent)
    {log : List (Option RenderRequest)} (horder : InUseOrder log c.recency) (call : Call) :
    InUseOrder (log ++ [c.used call]) (c.step call).recency := by
  cases call with
  | get request =>
    cases hfound : c.contains request with
    | true =>
      rw [get_hit hfound]
      simp only [used, hfound, if_true]
      exact horder.touch request
    | false =>
      rw [get_miss hfound]
      simp only [used, hfound]
      exact horder.idle
  | insert request tile =>
    dsimp only [used, WorkerCache.step]
    by_cases hsize : tile.pixels.length > c.budgetBytes
    · rw [if_pos hsize, insert_refused hsize]
      exact horder.idle
    rw [if_neg hsize]
    cases hnew : c.contains request with
    | true =>
      rw [insert_again hsize hnew]
      exact horder.touch request
    | false =>
      obtain ⟨dropped, hroom⟩ := h.makesRoom (Nat.le_of_not_lt hsize) hnew
      rw [hroom.recency]
      refine (horder.sublist (List.drop_sublist _ _)).use fun hmem => ?_
      have hin := h.mem_recency.1 (List.mem_of_mem_drop hmem)
      rw [hnew] at hin
      cases hin
  | retainRevision revision => exact (horder.sublist List.filter_sublist).idle

theorem step_budget (c : WorkerCache) (call : Call) : (c.step call).budgetBytes = c.budgetBytes := by
  cases call with
  | get request =>
    cases hfound : c.contains request with
    | true => rw [get_hit hfound]; rfl
    | false => rw [get_miss hfound]
  | insert request tile =>
    simp only [step, WorkerCache.insert]
    split
    · rfl
    split
    · rfl
    · rw [makeRoom_eq]
  | retainRevision revision => rfl

/-- What holds of a cache after a run of calls. -/
theorem run_consistent (budget : Nat) (calls : List Call) :
    ((withBudget budget).run calls).Consistent ∧
    ((withBudget budget).run calls).budgetBytes = budget ∧
    InUseOrder ((withBudget budget).usesOf calls) ((withBudget budget).run calls).recency := by
  induction calls using List.reverseRecOn with
  | nil => exact ⟨consistent_withBudget budget, rfl, List.Pairwise.nil⟩
  | append_singleton calls call ih =>
    obtain ⟨hconsistent, hbudget, horder⟩ := ih
    unfold run usesOf at *
    rw [List.foldl_append, uses_append]
    exact ⟨hconsistent.step call, (step_budget _ call).trans hbudget,
      hconsistent.step_inUseOrder horder call⟩

/-- After any run of calls the map, the queue and the byte count agree and the budget holds, the
queue is in the order of last use, and inserting a tile evicts the shortest front of the queue
that makes it fit: while the tile does not fit, the queue is never empty. -/
theorem cache_evicts_least_recently_used (budget : Nat) (calls : List Call) :
    let c := (withBudget budget).run calls
    c.Consistent ∧ c.budgetBytes = budget ∧ InUseOrder ((withBudget budget).usesOf calls) c.recency ∧
    ∀ request tile, tile.pixels.length ≤ budget → c.contains request = false →
      (∃ dropped, c.MakesRoom request tile dropped) ∧
      ∀ evictions, (evictOldest^[evictions] c).bytes + tile.pixels.length > budget →
        (evictOldest^[evictions] c).recency ≠ [] := by
  obtain ⟨hconsistent, hbudget, horder⟩ := run_consistent budget calls
  refine ⟨hconsistent, hbudget, horder, fun request tile hsize hnew => ⟨?_, ?_⟩⟩
  · exact hconsistent.makesRoom (hbudget.symm ▸ hsize) hnew
  · intro evictions
    have hkept : (evictOldest^[evictions] ((withBudget budget).run calls)).Consistent ∧
        (evictOldest^[evictions] ((withBudget budget).run calls)).budgetBytes = budget := by
      induction evictions with
      | zero => exact ⟨hconsistent, hbudget⟩
      | succ evictions ih =>
        rw [Function.iterate_succ_apply']
        refine ⟨ih.1.evictOldest, Eq.trans ?_ ih.2⟩
        unfold evictOldest
        split <;> rfl
    have hsize' : tile.pixels.length ≤
        (evictOldest^[evictions] ((withBudget budget).run calls)).budgetBytes := hkept.2.symm ▸ hsize
    intro hover
    exact hkept.1.recency_ne_nil hsize' (hkept.2.symm ▸ hover)

end WorkerCache
end OpdfEditor
