import OpdfEditor.LeastRecentlyUsed
import OpdfEditor.TileCache

/-!
The user interface's tile cache over whole runs of calls: its byte count is what its
entries occupy, its clock orders them by their last use, and an eviction drops no more of
the unprotected entries than it has to.
-/
namespace OpdfEditor
namespace TileCache

open LeastRecentlyUsed

variable {T : Type}

inductive Call (T : Type) where
  | beginFrame
  | insert (request : RenderRequest) (value : T) (bytes : Nat)
  | get (request : RenderRequest)
  | markPending (request : RenderRequest)
  | clearPending (request : RenderRequest)
  | noteFailed (request : RenderRequest)
  | retainRevision (revision : UInt64)
  | clear
  | evictToBudget (protectedSince : Nat)

def step (c : TileCache T) : Call T → TileCache T
  | .beginFrame => c.beginFrame.2
  | .insert request value bytes => c.insert request value bytes
  | .get request => (c.get request).2
  | .markPending request => (c.markPending request).2
  | .clearPending request => c.clearPending request
  | .noteFailed request => c.noteFailed request
  | .retainRevision revision => c.retainRevision revision
  | .clear => c.clear
  | .evictToBudget protectedSince => (c.evictToBudget protectedSince).2

def used (c : TileCache T) : Call T → Option RenderRequest
  | .insert request _ _ => some request
  | .get request => if c.contains request then some request else none
  | _ => none

def run (c : TileCache T) (calls : List (Call T)) : TileCache T := calls.foldl step c

theorem run_append (c : TileCache T) (calls later : List (Call T)) :
    c.run (calls ++ later) = (c.run calls).run later := List.foldl_append

def usesOf (c : TileCache T) (calls : List (Call T)) : List (Option RenderRequest) :=
  uses step used c calls

def heldBytes (c : TileCache T) : Nat := footprint CacheEntry.bytes c.entries

/-- What is held stays below the word size all along a run. -/
def StaysAddressable : TileCache T → List (Call T) → Prop
  | c, [] => c.heldBytes < addressLimit
  | c, call :: calls => c.heldBytes < addressLimit ∧ StaysAddressable (c.step call) calls

instance decidableStaysAddressable : (c : TileCache T) → (calls : List (Call T)) →
    Decidable (c.StaysAddressable calls)
  | c, [] => inferInstanceAs (Decidable (c.heldBytes < addressLimit))
  | c, call :: calls =>
    have := decidableStaysAddressable (c.step call) calls
    inferInstanceAs (Decidable (c.heldBytes < addressLimit ∧ StaysAddressable (c.step call) calls))

theorem StaysAddressable.first {c : TileCache T} {calls : List (Call T)}
    (h : c.StaysAddressable calls) : c.heldBytes < addressLimit := by
  cases calls with
  | nil => exact h
  | cons call calls => exact h.1

/-! ### The order of last use -/

/-- Two entries are stamped in the order a log last used them in. -/
def StampedInOrder (log : List (Option RenderRequest)) (a b : RenderRequest × CacheEntry T) : Prop :=
  a.2.lastUsed < b.2.lastUsed ∧ lastUse log a.1 < lastUse log b.1

/-- What a cache keeps of its history: how much it holds and in which order it was used. -/
structure Accounted (log : List (Option RenderRequest)) (c : TileCache T) : Prop where
  keys : (c.entries.map Prod.fst).Nodup
  counted : c.usedBytes = c.heldBytes
  stamped : ∀ entry ∈ c.entries, entry.2.lastUsed ≤ c.clock
  ordered : ∀ a ∈ c.entries, ∀ b ∈ c.entries, a.1 ≠ b.1 →
    StampedInOrder log a b ∨ StampedInOrder log b a

theorem accounted_new (budget : Nat) : Accounted [] (new budget : TileCache T) :=
  ⟨List.nodup_nil, rfl, by simp [new], by simp [new]⟩

namespace Accounted

variable {log : List (Option RenderRequest)} {c : TileCache T}

/-- Dropping entries and letting time pass keeps the account. -/
theorem keep (h : Accounted log c) {c' : TileCache T} (hentries : c'.entries.Sublist c.entries)
    (hcounted : c'.usedBytes = c'.heldBytes) (hclock : c.clock ≤ c'.clock) :
    Accounted (log ++ [none]) c' := by
  refine ⟨h.keys.sublist (hentries.map _), hcounted,
    fun entry hentry => (h.stamped entry (hentries.subset hentry)).trans hclock, ?_⟩
  intro a ha b hb hne
  have hlog : ∀ key, lastUse (log ++ [none]) key = lastUse log key :=
    fun key => lastUse_append_other (Option.some_ne_none key).symm
  unfold StampedInOrder
  rw [hlog, hlog]
  exact h.ordered a (hentries.subset ha) b (hentries.subset hb) hne

/-- Stamping one key with the next tick keeps the order of last use. -/
theorem ordered_use (h : Accounted log c) {request : RenderRequest}
    {entries : List (RenderRequest × CacheEntry T)}
    (hentries : ∀ entry ∈ entries, entry ∈ c.entries ∧ entry.1 ≠ request ∨
      entry.1 = request ∧ entry.2.lastUsed = c.clock + 1) :
    ∀ a ∈ entries, ∀ b ∈ entries, a.1 ≠ b.1 →
      StampedInOrder (log ++ [some request]) a b ∨ StampedInOrder (log ++ [some request]) b a := by
  have hother : ∀ key, key ≠ request → lastUse (log ++ [some request]) key = lastUse log key :=
    fun key hne => lastUse_append_other fun heq => hne (Option.some.inj heq).symm
  have hlast : ∀ a b : RenderRequest × CacheEntry T, a ∈ c.entries → a.1 ≠ request →
      b.1 = request → b.2.lastUsed = c.clock + 1 → StampedInOrder (log ++ [some request]) a b := by
    intro a b ha hne hb hstamp
    refine ⟨?_, ?_⟩
    · rw [hstamp]
      exact Nat.lt_succ_of_le (h.stamped a ha)
    · rw [hother a.1 hne, hb, lastUse_append_self]
      exact Nat.lt_succ_of_le (lastUse_le_length log a.1)
  intro a ha b hb hne
  rcases hentries a ha with ⟨ha, hane⟩ | ⟨ha, hastamp⟩
  · rcases hentries b hb with ⟨hb, hbne⟩ | ⟨hb, hbstamp⟩
    · unfold StampedInOrder
      rw [hother a.1 hane, hother b.1 hbne]
      exact h.ordered a ha b hb hne
    · exact .inl (hlast a b ha hane hb hbstamp)
  · rcases hentries b hb with ⟨hb, hbne⟩ | ⟨hb, hbstamp⟩
    · exact .inr (hlast b a hb hbne ha hastamp)
    · exact absurd (ha.trans hb.symm) hne

theorem insert (h : Accounted log c) (request : RenderRequest) (value : T) (bytes : Nat)
    (hroom : (c.insert request value bytes).heldBytes < addressLimit) :
    Accounted (log ++ [some request]) (c.insert request value bytes) := by
  have hheld : (c.insert request value bytes).heldBytes =
      c.heldBytes - sizeAt CacheEntry.bytes request c.entries + bytes := by
    have herase := footprint_erase CacheEntry.bytes request h.keys
    change bytes + footprint CacheEntry.bytes (erase request c.entries) = _
    unfold heldBytes
    omega
  refine ⟨?_, ?_, ?_, ?_⟩
  · refine List.nodup_cons.2 ⟨fun hmem => ?_, keys_filter_nodup h.keys _⟩
    obtain ⟨entry, hentry, heq⟩ := List.mem_map.1 hmem
    exact (mem_erase.1 hentry).2 heq
  · rw [hheld] at hroom ⊢
    rw [← h.counted] at hroom ⊢
    exact min_eq_left (Nat.le_pred_of_lt hroom)
  · intro entry hentry
    rcases List.mem_cons.1 hentry with rfl | hold
    · exact Nat.le_refl _
    · exact Nat.le_succ_of_le (h.stamped entry (mem_erase.1 hold).1)
  · refine h.ordered_use fun entry hentry => ?_
    rcases List.mem_cons.1 hentry with rfl | hold
    · exact .inr ⟨rfl, rfl⟩
    · exact .inl (mem_erase.1 hold)

end Accounted

theorem get_keys (request : RenderRequest) (c : TileCache T) :
    (c.get request).2.entries.map Prod.fst = c.entries.map Prod.fst := by
  simp only [get, List.map_map]
  refine List.map_congr_left fun entry _ => ?_
  by_cases h : entry.1 = request <;> simp [h]

theorem get_heldBytes (request : RenderRequest) (c : TileCache T) :
    (c.get request).2.heldBytes = c.heldBytes := by
  simp only [heldBytes, footprint, get, List.map_map]
  refine congrArg List.sum (List.map_congr_left fun entry _ => ?_)
  by_cases h : entry.1 = request <;> simp [h]

theorem mem_get {request : RenderRequest} {c : TileCache T}
    {entry : RenderRequest × CacheEntry T} (h : entry ∈ (c.get request).2.entries) :
    entry ∈ c.entries ∧ entry.1 ≠ request ∨
      entry.1 = request ∧ entry.2.lastUsed = c.clock + 1 := by
  obtain ⟨old, hold, rfl⟩ := List.mem_map.1 h
  by_cases hkey : old.1 = request
  · rw [if_pos hkey]
    exact .inr ⟨hkey, rfl⟩
  · rw [if_neg hkey]
    exact .inl ⟨hold, hkey⟩

theorem contains_iff {c : TileCache T} {request : RenderRequest} :
    c.contains request = true ↔ request ∈ c.entries.map Prod.fst := by
  simp [contains, List.lookup_isSome_iff]

theorem get_miss {request : RenderRequest} {c : TileCache T} (h : c.contains request = false) :
    (c.get request).2.entries = c.entries := by
  have hout : ∀ entry ∈ c.entries, entry.1 ≠ request := by
    intro entry hentry heq
    have hin : c.contains request = true := contains_iff.2 (heq ▸ List.mem_map_of_mem hentry)
    rw [h] at hin
    cases hin
  refine (List.map_congr_left fun entry hentry => ?_).trans (List.map_id _)
  exact if_neg (hout entry hentry)

/-- Looking an entry up keeps the account, whether or not it is found. -/
theorem Accounted.get {log : List (Option RenderRequest)} {c : TileCache T} (h : Accounted log c)
    (request : RenderRequest) :
    Accounted (log ++ [if c.contains request then some request else none]) (c.get request).2 := by
  have hcounted : (c.get request).2.usedBytes = (c.get request).2.heldBytes := by
    rw [get_heldBytes]
    exact h.counted
  cases hfound : c.contains request with
  | true =>
    refine ⟨?_, hcounted, ?_, h.ordered_use fun entry hentry => mem_get hentry⟩
    · rw [get_keys]
      exact h.keys
    · intro entry hentry
      rcases mem_get hentry with ⟨hold, -⟩ | ⟨-, hstamp⟩
      · exact Nat.le_succ_of_le (h.stamped entry hold)
      · exact Nat.le_of_eq hstamp
  | false =>
    refine h.keep ?_ hcounted (Nat.le_succ _)
    rw [get_miss hfound]

/-! ### Bulk removal -/

theorem foldl_saturatingAdd (sizes : List Nat) (freed : Nat)
    (h : freed + sizes.sum < addressLimit) : sizes.foldl saturatingAdd freed = freed + sizes.sum := by
  induction sizes generalizing freed with
  | nil => rfl
  | cons size sizes ih =>
    rw [List.sum_cons] at h ⊢
    have hstep : saturatingAdd freed size = freed + size := by
      unfold saturatingAdd
      omega
    rw [List.foldl_cons, hstep, ih (freed + size) (by omega)]
    omega

theorem Accounted.retainRevision {log : List (Option RenderRequest)} {c : TileCache T}
    (h : Accounted log c) (hroom : c.heldBytes < addressLimit) (revision : UInt64) :
    Accounted (log ++ [none]) (c.retainRevision revision) := by
  refine h.keep List.filter_sublist ?_ (Nat.le_refl _)
  have hpart := footprint_partition CacheEntry.bytes
    (fun entry => decide (entry.1.revision = revision)) c.entries
  have hfreed : footprint CacheEntry.bytes
      (c.entries.filter fun entry => !decide (entry.1.revision = revision)) =
      ((c.entries.filter fun entry => entry.1.revision ≠ revision).map (·.2.bytes)).sum := by
    unfold footprint
    simp only [ne_eq, decide_not]
  have hcounted := h.counted
  have hsum := foldl_saturatingAdd
    ((c.entries.filter fun entry => entry.1.revision ≠ revision).map (·.2.bytes)) 0
  unfold heldBytes at hroom hcounted
  change c.usedBytes - List.foldl saturatingAdd 0 _ = footprint CacheEntry.bytes
    (c.entries.filter fun entry => entry.1.revision = revision)
  rw [hsum (by omega)]
  omega

/-! ### Eviction -/

/-- Eviction is the eviction loop on its candidates, and counts what it drops. -/
theorem evictInOrder_eq (queue : List RenderRequest) (c : TileCache T) (hqueue : queue.Nodup)
    (hin : ∀ request ∈ queue, c.contains request = true) :
    let loop := evictLoop CacheEntry.bytes (fun used => decide (used ≤ c.budgetBytes))
      queue c.entries c.usedBytes
    evictInOrder queue c = (queue.length - loop.1.length,
      { c with entries := loop.2.1, usedBytes := loop.2.2 }) ∧ loop.1.length ≤ queue.length := by
  induction queue generalizing c with
  | nil => exact ⟨rfl, Nat.le_refl _⟩
  | cons request queue ih =>
    obtain ⟨hfresh, hrest⟩ := List.nodup_cons.1 hqueue
    by_cases hfits : c.usedBytes ≤ c.budgetBytes
    · simp [evictInOrder, evictLoop, hfits]
    · obtain ⟨hloop, hle⟩ := ih { c with
          entries := eraseEntry request c.entries
          usedBytes := c.usedBytes - ((c.entries.lookup request).map CacheEntry.bytes).getD 0 }
        hrest (by
          intro later hlater
          obtain ⟨entry, hentry, heq⟩ := List.mem_map.1 (contains_iff.1 (hin later (by simp [hlater])))
          refine contains_iff.2 (List.mem_map.2 ⟨entry, mem_erase.2 ⟨hentry, ?_⟩, heq⟩)
          rw [heq]
          exact fun h => hfresh (h ▸ hlater))
      simp only [evictInOrder, if_neg hfits, hloop, hin request (by simp), if_true, evictLoop,
        decide_eq_true_eq, List.length_cons]
      refine ⟨Prod.ext ?_ rfl, Nat.le_succ_of_le hle⟩
      exact (Nat.succ_sub hle).symm

theorem evictionCandidates_perm (protectedSince : Nat) (c : TileCache T) :
    (c.evictionCandidates protectedSince).Perm
      ((c.entries.filter fun entry => entry.2.lastUsed < protectedSince).map Prod.fst) :=
  (List.perm_insertionSort _ _).map _

namespace Accounted

variable {log : List (Option RenderRequest)} {c : TileCache T}

/-- The candidates come in the order the log last used them in. -/
theorem candidates_inUseOrder (h : Accounted log c) (protectedSince : Nat) :
    InUseOrder log (c.evictionCandidates protectedSince) := by
  let aged := c.entries.filter fun entry => entry.2.lastUsed < protectedSince
  have hsorted : (aged.insertionSort fun a b => a.2.lastUsed ≤ b.2.lastUsed).Pairwise
      fun a b => a.2.lastUsed ≤ b.2.lastUsed := List.pairwise_insertionSort _ _
  have hdistinct : (aged.insertionSort fun a b => a.2.lastUsed ≤ b.2.lastUsed).Pairwise
      fun a b => a.1 ≠ b.1 :=
    List.pairwise_map.1 ((evictionCandidates_perm protectedSince c).nodup_iff.2
      (keys_filter_nodup h.keys fun entry => decide (entry.2.lastUsed < protectedSince)))
  refine List.pairwise_map.2 ((hsorted.and hdistinct).imp_of_mem ?_)
  intro a b ha hb hboth
  have hmem : ∀ entry ∈ aged.insertionSort (fun a b => a.2.lastUsed ≤ b.2.lastUsed),
      entry ∈ c.entries := fun entry hentry =>
    List.mem_of_mem_filter ((List.mem_insertionSort _).1 hentry)
  rcases h.ordered a (hmem a ha) b (hmem b hb) hboth.2 with hlt | hgt
  · exact hlt.2
  · exact absurd hgt.1 (Nat.not_lt.2 hboth.1)

theorem candidates_contained (protectedSince : Nat) :
    ∀ request ∈ c.evictionCandidates protectedSince, c.contains request = true := by
  intro request hmem
  obtain ⟨entry, hentry, rfl⟩ := List.mem_map.1 ((evictionCandidates_perm protectedSince c).mem_iff.1 hmem)
  exact contains_iff.2 (List.mem_map_of_mem (List.mem_of_mem_filter hentry))

end Accounted

/-- What an eviction drops: the first `dropped` of the entries last used before
`protectedSince`, in the order of their last use, no fewer of which would have been enough. -/
structure Evicts (log : List (Option RenderRequest)) (c : TileCache T) (protectedSince : Nat)
    (aged : List RenderRequest) (dropped : Nat) : Prop where
  lists : aged.Perm ((c.entries.filter fun entry => entry.2.lastUsed < protectedSince).map Prod.fst)
  order : InUseOrder log aged
  shortest : ShortestFit
    (fun m => footprint CacheEntry.bytes (without (aged.take m) c.entries) ≤ c.budgetBytes)
    aged.length dropped
  entries : (c.evictToBudget protectedSince).2.entries = without (aged.take dropped) c.entries
  spares : ∀ entry ∈ c.entries, protectedSince ≤ entry.2.lastUsed →
    entry ∈ (c.evictToBudget protectedSince).2.entries
  usedBytes : (c.evictToBudget protectedSince).2.usedBytes =
    footprint CacheEntry.bytes (without (aged.take dropped) c.entries)
  count : (c.evictToBudget protectedSince).1 = dropped

theorem Accounted.evicts {log : List (Option RenderRequest)} {c : TileCache T}
    (h : Accounted log c) (protectedSince : Nat) :
    ∃ dropped, Evicts log c protectedSince (c.evictionCandidates protectedSince) dropped := by
  have horder := h.candidates_inUseOrder protectedSince
  obtain ⟨dropped, hshortest, hloop⟩ := evictLoop_drops CacheEntry.bytes
    (fun used => decide (used ≤ c.budgetBytes)) (c.evictionCandidates protectedSince) h.keys
  simp only [decide_eq_true_eq] at hshortest
  obtain ⟨hevict, -⟩ := evictInOrder_eq _ c horder.nodup (Accounted.candidates_contained protectedSince)
  have hcounted := h.counted
  unfold heldBytes at hcounted
  rw [hcounted, hloop] at hevict
  have heq : c.evictToBudget protectedSince = _ := hevict
  refine ⟨dropped, evictionCandidates_perm protectedSince c, horder, hshortest, ?_, ?_, ?_, ?_⟩
  · rw [heq]
  · intro entry hentry hrecent
    rw [heq]
    refine mem_without.2 ⟨hentry, fun hdropped => ?_⟩
    obtain ⟨old, hold, hkey⟩ := List.mem_map.1
      ((evictionCandidates_perm protectedSince c).mem_iff.1 (List.mem_of_mem_take hdropped))
    obtain ⟨hstored, haged⟩ := List.mem_filter.1 hold
    have hsame : old = entry := List.inj_on_of_nodup_map h.keys hstored hentry hkey
    rw [hsame] at haged
    exact absurd hrecent (Nat.not_le.2 (of_decide_eq_true haged))
  · rw [heq]
  · rw [heq, List.length_drop]
    have := hshortest.within
    omega

theorem Accounted.evictToBudget {log : List (Option RenderRequest)} {c : TileCache T}
    (h : Accounted log c) (protectedSince : Nat) :
    Accounted (log ++ [none]) (c.evictToBudget protectedSince).2 := by
  obtain ⟨dropped, hevicts⟩ := h.evicts protectedSince
  refine h.keep ?_ ?_ (Nat.le_of_eq (evictToBudget_keeps protectedSince c).2.2.1.symm)
  · rw [hevicts.entries]
    exact List.filter_sublist
  · unfold heldBytes
    rw [hevicts.usedBytes, hevicts.entries]

/-! ### Runs -/

theorem Accounted.step {log : List (Option RenderRequest)} {c : TileCache T}
    (h : Accounted log c) {call : Call T} (hbefore : c.heldBytes < addressLimit)
    (hafter : (c.step call).heldBytes < addressLimit) :
    Accounted (log ++ [c.used call]) (c.step call) := by
  cases call with
  | beginFrame => exact h.keep (List.Sublist.refl _) h.counted (Nat.le_succ _)
  | insert request value bytes => exact h.insert request value bytes hafter
  | get request => exact h.get request
  | markPending request =>
    dsimp only [TileCache.step, markPending]
    split
    · exact h.keep (List.Sublist.refl _) h.counted (Nat.le_refl _)
    · exact h.keep (List.Sublist.refl _) h.counted (Nat.le_refl _)
  | clearPending request => exact h.keep (List.Sublist.refl _) h.counted (Nat.le_refl _)
  | noteFailed request => exact h.keep (List.Sublist.refl _) h.counted (Nat.le_refl _)
  | retainRevision revision => exact h.retainRevision hbefore revision
  | clear => exact h.keep (List.nil_sublist _) rfl (Nat.le_refl _)
  | evictToBudget protectedSince => exact h.evictToBudget protectedSince

theorem Accounted.run {log : List (Option RenderRequest)} {c : TileCache T}
    (h : Accounted log c) {calls : List (Call T)} (hroom : c.StaysAddressable calls) :
    Accounted (log ++ c.usesOf calls) (c.run calls) := by
  induction calls generalizing log c with
  | nil => simpa [usesOf, uses, TileCache.run] using h
  | cons call calls ih =>
    have hstep := ih (h.step hroom.1 hroom.2.first) hroom.2
    rw [List.append_assoc] at hstep
    exact hstep

/-- After any run of calls during which what is held stays below the word size, the byte count is
what the entries occupy, and an eviction drops the shortest front of the unprotected entries,
least recently used first, that brings it within budget, or all of them. -/
theorem cache_accounts_and_evicts (budget : Nat) (calls : List (Call T))
    (hroom : (new budget : TileCache T).StaysAddressable calls) (protectedSince : Nat) :
    let c := (new budget : TileCache T).run calls
    c.usedBytes = c.heldBytes ∧
    ∃ aged dropped, Evicts ((new budget : TileCache T).usesOf calls) c protectedSince aged dropped := by
  have haccounted := (accounted_new budget).run hroom
  rw [List.nil_append] at haccounted
  obtain ⟨dropped, hevicts⟩ := haccounted.evicts protectedSince
  exact ⟨haccounted.counted, _, dropped, hevicts⟩

def twoTiles : List (Call Nat) :=
  [.beginFrame, .insert ⟨1, 0, 0, 1, .none, RenderRequest.one_positive⟩ 7 4,
    .insert ⟨1, 0, 1, 1, .none, RenderRequest.one_positive⟩ 8 3, .beginFrame,
    .get ⟨1, 0, 0, 1, .none, RenderRequest.one_positive⟩]

theorem cache_accounts_and_evicts_two_tiles :
    ((new 5 : TileCache Nat).run twoTiles).usedBytes = ((new 5 : TileCache Nat).run twoTiles).heldBytes ∧
    ∃ aged dropped, Evicts ((new 5 : TileCache Nat).usesOf twoTiles)
      ((new 5 : TileCache Nat).run twoTiles) 4 aged dropped :=
  cache_accounts_and_evicts 5 twoTiles (by decide +kernel) 4

end TileCache
end OpdfEditor
