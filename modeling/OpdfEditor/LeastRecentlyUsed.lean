import Mathlib.Data.List.Nodup
import Mathlib.Data.List.Perm.Subperm
import Mathlib.Algebra.BigOperators.Group.List.Basic
import Mathlib.Algebra.Ring.Nat

/-!
Least-recently-used eviction in general. A store is a list of keyed entries, each with a
footprint. A log tells which key every step used, a queue lists keys by their last use, and
the eviction loop drops the front of a queue until what is left fits.
-/
namespace LeastRecentlyUsed

variable {κ ν : Type} [DecidableEq κ]

/-! ### The footprint of a store -/

def footprint (size : ν → Nat) (entries : List (κ × ν)) : Nat :=
  (entries.map fun entry => size entry.2).sum

def without (keys : List κ) (entries : List (κ × ν)) : List (κ × ν) :=
  entries.filter fun entry => entry.1 ∉ keys

def erase (key : κ) (entries : List (κ × ν)) : List (κ × ν) :=
  entries.filter fun entry => entry.1 ≠ key

def sizeAt (size : ν → Nat) (key : κ) (entries : List (κ × ν)) : Nat :=
  ((entries.lookup key).map size).getD 0

@[simp] theorem without_nil (entries : List (κ × ν)) : without [] entries = entries := by
  simp [without]

theorem without_cons (key : κ) (keys : List κ) (entries : List (κ × ν)) :
    without (key :: keys) entries = without keys (erase key entries) := by
  unfold without erase
  rw [List.filter_filter]
  refine List.filter_congr fun entry _ => ?_
  by_cases h : entry.1 = key <;> simp [h]

/-- What is left without some keys. -/
theorem mem_without {keys : List κ} {entries : List (κ × ν)} {entry : κ × ν} :
    entry ∈ without keys entries ↔ entry ∈ entries ∧ entry.1 ∉ keys := by
  simp [without]

theorem mem_erase {key : κ} {entries : List (κ × ν)} {entry : κ × ν} :
    entry ∈ erase key entries ↔ entry ∈ entries ∧ entry.1 ≠ key := by
  simp [erase]

omit [DecidableEq κ] in
theorem keys_filter_nodup {entries : List (κ × ν)} (h : (entries.map Prod.fst).Nodup)
    (p : κ × ν → Bool) : ((entries.filter p).map Prod.fst).Nodup :=
  h.sublist (List.filter_sublist.map _)

theorem erase_of_notMem {key : κ} {entries : List (κ × ν)} (h : key ∉ entries.map Prod.fst) :
    erase key entries = entries := by
  refine List.filter_eq_self.2 fun entry hentry => ?_
  have hne : entry.1 ≠ key := fun heq => h (heq ▸ List.mem_map_of_mem hentry)
  simpa using hne

/-- A key is found exactly where it is stored. -/
theorem lookup_eq_some {key : κ} {value : ν} {entries : List (κ × ν)}
    (h : (entries.map Prod.fst).Nodup) :
    entries.lookup key = some value ↔ (key, value) ∈ entries := by
  induction entries with
  | nil => simp
  | cons entry entries ih =>
    obtain ⟨key', value'⟩ := entry
    obtain ⟨hfresh, hrest⟩ := List.nodup_cons.1 h
    by_cases hkey : key = key'
    · subst hkey
      have hout : (key, value) ∉ entries := fun hmem =>
        hfresh (List.mem_map.2 ⟨_, hmem, rfl⟩)
      simp [hout, eq_comm]
    · have hbeq : (key == key') = false := by simpa using hkey
      rw [List.lookup_cons, hbeq]
      simpa [hkey] using ih hrest

/-- An entry takes the room its value does. -/
theorem sizeAt_of_mem {size : ν → Nat} {key : κ} {value : ν} {entries : List (κ × ν)}
    (h : (entries.map Prod.fst).Nodup) (hmem : (key, value) ∈ entries) :
    sizeAt size key entries = size value := by
  unfold sizeAt
  rw [(lookup_eq_some h).2 hmem]
  rfl

/-- Erasing a key takes its footprint off the store's. -/
theorem footprint_erase (size : ν → Nat) (key : κ) {entries : List (κ × ν)}
    (h : (entries.map Prod.fst).Nodup) :
    footprint size (erase key entries) + sizeAt size key entries = footprint size entries := by
  induction entries with
  | nil => rfl
  | cons entry entries ih =>
    obtain ⟨key', value⟩ := entry
    obtain ⟨hfresh, hrest⟩ := List.nodup_cons.1 h
    by_cases hkey : key' = key
    · subst hkey
      have hhead : erase key' ((key', value) :: entries) = entries := by
        refine Eq.trans ?_ (erase_of_notMem hfresh)
        simp [erase]
      rw [hhead, sizeAt_of_mem h (List.mem_cons_self (a := (key', value)))]
      simp [footprint, Nat.add_comm]
    · have hcons : erase key ((key', value) :: entries) = (key', value) :: erase key entries := by
        simp [erase, hkey]
      have hbeq : (key == key') = false := by simpa using Ne.symm hkey
      have hsize : sizeAt size key ((key', value) :: entries) = sizeAt size key entries := by
        simp [sizeAt, List.lookup_cons, hbeq]
      rw [hcons, hsize]
      have := ih hrest
      simp only [footprint, List.map_cons, List.sum_cons] at this ⊢
      omega

omit [DecidableEq κ] in
/-- A filter splits the footprint in two. -/
theorem footprint_partition (size : ν → Nat) (p : κ × ν → Bool) (entries : List (κ × ν)) :
    footprint size (entries.filter p) + footprint size (entries.filter fun entry => !p entry) =
      footprint size entries := by
  induction entries with
  | nil => rfl
  | cons entry entries ih =>
    cases hp : p entry <;> simp only [footprint, List.filter_cons, hp, List.map_cons, List.sum_cons,
      Bool.not_true, Bool.not_false, Bool.false_eq_true, if_true, if_false] at ih ⊢ <;> omega

omit [DecidableEq κ] in
/-- Keeping more takes more room. -/
theorem footprint_filter_mono (size : ν → Nat) {p q : κ × ν → Bool} {entries : List (κ × ν)}
    (h : ∀ entry ∈ entries, p entry = true → q entry = true) :
    footprint size (entries.filter p) ≤ footprint size (entries.filter q) := by
  have hpart := footprint_partition size p (entries.filter q)
  have hboth : (entries.filter q).filter p = entries.filter p := by
    rw [List.filter_filter]
    refine List.filter_congr fun entry hentry => ?_
    cases hp : p entry with
    | false => rfl
    | true => rw [h entry hentry hp, Bool.and_true]
  rw [hboth] at hpart
  exact Nat.le.intro hpart

/-! ### The eviction loop -/

/-- `n` is the least number of elements to drop from the front of a queue so that the rest fits,
or the length of the queue where no number of them is enough. -/
structure ShortestFit (fits : Nat → Prop) (length n : Nat) : Prop where
  within : n ≤ length
  needed : ∀ m < n, ¬ fits m
  enough : fits n ∨ n = length

/-- Where dropping more never stops the rest from fitting, an element of the queue goes exactly where
the rest does not fit without it going. -/
theorem ShortestFit.lt_iff {fits : Nat → Prop} {length n m : Nat} (h : ShortestFit fits length n)
    (hmono : ∀ {a b}, a ≤ b → fits a → fits b) (hm : m < length) : m < n ↔ ¬ fits m := by
  refine ⟨h.needed m, fun hover => Nat.lt_of_not_le fun hle => ?_⟩
  rcases h.enough with hfits | hall
  · exact hover (hmono hle hfits)
  · omega

/-- Drop the front of a queue from a store while what the store holds does not fit. -/
def evictLoop (size : ν → Nat) (fits : Nat → Bool) :
    List κ → List (κ × ν) → Nat → List κ × List (κ × ν) × Nat
  | [], entries, used => ([], entries, used)
  | key :: queue, entries, used =>
    if fits used then (key :: queue, entries, used)
    else evictLoop size fits queue (erase key entries) (used - sizeAt size key entries)

/-- The loop drops the shortest front of the queue that makes the rest fit. -/
theorem evictLoop_drops (size : ν → Nat) (fits : Nat → Bool) (queue : List κ)
    {entries : List (κ × ν)} (hkeys : (entries.map Prod.fst).Nodup) :
    ∃ n, ShortestFit (fun m => fits (footprint size (without (queue.take m) entries)) = true)
        queue.length n ∧
      evictLoop size fits queue entries (footprint size entries) =
        (queue.drop n, without (queue.take n) entries,
          footprint size (without (queue.take n) entries)) := by
  induction queue generalizing entries with
  | nil => exact ⟨0, ⟨Nat.le_refl _, by simp, .inr rfl⟩, by simp [evictLoop]⟩
  | cons key queue ih =>
    by_cases hfits : fits (footprint size entries) = true
    · exact ⟨0, ⟨Nat.zero_le _, by simp, .inl (by simpa using hfits)⟩, by simp [evictLoop, hfits]⟩
    · obtain ⟨n, hshortest, hloop⟩ := ih (keys_filter_nodup hkeys fun entry => entry.1 ≠ key)
      have hused : footprint size entries - sizeAt size key entries =
          footprint size (erase key entries) := by
        have := footprint_erase size key hkeys
        omega
      refine ⟨n + 1, ⟨Nat.succ_le_succ hshortest.within, ?_, ?_⟩, ?_⟩
      · intro m hm
        cases m with
        | zero => simpa using hfits
        | succ m =>
          rw [List.take_succ_cons, without_cons]
          exact hshortest.needed m (Nat.lt_of_succ_lt_succ hm)
      · rw [List.take_succ_cons, without_cons]
        rcases hshortest.enough with h | h
        · exact .inl h
        · exact .inr (congrArg Nat.succ h)
      · rw [List.take_succ_cons, List.drop_succ_cons, without_cons]
        unfold evictLoop
        rw [if_neg hfits, hused]
        exact hloop

/-! ### The order of last use -/

/-- The number of the last step that used a key, counted from one, or zero. -/
def lastUse (log : List (Option κ)) (key : κ) : Nat :=
  log.length - log.reverse.idxOf (some key)

theorem lastUse_le_length (log : List (Option κ)) (key : κ) : lastUse log key ≤ log.length :=
  Nat.sub_le _ _

/-- A key used now was last used now. -/
theorem lastUse_append_self (log : List (Option κ)) (key : κ) :
    lastUse (log ++ [some key]) key = log.length + 1 := by
  simp [lastUse]

/-- A key not used keeps its last use. -/
theorem lastUse_append_other {log : List (Option κ)} {used : Option κ} {key : κ}
    (h : used ≠ some key) : lastUse (log ++ [used]) key = lastUse log key := by
  simp [lastUse, List.idxOf_cons_ne _ h]

section Runs

variable {σ α : Type} (step : σ → α → σ) (used : σ → α → Option κ)

def uses : σ → List α → List (Option κ)
  | _, [] => []
  | s, a :: as => used s a :: uses (step s a) as

omit [DecidableEq κ] in
theorem uses_append (s : σ) (as later : List α) :
    uses step used s (as ++ later) = uses step used s as ++ uses step used (as.foldl step s) later := by
  induction as generalizing s with
  | nil => rfl
  | cons a as ih => exact congrArg _ (ih (step s a))

end Runs

/-- A queue lists its keys by their last use, least recent first. -/
def InUseOrder (log : List (Option κ)) (queue : List κ) : Prop :=
  queue.Pairwise fun a b => lastUse log a < lastUse log b

namespace InUseOrder

variable {log : List (Option κ)} {queue : List κ}

theorem nodup (h : InUseOrder log queue) : queue.Nodup :=
  h.imp fun hlt heq => by subst heq; exact Nat.lt_irrefl _ hlt

theorem sublist (h : InUseOrder log queue) {queue' : List κ} (hsub : queue'.Sublist queue) :
    InUseOrder log queue' := List.Pairwise.sublist hsub h

theorem idle (h : InUseOrder log queue) : InUseOrder (log ++ [none]) queue := by
  have hother : ∀ key, lastUse (log ++ [none]) key = lastUse log key :=
    fun key => lastUse_append_other (Option.some_ne_none key).symm
  refine h.imp fun hlt => ?_
  rw [hother, hother]
  exact hlt

/-- A step that uses a key moves it to the end of the queue. -/
theorem use (h : InUseOrder log queue) {key : κ} (hout : key ∉ queue) :
    InUseOrder (log ++ [some key]) (queue ++ [key]) := by
  have hother : ∀ other ∈ queue, lastUse (log ++ [some key]) other = lastUse log other :=
    fun other hmem => lastUse_append_other fun heq => hout (Option.some.inj heq ▸ hmem)
  refine List.pairwise_append.2 ⟨?_, List.pairwise_singleton _ _, ?_⟩
  · refine List.Pairwise.imp_of_mem ?_ h
    intro a b ha hb hlt
    rw [hother a ha, hother b hb]
    exact hlt
  · intro a ha b hb
    obtain rfl := List.mem_singleton.1 hb
    rw [hother a ha, lastUse_append_self]
    exact Nat.lt_succ_of_le (lastUse_le_length _ _)

/-- Using a key moves it to the end of the queue. -/
theorem touch (h : InUseOrder log queue) (key : κ) :
    InUseOrder (log ++ [some key]) (queue.erase key ++ [key]) :=
  (h.sublist List.erase_sublist).use h.nodup.not_mem_erase

end InUseOrder

omit [DecidableEq κ] in
/-- An element of a queue is in its front exactly where everything before it falls short of it. -/
theorem mem_take_iff {older newer : List κ} {key : κ} (h : (older ++ key :: newer).Nodup) (n : Nat) :
    key ∈ (older ++ key :: newer).take n ↔ older.length < n := by
  have hout : key ∉ older := fun hin =>
    (List.nodup_append.1 h).2.2 key hin key (List.mem_cons_self ..) rfl
  rw [List.take_append, List.mem_append]
  constructor
  · intro hmem
    refine Nat.lt_of_not_le fun hle => ?_
    rw [Nat.sub_eq_zero_of_le hle, List.take_zero] at hmem
    rcases hmem with hin | hin
    · exact hout (List.mem_of_mem_take hin)
    · cases hin
  · intro hlt
    obtain ⟨room, hroom⟩ := Nat.exists_eq_add_of_lt hlt
    have hleft : n - older.length = room + 1 := by omega
    rw [hleft, List.take_succ_cons]
    exact .inr (List.mem_cons_self ..)

end LeastRecentlyUsed
