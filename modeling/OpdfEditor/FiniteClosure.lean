import Mathlib.Data.Finset.Card
import Mathlib.Data.Finset.Union
import Mathlib.Logic.Relation

/-!
The closure of a finite set under a successor function, by adding successors as
often as there is room for new elements.
-/
namespace FiniteClosure

variable {α : Type*} [DecidableEq α]

/-- A set with the successors of its elements. -/
def expand (next : α → Finset α) (s : Finset α) : Finset α := s ∪ s.biUnion next

def closure (next : α → Finset α) : Nat → Finset α → Finset α
  | 0, s => s
  | n + 1, s => closure next n (expand next s)

theorem subset_expand (next : α → Finset α) (s : Finset α) : s ⊆ expand next s :=
  Finset.subset_union_left

theorem subset_closure (next : α → Finset α) (n : Nat) (s : Finset α) : s ⊆ closure next n s := by
  induction n generalizing s with
  | zero => exact Finset.Subset.refl s
  | succ n ih => exact (subset_expand next s).trans (ih (expand next s))

theorem expand_subset {next : α → Finset α} {s room : Finset α} (hs : s ⊆ room)
    (hnext : ∀ a ∈ room, next a ⊆ room) : expand next s ⊆ room := by
  intro a ha
  rcases Finset.mem_union.1 ha with ha | ha
  · exact hs ha
  · obtain ⟨b, hb, hab⟩ := Finset.mem_biUnion.1 ha
    exact hnext b (hs hb) hab

theorem closure_eq_self {next : α → Finset α} {s : Finset α} (h : expand next s = s) (n : Nat) :
    closure next n s = s := by
  induction n with
  | zero => rfl
  | succ n ih => rw [closure, h, ih]

/-- With one round for every element still missing, nothing more can be added. -/
theorem expand_closure {next : α → Finset α} {room : Finset α}
    (hnext : ∀ a ∈ room, next a ⊆ room) {n : Nat} {s : Finset α} (hs : s ⊆ room)
    (hn : (room \ s).card ≤ n) : expand next (closure next n s) = closure next n s := by
  induction n generalizing s with
  | zero =>
    have hall : room ⊆ s := Finset.sdiff_eq_empty_iff_subset.1 (Finset.card_eq_zero.1 (by omega))
    exact Finset.Subset.antisymm ((expand_subset hs hnext).trans hall) (subset_expand next s)
  | succ n ih =>
    by_cases hstable : expand next s = s
    · rw [closure_eq_self hstable, hstable]
    · refine ih (expand_subset hs hnext) ?_
      have hgrow : s ⊂ expand next s :=
        (subset_expand next s).ssubset_of_ne (Ne.symm hstable)
      have hlt : (room \ expand next s).card < (room \ s).card := by
        obtain ⟨a, ha, hnot⟩ := Finset.exists_of_ssubset hgrow
        refine Finset.card_lt_card
          ⟨Finset.sdiff_subset_sdiff (Finset.Subset.refl _) hgrow.1, fun hle => ?_⟩
        have := hle (Finset.mem_sdiff.2 ⟨expand_subset hs hnext ha, hnot⟩)
        exact (Finset.mem_sdiff.1 this).2 ha
      omega

theorem reaches_of_mem_closure {next : α → Finset α} {n : Nat} {s : Finset α} {a : α}
    (h : a ∈ closure next n s) : ∃ b ∈ s, Relation.ReflTransGen (fun x y => y ∈ next x) b a := by
  induction n generalizing s with
  | zero => exact ⟨a, h, .refl⟩
  | succ n ih =>
    obtain ⟨b, hb, hreach⟩ := ih h
    rcases Finset.mem_union.1 hb with hb | hb
    · exact ⟨b, hb, hreach⟩
    · obtain ⟨c, hc, hcb⟩ := Finset.mem_biUnion.1 hb
      exact ⟨c, hc, .head hcb hreach⟩

/-- Inside a finite room the closure is exactly what can be reached. -/
theorem mem_closure_iff {next : α → Finset α} {room : Finset α}
    (hnext : ∀ a ∈ room, next a ⊆ room) {s : Finset α} (hs : s ⊆ room) {a : α} :
    a ∈ closure next room.card s ↔
      ∃ b ∈ s, Relation.ReflTransGen (fun x y => y ∈ next x) b a := by
  refine ⟨reaches_of_mem_closure, ?_⟩
  rintro ⟨b, hb, hreach⟩
  have hstable := expand_closure hnext hs (Finset.card_le_card (Finset.sdiff_subset))
  induction hreach with
  | refl => exact subset_closure next _ s hb
  | tail _ hstep ih =>
    rw [← hstable]
    exact Finset.mem_union_right _ (Finset.mem_biUnion.2 ⟨_, ih, hstep⟩)

end FiniteClosure
