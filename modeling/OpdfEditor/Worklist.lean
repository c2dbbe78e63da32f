import Mathlib.Algebra.BigOperators.Group.Finset.Basic
import Mathlib.Algebra.Order.BigOperators.Group.Finset
import Mathlib.Logic.Relation

/-!
Breadth-first search with a queue: it visits exactly what can be reached, given one unit of
fuel for every edge inside a finite room.
-/
namespace Worklist

variable {α : Type*} [DecidableEq α] {next : α → List α}

/-- Visit a queue front first, adding what each newly visited element leads to at the back. -/
def search (next : α → List α) : Nat → List α → Finset α → Finset α
  | 0, _, visited => visited
  | _ + 1, [], visited => visited
  | fuel + 1, a :: queue, visited =>
    if a ∈ visited then search next fuel queue visited
    else search next fuel (queue ++ next a) (insert a visited)

/-- The search stays within whatever holds of its start and is kept by going on. -/
theorem search_within {P : α → Prop} (hnext : ∀ a, P a → ∀ b ∈ next a, P b) (fuel : Nat)
    {queue : List α} {visited : Finset α} (hqueue : ∀ a ∈ queue, P a) (hvisited : ∀ a ∈ visited, P a) :
    ∀ a ∈ search next fuel queue visited, P a := by
  induction fuel generalizing queue visited with
  | zero => exact hvisited
  | succ fuel ih =>
    cases queue with
    | nil => exact hvisited
    | cons a queue =>
      have ha := hqueue a List.mem_cons_self
      have hrest : ∀ b ∈ queue, P b := fun b hb => hqueue b (List.mem_cons_of_mem _ hb)
      unfold search
      split
      · exact ih hrest hvisited
      · refine ih (fun b hb => ?_) (fun b hb => ?_)
        · cases List.mem_append.1 hb with
          | inl hold => exact hrest b hold
          | inr hnew => exact hnext a ha b hnew
        · cases Finset.mem_insert.1 hb with
          | inl heq => exact heq ▸ ha
          | inr hold => exact hvisited b hold

/-- What is queued, and every edge out of what is not visited yet. -/
def work (next : α → List α) (room : Finset α) (queue : List α) (visited : Finset α) : Nat :=
  queue.length + ∑ a ∈ room \ visited, (next a).length

theorem work_visit {room visited : Finset α} {a : α} (ha : a ∈ room) (hnew : a ∉ visited)
    (queue : List α) :
    work next room (queue ++ next a) (insert a visited) + 1 =
      work next room (a :: queue) visited := by
  have hsplit : room \ visited = insert a (room \ insert a visited) := by
    ext b
    simp only [Finset.mem_sdiff, Finset.mem_insert]
    by_cases h : b = a
    · simp [h, ha, hnew]
    · simp [h]
  have hsum : ∑ b ∈ room \ visited, (next b).length =
      (next a).length + ∑ b ∈ room \ insert a visited, (next b).length := by
    rw [hsplit, Finset.sum_insert (by simp)]
  simp only [work, List.length_append, List.length_cons, hsum]
  omega

/-- With enough fuel nothing that is queued or visited is lost, and nothing is left to go on to. -/
theorem search_complete {room : Finset α} (hroom : ∀ a ∈ room, ∀ b ∈ next a, b ∈ room) {fuel : Nat}
    {queue : List α} {visited : Finset α} (hfuel : work next room queue visited ≤ fuel)
    (hqueue : ∀ a ∈ queue, a ∈ room)
    (hvisited : ∀ a ∈ visited, ∀ b ∈ next a, b ∈ visited ∨ b ∈ queue) :
    (∀ a, a ∈ visited ∨ a ∈ queue → a ∈ search next fuel queue visited) ∧
      ∀ a ∈ search next fuel queue visited, ∀ b ∈ next a, b ∈ search next fuel queue visited := by
  induction fuel generalizing queue visited with
  | zero =>
    obtain rfl : queue = [] := by
      unfold work at hfuel
      exact List.length_eq_zero_iff.1 (by omega)
    simpa [search] using hvisited
  | succ fuel ih =>
    cases queue with
    | nil => simpa [search] using hvisited
    | cons a queue =>
      have ha := hqueue a List.mem_cons_self
      have hrest : ∀ b ∈ queue, b ∈ room := fun b hb => hqueue b (List.mem_cons_of_mem _ hb)
      unfold search
      split
      · rename_i hseen
        have hfuel' : work next room queue visited ≤ fuel := by
          simp only [work, List.length_cons] at hfuel ⊢
          omega
        have hstep := ih hfuel' hrest fun b hb c hc => by
          rcases hvisited b hb c hc with hold | hqueued
          · exact .inl hold
          · cases List.mem_cons.1 hqueued with
            | inl heq => exact .inl (heq ▸ hseen)
            | inr hlater => exact .inr hlater
        refine ⟨fun b hb => hstep.1 b ?_, hstep.2⟩
        rcases hb with hold | hqueued
        · exact .inl hold
        · cases List.mem_cons.1 hqueued with
          | inl heq => exact .inl (heq ▸ hseen)
          | inr hlater => exact .inr hlater
      · rename_i hnew
        have hfuel' : work next room (queue ++ next a) (insert a visited) ≤ fuel := by
          have hvisit : work next room (queue ++ next a) (insert a visited) + 1 =
              work next room (a :: queue) visited := work_visit ha hnew queue
          omega
        have hstep := ih hfuel' (fun b hb => (List.mem_append.1 hb).elim (hrest b) (hroom a ha b))
          fun b hb c hc => by
            rw [Finset.mem_insert, List.mem_append]
            cases Finset.mem_insert.1 hb with
            | inl heq => exact .inr (.inr (heq ▸ hc))
            | inr hold =>
              rcases hvisited b hold c hc with hseen | hqueued
              · exact .inl (.inr hseen)
              · cases List.mem_cons.1 hqueued with
                | inl heq => exact .inl (.inl heq)
                | inr hlater => exact .inr (.inl hlater)
        refine ⟨fun b hb => hstep.1 b ?_, hstep.2⟩
        rw [Finset.mem_insert, List.mem_append]
        rcases hb with hold | hqueued
        · exact .inl (.inr hold)
        · cases List.mem_cons.1 hqueued with
          | inl heq => exact .inl (.inl heq)
          | inr hlater => exact .inr (.inl hlater)

/-- Searching from one element visits exactly what can be reached from it. -/
theorem mem_search {room : Finset α} (hroom : ∀ a ∈ room, ∀ b ∈ next a, b ∈ room) {start a : α}
    (hstart : start ∈ room) :
    a ∈ search next (1 + ∑ b ∈ room, (next b).length) [start] ∅ ↔
      Relation.ReflTransGen (fun x y => y ∈ next x) start a := by
  constructor
  · intro ha
    have hqueue : ∀ b ∈ [start], Relation.ReflTransGen (fun x y => y ∈ next x) start b := by
      simpa using .refl
    exact search_within (fun _ hb _ hc => hb.tail hc) _ hqueue (by simp) a ha
  · intro hreach
    have hfuel : work next room [start] ∅ ≤ 1 + ∑ b ∈ room, (next b).length := by simp [work]
    obtain ⟨hkeeps, hclosed⟩ := search_complete hroom hfuel (by simpa using hstart) (by simp)
    induction hreach with
    | refl => exact hkeeps start (.inr List.mem_cons_self)
    | tail _ hstep ih => exact hclosed _ ih _ hstep

end Worklist
