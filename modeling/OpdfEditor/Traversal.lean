import Mathlib.Data.List.Forall2

/-!
Traversing a list with a step that may fail: what is left when every step succeeds,
and which step fails when one does.
-/
namespace Traversal

variable {ε α β : Type} {f : α → Except ε β} {xs : List α}

theorem mapM_eq_ok {ys : List β} :
    xs.mapM f = .ok ys ↔ List.Forall₂ (fun x y => f x = .ok y) xs ys := by
  induction xs generalizing ys with
  | nil => cases ys <;> simp [pure, Except.pure]
  | cons x xs ih =>
    rw [List.mapM_cons]
    cases hx : f x with
    | error e => cases ys <;> simp [bind, Except.bind, hx]
    | ok y =>
      cases hxs : xs.mapM f with
      | error e => cases ys <;> simp [bind, Except.bind, ← ih, hxs, hx]
      | ok rest => cases ys <;> simp [bind, Except.bind, pure, Except.pure, ← ih, hxs, hx]

/-- What a traversal answers is the answer of some step. -/
theorem exists_of_mapM {ys : List β} (h : xs.mapM f = .ok ys) {y : β} (hy : y ∈ ys) :
    ∃ x ∈ xs, f x = .ok y := by
  induction mapM_eq_ok.1 h with
  | nil => cases hy
  | @cons x first xs rest hx _ ih =>
    rcases List.mem_cons.1 hy with rfl | hy
    · exact ⟨x, List.mem_cons_self, hx⟩
    · obtain ⟨x', hx', heq⟩ := ih (mapM_eq_ok.2 ‹_›) hy
      exact ⟨x', List.mem_cons_of_mem _ hx', heq⟩

/-- A traversal fails as its first failing element does. -/
theorem mapM_eq_error {e : ε} : xs.mapM f = .error e ↔
    ∃ before x after ys, xs = before ++ x :: after ∧
      List.Forall₂ (fun x y => f x = .ok y) before ys ∧ f x = .error e := by
  constructor
  · intro h
    induction xs with
    | nil => cases h
    | cons x xs ih =>
      rw [List.mapM_cons] at h
      cases hx : f x with
      | error e' =>
        rw [hx] at h
        cases h
        exact ⟨[], x, xs, [], rfl, .nil, hx⟩
      | ok y =>
        cases hxs : xs.mapM f with
        | error e' =>
          rw [hx, hxs] at h
          cases h
          obtain ⟨before, x', after, ys, hsplit, hbefore, hfail⟩ := ih hxs
          exact ⟨x :: before, x', after, y :: ys, by rw [hsplit]; rfl, .cons hx hbefore, hfail⟩
        | ok rest =>
          rw [hx, hxs] at h
          cases h
  · rintro ⟨before, x, after, ys, rfl, hbefore, hx⟩
    rw [List.mapM_append, mapM_eq_ok.2 hbefore, List.mapM_cons, hx]
    rfl

/-- A traversal whose steps all succeed succeeds. -/
theorem exists_mapM_eq_ok (h : ∀ x ∈ xs, ∃ y, f x = .ok y) : ∃ ys, xs.mapM f = .ok ys := by
  induction xs with
  | nil => exact ⟨[], rfl⟩
  | cons x xs ih =>
    obtain ⟨y, hy⟩ := h x (by simp)
    obtain ⟨ys, hys⟩ := ih fun x hx => h x (by simp [hx])
    exact ⟨y :: ys, by rw [List.mapM_cons, hy, hys]; rfl⟩

end Traversal
