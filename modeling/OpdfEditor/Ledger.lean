import Mathlib.Data.Multiset.AddSub
import Mathlib.Data.Multiset.Count

/-!
Books kept over requests that are asked and answered, for an arbitrary kind of request.
A request is due from when it is asked until it is answered; two that are alike may be
merged into one. Where the books are kept, whatever was asked is due or was answered
after it was asked, and nothing is answered more often than it was asked.
-/
namespace Ledger

variable {R : Type}

inductive Entry (R : Type) where
  | asked (r : R)
  | answered (r : R)
  deriving DecidableEq

/-- The requests due after a log, in no order. -/
inductive Books : List (Entry R) → Multiset R → Prop
  | start : Books [] 0
  | ask {log due r} (h : Books log due) : Books (log ++ [.asked r]) (r ::ₘ due)
  | answer {log due r} (h : Books log (r ::ₘ due)) : Books (log ++ [.answered r]) due
  | merge {log due r} (h : Books log (r ::ₘ due)) (hdue : r ∈ due) : Books log due

variable {log : List (Entry R)} {due : Multiset R}

theorem Books.answerAll (rs : List R) (h : Books log (↑rs + due)) :
    Books (log ++ rs.map .answered) due := by
  induction rs generalizing log with
  | nil => simpa using h
  | cons r rs ih =>
    rw [← Multiset.cons_coe, Multiset.cons_add] at h
    simpa using ih h.answer

/-- A split of a longer log at an entry splits the log it extends, or sits at the new entry. -/
theorem split_concat {log before after : List (Entry R)} {last entry : Entry R}
    (h : log ++ [last] = before ++ entry :: after) :
    (after = [] ∧ before = log ∧ entry = last) ∨
      ∃ earlier, after = earlier ++ [last] ∧ log = before ++ entry :: earlier := by
  cases List.eq_nil_or_concat after with
  | inl hnil =>
    subst hnil
    obtain ⟨hlog, hlast⟩ := List.append_inj' h rfl
    exact .inl ⟨rfl, hlog.symm, (List.singleton_inj.1 hlast).symm⟩
  | inr hconcat =>
    obtain ⟨earlier, last', rfl⟩ := hconcat
    have h' : log ++ [last] = (before ++ entry :: earlier) ++ [last'] := by simpa using h
    obtain ⟨hlog, hlast⟩ := List.append_inj' h' rfl
    refine .inr ⟨earlier, ?_, hlog⟩
    rw [List.concat_eq_append, hlast]

/-- What was asked is still due, or was answered since. -/
theorem Books.settles (h : Books log due) {before after : List (Entry R)} {r : R}
    (hsplit : log = before ++ .asked r :: after) : r ∈ due ∨ .answered r ∈ after := by
  induction h generalizing after with
  | start => simp at hsplit
  | ask h ih =>
    cases split_concat hsplit with
    | inl hlast =>
      obtain ⟨-, -, hasked⟩ := hlast
      cases hasked
      exact .inl (Multiset.mem_cons_self _ _)
    | inr hearlier =>
      obtain ⟨earlier, rfl, hlog⟩ := hearlier
      exact (ih hlog).imp (fun hdue => Multiset.mem_cons_of_mem hdue)
        fun hanswered => List.mem_append_left _ hanswered
  | answer h ih =>
    cases split_concat hsplit with
    | inl hlast => exact absurd hlast.2.2 nofun
    | inr hearlier =>
      obtain ⟨earlier, rfl, hlog⟩ := hearlier
      cases ih hlog with
      | inl hdue =>
        cases Multiset.mem_cons.1 hdue with
        | inl heq =>
          subst heq
          exact .inr (by simp)
        | inr hdue => exact .inl hdue
      | inr hanswered => exact .inr (List.mem_append_left _ hanswered)
  | merge h hmem ih =>
    refine (ih hsplit).imp_left fun hdue => ?_
    cases Multiset.mem_cons.1 hdue with
    | inl heq => exact heq ▸ hmem
    | inr hdue => exact hdue

/-- Answers and requests due never outnumber what was asked. -/
theorem Books.count_le [DecidableEq R] (h : Books log due) (r : R) :
    log.count (.answered r) + due.count r ≤ log.count (.asked r) := by
  induction h with
  | start => simp
  | @ask log due r' h ih =>
    by_cases hr : r = r'
    · subst hr
      simp only [List.count_append, Multiset.count_cons_self]
      simp
      omega
    · have hne : Entry.asked r' ≠ Entry.asked r := fun heq => hr (Entry.asked.inj heq).symm
      simp only [List.count_append, Multiset.count_cons_of_ne hr]
      simp [hne]
      omega
  | @answer log due r' h ih =>
    by_cases hr : r = r'
    · subst hr
      simp only [List.count_append]
      simp only [Multiset.count_cons_self] at ih
      simp
      omega
    · have hne : Entry.answered r' ≠ Entry.answered r := fun heq => hr (Entry.answered.inj heq).symm
      simp only [List.count_append]
      simp only [Multiset.count_cons_of_ne hr] at ih
      simp [hne]
      omega
  | @merge log due r' h hmem ih =>
    have hle : due.count r ≤ (r' ::ₘ due).count r := Multiset.count_le_count_cons r r' due
    omega

theorem Books.asked_of_due (h : Books log due) {r : R} (hr : r ∈ due) : .asked r ∈ log := by
  induction h with
  | start => simp at hr
  | ask h ih =>
    cases Multiset.mem_cons.1 hr with
    | inl heq => simp [heq]
    | inr hr => exact List.mem_append_left _ (ih hr)
  | answer h ih => exact List.mem_append_left _ (ih (Multiset.mem_cons_of_mem hr))
  | merge h hmem ih => exact ih (Multiset.mem_cons_of_mem hr)

/-- What is answered was asked before. -/
theorem Books.asked_before (h : Books log due) {before after : List (Entry R)} {r : R}
    (hsplit : log = before ++ .answered r :: after) : .asked r ∈ before := by
  induction h generalizing after with
  | start => simp at hsplit
  | ask h ih =>
    cases split_concat hsplit with
    | inl hlast => exact absurd hlast.2.2 nofun
    | inr hearlier =>
      obtain ⟨earlier, -, hlog⟩ := hearlier
      exact ih hlog
  | answer h ih =>
    cases split_concat hsplit with
    | inl hlast =>
      obtain ⟨-, rfl, hanswered⟩ := hlast
      cases hanswered
      exact h.asked_of_due (Multiset.mem_cons_self _ _)
    | inr hearlier =>
      obtain ⟨earlier, -, hlog⟩ := hearlier
      exact ih hlog
  | merge h hmem ih => exact ih hsplit

end Ledger
