import Mathlib.Data.List.DropRight

/-!
Cutting a list at a separator, and stripping a class of elements from both ends.
A list cut at a separator that is not itself stripped gives the same stripped
pieces whether its own ends are stripped before or not.
-/
namespace Trimming

variable {α : Type*} (p : α → Bool)

/-- Strip the elements of a class from both ends. -/
def trim (xs : List α) : List α := (xs.dropWhile p).rdropWhile p

def Blank (xs : List α) : Prop := ∀ x ∈ xs, p x = true

/-- A list with blanks around it. -/
def Padded (xs core : List α) : Prop :=
  ∃ before after, Blank p before ∧ Blank p after ∧ xs = before ++ core ++ after

/-- The part before the first separator and the part after it, where there is one. -/
def splitOnce [DecidableEq α] (sep : α) : List α → Option (List α × List α)
  | [] => none
  | x :: xs =>
    if x = sep then some ([], xs)
    else (splitOnce sep xs).map fun (before, after) => (x :: before, after)

/-- A non-empty list of pieces, joined by a separator none of them holds. -/
structure Separated (sep : α) (xs : List α) (pieces : List (List α)) : Prop where
  nonempty : pieces ≠ []
  free : ∀ piece ∈ pieces, sep ∉ piece
  joined : xs = [sep].intercalate pieces

variable {p}

@[simp] theorem trim_nil : trim p [] = [] := rfl

theorem blank_nil : Blank p [] := fun _ h => by cases h

theorem blank_cons {x : α} {xs : List α} : Blank p (x :: xs) ↔ p x = true ∧ Blank p xs :=
  List.forall_mem_cons

theorem blank_append {xs ys : List α} : Blank p (xs ++ ys) ↔ Blank p xs ∧ Blank p ys :=
  List.forall_mem_append

theorem dropWhile_blank_append {before : List α} (h : Blank p before) (xs : List α) :
    (before ++ xs).dropWhile p = xs.dropWhile p := by
  induction before with
  | nil => rfl
  | cons x before ih =>
    obtain ⟨hx, hbefore⟩ := blank_cons.1 h
    rw [List.cons_append, List.dropWhile_cons_of_pos hx]
    exact ih hbefore

theorem rdropWhile_append_blank {after : List α} (h : Blank p after) (xs : List α) :
    (xs ++ after).rdropWhile p = xs.rdropWhile p := by
  induction after using List.reverseRecOn with
  | nil => simp
  | append_singleton after x ih =>
    obtain ⟨hafter, hx⟩ := blank_append.1 h
    rw [← List.append_assoc, List.rdropWhile_concat_pos _ _ _ (hx x (by simp))]
    exact ih hafter

theorem blank_takeWhile (xs : List α) : Blank p (xs.takeWhile p) := fun _ h =>
  List.mem_takeWhile_imp h

theorem blank_rtakeWhile (xs : List α) : Blank p (xs.rtakeWhile p) := fun _ h =>
  List.mem_rtakeWhile_imp h

/-- What stripping removes is blank. -/
theorem padded_trim (xs : List α) : Padded p xs (trim p xs) :=
  ⟨xs.takeWhile p, (xs.dropWhile p).rtakeWhile p, blank_takeWhile xs, blank_rtakeWhile _, by
    rw [trim, List.append_assoc, List.rdropWhile_append_rtakeWhile, List.takeWhile_append_dropWhile]⟩

theorem dropWhile_of_blank {xs : List α} (h : Blank p xs) : xs.dropWhile p = [] :=
  List.dropWhile_eq_nil_iff.2 h

theorem dropWhile_append_of_not_blank {xs : List α} (h : ¬ Blank p xs) (after : List α) :
    (xs ++ after).dropWhile p = xs.dropWhile p ++ after := by
  rw [List.dropWhile_append, if_neg]
  intro hempty
  exact h (List.dropWhile_eq_nil_iff.1 (List.isEmpty_iff.1 hempty))

/-- Blanks around a list are stripped with it. -/
theorem trim_append {before after : List α} (hbefore : Blank p before) (hafter : Blank p after)
    (xs : List α) : trim p (before ++ xs ++ after) = trim p xs := by
  unfold trim
  rw [List.append_assoc, dropWhile_blank_append hbefore]
  by_cases h : Blank p xs
  · rw [dropWhile_of_blank (blank_append.2 ⟨h, hafter⟩), dropWhile_of_blank h]
  · rw [dropWhile_append_of_not_blank h, rdropWhile_append_blank hafter]

theorem trim_eq_nil {xs : List α} : trim p xs = [] ↔ Blank p xs := by
  constructor
  · intro h
    obtain ⟨before, after, hbefore, hafter, hxs⟩ := padded_trim (p := p) xs
    rw [hxs, h, List.append_nil]
    exact blank_append.2 ⟨hbefore, hafter⟩
  · intro h
    rw [trim, dropWhile_of_blank h, List.rdropWhile_nil]

/-- A list without a blank element is left alone. -/
theorem trim_eq_self {xs : List α} (h : ∀ x ∈ xs, p x = false) : trim p xs = xs := by
  have hdrop : xs.dropWhile p = xs := by
    cases xs with
    | nil => rfl
    | cons x xs => rw [List.dropWhile_cons_of_neg (by simp [h x])]
  rw [trim, hdrop, List.rdropWhile_eq_self_iff]
  intro hne
  simp [h _ (List.getLast_mem hne)]

/-- Stripping finds the core a padding was put around. -/
theorem trim_eq_iff_padded {xs core : List α} (h : ∀ x ∈ core, p x = false) :
    trim p xs = core ↔ Padded p xs core := by
  constructor
  · intro htrim
    rw [← htrim]
    exact padded_trim xs
  · rintro ⟨before, after, hbefore, hafter, rfl⟩
    rw [trim_append hbefore hafter, trim_eq_self h]

theorem trim_dropWhile (xs : List α) : trim p (xs.dropWhile p) = trim p xs := by
  rw [trim, List.dropWhile_idempotent, trim]

theorem trim_rdropWhile (xs : List α) : trim p (xs.rdropWhile p) = trim p xs := by
  have h := trim_append (p := p) blank_nil (blank_rtakeWhile xs) (xs.rdropWhile p)
  rw [List.nil_append, List.rdropWhile_append_rtakeWhile] at h
  exact h.symm

/-- Stripping a list with something to keep strips its two sides apart. -/
theorem trim_append_cons {sep : α} (hsep : p sep = false) (before after : List α) :
    trim p (before ++ sep :: after) = before.dropWhile p ++ sep :: after.rdropWhile p := by
  have hdrop : (before ++ sep :: after).dropWhile p = before.dropWhile p ++ sep :: after := by
    by_cases h : Blank p before
    · rw [dropWhile_blank_append h, dropWhile_of_blank h, List.nil_append,
        List.dropWhile_cons_of_neg (by simp [hsep])]
    · rw [dropWhile_append_of_not_blank h]
  rw [trim, hdrop]
  have hkeep : ¬ Blank p (before.dropWhile p ++ sep :: after).reverse := by
    intro h
    have := h sep (by simp)
    simp [hsep] at this
  rw [List.rdropWhile, List.rdropWhile, List.reverse_append, List.reverse_cons, List.append_assoc,
    List.singleton_append]
  by_cases h : Blank p after.reverse
  · rw [dropWhile_blank_append h, dropWhile_of_blank h,
      List.dropWhile_cons_of_neg (by simp [hsep])]
    simp
  · rw [dropWhile_append_of_not_blank h]
    simp

section Separators

variable [DecidableEq α] {sep : α}

theorem splitOnce_eq_none {xs : List α} : splitOnce sep xs = none ↔ sep ∉ xs := by
  induction xs with
  | nil => simp [splitOnce]
  | cons x xs ih =>
    rw [splitOnce]
    split_ifs with h
    · simp [h]
    · simp [ih, Ne.symm h]

theorem splitOnce_append_cons {before : List α} (h : sep ∉ before) (after : List α) :
    splitOnce sep (before ++ sep :: after) = some (before, after) := by
  induction before with
  | nil => simp [splitOnce]
  | cons x before ih =>
    rw [List.mem_cons, not_or] at h
    rw [List.cons_append, splitOnce, if_neg (Ne.symm h.1), ih h.2]
    rfl

theorem not_mem_of_mem_splitOn {xs piece : List α} (h : piece ∈ xs.splitOn sep) :
    sep ∉ piece := by
  by_cases hsep : sep ∈ xs
  · obtain ⟨first, rest, hxs, hfirst⟩ := List.eq_append_cons_of_mem hsep
    have hlength : rest.length < xs.length := by
      rw [hxs, List.length_append, List.length_cons]
      omega
    rw [hxs, List.splitOn_append_cons_self_of_not_mem hfirst] at h
    cases h with
    | head => exact hfirst
    | tail _ h => exact not_mem_of_mem_splitOn h
  · rw [List.splitOn_eq_singleton hsep, List.mem_singleton] at h
    rwa [h]
termination_by xs.length

/-- Cutting a list at the separator finds the one way it is joined. -/
theorem separated_iff {xs : List α} {pieces : List (List α)} :
    Separated sep xs pieces ↔ xs.splitOn sep = pieces := by
  constructor
  · intro h
    rw [h.joined, List.splitOn_intercalate sep h.free h.nonempty]
  · rintro rfl
    exact ⟨List.splitOn_ne_nil sep xs, fun _ hmem => not_mem_of_mem_splitOn hmem,
      (List.intercalate_splitOn sep).symm⟩

/-- The pieces of a list, each stripped, do not depend on the blanks around the list. -/
theorem splitOn_padded (hsep : p sep = false) {before after : List α} (hbefore : Blank p before)
    (hafter : Blank p after) (xs : List α) :
    ((before ++ xs ++ after).splitOn sep).map (trim p) = (xs.splitOn sep).map (trim p) := by
  have notMem : ∀ blanks, Blank p blanks → sep ∉ blanks := fun blanks hblanks hmem => by
    simp [hblanks sep hmem] at hsep
  by_cases h : sep ∈ xs
  · obtain ⟨piece, rest, hxs, hpiece⟩ := List.eq_append_cons_of_mem h
    have hlength : rest.length < xs.length := by
      rw [hxs, List.length_append, List.length_cons]
      omega
    have ih := splitOn_padded hsep blank_nil hafter rest
    have hfirst : sep ∉ before ++ piece := by simp [notMem before hbefore, hpiece]
    have hcut : before ++ xs ++ after = (before ++ piece) ++ sep :: ([] ++ rest ++ after) := by
      simp [hxs]
    rw [hcut, List.splitOn_append_cons_self_of_not_mem hfirst, hxs,
      List.splitOn_append_cons_self_of_not_mem hpiece, List.map_cons, List.map_cons, ih]
    congr 1
    simpa using trim_append (p := p) hbefore blank_nil piece
  · have hall : sep ∉ before ++ xs ++ after := by
      simp [notMem before hbefore, notMem after hafter, h]
    rw [List.splitOn_eq_singleton hall, List.splitOn_eq_singleton h, List.map_singleton,
      List.map_singleton, trim_append hbefore hafter]
termination_by xs.length

theorem splitOn_trim (hsep : p sep = false) (xs : List α) :
    ((trim p xs).splitOn sep).map (trim p) = (xs.splitOn sep).map (trim p) := by
  obtain ⟨before, after, hbefore, hafter, hxs⟩ := padded_trim (p := p) xs
  conv_rhs => rw [hxs]
  rw [splitOn_padded hsep hbefore hafter]

end Separators
end Trimming
