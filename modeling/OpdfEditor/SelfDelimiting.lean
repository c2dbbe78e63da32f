import Mathlib.Data.List.Forall2
import Mathlib.Data.List.Infix
import Mathlib.Data.Set.Function

/-!
Codes whose words are split off whatever follows them, and words of which some are not. What a text
tells of the values it was written from is put together from what its words tell, in the order in
which they are read.
-/
namespace SelfDelimiting

/-! ### Codes -/

section Code

variable {α β γ : Type*} {code : α → List β} {allowed : Set α}

/-- An allowed value is read off the front of whatever follows its word. -/
def Delimits (code : α → List β) (allowed : Set α) : Prop :=
  ∀ a ∈ allowed, ∀ b ∈ allowed, ∀ s t, code a ++ s = code b ++ t → a = b ∧ s = t

theorem delimits_of_prefixFree (h : ∀ a ∈ allowed, ∀ b ∈ allowed, code a <+: code b → a = b) :
    Delimits code allowed := by
  intro a ha b hb s t heq
  have hab : a = b := by
    rcases List.prefix_or_prefix_of_prefix (List.prefix_append (code a) s)
        (heq ▸ List.prefix_append (code b) t) with hprefix | hprefix
    · exact h a ha b hb hprefix
    · exact (h b hb a ha hprefix).symm
  subst hab
  exact ⟨rfl, List.append_cancel_left heq⟩

/-- Words of one length are split off. -/
theorem delimits_of_width (width : ℕ) (hwidth : ∀ a ∈ allowed, (code a).length = width)
    (hinj : Set.InjOn code allowed) : Delimits code allowed := by
  intro a ha b hb s t heq
  obtain ⟨hword, hrest⟩ := List.append_inj heq ((hwidth a ha).trans (hwidth b hb).symm)
  exact ⟨hinj ha hb hword, hrest⟩

/-- So are words that say their length first. -/
theorem Delimits.counted {count : ℕ → List β} {bound : ℕ} (h : Delimits count {n | n < bound}) :
    Delimits (fun word : List β => count word.length ++ word) {word | word.length < bound} := by
  intro a ha b hb s t heq
  rw [List.append_assoc, List.append_assoc] at heq
  obtain ⟨hlength, hrest⟩ := h _ ha _ hb _ _ heq
  exact List.append_inj hrest hlength

theorem Delimits.comp (h : Delimits code allowed) {f : γ → α} {allowed' : Set γ}
    (hmaps : Set.MapsTo f allowed' allowed) (hinj : Set.InjOn f allowed') :
    Delimits (code ∘ f) allowed' := by
  intro a ha b hb s t heq
  obtain ⟨hvalue, hrest⟩ := h _ (hmaps ha) _ (hmaps hb) s t heq
  exact ⟨hinj ha hb hvalue, hrest⟩

end Code

/-! ### What words tell -/

/-- Of two words one is the start of the other. -/
def Comparable {β : Type*} (word word' : List β) : Prop := word <+: word' ∨ word' <+: word

/-- Two words that each start one text: then `P` holds and what follows them is one, or `E` says why
not. -/
def Tells {β : Type*} (word word' : List β) (P E : Prop) : Prop :=
  ∀ s t, word ++ s = word' ++ t → P ∧ s = t ∨ E

namespace Tells

variable {α β γ : Type*} {word word' more more' : List β} {P Q E F : Prop}

theorem nil : Tells ([] : List β) [] True E := fun _ _ h => .inl ⟨trivial, h⟩

theorem imp (h : Tells word word' P E) (hP : P → Q ∨ F) (hE : E → F) : Tells word word' Q F := by
  intro s t heq
  rcases h s t heq with ⟨hholds, hrest⟩ | hwhy
  · exact (hP hholds).imp_left fun hQ => ⟨hQ, hrest⟩
  · exact .inr (hE hwhy)

theorem prepend (h : Tells word word' P E) (before : List β) :
    Tells (before ++ word) (before ++ word') P E := by
  intro s t heq
  rw [List.append_assoc, List.append_assoc] at heq
  exact h s t (List.append_cancel_left heq)

/-- What is told first may be used to read on. -/
theorem append (h : Tells word word' P E) (hmore : P → Tells more more' Q E) :
    Tells (word ++ more) (word' ++ more') (P ∧ Q) E := by
  intro s t heq
  rw [List.append_assoc, List.append_assoc] at heq
  rcases h _ _ heq with ⟨hP, hrest⟩ | hwhy
  · rcases hmore hP s t hrest with ⟨hQ, hend⟩ | hwhy
    · exact .inl ⟨⟨hP, hQ⟩, hend⟩
    · exact .inr hwhy
  · exact .inr hwhy

/-- The word of a code that delimits tells its value. -/
theorem ofDelimits {code : α → List β} {allowed : Set α} (h : Delimits code allowed) {a b : α}
    (ha : a ∈ allowed) (hb : b ∈ allowed) : Tells (code a) (code b) (a = b) E :=
  fun s t heq => .inl (h a ha b hb s t heq)

/-- So does that of any other, unless one of the words is the start of the other. -/
theorem ofComparable (code : α → List β) (a b : α) :
    Tells (code a) (code b) (a = b) (a ≠ b ∧ Comparable (code a) (code b)) := by
  intro s t heq
  by_cases hab : a = b
  · subst hab
    exact .inl ⟨rfl, List.append_cancel_left heq⟩
  · exact .inr ⟨hab, List.prefix_or_prefix_of_prefix (List.prefix_append (code a) s)
      (heq ▸ List.prefix_append (code b) t)⟩

/-- Words of values written one after the other. -/
theorem flatMap {write : α → List β} {write' : γ → List β} {same : α → γ → Prop} {as : List α}
    {bs : List γ} (h : List.Forall₂ (fun a b => Tells (write a) (write' b) (same a b) E) as bs) :
    Tells (as.flatMap write) (bs.flatMap write') (List.Forall₂ same as bs) E := by
  induction h with
  | nil => exact nil.imp (fun _ => .inl .nil) id
  | cons hhead _ ih => exact (hhead.append fun _ => ih).imp (fun hboth => .inl (.cons hboth.1 hboth.2)) id

theorem flatMap_of_length_eq {write : α → List β} {write' : γ → List β} {same : α → γ → Prop}
    {as : List α} {bs : List γ} (hlength : as.length = bs.length)
    (h : ∀ a ∈ as, ∀ b ∈ bs, Tells (write a) (write' b) (same a b) E) :
    Tells (as.flatMap write) (bs.flatMap write') (List.Forall₂ same as bs) E :=
  flatMap (List.forall₂_of_length_eq_of_get hlength fun _ _ _ =>
    h _ (List.getElem_mem _) _ (List.getElem_mem _))

/-- Words that are one tell it, or why not. -/
theorem of_eq (h : Tells word word' P E) (heq : word = word') : P ∨ E :=
  (h [] [] (congrArg (· ++ []) heq)).imp_left And.left

end Tells
end SelfDelimiting
