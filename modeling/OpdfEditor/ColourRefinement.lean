import Mathlib.Data.List.Forall2
import Mathlib.Data.List.Basic

/-!
Colour refinement over two graphs whose vertices carry texts: a text is a list of glyphs, some
letters and some vertices. Every round a vertex is coloured by its text with the colours of the
round before in place of vertices. With an injective colouring two vertices get the same colour
exactly when their texts agree as many steps deep as there were rounds.
-/
namespace ColourRefinement

/-- A letter, or a vertex or colour in its place. -/
inductive Glyph (L V : Type*) where
  | letter (l : L)
  | mark (v : V)
  deriving DecidableEq

namespace Glyph

variable {L V W : Type*}

/-- The same letter, or marks that are related. -/
inductive Matches (R : V → W → Prop) : Glyph L V → Glyph L W → Prop
  | letter (l : L) : Matches R (.letter l) (.letter l)
  | mark {v : V} {w : W} : R v w → Matches R (.mark v) (.mark w)

def map (f : V → W) : Glyph L V → Glyph L W
  | .letter l => .letter l
  | .mark v => .mark (f v)

def vertex : Glyph L V → Option V
  | .letter _ => none
  | .mark v => some v

theorem Matches.mono {R S : V → W → Prop} (h : ∀ v w, R v w → S v w) {s : Glyph L V}
    {t : Glyph L W} (hst : Matches R s t) : Matches S s t := by
  cases hst with
  | letter l => exact .letter l
  | mark hvw => exact .mark (h _ _ hvw)

end Glyph

open Glyph

variable {L V W C : Type*}

/-- Texts that agree letter by letter, up to related vertices. -/
abbrev TextsMatch (R : V → W → Prop) : List (Glyph L V) → List (Glyph L W) → Prop :=
  List.Forall₂ (Glyph.Matches R)

theorem TextsMatch.mono {R S : V → W → Prop} (h : ∀ v w, R v w → S v w) {s : List (Glyph L V)}
    {t : List (Glyph L W)} (hst : TextsMatch R s t) : TextsMatch S s t :=
  hst.imp fun _ _ => Glyph.Matches.mono h

/-- Letters agree with themselves. -/
theorem TextsMatch.letters (R : V → W → Prop) (ls : List L) :
    TextsMatch R (ls.map Glyph.letter) (ls.map Glyph.letter) := by
  induction ls with
  | nil => exact .nil
  | cons l ls ih => exact .cons (.letter l) ih

theorem TextsMatch.refl {R : V → V → Prop} {s : List (Glyph L V)}
    (h : ∀ v, Glyph.mark v ∈ s → R v v) : TextsMatch R s s := by
  induction s with
  | nil => exact .nil
  | cons a s ih =>
    have hrest := ih fun v hv => h v (List.mem_cons_of_mem _ hv)
    cases a with
    | letter l => exact .cons (.letter l) hrest
    | mark v => exact .cons (.mark (h v List.mem_cons_self)) hrest

theorem TextsMatch.flatMap {K : Type*} {R : V → W → Prop} {ks : List K} {f : K → List (Glyph L V)}
    {g : K → List (Glyph L W)} (h : ∀ k ∈ ks, TextsMatch R (f k) (g k)) :
    TextsMatch R (ks.flatMap f) (ks.flatMap g) := by
  induction ks with
  | nil => exact .nil
  | cons k ks ih =>
    rw [List.flatMap_cons, List.flatMap_cons]
    exact List.rel_append (h k List.mem_cons_self) (ih fun k' hk' => h k' (List.mem_cons_of_mem _ hk'))

/-- Vertices whose texts agree so many steps deep. -/
def Alike (text : V → List (Glyph L V)) (text' : W → List (Glyph L W)) : Nat → V → W → Prop
  | 0, _, _ => True
  | n + 1, v, w => TextsMatch (Alike text text' n) (text v) (text' w)

section

variable {text : V → List (Glyph L V)} {text' : W → List (Glyph L W)}

theorem Alike.pred {n : Nat} {v : V} {w : W} (h : Alike text text' (n + 1) v w) :
    Alike text text' n v w := by
  induction n generalizing v w with
  | zero => trivial
  | succ n ih => exact TextsMatch.mono (fun _ _ => ih) h

/-- Vertices related by a simulation are alike at any depth. -/
theorem alike_of_simulation {R : V → W → Prop} (h : ∀ v w, R v w → TextsMatch R (text v) (text' w))
    (n : Nat) {v : V} {w : W} (hvw : R v w) : Alike text text' n v w := by
  induction n generalizing v w with
  | zero => trivial
  | succ n ih => exact TextsMatch.mono (fun _ _ => ih) (h v w hvw)

/-- Graphs in which the texts near a vertex are the same read alike from there, as deep as they
are. -/
theorem alike_of_near {text text' : V → List (Glyph L V)} (near : Nat → V → Prop)
    (h : ∀ n v, near (n + 1) v → text v = text' v ∧ ∀ w, Glyph.mark w ∈ text v → near n w) (n : Nat)
    {v : V} (hv : near n v) : Alike text text' n v v := by
  induction n generalizing v with
  | zero => trivial
  | succ n ih =>
    obtain ⟨htext, hmarks⟩ := h n v hv
    rw [Alike, ← htext]
    exact TextsMatch.refl fun w hw => ih (hmarks w hw)

/-- The colour of a vertex after so many rounds. -/
def colour (hash : List (Glyph L C) → C) (start : C) (text : V → List (Glyph L V)) : Nat → V → C
  | 0, _ => start
  | n + 1, v => hash ((text v).map (Glyph.map (colour hash start text n)))

theorem map_eq_map_iff {f : V → C} {g : W → C} {s : List (Glyph L V)} {t : List (Glyph L W)} :
    s.map (Glyph.map f) = t.map (Glyph.map g) ↔ TextsMatch (fun v w => f v = g w) s t := by
  constructor
  · intro h
    induction s generalizing t with
    | nil =>
      cases t with
      | nil => exact .nil
      | cons b t => cases h
    | cons a s ih =>
      cases t with
      | nil => cases h
      | cons b t =>
        obtain ⟨hab, hst⟩ := List.cons.inj h
        refine .cons ?_ (ih hst)
        cases a with
        | letter l =>
          cases b with
          | letter m => exact Glyph.letter.inj hab ▸ .letter l
          | mark w => cases hab
        | mark v =>
          cases b with
          | letter m => cases hab
          | mark w => exact .mark (Glyph.mark.inj hab)
  · intro h
    induction h with
    | nil => rfl
    | cons hab _ ih =>
      rw [List.map_cons, List.map_cons, ih]
      cases hab with
      | letter l => rfl
      | mark hvw => rw [Glyph.map, Glyph.map, hvw]

/-- Rounds of an injective colouring tell apart exactly what is not alike. -/
theorem colour_eq_iff {hash : List (Glyph L C) → C} (hinjective : Function.Injective hash) (start : C)
    (n : Nat) {v : V} {w : W} :
    colour hash start text n v = colour hash start text' n w ↔ Alike text text' n v w := by
  induction n generalizing v w with
  | zero => exact ⟨fun _ => trivial, fun _ => rfl⟩
  | succ n ih =>
    rw [colour, colour, hinjective.eq_iff, map_eq_map_iff]
    constructor
    · exact fun h => TextsMatch.mono (fun _ _ => ih.1) h
    · exact fun h => TextsMatch.mono (fun _ _ => ih.2) h

/-- Alike vertices get the same colour, whatever the colouring. -/
theorem colour_eq_of_alike (hash : List (Glyph L C) → C) (start : C) (n : Nat) {v : V} {w : W}
    (h : Alike text text' n v w) : colour hash start text n v = colour hash start text' n w := by
  induction n generalizing v w with
  | zero => rfl
  | succ n ih =>
    have htexts : TextsMatch (fun v w => colour hash start text n v = colour hash start text' n w)
        (text v) (text' w) := TextsMatch.mono (fun _ _ => ih) h
    rw [colour, colour, map_eq_map_iff.2 htexts]

end
end ColourRefinement
