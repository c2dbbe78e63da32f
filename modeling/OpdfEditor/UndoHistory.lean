import Mathlib.Order.Basic

/-!
Histories of reversible actions, over arbitrary commands and states.

Running a command hands back the command that reverses it. Undoing does not put
the old state back exactly, only one that shows the same and can do no less, so
the laws are stated up to an order on states: a recorded command answers a larger
state as it answered the smaller one, and a command's inverse lands above where
the command started. From these two, what is queued on an undo and a redo stack
always replays the recorded views, and the two stacks are a list with a cursor.
-/
namespace UndoHistory

variable {C S V : Type}

/-- Recorded commands answer a larger state with the same inverse. -/
structure Replayable (run : C → S → Option (C × S)) (le : S → S → Prop) (Recorded : C → Prop) :
    Prop where
  refl : ∀ s, le s s
  trans : ∀ {r s t}, le r s → le s t → le r t
  replay : ∀ {c c' s s' t}, Recorded c → le s t → run c s = some (c', s') →
    ∃ t', run c t = some (c', t') ∧ le s' t'

/-- Every command that runs is undone by the command it hands back. -/
structure Reversible (run : C → S → Option (C × S)) (le : S → S → Prop) (Recorded : C → Prop) : Prop
    extends Replayable run le Recorded where
  recorded : ∀ {c c' s s'}, run c s = some (c', s') → Recorded c'
  inverse : ∀ {c c' s s'}, run c s = some (c', s') → ∃ c'' s'', run c' s' = some (c'', s'') ∧ le s s''

/-- Running the list in order succeeds and lands above `origin`. -/
inductive Unwinds (run : C → S → Option (C × S)) (le : S → S → Prop) : List C → S → S → Prop
  | nil {origin s} (h : le origin s) : Unwinds run le [] s origin
  | cons {c c' cs s s' origin} (step : run c s = some (c', s'))
      (rest : Unwinds run le cs s' origin) : Unwinds run le (c :: cs) s origin

/-- Running the list in order succeeds and shows the listed views one after another. -/
inductive Replays (run : C → S → Option (C × S)) (view : S → V) : List C → List V → S → Prop
  | nil {s} : Replays run view [] [] s
  | cons {c c' cs vs s s'} (step : run c s = some (c', s')) (rest : Replays run view cs vs s') :
      Replays run view (c :: cs) (view s' :: vs) s

/-- A list of views with a cursor: `past` and `future` both start next to the present. -/
structure Cursor (V : Type) where
  past : List V
  present : V
  future : List V
  deriving DecidableEq

namespace Cursor

/-- Drop the oldest view once there are more than `limit`. -/
def trim (limit : Nat) (views : List V) : List V :=
  if views.length > limit then views.dropLast else views

def push (limit : Nat) (view : V) (h : Cursor V) : Cursor V :=
  ⟨trim limit (h.present :: h.past), view, []⟩

def back (h : Cursor V) : Cursor V :=
  match h.past with
  | [] => h
  | view :: past => ⟨past, view, h.present :: h.future⟩

def forward (h : Cursor V) : Cursor V :=
  match h.future with
  | [] => h
  | view :: future => ⟨h.present :: h.past, view, future⟩

def canGoBack (h : Cursor V) : Bool := !h.past.isEmpty

def canGoForward (h : Cursor V) : Bool := !h.future.isEmpty

end Cursor

/-- `n` runs in a row, each of what the run before handed back. -/
inductive Handover (run : C → S → Option (C × S)) : Nat → C × S → C × S → Prop
  | zero {p} : Handover run 0 p p
  | succ {n p c s q} (rest : Handover run n p (c, s)) (step : run c s = some q) :
      Handover run (n + 1) p q

section Replay

variable {run : C → S → Option (C × S)} {le : S → S → Prop} {Recorded : C → Prop} {view : S → V}

theorem Unwinds.raise (laws : Replayable run le Recorded) {cs : List C} {s t origin : S}
    (h : Unwinds run le cs s origin) (hc : ∀ c ∈ cs, Recorded c) (hle : le s t) :
    Unwinds run le cs t origin := by
  induction h generalizing t with
  | nil h => exact .nil (laws.trans h hle)
  | cons step rest ih =>
    obtain ⟨t', hrun, hle'⟩ := laws.replay (hc _ (by simp)) hle step
    exact .cons hrun (ih (fun c hc' => hc c (by simp [hc'])) hle')

/-- Collecting the inverse of one more step keeps the collected inverses unwinding. -/
theorem Unwinds.collect (laws : Replayable run le Recorded) {cs : List C} {c' c'' : C}
    {s s' s'' origin : S} (h : Unwinds run le cs s origin) (hc : ∀ c ∈ cs, Recorded c)
    (hinv : run c' s' = some (c'', s'')) (hle : le s s'') : Unwinds run le (c' :: cs) s' origin :=
  .cons hinv (h.raise laws hc hle)

theorem Unwinds.append (laws : Replayable run le Recorded) {cs cs' : List C} {s t origin : S}
    (h : Unwinds run le cs s t) (h' : Unwinds run le cs' t origin) (hc : ∀ c ∈ cs', Recorded c) :
    Unwinds run le (cs ++ cs') s origin := by
  generalize ht : t = target at h
  induction h with
  | nil hle =>
    subst ht
    exact h'.raise laws hc hle
  | cons step rest ih => exact .cons step (ih ht)

theorem Replays.raise (laws : Replayable run le Recorded) (hview : ∀ {s t}, le s t → view s = view t)
    {cs : List C} {vs : List V} {s t : S} (h : Replays run view cs vs s)
    (hc : ∀ c ∈ cs, Recorded c) (hle : le s t) : Replays run view cs vs t := by
  induction h generalizing t with
  | nil => exact .nil
  | cons step rest ih =>
    obtain ⟨t', hrun, hle'⟩ := laws.replay (hc _ (by simp)) hle step
    rw [hview hle']
    exact .cons hrun (ih (fun c hc' => hc c (by simp [hc'])) hle')

theorem Replays.length {cs : List C} {vs : List V} {s : S} (h : Replays run view cs vs s) :
    vs.length = cs.length := by
  induction h with
  | nil => rfl
  | cons _ _ ih => simp [ih]

theorem Replays.dropLast {cs : List C} {vs : List V} {s : S} (h : Replays run view cs vs s) :
    Replays run view cs.dropLast vs.dropLast s := by
  induction h with
  | nil => exact .nil
  | cons step rest ih =>
    cases rest with
    | nil => exact .nil
    | cons step' rest' => exact .cons step ih

theorem Replays.trim {cs : List C} {vs : List V} {s : S} (h : Replays run view cs vs s)
    (limit : Nat) : Replays run view (Cursor.trim limit cs) (Cursor.trim limit vs) s := by
  unfold Cursor.trim
  rw [h.length]
  split
  · exact h.dropLast
  · exact h

theorem Cursor.mem_of_mem_trim {limit : Nat} {vs : List V} {v : V} (h : v ∈ Cursor.trim limit vs) :
    v ∈ vs := by
  unfold Cursor.trim at h
  split at h
  · exact (List.dropLast_sublist _).subset h
  · exact h

theorem Cursor.length_trim {limit : Nat} (vs : List V) (h : vs.length ≤ limit + 1) :
    (Cursor.trim limit vs).length ≤ limit := by
  unfold Cursor.trim
  split
  · simp
    omega
  · omega

/-- A command that runs can be run back and forth for ever, between two views. -/
theorem Reversible.alternates (laws : Reversible run le Recorded)
    (hview : ∀ {s t}, le s t → view s = view t) {c c' : C} {s s' : S}
    (hrun : run c s = some (c', s')) (n : Nat) :
    ∃ cₙ sₙ cₙ' sₙ', Handover run n (c, s) (cₙ, sₙ) ∧ run cₙ sₙ = some (cₙ', sₙ') ∧
      view sₙ = (if n % 2 = 0 then view s else view s') ∧
      view sₙ' = if n % 2 = 0 then view s' else view s := by
  induction n with
  | zero => exact ⟨c, s, c', s', .zero, hrun, rfl, rfl⟩
  | succ n ih =>
    obtain ⟨cₙ, sₙ, cₙ', sₙ', hover, hstep, hhere, hthere⟩ := ih
    obtain ⟨back, s'', hback, hle⟩ := laws.inverse hstep
    refine ⟨cₙ', sₙ', back, s'', .succ hover hstep, hback, ?_, ?_⟩
    · rw [hthere]
      by_cases hn : n % 2 = 0
      · rw [if_pos hn, if_neg (by omega)]
      · rw [if_neg hn, if_pos (by omega)]
    · rw [← hview hle, hhere]
      by_cases hn : n % 2 = 0
      · rw [if_pos hn, if_neg (by omega)]
      · rw [if_neg hn, if_pos (by omega)]

end Replay

section Track

/-- An undo and a redo stack, most recent entry first, that realise a cursor at a state. -/
structure Tracks (run : C → S → Option (C × S)) (view : S → V) (Recorded : C → Prop)
    (undo redo : List C) (s : S) (h : Cursor V) : Prop where
  present : view s = h.present
  past : Replays run view undo h.past s
  future : Replays run view redo h.future s
  undo_recorded : ∀ c ∈ undo, Recorded c
  redo_recorded : ∀ c ∈ redo, Recorded c

variable {run : C → S → Option (C × S)} {le : S → S → Prop} {Recorded : C → Prop} {view : S → V}
  {undo redo : List C} {s s' t : S} {c c' : C} {h : Cursor V}

theorem Tracks.start (s : S) : Tracks run view Recorded [] [] s ⟨[], view s, []⟩ :=
  ⟨rfl, .nil, .nil, by simp, by simp⟩

/-- Whatever leaves the state above where it was leaves the history in place. -/
theorem Tracks.raise (ht : Tracks run view Recorded undo redo s h) (laws : Replayable run le Recorded)
    (hview : ∀ {s t}, le s t → view s = view t) (hle : le s t) :
    Tracks run view Recorded undo redo t h :=
  ⟨(hview hle).symm.trans ht.present, ht.past.raise laws hview ht.undo_recorded hle,
    ht.future.raise laws hview ht.redo_recorded hle, ht.undo_recorded, ht.redo_recorded⟩

/-- A recorded command truncates the future and appends. -/
theorem Tracks.record (ht : Tracks run view Recorded undo redo s h)
    (laws : Reversible run le Recorded) (hview : ∀ {s t}, le s t → view s = view t)
    (hrun : run c s = some (c', s')) (limit : Nat) :
    Tracks run view Recorded (Cursor.trim limit (c' :: undo)) [] s' (h.push limit (view s')) := by
  obtain ⟨c'', s'', hinv, hle⟩ := laws.inverse hrun
  have hpresent : view s'' = h.present := (hview hle).symm.trans ht.present
  have hpast : Replays run view (c' :: undo) (h.present :: h.past) s' :=
    hpresent ▸ .cons hinv (ht.past.raise laws.toReplayable hview ht.undo_recorded hle)
  refine ⟨rfl, hpast.trim limit, .nil, fun d hd => ?_, by simp⟩
  rcases List.mem_cons.1 (Cursor.mem_of_mem_trim hd) with rfl | hd
  · exact laws.recorded hrun
  · exact ht.undo_recorded d hd

/-- The top undo entry runs, and moving its inverse to the redo stack steps the cursor back. -/
theorem Tracks.stepBack (ht : Tracks run view Recorded (c :: undo) redo s h)
    (laws : Reversible run le Recorded) (hview : ∀ {s t}, le s t → view s = view t) :
    ∃ c' s', run c s = some (c', s') ∧ Tracks run view Recorded undo (c' :: redo) s' h.back := by
  obtain ⟨past, present, future⟩ := h
  obtain ⟨hpresent, hpast, hfuture, hundo, hredo⟩ := ht
  cases hpast with
  | @cons _ c' _ vs _ s' step rest =>
    obtain ⟨c'', s'', hinv, hle⟩ := laws.inverse step
    have hfuture' : Replays run view (c' :: redo) (view s'' :: future) s' :=
      .cons hinv (hfuture.raise laws.toReplayable hview hredo hle)
    rw [← hview hle, hpresent] at hfuture'
    refine ⟨c', s', step, rfl, rest, hfuture', fun d hd => hundo d (by simp [hd]), fun d hd => ?_⟩
    rcases List.mem_cons.1 hd with rfl | hd
    · exact laws.recorded step
    · exact hredo d hd

/-- The mirror image of a history. -/
theorem Tracks.swap (ht : Tracks run view Recorded undo redo s h) :
    Tracks run view Recorded redo undo s ⟨h.future, h.present, h.past⟩ :=
  ⟨ht.present, ht.future, ht.past, ht.redo_recorded, ht.undo_recorded⟩

/-- The top redo entry runs, and moving its inverse to the undo stack steps the cursor forward. -/
theorem Tracks.stepForward (ht : Tracks run view Recorded undo (c :: redo) s h)
    (laws : Reversible run le Recorded) (hview : ∀ {s t}, le s t → view s = view t) :
    ∃ c' s', run c s = some (c', s') ∧ Tracks run view Recorded (c' :: undo) redo s' h.forward := by
  obtain ⟨c', s', hrun, hback⟩ := ht.swap.stepBack laws hview
  refine ⟨c', s', hrun, ?_⟩
  obtain ⟨past, present, future⟩ := h
  cases future with
  | nil => exact hback.swap
  | cons view future => exact hback.swap

theorem Tracks.undo_length (ht : Tracks run view Recorded undo redo s h) :
    h.past.length = undo.length := ht.past.length

theorem Tracks.redo_length (ht : Tracks run view Recorded undo redo s h) :
    h.future.length = redo.length := ht.future.length

end Track
end UndoHistory
