import OpdfEditor.CopyReach

/-!
The deep copy of a page over the library's own object numbers, which are 32 bits wide. It
hands out the numbers the unbounded one does for as long as there are any. Past the
highest, a build with overflow checks panics and one without goes on from 0.
-/
namespace OpdfEditor

/-- What a build does where an addition overflows. -/
inductive Overflow where
  | panics
  | wraps

def objectNumbers : Nat := 2 ^ 32

/-- Hand out a fresh object number, if that does not panic. -/
def LopdfDocument.newObjectId32 (d : LopdfDocument) (overflow : Overflow) :
    Option (ObjectId × LopdfDocument) :=
  if d.maxId + 1 < objectNumbers then some d.newObjectId
  else
    match overflow with
    | .panics => none
    | .wraps =>
      let maxId := (d.maxId + 1) % objectNumbers
      some ((maxId, 0), { d with maxId })

def assignIds32 (overflow : Overflow) (source : Objects) : Nat → Frontier → IdMapping →
    LopdfDocument → Option (IdMapping × LopdfDocument)
  | 0, _, mapping, target => some (mapping, target)
  | fuel + 1, frontier, mapping, target =>
    match frontier.pending with
    | [] => some (mapping, target)
    | current :: pending =>
      match source.lookup current with
      | none => assignIds32 overflow source fuel { frontier with pending } mapping target
      | some object =>
        match target.newObjectId32 overflow with
        | none => none
        | some (id, target') =>
          assignIds32 overflow source fuel
            (enqueue source (collectReferences object) { frontier with pending })
            ((current, id) :: mapping) target'

/-- Deep-copy one page and everything it reaches into another document, if that does not panic. -/
def copyPageInto32 [Lopdf] (overflow : Overflow) (source : Objects) (page : ObjectId)
    (target : LopdfDocument) : Option (Option ObjectId × LopdfDocument) :=
  match (source.lookup page).bind Object.asDict with
  | none => some (none, target)
  | some _ =>
    match assignIds32 overflow source source.keys.card (startFrontier source page) [] target with
    | none => none
    | some (mapping, numbered) => some (placeCopy source page mapping numbered)

section

variable {overflow : Overflow} {source : Objects}

theorem newObjectId32_of_room {d : LopdfDocument} (h : d.maxId + 1 < objectNumbers) :
    d.newObjectId32 overflow = some d.newObjectId := if_pos h

theorem newObjectId32_panics {d : LopdfDocument} (h : objectNumbers ≤ d.maxId + 1) :
    d.newObjectId32 .panics = none := if_neg (Nat.not_lt.2 h)

/-- With a number left for every object it comes to, pass one is the unbounded one. -/
theorem assignIds32_of_room (fuel : Nat) (f : Frontier) (mapping : IdMapping)
    {target : LopdfDocument}
    (hroom : target.maxId + (walked source fuel f).length < objectNumbers) :
    assignIds32 overflow source fuel f mapping target =
      some (assignIds source fuel f mapping target) := by
  induction fuel generalizing f mapping target with
  | zero => rfl
  | succ fuel ih =>
    unfold walked at hroom
    unfold assignIds32 assignIds
    cases hpending : f.pending with
    | nil => rfl
    | cons current pending =>
      rw [hpending] at hroom
      dsimp only at hroom ⊢
      cases hobject : source.lookup current with
      | none =>
        rw [hobject] at hroom
        exact ih _ _ hroom
      | some object =>
        rw [hobject, List.length_cons] at hroom
        dsimp only
        rw [newObjectId32_of_room (by omega)]
        refine ih _ _ ?_
        change target.maxId + 1 + _ < objectNumbers
        omega

/-- Without one, a build that checks for overflow panics. -/
theorem assignIds32_panics (fuel : Nat) (f : Frontier) (mapping : IdMapping)
    {target : LopdfDocument} (htarget : target.maxId < objectNumbers)
    (hfull : objectNumbers ≤ target.maxId + (walked source fuel f).length) :
    assignIds32 .panics source fuel f mapping target = none := by
  induction fuel generalizing f mapping target with
  | zero => exact absurd htarget (Nat.not_lt.2 hfull)
  | succ fuel ih =>
    unfold walked at hfull
    unfold assignIds32
    cases hpending : f.pending with
    | nil =>
      rw [hpending] at hfull
      exact absurd htarget (Nat.not_lt.2 hfull)
    | cons current pending =>
      rw [hpending] at hfull
      dsimp only at hfull ⊢
      cases hobject : source.lookup current with
      | none =>
        rw [hobject] at hfull
        exact ih _ _ htarget hfull
      | some object =>
        rw [hobject, List.length_cons] at hfull
        dsimp only
        by_cases hlast : target.maxId + 1 < objectNumbers
        · rw [newObjectId32_of_room hlast]
          refine ih _ _ hlast ?_
          change objectNumbers ≤ target.maxId + 1 + _
          omega
        · rw [newObjectId32_panics (Nat.not_lt.1 hlast)]

variable [Lopdf] {page : ObjectId} {d : Dictionary}

/-- With a number left for every object it copies, the copy is the unbounded one. -/
theorem copyPageInto32_of_room (hpage : source.lookup page = some (.dictionary d))
    {target : LopdfDocument}
    (hroom : target.maxId + (copiedIds source page).card < objectNumbers) :
    copyPageInto32 overflow source page target = some (copyPageInto source page target) := by
  rw [← length_copyOrder hpage] at hroom
  unfold copyPageInto32 copyPageInto
  rw [hpage]
  dsimp only [Option.bind_some, Object.asDict]
  rw [assignIds32_of_room _ _ _ hroom]
  rfl

/-- A build that checks for overflow panics exactly where there is no number left. -/
theorem copyPageInto32_panics_iff (hpage : source.lookup page = some (.dictionary d))
    {target : LopdfDocument} (htarget : target.maxId < objectNumbers) :
    copyPageInto32 .panics source page target = none ↔
      objectNumbers ≤ target.maxId + (copiedIds source page).card := by
  constructor
  · intro hnone
    by_contra hroom
    rw [copyPageInto32_of_room hpage (Nat.not_le.1 hroom)] at hnone
    cases hnone
  · intro hfull
    rw [← length_copyOrder hpage] at hfull
    unfold copyPageInto32
    rw [hpage]
    dsimp only [Option.bind_some, Object.asDict]
    rw [assignIds32_panics _ _ _ htarget hfull]

end

end OpdfEditor
