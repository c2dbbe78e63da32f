import OpdfEditor.Binary32

/-!
Page identity and geometry, the error type every operation reports through, and
the page list a shell holds instead of the document itself.
-/
namespace OpdfEditor

open Binary32 (F32)

abbrev PageId := Nat

abbrev DocumentId := Nat

/-- Everything that can go wrong while reading, mutating or rendering. -/
inductive Error where
  | io (text : String)
  | malformed (text : String)
  | unsupported (text : String)
  | pageNotFound (id : PageId)
  | indexOutOfBounds (index pageCount : Nat)
  | invalidRange (start stop : Nat)
  | rollbackFailed (original rollback : Error)
  | render (text : String)
  deriving DecidableEq, Repr

def PageId.display (id : PageId) : String := s!"page#{id}"

def DocumentId.display (id : DocumentId) : String := s!"document#{id}"

def Error.display : Error → String
  | .io text => s!"io error: {text}"
  | .malformed text => s!"malformed pdf: {text}"
  | .unsupported text => s!"unsupported: {text}"
  | .pageNotFound id => s!"page not found: {PageId.display id}"
  | .indexOutOfBounds index pageCount => s!"index {index} out of bounds for {pageCount} pages"
  | .invalidRange start stop => s!"invalid range {start}..{stop}: the end precedes the start"
  | .rollbackFailed original rollback =>
    original.display ++ "; the rollback then failed: " ++ rollback.display
  | .render text => s!"render failed: {text}"

/-- What a `&mut self` method leaves: its result, and the state it leaves behind either way. -/
abbrev Outcome (D α : Type) := Except Error α × D

/-- Page rotation, in quarter turns clockwise. -/
inductive Rotation where
  | none | quarter | half | threeQuarter
  deriving DecidableEq, Repr

namespace Rotation

def degrees : Rotation → Int
  | none => 0
  | quarter => 90
  | half => 180
  | threeQuarter => 270

/-- Interpret a degree value, accepting any multiple of 90 including negatives. -/
def fromDegrees (degrees : Int) : Except Error Rotation :=
  if degrees.tmod 90 ≠ 0 then
    .error (.unsupported s!"rotation of {degrees} degrees is not a multiple of 90")
  else
    match (degrees.ediv 90).emod 4 with
    | 0 => .ok none
    | 1 => .ok quarter
    | 2 => .ok half
    | _ => .ok threeQuarter

/-- Compose two rotations, wrapping at a full turn. -/
def rotatedBy (self other : Rotation) : Rotation :=
  match fromDegrees (self.degrees + other.degrees) with
  | .ok rotation => rotation
  | .error _ => none

def swapsAxes : Rotation → Bool
  | quarter | threeQuarter => true
  | none | half => false

@[simp] theorem fromDegrees_degrees (rotation : Rotation) :
    fromDegrees rotation.degrees = .ok rotation := by
  cases rotation <;> rfl

end Rotation

/-- Page dimensions in points, before any rotation is applied. -/
structure PageSize where
  widthPt : F32
  heightPt : F32
  deriving DecidableEq

def PageSize.a4 : PageSize := ⟨.ofInt 595, .ofInt 842⟩

def PageSize.letter : PageSize := ⟨.ofInt 612, .ofInt 792⟩

structure PageInfo where
  id : PageId
  size : PageSize
  rotation : Rotation
  deriving DecidableEq

/-- Dimensions as displayed, with the page's rotation applied. -/
def PageInfo.displaySize (page : PageInfo) : PageSize :=
  if page.rotation.swapsAxes then ⟨page.size.heightPt, page.size.widthPt⟩ else page.size

/-- An immutable copy of a document's page list. -/
structure DocumentSnapshot where
  document : DocumentId
  pages : List PageInfo
  revision : UInt64
  deriving DecidableEq

def DocumentSnapshot.pageCount (snapshot : DocumentSnapshot) : Nat := snapshot.pages.length

end OpdfEditor
