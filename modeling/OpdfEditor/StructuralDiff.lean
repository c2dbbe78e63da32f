import OpdfEditor.Binary64
import OpdfEditor.ColourRefinement
import OpdfEditor.ObjectGraph
import OpdfEditor.Worklist
import Mathlib.Data.List.Sort
import Mathlib.Data.String.Basic

/-!
The structural comparison of two parsed documents: page geometry with inheritance, and digests
of objects in which a reference contributes the digest its target had in the round before.
-/
namespace OpdfEditor
namespace Roundtrip

open Binary32 (F32)
open Binary64 (F64)
open ColourRefinement (Glyph)

def refinementRounds : Nat := 4

def parentChainLimit : Nat := 64

def dangling : String := "dangling-reference"

/-- What the PDF library makes of the bytes of a stream, if it can decode them. -/
class StreamDecoder where
  decompressedContent : Dictionary → List UInt8 → Option (List UInt8)

/-- The hash function. A digest is fed to it as one glyph, since no function into 32 bytes is
injective. -/
class Sha256 (D : Type) where
  /-- The digest every object starts with. -/
  zero : D
  digest : List (Glyph Char D) → D

/-! ### Page geometry, with inheritance -/

structure PageGeometry where
  widthPt : F64
  heightPt : F64
  rotationDegrees : Int
  deriving DecidableEq

/-- Comparison with `==`, as the numbers compare. -/
def PageGeometry.eq (g g' : PageGeometry) : Bool :=
  F64.eq g.widthPt g'.widthPt && F64.eq g.heightPt g'.heightPt &&
    decide (g.rotationDegrees = g'.rotationDegrees)

def asF64 : Object → F64
  | .integer value => .ofInt value
  | .real value => .ofF32 value
  | _ => .finite 0

section Lopdf

variable [Lopdf]

def dereference (objects : Objects) : Object → Option Object
  | .reference id => (Objects.getObject objects id).toOption
  | object => some object

/-- Look a key up on one of `limit` nodes up the `/Parent` chain, no node twice. -/
def inheritedIn (objects : Objects) (key : String) : Nat → Finset ObjectId → ObjectId → Option Object
  | 0, _, _ => none
  | limit + 1, seen, current =>
    if current ∈ seen then none
    else
      match ((Objects.getObject objects current).toOption).bind Object.asDict with
      | none => none
      | some d =>
        match Dictionary.get d key with
        | some value => some value
        | none =>
          match Dictionary.get d "Parent" with
          | some (.reference parent) => inheritedIn objects key limit (insert current seen) parent
          | _ => none

def inheritedAttribute (objects : Objects) (page : ObjectId) (key : String) : Option Object :=
  inheritedIn objects key parentChainLimit ∅ page

def resolveArray (objects : Objects) (value : Object) : Option (List Object) :=
  (dereference objects value).bind Object.asArray

/-- The extents of a box; a short array spans nothing. -/
def boxExtents : Option (List Object) → F64 × F64
  | some (llx :: lly :: urx :: ury :: _) =>
    ((F64.sub (asF64 urx) (asF64 llx)).abs, (F64.sub (asF64 ury) (asF64 lly)).abs)
  | _ => (.finite 0, .finite 0)

def pageGeometry (objects : Objects) (page : ObjectId) : PageGeometry :=
  let mediaBox := (inheritedAttribute objects page "MediaBox").bind (resolveArray objects)
  let rotation := ((inheritedAttribute objects page "Rotate").bind (dereference objects)).bind
    Object.asInt
  { widthPt := (boxExtents mediaBox).1
    heightPt := (boxExtents mediaBox).2
    rotationDegrees := rotation.getD 0 }

end Lopdf

/-! ### Feeding an object to the hash -/

abbrev Feed (D : Type) := List (Glyph Char D)

section Feed

variable {D : Type}

def letters (text : String) : Feed D := text.toList.map .letter

def littleEndian (width n : Nat) : Feed D :=
  (List.range width).map fun i => .letter (Char.ofNat (n / 256 ^ i % 256))

def feedLength (n : Nat) : Feed D := littleEndian 8 n

def feedBytes (bytes : List UInt8) : Feed D := bytes.map fun byte => .letter (Char.ofNat byte.toNat)

/-- The bits of a number: sign, exponent and significand. The two zeros are one and share theirs. -/
def realBits : F32 → Nat
  | .nan => 0x7fc00000
  | .inf negative => if negative then 0xff800000 else 0x7f800000
  | .finite value _ =>
    let significand := (Binary32.significandOf value).natAbs
    let magnitude :=
      if significand < 2 ^ 23 then significand
      else (Binary32.exponentOf value + 150).toNat * 2 ^ 23 + (significand - 2 ^ 23)
    if value < 0 then 2 ^ 31 + magnitude else magnitude

/-- How a stream is packed is no part of its structure. -/
def packingKeys : List String := ["Length", "Filter", "DecodeParms"]

/-- A dictionary whose values have been fed, with its keys in sorted order, some left out. -/
def feedDictionary (excluded : List String) (entries : List (String × Feed D)) : Feed D :=
  let kept := (entries.filter (·.1 ∉ excluded)).insertionSort fun a b => a.1 ≤ b.1
  letters "dict" ++ feedLength kept.length ++
    kept.flatMap fun entry => feedLength entry.1.length ++ letters entry.1 ++ entry.2

/-- The decoded bytes of a stream, or those it holds if it cannot be decoded. -/
def feedContent [StreamDecoder] (entries : Dictionary) (content : List UInt8) : Feed D :=
  match StreamDecoder.decompressedContent entries content with
  | some decoded => letters "decoded" ++ feedLength decoded.length ++ feedBytes decoded
  | none => letters "raw" ++ feedLength content.length ++ feedBytes content

def feedReference (digests : ObjectId → Option D) (id : ObjectId) : Feed D :=
  letters "ref" ++
    match digests id with
    | some digest => [.mark digest]
    | none => letters dangling

mutual
/-- One object's canonical form; a reference contributes the digest its target has. -/
def feedObject [StreamDecoder] (digests : ObjectId → Option D) : Object → Feed D
  | .null => letters "null"
  | .boolean value => letters "bool" ++ [.letter (Char.ofNat value.toNat)]
  | .integer value => letters "int" ++ littleEndian 8 (value % 2 ^ 64).toNat
  | .real value => letters "real" ++ littleEndian 4 (realBits value)
  | .name bytes => letters "name" ++ letters bytes
  | .string bytes _ => letters "string" ++ feedLength bytes.length ++ letters bytes
  | .array items => letters "array" ++ feedLength items.length ++ feedItems digests items
  | .dictionary entries => feedDictionary [] (feedEntries digests entries)
  | .stream entries content =>
    letters "stream" ++ feedDictionary packingKeys (feedEntries digests entries) ++
      feedContent entries content
  | .reference id => feedReference digests id

def feedItems [StreamDecoder] (digests : ObjectId → Option D) : List Object → Feed D
  | [] => []
  | item :: items => feedObject digests item ++ feedItems digests items

def feedEntries [StreamDecoder] (digests : ObjectId → Option D) :
    List (String × Object) → List (String × Feed D)
  | [] => []
  | (key, value) :: entries => (key, feedObject digests value) :: feedEntries digests entries
end

end Feed

/-! ### Reachability -/

section Reachability

variable [Lopdf]

/-- The references an identifier's object contains; none if there is no such object. -/
def neighbours (objects : Objects) (id : ObjectId) : List ObjectId :=
  match Objects.getObject objects id with
  | .ok object => object.links
  | .error _ => []

def rootReference (document : LopdfDocument) : Option ObjectId :=
  (Dictionary.get document.trailer "Root").bind Object.asReference

/-- Every identifier some object mentions, and one more. -/
def mentioned (objects : Objects) (root : ObjectId) : Finset ObjectId :=
  insert root (objects.keys.biUnion fun id => ((objects.lookup id).elim [] Object.links).toFinset)

/-- Every identifier reachable from the root, whether or not an object exists for it. The number
of references bounds how long the queue gets. -/
def reachableObjectIds (document : LopdfDocument) : Finset ObjectId :=
  match rootReference document with
  | some root =>
    Worklist.search (neighbours document.objects)
      (1 + ∑ id ∈ mentioned document.objects root, (neighbours document.objects id).length) [root] ∅
  | none => ∅

/-- How many reachable references point at an object that does not exist. -/
def countDanglingReferences (document : LopdfDocument) : Nat :=
  ((reachableObjectIds document).filter fun id =>
    (Objects.getObject document.objects id).toOption = none).card

end Reachability

/-! ### Digests -/

section Digests

variable [Lopdf] [StreamDecoder] {D : Type}

def feedTarget (objects : Objects) (digests : ObjectId → Option D) (id : ObjectId) : Feed D :=
  match Objects.getObject objects id with
  | .ok object => feedObject digests object
  | .error _ => letters dangling

variable [Sha256 D]

/-- The digest of every reachable identifier after so many rounds. -/
def digestsAfter (document : LopdfDocument) : Nat → ObjectId → Option D
  | 0, id => if id ∈ reachableObjectIds document then some Sha256.zero else none
  | n + 1, id =>
    if id ∈ reachableObjectIds document then
      some (Sha256.digest (feedTarget document.objects (digestsAfter document n) id))
    else none

def refineObjectDigests (document : LopdfDocument) : ObjectId → Option D :=
  digestsAfter document refinementRounds

/-- A page's digest with its `/Parent` edge excluded. -/
def pageContentDigest (document : LopdfDocument) (page : ObjectId) (digests : ObjectId → Option D) : D :=
  match ((Objects.getObject document.objects page).toOption).bind Object.asDict with
  | some entries => Sha256.digest (feedDictionary ["Parent"] (feedEntries digests entries))
  | none => Sha256.digest (letters dangling)

def catalogDigest (document : LopdfDocument) (digests : ObjectId → Option D) : Option D :=
  (rootReference document).bind digests

end Digests

/-! ### The comparison -/

structure PageGeometryChange where
  pageIndex : Nat
  before : PageGeometry
  after : PageGeometry

structure StructuralDiff where
  pageCountChanged : Option (Nat × Nat)
  pageGeometryChanges : List PageGeometryChange
  pagesWithChangedContent : List Nat
  documentChanged : Bool
  danglingReferencesChanged : Option (Nat × Nat)

def StructuralDiff.isEmpty (diff : StructuralDiff) : Bool :=
  !diff.documentChanged && diff.pageCountChanged.isNone && diff.pageGeometryChanges.isEmpty &&
    diff.pagesWithChangedContent.isEmpty && diff.danglingReferencesChanged.isNone

/-- Two counts, if they differ. -/
def changed (before after : Nat) : Option (Nat × Nat) :=
  if before ≠ after then some (before, after) else none

section Diff

variable [Lopdf] [StreamDecoder] (D : Type) [Sha256 D] [DecidableEq D]

def pagePairs (before after : LopdfDocument) : List ((ObjectId × ObjectId) × Nat) :=
  ((Lopdf.pageIter before).zip (Lopdf.pageIter after)).zipIdx

def pageGeometryChanges (before after : LopdfDocument) : List PageGeometryChange :=
  (pagePairs before after).filterMap fun ((beforeId, afterId), index) =>
    let beforeGeometry := pageGeometry before.objects beforeId
    let afterGeometry := pageGeometry after.objects afterId
    if beforeGeometry.eq afterGeometry then none else some ⟨index, beforeGeometry, afterGeometry⟩

def pagesWithChangedContent (before after : LopdfDocument) : List Nat :=
  let beforeDigests : ObjectId → Option D := refineObjectDigests before
  let afterDigests : ObjectId → Option D := refineObjectDigests after
  (pagePairs before after).filterMap fun ((beforeId, afterId), index) =>
    if pageContentDigest before beforeId beforeDigests = pageContentDigest after afterId afterDigests
    then none else some index

def diffBytes (before after : LopdfDocument) : StructuralDiff where
  pageCountChanged := changed (Lopdf.pageIter before).length (Lopdf.pageIter after).length
  pageGeometryChanges := pageGeometryChanges before after
  pagesWithChangedContent := pagesWithChangedContent D before after
  documentChanged :=
    let beforeDigest : Option D := catalogDigest before (refineObjectDigests before)
    let afterDigest : Option D := catalogDigest after (refineObjectDigests after)
    decide (beforeDigest ≠ afterDigest)
  danglingReferencesChanged :=
    changed (countDanglingReferences before) (countDanglingReferences after)

end Diff
end Roundtrip
end OpdfEditor
