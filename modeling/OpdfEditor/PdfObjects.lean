import OpdfEditor.Lopdf

/-!
Reading and copying objects: inheritance along `/Parent`, page geometry, blank
pages, and the deep copy of one page and everything it reaches.
-/
namespace OpdfEditor

open Binary32 (F32)

def inheritableKeys : List String := ["Resources", "MediaBox", "CropBox", "Rotate"]

def parentChainLimit : Nat := 64

def referenceChainLimit : Nat := 32

/-! ### Walking the object graph -/

/-- Follow at most `limit` references to the value they name. -/
def resolveReferenceIn (source : Objects) : Nat → Object → Option Object
  | 0, _ => none
  | limit + 1, .reference id =>
    match source.lookup id with
    | none => none
    | some object => resolveReferenceIn source limit object
  | _ + 1, object => some object

def resolveReference (source : Objects) (object : Object) : Option Object :=
  resolveReferenceIn source referenceChainLimit object

/-- Find an attribute on a page or on the nearest of `limit` nodes up its `/Parent` chain. -/
def findInheritedIn (source : Objects) (key : String) : Nat → ObjectId → Option Object
  | 0, _ => none
  | limit + 1, current =>
    match (source.lookup current).bind Object.asDict with
    | none => none
    | some d =>
      match Dictionary.get d key with
      | some value => some value
      | none =>
        match (Dictionary.get d "Parent").bind Object.asReference with
        | none => none
        | some parent => findInheritedIn source key limit parent

def findInheritedAttribute (source : Objects) (page : ObjectId) (key : String) : Option Object :=
  findInheritedIn source key parentChainLimit page

def isPageNode (source : Objects) (id : ObjectId) : Bool :=
  match (source.lookup id).bind Object.asDict with
  | none => false
  | some d =>
    match (Dictionary.get d "Type").bind Object.asName with
    | some typeName => typeName = "Page" || typeName = "Pages"
    | none => false

/-! ### Page geometry -/

def defaultPageSize : PageSize := .letter

def readCorner (source : Objects) (corner : Object) : Option F32 :=
  (resolveReference source corner).bind Object.asFloat

/-- The size a box of four corner coordinates spans, unless it is degenerate. -/
def measureCorners (llx lly urx ury : F32) : PageSize :=
  let widthPt := (F32.sub urx llx).abs
  let heightPt := (F32.sub ury lly).abs
  if widthPt.IsPositive ∧ heightPt.IsPositive then ⟨widthPt, heightPt⟩ else defaultPageSize

def measureMediaBox (source : Objects) (value : Object) : PageSize :=
  match (resolveReference source value).bind Object.asArray with
  | some [llx, lly, urx, ury] =>
    match readCorner source llx, readCorner source lly, readCorner source urx,
      readCorner source ury with
    | some llx, some lly, some urx, some ury => measureCorners llx lly urx ury
    | _, _, _, _ => defaultPageSize
  | _ => defaultPageSize

def readPageSize (source : Objects) (page : ObjectId) : PageSize :=
  match findInheritedAttribute source page "MediaBox" with
  | some value => measureMediaBox source value
  | none => defaultPageSize

/-- The rotation a `/Rotate` value gives, or none if it is no multiple of a quarter turn. -/
def measureRotation (source : Objects) (value : Object) : Rotation :=
  match (resolveReference source value).bind Object.asInt with
  | some degrees =>
    if -2 ^ 31 ≤ degrees ∧ degrees < 2 ^ 31 then
      match Rotation.fromDegrees degrees with
      | .ok rotation => rotation
      | .error _ => .none
    else .none
  | none => .none

def readPageRotation (source : Objects) (page : ObjectId) : Rotation :=
  match findInheritedAttribute source page "Rotate" with
  | some value => measureRotation source value
  | none => .none

/-! ### References in a value -/

mutual
/-- Every reference contained in a value, skipping `/Parent`. -/
def collectReferences : Object → List ObjectId
  | .reference id => [id]
  | .array items => collectItemReferences items
  | .dictionary entries => collectDictionaryReferences entries
  | .stream entries _ => collectDictionaryReferences entries
  | _ => []

def collectItemReferences : List Object → List ObjectId
  | [] => []
  | item :: items => collectReferences item ++ collectItemReferences items

def collectDictionaryReferences : List (String × Object) → List ObjectId
  | [] => []
  | (key, value) :: entries =>
    (if key = "Parent" then [] else collectReferences value) ++ collectDictionaryReferences entries
end

/-- Source identifiers and the identifiers of their copies. -/
abbrev IdMapping := List (ObjectId × ObjectId)

def IdMapping.apply (mapping : IdMapping) (id : ObjectId) : ObjectId :=
  (mapping.lookup id).getD id

mutual
/-- Rewrite every reference in a value; references absent from the mapping are left alone. -/
def remapReferences (mapping : IdMapping) : Object → Object
  | .reference id => .reference (mapping.apply id)
  | .array items => .array (remapItems mapping items)
  | .dictionary entries => .dictionary (remapEntries mapping entries)
  | .stream entries content => .stream (remapEntries mapping entries) content
  | object => object

def remapItems (mapping : IdMapping) : List Object → List Object
  | [] => []
  | item :: items => remapReferences mapping item :: remapItems mapping items

def remapEntries (mapping : IdMapping) : List (String × Object) → List (String × Object)
  | [] => []
  | (key, value) :: entries => (key, remapReferences mapping value) :: remapEntries mapping entries
end

/-! ### Building and copying pages -/

def blankMediaBox (size : PageSize) : Object :=
  .array [.real .zero, .real .zero, .real size.widthPt, .real size.heightPt]

def blankPageDictionary (parent : ObjectId) (size : PageSize) : Dictionary :=
  Dictionary.set "Resources" (.dictionary [])
    (Dictionary.set "MediaBox" (blankMediaBox size)
      (Dictionary.set "Parent" (.reference parent) (Dictionary.set "Type" (.name "Page") [])))

def buildBlankPage (target : LopdfDocument) (parent : ObjectId) (size : PageSize) :
    ObjectId × LopdfDocument :=
  target.addObject (.dictionary (blankPageDictionary parent size))

/-- The walk of a deep copy: what it has come across and what it has still to visit, next first. -/
structure Frontier where
  seen : Finset ObjectId
  pending : List ObjectId

/-- Whether the copy follows a reference: the object exists and is no page tree node. -/
def copies (source : Objects) (id : ObjectId) : Bool :=
  (source.lookup id).isSome && !isPageNode source id

/-- Queue every reference not come across yet that the copy follows. -/
def enqueue (source : Objects) : List ObjectId → Frontier → Frontier
  | [], frontier => frontier
  | id :: ids, frontier =>
    if id ∈ frontier.seen then enqueue source ids frontier
    else
      enqueue source ids
        { seen := insert id frontier.seen
          pending := if copies source id then id :: frontier.pending else frontier.pending }

/-- Pass one: give every reachable object a fresh identifier in the target. The number of
source objects bounds how many are visited. -/
def assignIds (source : Objects) : Nat → Frontier → IdMapping → LopdfDocument →
    IdMapping × LopdfDocument
  | 0, _, mapping, target => (mapping, target)
  | fuel + 1, frontier, mapping, target =>
    match frontier.pending with
    | [] => (mapping, target)
    | current :: pending =>
      match source.lookup current with
      | none => assignIds source fuel { frontier with pending } mapping target
      | some object =>
        let (id, target') := target.newObjectId
        assignIds source fuel (enqueue source (collectReferences object) { frontier with pending })
          ((current, id) :: mapping) target'

def cloneEntries (source : Objects) (mapping : IdMapping) : IdMapping → LopdfDocument → LopdfDocument
  | [], target => target
  | (sourceId, targetId) :: entries, target =>
    match source.lookup sourceId with
    | none => cloneEntries source mapping entries target
    | some object =>
      cloneEntries source mapping entries (target.setObject targetId (remapReferences mapping object))

def cloneObjects (source : Objects) (mapping : IdMapping) (target : LopdfDocument) : LopdfDocument :=
  cloneEntries source mapping mapping target

/-- What a page carries or inherits of the inheritable attributes. -/
def collectInherited (source : Objects) (page : ObjectId) : List (String × Object) :=
  inheritableKeys.filterMap fun key => (findInheritedAttribute source page key).map (key, ·)

def setMissing (d : Dictionary) (entry : String × Object) : Dictionary :=
  if Dictionary.has d entry.1 then d else Dictionary.set entry.1 entry.2 d

/-- The copy stands alone: no parent, and every inherited attribute written out. -/
def detachPage (inherited : List (String × Object)) (page : Dictionary) : Dictionary :=
  inherited.foldl setMissing (Dictionary.remove "Parent" page)

def startFrontier (source : Objects) (page : ObjectId) : Frontier :=
  enqueue source ((collectInherited source page).flatMap (collectReferences ·.2)) ⟨{page}, [page]⟩

/-- What pass one assigns to a page and everything it reaches. -/
def copyMapping (source : Objects) (page : ObjectId) (target : LopdfDocument) :
    IdMapping × LopdfDocument :=
  assignIds source source.keys.card (startFrontier source page) [] target

def remapInherited (source : Objects) (page : ObjectId) (mapping : IdMapping) :
    List (String × Object) :=
  (collectInherited source page).map fun entry => (entry.1, remapReferences mapping entry.2)

/-- Pass two, and what makes the copied page stand alone. -/
def placeCopy [Lopdf] (source : Objects) (page : ObjectId) (mapping : IdMapping)
    (numbered : LopdfDocument) : Option ObjectId × LopdfDocument :=
  let cloned := cloneObjects source mapping numbered
  match mapping.lookup page with
  | none => (none, cloned)
  | some copied =>
    match Objects.modifyDictionary cloned.objects copied
        (detachPage (remapInherited source page mapping)) with
    | .error _ => (none, cloned)
    | .ok objects => (some copied, { cloned with objects })

def copyPageInto [Lopdf] (source : Objects) (page : ObjectId) (target : LopdfDocument) :
    Option ObjectId × LopdfDocument :=
  match (source.lookup page).bind Object.asDict with
  | none => (none, target)
  | some _ =>
    let (mapping, numbered) := copyMapping source page target
    placeCopy source page mapping numbered

end OpdfEditor
