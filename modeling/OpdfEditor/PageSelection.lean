import Mathlib.Data.List.Destutter
import Mathlib.Data.List.Sort
import OpdfEditor.Page
import OpdfEditor.Trimming

/-!
The `--pages` selection syntax, and its resolution against a document. A text is
the list of its characters; page numbers are 1-based, indices 0-based.
-/
namespace OpdfEditor

open Trimming

def usizeMax : Nat := 2 ^ 64 - 1

/-- The Unicode property `White_Space`. -/
def isWhitespace (c : Char) : Bool :=
  let n := c.toNat
  (9 ≤ n && n ≤ 13) || n == 0x20 || n == 0x85 || n == 0xA0 || n == 0x1680 ||
    (0x2000 ≤ n && n ≤ 0x200A) || n == 0x2028 || n == 0x2029 || n == 0x202F || n == 0x205F ||
    n == 0x3000

def isAsciiDigit (c : Char) : Bool := 48 ≤ c.toNat && c.toNat ≤ 57

def digitValue (c : Char) : Nat := c.toNat - 48

abbrev PageNumber := {n : Nat // 1 ≤ n}

/-- One comma-separated part of a `--pages` argument. Without a last page it runs to the last
page of the document. -/
structure SelectionPart where
  first : PageNumber
  last : Option PageNumber
  ordered : ∀ page ∈ last, first.1 ≤ page.1

namespace SelectionPart

def closed (first last : PageNumber) (h : first.1 ≤ last.1) : SelectionPart where
  first := first
  last := some last
  ordered := fun page hpage => by
    cases hpage
    exact h

def single (page : PageNumber) : SelectionPart := closed page page le_rfl

def upTo (last : PageNumber) : SelectionPart := closed ⟨1, le_rfl⟩ last last.2

def onward (first : PageNumber) : SelectionPart where
  first := first
  last := none
  ordered := fun page hpage => by cases hpage

/-- The last page a part reaches in a document of `pageCount` pages. -/
def lastIn (part : SelectionPart) (pageCount : Nat) : Nat :=
  (part.last.map Subtype.val).getD pageCount

/-- The first number of a part that is past the end of the document, start before end. -/
def offending (part : SelectionPart) (pageCount : Nat) : Option Nat :=
  if part.first.1 > pageCount then some part.first.1
  else if part.lastIn pageCount > pageCount then some (part.lastIn pageCount)
  else none

end SelectionPart

structure PageSelection where
  parts : List SelectionPart

/-- `str::parse` of a machine word, on a text of digits: `none` where it does not fit. -/
def parseDigits : List Char → Nat → Option Nat
  | [], value => some value
  | digit :: digits, value =>
    if value * 10 > usizeMax then none
    else if value * 10 + digitValue digit > usizeMax then none
    else parseDigits digits (value * 10 + digitValue digit)

def parsePageNumber (text : List Char) : Except Error PageNumber :=
  if text.isEmpty || !text.all isAsciiDigit then
    .error (.unsupported s!"'{String.ofList text}' is not a page number")
  else
    match parseDigits text 0 with
    | none => .error (.unsupported s!"page number '{String.ofList text}' is too large")
    | some pageNumber =>
      if h : pageNumber = 0 then
        .error (.unsupported "page numbers are 1-based, so 0 is not a page")
      else .ok ⟨pageNumber, Nat.one_le_iff_ne_zero.2 h⟩

/-- The part between two ends, either of which may be left open. -/
def parseEnds (start stop : List Char) : Except Error SelectionPart :=
  match start, stop with
  | [], [] => .error (.unsupported
      "'-' is not a page range: give at least one end, for example 3- or -3")
  | [], stop => (parsePageNumber stop).map .upTo
  | start, [] => (parsePageNumber start).map .onward
  | start, stop =>
    match parsePageNumber start with
    | .error e => .error e
    | .ok first =>
      match parsePageNumber stop with
      | .error e => .error e
      | .ok last =>
        -- both ends can be perfectly valid pages on their own
        if h : last.1 < first.1 then .error (.invalidRange first.1 last.1)
        else .ok (.closed first last (Nat.not_lt.1 h))

/-- Parse a single comma-separated part, already trimmed of whitespace. -/
def parsePart (part : List Char) : Except Error SelectionPart :=
  if part.isEmpty then
    .error (.unsupported "empty part in the page selection: two commas with nothing between them")
  else
    match splitOnce '-' part with
    | none => (parsePageNumber part).map .single
    | some (before, after) =>
      -- a second dash is a typo, which cutting once would keep in what follows
      if after.contains '-' then
        .error (.unsupported s!"'{String.ofList part}' is not a page range: a range holds one dash")
      else parseEnds (trim isWhitespace before) (trim isWhitespace after)

namespace PageSelection

def parse (text : List Char) : Except Error PageSelection :=
  let trimmed := trim isWhitespace text
  if trimmed.isEmpty then
    .error (.unsupported
      "empty page selection: give at least one page, for example --pages 1-3")
  else
    ((trimmed.splitOn ',').mapM fun rawPart => parsePart (trim isWhitespace rawPart)).map .mk

/-- A subtraction of one, which panics on zero. -/
def checkedPred : Nat → Option Nat
  | 0 => none
  | n + 1 => some n

/-- The indices each part names, collected in turn: `none` where the subtraction panics. -/
def collectIndices (pageCount : Nat) :
    List SelectionPart → List Nat → Option (Except Error (List Nat))
  | [], indices => some (.ok indices)
  | part :: parts, indices =>
    match part.offending pageCount with
    | some index => some (.error (.indexOutOfBounds index pageCount))
    | none =>
      let last := part.lastIn pageCount
      match (List.range' part.first.1 (last + 1 - part.first.1)).mapM checkedPred with
      | none => none
      | some pushed => collectIndices pageCount parts (indices ++ pushed)

/-- Resolve the selection against a document of `pageCount` pages, to ascending indices without
repeats. -/
def resolve (selection : PageSelection) (pageCount : Nat) : Option (Except Error (List Nat)) :=
  match collectIndices pageCount selection.parts [] with
  | none => none
  | some (.error e) => some (.error e)
  | some (.ok collected) =>
    let indices := (collected.mergeSort).destutter (· ≠ ·)
    if indices.isEmpty then
      some (.error (.unsupported
        s!"the page selection resolves to no pages in a document of {pageCount} pages"))
    else some (.ok indices)

def select (text : List Char) (pageCount : Nat) : Option (Except Error (List Nat)) :=
  match parse text with
  | .error e => some (.error e)
  | .ok selection => selection.resolve pageCount

end PageSelection

/-- Extend the open run while the indices stay consecutive, else start a new one. -/
def pushIndex (runs : List (Nat × Nat)) (index : Nat) : List (Nat × Nat) :=
  match runs.getLast? with
  | some (start, stop) =>
    if stop = index then runs.dropLast ++ [(start, index + 1)] else runs ++ [(index, index + 1)]
  | none => runs ++ [(index, index + 1)]

def contiguousRuns (indices : List Nat) : List (Nat × Nat) := indices.foldl pushIndex []

example : contiguousRuns [0, 1, 2, 6, 8, 9] = [(0, 3), (6, 7), (8, 10)] := rfl

end OpdfEditor
