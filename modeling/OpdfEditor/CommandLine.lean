import Mathlib.Data.Vector.Basic
import OpdfEditor.PageSelection

/-!
Turning an argument list into a validated request. An item is a flag if and only if it
is text and begins with `--`; a bare `--` ends the flags. Paths stay what the operating
system hands over, and only flag names and the values of `--pages`, `--degrees` and
`--at` are required to be text.
-/
namespace OpdfEditor

open Trimming

/-! ### Strings of the operating system -/

/-- A string of the operating system: bytes that need not encode text. -/
structure OsString where
  bytes : ByteArray

namespace OsString

theorem eq_iff {s t : OsString} : s.bytes.data = t.bytes.data ↔ s = t := by
  rw [← ByteArray.ext_iff]
  cases s
  cases t
  simp

instance : DecidableEq OsString := fun _ _ => decidable_of_iff _ eq_iff

def toStr (s : OsString) : Option String := String.fromUTF8? s.bytes

def ofStr (text : String) : OsString := ⟨text.toByteArray⟩

@[simp] theorem toStr_ofStr (text : String) : (ofStr text).toStr = some text := by
  simp [toStr, ofStr, String.fromUTF8?, String.fromUTF8, text.isValidUTF8]

theorem eq_ofStr_of_toStr {s : OsString} {text : String} (h : s.toStr = some text) :
    s = ofStr text := by
  unfold toStr String.fromUTF8? at h
  split at h
  · cases h
    rfl
  · cases h

/-- A character of which the first bytes are read: its bits so far, and the range of each byte
still to come. -/
structure Started where
  bits : Nat
  next : Nat × Nat
  later : List (Nat × Nat)

/-- What a first byte announces: a character of one byte, one of several, or none. -/
def announced (lead : Nat) : Option Char × Option Started :=
  let continued : Nat × Nat := (0x80, 0xBF)
  if lead < 0x80 then (some (Char.ofNat lead), none)
  else if 0xC2 ≤ lead && lead ≤ 0xDF then (none, some ⟨lead - 0xC0, continued, []⟩)
  else if lead == 0xE0 then (none, some ⟨0, (0xA0, 0xBF), [continued]⟩)
  else if lead == 0xED then (none, some ⟨0xD, (0x80, 0x9F), [continued]⟩)
  else if 0xE1 ≤ lead && lead ≤ 0xEF then (none, some ⟨lead - 0xE0, continued, [continued]⟩)
  else if lead == 0xF0 then (none, some ⟨0, (0x90, 0xBF), [continued, continued]⟩)
  else if 0xF1 ≤ lead && lead ≤ 0xF3 then
    (none, some ⟨lead - 0xF0, continued, [continued, continued]⟩)
  else if lead == 0xF4 then (none, some ⟨4, (0x80, 0x8F), [continued, continued]⟩)
  else (none, none)

def replacement : Char := Char.ofNat 0xFFFD

def decodeLossy : Option Started → List Nat → List Char
  | none, [] => []
  | some _, [] => [replacement]
  | started, byte :: bytes =>
    -- where the byte does not go on with the character begun, it begins one itself
    let begin_ (before : List Char) := match announced byte with
      | (some char, _) => before ++ char :: decodeLossy none bytes
      | (none, some started) => before ++ decodeLossy (some started) bytes
      | (none, none) => before ++ replacement :: decodeLossy none bytes
    match started with
    | none => begin_ []
    | some ⟨bits, next, later⟩ =>
      if next.1 ≤ byte && byte ≤ next.2 then
        let bits := bits * 0x40 + (byte - 0x80)
        match later with
        | [] => Char.ofNat bits :: decodeLossy none bytes
        | next :: later => decodeLossy (some ⟨bits, next, later⟩) bytes
      else begin_ [replacement]

def display (s : OsString) : String :=
  String.ofList (decodeLossy none (s.bytes.data.toList.map UInt8.toNat))

example : display ⟨⟨#[0x69, 0xFF, 0xC3, 0xA9, 0xE2, 0x82]⟩⟩ = "i\uFFFDé\uFFFD" := by decide

end OsString

inductive CliError where
  | usage (message : String)
  | argument (flag : String) (source : Error)
  | outputExists (path : OsString)
  | openFailed (path : OsString) (source : Error)
  | saveFailed (path : OsString) (source : Error)
  | operation (source : Error)
  deriving DecidableEq

/-! ### What a command line asks for -/

structure MergeArgs where
  outputPath : OsString
  /-- In the order they were named. -/
  inputPaths : List OsString
  force : Bool

structure SplitArgs where
  inputPath : OsString
  /-- The first page of the second half, counted from one. -/
  atPage : Nat
  outAPath : OsString
  outBPath : OsString
  force : Bool

structure RotateArgs where
  inputPath : OsString
  pages : PageSelection
  rotation : Rotation
  /-- Nothing where the input is edited in place. -/
  outputPath : Option OsString
  force : Bool

structure ExtractArgs where
  inputPath : OsString
  pages : PageSelection
  outputPath : OsString
  force : Bool

inductive Invocation where
  | help
  | version
  | merge (args : MergeArgs)
  | split (args : SplitArgs)
  | rotate (args : RotateArgs)
  | extract (args : ExtractArgs)

/-! ### The scanned line -/

/-- The flags that stand alone; every other flag takes a value. -/
def switches : List String := ["force"]

structure CommandLine where
  positionals : List OsString
  /-- In the order given; a switch has no value. -/
  flags : List (String × Option OsString)

namespace CommandLine

def stripDashes (text : String) : Option (List Char) :=
  match text.toList with
  | '-' :: '-' :: flag => some flag
  | _ => none

def startsAFlag (item : OsString) : Bool :=
  match item.toStr with
  | none => false
  | some text => (stripDashes text).isSome

/-- The name of a flag, and the value in the same item. -/
def splitFlag (flag : List Char) : String × Option OsString :=
  match splitOnce '=' flag with
  | some (name, value) => (String.ofList name, some (.ofStr (String.ofList value)))
  | none => (String.ofList flag, none)

def scan (valueFlags : List String) (subcommand : String) :
    List OsString → CommandLine → Except CliError CommandLine
  | [], line => .ok line
  | item :: items, line =>
    match item.toStr with
    -- only text can be a flag, which is what keeps paths opaque
    | none => scan valueFlags subcommand items { line with positionals := line.positionals ++ [item] }
    | some text =>
      if text = "--" then .ok { line with positionals := line.positionals ++ items }
      else
        match stripDashes text with
        | none =>
          scan valueFlags subcommand items { line with positionals := line.positionals ++ [item] }
        | some flag =>
          let (name, inlineValue) := splitFlag flag
          if line.flags.any (·.1 = name) then .error (.usage s!"--{name} was given twice")
          else if name ∈ switches then
            if inlineValue.isSome then .error (.usage s!"--{name} takes no value")
            else scan valueFlags subcommand items { line with flags := line.flags ++ [(name, none)] }
          else if name ∉ valueFlags then
            .error (.usage s!"unknown flag --{name} for `opdf-cli {subcommand}`")
          else
            match inlineValue with
            | some value =>
              scan valueFlags subcommand items { line with flags := line.flags ++ [(name, some value)] }
            | none =>
              match items with
              | [] => .error (.usage s!"--{name} needs a value")
              | next :: items =>
                -- a flag must not eat the next flag
                if startsAFlag next then .error (.usage s!"--{name} needs a value")
                else
                  scan valueFlags subcommand items
                    { line with flags := line.flags ++ [(name, some next)] }

def takeValue (name : String) (line : CommandLine) :
    Except CliError (Option OsString × CommandLine) :=
  match line.flags.find? (·.1 = name) with
  | none => .ok (none, line)
  | some (_, none) => .error (.usage s!"--{name} needs a value")
  | some (_, some value) => .ok (some value, { line with flags := line.flags.eraseP (·.1 = name) })

def requireValue (name subcommand : String) (line : CommandLine) :
    Except CliError (OsString × CommandLine) :=
  match line.takeValue name with
  | .error e => .error e
  | .ok (none, _) => .error (.usage s!"{subcommand} needs --{name}")
  | .ok (some value, line) => .ok (value, line)

def takeSwitch (name : String) (line : CommandLine) : Bool × CommandLine :=
  if line.flags.any (·.1 = name) then
    (true, { line with flags := line.flags.eraseP (·.1 = name) })
  else (false, line)

def takePositionals (count : Nat) (expected : String) (line : CommandLine) :
    Except CliError (List.Vector OsString count × CommandLine) :=
  if h : line.positionals.length < count then .error (.usage s!"expected {expected}")
  else
    .ok (⟨line.positionals.take count, List.length_take_of_le (Nat.not_lt.1 h)⟩,
      { line with positionals := line.positionals.drop count })

def takeRemainingPositionals (line : CommandLine) : List OsString × CommandLine :=
  (line.positionals, { line with positionals := [] })

def rejectLeftovers (line : CommandLine) : Except CliError Unit :=
  match line.flags with
  | (name, _) :: _ => .error (.usage s!"unknown flag --{name} for this subcommand")
  | [] =>
    match line.positionals with
    | extra :: _ => .error (.usage s!"unexpected argument '{extra.display}'")
    | [] => .ok ()

/-! ### Typed flag values -/

def readText (value : OsString) (name : String) : Except CliError String :=
  match value.toStr with
  | some text => .ok text
  | none => .error (.usage s!"the value of --{name} must be text")

def readSelection (value : OsString) : Except CliError PageSelection := do
  let text ← readText value "pages"
  (PageSelection.parse text.toList).mapError (.argument "pages")

def boundedDigits (limit : Nat) : List Char → Nat → Option Nat
  | [], value => some value
  | digit :: digits, value =>
    if value * 10 + digitValue digit > limit then none
    else boundedDigits limit digits (value * 10 + digitValue digit)

def parseMagnitude (limit : Nat) (digits : List Char) : Option Nat :=
  if digits.isEmpty || !digits.all isAsciiDigit then none else boundedDigits limit digits 0

/-- `str::parse` of a machine word, which may carry a plus sign. -/
def parseUsize : List Char → Option Nat
  | '+' :: digits => parseMagnitude usizeMax digits
  | digits => parseMagnitude usizeMax digits

/-- `str::parse` of a signed 32-bit number. -/
def parseInt32 : List Char → Option Int
  | '+' :: digits => (parseMagnitude (2 ^ 31 - 1) digits).map fun value => (value : Int)
  | '-' :: digits => (parseMagnitude (2 ^ 31) digits).map fun value => -(value : Int)
  | digits => (parseMagnitude (2 ^ 31 - 1) digits).map fun value => (value : Int)

def readRotation (value : OsString) : Except CliError Rotation := do
  let text ← readText value "degrees"
  match parseInt32 text.toList with
  | none => .error (.usage s!"--degrees: '{text}' is not a whole number of degrees")
  | some degrees => (Rotation.fromDegrees degrees).mapError (.argument "degrees")

def readPageNumber (value : OsString) : Except CliError Nat := do
  let text ← readText value "at"
  match parseUsize text.toList with
  | none => .error (.usage s!"--at: '{text}' is not a page number")
  | some pageNumber =>
    if pageNumber = 0 then .error (.usage "--at: page numbers are 1-based, so 0 is not a page")
    else .ok pageNumber

/-! ### One parser per subcommand -/

/-- `merge OUT.pdf IN.pdf [IN.pdf ...]` -/
def parseMerge (line : CommandLine) : Except CliError (MergeArgs × CommandLine) := do
  let (force, line) := line.takeSwitch "force"
  let (paths, line) ← line.takePositionals 1 "merge OUT.pdf IN1.pdf [IN2.pdf ...]"
  let (inputPaths, line) := line.takeRemainingPositionals
  if inputPaths.isEmpty then
    .error (.usage "merge needs at least one input document after the output path")
  else .ok ({ outputPath := paths.head, inputPaths, force }, line)

/-- `split IN.pdf --at N --out-a A.pdf --out-b B.pdf` -/
def parseSplit (line : CommandLine) : Except CliError (SplitArgs × CommandLine) := do
  let (force, line) := line.takeSwitch "force"
  let (value, line) ← line.requireValue "at" "split"
  let atPage ← readPageNumber value
  let (outAPath, line) ← line.requireValue "out-a" "split"
  let (outBPath, line) ← line.requireValue "out-b" "split"
  let (paths, line) ← line.takePositionals 1 "split IN.pdf --at N --out-a A.pdf --out-b B.pdf"
  .ok ({ inputPath := paths.head, atPage, outAPath, outBPath, force }, line)

/-- `rotate IN.pdf --pages RANGE --degrees D [--out OUT.pdf]` -/
def parseRotate (line : CommandLine) : Except CliError (RotateArgs × CommandLine) := do
  let (force, line) := line.takeSwitch "force"
  let (value, line) ← line.requireValue "pages" "rotate"
  let pages ← readSelection value
  let (value, line) ← line.requireValue "degrees" "rotate"
  let rotation ← readRotation value
  let (outputPath, line) ← line.takeValue "out"
  let (paths, line) ← line.takePositionals 1
    "rotate IN.pdf --pages RANGE --degrees D [--out OUT.pdf]"
  .ok ({ inputPath := paths.head, pages, rotation, outputPath, force }, line)

/-- `extract IN.pdf --pages RANGE --out OUT.pdf` -/
def parseExtract (line : CommandLine) : Except CliError (ExtractArgs × CommandLine) := do
  let (force, line) := line.takeSwitch "force"
  let (value, line) ← line.requireValue "pages" "extract"
  let pages ← readSelection value
  let (outputPath, line) ← line.requireValue "out" "extract"
  let (paths, line) ← line.takePositionals 1 "extract IN.pdf --pages RANGE --out OUT.pdf"
  .ok ({ inputPath := paths.head, pages, outputPath, force }, line)

end CommandLine

/-! ### Parsing -/

inductive Subcommand where
  | merge | split | rotate | extract
  deriving DecidableEq

namespace Subcommand

def name : Subcommand → String
  | merge => "merge"
  | split => "split"
  | rotate => "rotate"
  | extract => "extract"

def ofName : String → Option Subcommand
  | "merge" => some merge
  | "split" => some split
  | "rotate" => some rotate
  | "extract" => some extract
  | _ => none

def valueFlags : Subcommand → List String
  | merge => []
  | split => ["at", "out-a", "out-b"]
  | rotate => ["pages", "degrees", "out"]
  | extract => ["pages", "out"]

def interpret (subcommand : Subcommand) (line : CommandLine) :
    Except CliError (Invocation × CommandLine) :=
  match subcommand with
  | merge => line.parseMerge.map fun (args, line) => (.merge args, line)
  | split => line.parseSplit.map fun (args, line) => (.split args, line)
  | rotate => line.parseRotate.map fun (args, line) => (.rotate args, line)
  | extract => line.parseExtract.map fun (args, line) => (.extract args, line)

end Subcommand

def findHelpOrVersion : List OsString → Option Invocation
  | [] => none
  | item :: items =>
    match item.toStr with
    | none => findHelpOrVersion items
    | some text =>
      if text = "--help" ∨ text = "-h" then some .help
      else if text = "--version" ∨ text = "-V" then some .version
      -- a path called "--help" is reachable after `--`, so stop looking there
      else if text = "--" then none
      else findHelpOrVersion items

def parseArgs (items : List OsString) : Except CliError Invocation :=
  -- help and version win over everything, including a malformed rest of the line
  match findHelpOrVersion items with
  | some invocation => .ok invocation
  | none =>
    match items with
    | [] => .error (.usage
        "no subcommand given; run `opdf-cli --help` to see the four that exist")
    | first :: rest =>
      match first.toStr with
      | none => .error (.usage "the subcommand must be one of merge, split, rotate, extract")
      | some given =>
        match Subcommand.ofName given with
        | none => .error (.usage
            s!"unknown subcommand '{given}'; expected merge, split, rotate, or extract")
        | some subcommand => do
          let line ← CommandLine.scan subcommand.valueFlags given rest ⟨[], []⟩
          let (invocation, line) ← subcommand.interpret line
          -- anything still unclaimed belongs to no subcommand
          line.rejectLeftovers
          .ok invocation

end OpdfEditor
