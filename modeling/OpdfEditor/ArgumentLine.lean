import OpdfEditor.CommandLine

/-!
What the items after a subcommand stand for, one or two at a time, and that the
scanner separates a line exactly as it is made up.
-/
namespace OpdfEditor

open Trimming

/-- What one item of a line, or two, stand for. -/
inductive Argument where
  | positional (path : OsString)
  | switch (name : String)
  /-- A flag, and its value in the next item. -/
  | separate (name : String) (value : OsString)
  /-- A flag and its value in one item. -/
  | inline (name value : String)

namespace Argument

def items : Argument → List OsString
  | positional path => [path]
  | switch name => [.ofStr ("--" ++ name)]
  | separate name value => [.ofStr ("--" ++ name), value]
  | inline name value => [.ofStr ("--" ++ name ++ "=" ++ value)]

def path? : Argument → Option OsString
  | positional path => some path
  | _ => none

def flag? : Argument → Option (String × Option OsString)
  | positional _ => none
  | switch name => some (name, none)
  | separate name value => some (name, some value)
  | inline name value => some (name, some (.ofStr value))

/-- A subcommand that takes these flags takes the argument. -/
def Fits (valueFlags : List String) : Argument → Prop
  | positional path => CommandLine.startsAFlag path = false
  | switch name => name ∈ switches
  | separate name value => name ∈ valueFlags ∧ CommandLine.startsAFlag value = false
  | inline name _ => name ∈ valueFlags

end Argument

/-- The items after a subcommand: arguments, and the paths after the `--` where there is one. -/
structure Arguments where
  given : List Argument
  ended : Option (List OsString)

namespace Arguments

/-- What stands at the end of a line, the `--` included. -/
def endItems : Option (List OsString) → List OsString
  | none => []
  | some paths => .ofStr "--" :: paths

def items (arguments : Arguments) : List OsString :=
  arguments.given.flatMap Argument.items ++ endItems arguments.ended

def positionals (arguments : Arguments) : List OsString :=
  arguments.given.filterMap Argument.path? ++ arguments.ended.getD []

def flags (arguments : Arguments) : List (String × Option OsString) :=
  arguments.given.filterMap Argument.flag?

def Fits (valueFlags : List String) (arguments : Arguments) : Prop :=
  ∀ argument ∈ arguments.given, argument.Fits valueFlags

/-- Flags have changed places among each other and with positionals, which keep their order. -/
structure Reordered (arguments arguments' : Arguments) : Prop where
  perm : arguments'.given.Perm arguments.given
  paths : arguments'.given.filterMap Argument.path? = arguments.given.filterMap Argument.path?
  ended : arguments'.ended = arguments.ended

/-- Reordering keeps the positionals in theirs. -/
theorem Reordered.positionals {arguments arguments' : Arguments}
    (h : Reordered arguments arguments') : arguments'.positionals = arguments.positionals := by
  unfold Arguments.positionals
  rw [h.paths, h.ended]

/-- Reordering keeps the flags, in some order. -/
theorem Reordered.flags {arguments arguments' : Arguments} (h : Reordered arguments arguments') :
    arguments'.flags.Perm arguments.flags := h.perm.filterMap _

theorem Reordered.fits {arguments arguments' : Arguments} (h : Reordered arguments arguments')
    {valueFlags : List String} (hfits : arguments.Fits valueFlags) : arguments'.Fits valueFlags :=
  fun argument hargument => hfits argument (h.perm.mem_iff.1 hargument)

def cons (argument : Argument) (arguments : Arguments) : Arguments where
  given := argument :: arguments.given
  ended := arguments.ended

@[simp] theorem items_cons (argument : Argument) (arguments : Arguments) :
    (cons argument arguments).items = argument.items ++ arguments.items := by
  simp [items, cons, List.append_assoc]

@[simp] theorem positionals_cons (argument : Argument) (arguments : Arguments) :
    (cons argument arguments).positionals = argument.path?.toList ++ arguments.positionals := by
  cases h : argument.path? <;> simp [positionals, cons, h]

@[simp] theorem flags_cons (argument : Argument) (arguments : Arguments) :
    (cons argument arguments).flags = argument.flag?.toList ++ arguments.flags := by
  cases h : argument.flag? <;> simp [flags, cons, h]

theorem fits_cons {valueFlags : List String} {argument : Argument} {arguments : Arguments} :
    (cons argument arguments).Fits valueFlags ↔
      argument.Fits valueFlags ∧ arguments.Fits valueFlags := List.forall_mem_cons

/-- A line is empty, ended by a `--`, or starts with an argument. -/
theorem consInduction {motive : Arguments → Prop} (empty : motive ⟨[], none⟩)
    (ended : ∀ paths, motive ⟨[], some paths⟩)
    (cons : ∀ argument arguments, motive arguments → motive (cons argument arguments))
    (arguments : Arguments) : motive arguments := by
  obtain ⟨given, stop⟩ := arguments
  induction given with
  | nil =>
    cases stop with
    | none => exact empty
    | some paths => exact ended paths
  | cons argument given ih => exact cons argument ⟨given, stop⟩ ih

end Arguments

/-! ### Reading one item -/

namespace CommandLine

theorem stripDashes_flag (name : String) : stripDashes ("--" ++ name) = some name.toList := by
  simp [stripDashes]

theorem eq_flag_of_stripDashes {text : String} {flag : List Char} (h : stripDashes text = some flag) :
    text = "--" ++ String.ofList flag := by
  unfold stripDashes at h
  split at h
  · cases h
    rename_i heq
    rw [← String.toList_inj, heq]
    simp
  · cases h

theorem splitFlag_name {name : String} (h : '=' ∉ name.toList) :
    splitFlag name.toList = (name, none) := by
  unfold splitFlag
  rw [splitOnce_eq_none.2 h]
  simp

/-- What follows the first `=` is the value. -/
theorem splitFlag_value {name : String} (h : '=' ∉ name.toList) (value : String) :
    splitFlag (name ++ "=" ++ value).toList = (name, some (.ofStr value)) := by
  have hlist : (name ++ "=" ++ value).toList = name.toList ++ '=' :: value.toList := by simp
  unfold splitFlag
  rw [hlist, splitOnce_append_cons h]
  simp

/-- The two ways to write a flag. -/
theorem splitFlag_cases (flag : List Char) :
    (∃ name, splitFlag flag = (name, none) ∧ String.ofList flag = name) ∨
    ∃ name value, splitFlag flag = (name, some (.ofStr value)) ∧
      String.ofList flag = name ++ "=" ++ value := by
  by_cases h : '=' ∈ flag
  · obtain ⟨name, value, rfl, hname⟩ := List.eq_append_cons_of_mem h
    refine .inr ⟨String.ofList name, String.ofList value, ?_, ?_⟩
    · rw [splitFlag, splitOnce_append_cons hname]
    · rw [← String.toList_inj]
      simp
  · refine .inl ⟨_, ?_, rfl⟩
    rw [splitFlag, splitOnce_eq_none.2 h]

theorem startsAFlag_flag (name : String) : startsAFlag (.ofStr ("--" ++ name)) = true := by
  simp [startsAFlag, stripDashes_flag]

/-! ### Reading one argument -/

/-- The flags are none of the switches, and their names end where the item or a value does. -/
def Plain (valueFlags : List String) : Prop :=
  ∀ name ∈ valueFlags, name ≠ "" ∧ '=' ∉ name.toList ∧ name ∉ switches

theorem plain_switches {name : String} (h : name ∈ switches) : name ≠ "" ∧ '=' ∉ name.toList := by
  rw [switches, List.mem_singleton] at h
  subst h
  decide

def push (line : CommandLine) (argument : Argument) : CommandLine where
  positionals := line.positionals ++ argument.path?.toList
  flags := line.flags ++ argument.flag?.toList

/-- The flag was not given yet. -/
def Unseen (line : CommandLine) (argument : Argument) : Prop :=
  ∀ flag ∈ argument.flag?, flag.1 ∉ line.flags.map Prod.fst

theorem any_eq_true {line : CommandLine} {name : String} :
    line.flags.any (·.1 = name) = true ↔ name ∈ line.flags.map Prod.fst := by
  simp [List.mem_map]

section

variable {valueFlags : List String} {subcommand : String} {line final : CommandLine}

theorem flag_ne_end {name : String} (h : name ≠ "") : "--" ++ name ≠ "--" := by
  intro heq
  rw [← String.toList_inj, String.toList_append] at heq
  apply h
  rw [← String.toList_inj]
  simpa using heq

section

variable {name text : String} {inlineValue : Option OsString} (hne : text ≠ "")
  (hsplit : splitFlag text.toList = (name, inlineValue))

include hne hsplit

/-- A flag is looked up as soon as its name is read. -/
theorem scan_seen (hseen : name ∈ line.flags.map Prod.fst) (items : List OsString) :
    scan valueFlags subcommand (.ofStr ("--" ++ text) :: items) line =
      .error (.usage s!"--{name} was given twice") := by
  rw [scan]
  simp only [OsString.toStr_ofStr, if_neg (flag_ne_end hne), stripDashes_flag, hsplit,
    if_pos (any_eq_true.2 hseen)]

/-- A switch is scanned as a flag without a value. -/
theorem scan_switch (hnew : name ∉ line.flags.map Prod.fst) (hswitch : name ∈ switches)
    (hnone : inlineValue = none) (items : List OsString) :
    scan valueFlags subcommand (.ofStr ("--" ++ text) :: items) line =
      scan valueFlags subcommand items { line with flags := line.flags ++ [(name, none)] } := by
  subst hnone
  rw [scan]
  simp only [OsString.toStr_ofStr, if_neg (flag_ne_end hne), stripDashes_flag, hsplit,
    if_neg (any_eq_true.not.2 hnew), if_pos hswitch]
  rfl

/-- A value in the same item is scanned with its flag. -/
theorem scan_inline (hnew : name ∉ line.flags.map Prod.fst) (hswitch : name ∉ switches)
    (hname : name ∈ valueFlags) {value : OsString} (hvalue : inlineValue = some value)
    (items : List OsString) :
    scan valueFlags subcommand (.ofStr ("--" ++ text) :: items) line =
      scan valueFlags subcommand items { line with flags := line.flags ++ [(name, some value)] } := by
  subst hvalue
  rw [scan]
  simp only [OsString.toStr_ofStr, if_neg (flag_ne_end hne), stripDashes_flag, hsplit,
    if_neg (any_eq_true.not.2 hnew), if_neg hswitch, if_neg (not_not.2 hname)]

/-- So is one in the next item, if that starts no flag. -/
theorem scan_separate (hnew : name ∉ line.flags.map Prod.fst) (hswitch : name ∉ switches)
    (hname : name ∈ valueFlags) (hnone : inlineValue = none) {value : OsString}
    (hvalue : startsAFlag value = false) (items : List OsString) :
    scan valueFlags subcommand (.ofStr ("--" ++ text) :: value :: items) line =
      scan valueFlags subcommand items { line with flags := line.flags ++ [(name, some value)] } := by
  subst hnone
  rw [scan]
  simp only [OsString.toStr_ofStr, if_neg (flag_ne_end hne), stripDashes_flag, hsplit,
    if_neg (any_eq_true.not.2 hnew), if_neg hswitch, if_neg (not_not.2 hname), hvalue]
  rfl

end

/-- An item that starts no flag is a positional. -/
theorem scan_positional {path : OsString} (h : startsAFlag path = false) (items : List OsString) :
    scan valueFlags subcommand (path :: items) line =
      scan valueFlags subcommand items { line with positionals := line.positionals ++ [path] } := by
  rw [scan]
  unfold startsAFlag at h
  cases htext : path.toStr with
  | none => rfl
  | some text =>
    rw [htext] at h
    have hstrip : stripDashes text = none := Option.not_isSome_iff_eq_none.1 (by simp_all)
    have hend : text ≠ "--" := by
      rintro rfl
      cases hstrip
    simp only [if_neg hend, hstrip]

/-- After the `--` everything is a positional. -/
theorem scan_end (paths : List OsString) :
    scan valueFlags subcommand (.ofStr "--" :: paths) line =
      .ok { line with positionals := line.positionals ++ paths } := by
  rw [scan]
  simp

/-- The item a flag with its value in it is, as the scanner splits it. -/
theorem inline_item (name value : String) :
    "--" ++ name ++ "=" ++ value = "--" ++ (name ++ "=" ++ value) := by
  simp [String.append_assoc]

theorem inline_ne (name value : String) : name ++ "=" ++ value ≠ "" := by
  intro heq
  rw [← String.toList_inj] at heq
  simp at heq

/-- An argument that fits is read as what it is, and the scan goes on behind it. -/
theorem scan_argument (hplain : Plain valueFlags) {argument : Argument}
    (hfits : argument.Fits valueFlags) (hunseen : line.Unseen argument) (items : List OsString) :
    scan valueFlags subcommand (argument.items ++ items) line =
      scan valueFlags subcommand items (line.push argument) := by
  cases argument with
  | positional path =>
    rw [Argument.items, List.singleton_append, scan_positional hfits]
    simp [push, Argument.path?, Argument.flag?]
  | switch name =>
    obtain ⟨hne, hequals⟩ := plain_switches hfits
    rw [Argument.items, List.singleton_append,
      scan_switch hne (splitFlag_name hequals) (hunseen _ rfl) hfits rfl]
    simp [push, Argument.path?, Argument.flag?]
  | separate name value =>
    obtain ⟨hname, hvalue⟩ := hfits
    obtain ⟨hne, hequals, hswitch⟩ := hplain name hname
    rw [Argument.items, List.cons_append, List.singleton_append,
      scan_separate hne (splitFlag_name hequals) (hunseen _ rfl) hswitch hname rfl hvalue]
    simp [push, Argument.path?, Argument.flag?]
  | inline name value =>
    obtain ⟨hne, hequals, hswitch⟩ := hplain name hfits
    rw [Argument.items, List.singleton_append, inline_item,
      scan_inline (inline_ne name value) (splitFlag_value hequals value) (hunseen _ rfl) hswitch
        hfits rfl]
    simp [push, Argument.path?, Argument.flag?]

/-- A flag that was given already is not read again. -/
theorem scan_repeated (hplain : Plain valueFlags) {argument : Argument}
    (hfits : argument.Fits valueFlags) (hseen : ¬ line.Unseen argument) (items : List OsString) :
    scan valueFlags subcommand (argument.items ++ items) line ≠ .ok final := by
  have hname : ∀ name value, argument.flag? = some (name, value) →
      name ∈ line.flags.map Prod.fst := by
    intro name value hflag
    by_contra hnew
    refine hseen fun flag hmem => ?_
    rw [hflag] at hmem
    cases hmem
    exact hnew
  intro hscan
  cases argument with
  | positional path =>
    refine hseen fun flag hmem => ?_
    cases hmem
  | switch name =>
    obtain ⟨hne, hequals⟩ := plain_switches hfits
    rw [Argument.items, List.singleton_append,
      scan_seen hne (splitFlag_name hequals) (hname _ _ rfl)] at hscan
    cases hscan
  | separate name value =>
    obtain ⟨hne, hequals, -⟩ := hplain name hfits.1
    rw [Argument.items, List.cons_append,
      scan_seen hne (splitFlag_name hequals) (hname _ _ rfl)] at hscan
    cases hscan
  | inline name value =>
    obtain ⟨hne, hequals, -⟩ := hplain name hfits
    rw [Argument.items, List.singleton_append, inline_item,
      scan_seen (inline_ne name value) (splitFlag_value hequals value) (hname _ _ rfl)] at hscan
    cases hscan

/-- A scan that succeeds stops at the `--`, or reads an argument that fits and goes on behind it. -/
theorem scan_cons_ok {item : OsString} {items : List OsString}
    (h : scan valueFlags subcommand (item :: items) line = .ok final) :
    item = .ofStr "--" ∨ ∃ (argument : Argument) (rest : List OsString),
      argument.Fits valueFlags ∧
      item :: items = argument.items ++ rest ∧ rest.length ≤ items.length := by
  cases htext : item.toStr with
  | none => exact .inr ⟨.positional item, items, by simp [Argument.Fits, startsAFlag, htext], rfl, le_rfl⟩
  | some text =>
    obtain rfl := OsString.eq_ofStr_of_toStr htext
    cases hstrip : stripDashes text with
    | none =>
      exact .inr ⟨.positional _, items, by simp [Argument.Fits, startsAFlag, hstrip], rfl, le_rfl⟩
    | some flag =>
      obtain rfl := eq_flag_of_stripDashes hstrip
      by_cases hend : "--" ++ String.ofList flag = "--"
      · exact .inl (congrArg OsString.ofStr hend)
      right
      rw [scan] at h
      simp only [OsString.toStr_ofStr, if_neg hend, hstrip] at h
      rcases splitFlag_cases flag with ⟨name, hsplit, rfl⟩ | ⟨name, value, hsplit, hflag⟩
      · simp only [hsplit] at h
        split at h
        · cases h
        split at h
        · rename_i hswitch
          exact ⟨.switch _, items, hswitch, rfl, le_rfl⟩
        split at h
        · cases h
        rename_i hname
        cases items with
        | nil => cases h
        | cons next items =>
          dsimp only at h
          split at h
          · cases h
          rename_i hnext
          exact ⟨.separate _ next, items, ⟨not_not.1 hname, Bool.not_eq_true _ ▸ hnext⟩, rfl,
            Nat.le_succ _⟩
      · simp only [hsplit] at h
        split at h
        · cases h
        split at h
        · cases h
        split at h
        · cases h
        rename_i hname
        refine ⟨.inline name value, items, not_not.1 hname, ?_, le_rfl⟩
        rw [hflag, ← inline_item]
        rfl

/-! ### Reading a line -/

/-- A line without a flag given twice is separated into its positionals and flags. -/
theorem scan_items (hplain : Plain valueFlags) {arguments : Arguments}
    (hfits : arguments.Fits valueFlags)
    (hnodup : ((line.flags ++ arguments.flags).map Prod.fst).Nodup) :
    scan valueFlags subcommand arguments.items line = .ok
      ⟨line.positionals ++ arguments.positionals, line.flags ++ arguments.flags⟩ := by
  induction arguments using Arguments.consInduction generalizing line with
  | empty => simp [Arguments.items, Arguments.endItems, Arguments.positionals, Arguments.flags, scan]
  | ended paths =>
    have hitems : Arguments.items ⟨[], some paths⟩ = .ofStr "--" :: paths := rfl
    rw [hitems, scan_end]
    simp [Arguments.positionals, Arguments.flags]
  | cons argument arguments ih =>
    obtain ⟨hfirst, hrest⟩ := Arguments.fits_cons.1 hfits
    rw [Arguments.flags_cons, ← List.append_assoc] at hnodup
    have hunseen : line.Unseen argument := by
      intro flag hflag hmem
      rw [List.map_append, List.map_append, Option.mem_def.1 hflag] at hnodup
      have hdisjoint := (List.nodup_append.1 (List.nodup_append.1 hnodup).1).2.2
      exact hdisjoint _ hmem flag.1 (by simp) rfl
    have hnodup' : (((line.push argument).flags ++ arguments.flags).map Prod.fst).Nodup := hnodup
    rw [Arguments.items_cons, scan_argument hplain hfirst hunseen, ih hrest hnodup']
    simp [push, List.append_assoc]

/-- A scan that succeeds has met no flag twice. -/
theorem nodup_of_scan (hplain : Plain valueFlags) {arguments : Arguments}
    (hfits : arguments.Fits valueFlags) (hnodup : (line.flags.map Prod.fst).Nodup)
    (h : scan valueFlags subcommand arguments.items line = .ok final) :
    ((line.flags ++ arguments.flags).map Prod.fst).Nodup := by
  induction arguments using Arguments.consInduction generalizing line with
  | empty => simpa [Arguments.flags] using hnodup
  | ended paths => simpa [Arguments.flags] using hnodup
  | cons argument arguments ih =>
    obtain ⟨hfirst, hrest⟩ := Arguments.fits_cons.1 hfits
    rw [Arguments.items_cons] at h
    have hunseen : line.Unseen argument := by
      by_contra hseen
      exact scan_repeated hplain hfirst hseen _ h
    rw [scan_argument hplain hfirst hunseen] at h
    have hpushed : ((line.push argument).flags.map Prod.fst).Nodup := by
      rw [push, List.map_append, List.nodup_append]
      refine ⟨hnodup, ?_, ?_⟩
      · cases argument.flag? <;> simp
      · intro name hname name' hname'
        obtain ⟨flag, hflag, rfl⟩ := List.mem_map.1 hname'
        rintro rfl
        exact hunseen flag (Option.mem_toList.1 hflag) hname
    rw [Arguments.flags_cons, ← List.append_assoc]
    exact ih hrest hpushed h

/-- A line that is scanned is made up of arguments that fit. -/
theorem exists_of_scan (hplain : Plain valueFlags) {items : List OsString}
    (h : scan valueFlags subcommand items line = .ok final) :
    ∃ arguments : Arguments, arguments.Fits valueFlags ∧ arguments.items = items := by
  induction hlength : items.length using Nat.strong_induction_on generalizing items line with
  | _ length ih =>
    cases items with
    | nil => exact ⟨⟨[], none⟩, by simp [Arguments.Fits], rfl⟩
    | cons item items =>
      rcases scan_cons_ok h with rfl | ⟨argument, rest, hfits, hitems, hle⟩
      · exact ⟨⟨[], some items⟩, by simp [Arguments.Fits], rfl⟩
      rw [hitems] at h
      have hunseen : line.Unseen argument := by
        by_contra hseen
        exact scan_repeated hplain hfits hseen _ h
      rw [scan_argument hplain hfits hunseen] at h
      have hlt : rest.length < length := by
        rw [← hlength, List.length_cons]
        exact Nat.lt_succ_of_le hle
      obtain ⟨arguments, hrest, rfl⟩ := ih _ hlt h rfl
      exact ⟨.cons argument arguments, Arguments.fits_cons.2 ⟨hfits, hrest⟩, by
        rw [Arguments.items_cons, hitems]⟩

end

end CommandLine

/-! ### There is one way to read a line -/

namespace Arguments

open CommandLine

def ofItems : List OsString → Arguments
  | [] => ⟨[], none⟩
  | item :: items =>
    match item.toStr.bind stripDashes with
    | none => cons (.positional item) (ofItems items)
    | some [] => ⟨[], some items⟩
    | some flag =>
      match splitOnce '=' flag with
      | some (name, value) =>
        cons (.inline (String.ofList name) (String.ofList value)) (ofItems items)
      | none =>
        if String.ofList flag ∈ switches then cons (.switch (String.ofList flag)) (ofItems items)
        else
          match items with
          | [] => ⟨[], none⟩
          | value :: items => cons (.separate (String.ofList flag) value) (ofItems items)

theorem bind_stripDashes_of_positional {path : OsString} (h : startsAFlag path = false) :
    path.toStr.bind stripDashes = none := by
  unfold startsAFlag at h
  cases htext : path.toStr with
  | none => rfl
  | some text =>
    rw [htext] at h
    exact Option.not_isSome_iff_eq_none.1 (by simp_all)

theorem bind_stripDashes_flag (text : String) :
    (OsString.ofStr ("--" ++ text)).toStr.bind stripDashes = some text.toList := by
  rw [OsString.toStr_ofStr, Option.bind_some, stripDashes_flag]

theorem exists_letter {name : String} (h : name ≠ "") :
    ∃ c cs, name.toList = c :: cs ∧ String.ofList (c :: cs) = name := by
  cases hname : name.toList with
  | nil =>
    have hempty : name.toList = "".toList := hname
    exact absurd (String.toList_inj.1 hempty) h
  | cons c cs => exact ⟨c, cs, rfl, by rw [← hname, String.ofList_toList]⟩

/-- A line is read back as the arguments it was made up of. -/
theorem ofItems_items {valueFlags : List String} (hplain : Plain valueFlags) {arguments : Arguments}
    (hfits : arguments.Fits valueFlags) : ofItems arguments.items = arguments := by
  induction arguments using consInduction with
  | empty => rfl
  | ended paths =>
    have hitems : items ⟨[], some paths⟩ = .ofStr ("--" ++ "") :: paths := rfl
    rw [hitems, ofItems, bind_stripDashes_flag]
    rfl
  | cons argument arguments ih =>
    obtain ⟨hfirst, hrest⟩ := fits_cons.1 hfits
    rw [items_cons]
    cases argument with
    | positional path =>
      rw [Argument.items, List.singleton_append, ofItems, bind_stripDashes_of_positional hfirst,
        ih hrest]
    | switch name =>
      obtain ⟨hne, hequals⟩ := plain_switches hfirst
      obtain ⟨c, cs, hname, hback⟩ := exists_letter hne
      rw [Argument.items, List.singleton_append, ofItems, bind_stripDashes_flag, hname]
      rw [hname] at hequals
      simp only [splitOnce_eq_none.2 hequals, hback]
      rw [if_pos (show name ∈ switches from hfirst), ih hrest]
    | separate name value =>
      obtain ⟨hne, hequals, hswitch⟩ := hplain name hfirst.1
      obtain ⟨c, cs, hname, hback⟩ := exists_letter hne
      rw [Argument.items, List.cons_append, List.singleton_append, ofItems, bind_stripDashes_flag,
        hname]
      rw [hname] at hequals
      simp only [splitOnce_eq_none.2 hequals, hback]
      rw [if_neg hswitch, ih hrest]
    | inline name value =>
      obtain ⟨hne, hequals, -⟩ := hplain name hfirst
      have hlist : (name ++ "=" ++ value).toList = name.toList ++ '=' :: value.toList := by simp
      obtain ⟨c, cs, hname, hback⟩ := exists_letter hne
      rw [Argument.items, List.singleton_append, inline_item, ofItems, bind_stripDashes_flag, hlist,
        hname, List.cons_append]
      rw [hname] at hequals
      have hsplit := splitOnce_append_cons hequals value.toList
      rw [List.cons_append] at hsplit
      simp only [hsplit, hback, String.ofList_toList]
      rw [ih hrest]

/-- Two ways to read a line are the same. -/
theorem items_injective {valueFlags : List String} (hplain : Plain valueFlags)
    {arguments arguments' : Arguments} (hfits : arguments.Fits valueFlags)
    (hfits' : arguments'.Fits valueFlags) (h : arguments'.items = arguments.items) :
    arguments' = arguments := by
  rw [← ofItems_items hplain hfits', h, ofItems_items hplain hfits]

end Arguments
end OpdfEditor
