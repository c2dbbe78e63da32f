import OpdfEditor.ArgumentReading
import OpdfEditor.SelectionGrammar

/-!
What a parsed command line says is what its items say, each of them once and wherever
the flags stand; and whatever a subcommand can be asked for, some command line asks it.
-/
namespace OpdfEditor

open CommandLine

/-! ### Help and version -/

def helpItems : List OsString := ["--help", "-h", "--version", "-V"].map .ofStr

theorem OsString.ofStr_inj {text text' : String} : ofStr text = ofStr text' ↔ text = text' := by
  constructor
  · intro h
    have htext := congrArg OsString.toStr h
    rwa [toStr_ofStr, toStr_ofStr, Option.some.injEq] at htext
  · exact congrArg ofStr

theorem findHelpOrVersion_cons {item : OsString} {items : List OsString} :
    findHelpOrVersion (item :: items) = none ↔
      item ∉ helpItems ∧ (item = .ofStr "--" ∨ findHelpOrVersion items = none) := by
  rw [findHelpOrVersion]
  cases htext : item.toStr with
  | none =>
    have hne : ∀ text, item ≠ .ofStr text := by
      rintro text rfl
      rw [OsString.toStr_ofStr] at htext
      cases htext
    simp [helpItems, hne]
  | some text =>
    obtain rfl := OsString.eq_ofStr_of_toStr htext
    simp only [helpItems, List.map_cons, List.map_nil, List.mem_cons, List.not_mem_nil, or_false,
      OsString.ofStr_inj]
    split_ifs with hhelp hversion hend
    · rcases hhelp with rfl | rfl <;> simp
    · rcases hversion with rfl | rfl <;> simp
    · simp [hend]
    · simp [not_or.1 hhelp, not_or.1 hversion, hend]

/-- Up to a `--`, no item may ask for help. -/
theorem findHelpOrVersion_append {items rest : List OsString} (h : .ofStr "--" ∉ items) :
    findHelpOrVersion (items ++ rest) = none ↔
      (∀ item ∈ items, item ∉ helpItems) ∧ findHelpOrVersion rest = none := by
  induction items with
  | nil => simp
  | cons item items ih =>
    rw [List.mem_cons, not_or] at h
    rw [List.cons_append, findHelpOrVersion_cons, or_iff_right (Ne.symm h.1), ih h.2,
      List.forall_mem_cons, and_assoc]

theorem findHelpOrVersion_eq_some {items : List OsString} {invocation : Invocation}
    (h : findHelpOrVersion items = some invocation) :
    invocation = .help ∨ invocation = .version := by
  induction items with
  | nil => cases h
  | cons item items ih =>
    rw [findHelpOrVersion] at h
    split at h
    · exact ih h
    · split_ifs at h
      · exact .inl (Option.some.inj h).symm
      · exact .inr (Option.some.inj h).symm
      · exact ih h

theorem Argument.end_not_mem {valueFlags : List String} (hplain : Plain valueFlags)
    {argument : Argument} (hfits : argument.Fits valueFlags) : .ofStr "--" ∉ argument.items := by
  have hend : startsAFlag (.ofStr "--") = true := startsAFlag_flag ""
  cases argument with
  | positional path =>
    intro hmem
    obtain rfl := List.mem_singleton.1 hmem
    rw [Fits, hend] at hfits
    cases hfits
  | switch name =>
    intro hmem
    exact flag_ne_end (plain_switches hfits).1 (OsString.ofStr_inj.1 (List.mem_singleton.1 hmem)).symm
  | separate name value =>
    obtain ⟨hname, hvalue⟩ := hfits
    intro hmem
    rcases List.mem_cons.1 hmem with heq | hmem
    · exact flag_ne_end (hplain name hname).1 (OsString.ofStr_inj.1 heq).symm
    · obtain rfl := List.mem_singleton.1 hmem
      rw [hend] at hvalue
      cases hvalue
  | inline name value =>
    intro hmem
    have heq := OsString.ofStr_inj.1 (List.mem_singleton.1 hmem)
    rw [inline_item] at heq
    exact flag_ne_end (inline_ne name value) heq.symm

/-- No argument asks for help. -/
def Arguments.Quiet (arguments : Arguments) : Prop :=
  ∀ argument ∈ arguments.given, ∀ item ∈ argument.items, item ∉ helpItems

theorem findHelpOrVersion_items {subcommand : Subcommand} {arguments : Arguments}
    (hfits : arguments.Fits subcommand.valueFlags) :
    findHelpOrVersion (.ofStr subcommand.name :: arguments.items) = none ↔ arguments.Quiet := by
  have hname : OsString.ofStr subcommand.name ∉ helpItems ∧
      OsString.ofStr subcommand.name ≠ .ofStr "--" := by
    simp only [helpItems, List.map_cons, List.map_nil, List.mem_cons, List.not_mem_nil, or_false,
      OsString.ofStr_inj, ne_eq]
    cases subcommand <;> decide
  have hend : findHelpOrVersion (Arguments.endItems arguments.ended) = none := by
    cases arguments.ended with
    | none => rfl
    | some paths =>
      rw [Arguments.endItems, findHelpOrVersion_cons]
      refine ⟨?_, .inl rfl⟩
      simp [helpItems, OsString.ofStr_inj]
  have hinner : .ofStr "--" ∉ arguments.given.flatMap Argument.items := by
    intro hmem
    obtain ⟨argument, hargument, hitem⟩ := List.mem_flatMap.1 hmem
    exact Argument.end_not_mem subcommand.plain (hfits argument hargument) hitem
  rw [findHelpOrVersion_cons, and_iff_right hname.1, or_iff_right hname.2, Arguments.items,
    findHelpOrVersion_append hinner, and_iff_left hend]
  simp only [Arguments.Quiet, List.mem_flatMap, forall_exists_index, and_imp]
  exact ⟨fun h argument hargument item hitem => h item argument hargument hitem,
    fun h item argument hargument hitem => h argument hargument item hitem⟩

/-! ### Whole lines -/

/-- A line whose items are arguments of a subcommand is read as what they ask for, unless one of
them asks for help. -/
theorem parseArgs_iff {subcommand : Subcommand} {arguments : Arguments}
    (hfits : arguments.Fits subcommand.valueFlags) {invocation : Invocation}
    (hhelp : invocation ≠ .help) (hversion : invocation ≠ .version) :
    parseArgs (.ofStr subcommand.name :: arguments.items) = .ok invocation ↔
      arguments.Quiet ∧ Denotes subcommand arguments.positionals arguments.flags invocation := by
  have hquiet := findHelpOrVersion_items hfits
  have hvalued := Arguments.valued subcommand.plain hfits
  unfold parseArgs
  cases hfind : findHelpOrVersion (.ofStr subcommand.name :: arguments.items) with
  | some found =>
    rw [hfind] at hquiet
    constructor
    · intro h
      obtain rfl := Except.ok.inj h
      rcases findHelpOrVersion_eq_some hfind with rfl | rfl
      · exact absurd rfl hhelp
      · exact absurd rfl hversion
    · rintro ⟨h, -⟩
      cases hquiet.2 h
  | none =>
    rw [and_iff_right (hquiet.1 hfind)]
    simp only [OsString.toStr_ofStr, Subcommand.ofName_name]
    constructor
    · intro h
      obtain ⟨line, hscan, h⟩ := bind_eq_ok.1 h
      obtain ⟨⟨found, left⟩, hinterpret, h⟩ := bind_eq_ok.1 h
      obtain ⟨_, hreject, h⟩ := bind_eq_ok.1 h
      cases h
      obtain rfl : left = ⟨[], []⟩ := rejectLeftovers_ok.1 hreject
      have hnodup : (arguments.flags.map Prod.fst).Nodup :=
        nodup_of_scan subcommand.plain hfits (by simp) hscan
      have hseparated : scan subcommand.valueFlags subcommand.name arguments.items ⟨[], []⟩ =
          .ok ⟨arguments.positionals, arguments.flags⟩ := scan_items subcommand.plain hfits hnodup
      obtain rfl := Except.ok.inj (hseparated.symm.trans hscan)
      exact (Subcommand.interpret_iff hnodup hvalued).1 hinterpret
    · intro h
      have hscan : scan subcommand.valueFlags subcommand.name arguments.items ⟨[], []⟩ =
          .ok ⟨arguments.positionals, arguments.flags⟩ := scan_items subcommand.plain hfits h.nodup
      have hinterpret : subcommand.interpret ⟨arguments.positionals, arguments.flags⟩ =
          .ok (invocation, ⟨[], []⟩) := (Subcommand.interpret_iff h.nodup hvalued).2 h
      rw [hscan, ok_bind, hinterpret]
      rfl

/-- A line that asks a subcommand for something is made up of arguments that it takes. -/
theorem exists_of_parseArgs {items : List OsString} {invocation : Invocation}
    (h : parseArgs items = .ok invocation) (hhelp : invocation ≠ .help)
    (hversion : invocation ≠ .version) : ∃ (subcommand : Subcommand) (arguments : Arguments),
      arguments.Fits subcommand.valueFlags ∧
      items = .ofStr subcommand.name :: arguments.items := by
  unfold parseArgs at h
  split at h
  · rename_i found hfind
    cases h
    rcases findHelpOrVersion_eq_some hfind with rfl | rfl
    · exact absurd rfl hhelp
    · exact absurd rfl hversion
  split at h
  · cases h
  split at h
  · cases h
  rename_i given htext
  split at h
  · cases h
  rename_i subcommand hname
  obtain ⟨line, hscan, -⟩ := bind_eq_ok.1 h
  obtain ⟨arguments, hfits, rfl⟩ := exists_of_scan subcommand.plain hscan
  refine ⟨subcommand, arguments, hfits, ?_⟩
  rw [OsString.eq_ofStr_of_toStr htext, Subcommand.eq_name_of_ofName hname]

theorem Arguments.Reordered.quiet {arguments arguments' : Arguments}
    (h : Reordered arguments arguments') (hquiet : arguments.Quiet) : arguments'.Quiet :=
  fun argument hargument => hquiet argument (h.perm.mem_iff.1 hargument)

/-! ### Spelling a request -/

theorem le_boundedDigits {limit : Nat} {digits : List Char} {value n : Nat}
    (h : digits.foldl (fun value digit => value * 10 + digitValue digit) value = n)
    (hn : n ≤ limit) : boundedDigits limit digits value = some n := by
  induction digits generalizing value with
  | nil =>
    rw [← h]
    rfl
  | cons digit digits ih =>
    have hgrows := le_foldl_digits digits (value * 10 + digitValue digit)
    rw [List.foldl_cons] at h
    rw [boundedDigits, if_neg (by omega)]
    exact ih h

/-- Every number is written by some digits. -/
theorem exists_digits (n : Nat) : ∃ digits : List Char, digits ≠ [] ∧
    (∀ digit ∈ digits, isAsciiDigit digit = true) ∧ decimalValue digits = n := by
  induction n using Nat.strong_induction_on with
  | _ n ih =>
    have hdigit : ∀ k < 10, isAsciiDigit (Char.ofNat (48 + k)) = true ∧
        digitValue (Char.ofNat (48 + k)) = k := by decide
    obtain ⟨hlast, hvalue⟩ := hdigit (n % 10) (Nat.mod_lt n (by decide))
    by_cases hsmall : n < 10
    · refine ⟨[Char.ofNat (48 + n % 10)], by simp, by simpa using hlast, ?_⟩
      rw [decimalValue, List.foldl_cons, List.foldl_nil, hvalue]
      omega
    · obtain ⟨digits, -, hdigits, hrest⟩ := ih (n / 10) (by omega)
      refine ⟨digits ++ [Char.ofNat (48 + n % 10)], by simp, ?_, ?_⟩
      · intro digit hmem
        rcases List.mem_append.1 hmem with hmem | hmem
        · exact hdigits digit hmem
        · rw [List.mem_singleton.1 hmem]
          exact hlast
      · rw [decimalValue, List.foldl_append, ← decimalValue, hrest, List.foldl_cons,
          List.foldl_nil, hvalue]
        omega

theorem exists_pageNumber {n : Nat} (hn : 1 ≤ n) (hfits : n ≤ usizeMax) :
    ∃ text : String, readPageNumber (.ofStr text) = .ok n := by
  obtain ⟨digits, hne, hdigits, hvalue⟩ := exists_digits n
  refine ⟨String.ofList digits, ?_⟩
  have hform : (digits.isEmpty || !digits.all isAsciiDigit) = false := by
    rw [Bool.or_eq_false_iff, List.isEmpty_eq_false_iff, Bool.not_eq_false', List.all_eq_true]
    exact ⟨hne, hdigits⟩
  have hmagnitude : parseMagnitude usizeMax digits = some n := by
    rw [parseMagnitude, hform]
    exact le_boundedDigits hvalue hfits
  have hparse : parseUsize digits = some n := by
    unfold parseUsize
    split
    · have hplus := hdigits '+' List.mem_cons_self
      cases hplus
    · exact hmagnitude
  have hzero : n ≠ 0 := by omega
  simp [readPageNumber, readText, ok_bind, hparse, hzero]

theorem readSelection_of_parse {text : List Char} {pages : PageSelection}
    (h : PageSelection.parse text = .ok pages) :
    readSelection (.ofStr (String.ofList text)) = .ok pages := by
  simp [readSelection, readText, ok_bind, h, Except.mapError]

def rotationText : Rotation → String
  | .none => "0"
  | .quarter => "90"
  | .half => "180"
  | .threeQuarter => "270"

theorem readRotation_text (rotation : Rotation) :
    readRotation (.ofStr (rotationText rotation)) = .ok rotation := by
  simp only [readRotation, readText, OsString.toStr_ofStr, ok_bind]
  cases rotation <;> rfl

/-- A path as the value of a flag: in the item of the flag where it is text, else behind it. -/
def pathArgument (name : String) (path : OsString) : Argument :=
  match path.toStr with
  | some text => .inline name text
  | none => .separate name path

theorem flag_inline (name value : String) :
    (Argument.inline name value).flag? = some (name, some (.ofStr value)) := rfl

theorem flag_pathArgument (name : String) (path : OsString) :
    (pathArgument name path).flag? = some (name, some path) := by
  unfold pathArgument
  cases htext : path.toStr with
  | none => rfl
  | some text =>
    rw [OsString.eq_ofStr_of_toStr htext]
    rfl

/-- A flag that a subcommand takes, and that asks for no help. -/
structure TakesFlag (subcommand : Subcommand) (argument : Argument) : Prop where
  path : argument.path? = none
  fits : argument.Fits subcommand.valueFlags
  quiet : ∀ item ∈ argument.items, item ∉ helpItems

/-- An item that is no request for help is told from them by the characters in it. -/
theorem not_mem_helpItems {text : String}
    (h : text.toList ∉ ["--help".toList, "-h".toList, "--version".toList, "-V".toList]) :
    .ofStr text ∉ helpItems := by
  intro hmem
  obtain ⟨help, hhelp, heq⟩ := List.mem_map.1 hmem
  rw [OsString.ofStr_inj.1 heq] at hhelp
  exact h (List.mem_map_of_mem (f := String.toList) hhelp)

theorem flag_not_mem_helpItems {subcommand : Subcommand} {name : String}
    (h : name ∈ subcommand.valueFlags) : .ofStr ("--" ++ name) ∉ helpItems := by
  refine not_mem_helpItems ?_
  revert name
  cases subcommand <;> decide

theorem takesFlag_inline {subcommand : Subcommand} {name : String}
    (h : name ∈ subcommand.valueFlags) (value : String) :
    TakesFlag subcommand (.inline name value) where
  path := rfl
  fits := h
  quiet item hitem := by
    rw [List.mem_singleton.1 hitem]
    refine not_mem_helpItems fun hmem => ?_
    have hequals : '=' ∈ ("--" ++ name ++ "=" ++ value).toList := by simp
    simp only [List.mem_cons, List.not_mem_nil, or_false] at hmem
    rcases hmem with heq | heq | heq | heq
    all_goals
      rw [heq] at hequals
      revert hequals
      decide

theorem takesFlag_path {subcommand : Subcommand} {name : String}
    (h : name ∈ subcommand.valueFlags) (path : OsString) :
    TakesFlag subcommand (pathArgument name path) := by
  unfold pathArgument
  cases htext : path.toStr with
  | some text => exact takesFlag_inline h text
  | none =>
    refine ⟨rfl, ⟨h, by rw [startsAFlag, htext]⟩, fun item hitem => ?_⟩
    rcases List.mem_cons.1 hitem with rfl | hitem
    · exact flag_not_mem_helpItems h
    · rw [List.mem_singleton.1 hitem]
      intro hmem
      obtain ⟨help, -, rfl⟩ := List.mem_map.1 hmem
      rw [OsString.toStr_ofStr] at htext
      cases htext

def forceArgument : Bool → List Argument
  | true => [.switch "force"]
  | false => []

theorem takesFlag_force (subcommand : Subcommand) {force : Bool} :
    ∀ argument ∈ forceArgument force, TakesFlag subcommand argument := by
  intro argument hargument
  cases force with
  | false => cases hargument
  | true =>
    obtain rfl := List.mem_singleton.1 hargument
    refine ⟨rfl, List.mem_singleton_self _, fun item hitem => ?_⟩
    rw [List.mem_singleton.1 hitem]
    exact not_mem_helpItems (by decide)

/-- Flags in front and every path behind a `--` ask for what they denote. -/
theorem exists_line {subcommand : Subcommand} (given : List Argument)
    (hgiven : ∀ argument ∈ given, TakesFlag subcommand argument) (force : Bool)
    {paths : List OsString} {invocation : Invocation}
    (h : Denotes subcommand paths (forceFlag force ++ given.filterMap Argument.flag?) invocation) :
    ∃ items, parseArgs items = .ok invocation := by
  let arguments : Arguments := ⟨forceArgument force ++ given, some paths⟩
  have htakes : ∀ argument ∈ arguments.given, TakesFlag subcommand argument := by
    intro argument hargument
    rcases List.mem_append.1 hargument with hforce | hgiven'
    · exact takesFlag_force subcommand argument hforce
    · exact hgiven argument hgiven'
  have hpositionals : arguments.positionals = paths := by
    have hnone : arguments.given.filterMap Argument.path? = [] :=
      List.filterMap_eq_nil_iff.2 fun argument hargument => (htakes argument hargument).path
    rw [Arguments.positionals, hnone]
    rfl
  have hflags : arguments.flags = forceFlag force ++ given.filterMap Argument.flag? := by
    rw [Arguments.flags, List.filterMap_append]
    cases force <;> rfl
  have hfits : arguments.Fits subcommand.valueFlags :=
    fun argument hargument => (htakes argument hargument).fits
  have hquiet : arguments.Quiet := fun argument hargument => (htakes argument hargument).quiet
  have hhelp : invocation ≠ .help := by
    rintro rfl
    cases h
  have hversion : invocation ≠ .version := by
    rintro rfl
    cases h
  rw [← hpositionals, ← hflags] at h
  exact ⟨_, (parseArgs_iff hfits hhelp hversion).2 ⟨hquiet, h⟩⟩

/-- What a subcommand can be asked for: inputs to merge, a page number that a machine word holds,
and pages that some text selects. -/
def Invocation.Expressible : Invocation → Prop
  | .help | .version => False
  | .merge args => args.inputPaths ≠ []
  | .split args => 1 ≤ args.atPage ∧ args.atPage ≤ usizeMax
  | .rotate args => ∃ text, PageSelection.parse text = .ok args.pages
  | .extract args => ∃ text, PageSelection.parse text = .ok args.pages

def outArgument : Option OsString → List Argument
  | some path => [pathArgument "out" path]
  | none => []

theorem flags_outArgument (output : Option OsString) :
    (outArgument output).filterMap Argument.flag? = outFlag output := by
  cases output with
  | none => rfl
  | some path => rw [outArgument, List.filterMap_cons_some (flag_pathArgument "out" path)]; rfl

theorem takesFlag_out {output : Option OsString} :
    ∀ argument ∈ outArgument output, TakesFlag .rotate argument := by
  intro argument hargument
  cases output with
  | none => cases hargument
  | some path =>
    rw [List.mem_singleton.1 hargument]
    exact takesFlag_path (by decide) path

/-- Whatever can be asked for, some line asks for it. -/
theorem exists_spelling {invocation : Invocation} (h : invocation.Expressible) :
    ∃ items, parseArgs items = .ok invocation := by
  cases invocation with
  | help => exact h.elim
  | version => exact h.elim
  | merge args =>
    refine exists_line [] (by simp) args.force (Denotes.merge h ?_)
    rw [List.filterMap_nil, List.append_nil]
  | split args =>
    obtain ⟨text, hnumber⟩ := exists_pageNumber h.1 h.2
    refine exists_line [.inline "at" text, pathArgument "out-a" args.outAPath,
      pathArgument "out-b" args.outBPath] ?_ args.force (Denotes.split hnumber ?_)
    · simp only [List.forall_mem_cons, List.not_mem_nil, false_imp_iff, implies_true, and_true]
      exact ⟨takesFlag_inline (by decide) text, takesFlag_path (by decide) _,
        takesFlag_path (by decide) _⟩
    · simp [flag_inline, flag_pathArgument]
  | rotate args =>
    obtain ⟨text, hparse⟩ := h
    refine exists_line (.inline "pages" (String.ofList text) ::
      .inline "degrees" (rotationText args.rotation) :: outArgument args.outputPath) ?_ args.force
      (Denotes.rotate (readSelection_of_parse hparse) (readRotation_text args.rotation) ?_)
    · rw [List.forall_mem_cons, List.forall_mem_cons]
      exact ⟨takesFlag_inline (by decide) _, takesFlag_inline (by decide) _, takesFlag_out⟩
    · simp [flag_inline, flags_outArgument]
  | extract args =>
    obtain ⟨text, hparse⟩ := h
    refine exists_line [.inline "pages" (String.ofList text), pathArgument "out" args.outputPath]
      ?_ args.force (Denotes.extract (readSelection_of_parse hparse) ?_)
    · simp only [List.forall_mem_cons, List.not_mem_nil, false_imp_iff, implies_true, and_true]
      exact ⟨takesFlag_inline (by decide) _, takesFlag_path (by decide) _⟩
    · simp [flag_inline, flag_pathArgument]

/-- Every item of a line that is parsed says one thing, all of it is in what the line asks for, and
flags may stand anywhere before a `--`. Whatever a subcommand can be asked for, some line asks it. -/
theorem command_lines_say_what_they_ask :
    (∀ items invocation, parseArgs items = .ok invocation → invocation ≠ .help →
      invocation ≠ .version → ∃ (subcommand : Subcommand) (arguments : Arguments),
        items = .ofStr subcommand.name :: arguments.items ∧
        arguments.Fits subcommand.valueFlags ∧
        (∀ other : Arguments, other.Fits subcommand.valueFlags →
          other.items = arguments.items → other = arguments) ∧
        Denotes subcommand arguments.positionals arguments.flags invocation ∧
        ∀ arguments', arguments.Reordered arguments' →
          parseArgs (.ofStr subcommand.name :: arguments'.items) = .ok invocation) ∧
    ∀ invocation : Invocation, invocation.Expressible →
      ∃ items, parseArgs items = .ok invocation := by
  refine ⟨fun items invocation h hhelp hversion => ?_, fun invocation => exists_spelling⟩
  obtain ⟨subcommand, arguments, hfits, rfl⟩ := exists_of_parseArgs h hhelp hversion
  obtain ⟨hquiet, hdenotes⟩ := (parseArgs_iff hfits hhelp hversion).1 h
  refine ⟨subcommand, arguments, rfl, hfits, fun other hother hitems =>
    Arguments.items_injective subcommand.plain hfits hother hitems, hdenotes, fun arguments' hreordered => ?_⟩
  refine (parseArgs_iff (hreordered.fits hfits) hhelp hversion).2 ⟨hreordered.quiet hquiet, ?_⟩
  rw [hreordered.positionals]
  exact hdenotes.of_perm hreordered.flags

/-- Paths named `--help`, with dashes in front of bytes that are no text, and with one dash. -/
theorem dashed_paths_can_be_asked_for : ∃ items invocation,
    invocation = .split ⟨.ofStr "--help", 4, ⟨⟨#[0x2D, 0x2D, 0xFF]⟩⟩, .ofStr "-b.pdf", true⟩ ∧
    parseArgs items = .ok invocation ∧ ∃ (subcommand : Subcommand) (arguments : Arguments),
      items = .ofStr subcommand.name :: arguments.items ∧
      Denotes subcommand arguments.positionals arguments.flags invocation := by
  obtain ⟨items, h⟩ := command_lines_say_what_they_ask.2
    (.split ⟨.ofStr "--help", 4, ⟨⟨#[0x2D, 0x2D, 0xFF]⟩⟩, .ofStr "-b.pdf", true⟩)
    ⟨by decide, by decide⟩
  obtain ⟨subcommand, arguments, hitems, -, -, hdenotes, -⟩ :=
    command_lines_say_what_they_ask.1 items _ h (by simp) (by simp)
  exact ⟨items, _, rfl, h, subcommand, arguments, hitems, hdenotes⟩

end OpdfEditor
