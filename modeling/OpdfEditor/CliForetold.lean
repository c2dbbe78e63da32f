import OpdfEditor.CliSuccess
import OpdfEditor.InvocationSpelling

/-!
A session told in advance. Where nothing outside fails, the command lines alone, carried out over
a catalogue of which pages every file holds, tell which of them succeed and what is read after them.
-/
namespace OpdfEditor

/-! ### Command lines over a catalogue -/

namespace Catalogue

def clear (fileOf : OsString → Nat) (c : Catalogue) (force : Bool) (path : OsString) : Bool :=
  force || (c (fileOf path)).isNone

def resolves (fileOf : OsString → Nat) (c : Catalogue) (path : OsString)
    (selection : PageSelection) : Bool :=
  (c (fileOf path)).any fun pages => (selection.resolved pages.length).toOption.isSome

/-- Whether a command line goes through. -/
def admits (fileOf : OsString → Nat) (c : Catalogue) : Invocation → Bool
  | .help | .version => true
  | .merge args =>
    c.clear fileOf args.force args.outputPath &&
      args.inputPaths.all fun path => (c (fileOf path)).isSome
  | .split args =>
    !args.outAPath.samePath args.outBPath && c.clear fileOf args.force args.outAPath &&
      c.clear fileOf args.force args.outBPath &&
      (c (fileOf args.inputPath)).any fun pages => 2 ≤ args.atPage && args.atPage ≤ pages.length
  | .rotate args =>
    (args.outputPath.isNone || c.clear fileOf args.force args.output) &&
      c.resolves fileOf args.inputPath args.pages
  | .extract args =>
    c.clear fileOf args.force args.outputPath && c.resolves fileOf args.inputPath args.pages

def foretell (fileOf : OsString → Nat) (c : Catalogue) (items : List OsString) : Bool × Catalogue :=
  match parseArgs items with
  | .error _ => (false, c)
  | .ok invocation =>
    if c.admits fileOf invocation then
      (true, c.after fileOf (invocation.writes fileOf c) (.ok ()))
    else (false, c)

theorem foretell_admitted {fileOf : OsString → Nat} {c : Catalogue} {items : List OsString}
    {invocation : Invocation} (hparse : parseArgs items = .ok invocation)
    (h : c.admits fileOf invocation = true) :
    c.foretell fileOf items = (true, c.after fileOf (invocation.writes fileOf c) (.ok ())) := by
  unfold foretell
  rw [hparse]
  exact if_pos h

def foretold (fileOf : OsString → Nat) : List (List OsString) → Catalogue → List Bool × Catalogue
  | [], c => ([], c)
  | items :: lines, c =>
    let (succeeds, c) := c.foretell fileOf items
    let (rest, c) := foretold fileOf lines c
    (succeeds :: rest, c)

/-- The catalogue knows every file there is. -/
structure Tells (c : Catalogue) (fs : FileSystem) : Prop where
  describes : c.Describes fs
  complete : ∀ file, c file = none → fs.files file = none

variable {fileOf : OsString → Nat} {c : Catalogue} {fs : FileSystem}

/-- A file of which nothing is known after runs that all succeeded was none of their outputs. -/
theorem after_eq_none {writes : List (OsString × Option (List (PageSize × Rotation)))}
    (hknown : ∀ write ∈ writes, write.2.isSome) {file : Nat}
    (h : c.after fileOf writes (.ok ()) file = none) :
    c file = none ∧ ∀ write ∈ writes, file ≠ fileOf write.1 := by
  induction writes generalizing c with
  | nil => exact ⟨h, List.forall_mem_nil _⟩
  | cons write writes ih =>
    obtain ⟨hfirst, hrest⟩ := List.forall_mem_cons.1 hknown
    obtain ⟨hnone, hothers⟩ := ih hrest h
    have hne : file ≠ fileOf write.1 := by
      rintro rfl
      rw [Function.update_self] at hnone
      rw [hnone] at hfirst
      cases hfirst
    rw [Function.update_of_ne hne] at hnone
    exact ⟨hnone, List.forall_mem_cons.2 ⟨hne, hothers⟩⟩

theorem together_isSome {paths : List OsString} :
    (c.together fileOf paths).isSome ↔ ∀ path ∈ paths, (c (fileOf path)).isSome := by
  unfold together
  rw [Option.isSome_map]
  induction paths with
  | nil => simp
  | cons path paths ih =>
    rw [List.mapM_cons, List.forall_mem_cons, ← ih]
    cases c (fileOf path) with
    | none => simp
    | some first => cases paths.mapM fun path => c (fileOf path) <;> simp

/-- What goes through is known of every output. -/
theorem writes_known {invocation : Invocation} (h : c.admits fileOf invocation = true) :
    ∀ write ∈ invocation.writes fileOf c, write.2.isSome := by
  cases invocation with
  | help => exact List.forall_mem_nil _
  | version => exact List.forall_mem_nil _
  | merge args =>
    obtain ⟨-, hinputs⟩ := Bool.and_eq_true_iff.1 h
    exact List.forall_mem_singleton.2 (together_isSome.2 (List.all_eq_true.1 hinputs))
  | split args =>
    obtain ⟨-, hinput⟩ := Bool.and_eq_true_iff.1 h
    obtain ⟨pages, hpages, -⟩ := (Option.any_eq_true _ _).1 hinput
    refine List.forall_mem_cons.2 ⟨?_, List.forall_mem_singleton.2 ?_⟩ <;>
    · dsimp only
      rw [hpages]
      rfl
  | rotate args =>
    obtain ⟨-, hinput⟩ := Bool.and_eq_true_iff.1 h
    obtain ⟨pages, hpages, hresolves⟩ := (Option.any_eq_true _ _).1 hinput
    refine List.forall_mem_singleton.2 ?_
    dsimp only
    rw [hpages, Option.bind_some, Option.isSome_map]
    exact hresolves
  | extract args =>
    obtain ⟨-, hinput⟩ := Bool.and_eq_true_iff.1 h
    obtain ⟨pages, hpages, hresolves⟩ := (Option.any_eq_true _ _).1 hinput
    refine List.forall_mem_singleton.2 ?_
    dsimp only
    rw [hpages, Option.bind_some, Option.isSome_map]
    exact hresolves

/-! ### One command line -/

theorem Tells.none_iff (ht : c.Tells fs) {path : OsString} :
    c (fs.fileOf path) = none ↔ fs.contents path = none := by
  refine ⟨ht.complete _, fun hnone => ?_⟩
  cases hc : c (fs.fileOf path) with
  | none => rfl
  | some pages =>
    obtain ⟨bytes, hbytes, -⟩ := ht.describes _ _ hc
    exact nomatch hnone.symm.trans hbytes

theorem Tells.clear_iff (ht : c.Tells fs) {force : Bool} {path : OsString} :
    c.clear fs.fileOf force path = true ↔ Clear fs force path := by
  rw [clear, Bool.or_eq_true, Option.isNone_iff_eq_none, ht.none_iff]
  rfl

theorem resolves_iff {path : OsString} {selection : PageSelection} :
    c.resolves fs.fileOf path selection = true ↔ Resolves c fs path selection := by
  rw [resolves, Option.any_eq_true]
  simp only [Option.isSome_iff_exists, toOption_eq_some]
  exact ⟨fun ⟨pages, hpages, indices, h⟩ => ⟨pages, indices, hpages, h⟩,
    fun ⟨pages, indices, hpages, h⟩ => ⟨pages, hpages, indices, h⟩⟩

/-- A command line goes through exactly where its inputs are known and it may be carried out. -/
theorem Tells.admits_iff (ht : c.Tells fs) {invocation : Invocation}
    (hsome : ∀ args, invocation = .merge args → args.inputPaths ≠ []) :
    c.admits fs.fileOf invocation = true ↔
      (∀ path ∈ invocation.inputs, ∃ pages, c (fs.fileOf path) = some pages) ∧
        invocation.Admissible c fs := by
  cases invocation with
  | help => exact iff_of_true rfl ⟨List.forall_mem_nil _, trivial⟩
  | version => exact iff_of_true rfl ⟨List.forall_mem_nil _, trivial⟩
  | merge args =>
    simp only [admits, Bool.and_eq_true, ht.clear_iff, List.all_eq_true, Option.isSome_iff_exists,
      Invocation.inputs, Invocation.Admissible]
    constructor
    · rintro ⟨hclear, hinputs⟩
      exact ⟨hinputs, hclear, hsome args rfl⟩
    · rintro ⟨hinputs, hclear, -⟩
      exact ⟨hclear, hinputs⟩
  | split args =>
    simp only [admits, Bool.and_eq_true, Bool.not_eq_true', ht.clear_iff, Option.any_eq_true,
      decide_eq_true_eq, Invocation.inputs, Invocation.Admissible, List.forall_mem_singleton]
    constructor
    · rintro ⟨⟨⟨hapart, hclearA⟩, hclearB⟩, pages, hpages, hbounds⟩
      exact ⟨⟨pages, hpages⟩, hapart, hclearA, hclearB, pages, hpages, hbounds⟩
    · rintro ⟨-, hapart, hclearA, hclearB, pages, hpages, hbounds⟩
      exact ⟨⟨⟨hapart, hclearA⟩, hclearB⟩, pages, hpages, hbounds⟩
  | rotate args =>
    simp only [admits, Bool.and_eq_true, Bool.or_eq_true, ht.clear_iff, resolves_iff,
      Invocation.inputs, Invocation.Admissible, List.forall_mem_singleton]
    have hout : args.outputPath.isNone = true ∨ Clear fs args.force args.output ↔
        (args.outputPath.isSome = true → Clear fs args.force args.output) := by
      cases args.outputPath <;> simp
    rw [hout]
    exact ⟨fun h => ⟨h.2.known, h⟩, And.right⟩
  | extract args =>
    simp only [admits, Bool.and_eq_true, ht.clear_iff, resolves_iff, Invocation.inputs,
      Invocation.Admissible, List.forall_mem_singleton]
    exact ⟨fun h => ⟨h.2.known, h⟩, And.right⟩

end Catalogue

theorem Denotes.inputs_ne_nil {subcommand : Subcommand} {positionals : List OsString}
    {flags : List (String × Option OsString)} {args : MergeArgs}
    (h : Denotes subcommand positionals flags (.merge args)) : args.inputPaths ≠ [] := by
  cases h with
  | merge hsome _ => exact hsome

/-- A merge that was read names an input. -/
theorem inputs_of_parseArgs {items : List OsString} {args : MergeArgs}
    (h : parseArgs items = .ok (.merge args)) : args.inputPaths ≠ [] := by
  have hhelp : Invocation.merge args ≠ .help := nofun
  have hversion : Invocation.merge args ≠ .version := nofun
  obtain ⟨subcommand, arguments, hfits, rfl⟩ := exists_of_parseArgs h hhelp hversion
  exact ((parseArgs_iff hfits hhelp hversion).1 h).2.inputs_ne_nil

/-! ### Rotations in place -/

/-- Pages after rotations one after the other, each turned as the last that names it says. -/
def Catalogue.settled (turns : List RotateArgs) (pages : List (PageSize × Rotation)) :
    List (PageSize × Rotation) :=
  pages.mapIdx fun i look => (look.1, turns.foldl (fun rotation args =>
    if i ∈ (args.pages.resolved pages.length).toOption.getD [] then args.rotation else rotation) look.2)

theorem Catalogue.settled_nil (pages : List (PageSize × Rotation)) :
    Catalogue.settled [] pages = pages := by
  refine List.ext_getElem List.length_mapIdx fun i _ _ => ?_
  simp only [Catalogue.settled, List.getElem_mapIdx, List.foldl_nil]

theorem Catalogue.settled_cons {args : RotateArgs} {turns : List RotateArgs}
    {pages : List (PageSize × Rotation)} {indices : List Nat}
    (h : args.pages.resolved pages.length = .ok indices) : Catalogue.settled (args :: turns) pages =
      Catalogue.settled turns (Catalogue.turned indices args.rotation pages) := by
  have hlength : (Catalogue.turned indices args.rotation pages).length = pages.length :=
    List.length_mapIdx
  refine List.ext_getElem (by simp [Catalogue.settled, hlength]) fun i _ _ => ?_
  simp only [Catalogue.settled, Catalogue.turned, List.getElem_mapIdx, List.foldl_cons,
    List.length_mapIdx, h, Except.toOption, Option.getD_some]
  split <;> rfl

/-- What rotations in place are told to come to. -/
theorem foretold_turns {fileOf : OsString → Nat} {path : OsString} {turns : List (Process × RotateArgs)}
    (hparse : ∀ turn ∈ turns, parseArgs turn.1.items = .ok (.rotate turn.2))
    (hplace : ∀ turn ∈ turns, turn.2.inputPath = path ∧ turn.2.outputPath = none) {c : Catalogue}
    {pages : List (PageSize × Rotation)} (hknown : c (fileOf path) = some pages)
    (hresolves : ∀ turn ∈ turns, ∃ indices, turn.2.pages.resolved pages.length = .ok indices) :
    c.foretold fileOf (turns.map fun turn => turn.1.items) = (List.replicate turns.length true,
      Function.update c (fileOf path) (some (Catalogue.settled (turns.map Prod.snd) pages))) := by
  induction turns generalizing c pages with
  | nil =>
    rw [List.map_nil, List.map_nil, Catalogue.settled_nil, ← hknown, Function.update_eq_self]
    rfl
  | cons turn turns ih =>
    obtain ⟨hfirst, hparse⟩ := List.forall_mem_cons.1 hparse
    obtain ⟨⟨hinput, hnone⟩, hplace⟩ := List.forall_mem_cons.1 hplace
    obtain ⟨⟨indices, hindices⟩, hresolves⟩ := List.forall_mem_cons.1 hresolves
    have hadmits : c.admits fileOf (.rotate turn.2) = true := by
      simp [Catalogue.admits, Catalogue.resolves, hnone, hinput, hknown, hindices, Except.toOption]
    have hturned : c.foretell fileOf turn.1.items =
        (true, Function.update c (fileOf path) (some (Catalogue.turned indices turn.2.rotation pages))) := by
      rw [Catalogue.foretell_admitted hfirst hadmits, Invocation.writes, RotateArgs.output, hinput,
        hnone, hknown]
      simp [Catalogue.after, hindices, Except.toOption]
    have hlength : (Catalogue.turned indices turn.2.rotation pages).length = pages.length :=
      List.length_mapIdx
    have hrest := ih hparse hplace (Function.update_self (fileOf path)
      (some (Catalogue.turned indices turn.2.rotation pages)) c) (by rwa [hlength])
    rw [List.map_cons, Catalogue.foretold, hturned]
    dsimp only
    rw [hrest, Function.update_idem, List.map_cons, Catalogue.settled_cons hindices]
    rfl

/-! ### What a run comes to -/

section Runs

variable [Lopdf] [LawfulLopdf] {c : Catalogue} {fs : FileSystem} {env : RunEnv}

namespace Catalogue

/-- What opens is known, with as many pages. -/
theorem Tells.known (ht : c.Tells fs) {path : OsString} {id : DocumentId} {d : PdfDocument}
    (hopen : fs.openPdf id path = .ok d) :
    ∃ pages, c (fs.fileOf path) = some pages ∧ Document.pageCount d = pages.length := by
  cases hc : c (fs.fileOf path) with
  | none =>
    rw [FileSystem.openPdf, ht.none_iff.1 hc] at hopen
    cases hopen
  | some pages =>
    obtain ⟨-, rfl⟩ := ht.describes.opened hopen hc
    exact ⟨_, rfl, (PdfDocument.length_looks d).symm⟩

omit [Lopdf] [LawfulLopdf] in
theorem made_unless_refused {save : PdfDocument → FileSystem → Except CliError Unit × FileSystem}
    {made : Except CliError PdfDocument} (path : OsString) (hunsaved : Unsaved made)
    (hsave : ∀ d, SavesInTurn [(path, fun _ => True)] fs (save d fs)) :
    Refused fs (saveMade save made fs) ∨ ∃ d, made = .ok d :=
  (saveMade_comes hunsaved fun d _ => hsave d).imp_right And.left

/-- A run is refused, or was rightly asked for. -/
theorem Tells.run_comes (ht : c.Tells fs) (env : RunEnv) {invocation : Invocation}
    (hsome : ∀ args, invocation = .merge args → args.inputPaths ≠ []) :
    Refused fs (invocation.run env fs) ∨ c.admits fs.fileOf invocation = true := by
  rw [ht.admits_iff hsome]
  cases invocation with
  | help => exact .inr ⟨List.forall_mem_nil _, trivial⟩
  | version => exact .inr ⟨List.forall_mem_nil _, trivial⟩
  | merge args =>
    refine (made_unless_refused args.outputPath (unsaved_mergedDocument env args fs) fun d =>
      saveCompactedTo_inTurn fun _ _ _ _ _ => trivial).imp_right fun ⟨d, hmade⟩ => ?_
    obtain ⟨hclear, hopens⟩ := merge_admitted hmade
    refine ⟨fun path hpath => ?_, hclear, hsome args rfl⟩
    obtain ⟨id, d, hopen⟩ := hopens path hpath
    exact (ht.known hopen).imp fun _ h => h.1
  | split args =>
    refine (runSplit_comes env.split args fs).imp_right fun ⟨head, tail, hmade⟩ => ?_
    obtain ⟨hapart, hclearA, hclearB, opened, hopen, hlow, hhigh⟩ := split_admitted hmade
    obtain ⟨pages, hpages, hcount⟩ := ht.known hopen
    refine ⟨List.forall_mem_singleton.2 ⟨pages, hpages⟩, hapart, hclearA, hclearB, pages, hpages, hlow, ?_⟩
    rw [← hcount]
    exact hhigh
  | rotate args =>
    refine (made_unless_refused args.output (unsaved_rotatedDocument env args fs) fun d =>
      saveIncrementalTo_inTurn fun _ _ _ => trivial).imp_right fun ⟨d, hmade⟩ => ?_
    obtain ⟨hclear, opened, hopen, indices, hindices⟩ := rotate_admitted hmade
    obtain ⟨pages, hpages, hcount⟩ := ht.known hopen
    rw [hcount] at hindices
    exact ⟨List.forall_mem_singleton.2 ⟨pages, hpages⟩, hclear, pages, indices, hpages, hindices⟩
  | extract args =>
    refine (made_unless_refused args.outputPath (unsaved_extractedDocument env args fs) fun d =>
      saveCompactedTo_inTurn fun _ _ _ _ _ => trivial).imp_right fun ⟨d, hmade⟩ => ?_
    obtain ⟨hclear, opened, hopen, indices, hindices⟩ := extract_admitted hmade
    obtain ⟨pages, hpages, hcount⟩ := ht.known hopen
    rw [hcount] at hindices
    exact ⟨List.forall_mem_singleton.2 ⟨pages, hpages⟩, hclear, pages, indices, hpages, hindices⟩

/-- A command line comes out as it was told, and leaves what it was told to. -/
theorem Tells.step (ht : c.Tells fs) {items : List OsString}
    (henv : ∀ invocation, parseArgs items = .ok invocation → env.Obliging invocation fs) :
    ((runOpdfCli env items fs).1.exitCode = 0 ↔ (c.foretell fs.fileOf items).1 = true) ∧
      (c.foretell fs.fileOf items).2.Tells (runOpdfCli env items fs).2 := by
  have hdescribes := carryOut_describes (fun invocation hparse => (henv invocation hparse).sound)
    ht.describes
  rw [runOpdfCli, Report.of_exitCode]
  unfold foretell
  unfold Catalogue.step at hdescribes
  unfold carryOut at hdescribes ⊢
  cases hparse : parseArgs items with
  | error e => exact ⟨iff_of_false nofun nofun, ht⟩
  | ok invocation =>
    have hsome : ∀ args, invocation = .merge args → args.inputPaths ≠ [] := fun args h =>
      inputs_of_parseArgs (h ▸ hparse)
    rw [hparse] at hdescribes
    dsimp only at hdescribes ⊢
    by_cases hadmits : c.admits fs.fileOf invocation = true
    · obtain ⟨hknown, hadmissible⟩ := (ht.admits_iff hsome).1 hadmits
      have hok := (Invocation.run_succeeds (henv invocation hparse) ht.describes hknown).2 hadmissible
      rw [if_pos hadmits]
      refine ⟨iff_of_true hok rfl, ?_, fun file hfile => ?_⟩
      · rwa [hok] at hdescribes
      · obtain ⟨hnone, hne⟩ := after_eq_none (writes_known hadmits) hfile
        rw [invocation.run_files env fs, ht.complete file hnone]
        rw [← invocation.writes_paths fs.fileOf c]
        exact List.forall_mem_map.2 hne
    · obtain ⟨e, heq, -⟩ := (ht.run_comes env hsome).resolve_right hadmits
      rw [if_neg hadmits, heq]
      exact ⟨iff_of_false nofun nofun, ht⟩

/-- Processes come out as told, one after the other, and leave what they were told to. -/
theorem Tells.session (ht : c.Tells fs) {processes : List Process}
    (henv : HoldsAlong RunEnv.Obliging processes fs) :
    ((runSession processes fs).1.map fun report => decide (report.exitCode = 0)) =
        (c.foretold fs.fileOf (processes.map Process.items)).1 ∧
      (c.foretold fs.fileOf (processes.map Process.items)).2.Tells (runSession processes fs).2 := by
  induction processes generalizing c fs with
  | nil => exact ⟨rfl, ht⟩
  | cons process processes ih =>
    obtain ⟨hfirst, hrest⟩ := henv
    obtain ⟨hcode, hnext⟩ := ht.step hfirst
    obtain ⟨hcodes, hlast⟩ := ih hnext hrest
    rw [runOpdfCli_fileOf] at hcodes hlast
    refine ⟨?_, hlast⟩
    rw [List.map_cons, foretold]
    dsimp only
    rw [← hcodes, ← Bool.eq_iff_iff.2 (decide_eq_true_iff.trans hcode)]
    rfl

/-- What is told of a path is what is read under it. -/
theorem Tells.shownAt_iff (ht : c.Tells fs) {path : OsString} {id : DocumentId}
    {pages : List (PageSize × Rotation)} :
    fs.shownAt id path = .ok pages ↔ c (fs.fileOf path) = some pages := by
  refine ⟨fun hshown => ?_, fun hknown => ?_⟩
  · cases hopen : fs.openPdf id path with
    | error e =>
      rw [FileSystem.shownAt, hopen] at hshown
      cases hshown
    | ok d =>
      obtain ⟨known, hknown, -⟩ := ht.known hopen
      obtain ⟨-, rfl⟩ := ht.describes.opened hopen hknown
      rw [FileSystem.shownAt, hopen] at hshown
      cases hshown
      exact hknown
  · obtain ⟨bytes, hbytes, hshows⟩ := ht.describes _ _ hknown
    exact shownAt_of_shows hbytes hshows id

/-- Where all is told to succeed, every process exits with success. -/
theorem Tells.session_succeeds (ht : c.Tells fs) {processes : List Process}
    (henv : HoldsAlong RunEnv.Obliging processes fs)
    (htold : ∀ succeeds ∈ (c.foretold fs.fileOf (processes.map Process.items)).1, succeeds = true) :
    ∀ report ∈ (runSession processes fs).1, report.exitCode = 0 := by
  intro report hreport
  rw [← (ht.session henv).1] at htold
  exact of_decide_eq_true (htold _ (List.mem_map_of_mem hreport))

/-- What is read in the end is what was told. -/
theorem Tells.session_shows (ht : c.Tells fs) {processes : List Process}
    (henv : HoldsAlong RunEnv.Obliging processes fs) {path : OsString} {id : DocumentId}
    {pages : List (PageSize × Rotation)} :
    (runSession processes fs).2.shownAt id path = .ok pages ↔
      (c.foretold fs.fileOf (processes.map Process.items)).2 (fs.fileOf path) = some pages := by
  rw [(ht.session henv).2.shownAt_iff, runSession_fileOf]

end Catalogue

/-! ### Sessions -/

/-- Rotations in place of a file do not add up. Whatever selections are turned how often, every
process succeeds, each page is left as the last rotation that names it says, the others as they
were, none moves, and no other file changes. -/
theorem rotations_in_place_do_not_add_up (path : OsString) (turns : List (Process × RotateArgs))
    (hparse : ∀ turn ∈ turns, parseArgs turn.1.items = .ok (.rotate turn.2))
    (hplace : ∀ turn ∈ turns, turn.2.inputPath = path ∧ turn.2.outputPath = none)
    (c : Catalogue) (fs : FileSystem) (henv : HoldsAlong RunEnv.Obliging (turns.map Prod.fst) fs)
    (ht : c.Tells fs) (pages : List (PageSize × Rotation)) (hknown : c (fs.fileOf path) = some pages)
    (hresolves : ∀ turn ∈ turns, ∃ indices, turn.2.pages.resolved pages.length = .ok indices) :
    (∀ report ∈ (runSession (turns.map Prod.fst) fs).1, report.exitCode = 0) ∧
      ∀ other id shown, (runSession (turns.map Prod.fst) fs).2.shownAt id other = .ok shown ↔
        Function.update c (fs.fileOf path) (some (Catalogue.settled (turns.map Prod.snd) pages))
          (fs.fileOf other) = some shown := by
  have htold := foretold_turns hparse hplace hknown hresolves
  have hitems : (turns.map Prod.fst).map Process.items = turns.map fun turn => turn.1.items :=
    List.map_map
  refine ⟨ht.session_succeeds henv ?_, fun other id shown => ?_⟩
  · rw [hitems, htold]
    exact fun succeeds => List.eq_of_mem_replicate
  · rw [ht.session_shows henv, hitems, htold]

end Runs

namespace SplitDisk

theorem tells : catalogue.Tells disk := by
  refine ⟨describes, fun file hfile => ?_⟩
  unfold catalogue at hfile
  split at hfile
  · cases hfile
  · rename_i hother
    exact if_neg hother

theorem obliging_processes [Lopdf] {processes : List Process}
    (h : ∀ process ∈ processes, process.env = runEnv) (fs : FileSystem) :
    HoldsAlong RunEnv.Obliging processes fs :=
  holdsAlong_of_forall (fun process hprocess => h process hprocess ▸ obliging_runEnv) fs

def joining : Process := ⟨runEnv, ["merge", "whole.pdf", "half.pdf", "rest.pdf"].map .ofStr⟩

def turns : List (Process × RotateArgs) :=
  [(⟨runEnv, ["rotate", "in.pdf", "--pages", "2-", "--degrees", "90"].map .ofStr⟩,
      ⟨.ofStr "in.pdf", ⟨[.onward ⟨2, by decide⟩]⟩, .quarter, none, false⟩),
    (⟨runEnv, ["rotate", "in.pdf", "--pages", "-2", "--degrees", "180"].map .ofStr⟩,
      ⟨.ofStr "in.pdf", ⟨[.upTo ⟨2, by decide⟩]⟩, .half, none, false⟩)]

end SplitDisk

open scoped WalkingLopdf
open PdfDocument (pageShown)
open SplitDisk

theorem the_last_turn_of_each_page_decides :
    (runSession (turns.map Prod.fst) disk).2.shownAt 7 (.ofStr "in.pdf") =
      .ok ((([(4, 0), (5, 0), (6, 0)].map (pageShown NestedFile.file.objects)).zip
        [Rotation.half, .half, .quarter]).map fun (look, rotation) => (look.1, rotation)) := by
  have hlater : (⟨[.onward ⟨2, by decide⟩]⟩ : PageSelection).resolved 3 = .ok [1, 2] :=
    PageSelection.resolved_of_ascending (by decide +kernel) (by decide) (by decide)
  have hfirst : (⟨[.upTo ⟨2, by decide⟩]⟩ : PageSelection).resolved 3 = .ok [0, 1] :=
    PageSelection.resolved_of_ascending (by decide +kernel) (by decide) (by decide)
  refine ((rotations_in_place_do_not_add_up (.ofStr "in.pdf") turns
    (List.forall_mem_cons.2 ⟨toOption_eq_some.1 (by decide +kernel),
      List.forall_mem_singleton.2 (toOption_eq_some.1 (by decide +kernel))⟩)
    (List.forall_mem_cons.2 ⟨⟨rfl, rfl⟩, List.forall_mem_singleton.2 ⟨rfl, rfl⟩⟩)
    catalogue disk (obliging_processes (by simp [turns]) disk) tells _ rfl
    (List.forall_mem_cons.2 ⟨⟨_, hlater⟩, List.forall_mem_singleton.2 ⟨_, hfirst⟩⟩)).2 _ 7 _).2 ?_
  rw [Function.update_self, turns, List.map_cons, Catalogue.settled_cons hlater, List.map_cons,
    Catalogue.settled_cons hfirst, List.map_nil, Catalogue.settled_nil]
  decide +kernel

end OpdfEditor
