import Mathlib.Order.Lattice.Nat
import OpdfEditor.PageResolution
import OpdfEditor.RunExtraction
import OpdfEditor.SplitRun

/-!
The four subcommands over real files, and the process around them. Every subcommand refuses
to overwrite first, then opens what it needs, makes its documents in memory and saves them,
so nothing is touched before everything but the saving went through.
-/
namespace OpdfEditor

/-! ### Reporting failures -/

namespace CliError

def display : CliError → String
  | usage message => message
  | argument flag source => s!"--{flag}: {source.display}"
  | outputExists path => s!"{path.display} already exists; pass --force to overwrite it"
  | openFailed path source => s!"cannot open {path.display}: {source.display}"
  | saveFailed path source => s!"cannot write {path.display}: {source.display}"
  | operation source => source.display

def exitCode : CliError → Nat
  | usage _ | argument _ _ => 2
  | _ => 1

end CliError

/-! ### Resolving a selection -/

/-- No part of a selection counts from before the first page. -/
theorem PageSelection.resolve_isSome (selection : PageSelection) (pageCount : Nat) :
    (selection.resolve pageCount).isSome := by
  rcases within_or_firstBeyond selection.parts pageCount with hwithin | ⟨index, hbeyond⟩
  · unfold resolve
    rw [collectIndices_within hwithin]
    dsimp only
    split <;> rfl
  · have hresolve := resolve_beyond hbeyond
    rw [hresolve]
    rfl

def PageSelection.resolved (selection : PageSelection) (pageCount : Nat) : Except Error (List Nat) :=
  (selection.resolve pageCount).get (selection.resolve_isSome pageCount)

/-- Pages named in ascending order resolve as they are named. -/
theorem PageSelection.resolved_of_ascending {selection : PageSelection} {pageCount : Nat}
    {indices : List Nat} (h : collectIndices pageCount selection.parts [] = some (.ok indices))
    (hascending : indices.Pairwise (· < ·)) (hsome : indices ≠ []) :
    selection.resolved pageCount = .ok indices := by
  have hsorted : indices.mergeSort = indices :=
    List.mergeSort_of_pairwise (hascending.imp fun hlt => by simpa using hlt.le)
  have hdistinct : indices.destutter (· ≠ ·) = indices :=
    List.destutter_of_isChain _ _ (hascending.imp fun hlt => hlt.ne).isChain
  have hresolve : selection.resolve pageCount = some (.ok indices) := by
    rw [resolve, h]
    dsimp only
    rw [hsorted, hdistinct, if_neg (by simpa using hsome)]
  exact Option.get_of_eq_some _ hresolve

/-- What resolves is something, in ascending order and within the document. -/
theorem PageSelection.resolved_ok {selection : PageSelection} {pageCount : Nat} {indices : List Nat}
    (h : selection.resolved pageCount = .ok indices) :
    indices.Pairwise (· < ·) ∧ (∀ i ∈ indices, i < pageCount) ∧ indices ≠ [] := by
  have hresolve : selection.resolve pageCount = some (.ok indices) := by
    rw [← h]
    exact (Option.some_get _).symm
  unfold PageSelection.resolve at hresolve
  rcases PageSelection.within_or_firstBeyond selection.parts pageCount with hwithin | ⟨index, hbeyond⟩
  · rw [PageSelection.collectIndices_within hwithin] at hresolve
    dsimp only at hresolve
    split at hresolve
    · cases hresolve
    · rename_i hsome
      cases hresolve
      refine ⟨PageSelection.pairwise_sorted _, fun i hi => ?_, by simpa using hsome⟩
      rw [PageSelection.mem_sorted, List.nil_append, List.mem_flatMap] at hi
      obtain ⟨part, hpart, hi⟩ := hi
      rw [PageSelection.mem_partIndices] at hi
      have hlast := (hwithin part hpart (part.lastIn pageCount) (by simp)).2
      exact Nat.lt_of_succ_le (hi.2.trans hlast)
  · obtain ⟨before, part, after, hparts, hbefore, hindex⟩ := hbeyond
    rw [hparts, PageSelection.collectIndices_beyond hbefore
      (PageSelection.offending_eq_some.2 hindex)] at hresolve
    cases hresolve

/-! ### The subcommands -/

/-- What the outside makes of one run. -/
structure RunEnv where
  /-- The identities of the documents opened, in the order they are. -/
  openedId : Nat → DocumentId
  createdId : DocumentId
  created : SaveEnv
  /-- The first save, which is the only one of every run but a split. -/
  save : FileEnv
  saveTail : FileEnv

def RunEnv.split (env : RunEnv) : SplitEnv where
  headId := env.openedId 0
  tailId := env.createdId
  created := env.created
  saveHead := env.save
  saveTail := env.saveTail

/-! ### Saving in turn -/

/-- Documents saved one after the other, each under its path: either all were, and what was left of
each is as asked, or the first that failed is named, and those after it were left alone. -/
inductive SavesInTurn : List (OsString × (PdfBytes → Prop)) → FileSystem →
    Except CliError Unit × FileSystem → Prop
  | done (fs : FileSystem) : SavesInTurn [] fs (.ok (), fs)
  | failed (path : OsString) (holds : PdfBytes → Prop) (rest : List (OsString × (PdfBytes → Prop)))
      (fs : FileSystem) (source : Error) (left : Option PdfBytes) :
      SavesInTurn ((path, holds) :: rest) fs (.error (.saveFailed path source), fs.receive path left)
  | saved {path : OsString} {holds : PdfBytes → Prop} {rest : List (OsString × (PdfBytes → Prop))}
      {fs : FileSystem} {bytes : PdfBytes} {outcome : Except CliError Unit × FileSystem}
      (hbytes : holds bytes) (hrest : SavesInTurn rest (fs.put path bytes) outcome) :
      SavesInTurn ((path, holds) :: rest) fs outcome

namespace SavesInTurn

variable {writes : List (OsString × (PdfBytes → Prop))} {fs : FileSystem}
  {outcome : Except CliError Unit × FileSystem}

theorem fileOf (h : SavesInTurn writes fs outcome) : outcome.2.fileOf = fs.fileOf := by
  induction h with
  | done => rfl
  | failed => exact FileSystem.fileOf_receive _ _ _
  | saved hbytes hrest ih => exact ih

/-- A file no path means is left alone. -/
theorem files_of_ne (h : SavesInTurn writes fs outcome) {file : Nat}
    (hfile : ∀ write ∈ writes, file ≠ fs.fileOf write.1) : outcome.2.files file = fs.files file := by
  induction h with
  | done => rfl
  | failed => exact FileSystem.files_receive_of_ne (hfile _ List.mem_cons_self)
  | saved hbytes hrest ih =>
    rw [ih fun write hwrite => hfile write (List.mem_cons_of_mem _ hwrite)]
    exact FileSystem.files_put_of_ne (hfile _ List.mem_cons_self)

/-- Only a save fails. -/
theorem failed_among (h : SavesInTurn writes fs outcome) {e : CliError} (he : outcome.1 = .error e) :
    ∃ path source, e = .saveFailed path source ∧ path ∈ writes.map Prod.fst := by
  induction h with
  | done => cases he
  | failed path holds rest fs source left =>
    cases he
    exact ⟨path, source, rfl, List.mem_cons_self⟩
  | saved hbytes hrest ih =>
    obtain ⟨path, source, heq, hpath⟩ := ih he
    exact ⟨path, source, heq, List.mem_cons_of_mem _ hpath⟩

/-- One document saved, and the others after it. -/
theorem cons {path : OsString} {holds : PdfBytes → Prop} {result : Except CliError Unit × FileSystem}
    (hfirst : SavesInTurn [(path, holds)] fs outcome)
    (herror : ∀ e fs', outcome = (.error e, fs') → result = (.error e, fs'))
    (hok : ∀ fs', outcome = (.ok (), fs') → SavesInTurn writes fs' result) :
    SavesInTurn ((path, holds) :: writes) fs result := by
  cases hfirst with
  | failed source left =>
    rw [herror _ _ rfl]
    exact .failed path holds writes fs _ _
  | saved hbytes hrest =>
    cases hrest
    exact .saved hbytes (hok _ rfl)

end SavesInTurn

/-- The outcome of a save that says how it came out and what it left. -/
theorem savesInTurn_of_mapError {path : OsString} {fs : FileSystem} {holds : PdfBytes → Prop} {α : Type}
    {saved : Except Error α} {left : Option PdfBytes}
    (h : ∀ a, saved = .ok a → ∃ bytes, left = some bytes ∧ holds bytes) :
    SavesInTurn [(path, holds)] fs
      ((saved.mapError (.saveFailed path)).map fun _ => (), fs.receive path left) := by
  cases saved with
  | error source => exact .failed path holds [] fs source left
  | ok a =>
    obtain ⟨bytes, rfl, hbytes⟩ := h a rfl
    exact .saved hbytes (.done _)

/-- A run that was refused touched nothing, and no save was to blame. -/
def Refused (fs : FileSystem) (outcome : Except CliError Unit × FileSystem) : Prop :=
  ∃ e, outcome = (.error e, fs) ∧ ∀ path source, e ≠ .saveFailed path source

/-- Nothing was saved yet where something failed otherwise. -/
def Unsaved {α : Type} (made : Except CliError α) : Prop :=
  ∀ path source, made ≠ .error (.saveFailed path source)

theorem unsaved_ok {α : Type} (a : α) : Unsaved (.ok a) := fun _ _ => nofun

/-- What goes on from something unsaved to something unsaved is unsaved. -/
theorem unsaved_bind {α β : Type} {made : Except CliError α} {f : α → Except CliError β}
    (hmade : Unsaved made) (hf : ∀ a, Unsaved (f a)) : Unsaved (made >>= f) := by
  cases made with
  | error e => exact fun path source h => hmade path source (congrArg Except.error (Except.error.inj h))
  | ok a => exact hf a

theorem unsaved_guard (path : OsString) (force : Bool) (fs : FileSystem) :
    Unsaved (guardOutput path force fs) := by
  unfold guardOutput
  split <;> exact fun _ _ => nofun

theorem unsaved_mapError {α : Type} {x : Except Error α} {f : Error → CliError}
    (hf : ∀ e path source, f e ≠ .saveFailed path source) : Unsaved (x.mapError f) := by
  cases x with
  | error e => exact fun path source h => hf e path source (Except.error.inj h)
  | ok a => exact unsaved_ok a

theorem unsaved_operation {α : Type} (x : Except Error α) : Unsaved (x.mapError .operation) :=
  unsaved_mapError fun _ _ _ => nofun

theorem unsaved_mapM {α β : Type} {f : α → Except CliError β} (hf : ∀ a, Unsaved (f a)) (xs : List α) :
    Unsaved (xs.mapM f) := by
  induction xs with
  | nil => exact unsaved_ok []
  | cons x xs ih =>
    rw [List.mapM_cons]
    exact unsaved_bind (hf x) fun _ => unsaved_bind ih fun _ => unsaved_ok _

section Commands

variable [Lopdf]

def selectPages (document : PdfDocument) (pages : PageSelection) : Except CliError (List PageId) := do
  let indices ← (pages.resolved (Document.pageCount document)).mapError .operation
  let ids := Document.pageIds document
  let pageCount := ids.length
  indices.mapM fun index =>
    -- the indices were bounded when they were resolved, so this is a second check
    match ids[index]? with
    | some id => .ok id
    | none => .error (.operation (.indexOutOfBounds index pageCount))

/-- What an incremental save leaves under its path, once it gets as far as writing. -/
def PdfDocument.appends (env : FileEnv) (d : PdfDocument) : Option PdfBytes :=
  let leave (written : LopdfDocument) : Option PdfBytes := match env.write written with
    | .error _ => env.torn
    | .ok () =>
      match env.parse written with
      | .error e => some (.damaged e)
      | .ok file => some (.file file)
  if d.pages.live.length = 0 then none
  else if d.dirty.isClean then leave d.incremental.previous
  else
    match d.materializeChanges with
    | (.error _, _) => none
    | (.ok (), d') => leave d'.incremental.written

def saveIncrementalTo (env : FileEnv) (path : OsString) (d : PdfDocument) (fs : FileSystem) :
    Except CliError Unit × FileSystem :=
  (((d.saveIncremental env.toSaveEnv).1.mapError (.saveFailed path)).map fun _ => (),
    fs.receive path (d.appends env))

def saveMade (save : PdfDocument → FileSystem → Except CliError Unit × FileSystem)
    (made : Except CliError PdfDocument) (fs : FileSystem) : Except CliError Unit × FileSystem :=
  match made with
  | .error e => (.error e, fs)
  | .ok d => save d fs

/-- Everything a merge does before it writes. -/
def mergedDocument (env : RunEnv) (args : MergeArgs) (fs : FileSystem) : Except CliError PdfDocument := do
  guardOutput args.outputPath args.force fs
  let sources ← args.inputPaths.zipIdx.mapM fun (path, i) => openDocument (env.openedId i) path fs
  let output ← (PdfDocument.empty env.created env.createdId).mapError .operation
  match (Command.merge sources).apply output with
  | (.error e, _) => .error (.operation e)
  | (.ok _, output) => .ok output

def runMerge (env : RunEnv) (args : MergeArgs) (fs : FileSystem) : Except CliError Unit × FileSystem :=
  saveMade (saveCompactedTo env.save args.outputPath) (mergedDocument env args fs) fs

/-- Where a rotation is written. -/
def RotateArgs.output (args : RotateArgs) : OsString := args.outputPath.getD args.inputPath

/-- Everything a rotation does before it writes. -/
def rotatedDocument (env : RunEnv) (args : RotateArgs) (fs : FileSystem) :
    Except CliError PdfDocument := do
  -- without an output the document is edited in place, and there is nothing to clobber by accident
  (if args.outputPath.isSome then guardOutput args.output args.force fs else .ok ())
  let document ← openDocument (env.openedId 0) args.inputPath fs
  let selected ← selectPages document args.pages
  match (rotateSelection selected args.rotation).apply document with
  | (.error e, _) => .error (.operation e)
  | (.ok _, document) => .ok document

def runRotate (env : RunEnv) (args : RotateArgs) (fs : FileSystem) : Except CliError Unit × FileSystem :=
  saveMade (saveIncrementalTo env.save args.output) (rotatedDocument env args fs) fs

/-- Everything an extraction does before it writes. -/
def extractedDocument (env : RunEnv) (args : ExtractArgs) (fs : FileSystem) :
    Except CliError PdfDocument := do
  guardOutput args.outputPath args.force fs
  let source ← openDocument (env.openedId 0) args.inputPath fs
  let indices ← (args.pages.resolved (Document.pageCount source)).mapError .operation
  let output ← (PdfDocument.empty env.created env.createdId).mapError .operation
  match extractRuns source (contiguousRuns indices) output with
  | (.error e, _) => .error (.operation e)
  | (.ok (), output) => .ok output

def runExtract (env : RunEnv) (args : ExtractArgs) (fs : FileSystem) : Except CliError Unit × FileSystem :=
  saveMade (saveCompactedTo env.save args.outputPath) (extractedDocument env args fs) fs

/-! ### The process -/

def Invocation.run (env : RunEnv) (fs : FileSystem) : Invocation → Except CliError Unit × FileSystem
  | .help | .version => (.ok (), fs)
  | .merge args => runMerge env args fs
  | .split args => runSplit env.split args fs
  | .rotate args => runRotate env args fs
  | .extract args => runExtract env args fs

def carryOut (env : RunEnv) (items : List OsString) (fs : FileSystem) :
    Except CliError Unit × FileSystem :=
  match parseArgs items with
  | .error e => (.error e, fs)
  | .ok invocation => invocation.run env fs

/-- What a process leaves behind besides files: its exit code and the lines it complains in. -/
structure Report where
  exitCode : Nat
  complaints : List String
  deriving DecidableEq

def Report.of : Except CliError Unit → Report
  | .ok () => ⟨0, []⟩
  | .error e =>
    let hint := match e with
      | .usage _ | .argument _ _ => ["Run `opdf-cli --help` for usage."]
      | _ => []
    ⟨e.exitCode, s!"opdf-cli: error: {e.display}" :: hint⟩

omit [Lopdf] in
/-- A process exits with success exactly where its run succeeded. -/
theorem Report.of_exitCode {outcome : Except CliError Unit} :
    (Report.of outcome).exitCode = 0 ↔ outcome = .ok () := by
  cases outcome with
  | ok _ => exact iff_of_true rfl rfl
  | error e =>
    refine iff_of_false ?_ nofun
    cases e <;> exact nofun

def runOpdfCli (env : RunEnv) (items : List OsString) (fs : FileSystem) : Report × FileSystem :=
  let outcome := carryOut env items fs
  (.of outcome.1, outcome.2)

/-! ### Taking a run apart -/

/-- A merge that gets as far as writing opened every input and appended all of them to nothing. -/
structure MergedFrom (env : RunEnv) (args : MergeArgs) (fs : FileSystem) (sources : List PdfDocument)
    (target merged : PdfDocument) : Prop where
  guarded : guardOutput args.outputPath args.force fs = .ok ()
  opens : List.Forall₂ (fun input source => fs.openPdf (env.openedId input.2) input.1 = .ok source)
    args.inputPaths.zipIdx sources
  created : PdfDocument.empty env.created env.createdId = .ok target
  merges : ∃ inverse, (Command.merge sources).apply target = (.ok inverse, merged)

/-- A merge that gets as far as writing opened and appended what it should. -/
theorem mergedDocument_ok {env : RunEnv} {args : MergeArgs} {fs : FileSystem} {merged : PdfDocument}
    (h : mergedDocument env args fs = .ok merged) :
    ∃ sources target, MergedFrom env args fs sources target merged := by
  unfold mergedDocument at h
  obtain ⟨⟨⟩, hguard, h⟩ := bind_eq_ok.1 h
  obtain ⟨sources, hsources, h⟩ := bind_eq_ok.1 h
  obtain ⟨target, htarget, h⟩ := bind_eq_ok.1 h
  split at h
  · cases h
  rename_i inverse merged' hmerge
  cases h
  refine ⟨sources, target, hguard, ?_, mapError_eq_ok.1 htarget, inverse, hmerge⟩
  exact (Traversal.mapM_eq_ok.1 hsources).imp fun _ _ => mapError_eq_ok.1

/-- A rotation that gets as far as writing turned the pages it selected of what it opened. -/
structure RotatedFrom (env : RunEnv) (args : RotateArgs) (fs : FileSystem) (opened : PdfDocument)
    (selected : List PageId) (rotated : PdfDocument) : Prop where
  guarded : args.outputPath.isSome → guardOutput args.output args.force fs = .ok ()
  opens : fs.openPdf (env.openedId 0) args.inputPath = .ok opened
  selects : selectPages opened args.pages = .ok selected
  rotates : ∃ inverse, (rotateSelection selected args.rotation).apply opened = (.ok inverse, rotated)

/-- A rotation that does opened and turned what it should. -/
theorem rotatedDocument_ok {env : RunEnv} {args : RotateArgs} {fs : FileSystem} {rotated : PdfDocument}
    (h : rotatedDocument env args fs = .ok rotated) :
    ∃ opened selected, RotatedFrom env args fs opened selected rotated := by
  unfold rotatedDocument at h
  obtain ⟨⟨⟩, hguard, h⟩ := bind_eq_ok.1 h
  obtain ⟨opened, hopened, h⟩ := bind_eq_ok.1 h
  obtain ⟨selected, hselected, h⟩ := bind_eq_ok.1 h
  split at h
  · cases h
  rename_i inverse rotated' hrotate
  cases h
  refine ⟨opened, selected, fun hsome => ?_, mapError_eq_ok.1 hopened, hselected, inverse, hrotate⟩
  rwa [if_pos hsome] at hguard

/-- An extraction that gets as far as writing copied the runs of its selection to nothing. -/
structure ExtractedFrom (env : RunEnv) (args : ExtractArgs) (fs : FileSystem) (opened : PdfDocument)
    (indices : List Nat) (target extracted : PdfDocument) : Prop where
  guarded : guardOutput args.outputPath args.force fs = .ok ()
  opens : fs.openPdf (env.openedId 0) args.inputPath = .ok opened
  resolves : args.pages.resolved (Document.pageCount opened) = .ok indices
  created : PdfDocument.empty env.created env.createdId = .ok target
  extracts : extractRuns opened (contiguousRuns indices) target = (.ok (), extracted)

/-- An extraction that does opened and copied what it should. -/
theorem extractedDocument_ok {env : RunEnv} {args : ExtractArgs} {fs : FileSystem}
    {extracted : PdfDocument} (h : extractedDocument env args fs = .ok extracted) :
    ∃ opened indices target, ExtractedFrom env args fs opened indices target extracted := by
  unfold extractedDocument at h
  obtain ⟨⟨⟩, hguard, h⟩ := bind_eq_ok.1 h
  obtain ⟨opened, hopened, h⟩ := bind_eq_ok.1 h
  obtain ⟨indices, hindices, h⟩ := bind_eq_ok.1 h
  obtain ⟨target, htarget, h⟩ := bind_eq_ok.1 h
  split at h
  · cases h
  rename_i extracted' hextract
  cases h
  exact ⟨opened, indices, target, hguard, mapError_eq_ok.1 hopened, mapError_eq_ok.1 hindices,
    mapError_eq_ok.1 htarget, hextract⟩

/-! ### What a run can touch -/

/-- What a compacting save that succeeds leaves is what it read back. -/
theorem saveCompactedTo_inTurn {env : FileEnv} {path : OsString} {d : PdfDocument} {fs : FileSystem}
    {holds : PdfBytes → Prop} (h : ∀ written d' file, d.saveCompacted env.toSaveEnv = (.ok written, d') →
      env.parse written = .ok file → holds (.file file)) :
    SavesInTurn [(path, holds)] fs (saveCompactedTo env path d fs) := by
  refine savesInTurn_of_mapError fun written hwritten => ?_
  have hsave : d.saveCompacted env.toSaveEnv = (.ok written, (d.saveCompacted env.toSaveEnv).2) :=
    Prod.ext hwritten rfl
  obtain ⟨file, hparse, hleaves⟩ := PdfDocument.leaves_of_saveCompacted hsave
  exact ⟨_, hleaves, h written _ file hsave hparse⟩

/-- What is read of what was written, if it can be. -/
def FileEnv.readsBack (env : FileEnv) (written : LopdfDocument) : PdfBytes :=
  match env.parse written with
  | .error e => .damaged e
  | .ok file => .file file

theorem PdfDocument.appends_of_saveIncremental {env : FileEnv} {d d' : PdfDocument}
    {written : LopdfDocument} (h : d.saveIncremental env.toSaveEnv = (.ok written, d')) :
    d.appends env = some (env.readsBack written) := by
  have hread : ∀ file,
      (match env.parse file with
        | .error e => some (.damaged e)
        | .ok file => some (.file file)) = some (env.readsBack file) := by
    intro file
    unfold FileEnv.readsBack
    cases env.parse file <;> rfl
  unfold saveIncremental at h
  unfold appends
  split_ifs at h ⊢ with hpages hclean
  · cases h
  · cases hwrite : env.write d.incremental.previous with
    | error e =>
      rw [hwrite] at h
      cases h
    | ok done =>
      rw [hwrite] at h
      cases h
      simp only [hwrite]
      exact hread _
  · rcases hm : d.materializeChanges with ⟨e | ⟨⟩, d₁⟩
    · rw [hm] at h
      cases h
    · rw [hm] at h
      dsimp only at h ⊢
      cases hwrite : env.write d₁.incremental.written with
      | error e =>
        rw [hwrite] at h
        cases h
      | ok done =>
        rw [hwrite] at h
        cases h
        exact hread _

/-- Appending an update is one write, of what reads back. -/
theorem saveIncrementalTo_inTurn {env : FileEnv} {path : OsString} {d : PdfDocument} {fs : FileSystem}
    {holds : PdfBytes → Prop} (h : ∀ written d', d.saveIncremental env.toSaveEnv = (.ok written, d') →
      holds (env.readsBack written)) :
    SavesInTurn [(path, holds)] fs (saveIncrementalTo env path d fs) := by
  refine savesInTurn_of_mapError fun written hwritten => ?_
  have hsave : d.saveIncremental env.toSaveEnv = (.ok written, (d.saveIncremental env.toSaveEnv).2) :=
    Prod.ext hwritten rfl
  exact ⟨_, PdfDocument.appends_of_saveIncremental hsave, h written _ hsave⟩

theorem unsaved_open (id : DocumentId) (path : OsString) (fs : FileSystem) :
    Unsaved (openDocument id path fs) := unsaved_mapError fun _ _ _ => nofun

theorem unsaved_mergedDocument (env : RunEnv) (args : MergeArgs) (fs : FileSystem) :
    Unsaved (mergedDocument env args fs) := by
  refine unsaved_bind (unsaved_guard _ _ _) fun _ => ?_
  refine unsaved_bind (unsaved_mapM (fun _ => unsaved_open _ _ _) _) fun sources => ?_
  refine unsaved_bind (unsaved_operation _) fun target => ?_
  split <;> exact fun _ _ => nofun

theorem unsaved_splitDocuments (env : SplitEnv) (args : SplitArgs) (fs : FileSystem) :
    Unsaved (splitDocuments env args fs) := by
  unfold splitDocuments
  split
  · exact fun _ _ => nofun
  refine unsaved_bind (unsaved_guard _ _ _) fun _ => unsaved_bind (unsaved_guard _ _ _) fun _ => ?_
  refine unsaved_bind (unsaved_open _ _ _) fun head => ?_
  dsimp only
  split
  · exact fun _ _ => nofun
  refine unsaved_bind (unsaved_operation _) fun target => ?_
  split <;> exact fun _ _ => nofun

theorem unsaved_selectPages (document : PdfDocument) (pages : PageSelection) :
    Unsaved (selectPages document pages) := by
  refine unsaved_bind (unsaved_operation _) fun indices => unsaved_mapM (fun index => ?_) _
  split <;> exact fun _ _ => nofun

theorem unsaved_rotatedDocument (env : RunEnv) (args : RotateArgs) (fs : FileSystem) :
    Unsaved (rotatedDocument env args fs) := by
  refine unsaved_bind ?_ fun _ => unsaved_bind (unsaved_open _ _ _) fun document => ?_
  · split
    · exact unsaved_guard _ _ _
    · exact unsaved_ok _
  refine unsaved_bind (unsaved_selectPages _ _) fun selected => ?_
  split <;> exact fun _ _ => nofun

theorem unsaved_extractedDocument (env : RunEnv) (args : ExtractArgs) (fs : FileSystem) :
    Unsaved (extractedDocument env args fs) := by
  refine unsaved_bind (unsaved_guard _ _ _) fun _ => unsaved_bind (unsaved_open _ _ _) fun source => ?_
  refine unsaved_bind (unsaved_operation _) fun indices => ?_
  refine unsaved_bind (unsaved_operation _) fun target => ?_
  split <;> exact fun _ _ => nofun

omit [Lopdf] in
theorem OsString.samePath_self (path : OsString) : path.samePath path = true := by
  unfold OsString.samePath
  exact beq_self_eq_true _

/-- A split writes its halves under two spellings. -/
theorem spelt_apart_of_splitDocuments {env : SplitEnv} {args : SplitArgs} {fs : FileSystem}
    {documents : PdfDocument × PdfDocument} (h : splitDocuments env args fs = .ok documents) :
    args.outAPath.samePath args.outBPath = false := by
  unfold splitDocuments at h
  split at h
  · cases h
  · rename_i hsame
    exact Bool.eq_false_of_not_eq_true hsame

/-- A split that is not refused made both its documents. -/
theorem runSplit_comes (env : SplitEnv) (args : SplitArgs) (fs : FileSystem) :
    Refused fs (runSplit env args fs) ∨ ∃ head tail, splitDocuments env args fs = .ok (head, tail) := by
  unfold runSplit
  have hunsaved := unsaved_splitDocuments env args fs
  cases hmade : splitDocuments env args fs with
  | error e =>
    rw [hmade] at hunsaved
    exact .inl ⟨e, rfl, fun path source h => hunsaved path source (congrArg _ h)⟩
  | ok documents => exact .inr ⟨documents.1, documents.2, rfl⟩

/-- A split saves its halves in turn. -/
theorem runSplit_inTurn {env : SplitEnv} {args : SplitArgs} {fs : FileSystem} {head tail : PdfDocument}
    {holdsHead holdsTail : PdfBytes → Prop} (hmade : splitDocuments env args fs = .ok (head, tail))
    (hhead : SavesInTurn [(args.outAPath, holdsHead)] fs (saveCompactedTo env.saveHead args.outAPath head fs))
    (htail : ∀ fs', SavesInTurn [(args.outBPath, holdsTail)] fs'
      (saveCompactedTo env.saveTail args.outBPath tail fs')) :
    SavesInTurn [(args.outAPath, holdsHead), (args.outBPath, holdsTail)] fs (runSplit env args fs) := by
  unfold runSplit
  rw [hmade]
  dsimp only
  refine hhead.cons (fun e fs' hsave => ?_) fun fs' hsave => ?_
  · rw [hsave]
  · rw [hsave]
    exact htail fs'

omit [Lopdf] in
/-- What is made before it is saved fails without a write. -/
theorem saveMade_comes {save : PdfDocument → FileSystem → Except CliError Unit × FileSystem}
    {made : Except CliError PdfDocument} {fs : FileSystem} {writes : List (OsString × (PdfBytes → Prop))}
    (hunsaved : Unsaved made) (hsave : ∀ d, made = .ok d → SavesInTurn writes fs (save d fs)) :
    Refused fs (saveMade save made fs) ∨
      (∃ d, made = .ok d) ∧ SavesInTurn writes fs (saveMade save made fs) := by
  cases made with
  | error e => exact .inl ⟨e, rfl, fun path source h => hunsaved path source (congrArg _ h)⟩
  | ok d => exact .inr ⟨⟨d, rfl⟩, hsave d rfl⟩

/-! ### What a process can touch -/

def Invocation.outputs : Invocation → List OsString
  | .help | .version => []
  | .merge args => [args.outputPath]
  | .split args => [args.outAPath, args.outBPath]
  | .rotate args => [args.output]
  | .extract args => [args.outputPath]

/-- Whether a command line may write over a file that is there. -/
def Invocation.overwrites : Invocation → Bool
  | .help | .version => false
  | .merge args => args.force
  | .split args => args.force
  | .rotate args => args.force || args.outputPath.isNone
  | .extract args => args.force

omit [Lopdf] in
/-- An output the guard lets through is forced or not there. -/
theorem guardOutput_clear {path : OsString} {force : Bool} {fs : FileSystem}
    (h : guardOutput path force fs = .ok ()) : force = true ∨ fs.contents path = none := by
  cases force with
  | true => exact .inl rfl
  | false => exact .inr (guardOutput_ok h rfl)

/-- Every run is refused, or may write to its outputs and writes them in turn. -/
theorem Invocation.run_inTurn (env : RunEnv) (fs : FileSystem) (invocation : Invocation) :
    Refused fs (invocation.run env fs) ∨
      (∀ path ∈ invocation.outputs, invocation.overwrites = true ∨ fs.contents path = none) ∧
      SavesInTurn (invocation.outputs.map fun path => (path, fun _ => True)) fs
        (invocation.run env fs) := by
  cases invocation with
  | help => exact .inr ⟨List.forall_mem_nil _, .done fs⟩
  | version => exact .inr ⟨List.forall_mem_nil _, .done fs⟩
  | merge args =>
    refine (saveMade_comes (unsaved_mergedDocument env args fs) fun d _ =>
      saveCompactedTo_inTurn fun _ _ _ _ _ => trivial).imp_right fun ⟨⟨d, hmade⟩, hsaves⟩ => ⟨?_, hsaves⟩
    obtain ⟨sources, target, hmerged⟩ := mergedDocument_ok hmade
    exact List.forall_mem_singleton.2 (guardOutput_clear hmerged.guarded)
  | split args =>
    rcases runSplit_comes env.split args fs with hrefused | ⟨head, tail, hmade⟩
    · exact .inl hrefused
    · obtain ⟨opened, target, hprepared⟩ := splitDocuments_ok hmade
      refine .inr ⟨?_, runSplit_inTurn hmade (saveCompactedTo_inTurn fun _ _ _ _ _ => trivial) fun fs' =>
        saveCompactedTo_inTurn fun _ _ _ _ _ => trivial⟩
      intro path hpath
      cases hforce : args.force with
      | true => exact .inl hforce
      | false =>
        obtain ⟨hnoneA, hnoneB⟩ := hprepared.outputs hforce
        simp only [Invocation.outputs, List.mem_cons, List.not_mem_nil, or_false] at hpath
        rcases hpath with rfl | rfl
        · exact .inr hnoneA
        · exact .inr hnoneB
  | rotate args =>
    refine (saveMade_comes (unsaved_rotatedDocument env args fs) fun d _ =>
      saveIncrementalTo_inTurn fun _ _ _ => trivial).imp_right fun ⟨⟨d, hmade⟩, hsaves⟩ => ⟨?_, hsaves⟩
    obtain ⟨opened, selected, hrotated⟩ := rotatedDocument_ok hmade
    refine List.forall_mem_singleton.2 ?_
    cases hpath : args.outputPath with
    | none => exact .inl (by simp [Invocation.overwrites, hpath])
    | some path =>
      exact (guardOutput_clear (hrotated.guarded (by rw [hpath]; rfl))).imp_left fun hforce => by
        simp [Invocation.overwrites, hforce]
  | extract args =>
    refine (saveMade_comes (unsaved_extractedDocument env args fs) fun d _ =>
      saveCompactedTo_inTurn fun _ _ _ _ _ => trivial).imp_right fun ⟨⟨d, hmade⟩, hsaves⟩ => ⟨?_, hsaves⟩
    obtain ⟨opened, indices, target, hextracted⟩ := extractedDocument_ok hmade
    exact List.forall_mem_singleton.2 (guardOutput_clear hextracted.guarded)

/-- Which file a path means is not for a run to change. -/
theorem Invocation.run_fileOf (env : RunEnv) (fs : FileSystem) (invocation : Invocation) :
    (invocation.run env fs).2.fileOf = fs.fileOf := by
  rcases invocation.run_inTurn env fs with ⟨e, heq, -⟩ | ⟨-, hsaves⟩
  · rw [heq]
  · exact hsaves.fileOf

/-- A run leaves every file alone that is none of its outputs. -/
theorem Invocation.run_files (env : RunEnv) (fs : FileSystem) (invocation : Invocation) {file : Nat}
    (hfile : ∀ path ∈ invocation.outputs, file ≠ fs.fileOf path) :
    (invocation.run env fs).2.files file = fs.files file := by
  rcases invocation.run_inTurn env fs with ⟨e, heq, -⟩ | ⟨-, hsaves⟩
  · rw [heq]
  · exact hsaves.files_of_ne (List.forall_mem_map.2 hfile)

/-! ### Sessions -/

structure Process where
  env : RunEnv
  items : List OsString

/-- Processes one after the other over the same files. -/
def runSession : List Process → FileSystem → List Report × FileSystem
  | [], fs => ([], fs)
  | process :: processes, fs =>
    let (report, fs) := runOpdfCli process.env process.items fs
    let (reports, fs) := runSession processes fs
    (report :: reports, fs)

theorem runSession_cons (process : Process) (processes : List Process) (fs : FileSystem) :
    (runSession (process :: processes) fs).2 =
      (runSession processes (runOpdfCli process.env process.items fs).2).2 := rfl

/-- Every process of a session that is asked for something meets a condition over the files it finds. -/
def HoldsAlong (P : RunEnv → Invocation → FileSystem → Prop) : List Process → FileSystem → Prop
  | [], _ => True
  | process :: processes, fs =>
    (∀ invocation, parseArgs process.items = .ok invocation → P process.env invocation fs) ∧
      HoldsAlong P processes (runOpdfCli process.env process.items fs).2

theorem holdsAlong_of_forall {P : RunEnv → Invocation → FileSystem → Prop} {processes : List Process}
    (h : ∀ process ∈ processes, ∀ invocation fs, P process.env invocation fs) (fs : FileSystem) :
    HoldsAlong P processes fs := by
  induction processes generalizing fs with
  | nil => trivial
  | cons process processes ih =>
    obtain ⟨hfirst, hrest⟩ := List.forall_mem_cons.1 h
    exact ⟨fun invocation _ => hfirst invocation fs, ih hrest _⟩

/-- A process whose command line names a file as an output and may write to it, and which either
succeeds or complains that it could not write. -/
structure MayWrite (process : Process) (fs : FileSystem) (file : Nat) (invocation : Invocation) :
    Prop where
  reads : parseArgs process.items = .ok invocation
  names : ∃ path ∈ invocation.outputs, fs.fileOf path = file
  free : invocation.overwrites = true ∨ fs.files file = none
  reports : (runOpdfCli process.env process.items fs).1 = ⟨0, []⟩ ∨ ∃ path source,
    (runOpdfCli process.env process.items fs).1 =
      ⟨1, [s!"opdf-cli: error: {(CliError.saveFailed path source).display}"]⟩

/-- What one process does: it runs what it read, or touches nothing. -/
theorem runOpdfCli_cases (process : Process) (fs : FileSystem) :
    (∃ e, parseArgs process.items = .error e ∧
        runOpdfCli process.env process.items fs = (.of (.error e), fs)) ∨
      ∃ invocation, parseArgs process.items = .ok invocation ∧
        runOpdfCli process.env process.items fs =
          (.of (invocation.run process.env fs).1, (invocation.run process.env fs).2) := by
  unfold runOpdfCli carryOut
  cases parseArgs process.items with
  | error e => exact .inl ⟨e, rfl, rfl⟩
  | ok invocation => exact .inr ⟨invocation, rfl, rfl⟩

theorem runOpdfCli_fileOf (process : Process) (fs : FileSystem) :
    (runOpdfCli process.env process.items fs).2.fileOf = fs.fileOf := by
  rcases runOpdfCli_cases process fs with ⟨e, -, heq⟩ | ⟨invocation, -, heq⟩
  · rw [heq]
  · rw [heq]
    exact invocation.run_fileOf process.env fs

/-- No session changes which file a path means. -/
theorem runSession_fileOf (processes : List Process) (fs : FileSystem) :
    (runSession processes fs).2.fileOf = fs.fileOf := by
  induction processes generalizing fs with
  | nil => rfl
  | cons process processes ih => rw [runSession_cons, ih, runOpdfCli_fileOf]

/-- A process leaves a file alone unless it may write to it. -/
theorem runOpdfCli_touches (process : Process) (fs : FileSystem) (file : Nat) :
    (runOpdfCli process.env process.items fs).2.files file = fs.files file ∨
      ∃ invocation, MayWrite process fs file invocation := by
  rcases runOpdfCli_cases process fs with ⟨e, -, heq⟩ | ⟨invocation, hparse, heq⟩
  · exact .inl (by rw [heq])
  by_cases hnamed : ∃ path ∈ invocation.outputs, fs.fileOf path = file
  · rcases invocation.run_inTurn process.env fs with ⟨e, hrefused, -⟩ | ⟨hfree, hsaves⟩
    · exact .inl (by rw [heq, hrefused])
    refine .inr ⟨invocation, hparse, hnamed, ?_, ?_⟩
    · obtain ⟨path, hpath, rfl⟩ := hnamed
      exact hfree path hpath
    · rw [heq]
      cases hresult : (invocation.run process.env fs).1 with
      | ok _ => exact .inl rfl
      | error e =>
        obtain ⟨path, source, rfl, -⟩ := hsaves.failed_among hresult
        exact .inr ⟨path, source, rfl⟩
  · refine .inl ?_
    rw [heq]
    exact invocation.run_files process.env fs fun path hpath hsame => hnamed ⟨path, hpath, hsame.symm⟩

/-- A wrong command line touches nothing. -/
theorem runOpdfCli_misused (process : Process) (fs : FileSystem)
    (h : (runOpdfCli process.env process.items fs).1.exitCode = 2) :
    (runOpdfCli process.env process.items fs).2 = fs := by
  rcases runOpdfCli_cases process fs with ⟨e, -, heq⟩ | ⟨invocation, -, heq⟩
  · rw [heq]
  rcases invocation.run_inTurn process.env fs with ⟨e, hrefused, -⟩ | ⟨-, hsaves⟩
  · rw [heq, hrefused]
  rw [heq] at h
  cases hresult : (invocation.run process.env fs).1 with
  | ok _ =>
    rw [hresult] at h
    cases h
  | error e =>
    obtain ⟨path, source, rfl, -⟩ := hsaves.failed_among hresult
    rw [hresult] at h
    cases h

/-- Over a whole session, a file that is there stays as it is unless a command line that may write
over files names it as an output. One process leaves a file alone unless its command line names it
as an output and may write to it, and then either succeeds or complains that it could not write; one
that exits with the code of a wrong command line touches nothing at all. -/
theorem sessions_keep_what_is_there (processes : List Process) (fs : FileSystem) :
    (∀ file bytes, fs.files file = some bytes →
      (∀ process ∈ processes, ∀ invocation, parseArgs process.items = .ok invocation →
        invocation.overwrites = true → ∀ path ∈ invocation.outputs, fs.fileOf path ≠ file) →
      (runSession processes fs).2.files file = some bytes) ∧
    ∀ process ∈ processes, ∀ fs',
      ((runOpdfCli process.env process.items fs').1.exitCode = 2 →
        (runOpdfCli process.env process.items fs').2 = fs') ∧
      ∀ file, (runOpdfCli process.env process.items fs').2.files file = fs'.files file ∨
        ∃ invocation, MayWrite process fs' file invocation := by
  refine ⟨fun file bytes hfile hspared => ?_, fun process _ fs' => ?_⟩
  · induction processes generalizing fs with
    | nil => exact hfile
    | cons process processes ih =>
      rw [runSession_cons]
      refine ih _ ?_ fun other hother invocation hparse hover path hpath => ?_
      · rcases runOpdfCli_touches process fs file with hsame | ⟨invocation, hwrites⟩
        · rw [hsame, hfile]
        · have hover := hwrites.free.resolve_right (by rw [hfile]; exact nofun)
          obtain ⟨path, hpath, hnamed⟩ := hwrites.names
          exact absurd hnamed (hspared process List.mem_cons_self invocation hwrites.reads hover path hpath)
      · rw [runOpdfCli_fileOf]
        exact hspared other (List.mem_cons_of_mem _ hother) invocation hparse hover path hpath
  · exact ⟨runOpdfCli_misused process fs', runOpdfCli_touches process fs'⟩

end Commands

deriving instance DecidableEq for SelectionPart, PageSelection, MergeArgs, SplitArgs, RotateArgs,
  ExtractArgs, Invocation

namespace SplitDisk

/-- Nothing fails, and what is read back counts the objects it finds. -/
def recounting : SaveEnv :=
  { SaveEnv.reliable with parse := fun file => .ok { file with maxId := file.objects.keys.sup Prod.fst } }

theorem faithful_recounting : recounting.Faithful := by
  intro written file hparse
  cases hparse
  exact ⟨⟨fun _ _ => rfl, rfl⟩, fun id hid => Finset.le_sup (f := Prod.fst) (Finmap.mem_keys.2 hid)⟩

def runEnv : RunEnv := ⟨fun _ => 1, 2, .streaming, ⟨recounting, none⟩, ⟨recounting, none⟩⟩

def halving : Process :=
  ⟨runEnv, ["split", "in.pdf", "--at", "2", "--out-a", "half.pdf", "--out-b", "rest.pdf"].map .ofStr⟩

def swapping : Process := ⟨runEnv, ["merge", "swapped.pdf", "rest.pdf", "half.pdf"].map .ofStr⟩

def processes : List Process := [halving, swapping]

end SplitDisk

open scoped WalkingLopdf in
open SplitDisk in
/-- The document that was halved is still there when its halves have been put together again. -/
theorem the_halved_document_is_kept : (runSession processes disk).2.files 0 = disk.files 0 := by
  refine (sessions_keep_what_is_there processes disk).1 0 _ rfl fun process hprocess invocation hparse => ?_
  have hcautious : ∀ process ∈ processes,
      ((parseArgs process.items).toOption.map Invocation.overwrites) = some false := by
    decide +kernel
  have hover := hcautious process hprocess
  rw [hparse] at hover
  exact fun h => absurd (h.symm.trans (Option.some.inj hover)) (by decide)

end OpdfEditor
