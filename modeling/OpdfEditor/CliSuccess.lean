import OpdfEditor.CliCatalogue

/-!
When a run succeeds. On files it knows, with an outside in which nothing fails, the tool does
what it is asked exactly where no output is in the way and the pages it is asked for are there.
-/
namespace OpdfEditor

open PdfDocument (pageShown Opened Composed)

/-! ### An outside in which nothing fails -/

/-- This file is serialised, written and read back in as it was. -/
structure SaveEnv.Obliging (env : SaveEnv) (written : LopdfDocument) : Prop where
  serialize : env.serialize written = .ok ()
  write : env.write written = .ok ()
  parse : ∃ file, env.parse written = .ok file
  faithful : env.FaithfulAt written

/-- Nothing fails that a run asks of the outside. -/
structure RunEnv.Obliging [Lopdf] (env : RunEnv) (invocation : Invocation) (fs : FileSystem) :
    Prop where
  created : env.created.serialize buildEmptyDocument = .ok () ∧
    ∃ file, env.created.parse buildEmptyDocument = .ok file
  pageless : env.created.StartsPageless
  save : ∀ save written, invocation.Hands env fs save written → save.Obliging written

theorem RunEnv.Obliging.sound [Lopdf] {env : RunEnv} {invocation : Invocation} {fs : FileSystem}
    (h : env.Obliging invocation fs) : env.Sound invocation fs where
  created := h.pageless
  faithful save written hwritten := (h.save save written hwritten).faithful
  reads save written hwritten _ := (h.save save written hwritten).parse

section Runs

variable [Lopdf] [LawfulLopdf]

theorem exists_empty {env : RunEnv} {invocation : Invocation} {fs : FileSystem}
    (henv : env.Obliging invocation fs) (id : DocumentId) :
    ∃ d, PdfDocument.empty env.created id = .ok d := by
  obtain ⟨hserialize, file, hparse⟩ := henv.created
  obtain ⟨root, hfile⟩ := henv.pageless file hparse
  unfold PdfDocument.empty SaveEnv.bytes
  rw [hserialize]
  dsimp only
  rw [hparse]
  dsimp only
  rw [hfile.readRootPagesId]
  exact ⟨_, rfl⟩

/-- A complete document with pages can be compacted. -/
theorem saveCompacted_runs {d : PdfDocument} {pages : List ObjectId} {env : SaveEnv}
    (hd : PdfDocument.Complete d pages) (hlive : d.pages.live ≠ [])
    (henv : ∀ written, d.Compacts written → env.Obliging written) :
    ∃ written d', d.saveCompacted env = (.ok written, d') := by
  obtain ⟨d₁, hm⟩ := hd.materializes
  have hobliging := henv _ ⟨d₁, hm, rfl⟩
  obtain ⟨file, hparse⟩ := hobliging.parse
  obtain ⟨hreread, hcounted⟩ := hobliging.faithful file hparse
  obtain ⟨f, htidy, -⟩ := hd.toOrderly.compacted hm hreread hcounted
  have hkeeps : d₁ = { d with incremental := d₁.incremental } := by
    have hsame := d.materializeChanges_keeps
    rwa [hm] at hsame
  have hpages : d₁.pages = d.pages := by rw [hkeeps]
  have hlength : (Lopdf.pageIter file).length = d₁.pages.live.length := by
    rw [LawfulLopdf.pageIter_eq htidy.toPageTree, List.length_map, hpages]
  unfold PdfDocument.saveCompacted
  rw [if_neg fun hzero => hlive (List.eq_nil_of_length_eq_zero hzero), hm]
  dsimp only
  rw [hobliging.serialize, hobliging.write, hparse]
  unfold PdfDocument.rebaseOnto PdfDocument.rebindObjects
  dsimp only
  rw [htidy.readRootPagesId, dif_pos hlength]
  exact ⟨_, _, rfl⟩

/-- What is appended to a complete document with pages is the same whatever writes it. -/
theorem saveIncremental_writable {d : PdfDocument} {pages : List ObjectId}
    (hd : PdfDocument.Complete d pages) (hlive : d.pages.live ≠ []) :
    ∃ written, ∀ env : SaveEnv, env.write written = .ok () →
      ∃ d', d.saveIncremental env = (.ok written, d') := by
  obtain ⟨d₁, hm⟩ := hd.materializes
  have hlength : d.pages.live.length ≠ 0 := fun hzero => hlive (List.eq_nil_of_length_eq_zero hzero)
  by_cases hclean : d.dirty.isClean = true
  · refine ⟨d.incremental.previous, fun env hwrite => ⟨d, ?_⟩⟩
    rw [PdfDocument.saveIncremental, if_neg hlength, if_pos hclean, hwrite]
  · refine ⟨d₁.incremental.written, fun env hwrite => ⟨d₁, ?_⟩⟩
    rw [PdfDocument.saveIncremental, if_neg hlength, if_neg hclean, hm]
    dsimp only
    rw [hwrite]

/-- A complete document with pages can be appended to. -/
theorem saveIncremental_runs {d : PdfDocument} {pages : List ObjectId} {env : SaveEnv}
    (hd : PdfDocument.Complete d pages) (hlive : d.pages.live ≠ [])
    (henv : ∀ written, d.Appends written → env.Obliging written) :
    ∃ written d', d.saveIncremental env = (.ok written, d') := by
  obtain ⟨written, hsaves⟩ := saveIncremental_writable hd hlive
  obtain ⟨d', hsave⟩ := hsaves .reliable rfl
  exact ⟨written, hsaves env (henv written ⟨_, d', hsave⟩).write⟩

omit [LawfulLopdf] in
theorem saveCompactedTo_runs {env : FileEnv} {path : OsString} {d : PdfDocument} (fs : FileSystem)
    (h : ∃ written d', d.saveCompacted env.toSaveEnv = (.ok written, d')) :
    (saveCompactedTo env path d fs).1 = .ok () := by
  obtain ⟨written, d', hsave⟩ := h
  rw [saveCompactedTo, hsave]
  rfl

omit [LawfulLopdf] in
theorem saveIncrementalTo_runs {env : FileEnv} {path : OsString} {d : PdfDocument} (fs : FileSystem)
    (h : ∃ written d', d.saveIncremental env.toSaveEnv = (.ok written, d')) :
    (saveIncrementalTo env path d fs).1 = .ok () := by
  obtain ⟨written, d', hsave⟩ := h
  rw [saveIncrementalTo, hsave]
  rfl

/-! ### Pages brought in -/

omit [Lopdf] [LawfulLopdf] in
theorem PdfDocument.Opened.copyable {source : PdfDocument} (h : Opened source) {slot : PageSlot}
    (hslot : slot ∈ source.pages.live) : PdfDocument.IsCopyable source.view slot := by
  obtain ⟨dict, hdict, -⟩ := Option.bind_eq_some_iff.1 (h.importable slot hslot).page
  obtain ⟨object, hobject, hdict⟩ := Option.bind_eq_some_iff.1 hdict
  exact ⟨dict, by rw [hobject, Object.asDict_eq_some.1 hdict]⟩

/-- Live pages of an opened document can be appended to any other. -/
theorem PdfDocument.Opened.appends {source : PdfDocument} (h : Opened source) {ids : List PageId}
    (hids : ∀ id ∈ ids, id ∈ Document.pageIds source) (d : PdfDocument) :
    ∃ newIds d', Document.importPages source ids (Document.pageCount d) d = (.ok newIds, d') := by
  refine (PdfDocument.importsCopyable source d ids hids).2 fun id hid => ?_
  obtain ⟨slot, hslot, rfl⟩ := List.mem_map.1 (hids id hid)
  exact ⟨slot, hslot, rfl, h.copyable hslot⟩

theorem applyMerge_runs {sources : List PdfDocument} (hsources : ∀ source ∈ sources, Opened source)
    (count : Nat) (removals : List (Command PdfDocument)) (d : PdfDocument) : ∃ inverse d',
      Command.applyMerge Command.apply count sources removals d = (.ok inverse, d') := by
  induction sources generalizing removals d with
  | nil => exact ⟨_, _, rfl⟩
  | cons source sources ih =>
    obtain ⟨hfirst, hrest⟩ := List.forall_mem_cons.1 hsources
    obtain ⟨newIds, d₁, himport⟩ := hfirst.appends (fun _ hid => hid) d
    rw [Command.applyMerge, himport]
    exact ih hrest _ d₁

theorem extractRuns_runs {source : PdfDocument} (hsource : Opened source) {indices : List Nat}
    (hascending : indices.Pairwise (· < ·)) (hbound : ∀ i ∈ indices, i < Document.pageCount source)
    (target : PdfDocument) :
    ∃ target', extractRuns source (contiguousRuns indices) target = (.ok (), target') := by
  refine (extractRuns_iff_copyable PdfDocument.importsCopyable hascending hbound).2 ?_
  intro i _ page hpage
  obtain ⟨slot, hslot, rfl⟩ := List.mem_map.1 (List.mem_of_getElem? hpage)
  exact ⟨slot, hslot, rfl, hsource.copyable hslot⟩

/-- An opened document can be split anywhere within it. -/
theorem splitAt_runs {document : PdfDocument} {boundary : Nat} (h : Opened document)
    (hboundary : boundary ≤ document.pages.live.length) (target : PdfDocument) :
    ∃ inverse head tail, splitAt document target boundary = (.ok inverse, head, tail) := by
  have hlength : (Document.pageIds document).length = document.pages.live.length := by
    rw [length_pageIds, PdfDocument.roster_live, List.length_map]
  have hids : ∀ id ∈ (Document.pageIds document).drop boundary, id ∈ (roster document).ids := by
    rw [← LawfulDocument.pageIds_eq]
    exact fun id => List.mem_of_mem_drop
  have hthere : ∀ id ∈ (Document.pageIds document).drop boundary, id ∈ Document.pageIds document :=
    fun id => List.mem_of_mem_drop
  obtain ⟨newIds, tail, himport⟩ := h.appends hthere target
  have hnodup : ((Document.pageIds document).drop boundary).Nodup := by
    rw [LawfulDocument.pageIds_eq]
    exact (roster document).live_nodup.sublist (List.drop_sublist _ _)
  obtain ⟨r, hr⟩ := Roster.removals_iff.2 ⟨hnodup, hids⟩
  have hremoves : ∃ inverse head, Command.applySequence Command.apply "Split off the tail"
      (((Document.pageIds document).drop boundary).map Command.removePage) [] document =
        (.ok inverse, head) := by
    obtain ⟨inverse, head, hremove, -⟩ := Command.follows_removePage.sequence.2 hr
    exact ⟨inverse, head, hremove⟩
  obtain ⟨inverse, head, hremove⟩ := hremoves
  unfold splitAt
  dsimp only
  rw [if_neg (by omega), himport]
  dsimp only
  rw [Command.apply_sequence, hremove]
  exact ⟨_, _, _, rfl⟩

/-! ### When a run succeeds -/

def Invocation.inputs : Invocation → List OsString
  | .help | .version => []
  | .merge args => args.inputPaths
  | .split args => [args.inputPath]
  | .rotate args => [args.inputPath]
  | .extract args => [args.inputPath]

def Clear (fs : FileSystem) (force : Bool) (path : OsString) : Prop :=
  force = true ∨ fs.contents path = none

def Resolves (c : Catalogue) (fs : FileSystem) (path : OsString) (selection : PageSelection) : Prop :=
  ∃ pages indices, c (fs.fileOf path) = some pages ∧ selection.resolved pages.length = .ok indices

omit [Lopdf] [LawfulLopdf] in
theorem Resolves.known {c : Catalogue} {fs : FileSystem} {path : OsString} {selection : PageSelection}
    (h : Resolves c fs path selection) : ∃ pages, c (fs.fileOf path) = some pages := by
  obtain ⟨pages, -, hpages, -⟩ := h
  exact ⟨pages, hpages⟩

/-- What a command line needs to go through. -/
def Invocation.Admissible (c : Catalogue) (fs : FileSystem) : Invocation → Prop
  | .help | .version => True
  | .merge args => Clear fs args.force args.outputPath ∧ args.inputPaths ≠ []
  | .split args => args.outAPath.samePath args.outBPath = false ∧ Clear fs args.force args.outAPath ∧
      Clear fs args.force args.outBPath ∧
      ∃ pages, c (fs.fileOf args.inputPath) = some pages ∧ 2 ≤ args.atPage ∧ args.atPage ≤ pages.length
  | .rotate args => (args.outputPath.isSome → Clear fs args.force args.output) ∧
      Resolves c fs args.inputPath args.pages
  | .extract args => Clear fs args.force args.outputPath ∧ Resolves c fs args.inputPath args.pages

omit [Lopdf] [LawfulLopdf] in
theorem guardOutput_iff {path : OsString} {force : Bool} {fs : FileSystem} :
    guardOutput path force fs = .ok () ↔ Clear fs force path := by
  refine ⟨guardOutput_clear, fun h => ?_⟩
  unfold guardOutput
  rcases h with rfl | hnone
  · rfl
  · simp [FileSystem.pathExists, hnone]

variable {c : Catalogue} {fs : FileSystem} {env : RunEnv}

/-- A file the catalogue knows can be opened. -/
theorem Catalogue.Describes.opens (hc : c.Describes fs) {path : OsString}
    {shown : List (PageSize × Rotation)} (hknown : c (fs.fileOf path) = some shown) (id : DocumentId) :
    ∃ d, fs.openPdf id path = .ok d ∧ Opened d ∧ d.looks = shown ∧ shown ≠ [] := by
  obtain ⟨bytes, hbytes, file, root, pages, rfl, hwhole, hne, hshown⟩ := hc _ _ hknown
  obtain ⟨d, hload, -⟩ := PdfDocument.exists_load_of_tidy hwhole.toTidy hne id
  have hopen : fs.openPdf id path = .ok d := (loads_of_contents hbytes id).trans hload
  obtain ⟨hopened, hlooks⟩ := hc.opened hopen hknown
  refine ⟨d, hopen, hopened, hlooks, ?_⟩
  rintro rfl
  exact hne (List.map_eq_nil_iff.1 hshown)

omit [Lopdf] [LawfulLopdf] in
/-- A run that makes a document saves it, and one that makes none fails. -/
theorem saveMade_ok {save : PdfDocument → FileSystem → Except CliError Unit × FileSystem}
    {made : Except CliError PdfDocument} {fs : FileSystem} :
    (saveMade save made fs).1 = .ok () ↔ ∃ d, made = .ok d ∧ (save d fs).1 = .ok () := by
  cases made with
  | error e => exact iff_of_false nofun fun ⟨d, hd, _⟩ => nomatch hd
  | ok d =>
    refine ⟨fun h => ⟨d, rfl, h⟩, ?_⟩
    rintro ⟨d', hd, h⟩
    cases hd
    exact h

omit [Lopdf] [LawfulLopdf] in
theorem live_ne_nil_of_looks {d : PdfDocument} (h : d.looks ≠ []) : d.pages.live ≠ [] := by
  intro hempty
  rw [PdfDocument.looks, hempty] at h
  exact h rfl

/-- What was composed and shows something can be saved. -/
theorem composed_saves {d : PdfDocument} (hd : Composed d) (hlooks : d.looks ≠ []) {env : FileEnv}
    (henv : ∀ written, d.Compacts written → env.Obliging written) (path : OsString) (fs : FileSystem) :
    (saveCompactedTo env path d fs).1 = .ok () :=
  saveCompactedTo_runs fs (saveCompacted_runs (hd.complete (live_ne_nil_of_looks hlooks))
    (live_ne_nil_of_looks hlooks) henv)

omit [LawfulLopdf] in
theorem live_of_saveCompactedTo {env : FileEnv} {path : OsString} {d : PdfDocument} {fs : FileSystem}
    (h : (saveCompactedTo env path d fs).1 = .ok ()) : d.pages.live ≠ [] := by
  obtain ⟨written, d', file, hsave, -, -⟩ :=
    saveCompactedTo_ok (Prod.ext h rfl : saveCompactedTo env path d fs = (.ok (), _))
  obtain ⟨d₁, -, hlength, -⟩ := PdfDocument.saveCompacted_ok hsave
  exact fun hempty => hlength (by rw [hempty]; rfl)

/-- Inputs that are known open, each to a document with pages. -/
theorem opens_all (hc : c.Describes fs) {paths : List OsString}
    (hknown : ∀ path ∈ paths, ∃ pages, c (fs.fileOf path) = some pages) (ids : Nat → DocumentId) :
    ∃ sources, (paths.zipIdx.mapM fun (path, i) => openDocument (ids i) path fs) = .ok sources ∧
      sources.length = paths.length ∧ ∀ source ∈ sources, Opened source ∧ source.looks ≠ [] := by
  have hopens : ∀ input ∈ paths.zipIdx, ∃ d, openDocument (ids input.2) input.1 fs = .ok d ∧
      Opened d ∧ d.looks ≠ [] := by
    intro input hinput
    obtain ⟨pages, hpages⟩ := hknown input.1 (List.fst_mem_of_mem_zipIdx hinput)
    obtain ⟨d, hopen, hopened, rfl, hne⟩ := hc.opens hpages (ids input.2)
    exact ⟨d, mapError_eq_ok.2 hopen, hopened, hne⟩
  obtain ⟨sources, hsources⟩ := Traversal.exists_mapM_eq_ok fun input hinput =>
    (hopens input hinput).imp fun _ h => h.1
  refine ⟨sources, hsources, ?_, fun source hsource => ?_⟩
  · rw [← (Traversal.mapM_eq_ok.1 hsources).length_eq, List.length_zipIdx]
  · obtain ⟨input, hinput, hopen⟩ := Traversal.exists_of_mapM hsources hsource
    obtain ⟨d, hd, hopened⟩ := hopens input hinput
    obtain rfl := Except.ok.inj (hd.symm.trans hopen)
    exact hopened

omit [LawfulLopdf] in
theorem merge_admitted {args : MergeArgs} {merged : PdfDocument}
    (h : mergedDocument env args fs = .ok merged) : Clear fs args.force args.outputPath ∧
      ∀ path ∈ args.inputPaths, ∃ id d, fs.openPdf id path = .ok d := by
  obtain ⟨sources, target, hmerged⟩ := mergedDocument_ok h
  refine ⟨guardOutput_iff.1 hmerged.guarded, fun path hpath => ?_⟩
  rw [← List.zipIdx_map_fst 0 args.inputPaths] at hpath
  obtain ⟨input, hinput, rfl⟩ := List.mem_map.1 hpath
  obtain ⟨source, -, hopen⟩ := exists_of_forall₂_left hmerged.opens hinput
  exact ⟨_, source, hopen⟩

theorem merge_succeeds {args : MergeArgs} (henv : env.Obliging (.merge args) fs) (hc : c.Describes fs)
    (hknown : ∀ path ∈ args.inputPaths, ∃ pages, c (fs.fileOf path) = some pages) :
    (runMerge env args fs).1 = .ok () ↔ Clear fs args.force args.outputPath ∧ args.inputPaths ≠ [] := by
  refine saveMade_ok.trans ⟨?_, ?_⟩
  · rintro ⟨merged, hmade, hsaved⟩
    refine ⟨(merge_admitted hmade).1, fun hnone => live_of_saveCompactedTo hsaved ?_⟩
    obtain ⟨sources, target, hmerged⟩ := mergedDocument_ok hmade
    have htogether : c.together fs.fileOf args.inputPaths = some [] := by
      rw [hnone]
      rfl
    exact List.map_eq_nil_iff.1 (hmerged.looks henv.pageless hc htogether).2
  · rintro ⟨hclear, hsome⟩
    obtain ⟨sources, hsources, hlength, hopened⟩ := opens_all hc hknown env.openedId
    obtain ⟨target, htarget⟩ := exists_empty henv env.createdId
    obtain ⟨inverse, merged, hmerge⟩ := applyMerge_runs
      (fun source hsource => (hopened source hsource).1) sources.length [] target
    obtain ⟨htargetComposed, hempty⟩ := henv.pageless.composed htarget
    obtain ⟨hcomposed, hlooks⟩ :=
      htargetComposed.merged (fun source hsource => (hopened source hsource).1) hmerge
    have hne : merged.looks ≠ [] := by
      obtain ⟨source, hsource⟩ := List.exists_mem_of_ne_nil sources fun hnil =>
        hsome (List.eq_nil_of_length_eq_zero (by rw [← hlength, hnil]; rfl))
      rw [hlooks, hempty, List.nil_append]
      intro hnil
      exact (hopened source hsource).2 (List.flatMap_eq_nil_iff.1 hnil source hsource)
    have hmade : mergedDocument env args fs = .ok merged := by
      refine bind_eq_ok.2 ⟨(), guardOutput_iff.2 hclear, bind_eq_ok.2 ⟨sources, hsources, ?_⟩⟩
      refine bind_eq_ok.2 ⟨target, mapError_eq_ok.2 htarget, ?_⟩
      rw [Command.apply_merge, hmerge]
    exact ⟨merged, hmade, composed_saves hcomposed hne
      (fun _ hwritten => henv.save _ _ ⟨rfl, merged, hmade, hwritten⟩) _ _⟩

/-- A split that is admitted makes its two documents, the pages of each known. -/
theorem splitDocuments_runs {args : SplitArgs} (henv : env.Obliging (.split args) fs)
    {opened : PdfDocument}
    (hopen : fs.openPdf (env.openedId 0) args.inputPath = .ok opened) (hopened : Opened opened)
    (hapart : args.outAPath.samePath args.outBPath = false)
    (hclearA : Clear fs args.force args.outAPath) (hclearB : Clear fs args.force args.outBPath)
    (hbounds : 2 ≤ args.atPage ∧ args.atPage ≤ opened.pages.live.length) :
    ∃ head tail, splitDocuments env.split args fs = .ok (head, tail) := by
  obtain ⟨target, htarget⟩ := exists_empty henv env.createdId
  have hboundary : args.atPage - 1 ≤ opened.pages.live.length := by omega
  obtain ⟨inverse, head, tail, hsplit⟩ := splitAt_runs hopened hboundary target
  refine ⟨head, tail, ?_⟩
  unfold splitDocuments
  rw [if_neg (by rw [hapart]; exact Bool.false_ne_true)]
  refine bind_eq_ok.2 ⟨(), guardOutput_iff.2 hclearA, bind_eq_ok.2 ⟨(), guardOutput_iff.2 hclearB, ?_⟩⟩
  refine bind_eq_ok.2 ⟨opened, mapError_eq_ok.2 hopen, ?_⟩
  have hcount : Document.pageCount opened = opened.pages.live.length := rfl
  dsimp only
  rw [if_neg (by omega)]
  refine bind_eq_ok.2 ⟨target, mapError_eq_ok.2 htarget, ?_⟩
  rw [hsplit]

omit [LawfulLopdf] in
theorem split_admitted {args : SplitArgs} {documents : PdfDocument × PdfDocument}
    (h : splitDocuments env.split args fs = .ok documents) :
    args.outAPath.samePath args.outBPath = false ∧ Clear fs args.force args.outAPath ∧
      Clear fs args.force args.outBPath ∧ ∃ opened, fs.openPdf (env.openedId 0) args.inputPath = .ok opened ∧
        2 ≤ args.atPage ∧ args.atPage ≤ opened.pages.live.length := by
  obtain ⟨opened, target, hprepared⟩ := splitDocuments_ok h
  have hclear : Clear fs args.force args.outAPath ∧ Clear fs args.force args.outBPath := by
    cases hforce : args.force with
    | true => exact ⟨.inl rfl, .inl rfl⟩
    | false => exact (hprepared.outputs hforce).imp .inr .inr
  exact ⟨spelt_apart_of_splitDocuments h, hclear.1, hclear.2, opened, hprepared.opens, hprepared.bounds⟩

theorem split_succeeds {args : SplitArgs} (henv : env.Obliging (.split args) fs) (hc : c.Describes fs)
    {pages : List (PageSize × Rotation)} (hknown : c (fs.fileOf args.inputPath) = some pages) :
    (runSplit env.split args fs).1 = .ok () ↔
      args.outAPath.samePath args.outBPath = false ∧ Clear fs args.force args.outAPath ∧
        Clear fs args.force args.outBPath ∧ 2 ≤ args.atPage ∧ args.atPage ≤ pages.length := by
  obtain ⟨opened, hopen, hopened, hlooks, -⟩ := hc.opens hknown (env.openedId 0)
  have hlength : pages.length = opened.pages.live.length := by
    rw [← hlooks, PdfDocument.looks, List.length_map]
  rw [hlength]
  constructor
  · intro hrun
    rcases runSplit_comes env.split args fs with ⟨e, hrefused, -⟩ | ⟨head, tail, hmade⟩
    · rw [hrefused] at hrun
      cases hrun
    · obtain ⟨hapart, hclearA, hclearB, opened', hopen', hbounds⟩ := split_admitted hmade
      obtain rfl := Except.ok.inj (hopen.symm.trans hopen')
      exact ⟨hapart, hclearA, hclearB, hbounds⟩
  · rintro ⟨hapart, hclearA, hclearB, hbounds⟩
    obtain ⟨head, tail, hmade⟩ :=
      splitDocuments_runs henv hopen hopened hapart hclearA hclearB hbounds
    obtain ⟨opened', target, hprepared⟩ := splitDocuments_ok hmade
    obtain ⟨⟨⟨known, hhead⟩, hheadLooks⟩, htail, htailLooks⟩ := hprepared.looks henv.pageless hc hknown
    have hheadLive : head.pages.live ≠ [] := by
      refine live_ne_nil_of_looks ?_
      rw [hheadLooks, Ne, List.take_eq_nil_iff]
      rintro (hzero | hnil)
      · omega
      · rw [hnil, List.length_nil] at hlength
        omega
    have htailSome : tail.looks ≠ [] := by
      rw [htailLooks, Ne, List.drop_eq_nil_iff]
      omega
    have hsaveHead : (saveCompactedTo env.split.saveHead args.outAPath head fs).1 = .ok () :=
      saveCompactedTo_runs fs (saveCompacted_runs hhead hheadLive fun _ hwritten =>
        henv.save _ _ ⟨head, tail, hmade, .inl ⟨rfl, hwritten⟩⟩)
    unfold runSplit
    rw [hmade]
    dsimp only
    split
    · rename_i hfailed
      rw [hfailed] at hsaveHead
      cases hsaveHead
    · exact composed_saves htail htailSome
        (fun _ hwritten => henv.save _ _ ⟨head, tail, hmade, .inr ⟨rfl, hwritten⟩⟩) _ _

omit [LawfulLopdf] in
/-- Positions within a document select pages of it. -/
theorem selectPages_runs {d : PdfDocument} {pages : PageSelection} {indices : List Nat}
    (h : pages.resolved (Document.pageCount d) = .ok indices) :
    ∃ selected, selectPages d pages = .ok selected ∧ ∀ id ∈ selected, id ∈ (roster d).ids := by
  obtain ⟨-, hbound, -⟩ := PageSelection.resolved_ok h
  have hat : ∀ i ∈ indices, ∃ id, (Document.pageIds d)[i]? = some id := by
    intro i hi
    have hlt := hbound i hi
    rw [LawfulDocument.pageCount_eq, ← length_pageIds] at hlt
    exact ⟨_, List.getElem?_eq_getElem hlt⟩
  obtain ⟨selected, hselected⟩ : ∃ selected, selectPages d pages = .ok selected := by
    unfold selectPages
    rw [h]
    refine Traversal.exists_mapM_eq_ok fun i hi => ?_
    obtain ⟨id, hid⟩ := hat i hi
    rw [hid]
    exact ⟨id, rfl⟩
  refine ⟨selected, hselected, fun id hid => ?_⟩
  obtain ⟨indices', -, hselects⟩ := selectPages_ok hselected
  obtain ⟨i, -, hi⟩ := exists_of_forall₂_right hselects hid
  rw [← LawfulDocument.pageIds_eq]
  exact List.mem_of_getElem? hi

omit [LawfulLopdf] in
theorem rotate_admitted {args : RotateArgs} {rotated : PdfDocument}
    (h : rotatedDocument env args fs = .ok rotated) :
    (args.outputPath.isSome → Clear fs args.force args.output) ∧
      ∃ opened, fs.openPdf (env.openedId 0) args.inputPath = .ok opened ∧
        ∃ indices, args.pages.resolved (Document.pageCount opened) = .ok indices := by
  obtain ⟨opened, selected, hrotated⟩ := rotatedDocument_ok h
  obtain ⟨indices, hindices, -⟩ := selectPages_ok hrotated.selects
  exact ⟨fun hout => guardOutput_iff.1 (hrotated.guarded hout), opened, hrotated.opens, indices, hindices⟩

theorem rotate_succeeds {args : RotateArgs} (henv : env.Obliging (.rotate args) fs)
    (hc : c.Describes fs)
    {pages : List (PageSize × Rotation)} (hknown : c (fs.fileOf args.inputPath) = some pages) :
    (runRotate env args fs).1 = .ok () ↔ (args.outputPath.isSome → Clear fs args.force args.output) ∧
      ∃ indices, args.pages.resolved pages.length = .ok indices := by
  obtain ⟨opened, hopen, hopened, hlooks, hne⟩ := hc.opens hknown (env.openedId 0)
  have hcount : pages.length = Document.pageCount opened := by
    rw [← PdfDocument.length_looks, hlooks]
  refine saveMade_ok.trans ⟨?_, ?_⟩
  · rintro ⟨rotated, hmade, -⟩
    obtain ⟨hclear, opened', hopen', hresolves⟩ := rotate_admitted hmade
    obtain rfl := Except.ok.inj (hopen.symm.trans hopen')
    rw [hcount]
    exact ⟨hclear, hresolves⟩
  · rintro ⟨hclear, indices, hindices⟩
    have hresolved := hindices
    rw [hcount] at hresolved
    obtain ⟨selected, hselected, hlive⟩ := selectPages_runs hresolved
    have hrotation : ∃ inverse rotated,
        (rotateSelection selected args.rotation).apply opened = (.ok inverse, rotated) :=
      rotateSelection_runs.2 hlive
    obtain ⟨inverse, rotated, hrotate⟩ := hrotation
    have hmade : rotatedDocument env args fs = .ok rotated := by
      refine bind_eq_ok.2 ⟨(), ?_, bind_eq_ok.2 ⟨opened, mapError_eq_ok.2 hopen, ?_⟩⟩
      · split
        · rename_i hout
          exact guardOutput_iff.2 (hclear hout)
        · rfl
      · refine bind_eq_ok.2 ⟨selected, hselected, ?_⟩
        rw [hrotate]
    obtain ⟨opened', selected', hrotated⟩ := rotatedDocument_ok hmade
    obtain ⟨⟨known, hcomplete⟩, hturned⟩ := hrotated.looks hc hknown hindices
    have hsome : rotated.looks ≠ [] := by
      rw [hturned, Catalogue.turned]
      exact fun hnil => hne (List.mapIdx_eq_nil_iff.1 hnil)
    exact ⟨rotated, hmade, saveIncrementalTo_runs fs
      (saveIncremental_runs hcomplete (live_ne_nil_of_looks hsome) fun _ hwritten =>
        henv.save _ _ ⟨rfl, rotated, hmade, hwritten⟩)⟩

omit [LawfulLopdf] in
theorem extract_admitted {args : ExtractArgs} {extracted : PdfDocument}
    (h : extractedDocument env args fs = .ok extracted) : Clear fs args.force args.outputPath ∧
      ∃ opened, fs.openPdf (env.openedId 0) args.inputPath = .ok opened ∧
        ∃ indices, args.pages.resolved (Document.pageCount opened) = .ok indices := by
  obtain ⟨opened, indices, target, hextracted⟩ := extractedDocument_ok h
  exact ⟨guardOutput_iff.1 hextracted.guarded, opened, hextracted.opens, indices, hextracted.resolves⟩

theorem extract_succeeds {args : ExtractArgs} (henv : env.Obliging (.extract args) fs)
    (hc : c.Describes fs)
    {pages : List (PageSize × Rotation)} (hknown : c (fs.fileOf args.inputPath) = some pages) :
    (runExtract env args fs).1 = .ok () ↔ Clear fs args.force args.outputPath ∧
      ∃ indices, args.pages.resolved pages.length = .ok indices := by
  obtain ⟨opened, hopen, hopened, hlooks, -⟩ := hc.opens hknown (env.openedId 0)
  have hcount : pages.length = Document.pageCount opened := by
    rw [← PdfDocument.length_looks, hlooks]
  refine saveMade_ok.trans ⟨?_, ?_⟩
  · rintro ⟨extracted, hmade, -⟩
    obtain ⟨hclear, opened', hopen', hresolves⟩ := extract_admitted hmade
    obtain rfl := Except.ok.inj (hopen.symm.trans hopen')
    rw [hcount]
    exact ⟨hclear, hresolves⟩
  · rintro ⟨hclear, indices, hindices⟩
    obtain ⟨hascending, hbound, hsome⟩ := PageSelection.resolved_ok hindices
    have hresolved := hindices
    rw [hcount] at hresolved hbound
    obtain ⟨target, htarget⟩ := exists_empty henv env.createdId
    obtain ⟨extracted, hextract⟩ := extractRuns_runs hopened hascending hbound target
    have hmade : extractedDocument env args fs = .ok extracted := by
      refine bind_eq_ok.2 ⟨(), guardOutput_iff.2 hclear, bind_eq_ok.2 ⟨opened, mapError_eq_ok.2 hopen, ?_⟩⟩
      refine bind_eq_ok.2 ⟨indices, mapError_eq_ok.2 hresolved, ?_⟩
      refine bind_eq_ok.2 ⟨target, mapError_eq_ok.2 htarget, ?_⟩
      rw [hextract]
    obtain ⟨opened', found, target', hextracted⟩ := extractedDocument_ok hmade
    obtain ⟨hcomposed, hpicked⟩ := hextracted.looks henv.pageless hc hknown hindices
    refine ⟨extracted, hmade, composed_saves hcomposed ?_
      (fun _ hwritten => henv.save _ _ ⟨rfl, extracted, hmade, hwritten⟩) _ _⟩
    obtain ⟨i, hi⟩ := List.exists_mem_of_ne_nil _ hsome
    have hlt := hbound i hi
    rw [← hcount] at hlt
    rw [hpicked]
    exact List.ne_nil_of_mem (List.mem_filterMap.2 ⟨i, hi, List.getElem?_eq_getElem hlt⟩)

/-- A run all of whose inputs are known succeeds where it is admitted, and only there. -/
theorem Invocation.run_succeeds {invocation : Invocation} (henv : env.Obliging invocation fs)
    (hc : c.Describes fs) (hknown : ∀ path ∈ invocation.inputs, ∃ pages, c (fs.fileOf path) = some pages) :
    (invocation.run env fs).1 = .ok () ↔ invocation.Admissible c fs := by
  cases invocation with
  | help => exact iff_of_true rfl trivial
  | version => exact iff_of_true rfl trivial
  | merge args => exact merge_succeeds henv hc hknown
  | split args =>
    obtain ⟨pages, hpages⟩ := hknown args.inputPath List.mem_cons_self
    refine (split_succeeds henv hc hpages).trans ?_
    simp [Invocation.Admissible, hpages]
  | rotate args =>
    obtain ⟨pages, hpages⟩ := hknown args.inputPath List.mem_cons_self
    refine (rotate_succeeds henv hc hpages).trans ?_
    simp [Invocation.Admissible, Resolves, hpages]
  | extract args =>
    obtain ⟨pages, hpages⟩ := hknown args.inputPath List.mem_cons_self
    refine (extract_succeeds henv hc hpages).trans ?_
    simp [Invocation.Admissible, Resolves, hpages]

/-- Where nothing outside fails and the files named as inputs are known to the catalogue, a process
that was asked for something exits with success exactly where no output is in the way (or writing
over it was allowed, or the file is edited in place) and the pages asked for are among those known:
the boundary leaves both halves something, the two halves go under two spellings, the selection
resolves in a document of that length. -/
theorem process_succeeds_iff_admissible (process : Process) (fs : FileSystem) (c : Catalogue)
    (invocation : Invocation) (hparse : parseArgs process.items = .ok invocation)
    (henv : process.env.Obliging invocation fs) (hc : c.Describes fs)
    (hknown : ∀ path ∈ invocation.inputs, ∃ pages, c (fs.fileOf path) = some pages) :
    (runOpdfCli process.env process.items fs).1.exitCode = 0 ↔ invocation.Admissible c fs := by
  rw [← Invocation.run_succeeds henv hc hknown]
  unfold runOpdfCli carryOut
  rw [hparse]
  exact Report.of_exitCode

end Runs

namespace SplitDisk

theorem obliging_recounting (written : LopdfDocument) : recounting.Obliging written :=
  ⟨rfl, rfl, ⟨_, rfl⟩, faithful_recounting written⟩

theorem obliging_runEnv [Lopdf] (invocation : Invocation) (fs : FileSystem) :
    runEnv.Obliging invocation fs where
  created := ⟨rfl, _, SaveEnv.parse_streaming⟩
  pageless := startsPageless_streaming
  save _ written h := hands_runEnv h ▸ obliging_recounting written

end SplitDisk

open scoped WalkingLopdf in
open SplitDisk in
/-- Nothing stands in the way of halving three pages after the first. -/
theorem halving_three_pages_succeeds : (runOpdfCli runEnv halving.items disk).1.exitCode = 0 :=
  (process_succeeds_iff_admissible halving disk catalogue (.split (args "rest.pdf"))
    (toOption_eq_some.1 (by decide +kernel)) (obliging_runEnv _ _) describes
    (List.forall_mem_singleton.2 ⟨_, rfl⟩)).2
    ⟨by decide +kernel, .inr rfl, .inr rfl, _, rfl, by decide, by decide⟩

end OpdfEditor
