import OpdfEditor.CliRuns
import OpdfEditor.MadeDocuments

/-!
What the files of a directory hold over a session of the command line tool, told from the
command lines and how they came out. A catalogue says of some files which pages they hold and
how these look; every run takes a catalogue that describes the files to one that does.
-/
namespace OpdfEditor

open PdfDocument (pageShown Opened Composed)

/-! ### Catalogues -/

/-- The pages files hold, as they look; nothing where nothing is known of a file. -/
abbrev Catalogue := Nat → Option (List (PageSize × Rotation))

namespace Catalogue

def together (fileOf : OsString → Nat) (c : Catalogue) (paths : List OsString) :
    Option (List (PageSize × Rotation)) :=
  (paths.mapM fun path => c (fileOf path)).map List.flatten

def turned (indices : List Nat) (rotation : Rotation) (pages : List (PageSize × Rotation)) :
    List (PageSize × Rotation) :=
  pages.mapIdx fun i look => if i ∈ indices then (look.1, rotation) else look

/-- The catalogue once outputs were written in turn, up to the one that failed, of which nothing is
known any more. -/
def after (fileOf : OsString → Nat) :
    List (OsString × Option (List (PageSize × Rotation))) → Except CliError Unit → Catalogue → Catalogue
  | [], _, c => c
  | (path, pages) :: writes, .ok (), c =>
    after fileOf writes (.ok ()) (Function.update c (fileOf path) pages)
  | (path, pages) :: writes, .error (.saveFailed failed source), c =>
    if path = failed then Function.update c (fileOf path) none
    else after fileOf writes (.error (.saveFailed failed source)) (Function.update c (fileOf path) pages)
  | _ :: _, .error _, c => c

end Catalogue

/-- What the outputs of a run are to hold, in the order they are written. -/
def Invocation.writes (fileOf : OsString → Nat) (c : Catalogue) :
    Invocation → List (OsString × Option (List (PageSize × Rotation)))
  | .help | .version => []
  | .merge args => [(args.outputPath, c.together fileOf args.inputPaths)]
  | .split args =>
    let input := c (fileOf args.inputPath)
    [(args.outAPath, input.map (List.take (args.atPage - 1))),
      (args.outBPath, input.map (List.drop (args.atPage - 1)))]
  | .rotate args =>
    [(args.output, (c (fileOf args.inputPath)).bind fun pages =>
      (args.pages.resolved pages.length).toOption.map fun indices =>
        Catalogue.turned indices args.rotation pages)]
  | .extract args =>
    [(args.outputPath, (c (fileOf args.inputPath)).bind fun pages =>
      (args.pages.resolved pages.length).toOption.map fun indices => indices.filterMap (pages[·]?))]

theorem Invocation.writes_paths (fileOf : OsString → Nat) (c : Catalogue) (invocation : Invocation) :
    (invocation.writes fileOf c).map Prod.fst = invocation.outputs := by
  cases invocation <;> rfl

/-- The catalogue after one command line that came out in some way. -/
def Catalogue.step (fileOf : OsString → Nat) (c : Catalogue)
    (run : List OsString × Except CliError Unit) : Catalogue :=
  match parseArgs run.1 with
  | .error _ => c
  | .ok invocation => c.after fileOf (invocation.writes fileOf c) run.2

/-! ### What a catalogue says of files -/

/-- Bytes that read as pages that look so, and go on doing so wherever they are put. -/
def PdfBytes.Shows (bytes : PdfBytes) (shown : List (PageSize × Rotation)) : Prop :=
  ∃ file root pages, bytes = .file file ∧ Whole file root pages ∧ pages ≠ [] ∧
    pages.map (pageShown file.objects) = shown

/-- Every file the catalogue knows is there and holds what it says. -/
def Catalogue.Describes (c : Catalogue) (fs : FileSystem) : Prop :=
  ∀ file shown, c file = some shown → ∃ bytes, fs.files file = some bytes ∧ bytes.Shows shown

/-- What an entry of a catalogue asks of bytes. -/
def holdsAs (shown : Option (List (PageSize × Rotation))) (bytes : PdfBytes) : Prop :=
  ∀ pages, shown = some pages → bytes.Shows pages

namespace Catalogue.Describes

variable {c : Catalogue} {fs : FileSystem}

theorem put (h : c.Describes fs) {path : OsString} {shown : Option (List (PageSize × Rotation))}
    {bytes : PdfBytes} (hbytes : holdsAs shown bytes) :
    Catalogue.Describes (Function.update c (fs.fileOf path) shown) (fs.put path bytes) := by
  intro file pages hfile
  by_cases hsame : file = fs.fileOf path
  · subst hsame
    rw [Function.update_self] at hfile
    exact ⟨bytes, Function.update_self .., hbytes pages hfile⟩
  · rw [Function.update_of_ne hsame] at hfile
    rw [FileSystem.files_put_of_ne hsame]
    exact h file pages hfile

theorem receive (h : c.Describes fs) (path : OsString) (left : Option PdfBytes) :
    Catalogue.Describes (Function.update c (fs.fileOf path) none) (fs.receive path left) := by
  intro file pages hfile
  by_cases hsame : file = fs.fileOf path
  · subst hsame
    rw [Function.update_self] at hfile
    cases hfile
  · rw [Function.update_of_ne hsame] at hfile
    rw [FileSystem.files_receive_of_ne hsame]
    exact h file pages hfile

end Catalogue.Describes

/-- Refused, a run leaves the catalogue as it was. -/
theorem Catalogue.after_refused (fileOf : OsString → Nat)
    (writes : List (OsString × Option (List (PageSize × Rotation)))) {e : CliError}
    (he : ∀ path source, e ≠ .saveFailed path source) (c : Catalogue) :
    c.after fileOf writes (.error e) = c := by
  cases writes with
  | nil => rfl
  | cons write writes =>
    cases e with
    | saveFailed path source => exact absurd rfl (he path source)
    | _ => rfl

/-- Saves in turn that leave what is asked take a catalogue along. -/
theorem SavesInTurn.describes {writes : List (OsString × Option (List (PageSize × Rotation)))}
    (hdistinct : (writes.map Prod.fst).Nodup) {fs : FileSystem}
    {outcome : Except CliError Unit × FileSystem}
    (h : SavesInTurn (writes.map fun write => (write.1, holdsAs write.2)) fs outcome) {c : Catalogue}
    (hc : c.Describes fs) : (c.after fs.fileOf writes outcome.1).Describes outcome.2 := by
  induction writes generalizing fs c with
  | nil =>
    cases h
    exact hc
  | cons write writes ih =>
    rw [List.map_cons] at h
    obtain ⟨hnot, hdistinct⟩ := List.nodup_cons.1 hdistinct
    cases h with
    | failed =>
      unfold Catalogue.after
      rw [if_pos rfl]
      exact hc.receive write.1 _
    | saved hbytes hrest =>
      have hnext := ih hdistinct hrest (hc.put hbytes)
      rw [FileSystem.fileOf_put] at hnext
      rcases hout : outcome.1 with e | ⟨⟩
      · obtain ⟨path, source, rfl, hpath⟩ := hrest.failed_among hout
        have hne : write.1 ≠ path := by
          rintro rfl
          exact hnot (by simpa using hpath)
        rw [hout] at hnext
        unfold Catalogue.after
        rwa [if_neg hne]
      · rw [hout] at hnext
        exact hnext

/-! ### What runs read and write -/

/-- What the minimal file is read back as has no pages, if it is read back. -/
def SaveEnv.StartsPageless (env : SaveEnv) : Prop :=
  ∀ file, env.parse buildEmptyDocument = .ok file → ∃ root, Pageless file root

section Writes

variable [Lopdf]

/-- The file an incremental save of this document writes. -/
def PdfDocument.Appends (d : PdfDocument) (written : LopdfDocument) : Prop :=
  ∃ env d', d.saveIncremental env = (.ok written, d')

/-- A file a run gets to write, and what it is written by. -/
def Invocation.Hands (env : RunEnv) (fs : FileSystem) :
    Invocation → SaveEnv → LopdfDocument → Prop
  | .help, _, _ | .version, _, _ => False
  | .merge args, save, written =>
    save = env.save.toSaveEnv ∧ ∃ d, mergedDocument env args fs = .ok d ∧ d.Compacts written
  | .split args, save, written => ∃ head tail, splitDocuments env.split args fs = .ok (head, tail) ∧
      (save = env.save.toSaveEnv ∧ head.Compacts written ∨
        save = env.saveTail.toSaveEnv ∧ tail.Compacts written)
  | .rotate args, save, written =>
    save = env.save.toSaveEnv ∧ ∃ d, rotatedDocument env args fs = .ok d ∧ d.Appends written
  | .extract args, save, written =>
    save = env.save.toSaveEnv ∧ ∃ d, extractedDocument env args fs = .ok d ∧ d.Compacts written

/-- What a run relies on: a document created has no pages, and the files the run writes can be read
and are read back as they were written. -/
structure RunEnv.Sound (env : RunEnv) (invocation : Invocation) (fs : FileSystem) : Prop where
  created : env.created.StartsPageless
  faithful : ∀ save written, invocation.Hands env fs save written → save.FaithfulAt written
  reads : ∀ save written, invocation.Hands env fs save written → save.write written = .ok () →
    ∃ file, save.parse written = .ok file

end Writes

section Runs

variable [Lopdf] [LawfulLopdf] {c : Catalogue} {fs : FileSystem} {env : RunEnv}

theorem SaveEnv.StartsPageless.composed {env : SaveEnv} (h : env.StartsPageless) {id : DocumentId}
    {d : PdfDocument} (hempty : PdfDocument.empty env id = .ok d) : Composed d ∧ d.looks = [] := by
  obtain ⟨file, hparse⟩ := PdfDocument.parse_of_empty hempty
  obtain ⟨root, hpageless⟩ := h file hparse
  exact PdfDocument.composed_of_empty hparse hpageless hempty

/-- A document opened from a file the catalogue knows shows what it says. -/
theorem Catalogue.Describes.opened (hc : c.Describes fs) {path : OsString} {id : DocumentId}
    {d : PdfDocument} (hopen : fs.openPdf id path = .ok d) {shown : List (PageSize × Rotation)}
    (hknown : c (fs.fileOf path) = some shown) : Opened d ∧ d.looks = shown := by
  obtain ⟨bytes, hbytes, file, root, pages, rfl, hwhole, -, hshown⟩ := hc _ _ hknown
  rw [loads_of_contents hbytes] at hopen
  rw [← hshown]
  exact PdfDocument.opened_load hwhole hopen

/-- Bytes that show some pages read as them. -/
theorem shownAt_of_shows {path : OsString} {bytes : PdfBytes} (hbytes : fs.contents path = some bytes)
    {shown : List (PageSize × Rotation)} (h : bytes.Shows shown) (id : DocumentId) :
    fs.shownAt id path = .ok shown := by
  obtain ⟨file, root, pages, rfl, hwhole, hpages, rfl⟩ := h
  obtain ⟨d, hload, hlooks⟩ := PdfDocument.exists_load_of_tidy hwhole.toTidy hpages id
  rw [shownAt_of_load hbytes hload, hlooks]

omit [Lopdf] [LawfulLopdf] in
/-- What was written of a complete document shows what the document did. -/
theorem shows_of_written {d : PdfDocument} {file : LopdfDocument} (hlive : d.pages.live ≠ [])
    (hwritten : ∃ root pages, Whole file root pages ∧
      pages.map (pageShown file.objects) = d.pages.live.map PageSlot.shown) :
    PdfBytes.Shows (.file file) d.looks := by
  obtain ⟨root, pages, hwhole, hshown⟩ := hwritten
  refine ⟨file, root, pages, rfl, hwhole, ?_, hshown⟩
  rintro rfl
  exact hlive (List.map_eq_nil_iff.1 hshown.symm)

theorem shows_compacted {d d' : PdfDocument} {env : SaveEnv} (hfaithful : env.FaithfulTo d)
    (hcomplete : d.pages.live ≠ [] → ∃ pages, PdfDocument.Complete d pages)
    {written file : LopdfDocument} (hsave : d.saveCompacted env = (.ok written, d'))
    (hparse : env.parse written = .ok file) : PdfBytes.Shows (.file file) d.looks := by
  obtain ⟨d₁, -, hlength, hm, rfl, -⟩ := PdfDocument.saveCompacted_ok hsave
  have hlive : d.pages.live ≠ [] := fun hempty => hlength (by rw [hempty]; rfl)
  obtain ⟨pages, hd⟩ := hcomplete hlive
  obtain ⟨hreread, hcounted⟩ := hfaithful _ ⟨d₁, hm, rfl⟩ file hparse
  exact shows_of_written hlive (hd.written_compacted hsave hreread hcounted)

omit [LawfulLopdf] in
/-- An update that was appended was written, and there were pages to write. -/
theorem saveIncremental_writes {d d' : PdfDocument} {env : SaveEnv} {written : LopdfDocument}
    (hsave : d.saveIncremental env = (.ok written, d')) :
    d.pages.live ≠ [] ∧ env.write written = .ok () := by
  unfold PdfDocument.saveIncremental at hsave
  split_ifs at hsave with hpages hclean
  · cases hsave
  · refine ⟨fun hempty => hpages (by rw [hempty]; rfl), ?_⟩
    split at hsave
    · cases hsave
    · rename_i hwrite
      cases hsave
      exact hwrite
  · refine ⟨fun hempty => hpages (by rw [hempty]; rfl), ?_⟩
    split at hsave
    · cases hsave
    split at hsave
    · cases hsave
    · rename_i hwrite
      cases hsave
      exact hwrite

theorem shows_appended {d d' : PdfDocument} {pages : List ObjectId} {env : FileEnv}
    (hcomplete : PdfDocument.Complete d pages) {written : LopdfDocument}
    (hfaithful : env.FaithfulAt written)
    (hreads : env.write written = .ok () → ∃ file, env.parse written = .ok file)
    (hsave : d.saveIncremental env.toSaveEnv = (.ok written, d')) :
    (env.readsBack written).Shows d.looks := by
  obtain ⟨hlive, hwrite⟩ := saveIncremental_writes hsave
  obtain ⟨file, hparse⟩ := hreads hwrite
  obtain ⟨hreread, hcounted⟩ := hfaithful file hparse
  unfold FileEnv.readsBack
  rw [hparse]
  exact shows_of_written hlive (hcomplete.written_incremental hsave hreread hcounted)

/-- A document whose pages are told, and which is complete then, leaves what is told of it. -/
theorem compacted_inTurn {env : FileEnv} {d : PdfDocument} (hfaithful : env.FaithfulTo d)
    {told : Option (List (PageSize × Rotation))} (hmade : ∀ shown, told = some shown →
      (d.pages.live ≠ [] → ∃ pages, PdfDocument.Complete d pages) ∧ d.looks = shown)
    (path : OsString) (fs : FileSystem) :
    SavesInTurn [(path, holdsAs told)] fs (saveCompactedTo env path d fs) := by
  refine saveCompactedTo_inTurn fun written d' file hsave hparse shown htold => ?_
  obtain ⟨hcomplete, rfl⟩ := hmade shown htold
  exact shows_compacted hfaithful hcomplete hsave hparse

/-- Documents known by the catalogue, opened in order. -/
theorem opened_together (hc : c.Describes fs) {paths : List OsString} {sources : List PdfDocument}
    (hopens : List.Forall₂ (fun path source => ∃ id, fs.openPdf id path = .ok source) paths sources)
    {shown : List (PageSize × Rotation)} (hknown : c.together fs.fileOf paths = some shown) :
    (∀ source ∈ sources, Opened source) ∧ sources.flatMap PdfDocument.looks = shown := by
  unfold Catalogue.together at hknown
  obtain ⟨all, hall, rfl⟩ := Option.map_eq_some_iff.1 hknown
  clear hknown
  induction hopens generalizing all with
  | nil =>
    cases hall
    exact ⟨List.forall_mem_nil _, rfl⟩
  | @cons path source paths sources hopen _ ih =>
    rw [List.mapM_cons] at hall
    obtain ⟨first, hfirst, hall⟩ := Option.bind_eq_some_iff.1 hall
    obtain ⟨rest, hrest, hall⟩ := Option.bind_eq_some_iff.1 hall
    cases hall
    obtain ⟨id, hopen⟩ := hopen
    obtain ⟨hopened, hlooks⟩ := hc.opened hopen hfirst
    obtain ⟨hsources, hshown⟩ := ih rest hrest
    refine ⟨List.forall_mem_cons.2 ⟨hopened, hsources⟩, ?_⟩
    rw [List.flatMap_cons, hlooks, hshown]
    rfl

theorem MergedFrom.looks {args : MergeArgs} {sources : List PdfDocument} {target merged : PdfDocument}
    (h : MergedFrom env args fs sources target merged) (hcreated : env.created.StartsPageless)
    (hc : c.Describes fs) {shown : List (PageSize × Rotation)}
    (hknown : c.together fs.fileOf args.inputPaths = some shown) :
    Composed merged ∧ merged.looks = shown := by
  have hopens : List.Forall₂ (fun path source => ∃ id, fs.openPdf id path = .ok source)
      args.inputPaths sources := by
    rw [← List.zipIdx_map_fst 0 args.inputPaths, List.forall₂_map_left_iff]
    exact h.opens.imp fun input source hopen => ⟨_, hopen⟩
  obtain ⟨hsources, hshown⟩ := opened_together hc hopens hknown
  obtain ⟨htarget, hempty⟩ := hcreated.composed h.created
  obtain ⟨inverse, hmerge⟩ := h.merges
  rw [Command.apply_merge] at hmerge
  obtain ⟨hmerged, hlooks⟩ := htarget.merged hsources hmerge
  refine ⟨hmerged, ?_⟩
  rw [hlooks, hempty, hshown, List.nil_append]

omit [LawfulLopdf] in
theorem selectPages_ok {d : PdfDocument} {pages : PageSelection} {selected : List PageId}
    (h : selectPages d pages = .ok selected) : ∃ indices,
      pages.resolved (Document.pageCount d) = .ok indices ∧
      List.Forall₂ (fun i id => (Document.pageIds d)[i]? = some id) indices selected := by
  unfold selectPages at h
  obtain ⟨indices, hindices, h⟩ := bind_eq_ok.1 h
  refine ⟨indices, mapError_eq_ok.1 hindices, (Traversal.mapM_eq_ok.1 h).imp fun i id hid => ?_⟩
  split at hid
  · rename_i hat
    cases hid
    exact hat
  · cases hid

theorem RotatedFrom.looks {args : RotateArgs} {opened rotated : PdfDocument} {selected : List PageId}
    (h : RotatedFrom env args fs opened selected rotated) (hc : c.Describes fs)
    {pages : List (PageSize × Rotation)} (hknown : c (fs.fileOf args.inputPath) = some pages)
    {indices : List Nat} (hresolved : args.pages.resolved pages.length = .ok indices) :
    (∃ pages, PdfDocument.Complete rotated pages) ∧
      rotated.looks = Catalogue.turned indices args.rotation pages := by
  obtain ⟨⟨⟨known, hcomplete⟩, -⟩, rfl⟩ := hc.opened h.opens hknown
  obtain ⟨indices', hindices, hselected⟩ := selectPages_ok h.selects
  rw [PdfDocument.length_looks, hindices] at hresolved
  obtain rfl := Except.ok.inj hresolved
  obtain ⟨inverse, hrotate⟩ := h.rotates
  exact ⟨⟨known, hcomplete.rotated hrotate⟩, PdfDocument.rotated_looks hselected hrotate⟩

theorem ExtractedFrom.looks {args : ExtractArgs} {opened target extracted : PdfDocument}
    {found : List Nat} (h : ExtractedFrom env args fs opened found target extracted)
    (hcreated : env.created.StartsPageless) (hc : c.Describes fs) {pages : List (PageSize × Rotation)}
    (hknown : c (fs.fileOf args.inputPath) = some pages) {indices : List Nat}
    (hresolved : args.pages.resolved pages.length = .ok indices) :
    Composed extracted ∧ extracted.looks = indices.filterMap (pages[·]?) := by
  obtain ⟨hopened, rfl⟩ := hc.opened h.opens hknown
  rw [PdfDocument.length_looks, h.resolves] at hresolved
  obtain rfl := Except.ok.inj hresolved
  obtain ⟨hascending, hbound, -⟩ := PageSelection.resolved_ok h.resolves
  obtain ⟨htarget, hempty⟩ := hcreated.composed h.created
  have hwithin := (covers_contiguousRuns hascending).within hbound
  rw [LawfulDocument.pageCount_eq, ← length_pageIds] at hwithin
  have hlive : (roster target).live = [] := by
    rw [PdfDocument.looks_eq] at hempty
    exact List.map_eq_nil_iff.1 hempty
  refine ⟨htarget.extracted hwithin hopened h.extracts, ?_⟩
  rw [PdfDocument.looks_eq, (extractRuns_extracted hascending hlive hbound h.extracts).pages]
  refine List.filterMap_congr fun i _ => ?_
  rw [PdfDocument.looks_eq, List.getElem?_map]

theorem Prepared.looks {args : SplitArgs} {opened target head tail : PdfDocument}
    (h : Prepared env.split args fs opened target head tail)
    (hcreated : env.created.StartsPageless) (hc : c.Describes fs) {pages : List (PageSize × Rotation)}
    (hknown : c (fs.fileOf args.inputPath) = some pages) :
    ((∃ known, PdfDocument.Complete head known) ∧ head.looks = pages.take (args.atPage - 1)) ∧
      Composed tail ∧ tail.looks = pages.drop (args.atPage - 1) := by
  obtain ⟨hopened, rfl⟩ := hc.opened h.opens hknown
  obtain ⟨htarget, hempty⟩ := hcreated.composed h.created
  obtain ⟨inverse, hsplit⟩ := h.splits
  obtain ⟨newIds, removal, himport, -, -⟩ := splitAt_eq_ok hsplit
  obtain ⟨hlow, hhigh⟩ := h.bounds
  have hboundary : args.atPage - 1 < opened.pages.live.length := by omega
  obtain ⟨known, hcomplete⟩ := hopened.complete
  obtain ⟨hhead, hheadLooks⟩ := hcomplete.head hboundary
  rw [← splitAt_head hsplit] at hhead hheadLooks
  refine ⟨⟨⟨known, hhead⟩, hheadLooks⟩, htarget.appended hopened himport, ?_⟩
  have hids : (Document.pageIds opened).drop (args.atPage - 1) =
      ((roster opened).live.drop (args.atPage - 1)).map pageId := by
    rw [LawfulDocument.pageIds_eq, Roster.ids, List.map_drop]
  have hpages : ((Document.pageIds opened).drop (args.atPage - 1)).mapM (Document.page · opened) =
      .ok ((roster opened).live.drop (args.atPage - 1)) := by
    rw [hids]
    exact mapM_page opened fun slot hslot => List.mem_of_mem_drop hslot
  rw [PdfDocument.appended_looks hpages himport, hempty, List.nil_append, List.map_drop,
    PdfDocument.looks_eq]

/-! ### The catalogue over a session -/

/-- A run is refused, or leaves its outputs as the catalogue tells. -/
theorem Invocation.run_describes {invocation : Invocation} (henv : env.Sound invocation fs)
    (hc : c.Describes fs) :
    Refused fs (invocation.run env fs) ∨
      ((invocation.writes fs.fileOf c).map Prod.fst).Nodup ∧
      SavesInTurn ((invocation.writes fs.fileOf c).map fun write => (write.1, holdsAs write.2)) fs
        (invocation.run env fs) := by
  cases invocation with
  | help => exact .inr ⟨List.nodup_nil, .done fs⟩
  | version => exact .inr ⟨List.nodup_nil, .done fs⟩
  | merge args =>
    refine (saveMade_comes (unsaved_mergedDocument env args fs) fun d hmade => ?_).imp_right
      fun h => ⟨List.nodup_singleton _, h.2⟩
    obtain ⟨sources, target, hmerged⟩ := mergedDocument_ok hmade
    refine compacted_inTurn (fun _ hwritten => henv.faithful _ _ ⟨rfl, d, hmade, hwritten⟩)
      (fun shown hknown => ?_) _ _
    obtain ⟨hcomposed, hlooks⟩ := hmerged.looks henv.created hc hknown
    exact ⟨fun hlive => ⟨[], hcomposed.complete hlive⟩, hlooks⟩
  | split args =>
    rcases runSplit_comes env.split args fs with hrefused | ⟨head, tail, hmade⟩
    · exact .inl hrefused
    obtain ⟨opened, target, hprepared⟩ := splitDocuments_ok hmade
    have hhead : env.save.FaithfulTo head := fun _ hwritten =>
      henv.faithful _ _ ⟨head, tail, hmade, .inl ⟨rfl, hwritten⟩⟩
    have htail : env.saveTail.FaithfulTo tail := fun _ hwritten =>
      henv.faithful _ _ ⟨head, tail, hmade, .inr ⟨rfl, hwritten⟩⟩
    refine .inr ⟨?_, runSplit_inTurn hmade (compacted_inTurn hhead (fun shown hknown => ?_) _ _)
      fun fs' => compacted_inTurn htail (fun shown hknown => ?_) _ _⟩
    · refine List.nodup_cons.2 ⟨fun hmem => ?_, List.nodup_singleton _⟩
      have hapart := spelt_apart_of_splitDocuments hmade
      have hsame : args.outAPath = args.outBPath := List.mem_singleton.1 hmem
      rw [hsame, OsString.samePath_self] at hapart
      cases hapart
    · obtain ⟨pages, hpages, rfl⟩ := Option.map_eq_some_iff.1 hknown
      obtain ⟨⟨hcomplete, hlooks⟩, -⟩ := hprepared.looks henv.created hc hpages
      exact ⟨fun _ => hcomplete, hlooks⟩
    · obtain ⟨pages, hpages, rfl⟩ := Option.map_eq_some_iff.1 hknown
      obtain ⟨-, hcomposed, hlooks⟩ := hprepared.looks henv.created hc hpages
      exact ⟨fun hlive => ⟨[], hcomposed.complete hlive⟩, hlooks⟩
  | rotate args =>
    refine (saveMade_comes (unsaved_rotatedDocument env args fs) fun d hmade => ?_).imp_right
      fun h => ⟨List.nodup_singleton _, h.2⟩
    obtain ⟨opened, selected, hrotated⟩ := rotatedDocument_ok hmade
    refine saveIncrementalTo_inTurn fun written d' hsave shown hknown => ?_
    obtain ⟨pages, hpages, hknown⟩ := Option.bind_eq_some_iff.1 hknown
    obtain ⟨indices, hindices, rfl⟩ := Option.map_eq_some_iff.1 hknown
    obtain ⟨⟨known, hcomplete⟩, hlooks⟩ := hrotated.looks hc hpages (toOption_eq_some.1 hindices)
    rw [← hlooks]
    have hwritten : (Invocation.rotate args).Hands env fs env.save.toSaveEnv written :=
      ⟨rfl, d, hmade, _, _, hsave⟩
    exact shows_appended hcomplete (henv.faithful _ _ hwritten) (henv.reads _ _ hwritten) hsave
  | extract args =>
    refine (saveMade_comes (unsaved_extractedDocument env args fs) fun d hmade => ?_).imp_right
      fun h => ⟨List.nodup_singleton _, h.2⟩
    obtain ⟨opened, found, target, hextracted⟩ := extractedDocument_ok hmade
    refine compacted_inTurn (fun _ hwritten => henv.faithful _ _ ⟨rfl, d, hmade, hwritten⟩)
      (fun shown hknown => ?_) _ _
    obtain ⟨pages, hpages, hknown⟩ := Option.bind_eq_some_iff.1 hknown
    obtain ⟨indices, hindices, rfl⟩ := Option.map_eq_some_iff.1 hknown
    obtain ⟨hcomposed, hlooks⟩ := hextracted.looks henv.created hc hpages (toOption_eq_some.1 hindices)
    exact ⟨fun hlive => ⟨[], hcomposed.complete hlive⟩, hlooks⟩

/-- One process takes the catalogue along. -/
theorem carryOut_describes {items : List OsString}
    (henv : ∀ invocation, parseArgs items = .ok invocation → env.Sound invocation fs)
    (hc : c.Describes fs) :
    (c.step fs.fileOf (items, (carryOut env items fs).1)).Describes (carryOut env items fs).2 := by
  unfold Catalogue.step carryOut
  cases hparse : parseArgs items with
  | error e => exact hc
  | ok invocation =>
    dsimp only
    rcases Invocation.run_describes (henv invocation hparse) hc with ⟨e, heq, he⟩ | ⟨hdistinct, hsaves⟩
    · rw [heq, Catalogue.after_refused _ _ he]
      exact hc
    · exact hsaves.describes hdistinct hc

def outcomesOf : List Process → FileSystem → List (List OsString × Except CliError Unit)
  | [], _ => []
  | process :: processes, fs =>
    let outcome := carryOut process.env process.items fs
    (process.items, outcome.1) :: outcomesOf processes outcome.2

end Runs

namespace SplitDisk

def catalogue : Catalogue := fun file =>
  if file = 0 then some ([(4, 0), (5, 0), (6, 0)].map (pageShown NestedFile.file.objects)) else none

theorem describes : catalogue.Describes disk := by
  intro file shown hfile
  unfold catalogue at hfile
  split at hfile
  · rename_i hzero
    subst hzero
    exact ⟨_, rfl, NestedFile.file, (2, 0), _, rfl, NestedFile.whole, by decide, Option.some.inj hfile⟩
  · cases hfile

theorem startsPageless_streaming : SaveEnv.streaming.StartsPageless := by
  intro file hparse
  obtain rfl := Except.ok.inj (SaveEnv.parse_streaming.symm.trans hparse)
  exact ⟨_, pageless_scratchFile⟩

theorem hands_runEnv [Lopdf] {invocation : Invocation} {fs : FileSystem} {save : SaveEnv}
    {written : LopdfDocument} (h : invocation.Hands runEnv fs save written) : save = recounting := by
  cases invocation with
  | help => cases h
  | version => cases h
  | split args =>
    obtain ⟨head, tail, -, ⟨rfl, -⟩ | ⟨rfl, -⟩⟩ := h <;> rfl
  | _ => exact h.1

theorem sound_runEnv [Lopdf] (invocation : Invocation) (fs : FileSystem) :
    runEnv.Sound invocation fs where
  created := startsPageless_streaming
  faithful _ written h := hands_runEnv h ▸ faithful_recounting written
  reads _ written h _ := by
    obtain rfl := hands_runEnv h
    exact ⟨_, rfl⟩

end SplitDisk

end OpdfEditor
