import OpdfEditor.ArgumentReading
import OpdfEditor.SplitHalves

/-!
`opdf-cli split` over real files. Whether the two outputs are one file is decided on the
spelling of their paths, and which file a path means by the file system; both outputs
are looked for before either is written.
-/
namespace OpdfEditor

open PdfDocument (pageShown flatShown carriedShown KeepsLooks BoxesCarry)

/-! ### Paths and files -/

/-- Whether a path starts at the root, and the names along it. Separators that are repeated or
trailing and a `.` that is not the first name do not count. -/
def OsString.components (path : OsString) : Bool × List (List UInt8) :=
  let bytes := path.bytes.data.toList
  match bytes.splitOn 0x2F with
  | [] => (false, [])
  | first :: rest =>
    (bytes.head? == some 0x2F,
      (if first.isEmpty then [] else [first]) ++ rest.filter fun name => !name.isEmpty && name != [0x2E])

/-- Paths compare by what they are made of. -/
def OsString.samePath (a b : OsString) : Bool := a.components == b.components

example : (OsString.ofStr "out//a/./half.pdf").samePath (.ofStr "out/a/half.pdf/") = true ∧
    (OsString.ofStr "./half.pdf").samePath (.ofStr "half.pdf") = false := by decide +kernel

/-- Every spelling of a path means a file, there or not, and different spellings may mean the same. -/
structure FileSystem where
  fileOf : OsString → Nat
  files : Nat → Option PdfBytes

namespace FileSystem

def contents (path : OsString) (fs : FileSystem) : Option PdfBytes := fs.files (fs.fileOf path)

def pathExists (path : OsString) (fs : FileSystem) : Bool := (fs.contents path).isSome

def put (path : OsString) (bytes : PdfBytes) (fs : FileSystem) : FileSystem :=
  { fs with files := Function.update fs.files (fs.fileOf path) (some bytes) }

@[simp] theorem fileOf_put (path : OsString) (bytes : PdfBytes) (fs : FileSystem) :
    (fs.put path bytes).fileOf = fs.fileOf := rfl

theorem files_put_of_ne {path : OsString} {bytes : PdfBytes} {fs : FileSystem} {file : Nat}
    (h : file ≠ fs.fileOf path) : (fs.put path bytes).files file = fs.files file :=
  Function.update_of_ne h _ _

/-- What is put under one spelling of a path is found under the others. -/
theorem contents_put_of_same {path written : OsString} {bytes : PdfBytes} {fs : FileSystem}
    (h : fs.fileOf path = fs.fileOf written) : (fs.put written bytes).contents path = some bytes := by
  simp [contents, put, h]

theorem contents_put_of_ne {path written : OsString} {bytes : PdfBytes} {fs : FileSystem}
    (h : fs.fileOf path ≠ fs.fileOf written) :
    (fs.put written bytes).contents path = fs.contents path := files_put_of_ne h

/-- What was left under a path, if anything. -/
def receive (path : OsString) (left : Option PdfBytes) (fs : FileSystem) : FileSystem :=
  match left with
  | none => fs
  | some bytes => fs.put path bytes

@[simp] theorem fileOf_receive (path : OsString) (left : Option PdfBytes) (fs : FileSystem) :
    (fs.receive path left).fileOf = fs.fileOf := by
  cases left <;> rfl

/-- What is received under a path changes no other file. -/
theorem files_receive_of_ne {path : OsString} {left : Option PdfBytes} {fs : FileSystem} {file : Nat}
    (h : file ≠ fs.fileOf path) : (fs.receive path left).files file = fs.files file := by
  cases left with
  | none => rfl
  | some bytes => exact files_put_of_ne h

variable [Lopdf]

def openPdf (id : DocumentId) (path : OsString) (fs : FileSystem) : Except Error PdfDocument :=
  match fs.contents path with
  | none => .error (.io "No such file or directory (os error 2)")
  | some bytes => PdfDocument.loadFromBytes id bytes

def shownAt (id : DocumentId) (path : OsString) (fs : FileSystem) :
    Except Error (List (PageSize × Rotation)) :=
  (fs.openPdf id path).map fun d => d.pages.live.map PageSlot.shown

end FileSystem

/-! ### Running a split -/

/-- What the outside makes of one save to a path. -/
structure FileEnv extends SaveEnv where
  /-- What a write that fails leaves under the path, if it touches it. -/
  torn : Option PdfBytes

/-- What the outside makes of a split. -/
structure SplitEnv where
  headId : DocumentId
  tailId : DocumentId
  created : SaveEnv
  saveHead : FileEnv
  saveTail : FileEnv

/-- Refuse to write over a file that already exists unless `force` was given. -/
def guardOutput (path : OsString) (force : Bool) (fs : FileSystem) : Except CliError Unit :=
  if !force && fs.pathExists path then .error (.outputExists path) else .ok ()

/-- Without `--force` the guard lets only absent files through. -/
theorem guardOutput_ok {path : OsString} {force : Bool} {fs : FileSystem}
    (h : guardOutput path force fs = .ok ()) (hforce : force = false) : fs.contents path = none := by
  unfold guardOutput at h
  split at h
  · cases h
  · rename_i hguard
    simpa [hforce, FileSystem.pathExists] using hguard

theorem mapError_eq_ok {ε ε' α : Type} {f : ε → ε'} {x : Except ε α} {a : α} :
    x.mapError f = .ok a ↔ x = .ok a := by
  cases x <;> simp [Except.mapError]

section Commands

variable [Lopdf]

def openDocument (id : DocumentId) (path : OsString) (fs : FileSystem) : Except CliError PdfDocument :=
  (fs.openPdf id path).mapError (.openFailed path)

/-- What a compacting save leaves under its path, once it gets as far as writing. -/
def PdfDocument.leaves (env : FileEnv) (d : PdfDocument) : Option PdfBytes :=
  if d.pages.live.length = 0 then none
  else
    match d.materializeChanges with
    | (.error _, _) => none
    | (.ok (), d') =>
      let compacted := d'.buildCompactedDocument
      match env.serialize compacted with
      | .error _ => none
      | .ok () =>
        match env.write compacted with
        | .error _ => env.torn
        | .ok () =>
          match env.parse compacted with
          | .error e => some (.damaged e)
          | .ok file => some (.file file)

def saveCompactedTo (env : FileEnv) (path : OsString) (d : PdfDocument) (fs : FileSystem) :
    Except CliError Unit × FileSystem :=
  (((d.saveCompacted env.toSaveEnv).1.mapError (.saveFailed path)).map fun _ => (),
    fs.receive path (d.leaves env))

/-- Everything a split does before it writes: the two documents it is going to write. -/
def splitDocuments (env : SplitEnv) (args : SplitArgs) (fs : FileSystem) :
    Except CliError (PdfDocument × PdfDocument) := do
  if args.outAPath.samePath args.outBPath then
    .error (.usage "--out-a and --out-b must name different files")
  else
    guardOutput args.outAPath args.force fs
    guardOutput args.outBPath args.force fs
    let head ← openDocument env.headId args.inputPath fs
    let pageCount := Document.pageCount head
    -- a document with no pages cannot be saved, so a boundary that empties either half is refused
    if args.atPage < 2 ∨ args.atPage > pageCount then
      .error (.usage s!"--at must name a page from 2 to {pageCount} in a document of {pageCount} pages, so that neither half comes out empty; got {args.atPage}")
    else
      let tail ← (PdfDocument.empty env.created env.tailId).mapError .operation
      -- the first page of the second half is counted from one, the boundary from zero
      match splitAt head tail (args.atPage - 1) with
      | (.error e, _, _) => .error (.operation e)
      | (.ok _, head, tail) => .ok (head, tail)

def runSplit (env : SplitEnv) (args : SplitArgs) (fs : FileSystem) :
    Except CliError Unit × FileSystem :=
  match splitDocuments env args fs with
  | .error e => (.error e, fs)
  | .ok (head, tail) =>
    match saveCompactedTo env.saveHead args.outAPath head fs with
    | (.error e, fs) => (.error e, fs)
    | (.ok (), fs) => saveCompactedTo env.saveTail args.outBPath tail fs

/-! ### What a run does to the files -/

/-- A run that gets as far as writing passed both checks and split the document it opened. -/
structure Prepared (env : SplitEnv) (args : SplitArgs) (fs : FileSystem)
    (opened target head tail : PdfDocument) : Prop where
  outputs : args.force = false → fs.contents args.outAPath = none ∧ fs.contents args.outBPath = none
  opens : fs.openPdf env.headId args.inputPath = .ok opened
  bounds : 2 ≤ args.atPage ∧ args.atPage ≤ opened.pages.live.length
  created : PdfDocument.empty env.created env.tailId = .ok target
  splits : ∃ inverse, splitAt opened target (args.atPage - 1) = (.ok inverse, head, tail)

/-- A split that gets as far as writing passed its checks. -/
theorem splitDocuments_ok {env : SplitEnv} {args : SplitArgs} {fs : FileSystem}
    {head tail : PdfDocument} (h : splitDocuments env args fs = .ok (head, tail)) :
    ∃ opened target, Prepared env args fs opened target head tail := by
  unfold splitDocuments at h
  split at h
  · cases h
  obtain ⟨⟨⟩, hguardA, h⟩ := bind_eq_ok.1 h
  obtain ⟨⟨⟩, hguardB, h⟩ := bind_eq_ok.1 h
  obtain ⟨opened, hopened, h⟩ := bind_eq_ok.1 h
  dsimp only at h
  split at h
  · cases h
  rename_i hbounds
  obtain ⟨target, htarget, h⟩ := bind_eq_ok.1 h
  split at h
  · cases h
  rename_i inverse head' tail' hsplit
  cases h
  refine ⟨opened, target, fun hforce => ⟨guardOutput_ok hguardA hforce, guardOutput_ok hguardB hforce⟩,
    mapError_eq_ok.1 hopened, ?_, mapError_eq_ok.1 htarget, inverse, hsplit⟩
  have hcount : Document.pageCount opened = opened.pages.live.length := rfl
  omega

theorem PdfDocument.leaves_of_saveCompacted {env : FileEnv} {d d' : PdfDocument}
    {written : LopdfDocument} (h : d.saveCompacted env.toSaveEnv = (.ok written, d')) :
    ∃ file, env.parse written = .ok file ∧ d.leaves env = some (.file file) := by
  obtain ⟨d₁, file, hpages, hm, rfl, hparse, -⟩ := saveCompacted_ok h
  refine ⟨file, hparse, ?_⟩
  unfold saveCompacted at h
  unfold leaves
  rw [if_neg hpages, hm] at h ⊢
  dsimp only at h ⊢
  cases hserialize : env.serialize d₁.buildCompactedDocument with
  | error e =>
    rw [hserialize] at h
    cases h
  | ok _ =>
    rw [hserialize] at h
    dsimp only at h ⊢
    cases hwrite : env.write d₁.buildCompactedDocument with
    | error e =>
      rw [hwrite] at h
      cases h
    | ok _ =>
      dsimp only
      rw [hparse]

/-- A save that succeeds leaves under its path what it wrote and read back in. -/
theorem saveCompactedTo_ok {env : FileEnv} {path : OsString} {d : PdfDocument} {fs fs' : FileSystem}
    (h : saveCompactedTo env path d fs = (.ok (), fs')) : ∃ written d' file,
      d.saveCompacted env.toSaveEnv = (.ok written, d') ∧ env.parse written = .ok file ∧
      fs' = fs.put path (.file file) := by
  rcases hsave : d.saveCompacted env.toSaveEnv with ⟨e | written, d'⟩
  · rw [saveCompactedTo, hsave] at h
    cases h
  · obtain ⟨file, hparse, hleaves⟩ := PdfDocument.leaves_of_saveCompacted hsave
    refine ⟨written, d', file, rfl, hparse, ?_⟩
    rw [saveCompactedTo, hleaves] at h
    exact (congrArg Prod.snd h).symm

/-- A run touches no file but those its two outputs mean, and none before it has passed its checks. -/
theorem runSplit_frame (env : SplitEnv) (args : SplitArgs) (fs : FileSystem) :
    (runSplit env args fs).2 = fs ∨
    (∃ head tail, splitDocuments env args fs = .ok (head, tail)) ∧
      ∀ file, file ≠ fs.fileOf args.outAPath → file ≠ fs.fileOf args.outBPath →
        (runSplit env args fs).2.files file = fs.files file := by
  unfold runSplit
  cases hprepared : splitDocuments env args fs with
  | error e => exact .inl rfl
  | ok documents =>
    refine .inr ⟨⟨_, _, rfl⟩, fun file hfileA hfileB => ?_⟩
    have hhead : (saveCompactedTo env.saveHead args.outAPath documents.1 fs).2.files file =
        fs.files file := FileSystem.files_receive_of_ne hfileA
    dsimp only
    split
    · rename_i hsave
      rw [← hhead, hsave]
    · rename_i fs₁ hsave
      have hfs : fs₁ = fs.receive args.outAPath (documents.1.leaves env.saveHead) :=
        (congrArg Prod.snd hsave).symm
      rw [← hhead, hsave]
      refine FileSystem.files_receive_of_ne ?_
      rwa [hfs, FileSystem.fileOf_receive]

/-- Without `force` no file that was there is changed, whatever comes of the run. -/
theorem runSplit_keeps (env : SplitEnv) (args : SplitArgs) (fs : FileSystem)
    (hforce : args.force = false) {file : Nat} {bytes : PdfBytes} (hfile : fs.files file = some bytes) :
    (runSplit env args fs).2.files file = some bytes := by
  rcases runSplit_frame env args fs with hsame | ⟨⟨head, tail, hprepared⟩, hframe⟩
  · rw [hsame]
    exact hfile
  · obtain ⟨opened, target, hprepared⟩ := splitDocuments_ok hprepared
    obtain ⟨hnoneA, hnoneB⟩ := hprepared.outputs hforce
    rw [hframe file, hfile]
    · rintro rfl
      rw [FileSystem.contents, hfile] at hnoneA
      cases hnoneA
    · rintro rfl
      rw [FileSystem.contents, hfile] at hnoneB
      cases hnoneB

/-! ### What a run leaves to read -/

/-- Each output reads as its half of the pages the input did. -/
structure LeavesBothHalves (args : SplitArgs) (fs fs' : FileSystem) : Prop where
  head : ∀ id shown, fs.shownAt id args.inputPath = .ok shown → ∀ readerId,
    fs'.shownAt readerId args.outAPath = .ok (shown.take (args.atPage - 1))
  tail : ∀ id shown, fs.shownAt id args.inputPath = .ok shown → ∀ readerId,
    fs'.shownAt readerId args.outBPath = .ok (shown.drop (args.atPage - 1))

theorem loads_of_contents {fs : FileSystem} {path : OsString} {file : LopdfDocument}
    (h : fs.contents path = some (.file file)) (id : DocumentId) :
    fs.openPdf id path = PdfDocument.load id file := by
  rw [FileSystem.openPdf, h]
  rfl

/-- A path shows the pages its file opens with. -/
theorem shownAt_of_load {fs : FileSystem} {path : OsString} {file : LopdfDocument} {id : DocumentId}
    (h : fs.contents path = some (.file file)) {d : PdfDocument} (hload : PdfDocument.load id file = .ok d) :
    fs.shownAt id path = .ok (d.pages.live.map PageSlot.shown) := by
  rw [FileSystem.shownAt, loads_of_contents h, hload]
  rfl

/-- What a split writes of its two documents reads back as it was written. -/
def SplitEnv.FaithfulIn (env : SplitEnv) (args : SplitArgs) (fs : FileSystem) : Prop :=
  ∀ head tail, splitDocuments env args fs = .ok (head, tail) →
    env.saveHead.FaithfulTo head ∧ env.saveTail.FaithfulTo tail

section Reading

variable [LawfulLopdf] {env : SplitEnv} {args : SplitArgs} {fs fs' : FileSystem}
  {file created : LopdfDocument} {root createdRoot : ObjectId} {pages : List ObjectId}

/-- What is read after a run: the second half under every path that means its file, the first half
where the second is not written over it. -/
theorem runSplit_ok (hinput : fs.contents args.inputPath = some (.file file))
    (htree : ProperTree file root pages) (hcounted : file.Counted)
    (hcreated : env.created.parse buildEmptyDocument = .ok created)
    (hpageless : Pageless created createdRoot)
    (hfaithful : env.FaithfulIn args fs) (hrun : runSplit env args fs = (.ok (), fs')) :
    fs.shownAt env.headId args.inputPath = .ok (pages.map (pageShown file.objects)) ∧
    (∀ path, fs.fileOf path = fs.fileOf args.outBPath → ∀ readerId,
      fs'.shownAt readerId path =
        .ok (carriedShown created.maxId file.objects (pages.drop (args.atPage - 1)))) ∧
    (fs.fileOf args.outAPath ≠ fs.fileOf args.outBPath → ∀ readerId,
      fs'.shownAt readerId args.outAPath =
        .ok ((pages.take (args.atPage - 1)).map (flatShown file.objects root))) := by
  unfold runSplit at hrun
  cases hdocuments : splitDocuments env args fs with
  | error e =>
    rw [hdocuments] at hrun
    cases hrun
  | ok documents =>
    rw [hdocuments] at hrun
    dsimp only at hrun
    split at hrun
    · cases hrun
    rename_i fs₁ hsaveA
    obtain ⟨hfaithfulA, hfaithfulB⟩ := hfaithful _ _ hdocuments
    obtain ⟨opened, target, hprepared⟩ := splitDocuments_ok hdocuments
    obtain ⟨inverse, hsplit⟩ := hprepared.splits
    have hload := (loads_of_contents hinput _).symm.trans hprepared.opens
    have hboundary : args.atPage - 1 < pages.length := by
      obtain ⟨hlow, hhigh⟩ := hprepared.bounds
      rw [← (PdfDocument.load_lists hload htree).2.1, List.length_map]
      omega
    obtain ⟨_, _, fileA, hA, hparseA, rfl⟩ := saveCompactedTo_ok hsaveA
    obtain ⟨_, _, fileB, hB, hparseB, rfl⟩ := saveCompactedTo_ok hrun
    refine ⟨?_, fun path hpath readerId => ?_, fun hapart readerId => ?_⟩
    · rw [shownAt_of_load hinput hload, PdfDocument.load_shown hload htree]
    · obtain ⟨_, hparse, hreads⟩ := PdfDocument.tail_reads_back hload htree
        (PdfDocument.blank_of_empty hcreated hpageless hprepared.created) hsplit hboundary hfaithfulB hB
      obtain rfl := Except.ok.inj (hparseB.symm.trans hparse)
      obtain ⟨d, hreread, hd⟩ := hreads readerId
      have hcontents : ((fs.put args.outAPath (.file fileA)).put args.outBPath (.file fileB)).contents
          path = some (.file fileB) := FileSystem.contents_put_of_same hpath
      rw [shownAt_of_load hcontents hreread, hd]
    · obtain ⟨_, hparse, hreads⟩ :=
        PdfDocument.head_reads_back hload htree hcounted hsplit hboundary hfaithfulA hA
      obtain rfl := Except.ok.inj (hparseA.symm.trans hparse)
      obtain ⟨d, hreread, hd⟩ := hreads readerId
      have hcontents : ((fs.put args.outAPath (.file fileA)).put args.outBPath (.file fileB)).contents
          args.outAPath = some (.file fileA) := by
        have hother : (fs.put args.outAPath (.file fileA)).fileOf args.outAPath ≠
            (fs.put args.outAPath (.file fileA)).fileOf args.outBPath := hapart
        rw [FileSystem.contents_put_of_ne hother, FileSystem.contents_put_of_same rfl]
      rw [shownAt_of_load hcontents hreread, hd]

omit [LawfulLopdf] in
/-- Where everything reads one way, both halves are left when the outputs read as them. -/
theorem leavesBothHalves_of_reads {shown readA readB : List (PageSize × Rotation)} {id : DocumentId}
    (hshown : fs.shownAt id args.inputPath = .ok shown)
    (honly : ∀ id' shown', fs.shownAt id' args.inputPath = .ok shown' → shown' = shown)
    (hreadA : ∀ readerId, fs'.shownAt readerId args.outAPath = .ok readA)
    (hreadB : ∀ readerId, fs'.shownAt readerId args.outBPath = .ok readB) :
    LeavesBothHalves args fs fs' ↔
      readA = shown.take (args.atPage - 1) ∧ readB = shown.drop (args.atPage - 1) := by
  constructor
  · intro h
    have hhead := h.head id shown hshown id
    have htail := h.tail id shown hshown id
    rw [hreadA, Except.ok.injEq] at hhead
    rw [hreadB, Except.ok.injEq] at htail
    exact ⟨hhead, htail⟩
  · rintro ⟨rfl, rfl⟩
    constructor
    · intro id' shown' hshown' readerId
      rw [honly id' shown' hshown', hreadA]
    · intro id' shown' hshown' readerId
      rw [honly id' shown' hshown', hreadB]

/-- The pages shown under the input are those its tree lists. -/
theorem shownAt_only (hinput : fs.contents args.inputPath = some (.file file))
    (htree : ProperTree file root pages) {id : DocumentId} {shown : List (PageSize × Rotation)}
    (hshown : fs.shownAt id args.inputPath = .ok shown) :
    shown = pages.map (pageShown file.objects) := by
  rw [FileSystem.shownAt, loads_of_contents hinput] at hshown
  cases hload : PdfDocument.load id file with
  | error e =>
    rw [hload] at hshown
    cases hshown
  | ok d =>
    rw [hload] at hshown
    cases hshown
    exact PdfDocument.load_shown hload htree

/-- A split that succeeds leaves both halves when the boxes of the second carry and either the
outputs are two files and the pages of the first keep their looks, or they are one file and the
halves look the same. -/
theorem leavesBothHalves_iff (hinput : fs.contents args.inputPath = some (.file file))
    (htree : ProperTree file root pages) (hcounted : file.Counted)
    (hcreated : env.created.parse buildEmptyDocument = .ok created)
    (hpageless : Pageless created createdRoot)
    (hfaithful : env.FaithfulIn args fs) (hrun : runSplit env args fs = (.ok (), fs')) :
    LeavesBothHalves args fs fs' ↔
      BoxesCarry created.maxId file.objects (pages.drop (args.atPage - 1)) ∧
      (fs.fileOf args.outAPath ≠ fs.fileOf args.outBPath ∧
          (∀ page ∈ pages.take (args.atPage - 1), KeepsLooks file.objects root page) ∨
        fs.fileOf args.outAPath = fs.fileOf args.outBPath ∧
          (pages.take (args.atPage - 1)).map (pageShown file.objects) =
            (pages.drop (args.atPage - 1)).map (pageShown file.objects)) := by
  obtain ⟨hshown, htail, hhead⟩ :=
    runSplit_ok hinput htree hcounted hcreated hpageless hfaithful hrun
  have honly : ∀ id shown, fs.shownAt id args.inputPath = .ok shown →
      shown = pages.map (pageShown file.objects) := fun id shown => shownAt_only hinput htree
  by_cases hsame : fs.fileOf args.outAPath = fs.fileOf args.outBPath
  · rw [leavesBothHalves_of_reads hshown honly (htail _ hsame) (htail _ rfl), ← List.map_take,
      ← List.map_drop, PdfDocument.carriedShown_eq_iff, and_comm]
    refine and_congr_right fun hcarry => ?_
    rw [PdfDocument.carriedShown_eq_iff.2 hcarry, eq_comm]
    simp [hsame]
  · rw [leavesBothHalves_of_reads hshown honly (hhead hsame) (htail _ rfl), ← List.map_take,
      ← List.map_drop, PdfDocument.carriedShown_eq_iff, List.map_inj_left, and_comm]
    simp [hsame, PdfDocument.flatShown_eq_iff]

end Reading

end Commands

namespace SplitDisk

/-- Three files of one directory, the second spelt two ways. -/
def spellings : List (List OsString) :=
  [[.ofStr "in.pdf"], [.ofStr "half.pdf", .ofStr "./half.pdf"], [.ofStr "rest.pdf"]]

def disk : FileSystem where
  fileOf path := spellings.findIdx (path ∈ ·)
  files id := if id = 0 then some (.file NestedFile.file) else none

def env : SplitEnv := ⟨1, 2, .streaming, ⟨.counting, none⟩, ⟨.counting, none⟩⟩

def args (outBPath : String) : SplitArgs where
  inputPath := .ofStr "in.pdf"
  atPage := 2
  outAPath := .ofStr "half.pdf"
  outBPath := .ofStr outBPath
  force := false

theorem faithful_env [Lopdf] (args : SplitArgs) (fs : FileSystem) : env.FaithfulIn args fs :=
  fun head tail _ => ⟨SaveEnv.faithful_counting.to head, SaveEnv.faithful_counting.to tail⟩

end SplitDisk

open scoped WalkingLopdf
open SplitDisk (disk env args faithful_env)

end OpdfEditor
