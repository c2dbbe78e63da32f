import OpdfEditor.CrossDocument
import OpdfEditor.PageSelection
import OpdfEditor.PdfExport
import OpdfEditor.PdfImport
import OpdfEditor.Traversal

/-!
Extracting a selection run by run: the runs of an ascending list of indices are that
list again, and appending them one after the other leaves the selected pages.
-/
namespace OpdfEditor

/-! ### Runs -/

def runIndices (run : Nat × Nat) : List Nat := List.range' run.1 (run.2 - run.1)

/-- Non-empty, ascending and pairwise non-adjacent runs that cover exactly these indices. -/
structure Covers (runs : List (Nat × Nat)) (indices : List Nat) : Prop where
  nonempty : ∀ run ∈ runs, run.1 < run.2
  apart : runs.Pairwise fun run later => run.2 < later.1
  indices : runs.flatMap runIndices = indices

theorem runIndices_single (index : Nat) : runIndices (index, index + 1) = [index] := by
  simp [runIndices]

theorem runIndices_extend {start index : Nat} (h : start < index) :
    runIndices (start, index + 1) = runIndices (start, index) ++ [index] := by
  have hlength : index + 1 - start = index - start + 1 := by omega
  rw [runIndices, runIndices, hlength, List.range'_concat]
  congr 2
  simp
  omega

/-- The last index of a run is covered. -/
theorem Covers.last_mem {runs : List (Nat × Nat)} {indices : List Nat} (h : Covers runs indices)
    {run : Nat × Nat} (hrun : run ∈ runs) : run.2 - 1 ∈ indices := by
  have hne := h.nonempty run hrun
  rw [← h.indices, List.mem_flatMap]
  exact ⟨run, hrun, List.mem_range'_1.2 (by omega)⟩

/-- No run ends after an index beyond the ones covered. -/
theorem Covers.stop_le {runs : List (Nat × Nat)} {indices : List Nat} {index : Nat}
    (h : Covers runs indices) (hbeyond : ∀ earlier ∈ indices, earlier < index) :
    ∀ run ∈ runs, run.2 ≤ index := by
  intro run hrun
  have hne := h.nonempty run hrun
  have hmem := h.last_mem hrun
  have := hbeyond _ hmem
  omega

/-- A run may be added behind the others, not next to the last. -/
theorem Covers.append {runs : List (Nat × Nat)} {indices : List Nat} {run : Nat × Nat}
    (h : Covers runs indices) (hne : run.1 < run.2) (hapart : ∀ earlier ∈ runs, earlier.2 < run.1) :
    Covers (runs ++ [run]) (indices ++ runIndices run) := by
  refine ⟨?_, ?_, ?_⟩
  · intro other hother
    rcases List.mem_append.1 hother with hother | hother
    · exact h.nonempty other hother
    · rw [List.mem_singleton.1 hother]
      exact hne
  · refine List.pairwise_append.2 ⟨h.apart, List.pairwise_singleton _ _, ?_⟩
    intro earlier hearlier later hlater
    rw [List.mem_singleton.1 hlater]
    exact hapart earlier hearlier
  · rw [List.flatMap_append, h.indices, List.flatMap_singleton]

/-- The runs before the last cover what the last does not. -/
theorem Covers.init {runs : List (Nat × Nat)} {indices : List Nat} {run : Nat × Nat}
    (h : Covers (runs ++ [run]) indices) : ∃ before, Covers runs before ∧
      indices = before ++ runIndices run ∧ run.1 < run.2 ∧ ∀ earlier ∈ runs, earlier.2 < run.1 := by
  have hapart := List.pairwise_append.1 h.apart
  refine ⟨runs.flatMap runIndices, ⟨fun other hother => h.nonempty other (by simp [hother]), hapart.1, rfl⟩,
    ?_, h.nonempty run (by simp), fun earlier hearlier => hapart.2.2 earlier hearlier run (by simp)⟩
  rw [← h.indices, List.flatMap_append, List.flatMap_singleton]

/-- An index beyond the ones covered opens a run of its own unless it is next to the last. -/
theorem Covers.push {runs : List (Nat × Nat)} {indices : List Nat} {index : Nat}
    (h : Covers runs indices) (hbeyond : ∀ earlier ∈ indices, earlier < index) :
    Covers (pushIndex runs index) (indices ++ [index]) := by
  have hstop := h.stop_le hbeyond
  rw [← runIndices_single index]
  obtain rfl | ⟨runs, ⟨start, stop⟩, rfl⟩ := List.eq_nil_or_concat runs
  · exact h.append (Nat.lt_succ_self index) (by simp)
  rw [List.concat_eq_append] at h hstop
  have hle : stop ≤ index := hstop (start, stop) (by simp)
  simp only [pushIndex, List.concat_eq_append, List.getLast?_append, List.getLast?_singleton,
    Option.some_or]
  split_ifs with hnext
  · subst hnext
    obtain ⟨before, hbefore, rfl, hlast, hapart⟩ := h.init
    rw [List.dropLast_concat, runIndices_single, List.append_assoc, ← runIndices_extend hlast]
    exact hbefore.append (Nat.lt_succ_of_lt hlast) hapart
  · refine h.append (Nat.lt_succ_self index) fun run hrun => ?_
    obtain ⟨before, -, -, hlast, hapart⟩ := h.init
    rcases List.mem_append.1 hrun with hrun | hrun
    · have := hapart run hrun
      dsimp only at this ⊢
      omega
    · rw [List.mem_singleton.1 hrun]
      dsimp only
      omega

theorem covers_foldl {rest indices : List Nat} {runs : List (Nat × Nat)} (h : Covers runs indices)
    (hascending : (indices ++ rest).Pairwise (· < ·)) :
    Covers (rest.foldl pushIndex runs) (indices ++ rest) := by
  induction rest generalizing indices runs with
  | nil => simpa using h
  | cons index rest ih =>
    have hbeyond : ∀ earlier ∈ indices, earlier < index := fun earlier hearlier =>
      (List.pairwise_append.1 hascending).2.2 earlier hearlier index (by simp)
    have hsplit : indices ++ index :: rest = indices ++ [index] ++ rest := by simp
    rw [hsplit] at hascending ⊢
    exact ih (h.push hbeyond) hascending

/-- The runs of an ascending list cover it. -/
theorem covers_contiguousRuns {indices : List Nat} (h : indices.Pairwise (· < ·)) :
    Covers (contiguousRuns indices) indices := by
  have hempty : Covers [] [] := ⟨by simp, List.Pairwise.nil, rfl⟩
  simpa [contiguousRuns] using covers_foldl hempty h

/-! ### Extracting the runs -/

def PageInfo.geometry (page : PageInfo) : PageSize × Rotation := (page.size, page.rotation)

theorem map_geometry_zipWith {pages : List PageInfo} {ids : List PageId}
    (h : pages.length = ids.length) :
    (List.zipWith PageInfo.withId pages ids).map PageInfo.geometry =
      pages.map PageInfo.geometry := by
  induction pages generalizing ids with
  | nil => rfl
  | cons page pages ih =>
    cases ids with
    | nil => cases h
    | cons id ids =>
      rw [List.zipWith_cons_cons, List.map_cons, List.map_cons, ih (Nat.succ.inj h)]
      rfl

section Extraction

variable {D : Type} [Document D]

/-- The loop of `run_extract`: one extraction a run, until one fails. -/
def extractRuns (source : D) : List (Nat × Nat) → D → Outcome D Unit
  | [], target => (.ok (), target)
  | (startIndex, endIndex) :: runs, target =>
    match extractRange source target startIndex endIndex with
    | (.error e, target') => (.error e, target')
    | (.ok _, target') => extractRuns source runs target'

def runIds (source : D) (run : Nat × Nat) : List PageId :=
  ((Document.pageIds source).take run.2).drop run.1

/-- A run within the document is appended by one import. -/
theorem extractRuns_cons {source : D} {run : Nat × Nat} (runs : List (Nat × Nat))
    (hrange : run.1 ≤ run.2) (hbound : run.2 ≤ (Document.pageIds source).length) (target : D) :
    extractRuns source (run :: runs) target =
      match Document.importPages source (runIds source run) (Document.pageCount target) target with
      | (.error e, target') => (.error e, target')
      | (.ok _, target') => extractRuns source runs target' := by
  obtain ⟨startIndex, endIndex⟩ := run
  rw [extractRuns, extractRange]
  dsimp only at hrange hbound ⊢
  rw [if_neg (Nat.not_lt.2 hbound), if_neg (Nat.not_lt.2 hrange), runIds]
  rcases Document.importPages source (((Document.pageIds source).take endIndex).drop startIndex)
    (Document.pageCount target) target with ⟨e | newIds, target'⟩
  · rfl
  · rfl

/-- An import of live pages at the end succeeds exactly where each of them can be copied. -/
def ImportsCopyable (copyable : D → PageId → Prop) : Prop :=
  ∀ (source target : D) (ids : List PageId), (∀ id ∈ ids, id ∈ Document.pageIds source) →
    ((∃ newIds target', Document.importPages source ids (Document.pageCount target) target =
      (.ok newIds, target')) ↔ ∀ id ∈ ids, copyable source id)

/-- Extracting runs within the document succeeds exactly where every page of them can be
copied. -/
theorem extractRuns_iff {copyable : D → PageId → Prop} (hcopy : ImportsCopyable copyable)
    {source : D} {runs : List (Nat × Nat)}
    (hruns : ∀ run ∈ runs, run.1 ≤ run.2 ∧ run.2 ≤ (Document.pageIds source).length) (target : D) :
    (∃ target', extractRuns source runs target = (.ok (), target')) ↔
      ∀ id ∈ runs.flatMap (runIds source), copyable source id := by
  induction runs generalizing target with
  | nil => simp [extractRuns]
  | cons run runs ih =>
    obtain ⟨hrange, hbound⟩ := hruns run (by simp)
    have hids : ∀ id ∈ runIds source run, id ∈ Document.pageIds source := fun id hid =>
      List.mem_of_mem_take (List.mem_of_mem_drop hid)
    have hfirst := hcopy source target (runIds source run) hids
    rw [extractRuns_cons runs hrange hbound, List.flatMap_cons, List.forall_mem_append, ← hfirst]
    rcases himport : Document.importPages source (runIds source run) (Document.pageCount target)
      target with ⟨e | newIds, target'⟩
    · simp
    · have hrest := ih (fun run hrun => hruns run (by simp [hrun])) target'
      simp [hrest]

variable [LawfulDocument D]

def runPages (source : D) (run : Nat × Nat) : List PageInfo :=
  ((roster source).live.take run.2).drop run.1

theorem runIds_eq (source : D) (run : Nat × Nat) :
    runIds source run = (runPages source run).map pageId := by
  rw [runIds, runPages, LawfulDocument.pageIds_eq, Roster.ids, ← List.map_take, ← List.map_drop]

/-- What a successful extraction leaves: the target's own pages, then those of the runs. -/
theorem extractRuns_shows {source : D} {runs : List (Nat × Nat)}
    (hruns : ∀ run ∈ runs, run.1 ≤ run.2 ∧ run.2 ≤ (Document.pageIds source).length)
    {target target' : D} (h : extractRuns source runs target = (.ok (), target')) :
    (roster target').live.map PageInfo.geometry = (roster target).live.map PageInfo.geometry ++
      (runs.flatMap (runPages source)).map PageInfo.geometry := by
  induction runs generalizing target with
  | nil =>
    cases h
    simp
  | cons run runs ih =>
    obtain ⟨hrange, hbound⟩ := hruns run (by simp)
    rw [extractRuns_cons runs hrange hbound] at h
    rcases himport : Document.importPages source (runIds source run) (Document.pageCount target)
      target with ⟨e | newIds, target₁⟩
    · rw [himport] at h
      cases h
    · rw [himport] at h
      have hrest := ih (fun run hrun => hruns run (by simp [hrun])) h
      obtain ⟨pages, hpages, -, -, hlive, -⟩ := importPages_live himport
      have hfound : ((runPages source run).map pageId).mapM (Document.page · source) =
          .ok (runPages source run) :=
        mapM_page source fun slot hslot => List.mem_of_mem_take (List.mem_of_mem_drop hslot)
      rw [runIds_eq, hfound] at hpages
      cases hpages
      rw [hrest, hlive, LawfulDocument.pageCount_eq, List.take_length, List.drop_length,
        List.append_nil, List.map_append, map_geometry_zipWith (by simp), List.flatMap_cons,
        List.map_append, List.append_assoc]

/-- The elements of a list between two positions are those at the indices between them. -/
theorem drop_take_eq_filterMap {α : Type} (xs : List α) {start stop : Nat} (hrange : start ≤ stop)
    (hbound : stop ≤ xs.length) :
    (xs.take stop).drop start = (List.range' start (stop - start)).filterMap (xs[·]?) := by
  obtain ⟨length, rfl⟩ := Nat.exists_eq_add_of_le hrange
  rw [Nat.add_sub_cancel_left]
  induction length generalizing start with
  | zero => simp
  | succ length ih =>
    have hlt : start < (xs.take (start + (length + 1))).length := by
      rw [List.length_take]
      omega
    have hshift : start + (length + 1) = start + 1 + length := by omega
    have hnext := @ih (start + 1) (by omega) (by omega)
    rw [← hshift] at hnext
    rw [List.drop_eq_getElem_cons hlt, List.getElem_take, List.range'_succ, List.filterMap_cons,
      List.getElem?_eq_getElem (by omega), hnext]

/-- The runs of an ascending list hold the pages at its indices. -/
theorem flatMap_runPages {source : D} {indices : List Nat} {runs : List (Nat × Nat)}
    (h : Covers runs indices)
    (hruns : ∀ run ∈ runs, run.1 ≤ run.2 ∧ run.2 ≤ (roster source).live.length) :
    runs.flatMap (runPages source) = indices.filterMap ((roster source).live[·]?) := by
  rw [← h.indices, List.filterMap_flatMap]
  refine List.flatMap_congr fun run hrun => ?_
  obtain ⟨hrange, hbound⟩ := hruns run hrun
  exact drop_take_eq_filterMap _ hrange hbound

/-- The runs of indices within the document are within it. -/
theorem Covers.within {runs : List (Nat × Nat)} {indices : List Nat} (h : Covers runs indices)
    {pageCount : Nat} (hbound : ∀ i ∈ indices, i < pageCount) :
    ∀ run ∈ runs, run.1 ≤ run.2 ∧ run.2 ≤ pageCount := by
  intro run hrun
  have hne := h.nonempty run hrun
  have hmem := h.last_mem hrun
  have hlt := hbound _ hmem
  omega

end Extraction

/-! ### Both implementations -/

open Traversal

theorem VecDocument.importsCopyable :
    ImportsCopyable (D := VecDocument) fun _ _ => True := by
  intro source target ids hids
  refine iff_of_true ?_ fun _ _ => trivial
  have hpages : ∃ pages, ids.mapM (VecDocument.page · source) = .ok pages := by
    refine exists_mapM_eq_ok fun id hid => ?_
    obtain ⟨slot, hslot, hslotId⟩ := List.mem_map.1 (hids id hid)
    exact ⟨slot, Roster.findSlot_eq_ok.2 ⟨hslot, hslotId⟩⟩
  obtain ⟨pages, hpages⟩ := hpages
  obtain ⟨r, hinsert, -⟩ := Roster.insertEach_eq_ok PageInfo.withId PageInfo.pageId_withId pages
    target.roster target.roster.live [] (List.append_nil _).symm
  have hcheck : target.roster.checkInsertionIndex target.roster.live.length = .ok () := by
    rw [Roster.checkInsertionIndex, if_neg (by omega)]
  refine ⟨List.range' target.roster.next pages.length, target.commit r, ?_⟩
  change VecDocument.importPages source ids target.roster.live.length target = _
  unfold VecDocument.importPages
  rw [hcheck]
  dsimp only
  rw [hpages]
  dsimp only
  rw [hinsert]

namespace PdfDocument

variable [Lopdf] [LawfulDereference]

/-- The object of the live page of this identity can be copied. -/
def CopyablePage (source : PdfDocument) (id : PageId) : Prop :=
  ∃ slot ∈ source.pages.live, pageId slot = id ∧ IsCopyable source.view slot

omit [Lopdf] [LawfulDereference] in
theorem copyablePage_iff {source : PdfDocument} {slot : PageSlot} (h : slot ∈ source.pages.live) :
    CopyablePage source (pageId slot) ↔ IsCopyable source.view slot := by
  constructor
  · rintro ⟨slot', hlive', hid', hcopyable⟩
    have hfound := Roster.findSlot_eq_ok.2 ⟨h, rfl⟩
    have hsame := hfound.symm.trans (Roster.findSlot_eq_ok.2 ⟨hlive', hid'⟩)
    cases hsame
    exact hcopyable
  · intro hcopyable
    exact ⟨slot, h, rfl, hcopyable⟩

omit [Lopdf] [LawfulDereference] in
/-- The pages resolved from some identities can be copied where the identities' pages can. -/
theorem forall_copyable {source : PdfDocument} {ids : List PageId} {slots : List PageSlot}
    (h : ids.mapM source.pages.findSlot = .ok slots) :
    (∀ slot ∈ slots, IsCopyable source.view slot) ↔ ∀ id ∈ ids, CopyablePage source id := by
  induction mapM_eq_ok.1 h with
  | nil => simp
  | @cons id slot ids slots hslot hrest ih =>
    obtain ⟨hlive, hid⟩ := Roster.findSlot_eq_ok.1 hslot
    obtain rfl := hid
    rw [List.forall_mem_cons, List.forall_mem_cons, copyablePage_iff hlive, ih (mapM_eq_ok.2 hrest)]

omit [LawfulDereference] in
/-- An import of live pages succeeds exactly where their objects can all be copied. -/
theorem importPages_succeeds_iff {source target : PdfDocument} {ids : List PageId} {atIndex : Nat}
    {slots : List PageSlot} (hat : atIndex ≤ target.pages.live.length)
    (hslots : ids.mapM source.pages.findSlot = .ok slots) :
    (∃ newIds target', importPages source ids atIndex target = (.ok newIds, target')) ↔
      ∃ newIds, (importResolved source.view slots atIndex target).1 = .ok newIds := by
  unfold importPages
  rw [checkInsertionIndex_eq_ok.2 hat]
  dsimp only
  rewrite [hslots]
  dsimp only
  rcases importResolved source.view slots atIndex target with ⟨e | newIds, target'⟩
  · simp
  · simp

theorem importsCopyable : ImportsCopyable CopyablePage := by
  intro source target ids hids
  have hslots : ∃ slots, ids.mapM source.pages.findSlot = .ok slots := by
    refine exists_mapM_eq_ok fun id hid => ?_
    obtain ⟨slot, hslot, hslotId⟩ := List.mem_map.1 (hids id hid)
    exact ⟨slot, Roster.findSlot_eq_ok.2 ⟨hslot, hslotId⟩⟩
  obtain ⟨slots, hslots⟩ := hslots
  rw [← forall_copyable hslots]
  refine (importPages_succeeds_iff le_rfl hslots).trans ?_
  rcases importResolved_error source.view slots target le_rfl with
    ⟨hall, newIds, hok⟩ | ⟨before, bad, after, rfl, -, hbad, ⟨e, herror⟩, -⟩
  · exact iff_of_true ⟨newIds, hok⟩ hall
  · refine iff_of_false ?_ fun h => hbad (h bad (by simp))
    rintro ⟨newIds, hok⟩
    rw [herror] at hok
    cases hok

end PdfDocument

/-! ### Extracting a selection -/

section Selection

variable {D : Type} [Document D] [LawfulDocument D]

/-- The target shows exactly the selected pages, once each and in the order of the selection. -/
structure Extracted (source : D) (indices : List Nat) (target : D) : Prop where
  pages : (roster target).live.map PageInfo.geometry =
    indices.filterMap fun i => (roster source).live[i]?.map PageInfo.geometry
  count : Document.pageCount target = indices.length

theorem extractRuns_extracted {source target target' : D} {indices : List Nat}
    (hascending : indices.Pairwise (· < ·)) (hempty : (roster target).live = [])
    (hbound : ∀ i ∈ indices, i < Document.pageCount source)
    (h : extractRuns source (contiguousRuns indices) target = (.ok (), target')) :
    Extracted source indices target' := by
  have hcovers := covers_contiguousRuns hascending
  rw [LawfulDocument.pageCount_eq] at hbound
  have hwithin := hcovers.within hbound
  have hlength := length_pageIds source
  have hshows := extractRuns_shows (by rwa [hlength]) h
  rw [hempty, List.map_nil, List.nil_append, flatMap_runPages hcovers hwithin,
    List.map_filterMap] at hshows
  refine ⟨hshows, ?_⟩
  have hcount := congrArg List.length hshows
  rw [List.length_map, List.length_filterMap_eq_countP] at hcount
  rw [LawfulDocument.pageCount_eq, hcount, List.countP_eq_length]
  intro i hi
  simp [List.getElem?_eq_getElem (hbound i hi)]

theorem extractRuns_iff_copyable {copyable : D → PageId → Prop} (hcopy : ImportsCopyable copyable)
    {source target : D} {indices : List Nat} (hascending : indices.Pairwise (· < ·))
    (hbound : ∀ i ∈ indices, i < Document.pageCount source) :
    (∃ target', extractRuns source (contiguousRuns indices) target = (.ok (), target')) ↔
      ∀ i ∈ indices, ∀ page, (roster source).live[i]? = some page → copyable source page.id := by
  have hcovers := covers_contiguousRuns hascending
  rw [LawfulDocument.pageCount_eq] at hbound
  have hwithin := hcovers.within hbound
  have hlength := length_pageIds source
  have hids : (contiguousRuns indices).flatMap (runIds source) =
      ((contiguousRuns indices).flatMap (runPages source)).map pageId := by
    rw [List.map_flatMap]
    exact List.flatMap_congr fun run _ => runIds_eq source run
  rw [extractRuns_iff hcopy (by rwa [hlength]), hids, flatMap_runPages hcovers hwithin]
  constructor
  · intro h i hi page hpage
    exact h _ (List.mem_map_of_mem (List.mem_filterMap.2 ⟨i, hi, hpage⟩))
  · intro h id hid
    obtain ⟨page, hpage, rfl⟩ := List.mem_map.1 hid
    obtain ⟨i, hi, hfound⟩ := List.mem_filterMap.1 hpage
    exact h i hi page hfound

end Selection

/-- Extracting an ascending selection by its runs: the runs are the selection again, and appending
them succeeds wherever each selected page can be copied, leaving exactly the selected pages. -/
theorem extraction_by_runs [Lopdf] [LawfulDereference] {indices : List Nat}
    (hascending : indices.Pairwise (· < ·)) :
    Covers (contiguousRuns indices) indices ∧
    (∀ source target : VecDocument, (roster target).live = [] →
      (∀ i ∈ indices, i < Document.pageCount source) →
      ∃ target', extractRuns source (contiguousRuns indices) target = (.ok (), target') ∧
        Extracted source indices target') ∧
    ∀ source target : PdfDocument, (roster target).live = [] →
      (∀ i ∈ indices, i < Document.pageCount source) →
      ((∃ target', extractRuns source (contiguousRuns indices) target = (.ok (), target')) ↔
        ∀ i ∈ indices, ∀ slot, source.pages.live[i]? = some slot →
          PdfDocument.IsCopyable source.view slot) ∧
      ∀ target', extractRuns source (contiguousRuns indices) target = (.ok (), target') →
        Extracted source indices target' := by
  refine ⟨covers_contiguousRuns hascending, ?_, ?_⟩
  · intro source target hempty hbound
    have hiff : (∃ target', extractRuns source (contiguousRuns indices) target = (.ok (), target')) ↔
        _ := extractRuns_iff_copyable VecDocument.importsCopyable hascending hbound
    obtain ⟨target', h⟩ := hiff.2 fun _ _ _ _ => trivial
    exact ⟨target', h, extractRuns_extracted hascending hempty hbound h⟩
  · intro source target hempty hbound
    refine ⟨?_, fun target' h => extractRuns_extracted hascending hempty hbound h⟩
    rw [extractRuns_iff_copyable PdfDocument.importsCopyable hascending hbound]
    refine forall₂_congr fun i _ => ?_
    change (∀ page, (source.pages.live.map PageSlot.info)[i]? = some page → _) ↔ _
    rw [List.getElem?_map]
    cases hslot : source.pages.live[i]? with
    | none => simp
    | some slot =>
      simp only [Option.map_some, Option.some.injEq, forall_eq']
      exact PdfDocument.copyablePage_iff (List.mem_of_getElem? hslot)

open scoped ReferenceLopdf in
/-- Two runs of the pages of an in-memory document. -/
theorem extraction_by_runs_in_memory :
    ∃ target', extractRuns (VecDocument.withPages 1 4 .a4) (contiguousRuns [0, 1, 3])
      (VecDocument.new 2) = (.ok (), target') ∧
        Extracted (VecDocument.withPages 1 4 .a4) [0, 1, 3] target' := by
  have hascending : [0, 1, 3].Pairwise (· < ·) := by decide
  exact (extraction_by_runs hascending).2.1 _ _ rfl (by decide)

open ImportFixture in
open scoped ReferenceLopdf in
/-- Both pages are within the document, and the second cannot be copied. -/
theorem extraction_of_alias_fails :
    ∃ source target e target', PdfDocument.load 1 aliasedFile = .ok source ∧
      PdfDocument.empty .reliable 2 = .ok target ∧ (roster target).live = [] ∧
      (∀ i ∈ [0, 1], i < Document.pageCount source) ∧
      extractRuns source (contiguousRuns [0, 1]) target = (.error e, target') :=
  ⟨_, _, _, _, rfl, rfl, rfl, by decide, rfl⟩

end OpdfEditor
