import OpdfEditor.SelectionGrammar

/-!
Resolving a selection against a document: a part is the pages between its ends, the
first end outside the document is the error, and the indices come out ascending and
once each.
-/
namespace OpdfEditor.PageSelection

open Trimming

theorem mapM_checkedPred {first : Nat} (h : 1 ≤ first) (length : Nat) :
    (List.range' first length).mapM checkedPred = some (List.range' (first - 1) length) := by
  induction length generalizing first with
  | zero => rfl
  | succ length ih =>
    obtain ⟨n, rfl⟩ : ∃ n, first = n + 1 := ⟨first - 1, by omega⟩
    rw [List.range'_succ, List.mapM_cons, ih (by omega), Nat.add_sub_cancel, Nat.add_sub_cancel,
      List.range'_succ]
    rfl

def partIndices (pageCount : Nat) (part : SelectionPart) : List Nat :=
  List.range' (part.first.1 - 1) (part.lastIn pageCount + 1 - part.first.1)

theorem mem_partIndices {pageCount i : Nat} {part : SelectionPart} :
    i ∈ partIndices pageCount part ↔ part.Names pageCount (i + 1) := by
  have hfirst := part.first.2
  rw [partIndices, List.mem_range'_1, SelectionPart.Names]
  omega

/-- A part that stays within the document is a range the right way round. -/
theorem first_le_lastIn (pageCount : Nat) (part : SelectionPart)
    (h : part.first.1 ≤ pageCount) : part.first.1 ≤ part.lastIn pageCount := by
  rw [SelectionPart.lastIn]
  cases hlast : part.last with
  | none => exact h
  | some last => exact part.ordered last hlast

theorem offending_eq_none {pageCount : Nat} {part : SelectionPart} :
    part.offending pageCount = none ↔ part.Within pageCount := by
  have hfirst := part.first.2
  have hrange := first_le_lastIn pageCount part
  rw [SelectionPart.offending, SelectionPart.Within]
  split_ifs with h h'
  · simp
    omega
  · simp
    omega
  · simp
    omega

theorem offending_eq_some {pageCount index : Nat} {part : SelectionPart} :
    part.offending pageCount = some index ↔
      (pageCount < part.first.1 ∧ index = part.first.1 ∨
        part.first.1 ≤ pageCount ∧ pageCount < part.lastIn pageCount ∧
          index = part.lastIn pageCount) := by
  rw [SelectionPart.offending]
  split_ifs with h h'
  · rw [Option.some.injEq]
    omega
  · rw [Option.some.injEq]
    omega
  · simp
    omega

theorem collectIndices_within {pageCount : Nat} {parts : List SelectionPart}
    (h : ∀ part ∈ parts, part.Within pageCount) (indices : List Nat) :
    collectIndices pageCount parts indices =
      some (.ok (indices ++ parts.flatMap (partIndices pageCount))) := by
  induction parts generalizing indices with
  | nil => simp [collectIndices]
  | cons part parts ih =>
    rw [collectIndices, offending_eq_none.2 (h part (by simp))]
    dsimp only
    rw [mapM_checkedPred part.first.2]
    dsimp only
    rw [ih fun part hpart => h part (by simp [hpart]), List.flatMap_cons, ← List.append_assoc]
    rfl

theorem collectIndices_beyond {pageCount index : Nat} {before after : List SelectionPart}
    {part : SelectionPart} (h : ∀ earlier ∈ before, earlier.Within pageCount)
    (hpart : part.offending pageCount = some index) (indices : List Nat) :
    collectIndices pageCount (before ++ part :: after) indices =
      some (.error (.indexOutOfBounds index pageCount)) := by
  induction before generalizing indices with
  | nil => rw [List.nil_append, collectIndices, hpart]
  | cons first before ih =>
    rw [List.cons_append, collectIndices, offending_eq_none.2 (h first (by simp))]
    dsimp only
    rw [mapM_checkedPred first.first.2]
    dsimp only
    rw [ih fun part hpart => h part (by simp [hpart])]

/-- Either every part stays within the document, or one is the first to leave it. -/
theorem within_or_firstBeyond (parts : List SelectionPart) (pageCount : Nat) :
    (∀ part ∈ parts, part.Within pageCount) ∨ ∃ index, FirstBeyond parts pageCount index := by
  induction parts with
  | nil => exact .inl fun part h => by cases h
  | cons part parts ih =>
    cases hpart : part.offending pageCount with
    | some index =>
      exact .inr ⟨index, [], part, parts, rfl, fun _ h => by (cases h),
        offending_eq_some.1 hpart⟩
    | none =>
      rw [offending_eq_none] at hpart
      obtain h | ⟨index, before, part', after, hsplit, hbefore, hindex⟩ := ih
      · exact .inl (List.forall_mem_cons.2 ⟨hpart, h⟩)
      · exact .inr ⟨index, part :: before, part', after, by rw [hsplit]; rfl,
          List.forall_mem_cons.2 ⟨hpart, hbefore⟩, hindex⟩

/-- Sorting and dropping repeats keeps what there is, each once and in ascending order. -/
theorem mem_sorted {collected : List Nat} {i : Nat} :
    i ∈ (collected.mergeSort).destutter (· ≠ ·) ↔ i ∈ collected := by
  have hsorted := List.sortedLE_mergeSort (l := collected)
  rw [hsorted.pairwise.destutter_eq_dedup, List.mem_dedup, List.mem_mergeSort]

theorem pairwise_sorted (collected : List Nat) :
    ((collected.mergeSort).destutter (· ≠ ·)).Pairwise (· < ·) := by
  have hsorted := (List.sortedLE_mergeSort (l := collected)).pairwise
  have hnodup : ((collected.mergeSort).destutter (· ≠ ·)).Nodup := by
    rw [hsorted.destutter_eq_dedup]
    exact List.nodup_dedup _
  exact (hsorted.sublist (List.destutter_sublist _ _)).imp₂
    (fun _ _ hle hne => lt_of_le_of_ne hle hne) hnodup

theorem spells_ne_nil {text : List Char} {parts : List SelectionPart}
    (h : Spells text parts) : parts ≠ [] := by
  obtain ⟨pieces, hseparated, hpieces⟩ := h
  rintro rfl
  cases hpieces
  exact hseparated.nonempty rfl

/-- Resolving parts that stay within the document names exactly their pages. -/
theorem resolve_within {parts : List SelectionPart} {pageCount : Nat} (hne : parts ≠ [])
    (h : ∀ part ∈ parts, part.Within pageCount) : ∃ indices,
      resolve ⟨parts⟩ pageCount = some (.ok indices) ∧ indices ≠ [] ∧
        indices.Pairwise (· < ·) ∧
        ∀ i, i ∈ indices ↔ ∃ part ∈ parts, part.Names pageCount (i + 1) := by
  have hmem : ∀ i, i ∈ ((parts.flatMap (partIndices pageCount)).mergeSort).destutter (· ≠ ·) ↔
      ∃ part ∈ parts, part.Names pageCount (i + 1) := by
    intro i
    simp only [mem_sorted, List.mem_flatMap, mem_partIndices]
  have hsome : ((parts.flatMap (partIndices pageCount)).mergeSort).destutter (· ≠ ·) ≠ [] := by
    obtain ⟨part, hpart⟩ := List.exists_mem_of_ne_nil _ hne
    have hwithin := (h part hpart part.first.1 (by simp)).2
    have hnamed : part.Names pageCount (part.first.1 - 1 + 1) := by
      rw [Nat.sub_add_cancel part.first.2]
      exact ⟨le_rfl, first_le_lastIn _ _ hwithin⟩
    exact List.ne_nil_of_mem ((hmem _).2 ⟨part, hpart, hnamed⟩)
  refine ⟨_, ?_, hsome, pairwise_sorted _, hmem⟩
  rw [resolve, collectIndices_within h, List.nil_append]
  dsimp only
  rw [if_neg (by simpa using hsome)]

/-- Resolving fails at the first part that leaves the document. -/
theorem resolve_beyond {parts : List SelectionPart} {pageCount index : Nat}
    (h : FirstBeyond parts pageCount index) :
    resolve ⟨parts⟩ pageCount = some (.error (.indexOutOfBounds index pageCount)) := by
  obtain ⟨before, part, after, rfl, hbefore, hindex⟩ := h
  rw [resolve, collectIndices_beyond hbefore (offending_eq_some.2 hindex)]

theorem select_of_spells {text : List Char} {parts : List SelectionPart} (h : Spells text parts)
    (pageCount : Nat) : select text pageCount = resolve ⟨parts⟩ pageCount := by
  rw [select, parse_of_spells h]

theorem select_of_firstInverted {text : List Char} {first last : Nat}
    (h : FirstInverted text first last) (pageCount : Nat) :
    select text pageCount = some (.error (.invalidRange first last)) := by
  rw [select, parse_of_firstInverted h]

/-- How selecting comes out. -/
inductive Selects (text : List Char) (pageCount : Nat) : Except Error (List Nat) → Prop
  | within {parts : List SelectionPart} {indices : List Nat} (spells : Spells text parts)
      (within : ∀ part ∈ parts, part.Within pageCount) (nonempty : indices ≠ [])
      (ascending : indices.Pairwise (· < ·))
      (exact : ∀ i, i ∈ indices ↔ ∃ part ∈ parts, part.Names pageCount (i + 1)) :
      Selects text pageCount (.ok indices)
  | beyond {parts : List SelectionPart} {index : Nat} (spells : Spells text parts)
      (first : FirstBeyond parts pageCount index) :
      Selects text pageCount (.error (.indexOutOfBounds index pageCount))
  | inverted {first last : Nat} (h : FirstInverted text first last) :
      Selects text pageCount (.error (.invalidRange first last))
  | unreadable {message : String} : Selects text pageCount (.error (.unsupported message))

theorem select_selects (text : List Char) (pageCount : Nat) :
    ∃ result, select text pageCount = some result ∧ Selects text pageCount result := by
  have hreads := parse_reads text
  rw [select]
  generalize parse text = parsed at hreads ⊢
  cases hreads with
  | @spelled selection h =>
    obtain hwithin | ⟨index, hbeyond⟩ := within_or_firstBeyond selection.parts pageCount
    · obtain ⟨indices, hresolve, hne, hascending, hexact⟩ :=
        resolve_within (spells_ne_nil h) hwithin
      exact ⟨_, hresolve, .within h hwithin hne hascending hexact⟩
    · exact ⟨_, resolve_beyond hbeyond, .beyond h hbeyond⟩
  | inverted h => exact ⟨_, rfl, .inverted h⟩
  | unreadable => exact ⟨_, rfl, .unreadable⟩

/-- A text determines the parts it spells. -/
theorem spells_unique {text : List Char} {parts parts' : List SelectionPart}
    (h : Spells text parts) (h' : Spells text parts') : parts = parts' := by
  have heq := (parse_of_spells h).symm.trans (parse_of_spells h')
  cases heq
  rfl

/-- A page a part within the document names is a page of the document. -/
theorem lt_of_names {part : SelectionPart} {pageCount i : Nat} (hwithin : part.Within pageCount)
    (h : part.Names pageCount (i + 1)) : i < pageCount := by
  have hlast := (hwithin (part.lastIn pageCount) (by simp)).2
  have := h.2
  omega

/-- The `--pages` language: what is accepted, what is selected, and how a rejected text fails. -/
theorem select_spec (text : List Char) (pageCount : Nat) :
    ∃ result, select text pageCount = some result ∧
      ((∃ indices, result = .ok indices) ↔
        ∃ parts, Spells text parts ∧ ∀ part ∈ parts, part.Within pageCount) ∧
      (∀ indices parts, result = .ok indices → Spells text parts →
        indices ≠ [] ∧ indices.Pairwise (· < ·) ∧ (∀ i ∈ indices, i < pageCount) ∧
        ∀ i, i ∈ indices ↔ ∃ part ∈ parts, part.Names pageCount (i + 1)) ∧
      (∀ parts, Spells text parts → ∀ part ∈ parts, part.Within pageCount →
        1 ≤ part.first.1 ∧ part.first.1 ≤ part.lastIn pageCount) ∧
      (∀ first last, result = .error (.invalidRange first last) ↔
        FirstInverted text first last) ∧
      (∀ index count, result = .error (.indexOutOfBounds index count) ↔
        count = pageCount ∧ ∃ parts, Spells text parts ∧ FirstBeyond parts pageCount index) := by
  obtain ⟨result, hresult, hselects⟩ := select_selects text pageCount
  have hsame : ∀ {other}, select text pageCount = some other → result = other := fun h =>
    Option.some.inj (hresult.symm.trans h)
  refine ⟨result, hresult, ⟨?_, ?_⟩, ?_, ?_, ?_, ?_⟩
  · rintro ⟨indices, rfl⟩
    cases hselects with
    | within spells within => exact ⟨_, spells, within⟩
  · rintro ⟨parts, hspells, hwithin⟩
    obtain ⟨indices, hresolve, -⟩ := resolve_within (spells_ne_nil hspells) hwithin
    exact ⟨indices, hsame (by rw [select_of_spells hspells, hresolve])⟩
  · rintro indices parts rfl hspells
    cases hselects with
    | within spells within nonempty ascending exact =>
      rw [spells_unique hspells spells]
      refine ⟨nonempty, ascending, fun i hi => ?_, exact⟩
      obtain ⟨part, hpart, hnames⟩ := (exact i).1 hi
      exact lt_of_names (within part hpart) hnames
  · intro parts _ part _ hwithin
    exact ⟨part.first.2, first_le_lastIn _ _ (hwithin _ (by simp)).2⟩
  · intro first last
    constructor
    · rintro rfl
      cases hselects with
      | inverted h => exact h
    · intro h
      exact hsame (select_of_firstInverted h pageCount)
  · intro index count
    constructor
    · rintro rfl
      cases hselects with
      | beyond spells first => exact ⟨rfl, _, spells, first⟩
    · rintro ⟨rfl, parts, hspells, hbeyond⟩
      exact hsame (by rw [select_of_spells hspells, resolve_beyond hbeyond])

end OpdfEditor.PageSelection
