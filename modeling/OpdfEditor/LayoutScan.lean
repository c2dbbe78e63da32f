import OpdfEditor.Layout
import Mathlib.Tactic.Linarith

/-!
The viewport queries against plain scans of the layout: the two partition points bound
exactly the pages that meet the viewport, and the current page is the first that covers
the most of it.
-/
namespace OpdfEditor

/-! ### Partition points -/

/-- Every element a predicate accepts comes before every element it rejects: what a partition
point may be searched for in. -/
def Partitioned {α : Type} (p : α → Bool) (xs : List α) : Prop :=
  xs.Pairwise fun a b => p b = true → p a = true

theorem partitionPoint_le_length {α : Type} (p : α → Bool) (xs : List α) :
    partitionPoint p xs ≤ xs.length := (List.takeWhile_sublist p).length_le

/-- On a partitioned list the partition point bounds the elements accepted. -/
theorem lt_partitionPoint_iff {α : Type} {p : α → Bool} {before after : List α} {x : α}
    (h : Partitioned p (before ++ x :: after)) :
    before.length < partitionPoint p (before ++ x :: after) ↔ p x = true := by
  unfold partitionPoint
  induction before with
  | nil => by_cases hx : p x = true <;> simp [hx]
  | cons y before ih =>
    obtain ⟨hfirst, hrest⟩ := List.pairwise_cons.1 h
    rw [List.cons_append, List.takeWhile_cons]
    split
    · rw [List.length_cons, List.length_cons, Nat.add_lt_add_iff_right]
      exact ih hrest
    · rename_i hy
      have hx : ¬ p x = true := fun hx => hy (hfirst x (by simp) hx)
      simp [hx]

/-! ### A stack of pages -/

/-- One page lies above another, with nothing shared. -/
def Above (a b : PagePlacement) : Prop := a.topPt < b.topPt ∧ a.bottomPt < b.bottomPt

theorem placePages_top_ge {contentWidthPt gapPt : ℚ} (hgap : 0 ≤ gapPt) (pages : List PageInfo)
    (hpages : ∀ page ∈ pages, 0 < displayHeight page) (index : Nat) (cursorPt : ℚ) :
    ∀ placement ∈ (placePages contentWidthPt gapPt index cursorPt pages).1,
      cursorPt ≤ placement.topPt ∧ 0 < placement.heightPt := by
  induction pages generalizing index cursorPt with
  | nil => simp [placePages]
  | cons page pages ih =>
    intro placement hmem
    have hheight := hpages page (by simp)
    rcases List.mem_cons.1 hmem with rfl | hrest
    · exact ⟨le_refl _, hheight⟩
    · obtain ⟨htop, hpos⟩ := ih (fun later hlater => hpages later (List.mem_cons_of_mem _ hlater)) _ _
        placement hrest
      exact ⟨by linarith, hpos⟩

theorem placePages_above {contentWidthPt gapPt : ℚ} (hgap : 0 ≤ gapPt) (pages : List PageInfo)
    (hpages : ∀ page ∈ pages, 0 < displayHeight page) (index : Nat) (cursorPt : ℚ) :
    (placePages contentWidthPt gapPt index cursorPt pages).1.Pairwise Above := by
  induction pages generalizing index cursorPt with
  | nil => exact List.Pairwise.nil
  | cons page pages ih =>
    have hrest := fun later hlater => hpages later (List.mem_cons_of_mem page hlater)
    have hheight := hpages page (by simp)
    refine List.Pairwise.cons ?_ (ih hrest _ _)
    intro placement hmem
    obtain ⟨htop, hpos⟩ := placePages_top_ge hgap pages hrest _ _ placement hmem
    unfold Above PagePlacement.bottomPt
    exact ⟨by dsimp only; linarith, by dsimp only; linarith⟩

theorem placePages_length (contentWidthPt gapPt : ℚ) (pages : List PageInfo) (index : Nat)
    (cursorPt : ℚ) : (placePages contentWidthPt gapPt index cursorPt pages).1.length = pages.length := by
  induction pages generalizing index cursorPt with
  | nil => rfl
  | cons page pages ih => exact congrArg Nat.succ (ih _ _)

theorem computeDocumentLayout_length (snapshot : DocumentSnapshot) (gapPt marginPt : ℚ) :
    (computeDocumentLayout snapshot gapPt marginPt).placements.length = snapshot.pages.length := by
  unfold computeDocumentLayout
  split
  · rename_i hempty
    rw [List.isEmpty_iff.1 hempty]
    rfl
  · exact placePages_length _ _ _ _ _

/-- A placement's index is its position. -/
theorem placePages_index {contentWidthPt gapPt : ℚ} (pages : List PageInfo) (index : Nat)
    (cursorPt : ℚ) {before after : List PagePlacement} {placement : PagePlacement}
    (h : (placePages contentWidthPt gapPt index cursorPt pages).1 = before ++ placement :: after) :
    placement.index = index + before.length := by
  induction pages generalizing index cursorPt before with
  | nil => simp [placePages] at h
  | cons page pages ih =>
    unfold placePages at h
    dsimp only at h
    cases before with
    | nil =>
      obtain ⟨rfl, -⟩ := List.cons.inj h
      rfl
    | cons first before =>
      obtain ⟨-, hrest⟩ := List.cons.inj h
      rw [ih _ _ hrest, List.length_cons]
      omega

/-- What the stacking loop leaves: pages one above another, numbered from the top. -/
structure Stacked (layout : DocumentLayout) : Prop where
  above : layout.placements.Pairwise Above
  indexed : ∀ before placement after, layout.placements = before ++ placement :: after →
    placement.index = before.length

theorem stacked_computeDocumentLayout {snapshot : DocumentSnapshot} {gapPt : ℚ} (marginPt : ℚ)
    (hgap : 0 ≤ gapPt) (hpages : ∀ page ∈ snapshot.pages, 0 < displayHeight page) :
    Stacked (computeDocumentLayout snapshot gapPt marginPt) := by
  unfold computeDocumentLayout
  split
  · exact ⟨List.Pairwise.nil, by simp [DocumentLayout.empty]⟩
  · refine ⟨placePages_above hgap _ hpages _ _, fun before placement after h => ?_⟩
    rw [placePages_index _ _ _ h, Nat.zero_add]

namespace Stacked

variable {layout : DocumentLayout}

theorem bottoms_partitioned (h : Stacked layout) (lowPt : ℚ) :
    Partitioned (fun placement => decide (placement.bottomPt < lowPt)) layout.placements := by
  refine h.above.imp fun {a b} hab hb => decide_eq_true ?_
  exact hab.2.trans (of_decide_eq_true hb)

theorem tops_partitioned (h : Stacked layout) (highPt : ℚ) :
    Partitioned (fun placement => decide (placement.topPt ≤ highPt)) layout.placements := by
  refine h.above.imp fun {a b} hab hb => decide_eq_true ?_
  exact hab.1.le.trans (of_decide_eq_true hb)

/-- A page is in the range found exactly when its closed extent meets the widened viewport. -/
theorem mem_visible_iff (h : Stacked layout) (topPt heightPt overscanPt : ℚ)
    {before after : List PagePlacement} {placement : PagePlacement}
    (hsplit : layout.placements = before ++ placement :: after) :
    ((findVisiblePages layout topPt heightPt overscanPt).start ≤ before.length ∧
      before.length < (findVisiblePages layout topPt heightPt overscanPt).stop) ↔
    topPt - overscanPt ≤ placement.bottomPt ∧ placement.topPt ≤ topPt + heightPt + overscanPt := by
  have hfirst := h.bottoms_partitioned (topPt - overscanPt)
  have hlast := h.tops_partitioned (topPt + heightPt + overscanPt)
  rw [hsplit] at hfirst hlast
  have hfirst := lt_partitionPoint_iff hfirst
  have hlast := lt_partitionPoint_iff hlast
  simp only [decide_eq_true_eq] at hfirst hlast
  have hmeets := not_congr hfirst
  rw [not_lt, not_lt] at hmeets
  unfold findVisiblePages
  dsimp only
  rw [hsplit, ← hmeets, ← hlast]
  omega

/-- A page the viewport does not reach covers none of it. -/
theorem covered_le_zero_of_hidden (h : Stacked layout) {topPt heightPt : ℚ}
    {before after : List PagePlacement} {placement : PagePlacement}
    (hsplit : layout.placements = before ++ placement :: after)
    (hhidden : ¬ ((findVisiblePages layout topPt heightPt 0).start ≤ before.length ∧
      before.length < (findVisiblePages layout topPt heightPt 0).stop)) :
    coveredPt topPt (topPt + heightPt) placement ≤ 0 := by
  rw [h.mem_visible_iff topPt heightPt 0 hsplit, sub_zero, add_zero, not_and_or, not_le, not_le] at hhidden
  unfold coveredPt
  rcases hhidden with hlow | hhigh
  · have hmin := min_le_left placement.bottomPt (topPt + heightPt)
    have hmax := le_max_right placement.topPt topPt
    linarith
  · have hmin := min_le_right placement.bottomPt (topPt + heightPt)
    have hmax := le_max_left placement.topPt topPt
    linarith

end Stacked

/-! ### The current page -/

/-- The first of some pages to cover the most of the viewport, and some of it. -/
def EarliestMost (topPt bottomPt : ℚ) (placements : List PagePlacement) (current : PagePlacement)
    (position : Nat) : Prop :=
  ∃ before after, placements = before ++ current :: after ∧ before.length = position ∧
    0 < coveredPt topPt bottomPt current ∧
    (∀ earlier ∈ before, coveredPt topPt bottomPt earlier < coveredPt topPt bottomPt current) ∧
    ∀ later ∈ after, coveredPt topPt bottomPt later ≤ coveredPt topPt bottomPt current

/-- What the scan for the best page keeps: nothing while nothing is covered, else the best so far. -/
def BestOf (topPt bottomPt : ℚ) (placements : List PagePlacement) : Option (Nat × ℚ) → Prop
  | none => ∀ placement ∈ placements, coveredPt topPt bottomPt placement ≤ 0
  | some (index, covered) => ∃ current position, EarliestMost topPt bottomPt placements current position ∧
      current.index = index ∧ coveredPt topPt bottomPt current = covered

theorem EarliestMost.append {topPt bottomPt : ℚ} {placements : List PagePlacement}
    {current : PagePlacement} {position : Nat}
    (h : EarliestMost topPt bottomPt placements current position) {placement : PagePlacement}
    (hle : coveredPt topPt bottomPt placement ≤ coveredPt topPt bottomPt current) :
    EarliestMost topPt bottomPt (placements ++ [placement]) current position := by
  obtain ⟨before, after, rfl, hlen, hpos, hbefore, hafter⟩ := h
  refine ⟨before, after ++ [placement], by simp, hlen, hpos, hbefore, fun later hlater => ?_⟩
  rcases List.mem_append.1 hlater with hlater | hlater
  · exact hafter later hlater
  · rw [List.mem_singleton.1 hlater]
    exact hle

/-- One more page seen keeps the best so far. -/
theorem BestOf.keepBetter {topPt bottomPt : ℚ} {placements : List PagePlacement}
    {best : Option (Nat × ℚ)} (h : BestOf topPt bottomPt placements best) (placement : PagePlacement) :
    BestOf topPt bottomPt (placements ++ [placement])
      (OpdfEditor.keepBetter topPt bottomPt best placement) := by
  have hfirst : (∀ earlier ∈ placements,
      coveredPt topPt bottomPt earlier < coveredPt topPt bottomPt placement) →
      0 < coveredPt topPt bottomPt placement →
      BestOf topPt bottomPt (placements ++ [placement])
        (some (placement.index, coveredPt topPt bottomPt placement)) :=
    fun hbefore hpos => ⟨placement, placements.length,
      ⟨placements, [], rfl, rfl, hpos, hbefore, by simp⟩, rfl, rfl⟩
  unfold OpdfEditor.keepBetter
  dsimp only
  cases best with
  | none =>
    split
    · rename_i hle
      intro other hother
      rcases List.mem_append.1 hother with hother | hother
      · exact h other hother
      · rw [List.mem_singleton.1 hother]
        exact hle
    · rename_i hpos
      exact hfirst (fun earlier hmem => (h earlier hmem).trans_lt (not_le.1 hpos)) (not_le.1 hpos)
  | some best =>
    obtain ⟨index, covered⟩ := best
    obtain ⟨current, position, hcurrent, rfl, rfl⟩ := h
    have hkept : coveredPt topPt bottomPt placement ≤ coveredPt topPt bottomPt current →
        BestOf topPt bottomPt (placements ++ [placement])
          (some (current.index, coveredPt topPt bottomPt current)) :=
      fun hle => ⟨current, position, hcurrent.append hle, rfl, rfl⟩
    obtain ⟨before, after, rfl, -, hpos, hbefore, hafter⟩ := hcurrent
    split
    · rename_i hle
      exact hkept (hle.trans hpos.le)
    rename_i hnew
    dsimp only
    split
    · rename_i hbetter
      refine hfirst (fun earlier hmem => ?_) (not_le.1 hnew)
      rcases List.mem_append.1 hmem with hmem | hmem
      · exact (hbefore earlier hmem).trans hbetter
      rcases List.mem_cons.1 hmem with rfl | hmem
      · exact hbetter
      · exact (hafter earlier hmem).trans_lt hbetter
    · rename_i hworse
      exact hkept (not_lt.1 hworse)

theorem bestOf_foldl (topPt bottomPt : ℚ) (placements : List PagePlacement) :
    BestOf topPt bottomPt placements (placements.foldl (keepBetter topPt bottomPt) none) := by
  induction placements using List.reverseRecOn with
  | nil => simp [BestOf]
  | append_singleton placements placement ih =>
    rw [List.foldl_append]
    exact ih.keepBetter placement

/-- The first page not wholly above the viewport, or the last page where all of them are. -/
def NearestBelow (topPt : ℚ) (placements : List PagePlacement) (position : Nat) : Prop :=
  ∃ before current after, placements = before ++ current :: after ∧ before.length = position ∧
    (∀ earlier ∈ before, earlier.bottomPt < topPt) ∧ (topPt ≤ current.bottomPt ∨ after = [])

/-- A position of a list splits it. -/
theorem split_at {α : Type} {xs : List α} {i : Nat} (h : i < xs.length) :
    ∃ before x after, xs = before ++ x :: after ∧ before.length = i :=
  ⟨xs.take i, xs[i], xs.drop (i + 1), by rw [← List.drop_eq_getElem_cons h, List.take_append_drop],
    by simp [Nat.le_of_lt h]⟩

theorem split_of_mem_take {α : Type} {xs : List α} {x : α} {n : Nat} (h : x ∈ xs.take n) :
    ∃ before after, xs = before ++ x :: after ∧ before.length < n := by
  obtain ⟨before, after, hsplit⟩ := List.append_of_mem h
  refine ⟨before, after ++ xs.drop n, ?_, ?_⟩
  · rw [← List.cons_append, ← List.append_assoc, ← hsplit, List.take_append_drop]
  · have hlen := congrArg List.length hsplit
    rw [List.length_take, List.length_append, List.length_cons] at hlen
    omega

theorem split_of_mem_drop {α : Type} {xs : List α} {x : α} {n : Nat} (h : x ∈ xs.drop n) :
    ∃ before after, xs = before ++ x :: after ∧ n ≤ before.length := by
  obtain ⟨before, after, hsplit⟩ := List.append_of_mem h
  refine ⟨xs.take n ++ before, after, ?_, ?_⟩
  · rw [List.append_assoc, ← hsplit, List.take_append_drop]
  · have hlen := congrArg List.length hsplit
    rw [List.length_drop, List.length_append, List.length_cons] at hlen
    rw [List.length_append, List.length_take]
    omega

namespace Stacked

variable {layout : DocumentLayout}

/-- The nearest page, clamped to the last one. -/
theorem nearestBelow_partitionPoint (h : Stacked layout) (hpages : layout.placements ≠ []) (topPt : ℚ) :
    NearestBelow topPt layout.placements
      (min (partitionPoint (fun placement => decide (placement.bottomPt < topPt)) layout.placements)
        (layout.placements.length - 1)) := by
  have hpos : 0 < layout.placements.length := List.length_pos_iff.2 hpages
  have hin : min (partitionPoint (fun placement => decide (placement.bottomPt < topPt))
      layout.placements) (layout.placements.length - 1) < layout.placements.length := by omega
  obtain ⟨before, current, after, hsplit, hlen⟩ := split_at hin
  have hbelow : ∀ left page right, layout.placements = left ++ page :: right →
      (left.length < partitionPoint (fun placement => decide (placement.bottomPt < topPt))
        layout.placements ↔ page.bottomPt < topPt) := by
    intro left page right hat
    have hpart := h.bottoms_partitioned topPt
    rw [hat] at hpart ⊢
    simpa using lt_partitionPoint_iff hpart
  refine ⟨before, current, after, hsplit, hlen, fun earlier hmem => ?_, ?_⟩
  · obtain ⟨left, right, rfl⟩ := List.append_of_mem hmem
    refine (hbelow left earlier (right ++ current :: after) (by simpa using hsplit)).1 ?_
    rw [List.length_append, List.length_cons] at hlen
    omega
  · by_cases hlast : after = []
    · exact .inr hlast
    · refine .inl (not_lt.1 fun hover => ?_)
      have hin := (hbelow before current after hsplit).2 hover
      have hlonger : before.length + 1 < layout.placements.length := by
        rw [hsplit, List.length_append, List.length_cons]
        have := List.length_pos_iff.2 hlast
        omega
      omega

/-- Outside the visible slice nothing is covered. -/
theorem covered_outside (h : Stacked layout) (topPt heightPt : ℚ) :
    ∃ front back, layout.placements =
        front ++ ((findVisiblePages layout topPt heightPt 0).slice layout.placements ++ back) ∧
      ∀ placement ∈ front ++ back, coveredPt topPt (topPt + heightPt) placement ≤ 0 := by
  refine ⟨layout.placements.take (findVisiblePages layout topPt heightPt 0).start,
    layout.placements.drop ((findVisiblePages layout topPt heightPt 0).start +
      ((findVisiblePages layout topPt heightPt 0).stop -
        (findVisiblePages layout topPt heightPt 0).start)), ?_, fun placement hmem => ?_⟩
  · unfold IndexRange.slice
    rw [← List.drop_drop, List.take_append_drop, List.take_append_drop]
  · rcases List.mem_append.1 hmem with hfront | hback
    · obtain ⟨before, after, hsplit, hlen⟩ := split_of_mem_take hfront
      exact h.covered_le_zero_of_hidden hsplit fun hin => absurd hlen (Nat.not_lt.2 hin.1)
    · obtain ⟨before, after, hsplit, hlen⟩ := split_of_mem_drop hback
      exact h.covered_le_zero_of_hidden hsplit fun hin => by omega

/-- The page found is the first of the whole layout to cover the most of the viewport, or the nearest
where none is covered. -/
theorem findCurrentPage_spec (h : Stacked layout) (hpages : layout.placements ≠ []) (topPt heightPt : ℚ) :
    ∃ position, findCurrentPage layout topPt heightPt = some position ∧
      position < layout.placements.length ∧
      ((∃ current, EarliestMost topPt (topPt + heightPt) layout.placements current position) ∨
        (∀ placement ∈ layout.placements, coveredPt topPt (topPt + heightPt) placement ≤ 0) ∧
          NearestBelow topPt layout.placements position) := by
  obtain ⟨front, back, hcut, houtside⟩ := h.covered_outside topPt heightPt
  have hbest := bestOf_foldl topPt (topPt + heightPt)
    ((findVisiblePages layout topPt heightPt 0).slice layout.placements)
  have hnonempty : layout.isEmpty = false := by simpa [DocumentLayout.isEmpty] using hpages
  have hpos : 0 < layout.placements.length := List.length_pos_iff.2 hpages
  unfold findCurrentPage
  rw [hnonempty]
  dsimp only
  cases hfold : ((findVisiblePages layout topPt heightPt 0).slice layout.placements).foldl
      (keepBetter topPt (topPt + heightPt)) none with
  | none =>
    rw [hfold] at hbest
    refine ⟨_, rfl, by omega, .inr ⟨fun placement hmem => ?_, h.nearestBelow_partitionPoint hpages topPt⟩⟩
    rw [hcut] at hmem
    rcases List.mem_append.1 hmem with hfront | hmem
    · exact houtside placement (List.mem_append_left _ hfront)
    rcases List.mem_append.1 hmem with hshown | hback
    · exact hbest placement hshown
    · exact houtside placement (List.mem_append_right _ hback)
  | some best =>
    obtain ⟨index, covered⟩ := best
    rw [hfold] at hbest
    obtain ⟨current, position, ⟨before, after, hshown, -, hcovers, hbefore, hafter⟩, rfl, -⟩ := hbest
    have hsplit : layout.placements = (front ++ before) ++ current :: (after ++ back) := by
      rw [hcut, hshown]
      simp
    have hindex := h.indexed _ _ _ hsplit
    refine ⟨current.index, rfl, ?_, .inl ⟨current, front ++ before, after ++ back, hsplit, hindex.symm,
      hcovers, fun earlier hmem => ?_, fun later hmem => ?_⟩⟩
    · rw [hindex, hsplit]
      simp
    · rcases List.mem_append.1 hmem with hfront | hmem
      · exact (houtside earlier (List.mem_append_left _ hfront)).trans_lt hcovers
      · exact hbefore earlier hmem
    · rcases List.mem_append.1 hmem with hmem | hback
      · exact hafter later hmem
      · exact (houtside later (List.mem_append_right _ hback)).trans hcovers.le

end Stacked

/-- A page's closed vertical extent meets the viewport widened on each side. -/
def MeetsViewport (topPt heightPt overscanPt : ℚ) (placement : PagePlacement) : Prop :=
  topPt - overscanPt ≤ placement.bottomPt ∧ placement.topPt ≤ topPt + heightPt + overscanPt

/-- On the layout of any snapshot whose pages have a height, both searches run over partitioned
lists, the range found holds exactly the pages that meet the widened viewport, and the current page
is the first to cover the most of the viewport, or the nearest one. -/
theorem viewport_queries_are_scans {snapshot : DocumentSnapshot} {gapPt : ℚ} (marginPt : ℚ)
    (hgap : 0 ≤ gapPt) (hpages : ∀ page ∈ snapshot.pages, 0 < displayHeight page)
    (topPt heightPt overscanPt : ℚ) :
    let layout := computeDocumentLayout snapshot gapPt marginPt
    let visible := findVisiblePages layout topPt heightPt overscanPt
    (Partitioned (fun placement => decide (placement.bottomPt < topPt - overscanPt)) layout.placements ∧
      Partitioned (fun placement => decide (placement.topPt ≤ topPt + heightPt + overscanPt))
        layout.placements) ∧
    (visible.start ≤ visible.stop ∧ visible.stop ≤ layout.placements.length ∧
      (∀ before placement after, layout.placements = before ++ placement :: after →
        (visible.start ≤ before.length ∧ before.length < visible.stop ↔
          MeetsViewport topPt heightPt overscanPt placement)) ∧
      ((∀ placement ∈ layout.placements, ¬ MeetsViewport topPt heightPt overscanPt placement) →
        visible.start = visible.stop)) ∧
    (snapshot.pages = [] → findCurrentPage layout topPt heightPt = none) ∧
    (snapshot.pages ≠ [] → ∃ position, findCurrentPage layout topPt heightPt = some position ∧
      position < snapshot.pages.length ∧
      ((∃ current, EarliestMost topPt (topPt + heightPt) layout.placements current position) ∨
        (∀ placement ∈ layout.placements, coveredPt topPt (topPt + heightPt) placement ≤ 0) ∧
          NearestBelow topPt layout.placements position)) := by
  have hstacked := stacked_computeDocumentLayout marginPt hgap hpages
  have hlength := computeDocumentLayout_length snapshot gapPt marginPt
  have hmeets : ∀ before placement after,
      (computeDocumentLayout snapshot gapPt marginPt).placements = before ++ placement :: after → _ :=
    fun _ _ _ hsplit => hstacked.mem_visible_iff topPt heightPt overscanPt hsplit
  refine ⟨⟨hstacked.bottoms_partitioned _, hstacked.tops_partitioned _⟩,
    ⟨le_max_right _ _, max_le (partitionPoint_le_length _ _) (partitionPoint_le_length _ _), hmeets,
      fun hnone => ?_⟩, fun hempty => ?_, fun hpages => ?_⟩
  · refine le_antisymm (le_max_right _ _) (not_lt.1 fun hlt => ?_)
    have hin : (findVisiblePages (computeDocumentLayout snapshot gapPt marginPt) topPt heightPt
        overscanPt).start < (computeDocumentLayout snapshot gapPt marginPt).placements.length :=
      hlt.trans_le (max_le (partitionPoint_le_length _ _) (partitionPoint_le_length _ _))
    obtain ⟨before, placement, after, hsplit, hposition⟩ := split_at hin
    refine hnone placement (by simp [hsplit]) ((hmeets _ _ _ hsplit).1 ⟨?_, ?_⟩)
    · exact hposition.ge
    · exact hposition.le.trans_lt hlt
  · have hnil := List.length_eq_zero_iff.1 (hlength.trans (by rw [hempty]; rfl))
    unfold findCurrentPage DocumentLayout.isEmpty
    rw [hnil]
    rfl
  · rw [← hlength]
    refine hstacked.findCurrentPage_spec (fun hnil => hpages ?_) topPt heightPt
    rw [hnil] at hlength
    exact List.length_eq_zero_iff.1 hlength.symm

/-- A portrait page above a landscape one, with a viewport over the gap between them. -/
theorem viewport_queries_are_scans_two_pages :
    let snapshot : DocumentSnapshot := ⟨1, [⟨0, .a4, .none⟩, ⟨1, .a4, .quarter⟩], 0⟩
    let layout := computeDocumentLayout snapshot 14 20
    (findVisiblePages layout 500 400 0).start ≤ (findVisiblePages layout 500 400 0).stop ∧
    ∃ position, findCurrentPage layout 500 400 = some position ∧ position < 2 := by
  have hqueries := @viewport_queries_are_scans ⟨1, [⟨0, .a4, .none⟩, ⟨1, .a4, .quarter⟩], 0⟩ 14 20
    (by norm_num) (by decide +kernel) 500 400 0
  obtain ⟨position, hfound, hlt, -⟩ := hqueries.2.2.2 (by simp)
  exact ⟨hqueries.2.1.1, position, hfound, hlt⟩

end OpdfEditor
