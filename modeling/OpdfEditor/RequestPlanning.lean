import OpdfEditor.ShellService
import OpdfEditor.Surfaces
import OpdfEditor.TextureAccounting
import OpdfEditor.TextureLimit

/-!
What one frame plans, and what the frames of a fixed view submit: the wanted pages in
order of their distance from the focus, a frame's budget at a time, none lost and none
submitted twice.
-/
namespace OpdfEditor

/-! ### The plan of one frame -/

def distance (focus index : Nat) : Nat := max index focus - min index focus

/-- Nearer the focus, or as far and the later page. -/
def Nearer (focus a b : Nat) : Prop :=
  distance focus a < distance focus b ∨ distance focus a = distance focus b ∧ b < a

theorem nearer_of_focusKey {focus a b : Nat} (hkey : focusKey focus a ≤ focusKey focus b) (hne : a ≠ b) :
    Nearer focus a b := by
  unfold focusKey at hkey
  unfold Nearer distance
  split at hkey <;> split at hkey <;> omega

theorem orderByDistanceFromFocus_perm (visible : IndexRange) (focus : Nat) :
    (orderByDistanceFromFocus visible focus).Perm visible.indices := List.perm_insertionSort _ _

theorem orderByDistanceFromFocus_nodup (visible : IndexRange) (focus : Nat) :
    (orderByDistanceFromFocus visible focus).Nodup :=
  (orderByDistanceFromFocus_perm visible focus).nodup_iff.2 List.nodup_range'

theorem orderByDistanceFromFocus_nearer (visible : IndexRange) (focus : Nat) :
    (orderByDistanceFromFocus visible focus).Pairwise (Nearer focus) := by
  have : IsTrans Nat fun a b => focusKey focus a ≤ focusKey focus b := ⟨fun _ _ _ => Nat.le_trans⟩
  have : Std.Total fun a b => focusKey focus a ≤ focusKey focus b := ⟨fun _ _ => Nat.le_total _ _⟩
  have hsorted : (orderByDistanceFromFocus visible focus).Pairwise
      fun a b => focusKey focus a ≤ focusKey focus b := List.pairwise_insertionSort _ _
  exact hsorted.imp₂ (fun _ _ hkey hne => nearer_of_focusKey hkey hne)
    (orderByDistanceFromFocus_nodup visible focus)

def requestAt (snapshot : DocumentSnapshot) (settings : RenderSettings) (index : Nat) :
    Option RenderRequest := snapshot.pages[index]?.bind (requestPage snapshot settings)

def requestsOf (snapshot : DocumentSnapshot) (settings : RenderSettings) (indices : List Nat) :
    List RenderRequest := indices.filterMap (requestAt snapshot settings)

theorem scaleForPage_pos (settings : RenderSettings) (page : PageInfo) :
    0 < settings.scaleForPage page := fitRenderScaleToTextureLimit_pos _ _ _ _

/-- Every page of the snapshot has a request. -/
theorem requestPage_eq_some (snapshot : DocumentSnapshot) (settings : RenderSettings) (page : PageInfo) :
    requestPage snapshot settings page = some ⟨snapshot.document, page.id, snapshot.revision,
      settings.scaleForPage page, settings.viewRotation, scaleForPage_pos settings page⟩ := by
  unfold requestPage RenderRequest.new
  rw [dif_pos (scaleForPage_pos settings page)]
  rfl

theorem requestAt_eq_some {snapshot : DocumentSnapshot} {settings : RenderSettings} {index : Nat}
    {request : RenderRequest} (h : requestAt snapshot settings index = some request) :
    ∃ page, snapshot.pages[index]? = some page ∧ request.page = page.id ∧
      request.document = snapshot.document ∧ request.revision = snapshot.revision := by
  obtain ⟨page, hpage, hrequest⟩ := Option.bind_eq_some_iff.1 h
  rw [requestPage_eq_some] at hrequest
  cases hrequest
  exact ⟨page, hpage, rfl, rfl, rfl⟩

/-- Where page ids are distinct, so are the requests of distinct pages. -/
theorem requestsOf_nodup {snapshot : DocumentSnapshot} (hids : (snapshot.pages.map PageInfo.id).Nodup)
    (settings : RenderSettings) {indices : List Nat} (hindices : indices.Nodup) :
    (requestsOf snapshot settings indices).Nodup := by
  refine List.Nodup.filterMap ?_ hindices
  intro a b request ha hb
  obtain ⟨pageA, hpageA, hidA, -, -⟩ := requestAt_eq_some ha
  obtain ⟨pageB, hpageB, hidB, -, -⟩ := requestAt_eq_some hb
  have hlenA : a < (snapshot.pages.map PageInfo.id).length := by
    rw [List.length_map]
    exact (List.getElem?_eq_some_iff.1 hpageA).1
  refine (List.getElem?_inj hlenA hids).1 ?_
  rw [List.getElem?_map, List.getElem?_map, hpageA, hpageB]
  exact congrArg some (hidA.symm.trans hidB)

theorem planPage_none {snapshot : DocumentSnapshot} {settings : RenderSettings}
    {isWanted : RenderRequest → Bool} {budget index : Nat} (h : requestAt snapshot settings index = none)
    (plan : RequestPlan) : planPage snapshot settings isWanted budget plan index = plan := by
  unfold requestAt at h
  unfold planPage
  cases hpage : snapshot.pages[index]? with
  | none => rfl
  | some page =>
    rw [hpage, Option.bind_some] at h
    simp [h]

theorem planPage_some {snapshot : DocumentSnapshot} {settings : RenderSettings}
    {isWanted : RenderRequest → Bool} {budget index : Nat} {request : RenderRequest}
    (h : requestAt snapshot settings index = some request) (plan : RequestPlan) :
    planPage snapshot settings isWanted budget plan index =
      if !isWanted request then plan
      else if plan.requests.length ≥ budget then { plan with skipped := plan.skipped + 1 }
      else { plan with requests := plan.requests ++ [request] } := by
  obtain ⟨page, hpage, hrequest⟩ := Option.bind_eq_some_iff.1 h
  unfold planPage
  simp only [hpage, hrequest]

/-- Planning takes the wanted requests in order while there is room, and counts the rest. -/
theorem foldl_planPage (snapshot : DocumentSnapshot) (settings : RenderSettings)
    (isWanted : RenderRequest → Bool) (budget : Nat) (indices : List Nat) (plan : RequestPlan) :
    indices.foldl (planPage snapshot settings isWanted budget) plan =
      ⟨plan.requests ++ ((requestsOf snapshot settings indices).filter isWanted).take
          (budget - plan.requests.length),
        plan.skipped + (((requestsOf snapshot settings indices).filter isWanted).length -
          (budget - plan.requests.length))⟩ := by
  induction indices generalizing plan with
  | nil => simp [requestsOf]
  | cons index indices ih =>
    rw [List.foldl_cons, ih]
    unfold requestsOf
    cases hat : requestAt snapshot settings index with
    | none => rw [planPage_none hat, List.filterMap_cons_none hat]
    | some request =>
      rw [planPage_some hat, List.filterMap_cons_some hat]
      cases hwanted : isWanted request with
      | false => simp [hwanted]
      | true =>
        by_cases hfull : plan.requests.length ≥ budget
        · simp [hwanted, hfull, Nat.sub_eq_zero_of_le hfull]
          omega
        · obtain ⟨room, hroom⟩ := Nat.exists_eq_add_of_lt (Nat.lt_of_not_le hfull)
          have hbefore : budget - plan.requests.length = room + 1 := by omega
          have hafter : budget - (plan.requests ++ [request]).length = room := by
            rw [List.length_append, List.length_singleton]
            omega
          rw [List.filter_cons_of_pos hwanted, hbefore, List.take_succ_cons, List.length_cons,
            Nat.add_sub_add_right]
          simp only [Bool.not_true, Bool.false_eq_true, if_false, if_neg hfull, hafter,
            List.append_assoc, List.singleton_append]

/-- What a frame wants: the wanted requests of the visible pages, nearest the focus first. -/
def wantedRequests (snapshot : DocumentSnapshot) (visible : IndexRange) (focus : Nat)
    (settings : RenderSettings) (isWanted : RenderRequest → Bool) : List RenderRequest :=
  (requestsOf snapshot settings (orderByDistanceFromFocus visible focus)).filter isWanted

theorem planRenderRequests_eq (snapshot : DocumentSnapshot) (visible : IndexRange) (focus : Nat)
    (settings : RenderSettings) (isWanted : RenderRequest → Bool) (budget : Nat) :
    planRenderRequests snapshot visible focus settings isWanted budget =
      ⟨(wantedRequests snapshot visible focus settings isWanted).take budget,
        (wantedRequests snapshot visible focus settings isWanted).length - budget⟩ := by
  unfold planRenderRequests
  rw [foldl_planPage]
  simp [wantedRequests]

/-! ### What a frame's responses leave wanted -/

theorem evictToBudget_none {T : Type} {c : TileCache T} {protectedSince : Nat}
    (h : (c.evictToBudget protectedSince).1 = 0) : (c.evictToBudget protectedSince).2 = c := by
  have hin := TileCache.Accounted.candidates_contained (c := c) protectedSince
  unfold TileCache.evictToBudget at h ⊢
  cases hqueue : c.evictionCandidates protectedSince with
  | nil => rfl
  | cons request requests =>
    rw [hqueue] at h hin
    unfold TileCache.evictInOrder at h ⊢
    split
    · rfl
    · rename_i hover
      rw [if_neg hover] at h
      simp [hin request (by simp)] at h

theorem wants_congr {T : Type} {c c' : TileCache T} {request : RenderRequest}
    (hcontains : c'.contains request = c.contains request)
    (hpending : request ∈ c'.pending ↔ request ∈ c.pending)
    (hfailed : request ∈ c'.failed ↔ request ∈ c.failed) : c'.wants request = c.wants request := by
  rw [Bool.eq_iff_iff, TileCache.wants_eq_true, TileCache.wants_eq_true, hcontains, hpending, hfailed]

theorem contains_insert {T : Type} (request : RenderRequest) (value : T) (bytes : Nat) (c : TileCache T)
    (other : RenderRequest) :
    (c.insert request value bytes).contains other = true ↔ other = request ∨ c.contains other = true := by
  rw [TileCache.contains_iff, TileCache.contains_iff]
  constructor
  · intro h
    rcases List.mem_cons.1 h with heq | hold
    · exact .inl heq
    · obtain ⟨entry, hentry, rfl⟩ := List.mem_map.1 hold
      exact .inr (List.mem_map_of_mem (List.mem_of_mem_filter hentry))
  · intro h
    by_cases heq : other = request
    · exact List.mem_cons.2 (.inl heq)
    · obtain ⟨entry, hentry, rfl⟩ := List.mem_map.1 (h.resolve_left heq)
      exact List.mem_cons_of_mem _
        (List.mem_map_of_mem (List.mem_filter.2 ⟨hentry, decide_eq_true heq⟩))

variable {drawn : DocumentSnapshot}

/-- An answer to a request in flight leaves wanted what was wanted: the request answered was not,
and is cached or refused now. -/
theorem wants_fileResponse {cache : TextureCache} {response : RenderResponse}
    (hpending : response.request ∈ cache.pending) {request : RenderRequest}
    (hdocument : request.document = drawn.document) (hrevision : request.revision = drawn.revision) :
    (fileResponse drawn response cache).wants request = cache.wants request := by
  unfold fileResponse
  dsimp only
  split
  · rename_i hother
    have hne : request ≠ response.request := by
      rintro rfl
      exact hother.elim (fun h => h hdocument) (fun h => h hrevision)
    exact wants_congr rfl (by simp [hne]) Iff.rfl
  by_cases heq : request = response.request
  · have hbefore : cache.wants request = false := by
      refine Bool.eq_false_iff.2 fun hwants => ?_
      exact (TileCache.wants_eq_true.1 hwants).2.1 (heq ▸ hpending)
    rw [hbefore]
    refine Bool.eq_false_iff.2 fun hwants => ?_
    obtain ⟨hcontains, -, hfailed⟩ := TileCache.wants_eq_true.1 hwants
    cases response with
    | ready answered tile =>
      have hin := (contains_insert answered tile (measureTileBytes tile) cache request).2 (.inl heq)
      exact Bool.noConfusion (hin.symm.trans hcontains)
    | failed answered reason => exact hfailed (Finset.mem_insert.2 (.inl heq))
  · cases response with
    | ready answered tile =>
      refine wants_congr ?_ (by simp [show request ≠ answered from heq])
        (by simp [show request ≠ answered from heq])
      rw [Bool.eq_iff_iff, contains_insert]
      exact ⟨fun h => h.resolve_left heq, .inr⟩
    | failed answered reason =>
      exact wants_congr rfl (by simp [show request ≠ answered from heq])
        (by simp [show request ≠ answered from heq])

/-- Every response answers a request that is in flight when it is filed. -/
def Solicited (drawn : DocumentSnapshot) : CachePair → List RenderResponse → Prop
  | _, [] => True
  | caches, response :: responses =>
    (response.request ∈ caches.canvas.pending ∨ response.request ∈ caches.rail.pending) ∧
      Solicited drawn (caches.route drawn response) responses

instance decidableSolicited (drawn : DocumentSnapshot) : (caches : CachePair) →
    (responses : List RenderResponse) → Decidable (Solicited drawn caches responses)
  | _, [] => inferInstanceAs (Decidable True)
  | caches, response :: responses =>
    have := decidableSolicited drawn (caches.route drawn response) responses
    inferInstanceAs (Decidable ((response.request ∈ caches.canvas.pending ∨
      response.request ∈ caches.rail.pending) ∧ Solicited drawn (caches.route drawn response) responses))

theorem wants_foldl_route {caches : CachePair} {responses : List RenderResponse}
    (h : Solicited drawn caches responses) {request : RenderRequest}
    (hdocument : request.document = drawn.document) (hrevision : request.revision = drawn.revision) :
    (responses.foldl (CachePair.route drawn) caches).canvas.wants request =
      caches.canvas.wants request := by
  induction responses generalizing caches with
  | nil => rfl
  | cons response responses ih =>
    rw [List.foldl_cons, ih h.2]
    unfold CachePair.route
    split
    · rfl
    · rename_i hrail
      have hpending : response.request ∈ caches.canvas.pending := by
        by_contra hcanvas
        exact hrail ⟨hcanvas, h.1.resolve_left hcanvas⟩
      exact wants_fileResponse hpending hdocument hrevision

/-- Submitting leaves wanted everything but what is submitted. -/
theorem wants_submitRequests {S : Type} [RenderService S] (requests : List RenderRequest)
    (cache : TextureCache) (service : S) (hwanted : ∀ request ∈ requests, cache.wants request = true)
    (hnodup : requests.Nodup) (request : RenderRequest) :
    (submitRequests requests cache service).1.wants request =
      (cache.wants request && decide (request ∉ requests)) := by
  induction requests generalizing cache service with
  | nil => simp [submitRequests]
  | cons first requests ih =>
    obtain ⟨hfresh, hrest⟩ := List.nodup_cons.1 hnodup
    have hmark : (cache.markPending first).2 =
        { cache with pending := Insert.insert first cache.pending } := by
      unfold TileCache.markPending
      rw [if_pos (hwanted first (by simp))]
    have hafter : ∀ other, other ≠ first →
        (cache.markPending first).2.wants other = cache.wants other := by
      intro other hne
      rw [hmark]
      exact wants_congr rfl (by simp [hne]) Iff.rfl
    unfold submitRequests
    rw [ih _ _ (fun later hlater => (hafter later fun heq => hfresh (heq ▸ hlater)).trans
      (hwanted later (List.mem_cons_of_mem _ hlater))) hrest]
    by_cases heq : request = first
    · have hgone : (cache.markPending first).2.wants request = false := by
        rw [hmark]
        refine Bool.eq_false_iff.2 fun hwants => ?_
        exact (TileCache.wants_eq_true.1 hwants).2.1 (heq ▸ Finset.mem_insert_self _ _)
      rw [hgone]
      simp [heq]
    · rw [hafter request heq]
      simp [heq]

theorem submitRequests_service {S : Type} [RenderService S] (requests : List RenderRequest)
    (cache : TextureCache) (service : S) :
    (submitRequests requests cache service).2 =
      requests.foldl (fun service request => RenderService.submit request service) service := by
  induction requests generalizing cache service with
  | nil => rfl
  | cons request requests ih => exact ih _ _

/-- Looking entries up, as drawing does, leaves wanted what was wanted. -/
theorem wants_foldl_get (looked : List RenderRequest) (cache : TextureCache) (request : RenderRequest) :
    (looked.foldl (fun cache found => (cache.get found).2) cache).wants request =
      cache.wants request := by
  induction looked generalizing cache with
  | nil => rfl
  | cons found looked ih => rw [List.foldl_cons, ih, TileCache.wants_get]

/-! ### The frames of a fixed view -/

/-- The frames of one view: between two exchanges the canvas is drawn, the rail and the service do
what they do, and every response delivered answers a request in flight. No exchange evicts. -/
structure FixedView {S : Type} [RenderService S] (pixelsPerPoint : ℚ) (maxTextureSide : Nat)
    (frames : Nat) (s : Nat → Surfaces S) : Prop where
  viewer : ∀ i, i + 1 < frames → (s (i + 1)).viewer = (s i).viewer
  drawn : ∀ i, i + 1 < frames → ∃ looked : List RenderRequest, (s (i + 1)).caches.canvas =
    looked.foldl (fun cache found => (cache.get found).2)
      ((s i).step (.exchange pixelsPerPoint maxTextureSide)).caches.canvas
  solicited : ∀ i, i + 1 < frames → Solicited (s (i + 1)).viewer.snapshot (s (i + 1)).begun
    (RenderService.poll (s (i + 1)).service).1
  kept : ∀ i, i + 1 < frames → ((s (i + 1)).filed.canvas.evictToBudget
    (s (i + 1)).caches.canvas.beginFrame.1).1 = 0

theorem FixedView.fewer {S : Type} [RenderService S] {pixelsPerPoint : ℚ} {maxTextureSide frames : Nat}
    {s : Nat → Surfaces S} (h : FixedView pixelsPerPoint maxTextureSide (frames + 1) s) :
    FixedView pixelsPerPoint maxTextureSide frames s :=
  ⟨fun i hi => h.viewer i (Nat.lt_succ_of_lt hi), fun i hi => h.drawn i (Nat.lt_succ_of_lt hi),
    fun i hi => h.solicited i (Nat.lt_succ_of_lt hi), fun i hi => h.kept i (Nat.lt_succ_of_lt hi)⟩

theorem filter_notMem_take {α : Type} [DecidableEq α] {xs : List α} (h : xs.Nodup) (n : Nat) :
    (xs.filter fun x => x ∉ xs.take n) = xs.drop n := by
  have hsplit : (xs.take n ++ xs.drop n).filter (fun x => x ∉ xs.take n) = xs.drop n := by
    rw [List.filter_append, List.filter_eq_nil_iff.2 (fun x hx => by simpa using hx), List.nil_append]
    refine List.filter_eq_self.2 fun x hx => decide_eq_true fun hmem => ?_
    exact List.disjoint_take_drop h (Nat.le_refl n) hmem hx
  rwa [List.take_append_drop] at hsplit

namespace Surfaces

variable {S : Type} [RenderService S] {pixelsPerPoint : ℚ} {maxTextureSide frames : Nat}

def wanted (pixelsPerPoint : ℚ) (maxTextureSide : Nat) (s : Surfaces S) : List RenderRequest :=
  wantedRequests s.viewer.snapshot s.viewer.visiblePages (s.viewer.currentPage.getD 0)
    (s.viewer.renderSettings pixelsPerPoint maxTextureSide) s.evicted.wants

theorem planned_eq (s : Surfaces S) : s.planned pixelsPerPoint maxTextureSide =
    (s.wanted pixelsPerPoint maxTextureSide).take maxSubmissionsPerFrame := by
  unfold planned wanted
  rw [planRenderRequests_eq]

theorem wanted_nodup {s : Surfaces S} (hids : (s.viewer.snapshot.pages.map PageInfo.id).Nodup) :
    (s.wanted pixelsPerPoint maxTextureSide).Nodup :=
  (requestsOf_nodup hids _ (orderByDistanceFromFocus_nodup _ _)).filter _

/-- The service is handed what the frame planned, in that order. -/
theorem step_exchange_service (s : Surfaces S) :
    (s.step (.exchange pixelsPerPoint maxTextureSide)).service =
      (s.planned pixelsPerPoint maxTextureSide).foldl
        (fun service request => RenderService.submit request service) (RenderService.poll s.service).2 := by
  rw [step_exchange]
  exact submitRequests_service _ _ _

/-- From one frame of a fixed view to the next, what was planned is wanted no more and everything
else of the snapshot's is wanted as before. -/
theorem wants_next {s : Nat → Surfaces S} (h : FixedView pixelsPerPoint maxTextureSide frames s)
    {i : Nat} (hi : i + 1 < frames) (hids : ((s i).viewer.snapshot.pages.map PageInfo.id).Nodup)
    {request : RenderRequest} (hdocument : request.document = (s i).viewer.snapshot.document)
    (hrevision : request.revision = (s i).viewer.snapshot.revision) :
    (s (i + 1)).evicted.wants request =
      ((s i).evicted.wants request &&
        decide (request ∉ (s i).planned pixelsPerPoint maxTextureSide)) := by
  have hviewer := h.viewer i hi
  obtain ⟨looked, hdrawn⟩ := h.drawn i hi
  have hkept : (s (i + 1)).evicted = (s (i + 1)).filed.canvas := evictToBudget_none (h.kept i hi)
  have hfiled : (s (i + 1)).filed.canvas.wants request = (s (i + 1)).begun.canvas.wants request :=
    wants_foldl_route (h.solicited i hi) (hviewer ▸ hdocument) (hviewer ▸ hrevision)
  have hbegun : (s (i + 1)).begun.canvas.wants request = (s (i + 1)).caches.canvas.wants request := rfl
  have hplanned : ∀ planned ∈ (s i).planned pixelsPerPoint maxTextureSide,
      (s i).evicted.wants planned = true := by
    intro planned hmem
    rw [planned_eq] at hmem
    exact (List.mem_filter.1 (List.mem_of_mem_take hmem)).2
  have hnodup : ((s i).planned pixelsPerPoint maxTextureSide).Nodup := by
    rw [planned_eq]
    exact (wanted_nodup hids).sublist (List.take_sublist _ _)
  rw [hkept, hfiled, hbegun, hdrawn, wants_foldl_get, step_exchange]
  exact wants_submitRequests _ _ _ hplanned hnodup request

/-- What the next frame wants is what this one wanted and did not plan. -/
theorem wanted_next {s : Nat → Surfaces S} (h : FixedView pixelsPerPoint maxTextureSide frames s)
    {i : Nat} (hi : i + 1 < frames) (hids : ((s i).viewer.snapshot.pages.map PageInfo.id).Nodup) :
    (s (i + 1)).wanted pixelsPerPoint maxTextureSide =
      ((s i).wanted pixelsPerPoint maxTextureSide).drop maxSubmissionsPerFrame := by
  have hviewer := h.viewer i hi
  rw [← filter_notMem_take (wanted_nodup hids), ← planned_eq]
  unfold wanted wantedRequests
  rw [hviewer, List.filter_filter]
  refine List.filter_congr fun request hrequest => ?_
  obtain ⟨index, -, hat⟩ := List.mem_filterMap.1 hrequest
  obtain ⟨page, -, -, hdocument, hrevision⟩ := requestAt_eq_some hat
  rw [wants_next h hi hids hdocument hrevision, Bool.and_comm]

theorem wanted_at {s : Nat → Surfaces S} (hids : ((s 0).viewer.snapshot.pages.map PageInfo.id).Nodup)
    (h : FixedView pixelsPerPoint maxTextureSide frames s) (i : Nat) (hi : i < frames) :
    (s i).viewer = (s 0).viewer ∧ (s i).wanted pixelsPerPoint maxTextureSide =
      ((s 0).wanted pixelsPerPoint maxTextureSide).drop (i * maxSubmissionsPerFrame) := by
  induction i with
  | zero => exact ⟨rfl, by simp⟩
  | succ i ih =>
    obtain ⟨hviewer, hwanted⟩ := ih (Nat.lt_of_succ_lt hi)
    refine ⟨(h.viewer i hi).trans hviewer, ?_⟩
    rw [wanted_next h hi (hviewer ▸ hids), hwanted, List.drop_drop, Nat.succ_mul]

/-- A fixed view submits what its first frame wanted, a budget at a time. -/
theorem submitted_eq {s : Nat → Surfaces S}
    (hids : ((s 0).viewer.snapshot.pages.map PageInfo.id).Nodup)
    (h : FixedView pixelsPerPoint maxTextureSide frames s) :
    ((List.range frames).flatMap fun i => (s i).planned pixelsPerPoint maxTextureSide) =
      ((s 0).wanted pixelsPerPoint maxTextureSide).take (frames * maxSubmissionsPerFrame) := by
  induction frames with
  | zero => simp
  | succ frames ih =>
    obtain ⟨-, hwanted⟩ := wanted_at hids h frames (Nat.lt_succ_self frames)
    rw [List.range_succ, List.flatMap_append, ih h.fewer, List.flatMap_singleton, planned_eq, hwanted,
      Nat.succ_mul, List.take_add]

end Surfaces

/-- A plan is the first wanted requests of the visible pages, by their distance from the focus, as
many as the budget admits, and counts the rest. So the frames of a fixed view hand the service what
the first of them wanted, in that order, a frame's budget at a time and each request once. -/
theorem planning_is_exact_and_makes_progress {snapshot : DocumentSnapshot}
    (hids : (snapshot.pages.map PageInfo.id).Nodup) :
    (∀ (visible : IndexRange) (focus : Nat) (settings : RenderSettings)
      (isWanted : RenderRequest → Bool) (budget : Nat),
      ∃ order : List Nat, order.Perm visible.indices ∧ order.Pairwise (Nearer focus) ∧
        let wanted := (requestsOf snapshot settings order).filter isWanted
        let plan := planRenderRequests snapshot visible focus settings isWanted budget
        plan.requests = wanted.take budget ∧ plan.skipped = wanted.length - budget ∧
          plan.requests.Nodup) ∧
    ∀ {S : Type} [RenderService S] (pixelsPerPoint : ℚ) (maxTextureSide frames : Nat)
      (s : Nat → Surfaces S), (s 0).viewer.snapshot = snapshot →
      FixedView pixelsPerPoint maxTextureSide frames s →
        ((List.range frames).flatMap fun i => (s i).planned pixelsPerPoint maxTextureSide) =
          ((s 0).wanted pixelsPerPoint maxTextureSide).take (frames * maxSubmissionsPerFrame) ∧
        ((s 0).wanted pixelsPerPoint maxTextureSide).Nodup ∧
        ∀ i < frames, ((s i).step (.exchange pixelsPerPoint maxTextureSide)).service =
          ((s i).planned pixelsPerPoint maxTextureSide).foldl
            (fun service request => RenderService.submit request service)
            (RenderService.poll (s i).service).2 := by
  constructor
  · intro visible focus settings isWanted budget
    refine ⟨orderByDistanceFromFocus visible focus, orderByDistanceFromFocus_perm visible focus,
      orderByDistanceFromFocus_nearer visible focus, ?_⟩
    dsimp only
    rw [planRenderRequests_eq]
    refine ⟨rfl, rfl, List.Nodup.sublist (List.take_sublist _ _) ?_⟩
    exact (requestsOf_nodup hids _ (orderByDistanceFromFocus_nodup _ _)).filter _
  · rintro S _ pixelsPerPoint maxTextureSide frames s rfl h
    exact ⟨Surfaces.submitted_eq hids h, Surfaces.wanted_nodup hids,
      fun i _ => Surfaces.step_exchange_service (s i)⟩

namespace TenPages

def snapshot : DocumentSnapshot :=
  ⟨1, (List.range 10).map fun id => ⟨id, ⟨.ofInt 1, .ofInt 1⟩, .none⟩, 1⟩

def opened : Surfaces FakeRenderService where
  viewer := { ViewerState.new snapshot with viewportSizePx := (100, 1000) }
  caches := ⟨.new 4096, .new 4096⟩
  service := ⟨snapshot, []⟩

def frame (i : Nat) : Surfaces FakeRenderService := (fun s => s.step (.exchange 1 4096))^[i] opened

theorem fixedView : FixedView 1 4096 2 frame where
  viewer i hi := by
    obtain rfl : i = 0 := by omega
    exact (congrArg Surfaces.viewer (Surfaces.step_exchange opened 1 4096)).trans rfl
  drawn i hi := by
    obtain rfl : i = 0 := by omega
    exact ⟨[], rfl⟩
  solicited i hi := by
    obtain rfl : i = 0 := by omega
    decide +kernel
  kept i hi := by
    obtain rfl : i = 0 := by omega
    decide +kernel

/-- Eight of the ten pages are asked for in the first frame and the other two in the second. -/
theorem planning_makes_progress_on_ten_pages :
    ((frame 0).wanted 1 4096).length = 10 ∧ ((frame 0).planned 1 4096).length = 8 ∧
    ((List.range 2).flatMap fun i => (frame i).planned 1 4096) =
      ((frame 0).wanted 1 4096).take (2 * maxSubmissionsPerFrame) := by
  refine ⟨by decide +kernel, by decide +kernel, ?_⟩
  exact ((@planning_is_exact_and_makes_progress snapshot (by decide +kernel)).2
    1 4096 2 frame rfl fixedView).1

end TenPages

end OpdfEditor
