import OpdfEditor.Surfaces

/-!
Two surfaces on one service that may answer equal requests together. Every request in
flight is owed a response, and none is stranded as long as two surfaces that both
asked are not answered together.
-/
namespace OpdfEditor

/-- A service as the contract describes it: pending requests in the order submitted, and
responses not yet collected. -/
structure SharedService where
  queued : List RenderRequest
  completed : List RenderResponse

instance : RenderService SharedService where
  submit request service := { service with queued := service.queued ++ [request] }
  poll service := (service.completed, { service with completed := [] })

namespace SharedService

def idle : SharedService := ⟨[], []⟩

@[simp] theorem submit_queued (request : RenderRequest) (service : SharedService) :
    (RenderService.submit request service).queued = service.queued ++ [request] := rfl
@[simp] theorem submit_completed (request : RenderRequest) (service : SharedService) :
    (RenderService.submit request service).completed = service.completed := rfl

/-- Take some of the pending copies of a request off the queue. -/
def removeCopies (request : RenderRequest) : Nat → List RenderRequest → List RenderRequest
  | 0, queued => queued
  | copies + 1, queued => removeCopies request copies (queued.erase request)

/-- Answer pending copies of one request together, with at least one response; what is no such
answer does nothing. -/
def answer (request : RenderRequest) (copies : Nat) (responses : List RenderResponse)
    (service : SharedService) : SharedService :=
  if responses ≠ [] ∧ (∀ response ∈ responses, response.request = request) ∧
      0 < copies ∧ copies ≤ service.queued.count request then
    ⟨removeCopies request copies service.queued, service.completed ++ responses⟩
  else service

theorem count_removeCopies (request : RenderRequest) (copies : Nat) (queued : List RenderRequest)
    (other : RenderRequest) :
    (removeCopies request copies queued).count other =
      if other = request then queued.count other - copies else queued.count other := by
  induction copies generalizing queued with
  | zero => simp [removeCopies]
  | succ copies ih =>
    rw [removeCopies, ih]
    by_cases h : other = request
    · subst h
      simp only [if_true, List.count_erase_self]
      omega
    · simp [h, List.count_erase_of_ne h]

/-- How many answers to a request are still to come. -/
def coming (service : SharedService) (request : RenderRequest) : Nat :=
  service.queued.count request + (service.completed.map RenderResponse.request).count request

end SharedService

namespace CachePair

/-- How many surfaces wait for a request. -/
def waiting (caches : CachePair) (request : RenderRequest) : Nat :=
  (if request ∈ caches.canvas.pending then 1 else 0) + if request ∈ caches.rail.pending then 1 else 0

theorem fileResponse_pending (drawn : DocumentSnapshot) (response : RenderResponse)
    (cache : TextureCache) :
    (fileResponse drawn response cache).pending = cache.pending.erase response.request := by
  unfold fileResponse
  dsimp only
  split
  · rfl
  · cases response <;> rfl

/-- A response settles one wait for its request, if there is one, and no other. -/
theorem waiting_route (drawn : DocumentSnapshot) (caches : CachePair) (response : RenderResponse)
    (request : RenderRequest) :
    (caches.route drawn response).waiting request =
      caches.waiting request - if response.request = request then 1 else 0 := by
  unfold route
  by_cases hcanvas : response.request ∈ caches.canvas.pending
  · by_cases heq : response.request = request
    · subst heq
      simp [waiting, hcanvas, fileResponse_pending]
    · simp [waiting, hcanvas, fileResponse_pending, heq, Ne.symm heq]
  · by_cases hrail : response.request ∈ caches.rail.pending
    · by_cases heq : response.request = request
      · subst heq
        simp [waiting, hcanvas, hrail, fileResponse_pending]
      · simp [waiting, hcanvas, hrail, fileResponse_pending, heq, Ne.symm heq]
    · by_cases heq : response.request = request
      · subst heq
        simp [waiting, hcanvas, hrail, fileResponse_pending]
      · simp [waiting, hcanvas, hrail, fileResponse_pending, heq]

theorem waiting_foldl_route (drawn : DocumentSnapshot) (responses : List RenderResponse)
    (caches : CachePair) (request : RenderRequest) :
    (responses.foldl (route drawn) caches).waiting request =
      caches.waiting request - (responses.map RenderResponse.request).count request := by
  induction responses generalizing caches with
  | nil => simp
  | cons response responses ih =>
    rw [List.foldl_cons, ih, waiting_route, List.map_cons, List.count_cons]
    by_cases h : response.request = request
    · simp [h]
      omega
    · simp [h]

end CachePair

namespace Surfaces

/-- Every wait is for a response that is still to come. -/
def Owed (s : Surfaces SharedService) : Prop :=
  ∀ request, s.caches.waiting request ≤ s.service.coming request

theorem waiting_submitRequests (requests : List RenderRequest) (canvas rail : TextureCache)
    (service : SharedService) (request : RenderRequest)
    (h : (CachePair.mk canvas rail).waiting request ≤ service.coming request) :
    (CachePair.mk (submitRequests requests canvas service).1 rail).waiting request ≤
      (submitRequests requests canvas service).2.coming request := by
  induction requests generalizing canvas service with
  | nil => exact h
  | cons submitted requests ih =>
    refine ih _ _ ?_
    have hcoming : (RenderService.submit submitted service).coming request =
        service.coming request + if submitted = request then 1 else 0 := by
      unfold SharedService.coming
      rw [SharedService.submit_queued, SharedService.submit_completed, List.count_append,
        List.count_singleton]
      by_cases heq : submitted = request
      · simp [heq]
        omega
      · simp [heq]
    rw [hcoming]
    rcases TileCache.markPending_cases submitted canvas with ⟨-, -, hpending⟩ | hsame
    · by_cases heq : request = submitted
      · subst heq
        simp only [CachePair.waiting, hpending, Finset.mem_insert_self, if_true] at h ⊢
        split at h <;> omega
      · have hne : submitted ≠ request := Ne.symm heq
        simp only [CachePair.waiting, hpending, Finset.mem_insert, heq, hne, false_or,
          if_false] at h ⊢
        omega
    · rw [hsame]
      exact h.trans (Nat.le_add_right _ _)

theorem waiting_showThumbnail (snapshot : DocumentSnapshot) (maxTextureSide : Nat)
    (canvas : TextureCache) (shown : TextureCache × SharedService) (slot : ThumbnailSlot)
    (request : RenderRequest)
    (h : (CachePair.mk canvas shown.1).waiting request ≤ shown.2.coming request) :
    (CachePair.mk canvas (showThumbnail snapshot maxTextureSide shown slot).1).waiting request ≤
      (showThumbnail snapshot maxTextureSide shown slot).2.coming request := by
  unfold showThumbnail
  split
  · exact h
  split
  · exact h
  rename_i asked _
  rcases TileCache.markPending_cases asked shown.1 with ⟨hasked, -, hpending⟩ | hsame
  · simp only [hasked, if_true, CachePair.waiting, TileCache.get_pending, hpending]
    unfold SharedService.coming
    rw [SharedService.submit_queued, SharedService.submit_completed, List.count_append,
      List.count_singleton]
    unfold CachePair.waiting SharedService.coming at h
    dsimp only at h
    by_cases heq : request = asked
    · subst heq
      simp only [Finset.mem_insert_self, if_true, beq_self_eq_true]
      omega
    · have hbeq : (asked == request) = false := by simpa using Ne.symm heq
      simp only [Finset.mem_insert, heq, false_or, hbeq, Bool.false_eq_true, if_false]
      omega
  · rw [hsame]
    exact h

theorem waiting_foldl_showThumbnail (snapshot : DocumentSnapshot) (maxTextureSide : Nat)
    (canvas : TextureCache) (slots : List ThumbnailSlot) (shown : TextureCache × SharedService)
    (request : RenderRequest)
    (h : (CachePair.mk canvas shown.1).waiting request ≤ shown.2.coming request) :
    (CachePair.mk canvas (slots.foldl (showThumbnail snapshot maxTextureSide) shown).1).waiting request ≤
      (slots.foldl (showThumbnail snapshot maxTextureSide) shown).2.coming request := by
  induction slots generalizing shown with
  | nil => exact h
  | cons slot slots ih =>
    exact ih _ (waiting_showThumbnail snapshot maxTextureSide canvas shown slot request h)

/-- Frames leave every wait owed. -/
theorem owed_step {s : Surfaces SharedService} (h : s.Owed) (event : SurfaceEvent) :
    (s.step event).Owed := by
  intro request
  cases event with
  | exchange pixelsPerPoint maxTextureSide =>
    rw [step_exchange]
    refine waiting_submitRequests _ _ _ _ request ?_
    have hfiled : s.filed.waiting request =
        s.begun.waiting request - (s.service.completed.map RenderResponse.request).count request :=
      CachePair.waiting_foldl_route _ _ _ _
    have hevicted : (CachePair.mk s.evicted s.filed.rail).waiting request = s.filed.waiting request := by
      simp only [CachePair.waiting, evicted, (TileCache.evictToBudget_keeps _ _).1]
    have hbegun : s.begun.waiting request = s.caches.waiting request := rfl
    have howed := h request
    unfold SharedService.coming at howed ⊢
    rw [hevicted, hfiled, hbegun]
    show _ ≤ s.service.queued.count request + 0
    omega
  | showRail maxTextureSide topPx heightPx =>
    have hrail := waiting_foldl_showThumbnail s.viewer.snapshot maxTextureSide s.caches.canvas
      ((findVisibleThumbnails (layOutThumbnails gutter 0 gutter s.viewer.snapshot.pages) topPx
        heightPx).slice (layOutThumbnails gutter 0 gutter s.viewer.snapshot.pages))
      (s.caches.rail.beginFrame.2, s.service) request (h request)
    simp only [step, showThumbnailRail, CachePair.waiting, (TileCache.evictToBudget_keeps _ _).1]
    exact hrail
  | showCanvas pixelsPerPoint maxTextureSide scrollOffsetPx viewportSizePx =>
    have hkeeps := showCanvas_keeps pixelsPerPoint maxTextureSide scrollOffsetPx viewportSizePx
      s.viewer s.caches.canvas
    simp only [step, CachePair.waiting, hkeeps.1]
    exact h request
  | look viewer => exact h request

end Surfaces

/-! ### Runs -/

/-- What happens to two surfaces on one service: a frame's work, an edit, an answer. -/
inductive SharedEvent where
  | surface (event : SurfaceEvent)
  | edit (snapshot : DocumentSnapshot)
  | answer (request : RenderRequest) (copies : Nat) (responses : List RenderResponse)

namespace Surfaces

def happen (s : Surfaces SharedService) : SharedEvent → Surfaces SharedService
  | .surface event => s.step event
  | .edit snapshot => s.replaceSnapshot snapshot
  | .answer request copies responses =>
    { s with service := s.service.answer request copies responses }

/-- Copies of a request answered by fewer responses are not waited for by both surfaces. -/
def SettlesApart (s : Surfaces SharedService) : SharedEvent → Prop
  | .answer request copies responses =>
    copies ≤ responses.length ∨
      ¬ (request ∈ s.caches.canvas.pending ∧ request ∈ s.caches.rail.pending)
  | _ => True

instance (s : Surfaces SharedService) (event : SharedEvent) : Decidable (s.SettlesApart event) :=
  match event with
  | .answer _ _ _ => inferInstanceAs (Decidable (_ ∨ _))
  | .surface _ => .isTrue trivial
  | .edit _ => .isTrue trivial

/-- Every step of a run settles apart. -/
def SettlesApartRun : Surfaces SharedService → List SharedEvent → Prop
  | _, [] => True
  | s, event :: events => s.SettlesApart event ∧ (s.happen event).SettlesApartRun events

instance decidableSettlesApartRun : ∀ (s : Surfaces SharedService) (events : List SharedEvent),
    Decidable (s.SettlesApartRun events)
  | _, [] => .isTrue trivial
  | s, event :: events =>
    have := decidableSettlesApartRun (s.happen event) events
    inferInstanceAs (Decidable (s.SettlesApart event ∧ (s.happen event).SettlesApartRun events))

theorem owed_replaceSnapshot {s : Surfaces SharedService} (h : s.Owed)
    (snapshot : DocumentSnapshot) : (s.replaceSnapshot snapshot).Owed := by
  intro request
  refine le_trans ?_ (h request)
  simp only [replaceSnapshot, CachePair.waiting, TileCache.retainRevision, Finset.mem_filter]
  by_cases hrevision : request.revision = snapshot.revision
  · simp [hrevision]
  · simp [hrevision]

theorem owed_answer {s : Surfaces SharedService} (h : s.Owed) {request : RenderRequest}
    {copies : Nat} {responses : List RenderResponse}
    (hapart : s.SettlesApart (.answer request copies responses)) :
    (s.happen (.answer request copies responses)).Owed := by
  intro other
  have howed := h other
  simp only [happen, SharedService.answer]
  split
  · rename_i hvalid
    obtain ⟨hsome, hnames, -, hcopies⟩ := hvalid
    unfold SharedService.coming at howed ⊢
    rw [SharedService.count_removeCopies, List.map_append, List.count_append]
    by_cases hother : other = request
    · subst hother
      have hcount : (responses.map RenderResponse.request).count other = responses.length := by
        have hall : ∀ named ∈ responses.map RenderResponse.request, other = named := by
          intro named hnamed
          obtain ⟨response, hresponse, rfl⟩ := List.mem_map.1 hnamed
          exact (hnames response hresponse).symm
        rw [List.count_eq_length.2 hall, List.length_map]
      have hpos : 0 < responses.length := List.length_pos_of_ne_nil hsome
      rw [hcount, if_pos rfl]
      rcases hapart with hmany | hnot
      · omega
      · have hone : s.caches.waiting other ≤ 1 := by
          unfold CachePair.waiting
          by_cases hcanvas : other ∈ s.caches.canvas.pending
          · have hrail : other ∉ s.caches.rail.pending := fun hrail => hnot ⟨hcanvas, hrail⟩
            simp [hcanvas, hrail]
          · simp only [hcanvas, if_false]
            split <;> omega
        omega
    · rw [if_neg hother]
      omega
  · exact howed

theorem owed_happen {s : Surfaces SharedService} (h : s.Owed) {event : SharedEvent}
    (hapart : s.SettlesApart event) : (s.happen event).Owed := by
  cases event with
  | surface event => exact owed_step h event
  | edit snapshot => exact owed_replaceSnapshot h snapshot
  | answer request copies responses => exact owed_answer h hapart

theorem owed_run {s : Surfaces SharedService} (h : s.Owed) {events : List SharedEvent}
    (hapart : s.SettlesApartRun events) : (events.foldl happen s).Owed := by
  induction events generalizing s with
  | nil => exact h
  | cons event events ih => exact ih (owed_happen h hapart.1) hapart.2

/-- The service has nothing queued and nothing undelivered. -/
def Quiet (s : Surfaces SharedService) : Prop := s.service.queued = [] ∧ s.service.completed = []

instance (s : Surfaces SharedService) : Decidable s.Quiet := inferInstanceAs (Decidable (_ ∧ _))

/-- Two surfaces share one service: in every run in which no request both wait for is answered
with fewer responses than copies, neither cache holds a request in flight once the service has
nothing left to answer or deliver. -/
theorem quiet_service_strands_nothing (snapshot : DocumentSnapshot) (canvasBudget railBudget : Nat)
    (events : List SharedEvent)
    (hapart : (start snapshot canvasBudget railBudget SharedService.idle).SettlesApartRun events)
    (hquiet : (events.foldl happen (start snapshot canvasBudget railBudget SharedService.idle)).Quiet) :
    let caches := (events.foldl happen (start snapshot canvasBudget railBudget SharedService.idle)).caches
    caches.canvas.pending = ∅ ∧ caches.rail.pending = ∅ := by
  intro caches
  have hstart : (start snapshot canvasBudget railBudget SharedService.idle).Owed :=
    fun request => Nat.le_of_eq rfl
  have hwaiting : ∀ request, caches.waiting request = 0 := by
    intro request
    have howed := owed_run hstart hapart request
    simpa [SharedService.coming, hquiet.1, hquiet.2] using howed
  constructor
  · refine Finset.eq_empty_of_forall_notMem fun request hmem => ?_
    simpa [CachePair.waiting, hmem] using hwaiting request
  · refine Finset.eq_empty_of_forall_notMem fun request hmem => ?_
    simpa [CachePair.waiting, hmem] using hwaiting request

end Surfaces

/-! ### A page the canvas and the rail ask for alike -/

namespace SquarePage

def size : PageSize :=
  ⟨.finite 132 (by simpa using Binary32.representable_natCast (n := 132) (by decide)),
    .finite 132 (by simpa using Binary32.representable_natCast (n := 132) (by decide))⟩

def opened : DocumentSnapshot := ⟨1, [⟨0, size, .none⟩], 0⟩

def request : RenderRequest := ⟨1, 0, 0, 1, .none, RenderRequest.one_positive⟩

def response : RenderResponse :=
  .ready request ⟨1, 1, [255, 255, 255, 255], Nat.one_pos, Nat.one_pos, rfl⟩

def events (responses : List RenderResponse) : List SharedEvent :=
  [.surface (.showCanvas 1 4096 0 (200, 200)), .surface (.exchange 1 4096),
    .surface (.showRail 4096 0 200), .answer request 2 responses, .surface (.exchange 1 4096)]

def start : Surfaces SharedService := .start opened 1000 1000 .idle

end SquarePage

namespace Surfaces

/-- One response to two equal requests goes to the canvas; the rail waits for ever. -/
theorem merged_answer_strands_the_rail :
    let s := (SquarePage.events [SquarePage.response]).foldl happen SquarePage.start
    s.Quiet ∧ SquarePage.request ∈ s.caches.rail.pending := by
  decide +kernel

/-- Two responses settle both surfaces. -/
theorem separate_answers_strand_nothing :
    let s := (SquarePage.events [SquarePage.response, SquarePage.response]).foldl happen
      SquarePage.start
    s.caches.canvas.pending = ∅ ∧ s.caches.rail.pending = ∅ :=
  quiet_service_strands_nothing SquarePage.opened 1000 1000 _ (by decide +kernel) (by decide +kernel)

end Surfaces
end OpdfEditor
