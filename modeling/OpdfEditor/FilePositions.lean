import OpdfEditor.RevisionHonesty

/-!
Which page of the file a tile was drawn from: always the one at the position its page had in the
snapshot the file was opened with, whatever snapshots the worker was rebound to and whether the
tile was drawn for this answer or an earlier one.
-/
namespace OpdfEditor

/-! ### Positions in the file -/

/-- The page stands at this position of a snapshot. -/
def StandsAt (snapshot : DocumentSnapshot) (position : Nat) (page : PageId) : Prop :=
  (snapshot.pages.map PageInfo.id)[position]? = some page

def IsListed (snapshot : DocumentSnapshot) (page : PageId) : Prop :=
  page ∈ snapshot.pages.map PageInfo.id

theorem isListed_iff {snapshot : DocumentSnapshot} {page : PageId} :
    IsListed snapshot page ↔ ∃ position, StandsAt snapshot position page := List.mem_iff_getElem?

/-- Identities that are distinct stand at one position each. -/
theorem StandsAt.unique {snapshot : DocumentSnapshot} (hids : (snapshot.pages.map PageInfo.id).Nodup)
    {position position' : Nat} {page : PageId} (h : StandsAt snapshot position page)
    (h' : StandsAt snapshot position' page) : position = position' := by
  obtain ⟨hlt, -⟩ := List.getElem?_eq_some_iff.1 h
  exact (List.getElem?_inj hlt hids).1 (h.trans h'.symm)

theorem lookup_zipIdx {pages : List PageInfo} {first position : Nat} {page : PageId}
    (h : ((pages.zipIdx first).map fun (info, index) => (info.id, index)).lookup page = some position) :
    ∃ offset, position = first + offset ∧ (pages.map PageInfo.id)[offset]? = some page := by
  induction pages generalizing first with
  | nil => cases h
  | cons info pages ih =>
    simp only [List.zipIdx_cons, List.map_cons, List.lookup_cons] at h
    split at h
    · rename_i heq
      cases h
      exact ⟨0, rfl, by simpa using (beq_iff_eq.1 heq).symm⟩
    · obtain ⟨offset, rfl, hoffset⟩ := ih h
      exact ⟨offset + 1, by omega, by simpa using hoffset⟩

/-- The map taken when the file was opened gives a page its position there. -/
theorem standsAt_of_lookup {snapshot : DocumentSnapshot} {position : Nat} {page : PageId}
    (h : (mapFileIndices snapshot).lookup page = some position) : StandsAt snapshot position page := by
  obtain ⟨offset, rfl, hoffset⟩ := lookup_zipIdx h
  rwa [Nat.zero_add]

theorem isListed_of_findPage {snapshot : DocumentSnapshot} {request : RenderRequest} {info : PageInfo}
    (h : findPage snapshot request = some info) : IsListed snapshot request.page := by
  have hid : info.id = request.page := by simpa using List.find?_some h
  exact List.mem_map.2 ⟨info, List.mem_of_find?_eq_some h, hid⟩

section Pdfium

variable [Pdfium] {opened : DocumentSnapshot}

/-! ### Fresh answers -/

/-- The tile is what Pdfium draws of the page at this position of the file. -/
def DrawnFrom (position : Nat) (tile : Tile) : Prop :=
  ∃ page fileRotation geometry, Pdfium.page position = .ok page ∧
    Pdfium.rotation page = .ok fileRotation ∧ rasterizePage page geometry fileRotation = .ok tile

/-- The tile was drawn from the position the request's page had in the snapshot opened. -/
def FromOwnPosition (opened : DocumentSnapshot) (request : RenderRequest) (tile : Tile) : Prop :=
  ∃ position, StandsAt opened position request.page ∧ DrawnFrom position tile

/-- What is rasterized stands in both snapshots, and is drawn from where it stood in the first. -/
theorem answerRequest_position {fault : Option String} {snapshot : DocumentSnapshot}
    {request request' : RenderRequest} {tile : Tile}
    (h : answerRequest fault snapshot (mapFileIndices opened) request = .ready request' tile) :
    IsListed snapshot request.page ∧ FromOwnPosition opened request tile := by
  unfold answerRequest at h
  split at h
  · cases h
  rename_i info hinfo
  split at h
  · cases h
  rename_i geometry _
  split at h
  · cases h
  rename_i position hposition
  split at h
  · cases h
  split at h
  · cases h
  rename_i page hpage
  split at h
  · cases h
  rename_i fileRotation hrotation
  split at h
  · cases h
  split at h
  · rename_i drawn hdraw
    cases h
    exact ⟨isListed_of_findPage hinfo, position, standsAt_of_lookup hposition, page, fileRotation,
      geometry, hpage, hrotation, hdraw⟩
  · cases h

/-- A page missing from either snapshot is refused. -/
theorem answerRequest_missing (fault : Option String) {snapshot : DocumentSnapshot}
    {request : RenderRequest}
    (h : ¬ IsListed opened request.page ∨ ¬ IsListed snapshot request.page) :
    ∃ reason, answerRequest fault snapshot (mapFileIndices opened) request = .failed request reason := by
  cases hanswer : answerRequest fault snapshot (mapFileIndices opened) request with
  | ready request' tile =>
    obtain ⟨hlisted, position, hposition, -⟩ := answerRequest_position hanswer
    rcases h with hopened | hsnapshot
    · exact absurd (isListed_iff.2 ⟨position, hposition⟩) hopened
    · exact absurd hlisted hsnapshot
  | failed request' reason =>
    obtain rfl := answerRequest_failed hanswer
    exact ⟨reason, rfl⟩

/-! ### The worker -/

namespace Worker

/-- The positions are those of the snapshot opened, and every cached tile was drawn from its own. -/
structure Placed (opened : DocumentSnapshot) (w : Worker) : Prop where
  indices : w.fileIndices = mapFileIndices opened
  cached : w.Caches (FromOwnPosition opened)

theorem placed_start (opened : DocumentSnapshot) : (start opened).Placed opened := by
  refine ⟨rfl, ?_⟩
  intro entry hentry
  cases hentry

theorem Placed.serveRequest {w : Worker} (h : w.Placed opened) (fault : Option String)
    (request : RenderRequest) :
    (w.serveRequest fault request).2.Placed opened ∧
    ∀ request' tile, (w.serveRequest fault request).1 = .ready request' tile →
      FromOwnPosition opened request' tile := by
  obtain ⟨hcached, -, hindices, hready⟩ := h.cached.serveRequest fault request
    (by rw [h.indices]; exact fun _ hanswer => (answerRequest_position hanswer).2)
  exact ⟨⟨hindices.trans h.indices, hcached⟩, hready⟩

/-- A message leaves the positions alone and caches nothing. -/
theorem Placed.acceptMessage {w : Worker} (h : w.Placed opened) (message : WorkerMessage) :
    (w.acceptMessage message).2.Placed opened := by
  cases message with
  | render request => exact ⟨h.indices, h.cached⟩
  | rebind replacement =>
    exact ⟨h.indices, fun entry hentry => h.cached entry (WorkerCache.mem_retainRevision.1 hentry).1⟩
  | shutdown => exact ⟨h.indices, h.cached⟩

end Worker

/-! ### Runs -/

/-- An answer the worker gave to a request off its backlog, under the snapshot it held then. -/
structure Serving where
  snapshot : DocumentSnapshot
  request : RenderRequest
  /-- Nothing was cached for the request. -/
  fresh : Bool
  response : RenderResponse

namespace RenderSystem

def serves (event : RenderEvent) (s : RenderSystem) : Option Serving :=
  match event with
  | .work fault => s.nextServed.map fun (request, backlog) =>
    { snapshot := s.worker.snapshot
      request
      fresh := !s.worker.cache.contains request
      response := ({ s.worker with backlog }.serveRequest fault request).1 }
  | _ => none

def servings : RenderSystem → List RenderEvent → List Serving
  | _, [] => []
  | s, event :: events => (s.serves event).toList ++ (s.step event).servings events

variable {s : RenderSystem}

/-- What the worker serves in a step is what it sends. -/
theorem serves_emitted {event : RenderEvent} {serving : Serving}
    (hserves : s.serves event = some serving) :
    ⟨serving.snapshot, serving.response⟩ ∈ s.emissions event := by
  cases event with
  | work fault =>
    obtain ⟨⟨request, backlog⟩, hnext, rfl⟩ := Option.map_eq_some_iff.1 hserves
    have hwork : s.work fault = s.serve fault request backlog := by
      unfold nextServed at hnext
      split at hnext
      · rename_i hphase
        split at hnext
        · cases hnext
        · rename_i hdown
          simp [work, hphase, hdown, hnext]
      · cases hnext
    simp only [emissions, hwork, serve, List.drop_left, List.map_cons, List.map_nil]
    exact List.mem_singleton.2 rfl
  | _ => cases hserves

theorem servings_emitted {serving : Serving} {events : List RenderEvent}
    (hserving : serving ∈ s.servings events) :
    ⟨serving.snapshot, serving.response⟩ ∈ s.trace events := by
  induction events generalizing s with
  | nil => cases hserving
  | cons event events ih =>
    rcases List.mem_append.1 hserving with hserving | hserving
    · exact List.mem_append_left _ (serves_emitted (Option.mem_toList.1 hserving))
    · exact List.mem_append_right _ (ih hserving)

/-- An answer that was not cached refuses a page missing from either snapshot. -/
theorem fresh_missing (h : s.worker.Placed opened) {event : RenderEvent} {serving : Serving}
    (hserves : s.serves event = some serving) (hfresh : serving.fresh = true)
    (hmissing : ¬ IsListed opened serving.request.page ∨
      ¬ IsListed serving.snapshot serving.request.page) :
    ∃ reason, serving.response = .failed serving.request reason := by
  cases event with
  | work fault =>
    obtain ⟨⟨request, backlog⟩, -, rfl⟩ := Option.map_eq_some_iff.1 hserves
    have hnone : s.worker.cache.get request = none := by
      simpa [WorkerCache.contains, WorkerCache.get] using hfresh
    obtain ⟨reason, hfailed⟩ := answerRequest_missing fault hmissing
    refine ⟨reason, ?_⟩
    simp only [Worker.serveRequest, hnone, h.indices, hfailed]
  | _ => cases hserves

/-- A step keeps the tiles in their places and sends only tiles in theirs. -/
theorem placed_step (h : s.worker.Placed opened) (event : RenderEvent) :
    (s.step event).worker.Placed opened ∧
    (∀ emission ∈ s.emissions event, ∀ request tile, emission.response = .ready request tile →
      FromOwnPosition opened request tile) :=
  step_preserves (fun _ _ _ hw => ⟨hw.indices, hw.cached⟩) h
    (fun _ message _ _ => h.acceptMessage message)
    fun _ fault request hw _ => hw.serveRequest fault request

theorem placed_run (h : s.worker.Placed opened) (events : List RenderEvent) :
    (∀ emission ∈ s.trace events, ∀ request tile, emission.response = .ready request tile →
      FromOwnPosition opened request tile) ∧
    ∀ serving ∈ s.servings events, serving.fresh = true →
      (¬ IsListed opened serving.request.page ∨ ¬ IsListed serving.snapshot serving.request.page) →
        ∃ reason, serving.response = .failed serving.request reason := by
  induction events generalizing s with
  | nil => simp [trace, servings]
  | cons event events ih =>
    obtain ⟨hstep, hemitted⟩ := placed_step h event
    obtain ⟨htrace, hservings⟩ := ih hstep
    constructor
    · intro emission hemission
      rcases List.mem_append.1 hemission with hemission | hemission
      · exact hemitted emission hemission
      · exact htrace emission hemission
    · intro serving hserving hfresh hmissing
      rcases List.mem_append.1 hserving with hserving | hserving
      · exact fresh_missing h (Option.mem_toList.1 hserving) hfresh hmissing
      · exact hservings serving hserving hfresh hmissing

/-- In every run of a service opened on pages with distinct identities, every ready response was
rasterized from the one position its page had in the snapshot opened. What is not answered from the
cache is refused unless its page stands in the snapshot opened and in the one current, and a page
that never stood in the file is refused always. -/
theorem pages_keep_their_file_position (opened : DocumentSnapshot)
    (hids : (opened.pages.map PageInfo.id).Nodup) (events : List RenderEvent) :
    (∀ emission ∈ (start opened).trace events,
      (∀ request tile, emission.response = .ready request tile →
        ∃! position, StandsAt opened position request.page ∧ DrawnFrom position tile) ∧
      (¬ IsListed opened emission.response.request.page →
        ∃ request reason, emission.response = .failed request reason)) ∧
    ∀ serving ∈ (start opened).servings events,
      ⟨serving.snapshot, serving.response⟩ ∈ (start opened).trace events ∧
      (serving.fresh = true →
        ¬ IsListed opened serving.request.page ∨
          ¬ IsListed serving.snapshot serving.request.page →
        ∃ reason, serving.response = .failed serving.request reason) := by
  obtain ⟨htrace, hservings⟩ := placed_run (s := start opened) (Worker.placed_start opened) events
  refine ⟨fun emission hemission => ⟨fun request tile hready => ?_, fun hmissing => ?_⟩,
    fun serving hserving => ⟨servings_emitted hserving, hservings serving hserving⟩⟩
  · obtain ⟨position, hposition, hdrawn⟩ := htrace emission hemission request tile hready
    exact ⟨position, ⟨hposition, hdrawn⟩, fun other hother => hother.1.unique hids hposition⟩
  · cases hresponse : emission.response with
    | ready request tile =>
      obtain ⟨position, hposition, -⟩ := htrace emission hemission request tile hresponse
      rw [hresponse] at hmissing
      exact absurd (isListed_iff.2 ⟨position, hposition⟩) hmissing
    | failed request reason => exact ⟨request, reason, rfl⟩

end RenderSystem
end Pdfium

/-! ### Pages that change places -/

namespace SwappedPages

/-- A file of two pages, each painted with its own position. -/
scoped instance : Pdfium where
  Page := Nat
  indexLimit := 65536
  page position := if position < 2 then .ok position else .error "out of range"
  rotation _ := .ok .none
  render page width height _ := .ok (List.replicate (width * height * 4) (UInt8.ofNat page))

theorem one_representable : Binary32.Representable 1 := by
  rw [← Nat.cast_one]
  exact Binary32.representable_natCast (Nat.one_lt_two_pow (by decide))

def size : PageSize := ⟨.finite 1 one_representable, .finite 1 one_representable⟩

def page (id : PageId) : PageInfo := ⟨id, size, .none⟩

def opened : DocumentSnapshot := ⟨1, [page 0, page 1], 0⟩

def swapped : DocumentSnapshot := ⟨1, [page 1, page 7, page 0], 1⟩

def request (id : PageId) : RenderRequest := ⟨1, id, 1, 1, .none, RenderRequest.one_positive⟩

def events : List RenderEvent :=
  .rebind swapped :: .submit (request 7) :: .submit (request 0) :: .submit (request 1) ::
    List.replicate 20 (.work none)

def painted (byte : UInt8) : Tile := ⟨1, 1, [byte, byte, byte, byte], Nat.one_pos, Nat.one_pos, rfl⟩

end SwappedPages

namespace RenderSystem

open scoped SwappedPages
open SwappedPages (opened swapped request events painted)

/-- Every page is drawn from its own place in the file, and the new one is not drawn. -/
theorem swapped_pages_keep_their_file_position :
    ((start opened).trace events).map (·.response) =
      [.ready (request 1) (painted 1), .ready (request 0) (painted 0),
        .failed (request 7) "page page#7 is not in the file this service opened — it was created after the document was opened, and an unsaved page has nothing to rasterize"] ∧
    ∀ emission ∈ (start opened).trace events,
      (∀ request tile, emission.response = .ready request tile →
        ∃! position, StandsAt opened position request.page ∧ DrawnFrom position tile) ∧
      (¬ IsListed opened emission.response.request.page →
        ∃ request reason, emission.response = .failed request reason) :=
  ⟨by decide +kernel, (pages_keep_their_file_position opened (by decide) events).1⟩

end RenderSystem
end OpdfEditor
