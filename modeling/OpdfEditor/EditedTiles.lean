import OpdfEditor.RevisionHonesty
import OpdfEditor.ShellHistory

/-!
What the canvas shows after an edit. The service renders from the snapshot taken when
the file was opened and is never told of another, so the canvas shows the document as
edited exactly as long as nothing is asked for while its page is turned.
-/
namespace OpdfEditor

section Pdfium

variable [Pdfium]

/-! ### A service that is never rebound -/

namespace Backlog

omit [Pdfium] in
/-- Queueing a request adds that request alone, and evicts one that was queued or is it. -/
theorem mem_push {request other : RenderRequest} {b : Backlog}
    (h : other ∈ (b.push request).2.queued ∨ (b.push request).1 = some other) :
    other ∈ b.queued ∨ other = request := by
  unfold push at h
  split at h
  · rcases h with hold | hnone
    · exact .inl hold
    · cases hnone
  split at h
  · have hmem : other ∈ b.queued ++ [request] := by
      rcases h with htail | hhead
      · exact List.mem_of_mem_tail htail
      · exact List.mem_of_mem_head? hhead
    simpa using hmem
  · have hmem : other ∈ b.queued ++ [request] := by
      rcases h with hold | hnone
      · exact hold
      · cases hnone
    simpa using hmem

omit [Pdfium] in
theorem mem_takeNewest {request : RenderRequest} {b b' : Backlog}
    (h : b.takeNewest = some (request, b')) :
    request ∈ b.queued ∧ ∀ other ∈ b'.queued, other ∈ b.queued := by
  unfold takeNewest at h
  obtain ⟨newest, hnewest, heq⟩ := Option.map_eq_some_iff.1 h
  cases heq
  exact ⟨List.mem_of_getLast? hnewest, fun other hother => List.mem_of_mem_dropLast hother⟩

end Backlog

namespace RenderSystem

/-- Nothing but requests of one kind is in flight, and all that was rendered shows one snapshot. -/
structure Frozen (opened : DocumentSnapshot) (P : RenderRequest → Prop) (s : RenderSystem) : Prop where
  messages : ∀ message ∈ s.requests, ∃ request, message = .render request ∧ P request
  queued : ∀ request ∈ s.worker.backlog.queued, P request
  snapshot : s.worker.snapshot = opened
  honest : s.worker.Honest
  answered : ∀ response ∈ s.outbox ++ s.responses, P response.request
  ready : ∀ response ∈ s.outbox ++ s.responses, ∀ request tile,
    response = .ready request tile → Shows opened request tile

variable {opened : DocumentSnapshot} {P : RenderRequest → Prop} {s : RenderSystem}

theorem frozen_start (opened : DocumentSnapshot) (P : RenderRequest → Prop) :
    Frozen opened P (start opened) where
  messages _ h := by cases h
  queued _ h := by cases h
  snapshot := rfl
  honest := Worker.honest_start opened
  answered _ h := by cases h
  ready _ h := by cases h

theorem frozen_startFailing (opened : DocumentSnapshot) (reason : String)
    (P : RenderRequest → Prop) : Frozen opened P (startFailing opened reason) where
  messages _ h := by cases h
  queued _ h := by cases h
  snapshot := rfl
  honest := Worker.honest_start opened
  answered _ h := by cases h
  ready _ h := by cases h

theorem Frozen.mono {Q : RenderRequest → Prop} (h : Frozen opened P s)
    (hweaker : ∀ request, P request → Q request) : Frozen opened Q s where
  messages message hmessage := by
    obtain ⟨request, hrequest, hP⟩ := h.messages message hmessage
    exact ⟨request, hrequest, hweaker request hP⟩
  queued request hrequest := hweaker request (h.queued request hrequest)
  snapshot := h.snapshot
  honest := h.honest
  answered response hresponse := hweaker _ (h.answered response hresponse)
  ready := h.ready

/-- A request of the kind may be submitted. -/
theorem Frozen.submit (h : Frozen opened P s) {request : RenderRequest} (hrequest : P request) :
    Frozen opened P (s.submit request) := by
  unfold RenderSystem.submit
  split
  · refine ⟨h.messages, h.queued, h.snapshot, h.honest, ?_, ?_⟩
    · intro response hresponse
      simp only [List.mem_append, List.mem_singleton] at hresponse
      rcases hresponse with (hold | rfl) | hold
      · exact h.answered response (List.mem_append_left _ hold)
      · exact hrequest
      · exact h.answered response (List.mem_append_right _ hold)
    · intro response hresponse request' tile heq
      simp only [List.mem_append, List.mem_singleton] at hresponse
      rcases hresponse with (hold | rfl) | hold
      · exact h.ready response (List.mem_append_left _ hold) request' tile heq
      · cases heq
      · exact h.ready response (List.mem_append_right _ hold) request' tile heq
  · refine ⟨?_, h.queued, h.snapshot, h.honest, h.answered, h.ready⟩
    intro message hmessage
    rcases List.mem_append.1 hmessage with hold | hnew
    · exact h.messages message hold
    · exact ⟨request, List.mem_singleton.1 hnew, hrequest⟩

theorem Frozen.poll (h : Frozen opened P s) : Frozen opened P s.poll.2 :=
  ⟨h.messages, h.queued, h.snapshot, h.honest, nofun, nofun⟩

/-- A response more, to a request of the kind, that shows the snapshot if it is ready. -/
theorem Frozen.respond (h : Frozen opened P s) (response : RenderResponse)
    (hanswered : P response.request)
    (hready : ∀ request tile, response = .ready request tile → Shows opened request tile) :
    Frozen opened P { s with responses := s.responses ++ [response] } := by
  refine ⟨h.messages, h.queued, h.snapshot, h.honest, ?_, ?_⟩
  · intro other hother
    rw [← List.append_assoc] at hother
    rcases List.mem_append.1 hother with hold | hnew
    · exact h.answered other hold
    · obtain rfl := List.mem_singleton.1 hnew
      exact hanswered
  · intro other hother request tile heq
    rw [← List.append_assoc] at hother
    rcases List.mem_append.1 hother with hold | hnew
    · exact h.ready other hold request tile heq
    · obtain rfl := List.mem_singleton.1 hnew
      exact hready request tile heq

theorem Frozen.accept (h : Frozen opened P s) {message : WorkerMessage}
    {requests : List WorkerMessage} (hrequests : s.requests = message :: requests) :
    Frozen opened P (s.accept message requests) := by
  obtain ⟨request, rfl, hrequest⟩ := h.messages message (by simp [hrequests])
  have hkind : ∀ other, other ∈ (s.worker.backlog.push request).2.queued ∨
      (s.worker.backlog.push request).1 = some other → P other := by
    intro other hother
    rcases Backlog.mem_push hother with hold | rfl
    · exact h.queued other hold
    · exact hrequest
  have haccepted : Frozen opened P
      { s with
        requests
        worker := { s.worker with
          backlog := (s.worker.backlog.push request).2
          phase := .draining } } :=
    ⟨fun later hlater => h.messages later (by simp [hrequests, hlater]),
      fun other hother => hkind other (.inl hother), h.snapshot, h.honest, h.answered, h.ready⟩
  cases hevicted : (s.worker.backlog.push request).1 with
  | none =>
    have hsame : s.accept (.render request) requests =
        { s with
          requests
          worker := { s.worker with
            backlog := (s.worker.backlog.push request).2
            phase := .draining } } := by
      simp [RenderSystem.accept, Worker.acceptMessage, hevicted]
    exact hsame ▸ haccepted
  | some evicted =>
    have hsame : s.accept (.render request) requests =
        { s with
          requests
          worker := { s.worker with
            backlog := (s.worker.backlog.push request).2
            phase := .draining }
          responses := s.responses ++ [.failed evicted Worker.supersededReason] } := by
      simp [RenderSystem.accept, Worker.acceptMessage, hevicted]
    exact hsame ▸ haccepted.respond (.failed evicted Worker.supersededReason)
      (hkind evicted (.inr hevicted)) fun _ _ heq => by cases heq

theorem Frozen.work (h : Frozen opened P s) (fault : Option String) :
    Frozen opened P (s.work fault) := by
  rcases work_cases fault s with ⟨phase, -, hwork⟩ | ⟨message, requests, -, hrequests, hwork⟩ |
    ⟨request, backlog, -, hnewest, hwork⟩ | ⟨reason, message, requests, -, hrequests, hwork⟩
  · rw [hwork]
    exact ⟨h.messages, h.queued, h.snapshot, h.honest, h.answered, h.ready⟩
  · rw [hwork]
    exact h.accept hrequests
  · rw [hwork]
    obtain ⟨hrequest, hrest⟩ := Backlog.mem_takeNewest hnewest
    have hhonest : ({ s.worker with backlog } : Worker).Honest := h.honest
    obtain ⟨hcache, hsnapshot, hready⟩ := Worker.honest_serveRequest hhonest fault request
    have hserved : Frozen opened P
        { s with
          worker := { ({ s.worker with backlog }.serveRequest fault request).2 with
            phase := .receiving } } := by
      refine ⟨h.messages, ?_, hsnapshot.trans h.snapshot, hcache, h.answered, h.ready⟩
      intro other hother
      have hother' : other ∈ ({ s.worker with backlog }.serveRequest fault request).2.backlog.queued :=
        hother
      rw [serveRequest_backlog] at hother'
      exact h.queued other (hrest other hother')
    refine hserved.respond _ ?_ ?_
    · rw [request_serveRequest]
      exact h.queued request hrequest
    · intro request' tile heq
      have hshows := hready request' tile heq
      rwa [show ({ s.worker with backlog } : Worker).snapshot = opened from h.snapshot] at hshows
  · rw [hwork]
    obtain ⟨request, rfl, hrequest⟩ := h.messages message (by simp [hrequests])
    have hrest : Frozen opened P { s with requests } :=
      ⟨fun later hlater => h.messages later (by simp [hrequests, hlater]), h.queued, h.snapshot,
        h.honest, h.answered, h.ready⟩
    exact hrest.respond (.failed request reason) hrequest fun _ _ heq => by cases heq

end RenderSystem

namespace ShellService

/-- The service is a worker over a real file, and frozen. -/
def Frozen (opened : DocumentSnapshot) (P : RenderRequest → Prop) : ShellService → Prop
  | pdfium system => system.Frozen opened P
  | fake _ => False

variable {opened : DocumentSnapshot} {P : RenderRequest → Prop} {service : ShellService}

theorem Frozen.mono {Q : RenderRequest → Prop} (h : service.Frozen opened P)
    (hweaker : ∀ request, P request → Q request) : service.Frozen opened Q := by
  cases service with
  | pdfium system => exact RenderSystem.Frozen.mono h hweaker
  | fake service => exact h

theorem Frozen.submit (h : service.Frozen opened P) {request : RenderRequest} (hrequest : P request) :
    (RenderService.submit request service).Frozen opened P := by
  cases service with
  | pdfium system => exact RenderSystem.Frozen.submit h hrequest
  | fake service => exact h

/-- What is polled was asked for and shows the snapshot the service was opened with. -/
theorem Frozen.poll (h : service.Frozen opened P) :
    (RenderService.poll service).2.Frozen opened P ∧
    ∀ request tile, RenderResponse.ready request tile ∈ (RenderService.poll service).1 →
      P request ∧ Shows opened request tile := by
  cases service with
  | pdfium system =>
    refine ⟨RenderSystem.Frozen.poll h, ?_⟩
    intro request tile hresponse
    exact ⟨RenderSystem.Frozen.answered h _ hresponse,
      RenderSystem.Frozen.ready h _ hresponse request tile rfl⟩
  | fake service => exact h.elim

theorem Frozen.work (h : service.Frozen opened P) (fault : Option String) :
    (service.work fault).Frozen opened P := by
  cases service with
  | pdfium system => exact RenderSystem.Frozen.work h fault
  | fake service => exact h

end ShellService

/-! ### The surfaces over it -/

omit [Pdfium] in
/-- A tile held after a response was held before, or came with it. -/
theorem holds_fileResponse {drawn : DocumentSnapshot} {response : RenderResponse}
    {cache : TextureCache} {request : RenderRequest} {tile : Tile}
    (h : (fileResponse drawn response cache).Holds request tile) :
    cache.Holds request tile ∨
      response = .ready request tile ∧ request.revision = drawn.revision := by
  unfold fileResponse at h
  dsimp only at h
  split at h
  · exact .inl h
  rename_i hdrawn
  cases response with
  | failed refused reason => exact .inl h
  | ready served served_tile =>
    rcases TileCache.holds_insert h with hold | ⟨rfl, rfl⟩
    · exact .inl hold
    · simp only [RenderResponse.request, not_or, not_not] at hdrawn
      exact .inr ⟨rfl, hdrawn.2⟩

omit [Pdfium] in
/-- The canvas holds what it held and what arrived for the revision drawn. -/
theorem CachePair.holds_foldl_route {drawn : DocumentSnapshot} {responses : List RenderResponse}
    {caches : CachePair} {request : RenderRequest} {tile : Tile}
    (h : (responses.foldl (route drawn) caches).canvas.Holds request tile) :
    caches.canvas.Holds request tile ∨
      RenderResponse.ready request tile ∈ responses ∧ request.revision = drawn.revision := by
  induction responses generalizing caches with
  | nil => exact .inl h
  | cons response responses ih =>
    rcases ih h with hrouted | ⟨hlater, hrevision⟩
    · unfold route at hrouted
      split at hrouted
      · exact .inl hrouted
      · rcases holds_fileResponse hrouted with hold | ⟨rfl, hrevision⟩
        · exact .inl hold
        · exact .inr ⟨by simp, hrevision⟩
    · exact .inr ⟨List.mem_cons_of_mem _ hlater, hrevision⟩

/-- A request for the revision drawn resolves in the snapshot drawn as it did when the file was
opened; any other is for a revision that has passed. -/
def Asked (opened drawn : DocumentSnapshot) (request : RenderRequest) : Prop :=
  request.revision.toNat ≤ drawn.revision.toNat ∧
  (request.revision = drawn.revision →
    resolveGeometry drawn request = resolveGeometry opened request)

namespace Surfaces

/-- The canvas shows the snapshot drawn, and all that is on its way to it will. -/
structure Drawn (opened : DocumentSnapshot) (s : Surfaces ShellService) : Prop where
  service : s.service.Frozen opened (Asked opened s.viewer.snapshot)
  canvas : ∀ request tile, s.caches.canvas.Holds request tile →
    request.revision = s.viewer.snapshot.revision ∧ Shows s.viewer.snapshot request tile

omit [Pdfium] in
/-- Whatever a frame asks for, it asks for at the revision drawn. -/
theorem submits_revision {s : Surfaces ShellService} {event : SurfaceEvent} {request : RenderRequest}
    (h : request ∈ s.submits event) : request.revision = s.viewer.snapshot.revision := by
  cases event with
  | exchange pixelsPerPoint maxTextureSide =>
    exact (planRenderRequests_requests request h).1.2.1
  | showRail maxTextureSide topPx heightPx =>
    obtain ⟨slot, -, hslot⟩ := List.mem_filterMap.1 h
    obtain ⟨page, hpage, hrequest⟩ := Option.bind_eq_some_iff.1 (Option.filter_eq_some_iff.1 hslot).1
    exact (requestsPage_of_requestThumbnail (List.mem_of_getElem? hpage) hrequest).2.1
  | showCanvas => cases h
  | look => cases h

variable {opened : DocumentSnapshot} {s : Surfaces ShellService}

/-- A frame that asks only for pages that resolve as they did when the file was opened. -/
theorem Drawn.step (h : s.Drawn opened) (event : SurfaceEvent)
    (hasked : ∀ request ∈ s.submits event,
      resolveGeometry s.viewer.snapshot request = resolveGeometry opened request) :
    (s.step event).Drawn opened := by
  have hsubmits : ∀ request ∈ s.submits event, Asked opened s.viewer.snapshot request := by
    intro request hrequest
    have hrevision := submits_revision hrequest
    exact ⟨Nat.le_of_eq (congrArg UInt64.toNat hrevision), fun _ => hasked request hrequest⟩
  have hsubmit : ∀ request service, Asked opened s.viewer.snapshot request →
      ShellService.Frozen opened (Asked opened s.viewer.snapshot) service →
      ShellService.Frozen opened (Asked opened s.viewer.snapshot)
        (RenderService.submit request service) :=
    fun request service hrequest hservice => hservice.submit hrequest
  cases event with
  | exchange pixelsPerPoint maxTextureSide =>
    rw [step_exchange]
    obtain ⟨hpolled, hready⟩ := h.service.poll
    obtain ⟨hentries, -, hservice⟩ := submitRequests_keeps hsubmit
      (s.planned pixelsPerPoint maxTextureSide) hsubmits s.evicted hpolled
    refine ⟨hservice, ?_⟩
    intro request tile hholds
    have hevicted : s.evicted.Holds request tile := by
      obtain ⟨entry, hentry, hvalue⟩ := hholds
      exact ⟨entry, hentries ▸ hentry, hvalue⟩
    have hfiled : s.filed.canvas.Holds request tile := TileCache.holds_evictToBudget hevicted
    rcases CachePair.holds_foldl_route hfiled with hold | ⟨hresponse, hrevision⟩
    · exact h.canvas request tile hold
    · obtain ⟨hrequest, geometry, hresolve, hdrawn⟩ := hready request tile hresponse
      exact ⟨hrevision, geometry, (hrequest.2 hrevision).trans hresolve, hdrawn⟩
  | showRail maxTextureSide topPx heightPx =>
    obtain ⟨-, hservice⟩ := showThumbnails_keep hsubmit s.viewer.snapshot maxTextureSide
      (s.visibleThumbnails topPx heightPx) (s.caches.rail.beginFrame.2, s.service) hsubmits h.service
    exact ⟨hservice, h.canvas⟩
  | showCanvas pixelsPerPoint maxTextureSide scrollOffsetPx viewportSizePx =>
    refine ⟨h.service, ?_⟩
    intro request tile hholds
    have hkeeps := showCanvas_keeps pixelsPerPoint maxTextureSide scrollOffsetPx viewportSizePx
      s.viewer s.caches.canvas
    exact h.canvas request tile (hkeeps.2.2 request tile hholds)
  | look viewer => exact ⟨h.service, h.canvas⟩

/-- A later revision finds nothing cached and nothing in flight that names it. -/
theorem Drawn.replaceSnapshot (h : s.Drawn opened) {snapshot : DocumentSnapshot}
    (hlater : snapshot = s.viewer.snapshot ∨
      s.viewer.snapshot.revision.toNat < snapshot.revision.toNat) :
    (s.replaceSnapshot snapshot).Drawn opened := by
  have hsnapshot : (s.replaceSnapshot snapshot).viewer.snapshot = snapshot :=
    ViewerState.replaceSnapshot_snapshot snapshot s.viewer
  refine ⟨?_, ?_⟩
  · rw [hsnapshot]
    refine ShellService.Frozen.mono h.service fun request hrequest => ?_
    rcases hlater with rfl | hlater
    · exact hrequest
    · have hpassed := hrequest.1
      refine ⟨by omega, fun hrevision => ?_⟩
      rw [hrevision] at hpassed
      omega
  · rw [hsnapshot]
    intro request tile hholds
    obtain ⟨hold, hrevision⟩ := TileCache.holds_retainRevision.1 hholds
    obtain ⟨hdrawn, hshows⟩ := h.canvas request tile hold
    rcases hlater with rfl | hlater
    · exact ⟨hdrawn, hshows⟩
    · rw [← hdrawn, hrevision] at hlater
      omega

end Surfaces

/-! ### The shell over them -/

section Lopdf

variable [Lopdf]

open Command (outlines)
open UndoStack (Edited)

omit [Pdfium] in
def snapshotOf (d : EditableDocument) : DocumentSnapshot :=
  ⟨Document.id d, (roster d).live, Document.revision d⟩

omit [Pdfium] in
theorem of_eq_snapshotOf (d : EditableDocument) : DocumentSnapshot.of d = .ok (snapshotOf d) :=
  snapshot_of d

omit [Pdfium] [Lopdf] in
/-- The request's page has the rotation it had when the file was opened. -/
def Unturned (opened drawn : DocumentSnapshot) (request : RenderRequest) : Prop :=
  (findPage drawn request).map PageInfo.rotation = (findPage opened request).map PageInfo.rotation

instance (opened drawn : DocumentSnapshot) (request : RenderRequest) :
    Decidable (Unturned opened drawn request) :=
  inferInstanceAs (Decidable (_ = _))

omit [Pdfium] in
/-- A page found for a request has the identity and the size of one the document knows. -/
theorem outline_of_findPage {d : EditableDocument} {request : RenderRequest} {page : PageInfo}
    (h : findPage (snapshotOf d) request = some page) : (request.page, page.size) ∈ outlines d := by
  have hid : page.id = request.page := by simpa using List.find?_some h
  have hmem : page ∈ (roster d).known := List.mem_append_left _ (List.mem_of_find?_eq_some h)
  exact hid ▸ List.mem_map_of_mem hmem

omit [Pdfium] in
theorem outlines_nodup (d : EditableDocument) : ((outlines d).map Prod.fst).Nodup := by
  have hids : (outlines d).map Prod.fst = (roster d).live.map pageId ++ (roster d).removed.map pageId := by
    rw [outlines, Roster.known, List.map_append, List.map_append, List.map_map, List.map_map]
    rfl
  rw [hids]
  exact (roster d).issued.nodup

omit [Pdfium] in
/-- Edits of single pages keep sizes, so an unturned page resolves as it did. -/
theorem resolveGeometry_unturned {d₀ d : EditableDocument} (h : (outlines d).Perm (outlines d₀))
    {request : RenderRequest} (hunturned : Unturned (snapshotOf d₀) (snapshotOf d) request) :
    resolveGeometry (snapshotOf d) request = resolveGeometry (snapshotOf d₀) request := by
  unfold Unturned at hunturned
  unfold resolveGeometry
  cases hpage : findPage (snapshotOf d) request with
  | none =>
    cases hpage₀ : findPage (snapshotOf d₀) request with
    | none => rfl
    | some page₀ =>
      rw [hpage, hpage₀] at hunturned
      cases hunturned
  | some page =>
    cases hpage₀ : findPage (snapshotOf d₀) request with
    | none =>
      rw [hpage, hpage₀] at hunturned
      cases hunturned
    | some page₀ =>
      rw [hpage, hpage₀] at hunturned
      have hrotation : page.rotation = page₀.rotation := Option.some.inj hunturned
      have hsize : page.size = page₀.size := by
        have hsame := List.inj_on_of_nodup_map (outlines_nodup d₀)
          (h.mem_iff.1 (outline_of_findPage hpage)) (outline_of_findPage hpage₀) rfl
        exact congrArg Prod.snd hsame
      exact congrArg some (computeTileGeometry_congr hsize hrotation request)

namespace OpdfApp

variable {app : OpdfApp}

omit [Pdfium] in
/-- What an edit comes to: nothing, or a document one edit further and on screen. -/
def Redraws (app app' : OpdfApp) : Prop :=
  app'.surfaces = app.surfaces ∧ app'.document = app.document ∨
  ∃ d d', app.document = some d ∧ app'.document = some d' ∧ Edited d d' ∧
    app'.surfaces = app.surfaces.replaceSnapshot (snapshotOf d')

omit [Pdfium] in
theorem surfaces_resnapshot {d : EditableDocument} (h : app.document = some d) :
    app.resnapshot.surfaces = app.surfaces.replaceSnapshot (snapshotOf d) := by
  unfold resnapshot
  rw [h]
  dsimp only
  rw [of_eq_snapshotOf]

omit [Pdfium] in
theorem redraws_resnapshot {d d' : EditableDocument} (hdocument : app.document = some d)
    (hedited : Edited d d') (undo : UndoStack EditableDocument) :
    Redraws app (resnapshot { app with undo, document := some d' }) := by
  refine .inr ⟨d, d', hdocument, ?_, hedited, ?_⟩
  · rw [resnapshot_keeps]
  · rw [surfaces_resnapshot rfl]

omit [Pdfium] in
/-- An edit of one page redraws the document. -/
theorem redraws_applyCommand (h : app.Sound) {command : Command EditableDocument} {page : PageId}
    (hc : command.edited = some page) : Redraws app (app.applyCommand command) := by
  unfold OpdfApp.applyCommand
  cases hdocument : app.document with
  | none => exact .inl ⟨rfl, rfl⟩
  | some d =>
    have hedited := (UndoStack.editsKnown_applyCommand (h.edits d hdocument) hc).2
    dsimp only
    rcases happly : app.undo.applyCommand command d with ⟨e | ⟨⟩, undo, d'⟩
    · have hkept := UndoStack.applyCommand_rejected (s := app.undo) hc (congrArg Prod.fst happly)
      rw [happly] at hkept
      exact .inl ⟨rfl, by rw [hdocument]; exact congrArg some hkept⟩
    · rw [happly] at hedited
      exact redraws_resnapshot hdocument hedited undo

omit [Pdfium] in
/-- So does an undo. -/
theorem redraws_undoEdit (h : app.Sound) : Redraws app app.undoEdit := by
  unfold undoEdit
  cases hdocument : app.document with
  | none => exact .inl ⟨rfl, rfl⟩
  | some d =>
    have hedited := (UndoStack.editsKnown_undoLast (h.edits d hdocument)).2
    have hkept := UndoStack.undoLast_kept (h.edits d hdocument)
    dsimp only
    rcases hundo : app.undo.undoLast d with ⟨e | _ | _, undo, d'⟩
    · rw [hundo] at hkept
      exact .inl ⟨rfl, by rw [hdocument]; exact congrArg some (hkept nofun)⟩
    · rw [hundo] at hkept
      exact .inl ⟨rfl, by rw [hdocument]; exact congrArg some (hkept nofun)⟩
    · rw [hundo] at hedited
      exact redraws_resnapshot hdocument hedited undo

omit [Pdfium] in
/-- So does a redo. -/
theorem redraws_redoEdit (h : app.Sound) : Redraws app app.redoEdit := by
  unfold redoEdit
  cases hdocument : app.document with
  | none => exact .inl ⟨rfl, rfl⟩
  | some d =>
    have hedited := (UndoStack.editsKnown_redoLast (h.edits d hdocument)).2
    have hkept := UndoStack.redoLast_kept (h.edits d hdocument)
    dsimp only
    rcases hredo : app.undo.redoLast d with ⟨e | _ | _, undo, d'⟩
    · rw [hredo] at hkept
      exact .inl ⟨rfl, by rw [hdocument]; exact congrArg some (hkept nofun)⟩
    · rw [hredo] at hkept
      exact .inl ⟨rfl, by rw [hdocument]; exact congrArg some (hkept nofun)⟩
    · rw [hredo] at hedited
      exact redraws_resnapshot hdocument hedited undo

omit [Pdfium] in
theorem redraws_deleteCurrentPage (h : app.Sound) : Redraws app app.deleteCurrentPage := by
  unfold deleteCurrentPage
  split
  · exact .inl ⟨rfl, rfl⟩
  · exact redraws_applyCommand h rfl

omit [Pdfium] in
theorem redraws_rotateCurrentPage (h : app.Sound) : Redraws app app.rotateCurrentPage := by
  unfold rotateCurrentPage
  split
  · exact .inl ⟨rfl, rfl⟩
  · exact redraws_applyCommand h rfl

/-- The page edits, undo and redo, frames, and the worker behind them. -/
def EditsOrDraws : ShellEvent → Bool
  | .action .rotatePageClockwise | .action .deletePage | .action .undo | .action .redo => true
  | .surface _ | .work _ => true
  | _ => false

omit [Pdfium] in
/-- The step asks for no page while that page is turned. -/
def AsksUnturned (opened : DocumentSnapshot) (app : OpdfApp) : ShellEvent → Prop
  | .surface event =>
    ∀ request ∈ app.surfaces.submits event, Unturned opened app.surfaces.viewer.snapshot request
  | _ => True

/-- Every step of a run edits or draws, and asks for no page while it is turned. -/
def UnturnedRun (opened : DocumentSnapshot) : OpdfApp → List (ShellEvent × Surroundings) → Prop
  | _, [] => True
  | app, event :: events =>
    EditsOrDraws event.1 = true ∧ AsksUnturned opened app event.1 ∧
      UnturnedRun opened (app.step event) events

omit [Pdfium] in
instance (opened : DocumentSnapshot) (app : OpdfApp) (event : ShellEvent) :
    Decidable (AsksUnturned opened app event) :=
  match event with
  | .surface event => inferInstanceAs (Decidable (∀ request ∈ app.surfaces.submits event, _))
  | .action _ => .isTrue trivial
  | .confirmDiscard | .cancelDiscard | .confirmCompaction | .cancelCompaction => .isTrue trivial
  | .work _ => .isTrue trivial

instance decidableUnturnedRun (opened : DocumentSnapshot) :
    ∀ (app : OpdfApp) (events : List (ShellEvent × Surroundings)),
      Decidable (UnturnedRun opened app events)
  | _, [] => .isTrue trivial
  | app, event :: events =>
    have := decidableUnturnedRun opened (app.step event) events
    inferInstanceAs (Decidable (_ ∧ _ ∧ _))

/-- The canvas shows the open document, which is `d₀` after at most `n` edits of single pages. -/
structure ShowsEdits (d₀ : EditableDocument) (n : Nat) (app : OpdfApp) : Prop where
  sound : app.Sound
  drawn : app.surfaces.Drawn (snapshotOf d₀)
  document : ∃ d, app.document = some d ∧ app.surfaces.viewer.snapshot = snapshotOf d ∧
    (outlines d).Perm (outlines d₀) ∧ (Document.revision d).toNat ≤ n

variable {d₀ : EditableDocument} {n : Nat}

/-- A redrawn document is one edit further. -/
theorem ShowsEdits.redraw (h : ShowsEdits d₀ n app) (hn : n + 1 < 2 ^ 64) {app' : OpdfApp}
    (hsound : app'.Sound) (hredraws : Redraws app app') : ShowsEdits d₀ (n + 1) app' := by
  obtain ⟨d, hdocument, hsnapshot, houtlines, hrevision⟩ := h.document
  rcases hredraws with ⟨hsurfaces, hsame⟩ | ⟨_, d', hopen, hopen', hedited, hsurfaces⟩
  · refine ⟨hsound, hsurfaces ▸ h.drawn, d, hsame.trans hdocument, hsurfaces ▸ hsnapshot, houtlines, ?_⟩
    omega
  · obtain rfl := Option.some.inj (hdocument.symm.trans hopen)
    have hnext : d' = d ∨ (Document.revision d').toNat = (Document.revision d).toNat + 1 := by
      refine hedited.revision.imp_right fun hadvanced => ?_
      rw [hadvanced, UInt64.toNat_add]
      exact Nat.mod_eq_of_lt (by simp only [UInt64.toNat_one]; omega)
    refine ⟨hsound, ?_, d', hopen', ?_, hedited.outlines.trans houtlines, ?_⟩
    · rw [hsurfaces]
      refine h.drawn.replaceSnapshot ?_
      rw [hsnapshot]
      rcases hnext with rfl | hadvanced
      · exact .inl rfl
      · refine .inr ?_
        show (Document.revision d).toNat < (Document.revision d').toNat
        omega
    · rw [hsurfaces]
      exact ViewerState.replaceSnapshot_snapshot _ _
    · rcases hnext with rfl | hadvanced
      · omega
      · omega

theorem ShowsEdits.step (h : ShowsEdits d₀ n app) (hn : n + 1 < 2 ^ 64)
    (event : ShellEvent × Surroundings) (hkind : EditsOrDraws event.1 = true)
    (hasks : AsksUnturned (snapshotOf d₀) app event.1) : ShowsEdits d₀ (n + 1) (app.step event) := by
  have hsound : (app.step event).Sound := sound_step h.sound event
  obtain ⟨d, hdocument, hsnapshot, houtlines, hrevision⟩ := h.document
  have hrevision' : (Document.revision d).toNat ≤ n + 1 := Nat.le_succ_of_le hrevision
  obtain ⟨event, around⟩ := event
  cases event with
  | action action =>
    refine h.redraw hn hsound ?_
    cases action with
    | rotatePageClockwise => exact redraws_rotateCurrentPage h.sound
    | deletePage => exact redraws_deleteCurrentPage h.sound
    | undo => exact redraws_undoEdit h.sound
    | redo => exact redraws_redoEdit h.sound
    | _ => cases hkind
  | surface event =>
    refine ⟨hsound, h.drawn.step event ?_, d, hdocument, ?_, houtlines, hrevision'⟩
    · intro request hrequest
      have hunturned := hasks request hrequest
      rw [hsnapshot] at hunturned ⊢
      exact resolveGeometry_unturned houtlines hunturned
    · exact (Surfaces.step_snapshot app.surfaces event).trans hsnapshot
  | work fault =>
    exact ⟨hsound, ⟨h.drawn.service.work fault, h.drawn.canvas⟩, d, hdocument, hsnapshot, houtlines,
      hrevision'⟩
  | _ => cases hkind

/-- A run shows at most as many edits as it has steps. -/
theorem ShowsEdits.run (h : ShowsEdits d₀ n app) {events : List (ShellEvent × Surroundings)}
    (hn : n + events.length < 2 ^ 64) (hrun : UnturnedRun (snapshotOf d₀) app events) :
    ShowsEdits d₀ (n + events.length) (app.run events) := by
  induction events generalizing app n with
  | nil => exact h
  | cons event events ih =>
    simp only [List.length_cons] at hn ⊢
    have hstep := h.step (by omega) event hrun.1 hrun.2.1
    have hrest := ih hstep (by omega) hrun.2.2
    rwa [show n + 1 + events.length = n + (events.length + 1) by omega] at hrest

omit [Pdfium] in
/-- What the production opener hands over. -/
theorem openPdf_eq_ok {id : DocumentId} {path : String} {file : Except Error LopdfDocument}
    {pdfiumError : Option String} {opened : OpenedDocument}
    (h : openPdf id path file pdfiumError = .ok opened) :
    ∃ system, opened.service = .pdfium system ∧ opened.snapshot = snapshotOf opened.document ∧
      Document.revision opened.document = 0 ∧
      (system = .start opened.snapshot ∨ ∃ reason, system = .startFailing opened.snapshot reason) := by
  unfold openPdf at h
  split at h
  · cases h
  split at h
  · cases h
  rename_i document hload
  split at h
  · cases h
  rename_i snapshot hsnapshot
  cases h
  have hrevision : document.revision = 0 := by
    unfold PdfDocument.load PdfDocument.buildFromIncremental at hload
    split at hload
    · cases hload
    dsimp only at hload
    split at hload
    · cases hload
    · cases hload
      rfl
  refine ⟨_, rfl, ?_, hrevision, ?_⟩
  · rw [snapshot_of] at hsnapshot
    cases hsnapshot
    rfl
  · cases pdfiumError with
    | none => exact .inl rfl
    | some reason => exact .inr ⟨reason, rfl⟩

/-- A document just opened shows none. -/
theorem showsEdits_new {id : DocumentId} {path : String} {file : Except Error LopdfDocument}
    {pdfiumError : Option String} {opened : OpenedDocument}
    (h : openPdf id path file pdfiumError = .ok opened) :
    ShowsEdits opened.document 0 (OpdfApp.new opened) := by
  obtain ⟨system, hservice, hsnapshot, hrevision, hsystem⟩ := openPdf_eq_ok h
  refine ⟨sound_new opened, ⟨?_, ?_⟩, opened.document, rfl, hsnapshot, .refl _, ?_⟩
  · show ShellService.Frozen _ _ opened.service
    rw [hservice, ← hsnapshot]
    rcases hsystem with rfl | ⟨reason, rfl⟩
    · exact RenderSystem.frozen_start _ _
    · exact RenderSystem.frozen_startFailing _ reason _
  · rintro request tile ⟨entry, hentry, -⟩
    cases hentry
  · rw [hrevision]
    exact Nat.le_refl 0

/-- In every run of page edits, undo, redo, frames and worker steps over a file opened with its
own service, in which no frame asks for a page while that page is turned, every tile in the
canvas cache names the document's revision and shows its page as the document has it. -/
theorem canvas_shows_the_edited_document {id : DocumentId} {path : String}
    {file : Except Error LopdfDocument} {pdfiumError : Option String} {opened : OpenedDocument}
    (hopen : openPdf id path file pdfiumError = .ok opened)
    (events : List (ShellEvent × Surroundings)) (hlength : events.length < 2 ^ 64)
    (hrun : UnturnedRun opened.snapshot (OpdfApp.new opened) events) :
    let app := (OpdfApp.new opened).run events
    ∀ request tile, app.surfaces.caches.canvas.Holds request tile →
      ∃ d snapshot, app.document = some d ∧ DocumentSnapshot.of d = .ok snapshot ∧
        request.revision = snapshot.revision ∧ Shows snapshot request tile := by
  intro app request tile hholds
  obtain ⟨-, -, hsnapshot, -⟩ := openPdf_eq_ok hopen
  rw [hsnapshot] at hrun
  have hshows := (showsEdits_new hopen).run (by omega) hrun
  obtain ⟨d, hdocument, hdrawn, -, -⟩ := hshows.document
  obtain ⟨hrevision, htile⟩ := hshows.drawn.canvas request tile hholds
  rw [hdrawn] at hrevision htile
  exact ⟨d, snapshotOf d, hdocument, of_eq_snapshotOf d, hrevision, htile⟩

end OpdfApp
end Lopdf
end Pdfium

namespace WidePage

open scoped ReferenceLopdf BlankPdfium

def file : LopdfDocument where
  version := "1.7"
  objects := [⟨(1, 0), ImportFixture.catalog⟩,
    ⟨(2, 0), .dictionary [("Type", .name "Pages"), ("Kids", .array [.reference (3, 0)])]⟩,
    ⟨(3, 0), .dictionary [("Type", .name "Page"), ("Parent", .reference (2, 0)),
      ("MediaBox", .array [.integer 0, .integer 0, .integer 2, .integer 1])]⟩].toFinmap
  trailer := [("Root", .reference (1, 0))]
  maxId := 3

def around : Surroundings := ⟨none, none, fun path => .error (.io path), .reliable, 7⟩

def frames : List ShellEvent :=
  [.surface (.showCanvas 1 4096 0 (200, 200)), .surface (.exchange 1 4096),
    .work none, .work none, .work none, .surface (.exchange 1 4096)]

def turned : List (ShellEvent × Surroundings) :=
  (.action .rotatePageClockwise :: frames).map (·, around)

def turnedBack : List (ShellEvent × Surroundings) :=
  (.action .rotatePageClockwise :: .action .undo :: frames).map (·, around)

def request : RenderRequest := ⟨1, 0, 1, 1, .none, RenderRequest.one_positive⟩

def lying : Tile := TurnedPage.lying

def drawn : DocumentSnapshot := ⟨1, [⟨0, TurnedPage.size, .quarter⟩], 1⟩

def opened : OpenedDocument := (openPdf 1 "wide.pdf" (.ok file) none).toOption.get (by decide +kernel)

theorem openPdf_file : openPdf 1 "wide.pdf" (.ok file) none = .ok opened := rfl

end WidePage

namespace OpdfApp

open WidePage (file turned turnedBack request lying drawn opened openPdf_file)
open scoped ReferenceLopdf BlankPdfium

/-- The page was turned before it was ever drawn, and the canvas shows it unturned. -/
theorem turned_page_is_drawn_unturned :
    ∃ opened, openPdf 1 "wide.pdf" (.ok file) none = .ok opened ∧
      let app := (OpdfApp.new opened).run turned
      ∃ request tile d snapshot, app.surfaces.caches.canvas.Holds request tile ∧
        app.document = some d ∧ DocumentSnapshot.of d = .ok snapshot ∧
        request.revision = snapshot.revision ∧ ¬ Shows snapshot request tile := by
  have hheld : ((OpdfApp.new opened).run turned).surfaces.caches.canvas.entries.map
      (fun entry => (entry.1, entry.2.value)) = [(request, lying)] := by decide +kernel
  have hsnapshot : ((OpdfApp.new opened).run turned).document.map DocumentSnapshot.of =
      some (.ok drawn) := by decide +kernel
  obtain ⟨d, hdocument, hdrawn⟩ := Option.map_eq_some_iff.1 hsnapshot
  refine ⟨opened, openPdf_file, request, lying, d, drawn, ?_, hdocument, hdrawn, rfl, ?_⟩
  · have hmem : (request, lying) ∈ ((OpdfApp.new opened).run turned).surfaces.caches.canvas.entries.map
        (fun entry => (entry.1, entry.2.value)) := by
      rw [hheld]
      exact List.mem_singleton_self _
    obtain ⟨entry, hentry, heq⟩ := List.mem_map.1 hmem
    exact ⟨entry.2, by grind, by grind⟩
  · rintro ⟨geometry, hresolve, hshown⟩
    have hgeometry : resolveGeometry drawn request = some (.ok ⟨1, 2, .quarter⟩) := by decide +kernel
    obtain rfl : geometry = ⟨1, 2, .quarter⟩ := by
      rw [hgeometry] at hresolve
      cases hresolve
      rfl
    exact absurd hshown.dimensions.1 (by decide)

/-- Turned and turned back, the page is drawn as the document has it. -/
theorem canvas_shows_the_page_turned_back :
    let app := (OpdfApp.new opened).run turnedBack
    app.surfaces.caches.canvas.entries.length = 1 ∧
      ∀ request tile, app.surfaces.caches.canvas.Holds request tile →
        ∃ d snapshot, app.document = some d ∧ DocumentSnapshot.of d = .ok snapshot ∧
          request.revision = snapshot.revision ∧ Shows snapshot request tile :=
  ⟨by decide +kernel,
    canvas_shows_the_edited_document openPdf_file turnedBack (by decide) (by decide +kernel)⟩

end OpdfApp
end OpdfEditor
