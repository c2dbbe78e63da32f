import OpdfEditor.RenderWorker

/-!
What a tile shows: every tile the worker answers with was drawn at the geometry its
page has in the snapshot of the moment, as long as no rebind finds a tile cached
under its revision that the new snapshot would draw at another geometry.
-/
namespace OpdfEditor

section Pdfium

variable [Pdfium]

def DrawnAt (geometry : TileGeometry) (tile : Tile) : Prop :=
  ∃ page fileRotation, rasterizePage page geometry fileRotation = .ok tile

theorem DrawnAt.dimensions {geometry : TileGeometry} {tile : Tile} (h : DrawnAt geometry tile) :
    tile.width = geometry.widthPx ∧ tile.height = geometry.heightPx := by
  obtain ⟨page, fileRotation, hdraw⟩ := h
  exact rasterizePage_dimensions hdraw

omit [Pdfium] in
/-- The geometry a request resolves to in a snapshot, where its page is. -/
def resolveGeometry (snapshot : DocumentSnapshot) (request : RenderRequest) :
    Option (Except String TileGeometry) :=
  (findPage snapshot request).map (computeTileGeometry · request)

/-- The tile shows the request's page as the snapshot has it. -/
def Shows (snapshot : DocumentSnapshot) (request : RenderRequest) (tile : Tile) : Prop :=
  ∃ geometry, resolveGeometry snapshot request = some (.ok geometry) ∧ DrawnAt geometry tile

theorem answerRequest_ready {fault : Option String} {snapshot : DocumentSnapshot}
    {fileIndices : List (PageId × Nat)} {request request' : RenderRequest} {tile : Tile}
    (h : answerRequest fault snapshot fileIndices request = .ready request' tile) :
    request' = request ∧ Shows snapshot request tile := by
  unfold answerRequest at h
  split at h
  · cases h
  rename_i info hinfo
  split at h
  · cases h
  rename_i geometry hgeometry
  split at h
  · cases h
  split at h
  · cases h
  split at h
  · cases h
  rename_i page hpage
  split at h
  · cases h
  rename_i fileRotation hrotation
  split at h
  · cases h
  split at h
  · rename_i drawn hdraw
    cases h
    refine ⟨rfl, geometry, ?_, page, fileRotation, hdraw⟩
    simp [resolveGeometry, hinfo, hgeometry]
  · cases h

/-- A refusal names the request it refuses. -/
theorem answerRequest_failed {fault : Option String} {snapshot : DocumentSnapshot}
    {fileIndices : List (PageId × Nat)} {request request' : RenderRequest} {reason : String}
    (h : answerRequest fault snapshot fileIndices request = .failed request' reason) :
    request' = request := by
  unfold answerRequest at h
  repeat' split at h
  all_goals cases h
  all_goals rfl

namespace Worker

/-- Every cached tile shows its request's page as the current snapshot has it. -/
def Honest (w : Worker) : Prop :=
  ∀ entry ∈ w.cache.entries, Shows w.snapshot entry.1 entry.2

theorem honest_start (snapshot : DocumentSnapshot) : (start snapshot).Honest := by
  intro entry hentry
  cases hentry

/-- Every cached tile is as the request it answers asks. -/
def Caches (P : RenderRequest → Tile → Prop) (w : Worker) : Prop :=
  ∀ entry ∈ w.cache.entries, P entry.1 entry.2

/-- Serving caches and answers with what was cached or rasterized. -/
theorem Caches.serveRequest {P : RenderRequest → Tile → Prop} {w : Worker} (hw : w.Caches P)
    (fault : Option String) (request : RenderRequest)
    (hanswer : ∀ tile, answerRequest fault w.snapshot w.fileIndices request = .ready request tile →
      P request tile) :
    (w.serveRequest fault request).2.Caches P ∧
    (w.serveRequest fault request).2.snapshot = w.snapshot ∧
    (w.serveRequest fault request).2.fileIndices = w.fileIndices ∧
    ∀ request' tile, (w.serveRequest fault request).1 = .ready request' tile → P request' tile := by
  unfold Worker.serveRequest
  split
  · rename_i tile cache hget
    obtain ⟨hcached, hsame⟩ := WorkerCache.get_eq_some hget
    refine ⟨fun entry hentry => hw entry (hsame ▸ hentry), rfl, rfl, ?_⟩
    rintro request' tile' ⟨⟩
    exact hw _ hcached
  · split
    · rename_i request' tile hready
      obtain ⟨rfl, -⟩ := answerRequest_ready hready
      have hdrawn := hanswer tile hready
      refine ⟨fun entry hentry => ?_, rfl, rfl, ?_⟩
      · rcases WorkerCache.mem_insert hentry with hold | rfl
        · exact hw entry hold
        · exact hdrawn
      · rintro request'' tile' ⟨⟩
        exact hdrawn
    · refine ⟨hw, rfl, rfl, ?_⟩
      rintro request'' tile' ⟨⟩

/-- Serving leaves the cache honest, and what it answers with shows what was asked for. -/
theorem honest_serveRequest {w : Worker} (hw : w.Honest) (fault : Option String)
    (request : RenderRequest) :
    (w.serveRequest fault request).2.Honest ∧
    (w.serveRequest fault request).2.snapshot = w.snapshot ∧
    ∀ request' tile, (w.serveRequest fault request).1 = .ready request' tile →
      Shows w.snapshot request' tile := by
  have hcaches : w.Caches (Shows w.snapshot) := hw
  obtain ⟨hcached, hsnapshot, -, hready⟩ := hcaches.serveRequest fault request
    (fun _ hanswer => (answerRequest_ready hanswer).2)
  refine ⟨?_, hsnapshot, hready⟩
  intro entry hentry
  rw [hsnapshot]
  exact hcached entry hentry

/-- Nothing cached under the revision of a new snapshot is drawn otherwise there. -/
def RebindKeeps (replacement : DocumentSnapshot) (w : Worker) : Prop :=
  ∀ entry ∈ w.cache.entries, entry.1.revision = replacement.revision →
    resolveGeometry replacement entry.1 = resolveGeometry w.snapshot entry.1

omit [Pdfium] in
instance (replacement : DocumentSnapshot) (w : Worker) : Decidable (w.RebindKeeps replacement) :=
  inferInstanceAs (Decidable (∀ entry ∈ w.cache.entries, _))

omit [Pdfium] in
/-- A message is never answered with a tile. -/
theorem acceptMessage_silent (message : WorkerMessage) (w : Worker) :
    ∀ response ∈ (w.acceptMessage message).1, ∀ request tile, response ≠ .ready request tile := by
  rintro response hresponse request tile rfl
  cases message <;> simp [acceptMessage] at hresponse

theorem honest_acceptMessage {w : Worker} (hw : w.Honest) (message : WorkerMessage)
    (hkeeps : ∀ replacement, message = .rebind replacement → w.RebindKeeps replacement) :
    (w.acceptMessage message).2.Honest := by
  cases message with
  | render request => exact hw
  | rebind replacement =>
    intro entry hentry
    obtain ⟨hold, hrevision⟩ := WorkerCache.mem_retainRevision.1 hentry
    obtain ⟨geometry, hresolve, hdrawn⟩ := hw entry hold
    exact ⟨geometry, (hkeeps replacement rfl entry hold hrevision).trans hresolve, hdrawn⟩
  | shutdown => exact hw

end Worker

/-! ### Runs of a service -/

/-- What can happen to a service: its handle is used, or its worker takes a step. -/
inductive RenderEvent where
  | submit (request : RenderRequest)
  | rebind (snapshot : DocumentSnapshot)
  | poll
  | work (fault : Option String)

/-- A response, and the snapshot the worker held when it sent it. -/
structure Emission where
  snapshot : DocumentSnapshot
  response : RenderResponse
  deriving DecidableEq

/-- A ready response that names the revision of the snapshot it was sent under shows that
snapshot. -/
def Emission.Honest (emission : Emission) : Prop :=
  ∀ request tile, emission.response = .ready request tile →
    request.revision = emission.snapshot.revision → Shows emission.snapshot request tile

namespace RenderSystem

/-- The response to a request is one to that request. -/
theorem request_serveRequest (fault : Option String) (request : RenderRequest) (w : Worker) :
    (w.serveRequest fault request).1.request = request := by
  unfold Worker.serveRequest
  split
  · rfl
  split
  · rename_i hanswer
    exact (answerRequest_ready hanswer).1
  · rename_i hanswer
    exact answerRequest_failed hanswer

theorem serveRequest_backlog (fault : Option String) (request : RenderRequest) (w : Worker) :
    (w.serveRequest fault request).2.backlog = w.backlog := by
  unfold Worker.serveRequest
  split
  · rfl
  · split <;> rfl

theorem serveRequest_shuttingDown (fault : Option String) (request : RenderRequest) (w : Worker) :
    (w.serveRequest fault request).2.shuttingDown = w.shuttingDown := by
  unfold Worker.serveRequest
  split
  · rfl
  · split <;> rfl

def step (event : RenderEvent) (s : RenderSystem) : RenderSystem :=
  match event with
  | .submit request => s.submit request
  | .rebind snapshot => s.rebind snapshot
  | .poll => s.poll.2
  | .work fault => s.work fault

def emissions (event : RenderEvent) (s : RenderSystem) : List Emission :=
  match event with
  | .work fault =>
    ((s.work fault).responses.drop s.responses.length).map fun response =>
      ⟨s.worker.snapshot, response⟩
  | _ => []

def trace : RenderSystem → List RenderEvent → List Emission
  | _, [] => []
  | s, event :: events => s.emissions event ++ (s.step event).trace events

/-- The snapshot a step rebinds the worker to, if it does. -/
def applies (event : RenderEvent) (s : RenderSystem) : Option DocumentSnapshot :=
  match event, s.nextMessage with
  | .work _, some (.rebind replacement) => some replacement
  | _, _ => none

/-- A step that applies no rebind to a snapshot that would draw a tile cached under its
revision otherwise. -/
def Careful (event : RenderEvent) (s : RenderSystem) : Prop :=
  ∀ replacement ∈ s.applies event, s.worker.RebindKeeps replacement

omit [Pdfium] in
instance (event : RenderEvent) (s : RenderSystem) : Decidable (s.Careful event) :=
  inferInstanceAs (Decidable (∀ replacement ∈ s.applies event, _))

/-- Every step of a run is careful. -/
def CarefulRun : RenderSystem → List RenderEvent → Prop
  | _, [] => True
  | s, event :: events => s.Careful event ∧ (s.step event).CarefulRun events

omit [Pdfium] in
theorem Careful.keeps {fault : Option String} {s : RenderSystem} (h : s.Careful (.work fault))
    {replacement : DocumentSnapshot} (hnext : s.nextMessage = some (.rebind replacement)) :
    s.worker.RebindKeeps replacement :=
  h replacement (by simp [applies, hnext])

instance decidableCarefulRun : ∀ (s : RenderSystem) (events : List RenderEvent),
    Decidable (s.CarefulRun events)
  | _, [] => .isTrue trivial
  | s, event :: events =>
    have := decidableCarefulRun (s.step event) events
    inferInstanceAs (Decidable (s.Careful event ∧ (s.step event).CarefulRun events))

/-- A step keeps what taking a message and serving a request keep of the worker, and sends no tile
but as it is served. -/
theorem step_preserves {I : Worker → Prop} {Q : RenderRequest → Tile → Prop} {s : RenderSystem}
    (hloop : ∀ w phase backlog, I w → I { w with phase, backlog }) (hs : I s.worker)
    {event : RenderEvent}
    (haccept : ∀ fault message, event = .work fault → s.nextMessage = some message →
      I (s.worker.acceptMessage message).2)
    (hserve : ∀ w fault request, I w → w.snapshot = s.worker.snapshot →
      I (w.serveRequest fault request).2 ∧
      ∀ request' tile, (w.serveRequest fault request).1 = .ready request' tile → Q request' tile) :
    I (s.step event).worker ∧
    ∀ emission ∈ s.emissions event, ∀ request tile, emission.response = .ready request tile →
      Q request tile := by
  cases event with
  | submit request =>
    refine ⟨?_, by simp [emissions]⟩
    have hworker : (s.submit request).worker = s.worker := by
      unfold submit
      split <;> rfl
    exact hworker.symm ▸ hs
  | rebind snapshot => exact ⟨hs, by simp [emissions]⟩
  | poll => exact ⟨hs, by simp [emissions]⟩
  | work fault =>
    have hwork : I (s.work fault).worker ∧
        ∀ response ∈ (s.work fault).responses.drop s.responses.length,
          ∀ request tile, response = .ready request tile → Q request tile := by
      rcases work_cases fault s with ⟨phase, -, hwork⟩ | ⟨message, requests, hnext, -, hwork⟩ |
        ⟨request, backlog, -, -, hwork⟩ | ⟨reason, message, requests, -, -, hwork⟩
      · rw [hwork]
        exact ⟨hloop _ phase _ hs, by simp [enter]⟩
      · rw [hwork]
        refine ⟨hloop _ .draining _ (haccept fault message rfl hnext), ?_⟩
        intro response hresponse request tile heq
        simp only [accept, List.drop_left] at hresponse
        exact absurd heq (Worker.acceptMessage_silent message _ response hresponse request tile)
      · rw [hwork]
        obtain ⟨hserved, hready⟩ :=
          hserve { s.worker with backlog } fault request (hloop _ _ backlog hs) rfl
        refine ⟨hloop _ .receiving _ hserved, ?_⟩
        intro response hresponse request' tile heq
        simp only [serve, List.drop_left, List.mem_singleton] at hresponse
        subst hresponse
        exact hready request' tile heq
      · rw [hwork]
        cases message with
        | render request =>
          refine ⟨hs, ?_⟩
          intro response hresponse request' tile heq
          simp only [turnAway, List.drop_left, List.mem_singleton] at hresponse
          rw [hresponse] at heq
          cases heq
        | rebind snapshot => exact ⟨hs, by simp [turnAway]⟩
        | shutdown => exact ⟨hloop _ .stopped _ hs, by simp [turnAway]⟩
    refine ⟨hwork.1, ?_⟩
    intro emission hemission request tile heq
    obtain ⟨response, hresponse, rfl⟩ := List.mem_map.1 hemission
    exact hwork.2 response hresponse request tile heq

theorem snapshot_emissions {s : RenderSystem} {event : RenderEvent} :
    ∀ emission ∈ s.emissions event, emission.snapshot = s.worker.snapshot := by
  intro emission hemission
  cases event with
  | work fault =>
    obtain ⟨response, -, rfl⟩ := List.mem_map.1 hemission
    rfl
  | _ => cases hemission

/-- A step keeps the cache honest and sends only honest tiles. -/
theorem honest_step {s : RenderSystem} (hs : s.worker.Honest) {event : RenderEvent}
    (hcareful : s.Careful event) :
    (s.step event).worker.Honest ∧ ∀ emission ∈ s.emissions event, emission.Honest := by
  have haccept : ∀ fault message, event = .work fault → s.nextMessage = some message →
      (s.worker.acceptMessage message).2.Honest := by
    rintro fault message rfl hnext
    exact Worker.honest_acceptMessage hs message fun replacement heq => hcareful.keeps (heq ▸ hnext)
  have hserve : ∀ (w : Worker) fault request, w.Honest → w.snapshot = s.worker.snapshot →
      (w.serveRequest fault request).2.Honest ∧
      ∀ request' tile, (w.serveRequest fault request).1 = .ready request' tile →
        Shows s.worker.snapshot request' tile := by
    intro w fault request hw hsame
    obtain ⟨hserved, -, hready⟩ := Worker.honest_serveRequest hw fault request
    exact ⟨hserved, hsame ▸ hready⟩
  obtain ⟨hhonest, hready⟩ := step_preserves (fun _ _ _ hw => hw) hs haccept hserve
  refine ⟨hhonest, fun emission hemission request tile heq _ => ?_⟩
  rw [snapshot_emissions emission hemission]
  exact hready emission hemission request tile heq

theorem honest_trace {s : RenderSystem} (hs : s.worker.Honest) {events : List RenderEvent}
    (hcareful : s.CarefulRun events) : ∀ emission ∈ s.trace events, emission.Honest := by
  induction events generalizing s with
  | nil => simp [trace]
  | cons event events ih =>
    obtain ⟨hstep, hemitted⟩ := honest_step hs hcareful.1
    intro emission hemission
    rcases List.mem_append.1 hemission with hemission | hemission
    · exact hemitted emission hemission
    · exact ih hstep hcareful.2 emission hemission

/-- In every run of a service in which no rebind finds, under its own revision, a cached tile
that it would draw otherwise, every ready response naming the revision of the snapshot it was
sent under shows its page as that snapshot has it. -/
theorem ready_responses_show_the_snapshot (snapshot : DocumentSnapshot) (events : List RenderEvent)
    (hcareful : (start snapshot).CarefulRun events) :
    ∀ emission ∈ (start snapshot).trace events, emission.Honest :=
  honest_trace (Worker.honest_start snapshot) hcareful

end RenderSystem

end Pdfium

/-! ### A page turned while its tile is in flight -/

namespace TurnedPage

def size : PageSize :=
  ⟨.finite 2 (by simpa using Binary32.representable_natCast (n := 2) (by decide)),
    .finite 1 (by simpa using Binary32.representable_natCast (n := 1) (by decide))⟩

def opened : DocumentSnapshot := ⟨1, [⟨0, size, .none⟩], 0⟩

def turned : DocumentSnapshot := ⟨1, [⟨0, size, .quarter⟩], 1⟩

def request (revision : UInt64) : RenderRequest :=
  ⟨1, 0, revision, 1, .none, RenderRequest.one_positive⟩

def ask (revision : UInt64) : List RenderEvent :=
  [.submit (request revision), .work none, .work none, .work none]

def turn : List RenderEvent := [.rebind turned, .work none, .work none, .work none]

def lying : Tile := ⟨2, 1, List.replicate 8 255, by decide, by decide, rfl⟩

end TurnedPage

namespace RenderSystem

open scoped BlankPdfium
open TurnedPage (ask turn opened turned)

/-- A tile asked for ahead of its revision is drawn from the old snapshot, kept by the rebind and
served for the new one. -/
theorem early_request_is_served_stale :
    ∃ emission ∈ (start opened).trace (ask 1 ++ turn ++ ask 1), ¬ emission.Honest := by
  refine ⟨⟨turned, .ready (TurnedPage.request 1) TurnedPage.lying⟩, ?_, ?_⟩
  · have htrace : (start opened).trace (ask 1 ++ turn ++ ask 1) =
        [⟨opened, .ready (TurnedPage.request 1) TurnedPage.lying⟩,
          ⟨turned, .ready (TurnedPage.request 1) TurnedPage.lying⟩] := by decide +kernel
    rw [htrace]
    simp
  · intro hhonest
    obtain ⟨geometry, hresolve, hdrawn⟩ := hhonest _ _ rfl rfl
    obtain rfl : geometry = ⟨1, 2, .quarter⟩ := by
      have hgeometry : resolveGeometry turned (TurnedPage.request 1) =
          some (.ok ⟨1, 2, .quarter⟩) := by decide +kernel
      rw [hgeometry] at hresolve
      cases hresolve
      rfl
    exact absurd hdrawn.dimensions.1 (by decide)

/-- Asked for at its own revision, the turned page is drawn turned. -/
theorem ready_responses_show_the_turned_page :
    (start opened).trace (ask 0 ++ turn ++ ask 1) ≠ [] ∧
      ∀ emission ∈ (start opened).trace (ask 0 ++ turn ++ ask 1), emission.Honest :=
  ⟨by decide +kernel, ready_responses_show_the_snapshot opened _ (by decide +kernel)⟩

end RenderSystem
end OpdfEditor
