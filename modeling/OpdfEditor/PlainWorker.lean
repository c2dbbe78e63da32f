import OpdfEditor.RevisionHonesty

/-!
The worker's tile cache cannot be seen from outside: a worker without one sends the same responses
in the same order, except where Pdfium fails on a page whose tile the cache still holds.
-/
namespace OpdfEditor

section Pdfium

variable [Pdfium]

/-! ### Answers without a cache -/

section Answers

variable {fault : Option String} {snapshot snapshot' : DocumentSnapshot}
  {fileIndices : List (PageId × Nat)} {request : RenderRequest} {tile : Tile}

/-- All an answer takes from the snapshot is the geometry of its page. -/
theorem answerRequest_congr (fault : Option String) (fileIndices : List (PageId × Nat))
    (h : resolveGeometry snapshot' request = resolveGeometry snapshot request) :
    answerRequest fault snapshot' fileIndices request =
      answerRequest fault snapshot fileIndices request := by
  unfold resolveGeometry at h
  unfold answerRequest
  cases hfound : findPage snapshot request with
  | none =>
    rw [hfound, Option.map_none, Option.map_eq_none_iff] at h
    rw [h]
  | some info =>
    rw [hfound, Option.map_some] at h
    obtain ⟨info', hfound', hgeometry⟩ := Option.map_eq_some_iff.1 h
    rw [hfound']
    dsimp only
    rw [hgeometry]

/-- A page that is drawn is drawn without a fault, and a fault would have stopped it. -/
theorem answerRequest_fault (h : answerRequest fault snapshot fileIndices request = .ready request tile) :
    fault = none ∧ ∀ reason,
      answerRequest (some reason) snapshot fileIndices request = .failed request reason := by
  unfold answerRequest at h ⊢
  split at h
  · cases h
  split at h
  · cases h
  split at h
  · cases h
  split at h
  · cases h
  split at h
  · cases h
  split at h
  · cases h
  split at h
  · cases h
  · simp_all

end Answers

namespace Worker

/-- Every cached tile is what its request would be answered with now. -/
def Fresh (w : Worker) : Prop := w.Caches fun request tile =>
  answerRequest none w.snapshot w.fileIndices request = .ready request tile

/-- The worker without its tiles and without room for any. -/
def plain (w : Worker) : Worker := { w with cache := .withBudget 0 }

theorem fresh_start (snapshot : DocumentSnapshot) : (start snapshot).Fresh := by
  intro entry hentry
  cases hentry

theorem Fresh.serveRequest {w : Worker} (h : w.Fresh) (fault : Option String)
    (request : RenderRequest) : (w.serveRequest fault request).2.Fresh := by
  obtain ⟨hcaches, hsnapshot, hindices, -⟩ := Caches.serveRequest h fault request fun tile hready => by
    obtain ⟨rfl, -⟩ := answerRequest_fault hready
    exact hready
  intro entry hentry
  rw [hsnapshot, hindices]
  exact hcaches entry hentry

theorem Fresh.acceptMessage {w : Worker} (h : w.Fresh) (message : WorkerMessage)
    (hkeeps : ∀ replacement, message = .rebind replacement → w.RebindKeeps replacement) :
    (w.acceptMessage message).2.Fresh := by
  cases message with
  | render request => exact h
  | rebind replacement =>
    intro entry hentry
    obtain ⟨hold, hrevision⟩ := WorkerCache.mem_retainRevision.1 hentry
    have hsame := hkeeps replacement rfl entry hold hrevision
    exact (answerRequest_congr none w.fileIndices hsame).trans (h entry hold)
  | shutdown => exact h

omit [Pdfium] in
theorem acceptMessage_plain (message : WorkerMessage) (w : Worker) :
    w.plain.acceptMessage message = ((w.acceptMessage message).1, (w.acceptMessage message).2.plain) := by
  cases message <;> rfl

/-- With no room for any tile, every request is answered afresh. -/
theorem serveRequest_plain (fault : Option String) (request : RenderRequest) (w : Worker) :
    w.plain.serveRequest fault request =
      (answerRequest fault w.snapshot w.fileIndices request, w.plain) := by
  have hmiss : w.plain.cache.get request = none := rfl
  unfold Worker.serveRequest
  rw [hmiss]
  have hanswers : answerRequest fault w.plain.snapshot w.plain.fileIndices request =
      answerRequest fault w.snapshot w.fileIndices request := rfl
  dsimp only
  rw [hanswers]
  cases answerRequest fault w.snapshot w.fileIndices request with
  | ready request' tile =>
    have hlarge : tile.pixels.length > 0 := by
      rw [tile.filled]
      exact Nat.mul_pos (Nat.mul_pos tile.widthPos tile.heightPos) (by decide)
    have hskip : w.plain.cache.insert request' tile = w.plain.cache := if_pos hlarge
    dsimp only
    rw [hskip]
  | failed request' reason => rfl

theorem plain_serveRequest (fault : Option String) (request : RenderRequest) (w : Worker) :
    (w.serveRequest fault request).2.plain = w.plain := by
  unfold Worker.serveRequest
  split
  · rfl
  · split <;> rfl

/-- What the cached worker answers, next to what the plain one does: the same, unless a fault
stopped the plain one alone. -/
def Spares (fault : Option String) (cached plain : RenderResponse) : Prop :=
  cached = plain ∨ ∃ request tile reason, fault = some reason ∧
    cached = .ready request tile ∧ plain = .failed request reason

theorem Fresh.spares {w : Worker} (h : w.Fresh) (fault : Option String) (request : RenderRequest) :
    Spares fault (w.serveRequest fault request).1 (w.plain.serveRequest fault request).1 := by
  rw [serveRequest_plain]
  unfold Worker.serveRequest
  cases hget : w.cache.get request with
  | none => cases answerRequest fault w.snapshot w.fileIndices request <;> exact .inl rfl
  | some cached =>
    obtain ⟨tile, cache⟩ := cached
    have hready := h _ (WorkerCache.get_eq_some hget).1
    cases fault with
    | none => exact .inl hready.symm
    | some reason =>
      exact .inr ⟨request, tile, reason, rfl, rfl, (answerRequest_fault hready).2 reason⟩

end Worker

/-! ### Runs without a cache -/

namespace RenderSystem

/-- The service with a worker that caches nothing, where these responses wait to be collected. -/
def plain (responses : List RenderResponse) (s : RenderSystem) : RenderSystem :=
  { s with worker := s.worker.plain, responses }

/-- The plain service after a step, and the responses the step added to each. -/
structure Mirrors (fault : Option String) (before : List RenderResponse) (s s' u' : RenderSystem)
    (cached plain : List RenderResponse) : Prop where
  sent : s'.responses = s.responses ++ cached
  mirrored : u' = s'.plain (before ++ plain)
  spared : List.Forall₂ (Worker.Spares fault) cached plain

omit [Pdfium] in
theorem mirrors_same {fault : Option String} (before : List RenderResponse) {s s' u' : RenderSystem}
    {sent : List RenderResponse} (hsent : s'.responses = s.responses ++ sent)
    (hmirrored : u' = s'.plain (before ++ sent)) : Mirrors fault before s s' u' sent sent :=
  ⟨hsent, hmirrored, List.forall₂_same.2 fun _ _ => .inl rfl⟩

omit [Pdfium] in
theorem mirrors_accept (fault : Option String) (before : List RenderResponse) (s : RenderSystem)
    (message : WorkerMessage) (requests : List WorkerMessage) :
    Mirrors fault before s (s.accept message requests) ((s.plain before).accept message requests)
      (s.worker.acceptMessage message).1 (s.worker.acceptMessage message).1 := by
  refine mirrors_same before rfl ?_
  have hplain := Worker.acceptMessage_plain message s.worker
  unfold accept
  rw [show (s.plain before).worker = s.worker.plain from rfl, hplain]
  rfl

theorem mirrors_serve (fault : Option String) (before : List RenderResponse) {s : RenderSystem}
    (hs : s.worker.Fresh) (request : RenderRequest) (backlog : Backlog) :
    ∃ cached plain, Mirrors fault before s (s.serve fault request backlog)
      ((s.plain before).serve fault request backlog) cached plain := by
  have hfresh : { s.worker with backlog }.Fresh := hs
  refine ⟨_, [({ s.worker with backlog }.plain.serveRequest fault request).1], rfl, ?_,
    .cons (hfresh.spares fault request) .nil⟩
  have hkept := Worker.plain_serveRequest fault request { s.worker with backlog }
  have hplain := congrArg Prod.snd (Worker.serveRequest_plain fault request { s.worker with backlog })
  have hsame := hplain.trans hkept.symm
  unfold serve
  change RenderSystem.mk _ { ({ s.worker with backlog }.plain.serveRequest fault request).2 with
    phase := .receiving } _ _ = _
  rw [hsame]
  rfl

/-- One step of the worker: where the plain one stands is where the cached one stands, and it has
sent as many responses. -/
theorem mirrors_work (fault : Option String) (before : List RenderResponse) {s : RenderSystem}
    (hs : s.worker.Fresh) :
    ∃ cached plain, Mirrors fault before s (s.work fault) ((s.plain before).work fault) cached plain := by
  have hquiet : ∀ s' u' : RenderSystem, s'.responses = s.responses → u' = s'.plain before →
      ∃ cached plain, Mirrors fault before s s' u' cached plain := fun s' u' hsent hplain =>
    ⟨[], [], mirrors_same before (by simp [hsent]) (by simp [hplain])⟩
  have hphase : (s.plain before).worker.phase = s.worker.phase := rfl
  have hrequests : (s.plain before).requests = s.requests := rfl
  unfold work
  rw [hphase]
  cases s.worker.phase with
  | receiving =>
    by_cases hempty : s.worker.backlog.isEmpty = true
    · have hempty' : (s.plain before).worker.backlog.isEmpty = true := hempty
      dsimp only
      rw [if_pos hempty, if_pos hempty', hrequests]
      cases s.requests with
      | nil => exact hquiet _ _ rfl rfl
      | cons message requests => exact ⟨_, _, mirrors_accept fault before s message requests⟩
    · have hempty' : ¬ (s.plain before).worker.backlog.isEmpty = true := hempty
      dsimp only
      rw [if_neg hempty, if_neg hempty']
      exact hquiet _ _ rfl rfl
  | draining =>
    dsimp only
    rw [hrequests]
    cases s.requests with
    | nil => exact hquiet _ _ rfl rfl
    | cons message requests => exact ⟨_, _, mirrors_accept fault before s message requests⟩
  | serving =>
    have hbacklog : (s.plain before).worker.backlog = s.worker.backlog := rfl
    have hdown : (s.plain before).worker.shuttingDown = s.worker.shuttingDown := rfl
    dsimp only
    rw [hbacklog, hdown]
    by_cases hstops : s.worker.shuttingDown = true
    · rw [if_pos hstops, if_pos hstops]
      exact hquiet _ _ rfl rfl
    · rw [if_neg hstops, if_neg hstops]
      cases s.worker.backlog.takeNewest with
      | none => exact hquiet _ _ rfl rfl
      | some taken => exact mirrors_serve fault before hs taken.1 taken.2
  | failing reason =>
    dsimp only
    rw [hrequests]
    cases s.requests with
    | nil => exact hquiet _ _ rfl rfl
    | cons message requests =>
      cases message with
      | render request =>
        exact ⟨[.failed request reason], [.failed request reason], mirrors_same before rfl rfl⟩
      | rebind snapshot => exact hquiet _ _ rfl rfl
      | shutdown => exact hquiet _ _ rfl rfl
  | stopped => exact hquiet _ _ rfl rfl

/-- The fault Pdfium meets in a step, if it meets one. -/
def faultOf : RenderEvent → Option String
  | .work fault => fault
  | _ => none

/-- Two responses sent under one snapshot, the second by the plain worker. -/
def SparesEmission (fault : Option String) (cached plain : Emission) : Prop :=
  cached.snapshot = plain.snapshot ∧ Worker.Spares fault cached.response plain.response

/-- One step: the plain service stays the cached one without its tiles. -/
theorem plain_step {s : RenderSystem} (hs : s.worker.Fresh) {event : RenderEvent}
    (hcareful : s.Careful event) (before : List RenderResponse) :
    (s.step event).worker.Fresh ∧ ∃ after,
      (s.plain before).step event = (s.step event).plain after ∧
      List.Forall₂ (SparesEmission (faultOf event)) (s.emissions event)
        ((s.plain before).emissions event) := by
  have haccept : ∀ fault message, event = .work fault → s.nextMessage = some message →
      (s.worker.acceptMessage message).2.Fresh := by
    rintro fault message rfl hnext
    exact hs.acceptMessage message fun replacement heq => hcareful.keeps (heq ▸ hnext)
  have hfresh := (step_preserves (Q := fun _ _ => True) (fun _ _ _ hw => hw) hs haccept
    fun w fault request hw _ => ⟨hw.serveRequest fault request, fun _ _ _ => trivial⟩).1
  refine ⟨hfresh, ?_⟩
  cases event with
  | submit request =>
    by_cases hstopped : s.worker.phase = .stopped
    · refine ⟨before, ?_, .nil⟩
      change (s.plain before).submit request = (s.submit request).plain before
      have hstopped' : (s.plain before).worker.phase = .stopped := hstopped
      rw [submit, submit, if_pos hstopped, if_pos hstopped']
      rfl
    · refine ⟨before, ?_, .nil⟩
      change (s.plain before).submit request = (s.submit request).plain before
      have hrunning : ¬ (s.plain before).worker.phase = .stopped := hstopped
      rw [submit, submit, if_neg hstopped, if_neg hrunning]
      rfl
  | rebind snapshot => exact ⟨before, rfl, .nil⟩
  | poll => exact ⟨[], rfl, .nil⟩
  | work fault =>
    obtain ⟨cached, plain, hmirrors⟩ := mirrors_work fault before hs
    refine ⟨before ++ plain, hmirrors.mirrored, ?_⟩
    have hcached : s.emissions (.work fault) = cached.map (Emission.mk s.worker.snapshot) := by
      simp only [emissions, hmirrors.sent, List.drop_left]
    have hplain : (s.plain before).emissions (.work fault) =
        plain.map (Emission.mk s.worker.snapshot) := by
      change (((s.plain before).work fault).responses.drop before.length).map _ = _
      rw [hmirrors.mirrored]
      change ((before ++ plain).drop before.length).map _ = _
      rw [List.drop_left]
      rfl
    rw [hcached, hplain, List.forall₂_map_left_iff, List.forall₂_map_right_iff]
    exact hmirrors.spared.imp fun _ _ hspared => ⟨rfl, hspared⟩

def faults (events : List RenderEvent) : List String := events.filterMap faultOf

/-- The same response under the same snapshot, unless a fault of the run stopped the plain worker
where the cached one still had the tile. -/
def SparedBy (faults : List String) (cached plain : Emission) : Prop :=
  cached.snapshot = plain.snapshot ∧ (cached.response = plain.response ∨
    ∃ request tile, ∃ reason ∈ faults, cached.response = .ready request tile ∧
      plain.response = .failed request reason)

omit [Pdfium] in
theorem SparesEmission.sparedBy {event : RenderEvent} {events : List RenderEvent}
    {cached plain : Emission} (hevent : event ∈ events)
    (h : SparesEmission (faultOf event) cached plain) : SparedBy (faults events) cached plain := by
  obtain ⟨hsnapshot, hsame | ⟨request, tile, reason, hfault, hcached, hplain⟩⟩ := h
  · exact ⟨hsnapshot, .inl hsame⟩
  · exact ⟨hsnapshot, .inr ⟨request, tile, reason,
      List.mem_filterMap.2 ⟨event, hevent, hfault⟩, hcached, hplain⟩⟩

theorem plain_trace {s : RenderSystem} (hs : s.worker.Fresh) {events all : List RenderEvent}
    (hevents : events ⊆ all) (hcareful : s.CarefulRun events) (before : List RenderResponse) :
    List.Forall₂ (SparedBy (faults all)) (s.trace events) ((s.plain before).trace events) := by
  induction events generalizing s before with
  | nil => exact .nil
  | cons event events ih =>
    obtain ⟨hmem, hrest⟩ := List.cons_subset.1 hevents
    obtain ⟨hfresh, after, hstep, hspared⟩ := plain_step hs hcareful.1 before
    rw [trace, trace, hstep]
    exact List.rel_append (hspared.imp fun _ _ h => h.sparedBy hmem) (ih hfresh hrest hcareful.2 after)

/-- In every run in which no rebind finds, under its own revision, a cached tile that it would draw
otherwise, a service sends what a service without a tile cache sends: response for response, in the
same order and under the same snapshots, except where Pdfium fails on a page whose tile is still
cached. -/
theorem tile_cache_is_invisible (snapshot : DocumentSnapshot) (events : List RenderEvent)
    (hcareful : (start snapshot).CarefulRun events) :
    List.Forall₂ (SparedBy (faults events)) ((start snapshot).trace events)
      (((start snapshot).plain []).trace events) ∧
    (faults events = [] →
      ((start snapshot).plain []).trace events = (start snapshot).trace events) := by
  have hspared := plain_trace (Worker.fresh_start snapshot) (List.Subset.refl events) hcareful []
  refine ⟨hspared, fun hnone => ?_⟩
  rw [hnone] at hspared
  have hsame : List.Forall₂ Eq ((start snapshot).trace events)
      (((start snapshot).plain []).trace events) := hspared.imp fun cached plain h => by
    obtain ⟨hsnapshot, hresponse | ⟨_, _, _, hmem, -⟩⟩ := h
    · cases cached
      cases plain
      cases hsnapshot
      cases hresponse
      rfl
    · cases hmem
  exact (List.forall₂_eq_eq_eq ▸ hsame).symm

end RenderSystem
end Pdfium

namespace RenderSystem

open scoped BlankPdfium
open TurnedPage (ask turn opened)

/-- A page asked for twice, turned and asked for again. -/
theorem turned_page_is_sent_as_without_a_cache :
    ((start opened).plain []).trace (ask 0 ++ ask 0 ++ turn ++ ask 1) =
      (start opened).trace (ask 0 ++ ask 0 ++ turn ++ ask 1) ∧
    ((start opened).trace (ask 0 ++ ask 0 ++ turn ++ ask 1)).length = 3 :=
  ⟨(tile_cache_is_invisible opened _ (by decide +kernel)).2 rfl, by decide +kernel⟩

end RenderSystem
end OpdfEditor
