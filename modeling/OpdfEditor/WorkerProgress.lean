import OpdfEditor.RenderAccounting

/-!
How long a worker keeps going. Every step of its loop leaves less to do, so one that is left alone
catches up, and one whose handle is dropped stops, having served at most the request it had turned
to.
-/
namespace OpdfEditor

section Pdfium

variable [Pdfium]

namespace RenderSystem

variable {s : RenderSystem}

/-! ### Catching up -/

omit [Pdfium] in
def phaseLeft (s : RenderSystem) : Nat :=
  match s.worker.phase with
  | .receiving => if s.worker.backlog.isEmpty then 0 else 3
  | .draining => 2
  | .serving => 1
  | .failing _ | .stopped => 0

omit [Pdfium] in
/-- A bound on the steps until nothing is left to do: a message costs its taking, and at most one
round of the loop for the request it may carry. -/
def workLeft (s : RenderSystem) : Nat :=
  7 * s.requests.length + 4 * s.worker.backlog.queued.length + s.phaseLeft

omit [Pdfium] in
/-- A service in order whose worker, if its document never opened, has no backlog. -/
structure Steady (s : RenderSystem) : Prop extends Orderly s where
  turningAway : ∀ reason, s.worker.phase = .failing reason → s.worker.backlog.queued = []

omit [Pdfium] in
theorem steady_start (snapshot : DocumentSnapshot) : (start snapshot).Steady :=
  ⟨orderly_start snapshot, nofun⟩

omit [Pdfium] in
theorem steady_startFailing (snapshot : DocumentSnapshot) (reason : String) :
    (startFailing snapshot reason).Steady :=
  ⟨orderly_startFailing snapshot reason, fun _ _ => rfl⟩

omit [Pdfium] in
/-- Taking a message in queues at most one more request. -/
theorem length_accept (s : RenderSystem) (message : WorkerMessage) (requests : List WorkerMessage) :
    (s.accept message requests).worker.backlog.queued.length ≤ s.worker.backlog.queued.length + 1 := by
  cases message with
  | render request =>
    rcases push_cases request s.worker.backlog with ⟨-, hpush⟩ | ⟨-, evicted, queued, -, hpush, hlength⟩ |
      ⟨-, hpush, -⟩
    · simp [accept, Worker.acceptMessage, hpush]
    · simp [accept, Worker.acceptMessage, hpush, hlength]
    · simp [accept, Worker.acceptMessage, hpush]
  | rebind snapshot => simp [accept, Worker.acceptMessage]
  | shutdown => simp [accept, Worker.acceptMessage]

omit [Pdfium] in
theorem exists_books (due : Multiset RenderRequest) : ∃ log, Ledger.Books log due := by
  induction due using Multiset.induction with
  | empty => exact ⟨[], .start⟩
  | cons request due ih =>
    obtain ⟨log, hbooks⟩ := ih
    exact ⟨_, hbooks.ask⟩

theorem Steady.work (h : s.Steady) (fault : Option String) : (s.work fault).Steady := by
  obtain ⟨log, hbooks⟩ := exists_books s.due
  refine ⟨(orderly_step h.toOrderly (.work fault) hbooks).1, fun reason hreason => ?_⟩
  unfold RenderSystem.work at hreason ⊢
  cases hphase : s.worker.phase with
  | receiving =>
    rw [hphase] at hreason
    dsimp only at hreason
    split at hreason
    · split at hreason
      · rw [hphase] at hreason
        cases hreason
      · cases hreason
    · cases hreason
  | draining =>
    rw [hphase] at hreason
    dsimp only at hreason
    split at hreason <;> cases hreason
  | serving =>
    rw [hphase] at hreason
    dsimp only at hreason
    rw [if_neg (by simp [h.unasked])] at hreason
    split at hreason <;> cases hreason
  | failing reason' =>
    have hqueued := h.turningAway reason' hphase
    dsimp only
    split
    · exact hqueued
    · rename_i message requests hrequests
      cases message <;> exact hqueued
  | stopped => exact absurd hphase h.running

/-- A worker with something to do has less to do after each step. -/
theorem workLeft_work (h : s.Steady) (fault : Option String) (hleft : 0 < s.workLeft) :
    (s.work fault).workLeft < s.workLeft := by
  unfold RenderSystem.work
  cases hphase : s.worker.phase with
  | receiving =>
    dsimp only
    by_cases hempty : s.worker.backlog.isEmpty = true
    · rw [if_pos hempty]
      cases hrequests : s.requests with
      | nil => simp [workLeft, phaseLeft, hphase, hempty, hrequests, List.isEmpty_iff.1 hempty] at hleft
      | cons message requests =>
        have hlength := s.length_accept message requests
        have hafter : (s.accept message requests).workLeft =
            7 * requests.length + 4 * (s.accept message requests).worker.backlog.queued.length + 2 := rfl
        have hbefore : s.workLeft =
            7 * (requests.length + 1) + 4 * s.worker.backlog.queued.length + s.phaseLeft := by
          rw [workLeft, hrequests, List.length_cons]
        dsimp only
        omega
    · rw [if_neg hempty]
      simp [workLeft, phaseLeft, enter, hphase, hempty]
  | draining =>
    cases hrequests : s.requests with
    | nil => simp [workLeft, phaseLeft, enter, hphase, hrequests]
    | cons message requests =>
      have hlength := s.length_accept message requests
      have hafter : (s.accept message requests).workLeft =
          7 * requests.length + 4 * (s.accept message requests).worker.backlog.queued.length + 2 := rfl
      have hbefore : s.workLeft =
          7 * (requests.length + 1) + 4 * s.worker.backlog.queued.length + s.phaseLeft := by
        rw [workLeft, hrequests, List.length_cons]
      dsimp only
      omega
  | serving =>
    dsimp only
    rw [if_neg (by simp [h.unasked])]
    cases hnewest : s.worker.backlog.takeNewest with
    | none =>
      have hempty : s.worker.backlog.queued = [] := by
        simpa [Backlog.takeNewest] using hnewest
      simp [workLeft, phaseLeft, enter, hphase, Backlog.isEmpty, hempty]
    | some taken =>
      obtain ⟨request, backlog⟩ := taken
      obtain ⟨hqueue, -⟩ := takeNewest_eq_some hnewest
      have hlength : s.worker.backlog.queued.length = backlog.queued.length + 1 := by
        rw [hqueue, List.length_append, List.length_singleton]
      have hserved := serveRequest_backlog fault request { s.worker with backlog }
      have hafter : (s.serve fault request backlog).workLeft ≤
          7 * s.requests.length + 4 * backlog.queued.length + 3 := by
        simp only [workLeft, phaseLeft, serve, hserved]
        split <;> omega
      have hbefore : s.workLeft =
          7 * s.requests.length + 4 * s.worker.backlog.queued.length + 1 := by
        simp [workLeft, phaseLeft, hphase]
      dsimp only
      omega
  | failing reason =>
    cases hrequests : s.requests with
    | nil => simp [workLeft, phaseLeft, hphase, hrequests, h.turningAway reason hphase] at hleft
    | cons message requests =>
      have hqueued := h.turningAway reason hphase
      have hturned : message ≠ .shutdown := fun hshutdown => h.messages (by simp [hrequests, hshutdown])
      cases message with
      | render request => simp [workLeft, phaseLeft, turnAway, hphase, hrequests, hqueued]
      | rebind snapshot => simp [workLeft, phaseLeft, turnAway, hphase, hrequests, hqueued]
      | shutdown => exact absurd rfl hturned
  | stopped => exact absurd hphase h.running

/-- One with nothing left to do stays where it is. -/
theorem work_of_workLeft (hleft : s.workLeft = 0) (fault : Option String) : s.work fault = s := by
  unfold workLeft at hleft
  have hrequests : s.requests = [] := List.length_eq_zero_iff.1 (by omega)
  have hqueued : s.worker.backlog.queued = [] := List.length_eq_zero_iff.1 (by omega)
  have hphase : s.phaseLeft = 0 := by omega
  unfold phaseLeft at hphase
  unfold RenderSystem.work
  split <;> simp_all [Backlog.isEmpty]

/-- With steps enough a worker has nothing left to do. -/
theorem Steady.catchesUp (h : s.Steady) (faults : List (Option String))
    (hlong : s.workLeft ≤ faults.length) :
    (faults.foldl (fun s fault => s.work fault) s).Steady ∧
      (faults.foldl (fun s fault => s.work fault) s).workLeft = 0 := by
  induction faults generalizing s with
  | nil => exact ⟨h, Nat.le_zero.1 hlong⟩
  | cons fault faults ih =>
    rw [List.length_cons] at hlong
    have hfewer : (s.work fault).workLeft ≤ faults.length := by
      by_cases hleft : s.workLeft = 0
      · rw [work_of_workLeft hleft, hleft]
        exact Nat.zero_le _
      · have hless := workLeft_work h fault (Nat.pos_of_ne_zero hleft)
        omega
    exact ih (h.work fault) hfewer

/-! ### What a step answers was due -/

omit [Pdfium] in
/-- A message that carries no request leaves what is due. -/
theorem due_other {message : WorkerMessage} {requests : List WorkerMessage}
    (hrequests : s.requests = message :: requests) (hasked : message.asked = none) :
    s.due = ↑(requests.filterMap WorkerMessage.asked) + ↑s.worker.backlog.queued := by
  unfold due
  rw [hrequests, List.filterMap_cons_none hasked]

omit [Pdfium] in
theorem coe_concat (queued : List RenderRequest) (request : RenderRequest) :
    (↑(queued ++ [request]) : Multiset RenderRequest) = request ::ₘ ↑queued := by
  rw [Multiset.cons_coe, Multiset.coe_eq_coe]
  exact List.perm_append_singleton request queued

omit [Pdfium] in
theorem accept_answers_due {message : WorkerMessage} {requests : List WorkerMessage}
    (hrequests : s.requests = message :: requests) :
    (↑((s.worker.acceptMessage message).1.map RenderResponse.request) : Multiset RenderRequest) +
      (s.accept message requests).due ≤ s.due := by
  cases message with
  | render request =>
    have hsent : (s.worker.acceptMessage (.render request)).1.map RenderResponse.request =
        (s.worker.backlog.push request).1.toList := by
      rw [Worker.acceptMessage, List.map_map]
      exact List.map_id _
    have hafter : (s.accept (.render request) requests).due =
        ↑(requests.filterMap WorkerMessage.asked) + ↑(s.worker.backlog.push request).2.queued := rfl
    rw [due_render hrequests, hsent, hafter]
    rcases push_cases request s.worker.backlog with ⟨-, hpush⟩ | ⟨-, evicted, queued, hqueue, hpush, -⟩ |
      ⟨-, hpush, -⟩
    · rw [hpush]
      exact (zero_add _).le.trans (Multiset.le_cons_self _ _)
    · have hperm := coe_concat s.worker.backlog.queued request
      rw [hqueue, ← Multiset.cons_coe] at hperm
      rw [hpush, ← Multiset.add_cons, ← hperm, Multiset.add_cons]
      exact (Multiset.singleton_add _ _).le
    · rw [hpush, coe_concat, Multiset.add_cons]
      exact (zero_add _).le
  | rebind snapshot =>
    have hsent : (s.worker.acceptMessage (.rebind snapshot)).1.map RenderResponse.request =
        s.worker.backlog.queued.reverse := by
      rw [Worker.acceptMessage, List.map_map]
      exact List.map_id _
    have hafter : (s.accept (.rebind snapshot) requests).due =
        ↑(requests.filterMap WorkerMessage.asked) := add_zero _
    rw [due_other hrequests rfl, hsent, hafter, Multiset.coe_eq_coe.2 (List.reverse_perm _), add_comm]
  | shutdown =>
    rw [due_other hrequests rfl]
    exact (zero_add _).le

/-- A step answers some of what was due, each request once, and no more is due afterwards. -/
theorem answers_due (s : RenderSystem) (fault : Option String) :
    ∃ sent, (s.work fault).responses = s.responses ++ sent ∧
      (↑(sent.map RenderResponse.request) : Multiset RenderRequest) + (s.work fault).due ≤ s.due := by
  rcases work_cases fault s with ⟨phase, -, hwork⟩ | ⟨message, requests, -, hrequests, hwork⟩ |
    ⟨request, backlog, -, hnewest, hwork⟩ | ⟨reason, message, requests, -, hrequests, hwork⟩
  · rw [hwork]
    exact ⟨[], (List.append_nil _).symm, (zero_add _).le⟩
  · rw [hwork]
    exact ⟨_, rfl, accept_answers_due hrequests⟩
  · obtain ⟨hqueue, -⟩ := takeNewest_eq_some hnewest
    have hserved := serveRequest_backlog fault request { s.worker with backlog }
    rw [hwork]
    refine ⟨[({ s.worker with backlog }.serveRequest fault request).1], rfl, ?_⟩
    simp only [serve, due, hserved, List.map_cons, List.map_nil, request_serveRequest]
    rw [hqueue, coe_concat, Multiset.add_cons]
    exact (Multiset.singleton_add _ _).le
  · rw [hwork]
    cases message with
    | render request =>
      rw [due_render hrequests]
      exact ⟨[.failed request reason], rfl, (Multiset.singleton_add _ _).le⟩
    | rebind snapshot =>
      rw [due_other hrequests rfl]
      exact ⟨[], (List.append_nil _).symm, (zero_add _).le⟩
    | shutdown =>
      rw [due_other hrequests rfl]
      exact ⟨[], (List.append_nil _).symm, (zero_add _).le⟩

/-! ### Being told to stop -/

omit [Pdfium] in
/-- The worker has stopped, is about to, or will be told to by the last message there is. -/
def Told (s : RenderSystem) : Prop :=
  s.worker.phase = .stopped ∨
  (s.worker.shuttingDown = true ∧ s.requests = [] ∧
    (s.worker.phase = .draining ∨ s.worker.phase = .serving)) ∨
  (s.worker.shuttingDown = false ∧ ∃ front, s.requests = front ++ [.shutdown] ∧ .shutdown ∉ front)

omit [Pdfium] in
/-- A bound on the steps until the worker stops. -/
def stopLeft (s : RenderSystem) : Nat :=
  match s.worker.phase with
  | .stopped => 0
  | .failing _ => s.requests.length
  | .receiving => s.requests.length + if s.worker.backlog.isEmpty then 2 else 3
  | .draining => s.requests.length + 2
  | .serving => if s.worker.shuttingDown then 1 else s.requests.length + 4

omit [Pdfium] in
theorem stopLeft_le (s : RenderSystem) : s.stopLeft ≤ s.requests.length + 4 := by
  unfold stopLeft
  cases s.worker.phase with
  | receiving => dsimp only; split <;> omega
  | draining => dsimp only; omega
  | serving => dsimp only; split <;> omega
  | failing reason => exact Nat.le_add_right _ _
  | stopped => exact Nat.zero_le _

omit [Pdfium] in
theorem told_send (h : s.Orderly) : (s.send .shutdown).Told :=
  .inr (.inr ⟨h.unasked, s.requests, rfl, h.messages⟩)

omit [Pdfium] in
/-- Taking in one of the messages before the last leaves the last. -/
theorem told_accept {message : WorkerMessage} {requests front : List WorkerMessage}
    (hdown : s.worker.shuttingDown = false) (hrequests : s.requests = message :: requests)
    (hlast : s.requests = front ++ [.shutdown]) (hfront : .shutdown ∉ front) :
    (s.accept message requests).Told := by
  rw [hrequests] at hlast
  cases front with
  | nil =>
    obtain ⟨rfl, rfl⟩ := List.cons_eq_cons.1 hlast
    exact .inr (.inl ⟨rfl, rfl, .inl rfl⟩)
  | cons first front =>
    obtain ⟨rfl, rfl⟩ := List.cons_eq_cons.1 hlast
    refine .inr (.inr ⟨?_, front, rfl, fun hmem => hfront (List.mem_cons_of_mem _ hmem)⟩)
    cases message with
    | render request => exact hdown
    | rebind snapshot => exact hdown
    | shutdown => exact absurd List.mem_cons_self hfront

omit [Pdfium] in
/-- So does turning one away. -/
theorem told_turnAway {reason : String} {message : WorkerMessage} {requests front : List WorkerMessage}
    (hdown : s.worker.shuttingDown = false) (hphase : s.worker.phase = .failing reason)
    (hrequests : s.requests = message :: requests) (hlast : s.requests = front ++ [.shutdown])
    (hfront : .shutdown ∉ front) :
    (s.turnAway reason message requests).Told ∧ (s.turnAway reason message requests).stopLeft < s.stopLeft ∧
      (s.turnAway reason message requests).nextServed = none := by
  have hbefore : s.stopLeft = requests.length + 1 := by
    rw [stopLeft, hphase, hrequests]
    rfl
  have hnone : ∀ t : RenderSystem, t.worker.phase = .failing reason → t.nextServed = none := by
    intro t ht
    rw [nextServed, ht]
  rw [hbefore]
  rw [hrequests] at hlast
  cases front with
  | nil =>
    obtain ⟨rfl, rfl⟩ := List.cons_eq_cons.1 hlast
    exact ⟨.inl rfl, Nat.zero_lt_one, rfl⟩
  | cons first front =>
    obtain ⟨rfl, rfl⟩ := List.cons_eq_cons.1 hlast
    have hrest : .shutdown ∉ front := fun hmem => hfront (List.mem_cons_of_mem _ hmem)
    cases message with
    | render request =>
      refine ⟨.inr (.inr ⟨hdown, front, rfl, hrest⟩), ?_, hnone _ hphase⟩
      simp [stopLeft, turnAway, hphase]
    | rebind snapshot =>
      refine ⟨.inr (.inr ⟨hdown, front, rfl, hrest⟩), ?_, hnone _ hphase⟩
      simp [stopLeft, turnAway, hphase]
    | shutdown => exact absurd List.mem_cons_self hfront

/-- Each step of a worker that is told to stop brings it nearer to stopping, and after it nothing
more is served. -/
theorem told_work (h : s.Told) (hrunning : s.worker.phase ≠ .stopped) (fault : Option String) :
    (s.work fault).Told ∧ (s.work fault).stopLeft < s.stopLeft ∧ (s.work fault).nextServed = none := by
  rcases h with hstopped | ⟨hdown, hrequests, hphase | hphase⟩ | ⟨hdown, front, hlast, hfront⟩
  · exact absurd hstopped hrunning
  · have hwork : s.work fault = s.enter .serving := by simp [RenderSystem.work, hphase, hrequests]
    rw [hwork]
    refine ⟨.inr (.inl ⟨hdown, hrequests, .inr rfl⟩), ?_, ?_⟩
    · simp [stopLeft, enter, hphase, hdown]
    · simp [nextServed, enter, hdown]
  · have hwork : s.work fault = s.enter .stopped := by simp [RenderSystem.work, hphase, hdown]
    rw [hwork]
    exact ⟨.inl rfl, by simp [stopLeft, enter, hphase, hdown], rfl⟩
  · cases hrequests : s.requests with
    | nil => simp [hrequests] at hlast
    | cons message requests =>
      have haccepted := told_accept hdown hrequests hlast hfront
      have hsame : ∀ phase, (s.enter phase).Told := fun phase => .inr (.inr ⟨hdown, front, hlast, hfront⟩)
      unfold RenderSystem.work
      cases hphase : s.worker.phase with
      | receiving =>
        dsimp only
        by_cases hempty : s.worker.backlog.isEmpty = true
        · rw [if_pos hempty, hrequests]
          refine ⟨haccepted, ?_, rfl⟩
          simp [stopLeft, accept, hphase, hrequests, hempty]
        · rw [if_neg hempty]
          refine ⟨hsame _, ?_, ?_⟩
          · simp [stopLeft, enter, hphase, hempty]
          · rfl
      | draining =>
        rw [hrequests]
        exact ⟨haccepted, by simp [stopLeft, accept, hphase, hrequests], rfl⟩
      | serving =>
        dsimp only
        rw [if_neg (by simp [hdown])]
        cases hnewest : s.worker.backlog.takeNewest with
        | none =>
          refine ⟨hsame _, ?_, rfl⟩
          simp only [stopLeft, enter, hphase, hdown]
          split <;> simp
        | some taken =>
          obtain ⟨request, backlog⟩ := taken
          have hserved := serveRequest_shuttingDown fault request { s.worker with backlog }
          refine ⟨.inr (.inr ⟨hserved.trans hdown, front, hlast, hfront⟩), ?_, rfl⟩
          simp only [stopLeft, serve, hphase, hdown]
          split <;> simp
      | failing reason =>
        rw [hrequests]
        exact told_turnAway hdown hphase hrequests hlast hfront
      | stopped => exact absurd hphase hrunning

end RenderSystem

/-! ### Dropping the handle -/

/-- A service whose handle is being dropped: the worker is told to stop first, and then both ends of
the channels go. -/
structure DroppedService where
  system : RenderSystem
  /-- Whether the end responses are received at is still there. -/
  connected : Bool
  /-- What the worker has served since it was told to stop. -/
  served : List RenderRequest

inductive DropEvent where
  | disconnect
  | work (fault : Option String)

omit [Pdfium] in
def DropEvent.isWork : DropEvent → Bool
  | .work _ => true
  | .disconnect => false

namespace DroppedService

omit [Pdfium] in
def drop (s : RenderSystem) : DroppedService := ⟨s.send .shutdown, true, []⟩

omit [Pdfium] in
/-- Whether the worker gives up when the response of its next step cannot be delivered. It does not
mind for the ones it sends while it takes messages in. -/
def givesUp (s : RenderSystem) : Bool :=
  match s.worker.phase, s.requests with
  | .failing _, .render _ :: _ => true
  | _, _ => s.nextServed.isSome

def workUnheard (fault : Option String) (s : RenderSystem) : RenderSystem :=
  let worked := s.work fault
  { worked with
    responses := s.responses
    worker := if givesUp s then { worked.worker with phase := .stopped } else worked.worker }

def happen (s : DroppedService) : DropEvent → DroppedService
  | .disconnect => { s with connected := false }
  | .work fault =>
    { s with
      system := if s.connected then s.system.work fault else workUnheard fault s.system
      served := s.served ++ (s.system.nextServed.map Prod.fst).toList }

def run (s : DroppedService) (events : List DropEvent) : DroppedService := events.foldl happen s

variable {t : DroppedService}

/-- The step of a worker that nobody hears differs from the plain one in what is delivered, and in
that the worker may stop at once. -/
theorem told_workUnheard {s : RenderSystem} (h : s.Told) (hrunning : s.worker.phase ≠ .stopped)
    (fault : Option String) :
    (workUnheard fault s).Told ∧ (workUnheard fault s).stopLeft < s.stopLeft ∧
      (workUnheard fault s).nextServed = none := by
  obtain ⟨htold, hless, hnone⟩ := RenderSystem.told_work h hrunning fault
  by_cases hgives : givesUp s = true
  · have hstopped : (workUnheard fault s).worker.phase = .stopped := by simp [workUnheard, hgives]
    have hzero : (workUnheard fault s).stopLeft = 0 := by rw [RenderSystem.stopLeft, hstopped]
    refine ⟨.inl hstopped, by omega, by rw [RenderSystem.nextServed, hstopped]⟩
  · have hworker : workUnheard fault s = { s.work fault with responses := s.responses } := by
      simp [workUnheard, hgives]
    rw [hworker]
    exact ⟨htold, hless, hnone⟩

/-- A worker that has stopped stays as it is. -/
theorem happen_stopped (hstopped : t.system.worker.phase = .stopped) (event : DropEvent) :
    (t.happen event).system = t.system ∧ (t.happen event).served = t.served := by
  have hnone : t.system.nextServed = none := by rw [RenderSystem.nextServed, hstopped]
  have hwork : ∀ fault, t.system.work fault = t.system := fun fault => by
    rw [RenderSystem.work, hstopped]
  have hgives : givesUp t.system = false := by simp [givesUp, hstopped, hnone]
  cases event with
  | disconnect => exact ⟨rfl, rfl⟩
  | work fault => cases hconnected : t.connected <;> simp [happen, workUnheard, hwork, hgives, hnone, hconnected]

/-- A step of the worker brings it nearer to stopping, whoever hears it. -/
theorem happen_work (h : t.system.Told) (fault : Option String) :
    (t.happen (.work fault)).system.Told ∧
      (t.happen (.work fault)).system.stopLeft ≤ t.system.stopLeft - 1 ∧
      (t.happen (.work fault)).system.nextServed = none := by
  by_cases hstopped : t.system.worker.phase = .stopped
  · rw [(happen_stopped hstopped _).1]
    have hzero : t.system.stopLeft = 0 := by rw [RenderSystem.stopLeft, hstopped]
    exact ⟨h, by omega, by rw [RenderSystem.nextServed, hstopped]⟩
  · have hheard := RenderSystem.told_work h hstopped fault
    have hunheard := told_workUnheard h hstopped fault
    cases hconnected : t.connected with
    | true =>
      rw [happen, hconnected]
      exact ⟨hheard.1, Nat.le_sub_one_of_lt hheard.2.1, hheard.2.2⟩
    | false =>
      rw [happen, hconnected]
      exact ⟨hunheard.1, Nat.le_sub_one_of_lt hunheard.2.1, hunheard.2.2⟩

/-- Steps enough and the worker has stopped. -/
theorem run_stops (h : t.system.Told) (events : List DropEvent)
    (hlong : t.system.stopLeft ≤ events.countP DropEvent.isWork) :
    (t.run events).system.Told ∧ (t.run events).system.stopLeft = 0 := by
  induction events generalizing t with
  | nil => exact ⟨h, Nat.le_zero.1 hlong⟩
  | cons event events ih =>
    cases event with
    | disconnect => exact ih h hlong
    | work fault =>
      obtain ⟨htold, hless, -⟩ := happen_work h fault
      rw [List.countP_cons_of_pos (by rfl)] at hlong
      exact ih htold (by omega)

omit [Pdfium] in
theorem stopped_of_stopLeft {s : RenderSystem} (h : s.Told) (hzero : s.stopLeft = 0) :
    s.worker.phase = .stopped := by
  rcases h with hstopped | ⟨hdown, -, hphase | hphase⟩ | ⟨-, front, hlast, -⟩
  · exact hstopped
  · simp [RenderSystem.stopLeft, hphase] at hzero
  · simp [RenderSystem.stopLeft, hphase, hdown] at hzero
  · unfold RenderSystem.stopLeft at hzero
    split at hzero
    · assumption
    all_goals (try split at hzero) <;> simp_all

/-- Once nothing is turned to, nothing is served any more. -/
theorem run_serves_nothing (h : t.system.Told) (hnone : t.system.nextServed = none)
    (events : List DropEvent) : (t.run events).served = t.served := by
  induction events generalizing t with
  | nil => rfl
  | cons event events ih =>
    cases event with
    | disconnect => exact ih h hnone
    | work fault =>
      obtain ⟨htold, -, hnone'⟩ := happen_work h fault
      have hserved : (t.happen (.work fault)).served = t.served := by simp [happen, hnone]
      exact (ih htold hnone').trans hserved

/-- Only the request the worker had turned to is served. -/
theorem run_serves_at_most_one (h : t.system.Told) (hserved : t.served = [])
    (events : List DropEvent) :
    (t.run events).served <+: (t.system.nextServed.map Prod.fst).toList := by
  induction events generalizing t with
  | nil =>
    rw [run, List.foldl_nil, hserved]
    exact List.nil_prefix
  | cons event events ih =>
    cases event with
    | disconnect => exact ih (t := { t with connected := false }) h hserved
    | work fault =>
      obtain ⟨htold, -, hnone⟩ := happen_work h fault
      have hrest : (t.run (.work fault :: events)).served = (t.happen (.work fault)).served :=
        run_serves_nothing htold hnone events
      rw [hrest, happen, hserved, List.nil_append]

/-- What a step delivers was due. -/
theorem happen_delivers (t : DroppedService) (event : DropEvent) :
    ∃ sent, (t.happen event).system.responses = t.system.responses ++ sent ∧
      (↑(sent.map RenderResponse.request) : Multiset RenderRequest) + (t.happen event).system.due ≤
        t.system.due := by
  cases event with
  | disconnect => exact ⟨[], (List.append_nil _).symm, (zero_add _).le⟩
  | work fault =>
    obtain ⟨sent, hresponses, hdue⟩ := RenderSystem.answers_due t.system fault
    cases hconnected : t.connected with
    | true =>
      rw [happen, hconnected]
      exact ⟨sent, hresponses, hdue⟩
    | false =>
      have hunheard : (workUnheard fault t.system).due = (t.system.work fault).due := by
        unfold workUnheard RenderSystem.due
        split <;> rfl
      rw [happen, hconnected]
      refine ⟨[], (List.append_nil _).symm, ?_⟩
      change (0 : Multiset RenderRequest) + (workUnheard fault t.system).due ≤ t.system.due
      rw [zero_add, hunheard]
      exact (Multiset.le_add_left _ _).trans hdue

theorem run_delivers (t : DroppedService) (events : List DropEvent) :
    ∃ sent, (t.run events).system.responses = t.system.responses ++ sent ∧
      (↑(sent.map RenderResponse.request) : Multiset RenderRequest) + (t.run events).system.due ≤
        t.system.due := by
  induction events generalizing t with
  | nil => exact ⟨[], (List.append_nil _).symm, (zero_add _).le⟩
  | cons event events ih =>
    obtain ⟨sent, hresponses, hdue⟩ := happen_delivers t event
    obtain ⟨later, hlater, hrest⟩ := ih (t.happen event)
    refine ⟨sent ++ later, ?_, ?_⟩
    · rw [run, List.foldl_cons, ← List.append_assoc, ← hresponses]
      exact hlater
    · rw [List.map_append, ← Multiset.coe_add, add_assoc]
      exact (add_le_add_right hrest _).trans hdue

end DroppedService

/-- Dropping a service at any point of any run stops its worker: it stops within five steps more
than there are messages on their way, it serves at most the one request it had turned to, and what
is delivered before the receiving end goes is an answer to something that was due, each once. -/
theorem dropped_service_stops (snapshot : DocumentSnapshot) (openError : Option String)
    (events : List RenderEvent) (drops : List DropEvent) :
    let s := ((openError.map (RenderSystem.startFailing snapshot)).getD (.start snapshot)).run events
    let t := (DroppedService.drop s).run drops
    (s.requests.length + 5 ≤ drops.countP DropEvent.isWork → t.system.worker.phase = .stopped) ∧
      t.served <+: (s.nextServed.map Prod.fst).toList ∧
      ∃ sent, t.system.responses = s.responses ++ sent ∧
        (↑(sent.map RenderResponse.request) : Multiset RenderRequest) ≤ s.due := by
  intro s t
  have horderly : s.Orderly := by
    cases openError with
    | none =>
      exact (RenderSystem.orderly_run (RenderSystem.orderly_start snapshot) .start events).1
    | some reason =>
      exact (RenderSystem.orderly_run (RenderSystem.orderly_startFailing snapshot reason) .start events).1
  have htold : (DroppedService.drop s).system.Told := RenderSystem.told_send horderly
  refine ⟨fun hlong => ?_, ?_, ?_⟩
  · have hleft : (s.send .shutdown).stopLeft ≤ s.requests.length + 5 := by
      have hbound := RenderSystem.stopLeft_le (s.send .shutdown)
      rwa [RenderSystem.send, List.length_append, List.length_singleton] at hbound
    obtain ⟨hstill, hzero⟩ := DroppedService.run_stops htold drops (hleft.trans hlong)
    exact DroppedService.stopped_of_stopLeft hstill hzero
  · exact DroppedService.run_serves_at_most_one htold rfl drops
  · obtain ⟨sent, hresponses, hdue⟩ := DroppedService.run_delivers (DroppedService.drop s) drops
    have hsame : (DroppedService.drop s).system.due = s.due := by
      rw [DroppedService.drop, RenderSystem.due_send]
      exact zero_add _
    exact ⟨sent, hresponses, (Multiset.le_add_right _ _).trans (hdue.trans hsame.le)⟩

end Pdfium
end OpdfEditor
