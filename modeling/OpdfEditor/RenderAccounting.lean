import OpdfEditor.Ledger
import OpdfEditor.RevisionHonesty

/-!
Every request put to a service is answered. A request is due while it is in the channel
or in the backlog; being served, evicted, drained by a rebind or turned away answers it,
and queueing it where it is queued already merges it.
-/
namespace OpdfEditor

open Ledger (Entry Books)

section Pdfium

variable [Pdfium]

/-- What an observer of both ends of a service sees. -/
inductive Occurrence where
  | submitted (request : RenderRequest)
  | sent (response : RenderResponse)

omit [Pdfium] in
/-- As an entry in the books. -/
def Occurrence.entry : Occurrence → Entry RenderRequest
  | submitted request => .asked request
  | sent response => .answered response.request

def WorkerMessage.asked : WorkerMessage → Option RenderRequest
  | .render request => some request
  | .rebind _ | .shutdown => none

namespace RenderSystem

/-- What happens at either end of a service in one step. -/
def occurrences (event : RenderEvent) (s : RenderSystem) : List Occurrence :=
  match event with
  | .submit request => [.submitted request]
  | .rebind _ | .poll => []
  | .work _ => (s.emissions event).map fun emission => .sent emission.response

def history : RenderSystem → List RenderEvent → List Occurrence
  | _, [] => []
  | s, event :: events => s.occurrences event ++ (s.step event).history events

def run (s : RenderSystem) (events : List RenderEvent) : RenderSystem :=
  events.foldl (fun s event => s.step event) s

omit [Pdfium] in
/-- The requests no response has been sent to. -/
def due (s : RenderSystem) : Multiset RenderRequest :=
  ↑(s.requests.filterMap WorkerMessage.asked) + ↑s.worker.backlog.queued

omit [Pdfium] in
/-- Nobody told the worker to stop, and its backlog keeps to its bound without repeating itself. -/
structure Orderly (s : RenderSystem) : Prop where
  running : s.worker.phase ≠ .stopped
  unasked : s.worker.shuttingDown = false
  messages : .shutdown ∉ s.requests
  capacity : s.worker.backlog.capacity = maxBacklog
  bounded : s.worker.backlog.queued.length ≤ maxBacklog
  nodup : s.worker.backlog.queued.Nodup

/-! ### The backlog -/

omit [Pdfium] in
/-- A request is merged, or queued behind what was queued, of which the oldest may have to go. -/
theorem push_cases (request : RenderRequest) (b : Backlog) :
    (request ∈ b.queued ∧ b.push request = (none, b)) ∨
    (request ∉ b.queued ∧ ∃ evicted queued, b.queued ++ [request] = evicted :: queued ∧
      b.push request = (some evicted, { b with queued }) ∧ queued.length = b.queued.length) ∨
    (request ∉ b.queued ∧ b.push request = (none, { b with queued := b.queued ++ [request] }) ∧
      (b.queued ++ [request]).length ≤ b.capacity) := by
  unfold Backlog.push
  by_cases hmem : request ∈ b.queued
  · exact .inl ⟨hmem, if_pos hmem⟩
  rw [if_neg hmem]
  by_cases hfull : (b.queued ++ [request]).length > b.capacity
  · rw [if_pos hfull]
    cases hqueue : b.queued ++ [request] with
    | nil => simp at hqueue
    | cons evicted queued =>
      refine .inr (.inl ⟨hmem, evicted, queued, rfl, rfl, ?_⟩)
      have hlength := congrArg List.length hqueue
      simp only [List.length_append, List.length_cons, List.length_nil] at hlength
      omega
  · rw [if_neg hfull]
    exact .inr (.inr ⟨hmem, rfl, by omega⟩)

omit [Pdfium] in
theorem takeNewest_eq_some {request : RenderRequest} {b b' : Backlog}
    (h : b.takeNewest = some (request, b')) :
    b.queued = b'.queued ++ [request] ∧ b'.capacity = b.capacity := by
  unfold Backlog.takeNewest at h
  obtain ⟨newest, hnewest, heq⟩ := Option.map_eq_some_iff.1 h
  cases heq
  exact ⟨(List.dropLast_append_getLast? _ hnewest).symm, rfl⟩

/-! ### One step keeps the books -/

variable {s : RenderSystem} {log : List (Entry RenderRequest)}

omit [Pdfium] in
theorem orderly_start (snapshot : DocumentSnapshot) : (start snapshot).Orderly :=
  ⟨nofun, rfl, nofun, rfl, Nat.zero_le _, List.nodup_nil⟩

omit [Pdfium] in
theorem orderly_startFailing (snapshot : DocumentSnapshot) (reason : String) :
    (startFailing snapshot reason).Orderly :=
  ⟨nofun, rfl, nofun, rfl, Nat.zero_le _, List.nodup_nil⟩

omit [Pdfium] in
theorem Orderly.send (h : s.Orderly) {message : WorkerMessage} (hmessage : message ≠ .shutdown) :
    (s.send message).Orderly := by
  refine ⟨h.running, h.unasked, ?_, h.capacity, h.bounded, h.nodup⟩
  intro hmem
  cases List.mem_append.1 hmem with
  | inl hold => exact h.messages hold
  | inr hnew => exact hmessage (List.mem_singleton.1 hnew).symm

omit [Pdfium] in
theorem due_send (s : RenderSystem) (message : WorkerMessage) :
    (s.send message).due = ↑message.asked.toList + s.due := by
  unfold due send
  rw [List.filterMap_append, ← Multiset.coe_add, add_right_comm, add_comm]
  cases message <;> rfl

omit [Pdfium] in
/-- A request at the front of the channel is due, and so is the rest. -/
theorem due_render {request : RenderRequest} {requests : List WorkerMessage}
    (hrequests : s.requests = .render request :: requests) : s.due = request ::ₘ
      (↑(requests.filterMap WorkerMessage.asked) + ↑s.worker.backlog.queued) := by
  unfold due
  rw [hrequests]
  simp [WorkerMessage.asked, ← Multiset.cons_coe]

omit [Pdfium] in
/-- The worker takes a message off the channel. -/
theorem orderly_accept (h : s.Orderly) {message : WorkerMessage} {requests : List WorkerMessage}
    (hrequests : s.requests = message :: requests) (hbooks : Books log s.due) :
    (s.accept message requests).Orderly ∧
    Books (log ++ (s.worker.acceptMessage message).1.map fun response => .answered response.request)
      (s.accept message requests).due := by
  have hrest : .shutdown ∉ requests := fun hmem => h.messages (by simp [hrequests, hmem])
  cases message with
  | render request =>
    rw [due_render hrequests] at hbooks
    have hfresh : request ∉ s.worker.backlog.queued → (s.worker.backlog.queued ++ [request]).Nodup := by
      intro hmem
      exact (List.perm_append_singleton request _).nodup_iff.2 (List.nodup_cons.2 ⟨hmem, h.nodup⟩)
    rcases push_cases request s.worker.backlog with ⟨hmem, hpush⟩ |
      ⟨hmem, evicted, queued, hqueue, hpush, hlength⟩ | ⟨hmem, hpush, hfits⟩
    · refine ⟨⟨(fun heq => by cases heq), h.unasked, hrest, ?_, ?_, ?_⟩, ?_⟩
      · simpa [accept, Worker.acceptMessage, hpush] using h.capacity
      · simpa [accept, Worker.acceptMessage, hpush] using h.bounded
      · simpa [accept, Worker.acceptMessage, hpush] using h.nodup
      · have hmerged := hbooks.merge (Multiset.mem_add.2 (.inr hmem))
        simpa [accept, Worker.acceptMessage, hpush, due] using hmerged
    · have hnodup : (evicted :: queued).Nodup := hqueue ▸ hfresh hmem
      refine ⟨⟨(fun heq => by cases heq), h.unasked, hrest, ?_, ?_, ?_⟩, ?_⟩
      · simpa [accept, Worker.acceptMessage, hpush] using h.capacity
      · simpa [accept, Worker.acceptMessage, hpush, hlength] using h.bounded
      · simpa [accept, Worker.acceptMessage, hpush] using (List.nodup_cons.1 hnodup).2
      · have hperm : (request ::ₘ (↑(requests.filterMap WorkerMessage.asked) +
            ↑s.worker.backlog.queued) : Multiset RenderRequest) =
            evicted ::ₘ (↑(requests.filterMap WorkerMessage.asked) + ↑queued) := by
          rw [← Multiset.add_cons, ← Multiset.add_cons, Multiset.cons_coe, Multiset.cons_coe,
            ← hqueue, Multiset.coe_eq_coe.2 (List.perm_append_singleton request _).symm]
        rw [hperm] at hbooks
        simpa [accept, Worker.acceptMessage, hpush, due, RenderResponse.request] using hbooks.answer
    · refine ⟨⟨(fun heq => by cases heq), h.unasked, hrest, ?_, ?_, ?_⟩, ?_⟩
      · simpa [accept, Worker.acceptMessage, hpush] using h.capacity
      · have hfits' := h.capacity ▸ hfits
        simpa [accept, Worker.acceptMessage, hpush] using hfits'
      · simpa [accept, Worker.acceptMessage, hpush] using hfresh hmem
      · have hperm : (request ::ₘ (↑(requests.filterMap WorkerMessage.asked) +
            ↑s.worker.backlog.queued) : Multiset RenderRequest) =
            ↑(requests.filterMap WorkerMessage.asked) + ↑(s.worker.backlog.queued ++ [request]) := by
          rw [← Multiset.add_cons, Multiset.cons_coe,
            Multiset.coe_eq_coe.2 (List.perm_append_singleton request _)]
        rw [hperm] at hbooks
        simpa [accept, Worker.acceptMessage, hpush, due] using hbooks
  | rebind replacement =>
    refine ⟨⟨(fun heq => by cases heq), h.unasked, hrest, h.capacity, Nat.zero_le _, List.nodup_nil⟩, ?_⟩
    have hdue : s.due = ↑s.worker.backlog.queued.reverse +
        ↑(requests.filterMap WorkerMessage.asked) := by
      unfold due
      rw [hrequests, Multiset.coe_eq_coe.2 (List.reverse_perm s.worker.backlog.queued), add_comm]
      rfl
    rw [hdue] at hbooks
    have hall := hbooks.answerAll
    simpa [accept, Worker.acceptMessage, due, Function.comp_def, RenderResponse.request] using hall
  | shutdown => exact absurd (by simp [hrequests]) h.messages

/-- The worker answers the newest request of its backlog. -/
theorem orderly_serve (h : s.Orderly) (fault : Option String) {request : RenderRequest}
    {backlog : Backlog} (hnewest : s.worker.backlog.takeNewest = some (request, backlog))
    (hbooks : Books log s.due) :
    (s.serve fault request backlog).Orderly ∧
      Books (log ++ [.answered request]) (s.serve fault request backlog).due := by
  obtain ⟨hqueue, hcapacity⟩ := takeNewest_eq_some hnewest
  have hserved := serveRequest_backlog fault request { s.worker with backlog }
  have hdown := serveRequest_shuttingDown fault request { s.worker with backlog }
  have hnodup := hqueue ▸ h.nodup
  have hbounded := h.bounded
  rw [hqueue, List.length_append] at hbounded
  refine ⟨⟨(fun heq => by cases heq), ?_, h.messages, ?_, ?_, ?_⟩, ?_⟩
  · exact hdown.trans h.unasked
  · simpa [serve, hserved, hcapacity] using h.capacity
  · simp only [serve, hserved]
    omega
  · simpa [serve, hserved] using (List.nodup_append.1 hnodup).1
  · have hdue : s.due = request ::ₘ
        (↑(s.requests.filterMap WorkerMessage.asked) + ↑backlog.queued) := by
      unfold due
      rw [hqueue, ← Multiset.add_cons, Multiset.cons_coe,
        Multiset.coe_eq_coe.2 (List.perm_append_singleton request _)]
    rw [hdue] at hbooks
    simpa [serve, due, hserved] using hbooks.answer

omit [Pdfium] in
/-- A worker whose document never opened answers the message it takes. -/
theorem orderly_turnAway (h : s.Orderly) (reason : String) {message : WorkerMessage}
    {requests : List WorkerMessage} (hrequests : s.requests = message :: requests)
    (hbooks : Books log s.due) :
    (s.turnAway reason message requests).Orderly ∧
    Books (log ++ message.asked.toList.map .answered) (s.turnAway reason message requests).due := by
  have hrest : .shutdown ∉ requests := fun hmem => h.messages (by simp [hrequests, hmem])
  cases message with
  | render request =>
    refine ⟨⟨h.running, h.unasked, hrest, h.capacity, h.bounded, h.nodup⟩, ?_⟩
    rw [due_render hrequests] at hbooks
    simpa [turnAway, due, WorkerMessage.asked] using hbooks.answer
  | rebind replacement =>
    refine ⟨⟨h.running, h.unasked, hrest, h.capacity, h.bounded, h.nodup⟩, ?_⟩
    have hdue : s.due = (s.turnAway reason (.rebind replacement) requests).due := by
      unfold due turnAway
      rw [hrequests]
      rfl
    rw [hdue] at hbooks
    simpa [WorkerMessage.asked] using hbooks
  | shutdown => exact absurd (by simp [hrequests]) h.messages

/-- One step of anything keeps the books. -/
theorem orderly_step (h : s.Orderly) (event : RenderEvent) (hbooks : Books log s.due) :
    (s.step event).Orderly ∧
      Books (log ++ (s.occurrences event).map Occurrence.entry) (s.step event).due := by
  cases event with
  | submit request =>
    have hstep : s.step (.submit request) = s.send (.render request) := if_neg h.running
    rw [hstep]
    refine ⟨h.send (fun heq => by cases heq), ?_⟩
    rw [due_send]
    simpa [occurrences, Occurrence.entry, WorkerMessage.asked] using hbooks.ask
  | rebind snapshot =>
    refine ⟨h.send (fun heq => by cases heq), ?_⟩
    show Books _ (s.send (.rebind snapshot)).due
    rw [due_send]
    simpa [occurrences, WorkerMessage.asked] using hbooks
  | poll =>
    refine ⟨⟨h.running, h.unasked, h.messages, h.capacity, h.bounded, h.nodup⟩, ?_⟩
    show Books _ s.due
    simpa [occurrences] using hbooks
  | work fault =>
    have hsent : ∀ sent : List RenderResponse, (s.work fault).responses = s.responses ++ sent →
        (s.occurrences (.work fault)).map Occurrence.entry =
          sent.map fun response => .answered response.request := by
      intro sent hresponses
      simp [occurrences, emissions, hresponses, Function.comp_def, Occurrence.entry]
    show (s.work fault).Orderly ∧ Books _ (s.work fault).due
    rcases work_cases fault s with ⟨phase, hphase, hwork⟩ | ⟨message, requests, -, hrequests, hwork⟩ |
      ⟨request, backlog, -, hnewest, hwork⟩ | ⟨reason, message, requests, -, hrequests, hwork⟩
    · rw [hsent [] (by simp [hwork, enter]), hwork]
      have hsame : (s.enter phase).due = s.due := rfl
      refine ⟨⟨?_, h.unasked, h.messages, h.capacity, h.bounded, h.nodup⟩, by simpa [hsame] using hbooks⟩
      intro hstopped
      cases hphase hstopped with
      | inl hstopped => exact h.running hstopped
      | inr hdown => exact absurd (h.unasked.symm.trans hdown) Bool.false_ne_true
    · rw [hsent _ (by rw [hwork]; rfl), hwork]
      exact orderly_accept h hrequests hbooks
    · rw [hsent [_] (by rw [hwork]; rfl), hwork]
      simpa [request_serveRequest] using orderly_serve h fault hnewest hbooks
    · have hturned := orderly_turnAway h reason hrequests hbooks
      cases message with
      | render request =>
        rw [hsent [.failed request reason] (by rw [hwork]; rfl), hwork]
        exact hturned
      | rebind replacement =>
        rw [hsent [] (by simp [hwork, turnAway]), hwork]
        exact hturned
      | shutdown => exact absurd (by simp [hrequests]) h.messages

/-- Nor does a whole run lose a request. -/
theorem orderly_run (h : s.Orderly) (hbooks : Books log s.due) (events : List RenderEvent) :
    (s.run events).Orderly ∧
      Books (log ++ (s.history events).map Occurrence.entry) (s.run events).due := by
  induction events generalizing s log with
  | nil => simpa [run, history] using ⟨h, hbooks⟩
  | cons event events ih =>
    obtain ⟨horderly, hstep⟩ := orderly_step h event hbooks
    have hrest := ih horderly hstep
    simpa [run, history, List.append_assoc] using hrest

/-! ### What the books say about a service -/

/-- How the requests and the responses of a run match up. -/
structure Accounted (s : RenderSystem) (events : List RenderEvent) : Prop where
  /-- With nothing left to do, every request has been answered since it was submitted. -/
  answered : (s.run events).requests = [] → (s.run events).worker.backlog.queued = [] →
    ∀ before after request, s.history events = before ++ .submitted request :: after →
      ∃ response, .sent response ∈ after ∧ response.request = request
  /-- No request is answered more often than it was submitted. -/
  once : ∀ request, ((s.history events).map Occurrence.entry).count (.answered request) ≤
    ((s.history events).map Occurrence.entry).count (.asked request)
  /-- A response names a request that was submitted before, as it was submitted. -/
  named : ∀ before after response, s.history events = before ++ .sent response :: after →
    .submitted response.request ∈ before
  bounded : (s.run events).worker.backlog.queued.length ≤ (s.run events).worker.backlog.capacity
  distinct : (s.run events).worker.backlog.queued.Nodup

theorem accounted (h : s.Orderly) (hdue : s.due = 0) (events : List RenderEvent) :
    s.Accounted events := by
  have hstart : Books [] s.due := hdue ▸ .start
  obtain ⟨horderly, hbooks⟩ := orderly_run h hstart events
  rw [List.nil_append] at hbooks
  refine ⟨?_, ?_, ?_, ?_, horderly.nodup⟩
  · intro hrequests hqueued before after request hsplit
    have hnone : (s.run events).due = 0 := by simp [due, hrequests, hqueued]
    have hentries : (s.history events).map Occurrence.entry =
        before.map Occurrence.entry ++ .asked request :: after.map Occurrence.entry := by
      simp [hsplit, Occurrence.entry]
    have hsettles := hbooks.settles hentries
    rw [hnone] at hsettles
    obtain ⟨occurrence, hmem, hentry⟩ := List.mem_map.1 (hsettles.resolve_left (Multiset.notMem_zero _))
    cases occurrence with
    | submitted other => cases hentry
    | sent response => exact ⟨response, hmem, Entry.answered.inj hentry⟩
  · intro request
    have hcount := hbooks.count_le request
    omega
  · intro before after response hsplit
    have hentries : (s.history events).map Occurrence.entry =
        before.map Occurrence.entry ++ .answered response.request :: after.map Occurrence.entry := by
      simp [hsplit, Occurrence.entry]
    have hasked := hbooks.asked_before hentries
    obtain ⟨occurrence, hmem, hentry⟩ := List.mem_map.1 hasked
    cases occurrence with
    | submitted other => exact Entry.asked.inj hentry ▸ hmem
    | sent other => cases hentry
  · rw [horderly.capacity]
    exact horderly.bounded

/-- Whatever is submitted, rebound, polled and worked in whatever order, requests and responses
match up; so they do where the document never opened. -/
theorem every_request_is_answered (snapshot : DocumentSnapshot) (events : List RenderEvent) :
    (start snapshot).Accounted events ∧
      ∀ reason, (startFailing snapshot reason).Accounted events :=
  ⟨accounted (orderly_start snapshot) rfl events,
    fun reason => accounted (orderly_startFailing snapshot reason) rfl events⟩

end RenderSystem
end Pdfium
end OpdfEditor
