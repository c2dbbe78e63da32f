import OpdfEditor.Render

/-!
The render worker: a bounded backlog served newest first, a tile cache bounded by
bytes, and the loop that takes messages from a channel and answers requests against
the snapshot current when it renders them. Pdfium is a parameter.
-/
namespace OpdfEditor

/-! ### The backlog -/

structure Backlog where
  queued : List RenderRequest
  capacity : Nat

/-- Requests the worker holds before superseding the oldest. -/
def maxBacklog : Nat := 64

namespace Backlog

def withCapacity (capacity : Nat) : Backlog := ⟨[], max capacity 1⟩

/-- Queue a request unless it is queued already. Answers the one evicted to make room. -/
def push (request : RenderRequest) (b : Backlog) : Option RenderRequest × Backlog :=
  if request ∈ b.queued then (none, b)
  else if (b.queued ++ [request]).length > b.capacity then
    ((b.queued ++ [request]).head?, { b with queued := (b.queued ++ [request]).tail })
  else (none, { b with queued := b.queued ++ [request] })

def takeNewest (b : Backlog) : Option (RenderRequest × Backlog) :=
  b.queued.getLast?.map fun request => (request, { b with queued := b.queued.dropLast })

def isEmpty (b : Backlog) : Bool := b.queued.isEmpty

end Backlog

/-! ### The worker's tile cache -/

/-- The worker's `TileCache`: tiles by request, and the requests least recently used first. -/
structure WorkerCache where
  entries : List (RenderRequest × Tile)
  recency : List RenderRequest
  bytes : Nat
  budgetBytes : Nat

def defaultCacheBytes : Nat := 256 * 1024 * 1024

namespace WorkerCache

def withBudget (budgetBytes : Nat) : WorkerCache := ⟨[], [], 0, budgetBytes⟩

def contains (request : RenderRequest) (c : WorkerCache) : Bool :=
  (c.entries.lookup request).isSome

def touch (request : RenderRequest) (c : WorkerCache) : WorkerCache :=
  { c with recency := c.recency.erase request ++ [request] }

/-- The tile cached for a request, now the most recently used. -/
def get (request : RenderRequest) (c : WorkerCache) : Option (Tile × WorkerCache) :=
  (c.entries.lookup request).map fun tile => (tile, c.touch request)

def eraseEntry (request : RenderRequest) (entries : List (RenderRequest × Tile)) :
    List (RenderRequest × Tile) := entries.filter fun entry => entry.1 ≠ request

def evictOldest (c : WorkerCache) : WorkerCache :=
  match c.recency with
  | [] => c
  | oldest :: recency =>
    { c with
      recency
      entries := eraseEntry oldest c.entries
      bytes := c.bytes - ((c.entries.lookup oldest).map fun tile => tile.pixels.length).getD 0 }

/-- Evict until the tile fits, at most as often as there are entries to evict. -/
def makeRoom (tileBytes : Nat) : Nat → WorkerCache → WorkerCache
  | 0, c => c
  | rounds + 1, c =>
    if c.bytes + tileBytes > c.budgetBytes then makeRoom tileBytes rounds c.evictOldest else c

/-- Cache a tile, unless it is larger than the whole budget. -/
def insert (request : RenderRequest) (tile : Tile) (c : WorkerCache) : WorkerCache :=
  if tile.pixels.length > c.budgetBytes then c
  else if c.contains request then c.touch request
  else
    let roomy := makeRoom tile.pixels.length c.recency.length c
    { roomy with
      entries := roomy.entries ++ [(request, tile)]
      recency := roomy.recency ++ [request]
      bytes := roomy.bytes + tile.pixels.length }

def retainRevision (revision : UInt64) (c : WorkerCache) : WorkerCache :=
  let entries := c.entries.filter fun entry => entry.1.revision = revision
  { c with
    entries
    recency := c.recency.filter fun request => request.revision = revision
    bytes := (entries.map fun entry => entry.2.pixels.length).sum }

theorem mem_of_lookup {entries : List (RenderRequest × Tile)} {request : RenderRequest} {tile : Tile}
    (h : entries.lookup request = some tile) : (request, tile) ∈ entries := by
  induction entries with
  | nil => cases h
  | cons entry entries ih =>
    obtain ⟨key, value⟩ := entry
    by_cases hkey : request = key
    · subst hkey
      simp only [List.lookup_cons, beq_self_eq_true, Option.some.injEq] at h
      simp [h]
    · have hbeq : (request == key) = false := by simpa using hkey
      rw [List.lookup_cons, hbeq] at h
      exact List.mem_cons_of_mem _ (ih h)

theorem mem_evictOldest {c : WorkerCache} {entry : RenderRequest × Tile}
    (h : entry ∈ c.evictOldest.entries) : entry ∈ c.entries := by
  unfold evictOldest at h
  split at h
  · exact h
  · exact List.mem_of_mem_filter h

theorem mem_makeRoom {tileBytes rounds : Nat} {c : WorkerCache} {entry : RenderRequest × Tile}
    (h : entry ∈ (makeRoom tileBytes rounds c).entries) : entry ∈ c.entries := by
  induction rounds generalizing c with
  | zero => exact h
  | succ rounds ih =>
    unfold makeRoom at h
    split at h
    · exact mem_evictOldest (ih h)
    · exact h

/-- What is cached after an insertion was cached before or is the tile inserted. -/
theorem mem_insert {request : RenderRequest} {tile : Tile} {c : WorkerCache}
    {entry : RenderRequest × Tile} (h : entry ∈ (c.insert request tile).entries) :
    entry ∈ c.entries ∨ entry = (request, tile) := by
  unfold insert at h
  split at h
  · exact .inl h
  split at h
  · exact .inl h
  · rcases List.mem_append.1 h with h | h
    · exact .inl (mem_makeRoom h)
    · exact .inr (List.mem_singleton.1 h)

theorem mem_retainRevision {revision : UInt64} {c : WorkerCache} {entry : RenderRequest × Tile} :
    entry ∈ (c.retainRevision revision).entries ↔
      entry ∈ c.entries ∧ entry.1.revision = revision := by
  simp [retainRevision]

theorem get_eq_some {request : RenderRequest} {c c' : WorkerCache} {tile : Tile}
    (h : c.get request = some (tile, c')) :
    (request, tile) ∈ c.entries ∧ c'.entries = c.entries := by
  unfold get at h
  cases hlookup : c.entries.lookup request with
  | none => simp [hlookup] at h
  | some found =>
    simp only [hlookup, Option.map_some, Option.some.injEq, Prod.mk.injEq] at h
    obtain ⟨rfl, rfl⟩ := h
    exact ⟨mem_of_lookup hlookup, rfl⟩

end WorkerCache

/-! ### Rasterizing -/

/-- The file Pdfium has open, and what Pdfium does with it. -/
class Pdfium where
  Page : Type
  /-- Positions from here on are beyond what Pdfium can address. -/
  indexLimit : Nat
  page : Nat → Except String Page
  /-- The rotation the file records for a page, which Pdfium applies by itself. -/
  rotation : Page → Except String Rotation
  /-- The pixels of a page at a width and a height, turned by a further rotation. -/
  render : Page → Nat → Nat → Rotation → Except String (List UInt8)

namespace BlankPdfium

/-- White pages, upright in the file. -/
scoped instance : Pdfium where
  Page := Unit
  indexLimit := 65536
  page _ := .ok ()
  rotation _ := .ok .none
  render _ width height _ := .ok (List.replicate (width * height * 4) 255)

end BlankPdfium

section Pdfium

variable [Pdfium]

/-- The rotation Pdfium must apply on top of the one already stored in the file. -/
def computeResidualRotation (total fileRotation : Rotation) : Except String Rotation :=
  let degrees := total.degrees - fileRotation.degrees
  match Rotation.fromDegrees degrees with
  | .ok rotation => .ok rotation
  | .error e => .error s!"cannot express a rotation of {degrees} degrees: {e.display}"

/-- Pixel counts Pdfium takes are signed 32-bit integers. -/
def pixelsLimit : Nat := 2 ^ 31

def rasterizePage (page : Pdfium.Page) (geometry : TileGeometry) (fileRotation : Rotation) :
    Except String Tile :=
  match computeResidualRotation geometry.totalRotation fileRotation with
  | .error reason => .error reason
  | .ok residual =>
    if geometry.widthPx ≥ pixelsLimit then
      .error s!"tile width {geometry.widthPx} exceeds the pixel range pdfium accepts"
    else if geometry.heightPx ≥ pixelsLimit then
      .error s!"tile height {geometry.heightPx} exceeds the pixel range pdfium accepts"
    else
      match Pdfium.render page geometry.widthPx geometry.heightPx residual with
      | .error reason => .error s!"pdfium failed to render the page: {reason}"
      | .ok pixels =>
        match Tile.new geometry.widthPx geometry.heightPx pixels with
        | .error e => .error e.display
        | .ok tile => .ok tile

theorem rasterizePage_dimensions {page : Pdfium.Page} {geometry : TileGeometry}
    {fileRotation : Rotation} {tile : Tile}
    (h : rasterizePage page geometry fileRotation = .ok tile) :
    tile.width = geometry.widthPx ∧ tile.height = geometry.heightPx := by
  unfold rasterizePage at h
  split at h
  · cases h
  split at h
  · cases h
  split at h
  · cases h
  split at h
  · cases h
  split at h
  · cases h
  · rename_i hnew
    cases h
    exact Tile.new_dimensions hnew

/-! ### The worker -/

/-- Where each page sits in the file, taken from the snapshot it was opened with. -/
def mapFileIndices (snapshot : DocumentSnapshot) : List (PageId × Nat) :=
  snapshot.pages.zipIdx.map fun (page, position) => (page.id, position)

def findPage (snapshot : DocumentSnapshot) (request : RenderRequest) : Option PageInfo :=
  snapshot.pages.find? fun page => page.id = request.page

def answerRequest (fault : Option String) (snapshot : DocumentSnapshot)
    (fileIndices : List (PageId × Nat)) (request : RenderRequest) : RenderResponse :=
  match findPage snapshot request with
  | none => .failed request s!"unknown page {PageId.display request.page}"
  | some info =>
    match computeTileGeometry info request with
    | .error reason => .failed request reason
    | .ok geometry =>
      match fileIndices.lookup request.page with
      | none => .failed request s!"page {PageId.display request.page} is not in the file this service opened — it was created after the document was opened, and an unsaved page has nothing to rasterize"
      | some position =>
        if position ≥ Pdfium.indexLimit then
          .failed request s!"page position {position} is beyond the range pdfium can address"
        else
          match Pdfium.page position with
          | .error reason => .failed request s!"pdfium has no page at index {position}: {reason}"
          | .ok page =>
            match Pdfium.rotation page with
            | .error reason =>
              .failed request s!"pdfium could not report the rotation of page {position}: {reason}"
            | .ok fileRotation =>
              match fault with
              | some reason => .failed request reason
              | none =>
                match rasterizePage page geometry fileRotation with
                | .ok tile => .ready request tile
                | .error reason => .failed request reason

end Pdfium

/-- What the handle sends the worker. -/
inductive WorkerMessage where
  | render (request : RenderRequest)
  | rebind (snapshot : DocumentSnapshot)
  | shutdown

/-- Where the worker's loop stands. -/
inductive Phase where
  /-- At the head of the loop: about to block if there is nothing to do. -/
  | receiving
  /-- Taking everything that has already arrived. -/
  | draining
  | serving
  /-- The document never opened: every request is answered with the reason. -/
  | failing (reason : String)
  | stopped
  deriving DecidableEq

structure Worker where
  snapshot : DocumentSnapshot
  fileIndices : List (PageId × Nat)
  backlog : Backlog
  cache : WorkerCache
  shuttingDown : Bool
  phase : Phase

namespace Worker

def start (snapshot : DocumentSnapshot) : Worker where
  snapshot
  fileIndices := mapFileIndices snapshot
  backlog := .withCapacity maxBacklog
  cache := .withBudget defaultCacheBytes
  shuttingDown := false
  phase := .receiving

def supersededReason : String :=
  s!"superseded: more than {maxBacklog} render requests were queued ahead of this one"

def reboundReason (old new : UInt64) : String :=
  s!"superseded by a rebind: the document moved from revision {old} to revision {new} while this request was queued, and answering it now would return the new revision's geometry"

/-- Apply one message. A request evicted is answered at once, and a rebind answers everything
queued before the snapshot moves. -/
def acceptMessage (message : WorkerMessage) (w : Worker) : List RenderResponse × Worker :=
  match message with
  | .render request =>
    let pushed := w.backlog.push request
    (pushed.1.toList.map fun superseded => .failed superseded supersededReason,
      { w with backlog := pushed.2 })
  | .rebind replacement =>
    (w.backlog.queued.reverse.map fun superseded =>
        .failed superseded (reboundReason w.snapshot.revision replacement.revision),
      { w with
        backlog := { w.backlog with queued := [] }
        snapshot := replacement
        cache := w.cache.retainRevision replacement.revision })
  | .shutdown => ([], { w with shuttingDown := true })

def serveRequest [Pdfium] (fault : Option String) (request : RenderRequest) (w : Worker) :
    RenderResponse × Worker :=
  match w.cache.get request with
  | some (tile, cache) => (.ready request tile, { w with cache })
  | none =>
    match answerRequest fault w.snapshot w.fileIndices request with
    | .ready request tile => (.ready request tile, { w with cache := w.cache.insert request tile })
    | .failed request reason => (.failed request reason, w)

end Worker

/-- A service: the handle's two channels, oldest first, and the worker between them. -/
structure RenderSystem where
  requests : List WorkerMessage
  worker : Worker
  responses : List RenderResponse
  /-- Responses of the handle itself, once the worker is gone. -/
  outbox : List RenderResponse

namespace RenderSystem

def start (snapshot : DocumentSnapshot) : RenderSystem := ⟨[], .start snapshot, [], []⟩

def startFailing (snapshot : DocumentSnapshot) (reason : String) : RenderSystem :=
  ⟨[], { Worker.start snapshot with phase := .failing reason }, [], []⟩

def send (message : WorkerMessage) (s : RenderSystem) : RenderSystem :=
  { s with requests := s.requests ++ [message] }

def submit (request : RenderRequest) (s : RenderSystem) : RenderSystem :=
  if s.worker.phase = .stopped then
    { s with outbox := s.outbox ++ [.failed request "the render worker is no longer running"] }
  else s.send (.render request)

def rebind (snapshot : DocumentSnapshot) (s : RenderSystem) : RenderSystem := s.send (.rebind snapshot)

def poll (s : RenderSystem) : List RenderResponse × RenderSystem :=
  (s.outbox ++ s.responses, { s with responses := [], outbox := [] })

instance : RenderService RenderSystem := ⟨submit, poll⟩

def accept (message : WorkerMessage) (requests : List WorkerMessage) (s : RenderSystem) :
    RenderSystem :=
  let accepted := s.worker.acceptMessage message
  { s with
    requests
    worker := { accepted.2 with phase := .draining }
    responses := s.responses ++ accepted.1 }

def enter (phase : Phase) (s : RenderSystem) : RenderSystem :=
  { s with worker := { s.worker with phase } }

def serve [Pdfium] (fault : Option String) (request : RenderRequest) (backlog : Backlog)
    (s : RenderSystem) : RenderSystem :=
  let served := { s.worker with backlog }.serveRequest fault request
  { s with
    worker := { served.2 with phase := .receiving }
    responses := s.responses ++ [served.1] }

def turnAway (reason : String) (message : WorkerMessage) (requests : List WorkerMessage)
    (s : RenderSystem) : RenderSystem :=
  match message with
  | .render request => { s with requests, responses := s.responses ++ [.failed request reason] }
  | .rebind _ => { s with requests }
  | .shutdown => { s with requests, worker := { s.worker with phase := .stopped } }

/-- One step of the worker's thread; a worker with nothing to do stays where it is. -/
def work [Pdfium] (fault : Option String) (s : RenderSystem) : RenderSystem :=
  match s.worker.phase with
  | .receiving =>
    if s.worker.backlog.isEmpty then
      match s.requests with
      | [] => s
      | message :: requests => s.accept message requests
    else s.enter .draining
  | .draining =>
    match s.requests with
    | message :: requests => s.accept message requests
    | [] => s.enter .serving
  | .serving =>
    if s.worker.shuttingDown then s.enter .stopped
    else
      match s.worker.backlog.takeNewest with
      | none => s.enter .receiving
      | some (request, backlog) => s.serve fault request backlog
  | .failing reason =>
    match s.requests with
    | [] => s
    | message :: requests => s.turnAway reason message requests
  | .stopped => s

/-! ### What a step of the worker can do -/

/-- The message the worker takes at its next step, if its document opened and it takes one. -/
def nextMessage (s : RenderSystem) : Option WorkerMessage :=
  match s.worker.phase with
  | .receiving => if s.worker.backlog.isEmpty then s.requests.head? else none
  | .draining => s.requests.head?
  | _ => none

/-- The request the worker answers at its next step, and the backlog without it. -/
def nextServed (s : RenderSystem) : Option (RenderRequest × Backlog) :=
  match s.worker.phase with
  | .serving => if s.worker.shuttingDown then none else s.worker.backlog.takeNewest
  | _ => none

/-- A step changes the phase alone, takes a message, answers a request, or turns a message away. -/
theorem work_cases [Pdfium] (fault : Option String) (s : RenderSystem) :
    (∃ phase, (phase = .stopped → s.worker.phase = .stopped ∨ s.worker.shuttingDown = true) ∧
      s.work fault = s.enter phase) ∨
    (∃ message requests, s.nextMessage = some message ∧ s.requests = message :: requests ∧
      s.work fault = s.accept message requests) ∨
    (∃ request backlog, s.nextServed = some (request, backlog) ∧
      s.worker.backlog.takeNewest = some (request, backlog) ∧
      s.work fault = s.serve fault request backlog) ∨
    ∃ reason message requests, s.worker.phase = .failing reason ∧
      s.requests = message :: requests ∧ s.work fault = s.turnAway reason message requests := by
  have hidle : ∀ phase, s.worker.phase = phase → s.enter phase = s := by
    rintro _ rfl
    rfl
  cases hphase : s.worker.phase with
  | receiving =>
    by_cases hempty : s.worker.backlog.isEmpty = true
    · cases hrequests : s.requests with
      | nil =>
        refine .inl ⟨.receiving, nofun, ?_⟩
        rw [hidle _ hphase]
        simp [work, hphase, hempty, hrequests]
      | cons message requests =>
        exact .inr (.inl ⟨message, requests, by simp [nextMessage, hphase, hempty, hrequests], rfl,
          by simp [work, hphase, hempty, hrequests]⟩)
    · exact .inl ⟨.draining, nofun, by simp [work, hphase, hempty]⟩
  | draining =>
    cases hrequests : s.requests with
    | nil => exact .inl ⟨.serving, nofun, by simp [work, hphase, hrequests]⟩
    | cons message requests =>
      exact .inr (.inl ⟨message, requests, by simp [nextMessage, hphase, hrequests], rfl,
        by simp [work, hphase, hrequests]⟩)
  | serving =>
    by_cases hdown : s.worker.shuttingDown = true
    · exact .inl ⟨.stopped, fun _ => .inr hdown, by simp [work, hphase, hdown]⟩
    cases hnewest : s.worker.backlog.takeNewest with
    | none => exact .inl ⟨.receiving, nofun, by simp [work, hphase, hdown, hnewest]⟩
    | some taken =>
      obtain ⟨request, backlog⟩ := taken
      exact .inr (.inr (.inl ⟨request, backlog, by simp [nextServed, hphase, hdown, hnewest], rfl,
        by simp [work, hphase, hdown, hnewest]⟩))
  | failing reason =>
    cases hrequests : s.requests with
    | nil =>
      refine .inl ⟨.failing reason, nofun, ?_⟩
      rw [hidle _ hphase]
      simp [work, hphase, hrequests]
    | cons message requests =>
      exact .inr (.inr (.inr ⟨reason, message, requests, rfl, rfl,
        by simp [work, hphase, hrequests]⟩))
  | stopped =>
    refine .inl ⟨.stopped, fun _ => .inl rfl, ?_⟩
    rw [hidle _ hphase]
    simp [work, hphase]

end RenderSystem
end OpdfEditor
