import OpdfEditor.Render
import Mathlib.Data.List.Sort
import Mathlib.Data.List.MinMax

/-!
The user interface's tile cache, which also tracks which requests are in flight and
which were refused, and the routing of one service's responses to the caches of
several surfaces. A texture is the tile it was made from.
-/
namespace OpdfEditor

def saturatingAdd (a b : Nat) : Nat := min (a + b) (addressLimit - 1)

structure CacheEntry (T : Type) where
  value : T
  bytes : Nat
  lastUsed : Nat

/-- A cache of rendered values, bounded by bytes and evicted least recently used first. -/
structure TileCache (T : Type) where
  entries : List (RenderRequest × CacheEntry T)
  pending : Finset RenderRequest
  failed : Finset RenderRequest
  budgetBytes : Nat
  usedBytes : Nat
  clock : Nat

namespace TileCache

variable {T : Type}

def new (budgetBytes : Nat) : TileCache T := ⟨[], ∅, ∅, budgetBytes, 0, 0⟩

def eraseEntry (request : RenderRequest) (entries : List (RenderRequest × CacheEntry T)) :
    List (RenderRequest × CacheEntry T) := entries.filter fun entry => entry.1 ≠ request

def beginFrame (c : TileCache T) : Nat × TileCache T := (c.clock + 1, { c with clock := c.clock + 1 })

/-- Store a value: its request is no longer in flight and no longer refused. -/
def insert (request : RenderRequest) (value : T) (bytes : Nat) (c : TileCache T) : TileCache T :=
  { c with
    clock := c.clock + 1
    pending := c.pending.erase request
    failed := c.failed.erase request
    entries := (request, ⟨value, bytes, c.clock + 1⟩) :: eraseEntry request c.entries
    usedBytes := saturatingAdd
      (c.usedBytes - ((c.entries.lookup request).map CacheEntry.bytes).getD 0) bytes }

/-- Look an entry up, marking it as used. -/
def get (request : RenderRequest) (c : TileCache T) : Option T × TileCache T :=
  ((c.entries.lookup request).map CacheEntry.value,
    { c with
      clock := c.clock + 1
      entries := c.entries.map fun entry =>
        if entry.1 = request then (entry.1, { entry.2 with lastUsed := c.clock + 1 }) else entry })

def contains (request : RenderRequest) (c : TileCache T) : Bool := (c.entries.lookup request).isSome

/-- Whether a request still needs rasterizing: not cached, not in flight, not refused. -/
def wants (request : RenderRequest) (c : TileCache T) : Bool :=
  !c.contains request && request ∉ c.pending && request ∉ c.failed

/-- Record a request as submitted, answering whether it should be. -/
def markPending (request : RenderRequest) (c : TileCache T) : Bool × TileCache T :=
  if c.wants request then (true, { c with pending := Insert.insert request c.pending }) else (false, c)

def isPending (request : RenderRequest) (c : TileCache T) : Bool := request ∈ c.pending

def clearPending (request : RenderRequest) (c : TileCache T) : TileCache T :=
  { c with pending := c.pending.erase request }

def noteFailed (request : RenderRequest) (c : TileCache T) : TileCache T :=
  { c with pending := c.pending.erase request, failed := Insert.insert request c.failed }

def hasFailed (request : RenderRequest) (c : TileCache T) : Bool := request ∈ c.failed

/-- The cached request for a page whose scale is closest to the one wanted. -/
def findNearestScale (document : DocumentId) (page : PageId) (revision : UInt64) (wantedScale : ℚ)
    (c : TileCache T) : Option RenderRequest :=
  ((c.entries.map Prod.fst).filter fun request =>
    request.document = document ∧ request.page = page ∧ request.revision = revision).argmin
      fun request => |request.scale - wantedScale|

/-- Drop everything that belongs to another revision. -/
def retainRevision (revision : UInt64) (c : TileCache T) : TileCache T :=
  { c with
    entries := c.entries.filter fun entry => entry.1.revision = revision
    usedBytes := c.usedBytes -
      ((c.entries.filter fun entry => entry.1.revision ≠ revision).map (·.2.bytes)).foldl saturatingAdd 0
    pending := c.pending.filter fun request => request.revision = revision
    failed := c.failed.filter fun request => request.revision = revision }

def clear (c : TileCache T) : TileCache T :=
  { c with entries := [], pending := ∅, failed := ∅, usedBytes := 0 }

/-- Evict the candidates in order while the cache is over budget. -/
def evictInOrder : List RenderRequest → TileCache T → Nat × TileCache T
  | [], c => (0, c)
  | request :: requests, c =>
    if c.usedBytes ≤ c.budgetBytes then (0, c)
    else
      let rest := evictInOrder requests
        { c with
          entries := eraseEntry request c.entries
          usedBytes := c.usedBytes - ((c.entries.lookup request).map CacheEntry.bytes).getD 0 }
      (rest.1 + (if c.contains request then 1 else 0), rest.2)

/-- What may be evicted, least recently used first: nothing used since `protectedSince`. -/
def evictionCandidates (protectedSince : Nat) (c : TileCache T) : List RenderRequest :=
  ((c.entries.filter fun entry => entry.2.lastUsed < protectedSince).insertionSort
    fun a b => a.2.lastUsed ≤ b.2.lastUsed).map Prod.fst

/-- Evict until the cache is within budget, answering how many entries were dropped. -/
def evictToBudget (protectedSince : Nat) (c : TileCache T) : Nat × TileCache T :=
  evictInOrder (c.evictionCandidates protectedSince) c

/-! ### What each operation does to the three sets -/

@[simp] theorem insert_pending (request : RenderRequest) (value : T) (bytes : Nat) (c : TileCache T) :
    (c.insert request value bytes).pending = c.pending.erase request := rfl
@[simp] theorem insert_failed (request : RenderRequest) (value : T) (bytes : Nat) (c : TileCache T) :
    (c.insert request value bytes).failed = c.failed.erase request := rfl
@[simp] theorem clearPending_pending (request : RenderRequest) (c : TileCache T) :
    (c.clearPending request).pending = c.pending.erase request := rfl
@[simp] theorem clearPending_failed (request : RenderRequest) (c : TileCache T) :
    (c.clearPending request).failed = c.failed := rfl
@[simp] theorem clearPending_entries (request : RenderRequest) (c : TileCache T) :
    (c.clearPending request).entries = c.entries := rfl
@[simp] theorem noteFailed_pending (request : RenderRequest) (c : TileCache T) :
    (c.noteFailed request).pending = c.pending.erase request := rfl
@[simp] theorem noteFailed_failed (request : RenderRequest) (c : TileCache T) :
    (c.noteFailed request).failed = Insert.insert request c.failed := rfl
@[simp] theorem noteFailed_entries (request : RenderRequest) (c : TileCache T) :
    (c.noteFailed request).entries = c.entries := rfl
@[simp] theorem beginFrame_pending (c : TileCache T) : c.beginFrame.2.pending = c.pending := rfl
@[simp] theorem beginFrame_failed (c : TileCache T) : c.beginFrame.2.failed = c.failed := rfl
@[simp] theorem beginFrame_entries (c : TileCache T) : c.beginFrame.2.entries = c.entries := rfl
@[simp] theorem get_pending (request : RenderRequest) (c : TileCache T) :
    (c.get request).2.pending = c.pending := rfl
@[simp] theorem get_failed (request : RenderRequest) (c : TileCache T) :
    (c.get request).2.failed = c.failed := rfl

theorem wants_eq_true {request : RenderRequest} {c : TileCache T} :
    c.wants request = true ↔
      c.contains request = false ∧ request ∉ c.pending ∧ request ∉ c.failed := by
  simp [wants, and_assoc]

theorem markPending_entries (request : RenderRequest) (c : TileCache T) :
    (c.markPending request).2.entries = c.entries := by
  unfold markPending
  split <;> rfl

theorem markPending_failed (request : RenderRequest) (c : TileCache T) :
    (c.markPending request).2.failed = c.failed := by
  unfold markPending
  split <;> rfl

/-- A request that is recorded was not in flight; one that is not leaves the cache alone. -/
theorem markPending_cases (request : RenderRequest) (c : TileCache T) :
    (c.markPending request).1 = true ∧ request ∉ c.pending ∧
      (c.markPending request).2.pending = Insert.insert request c.pending ∨
    c.markPending request = (false, c) := by
  unfold markPending
  split
  · rename_i hwants
    exact .inl ⟨rfl, (wants_eq_true.1 hwants).2.1, rfl⟩
  · exact .inr rfl

/-- Recording one request as in flight makes no other one wanted. -/
theorem wants_of_wants_markPending {request other : RenderRequest} {c : TileCache T}
    (h : (c.markPending request).2.wants other = true) : c.wants other = true := by
  obtain ⟨hcontains, hpending, hfailed⟩ := wants_eq_true.1 h
  rw [markPending_failed] at hfailed
  unfold contains at hcontains
  rw [markPending_entries] at hcontains
  refine wants_eq_true.2 ⟨hcontains, fun hmem => hpending ?_, hfailed⟩
  rcases markPending_cases request c with ⟨-, -, hinsert⟩ | hsame
  · rw [hinsert]
    exact Finset.mem_insert_of_mem hmem
  · rw [hsame]
    exact hmem

/-- Looking an entry up caches nothing and drops nothing. -/
theorem wants_get (request other : RenderRequest) (c : TileCache T) :
    (c.get request).2.wants other = c.wants other := by
  have hcontains : (c.get request).2.contains other = c.contains other := by
    simp only [contains, get]
    induction c.entries with
    | nil => rfl
    | cons entry entries ih =>
      obtain ⟨key, value⟩ := entry
      by_cases hkey : other = key
      · subst hkey
        simp only [List.map_cons]
        split <;> simp
      · have hbeq : (other == key) = false := by simpa using hkey
        simp only [List.map_cons]
        split <;> simpa [List.lookup_cons, hbeq] using ih
  unfold wants
  rw [hcontains]
  rfl

theorem evictInOrder_keeps (requests : List RenderRequest) (c : TileCache T) :
    (evictInOrder requests c).2.pending = c.pending ∧ (evictInOrder requests c).2.failed = c.failed ∧
    (evictInOrder requests c).2.clock = c.clock ∧
    ∀ entry ∈ (evictInOrder requests c).2.entries, entry ∈ c.entries := by
  induction requests generalizing c with
  | nil => exact ⟨rfl, rfl, rfl, fun _ h => h⟩
  | cons request requests ih =>
    unfold evictInOrder
    split
    · exact ⟨rfl, rfl, rfl, fun _ h => h⟩
    · obtain ⟨hpending, hfailed, hclock, hentries⟩ := ih
        { c with
          entries := eraseEntry request c.entries
          usedBytes := c.usedBytes - ((c.entries.lookup request).map CacheEntry.bytes).getD 0 }
      exact ⟨hpending, hfailed, hclock, fun entry h => List.mem_of_mem_filter (hentries entry h)⟩

/-- Eviction only drops cached entries. -/
theorem evictToBudget_keeps (protectedSince : Nat) (c : TileCache T) :
    (c.evictToBudget protectedSince).2.pending = c.pending ∧
    (c.evictToBudget protectedSince).2.failed = c.failed ∧
    (c.evictToBudget protectedSince).2.clock = c.clock ∧
    ∀ entry ∈ (c.evictToBudget protectedSince).2.entries, entry ∈ c.entries :=
  evictInOrder_keeps _ c

def Holds (request : RenderRequest) (value : T) (c : TileCache T) : Prop :=
  ∃ entry, (request, entry) ∈ c.entries ∧ entry.value = value

theorem holds_insert {request request' : RenderRequest} {value value' : T} {bytes : Nat}
    {c : TileCache T} (h : (c.insert request value bytes).Holds request' value') :
    c.Holds request' value' ∨ request' = request ∧ value' = value := by
  obtain ⟨entry, hentry, rfl⟩ := h
  rcases List.mem_cons.1 hentry with heq | hold
  · cases heq
    exact .inr ⟨rfl, rfl⟩
  · exact .inl ⟨entry, List.mem_of_mem_filter hold, rfl⟩

theorem holds_get {request request' : RenderRequest} {value : T} {c : TileCache T}
    (h : (c.get request).2.Holds request' value) : c.Holds request' value := by
  obtain ⟨entry, hentry, rfl⟩ := h
  obtain ⟨⟨key, old⟩, hold, heq⟩ := List.mem_map.1 hentry
  dsimp only at heq
  split at heq
  · cases heq
    exact ⟨_, hold, rfl⟩
  · cases heq
    exact ⟨_, hold, rfl⟩

theorem holds_evictToBudget {protectedSince : Nat} {request : RenderRequest} {value : T}
    {c : TileCache T} (h : (c.evictToBudget protectedSince).2.Holds request value) :
    c.Holds request value := by
  obtain ⟨entry, hentry, hvalue⟩ := h
  exact ⟨entry, (evictToBudget_keeps protectedSince c).2.2.2 _ hentry, hvalue⟩

theorem holds_retainRevision {revision : UInt64} {request : RenderRequest} {value : T}
    {c : TileCache T} :
    (c.retainRevision revision).Holds request value ↔
      c.Holds request value ∧ request.revision = revision := by
  simp only [Holds, retainRevision, List.mem_filter, decide_eq_true_eq]
  constructor
  · rintro ⟨entry, ⟨hentry, hrevision⟩, hvalue⟩
    exact ⟨⟨entry, hentry, hvalue⟩, hrevision⟩
  · rintro ⟨⟨entry, hentry, hvalue⟩, hrevision⟩
    exact ⟨entry, ⟨hentry, hrevision⟩, hvalue⟩

end TileCache

/-! ### Draining the render service -/

abbrev TextureCache := TileCache Tile

structure AbsorbReport where
  stored : Nat
  failed : Nat
  discarded : Nat
  evicted : Nat

def measureTileBytes (tile : Tile) : Nat := tile.width * tile.height * 4

/-- File one response in the cache that owns it. -/
def fileResponse (drawn : DocumentSnapshot) (response : RenderResponse) (cache : TextureCache) :
    TextureCache :=
  let request := response.request
  if request.document ≠ drawn.document ∨ request.revision ≠ drawn.revision then
    cache.clearPending request
  else
    match response with
    | .ready request tile => cache.insert request tile (measureTileBytes tile)
    | .failed request _ => cache.noteFailed request

def countResponse (drawn : DocumentSnapshot) (response : RenderResponse) (report : AbsorbReport) :
    AbsorbReport :=
  let request := response.request
  if request.document ≠ drawn.document ∨ request.revision ≠ drawn.revision then
    { report with discarded := report.discarded + 1 }
  else
    match response with
    | .ready _ _ => { report with stored := report.stored + 1 }
    | .failed _ _ => { report with failed := report.failed + 1 }

/-- The position of the cache that asked, or the first if the request is no longer claimed. -/
def findOwner (request : RenderRequest) (caches : List TextureCache) : Nat :=
  (caches.findIdx? fun cache => cache.isPending request).getD 0

/-- File a response in whichever cache asked for it. -/
def routeResponse (drawn : DocumentSnapshot) (caches : List TextureCache)
    (response : RenderResponse) : List TextureCache :=
  caches.modify (findOwner response.request caches) (fileResponse drawn response)

/-- File every response in whichever cache asked for it, then evict the first cache to budget. -/
def absorbResponsesRouted (caches : List TextureCache) (drawn : DocumentSnapshot)
    (responses : List RenderResponse) (protectedSince : Nat) : AbsorbReport × List TextureCache :=
  let report := if caches.isEmpty then ⟨0, 0, 0, 0⟩
    else responses.foldl (fun report response => countResponse drawn response report) ⟨0, 0, 0, 0⟩
  match responses.foldl (routeResponse drawn) caches with
  | [] => (report, [])
  | canvas :: others =>
    let evicted := canvas.evictToBudget protectedSince
    ({ report with evicted := evicted.1 }, evicted.2 :: others)

end OpdfEditor
