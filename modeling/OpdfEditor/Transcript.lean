import OpdfEditor.PdfImport
import OpdfEditor.VecDocument

/-!
The in-memory document stands in for a real file: two documents over the same pages give
the same answer to every structural call, and cannot be told apart between calls.
-/
namespace OpdfEditor

inductive PageCall where
  | removePage (id : PageId)
  | restorePage (id : PageId) (atIndex : Nat)
  | movePage (id : PageId) (toIndex : Nat)
  | setRotation (id : PageId) (rotation : Rotation)
  | insertPage (atIndex : Nat) (size : PageSize)

/-- What a caller can read off a document between calls. -/
structure Observation where
  pageIds : List PageId
  page : PageId → Except Error PageInfo
  indexOf : PageId → Except Error Nat
  pageCount : Nat
  revision : UInt64

def Outcome.answer (f : α → β) (outcome : Outcome D α) : Outcome D β :=
  (outcome.1.map f, outcome.2)

section Transcript

variable {D : Type} [Document D]

/-- One call; only an insertion answers with a page. -/
def PageCall.apply (d : D) : PageCall → Outcome D (Option PageId)
  | .removePage id => Outcome.answer (fun _ => none) (Document.removePage id d)
  | .restorePage id atIndex => Outcome.answer (fun _ => none) (Document.restorePage id atIndex d)
  | .movePage id toIndex => Outcome.answer (fun _ => none) (Document.movePage id toIndex d)
  | .setRotation id rotation => Outcome.answer (fun _ => none) (Document.setRotation id rotation d)
  | .insertPage atIndex size => Outcome.answer some (Document.insertPage atIndex size d)

def observe (d : D) : Observation where
  pageIds := Document.pageIds d
  page id := Document.page id d
  indexOf id := Document.indexOf id d
  pageCount := Document.pageCount d
  revision := Document.revision d

/-- What each call answers, and what can be seen after it. -/
def transcript : List PageCall → D → List (Except Error (Option PageId) × Observation)
  | [], _ => []
  | call :: calls, d => ((call.apply d).1, observe (call.apply d).2) :: transcript calls (call.apply d).2

end Transcript

section Agreement

variable {D E : Type} [Document D] [LawfulDocument D] [Document E] [LawfulDocument E]

/-- Two documents over the same pages, at the same revision. -/
structure Agree (d : D) (e : E) : Prop where
  pages : roster d = roster e
  revision : Document.revision d = Document.revision e

theorem Agree.observe_eq {d : D} {e : E} (h : Agree d e) : observe d = observe e := by
  have hpage : (fun id => Document.page id d) = fun id => Document.page id e := by
    funext id
    rw [LawfulDocument.page_eq, LawfulDocument.page_eq, h.pages]
  have hindex : (fun id => Document.indexOf id d) = fun id => Document.indexOf id e := by
    funext id
    rw [LawfulDocument.indexOf_eq, LawfulDocument.indexOf_eq, h.pages]
  unfold observe
  rw [hpage, hindex, LawfulDocument.pageIds_eq, LawfulDocument.pageIds_eq,
    LawfulDocument.pageCount_eq, LawfulDocument.pageCount_eq, h.pages, h.revision]

/-- Two mutations with one specification answer alike and keep the agreement. -/
theorem Agree.mutates {d : D} {e : E} {outcome : Outcome D α} {outcome' : Outcome E α}
    {spec : Except Error (α × Roster PageInfo)} (h : Agree d e)
    (hd : Mutates roster d outcome spec) (he : Mutates roster e outcome' spec) :
    outcome.1 = outcome'.1 ∧ Agree outcome.2 outcome'.2 := by
  cases spec with
  | error error =>
    have hd' : outcome = (.error error, d) := hd
    have he' : outcome' = (.error error, e) := he
    subst hd' he'
    exact ⟨rfl, h⟩
  | ok result =>
    obtain ⟨a, r⟩ := result
    obtain ⟨hok, hroster, hrevision, -⟩ := hd
    obtain ⟨hok', hroster', hrevision', -⟩ := he
    refine ⟨hok.trans hok'.symm, hroster.trans hroster'.symm, ?_⟩
    rw [hrevision, hrevision', h.revision]

theorem Agree.answer {f : α → β} {outcome : Outcome D α} {outcome' : Outcome E α}
    (h : outcome.1 = outcome'.1 ∧ Agree outcome.2 outcome'.2) :
    (outcome.answer f).1 = (outcome'.answer f).1 ∧
      Agree (outcome.answer f).2 (outcome'.answer f).2 :=
  ⟨congrArg (Except.map f) h.1, h.2⟩

/-- One call. -/
theorem Agree.step {d : D} {e : E} (h : Agree d e) (call : PageCall) :
    (call.apply d).1 = (call.apply e).1 ∧ Agree (call.apply d).2 (call.apply e).2 := by
  cases call with
  | removePage id =>
    have he := LawfulDocument.removePage_spec id e
    rw [← h.pages] at he
    exact Agree.answer (h.mutates (LawfulDocument.removePage_spec id d) he)
  | restorePage id atIndex =>
    have he := LawfulDocument.restorePage_spec id atIndex e
    rw [← h.pages] at he
    exact Agree.answer (h.mutates (LawfulDocument.restorePage_spec id atIndex d) he)
  | movePage id toIndex =>
    have he := LawfulDocument.movePage_spec id toIndex e
    rw [← h.pages] at he
    exact Agree.answer (h.mutates (LawfulDocument.movePage_spec id toIndex d) he)
  | setRotation id rotation =>
    have he := LawfulDocument.setRotation_spec id rotation e
    rw [← h.pages] at he
    exact Agree.answer (h.mutates (LawfulDocument.setRotation_spec id rotation d) he)
  | insertPage atIndex size =>
    have he := LawfulDocument.insertPage_spec atIndex size e
    rw [← h.pages] at he
    exact Agree.answer (h.mutates (LawfulDocument.insertPage_spec atIndex size d) he)

/-- A whole run. -/
theorem Agree.transcript_eq {d : D} {e : E} (h : Agree d e) (calls : List PageCall) :
    transcript calls d = transcript calls e := by
  induction calls generalizing d e with
  | nil => rfl
  | cons call calls ih =>
    obtain ⟨hanswer, hagree⟩ := h.step call
    rw [transcript, transcript, hanswer, hagree.observe_eq, ih hagree]

end Agreement

/-- A real file and the in-memory document over the same pages - live and removed, by identity,
size and rotation - answer every sequence of calls alike and look alike after each of them. -/
theorem pdfDocument_refines_vecDocument [Lopdf] (p : PdfDocument) (v : VecDocument)
    (hlive : p.pages.live.map PageSlot.info = v.roster.live)
    (hremoved : p.pages.removed.map PageSlot.info = v.roster.removed)
    (hnext : p.pages.next = v.roster.next) (hrevision : p.revision = v.revision)
    (calls : List PageCall) :
    observe p = observe v ∧ transcript calls p = transcript calls v := by
  have hagree : Agree p v := by
    refine ⟨?_, hrevision⟩
    exact Roster.ext hlive hremoved hnext
  exact ⟨hagree.observe_eq, hagree.transcript_eq calls⟩

section Opened

open scoped ReferenceLopdf

/-- A file of one page just opened, and one page of its size made in memory. -/
theorem pdfDocument_refines_vecDocument_opened :
    ∃ p, PdfDocument.load 1 ImportFixture.plainFile = .ok p ∧
      ∀ calls : List PageCall, observe p = observe (VecDocument.withPages 2 1 .letter) ∧
        transcript calls p = transcript calls (VecDocument.withPages 2 1 .letter) := by
  refine ⟨_, rfl, fun calls => ?_⟩
  exact pdfDocument_refines_vecDocument _ _ (by decide +kernel) (by decide +kernel) rfl rfl calls

end Opened
end OpdfEditor
