import OpdfEditor.CommandSteps
import OpdfEditor.PdfExport
import OpdfEditor.PdfRelocation
import OpdfEditor.PdfResidue

/-!
Saving again. What a save writes is computed from the previous revision and the page
map, neither of which it changes, so the same entries are written over themselves; and
what serialising does to the appended revision is put back.
-/
namespace OpdfEditor

/-! ### Writing entries over themselves -/

namespace Dictionary

def Once (key : String) (d : Dictionary) : Prop := d.countP (·.1 = key) = 1

theorem countP_remove (key : String) (d : Dictionary) : (remove key d).countP (·.1 = key) = 0 := by
  rw [List.countP_eq_zero]
  intro entry hentry
  simpa using (mem_remove.1 hentry).2

theorem countP_remove_of_ne {key key' : String} (h : key' ≠ key) (d : Dictionary) :
    (remove key d).countP (·.1 = key') = d.countP (·.1 = key') := by
  induction d with
  | nil => rfl
  | cons entry d ih =>
    by_cases hkey : entry.1 = key
    · have hne : ¬ entry.1 = key' := fun heq => h (heq.symm.trans hkey)
      rw [List.countP_cons_of_neg (by simpa using hne), ← ih]
      simp [remove, hkey]
    · have hcons : remove key (entry :: d) = entry :: remove key d := by simp [remove, hkey]
      rw [hcons, List.countP_cons, List.countP_cons, ih]

theorem once_set (key : String) (value : Object) (d : Dictionary) : Once key (set key value d) := by
  induction d with
  | nil => simp [Once, set]
  | cons entry d ih =>
    obtain ⟨k, v⟩ := entry
    by_cases h : k = key
    · simp [Once, set, h, countP_remove]
    · simpa [Once, set, h] using ih

theorem countP_set_of_ne {key key' : String} (h : key' ≠ key) (value : Object) (d : Dictionary) :
    (set key value d).countP (·.1 = key') = d.countP (·.1 = key') := by
  induction d with
  | nil => simp [set, Ne.symm h]
  | cons entry d ih =>
    obtain ⟨k, v⟩ := entry
    by_cases hk : k = key
    · subst hk
      simp [set, Ne.symm h, countP_remove_of_ne h]
    · rw [set, if_neg hk, List.countP_cons, List.countP_cons, ih]

theorem Once.set {key : String} {d : Dictionary} (h : Once key d) (key' : String) (value : Object) :
    Once key (set key' value d) := by
  by_cases hkey : key = key'
  · rw [hkey]
    exact once_set key' value d
  · exact (countP_set_of_ne hkey value d).trans h

theorem Once.setAll {key : String} {d : Dictionary} (h : Once key d)
    (entries : List (String × Object)) : Once key (setAll entries d) := by
  induction entries generalizing d with
  | nil => exact h
  | cons entry entries ih => exact ih (h.set entry.1 entry.2)

theorem once_setAll {entries : List (String × Object)} {entry : String × Object}
    (h : entry ∈ entries) (d : Dictionary) : Once entry.1 (setAll entries d) := by
  induction entries generalizing d with
  | nil => cases h
  | cons first entries ih =>
    rcases List.mem_cons.1 h with rfl | hmem
    · exact (once_set entry.1 entry.2 d).setAll entries
    · exact ih hmem _

theorem remove_of_countP {key : String} {d : Dictionary} (h : d.countP (·.1 = key) = 0) :
    remove key d = d := by
  rw [List.countP_eq_zero] at h
  exact List.filter_eq_self.2 fun entry hentry => by simpa using h entry hentry

/-- Writing what is there already changes nothing. -/
theorem set_of_get {key : String} {value : Object} {d : Dictionary} (honce : Once key d)
    (h : get d key = some value) : set key value d = d := by
  induction d with
  | nil => cases h
  | cons entry d ih =>
    obtain ⟨k, v⟩ := entry
    by_cases hk : k = key
    · subst hk
      rw [get_cons, if_pos rfl] at h
      cases h
      have hnone : d.countP (·.1 = k) = 0 := by simpa [Once] using honce
      rw [set, if_pos rfl, remove_of_countP hnone]
    · rw [get_cons, if_neg (Ne.symm hk)] at h
      have honce' : Once key d := by simpa [Once, hk] using honce
      rw [set, if_neg hk, ih honce' h]

/-- The entry written last wins. -/
theorem set_set (key : String) (value value' : Object) (d : Dictionary) :
    set key value' (set key value d) = set key value' d := by
  induction d with
  | nil => simp [set, remove]
  | cons entry d ih =>
    obtain ⟨k, v⟩ := entry
    by_cases h : k = key
    · simp [set, h, remove]
    · simp [set, h, ih]

theorem remove_set_of_ne {key key' : String} (h : key ≠ key') (value : Object) (d : Dictionary) :
    remove key (set key' value d) = set key' value (remove key d) := by
  induction d with
  | nil => simp [set, remove, Ne.symm h]
  | cons entry d ih =>
    obtain ⟨k, v⟩ := entry
    by_cases hk : k = key'
    · subst hk
      have hcons : ∀ v d, remove key ((k, v) :: d) = (k, v) :: remove key d := by
        simp [remove, Ne.symm h]
      rw [set, if_pos rfl, hcons, hcons, set, if_pos rfl]
      simp only [remove, List.filter_filter, Bool.and_comm]
    · by_cases hkey : k = key
      · subst hkey
        have hdrop : ∀ d, remove k ((k, v) :: d) = remove k d := by simp [remove]
        rw [set, if_neg hk, hdrop, hdrop, ih]
      · have hcons : ∀ d, remove key ((k, v) :: d) = (k, v) :: remove key d := by
          simp [remove, hkey]
        rw [set, if_neg hk, hcons, hcons, set, if_neg hk, ih]

/-- Entries that are there already are written in any order. -/
theorem set_comm {key key' : String} (h : key ≠ key') (value value' : Object) {d : Dictionary}
    (honce : Once key d) :
    set key' value' (set key value d) = set key value (set key' value' d) := by
  induction d with
  | nil => simp [Once] at honce
  | cons entry d ih =>
    obtain ⟨k, v⟩ := entry
    by_cases hk : k = key
    · subst hk
      rw [set, if_pos rfl, set, if_neg h, set, if_neg h, set, if_pos rfl, remove_set_of_ne h]
    · have honce' : Once key d := by simpa [Once, hk] using honce
      by_cases hk' : k = key'
      · subst hk'
        rw [set, if_neg hk, set, if_pos rfl, set, if_pos rfl, set, if_neg hk,
          remove_set_of_ne (Ne.symm h)]
      · rw [set, if_neg hk, set, if_neg hk', set, if_neg hk', set, if_neg hk, ih honce']

/-- An entry that is written again later need not be written first. -/
theorem setAll_set {entries : List (String × Object)} {entry : String × Object}
    (h : entry ∈ entries) (value : Object) {d : Dictionary} (honce : Once entry.1 d) :
    setAll entries (set entry.1 value d) = setAll entries d := by
  induction entries generalizing d with
  | nil => cases h
  | cons first entries ih =>
    by_cases hkey : first.1 = entry.1
    · rw [setAll_cons, setAll_cons, ← hkey, set_set]
    · have hmem : entry ∈ entries := by
        rcases List.mem_cons.1 h with rfl | hmem
        · exact absurd rfl hkey
        · exact hmem
      rw [setAll_cons, setAll_cons, set_comm (Ne.symm hkey) _ _ honce]
      exact ih hmem (honce.set first.1 first.2)

/-- A dictionary that holds what is written last already is left as it is. -/
theorem setAll_of_get {entries : List (String × Object)} {d : Dictionary}
    (honce : ∀ entry ∈ entries, Once entry.1 d)
    (h : ∀ entry ∈ entries, get d entry.1 = get entries.reverse entry.1) : setAll entries d = d := by
  induction entries with
  | nil => rfl
  | cons first entries ih =>
    have hget : ∀ key, get (first :: entries).reverse key =
        (get entries.reverse key).or (get [first] key) := by
      intro key
      rw [List.reverse_cons, get, List.lookup_append]
      rfl
    have hrest : setAll entries d = d := by
      refine ih (fun entry hentry => honce entry (List.mem_cons_of_mem _ hentry)) fun entry hentry => ?_
      rw [h entry (List.mem_cons_of_mem _ hentry), hget]
      cases hlast : get entries.reverse entry.1 with
      | none => exact absurd rfl (get_eq_none.1 hlast entry (List.mem_reverse.2 hentry))
      | some value => rfl
    rw [setAll_cons]
    by_cases hlater : ∃ entry ∈ entries, entry.1 = first.1
    · obtain ⟨entry, hentry, hkey⟩ := hlater
      rw [← hkey, setAll_set hentry _ (hkey ▸ honce first List.mem_cons_self), hrest]
    · have hlast : get entries.reverse first.1 = none := by
        rw [get_eq_none]
        intro entry hentry hkey
        exact hlater ⟨entry, List.mem_reverse.1 hentry, hkey⟩
      have hheld := h first List.mem_cons_self
      rw [hget, hlast, Option.none_or, get_cons, if_pos rfl] at hheld
      rw [set_of_get (honce first List.mem_cons_self) hheld, hrest]

/-- Writing the same entries again changes nothing. -/
theorem setAll_setAll (entries : List (String × Object)) (d : Dictionary) :
    setAll entries (setAll entries d) = setAll entries d := by
  refine setAll_of_get (fun entry hentry => once_setAll hentry d) fun entry hentry => ?_
  rw [get_setAll]
  cases hlast : get entries.reverse entry.1 with
  | none => exact absurd rfl (get_eq_none.1 hlast entry (List.mem_reverse.2 hentry))
  | some value => rfl

end Dictionary

/-! ### Writing the pending changes again -/

namespace IncrementalDocument

variable [Lopdf] [LawfulDereference]

/-- Edits that went through go through again, and change nothing. -/
theorem applyEdits_again {edits : List Edit} {d d₁ d₂ : IncrementalDocument}
    (hsettled : ∀ edit ∈ edits, d.Settled edit.target) (h : d.applyEdits edits = (.ok (), d₁))
    (hkept : ∀ edit ∈ edits, d₂.newDocument.objects.lookup edit.target =
      d₁.newDocument.objects.lookup edit.target) : d₂.applyEdits edits = (.ok (), d₂) := by
  have hedited := applyEdits_edited hsettled h
  have hlookup : ∀ edit ∈ edits, ∃ dict, d₂.newDocument.objects.lookup edit.target =
      some (.dictionary (Dictionary.setAll (editsAt edit.target edits) dict)) := by
    intro edit hedit
    obtain ⟨dict, -, hwritten⟩ := hedited.written edit hedit
    exact ⟨dict, (hkept edit hedit).trans hwritten⟩
  have heditable : ∀ edit ∈ edits, ∀ dict, d₂.newDocument.objects.lookup edit.target =
      some (.dictionary dict) → d₂.editable edit.target = some dict := by
    intro edit _ dict hdict
    rw [editable, hdict]
    rfl
  have hsettled₂ : ∀ edit ∈ edits, d₂.Settled edit.target := by
    intro edit hedit object hobject
    obtain ⟨dict, hdict⟩ := hlookup edit hedit
    rw [hdict] at hobject
    cases hobject
    rfl
  obtain ⟨d₃, hagain⟩ := applyEdits_succeeds hsettled₂ fun edit hedit => by
    obtain ⟨dict, hdict⟩ := hlookup edit hedit
    rw [heditable edit hedit _ hdict]
    rfl
  have hedited₂ := applyEdits_edited hsettled₂ hagain
  have hobjects : d₃.newDocument.objects = d₂.newDocument.objects := by
    refine Finmap.ext_lookup fun id => ?_
    by_cases hid : ∃ edit ∈ edits, edit.target = id
    · obtain ⟨edit, hedit, rfl⟩ := hid
      obtain ⟨dict, hdict⟩ := hlookup edit hedit
      obtain ⟨dict', hdict', hwritten⟩ := hedited₂.written edit hedit
      rw [heditable edit hedit _ hdict, Option.some.injEq] at hdict'
      rw [hwritten, hdict, ← hdict', Dictionary.setAll_setAll]
    · exact hedited₂.other id fun edit hedit heq => hid ⟨edit, hedit, heq⟩
  have hnew : d₃.newDocument = d₂.newDocument := by rw [hedited₂.touched.fields, hobjects]
  have hsame : d₃ = d₂ := by
    obtain ⟨previous, newDocument⟩ := d₃
    exact IncrementalDocument.mk.injEq .. ▸ ⟨hedited₂.touched.previous, hnew⟩
  rwa [hsame] at hagain

omit [LawfulDereference] in
theorem applyEdits_append {before rest : List Edit} {d d₁ : IncrementalDocument}
    (h : d.applyEdits before = (.ok (), d₁)) :
    d.applyEdits (before ++ rest) = d₁.applyEdits rest := by
  induction before generalizing d with
  | nil =>
    cases h
    rfl
  | cons edit before ih =>
    unfold applyEdits at h
    split at h
    · cases h
    · rename_i d₂ hstep
      rw [List.cons_append, applyEdits, hstep]
      exact ih h

omit [LawfulDereference] in
/-- Edits fail at one of them, all before it gone through. -/
theorem applyEdits_eq_error {edits : List Edit} {d d' : IncrementalDocument} {e : Error}
    (h : d.applyEdits edits = (.error e, d')) : ∃ before edit after d₁, edits = before ++ edit :: after ∧
      d.applyEdits before = (.ok (), d₁) ∧ d₁.applyEdit edit = (.error e, d') := by
  induction edits generalizing d with
  | nil => cases h
  | cons edit edits ih =>
    unfold applyEdits at h
    split at h
    · rename_i hstep
      cases h
      exact ⟨[], edit, edits, d, rfl, rfl, hstep⟩
    · rename_i d₂ hstep
      obtain ⟨before, failing, after, d₁, rfl, hbefore, hfails⟩ := ih h
      exact ⟨edit :: before, failing, after, d₁, rfl, by rw [applyEdits, hstep]; exact hbefore, hfails⟩

omit [LawfulDereference] in
/-- An edit that failed fails again, and changes nothing. -/
theorem applyEdit_again {edit : Edit} {d d' : IncrementalDocument} {e : Error}
    (h : d.applyEdit edit = (.error e, d')) : d'.applyEdit edit = (.error e, d') := by
  have hfails := h
  unfold applyEdit at h
  split at h
  · cases h
    exact hfails
  rename_i d₁ hclone
  split at h
  · rename_i hmodify
    cases h
    have hagain : d'.optCloneObjectToNewDocument edit.target = .ok d' := by
      unfold optCloneObjectToNewDocument at hclone
      split at hclone
      · rename_i hmem
        cases hclone
        rw [optCloneObjectToNewDocument, if_pos hmem]
      split at hclone
      · cases hclone
      · cases hclone
        rw [optCloneObjectToNewDocument, if_pos]
        exact Finmap.mem_insert.2 (.inl rfl)
    rw [applyEdit, hagain]
    dsimp only
    rw [hmodify]
  · cases h

/-- Applying edits to what they left, as far as they went, leaves it and answers the same. -/
theorem applyEdits_twice {edits : List Edit} {d : IncrementalDocument}
    (hsettled : ∀ edit ∈ edits, d.Settled edit.target) :
    (d.applyEdits edits).2.applyEdits edits = d.applyEdits edits := by
  rcases h : d.applyEdits edits with ⟨e | ⟨⟩, d'⟩
  · obtain ⟨before, edit, after, d₁, rfl, hbefore, hfails⟩ := applyEdits_eq_error h
    have hsettled' : ∀ edit ∈ before, d.Settled edit.target := fun edit hedit =>
      hsettled edit (List.mem_append_left _ hedit)
    have hedited := applyEdits_edited hsettled' hbefore
    have hfailing : d₁.Settled edit.target := hedited.touched.settled (hsettled edit (by simp))
    rcases applyEdit_cases hfailing with ⟨dict, -, hok⟩ | ⟨hnone, e', d₂, herror, htouched⟩
    · rw [hfails] at hok
      cases hok
    rw [hfails] at herror
    cases herror
    have hagain : d'.applyEdits before = (.ok (), d') := by
      refine applyEdits_again hsettled' hbefore fun earlier hearlier => ?_
      rcases htouched.lookup earlier.target with hsame | ⟨htarget, -⟩
      · exact hsame
      · -- what was written before is a dictionary, and editing that does not fail
        obtain ⟨dict, -, hwritten⟩ := hedited.written earlier hearlier
        rw [List.mem_singleton.1 htarget] at hwritten
        rw [editable, hwritten] at hnone
        cases hnone
    rw [applyEdits_append hagain, applyEdits, applyEdit_again hfails]
  · exact applyEdits_again hsettled h fun _ _ => rfl

end IncrementalDocument
/-! ### What a save hands to the writer -/

/-- What writes files: the bytes of a base as they are, or a revision appended to its base. Serialising
a revision leaves another numbering and trailer in it. -/
structure Writer where
  writeBase : LopdfDocument → Except Error Unit
  save : IncrementalDocument → Except Error Unit × Nat × Dictionary

/-- What a writer was given. -/
inductive Handed where
  | base (file : LopdfDocument)
  | update (incremental : IncrementalDocument)

/-- What the file written parses as. -/
def Handed.file : Handed → LopdfDocument
  | base file => file
  | update incremental => incremental.written

namespace PdfDocument

variable [Lopdf]

/-- An incremental save as the writer sees it. -/
def saveThrough (writer : Writer) (d : PdfDocument) : Outcome PdfDocument Handed :=
  if d.pages.live.length = 0 then (.error noPages, d)
  else if d.dirty.isClean then
    match writer.writeBase d.incremental.previous with
    | .error e => (.error e, d)
    | .ok () => (.ok (.base d.incremental.previous), d)
  else
    match d.materializeChanges with
    | (.error e, d') => (.error e, d')
    | (.ok (), d') =>
      let restoredMaxId := d'.incremental.newDocument.maxId
      let restoredTrailer := d'.incremental.newDocument.trailer
      let (outcome, maxId, trailer) := writer.save d'.incremental
      let saved := d'.withTarget { d'.incremental.newDocument with maxId, trailer }
      let restored := saved.withTarget
        { saved.incremental.newDocument with maxId := restoredMaxId, trailer := restoredTrailer }
      match outcome with
      | .error e => (.error e, restored)
      | .ok () => (.ok (.update d'.incremental), restored)

/-- What the writer makes of this document, as the outside of a save. -/
def envOf (writer : Writer) (d : PdfDocument) : SaveEnv :=
  { SaveEnv.reliable with
    write := fun file =>
      if d.dirty.isClean then writer.writeBase file
      else (writer.save (d.materializeChanges).2.incremental).1 }

theorem saveThrough_clean {writer : Writer} {d : PdfDocument} (hpages : d.pages.live.length ≠ 0)
    (hclean : d.dirty.isClean = true) : d.saveThrough writer =
      ((writer.writeBase d.incremental.previous).map fun _ => .base d.incremental.previous, d) := by
  rw [saveThrough, if_neg hpages, if_pos hclean]
  cases writer.writeBase d.incremental.previous <;> rfl

/-- Numbering and trailer are put back, so nothing is left of serialising. -/
theorem saveThrough_dirty {writer : Writer} {d d' : PdfDocument} (hpages : d.pages.live.length ≠ 0)
    (hdirty : ¬ d.dirty.isClean = true) (hm : d.materializeChanges = (.ok (), d')) :
    d.saveThrough writer =
      ((writer.save d'.incremental).1.map fun _ => .update d'.incremental, d') := by
  obtain ⟨writeBase, save⟩ := writer
  rw [saveThrough, if_neg hpages, if_neg hdirty, hm]
  dsimp only
  rcases save d'.incremental with ⟨e | ⟨⟩, maxId, trailer⟩ <;> rfl

/-- Every writer is an outside of the save, and a save is what it is without the numbering and
trailer a writer leaves. -/
theorem saveThrough_eq (writer : Writer) (d : PdfDocument) :
    ((d.saveThrough writer).1.map Handed.file, (d.saveThrough writer).2) =
      d.saveIncremental (d.envOf writer) := by
  by_cases hpages : d.pages.live.length = 0
  · rw [saveThrough, saveIncremental, if_pos hpages, if_pos hpages]
    rfl
  by_cases hclean : d.dirty.isClean = true
  · rw [saveThrough_clean hpages hclean, saveIncremental, if_neg hpages, if_pos hclean]
    simp only [envOf, hclean, if_true]
    cases writer.writeBase d.incremental.previous <;> rfl
  · rw [saveIncremental, if_neg hpages, if_neg hclean]
    rcases hm : d.materializeChanges with ⟨e | ⟨⟩, d'⟩
    · rw [saveThrough, if_neg hpages, if_neg hclean, hm]
      rfl
    · rw [saveThrough_dirty hpages hclean hm]
      simp only [envOf, if_neg hclean, hm]
      rcases writer.save d'.incremental with ⟨e | ⟨⟩, maxId, trailer⟩ <;> rfl

/-! ### Saving twice -/

/-- What a save writes depends on nothing it changes. -/
theorem pendingEdits_materialized (d : PdfDocument)
    (hprevious : (d.materializeChanges).2.incremental.previous = d.incremental.previous) :
    (d.materializeChanges).2.pendingEdits = d.pendingEdits := by
  rw [d.materializeChanges_keeps]
  unfold pendingEdits inheritedEdits pageTreeEdits rotationEdits flatKids
  dsimp only
  rw [hprevious]

theorem materializeChanges_twice [LawfulDereference] {d : PdfDocument} (h : d.Settled) :
    (d.materializeChanges).2.materializeChanges = d.materializeChanges := by
  have htwice := IncrementalDocument.applyEdits_twice fun edit hedit =>
    h.settled _ (mem_pendingEdits.1 hedit).names
  have hpending := pendingEdits_materialized d (materializeChanges_touched h).previous
  rw [materializeChanges, hpending]
  unfold materializeChanges
  rcases happly : d.incremental.applyEdits d.pendingEdits with ⟨result, incremental⟩
  rw [happly] at htwice
  simp only [htwice]

/-- A second save hands over what the first did, and leaves what it left. -/
theorem saveThrough_twice [LawfulDereference] {d d₁ d₂ : PdfDocument} (h : d.Settled)
    {writer writer' : Writer} {handed handed' : Handed}
    (hfirst : d.saveThrough writer = (.ok handed, d₁))
    (hsecond : d₁.saveThrough writer' = (.ok handed', d₂)) : handed' = handed ∧ d₂ = d₁ := by
  have hanswer : ∀ {answer : Except Error Unit} {given handed : Handed},
      answer.map (fun _ => given) = .ok handed → handed = given := by
    rintro (e | ⟨⟩) given handed heq
    · cases heq
    · exact (Except.ok.inj heq).symm
  have hpages : d.pages.live.length ≠ 0 := by
    intro hnone
    rw [saveThrough, if_pos hnone] at hfirst
    cases hfirst
  by_cases hclean : d.dirty.isClean = true
  · rw [saveThrough_clean hpages hclean, Prod.mk.injEq] at hfirst
    obtain ⟨hfirst, rfl⟩ := hfirst
    rw [saveThrough_clean hpages hclean, Prod.mk.injEq] at hsecond
    exact ⟨(hanswer hsecond.1).trans (hanswer hfirst).symm, hsecond.2.symm⟩
  · rcases hm : d.materializeChanges with ⟨e | ⟨⟩, d'⟩
    · rw [saveThrough, if_neg hpages, if_neg hclean, hm] at hfirst
      cases hfirst
    rw [saveThrough_dirty hpages hclean hm, Prod.mk.injEq] at hfirst
    obtain ⟨hfirst, rfl⟩ := hfirst
    have htwice := materializeChanges_twice h
    have hkeeps := d.materializeChanges_keeps
    rw [hm] at htwice hkeeps
    dsimp only at htwice hkeeps
    have hpages' : d'.pages.live.length ≠ 0 := by
      rw [hkeeps]
      exact hpages
    have hclean' : ¬ d'.dirty.isClean = true := by
      rw [hkeeps]
      exact hclean
    rw [saveThrough_dirty hpages' hclean' htwice, Prod.mk.injEq] at hsecond
    exact ⟨(hanswer hsecond.1).trans (hanswer hfirst).symm, hsecond.2.symm⟩

/-! ### Documents nothing was done to -/

omit [Lopdf] in
theorem lookup_catalog_empty : buildEmptyDocument.objects.lookup (2, 0) =
    some (.dictionary [("Type", .name "Catalog"), ("Pages", .reference (1, 0))]) :=
  Finmap.lookup_insert _

omit [Lopdf] in
theorem lookup_root_empty : buildEmptyDocument.objects.lookup (1, 0) =
    some (.dictionary [("Type", .name "Pages"), ("Kids", .array []), ("Count", .integer 0)]) := by
  have hother : ((1, 0) : ObjectId) ≠ (2, 0) := by decide
  exact (Finmap.lookup_insert_of_ne _ hother).trans (Finmap.lookup_insert _)

/-- A document as a session starts with it: opened, or created with no pages. -/
inductive Starts : PdfDocument → Prop
  | opened {id : DocumentId} {file : LopdfDocument} {d : PdfDocument} (hload : load id file = .ok d)
      (hcounted : file.Counted) : Starts d
  | created {env : SaveEnv} {id : DocumentId} {file : LopdfDocument} {root : ObjectId}
      {d : PdfDocument} (hparse : env.parse buildEmptyDocument = .ok file)
      (hpageless : Pageless file root) (hempty : empty env id = .ok d) : Starts d

omit [Lopdf] in
theorem parse_of_bytes {env : SaveEnv} {document file : LopdfDocument}
    (h : env.bytes document = .ok (.file file)) : env.parse document = .ok file := by
  unfold SaveEnv.bytes at h
  cases hserialize : env.serialize document with
  | error e => simp [hserialize] at h
  | ok _ =>
    cases hparse : env.parse document with
    | error e => simp [hserialize, hparse] at h
    | ok parsed => simpa [hserialize, hparse] using h

/-- A document was created from what the minimal file was read back as. -/
theorem parse_of_empty {env : SaveEnv} {id : DocumentId} {d : PdfDocument}
    (h : empty env id = .ok d) : ∃ file, env.parse buildEmptyDocument = .ok file := by
  unfold empty at h
  split at h
  · cases h
  · cases h
  · cases h
  · exact ⟨_, parse_of_bytes ‹_›⟩

/-- A document created with no pages, taken apart. -/
theorem empty_eq_ok [LawfulDereference] {env : SaveEnv} {id : DocumentId} {file : LopdfDocument}
    {root : ObjectId} {d : PdfDocument} (hparse : env.parse buildEmptyDocument = .ok file)
    (hpageless : Pageless file root) (h : empty env id = .ok d) :
    d.rootPagesId = root ∧ d.pages = Roster.empty ∧
      d.incremental = announceVersion (IncrementalDocument.load file) ∧ d.dirty = .clean := by
  have hroot := hpageless.readRootPagesId
  unfold empty SaveEnv.bytes at h
  cases hserialize : env.serialize buildEmptyDocument with
  | error e =>
    rw [hserialize] at h
    cases h
  | ok _ =>
    simp only [hserialize, hparse, hroot, Except.ok.injEq] at h
    subst h
    exact ⟨rfl, rfl, rfl, rfl⟩

theorem Starts.settled [LawfulLopdf] {d : PdfDocument} (h : Starts d) : d.Settled := by
  cases h with
  | opened hload hcounted => exact settled_load hload hcounted
  | created hparse hpageless hempty =>
    obtain ⟨hroot, hpages, hincremental, -⟩ := empty_eq_ok hparse hpageless hempty
    refine ⟨fun id hid => ?_, fun id _ object hobject => ?_⟩
    · rcases hid with rfl | ⟨slot, hslot, -⟩
      · rw [hroot, hincremental]
        exact hpageless.counted _ hpageless.root_mem
      · rw [hpages] at hslot
        cases hslot
    · rw [hincremental] at hobject
      cases hobject

theorem Starts.clean [LawfulDereference] {d : PdfDocument} (h : Starts d) : d.dirty = .clean := by
  cases h with
  | opened hload _ =>
    obtain ⟨-, -, -, -, hdirty⟩ := load_eq_ok hload
    exact hdirty
  | created hparse hpageless hempty =>
    obtain ⟨-, -, -, hdirty⟩ := empty_eq_ok hparse hpageless hempty
    exact hdirty

/-- Whether a call is a mutation, and succeeds. -/
def mutates (d : PdfDocument) : SessionStep → Bool
  | .remove id => (d.removePage id).1.isOk
  | .restore id atIndex => (d.restorePage id atIndex).1.isOk
  | .move id toIndex => (d.movePage id toIndex).1.isOk
  | .rotate id rotation => (d.setRotation id rotation).1.isOk
  | .insert atIndex size => (d.insertPage atIndex size).1.isOk
  | .importFrom source ids atIndex => (importPages source ids atIndex d).1.isOk
  | .importPortable sourceId pages atIndex => (importPortable sourceId pages atIndex d).1.isOk
  | .saveIncremental _ | .saveCompacted _ => false

/-- No call of a run is a mutation that succeeds, or makes the document continue from a new file. -/
def Unedited (base : PdfDocument) (steps : List SessionStep) : Prop :=
  ∀ before step after, steps = before ++ step :: after →
    (base.run before).mutates step = false ∧ (base.run before).rebases step = false

theorem Unedited.init {base : PdfDocument} {steps : List SessionStep} {step : SessionStep}
    (h : Unedited base (steps ++ [step])) : Unedited base steps := fun before earlier after heq =>
  h before earlier (after ++ [step]) (by simp [heq])

/-- Clean, and continued from the same file. -/
structure Pristine (base d : PdfDocument) : Prop where
  clean : d.dirty = .clean
  previous : d.incremental.previous = base.incremental.previous

theorem Pristine.materialized {base d : PdfDocument} (h : Pristine base d) :
    (d.materializeChanges).2 = d := by
  have hnone : d.pendingEdits = [] := by
    rw [pendingEdits, h.clean]
    rfl
  rw [materializeChanges, hnone]
  rfl

/-- A mutation that fails leaves the document alone. -/
theorem Pristine.failed {base d : PdfDocument} (h : Pristine base d)
    {outcome : Outcome PdfDocument α} {spec : Except Error (α × Roster PageInfo)}
    (hspec : Mutates roster d outcome spec) (hfailed : outcome.1.isOk = false) :
    Pristine base outcome.2 := by
  rcases houtcome : outcome with ⟨e | a, d'⟩
  · rw [Command.mutates_error hspec houtcome]
    exact h
  · rw [houtcome] at hfailed
    cases hfailed

/-- An import that fails may leave some pages behind, and does not mark them for a save. -/
theorem Pristine.importPages {base d : PdfDocument} (h : Pristine base d) {source : PdfDocument}
    {ids : List PageId} {atIndex : Nat}
    (hfailed : (PdfDocument.importPages source ids atIndex d).1.isOk = false) :
    Pristine base (PdfDocument.importPages source ids atIndex d).2 := by
  unfold PdfDocument.importPages at hfailed ⊢
  cases hcheck : d.pages.checkInsertionIndex atIndex with
  | error e => exact h
  | ok _ =>
    rw [hcheck] at hfailed
    dsimp only at hfailed ⊢
    cases hslots : ids.mapM source.pages.findSlot with
    | error e => exact h
    | ok slots =>
      rw [hslots] at hfailed
      have hkeeps := importResolved_keeps source.view slots d (checkInsertionIndex_eq_ok.1 hcheck)
      dsimp only at hfailed ⊢
      generalize importResolved source.view slots atIndex d = result at hfailed hkeeps
      obtain ⟨e | imported, d'⟩ := result
      · exact ⟨hkeeps.dirty.trans h.clean, hkeeps.previous.trans h.previous⟩
      · cases hfailed

theorem Pristine.importPortable {base d : PdfDocument} (h : Pristine base d) {sourceId : DocumentId}
    {pages : PortablePages} {atIndex : Nat}
    (hfailed : (PdfDocument.importPortable sourceId pages atIndex d).1.isOk = false) :
    Pristine base (PdfDocument.importPortable sourceId pages atIndex d).2 := by
  unfold PdfDocument.importPortable at hfailed ⊢
  cases hcheck : d.pages.checkInsertionIndex atIndex with
  | error e => exact h
  | ok _ =>
    rw [hcheck] at hfailed
    dsimp only at hfailed ⊢
    cases hbytes : pages.takePdf with
    | error e => exact h
    | ok bytes =>
      rw [hbytes] at hfailed
      cases bytes with
      | empty => cases hfailed
      | damaged e => exact h
      | file document =>
        dsimp only at hfailed ⊢
        cases hload : loadFromBytes sourceId (.file document) with
        | error e => exact h
        | ok source =>
          rw [hload] at hfailed
          exact h.importPages hfailed

/-- A call that fails, or saves without rebasing, leaves a clean document clean. -/
theorem Pristine.step {base d : PdfDocument} (h : Pristine base d) {step : SessionStep}
    (hmutates : d.mutates step = false) (hrebases : d.rebases step = false) :
    Pristine base (d.step step) := by
  cases step with
  | remove id => exact h.failed (LawfulDocument.removePage_spec id d) hmutates
  | restore id atIndex => exact h.failed (LawfulDocument.restorePage_spec id atIndex d) hmutates
  | move id toIndex => exact h.failed (LawfulDocument.movePage_spec id toIndex d) hmutates
  | rotate id rotation => exact h.failed (LawfulDocument.setRotation_spec id rotation d) hmutates
  | insert atIndex size => exact h.failed (LawfulDocument.insertPage_spec atIndex size d) hmutates
  | importFrom source ids atIndex => exact h.importPages hmutates
  | importPortable sourceId pages atIndex => exact h.importPortable hmutates
  | saveIncremental env =>
    rcases saveIncremental_cases env d with hsame | hwritten
    · rwa [PdfDocument.step, hsame]
    · rwa [PdfDocument.step, hwritten, h.materialized]
  | saveCompacted env =>
    rcases saveCompacted_cases env d with hsame | hwritten | ⟨written, hok⟩
    · rwa [PdfDocument.step, hsame]
    · rwa [PdfDocument.step, hwritten, h.materialized]
    · rw [rebases, hok] at hrebases
      cases hrebases

theorem Pristine.run {base : PdfDocument} (hclean : base.dirty = .clean) {steps : List SessionStep}
    (h : Unedited base steps) : Pristine base (base.run steps) := by
  induction steps using List.reverseRecOn with
  | nil => exact ⟨hclean, rfl⟩
  | append_singleton steps step ih =>
    obtain ⟨hmutates, hrebases⟩ := h steps step [] rfl
    rw [run_concat]
    exact (ih h.init).step hmutates hrebases

/-- A save of a clean document reproduces the file it continues from. -/
theorem Pristine.saveThrough {base d : PdfDocument} (h : Pristine base d)
    (hpages : d.pages.live.length ≠ 0) (writer : Writer) : d.saveThrough writer =
      ((writer.writeBase base.incremental.previous).map fun _ => .base base.incremental.previous,
        d) := by
  rw [saveThrough_clean hpages (by rw [h.clean]; rfl), h.previous]

/-- Saving is idempotent: in whatever state edits and saves lead to, writing the pending changes once
more changes nothing, a second save hands over what the first did, and where nothing was edited since
the document was opened or rebased a save reproduces its base. -/
theorem saving_is_idempotent [LawfulLopdf] {start : PdfDocument} (hstart : Starts start)
    (steps : List SessionStep) (hsteps : ∀ step ∈ steps, step.Counts) :
    ((start.run steps).materializeChanges).2.materializeChanges = (start.run steps).materializeChanges ∧
    (∀ writer writer' handed handed' d₁ d₂, (start.run steps).saveThrough writer = (.ok handed, d₁) →
      d₁.saveThrough writer' = (.ok handed', d₂) → handed' = handed ∧ d₂ = d₁) ∧
    ∀ before after, steps = before ++ after →
      (before = [] ∨ ∃ earlier step, before = earlier ++ [step] ∧
        (start.run earlier).rebases step = true) →
      Unedited (start.run before) after → (start.run steps).pages.live.length ≠ 0 →
        ∀ writer, (start.run steps).saveThrough writer =
          ((writer.writeBase (start.run before).incremental.previous).map fun _ =>
            .base (start.run before).incremental.previous, start.run steps) := by
  have hsettled := hstart.settled.run hsteps
  refine ⟨materializeChanges_twice hsettled,
    fun _ _ _ _ _ _ hfirst hsecond => saveThrough_twice hsettled hfirst hsecond, ?_⟩
  rintro before after rfl hbase hunedited hpages writer
  have hclean : (start.run before).dirty = .clean := by
    rcases hbase with rfl | ⟨earlier, step, rfl, hrebases⟩
    · exact hstart.clean
    · rw [run_concat]
      refine (based_rebase (hstart.settled.run fun other hother => ?_) ?_ hrebases).dirty
      · exact hsteps other (by simp [hother])
      · exact hsteps step (by simp)
  have hrun : start.run (before ++ after) = (start.run before).run after := List.foldl_append
  rw [hrun] at hpages ⊢
  exact (Pristine.run hclean hunedited).saveThrough hpages writer

end PdfDocument

namespace PdfDocument

open RootPageFile (plainOpened)
open scoped ReferenceLopdf

/-- A page is inserted and turned: there is something to write, and writing it again changes nothing. -/
theorem saving_is_idempotent_inserting :
    let d := plainOpened.run [.insert 1 .letter, .rotate 0 .quarter]
    (d.materializeChanges).1.isOk = true ∧
      (d.materializeChanges).2.materializeChanges = d.materializeChanges := by
  refine ⟨by decide +kernel, (saving_is_idempotent
    (.opened (rfl : load 1 ImportFixture.plainFile = .ok plainOpened) (by decide +kernel)) _ ?_).1⟩
  intro step hstep
  simp only [List.mem_cons, List.not_mem_nil, or_false] at hstep
  rcases hstep with rfl | rfl <;> trivial

end PdfDocument
end OpdfEditor
