import OpdfEditor.Rollback

/-!
What an application does to the document, in order, and where a rollback step fails.
Within one composite rollback stops there. A composite around it takes the failure for
that of an ordinary step and rolls back in its turn: this is exactly where something is
still applied.
-/
namespace OpdfEditor
namespace Command

/-- What an application does to the document. -/
inductive Event (D : Type) where
  | applied (command : Command D)
  | appended (source : D)
  /-- A rollback step failed. -/
  | refused (rollback : Command D)

def Event.refuses : Event D → Bool
  | .refused _ => true
  | _ => false

section Events

variable {D : Type} {events later : List (Event D)}

/-- Once a rollback step has failed, nothing more is applied. -/
def Stops (events : List (Event D)) : Prop :=
  events.Pairwise fun e later => e.refuses → later.refuses

/-- No rollback step fails. -/
def Quiet (events : List (Event D)) : Prop := ∀ e ∈ events, ¬ e.refuses

/-- A trace is quiet where its parts are. -/
theorem quiet_append : Quiet (events ++ later) ↔ Quiet events ∧ Quiet later := by
  simp only [Quiet, List.mem_append, or_imp, forall_and]

theorem quiet_applied {c : Command D} : Quiet (.applied c :: events) ↔ Quiet events := by
  simp [Quiet, Event.refuses]

theorem Quiet.stops (h : Quiet events) : Stops events :=
  List.pairwise_of_forall_mem_list fun e he _ _ hrefuses => absurd hrefuses (h e he)

theorem stops_append_of_quiet (h : Quiet events) : Stops (events ++ later) ↔ Stops later := by
  constructor
  · intro hstops
    exact (List.pairwise_append.1 hstops).2.1
  · intro hstops
    exact List.pairwise_append.2 ⟨h.stops, hstops, fun e he _ _ hrefuses => absurd hrefuses (h e he)⟩

theorem stops_applied {c : Command D} : Stops (.applied c :: events) ↔ Stops events := by
  have hquiet : Quiet [Event.applied c] := by simp [Quiet, Event.refuses]
  exact stops_append_of_quiet hquiet

theorem stops_append_refused {c : Command D} : Stops (events ++ [.refused c]) ↔ Stops events := by
  constructor
  · intro hstops
    exact (List.pairwise_append.1 hstops).1
  · intro hstops
    refine List.pairwise_append.2 ⟨hstops, List.pairwise_singleton _ _, ?_⟩
    intro e _ last hlast _
    rw [List.mem_singleton.1 hlast]
    rfl

/-- After a failed rollback step, whatever is applied is applied too late. -/
theorem stops_append_applied {c : Command D} (h : ¬ Quiet events) :
    ¬ Stops (events ++ .applied c :: later) := by
  intro hstops
  refine h fun e he hrefuses => ?_
  have := (List.pairwise_append.1 hstops).2.2 e he (.applied c) (by simp) hrefuses
  cases this

end Events

section Trace

variable {D : Type} [Document D] (inner : Command D → D → List (Event D))

/-- What rolling back does; `rollBack` gives the error. -/
def traceBack : List (Command D) → D → List (Event D)
  | [], _ => []
  | rollback :: applied, d =>
    .applied rollback :: inner rollback d ++
      match rollback.apply d with
      | (.ok _, d') => traceBack applied d'
      | (.error _, _) => [.refused rollback]

/-- What the steps of a sequence do; `applySequence` gives the outcome. -/
def traceSequence : List (Command D) → List (Command D) → D → List (Event D)
  | [], _, _ => []
  | command :: commands, applied, d =>
    .applied command :: inner command d ++
      match command.apply d with
      | (.ok inverse, d') => traceSequence commands (inverse :: applied) d'
      | (.error _, d') => traceBack inner applied d'

/-- What merging does; `applyMerge` gives the outcome. -/
def traceMerge : List D → List (Command D) → D → List (Event D)
  | [], _, _ => []
  | source :: sources, removals, d =>
    .appended source ::
      match Document.importPages source (Document.pageIds source) (Document.pageCount d) d with
      | (.ok newIds, d') => traceMerge sources ((newIds.map removePage).reverse ++ removals) d'
      | (.error _, d') => traceBack inner removals d'

/-- What one application does, with the applications inside it left to `inner`. -/
def traceDispatch : Command D → D → List (Event D)
  | sequence _ commands, d => traceSequence inner commands [] d
  | merge sources, d => traceMerge inner sources [] d
  | boundInverse binding inverse, d =>
    if binding ≠ Document.id d then [] else .applied inverse :: inner inverse d
  | _, _ => []

/-- What an application does, with a bound on how deeply composites may still nest. -/
def traceAt : Nat → Command D → D → List (Event D)
  | 0 => fun _ _ => []
  | fuel + 1 => traceDispatch (traceAt fuel)

def trace (c : Command D) (d : D) : List (Event D) := traceAt c.height c d

end Trace

section Stops

variable {D : Type} [Document D]

/-- Applying the commands one after the other, the first that fails is reached with these
inverses in hand. -/
structure FailsAt (commands : List (Command D)) (d : D) (step : Command D)
    (inverses : List (Command D)) (d₁ d₂ : D) : Prop where
  split : ∃ before after, commands = before ++ step :: after ∧ Collects before d inverses d₁
  fails : ∃ e, step.apply d₁ = (.error e, d₂)

/-- Appending the sources one after the other, the first import that fails is reached with these
removals in hand. -/
def ImportFailsAt (sources : List D) (d : D) (removals : List (Command D)) (d₁ : D) : Prop :=
  ∃ before source after e d₀, sources = before ++ source :: after ∧ Appends before d removals d₀ ∧
    Document.importPages source (Document.pageIds source) (Document.pageCount d₀) d₀ = (.error e, d₁)

/-- Applying the command, some rollback step fails. -/
def Breaks (c : Command D) (d : D) : Prop :=
  ∃ applied d₁ step redos d₂ d₃, RollsBack c d applied d₁ ∧ FailsAt applied d₁ step redos d₂ d₃

/-- Applying the command, some sequence with an inverse in hand meets a step inside which a rollback
step fails. -/
inductive Overruns : Command D → D → Prop
  | unheeded {label commands step applied d d₁ d₂} (hfails : FailsAt commands d step applied d₁ d₂)
      (hinverse : applied ≠ []) (hbreaks : Breaks step d₁) : Overruns (.sequence label commands) d
  | member {label commands step applied d d₁ d₂} (hfails : FailsAt commands d step applied d₁ d₂)
      (hinner : Overruns step d₁) : Overruns (.sequence label commands) d
  | undoing {label commands step applied rollback redos d d₁ d₂ d₃ d₄}
      (hfails : FailsAt commands d step applied d₁ d₂)
      (hback : FailsAt applied d₂ rollback redos d₃ d₄) (hinner : Overruns rollback d₃) :
      Overruns (.sequence label commands) d
  | bound {inverse d} (hinner : Overruns inverse d) :
      Overruns (.boundInverse (Document.id d) inverse) d

/-! ### Where a rollback step fails, the application fails -/

/-- Steps that went through are collected, and the sequence goes on. -/
theorem Collects.applySequence {before applied : List (Command D)} {d d₁ : D} {label : String}
    (h : Collects before d applied d₁) (rest : List (Command D)) :
    applySequence apply label (before ++ rest) [] d = applySequence apply label rest applied d₁ := by
  induction h generalizing rest with
  | nil => rfl
  | snoc hbefore hstep ih => rw [List.append_assoc, ih, List.singleton_append, Command.applySequence, hstep]

/-- Inverses that went through are collected, and the rollback goes on. -/
theorem Collects.rollBack {undone redos : List (Command D)} {d d₁ : D} {label : String}
    {original : Error} (h : Collects undone d redos d₁) (rest : List (Command D)) :
    rollBack apply label original (undone ++ rest) d = rollBack apply label original rest d₁ := by
  induction h generalizing rest with
  | nil => rfl
  | snoc hundone hstep ih => rw [List.append_assoc, ih, List.singleton_append, Command.rollBack, hstep]

/-- Sources that were appended are collected, and the merge goes on. -/
theorem Appends.applyMerge {before : List D} {removals : List (Command D)} {d d₁ : D} {count : Nat}
    (h : Appends before d removals d₁) (rest : List D) :
    applyMerge apply count (before ++ rest) [] d = applyMerge apply count rest removals d₁ := by
  induction h generalizing rest with
  | nil => rfl
  | snoc hbefore hstep ih => rw [List.append_assoc, ih, List.singleton_append, Command.applyMerge, hstep]

/-- Rolling back reports the original failure, alone or with the failure of a rollback step. -/
theorem rollBack_cases (label : String) (original : Error) (applied : List (Command D)) (d : D) :
    (rollBack apply label original applied d).1 = original ∨
      ∃ rollback, (rollBack apply label original applied d).1 = .rollbackFailed original rollback := by
  induction applied generalizing d with
  | nil => exact .inl rfl
  | cons rollback applied ih =>
    rw [rollBack]
    split
    · exact ih _
    · exact .inr ⟨_, rfl⟩

/-- Where an inverse fails, the rollback does. -/
theorem FailsAt.stuck {applied redos : List (Command D)} {step : Command D} {d d₁ d₂ : D}
    (h : FailsAt applied d step redos d₁ d₂) (label : String) (original : Error) :
    ∃ rollback, rollBack apply label original applied d = (.rollbackFailed original rollback, d₂) := by
  obtain ⟨⟨undone, rest, rfl, hundone⟩, e, hfails⟩ := h
  rw [hundone.rollBack, Command.rollBack, hfails]
  exact ⟨_, rfl⟩

/-- A failed rollback is reported as one however deep it happened. -/
theorem Breaks.reported {c : Command D} {d : D} (h : Breaks c d) :
    ∃ original rollback d', c.apply d = (.error (.rollbackFailed original rollback), d') := by
  obtain ⟨applied, d₁, step, redos, d₂, d₃, hrolls, hback⟩ := h
  induction hrolls with
  | @sequence label before c after applied e d d₁ d₂ hbefore hfails =>
    obtain ⟨rollback, hrolled⟩ := hback.stuck label e
    rw [apply_sequence, hbefore.applySequence, applySequence, hfails]
    dsimp only
    rw [hrolled]
    exact ⟨e, rollback, _, rfl⟩
  | @merge before source after removals e d d₁ d₂ hbefore hfails =>
    obtain ⟨rollback, hrolled⟩ :=
      hback.stuck s!"Merge {(before ++ source :: after).length} documents" e
    rw [apply_merge, hbefore.applyMerge, applyMerge, hfails]
    dsimp only
    rw [hrolled]
    exact ⟨e, rollback, _, rfl⟩
  | @within label before c after applied inner d d₁ d₂ hbefore hinner ih =>
    obtain ⟨original, rollback, d', happly⟩ := ih hback
    rw [apply_sequence, hbefore.applySequence, applySequence, happly]
    dsimp only
    rcases rollBack_cases label (.rollbackFailed original rollback) applied d' with hsame | ⟨r, hr⟩
    · rw [hsame]
      exact ⟨original, rollback, _, rfl⟩
    · rw [hr]
      exact ⟨_, r, _, rfl⟩
  | @bound inverse applied d d₂ hinner ih =>
    obtain ⟨original, rollback, d', happly⟩ := ih hback
    rw [apply_boundInverse, applyBoundInverse, if_neg (by simp), happly]
    exact ⟨original, rollback, d', rfl⟩

/-- A rollback step fails inside the step a sequence fails at, or while it rolls back. -/
theorem FailsAt.breaks {label : String} {commands applied : List (Command D)} {step : Command D}
    {d d₁ d₂ : D} (h : FailsAt commands d step applied d₁ d₂)
    (hbreaks : Breaks step d₁ ∨ ∃ rollback redos d₃ d₄, FailsAt applied d₂ rollback redos d₃ d₄) :
    Breaks (.sequence label commands) d := by
  obtain ⟨⟨before, after, rfl, hbefore⟩, e, hfails⟩ := h
  rcases hbreaks with ⟨inner, d₃, rollback, redos, d₄, d₅, hrolls, hback⟩ | ⟨rollback, redos, d₃, d₄, hback⟩
  · exact ⟨inner, d₃, rollback, redos, d₄, d₅, .within hbefore hrolls, hback⟩
  · exact ⟨applied, d₂, rollback, redos, d₃, d₄, .sequence hbefore hfails, hback⟩

/-- Steps either all go through, or one is the first to fail. -/
theorem collects_append_or_fails {before applied : List (Command D)} {d d₁ : D}
    (h : Collects before d applied d₁) (commands : List (Command D)) :
    (∃ inverses d', Collects (before ++ commands) d inverses d') ∨
      ∃ step inverses d₂ d₃, FailsAt (before ++ commands) d step inverses d₂ d₃ := by
  induction commands generalizing before applied d₁ with
  | nil => exact .inl ⟨applied, d₁, by simpa using h⟩
  | cons c commands ih =>
    rcases hstep : c.apply d₁ with ⟨e | inverse, d₂⟩
    · exact .inr ⟨c, applied, d₁, d₂, ⟨before, commands, rfl, h⟩, e, hstep⟩
    · have := ih (h.snoc hstep)
      rwa [List.append_assoc, List.singleton_append] at this

/-- A list of commands applies to the end, or one of them fails. -/
theorem collects_or_fails (commands : List (Command D)) (d : D) :
    (∃ inverses d', Collects commands d inverses d') ∨
      ∃ step inverses d₁ d₂, FailsAt commands d step inverses d₁ d₂ :=
  collects_append_or_fails .nil commands

/-! ### What the trace tells -/

/-- The trace of an application tells where rollback steps fail, and what is applied after one. -/
structure Tells (inner : Command D → D → List (Event D)) (c : Command D) : Prop where
  breaks : ∀ d, Quiet (inner c d) ↔ ¬ Breaks c d
  stops : ∀ d, Stops (inner c d) ↔ ¬ Overruns c d

theorem Tells.quiet {inner : Command D → D → List (Event D)} {c inverse : Command D} {d d' : D}
    (h : Tells inner c) (hok : c.apply d = (.ok inverse, d')) : Quiet (inner c d) := by
  refine (h.breaks d).2 fun hbreaks => ?_
  obtain ⟨original, rollback, d'', herror⟩ := hbreaks.reported
  rw [hok] at herror
  cases herror

theorem traceBack_collects {inner : Command D → D → List (Event D)} {undone redos : List (Command D)}
    {d d₁ : D} (h : Collects undone d redos d₁) (htells : ∀ c ∈ undone, Tells inner c)
    (rest : List (Command D)) : ∃ events, Quiet events ∧
      traceBack inner (undone ++ rest) d = events ++ traceBack inner rest d₁ := by
  induction h generalizing rest with
  | nil => exact ⟨[], by simp [Quiet], rfl⟩
  | @snoc undone c redo redos d d₁ d₂ hundone hstep ih =>
    obtain ⟨events, hquiet, heq⟩ := ih (fun c hc => htells c (by simp [hc])) (c :: rest)
    refine ⟨events ++ .applied c :: inner c d₁, ?_, ?_⟩
    · exact quiet_append.2 ⟨hquiet, quiet_applied.2 ((htells c (by simp)).quiet hstep)⟩
    · rw [List.append_assoc, List.singleton_append, heq, traceBack, hstep]
      simp

theorem traceSequence_collects {inner : Command D → D → List (Event D)}
    {before applied : List (Command D)} {d d₁ : D} (h : Collects before d applied d₁)
    (htells : ∀ c ∈ before, Tells inner c) (rest : List (Command D)) : ∃ events, Quiet events ∧
      traceSequence inner (before ++ rest) [] d = events ++ traceSequence inner rest applied d₁ := by
  induction h generalizing rest with
  | nil => exact ⟨[], by simp [Quiet], rfl⟩
  | @snoc before c inverse applied d d₁ d₂ hbefore hstep ih =>
    obtain ⟨events, hquiet, heq⟩ := ih (fun c hc => htells c (by simp [hc])) (c :: rest)
    refine ⟨events ++ .applied c :: inner c d₁, ?_, ?_⟩
    · exact quiet_append.2 ⟨hquiet, quiet_applied.2 ((htells c (by simp)).quiet hstep)⟩
    · rw [List.append_assoc, List.singleton_append, heq, traceSequence, hstep]
      simp

theorem traceMerge_appends (inner : Command D → D → List (Event D)) {before : List D}
    {removals : List (Command D)} {d d₁ : D} (h : Appends before d removals d₁) (rest : List D) :
    ∃ events, Quiet events ∧
      traceMerge inner (before ++ rest) [] d = events ++ traceMerge inner rest removals d₁ := by
  induction h generalizing rest with
  | nil => exact ⟨[], by simp [Quiet], rfl⟩
  | @snoc before source newIds removals d d₁ d₂ hbefore hstep ih =>
    obtain ⟨events, hquiet, heq⟩ := ih (source :: rest)
    refine ⟨events ++ [.appended source], ?_, ?_⟩
    · exact quiet_append.2 ⟨hquiet, by simp [Quiet, Event.refuses]⟩
    · rw [List.append_assoc, List.singleton_append, heq, traceMerge, hstep]
      simp

/-- The rollback step that fails is the last one applied. -/
theorem FailsAt.traceBack {inner : Command D → D → List (Event D)} {applied redos : List (Command D)}
    {step : Command D} {d d₁ d₂ : D} (h : FailsAt applied d step redos d₁ d₂)
    (htells : ∀ c ∈ applied, Tells inner c) : ∃ events, Quiet events ∧
      traceBack inner applied d = events ++ .applied step :: (inner step d₁ ++ [.refused step]) := by
  obtain ⟨⟨undone, rest, rfl, hundone⟩, e, hfails⟩ := h
  obtain ⟨events, hquiet, heq⟩ :=
    traceBack_collects hundone (fun c hc => htells c (by simp [hc])) (step :: rest)
  refine ⟨events, hquiet, ?_⟩
  rw [heq, Command.traceBack, hfails]
  rfl

/-- A rollback is quiet exactly where none of its inverses fails. -/
theorem quiet_traceBack {inner : Command D → D → List (Event D)} {applied : List (Command D)}
    (htells : ∀ c ∈ applied, Tells inner c) (d : D) : Quiet (traceBack inner applied d) ↔
      ¬ ∃ step redos d₁ d₂, FailsAt applied d step redos d₁ d₂ := by
  constructor
  · rintro hquiet ⟨step, redos, d₁, d₂, hfails⟩
    obtain ⟨events, -, heq⟩ := hfails.traceBack htells
    exact hquiet (.refused step) (by simp [heq]) rfl
  · intro hnever
    rcases collects_or_fails applied d with ⟨redos, d', hall⟩ | ⟨step, redos, d₁, d₂, hfails⟩
    · obtain ⟨events, hquiet, heq⟩ := traceBack_collects hall htells []
      rw [List.append_nil] at heq
      rw [heq]
      exact quiet_append.2 ⟨hquiet, by simp [Quiet, Command.traceBack]⟩
    · exact absurd ⟨step, redos, d₁, d₂, hfails⟩ hnever

/-- It stops where one does. -/
theorem stops_traceBack {inner : Command D → D → List (Event D)} {applied : List (Command D)}
    (htells : ∀ c ∈ applied, Tells inner c) (d : D) : Stops (traceBack inner applied d) ↔
      ¬ ∃ step redos d₁ d₂, FailsAt applied d step redos d₁ d₂ ∧ Overruns step d₁ := by
  have hstops : ∀ {step redos d₁ d₂}, FailsAt applied d step redos d₁ d₂ →
      (Stops (traceBack inner applied d) ↔ ¬ Overruns step d₁) := by
    intro step redos d₁ d₂ hfails
    obtain ⟨events, hquiet, heq⟩ := hfails.traceBack htells
    have hmem : step ∈ applied := by
      obtain ⟨⟨undone, rest, rfl, -⟩, -⟩ := hfails
      simp
    rw [heq, stops_append_of_quiet hquiet, stops_applied, stops_append_refused,
      (htells step hmem).stops]
  constructor
  · rintro h ⟨step, redos, d₁, d₂, hfails, hover⟩
    exact (hstops hfails).1 h hover
  · intro hnever
    by_cases hfails : ∃ step redos d₁ d₂, FailsAt applied d step redos d₁ d₂
    · obtain ⟨step, redos, d₁, d₂, hfails⟩ := hfails
      exact (hstops hfails).2 fun hover => hnever ⟨step, redos, d₁, d₂, hfails, hover⟩
    · exact ((quiet_traceBack htells d).2 hfails).stops

/-! ### Composites -/

theorem Collects.heights_le {before applied : List (Command D)} {d d₁ : D} {n : Nat}
    (h : Collects before d applied d₁) (hbefore : heights before ≤ n) : heights applied ≤ n := by
  induction h with
  | nil => exact Nat.zero_le _
  | snoc rest hstep ih =>
    obtain ⟨hrest, hlast⟩ := heights_append.1 hbefore
    simp only [heights, max_le_iff] at hlast ⊢
    exact ⟨(applyAt_height _ hstep).trans hlast.1, ih hrest⟩

/-- A rollback step of a sequence fails in the step that fails, or on the way back from it. -/
theorem breaks_sequence {label : String} {commands : List (Command D)} {d : D} :
    Breaks (.sequence label commands) d ↔ ∃ step applied d₁ d₂,
      FailsAt commands d step applied d₁ d₂ ∧
        (Breaks step d₁ ∨ ∃ rollback redos d₃ d₄, FailsAt applied d₂ rollback redos d₃ d₄) := by
  constructor
  · rintro ⟨applied, d₁, step, redos, d₂, d₃, hrolls, hback⟩
    cases hrolls with
    | sequence hbefore hfails =>
      exact ⟨_, applied, _, d₁, ⟨⟨_, _, rfl, hbefore⟩, _, hfails⟩, .inr ⟨step, redos, d₂, d₃, hback⟩⟩
    | within hbefore hinner =>
      have hbreaks : Breaks _ _ := ⟨applied, d₁, step, redos, d₂, d₃, hinner, hback⟩
      obtain ⟨original, rollback, d', hfails⟩ := hbreaks.reported
      exact ⟨_, _, _, d', ⟨⟨_, _, rfl, hbefore⟩, _, hfails⟩, .inl hbreaks⟩
  · rintro ⟨step, applied, d₁, d₂, hfails, hbreaks⟩
    exact hfails.breaks hbreaks

/-- One of a merge fails on the way back from the import that fails. -/
theorem breaks_merge {sources : List D} {d : D} : Breaks (.merge sources) d ↔
    ∃ removals d₁, ImportFailsAt sources d removals d₁ ∧
      ∃ rollback redos d₂ d₃, FailsAt removals d₁ rollback redos d₂ d₃ := by
  constructor
  · rintro ⟨removals, d₁, step, redos, d₂, d₃, hrolls, hback⟩
    cases hrolls with
    | merge hbefore hfails =>
      exact ⟨removals, d₁, ⟨_, _, _, _, _, rfl, hbefore, hfails⟩, step, redos, d₂, d₃, hback⟩
  · rintro ⟨removals, d₁, ⟨before, source, after, e, d₀, rfl, hbefore, hfails⟩, step, redos, d₂, d₃, hback⟩
    exact ⟨removals, d₁, step, redos, d₂, d₃, .merge hbefore hfails, hback⟩

/-- Appending some sources takes only removals to undo. -/
theorem Appends.removals {before : List D} {removals : List (Command D)} {d d₁ : D}
    (h : Appends before d removals d₁) : ∀ c ∈ removals, ∃ page, c = removePage page := by
  induction h with
  | nil => simp
  | snoc rest hstep ih =>
    intro c hc
    rcases List.mem_append.1 hc with hnew | hold
    · obtain ⟨page, -, rfl⟩ := List.mem_map.1 (List.mem_reverse.1 hnew)
      exact ⟨page, rfl⟩
    · exact ih c hold

theorem appends_append_or_fails {before : List D} {removals : List (Command D)} {d d₁ : D}
    (h : Appends before d removals d₁) (sources : List D) :
    (∃ removals d', Appends (before ++ sources) d removals d') ∨
      ∃ removals d₂, ImportFailsAt (before ++ sources) d removals d₂ := by
  induction sources generalizing before removals d₁ with
  | nil => exact .inl ⟨removals, d₁, by simpa using h⟩
  | cons source sources ih =>
    rcases hstep : Document.importPages source (Document.pageIds source) (Document.pageCount d₁) d₁ with
      ⟨e | newIds, d₂⟩
    · exact .inr ⟨removals, d₂, before, source, sources, e, d₁, rfl, h, hstep⟩
    · have := ih (h.snoc hstep)
      rwa [List.append_assoc, List.singleton_append] at this

/-- A list of sources is appended to the end, or one of them fails. -/
theorem appends_or_fails (sources : List D) (d : D) :
    (∃ removals d', Appends sources d removals d') ∨
      ∃ removals d₁, ImportFailsAt sources d removals d₁ :=
  appends_append_or_fails .nil sources

theorem breaks_boundInverse {binding : DocumentId} {inverse : Command D} {d : D} :
    Breaks (.boundInverse binding inverse) d ↔ binding = Document.id d ∧ Breaks inverse d := by
  constructor
  · rintro ⟨applied, d₁, step, redos, d₂, d₃, hrolls, hback⟩
    cases hrolls with
    | bound hinner => exact ⟨rfl, applied, d₁, step, redos, d₂, d₃, hinner, hback⟩
  · rintro ⟨rfl, applied, d₁, step, redos, d₂, d₃, hinner, hback⟩
    exact ⟨applied, d₁, step, redos, d₂, d₃, .bound hinner, hback⟩

theorem overruns_boundInverse {binding : DocumentId} {inverse : Command D} {d : D} :
    Overruns (.boundInverse binding inverse) d ↔ binding = Document.id d ∧ Overruns inverse d := by
  constructor
  · rintro ⟨⟩
    exact ⟨rfl, by assumption⟩
  · rintro ⟨rfl, hinner⟩
    exact .bound hinner

section Induction

variable {inner : Command D → D → List (Event D)} {n : Nat}
  (hinner : ∀ c : Command D, c.height ≤ n → Tells inner c)

include hinner

theorem tells_of_heights {commands : List (Command D)} (h : heights commands ≤ n) :
    ∀ c ∈ commands, Tells inner c := fun c hc => hinner c (Command.heights_le.1 h c hc)

/-- A sequence that fails does nothing after the step it fails at but roll back. -/
theorem FailsAt.traceSequence {commands applied : List (Command D)} {step : Command D} {d d₁ d₂ : D}
    (h : FailsAt commands d step applied d₁ d₂) (hn : heights commands ≤ n) :
    Tells inner step ∧ (∀ c ∈ applied, Tells inner c) ∧ ∃ events, Quiet events ∧
      traceSequence inner commands [] d =
        events ++ .applied step :: (inner step d₁ ++ Command.traceBack inner applied d₂) := by
  obtain ⟨⟨before, after, rfl, hbefore⟩, e, hfails⟩ := h
  have htells := tells_of_heights hinner hn
  obtain ⟨events, hquiet, heq⟩ :=
    traceSequence_collects hbefore (fun c hc => htells c (by simp [hc])) (step :: after)
  refine ⟨htells step (by simp), ?_, events, hquiet, ?_⟩
  · exact tells_of_heights hinner (hbefore.heights_le (heights_append.1 hn).1)
  · rw [heq, Command.traceSequence, hfails]
    rfl

/-- What a sequence that fails is known by: the member it fails at, and what is rolled back. -/
theorem FailsAt.quiet_and_stops {label : String} {commands applied : List (Command D)}
    {step : Command D} {d d₁ d₂ : D} (h : FailsAt commands d step applied d₁ d₂)
    (hn : heights commands ≤ n) :
    (Quiet (traceDispatch inner (.sequence label commands) d) ↔
      Quiet (inner step d₁) ∧ Quiet (Command.traceBack inner applied d₂)) ∧
    (Stops (traceDispatch inner (.sequence label commands) d) ↔
      Stops (inner step d₁ ++ Command.traceBack inner applied d₂)) := by
  obtain ⟨-, -, events, hquiet, heq⟩ := h.traceSequence hinner hn
  rw [traceDispatch, heq]
  constructor
  · rw [quiet_append, quiet_applied, quiet_append]
    exact and_iff_right hquiet
  · rw [stops_append_of_quiet hquiet, stops_applied]

/-- A sequence tells what its steps tell. -/
theorem sequence_tells {label : String} {commands : List (Command D)} (hn : heights commands ≤ n) :
    Tells (traceDispatch inner) (.sequence label commands) := by
  have hcollected : ∀ {d inverses d'}, Collects commands d inverses d' →
      Quiet (Command.traceSequence inner commands [] d) := by
    intro d inverses d' hall
    obtain ⟨events, hquiet, heq⟩ := traceSequence_collects hall (tells_of_heights hinner hn) []
    rw [List.append_nil] at heq
    rw [heq]
    exact quiet_append.2 ⟨hquiet, by simp [Quiet, Command.traceSequence]⟩
  constructor
  · intro d
    rw [breaks_sequence]
    constructor
    · rintro hquiet ⟨step, applied, d₁, d₂, hfails, hbreaks⟩
      obtain ⟨hstep, happlied, -⟩ := hfails.traceSequence hinner hn
      rw [(hfails.quiet_and_stops hinner hn).1, hstep.breaks, quiet_traceBack happlied] at hquiet
      exact hbreaks.elim hquiet.1 hquiet.2
    · intro hnever
      rcases collects_or_fails commands d with ⟨inverses, d', hall⟩ | ⟨step, applied, d₁, d₂, hfails⟩
      · exact hcollected hall
      · obtain ⟨hstep, happlied, -⟩ := hfails.traceSequence hinner hn
        rw [(hfails.quiet_and_stops hinner hn).1, hstep.breaks, quiet_traceBack happlied]
        exact ⟨fun h => hnever ⟨step, applied, d₁, d₂, hfails, .inl h⟩,
          fun h => hnever ⟨step, applied, d₁, d₂, hfails, .inr h⟩⟩
  · intro d
    constructor
    · intro hstops hover
      cases hover with
      | unheeded hfails hinverse hbreaks =>
        obtain ⟨hstep, -⟩ := hfails.traceSequence hinner hn
        rw [(hfails.quiet_and_stops hinner hn).2] at hstops
        obtain ⟨rollback, rest, rfl⟩ := List.exists_cons_of_ne_nil hinverse
        exact stops_append_applied (fun h => (hstep.breaks _).1 h hbreaks) hstops
      | member hfails hover =>
        obtain ⟨hstep, -⟩ := hfails.traceSequence hinner hn
        rw [(hfails.quiet_and_stops hinner hn).2] at hstops
        exact (hstep.stops _).1 (List.pairwise_append.1 hstops).1 hover
      | undoing hfails hback hover =>
        obtain ⟨-, happlied, -⟩ := hfails.traceSequence hinner hn
        rw [(hfails.quiet_and_stops hinner hn).2] at hstops
        exact (stops_traceBack happlied _).1 (List.pairwise_append.1 hstops).2.1
          ⟨_, _, _, _, hback, hover⟩
    · intro hnever
      rcases collects_or_fails commands d with ⟨inverses, d', hall⟩ | ⟨step, applied, d₁, d₂, hfails⟩
      · exact (hcollected hall).stops
      · obtain ⟨hstep, happlied, -⟩ := hfails.traceSequence hinner hn
        rw [(hfails.quiet_and_stops hinner hn).2]
        have hback : Stops (Command.traceBack inner applied d₂) :=
          (stops_traceBack happlied d₂).2 fun ⟨_, _, _, _, hfails', hover⟩ =>
            hnever (.undoing hfails hfails' hover)
        have hmember : Stops (inner step d₁) := (hstep.stops d₁).2 fun h => hnever (.member hfails h)
        by_cases hbreaks : Breaks step d₁
        · -- nothing was in hand, so nothing is rolled back
          have hnone : applied = [] := Decidable.byContradiction fun h =>
            hnever (.unheeded hfails h hbreaks)
          rw [hnone, Command.traceBack, List.append_nil]
          exact hmember
        · exact (stops_append_of_quiet ((hstep.breaks d₁).2 hbreaks)).2 hback

/-- A merge that fails does nothing after the import it fails at but take pages out again. -/
theorem ImportFailsAt.traceMerge {sources : List D} {removals : List (Command D)} {d d₁ : D}
    (h : ImportFailsAt sources d removals d₁) (hn : 1 ≤ n) : (∀ c ∈ removals, Tells inner c) ∧
      (∀ c ∈ removals, ∃ page, c = removePage page) ∧ ∃ events, Quiet events ∧
        traceMerge inner sources [] d = events ++ Command.traceBack inner removals d₁ := by
  obtain ⟨before, source, after, e, d₀, rfl, hbefore, hfails⟩ := h
  obtain ⟨events, hquiet, heq⟩ := traceMerge_appends inner hbefore (source :: after)
  refine ⟨?_, hbefore.removals, events ++ [.appended source], ?_, ?_⟩
  · intro c hc
    obtain ⟨page, rfl⟩ := hbefore.removals c hc
    exact hinner _ hn
  · exact quiet_append.2 ⟨hquiet, by simp [Quiet, Event.refuses]⟩
  · rw [heq, Command.traceMerge, hfails]
    simp

/-- No removal rolls anything back, so a merge never overruns. -/
theorem merge_tells {sources : List D} (hn : 1 ≤ n) : Tells (traceDispatch inner) (.merge sources) := by
  have happended : ∀ {d removals d'}, Appends sources d removals d' →
      Quiet (Command.traceMerge inner sources [] d) := by
    intro d removals d' hall
    obtain ⟨events, hquiet, heq⟩ := traceMerge_appends inner hall []
    rw [List.append_nil] at heq
    rw [heq]
    exact quiet_append.2 ⟨hquiet, by simp [Quiet, Command.traceMerge]⟩
  constructor
  · intro d
    rw [breaks_merge]
    constructor
    · rintro hquiet ⟨removals, d₁, hfails, hback⟩
      obtain ⟨htells, -, events, -, heq⟩ := hfails.traceMerge hinner hn
      rw [traceDispatch, heq, quiet_append, quiet_traceBack htells] at hquiet
      exact hquiet.2 hback
    · intro hnever
      rcases appends_or_fails sources d with ⟨removals, d', hall⟩ | ⟨removals, d₁, hfails⟩
      · exact happended hall
      · obtain ⟨htells, -, events, hquiet, heq⟩ := hfails.traceMerge hinner hn
        rw [traceDispatch, heq, quiet_append, quiet_traceBack htells]
        exact ⟨hquiet, fun hback => hnever ⟨removals, d₁, hfails, hback⟩⟩
  · intro d
    refine iff_of_true ?_ (fun hover => by cases hover)
    rcases appends_or_fails sources d with ⟨removals, d', hall⟩ | ⟨removals, d₁, hfails⟩
    · exact (happended hall).stops
    · obtain ⟨htells, hremovals, events, hquiet, heq⟩ := hfails.traceMerge hinner hn
      rw [traceDispatch, heq, stops_append_of_quiet hquiet, stops_traceBack htells]
      rintro ⟨step, redos, d₂, d₃, ⟨⟨undone, rest, rfl, -⟩, -⟩, hover⟩
      obtain ⟨page, rfl⟩ := hremovals step (by simp)
      cases hover

theorem boundInverse_tells {binding : DocumentId} {inverse : Command D} (hn : inverse.height ≤ n) :
    Tells (traceDispatch inner) (.boundInverse binding inverse) := by
  have htells := hinner inverse hn
  constructor
  · intro d
    rw [breaks_boundInverse, traceDispatch]
    split
    · rename_i hne
      simp [Quiet, hne]
    · rename_i heq
      rw [not_not] at heq
      simp only [heq, true_and, quiet_applied, htells.breaks]
  · intro d
    rw [overruns_boundInverse, traceDispatch]
    split
    · rename_i hne
      exact iff_of_true List.Pairwise.nil fun h => hne h.1
    · rename_i heq
      rw [not_not] at heq
      simp only [heq, true_and, stops_applied, htells.stops]

end Induction

/-- A command that is no composite applies nothing else. -/
theorem leaf_tells {inner : Command D → D → List (Event D)} {c : Command D}
    (htrace : ∀ d, traceDispatch inner c d = []) (hrolls : ∀ d applied d₁, ¬ RollsBack c d applied d₁)
    (hover : ∀ d, ¬ Overruns c d) : Tells (traceDispatch inner) c := by
  constructor
  · intro d
    rw [htrace]
    refine iff_of_true (by simp [Quiet]) ?_
    rintro ⟨applied, d₁, _, _, _, _, h, -⟩
    exact hrolls d applied d₁ h
  · intro d
    rw [htrace]
    exact iff_of_true List.Pairwise.nil (hover d)

/-- At every bound a command stays under, its trace tells. -/
theorem traceAt_tells {n : Nat} {c : Command D} (hn : c.height ≤ n) : Tells (traceAt n) c := by
  induction n generalizing c with
  | zero => exact absurd (height_pos c) (by omega)
  | succ n ih =>
    have hinner : ∀ c : Command D, c.height ≤ n → Tells (traceAt n) c := fun c hc => ih hc
    cases c with
    | sequence label commands => exact sequence_tells hinner (Nat.le_of_succ_le_succ hn)
    | merge sources => exact merge_tells hinner (Nat.le_of_succ_le_succ hn)
    | boundInverse binding inverse => exact boundInverse_tells hinner (Nat.le_of_succ_le_succ hn)
    | _ => exact leaf_tells (fun _ => rfl) (fun _ _ _ h => by cases h) fun _ h => by cases h

/-- Rollback stops for good at the first step that fails, and reports it, exactly where no sequence
holding an inverse meets a step inside which a rollback step fails. -/
theorem rollback_stops_iff (c : Command D) (d : D) :
    (Stops (c.trace d) ∧ (¬ Quiet (c.trace d) →
      ∃ original rollback, (c.apply d).1 = .error (.rollbackFailed original rollback))) ↔
      ¬ Overruns c d := by
  have htells := traceAt_tells (Nat.le_refl c.height)
  have hreported : ¬ Quiet (c.trace d) →
      ∃ original rollback, (c.apply d).1 = .error (.rollbackFailed original rollback) := by
    intro hrefused
    rw [trace, htells.breaks, not_not] at hrefused
    obtain ⟨original, rollback, d', happly⟩ := hrefused.reported
    exact ⟨original, rollback, by rw [happly]⟩
  rw [and_iff_left hreported]
  exact htells.stops d

end Stops
end Command

/-- A document over a device that refuses some mutations. -/
structure FaultyDocument where
  pages : VecDocument
  /-- Whether each of the next mutations is refused. -/
  refusals : List Bool

namespace FaultyDocument

def attempt (mutate : VecDocument → Outcome VecDocument α) (d : FaultyDocument) :
    Outcome FaultyDocument α :=
  match d.refusals with
  | true :: refusals => (.error (.unsupported "the device refused"), { d with refusals })
  | refusals =>
    let (result, pages) := mutate d.pages
    (result, ⟨pages, refusals.tail⟩)

instance : Document FaultyDocument where
  id d := d.pages.id
  revision d := d.pages.revision
  pageCount d := Document.pageCount d.pages
  pageIds d := Document.pageIds d.pages
  page id d := d.pages.page id
  indexOf id d := Document.indexOf id d.pages
  removePage id := attempt (VecDocument.removePage id)
  restorePage id atIndex := attempt (VecDocument.restorePage id atIndex)
  movePage id toIndex := attempt (VecDocument.movePage id toIndex)
  setRotation id rotation := attempt (VecDocument.setRotation id rotation)
  insertPage atIndex size := attempt (VecDocument.insertPage atIndex size)
  importPages source ids atIndex := attempt (VecDocument.importPages source.pages ids atIndex)

/-- The device refuses the third mutation: turning the second page back. -/
def refusesThird : FaultyDocument := ⟨VecDocument.withPages 1 2 .a4, [false, false, true]⟩

def turnBoth : Command FaultyDocument :=
  .sequence "Turn both" [.setRotation 0 .quarter,
    .sequence "Turn and remove" [.setRotation 1 .quarter, .removePage 7]]

/-- After the inner rollback failed, the outer one still turns the first page back. -/
theorem outer_rollback_goes_on : ¬ (Command.Stops (turnBoth.trace refusesThird) ∧
    (¬ Command.Quiet (turnBoth.trace refusesThird) → ∃ original rollback,
      (turnBoth.apply refusesThird).1 = .error (.rollbackFailed original rollback))) := by
  rintro ⟨hstops, -⟩
  revert hstops
  unfold Command.Stops
  decide +kernel

end FaultyDocument
end OpdfEditor
