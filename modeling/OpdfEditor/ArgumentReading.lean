import OpdfEditor.ArgumentLine

/-!
What the flags and positionals of a line ask a subcommand for, and that its parser takes
each of them once, whatever order the flags are in.
-/
namespace OpdfEditor

open CommandLine

theorem bind_eq_ok {ε α β : Type} {x : Except ε α} {f : α → Except ε β} {b : β} :
    x >>= f = .ok b ↔ ∃ a, x = .ok a ∧ f a = .ok b := by
  cases x with
  | error e =>
    constructor
    · intro h
      cases h
    · rintro ⟨a, h, -⟩
      cases h
  | ok a =>
    constructor
    · exact fun h => ⟨a, rfl, h⟩
    · rintro ⟨a', h, hf⟩
      cases h
      exact hf

theorem ok_bind {ε α β : Type} (a : α) (f : α → Except ε β) : (Except.ok a >>= f) = f a := rfl

/-! ### What flags and positionals ask for -/

def forceFlag : Bool → List (String × Option OsString)
  | true => [("force", none)]
  | false => []

def outFlag : Option OsString → List (String × Option OsString)
  | some path => [("out", some path)]
  | none => []

/-- What a subcommand is asked for by its positionals, in order, and its flags, in whatever order:
all of them say something, and nothing else is said. -/
inductive Denotes :
    Subcommand → List OsString → List (String × Option OsString) → Invocation → Prop
  | merge {output : OsString} {inputs : List OsString} {force : Bool}
      {flags : List (String × Option OsString)} (nonempty : inputs ≠ [])
      (used : flags.Perm (forceFlag force)) :
      Denotes .merge (output :: inputs) flags (.merge ⟨output, inputs, force⟩)
  | split {input at_ outA outB : OsString} {atPage : Nat} {force : Bool}
      {flags : List (String × Option OsString)} (number : readPageNumber at_ = .ok atPage)
      (used : flags.Perm
        (forceFlag force ++ [("at", some at_), ("out-a", some outA), ("out-b", some outB)])) :
      Denotes .split [input] flags (.split ⟨input, atPage, outA, outB, force⟩)
  | rotate {input selected turned : OsString} {pages : PageSelection} {rotation : Rotation}
      {output : Option OsString} {force : Bool} {flags : List (String × Option OsString)}
      (selection : readSelection selected = .ok pages) (turn : readRotation turned = .ok rotation)
      (used : flags.Perm
        (forceFlag force ++ ("pages", some selected) :: ("degrees", some turned) :: outFlag output)) :
      Denotes .rotate [input] flags (.rotate ⟨input, pages, rotation, output, force⟩)
  | extract {input selected output : OsString} {pages : PageSelection} {force : Bool}
      {flags : List (String × Option OsString)} (selection : readSelection selected = .ok pages)
      (used : flags.Perm (forceFlag force ++ [("pages", some selected), ("out", some output)])) :
      Denotes .extract [input] flags (.extract ⟨input, pages, output, force⟩)

/-- The order of flags has no meaning. -/
theorem Denotes.of_perm {subcommand : Subcommand} {positionals : List OsString}
    {flags flags' : List (String × Option OsString)} {invocation : Invocation}
    (h : Denotes subcommand positionals flags invocation) (hperm : flags'.Perm flags) :
    Denotes subcommand positionals flags' invocation := by
  cases h with
  | merge nonempty used => exact .merge nonempty (hperm.trans used)
  | split number used => exact .split number (hperm.trans used)
  | rotate selection turn used => exact .rotate selection turn (hperm.trans used)
  | extract selection used => exact .extract selection (hperm.trans used)

/-! ### Taking flags -/

/-- The entry found first goes. -/
theorem perm_cons_eraseP {α : Type} {p : α → Bool} {xs : List α} {x : α}
    (h : xs.find? p = some x) : xs.Perm (x :: xs.eraseP p) := by
  induction xs with
  | nil => cases h
  | cons first xs ih =>
    by_cases hfirst : p first = true
    · rw [List.find?_cons_of_pos hfirst] at h
      cases h
      rw [List.eraseP_cons_of_pos hfirst]
    · rw [List.find?_cons_of_neg hfirst] at h
      rw [List.eraseP_cons_of_neg hfirst]
      exact ((ih h).cons first).trans (.swap x first _)

/-- Switches have no value, and every other flag has one. -/
def Valued (flags : List (String × Option OsString)) : Prop :=
  ∀ flag ∈ flags, flag.1 ∈ switches ↔ flag.2 = none

namespace CommandLine

variable {line line' : CommandLine} {name subcommand : String} {value : OsString}
  {flags : List (String × Option OsString)}

theorem find_flag {entry : Option OsString} (hnodup : (line.flags.map Prod.fst).Nodup)
    (hmem : (name, entry) ∈ line.flags) : line.flags.find? (·.1 = name) = some (name, entry) := by
  cases hfind : line.flags.find? (·.1 = name) with
  | none =>
    have hnone := List.find?_eq_none.1 hfind _ hmem
    simp at hnone
  | some found =>
    have hname : found.1 = name := by simpa using List.find?_some hfind
    have hsame := List.inj_on_of_nodup_map hnodup (List.mem_of_find?_eq_some hfind) hmem hname
    rw [hsame]

/-- Taking the value of a flag takes one flag off the line and leaves the rest, in some order. -/
theorem takeValue_ok (h : line.takeValue name = .ok (some value, line')) :
    line.flags.Perm ((name, some value) :: line'.flags) ∧ line'.positionals = line.positionals := by
  unfold takeValue at h
  split at h
  · cases h
  · cases h
  · rename_i found value' hfind
    cases h
    have hname : found = name := by simpa using List.find?_some hfind
    subst hname
    exact ⟨perm_cons_eraseP hfind, rfl⟩

theorem takeValue_none (h : line.takeValue name = .ok (none, line')) : line' = line := by
  unfold takeValue at h
  split at h
  · cases h
    rfl
  · cases h
  · cases h

/-- A flag given once is found wherever it stands. -/
theorem takeValue_of_perm (line : CommandLine) (hnodup : (line.flags.map Prod.fst).Nodup)
    (hperm : line.flags.Perm ((name, some value) :: flags)) :
    ∃ rest, line.takeValue name = .ok (some value, ⟨line.positionals, rest⟩) ∧ rest.Perm flags := by
  have hfind := find_flag hnodup (hperm.mem_iff.2 List.mem_cons_self)
  refine ⟨line.flags.eraseP (·.1 = name), ?_, ?_⟩
  · rw [takeValue, hfind]
  · exact (List.perm_cons _).1 ((perm_cons_eraseP hfind).symm.trans hperm)

theorem takeValue_absent (h : name ∉ line.flags.map Prod.fst) :
    line.takeValue name = .ok (none, line) := by
  have hfind : line.flags.find? (·.1 = name) = none := by
    rw [List.find?_eq_none]
    intro flag hflag hname
    exact h (List.mem_map.2 ⟨flag, hflag, by simpa using hname⟩)
  rw [takeValue, hfind]

theorem requireValue_ok (h : line.requireValue name subcommand = .ok (value, line')) :
    line.flags.Perm ((name, some value) :: line'.flags) ∧ line'.positionals = line.positionals := by
  unfold requireValue at h
  split at h
  · cases h
  · cases h
  · rename_i htake
    cases h
    exact takeValue_ok htake

theorem requireValue_of_perm (line : CommandLine) (hnodup : (line.flags.map Prod.fst).Nodup)
    (hperm : line.flags.Perm ((name, some value) :: flags)) (subcommand : String) :
    ∃ rest, line.requireValue name subcommand = .ok (value, ⟨line.positionals, rest⟩) ∧
      rest.Perm flags := by
  obtain ⟨rest, htake, hrest⟩ := takeValue_of_perm line hnodup hperm
  exact ⟨rest, by rw [requireValue, htake], hrest⟩

/-- The only switch is taken where it is given. -/
theorem takeForce {force : Bool} (hvalued : Valued line.flags)
    (h : line.takeSwitch "force" = (force, line')) :
    line.flags.Perm (forceFlag force ++ line'.flags) ∧ line'.positionals = line.positionals := by
  unfold takeSwitch at h
  split_ifs at h with hany
  · cases h
    refine ⟨?_, rfl⟩
    cases hfind : line.flags.find? (·.1 = "force") with
    | none =>
      obtain ⟨flag, hflag, hname⟩ := List.any_eq_true.1 hany
      exact absurd hname (List.find?_eq_none.1 hfind flag hflag)
    | some found =>
      obtain ⟨name, entry⟩ := found
      have hname : name = "force" := by simpa using List.find?_some hfind
      have hentry : entry = none := by
        refine (hvalued _ (List.mem_of_find?_eq_some hfind)).1 ?_
        rw [hname]
        exact List.mem_singleton_self _
      rw [hname, hentry] at hfind
      exact perm_cons_eraseP hfind
  · cases h
    exact ⟨.refl _, rfl⟩

/-- Likewise for the switch that stands alone. -/
theorem takeForce_of_perm (hnodup : (line.flags.map Prod.fst).Nodup) {force : Bool}
    (hperm : line.flags.Perm (forceFlag force ++ flags)) (hother : "force" ∉ flags.map Prod.fst) :
    ∃ rest, line.takeSwitch "force" = (force, ⟨line.positionals, rest⟩) ∧ rest.Perm flags := by
  have hmem : "force" ∈ line.flags.map Prod.fst ↔ force = true := by
    rw [(hperm.map Prod.fst).mem_iff, List.map_append, List.mem_append, or_iff_left hother]
    cases force <;> simp [forceFlag]
  unfold takeSwitch
  cases force with
  | true =>
    have hfind := find_flag hnodup (hperm.mem_iff.2 List.mem_cons_self)
    rw [if_pos (any_eq_true.2 (hmem.2 rfl))]
    exact ⟨_, rfl, (List.perm_cons _).1 ((perm_cons_eraseP hfind).symm.trans hperm)⟩
  | false =>
    rw [if_neg fun hany => Bool.false_ne_true (hmem.1 (any_eq_true.1 hany))]
    exact ⟨_, rfl, hperm⟩

theorem takeOne_ok {expected : String} {paths : List.Vector OsString 1}
    (h : line.takePositionals 1 expected = .ok (paths, line')) :
    line.positionals = paths.head :: line'.positionals ∧ line'.flags = line.flags := by
  obtain ⟨positionals, flags⟩ := line
  unfold takePositionals at h
  cases positionals with
  | nil => cases h
  | cons path rest =>
    rw [dif_neg (by simp)] at h
    cases h
    exact ⟨rfl, rfl⟩

theorem takeOne_cons (path : OsString) (rest : List OsString)
    (flags : List (String × Option OsString)) (expected : String) :
    (⟨path :: rest, flags⟩ : CommandLine).takePositionals 1 expected =
      .ok (⟨[path], rfl⟩, ⟨rest, flags⟩) := by
  rw [takePositionals, dif_neg (by simp)]
  rfl

/-- Nothing is left over exactly on the empty line. -/
theorem rejectLeftovers_ok : line.rejectLeftovers = .ok () ↔ line = ⟨[], []⟩ := by
  obtain ⟨positionals, flags⟩ := line
  unfold rejectLeftovers
  constructor
  · intro h
    split at h
    · cases h
    split at h
    · cases h
    simp_all
  · intro h
    cases h
    rfl

/-! ### Reading what was separated -/

/-- What a parser leaves behind is nothing. -/
def Uses {α : Type} (parsed : Except CliError (α × CommandLine)) (args : α) : Prop :=
  parsed = .ok (args, ⟨[], []⟩)

/-- What `merge` reads, leaving nothing, is what the line says. -/
theorem parseMerge_uses {args : MergeArgs} (hvalued : Valued line.flags)
    (h : Uses line.parseMerge args) :
    Denotes .merge line.positionals line.flags (.merge args) := by
  rcases hswitch : line.takeSwitch "force" with ⟨force, line₀⟩
  obtain ⟨hflags, hpositionals⟩ := takeForce hvalued hswitch
  rw [Uses, parseMerge, hswitch] at h
  obtain ⟨⟨paths, line₁⟩, htake, h⟩ := bind_eq_ok.1 h
  obtain ⟨hpath, hkept⟩ := takeOne_ok htake
  dsimp only [takeRemainingPositionals] at h
  split_ifs at h with hempty
  simp only [Except.ok.injEq, Prod.mk.injEq, CommandLine.mk.injEq] at h
  obtain ⟨rfl, -, hnil⟩ := h
  rw [← hkept, hnil, List.append_nil] at hflags
  rw [← hpositionals, hpath]
  exact .merge (fun hinputs => hempty (by rw [hinputs]; rfl)) hflags

/-- What `split` reads, leaving nothing, is what the line says. -/
theorem parseSplit_uses {args : SplitArgs} (hvalued : Valued line.flags)
    (h : Uses line.parseSplit args) :
    Denotes .split line.positionals line.flags (.split args) := by
  rcases hswitch : line.takeSwitch "force" with ⟨force, line₀⟩
  obtain ⟨hflags, hpositionals⟩ := takeForce hvalued hswitch
  rw [Uses, parseSplit, hswitch] at h
  obtain ⟨⟨at_, line₁⟩, hat, h⟩ := bind_eq_ok.1 h
  obtain ⟨atPage, hnumber, h⟩ := bind_eq_ok.1 h
  obtain ⟨⟨outA, line₂⟩, houtA, h⟩ := bind_eq_ok.1 h
  obtain ⟨⟨outB, line₃⟩, houtB, h⟩ := bind_eq_ok.1 h
  obtain ⟨⟨paths, line₄⟩, htake, h⟩ := bind_eq_ok.1 h
  cases h
  obtain ⟨hatFlags, hatPositionals⟩ := requireValue_ok hat
  obtain ⟨houtAFlags, houtAPositionals⟩ := requireValue_ok houtA
  obtain ⟨houtBFlags, houtBPositionals⟩ := requireValue_ok houtB
  obtain ⟨hpath, hkept⟩ := takeOne_ok htake
  have hrest : line₀.flags.Perm
      [("at", some at_), ("out-a", some outA), ("out-b", some outB)] :=
    hatFlags.trans ((houtAFlags.trans ((hkept ▸ houtBFlags).cons _)).cons _)
  rw [← hpositionals, ← hatPositionals, ← houtAPositionals, ← houtBPositionals, hpath]
  exact .split hnumber (hflags.trans (hrest.append_left _))

/-- What `rotate` reads, leaving nothing, is what the line says. -/
theorem parseRotate_uses {args : RotateArgs} (hvalued : Valued line.flags)
    (h : Uses line.parseRotate args) :
    Denotes .rotate line.positionals line.flags (.rotate args) := by
  rcases hswitch : line.takeSwitch "force" with ⟨force, line₀⟩
  obtain ⟨hflags, hpositionals⟩ := takeForce hvalued hswitch
  rw [Uses, parseRotate, hswitch] at h
  obtain ⟨⟨selected, line₁⟩, hpages, h⟩ := bind_eq_ok.1 h
  obtain ⟨pages, hselection, h⟩ := bind_eq_ok.1 h
  obtain ⟨⟨turned, line₂⟩, hdegrees, h⟩ := bind_eq_ok.1 h
  obtain ⟨rotation, hturn, h⟩ := bind_eq_ok.1 h
  obtain ⟨⟨output, line₃⟩, hout, h⟩ := bind_eq_ok.1 h
  obtain ⟨⟨paths, line₄⟩, htake, h⟩ := bind_eq_ok.1 h
  cases h
  obtain ⟨hpagesFlags, hpagesPositionals⟩ := requireValue_ok hpages
  obtain ⟨hdegreesFlags, hdegreesPositionals⟩ := requireValue_ok hdegrees
  obtain ⟨hpath, hkept⟩ := takeOne_ok htake
  have houtFlags : line₂.flags.Perm (outFlag output) ∧ line₃.positionals = line₂.positionals := by
    cases output with
    | some output =>
      obtain ⟨houtFlags, houtPositionals⟩ := takeValue_ok hout
      rw [← hkept] at houtFlags
      exact ⟨houtFlags, houtPositionals⟩
    | none =>
      rw [takeValue_none hout] at hkept ⊢
      rw [← hkept]
      exact ⟨.refl _, rfl⟩
  have hrest := hpagesFlags.trans ((hdegreesFlags.trans (houtFlags.1.cons _)).cons _)
  rw [← hpositionals, ← hpagesPositionals, ← hdegreesPositionals, ← houtFlags.2, hpath]
  exact .rotate hselection hturn (hflags.trans (hrest.append_left _))

/-- What `extract` reads, leaving nothing, is what the line says. -/
theorem parseExtract_uses {args : ExtractArgs} (hvalued : Valued line.flags)
    (h : Uses line.parseExtract args) :
    Denotes .extract line.positionals line.flags (.extract args) := by
  rcases hswitch : line.takeSwitch "force" with ⟨force, line₀⟩
  obtain ⟨hflags, hpositionals⟩ := takeForce hvalued hswitch
  rw [Uses, parseExtract, hswitch] at h
  obtain ⟨⟨selected, line₁⟩, hpages, h⟩ := bind_eq_ok.1 h
  obtain ⟨pages, hselection, h⟩ := bind_eq_ok.1 h
  obtain ⟨⟨output, line₂⟩, hout, h⟩ := bind_eq_ok.1 h
  obtain ⟨⟨paths, line₃⟩, htake, h⟩ := bind_eq_ok.1 h
  cases h
  obtain ⟨hpagesFlags, hpagesPositionals⟩ := requireValue_ok hpages
  obtain ⟨houtFlags, houtPositionals⟩ := requireValue_ok hout
  obtain ⟨hpath, hkept⟩ := takeOne_ok htake
  have hrest : line₀.flags.Perm
      [("pages", some selected), ("out", some output)] :=
    hpagesFlags.trans ((hkept ▸ houtFlags).cons _)
  rw [← hpositionals, ← hpagesPositionals, ← houtPositionals, hpath]
  exact .extract hselection (hflags.trans (hrest.append_left _))

/-! ### Separating what is to be read -/

/-- Flags taken off a line leave the others distinct. -/
theorem nodup_of_perm {rest flags' : List (String × Option OsString)}
    (taken : List (String × Option OsString)) (hnodup : (flags.map Prod.fst).Nodup)
    (hperm : flags.Perm (taken ++ rest)) (hrest : flags'.Perm rest) : (flags'.map Prod.fst).Nodup := by
  rw [(hperm.map Prod.fst).nodup_iff, List.map_append, List.nodup_append] at hnodup
  exact (hrest.map Prod.fst).nodup_iff.2 hnodup.2.1

/-- A line that says to merge is read so, wherever its flags stand. -/
theorem uses_merge {args : MergeArgs} (hnodup : (line.flags.map Prod.fst).Nodup)
    (h : Denotes .merge line.positionals line.flags (.merge args)) : Uses line.parseMerge args := by
  obtain ⟨positionals, flags⟩ := line
  cases h with
  | @merge output inputs force _ nonempty used =>
    obtain ⟨rest, htake, hrest⟩ := takeForce_of_perm hnodup
      (by rwa [List.append_nil] : flags.Perm (forceFlag force ++ [])) (by simp)
    rw [hrest.eq_nil] at htake
    rw [Uses, parseMerge]
    simp only [htake, takeOne_cons, ok_bind, takeRemainingPositionals, List.isEmpty_iff, nonempty]
    rfl

/-- A line that says to split is read so. -/
theorem uses_split {args : SplitArgs} (hnodup : (line.flags.map Prod.fst).Nodup)
    (h : Denotes .split line.positionals line.flags (.split args)) : Uses line.parseSplit args := by
  obtain ⟨positionals, flags⟩ := line
  cases h with
  | @split input at_ outA outB atPage force _ number used =>
    obtain ⟨rest, htake, hrest⟩ := takeForce_of_perm hnodup used (by simp)
    have hnodup₁ := nodup_of_perm _ hnodup used hrest
    obtain ⟨rest₁, hat, hrest₁⟩ :=
      requireValue_of_perm ⟨[input], rest⟩ hnodup₁ hrest "split"
    have hnodup₂ := nodup_of_perm [_] hnodup₁ hrest hrest₁
    obtain ⟨rest₂, houtA, hrest₂⟩ :=
      requireValue_of_perm ⟨[input], rest₁⟩ hnodup₂ hrest₁ "split"
    have hnodup₃ := nodup_of_perm [_] hnodup₂ hrest₁ hrest₂
    obtain ⟨rest₃, houtB, hrest₃⟩ :=
      requireValue_of_perm ⟨[input], rest₂⟩ hnodup₃ hrest₂ "split"
    rw [hrest₃.eq_nil] at houtB
    rw [Uses, parseSplit]
    simp only [htake, hat, number, houtA, houtB, takeOne_cons, ok_bind]
    rfl

/-- A line that says to rotate is read so. -/
theorem uses_rotate {args : RotateArgs} (hnodup : (line.flags.map Prod.fst).Nodup)
    (h : Denotes .rotate line.positionals line.flags (.rotate args)) :
    Uses line.parseRotate args := by
  obtain ⟨positionals, flags⟩ := line
  cases h with
  | @rotate input selected turned pages rotation output force _ selection turn used =>
    obtain ⟨rest, htake, hrest⟩ := takeForce_of_perm hnodup used (by cases output <;> simp [outFlag])
    have hnodup₁ := nodup_of_perm _ hnodup used hrest
    obtain ⟨rest₁, hpages, hrest₁⟩ :=
      requireValue_of_perm ⟨[input], rest⟩ hnodup₁ hrest "rotate"
    have hnodup₂ := nodup_of_perm [_] hnodup₁ hrest hrest₁
    obtain ⟨rest₂, hdegrees, hrest₂⟩ :=
      requireValue_of_perm ⟨[input], rest₁⟩ hnodup₂ hrest₁ "rotate"
    have hnodup₃ := nodup_of_perm [_] hnodup₂ hrest₁ hrest₂
    have hout : (⟨[input], rest₂⟩ : CommandLine).takeValue "out" =
        .ok (output, ⟨[input], []⟩) := by
      cases output with
      | some path =>
        obtain ⟨rest₃, hout, hrest₃⟩ :=
          takeValue_of_perm ⟨[input], rest₂⟩ hnodup₃ hrest₂
        rw [hout, hrest₃.eq_nil]
      | none =>
        obtain rfl := hrest₂.eq_nil
        exact takeValue_absent (by simp)
    rw [Uses, parseRotate]
    simp only [htake, hpages, selection, hdegrees, turn, hout, takeOne_cons, ok_bind]
    rfl

/-- A line that says to extract is read so. -/
theorem uses_extract {args : ExtractArgs} (hnodup : (line.flags.map Prod.fst).Nodup)
    (h : Denotes .extract line.positionals line.flags (.extract args)) :
    Uses line.parseExtract args := by
  obtain ⟨positionals, flags⟩ := line
  cases h with
  | @extract input selected output pages force _ selection used =>
    obtain ⟨rest, htake, hrest⟩ := takeForce_of_perm hnodup used (by simp)
    have hnodup₁ := nodup_of_perm _ hnodup used hrest
    obtain ⟨rest₁, hpages, hrest₁⟩ :=
      requireValue_of_perm ⟨[input], rest⟩ hnodup₁ hrest "extract"
    have hnodup₂ := nodup_of_perm [_] hnodup₁ hrest hrest₁
    obtain ⟨rest₂, hout, hrest₂⟩ :=
      requireValue_of_perm ⟨[input], rest₁⟩ hnodup₂ hrest₁ "extract"
    rw [hrest₂.eq_nil] at hout
    rw [Uses, parseExtract]
    simp only [htake, hpages, selection, hout, takeOne_cons, ok_bind]
    rfl

/-- A subcommand reads what is asked of it, where what its parser uses up is what is asked and nothing
else is asked. -/
theorem reads_iff {α : Type} {parsed : Except CliError (α × CommandLine)} {wrap : α → Invocation}
    {asked : Invocation → Prop} (hasked : ∀ args, Uses parsed args ↔ asked (wrap args))
    (honly : ∀ invocation, asked invocation → ∃ args, invocation = wrap args)
    {invocation : Invocation} :
    (parsed.map fun (args, line) => (wrap args, line)) = .ok (invocation, ⟨[], []⟩) ↔
      asked invocation := by
  constructor
  · intro h
    cases parsed with
    | error e => cases h
    | ok result =>
      obtain ⟨args, line⟩ := result
      cases h
      exact (hasked args).1 rfl
  · intro h
    obtain ⟨args, rfl⟩ := honly invocation h
    have huses : parsed = .ok (args, ⟨[], []⟩) := (hasked args).2 h
    rw [huses]
    rfl

end CommandLine

namespace Subcommand

/-- A subcommand reads a separated line as what its positionals and flags ask for. -/
theorem interpret_iff {subcommand : Subcommand} {line : CommandLine}
    (hnodup : (line.flags.map Prod.fst).Nodup) (hvalued : Valued line.flags)
    {invocation : Invocation} :
    subcommand.interpret line = .ok (invocation, ⟨[], []⟩) ↔
      Denotes subcommand line.positionals line.flags invocation := by
  obtain ⟨positionals, flags⟩ := line
  cases subcommand with
  | merge =>
    refine reads_iff (fun args => ⟨parseMerge_uses hvalued, uses_merge hnodup⟩) fun invocation h => ?_
    cases h
    exact ⟨_, rfl⟩
  | split =>
    refine reads_iff (fun args => ⟨parseSplit_uses hvalued, uses_split hnodup⟩) fun invocation h => ?_
    cases h
    exact ⟨_, rfl⟩
  | rotate =>
    refine reads_iff (fun args => ⟨parseRotate_uses hvalued, uses_rotate hnodup⟩) fun invocation h => ?_
    cases h
    exact ⟨_, rfl⟩
  | extract =>
    refine reads_iff (fun args => ⟨parseExtract_uses hvalued, uses_extract hnodup⟩)
      fun invocation h => ?_
    cases h
    exact ⟨_, rfl⟩

theorem plain (subcommand : Subcommand) : Plain subcommand.valueFlags := by
  unfold Plain
  cases subcommand <;> decide

@[simp] theorem ofName_name (subcommand : Subcommand) : ofName subcommand.name = some subcommand := by
  cases subcommand <;> rfl

theorem eq_name_of_ofName {given : String} {subcommand : Subcommand}
    (h : ofName given = some subcommand) : given = subcommand.name := by
  unfold ofName at h
  split at h
  all_goals cases h
  all_goals rfl

end Subcommand

/-- A request uses no flag twice. -/
theorem Denotes.nodup {subcommand : Subcommand} {positionals : List OsString}
    {flags : List (String × Option OsString)} {invocation : Invocation}
    (h : Denotes subcommand positionals flags invocation) : (flags.map Prod.fst).Nodup := by
  cases h with
  | @merge _ _ force _ nonempty used =>
    rw [(used.map Prod.fst).nodup_iff]
    cases force <;> simp [forceFlag]
  | @split _ _ _ _ _ force _ number used =>
    rw [(used.map Prod.fst).nodup_iff]
    cases force <;> simp [forceFlag]
  | @rotate _ _ _ _ _ output force _ selection turn used =>
    rw [(used.map Prod.fst).nodup_iff]
    cases force <;> cases output <;> simp [forceFlag, outFlag]
  | @extract _ _ _ _ force _ selection used =>
    rw [(used.map Prod.fst).nodup_iff]
    cases force <;> simp [forceFlag]

/-- Arguments that fit give every flag a value but the switches. -/
theorem Arguments.valued {valueFlags : List String} (hplain : Plain valueFlags)
    {arguments : Arguments} (hfits : arguments.Fits valueFlags) : Valued arguments.flags := by
  intro flag hflag
  obtain ⟨argument, hargument, hsome⟩ := List.mem_filterMap.1 hflag
  have hfit := hfits argument hargument
  cases argument with
  | positional path => cases hsome
  | switch name =>
    cases hsome
    exact iff_of_true hfit rfl
  | separate name value =>
    cases hsome
    exact iff_of_false (hplain name hfit.1).2.2 (Option.some_ne_none _)
  | inline name value =>
    cases hsome
    exact iff_of_false (hplain name hfit).2.2 (Option.some_ne_none _)

end OpdfEditor
