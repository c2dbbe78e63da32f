import OpdfEditor.PageSelection
import OpdfEditor.Traversal

/-!
The language of `--pages`: which texts spell which parts, what each part names in a
document, and that parsing and resolving accept exactly that.
-/
namespace OpdfEditor

open Trimming Traversal

/-! ### The grammar -/

/-- The number a text of digits writes. -/
def decimalValue (digits : List Char) : Nat :=
  digits.foldl (fun value digit => value * 10 + digitValue digit) 0

/-- The text writes this page number, in digits that fit the machine word. -/
structure Numeral (text : List Char) (page : PageNumber) : Prop where
  nonempty : text ≠ []
  digits : ∀ digit ∈ text, isAsciiDigit digit = true
  value : decimalValue text = page.1
  fits : page.1 ≤ usizeMax

/-- The four forms of a part: `N`, `A-B`, `A-` and `-B`, with whitespace around either end. -/
inductive SpellsPart : List Char → SelectionPart → Prop
  | single {text numeral : List Char} {page : PageNumber}
      (spaced : Padded isWhitespace text numeral) (number : Numeral numeral page) :
      SpellsPart text (.single page)
  | closed {before start after stop : List Char} {first last : PageNumber}
      (spacedStart : Padded isWhitespace before start) (startNumber : Numeral start first)
      (spacedStop : Padded isWhitespace after stop) (stopNumber : Numeral stop last)
      (ordered : first.1 ≤ last.1) :
      SpellsPart (before ++ '-' :: after) (.closed first last ordered)
  | onward {before start after : List Char} {first : PageNumber}
      (spacedStart : Padded isWhitespace before start) (startNumber : Numeral start first)
      (blank : Blank isWhitespace after) : SpellsPart (before ++ '-' :: after) (.onward first)
  | upTo {before after stop : List Char} {last : PageNumber}
      (blank : Blank isWhitespace before) (spacedStop : Padded isWhitespace after stop)
      (stopNumber : Numeral stop last) : SpellsPart (before ++ '-' :: after) (.upTo last)

/-- A part of the form `A-B` whose end precedes its start. -/
def Inverted (text : List Char) (first last : Nat) : Prop :=
  ∃ before start after stop, ∃ (firstPage lastPage : PageNumber),
    text = before ++ '-' :: after ∧
    Padded isWhitespace before start ∧ Numeral start firstPage ∧ firstPage.1 = first ∧
    Padded isWhitespace after stop ∧ Numeral stop lastPage ∧ lastPage.1 = last ∧ last < first

/-- The text is a non-empty comma-separated list of parts. -/
def Spells (text : List Char) (parts : List SelectionPart) : Prop :=
  ∃ pieces, Separated ',' text pieces ∧ List.Forall₂ SpellsPart pieces parts

/-- The first piece of the text that is no part is inverted. -/
def FirstInverted (text : List Char) (first last : Nat) : Prop :=
  ∃ before piece after parts, Separated ',' text (before ++ piece :: after) ∧
    List.Forall₂ SpellsPart before parts ∧ Inverted piece first last

namespace SelectionPart

/-- The page is one the part names in a document of `pageCount` pages. -/
def Names (part : SelectionPart) (pageCount page : Nat) : Prop :=
  part.first.1 ≤ page ∧ page ≤ part.lastIn pageCount

/-- Both ends of the part, named or implied, are pages of the document. -/
def Within (part : SelectionPart) (pageCount : Nat) : Prop :=
  ∀ page ∈ [part.first.1, part.lastIn pageCount], 1 ≤ page ∧ page ≤ pageCount

end SelectionPart

/-- The first number past the end of the document, in part order and start before end. -/
def FirstBeyond (parts : List SelectionPart) (pageCount index : Nat) : Prop :=
  ∃ before part after, parts = before ++ part :: after ∧
    (∀ earlier ∈ before, earlier.Within pageCount) ∧
    (pageCount < part.first.1 ∧ index = part.first.1 ∨
      part.first.1 ≤ pageCount ∧ pageCount < part.lastIn pageCount ∧
        index = part.lastIn pageCount)

/-! ### Numbers -/

theorem le_foldl_digits (digits : List Char) (value : Nat) :
    value ≤ digits.foldl (fun value digit => value * 10 + digitValue digit) value := by
  induction digits generalizing value with
  | nil => exact le_rfl
  | cons digit digits ih =>
    have hfirst : value ≤ value * 10 + digitValue digit := by omega
    exact hfirst.trans (ih _)

theorem parseDigits_eq_some {digits : List Char} {value n : Nat} (hvalue : value ≤ usizeMax) :
    parseDigits digits value = some n ↔
      digits.foldl (fun value digit => value * 10 + digitValue digit) value = n ∧
        n ≤ usizeMax := by
  induction digits generalizing value with
  | nil =>
    rw [parseDigits, List.foldl_nil, Option.some.injEq]
    constructor
    · rintro rfl
      exact ⟨rfl, hvalue⟩
    · exact fun h => h.1
  | cons digit digits ih =>
    rw [parseDigits, List.foldl_cons]
    have hgrows := le_foldl_digits digits (value * 10 + digitValue digit)
    by_cases hfits : value * 10 + digitValue digit ≤ usizeMax
    · rw [if_neg (by omega), if_neg (by omega), ih hfits]
    · have hnone : ∀ n, ¬ (digits.foldl (fun value digit => value * 10 + digitValue digit)
          (value * 10 + digitValue digit) = n ∧ n ≤ usizeMax) := by
        intro n h
        omega
      split_ifs
      · simp [hnone]
      · simp [hnone]
      · omega

theorem parsePageNumber_eq_ok {text : List Char} {page : PageNumber} :
    parsePageNumber text = .ok page ↔ Numeral text page := by
  unfold parsePageNumber
  split_ifs with hform
  · constructor
    · intro h
      cases h
    · intro h
      have hdigits : text.all isAsciiDigit = true := List.all_eq_true.2 h.digits
      simp [h.nonempty, hdigits] at hform
  · rw [Bool.or_eq_true, not_or, List.isEmpty_iff, Bool.not_eq_true', Bool.not_eq_false] at hform
    obtain ⟨hne, hdigits⟩ := hform
    have hparse : ∀ n, parseDigits text 0 = some n ↔ decimalValue text = n ∧ n ≤ usizeMax :=
      fun n => parseDigits_eq_some (Nat.zero_le usizeMax)
    cases hread : parseDigits text 0 with
    | none =>
      constructor
      · intro h
        cases h
      · intro h
        have := (hparse page.1).2 ⟨h.value, h.fits⟩
        rw [hread] at this
        cases this
    | some n =>
      obtain ⟨hvalue, hfits⟩ := (hparse n).1 hread
      dsimp only
      split_ifs with hzero
      · constructor
        · intro h
          cases h
        · intro h
          have hpage : page.1 = 0 := by rw [← h.value, hvalue, hzero]
          have := page.2
          omega
      · constructor
        · intro h
          cases h
          exact ⟨hne, List.all_eq_true.1 hdigits, hvalue, hfits⟩
        · intro h
          have hpage : n = page.1 := by rw [← hvalue, h.value]
          subst hpage
          rfl

theorem parsePageNumber_error {text : List Char} {e : Error}
    (h : parsePageNumber text = .error e) : ∃ message, e = .unsupported message := by
  unfold parsePageNumber at h
  split at h
  · cases h
    exact ⟨_, rfl⟩
  split at h
  · cases h
    exact ⟨_, rfl⟩
  split at h
  · cases h
    exact ⟨_, rfl⟩
  · cases h

/-- A character that is no digit is not in a numeral. -/
theorem Numeral.not_mem {text : List Char} {page : PageNumber} (h : Numeral text page) {c : Char}
    (hc : isAsciiDigit c = false) : c ∉ text := by
  intro hmem
  rw [h.digits c hmem] at hc
  cases hc

theorem isWhitespace_of_isAsciiDigit {c : Char} (h : isAsciiDigit c = true) :
    isWhitespace c = false := by
  rw [isAsciiDigit, Bool.and_eq_true, decide_eq_true_eq, decide_eq_true_eq] at h
  simp only [isWhitespace, Bool.or_eq_false_iff, Bool.and_eq_false_iff, decide_eq_false_iff_not,
    beq_eq_false_iff_ne, ne_eq]
  omega

theorem Numeral.not_whitespace {text : List Char} {page : PageNumber} (h : Numeral text page) :
    ∀ c ∈ text, isWhitespace c = false := fun c hc =>
  isWhitespace_of_isAsciiDigit (h.digits c hc)

/-- A numeral is found in its padding by stripping the whitespace. -/
theorem Numeral.trim_eq {text numeral : List Char} {page : PageNumber} (h : Numeral numeral page)
    (hspaced : Padded isWhitespace text numeral) : trim isWhitespace text = numeral :=
  (trim_eq_iff_padded h.not_whitespace).2 hspaced

/-- What is neither whitespace nor a digit is not in a padded numeral. -/
theorem Numeral.not_mem_padded {text numeral : List Char} {page : PageNumber}
    (h : Numeral numeral page) (hspaced : Padded isWhitespace text numeral) {c : Char}
    (hdigit : isAsciiDigit c = false) (hspace : isWhitespace c = false) : c ∉ text := by
  obtain ⟨before, after, hbefore, hafter, rfl⟩ := hspaced
  have notBlank : ∀ blanks, Blank isWhitespace blanks → c ∉ blanks := fun blanks hblanks hmem => by
    rw [hblanks c hmem] at hspace
    cases hspace
  simp [notBlank before hbefore, notBlank after hafter, h.not_mem hdigit]

/-! ### Parts -/

theorem parseEnds_start {stop : List Char} (h : stop ≠ []) :
    parseEnds [] stop = (parsePageNumber stop).map .upTo := by
  cases stop with
  | nil => exact absurd rfl h
  | cons c stop => rfl

theorem parseEnds_stop {start : List Char} (h : start ≠ []) :
    parseEnds start [] = (parsePageNumber start).map .onward := by
  cases start with
  | nil => exact absurd rfl h
  | cons c start => rfl

theorem parseEnds_both {start stop : List Char} (hstart : start ≠ []) (hstop : stop ≠ []) :
    parseEnds start stop =
      match parsePageNumber start with
      | .error e => .error e
      | .ok first =>
        match parsePageNumber stop with
        | .error e => .error e
        | .ok last =>
          if h : last.1 < first.1 then .error (.invalidRange first.1 last.1)
          else .ok (.closed first last (Nat.not_lt.1 h)) := by
  cases start with
  | nil => exact absurd rfl hstart
  | cons c start =>
    cases stop with
    | nil => exact absurd rfl hstop
    | cons c' stop => rfl

/-- What the text between two ends is read as. -/
inductive ReadsEnds (start stop : List Char) : Except Error SelectionPart → Prop
  | closed {first last : PageNumber} (startNumber : Numeral start first)
      (stopNumber : Numeral stop last) (h : first.1 ≤ last.1) :
      ReadsEnds start stop (.ok (.closed first last h))
  | inverted {first last : PageNumber} (startNumber : Numeral start first)
      (stopNumber : Numeral stop last) (h : last.1 < first.1) :
      ReadsEnds start stop (.error (.invalidRange first.1 last.1))
  | onward {first : PageNumber} (startNumber : Numeral start first) (open' : stop = []) :
      ReadsEnds start stop (.ok (.onward first))
  | upTo {last : PageNumber} (open' : start = []) (stopNumber : Numeral stop last) :
      ReadsEnds start stop (.ok (.upTo last))
  | unreadable {message : String} : ReadsEnds start stop (.error (.unsupported message))

theorem parseEnds_reads (start stop : List Char) : ReadsEnds start stop (parseEnds start stop) := by
  by_cases hstart : start = []
  · by_cases hstop : stop = []
    · rw [hstart, hstop]
      exact .unreadable
    rw [hstart, parseEnds_start hstop]
    cases hread : parsePageNumber stop with
    | error e =>
      obtain ⟨message, rfl⟩ := parsePageNumber_error hread
      exact .unreadable
    | ok last => exact .upTo rfl (parsePageNumber_eq_ok.1 hread)
  by_cases hstop : stop = []
  · rw [hstop, parseEnds_stop hstart]
    cases hread : parsePageNumber start with
    | error e =>
      obtain ⟨message, rfl⟩ := parsePageNumber_error hread
      exact .unreadable
    | ok first => exact .onward (parsePageNumber_eq_ok.1 hread) rfl
  rw [parseEnds_both hstart hstop]
  cases hfirst : parsePageNumber start with
  | error e =>
    obtain ⟨message, rfl⟩ := parsePageNumber_error hfirst
    exact .unreadable
  | ok first =>
    rw [parsePageNumber_eq_ok] at hfirst
    cases hlast : parsePageNumber stop with
    | error e =>
      obtain ⟨message, rfl⟩ := parsePageNumber_error hlast
      exact .unreadable
    | ok last =>
      rw [parsePageNumber_eq_ok] at hlast
      dsimp only
      split_ifs with h
      · exact .inverted hfirst hlast h
      · exact .closed hfirst hlast (Nat.not_lt.1 h)

theorem parsePart_single {part : List Char} (h : '-' ∉ part) (hne : part ≠ []) :
    parsePart part = (parsePageNumber part).map .single := by
  rw [parsePart, if_neg (by simpa using hne), splitOnce_eq_none.2 h]

theorem mem_rdropWhile_of_not {α : Type} {p : α → Bool} {x : α} (hx : p x = false) {xs : List α} :
    x ∈ xs.rdropWhile p ↔ x ∈ xs := by
  conv_rhs => rw [← List.rdropWhile_append_rtakeWhile (p := p) (l := xs)]
  rw [List.mem_append, or_iff_left]
  intro h
  rw [blank_rtakeWhile xs x h] at hx
  cases hx

theorem not_mem_dropWhile {α : Type} {p : α → Bool} {x : α} {xs : List α} (h : x ∉ xs) :
    x ∉ xs.dropWhile p := fun hmem => h ((List.dropWhile_sublist p).mem hmem)

/-- A part with one dash is read as what stands on its two sides. -/
theorem parsePart_trim_dash {before after : List Char} (hbefore : '-' ∉ before)
    (hafter : '-' ∉ after) : parsePart (trim isWhitespace (before ++ '-' :: after)) =
      parseEnds (trim isWhitespace before) (trim isWhitespace after) := by
  have hdash : isWhitespace '-' = false := by decide
  have hstop : (after.rdropWhile isWhitespace).contains '-' = false := by
    rw [← Bool.not_eq_true, List.contains_iff_mem, mem_rdropWhile_of_not hdash]
    exact hafter
  rw [trim_append_cons hdash, parsePart, if_neg (by simp),
    splitOnce_append_cons (not_mem_dropWhile hbefore)]
  dsimp only
  rw [hstop, trim_dropWhile, trim_rdropWhile]
  rfl

/-- A second dash makes a part unreadable. -/
theorem parsePart_trim_dashes {before after : List Char} (hbefore : '-' ∉ before)
    (hafter : '-' ∈ after) : ∃ message,
      parsePart (trim isWhitespace (before ++ '-' :: after)) = .error (.unsupported message) := by
  have hdash : isWhitespace '-' = false := by decide
  have hstop : (after.rdropWhile isWhitespace).contains '-' = true := by
    rw [List.contains_iff_mem, mem_rdropWhile_of_not hdash]
    exact hafter
  rw [trim_append_cons hdash, parsePart, if_neg (by simp),
    splitOnce_append_cons (not_mem_dropWhile hbefore)]
  dsimp only
  rw [hstop]
  exact ⟨_, rfl⟩

/-- What a comma-separated piece is read as. -/
inductive ReadsPart (text : List Char) : Except Error SelectionPart → Prop
  | spelled {part : SelectionPart} (h : SpellsPart text part) : ReadsPart text (.ok part)
  | inverted {first last : Nat} (h : Inverted text first last) :
      ReadsPart text (.error (.invalidRange first last))
  | unreadable {message : String} : ReadsPart text (.error (.unsupported message))

theorem ReadsEnds.part {before after : List Char} {result : Except Error SelectionPart}
    (h : ReadsEnds (trim isWhitespace before) (trim isWhitespace after) result) :
    ReadsPart (before ++ '-' :: after) result := by
  cases h with
  | closed startNumber stopNumber h =>
    exact .spelled (.closed (padded_trim before) startNumber (padded_trim after) stopNumber h)
  | inverted startNumber stopNumber h =>
    exact .inverted ⟨before, _, after, _, _, _, rfl, padded_trim before, startNumber, rfl,
      padded_trim after, stopNumber, rfl, h⟩
  | onward startNumber open' =>
    exact .spelled (.onward (padded_trim before) startNumber (trim_eq_nil.1 open'))
  | upTo open' stopNumber =>
    exact .spelled (.upTo (trim_eq_nil.1 open') (padded_trim after) stopNumber)
  | unreadable => exact .unreadable

theorem parsePart_reads (text : List Char) :
    ReadsPart text (parsePart (trim isWhitespace text)) := by
  by_cases hdash : '-' ∈ text
  · obtain ⟨before, after, rfl, hbefore⟩ := List.eq_append_cons_of_mem hdash
    by_cases hafter : '-' ∈ after
    · obtain ⟨message, h⟩ := parsePart_trim_dashes hbefore hafter
      rw [h]
      exact .unreadable
    · rw [parsePart_trim_dash hbefore hafter]
      exact (parseEnds_reads _ _).part
  · by_cases hne : trim isWhitespace text = []
    · rw [hne]
      exact .unreadable
    have hsub : '-' ∉ trim isWhitespace text := by
      obtain ⟨before, after, -, -, hsplit⟩ := padded_trim (p := isWhitespace) text
      intro hmem
      apply hdash
      rw [hsplit]
      simp [hmem]
    rw [parsePart_single hsub hne]
    cases hread : parsePageNumber (trim isWhitespace text) with
    | error e =>
      obtain ⟨message, rfl⟩ := parsePageNumber_error hread
      exact .unreadable
    | ok page => exact .spelled (.single (padded_trim text) (parsePageNumber_eq_ok.1 hread))

theorem Numeral.dash_not_mem {text numeral : List Char} {page : PageNumber}
    (h : Numeral numeral page) (hspaced : Padded isWhitespace text numeral) : '-' ∉ text :=
  h.not_mem_padded hspaced (by decide) (by decide)

theorem dash_not_mem_blank {blanks : List Char} (h : Blank isWhitespace blanks) : '-' ∉ blanks := by
  intro hmem
  have := h '-' hmem
  revert this
  decide

/-- Two numerals around a dash are a range, or one that ends before it starts. -/
theorem parsePart_closed {before after start stop : List Char} {first last : PageNumber}
    (spacedStart : Padded isWhitespace before start) (startNumber : Numeral start first)
    (spacedStop : Padded isWhitespace after stop) (stopNumber : Numeral stop last) :
    parsePart (trim isWhitespace (before ++ '-' :: after)) =
      if h : last.1 < first.1 then .error (.invalidRange first.1 last.1)
      else .ok (.closed first last (Nat.not_lt.1 h)) := by
  rw [parsePart_trim_dash (startNumber.dash_not_mem spacedStart)
      (stopNumber.dash_not_mem spacedStop),
    startNumber.trim_eq spacedStart, stopNumber.trim_eq spacedStop,
    parseEnds_both startNumber.nonempty stopNumber.nonempty,
    parsePageNumber_eq_ok.2 startNumber, parsePageNumber_eq_ok.2 stopNumber]

theorem SpellsPart.parse {text : List Char} {part : SelectionPart} (h : SpellsPart text part) :
    parsePart (trim isWhitespace text) = .ok part := by
  cases h with
  | single spaced number =>
    rw [number.trim_eq spaced, parsePart_single (number.not_mem (by decide)) number.nonempty,
      parsePageNumber_eq_ok.2 number]
    rfl
  | closed spacedStart startNumber spacedStop stopNumber ordered =>
    rw [parsePart_closed spacedStart startNumber spacedStop stopNumber, dif_neg (Nat.not_lt.2 ordered)]
  | onward spacedStart startNumber blank =>
    rw [parsePart_trim_dash (startNumber.dash_not_mem spacedStart) (dash_not_mem_blank blank),
      startNumber.trim_eq spacedStart, trim_eq_nil.2 blank, parseEnds_stop startNumber.nonempty,
      parsePageNumber_eq_ok.2 startNumber]
    rfl
  | upTo blank spacedStop stopNumber =>
    rw [parsePart_trim_dash (dash_not_mem_blank blank) (stopNumber.dash_not_mem spacedStop),
      trim_eq_nil.2 blank, stopNumber.trim_eq spacedStop, parseEnds_start stopNumber.nonempty,
      parsePageNumber_eq_ok.2 stopNumber]
    rfl

theorem Inverted.parse {text : List Char} {first last : Nat} (h : Inverted text first last) :
    parsePart (trim isWhitespace text) = .error (.invalidRange first last) := by
  obtain ⟨before, start, after, stop, firstPage, lastPage, rfl, spacedStart, startNumber, rfl,
    spacedStop, stopNumber, rfl, hlt⟩ := h
  rw [parsePart_closed spacedStart startNumber spacedStop stopNumber, dif_pos hlt]

theorem parsePart_eq_ok {text : List Char} {part : SelectionPart} :
    parsePart (trim isWhitespace text) = .ok part ↔ SpellsPart text part := by
  constructor
  · intro h
    have hreads := parsePart_reads text
    rw [h] at hreads
    cases hreads with
    | spelled h => exact h
  · exact SpellsPart.parse

theorem parsePart_eq_invalidRange {text : List Char} {first last : Nat} :
    parsePart (trim isWhitespace text) = .error (.invalidRange first last) ↔
      Inverted text first last := by
  constructor
  · intro h
    have hreads := parsePart_reads text
    rw [h] at hreads
    cases hreads with
    | inverted h => exact h
  · exact Inverted.parse

/-! ### Texts -/

namespace PageSelection

/-- Stripping the whole text first changes nothing for the pieces. -/
theorem parse_pieces (text : List Char) :
    ((trim isWhitespace text).splitOn ',').mapM (fun piece => parsePart (trim isWhitespace piece)) =
      (text.splitOn ',').mapM fun piece => parsePart (trim isWhitespace piece) := by
  have hmap : ∀ pieces : List (List Char),
      pieces.mapM (fun piece => parsePart (trim isWhitespace piece)) =
        (pieces.map (trim isWhitespace)).mapM parsePart := by
    intro pieces
    rw [List.mapM_map]
    rfl
  rw [hmap, hmap, splitOn_trim (by decide)]

/-- The pieces of a text, each read on its own. -/
theorem parse_of_readable {text : List Char} {result : Except Error (List SelectionPart)}
    (h : (text.splitOn ',').mapM (fun piece => parsePart (trim isWhitespace piece)) = result)
    (hreadable : ∀ message, result ≠ .error (.unsupported message)) :
    parse text = result.map .mk := by
  rw [← parse_pieces] at h
  unfold parse
  dsimp only
  rw [if_neg, h]
  -- an empty text has one piece, which is no part
  intro hempty
  rw [List.isEmpty_iff.1 hempty] at h
  exact hreadable _ h.symm

theorem parse_of_spells {text : List Char} {parts : List SelectionPart} (h : Spells text parts) :
    parse text = .ok ⟨parts⟩ := by
  obtain ⟨pieces, hseparated, hpieces⟩ := h
  rw [← separated_iff.1 hseparated] at hpieces
  have hread := hpieces.imp fun _ _ hpiece => hpiece.parse
  exact parse_of_readable (mapM_eq_ok.2 hread) fun message heq => by cases heq

theorem parse_of_firstInverted {text : List Char} {first last : Nat}
    (h : FirstInverted text first last) : parse text = .error (.invalidRange first last) := by
  obtain ⟨before, piece, after, parts, hseparated, hbefore, hpiece⟩ := h
  have hread := hbefore.imp fun _ _ h => h.parse
  exact parse_of_readable (mapM_eq_error.2 ⟨before, piece, after, parts,
    separated_iff.1 hseparated, hread, hpiece.parse⟩) fun message heq => by cases heq

/-- What a text is read as. -/
inductive Reads (text : List Char) : Except Error PageSelection → Prop
  | spelled {selection : PageSelection} (h : Spells text selection.parts) :
      Reads text (.ok selection)
  | inverted {first last : Nat} (h : FirstInverted text first last) :
      Reads text (.error (.invalidRange first last))
  | unreadable {message : String} : Reads text (.error (.unsupported message))

theorem parse_reads (text : List Char) : Reads text (parse text) := by
  by_cases hunread : ∃ message,
      (text.splitOn ',').mapM (fun piece => parsePart (trim isWhitespace piece)) =
        .error (.unsupported message)
  · rw [← parse_pieces] at hunread
    obtain ⟨message, h⟩ := hunread
    unfold parse
    dsimp only
    rw [h]
    split_ifs
    · exact .unreadable
    · exact .unreadable
  · rw [parse_of_readable rfl fun message heq => hunread ⟨message, heq⟩]
    cases hpieces : (text.splitOn ',').mapM fun piece => parsePart (trim isWhitespace piece) with
    | ok parts =>
      rw [mapM_eq_ok] at hpieces
      simp only [parsePart_eq_ok] at hpieces
      exact .spelled ⟨_, separated_iff.2 rfl, hpieces⟩
    | error e =>
      obtain ⟨before, piece, after, parts, hsplit, hbefore, hpiece⟩ := mapM_eq_error.1 hpieces
      simp only [parsePart_eq_ok] at hbefore
      have hreads := parsePart_reads piece
      rw [hpiece] at hreads
      cases hreads with
      | inverted h =>
        exact .inverted ⟨before, piece, after, parts, separated_iff.2 hsplit, hbefore, h⟩
      | unreadable => exact .unreadable

theorem parse_eq_ok {text : List Char} {selection : PageSelection} :
    parse text = .ok selection ↔ Spells text selection.parts := by
  constructor
  · intro h
    have hreads := parse_reads text
    rw [h] at hreads
    cases hreads with
    | spelled h => exact h
  · exact parse_of_spells

theorem parse_eq_invalidRange {text : List Char} {first last : Nat} :
    parse text = .error (.invalidRange first last) ↔ FirstInverted text first last := by
  constructor
  · intro h
    have hreads := parse_reads text
    rw [h] at hreads
    cases hreads with
    | inverted h => exact h
  · exact parse_of_firstInverted

end PageSelection
end OpdfEditor
