import OpdfEditor.StructuralDiff

/-!
What the structural comparison is to see and what it is to overlook: values are equivalent when
they agree up to object numbers, key order, string notation and stream packing. What is fed for
a value depends on it only up to that, and rounds of digests are colour refinement over what is
fed.
-/
namespace OpdfEditor

/-- Where keys are held once, an entry is what its key holds. -/
theorem Dictionary.get_of_mem {entries : Dictionary} {key : String} {value : Object}
    (hnodup : (entries.map Prod.fst).Nodup) (h : (key, value) ∈ entries) :
    get entries key = some value := by
  induction entries with
  | nil => cases h
  | cons entry entries ih =>
    obtain ⟨hnew, hrest⟩ := List.nodup_cons.1 hnodup
    rw [get_cons]
    cases List.mem_cons.1 h with
    | inl heq => simp [← heq]
    | inr hlater =>
      rw [if_neg fun heq => hnew (List.mem_map.2 ⟨_, hlater, heq⟩), ih hrest hlater]

theorem Dictionary.mem_values_of_get {entries : Dictionary} {key : String} {value : Object}
    (h : get entries key = some value) : value ∈ entries.map Prod.snd :=
  List.mem_map.2 ⟨_, mem_of_get h, rfl⟩

/-! ### Values inside values -/

namespace Object

def children : Object → List Object
  | .array items => items
  | .dictionary entries => entries.map Prod.snd
  | .stream entries _ => entries.map Prod.snd
  | _ => []

def keys : Object → List String
  | .dictionary entries => entries.map Prod.fst
  | .stream entries _ => entries.map Prod.fst
  | _ => []

theorem sizeOf_lt_of_mem_entries {entries : Dictionary} {value : Object}
    (h : value ∈ entries.map Prod.snd) : sizeOf value < sizeOf entries := by
  obtain ⟨⟨key, value⟩, hentry, rfl⟩ := List.mem_map.1 h
  have hlt := List.sizeOf_lt_of_mem hentry
  have hpair : sizeOf (key, value) = 1 + sizeOf key + sizeOf value := rfl
  dsimp only
  omega

/-- A value inside another one is smaller. -/
theorem sizeOf_lt_of_mem_children {object child : Object} (h : child ∈ object.children) :
    sizeOf child < sizeOf object := by
  cases object with
  | array items =>
    have hlt : sizeOf child < sizeOf items := List.sizeOf_lt_of_mem h
    rw [array.sizeOf_spec]
    omega
  | dictionary entries =>
    have hlt := sizeOf_lt_of_mem_entries h
    rw [dictionary.sizeOf_spec]
    omega
  | stream entries content =>
    have hlt := sizeOf_lt_of_mem_entries h
    rw [stream.sizeOf_spec]
    omega
  | _ => cases h

/-- Induction over the values inside a value. -/
@[elab_as_elim]
theorem childInduction {P : Object → Prop}
    (step : ∀ object : Object, (∀ child ∈ object.children, P child) → P object) (object : Object) :
    P object :=
  step object fun child _ => childInduction step child
termination_by sizeOf object
decreasing_by exact sizeOf_lt_of_mem_children ‹_›

mutual
/-- Every dictionary in a value holds each key once. -/
def isProper : Object → Bool
  | .array items => itemsProper items
  | .dictionary entries => decide (entries.map Prod.fst).Nodup && entriesProper entries
  | .stream entries _ => decide (entries.map Prod.fst).Nodup && entriesProper entries
  | _ => true

def itemsProper : List Object → Bool
  | [] => true
  | item :: items => isProper item && itemsProper items

def entriesProper : List (String × Object) → Bool
  | [] => true
  | (_, value) :: entries => isProper value && entriesProper entries
end

theorem itemsProper_eq (items : List Object) : itemsProper items = items.all isProper := by
  induction items with
  | nil => rfl
  | cons item items ih => rw [itemsProper, ih, List.all_cons]

theorem entriesProper_eq (entries : Dictionary) :
    entriesProper entries = (entries.map Prod.snd).all isProper := by
  induction entries with
  | nil => rfl
  | cons entry entries ih => rw [entriesProper, ih, List.map_cons, List.all_cons]

abbrev Proper (object : Object) : Prop := object.isProper = true

/-- A value is proper exactly if it holds its keys once and the values inside it are proper. -/
theorem proper_iff {object : Object} :
    object.Proper ↔ object.keys.Nodup ∧ ∀ child ∈ object.children, child.Proper := by
  cases object <;>
    simp only [Proper, isProper, itemsProper_eq, entriesProper_eq, keys, children, Bool.and_eq_true,
      decide_eq_true_eq, List.all_eq_true] <;> simp

theorem Proper.nodup {object : Object} (h : object.Proper) : object.keys.Nodup := (proper_iff.1 h).1

theorem Proper.child {object child : Object} (h : object.Proper) (hchild : child ∈ object.children) :
    child.Proper := (proper_iff.1 h).2 child hchild

end Object

/-- A document as it parses, where a dictionary is a map. -/
structure ParsedDocument extends LopdfDocument where
  keysOnce : ∀ id ∈ objects.keys, (objects.lookup id).all Object.isProper = true

/-- Every object that was parsed is proper. -/
theorem ParsedDocument.proper (d : ParsedDocument) {id : ObjectId} {object : Object}
    (h : d.objects.lookup id = some object) : object.Proper := by
  have hkeys := d.keysOnce id (Finmap.mem_keys.2 (Finmap.mem_of_lookup_eq_some h))
  rwa [h] at hkeys

namespace Roundtrip

open ColourRefinement (Glyph TextsMatch Alike colour)

/-! ### Related optional values -/

theorem rel_none_left {α β : Type} {R : α → β → Prop} {b : Option β} (h : Option.Rel R none b) :
    b = none := by
  cases h
  rfl

theorem rel_some_left {α β : Type} {R : α → β → Prop} {x : α} {b : Option β}
    (h : Option.Rel R (some x) b) : ∃ y, b = some y ∧ R x y := by
  cases h with
  | some hxy => exact ⟨_, rfl, hxy⟩

theorem rel_some_right {α β : Type} {R : α → β → Prop} {y : β} {a : Option α}
    (h : Option.Rel R a (some y)) : ∃ x, a = some x ∧ R x y := by
  cases h with
  | some hxy => exact ⟨_, rfl, hxy⟩

theorem rel_some_some {α β : Type} {R : α → β → Prop} {a : Option α} {b : Option β} {x : α} {y : β}
    (ha : a = some x) (hb : b = some y) : Option.Rel R a b ↔ R x y := by
  subst ha hb
  exact Option.rel_some_some

theorem isSome_eq_of_rel {α β : Type} {R : α → β → Prop} {a : Option α} {b : Option β}
    (h : Option.Rel R a b) : a.isSome = b.isSome := by
  cases h <;> rfl

/-- Values present together are related if each two present are. -/
theorem rel_of_isSome {α β : Type} {R : α → β → Prop} {a : Option α} {b : Option β}
    (hsome : a.isSome = b.isSome) (h : ∀ x y, a = some x → b = some y → R x y) : Option.Rel R a b := by
  cases a with
  | none =>
    cases b with
    | none => exact .none
    | some y => cases hsome
  | some x =>
    cases b with
    | none => cases hsome
    | some y => exact .some (h x y rfl rfl)

/-- Related options stay related under steps that relate. -/
theorem rel_bind {α β γ δ : Type} {R : α → β → Prop} {S : γ → δ → Prop} {a : Option α}
    {b : Option β} {f : α → Option γ} {g : β → Option δ} (h : Option.Rel R a b)
    (hbind : ∀ x y, a = some x → b = some y → R x y → Option.Rel S (f x) (g y)) :
    Option.Rel S (a.bind f) (b.bind g) := by
  cases h with
  | none => exact .none
  | some hxy => exact hbind _ _ rfl rfl hxy

theorem rel_mono {α β : Type} {R S : α → β → Prop} (hRS : ∀ x y, R x y → S x y) {a : Option α}
    {b : Option β} (h : Option.Rel R a b) : Option.Rel S a b := by
  cases h with
  | none => exact .none
  | some hxy => exact .some (hRS _ _ hxy)

theorem bind_eq_of_rel {α β γ : Type} {R : α → β → Prop} {a : Option α} {b : Option β}
    {f : α → Option γ} {g : β → Option γ} (h : Option.Rel R a b)
    (hfg : ∀ x y, a = some x → b = some y → R x y → f x = g y) : a.bind f = b.bind g := by
  cases h with
  | none => rfl
  | some hxy => exact hfg _ _ rfl rfl hxy

theorem map_eq_of_rel {α β γ : Type} {R : α → β → Prop} {a : Option α} {b : Option β} {f : α → γ}
    {g : β → γ} (h : Option.Rel R a b) (hfg : ∀ x y, a = some x → b = some y → R x y → f x = g y) :
    a.map f = b.map g := by
  cases h with
  | none => rfl
  | some hxy => exact congrArg some (hfg _ _ rfl rfl hxy)

/-! ### Equivalent values -/

section Equivalent

variable [StreamDecoder]

/-- What a stream says: its decoded bytes, or those it holds if it cannot be decoded. -/
def unpacked (entries : Dictionary) (content : List UInt8) : List UInt8 ⊕ List UInt8 :=
  match StreamDecoder.decompressedContent entries content with
  | some decoded => .inl decoded
  | none => .inr content

/-- The keys that say how a stream is packed; one that cannot be decoded is taken as it is. -/
def packing (entries : Dictionary) (content : List UInt8) : List String :=
  if (StreamDecoder.decompressedContent entries content).isSome then packingKeys else []

/-- A value without the values inside it, up to what is no difference. -/
inductive Shape where
  | null
  | boolean (value : Bool)
  | integer (value : Int)
  | real (value : Binary32.F32)
  | name (bytes : String)
  | string (bytes : String)
  | array (length : Nat)
  | dictionary (keys : Finset String)
  | stream (keys : Finset String) (content : List UInt8 ⊕ List UInt8)
  | reference
  deriving DecidableEq

def shape : Object → Shape
  | .null => .null
  | .boolean value => .boolean value
  | .integer value => .integer value
  | .real value => .real value
  | .name bytes => .name bytes
  | .string bytes _ => .string bytes
  | .array items => .array items.length
  | .dictionary entries => .dictionary (entries.map Prod.fst).toFinset
  | .stream entries content =>
    .stream ((entries.map Prod.fst).toFinset.filter (· ∉ packing entries content))
      (unpacked entries content)
  | .reference _ => .reference

inductive PathStep where
  | key (key : String)
  | index (index : Nat)

def child : Object → PathStep → Option Object
  | .array items, .index i => items[i]?
  | .dictionary entries, .key k => Dictionary.get entries k
  | .stream entries content, .key k =>
    if k ∈ packing entries content then none else Dictionary.get entries k
  | _, _ => none

theorem mem_children_of_child {object value : Object} {step : PathStep}
    (h : child object step = some value) : value ∈ object.children := by
  cases object with
  | array items =>
    cases step with
    | key k => cases h
    | index i => exact List.mem_of_getElem? h
  | dictionary entries =>
    cases step with
    | key k => exact Dictionary.mem_values_of_get h
    | index i => cases h
  | stream entries content =>
    cases step with
    | key k =>
      simp only [child, Option.ite_none_left_eq_some] at h
      exact Dictionary.mem_values_of_get h.2
    | index i => cases h
  | _ => cases h

omit [StreamDecoder] in
theorem isSome_get {entries : Dictionary} {key : String} :
    (Dictionary.get entries key).isSome = true ↔ key ∈ entries.map Prod.fst := by
  rw [Option.isSome_iff_ne_none, ne_eq, Dictionary.get_eq_none]
  simp

/-- Two streams that say the same decode to the same bytes, or neither decodes and both hold the
same bytes. -/
theorem unpacked_eq_iff {entries entries' : Dictionary} {content content' : List UInt8} :
    unpacked entries content = unpacked entries' content' ↔
      StreamDecoder.decompressedContent entries content =
          StreamDecoder.decompressedContent entries' content' ∧
        (StreamDecoder.decompressedContent entries content = none → content = content') := by
  unfold unpacked
  cases StreamDecoder.decompressedContent entries content with
  | none => cases StreamDecoder.decompressedContent entries' content' <;> simp
  | some decoded => cases StreamDecoder.decompressedContent entries' content' <;> simp

/-- Two streams that say the same are both packed or both not. -/
theorem packing_eq {entries entries' : Dictionary} {content content' : List UInt8}
    (h : unpacked entries content = unpacked entries' content') :
    packing entries content = packing entries' content' := by
  unfold packing
  rw [(unpacked_eq_iff.1 h).1]

/-- What a stream holds under a key that says nothing of its packing. -/
theorem child_stream {entries : Dictionary} {content : List UInt8} {key : String}
    (h : key ∉ packing entries content) :
    child (.stream entries content) (.key key) = Dictionary.get entries key := by
  simp [child, h]

theorem not_mem_packing {entries : Dictionary} {content : List UInt8} {key : String}
    (h : StreamDecoder.decompressedContent entries content = none ∨ key ∉ packingKeys) :
    key ∉ packing entries content := by
  rcases h with h | h
  · simp [packing, h]
  · unfold packing
    split <;> simp [h]

/-- Values of one shape hold something in the same places. -/
theorem isSome_child {object object' : Object} (h : shape object = shape object') (step : PathStep) :
    (child object step).isSome = (child object' step).isSome := by
  cases object with
  | array items =>
    cases object' <;> simp only [shape, reduceCtorEq, Shape.array.injEq] at h
    cases step with
    | key k => rfl
    | index i =>
      rw [Bool.eq_iff_iff]
      simp [child, h]
  | dictionary entries =>
    cases object' <;> simp only [shape, reduceCtorEq, Shape.dictionary.injEq] at h
    rename_i entries'
    cases step with
    | key k =>
      have hkeys := Finset.ext_iff.1 h k
      rw [List.mem_toFinset, List.mem_toFinset] at hkeys
      exact Bool.eq_iff_iff.2 (isSome_get.trans (hkeys.trans isSome_get.symm))
    | index i => rfl
  | stream entries content =>
    cases object' <;> simp only [shape, reduceCtorEq, Shape.stream.injEq] at h
    rename_i entries' content'
    cases step with
    | key k =>
      have hkeys := Finset.ext_iff.1 h.1 k
      rw [Finset.mem_filter, Finset.mem_filter, packing_eq h.2, List.mem_toFinset,
        List.mem_toFinset] at hkeys
      by_cases hk : k ∈ packing entries' content'
      · simp [child, packing_eq h.2, hk]
      · simp only [child, packing_eq h.2, hk, if_false]
        exact Bool.eq_iff_iff.2 (isSome_get.trans ((and_iff_left hk).symm.trans
          (hkeys.trans ((and_iff_left hk).trans isSome_get.symm))))
    | index i => rfl
  | _ => cases object' <;> first | rfl | cases h

/-- Equal up to the documented equivalences, with references related. -/
inductive Equivalent (R : ObjectId → ObjectId → Prop) : Object → Object → Prop
  | reference {id id' : ObjectId} : R id id' → Equivalent R (.reference id) (.reference id')
  | value {object object' : Object} : object.isReference = false → shape object = shape object' →
      (∀ step value value', child object step = some value → child object' step = some value' →
        Equivalent R value value') → Equivalent R object object'

/-- Fewer related references make fewer equivalent objects. -/
theorem Equivalent.mono {R S : ObjectId → ObjectId → Prop} (hRS : ∀ id id', R id id' → S id id')
    {object object' : Object} (h : Equivalent R object object') : Equivalent S object object' := by
  induction h with
  | reference hid => exact .reference (hRS _ _ hid)
  | value hobject hshape _ ih => exact .value hobject hshape ih

/-- Equivalent objects have one shape. -/
theorem Equivalent.shape_eq {R : ObjectId → ObjectId → Prop} {object object' : Object}
    (h : Equivalent R object object') : shape object = shape object' := by
  cases h with
  | reference _ => rfl
  | value _ hshape _ => exact hshape

end Equivalent

/-! ### What is fed for equivalent values -/

section Feed

variable {D : Type}

theorem agree_letters {V W : Type} (R : V → W → Prop) (text : String) :
    TextsMatch R (letters text) (letters text) := TextsMatch.letters R _

theorem agree_littleEndian {V W : Type} (R : V → W → Prop) (width n : Nat) :
    TextsMatch R (littleEndian width n) (littleEndian width n) := by
  have hletters (X : Type) : (littleEndian width n : Feed X) =
      ((List.range width).map fun i => Char.ofNat (n / 256 ^ i % 256)).map .letter := by
    simp [littleEndian]
  rw [hletters, hletters]
  exact TextsMatch.letters R _

theorem agree_feedBytes {V W : Type} (R : V → W → Prop) (bytes : List UInt8) :
    TextsMatch R (feedBytes bytes) (feedBytes bytes) := by
  have hletters (X : Type) : (feedBytes bytes : Feed X) =
      (bytes.map fun byte => Char.ofNat byte.toNat).map .letter := by
    simp [feedBytes]
  rw [hletters, hletters]
  exact TextsMatch.letters R _

def sortedKeys (excluded : List String) (entries : Dictionary) : List String :=
  ((entries.map Prod.fst).filter (· ∉ excluded)).insertionSort (· ≤ ·)

theorem mem_sortedKeys {excluded : List String} {entries : Dictionary} {key : String} :
    key ∈ sortedKeys excluded entries ↔ key ∈ entries.map Prod.fst ∧ key ∉ excluded := by
  simp [sortedKeys]

/-- The order in which keys stand does not show in their sorted list. -/
theorem sortedKeys_eq {excluded : List String} {entries entries' : Dictionary}
    (hnodup : (entries.map Prod.fst).Nodup) (hnodup' : (entries'.map Prod.fst).Nodup)
    (h : ∀ key ∉ excluded, key ∈ entries.map Prod.fst ↔ key ∈ entries'.map Prod.fst) :
    sortedKeys excluded entries = sortedKeys excluded entries' := by
  have hperm : ((entries.map Prod.fst).filter (· ∉ excluded)).Perm
      ((entries'.map Prod.fst).filter (· ∉ excluded)) := by
    rw [List.perm_ext_iff_of_nodup (hnodup.filter _) (hnodup'.filter _)]
    intro key
    rw [List.mem_filter, List.mem_filter]
    by_cases hkey : key ∈ excluded
    · simp [hkey]
    · rw [h key hkey]
  exact (((List.perm_insertionSort _ _).trans hperm).trans
    (List.perm_insertionSort _ _).symm).eq_of_pairwise' (List.pairwise_insertionSort _ _)
    (List.pairwise_insertionSort _ _)

variable [StreamDecoder]

theorem feedItems_eq (digests : ObjectId → Option D) (items : List Object) :
    feedItems digests items = items.flatMap (feedObject digests) := by
  induction items with
  | nil => rfl
  | cons item items ih => rw [feedItems, ih, List.flatMap_cons]

theorem feedEntries_eq (digests : ObjectId → Option D) (entries : Dictionary) :
    feedEntries digests entries =
      entries.map fun entry => (entry.1, feedObject digests entry.2) := by
  induction entries with
  | nil => rfl
  | cons entry entries ih => rw [feedEntries, ih, List.map_cons]

def feedEntry (digests : ObjectId → Option D) (entries : Dictionary) (key : String) : Feed D :=
  feedLength key.length ++ letters key ++ (Dictionary.get entries key).elim [] (feedObject digests)

/-- Where a key is held once, a dictionary is fed key by key. -/
theorem feedDictionary_eq (digests : ObjectId → Option D) (excluded : List String)
    {entries : Dictionary} (hnodup : (entries.map Prod.fst).Nodup) :
    feedDictionary excluded (feedEntries digests entries) =
      letters "dict" ++ feedLength (sortedKeys excluded entries).length ++
        (sortedKeys excluded entries).flatMap (feedEntry digests entries) := by
  let kept := ((feedEntries digests entries).filter (·.1 ∉ excluded)).insertionSort
    fun a b => a.1 ≤ b.1
  have hkeys : kept.map Prod.fst = sortedKeys excluded entries := by
    unfold kept sortedKeys
    rw [List.map_insertionSort _ (fun a b : String => a ≤ b) Prod.fst _ fun _ _ _ _ => Iff.rfl]
    congr 1
    rw [feedEntries_eq, List.filter_map, List.map_map, List.filter_map]
    rfl
  have hvalues : ∀ entry ∈ kept, feedLength entry.1.length ++ letters entry.1 ++ entry.2 =
      feedEntry digests entries entry.1 := by
    intro entry hentry
    rw [List.mem_insertionSort, List.mem_filter, feedEntries_eq] at hentry
    obtain ⟨⟨⟨key, value⟩, hmem, rfl⟩, -⟩ := And.imp_left List.mem_map.1 hentry
    have hget : Dictionary.get entries key = some value := Dictionary.get_of_mem hnodup hmem
    simp [feedEntry, hget]
  have hlength : kept.length = (sortedKeys excluded entries).length := by
    rw [← hkeys, List.length_map]
  have hfed : kept.flatMap (fun entry => feedLength entry.1.length ++ letters entry.1 ++ entry.2) =
      (sortedKeys excluded entries).flatMap (feedEntry digests entries) := by
    rw [← hkeys, List.flatMap_map]
    exact List.flatMap_congr hvalues
  unfold feedDictionary
  rw [← hlength, ← hfed]

/-- Dictionaries whose values are fed alike, under the same keys, are fed alike. -/
theorem agree_feedDictionary {R : ObjectId → ObjectId → Prop} {excluded : List String}
    {entries entries' : Dictionary} (hnodup : (entries.map Prod.fst).Nodup)
    (hnodup' : (entries'.map Prod.fst).Nodup)
    (hkeys : ∀ key ∉ excluded, key ∈ entries.map Prod.fst ↔ key ∈ entries'.map Prod.fst)
    (hvalues : ∀ key ∉ excluded, ∀ value value', Dictionary.get entries key = some value →
      Dictionary.get entries' key = some value' →
        TextsMatch R (feedObject some value) (feedObject some value')) :
    TextsMatch R (feedDictionary excluded (feedEntries some entries))
      (feedDictionary excluded (feedEntries some entries')) := by
  rw [feedDictionary_eq some excluded hnodup, feedDictionary_eq some excluded hnodup',
    ← sortedKeys_eq hnodup hnodup' hkeys]
  refine List.rel_append
    (List.rel_append (agree_letters R _) (agree_littleEndian R _ _)) (TextsMatch.flatMap fun key hkey => ?_)
  obtain ⟨hmem, hkept⟩ := mem_sortedKeys.1 hkey
  obtain ⟨value, hvalue⟩ := Option.isSome_iff_exists.1 (isSome_get.2 hmem)
  obtain ⟨value', hvalue'⟩ := Option.isSome_iff_exists.1 (isSome_get.2 ((hkeys key hkept).1 hmem))
  refine List.rel_append (List.rel_append (agree_littleEndian R _ _) (agree_letters R _)) ?_
  rw [hvalue, hvalue']
  exact hvalues key hkept value value' hvalue hvalue'

/-- Streams that say the same are fed alike. -/
theorem agree_feedContent {R : ObjectId → ObjectId → Prop} {entries entries' : Dictionary}
    {content content' : List UInt8} (h : unpacked entries content = unpacked entries' content') :
    TextsMatch R (feedContent entries content) (feedContent entries' content') := by
  obtain ⟨hdecodes, hholds⟩ := unpacked_eq_iff.1 h
  have hsame : (feedContent entries content : Feed ObjectId) = feedContent entries' content' := by
    unfold feedContent
    rw [← hdecodes]
    cases hdecoded : StreamDecoder.decompressedContent entries content with
    | none => rw [hholds hdecoded]
    | some decoded => rfl
  rw [← hsame]
  unfold feedContent
  split
  · exact List.rel_append (List.rel_append (agree_letters R _) (agree_littleEndian R _ _))
      (agree_feedBytes R _)
  · exact List.rel_append (List.rel_append (agree_letters R _) (agree_littleEndian R _ _))
      (agree_feedBytes R _)

/-- Equivalent values are fed alike, up to related references. -/
theorem Equivalent.agree {R : ObjectId → ObjectId → Prop} {object object' : Object}
    (h : Equivalent R object object') (hproper : object.Proper) (hproper' : object'.Proper) :
    TextsMatch R (feedObject some object) (feedObject some object') := by
  induction h with
  | reference hid => exact List.rel_append (agree_letters R _) (.cons (.mark hid) .nil)
  | @value object object' hobject hshape hvalues ih =>
    have hchild : ∀ step value value', child object step = some value →
        child object' step = some value' → TextsMatch R (feedObject some value) (feedObject some value') :=
      fun step value value' hvalue hvalue' => ih step value value' hvalue hvalue'
        (hproper.child (mem_children_of_child hvalue))
        (hproper'.child (mem_children_of_child hvalue'))
    have hnodup := hproper.nodup
    have hnodup' := hproper'.nodup
    cases object with
    | null =>
      cases object' <;> cases hshape
      exact agree_letters R _
    | boolean value =>
      cases object' <;> cases hshape
      exact List.rel_append (agree_letters R _) (.cons (.letter _) .nil)
    | integer value =>
      cases object' <;> cases hshape
      exact List.rel_append (agree_letters R _) (agree_littleEndian R _ _)
    | real value =>
      cases object' <;> cases hshape
      exact List.rel_append (agree_letters R _) (agree_littleEndian R _ _)
    | name bytes =>
      cases object' <;> cases hshape
      exact List.rel_append (agree_letters R _) (agree_letters R _)
    | string bytes format =>
      cases object' <;> cases hshape
      exact List.rel_append (List.rel_append (agree_letters R _) (agree_littleEndian R _ _))
        (agree_letters R _)
    | array items =>
      cases object' <;> simp only [shape, reduceCtorEq, Shape.array.injEq] at hshape
      rename_i items'
      rw [feedObject, feedObject, feedItems_eq, feedItems_eq, ← hshape]
      refine List.rel_append (List.rel_append (agree_letters R _) (agree_littleEndian R _ _))
        (List.rel_flatMap (R := fun item item' =>
          TextsMatch R (feedObject some item) (feedObject some item')) ?_ fun _ _ h => h)
      refine List.forall₂_of_length_eq_of_get hshape fun i hi hi' => ?_
      exact hchild (.index i) _ _ (List.getElem?_eq_getElem hi) (List.getElem?_eq_getElem hi')
    | dictionary entries =>
      cases object' <;> simp only [shape, reduceCtorEq, Shape.dictionary.injEq] at hshape
      rename_i entries'
      rw [feedObject, feedObject]
      refine agree_feedDictionary hnodup hnodup' (fun key _ => ?_) fun key _ => hchild (.key key)
      simpa using Finset.ext_iff.1 hshape key
    | stream entries content =>
      cases object' <;> simp only [shape, reduceCtorEq, Shape.stream.injEq] at hshape
      rename_i entries' content'
      obtain ⟨hkeys, hcontent⟩ := hshape
      rw [feedObject, feedObject]
      refine List.rel_append (List.rel_append (agree_letters R _) (agree_feedDictionary hnodup hnodup'
        (fun key hkey => ?_) fun key hkey value value' hvalue hvalue' => ?_))
        (agree_feedContent hcontent)
      · have hiff := Finset.ext_iff.1 hkeys key
        rw [← packing_eq hcontent] at hiff
        simpa [not_mem_packing (.inr hkey)] using hiff
      · exact hchild (.key key) value value'
          ((child_stream (not_mem_packing (.inr hkey))).trans hvalue)
          ((child_stream (not_mem_packing (.inr hkey))).trans hvalue')
    | reference id => cases hobject

/-- A step leads from equivalent values to equivalent values. -/
theorem Equivalent.child {R : ObjectId → ObjectId → Prop} {object object' : Object}
    (h : Equivalent R object object') (step : PathStep) :
    Option.Rel (Equivalent R) (child object step) (child object' step) := by
  cases h with
  | reference _ => exact .none
  | value _ hshape hvalues =>
    exact rel_of_isSome (isSome_child hshape step) (hvalues step)

end Feed
end Roundtrip
end OpdfEditor
