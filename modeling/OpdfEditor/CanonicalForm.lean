import OpdfEditor.DiffDigests
import OpdfEditor.FedBytes

/-!
How far the canonical form of an object determines it: objects fed alike are equivalent unless, at
some place in both, one name is the start of the other, a digest starts with what a missing target
contributes, or streams that cannot be decoded are packed in different ways.
-/
namespace OpdfEditor
namespace Roundtrip

open SelfDelimiting (Delimits Comparable Tells)

section Form

variable [StreamDecoder]

/-! ### Objects as memory holds them -/

/-- The numbers and bytes of a value, without those of the values inside it. -/
def Fits : Object → Prop
  | .integer value => IsI64 value
  | .name bytes => IsBytes bytes
  | .string bytes _ => IsBytes bytes
  | .stream entries content => content.length < 2 ^ 64 ∧
      ∀ decoded ∈ StreamDecoder.decompressedContent entries content, decoded.length < 2 ^ 64
  | _ => True

inductive Storable : Object → Prop
  | intro {object : Object} : object.keys.Nodup → (∀ key ∈ object.keys, IsBytes key) →
      object.children.length < 2 ^ 64 → Fits object →
      (∀ child ∈ object.children, Storable child) → Storable object

/-- An object with 64-bit integers, bytes in its texts, lengths of 64 bits, and every key of a
dictionary once. -/
structure StoredObject where
  object : Object
  storable : Storable object

namespace Storable

theorem proper {object : Object} (h : Storable object) : object.Proper := by
  induction h with
  | intro hnodup _ _ _ _ ih => exact Object.proper_iff.2 ⟨hnodup, ih⟩

theorem isBytes {object : Object} (h : Storable object) : ∀ key ∈ object.keys, IsBytes key := by
  cases h with
  | intro _ hkeys _ _ _ => exact hkeys

theorem length_lt {object : Object} (h : Storable object) : object.children.length < 2 ^ 64 := by
  cases h with
  | intro _ _ hlength _ _ => exact hlength

theorem fits {object : Object} (h : Storable object) : Fits object := by
  cases h with
  | intro _ _ _ hfits _ => exact hfits

theorem mem_children {object child : Object} (h : Storable object)
    (hchild : child ∈ object.children) : Storable child := by
  cases h with
  | intro _ _ _ _ hchildren => exact hchildren child hchild

theorem dictionary {entries : Dictionary} {content : List UInt8}
    (h : Storable (.stream entries content)) : Storable (.dictionary entries) :=
  .intro h.proper.nodup h.isBytes h.length_lt trivial fun _ => h.mem_children

end Storable

/-! ### Equivalent values hold equivalent values -/

variable {R : ObjectId → ObjectId → Prop}

/-- A value with nothing inside it. -/
theorem equivalent_of_shape {object object' : Object} (hobject : object.isReference = false)
    (hshape : shape object = shape object') (hchildren : object.children = []) :
    Equivalent R object object' := by
  refine .value hobject hshape fun _ _ _ hvalue _ => ?_
  have hmem := mem_children_of_child hvalue
  rw [hchildren] at hmem
  cases hmem

theorem equivalent_array {items items' : List Object}
    (h : List.Forall₂ (Equivalent R) items items') :
    Equivalent R (.array items) (.array items') := by
  refine .value rfl (congrArg Shape.array h.length_eq) ?_
  rintro (key | i) value value' hvalue hvalue'
  · cases hvalue
  · obtain ⟨hi, rfl⟩ := List.getElem?_eq_some_iff.1 hvalue
    obtain ⟨hi', rfl⟩ := List.getElem?_eq_some_iff.1 hvalue'
    exact h.get hi hi'

omit [StreamDecoder] in
theorem mem_keys_iff {same : Object → Object → Prop} {entries entries' : Dictionary} {key : String}
    (h : Option.Rel same (Dictionary.get entries key) (Dictionary.get entries' key)) :
    key ∈ entries.map Prod.fst ↔ key ∈ entries'.map Prod.fst := by
  rw [← isSome_get, ← isSome_get, isSome_eq_of_rel h]

theorem equivalent_dictionary {entries entries' : Dictionary}
    (h : ∀ key, Option.Rel (Equivalent R) (Dictionary.get entries key) (Dictionary.get entries' key)) :
    Equivalent R (.dictionary entries) (.dictionary entries') := by
  refine .value rfl (congrArg Shape.dictionary (Finset.ext fun key => ?_)) ?_
  · rw [List.mem_toFinset, List.mem_toFinset, mem_keys_iff (h key)]
  · rintro (key | i) value value' hvalue hvalue'
    · exact (rel_some_some hvalue hvalue').1 (h key)
    · cases hvalue

/-- Streams that say the same are equivalent if the values under their keys are, but for how they
are packed. -/
theorem equivalent_stream {entries entries' : Dictionary} {content content' : List UInt8}
    (hcontent : unpacked entries content = unpacked entries' content')
    (h : ∀ key ∉ packing entries content,
      Option.Rel (Equivalent R) (Dictionary.get entries key) (Dictionary.get entries' key)) :
    Equivalent R (.stream entries content) (.stream entries' content') := by
  have hpacking := packing_eq hcontent
  refine .value rfl ?_ ?_
  · rw [shape, shape, hcontent, ← hpacking]
    refine congrArg (Shape.stream · _) (Finset.ext fun key => ?_)
    rw [Finset.mem_filter, Finset.mem_filter, List.mem_toFinset, List.mem_toFinset]
    exact and_congr_left fun hkey => mem_keys_iff (h key hkey)
  · rintro (key | i) value value' hvalue hvalue'
    · simp only [Roundtrip.child, ← hpacking, Option.ite_none_left_eq_some] at hvalue hvalue'
      exact (rel_some_some hvalue.2 hvalue'.2).1 (h key hvalue.1)
    · cases hvalue

/-! ### What is overlooked -/

/-- References to targets of one digest, or of none. -/
def SameDigest (digests : ObjectId → Option Digest) (id id' : ObjectId) : Prop :=
  digests id = digests id'

/-- Somewhere in both objects, at one place, stand two names or two references of which one
contributes the start of what the other does, or streams that cannot be decoded and are packed in
different ways. -/
inductive Blurred (digests : ObjectId → Option Digest) : Object → Object → Prop
  | name {bytes bytes' : String} : bytes ≠ bytes' →
      Comparable (textBytes bytes) (textBytes bytes') → Blurred digests (.name bytes) (.name bytes')
  | target {id id' : ObjectId} : digests id ≠ digests id' →
      Comparable (targetBytes (digests id)) (targetBytes (digests id')) →
      Blurred digests (.reference id) (.reference id')
  | packing {entries entries' : Dictionary} {content content' : List UInt8} {key : String} :
      StreamDecoder.decompressedContent entries content = none →
      StreamDecoder.decompressedContent entries' content' = none → key ∈ packingKeys →
      ¬ Option.Rel (Equivalent (SameDigest digests)) (Dictionary.get entries key)
        (Dictionary.get entries' key) →
      Blurred digests (.stream entries content) (.stream entries' content')
  | inside {object object' value value' : Object} (step : PathStep) :
      child object step = some value → child object' step = some value' →
      Blurred digests value value' → Blurred digests object object'

variable {digests : ObjectId → Option Digest}

theorem Blurred.not_equivalent {object object' : Object} (h : Blurred digests object object') :
    ¬ Equivalent (SameDigest digests) object object' := by
  induction h with
  | name hne _ => exact fun hequivalent => hne (Shape.name.inj hequivalent.shape_eq)
  | target hne _ =>
    intro hequivalent
    cases hequivalent with
    | reference hid => exact hne hid
    | value hobject _ _ => cases hobject
  | @packing entries entries' content content' key hdecoded hdecoded' _ happart =>
    intro hequivalent
    have hrel := hequivalent.child (.key key)
    rw [child_stream (not_mem_packing (.inl hdecoded)),
      child_stream (not_mem_packing (.inl hdecoded'))] at hrel
    exact happart hrel
  | inside step hvalue hvalue' _ ih =>
    exact fun hequivalent => ih ((rel_some_some hvalue hvalue').1 (hequivalent.child step))

/-! ### What the bytes tell -/

omit [StreamDecoder] in
theorem tells_tag (kind kind' : Kind) (E : Prop) : Tells kind.bytes kind'.bytes (kind = kind') E :=
  .ofDelimits delimits_tag trivial trivial

/-- Objects fed with different tags are told apart. -/
theorem tells_of_kind_ne {object object' : Object} (hproper : object.Proper)
    (hproper' : object'.Proper) (hkind : kind object ≠ kind object') {P E : Prop} :
    Tells (fedBytes digests object) (fedBytes digests object') P E := by
  obtain ⟨rest, hrest⟩ := exists_fedBytes_eq digests hproper
  obtain ⟨rest', hrest'⟩ := exists_fedBytes_eq digests hproper'
  rw [hrest, hrest']
  have hread : Tells ((kind object).bytes ++ rest) ((kind object').bytes ++ rest') (_ ∧ P) E :=
    (tells_tag (kind object) (kind object') E).append fun heq => absurd heq hkind
  exact hread.imp (fun hboth => .inl hboth.2) id

/-- The content of a stream tells whether it was decoded, and the bytes. -/
theorem tells_content {entries entries' : Dictionary} {content content' : List UInt8}
    (h : Fits (.stream entries content)) (h' : Fits (.stream entries' content')) (E : Prop) :
    Tells (contentBytes entries content) (contentBytes entries' content')
      (unpacked entries content = unpacked entries' content') E := by
  have htag : ∀ decoded decoded', Tells (textBytes (contentTag decoded))
      (textBytes (contentTag decoded')) (decoded = decoded') E := fun _ _ =>
    .ofDelimits delimits_contentTag trivial trivial
  obtain ⟨hlength, hdecoded⟩ := h
  obtain ⟨hlength', hdecoded'⟩ := h'
  unfold contentBytes unpacked
  cases hcontent : StreamDecoder.decompressedContent entries content with
  | none =>
    cases hcontent' : StreamDecoder.decompressedContent entries' content' with
    | none =>
      exact ((htag false false).append fun _ => .ofDelimits delimits_counted hlength hlength').imp
        (fun hboth => .inl (congrArg _ hboth.2)) id
    | some decoded' =>
      exact ((htag false true).append (Q := True) nofun).imp (fun hboth => nomatch hboth.1) id
  | some decoded =>
    cases hcontent' : StreamDecoder.decompressedContent entries' content' with
    | none => exact ((htag true false).append (Q := True) nofun).imp (fun hboth => nomatch hboth.1) id
    | some decoded' =>
      exact ((htag true true).append fun _ => .ofDelimits delimits_counted (hdecoded decoded hcontent)
        (hdecoded' decoded' hcontent')).imp (fun hboth => .inl (congrArg _ hboth.2)) id

omit [StreamDecoder] in
theorem length_sortedKeys_le (excluded : List String) (entries : Dictionary) :
    (sortedKeys excluded entries).length ≤ entries.length := by
  rw [sortedKeys, List.length_insertionSort]
  exact (List.length_filter_le _ _).trans_eq (List.length_map _)

/-- The bytes of a dictionary tell its keys and what those of the values under them tell. -/
theorem tells_dictionary (digests : ObjectId → Option Digest) (excluded : List String)
    {entries entries' : Dictionary}
    (h : Storable (.dictionary entries)) (h' : Storable (.dictionary entries'))
    {same : Object → Object → Prop} {E : Prop}
    (ih : ∀ key ∉ excluded, ∀ value value', Dictionary.get entries key = some value →
      Dictionary.get entries' key = some value' →
        Tells (fedBytes digests value) (fedBytes digests value') (same value value') E) :
    Tells (dictionaryBytes digests excluded entries) (dictionaryBytes digests excluded entries')
      (∀ key ∉ excluded,
        Option.Rel same (Dictionary.get entries key) (Dictionary.get entries' key)) E := by
  have hcount : ∀ {entries : Dictionary}, Storable (.dictionary entries) →
      (sortedKeys excluded entries).length < 2 ^ 64 := fun {entries} hstored =>
    (length_sortedKeys_le excluded entries).trans_lt
      ((List.length_map Prod.snd).symm.trans_lt hstored.length_lt)
  have hkey : ∀ key ∈ sortedKeys excluded entries, ∀ key' ∈ sortedKeys excluded entries',
      Tells (entryBytes digests entries key) (entryBytes digests entries' key')
        (key = key' ∧ ∀ value value', Dictionary.get entries key = some value →
          Dictionary.get entries' key = some value' → same value value') E := by
    intro key hmem key' hmem'
    obtain ⟨hheld, hexcluded⟩ := mem_sortedKeys.1 hmem
    have hheld' := (mem_sortedKeys.1 hmem').1
    refine (Tells.ofDelimits delimits_countedText (h.isBytes key hheld)
      (h'.isBytes key' hheld')).append fun heq => ?_
    subst heq
    obtain ⟨value, hvalue⟩ := Option.isSome_iff_exists.1 (isSome_get.2 hheld)
    obtain ⟨value', hvalue'⟩ := Option.isSome_iff_exists.1 (isSome_get.2 hheld')
    rw [hvalue, hvalue']
    refine (ih key hexcluded value value' hvalue hvalue').imp (fun hsame => .inl ?_) id
    intro _ _ hv hv'
    cases hv
    cases hv'
    exact hsame
  have hread := (tells_tag .dict .dict E).append fun _ =>
    (Tells.ofDelimits delimits_lengthBytes (hcount h) (hcount h')).append fun hlength =>
      Tells.flatMap_of_length_eq hlength hkey
  refine hread.imp (fun ⟨_, _, hall⟩ => .inl ?_) id
  have hkeys : sortedKeys excluded entries = sortedKeys excluded entries' :=
    List.forall₂_eq_eq_eq ▸ hall.imp fun _ _ hboth => hboth.1
  rw [← hkeys, List.forall₂_same] at hall
  intro key hexcluded
  have hmem : key ∈ entries.map Prod.fst ↔ key ∈ entries'.map Prod.fst := by
    have hsorted : key ∈ sortedKeys excluded entries ↔ key ∈ sortedKeys excluded entries' := by
      rw [hkeys]
    simpa [mem_sortedKeys, hexcluded] using hsorted
  refine rel_of_isSome ?_ fun value value' hvalue hvalue' => ?_
  · rw [Bool.eq_iff_iff, isSome_get, isSome_get, hmem]
  · have hheld := isSome_get.1 (Option.isSome_of_eq_some hvalue)
    exact (hall key (mem_sortedKeys.2 ⟨hheld, hexcluded⟩)).2 value value' hvalue hvalue'

/-- A stream that says the same and holds the same, but for how it is packed. -/
theorem stream_equivalent_or_blurred {entries entries' : Dictionary} {content content' : List UInt8}
    (hcontent : unpacked entries content = unpacked entries' content')
    (h : ∀ key ∉ packingKeys, Option.Rel (Equivalent (SameDigest digests))
      (Dictionary.get entries key) (Dictionary.get entries' key)) :
    Equivalent (SameDigest digests) (.stream entries content) (.stream entries' content') ∨
      Blurred digests (.stream entries content) (.stream entries' content') := by
  cases hdecoded : StreamDecoder.decompressedContent entries content with
  | some decoded =>
    refine .inl (equivalent_stream hcontent fun key hkey => h key ?_)
    simpa [packing, hdecoded] using hkey
  | none =>
    have hdecoded' : StreamDecoder.decompressedContent entries' content' = none :=
      (unpacked_eq_iff.1 hcontent).1.symm.trans hdecoded
    by_cases hpacked : ∀ key ∈ packingKeys, Option.Rel (Equivalent (SameDigest digests))
        (Dictionary.get entries key) (Dictionary.get entries' key)
    · refine .inl (equivalent_stream hcontent fun key _ => ?_)
      by_cases hkey : key ∈ packingKeys
      · exact hpacked key hkey
      · exact h key hkey
    · simp only [not_forall] at hpacked
      obtain ⟨key, hkey, happart⟩ := hpacked
      exact .inr (.packing hdecoded hdecoded' hkey happart)

/-- What is fed for one object and for another tells whether they are equivalent, or something in
them is overlooked. -/
def TellsObjects (digests : ObjectId → Option Digest) (object object' : Object) : Prop :=
  Tells (fedBytes digests object) (fedBytes digests object')
    (Equivalent (SameDigest digests) object object') (Blurred digests object object')

/-- Likewise for the values that stand at one step from both. -/
def TellsInside (digests : ObjectId → Option Digest) (object object' : Object) : Prop :=
  ∀ step value value', child object step = some value → child object' step = some value' →
    Tells (fedBytes digests value) (fedBytes digests value')
      (Equivalent (SameDigest digests) value value') (Blurred digests object object')

theorem tells_null : TellsObjects digests .null .null := by
  unfold TellsObjects
  rw [fedBytes_null]
  exact (tells_tag .null .null _).imp (fun _ => .inl (equivalent_of_shape rfl rfl rfl)) id

theorem tells_boolean (value value' : Bool) :
    TellsObjects digests (.boolean value) (.boolean value') := by
  unfold TellsObjects
  rw [fedBytes_boolean, fedBytes_boolean]
  exact ((Tells.ofDelimits delimits_boolean trivial trivial).prepend _).imp
    (fun hvalue => .inl (equivalent_of_shape rfl (congrArg Shape.boolean hvalue) rfl)) id

theorem tells_integer {value value' : Int} (h : Storable (.integer value))
    (h' : Storable (.integer value')) : TellsObjects digests (.integer value) (.integer value') := by
  unfold TellsObjects
  rw [fedBytes_integer, fedBytes_integer]
  exact ((Tells.ofDelimits delimits_integer h.fits h'.fits).prepend _).imp
    (fun hvalue => .inl (equivalent_of_shape rfl (congrArg Shape.integer hvalue) rfl)) id

theorem tells_real (value value' : Binary32.F32) : TellsObjects digests (.real value) (.real value') := by
  unfold TellsObjects
  rw [fedBytes_real, fedBytes_real]
  exact ((Tells.ofDelimits delimits_real trivial trivial).prepend _).imp
    (fun hvalue => .inl (equivalent_of_shape rfl (congrArg Shape.real hvalue) rfl)) id

/-- A name is fed without its length, so one that starts another runs on into what follows. -/
theorem tells_name (bytes bytes' : String) : TellsObjects digests (.name bytes) (.name bytes') := by
  unfold TellsObjects
  rw [fedBytes_name, fedBytes_name]
  exact ((Tells.ofComparable textBytes _ _).prepend _).imp
    (fun hbytes => .inl (equivalent_of_shape rfl (congrArg Shape.name hbytes) rfl))
    fun hwhy => .name hwhy.1 hwhy.2

theorem tells_string {bytes bytes' : String} {format format' : StringFormat}
    (h : Storable (.string bytes format)) (h' : Storable (.string bytes' format')) :
    TellsObjects digests (.string bytes format) (.string bytes' format') := by
  unfold TellsObjects
  rw [fedBytes_string, fedBytes_string]
  exact ((Tells.ofDelimits delimits_countedText h.fits h'.fits).prepend _).imp
    (fun hbytes => .inl (equivalent_of_shape rfl (congrArg Shape.string hbytes) rfl)) id

theorem tells_array {items items' : List Object} (h : Storable (.array items))
    (h' : Storable (.array items')) (hinside : TellsInside digests (.array items) (.array items')) :
    TellsObjects digests (.array items) (.array items') := by
  unfold TellsObjects
  rw [fedBytes_array, fedBytes_array]
  have hitems : ∀ hlength : items.length = items'.length, List.Forall₂ (fun item item' =>
      Tells (fedBytes digests item) (fedBytes digests item')
        (Equivalent (SameDigest digests) item item') _) items items' := fun hlength =>
    List.forall₂_of_length_eq_of_get hlength fun i hi hi' =>
      hinside (.index i) _ _ (List.getElem?_eq_getElem hi) (List.getElem?_eq_getElem hi')
  have hread := (Tells.ofDelimits delimits_lengthBytes h.length_lt h'.length_lt).append
    fun hlength => Tells.flatMap (hitems hlength)
  exact (hread.prepend _).imp (fun hall => .inl (equivalent_array hall.2)) id

theorem tells_dictionaryObject {entries entries' : Dictionary} (h : Storable (.dictionary entries))
    (h' : Storable (.dictionary entries'))
    (hinside : TellsInside digests (.dictionary entries) (.dictionary entries')) :
    TellsObjects digests (.dictionary entries) (.dictionary entries') := by
  unfold TellsObjects
  rw [fedBytes_dictionary digests h.proper.nodup, fedBytes_dictionary digests h'.proper.nodup]
  exact (tells_dictionary digests [] h h' fun key _ => hinside (.key key)).imp
    (fun hrel => .inl (equivalent_dictionary fun key => hrel key List.not_mem_nil)) id

theorem tells_stream {entries entries' : Dictionary} {content content' : List UInt8}
    (h : Storable (.stream entries content)) (h' : Storable (.stream entries' content'))
    (hinside : TellsInside digests (.stream entries content) (.stream entries' content')) :
    TellsObjects digests (.stream entries content) (.stream entries' content') := by
  unfold TellsObjects
  rw [fedBytes_stream digests _ h.proper.nodup, fedBytes_stream digests _ h'.proper.nodup]
  have hvalues := tells_dictionary digests packingKeys h.dictionary h'.dictionary
    fun key hkey value value' hvalue hvalue' => hinside (.key key) value value'
      ((child_stream (not_mem_packing (.inr hkey))).trans hvalue)
      ((child_stream (not_mem_packing (.inr hkey))).trans hvalue')
  exact ((hvalues.append fun _ => tells_content h.fits h'.fits _).prepend _).imp
    (fun hread => stream_equivalent_or_blurred hread.2 hread.1) id

/-- A missing target is fed shorter than a digest, so a digest may run on past it. -/
theorem tells_reference (id id' : ObjectId) : TellsObjects digests (.reference id) (.reference id') := by
  unfold TellsObjects
  rw [fedBytes_reference, fedBytes_reference]
  exact ((Tells.ofComparable targetBytes _ _).prepend _).imp (fun hid => .inl (.reference hid))
    fun hwhy => .target hwhy.1 hwhy.2

/-- What is fed for an object tells it up to equivalence, or something in it is overlooked. -/
theorem tells_object (digests : ObjectId → Option Digest) (object : Object) :
    ∀ object', Storable object → Storable object' → TellsObjects digests object object' := by
  induction object using Object.childInduction with
  | step object ih =>
    intro object' h h'
    by_cases hkind : kind object = kind object'
    case neg => exact tells_of_kind_ne h.proper h'.proper hkind
    have hinside : TellsInside digests object object' := by
      intro step value value' hvalue hvalue'
      have hmem := mem_children_of_child hvalue
      have hmem' := mem_children_of_child hvalue'
      exact (ih value hmem value' (h.mem_children hmem) (h'.mem_children hmem')).imp .inl
        (.inside step hvalue hvalue')
    cases object with
    | null =>
      cases object' <;> cases hkind
      exact tells_null
    | boolean =>
      cases object' <;> cases hkind
      exact tells_boolean _ _
    | integer =>
      cases object' <;> cases hkind
      exact tells_integer h h'
    | real =>
      cases object' <;> cases hkind
      exact tells_real _ _
    | name =>
      cases object' <;> cases hkind
      exact tells_name _ _
    | string =>
      cases object' <;> cases hkind
      exact tells_string h h'
    | array =>
      cases object' <;> cases hkind
      exact tells_array h h' hinside
    | dictionary =>
      cases object' <;> cases hkind
      exact tells_dictionaryObject h h' hinside
    | stream =>
      cases object' <;> cases hkind
      exact tells_stream h h' hinside
    | reference =>
      cases object' <;> cases hkind
      exact tells_reference _ _

/-- Two objects fed the same bytes are equivalent, references to one digest being the same, exactly
when nothing in them is overlooked. -/
theorem canonical_form_injective_iff (digests : ObjectId → Option Digest) (x y : StoredObject)
    (hfed : fedBytes digests x.object = fedBytes digests y.object) :
    Equivalent (SameDigest digests) x.object y.object ↔ ¬ Blurred digests x.object y.object := by
  have htells := tells_object digests x.object y.object x.storable y.storable
  exact ⟨fun hequivalent hblurred => hblurred.not_equivalent hequivalent,
    (htells.of_eq hfed).resolve_right⟩

end Form

/-! ### Two names that run together -/

section Names

open scoped NumberedDigests

theorem storable_name {bytes : String} (h : IsBytes bytes) : Storable (.name bytes) :=
  .intro .nil nofun (Nat.two_pow_pos 64) h nofun

def namePair (first second : { text : String // IsBytes text }) : StoredObject where
  object := .array [.name first.1, .name second.1]
  storable := by
    refine .intro .nil nofun (by simp [Object.children]) trivial fun child hchild => ?_
    rcases List.mem_pair.1 hchild with rfl | rfl
    · exact storable_name first.2
    · exact storable_name second.2

def splitEarly : StoredObject := namePair ⟨"a", by decide +kernel⟩ ⟨"bnamec", by decide +kernel⟩

def splitLate : StoredObject := namePair ⟨"anameb", by decide +kernel⟩ ⟨"c", by decide +kernel⟩

theorem fedBytes_split :
    fedBytes (fun _ => none) splitEarly.object = fedBytes (fun _ => none) splitLate.object := by
  decide +kernel

theorem not_equivalent_split :
    ¬ Equivalent (SameDigest fun _ => none) splitEarly.object splitLate.object := by
  intro h
  have hfirst := ((rel_some_some rfl rfl).1 (h.child (.index 0))).shape_eq
  exact absurd (Shape.name.inj hfirst) (by decide +kernel)

/-- `[/a /bnamec]` and `[/anameb /c]` are fed the same bytes. -/
theorem adjacent_names_run_together :
    fedBytes (fun _ => none) splitEarly.object = fedBytes (fun _ => none) splitLate.object ∧
      ¬ Equivalent (SameDigest fun _ => none) splitEarly.object splitLate.object :=
  ⟨fedBytes_split, not_equivalent_split⟩

/-- One of the names is the start of another in its place. -/
theorem adjacent_names_blurred :
    fedBytes (fun _ => none) splitEarly.object = fedBytes (fun _ => none) splitLate.object ∧
      Blurred (fun _ => none) splitEarly.object splitLate.object :=
  ⟨fedBytes_split, not_not.1 fun h => not_equivalent_split
    ((canonical_form_injective_iff (fun _ => none) splitEarly splitLate fedBytes_split).2 h)⟩

end Names
end Roundtrip
end OpdfEditor
