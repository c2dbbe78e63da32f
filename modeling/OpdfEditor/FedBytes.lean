import OpdfEditor.DiffEquivalence
import OpdfEditor.RealBits
import OpdfEditor.SelfDelimiting

/-!
The bytes the structural comparison feeds to its hash for an object of each kind. Tags, numbers and
counted bytes are split off what follows them; names and the targets of references are not.
-/
namespace OpdfEditor
namespace Roundtrip

open Binary32 (F32)
open ColourRefinement (Glyph)
open SelfDelimiting (Delimits delimits_of_width delimits_of_prefixFree)

/-! ### Bytes -/

abbrev Digest := { bytes : List UInt8 // bytes.length = 32 }

def byteOf (letter : Char) : UInt8 := UInt8.ofNat letter.toNat

def glyphBytes : Glyph Char Digest → List UInt8
  | .letter letter => [byteOf letter]
  | .mark digest => digest.1

/-- The bytes fed to the hash for an object. -/
def fedBytes [StreamDecoder] (digests : ObjectId → Option Digest) (object : Object) : List UInt8 :=
  (feedObject digests object).flatMap glyphBytes

def textBytes (text : String) : List UInt8 := text.toList.map byteOf

def littleEndianBytes (width n : Nat) : List UInt8 :=
  (List.range width).map fun i => UInt8.ofNat (n / 256 ^ i % 256)

def lengthBytes (n : Nat) : List UInt8 := littleEndianBytes 8 n

/-- Bytes after their number. -/
def counted (bytes : List UInt8) : List UInt8 := lengthBytes bytes.length ++ bytes

/-- The character of a small number stands for the byte of that number. -/
theorem byteOf_ofNat {n : Nat} (h : n < 256) : byteOf (Char.ofNat n) = UInt8.ofNat n := by
  have hvalid : n.isValidChar := .inl (by omega)
  rw [byteOf, Char.toNat, Char.ofNat, dif_pos hvalid]
  rfl

theorem flatMap_glyphBytes (cs : List Char) :
    (cs.map .letter).flatMap glyphBytes = cs.map byteOf := by
  rw [List.flatMap_map, List.map_eq_flatMap]
  rfl

@[simp] theorem flatMap_letters (text : String) :
    (letters text : Feed Digest).flatMap glyphBytes = textBytes text := flatMap_glyphBytes _

@[simp] theorem flatMap_littleEndian (width n : Nat) :
    (littleEndian width n : Feed Digest).flatMap glyphBytes = littleEndianBytes width n := by
  have hbyte : ∀ i, byteOf (Char.ofNat (n / 256 ^ i % 256)) = UInt8.ofNat (n / 256 ^ i % 256) :=
    fun i => byteOf_ofNat (Nat.mod_lt _ (by decide))
  simp only [littleEndian, littleEndianBytes, List.flatMap_map, glyphBytes, hbyte]
  rw [List.map_eq_flatMap]

@[simp] theorem flatMap_feedLength (n : Nat) :
    (feedLength n : Feed Digest).flatMap glyphBytes = lengthBytes n := flatMap_littleEndian 8 n

@[simp] theorem flatMap_feedBytes (bytes : List UInt8) :
    (feedBytes bytes : Feed Digest).flatMap glyphBytes = bytes := by
  have hbyte : ∀ byte : UInt8, byteOf (Char.ofNat byte.toNat) = byte := fun byte => by
    rw [byteOf_ofNat byte.toNat_lt]
    exact UInt8.ofNat_toNat
  simp [feedBytes, List.flatMap_map, glyphBytes, hbyte]

@[simp] theorem length_textBytes (text : String) : (textBytes text).length = text.length := by
  simp [textBytes, String.length_toList]

/-! ### What is split off -/

theorem ofNat_inj {m n : Nat} (hm : m < 256) (hn : n < 256) :
    UInt8.ofNat m = UInt8.ofNat n ↔ m = n := by
  rw [← UInt8.toNat_inj, UInt8.toNat_ofNat', UInt8.toNat_ofNat', Nat.mod_eq_of_lt hm,
    Nat.mod_eq_of_lt hn]

/-- The lowest bytes of a number say what it is up to as many. -/
theorem mod_eq_of_littleEndianBytes {m n : Nat} : ∀ width,
    littleEndianBytes width m = littleEndianBytes width n → m % 256 ^ width = n % 256 ^ width
  | 0, _ => by rw [pow_zero, Nat.mod_one, Nat.mod_one]
  | width + 1, h => by
    simp only [littleEndianBytes, List.range_succ, List.map_append, List.map_singleton] at h
    obtain ⟨hlow, hhigh⟩ := List.append_inj' h rfl
    rw [List.singleton_inj, ofNat_inj (Nat.mod_lt _ (by decide)) (Nat.mod_lt _ (by decide))] at hhigh
    rw [Nat.mod_pow_succ, Nat.mod_pow_succ, mod_eq_of_littleEndianBytes width hlow, hhigh]

/-- A number that fits a width is read off the front. -/
theorem delimits_littleEndianBytes (width : Nat) :
    Delimits (littleEndianBytes width) {n | n < 256 ^ width} := by
  refine delimits_of_width width (fun n _ => by simp [littleEndianBytes]) ?_
  intro m hm n hn h
  have hmod := mod_eq_of_littleEndianBytes width h
  rwa [Nat.mod_eq_of_lt hm, Nat.mod_eq_of_lt hn] at hmod

theorem delimits_lengthBytes : Delimits lengthBytes {n | n < 2 ^ 64} := delimits_littleEndianBytes 8

/-- So are bytes after their number. -/
theorem delimits_counted : Delimits counted {bytes | bytes.length < 2 ^ 64} :=
  delimits_lengthBytes.counted

theorem delimits_boolean : Delimits (fun value : Bool => [UInt8.ofNat value.toNat]) Set.univ := by
  refine delimits_of_width 1 (fun _ _ => rfl) ?_
  intro value _ value' _ h
  cases value <;> cases value' <;> first | rfl | cases h

def IsI64 (value : Int) : Prop := -2 ^ 63 ≤ value ∧ value < 2 ^ 63

/-- So is an integer of 64 bits. -/
theorem delimits_integer :
    Delimits (fun value : Int => littleEndianBytes 8 (value % 2 ^ 64).toNat) {value | IsI64 value} := by
  refine (delimits_littleEndianBytes 8).comp (f := fun value : Int => (value % 2 ^ 64).toNat) ?_ ?_
  · intro value _
    simp only [Set.mem_ofPred_eq]
    omega
  · intro value hvalue value' hvalue' h
    simp only [Set.mem_ofPred_eq, IsI64] at hvalue hvalue' h
    omega

/-- So is a number, up to the sign of zero. -/
theorem delimits_real : Delimits (fun value : F32 => littleEndianBytes 4 (realBits value)) Set.univ :=
  (delimits_littleEndianBytes 4).comp (f := realBits) (fun value _ => realBits_lt value)
    realBits_injective.injOn

def IsBytes (text : String) : Prop :=
  text.toList.all (fun c => c.toNat < 256) = true ∧ text.length < 2 ^ 64

instance : DecidablePred IsBytes := fun _ =>
  inferInstanceAs (Decidable (_ ∧ _))

/-- Texts of bytes are told apart by their bytes. -/
theorem textBytes_injOn : Set.InjOn textBytes {text | IsBytes text} := by
  have hread : ∀ text, IsBytes text →
      (textBytes text).map (fun byte => Char.ofNat byte.toNat) = text.toList := by
    intro text htext
    have hletter : ∀ c ∈ text.toList, ((fun byte => Char.ofNat byte.toNat) ∘ byteOf) c = id c := by
      intro c hc
      have hbyte : c.toNat < 256 := of_decide_eq_true (List.all_eq_true.1 htext.1 c hc)
      rw [Function.comp, byteOf, UInt8.toNat_ofNat', Nat.mod_eq_of_lt hbyte, Char.ofNat_toNat, id]
    rw [textBytes, List.map_map, List.map_congr_left hletter, List.map_id]
  intro text htext text' htext' h
  rw [← String.toList_inj, ← hread text htext, h, hread text' htext']

theorem delimits_countedText :
    Delimits (fun text => counted (textBytes text)) {text | IsBytes text} :=
  delimits_counted.comp (f := textBytes)
    (fun text htext => (length_textBytes text).trans_lt htext.2) textBytes_injOn

/-! ### Tags -/

inductive Kind where
  | null | bool | int | real | name | string | array | dict | stream | ref
  deriving DecidableEq

/-- What an object of the kind is fed with first. -/
def Kind.tag : Kind → String
  | .null => "null"
  | .bool => "bool"
  | .int => "int"
  | .real => "real"
  | .name => "name"
  | .string => "string"
  | .array => "array"
  | .dict => "dict"
  | .stream => "stream"
  | .ref => "ref"

def Kind.bytes (kind : Kind) : List UInt8 := textBytes kind.tag

/-- No tag is the start of another. -/
theorem delimits_tag : Delimits Kind.bytes Set.univ := by
  have hfree : ∀ kind kind' : Kind, kind.bytes <+: kind'.bytes → kind = kind' := by
    intro kind kind'
    cases kind <;> cases kind' <;> decide +kernel
  exact delimits_of_prefixFree fun kind _ kind' _ => hfree kind kind'

/-- Whether the bytes of a stream could be decoded. -/
def contentTag (decoded : Bool) : String := if decoded then "decoded" else "raw"

theorem delimits_contentTag :
    Delimits (fun decoded => textBytes (contentTag decoded)) Set.univ := by
  have hfree : ∀ decoded decoded', textBytes (contentTag decoded) <+: textBytes (contentTag decoded') →
      decoded = decoded' := by
    intro decoded decoded'
    cases decoded <;> cases decoded' <;> decide +kernel
  exact delimits_of_prefixFree fun decoded _ decoded' _ => hfree decoded decoded'

def kind : Object → Kind
  | .null => .null
  | .boolean _ => .bool
  | .integer _ => .int
  | .real _ => .real
  | .name _ => .name
  | .string _ _ => .string
  | .array _ => .array
  | .dictionary _ => .dict
  | .stream _ _ => .stream
  | .reference _ => .ref

/-! ### The bytes of each kind of object -/

section Fed

variable [StreamDecoder] (digests : ObjectId → Option Digest)

/-- What a reference contributes: the digest of its target, or that there is none. -/
def targetBytes : Option Digest → List UInt8
  | some digest => digest.1
  | none => textBytes dangling

/-- A key and the value under it. -/
def entryBytes (entries : Dictionary) (key : String) : List UInt8 :=
  counted (textBytes key) ++ (Dictionary.get entries key).elim [] (fedBytes digests)

/-- A dictionary key by key. -/
def dictionaryBytes (excluded : List String) (entries : Dictionary) : List UInt8 :=
  Kind.dict.bytes ++ (lengthBytes (sortedKeys excluded entries).length ++
    (sortedKeys excluded entries).flatMap (entryBytes digests entries))

def contentBytes (entries : Dictionary) (content : List UInt8) : List UInt8 :=
  match StreamDecoder.decompressedContent entries content with
  | some decoded => textBytes (contentTag true) ++ counted decoded
  | none => textBytes (contentTag false) ++ counted content

/-- What each kind of object is fed as, in bytes. -/
theorem fedBytes_null : fedBytes digests .null = Kind.null.bytes := by
  simp [fedBytes, feedObject, Kind.bytes, Kind.tag]

theorem fedBytes_boolean (value : Bool) :
    fedBytes digests (.boolean value) = Kind.bool.bytes ++ [UInt8.ofNat value.toNat] := by
  have hbyte := byteOf_ofNat (value.toNat_lt.trans (by decide))
  simp [fedBytes, feedObject, glyphBytes, Kind.bytes, Kind.tag, hbyte]

theorem fedBytes_integer (value : Int) : fedBytes digests (.integer value) =
    Kind.int.bytes ++ littleEndianBytes 8 (value % 2 ^ 64).toNat := by
  simp [fedBytes, feedObject, Kind.bytes, Kind.tag]

theorem fedBytes_real (value : F32) : fedBytes digests (.real value) =
    Kind.real.bytes ++ littleEndianBytes 4 (realBits value) := by
  simp [fedBytes, feedObject, Kind.bytes, Kind.tag]

/-- A name is fed without its length. -/
theorem fedBytes_name (bytes : String) :
    fedBytes digests (.name bytes) = Kind.name.bytes ++ textBytes bytes := by
  simp [fedBytes, feedObject, Kind.bytes, Kind.tag]

/-- A string is fed after its length, and not in its notation. -/
theorem fedBytes_string (bytes : String) (format : StringFormat) :
    fedBytes digests (.string bytes format) = Kind.string.bytes ++ counted (textBytes bytes) := by
  simp [fedBytes, feedObject, Kind.bytes, Kind.tag, counted]

theorem fedBytes_array (items : List Object) : fedBytes digests (.array items) =
    Kind.array.bytes ++ (lengthBytes items.length ++ items.flatMap (fedBytes digests)) := by
  simp only [fedBytes, feedObject, feedItems_eq, List.flatMap_append, flatMap_letters,
    flatMap_feedLength, List.flatMap_assoc, List.append_assoc, Kind.bytes, Kind.tag]
  rfl

/-- A dictionary is fed with its keys in sorted order, whatever order it has them in. -/
theorem flatMap_feedDictionary (excluded : List String) {entries : Dictionary}
    (hnodup : (entries.map Prod.fst).Nodup) :
    (feedDictionary excluded (feedEntries digests entries)).flatMap glyphBytes =
      dictionaryBytes digests excluded entries := by
  rw [feedDictionary_eq digests excluded hnodup, dictionaryBytes]
  simp only [List.flatMap_append, flatMap_letters, flatMap_feedLength, List.flatMap_assoc,
    List.append_assoc, Kind.bytes, Kind.tag]
  refine congrArg _ (congrArg _ (List.flatMap_congr fun key _ => ?_))
  simp only [entryBytes, feedEntry, counted, length_textBytes, List.flatMap_append,
    flatMap_feedLength, flatMap_letters]
  cases Dictionary.get entries key <;> rfl

theorem fedBytes_dictionary {entries : Dictionary} (hnodup : (entries.map Prod.fst).Nodup) :
    fedBytes digests (.dictionary entries) = dictionaryBytes digests [] entries :=
  flatMap_feedDictionary digests [] hnodup

theorem fedBytes_stream {entries : Dictionary} (content : List UInt8)
    (hnodup : (entries.map Prod.fst).Nodup) : fedBytes digests (.stream entries content) =
      Kind.stream.bytes ++ (dictionaryBytes digests packingKeys entries ++
        contentBytes entries content) := by
  have hcontent : (feedContent entries content : Feed Digest).flatMap glyphBytes =
      contentBytes entries content := by
    unfold feedContent contentBytes
    cases StreamDecoder.decompressedContent entries content <;> simp [counted, contentTag]
  rw [fedBytes, feedObject, List.flatMap_append, List.flatMap_append, hcontent,
    flatMap_feedDictionary digests packingKeys hnodup, flatMap_letters, List.append_assoc]
  rfl

/-- A reference is fed as the digest of its target. -/
theorem fedBytes_reference (id : ObjectId) : fedBytes digests (.reference id) =
    Kind.ref.bytes ++ targetBytes (digests id) := by
  cases hdigest : digests id <;>
    simp [fedBytes, feedObject, feedReference, hdigest, glyphBytes, targetBytes, Kind.bytes, Kind.tag]

/-- Every object is fed with its tag first. -/
theorem exists_fedBytes_eq {object : Object} (hproper : object.Proper) :
    ∃ rest, fedBytes digests object = (kind object).bytes ++ rest := by
  cases object with
  | null => exact ⟨[], (fedBytes_null digests).trans (List.append_nil _).symm⟩
  | boolean value => exact ⟨_, fedBytes_boolean digests value⟩
  | integer value => exact ⟨_, fedBytes_integer digests value⟩
  | real value => exact ⟨_, fedBytes_real digests value⟩
  | name bytes => exact ⟨_, fedBytes_name digests bytes⟩
  | string bytes format => exact ⟨_, fedBytes_string digests bytes format⟩
  | array items => exact ⟨_, fedBytes_array digests items⟩
  | dictionary entries => exact ⟨_, fedBytes_dictionary digests hproper.nodup⟩
  | stream entries content => exact ⟨_, fedBytes_stream digests content hproper.nodup⟩
  | reference id => exact ⟨_, fedBytes_reference digests id⟩

end Fed
end Roundtrip
end OpdfEditor
