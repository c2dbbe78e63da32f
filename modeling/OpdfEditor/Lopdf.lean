import OpdfEditor.Page
import Mathlib.Data.Finmap

/-!
Object graphs as the PDF library holds them: objects under identifiers, a trailer
that names the roots, and an incremental document whose appended objects shadow
those of the revision it extends. What the library itself computes (following
references, walking the page tree, pruning, renumbering) is a parameter.

Names and keys are byte strings, one character a byte.
-/
namespace OpdfEditor

open Binary32 (F32)

/-- Object number and generation. -/
abbrev ObjectId := Nat × Nat

/-- How a string is written down. -/
inductive StringFormat where
  | literal
  | hexadecimal
  deriving DecidableEq

inductive Object where
  | null
  | boolean (value : Bool)
  | integer (value : Int)
  | real (value : F32)
  | name (bytes : String)
  | string (bytes : String) (format : StringFormat)
  | array (items : List Object)
  | dictionary (entries : List (String × Object))
  | stream (entries : List (String × Object)) (content : List UInt8)
  | reference (id : ObjectId)

/-- Entries in insertion order. -/
abbrev Dictionary := List (String × Object)

namespace Dictionary

def get (d : Dictionary) (key : String) : Option Object := d.lookup key

def has (d : Dictionary) (key : String) : Bool := (get d key).isSome

def remove (key : String) (d : Dictionary) : Dictionary := d.filter (·.1 ≠ key)

/-- Overwrite an entry in place, or append it: a key is held once. -/
def set (key : String) (value : Object) : Dictionary → Dictionary
  | [] => [(key, value)]
  | (k, v) :: rest =>
    if k = key then (key, value) :: remove key rest else (k, v) :: set key value rest

def setAll (entries : List (String × Object)) (d : Dictionary) : Dictionary :=
  entries.foldl (fun d entry => set entry.1 entry.2 d) d

@[simp] theorem get_nil (key : String) : get [] key = none := rfl

/-- The first entry under a key counts. -/
theorem get_cons (k key : String) (v : Object) (d : Dictionary) :
    get ((k, v) :: d) key = if key = k then some v else get d key := by
  by_cases h : key = k
  · simp [get, h]
  · have hbeq : (key == k) = false := by simpa using h
    simp [get, List.lookup_cons, h, hbeq]

theorem mem_of_get {d : Dictionary} {key : String} {value : Object} (h : get d key = some value) :
    (key, value) ∈ d := by
  obtain ⟨before, after, rfl, -⟩ := List.lookup_eq_some_iff.1 h
  simp

/-- A key holds nothing exactly where no entry has it. -/
theorem get_eq_none {d : Dictionary} {key : String} :
    get d key = none ↔ ∀ entry ∈ d, entry.1 ≠ key := by
  simp only [get, List.lookup_eq_none_iff, bne_iff_ne, ne_comm]

@[simp] theorem get_remove_self (key : String) (d : Dictionary) : get (remove key d) key = none := by
  induction d with
  | nil => rfl
  | cons entry d ih =>
    obtain ⟨k, v⟩ := entry
    by_cases h : k = key
    · simpa [remove, h] using ih
    · have : remove key ((k, v) :: d) = (k, v) :: remove key d := by simp [remove, h]
      rw [this, get_cons, if_neg (Ne.symm h), ih]

theorem get_remove_of_ne {key key' : String} (h : key' ≠ key) (d : Dictionary) :
    get (remove key d) key' = get d key' := by
  induction d with
  | nil => rfl
  | cons entry d ih =>
    obtain ⟨k, v⟩ := entry
    by_cases hk : k = key
    · subst hk
      rw [get_cons, if_neg h, ← ih]
      simp [remove]
    · have : remove key ((k, v) :: d) = (k, v) :: remove key d := by simp [remove, hk]
      rw [this, get_cons, get_cons, ih]

@[simp] theorem get_set_self (key : String) (value : Object) (d : Dictionary) :
    get (set key value d) key = some value := by
  induction d with
  | nil => simp [set, get_cons]
  | cons entry d ih =>
    obtain ⟨k, v⟩ := entry
    by_cases h : k = key
    · simp [set, h, get_cons]
    · simp [set, h, get_cons, Ne.symm h, ih]

/-- An entry set under one key leaves the others. -/
theorem get_set_of_ne {key key' : String} (h : key' ≠ key) (value : Object) (d : Dictionary) :
    get (set key value d) key' = get d key' := by
  induction d with
  | nil => simp [set, get_cons, h]
  | cons entry d ih =>
    obtain ⟨k, v⟩ := entry
    by_cases hk : k = key
    · subst hk
      simp [set, get_cons, h, get_remove_of_ne h]
    · by_cases hk' : key' = k
      · simp [set, hk, get_cons, hk']
      · simp [set, hk, get_cons, hk', ih]

theorem mem_remove {key : String} {d : Dictionary} {entry : String × Object} :
    entry ∈ remove key d ↔ entry ∈ d ∧ entry.1 ≠ key := by simp [remove]

/-- The entries after one is set: it, and those under other keys. -/
theorem mem_set {key : String} {value : Object} {d : Dictionary} {entry : String × Object} :
    entry ∈ set key value d ↔ (entry ∈ d ∧ entry.1 ≠ key) ∨ entry = (key, value) := by
  induction d with
  | nil => simp [set]
  | cons first d ih =>
    obtain ⟨k, v⟩ := first
    by_cases h : k = key
    · subst h
      simp only [set, if_true, List.mem_cons, mem_remove]
      grind
    · simp only [set, if_neg h, List.mem_cons, ih]
      grind

@[simp] theorem setAll_nil (d : Dictionary) : setAll [] d = d := rfl

@[simp] theorem setAll_cons (entry : String × Object) (entries : List (String × Object))
    (d : Dictionary) : setAll (entry :: entries) d = setAll entries (set entry.1 entry.2 d) := rfl

/-- The entry set last is set after all others. -/
theorem setAll_concat (entries : List (String × Object)) (key : String) (value : Object)
    (d : Dictionary) : setAll (entries ++ [(key, value)]) d = set key value (setAll entries d) := by
  simp [setAll]

/-- What was there under other keys stays, and each key keeps the value written last. -/
theorem mem_setAll {entries : List (String × Object)} {d : Dictionary} {entry : String × Object} :
    entry ∈ setAll entries d ↔ (entry ∈ d ∧ ∀ written ∈ entries, written.1 ≠ entry.1) ∨
      get entries.reverse entry.1 = some entry.2 := by
  induction entries using List.reverseRecOn with
  | nil => simp
  | append_singleton entries last ih =>
    obtain ⟨k, v⟩ := last
    obtain ⟨key, value⟩ := entry
    rw [setAll_concat, mem_set, ih, List.reverse_concat, get_cons]
    by_cases h : key = k
    · subst h
      simp [eq_comm]
    · simp only [if_neg h, List.mem_append, List.mem_singleton, Prod.mk.injEq]
      grind

/-- Each key holds what was written last, or what it did. -/
theorem get_setAll (entries : List (String × Object)) (d : Dictionary) (key : String) :
    get (setAll entries d) key = (get entries.reverse key).or (get d key) := by
  induction entries using List.reverseRecOn with
  | nil => simp
  | append_singleton entries last ih =>
    obtain ⟨k, v⟩ := last
    rw [setAll_concat, List.reverse_concat, get_cons]
    by_cases h : key = k
    · subst h
      simp
    · rw [if_neg h, get_set_of_ne h, ih]

theorem has_eq_false {d : Dictionary} {key : String} : has d key = false ↔ get d key = none := by
  simp [has]

end Dictionary

namespace Object

def asReference : Object → Option ObjectId
  | reference id => some id
  | _ => none

def asDict : Object → Option Dictionary
  | dictionary entries => some entries
  | _ => none

def asName : Object → Option String
  | name bytes => some bytes
  | _ => none

def asArray : Object → Option (List Object)
  | array items => some items
  | _ => none

/-- A number of either kind, as single precision. -/
def asFloat : Object → Option F32
  | integer value => some (.ofInt value)
  | real value => some value
  | _ => none

def asInt : Object → Option Int
  | integer value => some value
  | _ => none

def isReference : Object → Bool
  | reference _ => true
  | _ => false

theorem asDict_eq_some {o : Object} {d : Dictionary} : o.asDict = some d ↔ o = dictionary d := by
  cases o <;> simp [asDict]

theorem asReference_eq_some {o : Object} {id : ObjectId} :
    o.asReference = some id ↔ o = reference id := by
  cases o <;> simp [asReference]

end Object

abbrev Objects := Finmap fun _ : ObjectId => Object

structure LopdfDocument where
  version : String
  objects : Objects
  trailer : Dictionary
  /-- The highest object number handed out so far. -/
  maxId : Nat

/-- What the PDF library computes over object graphs. -/
class Lopdf where
  /-- The identifier at which following references from this one ends. -/
  dereference : Objects → ObjectId → Option ObjectId
  /-- The message for an identifier that cannot be followed or is not of the type asked for. -/
  failure : Objects → ObjectId → String
  /-- The pages of a document, by a walk of its page tree. -/
  pageIter : LopdfDocument → List ObjectId
  pruneObjects : LopdfDocument → LopdfDocument
  renumberObjects : LopdfDocument → LopdfDocument

/-- Following references stops at once where there is none, and never stops at one. -/
class LawfulDereference [Lopdf] : Prop where
  dereference_self : ∀ {objects : Objects} {id : ObjectId} {object : Object},
    objects.lookup id = some object → object.isReference = false →
      Lopdf.dereference objects id = some id
  dereference_lands : ∀ {objects : Objects} {id target : ObjectId},
    Lopdf.dereference objects id = some target →
      ∃ object, objects.lookup target = some object ∧ object.isReference = false

section Lookup

variable [Lopdf]

namespace Objects

/-- The object an identifier ends up naming. -/
def getObject (objects : Objects) (id : ObjectId) : Except Error Object :=
  match (Lopdf.dereference objects id).bind objects.lookup with
  | some object => .ok object
  | none => .error (.malformed (Lopdf.failure objects id))

def getDictionary (objects : Objects) (id : ObjectId) : Except Error Dictionary :=
  match getObject objects id with
  | .error e => .error e
  | .ok object =>
    match object.asDict with
    | some d => .ok d
    | none => .error (.malformed (Lopdf.failure objects id))

/-- Edit in place the dictionary an identifier ends up naming. -/
def modifyDictionary (objects : Objects) (id : ObjectId) (f : Dictionary → Dictionary) :
    Except Error Objects :=
  match Lopdf.dereference objects id with
  | none => .error (.malformed (Lopdf.failure objects id))
  | some target =>
    match (objects.lookup target).bind Object.asDict with
    | some d => .ok (objects.insert target (.dictionary (f d)))
    | none => .error (.malformed (Lopdf.failure objects id))

variable [LawfulDereference]

theorem getDictionary_of_lookup {objects : Objects} {id : ObjectId} {d : Dictionary}
    (h : objects.lookup id = some (.dictionary d)) : getDictionary objects id = .ok d := by
  simp [getDictionary, getObject, LawfulDereference.dereference_self h rfl, h, Object.asDict]

/-- A dictionary that is there is edited in its place. -/
theorem modifyDictionary_of_lookup {objects : Objects} {id : ObjectId} {d : Dictionary}
    (h : objects.lookup id = some (.dictionary d)) (f : Dictionary → Dictionary) :
    modifyDictionary objects id f = .ok (objects.insert id (.dictionary (f d))) := by
  simp [modifyDictionary, LawfulDereference.dereference_self h rfl, h, Object.asDict]

end Objects
end Lookup

namespace LopdfDocument

def newObjectId (d : LopdfDocument) : ObjectId × LopdfDocument :=
  ((d.maxId + 1, 0), { d with maxId := d.maxId + 1 })

def setObject (id : ObjectId) (object : Object) (d : LopdfDocument) : LopdfDocument :=
  { d with objects := d.objects.insert id object }

def addObject (object : Object) (d : LopdfDocument) : ObjectId × LopdfDocument :=
  let (id, d') := d.newObjectId
  (id, d'.setObject id object)

def catalog [Lopdf] (d : LopdfDocument) : Except Error Dictionary :=
  match (Dictionary.get d.trailer "Root").bind Object.asReference with
  | some id => Objects.getDictionary d.objects id
  | none => .error (.malformed "the trailer names no catalog")

end LopdfDocument

/-- A parsed revision and the revision being appended to it. -/
structure IncrementalDocument where
  previous : LopdfDocument
  newDocument : LopdfDocument

namespace IncrementalDocument

/-- Continue a parsed file: nothing appended yet, numbering where the file left off. -/
def load (file : LopdfDocument) : IncrementalDocument where
  previous := file
  newDocument :=
    { version := "1.4"
      objects := ∅
      trailer := file.trailer
      maxId := file.maxId }

/-- An appended object shadows the previous revision's object of the same identifier. -/
def view (d : IncrementalDocument) : Objects := d.newDocument.objects ∪ d.previous.objects

/-- The file an incremental save writes, as it parses again. -/
def written (d : IncrementalDocument) : LopdfDocument :=
  { d.newDocument with objects := d.view }

/-- Appended objects come before those of the previous revision. -/
theorem lookup_view (d : IncrementalDocument) (id : ObjectId) :
    d.view.lookup id = (d.newDocument.objects.lookup id).or (d.previous.objects.lookup id) := by
  unfold view
  by_cases h : id ∈ d.newDocument.objects
  · obtain ⟨object, hobject⟩ := Finmap.mem_iff.1 h
    rw [Finmap.lookup_union_left h, hobject]
    rfl
  · rw [Finmap.lookup_union_right h, Finmap.lookup_eq_none.2 h]
    rfl

variable [Lopdf]

def optCloneObjectToNewDocument (id : ObjectId) (d : IncrementalDocument) :
    Except Error IncrementalDocument :=
  if id ∈ d.newDocument.objects then .ok d
  else
    match Objects.getObject d.previous.objects id with
    | .error e => .error e
    | .ok object => .ok { d with newDocument := d.newDocument.setObject id object }

end IncrementalDocument
end OpdfEditor
