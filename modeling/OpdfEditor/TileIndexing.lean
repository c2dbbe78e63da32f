import OpdfEditor.Render

/-!
Tiles on a target. Dimensions are 32-bit and lengths and offsets are words of the target,
so a product may leave the word; code that does not check for that, and an index past the
end of a buffer, are faults.
-/
namespace OpdfEditor

/-- The word sizes a build can have. -/
inductive Target where
  | bits32 | bits64
  deriving DecidableEq

def Target.wordSize : Target → Nat
  | bits32 => 32
  | bits64 => 64

/-- What code runs into that checks neither its arithmetic nor its indices. -/
inductive Fault where
  | overflow | outOfRange
  deriving DecidableEq

/-- A `usize` of the target. -/
structure Word (t : Target) where
  bits : BitVec t.wordSize
  deriving DecidableEq

namespace Word

variable {t : Target}

def toNat (a : Word t) : Nat := a.bits.toNat

def ofU32 (x : UInt32) : Word t := ⟨x.toBitVec.setWidth t.wordSize⟩

def ofNat (n : Nat) : Word t := ⟨BitVec.ofNat t.wordSize n⟩

def checkedMul (a b : Word t) : Option (Word t) :=
  if a.toNat * b.toNat < 2 ^ t.wordSize then some ⟨a.bits * b.bits⟩ else none

/-- Multiplication whose overflow nothing checks. -/
def mul (a b : Word t) : Except Fault (Word t) :=
  match a.checkedMul b with
  | some product => .ok product
  | none => .error .overflow

def add (a b : Word t) : Except Fault (Word t) :=
  if a.toNat + b.toNat < 2 ^ t.wordSize then .ok ⟨a.bits + b.bits⟩ else .error .overflow

theorem ext_toNat {a b : Word t} (h : a.toNat = b.toNat) : a = b := by
  cases a
  cases b
  exact congrArg mk (BitVec.eq_of_toNat_eq h)

/-- A 32-bit value fits every word. -/
@[simp] theorem toNat_ofU32 (x : UInt32) : (ofU32 x : Word t).toNat = x.toNat := by
  have hword : 2 ^ 32 ≤ 2 ^ t.wordSize := by cases t <;> decide
  have hfits : x.toNat < 2 ^ t.wordSize := x.toNat_lt.trans_le hword
  simp only [ofU32, toNat, BitVec.toNat_setWidth]
  exact Nat.mod_eq_of_lt hfits

theorem toNat_ofNat {n : Nat} (h : n < 2 ^ t.wordSize) : (ofNat n : Word t).toNat = n := by
  simp only [ofNat, toNat, BitVec.toNat_ofNat]
  exact Nat.mod_eq_of_lt h

@[simp] theorem toNat_four : (ofNat 4 : Word t).toNat = 4 := by cases t <;> rfl

/-- A product is checked by its exact value. -/
theorem checkedMul_eq_some {a b c : Word t} :
    a.checkedMul b = some c ↔ a.toNat * b.toNat < 2 ^ t.wordSize ∧ c.toNat = a.toNat * b.toNat := by
  unfold checkedMul
  split
  · rename_i hfits
    have hexact : (⟨a.bits * b.bits⟩ : Word t).toNat = a.toNat * b.toNat := by
      simp only [toNat, BitVec.toNat_mul]
      exact Nat.mod_eq_of_lt hfits
    constructor
    · rintro ⟨⟩
      exact ⟨hfits, hexact⟩
    · rintro ⟨-, hc⟩
      exact congrArg some (ext_toNat (hexact.trans hc.symm))
  · rename_i hover
    simp [hover]

theorem checkedMul_eq_none {a b : Word t} :
    a.checkedMul b = none ↔ 2 ^ t.wordSize ≤ a.toNat * b.toNat := by
  unfold checkedMul
  split <;> simp <;> omega

theorem mul_fits {a b : Word t} (h : a.toNat * b.toNat < 2 ^ t.wordSize) :
    ∃ c, a.mul b = .ok c ∧ c.toNat = a.toNat * b.toNat := by
  have hfits : (ofNat (a.toNat * b.toNat) : Word t).toNat = a.toNat * b.toNat := toNat_ofNat h
  refine ⟨ofNat (a.toNat * b.toNat), ?_, hfits⟩
  simp only [mul, checkedMul_eq_some.2 ⟨h, hfits⟩]

theorem add_fits {a b : Word t} (h : a.toNat + b.toNat < 2 ^ t.wordSize) :
    ∃ c, a.add b = .ok c ∧ c.toNat = a.toNat + b.toNat := by
  refine ⟨⟨a.bits + b.bits⟩, if_pos h, ?_⟩
  simp only [toNat, BitVec.toNat_add]
  exact Nat.mod_eq_of_lt h

end Word

/-- One pixel. -/
structure Rgba where
  red : UInt8
  green : UInt8
  blue : UInt8
  alpha : UInt8
  deriving DecidableEq

/-- A `Vec<u8>`: its length is a word. -/
structure Buffer (t : Target) where
  bytes : List UInt8
  addressable : bytes.length < 2 ^ t.wordSize

namespace Buffer

variable {t : Target}

def len (buffer : Buffer t) : Word t := .ofNat buffer.bytes.length

@[simp] theorem toNat_len (buffer : Buffer t) : buffer.len.toNat = buffer.bytes.length :=
  Word.toNat_ofNat buffer.addressable

def index (offset : Word t) (buffer : Buffer t) : Except Fault UInt8 :=
  match buffer.bytes[offset.toNat]? with
  | some byte => .ok byte
  | none => .error .outOfRange

/-- The four bytes from an offset on, each read unchecked. -/
def rgbaAt (offset : Word t) (buffer : Buffer t) : Except Fault Rgba := do
  let red ← buffer.index offset
  let green ← buffer.index (← offset.add (.ofNat 1))
  let blue ← buffer.index (← offset.add (.ofNat 2))
  let alpha ← buffer.index (← offset.add (.ofNat 3))
  return ⟨red, green, blue, alpha⟩

theorem index_fits (offset : Word t) (buffer : Buffer t) (h : offset.toNat < buffer.bytes.length) :
    buffer.index offset = .ok buffer.bytes[offset.toNat] := by
  simp only [index, List.getElem?_eq_getElem h]

/-- An offset a little further on, and the byte there. -/
theorem index_add_fits (offset : Word t) (buffer : Buffer t) {n : Nat} (hn : n < 4)
    (h : offset.toNat + n < buffer.bytes.length) :
    ∃ next, offset.add (.ofNat n) = .ok next ∧
      buffer.index next = .ok buffer.bytes[offset.toNat + n] := by
  have hword : (Word.ofNat n : Word t).toNat = n :=
    Word.toNat_ofNat (hn.trans (by cases t <;> decide))
  have hbound := buffer.addressable
  obtain ⟨next, hnext, hsum⟩ := Word.add_fits (a := offset) (b := .ofNat n) (by omega)
  rw [hword] at hsum
  refine ⟨next, hnext, ?_⟩
  have hfits := index_fits next buffer (by omega)
  simpa only [hsum] using hfits

/-- Where four bytes are left they are read, in their order. -/
theorem rgbaAt_fits (offset : Word t) (buffer : Buffer t)
    (h : offset.toNat + 4 ≤ buffer.bytes.length) :
    ∃ rgba, buffer.rgbaAt offset = .ok rgba ∧
      (buffer.bytes.drop offset.toNat).take 4 = [rgba.red, rgba.green, rgba.blue, rgba.alpha] := by
  have hred := index_fits offset buffer (by omega)
  obtain ⟨first, hfirst, hgreen⟩ := index_add_fits offset buffer (n := 1) (by omega) (by omega)
  obtain ⟨second, hsecond, hblue⟩ := index_add_fits offset buffer (n := 2) (by omega) (by omega)
  obtain ⟨third, hthird, halpha⟩ := index_add_fits offset buffer (n := 3) (by omega) (by omega)
  refine ⟨⟨buffer.bytes[offset.toNat], buffer.bytes[offset.toNat + 1], buffer.bytes[offset.toNat + 2],
    buffer.bytes[offset.toNat + 3]⟩, ?_, ?_⟩
  · simp only [rgbaAt, bind, Except.bind, hred, hfirst, hgreen, hsecond, hblue, hthird, halpha]
    rfl
  · rw [List.drop_eq_getElem_cons (by omega), List.drop_eq_getElem_cons (by omega),
      List.drop_eq_getElem_cons (by omega), List.drop_eq_getElem_cons (by omega)]
    rfl

end Buffer

structure TargetTile (t : Target) where
  width : UInt32
  height : UInt32
  pixels : Buffer t

namespace TargetTile

variable {t : Target}

def new (width height : UInt32) (pixels : Buffer t) : Except Error (TargetTile t) :=
  if width = 0 ∨ height = 0 then
    .error (.render s!"tile dimensions {width}x{height} must both be non-zero")
  else
    match ((Word.ofU32 width : Word t).checkedMul (.ofU32 height)).bind (·.checkedMul (.ofNat 4)) with
    | none =>
      .error (.render s!"tile dimensions {width}x{height} overflow the addressable buffer length")
    | some expected =>
      if pixels.len ≠ expected then
        .error (.render s!"tile buffer has {pixels.len.toNat} bytes, expected {expected.toNat}")
      else .ok ⟨width, height, pixels⟩

/-- One pixel. The arithmetic and the four reads are unchecked. -/
def pixel (xPx yPx : UInt32) (tile : TargetTile t) : Except Fault (Except Error Rgba) :=
  if xPx ≥ tile.width ∨ yPx ≥ tile.height then
    .ok (.error (.render s!"pixel ({xPx}, {yPx}) is outside a {tile.width}x{tile.height} tile"))
  else do
    let row ← (Word.ofU32 yPx).mul (.ofU32 tile.width)
    let position ← row.add (.ofU32 xPx)
    let offset ← position.mul (.ofNat 4)
    let rgba ← tile.pixels.rgbaAt offset
    return .ok rgba

/-- What the constructor checks: both products stay within the word, and the second is the length
of the buffer. -/
theorem new_eq_ok {width height : UInt32} {pixels : Buffer t} {tile : TargetTile t}
    (h : new width height pixels = .ok tile) :
    tile = ⟨width, height, pixels⟩ ∧ ∃ pixelCount : Word t,
      (Word.ofU32 width).checkedMul (.ofU32 height) = some pixelCount ∧
      pixelCount.checkedMul (.ofNat 4) = some pixels.len := by
  unfold new at h
  split at h
  · cases h
  split at h
  · cases h
  rename_i expected hexpected
  split at h
  · cases h
  rename_i hlen
  cases h
  obtain ⟨pixelCount, hcount, hfour⟩ := Option.bind_eq_some_iff.1 hexpected
  exact ⟨rfl, pixelCount, hcount, hfour.trans (congrArg some (not_not.1 hlen).symm)⟩

theorem length_of_new {width height : UInt32} {pixels : Buffer t} {tile : TargetTile t}
    (h : new width height pixels = .ok tile) :
    pixels.bytes.length = width.toNat * height.toNat * 4 := by
  obtain ⟨-, pixelCount, hcount, hfour⟩ := new_eq_ok h
  have hcount := (Word.checkedMul_eq_some.1 hcount).2
  have hfour := (Word.checkedMul_eq_some.1 hfour).2
  rw [Buffer.toNat_len, Word.toNat_four, hcount, Word.toNat_ofU32, Word.toNat_ofU32] at hfour
  exact hfour

/-- A pixel inside starts, counted in pixels, before their number. -/
theorem position_lt {x y width height : Nat} (hx : x < width) (hy : y < height) :
    y * width + x + 1 ≤ width * height := by
  calc y * width + x + 1 ≤ y * width + width := by omega
    _ = (y + 1) * width := (Nat.succ_mul y width).symm
    _ ≤ height * width := Nat.mul_le_mul_right width hy
    _ = width * height := Nat.mul_comm height width

/-- Inside a tile the offset and all four reads are within the buffer. -/
theorem pixel_inside {tile : TargetTile t} {xPx yPx : UInt32}
    (hfilled : tile.pixels.bytes.length = tile.width.toNat * tile.height.toNat * 4)
    (hx : xPx < tile.width) (hy : yPx < tile.height) :
    ∃ rgba : Rgba, tile.pixel xPx yPx = .ok (.ok rgba) ∧
      (tile.pixels.bytes.drop ((yPx.toNat * tile.width.toNat + xPx.toNat) * 4)).take 4 =
        [rgba.red, rgba.green, rgba.blue, rgba.alpha] := by
  have hposition := position_lt (UInt32.lt_iff_toNat_lt.1 hx) (UInt32.lt_iff_toNat_lt.1 hy)
  have hbound := tile.pixels.addressable
  rw [hfilled] at hbound
  obtain ⟨row, hrow, hrowNat⟩ := Word.mul_fits (t := t) (a := .ofU32 yPx) (b := .ofU32 tile.width)
    (by rw [Word.toNat_ofU32, Word.toNat_ofU32]; omega)
  rw [Word.toNat_ofU32, Word.toNat_ofU32] at hrowNat
  obtain ⟨position, hadd, haddNat⟩ := Word.add_fits (a := row) (b := .ofU32 xPx)
    (by rw [Word.toNat_ofU32]; omega)
  rw [Word.toNat_ofU32, hrowNat] at haddNat
  obtain ⟨offset, hoffset, hoffsetNat⟩ := Word.mul_fits (a := position) (b := .ofNat 4)
    (by rw [Word.toNat_four]; omega)
  rw [Word.toNat_four, haddNat] at hoffsetNat
  obtain ⟨rgba, hread, hbytes⟩ := Buffer.rgbaAt_fits offset tile.pixels (by omega)
  refine ⟨rgba, ?_, hoffsetNat ▸ hbytes⟩
  have hin : ¬ (xPx ≥ tile.width ∨ yPx ≥ tile.height) := by
    rintro (hout | hout)
    · exact absurd hx (UInt32.not_lt.2 hout)
    · exact absurd hy (UInt32.not_lt.2 hout)
  simp only [pixel, if_neg hin, bind, Except.bind, hrow, hadd, hoffset, hread]
  rfl

/-- On both word sizes, for every buffer the constructor accepts: the product it computed is exact
and the length of the buffer, and a pixel is refused exactly where a coordinate is outside and is
otherwise the four bytes at its row-major offset, without overflow or an index past the end. -/
theorem tile_indexing_in_bounds {width height : UInt32} {pixels : Buffer t} {tile : TargetTile t}
    (h : new width height pixels = .ok tile) :
    (∃ pixelCount : Word t, (Word.ofU32 width).checkedMul (.ofU32 height) = some pixelCount ∧
      pixelCount.checkedMul (.ofNat 4) = some pixels.len) ∧
    width.toNat * height.toNat * 4 < 2 ^ t.wordSize ∧
    pixels.bytes.length = width.toNat * height.toNat * 4 ∧
    ∀ xPx yPx : UInt32,
      (width ≤ xPx ∨ height ≤ yPx →
        tile.pixel xPx yPx =
          .ok (.error (.render s!"pixel ({xPx}, {yPx}) is outside a {width}x{height} tile"))) ∧
      (xPx < width ∧ yPx < height →
        ∃ rgba : Rgba, tile.pixel xPx yPx = .ok (.ok rgba) ∧
          (pixels.bytes.drop ((yPx.toNat * width.toNat + xPx.toNat) * 4)).take 4 =
            [rgba.red, rgba.green, rgba.blue, rgba.alpha]) := by
  have hlength := length_of_new h
  obtain ⟨rfl, hproduct⟩ := new_eq_ok h
  refine ⟨hproduct, hlength ▸ pixels.addressable, hlength, fun xPx yPx => ⟨fun hout => ?_, fun hin => ?_⟩⟩
  · exact if_pos hout
  · exact pixel_inside hlength hin.1 hin.2

/-- A tile of one row and two columns, on a target of 32-bit words. -/
theorem second_pixel_in_bounds :
    ∃ tile : TargetTile .bits32,
      new 2 1 ⟨[1, 2, 3, 4, 5, 6, 7, 8], by decide⟩ = .ok tile ∧
      ∃ rgba : Rgba, tile.pixel 1 0 = .ok (.ok rgba) ∧
        [5, 6, 7, 8] = [rgba.red, rgba.green, rgba.blue, rgba.alpha] :=
  ⟨_, rfl, ((@tile_indexing_in_bounds .bits32 2 1 ⟨[1, 2, 3, 4, 5, 6, 7, 8], by decide⟩ _
    rfl).2.2.2 1 0).2 (by decide)⟩

/-! ### The target the application runs on -/

/-- Two checked products fit a word of 64 bits exactly where the whole product does. -/
theorem checkedProduct_bits64 (width height : UInt32) :
    (width.toNat * height.toNat * 4 < addressLimit →
      ∃ expected : Word .bits64,
        ((Word.ofU32 width).checkedMul (.ofU32 height)).bind (·.checkedMul (.ofNat 4)) = some expected ∧
        expected.toNat = width.toNat * height.toNat * 4) ∧
    (¬ width.toNat * height.toNat * 4 < addressLimit →
      ((Word.ofU32 width : Word .bits64).checkedMul (.ofU32 height)).bind
        (·.checkedMul (.ofNat 4)) = none) := by
  have hcount : width.toNat * height.toNat < 2 ^ Target.bits64.wordSize :=
    calc width.toNat * height.toNat < 2 ^ 32 * 2 ^ 32 :=
          Nat.mul_lt_mul_of_lt_of_lt width.toNat_lt height.toNat_lt
      _ = 2 ^ Target.bits64.wordSize := by decide
  have hcountNat : (Word.ofNat (width.toNat * height.toNat) : Word .bits64).toNat =
      width.toNat * height.toNat := Word.toNat_ofNat hcount
  have hfirst : (Word.ofU32 width : Word .bits64).checkedMul (.ofU32 height) =
      some (.ofNat (width.toNat * height.toNat)) :=
    Word.checkedMul_eq_some.2 (by rw [Word.toNat_ofU32, Word.toNat_ofU32]; exact ⟨hcount, hcountNat⟩)
  rw [hfirst, Option.bind_some]
  constructor
  · intro hfits
    have hexact : (Word.ofNat (width.toNat * height.toNat * 4) : Word .bits64).toNat =
        width.toNat * height.toNat * 4 := Word.toNat_ofNat hfits
    refine ⟨.ofNat (width.toNat * height.toNat * 4), Word.checkedMul_eq_some.2 ?_, hexact⟩
    rw [hcountNat, Word.toNat_four]
    exact ⟨hfits, hexact⟩
  · intro hover
    rw [Word.checkedMul_eq_none, hcountNat, Word.toNat_four]
    exact Nat.not_lt.1 hover

/-- On 64-bit words the constructor is the one over natural numbers. -/
theorem new_bits64 (width height : UInt32) (pixels : Buffer .bits64) :
    (new width height pixels).map (fun tile => (tile.width.toNat, tile.height.toNat, tile.pixels.bytes)) =
      (Tile.new width.toNat height.toNat pixels.bytes).map
        fun tile => (tile.width, tile.height, tile.pixels) := by
  have hzero : (width = 0 ∨ height = 0) ↔ ¬ (0 < width.toNat ∧ 0 < height.toNat) := by
    rw [← UInt32.toNat_inj, ← UInt32.toNat_inj, UInt32.toNat_zero]
    omega
  have hproduct := checkedProduct_bits64 width height
  have hlength := pixels.toNat_len
  unfold new Tile.new
  by_cases hsome : 0 < width.toNat ∧ 0 < height.toNat
  · rw [if_neg (fun hnone => hzero.1 hnone hsome), dif_pos hsome]
    by_cases hfits : width.toNat * height.toNat * 4 < addressLimit
    · obtain ⟨expected, hexpected, hexact⟩ := hproduct.1 hfits
      rw [hexpected, if_pos hfits]
      by_cases hfilled : pixels.bytes.length = width.toNat * height.toNat * 4
      · have hlen : pixels.len = expected := Word.ext_toNat (hlength.trans (hfilled.trans hexact.symm))
        rw [dif_pos hfilled]
        simp only [hlen, ne_eq, not_true_eq_false, if_false]
        rfl
      · have hlen : pixels.len ≠ expected :=
          fun heq => hfilled (hlength.symm.trans ((congrArg Word.toNat heq).trans hexact))
        rw [dif_neg hfilled]
        simp only [hlen, ne_eq, not_false_eq_true, if_true, hlength, hexact]
        rfl
    · rw [hproduct.2 hfits, if_neg hfits]
      rfl
  · rw [if_pos (hzero.2 hsome), dif_neg hsome]
    rfl

end TargetTile
end OpdfEditor
