import Isambard.Lib.Writes
import Mathlib.Data.List.Basic
import Mathlib.Data.Nat.Bitwise

/-!
# Driver.Display — the digits on the screen

`show_nibble` twice: of `drivers/show_page.c`, which walks one word from the lowest bit up
and moves a pointer with it, and of `include/raw/trivial_display.h`, with a loop for the
rows and one for the columns. Both draw an 8x8 cell from a table of bitmaps.

* `TrivialDisplay.showNibble_writes`, `ShowPage.showLoop_writes`: each writes the 64 pixels
  of the cell once, in an order of its own;
* `showNibble_eq`: the frame buffers they leave are the same.
-/

namespace Isambard.Driver

open Isambard.Lib

/-! ## The two functions -/

def vwidth : UInt32 := 1920

def vheight : UInt32 := 1080

/-- `Black`. -/
def black : UInt32 := 0xff000000

/-- The words around `mapped_address`, by their distance from it. -/
abbrev Pixels := ℤ → UInt32

/-- `bitmaps[nibble][dy]`. -/
abbrev Bitmaps := ℕ → ℕ → UInt8

namespace TrivialDisplay

def setPixel (x y colour : UInt32) (fb : Pixels) : Pixels :=
  Function.update fb ((x + y * vwidth).toNat : ℤ) colour

/-- The body of the inner loop. -/
def showPixel (bitmaps : Bitmaps) (x y nibble colour : UInt32) (fb : Pixels) (dx dy : ℕ) :
    Pixels :=
  if 0 ≠ (bitmaps nibble.toNat dy).toNat &&& (0x80 >>> dx) then
    setPixel (x + .ofNat dx) (y + .ofNat dy) colour fb
  else setPixel (x + .ofNat dx) (y + .ofNat dy) black fb

def showNibble (bitmaps : Bitmaps) (x y nibble colour : UInt32) (fb : Pixels) : Pixels :=
  (List.range 8).foldl (fun fb dy =>
    (List.range 8).foldl (fun fb dx => showPixel bitmaps x y nibble colour fb dx dy) fb) fb

end TrivialDisplay

namespace ShowPage

/-- `((uint64_t*) &bitmaps[0][0])[row]`: the eight bytes of a row, the first one lowest. -/
def bitmapWord (bitmaps : Bitmaps) (row : ℕ) : UInt64 :=
  .ofNat (Nat.ofDigits 256 ((List.range 8).map fun dy => (bitmaps row dy).toNat))

/-- `line_offset`. -/
def lineOffset : UInt32 := vwidth + 8

/-- The locals of the loop and what it writes to. -/
structure Pen where
  fb : Pixels
  p : ℤ
  bit : UInt64

/-- The body of the loop. -/
def Pen.step (bitmap : UInt64) (colour : UInt32) (s : Pen) : Pen :=
  let fb := Function.update s.fb s.p (if s.bit &&& bitmap ≠ 0 then colour else black)
  -- `*p--`; the shift gives 0 when all pixels are displayed
  let p := s.p - 1
  let bit := s.bit <<< 1
  { fb, bit, p := if bit &&& 0x0101010101010101 ≠ 0 then p + lineOffset.toNat else p }

/-- `while (bit != 0)`. -/
def showLoop (bitmap : UInt64) (colour : UInt32) : ℕ → Pen → Option Pixels
  | 0, _ => none
  | fuel + 1, s => if s.bit ≠ 0 then showLoop bitmap colour fuel (s.step bitmap colour)
    else some s.fb

def showNibble (fuel : ℕ) (bitmaps : Bitmaps) (x y nibble colour : UInt32) (fb : Pixels) :
    Option Pixels :=
  showLoop (bitmapWord bitmaps (nibble &&& 0xf).toNat) colour fuel
    { fb, p := ((x + 7) + y * vwidth).toNat, bit := 1 }

end ShowPage

/-! ## The cell -/

/-- The pixel of a column and a row. -/
def pixel (x y : ℕ) : ℤ := x + y * 1920

/-- What is drawn at column `c.1` and row `c.2` of a cell. -/
def cellColour (rows : ℕ → UInt8) (colour : UInt32) (c : ℕ × ℕ) : UInt32 :=
  if (rows c.2).toNat.testBit (7 - c.1) then colour else black

/-- The cell by rows, from the left. -/
def byRows : List (ℕ × ℕ) :=
  (List.range 8).flatMap fun dy => (List.range 8).map fun dx => (dx, dy)

/-- Where the walk is after `k` pixels. -/
def walkAt (k : ℕ) : ℕ × ℕ := (7 - k % 8, k / 8)

theorem mem_byRows {c : ℕ × ℕ} : c ∈ byRows ↔ c.1 < 8 ∧ c.2 < 8 := by
  rcases c with ⟨dx, dy⟩
  simp [byRows, and_comm]

/-- The walk goes through the cell from the right in each row. -/
theorem walk_perm : ((List.range 64).map walkAt).Perm byRows := by
  decide +kernel

theorem pixel_inj {x y : ℕ} {c d : ℕ × ℕ} (hc : c ∈ byRows) (hd : d ∈ byRows)
    (h : pixel (x + c.1) (y + c.2) = pixel (x + d.1) (y + d.2)) : c = d := by
  have hc := mem_byRows.1 hc
  have hd := mem_byRows.1 hd
  unfold pixel at h
  apply Prod.ext <;> omega

section Cell

variable {bitmaps : Bitmaps} {x y nibble colour : UInt32}

/-! ## By rows and columns -/

/-- Inside the frame buffer the index of a pixel does not wrap. -/
theorem TrivialDisplay.setPixel_eq {dx dy : ℕ} (hx : x.toNat + 8 ≤ vwidth.toNat)
    (hy : y.toNat + 8 ≤ vheight.toNat) (hdx : dx < 8) (hdy : dy < 8) (v : UInt32) (fb : Pixels) :
    setPixel (x + .ofNat dx) (y + .ofNat dy) v fb =
      Function.update fb (pixel (x.toNat + dx) (y.toNat + dy)) v := by
  have hw : vwidth.toNat = 1920 := rfl
  have hh : vheight.toNat = 1080 := rfl
  -- no sum or product reaches 2^32
  have hcolumn : (x + .ofNat dx).toNat = x.toNat + dx := by
    rw [UInt32.toNat_add, UInt32.toNat_ofNat']
    omega
  have hrow : (y + .ofNat dy).toNat = y.toNat + dy := by
    rw [UInt32.toNat_add, UInt32.toNat_ofNat']
    omega
  have hline : ((y + .ofNat dy) * vwidth).toNat = (y.toNat + dy) * 1920 := by
    rw [UInt32.toNat_mul, hrow, hw]
    omega
  have hindex : (x + .ofNat dx + (y + .ofNat dy) * vwidth).toNat =
      x.toNat + dx + (y.toNat + dy) * 1920 := by
    rw [UInt32.toNat_add, hcolumn, hline]
    omega
  rw [setPixel, hindex, pixel]
  norm_cast

/-- The mask of a column picks one bit of the row. -/
theorem and_column {dx : ℕ} (hdx : dx < 8) (row : ℕ) :
    0 ≠ row &&& (0x80 >>> dx) ↔ row.testBit (7 - dx) = true := by
  have hmask : 0x80 >>> dx = 2 ^ (7 - dx) := by
    rw [Nat.shiftRight_eq_div_pow, show 0x80 = 2 ^ 7 from rfl,
      Nat.pow_div (by omega) (by decide)]
  rw [hmask, Nat.and_two_pow, ne_comm]
  cases row.testBit (7 - dx) <;> simp

theorem TrivialDisplay.showNibble_writes (hx : x.toNat + 8 ≤ vwidth.toNat)
    (hy : y.toNat + 8 ≤ vheight.toNat) (fb : Pixels) :
    showNibble bitmaps x y nibble colour fb =
      writes (fun c : ℕ × ℕ => pixel (x.toNat + c.1) (y.toNat + c.2))
        (cellColour (bitmaps nibble.toNat) colour) byRows fb := by
  have hpixel : ∀ dy < 8, ∀ dx < 8, ∀ fb, showPixel bitmaps x y nibble colour fb dx dy =
      Function.update fb (pixel (x.toNat + dx) (y.toNat + dy))
        (cellColour (bitmaps nibble.toNat) colour (dx, dy)) := by
    intro dy hdy dx hdx fb
    rw [showPixel, setPixel_eq hx hy hdx hdy, setPixel_eq hx hy hdx hdy, cellColour]
    simp only [and_column hdx]
    split_ifs <;> rfl
  -- row by row, and in a row column by column
  rw [writes, byRows, List.foldl_flatMap, showNibble]
  apply List.foldl_ext
  intro fb dy hdy
  rw [List.foldl_map]
  apply List.foldl_ext
  intro fb dx hdx
  exact hpixel dy (List.mem_range.1 hdy) dx (List.mem_range.1 hdx) fb

/-! ## Along the word -/

/-- Bit `k` of the word is the one that is drawn after `k` others. -/
theorem ShowPage.bitmapWord_testBit {row k : ℕ} (hk : k < 64) :
    (bitmapWord bitmaps row).toNat.testBit k =
      (bitmaps row (walkAt k).2).toNat.testBit (7 - (walkAt k).1) := by
  have hbytes : ∀ d ∈ (List.range 8).map fun dy => (bitmaps row dy).toNat, d < 256 := by
    intro d hd
    rcases List.mem_map.1 hd with ⟨dy, _, rfl⟩
    exact UInt8.toNat_lt _
  have hsize := Nat.ofDigits_lt_base_pow_length (by decide) hbytes
  rw [List.length_map, List.length_range] at hsize
  have hword : (bitmapWord bitmaps row).toNat =
      Nat.ofDigits 256 ((List.range 8).map fun dy => (bitmaps row dy).toNat) := by
    rw [bitmapWord, UInt64.toNat_ofNat']
    exact Nat.mod_eq_of_lt hsize
  have hbyte : ((List.range 8).map fun dy => (bitmaps row dy).toNat).getD (k / 8) 0 =
      (bitmaps row (k / 8)).toNat := by
    have hrow : k / 8 < 8 := by omega
    simp [hrow]
  have hbit := testBit_ofDigits _ hbytes (k / 8) (Nat.mod_lt k (by decide : 0 < 8))
  have hcolumn : 7 - (7 - k % 8) = k % 8 := by omega
  rw [Nat.div_add_mod, hbyte] at hbit
  rw [hword, hbit, walkAt, hcolumn]

/-- The one bit that is set at step `k`; there is none at step 64. -/
def stepBit (k : ℕ) : UInt64 := .ofNat (2 ^ k)

theorem stepBit_shift (k : ℕ) : stepBit k <<< 1 = stepBit (k + 1) := by
  apply UInt64.toNat_inj.1
  rw [UInt64.toNat_shiftLeft, stepBit, stepBit, UInt64.toNat_ofNat', UInt64.toNat_ofNat',
    pow_succ]
  simp [Nat.shiftLeft_eq, pow_succ]

theorem stepBit_toNat {k : ℕ} (hk : k < 64) : (stepBit k).toNat = 2 ^ k := by
  rw [stepBit, UInt64.toNat_ofNat']
  exact Nat.mod_eq_of_lt (Nat.pow_lt_pow_right (by decide) hk)

/-- The bit of a step picks that bit of a word. -/
theorem stepBit_and {k : ℕ} (hk : k < 64) (w : UInt64) :
    stepBit k &&& w ≠ 0 ↔ w.toNat.testBit k = true := by
  have hand : (stepBit k &&& w).toNat = (w.toNat.testBit k).toNat * 2 ^ k := by
    rw [UInt64.toNat_and, stepBit_toNat hk, Nat.and_comm, Nat.and_two_pow]
  rw [ne_eq, ← UInt64.toNat_inj, hand]
  cases w.toNat.testBit k <;> simp

/-- Only the first bit of a byte is at the start of a row. -/
theorem stepBit_row {k : ℕ} (hk : k < 64) :
    stepBit k &&& 0x0101010101010101 ≠ 0 ↔ k % 8 = 0 := by
  have hrows : ∀ k < 64, Nat.testBit 0x0101010101010101 k = decide (k % 8 = 0) := by decide
  have hbit : (0x0101010101010101 : UInt64).toNat.testBit k = decide (k % 8 = 0) := hrows k hk
  rw [stepBit_and hk, hbit, decide_eq_true_iff]

/-- The pointer at step `k`. After the last pixel it is left of the bottom row. -/
def walkPointer (x y k : ℕ) : ℤ :=
  if k < 64 then pixel (x + (walkAt k).1) (y + (walkAt k).2) else pixel x (y + 7) - 1

/-- The pen after `k` pixels. -/
def penAt (x y : ℕ) (rows : ℕ → UInt8) (colour : UInt32) (fb : Pixels) (k : ℕ) :
    ShowPage.Pen where
  fb := writes (fun c : ℕ × ℕ => pixel (x + c.1) (y + c.2)) (cellColour rows colour)
    ((List.range k).map walkAt) fb
  p := walkPointer x y k
  bit := stepBit k

/-- The pointer goes left in a row, and from the left end to the right end of the next. -/
theorem walkPointer_succ {x y k : ℕ} (hk : k < 64) :
    walkPointer x y (k + 1) =
      if stepBit (k + 1) &&& 0x0101010101010101 ≠ 0 then
        walkPointer x y k - 1 + ShowPage.lineOffset.toNat else walkPointer x y k - 1 := by
  have hline : ShowPage.lineOffset.toNat = 1928 := rfl
  by_cases hlast : k = 63
  · -- the bit has left the word, so the pointer is not moved to another row
    subst hlast
    have hnone : stepBit (63 + 1) = 0 := rfl
    rw [hnone]
    simp [walkPointer, walkAt]
  · -- a bit that starts a byte starts a row
    have hnext : k + 1 < 64 := by omega
    rw [walkPointer, walkPointer, if_pos hk, if_pos hnext, hline]
    simp only [stepBit_row hnext, walkAt, pixel]
    split_ifs with hrow <;> omega

theorem ShowPage.Pen.step_penAt {k row : ℕ} (hk : k < 64) (x y : ℕ) (fb : Pixels) :
    (penAt x y (bitmaps row) colour fb k).step (bitmapWord bitmaps row) colour =
      penAt x y (bitmaps row) colour fb (k + 1) := by
  -- the pixel that is written, and where; the rest of the step is `walkPointer_succ`
  have hcolour : (if stepBit k &&& bitmapWord bitmaps row ≠ 0 then colour else black) =
      cellColour (bitmaps row) colour (walkAt k) := by
    rw [cellColour]
    simp only [stepBit_and hk, bitmapWord_testBit hk]
  have hplace : walkPointer x y k = pixel (x + (walkAt k).1) (y + (walkAt k).2) := if_pos hk
  have hlist : (List.range (k + 1)).map walkAt = (List.range k).map walkAt ++ [walkAt k] := by
    rw [List.range_succ, List.map_append, List.map_singleton]
  show Pen.mk (Function.update (penAt x y (bitmaps row) colour fb k).fb (walkPointer x y k)
      (if stepBit k &&& bitmapWord bitmaps row ≠ 0 then colour else black))
    (if stepBit k <<< 1 &&& 0x0101010101010101 ≠ 0 then
      walkPointer x y k - 1 + lineOffset.toNat else walkPointer x y k - 1)
    (stepBit k <<< 1) = _
  rw [hcolour, stepBit_shift, ← walkPointer_succ hk, hplace, penAt, penAt, hlist, writes_append]
  rfl

/-- From step `k` on, `64 - k` turns of the loop are left and then the test that ends it. -/
theorem ShowPage.showLoop_writes {row n : ℕ} (x y : ℕ) (fb : Pixels) (k : ℕ) (hk : k + n = 64)
    {fuel : ℕ} (hfuel : n < fuel) :
    showLoop (bitmapWord bitmaps row) colour fuel (penAt x y (bitmaps row) colour fb k) =
      some (penAt x y (bitmaps row) colour fb 64).fb := by
  induction n generalizing k fuel with
  | zero =>
    cases fuel with
    | zero => exact absurd hfuel (Nat.lt_irrefl 0)
    | succ fuel =>
      have hend : k = 64 := hk
      subst hend
      rfl
  | succ n ih =>
    cases fuel with
    | zero => exact absurd hfuel (Nat.not_lt_zero _)
    | succ fuel =>
      have hlt : k < 64 := by omega
      -- a bit is still in the word, so the loop goes on
      have hbit : (penAt x y (bitmaps row) colour fb k).bit ≠ 0 := by
        intro hzero
        have hnat : (stepBit k).toNat = 0 := congrArg UInt64.toNat hzero
        rw [stepBit_toNat hlt] at hnat
        exact absurd hnat (Nat.two_pow_pos k).ne'
      rw [showLoop, if_pos hbit, Pen.step_penAt hlt]
      exact ih (k + 1) (by omega) (Nat.lt_of_succ_lt_succ hfuel)

/-- The first pixel is the right one of the top row. -/
theorem ShowPage.start_eq (hx : x.toNat + 8 ≤ vwidth.toNat) (hy : y.toNat + 8 ≤ vheight.toNat) :
    (((x + 7) + y * vwidth).toNat : ℤ) = walkPointer x.toNat y.toNat 0 := by
  have hw : vwidth.toNat = 1920 := rfl
  have hh : vheight.toNat = 1080 := rfl
  have hcolumn : (x + 7).toNat = x.toNat + 7 := by
    rw [UInt32.toNat_add, show (7 : UInt32).toNat = 7 from rfl]
    omega
  have hline : (y * vwidth).toNat = y.toNat * 1920 := by
    rw [UInt32.toNat_mul, hw]
    omega
  have hindex : ((x + 7) + y * vwidth).toNat = x.toNat + 7 + y.toNat * 1920 := by
    rw [UInt32.toNat_add, hcolumn, hline]
    omega
  rw [hindex]
  simp [walkPointer, walkAt, pixel]

theorem ShowPage.showNibble_writes (hx : x.toNat + 8 ≤ vwidth.toNat)
    (hy : y.toNat + 8 ≤ vheight.toNat) (hn : nibble.toNat < 16) {fuel : ℕ} (hfuel : 64 < fuel)
    (fb : Pixels) :
    showNibble fuel bitmaps x y nibble colour fb =
      some (writes (fun c : ℕ × ℕ => pixel (x.toNat + c.1) (y.toNat + c.2))
        (cellColour (bitmaps nibble.toNat) colour) ((List.range 64).map walkAt) fb) := by
  have hmask : (nibble &&& 0xf).toNat = nibble.toNat := by
    rw [UInt32.toNat_and, show (0xf : UInt32).toNat = 2 ^ 4 - 1 from rfl,
      Nat.and_two_pow_sub_one_of_lt_two_pow hn]
  have hstart : (⟨fb, ((x + 7) + y * vwidth).toNat, 1⟩ : Pen) =
      penAt x.toNat y.toNat (bitmaps nibble.toNat) colour fb 0 := by
    rw [start_eq hx hy]
    rfl
  rw [showNibble, hmask, hstart]
  exact showLoop_writes x.toNat y.toNat fb 0 rfl hfuel

/-! ## The same picture -/

/-- The walk along the word ends with the frame buffer that the two loops leave: the
pixels of the cell drawn and the others as they were. -/
theorem showNibble_eq (bitmaps : Bitmaps) (x y nibble colour : UInt32) (fb : Pixels)
    (hx : x.toNat + 8 ≤ vwidth.toNat) (hy : y.toNat + 8 ≤ vheight.toNat)
    (hn : nibble.toNat < 16) {fuel : ℕ} (hfuel : 64 < fuel) :
    ∃ fb', ShowPage.showNibble fuel bitmaps x y nibble colour fb = some fb' ∧
      TrivialDisplay.showNibble bitmaps x y nibble colour fb = fb' ∧
      (∀ dx < 8, ∀ dy < 8, fb' (pixel (x.toNat + dx) (y.toNat + dy)) =
        if (bitmaps nibble.toNat dy).toNat.testBit (7 - dx) then colour else black) ∧
      ∀ i, (∀ dx < 8, ∀ dy < 8, i ≠ pixel (x.toNat + dx) (y.toNat + dy)) → fb' i = fb i := by
  have hinj : ∀ c ∈ byRows, ∀ d ∈ byRows,
      pixel (x.toNat + c.1) (y.toNat + c.2) = pixel (x.toNat + d.1) (y.toNat + d.2) → c = d :=
    fun c hc d hd => pixel_inj hc hd
  -- both draw the cell's own colours, in another order
  have horder : writes _ (cellColour (bitmaps nibble.toNat) colour) byRows fb =
      writes _ (cellColour (bitmaps nibble.toNat) colour) ((List.range 64).map walkAt) fb :=
    writes_perm walk_perm.symm hinj fb
  refine ⟨_, ShowPage.showNibble_writes hx hy hn hfuel fb, ?_, ?_, ?_⟩
  · rw [TrivialDisplay.showNibble_writes hx hy, horder]
  · intro dx hdx dy hdy
    rw [← horder]
    exact writes_at hinj (j := (dx, dy)) (mem_byRows.2 ⟨hdx, hdy⟩) fb
  · intro i hi
    rw [← horder]
    apply writes_of_ne
    intro c hc
    exact hi c.1 (mem_byRows.1 hc).1 c.2 (mem_byRows.1 hc).2

end Cell

/-- The digit 1 in the bottom right corner. -/
theorem showNibble_eq_corner :
    ∃ fb', ShowPage.showNibble 65 (fun _ dy => if dy < 7 then 0b00001100 else 0) 1912 1072 1
        0xffffffff (fun _ => 0) = some fb' ∧ fb' (pixel 1916 1072) = 0xffffffff := by
  have hfuel : 64 < 65 := by decide
  rcases showNibble_eq (fun _ dy => if dy < 7 then 0b00001100 else 0) 1912 1072 1 0xffffffff
    (fun _ => 0) (by decide) (by decide) (by decide) hfuel
    with ⟨fb', hfb, _, hcell, _⟩
  exact ⟨fb', hfb, hcell 4 (by decide) 0 (by decide)⟩

end Isambard.Driver
