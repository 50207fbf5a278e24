import Mathlib.Data.BitVec
import Mathlib.Data.Nat.Digits.Defs
import Mathlib.Logic.Function.Iterate

/-!
# Lib.Crc — reflected cyclic redundancy checks

A CRC register of `w` bits with the low bit first, for any polynomial. A shift of the
register is linear in exclusive or, so bytes that go in together can be taken one after
the other: a register that is wide enough for a whole word divides as many shifts of the
bytes of that word.

* `shift`, `update`: one bit, one byte;
* `shift_xor`, `iterate_xor`: a shift is linear;
* `iterate_clear`: clear low bits only move the rest down;
* `iterate_word`: a word at once is its little-endian bytes in turn;
* `leBytes_ofDigits`: the bytes of a word that was read from them.
-/

namespace Isambard.Lib.Crc

variable {w : ℕ}

/-- One bit out of the register. -/
def shift (poly c : BitVec w) : BitVec w :=
  if c.getLsbD 0 then (c >>> 1) ^^^ poly else c >>> 1

/-- One byte into the register. -/
def update (poly c : BitVec w) (b : BitVec 8) : BitVec w :=
  (shift poly)^[8] (c ^^^ b.setWidth w)

/-- The `n` low bytes of a word, the lowest first. -/
def leBytes {W : ℕ} : ℕ → BitVec W → List (BitVec 8)
  | 0, _ => []
  | n + 1, v => v.setWidth 8 :: leBytes n (v >>> 8)

section Linear

variable (poly : BitVec w)

theorem shift_xor (a b : BitVec w) : shift poly (a ^^^ b) = shift poly a ^^^ shift poly b := by
  simp only [shift, BitVec.getLsbD_xor, BitVec.ushiftRight_xor_distrib]
  -- the bits that leave decide how often the polynomial goes in
  cases a.getLsbD 0 <;> cases b.getLsbD 0
  · simp
  · simp [BitVec.xor_assoc]
  · simp only [Bool.xor_false, if_true, Bool.false_eq_true, if_false]
    ac_rfl
  · -- the polynomial goes in twice
    have hcancel : ∀ x y : BitVec w, x ^^^ poly ^^^ (y ^^^ poly) = x ^^^ y := by
      intro x y
      rw [BitVec.xor_assoc, BitVec.xor_comm y, ← BitVec.xor_assoc poly, BitVec.xor_self,
        BitVec.zero_xor]
    simp [hcancel]

theorem iterate_xor (n : ℕ) (a b : BitVec w) :
    (shift poly)^[n] (a ^^^ b) = (shift poly)^[n] a ^^^ (shift poly)^[n] b := by
  induction n generalizing a b with
  | zero => rfl
  | succ n ih => simp only [Function.iterate_succ_apply, shift_xor, ih]

/-- Clear bits leave without the polynomial. -/
theorem iterate_clear (n : ℕ) {y : BitVec w} (hy : ∀ i < n, y.getLsbD i = false) :
    (shift poly)^[n] y = y >>> n := by
  induction n generalizing y with
  | zero => simp
  | succ n ih =>
    -- the bit that leaves is clear, and the ones that follow move down
    have hlow : shift poly y = y >>> 1 := by
      simp [shift, hy 0 (Nat.succ_pos n)]
    have hrest : ∀ i < n, (y >>> 1).getLsbD i = false := by
      intro i hi
      rw [BitVec.getLsbD_ushiftRight]
      exact hy (1 + i) (by omega)
    rw [Function.iterate_succ_apply, hlow, ih hrest, ← BitVec.shiftRight_add, Nat.add_comm]

end Linear

section Wide

variable {W : ℕ} (poly : BitVec w)

/-- A register that is wider than the polynomial shifts as the narrow one does. -/
theorem shift_setWidth (hw : w ≤ W) (hpos : 0 < w) (c : BitVec w) :
    shift (poly.setWidth W) (c.setWidth W) = (shift poly c).setWidth W := by
  have hmove : c.setWidth W >>> 1 = (c >>> 1).setWidth W := by
    apply BitVec.eq_of_getLsbD_eq
    intro i hi
    simp only [BitVec.getLsbD_ushiftRight, BitVec.getLsbD_setWidth]
    by_cases h : 1 + i < W
    · simp [h, hi]
    · simp [hi, h, BitVec.getLsbD_of_ge c (1 + i) (by omega)]
  have hbit : (c.setWidth W).getLsbD 0 = c.getLsbD 0 := by
    simp [Nat.lt_of_lt_of_le hpos hw]
  rw [shift, shift, hbit, hmove]
  cases c.getLsbD 0
  · rfl
  · simp [BitVec.setWidth_xor]

theorem iterate_setWidth (hw : w ≤ W) (hpos : 0 < w) (n : ℕ) (c : BitVec w) :
    (shift (poly.setWidth W))^[n] (c.setWidth W) = ((shift poly)^[n] c).setWidth W := by
  induction n generalizing c with
  | zero => rfl
  | succ n ih =>
    rw [Function.iterate_succ_apply, Function.iterate_succ_apply, shift_setWidth poly hw hpos, ih]

/-- A word is its low byte and what is above it. -/
theorem low_xor_high (v : BitVec W) : v = (v.setWidth 8).setWidth W ^^^ ((v >>> 8) <<< 8) := by
  apply BitVec.eq_of_getLsbD_eq
  intro i hi
  simp only [BitVec.getLsbD_xor, BitVec.getLsbD_setWidth, BitVec.getLsbD_shiftLeft,
    BitVec.getLsbD_ushiftRight, hi]
  by_cases h8 : i < 8
  · simp [h8]
  · simp [h8, Nat.add_sub_cancel' (Nat.le_of_not_lt h8)]

/-- Eight shifts of a wide register take the low byte of the word that is waiting in it. -/
theorem iterate_byte (hw : w ≤ W) (h8 : 8 ≤ w) (c : BitVec w) (v : BitVec W) :
    (shift (poly.setWidth W))^[8] (c.setWidth W ^^^ v) =
      (update poly c (v.setWidth 8)).setWidth W ^^^ (v >>> 8) := by
  have hin : c.setWidth W ^^^ (v.setWidth 8).setWidth W =
      (c ^^^ (v.setWidth 8).setWidth w).setWidth W := by
    have hbyte : ((v.setWidth 8).setWidth w).setWidth W = (v.setWidth 8).setWidth W :=
      BitVec.setWidth_setWidth (by omega)
    rw [BitVec.setWidth_xor, hbyte]
  -- what is above the low byte waits behind eight clear bits
  have hclear : ∀ i < 8, ((v >>> 8) <<< 8).getLsbD i = false := by
    intro i hi
    simp [BitVec.getLsbD_shiftLeft, hi]
  have hhigh : ((v >>> 8) <<< 8) >>> 8 = v >>> 8 := by
    apply BitVec.eq_of_getLsbD_eq
    intro i hi
    simp only [BitVec.getLsbD_ushiftRight, BitVec.getLsbD_shiftLeft]
    by_cases h : 8 + i < W
    · simp [h]
    · simp [h, BitVec.getLsbD_of_ge v (8 + i) (by omega)]
  calc (shift (poly.setWidth W))^[8] (c.setWidth W ^^^ v)
      = (shift (poly.setWidth W))^[8]
          ((c.setWidth W ^^^ (v.setWidth 8).setWidth W) ^^^ ((v >>> 8) <<< 8)) := by
        rw [BitVec.xor_assoc, ← low_xor_high]
    _ = (update poly c (v.setWidth 8)).setWidth W ^^^ (v >>> 8) := by
        rw [iterate_xor, iterate_clear _ 8 hclear, hhigh, hin,
          iterate_setWidth poly hw (Nat.lt_of_lt_of_le (by decide) h8), update]

/-- A word goes through a wide register as its bytes go through the narrow one. -/
theorem iterate_word (hw : w ≤ W) (h8 : 8 ≤ w) (n : ℕ) (c : BitVec w) (v : BitVec W) :
    (shift (poly.setWidth W))^[8 * n] (c.setWidth W ^^^ v) =
      ((leBytes n v).foldl (update poly) c).setWidth W ^^^ (v >>> (8 * n)) := by
  induction n generalizing c v with
  | zero => simp [leBytes]
  | succ n ih =>
    rw [Nat.mul_succ, Function.iterate_add_apply, iterate_byte poly hw h8, ih, leBytes,
      List.foldl_cons, ← BitVec.shiftRight_add, Nat.add_comm 8]

end Wide

/-- A word that is read from bytes in memory has these bytes. -/
theorem leBytes_ofDigits {W : ℕ} (h8 : 8 ≤ W) (ds : List ℕ) (hds : ∀ d ∈ ds, d < 256)
    (hW : 8 * ds.length ≤ W) :
    leBytes ds.length (BitVec.ofNat W (Nat.ofDigits 256 ds)) = ds.map (BitVec.ofNat 8) := by
  induction ds with
  | nil => rfl
  | cons d ds ih =>
    have hd : d < 256 := hds d List.mem_cons_self
    have hrest : ∀ e ∈ ds, e < 256 := fun e he => hds e (List.mem_cons_of_mem _ he)
    simp only [List.length_cons] at hW
    -- the number fits the word, so reading it modulo the width loses nothing
    have hsize : Nat.ofDigits 256 ds < 256 ^ ds.length :=
      Nat.ofDigits_lt_base_pow_length (by decide) hrest
    have hpow : 256 * 256 ^ ds.length ≤ 2 ^ W := by
      calc 256 * 256 ^ ds.length = 2 ^ (8 * (ds.length + 1)) := by
            rw [Nat.mul_succ, pow_add, pow_mul, Nat.mul_comm]
            rfl
        _ ≤ 2 ^ W := Nat.pow_le_pow_right (by decide) hW
    have hlow : (BitVec.ofNat W (d + 256 * Nat.ofDigits 256 ds)).setWidth 8 =
        BitVec.ofNat 8 d := by
      rw [BitVec.setWidth_ofNat_of_le h8]
      apply BitVec.eq_of_toNat_eq
      simp [Nat.add_mul_mod_self_left]
    have hhigh : BitVec.ofNat W (d + 256 * Nat.ofDigits 256 ds) >>> 8 =
        BitVec.ofNat W (Nat.ofDigits 256 ds) := by
      apply BitVec.eq_of_toNat_eq
      rw [BitVec.toNat_ushiftRight, BitVec.toNat_ofNat, BitVec.toNat_ofNat,
        Nat.mod_eq_of_lt (by omega), Nat.mod_eq_of_lt (by omega), Nat.shiftRight_eq_div_pow]
      omega
    rw [Nat.ofDigits_cons, List.length_cons, leBytes, List.map_cons, hlow, hhigh,
      ih hrest (by omega)]

end Isambard.Lib.Crc
