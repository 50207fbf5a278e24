import Isambard.Lib.Crc
import Isambard.Tools.Interfaces

/-!
# Driver.Codes — the CRCs that are computed at run time

`name_code` of `drivers.h`, `software_crc32` and `hardware_crc32` of `riscos.c` and
`arm11vm.c`, and `crc32` of `tools/interfaces.c` with the pointer and the count that it
runs on. The instruction CRC32X is a parameter.

* `codes_agree`: the generator and the drivers compute the same code for a name;
* `hardwareCrc32_eq`: sixteen bytes at a time give what a bit at a time gives.
-/

namespace Isambard.Driver

open Isambard.Lib Isambard.Lib.CStrings Isambard.Tools

/-! ## The loops -/

/-- `(crc >> 1) ^ (-(int)(crc & 1) & Polynomial)`: the negation is that of an `int`, which
`&` takes back to an unsigned word. -/
def crcShift (crc : UInt32) : UInt32 :=
  (crc >>> 1) ^^^ ((-(crc &&& 1).toInt32).toUInt32 &&& polynomial)

/-- The body of the outer loop, the same in all of them. -/
def crcNext (crc : UInt32) (b : UInt8) : UInt32 := crcShift^[8] (crc ^^^ b.toUInt32)

/-- `while (length--)` of `crc32`, from `current` on. -/
def crc32Loop : ℕ → Buffer → UInt32 → UInt32
  | 0, _, crc => crc
  | length + 1, current, crc => crc32Loop length current.tail (crcNext crc (byteAt current 0))

/-- `crc32` of `tools/interfaces.c`, with its three arguments. -/
def crc32Of (data : Buffer) (length : ℕ) (previousCrc32 : UInt32) : UInt32 :=
  ~~~ (crc32Loop length data (~~~ previousCrc32))

/-- `while ('\0' != *current)` of `name_code`; `none` when the memory ends before a NUL. -/
def nameCodeLoop : Buffer → UInt32 → Option UInt32
  | [], _ => none
  | b :: current, crc => if b = 0 then some crc else nameCodeLoop current (crcNext crc b)

/-- `name_code( name )`: the NUMBER is a whole register. -/
def nameCode (name : Buffer) : Option UInt64 :=
  (nameCodeLoop name 0xFFFFFFFF).map fun crc => (~~~ crc).toUInt64

/-- `software_crc32( p, len )`. -/
def softwareCrc32 (p : Buffer) (len : UInt32) : UInt32 :=
  ~~~ ((List.range len.toNat).foldl (fun crc c => crcNext crc (byteAt p c)) (~~~ 0))

/-- `crcp[i]`, eight bytes with the lowest first. -/
def loadWord (p : Buffer) (i : ℕ) : UInt64 :=
  UInt64.ofNat (Nat.ofDigits 256 ((List.range 8).map fun k => (byteAt p (8 * i + k)).toNat))

section Hardware

variable (crc32x : UInt32 → UInt64 → UInt32)

/-- The two instructions of a pass, with their operands read in the order they are
written, each in a register of its own. The state is `crc` and `crcp`. -/
def hardwareStep (p : Buffer) (s : UInt32 × ℕ) : UInt32 × ℕ :=
  -- `*crcp++` twice, the first operand first
  let data0 := loadWord p s.2
  let data1 := loadWord p (s.2 + 1)
  (crc32x (crc32x s.1 data0) data1, s.2 + 2)

/-- `hardware_crc32( p, len )`. -/
def hardwareCrc32 (p : Buffer) (len : UInt32) : UInt32 :=
  ~~~ ((hardwareStep crc32x p)^[(len / 16).toNat] (~~~ 0, 0)).1

/-- What CRC32X does: the eight bytes of its operand go into the CRC, the lowest first,
under the reflected polynomial and without an inversion. -/
def UpdatesBytes : Prop :=
  ∀ (crc : UInt32) (v : UInt64), (crc32x crc v).toBitVec =
    (Crc.leBytes 8 v.toBitVec).foldl (Crc.update 0xEDB88320#32) crc.toBitVec

end Hardware

/-- The instruction as a division of the whole operand: 64 shifts of a register of 64 bits. -/
def crc32xInstruction (crc : UInt32) (v : UInt64) : UInt32 :=
  ⟨((Crc.shift 0xEDB88320#64)^[64] (crc.toBitVec.setWidth 64 ^^^ v.toBitVec)).setWidth 32⟩

theorem crc32xInstruction_updates : UpdatesBytes crc32xInstruction := by
  intro crc v
  have hword := Crc.iterate_word (W := 64) 0xEDB88320#32 (by decide) (by decide) 8
    crc.toBitVec v.toBitVec
  -- all eight bytes have gone in: nothing of the operand is left in the register
  have hout : v.toBitVec >>> (8 * 8) = 0#64 := BitVec.ushiftRight_eq_zero (Nat.le_refl 64)
  rw [hout, BitVec.xor_zero] at hword
  show ((Crc.shift 0xEDB88320#64)^[64] _).setWidth 32 = _
  rw [show (0xEDB88320#64) = (0xEDB88320#32).setWidth 64 from rfl, hword]
  simp

/-! ## One byte -/

theorem crcShift_eq (crc : UInt32) : crcShift crc = crcBit crc := by
  have hmask : (-(crc &&& 1).toInt32).toUInt32 = 0 - (crc &&& 1) := by
    rw [UInt32.zero_sub]
    rfl
  rw [crcShift, crcBit, hmask]

theorem crcNext_eq (crc : UInt32) (b : UInt8) : crcNext crc b = crcByte crc b := by
  have hshift : crcShift = crcBit := funext crcShift_eq
  rw [crcNext, crcByte, hshift]

/-- The mask is the polynomial when the bit that leaves is set. -/
theorem crcShift_toBitVec (crc : UInt32) :
    (crcShift crc).toBitVec = Crc.shift 0xEDB88320#32 crc.toBitVec := by
  have hbit : (crc &&& 1).toBitVec = (BitVec.ofBool (crc.toBitVec.getLsbD 0)).setWidth 32 := by
    rw [UInt32.toBitVec_and]
    exact BitVec.and_one_eq_setWidth_ofBool_getLsbD
  -- negated, a bit is all ones or nothing
  have hmask : (0 - (crc &&& 1)).toBitVec =
      if crc.toBitVec.getLsbD 0 then BitVec.allOnes 32 else 0 := by
    rw [UInt32.toBitVec_sub, hbit]
    cases crc.toBitVec.getLsbD 0 <;> rfl
  rw [crcShift_eq, crcBit, UInt32.toBitVec_xor, UInt32.toBitVec_and, hmask, Crc.shift]
  cases crc.toBitVec.getLsbD 0
  · simp
  · simp [polynomial]

theorem crcNext_toBitVec (crc : UInt32) (b : UInt8) :
    (crcNext crc b).toBitVec = Crc.update 0xEDB88320#32 crc.toBitVec b.toBitVec := by
  have hiterate : ∀ n (c : UInt32),
      (crcShift^[n] c).toBitVec = (Crc.shift 0xEDB88320#32)^[n] c.toBitVec := by
    intro n
    induction n with
    | zero => exact fun _ => rfl
    | succ n ih =>
      intro c
      rw [Function.iterate_succ_apply, Function.iterate_succ_apply, ih, crcShift_toBitVec]
  rw [crcNext, hiterate, Crc.update, UInt32.toBitVec_xor, UInt8.toBitVec_toUInt32]

/-! ## Names and calls -/

/-- The loop takes the bytes that the count covers. -/
theorem crc32Loop_eq (length : ℕ) (data : Buffer) (crc : UInt32) (h : length ≤ data.length) :
    crc32Loop length data crc = (data.take length).foldl crcByte crc := by
  induction length generalizing data crc with
  | zero => rfl
  | succ length ih =>
    cases data with
    | nil => simp at h
    | cons b data =>
      -- the count has covered this byte; the rest of it covers the rest
      have hrest : length ≤ data.length := by simpa using h
      rw [crc32Loop, List.tail_cons, ih data _ hrest, List.take_succ_cons, List.foldl_cons,
        crcNext_eq]
      rfl

theorem crc32Of_eq (data : Buffer) (previous : UInt32) :
    crc32Of data data.length previous = crc32 data previous := by
  rw [crc32Of, crc32Loop_eq _ _ _ (Nat.le_refl _), List.take_length, crc32]

/-- The loop of `name_code` ends at the NUL and not before it. -/
theorem nameCodeLoop_eq (s rest : Buffer) (hs : ∀ b ∈ s, b ≠ 0) (crc : UInt32) :
    nameCodeLoop (s ++ 0 :: rest) crc = some (s.foldl crcByte crc) := by
  induction s generalizing crc with
  | nil => rfl
  | cons b s ih =>
    have hb : b ≠ 0 := hs b List.mem_cons_self
    have hrest : ∀ c ∈ s, c ≠ 0 := fun c hc => hs c (List.mem_cons_of_mem _ hc)
    rw [List.cons_append, nameCodeLoop, if_neg hb, ih hrest, List.foldl_cons, crcNext_eq]

theorem nameCode_eq (s rest : Buffer) (hs : ∀ b ∈ s, b ≠ 0) :
    nameCode (s ++ 0 :: rest) = some (crc32 s 0).toUInt64 := by
  rw [nameCode, nameCodeLoop_eq s rest hs]
  rfl

/-- The index of `software_crc32` takes the bytes in their order. -/
theorem softwareLoop_eq (p : Buffer) (n : ℕ) (crc : UInt32) :
    (List.range n).foldl (fun crc c => crcNext crc (byteAt p c)) crc =
      ((List.range n).map (byteAt p)).foldl crcByte crc := by
  rw [List.foldl_map]
  simp only [crcNext_eq]

theorem map_byteAt (p : Buffer) : (List.range p.length).map (byteAt p) = p := by
  apply List.ext_getElem
  · simp
  · intro i _ hi
    simp [byteAt, hi]

theorem softwareCrc32_eq (s : Buffer) (len : UInt32) (hlen : len.toNat = s.length) :
    softwareCrc32 s len = crc32 s 0 := by
  rw [softwareCrc32, softwareLoop_eq, hlen, map_byteAt]
  rfl

/-- The code of a name is the same at build time and at run time, and that of two texts
one after the other is computed from the code of the first. -/
theorem codes_agree (x y s rest : Buffer) (hs : ∀ b ∈ s, b ≠ 0) :
    crc32Of y y.length (crc32Of x x.length 0) = crc32Of (x ++ y) (x.length + y.length) 0 ∧
    nameCode (s ++ 0 :: rest) = some (crc32Of s s.length 0).toUInt64 ∧
    ∀ len : UInt32, len.toNat = s.length → softwareCrc32 s len = crc32Of s s.length 0 := by
  refine ⟨?_, ?_, ?_⟩
  · rw [← List.length_append, crc32Of_eq, crc32Of_eq, crc32Of_eq, crc32_append]
  · rw [crc32Of_eq]
    exact nameCode_eq s rest hs
  · intro len hlen
    rw [crc32Of_eq]
    exact softwareCrc32_eq s len hlen

theorem codes_agree_emmc :
    crc32Of (bytes "__") 2 (crc32Of (bytes "SYSTEM") 6 0) = crc32Of (bytes "SYSTEM__") 8 0 ∧
    nameCode (bytes "EMMC" ++ [0]) = some (crc32Of (bytes "EMMC") 4 0).toUInt64 ∧
    softwareCrc32 (bytes "EMMC") 4 = crc32Of (bytes "EMMC") 4 0 := by
  have hname : ∀ b ∈ bytes "EMMC", b ≠ 0 := by simp [CStrings.bytes]
  have h := codes_agree (bytes "SYSTEM") (bytes "__") (bytes "EMMC") [] hname
  exact ⟨h.1, h.2.1, h.2.2 4 rfl⟩

/-! ## Sixteen bytes at a time -/

/-- The bytes of a word in memory, as CRC32X takes them. -/
theorem leBytes_loadWord (p : Buffer) (i : ℕ) :
    Crc.leBytes 8 (loadWord p i).toBitVec =
      (List.range 8).map fun k => (byteAt p (8 * i + k)).toBitVec := by
  have hds : ∀ d ∈ (List.range 8).map fun k => (byteAt p (8 * i + k)).toNat, d < 256 := by
    intro d hd
    rcases List.mem_map.1 hd with ⟨k, _, rfl⟩
    exact UInt8.toNat_lt _
  have hbytes := Crc.leBytes_ofDigits (W := 64) (by decide) _ hds (by simp)
  rw [List.length_map, List.length_range, List.map_map] at hbytes
  rw [loadWord, UInt64.toBitVec_ofNat', hbytes]
  apply List.map_congr_left
  intro k _
  simp

section Hardware

variable {crc32x : UInt32 → UInt64 → UInt32}

/-- One instruction takes eight bytes. -/
theorem crc32x_loadWord (hx : UpdatesBytes crc32x) (p : Buffer) (crc : UInt32) (i : ℕ) :
    crc32x crc (loadWord p i) =
      (List.range 8).foldl (fun crc k => crcNext crc (byteAt p (8 * i + k))) crc := by
  -- the same fold in words of the code and in bit vectors, by induction on the bytes
  have hfold : ∀ (ks : List ℕ) (crc : UInt32),
      (ks.map fun k => (byteAt p (8 * i + k)).toBitVec).foldl (Crc.update 0xEDB88320#32)
        crc.toBitVec =
      (ks.foldl (fun crc k => crcNext crc (byteAt p (8 * i + k))) crc).toBitVec := by
    intro ks
    induction ks with
    | nil => exact fun _ => rfl
    | cons k ks ih =>
      intro crc
      rw [List.map_cons, List.foldl_cons, List.foldl_cons, ← crcNext_toBitVec, ih]
  apply UInt32.toBitVec_inj.1
  rw [hx crc, leBytes_loadWord, hfold]

/-- A pass takes sixteen bytes, from where the last one stopped. -/
theorem hardwareStep_eq (hx : UpdatesBytes crc32x) (p : Buffer) (crc : UInt32) (i : ℕ) :
    hardwareStep crc32x p (crc, 2 * i) =
      ((List.range 16).foldl (fun crc k => crcNext crc (byteAt p (16 * i + k))) crc,
        2 * (i + 1)) := by
  -- the second instruction goes on eight bytes further
  have hsplit : List.range 16 = List.range 8 ++ (List.range 8).map (8 + ·) := rfl
  have hfirst : 8 * (2 * i) = 16 * i := by omega
  have hsecond : ∀ k, 8 * (2 * i + 1) + k = 16 * i + (8 + k) := by intro k; omega
  rw [hsplit, List.foldl_append, List.foldl_map, hardwareStep]
  simp only [crc32x_loadWord hx, hfirst, hsecond]
  rfl

/-- After `n` passes the first `16 * n` bytes are in. -/
theorem hardwareStep_iterate (hx : UpdatesBytes crc32x) (p : Buffer) (crc : UInt32) (n : ℕ) :
    (hardwareStep crc32x p)^[n] (crc, 0) =
      ((List.range (16 * n)).foldl (fun crc c => crcNext crc (byteAt p c)) crc, 2 * n) := by
  induction n with
  | zero => rfl
  | succ n ih =>
    have hrange : List.range (16 * (n + 1)) =
        List.range (16 * n) ++ (List.range 16).map (16 * n + ·) := by
      rw [Nat.mul_succ, List.range_add]
    rw [Function.iterate_succ_apply', ih, hardwareStep_eq hx, hrange, List.foldl_append,
      List.foldl_map]

/-- The two CRCs of a buffer of whole blocks are the same. -/
theorem hardwareCrc32_eq (hx : UpdatesBytes crc32x) (p : Buffer) (len : UInt32)
    (h : 16 ∣ len.toNat) : hardwareCrc32 crc32x p len = softwareCrc32 p len := by
  -- the division leaves no bytes over
  have hblocks : 16 * (len / 16).toNat = len.toNat := by
    rw [UInt32.toNat_div]
    exact Nat.mul_div_cancel' h
  rw [hardwareCrc32, hardwareStep_iterate hx, hblocks, softwareCrc32]

end Hardware

theorem hardwareCrc32_eq_block :
    hardwareCrc32 crc32xInstruction (bytes "0123456789abcdef") 16 =
      softwareCrc32 (bytes "0123456789abcdef") 16 :=
  hardwareCrc32_eq crc32xInstruction_updates _ 16 ⟨1, rfl⟩

end Isambard.Driver
