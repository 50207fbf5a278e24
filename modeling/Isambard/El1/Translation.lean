import Isambard.Lib.Runs
import Isambard.El1.Maps
import Mathlib.Tactic.IntervalCases

/-!
# El1.Translation — what faults leave in the tables

Maps are loaded and faults are handled, in any order; whenever an ordinary map
is loaded, an address that the tables translate should go to the memory block
that the map has there. The invariant `TablesOk` follows the two shared tables:
the level-2 table hangs under one slot of level 1 only, the level-3 table under
one slot of level 2 only, and what they hold is right for that one place.

`find_and_map_memory` does not keep it so: it hangs its tables wherever a fault
asks for them, with what other faults have left there. `run_translated` is about
the runs in which that does not happen, of maps whose blocks do not overlap.
-/

namespace Isambard.El1

open Isambard.Lib

/-! ## The block of an address -/

/-- `fa` lies in the virtual memory block `v`. -/
def Covers (v fa : ℕ) : Prop :=
  Vmb.startPage v ≤ fa / 4096 ∧ fa / 4096 < Vmb.startPage v + Vmb.pageCount v

instance (v fa : ℕ) : Decidable (Covers v fa) := inferInstanceAs (Decidable (_ ∧ _))

/-- The words from `a` on are the blocks `vs` and then an empty one, in heap
memory that belongs to no thread context. -/
def TableAt (k : Kernel) : List ℕ → ℕ → Prop
  | [], a => k.place a = .mem a ∧ a % 8 = 0 ∧ Vmb.pageCount (k.mem a) = 0
  | v :: vs, a => k.place a = .mem a ∧ a % 8 = 0 ∧ k.mem a = v ∧ 0 < Vmb.pageCount v ∧
      TableAt k vs (a + 8)

instance TableAt.decidable (k : Kernel) : ∀ vs a, Decidable (TableAt k vs a)
  | [], _ => inferInstanceAs (Decidable (_ ∧ _ ∧ _))
  | _ :: vs, a =>
    have := TableAt.decidable k vs (a + 8)
    inferInstanceAs (Decidable (_ ∧ _ ∧ _ ∧ _ ∧ TableAt k vs (a + 8)))

/-- The map with index `m` has the virtual memory blocks `vs`. -/
structure MapTable (k : Kernel) (m : ℕ) (vs : List ℕ) : Prop where
  offset_le : MapValue.heapOffsetLsr4 (k.interfaces m).object ≤ (heapTop - k.heapBottom) / 16
  length_lt : vs.length < 2 * MapValue.heapOffsetLsr4 (k.interfaces m).object
  table : TableAt k vs
    (startAddress + heapTop - 16 * MapValue.heapOffsetLsr4 (k.interfaces m).object)

theorem vmbLoop_tableAt {k : Kernel} {fa : ℕ} {vs : List ℕ} (n a : ℕ) (h : TableAt k vs a)
    (hn : vs.length < n) :
    vmbLoop k (fa / 4096) n a = some (vs.find? fun v => vmbHas v (fa / 4096)) := by
  induction vs generalizing n a with
  | nil =>
    obtain ⟨n, rfl⟩ := Nat.exists_eq_succ_of_ne_zero (by simp at hn; omega : n ≠ 0)
    obtain ⟨hp, hal, hz⟩ := h
    have hload : k.load64 a = k.mem a := by
      rw [load64_eq_word hal, Kernel.word, hp]
    simp [vmbLoop, hload, hz]
  | cons v vs ih =>
    obtain ⟨n, rfl⟩ := Nat.exists_eq_succ_of_ne_zero (by simp at hn; omega : n ≠ 0)
    obtain ⟨hp, hal, hv, hpos, htl⟩ := h
    have hload : k.load64 a = v := by
      rw [load64_eq_word hal, Kernel.word, hp]
      exact hv
    unfold vmbLoop
    simp only [hload, gt_iff_lt, hpos, if_true]
    by_cases hc : vmbHas v (fa / 4096)
    · rw [if_pos hc, List.find?_cons_of_pos (by simpa using hc)]
    · rw [if_neg hc, List.find?_cons_of_neg (by simpa using hc)]
      exact ih n (a + 8) htl (by simp at hn; omega)

theorem TableAt.unique {k : Kernel} {vs ws : List ℕ} (a : ℕ) (hv : TableAt k vs a)
    (hw : TableAt k ws a) : vs = ws := by
  induction vs generalizing ws a with
  | nil =>
    cases ws with
    | nil => rfl
    | cons w ws =>
      have hz := hv.2.2
      rw [hw.2.2.1] at hz
      have hpos := hw.2.2.2.1
      omega
  | cons v vs ih =>
    cases ws with
    | nil =>
      have hz := hw.2.2
      rw [hv.2.2.1] at hz
      have hpos := hv.2.2.2.1
      omega
    | cons w ws =>
      have hhead : v = w := hv.2.2.1.symm.trans hw.2.2.1
      rw [hhead, ih (a + 8) hv.2.2.2.2 hw.2.2.2.2]

/-- `find_vmb` finds the first block that passes its test. -/
theorem MapTable.findVmb_has {k : Kernel} {m : ℕ} {vs : List ℕ} (h : MapTable k m vs) (fa : ℕ) :
    findVmb k m fa = some (vs.find? fun v => vmbHas v (fa / 4096)) := by
  unfold findVmb
  rw [if_neg (Nat.not_lt.2 h.offset_le)]
  exact vmbLoop_tableAt _ _ h.table h.length_lt

/-- The test of `find_vmb`, for the addresses of 64 bits. -/
theorem vmbHas_eq_covers {v fa : ℕ} (hfa : fa < 2 ^ 64) :
    vmbHas v (fa / 4096) = decide (Covers v fa) := by
  have hstart : Vmb.startPage v < 2 ^ 24 := field_lt 0 24 v
  have hcount : Vmb.pageCount v < 2 ^ 20 := field_lt 24 20 v
  unfold vmbHas Covers
  apply decide_eq_decide.2
  omega

/-- `find_vmb` finds the first block that `fa` lies in. -/
theorem MapTable.findVmb {k : Kernel} {m fa : ℕ} {vs : List ℕ} (h : MapTable k m vs)
    (hfa : fa < 2 ^ 64) : findVmb k m fa = some (vs.find? fun v => Covers v fa) := by
  rw [h.findVmb_has]
  simp only [vmbHas_eq_covers hfa]

/-- The memory block of the virtual memory block `v`. -/
def blockOf (k : Kernel) (v : ℕ) : ℕ := (k.interfaces (Vmb.memoryBlock v)).object

/-- What the tables may say about `va`: the address in the block that the map `m`
has there. -/
def Translated (k : Kernel) (m va pa : ℕ) : Prop :=
  ∃ v, findVmb k m va = some (some v) ∧
    pa + Vmb.startPage v * 4096 = Cmb.startPage (blockOf k v) * 4096 + va

/-- The starts of the blocks of a map are below 2GB. -/
def LowStarts (k : Kernel) (vs : List ℕ) : Prop :=
  ∀ v ∈ vs, Vmb.startPage v < 2 ^ 19 ∧ Cmb.startPage (blockOf k v) < 2 ^ 19

/-- No address lies in two blocks. -/
def NoOverlap (vs : List ℕ) : Prop :=
  vs.Pairwise fun v w => Vmb.startPage v + Vmb.pageCount v ≤ Vmb.startPage w ∨
    Vmb.startPage w + Vmb.pageCount w ≤ Vmb.startPage v

/-- The block of an address is the only one that it lies in. -/
theorem find?_covers {vs : List ℕ} {v fa : ℕ} (h : NoOverlap vs) (hv : v ∈ vs)
    (hc : Covers v fa) : vs.find? (fun w => Covers w fa) = some v := by
  induction vs with
  | nil => cases hv
  | cons w ws ih =>
    obtain ⟨hw, hws⟩ := List.pairwise_cons.1 h
    rcases List.mem_cons.1 hv with rfl | hv
    · exact List.find?_cons_of_pos (by simpa using hc)
    · have hnot : ¬ Covers w fa := by
        intro hcw
        have := hw v hv
        unfold Covers at hc hcw
        omega
      rw [List.find?_cons_of_neg (by simpa using hnot)]
      exact ih hws hv

/-! ## The entry for a fault -/

theorem shl12_of_lt {x : ℕ} (h : x < 2 ^ 19) : shl12 x = x * 4096 := by
  unfold shl12
  simp only
  rw [if_pos (by omega)]
  omega

/-- From bit 31 on the shift leaves the `int`, and a page number of 24 bits is not there in the
result. -/
theorem shl12_eq_iff {x : ℕ} (h : x < 2 ^ 24) : shl12 x = x * 4096 ↔ x < 2 ^ 19 := by
  constructor
  · intro heq
    unfold shl12 at heq
    simp only at heq
    split at heq
    · omega
    · omega
  · exact shl12_of_lt

/-- The attributes are in the low 12 bits and in the high bits of an entry. -/
theorem field_attrs {n : ℕ} (hn : 12 ≤ n) (hn' : n ≤ 48) (e cmb vmb : ℕ) :
    field n (48 - n) (withVirtualMemoryAttrs (withPhysicalMemoryAttrs e cmb) vmb) =
      field n (48 - n) e := by
  have hlow : ∀ lo w v r, lo + w ≤ 12 → field n (48 - n) (setField lo w v r) =
      field n (48 - n) r := fun lo w v r h => field_setField_above (by omega) v r
  have hhigh : ∀ lo w v r, 48 ≤ lo → field n (48 - n) (setField lo w v r) =
      field n (48 - n) r := fun lo w v r h => field_setField_below (by omega) v r
  have hel0 : ∀ x r e, field n (48 - n) (Entry.el0 x r e) = field n (48 - n) e := by
    intro x r e
    unfold Entry.el0 Entry.setEl0Accessible Entry.setReadOnly Entry.setUnprivilegedExecuteNever
      Entry.setPrivilegedExecuteNever
    rw [hlow _ _ _ _ (by omega), hlow _ _ _ _ (by omega), hhigh _ _ _ _ (by omega),
      hhigh _ _ _ _ (by omega)]
  have hbase : field n (48 - n) (Entry.shared 3 (withPhysicalMemoryAttrs e cmb)) =
      field n (48 - n) e := by
    unfold Entry.shared withPhysicalMemoryAttrs Entry.setAccessFlag Entry.setNotGlobal
      Entry.setShareability Entry.setMemoryType
    rw [hlow _ _ _ _ (by omega), hlow _ _ _ _ (by omega), hlow _ _ _ _ (by omega),
      hlow _ _ _ _ (by omega)]
  unfold withVirtualMemoryAttrs
  simp only
  split <;> split
  all_goals exact (hel0 _ _ _).trans hbase

theorem type_attrs (e cmb vmb : ℕ) :
    Entry.type (withVirtualMemoryAttrs (withPhysicalMemoryAttrs e cmb) vmb) = Entry.type e := by
  have hup : ∀ lo w v r, 2 ≤ lo → field 0 2 (setField lo w v r) = field 0 2 r :=
    fun lo w v r h => field_setField_below (by omega) v r
  have hel0 : ∀ x r e, field 0 2 (Entry.el0 x r e) = field 0 2 e := by
    intro x r e
    unfold Entry.el0 Entry.setEl0Accessible Entry.setReadOnly Entry.setUnprivilegedExecuteNever
      Entry.setPrivilegedExecuteNever
    rw [hup _ _ _ _ (by omega), hup _ _ _ _ (by omega), hup _ _ _ _ (by omega),
      hup _ _ _ _ (by omega)]
  have hbase : field 0 2 (Entry.shared 3 (withPhysicalMemoryAttrs e cmb)) = field 0 2 e := by
    unfold Entry.shared withPhysicalMemoryAttrs Entry.setAccessFlag Entry.setNotGlobal
      Entry.setShareability Entry.setMemoryType
    rw [hup _ _ _ _ (by omega), hup _ _ _ _ (by omega), hup _ _ _ _ (by omega),
      hup _ _ _ _ (by omega)]
  unfold withVirtualMemoryAttrs Entry.type
  simp only
  split <;> split
  all_goals exact (hel0 _ _ _).trans hbase

/-- A leaf that maps all of the `2 ^ n` bytes with number `base` as the blocks `vs`
say, where `blk` are their memory blocks. -/
def RightLeaf (blk : ℕ → ℕ) (vs : List ℕ) (n base e : ℕ) : Prop :=
  ∀ va, va / 2 ^ n = base → ∃ v, vs.find? (fun v => Covers v va) = some v ∧
    field n (48 - n) e * 2 ^ n + va % 2 ^ n + Vmb.startPage v * 4096 =
      Cmb.startPage (blk v) * 4096 + va

/-- A block that starts and ends at multiples of `2 ^ n` bytes has all of the
`2 ^ n` bytes around an address that it has. -/
theorem covers_around {v fa va n : ℕ} (hn : n = 12 ∨ n = 21 ∨ n = 30) (hc : Covers v fa)
    (hvs : Vmb.startPage v % 2 ^ (n - 12) = 0) (hvc : Vmb.pageCount v % 2 ^ (n - 12) = 0)
    (hva : va / 2 ^ n = fa / 2 ^ n) : Covers v va := by
  unfold Covers at hc ⊢
  rcases hn with rfl | rfl | rfl <;> omega

/-- The entry of a fault is right for the whole of the memory it maps. -/
theorem rightLeaf_entry {k : Kernel} {v fa n t : ℕ} {vs : List ℕ} (hlow : LowStarts k vs)
    (hno : NoOverlap vs) (hv : v ∈ vs) (hc : Covers v fa) (hn : n = 12 ∨ n = 21 ∨ n = 30)
    (hvs : Vmb.startPage v % 2 ^ (n - 12) = 0) (hvc : Vmb.pageCount v % 2 ^ (n - 12) = 0)
    (hcs : Cmb.startPage (blockOf k v) % 2 ^ (n - 12) = 0) :
    RightLeaf (blockOf k) vs n (fa / 2 ^ n) (withVirtualMemoryAttrs (withPhysicalMemoryAttrs
      (Entry.setType t (blockAddress (blockOf k v) v fa n)) (blockOf k v)) v) := by
  intro va hva
  obtain ⟨hsv, hsc⟩ := hlow v hv
  have hcount : Vmb.pageCount v < 2 ^ 20 := field_lt _ _ _
  refine ⟨v, find?_covers hno hv (covers_around hn hc hvs hvc hva), ?_⟩
  have hfield : field n (48 - n) (Entry.setType t (blockAddress (blockOf k v) v fa n)) =
      field n (48 - n) (blockAddress (blockOf k v) v fa n) :=
    field_setField_above (by rcases hn with rfl | rfl | rfl <;> omega) _ _
  rw [field_attrs (by omega) (by omega), hfield]
  unfold field blockAddress
  rw [shl12_of_lt hsv, shl12_of_lt hsc]
  unfold Covers at hc
  rcases hn with rfl | rfl | rfl <;> omega

/-! ## The invariant of the tables -/

/-- The entries that hang the core's own tables. -/
def table2 (k : Kernel) : ℕ := Entry.subtableAt (k.layout.corePhysical + 8192)
def table3 (k : Kernel) : ℕ := Entry.subtableAt (k.layout.corePhysical + 4096)

/-- Both the virtual and the physical block are 1GB-aligned, or 2MB-aligned. -/
def Aligned1 (k : Kernel) (v : ℕ) : Prop :=
  isL1Aligned (Vmb.startPage v) (Vmb.pageCount v) ∧
    isL1Aligned (Cmb.startPage (blockOf k v)) (Cmb.pageCount (blockOf k v))

def Aligned2 (k : Kernel) (v : ℕ) : Prop :=
  isL2Aligned (Vmb.startPage v) (Vmb.pageCount v) ∧
    isL2Aligned (Cmb.startPage (blockOf k v)) (Cmb.pageCount (blockOf k v))

instance (k : Kernel) (v : ℕ) : Decidable (Aligned1 k v) := inferInstanceAs (Decidable (_ ∧ _))
instance (k : Kernel) (v : ℕ) : Decidable (Aligned2 k v) := inferInstanceAs (Decidable (_ ∧ _))

/-- The level-2 table is under slot `i` only and the level-3 table under its slot
`j` only, and every leaf is right for its place. A table that hangs nowhere is
empty; one that hangs somewhere was needed for a block there that is not
aligned. -/
structure TablesOk (k : Kernel) (vs : List ℕ) (i j : ℕ) : Prop where
  i_lt : i < 16
  j_lt : j < 512
  l1 : ∀ a < 16, k.l1 a = 0 ∨
    Entry.type (k.l1 a) = 1 ∧ RightLeaf (blockOf k) vs 30 a (k.l1 a) ∨
    k.l1 a = table2 k ∧ a = i
  l2 : ∀ b < 512, k.l2 b = 0 ∨
    Entry.type (k.l2 b) = 1 ∧ RightLeaf (blockOf k) vs 21 (i * 512 + b) (k.l2 b) ∨
    k.l2 b = table3 k ∧ b = j
  l3 : ∀ c < 512, k.l3 c = 0 ∨
    Entry.type (k.l3 c) = 3 ∧ RightLeaf (blockOf k) vs 12 ((i * 512 + j) * 512 + c) (k.l3 c)
  empty2 : k.l1 i ≠ table2 k → ∀ b < 512, k.l2 b = 0
  empty3 : k.l2 j ≠ table3 k → ∀ c < 512, k.l3 c = 0
  small2 : k.l1 i = table2 k → ∃ va v, va / 2 ^ 30 = i ∧
    vs.find? (fun v => Covers v va) = some v ∧ ¬ Aligned1 k v
  small3 : k.l2 j = table3 k → ∃ va v, va / 2 ^ 21 = i * 512 + j ∧
    vs.find? (fun v => Covers v va) = some v ∧ ¬ Aligned2 k v

theorem page_number (va : ℕ) : va / 2 ^ 21 * 512 + va / 2 ^ 12 % 512 = va / 2 ^ 12 := by
  omega

theorem type_subtableAt (a : ℕ) : Entry.type (Entry.subtableAt a) = 3 := field_setField 0 2 3 a

/-- What the hardware finds is a leaf of one of the three tables. -/
theorem TablesOk.leaf {k : Kernel} {vs : List ℕ} {i j va e n : ℕ} (h : TablesOk k vs i j)
    (hleaf : leaf k va = some (e, n)) : RightLeaf (blockOf k) vs n (va / 2 ^ n) e := by
  unfold El1.leaf at hleaf
  by_cases hva : va < 2 ^ 34
  swap
  · rw [if_neg hva] at hleaf
    cases hleaf
  simp only [hva, if_true] at hleaf
  have hl1 := h.l1 (va / 2 ^ 30) (by omega)
  split at hleaf
  · -- a 1GB block
    rename_i htype
    obtain ⟨rfl, rfl⟩ : k.l1 (va / 2 ^ 30) = e ∧ 30 = n := by simpa using hleaf
    rcases hl1 with h0 | ⟨-, hr⟩ | ⟨hs, -⟩
    · rw [h0] at htype
      exact absurd htype (by decide)
    · exact hr
    · rw [hs, table2, type_subtableAt] at htype
      omega
  split at hleaf
  swap
  · cases hleaf
  rename_i ht1 ht1'
  obtain ⟨hs1, hi⟩ : k.l1 (va / 2 ^ 30) = table2 k ∧ va / 2 ^ 30 = i := by
    rcases hl1 with h0 | ⟨ht, -⟩ | hs
    · rw [h0] at ht1'
      exact absurd ht1'.1 (by decide)
    · exact absurd ht ht1
    · exact hs
  have hl2 := h.l2 (va / 2 ^ 21 % 512) (by omega)
  have hb2 : i * 512 + va / 2 ^ 21 % 512 = va / 2 ^ 21 := by omega
  split at hleaf
  · -- a 2MB block
    rename_i htype
    obtain ⟨rfl, rfl⟩ : k.l2 (va / 2 ^ 21 % 512) = e ∧ 21 = n := by simpa using hleaf
    rcases hl2 with h0 | ⟨-, hr⟩ | ⟨hs, -⟩
    · rw [h0] at htype
      exact absurd htype (by decide)
    · rw [hb2] at hr
      exact hr
    · rw [hs, table3, type_subtableAt] at htype
      omega
  split at hleaf
  swap
  · cases hleaf
  rename_i ht2 ht2'
  have hj : va / 2 ^ 21 % 512 = j := by
    rcases hl2 with h0 | ⟨ht, -⟩ | hs
    · rw [h0] at ht2'
      exact absurd ht2'.1 (by decide)
    · exact absurd ht ht2
    · exact hs.2
  split at hleaf
  swap
  · cases hleaf
  -- a page
  rename_i htype
  obtain ⟨rfl, rfl⟩ : k.l3 (va / 2 ^ 12 % 512) = e ∧ 12 = n := by simpa using hleaf
  have hb3 : (i * 512 + j) * 512 + va / 2 ^ 12 % 512 = va / 2 ^ 12 := by
    rw [← hj, hb2]
    exact page_number va
  rcases h.l3 (va / 2 ^ 12 % 512) (by omega) with h0 | ⟨-, hr⟩
  · rw [h0] at htype
    exact absurd htype (by decide)
  · rw [hb3] at hr
    exact hr

/-! ## One store at a time -/

section Stores

variable {k : Kernel} {vs : List ℕ} {i j a b c e : ℕ}

theorem table_ne_zero (x : ℕ) : Entry.subtableAt x ≠ 0 := by
  intro h
  have := type_subtableAt x
  rw [h] at this
  exact absurd this (by decide)

theorem ne_table_of_type {x : ℕ} (h : Entry.type e = 1) : e ≠ Entry.subtableAt x := by
  rintro rfl
  rw [type_subtableAt] at h
  omega

/-- A 1GB block goes into a slot that does not hang the level-2 table. -/
theorem TablesOk.setL1_block (h : TablesOk k vs i j) (ha : a < 16) (ht : Entry.type e = 1)
    (hr : RightLeaf (blockOf k) vs 30 a e) (hnot : k.l1 a ≠ table2 k) :
    TablesOk (setL1 k a e) vs i j := by
  have hne : e ≠ table2 k := ne_table_of_type ht
  rw [setL1, if_pos ha]
  refine ⟨h.i_lt, h.j_lt, fun a' ha' => ?_, h.l2, h.l3, fun hi => h.empty2 ?_, h.empty3,
    fun hi => h.small2 ?_, h.small3⟩
  · by_cases heq : a' = a
    · subst heq
      simp only [Function.update_self]
      exact Or.inr (Or.inl ⟨ht, hr⟩)
    · simp only [Function.update_of_ne heq]
      exact h.l1 a' ha'
  · by_cases heq : i = a
    · rw [heq]
      exact hnot
    · rw [← Function.update_of_ne heq e k.l1]
      exact hi
  · by_cases heq : i = a
    · subst heq
      simp only [Function.update_self] at hi
      exact absurd hi hne
    · rw [← Function.update_of_ne heq e k.l1]
      exact hi

/-- The level-2 table is hung under a slot, and under no other. -/
theorem TablesOk.setL1_table (h : TablesOk k vs i j) (ha : a < 16)
    (hown : ∀ a' < 16, a' ≠ a → k.l1 a' ≠ table2 k)
    (hsmall : ∃ va v, va / 2 ^ 30 = a ∧ vs.find? (fun v => Covers v va) = some v ∧
      ¬ Aligned1 k v) : TablesOk (setL1 k a (table2 k)) vs a j := by
  rw [setL1, if_pos ha]
  have hl1 : ∀ a' < 16, Function.update k.l1 a (table2 k) a' = 0 ∨
      Entry.type (Function.update k.l1 a (table2 k) a') = 1 ∧
        RightLeaf (blockOf k) vs 30 a' (Function.update k.l1 a (table2 k) a') ∨
      Function.update k.l1 a (table2 k) a' = table2 k ∧ a' = a := by
    intro a' ha'
    by_cases heq : a' = a
    · subst heq
      exact Or.inr (Or.inr ⟨Function.update_self .., rfl⟩)
    · rw [Function.update_of_ne heq]
      rcases h.l1 a' ha' with h0 | hb | hs
      · exact Or.inl h0
      · exact Or.inr (Or.inl hb)
      · exact absurd hs.1 (hown a' ha' heq)
  have hempty2 : Function.update k.l1 a (table2 k) a ≠ table2 k → ∀ b < 512, k.l2 b = 0 :=
    fun hne => absurd (Function.update_self ..) hne
  by_cases hi : k.l1 i = table2 k
  · -- it is there already
    obtain rfl : i = a := by
      by_contra hne
      exact hown i h.i_lt hne hi
    exact ⟨h.i_lt, h.j_lt, hl1, h.l2, h.l3, hempty2, h.empty3, fun _ => hsmall, h.small3⟩
  · -- it is not in use, and empty
    have h2 := h.empty2 hi
    have hj : k.l2 j ≠ table3 k := by
      rw [h2 j h.j_lt]
      exact (table_ne_zero _).symm
    have h3 := h.empty3 hj
    exact ⟨ha, h.j_lt, hl1, fun b hb => Or.inl (h2 b hb), fun c hc => Or.inl (h3 c hc), hempty2,
      fun _ => h3, fun _ => hsmall, fun hs => absurd hs hj⟩

/-- A 2MB block goes into a slot that does not hang the level-3 table. -/
theorem TablesOk.setL2_block (h : TablesOk k vs i j) (hi : k.l1 i = table2 k) (hb : b < 512)
    (ht : Entry.type e = 1) (hr : RightLeaf (blockOf k) vs 21 (i * 512 + b) e)
    (hnot : k.l2 b ≠ table3 k) : TablesOk (setL2 k b e) vs i j := by
  have hne : e ≠ table3 k := ne_table_of_type ht
  refine ⟨h.i_lt, h.j_lt, h.l1, fun b' hb' => ?_, h.l3, fun hi' => absurd hi hi',
    fun hj => h.empty3 ?_, h.small2, fun hj => h.small3 ?_⟩
  · by_cases heq : b' = b
    · subst heq
      simp only [setL2, Function.update_self]
      exact Or.inr (Or.inl ⟨ht, hr⟩)
    · simp only [setL2, Function.update_of_ne heq]
      exact h.l2 b' hb'
  · by_cases heq : j = b
    · rw [heq]
      exact hnot
    · rw [← Function.update_of_ne heq e k.l2]
      exact hj
  · by_cases heq : j = b
    · subst heq
      simp only [setL2, Function.update_self] at hj
      exact absurd hj hne
    · rw [← Function.update_of_ne heq e k.l2]
      exact hj

/-- The level-3 table is hung under a slot, and under no other. -/
theorem TablesOk.setL2_table (h : TablesOk k vs i j) (hi : k.l1 i = table2 k) (hb : b < 512)
    (hown : ∀ b' < 512, b' ≠ b → k.l2 b' ≠ table3 k)
    (hsmall : ∃ va v, va / 2 ^ 21 = i * 512 + b ∧ vs.find? (fun v => Covers v va) = some v ∧
      ¬ Aligned2 k v) : TablesOk (setL2 k b (table3 k)) vs i b := by
  have hl2 : ∀ b' < 512, (setL2 k b (table3 k)).l2 b' = 0 ∨
      Entry.type ((setL2 k b (table3 k)).l2 b') = 1 ∧
        RightLeaf (blockOf k) vs 21 (i * 512 + b') ((setL2 k b (table3 k)).l2 b') ∨
      (setL2 k b (table3 k)).l2 b' = table3 k ∧ b' = b := by
    intro b' hb'
    by_cases heq : b' = b
    · subst heq
      exact Or.inr (Or.inr ⟨Function.update_self .., rfl⟩)
    · simp only [setL2, Function.update_of_ne heq]
      rcases h.l2 b' hb' with h0 | hb | hs
      · exact Or.inl h0
      · exact Or.inr (Or.inl hb)
      · exact absurd hs.1 (hown b' hb' heq)
  have hempty3 : (setL2 k b (table3 k)).l2 b ≠ table3 k → ∀ c < 512, k.l3 c = 0 :=
    fun hne => absurd (Function.update_self ..) hne
  by_cases hj : k.l2 j = table3 k
  · obtain rfl : j = b := by
      by_contra hne
      exact hown j h.j_lt hne hj
    exact ⟨h.i_lt, h.j_lt, h.l1, hl2, h.l3, fun hi' => absurd hi hi', hempty3, h.small2,
      fun _ => hsmall⟩
  · have h3 := h.empty3 hj
    exact ⟨h.i_lt, hb, h.l1, hl2, fun c hc => Or.inl (h3 c hc), fun hi' => absurd hi hi',
      hempty3, h.small2, fun _ => hsmall⟩

/-- A page goes into the level-3 table. -/
theorem TablesOk.setL3_page (h : TablesOk k vs i j) (hj : k.l2 j = table3 k)
    (ht : Entry.type e = 3) (hr : RightLeaf (blockOf k) vs 12 ((i * 512 + j) * 512 + c) e) :
    TablesOk (setL3 k c e) vs i j := by
  refine ⟨h.i_lt, h.j_lt, h.l1, h.l2, fun c' hc' => ?_, h.empty2, fun hj' => absurd hj hj',
    h.small2, h.small3⟩
  by_cases heq : c' = c
  · subst heq
    simp only [setL3, Function.update_self]
    exact Or.inr ⟨ht, hr⟩
  · simp only [setL3, Function.update_of_ne heq]
    exact h.l3 c' hc'

theorem TablesOk.eq_of_table2 (h : TablesOk k vs i j) (ha : a < 16) (ht : k.l1 a = table2 k) :
    a = i := by
  rcases h.l1 a ha with h0 | ⟨ht', -⟩ | hs
  · exact absurd (ht.symm.trans h0) (table_ne_zero _)
  · exact absurd ht (ne_table_of_type ht')
  · exact hs.2

theorem TablesOk.eq_of_table3 (h : TablesOk k vs i j) (hb : b < 512) (ht : k.l2 b = table3 k) :
    b = j := by
  rcases h.l2 b hb with h0 | ⟨ht', -⟩ | hs
  · exact absurd (ht.symm.trans h0) (table_ne_zero _)
  · exact absurd ht (ne_table_of_type ht')
  · exact hs.2

end Stores

/-! ## A fault -/

theorem Aligned1.mod {k : Kernel} {v : ℕ} (h : Aligned1 k v) :
    Vmb.startPage v % 2 ^ 18 = 0 ∧ Vmb.pageCount v % 2 ^ 18 = 0 ∧
      Cmb.startPage (blockOf k v) % 2 ^ 18 = 0 := by
  simp only [Aligned1, isL1Aligned, decide_eq_true_eq] at h
  exact ⟨h.1.1, h.1.2, h.2.1⟩

theorem Aligned2.mod {k : Kernel} {v : ℕ} (h : Aligned2 k v) :
    Vmb.startPage v % 2 ^ 9 = 0 ∧ Vmb.pageCount v % 2 ^ 9 = 0 ∧
      Cmb.startPage (blockOf k v) % 2 ^ 9 = 0 := by
  simp only [Aligned2, isL2Aligned, decide_eq_true_eq] at h
  exact ⟨h.1.1, h.1.2, h.2.1⟩

/-- The tables that a fault at `fa` needs hang nowhere else. -/
def OwnTables (k : Kernel) (v fa : ℕ) : Prop :=
  ¬ Aligned1 k v → (∀ a < 16, a ≠ fa / 2 ^ 30 → k.l1 a ≠ table2 k) ∧
    (¬ Aligned2 k v → ∀ b < 512, b ≠ fa / 2 ^ 21 % 512 → k.l2 b ≠ table3 k)

/-- A fault keeps the invariant, whichever of the three paths it takes. -/
theorem mapBlock_tablesOk {k : Kernel} {vs : List ℕ} {i j v fa : ℕ} (h : TablesOk k vs i j)
    (hphys : k.physicalAddress = k.layout.corePhysical) (hlow : LowStarts k vs)
    (hno : NoOverlap vs) (hv : v ∈ vs) (hc : Covers v fa) (hfa : fa < 2 ^ 34)
    (hown : OwnTables k v fa) :
    ∃ i' j', TablesOk (mapBlock k (blockOf k v) v fa) vs i' j' := by
  have hi1 : fa / 2 ^ 30 % 512 = fa / 2 ^ 30 := by omega
  have hi1lt : fa / 2 ^ 30 < 16 := by omega
  have hi2lt : fa / 2 ^ 21 % 512 < 512 := by omega
  have hi2 : fa / 2 ^ 30 * 512 + fa / 2 ^ 21 % 512 = fa / 2 ^ 21 := by omega
  have ht1 : ∀ x, Entry.type (withVirtualMemoryAttrs (withPhysicalMemoryAttrs
      (Entry.blockAt x) (blockOf k v)) v) = 1 := by
    intro x
    rw [type_attrs]
    exact field_setField 0 2 1 x
  have hfind := find?_covers hno hv hc
  have hcond1 : Aligned1 k v ↔ isL1Aligned (Vmb.startPage v) (Vmb.pageCount v) ∧
    isL1Aligned (Cmb.startPage (blockOf k v)) (Cmb.pageCount (blockOf k v)) := Iff.rfl
  have hcond2 : Aligned2 k v ↔ isL2Aligned (Vmb.startPage v) (Vmb.pageCount v) ∧
    isL2Aligned (Cmb.startPage (blockOf k v)) (Cmb.pageCount (blockOf k v)) := Iff.rfl
  by_cases hal1 : Aligned1 k v
  · -- a 1GB block
    obtain ⟨h₁, h₂, h₃⟩ := hal1.mod
    have hr := rightLeaf_entry (t := 1) hlow hno hv hc (n := 30) (by omega) h₁ h₂ h₃
    have hmap : mapBlock k (blockOf k v) v fa = setL1 k (fa / 2 ^ 30)
        (withVirtualMemoryAttrs (withPhysicalMemoryAttrs
          (Entry.blockAt (blockAddress (blockOf k v) v fa 30)) (blockOf k v)) v) := by
      unfold mapBlock
      simp only [hi1, ← hcond1, hal1, if_true]
    rw [hmap]
    refine ⟨i, j, h.setL1_block hi1lt (ht1 _) hr fun htab => ?_⟩
    -- a smaller block in the same 1GB would overlap this one
    have hii := h.eq_of_table2 hi1lt htab
    obtain ⟨va, w, hva, hw, hnal⟩ := h.small2 (hii ▸ htab)
    have hcw := find?_covers hno hv
      (covers_around (n := 30) (by omega) hc h₁ h₂ (hva.trans hii.symm))
    rw [hw] at hcw
    exact hnal (Option.some.inj hcw ▸ hal1)
  obtain ⟨hown2, hown3⟩ := hown hal1
  set k₁ := setL1 k (fa / 2 ^ 30) (table2 k) with hk₁
  have hok₁ : TablesOk k₁ vs (fa / 2 ^ 30) j :=
    h.setL1_table hi1lt hown2 ⟨fa, v, rfl, hfind, hal1⟩
  have hk₁' : k₁ = { k with l1 := Function.update k.l1 (fa / 2 ^ 30) (table2 k) } := by
    rw [hk₁, setL1, if_pos hi1lt]
  have hhang : k₁.l1 (fa / 2 ^ 30) = table2 k₁ := by
    rw [hk₁']
    exact Function.update_self ..
  have htab2 : Entry.subtableAt (l2Physical k) = table2 k := by
    rw [l2Physical, hphys, table2]
  by_cases hal2 : Aligned2 k v
  · -- a 2MB block
    obtain ⟨h₁, h₂, h₃⟩ := hal2.mod
    have hr := rightLeaf_entry (t := 1) hlow hno hv hc (n := 21) (by omega) h₁ h₂ h₃
    have hmap : mapBlock k (blockOf k v) v fa = setL2 k₁ (fa / 2 ^ 21 % 512)
        (withVirtualMemoryAttrs (withPhysicalMemoryAttrs
          (Entry.blockAt (blockAddress (blockOf k v) v fa 21)) (blockOf k v)) v) := by
      unfold mapBlock
      simp only [hi1, htab2, ← hcond1, ← hcond2, hal1, hal2, if_true, if_false, ← hk₁]
    rw [hmap]
    refine ⟨_, j, hok₁.setL2_block hhang hi2lt (ht1 _) ?_ fun htab => ?_⟩
    · rw [hk₁', hi2]
      exact hr
    · have hjj := hok₁.eq_of_table3 hi2lt htab
      obtain ⟨va, w, hva, hw, hnal⟩ := hok₁.small3 (hjj ▸ htab)
      rw [← hjj, hi2] at hva
      have hcw := find?_covers hno hv (covers_around (n := 21) (by omega) hc h₁ h₂ hva)
      rw [hw] at hcw
      rw [hk₁'] at hnal
      exact hnal (Option.some.inj hcw ▸ hal2)
  · -- a page
    have hr := rightLeaf_entry (t := 3) hlow hno hv hc (n := 12) (by omega) (Nat.mod_one _)
      (Nat.mod_one _) (Nat.mod_one _)
    have htab3 : Entry.subtableAt (l3Physical k₁) = table3 k₁ := by
      rw [hk₁']
      simp only [l3Physical, table3, hphys]
    have hmap : mapBlock k (blockOf k v) v fa =
        setL3 (setL2 k₁ (fa / 2 ^ 21 % 512) (table3 k₁)) (fa / 2 ^ 12 % 512)
        (withVirtualMemoryAttrs (withPhysicalMemoryAttrs
          (Entry.pageAt (blockAddress (blockOf k v) v fa 12)) (blockOf k v)) v) := by
      unfold mapBlock
      simp only [hi1, htab2, ← hcond1, ← hcond2, hal1, hal2, if_false, ← hk₁, htab3]
    have hok₂ : TablesOk (setL2 k₁ (fa / 2 ^ 21 % 512) (table3 k₁)) vs (fa / 2 ^ 30)
        (fa / 2 ^ 21 % 512) := by
      refine hok₁.setL2_table hhang hi2lt ?_ ⟨fa, v, hi2.symm, hfind, ?_⟩
      · rw [hk₁']
        exact hown3 hal2
      · rw [hk₁']
        exact hal2
    rw [hmap]
    refine ⟨_, _, hok₂.setL3_page (Function.update_self ..) ?_ ?_⟩
    · rw [type_attrs]
      exact field_setField 0 2 3 _
    · rw [hi2, page_number, hk₁']
      exact hr

/-! ## Runs -/

inductive MapOp where
  /-- `load_this_map( m )` -/
  | load (m : ℕ)
  /-- `change_map( thread, m )` -/
  | change (thread m : ℕ)
  /-- a fault of a thread of the loaded map -/
  | fault (thread fa : ℕ)

/-- The maps that are filled in by faults. -/
def Ordinary (m : ℕ) : Prop := m ≠ 0 ∧ m ≠ systemMapIndex ∧ m ≠ memoryAllocatorMapIndex

instance (m : ℕ) : Decidable (Ordinary m) := inferInstanceAs (Decidable (_ ∧ _))

/-- An ordinary map has a table of blocks, whose starts are below 2GB. -/
def IsMap (k : Kernel) (m : ℕ) : Prop := Ordinary m → ∃ vs, MapTable k m vs ∧ LowStarts k vs

def MapOp.Step (k : Kernel) : MapOp → Kernel → Prop
  | .load m, k' => IsMap k m ∧ k' = loadThisMap k m
  | .change thread m, k' => thread ∈ k.contexts ∧ IsMap k m ∧ changeMap k thread m = .ok k' ()
  | .fault thread fa, k' =>
    k.currentMap thread = k.loadedMap ∧ findAndMapMemory k thread fa = .ok k' ()

/-- Maps are loaded and faults handled, from cleared tables. -/
def mapSystem : System Kernel MapOp where
  init k := (∀ i, k.l1 i = 0) ∧ (∀ i, k.l2 i = 0) ∧ (∀ i, k.l3 i = 0) ∧ k.loadedMap = 0 ∧
    k.physicalAddress = k.layout.corePhysical
  step := MapOp.Step

/-- The faults that keep the tables right: at an address that the tables reach,
in a map whose blocks do not overlap, and no table that is needed hangs
elsewhere. -/
def KeepsTables (k : Kernel) : MapOp → Prop
  | .fault _ fa => fa < 2 ^ 34 ∧ (∀ vs, MapTable k k.loadedMap vs → NoOverlap vs) ∧
      ∀ v, findVmb k k.loadedMap fa = some (some v) → OwnTables k v fa
  | _ => True

/-- What does not depend on the tables. -/
structure SameMaps (k k' : Kernel) : Prop where
  layout : k'.layout = k.layout
  contexts : k'.contexts = k.contexts
  heapBottom : k'.heapBottom = k.heapBottom
  interfaces : k'.interfaces = k.interfaces
  mem : k'.mem = k.mem
  physicalAddress : k'.physicalAddress = k.physicalAddress

theorem TableAt.congr {k k' : Kernel} {vs : List ℕ} (h : SameMaps k k') (a : ℕ)
    (ht : TableAt k vs a) : TableAt k' vs a := by
  induction vs generalizing a with
  | nil =>
    obtain ⟨hp, hal, hz⟩ := ht
    exact ⟨(place_congr h.layout h.contexts a).trans hp, hal, by rw [h.mem]; exact hz⟩
  | cons v vs ih =>
    obtain ⟨hp, hal, hv, hpos, htl⟩ := ht
    exact ⟨(place_congr h.layout h.contexts a).trans hp, hal, by rw [h.mem]; exact hv, hpos,
      ih (a + 8) htl⟩

theorem MapTable.congr {k k' : Kernel} {m : ℕ} {vs : List ℕ} (h : SameMaps k k')
    (ht : MapTable k m vs) : MapTable k' m vs := by
  refine ⟨?_, ?_, ?_⟩
  · rw [h.interfaces, h.heapBottom]
    exact ht.offset_le
  · rw [h.interfaces]
    exact ht.length_lt
  · rw [h.interfaces]
    exact ht.table.congr h _

theorem SameMaps.blockOf {k k' : Kernel} (h : SameMaps k k') : blockOf k' = blockOf k := by
  unfold El1.blockOf
  rw [h.interfaces]

theorem mapBlock_same {k : Kernel} {cmb vmb fa : ℕ} (hfa : fa < 2 ^ 34) :
    SameMaps k (mapBlock k cmb vmb fa) ∧ (mapBlock k cmb vmb fa).loadedMap = k.loadedMap := by
  have hi1 : fa / 2 ^ 30 % 512 < 16 := by omega
  unfold mapBlock
  simp only [setL1, hi1, if_true]
  split
  · exact ⟨⟨rfl, rfl, rfl, rfl, rfl, rfl⟩, rfl⟩
  · split
    · exact ⟨⟨rfl, rfl, rfl, rfl, rfl, rfl⟩, rfl⟩
    · exact ⟨⟨rfl, rfl, rfl, rfl, rfl, rfl⟩, rfl⟩

theorem SameMaps.trans {k k' k'' : Kernel} (h : SameMaps k k') (h' : SameMaps k' k'') :
    SameMaps k k'' :=
  ⟨h'.layout.trans h.layout, h'.contexts.trans h.contexts, h'.heapBottom.trans h.heapBottom,
    h'.interfaces.trans h.interfaces, h'.mem.trans h.mem,
    h'.physicalAddress.trans h.physicalAddress⟩

theorem setL1_same {k : Kernel} {i : ℕ} (e : ℕ) (h : i < 16) : SameMaps k (setL1 k i e) := by
  rw [setL1, if_pos h]
  exact ⟨rfl, rfl, rfl, rfl, rfl, rfl⟩

theorem loadSystemMap_same (k : Kernel) : SameMaps k (loadSystemMap k) := by
  refine (setL1_same (Entry.subtableAt (l2Physical k)) (by decide : 0 < 16)).trans ?_
  unfold loadSystemMap
  exact ⟨rfl, rfl, rfl, rfl, rfl, rfl⟩

theorem loadMemoryAllocatorMap_same (k : Kernel) : SameMaps k (loadMemoryAllocatorMap k) := by
  have hlt : maxPhysicalMemoryGb < 16 := by decide
  unfold loadMemoryAllocatorMap
  simp only [setL1, hlt, if_true]
  exact ⟨rfl, rfl, rfl, rfl, rfl, rfl⟩

theorem clearCoreTranslationTables_same (k : Kernel) :
    SameMaps k (clearCoreTranslationTables k) := ⟨rfl, rfl, rfl, rfl, rfl, rfl⟩

theorem loadThisMap_same (k : Kernel) (m : ℕ) : SameMaps k (loadThisMap k m) := by
  unfold loadThisMap
  split
  swap
  · exact ⟨rfl, rfl, rfl, rfl, rfl, rfl⟩
  have h₁ := clearCoreTranslationTables_same k
  generalize clearCoreTranslationTables k = k₁ at h₁
  have h₂ : SameMaps k₁ (if m = memoryAllocatorMapIndex then loadMemoryAllocatorMap k₁
      else k₁) := by
    split
    · exact loadMemoryAllocatorMap_same k₁
    · exact ⟨rfl, rfl, rfl, rfl, rfl, rfl⟩
  simp only
  generalize (if m = memoryAllocatorMapIndex then loadMemoryAllocatorMap k₁ else k₁) = k₂ at h₂
  have h₃ : SameMaps k₂ (if m = systemMapIndex then loadSystemMap k₂ else k₂) := by
    split
    · exact loadSystemMap_same k₂
    · exact ⟨rfl, rfl, rfl, rfl, rfl, rfl⟩
  generalize (if m = systemMapIndex then loadSystemMap k₂ else k₂) = k₃ at h₃
  exact ((h₁.trans h₂).trans h₃).trans ⟨rfl, rfl, rfl, rfl, rfl, rfl⟩

/-- An ordinary map that was not loaded starts with empty tables. -/
theorem loadThisMap_empty {k : Kernel} {m : ℕ} (hne : k.loadedMap ≠ m) (ho : Ordinary m) :
    (∀ a < 16, (loadThisMap k m).l1 a = 0) ∧ (∀ b < 512, (loadThisMap k m).l2 b = 0) ∧
      ∀ c < 512, (loadThisMap k m).l3 c = 0 := by
  unfold loadThisMap
  simp only [if_pos hne, if_neg ho.2.1, if_neg ho.2.2]
  refine ⟨fun a ha => ?_, fun b hb => ?_, fun c hc => ?_⟩
  · simp [clearCoreTranslationTables, fill, ha, Entry.invalid]
  · simp [clearCoreTranslationTables, fill, hb, Entry.invalid]
  · simp [clearCoreTranslationTables, fill, hc, Entry.invalid]

theorem tablesOk_empty {k : Kernel} (vs : List ℕ) (h1 : ∀ a < 16, k.l1 a = 0)
    (h2 : ∀ b < 512, k.l2 b = 0) (h3 : ∀ c < 512, k.l3 c = 0) : TablesOk k vs 0 0 := by
  refine ⟨by decide, by decide, fun a ha => Or.inl (h1 a ha), fun b hb => Or.inl (h2 b hb),
    fun c hc => Or.inl (h3 c hc), fun _ => h2, fun _ => h3, fun hs => ?_, fun hs => ?_⟩
  · exact absurd (hs.symm.trans (h1 0 (by decide))) (table_ne_zero _)
  · exact absurd (hs.symm.trans (h2 0 (by decide))) (table_ne_zero _)

/-- The inductive invariant of a run. -/
def MapsInv (k : Kernel) : Prop :=
  k.physicalAddress = k.layout.corePhysical ∧
  (Ordinary k.loadedMap → ∃ vs i j, MapTable k k.loadedMap vs ∧ LowStarts k vs ∧
    TablesOk k vs i j)

theorem loadThisMap_inv {k : Kernel} {m : ℕ} (h : MapsInv k) (hm : IsMap k m) :
    MapsInv (loadThisMap k m) := by
  by_cases hne : k.loadedMap = m
  · rw [loadThisMap_self hne]
    exact h
  · have hsame := loadThisMap_same k m
    refine ⟨?_, fun ho => ?_⟩
    · rw [hsame.physicalAddress, hsame.layout]
      exact h.1
    · rw [loadThisMap_loadedMap] at ho ⊢
      obtain ⟨vs, ht, hl⟩ := hm ho
      obtain ⟨h1, h2, h3⟩ := loadThisMap_empty hne ho
      refine ⟨vs, 0, 0, ht.congr hsame, ?_, tablesOk_empty vs h1 h2 h3⟩
      unfold LowStarts
      rw [hsame.blockOf]
      exact hl

theorem changeMap_inv {k k' : Kernel} {thread m : ℕ} (h : MapsInv k)
    (ht : thread ∈ k.contexts) (hm : IsMap k m) (hk : changeMap k thread m = .ok k' ()) :
    MapsInv k' := by
  rw [changeMap_eq] at hk
  split at hk
  · cases hk
  split at hk
  · cases hk
  obtain rfl := (Outcome.ok.inj hk).1
  have hload := loadThisMap_inv h hm
  rw [← (loadThisMap_same k m).contexts] at ht
  generalize loadThisMap k m = k₁ at hload ht
  rw [Kernel.setCurrentMap, setFld_of_mem ht]
  generalize setCtx k₁.ctx thread 39 (setField 32 32 m (k₁.fld thread 39)) = c
  have hsame : SameMaps k₁ (k₁.withCtx c) := ⟨rfl, rfl, rfl, rfl, rfl, rfl⟩
  refine ⟨hload.1, fun ho => ?_⟩
  obtain ⟨vs, i, j, htab, hlow, hok⟩ := hload.2 ho
  exact ⟨vs, i, j, htab.congr hsame, hlow, ⟨hok.i_lt, hok.j_lt, hok.l1, hok.l2, hok.l3,
    hok.empty2, hok.empty3, hok.small2, hok.small3⟩⟩

theorem fault_inv {k k' : Kernel} {thread fa : ℕ} (h : MapsInv k)
    (hmap : k.currentMap thread = k.loadedMap) (hkeep : KeepsTables k (.fault thread fa))
    (hk : findAndMapMemory k thread fa = .ok k' ()) : MapsInv k' := by
  obtain ⟨hfa, hno, hown⟩ := hkeep
  unfold findAndMapMemory at hk
  simp only [hmap] at hk
  split at hk
  · cases hk
  split at hk
  · cases hk
  split at hk
  · cases hk
  · cases hk
  rename_i v hfind
  split at hk
  · cases hk
  rename_i provider hprov
  split at hk
  swap
  · cases hk
  obtain rfl := (Outcome.ok.inj hk).1
  have hobj : provider.object = blockOf k v := by
    have hlt : Vmb.memoryBlock v < 2 ^ 18 := field_lt _ _ _
    unfold interfaceFromIndex at hprov
    split at hprov
    · cases hprov
    · rw [Nat.mod_eq_of_lt (by omega)] at hprov
      rw [← Option.some.inj hprov]
      rfl
  rw [hobj]
  -- the entry found covers the address, so `map_block` writes what the tables need
  obtain ⟨hsame, hloaded⟩ := mapBlock_same (k := k) hfa
  refine ⟨?_, fun ho => ?_⟩
  · rw [hsame.physicalAddress, hsame.layout]
    exact h.1
  · rw [hloaded] at ho ⊢
    obtain ⟨vs, i, j, htab, hlow, hok⟩ := h.2 ho
    have hfind64 : El1.findVmb k k.loadedMap fa = _ := htab.findVmb (by omega)
    rw [hfind64] at hfind
    have hfind := Option.some.inj hfind
    have hcov : Covers v fa := by simpa using List.find?_some hfind
    obtain ⟨i', j', hok'⟩ := mapBlock_tablesOk hok h.1 hlow (hno vs htab)
      (List.mem_of_find?_eq_some hfind) hcov hfa
      (hown v (by rw [hfind64, hfind]))
    refine ⟨vs, i', j', htab.congr hsame, ?_, hok'⟩
    unfold LowStarts
    rw [hsame.blockOf]
    exact hlow

/-- In every run whose faults keep the tables right, what the tables say about an
address of a loaded ordinary map is what the map has there. -/
theorem run_translated {k : Kernel} (h : (mapSystem.restrict KeepsTables).Reachable k)
    (ho : Ordinary k.loadedMap) (va pa : ℕ) (hw : walk k va = some pa) :
    Translated k k.loadedMap va pa := by
  have hinv : MapsInv k := by
    refine h.invariant (P := MapsInv) ?_ ?_
    · rintro k₀ ⟨-, -, -, h0, hphys⟩
      exact ⟨hphys, fun ho => absurd h0 ho.1⟩
    · rintro k₀ op k₁ hinv ⟨hkeep, hstep⟩
      cases op with
      | load m =>
        obtain ⟨hm, rfl⟩ := hstep
        exact loadThisMap_inv hinv hm
      | change thread m =>
        obtain ⟨ht, hm, hk⟩ := hstep
        exact changeMap_inv hinv ht hm hk
      | fault thread fa =>
        obtain ⟨hmap, hk⟩ := hstep
        exact fault_inv hinv hmap hkeep hk
  obtain ⟨vs, i, j, htab, -, hok⟩ := hinv.2 ho
  unfold walk at hw
  obtain ⟨⟨e, n⟩, hleaf, rfl⟩ := Option.map_eq_some_iff.1 hw
  obtain ⟨v, hv, heq⟩ := hok.leaf hleaf va rfl
  have hva := leaf_low hleaf
  exact ⟨v, by rw [htab.findVmb (by omega), hv], heq⟩

/-! ### A map with blocks in two regions of 2MB -/

/-- Map 3 has one page at 0 and one at 2MB, in the memory blocks of interfaces 4
and 5; it has one thread. -/
def twoRegions : Kernel :=
  { Kernel.boot with
    contexts := [startAddress + 0x1ffda0]
    ctx := fun _ w => if w = 39 then 3 * 2 ^ 32 else 0
    heapBottom := 0x1ffda0
    interfaces := fun i =>
      if i = 3 then ⟨3, systemMapIndex, systemServiceMap, 6 + 3 * 2 ^ 32 + 12 * 2 ^ 52⟩
      else if i = 4 then ⟨3, systemMapIndex, systemServicePhysicalMemoryBlock,
        0x100 + 1 * 2 ^ 24 + 5 * 2 ^ 61⟩
      else if i = 5 then ⟨3, systemMapIndex, systemServicePhysicalMemoryBlock,
        0x200 + 1 * 2 ^ 24 + 5 * 2 ^ 61⟩
      else Kernel.boot.interfaces i
    mem := fun a =>
      if a = startAddress + 0x1fffa0 then 0 + 1 * 2 ^ 24 + 4 * 2 ^ 46
      else if a = startAddress + 0x1fffa8 then 512 + 1 * 2 ^ 24 + 5 * 2 ^ 46
      else 0 }

/-- The blocks of map 3. -/
def twoRegionsVmbs : List ℕ := [0 + 1 * 2 ^ 24 + 4 * 2 ^ 46, 512 + 1 * 2 ^ 24 + 5 * 2 ^ 46]

theorem twoRegions_isMap : IsMap twoRegions 3 := by
  intro _
  refine ⟨twoRegionsVmbs, ⟨by decide +kernel, by decide +kernel, by decide +kernel⟩, ?_⟩
  intro v hv
  revert v
  decide +kernel

/-- After one fault, the page at 0 is translated to its own memory block. -/
theorem run_translated_one_region : ∃ k, walk k 0 = some 0x100000 ∧
    Translated k k.loadedMap 0 0x100000 := by
  have h0 : (mapSystem.restrict KeepsTables).Reachable twoRegions :=
    .init ⟨fun _ => rfl, fun _ => rfl, fun _ => rfl, rfl, rfl⟩
  have h1 : (mapSystem.restrict KeepsTables).Reachable (loadThisMap twoRegions 3) :=
    .step (i := .load 3) h0 ⟨trivial, twoRegions_isMap, rfl⟩
  have hempty := loadThisMap_empty (k := twoRegions) (m := 3) (by decide +kernel) (by decide)
  have htab : MapTable (loadThisMap twoRegions 3) 3 twoRegionsVmbs :=
    ⟨by decide +kernel, by decide +kernel, by decide +kernel⟩
  set t := startAddress + 0x1ffda0 with ht
  set k₁ := loadThisMap twoRegions 3 with hk₁
  have hkeep : KeepsTables k₁ (.fault t 0) := by
    refine ⟨by decide, fun vs hvs => ?_, fun v _ _ => ⟨fun a ha _ => ?_, fun _ b hb _ => ?_⟩⟩
    · rw [loadThisMap_loadedMap] at hvs
      rw [hvs.table.unique _ htab.table]
      unfold NoOverlap
      decide +kernel
    · rw [hempty.1 a ha]
      exact (table_ne_zero _).symm
    · rw [hempty.2.1 b hb]
      exact (table_ne_zero _).symm
  have h2 : (mapSystem.restrict KeepsTables).Reachable (findAndMapMemory k₁ t 0).kernel :=
    .step (i := .fault t 0) h1
      ⟨hkeep, by decide +kernel, Outcome.eq_ok (by decide +kernel)⟩
  exact ⟨_, by decide +kernel, run_translated h2 (by decide +kernel) 0 0x100000
    (by decide +kernel)⟩

/-- After a fault in each region, the page at 0 is translated to the page of the
other region. -/
theorem two_regions_mistranslated : ∃ k pa, mapSystem.Reachable k ∧ Ordinary k.loadedMap ∧
    walk k 0 = some pa ∧ ¬ Translated k k.loadedMap 0 pa := by
  have h0 : mapSystem.Reachable twoRegions :=
    .init ⟨fun _ => rfl, fun _ => rfl, fun _ => rfl, rfl, rfl⟩
  have h1 : mapSystem.Reachable (loadThisMap twoRegions 3) :=
    .step (i := .load 3) h0 ⟨twoRegions_isMap, rfl⟩
  set t := startAddress + 0x1ffda0 with ht
  set k₁ := loadThisMap twoRegions 3 with hk₁
  have h2 : mapSystem.Reachable (findAndMapMemory k₁ t 0).kernel :=
    .step (i := .fault t 0) h1 ⟨by decide +kernel, Outcome.eq_ok (by decide +kernel)⟩
  set k₂ := (findAndMapMemory k₁ t 0).kernel with hk₂
  have h3 : mapSystem.Reachable (findAndMapMemory k₂ t 0x200000).kernel :=
    .step (i := .fault t 0x200000) h2 ⟨by decide +kernel, Outcome.eq_ok (by decide +kernel)⟩
  refine ⟨_, 0x200000, h3, by decide +kernel, by decide +kernel, ?_⟩
  rintro ⟨v, hv, heq⟩
  have hfind : findVmb (findAndMapMemory k₂ t 0x200000).kernel
      (findAndMapMemory k₂ t 0x200000).kernel.loadedMap 0 =
      some (some (0 + 1 * 2 ^ 24 + 4 * 2 ^ 46)) := by decide +kernel
  obtain rfl : 0 + 1 * 2 ^ 24 + 4 * 2 ^ 46 = v := by
    simpa using hfind.symm.trans hv
  revert heq
  decide +kernel

end Isambard.El1
