import Isambard.El1.Boot
import Isambard.El1.Faults
import Isambard.Driver.Tables
import Mathlib.Data.List.GetD

/-!
# Driver.Lookups — the tables that the driver edits, and the kernel reads

`map_at` and `unmap` of `drivers/system.c` keep the entries of a table together; the kernel's
`find_vmb` reads them until it meets one without pages. The driver knows how many entries
there are, the kernel does not.

* `unmap_one_iff`: when `unmap` removes one entry, and gives back its block;
* `run_lookups`: what `find_vmb` finds after any calls of `map_at`, from the table that
  `initialise_driver_maps` made, and the first call after which that is wrong;
* `map_at_out_of_tables`: a mapping that makes a fault store outside the core's tables.
-/

namespace Isambard.Driver

open Isambard.Lib Isambard.El1

/-! ## Removing an entry -/

/-- An entry of the table of `o`, as the driver reads it. -/
def vmbEntry (k : Kernel) (o j : ℕ) : ℕ := k.load64 (entryAddress o j)

/-- Entries with pages, followed by zeros. -/
structure NormalForm (n : ℕ) (vmbs : ℕ → ℕ) (vs : List ℕ) : Prop where
  length_le : vs.length ≤ n
  entry : ∀ j < n, vmbs j = vs.getD j 0
  pages : ∀ v ∈ vs, 0 < Vmb.pageCount v

/-- The variable `mapped_block.r` of `unmap`. -/
def unmappedBlock (n : ℕ) (vmbs : ℕ → ℕ) (startPage : ℕ) : ℕ :=
  match (List.range n).find? fun i =>
      Vmb.pageCount (vmbs i) ≠ 0 ∧ Vmb.startPage (vmbs i) = startPage with
  | none => 0
  | some i => Vmb.memoryBlock (vmbs i)

/-- How a call of `unmap` ends, for its caller. -/
inductive Reply where
  | exception (code : ℕ)
  | block (r : ℕ)
deriving Repr, DecidableEq

def unmapReply (n : ℕ) (vmbs : ℕ → ℕ) (startPage : ℕ) : Reply :=
  if unmappedBlock n vmbs startPage = 0 then .exception 0xbadc0de3
  else .block (unmappedBlock n vmbs startPage)

/-- `v` is the first entry at the page: `before` it, and `after` it, are the others. -/
structure FirstAt (vs : List ℕ) (startPage : ℕ) (before : List ℕ) (v : ℕ) (after : List ℕ) :
    Prop where
  eq : vs = before ++ v :: after
  before : ∀ w ∈ before, Vmb.startPage w ≠ startPage
  here : Vmb.startPage v = startPage

/-- The purpose of `unmap`: no entry is at the page, or the first one that is there goes. -/
inductive UnmapsOne (n startPage : ℕ) (vs : List ℕ) (vmbs : ℕ → ℕ) : Reply → Prop
  | missing (code : ℕ) : (∀ v ∈ vs, Vmb.startPage v ≠ startPage) → NormalForm n vmbs vs →
      UnmapsOne n startPage vs vmbs (.exception code)
  | removed (before : List ℕ) (v : ℕ) (after : List ℕ) : FirstAt vs startPage before v after →
      NormalForm n vmbs (before ++ after) →
      UnmapsOne n startPage vs vmbs (.block (Vmb.memoryBlock v))

/-- The entry at the page, if there is one, is for an interface, is not in the last place of the
table, and has at most one entry behind it. -/
def Removable (n startPage : ℕ) (vs : List ℕ) : Prop :=
  ∀ before v after, FirstAt vs startPage before v after →
    Vmb.memoryBlock v ≠ 0 ∧ before.length + 1 < n ∧ after.length ≤ 1

section Unmap

variable {n startPage v : ℕ} {vmbs : ℕ → ℕ} {vs before after : List ℕ}

theorem NormalForm.pageCount (h : NormalForm n vmbs vs) {j : ℕ} (hj : j < vs.length) :
    0 < Vmb.pageCount (vmbs j) := by
  have hle := h.length_le
  rw [h.entry j (by omega), List.getD_eq_getElem _ _ hj]
  exact h.pages _ (List.getElem_mem hj)

theorem NormalForm.entry_ne_zero (h : NormalForm n vmbs vs) {j : ℕ} (hj : j < vs.length) :
    vmbs j ≠ 0 := by
  intro hz
  have hpos := h.pageCount hj
  rw [hz] at hpos
  exact absurd hpos (by decide)

theorem NormalForm.entry_zero (h : NormalForm n vmbs vs) {j : ℕ} (hj : vs.length ≤ j)
    (hn : j < n) : vmbs j = 0 := by
  rw [h.entry j hn, List.getD_eq_default _ _ hj]

/-- The loop of `unmap` runs past the entries of other pages. -/
theorem find_none (h : NormalForm n vmbs vs) (hno : ∀ v ∈ vs, Vmb.startPage v ≠ startPage) :
    ((List.range n).find? fun i =>
      Vmb.pageCount (vmbs i) ≠ 0 ∧ Vmb.startPage (vmbs i) = startPage) = none := by
  rw [List.find?_eq_none]
  intro i hi
  have hin := List.mem_range.1 hi
  simp only [decide_eq_true_eq, not_and]
  intro hpc
  by_cases hlt : i < vs.length
  · rw [h.entry i hin, List.getD_eq_getElem _ _ hlt]
    exact hno _ (List.getElem_mem hlt)
  · rw [h.entry_zero (Nat.not_lt.1 hlt) hin] at hpc
    exact absurd rfl hpc

/-- It stops at the first entry of the page. -/
theorem find_first (h : NormalForm n vmbs vs) (hf : FirstAt vs startPage before v after) :
    ((List.range n).find? fun i =>
      Vmb.pageCount (vmbs i) ≠ 0 ∧ Vmb.startPage (vmbs i) = startPage) = some before.length := by
  rcases hf with ⟨rfl, hbefore, hhere⟩
  have hle := h.length_le
  simp only [List.length_append, List.length_cons] at hle
  have hat : vmbs before.length = v := by
    rw [h.entry _ (by omega)]
    simp
  rw [List.find?_range_eq_some]
  refine ⟨?_, List.mem_range.2 (by omega), ?_⟩
  · have hpos := h.pageCount (j := before.length) (by simp)
    rw [hat] at hpos ⊢
    simp only [decide_eq_true_eq]
    exact ⟨by omega, hhere⟩
  · intro j hj
    have hv : vmbs j = before[j] := by
      rw [h.entry j (by omega), List.getD_eq_getElem _ _ (by simp; omega),
        List.getElem_append_left hj]
    rw [hv]
    simp only [Bool.not_eq_true', decide_eq_false_iff_not, not_and]
    intro _
    exact hbefore _ (List.getElem_mem hj)

/-- Zeros at the end of the table stay there. -/
theorem shiftDown_zeros {z m j : ℕ} (hz : ∀ i, z ≤ i → i < n → vmbs i = 0) {i : ℕ} (hi : z ≤ i)
    (hin : i < n) : shiftDown n m j vmbs i = 0 := by
  induction m generalizing j vmbs with
  | zero => exact hz i hi hin
  | succ m ih =>
    unfold shiftDown
    split
    · rename_i hj
      apply ih
      intro i' hi' hin'
      by_cases heq : i' = j
      · rw [heq, Function.update_self]
        exact hz (j + 1) (by omega) hj.1
      · rw [Function.update_of_ne heq]
        exact hz i' hi' hin'
    · exact hz i hi hin

/-- The entries after `unmap`, when there is room to move one. -/
theorem removeEntry_first (h : NormalForm n vmbs vs) (hf : FirstAt vs startPage before v after)
    (hlt : before.length + 1 < n) {j : ℕ} (hj : j < n) :
    removeEntry n vmbs startPage j =
      if j < before.length then vmbs j
      else if j = before.length then vmbs (j + 1)
      else if j = before.length + 1 then 0
      else shiftDown n n before.length vmbs j := by
  have hne := h.entry_ne_zero (j := before.length) (by rw [hf.eq]; simp)
  unfold removeEntry
  rw [find_first h hf]
  simp only
  rcases Nat.lt_trichotomy j before.length with hlt' | rfl | hgt
  · rw [if_pos hlt', Function.update_of_ne (by omega), shiftDown_below hlt']
  · rw [if_neg (Nat.lt_irrefl _), if_pos rfl, Function.update_of_ne (by omega)]
    obtain ⟨n, rfl⟩ := Nat.exists_eq_succ_of_ne_zero (by omega : n ≠ 0)
    exact shiftDown_at hlt hne
  · rw [if_neg (by omega), if_neg (by omega)]
    by_cases heq : j = before.length + 1
    · rw [if_pos heq, heq, Function.update_self]
    · rw [if_neg heq, Function.update_of_ne heq]

/-- One entry after the one that goes, at most, is moved into its place. -/
theorem removeEntry_normal (h : NormalForm n vmbs vs) (hf : FirstAt vs startPage before v after)
    (hlt : before.length + 1 < n) (hafter : after.length ≤ 1) :
    NormalForm n (removeEntry n vmbs startPage) (before ++ after) := by
  have hentry := fun j (hj : j < n) => removeEntry_first h hf hlt hj
  rcases hf with ⟨rfl, -, -⟩
  have hle := h.length_le
  simp only [List.length_append, List.length_cons] at hle
  refine ⟨by simp; omega, ?_, ?_⟩
  · intro j hj
    rw [hentry j hj]
    split
    · rename_i hjb
      rw [h.entry j hj, List.getD_append _ _ _ _ hjb, List.getD_append _ _ _ _ hjb]
    · rename_i hjb
      rw [List.getD_append_right _ _ _ _ (by omega)]
      split
      · rename_i heq
        rw [h.entry _ (by omega), List.getD_append_right _ _ _ _ (by omega), heq]
        simp
      · have hz : ∀ i, before.length + 2 ≤ i → i < n → vmbs i = 0 := by
          intro i hi hin
          exact h.entry_zero (by simp; omega) hin
        rw [List.getD_eq_default _ _ (by omega)]
        split
        · rfl
        · exact shiftDown_zeros hz (by omega) hj
  · intro w hw
    rcases List.mem_append.1 hw with hw | hw
    · exact h.pages w (List.mem_append_left _ hw)
    · exact h.pages w (List.mem_append_right _ (List.mem_cons_of_mem v hw))

/-- Two entries after it, and the second is lost; and the entry in the last place of the table
stays. -/
theorem removeEntry_lost (h : NormalForm n vmbs vs) (hf : FirstAt vs startPage before v after)
    (hnormal : NormalForm n (removeEntry n vmbs startPage) (before ++ after)) :
    before.length + 1 < n ∧ after.length ≤ 1 := by
  have hle := h.length_le
  have hlen : vs.length = before.length + (after.length + 1) := by
    rw [hf.eq]
    simp
  by_cases hlt : before.length + 1 < n
  · refine ⟨hlt, ?_⟩
    by_contra hafter
    -- the end of the table is behind the entry that was moved
    have hend := removeEntry_first h hf hlt (j := before.length + 1) hlt
    rw [if_neg (by omega), if_neg (by omega), if_pos rfl] at hend
    exact hnormal.entry_ne_zero (by simp; omega) hend
  · exfalso
    have hlast : removeEntry n vmbs startPage before.length = vmbs before.length := by
      unfold removeEntry
      rw [find_first h hf]
      simp only
      rw [shiftDown_last (by omega), Function.update_of_ne (by omega)]
    have hz := hnormal.entry_zero (j := before.length) (by rw [List.length_append]; omega)
      (by omega)
    rw [hlast] at hz
    exact h.entry_ne_zero (by omega) hz

/-- The first entry of a page is one entry. -/
theorem FirstAt.unique {before' after' : List ℕ} {v' : ℕ} (h : NormalForm n vmbs vs)
    (hf : FirstAt vs startPage before v after) (hf' : FirstAt vs startPage before' v' after') :
    before' = before ∧ v' = v ∧ after' = after := by
  have hlen := (find_first h hf').symm.trans (find_first h hf)
  have happ := List.append_inj (hf'.eq.symm.trans hf.eq) (Option.some.inj hlen)
  exact ⟨happ.1, List.cons.inj happ.2⟩

theorem unmapReply_missing (h : NormalForm n vmbs vs)
    (hno : ∀ v ∈ vs, Vmb.startPage v ≠ startPage) :
    removeEntry n vmbs startPage = vmbs ∧
      unmapReply n vmbs startPage = .exception 0xbadc0de3 := by
  unfold removeEntry unmapReply unmappedBlock
  rw [find_none h hno]
  exact ⟨rfl, rfl⟩

theorem unmappedBlock_first (h : NormalForm n vmbs vs)
    (hf : FirstAt vs startPage before v after) :
    unmappedBlock n vmbs startPage = Vmb.memoryBlock v := by
  have hlen := h.length_le
  unfold unmappedBlock
  rw [find_first h hf]
  simp only
  rw [h.entry _ (by rw [hf.eq] at hlen; simp at hlen; omega), hf.eq]
  simp

/-- A page has a first entry, or none. -/
theorem firstAt_or (vs : List ℕ) (startPage : ℕ) :
    (∀ v ∈ vs, Vmb.startPage v ≠ startPage) ∨
      ∃ before v after, FirstAt vs startPage before v after := by
  induction vs with
  | nil => exact .inl fun v hv => absurd hv List.not_mem_nil
  | cons w ws ih =>
    by_cases hw : Vmb.startPage w = startPage
    · exact .inr ⟨[], w, ws, rfl, fun v hv => absurd hv List.not_mem_nil, hw⟩
    · rcases ih with hno | ⟨before, v, after, heq, hbefore, hhere⟩
      · left
        intro v hv
        rcases List.mem_cons.1 hv with rfl | hv
        · exact hw
        · exact hno v hv
      · refine .inr ⟨w :: before, v, after, by rw [heq]; rfl, ?_, hhere⟩
        intro v hv
        rcases List.mem_cons.1 hv with rfl | hv
        · exact hw
        · exact hbefore v hv

theorem removes_one_iff (h : NormalForm n vmbs vs) (startPage : ℕ) :
    UnmapsOne n startPage vs (removeEntry n vmbs startPage) (unmapReply n vmbs startPage) ↔
      Removable n startPage vs := by
  rcases firstAt_or vs startPage with hno | ⟨before, v, after, hf⟩
  · rcases unmapReply_missing h hno with ⟨hsame, hreply⟩
    rw [hsame, hreply]
    constructor
    · intro _ before v after hf
      exact absurd hf.here (hno v (by rw [hf.eq]; simp))
    · intro _
      exact .missing _ hno h
  · have hblock := unmappedBlock_first h hf
    have hreply : unmapReply n vmbs startPage = if Vmb.memoryBlock v = 0 then
        .exception 0xbadc0de3 else .block (Vmb.memoryBlock v) := by
      unfold unmapReply
      rw [hblock]
    rw [hreply]
    constructor
    · intro hone before' v' after' hf'
      rcases hf.unique h hf' with ⟨rfl, rfl, rfl⟩
      split at hone
      · cases hone with
        | missing code hno _ => exact absurd hf.here (hno _ (by rw [hf.eq]; simp))
      · rename_i hne
        generalize hb : Vmb.memoryBlock v' = b at hone
        cases hone with
        | removed before₁ v₁ after₁ hf₁ hnormal =>
          rcases hf.unique h hf₁ with ⟨rfl, rfl, rfl⟩
          exact ⟨hb ▸ hne, removeEntry_lost h hf hnormal⟩
    · intro hrem
      rcases hrem before v after hf with ⟨hne, hlt, hafter⟩
      rw [if_neg hne]
      exact .removed before v after hf (removeEntry_normal h hf hlt hafter)

end Unmap

section Table

variable {k : Kernel} {o : ℕ}

/-- The kernel lets the driver read and write a table in the heap. -/
theorem TableRoom.tableOk (h : TableRoom k o) : tableOk k o = true := by
  have hfits := h.fits
  have hroom := h.room
  have heven := h.even
  unfold Driver.tableOk heapBlockOk
  rw [h.offset]
  unfold heapTop at *
  simp only [Bool.and_eq_true, decide_eq_true_eq, beq_iff_eq]
  refine ⟨⟨⟨?_, ?_⟩, ?_⟩, hroom⟩
  · omega
  · omega
  · omega

/-- What the driver writes back is what it reads afterwards. -/
theorem vmbEntry_writeTable (h : TableRoom k o) (vmbs : ℕ → ℕ) {j : ℕ}
    (hj : j < MapValue.numberOfVmbs o) :
    vmbEntry (writeTable k o vmbs (MapValue.numberOfVmbs o)) o j = vmbs j := by
  have hroom : TableRoom { k with mem := tableMem k o vmbs (MapValue.numberOfVmbs o) } o :=
    h.congr rfl fun _ _ => rfl
  unfold vmbEntry
  rw [writeTable_eq h vmbs _ le_rfl, hroom.load64 hj]
  exact tableMem_entry hj

theorem NormalForm.congr {n : ℕ} {vmbs vmbs' : ℕ → ℕ} {vs : List ℕ} (h : NormalForm n vmbs vs)
    (heq : ∀ j < n, vmbs' j = vmbs j) : NormalForm n vmbs' vs :=
  ⟨h.length_le, fun j hj => (heq j hj).trans (h.entry j hj), h.pages⟩

theorem UnmapsOne.congr {n startPage : ℕ} {vs : List ℕ} {vmbs vmbs' : ℕ → ℕ} {r : Reply}
    (h : UnmapsOne n startPage vs vmbs r) (heq : ∀ j < n, vmbs' j = vmbs j) :
    UnmapsOne n startPage vs vmbs' r := by
  cases h with
  | missing code hno hnormal => exact .missing code hno (hnormal.congr heq)
  | removed before v after hf hnormal => exact .removed before v after hf (hnormal.congr heq)

/-- `unmap` of a table in its normal form removes one entry, and returns its block, or finds
none and raises an exception, exactly when the entry is `Removable`. -/
theorem unmap_one_iff {vs : List ℕ} (hroom : TableRoom k o)
    (h : NormalForm (MapValue.numberOfVmbs o) (vmbEntry k o) vs) (thread start : ℕ) :
    ∃ k', unmap k thread o start = .ok k' thread ∧
      (UnmapsOne (MapValue.numberOfVmbs o) (start / 4096) vs (vmbEntry k' o)
          (unmapReply (MapValue.numberOfVmbs o) (vmbEntry k o) (start / 4096)) ↔
        Removable (MapValue.numberOfVmbs o) (start / 4096) vs) := by
  refine ⟨_, if_pos hroom.tableOk, ?_⟩
  rw [← removes_one_iff h]
  have heq : ∀ j < MapValue.numberOfVmbs o, _ = _ := fun j hj =>
    vmbEntry_writeTable hroom (removeEntry (MapValue.numberOfVmbs o) (vmbEntry k o)
      (start / 4096)) hj
  constructor
  · exact fun hone => hone.congr fun j hj => (heq j hj).symm
  · exact fun hone => hone.congr heq

end Table

/-- The table of the first driver has its code, its data, and the data once more. -/
def threeEntries : List ℕ := [setField 44 2 3 (newVmb 0 2 4), newVmb 2 1 5, newVmb 16 1 5]

theorem threeEntries_room : TableRoom (mappedBlock 5).kernel (twoDrivers.interfaces 3).object :=
  ⟨by decide +kernel, by decide +kernel, by decide +kernel, by decide +kernel⟩

theorem threeEntries_normal : NormalForm 12
    (vmbEntry (mappedBlock 5).kernel (twoDrivers.interfaces 3).object) threeEntries :=
  ⟨by decide +kernel, by decide +kernel, by decide +kernel⟩

/-- The data is unmapped, and the entry behind it takes its place. -/
theorem unmap_one_driver : ∃ k',
    unmap (mappedBlock 5).kernel (startAddress + 0x1ffba0) (twoDrivers.interfaces 3).object 0x2000 =
      .ok k' (startAddress + 0x1ffba0) ∧
    UnmapsOne 12 2 threeEntries (vmbEntry k' (twoDrivers.interfaces 3).object) (.block 5) := by
  have hn : MapValue.numberOfVmbs (twoDrivers.interfaces 3).object = 12 := by decide +kernel
  have hnormal := threeEntries_normal
  rw [← hn] at hnormal
  rcases unmap_one_iff threeEntries_room hnormal (startAddress + 0x1ffba0) 0x2000 with
    ⟨k', hk', hone⟩
  refine ⟨k', hk', ?_⟩
  have hreply : unmapReply 12
      (vmbEntry (mappedBlock 5).kernel (twoDrivers.interfaces 3).object) 2 = .block 5 := by
    decide +kernel
  rw [hn] at hone
  rw [← hreply]
  refine hone.2 ?_
  intro before v after hf
  have hf₀ : FirstAt threeEntries 2 [setField 44 2 3 (newVmb 0 2 4)] (newVmb 2 1 5)
      [newVmb 16 1 5] := ⟨rfl, by decide, by decide⟩
  rcases hf₀.unique threeEntries_normal hf with ⟨rfl, rfl, rfl⟩
  decide

/-- The code of the first driver is unmapped: the third entry is lost. -/
theorem unmap_first_of_three : ¬ ∀ (k : Kernel) (o thread start : ℕ) (vs : List ℕ),
    TableRoom k o → NormalForm (MapValue.numberOfVmbs o) (vmbEntry k o) vs →
    ∃ k', unmap k thread o start = .ok k' thread ∧
      UnmapsOne (MapValue.numberOfVmbs o) (start / 4096) vs (vmbEntry k' o)
        (unmapReply (MapValue.numberOfVmbs o) (vmbEntry k o) (start / 4096)) := by
  intro h
  set o := (twoDrivers.interfaces 3).object with ho
  set k := (mappedBlock 5).kernel with hk
  set vs := threeEntries with hvs
  have hroom : TableRoom k o := threeEntries_room
  have hn : MapValue.numberOfVmbs o = 12 := by decide +kernel
  have hnormal : NormalForm (MapValue.numberOfVmbs o) (vmbEntry k o) vs := by
    rw [hn]
    exact threeEntries_normal
  rcases h k o 0 0 vs hroom hnormal with ⟨k', hk', hone⟩
  have heq := hk'.symm.trans (if_pos hroom.tableOk)
  cases heq
  have hrem := (removes_one_iff hnormal (0 / 4096)).1 (hone.congr fun j hj =>
    (vmbEntry_writeTable hroom _ hj).symm)
  have hlen := (hrem [] _ [newVmb 2 1 5, newVmb 16 1 5] ⟨rfl, by decide, by decide⟩).2.2
  exact absurd hlen (by decide)

/-! ## What `find_vmb` finds -/

/-- A range of addresses that is mapped to the block of an interface. -/
structure Mapping where
  start : ℕ
  pages : ℕ
  block : ℕ
deriving Repr, DecidableEq

def Mapping.Has (r : Mapping) (fa : ℕ) : Prop := r.start ≤ fa ∧ fa < r.start + r.pages * 4096

/-- The ranges have no address in common. -/
def Mapping.Apart (r r' : Mapping) : Prop := ∀ fa, r.Has fa → ¬ r'.Has fa

/-- The range of an entry. -/
def Mapping.ofVmb (v : ℕ) : Mapping := ⟨Vmb.startPage v * 4096, Vmb.pageCount v, Vmb.memoryBlock v⟩

/-- The range that a call of `map_at` is to map. -/
def Mapping.ofCall (k : Kernel) (block start : ℕ) : Mapping :=
  ⟨start, Cmb.pageCount (k.interfaces (block % 2 ^ 32)).object, block % 2 ^ 32⟩

/-- The entries that the loop of `find_vmb` reads; `n` is as for `vmbLoop`. -/
def vmbLoopReads (k : Kernel) (faPage : ℕ) : ℕ → ℕ → ℕ
  | 0, _ => 0
  | n + 1, a =>
    let vmb := k.load64 a
    if Vmb.pageCount vmb > 0 then
      if vmbHas vmb faPage then 1 else vmbLoopReads k faPage n (a + 8) + 1
    else 1

def findVmbReads (k : Kernel) (map fa : ℕ) : ℕ :=
  let offset := MapValue.heapOffsetLsr4 (k.interfaces map).object
  if offset > (heapTop - k.heapBottom) / 16 then 0
  else vmbLoopReads k (fa / 4096) (2 * offset) (startAddress + heapTop - 16 * offset)

/-- The kernel, and the ranges that were mapped so far. -/
structure MapState where
  kernel : Kernel
  ranges : List Mapping

/-- An image has code, and the fields of an entry hold its page counts. -/
structure ImageFits (driver : DriverImage) : Prop where
  code : 0 < driver.codePages
  code_lt : driver.codePages < 2 ^ 20
  data_lt : driver.dataPages < 2 ^ 20

/-- `initialise_driver_maps` has just made the map `m` for a driver. -/
def DriverMade (m : ℕ) (driver : DriverImage) (k : Kernel) : Prop :=
  ∃ k₀, BootThreads k₀ ∧ k₀.runnable ∈ k₀.contexts ∧ FreeSlots k₀ ∧ k₀.freeInterface = m ∧
    ImageFits driver ∧ initialiseDriver k₀ driver = .ok k ()

/-- The ranges of a driver's code and data, whose interfaces are behind that of its map. -/
def imageRanges (m : ℕ) (driver : DriverImage) : List Mapping :=
  [⟨0, driver.codePages, m + 1⟩, ⟨driver.codePages * 4096, driver.dataPages, m + 2⟩]

/-- The map's table is as it was. -/
structure SameTable (m : ℕ) (k k' : Kernel) : Prop where
  map : k'.interfaces m = k.interfaces m
  lastInterface : k'.lastInterface = k.lastInterface
  room : TableRoom k' (k.interfaces m).object
  mem : ∀ j < MapValue.numberOfVmbs (k.interfaces m).object,
    k'.mem (entryAddress (k.interfaces m).object j) = k.mem (entryAddress (k.interfaces m).object j)

/-- A call of `map_at` returns; or something happens that is not about this map. -/
inductive MapStep where
  | mapAt (thread block start : ℕ)
  | other
deriving Repr, DecidableEq

def mapStep (m : ℕ) (s : MapState) : MapStep → MapState → Prop
  | .mapAt thread block start, s' =>
    let r := Mapping.ofCall s.kernel block start
    start < 2 ^ 64 ∧ start % 4096 = 0 ∧ (∀ r' ∈ s.ranges, r'.Apart r) ∧
      mapAt s.kernel thread (s.kernel.interfaces m).object block start = .ok s'.kernel thread ∧
      s'.ranges = s.ranges ++ [r]
  | .other, s' => SameTable m s.kernel s'.kernel ∧ s'.ranges = s.ranges

/-- Calls of `map_at` for the map that `initialise_driver_maps` made for a driver. -/
def lookupSystem (m : ℕ) (driver : DriverImage) : System MapState MapStep where
  init s := DriverMade m driver s.kernel ∧ s.ranges = imageRanges m driver
  step := mapStep m

/-- The call fills a free entry that is not the last of the table, and the entry holds the
page; or the block has no pages. -/
def HasRoom (m : ℕ) (s : MapState) : MapStep → Prop
  | .mapAt _ block start =>
    (Mapping.ofCall s.kernel block start).pages = 0 ∨
      (start < 2 ^ 36 ∧ ∃ i, firstFree s.kernel (s.kernel.interfaces m).object = some i ∧
        i + 1 < MapValue.numberOfVmbs (s.kernel.interfaces m).object)
  | .other => True

/-- What the lookup of `fa` is to do: an address that was mapped is found, with the entry for its
range, any other one is not, and no word behind the table is read. -/
structure LookupsOk (m : ℕ) (s : MapState) (fa : ℕ) : Prop where
  found : ∀ r ∈ s.ranges, r.Has fa →
    ∃ v, findVmb s.kernel m fa = some (some v) ∧ Mapping.ofVmb v = r
  missing : (∀ r ∈ s.ranges, ¬ r.Has fa) → findVmb s.kernel m fa = some none
  inside : findVmbReads s.kernel m fa ≤ MapValue.numberOfVmbs (s.kernel.interfaces m).object

/-- The entries of a table, and its end. -/
structure EntryList (k : Kernel) (o : ℕ) (vs : List ℕ) : Prop where
  length_lt : vs.length < MapValue.numberOfVmbs o
  entry : ∀ j < vs.length, k.mem (entryAddress o j) = vs.getD j 0
  stop : Vmb.pageCount (k.mem (entryAddress o vs.length)) = 0
  pages : ∀ v ∈ vs, 0 < Vmb.pageCount v

section Lookup

variable {k : Kernel} {m o fa v : ℕ} {vs : List ℕ}

theorem entryAddress_succ (o j : ℕ) : entryAddress o (j + 1) = entryAddress o j + 8 := by
  unfold entryAddress
  omega

theorem tableAt_entries (hroom : TableRoom k o) (i : ℕ)
    (hi : i + vs.length < MapValue.numberOfVmbs o)
    (hentry : ∀ j < vs.length, k.mem (entryAddress o (i + j)) = vs.getD j 0)
    (hstop : Vmb.pageCount (k.mem (entryAddress o (i + vs.length))) = 0)
    (hpages : ∀ v ∈ vs, 0 < Vmb.pageCount v) : TableAt k vs (entryAddress o i) := by
  induction vs generalizing i with
  | nil => exact ⟨hroom.place i hi, hroom.aligned i, hstop⟩
  | cons v vs ih =>
    simp only [List.length_cons] at hi hstop hentry
    refine ⟨hroom.place i (by omega), hroom.aligned i, hentry 0 (by omega),
      hpages v List.mem_cons_self, ?_⟩
    rw [← entryAddress_succ]
    apply ih (i + 1) (by omega)
    · intro j hj
      rw [Nat.add_assoc, Nat.add_comm 1 j]
      exact hentry (j + 1) (by omega)
    · rw [Nat.add_assoc, Nat.add_comm 1]
      exact hstop
    · exact fun w hw => hpages w (List.mem_cons_of_mem v hw)

theorem EntryList.mapTable (h : EntryList k (k.interfaces m).object vs)
    (hroom : TableRoom k (k.interfaces m).object) : MapTable k m vs := by
  have hfits := hroom.fits
  have hsize := hroom.room
  have hlen := h.length_lt
  have haddr : startAddress + heapTop - 16 * MapValue.heapOffsetLsr4 (k.interfaces m).object =
      entryAddress (k.interfaces m).object 0 := by
    unfold entryAddress heapPointer
    rw [hroom.offset, Nat.mul_comm 16]
    rfl
  refine ⟨?_, by omega, ?_⟩
  · omega
  · rw [haddr]
    refine tableAt_entries hroom 0 (by omega) ?_ ?_ h.pages
    · intro j hj
      rw [Nat.zero_add]
      exact h.entry j hj
    · rw [Nat.zero_add]
      exact h.stop

/-- The loop of `find_vmb` reads the entries and the end, at most. -/
theorem vmbLoopReads_le {faPage a : ℕ} (n : ℕ) (h : TableAt k vs a) :
    vmbLoopReads k faPage n a ≤ vs.length + 1 := by
  induction vs generalizing n a with
  | nil =>
    rcases h with ⟨hp, hal, hz⟩
    have hload : k.load64 a = k.mem a := by
      rw [load64_eq_word hal, Kernel.word, hp]
    cases n with
    | zero => exact Nat.zero_le _
    | succ n => simp [vmbLoopReads, hload, hz]
  | cons v vs ih =>
    rcases h with ⟨-, -, -, -, htl⟩
    cases n with
    | zero => exact Nat.zero_le _
    | succ n =>
      have hrest := ih n htl
      unfold vmbLoopReads
      simp only [List.length_cons]
      split
      · split
        · omega
        · omega
      · omega

/-- The test of `find_vmb` is right for the addresses of 64 bits. -/
theorem vmbHas_iff (v : ℕ) {fa : ℕ} (hfa : fa < 2 ^ 64) :
    vmbHas v (fa / 4096) = true ↔ (Mapping.ofVmb v).Has fa := by
  have hstart : Vmb.startPage v < 2 ^ 24 := field_lt 0 24 v
  have hcount : Vmb.pageCount v < 2 ^ 20 := field_lt 24 20 v
  unfold vmbHas Mapping.Has Mapping.ofVmb
  simp only [decide_eq_true_eq]
  omega

/-- No range of an entry reaches bit 44. -/
theorem ofVmb_lt (h : (Mapping.ofVmb v).Has fa) : fa < 2 ^ 44 := by
  have hstart : Vmb.startPage v < 2 ^ 24 := field_lt 0 24 v
  have hcount : Vmb.pageCount v < 2 ^ 20 := field_lt 24 20 v
  unfold Mapping.Has Mapping.ofVmb at h
  simp only at h
  omega

/-- Where the entries have pages and not the address, the loop does not end before them. -/
theorem vmbLoop_passes {faPage j n a : ℕ} (hnone : vmbLoop k faPage n a = some none)
    (hall : ∀ i < j, 0 < Vmb.pageCount (k.load64 (a + 8 * i)) ∧
      vmbHas (k.load64 (a + 8 * i)) faPage = false) : j < vmbLoopReads k faPage n a := by
  induction n generalizing a j with
  | zero => cases hnone
  | succ n ih =>
    unfold vmbLoop at hnone
    unfold vmbLoopReads
    simp only at hnone ⊢
    cases j with
    | zero =>
      split
      · split
        · omega
        · omega
      · omega
    | succ j =>
      rcases hall 0 (Nat.succ_pos j) with ⟨hpages, hhas⟩
      rw [Nat.mul_zero, Nat.add_zero] at hpages hhas
      rw [if_pos hpages, if_neg (by rw [hhas]; decide)] at hnone ⊢
      apply Nat.succ_lt_succ
      apply ih hnone
      intro i hi
      rw [Nat.add_assoc, Nat.add_comm 8, ← Nat.mul_succ]
      exact hall (i + 1) (Nat.succ_lt_succ hi)

theorem findVmbReads_le (h : MapTable k m vs) (fa : ℕ) : findVmbReads k m fa ≤ vs.length + 1 := by
  unfold findVmbReads
  simp only
  split
  · exact Nat.zero_le _
  · exact vmbLoopReads_le _ h.table

end Lookup

/-- What is true of a map and the ranges that were mapped in it. -/
structure LookupInv (m : ℕ) (s : MapState) : Prop where
  room : TableRoom s.kernel (s.kernel.interfaces m).object
  last : s.kernel.lastInterface = tableSize
  apart : s.ranges.Pairwise Mapping.Apart
  table : ∃ vs, EntryList s.kernel (s.kernel.interfaces m).object vs ∧
    (s.ranges.filter fun r => 0 < r.pages) = vs.map Mapping.ofVmb

section LookupRun

variable {m fa : ℕ} {s s' : MapState}

theorem Mapping.Apart.symm {r r' : Mapping} (h : r.Apart r') : r'.Apart r :=
  fun fa hfa hfa' => h fa hfa' hfa

theorem Mapping.Has.pages_pos {r : Mapping} (h : r.Has fa) : 0 < r.pages := by
  unfold Mapping.Has at h
  by_contra hz
  obtain hz : r.pages = 0 := by omega
  rw [hz] at h
  omega

/-- Two ranges that have an address in common are the same. -/
theorem LookupInv.eq_of_has (h : LookupInv m s) {r r' : Mapping} (hr : r ∈ s.ranges)
    (hr' : r' ∈ s.ranges) (hfa : r.Has fa) (hfa' : r'.Has fa) : r = r' := by
  by_contra hne
  have hsymm : Std.Symm Mapping.Apart := ⟨fun _ _ ha => ha.symm⟩
  exact h.apart.forall hr hr' hne fa hfa hfa'

/-- In a state of the invariant, `find_vmb` finds the entry of a range for each of its
addresses. -/
theorem LookupInv.finds (h : LookupInv m s) {r : Mapping} (hr : r ∈ s.ranges)
    (hlt : fa < 2 ^ 64) (hfa : r.Has fa) :
    ∃ v, findVmb s.kernel m fa = some (some v) ∧ Mapping.ofVmb v = r := by
  rcases h.table with ⟨vs, hvs, hranges⟩
  have hmem : ∀ {q : Mapping}, q ∈ vs.map Mapping.ofVmb → q ∈ s.ranges := by
    intro q hq
    rw [← hranges] at hq
    exact List.mem_of_mem_filter hq
  have hrvs : r ∈ vs.map Mapping.ofVmb := by
    rw [← hranges]
    exact List.mem_filter.2 ⟨hr, by simpa using hfa.pages_pos⟩
  rw [(hvs.mapTable h.room).findVmb_has]
  cases hfind : vs.find? fun v => vmbHas v (fa / 4096) with
  | none =>
    rcases List.mem_map.1 hrvs with ⟨v, hv, rfl⟩
    have hnot := List.find?_eq_none.1 hfind v hv
    exact absurd ((vmbHas_iff v hlt).2 hfa) hnot
  | some v =>
    have hv := List.mem_of_find?_eq_some hfind
    have hhas := (vmbHas_iff v hlt).1 (List.find?_some (p := fun v => vmbHas v (fa / 4096)) hfind)
    exact ⟨v, rfl, h.eq_of_has (hmem (List.mem_map_of_mem hv)) hr hhas hfa⟩

theorem LookupInv.finds_nothing (h : LookupInv m s) (hlt : fa < 2 ^ 64)
    (hfa : ∀ r ∈ s.ranges, ¬ r.Has fa) : findVmb s.kernel m fa = some none := by
  rcases h.table with ⟨vs, hvs, hranges⟩
  rw [(hvs.mapTable h.room).findVmb_has]
  have hnone : (vs.find? fun v => vmbHas v (fa / 4096)) = none := by
    rw [List.find?_eq_none]
    intro v hv hhas
    have hv' : Mapping.ofVmb v ∈ s.ranges.filter fun r => 0 < r.pages := by
      rw [hranges]
      exact List.mem_map_of_mem hv
    exact hfa _ (List.mem_of_mem_filter hv') ((vmbHas_iff v hlt).1 hhas)
  rw [hnone]

/-- The ranges of the table are below bit 44. -/
theorem LookupInv.has_lt (h : LookupInv m s) {r : Mapping} (hr : r ∈ s.ranges)
    (hfa : r.Has fa) : fa < 2 ^ 44 := by
  rcases h.table with ⟨vs, -, hranges⟩
  have hrvs : r ∈ s.ranges.filter fun r => 0 < r.pages :=
    List.mem_filter.2 ⟨hr, by simpa using hfa.pages_pos⟩
  rw [hranges] at hrvs
  rcases List.mem_map.1 hrvs with ⟨v, -, rfl⟩
  exact ofVmb_lt hfa

theorem LookupInv.lookupsOk (h : LookupInv m s) (hlt : fa < 2 ^ 64) : LookupsOk m s fa := by
  refine ⟨fun r hr hfa => h.finds hr hlt hfa, fun hfa => h.finds_nothing hlt hfa, ?_⟩
  rcases h.table with ⟨vs, hvs, -⟩
  have hlen := hvs.length_lt
  have hreads := findVmbReads_le (hvs.mapTable h.room) fa
  omega

/-! ### Steps -/

theorem EntryList.load64 {k : Kernel} {o j : ℕ} {vs : List ℕ} (h : EntryList k o vs)
    (hroom : TableRoom k o) (hj : j < vs.length) : k.load64 (entryAddress o j) = vs.getD j 0 := by
  have hlt := h.length_lt
  rw [hroom.load64 (by omega), h.entry j hj]

/-- The first entry without pages is the end of the table. -/
theorem EntryList.firstFree {k : Kernel} {o : ℕ} {vs : List ℕ} (h : EntryList k o vs)
    (hroom : TableRoom k o) : firstFree k o = some vs.length := by
  have hlt := h.length_lt
  unfold Driver.firstFree
  rw [List.find?_range_eq_some]
  refine ⟨?_, List.mem_range.2 hlt, ?_⟩
  · rw [hroom.load64 hlt, h.stop]
    rfl
  · intro j hj
    have hpos := h.pages _ (List.getElem_mem hj)
    rw [h.load64 hroom hj, List.getD_eq_getElem _ _ hj]
    simp only [Bool.not_eq_true', decide_eq_false_iff_not]
    omega

/-- What `map_at` leaves. -/
theorem mapAt_eq {k k' : Kernel} {thread o block start : ℕ} {vs : List ℕ}
    (h : EntryList k o vs) (hroom : TableRoom k o)
    (hmap : mapAt k thread o block start = .ok k' thread) :
    block % 2 ^ 32 ≤ k.lastInterface ∧ k' = { k with
      mem := tableMem k o (Function.update (Function.update (fun j => k.load64 (entryAddress o j))
        vs.length (newVmb (start / 4096) (Cmb.pageCount (k.interfaces (block % 2 ^ 32)).object)
          block)) (vs.length + 1) 0) (MapValue.numberOfVmbs o) } := by
  have hfree := h.firstFree hroom
  unfold Driver.firstFree at hfree
  unfold mapAt at hmap
  cases hi : interfaceFromIndex k block with
  | none =>
    rw [hi] at hmap
    cases hmap
  | some e =>
    rw [hi] at hmap
    rcases interfaceFromIndex_some hi with ⟨hle, rfl⟩
    refine ⟨hle, ?_⟩
    simp only [hroom.tableOk, if_true, fillFirstFree, hfree] at hmap
    rw [writeTable_eq hroom _ _ le_rfl] at hmap
    cases hmap
    rfl

theorem newVmb_startPage (s p b : ℕ) : Vmb.startPage (newVmb s p b) = s % 2 ^ 24 := by
  unfold Vmb.startPage newVmb
  rw [field_setField_below (by decide), field_setField_below (by decide)]
  exact field_setField _ _ _ _

/-- The entry that `map_at` makes is for the range of the call, when it holds the page. -/
theorem ofVmb_newVmb {k : Kernel} {block start : ℕ} (hstart : start < 2 ^ 36)
    (hal : start % 4096 = 0) (hblock : block % 2 ^ 32 < 2 ^ 18) :
    Mapping.ofVmb (newVmb (start / 4096)
      (Cmb.pageCount (k.interfaces (block % 2 ^ 32)).object) block) =
        Mapping.ofCall k block start := by
  unfold Mapping.ofVmb Mapping.ofCall
  rw [newVmb_startPage, newVmb_pageCount, newVmb_memoryBlock]
  congr 1
  · omega
  · omega

/-- An entry is added at the end of the table. -/
theorem EntryList.append {k : Kernel} {o e : ℕ} {vs : List ℕ} (h : EntryList k o vs)
    (hroom : TableRoom k o) (hlt : vs.length + 1 < MapValue.numberOfVmbs o)
    (he : 0 < Vmb.pageCount e) :
    EntryList { k with
      mem := tableMem k o (Function.update (Function.update (fun j => k.load64 (entryAddress o j))
        vs.length e) (vs.length + 1) 0) (MapValue.numberOfVmbs o) } o (vs ++ [e]) := by
  refine ⟨by simpa using hlt, ?_, ?_, ?_⟩
  · intro j hj
    rw [List.length_append, List.length_singleton] at hj
    show tableMem k o _ _ (entryAddress o j) = _
    rw [tableMem_entry (by omega), Function.update_of_ne (by omega)]
    by_cases heq : j = vs.length
    · rw [heq, Function.update_self, List.getD_append_right _ _ _ _ le_rfl]
      simp
    · rw [Function.update_of_ne heq, h.load64 hroom (by omega),
        List.getD_append _ _ _ _ (by omega)]
  · show Vmb.pageCount (tableMem k o _ _ (entryAddress o _)) = 0
    rw [List.length_append, List.length_singleton, tableMem_entry hlt, Function.update_self]
    rfl
  · intro w hw
    rcases List.mem_append.1 hw with hw | hw
    · exact h.pages w hw
    · rw [List.mem_singleton.1 hw]
      exact he

/-- An entry without pages is still the end. -/
theorem EntryList.append_nothing {k : Kernel} {o e : ℕ} {vs : List ℕ} (h : EntryList k o vs)
    (hroom : TableRoom k o) (he : Vmb.pageCount e = 0) :
    EntryList { k with
      mem := tableMem k o (Function.update (Function.update (fun j => k.load64 (entryAddress o j))
        vs.length e) (vs.length + 1) 0) (MapValue.numberOfVmbs o) } o vs := by
  have hlt := h.length_lt
  refine ⟨hlt, ?_, ?_, h.pages⟩
  · intro j hj
    show tableMem k o _ _ (entryAddress o j) = _
    rw [tableMem_entry (by omega), Function.update_of_ne (by omega),
      Function.update_of_ne (by omega), h.load64 hroom hj]
  · show Vmb.pageCount (tableMem k o _ _ (entryAddress o _)) = 0
    rw [tableMem_entry hlt, Function.update_of_ne (by omega), Function.update_self]
    exact he

theorem mapAt_inv {thread block start : ℕ} (h : LookupInv m s)
    (hgood : HasRoom m s (.mapAt thread block start))
    (hstep : mapStep m s (.mapAt thread block start) s') : LookupInv m s' := by
  rcases s' with ⟨k', ranges'⟩
  rcases hstep with ⟨-, hal, hapart, hmap, hranges'⟩
  simp only at hmap hranges'
  subst hranges'
  rcases h.table with ⟨vs, hvs, hranges⟩
  rcases mapAt_eq hvs h.room hmap with ⟨hle, rfl⟩
  have hblock : block % 2 ^ 32 < 2 ^ 18 := by
    rw [h.last] at hle
    unfold tableSize at hle
    omega
  have hcount : Vmb.pageCount (newVmb (start / 4096)
      (Cmb.pageCount (s.kernel.interfaces (block % 2 ^ 32)).object) block) =
        (Mapping.ofCall s.kernel block start).pages := newVmb_pageCount ..
  refine ⟨h.room.congr rfl fun _ _ => rfl, h.last, ?_, ?_⟩
  · rw [List.pairwise_append]
    refine ⟨h.apart, List.pairwise_singleton _ _, ?_⟩
    intro r hr r' hr'
    rw [List.mem_singleton.1 hr']
    exact hapart r hr
  · by_cases hzero : (Mapping.ofCall s.kernel block start).pages = 0
    · -- an entry without pages ends the table where it ended before
      refine ⟨vs, hvs.append_nothing h.room (hcount.trans hzero), ?_⟩
      rw [List.filter_append, hranges]
      simp [hzero]
    · rcases hgood with hz | ⟨hstart, i, hi, hlt⟩
      · exact absurd hz hzero
      · rw [hvs.firstFree h.room] at hi
        obtain rfl := Option.some.inj hi
        refine ⟨_, hvs.append h.room hlt (by rw [hcount]; omega), ?_⟩
        rw [List.filter_append, hranges, List.map_append, List.map_singleton,
          ofVmb_newVmb hstart hal hblock]
        simp [Nat.pos_of_ne_zero hzero]

/-- The first entry is where the loop of `find_vmb` begins. -/
theorem TableRoom.start {k : Kernel} {o : ℕ} (h : TableRoom k o) (j : ℕ) :
    startAddress + heapTop - 16 * MapValue.heapOffsetLsr4 o + 8 * j = entryAddress o j := by
  unfold entryAddress heapPointer
  rw [h.offset, Nat.mul_comm 16]

/-- A table without an end is left, for an address that it does not have. -/
theorem leaves_full_table {k : Kernel} {m fa : ℕ} (hroom : TableRoom k (k.interfaces m).object)
    (hall : ∀ j < MapValue.numberOfVmbs (k.interfaces m).object,
      0 < Vmb.pageCount (k.load64 (entryAddress (k.interfaces m).object j)) ∧
        vmbHas (k.load64 (entryAddress (k.interfaces m).object j)) (fa / 4096) = false)
    (hnone : findVmb k m fa = some none) :
    MapValue.numberOfVmbs (k.interfaces m).object < findVmbReads k m fa := by
  unfold findVmb at hnone
  unfold findVmbReads
  simp only at hnone ⊢
  split at hnone
  · cases hnone
  · rename_i hle
    rw [if_neg hle]
    apply vmbLoop_passes hnone
    intro i hi
    rw [hroom.start]
    exact hall i hi

/-- A call that fills the last entry, or whose page does not fit, is not right afterwards. -/
theorem mapAt_hasRoom {thread block start : ℕ} (h : LookupInv m s)
    (hstep : mapStep m s (.mapAt thread block start) s')
    (hok : ∀ fa < 2 ^ 64, LookupsOk m s' fa) : HasRoom m s (.mapAt thread block start) := by
  rcases s' with ⟨k', ranges'⟩
  rcases hstep with ⟨hlt, hal, -, hmap, hranges'⟩
  simp only at hmap hranges'
  subst hranges'
  by_cases hzero : (Mapping.ofCall s.kernel block start).pages = 0
  · exact .inl hzero
  right
  rcases h.table with ⟨vs, hvs, -⟩
  have hlen := hvs.length_lt
  -- the first page of the range is found, so its number is in the entry
  have hstart : start < 2 ^ 36 := by
    have hhas : (Mapping.ofCall s.kernel block start).Has start := by
      unfold Mapping.Has
      refine ⟨le_rfl, ?_⟩
      show start < start + _ * 4096
      omega
    rcases (hok start hlt).found _ (by simp) hhas with ⟨v, -, hv⟩
    have hpage : Vmb.startPage v * 4096 = start := congrArg Mapping.start hv
    have hfield : Vmb.startPage v < 2 ^ 24 := field_lt 0 24 v
    omega
  refine ⟨hstart, vs.length, hvs.firstFree h.room, ?_⟩
  by_contra hfull
  rcases mapAt_eq hvs h.room hmap with ⟨-, hk'⟩
  have hobj : (k'.interfaces m).object = (s.kernel.interfaces m).object := by
    rw [hk']
  have hroom : TableRoom k' (k'.interfaces m).object := by
    rw [hk']
    exact h.room.congr rfl fun _ _ => rfl
  have hcount : Vmb.pageCount (newVmb (start / 4096)
      (Cmb.pageCount (s.kernel.interfaces (block % 2 ^ 32)).object) block) =
        (Mapping.ofCall s.kernel block start).pages := newVmb_pageCount ..
  -- 2^44 is above every range that an entry can hold
  have hpages : (Mapping.ofCall s.kernel block start).pages < 2 ^ 20 := field_lt 24 20 _
  have hmissing := (hok (2 ^ 44) (by decide)).missing ?_
  · refine absurd (hok (2 ^ 44) (by decide)).inside (Nat.not_le.2 ?_)
    apply leaves_full_table hroom ?_ hmissing
    intro j hj
    constructor
    · rw [hroom.load64 hj]
      rw [hobj] at hj ⊢
      rw [hk']
      show 0 < Vmb.pageCount (tableMem _ _ _ _ _)
      rw [tableMem_entry hj, Function.update_of_ne (by omega)]
      by_cases heq : j = vs.length
      · rw [heq, Function.update_self, hcount]
        omega
      · have hjlt : j < vs.length := by omega
        rw [Function.update_of_ne heq, hvs.load64 h.room hjlt, List.getD_eq_getElem _ _ hjlt]
        exact hvs.pages _ (List.getElem_mem hjlt)
    · rw [← Bool.not_eq_true, vmbHas_iff _ (by decide)]
      intro hhas
      have := ofVmb_lt hhas
      omega
  · intro r hr hhas
    rcases List.mem_append.1 hr with hr | hr
    · have := h.has_lt hr hhas
      omega
    · rw [List.mem_singleton.1 hr] at hhas
      have hend : 2 ^ 44 < start + _ * 4096 := hhas.2
      omega

theorem EntryList.congr {k k' : Kernel} {o : ℕ} {vs : List ℕ} (h : EntryList k o vs)
    (hmem : ∀ j < MapValue.numberOfVmbs o, k'.mem (entryAddress o j) = k.mem (entryAddress o j)) :
    EntryList k' o vs := by
  have hlt := h.length_lt
  refine ⟨hlt, ?_, ?_, h.pages⟩
  · intro j hj
    rw [hmem j (by omega)]
    exact h.entry j hj
  · rw [hmem _ hlt]
    exact h.stop

theorem lookup_step_inv {e : MapStep} (h : LookupInv m s) (hgood : HasRoom m s e)
    (hstep : mapStep m s e s') : LookupInv m s' := by
  cases e with
  | mapAt thread block start => exact mapAt_inv h hgood hstep
  | other =>
    rcases s' with ⟨k', ranges'⟩
    rcases hstep with ⟨hsame, hranges'⟩
    simp only at hsame hranges'
    subst hranges'
    rcases h.table with ⟨vs, hvs, hranges⟩
    refine ⟨?_, hsame.lastInterface.trans h.last, h.apart, vs, ?_, hranges⟩
    · rw [hsame.map]
      exact hsame.room
    · rw [hsame.map]
      exact hvs.congr hsame.mem

end LookupRun

/-! ### The table of a new map -/

section NewMap

variable {k k' : Kernel} {driver : DriverImage}

theorem FreeSlots.obtain {e : ℕ} (h : FreeSlots k) (ho : obtainInterface k = .ok k' e) :
    e = k.freeInterface ∧ k.freeInterface + 1 < tableSize ∧
      k' = { k with freeInterface := k.freeInterface + 1 } ∧ FreeSlots k' := by
  rcases obtainInterface_ok ho with ⟨rfl, -, -, -, hnz, rfl⟩
  have hlt := h.lt
  have hmod : k.freeInterface % 2 ^ 32 = k.freeInterface :=
    Nat.mod_eq_of_lt (by unfold tableSize at hlt; omega)
  rw [hmod] at hnz ⊢
  have hlt' : k.freeInterface + 1 < tableSize := by
    by_contra hge
    have hlast : k.freeInterface = tableSize - 1 := by omega
    exact hnz (hlast ▸ h.stop)
  have hnext := h.next _ le_rfl hlt'
  rw [hnext]
  refine ⟨rfl, hlt', rfl, h.last, ?_, hlt', ?_, h.stop, h.outside⟩
  · exact Nat.lt_succ_of_lt h.pos
  · exact fun i hi hi' => h.next i (Nat.le_of_succ_le hi) hi'

/-- The object of a map, for a table at `b` in the heap. -/
def newMapValue (m b : ℕ) : ℕ :=
  setField 52 12 initialVmbsPerDriver (setField 32 20 m
    (setField 0 32 ((startAddress + heapTop - (startAddress + b)) / 16) 0))

/-- The map of a driver, whose table is at `b` in the heap. -/
structure MadeTable (k : Kernel) (driver : DriverImage) (m b : ℕ) : Prop where
  aligned : b % 32 = 0
  mapped : heapTop - initialHeap ≤ b
  size : b + 96 ≤ heapTop
  bottom : k.heapBottom ≤ b
  contexts : ∀ q ∈ k.contexts, q + contextSize ≤ startAddress + b ∨ startAddress + b + 96 ≤ q
  object : (k.interfaces m).object = newMapValue m b
  last : k.lastInterface = tableSize
  index : m + 2 < tableSize
  code : ∃ w, k.mem (startAddress + b) = vmbFor 0 driver.codePages 1 1 (m + 1) w
  data : ∃ w, k.mem (startAddress + b + 8) = vmbFor driver.codePages driver.dataPages 0 0 (m + 2) w
  stop : k.mem (startAddress + b + 16) = 0

theorem newMapValue_fields {m b : ℕ} (hb : b ≤ heapTop) :
    MapValue.numberOfVmbs (newMapValue m b) = 12 ∧
      MapValue.heapOffsetLsr4 (newMapValue m b) = (heapTop - b) / 16 := by
  have hlt : (startAddress + heapTop - (startAddress + b)) / 16 % 2 ^ 32 = (heapTop - b) / 16 := by
    unfold heapTop at *
    omega
  constructor
  · exact field_setField 52 12 12 _
  · rw [← hlt]
    unfold MapValue.heapOffsetLsr4 newMapValue
    rw [field_setField_below (by decide), field_setField_below (by decide)]
    exact field_setField _ _ _ _

theorem MadeTable.entryAddress {m b : ℕ} (h : MadeTable k driver m b) (j : ℕ) :
    entryAddress (newMapValue m b) j = startAddress + b + 8 * j := by
  have hal := h.aligned
  have hsize := h.size
  have hfields := newMapValue_fields (m := m) (b := b) (by omega)
  unfold Driver.entryAddress heapPointer tableOffset
  rw [hfields.2]
  unfold heapTop at *
  omega

theorem MadeTable.room {m b : ℕ} (h : MadeTable k driver m b) :
    TableRoom k (newMapValue m b) := by
  have hal := h.aligned
  have hsize := h.size
  have hbot := h.bottom
  rcases newMapValue_fields (m := m) (b := b) (by omega) with ⟨hn, hoff⟩
  refine ⟨?_, ?_, by rw [hn], ?_⟩
  · rw [hoff]
    omega
  · rw [hn, hoff]
    unfold heapTop at *
    omega
  · rw [hn]
    intro j hj
    rw [h.entryAddress]
    apply place_heap
    · unfold Kernel.contextAt
      rw [List.find?_eq_none]
      intro q hq
      have hq := h.contexts q hq
      generalize startAddress + b = a at hq ⊢
      simp
      omega
    · have hmapped := h.mapped
      unfold heapStart
      omega

/-- The fields of an entry that boot makes. -/
theorem ofVmb_vmbFor {s c r x i w : ℕ} (hs : s < 2 ^ 24) (hc : c < 2 ^ 20) (hi : i < 2 ^ 18) :
    Mapping.ofVmb (vmbFor s c r x i w) = ⟨s * 4096, c, i⟩ := by
  unfold Mapping.ofVmb Vmb.startPage Vmb.pageCount Vmb.memoryBlock vmbFor
  rw [field_setField_below (by decide), field_setField_below (by decide),
    field_setField_below (by decide), field_setField_below (by decide), field_setField,
    field_setField_below (by decide), field_setField_below (by decide),
    field_setField_below (by decide), field_setField, field_setField, Nat.mod_eq_of_lt hs,
    Nat.mod_eq_of_lt hc, Nat.mod_eq_of_lt hi]

/-- The table has the driver's code, and its data if it has any. -/
theorem MadeTable.entries {m b : ℕ} (h : MadeTable k driver m b) (hfits : ImageFits driver) :
    ∃ vs, EntryList k (newMapValue m b) vs ∧
      ((imageRanges m driver).filter fun r => 0 < r.pages) = vs.map Mapping.ofVmb := by
  have hsize := h.size
  have hindex := h.index
  have hcode := hfits.code
  have hclt := hfits.code_lt
  have hdlt := hfits.data_lt
  unfold tableSize at hindex
  rcases newMapValue_fields (m := m) (b := b) (by omega) with ⟨hn, -⟩
  rcases h.code with ⟨w, hw⟩
  rcases h.data with ⟨x, hx⟩
  -- the two entries that are made for an image, and the ranges they map
  have hof₁ := ofVmb_vmbFor (s := 0) (c := driver.codePages) (r := 1) (x := 1) (i := m + 1) (w := w)
    (by omega) (by omega) (by omega)
  have hof₂ := ofVmb_vmbFor (s := driver.codePages) (c := driver.dataPages) (r := 0) (x := 0)
    (i := m + 2) (w := x) (by omega) (by omega) (by omega)
  generalize vmbFor 0 driver.codePages 1 1 (m + 1) w = code at hw hof₁
  generalize vmbFor driver.codePages driver.dataPages 0 0 (m + 2) x = data at hx hof₂
  have hpc₁ : Vmb.pageCount code = driver.codePages := congrArg Mapping.pages hof₁
  have hpc₂ : Vmb.pageCount data = driver.dataPages := congrArg Mapping.pages hof₂
  -- the entries are the words of the block, one after the other
  have ha₀ : Driver.entryAddress (newMapValue m b) 0 = startAddress + b := by
    have := h.entryAddress 0
    omega
  have ha₁ : Driver.entryAddress (newMapValue m b) 1 = startAddress + b + 8 := by
    have := h.entryAddress 1
    omega
  have ha₂ : Driver.entryAddress (newMapValue m b) 2 = startAddress + b + 16 := by
    have := h.entryAddress 2
    omega
  rw [← ha₀] at hw
  rw [← ha₁] at hx
  have hstop := h.stop
  rw [← ha₂] at hstop
  clear ha₀ ha₁ ha₂
  by_cases hzero : driver.dataPages = 0
  · -- without data the second entry ends the table
    refine ⟨[code], ⟨by rw [hn, List.length_singleton]; omega, ?_, ?_, ?_⟩, ?_⟩
    · intro j hj
      obtain rfl : j = 0 := by simpa using hj
      rw [List.getD_cons_zero]
      exact hw
    · rw [List.length_singleton, hx, hpc₂, hzero]
    · intro v hv
      rw [List.mem_singleton.1 hv, hpc₁]
      exact hcode
    · simp [imageRanges, hcode, hzero, hof₁]
  · -- with data there are two, and the third ends the table
    refine ⟨[code, data], ⟨by rw [hn, List.length_cons, List.length_singleton]; omega, ?_, ?_, ?_⟩,
      ?_⟩
    · intro j hj
      obtain rfl | rfl : j = 0 ∨ j = 1 := by
        simp at hj
        omega
      · rw [List.getD_cons_zero]
        exact hw
      · rw [List.getD_cons_succ, List.getD_cons_zero]
        exact hx
    · rw [List.length_cons, List.length_singleton, hstop]
      rfl
    · intro v hv
      rcases List.mem_pair.1 hv with rfl | rfl
      · rw [hpc₁]
        exact hcode
      · rw [hpc₂]
        omega
    · simp [imageRanges, hcode, Nat.pos_of_ne_zero hzero, hof₁, hof₂]

theorem MadeTable.inv {m b : ℕ} (h : MadeTable k driver m b) (hfits : ImageFits driver) :
    LookupInv m ⟨k, imageRanges m driver⟩ := by
  have hobj := h.object
  refine ⟨?_, h.last, ?_, ?_⟩
  · show TableRoom k (k.interfaces m).object
    rw [hobj]
    exact h.room
  · apply List.pairwise_pair.2
    intro fa hfa hfa'
    unfold Mapping.Has at hfa hfa'
    simp only at hfa hfa'
    omega
  · show ∃ vs, EntryList k (k.interfaces m).object vs ∧ _
    rw [hobj]
    exact h.entries hfits

theorem driverInterfaces_object (k : Kernel) (driver : DriverImage) (m b : ℕ) :
    ((driverInterfaces k driver m (m + 1) (m + 1 + 1) (startAddress + b)).interfaces m).object =
      newMapValue m b := by
  unfold driverInterfaces
  simp only
  rw [Function.update_of_ne (by omega), Function.update_of_ne (by omega), Function.update_self]
  rfl

/-- The entries are written to the new table, and the driver's thread starts, with its
context below the table. -/
theorem driverTable_made {m b : ℕ} (h : BootThreads k) (hrun : k.runnable ∈ k.contexts)
    (hbot : k.heapBottom = b) (hal : b % 32 = 0) (hge : heapTop - initialHeap ≤ b)
    (htop : b + 96 ≤ heapTop) (hbelow : ∀ q ∈ k.contexts, startAddress + b + 96 ≤ q)
    (hobj : (k.interfaces m).object = newMapValue m b) (hlast : k.lastInterface = tableSize)
    (hm : m + 2 < tableSize)
    (hi : startDriver (driverTable k driver (m + 1) (m + 1 + 1) (startAddress + b)) m = .ok k' ()) :
    MadeTable k' driver m b := by
  have hal' : (startAddress + b) % 8 = 0 := by
    unfold startAddress
    omega
  have hstart : heapStart ≤ startAddress + b := by
    unfold heapStart
    omega
  have hlt : ∀ p ∈ k.contexts, startAddress + b + 16 < p := by
    intro q hq
    have := hbelow q hq
    omega
  rw [driverTable_mem driver _ _ hal' hstart hlt] at hi
  generalize hv : startAddress + b = v at hi hbelow
  have h₁ : BootThreads { k with
      mem := Function.update (Function.update (Function.update k.mem
        v (vmbFor 0 driver.codePages 1 1 (m + 1) (k.mem v)))
        (v + 8) (vmbFor driver.codePages driver.dataPages 0 0 (m + 1 + 1)
          (k.mem (v + 8)))) (v + 16) 0 } := h.congr rfl rfl fun _ _ _ _ => rfl
  rcases startDriver_eq h₁ hrun hi with ⟨k₂, p, hnew, hp, hpmem, -, -, rfl⟩
  have hpbot := hnew.heap.bottom p hpmem
  rcases hnew.eq with ⟨b', c, rfl⟩
  change p + contextSize ≤ startAddress + k.heapBottom at hp
  change startAddress + b' ≤ p at hpbot
  rw [hbot] at hp
  refine ⟨hal, hge, htop, ?_, ?_, hobj, hlast, hm, ⟨k.mem v, ?_⟩, ⟨k.mem (v + 8), ?_⟩, ?_⟩
  · show b' ≤ b
    omega
  · show ∀ q ∈ p :: k.contexts, _
    intro q hq
    rcases List.mem_cons.1 hq with rfl | hq
    · exact .inl hp
    · right
      rw [hv]
      exact hbelow q hq
  · rw [hv]
    show Function.update _ (v + 16) 0 v = _
    rw [Function.update_of_ne (by omega), Function.update_of_ne (by omega), Function.update_self]
  · rw [hv]
    show Function.update _ (v + 16) 0 (v + 8) = _
    rw [Function.update_of_ne (by omega), Function.update_self]
  · rw [hv]
    exact Function.update_self ..

/-- `initialise_driver_maps` makes the map. -/
theorem initialiseDriver_made (h : BootThreads k) (hrun : k.runnable ∈ k.contexts)
    (hfree : FreeSlots k) (hi : initialiseDriver k driver = .ok k' ()) :
    ∃ b, MadeTable k' driver k.freeInterface b := by
  have hlast := hfree.last
  -- the interfaces of the map, of its code and of its data
  rcases Outcome.andThen_ok hi with ⟨k₁, m, hm, hi⟩
  rcases Outcome.andThen_ok hi with ⟨k₂, c, hc, hi⟩
  rcases Outcome.andThen_ok hi with ⟨k₃, d, hd, hi⟩
  rcases hfree.obtain hm with ⟨rfl, -, rfl, hfree₁⟩
  rcases hfree₁.obtain hc with ⟨rfl, -, rfl, hfree₂⟩
  rcases hfree₂.obtain hd with ⟨rfl, hlt, rfl, -⟩
  simp only at hi hlt
  split at hi
  · cases hi
  have h₃ : BootThreads { k with freeInterface := k.freeInterface + 1 + 1 + 1 } :=
    h.congr rfl rfl fun _ _ _ _ => rfl
  generalize hk₃ : ({ k with freeInterface := k.freeInterface + 1 + 1 + 1 } : Kernel) = k₃
    at hi h₃
  have hrun₃ : k₃.runnable ∈ k₃.contexts := by
    rw [← hk₃]
    exact hrun
  have hlast₃ : k₃.lastInterface = tableSize := by
    rw [← hk₃]
    exact hlast
  clear hk₃ hm hc hd hfree₁ hfree₂
  -- the table, at the new bottom of the heap
  cases ha : allocateHeap k₃ (8 * initialVmbsPerDriver) with
  | mk k₄ vmb =>
    simp only [ha] at hi
    split at hi
    · cases hi
    rename_i hin
    rcases h₃.newTable ha (by simpa using hin) with ⟨b, rfl, rfl, hb, hal, hge, htop, hbelow⟩
    have h₄ : BootThreads (driverInterfaces { k₃ with heapBottom := b } driver k.freeInterface
        (k.freeInterface + 1) (k.freeInterface + 1 + 1) (startAddress + b)) :=
      hb.congr rfl rfl fun _ _ _ _ => rfl
    exact ⟨b, driverTable_made h₄ hrun₃ rfl hal hge htop hbelow
      (driverInterfaces_object _ driver k.freeInterface b) hlast₃ (Nat.lt_of_succ_lt hlt) hi⟩

theorem driverMade_inv {m : ℕ} (h : DriverMade m driver k) :
    LookupInv m ⟨k, imageRanges m driver⟩ := by
  rcases h with ⟨k₀, hb, hrun, hfree, rfl, hfits, hi⟩
  rcases initialiseDriver_made hb hrun hfree hi with ⟨b, hmade⟩
  exact hmade.inv hfits

end NewMap

/-! ### Runs -/

section Runs

variable {m : ℕ} {driver : DriverImage} {s s' : MapState}

theorem lookup_run_inv (h : ((lookupSystem m driver).restrict (HasRoom m)).Reachable s) :
    LookupInv m s := by
  refine h.invariant ?_ fun _ _ _ hs hstep => lookup_step_inv hs hstep.1 hstep.2
  rintro ⟨k, ranges⟩ ⟨hmade, hranges⟩
  simp only at hmade hranges
  subst hranges
  exact driverMade_inv hmade

/-- In every run in which the entries hold what they are given, and the last one of the table
stays free, the lookups are right; and they stay right after a call just if it is such a call. -/
theorem run_lookups (h : ((lookupSystem m driver).restrict (HasRoom m)).Reachable s) :
    (∀ fa < 2 ^ 64, LookupsOk m s fa) ∧
      ∀ e s', mapStep m s e s' → ((∀ fa < 2 ^ 64, LookupsOk m s' fa) ↔ HasRoom m s e) := by
  have hinv := lookup_run_inv h
  refine ⟨fun fa hfa => hinv.lookupsOk hfa, ?_⟩
  intro e s' hstep
  constructor
  · intro hok
    cases e with
    | mapAt thread block start => exact mapAt_hasRoom hinv hstep hok
    | other => trivial
  · intro hgood fa hfa
    exact (lookup_step_inv hinv hgood hstep).lookupsOk hfa

end Runs

/-! ### A driver -/

/-- The kernel with the thread of core 0, before the maps of the drivers are made. -/
def beforeDrivers : Kernel :=
  let thread := startAddress + 0x1ffe00
  { initialiseSystemMaps Kernel.boot with
    contexts := [thread]
    ctx := fun _ w => if w = 0 ∨ w = 1 then thread else 0
    heapBottom := 0x1ffe00
    runnable := thread }

/-- Eight pages of code, and eight of data. -/
def exampleImage : DriverImage := ⟨0x80000, 0x90000, 8, 8⟩

def oneMap : Kernel := (initialiseDriver beforeDrivers exampleImage).kernel

theorem beforeDrivers_threads : BootThreads beforeDrivers := by
  refine ⟨⟨⟨?_, ?_, ?_, ?_, ?_⟩, ?_, ?_⟩, ?_, ?_, ?_⟩ <;> decide +kernel

theorem beforeDrivers_free : FreeSlots beforeDrivers := by
  have hfree : ∀ i, 3 ≤ i → beforeDrivers.interfaces i =
      ⟨if i + 1 < tableSize then i + 1 else 0, freeMarker % 2 ^ 32, freeMarker / 2 ^ 32, 0⟩ := by
    intro i hi
    obtain ⟨i, rfl⟩ := Nat.exists_eq_add_of_le' hi
    rfl
  refine ⟨rfl, by decide, by decide, ?_, rfl, ?_⟩
  · intro i hi hlt
    rw [hfree i hi]
    show (if i + 1 < tableSize then i + 1 else 0) = i + 1
    rw [if_pos hlt]
  · rintro i (rfl | hi)
    · rfl
    · rw [hfree i (le_trans (by decide) hi)]
      show (if i + 1 < tableSize then i + 1 else 0) = 0
      rw [if_neg (by omega)]

theorem oneMap_made : DriverMade 3 exampleImage oneMap :=
  ⟨beforeDrivers, beforeDrivers_threads, List.mem_singleton_self _, beforeDrivers_free, rfl,
    ⟨by decide, by decide, by decide⟩, Outcome.eq_ok (by decide +kernel)⟩

/-- The driver's thread maps its code once more, at `start`. -/
def codeAt (k : Kernel) (start : ℕ) : Outcome ℕ :=
  mapAt k (startAddress + 0x1ffba0) (k.interfaces 3).object 4 start

def MapState.withCode (s : MapState) (start : ℕ) : MapState :=
  ⟨(codeAt s.kernel start).kernel, s.ranges ++ [Mapping.ofCall s.kernel 4 start]⟩

/-- The new map. -/
def mapped₀ : MapState := ⟨oneMap, imageRanges 3 exampleImage⟩

/-- The code is mapped at 1MB, at 2MB, and so on. -/
def codeMapped : ℕ → MapState
  | 0 => mapped₀
  | n + 1 => (codeMapped n).withCode (0x100000 * (n + 1))

section Calls

variable {s : MapState} {start : ℕ}

/-- A call returns, for a range that is above the others. -/
structure CodeCall (s : MapState) (start : ℕ) : Prop where
  lt : start < 2 ^ 64
  page : start % 4096 = 0
  above : ∀ r ∈ s.ranges, r.start + r.pages * 4096 ≤ start
  ok : (codeAt s.kernel start).isOk = true
  now : (codeAt s.kernel start).now = startAddress + 0x1ffba0

instance (s : MapState) (start : ℕ) : Decidable (CodeCall s start) :=
  decidable_of_iff (start < 2 ^ 64 ∧ start % 4096 = 0 ∧
      (∀ r ∈ s.ranges, r.start + r.pages * 4096 ≤ start) ∧
      (codeAt s.kernel start).isOk = true ∧
      (codeAt s.kernel start).now = startAddress + 0x1ffba0)
    ⟨fun ⟨h₁, h₂, h₃, h₄, h₅⟩ => ⟨h₁, h₂, h₃, h₄, h₅⟩,
      fun ⟨h₁, h₂, h₃, h₄, h₅⟩ => ⟨h₁, h₂, h₃, h₄, h₅⟩⟩

theorem CodeCall.step (h : CodeCall s start) : (lookupSystem 3 exampleImage).step s
    (.mapAt (startAddress + 0x1ffba0) 4 start) (s.withCode start) := by
  have heq := Outcome.eq_ok_now h.ok
  rw [h.now] at heq
  refine ⟨h.lt, h.page, ?_, heq, rfl⟩
  intro r hr fa hfa hfa'
  have habove := h.above r hr
  have hend : fa < r.start + r.pages * 4096 := hfa.2
  have hstart : start ≤ fa := hfa'.1
  omega

theorem driverMade_init {k : Kernel} (h : DriverMade 3 exampleImage k) :
    (lookupSystem 3 exampleImage).init ⟨k, imageRanges 3 exampleImage⟩ := ⟨h, rfl⟩

end Calls

theorem mapped₀_init : (lookupSystem 3 exampleImage).init mapped₀ := driverMade_init oneMap_made

theorem codeMapped_call : ∀ n < 10, CodeCall (codeMapped n) (0x100000 * (n + 1)) := by
  decide +kernel

theorem codeMapped_reachable {n : ℕ} (hn : n ≤ 10) :
    (lookupSystem 3 exampleImage).Reachable (codeMapped n) := by
  induction n with
  | zero => exact .init mapped₀_init
  | succ n ih => exact .step (ih (by omega)) (codeMapped_call n hn).step

/-- The first call finds room. -/
theorem codeMapped_restrict :
    ((lookupSystem 3 exampleImage).restrict (HasRoom 3)).Reachable (codeMapped 1) := by
  have hroom : HasRoom 3 (codeMapped 0) (.mapAt (startAddress + 0x1ffba0) 4 0x100000) := by
    refine .inr ⟨by decide, 2, ?_⟩
    decide +kernel
  exact .step (.init mapped₀_init) ⟨hroom, (codeMapped_call 0 (by decide)).step⟩

/-- An address of the new range is found. -/
theorem run_lookups_code :
    ∃ v, findVmb (codeMapped 1).kernel 3 0x100abc = some (some v) ∧
      Mapping.ofVmb v = ⟨0x100000, 8, 4⟩ := by
  exact ((run_lookups codeMapped_restrict).1 0x100abc (by decide)).found ⟨0x100000, 8, 4⟩
    (by decide +kernel) ⟨by decide, by decide⟩

/-- Ten calls fill the table of 12 entries. Then `find_vmb` reads on behind it, in the contexts
of threads. -/
theorem full_table_left : ¬ ∀ m driver s, (lookupSystem m driver).Reachable s →
    ∀ fa < 2 ^ 64, LookupsOk m s fa := by
  intro h
  have hinside := (h 3 exampleImage _ (codeMapped_reachable le_rfl) 0xb00000 (by decide)).inside
  revert hinside
  decide +kernel

/-! ## Stores outside the core's tables -/

/-- The code is mapped at 16GB, and the driver's thread accesses it there. -/
theorem map_at_out_of_tables : ¬ ∀ m driver s, (lookupSystem m driver).Reachable s →
    ∀ thread (r : Route), ∀ store ∈ r.stores s.kernel thread, store.InTable := by
  intro h
  have hcall : CodeCall mapped₀ (2 ^ 34) := by decide +kernel
  have hstores := h _ _ _ (.step (.init mapped₀_init) hcall.step) (startAddress + 0x1ffba0)
    (.abort (2 ^ 34))
  revert hstores
  decide +kernel

end Isambard.Driver
