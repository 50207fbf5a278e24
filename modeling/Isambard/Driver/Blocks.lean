import Isambard.El1.Interfaces
import Isambard.El1.Translation
import Mathlib.Order.Interval.Set.LinearOrder

/-!
# Driver.Blocks — physical memory blocks

The operations of a `PHYSICAL_MEMORY_BLOCK` (`drivers/system.c`): a block is an
interface of the system driver whose object is a packed `ContiguousMemoryBlock`,
and `subblock` and `read_only_copy` return a new interface, made of the old one's
object. `duplicate` is the kernel's.

* `pages`: the physical pages of a block;
* `Fits`: the arguments of `subblock` for which the new block is inside the old
  one; the code does not test them;
* `chain_authority`: what is true of a chain of operations;
* `pages_exact_iff`: the addresses and sizes that are computed of page numbers.
-/

namespace Isambard.Driver

open Isambard.Lib Isambard.El1

/-! ## The operations -/

def Cmb.setStartPage (v : ℕ) : ℕ → ℕ := setField 0 24 v
def Cmb.setPageCount (v : ℕ) : ℕ → ℕ := setField 24 20 v
def Cmb.setReadOnly (v : ℕ) : ℕ → ℕ := setField 44 1 v
def Cmb.setIsSubpage (v : ℕ) : ℕ → ℕ := setField 60 1 v

def readOnlyCopy (cmb : ℕ) : ℕ := Cmb.setReadOnly 1 cmb

/-- An exception, or the new block. -/
def subblock (cmb offset size : ℕ) : Option ℕ :=
  if offset % 4096 ≠ 0 then none
  else if size % 4096 ≠ 0 then none
  else
    let newCmb := Cmb.setIsSubpage 1 cmb
    let newCmb := Cmb.setStartPage (Cmb.startPage newCmb + offset / 4096) newCmb
    some (Cmb.setPageCount (size / 4096) newCmb)

inductive BlockOp where
  | subblock (offset size : ℕ)
  | readOnlyCopy
  | duplicate
deriving Repr, DecidableEq

/-- The object of the interface that an operation returns. -/
def derive (cmb : ℕ) : BlockOp → Option ℕ
  | .subblock offset size => subblock cmb offset size
  | .readOnlyCopy => some (readOnlyCopy cmb)
  | .duplicate => some cmb

/-- The driver, called for the object `cmb`, returns a new interface. -/
def Returns (k : Kernel) (cmb : Option ℕ) (k' : Kernel) (j : ℕ) : Prop :=
  ∃ thread ∈ k.contexts, k.currentMap thread = systemMapIndex ∧
    k.reg thread 0 = systemServicePhysicalMemoryBlock ∧ cmb = some (k.reg thread 1) ∧
    handleSvcInterfaceToReturn k thread = .ok k' thread ∧ j = k'.reg thread 0

/-- An operation on the block with the interface `i` returns the interface `j`. -/
inductive BlockStep (k : Kernel) (i : ℕ) : BlockOp → Kernel → ℕ → Prop
  | subblock {offset size : ℕ} {k' : Kernel} {j : ℕ} :
      Returns k (Driver.subblock (k.interfaces i).object offset size) k' j →
      BlockStep k i (.subblock offset size) k' j
  | readOnlyCopy {k' : Kernel} {j : ℕ} :
      Returns k (some (Driver.readOnlyCopy (k.interfaces i).object)) k' j →
      BlockStep k i .readOnlyCopy k' j
  | duplicateToReturn {k' : Kernel} {thread : ℕ} : thread ∈ k.contexts →
      k.reg thread 0 % 2 ^ 32 = i → handleSvcDuplicateToReturn k thread = .ok k' thread →
      BlockStep k i .duplicate k' (k'.reg thread 0)
  | duplicateToPassTo {k' : Kernel} {thread : ℕ} : thread ∈ k.contexts →
      k.reg thread 1 % 2 ^ 32 = i → handleSvcDuplicateToPassTo k thread = .ok k' thread →
      BlockStep k i .duplicate k' (k'.reg thread 0)

/-- A chain of operations, each on the block that the one before it returned.
Between them the kernel may do anything that leaves that interface alone. -/
inductive BlockChain : Kernel → ℕ → List BlockOp → Kernel → ℕ → Prop
  | nil {k : Kernel} {i : ℕ} : BlockChain k i [] k i
  | cons {k k₁ k₂ k' : Kernel} {i j l : ℕ} {op : BlockOp} {ops : List BlockOp} :
      BlockStep k i op k₁ j → k₂.interfaces j = k₁.interfaces j → BlockChain k₂ j ops k' l →
      BlockChain k i (op :: ops) k' l

/-! ## Authority -/

/-- The physical pages of a block. -/
def pages (cmb : ℕ) : Set ℕ := Set.Ico (Cmb.startPage cmb) (Cmb.startPage cmb + Cmb.pageCount cmb)

/-- The offset and the size are not those of pages, or the new block has no page,
or it is inside the block with the start page and page count given: the fields
that the arguments are stored in have 24 and 20 bits. -/
def Fits (cmb : ℕ) : BlockOp → Prop
  | .subblock offset size =>
    offset % 4096 ≠ 0 ∨ size % 4096 ≠ 0 ∨ size / 4096 % 2 ^ 20 = 0 ∨
      (Cmb.startPage cmb + offset / 4096 % 2 ^ 24 < 2 ^ 24 ∧
        offset / 4096 % 2 ^ 24 + size / 4096 % 2 ^ 20 ≤ Cmb.pageCount cmb)
  | _ => True

/-- Every operation of the chain that starts with the object `cmb` fits. -/
def AllFit : ℕ → List BlockOp → Prop
  | _, [] => True
  | cmb, op :: ops => Fits cmb op ∧ ∀ cmb', derive cmb op = some cmb' → AllFit cmb' ops

theorem pages_subset {cmb cmb' : ℕ} : pages cmb' ⊆ pages cmb ↔
    Cmb.pageCount cmb' = 0 ∨ (Cmb.startPage cmb ≤ Cmb.startPage cmb' ∧
      Cmb.startPage cmb' + Cmb.pageCount cmb' ≤ Cmb.startPage cmb + Cmb.pageCount cmb) := by
  unfold pages
  rcases Nat.eq_zero_or_pos (Cmb.pageCount cmb') with h | h
  · simp [h]
  · rw [Set.Ico_subset_Ico_iff (by omega)]
    constructor
    · intro hle
      exact .inr hle
    · rintro (h₀ | hle)
      · omega
      · exact hle

section Subblock

variable {cmb cmb' offset size : ℕ}

theorem subblock_eq (h : subblock cmb offset size = some cmb') :
    offset % 4096 = 0 ∧ size % 4096 = 0 ∧
      cmb' = Cmb.setPageCount (size / 4096) (Cmb.setStartPage
        (Cmb.startPage (Cmb.setIsSubpage 1 cmb) + offset / 4096) (Cmb.setIsSubpage 1 cmb)) := by
  unfold subblock at h
  split at h
  · cases h
  · split at h
    · cases h
    · rename_i ho hs
      exact ⟨not_not.1 ho, not_not.1 hs, (Option.some.inj h).symm⟩

theorem subblock_startPage (h : subblock cmb offset size = some cmb') :
    Cmb.startPage cmb' = (Cmb.startPage cmb + offset / 4096) % 2 ^ 24 := by
  obtain ⟨-, -, rfl⟩ := subblock_eq h
  unfold Cmb.startPage Cmb.setPageCount Cmb.setStartPage Cmb.setIsSubpage
  rw [field_setField_below (by decide), field_setField, field_setField_below (by decide)]

theorem subblock_pageCount (h : subblock cmb offset size = some cmb') :
    Cmb.pageCount cmb' = size / 4096 % 2 ^ 20 := by
  obtain ⟨-, -, rfl⟩ := subblock_eq h
  exact field_setField _ _ _ _

theorem subblock_readOnly (h : subblock cmb offset size = some cmb') :
    Cmb.readOnly cmb' = Cmb.readOnly cmb := by
  obtain ⟨-, -, rfl⟩ := subblock_eq h
  unfold Cmb.readOnly Cmb.setPageCount Cmb.setStartPage Cmb.setIsSubpage
  rw [field_setField_above (by decide), field_setField_above (by decide),
    field_setField_below (by decide)]

/-- A subblock is inside its block exactly when it fits. -/
theorem subblock_pages (h : subblock cmb offset size = some cmb') :
    pages cmb' ⊆ pages cmb ↔ Fits cmb (.subblock offset size) := by
  obtain ⟨ho, hs, -⟩ := subblock_eq h
  have hlt : Cmb.startPage cmb < 2 ^ 24 := field_lt 0 24 cmb
  rw [pages_subset, subblock_startPage h, subblock_pageCount h, ← Nat.add_mod_mod]
  have hp : offset / 4096 % 2 ^ 24 < 2 ^ 24 := Nat.mod_lt _ (by decide)
  generalize hpdef : offset / 4096 % 2 ^ 24 = p at hp
  simp only [Fits, ho, hs, ne_eq, not_true_eq_false, false_or, hpdef]
  apply or_congr_right
  rcases Nat.lt_or_ge (Cmb.startPage cmb + p) (2 ^ 24) with h' | h'
  · rw [Nat.mod_eq_of_lt h']
    omega
  · -- the start page wraps round, and is below that of the block
    rw [Nat.mod_eq_sub_mod h', Nat.mod_eq_of_lt (by omega)]
    omega

end Subblock

/-- An operation gives no further pages exactly when it fits. -/
theorem derive_pages {cmb cmb' : ℕ} {op : BlockOp} (h : derive cmb op = some cmb') :
    pages cmb' ⊆ pages cmb ↔ Fits cmb op := by
  cases op with
  | subblock offset size => exact subblock_pages h
  | readOnlyCopy =>
    obtain rfl := Option.some.inj h
    have hstart : Cmb.startPage (readOnlyCopy cmb) = Cmb.startPage cmb :=
      field_setField_below (by decide) _ _
    have hcount : Cmb.pageCount (readOnlyCopy cmb) = Cmb.pageCount cmb :=
      field_setField_below (by decide) _ _
    simp [Fits, pages, hstart, hcount]
  | duplicate =>
    obtain rfl := Option.some.inj h
    simp [Fits]

/-- No operation makes a read-only block writable. -/
theorem derive_readOnly {cmb cmb' : ℕ} {op : BlockOp} (h : derive cmb op = some cmb')
    (hro : Cmb.readOnly cmb = 1) : Cmb.readOnly cmb' = 1 := by
  cases op with
  | subblock offset size => exact (subblock_readOnly h).trans hro
  | readOnlyCopy =>
    obtain rfl := Option.some.inj h
    exact field_setField _ _ _ _
  | duplicate =>
    obtain rfl := Option.some.inj h
    exact hro

/-! ## Chains -/

/-- The slot that a new interface is put in holds its object. -/
theorem newInterface_object {k k' : Kernel} {thread user provider handler value now : ℕ}
    (ht : thread ∈ k.contexts)
    (h : newInterface k thread user provider handler value = .ok k' now) :
    (k'.interfaces (k'.reg thread 0)).object = value := by
  obtain ⟨k₁, e, -, -, hk⟩ := newInterface_ok ht h
  have hmem : thread ∈ k'.contexts := by
    rw [hk]
    exact ht
  have hslot : k'.reg thread 0 = e := by
    rw [Kernel.reg, fld_of_mem hmem, hk]
    simp
  have hint : k'.interfaces = Function.update k.interfaces e ⟨user, provider, handler, value⟩ := by
    rw [hk]
  rw [hslot, hint, Function.update_self]

/-- A step of a chain, on the objects. -/
theorem BlockStep.derive {k k' : Kernel} {i j : ℕ} {op : BlockOp} (h : BlockStep k i op k' j) :
    Driver.derive (k.interfaces i).object op = some (k'.interfaces j).object := by
  -- the two calls of a driver return a block that they make; the others copy the object
  have hret : ∀ {cmb}, Returns k cmb k' j → cmb = some (k'.interfaces j).object := by
    rintro cmb ⟨thread, ht, -, -, hcmb, hsvc, rfl⟩
    unfold handleSvcInterfaceToReturn at hsvc
    split at hsvc
    · cases hsvc
    · rw [hcmb, newInterface_object ht hsvc]
  cases h with
  | subblock h => exact hret h
  | readOnlyCopy h => exact hret h
  | duplicateToReturn ht hi hsvc =>
    unfold handleSvcDuplicateToReturn at hsvc
    split at hsvc
    · cases hsvc
    · rename_i interface hint
      obtain ⟨-, rfl⟩ := interfaceFromIndex_some hint
      split at hsvc
      · cases hsvc
      · rw [newInterface_object ht hsvc, hi]
        rfl
  | duplicateToPassTo ht hi hsvc =>
    unfold handleSvcDuplicateToPassTo at hsvc
    split at hsvc
    · cases hsvc
    · rename_i interface hint
      obtain ⟨-, rfl⟩ := interfaceFromIndex_some hint
      split at hsvc
      · cases hsvc
      · split at hsvc
        · cases hsvc
        · split at hsvc
          · cases hsvc
          · rw [newInterface_object ht hsvc, hi]
            rfl

/-- A chain of operations that all fit leads to a block inside the first one, and
any chain keeps a read-only block read-only; one operation that does not fit
leads outside. -/
theorem chain_authority {k k' : Kernel} {i j : ℕ} {ops : List BlockOp}
    (h : BlockChain k i ops k' j) :
    (AllFit (k.interfaces i).object ops →
      pages (k'.interfaces j).object ⊆ pages (k.interfaces i).object) ∧
    (Cmb.readOnly (k.interfaces i).object = 1 → Cmb.readOnly (k'.interfaces j).object = 1) ∧
    (∀ op, ops = [op] → (pages (k'.interfaces j).object ⊆ pages (k.interfaces i).object ↔
      AllFit (k.interfaces i).object ops)) := by
  induction h with
  | nil =>
    refine ⟨fun _ => subset_rfl, id, ?_⟩
    intro op hop
    cases hop
  | @cons k k₁ k₂ k' i j l op ops hstep hsame hchain ih =>
    have hd := hstep.derive
    rw [hsame] at ih
    refine ⟨?_, ?_, ?_⟩
    · rintro ⟨hfit, hrest⟩
      exact (ih.1 (hrest _ hd)).trans ((derive_pages hd).2 hfit)
    · intro hro
      exact ih.2.1 (derive_readOnly hd hro)
    · intro op' hop
      obtain ⟨rfl, rfl⟩ := List.cons.inj hop
      cases hchain
      rw [hsame, derive_pages hd]
      simp [AllFit]

/-- A thread in the system driver, called from map 3, which holds the interface 3
of a block of two pages; it is about to return the block `cmb`. -/
def returning (cmb : ℕ) : Kernel :=
  let p := startAddress + heapTop - 512
  { Kernel.boot with
    contexts := [p]
    ctx := fun _ w =>
      if w = 4 then systemServicePhysicalMemoryBlock
      else if w = 5 then cmb
      else if w = 39 then systemMapIndex * 2 ^ 32
      else if w = 41 then frameAddress p 5
      else if w = 60 then 3
      else 0
    freeInterface := 4
    interfaces := Function.update Kernel.boot.interfaces 3
      ⟨3, systemMapIndex, systemServicePhysicalMemoryBlock, 2 * 2 ^ 24 + 0x100⟩ }

/-- The block of the interface 3, and what `subblock` makes of it. -/
theorem returning_chain {o s c : ℕ}
    (h : subblock (2 * 2 ^ 24 + 0x100) o s = some c)
    (hok : (handleSvcInterfaceToReturn (returning c)
      (startAddress + heapTop - 512)).isOk = true)
    (hnow : (handleSvcInterfaceToReturn (returning c)
      (startAddress + heapTop - 512)).now = startAddress + heapTop - 512)
    (hmap : (returning c).currentMap (startAddress + heapTop - 512) = systemMapIndex) :
    BlockChain (returning c) 3 [.subblock o s]
      (handleSvcInterfaceToReturn (returning c) (startAddress + heapTop - 512)).kernel
      ((handleSvcInterfaceToReturn (returning c)
        (startAddress + heapTop - 512)).kernel.reg (startAddress + heapTop - 512) 0) := by
  have heq := Outcome.eq_ok_now hok
  rw [hnow] at heq
  refine .cons (.subblock ⟨_, List.mem_singleton_self _, hmap, rfl, ?_, heq, rfl⟩) rfl .nil
  exact h

/-- The second page of a block of two pages. -/
theorem chain_authority_second_page :
    pages ((handleSvcInterfaceToReturn (returning (2 ^ 60 + 2 ^ 24 + 0x101))
      (startAddress + heapTop - 512)).kernel.interfaces
        ((handleSvcInterfaceToReturn (returning (2 ^ 60 + 2 ^ 24 + 0x101))
          (startAddress + heapTop - 512)).kernel.reg (startAddress + heapTop - 512) 0)).object ⊆
      pages ((returning (2 ^ 60 + 2 ^ 24 + 0x101)).interfaces 3).object := by
  have hchain := returning_chain (o := 0x1000) (s := 0x1000) (c := 2 ^ 60 + 2 ^ 24 + 0x101)
    (by decide +kernel) (by decide +kernel) (by decide +kernel) (by decide +kernel)
  apply (chain_authority hchain).1
  refine ⟨.inr (.inr (.inr ⟨by decide +kernel, by decide +kernel⟩)), ?_⟩
  intro cmb' _
  trivial

/-- A subblock of three pages, of a block that has two. -/
theorem subblock_three_of_two_pages :
    ¬ ∀ (k k' : Kernel) (i j : ℕ) (ops : List BlockOp), BlockChain k i ops k' j →
      pages (k'.interfaces j).object ⊆ pages (k.interfaces i).object := by
  intro h
  have hchain := returning_chain (o := 0) (s := 0x3000) (c := 2 ^ 60 + 3 * 2 ^ 24 + 0x100)
    (by decide +kernel) (by decide +kernel) (by decide +kernel) (by decide +kernel)
  have hsub := h _ _ _ _ _ hchain
  rw [pages_subset] at hsub
  revert hsub
  decide +kernel

/-! ## Addresses of pages -/

/-- `cmb.start_page << 12`, and `cmb.page_count << 12`: the fields are promoted to `int`. -/
def physicalAddress (cmb : ℕ) : ℕ := shl12 (Cmb.startPage cmb)
def size (cmb : ℕ) : ℕ := shl12 (Cmb.pageCount cmb)

/-- The variables of `find_and_map_memory`. -/
def physicalMemoryStart (cmb : ℕ) : ℕ := shl12 (Cmb.startPage cmb)
def virtualMemoryStart (vmb : ℕ) : ℕ := shl12 (Vmb.startPage vmb)

theorem blockAddress_starts (cmb vmb fa lsb : ℕ) : blockAddress cmb vmb fa lsb =
    (physicalMemoryStart cmb +
      (fa + 2 ^ 64 - virtualMemoryStart vmb) % 2 ^ 64 / 2 ^ lsb * 2 ^ lsb) % 2 ^ 64 := rfl

/-- The page numbers of a block and of a virtual memory block, as 64-bit addresses and
sizes. -/
structure PagesExact (cmb vmb : ℕ) : Prop where
  physicalAddress : physicalAddress cmb = Cmb.startPage cmb * 4096
  size : size cmb = Cmb.pageCount cmb * 4096
  physicalMemoryStart : physicalMemoryStart cmb = Cmb.startPage cmb * 4096
  virtualMemoryStart : virtualMemoryStart vmb = Vmb.startPage vmb * 4096

/-- They are exact when they are below 2GB, and only then. -/
theorem pages_exact_iff (cmb vmb : ℕ) : PagesExact cmb vmb ↔
    Cmb.startPage cmb < 2 ^ 19 ∧ Cmb.pageCount cmb < 2 ^ 19 ∧ Vmb.startPage vmb < 2 ^ 19 := by
  have hstart : Cmb.startPage cmb < 2 ^ 24 := field_lt 0 24 cmb
  have hcount : Cmb.pageCount cmb < 2 ^ 20 := field_lt 24 20 cmb
  have hvirtual : Vmb.startPage vmb < 2 ^ 24 := field_lt 0 24 vmb
  constructor
  · intro h
    exact ⟨(shl12_eq_iff hstart).1 h.physicalAddress, (shl12_eq_iff (by omega)).1 h.size,
      (shl12_eq_iff hvirtual).1 h.virtualMemoryStart⟩
  · rintro ⟨hs, hc, hv⟩
    exact ⟨shl12_of_lt hs, shl12_of_lt hc, shl12_of_lt hs, shl12_of_lt hv⟩

/-- A page at 2GB. -/
theorem page_at_two_gigabytes :
    ¬ ∀ cmb vmb, cmb < 2 ^ 64 → vmb < 2 ^ 64 → PagesExact cmb vmb := by
  intro h
  have hexact := (h (2 ^ 24 + 2 ^ 19) 0 (by decide) (by decide)).physicalAddress
  revert hexact
  decide

end Isambard.Driver
