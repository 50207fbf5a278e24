import Isambard.El1.Translation

/-!
# El1.Faults — one fault

`find_and_map_memory` of `secure_el1.c`, by the descriptors it stores. Three ways lead to it:
an abort at EL0, the address of a lock (`address_is_user_writable`), and the argument of
`physical_address_of`.

* `descriptorStores`, `mapBlock_stores`: the stores, in order;
* `stores_in_tables_iff`: when they are inside the core's tables;
* `fault_maps`: what one fault maps, in tables that were empty.
-/

namespace Isambard.El1

open Isambard.Lib

/-! ## The block that is mapped -/

section Found

variable {k : Kernel} {thread fa v : ℕ}

/-- The thread's map has the virtual memory block `v` at `fa`, for a physical memory block. -/
structure FaultsIn (k : Kernel) (thread fa v : ℕ) : Prop where
  notSystem : k.currentMap thread ≠ systemMapIndex
  notAllocator : k.currentMap thread ≠ memoryAllocatorMapIndex
  found : findVmb k (k.currentMap thread) fa = some (some v)
  index : Vmb.memoryBlock v ≤ k.lastInterface
  provider : (k.interfaces (Vmb.memoryBlock v)).provider = systemMapIndex
  handler : (k.interfaces (Vmb.memoryBlock v)).handler = systemServicePhysicalMemoryBlock

theorem memoryBlock_mod (v : ℕ) : Vmb.memoryBlock v % 2 ^ 32 = Vmb.memoryBlock v := by
  have : Vmb.memoryBlock v < 2 ^ 18 := field_lt 46 18 v
  exact Nat.mod_eq_of_lt (by omega)

theorem findAndMapMemory_eq (h : FaultsIn k thread fa v) :
    findAndMapMemory k thread fa = .ok (mapBlock k (blockOf k v) v fa) () := by
  have hi : interfaceFromIndex k (Vmb.memoryBlock v) =
      some (k.interfaces (Vmb.memoryBlock v)) := by
    unfold interfaceFromIndex
    rw [memoryBlock_mod, if_neg (Nat.not_lt.2 h.index)]
  unfold findAndMapMemory
  simp only [h.notSystem, h.notAllocator, if_false, h.found, hi, h.provider, h.handler, and_self,
    if_true, blockOf]

/-- Anything else halts the core, and stores nothing. -/
theorem findAndMapMemory_halts (h : ¬ ∃ v, FaultsIn k thread fa v) :
    findAndMapMemory k thread fa = .halt k := by
  unfold findAndMapMemory
  simp only
  split
  · rfl
  · rename_i hs
    split
    · rfl
    · rename_i ha
      split
      · rfl
      · rfl
      · rename_i v hv
        split
        · rfl
        · rename_i provider hi
          unfold interfaceFromIndex at hi
          split at hi
          · cases hi
          · rename_i hle
            obtain rfl := Option.some.inj hi
            rw [memoryBlock_mod] at hle ⊢
            rw [if_neg]
            rintro ⟨hp, hh⟩
            exact h ⟨v, hs, ha, hv, Nat.not_lt.1 hle, hp, hh⟩

end Found

/-! ## Descriptor stores -/

/-- The core's translation tables. -/
inductive Level where
  | l1
  | l2
  | l3
deriving Repr, DecidableEq

/-- The number of entries. -/
def Level.entries : Level → ℕ
  | .l1 => 16
  | .l2 => 512
  | .l3 => 512

/-- `core_tt_lX[index] = entry`. -/
structure DescriptorStore where
  level : Level
  index : ℕ
  entry : ℕ
deriving Repr, DecidableEq

def DescriptorStore.InTable (s : DescriptorStore) : Prop := s.index < s.level.entries

instance (s : DescriptorStore) : Decidable s.InTable := inferInstanceAs (Decidable (_ < _))

def storeDescriptor (k : Kernel) (s : DescriptorStore) : Kernel :=
  match s.level with
  | .l1 => setL1 k s.index s.entry
  | .l2 => setL2 k s.index s.entry
  | .l3 => setL3 k s.index s.entry

/-- The stores of `find_and_map_memory` for the block `cmb`, in order. -/
def descriptorStores (k : Kernel) (cmb vmb fa : ℕ) : List DescriptorStore :=
  let attrs e := withVirtualMemoryAttrs (withPhysicalMemoryAttrs e cmb) vmb
  let i1 := fa / 2 ^ 30 % 512
  let i2 := fa / 2 ^ 21 % 512
  let i3 := fa / 2 ^ 12 % 512
  if isL1Aligned (Vmb.startPage vmb) (Vmb.pageCount vmb) ∧
      isL1Aligned (Cmb.startPage cmb) (Cmb.pageCount cmb) then
    [⟨.l1, i1, attrs (Entry.blockAt (blockAddress cmb vmb fa 30))⟩]
  else
    let s1 : DescriptorStore := ⟨.l1, i1, Entry.subtableAt (l2Physical k)⟩
    if isL2Aligned (Vmb.startPage vmb) (Vmb.pageCount vmb) ∧
        isL2Aligned (Cmb.startPage cmb) (Cmb.pageCount cmb) then
      [s1, ⟨.l2, i2, attrs (Entry.blockAt (blockAddress cmb vmb fa 21))⟩]
    else
      -- core->physical_address is read again
      [s1, ⟨.l2, i2, Entry.subtableAt (l3Physical (storeDescriptor k s1))⟩,
        ⟨.l3, i3, attrs (Entry.pageAt (blockAddress cmb vmb fa 12))⟩]

theorem mapBlock_stores (k : Kernel) (cmb vmb fa : ℕ) :
    mapBlock k cmb vmb fa = (descriptorStores k cmb vmb fa).foldl storeDescriptor k := by
  unfold mapBlock descriptorStores
  simp only
  split
  · rfl
  · split
    · rfl
    · rfl

/-- The stores of a call of `find_and_map_memory`. -/
def faultStores (k : Kernel) (thread fa : ℕ) : List DescriptorStore :=
  let map := k.currentMap thread
  if map = systemMapIndex ∨ map = memoryAllocatorMapIndex then []
  else
    match findVmb k map fa with
    | some (some vmb) =>
      match interfaceFromIndex k (Vmb.memoryBlock vmb) with
      | some provider =>
        if provider.provider = systemMapIndex ∧
            provider.handler = systemServicePhysicalMemoryBlock then
          descriptorStores k provider.object vmb fa
        else []
      | none => []
    | _ => []

section Stores

variable {k : Kernel} {thread fa v : ℕ}

theorem faultStores_found (h : FaultsIn k thread fa v) :
    faultStores k thread fa = descriptorStores k (blockOf k v) v fa := by
  have hi : interfaceFromIndex k (Vmb.memoryBlock v) =
      some (k.interfaces (Vmb.memoryBlock v)) := by
    unfold interfaceFromIndex
    rw [memoryBlock_mod, if_neg (Nat.not_lt.2 h.index)]
  unfold faultStores
  simp only [h.notSystem, h.notAllocator, or_self, if_false, h.found, hi, h.provider, h.handler,
    and_self, if_true, blockOf]

theorem faultStores_none (h : ¬ ∃ v, FaultsIn k thread fa v) : faultStores k thread fa = [] := by
  unfold faultStores
  simp only
  split
  · rfl
  · rename_i hmap
    obtain ⟨hs, ha⟩ := not_or.1 hmap
    split
    · rename_i v hv
      split
      · rename_i provider hi
        unfold interfaceFromIndex at hi
        split at hi
        · cases hi
        · rename_i hle
          obtain rfl := Option.some.inj hi
          rw [memoryBlock_mod] at hle ⊢
          rw [if_neg]
          rintro ⟨hp, hh⟩
          exact h ⟨v, hs, ha, hv, Nat.not_lt.1 hle, hp, hh⟩
      · rfl
    · rfl

/-- A call of `find_and_map_memory` makes these stores and no others. -/
theorem findAndMapMemory_stores (k : Kernel) (thread fa : ℕ) :
    (findAndMapMemory k thread fa).kernel = (faultStores k thread fa).foldl storeDescriptor k := by
  by_cases h : ∃ v, FaultsIn k thread fa v
  · obtain ⟨v, hv⟩ := h
    rw [findAndMapMemory_eq hv, faultStores_found hv, ← mapBlock_stores]
    rfl
  · rw [findAndMapMemory_halts h, faultStores_none h]
    rfl

/-! ## The three ways -/

/-- What makes the kernel map memory: an abort, the lock of a thread that waits for it or
releases it (x17), and the call `physical_address_of` (x2). -/
inductive Route where
  | abort (faultAddress : ℕ)
  | lock
  | physicalAddressOf
deriving Repr, DecidableEq

def Route.address (k : Kernel) (thread : ℕ) : Route → ℕ
  | .abort faultAddress => faultAddress
  | .lock => k.reg thread 17
  | .physicalAddressOf => k.reg thread 2

/-- The stores of `find_and_map_memory`, when it is called: an address that EL0 can write to
needs no mapping. -/
def Route.stores (k : Kernel) (thread : ℕ) : Route → List DescriptorStore
  | .abort faultAddress => faultStores k thread faultAddress
  | r =>
    if userWritable k (r.address k thread) then [] else faultStores k thread (r.address k thread)

theorem addressIsUserWritable_stores (k : Kernel) (thread a : ℕ) :
    (addressIsUserWritable k thread a).kernel =
      (if userWritable k a then [] else faultStores k thread a).foldl storeDescriptor k := by
  unfold addressIsUserWritable
  split
  · rfl
  · rw [← findAndMapMemory_stores]
    generalize findAndMapMemory k thread a = o
    cases o with
    | halt k₁ => rfl
    | ok k₁ u => rfl

/-- The first store is to the level-1 table, and that is the one that is too short. -/
theorem descriptorStores_inTable (k : Kernel) (cmb v fa : ℕ) :
    (∀ s ∈ descriptorStores k cmb v fa, s.InTable) ↔ fa % 2 ^ 39 < 2 ^ 34 := by
  have hlow : fa / 2 ^ 30 % 512 < 16 ↔ fa % 2 ^ 39 < 2 ^ 34 := by omega
  have h2 : fa / 2 ^ 21 % 512 < 512 := Nat.mod_lt _ (by decide)
  have h3 : fa / 2 ^ 12 % 512 < 512 := Nat.mod_lt _ (by decide)
  unfold descriptorStores
  simp only
  split
  · simp only [List.forall_mem_cons, List.not_mem_nil, false_imp_iff, implies_true, and_true,
      DescriptorStore.InTable, Level.entries, hlow]
  · split
    · simp only [List.forall_mem_cons, List.not_mem_nil, false_imp_iff, implies_true, and_true,
        DescriptorStore.InTable, Level.entries, hlow, h2]
    · simp only [List.forall_mem_cons, List.not_mem_nil, false_imp_iff, implies_true, and_true,
        DescriptorStore.InTable, Level.entries, hlow, h2, h3]

theorem faultStores_inTable (k : Kernel) (thread fa : ℕ) :
    (∀ s ∈ faultStores k thread fa, s.InTable) ↔
      fa % 2 ^ 39 < 2 ^ 34 ∨ ¬ ∃ v, FaultsIn k thread fa v := by
  by_cases h : ∃ v, FaultsIn k thread fa v
  · obtain ⟨v, hv⟩ := h
    rw [faultStores_found hv, descriptorStores_inTable]
    constructor
    · exact .inl
    · rintro (hlt | hno)
      · exact hlt
      · exact absurd ⟨v, hv⟩ hno
  · rw [faultStores_none h]
    constructor
    · intro _
      exact .inr h
    · intro _ s hs
      cases hs

/-- Every descriptor is stored inside its table exactly when the address is in the first
16GB of the 512GB that a level-1 table of full length would have, or the thread's map has no
block of memory there. -/
theorem stores_in_tables_iff (k : Kernel) (thread : ℕ) (r : Route) :
    (∀ s ∈ r.stores k thread, s.InTable) ↔
      r.address k thread % 2 ^ 39 < 2 ^ 34 ∨ ¬ ∃ v, FaultsIn k thread (r.address k thread) v := by
  have hwritable : ∀ a, (∀ s ∈ if userWritable k a then [] else faultStores k thread a,
      s.InTable) ↔ a % 2 ^ 39 < 2 ^ 34 ∨ ¬ ∃ v, FaultsIn k thread a v := by
    intro a
    split
    · rename_i hw
      constructor
      · intro _
        have hlow := userWritable_low hw
        exact .inl (by omega)
      · intro _ s hs
        cases hs
    · exact faultStores_inTable k thread a
  cases r with
  | abort fa => exact faultStores_inTable k thread fa
  | lock => exact hwritable _
  | physicalAddressOf => exact hwritable _

end Stores

/-! ## What one fault maps -/

/-- `clear_core_translation_tables` has been called. -/
structure Cleared (k : Kernel) : Prop where
  l1 : ∀ a < 16, k.l1 a = 0
  l2 : ∀ b < 512, k.l2 b = 0
  l3 : ∀ c < 512, k.l3 c = 0

/-- EL0 can execute the instruction at `va`. -/
def userExecutable (k : Kernel) (va : ℕ) : Bool :=
  match leaf k va with
  | some (e, _) => Entry.el0Accessible e = 1 ∧ field 54 1 e = 0 ∧ Entry.accessFlag e = 1
  | none => false

/-- The entry that a fault stores last. -/
def leafEntry (cmb vmb fa n : ℕ) : ℕ :=
  withVirtualMemoryAttrs (withPhysicalMemoryAttrs
    (Entry.setType (if n = 12 then 3 else 1) (blockAddress cmb vmb fa n)) cmb) vmb

section OneFault

variable {k : Kernel} {thread fa v cmb : ℕ}

theorem field_subtableAt {x : ℕ} (hal : x % 4096 = 0) (hlt : x < 2 ^ 48) :
    field 12 36 (Entry.subtableAt x) * 4096 = x := by
  have h : field 12 36 (Entry.subtableAt x) = field 12 36 x := field_setField_above (by decide) 3 x
  rw [h]
  unfold field
  omega

theorem type_leafEntry (n : ℕ) :
    Entry.type (leafEntry cmb v fa n) = if n = 12 then 3 else 1 := by
  unfold leafEntry
  rw [type_attrs]
  unfold Entry.type Entry.setType
  rw [field_setField]
  split
  · rfl
  · rfl

/-- The tables with one entry of level 1, where the hardware looks for the level-2 table. -/
def underLevel1 (k : Kernel) (i : ℕ) : Kernel :=
  { k with l1 := Function.update k.l1 i (Entry.subtableAt (k.layout.corePhysical + 8192)) }

theorem type_zero : Entry.type 0 = 0 := by decide

theorem leaf_level1 (hcl : Cleared k) {i e : ℕ} (ht : Entry.type e = 1) (va : ℕ) :
    leaf { k with l1 := Function.update k.l1 i e } va =
      if va < 2 ^ 34 ∧ va / 2 ^ 30 = i then some (e, 30) else none := by
  by_cases hva : va < 2 ^ 34
  · by_cases heq : va / 2 ^ 30 = i
    · simp only [leaf, hva, heq, and_self, if_true, Function.update_self, ht]
    · have h0 := hcl.l1 (va / 2 ^ 30) (by omega)
      simp only [leaf, hva, heq, and_false, if_true, if_false, Function.update_of_ne heq, h0,
        type_zero]
      rfl
  · simp only [leaf, hva, false_and, if_false]

/-- Under the entry `i` of level 1, the level-2 table alone decides. -/
theorem leaf_underLevel1 (hcl : Cleared k) {i : ℕ} {l2 l3 : ℕ → ℕ} (va : ℕ) :
    leaf { underLevel1 k i with l2 := l2, l3 := l3 } va =
      if va < 2 ^ 34 ∧ va / 2 ^ 30 = i then
        if Entry.type (l2 (va / 2 ^ 21 % 512)) = 1 then some (l2 (va / 2 ^ 21 % 512), 21)
        else if Entry.type (l2 (va / 2 ^ 21 % 512)) = 3 ∧
            field 12 36 (l2 (va / 2 ^ 21 % 512)) * 4096 = k.layout.corePhysical + 4096 then
          if Entry.type (l3 (va / 2 ^ 12 % 512)) = 3 then some (l3 (va / 2 ^ 12 % 512), 12)
          else none
        else none
      else none := by
  have hal := k.layout.corePhysical_aligned
  have hlt := k.layout.corePhysical_lt
  have htab2 := field_subtableAt (x := k.layout.corePhysical + 8192) (by omega) (by omega)
  by_cases hva : va < 2 ^ 34
  · by_cases heq : va / 2 ^ 30 = i
    · simp only [leaf, underLevel1, hva, heq, and_self, if_true, Function.update_self,
        type_subtableAt, htab2]
      rfl
    · have h0 := hcl.l1 (va / 2 ^ 30) (by omega)
      simp only [leaf, underLevel1, hva, heq, and_false, if_true, if_false,
        Function.update_of_ne heq, h0, type_zero]
      rfl
  · simp only [leaf, hva, false_and, if_false]

theorem leaf_level2 (hcl : Cleared k) {i j e : ℕ} (ht : Entry.type e = 1) (va : ℕ) :
    leaf { underLevel1 k i with l2 := Function.update k.l2 j e } va =
      if va < 2 ^ 34 ∧ va / 2 ^ 30 = i ∧ va / 2 ^ 21 % 512 = j then some (e, 21) else none := by
  rw [show ({ underLevel1 k i with l2 := Function.update k.l2 j e } : Kernel) =
    { underLevel1 k i with l2 := Function.update k.l2 j e, l3 := k.l3 } from rfl,
    leaf_underLevel1 hcl]
  by_cases hva : va < 2 ^ 34 ∧ va / 2 ^ 30 = i
  · by_cases heq : va / 2 ^ 21 % 512 = j
    · simp only [hva, heq, and_self, if_true, Function.update_self, ht]
    · have h0 := hcl.l2 (va / 2 ^ 21 % 512) (by omega)
      simp only [hva, heq, and_false, and_self, if_true, if_false, Function.update_of_ne heq, h0,
        type_zero]
      rfl
  · rw [if_neg hva, if_neg fun h => hva ⟨h.1, h.2.1⟩]

theorem leaf_level3 (hcl : Cleared k) {i j c e : ℕ} (ht : Entry.type e = 3) (va : ℕ) :
    leaf { underLevel1 k i with
        l2 := Function.update k.l2 j (Entry.subtableAt (k.layout.corePhysical + 4096))
        l3 := Function.update k.l3 c e } va =
      if va < 2 ^ 34 ∧ va / 2 ^ 30 = i ∧ va / 2 ^ 21 % 512 = j ∧ va / 2 ^ 12 % 512 = c then
        some (e, 12)
      else none := by
  have hal := k.layout.corePhysical_aligned
  have hlt := k.layout.corePhysical_lt
  have htab3 := field_subtableAt (x := k.layout.corePhysical + 4096) (by omega) (by omega)
  rw [leaf_underLevel1 hcl]
  by_cases hva : va < 2 ^ 34 ∧ va / 2 ^ 30 = i
  · by_cases heq : va / 2 ^ 21 % 512 = j
    · by_cases heq3 : va / 2 ^ 12 % 512 = c
      · simp only [hva, heq, heq3, and_self, if_true, Function.update_self, type_subtableAt,
          htab3, ht]
        rfl
      · have h0 := hcl.l3 (va / 2 ^ 12 % 512) (by omega)
        simp only [hva, heq, heq3, and_false, and_self, if_true, if_false, Function.update_self,
          Function.update_of_ne heq3, type_subtableAt, htab3, h0, type_zero]
        rfl
    · have h0 := hcl.l2 (va / 2 ^ 21 % 512) (by omega)
      simp only [hva, heq, and_false, false_and, and_self, if_true, if_false,
        Function.update_of_ne heq, h0, type_zero]
      rfl
  · rw [if_neg hva, if_neg fun h => hva ⟨h.1, h.2.1⟩]

/-- The tables have one leaf, for the `2 ^ n` bytes around the address; a larger leaf is used
only for blocks that start and end at multiples of it. -/
theorem leaf_mapBlock (hcl : Cleared k) (hphys : k.physicalAddress = k.layout.corePhysical)
    (hfa : fa < 2 ^ 34) (cmb v : ℕ) : ∃ n, (n = 12 ∨ n = 21 ∨ n = 30) ∧
      Vmb.startPage v % 2 ^ (n - 12) = 0 ∧ Vmb.pageCount v % 2 ^ (n - 12) = 0 ∧
      Cmb.startPage cmb % 2 ^ (n - 12) = 0 ∧
      ∀ va, leaf (mapBlock k cmb v fa) va =
        if va < 2 ^ 34 ∧ va / 2 ^ n = fa / 2 ^ n then some (leafEntry cmb v fa n, n) else none := by
  have hi1 : fa / 2 ^ 30 % 512 = fa / 2 ^ 30 := by omega
  have hi1lt : fa / 2 ^ 30 < 16 := by omega
  by_cases h1 : isL1Aligned (Vmb.startPage v) (Vmb.pageCount v) ∧
      isL1Aligned (Cmb.startPage cmb) (Cmb.pageCount cmb)
  · -- a 1GB block
    have hmap : mapBlock k cmb v fa = { k with
        l1 := Function.update k.l1 (fa / 2 ^ 30) (leafEntry cmb v fa 30) } := by
      unfold mapBlock
      simp only [h1, and_self, if_true, setL1, hi1, hi1lt]
      rfl
    simp only [isL1Aligned, decide_eq_true_eq] at h1
    refine ⟨30, by omega, h1.1.1, h1.1.2, h1.2.1, fun va => ?_⟩
    rw [hmap, leaf_level1 hcl (type_leafEntry 30)]
  · have hsub2 : Entry.subtableAt (l2Physical k) =
        Entry.subtableAt (k.layout.corePhysical + 8192) := by rw [l2Physical, hphys]
    by_cases h2 : isL2Aligned (Vmb.startPage v) (Vmb.pageCount v) ∧
        isL2Aligned (Cmb.startPage cmb) (Cmb.pageCount cmb)
    · -- a 2MB block, under a new level 2 table
      have hmap : mapBlock k cmb v fa = { underLevel1 k (fa / 2 ^ 30) with
          l2 := Function.update k.l2 (fa / 2 ^ 21 % 512) (leafEntry cmb v fa 21) } := by
        unfold mapBlock
        simp only [h1, h2, and_self, if_true, if_false, setL1, setL2, hi1, hi1lt, hsub2]
        rfl
      simp only [isL2Aligned, decide_eq_true_eq] at h2
      refine ⟨21, by omega, h2.1.1, h2.1.2, h2.2.1, fun va => ?_⟩
      rw [hmap, leaf_level2 hcl (type_leafEntry 21)]
      have hsame : va / 2 ^ 30 = fa / 2 ^ 30 ∧ va / 2 ^ 21 % 512 = fa / 2 ^ 21 % 512 ↔
          va / 2 ^ 21 = fa / 2 ^ 21 := by omega
      simp only [hsame]
    · -- a page, under new tables of both levels
      have hsub3 : ∀ l, Entry.subtableAt (l3Physical { k with l1 := l }) =
          Entry.subtableAt (k.layout.corePhysical + 4096) := by
        intro l
        rw [l3Physical]
        exact congrArg (fun p => Entry.subtableAt (p + 4096)) hphys
      have hmap : mapBlock k cmb v fa = { underLevel1 k (fa / 2 ^ 30) with
          l2 := Function.update k.l2 (fa / 2 ^ 21 % 512)
            (Entry.subtableAt (k.layout.corePhysical + 4096))
          l3 := Function.update k.l3 (fa / 2 ^ 12 % 512) (leafEntry cmb v fa 12) } := by
        unfold mapBlock
        simp only [h1, h2, if_true, if_false, setL1, setL2, setL3, hi1, hi1lt, hsub2, hsub3]
        rfl
      refine ⟨12, by omega, Nat.mod_one _, Nat.mod_one _, Nat.mod_one _, fun va => ?_⟩
      rw [hmap, leaf_level3 hcl (type_leafEntry 12)]
      have hsame : va / 2 ^ 30 = fa / 2 ^ 30 ∧ va / 2 ^ 21 % 512 = fa / 2 ^ 21 % 512 ∧
          va / 2 ^ 12 % 512 = fa / 2 ^ 12 % 512 ↔ va / 2 ^ 12 = fa / 2 ^ 12 := by omega
      simp only [hsame]

/-- The permissions of an entry are those of the virtual memory block. -/
theorem attrs_permissions (e : ℕ) :
    Entry.el0Accessible (withVirtualMemoryAttrs e v) = 1 ∧
      Entry.accessFlag (withVirtualMemoryAttrs e v) = 1 ∧
      (Entry.readOnly (withVirtualMemoryAttrs e v) = 0 ↔ Vmb.readOnly v = 0) ∧
      (field 54 1 (withVirtualMemoryAttrs e v) = 0 ↔ Vmb.executable v = 1) := by
  have hel0 : ∀ x r e, Entry.el0Accessible (Entry.el0 x r e) = 1 ∧
      Entry.accessFlag (Entry.el0 x r e) = Entry.accessFlag e ∧
      Entry.readOnly (Entry.el0 x r e) = r % 2 ∧ field 54 1 (Entry.el0 x r e) = x % 2 := by
    intro x r e
    unfold Entry.el0 Entry.setEl0Accessible Entry.setReadOnly Entry.setUnprivilegedExecuteNever
      Entry.setPrivilegedExecuteNever Entry.el0Accessible Entry.accessFlag Entry.readOnly
    refine ⟨field_setField _ _ _ _, ?_, ?_, ?_⟩
    · rw [field_setField_above (by decide), field_setField_above (by decide),
        field_setField_below (by decide), field_setField_below (by decide)]
    · rw [field_setField_above (by decide)]
      exact field_setField _ _ _ _
    · rw [field_setField_above (by decide), field_setField_above (by decide)]
      exact field_setField _ _ _ _
  have haf : Entry.accessFlag (Entry.shared 3 e) = 1 := field_setField _ _ _ _
  have hro : Vmb.readOnly v < 2 := field_lt 44 1 v
  have hex : Vmb.executable v < 2 := field_lt 45 1 v
  unfold withVirtualMemoryAttrs
  simp only
  split
  · rename_i hr
    split
    · rename_i hx
      obtain ⟨ha, hf, hrr, hxx⟩ := hel0 0 1 (Entry.shared 3 e)
      exact ⟨ha, hf.trans haf, by rw [Entry.el0Rx, hrr, hr],
        by rw [Entry.el0Rx, hxx, hx]; decide⟩
    · rename_i hx
      obtain ⟨ha, hf, hrr, hxx⟩ := hel0 1 1 (Entry.shared 3 e)
      exact ⟨ha, hf.trans haf, by rw [Entry.el0Ro, hrr, hr],
        by rw [Entry.el0Ro, hxx]; omega⟩
  · rename_i hr
    split
    · rename_i hx
      obtain ⟨ha, hf, hrr, hxx⟩ := hel0 0 0 (Entry.shared 3 e)
      exact ⟨ha, hf.trans haf, by rw [Entry.el0Rwx, hrr]; omega,
        by rw [Entry.el0Rwx, hxx, hx]; decide⟩
    · rename_i hx
      obtain ⟨ha, hf, hrr, hxx⟩ := hel0 1 0 (Entry.shared 3 e)
      exact ⟨ha, hf.trans haf, by rw [Entry.el0Rw, hrr]; omega,
        by rw [Entry.el0Rw, hxx]; omega⟩

/-- Both the virtual and the physical block are below 2GB, and have as many pages. -/
structure LowBlocks (cmb vmb : ℕ) : Prop where
  count : Cmb.pageCount cmb = Vmb.pageCount vmb
  virtual : (Vmb.startPage vmb + Vmb.pageCount vmb) * 4096 ≤ 2 ^ 31
  physical : (Cmb.startPage cmb + Cmb.pageCount cmb) * 4096 ≤ 2 ^ 31

/-- The address in the block that has the offset of `va` in the virtual memory block. -/
def offsetAddress (cmb vmb va : ℕ) : ℕ :=
  Cmb.startPage cmb * 4096 + (va - Vmb.startPage vmb * 4096)

/-- The address that a fault's entry translates `va` to. -/
theorem leafEntry_address {n va : ℕ} (hlow : LowBlocks (blockOf k v) v) (hc : Covers v fa)
    (hn : n = 12 ∨ n = 21 ∨ n = 30) (hvs : Vmb.startPage v % 2 ^ (n - 12) = 0)
    (hvc : Vmb.pageCount v % 2 ^ (n - 12) = 0)
    (hcs : Cmb.startPage (blockOf k v) % 2 ^ (n - 12) = 0) (hva : va / 2 ^ n = fa / 2 ^ n) :
    Covers v va ∧ field n (48 - n) (leafEntry (blockOf k v) v fa n) * 2 ^ n + va % 2 ^ n =
      offsetAddress (blockOf k v) v va := by
  have hcva : Covers v va := covers_around hn hc hvs hvc hva
  have hlows : LowStarts k [v] := by
    intro w hw
    obtain rfl := List.mem_singleton.1 hw
    have := hlow.virtual
    have := hlow.physical
    have := hlow.count
    unfold Covers at hc
    omega
  have hno : NoOverlap [v] := List.pairwise_singleton _ v
  have hright := rightLeaf_entry (t := if n = 12 then 3 else 1) hlows hno
    (List.mem_singleton_self v) hc hn hvs hvc hcs
  rcases hright va hva with ⟨w, hw, haddr⟩
  rw [find?_covers hno (List.mem_singleton_self v) hcva] at hw
  obtain rfl := Option.some.inj hw
  refine ⟨hcva, ?_⟩
  unfold leafEntry offsetAddress
  unfold Covers at hcva
  omega

/-- One fault in empty tables maps the address to its place in the block, and whatever else
it maps too, with the permissions of the virtual memory block. -/
theorem fault_maps (hcl : Cleared k) (hphys : k.physicalAddress = k.layout.corePhysical)
    (hf : FaultsIn k thread fa v) (hc : Covers v fa) (hlow : LowBlocks (blockOf k v) v) :
    ∃ k', findAndMapMemory k thread fa = .ok k' () ∧
      walk k' fa = some (offsetAddress (blockOf k v) v fa) ∧
      ∀ va pa, walk k' va = some pa → Covers v va ∧ pa = offsetAddress (blockOf k v) v va ∧
        (userWritable k' va = true ↔ Vmb.readOnly v = 0) ∧
        (userExecutable k' va = true ↔ Vmb.executable v = 1) := by
  have hfa : fa < 2 ^ 34 := by
    have := hlow.virtual
    unfold Covers at hc
    omega
  refine ⟨_, findAndMapMemory_eq hf, ?_⟩
  rcases leaf_mapBlock hcl hphys hfa (blockOf k v) v with
    ⟨n, hn, hvs, hvc, hcs, hleaf⟩
  constructor
  · unfold walk
    rw [hleaf, if_pos ⟨hfa, rfl⟩]
    exact congrArg some (leafEntry_address hlow hc hn hvs hvc hcs rfl).2
  · intro va pa hwalk
    unfold walk at hwalk
    unfold userWritable userExecutable
    rw [hleaf] at hwalk ⊢
    split at hwalk
    · rename_i hva
      rcases leafEntry_address hlow hc hn hvs hvc hcs hva.2 with ⟨hcva, haddr⟩
      rcases attrs_permissions (v := v) (withPhysicalMemoryAttrs (Entry.setType
        (if n = 12 then 3 else 1) (blockAddress (blockOf k v) v fa n)) (blockOf k v)) with
        ⟨hel0, haf, hro, hxn⟩
      refine ⟨hcva, (Option.some.inj hwalk).symm.trans haddr, ?_, ?_⟩
      · rw [if_pos hva, ← hro]
        simp only [decide_eq_true_eq, leafEntry, hel0, haf, true_and, and_true]
      · rw [if_pos hva, ← hxn]
        simp only [decide_eq_true_eq, leafEntry, hel0, haf, true_and, and_true]
    · cases hwalk

/-- The page at 0 of map 3 is in the block of interface 4, at 1MB. -/
theorem fault_maps_two_regions : ∃ k', findAndMapMemory (loadThisMap twoRegions 3)
    (startAddress + 0x1ffda0) 0xff8 = .ok k' () ∧ walk k' 0xff8 = some 0x100ff8 := by
  have hempty := loadThisMap_empty (k := twoRegions) (m := 3) (by decide +kernel) (by decide)
  have hfault : FaultsIn (loadThisMap twoRegions 3) (startAddress + 0x1ffda0) 0xff8
      (0 + 1 * 2 ^ 24 + 4 * 2 ^ 46) := by
    constructor <;> decide +kernel
  have hlow : LowBlocks (blockOf (loadThisMap twoRegions 3) (0 + 1 * 2 ^ 24 + 4 * 2 ^ 46))
      (0 + 1 * 2 ^ 24 + 4 * 2 ^ 46) := by
    constructor <;> decide +kernel
  rcases fault_maps ⟨hempty.1, hempty.2.1, hempty.2.2⟩ (by decide +kernel) hfault
    (by decide +kernel) hlow with ⟨k', hk', hwalk, -⟩
  exact ⟨k', hk', hwalk.trans (by decide +kernel)⟩

end OneFault

end Isambard.El1
