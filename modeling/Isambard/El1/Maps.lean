import Isambard.El1.State

/-!
# El1.Maps — translation tables and the loading of maps

Each core has one level-1, one level-2 and one level-3 table for EL0. Loading a
map clears them; an ordinary map is then filled in by faults, one entry at a
time, from the map's table of virtual memory blocks (`find_and_map_memory`). The
system map and the memory allocator's map are loaded in full.

* `include/aarch64_vmsa.h`: entries, as raw words with bit-fields;
* `include/system_services.h`: the packed objects of the system driver;
* `load_this_map`, `change_map`, `find_vmb`, `find_and_map_memory` of
  `secure_el1.c`;
* `walk`: what the hardware makes of the tables.

The processor halts in a `BSOD`, in an access that faults at EL1, or in a loop
that never ends: `Outcome.halt`.
-/

namespace Isambard.El1

open Isambard.Lib

/-- What becomes of a call: it halts the core, or it returns. -/
inductive Outcome (α : Type) where
  | halt (k : Kernel)
  | ok (k : Kernel) (a : α)

/-- The state of the kernel then. -/
def Outcome.kernel {α : Type} : Outcome α → Kernel
  | .halt k => k
  | .ok k _ => k

def Outcome.isOk {α : Type} : Outcome α → Bool
  | .halt _ => false
  | .ok _ _ => true

theorem Outcome.eq_ok {o : Outcome Unit} (h : o.isOk = true) : o = .ok o.kernel () := by
  cases o with
  | halt k => cases h
  | ok k a => rfl

/-- The thread that a handler returns. -/
def Outcome.now : Outcome ℕ → ℕ
  | .halt _ => 0
  | .ok _ now => now

theorem Outcome.eq_ok_now {o : Outcome ℕ} (h : o.isOk = true) : o = .ok o.kernel o.now := by
  cases o with
  | halt k => cases h
  | ok k now => rfl

/-- The next function, if this one returns. -/
def Outcome.andThen {α β : Type} (o : Outcome α) (f : Kernel → α → Outcome β) : Outcome β :=
  match o with
  | .halt k => .halt k
  | .ok k a => f k a

theorem Outcome.andThen_ok {α β : Type} {o : Outcome α} {f : Kernel → α → Outcome β} {k : Kernel}
    {b : β} (h : o.andThen f = .ok k b) : ∃ k₁ a, o = .ok k₁ a ∧ f k₁ a = .ok k b := by
  cases o with
  | halt k₁ => cases h
  | ok k₁ a => exact ⟨k₁, a, rfl, h⟩

/-! ## Entries -/

namespace Entry

def type : ℕ → ℕ := field 0 2
def memoryType : ℕ → ℕ := field 2 3
def el0Accessible : ℕ → ℕ := field 6 1
def readOnly : ℕ → ℕ := field 7 1
def accessFlag : ℕ → ℕ := field 10 1

def setType (v : ℕ) : ℕ → ℕ := setField 0 2 v
def setMemoryType (v : ℕ) : ℕ → ℕ := setField 2 3 v
def setEl0Accessible (v : ℕ) : ℕ → ℕ := setField 6 1 v
def setReadOnly (v : ℕ) : ℕ → ℕ := setField 7 1 v
def setShareability (v : ℕ) : ℕ → ℕ := setField 8 2 v
def setAccessFlag (v : ℕ) : ℕ → ℕ := setField 10 1 v
def setNotGlobal (v : ℕ) : ℕ → ℕ := setField 11 1 v
def setPrivilegedExecuteNever (v : ℕ) : ℕ → ℕ := setField 53 1 v
def setUnprivilegedExecuteNever (v : ℕ) : ℕ → ℕ := setField 54 1 v

def invalid : ℕ := 0
def pageAt (physical : ℕ) : ℕ := setType 3 physical
def subtableAt (physical : ℕ) : ℕ := setType 3 physical
def blockAt (physical : ℕ) : ℕ := setType 1 physical

def deviceMemory (e : ℕ) : ℕ :=
  setUnprivilegedExecuteNever 1 (setPrivilegedExecuteNever 1 (setMemoryType 0 e))
def writeBackMemory (e : ℕ) : ℕ := setMemoryType 5 e
def uncachedMemory (e : ℕ) : ℕ := setMemoryType 2 e

/-- The four `Aarch64_VMSA_el0_...` functions. -/
def el0 (executeNever readOnly : ℕ) (e : ℕ) : ℕ :=
  setEl0Accessible 1 (setReadOnly readOnly
    (setUnprivilegedExecuteNever executeNever (setPrivilegedExecuteNever executeNever e)))

def el0Ro : ℕ → ℕ := el0 1 1
def el0Rw : ℕ → ℕ := el0 1 0
def el0Rx : ℕ → ℕ := el0 0 1
def el0Rwx : ℕ → ℕ := el0 0 0

/-- The attributes that every entry for EL0 gets last. -/
def shared (shareability e : ℕ) : ℕ :=
  setAccessFlag 1 (setNotGlobal 1 (setShareability shareability e))

end Entry

/-! ## Packed objects -/

namespace Cmb

def startPage : ℕ → ℕ := field 0 24
def pageCount : ℕ → ℕ := field 24 20
def readOnly : ℕ → ℕ := field 44 1
def memoryType : ℕ → ℕ := field 61 3

end Cmb

namespace Vmb

def startPage : ℕ → ℕ := field 0 24
def pageCount : ℕ → ℕ := field 24 20
def readOnly : ℕ → ℕ := field 44 1
def executable : ℕ → ℕ := field 45 1
def memoryBlock : ℕ → ℕ := field 46 18

end Vmb

namespace MapValue

def heapOffsetLsr4 : ℕ → ℕ := field 0 32
def mapObject : ℕ → ℕ := field 32 20
def numberOfVmbs : ℕ → ℕ := field 52 12

end MapValue

/-- `x << 12` for a bit-field `x`, which is promoted to `int`: the 32-bit result
is sign-extended. -/
def shl12 (x : ℕ) : ℕ :=
  let y := x * 4096 % 2 ^ 32
  if y < 2 ^ 31 then y else y + (2 ^ 64 - 2 ^ 32)

/-! ## Walking the tables -/

/-- The leaf that the hardware finds for `va`, with the logarithm of the size it
maps. Addresses have 34 bits; the only subtables are the core's own. -/
def leaf (k : Kernel) (va : ℕ) : Option (ℕ × ℕ) :=
  if va < 2 ^ 34 then
    let e1 := k.l1 (va / 2 ^ 30)
    if Entry.type e1 = 1 then some (e1, 30)
    else if Entry.type e1 = 3 ∧ field 12 36 e1 * 4096 = k.layout.corePhysical + 8192 then
      let e2 := k.l2 (va / 2 ^ 21 % 512)
      if Entry.type e2 = 1 then some (e2, 21)
      else if Entry.type e2 = 3 ∧ field 12 36 e2 * 4096 = k.layout.corePhysical + 4096 then
        let e3 := k.l3 (va / 2 ^ 12 % 512)
        if Entry.type e3 = 3 then some (e3, 12) else none
      else none
    else none
  else none

/-- The physical address that `va` is translated to. -/
def walk (k : Kernel) (va : ℕ) : Option ℕ :=
  (leaf k va).map fun en => field en.2 (48 - en.2) en.1 * 2 ^ en.2 + va % 2 ^ en.2

/-- `AT S1E0W` succeeds: EL0 can write to `va`. -/
def userWritable (k : Kernel) (va : ℕ) : Bool :=
  match leaf k va with
  | some (e, _) => Entry.el0Accessible e = 1 ∧ Entry.readOnly e = 0 ∧ Entry.accessFlag e = 1
  | none => false

/-! ## Loading a map -/

/-- `core_tt_l1[i] = e`; the array has 16 entries. -/
def setL1 (k : Kernel) (i e : ℕ) : Kernel :=
  if i < 16 then { k with l1 := Function.update k.l1 i e }
  else k.setWord (k.layout.core + 12288 + 8 * i) e

def setL2 (k : Kernel) (i e : ℕ) : Kernel := { k with l2 := Function.update k.l2 i e }
def setL3 (k : Kernel) (i e : ℕ) : Kernel := { k with l3 := Function.update k.l3 i e }

/-- `core->physical_address->core_tt_l2`, and `core_tt_l3`. -/
def l2Physical (k : Kernel) : ℕ := k.physicalAddress + 8192
def l3Physical (k : Kernel) : ℕ := k.physicalAddress + 4096

/-- The first `n` entries of a table replaced. -/
def fill (n : ℕ) (f : ℕ → ℕ) (table : ℕ → ℕ) (i : ℕ) : ℕ := if i < n then f i else table i

def clearCoreTranslationTables (k : Kernel) : Kernel :=
  { k with
    l3 := fill 512 (fun _ => Entry.invalid) k.l3
    l2 := fill 512 (fun _ => Entry.invalid) k.l2
    l1 := fill 16 (fun _ => Entry.invalid) k.l1 }

def loadSystemMap (k : Kernel) : Kernel :=
  let k := setL1 k 0 (Entry.subtableAt (l2Physical k))
  let k := setL2 k 0 (Entry.subtableAt (l3Physical k))
  let k := { k with l3 := fill k.sharedSystemMapMappedPages k.sharedSystemMap k.l3 }
  let entry := Entry.shared 0 (Entry.writeBackMemory (Entry.el0Rw
    (Entry.pageAt k.physicalAddress)))
  let k := setL3 k k.sharedSystemMapCorePage entry
  { k with loadedMap := systemMapIndex }

/-- `max_physical_memory_gb`. -/
def maxPhysicalMemoryGb : ℕ := 8

def loadMemoryAllocatorMap (k : Kernel) : Kernel :=
  let block i := Entry.shared 0 (Entry.uncachedMemory (Entry.el0Rw (Entry.blockAt (i * 2 ^ 30))))
  let k := { k with l1 := fill maxPhysicalMemoryGb block k.l1 }
  let k := setL1 k maxPhysicalMemoryGb (Entry.subtableAt (l2Physical k))
  let k := setL2 k 0 (Entry.subtableAt (l3Physical k))
  let codePages := k.layout.allocatorCodePages
  let page i :=
    let e := Entry.pageAt (k.layout.allocatorStart + i * 4096)
    Entry.shared 1 (Entry.writeBackMemory (if i < codePages then Entry.el0Rx e else Entry.el0Rw e))
  let k := { k with l3 := fill (codePages + k.layout.allocatorDataPages) page k.l3 }
  { k with loadedMap := memoryAllocatorMapIndex }

def loadThisMap (k : Kernel) (newMap : ℕ) : Kernel :=
  if k.loadedMap ≠ newMap then
    let k := clearCoreTranslationTables k
    let k := if newMap = memoryAllocatorMapIndex then loadMemoryAllocatorMap k else k
    let k := if newMap = systemMapIndex then loadSystemMap k else k
    { k with loadedMap := newMap }
  else k

def changeMap (k : Kernel) (thread newMap : ℕ) : Outcome Unit :=
  if k.currentMap thread > k.lastInterface then .halt k
  else if newMap > k.lastInterface then .halt k
  else
    let k := if k.loadedMap ≠ newMap then loadThisMap k newMap else k
    if k.loadedMap ≠ newMap then .halt k
    else .ok (k.setCurrentMap thread newMap) ()

theorem loadThisMap_loadedMap (k : Kernel) (m : ℕ) : (loadThisMap k m).loadedMap = m := by
  unfold loadThisMap
  split
  · rfl
  · rename_i h
    exact not_not.1 h

theorem loadThisMap_self {k : Kernel} {m : ℕ} (h : k.loadedMap = m) : loadThisMap k m = k := by
  unfold loadThisMap
  rw [if_neg (not_not.2 h)]

/-- Loading a map changes the tables. -/
theorem loadThisMap_tables (k : Kernel) (m : ℕ) : ∃ n l1 l2 l3,
    loadThisMap k m = { k with loadedMap := n, l1 := l1, l2 := l2, l3 := l3 } := by
  have hlt : maxPhysicalMemoryGb < 16 := by decide
  unfold loadThisMap clearCoreTranslationTables loadMemoryAllocatorMap loadSystemMap setL1 setL2
    setL3
  simp only [hlt, if_true, show 0 < 16 by decide]
  split
  · split
    · split
      · exact ⟨_, _, _, _, rfl⟩
      · exact ⟨_, _, _, _, rfl⟩
    · split
      · exact ⟨_, _, _, _, rfl⟩
      · exact ⟨_, _, _, _, rfl⟩
  · exact ⟨_, _, _, _, rfl⟩

/-- `change_map` loads the map and makes it the thread's. -/
theorem changeMap_eq (k : Kernel) (thread newMap : ℕ) : changeMap k thread newMap =
    if k.currentMap thread > k.lastInterface then .halt k
    else if newMap > k.lastInterface then .halt k
    else .ok ((loadThisMap k newMap).setCurrentMap thread newMap) () := by
  have hload : (if k.loadedMap ≠ newMap then loadThisMap k newMap else k) =
      loadThisMap k newMap := by
    split
    · rfl
    · rename_i h
      exact (loadThisMap_self (not_not.1 h)).symm
  unfold changeMap
  simp only [hload, loadThisMap_loadedMap, ne_eq, not_true_eq_false, if_false]

/-! ## Faults -/

/-- The test of `find_vmb`: `page_offset` is not negative and is below the page count. It is an
`int32_t`, which is a `long` of 64 bits in `types.h`. -/
def vmbHas (vmb faPage : ℕ) : Bool :=
  let pageOffset := (faPage + 2 ^ 64 - Vmb.startPage vmb) % 2 ^ 64
  pageOffset < 2 ^ 63 ∧ pageOffset < Vmb.pageCount vmb

/-- The loop of `find_vmb`, for `n` words up to the top of the heap: `none` when
it runs over the top. -/
def vmbLoop (k : Kernel) (faPage : ℕ) : ℕ → ℕ → Option (Option ℕ)
  | 0, _ => none
  | n + 1, a =>
    let vmb := k.load64 a
    if Vmb.pageCount vmb > 0 then
      if vmbHas vmb faPage then some (some vmb) else vmbLoop k faPage n (a + 8)
    else some none

/-- The virtual memory block of the map with index `map` that `fa` is in; its
value, not a pointer to it. -/
def findVmb (k : Kernel) (map fa : ℕ) : Option (Option ℕ) :=
  let offset := MapValue.heapOffsetLsr4 (k.interfaces map).object
  if offset > (heapTop - k.heapBottom) / 16 then none
  else vmbLoop k (fa / 4096) (2 * offset) (startAddress + heapTop - 16 * offset)

/-- The index `kernel_last_interface` passes the test. Where the table fills its pages there is no
memory for that slot, and a kernel that uses the pointer takes an abort; here it is a slot like
the others. -/
def interfaceFromIndex (k : Kernel) (index : ℕ) : Option Interface :=
  if index % 2 ^ 32 > k.lastInterface then none else some (k.interfaces (index % 2 ^ 32))

def isL1Aligned (startPage pageCount : ℕ) : Bool :=
  startPage % 2 ^ 18 = 0 ∧ pageCount % 2 ^ 18 = 0

def isL2Aligned (startPage pageCount : ℕ) : Bool :=
  startPage % 2 ^ 9 = 0 ∧ pageCount % 2 ^ 9 = 0

def withVirtualMemoryAttrs (e vmb : ℕ) : ℕ :=
  let e := Entry.shared 3 e
  if Vmb.readOnly vmb = 1 then
    if Vmb.executable vmb = 1 then Entry.el0Rx e else Entry.el0Ro e
  else
    if Vmb.executable vmb = 1 then Entry.el0Rwx e else Entry.el0Rw e

def withPhysicalMemoryAttrs (e cmb : ℕ) : ℕ := Entry.setMemoryType (Cmb.memoryType cmb) e

/-- The physical address for `fa`, down to a multiple of `2 ^ lsb` from the start
of the block. -/
def blockAddress (cmb vmb fa lsb : ℕ) : ℕ :=
  (shl12 (Cmb.startPage cmb) +
    (fa + 2 ^ 64 - shl12 (Vmb.startPage vmb)) % 2 ^ 64 / 2 ^ lsb * 2 ^ lsb) % 2 ^ 64

/-- The part of `find_and_map_memory` that fills in the tables. -/
def mapBlock (k : Kernel) (cmb vmb fa : ℕ) : Kernel :=
  let attrs e := withVirtualMemoryAttrs (withPhysicalMemoryAttrs e cmb) vmb
  let i1 := fa / 2 ^ 30 % 512
  let i2 := fa / 2 ^ 21 % 512
  let i3 := fa / 2 ^ 12 % 512
  if isL1Aligned (Vmb.startPage vmb) (Vmb.pageCount vmb) ∧
      isL1Aligned (Cmb.startPage cmb) (Cmb.pageCount cmb) then
    setL1 k i1 (attrs (Entry.blockAt (blockAddress cmb vmb fa 30)))
  else
    let k := setL1 k i1 (Entry.subtableAt (l2Physical k))
    if isL2Aligned (Vmb.startPage vmb) (Vmb.pageCount vmb) ∧
        isL2Aligned (Cmb.startPage cmb) (Cmb.pageCount cmb) then
      setL2 k i2 (attrs (Entry.blockAt (blockAddress cmb vmb fa 21)))
    else
      let k := setL2 k i2 (Entry.subtableAt (l3Physical k))
      setL3 k i3 (attrs (Entry.pageAt (blockAddress cmb vmb fa 12)))

def findAndMapMemory (k : Kernel) (thread fa : ℕ) : Outcome Unit :=
  let map := k.currentMap thread
  if map = systemMapIndex then .halt k
  else if map = memoryAllocatorMapIndex then .halt k
  else
    match findVmb k map fa with
    | none => .halt k
    -- smc 3, and a caller that makes do with no mapping halts too
    | some none => .halt k
    | some (some vmb) =>
      match interfaceFromIndex k (Vmb.memoryBlock vmb) with
      | none => .halt k
      | some provider =>
        if provider.provider = systemMapIndex ∧
            provider.handler = systemServicePhysicalMemoryBlock then
          .ok (mapBlock k provider.object vmb fa) ()
        else .halt k

/-- `address_is_user_writable`; `false` halts its callers. -/
def addressIsUserWritable (k : Kernel) (thread address : ℕ) : Outcome Bool :=
  if userWritable k address then .ok k true
  else
    match findAndMapMemory k thread address with
    | .halt k => .halt k
    | .ok k _ => .ok k (userWritable k address)

/-! ## What faults change -/

section Tables

variable {k k' : Kernel} {thread fa : ℕ}

theorem mapBlock_tables {cmb vmb : ℕ} (hfa : fa < 2 ^ 34) : ∃ l1 l2 l3,
    mapBlock k cmb vmb fa = { k with l1 := l1, l2 := l2, l3 := l3 } := by
  have hi1 : fa / 2 ^ 30 % 512 < 16 := by omega
  unfold mapBlock
  simp only [setL1, hi1, if_true]
  split
  · exact ⟨_, k.l2, k.l3, rfl⟩
  · split
    · exact ⟨_, _, k.l3, rfl⟩
    · exact ⟨_, _, _, rfl⟩

/-- A fault at an address that the tables can map changes the tables. -/
theorem findAndMapMemory_tables (h : findAndMapMemory k thread fa = .ok k' ())
    (hfa : fa < 2 ^ 34) : ∃ l1 l2 l3, k' = { k with l1 := l1, l2 := l2, l3 := l3 } := by
  unfold findAndMapMemory at h
  simp only at h
  split at h
  · cases h
  · split at h
    · cases h
    · cases hv : findVmb k (k.currentMap thread) fa with
      | none =>
        rw [hv] at h
        cases h
      | some v =>
        rw [hv] at h
        cases v with
        | none => cases h
        | some vmb =>
          cases hi : interfaceFromIndex k (Vmb.memoryBlock vmb) with
          | none =>
            simp only [hi] at h
            cases h
          | some provider =>
            simp only [hi] at h
            split at h
            · cases h
              exact mapBlock_tables hfa
            · cases h

theorem leaf_low {va : ℕ} {en : ℕ × ℕ} (h : leaf k va = some en) : va < 2 ^ 34 := by
  unfold leaf at h
  by_contra hge
  rw [if_neg hge] at h
  cases h

theorem userWritable_low (h : userWritable k fa = true) : fa < 2 ^ 34 := by
  unfold userWritable at h
  cases hleaf : leaf k fa with
  | none =>
    rw [hleaf] at h
    cases h
  | some en => exact leaf_low hleaf

/-- The tables are changed, at most, so that EL0 can write to the address. -/
theorem addressIsUserWritable_ok (h : addressIsUserWritable k thread fa = .ok k' true) :
    fa < 2 ^ 34 ∧ ∃ l1 l2 l3, k' = { k with l1 := l1, l2 := l2, l3 := l3 } := by
  unfold addressIsUserWritable at h
  split at h
  · cases h
    exact ⟨userWritable_low ‹_›, k.l1, k.l2, k.l3, rfl⟩
  · cases hf : findAndMapMemory k thread fa with
    | halt k₁ =>
      rw [hf] at h
      cases h
    | ok k₁ u =>
      rw [hf] at h
      obtain ⟨rfl, hw⟩ := Outcome.ok.inj h
      have hlow := userWritable_low hw
      exact ⟨hlow, findAndMapMemory_tables hf hlow⟩

end Tables

end Isambard.El1
