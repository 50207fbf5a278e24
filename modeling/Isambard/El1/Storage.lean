import Isambard.El1.Boot
import Isambard.El1.Handlers

/-!
# El1.Storage — the table of the interfaces

`map_initial_storage` maps pages for as many interfaces as it is asked for, and
`new_memory_for_interfaces` links their slots. `interface_from_index` compares an index with
`kernel_last_interface`, which is the last index before that, and the number of slots after.

* `bootStorage`: what core 0 does with the table;
* `reachable_lastInterface`: the kernel keeps its bound;
* `index_checked_iff`: the indices for which `interface_from_index` returns what it should.
-/

namespace Isambard.El1

open Isambard.Lib

/-! ## The functions of the source -/

/-- `sizeof( Interface )`. -/
def interfaceSize : ℕ := 24

def numberOfSpecialInterfaces : ℕ := 2

/-- What the kernel maps and stores for its interfaces. -/
structure Storage where
  /-- `kernel_tt_l3` -/
  kernelTtL3 : ℕ → ℕ
  /-- `first_free_page` -/
  firstFreePage : ℕ
  /-- `kernel_interfaces_offset` -/
  interfacesOffset : ℕ
  /-- `kernel_last_interface` -/
  lastInterface : ℕ
  /-- `kernel_free_interface` -/
  freeInterface : ℕ
  /-- the slots that were initialised -/
  slots : ℕ → Option Interface

def pagesNeededFor (size : ℕ) : ℕ := (size + 4095) / 4096

/-- "May only add to the kernel's memory, not replace or remove (for now)"; otherwise the core
stops. -/
def assignKernelEntry (table : ℕ → ℕ) (entry kernelPage : ℕ) : Option (ℕ → ℕ) :=
  if kernelPage ≥ 512 ∨ table kernelPage ≠ Entry.invalid then none
  else some (Function.update table kernelPage entry)

/-- `Aarch64_VMSA_priv_rw_`, at level 1. -/
def Entry.privRw (e : ℕ) : ℕ :=
  setEl0Accessible 0 (setReadOnly 0 (setUnprivilegedExecuteNever 1 (setPrivilegedExecuteNever 1 e)))

/-- The entry for a page of storage. -/
def storageEntry (physical : ℕ) : ℕ :=
  Entry.writeBackMemory (Entry.setNotGlobal 0 (Entry.setShareability 3 (Entry.setAccessFlag 1
    (Entry.privRw (Entry.pageAt physical)))))

/-- The loops of `map_initial_storage`, for `n` pages from `page` on. -/
def assignPages (physical page : ℕ) : ℕ → (ℕ → ℕ) → Option (ℕ → ℕ)
  | 0, table => some table
  | n + 1, table => (assignPages physical page n table).bind fun table =>
    assignKernelEntry table (storageEntry (physical + 4096 * n)) (page + n)

/-- `interface_pages`. -/
def interfacePages (initialInterfaces : ℕ) : ℕ :=
  pagesNeededFor (initialInterfaces * interfaceSize)

def mapInitialStorage (s : Storage) (initialHeap initialInterfaces : ℕ) : Option Storage :=
  if initialInterfaces < numberOfSpecialInterfaces then none
  else
    let heapPages := pagesNeededFor initialHeap
    let pages := interfacePages initialInterfaces
    (assignPages s.firstFreePage (s.interfacesOffset / 4096) pages s.kernelTtL3).bind fun table =>
      let firstHeapPage := s.firstFreePage + 4096 * pages
      if heapPages > 512 then none
      else (assignPages firstHeapPage (512 - heapPages) heapPages table).map fun table =>
        { s with kernelTtL3 := table, firstFreePage := firstHeapPage + 4096 * heapPages }

/-- A slot with the marker, linked to the next one. -/
def freeSlot (next : ℕ) : Interface := ⟨next, freeMarker % 2 ^ 32, freeMarker / 2 ^ 32, 0⟩

/-- The loop of `new_memory_for_interfaces`, for `n` slots from `first` on. -/
def linkSlots (first : ℕ) : ℕ → (ℕ → Option Interface) → ℕ → Option Interface
  | 0, slots => slots
  | n + 1, slots =>
    Function.update (linkSlots first n slots) (first + n) (some (freeSlot (first + n + 1)))

def newMemoryForInterfaces (s : Storage) (newLast : ℕ) : Storage :=
  let firstNew := s.lastInterface + 1
  let slots := linkSlots firstNew (newLast - firstNew) s.slots
  { s with
    slots := Function.update slots (newLast - 1)
      ((slots (newLast - 1)).map fun last => { last with user := 0 })
    lastInterface := newLast
    freeInterface := firstNew }

/-- The interfaces of the two special maps. -/
def initialiseSpecialInterfaces (s : Storage) : Storage :=
  { s with
    slots := Function.update (Function.update s.slots
      systemMapIndex (some ⟨systemMapIndex, systemMapIndex, systemServiceMap, 0x535953⟩))
      memoryAllocatorMapIndex
      (some ⟨systemMapIndex, memoryAllocatorMapIndex, maxPhysicalMemory, 0x4d454d⟩) }

/-- The storage that core 0 starts with, unless it stops before. -/
def bootStorage (s : Storage) (initialHeap initialInterfaces : ℕ) : Option Storage :=
  (mapInitialStorage s initialHeap initialInterfaces).map fun s =>
    initialiseSpecialInterfaces (newMemoryForInterfaces s initialInterfaces)

/-- The slot that `interface_from_index` returns; the index is an `uint32_t`. -/
def interfaceSlot (lastInterface index : ℕ) : Option ℕ :=
  if index % 2 ^ 32 > lastInterface then none else some (index % 2 ^ 32)

theorem interfaceFromIndex_eq (k : Kernel) (index : ℕ) :
    interfaceFromIndex k index = (interfaceSlot k.lastInterface index).map k.interfaces := by
  unfold interfaceFromIndex interfaceSlot
  split
  · rfl
  · rfl

/-! ## The pages of the table -/

section Pages

variable {physical page n : ℕ} {table table' : ℕ → ℕ}

theorem storageEntry_valid (physical : ℕ) : storageEntry physical ≠ Entry.invalid := by
  have htype : Entry.type (storageEntry physical) = 3 := by
    have hbelow {lo w : ℕ} (h : 2 ≤ lo) (v e : ℕ) : field 0 2 (setField lo w v e) = field 0 2 e :=
      field_setField_below h v e
    unfold storageEntry Entry.privRw Entry.type Entry.writeBackMemory Entry.setMemoryType
      Entry.setNotGlobal Entry.setShareability Entry.setAccessFlag Entry.setEl0Accessible
      Entry.setReadOnly Entry.setUnprivilegedExecuteNever Entry.setPrivilegedExecuteNever
    rw [hbelow (by decide), hbelow (by decide), hbelow (by decide), hbelow (by decide),
      hbelow (by decide), hbelow (by decide), hbelow (by decide), hbelow (by decide)]
    exact field_setField 0 2 3 physical
  intro h
  rw [h] at htype
  cases htype

/-- The pages are entered in the table, and no other entry is changed. -/
theorem assignPages_some (h : assignPages physical page n table = some table') :
    (∀ j < n, table' (page + j) = storageEntry (physical + 4096 * j)) ∧
      ∀ i, table i ≠ Entry.invalid → table' i = table i := by
  induction n generalizing table' with
  | zero =>
    cases h
    exact ⟨fun j hj => absurd hj (Nat.not_lt_zero j), fun _ _ => rfl⟩
  | succ n ih =>
    rcases Option.bind_eq_some_iff.1 h with ⟨table₁, h₁, hlast⟩
    rcases ih h₁ with ⟨hpages, hkeep⟩
    unfold assignKernelEntry at hlast
    split at hlast
    · cases hlast
    rename_i hfree
    rw [not_or, not_not] at hfree
    cases hlast
    constructor
    · intro j hj
      rcases Nat.lt_succ_iff_lt_or_eq.1 hj with hlt | rfl
      · rw [Function.update_of_ne (by omega), hpages j hlt]
      · rw [Function.update_self]
    · intro i hi
      have hne : i ≠ page + n := by
        rintro rfl
        exact hi ((hkeep _ hi).symm.trans hfree.2)
      rw [Function.update_of_ne hne, hkeep i hi]

end Pages

/-! ## The slots -/

section Slots

variable {first n i : ℕ} {slots : ℕ → Option Interface}

theorem linkSlots_isSome : (linkSlots first n slots i).isSome =
    (decide (first ≤ i ∧ i < first + n) || (slots i).isSome) := by
  induction n with
  | zero =>
    simp [linkSlots]
  | succ n ih =>
    unfold linkSlots
    by_cases heq : i = first + n
    · have hin : first ≤ i ∧ i < first + (n + 1) := by omega
      rw [heq, Function.update_self, ← heq]
      simp [hin]
    · have hsame : (first ≤ i ∧ i < first + (n + 1)) ↔ first ≤ i ∧ i < first + n := by omega
      rw [Function.update_of_ne heq, ih]
      simp only [hsame]

theorem update_map_isSome (a : ℕ) (f : Interface → Interface) :
    (Function.update slots a ((slots a).map f) i).isSome = (slots i).isSome := by
  by_cases heq : i = a
  · rw [heq, Function.update_self, Option.isSome_map]
  · rw [Function.update_of_ne heq]

end Slots

/-! ## The kernel keeps its bound -/

section Bound

variable {k k' : Kernel} {t now : ℕ} {r : Regs} {e : Event}

theorem handle_lastInterface (h : handle k t e = .ok k' now) :
    k'.lastInterface = k.lastInterface := by
  cases he : e.isReturn with
  | false => exact (handle_grows he h).lastInterface
  | true =>
    cases e with
    | svc n =>
      have hn : Svc.ofNumber n = some .ret := by simpa [Event.isReturn] using he
      simp only [handle, handleSvc, hn] at h
      cases hr : handleReturn k t with
      | halt k₁ =>
        rw [hr] at h
        cases h
      | ok k₁ m =>
        rw [hr] at h
        have h₁ := (handleReturn_grows k hr).2.lastInterface
        exact ((syncCode_grows k₁ t (.ok (.refl k₁))).grows h).lastInterface.trans h₁
    | abort fa => cases he
    | irq => cases he

theorem kernelStep_lastInterface (h : kernelStep k r e = .ok k' now) :
    k'.lastInterface = k.lastInterface := by
  have henter := (enter_entered k k.runnable r).frame.lastInterface
  unfold kernelStep at h
  simp only at h
  cases hh : handle (enter k k.runnable r) k.runnable e with
  | halt k₁ =>
    rw [hh] at h
    cases h
  | ok k₁ m =>
    rw [hh] at h
    cases h
    have hleft : Left k₁ (leave k₁ k.runnable now r) k.runnable := leave_left rfl
    exact hleft.frame.lastInterface.trans ((handle_lastInterface hh).trans henter)

theorem reachable_lastInterface (h : (kernelSystem k).Reachable k') :
    k'.lastInterface = k.lastInterface := by
  refine h.invariant (P := fun s => s.lastInterface = k.lastInterface) ?_ ?_
  · rintro s rfl
    rfl
  · rintro s i s' hs ⟨now, hstep⟩
    exact (kernelStep_lastInterface hstep).trans hs

end Bound

/-! ## Indices -/

/-- Before boot, nothing has been stored in the pages that are to become the table. -/
structure BeforeStorage (s : Storage) : Prop where
  aligned : s.interfacesOffset % 4096 = 0
  lastInterface : s.lastInterface = numberOfSpecialInterfaces
  slots : ∀ i, s.slots i = none

/-- The address of a slot, `interfaces() + i`. -/
def slotAddress (s : Storage) (i : ℕ) : ℕ := startAddress + s.interfacesOffset + interfaceSize * i

/-- The byte at `a` is in a page that `map_initial_storage` mapped for the `n` interfaces. -/
def OnTablePage (before s : Storage) (n a : ℕ) : Prop :=
  ∃ j < interfacePages n, (a - startAddress) / 4096 = s.interfacesOffset / 4096 + j ∧
    s.kernelTtL3 ((a - startAddress) / 4096) = storageEntry (before.firstFreePage + 4096 * j)

/-- A pointer that is null, or one to an initialised slot on pages of the table. -/
def Checked (before s : Storage) (n : ℕ) : Option ℕ → Prop
  | none => True
  | some i => (s.slots i).isSome = true ∧
      ∀ b < interfaceSize, OnTablePage before s n (slotAddress s i + b)

section Indices

variable {before s : Storage} {initialHeap n i : ℕ}

theorem mapInitialStorage_some (h : mapInitialStorage before initialHeap n = some s) :
    numberOfSpecialInterfaces ≤ n ∧ s.interfacesOffset = before.interfacesOffset ∧
      s.lastInterface = before.lastInterface ∧ s.slots = before.slots ∧
      ∀ j < interfacePages n, s.kernelTtL3 (before.interfacesOffset / 4096 + j) =
        storageEntry (before.firstFreePage + 4096 * j) := by
  unfold mapInitialStorage at h
  split at h
  · cases h
  rename_i hle
  rcases Option.bind_eq_some_iff.1 h with ⟨table, htable, h⟩
  split at h
  · cases h
  rcases Option.map_eq_some_iff.1 h with ⟨table', htable', rfl⟩
  refine ⟨not_lt.1 hle, rfl, rfl, rfl, ?_⟩
  intro j hj
  -- the pages of the heap are others
  have hpage := (assignPages_some htable).1 j hj
  have hvalid := storageEntry_valid (before.firstFreePage + 4096 * j)
  exact ((assignPages_some htable').2 _ (by rw [hpage]; exact hvalid)).trans hpage

/-- The slots that are initialised at boot: the special ones, and those from 3 on. -/
theorem bootStorage_slots (hbefore : BeforeStorage before)
    (h : bootStorage before initialHeap n = some s) :
    (s.slots i).isSome = true ↔ i = 1 ∨ i = 2 ∨ 3 ≤ i ∧ i < n := by
  rcases Option.map_eq_some_iff.1 h with ⟨mapped, hmapped, rfl⟩
  rcases mapInitialStorage_some hmapped with ⟨-, -, hlast, hslots, -⟩
  have hnone : mapped.slots i = none := by rw [hslots, hbefore.slots]
  have hfirst : mapped.lastInterface + 1 = 3 := by rw [hlast, hbefore.lastInterface]; rfl
  unfold initialiseSpecialInterfaces newMemoryForInterfaces
  simp only [hfirst]
  unfold memoryAllocatorMapIndex systemMapIndex
  by_cases h2 : i = 2
  · rw [h2, Function.update_self]
    simp
  by_cases h1 : i = 1
  · rw [h1, Function.update_of_ne (by decide), Function.update_self]
    simp
  rw [Function.update_of_ne h2, Function.update_of_ne h1]
  rw [update_map_isSome, linkSlots_isSome, hnone]
  simp only [Option.isSome_none, Bool.or_false, decide_eq_true_eq]
  omega

/-- A slot below the number of slots is on pages of the table. -/
theorem bootStorage_onPage (hbefore : BeforeStorage before)
    (h : bootStorage before initialHeap n = some s) (hi : i = 1 ∨ i = 2 ∨ i < n) {b : ℕ}
    (hb : b < interfaceSize) : OnTablePage before s n (slotAddress s i + b) := by
  have hal := hbefore.aligned
  rcases Option.map_eq_some_iff.1 h with ⟨mapped, hmapped, rfl⟩
  rcases mapInitialStorage_some hmapped with ⟨hle, hoffset, -, -, hpages⟩
  have hoff : (initialiseSpecialInterfaces (newMemoryForInterfaces mapped n)).interfacesOffset =
    before.interfacesOffset := hoffset
  have htable : (initialiseSpecialInterfaces (newMemoryForInterfaces mapped n)).kernelTtL3 =
    mapped.kernelTtL3 := rfl
  generalize initialiseSpecialInterfaces (newMemoryForInterfaces mapped n) = s at hoff htable ⊢
  have hpage : (slotAddress s i + b - startAddress) / 4096 =
      before.interfacesOffset / 4096 + (interfaceSize * i + b) / 4096 := by
    unfold slotAddress
    rw [hoff]
    omega
  have hlt : (interfaceSize * i + b) / 4096 < interfacePages n := by
    unfold interfacePages pagesNeededFor interfaceSize numberOfSpecialInterfaces at *
    omega
  refine ⟨(interfaceSize * i + b) / 4096, hlt, by rw [hoff, hpage], ?_⟩
  rw [hpage, htable, hpages _ hlt]

/-- In every run of the kernel, `interface_from_index` refuses the indices above the number of
slots, and is right about those of the special slots and those from 3 on. It returns the slot 0
and the one behind the last, which are no interfaces. -/
theorem index_checked_iff {k k' : Kernel} (hbefore : BeforeStorage before)
    (h : bootStorage before initialHeap n = some s) (hk : k.lastInterface = s.lastInterface)
    (hreach : (kernelSystem k).Reachable k') (index : ℕ) :
    Checked before s n (interfaceSlot k'.lastInterface index) ↔
      n < index % 2 ^ 32 ∨ index % 2 ^ 32 = 1 ∨ index % 2 ^ 32 = 2 ∨
        3 ≤ index % 2 ^ 32 ∧ index % 2 ^ 32 < n := by
  have hlast : k'.lastInterface = n := by
    rw [reachable_lastInterface hreach, hk]
    rcases Option.map_eq_some_iff.1 h with ⟨mapped, -, rfl⟩
    rfl
  unfold interfaceSlot
  rw [hlast]
  generalize index % 2 ^ 32 = i
  split
  · rename_i hgt
    exact iff_of_true trivial (.inl hgt)
  · rename_i hle
    constructor
    · rintro ⟨hslot, -⟩
      exact .inr ((bootStorage_slots hbefore h).1 hslot)
    · intro hi
      have hi := hi.resolve_left (by omega)
      refine ⟨(bootStorage_slots hbefore h).2 hi, fun b hb => ?_⟩
      exact bootStorage_onPage hbefore h (by omega) hb

end Indices

/-! ### The table of 512 interfaces -/

/-- The kernel's memory as the boot layout has it: code, data and a core below the table. -/
def bootBefore : Storage where
  kernelTtL3 i := if i < 48 then Entry.pageAt (4096 * i) else 0
  firstFreePage := 0x400000
  interfacesOffset := 0x30000
  lastInterface := numberOfSpecialInterfaces
  freeInterface := 0
  slots _ := none

theorem bootBefore_before : BeforeStorage bootBefore := by
  constructor
  · decide
  · rfl
  · exact fun _ => rfl

def bootStored : Storage := (bootStorage bootBefore initialHeap tableSize).getD bootBefore

theorem bootStored_eq : bootStorage bootBefore initialHeap tableSize = some bootStored := by
  have hok : (bootStorage bootBefore initialHeap tableSize).isSome = true := by decide +kernel
  rcases Option.isSome_iff_exists.1 hok with ⟨s, hs⟩
  rw [bootStored, hs, Option.getD_some]

/-- The first slot that is not special. -/
theorem index_checked_3 :
    Checked bootBefore bootStored tableSize (interfaceSlot Kernel.boot.lastInterface 3) := by
  have hlast : Kernel.boot.lastInterface = bootStored.lastInterface := by decide +kernel
  exact (index_checked_iff bootBefore_before bootStored_eq hlast (.init rfl) 3).2
    (.inr (.inr (.inr (by decide))))

/-- The slot behind the last of 512 is in the next page, which is not the table's. -/
theorem index_512_behind :
    interfaceFromIndex Kernel.boot 512 = some (Kernel.boot.interfaces 512) ∧
      ¬ Checked bootBefore bootStored tableSize (interfaceSlot Kernel.boot.lastInterface 512) ∧
      ¬ OnTablePage bootBefore bootStored tableSize (slotAddress bootStored 512) := by
  have hslot : interfaceSlot Kernel.boot.lastInterface 512 = some 512 := by decide
  refine ⟨by rw [interfaceFromIndex_eq, hslot, Option.map_some], ?_, ?_⟩
  · rw [hslot]
    rintro ⟨hsome, -⟩
    rcases (bootStorage_slots bootBefore_before bootStored_eq).1 hsome with h | h | ⟨-, h⟩
    · cases h
    · cases h
    · exact absurd h (by decide)
  · rintro ⟨j, hj, hpage, -⟩
    have haddr : (slotAddress bootStored 512 - startAddress) / 4096 =
        bootStored.interfacesOffset / 4096 + 3 := by decide +kernel
    rw [haddr] at hpage
    have hlt : interfacePages tableSize = 3 := by decide
    omega

end Isambard.El1
