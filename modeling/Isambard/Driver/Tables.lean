import Isambard.Lib.Runs
import Isambard.El1.Svc
import Isambard.Driver.Blocks
import Mathlib.Tactic.IntervalCases

/-!
# Driver.Tables — the virtual memory blocks of maps

The calls of the system driver (`drivers/system.c`) that give out interfaces and
that edit the tables of virtual memory blocks. A table is in the kernel's heap;
the driver reads it with a special request, edits its copy and writes it back.
An entry names an interface by its index, and the kernel maps what it finds
there at the next fault.

* `Call`, `serve`: the calls;
* `Granted`: the interface belongs to the map whose table names it;
* `run_granted`: what is true of the runs in which `map_at` is given interfaces
  of the map, and leaves room for the end of the table. The driver tests neither.
-/

namespace Isambard.Driver

open Isambard.Lib Isambard.El1

/-! ## The calls -/

/-- A `ContiguousMemoryBlock`, by the members that the driver gives. -/
def cmbOf (startPage pageCount memoryType : ℕ) : ℕ :=
  setField 61 3 memoryType (setField 24 20 pageCount (setField 0 24 startPage 0))

def deviceNGnRnE : ℕ := 0
def fullyCacheable : ℕ := 5

/-- The heap offset of the table, `o.heap_offset_lsr4 << 4`. -/
def tableOffset (o : ℕ) : ℕ := MapValue.heapOffsetLsr4 o * 16 % 2 ^ 32

/-- The address of entry `j` of the table of the map with the object `o`. -/
def entryAddress (o j : ℕ) : ℕ := heapPointer (tableOffset o) + 8 * j

/-- The tests of the kernel when the driver reads or writes a table. -/
def tableOk (k : Kernel) (o : ℕ) : Bool :=
  heapBlockOk k (tableOffset o) (8 * MapValue.numberOfVmbs o) &&
    decide (8 * MapValue.numberOfVmbs o ≤ tableOffset o)

/-- The driver's copy is written back. -/
def writeTable (k : Kernel) (o : ℕ) (vmbs : ℕ → ℕ) : ℕ → Kernel
  | 0 => k
  | j + 1 => (writeTable k o vmbs j).store64 (entryAddress o j) (vmbs j)

/-- The loop of `map_at`: the first entry without pages is filled, and the one
after it is made the end. -/
def fillFirstFree (n : ℕ) (vmbs : ℕ → ℕ) (entry : ℕ) : ℕ → ℕ :=
  match (List.range n).find? fun i => Vmb.pageCount (vmbs i) = 0 with
  | none => vmbs
  | some i => Function.update (Function.update vmbs i entry) (i + 1) 0

/-- The entry that `map_at` makes. -/
def newVmb (startPage pageCount memoryBlock : ℕ) : ℕ :=
  setField 46 18 memoryBlock (setField 24 20 pageCount (setField 0 24 startPage 0))

def mapAt (k : Kernel) (thread o block start : ℕ) : Outcome ℕ :=
  match interfaceFromIndex k block with
  | none => .halt k
  | some e =>
    if tableOk k o then
      let vmbs j := k.load64 (entryAddress o j)
      let entry := newVmb (start / 4096) (Cmb.pageCount e.object) block
      let vmbs := fillFirstFree (MapValue.numberOfVmbs o) vmbs entry
      .ok (writeTable k o vmbs (MapValue.numberOfVmbs o)) thread
    else .halt k

/-- The inner loop of `unmap`, for at most `m` more entries. -/
def shiftDown (n : ℕ) : ℕ → ℕ → (ℕ → ℕ) → ℕ → ℕ
  | 0, _, vmbs => vmbs
  | m + 1, j, vmbs =>
    if j + 1 < n ∧ vmbs j ≠ 0 then shiftDown n m (j + 1) (Function.update vmbs j (vmbs (j + 1)))
    else vmbs

/-- The loop of `unmap`. -/
def removeEntry (n : ℕ) (vmbs : ℕ → ℕ) (startPage : ℕ) : ℕ → ℕ :=
  match (List.range n).find? fun i =>
      Vmb.pageCount (vmbs i) ≠ 0 ∧ Vmb.startPage (vmbs i) = startPage with
  | none => vmbs
  | some i => Function.update (shiftDown n n i vmbs) (i + 1) 0

/-- The table is written back before the call returns, or raises an exception. -/
def unmap (k : Kernel) (thread o start : ℕ) : Outcome ℕ :=
  if tableOk k o then
    let vmbs j := k.load64 (entryAddress o j)
    let vmbs := removeEntry (MapValue.numberOfVmbs o) vmbs (start / 4096)
    .ok (writeTable k o vmbs (MapValue.numberOfVmbs o)) thread
  else .halt k

/-- The driver makes an interface for a block, for the map of its caller. -/
def returnBlock (k : Kernel) (thread caller cmb : ℕ) : Outcome ℕ :=
  newInterface k thread caller systemMapIndex systemServicePhysicalMemoryBlock cmb

def getDevicePage (k : Kernel) (thread caller physicalAddress : ℕ) : Outcome ℕ :=
  returnBlock k thread caller (cmbOf (physicalAddress / 4096) 1 deviceNGnRnE)

def getPhysicalMemoryBlock (k : Kernel) (thread caller start size : ℕ) : Outcome ℕ :=
  returnBlock k thread caller (cmbOf (start / 4096) (size / 4096) fullyCacheable)

/-- `r` is what the memory manager answers. -/
def allocateMemory (k : Kernel) (thread caller size r : ℕ) : Outcome ℕ :=
  if r ≠ 0 then returnBlock k thread caller (cmbOf (r / 4096) (size / 4096) fullyCacheable)
  else .ok k thread

/-- The interface `service` is one that was registered, if any was found. -/
def getService (k : Kernel) (thread caller : ℕ) : Option ℕ → Outcome ℕ
  | none => .ok k thread
  | some service =>
    match interfaceFromIndex k service with
    | none => .halt k
    | some interface =>
      if interface.user ≠ systemMapIndex then .halt k
      else newInterface k thread caller interface.provider interface.handler interface.object

inductive Call where
  | getDevicePage (physicalAddress : ℕ)
  | getPhysicalMemoryBlock (start size : ℕ)
  | allocateMemory (size r : ℕ)
  | mapAt (block start : ℕ)
  | unmap (start : ℕ)
  | getService (service : Option ℕ)
deriving Repr, DecidableEq

/-- The call of a thread of the map `caller`, for the object `o`. -/
def serve (k : Kernel) (thread caller o : ℕ) : Call → Outcome ℕ
  | .getDevicePage physicalAddress => getDevicePage k thread caller physicalAddress
  | .getPhysicalMemoryBlock start size => getPhysicalMemoryBlock k thread caller start size
  | .allocateMemory size r => allocateMemory k thread caller size r
  | .mapAt block start => mapAt k thread o block start
  | .unmap start => unmap k thread o start
  | .getService service => getService k thread caller service

/-! ## Runs -/

/-- The slot is in use: slots are taken in order, and never given back. -/
def Allocated (k : Kernel) (i : ℕ) : Prop := 0 < i ∧ i < k.freeInterface

/-- The slots that are not in use are linked in order. -/
structure FreeSlots (k : Kernel) : Prop where
  last : k.lastInterface = tableSize
  pos : 2 < k.freeInterface
  lt : k.freeInterface < tableSize
  next : ∀ i, k.freeInterface ≤ i → i + 1 < tableSize → (k.interfaces i).next = i + 1
  stop : (k.interfaces (tableSize - 1)).next = 0
  /-- slot 0 is never used, and there is nothing behind the table -/
  outside : ∀ i, i = 0 ∨ tableSize ≤ i → (k.interfaces i).user = 0

/-- A map with a table: the interface it has of itself. -/
structure IsMap (k : Kernel) (m : ℕ) : Prop where
  allocated : Allocated k m
  provider : (k.interfaces m).provider = systemMapIndex
  handler : (k.interfaces m).handler = systemServiceMap
  self : MapValue.mapObject (k.interfaces m).object = m

/-- `b` is an interface of the map `m`, for a block of memory. -/
structure Granted (k : Kernel) (m b : ℕ) : Prop where
  allocated : Allocated k b
  user : (k.interfaces b).user = m
  provider : (k.interfaces b).provider = systemMapIndex
  handler : (k.interfaces b).handler = systemServicePhysicalMemoryBlock

/-- The object of the system driver's own map. -/
def systemMapObject : ℕ := 0x535953

/-- The table of a map is in the heap, in no thread context. -/
structure TableRoom (k : Kernel) (o : ℕ) : Prop where
  fits : k.heapBottom + MapValue.heapOffsetLsr4 o * 16 ≤ heapTop
  room : 8 * MapValue.numberOfVmbs o ≤ MapValue.heapOffsetLsr4 o * 16
  even : MapValue.numberOfVmbs o % 2 = 0
  place : ∀ j < MapValue.numberOfVmbs o, k.place (entryAddress o j) = .mem (entryAddress o j)

/-- The first entry without pages ends a table; entry `j` comes before it. -/
def Reached (k : Kernel) (o j : ℕ) : Prop :=
  j < MapValue.numberOfVmbs o ∧ ∀ i ≤ j, 0 < Vmb.pageCount (k.mem (entryAddress o i))

/-- The table has an end. -/
def Ended (k : Kernel) (o : ℕ) : Prop :=
  ∃ j < MapValue.numberOfVmbs o, Vmb.pageCount (k.mem (entryAddress o j)) = 0

/-- Two tables have no entry in common. -/
def TablesApart (o o' : ℕ) : Prop :=
  ∀ j < MapValue.numberOfVmbs o, ∀ j' < MapValue.numberOfVmbs o',
    entryAddress o j ≠ entryAddress o' j'

/-- What `initialise_driver_maps` leaves: each driver has three interfaces in a
row, for its map, its code and its data, and a table with the last two. -/
structure Booted (k : Kernel) : Prop where
  placed : Placed k
  free : FreeSlots k
  system : k.interfaces systemMapIndex =
    ⟨systemMapIndex, systemMapIndex, systemServiceMap, systemMapObject⟩
  allocator : (k.interfaces memoryAllocatorMapIndex).provider = memoryAllocatorMapIndex
  drivers : k.freeInterface % 3 = 0
  map : ∀ m, 2 < m → m < k.freeInterface → m % 3 = 0 →
    (k.interfaces m).user = m ∧ (k.interfaces m).provider = systemMapIndex ∧
      (k.interfaces m).handler = systemServiceMap ∧
      MapValue.mapObject (k.interfaces m).object = m
  block : ∀ m, 2 < m → m < k.freeInterface → m % 3 = 0 → ∀ b, b = m + 1 ∨ b = m + 2 →
    (k.interfaces b).user = m ∧ (k.interfaces b).provider = systemMapIndex ∧
      (k.interfaces b).handler = systemServicePhysicalMemoryBlock
  room : ∀ m, IsMap k m → TableRoom k (k.interfaces m).object
  ended : ∀ m, IsMap k m → Ended k (k.interfaces m).object
  table : ∀ m, IsMap k m → ∀ j, Reached k (k.interfaces m).object j →
    Vmb.memoryBlock (k.mem (entryAddress (k.interfaces m).object j)) = m + 1 ∨
      Vmb.memoryBlock (k.mem (entryAddress (k.interfaces m).object j)) = m + 2
  apart : ∀ m m', IsMap k m → IsMap k m' → m ≠ m' →
    TablesApart (k.interfaces m).object (k.interfaces m').object

/-- Anything that leaves the interfaces alone, and the part of the heap that is
in use: contexts are made below it. -/
structure Quiet (k k' : Kernel) : Prop where
  placed : Placed k'
  layout : k'.layout = k.layout
  interfaces : k'.interfaces = k.interfaces
  freeInterface : k'.freeInterface = k.freeInterface
  lastInterface : k'.lastInterface = k.lastInterface
  heapBottom : k'.heapBottom ≤ k.heapBottom
  contexts : ∃ new, k'.contexts = new ++ k.contexts ∧
    ∀ p ∈ new, p + contextSize ≤ startAddress + k.heapBottom
  mem : ∀ a, startAddress + k.heapBottom ≤ a → k'.mem a = k.mem a

/-- A step: a thread calls the driver through an interface that its map has of
some map; or the kernel makes an interface of another map's, or a duplicate of
an interface in use; or something else happens. -/
inductive Step where
  | call (thread i : ℕ) (c : Call)
  | create (thread user provider handler value : ℕ)
  | duplicate (thread user i : ℕ)
  | other
deriving Repr, DecidableEq

def driverStep (k : Kernel) : Step → Kernel → Prop
  | .call thread i c, k' => thread ∈ k.contexts ∧ Allocated k i ∧
      (k.interfaces i).provider = systemMapIndex ∧ (k.interfaces i).handler = systemServiceMap ∧
      serve k thread (k.interfaces i).user (k.interfaces i).object c = .ok k' thread
  | .create thread user provider handler value, k' => thread ∈ k.contexts ∧
      provider ≠ systemMapIndex ∧ newInterface k thread user provider handler value = .ok k' thread
  | .duplicate thread user i, k' => thread ∈ k.contexts ∧ Allocated k i ∧
      newInterface k thread user (k.interfaces i).provider (k.interfaces i).handler
        (k.interfaces i).object = .ok k' thread
  | .other, k' => Quiet k k'

/-- The kernel and the system driver, from boot. -/
def driverSystem : System Kernel Step := ⟨Booted, driverStep⟩

/-- The index of the first entry without pages of the table of `o`. -/
def firstFree (k : Kernel) (o : ℕ) : Option ℕ :=
  (List.range (MapValue.numberOfVmbs o)).find? fun i =>
    Vmb.pageCount (k.load64 (entryAddress o i)) = 0

/-- `map_at` is given a block of the map, and a table with room for its end; or a
block without pages. -/
def GivenBlock (k : Kernel) : Step → Prop
  | .call _ i (.mapAt block _) =>
    Cmb.pageCount (k.interfaces (block % 2 ^ 32)).object = 0 ∨
      (Granted k (MapValue.mapObject (k.interfaces i).object) (block % 2 ^ 18) ∧
        ∀ j, firstFree k (k.interfaces i).object = some j →
          j + 1 < MapValue.numberOfVmbs (k.interfaces i).object)
  | _ => True

/-- The slots not in use have no map's index in the place of `user`. -/
theorem FreeSlots.allocated_of_user {k : Kernel} (h : FreeSlots k) {i u : ℕ}
    (hu : (k.interfaces i).user = u) (hu₀ : u ≠ 0) (hu₃ : u < 3) : Allocated k i := by
  have hpos := h.pos
  by_contra hnot
  unfold Allocated at hnot
  rcases Nat.lt_or_ge 0 i with hi | hi
  · rcases Nat.lt_or_ge (i + 1) tableSize with hlt | hge
    · have hnext := h.next i (by omega) hlt
      unfold Interface.next at hnext
      omega
    · rcases Nat.lt_or_ge i tableSize with hlt | hge'
      · have hstop := h.stop
        rw [show tableSize - 1 = i by omega] at hstop
        unfold Interface.next at hstop
        omega
      · have := h.outside i (.inr hge')
        omega
  · have := h.outside i (.inl (by omega))
    omega

/-! ## Tables -/

section Tables

variable {k : Kernel} {o : ℕ}

theorem TableRoom.offset (h : TableRoom k o) :
    tableOffset o = MapValue.heapOffsetLsr4 o * 16 := by
  have := h.fits
  unfold tableOffset heapTop at *
  omega

theorem TableRoom.aligned (h : TableRoom k o) (j : ℕ) : entryAddress o j % 8 = 0 := by
  have hfits := h.fits
  unfold entryAddress heapPointer
  rw [h.offset]
  unfold startAddress heapTop at *
  omega

theorem TableRoom.load64 (h : TableRoom k o) {j : ℕ} (hj : j < MapValue.numberOfVmbs o) :
    k.load64 (entryAddress o j) = k.mem (entryAddress o j) := by
  rw [load64_eq_word (h.aligned j), Kernel.word, h.place j hj]

theorem entryAddress_inj {i j : ℕ} (h : entryAddress o i = entryAddress o j) : i = j := by
  unfold entryAddress at h
  omega

/-- The heap with the table of `o` replaced. -/
def tableMem (k : Kernel) (o : ℕ) (vmbs : ℕ → ℕ) : ℕ → ℕ → ℕ
  | 0 => k.mem
  | j + 1 => Function.update (tableMem k o vmbs j) (entryAddress o j) (vmbs j)

theorem tableMem_entry {vmbs : ℕ → ℕ} {n j : ℕ} (hj : j < n) :
    tableMem k o vmbs n (entryAddress o j) = vmbs j := by
  induction n with
  | zero => omega
  | succ n ih =>
    unfold tableMem
    by_cases h : j = n
    · rw [h, Function.update_self]
    · have hne : entryAddress o j ≠ entryAddress o n := fun heq => h (entryAddress_inj heq)
      rw [Function.update_of_ne hne, ih (by omega)]

theorem tableMem_other {vmbs : ℕ → ℕ} {n a : ℕ} (h : ∀ j < n, a ≠ entryAddress o j) :
    tableMem k o vmbs n a = k.mem a := by
  induction n with
  | zero => rfl
  | succ n ih =>
    unfold tableMem
    rw [Function.update_of_ne (h n (by omega)), ih fun j hj => h j (by omega)]

/-- Writing a table back changes the words of its entries only. -/
theorem writeTable_eq (h : TableRoom k o) (vmbs : ℕ → ℕ) (n : ℕ)
    (hn : n ≤ MapValue.numberOfVmbs o) :
    writeTable k o vmbs n = { k with mem := tableMem k o vmbs n } := by
  induction n with
  | zero => rfl
  | succ n ih =>
    have hplace : Kernel.place { k with mem := tableMem k o vmbs n } (entryAddress o n) =
        .mem (entryAddress o n) := h.place n (by omega)
    unfold writeTable
    rw [ih (by omega), store64_eq_setWord (h.aligned n), Kernel.setWord, hplace]
    rfl

end Tables

/-! ## The invariant -/

structure Inv (k : Kernel) : Prop where
  placed : Placed k
  free : FreeSlots k
  /-- a map's interface, whoever has it, holds the object of that map -/
  objects : ∀ i, Allocated k i → (k.interfaces i).provider = systemMapIndex →
    (k.interfaces i).handler = systemServiceMap → (k.interfaces i).object = systemMapObject ∨
      ∃ m, IsMap k m ∧ (k.interfaces m).object = (k.interfaces i).object
  room : ∀ m, IsMap k m → TableRoom k (k.interfaces m).object
  ended : ∀ m, IsMap k m → Ended k (k.interfaces m).object
  granted : ∀ m, IsMap k m → ∀ j, Reached k (k.interfaces m).object j →
    Granted k m (Vmb.memoryBlock (k.mem (entryAddress (k.interfaces m).object j)))
  apart : ∀ m m', IsMap k m → IsMap k m' → m ≠ m' →
    TablesApart (k.interfaces m).object (k.interfaces m').object

/-- The part of the invariant that no call can break: what the interfaces of maps
say, and where their tables are. -/
structure Maps (k : Kernel) : Prop where
  placed : Placed k
  free : FreeSlots k
  objects : ∀ i, Allocated k i → (k.interfaces i).provider = systemMapIndex →
    (k.interfaces i).handler = systemServiceMap → (k.interfaces i).object = systemMapObject ∨
      ∃ m, IsMap k m ∧ (k.interfaces m).object = (k.interfaces i).object
  room : ∀ m, IsMap k m → TableRoom k (k.interfaces m).object
  apart : ∀ m m', IsMap k m → IsMap k m' → m ≠ m' →
    TablesApart (k.interfaces m).object (k.interfaces m').object

theorem Inv.maps {k : Kernel} (h : Inv k) : Maps k :=
  ⟨h.placed, h.free, h.objects, h.room, h.apart⟩

/-- At boot the interfaces of maps are the system's own and the first of each
driver's three. -/
theorem Booted.map_slot {k : Kernel} (h : Booted k) {i : ℕ} (hi : Allocated k i)
    (hp : (k.interfaces i).provider = systemMapIndex)
    (hh : (k.interfaces i).handler = systemServiceMap) :
    i = systemMapIndex ∨ (2 < i ∧ i % 3 = 0) := by
  obtain ⟨hpos, hlt⟩ := hi
  rcases Nat.lt_or_ge 2 i with h2 | h2
  · right
    refine ⟨h2, ?_⟩
    by_contra hne
    obtain ⟨-, -, hh'⟩ := h.block (i / 3 * 3) (by omega) (by omega) (by omega) i (by omega)
    rw [hh] at hh'
    cases hh'
  · left
    have hne : i ≠ memoryAllocatorMapIndex := by
      rintro rfl
      rw [h.allocator] at hp
      cases hp
    unfold memoryAllocatorMapIndex at hne
    unfold systemMapIndex
    omega

theorem booted_maps {k : Kernel} (h : Booted k) : Maps k := by
  refine ⟨h.placed, h.free, ?_, h.room, h.apart⟩
  intro i hi hp hh
  rcases h.map_slot hi hp hh with rfl | ⟨h2, hmod⟩
  · exact .inl (congrArg Interface.object h.system)
  · have hm := h.map i h2 hi.2 hmod
    exact .inr ⟨i, ⟨hi, hp, hh, hm.2.2.2⟩, rfl⟩

/-- The system's own map has no table. -/
theorem Booted.driver_map {k : Kernel} (h : Booted k) {m : ℕ} (hm : IsMap k m) :
    2 < m ∧ m % 3 = 0 := by
  rcases h.map_slot hm.allocated hm.provider hm.handler with rfl | hm'
  · have hself := hm.self
    rw [h.system] at hself
    exact absurd hself (by decide)
  · exact hm'

theorem booted_inv {k : Kernel} (h : Booted k) : Inv k := by
  have hmaps := booted_maps h
  refine ⟨h.placed, h.free, hmaps.objects, h.room, h.ended, ?_, h.apart⟩
  intro m hm j hj
  obtain ⟨h2, hmod⟩ := h.driver_map hm
  have hb := h.table m hm j hj
  have hlt := hm.allocated.2
  have hdr := h.drivers
  obtain ⟨hu, hp, hh⟩ := h.block m h2 hlt hmod _ hb
  exact ⟨⟨by omega, by omega⟩, hu, hp, hh⟩

/-! ## Steps -/

section Frame

variable {k k' : Kernel}

theorem Granted.mono {m b : ℕ} (h : Granted k m b) (hfree : k.freeInterface ≤ k'.freeInterface)
    (hint : ∀ i, Allocated k i → k'.interfaces i = k.interfaces i) : Granted k' m b := by
  obtain ⟨ha, hu, hp, hh⟩ := h
  refine ⟨⟨ha.1, by have := ha.2; omega⟩, ?_, ?_, ?_⟩
  · rw [hint b ha, hu]
  · rw [hint b ha, hp]
  · rw [hint b ha, hh]

theorem TableRoom.congr {o : ℕ} (h : TableRoom k o) (hb : k'.heapBottom = k.heapBottom)
    (hp : ∀ j < MapValue.numberOfVmbs o, k'.place (entryAddress o j) =
      k.place (entryAddress o j)) : TableRoom k' o :=
  ⟨hb ▸ h.fits, h.room, h.even, fun j hj => (hp j hj).trans (h.place j hj)⟩

theorem Reached.congr {o j : ℕ} (h : Reached k' o j)
    (hm : ∀ i < MapValue.numberOfVmbs o, k'.mem (entryAddress o i) = k.mem (entryAddress o i)) :
    Reached k o j := by
  refine ⟨h.1, ?_⟩
  intro i hi
  rw [← hm i (by have := h.1; omega)]
  exact h.2 i hi

theorem Ended.congr {o : ℕ} (h : Ended k o)
    (hm : ∀ i < MapValue.numberOfVmbs o, k'.mem (entryAddress o i) = k.mem (entryAddress o i)) :
    Ended k' o := by
  obtain ⟨j, hj, hz⟩ := h
  exact ⟨j, hj, by rw [hm j hj, hz]⟩

end Frame

/-- The new interface is of another map, or for a block, or like one in use. -/
def MayCreate (k : Kernel) (e : Interface) : Prop :=
  e.provider ≠ systemMapIndex ∨ e.handler = systemServicePhysicalMemoryBlock ∨
    ∃ i, Allocated k i ∧ e.provider = (k.interfaces i).provider ∧
      e.handler = (k.interfaces i).handler ∧ e.object = (k.interfaces i).object

/-- A new interface is no map. -/
theorem isMap_create {k k' : Kernel} {e : Interface} (h : Maps k) (hc : MayCreate k e)
    (hint : k'.interfaces = Function.update k.interfaces k.freeInterface e)
    (hfree : k'.freeInterface = k.freeInterface + 1) {m : ℕ} (hm : IsMap k' m) : IsMap k m := by
  by_cases hne : m = k.freeInterface
  · subst hne
    obtain ⟨ha, hp, hh, hself⟩ := hm
    rw [hint, Function.update_self] at hp hh hself
    rcases hc with hc | hc | ⟨i, hi, hp', hh', ho⟩
    · exact absurd hp hc
    · rw [hc] at hh
      cases hh
    · rw [ho] at hself
      rw [hp'] at hp
      rw [hh'] at hh
      rcases h.objects i hi hp hh with hsys | ⟨m', hm', heq⟩
      · rw [hsys] at hself
        have := ha.1
        have hz : MapValue.mapObject systemMapObject = 0 := by decide
        omega
      · have := hm'.allocated.2
        have hself' := hm'.self
        rw [heq, hself] at hself'
        omega
  · obtain ⟨ha, hp, hh, hself⟩ := hm
    rw [hint, Function.update_of_ne hne] at hp hh hself
    have hlt := ha.2
    exact ⟨⟨ha.1, by omega⟩, hp, hh, hself⟩

/-- A step keeps the maps, and the interfaces in use. -/
structure Keeps (k k' : Kernel) : Prop where
  maps : Maps k'
  isMap : ∀ m, IsMap k' m ↔ IsMap k m
  free : k.freeInterface ≤ k'.freeInterface
  same : ∀ i, Allocated k i → k'.interfaces i = k.interfaces i

theorem Keeps.object {k k' : Kernel} (h : Keeps k k') {m : ℕ} (hm : IsMap k m) :
    (k'.interfaces m).object = (k.interfaces m).object :=
  congrArg Interface.object (h.same m hm.allocated)

/-- The tables of maps are as they were. -/
def TablesSame (k k' : Kernel) : Prop :=
  ∀ m, IsMap k m → ∀ i < MapValue.numberOfVmbs (k.interfaces m).object,
    k'.mem (entryAddress (k.interfaces m).object i) =
      k.mem (entryAddress (k.interfaces m).object i)

/-- A new interface is in the slot that was the first free one, and that was not
the last one of the table. -/
theorem create_slot {k k' : Kernel} {thread user provider handler value : ℕ} (h : FreeSlots k)
    (ht : thread ∈ k.contexts)
    (hnew : newInterface k thread user provider handler value = .ok k' thread) :
    k.freeInterface + 1 < tableSize ∧
      k' = { k with
        ctx := setCtx k.ctx thread 4 k.freeInterface
        freeInterface := k.freeInterface + 1
        interfaces := Function.update k.interfaces k.freeInterface
          ⟨user, provider, handler, value⟩ } := by
  obtain ⟨k₁, e, he, -, hk⟩ := newInterface_ok ht hnew
  obtain ⟨rfl, -, -, -, hnz, -⟩ := obtainInterface_ok he
  have hlt := h.lt
  have hmod : k.freeInterface % 2 ^ 32 = k.freeInterface :=
    Nat.mod_eq_of_lt (by unfold tableSize at hlt; omega)
  rw [hmod] at hk hnz
  have hlt' : k.freeInterface + 1 < tableSize := by
    by_contra hge
    have hlast : k.freeInterface = tableSize - 1 := by omega
    exact hnz (hlast ▸ h.stop)
  rw [h.next _ le_rfl hlt'] at hk
  exact ⟨hlt', hk⟩

/-- A new interface keeps the maps. -/
theorem create_keeps {k k' : Kernel} {thread user provider handler value : ℕ} (h : Maps k)
    (ht : thread ∈ k.contexts) (hc : MayCreate k ⟨user, provider, handler, value⟩)
    (hnew : newInterface k thread user provider handler value = .ok k' thread) :
    Keeps k k' ∧ TablesSame k k' := by
  obtain ⟨hlt', hk⟩ := create_slot h.free ht hnew
  have hint : k'.interfaces = Function.update k.interfaces k.freeInterface
      ⟨user, provider, handler, value⟩ := by rw [hk]
  have hfree : k'.freeInterface = k.freeInterface + 1 := by rw [hk]
  have hlastI : k'.lastInterface = k.lastInterface := by rw [hk]
  have hmem : k'.mem = k.mem := by rw [hk]
  have hcon : k'.contexts = k.contexts := by rw [hk]
  have hbot : k'.heapBottom = k.heapBottom := by rw [hk]
  have hlay : k'.layout = k.layout := by rw [hk]
  -- no slot is changed but the first free one
  have hold : ∀ i, Allocated k i → k'.interfaces i = k.interfaces i := by
    intro i hi
    rw [hint, Function.update_of_ne (by have := hi.2; omega)]
  have hmap : ∀ {m}, IsMap k' m → IsMap k m := fun hm => isMap_create h hc hint hfree hm
  have hmap' : ∀ {m}, IsMap k m → IsMap k' m := by
    intro m hm
    have hm' := hold m hm.allocated
    have hlt := hm.allocated.2
    exact ⟨⟨hm.allocated.1, by omega⟩, hm' ▸ hm.provider, hm' ▸ hm.handler, hm' ▸ hm.self⟩
  have hobj : ∀ {m}, IsMap k m → (k'.interfaces m).object = (k.interfaces m).object :=
    fun hm => congrArg Interface.object (hold _ hm.allocated)
  refine ⟨⟨⟨h.placed.congr hcon hbot, ⟨?_, ?_, ?_, ?_, ?_, ?_⟩, ?_, ?_, ?_⟩,
    fun m => ⟨hmap, hmap'⟩, by omega, hold⟩, fun m _ i _ => by rw [hmem]⟩
  · rw [hlastI, h.free.last]
  · have := h.free.pos
    omega
  · omega
  · intro i hi hi'
    rw [hint, Function.update_of_ne (by omega)]
    exact h.free.next i (by omega) hi'
  · rw [hint, Function.update_of_ne (by omega)]
    exact h.free.stop
  · intro i hi
    have hpos := h.free.pos
    rw [hint, Function.update_of_ne (by omega)]
    exact h.free.outside i hi
  · intro i hi hp hh
    by_cases hne : i = k.freeInterface
    · -- the new interface: it has the object of a map only if it was duplicated
      subst hne
      rw [hint, Function.update_self] at hp hh ⊢
      rcases hc with hc | hc | ⟨j, hj, hp', hh', ho⟩
      · exact absurd hp hc
      · rw [hc] at hh
        cases hh
      · rcases h.objects j hj (hp' ▸ hp) (hh' ▸ hh) with hsys | ⟨m, hm, heq⟩
        · exact .inl (ho.trans hsys)
        · refine .inr ⟨m, hmap' hm, ?_⟩
          rw [← hint, hobj hm, heq, ho]
    · have hi' : Allocated k i := ⟨hi.1, by have := hi.2; omega⟩
      rw [hold i hi'] at hp hh ⊢
      rcases h.objects i hi' hp hh with hsys | ⟨m, hm, heq⟩
      · exact .inl hsys
      · exact .inr ⟨m, hmap' hm, (hobj hm).trans heq⟩
  · intro m hm
    rw [hobj (hmap hm)]
    exact (h.room m (hmap hm)).congr hbot fun j _ => place_congr hlay hcon _
  · intro m m' hm hm' hne
    rw [hobj (hmap hm), hobj (hmap hm')]
    exact h.apart m m' (hmap hm) (hmap hm') hne

/-- A step that edits no table keeps the invariant. -/
theorem Keeps.inv {k k' : Kernel} (h : Inv k) (hk : Keeps k k') (hsame : TablesSame k k') :
    Inv k' := by
  refine ⟨hk.maps.placed, hk.maps.free, hk.maps.objects, hk.maps.room, ?_, ?_, hk.maps.apart⟩
  · intro m hm'
    have hm := (hk.isMap m).1 hm'
    rw [hk.object hm]
    exact (h.ended m hm).congr (hsame m hm)
  · intro m hm' j hj
    have hm := (hk.isMap m).1 hm'
    rw [hk.object hm] at hj ⊢
    rw [hsame m hm j hj.1]
    exact (h.granted m hm j (hj.congr (hsame m hm))).mono hk.free hk.same

/-- New entries for the table of the map `m`: it has an end, and the blocks named
before that are the map's. -/
structure GoodEntries (k : Kernel) (m n : ℕ) (vmbs : ℕ → ℕ) : Prop where
  ended : ∃ j < n, Vmb.pageCount (vmbs j) = 0
  granted : ∀ j < n, (∀ i ≤ j, 0 < Vmb.pageCount (vmbs i)) → Granted k m (Vmb.memoryBlock (vmbs j))

/-- The entries that the tables have. -/
theorem Inv.goodEntries {k : Kernel} (h : Inv k) {m : ℕ} (hm : IsMap k m) :
    GoodEntries k m (MapValue.numberOfVmbs (k.interfaces m).object)
      fun j => k.load64 (entryAddress (k.interfaces m).object j) := by
  have hroom := h.room m hm
  constructor
  · obtain ⟨j, hj, hz⟩ := h.ended m hm
    exact ⟨j, hj, by rw [hroom.load64 hj, hz]⟩
  · intro j hj hpos
    rw [hroom.load64 hj]
    refine h.granted m hm j ⟨hj, ?_⟩
    intro i hi
    have := hpos i hi
    rwa [hroom.load64 (by omega)] at this

/-- The entries of the tables after an edit of one of them. -/
theorem writeTable_entry {k : Kernel} {m : ℕ} (vmbs : ℕ → ℕ) (h : Maps k) (hm : IsMap k m)
    {m' : ℕ} (hm' : IsMap k m') {i : ℕ} (hi : i < MapValue.numberOfVmbs (k.interfaces m').object) :
    (writeTable k (k.interfaces m).object vmbs
      (MapValue.numberOfVmbs (k.interfaces m).object)).mem
        (entryAddress (k.interfaces m').object i) =
      if m' = m then vmbs i else k.mem (entryAddress (k.interfaces m').object i) := by
  rw [writeTable_eq (h.room m hm) vmbs _ le_rfl]
  show tableMem k (k.interfaces m).object vmbs _ _ = _
  by_cases hne : m' = m
  · subst hne
    rw [if_pos rfl, tableMem_entry hi]
  · rw [if_neg hne]
    exact tableMem_other fun j hj => h.apart m' m hm' hm hne i hi j hj

/-- An edit of one table keeps the maps. -/
theorem writeTable_keeps {k : Kernel} {m : ℕ} (vmbs : ℕ → ℕ) (h : Maps k) (hm : IsMap k m) :
    Keeps k (writeTable k (k.interfaces m).object vmbs
      (MapValue.numberOfVmbs (k.interfaces m).object)) := by
  rw [writeTable_eq (h.room m hm) vmbs _ le_rfl]
  generalize tableMem k (k.interfaces m).object vmbs _ = mem
  have hmap : ∀ m', IsMap { k with mem := mem } m' ↔ IsMap k m' := by
    intro m'
    constructor
    · intro hm'
      exact ⟨hm'.allocated, hm'.provider, hm'.handler, hm'.self⟩
    · intro hm'
      exact ⟨hm'.allocated, hm'.provider, hm'.handler, hm'.self⟩
  refine ⟨⟨h.placed.congr rfl rfl,
    ⟨h.free.last, h.free.pos, h.free.lt, h.free.next, h.free.stop, h.free.outside⟩, ?_, ?_, ?_⟩,
    hmap, le_rfl, fun i _ => rfl⟩
  · intro i hi hp hh
    rcases h.objects i hi hp hh with hs | ⟨m', hm', heq⟩
    · exact .inl hs
    · exact .inr ⟨m', (hmap m').2 hm', heq⟩
  · intro m' hm'
    exact (h.room m' ((hmap m').1 hm')).congr rfl fun j _ => place_congr rfl rfl _
  · intro a b ha hb hne
    exact h.apart a b ((hmap a).1 ha) ((hmap b).1 hb) hne

/-- An edit of one table keeps the invariant. -/
theorem writeTable_inv {k : Kernel} {m : ℕ} {vmbs : ℕ → ℕ} (h : Inv k) (hm : IsMap k m)
    (hv : GoodEntries k m (MapValue.numberOfVmbs (k.interfaces m).object) vmbs) :
    Inv (writeTable k (k.interfaces m).object vmbs
      (MapValue.numberOfVmbs (k.interfaces m).object)) := by
  have hk := writeTable_keeps vmbs h.maps hm
  have hentry := fun {m'} (hm' : IsMap k m') {i} hi => writeTable_entry vmbs h.maps hm hm'
    (i := i) hi
  refine ⟨hk.maps.placed, hk.maps.free, hk.maps.objects, hk.maps.room, ?_, ?_, hk.maps.apart⟩
  · intro m' hm'
    replace hm' := (hk.isMap m').1 hm'
    rw [hk.object hm']
    by_cases hne : m' = m
    · subst hne
      obtain ⟨j, hj, hz⟩ := hv.ended
      refine ⟨j, hj, ?_⟩
      rw [hentry hm' hj, if_pos rfl, hz]
    · refine (h.ended m' hm').congr ?_
      intro i hi
      rw [hentry hm' hi, if_neg hne]
  · intro m' hm' j hj
    replace hm' := (hk.isMap m').1 hm'
    rw [hk.object hm'] at hj ⊢
    rw [hentry hm' hj.1]
    by_cases hne : m' = m
    · subst hne
      rw [if_pos rfl]
      refine (hv.granted j hj.1 ?_).mono hk.free hk.same
      intro i hi
      have hpos := hj.2 i hi
      rwa [hentry hm' (by have := hj.1; omega), if_pos rfl] at hpos
    · rw [if_neg hne]
      refine (h.granted m' hm' j ⟨hj.1, ?_⟩).mono hk.free hk.same
      intro i hi
      have hpos := hj.2 i hi
      rwa [hentry hm' (by have := hj.1; omega), if_neg hne] at hpos

/-- `map_at` fills the entry that was the end, and makes the next one the end. -/
theorem fillFirstFree_good {k : Kernel} {m n entry : ℕ} {vmbs : ℕ → ℕ}
    (h : GoodEntries k m n vmbs)
    (hentry : Vmb.pageCount entry = 0 ∨ (Granted k m (Vmb.memoryBlock entry) ∧
      ∀ j, ((List.range n).find? fun i => Vmb.pageCount (vmbs i) = 0) = some j → j + 1 < n)) :
    GoodEntries k m n (fillFirstFree n vmbs entry) := by
  unfold fillFirstFree
  split
  · exact h
  · rename_i f hf
    have hf' := List.find?_range_eq_some.1 hf
    have hfn : f < n := List.mem_range.1 hf'.2.1
    constructor
    · rcases hentry with hz | ⟨-, hroom⟩
      · refine ⟨f, hfn, ?_⟩
        rw [Function.update_of_ne (by omega), Function.update_self, hz]
      · refine ⟨f + 1, hroom f hf, ?_⟩
        rw [Function.update_self]
        rfl
    · intro j hj hpos
      rcases Nat.lt_trichotomy j f with hlt | rfl | hgt
      · -- an entry before the new one
        rw [Function.update_of_ne (by omega), Function.update_of_ne (by omega)]
        refine h.granted j hj ?_
        intro i hi
        have := hpos i hi
        rwa [Function.update_of_ne (by omega), Function.update_of_ne (by omega)] at this
      · rw [Function.update_of_ne (by omega), Function.update_self]
        rcases hentry with hz | ⟨hg, -⟩
        · have := hpos j le_rfl
          rw [Function.update_of_ne (by omega), Function.update_self, hz] at this
          omega
        · exact hg
      · -- behind the end
        have := hpos (f + 1) hgt
        rw [Function.update_self] at this
        exact absurd this (by decide)

theorem shiftDown_below {n m j i : ℕ} {vmbs : ℕ → ℕ} (h : i < j) :
    shiftDown n m j vmbs i = vmbs i := by
  induction m generalizing j vmbs with
  | zero => rfl
  | succ m ih =>
    unfold shiftDown
    split
    · rw [ih (by omega), Function.update_of_ne (by omega)]
    · rfl

/-- The entry that is removed gets the one behind it. -/
theorem shiftDown_at {n m j : ℕ} {vmbs : ℕ → ℕ} (hj : j + 1 < n) (hv : vmbs j ≠ 0) :
    shiftDown n (m + 1) j vmbs j = vmbs (j + 1) := by
  unfold shiftDown
  rw [if_pos ⟨hj, hv⟩, shiftDown_below (by omega), Function.update_self]

theorem shiftDown_last {n m j : ℕ} {vmbs : ℕ → ℕ} (hj : n ≤ j + 1) :
    shiftDown n m j vmbs = vmbs := by
  cases m with
  | zero => rfl
  | succ m =>
    unfold shiftDown
    rw [if_neg (by omega)]

/-- `unmap` moves one entry down, and makes the next one the end. -/
theorem removeEntry_good {k : Kernel} {m n startPage : ℕ} {vmbs : ℕ → ℕ}
    (h : GoodEntries k m n vmbs) : GoodEntries k m n (removeEntry n vmbs startPage) := by
  unfold removeEntry
  split
  · exact h
  · -- `f` is the entry that is unmapped; an entry that maps pages is not the end
    rename_i f hf
    have hf' := List.find?_range_eq_some.1 hf
    have hfn : f < n := List.mem_range.1 hf'.2.1
    have hpc : Vmb.pageCount (vmbs f) ≠ 0 := by
      have := hf'.1
      simp only [decide_eq_true_eq] at this
      exact this.1
    have hnz : vmbs f ≠ 0 := by
      intro hz
      rw [hz] at hpc
      exact hpc rfl
    obtain ⟨n, rfl⟩ := Nat.exists_eq_succ_of_ne_zero (by omega : n ≠ 0)
    rcases Nat.lt_or_ge (f + 1) (n + 1) with hlt | hge
    · -- the entries below `f` stay, the next one comes to `f`, and the table ends there
      have hbelow : ∀ i < f, Function.update (shiftDown (n + 1) (n + 1) f vmbs) (f + 1) 0 i =
          vmbs i := by
        intro i hi
        rw [Function.update_of_ne (by omega), shiftDown_below hi]
      have hat : Function.update (shiftDown (n + 1) (n + 1) f vmbs) (f + 1) 0 f = vmbs (f + 1) := by
        rw [Function.update_of_ne (by omega), shiftDown_at hlt hnz]
      constructor
      · refine ⟨f + 1, hlt, ?_⟩
        rw [Function.update_self]
        rfl
      · intro j hj hpos
        have hbefore : ∀ i < f, i ≤ j → 0 < Vmb.pageCount (vmbs i) := by
          intro i hi hij
          rw [← hbelow i hi]
          exact hpos i hij
        -- an entry before `f`, the one that has come to `f`, or behind the new end
        rcases Nat.lt_trichotomy j f with hjf | rfl | hgt
        · rw [hbelow j hjf]
          exact h.granted j hj fun i hi => hbefore i (by omega) hi
        · rw [hat]
          refine h.granted (j + 1) hlt ?_
          intro i hi
          rcases Nat.lt_trichotomy i j with hij | rfl | hij
          · exact hbefore i hij (by omega)
          · omega
          · obtain rfl : i = j + 1 := by omega
            have := hpos j le_rfl
            rwa [hat] at this
        · have := hpos (f + 1) hgt
          rw [Function.update_self] at this
          exact absurd this (by decide)
    · -- the last entry: the driver stores behind the table
      rw [shiftDown_last hge]
      obtain ⟨z, hz, hzero⟩ := h.ended
      constructor
      · refine ⟨z, hz, ?_⟩
        rw [Function.update_of_ne (by omega), hzero]
      · intro j hj hpos
        rw [Function.update_of_ne (by omega)]
        refine h.granted j hj ?_
        intro i hi
        have := hpos i hi
        rwa [Function.update_of_ne (by omega)] at this

/-- Contexts made below the part of the heap in use do not change the places in
it. -/
theorem Quiet.place {k k' : Kernel} (h : Quiet k k') {a : ℕ}
    (ha : startAddress + k.heapBottom ≤ a) : k'.place a = k.place a := by
  obtain ⟨new, hc, hnew⟩ := h.contexts
  have hat : k'.contextAt a = k.contextAt a := by
    unfold Kernel.contextAt
    rw [hc, List.find?_append, List.find?_eq_none.2, Option.none_or]
    intro p hp
    have := hnew p hp
    simp
    omega
  unfold Kernel.place runnableAddress interruptThreadAddress blockedWithTimeoutAddress
    coreNumberAddress physicalAddressAddress
  rw [hat, h.layout]

theorem quiet_keeps {k k' : Kernel} (h : Maps k) (hq : Quiet k k') :
    Keeps k k' ∧ TablesSame k k' := by
  have hall : ∀ i, Allocated k' i ↔ Allocated k i := by
    intro i
    unfold Allocated
    rw [hq.freeInterface]
  have hmap : ∀ {m}, IsMap k' m ↔ IsMap k m := by
    intro m
    constructor
    · rintro ⟨ha, hp, hh, hs⟩
      rw [hq.interfaces] at hp hh hs
      exact ⟨(hall m).1 ha, hp, hh, hs⟩
    · rintro ⟨ha, hp, hh, hs⟩
      rw [← hq.interfaces] at hp hh hs
      exact ⟨(hall m).2 ha, hp, hh, hs⟩
  -- the tables are above the bottom of the heap
  have habove : ∀ {m}, IsMap k m → ∀ j,
      startAddress + k.heapBottom ≤ entryAddress (k.interfaces m).object j := by
    intro m hm j
    have hroom := h.room m hm
    have hfits := hroom.fits
    unfold entryAddress heapPointer
    rw [hroom.offset]
    omega
  have hobj : ∀ m, (k'.interfaces m).object = (k.interfaces m).object := by
    intro m
    rw [hq.interfaces]
  refine ⟨⟨⟨hq.placed, ⟨?_, ?_, ?_, ?_, ?_, ?_⟩, ?_, ?_, ?_⟩, fun m => hmap,
    hq.freeInterface.ge, fun i _ => by rw [hq.interfaces]⟩,
    fun m hm i _ => hq.mem _ (habove hm i)⟩
  · rw [hq.lastInterface, h.free.last]
  · rw [hq.freeInterface]
    exact h.free.pos
  · rw [hq.freeInterface]
    exact h.free.lt
  · rw [hq.freeInterface, hq.interfaces]
    exact h.free.next
  · rw [hq.interfaces]
    exact h.free.stop
  · rw [hq.interfaces]
    exact h.free.outside
  · intro i hi hp hh
    rw [hq.interfaces] at hp hh
    rw [hobj]
    rcases h.objects i ((hall i).1 hi) hp hh with hs | ⟨m, hm, heq⟩
    · exact .inl hs
    · exact .inr ⟨m, hmap.2 hm, by rw [hobj, heq]⟩
  · intro m hm
    have hroom := h.room m (hmap.1 hm)
    have hbot := hq.heapBottom
    have hfits := hroom.fits
    rw [hobj]
    refine ⟨by omega, hroom.room, hroom.even, ?_⟩
    intro j hj
    rw [hq.place (habove (hmap.1 hm) j)]
    exact hroom.place j hj
  · intro m m' hm hm' hne
    rw [hobj, hobj]
    exact h.apart m m' (hmap.1 hm) (hmap.1 hm') hne

/-- A table of the system's own map would be below the heap. -/
theorem tableOk_system {k : Kernel} (h : Placed k) {thread : ℕ} (ht : thread ∈ k.contexts) :
    tableOk k systemMapObject = false := by
  have hoff : tableOffset systemMapObject = 0x5359530 := by decide
  have hbot := h.bottom thread ht
  have htop := h.top thread ht
  have hmap := h.mapped
  have hle : (heapTop + 2 ^ 32 - k.heapBottom) % 2 ^ 32 ≤ initialHeap := by
    unfold heapTop initialHeap contextSize at *
    omega
  unfold tableOk heapBlockOk
  rw [hoff, decide_eq_false]
  · rfl
  · unfold initialHeap at hle
    omega

/-- The new entries of a table with the object `o`: those of `map_at`, or of
`unmap`. -/
def Edits (k : Kernel) (i : ℕ) (vmbs : ℕ → ℕ) : Call → Prop
  | .mapAt block start => vmbs = fillFirstFree (MapValue.numberOfVmbs (k.interfaces i).object)
      (fun j => k.load64 (entryAddress (k.interfaces i).object j))
      (newVmb (start / 4096) (Cmb.pageCount (k.interfaces (block % 2 ^ 32)).object) block)
  | .unmap start => vmbs = removeEntry (MapValue.numberOfVmbs (k.interfaces i).object)
      (fun j => k.load64 (entryAddress (k.interfaces i).object j)) (start / 4096)
  | _ => False

/-- What a call can do: edit one table, or none. -/
theorem call_cases {k k' : Kernel} {thread i : ℕ} {c : Call} (h : Maps k)
    (hstep : driverStep k (.call thread i c) k') :
    (Keeps k k' ∧ TablesSame k k') ∨
      ∃ m vmbs, IsMap k m ∧ (k.interfaces m).object = (k.interfaces i).object ∧
        Edits k i vmbs c ∧ k' = writeTable k (k.interfaces m).object vmbs
          (MapValue.numberOfVmbs (k.interfaces m).object) := by
  obtain ⟨ht, hi, hp, hh, hserve⟩ := hstep
  have hblock : ∀ {caller cmb}, returnBlock k thread caller cmb = .ok k' thread →
      Keeps k k' ∧ TablesSame k k' := fun hret => create_keeps h ht (.inr (.inl rfl)) hret
  have hstay : Keeps k k ∧ TablesSame k k :=
    ⟨⟨h, fun m => Iff.rfl, le_rfl, fun i _ => rfl⟩, fun m _ i _ => rfl⟩
  -- the object of the call is that of a map with a table, or the table is refused
  have htable : tableOk k (k.interfaces i).object = true →
      ∃ m, IsMap k m ∧ (k.interfaces m).object = (k.interfaces i).object := by
    intro hok
    rcases h.objects i hi hp hh with hs | hm
    · rw [hs, tableOk_system h.placed ht] at hok
      cases hok
    · exact hm
  cases c with
  | getDevicePage pa => exact .inl (hblock hserve)
  | getPhysicalMemoryBlock start size => exact .inl (hblock hserve)
  | allocateMemory size r =>
    simp only [serve, allocateMemory] at hserve
    split at hserve
    · exact .inl (hblock hserve)
    · cases hserve
      exact .inl hstay
  | mapAt block start =>
    simp only [serve, mapAt] at hserve
    split at hserve
    · cases hserve
    · rename_i e he
      obtain ⟨-, rfl⟩ := interfaceFromIndex_some he
      split at hserve
      · rename_i hok
        obtain ⟨m, hm, heq⟩ := htable hok
        cases hserve
        exact .inr ⟨m, _, hm, heq, rfl, by rw [heq]⟩
      · cases hserve
  | unmap start =>
    simp only [serve, unmap] at hserve
    split at hserve
    · rename_i hok
      obtain ⟨m, hm, heq⟩ := htable hok
      cases hserve
      exact .inr ⟨m, _, hm, heq, rfl, by rw [heq]⟩
    · cases hserve
  | getService service =>
    cases service with
    | none =>
      cases hserve
      exact .inl hstay
    | some service =>
      simp only [serve, getService] at hserve
      split at hserve
      · cases hserve
      · rename_i interface hint
        obtain ⟨-, rfl⟩ := interfaceFromIndex_some hint
        split at hserve
        · cases hserve
        · rename_i hu
          -- the service's interface is duplicated
          have ha := h.free.allocated_of_user (not_not.1 hu) (by decide) (by decide)
          refine .inl (create_keeps h ht ?_ hserve)
          exact .inr (.inr ⟨service % 2 ^ 32, ha, rfl, rfl, rfl⟩)

/-- The fields of the entry that `map_at` makes. -/
theorem newVmb_pageCount (s c b : ℕ) : Vmb.pageCount (newVmb s (Cmb.pageCount c) b) =
    Cmb.pageCount c := by
  unfold Vmb.pageCount newVmb
  rw [field_setField_below (by decide), field_setField]
  exact Nat.mod_eq_of_lt (field_lt 24 20 _)

theorem newVmb_memoryBlock (s p b : ℕ) : Vmb.memoryBlock (newVmb s p b) = b % 2 ^ 18 :=
  field_setField _ _ _ _

theorem call_inv {k k' : Kernel} {thread i : ℕ} {c : Call} (h : Inv k)
    (hgiven : GivenBlock k (.call thread i c)) (hstep : driverStep k (.call thread i c) k') :
    Inv k' := by
  rcases call_cases h.maps hstep with ⟨hk, hsame⟩ | ⟨m, vmbs, hm, heq, hedit, rfl⟩
  · exact hk.inv h hsame
  · apply writeTable_inv h hm
    cases c with
    | mapAt block start =>
      simp only [Edits, ← heq] at hedit
      rw [hedit]
      apply fillFirstFree_good (h.goodEntries hm)
      rw [newVmb_pageCount, newVmb_memoryBlock]
      simp only [GivenBlock, ← heq, hm.self] at hgiven
      exact hgiven
    | unmap start =>
      simp only [Edits, ← heq] at hedit
      rw [hedit]
      exact removeEntry_good (h.goodEntries hm)
    | getDevicePage pa => exact hedit.elim
    | getPhysicalMemoryBlock start size => exact hedit.elim
    | allocateMemory size r => exact hedit.elim
    | getService service => exact hedit.elim

/-- What a step that is not a call can do. -/
theorem step_keeps {k k' : Kernel} {s : Step} (h : Maps k)
    (hs : ∀ thread i c, s ≠ .call thread i c) (hstep : driverStep k s k') :
    Keeps k k' ∧ TablesSame k k' := by
  cases s with
  | call thread i c => exact absurd rfl (hs thread i c)
  | create thread user provider handler value =>
    obtain ⟨ht, hp, hnew⟩ := hstep
    exact create_keeps h ht (.inl hp) hnew
  | duplicate thread user i =>
    obtain ⟨ht, hi, hnew⟩ := hstep
    refine create_keeps h ht ?_ hnew
    exact .inr (.inr ⟨i, hi, rfl, rfl, rfl⟩)
  | other => exact quiet_keeps h hstep

theorem step_inv {k k' : Kernel} {s : Step} (h : Inv k) (hgiven : GivenBlock k s)
    (hstep : driverStep k s k') : Inv k' := by
  by_cases hs : ∃ thread i c, s = .call thread i c
  · obtain ⟨thread, i, c, rfl⟩ := hs
    exact call_inv h hgiven hstep
  · push Not at hs
    obtain ⟨hk, hsame⟩ := step_keeps h.maps hs hstep
    exact hk.inv h hsame

/-! ## Memory isolation -/

/-- `find_vmb` finds an entry of the table, before its end. -/
theorem vmbLoop_some {k : Kernel} {faPage n a v : ℕ} (h : vmbLoop k faPage n a = some (some v)) :
    ∃ j, v = k.load64 (a + 8 * j) ∧ ∀ i ≤ j, 0 < Vmb.pageCount (k.load64 (a + 8 * i)) := by
  induction n generalizing a with
  | zero => cases h
  | succ n ih =>
    simp only [vmbLoop] at h
    split at h
    · rename_i hpos
      split at h
      · cases h
        refine ⟨0, rfl, ?_⟩
        intro i hi
        obtain rfl : i = 0 := by omega
        exact hpos
      · obtain ⟨j, hv, hj⟩ := ih h
        refine ⟨j + 1, by rw [hv]; congr 1; omega, ?_⟩
        intro i hi
        cases i with
        | zero => exact hpos
        | succ i =>
          have := hj i (by omega)
          rwa [show a + 8 + 8 * i = a + 8 * (i + 1) by omega] at this
    · cases h

/-- In every run in which `map_at` is only given blocks of the map, with room
for the end of its table, the entries of a map's table are blocks of the map,
and so is what `find_and_map_memory` finds there. -/
theorem run_granted {k : Kernel} (h : (driverSystem.restrict GivenBlock).Reachable k) :
    ∀ m, IsMap k m →
      (∀ j, Reached k (k.interfaces m).object j →
        Granted k m (Vmb.memoryBlock (k.mem (entryAddress (k.interfaces m).object j)))) ∧
      ∀ fa v, findVmb k m fa = some (some v) → Granted k m (Vmb.memoryBlock v) := by
  have hinv : Inv k := h.invariant (fun s hs => booted_inv hs)
    fun s i s' hs hstep => step_inv hs hstep.1 hstep.2
  intro m hm
  refine ⟨hinv.granted m hm, ?_⟩
  intro fa v hv
  have hroom := hinv.room m hm
  have haddr : ∀ j, startAddress + heapTop -
      16 * MapValue.heapOffsetLsr4 (k.interfaces m).object + 8 * j =
        entryAddress (k.interfaces m).object j := by
    intro j
    unfold entryAddress heapPointer
    rw [hroom.offset, Nat.mul_comm 16]
  simp only [findVmb] at hv
  split at hv
  · cases hv
  · -- the walk stays before the end of the table
    obtain ⟨j, rfl, hpos⟩ := vmbLoop_some hv
    obtain ⟨z, hz, hzero⟩ := hinv.ended m hm
    have hjz : j < z := by
      by_contra hge
      have := hpos z (by omega)
      rw [haddr, hroom.load64 hz, hzero] at this
      omega
    have hj : Reached k (k.interfaces m).object j := by
      refine ⟨by omega, ?_⟩
      intro i hi
      have := hpos i hi
      rwa [haddr, hroom.load64 (by omega)] at this
    rw [haddr, hroom.load64 hj.1]
    exact hinv.granted m hm j hj

/-- Two drivers, with the maps 3 and 6, as they are after boot: a map has two
pages of code and one of data. -/
def twoDrivers : Kernel :=
  let entries (m : ℕ) : ℕ → ℕ
    | 0 => setField 44 2 3 (newVmb 0 2 (m + 1))
    | 1 => newVmb 2 1 (m + 2)
    | _ => 0
  { Kernel.boot with
    contexts := [startAddress + 0x1ff940, startAddress + 0x1ffba0, startAddress + 0x1ffe00]
    heapBottom := 0x1ff940
    freeInterface := 9
    interfaces := fun i =>
      match i with
      | 1 => ⟨1, 1, systemServiceMap, systemMapObject⟩
      | 2 => ⟨1, 2, 2 ^ 33, 0x4d454d⟩
      | 3 => ⟨3, 1, systemServiceMap, 12 * 2 ^ 52 + 3 * 2 ^ 32 + 0x26⟩
      | 4 => ⟨3, 1, systemServicePhysicalMemoryBlock, cmbOf 0x100 2 fullyCacheable⟩
      | 5 => ⟨3, 1, systemServicePhysicalMemoryBlock, cmbOf 0x102 1 fullyCacheable⟩
      | 6 => ⟨6, 1, systemServiceMap, 12 * 2 ^ 52 + 6 * 2 ^ 32 + 0x4c⟩
      | 7 => ⟨6, 1, systemServicePhysicalMemoryBlock, cmbOf 0x110 2 fullyCacheable⟩
      | 8 => ⟨6, 1, systemServicePhysicalMemoryBlock, cmbOf 0x112 1 fullyCacheable⟩
      | i => Kernel.boot.interfaces i
    mem := fun a =>
      if startAddress + 0x1ffda0 ≤ a ∧ a < startAddress + 0x1ffe00 then
        entries 3 ((a - (startAddress + 0x1ffda0)) / 8)
      else if startAddress + 0x1ffb40 ≤ a ∧ a < startAddress + 0x1ffba0 then
        entries 6 ((a - (startAddress + 0x1ffb40)) / 8)
      else 0 }

/-- The maps of the two drivers. -/
theorem twoDrivers_isMap {m : ℕ} (h : IsMap twoDrivers m) : m = 3 ∨ m = 6 := by
  obtain ⟨⟨hpos, hlt⟩, hp, hh, hself⟩ := h
  change m < 9 at hlt
  interval_cases m
  · exact absurd hself (by decide)
  · exact absurd hp (by decide)
  · exact .inl rfl
  · exact absurd hh (by decide)
  · exact absurd hh (by decide)
  · exact .inr rfl
  · exact absurd hh (by decide)
  · exact absurd hh (by decide)

theorem twoDrivers_free {i : ℕ} (h : 9 ≤ i) : twoDrivers.interfaces i =
    ⟨if i + 1 < tableSize then i + 1 else 0, freeMarker % 2 ^ 32, freeMarker / 2 ^ 32, 0⟩ := by
  obtain ⟨i, rfl⟩ := Nat.exists_eq_add_of_le' h
  rfl

theorem twoDrivers_booted : Booted twoDrivers where
  placed := ⟨by decide, by decide, by decide, by decide, by decide⟩
  free := by
    refine ⟨rfl, by decide, by decide, ?_, rfl, ?_⟩
    · intro i hi hlt
      rw [twoDrivers_free hi]
      show (if i + 1 < tableSize then i + 1 else 0) = i + 1
      rw [if_pos hlt]
    · rintro i (rfl | hi)
      · rfl
      · rw [twoDrivers_free (le_trans (by decide) hi)]
        show (if i + 1 < tableSize then i + 1 else 0) = 0
        rw [if_neg (by omega)]
  system := rfl
  allocator := rfl
  drivers := rfl
  map := by
    intro m h2 hlt hmod
    change m < 9 at hlt
    obtain rfl | rfl : m = 3 ∨ m = 6 := by omega
    · decide
    · decide
  block := by
    intro m h2 hlt hmod b hb
    change m < 9 at hlt
    obtain rfl | rfl : m = 3 ∨ m = 6 := by omega
    · rcases hb with rfl | rfl <;> decide
    · rcases hb with rfl | rfl <;> decide
  room := by
    intro m hm
    rcases twoDrivers_isMap hm with rfl | rfl
    · exact ⟨by decide, by decide, by decide, by decide +kernel⟩
    · exact ⟨by decide, by decide, by decide, by decide +kernel⟩
  ended := by
    intro m hm
    rcases twoDrivers_isMap hm with rfl | rfl
    · exact ⟨2, by decide, by decide +kernel⟩
    · exact ⟨2, by decide, by decide +kernel⟩
  table := by
    intro m hm j hj
    -- each table has two entries, so the third is its end
    have hj2 : j < 2 := by
      by_contra hge
      have h2 := hj.2 2 (by omega)
      rcases twoDrivers_isMap hm with rfl | rfl
      · revert h2
        decide +kernel
      · revert h2
        decide +kernel
    rcases twoDrivers_isMap hm with rfl | rfl
    · interval_cases j <;> decide +kernel
    · interval_cases j <;> decide +kernel
  apart := by
    intro m m' hm hm' hne
    rcases twoDrivers_isMap hm with rfl | rfl <;> rcases twoDrivers_isMap hm' with rfl | rfl
    · exact absurd rfl hne
    · unfold TablesApart
      decide +kernel
    · unfold TablesApart
      decide +kernel
    · exact absurd rfl hne

/-- The map 3 maps the block of interface `block` at 64KB. -/
def mappedBlock (block : ℕ) : Outcome ℕ :=
  mapAt twoDrivers (startAddress + 0x1ffba0) (twoDrivers.interfaces 3).object block 0x10000

theorem mappedBlock_step {b : ℕ} (h : (mappedBlock b).isOk = true)
    (hnow : (mappedBlock b).now = startAddress + 0x1ffba0) :
    driverStep twoDrivers (.call (startAddress + 0x1ffba0) 3 (.mapAt b 0x10000))
      (mappedBlock b).kernel := by
  have heq := Outcome.eq_ok_now h
  rw [hnow] at heq
  exact ⟨by decide, ⟨by decide, by decide⟩, rfl, rfl, heq⟩

/-- The map 3 maps a block of its own. -/
theorem run_granted_own_block :
    Granted (mappedBlock 5).kernel 3 (Vmb.memoryBlock ((mappedBlock 5).kernel.mem
      (entryAddress ((mappedBlock 5).kernel.interfaces 3).object 2))) := by
  have hstep := mappedBlock_step (b := 5) (by decide +kernel) (by decide +kernel)
  have hgiven : GivenBlock twoDrivers (.call (startAddress + 0x1ffba0) 3 (.mapAt 5 0x10000)) := by
    refine .inr ⟨⟨⟨by decide, by decide⟩, rfl, rfl, rfl⟩, ?_⟩
    intro j hj
    have hfirst : firstFree twoDrivers (twoDrivers.interfaces 3).object = some 2 := by
      decide +kernel
    rw [hfirst] at hj
    obtain rfl := Option.some.inj hj
    decide
  have hreach : (driverSystem.restrict GivenBlock).Reachable (mappedBlock 5).kernel :=
    .step (.init twoDrivers_booted) ⟨hgiven, hstep⟩
  refine (run_granted hreach 3 ⟨⟨by decide, ?_⟩, ?_, ?_, ?_⟩).1 2 ⟨?_, ?_⟩
  · decide +kernel
  · decide +kernel
  · decide +kernel
  · decide +kernel
  · decide +kernel
  · decide +kernel

/-- The map 3 maps a block that belongs to the map 6. -/
theorem other_maps_block_mapped :
    ¬ ∀ k, driverSystem.Reachable k → ∀ m, IsMap k m → ∀ j, Reached k (k.interfaces m).object j →
      Granted k m (Vmb.memoryBlock (k.mem (entryAddress (k.interfaces m).object j))) := by
  intro h
  have hstep := mappedBlock_step (b := 7) (by decide +kernel) (by decide +kernel)
  have hreach : driverSystem.Reachable (mappedBlock 7).kernel :=
    .step (i := .call (startAddress + 0x1ffba0) 3 (.mapAt 7 0x10000)) (.init twoDrivers_booted)
      hstep
  have hmap : IsMap (mappedBlock 7).kernel 3 :=
    ⟨⟨by decide, by decide +kernel⟩, by decide +kernel, by decide +kernel, by decide +kernel⟩
  have hgr := h _ hreach 3 hmap 2 ⟨by decide +kernel, by decide +kernel⟩
  have huser := hgr.user
  revert huser
  decide +kernel

end Isambard.Driver
