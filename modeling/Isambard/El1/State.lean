import Isambard.Lib.Fields
import Mathlib.Logic.Function.Basic

/-!
# El1.State — the kernel's memory, as one core sees it

The state that secure EL1 works on (`include/core_isambard.h`, and the static
variables of `secure_el1.c`), for one core. Pointers are 64-bit addresses, and
every access of the C code is an access to a word at an address: EL0 code passes
thread codes to the kernel, and the kernel makes pointers of them.

Memory is kept in parts. A thread context that the kernel created is an object
of 61 words of its own; the core's variables, its three translation tables and
the interface table have their own fields; the rest of kernel memory, and the
memory of each map, are words by address. `Kernel.place` puts the parts
together: a pointer into the middle of a context reads the words
that are there.

* `fld_setFld`: the words of the created contexts are independent of each other;
* `load64_context`: an access through an address inside a created context.
-/

namespace Isambard.El1

open Isambard.Lib

/-! ## Constants -/

/-- `start_address()`: secure EL1 runs in the topmost 32MB. -/
def startAddress : ℕ := 0xfffffffffe000000

/-- `kernel_heap_top`, an offset from the start address. -/
def heapTop : ℕ := 0x200000

/-- The heap that `map_initial_storage` maps. -/
def initialHeap : ℕ := 65536

/-- The number of interfaces that `new_memory_for_interfaces` is given. -/
def tableSize : ℕ := 512

def systemMapIndex : ℕ := 1
def memoryAllocatorMapIndex : ℕ := 2

/-- Entry points into the system driver. -/
def systemServiceThreadExit : ℕ := 4
def systemServiceMap : ℕ := 8
def systemServicePhysicalMemoryBlock : ℕ := 12

/-- `sizeof( thread_context )`. -/
def contextSize : ℕ := 488

/-- `FreeInt\0`, the marker of a free interface. -/
def freeMarker : ℕ := 0x00746e4965657246

/-! ## Data -/

/-- A slot of the interface table. A free slot's `next` is in the place of
`user`, its marker in the place of `provider` and the low half of `handler`. -/
structure Interface where
  user : ℕ
  provider : ℕ
  handler : ℕ
  object : ℕ
deriving Repr, DecidableEq

/-- `free.next`. -/
def Interface.next (i : Interface) : ℕ := i.user

/-- `free.marker`. -/
def Interface.marker (i : Interface) : ℕ := i.provider + i.handler % 2 ^ 32 * 2 ^ 32

/-- Where the linker and the boot code put things, below the heap. -/
structure Layout where
  /-- the first writable byte -/
  dataStart : ℕ
  /-- `&blocked` -/
  blocked : ℕ
  /-- the `Core` structure -/
  core : ℕ
  /-- where it is in physical memory -/
  corePhysical : ℕ
  /-- `interfaces()` -/
  interfaces : ℕ
  /-- `drivers[1]`, the memory allocator -/
  allocatorStart : ℕ
  allocatorCodePages : ℕ
  allocatorDataPages : ℕ
  start_le : startAddress ≤ dataStart
  data_le : dataStart ≤ blocked
  blocked_lt : blocked + 8 ≤ core
  core_le : core + 16384 ≤ interfaces
  /-- the page below the heap is not mapped -/
  interfaces_le : interfaces + 24 * tableSize + 4096 ≤ startAddress + heapTop - initialHeap
  blocked_aligned : blocked % 8 = 0
  core_aligned : core % 4096 = 0
  corePhysical_aligned : corePhysical % 4096 = 0
  corePhysical_lt : corePhysical + 16384 ≤ 2 ^ 34
  interfaces_aligned : interfaces % 4096 = 0

/-- The state of the kernel, for one core. -/
structure Kernel where
  layout : Layout
  /-- the thread contexts created so far, the newest first -/
  contexts : List ℕ
  /-- the words of these contexts -/
  ctx : ℕ → ℕ → ℕ
  /-- `core->core_number` -/
  coreNumber : ℕ
  /-- `core->physical_address` -/
  physicalAddress : ℕ
  /-- `core->runnable` -/
  runnable : ℕ
  /-- `core->interrupt_thread` -/
  interruptThread : ℕ
  /-- `core->blocked_with_timeout` -/
  blockedWithTimeout : ℕ
  /-- `core->loaded_map` -/
  loadedMap : ℕ
  /-- `core->core_tt_l1`, `core_tt_l2`, `core_tt_l3` -/
  l1 : ℕ → ℕ
  l2 : ℕ → ℕ
  l3 : ℕ → ℕ
  /-- `sp_el0` of the running thread -/
  spEl0 : ℕ
  /-- the fake list head -/
  blocked : ℕ
  sharedSystemMap : ℕ → ℕ
  sharedSystemMapCorePage : ℕ
  sharedSystemMapMappedPages : ℕ
  /-- `kernel_heap_bottom` -/
  heapBottom : ℕ
  /-- `kernel_free_interface` -/
  freeInterface : ℕ
  /-- `kernel_last_interface` -/
  lastInterface : ℕ
  interfaces : ℕ → Interface
  /-- the memory of each map, by its index and the address of a word -/
  user : ℕ → ℕ → ℕ
  /-- the other words of kernel memory -/
  mem : ℕ → ℕ

/-- A layout with four cores. -/
def bootLayout : Layout where
  dataStart := startAddress + 0x10000
  blocked := startAddress + 0x11000
  core := startAddress + 0x20000
  corePhysical := 0x20000
  interfaces := startAddress + 0x30000
  allocatorStart := 0x40000
  allocatorCodePages := 2
  allocatorDataPages := 1
  start_le := by decide
  data_le := by decide
  blocked_lt := by decide
  core_le := by decide
  interfaces_le := by decide
  blocked_aligned := by decide
  core_aligned := by decide
  corePhysical_aligned := by decide
  corePhysical_lt := by decide
  interfaces_aligned := by decide

/-- The kernel with an empty heap, before the first thread is made. -/
def Kernel.boot : Kernel where
  layout := bootLayout
  contexts := []
  ctx := fun _ _ => 0
  coreNumber := 0
  physicalAddress := 0x20000
  runnable := 0
  interruptThread := 0
  blockedWithTimeout := 0
  loadedMap := 0
  l1 := fun _ => 0
  l2 := fun _ => 0
  l3 := fun _ => 0
  spEl0 := 0
  blocked := 0
  sharedSystemMap := fun _ => 0
  sharedSystemMapCorePage := 0
  sharedSystemMapMappedPages := 0
  heapBottom := heapTop
  freeInterface := 3
  lastInterface := tableSize
  interfaces := fun i =>
    if i = 0 then ⟨0, 0, 0, 0⟩
    else ⟨if i + 1 < tableSize then i + 1 else 0, freeMarker % 2 ^ 32, freeMarker / 2 ^ 32, 0⟩
  user := fun _ _ => 0
  mem := fun _ => 0

/-! ## Words -/

def runnableAddress (k : Kernel) : ℕ := k.layout.core + 16376
def interruptThreadAddress (k : Kernel) : ℕ := k.layout.core + 12440
def blockedWithTimeoutAddress (k : Kernel) : ℕ := k.layout.core + 12448
/-- `core_number` and `loaded_map` share a word. -/
def coreNumberAddress (k : Kernel) : ℕ := k.layout.core + 12416
def physicalAddressAddress (k : Kernel) : ℕ := k.layout.core + 12456

/-- Low addresses are translated by the core's own tables, for the loaded map. -/
def IsLow (a : ℕ) : Prop := a < 2 ^ 63

instance (a : ℕ) : Decidable (IsLow a) := inferInstanceAs (Decidable (a < _))

/-- The created context that the address `a` lies in. -/
def Kernel.contextAt (k : Kernel) (a : ℕ) : Option ℕ :=
  k.contexts.find? fun p => p ≤ a && a < p + contextSize

/-- The word of the interface table at offset `off`. -/
def interfaceWord (i : Interface) : ℕ → ℕ
  | 0 => i.user + i.provider * 2 ^ 32
  | 1 => i.handler
  | _ => i.object

def setInterfaceWord (i : Interface) (v : ℕ) : ℕ → Interface
  | 0 => { i with user := v % 2 ^ 32, provider := v / 2 ^ 32 }
  | 1 => { i with handler := v }
  | _ => { i with object := v }

/-- What is kept at an address. -/
inductive Place where
  | context (p w : ℕ)
  | user (a : ℕ)
  | runnable
  | interruptThread
  | blockedWithTimeout
  | blocked
  | coreNumber
  | physicalAddress
  | l3 (i : ℕ)
  | l2 (i : ℕ)
  | l1 (i : ℕ)
  | interface (i w : ℕ)
  | mem (a : ℕ)
deriving Repr, DecidableEq

/-- The place of the word at the address `a`, a multiple of 8. The other variables of the kernel's
image (`shared_system_map`, `kernel_last_interface`, `kernel_heap_bottom`, `kernel_tt`) are no
places: a wild pointer to them reaches a word of `mem` instead. -/
def Kernel.place (k : Kernel) (a : ℕ) : Place :=
  match k.contextAt a with
  | some p => .context p ((a - p) / 8)
  | none =>
    if IsLow a then .user a
    else if a = runnableAddress k then .runnable
    else if a = interruptThreadAddress k then .interruptThread
    else if a = blockedWithTimeoutAddress k then .blockedWithTimeout
    else if a = k.layout.blocked then .blocked
    else if a = coreNumberAddress k then .coreNumber
    else if a = physicalAddressAddress k then .physicalAddress
    else if k.layout.core + 4096 ≤ a ∧ a < k.layout.core + 8192 then
      .l3 ((a - (k.layout.core + 4096)) / 8)
    else if k.layout.core + 8192 ≤ a ∧ a < k.layout.core + 12288 then
      .l2 ((a - (k.layout.core + 8192)) / 8)
    else if k.layout.core + 12288 ≤ a ∧ a < k.layout.core + 12416 then
      .l1 ((a - (k.layout.core + 12288)) / 8)
    else if k.layout.interfaces ≤ a ∧ a < k.layout.interfaces + 24 * tableSize then
      .interface ((a - k.layout.interfaces) / 24) ((a - k.layout.interfaces) % 24 / 8)
    else .mem a

/-- The word at the address `a`, a multiple of 8. -/
def Kernel.word (k : Kernel) (a : ℕ) : ℕ :=
  match k.place a with
  | .context p w => k.ctx p w
  | .user a => k.user k.loadedMap a
  | .runnable => k.runnable
  | .interruptThread => k.interruptThread
  | .blockedWithTimeout => k.blockedWithTimeout
  | .blocked => k.blocked
  | .coreNumber => k.coreNumber + k.loadedMap * 2 ^ 32
  | .physicalAddress => k.physicalAddress
  | .l3 i => k.l3 i
  | .l2 i => k.l2 i
  | .l1 i => k.l1 i
  | .interface i w => interfaceWord (k.interfaces i) w
  | .mem a => k.mem a

/-- A word of a table of tables stored: of the contexts, or of the maps. -/
def setCtx (ctx : ℕ → ℕ → ℕ) (p w v : ℕ) : ℕ → ℕ → ℕ :=
  Function.update ctx p (Function.update (ctx p) w v)

/-- Other words of the contexts. -/
def Kernel.withCtx (k : Kernel) (c : ℕ → ℕ → ℕ) : Kernel := { k with ctx := c }

/-- Store `v` in the word at the address `a`, a multiple of 8. -/
def Kernel.setWord (k : Kernel) (a v : ℕ) : Kernel :=
  match k.place a with
  | .context p w => k.withCtx (setCtx k.ctx p w v)
  | .user a => { k with user := setCtx k.user k.loadedMap a v }
  | .runnable => { k with runnable := v }
  | .interruptThread => { k with interruptThread := v }
  | .blockedWithTimeout => { k with blockedWithTimeout := v }
  | .blocked => { k with blocked := v }
  | .coreNumber => { k with coreNumber := v % 2 ^ 32, loadedMap := v / 2 ^ 32 }
  | .physicalAddress => { k with physicalAddress := v }
  | .l3 i => { k with l3 := Function.update k.l3 i v }
  | .l2 i => { k with l2 := Function.update k.l2 i v }
  | .l1 i => { k with l1 := Function.update k.l1 i v }
  | .interface i w =>
    let i' := setInterfaceWord (k.interfaces i) v w
    { k with interfaces := Function.update k.interfaces i i' }
  | .mem a => { k with mem := Function.update k.mem a v }

/-- A 64-bit load; an unaligned one takes from two words. -/
def Kernel.load64 (k : Kernel) (a : ℕ) : ℕ :=
  if a % 8 = 0 then k.word a
  else
    let a' := a - a % 8
    let s := 8 * (a % 8)
    k.word a' / 2 ^ s + k.word (a' + 8) % 2 ^ s * 2 ^ (64 - s)

/-- A 64-bit store. -/
def Kernel.store64 (k : Kernel) (a v : ℕ) : Kernel :=
  if a % 8 = 0 then k.setWord a v
  else
    let a' := a - a % 8
    let s := 8 * (a % 8)
    let k' := k.setWord a' (setField s (64 - s) v (k.word a'))
    k'.setWord (a' + 8) (setField 0 s (v / 2 ^ (64 - s)) (k'.word (a' + 8)))

/-- A 32-bit load. -/
def Kernel.load32 (k : Kernel) (a : ℕ) : ℕ := k.load64 a % 2 ^ 32

/-! ## Thread contexts -/

/-- Word `w` of the context that `p` points to. -/
def Kernel.fld (k : Kernel) (p w : ℕ) : ℕ :=
  if p ∈ k.contexts then k.ctx p w else k.load64 (p + 8 * w)

/-- Store `v` in word `w` of the context that `p` points to. -/
def Kernel.setFld (k : Kernel) (p w v : ℕ) : Kernel :=
  if p ∈ k.contexts then k.withCtx (setCtx k.ctx p w v) else k.store64 (p + 8 * w) v

def Kernel.next (k : Kernel) (p : ℕ) : ℕ := k.fld p 0
def Kernel.prev (k : Kernel) (p : ℕ) : ℕ := k.fld p 1
def Kernel.list (k : Kernel) (p : ℕ) : ℕ := k.fld p 2
def Kernel.partner (k : Kernel) (p : ℕ) : ℕ := k.fld p 3
/-- `regs[i]`; `regs[31]` is the stored stack pointer. -/
def Kernel.reg (k : Kernel) (p i : ℕ) : ℕ := k.fld p (4 + i)
def Kernel.pc (k : Kernel) (p : ℕ) : ℕ := k.fld p 36
def Kernel.spsr (k : Kernel) (p : ℕ) : ℕ := field 0 32 (k.fld p 37)
/-- The gate is signed; -1 is the word of all ones. -/
def Kernel.gate (k : Kernel) (p : ℕ) : ℕ := k.fld p 38
def Kernel.currentMap (k : Kernel) (p : ℕ) : ℕ := field 32 32 (k.fld p 39)
def Kernel.stackPointer (k : Kernel) (p : ℕ) : ℕ := k.fld p 41
def Kernel.stackLimit (k : Kernel) (p : ℕ) : ℕ := k.fld p 42

def Kernel.setNext (k : Kernel) (p v : ℕ) : Kernel := k.setFld p 0 v
def Kernel.setPrev (k : Kernel) (p v : ℕ) : Kernel := k.setFld p 1 v
def Kernel.setList (k : Kernel) (p v : ℕ) : Kernel := k.setFld p 2 v
def Kernel.setPartner (k : Kernel) (p v : ℕ) : Kernel := k.setFld p 3 v
def Kernel.setReg (k : Kernel) (p i v : ℕ) : Kernel := k.setFld p (4 + i) v
def Kernel.setSp (k : Kernel) (p v : ℕ) : Kernel := k.setFld p 35 v
def Kernel.setPc (k : Kernel) (p v : ℕ) : Kernel := k.setFld p 36 v
def Kernel.setSpsr (k : Kernel) (p v : ℕ) : Kernel :=
  k.setFld p 37 (setField 0 32 v (k.fld p 37))
def Kernel.setGate (k : Kernel) (p v : ℕ) : Kernel := k.setFld p 38 v
def Kernel.setCurrentMap (k : Kernel) (p v : ℕ) : Kernel :=
  k.setFld p 39 (setField 32 32 v (k.fld p 39))
def Kernel.setStackPointer (k : Kernel) (p v : ℕ) : Kernel := k.setFld p 41 v

/-- `&p->regs[i]`. -/
def regAddress (p i : ℕ) : ℕ := p + 8 * (4 + i)

/-- `&p->stack[j]`. -/
def frameAddress (p j : ℕ) : ℕ := p + 8 * (43 + 3 * j)

/-- The fields of the frame at the address `a`. -/
def Kernel.callerSp (k : Kernel) (a : ℕ) : ℕ := k.load64 a
def Kernel.callerReturnAddress (k : Kernel) (a : ℕ) : ℕ := k.load64 (a + 8)
def Kernel.callerMap (k : Kernel) (a : ℕ) : ℕ := k.load32 (a + 16)

/-- A thread code is the offset of the context; no thread has code 0. -/
def threadCode (p : ℕ) : ℕ := if p = 0 then 0 else (p + 2 ^ 64 - startAddress) % 2 ^ 32

/-- The parameter is a `uint32_t`. -/
def threadFromCode (c : ℕ) : ℕ := if c % 2 ^ 32 = 0 then 0 else startAddress + c % 2 ^ 32

/-! ## Access rules -/

@[simp] theorem setCtx_apply (ctx : ℕ → ℕ → ℕ) (p w v q u : ℕ) :
    setCtx ctx p w v q u = if q = p ∧ u = w then v else ctx q u := by
  unfold setCtx
  by_cases hq : q = p
  · subst hq
    by_cases hu : u = w
    · simp [hu]
    · simp [hu]
  · simp [hq]

theorem setCtx_self (ctx : ℕ → ℕ → ℕ) (p w : ℕ) : setCtx ctx p w (ctx p w) = ctx := by
  unfold setCtx
  rw [Function.update_eq_self, Function.update_eq_self]

@[simp] theorem withCtx_ctx (k : Kernel) (c : ℕ → ℕ → ℕ) : (k.withCtx c).ctx = c := by rfl

@[simp] theorem withCtx_withCtx (k : Kernel) (c d : ℕ → ℕ → ℕ) :
    (k.withCtx c).withCtx d = k.withCtx d := by rfl

@[simp] theorem withCtx_self (k : Kernel) : k.withCtx k.ctx = k := by rfl

@[simp] theorem withCtx_layout (k : Kernel) (c : ℕ → ℕ → ℕ) :
    (k.withCtx c).layout = k.layout := by rfl
@[simp] theorem withCtx_contexts (k : Kernel) (c : ℕ → ℕ → ℕ) :
    (k.withCtx c).contexts = k.contexts := by rfl
@[simp] theorem withCtx_coreNumber (k : Kernel) (c : ℕ → ℕ → ℕ) :
    (k.withCtx c).coreNumber = k.coreNumber := by rfl
@[simp] theorem withCtx_physicalAddress (k : Kernel) (c : ℕ → ℕ → ℕ) :
    (k.withCtx c).physicalAddress = k.physicalAddress := by rfl
@[simp] theorem withCtx_runnable (k : Kernel) (c : ℕ → ℕ → ℕ) :
    (k.withCtx c).runnable = k.runnable := by rfl
@[simp] theorem withCtx_interruptThread (k : Kernel) (c : ℕ → ℕ → ℕ) :
    (k.withCtx c).interruptThread = k.interruptThread := by rfl
@[simp] theorem withCtx_blockedWithTimeout (k : Kernel) (c : ℕ → ℕ → ℕ) :
    (k.withCtx c).blockedWithTimeout = k.blockedWithTimeout := by rfl
@[simp] theorem withCtx_loadedMap (k : Kernel) (c : ℕ → ℕ → ℕ) :
    (k.withCtx c).loadedMap = k.loadedMap := by rfl
@[simp] theorem withCtx_l1 (k : Kernel) (c : ℕ → ℕ → ℕ) : (k.withCtx c).l1 = k.l1 := by rfl
@[simp] theorem withCtx_l2 (k : Kernel) (c : ℕ → ℕ → ℕ) : (k.withCtx c).l2 = k.l2 := by rfl
@[simp] theorem withCtx_l3 (k : Kernel) (c : ℕ → ℕ → ℕ) : (k.withCtx c).l3 = k.l3 := by rfl
@[simp] theorem withCtx_spEl0 (k : Kernel) (c : ℕ → ℕ → ℕ) : (k.withCtx c).spEl0 = k.spEl0 := by rfl
@[simp] theorem withCtx_blocked (k : Kernel) (c : ℕ → ℕ → ℕ) :
    (k.withCtx c).blocked = k.blocked := by rfl
@[simp] theorem withCtx_sharedSystemMap (k : Kernel) (c : ℕ → ℕ → ℕ) :
    (k.withCtx c).sharedSystemMap = k.sharedSystemMap := by rfl
@[simp] theorem withCtx_sharedSystemMapCorePage (k : Kernel) (c : ℕ → ℕ → ℕ) :
    (k.withCtx c).sharedSystemMapCorePage = k.sharedSystemMapCorePage := by rfl
@[simp] theorem withCtx_sharedSystemMapMappedPages (k : Kernel) (c : ℕ → ℕ → ℕ) :
    (k.withCtx c).sharedSystemMapMappedPages = k.sharedSystemMapMappedPages := by rfl
@[simp] theorem withCtx_heapBottom (k : Kernel) (c : ℕ → ℕ → ℕ) :
    (k.withCtx c).heapBottom = k.heapBottom := by rfl
@[simp] theorem withCtx_freeInterface (k : Kernel) (c : ℕ → ℕ → ℕ) :
    (k.withCtx c).freeInterface = k.freeInterface := by rfl
@[simp] theorem withCtx_lastInterface (k : Kernel) (c : ℕ → ℕ → ℕ) :
    (k.withCtx c).lastInterface = k.lastInterface := by rfl
@[simp] theorem withCtx_interfaces (k : Kernel) (c : ℕ → ℕ → ℕ) :
    (k.withCtx c).interfaces = k.interfaces := by rfl
@[simp] theorem withCtx_user (k : Kernel) (c : ℕ → ℕ → ℕ) : (k.withCtx c).user = k.user := by rfl
@[simp] theorem withCtx_mem (k : Kernel) (c : ℕ → ℕ → ℕ) : (k.withCtx c).mem = k.mem := by rfl

theorem fld_of_mem {k : Kernel} {p : ℕ} (h : p ∈ k.contexts) (w : ℕ) :
    k.fld p w = k.ctx p w := if_pos h

theorem setFld_of_mem {k : Kernel} {p : ℕ} (h : p ∈ k.contexts) (w v : ℕ) :
    k.setFld p w v = k.withCtx (setCtx k.ctx p w v) := if_pos h

theorem spsr_of_mem {k : Kernel} {p : ℕ} (h : p ∈ k.contexts) :
    k.spsr p = field 0 32 (k.ctx p 37) := by rw [Kernel.spsr, fld_of_mem h]

theorem currentMap_of_mem {k : Kernel} {p : ℕ} (h : p ∈ k.contexts) :
    k.currentMap p = field 32 32 (k.ctx p 39) := by rw [Kernel.currentMap, fld_of_mem h]

theorem currentMap_congr {k k' : Kernel} {p : ℕ} (h : p ∈ k.contexts) (h' : p ∈ k'.contexts)
    (hw : k'.ctx p 39 = k.ctx p 39) : k'.currentMap p = k.currentMap p := by
  rw [currentMap_of_mem h, currentMap_of_mem h', hw]

/-- Places depend on the layout and the created contexts. -/
theorem place_congr {k k' : Kernel} (hl : k'.layout = k.layout)
    (hc : k'.contexts = k.contexts) (a : ℕ) : k'.place a = k.place a := by
  unfold Kernel.place Kernel.contextAt runnableAddress interruptThreadAddress
    blockedWithTimeoutAddress coreNumberAddress physicalAddressAddress
  rw [hl, hc]

/-! ## Where the contexts are -/

/-- The created contexts are blocks of the heap: in the mapped part of it, and
apart from each other. This holds until `allocate_heap` has returned all that
`map_initial_storage` mapped; it has no test for that. -/
structure Placed (k : Kernel) : Prop where
  aligned : ∀ p ∈ k.contexts, p % 32 = 0
  bottom : ∀ p ∈ k.contexts, startAddress + k.heapBottom ≤ p
  top : ∀ p ∈ k.contexts, p + contextSize ≤ startAddress + heapTop
  apart : k.contexts.Pairwise fun p q => p + contextSize ≤ q
  mapped : heapTop - initialHeap ≤ k.heapBottom

theorem Placed.nodup {k : Kernel} (h : Placed k) : k.contexts.Nodup :=
  h.apart.imp fun hpq heq => by
    rw [heq, contextSize] at hpq
    omega

theorem Placed.ne_zero {k : Kernel} (h : Placed k) {p : ℕ} (hp : p ∈ k.contexts) : p ≠ 0 := by
  have := h.bottom p hp
  unfold startAddress at this
  omega

theorem Placed.floor {k : Kernel} (h : Placed k) {p : ℕ} (hp : p ∈ k.contexts) :
    startAddress + heapTop - initialHeap ≤ p := by
  have h₁ := h.bottom p hp
  have h₂ := h.mapped
  omega

/-- The address of a word of a created context is in that context only. -/
theorem Placed.contextAt {k : Kernel} (h : Placed k) {p i : ℕ} (hp : p ∈ k.contexts)
    (hi : i < contextSize) : k.contextAt (p + i) = some p := by
  have hapart := h.apart
  unfold Kernel.contextAt
  generalize k.contexts = l at hp hapart ⊢
  induction l with
  | nil => cases hp
  | cons q l ih =>
    obtain ⟨hq, hl⟩ := List.pairwise_cons.1 hapart
    rcases List.mem_cons.1 hp with rfl | hp
    · rw [List.find?_cons_of_pos (by simpa using hi)]
    · have hlt := hq p hp
      rw [List.find?_cons_of_neg (by simp; omega)]
      exact ih hp hl

/-- No created context is below the heap. -/
theorem Placed.contextAt_none {k : Kernel} (h : Placed k) {a : ℕ}
    (ha : a < startAddress + heapTop - initialHeap) : k.contextAt a = none := by
  unfold Kernel.contextAt
  rw [List.find?_eq_none]
  intro p hp
  have := h.floor hp
  simp
  omega

theorem Placed.place_context {k : Kernel} (h : Placed k) {p w : ℕ} (hp : p ∈ k.contexts)
    (hw : w < 61) : k.place (p + 8 * w) = .context p w := by
  unfold Kernel.place
  rw [h.contextAt hp (by unfold contextSize; omega)]
  simp

theorem Placed.load64 {k : Kernel} (h : Placed k) {p w : ℕ} (hp : p ∈ k.contexts)
    (hw : w < 61) : k.load64 (p + 8 * w) = k.ctx p w := by
  have hal := h.aligned p hp
  unfold Kernel.load64 Kernel.word
  rw [if_pos (by omega), h.place_context hp hw]

theorem Placed.store64 {k : Kernel} (h : Placed k) {p w : ℕ} (hp : p ∈ k.contexts)
    (hw : w < 61) (v : ℕ) :
    k.store64 (p + 8 * w) v = k.withCtx (setCtx k.ctx p w v) := by
  have hal := h.aligned p hp
  unfold Kernel.store64 Kernel.setWord
  rw [if_pos (by omega), h.place_context hp hw]

/-- The variables and tables below the heap are high addresses. -/
theorem not_isLow {a : ℕ} (h : startAddress ≤ a) : ¬ IsLow a := by
  unfold IsLow startAddress at *
  omega

theorem layout_le (k : Kernel) : startAddress ≤ k.layout.blocked ∧
    k.layout.blocked + 8 ≤ k.layout.core ∧ k.layout.core + 16384 ≤ k.layout.interfaces ∧
    k.layout.interfaces + 24 * tableSize ≤ startAddress + heapTop - initialHeap := by
  have h₁ := k.layout.start_le
  have h₂ := k.layout.data_le
  have h₃ := k.layout.blocked_lt
  have h₄ := k.layout.core_le
  have h₅ := k.layout.interfaces_le
  refine ⟨by omega, h₃, h₄, by omega⟩

theorem Placed.place_runnable {k : Kernel} (h : Placed k) :
    k.place (runnableAddress k) = .runnable := by
  have hl := layout_le k
  have hlow : startAddress ≤ runnableAddress k := by
    unfold runnableAddress
    omega
  unfold Kernel.place
  rw [h.contextAt_none (by unfold runnableAddress; omega)]
  simp only [not_isLow hlow, if_false, if_true]

theorem Placed.place_blockedWithTimeout {k : Kernel} (h : Placed k) :
    k.place (blockedWithTimeoutAddress k) = .blockedWithTimeout := by
  have hl := layout_le k
  have hlow : startAddress ≤ blockedWithTimeoutAddress k := by
    unfold blockedWithTimeoutAddress
    omega
  have h₁ : blockedWithTimeoutAddress k ≠ runnableAddress k := by
    unfold blockedWithTimeoutAddress runnableAddress
    omega
  have h₂ : blockedWithTimeoutAddress k ≠ interruptThreadAddress k := by
    unfold blockedWithTimeoutAddress interruptThreadAddress
    omega
  unfold Kernel.place
  rw [h.contextAt_none (by unfold blockedWithTimeoutAddress; omega)]
  simp only [not_isLow hlow, h₁, h₂, if_false, if_true]

theorem Placed.place_blocked {k : Kernel} (h : Placed k) :
    k.place k.layout.blocked = .blocked := by
  have hl := layout_le k
  have h₁ : k.layout.blocked ≠ runnableAddress k := by
    unfold runnableAddress
    omega
  have h₂ : k.layout.blocked ≠ interruptThreadAddress k := by
    unfold interruptThreadAddress
    omega
  have h₃ : k.layout.blocked ≠ blockedWithTimeoutAddress k := by
    unfold blockedWithTimeoutAddress
    omega
  unfold Kernel.place
  rw [h.contextAt_none (by omega)]
  simp only [not_isLow hl.1, h₁, h₂, h₃, if_false, if_true]

/-- The null pointer is an address of the loaded map. -/
theorem Placed.place_zero {k : Kernel} (h : Placed k) : k.place 0 = .user 0 := by
  unfold Kernel.place
  rw [h.contextAt_none (by decide)]
  simp [IsLow]

theorem Placed.congr {k k' : Kernel} (h : Placed k) (hc : k'.contexts = k.contexts)
    (hb : k'.heapBottom = k.heapBottom) : Placed k' :=
  ⟨hc ▸ h.aligned, by rw [hc, hb]; exact h.bottom, hc ▸ h.top, hc ▸ h.apart, hb ▸ h.mapped⟩

theorem Placed.withCtx {k : Kernel} (h : Placed k) (c : ℕ → ℕ → ℕ) : Placed (k.withCtx c) :=
  h.congr rfl rfl

theorem load64_eq_word {k : Kernel} {a : ℕ} (h : a % 8 = 0) : k.load64 a = k.word a := if_pos h

theorem store64_eq_setWord {k : Kernel} {a : ℕ} (h : a % 8 = 0) (v : ℕ) :
    k.store64 a v = k.setWord a v := if_pos h

theorem runnableAddress_aligned (k : Kernel) : runnableAddress k % 8 = 0 := by
  have := k.layout.core_aligned
  unfold runnableAddress
  omega

theorem blockedWithTimeoutAddress_aligned (k : Kernel) :
    blockedWithTimeoutAddress k % 8 = 0 := by
  have := k.layout.core_aligned
  unfold blockedWithTimeoutAddress
  omega

theorem Placed.load64_runnable {k : Kernel} (h : Placed k) :
    k.load64 (runnableAddress k) = k.runnable := by
  rw [load64_eq_word (runnableAddress_aligned k), Kernel.word, h.place_runnable]

theorem Placed.store64_runnable {k : Kernel} (h : Placed k) (v : ℕ) :
    k.store64 (runnableAddress k) v = { k with runnable := v } := by
  rw [store64_eq_setWord (runnableAddress_aligned k), Kernel.setWord, h.place_runnable]

theorem Placed.load64_blockedWithTimeout {k : Kernel} (h : Placed k) :
    k.load64 (blockedWithTimeoutAddress k) = k.blockedWithTimeout := by
  rw [load64_eq_word (blockedWithTimeoutAddress_aligned k), Kernel.word,
    h.place_blockedWithTimeout]

theorem Placed.store64_blockedWithTimeout {k : Kernel} (h : Placed k) (v : ℕ) :
    k.store64 (blockedWithTimeoutAddress k) v = { k with blockedWithTimeout := v } := by
  rw [store64_eq_setWord (blockedWithTimeoutAddress_aligned k), Kernel.setWord,
    h.place_blockedWithTimeout]

theorem Placed.load64_blocked {k : Kernel} (h : Placed k) :
    k.load64 k.layout.blocked = k.blocked := by
  rw [load64_eq_word k.layout.blocked_aligned, Kernel.word, h.place_blocked]

theorem Placed.store64_blocked {k : Kernel} (h : Placed k) (v : ℕ) :
    k.store64 k.layout.blocked v = { k with blocked := v } := by
  rw [store64_eq_setWord k.layout.blocked_aligned, Kernel.setWord, h.place_blocked]

theorem Placed.store64_zero {k : Kernel} (h : Placed k) (v : ℕ) :
    k.store64 0 v = { k with user := setCtx k.user k.loadedMap 0 v } := by
  rw [store64_eq_setWord (by decide), Kernel.setWord, h.place_zero]

/-! ## What stores leave alone -/

/-- A store changes a word: what is not kept in a word of memory stays. -/
structure Stores (k k' : Kernel) : Prop where
  layout : k'.layout = k.layout
  contexts : k'.contexts = k.contexts
  heapBottom : k'.heapBottom = k.heapBottom
  spEl0 : k'.spEl0 = k.spEl0
  freeInterface : k'.freeInterface = k.freeInterface
  lastInterface : k'.lastInterface = k.lastInterface

theorem Stores.refl (k : Kernel) : Stores k k := ⟨rfl, rfl, rfl, rfl, rfl, rfl⟩

theorem Stores.trans {k k' k'' : Kernel} (h : Stores k k') (h' : Stores k' k'') : Stores k k'' :=
  ⟨h'.layout.trans h.layout, h'.contexts.trans h.contexts, h'.heapBottom.trans h.heapBottom,
    h'.spEl0.trans h.spEl0, h'.freeInterface.trans h.freeInterface,
    h'.lastInterface.trans h.lastInterface⟩

theorem withCtx_stores (k : Kernel) (c : ℕ → ℕ → ℕ) : Stores k (k.withCtx c) :=
  ⟨rfl, rfl, rfl, rfl, rfl, rfl⟩

theorem setWord_stores (k : Kernel) (a v : ℕ) : Stores k (k.setWord a v) := by
  unfold Kernel.setWord
  split <;> exact ⟨rfl, rfl, rfl, rfl, rfl, rfl⟩

theorem store64_stores (k : Kernel) (a v : ℕ) : Stores k (k.store64 a v) := by
  unfold Kernel.store64
  split
  · exact setWord_stores k a v
  · exact (setWord_stores k _ _).trans (setWord_stores _ _ _)

theorem setFld_stores (k : Kernel) (p w v : ℕ) : Stores k (k.setFld p w v) := by
  unfold Kernel.setFld
  split
  · exact withCtx_stores k _
  · exact store64_stores k _ v

theorem Stores.placed {k k' : Kernel} (h : Stores k k') (hpl : Placed k) : Placed k' :=
  hpl.congr h.contexts h.heapBottom

end Isambard.El1
