import Isambard.Lib.Runs
import Isambard.El1.Requests
import Isambard.El1.Contexts

/-!
# El1.Boot — the threads that the kernel starts with

`initialise_driver_maps` of `secure_el1.c`: a thread for each core, in the system
map, and a map with a thread for each driver. The threads of the cores become the
heads of their rings by an assignment; the others are put behind core 0's.

* `initialiseDriverMaps`, `enterSecureEl1Himem`: the functions of the source;
* `initialiseDriverMaps_threads`: what they make of the contexts;
* `boot_unowned`: no thread of core 0 knows that it is in the ring of `runnable`.
-/

namespace Isambard.El1

open Isambard.Lib

/-! ## The functions of the source -/

/-- An entry of `drivers`. -/
structure DriverImage where
  start : ℕ
  finish : ℕ
  codePages : ℕ
  dataPages : ℕ

/-- `max_physical_memory`. -/
def maxPhysicalMemory : ℕ := maxPhysicalMemoryGb * 2 ^ 30

/-- The interfaces of the system driver and of the memory driver. -/
def initialiseSystemMaps (k : Kernel) : Kernel :=
  { k with
    interfaces := Function.update
      (Function.update k.interfaces systemMapIndex
        ⟨systemMapIndex, systemMapIndex, systemServiceMap, 0x535953⟩)
      memoryAllocatorMapIndex
      ⟨systemMapIndex, memoryAllocatorMapIndex, maxPhysicalMemory, 0x4d454d⟩ }

/-- A context is allocated and initialised, for a thread at the start of a map. -/
def newThread (k : Kernel) (map : ℕ) : Outcome ℕ :=
  let (k, thread) := allocateHeap k contextSize
  if !inMappedHeap thread contextSize then .halt (initialiseFaults k thread)
  else
    let k := initialiseNewThread k thread
    let k := k.setCurrentMap thread map
    let k := k.setPc thread 0
    .ok (k.setSpsr thread 0) thread

/-- `sizeof( Core )`. -/
def coreSize : ℕ := 16384

/-- The interface table is behind the structures of the cores: there is one for core
`n`. -/
def Layout.HasCore (l : Layout) (n : ℕ) : Prop := l.core + coreSize * n + coreSize ≤ l.interfaces

/-- The parameters of a system initialisation thread. -/
def setParameters (k : Kernel) (thread n firstFreePage : ℕ) : Kernel :=
  let k := k.setReg thread 0 systemMapIndex
  let k := k.setReg thread 1 memoryAllocatorMapIndex
  let k := k.setReg thread 2 n
  k.setReg thread 3 firstFreePage

/-- The system initialisation thread of core `n`. -/
def initialiseCore (k : Kernel) (n firstFreePage : ℕ) : Outcome Unit :=
  (newThread k systemMapIndex).andThen fun k thread =>
    let k := setParameters k thread n firstFreePage
    .ok (k.store64 (runnableAddress k + coreSize * n) thread) ()

/-- The loop over the cores that are present. -/
def initialiseCores (present firstFreePage : ℕ) : List ℕ → Kernel → Outcome Unit
  | [], k => .ok k ()
  | n :: ns, k =>
    if present.testBit n then
      (initialiseCore k n firstFreePage).andThen fun k _ =>
        initialiseCores present firstFreePage ns k
    else initialiseCores present firstFreePage ns k

def initialVmbsPerDriver : ℕ := 12

/-- The fields of a virtual memory block, which fill its word. -/
def vmbFor (startPage pageCount readOnly executable memoryBlock word : ℕ) : ℕ :=
  setField 46 18 memoryBlock (setField 45 1 executable (setField 44 1 readOnly
    (setField 24 20 pageCount (setField 0 24 startPage word))))

/-- A new block of memory, `Fully_Cacheable`. -/
def bootCmb (startPage pageCount : ℕ) : ℕ :=
  setField 61 3 5 (setField 24 20 pageCount (setField 0 24 startPage 0))

/-- The interfaces of a driver, with the indices `m`, `c` and `d`: its map, whose blocks
are at `vmb`, its code and its data. -/
def driverInterfaces (k : Kernel) (driver : DriverImage) (m c d vmb : ℕ) : Kernel :=
  let mv := setField 52 12 initialVmbsPerDriver (setField 32 20 m
    (setField 0 32 ((startAddress + heapTop - vmb) / 16) 0))
  let startPage := driver.start % 2 ^ 32 / 4096
  let code := bootCmb startPage driver.codePages
  let data := bootCmb (startPage + driver.codePages) driver.dataPages
  { k with
    interfaces := Function.update (Function.update (Function.update k.interfaces
      m ⟨m, systemMapIndex, systemServiceMap, mv⟩)
      c ⟨m, systemMapIndex, systemServicePhysicalMemoryBlock, code⟩)
      d ⟨m, systemMapIndex, systemServicePhysicalMemoryBlock, data⟩ }

/-- The blocks of a driver: its code, its data, and the end of the table. -/
def driverTable (k : Kernel) (driver : DriverImage) (c d vmb : ℕ) : Kernel :=
  let k := k.store64 vmb (vmbFor 0 driver.codePages 1 1 c (k.load64 vmb))
  let k := k.store64 (vmb + 8) (vmbFor driver.codePages driver.dataPages 0 0 d (k.load64 (vmb + 8)))
  k.store64 (vmb + 16) 0

/-- The thread of a driver, behind the other threads of core 0. -/
def startDriver (k : Kernel) (m : ℕ) : Outcome Unit :=
  (newThread k m).andThen fun k thread =>
    let k := k.setReg thread 0 m
    .ok (insertThreadAtTail k (runnableAddress k) thread) ()

/-- The map and the thread of a driver. -/
def initialiseDriver (k : Kernel) (driver : DriverImage) : Outcome Unit :=
  (obtainInterface k).andThen fun k m => (obtainInterface k).andThen fun k c =>
    (obtainInterface k).andThen fun k d =>
      if driver.start % 4096 ≠ 0 ∨ driver.finish % 4096 ≠ 0 then .halt k
      else
        let (k, vmb) := allocateHeap k (8 * initialVmbsPerDriver)
        -- the first store to a page that is not mapped halts the core
        if !inMappedHeap vmb (8 * initialVmbsPerDriver) then .halt k
        else startDriver (driverTable (driverInterfaces k driver m c d vmb) driver c d vmb) m

def initialiseDrivers : List DriverImage → Kernel → Outcome Unit
  | [], k => .ok k ()
  | driver :: drivers, k =>
    (initialiseDriver k driver).andThen fun k _ => initialiseDrivers drivers k

def initialiseDriverMaps (k : Kernel) (present firstFreePage : ℕ) (drivers : List DriverImage) :
    Outcome Unit :=
  (initialiseCores present firstFreePage (List.range 64) (initialiseSystemMaps k)).andThen
    fun k _ => initialiseDrivers drivers k

/-- What core 0 does then, up to where it enters its first thread. -/
def enterSecureEl1Himem (k : Kernel) (present firstFreePage : ℕ) (drivers : List DriverImage) :
    Outcome Unit :=
  (initialiseDriverMaps k present firstFreePage drivers).andThen fun k _ =>
    .ok (loadThisMap { k with loadedMap := 0 } (k.currentMap k.runnable)) ()

/-! ## What they make of the contexts -/

section Threads

variable {k k' : Kernel} {p map : ℕ}

/-- A new context, with the rest as it was. -/
structure Created (k k' : Kernel) (p : ℕ) : Prop where
  heap : Heap k'
  fresh : p ∉ k.contexts
  row : NewRow k'.ctx p
  eq : ∃ b c, k' = { k with heapBottom := b, contexts := p :: k.contexts, ctx := c }
  others : ∀ q w, q ≠ p → k'.ctx q w = k.ctx q w

theorem Created.set (h : Created k k' p) {w v : ℕ} (hw : 4 ≤ w ∧ w ≤ 37 ∨ w = 39) :
    Created k (k'.setFld p w v) p := by
  obtain ⟨b, c, rfl⟩ := h.eq
  rw [setFld_of_mem (by simp)]
  refine ⟨h.heap.congr rfl rfl, h.fresh, h.row.set (by omega), ⟨b, _, rfl⟩, ?_⟩
  intro q u hq
  show setCtx c p w v q u = k.ctx q u
  rw [setCtx_apply, if_neg (by tauto)]
  exact h.others q u hq

theorem newThread_ok (h : Heap k) (hn : newThread k map = .ok k' p) : Created k k' p := by
  have hsize : contextSize < 2 ^ 20 := by decide
  unfold newThread at hn
  cases ha : allocateHeap k contextSize with
  | mk k₁ q =>
    rw [ha] at hn
    simp only at hn
    split at hn
    · cases hn
    · rename_i hm
      have hm' : inMappedHeap (allocateHeap k contextSize).2 contextSize = true := by
        rw [ha]
        simpa using hm
      have hcreate := h.create hsize le_rfl hm'
      have hfresh := h.block_notMem hsize (by decide) hm'
      obtain ⟨b, hb, -⟩ := h.allocate hsize hm'
      rw [ha] at hb hcreate hfresh
      have hc : Created k (initialiseNewThread k₁ q) q := by
        cases hb
        refine ⟨hcreate, hfresh, initialiseNewThread_row _ _, ⟨b, _, rfl⟩, ?_⟩
        intro p w hp
        rw [initialiseNewThread_ctx, if_neg hp]
      cases hn
      exact ((hc.set (.inr rfl)).set (.inl (by omega))).set (.inl (by omega))

/-- It is below the part of the heap that was in use. -/
theorem newThread_below (h : Heap k) (hn : newThread k map = .ok k' p) :
    p + contextSize ≤ startAddress + k.heapBottom := by
  have hsize : contextSize < 2 ^ 20 := by decide
  unfold newThread at hn
  cases ha : allocateHeap k contextSize with
  | mk k₁ q =>
    rw [ha] at hn
    simp only at hn
    split at hn
    · cases hn
    · rename_i hm
      have hm' : inMappedHeap (allocateHeap k contextSize).2 contextSize = true := by
        rw [ha]
        simpa using hm
      rcases h.allocate hsize hm' with ⟨b, hb, hsum, -⟩
      rw [ha] at hb
      cases hb
      cases hn
      omega

/-- The threads are linked to each other, and none of them has an owner. -/
structure BootThreads (k : Kernel) : Prop where
  heap : Heap k
  next : ∀ p ∈ k.contexts, k.ctx p 0 ∈ k.contexts
  prev : ∀ p ∈ k.contexts, k.ctx p 1 ∈ k.contexts
  list : ∀ p ∈ k.contexts, k.ctx p 2 = 0

theorem BootThreads.congr (h : BootThreads k) (hc : k'.contexts = k.contexts)
    (hb : k'.heapBottom = k.heapBottom) (hctx : ∀ p ∈ k.contexts, ∀ w < 3, k'.ctx p w = k.ctx p w) :
    BootThreads k' := by
  refine ⟨h.heap.congr hc hb, ?_, ?_, ?_⟩
  · rw [hc]
    intro p hp
    rw [hctx p hp 0 (by decide)]
    exact h.next p hp
  · rw [hc]
    intro p hp
    rw [hctx p hp 1 (by decide)]
    exact h.prev p hp
  · rw [hc]
    intro p hp
    rw [hctx p hp 2 (by decide)]
    exact h.list p hp

theorem BootThreads.created (h : BootThreads k) (hc : Created k k' p) : BootThreads k' := by
  have hctx := hc.others
  have hrow := hc.row
  have hfresh := hc.fresh
  have hheap := hc.heap
  obtain ⟨b, c, rfl⟩ := hc.eq
  have hne : ∀ q ∈ k.contexts, q ≠ p := fun q hq heq => hfresh (heq ▸ hq)
  refine ⟨hheap, ?_, ?_, ?_⟩
  · intro q hq
    rcases List.mem_cons.1 hq with rfl | hq
    · rw [hrow.next]
      exact hq
    · rw [hctx q 0 (hne q hq)]
      exact List.mem_cons_of_mem p (h.next q hq)
  · intro q hq
    rcases List.mem_cons.1 hq with rfl | hq
    · rw [hrow.prev]
      exact hq
    · rw [hctx q 1 (hne q hq)]
      exact List.mem_cons_of_mem p (h.prev q hq)
  · intro q hq
    rcases List.mem_cons.1 hq with rfl | hq
    · exact hrow.list
    · rw [hctx q 2 (hne q hq)]
      exact h.list q hq

/-! ### Places -/

/-- A word of the heap that is in no context. -/
theorem place_heap {a : ℕ} (hc : k.contextAt a = none) (ha : heapStart ≤ a) :
    k.place a = .mem a := by
  obtain ⟨h₁, h₂, h₃, h₄⟩ := layout_heapStart k
  have hlow : ¬ IsLow a := not_isLow (by omega)
  unfold Kernel.place
  rw [hc]
  simp only
  rw [if_neg hlow, if_neg (by unfold runnableAddress; omega),
    if_neg (by unfold interruptThreadAddress; omega),
    if_neg (by unfold blockedWithTimeoutAddress; omega), if_neg (by omega),
    if_neg (by unfold coreNumberAddress; omega), if_neg (by unfold physicalAddressAddress; omega),
    if_neg (by omega), if_neg (by omega), if_neg (by omega), if_neg (by omega)]

/-- The head variable of another core's ring. -/
theorem Placed.place_otherCore (h : Placed k) {n : ℕ} (hn : 0 < n)
    (hle : k.layout.HasCore n) :
    k.place (runnableAddress k + coreSize * n) = .mem (runnableAddress k + coreSize * n) := by
  obtain ⟨h₁, h₂, h₃, h₄⟩ := layout_heapStart k
  unfold Layout.HasCore at hle
  unfold coreSize at *
  unfold Kernel.place
  rw [h.contextAt_below (by unfold runnableAddress; omega)]
  have hlow : ¬ IsLow (runnableAddress k + 16384 * n) :=
    not_isLow (by unfold runnableAddress; omega)
  unfold runnableAddress interruptThreadAddress blockedWithTimeoutAddress coreNumberAddress
    physicalAddressAddress at *
  simp only
  rw [if_neg hlow, if_neg (by omega), if_neg (by omega), if_neg (by omega), if_neg (by omega),
    if_neg (by omega), if_neg (by omega), if_neg (by omega), if_neg (by omega), if_neg (by omega),
    if_neg (by omega)]

/-! ### The loops -/

theorem setParameters_created {k₁ : Kernel} (h : Created k k₁ p) (n ffp : ℕ) :
    Created k (setParameters k₁ p n ffp) p := by
  unfold setParameters Kernel.setReg
  exact (((h.set (.inl (by omega))).set (.inl (by omega))).set (.inl (by omega))).set
    (.inl (by omega))

/-- A new thread is at the head of the ring, or is another core's. -/
theorem initialiseCore_threads {n ffp : ℕ} (h : BootThreads k)
    (hle : k.layout.HasCore n) (hi : initialiseCore k n ffp = .ok k' ()) :
    BootThreads k' ∧ k'.layout = k.layout ∧
      (n = 0 ∨ k.runnable ∈ k.contexts → k'.runnable ∈ k'.contexts) := by
  obtain ⟨k₁, p, hn, hi⟩ := Outcome.andThen_ok hi
  simp only at hi
  have hc := setParameters_created (newThread_ok h.heap hn) n ffp
  generalize setParameters k₁ p n ffp = k₂ at hi hc
  have hb := h.created hc
  obtain ⟨b, c, hk₂⟩ := hc.eq
  have hmem : p ∈ k₂.contexts := by
    rw [hk₂]
    exact List.mem_cons_self
  have hlay : k₂.layout = k.layout := by rw [hk₂]
  rcases Nat.eq_zero_or_pos n with rfl | hpos
  · rw [Nat.mul_zero, Nat.add_zero, hb.heap.toPlaced.store64_runnable] at hi
    cases hi
    exact ⟨hb.congr rfl rfl fun _ _ _ _ => rfl, hlay, fun _ => hmem⟩
  · have hal : (runnableAddress k₂ + coreSize * n) % 8 = 0 := by
      have := runnableAddress_aligned k₂
      unfold coreSize
      omega
    rw [store64_eq_setWord hal, Kernel.setWord,
      hb.heap.toPlaced.place_otherCore hpos (by rw [hlay]; exact hle)] at hi
    cases hi
    refine ⟨hb.congr rfl rfl fun _ _ _ _ => rfl, hlay, ?_⟩
    rintro (h0 | hrun)
    · omega
    · show k₂.runnable ∈ k₂.contexts
      rw [hk₂]
      exact List.mem_cons_of_mem p hrun

theorem initialiseCores_threads {present ffp : ℕ} {ns : List ℕ} (h : BootThreads k)
    (hle : ∀ n, present.testBit n = true → k.layout.HasCore n)
    (hi : initialiseCores present ffp ns k = .ok k' ()) :
    BootThreads k' ∧
      (0 ∈ ns ∧ present.testBit 0 = true ∨ k.runnable ∈ k.contexts →
        k'.runnable ∈ k'.contexts) := by
  induction ns generalizing k with
  | nil =>
    cases hi
    refine ⟨h, ?_⟩
    rintro (⟨hno, -⟩ | hrun)
    · cases hno
    · exact hrun
  | cons n ns ih =>
    unfold initialiseCores at hi
    split at hi
    · rename_i hbit
      obtain ⟨k₁, u, hc, hi⟩ := Outcome.andThen_ok hi
      obtain ⟨hb, hlay, hrun⟩ := initialiseCore_threads h (hle n hbit) hc
      obtain ⟨hb', hrun'⟩ := ih hb (by rw [hlay]; exact hle) hi
      refine ⟨hb', ?_⟩
      rintro (⟨h0, hbit0⟩ | hk)
      · rcases List.mem_cons.1 h0 with rfl | h0
        · exact hrun' (.inr (hrun (.inl rfl)))
        · exact hrun' (.inl ⟨h0, hbit0⟩)
      · exact hrun' (.inr (hrun (.inr hk)))
    · rename_i hbit
      obtain ⟨hb', hrun'⟩ := ih h hle hi
      refine ⟨hb', ?_⟩
      rintro (⟨h0, hbit0⟩ | hk)
      · rcases List.mem_cons.1 h0 with rfl | h0
        · exact absurd hbit0 hbit
        · exact hrun' (.inl ⟨h0, hbit0⟩)
      · exact hrun' (.inr hk)

/-- A word of the heap below the contexts. -/
theorem place_below_contexts {a : ℕ} (ha : heapStart ≤ a) (hbelow : ∀ p ∈ k.contexts, a < p) :
    k.place a = .mem a := by
  apply place_heap _ ha
  unfold Kernel.contextAt
  rw [List.find?_eq_none]
  intro p hp
  have := hbelow p hp
  simp
  omega

theorem store64_below_contexts {a v : ℕ} (hal : a % 8 = 0) (ha : heapStart ≤ a)
    (hbelow : ∀ p ∈ k.contexts, a < p) :
    k.store64 a v = { k with mem := Function.update k.mem a v } := by
  rw [store64_eq_setWord hal, Kernel.setWord, place_below_contexts ha hbelow]

theorem load64_below_contexts {a : ℕ} (hal : a % 8 = 0) (ha : heapStart ≤ a)
    (hbelow : ∀ p ∈ k.contexts, a < p) : k.load64 a = k.mem a := by
  rw [load64_eq_word hal, Kernel.word, place_below_contexts ha hbelow]

/-- The table of a driver is in the block that was allocated for it. -/
theorem driverTable_mem (driver : DriverImage) (c d : ℕ) {vmb : ℕ} (hal : vmb % 8 = 0)
    (ha : heapStart ≤ vmb) (hbelow : ∀ p ∈ k.contexts, vmb + 16 < p) :
    driverTable k driver c d vmb =
      { k with
        mem := Function.update (Function.update (Function.update k.mem
          vmb (vmbFor 0 driver.codePages 1 1 c (k.mem vmb)))
          (vmb + 8) (vmbFor driver.codePages driver.dataPages 0 0 d (k.mem (vmb + 8))))
          (vmb + 16) 0 } := by
  have hlt : ∀ i ≤ 16, ∀ p ∈ k.contexts, vmb + i < p := by
    intro i hi p hp
    have := hbelow p hp
    omega
  unfold driverTable
  simp only
  rw [load64_below_contexts hal ha (hlt 0 (by omega)),
    store64_below_contexts hal ha (hlt 0 (by omega))]
  generalize vmbFor 0 driver.codePages 1 1 c (k.mem vmb) = code
  have hload : Kernel.load64 { k with mem := Function.update k.mem vmb code } (vmb + 8) =
      k.mem (vmb + 8) := by
    rw [load64_below_contexts (k := { k with mem := Function.update k.mem vmb code }) (by omega)
      (by omega) (hlt 8 (by omega))]
    exact Function.update_of_ne (by omega) ..
  rw [hload]
  generalize vmbFor driver.codePages driver.dataPages 0 0 d (k.mem (vmb + 8)) = data
  rw [store64_below_contexts (k := { k with mem := Function.update k.mem vmb code }) (by omega)
    (by omega) (hlt 8 (by omega))]
  generalize Function.update (Function.update k.mem vmb code) (vmb + 8) data = mem
  exact store64_below_contexts (k := { k with mem := mem }) (by omega) (by omega)
    (hlt 16 (by omega))

theorem BootThreads.insert_eq (h : BootThreads k) (hp : p ∈ k.contexts)
    (hrun : k.runnable ∈ k.contexts) (hne : p ≠ k.runnable) :
    insertThreadAtTail k (runnableAddress k) p = k.withCtx (linkBefore k.ctx p k.runnable) := by
  unfold insertThreadAtTail
  simp only [h.heap.toPlaced.load64_runnable, h.heap.toPlaced.ne_zero hrun, if_false]
  exact insertNewThreadBeforeOld_eq hp hrun (h.prev _ hrun) hne

/-- A thread joins the ring of `runnable`. -/
theorem BootThreads.insert (h : BootThreads k) (hp : p ∈ k.contexts)
    (hrun : k.runnable ∈ k.contexts) (hne : p ≠ k.runnable) :
    BootThreads (k.withCtx (linkBefore k.ctx p k.runnable)) := by
  refine ⟨h.heap.congr rfl rfl, ?_, ?_, ?_⟩
  · intro q hq
    show nextOf (linkBefore k.ctx p k.runnable) q ∈ k.contexts
    rw [linkBefore_next hne]
    simp only [Function.update_apply]
    split
    · exact hp
    · split
      · exact hrun
      · exact h.next q hq
  · intro q hq
    show prevOf (linkBefore k.ctx p k.runnable) q ∈ k.contexts
    rw [linkBefore_prev]
    simp only [Function.update_apply]
    split
    · exact hp
    · split
      · exact h.prev _ hrun
      · exact h.prev q hq
  · intro q hq
    show linkBefore k.ctx p k.runnable q 2 = 0
    rw [linkBefore_list hne]
    split
    · exact h.list _ hrun
    · exact h.list q hq

/-- The thread of a driver is a new context, behind the head of the ring. -/
theorem startDriver_eq {m : ℕ} (h : BootThreads k) (hrun : k.runnable ∈ k.contexts)
    (hi : startDriver k m = .ok k' ()) : ∃ k₂ p, Created k k₂ p ∧
      p + contextSize ≤ startAddress + k.heapBottom ∧ p ∈ k₂.contexts ∧
      k₂.runnable ∈ k₂.contexts ∧ p ≠ k₂.runnable ∧
      k' = k₂.withCtx (linkBefore k₂.ctx p k₂.runnable) := by
  rcases Outcome.andThen_ok hi with ⟨k₁, p, hn, hi⟩
  have hc : Created k (k₁.setReg p 0 m) p := (newThread_ok h.heap hn).set (.inl (by omega))
  generalize k₁.setReg p 0 m = k₂ at hi hc
  rcases hc.eq with ⟨b, c, hk₂⟩
  have hcon : k₂.contexts = p :: k.contexts := congrArg Kernel.contexts hk₂
  have hrun₂ : k₂.runnable = k.runnable := by rw [hk₂]
  have hmem : p ∈ k₂.contexts := hcon ▸ List.mem_cons_self
  have hrunmem : k₂.runnable ∈ k₂.contexts := by
    rw [hcon, hrun₂]
    exact List.mem_cons_of_mem p hrun
  have hne : p ≠ k₂.runnable := by
    rintro rfl
    exact hc.fresh (hrun₂ ▸ hrun)
  cases hi
  exact ⟨k₂, p, hc, newThread_below h.heap hn, hmem, hrunmem, hne,
    (h.created hc).insert_eq hmem hrunmem hne⟩

theorem startDriver_threads {m : ℕ} (h : BootThreads k) (hrun : k.runnable ∈ k.contexts)
    (hi : startDriver k m = .ok k' ()) : BootThreads k' ∧ k'.runnable ∈ k'.contexts := by
  rcases startDriver_eq h hrun hi with ⟨k₂, p, hc, -, hmem, hrun₂, hne, rfl⟩
  exact ⟨(h.created hc).insert hmem hrun₂ hne, hrun₂⟩

/-- An interface is taken from the free list. -/
theorem BootThreads.obtain {e : ℕ} (h : BootThreads k) (hrun : k.runnable ∈ k.contexts)
    (ho : obtainInterface k = .ok k' e) : BootThreads k' ∧ k'.runnable ∈ k'.contexts := by
  obtain ⟨-, -, -, -, -, rfl⟩ := obtainInterface_ok ho
  exact ⟨h.congr rfl rfl fun _ _ _ _ => rfl, hrun⟩

/-- The block for a table is below the contexts. -/
theorem BootThreads.newTable (h : BootThreads k) {vmb : ℕ}
    (ha : allocateHeap k (8 * initialVmbsPerDriver) = (k', vmb))
    (hm : inMappedHeap vmb (8 * initialVmbsPerDriver) = true) :
    ∃ b, vmb = startAddress + b ∧ k' = { k with heapBottom := b } ∧ BootThreads k' ∧
      b % 32 = 0 ∧ heapTop - initialHeap ≤ b ∧ b + 96 ≤ heapTop ∧
      ∀ p ∈ k.contexts, startAddress + b + 96 ≤ p := by
  have hsize : 8 * initialVmbsPerDriver < 2 ^ 20 := by decide
  have hmap : inMappedHeap (allocateHeap k (8 * initialVmbsPerDriver)).2
      (8 * initialVmbsPerDriver) = true := by rw [ha]; exact hm
  have hlow := h.heap.lower hsize hmap
  have hbelow := fun q hq => h.heap.block_below hsize hmap (p := q) hq
  rcases h.heap.allocate hsize hmap with ⟨b, hb, -, hge, htop⟩
  have hal := hlow.bottom_aligned
  rw [ha] at hb hlow hbelow hal
  rcases Prod.mk.inj hb with ⟨rfl, rfl⟩
  exact ⟨b, rfl, rfl, ⟨hlow, h.next, h.prev, h.list⟩, hal, hge, htop, hbelow⟩

theorem initialiseDriver_threads {driver : DriverImage} (h : BootThreads k)
    (hrun : k.runnable ∈ k.contexts) (hi : initialiseDriver k driver = .ok k' ()) :
    BootThreads k' ∧ k'.runnable ∈ k'.contexts := by
  rcases Outcome.andThen_ok hi with ⟨k₁, m, hm, hi⟩
  rcases Outcome.andThen_ok hi with ⟨k₂, c, hc, hi⟩
  rcases Outcome.andThen_ok hi with ⟨k₃, d, hd, hi⟩
  rcases h.obtain hrun hm with ⟨h₁, hrun₁⟩
  rcases h₁.obtain hrun₁ hc with ⟨h₂, hrun₂⟩
  rcases h₂.obtain hrun₂ hd with ⟨h₃, hrun₃⟩
  split at hi
  · cases hi
  · cases ha : allocateHeap k₃ (8 * initialVmbsPerDriver) with
    | mk k₄ vmb =>
      simp only [ha] at hi
      split at hi
      · cases hi
      · rename_i hin
        rcases h₃.newTable ha (by simpa using hin) with ⟨b, rfl, rfl, hb, hal, hge, -, hbelow⟩
        have h₄ : BootThreads (driverInterfaces { k₃ with heapBottom := b } driver m c d
            (startAddress + b)) := hb.congr rfl rfl fun _ _ _ _ => rfl
        have hrun₄ : (driverInterfaces { k₃ with heapBottom := b } driver m c d
            (startAddress + b)).runnable ∈ k₃.contexts := hrun₃
        have hcon₄ : (driverInterfaces { k₃ with heapBottom := b } driver m c d
            (startAddress + b)).contexts = k₃.contexts := rfl
        generalize driverInterfaces { k₃ with heapBottom := b } driver m c d (startAddress + b) = k₄
          at hi h₄ hrun₄ hcon₄
        have hal' : (startAddress + b) % 8 = 0 := by
          unfold startAddress
          omega
        have hstart : heapStart ≤ startAddress + b := by
          unfold heapStart
          omega
        have hlt : ∀ p ∈ k₄.contexts, startAddress + b + 16 < p := by
          rw [hcon₄]
          intro q hq
          have := hbelow q hq
          omega
        rw [driverTable_mem driver c d hal' hstart hlt] at hi
        revert hi
        generalize Function.update (Function.update (Function.update k₄.mem _ _) _ _) _ 0 = mem
        intro hi
        have h₅ : BootThreads { k₄ with mem := mem } := h₄.congr rfl rfl fun _ _ _ _ => rfl
        rw [← hcon₄] at hrun₄
        exact startDriver_threads h₅ hrun₄ hi

theorem initialiseDrivers_threads {drivers : List DriverImage} (h : BootThreads k)
    (hrun : k.runnable ∈ k.contexts) (hi : initialiseDrivers drivers k = .ok k' ()) :
    BootThreads k' ∧ k'.runnable ∈ k'.contexts := by
  induction drivers generalizing k with
  | nil =>
    cases hi
    exact ⟨h, hrun⟩
  | cons driver drivers ih =>
    obtain ⟨k₁, u, hd, hi⟩ := Outcome.andThen_ok hi
    obtain ⟨h₁, hrun₁⟩ := initialiseDriver_threads h hrun hd
    exact ih h₁ hrun₁ hi

/-- The kernel when core 0 initialises the maps: no thread has been made yet. -/
structure BeforeBoot (k : Kernel) (present : ℕ) : Prop where
  contexts : k.contexts = []
  heapBottom : k.heapBottom = heapTop
  /-- the core that initialises the maps is present -/
  core0 : present.testBit 0 = true
  cores : ∀ n, present.testBit n = true → k.layout.HasCore n

theorem initialiseDriverMaps_threads {present ffp : ℕ} {drivers : List DriverImage}
    (h : BeforeBoot k present) (hi : initialiseDriverMaps k present ffp drivers = .ok k' ()) :
    BootThreads k' ∧ k'.runnable ∈ k'.contexts := by
  obtain ⟨k₁, u, hc, hi⟩ := Outcome.andThen_ok hi
  have h₀ : BootThreads (initialiseSystemMaps k) := by
    have hnil : (initialiseSystemMaps k).contexts = [] := h.contexts
    have hbot : (initialiseSystemMaps k).heapBottom = heapTop := h.heapBottom
    refine ⟨⟨⟨?_, ?_, ?_, ?_, ?_⟩, ?_, ?_⟩, ?_, ?_, ?_⟩
    all_goals simp only [hnil, hbot]
    all_goals simp [heapTop, initialHeap]
  obtain ⟨h₁, hrun₁⟩ := initialiseCores_threads h₀ h.cores hc
  exact initialiseDrivers_threads h₁ (hrun₁ (.inl ⟨by simp, h.core0⟩)) hi

end Threads

/-! ## Owners -/

/-- The threads of the ring of `runnable` have its address in their `list` fields, and
the threads that wait for a lock have that of the fake head. -/
structure Owned (k : Kernel) (waiting : ℕ → Prop) : Prop where
  runnable : ∀ i, k.list (k.next^[i] k.runnable) = runnableAddress k
  blocked : ∀ p, waiting p → k.list p = k.layout.blocked

/-- A step of the running thread into the kernel and back. -/
def kernelSystem (start : Kernel) : System Kernel (Regs × Event) where
  init k := k = start
  step k e k' := ∃ now, kernelStep k e.1 e.2 = .ok k' now

section Owners

variable {k k' : Kernel} {present ffp : ℕ} {drivers : List DriverImage}

/-- The ring that core 0 starts with has no owner. -/
theorem boot_list (h : BeforeBoot k present)
    (hi : enterSecureEl1Himem k present ffp drivers = .ok k' ()) (i : ℕ) :
    k'.next^[i] k'.runnable ∈ k'.contexts ∧ k'.list (k'.next^[i] k'.runnable) = 0 := by
  obtain ⟨k₁, u, hm, hi⟩ := Outcome.andThen_ok hi
  obtain ⟨hb, hrun⟩ := initialiseDriverMaps_threads h hm
  obtain ⟨n, l1, l2, l3, hl⟩ := loadThisMap_tables { k₁ with loadedMap := 0 }
    (k₁.currentMap k₁.runnable)
  rw [hl] at hi
  cases hi
  generalize hk : ({ k₁ with loadedMap := n, l1 := l1, l2 := l2, l3 := l3 } : Kernel) = k₂
  have hb₂ : BootThreads k₂ := by
    rw [← hk]
    exact hb.congr rfl rfl fun _ _ _ _ => rfl
  have hrun₂ : k₂.runnable ∈ k₂.contexts := by
    rw [← hk]
    exact hrun
  have hmem : k₂.next^[i] k₂.runnable ∈ k₂.contexts := by
    induction i with
    | zero => exact hrun₂
    | succ i ih =>
      rw [Function.iterate_succ_apply', Kernel.next, fld_of_mem ih]
      exact hb₂.next _ ih
  refine ⟨hmem, ?_⟩
  rw [Kernel.list, fld_of_mem hmem]
  exact hb₂.list _ hmem

/-- Whatever the cores and the drivers are, the runs from boot begin in a state in which
the threads of the ring of `runnable` have a null owner. -/
theorem boot_unowned (h : BeforeBoot k present)
    (hi : enterSecureEl1Himem k present ffp drivers = .ok k' ()) (waiting : Kernel → ℕ → Prop) :
    (∀ i, k'.list (k'.next^[i] k'.runnable) = 0) ∧
      ¬ ∀ s, (kernelSystem k').Reachable s → Owned s (waiting s) := by
  refine ⟨fun i => (boot_list h hi i).2, ?_⟩
  intro howned
  have hown := (howned k' (.init rfl)).runnable 0
  rw [(boot_list h hi 0).2] at hown
  have hl := layout_le k'
  unfold runnableAddress startAddress at *
  omega

/-- A core and a driver. -/
def oneDriver : Outcome Unit :=
  enterSecureEl1Himem Kernel.boot 1 0x400000 [⟨0x80000, 0x90000, 8, 8⟩]

theorem oneDriver_ok : oneDriver = .ok oneDriver.kernel () := Outcome.eq_ok (by decide +kernel)

theorem boot_beforeBoot : BeforeBoot Kernel.boot 1 := by
  refine ⟨rfl, rfl, rfl, ?_⟩
  intro n hn
  obtain rfl : n = 0 := by
    by_contra hne
    rw [Nat.testBit_one_eq_true_iff_self_eq_zero] at hn
    exact hne hn
  unfold Layout.HasCore
  decide

theorem boot_unowned_driver : (∀ i, oneDriver.kernel.list
    (oneDriver.kernel.next^[i] oneDriver.kernel.runnable) = 0) ∧
      ¬ ∀ s, (kernelSystem oneDriver.kernel).Reachable s → Owned s (fun _ => False) :=
  boot_unowned boot_beforeBoot oneDriver_ok fun _ _ => False

/-- `remove_thread` would follow a null pointer for the first thread. -/
theorem boot_runnable_unowned :
    ¬ ∀ s, (kernelSystem oneDriver.kernel).Reachable s → Owned s (fun _ => False) := by
  intro h
  have hown := (h oneDriver.kernel (.init rfl)).runnable 0
  revert hown
  decide +kernel

end Owners

end Isambard.El1
