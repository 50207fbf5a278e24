import Isambard.El1.SystemCalls
import Isambard.El1.Storage

/-!
# El1.KernelStart — what holds when the kernel has started

The invariant of the kernel from its first thread on. Core 0's system thread is alone in the
ring of the runnable ones; the threads of the drivers are put behind it, and those of the other
cores are in rings of their own. Each driver has a map of its own, whose interface is the first
that a free slot is taken for.

* `FreshKernel`: the kernel as it is loaded; `Threadless`: before the first thread;
* `StartInv`: the invariant from then on, and what keeps it;
* `initialiseDriverMaps_inv`, `enterSecureEl1Himem_inv`: the functions of the source.
-/

namespace Isambard.El1

open Isambard.Lib

/-- The kernel's interfaces are those of the storage, where that was initialised. -/
structure Stored (k : Kernel) (s : Storage) : Prop where
  first : k.freeInterface = s.freeInterface
  last : k.lastInterface = s.lastInterface
  slots : ∀ e i, s.slots e = some i → k.interfaces e = i

/-- The kernel as it is loaded, with new memory for the interfaces: there is no thread, and the
memory of slot 0 is zero. -/
structure FreshKernel (k : Kernel) (present : ℕ) : Prop extends BeforeBoot k present where
  interrupt : k.interruptThread = 0
  queue : k.blockedWithTimeout = 0
  zero : (k.interfaces 0).user = 0
  stored : ∃ s : Storage, s.lastInterface = numberOfSpecialInterfaces ∧
    Stored k (newMemoryForInterfaces s tableSize)

/-- The two special maps, and the interfaces to the drivers' maps. -/
def IsMapIndex (k : Kernel) (m : ℕ) : Prop := m = systemMapIndex ∨ m = memoryAllocatorMapIndex ∨
  IsSlot k m ∧ (k.interfaces m).provider = systemMapIndex ∧
    (k.interfaces m).handler = systemServiceMap

/-- The interfaces of the system are there, and no thread is. -/
structure Threadless (k : Kernel) : Prop where
  heap : Heap k
  contexts : k.contexts = []
  interrupt : k.interruptThread = 0
  queue : k.blockedWithTimeout = 0
  table : TableOk k
  closed : Domains.Closed (IsMapIndex k) (world k)

/-- The thread has not called yet: there is the frame that leads out of its map. -/
structure Uncalled (c : ℕ → ℕ → ℕ) (p : ℕ) : Prop where
  pointer : c p 41 = frameAddress p 5
  exit : c p 59 = systemServiceThreadExit
  map : field 0 32 (c p 60) = systemMapIndex

/-- Core 0 has its system thread. None has waited or called yet, and none is the interrupt
thread. -/
structure StartInv (k : Kernel) : Prop where
  sched : ∃ rs rem, SchedInv (fun _ => True) k rs [] rem
  interrupt : k.interruptThread = 0
  uncalled : ∀ p ∈ k.contexts, Uncalled k.ctx p
  table : TableOk k
  closed : Domains.Closed (IsMapIndex k) (world k)

section Start

variable {k k' k₁ : Kernel} {p map present ffp : ℕ}

/-! ## The free slots -/

theorem linkSlots_eq (first n : ℕ) (slots : ℕ → Option Interface) (e : ℕ) :
    linkSlots first n slots e =
      if first ≤ e ∧ e < first + n then some (freeSlot (e + 1)) else slots e := by
  induction n with
  | zero => rw [linkSlots, if_neg (by omega)]
  | succ n ih =>
    unfold linkSlots
    rw [Function.update_apply, ih]
    split
    · rename_i heq
      rw [if_pos (by omega), heq]
    · rename_i hne
      by_cases hin : first ≤ e ∧ e < first + n
      · rw [if_pos hin, if_pos (by omega)]
      · rw [if_neg hin, if_neg (by omega)]

/-- `new_memory_for_interfaces` links the slots from 3 on in their order. -/
theorem FreshKernel.table (h : FreshKernel k present) : k.freeInterface = 3 ∧
    k.lastInterface = tableSize ∧ ∀ e, 3 ≤ e → e < tableSize →
      (k.interfaces e).next = if e + 1 < tableSize then e + 1 else 0 := by
  obtain ⟨s, hs, first, last, slots⟩ := h.stored
  have hfirst : s.lastInterface + 1 = 3 := by rw [hs, numberOfSpecialInterfaces]
  have hlink : ∀ e, 3 ≤ e → e < tableSize →
      linkSlots (s.lastInterface + 1) (tableSize - (s.lastInterface + 1)) s.slots e =
        some (freeSlot (e + 1)) := by
    intro e he hlt
    rw [hfirst, linkSlots_eq, if_pos (by omega)]
  refine ⟨first.trans hfirst, last, ?_⟩
  intro e he hlt
  by_cases hend : e = tableSize - 1
  · have hslot : (newMemoryForInterfaces s tableSize).slots e =
        some { freeSlot (e + 1) with user := 0 } := by
      unfold newMemoryForInterfaces
      simp only
      rw [hend, Function.update_self, ← hend, hlink e he hlt]
      rfl
    rw [slots e _ hslot, if_neg (by omega)]
    rfl
  · have hslot : (newMemoryForInterfaces s tableSize).slots e = some (freeSlot (e + 1)) := by
      unfold newMemoryForInterfaces
      simp only
      rw [Function.update_of_ne hend, hlink e he hlt]
    rw [slots e _ hslot, if_pos (by omega)]
    rfl

/-! ## Maps -/

theorem IsMapIndex.isSlot (h : IsMapIndex k map) (ht : TableOk k) : IsSlot k map := by
  have hfirst := ht.first
  rcases h with rfl | rfl | ⟨hs, -⟩
  · exact ⟨by decide, by unfold systemMapIndex; omega⟩
  · exact ⟨by decide, by unfold memoryAllocatorMapIndex; omega⟩
  · exact hs

theorem isMapIndex_congr (hi : k'.interfaces = k.interfaces)
    (hf : k'.freeInterface = k.freeInterface) :
    IsMapIndex k' = IsMapIndex k := by
  funext m
  unfold IsMapIndex
  rw [isSlot_congr hf, hi]

/-! ## New threads -/

theorem StartInv.mem (h : StartInv k) : k.runnable ∈ k.contexts := by
  obtain ⟨_, _, hs⟩ := h.sched
  exact hs.mem

theorem StartInv.heap (h : StartInv k) : Heap k := by
  obtain ⟨_, _, hs⟩ := h.sched
  exact hs.heap

/-- The first thread of a map is in the domain of that map, and leaves it for the system's. -/
theorem Spawned.closed (h : Spawned k k' p map) (ht : TableOk k)
    (hc : Domains.Closed (IsMapIndex k) (world k)) (hm : IsMapIndex k map) :
    Domains.Closed (IsMapIndex k') (world k') := by
  obtain ⟨hsp, hexit, hout⟩ := h.row
  have hbound := ht.bound
  have hmap : map % 2 ^ 32 = map := by
    apply Nat.mod_eq_of_lt
    have := (hm.isSlot ht).2
    unfold tableSize at hbound
    omega
  have hact : activity k'.ctx p = ⟨map, [frameAt k'.ctx p 5]⟩ := by
    unfold activity
    rw [frames_new hsp, h.map, hmap]
  rw [isMapIndex_congr h.interfaces h.freeInterface,
    world_setThread (p := p) (by rw [h.contexts]; exact fun q => List.mem_cons)
    (fun q hq _ => activity_congr (h.rows q hq)) h.interfaces h.freeInterface, hact]
  apply hc.setThread
  · exact hm
  · intro f hf
    rw [List.mem_singleton.1 hf]
    exact .inl hout

theorem Spawned.table (h : Spawned k k' p map) (ht : TableOk k)
    (hl : k'.lastInterface = k.lastInterface) : TableOk k' :=
  ht.congr h.interfaces h.freeInterface hl

theorem NewThread.lastInterface (h : NewThread k k' p) : k'.lastInterface = k.lastInterface := by
  obtain ⟨b, c, m, rfl⟩ := h.eq
  rfl

theorem Uncalled.congr {c c' : ℕ → ℕ → ℕ} (h : Uncalled c p) (hw : ∀ w, 39 ≤ w → c' p w = c p w) :
    Uncalled c' p := by
  refine ⟨(hw 41 (by decide)).trans h.pointer, (hw 59 (by decide)).trans h.exit, ?_⟩
  rw [hw 60 (by decide)]
  exact h.map

theorem NewThread.uncalled (h : NewThread k k' p) : Uncalled k'.ctx p :=
  ⟨h.row.stackPointer, h.row.callerReturnAddress, h.row.callerMap⟩

theorem newThread_starts (h : Heap k) (hn : newThread k map = .ok k' p) :
    StartsIn k k' p map := by
  have hnew := initialiseNewThread_new (k := k) h (by decide : contextSize < 2 ^ 20) le_rfl
  unfold newThread at hn
  generalize allocateHeap k contextSize = b at hn hnew
  obtain ⟨k₁, q⟩ := b
  simp only at hn hnew
  split at hn
  · cases hn
  rename_i hm
  have hstart := (hnew (by simpa using hm)).setCurrentMap map
  generalize (initialiseNewThread k₁ q).setCurrentMap q map = k₂ at hn hstart
  obtain ⟨rfl, rfl⟩ := Outcome.ok.inj hn
  exact (hstart.set (w := 36) (by decide) 0).set (w := 37) (by decide) _

theorem StartsIn.setParameters (h : StartsIn k k' p map) (n ffp : ℕ) :
    StartsIn k (setParameters k' p n ffp) p map :=
  (((h.set (w := 4) (by decide) systemMapIndex).set (w := 5) (by decide)
    memoryAllocatorMapIndex).set (w := 6) (by decide) n).set (w := 7) (by decide) ffp

/-- The first thread, as the head of the ring. -/
theorem NewThread.first_sched (h : NewThread k k' p) (ht : Threadless k) :
    SchedInv (fun _ => True) { k' with runnable := p } [] [] fun _ => 0 := by
  have hcon : k'.contexts = [p] := by rw [h.contexts, ht.contexts]
  have hmem : ∀ q, q ∈ k'.contexts → q = p := by
    intro q hq
    rw [hcon] at hq
    exact List.mem_singleton.1 hq
  have hp : p ∈ k'.contexts := hcon ▸ List.mem_singleton_self p
  have hring : Ring (nextOf k'.ctx) (prevOf k'.ctx) p [] := ring_nil.2 ⟨h.row.next, h.row.prev⟩
  have hgate : k'.ctx p 38 ≠ threadWaiting := by
    rw [h.row.gate]
    decide
  have hlock : ¬ OnLock { k' with runnable := p } p := by
    unfold OnLock
    show ¬ k'.ctx p 2 = k'.layout.blocked
    rw [h.row.list]
    exact (blocked_ne_zero k').symm
  have hpn : p ≠ 0 := h.heap.toPlaced.ne_zero hp
  have howner : ∀ q, q = p → k'.ctx q 2 = 0 := fun q hq => by rw [hq, h.row.list]
  have hsingle : ∀ q ∈ [p], q = p := fun q hq => List.mem_singleton.1 hq
  have hrun : Running { k' with runnable := p } [] :=
    ⟨hring, List.nodup_singleton p, fun q hq => hsingle q hq ▸ hp,
      fun q hq => .inl (howner q (hsingle q hq))⟩
  obtain ⟨b, c, m, hk'⟩ := h.eq
  refine ⟨?_, h.heap.congr rfl rfl, ?_, ?_, ?_, ?_, ?_, fun _ _ _ => .inl trivial⟩
  · constructor
    case placed => exact h.heap.toPlaced.congr rfl rfl
    case owners => exact fun q hq => .inl (howner q (hmem q hq))
    case ring => exact hring
    case ringNodup => exact List.nodup_singleton p
    case ringMem => exact fun q hq => hsingle q hq ▸ hp
    case awake => exact fun q hq => hsingle q hq ▸ hgate
    case queue =>
      refine ⟨blockedWithTimeoutAddress k', rfl, ?_⟩
      show 0 = k'.blockedWithTimeout
      rw [hk']
      exact ht.queue.symm
    case queueNodup => exact List.nodup_nil
    case waiting => exact fun q hq => absurd hq List.not_mem_nil
    case queued => exact fun q hq hw => absurd (hmem q hq ▸ hw) hgate
    case sums => exact sums_nil
    case first => exact fun q hq => absurd hq (by simp)
    case bound => exact fun q hq => absurd hq List.not_mem_nil
    case gates =>
      intro q hq
      right
      show k'.ctx q 38 ≤ 0x7fffffff
      rw [hmem q hq, h.row.gate]
      decide
  · constructor
    case running => exact hrun
    case hand => exact fun h0 => hpn (List.mem_singleton.1 h0).symm
    case free => exact fun q hq => hsingle q hq ▸ hlock
    case locks => exact fun q hq _ hl => absurd (hmem q hq ▸ hl) hlock
    case alone =>
      intro q hq _
      rw [hmem q hq]
      exact ⟨h.row.next, h.row.prev⟩
  · exact fun q hq hw => absurd (hmem q hq ▸ hw) hgate
  · intro q hq h3
    rw [hmem q hq] at h3
    exact absurd h.row.partner h3
  · intro hi
    apply absurd ht.interrupt
    rw [hk'] at hi
    exact hi
  · intro q hq
    rw [hmem q hq]
    exact ⟨⟨5, by decide, by decide, h.row.stackPointer⟩, h.row.stackLimit⟩

theorem StartsIn.first (h : StartsIn k k' p map) (ht : Threadless k) (hm : IsMapIndex k map) :
    StartInv { k' with runnable := p } := by
  have hsp := h.new.spawned h.map
  refine ⟨⟨[], _, h.new.first_sched ht⟩, ?_, ?_, ?_, hsp.closed ht.table ht.closed hm⟩
  · obtain ⟨b, c, m, hk'⟩ := h.new.eq
    rw [hk']
    exact ht.interrupt
  · show ∀ q ∈ k'.contexts, Uncalled k'.ctx q
    rw [h.new.contexts, ht.contexts]
    intro q hq
    rw [List.mem_singleton.1 hq]
    exact h.new.uncalled
  · exact (hsp.table ht.table h.new.lastInterface).congr rfl rfl rfl

/-- A thread that is in a ring of its own. -/
theorem StartsIn.more (h : StartsIn k k' p map) (hs : StartInv k) (hm : IsMapIndex k map) :
    StartInv k' := by
  have hsp := h.new.spawned h.map
  obtain ⟨rs, rem, hsched⟩ := hs.sched
  refine ⟨⟨rs, rem, (hsched.created h.new).1.mono fun _ _ => trivial⟩, ?_, ?_,
    hsp.table hs.table h.new.lastInterface, hsp.closed hs.table hs.closed hm⟩
  · obtain ⟨b, c, m, hk'⟩ := h.new.eq
    rw [hk']
    exact hs.interrupt
  · rw [h.new.contexts]
    intro q hq
    rcases List.mem_cons.1 hq with rfl | hq
    · exact h.new.uncalled
    · have hne : q ≠ p := fun heq => h.new.fresh (heq ▸ hq)
      exact (hs.uncalled q hq).congr fun w _ => h.new.others q w hne

theorem StartInv.memory (h : StartInv k) (m : ℕ → ℕ) : StartInv { k with mem := m } := by
  obtain ⟨rs, rem, hs⟩ := h.sched
  exact ⟨⟨rs, rem, hs.congr (.of_ctx rfl rfl rfl rfl rfl rfl rfl)⟩, h.interrupt, h.uncalled,
    h.table.congr rfl rfl rfl, h.closed⟩

/-! ## The threads of the cores -/

/-- The thread of core `n`, and where it is stored. -/
theorem initialiseCore_starts {n : ℕ} (h : Heap k) (hle : k.layout.HasCore n)
    (hi : initialiseCore k n ffp = .ok k' ()) : ∃ k₁ p, StartsIn k k₁ p systemMapIndex ∧
      (n = 0 ∧ k' = { k₁ with runnable := p } ∨ 0 < n ∧ ∃ m, k' = { k₁ with mem := m }) := by
  obtain ⟨k₁, p, hn, hi⟩ := Outcome.andThen_ok hi
  have hstart := (newThread_starts h hn).setParameters n ffp
  simp only at hi
  generalize setParameters k₁ p n ffp = k₂ at hi hstart
  have hpl := hstart.new.heap.toPlaced
  refine ⟨k₂, p, hstart, ?_⟩
  rcases Nat.eq_zero_or_pos n with rfl | hpos
  · left
    rw [Nat.mul_zero, Nat.add_zero, hpl.store64_runnable] at hi
    obtain ⟨rfl, -⟩ := Outcome.ok.inj hi
    exact ⟨rfl, rfl⟩
  · right
    have hal : (runnableAddress k₂ + coreSize * n) % 8 = 0 := by
      have := runnableAddress_aligned k₂
      unfold coreSize
      omega
    have hlay : k₂.layout = k.layout := by
      obtain ⟨b, c, m, hk₂⟩ := hstart.new.eq
      rw [hk₂]
    rw [store64_eq_setWord hal, Kernel.setWord,
      hpl.place_otherCore hpos (by rw [hlay]; exact hle)] at hi
    obtain ⟨rfl, -⟩ := Outcome.ok.inj hi
    exact ⟨hpos, _, rfl⟩

theorem StartInv.cores {ns : List ℕ} (h : StartInv k)
    (hle : ∀ n, present.testBit n = true → k.layout.HasCore n) (hns : ∀ n ∈ ns, 0 < n)
    (hi : initialiseCores present ffp ns k = .ok k' ()) : StartInv k' := by
  induction ns generalizing k with
  | nil =>
    obtain ⟨rfl, -⟩ := Outcome.ok.inj hi
    exact h
  | cons n ns ih =>
    have hpos := hns n List.mem_cons_self
    have hns' : ∀ m ∈ ns, 0 < m := fun m hm => hns m (List.mem_cons_of_mem n hm)
    unfold initialiseCores at hi
    split at hi
    · rename_i hbit
      obtain ⟨k₁, u, hc, hi⟩ := Outcome.andThen_ok hi
      obtain ⟨k₂, p, hstart, ⟨h0, -⟩ | ⟨-, m, rfl⟩⟩ := initialiseCore_starts h.heap (hle n hbit) hc
      · omega
      · have hlay : k₂.layout = k.layout := by
          obtain ⟨b, c, m', hk₂⟩ := hstart.new.eq
          rw [hk₂]
        refine ih ((hstart.more h (.inl rfl)).memory m) ?_ hns' hi
        show ∀ n, present.testBit n = true → k₂.layout.HasCore n
        rw [hlay]
        exact hle
    · exact ih h hle hns' hi

theorem Threadless.cores (h : Threadless k)
    (hle : ∀ n, present.testBit n = true → k.layout.HasCore n) (h0 : present.testBit 0 = true)
    (hi : initialiseCores present ffp (List.range 64) k = .ok k' ()) : StartInv k' := by
  have hrange : List.range 64 = 0 :: List.range' 1 63 := by decide
  rw [hrange] at hi
  unfold initialiseCores at hi
  rw [if_pos h0] at hi
  obtain ⟨k₁, u, hc, hi⟩ := Outcome.andThen_ok hi
  obtain ⟨k₂, p, hstart, ⟨-, rfl⟩ | ⟨hpos, -⟩⟩ := initialiseCore_starts h.heap (hle 0 h0) hc
  · have hlay : k₂.layout = k.layout := by
      obtain ⟨b, c, m', hk₂⟩ := hstart.new.eq
      rw [hk₂]
    refine (hstart.first h (.inl rfl)).cores ?_ ?_ hi
    · show ∀ n, present.testBit n = true → k₂.layout.HasCore n
      rw [hlay]
      exact hle
    · exact fun n hn => (List.mem_range'_1.1 hn).1
  · exact absurd hpos (by decide)

/-! ## The drivers -/

/-- The interfaces of a driver are in the next three slots, the one to its map in the first. -/
theorem StartInv.interfaces (h : StartInv k) (driver : DriverImage) {b : ℕ} (vmb : ℕ)
    (hb : Heap { k with heapBottom := b }) (ht : TableOk { k with
      freeInterface := k.freeInterface + 3, heapBottom := b }) :
    StartInv (driverInterfaces { k with freeInterface := k.freeInterface + 3, heapBottom := b }
      driver k.freeInterface (k.freeInterface + 1) (k.freeInterface + 2) vmb) ∧
    IsMapIndex (driverInterfaces { k with freeInterface := k.freeInterface + 3, heapBottom := b }
      driver k.freeInterface (k.freeInterface + 1) (k.freeInterface + 2) vmb) k.freeInterface := by
  obtain ⟨rs, rem, hs⟩ := h.sched
  have hfirst := h.table.first
  set k₁ := driverInterfaces { k with freeInterface := k.freeInterface + 3, heapBottom := b }
    driver k.freeInterface (k.freeInterface + 1) (k.freeInterface + 2) vmb with hk₁
  have hfree : k₁.freeInterface = k.freeInterface + 3 := rfl
  have hold : ∀ m, m ≠ k.freeInterface → m ≠ k.freeInterface + 1 → m ≠ k.freeInterface + 2 →
      k₁.interfaces m = k.interfaces m := by
    intro m h0 h1 h2
    rw [hk₁]
    unfold driverInterfaces
    simp only [Function.update_of_ne h0, Function.update_of_ne h1, Function.update_of_ne h2]
  have hnew : ∀ m, m = k.freeInterface ∨ m = k.freeInterface + 1 ∨ m = k.freeInterface + 2 →
      (k₁.interfaces m).user = k.freeInterface ∧ (k₁.interfaces m).provider = systemMapIndex := by
    rintro m (rfl | rfl | rfl)
    · rw [hk₁]
      unfold driverInterfaces
      simp
    · rw [hk₁]
      unfold driverInterfaces
      simp
    · rw [hk₁]
      unfold driverInterfaces
      simp
  have hold' : ∀ m, IsMapIndex k m → IsMapIndex k₁ m := by
    rintro m (hm | hm | ⟨⟨hpos, hlt⟩, hm⟩)
    · exact .inl hm
    · exact .inr (.inl hm)
    · refine .inr (.inr ⟨⟨hpos, ?_⟩, ?_⟩)
      · rw [hfree]
        omega
      · rw [hold m (by omega) (by omega) (by omega)]
        exact hm
  have hmap : IsMapIndex k₁ k.freeInterface := by
    refine .inr (.inr ⟨⟨by omega, by omega⟩, (hnew _ (.inl rfl)).2, ?_⟩)
    rw [hk₁]
    unfold driverInterfaces
    simp
  have hcap : ∀ i c, (world k₁).caps i = some c → (world k).caps i = some c ∨
      c.user = k.freeInterface ∧ c.provider = systemMapIndex := by
    intro i c hc
    obtain ⟨⟨hpos, hlt⟩, rfl⟩ := world_cap_iff.1 hc
    rw [hfree] at hlt
    by_cases hi : i < k.freeInterface
    · left
      rw [hold i (by omega) (by omega) (by omega)]
      exact world_cap ⟨hpos, hi⟩
    · exact .inr (hnew i (by omega))
  refine ⟨⟨⟨rs, rem, (hs.lower hb).congr (.of_ctx rfl rfl rfl rfl rfl rfl rfl)⟩, h.interrupt,
    h.uncalled, ⟨ht.first, ht.bound, ht.last, ?_, ?_⟩, ?_⟩, hmap⟩
  · rw [hold 0 (by omega) (by omega) (by omega)]
    exact h.table.zero
  · intro e he hlt
    rw [hfree] at he
    rw [hold e (by omega) (by omega) (by omega)]
    exact h.table.free e (by omega) hlt
  · constructor
    · exact fun t a ha => hold' _ (h.closed.domain t a ha)
    · exact fun t a ha f hf => hold' _ (h.closed.frames t a ha f hf)
    · intro i c hc
      rcases hcap i c hc with hc | ⟨hu, -⟩
      · exact hold' _ (h.closed.user i c hc)
      · rw [hu]
        exact hmap
    · intro i c hc
      rcases hcap i c hc with hc | ⟨-, hp⟩
      · exact hold' _ (h.closed.provider i c hc)
      · rw [hp]
        exact .inl rfl

/-- The thread of a driver, behind core 0's. -/
theorem StartInv.driverThread {m : ℕ} (h : StartInv k) (hm : IsMapIndex k m)
    (hi : startDriver k m = .ok k' ()) : StartInv k' := by
  obtain ⟨k₁, p, hn, hi⟩ := Outcome.andThen_ok hi
  have hstart := (newThread_starts h.heap hn).set (w := 4) (by decide) m
  simp only at hi
  change Outcome.ok (insertThreadAtTail (k₁.setFld p 4 m) (runnableAddress (k₁.setFld p 4 m)) p) ()
    = _ at hi
  generalize k₁.setFld p 4 m = k₂ at hi hstart
  have hmore := hstart.more h hm
  obtain ⟨rs, rem, hs⟩ := h.sched
  obtain ⟨hs₂, hid⟩ := hs.created hstart.new
  have hpl := hs₂.heap.toPlaced
  have hp := hstart.mem
  have hprev : k₂.ctx k₂.runnable 1 ∈ k₂.contexts :=
    hs₂.gate.ringMem _ (ring_closed hs₂.gate.ring _ List.mem_cons_self).2
  have htail : insertThreadAtTail k₂ (runnableAddress k₂) p =
      k₂.withCtx (linkBefore k₂.ctx p k₂.runnable) := by
    unfold insertThreadAtTail
    simp only [hpl.load64_runnable, hpl.ne_zero hs₂.mem, if_false]
    exact insertNewThreadBeforeOld_eq hp hs₂.mem hprev hid.ne_runnable
  rw [htail] at hi
  obtain ⟨rfl, -⟩ := Outcome.ok.inj hi
  -- it is put at the head, and core 0's thread has its turn again
  have hhead := hs₂.putHead hp hid (.inr ⟨hstart.new.row.partner, by
    rw [hmore.interrupt]
    exact hpl.ne_zero hs₂.mem⟩)
  have hturn := hhead.rotate (by
    show p ≠ k₂.interruptThread
    rw [hmore.interrupt]
    exact hpl.ne_zero hp)
  have hworld : world (k₂.withCtx (linkBefore k₂.ctx p k₂.runnable)) = world k₂ :=
    world_congr rfl (fun q _ => activity_congr fun w hw => linkBefore_other (by omega)) rfl rfl
  refine ⟨⟨rs ++ [p], rem, hturn⟩, hmore.interrupt, ?_, hmore.table.congr rfl rfl rfl, ?_⟩
  · intro q hq
    exact (hmore.uncalled q hq).congr fun w hw => linkBefore_other (by omega)
  · rw [hworld]
    exact hmore.closed

/-- The block for the table of a driver is below the contexts. -/
theorem Heap.table (h : Heap k) (k' : Kernel) (vmb : ℕ)
    (ha : allocateHeap k (8 * initialVmbsPerDriver) = (k', vmb))
    (hm : inMappedHeap vmb (8 * initialVmbsPerDriver) = true) :
    ∃ b, vmb = startAddress + b ∧ k' = { k with heapBottom := b } ∧ Heap k' ∧ b % 32 = 0 ∧
      heapTop - initialHeap ≤ b ∧ ∀ p ∈ k.contexts, startAddress + b + 96 ≤ p := by
  have hsize : 8 * initialVmbsPerDriver < 2 ^ 20 := by decide
  have hmap : inMappedHeap (allocateHeap k (8 * initialVmbsPerDriver)).2
      (8 * initialVmbsPerDriver) = true := by rw [ha]; exact hm
  have hlow := h.lower hsize hmap
  have hbelow := fun q hq => h.block_below hsize hmap (p := q) hq
  obtain ⟨b, hb, -, hge, -⟩ := h.allocate hsize hmap
  rw [ha] at hb hlow hbelow
  obtain ⟨rfl, rfl⟩ := Prod.mk.inj hb
  exact ⟨b, rfl, rfl, hlow, hlow.bottom_aligned, hge, hbelow⟩

theorem StartInv.driver {driver : DriverImage} (h : StartInv k)
    (hi : initialiseDriver k driver = .ok k' ()) : StartInv k' := by
  obtain ⟨k₁, m, hm, hi⟩ := Outcome.andThen_ok hi
  obtain ⟨k₂, c, hc, hi⟩ := Outcome.andThen_ok hi
  obtain ⟨k₃, d, hd, hi⟩ := Outcome.andThen_ok hi
  obtain ⟨rfl, rfl, -, ht₁⟩ := h.table.obtain hm
  obtain ⟨rfl, rfl, -, ht₂⟩ := ht₁.obtain hc
  obtain ⟨rfl, rfl, -, ht₃⟩ := ht₂.obtain hd
  simp only at hi ht₃
  split at hi
  · cases hi
  have hheap₃ : Heap { k with freeInterface := k.freeInterface + 1 + 1 + 1 } :=
    h.heap.congr rfl rfl
  have htable := hheap₃.table
  generalize allocateHeap _ _ = block at hi htable
  obtain ⟨k₄, vmb⟩ := block
  simp only at hi htable
  split at hi
  · cases hi
  rename_i hin
  obtain ⟨b, rfl, rfl, hheap, hal, hge, hbelow⟩ := htable k₄ vmb rfl (by simpa using hin)
  obtain ⟨hinv, hmap⟩ := h.interfaces driver (startAddress + b) (hheap.congr rfl rfl)
    (ht₃.congr rfl rfl rfl)
  change startDriver (driverTable (driverInterfaces { k with
    freeInterface := k.freeInterface + 3, heapBottom := b } driver k.freeInterface
    (k.freeInterface + 1) (k.freeInterface + 2) (startAddress + b)) driver (k.freeInterface + 1)
    (k.freeInterface + 2) (startAddress + b)) k.freeInterface = _ at hi
  have hcon : (driverInterfaces { k with
      freeInterface := k.freeInterface + 3, heapBottom := b } driver k.freeInterface
      (k.freeInterface + 1) (k.freeInterface + 2) (startAddress + b)).contexts = k.contexts := rfl
  generalize driverInterfaces _ _ _ _ _ _ = k₅ at hi hinv hmap hcon
  have hal' : (startAddress + b) % 8 = 0 := by
    unfold startAddress
    omega
  have hstart : heapStart ≤ startAddress + b := by
    unfold heapStart
    omega
  have hlt : ∀ p ∈ k₅.contexts, startAddress + b + 16 < p := by
    rw [hcon]
    intro q hq
    have := hbelow q hq
    omega
  rw [driverTable_mem driver _ _ hal' hstart hlt] at hi
  generalize Function.update (Function.update (Function.update k₅.mem _ _) _ _) _ 0 = mem at hi
  exact (hinv.memory mem).driverThread hmap hi

theorem StartInv.drivers {drivers : List DriverImage} (h : StartInv k)
    (hi : initialiseDrivers drivers k = .ok k' ()) : StartInv k' := by
  induction drivers generalizing k with
  | nil =>
    obtain ⟨rfl, -⟩ := Outcome.ok.inj hi
    exact h
  | cons driver drivers ih =>
    obtain ⟨k₁, u, hd, hi⟩ := Outcome.andThen_ok hi
    exact ih (h.driver hd) hi

/-! ## The start -/

/-- The interfaces of the system driver and of the memory driver are for the system map. -/
theorem FreshKernel.threadless (h : FreshKernel k present) :
    Threadless (initialiseSystemMaps k) := by
  obtain ⟨first, last, free⟩ := h.table
  have hcon : (initialiseSystemMaps k).contexts = [] := h.contexts
  have hbottom : (initialiseSystemMaps k).heapBottom = heapTop := h.heapBottom
  have hfree : (initialiseSystemMaps k).freeInterface = 3 := first
  have hold : ∀ e, e = 0 ∨ 3 ≤ e →
      (initialiseSystemMaps k).interfaces e = k.interfaces e := by
    intro e he
    unfold initialiseSystemMaps
    simp only
    rw [Function.update_of_ne (by unfold memoryAllocatorMapIndex; omega),
      Function.update_of_ne (by unfold systemMapIndex; omega)]
  have hmap : ∀ m, m = 1 ∨ m = 2 → IsMapIndex (initialiseSystemMaps k) m :=
    fun m hm => hm.imp_right .inl
  have hcap : ∀ i c, (world (initialiseSystemMaps k)).caps i = some c →
      c.user = 1 ∧ (c.provider = 1 ∨ c.provider = 2) := by
    intro i c hc
    obtain ⟨hi, rfl⟩ := world_cap_iff.1 hc
    unfold IsSlot at hi
    rw [hfree] at hi
    obtain rfl | rfl : i = 1 ∨ i = 2 := by omega
    · exact ⟨rfl, .inl rfl⟩
    · exact ⟨rfl, .inr rfl⟩
  have hthread : ∀ t a, (world (initialiseSystemMaps k)).threads t = some a → False := by
    intro t a ha
    rw [world_noThread (by rw [hcon]; exact List.not_mem_nil)] at ha
    cases ha
  refine ⟨⟨⟨?_, ?_, ?_, ?_, ?_⟩, ?_, ?_⟩, hcon, h.interrupt, h.queue, ⟨?_, ?_, last, ?_, ?_⟩,
    ⟨?_, ?_, ?_, ?_⟩⟩
  · rw [hcon]
    exact fun p hp => absurd hp List.not_mem_nil
  · rw [hcon]
    exact fun p hp => absurd hp List.not_mem_nil
  · rw [hcon]
    exact fun p hp => absurd hp List.not_mem_nil
  · rw [hcon]
    exact List.Pairwise.nil
  · rw [hbottom]
    exact Nat.sub_le _ _
  · rw [hbottom]
    decide
  · rw [hbottom]
  · rw [hfree]
    decide
  · rw [hfree]
    decide
  · rw [hold 0 (.inl rfl)]
    exact h.zero
  · intro e he hlt
    rw [hfree] at he
    rw [hold e (.inr he)]
    exact free e he hlt
  · exact fun t a ha => (hthread t a ha).elim
  · exact fun t a ha => (hthread t a ha).elim
  · intro i c hc
    exact hmap _ (.inl (hcap i c hc).1)
  · intro i c hc
    exact hmap _ (hcap i c hc).2

/-- `initialise_driver_maps`. -/
theorem initialiseDriverMaps_inv {drivers : List DriverImage} (h : FreshKernel k present)
    (hi : initialiseDriverMaps k present ffp drivers = .ok k' ()) : StartInv k' := by
  obtain ⟨k₁, u, hc, hi⟩ := Outcome.andThen_ok hi
  exact (h.threadless.cores h.cores h.core0 hc).drivers hi

/-- Core 0 enters its first thread, in the map of that thread. No thread has called yet, and no
interface is for anything but a map. -/
theorem enterSecureEl1Himem_inv {drivers : List DriverImage} (h : FreshKernel k present)
    (hi : enterSecureEl1Himem k present ffp drivers = .ok k' ()) :
    KernelInv (fun _ => True) k' ∧ Domains.Closed (IsMapIndex k') (world k') ∧
      ∀ p ∈ k'.contexts, Uncalled k'.ctx p := by
  obtain ⟨k₁, u, hm, hi⟩ := Outcome.andThen_ok hi
  have hinv := initialiseDriverMaps_inv h hm
  obtain ⟨rs, rem, hs⟩ := hinv.sched
  obtain ⟨rfl, -⟩ := Outcome.ok.inj hi
  have hmap : ∀ k₂ : Kernel, k₂.contexts = k₁.contexts → k₂.ctx = k₁.ctx →
      k₂.runnable = k₁.runnable → k₁.currentMap k₁.runnable = k₂.currentMap k₂.runnable := by
    intro k₂ hc hx hr
    rw [hr]
    exact (currentMap_congr hinv.mem (hc ▸ hinv.mem) (by rw [hx])).symm
  have hload := loadThisMap_loadedMap { k₁ with loadedMap := 0 } (k₁.currentMap k₁.runnable)
  obtain ⟨n, l1, l2, l3, hl⟩ := loadThisMap_tables { k₁ with loadedMap := 0 }
    (k₁.currentMap k₁.runnable)
  rw [hl] at hload ⊢
  refine ⟨⟨⟨rs, [], rem, hs.congr (.of_ctx rfl rfl rfl rfl rfl rfl rfl)⟩,
    hinv.table.congr rfl rfl rfl, hinv.closed.mono fun m hm => hm.isSlot hinv.table, ?_⟩,
    hinv.closed, hinv.uncalled⟩
  rw [hload]
  exact hmap _ rfl rfl rfl

end Start

end Isambard.El1
