import Isambard.El1.VmRegisters

/-!
# El1.Heap — the blocks of the heap

`allocate_heap` lowers `kernel_heap_bottom` by the size of a block, in 32 bits and without
looking at what is left of the heap. What is allocated is never freed.

* `Allocations`: the blocks that were returned since boot, for any callers;
* `Apart`: the blocks are in the heap, and do not overlap;
* `allocations_apart`: they are as long as their sizes add up to no more than the heap.
-/

namespace Isambard.El1

open Isambard.Lib

/-! ## Blocks -/

/-- The bytes that a block of `size` bytes takes. -/
def rounded (size : ℕ) : ℕ := (size + 31) / 32 * 32

/-- The bytes that the blocks take, given as their addresses and sizes. -/
def taken (blocks : List (ℕ × ℕ)) : ℕ := (blocks.map fun b => rounded b.2).sum

@[simp] theorem taken_nil : taken [] = 0 := rfl

@[simp] theorem taken_cons (b : ℕ × ℕ) (blocks : List (ℕ × ℕ)) :
    taken (b :: blocks) = rounded b.2 + taken blocks := by
  simp [taken]

theorem taken_aligned (blocks : List (ℕ × ℕ)) : taken blocks % 32 = 0 := by
  induction blocks with
  | nil => rfl
  | cons b blocks ih =>
    rw [taken_cons]
    unfold rounded
    omega

/-- The block is in the part of the heap that `map_initial_storage` maps. -/
def InHeap (b : ℕ × ℕ) : Prop :=
  startAddress + heapTop - initialHeap ≤ b.1 ∧ b.1 + b.2 ≤ startAddress + heapTop

/-- What is returned to the callers of `allocate_heap` is theirs alone. -/
structure Apart (blocks : List (ℕ × ℕ)) : Prop where
  aligned : ∀ b ∈ blocks, b.1 % 32 = 0
  inside : ∀ b ∈ blocks, InHeap b
  disjoint : blocks.Pairwise fun b c => b.1 + b.2 ≤ c.1 ∨ c.1 + c.2 ≤ b.1

theorem Apart.tail {b : ℕ × ℕ} {blocks : List (ℕ × ℕ)} (h : Apart (b :: blocks)) : Apart blocks :=
  ⟨fun c hc => h.aligned c (List.mem_cons_of_mem b hc),
    fun c hc => h.inside c (List.mem_cons_of_mem b hc), (List.pairwise_cons.1 h.disjoint).2⟩

/-! ## Allocations -/

/-- Between `k` and `k'`, `allocate_heap` is called for `size` bytes, and returns `p`. -/
structure Allocates (k k' : Kernel) (size p : ℕ) : Prop where
  block : p = (allocateHeap k size).2
  bottom : k'.heapBottom = (allocateHeap k size).1.heapBottom

/-- The blocks that have been returned when the kernel is `k`, the newest first. -/
inductive Allocations : List (ℕ × ℕ) → Kernel → Prop
  | boot {k : Kernel} : k.heapBottom = heapTop → Allocations [] k
  | other {blocks : List (ℕ × ℕ)} {k k' : Kernel} : Allocations blocks k →
      k'.heapBottom = k.heapBottom → Allocations blocks k'
  | call {blocks : List (ℕ × ℕ)} {k k' : Kernel} {size p : ℕ} : Allocations blocks k →
      Allocates k k' size p → Allocations ((p, size) :: blocks) k'

section Allocations

variable {k k' : Kernel} {blocks : List (ℕ × ℕ)} {size p n : ℕ}

/-- Of a heap of which `n` bytes are taken, a block is in the mapped part if the part has
the bytes left for it, and only then. Blocks for which the subtraction wraps are too long. -/
theorem allocateHeap_inHeap (hb : k.heapBottom = heapTop - n) (hn : n ≤ initialHeap) :
    InHeap ((allocateHeap k size).2, size) ↔ rounded size + n ≤ initialHeap := by
  rcases allocateHeap_bottom k size with ⟨b, hk, hbottom⟩
  rw [hk]
  unfold InHeap rounded startAddress heapTop initialHeap at *
  simp only
  constructor
  · rintro ⟨hlow, hhigh⟩
    omega
  · intro hle
    omega

theorem allocateHeap_lowers (hb : k.heapBottom = heapTop - n)
    (hn : rounded size + n ≤ initialHeap) :
    (allocateHeap k size).1.heapBottom = heapTop - (rounded size + n) ∧
      (allocateHeap k size).2 = startAddress + (heapTop - (rounded size + n)) := by
  rcases allocateHeap_bottom k size with ⟨b, hk, hbottom⟩
  have hlow : b = heapTop - (rounded size + n) := by
    unfold rounded heapTop initialHeap at *
    omega
  rw [hk]
  refine ⟨hlow, ?_⟩
  show (startAddress + b) % 2 ^ 64 = _
  rw [hlow, Nat.mod_eq_of_lt]
  unfold startAddress heapTop
  omega

/-- The heap grows down, over the blocks. -/
theorem Allocations.bottom (h : Allocations blocks k) (hle : taken blocks ≤ initialHeap) :
    k.heapBottom = heapTop - taken blocks ∧
      ∀ b ∈ blocks, startAddress + k.heapBottom ≤ b.1 := by
  induction h with
  | boot hb => exact ⟨hb, fun b hb => by cases hb⟩
  | other h hb ih =>
    rw [hb]
    exact ih hle
  | @call blocks k k' size p h ha ih =>
    rw [taken_cons] at hle
    rcases ih (by omega) with ⟨hbot, hall⟩
    rcases allocateHeap_lowers hbot hle with ⟨hlow, hp⟩
    refine ⟨ha.bottom.trans hlow, ?_⟩
    rw [ha.bottom, hlow]
    intro b hb
    rcases List.mem_cons.1 hb with rfl | hb
    · rw [ha.block, hp]
    · have := hall b hb
      omega

/-- As long as there is enough heap for them, the blocks are apart. -/
theorem Allocations.apart (h : Allocations blocks k) (hle : taken blocks ≤ initialHeap) :
    Apart blocks := by
  induction h with
  | boot => exact ⟨by simp, by simp, .nil⟩
  | other h hb ih => exact ih hle
  | @call blocks k k' size p h ha ih =>
    rw [taken_cons] at hle
    have htail : Apart blocks := ih (by omega)
    rcases h.bottom (by omega) with ⟨hbot, hall⟩
    rcases allocateHeap_lowers hbot hle with ⟨-, hp⟩
    have hal := taken_aligned blocks
    have hin := (allocateHeap_inHeap hbot (by omega)).2 hle
    rw [← ha.block] at hin hp
    refine ⟨?_, ?_, List.pairwise_cons.2 ⟨?_, htail.disjoint⟩⟩
    · intro b hb
      rcases List.mem_cons.1 hb with rfl | hb
      · rw [hp]
        unfold rounded startAddress heapTop initialHeap at *
        omega
      · exact htail.aligned b hb
    · intro b hb
      rcases List.mem_cons.1 hb with rfl | hb
      · exact hin
      · exact htail.inside b hb
    · -- the block is below the others
      intro b hb
      have := hall b hb
      rw [hbot] at this
      left
      rw [hp]
      unfold rounded startAddress heapTop initialHeap at *
      omega

/-- The first block for which there is not enough heap is not in the heap. -/
theorem Allocations.enough (h : Allocations blocks k) (ha : Apart blocks) :
    taken blocks ≤ initialHeap := by
  induction h with
  | boot => exact Nat.zero_le _
  | other h hb ih => exact ih ha
  | @call blocks k k' size p h hcall ih =>
    have hle := ih ha.tail
    rcases h.bottom hle with ⟨hbot, -⟩
    rw [taken_cons]
    refine (allocateHeap_inHeap hbot hle).1 ?_
    rw [← hcall.block]
    exact ha.inside _ List.mem_cons_self

end Allocations

/-! ## The callers -/

section Callers

variable {k k' : Kernel} {t now p map : ℕ}

theorem Allocates.stores {k k₁ k' : Kernel} {size p : ℕ} (h : Allocates k k₁ size p)
    (hs : Stores k₁ k') : Allocates k k' size p := ⟨h.block, hs.heapBottom.trans h.bottom⟩

/-- The context of a thread, at boot. -/
theorem newThread_allocates (h : newThread k map = .ok k' p) : Allocates k k' contextSize p := by
  have hcall : Allocates k (allocateHeap k contextSize).1 contextSize
    (allocateHeap k contextSize).2 := ⟨rfl, rfl⟩
  unfold newThread at h
  generalize allocateHeap k contextSize = b at h hcall
  rcases b with ⟨k₁, q⟩
  simp only at h hcall
  split at h
  · cases h
  cases h
  have hnew : Allocates k (initialiseNewThread k₁ p) contextSize p := ⟨hcall.block, hcall.bottom⟩
  generalize initialiseNewThread k₁ p = k₂ at hnew
  exact hnew.stores (((setFld_stores k₂ p 39 _).trans (setFld_stores _ p 36 _)).trans
    (setFld_stores _ p 37 _))

/-- A driver's virtual memory blocks, and the context of its thread. -/
theorem initialiseDriver_allocates {driver : DriverImage}
    (h : initialiseDriver k driver = .ok k' ()) :
    ∃ k₁ vmb p, Allocates k k₁ (8 * initialVmbsPerDriver) vmb ∧
      Allocates k₁ k' contextSize p := by
  rcases Outcome.andThen_ok h with ⟨k₁, m, hm, h⟩
  rcases Outcome.andThen_ok h with ⟨k₂, c, hc, h⟩
  rcases Outcome.andThen_ok h with ⟨k₃, d, hd, h⟩
  have hbot : k₃.heapBottom = k.heapBottom := by
    rcases obtainInterface_ok hm with ⟨-, -, -, -, -, rfl⟩
    rcases obtainInterface_ok hc with ⟨-, -, -, -, -, rfl⟩
    rcases obtainInterface_ok hd with ⟨-, -, -, -, -, rfl⟩
    rfl
  split at h
  · cases h
  have hcall : Allocates k (allocateHeap k₃ (8 * initialVmbsPerDriver)).1
      (8 * initialVmbsPerDriver) (allocateHeap k₃ (8 * initialVmbsPerDriver)).2 := by
    unfold allocateHeap
    rw [hbot]
    exact ⟨rfl, rfl⟩
  generalize allocateHeap k₃ (8 * initialVmbsPerDriver) = b at h hcall
  rcases b with ⟨k₄, vmb⟩
  simp only at h hcall
  split at h
  · cases h
  have htable : Stores (driverInterfaces k₄ driver m c d vmb)
      (driverTable (driverInterfaces k₄ driver m c d vmb) driver c d vmb) :=
    ((store64_stores _ _ _).trans (store64_stores _ _ _)).trans (store64_stores _ _ _)
  generalize driverTable (driverInterfaces k₄ driver m c d vmb) driver c d vmb = k₅ at h htable
  rcases Outcome.andThen_ok h with ⟨k₆, p, hp, h⟩
  cases h
  refine ⟨k₅, vmb, p, ⟨hcall.block, htable.heapBottom.trans hcall.bottom⟩, ?_⟩
  exact (newThread_allocates hp).stores ((setFld_stores _ p 4 m).trans
    (insertThreadAtTail_stores _ _ p))

/-- The context that `Create_Thread` makes. -/
theorem createThread_allocates (h : createThread k t = .ok k' p) :
    Allocates k k' contextSize p := by
  have hcall : Allocates k (allocateHeap k contextSize).1 contextSize
    (allocateHeap k contextSize).2 := ⟨rfl, rfl⟩
  unfold createThread at h
  split at h
  · cases h
  generalize allocateHeap k contextSize = b at h hcall
  rcases b with ⟨k₁, q⟩
  simp only at h hcall
  split at h
  · cases h
  cases h
  have hnew : Allocates k (initialiseNewThread k₁ p) contextSize p := ⟨hcall.block, hcall.bottom⟩
  generalize initialiseNewThread k₁ p = k₂ at hnew
  exact hnew.stores ((((((setFld_stores k₂ p 39 _).trans (setFld_stores _ p 36 _)).trans
    (setFld_stores _ p 35 _)).trans (setFld_stores _ p 37 _)).trans
    (setFld_stores _ t 4 _)).trans (insertThreadAsHead_stores _ _ p))

/-- The context and the state that `Thread_Make_Partner` makes. -/
theorem makePartner_allocates (h : makePartner k t = .ok k' now) :
    Allocates k k' (contextSize + vmStateSize) (partnerBlock k) := ⟨rfl, (makePartner_ok h).2.2⟩

theorem fld_setFld {w v : ℕ} (h : p ∈ k.contexts) : (k.setFld p w v).fld p w = v := by
  have hmem : p ∈ (k.withCtx (setCtx k.ctx p w v)).contexts := h
  rw [setFld_of_mem h, fld_of_mem hmem, withCtx_ctx, setCtx_apply, if_pos ⟨rfl, rfl⟩]

theorem serveRequest_allocateHeap (hr : Request.ofCode (k.reg t 0) = some .allocateHeap) :
    serveRequest k t =
      .ok ((allocateHeap k (k.reg t 1)).1.setReg t 0 (allocateHeap k (k.reg t 1)).2) t := by
  unfold serveRequest
  rw [hr]

/-- What `AllocateHeap` returns, for a size from a register. -/
theorem allocateHeap_allocates (hr : Request.ofCode (k.reg t 0) = some .allocateHeap)
    (ht : t ∈ k.contexts) (h : serveRequest k t = .ok k' now) :
    Allocates k k' (k.reg t 1) (k'.reg t 0) := by
  rw [serveRequest_allocateHeap hr] at h
  have hcall : Allocates k (allocateHeap k (k.reg t 1)).1 (k.reg t 1)
    (allocateHeap k (k.reg t 1)).2 := ⟨rfl, rfl⟩
  have hmem : t ∈ (allocateHeap k (k.reg t 1)).1.contexts := by
    rcases allocateHeap_bottom k (k.reg t 1) with ⟨b, hb, -⟩
    rw [hb]
    exact ht
  generalize allocateHeap k (k.reg t 1) = b at h hcall hmem
  cases h
  have hreg : (b.1.setReg t 0 b.2).reg t 0 = b.2 := fld_setFld hmem
  rw [hreg]
  exact hcall.stores (setFld_stores b.1 t 4 b.2)

end Callers

/-! ## All of them -/

/-- The blocks are apart if the heap has enough bytes for all of them, and only then. -/
theorem allocations_apart {blocks : List (ℕ × ℕ)} {k : Kernel} (h : Allocations blocks k) :
    Apart blocks ↔ taken blocks ≤ initialHeap :=
  ⟨h.enough, h.apart⟩

/-- A thread of the system driver, the first that boot makes. -/
def systemThread : ℕ := startAddress + 0x1ffe00

def systemKernel : Kernel := (newThread Kernel.boot systemMapIndex).kernel

theorem systemKernel_allocations : Allocations [(systemThread, contextSize)] systemKernel := by
  have hok : newThread Kernel.boot systemMapIndex = .ok systemKernel systemThread := by
    have hnow : (newThread Kernel.boot systemMapIndex).now = systemThread := by decide +kernel
    rw [← hnow]
    exact Outcome.eq_ok_now (by decide +kernel)
  exact .call (.boot rfl) (newThread_allocates hok)

/-- The thread makes itself a partner. -/
theorem allocations_apart_partner : Apart [(startAddress + 0x1ffb80, contextSize + vmStateSize),
    (systemThread, contextSize)] := by
  have hok : makePartner systemKernel systemThread =
      .ok (makePartner systemKernel systemThread).kernel _ := Outcome.eq_ok_now (by decide +kernel)
  have hcall := makePartner_allocates hok
  have hblock : partnerBlock systemKernel = startAddress + 0x1ffb80 := by decide +kernel
  rw [hblock] at hcall
  exact (allocations_apart (.call systemKernel_allocations hcall)).2 (by decide)

/-- It asks for a block that is almost as long as a 32-bit number can be. -/
def asksHeap : Kernel :=
  ((systemKernel.setReg systemThread 0 9).setReg systemThread 1 (2 ^ 32 - 512)).setReg
    systemThread 2 0

def gotHeap : Kernel := (serveRequest asksHeap systemThread).kernel

/-- The bottom of the heap is the top again, and the next context to be made is in the place
of the thread's own. -/
theorem context_allocated_twice : ∃ k, Allocations [(systemThread, contextSize),
    (startAddress + heapTop, 2 ^ 32 - 512), (systemThread, contextSize)] k ∧
    ¬ Apart [(systemThread, contextSize), (startAddress + heapTop, 2 ^ 32 - 512),
      (systemThread, contextSize)] := by
  have hask : Allocations [(systemThread, contextSize)] asksHeap := by
    have hreg (k : Kernel) (i v : ℕ) : Stores k (k.setReg systemThread i v) :=
      setFld_stores k systemThread (4 + i) v
    have hs : Stores systemKernel asksHeap := ((hreg systemKernel 0 9).trans (hreg _ 1 _)).trans
      (hreg _ 2 0)
    exact .other systemKernel_allocations hs.heapBottom
  have hgot : Allocates asksHeap gotHeap (2 ^ 32 - 512) (startAddress + heapTop) := by
    have hreq : Request.ofCode (asksHeap.reg systemThread 0) = some .allocateHeap := by
      decide +kernel
    have hmem : systemThread ∈ asksHeap.contexts := by decide +kernel
    have hcall := allocateHeap_allocates hreq hmem
      (Outcome.eq_ok_now (o := serveRequest asksHeap systemThread) (by decide +kernel))
    have hsize : asksHeap.reg systemThread 1 = 2 ^ 32 - 512 := by decide +kernel
    have hp : gotHeap.reg systemThread 0 = startAddress + heapTop := by decide +kernel
    have hcall : Allocates asksHeap gotHeap (asksHeap.reg systemThread 1)
      (gotHeap.reg systemThread 0) := hcall
    rwa [hsize, hp] at hcall
  have hcreate : createThread gotHeap systemThread =
      .ok (createThread gotHeap systemThread).kernel systemThread := by
    have hnow : (createThread gotHeap systemThread).now = systemThread := by decide +kernel
    have hok := Outcome.eq_ok_now (o := createThread gotHeap systemThread) (by decide +kernel)
    rwa [hnow] at hok
  refine ⟨_, .call (.call hask hgot) (createThread_allocates hcreate), fun hapart => ?_⟩
  rcases (List.pairwise_cons.1 hapart.disjoint).1 (systemThread, contextSize) (by simp) with h | h
  · revert h
    decide
  · revert h
    decide

end Isambard.El1
