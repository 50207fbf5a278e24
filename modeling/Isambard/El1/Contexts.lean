import Isambard.El1.Svc

/-!
# El1.Contexts — new thread contexts

`allocate_heap` takes a block from the bottom of the heap, and
`initialise_new_thread` makes a context of it. The contexts stay apart from each
other, and the new one is in a ring of its own.

* `Heap`: the contexts and the bottom of the heap;
* `Heap.create`: a further context;
* `newContext_next` and the others: the words of a new context.
-/

namespace Isambard.El1

open Isambard.Lib

/-- The created contexts, and the bottom of the heap that they are above. -/
structure Heap (k : Kernel) : Prop extends Placed k where
  bottom_aligned : k.heapBottom % 32 = 0
  bottom_le : k.heapBottom ≤ heapTop

theorem Heap.congr {k k' : Kernel} (h : Heap k) (hc : k'.contexts = k.contexts)
    (hb : k'.heapBottom = k.heapBottom) : Heap k' :=
  ⟨h.toPlaced.congr hc hb, by rw [hb]; exact h.bottom_aligned, by rw [hb]; exact h.bottom_le⟩

theorem Stores.heap {k k' : Kernel} (h : Stores k k') (hh : Heap k) : Heap k' :=
  hh.congr h.contexts h.heapBottom

section Create

variable {k : Kernel} {size n : ℕ}

theorem inMappedHeap_iff {p : ℕ} : inMappedHeap p n = true ↔
    startAddress + heapTop - initialHeap ≤ p ∧ p + n ≤ startAddress + heapTop := by
  unfold inMappedHeap
  rw [Bool.and_eq_true, decide_eq_true_eq, decide_eq_true_eq]

theorem allocateHeap_bottom (k : Kernel) (size : ℕ) : ∃ b,
    allocateHeap k size = ({ k with heapBottom := b }, (startAddress + b) % 2 ^ 64) ∧
      b = (k.heapBottom + 2 ^ 64 - (size + 31) % 2 ^ 64 / 32 * 32) % 2 ^ 32 :=
  ⟨_, rfl, rfl⟩

/-- A block from the mapped part of the heap is right below the part in use. -/
theorem Heap.allocate (h : Heap k) (hsize : size < 2 ^ 20)
    (hm : inMappedHeap (allocateHeap k size).2 n = true) :
    ∃ b, allocateHeap k size = ({ k with heapBottom := b }, startAddress + b) ∧
      b + (size + 31) / 32 * 32 = k.heapBottom ∧ heapTop - initialHeap ≤ b ∧
      b + n ≤ heapTop := by
  obtain ⟨b, hb, heq⟩ := allocateHeap_bottom k size
  have hle := h.bottom_le
  have hmap := h.mapped
  rw [hb, inMappedHeap_iff] at hm
  -- an address past the end of the address space is none of the heap
  have hlt : startAddress + b < 2 ^ 64 := by
    unfold startAddress heapTop initialHeap at *
    simp only at hm
    omega
  rw [Nat.mod_eq_of_lt hlt] at hb hm
  refine ⟨b, hb, ?_⟩
  clear hb
  unfold startAddress heapTop initialHeap at *
  omega

/-- The heap with the block. -/
theorem Heap.lower (h : Heap k) (hsize : size < 2 ^ 20)
    (hm : inMappedHeap (allocateHeap k size).2 n = true) : Heap (allocateHeap k size).1 := by
  obtain ⟨b, hb, hsum, hge, -⟩ := h.allocate hsize hm
  have hal := h.bottom_aligned
  have hle := h.bottom_le
  rw [hb]
  refine ⟨⟨h.aligned, ?_, h.top, h.apart, hge⟩, ?_, ?_⟩
  · intro p hp
    have := h.bottom p hp
    show startAddress + b ≤ p
    omega
  · show b % 32 = 0
    omega
  · show b ≤ heapTop
    omega

/-- The block is below the contexts that are there. -/
theorem Heap.block_below (h : Heap k) (hsize : size < 2 ^ 20)
    (hm : inMappedHeap (allocateHeap k size).2 n = true) {p : ℕ} (hp : p ∈ k.contexts) :
    (allocateHeap k size).2 + size ≤ p := by
  obtain ⟨b, hb, hsum, -⟩ := h.allocate hsize hm
  have := h.bottom p hp
  rw [hb]
  show startAddress + b + size ≤ p
  omega

theorem Heap.block_notMem (h : Heap k) (hsize : size < 2 ^ 20) (hpos : 0 < size)
    (hm : inMappedHeap (allocateHeap k size).2 n = true) :
    (allocateHeap k size).2 ∉ k.contexts := by
  intro hp
  have := h.block_below hsize hm hp
  omega

/-- The block becomes a context. -/
theorem Heap.create (h : Heap k) (hsize : size < 2 ^ 20) (hctx : contextSize ≤ size)
    (hm : inMappedHeap (allocateHeap k size).2 contextSize = true) :
    Heap (initialiseNewThread (allocateHeap k size).1 (allocateHeap k size).2) := by
  have hl := h.lower hsize hm
  have hbelow := fun q hq => h.block_below hsize hm (p := q) hq
  obtain ⟨b, hb, hsum, hge, htop⟩ := h.allocate hsize hm
  rw [hb] at hl hbelow ⊢
  have hal := hl.bottom_aligned
  refine ⟨⟨?_, ?_, ?_, ?_, hl.mapped⟩, hal, hl.bottom_le⟩
  · intro p hp
    rcases List.mem_cons.1 hp with rfl | hp
    · change b % 32 = 0 at hal
      show (startAddress + b) % 32 = 0
      unfold startAddress
      omega
    · exact h.aligned p hp
  · intro p hp
    rcases List.mem_cons.1 hp with rfl | hp
    · exact le_rfl
    · exact hl.bottom p hp
  · intro p hp
    rcases List.mem_cons.1 hp with rfl | hp
    · show startAddress + b + contextSize ≤ startAddress + heapTop
      omega
    · exact h.top p hp
  · refine List.pairwise_cons.2 ⟨?_, h.apart⟩
    intro q hq
    have := hbelow q hq
    show startAddress + b + contextSize ≤ q
    change startAddress + b + size ≤ q at this
    omega

end Create

/-! ## The words of a new context -/

section NewContext

variable {p : ℕ} {row : ℕ → ℕ}

@[simp] theorem newContext_next : newContext p row 0 = p := by
  simp [newContext]
@[simp] theorem newContext_prev : newContext p row 1 = p := by
  simp [newContext]
@[simp] theorem newContext_list : newContext p row 2 = 0 := by
  simp [newContext]
@[simp] theorem newContext_partner : newContext p row 3 = 0 := by
  simp [newContext]
@[simp] theorem newContext_gate : newContext p row 38 = 0 := by
  simp [newContext]
@[simp] theorem newContext_stackPointer : newContext p row 41 = frameAddress p 5 := by
  simp [newContext]
@[simp] theorem newContext_stackLimit : newContext p row 42 = frameAddress p 0 := by
  simp [newContext]
@[simp] theorem newContext_callerSp : newContext p row 58 = 0 := by
  simp [newContext]
@[simp] theorem newContext_callerReturnAddress :
    newContext p row 59 = systemServiceThreadExit := by
  simp [newContext]
@[simp] theorem newContext_callerMap :
    newContext p row 60 = setField 0 32 systemMapIndex (row 60) := by
  simp [newContext]

end NewContext

theorem initialiseNewThread_ctx (k : Kernel) (p q : ℕ) : (initialiseNewThread k p).ctx q =
    if q = p then newContext p fun w => k.load64 (p + 8 * w) else k.ctx q := by
  unfold initialiseNewThread
  simp only [Function.update_apply]

/-- The row of a thread that has not run: in a ring of its own, without a partner,
and with the one frame that it leaves through. -/
structure NewRow (c : ℕ → ℕ → ℕ) (p : ℕ) : Prop where
  next : c p 0 = p
  prev : c p 1 = p
  list : c p 2 = 0
  partner : c p 3 = 0
  gate : c p 38 = 0
  stackPointer : c p 41 = frameAddress p 5
  stackLimit : c p 42 = frameAddress p 0
  callerReturnAddress : c p 59 = systemServiceThreadExit
  callerMap : field 0 32 (c p 60) = systemMapIndex

theorem initialiseNewThread_row (k : Kernel) (p : ℕ) : NewRow (initialiseNewThread k p).ctx p := by
  have hrow : (initialiseNewThread k p).ctx p = newContext p fun w => k.load64 (p + 8 * w) := by
    rw [initialiseNewThread_ctx, if_pos rfl]
  constructor <;> rw [hrow]
  · exact newContext_next
  · exact newContext_prev
  · exact newContext_list
  · exact newContext_partner
  · exact newContext_gate
  · exact newContext_stackPointer
  · exact newContext_stackLimit
  · exact newContext_callerReturnAddress
  · rw [newContext_callerMap, field_setField]
    rfl

/-- Words that the row does not speak of. -/
theorem NewRow.set {c : ℕ → ℕ → ℕ} {p q w v : ℕ} (h : NewRow c p)
    (hw : 4 ≤ w ∧ w ≤ 37 ∨ w = 39 ∨ q ≠ p) : NewRow (setCtx c q w v) p := by
  have hne : ∀ u, (u < 4 ∨ u = 38 ∨ 40 ≤ u) → ¬ (p = q ∧ u = w) := by
    rintro u hu ⟨rfl, rfl⟩
    rcases hw with hw | hw | hw
    · omega
    · omega
    · exact hw rfl
  constructor <;> rw [setCtx_apply, if_neg (hne _ (by omega))]
  · exact h.next
  · exact h.prev
  · exact h.list
  · exact h.partner
  · exact h.gate
  · exact h.stackPointer
  · exact h.stackLimit
  · exact h.callerReturnAddress
  · exact h.callerMap

end Isambard.El1
