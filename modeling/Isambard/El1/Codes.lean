import Isambard.El1.KernelRuns
import Isambard.El1.Locks

/-!
# El1.Codes — the codes that the kernel takes for threads

`is_real_thread` looks whether the words at a place of the heap lead to words that lead back. A
thread's registers are in the heap, and their contents are its own: it can have two of them lead
back to themselves. It needs the address of a place in the heap for that.

* `Forged`: such a place, that is no thread;
* `HeapUnknown`: nobody but the kernel has the address of one;
* `codes_sound`: what `is_real_thread` takes is a thread, as long as nothing is forged.
-/

namespace Isambard.El1

open Isambard.Lib

/-- An address in the heap of the kernel. -/
def HeapAddress (k : Kernel) (v : ℕ) : Prop :=
  startAddress + k.heapBottom ≤ v ∧ v < startAddress + heapTop

/-- There is room for a context at the address. -/
def HasRoom (k : Kernel) (a : ℕ) : Prop :=
  startAddress + k.heapBottom ≤ a ∧ a + contextSize ≤ startAddress + heapTop

/-- `is_real_thread` takes no code but those of the threads that the kernel has made. -/
def CodesSound (k : Kernel) : Prop :=
  ∀ code < 2 ^ 32, isRealThread k code = true → ∃ p ∈ k.contexts, threadCode p = code

/-- The words at `a`, which is no thread, lead to words that lead back. -/
structure Forged (k : Kernel) (a : ℕ) : Prop where
  room : HasRoom k a
  other : a ∉ k.contexts
  next : k.load64 (k.load64 a + 8) = a
  prev : k.load64 (k.load64 (a + 8)) = a

/-- The kernel itself keeps the address `v` at `a`: a thread's `stack_pointer` or `stack_limit`, or
the `x16` of a thread that has waited in the queue behind another. -/
def KernelKeeps (k : Kernel) (a v : ℕ) : Prop := ∃ p ∈ k.contexts,
  (a = p + 8 * 41 ∨ a = p + 8 * 42) ∧ (∃ j ≤ 6, v = frameAddress p j) ∨
    a = regAddress p 16 ∧ ∃ q ∈ k.contexts, v = regAddress q 17

/-- No other eight bytes in memory, wherever they begin, are an address in the heap, unless it is
that of a thread. -/
def HeapUnknown (k : Kernel) : Prop := ∀ a, HeapAddress k (k.load64 a) →
  k.load64 a ∈ k.contexts ∨ KernelKeeps k a (k.load64 a)

section Codes

variable {k : Kernel} {a p q v w code : ℕ}

/-- No context begins inside another one. -/
theorem Placed.notMem_inside (h : Placed k) (hp : p ∈ k.contexts) (hlt : p < v)
    (hv : v < p + contextSize) : v ∉ k.contexts := by
  intro hmem
  have hat := h.contextAt hp (i := v - p) (by omega)
  rw [show p + (v - p) = v + 0 by omega, h.contextAt hmem (by decide)] at hat
  have := Option.some.inj hat
  omega

/-- The words of a context are read through an address in any case. -/
theorem Placed.fld_eq (h : Placed k) (hw : w < 61) : k.fld p w = k.load64 (p + 8 * w) := by
  by_cases hp : p ∈ k.contexts
  · rw [fld_of_mem hp, h.load64 hp hw]
  · exact if_neg hp

theorem HasRoom.address (h : HasRoom k a) : HeapAddress k a := by
  obtain ⟨hlow, hhigh⟩ := h
  unfold contextSize at hhigh
  exact ⟨hlow, by omega⟩

theorem Placed.threadFromCode_room (h : Placed k) (hroom : HasRoom k a) :
    threadFromCode (threadCode a) = a ∧ threadCode a < 2 ^ 32 := by
  obtain ⟨hlow, hhigh⟩ := hroom
  have hm := h.mapped
  unfold threadFromCode threadCode contextSize heapTop initialHeap startAddress at *
  rw [if_neg (by omega : a ≠ 0)]
  have hcode : (a + 2 ^ 64 - 0xfffffffffe000000) % 2 ^ 32 = a - 0xfffffffffe000000 := by omega
  rw [hcode, if_neg (by omega)]
  omega

/-- What the function tests, on the words in memory. -/
theorem Placed.isRealThread_iff (h : Placed k) (hc : code < 2 ^ 32) :
    isRealThread k code = true ↔ ∃ a, HasRoom k a ∧ threadCode a = code ∧
      k.load64 (k.load64 a + 8) = a ∧ k.load64 (k.load64 (a + 8)) = a := by
  have hlinks : ∀ a, k.prev (k.next a) = k.load64 (k.load64 a + 8) ∧
      k.next (k.prev a) = k.load64 (k.load64 (a + 8)) := by
    intro a
    unfold Kernel.prev Kernel.next
    rw [h.fld_eq (p := k.fld a 0) (by decide), h.fld_eq (p := k.fld a 1) (by decide),
      h.fld_eq (p := a) (by decide), h.fld_eq (p := a) (by decide)]
    exact ⟨rfl, rfl⟩
  unfold isRealThread
  rw [Nat.mod_eq_of_lt hc]
  simp only [Bool.and_eq_true, beq_iff_eq, (hlinks _).1, (hlinks _).2]
  constructor
  · rintro ⟨⟨⟨hstart, hend⟩, hnext⟩, hprev⟩
    have hroom : HasRoom k (threadFromCode code) ∧ threadCode (threadFromCode code) = code := by
      have hm := h.mapped
      unfold couldBeInHeap at hstart hend
      simp only [Bool.and_eq_true, decide_eq_true_eq] at hstart hend
      unfold HasRoom threadFromCode threadCode contextSize heapTop initialHeap startAddress at *
      rw [Nat.mod_eq_of_lt hc, if_neg (by omega)]
      refine ⟨by omega, ?_⟩
      rw [if_neg (by omega)]
      omega
    exact ⟨_, hroom.1, hroom.2, hnext, hprev⟩
  · rintro ⟨a, hroom, rfl, hnext, hprev⟩
    rw [(h.threadFromCode_room hroom).1]
    refine ⟨⟨⟨?_, ?_⟩, hnext⟩, hprev⟩
    all_goals
      obtain ⟨hlow, hhigh⟩ := hroom
      have hm := h.mapped
      unfold couldBeInHeap
      simp only [Bool.and_eq_true, decide_eq_true_eq]
      unfold threadCode contextSize heapTop initialHeap startAddress at *
      rw [if_neg (by omega : a ≠ 0)]
      omega

/-- A code is one of a thread, or something has been forged. -/
theorem codesSound_iff (h : Placed k) : CodesSound k ↔ ∀ a, ¬ Forged k a := by
  constructor
  · rintro hs a ⟨hroom, hother, hnext, hprev⟩
    obtain ⟨hcode, hlt⟩ := h.threadFromCode_room hroom
    obtain ⟨p, hp, heq⟩ := hs _ hlt ((h.isRealThread_iff hlt).2 ⟨a, hroom, rfl, hnext, hprev⟩)
    refine hother ?_
    rw [← hcode, ← heq, (h.threadFromCode_room ⟨h.bottom p hp, h.top p hp⟩).1]
    exact hp
  · intro hf code hlt hreal
    obtain ⟨a, hroom, hcode, hnext, hprev⟩ := (h.isRealThread_iff hlt).1 hreal
    by_cases ha : a ∈ k.contexts
    · exact ⟨a, ha, hcode⟩
    · exact absurd ⟨hroom, ha, hnext, hprev⟩ (hf a)

/-- An address inside a context is no thread's. -/
theorem HeapUnknown.inside (hu : HeapUnknown k) (h : Placed k) (hp : p ∈ k.contexts) (hlt : p < v)
    (hv : v < p + contextSize) (ha : k.load64 a = v) : KernelKeeps k a v := by
  have hlow := h.bottom p hp
  have hhigh := h.top p hp
  rw [← ha]
  refine (hu a ?_).resolve_left ?_
  · rw [ha]
    exact ⟨by omega, by omega⟩
  · rw [ha]
    exact h.notMem_inside hp hlt hv

/-- The words that the kernel keeps addresses in are in the contexts, and so are these addresses;
the words that they lead to do not lead back. -/
theorem HeapUnknown.not_forged (hu : HeapUnknown k) (h : Placed k) : ¬ Forged k a := by
  rintro ⟨hroom, hother, hnext, -⟩
  have hkeeps : KernelKeeps k (k.load64 a + 8) a := by
    have := hu (k.load64 a + 8)
    rw [hnext] at this
    exact (this hroom.address).resolve_left hother
  -- the word at `a` is an address inside the context `p`
  have hinside : ∃ p ∈ k.contexts, p < k.load64 a ∧ k.load64 a < p + contextSize ∧
      ((∃ j ≤ 6, a = frameAddress p j) ∨ ∃ q ∈ k.contexts, a = regAddress q 17) := by
    unfold contextSize
    obtain ⟨p, hp, ⟨hat, hj⟩ | ⟨hat, hq⟩⟩ := hkeeps
    · exact ⟨p, hp, by omega, by omega, .inl hj⟩
    · unfold regAddress at hat
      exact ⟨p, hp, by omega, by omega, .inr hq⟩
  obtain ⟨p, hp, hlow, hhigh, hwhere⟩ := hinside
  obtain ⟨p', hp', hkept⟩ := hu.inside h hp hlow hhigh rfl
  have hplace : a = p' + 328 ∨ a = p' + 336 ∨ a = p' + 160 := by
    rcases hkept with ⟨hat | hat, -⟩ | ⟨hat, -⟩
    · exact .inl hat
    · exact .inr (.inl hat)
    · exact .inr (.inr hat)
  have hapart : ∀ q ∈ k.contexts, ¬ (p' < q ∧ q < p' + contextSize) ∧
      ¬ (q < p' ∧ p' < q + contextSize) := by
    intro q hq
    exact ⟨fun hin => h.notMem_inside hp' hin.1 hin.2 hq,
      fun hin => h.notMem_inside hq hin.1 hin.2 hp'⟩
  unfold contextSize at hapart
  rcases hwhere with ⟨j, hj, ha⟩ | ⟨q, hq, ha⟩
  · have := hapart p hp
    unfold frameAddress at ha
    omega
  · have := hapart q hq
    unfold regAddress at ha
    omega

/-- What `is_real_thread` takes is a thread unless something is forged, and nothing is as long as
nobody else has an address in the heap. -/
theorem codes_sound (h : Placed k) :
    (CodesSound k ↔ ∀ a, ¬ Forged k a) ∧ (HeapUnknown k → CodesSound k) :=
  ⟨codesSound_iff h, fun hu => (codesSound_iff h).2 fun _ => hu.not_forged h⟩

/-- The running thread yields with the address of its own `x2` in `x2` and `x3`. -/
def forgeTurn (k : Kernel) : Turn :=
  svcTurn k [0, 0, regAddress k.runnable 2, regAddress k.runnable 2] 0xf008

/-- The contexts are where `allocate_heap` puts them, in every orderly run. -/
theorem reachable_placed (h : orderlySystem.Reachable k) : Placed k := by
  obtain ⟨_, _, _, hsched⟩ := (reachable_inv h).sched
  exact hsched.gate.placed

theorem Placed.entered (h : Placed k) (t : Turn) : Placed (k.entered t) := h.congr rfl rfl

/-- Whatever has happened, the running thread can forge a code, if its context is not the
topmost. -/
theorem forged_on_entry (h : Placed k) (hmem : k.runnable ∈ k.contexts)
    (hroom : HasRoom k (regAddress k.runnable 2)) :
    Forged (k.entered (forgeTurn k)) (regAddress k.runnable 2) := by
  have hk := h.entered (forgeTurn k)
  have hword : ∀ i ≤ 18, (k.entered (forgeTurn k)).load64 (k.runnable + 8 * (4 + i)) =
      (forgeTurn k).regs.x i := by
    intro i hi
    rw [hk.load64 (show k.runnable ∈ (k.entered (forgeTurn k)).contexts from hmem) (by omega)]
    exact enter_reg hi
  have hfirst : (k.entered (forgeTurn k)).load64 (regAddress k.runnable 2) =
      regAddress k.runnable 2 := hword 2 (by decide)
  have hsecond : (k.entered (forgeTurn k)).load64 (regAddress k.runnable 2 + 8) =
      regAddress k.runnable 2 := hword 3 (by decide)
  refine ⟨hroom, ?_, ?_, ?_⟩
  · exact h.notMem_inside hmem (by unfold regAddress; omega)
      (by unfold regAddress contextSize; omega)
  · rw [hfirst, hsecond]
  · rw [hsecond, hfirst]

/-- The driver's thread forges a code. -/
theorem forged_code : ¬ ∀ k t, coreSystem.Reachable k → (∀ i, t.regs.x i < 2 ^ 64) →
    CodesSound (k.entered t) := by
  intro h
  have hreach : orderlySystem.Reachable driverRuns :=
    .step (.init oneDriver_started) driverRun.toDriver
  have hpl := reachable_placed hreach
  have hregs : ∀ i, (forgeTurn driverRuns).regs.x i < 2 ^ 64 :=
    svcTurn_lt (by decide +kernel) (by decide +kernel)
  have hsound := h driverRuns (forgeTurn driverRuns) (orderly_core hreach) hregs
  have hroom : HasRoom driverRuns (regAddress driverRuns.runnable 2) :=
    ⟨by decide +kernel, by decide +kernel⟩
  have hforged := forged_on_entry hpl (reachable_inv hreach).mem hroom
  exact (codesSound_iff (hpl.entered _)).1 hsound _ hforged

end Codes

/-! ## Three threads that forge nothing -/

section Example

variable {k : Kernel} {v v' s : ℕ}

/-- No address in the heap begins or ends in the word, but one that is all of it. -/
def Whole (v : ℕ) : Prop :=
  v < 2 ^ 64 ∧ v / 2 ^ 24 ≠ 0xfffffffe1f ∧ v / 2 ^ 32 ≠ 0xfffffe1f ∧ v / 2 ^ 40 ≠ 0xfffe1f ∧
    v / 2 ^ 48 ≠ 0xfe1f ∧ v % 2 ^ 40 ≠ 0xfffffffffe ∧ v % 2 ^ 48 ≠ 0xfffffffffe1f ∧
    v / 2 ^ 8 % 2 ^ 48 ≠ 0xfffffffffe1f

instance : DecidablePred Whole := fun _ => inferInstanceAs (Decidable (_ ∧ _))

/-- Bytes of two words. -/
theorem Whole.across (hv : Whole v) (hv' : Whole v') (hs : s % 8 = 0) (hpos : 0 < s)
    (hlt : s < 64) : (v / 2 ^ s + v' % 2 ^ s * 2 ^ (64 - s)) / 2 ^ 16 ≠ 0xfffffffffe1f := by
  obtain ⟨h, h24, h32, h40, h48, -, -, -⟩ := hv
  obtain ⟨-, -, -, -, -, l40, l48, m48⟩ := hv'
  obtain rfl | rfl | rfl | rfl | rfl | rfl | rfl :
      s = 8 ∨ s = 16 ∨ s = 24 ∨ s = 32 ∨ s = 40 ∨ s = 48 ∨ s = 56 := by omega
  all_goals omega

theorem heapUnknown_words (h : Placed k) (hw : ∀ a, a % 8 = 0 → Whole (k.word a) ∧
    (HeapAddress k (k.word a) → k.word a ∈ k.contexts ∨ KernelKeeps k a (k.word a))) :
    HeapUnknown k := by
  intro a ha
  by_cases hal : a % 8 = 0
  · rw [load64_eq_word hal] at ha ⊢
    exact (hw a hal).2 ha
  · exfalso
    have hacross := (hw (a - a % 8) (by omega)).1.across (hw (a - a % 8 + 8) (by omega)).1
      (s := 8 * (a % 8)) (by omega) (by omega) (by omega)
    have hm := h.mapped
    unfold Kernel.load64 HeapAddress at ha
    rw [if_neg hal] at ha
    simp only at ha
    refine hacross ?_
    generalize k.word (a - a % 8) / 2 ^ (8 * (a % 8)) + _ = x at ha ⊢
    unfold startAddress heapTop initialHeap at *
    omega

/-- The places of the core's tables and of the interface table are in them. -/
def Place.InBounds : Place → Prop
  | .context _ _ => False
  | .l1 i | .l2 i | .l3 i => i < 512
  | .interface i w => i < tableSize ∧ w < 3
  | _ => True

theorem place_inBounds {a : ℕ} (h : k.contextAt a = none) : (k.place a).InBounds := by
  have hpart : ∀ {c : Prop} [Decidable c] {x y : Place}, (c → x.InBounds) → y.InBounds →
      (if c then x else y).InBounds :=
    fun hx hy => iteInduction (motive := Place.InBounds) hx fun _ => hy
  unfold Kernel.place
  rw [h]
  refine hpart (fun _ => trivial) (hpart (fun _ => trivial) (hpart (fun _ => trivial)
    (hpart (fun _ => trivial) (hpart (fun _ => trivial) (hpart (fun _ => trivial)
    (hpart (fun _ => trivial) (hpart ?_ (hpart ?_ (hpart ?_ (hpart ?_ trivial))))))))))
  · rintro ⟨-, hlt⟩
    show _ / 8 < 512
    omega
  · rintro ⟨-, hlt⟩
    show _ / 8 < 512
    omega
  · rintro ⟨-, hlt⟩
    show _ / 8 < 512
    omega
  · rintro ⟨hle, hlt⟩
    show _ / 24 < tableSize ∧ _ / 8 < 3
    omega

/-- The words outside the contexts. -/
theorem word_cases {Q : ℕ → Prop} (h : Placed k) (huser : ∀ a, Q (k.user k.loadedMap a))
    (hmem : ∀ a, Q (k.mem a))
    (hcore : ∀ v ∈ [k.runnable, k.interruptThread, k.blockedWithTimeout, k.blocked,
      k.coreNumber + k.loadedMap * 2 ^ 32, k.physicalAddress], Q v)
    (htables : ∀ i < 512, Q (k.l1 i) ∧ Q (k.l2 i) ∧ Q (k.l3 i))
    (hinterfaces : ∀ i < tableSize, ∀ w < 3, Q (interfaceWord (k.interfaces i) w)) {a : ℕ}
    (hal : a % 8 = 0) :
    (∃ p ∈ k.contexts, ∃ w < 61, a = p + 8 * w ∧ k.word a = k.ctx p w) ∨ Q (k.word a) := by
  simp only [List.mem_cons, List.not_mem_nil, or_false, forall_eq_or_imp, forall_eq] at hcore
  obtain ⟨hrunnable, hinterrupt, htimeout, hblocked, hnumber, hphysical⟩ := hcore
  cases hat : k.contextAt a with
  | some p =>
    left
    obtain ⟨hp, hle⟩ := contextAt_some hat
    have halp := h.aligned p hp
    have hin : a < p + contextSize := by
      have := List.find?_some hat
      simp only [Bool.and_eq_true, decide_eq_true_eq] at this
      exact this.2
    unfold contextSize at hin
    obtain ⟨w, rfl⟩ : ∃ w, a = p + 8 * w := ⟨(a - p) / 8, by omega⟩
    have hw : w < 61 := by omega
    exact ⟨p, hp, w, hw, rfl, by rw [Kernel.word, h.place_context hp hw]⟩
  | none =>
    right
    have hplace := place_inBounds hat
    unfold Kernel.word
    cases hx : k.place a
    all_goals
      rw [hx] at hplace
      unfold Place.InBounds at hplace
    case context => exact hplace.elim
    case user => exact huser _
    case runnable => exact hrunnable
    case interruptThread => exact hinterrupt
    case blockedWithTimeout => exact htimeout
    case blocked => exact hblocked
    case coreNumber => exact hnumber
    case physicalAddress => exact hphysical
    case l3 i => exact (htables i hplace).2.2
    case l2 i => exact (htables i hplace).2.1
    case l1 i => exact (htables i hplace).1
    case interface i w => exact hinterfaces i hplace.1 w hplace.2
    case mem => exact hmem _

/-- The words of the table when no interface has been made. -/
theorem boot_interfaces {i w : ℕ} (hw : w < 3) :
    Whole (interfaceWord (Kernel.boot.interfaces i) w) ∧
      interfaceWord (Kernel.boot.interfaces i) w < startAddress := by
  have hslot : Kernel.boot.interfaces i = if i = 0 then ⟨0, 0, 0, 0⟩ else
      ⟨if i + 1 < tableSize then i + 1 else 0, freeMarker % 2 ^ 32, freeMarker / 2 ^ 32, 0⟩ := rfl
  have hnext : (if i + 1 < tableSize then i + 1 else 0) < 2 ^ 16 := by
    unfold tableSize
    split <;> omega
  rw [hslot]
  generalize (if i + 1 < tableSize then i + 1 else 0) = next at hnext
  obtain rfl | rfl | rfl : w = 0 ∨ w = 1 ∨ w = 2 := by omega
  all_goals
    split
    all_goals
      simp only [interfaceWord, freeMarker, Whole, startAddress]
      omega

/-- The thread of `lockThreads` that runs enters the kernel with the address of another one, and
with 0xffff in a register. -/
def politeThreads : Kernel := enter lockThreads lockThreads.runnable
  { lockRegs 0x1ffc00 with
    x := fun i => if i = 1 then startAddress + 0x1ffa00 else if i = 2 then 0xffff
      else (lockRegs 0x1ffc00).x i }

theorem politeThreads_placed : Placed politeThreads := lockThreads_placed.congr rfl rfl

theorem politeThreads_unknown : HeapUnknown politeThreads := by
  have hpl := politeThreads_placed
  let Q (v : ℕ) : Prop := Whole v ∧ (startAddress ≤ v → v ∈ politeThreads.contexts)
  have hzero : Q 0 := by decide +kernel
  have hsmall : ∀ v, Whole v → v < startAddress → Q v :=
    fun v hv hlt => ⟨hv, fun hle => absurd hlt (not_lt.2 hle)⟩
  have hctx : ∀ p ∈ politeThreads.contexts, ∀ w < 61,
      Whole (politeThreads.ctx p w) ∧ (startAddress ≤ politeThreads.ctx p w →
        politeThreads.ctx p w ∈ politeThreads.contexts) := by decide +kernel
  have htables : ∀ i < 512, Q (politeThreads.l1 i) ∧ Q (politeThreads.l2 i) ∧
      Q (politeThreads.l3 i) := by
    refine fun i _ => ⟨?_, hzero, hzero⟩
    show Q (if i = 0 then _ else 0)
    split
    · decide +kernel
    · exact hzero
  have hinterfaces : ∀ i < tableSize, ∀ w < 3,
      Q (interfaceWord (politeThreads.interfaces i) w) := by
    intro i _ w hw
    obtain ⟨hwhole, hlt⟩ := boot_interfaces (i := i) hw
    exact hsmall _ hwhole hlt
  refine heapUnknown_words hpl fun a hal => ?_
  have hq : Q (politeThreads.word a) := by
    rcases word_cases (Q := Q) hpl (fun _ => hzero) (fun _ => hzero) (by decide +kernel) htables
      hinterfaces hal with ⟨p, hp, w, hw, -, hword⟩ | hq
    · rw [hword]
      exact hctx p hp w hw
    · exact hq
  refine ⟨hq.1, fun hheap => .inl (hq.2 ?_)⟩
  exact le_trans (Nat.le_add_right _ _) hheap.1

theorem codes_sound_polite : CodesSound politeThreads :=
  (codes_sound politeThreads_placed).2 politeThreads_unknown

end Example

end Isambard.El1
