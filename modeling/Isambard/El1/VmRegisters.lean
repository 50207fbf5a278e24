import Isambard.El1.Waiters
import Isambard.El1.Boot

/-!
# El1.VmRegisters — the system registers of a virtual machine

`Thread_Make_Partner` allocates a context with a `vm_state` of 18 words behind it, and
`ISAMBARD_CHANGE_VM_SYSTEM_REGISTER` is to read and change one of these words. It takes any
thread code whose thread has a partner, allows two registers more than there are, and goes
through 32-bit variables.

* `VmStates`: the contexts that have a `vm_state` behind them;
* `change_eq`: what the call does to the word that it comes to, wherever that is;
* `changedWord`: the word after that.
-/

namespace Isambard.El1

open Isambard.Lib

/-- The number of words of a `vm_state`, the library's `VM_REGISTER_OUT_OF_RANGE`. -/
def vmRegisters : ℕ := 18

/-! ## The word -/

/-- The word after `change_vm_system_register`, as the kernel computes it. -/
def changedWord (old xorBits andBits : ℕ) : ℕ :=
  if xorBits ≠ 0 ∨ andBits ≠ 2 ^ 64 - 1 then
    if andBits ≠ 0 then xorBits % 2 ^ 32 ^^^ (old % 2 ^ 32 &&& andBits) else xorBits % 2 ^ 32
  else old

section Word

variable {old xorBits andBits v : ℕ}

/-- A word that is stored is the lower half of what it should be. -/
theorem changedWord_written (h : xorBits ≠ 0 ∨ andBits ≠ 2 ^ 64 - 1) :
    changedWord old xorBits andBits = ((old &&& andBits) ^^^ xorBits) % 2 ^ 32 := by
  have hlow : (old % 2 ^ 32 &&& andBits) % 2 ^ 32 = old % 2 ^ 32 &&& andBits :=
    Nat.mod_eq_of_lt (lt_of_le_of_lt Nat.and_le_left (Nat.mod_lt old (Nat.two_pow_pos 32)))
  unfold changedWord
  rw [if_pos h, Nat.xor_mod_two_pow]
  by_cases h0 : andBits = 0
  · simp [h0]
  · rw [if_pos h0, Nat.xor_comm, ← hlow, Nat.and_mod_two_pow, Nat.mod_mod, ← Nat.and_mod_two_pow]

/-- The law of the read-modify-write, for the value returned and the word after it. -/
theorem changedWord_law : old % 2 ^ 32 = old ∧
      changedWord old xorBits andBits = (old &&& andBits) ^^^ xorBits ↔
    old < 2 ^ 32 ∧ xorBits < 2 ^ 32 := by
  constructor
  · rintro ⟨hold, hlaw⟩
    have hlt : old < 2 ^ 32 := hold ▸ Nat.mod_lt old (Nat.two_pow_pos 32)
    refine ⟨hlt, ?_⟩
    by_cases h : xorBits ≠ 0 ∨ andBits ≠ 2 ^ 64 - 1
    · rw [changedWord_written h] at hlaw
      have hres : (old &&& andBits) ^^^ xorBits < 2 ^ 32 :=
        hlaw ▸ Nat.mod_lt _ (Nat.two_pow_pos 32)
      have hand : old &&& andBits < 2 ^ 32 := lt_of_le_of_lt Nat.and_le_left hlt
      have hback : xorBits = (old &&& andBits) ^^^ ((old &&& andBits) ^^^ xorBits) := by
        rw [← Nat.xor_assoc, Nat.xor_self, Nat.zero_xor]
      rw [hback]
      exact Nat.xor_lt_two_pow hand hres
    · rw [not_or, not_not] at h
      rw [h.1]
      decide
  · rintro ⟨hold, hxor⟩
    refine ⟨Nat.mod_eq_of_lt hold, ?_⟩
    have hand : old &&& andBits < 2 ^ 32 := lt_of_le_of_lt Nat.and_le_left hold
    by_cases h : xorBits ≠ 0 ∨ andBits ≠ 2 ^ 64 - 1
    · rw [changedWord_written h, Nat.mod_eq_of_lt (Nat.xor_lt_two_pow hand hxor)]
    · rw [not_or, not_not, not_not] at h
      rcases h with ⟨rfl, rfl⟩
      rw [Nat.xor_zero, Nat.and_two_pow_sub_one_eq_mod, Nat.mod_eq_of_lt (by omega)]
      simp [changedWord]

@[simp] theorem changedWord_set : changedWord old v 0 = v % 2 ^ 32 := by
  simp [changedWord]

@[simp] theorem changedWord_get : changedWord old 0 0xffffffff = old % 2 ^ 32 := by
  have hmask : old % 2 ^ 32 &&& 0xffffffff = old % 2 ^ 32 := by
    rw [show 0xffffffff = 2 ^ 32 - 1 from rfl, Nat.and_two_pow_sub_one_eq_mod, Nat.mod_mod]
  unfold changedWord
  rw [if_pos (.inr (by decide)), if_pos (by decide), hmask, Nat.zero_mod, Nat.zero_xor]

end Word

/-! ## The states of the virtual machines -/

/-- The contexts `vms` have a `vm_state` behind them, in which no other context lies. -/
structure VmStates (k : Kernel) (vms : List ℕ) : Prop where
  created : ∀ p ∈ vms, p ∈ k.contexts
  top : ∀ p ∈ vms, p + contextSize + vmStateSize ≤ startAddress + heapTop
  apart : ∀ p ∈ vms, ∀ q ∈ k.contexts, q ≤ p ∨ p + contextSize + vmStateSize ≤ q

/-- Store `v` in the word of the heap at `a`, which is in no context. -/
def Kernel.setMem (k : Kernel) (a v : ℕ) : Kernel := { k with mem := Function.update k.mem a v }

/-- The register `i` of the virtual machine whose state is behind `p`. -/
def vmRegister (k : Kernel) (p i : ℕ) : ℕ := k.mem (p + contextSize + 8 * i)

section States

variable {k k' : Kernel} {vms : List ℕ} {p q i : ℕ}

theorem VmStates.congr (h : VmStates k vms) (hc : k'.contexts = k.contexts) : VmStates k' vms :=
  ⟨hc ▸ h.created, h.top, hc ▸ h.apart⟩

/-- Two contexts do not overlap. -/
theorem Placed.disjoint (h : Placed k) (hp : p ∈ k.contexts) (hq : q ∈ k.contexts)
    (hne : p ≠ q) : p + contextSize ≤ q ∨ q + contextSize ≤ p := by
  have : Std.Symm fun p q : ℕ => p + contextSize ≤ q ∨ q + contextSize ≤ p :=
    ⟨fun _ _ => Or.symm⟩
  have hapart : k.contexts.Pairwise fun p q => p + contextSize ≤ q ∨ q + contextSize ≤ p :=
    h.apart.imp .inl
  exact hapart.forall hp hq hne

theorem sysregAddress_eq (hpl : Placed k) (hp : p ∈ k.contexts) (hi : i < vmRegisterOutOfRange) :
    sysregAddress p i = p + contextSize + 8 * i := by
  have htop := hpl.top p hp
  unfold sysregAddress
  unfold startAddress heapTop contextSize vmRegisterOutOfRange at *
  omega

/-- A register of a virtual machine is a word of the heap, in no context. -/
theorem VmStates.place (h : VmStates k vms) (hpl : Placed k) (hp : p ∈ vms)
    (hi : i < vmRegisters) :
    k.place (p + contextSize + 8 * i) = .mem (p + contextSize + 8 * i) := by
  have hfloor := hpl.floor (h.created p hp)
  refine place_heap ?_ (by unfold heapStart; omega)
  unfold Kernel.contextAt
  rw [List.find?_eq_none]
  intro q hq
  simp only [Bool.and_eq_true, decide_eq_true_eq, not_and, not_lt]
  intro hle
  unfold vmRegisters at hi
  rcases h.apart p hp q hq with hqp | hqp
  · rcases eq_or_ne q p with rfl | hne
    · omega
    · rcases hpl.disjoint hq (h.created p hp) hne with hd | hd <;> omega
  · unfold vmStateSize at hqp
    omega

end States

/-! ## The call -/

/-- The partner that the thread code in x0 leads to. -/
def vmPartner (k : Kernel) (thread : ℕ) : ℕ := k.partner (threadFromCode (k.reg thread 0))

/-- The register index in x1, an `unsigned int`. -/
def vmIndex (k : Kernel) (thread : ℕ) : ℕ := k.reg thread 1 % 2 ^ 32

/-- The word that the call reads and writes. -/
def vmWordAddress (k : Kernel) (thread : ℕ) : ℕ :=
  sysregAddress (vmPartner k thread) (vmIndex k thread)

/-- The tests that the call makes. -/
structure Accepts (k : Kernel) (thread : ℕ) : Prop where
  real : isRealThread k (k.reg thread 0) = true
  partner : vmPartner k thread ≠ 0
  map : k.currentMap thread = k.currentMap (vmPartner k thread)
  index : vmIndex k thread < vmRegisterOutOfRange

section Call

variable {k k' : Kernel} {vms : List ℕ} {thread now : ℕ}

theorem change_accepts (h : handleChangeVmSystemRegister k thread = .ok k' now) :
    Accepts k thread := by
  unfold handleChangeVmSystemRegister at h
  split at h
  · cases h
  rename_i hreal
  simp only at h
  split at h
  · cases h
  rename_i hpartner
  split at h
  · cases h
  rename_i hmap
  split at h
  · cases h
  rename_i hindex
  exact ⟨by simpa using hreal, hpartner, not_not.1 hmap, Nat.not_le.1 hindex⟩

/-- What the call does. -/
theorem change_eq (h : Accepts k thread) : handleChangeVmSystemRegister k thread =
    .ok ((if k.reg thread 2 ≠ 0 ∨ k.reg thread 3 ≠ 2 ^ 64 - 1 then
        k.store64 (vmWordAddress k thread) (changedWord (k.load64 (vmWordAddress k thread))
          (k.reg thread 2) (k.reg thread 3))
      else k).setReg thread 0 (k.load64 (vmWordAddress k thread) % 2 ^ 32)) thread := by
  have hpartner : k.partner (threadFromCode (k.reg thread 0)) ≠ 0 := h.partner
  have hmap : ¬ k.currentMap thread ≠ k.currentMap (k.partner (threadFromCode (k.reg thread 0))) :=
    not_not.2 h.map
  have hindex : ¬ k.reg thread 1 % 2 ^ 32 ≥ vmRegisterOutOfRange := Nat.not_le.2 h.index
  unfold handleChangeVmSystemRegister
  simp only [h.real, Bool.not_true, Bool.false_eq_true, if_false, hpartner, hmap, hindex]
  unfold changedWord vmWordAddress vmPartner vmIndex
  by_cases hwrite : k.reg thread 2 ≠ 0 ∨ k.reg thread 3 ≠ 2 ^ 64 - 1
  · rw [if_pos hwrite, if_pos hwrite, if_pos hwrite]
  · rw [if_neg hwrite, if_neg hwrite]

/-- It does it to a word of the heap. -/
theorem change_mem (h : Accepts k thread) (hal : vmWordAddress k thread % 8 = 0)
    (hplace : k.place (vmWordAddress k thread) = .mem (vmWordAddress k thread)) :
    handleChangeVmSystemRegister k thread =
      .ok ((k.setMem (vmWordAddress k thread) (changedWord (k.mem (vmWordAddress k thread))
        (k.reg thread 2) (k.reg thread 3))).setReg thread 0
        (k.mem (vmWordAddress k thread) % 2 ^ 32)) thread := by
  rw [change_eq h, load64_eq_word hal, Kernel.word, hplace]
  simp only
  by_cases hwrite : k.reg thread 2 ≠ 0 ∨ k.reg thread 3 ≠ 2 ^ 64 - 1
  · rw [if_pos hwrite, store64_eq_setWord hal, Kernel.setWord, hplace]
    rfl
  · rw [if_neg hwrite]
    have hsame : changedWord (k.mem (vmWordAddress k thread)) (k.reg thread 2) (k.reg thread 3) =
        k.mem (vmWordAddress k thread) := if_neg hwrite
    rw [hsame, Kernel.setMem, Function.update_eq_self]

/-- If the call does not halt, the word is one of a `vm_state` of the caller's map, and it is
all that changes but x0. -/
def InVmState (k : Kernel) (vms : List ℕ) (thread : ℕ) : Prop :=
  ∀ k' now, handleChangeVmSystemRegister k thread = .ok k' now →
    ∃ p ∈ vms, k.currentMap p = k.currentMap thread ∧
      (∃ j < vmRegisters, vmWordAddress k thread = p + contextSize + 8 * j) ∧
      now = thread ∧ ∃ v x₀, k' = (k.setMem (vmWordAddress k thread) v).setReg thread 0 x₀

/-- A call that passes the tests comes to the context of a virtual machine, and asks for one
of its registers. -/
def NamesVm (k : Kernel) (vms : List ℕ) (thread : ℕ) : Prop :=
  Accepts k thread → vmPartner k thread ∈ vms ∧ vmIndex k thread < vmRegisters

/-- Access stays inside the states of the virtual machines if the calls name these. For a
partner that is a context there is no other way. -/
theorem change_in_vm_state (hpl : Placed k) (hvm : VmStates k vms) :
    (NamesVm k vms thread → InVmState k vms thread) ∧
      (vmPartner k thread ∈ k.contexts → InVmState k vms thread → NamesVm k vms thread) := by
  constructor
  · intro hnames k' now hok
    have hacc := change_accepts hok
    rcases hnames hacc with ⟨hp, hi⟩
    have hmem := hvm.created _ hp
    have haddr : vmWordAddress k thread =
        vmPartner k thread + contextSize + 8 * vmIndex k thread :=
      sysregAddress_eq hpl hmem hacc.index
    have hal : vmWordAddress k thread % 8 = 0 := by
      have := hpl.aligned _ hmem
      unfold contextSize at haddr
      omega
    rw [change_mem hacc hal (by rw [haddr]; exact hvm.place hpl hp hi)] at hok
    cases hok
    exact ⟨_, hp, hacc.map.symm, ⟨_, hi, haddr⟩, rfl, _, _, rfl⟩
  · intro hmem hin hacc
    rcases hin _ _ (change_eq hacc) with ⟨p, hp, -, ⟨j, hj, haddr⟩, -⟩
    have hindex := hacc.index
    rw [vmWordAddress, sysregAddress_eq hpl hmem hindex] at haddr
    unfold vmRegisterOutOfRange at hindex
    unfold vmRegisters at hj
    -- the words behind two contexts are not the same
    have heq : vmPartner k thread = p := by
      by_contra hne
      rcases hpl.disjoint hmem (hvm.created p hp) hne with hd | hd
      · unfold contextSize at hd
        omega
      · unfold contextSize at hd
        omega
    refine ⟨heq ▸ hp, ?_⟩
    unfold vmRegisters
    omega

end Call

/-! ## Making partners -/

section Make

variable {k k' : Kernel} {vms : List ℕ} {thread now : ℕ}

/-- The block for a partner: a context, and the state behind it. -/
def partnerBlock (k : Kernel) : ℕ := (allocateHeap k (contextSize + vmStateSize)).2

theorem makePartner_ok (h : makePartner k thread = .ok k' now) :
    inMappedHeap (partnerBlock k) (contextSize + vmStateSize) = true ∧
      k'.contexts = partnerBlock k :: k.contexts ∧
      k'.heapBottom = (allocateHeap k (contextSize + vmStateSize)).1.heapBottom := by
  have hstores (k₁ : Kernel) (p w v : ℕ) := setFld_stores k₁ p w v
  unfold makePartner at h
  split at h
  · cases h
  unfold partnerBlock
  have hcontexts : (allocateHeap k (contextSize + vmStateSize)).1.contexts = k.contexts := by
    rcases allocateHeap_bottom k (contextSize + vmStateSize) with ⟨b, hb, -⟩
    rw [hb]
  generalize allocateHeap k (contextSize + vmStateSize) = b at h hcontexts ⊢
  rcases b with ⟨k₁, p⟩
  simp only at h hcontexts ⊢
  split at h
  · cases h
  split at h
  · cases h
  rename_i hm
  cases h
  have hthread := hstores (clearVmState k₁ p) thread 3 p
  generalize hk₃ : (clearVmState k₁ p).setPartner thread p = k₃
  rw [show (clearVmState k₁ p).setFld thread 3 p = k₃ from hk₃] at hthread
  have hlater (v u : ℕ) := (((hstores (initialiseNewThread k₃ p) p 3 thread).trans
    (hstores _ p 39 v)).trans (hstores _ p 36 0)).trans (hstores _ p 37 u)
  refine ⟨by simpa using hm, (hlater _ _).contexts.trans ?_,
    (hlater _ _).heapBottom.trans hthread.heapBottom⟩
  show p :: k₃.contexts = p :: k.contexts
  rw [hthread.contexts]
  exact congrArg (List.cons p) hcontexts

/-- A further partner has a state of its own. -/
theorem makePartner_vmStates (hheap : Heap k) (hvm : VmStates k vms)
    (h : makePartner k thread = .ok k' now) :
    partnerBlock k ∉ k.contexts ∧ VmStates k' (partnerBlock k :: vms) := by
  have hsize : contextSize + vmStateSize < 2 ^ 20 := by decide
  rcases makePartner_ok h with ⟨hm, hc, -⟩
  have hbelow {q : ℕ} (hq : q ∈ k.contexts) :
      partnerBlock k + (contextSize + vmStateSize) ≤ q := hheap.block_below hsize hm hq
  rw [inMappedHeap_iff] at hm
  generalize partnerBlock k = b at hm hc hbelow ⊢
  have hfresh : b ∉ k.contexts := by
    intro hb
    have := hbelow hb
    unfold contextSize at this
    omega
  refine ⟨hfresh, ?_, ?_, ?_⟩
  · intro p hp
    rw [hc]
    rcases List.mem_cons.1 hp with rfl | hp
    · exact List.mem_cons_self
    · exact List.mem_cons_of_mem _ (hvm.created p hp)
  · intro p hp
    rcases List.mem_cons.1 hp with rfl | hp
    · omega
    · exact hvm.top p hp
  · intro p hp q hq
    rw [hc] at hq
    rcases List.mem_cons.1 hp with rfl | hold
    · rcases List.mem_cons.1 hq with rfl | hq
      · exact .inl le_rfl
      · have := hbelow hq
        exact .inr (by omega)
    · rcases List.mem_cons.1 hq with rfl | hq
      · have := hbelow (hvm.created p hold)
        exact .inl (by omega)
      · exact hvm.apart p hold q hq

end Make

/-! ## Calls of the library -/

/-- The registers with the parameters of a call. -/
def vmRegs (r : Regs) (vm reg xorBits andBits : ℕ) : Regs :=
  { r with
    x := fun i =>
      if i = 0 then vm else if i = 1 then reg else if i = 2 then xorBits
      else if i = 3 then andBits else r.x i }

/-- `change_vm_system_register`, by the running thread. -/
def changeVmSystemRegister (k : Kernel) (r : Regs) (vm reg xorBits andBits : ℕ) : Outcome ℕ :=
  kernelStep k (vmRegs r vm reg xorBits andBits) (.svc 0xf00f)

def setVmSystemRegister (k : Kernel) (r : Regs) (vm reg v : ℕ) : Outcome ℕ :=
  changeVmSystemRegister k r vm reg v 0

def getVmSystemRegister (k : Kernel) (r : Regs) (vm reg : ℕ) : Outcome ℕ :=
  changeVmSystemRegister k r vm reg 0 0xffffffff

/-- The code `vm` leads to the virtual machine whose state is behind `p`, and the running
thread may change it. -/
structure Reaches (k : Kernel) (vms : List ℕ) (vm p : ℕ) : Prop where
  placed : Placed k
  running : k.runnable ∈ k.contexts
  states : VmStates k vms
  mem : p ∈ vms
  thread : threadFromCode vm ∈ k.contexts
  next : k.ctx (threadFromCode vm) 0 ∈ k.contexts
  prev : k.ctx (threadFromCode vm) 1 ∈ k.contexts
  nextPrev : k.ctx (k.ctx (threadFromCode vm) 0) 1 = threadFromCode vm
  prevNext : k.ctx (k.ctx (threadFromCode vm) 1) 0 = threadFromCode vm
  partner : k.ctx (threadFromCode vm) 3 = p
  map : k.currentMap k.runnable = k.currentMap p

section Reaches

variable {k k' : Kernel} {vms : List ℕ} {vm p i : ℕ} {r : Regs}

theorem Reaches.congr (h : Reaches k vms vm p) (hc : k'.contexts = k.contexts)
    (hb : k'.heapBottom = k.heapBottom) (hr : k'.runnable = k.runnable)
    (hw : ∀ q w, w < 4 ∨ w = 39 → k'.ctx q w = k.ctx q w) : Reaches k' vms vm p := by
  have hmap : ∀ q ∈ k.contexts, k'.currentMap q = k.currentMap q := fun q hq =>
    currentMap_congr hq (hc ▸ hq) (hw q 39 (.inr rfl))
  refine ⟨h.placed.congr hc hb, by rw [hc, hr]; exact h.running, h.states.congr hc, h.mem,
    hc ▸ h.thread, ?_, ?_, ?_, ?_, ?_, ?_⟩
  · rw [hc, hw _ 0 (by omega)]
    exact h.next
  · rw [hc, hw _ 1 (by omega)]
    exact h.prev
  · rw [hw _ 0 (by omega), hw _ 1 (by omega)]
    exact h.nextPrev
  · rw [hw _ 1 (by omega), hw _ 0 (by omega)]
    exact h.prevNext
  · rw [hw _ 3 (by omega)]
    exact h.partner
  · rw [hr, hmap _ h.running, hmap _ (h.states.created p h.mem)]
    exact h.map

theorem Reaches.real (h : Reaches k vms vm p) : isRealThread k vm = true :=
  OnRing.real h.placed ⟨h.thread, h.next, h.prev, h.nextPrev, h.prevNext⟩

/-- The call for the register `i` of the machine passes the tests, and reaches its word. -/
theorem Reaches.call {t : ℕ} (h : Reaches k vms vm p) (hi : i < vmRegisters)
    (ht : t = k.runnable) (h0 : k.reg t 0 = vm) (h1 : k.reg t 1 = i) :
    Accepts k t ∧ vmWordAddress k t = p + contextSize + 8 * i ∧ vmWordAddress k t % 8 = 0 := by
  have hpartner : vmPartner k t = p := by
    rw [vmPartner, h0, Kernel.partner, fld_of_mem h.thread, h.partner]
  have hindex : vmIndex k t = i := by
    unfold vmRegisters at hi
    rw [vmIndex, h1, Nat.mod_eq_of_lt (by omega)]
  have hacc : Accepts k t := by
    refine ⟨by rw [h0]; exact h.real, ?_, ?_, ?_⟩
    · rw [hpartner]
      exact h.placed.ne_zero (h.states.created p h.mem)
    · rw [hpartner, ht]
      exact h.map
    · rw [hindex]
      unfold vmRegisters at hi
      unfold vmRegisterOutOfRange
      omega
  have haddr : vmWordAddress k t = p + contextSize + 8 * i := by
    rw [vmWordAddress, hpartner, hindex]
    exact sysregAddress_eq h.placed (h.states.created p h.mem) (hindex ▸ hacc.index)
  refine ⟨hacc, haddr, ?_⟩
  have := h.placed.aligned _ (h.states.created p h.mem)
  unfold contextSize at haddr
  omega

/-- A call for one of the registers. -/
theorem changeVm_spec (h : Reaches k vms vm p) (hi : i < vmRegisters) (xorBits andBits : ℕ) :
    ∃ k', changeVmSystemRegister k r vm i xorBits andBits = .ok k' k.runnable ∧
      Reaches k' vms vm p ∧ k'.runnable = k.runnable ∧
      k'.reg k.runnable 0 = vmRegister k p i % 2 ^ 32 ∧
      ∀ j, vmRegister k' p j =
        if j = i then changedWord (vmRegister k p i) xorBits andBits else vmRegister k p j := by
  have he := enter_entered k k.runnable (vmRegs r vm i xorBits andBits)
  have hreg {n : ℕ} (hn : n ≤ 18) :
      (enter k k.runnable (vmRegs r vm i xorBits andBits)).reg k.runnable n =
        (vmRegs r vm i xorBits andBits).x n := by
    rw [Kernel.reg, fld_of_mem (by rw [he.frame.contexts]; exact h.running)]
    exact enter_reg hn
  have hk₀ := h.congr he.frame.contexts he.frame.heapBottom he.runnable
    fun q w hw => he.words q w (by omega)
  generalize hk : enter k k.runnable (vmRegs r vm i xorBits andBits) = k₀ at he hreg hk₀
  have h0 : k₀.reg k.runnable 0 = vm := hreg (by omega)
  have h1 : k₀.reg k.runnable 1 = i := hreg (by omega)
  have h2 : k₀.reg k.runnable 2 = xorBits := hreg (by omega)
  have h3 : k₀.reg k.runnable 3 = andBits := hreg (by omega)
  have hrun : k.runnable ∈ k₀.contexts := by
    rw [← he.runnable]
    exact hk₀.running
  obtain ⟨hacc, haddr, hal⟩ := hk₀.call hi he.runnable.symm h0 h1
  have hcall := change_mem hacc hal (by rw [haddr]; exact hk₀.states.place hk₀.placed hk₀.mem hi)
  rw [haddr, h2, h3, Kernel.setReg, setFld_of_mem (by exact hrun)] at hcall
  have hmem : k₀.mem = k.mem := he.frame.mem
  generalize hk₁ : (k₀.setMem (p + contextSize + 8 * i) _).withCtx _ = k₁ at hcall
  have hsvc : handleSvc (enter k k.runnable (vmRegs r vm i xorBits andBits)) k.runnable 0xf00f =
      .ok k₁ k.runnable := by
    rw [hk]
    exact hcall
  have hrun₁ : k₁.runnable = k.runnable := by
    rw [← hk₁]
    exact he.runnable
  refine ⟨k₁, kernelStep_stays hsvc hrun₁, ?_, hrun₁, ?_, fun j => ?_⟩
  · rw [← hk₁]
    refine hk₀.congr rfl rfl rfl fun q w hw => ?_
    rw [withCtx_ctx, setCtx_apply, if_neg (by omega)]
    rfl
  · rw [← hk₁, Kernel.reg, fld_of_mem (by exact hrun), withCtx_ctx, setCtx_apply,
      if_pos ⟨rfl, rfl⟩, hmem]
    rfl
  · rw [← hk₁]
    show Function.update k₀.mem _ _ (p + contextSize + 8 * j) = _
    rw [hmem]
    by_cases hj : j = i
    · rw [hj, if_pos rfl, Function.update_self]
      rfl
    · rw [if_neg hj, Function.update_of_ne (by omega)]
      rfl

end Reaches

/-! ## The law -/

/-- "Returns the old value", and `new_value = ((old_value & and_bits) ^ xor_bits)`. -/
def ReadsModifiesWrites (k : Kernel) (r : Regs) (vm p i xorBits andBits : ℕ) : Prop :=
  ∃ k', changeVmSystemRegister k r vm i xorBits andBits = .ok k' k.runnable ∧
    k'.reg k.runnable 0 = vmRegister k p i ∧
    vmRegister k' p i = (vmRegister k p i &&& andBits) ^^^ xorBits ∧
    ∀ j, j ≠ i → vmRegister k' p j = vmRegister k p j

/-- "Read value with no modification." -/
def ReadsOnly (k : Kernel) (r : Regs) (vm p i : ℕ) : Prop :=
  ∃ k', getVmSystemRegister k r vm i = .ok k' k.runnable ∧
    ∀ j, vmRegister k' p j = vmRegister k p j

/-- The kernel after `n` calls of `get_vm_system_register`. -/
def afterGets (rs : ℕ → Regs) (vm i : ℕ) : ℕ → Kernel → Kernel
  | 0, k => k
  | n + 1, k => (getVmSystemRegister (afterGets rs vm i n k) (rs n) vm i).kernel

/-- What is set is what every later call gets. -/
def GetsWhatIsSet (k : Kernel) (r : Regs) (rs : ℕ → Regs) (vm i v : ℕ) : Prop :=
  ∃ k₀, setVmSystemRegister k r vm i v = .ok k₀ k.runnable ∧
    ∀ n, ∃ k', getVmSystemRegister (afterGets rs vm i n k₀) (rs n) vm i = .ok k' k.runnable ∧
      k'.reg k.runnable 0 = v

section Law

variable {k : Kernel} {vms : List ℕ} {vm p i : ℕ}

theorem readsModifiesWrites_iff (h : Reaches k vms vm p) (hi : i < vmRegisters) (r : Regs)
    (xorBits andBits : ℕ) : ReadsModifiesWrites k r vm p i xorBits andBits ↔
      vmRegister k p i < 2 ^ 32 ∧ xorBits < 2 ^ 32 := by
  rcases changeVm_spec (r := r) h hi xorBits andBits with ⟨k', hcall, -, -, hret, hregs⟩
  rw [← @changedWord_law (vmRegister k p i) xorBits andBits]
  constructor
  · rintro ⟨k₁, hcall₁, hret₁, hword, -⟩
    rw [hcall] at hcall₁
    cases hcall₁
    rw [hregs i, if_pos rfl] at hword
    exact ⟨hret.symm.trans hret₁, hword⟩
  · rintro ⟨hold, hword⟩
    refine ⟨k', hcall, hret.trans hold, ?_, fun j hj => ?_⟩
    · rw [hregs i, if_pos rfl, hword]
    · rw [hregs j, if_neg hj]

theorem readsOnly_iff (h : Reaches k vms vm p) (hi : i < vmRegisters) (r : Regs) :
    ReadsOnly k r vm p i ↔ vmRegister k p i < 2 ^ 32 := by
  rcases changeVm_spec (r := r) h hi 0 0xffffffff with ⟨k', hcall, -, -, -, hregs⟩
  constructor
  · rintro ⟨k₁, hcall₁, hsame⟩
    rw [getVmSystemRegister, hcall] at hcall₁
    cases hcall₁
    have hword := hsame i
    rw [hregs i, if_pos rfl, changedWord_get] at hword
    rw [← hword]
    exact Nat.mod_lt _ (Nat.two_pow_pos 32)
  · intro hlt
    refine ⟨k', hcall, fun j => ?_⟩
    rw [hregs j]
    split
    · rename_i hj
      rw [hj, changedWord_get, Nat.mod_eq_of_lt hlt]
    · rfl

/-- After a register was set, it is not more than 32 bits, and calls to get it keep it. -/
theorem afterGets_spec (h : Reaches k vms vm p) (hi : i < vmRegisters)
    (hlt : vmRegister k p i < 2 ^ 32) (rs : ℕ → Regs) (n : ℕ) :
    Reaches (afterGets rs vm i n k) vms vm p ∧ (afterGets rs vm i n k).runnable = k.runnable ∧
      vmRegister (afterGets rs vm i n k) p i = vmRegister k p i := by
  induction n with
  | zero => exact ⟨h, rfl, rfl⟩
  | succ n ih =>
    rcases ih with ⟨hn, hrun, hword⟩
    rcases changeVm_spec (r := rs n) hn hi 0 0xffffffff with ⟨k', hcall, hk', hrun', -, hregs⟩
    have hnext : afterGets rs vm i (n + 1) k = k' := by
      rw [afterGets, getVmSystemRegister, hcall, Outcome.kernel]
    rw [hnext]
    refine ⟨hk', hrun'.trans hrun, ?_⟩
    rw [hregs i, if_pos rfl, changedWord_get, hword, Nat.mod_eq_of_lt hlt]

theorem getsWhatIsSet_iff (h : Reaches k vms vm p) (hi : i < vmRegisters) (r : Regs)
    (rs : ℕ → Regs) (v : ℕ) : GetsWhatIsSet k r rs vm i v ↔ v < 2 ^ 32 := by
  rcases changeVm_spec (r := r) h hi v 0 with ⟨k₀, hcall, hk₀, hrun₀, -, hregs⟩
  have hset : vmRegister k₀ p i = v % 2 ^ 32 := by rw [hregs i, if_pos rfl, changedWord_set]
  have hlt : vmRegister k₀ p i < 2 ^ 32 := hset ▸ Nat.mod_lt v (Nat.two_pow_pos 32)
  -- what each of the calls gets
  have hget (n : ℕ) : ∃ k', getVmSystemRegister (afterGets rs vm i n k₀) (rs n) vm i =
      .ok k' k.runnable ∧ k'.reg k.runnable 0 = v % 2 ^ 32 := by
    rcases afterGets_spec hk₀ hi hlt rs n with ⟨hn, hrun, hword⟩
    rcases changeVm_spec (r := rs n) hn hi 0 0xffffffff with ⟨k', hget, -, -, hret, -⟩
    rw [hrun, hrun₀] at hget hret
    exact ⟨k', hget, by rw [hret, hword, hset, Nat.mod_mod]⟩
  constructor
  · rintro ⟨k₁, hcall₁, hall⟩
    rw [setVmSystemRegister, hcall] at hcall₁
    cases hcall₁
    rcases hall 0 with ⟨k', hk', hv⟩
    rcases hget 0 with ⟨k'', hk'', hv'⟩
    rw [hk''] at hk'
    cases hk'
    rw [← hv, hv']
    exact Nat.mod_lt v (Nat.two_pow_pos 32)
  · intro hv
    refine ⟨k₀, hcall, fun n => ?_⟩
    rcases hget n with ⟨k', hk', hret⟩
    exact ⟨k', hk', hret.trans (Nat.mod_eq_of_lt hv)⟩

/-- The law holds for the values whose upper halves are zero, and for no others. -/
theorem vm_register_law (h : Reaches k vms vm p) (hi : i < vmRegisters) (r : Regs)
    (rs : ℕ → Regs) (xorBits andBits v : ℕ) :
    (ReadsModifiesWrites k r vm p i xorBits andBits ↔
      vmRegister k p i < 2 ^ 32 ∧ xorBits < 2 ^ 32) ∧
    (GetsWhatIsSet k r rs vm i v ↔ v < 2 ^ 32) ∧
    (ReadsOnly k r vm p i ↔ vmRegister k p i < 2 ^ 32) :=
  ⟨readsModifiesWrites_iff h hi r xorBits andBits, getsWhatIsSet_iff h hi r rs v,
    readsOnly_iff h hi r⟩

end Law

/-! ### A virtual machine -/

/-- A thread that has called the system driver from the map 3. -/
def driverCall : Kernel :=
  { Kernel.boot with
    contexts := [startAddress + 0x1ffe00]
    heapBottom := 0x1ffe00
    runnable := startAddress + 0x1ffe00
    loadedMap := 1
    ctx := fun p w =>
      if w = 0 ∨ w = 1 then p
      else if w = 39 then 1 * 2 ^ 32
      else if w = 41 then frameAddress p 4
      else if w = 57 then 3
      else 0 }

/-- It makes itself a partner, and returns. -/
def vmKernel : Kernel :=
  (handleReturn (makePartner driverCall (startAddress + 0x1ffe00)).kernel
    (startAddress + 0x1ffe00)).kernel

def vmCallRegs : Regs := ⟨fun _ => 0, 0, 0⟩

theorem vmKernel_contexts :
    vmKernel.contexts = [startAddress + 0x1ffb80, startAddress + 0x1ffe00] := by
  decide +kernel

theorem vmKernel_reaches :
    Reaches vmKernel [startAddress + 0x1ffb80] 0x1ffe00 (startAddress + 0x1ffb80) := by
  have hb : vmKernel.heapBottom = 0x1ffb80 := by decide +kernel
  constructor
  · constructor
    · rw [vmKernel_contexts]
      decide
    · rw [vmKernel_contexts, hb]
      decide
    · rw [vmKernel_contexts]
      decide
    · rw [vmKernel_contexts]
      decide
    · rw [hb]
      decide
  · decide +kernel
  · constructor
    · rw [vmKernel_contexts]
      decide
    · decide
    · rw [vmKernel_contexts]
      decide
  all_goals decide +kernel

/-- 32 bits of `SCTLR_EL1`. -/
theorem vm_register_law_sctlr :
    ReadsModifiesWrites vmKernel vmCallRegs 0x1ffe00 (startAddress + 0x1ffb80) 1 0xd50070 0 ∧
      GetsWhatIsSet vmKernel vmCallRegs (fun _ => vmCallRegs) 0x1ffe00 1 0xd50070 ∧
      ReadsOnly vmKernel vmCallRegs 0x1ffe00 (startAddress + 0x1ffb80) 1 := by
  have hlt : vmRegister vmKernel (startAddress + 0x1ffb80) 1 < 2 ^ 32 := by decide +kernel
  rcases vm_register_law vmKernel_reaches (i := 1) (by decide) vmCallRegs (fun _ => vmCallRegs)
    0xd50070 0 0xd50070 with ⟨hrmw, hset, hget⟩
  exact ⟨hrmw.2 ⟨hlt, by decide⟩, hset.2 (by decide), hget.2 hlt⟩

/-- Bit 35 of the `VTCR_EL2` that the driver sets is lost. -/
theorem vtcr_truncated :
    Reaches vmKernel [startAddress + 0x1ffb80] 0x1ffe00 (startAddress + 0x1ffb80) ∧
      ¬ GetsWhatIsSet vmKernel vmCallRegs (fun _ => vmCallRegs) 0x1ffe00 15 0x800080f22 := by
  refine ⟨vmKernel_reaches, fun h => ?_⟩
  have hlt := (getsWhatIsSet_iff vmKernel_reaches (by decide) _ _ _).1 h
  revert hlt
  decide

/-! ### Outside the state -/

/-- The thread calls for the register `i`. -/
def vmCalls (i : ℕ) : Kernel :=
  enter vmKernel (startAddress + 0x1ffe00) (vmRegs vmCallRegs 0x1ffe00 i 0 0)

theorem vmCalls_placed (i : ℕ) : Placed (vmCalls i) :=
  have he := enter_entered vmKernel (startAddress + 0x1ffe00) (vmRegs vmCallRegs 0x1ffe00 i 0 0)
  vmKernel_reaches.placed.congr he.frame.contexts he.frame.heapBottom

theorem vmCalls_states (i : ℕ) : VmStates (vmCalls i) [startAddress + 0x1ffb80] :=
  have he := enter_entered vmKernel (startAddress + 0x1ffe00) (vmRegs vmCallRegs 0x1ffe00 i 0 0)
  vmKernel_reaches.states.congr he.frame.contexts

/-- `VTCR_EL2`, of the thread's own virtual machine. -/
theorem vtcr_in_vm_state :
    InVmState (vmCalls 15) [startAddress + 0x1ffb80] (startAddress + 0x1ffe00) := by
  refine (change_in_vm_state (vmCalls_placed 15) (vmCalls_states 15)).1 fun _ => ?_
  decide +kernel

/-- The register 19 of the newest virtual machine is the `next` link of the thread that was
made before it. -/
theorem register_19_is_a_link :
    (handleChangeVmSystemRegister (vmCalls 19) (startAddress + 0x1ffe00)).isOk = true ∧
      (vmCalls 19).next (startAddress + 0x1ffe00) = startAddress + 0x1ffe00 ∧
      (handleChangeVmSystemRegister (vmCalls 19) (startAddress + 0x1ffe00)).kernel.next
        (startAddress + 0x1ffe00) = 0 ∧
      ¬ InVmState (vmCalls 19) [startAddress + 0x1ffb80] (startAddress + 0x1ffe00) := by
  refine ⟨by decide +kernel, by decide +kernel, by decide +kernel, fun h => ?_⟩
  have hacc : Accepts (vmCalls 19) (startAddress + 0x1ffe00) := by
    constructor
    all_goals decide +kernel
  rcases h _ _ (change_eq hacc) with ⟨p, hp, -, ⟨j, hj, haddr⟩, -⟩
  have hword : vmWordAddress (vmCalls 19) (startAddress + 0x1ffe00) = startAddress + 0x1ffe00 := by
    decide +kernel
  rw [hword, List.mem_singleton.1 hp] at haddr
  unfold vmRegisters at hj
  unfold contextSize at haddr
  omega

end Isambard.El1
