import Isambard.El1.VmRegisters

/-!
# Driver.Cp15 — trapped accesses to the control registers of a virtual machine

`cp15_access` of `drivers/riscos.c`, and what `entry` sets up for it. A case of the switch
made with `READ_WRITE` has a static of its own, which it gives to the guest on a load; a
store goes to the static and to the kernel's `vm_state`.

* `cp15System`: trapped accesses to SCTLR and DACR, with what else runs between them;
* `ShadowInv`: how the statics and the registers of the virtual machine are related;
* `cp15_right_iff`: an access does what it should exactly when it is a store, or the guest
  has stored to that register before.
-/

namespace Isambard.Driver

open Isambard.Lib Isambard.El1

/-! ## The switch -/

/-- What a case of the switch does. -/
inductive Cp15Case where
  /-- `READ_ONLY( v )` -/
  | readOnly (v : ℕ)
  /-- `WRITE_ONLY`, with a barrier or without one -/
  | writeOnly
  /-- `READ_WRITE( initial )`, with the register of the virtual machine that is set -/
  | readWrite (initial : ℕ) (reg : Option ℕ)
  /-- Loads and stores of a register of the virtual machine. -/
  | vmRegister (reg : ℕ)
  | ignored
  | brk

/-- The cases, by `syndrome & 0xffc1e`. -/
def cp15Cases : List (ℕ × Cp15Case) :=
  [(0x00000, .readOnly 0x410FD034), (0xa0000, .readOnly 0x80000f00),
    (0x20000, .readOnly 0x84448004), (0x24000, .readOnly 0x0A200023), (0x08000, .brk),
    (0x00400, .readWrite 0 (some 1)), (0x00c00, .readWrite 0 (some 16)),
    (0x40800, .readWrite 0 (some 2)), (0x00800, .readWrite 0 (some 3)),
    (0x20400, .readWrite 7 none), (0x01c0a, .writeOnly), (0x0200e, .writeOnly),
    (0xc1c0a, .writeOnly), (0x2200a, .writeOnly), (0x2200c, .writeOnly),
    (0x01800, .vmRegister 9), (0x01400, .vmRegister 8), (0x81c14, .writeOnly),
    (0x81c0a, .writeOnly), (0x01c0e, .writeOnly), (0xa1c14, .writeOnly), (0x01c1c, .writeOnly),
    (0x41c14, .writeOnly), (0x21c14, .ignored), (0x00002, .readOnly 0x00000111),
    (0x20002, .readOnly 0x00000001), (0x40002, .readOnly 0x00000002),
    (0x80002, .readOnly 0x01100103), (0xa0002, .readOnly 0x10020302),
    (0xc0002, .readOnly 0x01222000), (0xe0002, .readOnly 0x00000000),
    (0x00004, .readOnly 0x00100011), (0x20004, .readOnly 0x12002111),
    (0x40004, .readOnly 0x11221011), (0x60004, .readOnly 0x01102131),
    (0x80004, .readOnly 0x00000141), (0xa0004, .readOnly 0x00000000),
    (0x46400, .readOnly 0x00000000)]

def cp15Case (code : ℕ) : Cp15Case := (cp15Cases.lookup code).getD .brk

/-- The statics, by the code of their case, and the kernel with the virtual machine. -/
structure VmTraps where
  kernel : Kernel
  shadow : ℕ → ℕ

def Cp15Case.initial : Cp15Case → ℕ
  | .readWrite initial _ => initial
  | _ => 0

/-- How an access ends: with what the guest's register is set to after a load, or in a
breakpoint or a halt of the kernel. -/
inductive TrapOutcome where
  | done (s : VmTraps) (register : Option ℕ)
  | stopped

/-- `set_vm_system_register( vm_thread, reg, v )`. -/
def VmTraps.setRegister (s : VmTraps) (r : Regs) (vm reg v : ℕ) : TrapOutcome :=
  match setVmSystemRegister s.kernel r vm reg v with
  | .ok k _ => .done { s with kernel := k } none
  | .halt _ => .stopped

/-- `set_partner_register( cp.Rt, get_vm_system_register( vm_thread, reg ) )`. -/
def VmTraps.getRegister (s : VmTraps) (r : Regs) (vm reg : ℕ) : TrapOutcome :=
  match getVmSystemRegister s.kernel r vm reg with
  | .ok k thread => .done { s with kernel := k } (some (k.reg thread 0))
  | .halt _ => .stopped

/-- `cp15_access( syndrome )`: `vm` is `vm_thread`, `rt` what the guest's register `cp.Rt`
holds, and `r` the registers of the thread. -/
def cp15Access (vm : ℕ) (s : VmTraps) (r : Regs) (syndrome rt : ℕ) : TrapOutcome :=
  let isRead := syndrome.testBit 0
  let code := syndrome &&& 0xffc1e
  match cp15Case code with
  | .readOnly v => if isRead then .done s (some v) else .stopped
  | .writeOnly => if isRead then .stopped else .done s none
  -- a load never asks the kernel: the static is what the guest gets
  | .readWrite _ none =>
    if isRead then .done s (some (s.shadow code))
    else .done { s with shadow := Function.update s.shadow code rt } none
  | .readWrite _ (some reg) =>
    if isRead then .done s (some (s.shadow code))
    else { s with shadow := Function.update s.shadow code rt }.setRegister r vm reg rt
  | .vmRegister reg => if isRead then s.getRegister r vm reg else s.setRegister r vm reg rt
  | .ignored => .done s none
  | .brk => .stopped

/-! ## From entry on -/

/-- The registers that `entry` sets, in its order; `el2Tt` is the address of the table. -/
def entryRegisters (el2Tt : ℕ) : List (ℕ × ℕ) :=
  [(11, 0b0001110000000000000011111110110000111011), (10, el2Tt), (12, 0b1011111111101011),
    (13, 0xc0000000), (14, 0x410fc075), (1, 0xd50070), (15, 0x800080f22), (16, 2 ^ 64 - 1),
    (17, 2 ^ 64 - 1)]

/-- `set_vm_system_register( this_thread, … )` for each of them. -/
def setRegisters (r : Regs) (vm : ℕ) (l : List (ℕ × ℕ)) (k : Kernel) : Kernel :=
  l.foldl (fun k p => (setVmSystemRegister k r vm p.1 p.2).kernel) k

/-- SCTLR and DACR. -/
inductive ControlRegister where
  | sctlr
  | dacr
deriving DecidableEq

/-- CRm, CRn, Opc1 and Opc2 of an access. -/
def ControlRegister.code : ControlRegister → ℕ
  | .sctlr => 0x00400
  | .dacr => 0x00c00

/-- `SCTLR_EL1` and `DACR32_EL2`. -/
def ControlRegister.reg : ControlRegister → ℕ
  | .sctlr => 1
  | .dacr => 16

/-- What `entry` leaves in the register. -/
def ControlRegister.initial : ControlRegister → ℕ
  | .sctlr => 0xd50070
  | .dacr => 0xffffffff

/-- A step: the guest's access traps, or something else runs that leaves both registers. -/
inductive TrapStep where
  | trap (c : ControlRegister) (r : Regs) (syndrome rt : ℕ)
  | meanwhile

/-- The driver of the virtual machine `p`, with the code `vm`, from the state that `entry`
sets up. -/
def cp15System (vms : List ℕ) (vm p : ℕ) : System VmTraps TrapStep where
  init s := ∃ k r el2Tt, Reaches k vms vm p ∧
    s = ⟨setRegisters r vm (entryRegisters el2Tt) k, fun code => (cp15Case code).initial⟩
  step s i s' := match i with
    | .trap c r syndrome rt => syndrome &&& 0xffc1e = c.code ∧
        ∃ register, cp15Access vm s r syndrome rt = .done s' register
    | .meanwhile => Reaches s'.kernel vms vm p ∧ ∀ c : ControlRegister,
        vmRegister s'.kernel p c.reg = vmRegister s.kernel p c.reg ∧
          s'.shadow c.code = s.shadow c.code

/-- The access does what it should: a load gives the lower half of what the virtual machine
holds, and a store makes that what was stored. -/
def AccessRight (vm p : ℕ) (s : VmTraps) (c : ControlRegister) (r : Regs) (syndrome rt : ℕ) :
    Prop :=
  ∃ s' register, cp15Access vm s r syndrome rt = .done s' register ∧
    if syndrome.testBit 0 then
      ∃ v, register = some v ∧ v % 2 ^ 32 = vmRegister s.kernel p c.reg % 2 ^ 32
    else vmRegister s'.kernel p c.reg = rt % 2 ^ 32

/-- The guest has stored to the register. -/
def StoredBefore (c : ControlRegister) (l : List TrapStep) : Prop :=
  ∃ r syndrome rt, TrapStep.trap c r syndrome rt ∈ l ∧ syndrome.testBit 0 = false

/-! ## Setting registers -/

section Registers

variable {vms : List ℕ} {vm p : ℕ}

theorem setRegisters_spec (r : Regs) (l : List (ℕ × ℕ)) (hl : ∀ q ∈ l, q.1 < vmRegisters)
    {k : Kernel} (h : Reaches k vms vm p) :
    Reaches (setRegisters r vm l k) vms vm p ∧ ∀ j,
      vmRegister (setRegisters r vm l k) p j =
        l.foldl (fun old q => if j = q.1 then q.2 % 2 ^ 32 else old) (vmRegister k p j) := by
  induction l generalizing k with
  | nil => exact ⟨h, fun _ => rfl⟩
  | cons q l ih =>
    rcases changeVm_spec (r := r) h (hl q List.mem_cons_self) q.2 0 with
      ⟨k', hcall, hreach, _, _, hregs⟩
    have hset : (setVmSystemRegister k r vm q.1 q.2).kernel = k' := by
      rw [setVmSystemRegister, hcall]
      rfl
    have hrest := ih (fun q hq => hl q (List.mem_cons_of_mem _ hq)) hreach
    rw [setRegisters, List.foldl_cons, hset]
    refine ⟨hrest.1, fun j => ?_⟩
    have hj := hrest.2 j
    rw [hregs j, changedWord_set] at hj
    exact hj

theorem entryRegisters_lt (el2Tt : ℕ) : ∀ q ∈ entryRegisters el2Tt, q.1 < vmRegisters := by
  have hregs : (entryRegisters el2Tt).map Prod.fst = [11, 10, 12, 13, 14, 1, 15, 16, 17] := rfl
  have hlt : ∀ i ∈ [11, 10, 12, 13, 14, 1, 15, 16, 17], i < vmRegisters := by decide
  intro q hq
  exact hlt q.1 (hregs ▸ List.mem_map_of_mem hq)

theorem entry_registers (r : Regs) (el2Tt : ℕ) {k : Kernel} (h : Reaches k vms vm p)
    (c : ControlRegister) :
    vmRegister (setRegisters r vm (entryRegisters el2Tt) k) p c.reg = c.initial := by
  rw [(setRegisters_spec r _ (entryRegisters_lt el2Tt) h).2]
  cases c <;> rfl

end Registers

/-! ## The statics and the registers -/

section Runs

variable {vms : List ℕ} {vm p : ℕ} {s s' s₀ : VmTraps} {l : List TrapStep}

theorem cp15Case_code (c : ControlRegister) :
    cp15Case c.code = .readWrite 0 (some c.reg) := by
  cases c <;> rfl

theorem code_inj {c d : ControlRegister} (h : c.code = d.code) : c = d := by
  cases c <;> cases d <;> first | rfl | exact absurd h (by decide)

theorem reg_inj {c d : ControlRegister} (h : c.reg = d.reg) : c = d := by
  cases c <;> cases d <;> first | rfl | exact absurd h (by decide)

theorem reg_lt (c : ControlRegister) : c.reg < vmRegisters := by cases c <;> decide

/-- A load gives the static and changes nothing. -/
theorem access_load (c : ControlRegister) (s : VmTraps) (r : Regs) {syndrome : ℕ} (rt : ℕ)
    (hcode : syndrome &&& 0xffc1e = c.code) (hread : syndrome.testBit 0 = true) :
    cp15Access vm s r syndrome rt = .done s (some (s.shadow c.code)) := by
  unfold cp15Access
  simp only [hcode, cp15Case_code, hread, if_true]

/-- A store goes to the static and to the register of the virtual machine. -/
theorem access_store (h : Reaches s.kernel vms vm p) (c : ControlRegister) (r : Regs)
    {syndrome : ℕ} (rt : ℕ) (hcode : syndrome &&& 0xffc1e = c.code)
    (hread : syndrome.testBit 0 = false) :
    ∃ k', cp15Access vm s r syndrome rt =
        .done ⟨k', Function.update s.shadow c.code rt⟩ none ∧
      Reaches k' vms vm p ∧ ∀ j, vmRegister k' p j =
        if j = c.reg then rt % 2 ^ 32 else vmRegister s.kernel p j := by
  rcases changeVm_spec (r := r) h (reg_lt c) rt 0 with ⟨k', hcall, hreach, _, _, hregs⟩
  refine ⟨k', ?_, hreach, ?_⟩
  · unfold cp15Access
    simp only [hcode, cp15Case_code, hread, Bool.false_eq_true, if_false]
    unfold VmTraps.setRegister setVmSystemRegister
    rw [hcall]
  · intro j
    rw [hregs j, changedWord_set]

/-- The statics start at 0, whatever `entry` has set, and follow the registers from the
first store on. -/
structure ShadowInv (vms : List ℕ) (vm p : ℕ) (l : List TrapStep) (s : VmTraps) : Prop where
  reaches : Reaches s.kernel vms vm p
  stored : ∀ c, StoredBefore c l → s.shadow c.code % 2 ^ 32 = vmRegister s.kernel p c.reg
  fresh : ∀ c, ¬ StoredBefore c l →
    s.shadow c.code = 0 ∧ vmRegister s.kernel p c.reg = c.initial

theorem storedBefore_concat {c : ControlRegister} {i : TrapStep} :
    StoredBefore c (l ++ [i]) ↔ StoredBefore c l ∨
      ∃ r syndrome rt, i = .trap c r syndrome rt ∧ syndrome.testBit 0 = false := by
  unfold StoredBefore
  constructor
  · rintro ⟨r, syndrome, rt, hmem, hread⟩
    rcases List.mem_append.1 hmem with hmem | hmem
    · exact .inl ⟨r, syndrome, rt, hmem, hread⟩
    · exact .inr ⟨r, syndrome, rt, (List.mem_singleton.1 hmem).symm, hread⟩
  · rintro (⟨r, syndrome, rt, hmem, hread⟩ | ⟨r, syndrome, rt, rfl, hread⟩)
    · exact ⟨r, syndrome, rt, List.mem_append_left _ hmem, hread⟩
    · exact ⟨r, syndrome, rt, List.mem_append_right _ (List.mem_singleton.2 rfl), hread⟩

theorem shadowInv_init (h : (cp15System vms vm p).init s) : ShadowInv vms vm p [] s := by
  rcases h with ⟨k, r, el2Tt, hreach, rfl⟩
  have hnone : ∀ c, ¬ StoredBefore c [] := by
    rintro c ⟨_, _, _, hmem, _⟩
    exact absurd hmem List.not_mem_nil
  have hset := (setRegisters_spec r _ (entryRegisters_lt el2Tt) hreach).1
  have hentry := entry_registers r el2Tt hreach
  -- only what `setRegisters` has been shown to do is used from here on
  generalize setRegisters r vm (entryRegisters el2Tt) k = k' at hset hentry ⊢
  refine ⟨hset, fun c hc => absurd hc (hnone c), fun c _ => ⟨?_, hentry c⟩⟩
  show (cp15Case c.code).initial = 0
  rw [cp15Case_code]
  rfl

/-- Whatever is no store to the register leaves it as it was. -/
theorem storedBefore_concat_of_not {c : ControlRegister} {i : TrapStep}
    (hi : ∀ r syndrome rt, i = .trap c r syndrome rt → syndrome.testBit 0 = true) :
    StoredBefore c (l ++ [i]) ↔ StoredBefore c l := by
  rw [storedBefore_concat]
  apply or_iff_left
  rintro ⟨r, syndrome, rt, heq, hstore⟩
  rw [hi r syndrome rt heq] at hstore
  cases hstore

/-- A step that stores to neither register and leaves both. -/
theorem ShadowInv.kept {i : TrapStep} (h : ShadowInv vms vm p l s)
    (hi : ∀ c r syndrome rt, i = .trap c r syndrome rt → syndrome.testBit 0 = true)
    (hreach : Reaches s'.kernel vms vm p)
    (hkept : ∀ c : ControlRegister,
      vmRegister s'.kernel p c.reg = vmRegister s.kernel p c.reg ∧
        s'.shadow c.code = s.shadow c.code) : ShadowInv vms vm p (l ++ [i]) s' := by
  have hsame : ∀ d, StoredBefore d (l ++ [i]) ↔ StoredBefore d l :=
    fun d => storedBefore_concat_of_not (hi d)
  refine ⟨hreach, ?_, ?_⟩
  · intro d hd
    rw [(hkept d).1, (hkept d).2]
    exact h.stored d ((hsame d).1 hd)
  · intro d hd
    rw [(hkept d).1, (hkept d).2]
    exact h.fresh d fun hold => hd ((hsame d).2 hold)

/-- A store brings the static and the register together, and leaves the other two. -/
theorem ShadowInv.store (h : ShadowInv vms vm p l s) {c : ControlRegister} {r : Regs}
    {syndrome rt : ℕ} (hread : syndrome.testBit 0 = false) {k' : Kernel}
    (hreach : Reaches k' vms vm p)
    (hregs : ∀ j, vmRegister k' p j = if j = c.reg then rt % 2 ^ 32 else vmRegister s.kernel p j) :
    ShadowInv vms vm p (l ++ [.trap c r syndrome rt])
      ⟨k', Function.update s.shadow c.code rt⟩ := by
  have hother : ∀ d, d ≠ c →
      (StoredBefore d (l ++ [.trap c r syndrome rt]) ↔ StoredBefore d l) ∧
      Function.update s.shadow c.code rt d.code = s.shadow d.code ∧
      vmRegister k' p d.reg = vmRegister s.kernel p d.reg := by
    intro d hd
    refine ⟨?_, ?_, ?_⟩
    · apply storedBefore_concat_of_not
      rintro _ _ _ heq
      cases heq
      exact absurd rfl hd
    · exact Function.update_of_ne (fun heq => hd (code_inj heq)) _ _
    · rw [hregs, if_neg fun heq => hd (reg_inj heq)]
  have hnow : StoredBefore c (l ++ [.trap c r syndrome rt]) :=
    storedBefore_concat.2 (.inr ⟨r, syndrome, rt, rfl, hread⟩)
  refine ⟨hreach, ?_, ?_⟩
  · intro d hd
    by_cases hdc : d = c
    · subst hdc
      show Function.update s.shadow d.code rt d.code % 2 ^ 32 = vmRegister k' p d.reg
      rw [Function.update_self, hregs, if_pos rfl]
    · rcases hother d hdc with ⟨hsame, hshadow, hreg⟩
      show Function.update s.shadow c.code rt d.code % 2 ^ 32 = vmRegister k' p d.reg
      rw [hshadow, hreg]
      exact h.stored d (hsame.1 hd)
  · -- the register that is stored to is not fresh any more
    intro d hd
    have hdc : d ≠ c := by
      rintro rfl
      exact hd hnow
    rcases hother d hdc with ⟨hsame, hshadow, hreg⟩
    have hold := h.fresh d fun hold => hd (hsame.2 hold)
    exact ⟨hshadow.trans hold.1, hreg.trans hold.2⟩

theorem shadowInv_step {i : TrapStep} (h : ShadowInv vms vm p l s)
    (hs : (cp15System vms vm p).step s i s') : ShadowInv vms vm p (l ++ [i]) s' := by
  cases i with
  | trap c r syndrome rt =>
    rcases hs with ⟨hcode, register, haccess⟩
    cases hread : syndrome.testBit 0 with
    | true =>
      -- a load: nothing is stored and nothing changes
      rw [access_load c s r rt hcode hread] at haccess
      cases haccess
      apply h.kept
      · intro d _ _ _ heq
        cases heq
        exact hread
      · exact h.reaches
      · exact fun d => ⟨rfl, rfl⟩
    | false =>
      rcases access_store h.reaches c r rt hcode hread with ⟨k', hdone, hreach, hregs⟩
      rw [hdone] at haccess
      cases haccess
      exact h.store hread hreach hregs
  | meanwhile =>
    rcases hs with ⟨hreach, hkept⟩
    apply h.kept
    · intro d _ _ _ heq
      cases heq
    · exact hreach
    · exact hkept

theorem shadowInv_run (hinit : (cp15System vms vm p).init s₀)
    (ht : (cp15System vms vm p).Trace s₀ l s) : ShadowInv vms vm p l s := by
  induction ht with
  | nil => exact shadowInv_init hinit
  | concat _ hs ih => exact shadowInv_step ih hs

/-- What a load is right about: the static. -/
theorem accessRight_load (c : ControlRegister) (r : Regs) {syndrome : ℕ} (rt : ℕ)
    (hcode : syndrome &&& 0xffc1e = c.code) (hread : syndrome.testBit 0 = true) :
    AccessRight vm p s c r syndrome rt ↔
      s.shadow c.code % 2 ^ 32 = vmRegister s.kernel p c.reg % 2 ^ 32 := by
  have hload : cp15Access vm s r syndrome rt = .done s (some (s.shadow c.code)) :=
    access_load c s r rt hcode hread
  unfold AccessRight
  rw [hload, hread]
  simp only [if_true]
  constructor
  · rintro ⟨_, _, heq, v, hv, hlow⟩
    cases heq
    cases hv
    exact hlow
  · intro hlow
    exact ⟨_, _, rfl, _, rfl, hlow⟩

/-- Before the first store the static is 0 and the register is not. -/
theorem ShadowInv.fresh_ne (h : ShadowInv vms vm p l s) {c : ControlRegister}
    (hc : ¬ StoredBefore c l) :
    s.shadow c.code % 2 ^ 32 ≠ vmRegister s.kernel p c.reg % 2 ^ 32 := by
  rw [(h.fresh c hc).1, (h.fresh c hc).2]
  cases c <;> decide

/-- After any accesses to the two registers a store does what it should, and so does a load
of a register that the guest has stored to; a load before that does not. -/
theorem cp15_right_iff (hinit : (cp15System vms vm p).init s₀)
    (ht : (cp15System vms vm p).Trace s₀ l s) (c : ControlRegister) (r : Regs)
    {syndrome : ℕ} (rt : ℕ) (hcode : syndrome &&& 0xffc1e = c.code) :
    AccessRight vm p s c r syndrome rt ↔
      (syndrome.testBit 0 = true → StoredBefore c l) := by
  have hinv := shadowInv_run hinit ht
  cases hread : syndrome.testBit 0 with
  | false =>
    -- a store is right in every state
    rcases access_store hinv.reaches c r rt hcode hread with ⟨k', hdone, _, hregs⟩
    refine iff_of_true ⟨_, _, hdone, ?_⟩ fun h => absurd h (by decide)
    rw [hread, if_neg (by decide)]
    show vmRegister k' p c.reg = rt % 2 ^ 32
    rw [hregs, if_pos rfl]
  | true =>
    rw [accessRight_load c r rt hcode hread]
    constructor
    · intro hlow _
      by_contra hnot
      exact hinv.fresh_ne hnot hlow
    · intro hstored
      have hsame := hinv.stored c (hstored rfl)
      rw [← hsame, Nat.mod_mod]

end Runs

/-- The state after `entry` of the thread that has made itself a partner. -/
def enteredVm : VmTraps where
  kernel := setRegisters vmCallRegs 0x1ffe00 (entryRegisters 0x4000000) vmKernel
  shadow := fun code => (cp15Case code).initial

theorem enteredVm_init :
    (cp15System [startAddress + 0x1ffb80] 0x1ffe00 (startAddress + 0x1ffb80)).init enteredVm :=
  ⟨vmKernel, vmCallRegs, 0x4000000, vmKernel_reaches, rfl⟩

/-- The first load of SCTLR gives 0; the virtual machine has 0xd50070. -/
theorem first_load_wrong :
    (cp15System [startAddress + 0x1ffb80] 0x1ffe00 (startAddress + 0x1ffb80)).init enteredVm ∧
    ¬ AccessRight 0x1ffe00 (startAddress + 0x1ffb80) enteredVm .sctlr vmCallRegs 0x401 0 := by
  refine ⟨enteredVm_init, ?_⟩
  have hnone : ¬ StoredBefore .sctlr [] := fun ⟨_, _, _, hmem, _⟩ => absurd hmem List.not_mem_nil
  rw [accessRight_load .sctlr vmCallRegs 0 rfl rfl]
  exact (shadowInv_init enteredVm_init).fresh_ne hnone

/-- A load after a store. -/
theorem cp15_right_iff_stored :
    ∃ s, (cp15System [startAddress + 0x1ffb80] 0x1ffe00 (startAddress + 0x1ffb80)).Trace enteredVm
        [.trap .sctlr vmCallRegs 0x400 0xc50079] s ∧
      AccessRight 0x1ffe00 (startAddress + 0x1ffb80) s .sctlr vmCallRegs 0x401 0 := by
  have hstore : 0x400 &&& 0xffc1e = ControlRegister.sctlr.code := rfl
  have hload : 0x401 &&& 0xffc1e = ControlRegister.sctlr.code := rfl
  rcases access_store (shadowInv_init enteredVm_init).reaches .sctlr vmCallRegs 0xc50079 hstore
    rfl with ⟨k', hdone, _, _⟩
  have ht : (cp15System [startAddress + 0x1ffb80] 0x1ffe00 (startAddress + 0x1ffb80)).Trace
      enteredVm ([] ++ [.trap .sctlr vmCallRegs 0x400 0xc50079]) _ :=
    .concat .nil ⟨rfl, none, hdone⟩
  refine ⟨_, ht, ?_⟩
  apply (cp15_right_iff enteredVm_init ht .sctlr vmCallRegs 0 hload).2
  exact fun _ => ⟨_, _, _, List.mem_singleton.2 rfl, rfl⟩

end Isambard.Driver
