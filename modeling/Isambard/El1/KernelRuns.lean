import Isambard.El1.KernelSteps
import Isambard.El1.KernelStart

/-!
# El1.KernelRuns — the runs of a core

A core runs from boot for as long as its threads enter the kernel and are left for again. Between
two steps a thread may have done anything at EL0: with the memory of the maps, with its registers
and with its stack. What it asks the kernel for is in order.

* `turnSystem`, `coreSystem`, `orderlySystem`: the runs;
* `orderly_simulates`: they are runs of threads between protection domains.
-/

namespace Isambard.El1

open Isambard.Lib

/-- What a thread has done when it enters the kernel: the memory of the maps and the stack pointer
are as it has left them. -/
structure Turn where
  user : ℕ → ℕ → ℕ
  spEl0 : ℕ
  regs : Regs
  event : Event

/-- The kernel when the running thread enters it. -/
def Kernel.afterEl0 (k : Kernel) (t : Turn) : Kernel := { k with user := t.user, spEl0 := t.spEl0 }

/-- What the handler of the event is called with. -/
def Kernel.entered (k : Kernel) (t : Turn) : Kernel := enter (k.afterEl0 t) k.runnable t.regs

/-- The running thread enters the kernel, and the kernel leaves again. -/
def Kernel.turn (k : Kernel) (t : Turn) : Outcome ℕ := kernelStep (k.afterEl0 t) t.regs t.event

def turnSystem (start : Kernel → Prop) : System Kernel Turn where
  init := start
  step k t k' := ∃ now, k.turn t = .ok k' now

/-- The registers have 64 bits, and what the thread asks for is in order. -/
def Orderly (k : Kernel) (t : Turn) : Prop :=
  (∀ i, t.regs.x i < 2 ^ 64) ∧ EventOk (k.entered t) t.event

/-- Core 0 enters its first thread, whatever the cores and the drivers are. -/
def Started (k : Kernel) : Prop := ∃ k₀ present ffp drivers, FreshKernel k₀ present ∧
  enterSecureEl1Himem k₀ present ffp drivers = .ok k ()

/-- A core from boot on, whatever its threads ask for. -/
def coreSystem : System Kernel Turn :=
  (turnSystem Started).restrict fun _ t => ∀ i, t.regs.x i < 2 ^ 64

def orderlySystem : System Kernel Turn := (turnSystem Started).restrict Orderly

def turnAction (k : Kernel) (t : Turn) (k' : Kernel) : KernelAction :=
  eventAction (k.entered t) k' t.event

/-- The domains from boot on. -/
def domainSystem : System KernelWorld KernelAction :=
  Domains.system IsExit fun w => ∃ k, Started k ∧ w = world k

section Runs

variable {k k' k₀ : Kernel} {t : Turn} {l : List Turn} {p : ℕ} {O : ℕ → Prop}

/-! ## Runs and invariants -/

theorem Started.inv (h : Started k) : KernelInv (fun _ => True) k := by
  obtain ⟨_, _, _, _, hfresh, hok⟩ := h
  exact (enterSecureEl1Himem_inv hfresh hok).1

/-- A thread that has not called has the frame that leads out of its map to the system's. -/
theorem Started.frames (h : Started k) (hp : p ∈ k.contexts) :
    frames k.ctx p = [frameAt k.ctx p 5] ∧ IsExit (frameAt k.ctx p 5) := by
  obtain ⟨_, _, _, _, hfresh, hok⟩ := h
  obtain ⟨hsp, hexit, hmap⟩ := (enterSecureEl1Himem_inv hfresh hok).2.2 p hp
  exact ⟨frames_new hsp, hmap, hexit⟩

/-- Nothing but maps is named. -/
theorem Started.closed (h : Started k) : Domains.Closed (IsMapIndex k) (world k) := by
  obtain ⟨_, _, _, _, hfresh, hok⟩ := h
  exact (enterSecureEl1Himem_inv hfresh hok).2.1

theorem afterEl0_quiet (k : Kernel) (t : Turn) : Quiet k (k.afterEl0 t) :=
  .memory k k.l1 k.l2 k.l3 t.user k.mem k.sharedSystemMap k.sharedSystemMapMappedPages t.spEl0

theorem entered_quiet (h : KernelInv O k) (t : Turn) : Quiet k (k.entered t) :=
  (afterEl0_quiet k t).trans (enter_quiet ((afterEl0_quiet k t).inv h rfl) t.regs)

theorem orderly_step (h : KernelInv O k) (hs : orderlySystem.step k t k') :
    KernelInv O k' ∧ domainSystem.step (world k) (turnAction k t k') (world k') ∧
      ∃ now, k.turn t = .ok k' now ∧ k'.runnable = now := by
  obtain ⟨⟨hregs, hevent⟩, now, hok⟩ := hs
  have hquiet := afterEl0_quiet k t
  obtain ⟨hinv, hrun, hstep⟩ := kernelStep_inv (hquiet.inv h rfl) hregs hevent hok
  refine ⟨hinv, ?_, now, hok, hrun⟩
  rw [← hquiet.domains.world]
  exact hstep

/-- The kernel's threads move between its maps as the rules of the domains say. -/
theorem orderly_simulates : Simulates orderlySystem domainSystem world turnAction (KernelInv O) :=
  ⟨fun _ _ _ h hs => (orderly_step h hs).1, fun _ _ _ h hs => (orderly_step h hs).2.1⟩

theorem orderly_core (h : orderlySystem.Reachable k) : coreSystem.Reachable k := by
  induction h with
  | init h => exact .init h
  | step _ hs ih => exact .step ih ⟨hs.1.1, hs.2⟩

theorem reachable_inv (h : orderlySystem.Reachable k) : KernelInv (fun _ => True) k :=
  h.invariant (fun _ hs => Started.inv hs) orderly_simulates.inv

end Runs

/-! ## A driver that is called

The driver's thread gives the system an interface; the system's thread calls the driver through
it, and the driver's thread runs before it returns. -/

section Example

variable {k : Kernel} {xs : List ℕ} {number : ℕ} {s : Svc}

/-- A supervisor call with the registers `xs`; the veneer has put the code of the thread into
`x18`. -/
def svcTurn (k : Kernel) (xs : List ℕ) (number : ℕ) : Turn :=
  ⟨k.user, 0x8000, ⟨fun i => if i = 18 then threadCode k.runnable else xs.getD i 0, 0x100, 0⟩,
    .svc number⟩

theorem svcTurn_lt (hx : ∀ x ∈ xs, x < 2 ^ 64) (hc : threadCode k.runnable < 2 ^ 64) (i : ℕ) :
    (svcTurn k xs number).regs.x i < 2 ^ 64 := by
  show (if i = 18 then threadCode k.runnable else xs.getD i 0) < 2 ^ 64
  split
  · exact hc
  · rw [List.getD_eq_getElem?_getD]
    by_cases hi : i < xs.length
    · rw [List.getElem?_eq_getElem hi]
      exact hx _ (List.getElem_mem hi)
    · rw [List.getElem?_eq_none (by omega)]
      decide

theorem svcTurn_step (hn : Svc.ofNumber number = some s) (hx : ∀ x ∈ xs, x < 2 ^ 64)
    (hc : threadCode k.runnable < 2 ^ 64) (hs : SvcOk (k.entered (svcTurn k xs number)) s)
    (hok : (k.turn (svcTurn k xs number)).isOk = true) :
    orderlySystem.step k (svcTurn k xs number) (k.turn (svcTurn k xs number)).kernel := by
  refine ⟨⟨svcTurn_lt hx hc, ?_⟩, _, Outcome.eq_ok_now hok⟩
  intro s' hs'
  rw [hn] at hs'
  cases hs'
  exact hs

/-- Whether it is in order or not. -/
theorem svcTurn_core (hx : ∀ x ∈ xs, x < 2 ^ 64) (hc : threadCode k.runnable < 2 ^ 64)
    (hok : (k.turn (svcTurn k xs number)).isOk = true) :
    coreSystem.step k (svcTurn k xs number) (k.turn (svcTurn k xs number)).kernel :=
  ⟨svcTurn_lt hx hc, _, Outcome.eq_ok_now hok⟩

theorem systemRequest_ok {r : Request} (hr : Request.ofCode (k.ctx k.runnable 4) = some r)
    (h : RequestOk k r) : SvcOk k .systemRequest := by
  intro r' hr'
  rw [hr] at hr'
  cases hr'
  exact h

/-- An interrupt. -/
def irqTurn (k : Kernel) : Turn := ⟨k.user, 0x8000, ⟨fun _ => 0, 0x100, 0⟩, .irq⟩

theorem irqTurn_step (hne : k.runnable ≠ k.interruptThread)
    (hok : (k.turn (irqTurn k)).isOk = true) :
    orderlySystem.step k (irqTurn k) (k.turn (irqTurn k)).kernel :=
  ⟨⟨fun _ => Nat.two_pow_pos 64, hne⟩, _, Outcome.eq_ok_now hok⟩

/-- What `map_initial_storage` has left. -/
def emptyStorage : Storage := ⟨fun _ => 0, 0, 0, numberOfSpecialInterfaces, 0, fun _ => none⟩

theorem boot_fresh : FreshKernel Kernel.boot 1 := by
  have hlink : ∀ e, linkSlots (emptyStorage.lastInterface + 1)
      (tableSize - (emptyStorage.lastInterface + 1)) emptyStorage.slots e =
        if 3 ≤ e ∧ e < tableSize then some (freeSlot (e + 1)) else none := linkSlots_eq _ _ _
  refine ⟨boot_beforeBoot, rfl, rfl, rfl, emptyStorage, rfl, rfl, rfl, ?_⟩
  intro e i hi
  change Function.update (linkSlots _ _ _) (tableSize - 1) _ e = some i at hi
  show (if e = 0 then _ else _ : Interface) = i
  by_cases hend : e = tableSize - 1
  · rw [hend, Function.update_self, hlink, if_pos (by decide)] at hi
    obtain rfl := Option.some.inj hi
    rw [hend]
    rfl
  · rw [Function.update_of_ne hend, hlink] at hi
    split at hi
    · obtain rfl := Option.some.inj hi
      rw [if_neg (by omega), if_pos (by omega)]
      rfl
    · cases hi

theorem oneDriver_started : Started oneDriver.kernel :=
  ⟨Kernel.boot, 1, 0x400000, [⟨0x80000, 0x90000, 8, 8⟩], boot_fresh, oneDriver_ok⟩

def driverTurn : Turn := svcTurn oneDriver.kernel [] 0xf008
/-- The driver's thread runs. -/
def driverRuns : Kernel := (oneDriver.kernel.turn driverTurn).kernel
def giveTurn : Turn := svcTurn driverRuns [3, 0x400, 7] 0xf005
/-- The system has an interface to the driver, in slot 6. -/
def given : Kernel := (driverRuns.turn giveTurn).kernel
def systemTurn : Turn := svcTurn given [] 0xf008
def systemRuns : Kernel := (given.turn systemTurn).kernel
def callTurn : Turn := svcTurn systemRuns [6, 1, 2] 0xf009
/-- The system's thread is in the driver's map. -/
def called : Kernel := (systemRuns.turn callTurn).kernel
def waitTurn : Turn := svcTurn called [] 0xf008
def interrupted : Kernel := (called.turn waitTurn).kernel
def resumeTurn : Turn := svcTurn interrupted [] 0xf008
def resumed : Kernel := (interrupted.turn resumeTurn).kernel
def returnTurn : Turn := svcTurn resumed [] 0xf00a
def broughtBack : Kernel := (resumed.turn returnTurn).kernel

/-- The steps of the run. -/
structure DriverRun : Prop where
  toDriver : orderlySystem.step oneDriver.kernel driverTurn driverRuns
  give : orderlySystem.step driverRuns giveTurn given
  toSystem : orderlySystem.step given systemTurn systemRuns
  call : orderlySystem.step systemRuns callTurn called
  away : orderlySystem.step called waitTurn interrupted
  back : orderlySystem.step interrupted resumeTurn resumed
  ret : orderlySystem.step resumed returnTurn broughtBack
  slot : IsSlot given 6
  deeper : depth called.ctx systemRuns.runnable ≠ depth systemRuns.ctx systemRuns.runnable
  runs : called.runnable = systemRuns.runnable ∧ resumed.runnable = systemRuns.runnable ∧
    interrupted.runnable ≠ called.runnable ∧ called.runnable ∈ interrupted.contexts
  depths : depth interrupted.ctx systemRuns.runnable = depth called.ctx systemRuns.runnable ∧
    depth resumed.ctx systemRuns.runnable = depth called.ctx systemRuns.runnable

theorem driverRun : DriverRun where
  toDriver := svcTurn_step (s := .yield) rfl (by decide) (by decide +kernel)
    (by unfold SvcOk NoInterrupt; decide +kernel) (by decide +kernel)
  give := svcTurn_step (s := .interfaceToPass) rfl (by decide) (by decide +kernel)
    (by unfold SvcOk InTable; decide +kernel) (by decide +kernel)
  toSystem := svcTurn_step (s := .yield) rfl (by decide) (by decide +kernel)
    (by unfold SvcOk NoInterrupt; decide +kernel) (by decide +kernel)
  call := svcTurn_step (s := .call) rfl (by decide) (by decide +kernel)
    (by unfold SvcOk InTable; decide +kernel) (by decide +kernel)
  away := svcTurn_step (s := .yield) rfl (by decide) (by decide +kernel)
    (by unfold SvcOk NoInterrupt; decide +kernel) (by decide +kernel)
  back := svcTurn_step (s := .yield) rfl (by decide) (by decide +kernel)
    (by unfold SvcOk NoInterrupt; decide +kernel) (by decide +kernel)
  ret := svcTurn_step (s := .ret) rfl (by decide) (by decide +kernel)
    (by unfold SvcOk HasFrame; decide +kernel) (by decide +kernel)
  slot := by decide +kernel
  deeper := by decide +kernel
  runs := by decide +kernel
  depths := by decide +kernel

theorem systemRuns_reachable : orderlySystem.Reachable systemRuns :=
  .step (.step (.step (.init oneDriver_started) driverRun.toDriver) driverRun.give)
    driverRun.toSystem

theorem called_trace : orderlySystem.Trace oneDriver.kernel
    [driverTurn, giveTurn, systemTurn, callTurn] called :=
  .concat (l := [driverTurn, giveTurn, systemTurn]) (.concat (l := [driverTurn, giveTurn])
    (.concat (l := [driverTurn]) (.concat (l := []) .nil driverRun.toDriver) driverRun.give)
    driverRun.toSystem) driverRun.call

theorem called_reachable : orderlySystem.Reachable called :=
  .step systemRuns_reachable driverRun.call

/-! ### Other calls at boot -/

/-- The driver's thread waits for a wake, for 100 ticks at most. -/
def sleepTurn : Turn := svcTurn driverRuns [0, 100] 0xf001
def asleep : Kernel := (driverRuns.turn sleepTurn).kernel
/-- The system's thread has a partner made. -/
def pairTurn : Turn := svcTurn oneDriver.kernel [16] 0xf010
def paired : Kernel := (oneDriver.kernel.turn pairTurn).kernel
/-- The system's thread becomes the interrupt thread. -/
def registerTurn : Turn := svcTurn oneDriver.kernel [1] 0xf010
def registered : Kernel := (oneDriver.kernel.turn registerTurn).kernel

structure OtherRuns : Prop where
  sleep : orderlySystem.step driverRuns sleepTurn asleep
  pair : orderlySystem.step oneDriver.kernel pairTurn paired
  register : orderlySystem.step oneDriver.kernel registerTurn registered
  waits : driverRuns.runnable ∈ asleep.contexts ∧
    asleep.ctx driverRuns.runnable 38 = threadWaiting ∧ asleep.ctx driverRuns.runnable 20 ≠ 0
  partner : paired.ctx paired.runnable 3 ≠ 0
  interrupt : registered.interruptThread ≠ 0 ∧ registered.interruptThread ≠ registered.runnable

theorem otherRuns : OtherRuns where
  sleep := svcTurn_step (s := .gate) rfl (by decide) (by decide +kernel)
    ⟨fun h => absurd h (by decide +kernel), fun _ _ => by unfold NotAlone; decide +kernel⟩
    (by decide +kernel)
  pair := svcTurn_step (s := .systemRequest) rfl (by decide) (by decide +kernel)
    (systemRequest_ok (r := .makePartner) (by decide +kernel) (by unfold RequestOk; decide +kernel))
    (by decide +kernel)
  register := svcTurn_step (s := .systemRequest) rfl (by decide) (by decide +kernel)
    (systemRequest_ok (r := .setInterruptThread) (by decide +kernel)
      (by unfold RequestOk; decide +kernel))
    (by decide +kernel)
  waits := by decide +kernel
  partner := by decide +kernel
  interrupt := by decide +kernel

end Example

end Isambard.El1
