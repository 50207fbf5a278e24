import Isambard.El1.KernelRuns

/-!
# El1.KernelLists — the lists of the threads in every run of a core

The properties of the lists in the orderly runs from boot, whatever the calls, the faults and the
interrupts are and in whatever order they come.

* `lists_kept`: every thread is in one list, and those that are in rings of their own are there
  for a reason, with the owners that the list macros expect or with the null owners that the boot
  leaves;
* `timeouts_listed`: the list of the threads with a timeout;
* `interrupt_thread_unlinked`: the interrupt thread while another one runs.
-/

namespace Isambard.El1

open Isambard.Lib

/-- The threads of `named` that have no owner yet have the runnable ones for it. -/
def Kernel.owned (k : Kernel) (named : List ℕ) : Kernel :=
  k.withCtx fun p w => if w = 2 ∧ p ∈ named ∧ k.ctx p 2 = 0 then runnableAddress k else k.ctx p w

/-- Core 0 enters its first thread. -/
def Launched (k : Kernel) : Prop := ∃ k₀ named, Started k₀ ∧ k = k₀.owned named

def listSystem : System Kernel Turn := (turnSystem Launched).restrict Orderly

/-- The thread of another core: the boot has put the drivers' threads in the ring with core 0's,
and those of the other cores in rings of their own. -/
def OtherCore (k₀ : Kernel) (p : ℕ) : Prop :=
  p ∈ k₀.contexts ∧ p ≠ k₀.runnable ∧ k₀.ctx p 0 = p

section Lists

variable {k₀ k k' : Kernel} {l : List Turn} {rs qs named : List ℕ} {rem : ℕ → ℕ} {p q w : ℕ}
  {O : ℕ → Prop}

/-! ## Owners -/

theorem owned_other (hw : w ≠ 2) : (k.owned named).ctx p w = k.ctx p w := if_neg fun h => hw h.1

theorem owned_list (k : Kernel) (named : List ℕ) (p : ℕ) :
    (k.owned named).ctx p 2 = k.ctx p 2 ∨
      k.ctx p 2 = 0 ∧ (k.owned named).ctx p 2 = runnableAddress k := by
  by_cases h : p ∈ named ∧ k.ctx p 2 = 0
  · exact .inr ⟨h.2, if_pos ⟨rfl, h⟩⟩
  · exact .inl (if_neg fun h' => h h'.2)

theorem runnable_ne_blocked (k : Kernel) : runnableAddress k ≠ k.layout.blocked := by
  have := layout_le k
  unfold runnableAddress
  omega

theorem owned_onLock : OnLock (k.owned named) p ↔ OnLock k p := by
  show (k.owned named).ctx p 2 = k.layout.blocked ↔ k.ctx p 2 = k.layout.blocked
  rcases owned_list k named p with h | ⟨h0, h⟩
  · rw [h]
  · rw [h, h0]
    exact ⟨fun heq => absurd heq (runnable_ne_blocked k),
      fun heq => absurd heq.symm (blocked_ne_zero k)⟩

theorem owned_ok (h : OwnerOk k (k.ctx p 2)) : OwnerOk k ((k.owned named).ctx p 2) := by
  rcases owned_list k named p with heq | ⟨-, heq⟩
  · rwa [heq]
  · exact .inr (.inl heq)

theorem owned_gate (h : GateInv k rs qs rem) : GateInv (k.owned named) rs qs rem :=
  ⟨h.placed.congr rfl rfl, fun p hp => owned_ok (h.owners p hp), h.ring, h.ringNodup, h.ringMem,
    h.awake, h.queue, h.queueNodup, h.waiting, h.queued, h.sums, h.first, h.bound, h.gates⟩

theorem owned_idle (h : Idle k rs p) : Idle (k.owned named) rs p :=
  ⟨h.out, fun hl => h.lock (owned_onLock.1 hl), h.gate⟩

/-- No other word has changed. -/
theorem owned_sched (h : SchedInv O k rs qs rem) : SchedInv O (k.owned named) rs qs rem := by
  refine ⟨owned_gate h.gate, h.heap.congr rfl rfl, ?_, ?_, ?_, ?_,
    fun p hp => ⟨(h.frames p hp).pointer, (h.frames p hp).limit⟩, ?_⟩
  · refine h.links.owned rfl rfl rfl ?_ (fun _ _ => owned_onLock)
      (fun p hp => owned_ok (h.links.running.owners p hp)) fun _ _ _ => rfl
    exact fun p _ w hw => owned_other (by omega)
  · exact fun p hp hw hl => h.waiting p hp hw (owned_onLock.1 hl)
  · intro p hp hne
    obtain ⟨hmem, hback, hpq, hidle⟩ := h.pairs p hp hne
    exact ⟨hmem, hback, hpq, hidle.imp owned_idle owned_idle⟩
  · intro hi
    obtain ⟨hmem, hruns, hpart⟩ := h.interrupt hi
    exact ⟨hmem, hruns.imp_right owned_idle, fun hne => owned_idle (hpart hne)⟩
  · exact fun p hp hid => h.idle p hp ⟨hid.out, fun hl => hid.lock (owned_onLock.2 hl), hid.gate⟩

theorem owned_inv (h : KernelInv O k) : KernelInv O (k.owned named) := by
  obtain ⟨rs, qs, rem, hs⟩ := h.sched
  have hworld : world (k.owned named) = world k :=
    world_congr rfl (fun _ _ => activity_congr fun w hw => owned_other (by omega)) rfl rfl
  refine ⟨⟨rs, qs, rem, owned_sched hs⟩, h.table.congr rfl rfl rfl, ?_, ?_⟩
  · rw [hworld]
    exact h.closed
  · have hmap : (k.owned named).currentMap k.runnable = k.currentMap k.runnable :=
      currentMap_congr h.mem h.mem rfl
    exact h.loaded.trans hmap.symm

/-- Of the threads in rings of their own none is for this core yet. -/
theorem start_inv (h : KernelInv (fun _ => True) k) : KernelInv (OtherCore k) k := by
  obtain ⟨⟨rs, qs, rem, hs⟩, htable, hclosed, hloaded⟩ := h
  refine ⟨⟨rs, qs, rem, { hs with idle := ?_ }⟩, htable, hclosed, hloaded⟩
  intro p hp hid
  exact .inl ⟨hp, hid.ne_runnable, (hs.links.alone p hp (.inr ⟨hid.out, hid.lock⟩)).1⟩

theorem lists_inv (h₀ : Launched k₀) (h : listSystem.Trace k₀ l k) :
    KernelInv (OtherCore k₀) k := by
  refine h.invariant (start_inv ?_) orderly_simulates.inv
  obtain ⟨k₁, named, h₁, rfl⟩ := h₀
  exact owned_inv h₁.inv

/-! ## The lists -/

/-- The threads in the ring of `p` wait for the same lock. -/
structure WaitRing (k : Kernel) (p : ℕ) (ws : List ℕ) : Prop where
  ring : Ring (nextOf k.ctx) (prevOf k.ctx) p ws
  nodup : (p :: ws).Nodup
  lock : ∀ q ∈ p :: ws, q ∈ k.contexts ∧ OnLock k q ∧ lockOf k.ctx q = lockOf k.ctx p

/-- The runnable threads are the running one and `rs`, and each of the others is in one list. In
a ring of its own is a thread that waits at its gate, the interrupt thread, one of a thread and
its partner, or another core's thread. -/
structure Listed (k₀ k : Kernel) (rs : List ℕ) : Prop where
  ring : Ring (nextOf k.ctx) (prevOf k.ctx) k.runnable rs
  nodup : (k.runnable :: rs).Nodup
  mem : ∀ p ∈ k.runnable :: rs, p ∈ k.contexts
  nonzero : k.runnable ≠ 0
  places : ∀ p ∈ k.contexts,
    p ∈ k.runnable :: rs ∧ ¬ OnLock k p ∨
    p ∉ k.runnable :: rs ∧ OnLock k p ∧ (∃ ws, WaitRing k p ws) ∨
    p ∉ k.runnable :: rs ∧ ¬ OnLock k p ∧ (k.ctx p 0 = p ∧ k.ctx p 1 = p) ∧
      (k.ctx p 38 = threadWaiting ∨ p = k.interruptThread ∨ k.ctx p 3 ≠ 0 ∨ OtherCore k₀ p)
  partners : ∀ p ∈ k.contexts, k.ctx p 3 ≠ 0 → k.ctx p 3 ∈ k.contexts ∧
    k.ctx (k.ctx p 3) 3 = p ∧ ¬ (p ∈ k.runnable :: rs ∧ k.ctx p 3 ∈ k.runnable :: rs)

theorem waiters (h : Links k rs 0) (hpl : Placed k) (hp : p ∈ k.contexts) (hl : OnLock k p) :
    ∃ ws, WaitRing k p ws := by
  have hlocks : ∀ q ∈ k.contexts, OnLock k q → LockRing k q := fun q => h.locks_zero hpl
  -- the links do not lead out of those that wait for the same lock
  set l := k.contexts.filter fun q => OnLock k q ∧ lockOf k.ctx q = lockOf k.ctx p with hdef
  have hmem : ∀ q, q ∈ l ↔ q ∈ k.contexts ∧ OnLock k q ∧ lockOf k.ctx q = lockOf k.ctx p := by
    intro q
    rw [hdef, List.mem_filter, decide_eq_true_eq]
  have hnext : ∀ q ∈ l, nextOf k.ctx q ∈ l := by
    intro q hq
    obtain ⟨hqm, hql, hsame⟩ := (hmem q).1 hq
    have hr := hlocks q hqm hql
    exact (hmem _).2 ⟨hr.ring.next, hr.next, hr.same.trans hsame⟩
  have hback : ∀ q ∈ l, prevOf k.ctx (nextOf k.ctx q) = q := by
    intro q hq
    obtain ⟨hqm, hql, -⟩ := (hmem q).1 hq
    exact (hlocks q hqm hql).ring.nextPrev
  obtain ⟨ws, hring, hnodup, hin⟩ := exists_ring hnext hback ((hmem p).2 ⟨hp, hl, rfl⟩)
  exact ⟨ws, hring, hnodup, fun q hq => (hmem q).1 (hin q hq)⟩

theorem listed (h : SchedInv (OtherCore k₀) k rs qs rem) : Listed k₀ k rs := by
  have hpl := h.gate.placed
  refine ⟨h.gate.ring, h.gate.ringNodup, h.gate.ringMem, hpl.ne_zero h.mem, ?_, ?_⟩
  · intro p hp
    by_cases hmem : p ∈ k.runnable :: rs
    · exact .inl ⟨hmem, h.links.free p hmem⟩
    · by_cases hl : OnLock k p
      · exact .inr (.inl ⟨hmem, hl, waiters h.links hpl hp hl⟩)
      · refine .inr (.inr ⟨hmem, hl, h.links.alone p hp (.inr ⟨hmem, hl⟩), ?_⟩)
        by_cases hw : k.ctx p 38 = threadWaiting
        · exact .inl hw
        · rcases h.idle p hp ⟨hmem, hl, hw⟩ with ho | hi | h3
          · exact .inr (.inr (.inr ho))
          · exact .inr (.inl hi)
          · exact .inr (.inr (.inl h3))
  · intro p hp hne
    obtain ⟨hmem, hback, -, hidle⟩ := h.pairs p hp hne
    refine ⟨hmem, hback, ?_⟩
    rintro ⟨hp', hq'⟩
    rcases hidle with hid | hid
    · exact hid.out hp'
    · exact hid.out hq'

/-- Every thread is in one list, and the kernel returns to the head of the runnable ones. -/
theorem lists_kept (h₀ : Launched k₀) (h : listSystem.Trace k₀ l k) :
    (∃ rs, Listed k₀ k rs) ∧ ∀ t k' now, Orderly k t → k.turn t = .ok k' now →
      (∃ rs, Listed k₀ k' rs) ∧ now = k'.runnable := by
  have hk := lists_inv h₀ h
  obtain ⟨rs, qs, rem, hs⟩ := hk.sched
  refine ⟨⟨rs, listed hs⟩, ?_⟩
  intro t k' now ht hok
  obtain ⟨hinv, -, now', hok', hrun⟩ := orderly_step hk ⟨ht, now, hok⟩
  rw [hok'] at hok
  obtain ⟨-, rfl⟩ := Outcome.ok.inj hok
  obtain ⟨rs', qs', rem', hs'⟩ := hinv.sched
  exact ⟨⟨rs', listed hs'⟩, hrun.symm⟩

/-- The threads of the start have their owner. -/
def ownedStart : Kernel := oneDriver.kernel.owned oneDriver.kernel.contexts
def nameTurn : Turn := svcTurn ownedStart [1] 0xf010
/-- The system's thread is the interrupt thread. -/
def listening : Kernel := (ownedStart.turn nameTurn).kernel
/-- An interrupt while the driver's thread runs. -/
def alarmed : Kernel := (listening.turn (irqTurn listening)).kernel
def dozeTurn : Turn := svcTurn alarmed [] 0xf008
/-- The interrupt thread has yielded. -/
def dozing : Kernel := (alarmed.turn dozeTurn).kernel
/-- Another interrupt. -/
def linkedTwice : Kernel := (dozing.turn (irqTurn dozing)).kernel

/-- Each thread in a list with others has the head of the list for its owner. -/
def OwnersNamed (k : Kernel) : Prop :=
  ∀ p ∈ k.contexts, k.ctx p 0 = p ∨ OnLock k p ∨ k.ctx p 2 = runnableAddress k

instance (k : Kernel) : Decidable (OwnersNamed k) :=
  inferInstanceAs (Decidable (∀ p ∈ k.contexts, _))

/-- A core whose owners are in order, whatever its threads ask for. -/
def ownedSystem : System Kernel Turn :=
  (turnSystem Launched).restrict fun k t => OwnersNamed k ∧ ∀ i, t.regs.x i < 2 ^ 64

structure DozeRun : Prop where
  register : orderlySystem.step ownedStart nameTurn listening
  irq : orderlySystem.step listening (irqTurn listening) alarmed
  doze : coreSystem.step alarmed dozeTurn dozing
  again : coreSystem.step dozing (irqTurn dozing) linkedTwice
  owners : OwnersNamed ownedStart ∧ OwnersNamed listening ∧ OwnersNamed alarmed ∧
    OwnersNamed dozing
  alone : linkedTwice.ctx linkedTwice.runnable 0 = linkedTwice.runnable
  driver : driverRuns.runnable ∈ linkedTwice.contexts ∧
    driverRuns.runnable ≠ linkedTwice.runnable ∧ ¬ OnLock linkedTwice driverRuns.runnable ∧
    linkedTwice.ctx driverRuns.runnable 0 ≠ driverRuns.runnable

theorem dozeRun : DozeRun where
  register := svcTurn_step (s := .systemRequest) rfl (by decide) (by decide +kernel)
    (systemRequest_ok (r := .setInterruptThread) (by decide +kernel)
      (by unfold RequestOk; decide +kernel))
    (by decide +kernel)
  irq := irqTurn_step (by decide +kernel) (by decide +kernel)
  doze := svcTurn_core (by decide) (by decide +kernel) (by decide +kernel)
  again := ⟨fun _ => Nat.two_pow_pos 64, _, Outcome.eq_ok_now (by decide +kernel)⟩
  owners := by decide +kernel
  alone := by decide +kernel
  driver := by decide +kernel

theorem ownedStart_launched : Launched ownedStart := ⟨_, _, oneDriver_started, rfl⟩

/-- An interrupt puts the interrupt thread at the head. -/
theorem lists_kept_alarmed : ∃ rs, Listed ownedStart alarmed rs := by
  have hrun : listSystem.Trace ownedStart [nameTurn] listening := .concat .nil dozeRun.register
  obtain ⟨horderly, now, hok⟩ := dozeRun.irq
  exact ((lists_kept ownedStart_launched hrun).2 _ _ now horderly hok).1

/-- The interrupt thread was in the ring with the driver's. -/
theorem linked_twice :
    ¬ ∀ k₀ l k, Launched k₀ → ownedSystem.Trace k₀ l k → ∃ rs, Listed k₀ k rs := by
  intro h
  obtain ⟨hstart, hlistening, halarmed, hdozing⟩ := dozeRun.owners
  have h₁ : ownedSystem.step ownedStart nameTurn listening :=
    ⟨⟨hstart, dozeRun.register.1.1⟩, dozeRun.register.2⟩
  have h₂ : ownedSystem.step listening (irqTurn listening) alarmed :=
    ⟨⟨hlistening, dozeRun.irq.1.1⟩, dozeRun.irq.2⟩
  have h₃ : ownedSystem.step alarmed dozeTurn dozing := ⟨⟨halarmed, dozeRun.doze.1⟩, dozeRun.doze.2⟩
  have h₄ : ownedSystem.step dozing (irqTurn dozing) linkedTwice :=
    ⟨⟨hdozing, dozeRun.again.1⟩, dozeRun.again.2⟩
  obtain ⟨rs, hlisted⟩ :=
    h _ _ _ ownedStart_launched (.concat (.concat (.concat (.concat .nil h₁) h₂) h₃) h₄)
  have hrs : rs = [] := by
    cases rs with
    | nil => rfl
    | cons x rs =>
      have hx : linkedTwice.ctx linkedTwice.runnable 0 = x :=
        (List.isChain_cons_cons.1 hlisted.ring).1.1
      have hnd := (List.nodup_cons.1 hlisted.nodup).1
      rw [← hx, dozeRun.alone] at hnd
      exact absurd List.mem_cons_self hnd
  obtain ⟨hmem, hne, hlock, hnext⟩ := dozeRun.driver
  rcases hlisted.places _ hmem with ⟨hin, -⟩ | ⟨-, hl, -⟩ | ⟨-, -, ⟨halone, -⟩, -⟩
  · rw [hrs] at hin
    exact hne (List.mem_singleton.1 hin)
  · exact hlock hl
  · exact hnext halone

/-! ## The threads with a timeout -/

/-- The list of the threads with a timeout: they wait at their gates, in rings of their own, and
what is left for each of them, the sum of the differences up to it, fits a word. A thread that
waits and is not in the list waits for a wake only. -/
theorem timeouts_listed (h : orderlySystem.Reachable k) :
    ∃ qs rem, (∃ a, QSeg k qs a 0) ∧ qs.Nodup ∧ Sums (fun p => k.ctx p 5) rem 0 qs ∧
      (∀ p ∈ qs.head?, 0 < k.ctx p 5) ∧ (∀ p ∈ qs, p ∈ k.contexts ∧ rem p < 2 ^ 64 ∧
        k.ctx p 38 = threadWaiting ∧ k.ctx p 0 = p ∧ k.ctx p 1 = p ∧ p ≠ k.runnable) ∧
      ∀ p ∈ k.contexts, k.ctx p 38 = threadWaiting → p ∈ qs ∨ k.ctx p 20 = 0 := by
  obtain ⟨rs, qs, rem, hs⟩ := (reachable_inv h).sched
  refine ⟨qs, rem, hs.gate.queue, hs.gate.queueNodup, hs.gate.sums, hs.gate.first, ?_,
    hs.gate.queued⟩
  intro p hp
  obtain ⟨hmem, hw⟩ := hs.gate.waiting p hp
  have hring := hs.gate.notMem_ring hw
  obtain ⟨hnext, hprev⟩ := hs.links.alone p hmem (.inr ⟨hring, hs.waiting p hmem hw⟩)
  exact ⟨hmem, hs.gate.bound p hp, hw, hnext, hprev,
    fun heq => hring (heq ▸ List.mem_cons_self)⟩

/-- The driver's thread has a timeout. -/
theorem timeouts_listed_asleep : ∃ qs rem, (∃ a, QSeg asleep qs a 0) ∧ qs.Nodup ∧
    Sums (fun p => asleep.ctx p 5) rem 0 qs ∧ driverRuns.runnable ∈ qs := by
  have hreach : orderlySystem.Reachable asleep :=
    .step (.step (.init oneDriver_started) driverRun.toDriver) otherRuns.sleep
  obtain ⟨hmem, hwaits, hqueued⟩ := otherRuns.waits
  obtain ⟨qs, rem, hq, hnd, hsums, -, -, hlisted⟩ := timeouts_listed hreach
  exact ⟨qs, rem, hq, hnd, hsums, (hlisted _ hmem hwaits).resolve_right hqueued⟩

/-! ## The interrupt thread -/

/-- In no list that others are in. -/
structure Unlinked (k : Kernel) (p : ℕ) : Prop where
  runs : ∃ rs, Ring (nextOf k.ctx) (prevOf k.ctx) k.runnable rs ∧ p ∉ k.runnable :: rs
  lock : ¬ OnLock k p
  alone : k.ctx p 0 = p ∧ k.ctx p 1 = p

/-- The interrupt thread runs with interrupts off. When another thread runs, an interrupt puts a
thread at the head of the runnable ones that is in no list. -/
theorem interrupt_thread_unlinked (h : orderlySystem.Reachable k) (hi : k.interruptThread ≠ 0)
    (hne : k.runnable ≠ k.interruptThread) :
    k.interruptThread ∈ k.contexts ∧ Unlinked k k.interruptThread := by
  obtain ⟨rs, qs, rem, hs⟩ := (reachable_inv h).sched
  obtain ⟨hmem, hruns, -⟩ := hs.interrupt hi
  have hidle := hruns.resolve_left hne
  exact ⟨hmem, ⟨rs, hs.gate.ring, hidle.out⟩, hidle.lock,
    hs.links.alone _ hmem (.inr ⟨hidle.out, hidle.lock⟩)⟩

/-- An interrupt while the driver's thread runs. -/
def onInterrupt : Kernel := (registered.turn (irqTurn registered)).kernel
def serveTurn : Turn := svcTurn onInterrupt [1] 0xf010
/-- The interrupt thread waits for the next one. -/
def served : Kernel := (onInterrupt.turn serveTurn).kernel
def giveWayTurn : Turn := svcTurn onInterrupt [] 0xf008
/-- The interrupt thread has yielded. -/
def gaveWay : Kernel := (onInterrupt.turn giveWayTurn).kernel

structure InterruptRun : Prop where
  irq : orderlySystem.step registered (irqTurn registered) onInterrupt
  serve : orderlySystem.step onInterrupt serveTurn served
  giveWay : coreSystem.step onInterrupt giveWayTurn gaveWay
  others : served.interruptThread ≠ 0 ∧ served.runnable ≠ served.interruptThread ∧
    gaveWay.interruptThread ≠ 0 ∧ gaveWay.runnable ≠ gaveWay.interruptThread
  linked : gaveWay.ctx gaveWay.interruptThread 0 ≠ gaveWay.interruptThread

theorem interruptRun : InterruptRun where
  irq := irqTurn_step (by decide +kernel) (by decide +kernel)
  serve := svcTurn_step (s := .systemRequest) rfl (by decide) (by decide +kernel)
    (systemRequest_ok (r := .setInterruptThread) (by decide +kernel)
      (by unfold RequestOk; decide +kernel))
    (by decide +kernel)
  giveWay := svcTurn_core (by decide) (by decide +kernel) (by decide +kernel)
  others := by decide +kernel
  linked := by decide +kernel

theorem onInterrupt_reachable : orderlySystem.Reachable onInterrupt :=
  .step (.step (.init oneDriver_started) otherRuns.register) interruptRun.irq

/-- The driver's thread runs again. -/
theorem interrupt_thread_unlinked_served : Unlinked served served.interruptThread :=
  (interrupt_thread_unlinked (.step onInterrupt_reachable interruptRun.serve)
    interruptRun.others.1 interruptRun.others.2.1).2

/-- The interrupt thread stays runnable when it yields. -/
theorem interrupt_thread_yields : ¬ ∀ k, coreSystem.Reachable k → k.interruptThread ≠ 0 →
    k.runnable ≠ k.interruptThread → Unlinked k k.interruptThread := by
  intro h
  obtain ⟨-, -, hi, hne⟩ := interruptRun.others
  have hreach : coreSystem.Reachable gaveWay :=
    .step (orderly_core onInterrupt_reachable) interruptRun.giveWay
  exact interruptRun.linked (h gaveWay hreach hi hne).alone.1

end Lists
end Isambard.El1
