import Isambard.Lib.Runs
import Mathlib.Data.BitVec
import Mathlib.Data.List.Chain

/-!
# Driver.VmIrqs — the interrupt controller that a virtual machine sees

`update_virtual_irq`, `trigger_irq`, `clear_irq`, `irq_pending` and
`bcm_2835_irq_registers_access`, which are the same in `drivers/riscos.c` and
`drivers/arm11vm.c`. Threads of the driver change the pending words, the guest's loads and
stores read all words and change the enabling ones, and each of them holds `irq_lock`.

* `irqSystem`: operations of any number of threads, in the steps they take with the lock;
* `irq_line_follows`: the line of the virtual machine is what the words say, and its
  changes alternate;
* `summary_iff`: when the basic pending register agrees with the other two.
-/

namespace Isambard.Driver

open Isambard.Lib

/-! ## Words -/

/-- `irq_details`. -/
structure IrqDetails where
  irqBasicPending : BitVec 32
  irqPending1 : BitVec 32
  irqPending2 : BitVec 32
  fiqControl : BitVec 32
  enabledIrqs1 : BitVec 32
  enabledIrqs2 : BitVec 32
  enabledBasicIrqs : BitVec 32

/-- `irq_now` of `update_virtual_irq`. -/
def IrqDetails.irqNow (d : IrqDetails) : Bool :=
  decide (d.irqPending1 &&& d.enabledIrqs1 ≠ 0)
    || decide (d.irqPending2 &&& d.enabledIrqs2 ≠ 0)
    || decide (d.irqBasicPending &&& d.enabledBasicIrqs ≠ 0)

/-- What `trigger_irq( n )` does to the words. -/
def triggerIrq (n : ℕ) (d : IrqDetails) : IrqDetails :=
  if n < 32 then { d with irqPending1 := d.irqPending1 ||| (1#32 <<< n) }
  else if n < 64 then { d with irqPending2 := d.irqPending2 ||| (1#32 <<< (n - 32)) }
  else if n < 72 then { d with irqBasicPending := d.irqBasicPending ||| (1#32 <<< (n - 64)) }
  else d

/-- What `clear_irq( n )` does to them. -/
def clearIrq (n : ℕ) (d : IrqDetails) : IrqDetails :=
  if n < 32 then { d with irqPending1 := d.irqPending1 &&& ~~~ (1#32 <<< n) }
  else if n < 64 then { d with irqPending2 := d.irqPending2 &&& ~~~ (1#32 <<< (n - 32)) }
  else if n < 72 then
    { d with irqBasicPending := d.irqBasicPending &&& ~~~ (1#32 <<< (n - 64)) }
  else d

/-- `irq_pending( n )`: pending and enabled. -/
def irqPending (n : ℕ) (d : IrqDetails) : Bool :=
  if n < 32 then decide (0 ≠ d.irqPending1 &&& d.enabledIrqs1 &&& (1#32 <<< n))
  else if n < 64 then decide (0 ≠ d.irqPending2 &&& d.enabledIrqs2 &&& (1#32 <<< (n - 32)))
  else if n < 72 then
    decide (0 ≠ d.irqBasicPending &&& d.enabledBasicIrqs &&& (1#32 <<< (n - 64)))
  else false

/-- `if (c) pending |= (1 << k)`. -/
def orBit (c : Bool) (k : ℕ) (pending : BitVec 32) : BitVec 32 :=
  if c then pending ||| (1#32 <<< k) else pending

/-- The value of a load at 0x200. In the last two lines `!=` binds before `&`. -/
def basicPending (d : IrqDetails) : BitVec 32 :=
  let pending := d.irqBasicPending &&& d.enabledBasicIrqs &&& 0xff
  let pending := orBit (irqPending 62 d) 20 pending
  let pending := orBit (irqPending 57 d) 19 pending
  let pending := orBit (irqPending 56 d) 18 pending
  let pending := orBit (irqPending 55 d) 17 pending
  let pending := orBit (irqPending 54 d) 16 pending
  let pending := orBit (irqPending 53 d) 15 pending
  let pending := orBit (irqPending 19 d) 14 pending
  let pending := orBit (irqPending 18 d) 13 pending
  let pending := orBit (irqPending 10 d) 12 pending
  let pending := orBit (irqPending 9 d) 11 pending
  let pending := orBit (irqPending 7 d) 10 pending
  let pending :=
    orBit (d.irqPending1 &&& (if d.enabledIrqs1 ≠ 0 then 1 else 0) ≠ 0) 9 pending
  orBit (d.irqPending2 &&& (if d.enabledIrqs2 ≠ 0 then 1 else 0) ≠ 0) 8 pending

/-- How the `switch` of an access ends: with the words and, after a load, the guest's
register; or in a breakpoint, which stops the machine. -/
inductive IrqAccess where
  | done (d : IrqDetails) (register : Option (BitVec 64))
  | brk (d : IrqDetails)

/-- A register that a store changes and a load reads. -/
def wordAccess (isWrite : Bool) (stored : IrqDetails) (word : BitVec 32) (d : IrqDetails) :
    IrqAccess :=
  if isWrite then .done stored none else .done d (some (word.setWidth 64))

/-- The `switch` of `bcm_2835_irq_registers_access`; `register` is the guest's register. -/
def irqRegistersAccess (isWrite : Bool) (register : BitVec 64) (offset : ℕ) (d : IrqDetails) :
    IrqAccess :=
  let value := register.setWidth 32
  match offset with
  | 0x200 => wordAccess isWrite d (basicPending d) d
  | 0x204 => wordAccess isWrite d (d.irqPending1 &&& d.enabledIrqs1) d
  | 0x208 => wordAccess isWrite d (d.irqPending2 &&& d.enabledIrqs2) d
  | 0x20c =>
    if isWrite then .brk { d with fiqControl := value }
    else .done d (some (d.fiqControl.setWidth 64))
  | 0x210 => wordAccess isWrite { d with enabledIrqs1 := d.enabledIrqs1 ||| value }
      d.enabledIrqs1 d
  | 0x214 => wordAccess isWrite { d with enabledIrqs2 := d.enabledIrqs2 ||| value }
      d.enabledIrqs2 d
  | 0x218 => wordAccess isWrite { d with enabledBasicIrqs := d.enabledBasicIrqs ||| value }
      d.enabledBasicIrqs d
  | 0x21c => wordAccess isWrite { d with enabledIrqs1 := d.enabledIrqs1 &&& ~~~ value }
      d.enabledIrqs1 d
  | 0x220 => wordAccess isWrite { d with enabledIrqs2 := d.enabledIrqs2 &&& ~~~ value }
      d.enabledIrqs2 d
  | 0x224 => wordAccess isWrite { d with enabledBasicIrqs := d.enabledBasicIrqs &&& ~~~ value }
      d.enabledBasicIrqs d
  | _ => .brk d

/-! ## Operations under the lock -/

/-- What is asked of the kernel: `svc 8` and `svc 9`. -/
inductive LineEvent where
  | raise
  | lower
deriving DecidableEq

/-- A call of one of the three functions that take `irq_lock`. -/
inductive IrqOp where
  | trigger (n : ℕ)
  | clear (n : ℕ)
  | access (isWrite : Bool) (register : BitVec 64) (offset : ℕ)

/-- `irq_lock`, and how far the thread that holds it has come. -/
inductive IrqLock where
  | free
  | claimed (op : IrqOp)
  /-- The words are changed; whether `update_virtual_irq` is to be called. -/
  | changed (update : Bool)
  /-- All but `release_lock` is done. -/
  | updated
  /-- A breakpoint has stopped the machine. -/
  | stopped

structure VmIrqs where
  details : IrqDetails
  irqActive : Bool
  irqLock : IrqLock
  /-- The calls of the kernel so far, in order. -/
  events : List LineEvent

def updateVirtualIrq (s : VmIrqs) : VmIrqs :=
  let irqNow := s.details.irqNow
  let events :=
    if irqNow && !s.irqActive then s.events ++ [.raise]
    else if !irqNow && s.irqActive then s.events ++ [.lower]
    else s.events
  { s with events, irqActive := irqNow }

/-- What an operation does between taking the lock and the update. -/
def IrqOp.body (s : VmIrqs) : IrqOp → VmIrqs
  | .trigger n => { s with details := triggerIrq n s.details, irqLock := .changed true }
  | .clear n => { s with details := clearIrq n s.details, irqLock := .changed true }
  | .access isWrite register offset =>
    match irqRegistersAccess isWrite register offset s.details with
    | .done d _ => { s with details := d, irqLock := .changed isWrite }
    | .brk d => { s with details := d, irqLock := .stopped }

/-- A step of the thread that has the lock, or that takes it. -/
inductive IrqStep where
  | claim (op : IrqOp)
  | body
  | update
  | release

/-- The controller with any number of threads. -/
def irqSystem : System VmIrqs IrqStep where
  init s := s = ⟨⟨0, 0, 0, 0, 0, 0, 0⟩, false, .free, []⟩
  step s i s' := match i with
    | .claim op => s.irqLock = .free ∧ s' = { s with irqLock := .claimed op }
    | .body => ∃ op, s.irqLock = .claimed op ∧ s' = op.body s
    | .update => ∃ update, s.irqLock = .changed update ∧
        s' = { (if update then updateVirtualIrq s else s) with irqLock := .updated }
    | .release => s.irqLock = .updated ∧ s' = { s with irqLock := .free }

/-! ## The line -/

/-- A load leaves the words as they are. -/
theorem irqRegistersAccess_load (register : BitVec 64) (offset : ℕ) (d : IrqDetails) :
    (∃ value, irqRegistersAccess false register offset d = .done d value) ∨
      irqRegistersAccess false register offset d = .brk d := by
  unfold irqRegistersAccess
  split <;> first | exact .inl ⟨_, rfl⟩ | exact .inr rfl

/-- What an operation leaves alone, and how it goes on: with an update, or without one
where it has changed no word, or not at all. -/
theorem IrqOp.body_spec (s : VmIrqs) (op : IrqOp) :
    (op.body s).irqActive = s.irqActive ∧ (op.body s).events = s.events ∧
    ((op.body s).irqLock = .changed true ∨
      ((op.body s).irqLock = .changed false ∧ (op.body s).details = s.details) ∨
      (op.body s).irqLock = .stopped) := by
  cases op with
  | trigger n => exact ⟨rfl, rfl, .inl rfl⟩
  | clear n => exact ⟨rfl, rfl, .inl rfl⟩
  | access isWrite register offset =>
    rw [IrqOp.body]
    cases isWrite with
    | true =>
      -- a breakpoint comes before the update, with the lock held
      cases irqRegistersAccess true register offset s.details with
      | done d value => exact ⟨rfl, rfl, .inl rfl⟩
      | brk d => exact ⟨rfl, rfl, .inr (.inr rfl)⟩
    | false =>
      -- `update_virtual_irq` is called after stores only
      rcases irqRegistersAccess_load register offset s.details with ⟨value, h⟩ | h
      · rw [h]
        exact ⟨rfl, rfl, .inr (.inl ⟨rfl, rfl⟩)⟩
      · rw [h]
        exact ⟨rfl, rfl, .inr (.inr rfl)⟩

/-- The line as the kernel has it after the calls so far; low at first. -/
def lineAfter (events : List LineEvent) : Bool := events.getLast? = some .raise

/-- No call asks for what the line already is. -/
def Alternating (events : List LineEvent) : Prop :=
  (LineEvent.lower :: events).IsChain (· ≠ ·)

theorem Alternating.concat {events : List LineEvent} {e : LineEvent} (h : Alternating events)
    (hlast : lineAfter events = true ↔ e = .lower) : Alternating (events ++ [e]) := by
  unfold Alternating
  rw [← List.cons_append, List.isChain_append]
  refine ⟨h, List.isChain_singleton _, ?_⟩
  intro a ha b hb
  have hbe : b = e := by simpa using hb.symm
  subst hbe
  rw [List.getLast?_cons] at ha
  cases hlist : events.getLast? with
  | none =>
    -- the first call of all, behind the low line of the start
    have hlow : a = .lower := by simpa [hlist] using ha.symm
    have hline : ¬ lineAfter events = true := by simp [lineAfter, hlist]
    rw [hlow]
    intro heq
    exact hline (hlast.2 heq.symm)
  | some c =>
    have hac : a = c := by simpa [hlist] using ha.symm
    subst hac
    have hline : lineAfter events = true ↔ a = .raise := by simp [lineAfter, hlist]
    rw [hline] at hlast
    rintro rfl
    cases a with
    | raise => exact absurd (hlast.1 rfl) (by decide)
    | lower => exact absurd (hlast.2 rfl) (by decide)

theorem lineAfter_concat (events : List LineEvent) (e : LineEvent) :
    lineAfter (events ++ [e]) = true ↔ e = .raise := by
  simp [lineAfter]

/-- What holds between the steps of the threads. -/
structure LineInv (s : VmIrqs) : Prop where
  /-- Outside an operation that has still to update the line it is what the words say. -/
  follows : s.irqLock ≠ .changed true → s.irqLock ≠ .stopped →
    s.irqActive = s.details.irqNow
  alternating : Alternating s.events
  last : lineAfter s.events = s.irqActive

/-- An update makes the line follow, with a call of the kernel exactly when it changes. -/
theorem LineInv.updated {s : VmIrqs} (h : LineInv s) :
    LineInv { updateVirtualIrq s with irqLock := .updated } := by
  have hlast := h.last
  cases hnow : s.details.irqNow <;> cases hactive : s.irqActive
  · have heq : updateVirtualIrq s = { s with irqActive := false } := by
      simp [updateVirtualIrq, hnow, hactive]
    rw [heq]
    exact ⟨fun _ _ => hnow.symm, h.alternating, by rw [hlast, hactive]⟩
  · -- lowered
    have heq : updateVirtualIrq s =
        { s with irqActive := false, events := s.events ++ [.lower] } := by
      simp [updateVirtualIrq, hnow, hactive]
    rw [heq]
    refine ⟨fun _ _ => hnow.symm, h.alternating.concat ?_, ?_⟩
    · rw [hlast, hactive]
      exact iff_of_true rfl rfl
    · exact Bool.eq_false_iff.2 fun hline =>
        absurd ((lineAfter_concat s.events .lower).1 hline) (by decide)
  · -- raised
    have heq : updateVirtualIrq s =
        { s with irqActive := true, events := s.events ++ [.raise] } := by
      simp [updateVirtualIrq, hnow, hactive]
    rw [heq]
    refine ⟨fun _ _ => hnow.symm, h.alternating.concat ?_, ?_⟩
    · rw [hlast, hactive]
      exact iff_of_false (by decide) (by decide)
    · exact (lineAfter_concat s.events .raise).2 rfl
  · have heq : updateVirtualIrq s = { s with irqActive := true } := by
      simp [updateVirtualIrq, hnow, hactive]
    rw [heq]
    exact ⟨fun _ _ => hnow.symm, h.alternating, by rw [hlast, hactive]⟩

theorem lineInv_step {s s' : VmIrqs} {i : IrqStep} (h : LineInv s)
    (hs : irqSystem.step s i s') : LineInv s' := by
  cases i with
  | claim op =>
    -- the lock was free, so no update is outstanding
    rcases hs with ⟨hfree, rfl⟩
    have hline : s.irqActive = s.details.irqNow :=
      h.follows (by simp [hfree]) (by simp [hfree])
    exact ⟨fun _ _ => hline, h.alternating, h.last⟩
  | body =>
    rcases hs with ⟨op, hclaimed, rfl⟩
    have hline : s.irqActive = s.details.irqNow :=
      h.follows (by simp [hclaimed]) (by simp [hclaimed])
    rcases op.body_spec s with ⟨hactive, hevents, hlock⟩
    refine ⟨?_, by rw [hevents]; exact h.alternating, by rw [hevents, hactive]; exact h.last⟩
    -- only an operation that changes no word goes on without an update
    intro hupdate hstopped
    rcases hlock with hlock | ⟨_, hdetails⟩ | hlock
    · exact absurd hlock hupdate
    · rw [hactive, hdetails, hline]
    · exact absurd hlock hstopped
  | update =>
    rcases hs with ⟨update, hchanged, rfl⟩
    cases update with
    | true => exact h.updated
    | false =>
      -- a load: the words are as they were when the lock was taken
      have hline : s.irqActive = s.details.irqNow :=
        h.follows (by simp [hchanged]) (by simp [hchanged])
      exact ⟨fun _ _ => hline, h.alternating, h.last⟩
  | release =>
    rcases hs with ⟨hupdated, rfl⟩
    have hline : s.irqActive = s.details.irqNow :=
      h.follows (by simp [hupdated]) (by simp [hupdated])
    exact ⟨fun _ _ => hline, h.alternating, h.last⟩

theorem lineInv_reachable {s : VmIrqs} (h : irqSystem.Reachable s) : LineInv s := by
  apply h.invariant
  · rintro s rfl
    exact ⟨fun _ _ => rfl, List.isChain_singleton _, rfl⟩
  · intro s i s' hinv hs
    exact lineInv_step hinv hs

/-- Whatever the threads and the guest do, the line follows the words while the lock is
free, and the calls of the kernel alternate from a raise on and end as the line is. -/
theorem irq_line_follows {s : VmIrqs} (h : irqSystem.Reachable s) :
    (s.irqLock = .free →
      (s.irqActive = true ↔ s.details.irqPending1 &&& s.details.enabledIrqs1 ≠ 0 ∨
        s.details.irqPending2 &&& s.details.enabledIrqs2 ≠ 0 ∨
        s.details.irqBasicPending &&& s.details.enabledBasicIrqs ≠ 0)) ∧
    (s.events.IsChain (· ≠ ·) ∧ s.events.head? ≠ some .lower) ∧
    (s.events.getLast? = some .raise ↔ s.irqActive = true) := by
  have hinv := lineInv_reachable h
  refine ⟨?_, ⟨?_, ?_⟩, ?_⟩
  · intro hfree
    have hline := hinv.follows (by simp [hfree]) (by simp [hfree])
    rw [hline, IrqDetails.irqNow]
    simp only [Bool.or_eq_true, decide_eq_true_eq, or_assoc]
  · exact hinv.alternating.tail
  · intro hhead
    rcases List.head?_eq_some_iff.1 hhead with ⟨rest, hrest⟩
    have halternating := hinv.alternating
    rw [hrest, Alternating, List.isChain_cons_cons] at halternating
    exact halternating.1 rfl
  · rw [← hinv.last, lineAfter, decide_eq_true_iff]

/-- A whole operation by a thread that no other comes between. -/
theorem operation_reachable {s : VmIrqs} (h : irqSystem.Reachable s) (hfree : s.irqLock = .free)
    (op : IrqOp) (update : Bool)
    (hbody : (op.body { s with irqLock := .claimed op }).irqLock = .changed update) :
    irqSystem.Reachable
      { (if update then updateVirtualIrq (op.body { s with irqLock := .claimed op })
          else op.body { s with irqLock := .claimed op }) with irqLock := .free } := by
  have hclaim : irqSystem.step s (.claim op) { s with irqLock := .claimed op } := ⟨hfree, rfl⟩
  have hchange : irqSystem.step { s with irqLock := .claimed op } .body
      (op.body { s with irqLock := .claimed op }) := ⟨op, rfl, rfl⟩
  have hupdate : irqSystem.step (op.body { s with irqLock := .claimed op }) .update
      { (if update then updateVirtualIrq (op.body { s with irqLock := .claimed op })
          else op.body { s with irqLock := .claimed op }) with irqLock := .updated } :=
    ⟨update, hbody, rfl⟩
  exact (((h.step hclaim).step hchange).step hupdate).step (i := IrqStep.release) ⟨rfl, rfl⟩

/-- Interrupt 1 enabled and triggered. -/
def raisedIrqs : VmIrqs where
  details := ⟨0, 2, 0, 0, 2, 0, 0⟩
  irqActive := true
  irqLock := .free
  events := [.raise]

theorem raisedIrqs_reachable : irqSystem.Reachable raisedIrqs := by
  have hstart : irqSystem.Reachable ⟨⟨0, 0, 0, 0, 0, 0, 0⟩, false, .free, []⟩ := .init rfl
  have henabled := operation_reachable hstart rfl (.access true 2 0x210) true rfl
  exact operation_reachable henabled rfl (.trigger 1) true rfl

theorem irq_line_follows_raised :
    raisedIrqs.events.getLast? = some .raise ↔ raisedIrqs.irqActive = true :=
  (irq_line_follows raisedIrqs_reachable).2.2

/-! ## The summary -/

/-- What a guest's load gives. -/
def irqLoad (offset : ℕ) (d : IrqDetails) : Option (BitVec 64) :=
  match irqRegistersAccess false 0 offset d with
  | .done _ register => register
  | .brk _ => none

/-- The bits of the basic pending register for single interrupts. -/
def summaryBits : List (ℕ × ℕ) :=
  [(10, 7), (11, 9), (12, 10), (13, 18), (14, 19), (15, 53), (16, 54), (17, 55), (18, 56),
    (19, 57), (20, 62)]

/-- Interrupt `n`, below 64, is enabled and pending. -/
def EnabledPending (n : ℕ) (d : IrqDetails) : Prop :=
  if n < 32 then d.irqPending1.getLsbD n = true ∧ d.enabledIrqs1.getLsbD n = true
  else d.irqPending2.getLsbD (n - 32) = true ∧ d.enabledIrqs2.getLsbD (n - 32) = true

/-- The three loads agree with each other and with the words. -/
def SummaryOk (d : IrqDetails) : Prop :=
  ∃ basic first second, irqLoad 0x200 d = some basic ∧ irqLoad 0x204 d = some first ∧
    irqLoad 0x208 d = some second ∧
    (basic.getLsbD 9 = true ↔ first ≠ 0) ∧
    (basic.getLsbD 8 = true ↔ second ≠ 0) ∧
    (∀ p ∈ summaryBits, basic.getLsbD p.1 = true ↔ EnabledPending p.2 d) ∧
    ∀ i < 8, basic.getLsbD i = true ↔
      d.irqBasicPending.getLsbD i = true ∧ d.enabledBasicIrqs.getLsbD i = true

/-- What the summary has for a word: whether its bit 0 is pending and anything enabled. -/
def summaryBit (pending enabled : BitVec 32) : Bool :=
  pending.getLsbD 0 && decide (enabled ≠ 0)

theorem and_bit_iff (v : BitVec 32) {n : ℕ} (hn : n < 32) :
    0 ≠ v &&& (1#32 <<< n) ↔ v.getLsbD n = true := by
  rw [← BitVec.twoPow_eq, BitVec.and_twoPow, ne_comm]
  cases v.getLsbD n with
  | false => simp
  | true =>
    refine iff_of_true ?_ rfl
    intro hzero
    have hbit := congrArg (fun w : BitVec 32 => w.getLsbD n) hzero
    simp [hn] at hbit

theorem irqPending_iff {n : ℕ} (hn : n < 64) (d : IrqDetails) :
    irqPending n d = true ↔ EnabledPending n d := by
  unfold irqPending EnabledPending
  by_cases hfirst : n < 32
  · rw [if_pos hfirst, if_pos hfirst, decide_eq_true_iff, and_bit_iff _ hfirst,
      BitVec.getLsbD_and, Bool.and_eq_true]
  · have hin : n - 32 < 32 := by omega
    rw [if_neg hfirst, if_neg hfirst, if_pos hn, decide_eq_true_iff, and_bit_iff _ hin,
      BitVec.getLsbD_and, Bool.and_eq_true]

/-- The comparison binds first, so only bit 0 of the pending word is looked at. -/
theorem summaryBit_iff (pending enabled : BitVec 32) :
    pending &&& (if enabled ≠ 0 then 1 else 0) ≠ 0 ↔ summaryBit pending enabled = true := by
  rw [summaryBit, Bool.and_eq_true, decide_eq_true_iff]
  split_ifs with h
  · -- the outcome of the comparison is 1, so the mask is bit 0
    have hone : (1 : BitVec 32) = 1#32 <<< 0 := rfl
    rw [hone, ne_comm, and_bit_iff _ (by decide)]
    exact ⟨fun hbit => ⟨hbit, h⟩, And.left⟩
  · exact iff_of_false (fun hne => hne BitVec.and_zero) fun hbit => h hbit.2

theorem getLsbD_orBit (c : Bool) {k : ℕ} (hk : k < 32) (p : BitVec 32) (i : ℕ) :
    (orBit c k p).getLsbD i = (p.getLsbD i || (c && decide (i = k))) := by
  unfold orBit
  cases c with
  | false => simp
  | true =>
    rw [if_pos rfl, BitVec.getLsbD_or, ← BitVec.twoPow_eq, BitVec.getLsbD_twoPow]
    simp [hk, eq_comm]

/-- Every bit of the register, from where it is set. -/
theorem getLsbD_basicPending (d : IrqDetails) (i : ℕ) :
    (basicPending d).getLsbD i =
      ((d.irqBasicPending.getLsbD i && d.enabledBasicIrqs.getLsbD i && (0xff#32).getLsbD i)
        || (irqPending 62 d && decide (i = 20)) || (irqPending 57 d && decide (i = 19))
        || (irqPending 56 d && decide (i = 18)) || (irqPending 55 d && decide (i = 17))
        || (irqPending 54 d && decide (i = 16)) || (irqPending 53 d && decide (i = 15))
        || (irqPending 19 d && decide (i = 14)) || (irqPending 18 d && decide (i = 13))
        || (irqPending 10 d && decide (i = 12)) || (irqPending 9 d && decide (i = 11))
        || (irqPending 7 d && decide (i = 10))
        || (summaryBit d.irqPending1 d.enabledIrqs1 && decide (i = 9))
        || (summaryBit d.irqPending2 d.enabledIrqs2 && decide (i = 8))) := by
  have hfirst := summaryBit_iff d.irqPending1 d.enabledIrqs1
  have hsecond := summaryBit_iff d.irqPending2 d.enabledIrqs2
  simp only [basicPending, getLsbD_orBit, Nat.reduceLT, hfirst, hsecond, BitVec.getLsbD_and,
    Bool.decide_eq_true]
  rfl

/-- The bits of the summary for single interrupts are right, as are the basic ones. -/
theorem summary_singles (d : IrqDetails) :
    (∀ p ∈ summaryBits, (basicPending d).getLsbD p.1 = true ↔ EnabledPending p.2 d) ∧
    ∀ i < 8, (basicPending d).getLsbD i = true ↔
      d.irqBasicPending.getLsbD i = true ∧ d.enabledBasicIrqs.getLsbD i = true := by
  refine ⟨?_, ?_⟩
  · intro p hp
    have hbelow : p.2 < 64 ∧ 10 ≤ p.1 ∧ p.1 ≤ 20 := by
      revert p
      decide
    rw [← irqPending_iff hbelow.1, getLsbD_basicPending]
    -- of the fourteen parts only one has this bit
    simp only [summaryBits, List.mem_cons, List.not_mem_nil, or_false] at hp
    rcases hp with rfl | rfl | rfl | rfl | rfl | rfl | rfl | rfl | rfl | rfl | rfl <;> simp
  · intro i hi
    have hmask : (0xff#32).getLsbD i = true := by
      revert i
      decide
    have hlow : ∀ k, 8 ≤ k → decide (i = k) = false := by
      intro k hk
      exact decide_eq_false (by omega)
    rw [getLsbD_basicPending, hmask]
    simp [hlow]

/-- The two bits for the other registers. -/
theorem summary_words (d : IrqDetails) :
    ((basicPending d).getLsbD 9 = true ↔ summaryBit d.irqPending1 d.enabledIrqs1 = true) ∧
    ((basicPending d).getLsbD 8 = true ↔ summaryBit d.irqPending2 d.enabledIrqs2 = true) := by
  have h9 : (0xff#32).getLsbD 9 = false := rfl
  have h8 : (0xff#32).getLsbD 8 = false := rfl
  rw [getLsbD_basicPending, getLsbD_basicPending, h9, h8]
  simp

theorem summaryOk_iff (d : IrqDetails) :
    SummaryOk d ↔
      (summaryBit d.irqPending1 d.enabledIrqs1 = true ↔ d.irqPending1 &&& d.enabledIrqs1 ≠ 0) ∧
      (summaryBit d.irqPending2 d.enabledIrqs2 = true ↔
        d.irqPending2 &&& d.enabledIrqs2 ≠ 0) := by
  have hwide : ∀ v : BitVec 32, v.setWidth 64 ≠ 0 ↔ v ≠ 0 := by
    intro v
    rw [not_iff_not]
    constructor
    · intro hzero
      have hback := congrArg (fun w : BitVec 64 => w.setWidth 32) hzero
      simpa using hback
    · rintro rfl
      rfl
  have hbit : ∀ (v : BitVec 32) (i : ℕ), (v.setWidth 64).getLsbD i = v.getLsbD i := by
    intro v i
    rw [BitVec.getLsbD_setWidth]
    by_cases hi : i < 64
    · simp [hi]
    · simp [hi, BitVec.getLsbD_of_ge v i (by omega)]
  have hsingles := summary_singles d
  constructor
  · rintro ⟨basic, first, second, h0, h4, h8, hbit9, hbit8, _⟩
    cases h0
    cases h4
    cases h8
    rw [hbit, hwide, (summary_words d).1] at hbit9
    rw [hbit, hwide, (summary_words d).2] at hbit8
    exact ⟨hbit9, hbit8⟩
  · rintro ⟨hbit9, hbit8⟩
    refine ⟨_, _, _, rfl, rfl, rfl, ?_, ?_, ?_, ?_⟩
    · rw [hbit, hwide, (summary_words d).1]
      exact hbit9
    · rw [hbit, hwide, (summary_words d).2]
      exact hbit8
    · intro p hp
      rw [hbit]
      exact hsingles.1 p hp
    · intro i hi
      rw [hbit]
      exact hsingles.2 i hi

/-- In every state, the basic pending register agrees with the words and with the other two
registers exactly when a register is non-zero just where bit 0 of its pending word is set and
something is enabled in it. -/
theorem summary_iff (d : IrqDetails) : SummaryOk d ↔
    (d.irqPending1.getLsbD 0 = true ∧ d.enabledIrqs1 ≠ 0 ↔ d.irqPending1 &&& d.enabledIrqs1 ≠ 0) ∧
      (d.irqPending2.getLsbD 0 = true ∧ d.enabledIrqs2 ≠ 0 ↔
        d.irqPending2 &&& d.enabledIrqs2 ≠ 0) := by
  rw [summaryOk_iff]
  simp only [summaryBit, Bool.and_eq_true, decide_eq_true_eq]

/-- With interrupt 1 pending and enabled a load at 0x204 gives 2 and one at 0x200 gives 0. -/
theorem summary_missed : irqSystem.Reachable raisedIrqs ∧ ¬ SummaryOk raisedIrqs.details := by
  refine ⟨raisedIrqs_reachable, ?_⟩
  rintro ⟨basic, first, second, h0, h4, _, hbit9, _⟩
  cases h0
  cases h4
  exact absurd (hbit9.2 (by decide)) (by decide)

end Isambard.Driver
