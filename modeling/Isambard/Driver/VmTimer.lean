import Isambard.Lib.Circle
import Mathlib.Tactic.IntervalCases

/-!
# Driver.VmTimer — the system timer that a virtual machine sees

`timer_passed`, `timer_thread` and `bcm_2835_system_timer_access` of `drivers/riscos.c` and
`drivers/arm11vm.c`. The thread moves the counter and compares the stretch it has gone with
the four compare registers; the guest's loads and stores in the page of the timer are
emulated.

* `timerPassed_iff`: a poll looks strictly between its ends;
* `reported_iff`: the polls of a run report each passage of a value exactly when no poll
  starts at it;
* `compare_framed_iff`: when a store leaves the other three registers as they were.
-/

namespace Isambard.Driver

open Isambard.Lib

/-- `system_timer`, and the static of the access function. -/
structure SystemTimer where
  controlStatus : UInt32
  counter : UInt64
  compare : ℕ → UInt32
  /-- `locked_high` -/
  lockedHigh : UInt32

/-! ## The timer thread -/

def timerPassed (now ticks matched : UInt32) : Bool :=
  let wraps := decide (now + ticks < now)
  if wraps then decide (matched > now) || decide (matched < now + ticks)
  else decide (matched > now) && decide (matched < now + ticks)

/-- The body of the loop over the compare registers, with the interrupts that have been
triggered so far. -/
def timerCheck (now ticks : UInt32) (s : SystemTimer × List ℕ) (i : ℕ) : SystemTimer × List ℕ :=
  if timerPassed now ticks (s.1.compare i) then
    ({ s.1 with controlStatus := s.1.controlStatus ||| (1 <<< UInt32.ofNat i) }, s.2 ++ [i])
  else s

/-- A turn of `timer_thread`: the timer, and the interrupts it triggers. `ticks` is 1000. -/
def timerPoll (ticks : UInt32) (s : SystemTimer) : SystemTimer × List ℕ :=
  let now := s.counter.toUInt32
  let s := { s with counter := s.counter + ticks.toUInt64 }
  (List.range 4).foldl (timerCheck now ticks) (s, [])

/-- The timer after `k` turns in which the guest leaves it alone. -/
def timerAfter (ticks : UInt32) (s : SystemTimer) (k : ℕ) : SystemTimer :=
  (fun s => (timerPoll ticks s).1)^[k] s

/-- Turn `k` reports the value of compare register `i`. -/
def Reports (ticks : UInt32) (s : SystemTimer) (i k : ℕ) : Prop :=
  i ∈ (timerPoll ticks (timerAfter ticks s k)).2

instance (ticks : UInt32) (s : SystemTimer) (i : ℕ) : DecidablePred (Reports ticks s i) :=
  fun k => inferInstanceAs (Decidable (i ∈ (timerPoll ticks (timerAfter ticks s k)).2))

/-- A poll looks strictly between the counter before and after it, also where it wraps. -/
theorem timerPassed_iff (now ticks matched : UInt32) :
    timerPassed now ticks matched = true ↔
      0 < ahead (2 ^ 32) now.toNat matched.toNat ∧
        ahead (2 ^ 32) now.toNat matched.toNat < ticks.toNat := by
  have hnow := now.toNat_lt
  have hticks := ticks.toNat_lt
  have hmatched := matched.toNat_lt
  have hend : (now + ticks).toNat = (now.toNat + ticks.toNat) % 2 ^ 32 := UInt32.toNat_add _ _
  unfold timerPassed ahead
  simp only [UInt32.lt_iff_toNat_lt, hend, gt_iff_lt]
  by_cases hwraps : (now.toNat + ticks.toNat) % 2 ^ 32 < now.toNat
  · -- a value above `now`, or below the end on the other side of 0
    simp only [hwraps, decide_true, if_true, Bool.or_eq_true, decide_eq_true_eq]
    omega
  · simp only [hwraps, decide_false, Bool.false_eq_true, if_false, Bool.and_eq_true,
      decide_eq_true_eq]
    omega

section Polls

variable {ticks : UInt32} {s : SystemTimer}

/-- The loop over the compare registers triggers the interrupts of those that matched, and
changes only the status. -/
theorem timerChecks_eq (now ticks : UInt32) (l : List ℕ) (s : SystemTimer) (irqs : List ℕ) :
    ∃ status, l.foldl (timerCheck now ticks) (s, irqs) =
      ({ s with controlStatus := status },
        irqs ++ l.filter fun i => timerPassed now ticks (s.compare i)) := by
  induction l generalizing s irqs with
  | nil => exact ⟨s.controlStatus, by simp⟩
  | cons i l ih =>
    -- the status that a match sets is not read by the checks that follow
    by_cases hi : timerPassed now ticks (s.compare i) = true
    · rcases ih { s with controlStatus := s.controlStatus ||| (1 <<< UInt32.ofNat i) }
        (irqs ++ [i]) with ⟨status, hrest⟩
      refine ⟨status, ?_⟩
      rw [List.foldl_cons, timerCheck, if_pos hi, hrest]
      simp [hi]
    · rcases ih s irqs with ⟨status, hrest⟩
      refine ⟨status, ?_⟩
      rw [List.foldl_cons, timerCheck, if_neg hi, hrest]
      simp [hi]

/-- A turn of the thread. -/
theorem timerPoll_eq (ticks : UInt32) (s : SystemTimer) :
    ∃ status, timerPoll ticks s =
      ({ s with counter := s.counter + ticks.toUInt64, controlStatus := status },
        (List.range 4).filter fun i =>
          timerPassed s.counter.toUInt32 ticks (s.compare i)) := by
  rcases timerChecks_eq s.counter.toUInt32 ticks (List.range 4)
    { s with counter := s.counter + ticks.toUInt64 } [] with ⟨status, h⟩
  exact ⟨status, by rw [timerPoll, h, List.nil_append]⟩

/-- The thread moves the counter and leaves the compare registers alone. -/
theorem timerAfter_eq (ticks : UInt32) (s : SystemTimer) (k : ℕ) :
    (timerAfter ticks s k).compare = s.compare ∧
    (timerAfter ticks s k).counter.toNat = (s.counter.toNat + k * ticks.toNat) % 2 ^ 64 := by
  induction k with
  | zero =>
    refine ⟨rfl, ?_⟩
    rw [Nat.zero_mul, Nat.add_zero, Nat.mod_eq_of_lt s.counter.toNat_lt]
    rfl
  | succ k ih =>
    rcases timerPoll_eq ticks (timerAfter ticks s k) with ⟨status, hpoll⟩
    have hnext : timerAfter ticks s (k + 1) = (timerPoll ticks (timerAfter ticks s k)).1 := by
      rw [timerAfter, Function.iterate_succ_apply']
      rfl
    -- the counter has 64 bits, so the sum is taken modulo their number
    rw [hnext, hpoll]
    refine ⟨ih.1, ?_⟩
    show ((timerAfter ticks s k).counter + ticks.toUInt64).toNat = _
    rw [UInt64.toNat_add, ih.2, UInt32.toNat_toUInt64, Nat.mod_add_mod, Nat.succ_mul,
      Nat.add_assoc]

theorem ahead_mod (N p m : ℕ) : ahead N (p % N) m = ahead N p m := by
  rw [ahead, ahead, Nat.mod_mod]

/-- A turn reports a register whose value is strictly inside the stretch of the turn. -/
theorem reports_iff {i : ℕ} (hi : i < 4) (k : ℕ) :
    Reports ticks s i k ↔
      0 < ahead (2 ^ 32) (s.counter.toNat + k * ticks.toNat) (s.compare i).toNat ∧
        ahead (2 ^ 32) (s.counter.toNat + k * ticks.toNat) (s.compare i).toNat <
          ticks.toNat := by
  rcases timerPoll_eq ticks (timerAfter ticks s k) with ⟨status, hpoll⟩
  have hafter := timerAfter_eq ticks s k
  have hnow : (timerAfter ticks s k).counter.toUInt32.toNat =
      (s.counter.toNat + k * ticks.toNat) % 2 ^ 32 := by
    rw [UInt64.toNat_toUInt32, hafter.2]
    exact Nat.mod_mod_of_dvd _ (by decide)
  rw [Reports, hpoll]
  simp only [List.mem_filter, List.mem_range, hi, true_and]
  rw [timerPassed_iff, hnow, hafter.1, ahead_mod]

/-- The turns of a run that report a register, and the turns that start at its value,
together are the times the counter passes it. -/
theorem passages_reports (h0 : 0 < ticks) {i : ℕ} (hi : i < 4) (n : ℕ) :
    passages (2 ^ 32) (s.compare i).toNat s.counter.toNat
        (s.counter.toNat + n * ticks.toNat) =
      ((Finset.range n).filter (Reports ticks s i)).card +
        (startsAt (2 ^ 32) ticks.toNat (s.compare i).toNat s.counter.toNat n).card := by
  -- the turns that report the register are the polls that see its value
  have hreports : (Finset.range n).filter (Reports ticks s i) =
      seen (2 ^ 32) ticks.toNat (s.compare i).toNat s.counter.toNat n := by
    apply Finset.filter_congr
    intro k _
    exact reports_iff hi k
  rw [hreports]
  exact passages_polls (s.compare i).toNat_lt (UInt32.lt_iff_toNat_lt.1 h0)
    (Nat.le_of_lt ticks.toNat_lt) s.counter.toNat n

/-- In a run of turns each passage of a compare value is reported, and in a run that goes
once around the circle it is reported in exactly one turn, when no turn starts at it. At a
turn that does, nothing is reported. -/
theorem reported_iff (h0 : 0 < ticks) {i : ℕ} (hi : i < 4) (n : ℕ) :
    (((Finset.range n).filter (Reports ticks s i)).card =
        passages (2 ^ 32) (s.compare i).toNat s.counter.toNat
          (s.counter.toNat + n * ticks.toNat) ↔
      ∀ k < n, (s.counter.toNat + k * ticks.toNat) % 2 ^ 32 ≠ (s.compare i).toNat) ∧
    (n * ticks.toNat = 2 ^ 32 →
      ((∃! k, k < n ∧ Reports ticks s i k) ↔
        ∀ k < n, (s.counter.toNat + k * ticks.toNat) % 2 ^ 32 ≠ (s.compare i).toNat)) := by
  have hsum := passages_reports (s := s) h0 hi n
  have hstarts : (startsAt (2 ^ 32) ticks.toNat (s.compare i).toNat s.counter.toNat n).card = 0 ↔
      ∀ k < n, (s.counter.toNat + k * ticks.toNat) % 2 ^ 32 ≠ (s.compare i).toNat := by
    rw [Finset.card_eq_zero, startsAt, Finset.filter_eq_empty_iff]
    simp only [Finset.mem_range]
  have hcount : ((Finset.range n).filter (Reports ticks s i)).card =
      passages (2 ^ 32) (s.compare i).toNat s.counter.toNat
        (s.counter.toNat + n * ticks.toNat) ↔
      ∀ k < n, (s.counter.toNat + k * ticks.toNat) % 2 ^ 32 ≠ (s.compare i).toNat := by
    -- the two counts differ by the turns that start at the value
    rw [← hstarts, hsum]
    omega
  refine ⟨hcount, ?_⟩
  intro hturn
  -- once around, the counter passes the value once
  rw [hturn, passages_turn (s.compare i).toNat_lt, Finset.card_eq_one] at hcount
  rw [← hcount]
  constructor
  · rintro ⟨k, hk, hunique⟩
    refine ⟨k, ?_⟩
    ext j
    simp only [Finset.mem_filter, Finset.mem_range, Finset.mem_singleton]
    exact ⟨hunique j, fun hj => hj ▸ hk⟩
  · rintro ⟨k, hk⟩
    have hmem : ∀ j, j < n ∧ Reports ticks s i j ↔ j = k := by
      intro j
      have hj := congrArg (fun t : Finset ℕ => j ∈ t) hk
      simpa only [Finset.mem_filter, Finset.mem_range, Finset.mem_singleton, eq_iff_iff] using hj
    exact ⟨k, (hmem k).2 rfl, fun j hj => (hmem j).1 hj⟩

end Polls

/-- A timer that starts at 0, with one compare register set. -/
def timerFrom (value : UInt32) : SystemTimer where
  controlStatus := 0
  counter := 0
  compare := fun i => if i = 1 then value else 0
  lockedHigh := 0

/-- With the thread's own step a compare value of 1000 is not reported in a whole turn of
the circle, nor is it with a step that divides the circle and ends there. -/
theorem match_missed :
    (2 ^ 32 ≤ 4294968 * 1000 ∧ ∀ k < 4294968, ¬ Reports 1000 (timerFrom 1000) 1 k) ∧
    4 * (0x40000000 : UInt32).toNat = 2 ^ 32 ∧
    ¬ ∃! k, k < 4 ∧ Reports 0x40000000 (timerFrom 0x40000000) 1 k := by
  refine ⟨⟨by decide, ?_⟩, rfl, ?_⟩
  · intro k hk h
    have hin := (reports_iff (by decide) k).1 h
    simp only [timerFrom, ahead, UInt32.reduceToNat, UInt64.reduceToNat, if_true] at hin
    have hbelow : (0 + k * 1000) % 2 ^ 32 = k * 1000 := by omega
    rw [hbelow] at hin
    -- the value is ahead by a whole number of turns of the thread
    rcases Nat.lt_or_ge k 2 with hfirst | hlater
    · interval_cases k <;> omega
    · have hahead : (1000 + 2 ^ 32 - k * 1000) % 2 ^ 32 = 1000 + 2 ^ 32 - k * 1000 :=
        Nat.mod_eq_of_lt (by omega)
      omega
  · -- the second turn starts at the value and the first ends there
    rintro ⟨k, ⟨hk, h⟩, _⟩
    have hin := (reports_iff (by decide) k).1 h
    simp only [timerFrom, ahead, UInt32.reduceToNat, UInt64.reduceToNat, if_true] at hin
    omega

theorem reported_iff_quarter : ∃! k, k < 4 ∧ Reports 0x40000000 (timerFrom 5) 1 k := by
  apply ((reported_iff (by decide) (by decide) 4).2 rfl).2
  decide

/-! ## The guest's accesses -/

/-- The two programs; they differ in one comparison. -/
inductive VmSource where
  | riscos
  | arm11vm

/-- `compare[n] < (counter & 0xffffffff)`, and `compare[n] < counter & 0xffffffff`, where the
mask is applied to the outcome of the comparison. -/
def VmSource.inPast : VmSource → UInt32 → UInt64 → Bool
  | .riscos, compare, counter => decide (compare.toUInt64 < counter &&& 0xffffffff)
  | .arm11vm, compare, counter =>
    (decide (compare.toUInt64 < counter)).toUInt64 &&& 0xffffffff ≠ 0

/-- How an access ends: with the guest's register set when it was a load, in a loop that
does not end, or in a breakpoint. -/
inductive TimerOutcome where
  | done (s : SystemTimer) (register : Option UInt64)
  | spins (s : SystemTimer)
  | brk

/-- `bcm_2835_system_timer_access`; `register` is what the guest's register holds. -/
def systemTimerAccess (vm : VmSource) (isWrite : Bool) (register : UInt64) (offset : ℕ)
    (s : SystemTimer) : TimerOutcome :=
  if offset = 0x00 then
    if isWrite then
      -- the source stops here in a loop of its own
      .spins { s with controlStatus := s.controlStatus &&& (~~~ register).toUInt32 }
    else .done s (some s.controlStatus.toUInt64)
  else if offset = 0x04 then
    .done { s with lockedHigh := (s.counter >>> 32).toUInt32 } (some (s.counter &&& 0xffffffff))
  else if offset = 0x08 then .done s (some s.lockedHigh.toUInt64)
  else if 0x0c ≤ offset ∧ offset ≤ 0x18 then
    -- 0x0c is in the first sixteen bytes, the other three offsets in the next
    let n := (offset >>> 4) &&& 3
    if isWrite then
      let compare := Function.update s.compare n register.toUInt32
      let compare := if vm.inPast (compare n) s.counter then
        Function.update compare n (s.counter + 2500).toUInt32 else compare
      .done { s with compare } none
    else .done s (some (s.compare n).toUInt64)
  else .brk

/-- The offset of compare register `r`. -/
def compareOffset (r : Fin 4) : ℕ := 0x0c + 4 * r

/-- The timer after an access. -/
def TimerOutcome.timer (before : SystemTimer) : TimerOutcome → SystemTimer
  | .done s _ => s
  | .spins s => s
  | .brk => before

/-- What the guest's register is set to. -/
def TimerOutcome.register : TimerOutcome → Option UInt64
  | .done _ register => register
  | .spins _ => none
  | .brk => none

/-- What happens to the timer: the guest loads or stores a compare register, or the counter
has moved. -/
inductive TimerEvent where
  | load (r : Fin 4)
  | store (r : Fin 4) (register : UInt64)
  | count (counter : UInt64)

def TimerEvent.run (vm : VmSource) (s : SystemTimer) : TimerEvent → SystemTimer
  | .load r => (systemTimerAccess vm false 0 (compareOffset r) s).timer s
  | .store r register => (systemTimerAccess vm true register (compareOffset r) s).timer s
  | .count counter => { s with counter }

/-- What a guest load of a compare register gives. -/
def loadCompare (vm : VmSource) (s : SystemTimer) (r : Fin 4) : Option UInt64 :=
  (systemTimerAccess vm false 0 (compareOffset r) s).register

/-- A store to one register leaves what is loaded from the other three. -/
def StoreFramed (vm : VmSource) (s : SystemTimer) (r : Fin 4) (register : UInt64) : Prop :=
  ∀ r' ≠ r, loadCompare vm (TimerEvent.run vm s (.store r register)) r' = loadCompare vm s r'

/-- The store is to the first register; or what is stored, or the time that is put in its
place when it is in the past, is what the second register has. -/
def StoresSame (vm : VmSource) (s : SystemTimer) (r : Fin 4) (register : UInt64) : Prop :=
  r = 0 ∨ (if vm.inPast register.toUInt32 s.counter then (s.counter + 2500).toUInt32
    else register.toUInt32) = s.compare 1

/-- The element of `compare` that the offset of a register selects. -/
def compareIndex (r : Fin 4) : ℕ := (compareOffset r >>> 4) &&& 3

/-- The registers after the first share one element. -/
theorem compareIndex_eq (r : Fin 4) : compareIndex r = if r = 0 then 0 else 1 := by
  revert r
  decide

theorem access_compare (vm : VmSource) (isWrite : Bool) (register : UInt64) (r : Fin 4)
    (s : SystemTimer) :
    systemTimerAccess vm isWrite register (compareOffset r) s =
      if isWrite then
        .done { s with
          compare := Function.update s.compare (compareIndex r)
            (if vm.inPast register.toUInt32 s.counter then (s.counter + 2500).toUInt32
              else register.toUInt32) } none
      else .done s (some (s.compare (compareIndex r)).toUInt64) := by
  have hlow : 0x0c ≤ compareOffset r := Nat.le_add_right _ _
  have hhigh : compareOffset r ≤ 0x18 := by
    unfold compareOffset
    omega
  -- none of the cases before theirs
  have h0 : compareOffset r ≠ 0x00 := by omega
  have h4 : compareOffset r ≠ 0x04 := by omega
  have h8 : compareOffset r ≠ 0x08 := by omega
  rw [systemTimerAccess, if_neg h0, if_neg h4, if_neg h8, if_pos ⟨hlow, hhigh⟩]
  cases isWrite with
  | false => rfl
  | true =>
    simp only [if_true, Function.update_self]
    by_cases hpast : vm.inPast register.toUInt32 s.counter = true
    · simp only [compareIndex, hpast, if_true, Function.update_idem]
    · simp only [compareIndex, hpast, if_false, Bool.false_eq_true]

theorem loadCompare_eq (vm : VmSource) (s : SystemTimer) (r : Fin 4) :
    loadCompare vm s r = some (s.compare (compareIndex r)).toUInt64 := by
  rw [loadCompare, access_compare]
  rfl

theorem storeFramed_iff (vm : VmSource) (s : SystemTimer) (r : Fin 4) (register : UInt64) :
    StoreFramed vm s r register ↔ StoresSame vm s r register := by
  have hrun : (TimerEvent.run vm s (.store r register)).compare =
      Function.update s.compare (compareIndex r)
        (if vm.inPast register.toUInt32 s.counter then (s.counter + 2500).toUInt32
          else register.toUInt32) := by
    rw [TimerEvent.run, access_compare]
    rfl
  have hinj : ∀ a b : UInt32, some a.toUInt64 = some b.toUInt64 ↔ a = b := by
    intro a b
    rw [Option.some_inj, UInt32.toUInt64_inj]
  unfold StoreFramed StoresSame
  simp only [loadCompare_eq, hrun, hinj]
  by_cases hr : r = 0
  · -- no other register has the element of the first
    subst hr
    refine iff_of_true ?_ (Or.inl rfl)
    intro r' hr'
    apply Function.update_of_ne
    rw [compareIndex_eq, compareIndex_eq, if_neg hr']
    decide
  · have hindex : compareIndex r = 1 := by rw [compareIndex_eq, if_neg hr]
    rw [hindex]
    constructor
    · -- one of the other two registers after the first has the same element
      intro hframed
      have hother : ∀ r : Fin 4, ∃ r', r' ≠ r ∧ r' ≠ 0 := by decide
      rcases hother r with ⟨r', hne, hne0⟩
      have hsame := hframed r' hne
      rw [compareIndex_eq, if_neg hne0, Function.update_self] at hsame
      exact .inr hsame
    · intro hsame r' _
      rw [hsame.resolve_left hr, Function.update_eq_self]

/-- In every sequence of loads, stores and moves of the counter, each store leaves the
other three registers exactly when it is to the first one or changes nothing. -/
theorem compare_framed_iff (vm : VmSource) (s : SystemTimer) (l : List TimerEvent) :
    (∀ before r register after, l = before ++ .store r register :: after →
      StoreFramed vm (before.foldl (TimerEvent.run vm) s) r register) ↔
    ∀ before r register after, l = before ++ .store r register :: after →
      StoresSame vm (before.foldl (TimerEvent.run vm) s) r register := by
  simp only [storeFramed_iff]

/-- A store to the second register is loaded from the third, in both programs. -/
theorem compare_aliased : ¬ ∃ vm : VmSource, ∀ before r register after,
    [TimerEvent.store 1 7] = before ++ .store r register :: after →
      StoreFramed vm (before.foldl (TimerEvent.run vm) ⟨0, 0, fun _ => 0, 0⟩) r register := by
  rintro ⟨vm, h⟩
  have hload := h [] 1 7 [] rfl 2 (by decide)
  cases vm <;> exact absurd hload (by decide)

end Isambard.Driver
