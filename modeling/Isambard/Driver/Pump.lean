import Isambard.Lib.Runs
import Mathlib.Logic.Function.Basic
import Mathlib.Data.Nat.Notation
import Mathlib.Algebra.Order.Ring.Nat
import Mathlib.Algebra.Order.Ring.Int
import Mathlib.Data.Int.Notation
import Mathlib.Data.Finset.Card
import Mathlib.Data.Finset.Range
import Mathlib.Data.List.Basic

/-!
# Driver.Pump — messages from the GPU to the clients of their channels

`drivers/pi3gpu/mailbox.c`: `mailbox_interrupt` takes messages from the receive
FIFO and leaves each in the slot of its channel, or parks it in `blocking_message`
and switches the interrupts off; `message_pump` is the thread that it wakes, which
passes what is in the slots to the clients. The interrupt thread runs with
interrupts disabled until the handler returns, so the pump takes no step
meanwhile; the GPU can add to the FIFO at any time.

* `handlerStep`, `pumpStep`: the two parties, from one access of the device or of
  the shared variables to the next;
* `PumpInv`, `OrderInv`, `ParkInv`: the wakes cover the slots, no message is lost,
  and a parked message has something that will move it;
* `run_passed`: when nothing can happen before the next message, every message
  has been passed on, in order.
-/

namespace Isambard.Driver.Messages

open Isambard.Lib

/-! ## Messages and channels -/

/-- `message & 0xf`. -/
def channelOf (message : ℕ) : ℕ := message % 16

/-- `message & ~0xf`. -/
def address (message : ℕ) : ℕ := message - message % 16

/-- What `register_client` has stored, and `blocked_sending_thread`. There is one
pump for all of the channels. -/
structure Channels where
  /-- `pump_thread` -/
  pumpThread : ℕ
  /-- `channels[c].waiting_thread`, 0 for a channel that is not claimed -/
  waitingThread : ℕ → ℕ
  /-- `blocked_sending_thread` -/
  blockedSendingThread : ℕ
  created : pumpThread ≠ 0
  registered : ∀ c, waitingThread c ≠ 0 → waitingThread c = pumpThread

/-- A message that the GPU sends on a claimed channel. -/
def Claimed (ch : Channels) (message : ℕ) : Prop :=
  message < 2 ^ 32 ∧ ch.waitingThread (channelOf message) ≠ 0 ∧ address message ≠ 0

instance (ch : Channels) (message : ℕ) : Decidable (Claimed ch message) :=
  inferInstanceAs (Decidable (_ ∧ _ ∧ _))

/-! ## States -/

/-- Where the thread is in `message_pump`. -/
inductive Pump where
  /-- about to call `wait_until_woken` -/
  | wait
  /-- blocked in it -/
  | waiting
  /-- the loop over the messages, about to compare `j` -/
  | next
  /-- the loop over the channels -/
  | scan (i : ℕ)
  | clear (c message : ℕ)
  | pass (c message : ℕ)
  | setLast (c : ℕ)
  | testBlocking
  | enable
deriving Repr, DecidableEq

/-- Where the interrupt thread is in `mailbox_interrupt`. -/
inductive Handler where
  | idle
  | testBlocking
  | loop
  | dispatch (message : ℕ)
  | pause
  | wakeSender
  /-- at a `brk` -/
  | stopped (brk : ℕ)
deriving Repr, DecidableEq

structure State where
  /-- `channels[c].received_message` -/
  received : ℕ → ℕ
  /-- `blocking_message` -/
  blocking : ℕ
  /-- the messages in the receive FIFO -/
  fifo : List ℕ
  /-- bit 0 of `devices.mailbox[0].config` -/
  interruptsOn : Bool
  /-- `gate` of the thread of the pump -/
  gate : ℕ
  /-- `last_channel` -/
  lastChannel : ℕ
  /-- `messages` -/
  messages : ℤ
  j : ℕ
  pump : Pump
  handler : Handler
  /-- what the GPU has sent -/
  arrived : List ℕ
  /-- what the handler has read from the FIFO -/
  taken : List ℕ
  /-- the calls of `incoming_message`: the channel of the client and the message -/
  passed : List (ℕ × ℕ)

/-- The interrupt is asserted while there is something in the FIFO. -/
def State.asserted (s : State) : Bool := s.interruptsOn && !s.fifo.isEmpty

/-- `devices.mailbox[0].config`, as it is read: bit 4 is the pending interrupt. -/
def State.config (s : State) : ℕ :=
  (if s.interruptsOn then 1 else 0) + (if s.asserted then 0x10 else 0)

/-- `devices.mailbox[0].status`: bit 30 says that the FIFO is empty. -/
def State.status (s : State) : ℕ := if s.fifo.isEmpty then 0x40000000 else 0

/-- The counter of a gate goes no higher. -/
def maxGate : ℕ := 0x7fffffff

/-- `wake_thread` of the thread of the pump: a blocked pump goes on, and
`wait_until_woken` returns 0. -/
def State.wakePump (s : State) : State :=
  if s.pump = .waiting then { s with pump := .next, gate := 0, messages := 1, j := 0 }
  else if s.gate < maxGate then { s with gate := s.gate + 1 }
  else s

def State.wake (ch : Channels) (s : State) (thread : ℕ) : State :=
  if thread = ch.pumpThread then s.wakePump else s

/-- The message goes into the slot of its channel. -/
def State.deliver (ch : Channels) (s : State) (message : ℕ) : State :=
  { s with received := Function.update s.received (channelOf message) (address message) }.wake ch
    (ch.waitingThread (channelOf message))

/-! ## Steps -/

/-- The next step of `mailbox_interrupt`. -/
def handlerStep (ch : Channels) (s : State) : Option State :=
  match s.handler with
  | .idle =>
    if s.config / 0x10 % 2 ≠ 0 then some { s with handler := .testBlocking }
    else some { s with handler := .wakeSender }
  | .testBlocking =>
    if s.blocking ≠ 0 then
      if s.received (channelOf s.blocking) = 0 then
        some ({ s with blocking := 0, handler := .loop }.deliver ch s.blocking)
      else some { s with handler := .stopped 4 }
    else some { s with handler := .loop }
  | .loop =>
    -- only the handler reads the FIFO, so what the status says holds when the value is read
    if s.status / 0x40000000 % 2 = 0 then
      match s.fifo with
      | [] => none
      | message :: rest =>
        some { s with fifo := rest, taken := s.taken ++ [message], handler := .dispatch message }
    else some { s with handler := .pause }
  | .dispatch message =>
    if ch.waitingThread (channelOf message) = 0 then some { s with handler := .stopped 8 }
    else if s.received (channelOf message) = 0 then
      some ({ s with handler := .loop }.deliver ch message)
    else some { s with blocking := message, handler := .pause }
  | .pause =>
    if s.blocking ≠ 0 then some { s with interruptsOn := false, handler := .wakeSender }
    else some { s with handler := .wakeSender }
  | .wakeSender =>
    if ch.blockedSendingThread ≠ 0 then
      some ({ s with handler := .idle }.wake ch ch.blockedSendingThread)
    else some { s with handler := .idle }
  | .stopped _ => none

/-- An `int` from the low 32 bits of an `integer_register`. -/
def toInt (n : ℕ) : ℤ := Int.bmod n (2 ^ 32)

/-- The next step of `message_pump`. -/
def pumpStep (ch : Channels) (s : State) : Option State :=
  match s.pump with
  | .wait =>
    if s.gate > 0 then
      some { s with messages := toInt (s.gate + 1), gate := 0, j := 0, pump := .next }
    else some { s with pump := .waiting }
  | .waiting => none
  | .next =>
    if s.j < s.messages then some { s with pump := .scan 0 } else some { s with pump := .wait }
  | .scan i =>
    if i < 17 then
      let c := (s.lastChannel + i) % 16
      if ch.waitingThread c = ch.pumpThread ∧ s.received c ≠ 0 then
        some { s with pump := .clear c (s.received c) }
      else some { s with pump := .scan (i + 1) }
    else some { s with j := s.j + 1, pump := .next }
  | .clear c message =>
    some { s with received := Function.update s.received c 0, pump := .pass c message }
  | .pass c message => some { s with passed := s.passed ++ [(c, message)], pump := .setLast c }
  | .setLast c => some { s with lastChannel := c, pump := .testBlocking }
  | .testBlocking =>
    if s.blocking ≠ 0 then some { s with pump := .enable }
    else some { s with j := s.j + 1, pump := .next }
  | .enable => some { s with interruptsOn := true, j := s.j + 1, pump := .next }

inductive Action where
  | arrive (message : ℕ)
  | handler
  | pump
deriving Repr, DecidableEq

def step (ch : Channels) (s : State) : Action → Option State
  | .arrive message =>
    if Claimed ch message then
      some { s with fifo := s.fifo ++ [message], arrived := s.arrived ++ [message] }
    else none
  | .handler => handlerStep ch s
  -- the interrupt thread has the core until the handler returns
  | .pump => if s.handler = .idle then pumpStep ch s else none

/-- Nothing has been received. -/
def initial (interruptsOn : Bool) : State where
  received := fun _ => 0
  blocking := 0
  fifo := []
  interruptsOn := interruptsOn
  gate := 0
  lastChannel := 0
  messages := 0
  j := 0
  pump := .wait
  handler := .idle
  arrived := []
  taken := []
  passed := []

def pumpSystem (ch : Channels) : System State Action where
  init s := ∃ on, s = initial on
  step s a s' := step ch s a = some s'

/-! ## The branches of a step -/

/-- What `handlerStep` can do, with the test that leads to each branch. -/
inductive HandlerMove (ch : Channels) (s : State) : State → Prop
  | enter : s.handler = .idle → s.asserted → HandlerMove ch s { s with handler := .testBlocking }
  | spurious : s.handler = .idle → ¬ s.asserted → HandlerMove ch s { s with handler := .wakeSender }
  | unpark : s.handler = .testBlocking → s.blocking ≠ 0 → s.received (channelOf s.blocking) = 0 →
      HandlerMove ch s ({ s with blocking := 0, handler := .loop }.deliver ch s.blocking)
  | busy : s.handler = .testBlocking → s.blocking ≠ 0 → s.received (channelOf s.blocking) ≠ 0 →
      HandlerMove ch s { s with handler := .stopped 4 }
  | notParked : s.handler = .testBlocking → s.blocking = 0 →
      HandlerMove ch s { s with handler := .loop }
  | take {message : ℕ} {rest : List ℕ} : s.handler = .loop → s.fifo = message :: rest →
      HandlerMove ch s
        { s with fifo := rest, taken := s.taken ++ [message], handler := .dispatch message }
  | emptied : s.handler = .loop → s.fifo = [] → HandlerMove ch s { s with handler := .pause }
  | unclaimed {message : ℕ} : s.handler = .dispatch message →
      ch.waitingThread (channelOf message) = 0 → HandlerMove ch s { s with handler := .stopped 8 }
  | deliver {message : ℕ} : s.handler = .dispatch message →
      ch.waitingThread (channelOf message) ≠ 0 → s.received (channelOf message) = 0 →
      HandlerMove ch s ({ s with handler := .loop }.deliver ch message)
  | park {message : ℕ} : s.handler = .dispatch message →
      s.received (channelOf message) ≠ 0 →
      HandlerMove ch s { s with blocking := message, handler := .pause }
  | pause : s.handler = .pause → s.blocking ≠ 0 →
      HandlerMove ch s { s with interruptsOn := false, handler := .wakeSender }
  | finish : s.handler = .pause → s.blocking = 0 →
      HandlerMove ch s { s with handler := .wakeSender }
  | wakeSender : s.handler = .wakeSender →
      HandlerMove ch s ({ s with handler := .idle }.wake ch ch.blockedSendingThread)
  | leave : s.handler = .wakeSender → HandlerMove ch s { s with handler := .idle }

/-- What `pumpStep` can do. -/
inductive PumpMove (ch : Channels) (s : State) : State → Prop
  | woken : s.pump = .wait → 0 < s.gate →
      PumpMove ch s { s with messages := toInt (s.gate + 1), gate := 0, j := 0, pump := .next }
  | block : s.pump = .wait → s.gate = 0 → PumpMove ch s { s with pump := .waiting }
  | again : s.pump = .next → s.j < s.messages → PumpMove ch s { s with pump := .scan 0 }
  | done : s.pump = .next → s.messages ≤ s.j → PumpMove ch s { s with pump := .wait }
  | found {i : ℕ} : s.pump = .scan i → i < 17 → s.received ((s.lastChannel + i) % 16) ≠ 0 →
      PumpMove ch s { s with pump := .clear ((s.lastChannel + i) % 16)
                                      (s.received ((s.lastChannel + i) % 16)) }
  | skip {i : ℕ} : s.pump = .scan i → i < 17 →
      ¬ (ch.waitingThread ((s.lastChannel + i) % 16) = ch.pumpThread ∧
        s.received ((s.lastChannel + i) % 16) ≠ 0) →
      PumpMove ch s { s with pump := .scan (i + 1) }
  | nothing {i : ℕ} : s.pump = .scan i → 17 ≤ i →
      PumpMove ch s { s with j := s.j + 1, pump := .next }
  | clear {c message : ℕ} : s.pump = .clear c message →
      PumpMove ch s { s with received := Function.update s.received c 0, pump := .pass c message }
  | pass {c message : ℕ} : s.pump = .pass c message →
      PumpMove ch s { s with passed := s.passed ++ [(c, message)], pump := .setLast c }
  | setLast {c : ℕ} : s.pump = .setLast c →
      PumpMove ch s { s with lastChannel := c, pump := .testBlocking }
  | blocked : s.pump = .testBlocking → s.blocking ≠ 0 → PumpMove ch s { s with pump := .enable }
  | notBlocked : s.pump = .testBlocking → s.blocking = 0 →
      PumpMove ch s { s with j := s.j + 1, pump := .next }
  | enable : s.pump = .enable →
      PumpMove ch s { s with interruptsOn := true, j := s.j + 1, pump := .next }

section Moves

variable {ch : Channels} {s s' : State}

theorem asserted_iff : s.asserted ↔ s.interruptsOn = true ∧ s.fifo ≠ [] := by
  simp [State.asserted]

theorem config_pending : s.config / 0x10 % 2 ≠ 0 ↔ s.asserted := by
  unfold State.config
  cases s.interruptsOn <;> cases s.asserted <;> simp

theorem status_empty : s.status / 0x40000000 % 2 = 0 ↔ s.fifo ≠ [] := by
  unfold State.status
  cases s.fifo <;> simp

theorem handler_move (h : handlerStep ch s = some s') : HandlerMove ch s s' := by
  rcases hh : s.handler with _ | _ | _ | message | _ | _ | n <;>
    simp only [handlerStep, hh] at h
  · rw [if_congr config_pending rfl rfl] at h
    split_ifs at h with hp <;> cases h
    · exact .enter hh hp
    · exact .spurious hh hp
  · split_ifs at h with hb hr <;> cases h
    · exact .unpark hh hb hr
    · exact .busy hh hb hr
    · exact .notParked hh (not_not.1 hb)
  · rw [if_congr status_empty rfl rfl] at h
    split_ifs at h with he
    · rcases hf : s.fifo with _ | ⟨message, rest⟩
      · exact absurd hf he
      · simp only [hf] at h
        cases h
        exact .take hh hf
    · cases h
      exact .emptied hh (not_not.1 he)
  · split_ifs at h with hw hr <;> cases h
    · exact .unclaimed hh hw
    · exact .deliver hh hw hr
    · exact .park hh hr
  · split_ifs at h with hb <;> cases h
    · exact .pause hh hb
    · exact .finish hh (not_not.1 hb)
  · split_ifs at h with hb <;> cases h
    · exact .wakeSender hh
    · exact .leave hh
  · cases h

theorem pump_move (h : pumpStep ch s = some s') : PumpMove ch s s' := by
  rcases hp : s.pump with _ | _ | _ | i | ⟨c, message⟩ | ⟨c, message⟩ | c | _ | _ <;>
    simp only [pumpStep, hp] at h
  · split_ifs at h with hg <;> cases h
    · exact .woken hp hg
    · exact .block hp (by omega)
  · cases h
  · split_ifs at h with hj <;> cases h
    · exact .again hp hj
    · exact .done hp (not_lt.1 hj)
  · split_ifs at h with hi hc <;> cases h
    · exact .found hp hi hc.2
    · exact .skip hp hi hc
    · exact .nothing hp (not_lt.1 hi)
  · cases h
    exact .clear hp
  · cases h
    exact .pass hp
  · cases h
    exact .setLast hp
  · split_ifs at h with hb <;> cases h
    · exact .blocked hp hb
    · exact .notBlocked hp (not_not.1 hb)
  · cases h
    exact .enable hp

end Moves

/-! ## The wakes cover the slots -/

/-- The channels whose slot is in use. -/
def State.full (s : State) : Finset ℕ := (Finset.range 16).filter fun c => s.received c ≠ 0

/-- The channels in use that the loop over the channels has been past. -/
def State.visited (s : State) (i : ℕ) : Finset ℕ :=
  s.full.filter fun c => ∃ k < i, c = (s.lastChannel + k) % 16

/-- The messages that the pump still looks for before it waits again. -/
def State.budget (s : State) : ℕ :=
  match s.pump with
  | .wait | .waiting => 0
  | .next | .scan _ | .clear _ _ => (s.messages - s.j).toNat
  | .pass _ _ | .setLast _ | .testBlocking | .enable => (s.messages - s.j - 1).toNat

/-- The pump is in the body of the loop over the messages. -/
def Pump.counting : Pump → Bool
  | .wait | .waiting | .next => false
  | _ => true

structure PumpInv (ch : Channels) (s : State) : Prop where
  wakes : s.full.card ≤ s.gate + s.budget
  visited : ∀ i, s.pump = .scan i → (s.visited i).card ≤ s.gate
  counting : s.pump.counting → s.j < s.messages
  waiting : s.pump = .waiting → s.gate = 0
  holding : ∀ c message, s.pump = .clear c message → s.received c = message ∧ message ≠ 0
  slots : ∀ c, s.received c ≠ 0 → c < 16 ∧ ch.waitingThread c = ch.pumpThread

section Wakes

variable {ch : Channels} {s s' : State}

theorem full_card_le (s : State) : s.full.card ≤ 16 :=
  (Finset.card_filter_le _ _).trans (Finset.card_range 16).le

theorem visited_card_le (s : State) (i : ℕ) : (s.visited i).card ≤ 16 :=
  (Finset.card_filter_le _ _).trans (full_card_le s)

theorem mem_full {c : ℕ} : c ∈ s.full ↔ c < 16 ∧ s.received c ≠ 0 := by
  simp [State.full]

theorem mem_visited {c i : ℕ} :
    c ∈ s.visited i ↔ c ∈ s.full ∧ ∃ k < i, c = (s.lastChannel + k) % 16 := by
  simp [State.visited]

theorem visited_zero (s : State) : s.visited 0 = ∅ := by
  simp [State.visited]

/-- Seventeen channels from any one on are all of them. -/
theorem visited_all {i : ℕ} (hi : 17 ≤ i) : s.visited i = s.full := by
  apply Finset.filter_true_of_mem
  intro c hc
  rw [mem_full] at hc
  refine ⟨(c + 16 - s.lastChannel % 16) % 16, ?_, ?_⟩ <;> omega

/-- An empty slot is passed over. -/
theorem visited_succ {i : ℕ} (h : (s.lastChannel + i) % 16 ∉ s.full) :
    s.visited (i + 1) = s.visited i := by
  ext c
  rw [mem_visited, mem_visited]
  constructor
  · rintro ⟨hc, k, hk, rfl⟩
    rcases Nat.lt_succ_iff_lt_or_eq.1 hk with hk | rfl
    · exact ⟨hc, k, hk, rfl⟩
    · exact absurd hc h
  · rintro ⟨hc, k, hk, he⟩
    exact ⟨hc, k, by omega, he⟩

/-- The wakes do not depend on the handler, the FIFO, what is parked and the
histories. -/
theorem PumpInv.of_eq (h : PumpInv ch s) (hr : s'.received = s.received) (hg : s'.gate = s.gate)
    (hl : s'.lastChannel = s.lastChannel) (hm : s'.messages = s.messages) (hj : s'.j = s.j)
    (hp : s'.pump = s.pump) : PumpInv ch s' := by
  have hfull : s'.full = s.full := by
    unfold State.full
    rw [hr]
  have hvisited : ∀ i, s'.visited i = s.visited i := by
    intro i
    unfold State.visited
    rw [hfull, hl]
  have hbudget : s'.budget = s.budget := by
    unfold State.budget
    rw [hp, hm, hj]
  constructor
  · rw [hfull, hg, hbudget]
    exact h.wakes
  · intro i hi
    rw [hvisited, hg]
    exact h.visited i (hp ▸ hi)
  · rw [hp, hj, hm]
    exact h.counting
  · rw [hp, hg]
    exact h.waiting
  · rw [hp, hr]
    exact h.holding
  · rw [hr]
    exact h.slots

/-- A wake covers one more slot. -/
theorem PumpInv.placed (h : PumpInv ch s) (received : ℕ → ℕ) (c₀ : ℕ)
    (hkept : ∀ c, s.received c ≠ 0 → received c = s.received c)
    (hnew : ∀ c, received c ≠ 0 → s.received c ≠ 0 ∨ c = c₀)
    (hslot : received c₀ ≠ 0 → c₀ < 16 ∧ ch.waitingThread c₀ = ch.pumpThread) :
    PumpInv ch { s with received := received }.wakePump := by
  -- one more slot may be in use than before
  have hfull : { s with received := received }.full ⊆ insert c₀ s.full := by
    intro c hc
    rw [mem_full] at hc
    rw [Finset.mem_insert, mem_full]
    rcases hnew c hc.2 with hr | rfl
    · exact .inr ⟨hc.1, hr⟩
    · exact .inl rfl
  have hcard := (Finset.card_le_card hfull).trans (Finset.card_insert_le _ _)
  have hslots : ∀ c, received c ≠ 0 → c < 16 ∧ ch.waitingThread c = ch.pumpThread := by
    intro c hc
    rcases hnew c hc with hr | rfl
    · exact h.slots c hr
    · exact hslot hc
  have hholding : ∀ c message, s.pump = .clear c message →
      received c = message ∧ message ≠ 0 := by
    intro c message hp
    rcases h.holding c message hp with ⟨hr, hm⟩
    rw [hkept c (by rw [hr]; exact hm)]
    exact ⟨hr, hm⟩
  have hwakes := h.wakes
  unfold State.wakePump
  split_ifs with hp hg
  · -- the pump was blocked, and no slot was in use
    have hp : s.pump = .waiting := hp
    have hgate := h.waiting hp
    have hbudget : s.budget = 0 := by simp [State.budget, hp]
    constructor
    · refine hcard.trans ?_
      show s.full.card + 1 ≤ 0 + 1
      omega
    · intro i hi
      cases hi
    · intro hc
      cases hc
    · intro hc
      cases hc
    · intro c message hc
      cases hc
    · exact hslots
  · constructor
    · refine hcard.trans ?_
      show s.full.card + 1 ≤ s.gate + 1 + s.budget
      omega
    · intro i hi
      have hvisited : { s with received := received }.visited i ⊆ insert c₀ (s.visited i) := by
        intro c hc
        rcases mem_visited.1 hc with ⟨hf, hk⟩
        rcases Finset.mem_insert.1 (hfull hf) with rfl | hf
        · exact Finset.mem_insert_self _ _
        · exact Finset.mem_insert_of_mem (mem_visited.2 ⟨hf, hk⟩)
      have hle := (Finset.card_le_card hvisited).trans (Finset.card_insert_le _ _)
      have hi' := h.visited i hi
      exact hle.trans (Nat.succ_le_succ hi')
    · exact h.counting
    · intro hw
      exact absurd hw hp
    · exact hholding
    · exact hslots
  · -- the gate is at its maximum, which is more than there are slots
    have hmax : 16 ≤ s.gate := le_trans (by decide) (not_lt.1 hg)
    constructor
    · exact (full_card_le _).trans (by show 16 ≤ s.gate + s.budget; omega)
    · intro i hi
      exact (visited_card_le _ i).trans hmax
    · exact h.counting
    · exact h.waiting
    · exact hholding
    · exact hslots

theorem PumpInv.wake (h : PumpInv ch s) (thread : ℕ) : PumpInv ch (s.wake ch thread) := by
  unfold State.wake
  split_ifs
  · exact h.placed s.received 0 (fun _ _ => rfl) (fun _ hc => .inl hc) (h.slots 0)
  · exact h

theorem PumpInv.deliver (h : PumpInv ch s) {message : ℕ}
    (hw : ch.waitingThread (channelOf message) ≠ 0)
    (hr : s.received (channelOf message) = 0) : PumpInv ch (s.deliver ch message) := by
  have hpump := ch.registered _ hw
  unfold State.deliver State.wake
  rw [if_pos hpump]
  refine h.placed _ (channelOf message) ?_ ?_ ?_
  · intro c hc
    rw [Function.update_of_ne]
    rintro rfl
    exact hc hr
  · intro c hc
    by_cases he : c = channelOf message
    · exact .inr he
    · rw [Function.update_of_ne he] at hc
      exact .inl hc
  · intro _
    exact ⟨Nat.mod_lt _ (by omega), hpump⟩

theorem PumpInv.handler (h : PumpInv ch s) (hparked : s.blocking ≠ 0 → Claimed ch s.blocking)
    (hmove : HandlerMove ch s s') : PumpInv ch s' := by
  -- the handler changes a slot only in `deliver`, and the pump only by a wake
  cases hmove with
  | unpark _ hb hr =>
    have h' : PumpInv ch { s with blocking := 0, handler := .loop } :=
      h.of_eq rfl rfl rfl rfl rfl rfl
    exact h'.deliver (hparked hb).2.1 hr
  | deliver _ hw hr =>
    have h' : PumpInv ch { s with handler := .loop } := h.of_eq rfl rfl rfl rfl rfl rfl
    exact h'.deliver hw hr
  | wakeSender =>
    have h' : PumpInv ch { s with handler := .idle } := h.of_eq rfl rfl rfl rfl rfl rfl
    exact h'.wake _
  | _ => exact h.of_eq rfl rfl rfl rfl rfl rfl

theorem toInt_of_lt {n : ℕ} (hn : n < 2 ^ 31) : toInt n = n := by
  unfold toInt
  rw [Int.bmod_def]
  omega

/-- A move that leaves the slots and the gate as they are. -/
theorem PumpInv.goto (h : PumpInv ch s) (hr : s'.received = s.received) (hg : s'.gate = s.gate)
    (hbudget : s.budget ≤ s'.budget) (hcounting : s'.pump.counting → s'.j < s'.messages)
    (hscan : ∀ i, s'.pump ≠ .scan i) (hwaiting : s'.pump ≠ .waiting)
    (hclear : ∀ c message, s'.pump ≠ .clear c message) : PumpInv ch s' := by
  have hfull : s'.full = s.full := by
    unfold State.full
    rw [hr]
  constructor
  · rw [hfull, hg]
    exact h.wakes.trans (Nat.add_le_add_left hbudget _)
  · intro i hi
    exact absurd hi (hscan i)
  · exact hcounting
  · intro hw
    exact absurd hw hwaiting
  · intro c message hc
    exact absurd hc (hclear c message)
  · rw [hr]
    exact h.slots

theorem PumpInv.woken (h : PumpInv ch s) (hp : s.pump = .wait) {messages : ℤ}
    (hm : messages = (s.gate + 1 : ℕ)) :
    PumpInv ch { s with messages := messages, gate := 0, j := 0, pump := .next } := by
  have hwakes := h.wakes
  have hbudget : s.budget = 0 := by simp only [State.budget, hp]
  refine ⟨?_, ?_, ?_, ?_, ?_, h.slots⟩
  · show s.full.card ≤ 0 + (messages - (0 : ℕ)).toNat
    omega
  all_goals intros; contradiction

theorem PumpInv.clear (h : PumpInv ch s) {c message : ℕ} (hp : s.pump = .clear c message) :
    PumpInv ch
      { s with received := Function.update s.received c 0, pump := .pass c message } := by
  have hwakes := h.wakes
  have hbudget : s.budget = (s.messages - s.j).toNat := by simp only [State.budget, hp]
  have hj := h.counting (by rw [hp]; rfl)
  rcases h.holding c message hp with ⟨hr, hm⟩
  have hreceived : s.received c ≠ 0 := by
    rw [hr]
    exact hm
  have hold : ∀ c', Function.update s.received c 0 c' ≠ 0 → c' ≠ c ∧ s.received c' ≠ 0 := by
    intro c' hc'
    by_cases he : c' = c
    · rw [he, Function.update_self] at hc'
      exact absurd rfl hc'
    · rw [Function.update_of_ne he] at hc'
      exact ⟨he, hc'⟩
  have hfull : { s with received := Function.update s.received c 0 }.full ⊆ s.full.erase c := by
    intro c' hc'
    rcases mem_full.1 hc' with ⟨hlt, hne⟩
    rcases hold c' hne with ⟨he, hr'⟩
    exact Finset.mem_erase.2 ⟨he, mem_full.2 ⟨hlt, hr'⟩⟩
  have hle := Finset.card_le_card hfull
  have hcard := Finset.card_erase_add_one (mem_full.2 ⟨(h.slots c hreceived).1, hreceived⟩)
  refine ⟨?_, ?_, fun _ => hj, ?_, ?_, ?_⟩
  · refine hle.trans ?_
    show (s.full.erase c).card ≤ s.gate + (s.messages - s.j - 1).toNat
    omega
  · intros; contradiction
  · intros; contradiction
  · intros; contradiction
  · intro c' hc'
    exact h.slots c' (hold c' hc').2

theorem PumpInv.pump (h : PumpInv ch s) (hgate : s.pump = .wait → s.gate < maxGate)
    (hmove : PumpMove ch s s') : PumpInv ch s' := by
  have hwakes := h.wakes
  have hbudget : s.budget = s.budget := rfl
  conv at hbudget => rhs; unfold State.budget
  cases hmove with
  | woken hp _ =>
    have hlt := hgate hp
    unfold maxGate at hlt
    exact h.woken hp (toInt_of_lt (by omega))
  | block hp hg =>
    simp only [hp] at hbudget
    refine ⟨?_, ?_, ?_, fun _ => hg, ?_, h.slots⟩
    · show s.full.card ≤ s.gate + 0
      omega
    all_goals intros; contradiction
  | again hp hj =>
    simp only [hp] at hbudget
    refine ⟨?_, ?_, fun _ => hj, ?_, ?_, h.slots⟩
    · show s.full.card ≤ s.gate + (s.messages - s.j).toNat
      omega
    · intro i hi
      cases hi
      show (s.visited 0).card ≤ s.gate
      rw [visited_zero]
      exact Nat.zero_le _
    all_goals intros; contradiction
  | done hp hj =>
    simp only [hp] at hbudget
    refine h.goto rfl rfl ?_ ?_ ?_ ?_ ?_
    · show s.budget ≤ 0
      omega
    · intros; contradiction
    all_goals intros; simp
  | found hp _ hr =>
    simp only [hp] at hbudget
    have hj := h.counting (by rw [hp]; rfl)
    refine ⟨?_, ?_, fun _ => hj, ?_, ?_, h.slots⟩
    · show s.full.card ≤ s.gate + (s.messages - s.j).toNat
      omega
    · intros; contradiction
    · intros; contradiction
    · intro c message hc
      cases hc
      exact ⟨rfl, hr⟩
  | @skip i hp hi hc =>
    simp only [hp] at hbudget
    have hj := h.counting (by rw [hp]; rfl)
    have hempty : (s.lastChannel + i) % 16 ∉ s.full := by
      rw [mem_full]
      rintro ⟨-, hr⟩
      exact hc ⟨(h.slots _ hr).2, hr⟩
    refine ⟨?_, ?_, fun _ => hj, ?_, ?_, h.slots⟩
    · show s.full.card ≤ s.gate + (s.messages - s.j).toNat
      omega
    · intro i' hi'
      cases hi'
      show (s.visited (i + 1)).card ≤ s.gate
      rw [visited_succ hempty]
      exact h.visited i hp
    all_goals intros; contradiction
  | @nothing i hp hi =>
    -- every slot has been visited, so the gate covers what is in use
    have hall := h.visited i hp
    rw [visited_all hi] at hall
    refine ⟨hall.trans (Nat.le_add_right _ _), ?_, ?_, ?_, ?_, h.slots⟩
    all_goals intros; contradiction
  | clear hp => exact h.clear hp
  | pass hp | setLast hp | blocked hp =>
    simp only [hp] at hbudget
    have hj := h.counting (by rw [hp]; rfl)
    refine h.goto rfl rfl ?_ (fun _ => hj) ?_ ?_ ?_
    · show s.budget ≤ (s.messages - s.j - 1).toNat
      omega
    all_goals intros; simp
  | notBlocked hp | enable hp =>
    simp only [hp] at hbudget
    refine h.goto rfl rfl ?_ ?_ ?_ ?_ ?_
    · show s.budget ≤ (s.messages - (s.j + 1 : ℕ)).toNat
      omega
    · intros; contradiction
    all_goals intros; simp

end Wakes

/-! ## A parked message will be moved -/

/-- The pump has emptied a slot, and is about to test `blocking_message`. -/
def Pump.switching : Pump → Bool
  | .pass _ _ | .setLast _ | .testBlocking | .enable => true
  | _ => false

/-- `blocking_message` is 0 in the loop over the FIFO. -/
def Handler.looping : Handler → Bool
  | .loop | .dispatch _ => true
  | _ => false

/-- The handler is not at work on `blocking_message`. -/
def Handler.resting : Handler → Bool
  | .idle | .wakeSender => true
  | _ => false

structure ParkInv (ch : Channels) (s : State) : Prop where
  fifo : ∀ message ∈ s.fifo, Claimed ch message
  parked : s.blocking ≠ 0 → Claimed ch s.blocking
  reading : ∀ message, s.handler = .dispatch message → Claimed ch message
  looping : s.handler.looping → s.blocking = 0
  pausing : s.handler = .pause → s.blocking ≠ 0 → s.received (channelOf s.blocking) ≠ 0
  moving : s.handler.resting → s.blocking ≠ 0 →
    s.received (channelOf s.blocking) ≠ 0 ∨ s.asserted ∨ s.pump.switching
  running : ∀ brk, s.handler ≠ .stopped brk

/-- The interrupts are not switched on while the FIFO is empty and a parked message
could be delivered, no parked message is looked at while its slot is in use, and the
pump is not woken more often than a gate can count. -/
def Prompt (s : State) : Action → Prop
  | .arrive _ => True
  | .handler => s.handler = .testBlocking → s.blocking ≠ 0 →
      s.received (channelOf s.blocking) = 0
  | .pump => (s.pump = .wait → s.gate < maxGate) ∧
      (s.pump = .enable → s.blocking ≠ 0 → s.received (channelOf s.blocking) = 0 → s.fifo ≠ [])

section Parked

variable {ch : Channels} {s s' : State}

/-- A wake changes the pump and its gate only. -/
structure Woken (s s' : State) : Prop where
  received : s'.received = s.received
  blocking : s'.blocking = s.blocking
  fifo : s'.fifo = s.fifo
  interruptsOn : s'.interruptsOn = s.interruptsOn
  handler : s'.handler = s.handler
  arrived : s'.arrived = s.arrived
  taken : s'.taken = s.taken
  passed : s'.passed = s.passed
  pump : s'.pump = s.pump ∨ s.pump = .waiting ∧ s'.pump = .next

theorem State.wakePump_woken (s : State) : Woken s s.wakePump := by
  unfold State.wakePump
  split_ifs with hp hg
  · exact ⟨rfl, rfl, rfl, rfl, rfl, rfl, rfl, rfl, .inr ⟨hp, rfl⟩⟩
  · exact ⟨rfl, rfl, rfl, rfl, rfl, rfl, rfl, rfl, .inl rfl⟩
  · exact ⟨rfl, rfl, rfl, rfl, rfl, rfl, rfl, rfl, .inl rfl⟩

theorem State.wake_woken (ch : Channels) (s : State) (thread : ℕ) :
    Woken s (s.wake ch thread) := by
  unfold State.wake
  split_ifs
  · exact s.wakePump_woken
  · exact ⟨rfl, rfl, rfl, rfl, rfl, rfl, rfl, rfl, .inl rfl⟩

theorem Woken.asserted (h : Woken s s') : s'.asserted = s.asserted := by
  unfold State.asserted
  rw [h.interruptsOn, h.fifo]

theorem Woken.switching (h : Woken s s') : s'.pump.switching = s.pump.switching := by
  rcases h.pump with hp | ⟨hp, hp'⟩
  · rw [hp]
  · rw [hp, hp']
    rfl

theorem ParkInv.woken (h : ParkInv ch s) (hw : Woken s s') : ParkInv ch s' := by
  constructor
  · rw [hw.fifo]
    exact h.fifo
  · rw [hw.blocking]
    exact h.parked
  · rw [hw.handler]
    exact h.reading
  · rw [hw.handler, hw.blocking]
    exact h.looping
  · rw [hw.handler, hw.blocking, hw.received]
    exact h.pausing
  · rw [hw.handler, hw.blocking, hw.received, hw.asserted, hw.switching]
    exact h.moving
  · rw [hw.handler]
    exact h.running

/-- With nothing parked, all that matters is what is read from the FIFO. -/
theorem ParkInv.free (hf : ∀ message ∈ s.fifo, Claimed ch message) (hb : s.blocking = 0)
    (hr : ∀ message, s.handler = .dispatch message → Claimed ch message)
    (hs : ∀ brk, s.handler ≠ .stopped brk) : ParkInv ch s := by
  refine ⟨hf, ?_, hr, fun _ => hb, ?_, ?_, hs⟩
  · intro hne
    exact absurd hb hne
  · intro _ hne
    exact absurd hb hne
  · intro _ hne
    exact absurd hb hne

/-- The handler rests, or is about to. -/
theorem ParkInv.rest {handler : Handler} (h : ParkInv ch s) (hrest : s.handler.resting)
    (hh : handler = .idle ∨ handler = .wakeSender) : ParkInv ch { s with handler := handler } := by
  have hmoving := h.moving hrest
  refine ⟨h.fifo, h.parked, ?_, ?_, ?_, ?_, ?_⟩
  · intro message hd
    rcases hh with rfl | rfl <;> cases hd
  · intro hl
    rcases hh with rfl | rfl <;> cases hl
  · intro hp
    rcases hh with rfl | rfl <;> cases hp
  · exact fun _ => hmoving
  · intro brk hs
    rcases hh with rfl | rfl <;> cases hs

theorem ParkInv.handler (h : ParkInv ch s) (hprompt : Prompt s .handler)
    (hmove : HandlerMove ch s s') : ParkInv ch s' := by
  cases hmove with
  | enter hh ha =>
    refine ⟨h.fifo, h.parked, ?_, ?_, ?_, ?_, ?_⟩
    all_goals intros; first | contradiction | simp
  | spurious hh ha => exact h.rest (by rw [hh]; rfl) (.inr rfl)
  | unpark hh hb hr =>
    -- the slot is empty: the parked message goes there
    have hfree : ParkInv ch { s with
        received := Function.update s.received (channelOf s.blocking) (address s.blocking)
        blocking := 0, handler := .loop } := by
      refine .free h.fifo rfl ?_ ?_
      all_goals intros; first | contradiction | simp
    exact hfree.woken (State.wake_woken _ _ _)
  | busy hh hb hr => exact absurd (hprompt hh hb) hr
  | notParked hh hb =>
    refine .free h.fifo hb ?_ ?_
    all_goals intros; first | contradiction | simp
  | @take message rest hh hf =>
    have hall := h.fifo
    rw [hf] at hall
    refine .free ?_ (h.looping (by rw [hh]; rfl)) ?_ ?_
    · intro m hm
      exact hall m (List.mem_cons_of_mem _ hm)
    · intro m hm
      cases hm
      exact hall message List.mem_cons_self
    · intros; simp
  | emptied hh hf =>
    refine .free h.fifo (h.looping (by rw [hh]; rfl)) ?_ ?_
    all_goals intros; first | contradiction | simp
  | unclaimed hh hw => exact absurd hw (h.reading _ hh).2.1
  | @deliver message hh hw hr =>
    have hfree : ParkInv ch { s with
        received := Function.update s.received (channelOf message) (address message)
        handler := .loop } := by
      refine .free h.fifo (h.looping (by rw [hh]; rfl)) ?_ ?_
      all_goals intros; first | contradiction | simp
    exact hfree.woken (State.wake_woken _ _ _)
  | @park message hh hr =>
    refine ⟨h.fifo, fun _ => h.reading message hh, ?_, ?_, fun _ _ => hr, ?_, ?_⟩
    all_goals intros; first | contradiction | simp
  | pause hh hb =>
    -- the interrupts go off while the slot of the parked message is in use
    refine ⟨h.fifo, h.parked, ?_, ?_, ?_, ?_, ?_⟩
    · intros; contradiction
    · intros; contradiction
    · intros; contradiction
    · intro _ hb
      exact .inl (h.pausing hh hb)
    · intros; simp
  | finish hh hb =>
    refine .free h.fifo hb ?_ ?_
    all_goals intros; first | contradiction | simp
  | wakeSender hh =>
    have hidle : ParkInv ch { s with handler := .idle } := h.rest (by rw [hh]; rfl) (.inl rfl)
    exact hidle.woken (State.wake_woken _ _ _)
  | leave hh => exact h.rest (by rw [hh]; rfl) (.inl rfl)

/-- While the handler is idle, a pump that leaves `blocking_message` and the FIFO
alone has to keep what will move the parked message. -/
theorem ParkInv.idle (h : ParkInv ch s) (hh : s'.handler = .idle) (hb : s'.blocking = s.blocking)
    (hf : s'.fifo = s.fifo)
    (hmoving : s.blocking ≠ 0 → s'.received (channelOf s.blocking) ≠ 0 ∨ s'.asserted ∨
      s'.pump.switching) : ParkInv ch s' := by
  refine ⟨?_, ?_, ?_, ?_, ?_, ?_, ?_⟩
  · rw [hf]
    exact h.fifo
  · rw [hb]
    exact h.parked
  · rw [hh]
    intros; contradiction
  · rw [hh]
    intros; contradiction
  · rw [hh]
    intros; contradiction
  · rw [hb]
    exact fun _ => hmoving
  · rw [hh]
    intros; simp

theorem ParkInv.pump (h : ParkInv ch s) (hh : s.handler = .idle) (hprompt : Prompt s .pump)
    (hmove : PumpMove ch s s') : ParkInv ch s' := by
  have hmoving := h.moving (by rw [hh]; rfl)
  cases hmove with
  | clear hp | pass hp | setLast hp | blocked hp =>
    exact h.idle hh rfl rfl (fun _ => .inr (.inr rfl))
  | notBlocked hp hb => exact h.idle hh rfl rfl (fun hne => absurd hb hne)
  | enable hp =>
    refine h.idle hh rfl rfl ?_
    intro hb
    by_cases hr : s.received (channelOf s.blocking) = 0
    · exact .inr (.inl (asserted_iff.2 ⟨rfl, hprompt.2 hp hb hr⟩))
    · exact .inl hr
  | _ hp =>
    refine h.idle hh rfl rfl ?_
    intro hb
    rcases hmoving hb with hr | ha | hs
    · exact .inl hr
    · exact .inr (.inl ha)
    · rw [hp] at hs
      contradiction

theorem ParkInv.arrive (h : ParkInv ch s) {message : ℕ} (hm : Claimed ch message) :
    ParkInv ch { s with fifo := s.fifo ++ [message], arrived := s.arrived ++ [message] } := by
  refine ⟨?_, h.parked, h.reading, h.looping, h.pausing, ?_, h.running⟩
  · intro m hm'
    rcases List.mem_append.1 hm' with hm' | hm'
    · exact h.fifo m hm'
    · rw [List.mem_singleton.1 hm']
      exact hm
  · intro hr hb
    rcases h.moving hr hb with hr | ha | hs
    · exact .inl hr
    · refine .inr (.inl (asserted_iff.2 ⟨(asserted_iff.1 ha).1, ?_⟩))
      simp
    · exact .inr (.inr hs)

end Parked

/-! ## No message is lost -/

/-- The addresses of the messages on a channel. -/
def onChannel (c : ℕ) (messages : List ℕ) : List ℕ :=
  (messages.filter fun message => channelOf message = c).map address

namespace State

/-- What the client of a channel has been passed. -/
def passedOn (s : State) (c : ℕ) : List ℕ := (s.passed.filter fun p => p.1 = c).map Prod.snd

/-- The message that the pump has taken out of the slot. -/
def held (s : State) (c : ℕ) : List ℕ :=
  match s.pump with
  | .pass c' message => if c' = c then [message] else []
  | _ => []

def slot (s : State) (c : ℕ) : List ℕ := if s.received c = 0 then [] else [s.received c]

def parked (s : State) (c : ℕ) : List ℕ :=
  if s.blocking = 0 then [] else onChannel c [s.blocking]

/-- The message that the handler has just read. -/
def reading (s : State) (c : ℕ) : List ℕ :=
  match s.handler with
  | .dispatch message => onChannel c [message]
  | _ => []

/-- What has been taken from the FIFO and not been passed on, oldest first. -/
def inTransit (s : State) (c : ℕ) : List ℕ :=
  s.held c ++ (s.slot c ++ (s.parked c ++ s.reading c))

end State

structure OrderInv (s : State) : Prop where
  order : ∀ c, s.passedOn c ++ s.inTransit c = onChannel c s.taken
  arrived : s.taken ++ s.fifo = s.arrived

section Order

variable {ch : Channels} {s s' : State}

theorem onChannel_append (c : ℕ) (l l' : List ℕ) :
    onChannel c (l ++ l') = onChannel c l ++ onChannel c l' := by
  simp [onChannel]

theorem onChannel_self (message : ℕ) :
    onChannel (channelOf message) [message] = [address message] := by
  simp [onChannel]

theorem onChannel_of_ne {c message : ℕ} (h : channelOf message ≠ c) :
    onChannel c [message] = [] := by
  simp [onChannel, h]

/-- A move that shifts messages from one place to the next. -/
theorem OrderInv.of_eq (h : OrderInv s)
    (horder : ∀ c, s'.passedOn c ++ s'.inTransit c = s.passedOn c ++ s.inTransit c)
    (ht : s'.taken = s.taken) (hf : s'.fifo = s.fifo) (ha : s'.arrived = s.arrived) :
    OrderInv s' := by
  constructor
  · intro c
    rw [horder, ht]
    exact h.order c
  · rw [ht, hf, ha]
    exact h.arrived

theorem OrderInv.woken (h : OrderInv s) (hw : Woken s s') : OrderInv s' := by
  refine h.of_eq ?_ hw.taken hw.fifo hw.arrived
  intro c
  have hheld : s'.held c = s.held c := by
    unfold State.held
    rcases hw.pump with hp | ⟨hp, hp'⟩
    · rw [hp]
    · rw [hp, hp']
  unfold State.passedOn State.inTransit State.slot State.parked State.reading
  rw [hw.passed, hheld, hw.received, hw.blocking, hw.handler]

theorem ne_zero_of_address {message : ℕ} (h : address message ≠ 0) : message ≠ 0 := by
  rintro rfl
  exact h rfl

/-- The oldest message that is not in a slot goes into its slot, which is empty. -/
theorem OrderInv.place (h : OrderInv s) {message : ℕ} (hm : address message ≠ 0)
    (hr : s.received (channelOf message) = 0)
    (hreceived : s'.received = Function.update s.received (channelOf message) (address message))
    (hqueue : ∀ c, s.parked c ++ s.reading c =
      onChannel c [message] ++ (s'.parked c ++ s'.reading c))
    (hp : s'.pump = s.pump) (hpassed : s'.passed = s.passed) (ht : s'.taken = s.taken)
    (hf : s'.fifo = s.fifo) (ha : s'.arrived = s.arrived) : OrderInv s' := by
  refine h.of_eq ?_ ht hf ha
  intro c
  have hslot : s'.slot c = s.slot c ++ onChannel c [message] := by
    unfold State.slot
    rw [hreceived]
    by_cases hc : channelOf message = c
    · subst hc
      rw [Function.update_self, if_neg hm, if_pos hr, onChannel_self, List.nil_append]
    · rw [Function.update_of_ne (Ne.symm hc), onChannel_of_ne hc, List.append_nil]
  have hheld : s'.held c = s.held c := by
    unfold State.held
    rw [hp]
  unfold State.inTransit State.passedOn
  rw [hpassed, hheld, hslot, hqueue, List.append_assoc]

theorem OrderInv.handler (h : OrderInv s) (hpark : ParkInv ch s)
    (hmove : HandlerMove ch s s') : OrderInv s' := by
  cases hmove with
  | unpark hh hb hr =>
    -- from `blocking_message` to the slot
    have hplaced : OrderInv { s with
        received := Function.update s.received (channelOf s.blocking) (address s.blocking)
        blocking := 0, handler := .loop } := by
      refine h.place (hpark.parked hb).2.2 hr rfl ?_ rfl rfl rfl rfl rfl
      intro c
      simp [State.parked, State.reading, hh, hb]
    exact hplaced.woken (State.wake_woken _ _ _)
  | @take message rest hh hf =>
    constructor
    · intro c
      have hreading : s.reading c = [] := by simp only [State.reading, hh]
      rw [onChannel_append, ← h.order c]
      simp only [State.inTransit, hreading]
      show s.passedOn c ++ (s.held c ++ (s.slot c ++ (s.parked c ++ onChannel c [message]))) = _
      simp
    · show s.taken ++ [message] ++ rest = s.arrived
      rw [← h.arrived, hf]
      simp
  | @deliver message hh hw hr =>
    -- from the FIFO to the slot, with nothing parked
    have hb := hpark.looping (by rw [hh]; rfl)
    have hplaced : OrderInv { s with
        received := Function.update s.received (channelOf message) (address message)
        handler := .loop } := by
      refine h.place (hpark.reading message hh).2.2 hr rfl ?_ rfl rfl rfl rfl rfl
      intro c
      simp [State.parked, State.reading, hh, hb]
    exact hplaced.woken (State.wake_woken _ _ _)
  | @park message hh hr =>
    have hb := hpark.looping (by rw [hh]; rfl)
    have hm := ne_zero_of_address (hpark.reading message hh).2.2
    refine h.of_eq ?_ rfl rfl rfl
    intro c
    have hqueue : s.parked c ++ s.reading c = onChannel c [message] := by
      simp [State.parked, State.reading, hh, hb]
    unfold State.inTransit
    rw [hqueue]
    show s.passedOn c ++ (s.held c ++ (s.slot c ++
      ((if message = 0 then [] else onChannel c [message]) ++ []))) = _
    rw [if_neg hm, List.append_nil]
  | unclaimed hh hw => exact absurd hw (hpark.reading _ hh).2.1
  | wakeSender hh =>
    have hidle : OrderInv { s with handler := .idle } := by
      refine h.of_eq ?_ rfl rfl rfl
      intro c
      simp [State.inTransit, State.reading, State.passedOn, State.held, State.slot, State.parked,
        hh]
    exact hidle.woken (State.wake_woken _ _ _)
  | _ hh =>
    refine h.of_eq ?_ rfl rfl rfl
    intro c
    simp [State.inTransit, State.reading, State.passedOn, State.held, State.slot, State.parked, hh]

theorem OrderInv.pump (h : OrderInv s) (hinv : PumpInv ch s)
    (hmove : PumpMove ch s s') : OrderInv s' := by
  cases hmove with
  | @clear c message hp =>
    rcases hinv.holding c message hp with ⟨hr, hm⟩
    refine h.of_eq ?_ rfl rfl rfl
    intro c'
    have hheld : s.held c' = [] := by simp only [State.held, hp]
    unfold State.inTransit
    rw [hheld]
    show s.passedOn c' ++ ((if c = c' then [message] else []) ++
      ((if Function.update s.received c 0 c' = 0 then []
        else [Function.update s.received c 0 c']) ++ (s.parked c' ++ s.reading c'))) = _
    by_cases hc : c = c'
    · subst hc
      have hslot : s.slot c = [message] := by
        unfold State.slot
        rw [hr, if_neg hm]
      rw [hslot, Function.update_self, if_pos rfl, if_pos rfl]
      rfl
    · rw [if_neg hc, Function.update_of_ne (Ne.symm hc)]
      rfl
  | @pass c message hp =>
    refine h.of_eq ?_ rfl rfl rfl
    intro c'
    have hheld : s.held c' = if c = c' then [message] else [] := by simp only [State.held, hp]
    have hpassed : { s with passed := s.passed ++ [(c, message)], pump := .setLast c }.passedOn c' =
        s.passedOn c' ++ s.held c' := by
      rw [hheld]
      unfold State.passedOn
      by_cases hc : c = c'
      · simp [hc]
      · simp [hc]
    rw [hpassed]
    show s.passedOn c' ++ s.held c' ++ ([] ++ (s.slot c' ++ (s.parked c' ++ s.reading c'))) = _
    rw [List.nil_append, List.append_assoc]
    rfl
  | _ hp =>
    refine h.of_eq ?_ rfl rfl rfl
    intro c
    simp [State.inTransit, State.reading, State.passedOn, State.held, State.slot, State.parked, hp]

theorem OrderInv.arrive (h : OrderInv s) (message : ℕ) :
    OrderInv { s with fifo := s.fifo ++ [message], arrived := s.arrived ++ [message] } := by
  constructor
  · exact h.order
  · show s.taken ++ (s.fifo ++ [message]) = s.arrived ++ [message]
    rw [← h.arrived, List.append_assoc]

end Order

/-! ## Whole runs -/

structure Inv (ch : Channels) (s : State) : Prop where
  pump : PumpInv ch s
  park : ParkInv ch s
  order : OrderInv s

/-- Only a message from the GPU can make something happen: the pump waits, nothing
has woken it, and no interrupt can fire. -/
def Quiet (s : State) : Prop :=
  s.pump = .waiting ∧ s.gate = 0 ∧ s.handler = .idle ∧ ¬ s.asserted

/-- The clients have been passed the messages that were taken from the FIFO, in
order and once each: the first of them in every state, all of them in a quiet
one. -/
structure Passed (s : State) : Prop where
  running : ∀ brk, s.handler ≠ .stopped brk
  arrived : s.taken ++ s.fifo = s.arrived
  inOrder : ∀ c, s.passedOn c <+: onChannel c s.taken
  notBlocked : Quiet s → s.blocking = 0
  emptied : Quiet s → ∀ c, s.received c = 0
  all : Quiet s → ∀ c, s.passedOn c = onChannel c s.taken

section Runs

variable {ch : Channels} {s s' : State}

theorem inv_initial (ch : Channels) (on : Bool) : Inv ch (initial on) := by
  refine ⟨⟨?_, ?_, ?_, ?_, ?_, ?_⟩, ?_, ⟨?_, rfl⟩⟩
  · simp [State.full, initial]
  · intros; contradiction
  · intros; contradiction
  · intros; contradiction
  · intros; contradiction
  · intro c hc
    exact absurd rfl hc
  · refine .free ?_ rfl ?_ ?_
    · intro m hm
      cases hm
    all_goals intros; first | contradiction | simp [initial]
  · intro c
    rfl

theorem step_inv (h : Inv ch s) {a : Action} (hprompt : Prompt s a)
    (hstep : step ch s a = some s') : Inv ch s' := by
  cases a with
  | arrive message =>
    simp only [step] at hstep
    split_ifs at hstep with hm
    cases hstep
    exact ⟨h.pump.of_eq rfl rfl rfl rfl rfl rfl, h.park.arrive hm, h.order.arrive message⟩
  | handler =>
    have hmove := handler_move hstep
    exact ⟨h.pump.handler h.park.parked hmove, h.park.handler hprompt hmove,
      h.order.handler h.park hmove⟩
  | pump =>
    simp only [step] at hstep
    split_ifs at hstep with hh
    have hmove := pump_move hstep
    exact ⟨h.pump.pump hprompt.1 hmove, h.park.pump hh hprompt hmove, h.order.pump h.pump hmove⟩

/-- In a quiet state no slot is in use: the wakes would not cover it. -/
theorem PumpInv.quiet (h : PumpInv ch s) (hq : Quiet s) (c : ℕ) : s.received c = 0 := by
  by_contra hr
  have hwakes := h.wakes
  have hbudget : s.budget = 0 := by simp only [State.budget, hq.1]
  have hempty : s.full = ∅ := by
    apply Finset.card_eq_zero.1
    have := hq.2.1
    omega
  have hmem := mem_full.2 ⟨(h.slots c hr).1, hr⟩
  rw [hempty] at hmem
  cases hmem

theorem Inv.notBlocked (h : Inv ch s) (hq : Quiet s) : s.blocking = 0 := by
  by_contra hb
  rcases hq with ⟨hp, hg, hh, ha⟩
  rcases h.park.moving (by rw [hh]; rfl) hb with hr | ha' | hs
  · exact hr (h.pump.quiet ⟨hp, hg, hh, ha⟩ _)
  · exact ha ha'
  · rw [hp] at hs
    contradiction

theorem Inv.all (h : Inv ch s) (hq : Quiet s) (c : ℕ) : s.passedOn c = onChannel c s.taken := by
  have hslot := h.pump.quiet hq c
  have hb := h.notBlocked hq
  rcases hq with ⟨hp, -, hh, -⟩
  rw [← h.order.order c]
  simp [State.inTransit, State.held, State.slot, State.parked, State.reading, hp, hslot, hb, hh]

/-- **No message gets stuck**, in every run in which the interrupts are switched on
only for something to read, and no parked message is looked at too early. -/
theorem run_passed (h : ((pumpSystem ch).restrict Prompt).Reachable s) : Passed s := by
  have hinv : Inv ch s := by
    refine h.invariant ?_ ?_
    · rintro s ⟨on, rfl⟩
      exact inv_initial ch on
    · rintro s a s' hs ⟨hprompt, hstep⟩
      exact step_inv hs hprompt hstep
  constructor
  · exact hinv.park.running
  · exact hinv.order.arrived
  · intro c
    exact ⟨_, hinv.order.order c⟩
  · exact hinv.notBlocked
  · exact hinv.pump.quiet
  · exact hinv.all

/-! ## What the condition leaves out -/

/-- A message that is parked while the FIFO is empty stays there until the GPU sends
another one: the pump does not move it, and the handler finds no interrupt. -/
theorem parked_stays {l : List Action} (ht : (pumpSystem ch).Trace s l s')
    (hh : s.handler.resting) (hf : s.fifo = [])
    (hl : ∀ a ∈ l, a = .handler ∨ a = .pump) :
    s'.blocking = s.blocking ∧ s'.fifo = [] ∧ s'.handler.resting := by
  induction ht with
  | nil => exact ⟨rfl, hf, hh⟩
  | @concat l t t' a ht hstep ih =>
    rcases ih (fun b hb => hl b (List.mem_append_left _ hb)) with ⟨hb, hf, hh⟩
    rcases hl a (List.mem_append_right _ List.mem_cons_self) with rfl | rfl
    · have hna : ¬ t.asserted := fun ha => (asserted_iff.1 ha).2 hf
      have hmove := handler_move hstep
      cases hmove with
      | enter _ ha => exact absurd ha hna
      | spurious => exact ⟨hb, hf, rfl⟩
      | leave => exact ⟨hb, hf, rfl⟩
      | wakeSender =>
        have hw := State.wake_woken ch { t with handler := .idle } ch.blockedSendingThread
        rw [hw.blocking, hw.fifo, hw.handler]
        exact ⟨hb, hf, rfl⟩
      | _ hh' =>
        rw [hh'] at hh
        contradiction
    · simp only [pumpSystem, step] at hstep
      split_ifs at hstep
      have hmove := pump_move hstep
      cases hmove <;> exact ⟨hb, hf, hh⟩

end Runs

/-! ## Runs on fixed messages -/

instance (s : State) (a : Action) : Decidable (Prompt s a) :=
  match a with
  | .arrive _ => inferInstanceAs (Decidable True)
  | .handler => inferInstanceAs (Decidable (_ → _ → _))
  | .pump => inferInstanceAs (Decidable ((_ → _) ∧ (_ → _ → _ → _)))

/-- The steps in order, as long as each is possible and meets `ok`. -/
def play (ch : Channels) (ok : State → Action → Prop) [∀ s a, Decidable (ok s a)] (s : State) :
    List Action → Option State
  | [] => some s
  | a :: l => if ok s a then (step ch s a).bind fun s' => play ch ok s' l else none

theorem play_reachable {ch : Channels} {ok : State → Action → Prop} [∀ s a, Decidable (ok s a)]
    {s s' : State} {l : List Action} (hs : ((pumpSystem ch).restrict ok).Reachable s)
    (h : play ch ok s l = some s') : ((pumpSystem ch).restrict ok).Reachable s' := by
  induction l generalizing s with
  | nil =>
    cases h
    exact hs
  | cons a l ih =>
    simp only [play] at h
    split_ifs at h with hok
    rcases Option.bind_eq_some_iff.1 h with ⟨t, ht, hplay⟩
    exact ih (hs.step ⟨hok, ht⟩) hplay

/-- Two channels, 0 and 1, are claimed. -/
def twoChannels : Channels where
  pumpThread := 7
  waitingThread := fun c => if c < 2 then 7 else 0
  blockedSendingThread := 0
  created := by decide
  registered := by
    intro c hc
    split_ifs at hc ⊢ with h
    · rfl
    · exact absurd rfl hc

/-- Two messages arrive on channel 0, and the handler parks the second. The FIFO
holds what `rest` adds, and the pump passes the first message on. -/
def parkSecond (rest : List Action) : List Action :=
  .pump :: .arrive 0x10 :: .arrive 0x20 :: rest ++ List.replicate 8 .handler ++
    List.replicate 7 .pump

/-- A third message makes the interrupt that delivers the parked one. -/
def thirdArrives : List Action :=
  parkSecond [.arrive 0x31] ++ List.replicate 7 .handler ++ List.replicate 36 .pump

theorem run_passed_three : ∃ s, Quiet s ∧ Passed s ∧ s.passedOn 0 = [0x10, 0x20] := by
  have hplay : (play twoChannels Prompt (initial true) thirdArrives).map
      (fun s => (s.pump, s.gate, s.handler, s.asserted, s.passedOn 0)) =
        some (.waiting, 0, .idle, false, [0x10, 0x20]) := by decide +kernel
  rcases Option.map_eq_some_iff.1 hplay with ⟨s, hs, he⟩
  simp only [Prod.mk.injEq] at he
  rcases he with ⟨hp, hg, hh, ha, hpassed⟩
  refine ⟨s, ⟨hp, hg, hh, by simp [ha]⟩, ?_, hpassed⟩
  exact run_passed (play_reachable (.init ⟨true, rfl⟩) hs)

/-- The FIFO is empty when the pump switches the interrupts on, and the second
message stays in `blocking_message`. -/
theorem parked_with_empty_fifo :
    ¬ ∀ s, (pumpSystem twoChannels).Reachable s → Passed s := by
  intro h
  have hplay : (play twoChannels (fun _ _ => True) (initial true)
      (parkSecond [] ++ List.replicate 2 .pump)).map
        (fun s => (s.pump, s.gate, s.handler, s.asserted, s.blocking)) =
          some (.waiting, 0, .idle, false, 0x20) := by decide +kernel
  rcases Option.map_eq_some_iff.1 hplay with ⟨s, hs, he⟩
  simp only [Prod.mk.injEq] at he
  rcases he with ⟨hp, hg, hh, ha, hb⟩
  have hreach := play_reachable (.init ⟨true, rfl⟩) hs
  have hzero := (h s hreach.of_restrict).notBlocked ⟨hp, hg, hh, by simp [ha]⟩
  rw [hb] at hzero
  contradiction

/-- With messages on two channels the pump switches the interrupts on after the one
that is not blocked, and the handler stops. -/
example : (play twoChannels (fun _ _ => True) (initial true)
    ([.pump, .arrive 0x10, .arrive 0x21, .arrive 0x31, .arrive 0x30] ++
      List.replicate 10 .handler ++ List.replicate 7 .pump ++ List.replicate 2 .handler)).map
        State.handler = some (.stopped 4) := by decide +kernel

end Isambard.Driver.Messages
