import Isambard.Lib.Runs
import Mathlib.Logic.Function.Basic
import Mathlib.Data.Nat.Notation
import Mathlib.Algebra.Order.Ring.Nat
import Mathlib.Data.List.Basic

/-!
# Driver.Mailbox — the queue of requests to the GPU

`drivers/pi3gpu/mailbox_properties.c`: threads that send the GPU the physical
address of a buffer and wait for it to come back (`mailbox_tag_request`), and the
handler of the buffers that come back (`incoming_message`), which runs on one
thread of the mailbox driver. They share a queue of 64 slots, `requests_head`,
`requests_tail` and `blocked_thread`; each access to one of these is a step.

* `Live`: the slots that hold requests;
* `QueueInv`, `RequestInv`, `ThreadOk`, `ReceiverOk`: the parts of the invariant;
* `requesterStep_inv`: the steps of the requesting threads keep it. `Driver.Answers`
  has the steps of the handler.
-/

namespace Isambard.Driver.Mailbox

open Isambard.Lib

/-! ## The requesting threads -/

/-- `numberof( outstanding_requests )`. -/
def slots : ℕ := 64

/-- `next_outstanding_request`. -/
def nextOutstandingRequest (n : ℕ) : ℕ := (n + 1) % slots

/-- Where a thread is in `mailbox_tag_request`: its next step. The address is the
one that goes through the 32-bit registers of the mailbox. -/
inductive Requester where
  | idle
  | claimLock (pa : ℕ)
  | claimOutstanding (pa : ℕ)
  | testFull (pa : ℕ)
  | block (pa : ℕ)
  | releaseOutstanding (pa : ℕ) (listFull : Bool)
  | waitForRoom (pa : ℕ)
  | storePa (pa : ℕ)
  | storeThread (pa : ℕ)
  | advanceHead (pa : ℕ)
  | queueMessage (pa : ℕ)
  | releaseLock (pa : ℕ)
  | waitForAnswer (pa : ℕ)
deriving Repr, DecidableEq

namespace Requester

/-- The address of the request that is being made. -/
def request : Requester → Option ℕ
  | idle => none
  | claimLock pa | claimOutstanding pa | testFull pa | block pa | releaseOutstanding pa _
  | waitForRoom pa | storePa pa | storeThread pa | advanceHead pa | queueMessage pa
  | releaseLock pa | waitForAnswer pa => some pa

/-- The address of a request that is in the queue. -/
def queued : Requester → Option ℕ
  | queueMessage pa | releaseLock pa | waitForAnswer pa => some pa
  | _ => none

/-- The address of a request that the GPU has been sent. -/
def sent : Requester → Option ℕ
  | releaseLock pa | waitForAnswer pa => some pa
  | _ => none

/-- The thread holds `lock`. -/
def holdsLock : Requester → Bool
  | idle | claimLock _ | waitForAnswer _ => false
  | _ => true

/-- The thread holds `outstanding_requests_lock`. -/
def holdsOutstanding : Requester → Bool
  | testFull _ | block _ | releaseOutstanding _ _ => true
  | _ => false

/-- The thread found the queue full, and is to be woken. -/
def blocked : Requester → Bool
  | releaseOutstanding _ true | waitForRoom _ => true
  | _ => false

/-- The thread is about to fill the slot at the head. -/
def filling : Requester → Bool
  | releaseOutstanding _ false | storePa _ | storeThread _ | advanceHead _ => true
  | _ => false

end Requester

/-! ## The handler -/

/-- Where the handler is in `incoming_message`. -/
inductive Receiver where
  | idle
  | start (message : ℕ)
  | loop (message i : ℕ)
  | compare (message i : ℕ)
  | wakeRequester (message i : ℕ)
  | moveTail (i : ℕ)
  | clearPa
  | clearThread
  | claimOutstanding
  | advanceTail
  | releaseOutstanding
  | testBlocked
  | clearBlocked (thread : ℕ)
  | wakeBlocked (thread : ℕ)
  | exception (message : ℕ)
deriving Repr, DecidableEq

namespace Receiver

/-- The message whose sender has not been woken yet. -/
def handling : Receiver → Option ℕ
  | start m | loop m _ | compare m _ | wakeRequester m _ => some m
  | _ => none

/-- The slot whose request has been answered, and that is not free yet. -/
def dead (tail : ℕ) : Receiver → Option ℕ
  | moveTail i => some i
  | clearPa | clearThread | claimOutstanding | advanceTail => some tail
  | _ => none

def holdsOutstanding : Receiver → Bool
  | advanceTail | releaseOutstanding => true
  | _ => false

/-- The tail has been advanced, and the blocked thread has not been woken. -/
def freed : Receiver → Bool
  | releaseOutstanding | testBlocked | clearBlocked _ | wakeBlocked _ => true
  | _ => false

end Receiver

/-! ## Steps -/

/-- The owner of `outstanding_requests_lock`. -/
inductive Owner where
  | none
  | requester (thread : ℕ)
  | receiver
deriving Repr, DecidableEq

structure State where
  /-- `outstanding_requests[i].pa` -/
  pa : ℕ → ℕ
  /-- `outstanding_requests[i].requesting_thread` -/
  thread : ℕ → ℕ
  /-- `requests_head` -/
  head : ℕ
  /-- `requests_tail` -/
  tail : ℕ
  /-- `blocked_thread` -/
  blockedThread : ℕ
  /-- the owner of `lock`, or 0 -/
  lock : ℕ
  /-- the owner of `outstanding_requests_lock` -/
  outstanding : Owner
  /-- the wakes that a thread has not used yet -/
  wakes : ℕ → ℕ
  pc : ℕ → Requester
  receiver : Receiver
  /-- the addresses that the GPU has -/
  gpu : List ℕ

def State.goto (s : State) (t : ℕ) (r : Requester) : State :=
  { s with pc := Function.update s.pc t r }

/-- `wake_thread`. -/
def State.wake (s : State) (t : ℕ) : State :=
  { s with wakes := Function.update s.wakes t (s.wakes t + 1) }

/-- `wait_until_woken`: the thread goes on when it has been woken. -/
def State.wait (s : State) (t : ℕ) (r : Requester) : Option State :=
  if s.wakes t = 0 then none
  else some ({ s with wakes := Function.update s.wakes t (s.wakes t - 1) }.goto t r)

/-- The next step of the requesting thread `t`. -/
def requesterStep (s : State) (t : ℕ) : Option State :=
  match s.pc t with
  | .idle => none
  | .claimLock pa =>
    if s.lock = 0 then some ({ s with lock := t }.goto t (.claimOutstanding pa)) else none
  | .claimOutstanding pa =>
    if s.outstanding = .none then
      some ({ s with outstanding := .requester t }.goto t (.testFull pa))
    else none
  | .testFull pa =>
    if s.tail = nextOutstandingRequest s.head then some (s.goto t (.block pa))
    else some (s.goto t (.releaseOutstanding pa false))
  | .block pa => some ({ s with blockedThread := t }.goto t (.releaseOutstanding pa true))
  | .releaseOutstanding pa listFull =>
    some ({ s with outstanding := .none }.goto t
      (if listFull then .waitForRoom pa else .storePa pa))
  | .waitForRoom pa => s.wait t (.storePa pa)
  | .storePa pa => some ({ s with pa := Function.update s.pa s.head pa }.goto t (.storeThread pa))
  | .storeThread pa =>
    some ({ s with thread := Function.update s.thread s.head t }.goto t (.advanceHead pa))
  | .advanceHead pa =>
    some ({ s with head := nextOutstandingRequest s.head }.goto t (.queueMessage pa))
  | .queueMessage pa => some ({ s with gpu := pa :: s.gpu }.goto t (.releaseLock pa))
  | .releaseLock pa => some ({ s with lock := 0 }.goto t (.waitForAnswer pa))
  | .waitForAnswer _ => s.wait t .idle

/-- The next step of the handler. -/
def receiverStep (s : State) : Option State :=
  match s.receiver with
  | .idle => none
  | .start m => some { s with receiver := .loop m s.tail }
  | .loop m i =>
    if i = s.head then some { s with receiver := .exception m }
    else some { s with receiver := .compare m i }
  | .compare m i =>
    if s.thread i ≠ 0 ∧ s.pa i = m then some { s with receiver := .wakeRequester m i }
    else some { s with receiver := .loop m (nextOutstandingRequest i) }
  | .wakeRequester _ i => some { s.wake (s.thread i) with receiver := .moveTail i }
  | .moveTail i =>
    some { s with
      pa := Function.update s.pa i (s.pa s.tail)
      thread := Function.update s.thread i (s.thread s.tail)
      receiver := .clearPa }
  | .clearPa => some { s with pa := Function.update s.pa s.tail 0, receiver := .clearThread }
  | .clearThread =>
    some { s with thread := Function.update s.thread s.tail 0, receiver := .claimOutstanding }
  | .claimOutstanding =>
    if s.outstanding = .none then some { s with outstanding := .receiver, receiver := .advanceTail }
    else none
  | .advanceTail =>
    some { s with tail := nextOutstandingRequest s.tail, receiver := .releaseOutstanding }
  | .releaseOutstanding => some { s with outstanding := .none, receiver := .testBlocked }
  | .testBlocked =>
    if s.blockedThread ≠ 0 then some { s with receiver := .clearBlocked s.blockedThread }
    else some { s with receiver := .idle }
  | .clearBlocked thread => some { s with blockedThread := 0, receiver := .wakeBlocked thread }
  | .wakeBlocked thread => some { s.wake thread with receiver := .idle }
  | .exception _ => none

/-- A thread begins a request, a buffer comes back, or someone goes on. -/
inductive Label where
  | begin (t pa : ℕ)
  | requester (t : ℕ)
  | receive (message : ℕ)
  | receiver
deriving Repr, DecidableEq

def step (s : State) : Label → Option State
  | .begin t pa => if s.pc t = .idle then some (s.goto t (.claimLock pa)) else none
  | .requester t => requesterStep s t
  | .receive m =>
    if s.receiver = .idle ∧ m ∈ s.gpu then
      some { s with receiver := .start m, gpu := s.gpu.erase m }
    else none
  | .receiver => receiverStep s

/-- A thread has a code, and begins no request with an address that another
thread's request has. -/
def Allowed (s : State) : Label → Prop
  | .begin t pa => t ≠ 0 ∧ ∀ u, (s.pc u).request ≠ some pa
  | _ => True

def initial : State where
  pa := fun _ => 0
  thread := fun _ => 0
  head := 0
  tail := 0
  blockedThread := 0
  lock := 0
  outstanding := .none
  wakes := fun _ => 0
  pc := fun _ => .idle
  receiver := .idle
  gpu := []

def mailboxSystem : System State Label where
  init s := s = initial
  step s l s' := Allowed s l ∧ step s l = some s'

/-- No thread finds the queue full while the handler is between advancing the
tail and testing `blocked_thread`. -/
def NotMissed (s : State) : Label → Prop
  | .requester t => (∃ pa, s.pc t = .block pa) → s.receiver ≠ .testBlocked
  | _ => True

/-! ## The queue -/

/-- How far the slot `x` is from the tail. -/
def State.offset (s : State) (x : ℕ) : ℕ := (x + slots - s.tail) % slots

/-- The number of slots in use. -/
def State.count (s : State) : ℕ := s.offset s.head

/-- The slot is between `requests_tail` and `requests_head`. -/
def InQueue (s : State) (x : ℕ) : Prop := x < slots ∧ s.offset x < s.count

/-- The slot holds a request that has not been answered. -/
def Live (s : State) (x : ℕ) : Prop := InQueue s x ∧ s.receiver.dead s.tail ≠ some x

/-- The address of the request of `t` in the queue, until it is answered: then
`t` has been woken. -/
def State.waitingFor (s : State) (t : ℕ) : Option ℕ :=
  if s.wakes t = 0 then (s.pc t).queued else none

/-- The same when the GPU has it. -/
def State.sentFor (s : State) (t : ℕ) : Option ℕ :=
  if s.wakes t = 0 then (s.pc t).sent else none

/-- What the queue holds, and what the handler knows of it. -/
structure QueueInv (s : State) : Prop where
  head_lt : s.head < slots
  tail_lt : s.tail < slots
  live : ∀ x, Live s x → s.waitingFor (s.thread x) = some (s.pa x)
  inj : ∀ x y, Live s x → Live s y → s.thread x = s.thread y → x = y
  entry : ∀ t p, s.waitingFor t = some p → ∃ x, Live s x ∧ s.thread x = t
  sent : ∀ p, (p ∈ s.gpu ∨ s.receiver.handling = some p) ↔ ∃ t, s.sentFor t = some p
  nodup : s.gpu.Nodup
  fresh : ∀ m, s.receiver.handling = some m → m ∉ s.gpu
  loop : ∀ m i, s.receiver = .loop m i → i < slots ∧
    ∀ x, Live s x → s.pa x = m → s.offset i ≤ s.offset x
  compare : ∀ m i, s.receiver = .compare m i → InQueue s i ∧
    ∀ x, Live s x → s.pa x = m → s.offset i ≤ s.offset x
  found : ∀ m i, s.receiver = .wakeRequester m i → InQueue s i ∧ s.pa i = m
  removing : ∀ x, s.receiver.dead s.tail = some x → InQueue s x
  matched : ∀ m, s.receiver ≠ .exception m

/-- Who makes which request. -/
structure RequestInv (s : State) : Prop where
  zero : s.pc 0 = .idle
  distinct : ∀ t u p, (s.pc t).request = some p → (s.pc u).request = some p → t = u
  storedPa : ∀ t p, s.pc t = .storeThread p → s.pa s.head = p
  storedThread : ∀ t p, s.pc t = .advanceHead p → s.pa s.head = p ∧ s.thread s.head = t

/-- The locks that a thread has, its wakes, and the room that it waits for. -/
structure ThreadOk (s : State) (t : ℕ) : Prop where
  lock : (s.pc t).holdsLock = true → s.lock = t
  outstanding : (s.pc t).holdsOutstanding = true → s.outstanding = .requester t
  wakes_le : s.wakes t ≤ 1
  woken : s.wakes t = 1 → (s.pc t).blocked = true ∨ (s.pc t).sent ≠ none
  filling : (s.pc t).filling = true → s.count + 1 < slots
  room : (s.pc t).blocked = true → s.wakes t = 1 → s.count + 1 < slots
  waiting : (s.pc t).blocked = true → s.wakes t = 0 →
    s.blockedThread = t ∨ s.receiver = .wakeBlocked t

/-- The same for the handler, and the thread that it is to wake. -/
structure ReceiverOk (s : State) : Prop where
  outstanding : s.receiver.holdsOutstanding = true → s.outstanding = .receiver
  blocked : s.blockedThread ≠ 0 →
    (s.pc s.blockedThread).blocked = true ∧ s.wakes s.blockedThread = 0
  clearing : ∀ u, s.receiver = .clearBlocked u → s.blockedThread = u ∧ u ≠ 0
  waking : ∀ u, s.receiver = .wakeBlocked u →
    (s.pc u).blocked = true ∧ s.wakes u = 0 ∧ s.blockedThread = 0
  freed : s.receiver.freed = true → (s.blockedThread ≠ 0 ∨ ∃ u, s.receiver = .wakeBlocked u) →
    s.count + 1 < slots

structure Inv (s : State) : Prop where
  queue : QueueInv s
  request : RequestInv s
  threads : ∀ t, ThreadOk s t
  handler : ReceiverOk s

theorem initial_inv : Inv initial := by
  constructor
  · constructor <;> simp [initial, Live, InQueue, State.count, State.offset, State.waitingFor,
      State.sentFor, Requester.queued, Requester.sent, Receiver.handling, Receiver.dead, slots]
  · constructor <;> simp [initial, Requester.request]
  · intro t
    constructor <;> simp [initial, Requester.holdsLock, Requester.holdsOutstanding,
      Requester.filling, Requester.blocked]
  · constructor <;> simp [initial, Receiver.holdsOutstanding, Receiver.freed]

/-! ## Steps of the requesting threads -/

section Requesters

variable {s : State} {t : ℕ} {r : Requester}

@[simp] theorem goto_pa : (s.goto t r).pa = s.pa := rfl
@[simp] theorem goto_thread : (s.goto t r).thread = s.thread := rfl
@[simp] theorem goto_head : (s.goto t r).head = s.head := rfl
@[simp] theorem goto_tail : (s.goto t r).tail = s.tail := rfl
@[simp] theorem goto_blockedThread : (s.goto t r).blockedThread = s.blockedThread := rfl
@[simp] theorem goto_lock : (s.goto t r).lock = s.lock := rfl
@[simp] theorem goto_outstanding : (s.goto t r).outstanding = s.outstanding := rfl
@[simp] theorem goto_wakes : (s.goto t r).wakes = s.wakes := rfl
@[simp] theorem goto_receiver : (s.goto t r).receiver = s.receiver := rfl
@[simp] theorem goto_gpu : (s.goto t r).gpu = s.gpu := rfl
@[simp] theorem goto_pc (u : ℕ) : (s.goto t r).pc u = if u = t then r else s.pc u := by
  unfold State.goto
  simp only [Function.update_apply]

/-- The part of the state that the invariant of the queue is about. -/
structure SameQueue (s s' : State) : Prop where
  pa : ∀ x, InQueue s x → s'.pa x = s.pa x
  thread : ∀ x, InQueue s x → s'.thread x = s.thread x
  head : s'.head = s.head
  tail : s'.tail = s.tail
  receiver : s'.receiver = s.receiver
  gpu : s'.gpu = s.gpu
  waitingFor : ∀ t, s'.waitingFor t = s.waitingFor t
  sentFor : ∀ t, s'.sentFor t = s.sentFor t

theorem QueueInv.same {s' : State} (h : QueueInv s) (hs : SameQueue s s') : QueueInv s' := by
  have hoff : ∀ x, s'.offset x = s.offset x := by
    intro x
    simp only [State.offset, hs.tail]
  have hin : ∀ x, InQueue s' x ↔ InQueue s x := by
    intro x
    simp only [InQueue, State.count, hoff, hs.head]
  have hlive : ∀ x, Live s' x ↔ Live s x := by
    intro x
    simp only [Live, hin, hs.receiver, hs.tail]
  constructor
  · rw [hs.head]
    exact h.head_lt
  · rw [hs.tail]
    exact h.tail_lt
  · intro x hx
    replace hx := (hlive x).1 hx
    rw [hs.thread x hx.1, hs.pa x hx.1, hs.waitingFor]
    exact h.live x hx
  · intro x y hx hy
    replace hx := (hlive x).1 hx
    replace hy := (hlive y).1 hy
    rw [hs.thread x hx.1, hs.thread y hy.1]
    exact h.inj x y hx hy
  · intro t p ht
    rw [hs.waitingFor] at ht
    obtain ⟨x, hx, hxt⟩ := h.entry t p ht
    exact ⟨x, (hlive x).2 hx, (hs.thread x hx.1).trans hxt⟩
  · simpa only [hs.gpu, hs.receiver, hs.sentFor] using h.sent
  · rw [hs.gpu]
    exact h.nodup
  · simpa only [hs.gpu, hs.receiver] using h.fresh
  · -- the receiver's loop is where it was
    intro m i hr
    rw [hs.receiver] at hr
    obtain ⟨hi, hle⟩ := h.loop m i hr
    refine ⟨hi, ?_⟩
    intro x hx hm
    replace hx := (hlive x).1 hx
    rw [hs.pa x hx.1] at hm
    rw [hoff, hoff]
    exact hle x hx hm
  · intro m i hr
    rw [hs.receiver] at hr
    obtain ⟨hi, hle⟩ := h.compare m i hr
    refine ⟨(hin i).2 hi, ?_⟩
    intro x hx hm
    replace hx := (hlive x).1 hx
    rw [hs.pa x hx.1] at hm
    rw [hoff, hoff]
    exact hle x hx hm
  · intro m i hr
    rw [hs.receiver] at hr
    obtain ⟨hi, hm⟩ := h.found m i hr
    exact ⟨(hin i).2 hi, (hs.pa i hi).trans hm⟩
  · simpa only [hs.receiver, hs.tail, hin] using h.removing
  · simpa only [hs.receiver] using h.matched

/-- Only one thread holds `lock`. -/
theorem Inv.holder (h : Inv s) {u : ℕ} (ht : (s.pc t).holdsLock = true)
    (hu : (s.pc u).holdsLock = true) : u = t :=
  ((h.threads u).lock hu).symm.trans ((h.threads t).lock ht)

/-- The slot at the head is not in use. -/
theorem head_not_inQueue (s : State) : ¬ InQueue s s.head := fun h => lt_irrefl _ h.2

/-- The thread goes on with the same request, and stores nothing in the queue. -/
theorem RequestInv.goto {s₁ : State} (h : RequestInv s) (h0 : t ≠ 0)
    (hreq : r.request = (s.pc t).request ∨ r.request = none)
    (hr : ∀ p, r ≠ .storeThread p ∧ r ≠ .advanceHead p) (hpc : s₁.pc = s.pc) (hpa : s₁.pa = s.pa)
    (hth : s₁.thread = s.thread) (hhead : s₁.head = s.head) : RequestInv (s₁.goto t r) := by
  constructor
  · rw [goto_pc, if_neg h0.symm, hpc]
    exact h.zero
  · intro u v p
    have hd := h.distinct u v p
    simp only [goto_pc, hpc]
    -- only the thread `t` has moved, and it has the request that it had, or none
    by_cases hu : u = t <;> by_cases hv : v = t
    · intro _ _
      rw [hu, hv]
    · subst hu
      rw [if_pos rfl, if_neg hv]
      rcases hreq with heq | heq
      · rw [heq]
        exact hd
      · rw [heq]
        intro hno
        cases hno
    · subst hv
      rw [if_pos rfl, if_neg hu]
      rcases hreq with heq | heq
      · rw [heq]
        exact hd
      · rw [heq]
        intro _ hno
        cases hno
    · rw [if_neg hu, if_neg hv]
      exact hd
  · intro u p
    have hp := h.storedPa u p
    simp only [goto_pc, goto_pa, goto_head, hpc, hpa, hhead]
    split
    · intro heq
      exact absurd heq (hr p).1
    · exact hp
  · intro u p
    have hp := h.storedThread u p
    simp only [goto_pc, goto_pa, goto_thread, goto_head, hpc, hpa, hth, hhead]
    split
    · intro heq
      exact absurd heq (hr p).2
    · exact hp

/-! ### Locks and wakes -/

/-- The rest of a thread's state is that of a thread without `lock`. -/
theorem Requester.of_holdsLock_false (h : r.holdsLock = false) :
    r.holdsOutstanding = false ∧ r.filling = false ∧ r.blocked = false := by
  cases r <;> simp_all [Requester.holdsLock, Requester.holdsOutstanding, Requester.filling,
    Requester.blocked]

theorem Requester.holdsLock_of_blocked (h : r.blocked = true) : r.holdsLock = true := by
  by_contra hn
  have := (Requester.of_holdsLock_false (by simpa using hn)).2.2
  rw [this] at h
  cases h

/-- A thread without `lock` is not affected by what the others do. -/
theorem ThreadOk.other {s' : State} {u : ℕ} (h : ThreadOk s u) (hu : (s.pc u).holdsLock = false)
    (hpc : s'.pc u = s.pc u) (hw : s'.wakes u = s.wakes u) : ThreadOk s' u := by
  obtain ⟨ho, hf, hb⟩ := Requester.of_holdsLock_false hu
  constructor
  · simp [hpc, hu]
  · simp [hpc, ho]
  · rw [hw]
    exact h.wakes_le
  · rw [hw, hpc]
    exact h.woken
  · simp [hpc, hf]
  · simp [hpc, hb]
  · simp [hpc, hb]

/-- A thread that the step is not about. -/
theorem ThreadOk.same {s' : State} {u : ℕ} (h : ThreadOk s u) (hpc : s'.pc u = s.pc u)
    (hw : s'.wakes u = s.wakes u) (hl : s'.lock = s.lock) (ho : s'.outstanding = s.outstanding)
    (hc : s'.count = s.count) (hb : s'.blockedThread = s.blockedThread)
    (hr : s'.receiver = s.receiver) : ThreadOk s' u := by
  obtain ⟨h₁, h₂, h₃, h₄, h₅, h₆, h₇⟩ := h
  rw [← hpc] at h₁ h₂ h₄ h₅ h₆ h₇
  rw [← hw] at h₃ h₄ h₆ h₇
  rw [← hl] at h₁
  rw [← ho] at h₂
  rw [← hc] at h₅ h₆
  rw [← hb, ← hr] at h₇
  exact ⟨h₁, h₂, h₃, h₄, h₅, h₆, h₇⟩

/-- A step of the thread that holds `lock`. -/
theorem Inv.threads_holder {s' : State} (h : Inv s) (hl : (s.pc t).holdsLock = true)
    (hpc : ∀ u, u ≠ t → s'.pc u = s.pc u) (hw : ∀ u, u ≠ t → s'.wakes u = s.wakes u)
    (ht : ThreadOk s' t) : ∀ u, ThreadOk s' u := by
  intro u
  by_cases hu : u = t
  · rw [hu]
    exact ht
  · have hnot : (s.pc u).holdsLock = false := by
      by_contra hn
      exact hu (h.holder hl (by simpa using hn))
    exact (h.threads u).other hnot (hpc u hu) (hw u hu)

/-- The handler has no thread to wake. -/
theorem ReceiverOk.calm {s' : State} (h : ReceiverOk s) (h0 : s.blockedThread = 0)
    (hwake : ∀ u, s.receiver ≠ .wakeBlocked u) (hr : s'.receiver = s.receiver)
    (hz : s'.blockedThread ≠ 0 → s'.receiver.freed = false ∧
      (s'.pc s'.blockedThread).blocked = true ∧ s'.wakes s'.blockedThread = 0)
    (ho : s.receiver.holdsOutstanding = true → s'.outstanding = .receiver) : ReceiverOk s' := by
  constructor
  · rw [hr]
    exact ho
  · intro hne
    exact (hz hne).2
  · intro u hu
    rw [hr] at hu
    obtain ⟨hbu, hu0⟩ := h.clearing u hu
    exact absurd (hbu.symm.trans h0) hu0
  · intro u hu
    rw [hr] at hu
    exact absurd hu (hwake u)
  · rintro hf (hne | ⟨u, hu⟩)
    · rw [(hz hne).1] at hf
      cases hf
    · rw [hr] at hu
      exact absurd hu (hwake u)

/-- The step is not about the thread that the handler is to wake. -/
theorem ReceiverOk.other {s' : State} (h : ReceiverOk s)
    (hb : ∀ u, (s.pc u).blocked = true → (s'.pc u).blocked = true ∧ s'.wakes u = s.wakes u)
    (hr : s'.receiver = s.receiver) (hbt : s'.blockedThread = s.blockedThread)
    (hc : s'.count = s.count)
    (ho : s.receiver.holdsOutstanding = true → s'.outstanding = .receiver) : ReceiverOk s' := by
  constructor
  · rw [hr]
    exact ho
  · intro hne
    rw [hbt] at hne ⊢
    obtain ⟨hblk, hw⟩ := h.blocked hne
    obtain ⟨hblk', hw'⟩ := hb _ hblk
    exact ⟨hblk', hw'.trans hw⟩
  · rw [hr, hbt]
    exact h.clearing
  · intro u hu
    rw [hr] at hu
    obtain ⟨hblk, hw, h0⟩ := h.waking u hu
    obtain ⟨hblk', hw'⟩ := hb _ hblk
    exact ⟨hblk', hw'.trans hw, hbt.trans h0⟩
  · rw [hr, hbt, hc]
    exact h.freed

/-- No thread is blocked. -/
theorem Inv.no_blocked (h : Inv s) (hb : ∀ u, (s.pc u).blocked = true → s.wakes u = 1) :
    s.blockedThread = 0 ∧ ∀ u, s.receiver ≠ .wakeBlocked u := by
  constructor
  · by_contra hne
    obtain ⟨hblk, hw⟩ := h.handler.blocked hne
    have := hb _ hblk
    omega
  · intro u hu
    obtain ⟨hblk, hw, -⟩ := h.handler.waking u hu
    have := hb _ hblk
    omega

/-- While a thread that is not blocked holds `lock`, no thread is. -/
theorem Inv.holder_blocked (h : Inv s) (ht : (s.pc t).holdsLock = true)
    (hb : (s.pc t).blocked = false) (u : ℕ) (hu : (s.pc u).blocked = true) : s.wakes u = 1 := by
  rw [h.holder ht (Requester.holdsLock_of_blocked hu), hb] at hu
  cases hu

/-- A thread that waits for nothing has no wakes. -/
theorem Inv.wakes_zero (h : Inv s) (hb : (s.pc t).blocked = false) (hs : (s.pc t).sent = none) :
    s.wakes t = 0 := by
  have hle := (h.threads t).wakes_le
  by_contra hne
  rcases (h.threads t).woken (by omega) with hb' | hs'
  · rw [hb] at hb'
    cases hb'
  · exact hs' hs

theorem Inv.pc_ne_zero (h : Inv s) (hpc : s.pc t ≠ .idle) : t ≠ 0 := by
  rintro rfl
  exact hpc h.request.zero

/-- Nothing that the queue holds depends on the step. -/
theorem SameQueue.goto {s₁ : State} (hpa : ∀ x, InQueue s x → s₁.pa x = s.pa x)
    (hth : ∀ x, InQueue s x → s₁.thread x = s.thread x) (hhead : s₁.head = s.head)
    (htail : s₁.tail = s.tail) (hrec : s₁.receiver = s.receiver) (hgpu : s₁.gpu = s.gpu)
    (hpc : s₁.pc = s.pc) (hw : ∀ u, u ≠ t → s₁.wakes u = s.wakes u)
    (hq : (if s₁.wakes t = 0 then r.queued else none) = s.waitingFor t)
    (hs : (if s₁.wakes t = 0 then r.sent else none) = s.sentFor t) :
    SameQueue s (s₁.goto t r) := by
  refine ⟨hpa, hth, hhead, htail, hrec, hgpu, ?_, ?_⟩
  · intro u
    by_cases hu : u = t
    · subst hu
      simp only [State.waitingFor, goto_pc, goto_wakes, if_true] at hq ⊢
      exact hq
    · simp only [State.waitingFor, goto_pc, goto_wakes, hu, if_false, hw u hu, hpc]
  · intro u
    by_cases hu : u = t
    · subst hu
      simp only [State.sentFor, goto_pc, goto_wakes, if_true] at hs ⊢
      exact hs
    · simp only [State.sentFor, goto_pc, goto_wakes, hu, if_false, hw u hu, hpc]

/-! ### The steps -/

theorem begin_inv {pa : ℕ} (h : Inv s) (h0 : t ≠ 0) (hnew : ∀ u, (s.pc u).request ≠ some pa)
    (hpc : s.pc t = .idle) : Inv (s.goto t (.claimLock pa)) := by
  have hw := h.wakes_zero (t := t) (by rw [hpc]; rfl) (by rw [hpc]; rfl)
  constructor
  · refine h.queue.same (.goto (fun _ _ => rfl) (fun _ _ => rfl) rfl rfl rfl rfl rfl
      (fun _ _ => rfl) ?_ ?_)
    · simp [State.waitingFor, hpc, Requester.queued]
    · simp [State.sentFor, hpc, Requester.sent]
  · constructor
    · rw [goto_pc, if_neg h0.symm]
      exact h.request.zero
    · intro u v p hu hv
      have hd := h.request.distinct u v p
      grind [goto_pc, Requester.request]
    · intro u p hu
      have hp := h.request.storedPa u p
      grind [goto_pc, goto_pa, goto_head]
    · intro u p hu
      have hp := h.request.storedThread u p
      grind [goto_pc, goto_pa, goto_thread, goto_head]
  · intro u
    by_cases hu : u = t
    · subst hu
      constructor <;> simp [Requester.holdsLock, Requester.holdsOutstanding, Requester.filling,
        Requester.blocked, hw]
    · exact (h.threads u).same (by simp [hu]) rfl rfl rfl rfl rfl rfl
  · refine h.handler.other ?_ rfl rfl rfl h.handler.outstanding
    intro u hu
    have hne : u ≠ t := by
      rintro rfl
      rw [hpc] at hu
      cases hu
    simp [hne, hu]

theorem claimLock_inv {pa : ℕ} (h : Inv s) (hpc : s.pc t = .claimLock pa) (hl : s.lock = 0) :
    Inv ({ s with lock := t }.goto t (.claimOutstanding pa)) := by
  have h0 := h.pc_ne_zero (t := t) (by rw [hpc]; nofun)
  have hw := h.wakes_zero (t := t) (by rw [hpc]; rfl) (by rw [hpc]; rfl)
  -- the lock is free
  have hfree : ∀ u, (s.pc u).holdsLock = false := by
    intro u
    by_contra hu
    have hlu := (h.threads u).lock (by simpa using hu)
    rw [hl] at hlu
    rw [← hlu, h.request.zero] at hu
    exact hu rfl
  constructor
  · refine h.queue.same (.goto (fun _ _ => rfl) (fun _ _ => rfl) rfl rfl rfl rfl rfl
      (fun _ _ => rfl) ?_ ?_)
    · simp [State.waitingFor, hpc, Requester.queued]
    · simp [State.sentFor, hpc, Requester.sent]
  · exact h.request.goto h0 (.inl (by rw [hpc]; rfl)) (by simp) rfl rfl rfl rfl
  · intro u
    by_cases hu : u = t
    · subst hu
      constructor <;> simp [Requester.holdsLock, Requester.holdsOutstanding, Requester.filling,
        Requester.blocked, hw]
    · exact (h.threads u).other (hfree u) (by simp [hu]) rfl
  · refine h.handler.other ?_ rfl rfl rfl h.handler.outstanding
    intro u hu
    rw [(Requester.of_holdsLock_false (hfree u)).2.2] at hu
    cases hu

/-- A step of the thread that has `lock` that changes neither the queue nor the
wakes. -/
theorem holder_inv {s₁ : State} (h : Inv s) (hl : (s.pc t).holdsLock = true)
    (hreq : r.request = (s.pc t).request) (hr : ∀ p, r ≠ .storeThread p ∧ r ≠ .advanceHead p)
    (hq : r.queued = (s.pc t).queued) (hs : r.sent = (s.pc t).sent)
    (hpa : s₁.pa = s.pa) (hth : s₁.thread = s.thread) (hhead : s₁.head = s.head)
    (htail : s₁.tail = s.tail) (hrec : s₁.receiver = s.receiver) (hgpu : s₁.gpu = s.gpu)
    (hpc : s₁.pc = s.pc) (hw : s₁.wakes = s.wakes)
    (hok : ThreadOk (s₁.goto t r) t) (hok' : ReceiverOk (s₁.goto t r)) : Inv (s₁.goto t r) := by
  have h0 := h.pc_ne_zero (t := t) (by rintro heq; rw [heq] at hl; cases hl)
  refine ⟨?_, h.request.goto h0 (.inl hreq) hr hpc hpa hth hhead, ?_, hok'⟩
  · refine h.queue.same (.goto (fun _ _ => by rw [hpa]) (fun _ _ => by rw [hth]) hhead htail hrec
      hgpu hpc (fun _ _ => by rw [hw]) ?_ ?_)
    · simp [State.waitingFor, hw, hq]
    · simp [State.sentFor, hw, hs]
  · refine h.threads_holder hl ?_ ?_ hok
    · intro u hu
      simp [hu, hpc]
    · intro u _
      simp [hw]

theorem claimOutstanding_inv {pa : ℕ} (h : Inv s) (hpc : s.pc t = .claimOutstanding pa)
    (ho : s.outstanding = .none) :
    Inv ({ s with outstanding := .requester t }.goto t (.testFull pa)) := by
  have hl : (s.pc t).holdsLock = true := by rw [hpc]; rfl
  have hb : (s.pc t).blocked = false := by rw [hpc]; rfl
  have hw := h.wakes_zero hb (by rw [hpc]; rfl)
  obtain ⟨h0, hwake⟩ := h.no_blocked (h.holder_blocked hl hb)
  refine holder_inv h hl (by rw [hpc]; rfl) (by simp) (by rw [hpc]; rfl) (by rw [hpc]; rfl)
    rfl rfl rfl rfl rfl rfl rfl rfl ?_ ?_
  · have hlock := (h.threads t).lock hl
    constructor <;>
      simp [Requester.holdsOutstanding, Requester.filling, Requester.blocked, hw, hlock]
  · refine h.handler.calm h0 hwake rfl (fun hne => absurd h0 hne) ?_
    intro hr
    rw [h.handler.outstanding hr] at ho
    cases ho

/-- The queue has room unless the tail is next to the head. -/
theorem QueueInv.count_lt (h : QueueInv s) :
    s.tail ≠ nextOutstandingRequest s.head ↔ s.count + 1 < slots := by
  have h₁ := h.head_lt
  have h₂ := h.tail_lt
  unfold nextOutstandingRequest State.count State.offset slots at *
  omega

theorem testFull_inv {pa : ℕ} (h : Inv s) (hpc : s.pc t = .testFull pa) {r : Requester}
    (hr : r = .block pa ∨ (r = .releaseOutstanding pa false ∧ s.count + 1 < slots)) :
    Inv (s.goto t r) := by
  have hl : (s.pc t).holdsLock = true := by rw [hpc]; rfl
  have hb : (s.pc t).blocked = false := by rw [hpc]; rfl
  have hw := h.wakes_zero hb (by rw [hpc]; rfl)
  obtain ⟨h0, hwake⟩ := h.no_blocked (h.holder_blocked hl hb)
  have hlock := (h.threads t).lock hl
  have hout := (h.threads t).outstanding (by rw [hpc]; rfl)
  have hok' : ReceiverOk (s.goto t r) :=
    h.handler.calm h0 hwake rfl (fun hne => absurd h0 hne) h.handler.outstanding
  rcases hr with rfl | ⟨rfl, hroom⟩
  · refine holder_inv h hl (by rw [hpc]; rfl) (by simp) (by rw [hpc]; rfl) (by rw [hpc]; rfl)
      rfl rfl rfl rfl rfl rfl rfl rfl ?_ hok'
    constructor <;> simp [Requester.filling, Requester.blocked, hw, hlock, hout]
  · refine holder_inv h hl (by rw [hpc]; rfl) (by simp) (by rw [hpc]; rfl) (by rw [hpc]; rfl)
      rfl rfl rfl rfl rfl rfl rfl rfl ?_ hok'
    constructor <;> simp [Requester.blocked, hw, hlock, hout]
    exact fun _ => hroom

theorem block_inv {pa : ℕ} (h : Inv s) (hpc : s.pc t = .block pa)
    (hmiss : s.receiver ≠ .testBlocked) :
    Inv ({ s with blockedThread := t }.goto t (.releaseOutstanding pa true)) := by
  have hl : (s.pc t).holdsLock = true := by rw [hpc]; rfl
  have hb : (s.pc t).blocked = false := by rw [hpc]; rfl
  have hw := h.wakes_zero hb (by rw [hpc]; rfl)
  obtain ⟨h0, hwake⟩ := h.no_blocked (h.holder_blocked hl hb)
  have hlock := (h.threads t).lock hl
  have hout := (h.threads t).outstanding (by rw [hpc]; rfl)
  refine holder_inv h hl (by rw [hpc]; rfl) (by simp) (by rw [hpc]; rfl) (by rw [hpc]; rfl)
    rfl rfl rfl rfl rfl rfl rfl rfl ?_ ?_
  · constructor <;> simp [Requester.filling, hw, hlock, hout]
  · refine h.handler.calm h0 hwake rfl ?_ h.handler.outstanding
    intro _
    refine ⟨?_, by simp [Requester.blocked], hw⟩
    -- the handler is not between advancing the tail and waking a thread
    show s.receiver.freed = false
    cases hrec : s.receiver with
    | testBlocked => exact absurd hrec hmiss
    | releaseOutstanding =>
      have := h.handler.outstanding (by rw [hrec]; rfl)
      rw [hout] at this
      cases this
    | clearBlocked u =>
      obtain ⟨hbu, hu0⟩ := h.handler.clearing u hrec
      exact absurd (hbu.symm.trans h0) hu0
    | wakeBlocked u => exact absurd hrec (hwake u)
    | _ => rfl

theorem releaseOutstanding_inv {pa : ℕ} {full : Bool} (h : Inv s)
    (hpc : s.pc t = .releaseOutstanding pa full) :
    Inv ({ s with outstanding := .none }.goto t
      (if full then .waitForRoom pa else .storePa pa)) := by
  have hl : (s.pc t).holdsLock = true := by rw [hpc]; rfl
  have hlock := (h.threads t).lock hl
  have hout := (h.threads t).outstanding (by rw [hpc]; rfl)
  have hle := (h.threads t).wakes_le
  have hrec : s.receiver.holdsOutstanding = true → False := by
    intro hr
    rw [h.handler.outstanding hr] at hout
    cases hout
  cases full with
  | true =>
    -- it has found the queue full, and waits
    have hb : (s.pc t).blocked = true := by rw [hpc]; rfl
    refine holder_inv h hl (by rw [hpc]; rfl) (by simp) (by rw [hpc]; rfl) (by rw [hpc]; rfl)
      rfl rfl rfl rfl rfl rfl rfl rfl ?_ ?_
    · have hroom := (h.threads t).room hb
      have hwait := (h.threads t).waiting hb
      constructor <;>
        simp [Requester.holdsOutstanding, Requester.filling, Requester.blocked, hlock, hle]
      · exact hroom
      · exact hwait
    · refine h.handler.other ?_ rfl rfl rfl fun hr => (hrec hr).elim
      intro u hu
      by_cases hut : u = t
      · simp [hut, Requester.blocked]
      · simp [hut, hu]
  | false =>
    have hb : (s.pc t).blocked = false := by rw [hpc]; rfl
    have hw := h.wakes_zero hb (by rw [hpc]; rfl)
    obtain ⟨h0, hwake⟩ := h.no_blocked (h.holder_blocked hl hb)
    refine holder_inv h hl (by rw [hpc]; rfl) (by simp) (by rw [hpc]; rfl) (by rw [hpc]; rfl)
      rfl rfl rfl rfl rfl rfl rfl rfl ?_ ?_
    · have hroom := (h.threads t).filling (by rw [hpc]; rfl)
      constructor <;> simp [Requester.holdsOutstanding, Requester.blocked, hlock, hw]
      exact fun _ => hroom
    · exact h.handler.calm h0 hwake rfl (fun hne => absurd h0 hne) fun hr => (hrec hr).elim

theorem waitForRoom_inv {pa : ℕ} (h : Inv s) (hpc : s.pc t = .waitForRoom pa)
    (hw : s.wakes t ≠ 0) :
    Inv ({ s with wakes := Function.update s.wakes t (s.wakes t - 1) }.goto t (.storePa pa)) := by
  have hl : (s.pc t).holdsLock = true := by rw [hpc]; rfl
  have hb : (s.pc t).blocked = true := by rw [hpc]; rfl
  have h0 := h.pc_ne_zero (t := t) (by rw [hpc]; nofun)
  have hlock := (h.threads t).lock hl
  have hw1 : s.wakes t = 1 := by
    have := (h.threads t).wakes_le
    omega
  have hroom := (h.threads t).room hb hw1
  obtain ⟨hbt, hwake⟩ := h.no_blocked (fun u hu => by
    rw [h.holder hl (Requester.holdsLock_of_blocked hu), hw1])
  refine ⟨?_, ?_, ?_, ?_⟩
  · refine h.queue.same (.goto (fun _ _ => rfl) (fun _ _ => rfl) rfl rfl rfl rfl rfl ?_ ?_ ?_)
    · intro u hu
      simp [hu]
    · simp [State.waitingFor, hw1, Requester.queued]
    · simp [State.sentFor, hw1, Requester.sent]
  · exact h.request.goto h0 (.inl (by rw [hpc]; rfl)) (by simp) rfl rfl rfl rfl
  · refine h.threads_holder hl ?_ ?_ ?_
    · intro u hu
      simp [hu]
    · intro u hu
      simp [hu]
    · constructor <;> simp [Requester.holdsOutstanding, Requester.blocked, hlock, hw1]
      exact fun _ => hroom
  · exact h.handler.calm hbt hwake rfl (fun hne => absurd hbt hne) h.handler.outstanding

theorem storePa_inv {pa : ℕ} (h : Inv s) (hpc : s.pc t = .storePa pa) :
    Inv ({ s with pa := Function.update s.pa s.head pa }.goto t (.storeThread pa)) := by
  have hl : (s.pc t).holdsLock = true := by rw [hpc]; rfl
  have hb : (s.pc t).blocked = false := by rw [hpc]; rfl
  have h0 := h.pc_ne_zero (t := t) (by rw [hpc]; nofun)
  have hw := h.wakes_zero hb (by rw [hpc]; rfl)
  have hlock := (h.threads t).lock hl
  have hroom := (h.threads t).filling (by rw [hpc]; rfl)
  obtain ⟨hbt, hwake⟩ := h.no_blocked (h.holder_blocked hl hb)
  refine ⟨?_, ?_, ?_, ?_⟩
  · refine h.queue.same (.goto ?_ (fun _ _ => rfl) rfl rfl rfl rfl rfl (fun _ _ => rfl) ?_ ?_)
    · intro x hx
      refine Function.update_of_ne ?_ ..
      rintro rfl
      exact head_not_inQueue s hx
    · simp [State.waitingFor, hpc, Requester.queued]
    · simp [State.sentFor, hpc, Requester.sent]
  · have hd := h.request.distinct
    have hz := h.request.zero
    have hh := fun u => h.holder (u := u) hl
    constructor
    · rw [goto_pc, if_neg h0.symm, hz]
    · intro u v p
      simp only [goto_pc]
      grind [Requester.request]
    · intro u p
      simp only [goto_pc, goto_pa, goto_head, Function.update_self]
      grind [Requester.holdsLock]
    · intro u p
      simp only [goto_pc, goto_pa, goto_head, goto_thread, Function.update_self]
      grind [Requester.holdsLock]
  · refine h.threads_holder hl ?_ (fun _ _ => rfl) ?_
    · intro u hu
      simp [hu]
    · constructor <;> simp [Requester.holdsOutstanding, Requester.blocked, hlock, hw]
      exact fun _ => hroom
  · exact h.handler.calm hbt hwake rfl (fun hne => absurd hbt hne) h.handler.outstanding

theorem storeThread_inv {pa : ℕ} (h : Inv s) (hpc : s.pc t = .storeThread pa) :
    Inv ({ s with thread := Function.update s.thread s.head t }.goto t (.advanceHead pa)) := by
  have hl : (s.pc t).holdsLock = true := by rw [hpc]; rfl
  have hb : (s.pc t).blocked = false := by rw [hpc]; rfl
  have h0 := h.pc_ne_zero (t := t) (by rw [hpc]; nofun)
  have hw := h.wakes_zero hb (by rw [hpc]; rfl)
  have hlock := (h.threads t).lock hl
  have hroom := (h.threads t).filling (by rw [hpc]; rfl)
  have hpa := h.request.storedPa t pa hpc
  obtain ⟨hbt, hwake⟩ := h.no_blocked (h.holder_blocked hl hb)
  refine ⟨?_, ?_, ?_, ?_⟩
  · refine h.queue.same (.goto (fun _ _ => rfl) ?_ rfl rfl rfl rfl rfl (fun _ _ => rfl) ?_ ?_)
    · intro x hx
      refine Function.update_of_ne ?_ ..
      rintro rfl
      exact head_not_inQueue s hx
    · simp [State.waitingFor, hpc, Requester.queued]
    · simp [State.sentFor, hpc, Requester.sent]
  · have hd := h.request.distinct
    have hz := h.request.zero
    have hh := fun u => h.holder (u := u) hl
    constructor
    · rw [goto_pc, if_neg h0.symm, hz]
    · intro u v p
      simp only [goto_pc]
      grind [Requester.request]
    · intro u p
      simp only [goto_pc, goto_pa, goto_head]
      grind [Requester.holdsLock]
    · intro u p
      simp only [goto_pc, goto_pa, goto_head, goto_thread, Function.update_self]
      grind [Requester.holdsLock]
  · refine h.threads_holder hl ?_ (fun _ _ => rfl) ?_
    · intro u hu
      simp [hu]
    · constructor <;> simp [Requester.holdsOutstanding, Requester.blocked, hlock, hw]
      exact fun _ => hroom
  · exact h.handler.calm hbt hwake rfl (fun hne => absurd hbt hne) h.handler.outstanding

theorem releaseLock_inv {pa : ℕ} (h : Inv s) (hpc : s.pc t = .releaseLock pa) :
    Inv ({ s with lock := 0 }.goto t (.waitForAnswer pa)) := by
  have hl : (s.pc t).holdsLock = true := by rw [hpc]; rfl
  have hb : (s.pc t).blocked = false := by rw [hpc]; rfl
  have hle := (h.threads t).wakes_le
  obtain ⟨hbt, hwake⟩ := h.no_blocked (h.holder_blocked hl hb)
  refine holder_inv h hl (by rw [hpc]; rfl) (by simp) (by rw [hpc]; rfl) (by rw [hpc]; rfl)
    rfl rfl rfl rfl rfl rfl rfl rfl ?_ ?_
  · constructor <;> simp [Requester.holdsLock, Requester.holdsOutstanding, Requester.filling,
      Requester.blocked, Requester.sent, hle]
  · exact h.handler.calm hbt hwake rfl (fun hne => absurd hbt hne) h.handler.outstanding

theorem waitForAnswer_inv {pa : ℕ} (h : Inv s) (hpc : s.pc t = .waitForAnswer pa)
    (hw : s.wakes t ≠ 0) :
    Inv ({ s with wakes := Function.update s.wakes t (s.wakes t - 1) }.goto t .idle) := by
  have h0 := h.pc_ne_zero (t := t) (by rw [hpc]; nofun)
  have hw1 : s.wakes t = 1 := by
    have := (h.threads t).wakes_le
    omega
  refine ⟨?_, ?_, ?_, ?_⟩
  · refine h.queue.same (.goto (fun _ _ => rfl) (fun _ _ => rfl) rfl rfl rfl rfl rfl ?_ ?_ ?_)
    · intro u hu
      simp [hu]
    · simp [State.waitingFor, hw1, Requester.queued]
    · simp [State.sentFor, hw1, Requester.sent]
  · exact h.request.goto h0 (.inr rfl) (by simp) rfl rfl rfl rfl
  · intro u
    by_cases hu : u = t
    · subst hu
      constructor <;> simp [Requester.holdsLock, Requester.holdsOutstanding, Requester.filling,
        Requester.blocked, hw1]
    · exact (h.threads u).same (by simp [hu]) (by simp [hu]) rfl rfl rfl rfl rfl
  · refine h.handler.other ?_ rfl rfl rfl h.handler.outstanding
    intro u hu
    have hne : u ≠ t := by
      rintro rfl
      rw [hpc] at hu
      cases hu
    simp [hne, hu]

/-! ### The request is queued and sent -/

theorem Requester.request_of_queued {p : ℕ} (h : r.queued = some p) : r.request = some p := by
  cases r <;> simp_all [Requester.queued, Requester.request]

theorem Requester.queued_of_sent {p : ℕ} (h : r.sent = some p) : r.queued = some p := by
  cases r <;> simp_all [Requester.queued, Requester.sent]

theorem waitingFor_eq_some {p : ℕ} :
    s.waitingFor t = some p ↔ s.wakes t = 0 ∧ (s.pc t).queued = some p := by
  unfold State.waitingFor
  split <;> simp_all

theorem sentFor_eq_some {p : ℕ} :
    s.sentFor t = some p ↔ s.wakes t = 0 ∧ (s.pc t).sent = some p := by
  unfold State.sentFor
  split <;> simp_all

/-- The message that is being handled is not that of a thread that has not sent
its own. -/
theorem Inv.handling_ne {m p : ℕ} (h : Inv s) (hm : s.receiver.handling = some m)
    (hreq : (s.pc t).request = some p) (hs : (s.pc t).sent = none) : p ≠ m := by
  rintro rfl
  obtain ⟨u, hu⟩ := (h.queue.sent p).1 (.inr hm)
  obtain ⟨-, hsent⟩ := sentFor_eq_some.1 hu
  have hut := h.request.distinct u t p
    (Requester.request_of_queued (Requester.queued_of_sent hsent)) hreq
  rw [hut, hs] at hsent
  cases hsent

theorem nextOutstandingRequest_lt (n : ℕ) : nextOutstandingRequest n < slots :=
  Nat.mod_lt _ (by decide)

/-- With the head advanced, the slot that was at the head is the last of the queue. -/
theorem inQueue_advanceHead {s' : State} (h : QueueInv s) (hroom : s.count + 1 < slots)
    (hhead : s'.head = nextOutstandingRequest s.head) (htail : s'.tail = s.tail) (x : ℕ) :
    InQueue s' x ↔ InQueue s x ∨ x = s.head := by
  have h₁ := h.head_lt
  have h₂ := h.tail_lt
  simp only [InQueue, State.count, State.offset, hhead, htail, nextOutstandingRequest, slots] at *
  omega

theorem advanceHead_queue {pa : ℕ} (h : Inv s) (hpc : s.pc t = .advanceHead pa) :
    QueueInv ({ s with head := nextOutstandingRequest s.head }.goto t (.queueMessage pa)) := by
  have hw := h.wakes_zero (t := t) (by rw [hpc]; rfl) (by rw [hpc]; rfl)
  have hroom := (h.threads t).filling (by rw [hpc]; rfl)
  obtain ⟨hpa, hth⟩ := h.request.storedThread t pa hpc
  set s' := { s with head := nextOutstandingRequest s.head }.goto t (.queueMessage pa) with hs'
  have hin : ∀ x, InQueue s' x ↔ InQueue s x ∨ x = s.head :=
    inQueue_advanceHead h.queue hroom rfl rfl
  have hlive : ∀ x, Live s' x ↔ Live s x ∨ x = s.head := by
    intro x
    have hdead : s.receiver.dead s.tail = some s.head → False :=
      fun hd => head_not_inQueue s (h.queue.removing _ hd)
    constructor
    · rintro ⟨hx, hd⟩
      rcases (hin x).1 hx with hx | rfl
      · exact .inl ⟨hx, hd⟩
      · exact .inr rfl
    · rintro (⟨hx, hd⟩ | rfl)
      · exact ⟨(hin x).2 (.inl hx), hd⟩
      · exact ⟨(hin _).2 (.inr rfl), hdead⟩
  -- the request of `t` is new in the queue, and the others are as they were
  have hnone : s.waitingFor t = none := by simp [State.waitingFor, hpc, Requester.queued]
  have hself : s'.waitingFor t = some pa := by
    simp [hs', State.waitingFor, hw, Requester.queued]
  have hother : ∀ u, u ≠ t → s'.waitingFor u = s.waitingFor u := by
    intro u hu
    simp [hs', State.waitingFor, hu]
  have hsent : ∀ u, s'.sentFor u = s.sentFor u := by
    intro u
    by_cases hu : u = t
    · subst hu
      simp [hs', State.sentFor, hpc, Requester.sent]
    · simp [hs', State.sentFor, hu]
  have hne : ∀ m, s.receiver.handling = some m → s'.pa s.head ≠ m := by
    intro m hm
    rw [show s'.pa s.head = pa from hpa]
    exact h.handling_ne (t := t) hm (by rw [hpc]; rfl) (by rw [hpc]; rfl)
  -- an entry is live when it was, or is the one at the old head
  constructor
  · exact nextOutstandingRequest_lt _
  · exact h.queue.tail_lt
  · intro x hx
    rcases (hlive x).1 hx with hx | rfl
    · have hwx := h.queue.live x hx
      have hxt : s.thread x ≠ t := by
        intro heq
        rw [heq, hnone] at hwx
        cases hwx
      exact (hother _ hxt).trans hwx
    · show s'.waitingFor (s.thread s.head) = some (s.pa s.head)
      rw [hth, hpa]
      exact hself
  · have hold : ∀ x, Live s x → s.thread x ≠ s.thread s.head := by
      intro x hx heq
      have hwx := h.queue.live x hx
      rw [heq, hth, hnone] at hwx
      cases hwx
    intro x y hx hy heq
    rcases (hlive x).1 hx with hx | rfl <;> rcases (hlive y).1 hy with hy | rfl
    · exact h.queue.inj x y hx hy heq
    · exact absurd heq (hold x hx)
    · exact absurd heq.symm (hold y hy)
    · rfl
  · intro u p hu
    by_cases hut : u = t
    · exact ⟨s.head, (hlive _).2 (.inr rfl), hth.trans hut.symm⟩
    · rw [hother u hut] at hu
      obtain ⟨x, hx, hxu⟩ := h.queue.entry u p hu
      exact ⟨x, (hlive x).2 (.inl hx), hxu⟩
  · intro p
    simp only [hsent]
    exact h.queue.sent p
  · exact h.queue.nodup
  · exact h.queue.fresh
  · intro m i hr
    obtain ⟨hi, hle⟩ := h.queue.loop m i hr
    refine ⟨hi, ?_⟩
    intro x hx hm
    rcases (hlive x).1 hx with hx | rfl
    · exact hle x hx hm
    · exact absurd hm (hne m (by rw [show s.receiver = .loop m i from hr]; rfl))
  · intro m i hr
    obtain ⟨hi, hle⟩ := h.queue.compare m i hr
    refine ⟨(hin i).2 (.inl hi), ?_⟩
    intro x hx hm
    rcases (hlive x).1 hx with hx | rfl
    · exact hle x hx hm
    · exact absurd hm (hne m (by rw [show s.receiver = .compare m i from hr]; rfl))
  · intro m i hr
    obtain ⟨hi, hm⟩ := h.queue.found m i hr
    exact ⟨(hin i).2 (.inl hi), hm⟩
  · intro x hx
    exact (hin x).2 (.inl (h.queue.removing x hx))
  · exact h.queue.matched

theorem advanceHead_inv {pa : ℕ} (h : Inv s) (hpc : s.pc t = .advanceHead pa) :
    Inv ({ s with head := nextOutstandingRequest s.head }.goto t (.queueMessage pa)) := by
  have hl : (s.pc t).holdsLock = true := by rw [hpc]; rfl
  have hb : (s.pc t).blocked = false := by rw [hpc]; rfl
  have h0 := h.pc_ne_zero (t := t) (by rw [hpc]; nofun)
  have hw := h.wakes_zero hb (by rw [hpc]; rfl)
  have hlock := (h.threads t).lock hl
  obtain ⟨hbt, hwake⟩ := h.no_blocked (h.holder_blocked hl hb)
  refine ⟨advanceHead_queue h hpc, ?_, ?_, ?_⟩
  · have hd := h.request.distinct
    have hh := fun u => h.holder (u := u) hl
    constructor
    · rw [goto_pc, if_neg h0.symm, h.request.zero]
    · intro u v p
      simp only [goto_pc]
      grind [Requester.request]
    · intro u p
      simp only [goto_pc, goto_pa, goto_head]
      grind [Requester.holdsLock]
    · intro u p
      simp only [goto_pc, goto_pa, goto_head, goto_thread]
      grind [Requester.holdsLock]
  · refine h.threads_holder hl ?_ (fun _ _ => rfl) ?_
    · intro u hu
      simp [hu]
    · constructor <;> simp [Requester.holdsOutstanding, Requester.filling, Requester.blocked,
        hlock, hw]
  · exact h.handler.calm hbt hwake rfl (fun hne => absurd hbt hne) h.handler.outstanding

theorem queueMessage_inv {pa : ℕ} (h : Inv s) (hpc : s.pc t = .queueMessage pa) :
    Inv ({ s with gpu := pa :: s.gpu }.goto t (.releaseLock pa)) := by
  have hl : (s.pc t).holdsLock = true := by rw [hpc]; rfl
  have hb : (s.pc t).blocked = false := by rw [hpc]; rfl
  have h0 := h.pc_ne_zero (t := t) (by rw [hpc]; nofun)
  have hw := h.wakes_zero hb (by rw [hpc]; rfl)
  have hlock := (h.threads t).lock hl
  obtain ⟨hbt, hwake⟩ := h.no_blocked (h.holder_blocked hl hb)
  -- the address is neither with the GPU nor being handled: no thread has sent it
  have hnot : ¬ (pa ∈ s.gpu ∨ s.receiver.handling = some pa) := by
    intro hin
    obtain ⟨u, hu⟩ := (h.queue.sent pa).1 hin
    obtain ⟨-, hsent⟩ := sentFor_eq_some.1 hu
    have hut := h.request.distinct u t pa
      (Requester.request_of_queued (Requester.queued_of_sent hsent)) (by rw [hpc]; rfl)
    rw [hut, hpc] at hsent
    cases hsent
  refine ⟨?_, h.request.goto h0 (.inl (by rw [hpc]; rfl)) (by simp) rfl rfl rfl rfl, ?_, ?_⟩
  · have hwait : ∀ u, ({ s with gpu := pa :: s.gpu }.goto t (.releaseLock pa)).waitingFor u =
        s.waitingFor u := by
      intro u
      by_cases hu : u = t
      · subst hu
        simp [State.waitingFor, hpc, Requester.queued]
      · simp [State.waitingFor, hu]
    obtain ⟨hhead, htail, hlive, hinj, hentry, hsent, hnodup, hfresh, hloop, hcmp, hfound, hrem,
      hmat⟩ := h.queue
    refine ⟨hhead, htail, ?_, hinj, ?_, ?_, ?_, ?_, hloop, hcmp, hfound, hrem, hmat⟩
    · intro x hx
      rw [hwait]
      exact hlive x hx
    · intro u p hu
      rw [hwait] at hu
      exact hentry u p hu
    · intro p
      rw [goto_gpu, goto_receiver, List.mem_cons, or_assoc, hsent p]
      constructor
      · rintro (rfl | ⟨u, hu⟩)
        · exact ⟨t, by simp [State.sentFor, hw, Requester.sent]⟩
        · refine ⟨u, ?_⟩
          have hut : u ≠ t := by
            rintro rfl
            rw [sentFor_eq_some, hpc] at hu
            cases hu.2
          simpa [State.sentFor, hut] using hu
      · rintro ⟨u, hu⟩
        by_cases hut : u = t
        · subst hut
          rw [sentFor_eq_some] at hu
          simp [Requester.sent] at hu
          exact .inl hu.2.symm
        · refine .inr ⟨u, ?_⟩
          simpa [State.sentFor, hut] using hu
    · exact List.nodup_cons.2 ⟨fun hin => hnot (.inl hin), hnodup⟩
    · intro m hm hin
      rcases List.mem_cons.1 hin with rfl | hin
      · exact hnot (.inr hm)
      · exact hfresh m hm hin
  · refine h.threads_holder hl ?_ (fun _ _ => rfl) ?_
    · intro u hu
      simp [hu]
    · constructor <;> simp [Requester.holdsOutstanding, Requester.filling, Requester.blocked,
        hlock, hw]
  · exact h.handler.calm hbt hwake rfl (fun hne => absurd hbt hne) h.handler.outstanding

/-- A step of a requesting thread keeps the invariant. -/
theorem requesterStep_inv {s' : State} (h : Inv s) (hstep : requesterStep s t = some s')
    (hmiss : NotMissed s (.requester t)) : Inv s' := by
  unfold requesterStep at hstep
  cases hpc : s.pc t <;> simp only [hpc] at hstep
  case idle => cases hstep
  case claimLock pa =>
    split at hstep
    · cases hstep
      exact claimLock_inv h hpc ‹_›
    · cases hstep
  case claimOutstanding pa =>
    split at hstep
    · cases hstep
      exact claimOutstanding_inv h hpc ‹_›
    · cases hstep
  case testFull pa =>
    split at hstep
    · cases hstep
      exact testFull_inv h hpc (.inl rfl)
    · cases hstep
      exact testFull_inv h hpc (.inr ⟨rfl, h.queue.count_lt.1 ‹_›⟩)
  case block pa =>
    cases hstep
    exact block_inv h hpc (hmiss ⟨pa, hpc⟩)
  case releaseOutstanding pa full =>
    cases hstep
    exact releaseOutstanding_inv h hpc
  case waitForRoom pa =>
    unfold State.wait at hstep
    split at hstep
    · cases hstep
    · cases hstep
      exact waitForRoom_inv h hpc ‹_›
  case storePa pa =>
    cases hstep
    exact storePa_inv h hpc
  case storeThread pa =>
    cases hstep
    exact storeThread_inv h hpc
  case advanceHead pa =>
    cases hstep
    exact advanceHead_inv h hpc
  case queueMessage pa =>
    cases hstep
    exact queueMessage_inv h hpc
  case releaseLock pa =>
    cases hstep
    exact releaseLock_inv h hpc
  case waitForAnswer pa =>
    unfold State.wait at hstep
    split at hstep
    · cases hstep
    · cases hstep
      exact waitForAnswer_inv h hpc ‹_›

end Requesters

end Isambard.Driver.Mailbox
