import Isambard.Lib.Runs
import Isambard.El1.Requests

/-!
# El1.Locks — what the calls for locks do

`handle_svc_wait_for_lock` and `handle_svc_release_lock` work on a lock word in the
memory of the calling thread's map. The word holds the codes of the owner and of the
first thread that waits, and any thread of the map can store to it.

* `Placed.store64_low`: stores to the word;
* `releaseLock_cases`: what a release does;
* `release_safe_iff`: a release resumes a thread that waits for the lock when the
  lock word names one. `is_real_thread` is the only test of the code in it.
-/

namespace Isambard.El1

open Isambard.Lib

/-! ## The lock word -/

section Word

variable {k : Kernel} {a : ℕ}

theorem Placed.place_low (h : Placed k) (ha : a < 2 ^ 63) : k.place a = .user a := by
  have hnone : k.contextAt a = none := by
    apply h.contextAt_none
    unfold startAddress heapTop initialHeap
    omega
  unfold Kernel.place
  rw [hnone]
  exact if_pos ha

theorem Placed.setWord_low (h : Placed k) (ha : a < 2 ^ 63) (v : ℕ) :
    ∃ u, k.setWord a v = { k with user := u } := by
  rw [Kernel.setWord, h.place_low ha]
  exact ⟨_, rfl⟩

/-- A store to a low address is a store to the memory of the loaded map. -/
theorem Placed.store64_low (h : Placed k) (ha : a < 2 ^ 34) (v : ℕ) :
    ∃ u, k.store64 a v = { k with user := u } := by
  by_cases hal : a % 8 = 0
  · rw [store64_eq_setWord hal]
    exact h.setWord_low (by omega) v
  · rw [store64_unaligned hal]
    obtain ⟨u, hu⟩ := h.setWord_low (a := a - a % 8) (by omega)
      (setField (8 * (a % 8)) (64 - 8 * (a % 8)) v (k.word (a - a % 8)))
    have h' : Placed { k with user := u } := h.congr rfl rfl
    rw [hu]
    exact h'.setWord_low (by omega) _

end Word

/-! ## Releasing a lock -/

section Release

variable {k k' : Kernel} {t now x17 c : ℕ}

/-- The lock goes to the thread that the code names, if it passes for one. -/
theorem passLock_ok (x17 : ℕ) (h : isRealThread k c = true) :
    ∃ k', passLock k x17 c = .ok k' (threadFromCode c) := by
  unfold passLock
  rw [h]
  simp only [Bool.not_true, Bool.false_eq_true, if_false]
  split
  · exact ⟨_, rfl⟩
  · exact ⟨_, rfl⟩

theorem passLock_real (h : passLock k x17 c = .ok k' now) : isRealThread k c = true := by
  unfold passLock at h
  by_contra hn
  rw [Bool.not_eq_true] at hn
  rw [hn] at h
  cases h

/-- That thread is to run. -/
theorem passLock_runnable (hpl : Placed k) (hx : x17 < 2 ^ 34)
    (h : passLock k x17 c = .ok k' now) : now = threadFromCode c ∧ k'.runnable = now := by
  have hstore : ∀ (k₁ : Kernel) v, Placed k₁ → (k₁.store64 x17 v).runnable = k₁.runnable := by
    intro k₁ v h₁
    obtain ⟨u, hu⟩ := h₁.store64_low hx v
    rw [hu]
  unfold passLock at h
  rw [passLock_real h] at h
  simp only [Bool.not_true, Bool.false_eq_true, if_false] at h
  split at h
  · cases h
    refine ⟨rfl, ?_⟩
    rw [hstore _ _ ((insertThreadAsHead_stores ..).placed hpl)]
    exact insertThreadAsHead_head hpl _
  · cases h
    -- the fake head is set, and the thread leaves its ring
    have hpl₁ : Placed { k with blocked := k.next (threadFromCode c) } := hpl.congr rfl rfl
    have hpl₂ := (removeThread_stores _ (threadFromCode c)).placed hpl₁
    refine ⟨rfl, ?_⟩
    rw [hstore _ _ ((insertThreadAsHead_stores ..).placed hpl₂)]
    exact insertThreadAsHead_head hpl₂ _

/-- The lock word, once EL0 can write to it. -/
structure LockWord (k k₁ : Kernel) (t value : ℕ) : Prop where
  writable : addressIsUserWritable k t (k.reg t 17) = .ok k₁ true
  value : k₁.load64 (k.reg t 17) = value

/-- A release: the lock is free, or it goes to the first thread that waits. -/
theorem releaseLock_cases (h : handleSvcReleaseLock k t = .ok k' now) :
    ∃ k₁ v, LockWord k k₁ t v ∧ threadFromCode (k.reg t 18) = t ∧ v ≠ 0 ∧
      v % 2 ^ 32 = k.reg t 18 ∧
      ((v / 2 ^ 32 = 0 ∧ k' = k₁.store64 (k.reg t 17) 0 ∧ now = t) ∨
        (v / 2 ^ 32 ≠ 0 ∧ passLock k₁ (k.reg t 17) (v / 2 ^ 32) = .ok k' now)) := by
  unfold handleSvcReleaseLock at h
  simp only at h
  cases hw : addressIsUserWritable k t (k.reg t 17) with
  | halt k₁ =>
    rw [hw] at h
    cases h
  | ok k₁ b =>
    rw [hw] at h
    cases b with
    | false => cases h
    | true =>
      simp only at h
      split at h
      · cases h
      · rename_i hcode
        split at h
        · cases h
        · rename_i hv
          split at h
          · cases h
          · rename_i howner
            refine ⟨k₁, _, ⟨hw, rfl⟩, not_not.1 hcode, hv, not_not.1 howner, ?_⟩
            split at h
            · exact .inr ⟨‹_›, h⟩
            · rename_i hwait
              cases h
              exact .inl ⟨not_not.1 hwait, rfl, rfl⟩

theorem releaseLock_pass {k₁ : Kernel} {v : ℕ} (hw : LockWord k k₁ t v)
    (hcode : threadFromCode (k.reg t 18) = t) (hv : v ≠ 0) (howner : v % 2 ^ 32 = k.reg t 18)
    (hwait : v / 2 ^ 32 ≠ 0) :
    handleSvcReleaseLock k t = passLock k₁ (k.reg t 17) (v / 2 ^ 32) := by
  unfold handleSvcReleaseLock
  simp only [hw.writable, hw.value, hcode, howner, hv, hwait, ne_eq, not_true_eq_false,
    not_false_eq_true, if_true, if_false]

end Release

/-! ## Threads that wait -/

/-- What a thread that does not run has asked for. -/
inductive Waits where
  | nothing
  | gate
  | lock (map address : ℕ)
deriving Repr, DecidableEq

/-- The kernel, with what each thread waits for. -/
structure Observed where
  kernel : Kernel
  waits : ℕ → Waits

/-- What the threads wait for after a step of the running thread. -/
def Observed.after (s : Observed) (r : Regs) (e : Event) (k' : Kernel) (now p : ℕ) : Waits :=
  let t := s.kernel.runnable
  if p = now then .nothing
  else if p = t then
    if e = .svc 0xf006 then .lock (s.kernel.currentMap t) (r.x 17)
    else if e = .svc 0xf001 then .gate
    else .nothing
  -- woken, or out of time
  else if s.waits p = .gate ∧ k'.gate p ≠ threadWaiting then .nothing
  else s.waits p

/-- The running thread stores to the memory of its map, or enters the kernel. -/
inductive ObservedStep (s : Observed) : ℕ → Observed → Prop
  | store {a v : ℕ} : a < 2 ^ 63 → ObservedStep s s.kernel.runnable
      { s with kernel := s.kernel.setWord a v }
  | enter {r : Regs} {e : Event} {k' : Kernel} {now : ℕ} :
      kernelStep s.kernel r e = .ok k' now →
        ObservedStep s s.kernel.runnable ⟨k', s.after r e k' now⟩

/-- The runs from a kernel in which no thread waits. -/
def observedSystem : System Observed ℕ where
  init s := Placed s.kernel ∧ ∀ p, s.waits p = .nothing
  step := ObservedStep

/-! ## The results -/

section Results

variable {k k' : Kernel} {t : ℕ} {w : ℕ → Waits}

/-- The call halts, or nobody waits and no thread is resumed, or the thread that it
resumes waits for this lock. -/
def ReleasesSafely (k : Kernel) (t : ℕ) (w : ℕ → Waits) : Prop :=
  ∀ k' now, handleSvcReleaseLock k t = .ok k' now →
    (k.load64 (k.reg t 17) / 2 ^ 32 = 0 ∧ now = t ∧ k'.ctx = k.ctx ∧ k'.runnable = k.runnable) ∨
      (w now = .lock (k.currentMap t) (k.reg t 17) ∧ k'.runnable = now)

/-- The code in the lock word that the kernel takes for that of the first thread that
waits: it passes for the code of a thread, and the caller owns the lock. -/
def Names (k : Kernel) (t f : ℕ) : Prop :=
  ∃ k₁ v, LockWord k k₁ t v ∧ threadFromCode (k.reg t 18) = t ∧ v % 2 ^ 32 = k.reg t 18 ∧
    v / 2 ^ 32 ≠ 0 ∧ isRealThread k₁ (v / 2 ^ 32) = true ∧ f = threadFromCode (v / 2 ^ 32)

theorem LockWord.load64 {k₁ : Kernel} {v : ℕ} (hpl : Placed k) (h : LockWord k k₁ t v) :
    k.load64 (k.reg t 17) = v := by
  obtain ⟨hlow, l1, l2, l3, rfl⟩ := addressIsUserWritable_ok h.writable
  have hpl₁ : Placed { k with l1 := l1, l2 := l2, l3 := l3 } := hpl.congr rfl rfl
  rw [← h.value]
  unfold Kernel.load64 Kernel.word
  have hp : ∀ a, a < 2 ^ 63 → k.place a = .user a := fun a ha => hpl.place_low ha
  have hp₁ : ∀ a, a < 2 ^ 63 →
      ({ k with l1 := l1, l2 := l2, l3 := l3 } : Kernel).place a = .user a :=
    fun a ha => hpl₁.place_low ha
  simp only [hp _ (show k.reg t 17 < 2 ^ 63 by omega), hp₁ _ (show k.reg t 17 < 2 ^ 63 by omega),
    hp _ (show k.reg t 17 - k.reg t 17 % 8 < 2 ^ 63 by omega),
    hp₁ _ (show k.reg t 17 - k.reg t 17 % 8 < 2 ^ 63 by omega),
    hp _ (show k.reg t 17 - k.reg t 17 % 8 + 8 < 2 ^ 63 by omega),
    hp₁ _ (show k.reg t 17 - k.reg t 17 % 8 + 8 < 2 ^ 63 by omega)]

/-- A release is safe when the first waiting thread that the lock word names, if it
names one, waits for this lock. -/
theorem release_safe_iff (hpl : Placed k) :
    ReleasesSafely k t w ↔
      ∀ f, Names k t f → w f = .lock (k.currentMap t) (k.reg t 17) := by
  constructor
  · rintro hsafe f ⟨k₁, v, hw, hcode, howner, hwait, hreal, rfl⟩
    have hv : v ≠ 0 := by
      rintro rfl
      exact hwait rfl
    obtain ⟨k', hk'⟩ := passLock_ok (k.reg t 17) hreal
    rw [← releaseLock_pass hw hcode hv howner hwait] at hk'
    rcases hsafe k' _ hk' with ⟨hno, -⟩ | ⟨hlock, -⟩
    · rw [hw.load64 hpl] at hno
      exact absurd hno hwait
    · exact hlock
  · intro hnames k' now h
    obtain ⟨k₁, v, hw, hcode, hv, howner, hcase⟩ := releaseLock_cases h
    obtain ⟨hlow, l1, l2, l3, hk₁⟩ := addressIsUserWritable_ok hw.writable
    have hpl₁ : Placed k₁ := by
      rw [hk₁]
      exact hpl.congr rfl rfl
    rcases hcase with ⟨hno, rfl, rfl⟩ | ⟨hwait, hpass⟩
    · obtain ⟨u, hu⟩ := hpl₁.store64_low hlow 0
      refine .inl ⟨by rw [hw.load64 hpl]; exact hno, rfl, ?_, ?_⟩
      · rw [hu, hk₁]
      · rw [hu, hk₁]
    · obtain ⟨rfl, hrun⟩ := passLock_runnable hpl₁ hlow hpass
      exact .inr ⟨hnames _ ⟨k₁, v, hw, hcode, howner, hwait, passLock_real hpass, rfl⟩, hrun⟩

end Results

/-! ## Three threads -/

/-- Three threads of map 3 in a ring; EL0 can write to the first gigabyte. -/
def lockThreads : Kernel :=
  { Kernel.boot with
    contexts := [startAddress + 0x1ffa00, startAddress + 0x1ffc00, startAddress + 0x1ffe00]
    heapBottom := 0x1ffa00
    runnable := startAddress + 0x1ffc00
    loadedMap := 3
    l1 := fun i => if i = 0 then Entry.shared 0 (Entry.el0Rw (Entry.blockAt 0)) else 0
    ctx := fun p w =>
      if w = 0 then
        if p = startAddress + 0x1ffa00 then startAddress + 0x1ffe00 else p - 0x200
      else if w = 1 then
        if p = startAddress + 0x1ffe00 then startAddress + 0x1ffa00 else p + 0x200
      else if w = 39 then 3 * 2 ^ 32
      else 0 }

theorem lockThreads_placed : Placed lockThreads :=
  ⟨by decide, by decide, by decide, by decide, by decide⟩

/-- The registers of a call for the lock at 4096. -/
def lockRegs (x₁₈ : ℕ) : Regs where
  x i := if i = 17 then 4096 else if i = 18 then x₁₈ else 0
  pc := 0
  spsr := 0

/-- The thread with code `0x1ffa00` has claimed the lock. -/
def lockHeld : Kernel := lockThreads.setWord 4096 0x1ffa00

/-- The thread with code `0x1ffc00` waits for it. -/
def atLock : Outcome ℕ := kernelStep lockHeld (lockRegs 0x1ffc00) (.svc 0xf006)

def atLockObserved : Observed where
  kernel := atLock.kernel
  waits := Observed.after ⟨lockHeld, fun _ => .nothing⟩ (lockRegs 0x1ffc00) (.svc 0xf006)
    atLock.kernel atLock.now

theorem lockHeld_placed : Placed lockHeld := by
  obtain ⟨u, hu⟩ := lockThreads_placed.setWord_low (a := 4096) (by decide) 0x1ffa00
  rw [lockHeld, hu]
  exact lockThreads_placed.congr rfl rfl

theorem atLockObserved_reachable : observedSystem.Reachable atLockObserved := by
  have hwait : kernelStep lockHeld (lockRegs 0x1ffc00) (.svc 0xf006) =
      .ok atLock.kernel atLock.now := Outcome.eq_ok_now (by decide +kernel)
  have h₀ : observedSystem.Reachable ⟨lockHeld, fun _ => .nothing⟩ :=
    .init ⟨lockHeld_placed, fun _ => rfl⟩
  exact .step h₀ (ObservedStep.enter hwait)

/-- The owner releases the lock. -/
def ownerCall : Kernel :=
  enter atLockObserved.kernel (startAddress + 0x1ffa00) (lockRegs 0x1ffa00)

theorem ownerCall_placed : Placed ownerCall :=
  ⟨by decide +kernel, by decide +kernel, by decide +kernel, by decide +kernel, by decide +kernel⟩

/-- The lock word names the thread that waits for the lock. -/
theorem release_safe_waiter : observedSystem.Reachable atLockObserved ∧
    atLockObserved.kernel.runnable = startAddress + 0x1ffa00 ∧
    ReleasesSafely ownerCall (startAddress + 0x1ffa00) atLockObserved.waits := by
  have hmap : ownerCall.currentMap (startAddress + 0x1ffa00) = 3 := by decide +kernel
  have hlock : ownerCall.reg (startAddress + 0x1ffa00) 17 = 4096 := by decide +kernel
  refine ⟨atLockObserved_reachable, by decide +kernel, ?_⟩
  refine (release_safe_iff ownerCall_placed).2 ?_
  rintro f ⟨k₁, v, hw, -, -, -, -, rfl⟩
  have hv : v = 0x1ffa00 + 0x1ffc00 * 2 ^ 32 := by
    rw [← hw.load64 ownerCall_placed]
    decide +kernel
  rw [hv, hmap, hlock]
  decide +kernel

/-! ### A forged lock word -/

/-- The thread with code `0x1ffc00` waits at the gate. -/
def atGate : Outcome ℕ := kernelStep lockThreads (lockRegs 0) (.svc 0xf001)

def atGateObserved : Observed where
  kernel := atGate.kernel
  waits := Observed.after ⟨lockThreads, fun _ => .nothing⟩ (lockRegs 0) (.svc 0xf001)
    atGate.kernel atGate.now

/-- The running thread stores a lock word: it owns the lock, and the other one waits. -/
def Observed.storeLock (s : Observed) : Observed :=
  { s with kernel := s.kernel.setWord 4096 (0x1ffa00 + 0x1ffc00 * 2 ^ 32) }

/-- It releases the lock. -/
def forgedCall : Kernel :=
  enter atGateObserved.storeLock.kernel (startAddress + 0x1ffa00) (lockRegs 0x1ffa00)

theorem storeLock_reachable {s : Observed} (h : observedSystem.Reachable s) :
    observedSystem.Reachable s.storeLock :=
  .step h (ObservedStep.store (by decide))

theorem atGateObserved_reachable : observedSystem.Reachable atGateObserved := by
  have hgate : kernelStep lockThreads (lockRegs 0) (.svc 0xf001) = .ok atGate.kernel atGate.now :=
    Outcome.eq_ok_now (by decide +kernel)
  have h₀ : observedSystem.Reachable ⟨lockThreads, fun _ => .nothing⟩ :=
    .init ⟨lockThreads_placed, fun _ => rfl⟩
  exact .step h₀ (ObservedStep.enter hgate)

/-- The release resumes the thread that waits at the gate. -/
theorem release_resumes_gate : ¬ ∀ s r, observedSystem.Reachable s →
    ReleasesSafely (enter s.kernel s.kernel.runnable r) s.kernel.runnable s.waits := by
  intro h
  have hrun : atGateObserved.storeLock.kernel.runnable = startAddress + 0x1ffa00 := by
    decide +kernel
  have hsafe := h atGateObserved.storeLock (lockRegs 0x1ffa00)
    (storeLock_reachable atGateObserved_reachable)
  rw [hrun, ← forgedCall] at hsafe
  have hok := Outcome.eq_ok_now (o := handleSvcReleaseLock forgedCall (startAddress + 0x1ffa00))
    (by decide +kernel)
  rcases hsafe _ _ hok with ⟨-, hnow, -⟩ | ⟨hlock, -⟩
  · revert hnow
    decide +kernel
  · revert hlock
    decide +kernel

end Isambard.El1
