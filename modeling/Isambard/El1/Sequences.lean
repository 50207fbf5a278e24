import Isambard.El1.Waiters
import Isambard.El1.Waits

/-!
# El1.Sequences — claiming and releasing locks

`CLAIM_LOCK` and `RELEASE_LOCK` of `include/isambard_client.h`, instruction by
instruction, for any number of threads on a core. A thread may be interrupted
between any two of its instructions. Its exclusive store succeeds only if it has
taken no exception since its exclusive load, and may fail even so; the slow paths
are the kernel's calls for locks.

* `LockStep`: an instruction of the running thread, or what happens meanwhile;
* `LockInv`: each lock is a lock that is handed over;
* `lock_protocol_safe`: one owner, and those who wait in the order in which they
  came.
-/

namespace Isambard.El1

open Isambard.Lib

/-! ## The sequences -/

/-- Where a thread is in a sequence for the lock at `a`: the next instruction, with
the value of `x16` where it matters. -/
inductive Stage where
  /-- in neither sequence -/
  | outside
  /-- `2: ldxr x16, [x17]` -/
  | claimLoad (a : ℕ)
  /-- `cbz x16, 0f` -/
  | claimTest (a x16 : ℕ)
  /-- `svc LOCK_WAIT` -/
  | claimWait (a : ℕ)
  /-- `0: stxr w16, x18, [x17]` -/
  | claimStore (a : ℕ)
  /-- `cbnz x16, 2b` -/
  | claimCheck (a x16 : ℕ)
  /-- the call has not returned -/
  | waiting (a : ℕ)
  /-- `ldxr x16, [x17]` -/
  | releaseLoad (a : ℕ)
  /-- `cmp x16, x18; bne 1f` -/
  | releaseTest (a x16 : ℕ)
  /-- `stxr w16, xzr, [x17]` -/
  | releaseStore (a : ℕ)
  /-- `cbz w16, 2f` -/
  | releaseCheck (a x16 : ℕ)
  /-- `1: svc LOCK_RELEASE` -/
  | releaseCall (a : ℕ)
deriving Repr, DecidableEq

/-- The lock that the sequence is for. -/
def Stage.lock : Stage → Option ℕ
  | .outside => none
  | .claimLoad a | .claimTest a _ | .claimWait a | .claimStore a | .claimCheck a _ => some a
  | .waiting a => some a
  | .releaseLoad a | .releaseTest a _ | .releaseStore a | .releaseCheck a _ => some a
  | .releaseCall a => some a

/-- The lock is not claimed yet. -/
def Stage.Claims (a : ℕ) : Stage → Prop
  | .claimLoad b | .claimTest b _ | .claimWait b | .claimStore b | .waiting b => b = a
  | .claimCheck b x16 => b = a ∧ x16 ≠ 0
  | _ => False

/-- What the exclusive load has given, for a thread with the code `x18`. -/
def Stage.loaded (x18 : ℕ) : Stage → Option (ℕ × ℕ)
  | .claimTest a x16 | .releaseTest a x16 => some (a, x16)
  | .claimStore a => some (a, 0)
  | .releaseStore a => some (a, x18)
  | _ => none

/-- A core, the instructions that its threads have come to, and what an observer
remembers. -/
structure Locking where
  kernel : Kernel
  stage : ℕ → Stage
  /-- the address of the last exclusive load, with no exception since -/
  monitor : Option ℕ
  /-- the thread's claim of the lock has had its effect, and its release has not -/
  owns : ℕ → ℕ → Bool
  clock : ℕ
  /-- when the thread began to wait -/
  since : ℕ → ℕ

namespace Locking

/-- The running thread. -/
abbrev running (s : Locking) : ℕ := s.kernel.runnable

/-- The running thread, in the map `m`, has come to `stage`. -/
def At (s : Locking) (m : ℕ) (stage : Stage) : Prop :=
  s.kernel.currentMap s.running = m ∧ s.stage s.running = stage

/-- Its next instruction. -/
def goto (s : Locking) (stage : Stage) : Locking :=
  { s with stage := Function.update s.stage s.running stage }

def setOwns (s : Locking) (p a : ℕ) (b : Bool) : Locking :=
  { s with owns := Function.update s.owns p (Function.update (s.owns p) a b) }

/-- The running thread has called the kernel to wait. -/
def wait (s : Locking) (a : ℕ) (k' : Kernel) : Locking :=
  { s.goto (.waiting a) with
    kernel := k'
    monitor := none
    clock := s.clock + 1
    since := Function.update s.since s.running s.clock }

/-- The kernel returns to `p`: a call to wait for a lock ends with the lock. -/
def resumed (s : Locking) (p : ℕ) : Locking :=
  match s.stage p with
  | .waiting a => { s with stage := Function.update s.stage p .outside }.setOwns p a true
  | _ => s

/-- The thread is between a completed claim and the start of its release. -/
def Inside (s : Locking) (p a : ℕ) : Prop := s.owns p a = true ∧ (s.stage p).lock ≠ some a

end Locking

/-- What else may happen on the core: other instructions, exceptions and calls, after
which any thread runs that waits for no lock. The words of the locks, and the
threads that wait for them, are left alone. -/
structure Meanwhile (m : ℕ) (locks : ℕ → Prop) (s : Locking) (k' : Kernel) : Prop where
  placed : Placed k'
  layout : k'.layout = s.kernel.layout
  contexts : ∀ p ∈ s.kernel.contexts, p ∈ k'.contexts
  words : ∀ a, locks a → k'.user m a = s.kernel.user m a
  links : ∀ p a, s.stage p = .waiting a → ∀ w, w < 3 → k'.ctx p w = s.kernel.ctx p w
  running : ∃ rs, Running k' rs ∧ ∀ p ∈ k'.runnable :: rs, ∀ a, s.stage p ≠ .waiting a
  loaded : k'.loadedMap = k'.currentMap k'.runnable

/-- A step of the core: an instruction of the running thread, in the map `m`, or
what happens meanwhile. -/
inductive LockStep (m : ℕ) (locks : ℕ → Prop) (s : Locking) : ℕ → Locking → Prop
  /-- A thread never claims a lock that it holds. -/
  | claim {a : ℕ} : s.At m .outside → locks a → s.owns s.running a = false →
      LockStep m locks s s.running (s.goto (.claimLoad a))
  | claimLoad {a : ℕ} : s.At m (.claimLoad a) →
      LockStep m locks s s.running
        { s.goto (.claimTest a (s.kernel.load64 a)) with monitor := some a }
  | claimTest {a x16 : ℕ} : s.At m (.claimTest a x16) →
      LockStep m locks s s.running
        (s.goto (if x16 = 0 then .claimStore a else .claimWait a))
  | claimStore {a : ℕ} : s.At m (.claimStore a) → s.monitor = some a →
      LockStep m locks s s.running
        { (s.goto (.claimCheck a 0)).setOwns s.running a true with
          kernel := s.kernel.store64 a (threadCode s.running)
          monitor := none }
  | claimFail {a : ℕ} : s.At m (.claimStore a) →
      LockStep m locks s s.running { s.goto (.claimCheck a 1) with monitor := none }
  | claimCheck {a x16 : ℕ} : s.At m (.claimCheck a x16) →
      LockStep m locks s s.running (s.goto (if x16 ≠ 0 then .claimLoad a else .outside))
  | claimWait {a : ℕ} {r : Regs} {k' : Kernel} {now : ℕ} : s.At m (.claimWait a) → r.x 17 = a →
      r.x 18 = threadCode s.running → kernelStep s.kernel r (.svc 0xf006) = .ok k' now →
      LockStep m locks s s.running ((s.wait a k').resumed now)
  | release {a : ℕ} : s.At m .outside → locks a →
      LockStep m locks s s.running (s.goto (.releaseLoad a))
  | releaseLoad {a : ℕ} : s.At m (.releaseLoad a) →
      LockStep m locks s s.running
        { s.goto (.releaseTest a (s.kernel.load64 a)) with monitor := some a }
  | releaseTest {a x16 : ℕ} : s.At m (.releaseTest a x16) →
      LockStep m locks s s.running
        (s.goto (if x16 ≠ threadCode s.running then .releaseCall a else .releaseStore a))
  | releaseStore {a : ℕ} : s.At m (.releaseStore a) → s.monitor = some a →
      LockStep m locks s s.running
        { (s.goto (.releaseCheck a 0)).setOwns s.running a false with
          kernel := s.kernel.store64 a 0
          monitor := none }
  | releaseFail {a : ℕ} : s.At m (.releaseStore a) →
      LockStep m locks s s.running { s.goto (.releaseCheck a 1) with monitor := none }
  | releaseCheck {a x16 : ℕ} : s.At m (.releaseCheck a x16) →
      LockStep m locks s s.running (s.goto (if x16 = 0 then .outside else .releaseCall a))
  | releaseCall {a : ℕ} {r : Regs} {k' : Kernel} {now : ℕ} : s.At m (.releaseCall a) →
      r.x 17 = a → r.x 18 = threadCode s.running →
      kernelStep s.kernel r (.svc 0xf007) = .ok k' now →
      LockStep m locks s s.running
        ({ (s.goto .outside).setOwns s.running a false with
          kernel := k'
          monitor := none }.resumed now)
  | meanwhile {k' : Kernel} : Meanwhile m locks s k' →
      LockStep m locks s s.running { s with kernel := k', monitor := none }

/-- No lock is claimed yet. -/
structure LockStart (m : ℕ) (locks : ℕ → Prop) (s : Locking) : Prop where
  placed : Placed s.kernel
  loaded : s.kernel.loadedMap = s.kernel.currentMap s.running
  running : ∃ rs, Running s.kernel rs
  aligned : ∀ a, locks a → a % 8 = 0 ∧ a < 2 ^ 63
  words : ∀ a, locks a → s.kernel.user m a = 0
  stage : ∀ p, s.stage p = .outside
  owns : ∀ p a, s.owns p a = false
  monitor : s.monitor = none

/-- The threads of the map `m` share the words `locks`. -/
def lockSystem (m : ℕ) (locks : ℕ → Prop) : System Locking ℕ where
  init := LockStart m locks
  step := LockStep m locks

/-! ## The invariant -/

/-- The locks of the map `m` stand for locks that are handed over: `L`. -/
structure Locked (k : Kernel) (m : ℕ) (locks : ℕ → Prop) (L : ℕ → Handover ℕ) (rs : List ℕ) :
    Prop where
  placed : Placed k
  loaded : k.loadedMap = k.currentMap k.runnable
  running : Running k rs
  lock : ∀ a, locks a → LockAt k m a (L a)

/-- Where the thread is fits what the locks are. -/
structure Fits (locks : ℕ → Prop) (s : Locking) (L : ℕ → Handover ℕ) (p : ℕ) : Prop where
  onLock : ∀ a, (s.stage p).lock = some a → locks a
  owner : ∀ a, locks a → (s.owns p a = true ↔ (L a).owner = some p)
  waiting : ∀ a, locks a → (s.stage p = .waiting a ↔ p ∈ (L a).queue)
  claims : ∀ a, (s.stage p).Claims a → s.owns p a = false
  clock : ∀ a, s.stage p = .waiting a → s.since p < s.clock

/-- The locks, the threads, and the exclusive load of the running one. -/
structure LockInv (m : ℕ) (locks : ℕ → Prop) (s : Locking) (L : ℕ → Handover ℕ) (rs : List ℕ) :
    Prop where
  locked : Locked s.kernel m locks L rs
  aligned : ∀ a, locks a → a % 8 = 0 ∧ a < 2 ^ 63
  awake : ∀ p ∈ s.running :: rs, ∀ a, s.stage p ≠ .waiting a
  fits : ∀ p, Fits locks s L p
  order : ∀ a, locks a → (L a).queue.Pairwise fun p q => s.since p < s.since q
  monitor : ∀ a x, s.monitor = some a →
    (s.stage s.running).loaded (threadCode s.running) = some (a, x) → s.kernel.user m a = x

section Kernels

variable {k k₁ k' : Kernel} {m a : ℕ} {locks : ℕ → Prop} {L : ℕ → Handover ℕ} {rs rs' : List ℕ}
  {l' : Handover ℕ} {r : Regs}

/-- A store of EL0 to the word of a lock that no thread waits for. -/
theorem Locked.store (h : Locked k m locks L rs) (hm : k.currentMap k.runnable = m)
    (hal : a % 8 = 0) (ha : a < 2 ^ 63) (hown : ∀ p, l'.owner = some p → p ∈ k.contexts)
    (hnil : l'.queue = []) :
    Locked (k.store64 a (lockWord l')) m locks (Function.update L a l') rs := by
  have hload : k.loadedMap = m := h.loaded.trans hm
  have hmem := h.running.mem _ List.mem_cons_self
  rw [h.placed.store64_user hal ha]
  refine ⟨h.placed.congr rfl rfl, ?_,
    ⟨h.running.ring, h.running.nodup, h.running.mem, h.running.owners⟩, ?_⟩
  · refine Eq.trans h.loaded (Eq.symm ?_)
    exact currentMap_congr hmem hmem rfl
  intro b hb
  by_cases hba : b = a
  · subst hba
    rw [Function.update_self]
    refine ⟨?_, hown, ?_⟩
    · show setCtx k.user k.loadedMap b (lockWord l') m b = lockWord l'
      simp [hload]
    · rw [hnil]
      exact ⟨by simp, by simp, by simp, by simp⟩
  · rw [Function.update_of_ne hba]
    refine (h.lock b hb).congr (fun _ hp => hp) rfl ?_ fun _ _ _ _ => rfl
    show setCtx k.user k.loadedMap a (lockWord l') m b = k.user m b
    simp [hba]

/-- A call of the kernel for a lock. -/
theorem Locked.call (h : Locked k m locks L rs) (hm : k.currentMap k.runnable = m)
    (hapart : ∀ b, locks b → b ≠ a → ∀ p ∈ (L b).queue, p ∉ k.runnable :: rs ∧ p ∉ (L a).queue)
    (hc : LockCall (enter k k.runnable r) k₁ a rs rs' (L a) l') (hl : Left k₁ k' k.runnable)
    (hload : k'.loadedMap = k'.currentMap k'.runnable) :
    Locked k' m locks (Function.update L a l') rs' := by
  have he := enter_entered k k.runnable r
  have hf : Frame k k₁ := he.frame.trans hc.frame
  have hmap : (enter k k.runnable r).loadedMap = m := h.loaded.trans hm
  have hleft : ∀ p w, w < 3 → k'.ctx p w = k₁.ctx p w := fun p w hw => hl.words p w (by omega)
  have hmem : ∀ p ∈ k₁.contexts, p ∈ k'.contexts := by
    rw [hl.frame.contexts]
    exact fun p hp => hp
  refine ⟨hl.frame.placed (hf.placed h.placed), hload,
    hc.running.congr hl.frame hl.runnable fun p _ w hw => hleft p w hw, ?_⟩
  intro b hb
  by_cases hba : b = a
  · subst hba
    have hlock := hc.lock
    rw [hmap] at hlock
    rw [Function.update_self]
    exact hlock.congr hmem hl.frame.layout (by rw [hl.user]) fun p _ w hw => hleft p w hw
  · rw [Function.update_of_ne hba]
    have hlt := (h.lock b hb).word_lt h.placed
    refine (h.lock b hb).congr ?_ (hf.trans hl.frame).layout ?_ ?_
    · rw [hl.frame.contexts, hf.contexts]
      exact fun p hp => hp
    · rw [hl.user, hc.user m b (fun _ => hba) hlt]
      rfl
    · intro p hp w hw
      obtain ⟨hpr, hpa⟩ := hapart b hb hba p hp
      rw [hleft p w hw, hc.others p hpr hpa w]
      exact he.words p w (.inl (by omega))

/-- The kernel that the running thread has entered, for a call for the lock at `a`. -/
theorem Locked.entered (h : Locked k m locks L rs) (hm : k.currentMap k.runnable = m)
    (ha : locks a) (r : Regs) : Placed (enter k k.runnable r) ∧ Running (enter k k.runnable r) rs ∧
      LockAt (enter k k.runnable r) (enter k k.runnable r).loadedMap a (L a) ∧
      ∀ i, i ≤ 18 → (enter k k.runnable r).reg k.runnable i = r.x i := by
  have he := enter_entered k k.runnable r
  have hmap : (enter k k.runnable r).loadedMap = m := h.loaded.trans hm
  have hmem := h.running.mem _ List.mem_cons_self
  rw [hmap]
  refine ⟨he.frame.placed h.placed, ?_, ?_, ?_⟩
  · exact h.running.congr he.frame he.runnable fun p _ w hw => he.words p w (.inl (by omega))
  · exact (h.lock a ha).congr (fun _ hp => hp) rfl rfl fun p _ w hw =>
      he.words p w (.inl (by omega))
  · exact fun i hi => (fld_of_mem (k := enter k k.runnable r) hmem _).trans (enter_reg hi)

/-- The whole step of a core for a call for the lock at `a`. -/
theorem Locked.step {n now : ℕ} (h : Locked k m locks L rs) (hm : k.currentMap k.runnable = m)
    (hapart : ∀ b, locks b → b ≠ a → ∀ p ∈ (L b).queue, p ∉ k.runnable :: rs ∧ p ∉ (L a).queue)
    (hs : kernelStep k r (.svc n) = .ok k' now)
    (hh : handleSvc (enter k k.runnable r) k.runnable n = .ok k₁ now)
    (hleft : now ∈ k₁.contexts → k₁.runnable = now ∧ Left k₁ k' k.runnable)
    (hc : LockCall (enter k k.runnable r) k₁ a rs rs' (L a) l') (hrun : k₁.runnable = now) :
    k'.runnable = now ∧ Locked k' m locks (Function.update L a l') rs' := by
  have hnow : now ∈ k₁.contexts := by
    rw [← hrun]
    exact hc.running.mem _ List.mem_cons_self
  have hl := (hleft hnow).2
  have he := enter_entered k k.runnable r
  have hmem := h.running.mem _ List.mem_cons_self
  have hrun' : k'.runnable = now := hl.runnable.trans hrun
  have hcur : k₁.currentMap k.runnable = k.currentMap k.runnable := by
    refine currentMap_congr hmem ?_ ?_
    · rw [hc.frame.contexts, he.frame.contexts]
      exact hmem
    · exact (hc.words _ 39 (by decide)).trans (he.words _ 39 (by omega))
  have hload : k'.loadedMap = k'.currentMap now := by
    refine kernelStep_loaded hs hh hnow ?_
    rw [hcur, hc.loadedMap]
    exact h.loaded
  refine ⟨hrun', h.call hm hapart hc hl ?_⟩
  rw [hrun']
  exact hload

end Kernels

/-! ## The steps -/

section Steps

variable {m a : ℕ} {locks : ℕ → Prop} {s s' : Locking} {L L' : ℕ → Handover ℕ} {rs rs' : List ℕ}
  {t : Stage} {k' : Kernel} {p : ℕ}

namespace Locking

@[simp] theorem goto_stage (s : Locking) (t : Stage) (p : ℕ) :
    (s.goto t).stage p = if p = s.running then t else s.stage p := by
  unfold goto
  simp only [Function.update_apply]

@[simp] theorem setOwns_owns (s : Locking) (p a : ℕ) (b : Bool) (q c : ℕ) :
    (s.setOwns p a b).owns q c = if q = p ∧ c = a then b else s.owns q c := by
  unfold setOwns
  by_cases hq : q = p
  · subst hq
    by_cases hc : c = a
    · simp [hc]
    · simp [hc]
  · simp [hq]

theorem resumed_waiting (h : s.stage p = .waiting a) : s.resumed p =
    { s with stage := Function.update s.stage p .outside }.setOwns p a true := by
  unfold resumed
  rw [h]

theorem resumed_awake (h : ∀ a, s.stage p ≠ .waiting a) : s.resumed p = s := by
  unfold resumed
  split
  · exact absurd ‹_› (h _)
  · rfl

end Locking

/-- A thread that the step is not about. -/
theorem Fits.congr (h : Fits locks s L p) (hstage : s'.stage p = s.stage p)
    (howns : s'.owns p = s.owns p) (hsince : s'.since p = s.since p) (hclock : s.clock ≤ s'.clock)
    (howner : ∀ a, (L' a).owner = some p ↔ (L a).owner = some p)
    (hqueue : ∀ a, p ∈ (L' a).queue ↔ p ∈ (L a).queue) : Fits locks s' L' p := by
  constructor
  · rw [hstage]
    exact h.onLock
  · intro a ha
    rw [howns, howner]
    exact h.owner a ha
  · intro a ha
    rw [hstage, hqueue]
    exact h.waiting a ha
  · rw [hstage, howns]
    exact h.claims
  · intro a hw
    rw [hstage] at hw
    rw [hsince]
    exact (h.clock a hw).trans_le hclock

/-- A thread that neither claims a lock nor waits for one. -/
theorem fits_past (hstage : s'.stage p = t) (hlock : ∀ a, t.lock = some a → locks a)
    (hwait : ∀ a, t ≠ .waiting a) (hclaims : ∀ a, ¬ t.Claims a)
    (howner : ∀ a, locks a → (s'.owns p a = true ↔ (L' a).owner = some p))
    (hqueue : ∀ a, locks a → p ∉ (L' a).queue) : Fits locks s' L' p := by
  constructor
  · rw [hstage]
    exact hlock
  · exact howner
  · intro a ha
    rw [hstage]
    exact ⟨fun heq => absurd heq (hwait a), fun hp => absurd hp (hqueue a ha)⟩
  · rw [hstage]
    exact fun a hc => absurd hc (hclaims a)
  · rw [hstage]
    exact fun a hw => absurd hw (hwait a)

/-- A thread that has asked for the lock at `a`, and waits for it. -/
theorem fits_waiting (hstage : s'.stage p = .waiting a) (ha : locks a)
    (hfree : s'.owns p a = false) (hclock : s'.since p < s'.clock)
    (howner : ∀ c, locks c → (s'.owns p c = true ↔ (L' c).owner = some p))
    (hqueue : ∀ c, locks c → (p ∈ (L' c).queue ↔ c = a)) : Fits locks s' L' p := by
  constructor
  · intro c hc
    rw [hstage] at hc
    cases hc
    exact ha
  · exact howner
  · intro c hc
    rw [hstage, hqueue c hc]
    exact ⟨fun heq => (Stage.waiting.inj heq).symm, fun heq => by rw [heq]⟩
  · intro c hc
    rw [hstage] at hc
    obtain rfl : a = c := hc
    exact hfree
  · exact fun _ _ => hclock

/-- What is true of one lock, before and after it changes. -/
theorem update_iff {l' : Handover ℕ} {P : Handover ℕ → Prop} (h : P l' ↔ P (L a)) (b : ℕ) :
    P (Function.update L a l' b) ↔ P (L b) := by
  by_cases hb : b = a
  · subst hb
    rw [Function.update_self]
    exact h
  · rw [Function.update_of_ne hb]

/-- The invariant, and what the step was for each lock. -/
def Kept (m : ℕ) (locks : ℕ → Prop) (s' : Locking) (L : ℕ → Handover ℕ) : Prop :=
  ∃ L' rs', LockInv m locks s' L' rs' ∧ ∀ a, Handover.Next (L a) (L' a)

theorem kept_of (h : LockInv m locks s' L rs) : Kept m locks s' L :=
  ⟨L, rs, h, fun a => .stay (L a)⟩

theorem kept_update {l' : Handover ℕ} (h : LockInv m locks s' (Function.update L a l') rs)
    (hl : Handover.Next (L a) l') : Kept m locks s' L := by
  refine ⟨_, rs, h, fun b => ?_⟩
  by_cases hb : b = a
  · subst hb
    rw [Function.update_self]
    exact hl
  · rw [Function.update_of_ne hb]
    exact .stay (L b)

namespace LockInv

/-- Those who wait for other locks are elsewhere. -/
theorem apart (h : LockInv m locks s L rs) (ha : locks a) :
    ∀ b, locks b → b ≠ a → ∀ p ∈ (L b).queue, p ∉ s.running :: rs ∧ p ∉ (L a).queue := by
  intro b hb hba p hp
  have hpb := ((h.fits p).waiting b hb).2 hp
  refine ⟨fun hpr => h.awake p hpr b hpb, fun hpa => ?_⟩
  have hab := hpb.symm.trans (((h.fits p).waiting a ha).2 hpa)
  exact hba (Stage.waiting.inj hab)

/-- A thread that is to run waits for no lock. -/
theorem notQueued (h : LockInv m locks s L rs) (hp : p ∈ s.running :: rs) (ha : locks a) :
    p ∉ (L a).queue :=
  fun hq => h.awake p hp a (((h.fits p).waiting a ha).2 hq)

/-- The lock's word alone says whether the lock is free. -/
theorem free (h : LockInv m locks s L rs) (ha : locks a) (hz : s.kernel.user m a = 0) :
    L a = none := by
  have hlock := h.locked.lock a ha
  have hword := hlock.word
  cases hl : L a with
  | none => rfl
  | some l =>
    rw [hl] at hlock hword
    have hne := (h.locked.placed.lockWord_halves (hlock.owner l.owner rfl)).2.2
    exact absurd (hword.symm.trans hz) hne

/-- And whether it is the running thread's, with no other thread waiting. -/
theorem uncontended (h : LockInv m locks s L rs) (ha : locks a)
    (hc : s.kernel.user m a = threadCode s.running) : L a = some ⟨s.running, []⟩ := by
  have hlock := h.locked.lock a ha
  have hword := hlock.word
  have hmem := h.locked.running.mem _ List.mem_cons_self
  have hcode := h.locked.placed.threadCode_eq hmem
  cases hl : L a with
  | none =>
    rw [hl] at hword
    exact absurd (hword.symm.trans hc) hcode.2.1.ne
  | some l =>
    rw [hl] at hlock hword
    have ho := hlock.owner l.owner rfl
    obtain ⟨howner, hfirst, -⟩ := h.locked.placed.lockWord_halves ho
    have hlt : threadCode s.running < heapTop := hcode.2.2
    unfold heapTop at hlt
    rw [← hword, hc] at howner hfirst
    rw [Nat.mod_eq_of_lt (by omega)] at howner
    rw [Nat.div_eq_of_lt (by omega)] at hfirst
    have heq : l.owner = s.running := (h.locked.placed.threadCode_inj hmem ho howner).symm
    have hnil : l.queue = [] := by
      cases hq : l.queue with
      | nil => rfl
      | cons f q =>
        rw [hq] at hfirst
        have hf : f ∈ s.kernel.contexts := by
          refine hlock.waiters.mem f ?_
          rw [Handover.queue_some, hq]
          exact List.mem_cons_self
        exact absurd hfirst (h.locked.placed.threadCode_eq hf).2.1.ne
    rw [← heq, ← hnil]

/-- The next instruction of the running thread: nothing changes but where it is. -/
theorem goto (h : LockInv m locks s L rs) (hlock : ∀ a, t.lock = some a → locks a)
    (hwait : ∀ a, t ≠ .waiting a)
    (hclaims : ∀ a, t.Claims a → s.owns s.running a = false) {mon : Option ℕ}
    (hmon : ∀ a x, mon = some a → t.loaded (threadCode s.running) = some (a, x) →
      s.kernel.user m a = x) :
    LockInv m locks { s.goto t with monitor := mon } L rs := by
  have hself : (s.goto t).stage s.running = t := by simp
  refine ⟨h.locked, h.aligned, ?_, ?_, h.order, ?_⟩
  · intro p hp a
    show (s.goto t).stage p ≠ _
    rw [Locking.goto_stage]
    split
    · exact hwait a
    · exact h.awake p hp a
  · intro p
    by_cases hp : p = s.running
    · subst hp
      have hf := h.fits s.running
      refine ⟨?_, hf.owner, ?_, ?_, ?_⟩
      · intro a hl
        change ((s.goto t).stage s.running).lock = _ at hl
        rw [hself] at hl
        exact hlock a hl
      · intro a ha
        show (s.goto t).stage s.running = _ ↔ _
        rw [hself]
        exact ⟨fun heq => absurd heq (hwait a),
          fun hq => absurd hq (h.notQueued List.mem_cons_self ha)⟩
      · intro a hc
        change ((s.goto t).stage s.running).Claims a at hc
        rw [hself] at hc
        exact hclaims a hc
      · intro a hw
        change (s.goto t).stage s.running = _ at hw
        rw [hself] at hw
        exact absurd hw (hwait a)
    · refine (h.fits p).congr ?_ rfl rfl le_rfl (fun _ => Iff.rfl) fun _ => Iff.rfl
      show (s.goto t).stage p = _
      rw [Locking.goto_stage, if_neg hp]
  · intro a x hma hl
    change ((s.goto t).stage s.running).loaded _ = _ at hl
    rw [hself] at hl
    exact hmon a x hma hl

/-- What happens meanwhile leaves the locks alone. -/
theorem meanwhile (h : LockInv m locks s L rs) (hm : Meanwhile m locks s k') :
    ∃ rs', LockInv m locks { s with kernel := k', monitor := none } L rs' := by
  obtain ⟨rs', hrun, hawake⟩ := hm.running
  refine ⟨rs', ⟨hm.placed, hm.loaded, hrun, ?_⟩, h.aligned, hawake, ?_, h.order, ?_⟩
  · intro a ha
    refine (h.locked.lock a ha).congr hm.contexts hm.layout (hm.words a ha) ?_
    exact fun p hp w hw => hm.links p a (((h.fits p).waiting a ha).2 hp) w hw
  · exact fun p => (h.fits p).congr rfl rfl rfl le_rfl (fun _ => Iff.rfl) fun _ => Iff.rfl
  · rintro a x ⟨⟩

/-- The running thread has the lock, or has it no longer. -/
theorem owner_update {l' : Handover ℕ} {b : Bool} (h : LockInv m locks s L rs)
    (hown : b = true ↔ l'.owner = some p)
    (howns : ∀ c, s'.owns p c = if c = a then b else s.owns p c) :
    ∀ c, locks c → (s'.owns p c = true ↔ (Function.update L a l' c).owner = some p) := by
  intro c hc
  rw [howns]
  by_cases hca : c = a
  · subst hca
    rw [if_pos rfl, Function.update_self]
    exact hown
  · rw [if_neg hca, Function.update_of_ne hca]
    exact (h.fits p).owner c hc

/-- The threads that wait do so in the order that they did. -/
theorem order_congr (h : LockInv m locks s L rs) (ha : locks a)
    (hsince : ∀ p ∈ (L a).queue, s'.since p = s.since p) :
    (L a).queue.Pairwise fun p q => s'.since p < s'.since q := by
  refine (h.order a ha).imp_of_mem fun hp hq hlt => ?_
  rw [hsince _ hp, hsince _ hq]
  exact hlt

/-- A lock that no thread waits for becomes the running thread's, or free. -/
theorem moved {n : Handover ℕ} {b : Bool} (h : LockInv m locks s L rs)
    (hlocked : Locked s'.kernel m locks (Function.update L a n) rs)
    (hrun : s'.running = s.running)
    (hstage : ∀ p, s'.stage p = if p = s.running then t else s.stage p)
    (howns : ∀ p c, s'.owns p c = if p = s.running ∧ c = a then b else s.owns p c)
    (hsince : ∀ p, p ≠ s.running → s'.since p = s.since p) (hclock : s.clock ≤ s'.clock)
    (hmon : s'.monitor = none) (hnil : (L a).queue = []) (hnil' : n.queue = [])
    (hown : b = true ↔ n.owner = some s.running)
    (hothers : ∀ p, p ≠ s.running → (n.owner = some p ↔ (L a).owner = some p))
    (hlock : ∀ c, t.lock = some c → locks c) (hwait : ∀ c, t ≠ .waiting c)
    (hclaims : ∀ c, ¬ t.Claims c) :
    LockInv m locks s' (Function.update L a n) rs := by
  -- no queue changes
  have hqueue : ∀ c p, p ∈ (Function.update L a n c).queue ↔ p ∈ (L c).queue := fun c p =>
    update_iff (P := fun l => p ∈ l.queue) (by rw [hnil, hnil']) c
  refine ⟨hlocked, h.aligned, ?_, ?_, ?_, ?_⟩
  · intro p hp c
    rw [hrun] at hp
    rw [hstage]
    split
    · exact hwait c
    · exact h.awake p hp c
  · intro p
    by_cases hp : p = s.running
    · subst hp
      refine fits_past (t := t) (by rw [hstage, if_pos rfl]) hlock hwait hclaims ?_ ?_
      · refine h.owner_update hown fun c => ?_
        rw [howns]
        simp
      · intro c hc
        rw [hqueue]
        exact h.notQueued List.mem_cons_self hc
    · refine (h.fits p).congr ?_ ?_ (hsince p hp) hclock ?_ fun c => hqueue c p
      · rw [hstage, if_neg hp]
      · funext c
        rw [howns, if_neg fun heq => hp heq.1]
      · exact update_iff (P := fun l => l.owner = some p) (hothers p hp)
  · intro c hc
    refine (update_iff (P := fun l => l.queue.Pairwise fun p q => s'.since p < s'.since q)
      (by rw [hnil, hnil']) c).2 (h.order_congr hc fun p hp => hsince p ?_)
    exact fun heq => h.notQueued List.mem_cons_self hc (heq ▸ hp)
  · rw [hmon]
    rintro c x ⟨⟩

/-- A store of EL0 to the lock's word. -/
theorem stored {n : Handover ℕ} {b : Bool} (h : LockInv m locks s L rs) (ha : locks a)
    (hm : s.kernel.currentMap s.running = m) (hnil : (L a).queue = []) (hnil' : n.queue = [])
    (hown : b = true ↔ n.owner = some s.running)
    (hothers : ∀ p, p ≠ s.running → (n.owner = some p ↔ (L a).owner = some p))
    (hlock : t.lock = some a) (hwait : ∀ c, t ≠ .waiting c) (hclaims : ∀ c, ¬ t.Claims c) :
    LockInv m locks
      { (s.goto t).setOwns s.running a b with
        kernel := s.kernel.store64 a (lockWord n)
        monitor := none } (Function.update L a n) rs := by
  obtain ⟨hal, hlt⟩ := h.aligned a ha
  have hown' : ∀ p, n.owner = some p → p ∈ s.kernel.contexts := by
    intro p hp
    by_cases hpt : p = s.running
    · rw [hpt]
      exact h.locked.running.mem _ List.mem_cons_self
    · exact (h.locked.lock a ha).owner p ((hothers p hpt).1 hp)
  have hrun : (s.kernel.store64 a (lockWord n)).runnable = s.running := by
    rw [h.locked.placed.store64_user hal hlt]
  refine h.moved (h.locked.store hm hal hlt hown' hnil') hrun (s.goto_stage t) ?_
    (fun _ _ => rfl) le_rfl rfl hnil hnil' hown hothers ?_ hwait hclaims
  · exact fun p c => (s.goto t).setOwns_owns s.running a b p c
  · intro c hc
    rw [hlock] at hc
    cases hc
    exact ha

/-- A call to wait for a free lock returns with it. -/
theorem taken (h : LockInv m locks s L rs) (hnone : L a = none) (hrun : k'.runnable = s.running)
    (hlocked : Locked k' m locks (Function.update L a (some ⟨s.running, []⟩)) rs) :
    LockInv m locks ((s.wait a k').resumed s.running)
      (Function.update L a (some ⟨s.running, []⟩)) rs := by
  have hin : (s.wait a k').stage s.running = .waiting a :=
    (s.goto_stage (.waiting a) s.running).trans (if_pos rfl)
  rw [Locking.resumed_waiting hin]
  refine h.moved (t := .outside) (b := true) hlocked hrun ?_ ?_ ?_ (Nat.le_succ _) rfl
    (by rw [hnone]; rfl) rfl (by simp) ?_ (by rintro c ⟨⟩) (by simp) (by rintro c ⟨⟩)
  · intro p
    show Function.update (s.goto (.waiting a)).stage s.running .outside p = _
    rw [Function.update_apply]
    split
    · rfl
    · rename_i hp
      rw [Locking.goto_stage, if_neg hp]
  · intro p c
    rw [Locking.setOwns_owns]
    rfl
  · exact fun p hp => Function.update_of_ne hp _ _
  · intro p hp
    rw [hnone]
    simp [Ne.symm hp]

/-- A release of a lock that no thread waits for. -/
theorem freed (h : LockInv m locks s L rs) (howner : (L a).owner = some s.running)
    (hnil : (L a).queue = []) (hrun : k'.runnable = s.running)
    (hlocked : Locked k' m locks (Function.update L a none) rs) :
    LockInv m locks
      { (s.goto .outside).setOwns s.running a false with kernel := k', monitor := none }
      (Function.update L a none) rs := by
  refine h.moved (t := .outside) (b := false) hlocked hrun (s.goto_stage .outside) ?_
    (fun _ _ => rfl) le_rfl rfl hnil rfl (by simp) ?_ (by rintro c ⟨⟩) (by simp) (by rintro c ⟨⟩)
  · exact fun p c => (s.goto .outside).setOwns_owns s.running a false p c
  · intro p hp
    rw [howner]
    simp [Ne.symm hp]

/-- When the running thread comes behind those who wait for `a`, it waits for no other
lock. -/
theorem queued_self {hd : Held ℕ} {c : ℕ} (h : LockInv m locks s L rs) (hc : locks c) :
    s.running ∈ (Function.update L a (some ⟨hd.owner, hd.queue ++ [s.running]⟩) c).queue ↔
      c = a := by
  by_cases hca : c = a
  · subst hca
    rw [Function.update_self]
    simp
  · rw [Function.update_of_ne hca]
    exact ⟨fun hq => absurd hq (h.notQueued List.mem_cons_self hc), fun heq => absurd heq hca⟩

/-- Those who wait do so in the order in which they asked, the running thread behind them. -/
theorem order_join {hd : Held ℕ} (h : LockInv m locks s L rs) (hl : L a = some hd)
    (hsince : ∀ p, p ≠ s.running → s'.since p = s.since p)
    (hnow : s'.since s.running = s.clock) : ∀ c, locks c →
      (Function.update L a (some ⟨hd.owner, hd.queue ++ [s.running]⟩) c).queue.Pairwise
        fun p q => s'.since p < s'.since q := by
  intro c hc
  have hother : ∀ p ∈ (L c).queue, s'.since p = s.since p := fun p hp =>
    hsince p fun heq => h.notQueued List.mem_cons_self hc (heq ▸ hp)
  have hold := h.order_congr hc hother
  by_cases hca : c = a
  · subst hca
    rw [Function.update_self]
    rw [hl] at hold hother
    refine Handover.ask_pairwise (l := some hd) hold fun p hp => ?_
    rw [hother p hp, hnow]
    -- Those who wait asked before the clock's time.
    rw [← hl] at hp
    exact (h.fits p).clock c (((h.fits p).waiting c hc).2 hp)
  · rw [Function.update_of_ne hca]
    exact hold

/-- A call to wait for a lock that another thread has: the thread comes behind those
who wait. -/
theorem joined {hd : Held ℕ} {now : ℕ} (h : LockInv m locks s L (now :: rs)) (ha : locks a)
    (hl : L a = some hd) (hfree : s.owns s.running a = false) (hrun : k'.runnable = now)
    (hlocked : Locked k' m locks
      (Function.update L a (some ⟨hd.owner, hd.queue ++ [s.running]⟩)) rs) :
    LockInv m locks ((s.wait a k').resumed now)
      (Function.update L a (some ⟨hd.owner, hd.queue ++ [s.running]⟩)) rs := by
  have hnd : s.running ∉ now :: rs := (List.nodup_cons.1 h.locked.running.nodup).1
  have hother : ∀ p, p ≠ s.running → (s.wait a k').stage p = s.stage p := fun p hp =>
    (s.goto_stage (.waiting a) p).trans (if_neg hp)
  have hself : (s.wait a k').stage s.running = .waiting a :=
    (s.goto_stage (.waiting a) s.running).trans (if_pos rfl)
  have hrest : ∀ p ∈ now :: rs, ∀ c, (s.wait a k').stage p ≠ .waiting c := by
    intro p hp c
    rw [hother p fun heq => hnd (heq ▸ hp)]
    exact h.awake p (List.mem_cons_of_mem _ hp) c
  have hsince : ∀ p, p ≠ s.running → (s.wait a k').since p = s.since p := fun p hp =>
    Function.update_of_ne hp _ _
  have hqueue : (L a).queue = hd.queue := by rw [hl, Handover.queue_some]
  have howner : ∀ p c, (Function.update L a (some ⟨hd.owner, hd.queue ++ [s.running]⟩) c).owner =
      some p ↔ (L c).owner = some p := fun p c =>
    update_iff (P := fun l => l.owner = some p) (by rw [hl]; rfl) c
  rw [Locking.resumed_awake (hrest now List.mem_cons_self)]
  refine ⟨hlocked, h.aligned, ?_, ?_, ?_, ?_⟩
  · intro p hp
    change p ∈ k'.runnable :: rs at hp
    rw [hrun] at hp
    exact hrest p hp
  · intro p
    by_cases hp : p = s.running
    · -- The caller is queued for this lock alone, since the present time.
      subst hp
      refine fits_waiting hself ha hfree ?_ ?_ ?_
      · show Function.update s.since s.running s.clock s.running < s.clock + 1
        rw [Function.update_self]
        exact Nat.lt_succ_self _
      · intro c hc
        rw [howner]
        exact (h.fits s.running).owner c hc
      · exact fun c hc => h.queued_self hc
    · refine (h.fits p).congr (hother p hp) rfl (hsince p hp) (Nat.le_succ _) (howner p) ?_
      refine update_iff (P := fun l => p ∈ l.queue) ?_
      rw [hqueue, Handover.queue_some, List.mem_append, List.mem_singleton]
      exact or_iff_left hp
  · exact h.order_join hl hsince (Function.update_self _ _ _)
  · rintro c x ⟨⟩

/-- When the first of those who wait for `a` gets it, the others wait on. -/
theorem queue_pass {f : ℕ} {q : List ℕ} (hqueue : (L a).queue = f :: q) {c : ℕ}
    (hp : p ∈ (Function.update L a (some ⟨f, q⟩) c).queue) : p ∈ (L c).queue := by
  by_cases hca : c = a
  · subst hca
    rw [Function.update_self] at hp
    rw [hqueue]
    exact List.mem_cons_of_mem f hp
  · rwa [Function.update_of_ne hca] at hp

/-- And the first waits for no lock any more. -/
theorem first_past {f : ℕ} {q : List ℕ} (h : LockInv m locks s L rs) (ha : locks a)
    (hqueue : (L a).queue = f :: q) {c : ℕ} (hc : locks c) :
    f ∉ (Function.update L a (some ⟨f, q⟩) c).queue := by
  intro hf
  have hnd : (f :: q).Nodup := by
    rw [← hqueue]
    exact (h.locked.lock a ha).waiters.nodup
  have hwaits : s.stage f = .waiting a := by
    refine ((h.fits f).waiting a ha).2 ?_
    rw [hqueue]
    exact List.mem_cons_self
  by_cases hca : c = a
  · subst hca
    rw [Function.update_self] at hf
    exact (List.nodup_cons.1 hnd).1 hf
  · rw [Function.update_of_ne hca] at hf
    have hw := ((h.fits f).waiting c hc).2 hf
    rw [hwaits] at hw
    exact hca (Stage.waiting.inj hw).symm

theorem order_pass {f : ℕ} {q : List ℕ} (h : LockInv m locks s L rs)
    (hqueue : (L a).queue = f :: q) : ∀ c, locks c →
      (Function.update L a (some ⟨f, q⟩) c).queue.Pairwise fun p q => s.since p < s.since q := by
  intro c hc
  have hold := h.order c hc
  by_cases hca : c = a
  · subst hca
    rw [Function.update_self]
    rw [hqueue] at hold
    exact (List.pairwise_cons.1 hold).2
  · rw [Function.update_of_ne hca]
    exact hold

/-- A release: the first of those who wait has the lock. -/
theorem handed {hd : Held ℕ} {f : ℕ} {q : List ℕ} (h : LockInv m locks s L rs) (ha : locks a)
    (hl : L a = some hd) (howner : hd.owner = s.running) (hq : hd.queue = f :: q)
    (hrun : k'.runnable = f)
    (hlocked : Locked k' m locks (Function.update L a (some ⟨f, q⟩)) (s.running :: rs)) :
    LockInv m locks
      ({ (s.goto .outside).setOwns s.running a false with
        kernel := k'
        monitor := none }.resumed f) (Function.update L a (some ⟨f, q⟩)) (s.running :: rs) := by
  have hqueue : (L a).queue = f :: q := by rw [hl, Handover.queue_some, hq]
  -- the one who gets the lock was parked in the wait for it
  have hwaits : s.stage f = .waiting a := by
    refine ((h.fits f).waiting a ha).2 ?_
    rw [hqueue]
    exact List.mem_cons_self
  have hne : f ≠ s.running := fun heq =>
    h.awake s.running List.mem_cons_self a (heq ▸ hwaits)
  set s₁ : Locking := { (s.goto .outside).setOwns s.running a false with
    kernel := k', monitor := none } with hs₁
  have hf₁ : s₁.stage f = .waiting a :=
    ((s.goto_stage .outside f).trans (if_neg hne)).trans hwaits
  -- it comes out of the sequence with the lock, the one who had it without
  rw [Locking.resumed_waiting hf₁]
  set s' : Locking := { s₁ with stage := Function.update s₁.stage f .outside }.setOwns f a true
    with hs'
  have hstage : ∀ p, s'.stage p = if p = f ∨ p = s.running then .outside else s.stage p := by
    intro p
    show Function.update (s.goto .outside).stage f .outside p = _
    rw [Function.update_apply, Locking.goto_stage]
    by_cases hp : p = f
    · simp [hp]
    · simp [hp]
  have howns : ∀ p c, s'.owns p c =
      if p = f ∧ c = a then true else if p = s.running ∧ c = a then false else s.owns p c := by
    intro p c
    rw [hs', Locking.setOwns_owns]
    split
    · rfl
    · exact (s.goto .outside).setOwns_owns s.running a false p c
  refine ⟨hlocked, h.aligned, ?_, ?_, ?_, ?_⟩
  · intro p hp c
    change p ∈ k'.runnable :: s.running :: rs at hp
    rw [hrun] at hp
    rw [hstage]
    split
    · simp
    · rename_i hpf
      exact h.awake p ((List.mem_cons.1 hp).resolve_left fun heq => hpf (.inl heq)) c
  · intro p
    by_cases hpf : p = f
    · -- The thread that gets the lock: its call returns.
      subst hpf
      refine fits_past (t := .outside) (by rw [hstage, if_pos (.inl rfl)]) (by rintro c ⟨⟩)
        (by simp) (by rintro c ⟨⟩) (h.owner_update (b := true) (by simp) fun c => ?_) ?_
      · rw [howns]
        simp [hne]
      · exact fun c hc => h.first_past ha hqueue hc
    · by_cases hps : p = s.running
      · -- The thread that had it.
        subst hps
        refine fits_past (t := .outside) (by rw [hstage, if_pos (.inr rfl)]) (by rintro c ⟨⟩)
          (by simp) (by rintro c ⟨⟩)
          (h.owner_update (b := false) (by simp [Ne.symm hpf]) fun c => ?_) ?_
        · rw [howns]
          simp [hpf]
        · exact fun c hc hpc => h.notQueued List.mem_cons_self hc (queue_pass hqueue hpc)
      · -- for every other thread nothing is different
        refine (h.fits p).congr ?_ ?_ rfl le_rfl ?_ ?_
        · rw [hstage, if_neg (not_or.2 ⟨hpf, hps⟩)]
        · funext c
          rw [howns, if_neg fun heq => hpf heq.1, if_neg fun heq => hps heq.1]
        · refine update_iff (P := fun l => l.owner = some p) ?_
          rw [hl]
          simp [howner, Ne.symm hpf, Ne.symm hps]
        · refine update_iff (P := fun l => p ∈ l.queue) ?_
          rw [hqueue, Handover.queue_some]
          simp [hpf]
  · exact h.order_pass hqueue
  · rintro c x ⟨⟩

/-- The lock of the sequence that the running thread is in. -/
theorem atLock (h : LockInv m locks s L rs) (hat : s.At m t) (hst : t.lock = some a) :
    locks a :=
  (h.fits s.running).onLock a (by rw [hat.2]; exact hst)

/-- The running thread has not claimed the lock yet. -/
theorem atClaim (h : LockInv m locks s L rs) (hat : s.At m t) (hst : t.Claims a) :
    s.owns s.running a = false :=
  (h.fits s.running).claims a (by rw [hat.2]; exact hst)

theorem load64 (h : LockInv m locks s L rs) (hat : s.At m t) (ha : locks a) :
    s.kernel.user m a = s.kernel.load64 a := by
  obtain ⟨hal, hlt⟩ := h.aligned a ha
  have hmap : s.kernel.loadedMap = m := h.locked.loaded.trans hat.1
  rw [h.locked.placed.load64_user hal hlt, hmap]

/-- A thread that claims a lock and does not own it goes to another instruction of the
claim. -/
theorem claiming (h : LockInv m locks s L rs) (ha : locks a) (hlock : t.lock = some a)
    (hfree : s.owns s.running a = false) (hclaims : ∀ c, t.Claims c → c = a)
    (hwait : ∀ c, t ≠ .waiting c) {mon : Option ℕ}
    (hmon : ∀ c x, mon = some c → t.loaded (threadCode s.running) = some (c, x) →
      s.kernel.user m c = x) : Kept m locks { s.goto t with monitor := mon } L := by
  refine kept_of (h.goto ?_ hwait ?_ hmon)
  · intro c hc
    rw [hlock] at hc
    cases hc
    exact ha
  · intro c hc
    rw [hclaims c hc]
    exact hfree

/-- A thread that claims no lock goes to another instruction that claims none. -/
theorem passing (h : LockInv m locks s L rs) (hlock : ∀ c, t.lock = some c → locks c)
    (hclaims : ∀ c, ¬ t.Claims c) (hwait : ∀ c, t ≠ .waiting c) {mon : Option ℕ}
    (hmon : ∀ c x, mon = some c → t.loaded (threadCode s.running) = some (c, x) →
      s.kernel.user m c = x) : Kept m locks { s.goto t with monitor := mon } L :=
  kept_of (h.goto hlock hwait (fun c hc => absurd hc (hclaims c)) hmon)

/-- A call to wait for a lock. -/
theorem waits {r : Regs} {now : ℕ} (h : LockInv m locks s L rs) (hat : s.At m (.claimWait a))
    (h17 : r.x 17 = a) (h18 : r.x 18 = threadCode s.running)
    (hs : kernelStep s.kernel r (.svc 0xf006) = .ok k' now) :
    Kept m locks ((s.wait a k').resumed now) L := by
  have ha := h.atLock hat rfl
  have hfree := h.atClaim (a := a) hat rfl
  obtain ⟨k₁, hh, hleft⟩ := kernelStep_svc hs
  obtain ⟨hpl, hr, hl, hreg⟩ := h.locked.entered hat.1 ha r
  have hown : (L a).owner ≠ some s.running := by
    intro heq
    rw [((h.fits s.running).owner a ha).2 heq] at hfree
    cases hfree
  obtain ⟨rs', hc, hrun, hcase⟩ := wait_asks hpl hr hl ((hreg 17 (by decide)).trans h17)
    ((hreg 18 le_rfl).trans h18) hown (fun p hp hpr => h.notQueued hpr ha hp) hh
  obtain ⟨hrun', hlocked⟩ := h.locked.step hat.1 (h.apart ha) hs hh hleft hc hrun
  change Locked k' m locks (Function.update L a ((L a).ask s.running)) rs' at hlocked
  rcases hcase with ⟨hnone, rfl, rfl⟩ | ⟨hsome, rfl⟩
  · rw [hnone] at hlocked
    refine kept_update (h.taken hnone hrun' hlocked) ?_
    rw [hnone]
    exact .ask none s.running
  · obtain ⟨hd, hhd⟩ := Option.ne_none_iff_exists'.1 hsome
    rw [hhd] at hlocked
    refine kept_update (h.joined ha hhd hfree hrun' hlocked) ?_
    rw [hhd]
    exact .ask (some hd) s.running

/-- A call to release a lock. -/
theorem releases {r : Regs} {now : ℕ} (h : LockInv m locks s L rs)
    (hat : s.At m (.releaseCall a)) (h17 : r.x 17 = a) (h18 : r.x 18 = threadCode s.running)
    (hs : kernelStep s.kernel r (.svc 0xf007) = .ok k' now) :
    Kept m locks
      ({ (s.goto .outside).setOwns s.running a false with
        kernel := k'
        monitor := none }.resumed now) L := by
  have ha := h.atLock hat rfl
  obtain ⟨k₁, hh, hleft⟩ := kernelStep_svc hs
  obtain ⟨hpl, hr, hl, hreg⟩ := h.locked.entered hat.1 ha r
  obtain ⟨howner, hrun, rs', hc, hcase⟩ := release_passes hpl hr hl
    ((hreg 17 (by decide)).trans h17) ((hreg 18 le_rfl).trans h18) (h.aligned a ha).1
    (fun p hp hpr => h.notQueued hpr ha hp) hh
  obtain ⟨hrun', hlocked⟩ := h.locked.step hat.1 (h.apart ha) hs hh hleft hc hrun
  change (L a).owner = some s.running at howner
  obtain ⟨hd, hhd, hself⟩ : ∃ hd, L a = some hd ∧ hd.owner = s.running := by
    cases hl' : L a with
    | none =>
      rw [hl'] at howner
      cases howner
    | some hd =>
      rw [hl'] at howner
      exact ⟨hd, rfl, Option.some.inj howner⟩
  have hnext : Handover.Next (L a) (L a).pass := .pass (L a)
  rcases hcase with ⟨hnil, rfl, rfl⟩ | ⟨hhead, rfl⟩
  · have hpass : (L a).pass = none := by
      rw [hhd] at hnil ⊢
      exact Handover.pass_nil hnil
    rw [hpass] at hlocked hnext
    rw [Locking.resumed_awake]
    · exact kept_update (h.freed howner hnil hrun' hlocked) hnext
    · intro c
      show (s.goto .outside).stage s.running ≠ _
      rw [Locking.goto_stage, if_pos rfl]
      simp
  · obtain ⟨q, hq⟩ : ∃ q, hd.queue = now :: q := by
      rw [hhd] at hhead
      exact List.head?_eq_some_iff.1 hhead
    have hpass : (L a).pass = some ⟨now, q⟩ := by
      rw [hhd]
      exact Handover.pass_cons hq
    rw [hpass] at hlocked hnext
    exact kept_update (h.handed ha hhd hself hq hrun' hlocked) hnext

/-- The exclusive store of a claim. -/
theorem claims (h : LockInv m locks s L rs) (hat : s.At m (.claimStore a))
    (hmon : s.monitor = some a) :
    Kept m locks
      { (s.goto (.claimCheck a 0)).setOwns s.running a true with
        kernel := s.kernel.store64 a (threadCode s.running)
        monitor := none } L := by
  have ha := h.atLock hat rfl
  have hnone : L a = none := h.free ha (h.monitor a 0 hmon (by rw [hat.2]; rfl))
  have hword : threadCode s.running = lockWord (some ⟨s.running, []⟩) := by
    simp [lockWord, firstCode]
  rw [hword]
  refine kept_update (h.stored (b := true) ha hat.1 (by rw [hnone]; rfl) rfl (by simp) ?_ rfl
    (by simp) (by simp [Stage.Claims])) ?_
  · intro p hp
    rw [hnone]
    simp [Ne.symm hp]
  · rw [hnone]
    exact .ask none s.running

/-- The exclusive store of a release. -/
theorem frees (h : LockInv m locks s L rs) (hat : s.At m (.releaseStore a))
    (hmon : s.monitor = some a) :
    Kept m locks
      { (s.goto (.releaseCheck a 0)).setOwns s.running a false with
        kernel := s.kernel.store64 a 0
        monitor := none } L := by
  have ha := h.atLock hat rfl
  have hself : L a = some ⟨s.running, []⟩ :=
    h.uncontended ha (h.monitor a _ hmon (by rw [hat.2]; rfl))
  have hothers : ∀ p, p ≠ s.running → (Handover.owner none = some p ↔ (L a).owner = some p) := by
    intro p hp
    rw [hself]
    simp [Ne.symm hp]
  have hstored := h.stored (n := none) (b := false) (t := .releaseCheck a 0) ha hat.1
    (by rw [hself]; rfl) rfl (by simp) hothers rfl (by simp) (by simp [Stage.Claims])
  refine kept_update hstored ?_
  rw [hself]
  exact .pass (some ⟨s.running, []⟩)

end LockInv

/-- Each step keeps the invariant, and is one operation of each lock or none. -/
theorem lockInv_step {i : ℕ} (h : LockInv m locks s L rs) (hs : LockStep m locks s i s') :
    Kept m locks s' L := by
  cases hs with
  -- the claim: load, test, exclusive store, and the call when the lock is held
  | @claim a hat ha hfree =>
    exact h.claiming (t := .claimLoad a) ha rfl hfree (fun c hc => Eq.symm hc) (by simp)
      (by rintro c x - ⟨⟩)
  | @claimLoad a hat =>
    have ha := h.atLock hat rfl
    refine h.claiming (t := .claimTest a (s.kernel.load64 a)) ha rfl (h.atClaim hat rfl)
      (fun c hc => Eq.symm hc) (by simp) ?_
    rintro c x - ⟨⟩
    exact h.load64 hat ha
  | @claimTest a x16 hat =>
    have ha := h.atLock hat rfl
    split
    · rename_i hz
      refine h.claiming (t := .claimStore a) ha rfl (h.atClaim hat rfl)
        (fun c hc => Eq.symm hc) (by simp) ?_
      rintro c x hmon ⟨⟩
      refine h.monitor a 0 hmon ?_
      rw [hat.2, ← hz]
      rfl
    · exact h.claiming (t := .claimWait a) ha rfl (h.atClaim hat rfl) (fun c hc => Eq.symm hc)
        (by simp) (by rintro c x - ⟨⟩)
  | @claimStore a hat hmon => exact h.claims hat hmon
  | @claimFail a hat =>
    exact h.claiming (t := .claimCheck a 1) (h.atLock hat rfl) rfl (h.atClaim hat rfl)
      (fun c hc => Eq.symm hc.1) (by simp) (by rintro c x ⟨⟩)
  | @claimCheck a x16 hat =>
    split
    · rename_i hfail
      exact h.claiming (t := .claimLoad a) (h.atLock hat rfl) rfl (h.atClaim hat ⟨rfl, hfail⟩)
        (fun c hc => Eq.symm hc) (by simp) (by rintro c x - ⟨⟩)
    · exact h.passing (t := .outside) (by rintro c ⟨⟩) (by rintro c ⟨⟩) (by simp)
        (by rintro c x - ⟨⟩)
  | @claimWait a r k' now hat h17 h18 hk => exact h.waits hat h17 h18 hk
  -- the release: the same, and the call when a thread waits
  | @release a hat ha =>
    exact h.passing (t := .releaseLoad a) (by rintro c ⟨⟩; exact ha) (by rintro c ⟨⟩) (by simp)
      (by rintro c x - ⟨⟩)
  | @releaseLoad a hat =>
    have ha := h.atLock hat rfl
    refine h.passing (t := .releaseTest a (s.kernel.load64 a)) (by rintro c ⟨⟩; exact ha)
      (by rintro c ⟨⟩) (by simp) ?_
    rintro c x - ⟨⟩
    exact h.load64 hat ha
  | @releaseTest a x16 hat =>
    have ha := h.atLock hat rfl
    split
    · exact h.passing (t := .releaseCall a) (by rintro c ⟨⟩; exact ha) (by rintro c ⟨⟩) (by simp)
        (by rintro c x - ⟨⟩)
    · rename_i heq
      refine h.passing (t := .releaseStore a) (by rintro c ⟨⟩; exact ha) (by rintro c ⟨⟩)
        (by simp) ?_
      rintro c x hmon ⟨⟩
      refine h.monitor a _ hmon ?_
      rw [hat.2, not_not.1 heq]
      rfl
  | @releaseStore a hat hmon => exact h.frees hat hmon
  | @releaseFail a hat =>
    have ha := h.atLock hat rfl
    exact h.passing (t := .releaseCheck a 1) (by rintro c ⟨⟩; exact ha) (by rintro c ⟨⟩) (by simp)
      (by rintro c x ⟨⟩)
  | @releaseCheck a x16 hat =>
    have ha := h.atLock hat rfl
    split
    · exact h.passing (t := .outside) (by rintro c ⟨⟩) (by rintro c ⟨⟩) (by simp)
        (by rintro c x - ⟨⟩)
    · exact h.passing (t := .releaseCall a) (by rintro c ⟨⟩; exact ha) (by rintro c ⟨⟩) (by simp)
        (by rintro c x - ⟨⟩)
  | @releaseCall a r k' now hat h17 h18 hk => exact h.releases hat h17 h18 hk
  -- other instructions and calls, which leave the locks alone
  | @meanwhile k' hm =>
    obtain ⟨rs', h'⟩ := h.meanwhile hm
    exact kept_of h'

theorem lockInv_init (h : LockStart m locks s) : ∃ rs, LockInv m locks s (fun _ => none) rs := by
  obtain ⟨rs, hr⟩ := h.running
  refine ⟨rs, ⟨h.placed, h.loaded, hr, fun a ha => ⟨h.words a ha, by simp, ?_⟩⟩, h.aligned, ?_, ?_,
    by simp, ?_⟩
  · exact ⟨by simp, by simp, by simp, by simp⟩
  · intro p _ a
    rw [h.stage]
    simp
  · refine fun p => fits_past (t := .outside) (h.stage p) (by rintro c ⟨⟩) (by simp)
      (by rintro c ⟨⟩) ?_ (by simp)
    intro a _
    rw [h.owns]
    simp
  · rw [h.monitor]
    rintro a x ⟨⟩

theorem lockInv (h : (lockSystem m locks).Reachable s) : ∃ L rs, LockInv m locks s L rs := by
  refine h.invariant (P := fun s => ∃ L rs, LockInv m locks s L rs) ?_ ?_
  · exact fun s hs => ⟨_, lockInv_init hs⟩
  · rintro s i s' ⟨L, rs, hi⟩ hs
    obtain ⟨L', rs', hi', -⟩ := lockInv_step hi hs
    exact ⟨L', rs', hi'⟩

end Steps

/-! ## What may happen meanwhile -/

section Elsewhere

variable {m : ℕ} {locks : ℕ → Prop} {s : Locking} {L : ℕ → Handover ℕ} {rs rs' : List ℕ}
  {k₁ k' : Kernel} {r : Regs} {now : ℕ}

/-- A handler that changes the runnable ring alone. -/
theorem LockInv.elsewhere (h : LockInv m locks s L rs)
    (hf : Frame s.kernel k₁) (hu : k₁.user = s.kernel.user) (hrun : Running k₁ rs')
    (hawake : ∀ p ∈ k₁.runnable :: rs', ∀ a, s.stage p ≠ .waiting a)
    (hlinks : ∀ p a, s.stage p = .waiting a → ∀ w, w < 3 → k₁.ctx p w = s.kernel.ctx p w)
    (hl : Left k₁ k' s.running) (hload : k'.loadedMap = k'.currentMap k'.runnable) :
    Meanwhile m locks s k' := by
  have hleft : ∀ p w, w < 3 → k'.ctx p w = k₁.ctx p w := fun p w hw => hl.words p w (by omega)
  have hfl := hf.trans hl.frame
  refine ⟨hfl.placed h.locked.placed, hfl.layout, ?_, ?_, ?_, ?_, hload⟩
  · rw [hfl.contexts]
    exact fun p hp => hp
  · intro a _
    rw [hl.user, hu]
  · intro p a hp w hw
    rw [hleft p w hw, hlinks p a hp w hw]
  · refine ⟨rs', hrun.congr hl.frame hl.runnable fun p _ w hw => hleft p w hw, ?_⟩
    rw [hl.runnable]
    exact hawake

/-- A thread yields. -/
theorem yield_meanwhile (h : LockInv m locks s L rs)
    (hs : kernelStep s.kernel r (.svc 0xf008) = .ok k' now) : Meanwhile m locks s k' := by
  have hmem := h.locked.running.mem _ List.mem_cons_self
  obtain ⟨k₁, hh, hleft⟩ := kernelStep_svc hs
  have he := enter_entered s.kernel s.running r
  set k₀ := enter s.kernel s.running r with hk₀
  have hr₀ : Running k₀ rs :=
    h.locked.running.congr he.frame he.runnable fun p _ w hw => he.words p w (.inl (by omega))
  have hmap₀ : k₀.currentMap s.running = s.kernel.currentMap s.running :=
    currentMap_congr hmem hmem (he.words _ 39 (by omega))
  have hset : ∀ v, k₀.setReg s.running 0 v = k₀.withCtx (setCtx k₀.ctx s.running 4 v) :=
    fun v => setFld_of_mem (by exact hmem) _ _
  have hword : ∀ v p w, w ≠ 4 → setCtx k₀.ctx s.running 4 v p w = k₀.ctx p w := by
    intro v p w hw
    simp [hw]
  -- either way the ring is turned, and register 0 says if another thread runs
  have hdone : ∀ v rs', k₁ = { k₀.withCtx (setCtx k₀.ctx s.running 4 v) with runnable := now } →
      Ring (nextOf k₀.ctx) (prevOf k₀.ctx) now rs' → (now :: rs').Perm (s.running :: rs) →
      Meanwhile m locks s k' := by
    intro v rs' hk₁ hring hperm
    have hf : Frame k₀ k₁ := by
      rw [hk₁]
      exact ⟨rfl, rfl, rfl, rfl, rfl, rfl, rfl, rfl⟩
    have hctx : ∀ p w, w ≠ 4 → k₁.ctx p w = k₀.ctx p w := by
      rw [hk₁]
      exact hword v
    have hr₁ : Running k₁ rs' := by
      rw [hk₁]
      refine ⟨ring_words hring fun p _ w hw => hword v p w (by omega), hperm.nodup_iff.2 hr₀.nodup,
        fun p hp => hr₀.mem p (hperm.subset hp), fun p hp => ?_⟩
      rw [withCtx_ctx, hword v p 2 (by decide)]
      exact hr₀.owners p (hperm.subset hp)
    have hnow : k₁.runnable = now := by rw [hk₁]
    have hnow₁ : now ∈ k₁.contexts := by
      rw [← hnow]
      exact hr₁.mem _ List.mem_cons_self
    have hl := (hleft hnow₁).2
    have hload : k'.loadedMap = k'.currentMap k'.runnable := by
      rw [hl.runnable, hnow]
      refine kernelStep_loaded hs hh hnow₁ ?_
      have hcur : k₁.currentMap s.running = k₀.currentMap s.running :=
        currentMap_congr hmem (by rw [hf.contexts]; exact hmem) (hctx _ 39 (by decide))
      rw [hcur, hmap₀]
      exact Eq.trans (by rw [hk₁]; rfl) h.locked.loaded
    refine h.elsewhere (he.frame.trans hf) (by rw [hk₁]; rfl) hr₁ ?_ ?_ hl hload
    · rw [hnow]
      exact fun p hp => h.awake p (hperm.subset hp)
    · intro p a _ w hw
      rw [hctx p w (by omega)]
      exact he.words p w (.inl (by omega))
  have hh' : handleYield k₀ s.running = .ok k₁ now := hh
  unfold handleYield at hh'
  simp only [hset] at hh'
  split at hh'
  · rename_i hne
    cases rs with
    | nil =>
      have hself : k₀.next s.running = s.running :=
        (fld_of_mem (k := k₀) hmem 0).trans (ring_nil.1 hr₀.ring).1
      exact absurd hself hne
    | cons x rs =>
      have hx : k₀.ctx s.running 0 = x := (List.isChain_cons_cons.1 hr₀.ring).1.1
      have hnow : (k₀.withCtx (setCtx k₀.ctx s.running 4 1)).next s.running = x := by
        refine (fld_of_mem (by exact hmem) 0).trans ?_
        rw [withCtx_ctx, hword 1 _ _ (by decide)]
        exact hx
      rw [hnow] at hh'
      obtain ⟨rfl, rfl⟩ := Outcome.ok.inj hh'
      exact hdone 1 (rs ++ [s.running]) rfl (ring_rotate (s := []).1 hr₀.ring)
        (List.perm_append_singleton s.running (x :: rs))
  · obtain ⟨rfl, rfl⟩ := Outcome.ok.inj hh'
    exact hdone 0 rs rfl hr₀.ring (List.Perm.refl _)

/-- An interrupt, when the interrupt thread is parked. -/
theorem irq_meanwhile (h : LockInv m locks s L rs)
    (hmem : s.kernel.interruptThread ∈ s.kernel.contexts)
    (hparked : s.kernel.interruptThread ∉ s.running :: rs)
    (hwait : ∀ a, s.stage s.kernel.interruptThread ≠ .waiting a)
    (hs : kernelStep s.kernel r .irq = .ok k' now) : Meanwhile m locks s k' := by
  have hself := h.locked.running.mem _ List.mem_cons_self
  have he := enter_entered s.kernel s.running r
  set k₀ := enter s.kernel s.running r with hk₀
  set t := s.kernel.interruptThread with ht
  have hr₀ : Running k₀ rs :=
    h.locked.running.congr he.frame he.runnable fun p _ w hw => he.words p w (.inl (by omega))
  have hne : t ≠ k₀.runnable := fun heq => hparked (heq ▸ List.mem_cons_self)
  set c := linkBefore k₀.ctx t k₀.runnable with hc
  -- the interrupt thread comes to the head of the ring
  have hins : insertThreadAsHead k₀ (runnableAddress k₀) t = { k₀ with ctx := c, runnable := t } :=
    insertThreadAsHead_runnable (he.frame.placed h.locked.placed) hmem hself
      (hr₀.mem _ (ring_closed hr₀.ring _ List.mem_cons_self).2) hne
  set k₁ : Kernel := { k₀ with ctx := c, runnable := t } with hk₁
  have hf : Frame k₀ k₁ := ⟨rfl, rfl, rfl, rfl, rfl, rfl, rfl, rfl⟩
  have hcode : irqCode k₀ s.running = syncCode s.running (.ok k₁ t) := by
    rw [← hins]
    exact if_neg (h.locked.placed.ne_zero hmem)
  have hcur : k₁.currentMap s.running = s.kernel.currentMap s.running :=
    currentMap_congr hself hself ((linkBefore_other (by decide)).trans (he.words _ 39 (by omega)))
  unfold kernelStep at hs
  simp only at hs
  rw [show handle (enter s.kernel s.kernel.runnable r) s.kernel.runnable .irq =
    syncCode s.running (.ok k₁ t) from hcode] at hs
  cases hsync : syncCode s.running (.ok k₁ t) with
  | halt k₂ =>
    rw [hsync] at hs
    cases hs
  | ok k₂ n =>
    rw [hsync] at hs
    obtain ⟨rfl, rfl⟩ := Outcome.ok.inj hs
    obtain rfl := syncCode_now hsync
    obtain ⟨-, _, _, _, _, hk₂⟩ := syncCode_ok hsync (by exact hmem)
    have hl : Left k₁ (leave k₂ s.running t r) s.running := leave_left hk₂
    have hr₁ : Running k₁ (s.running :: rs) := hr₀.join hmem hparked hf rfl rfl
    have hload₂ := syncCode_loaded hsync (by exact hmem) (by rw [hcur]; exact h.locked.loaded)
    have hload := leave_loaded (t := s.running) (r := r) hload₂ (by rw [hk₂]; exact hmem)
    have hrun : (leave k₂ s.running t r).runnable = t := hl.runnable
    refine h.elsewhere (he.frame.trans hf) rfl hr₁ ?_ ?_ hl (by rw [hrun]; exact hload)
    · intro p hp a
      rcases List.mem_cons.1 hp with rfl | hp
      · exact hwait a
      · exact h.awake p hp a
    · intro p a hp w hw
      have hpr : p ∉ s.running :: rs := fun hpr => h.awake p hpr a hp
      have hpt : p ≠ t := fun heq => hwait a (heq ▸ hp)
      rw [show k₁.ctx p w = k₀.ctx p w from linkBefore_notMem hr₀.ring hne hpr hpt w]
      exact he.words p w (.inl (by omega))

end Elsewhere

/-! ## The results -/

/-- The threads `q` wait for the lock at `a`, in the order in which they came: the links
lead from each to the next, and from none of the runnable threads to any. -/
structure WaitsIn (s : Locking) (a : ℕ) (q : List ℕ) : Prop where
  ring : ∀ f t, q = f :: t → Ring s.kernel.next s.kernel.prev f t
  nodup : q.Nodup
  mem : ∀ p, p ∈ q ↔ s.stage p = .waiting a
  order : q.Pairwise fun p p' => s.since p < s.since p'
  notRunnable : ∀ p ∈ q, ¬ Runnable s.kernel p

/-- At most one thread is inside, and the word names the owner and the first of those
who wait. -/
structure LockSafe (m : ℕ) (s : Locking) (a : ℕ) : Prop where
  exclusive : ∀ p q, s.Inside p a → s.Inside q a → p = q
  word : (s.kernel.user m a = 0 ∧ (∀ p, s.owns p a = false) ∧ ∀ p, s.stage p ≠ .waiting a) ∨
    ∃ o q, (∀ p, s.owns p a = true ↔ p = o) ∧
      s.kernel.user m a = threadCode o + firstCode q * 2 ^ 32 ∧ WaitsIn s a q

/-- From one state to the next no thread that waits is lost, or overtaken. -/
structure Fair (s s' : Locking) (a : ℕ) : Prop where
  kept : ∀ p, s.stage p = .waiting a → s'.stage p = .waiting a ∨ s'.owns p a = true
  first : ∀ p q, s.owns p a = false → s'.owns p a = true → s.stage q = .waiting a →
    s.stage p = .waiting a ∧ s.since p ≤ s.since q

section Results

variable {m a : ℕ} {locks : ℕ → Prop} {s s' : Locking} {L L' : ℕ → Handover ℕ} {rs rs' : List ℕ}

theorem Running.runnable_iff {k : Kernel} (h : Running k rs) (p : ℕ) :
    Runnable k p ↔ p ∈ k.runnable :: rs :=
  runnable_iff_mem h.ring h.nodup h.mem p

theorem LockInv.waitsIn (h : LockInv m locks s L rs) (ha : locks a) :
    WaitsIn s a (L a).queue := by
  have hw := (h.locked.lock a ha).waiters
  refine ⟨?_, hw.nodup, fun p => (((h.fits p).waiting a ha)).symm, h.order a ha, ?_⟩
  · intro f t hq
    have hmem : ∀ p ∈ f :: t, p ∈ s.kernel.contexts := by
      rw [← hq]
      exact hw.mem
    refine ring_congr (hw.ring f t hq) ?_ ?_
    · exact fun p hp => fld_of_mem (hmem p hp) 0
    · exact fun p hp => fld_of_mem (hmem p hp) 1
  · intro p hp hrun
    exact h.notQueued ((h.locked.running.runnable_iff p).1 hrun) ha hp

theorem LockInv.safe (h : LockInv m locks s L rs) (ha : locks a) : LockSafe m s a := by
  have hlock := h.locked.lock a ha
  have howner : ∀ p, s.owns p a = true ↔ (L a).owner = some p := fun p => (h.fits p).owner a ha
  constructor
  · intro p q hp hq
    have hp' := (howner p).1 hp.1
    have hq' := (howner q).1 hq.1
    exact Option.some.inj (hp'.symm.trans hq')
  · have hword := hlock.word
    have hwaits := h.waitsIn ha
    cases hl : L a with
    | none =>
      rw [hl] at hword hwaits
      refine .inl ⟨hword, fun p => ?_, fun p hp => ?_⟩
      · rw [← Bool.not_eq_true, howner, hl]
        simp
      · have := (hwaits.mem p).2 hp
        simp at this
    | some hd =>
      rw [hl] at hword hwaits
      refine .inr ⟨hd.owner, hd.queue, fun p => ?_, hword, hwaits⟩
      rw [howner, hl, Handover.owner_some, Option.some.injEq]
      exact eq_comm

theorem LockInv.fair (h : LockInv m locks s L rs) (h' : LockInv m locks s' L' rs')
    (hn : Handover.Next (L a) (L' a)) (ha : locks a) : Fair s s' a := by
  constructor
  · intro p hp
    rcases hn.waits (((h.fits p).waiting a ha).1 hp) with hq | ho
    · exact .inl (((h'.fits p).waiting a ha).2 hq)
    · exact .inr (((h'.fits p).owner a ha).2 ho)
  · intro p q hp hp' hq
    have hnew : (L a).owner ≠ some p := by
      intro heq
      rw [((h.fits p).owner a ha).2 heq] at hp
      cases hp
    have hq' := ((h.fits q).waiting a ha).1 hq
    have hhead := hn.first (((h'.fits p).owner a ha).1 hp') hnew hq'
    obtain ⟨t, ht⟩ := List.head?_eq_some_iff.1 hhead
    have horder := h.order a ha
    rw [ht] at horder hq'
    refine ⟨((h.fits p).waiting a ha).2 (by rw [ht]; exact List.mem_cons_self), ?_⟩
    rcases List.mem_cons.1 hq' with rfl | hq'
    · exact le_rfl
    · exact ((List.pairwise_cons.1 horder).1 q hq').le

/-- The lock protocol is safe: in every state, and from one to the next. -/
theorem lock_protocol_safe (h : (lockSystem m locks).Reachable s) (ha : locks a) :
    LockSafe m s a ∧ ∀ i s', (lockSystem m locks).step s i s' → Fair s s' a := by
  obtain ⟨L, rs, hi⟩ := lockInv h
  refine ⟨hi.safe ha, fun i s' hs => ?_⟩
  obtain ⟨L', rs', hi', hn⟩ := lockInv_step hi hs
  exact hi.fair hi' (hn a) ha

end Results

/-! ## Two threads and a lock -/

/-- The threads of `lockThreads`, and the lock at 4096. -/
def lock₀ : Locking := ⟨lockThreads, fun _ => .outside, none, fun _ _ => false, 0, fun _ => 0⟩

/-- The first three instructions of a claim. -/
def tryClaim (s : Locking) : Locking :=
  let s₁ := s.goto (.claimLoad 4096)
  let s₂ := { s₁.goto (.claimTest 4096 (s₁.kernel.load64 4096)) with monitor := some 4096 }
  s₂.goto (if s₁.kernel.load64 4096 = 0 then .claimStore 4096 else .claimWait 4096)

/-- The other two, for a lock that is free. -/
def finishClaim (s : Locking) : Locking :=
  let s₁ := { (s.goto (.claimCheck 4096 0)).setOwns s.running 4096 true with
    kernel := s.kernel.store64 4096 (threadCode s.running)
    monitor := none }
  s₁.goto .outside

/-- The first thread has claimed the lock. -/
def lock₁ : Locking := finishClaim (tryClaim lock₀)

def yieldLock₁ : Outcome ℕ := kernelStep lock₁.kernel (lockRegs 0) (.svc 0xf008)

/-- It has yielded to the second. -/
def lock₂ : Locking := { lock₁ with kernel := yieldLock₁.kernel, monitor := none }

def waitLock₂ : Outcome ℕ := kernelStep lock₂.kernel (lockRegs 0x1ffa00) (.svc 0xf006)

/-- The second waits for the lock. -/
def lock₃ : Locking := ((tryClaim lock₂).wait 4096 waitLock₂.kernel).resumed waitLock₂.now

theorem lock₀_start : LockStart 3 (· = 4096) lock₀ := by
  refine ⟨lockThreads_placed, by decide +kernel,
    ⟨[startAddress + 0x1ffa00, startAddress + 0x1ffe00], ?_⟩, ?_, ?_, fun _ => rfl, fun _ _ => rfl,
    rfl⟩
  · constructor
    · refine List.isChain_cons_cons.2 ⟨⟨by decide +kernel, by decide +kernel⟩, ?_⟩
      refine List.isChain_cons_cons.2 ⟨⟨by decide +kernel, by decide +kernel⟩, ?_⟩
      exact List.isChain_cons_cons.2 ⟨⟨by decide +kernel, by decide +kernel⟩, .singleton _⟩
    · decide +kernel
    · decide +kernel
    · intro p _
      exact .inl rfl
  · rintro a rfl
    decide
  · rintro a rfl
    rfl

theorem tryClaim_reachable {s : Locking} (h : (lockSystem 3 (· = 4096)).Reachable s)
    (hat : s.At 3 .outside) (hfree : s.owns s.running 4096 = false) :
    (lockSystem 3 (· = 4096)).Reachable (tryClaim s) := by
  have hgoto : ∀ (s : Locking) t, (s.goto t).stage s.running = t := fun s t => by simp
  have h₁ := h.step (LockStep.claim hat rfl hfree)
  have h₂ := h₁.step (LockStep.claimLoad ⟨hat.1, hgoto _ _⟩)
  exact h₂.step (LockStep.claimTest ⟨hat.1, hgoto (s.goto (.claimLoad 4096)) _⟩)

theorem lock₁_reachable : (lockSystem 3 (· = 4096)).Reachable lock₁ := by
  have h₀ := tryClaim_reachable (.init lock₀_start) ⟨by decide +kernel, rfl⟩ rfl
  have h₁ := h₀.step (LockStep.claimStore ⟨by decide +kernel, by decide +kernel⟩ rfl)
  have hcheck (s : Locking) (hat : s.At 3 (.claimCheck 4096 0)) :
      LockStep 3 (· = 4096) s s.running (s.goto .outside) := by
    simpa using @LockStep.claimCheck 3 (· = 4096) s 4096 0 hat
  exact h₁.step (hcheck _ ⟨by decide +kernel, by decide +kernel⟩)

theorem lock₂_reachable : (lockSystem 3 (· = 4096)).Reachable lock₂ := by
  obtain ⟨L, rs, hi⟩ := lockInv lock₁_reachable
  have hyield : kernelStep lock₁.kernel (lockRegs 0) (.svc 0xf008) =
      .ok yieldLock₁.kernel yieldLock₁.now := Outcome.eq_ok_now (by decide +kernel)
  exact lock₁_reachable.step (LockStep.meanwhile (yield_meanwhile hi hyield))

theorem lock₃_reachable : (lockSystem 3 (· = 4096)).Reachable lock₃ := by
  have h₂ := tryClaim_reachable lock₂_reachable ⟨by decide +kernel, by decide +kernel⟩
    (by decide +kernel)
  have hwait : kernelStep lock₂.kernel (lockRegs 0x1ffa00) (.svc 0xf006) =
      .ok waitLock₂.kernel waitLock₂.now := Outcome.eq_ok_now (by decide +kernel)
  exact h₂.step (LockStep.claimWait ⟨by decide +kernel, by decide +kernel⟩ rfl
    (by decide +kernel) hwait)

/-- One thread is inside, and the other waits. -/
theorem lock_protocol_safe_waiting :
    lock₃.Inside (startAddress + 0x1ffc00) 4096 ∧
      lock₃.stage (startAddress + 0x1ffa00) = .waiting 4096 ∧ LockSafe 3 lock₃ 4096 ∧
      ∀ i s', (lockSystem 3 (· = 4096)).step lock₃ i s' → Fair lock₃ s' 4096 := by
  refine ⟨⟨by decide +kernel, by decide +kernel⟩, by decide +kernel, ?_⟩
  exact lock_protocol_safe lock₃_reachable rfl

end Isambard.El1
