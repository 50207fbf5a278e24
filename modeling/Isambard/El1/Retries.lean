import Isambard.El1.Waiters

/-!
# El1.Retries — waiting for a lock when exclusive stores fail

The loop of `handle_svc_wait_for_lock`. An exclusive store may fail: for no reason, or
because another core has stored to the lock since the load. Then the loop body is gone
through again, with the word that the lock holds now.

* `waitForLockRetrying`: the call, with the words found after the stores that failed;
* `Moved`: the thread has been moved to those that wait, and the lock does not say so;
* `retrying_iff`: when the call does what it would have done without failures.
-/

namespace Isambard.El1

open Isambard.Lib

/-! ## The loop -/

/-- The part of the loop body for a lock that is held, before its store: `thread` goes
from the runnable threads to those that wait. -/
def blockThread (k : Kernel) (thread lockValue : ℕ) : Outcome ℕ :=
  let blockedThreadCode := lockValue / 2 ^ 32
  let lockingThreadCode := lockValue % 2 ^ 32
  if !isRealThread k lockingThreadCode then .halt k
  else if blockedThreadCode ≠ 0 ∧ !isRealThread k blockedThreadCode then .halt k
  else
    let x17 := k.reg thread 17
    let now := k.next thread
    let k := { k with runnable := now }
    if now = thread then .halt k
    else
      let k := removeThread k thread
      if blockedThreadCode = 0 then
        let k := { k with blocked := 0 }
        .ok (insertThreadAsHead k k.layout.blocked thread) now
      else
        let firstBlockedThread := threadFromCode blockedThreadCode
        let k := { k with blocked := firstBlockedThread }
        if firstBlockedThread ≠ 0 ∧ k.reg firstBlockedThread 17 ≠ x17 then .halt k
        else .ok (insertThreadAtTail k k.layout.blocked thread) now

/-- The loop, from its exclusive load on. An exclusive store fails for each word of the
list, which is the word that the next load finds. -/
def waitLoop (thread x17 x18 : ℕ) (fails : List ℕ) (k : Kernel) (now : ℕ) : Outcome ℕ :=
  let lockValue := k.load64 x17
  if lockValue = 0 then
    match fails with
    | found :: fails => waitLoop thread x17 x18 fails (k.store64 x17 found) now
    | [] =>
      let k := k.store64 x17 x18
      if now = thread then .ok k thread
      -- "We've blocked ourselves, but the lock owner has released the lock"
      else if k.blocked ≠ thread then .halt k
      else .ok (insertThreadAsHead (removeThread k thread) (runnableAddress k) thread) thread
  else if lockValue = x18 then .ok k now
  -- "What happens on second go through?"
  else if now ≠ thread then .halt k
  else
    match blockThread k thread lockValue with
    | .halt k => .halt k
    | .ok k now =>
      if lockValue / 2 ^ 32 ≠ 0 then .ok k now
      else
        match fails with
        | found :: fails => waitLoop thread x17 x18 fails (k.store64 x17 found) now
        | [] => .ok (k.store64 x17 (lockValue % 2 ^ 32 + x18 % 2 ^ 32 * 2 ^ 32)) now

/-- `handle_svc_wait_for_lock`, with the exclusive stores that fail. -/
def waitForLockRetrying (k : Kernel) (thread : ℕ) (fails : List ℕ) : Outcome ℕ :=
  let x17 := k.reg thread 17
  let x18 := k.reg thread 18
  match addressIsUserWritable k thread x17 with
  | .halt k => .halt k
  | .ok k false => .halt k
  | .ok k true =>
    if threadFromCode x18 ≠ thread then .halt k
    else if x17 % 8 ≠ 0 then .halt k
    else waitLoop thread x17 x18 fails k thread

section Loop

variable {k k' : Kernel} {t v now : ℕ}

/-- The store comes last. -/
theorem blockOnLock_ok (h : blockThread k t v = .ok k' now) :
    blockOnLock k t v = if v / 2 ^ 32 ≠ 0 then .ok k' now
      else .ok (k'.store64 (k.reg t 17) (v % 2 ^ 32 + k.reg t 18 % 2 ^ 32 * 2 ^ 32)) now := by
  unfold blockThread at h
  unfold blockOnLock
  simp only at h ⊢
  split at h
  · cases h
  rename_i hreal
  split at h
  · cases h
  rename_i hwaits
  split at h
  · cases h
  rename_i hne
  rw [if_neg hreal, if_neg hwaits, if_neg hne]
  split at h
  · -- the first to wait: its code goes into the word
    rename_i hv
    obtain ⟨rfl, rfl⟩ := Outcome.ok.inj h
    rw [if_pos hv, if_neg (not_not.2 hv)]
  · rename_i hv
    split at h
    · cases h
    rename_i hsame
    obtain ⟨rfl, rfl⟩ := Outcome.ok.inj h
    rw [if_neg hv, if_pos hv, if_neg hsame]

theorem blockOnLock_halt (h : blockThread k t v = .halt k') : blockOnLock k t v = .halt k' := by
  unfold blockThread at h
  unfold blockOnLock
  simp only at h ⊢
  split at h
  · rename_i hreal
    rw [if_pos hreal]
    exact h
  rename_i hreal
  rw [if_neg hreal]
  split at h
  · rename_i hwaits
    rw [if_pos hwaits]
    exact h
  rename_i hwaits
  rw [if_neg hwaits]
  split at h
  · rename_i heq
    rw [if_pos heq]
    exact h
  rename_i hne
  rw [if_neg hne]
  split at h
  · cases h
  rename_i hv
  rw [if_neg hv]
  split at h
  · rename_i hsame
    rw [if_pos hsame]
    exact h
  · cases h

/-- When no store fails, the loop is gone through once. -/
theorem waitLoop_nil (k : Kernel) (t : ℕ) :
    waitLoop t (k.reg t 17) (k.reg t 18) [] k t =
      if k.load64 (k.reg t 17) = 0 then .ok (k.store64 (k.reg t 17) (k.reg t 18)) t
      else if k.load64 (k.reg t 17) = k.reg t 18 then .ok k t
      else blockOnLock k t (k.load64 (k.reg t 17)) := by
  unfold waitLoop
  simp only [if_true, ne_eq, not_true_eq_false, if_false]
  cases hb : blockThread k t (k.load64 (k.reg t 17)) with
  | halt k' => rw [blockOnLock_halt hb]
  | ok k' now => rw [blockOnLock_ok hb]

theorem retrying_nil (ht : t ∈ k.contexts) :
    waitForLockRetrying k t [] = handleSvcWaitForLock k t := by
  unfold waitForLockRetrying handleSvcWaitForLock
  simp only
  cases hw : addressIsUserWritable k t (k.reg t 17) with
  | halt k₁ => rfl
  | ok k₁ b =>
    cases b with
    | false => rfl
    | true =>
      obtain ⟨-, l1, l2, l3, hk₁⟩ := addressIsUserWritable_ok hw
      have ht₁ : t ∈ k₁.contexts := by
        rw [hk₁]
        exact ht
      have hreg : ∀ i, k.reg t i = k₁.reg t i := fun i => by
        rw [Kernel.reg, Kernel.reg, fld_of_mem ht, fld_of_mem ht₁, hk₁]
      simp only
      rw [hreg 17, hreg 18, waitLoop_nil]

end Loop

/-! ## The caller and the lock -/

/-- The running thread asks for the lock at `a`; `rs` are the other runnable threads. -/
structure Asking (k : Kernel) (a : ℕ) (rs : List ℕ) : Prop where
  placed : Placed k
  running : Running k rs
  aligned : a % 8 = 0
  low : a < 2 ^ 63
  x17 : k.reg k.runnable 17 = a
  x18 : k.reg k.runnable 18 = threadCode k.runnable

/-- A lock at `a` that the running thread does not own, free or held. -/
structure Others (k : Kernel) (a : ℕ) (rs : List ℕ) (l : Handover ℕ) : Prop where
  owner : ∀ p, l.owner = some p → OnRing k p ∧ p ≠ k.runnable
  waiters : Waiters k l.queue
  apart : ∀ p ∈ l.queue, p ∉ k.runnable :: rs
  sameLock : ∀ p ∈ l.queue, k.reg p 17 = a

/-- The call of `t` has done what it does to the lock `l` of the map `m` when no store
fails: the thread owns the lock and runs, or it is the last of those that wait, and the
next of the runnable threads runs. -/
def EndsAs (t m a : ℕ) (rs : List ℕ) (l : Handover ℕ) (o : Outcome ℕ) : Prop :=
  ∃ k' now rs', o = .ok k' now ∧ k'.runnable = now ∧ Running k' rs' ∧
    LockAt k' m a (l.ask t) ∧ (l = none ∧ now = t ∧ rs' = rs ∨ l ≠ none ∧ rs = now :: rs')

section First

variable {k k' : Kernel} {a x v now : ℕ} {rs : List ℕ} {l : Handover ℕ} {h : Held ℕ}

theorem not_endsAs_halt {t m : ℕ} : ¬ EndsAs t m a rs l (.halt k) := by
  rintro ⟨k', now, rs', ho, -⟩
  cases ho

theorem Asking.mem (hk : Asking k a rs) : k.runnable ∈ k.contexts :=
  hk.running.mem _ List.mem_cons_self

theorem Asking.load64 (hk : Asking k a rs) : k.load64 a = k.user k.loadedMap a :=
  hk.placed.load64_user hk.aligned hk.low

/-- The code of a thread is a word. -/
theorem Placed.threadCode_lt {p : ℕ} (hpl : Placed k) (hp : p ∈ k.contexts) :
    threadCode p < 2 ^ 32 := by
  have hlt := (hpl.threadCode_eq hp).2.2
  unfold heapTop at hlt
  omega

/-- Registers of created threads are not in the memory of a map. -/
theorem reg_user {p : ℕ} (hp : p ∈ k.contexts) (u : ℕ → ℕ → ℕ) (i : ℕ) :
    ({ k with user := u } : Kernel).reg p i = k.reg p i :=
  (fld_of_mem (k := { k with user := u }) hp _).trans (fld_of_mem hp _).symm

/-- A store to the lock, by the thread or by another core. -/
theorem Asking.store (hk : Asking k a rs) (v : ℕ) : Asking (k.store64 a v) a rs := by
  rw [hk.placed.store64_user hk.aligned hk.low]
  constructor
  · exact hk.placed.congr rfl rfl
  · exact ⟨hk.running.ring, hk.running.nodup, hk.running.mem, hk.running.owners⟩
  · exact hk.aligned
  · exact hk.low
  · exact (reg_user hk.mem _ 17).trans hk.x17
  · exact (reg_user hk.mem _ 18).trans hk.x18

theorem Asking.store_word (hk : Asking k a rs) (v : ℕ) :
    (k.store64 a v).user (k.store64 a v).loadedMap a = v := by
  rw [hk.placed.store64_user hk.aligned hk.low]
  simp

theorem Asking.store_runnable (hk : Asking k a rs) (v : ℕ) :
    (k.store64 a v).runnable = k.runnable ∧ (k.store64 a v).loadedMap = k.loadedMap := by
  rw [hk.placed.store64_user hk.aligned hk.low]
  exact ⟨rfl, rfl⟩

theorem Others.store (ho : Others k a rs l) (hk : Asking k a rs) (v : ℕ) :
    Others (k.store64 a v) a rs l := by
  rw [hk.placed.store64_user hk.aligned hk.low]
  constructor
  · rintro p hp
    obtain ⟨hr, hne⟩ := ho.owner p hp
    exact ⟨⟨hr.mem, hr.next, hr.prev, hr.nextPrev, hr.prevNext⟩, hne⟩
  · exact ho.waiters.congr (fun _ hp => hp) rfl fun _ _ _ _ => rfl
  · exact ho.apart
  · exact fun p hp => (reg_user (ho.waiters.mem p hp) _ 17).trans (ho.sameLock p hp)

/-- A lock that another thread holds has neither the word of a free lock nor that of a
lock that `t` holds. -/
theorem Placed.heldWord {t : ℕ} (hpl : Placed k) (ho : h.owner ∈ k.contexts)
    (ht : t ∈ k.contexts) (hne : h.owner ≠ t) :
    lockWord (some h) ≠ 0 ∧ lockWord (some h) ≠ threadCode t := by
  obtain ⟨hlow, -, hnz⟩ := hpl.lockWord_halves ho
  refine ⟨hnz, fun heq => hne ?_⟩
  rw [heq, Nat.mod_eq_of_lt (hpl.threadCode_lt ht)] at hlow
  exact (hpl.threadCode_inj ht ho hlow).symm

/-- The thread takes a free lock. -/
theorem Asking.take (hk : Asking k a rs) :
    EndsAs k.runnable k.loadedMap a rs none
      (.ok (k.store64 a (threadCode k.runnable)) k.runnable) := by
  have hcode : threadCode k.runnable = lockWord (some ⟨k.runnable, []⟩) := by
    simp [lockWord, firstCode]
  have hown : ∀ p, Handover.owner (some ⟨k.runnable, []⟩) = some p → p ∈ k.contexts := by
    rintro p ⟨⟩
    exact hk.mem
  obtain ⟨hrun, hcall⟩ := store_call (l := none) hk.placed hk.running hk.aligned hk.low hown rfl
  rw [hcode]
  exact ⟨_, _, rs, rfl, hrun, hcall.running, hcall.lock, .inl ⟨rfl, rfl, rfl⟩⟩

end First

/-! ## The thread is moved -/

/-- The thread `t` has left the runnable ones, and is in the list of the fake head by
itself. -/
structure Moved (k : Kernel) (t : ℕ) (rs : List ℕ) : Prop where
  placed : Placed k
  running : Running k rs
  notMem : t ∉ k.runnable :: rs
  alone : Waiters k [t]
  blocked : k.blocked = t

section Move

variable {k k' : Kernel} {a t x v now : ℕ} {rs : List ℕ} {h : Held ℕ}

/-- A thread inserted through the fake head is what that points to. -/
theorem insertThreadAsHead_blocked (hpl : Placed k) (new : ℕ) :
    (insertThreadAsHead k k.layout.blocked new).blocked = new := by
  have hs := insertThreadAtTail_stores k k.layout.blocked new
  unfold insertThreadAsHead
  generalize insertThreadAtTail k k.layout.blocked new = k' at hs
  rw [← hs.layout, (hs.placed hpl).store64_blocked]

/-- Every test of the loop body is passed. -/
theorem Asking.blockThread_ok (hk : Asking k a (x :: rs)) (ho : Others k a (x :: rs) (some h)) :
    ∃ k', blockThread k k.runnable (lockWord (some h)) = .ok k' x ∧ Placed k' ∧
      (h.queue = [] → k'.blocked = k.runnable) := by
  have hpl := hk.placed
  obtain ⟨hreal, -⟩ := ho.owner h.owner rfl
  obtain ⟨hlow, hhigh, -⟩ := hpl.lockWord_halves hreal.mem
  have howner : isRealThread k (threadCode h.owner) = true := by
    apply OnRing.real hpl
    rw [hpl.threadFromCode_threadCode hreal.mem]
    exact hreal
  obtain ⟨hnext, hne, b, u, -, hrem⟩ := hk.running.leftTo hpl
  have hleft : ∀ b, Placed (leftTo k x b u) := fun b => (leftTo_frame k x b u).placed hpl
  unfold blockThread
  simp only [hlow, hhigh, howner, hnext, hne, hrem, Bool.not_true, Bool.false_eq_true, if_false]
  cases hq : h.queue with
  | nil =>
    refine ⟨insertThreadAsHead (leftTo k x 0 u) k.layout.blocked k.runnable, ?_, ?_, fun _ => ?_⟩
    · simp [firstCode, leftTo]
    · exact (insertThreadAsHead_stores ..).placed (hleft 0)
    · exact insertThreadAsHead_blocked (hleft 0) _
  | cons f q =>
    have hf : f ∈ k.contexts := ho.waiters.mem f (by simp [hq])
    have hcode : threadCode f ≠ 0 := (hpl.threadCode_eq hf).2.1.ne'
    have hback := hpl.threadFromCode_threadCode hf
    have hwaits : isRealThread k (threadCode f) = true := by
      apply OnRing.real hpl
      rw [hback]
      refine onRing_of_ring (ho.waiters.ring f q hq) (fun p hp => ?_) List.mem_cons_self
      exact ho.waiters.mem p (by simpa [hq] using hp)
    -- all of them wait for the same lock
    have hsame : (leftTo k x f u).reg f 17 = k.reg k.runnable 17 := by
      rw [hk.x17, ← ho.sameLock f (by simp [hq])]
      calc (leftTo k x f u).reg f 17 = unlink k.ctx k.runnable f 21 :=
            fld_of_mem (k := leftTo k x f u) hf _
        _ = k.ctx f 21 := unlink_other (by decide)
        _ = k.reg f 17 := (fld_of_mem hf _).symm
    refine ⟨insertThreadAtTail (leftTo k x f u) k.layout.blocked k.runnable, ?_, ?_, by simp⟩
    · simp only [firstCode, hcode, hwaits, hback, ne_eq, not_false_eq_true, Bool.not_true,
        Bool.false_eq_true, and_false, if_false]
      change (if f ≠ 0 ∧ (leftTo k x f u).reg f 17 ≠ k.reg k.runnable 17 then _ else _) = _
      rw [hsame, if_neg (fun h => h.2 rfl)]
      rfl
    · exact (insertThreadAtTail_stores ..).placed (hleft f)

/-- The lock that the word stands for. -/
theorem Others.lockAt {l : Handover ℕ} (ho : Others k a rs l)
    (hw : k.user k.loadedMap a = lockWord l) : LockAt k k.loadedMap a l :=
  ⟨hw, fun p hp => (ho.owner p hp).1.mem, ho.waiters⟩

/-- What the thread does to a lock that is held, if its store succeeds. -/
theorem Asking.block_call (hk : Asking k a rs) (ho : Others k a rs (some h))
    (hw : k.user k.loadedMap a = lockWord (some h))
    (hb : blockOnLock k k.runnable (lockWord (some h)) = .ok k' now) :
    ∃ rs', rs = now :: rs' ∧ k'.runnable = now ∧
      LockCall k k' a rs rs' (some h) (some ⟨h.owner, h.queue ++ [k.runnable]⟩) := by
  rw [← hw] at hb
  exact blockOnLock_call hk.placed hk.running (ho.lockAt hw) hk.aligned hk.low hk.x17 hk.x18
    ho.apart hb

/-- The word of a lock that is held says if a thread waits. -/
theorem Others.nobody_iff (ho : Others k a rs (some h)) (hk : Asking k a rs) :
    lockWord (some h) / 2 ^ 32 = 0 ↔ h.queue = [] := by
  obtain ⟨hr, -⟩ := ho.owner h.owner rfl
  rw [(hk.placed.lockWord_halves hr.mem).2.1]
  cases hq : h.queue with
  | nil => simp [firstCode]
  | cons f q =>
    have hpos := (hk.placed.threadCode_eq (ho.waiters.mem f (by simp [hq]))).2.1
    simpa [firstCode] using hpos.ne'

/-- Behind threads that wait already, it need not store. -/
theorem Asking.block_behind (hk : Asking k a (x :: rs)) (ho : Others k a (x :: rs) (some h))
    (hw : k.user k.loadedMap a = lockWord (some h)) (hq : h.queue ≠ [])
    (hb : blockThread k k.runnable (lockWord (some h)) = .ok k' x) :
    EndsAs k.runnable k.loadedMap a (x :: rs) (some h) (.ok k' x) := by
  have hon := blockOnLock_ok hb
  rw [if_pos (mt (ho.nobody_iff hk).1 hq)] at hon
  obtain ⟨rs', hrs, hrun, hcall⟩ := hk.block_call ho hw hon
  exact ⟨k', x, rs', rfl, hrun, hcall.running, hcall.lock, .inr ⟨by simp, hrs⟩⟩

/-- The first thread that waits has been moved when it stores. -/
theorem Asking.block_first (hk : Asking k a (x :: rs)) (ho : Others k a (x :: rs) (some h))
    (hw : k.user k.loadedMap a = lockWord (some h)) (hq : h.queue = [])
    (hpl' : Placed k') (hblocked : k'.blocked = k.runnable)
    (hb : blockThread k k.runnable (lockWord (some h)) = .ok k' x) :
    lockWord (some h) / 2 ^ 32 = 0 ∧
      EndsAs k.runnable k.loadedMap a (x :: rs) (some h)
        (.ok (k'.store64 a (lockWord (some h) % 2 ^ 32 +
          threadCode k.runnable % 2 ^ 32 * 2 ^ 32)) x) ∧
      Moved k' k.runnable rs ∧ k'.runnable = x ∧ k'.loadedMap = k.loadedMap ∧
      k'.contexts = k.contexts := by
  have hz : lockWord (some h) / 2 ^ 32 = 0 := (ho.nobody_iff hk).2 hq
  have hon := blockOnLock_ok hb
  rw [if_neg (not_not.2 hz), hk.x17, hk.x18] at hon
  obtain ⟨rs', hrs, hrun, hcall⟩ := hk.block_call ho hw hon
  refine ⟨hz, ⟨_, x, rs', rfl, hrun, hcall.running, hcall.lock, .inr ⟨by simp, hrs⟩⟩, ?_⟩
  obtain rfl : rs = rs' := (List.cons.inj hrs).2
  -- the store changes no link
  generalize lockWord (some h) % 2 ^ 32 + threadCode k.runnable % 2 ^ 32 * 2 ^ 32 = v at hrun hcall
  have hwaits := hcall.lock.waiters
  rw [Handover.queue_some, hq, List.nil_append] at hwaits
  have hrunning := hcall.running
  have hmap := hcall.loadedMap
  have hctx := hcall.frame.contexts
  rw [hpl'.store64_user hk.aligned hk.low] at hwaits hrunning hmap hctx hrun
  refine ⟨⟨hpl', ⟨hrunning.ring, hrunning.nodup, hrunning.mem, hrunning.owners⟩, ?_, ?_, hblocked⟩,
    hrun, hmap, hctx⟩
  · rw [show k'.runnable = x from hrun]
    exact (List.nodup_cons.1 hk.running.nodup).1
  · exact ⟨hwaits.ring, hwaits.nodup, hwaits.mem, hwaits.owners⟩

/-! ## The thread that was moved gets the lock, or is lost -/

theorem Moved.store (hm : Moved k t rs) (hal : a % 8 = 0) (ha : a < 2 ^ 63) (v : ℕ) :
    Moved (k.store64 a v) t rs ∧ (k.store64 a v).load64 a = v ∧
      (k.store64 a v).runnable = k.runnable ∧ (k.store64 a v).loadedMap = k.loadedMap ∧
      (k.store64 a v).contexts = k.contexts := by
  have hpl : ∀ u, Placed { k with user := u } := fun u => hm.placed.congr rfl rfl
  rw [hm.placed.store64_user hal ha, (hpl _).load64_user hal ha]
  refine ⟨⟨hpl _, ?_, hm.notMem, ?_, hm.blocked⟩, by simp, rfl, rfl, rfl⟩
  · exact ⟨hm.running.ring, hm.running.nodup, hm.running.mem, hm.running.owners⟩
  · exact ⟨hm.alone.ring, hm.alone.nodup, hm.alone.mem, hm.alone.owners⟩

/-- A thread that is in a list by itself leaves its own links as they are. -/
theorem unlink_alone {c : ℕ → ℕ → ℕ} (hn : c t 0 = t) (hp : c t 1 = t) : unlink c t = c := by
  have hn' : setCtx c t 0 t = c := by
    have h := setCtx_self c t 0
    rwa [hn] at h
  have hp' : setCtx c t 1 t = c := by
    have h := setCtx_self c t 1
    rwa [hp] at h
  simp only [unlink, hn, hp, hn', hp']

/-- It becomes runnable again. -/
theorem Moved.unblock (hm : Moved k t rs) :
    ∃ k', insertThreadAsHead (removeThread k t) (runnableAddress k) t = k' ∧ k'.runnable = t ∧
      Running k' (k.runnable :: rs) ∧ Frame k k' ∧ k'.loadedMap = k.loadedMap ∧
      Spared k k'.user := by
  have ht : t ∈ k.contexts := hm.alone.mem t (by simp)
  have hne : t ≠ k.runnable := fun heq => hm.notMem (heq ▸ List.mem_cons_self)
  obtain ⟨hn, hp⟩ := ring_nil.1 (hm.alone.ring t [] rfl)
  change k.ctx t 0 = t at hn
  change k.ctx t 1 = t at hp
  have hown : OwnerOk k (k.ctx t 2) := .inr (.inr (hm.alone.owners t (by simp)))
  obtain ⟨b, u, hrem, hu⟩ := removeThread_other hm.placed ht (by rwa [hn]) (by rwa [hp]) hown
    hne.symm
  rw [unlink_alone hn hp] at hrem
  have hf : Frame k { k with ctx := k.ctx, blocked := b, user := u } :=
    Frame.sched k k.ctx k.runnable k.blockedWithTimeout b u
  have hrun : Running { k with ctx := k.ctx, blocked := b, user := u } rs :=
    hm.running.congr hf rfl fun _ _ _ _ => rfl
  have hprev := (ring_closed hm.running.ring _ List.mem_cons_self).2
  have hins : insertThreadAsHead { k with ctx := k.ctx, blocked := b, user := u }
      (runnableAddress k) t = { k with
        ctx := linkBefore k.ctx t k.runnable, blocked := b, user := u, runnable := t } :=
    insertThreadAsHead_runnable (hf.placed hm.placed) ht (hrun.mem _ List.mem_cons_self)
      (hrun.mem _ hprev) hne
  rw [hrem, hins]
  refine ⟨_, rfl, rfl, ?_, Frame.sched k _ _ _ _ _, rfl, hu⟩
  exact hrun.join ht hm.notMem (Frame.sched _ _ _ _ _ _) rfl rfl

/-- It gets the lock when every load finds the lock free. -/
theorem Moved.loop_takes (hal : a % 8 = 0) (ha : a < 2 ^ 63) (fails : List (Handover ℕ))
    (hm : Moved k t rs) (hload : k.load64 a = 0) (hfree : ∀ f ∈ fails, f = none) :
    EndsAs t k.loadedMap a (k.runnable :: rs) none
      (waitLoop t a (threadCode t) (fails.map lockWord) k k.runnable) := by
  induction fails generalizing k with
  | nil =>
    obtain ⟨hm', hword, hrun, hmap, -⟩ := hm.store hal ha (threadCode t)
    have ht' := hm'.alone.mem t (by simp)
    have hne : k.runnable ≠ t := fun heq => hm.notMem (heq ▸ List.mem_cons_self)
    obtain ⟨k', hins, hrun', hrunning, hf, hmap', hspared⟩ := hm'.unblock
    rw [hm'.placed.load64_user hal ha] at hword
    have hlt : threadCode t < startAddress := by
      have := hm'.placed.threadCode_lt ht'
      unfold startAddress
      omega
    unfold waitLoop
    simp only [List.map_nil, hload, if_true, hne, if_false, hm'.blocked, ne_eq, not_true_eq_false]
    rw [hins]
    refine ⟨k', t, _, rfl, hrun', hrunning, ⟨?_, ?_, ?_⟩, .inl ⟨rfl, rfl, ?_⟩⟩
    · rw [← hmap, hspared _ _ (by rw [hword]; exact hlt), hword]
      simp [lockWord, firstCode]
    · rintro p ⟨⟩
      rw [hf.contexts]
      exact ht'
    · exact ⟨by simp, by simp, by simp, by simp⟩
    · rw [hrun]
  | cons f fails ih =>
    obtain rfl := hfree f (by simp)
    obtain ⟨hm', hword, hrun, hmap, -⟩ := hm.store hal ha (lockWord none)
    have hend := ih hm' hword fun g hg => hfree g (by simp [hg])
    rw [hrun, hmap] at hend
    unfold waitLoop
    simp only [List.map_cons, hload, if_true]
    exact hend

/-- The second time round, it is lost when the lock is held. -/
theorem Moved.halts (hm : Moved k t rs) (fails : List ℕ) (hload : k.load64 a = lockWord (some h))
    (ho : h.owner ∈ k.contexts) (hne : h.owner ≠ t) :
    waitLoop t a (threadCode t) fails k k.runnable = .halt k := by
  have hnow : k.runnable ≠ t := fun heq => hm.notMem (heq ▸ List.mem_cons_self)
  obtain ⟨hnz, hnt⟩ := hm.placed.heldWord ho (hm.alone.mem t (by simp)) hne
  unfold waitLoop
  simp only [hload, hnz, hnt, hnow, if_false, ne_eq, not_false_eq_true, if_true]

theorem Moved.loop_halts (hal : a % 8 = 0) (ha : a < 2 ^ 63) (fails : List (Handover ℕ))
    {l : Handover ℕ} (hm : Moved k t rs) (hload : k.load64 a = lockWord l)
    (hown : ∀ f ∈ l :: fails, ∀ p, f.owner = some p → p ∈ k.contexts ∧ p ≠ t)
    (hheld : ∃ f ∈ l :: fails, f ≠ none) :
    ∃ k', waitLoop t a (threadCode t) (fails.map lockWord) k k.runnable = .halt k' := by
  induction fails generalizing k l with
  | nil =>
    obtain ⟨f, hf, hne⟩ := hheld
    obtain rfl := List.mem_singleton.1 hf
    obtain ⟨h, rfl⟩ := Option.ne_none_iff_exists'.1 hne
    obtain ⟨hmem, hne'⟩ := hown (some h) (by simp) h.owner rfl
    exact ⟨k, hm.halts _ hload hmem hne'⟩
  | cons f fails ih =>
    cases l with
    | some h =>
      obtain ⟨hmem, hne⟩ := hown (some h) (by simp) h.owner rfl
      exact ⟨k, hm.halts _ hload hmem hne⟩
    | none =>
      obtain ⟨hm', hword, hrun, -, hctx⟩ := hm.store hal ha (lockWord f)
      have hend := ih hm' hword (fun g hg => hctx ▸ hown g (List.mem_cons_of_mem _ hg))
        (by simpa using hheld)
      rw [hrun] at hend
      have hfree : k.load64 a = 0 := hload
      unfold waitLoop
      simp only [List.map_cons, hfree, if_true]
      exact hend

end Move

/-! ## The results -/

/-- The lock that the last load finds: one with threads that wait needs no store. -/
def finalLock : Handover ℕ → List (Handover ℕ) → Handover ℕ
  | l, [] => l
  | l, f :: fails => if l.queue = [] then finalLock f fails else l

/-- After the first load that finds the lock held, with nobody waiting, every load finds
it free. -/
def Steady : Handover ℕ → List (Handover ℕ) → Prop
  | none, [] => True
  | none, f :: fails => Steady f fails
  | some h, fails => h.queue = [] → ∀ f ∈ fails, f = none

section Results

variable {k : Kernel} {a t : ℕ} {rs : List ℕ} {h : Held ℕ} {l : Handover ℕ}

theorem finalLock_waits (hq : h.queue ≠ []) (fails : List (Handover ℕ)) :
    finalLock (some h) fails = some h := by
  cases fails with
  | nil => rfl
  | cons f fails => rw [finalLock, Handover.queue_some, if_neg hq]

theorem finalLock_free {fails : List (Handover ℕ)} (hfree : ∀ f ∈ fails, f = none) :
    finalLock none fails = none := by
  induction fails with
  | nil => rfl
  | cons f fails ih =>
    obtain rfl := hfree f (by simp)
    rw [finalLock, Handover.queue_none, if_pos rfl]
    exact ih fun g hg => hfree g (by simp [hg])

theorem steady_held {fails : List (Handover ℕ)} :
    Steady (some h) fails ↔ (h.queue = [] → ∀ f ∈ fails, f = none) := by
  cases fails with
  | nil => rfl
  | cons f fails => rfl

/-- The only runnable thread cannot wait. -/
theorem Asking.alone_halts (hk : Asking k a []) (ho : Others k a [] (some h))
    (hw : k.user k.loadedMap a = lockWord (some h)) (fails : List ℕ) :
    ∃ k', waitLoop k.runnable a (threadCode k.runnable) fails k k.runnable = .halt k' := by
  obtain ⟨hr, hne⟩ := ho.owner h.owner rfl
  obtain ⟨hnz, hnt⟩ := hk.placed.heldWord hr.mem hk.mem hne
  have hnext : k.next k.runnable = k.runnable :=
    (fld_of_mem hk.mem 0).trans (ring_nil.1 hk.running.ring).1
  have hb : ∃ k', blockThread k k.runnable (lockWord (some h)) = .halt k' := by
    unfold blockThread
    simp only [hnext, if_true]
    split
    · exact ⟨_, rfl⟩
    split
    · exact ⟨_, rfl⟩
    · exact ⟨_, rfl⟩
  obtain ⟨k', hb⟩ := hb
  unfold waitLoop
  simp only [hk.load64, hw, hnz, hnt, hb, if_false, ne_eq, not_true_eq_false]
  exact ⟨k', rfl⟩

/-- The loop, once the thread has been moved. -/
theorem Moved.loop_iff (hal : a % 8 = 0) (ha : a < 2 ^ 63) (fails : List (Handover ℕ))
    (hm : Moved k t rs) (hload : k.load64 a = lockWord l)
    (hown : ∀ f ∈ l :: fails, ∀ p, f.owner = some p → p ∈ k.contexts ∧ p ≠ t) :
    EndsAs t k.loadedMap a (k.runnable :: rs) (finalLock l fails)
        (waitLoop t a (threadCode t) (fails.map lockWord) k k.runnable) ↔
      ∀ f ∈ l :: fails, f = none := by
  by_cases hfree : ∀ f ∈ l :: fails, f = none
  · refine ⟨fun _ => hfree, fun _ => ?_⟩
    obtain rfl := hfree l (by simp)
    have hrest : ∀ f ∈ fails, f = none := fun f hf => hfree f (by simp [hf])
    rw [finalLock_free hrest]
    exact hm.loop_takes hal ha fails hload hrest
  · have hheld : ∃ f ∈ l :: fails, f ≠ none := by
      by_contra hnone
      exact hfree fun f hf => not_not.1 fun hne => hnone ⟨f, hf, hne⟩
    obtain ⟨k', hhalt⟩ := hm.loop_halts hal ha fails hload hown hheld
    rw [hhalt]
    exact ⟨fun hend => absurd hend not_endsAs_halt, fun hall => absurd hall hfree⟩

/-- The loop, from a load that finds the lock held. -/
theorem Asking.held_iff (hk : Asking k a rs) (fails : List (Handover ℕ))
    (hw : k.user k.loadedMap a = lockWord (some h)) (ho : ∀ f ∈ some h :: fails, Others k a rs f) :
    EndsAs k.runnable k.loadedMap a rs (finalLock (some h) fails)
        (waitLoop k.runnable a (threadCode k.runnable) (fails.map lockWord) k k.runnable) ↔
      Steady (some h) fails ∧ rs ≠ [] := by
  have hoh := ho (some h) List.mem_cons_self
  cases rs with
  | nil =>
    obtain ⟨k', hhalt⟩ := hk.alone_halts hoh hw (fails.map lockWord)
    rw [hhalt]
    exact ⟨fun hend => absurd hend not_endsAs_halt, fun hs => absurd rfl hs.2⟩
  | cons x rs =>
    obtain ⟨hr, hne⟩ := hoh.owner h.owner rfl
    obtain ⟨hnz, hnt⟩ := hk.placed.heldWord hr.mem hk.mem hne
    obtain ⟨k', hb, hpl', hblocked⟩ := hk.blockThread_ok hoh
    unfold waitLoop
    simp only [hk.load64, hw, hnz, hnt, hb, if_false, ne_eq, not_true_eq_false]
    by_cases hq : h.queue = []
    · obtain ⟨hz, hend, hm, hrun, hmap, hctx⟩ := hk.block_first hoh hw hq hpl' (hblocked hq) hb
      rw [if_neg (not_not.2 hz)]
      cases fails with
      | nil => exact ⟨fun _ => ⟨fun _ => by simp, by simp⟩, fun _ => hend⟩
      | cons f fails =>
        -- the store fails, and the thread has been moved
        obtain ⟨hm', hword, hrun', hmap', hctx'⟩ := hm.store hk.aligned hk.low (lockWord f)
        rw [hrun] at hrun'
        rw [hmap] at hmap'
        rw [List.map_cons, finalLock, Handover.queue_some, if_pos hq]
        have hown : ∀ g ∈ f :: fails, ∀ p, g.owner = some p →
            p ∈ (k'.store64 a (lockWord f)).contexts ∧ p ≠ k.runnable := by
          rintro g hg p hp
          obtain ⟨hr, hne⟩ := (ho g (List.mem_cons_of_mem _ hg)).owner p hp
          rw [hctx', hctx]
          exact ⟨hr.mem, hne⟩
        have hloop := hm'.loop_iff hk.aligned hk.low fails hword hown
        rw [hrun', hmap'] at hloop
        exact hloop.trans ⟨fun hall => ⟨fun _ => hall, by simp⟩, fun hs => hs.1 hq⟩
    · have hbehind := hk.block_behind hoh hw hq hb
      rw [if_pos (mt (hoh.nobody_iff hk).1 hq), finalLock_waits hq, steady_held]
      exact ⟨fun _ => ⟨fun hnil => absurd hnil hq, by simp⟩, fun _ => hbehind⟩

/-- And from any load. -/
theorem Asking.loop_iff (hk : Asking k a rs) (fails : List (Handover ℕ))
    (hw : k.user k.loadedMap a = lockWord l) (ho : ∀ f ∈ l :: fails, Others k a rs f) :
    EndsAs k.runnable k.loadedMap a rs (finalLock l fails)
        (waitLoop k.runnable a (threadCode k.runnable) (fails.map lockWord) k k.runnable) ↔
      Steady l fails ∧ ((∃ f ∈ l :: fails, f ≠ none) → rs ≠ []) := by
  induction fails generalizing k l with
  | nil =>
    cases l with
    | none =>
      have hload : k.load64 a = 0 := hk.load64.trans hw
      have htake := hk.take
      unfold waitLoop
      simp only [List.map_nil, hload, if_true, finalLock]
      exact ⟨fun _ => ⟨trivial, by simp⟩, fun _ => htake⟩
    | some h => simpa using hk.held_iff [] hw ho
  | cons f fails ih =>
    cases l with
    | none =>
      -- the store fails, and nothing has been moved
      have hload : k.load64 a = 0 := hk.load64.trans hw
      have hstep := ih (hk.store (lockWord f)) (hk.store_word _) fun g hg =>
        (ho g (List.mem_cons_of_mem _ hg)).store hk (lockWord f)
      obtain ⟨hrun, hmap⟩ := hk.store_runnable (lockWord f)
      rw [hrun, hmap] at hstep
      unfold waitLoop
      simp only [List.map_cons, hload, if_true, finalLock, Handover.queue_none]
      rw [hstep, Steady]
      simp
    | some h => simpa using hk.held_iff (f :: fails) hw ho

/-- The call ends as it would have without failures on the lock that its last load finds,
when no load finds the lock held after the thread has been moved, and there is another
thread to run if it has to be. -/
theorem retrying_iff {fails : List (Handover ℕ)} (hk : Asking k a rs)
    (hwrite : ∃ k₁, addressIsUserWritable k k.runnable a = .ok k₁ true)
    (hw : k.user k.loadedMap a = lockWord l) (ho : ∀ f ∈ l :: fails, Others k a rs f) :
    EndsAs k.runnable k.loadedMap a rs (finalLock l fails)
        (waitForLockRetrying k k.runnable (fails.map lockWord)) ↔
      Steady l fails ∧ ((∃ f ∈ l :: fails, f ≠ none) → rs ≠ []) := by
  obtain ⟨k₁, hok⟩ := hwrite
  obtain ⟨-, l1, l2, l3, hk₁⟩ := addressIsUserWritable_ok hok
  -- a fault may have filled in the tables
  have hreg : ∀ p ∈ k.contexts, ∀ i, k₁.reg p i = k.reg p i := by
    intro p hp i
    subst hk₁
    exact (fld_of_mem (k := { k with l1 := l1, l2 := l2, l3 := l3 }) hp _).trans
      (fld_of_mem hp _).symm
  have hasking : Asking k₁ a rs := by
    have h17 := (hreg _ hk.mem 17).trans hk.x17
    have h18 := (hreg _ hk.mem 18).trans hk.x18
    subst hk₁
    exact ⟨hk.placed.congr rfl rfl,
      ⟨hk.running.ring, hk.running.nodup, hk.running.mem, hk.running.owners⟩, hk.aligned, hk.low,
      h17, h18⟩
  have hothers : ∀ f ∈ l :: fails, Others k₁ a rs f := by
    intro f hf
    have h := ho f hf
    have hsame : ∀ p ∈ f.queue, k₁.reg p 17 = a := fun p hp =>
      (hreg p (h.waiters.mem p hp) 17).trans (h.sameLock p hp)
    subst hk₁
    refine ⟨fun p hp => ?_, ?_, h.apart, hsame⟩
    · obtain ⟨hr, hne⟩ := h.owner p hp
      exact ⟨⟨hr.mem, hr.next, hr.prev, hr.nextPrev, hr.prevNext⟩, hne⟩
    · exact h.waiters.congr (fun _ hp => hp) rfl fun _ _ _ _ => rfl
  have hcode := hk.placed.threadFromCode_threadCode hk.mem
  have hloop := hasking.loop_iff fails (by rw [hk₁]; exact hw) hothers
  have hrun : k₁.runnable = k.runnable := by rw [hk₁]
  have hmap : k₁.loadedMap = k.loadedMap := by rw [hk₁]
  rw [hrun, hmap] at hloop
  unfold waitForLockRetrying
  simp only [hk.x17, hk.x18, hok, hcode, hk.aligned, ne_eq, not_true_eq_false, if_false]
  exact hloop

end Results

/-! ## A lock that another thread holds -/

/-- The running thread of `lockThreads` asks for the lock at 4096, which the next one
holds. -/
def contended : Kernel :=
  (enter lockThreads (startAddress + 0x1ffc00) (lockRegs 0x1ffc00)).store64 4096 0x1ffa00

def contendedLock : Handover ℕ := some ⟨startAddress + 0x1ffa00, []⟩

theorem contended_asking :
    Asking contended 4096 [startAddress + 0x1ffa00, startAddress + 0x1ffe00] := by
  constructor
  · exact ⟨by decide +kernel, by decide +kernel, by decide +kernel, by decide +kernel,
      by decide +kernel⟩
  · constructor
    · refine List.isChain_cons_cons.2 ⟨⟨by decide +kernel, by decide +kernel⟩, ?_⟩
      refine List.isChain_cons_cons.2 ⟨⟨by decide +kernel, by decide +kernel⟩, ?_⟩
      exact List.isChain_cons_cons.2 ⟨⟨by decide +kernel, by decide +kernel⟩, .singleton _⟩
    · decide +kernel
    · decide +kernel
    · have hnone : ∀ p ∈ contended.runnable :: [startAddress + 0x1ffa00, startAddress + 0x1ffe00],
          contended.ctx p 2 = 0 := by decide +kernel
      exact fun p hp => .inl (hnone p hp)
  · decide
  · decide
  · decide +kernel
  · decide +kernel

theorem contended_others : Others contended 4096
    [startAddress + 0x1ffa00, startAddress + 0x1ffe00] contendedLock := by
  constructor
  · rintro p ⟨⟩
    exact ⟨onRing_of_ring contended_asking.running.ring contended_asking.running.mem
      (by decide +kernel), by decide +kernel⟩
  · exact ⟨by simp [contendedLock], by simp [contendedLock], by simp [contendedLock],
      by simp [contendedLock]⟩
  · simp [contendedLock]
  · simp [contendedLock]

theorem free_others : Others contended 4096
    [startAddress + 0x1ffa00, startAddress + 0x1ffe00] none :=
  ⟨by simp, ⟨by simp, by simp, by simp, by simp⟩, by simp, by simp⟩

theorem contended_writable :
    ∃ k₁, addressIsUserWritable contended contended.runnable 4096 = .ok k₁ true := by
  have hw : userWritable contended 4096 = true := by decide +kernel
  exact ⟨contended, by rw [addressIsUserWritable, if_pos hw]⟩

/-- The store fails because the owner has freed the lock. -/
theorem retrying_iff_freed : EndsAs contended.runnable contended.loadedMap 4096
    [startAddress + 0x1ffa00, startAddress + 0x1ffe00] none
    (waitForLockRetrying contended contended.runnable [0]) := by
  have hothers : ∀ f ∈ contendedLock :: [none],
      Others contended 4096 [startAddress + 0x1ffa00, startAddress + 0x1ffe00] f := by
    intro f hf
    rcases List.mem_cons.1 hf with rfl | hf
    · exact contended_others
    · rw [List.mem_singleton.1 hf]
      exact free_others
  refine (retrying_iff contended_asking contended_writable (by decide +kernel) hothers).2
    ⟨?_, by simp⟩
  simp [contendedLock, Steady]

/-- The store fails for no reason, and the next load finds the lock held as it was. -/
theorem retrying_halts : ¬ ∀ k a rs l fails, Asking k a rs →
    (∃ k₁, addressIsUserWritable k k.runnable a = .ok k₁ true) →
    k.user k.loadedMap a = lockWord l → (∀ f ∈ l :: fails, Others k a rs f) → rs ≠ [] →
    EndsAs k.runnable k.loadedMap a rs (finalLock l fails)
      (waitForLockRetrying k k.runnable (fails.map lockWord)) := by
  intro h
  have hothers : ∀ f ∈ contendedLock :: [contendedLock],
      Others contended 4096 [startAddress + 0x1ffa00, startAddress + 0x1ffe00] f := by
    intro f hf
    have heq : f = contendedLock := by simpa using hf
    rw [heq]
    exact contended_others
  obtain ⟨k', now, rs', hok, -⟩ := h contended 4096 _ contendedLock [contendedLock]
    contended_asking contended_writable (by decide +kernel) hothers (by simp)
  have hhalts : (waitForLockRetrying contended contended.runnable
      ([contendedLock].map lockWord)).isOk = false := by decide +kernel
  rw [hok] at hhalts
  cases hhalts

end Isambard.El1
