import Isambard.El1.Retries
import Isambard.El1.GateCalls

/-!
# El1.LockCalls — the locks and the scheduler's lists

A call for a lock moves the calling thread to those that wait, or the first of those to the
runnable ones. Gates and timeouts are as they were.

* `SchedInv.relink`: calls that change nothing but links;
* `blockOnLock_sched`, `passLock_sched`: the moves;
* `handleSvcWaitForLock_sched`, `handleSvcReleaseLock_sched`: the handlers.
-/

namespace Isambard.El1

open Isambard.Lib

/-! ## Calls that change links -/

section Relink

variable {k k' : Kernel} {rs rs' qs : List ℕ} {rem : ℕ → ℕ} {j : ℕ} {O P : ℕ → Prop}

/-- The words of the contexts behind the links. -/
structure Relinked (k k' : Kernel) : Prop where
  frame : Frame k k'
  blockedWithTimeout : k'.blockedWithTimeout = k.blockedWithTimeout
  words : ∀ p w, 3 ≤ w → k'.ctx p w = k.ctx p w
  owners : ∀ p ∈ k.contexts, OwnerOk k (k'.ctx p 2)

theorem GateInv.relink (h : GateInv k rs qs rem) (hk : Relinked k k') (hr : Running k' rs')
    (hawake : ∀ p ∈ k'.runnable :: rs', k.ctx p 38 ≠ threadWaiting) : GateInv k' rs' qs rem := by
  have hc := hk.frame.contexts
  have h5 : (fun p => k'.ctx p 5) = fun p => k.ctx p 5 := funext fun p => hk.words p 5 (by decide)
  have h38 : ∀ p, k'.ctx p 38 = k.ctx p 38 := fun p => hk.words p 38 (by decide)
  refine ⟨hk.frame.placed h.placed, ?_, hr.ring, hr.nodup, hr.mem, ?_, ?_, h.queueNodup, ?_, ?_, ?_,
    ?_, h.bound, ?_⟩
  · rw [hc]
    exact fun p hp => hk.frame.ownerOk (hk.owners p hp)
  · intro p hp
    rw [h38]
    exact hawake p hp
  · obtain ⟨a, ha⟩ := h.queue
    refine ⟨a, hk.frame.qseg hk.blockedWithTimeout (fun p _ => ⟨?_, ?_⟩) ha⟩
    · exact hk.words p 20 (by decide)
    · exact hk.words p 21 (by decide)
  · intro p hp
    rw [hc, h38]
    exact h.waiting p hp
  · intro p hp hw
    rw [hc] at hp
    rw [h38] at hw
    rw [hk.words p 20 (by decide)]
    exact h.queued p hp hw
  · rw [h5]
    exact h.sums
  · intro p hp
    rw [hk.words p 5 (by decide)]
    exact h.first p hp
  · rw [hc]
    intro p hp
    rw [h38]
    exact h.gates p hp

theorem Relinked.threads (hk : Relinked k k') : KeepsThreads k k' :=
  ⟨hk.frame.contexts, hk.frame.heapBottom, hk.frame.interruptThread,
    fun p => hk.words p 3 (by decide), fun p w hw => hk.words p w (by omega)⟩

/-- A call that changes links: no thread but `j` ceases to be idle. A thread that is idle now
belongs to another core, is the interrupt thread or has a partner. -/
theorem SchedInv.relink (h : SchedInv O k rs qs rem) (hk : Relinked k k') (hl : Links k' rs' 0)
    (hawake : ∀ p ∈ k'.runnable :: rs', k.ctx p 38 ≠ threadWaiting)
    (hwait : ∀ p ∈ k.contexts, k.ctx p 38 = threadWaiting → ¬ OnLock k' p)
    (hidle : ∀ p ∈ k.contexts, Idle k rs p →
      p = j ∨ p ∉ k'.runnable :: rs' ∧ ¬ OnLock k' p)
    (hj : j ∈ k.contexts → k.ctx j 3 ≠ 0 → Idle k' rs' (k.ctx j 3))
    (hint : k.interruptThread ≠ 0 →
      (k'.runnable = k.interruptThread ∨ Idle k' rs' k.interruptThread) ∧
        (k.ctx k.interruptThread 3 ≠ 0 → Idle k' rs' (k.ctx k.interruptThread 3)))
    (hnew : ∀ p ∈ k.contexts, Idle k' rs' p → P p ∨ p = k.interruptThread ∨ k.ctx p 3 ≠ 0) :
    SchedInv P k' rs' qs rem := by
  have h38 : ∀ p, k'.ctx p 38 = k.ctx p 38 := fun p => hk.words p 38 (by decide)
  refine h.moved hk.threads (h.gate.relink hk hl.running hawake) hl ?_ ?_ hj hint hnew
  · intro p hp hw
    rw [h38] at hw
    exact hwait p hp hw
  · intro p hp hid
    refine (hidle p hp hid).imp_right fun hn => ⟨hn.1, hn.2, ?_⟩
    rw [h38]
    exact hid.gate

/-- All the idle threads stay idle, and no other one is idle then. -/
theorem SchedInv.relink_idle (h : SchedInv O k rs qs rem) (hk : Relinked k k') (hl : Links k' rs' 0)
    (hi : k.runnable ≠ k.interruptThread)
    (hawake : ∀ p ∈ k'.runnable :: rs', k.ctx p 38 ≠ threadWaiting)
    (hwait : ∀ p ∈ k.contexts, k.ctx p 38 = threadWaiting → ¬ OnLock k' p)
    (hidle : ∀ p, Idle k rs p → p ∉ k'.runnable :: rs' ∧ ¬ OnLock k' p)
    (hback : ∀ p, Idle k' rs' p → p ∉ k.runnable :: rs ∧ ¬ OnLock k p) :
    SchedInv O k' rs' qs rem := by
  have hid : ∀ p, Idle k rs p → Idle k' rs' p := by
    intro p hp
    refine ⟨(hidle p hp).1, (hidle p hp).2, ?_⟩
    rw [hk.words p 38 (by decide)]
    exact hp.gate
  refine h.relink (j := 0) hk hl hawake hwait (fun p _ hp => .inr (hidle p hp)) ?_ ?_ ?_
  · exact fun h0 => absurd h0 h.heap.zero_notMem
  · intro hi0
    obtain ⟨-, hruns, hpart⟩ := h.interrupt hi0
    exact ⟨.inr (hid _ (hruns.resolve_left hi)), fun hne => hid _ (hpart hne)⟩
  · intro p hp hp'
    obtain ⟨hout, hlock⟩ := hback p hp'
    refine h.idle p hp ⟨hout, hlock, ?_⟩
    rw [← hk.words p 38 (by decide)]
    exact hp'.gate

/-- The kernel's other words. -/
theorem KeepsLists.of_ctx (hl : k'.layout = k.layout) (hc : k'.contexts = k.contexts)
    (hb : k'.heapBottom = k.heapBottom) (hi : k'.interruptThread = k.interruptThread)
    (hr : k'.runnable = k.runnable) (hw : k'.blockedWithTimeout = k.blockedWithTimeout)
    (hctx : k'.ctx = k.ctx) : KeepsLists k k' := by
  refine ⟨hl, hc, hb, hi, hr, hw, ?_, ?_, ?_, ?_⟩
  · exact fun p w _ => by rw [hctx]
  · exact fun p => .inl (by rw [hctx])
  · rw [hctx]
    exact fun p _ _ => ⟨rfl, rfl, rfl⟩
  · rw [hctx]
    exact fun p _ hs => hs

end Relink

/-! ## The moves -/

section Moves

variable {k k' : Kernel} {rs qs : List ℕ} {rem : ℕ → ℕ} {v c x now f : ℕ} {O : ℕ → Prop}

/-- The first thread that waits, by the code in a lock word: it waits for the lock that the
calling thread asks for. -/
def LockNames (k : Kernel) (t c : ℕ) : Prop :=
  c ≠ 0 → threadFromCode c ∈ k.contexts ∧ OnLock k (threadFromCode c) ∧
    lockOf k.ctx t = lockOf k.ctx (threadFromCode c)

theorem SchedInv.ownerOk (h : SchedInv O k rs qs rem) {p : ℕ} (hp : p ∈ k.contexts) :
    OwnerOk k (k.ctx p 2) := h.gate.owners p hp

/-- The running thread gives up the processor, and waits for a lock. -/
theorem SchedInv.toWaiters (h : SchedInv O k (x :: rs) qs rem) (hi : k.runnable ≠ k.interruptThread)
    (hf : Frame k k') (hw : k'.blockedWithTimeout = k.blockedWithTimeout)
    (hl : Links k' rs 0) (hrun : k'.runnable = x)
    (hwords : ∀ p w, 3 ≤ w → k'.ctx p w = k.ctx p w)
    (hlist : ∀ p, k'.ctx p 2 = if p = k.runnable then k.layout.blocked else k.ctx p 2) :
    SchedInv O k' rs qs rem := by
  have hon : ∀ p, p ≠ k.runnable → (OnLock k' p ↔ OnLock k p) := by
    intro p hp
    unfold OnLock
    rw [hlist, if_neg hp, hf.layout]
  refine h.relink_idle ⟨hf, hw, hwords, ?_⟩ hl hi ?_ ?_ ?_ ?_
  · intro p hp
    rw [hlist]
    split
    · exact .inr (.inr rfl)
    · exact h.ownerOk hp
  · rw [hrun]
    exact fun p hp => h.gate.awake p (List.mem_cons_of_mem _ hp)
  · intro p hp hwait hlk
    have hpt : p ≠ k.runnable :=
      fun heq => h.gate.awake _ List.mem_cons_self (heq ▸ hwait)
    exact h.waiting p hp hwait ((hon p hpt).1 hlk)
  · intro p hid
    refine ⟨?_, fun hlk => hid.lock ((hon p hid.ne_runnable).1 hlk)⟩
    rw [hrun]
    exact fun hp => hid.out (List.mem_cons_of_mem _ hp)
  · intro p hid
    have hpt : p ≠ k.runnable := by
      rintro rfl
      refine hid.lock ?_
      unfold OnLock
      rw [hlist, if_pos rfl, hf.layout]
    refine ⟨fun hp => hid.out ?_, fun hlk => hid.lock ((hon p hpt).2 hlk)⟩
    rw [hrun]
    exact (List.mem_cons.1 hp).resolve_left hpt

/-- A thread that waits for a lock becomes the running one. -/
theorem SchedInv.fromWaiters (h : SchedInv O k rs qs rem) (hi : k.runnable ≠ k.interruptThread)
    (hlk : OnLock k f) (hfm : f ∈ k.contexts) (hf : Frame k k')
    (hw : k'.blockedWithTimeout = k.blockedWithTimeout)
    (hl : Links k' (k.runnable :: rs) 0) (hrun : k'.runnable = f)
    (hwords : ∀ p w, 3 ≤ w → k'.ctx p w = k.ctx p w)
    (hlist : ∀ p, k'.ctx p 2 = if p = f then k.ctx k.runnable 2 else k.ctx p 2) :
    SchedInv O k' (k.runnable :: rs) qs rem := by
  have hon : ∀ p, p ≠ f → (OnLock k' p ↔ OnLock k p) := by
    intro p hp
    unfold OnLock
    rw [hlist, if_neg hp, hf.layout]
  have hnf : ¬ OnLock k' f := by
    unfold OnLock
    rw [hlist, if_pos rfl, hf.layout]
    exact h.links.free _ List.mem_cons_self
  refine h.relink_idle ⟨hf, hw, hwords, ?_⟩ hl hi ?_ ?_ ?_ ?_
  · intro p hp
    rw [hlist]
    split
    · exact h.ownerOk h.mem
    · exact h.ownerOk hp
  · rw [hrun]
    intro p hp
    rcases List.mem_cons.1 hp with rfl | hp
    · exact fun hwait => h.waiting p hfm hwait hlk
    · exact h.gate.awake p hp
  · intro p hp hwait hlk'
    by_cases hpf : p = f
    · exact hnf (hpf ▸ hlk')
    · exact h.waiting p hp hwait ((hon p hpf).1 hlk')
  · intro p hid
    have hpf : p ≠ f := fun heq => hid.lock (heq ▸ hlk)
    refine ⟨?_, fun hlk' => hid.lock ((hon p hpf).1 hlk')⟩
    rw [hrun]
    exact fun hp => hid.out ((List.mem_cons.1 hp).resolve_left hpf)
  · intro p hid
    have hpf : p ≠ f := fun heq => hid.out (hrun ▸ heq ▸ List.mem_cons_self)
    exact ⟨fun hp => hid.out (List.mem_cons_of_mem _ hp), fun hlk' => hid.lock ((hon p hpf).2 hlk')⟩

/-- The calling thread waits for the lock, as the first or behind the others. -/
theorem blockOnLock_sched (h : SchedInv O k rs qs rem) (hi : k.runnable ≠ k.interruptThread)
    (hlow : k.ctx k.runnable 21 < 2 ^ 34)
    (hnames : LockNames k k.runnable (v / 2 ^ 32))
    (hok : blockOnLock k k.runnable v = .ok k' now) : Scheduled O k k' now := by
  have hpl := h.gate.placed
  have hmem := h.mem
  have h17 : k.reg k.runnable 17 = k.ctx k.runnable 21 := fld_of_mem hmem 21
  unfold blockOnLock at hok
  simp only [h17] at hok
  split at hok
  · cases hok
  split at hok
  · cases hok
  split at hok
  · cases hok
  rename_i hne
  cases rs with
  | nil => exact absurd ((fld_of_mem hmem 0).trans (ring_nil.1 h.gate.ring).1) hne
  | cons x rs =>
    obtain ⟨hnext, hxt, b, u, -, hrem⟩ := h.links.running.leftTo hpl
    rw [hnext, hrem] at hok
    have hleave := fun b u => h.links.leave hpl b u
    have hpl₁ : ∀ b u, Placed (leftTo k x b u) := fun b u => (leftTo_frame k x b u).placed hpl
    have hword₁ : ∀ b u p w, 2 ≤ w → (leftTo k x b u).ctx p w = k.ctx p w :=
      fun b u p w hw => unlink_other hw
    split at hok
    · -- nobody waits for it
      set c := setCtx (setCtx (setCtx (leftTo k x 0 u).ctx k.runnable 0 k.runnable) k.runnable 1
        k.runnable) k.runnable 2 k.layout.blocked with hc
      have hpl₂ : Placed { leftTo k x 0 u with ctx := c, blocked := k.runnable } :=
        (hpl₁ 0 u).congr rfl rfl
      have hput := fun u' => (hleave 0 u).putFirst (hpl₁ 0 u) hmem k.runnable u'
      have hins : insertThreadAsHead (leftTo k x 0 u) k.layout.blocked k.runnable =
          { leftTo k x 0 u with ctx := c, blocked := k.runnable } :=
        insertThreadAsHead_blocked_empty (hpl₁ 0 u) hmem rfl
      change Outcome.ok ((insertThreadAsHead (leftTo k x 0 u) k.layout.blocked
        k.runnable).store64 (k.ctx k.runnable 21) _) x = .ok k' now at hok
      obtain ⟨u', hu'⟩ := hpl₂.store64_low hlow
        (v % 2 ^ 32 + k.reg k.runnable 18 % 2 ^ 32 * 2 ^ 32)
      rw [hins, hu'] at hok
      cases hok
      have hhigh : ∀ p w, 3 ≤ w → c p w = k.ctx p w := by
        intro p w hw
        rw [hc, setCtx_apply, if_neg (by omega), setCtx_apply, if_neg (by omega), setCtx_apply,
          if_neg (by omega)]
        exact hword₁ 0 u p w (by omega)
      refine ⟨⟨rs, qs, rem, h.toWaiters hi (Frame.sched k c now k.blockedWithTimeout k.runnable _)
        rfl (hput _) rfl hhigh ?_⟩, rfl, SameDomains.sched k now _ _ k.interruptThread _ ?_⟩
      · intro p
        show c p 2 = _
        rw [hc, setCtx_apply]
        by_cases hp : p = k.runnable
        · rw [if_pos ⟨hp, rfl⟩, if_pos hp]
        · rw [if_neg (by simp [hp]), if_neg hp, setCtx_apply, if_neg (by omega), setCtx_apply,
            if_neg (by omega)]
          exact hword₁ 0 u p 2 (by decide)
      · exact fun p w hw => hhigh p w (by omega)
    · -- it waits behind the others
      rename_i hc0
      obtain ⟨hfm, hflk, hsame⟩ := hnames hc0
      generalize threadFromCode (v / 2 ^ 32) = f at hok hfm hflk hsame
      split at hok
      · cases hok
      have htf : k.runnable ≠ f :=
        fun heq => h.links.free _ List.mem_cons_self (heq ▸ hflk)
      have hflk₁ : OnLock (leftTo k x f u) f := (onLock_unlink _ _).2 hflk
      obtain ⟨hring, -, -⟩ := (hleave f u).locks f hfm htf.symm hflk₁
      have hins : insertThreadAtTail (leftTo k x f u) k.layout.blocked k.runnable =
          { leftTo k x f u with ctx := linkBefore (leftTo k x f u).ctx k.runnable f } :=
        insertThreadAtTail_blocked (hpl₁ f u) hmem hfm hring.ring.prev htf
      have hput := (hleave f u).putWaiter (hpl₁ f u) hmem hfm htf hflk₁
        (by
          show lockOf (unlink k.ctx k.runnable) k.runnable = lockOf (unlink k.ctx k.runnable) f
          rw [lockOf_unlink, lockOf_unlink]
          exact hsame) f u
      change Outcome.ok (insertThreadAtTail (leftTo k x f u) k.layout.blocked k.runnable) x =
        .ok k' now at hok
      rw [hins] at hok
      cases hok
      have hhigh : ∀ p w, 3 ≤ w → linkBefore (leftTo k now f u).ctx k.runnable f p w = k.ctx p w :=
        fun p w hw => (linkBefore_other hw).trans (hword₁ f u p w (by omega))
      refine ⟨⟨rs, qs, rem, h.toWaiters hi (Frame.sched k _ now k.blockedWithTimeout f _)
        rfl hput rfl hhigh ?_⟩, rfl, SameDomains.sched k now _ _ k.interruptThread _ ?_⟩
      · intro p
        show linkBefore (leftTo k now f u).ctx k.runnable f p 2 = _
        rw [linkBefore_list htf]
        split
        · exact hflk₁
        · exact hword₁ f u p 2 (by decide)
      · exact fun p w hw => hhigh p w (by omega)

/-- The lock goes to the first of the threads that wait, which runs. -/
theorem passLock_sched (h : SchedInv O k rs qs rem) (hi : k.runnable ≠ k.interruptThread) {a : ℕ}
    (hlow : a < 2 ^ 34) (hfm : threadFromCode c ∈ k.contexts)
    (hflk : OnLock k (threadFromCode c))
    (hok : passLock k a c = .ok k' now) : Scheduled O k k' now := by
  have hpl := h.gate.placed
  have hmem := h.mem
  unfold passLock at hok
  split at hok
  · cases hok
  generalize threadFromCode c = f at hok hfm hflk
  have hnext : k.next f = k.ctx f 0 := fld_of_mem hfm 0
  have hring := h.links.locks_zero hpl hfm hflk
  have hne : f ≠ k.runnable := fun heq => h.links.free _ List.mem_cons_self (heq ▸ hflk)
  simp only [hnext] at hok
  -- the words when it is the running thread, whether it was alone or not
  have hwords : ∀ p w, 3 ≤ w → linkBefore (unlink k.ctx f) f k.runnable p w = k.ctx p w :=
    fun p w hw => (linkBefore_other hw).trans (unlink_other (by omega))
  have hlist : ∀ p, linkBefore (unlink k.ctx f) f k.runnable p 2 =
      if p = f then k.ctx k.runnable 2 else k.ctx p 2 := by
    intro p
    rw [linkBefore_list hne, unlink_other (by decide), unlink_other (by decide)]
  have hput : ∀ b u, Links { k with
      ctx := linkBefore (unlink k.ctx f) f k.runnable, runnable := f, blocked := b, user := u }
      (k.runnable :: rs) 0 := by
    intro b u
    have htake := h.links.takeWaiter hpl hfm hflk b
    exact htake.put (hpl.congr rfl rfl) hfm b u
  have hsched : ∀ b u, Scheduled O k { k with
      ctx := linkBefore (unlink k.ctx f) f k.runnable, runnable := f, blocked := b, user := u }
      f := by
    intro b u
    refine ⟨⟨k.runnable :: rs, qs, rem, h.fromWaiters hi hflk hfm
      (Frame.sched k _ f k.blockedWithTimeout b u) rfl (hput b u) rfl hwords hlist⟩, rfl,
      SameDomains.sched k f _ b k.interruptThread u ?_⟩
    exact fun p w hw => hwords p w (by omega)
  have hprev : ∀ b, (unlink k.ctx f) k.runnable 1 ∈
      ({ k with ctx := unlink k.ctx f, blocked := b } : Kernel).contexts := by
    intro b
    have htake := (h.links.takeWaiter hpl hfm hflk b).running
    exact htake.mem _ (ring_closed htake.ring _ List.mem_cons_self).2
  split at hok
  · -- it is alone in its list, and is not taken out of that
    rename_i hself
    have hself' : k.ctx f 1 = f := by
      have hback := hring.ring.nextPrev
      rwa [← hself] at hback
    have hunlink : unlink k.ctx f = k.ctx := unlink_alone hself.symm hself'
    have hprev' : k.ctx k.runnable 1 ∈ k.contexts := by
      have := hprev 0
      rwa [hunlink] at this
    have hins : insertThreadAsHead k (runnableAddress k) f =
        { k with ctx := linkBefore k.ctx f k.runnable, runnable := f } :=
      insertThreadAsHead_runnable hpl hfm hmem hprev' hne
    have hpl₂ : Placed { k with ctx := linkBefore k.ctx f k.runnable, runnable := f } :=
      hpl.congr rfl rfl
    obtain ⟨u, hu⟩ := hpl₂.store64_low hlow c
    rw [hins, hu] at hok
    cases hok
    have := hsched k.blocked u
    rw [hunlink] at this
    exact this
  · rename_i hself
    have hb : k.ctx f 0 ≠ f := fun heq => hself heq.symm
    have hrem : removeThread { k with blocked := k.ctx f 0 } f =
        { k with ctx := unlink k.ctx f, blocked := k.ctx f 0 } :=
      removeThread_waiter (k := { k with blocked := k.ctx f 0 }) (hpl.congr rfl rfl) hfm
        hring.ring.next hring.ring.prev hflk hb
    rw [hrem] at hok
    set k₂ : Kernel := { k with ctx := unlink k.ctx f, blocked := k.ctx f 0 } with hk₂
    have hins : insertThreadAsHead k₂ (runnableAddress k₂) f =
        { k₂ with ctx := linkBefore k₂.ctx f k.runnable, runnable := f } :=
      insertThreadAsHead_runnable (hpl.congr rfl rfl) hfm hmem (hprev (k.ctx f 0)) hne
    have hpl₃ : Placed { k₂ with ctx := linkBefore k₂.ctx f k.runnable, runnable := f } :=
      hpl.congr rfl rfl
    obtain ⟨u, hu⟩ := hpl₃.store64_low hlow (c + threadCode k₂.blocked * 2 ^ 32)
    change Outcome.ok ((insertThreadAsHead k₂ (runnableAddress k₂) f).store64 a
      (c + threadCode k₂.blocked * 2 ^ 32)) f = .ok k' now at hok
    rw [hins, hu] at hok
    cases hok
    exact hsched (k.ctx now 0) u

end Moves

/-! ## The handlers -/

section Handlers

variable {k k' k₁ : Kernel} {rs qs : List ℕ} {rem : ℕ → ℕ} {v now : ℕ} {O : ℕ → Prop}

/-- The tables that a fault fills in. -/
theorem SchedInv.tables (h : SchedInv O k rs qs rem) (l1 l2 l3 : ℕ → ℕ) :
    SchedInv O { k with l1 := l1, l2 := l2, l3 := l3 } rs qs rem :=
  h.congr (.of_ctx rfl rfl rfl rfl rfl rfl rfl)

theorem Scheduled.tables {l1 l2 l3 : ℕ → ℕ}
    (h : Scheduled O { k with l1 := l1, l2 := l2, l3 := l3 } k' now) : Scheduled O k k' now :=
  ⟨h.inv, h.runnable, ⟨h.same.contexts, h.same.rows, h.same.interfaces, h.same.freeInterface,
    h.same.loadedMap⟩⟩

/-- A lock word is in the memory of the maps. -/
theorem SchedInv.storeLow (h : SchedInv O k rs qs rem) {a : ℕ} (ha : a < 2 ^ 34) (v : ℕ) :
    Scheduled O k (k.store64 a v) k.runnable := by
  obtain ⟨u, hu⟩ := h.gate.placed.store64_low ha v
  rw [hu]
  exact h.scheduled (.of_ctx rfl rfl rfl rfl rfl rfl rfl)
    (SameDomains.sched k _ _ _ _ u fun _ _ _ => rfl)

/-- What a lock word has to say, for a wait or a release of its lock: the first thread that
waits, if it names one. The interrupt thread neither waits nor lets another thread run. -/
structure LockOk (k : Kernel) : Prop where
  names : LockNames k k.runnable (k.load64 (k.ctx k.runnable 21) / 2 ^ 32)
  interrupt : k.runnable = k.interruptThread →
    k.load64 (k.ctx k.runnable 21) = 0 ∨ k.load64 (k.ctx k.runnable 21) = k.ctx k.runnable 22

theorem handleSvcWaitForLock_sched (h : SchedInv O k rs qs rem) (hlock : LockOk k)
    (hok : handleSvcWaitForLock k k.runnable = .ok k' now) : Scheduled O k k' now := by
  have hpl := h.gate.placed
  have h17 : k.reg k.runnable 17 = k.ctx k.runnable 21 := fld_of_mem h.mem 21
  have h18 : k.reg k.runnable 18 = k.ctx k.runnable 22 := fld_of_mem h.mem 22
  obtain ⟨k₁, v, hword, -, hcase⟩ := waitForLock_cases hok
  have hv := hword.load64 hpl
  obtain ⟨hlow, l1, l2, l3, hk₁⟩ := addressIsUserWritable_ok hword.writable
  have hinv := h.tables l1 l2 l3
  rw [h17] at hv
  obtain ⟨hnames, hint⟩ := hlock
  rw [hv] at hnames hint
  rw [h18] at hcase
  rcases hcase with ⟨-, rfl, rfl⟩ | ⟨-, -, rfl, rfl⟩ | ⟨hv0, hvt, hblock⟩
  · subst hk₁
    exact (hinv.storeLow hlow _).tables
  · subst hk₁
    exact h.scheduled (.of_ctx rfl rfl rfl rfl rfl rfl rfl)
      ⟨rfl, fun _ _ _ => rfl, rfl, rfl, rfl⟩
  · subst hk₁
    have hi : k.runnable ≠ k.interruptThread := by
      intro heq
      rcases hint heq with hz | hz
      · exact hv0 hz
      · exact hvt hz
    rw [h17] at hlow
    exact (blockOnLock_sched hinv hi hlow hnames hblock).tables

/-- The lock word when others wait for it. -/
def NobodyWaits (k : Kernel) : Prop := k.load64 (k.ctx k.runnable 21) / 2 ^ 32 = 0

theorem handleSvcReleaseLock_sched (h : SchedInv O k rs qs rem)
    (hnames : LockNames k k.runnable (k.load64 (k.ctx k.runnable 21) / 2 ^ 32))
    (hint : k.runnable = k.interruptThread → NobodyWaits k)
    (hok : handleSvcReleaseLock k k.runnable = .ok k' now) : Scheduled O k k' now := by
  have hpl := h.gate.placed
  have h17 : k.reg k.runnable 17 = k.ctx k.runnable 21 := fld_of_mem h.mem 21
  obtain ⟨k₁, v, hword, -, -, -, hcase⟩ := releaseLock_cases hok
  have hv := hword.load64 hpl
  obtain ⟨hlow, l1, l2, l3, hk₁⟩ := addressIsUserWritable_ok hword.writable
  have hinv := h.tables l1 l2 l3
  rw [h17] at hv hcase hlow
  unfold NobodyWaits at hint
  rw [hv] at hnames hint
  rcases hcase with ⟨-, rfl, rfl⟩ | ⟨hwait, hpass⟩
  · subst hk₁
    exact (hinv.storeLow hlow 0).tables
  · subst hk₁
    have hi : k.runnable ≠ k.interruptThread := fun heq => hwait (hint heq)
    obtain ⟨hfm, hflk, -⟩ := hnames hwait
    exact (passLock_sched hinv hi hlow hfm hflk hpass).tables

end Handlers

end Isambard.El1
