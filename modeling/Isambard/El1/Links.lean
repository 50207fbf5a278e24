import Isambard.El1.Waiters

/-!
# El1.Links — every thread is in one list

A thread that the kernel created is runnable, or it waits for a lock, or it is in a ring of
its own. The handlers take a thread out of one list and put it into another; between the two
it is in hand. So each edit of the links is one of a few moves:

* `Links.leave`, `Links.join`, `Links.put`: the runnable threads;
* `Links.takeWaiter`, `Links.putFirst`, `Links.putWaiter`: the threads that wait for a lock;
* `Links.take`, `Links.park`: a ring of one's own.
-/

namespace Isambard.El1

open Isambard.Lib

/-- The thread waits for a lock: it is owned by the fake list head. -/
def OnLock (k : Kernel) (p : ℕ) : Prop := k.ctx p 2 = k.layout.blocked

instance (k : Kernel) (p : ℕ) : Decidable (OnLock k p) := inferInstanceAs (Decidable (_ = _))

/-- The lock that a thread waits for: the saved `x17`, and the thread's map. -/
def lockOf (c : ℕ → ℕ → ℕ) (p : ℕ) : ℕ × ℕ := (c p 21, field 32 32 (c p 39))

/-- The thread is in the ring of those that wait for the same lock. -/
structure LockRing (k : Kernel) (p : ℕ) : Prop where
  ring : OnRing k p
  next : OnLock k (k.ctx p 0)
  prev : OnLock k (k.ctx p 1)
  same : lockOf k.ctx (k.ctx p 0) = lockOf k.ctx p

/-- The lists of the threads, with `f` in hand: the runnable threads are the running one and
`rs`, and nothing leads to `f`. -/
structure Links (k : Kernel) (rs : List ℕ) (f : ℕ) : Prop where
  running : Running k rs
  hand : f ∉ k.runnable :: rs
  free : ∀ p ∈ k.runnable :: rs, ¬ OnLock k p
  locks : ∀ p ∈ k.contexts, p ≠ f → OnLock k p →
    LockRing k p ∧ k.ctx p 0 ≠ f ∧ k.ctx p 1 ≠ f
  alone : ∀ p ∈ k.contexts, p = f ∨ p ∉ k.runnable :: rs ∧ ¬ OnLock k p →
    k.ctx p 0 = p ∧ k.ctx p 1 = p

/-- What an edit keeps of the threads that wait for locks. -/
structure SameWaiters (k k' : Kernel) (f : ℕ) : Prop where
  contexts : k'.contexts = k.contexts
  onLock : ∀ p ∈ k.contexts, p ≠ f → OnLock k p → OnLock k' p
  links : ∀ p ∈ k.contexts, p ≠ f → OnLock k p → ∀ w, w < 2 → k'.ctx p w = k.ctx p w
  lock : ∀ p ∈ k.contexts, p ≠ f → OnLock k p → lockOf k'.ctx p = lockOf k.ctx p

section Moves

variable {k k' : Kernel} {rs rs' : List ℕ} {f g x p : ℕ}

/-- The ring of a lock is kept, unless it leads to the thread in hand. -/
theorem SameWaiters.lockRing (h : SameWaiters k k' f) (hne : p ≠ f) (hlk : OnLock k p)
    (hr : LockRing k p ∧ k.ctx p 0 ≠ f ∧ k.ctx p 1 ≠ f) :
    LockRing k' p ∧ k'.ctx p 0 ≠ f ∧ k'.ctx p 1 ≠ f := by
  obtain ⟨hring, h0, h1⟩ := hr
  have hp := hring.ring.mem
  have hnext := h.links p hp hne hlk 0 (by decide)
  have hprev := h.links p hp hne hlk 1 (by decide)
  rw [hnext, hprev]
  refine ⟨⟨⟨?_, ?_, ?_, ?_, ?_⟩, ?_, ?_, ?_⟩, h0, h1⟩
  · rw [h.contexts]
    exact hp
  · rw [h.contexts, hnext]
    exact hring.ring.next
  · rw [h.contexts, hprev]
    exact hring.ring.prev
  · rw [hnext, h.links _ hring.ring.next h0 hring.next 1 (by decide)]
    exact hring.ring.nextPrev
  · rw [hprev, h.links _ hring.ring.prev h1 hring.prev 0 (by decide)]
    exact hring.ring.prevNext
  · rw [hnext]
    exact h.onLock _ hring.ring.next h0 hring.next
  · rw [hprev]
    exact h.onLock _ hring.ring.prev h1 hring.prev
  · rw [hnext, h.lock _ hring.ring.next h0 hring.next, h.lock p hp hne hlk]
    exact hring.same

/-- Nothing is in hand when that is no thread. -/
theorem Links.locks_zero (h : Links k rs 0) (hpl : Placed k) (hp : p ∈ k.contexts)
    (hl : OnLock k p) : LockRing k p := (h.locks p hp (hpl.ne_zero hp) hl).1

theorem Placed.zero_notMem (hpl : Placed k) : 0 ∉ k.contexts := fun h => hpl.ne_zero h rfl

theorem LockRing.ne_zero (h : LockRing k p) (h0 : 0 ∉ k.contexts) :
    LockRing k p ∧ k.ctx p 0 ≠ 0 ∧ k.ctx p 1 ≠ 0 :=
  ⟨h, fun heq => h0 (heq ▸ h.ring.next), fun heq => h0 (heq ▸ h.ring.prev)⟩

/-- Words that are no links; a thread may have another owner, but not the fake list head. -/
theorem Links.owned (h : Links k rs f) (hl : k'.layout = k.layout)
    (hc : k'.contexts = k.contexts) (hr : k'.runnable = k.runnable)
    (hw : ∀ p ∈ k.contexts, ∀ w, w < 2 → k'.ctx p w = k.ctx p w)
    (hon : ∀ p ∈ k.contexts, OnLock k' p ↔ OnLock k p)
    (howner : ∀ p ∈ k.runnable :: rs, OwnerOk k (k'.ctx p 2))
    (hlock : ∀ p ∈ k.contexts, OnLock k p → lockOf k'.ctx p = lockOf k.ctx p) :
    Links k' rs f := by
  have hsame : SameWaiters k k' f :=
    ⟨hc, fun p hp _ => (hon p hp).2, fun p hp _ _ w hlt => hw p hp w hlt,
      fun p hp _ => hlock p hp⟩
  have hmem := h.running.mem
  constructor
  · refine ⟨?_, ?_, ?_, ?_⟩
    · rw [hr]
      exact ring_words h.running.ring fun p hp w hlt => hw p (hmem p hp) w hlt
    · rw [hr]
      exact h.running.nodup
    · rw [hr, hc]
      exact hmem
    · rw [hr]
      intro p hp
      have ho := howner p hp
      unfold OwnerOk runnableAddress at *
      rw [hl]
      exact ho
  · rw [hr]
    exact h.hand
  · rw [hr]
    exact fun p hp hlk => h.free p hp ((hon p (hmem p hp)).1 hlk)
  · rw [hc]
    intro p hp hne hlk
    rw [hon p hp] at hlk
    exact hsame.lockRing hne hlk (h.locks p hp hne hlk)
  · rw [hc, hr]
    intro p hp hcase
    rw [hw p hp 0 (by decide), hw p hp 1 (by decide)]
    refine h.alone p hp (hcase.imp_right fun hn => ⟨hn.1, fun hlk => hn.2 ?_⟩)
    exact (hon p hp).2 hlk

/-- Words that are no links. -/
theorem Links.congr (h : Links k rs f) (hl : k'.layout = k.layout)
    (hc : k'.contexts = k.contexts) (hr : k'.runnable = k.runnable)
    (hw : ∀ p ∈ k.contexts, ∀ w, w < 3 → k'.ctx p w = k.ctx p w)
    (hlock : ∀ p ∈ k.contexts, OnLock k p → lockOf k'.ctx p = lockOf k.ctx p) :
    Links k' rs f := by
  refine h.owned hl hc hr (fun p hp w hlt => hw p hp w (by omega)) ?_ ?_ hlock
  · intro p hp
    unfold OnLock
    rw [hw p hp 2 (by decide), hl]
  · intro p hp
    rw [hw p (h.running.mem p hp) 2 (by decide)]
    exact h.running.owners p hp

/-! ## The runnable threads -/

theorem lockOf_unlink (c : ℕ → ℕ → ℕ) (e p : ℕ) : lockOf (unlink c e) p = lockOf c p := by
  unfold lockOf
  rw [unlink_other (by decide), unlink_other (by decide)]

theorem lockOf_linkBefore (c : ℕ → ℕ → ℕ) (n e p : ℕ) :
    lockOf (linkBefore c n e) p = lockOf c p := by
  unfold lockOf
  rw [linkBefore_other (by decide), linkBefore_other (by decide)]

theorem onLock_unlink {b : ℕ} {u : ℕ → ℕ → ℕ} (e p : ℕ) :
    OnLock { k with ctx := unlink k.ctx e, runnable := x, blocked := b, user := u } p ↔
      OnLock k p := by
  show unlink k.ctx e p 2 = k.layout.blocked ↔ _
  rw [unlink_other (by decide)]
  exact Iff.rfl

/-- The thread that leaves a ring is alone. -/
theorem unlink_self (c : ℕ → ℕ → ℕ) (e : ℕ) : unlink c e e 0 = e ∧ unlink c e e 1 = e := by
  constructor
  · simp [unlink]
  · simp [unlink]

/-- The running thread leaves the ring to the next one. -/
theorem Links.leave (h : Links k (x :: rs) 0) (hpl : Placed k) (b : ℕ) (u : ℕ → ℕ → ℕ) :
    Links (leftTo k x b u) rs k.runnable := by
  have hother : ∀ p, p ∉ k.runnable :: x :: rs → ∀ w, (leftTo k x b u).ctx p w = k.ctx p w :=
    fun p hp w => unlink_notMem h.running.ring hp w
  have hout : ∀ p, OnLock k p → p ∉ k.runnable :: x :: rs := fun p hlk hp => h.free p hp hlk
  have hon : ∀ p, OnLock (leftTo k x b u) p ↔ OnLock k p := onLock_unlink k.runnable
  have hsame : SameWaiters k (leftTo k x b u) k.runnable :=
    ⟨rfl, fun p _ _ => (hon p).2, fun p _ _ hlk w _ => hother p (hout p hlk) w,
      fun p _ _ _ => lockOf_unlink _ _ p⟩
  constructor
  · exact h.running.leave (leftTo_frame k x b u) rfl rfl
  · exact (List.nodup_cons.1 h.running.nodup).1
  · exact fun p hp hlk => h.free p (List.mem_cons_of_mem _ hp) ((hon p).1 hlk)
  · intro p hp hne hlk
    rw [hon p] at hlk
    have hring := h.locks_zero hpl hp hlk
    refine hsame.lockRing hne hlk ⟨hring, ?_, ?_⟩
    · exact fun heq => hout _ hring.next (by simp [heq])
    · exact fun heq => hout _ hring.prev (by simp [heq])
  · intro p hp hcase
    by_cases hpt : p = k.runnable
    · rw [hpt]
      exact unlink_self k.ctx k.runnable
    · obtain ⟨hnr, hnl⟩ := hcase.resolve_left hpt
      have hout' : p ∉ k.runnable :: x :: rs :=
        fun hmem => hnr ((List.mem_cons.1 hmem).resolve_left hpt)
      rw [hother p hout', hother p hout']
      exact h.alone p hp (.inr ⟨hout', fun hlk => hnl ((hon p).2 hlk)⟩)

/-- Threads that wait for no lock come into the ring of the runnable ones, and with them the
thread in hand. -/
theorem Links.join {J : ℕ → Prop} (h : Links k rs f) (hpl : Placed k) (hr : Running k' rs')
    (hc : k'.contexts = k.contexts) (hf : f = 0 ∨ J f) (hJ : ∀ p, J p → p = f ∨ ¬ OnLock k p)
    (hmem : ∀ p, p ∈ k'.runnable :: rs' ↔ J p ∨ p ∈ k.runnable :: rs)
    (hfree : ∀ p ∈ k'.runnable :: rs', ¬ OnLock k' p)
    (hlinks : ∀ p ∈ k.contexts, ¬ J p → p ∉ k.runnable :: rs → ∀ w, w < 2 →
      k'.ctx p w = k.ctx p w)
    (hon : ∀ p ∈ k.contexts, ¬ J p → p ∉ k.runnable :: rs → (OnLock k' p ↔ OnLock k p))
    (hlock : ∀ p ∈ k.contexts, OnLock k p → lockOf k'.ctx p = lockOf k.ctx p) :
    Links k' rs' 0 := by
  have hout : ∀ p, p ≠ f → OnLock k p → ¬ J p ∧ p ∉ k.runnable :: rs :=
    fun p hne hlk => ⟨fun hj => (hJ p hj).elim hne (· hlk), fun hp => h.free p hp hlk⟩
  have hsame : SameWaiters k k' f := by
    refine ⟨hc, fun p hp hne hlk => ?_, fun p hp hne hlk => ?_, fun p hp _ => hlock p hp⟩
    · obtain ⟨hj, hpr⟩ := hout p hne hlk
      exact (hon p hp hj hpr).2 hlk
    · obtain ⟨hj, hpr⟩ := hout p hne hlk
      exact hlinks p hp hj hpr
  refine ⟨hr, ?_, hfree, ?_, ?_⟩
  · intro h0
    have hmem0 := hr.mem 0 h0
    rw [hc] at hmem0
    exact hpl.zero_notMem hmem0
  · rw [hc]
    intro p hp _ hlk
    have hpr : p ∉ k'.runnable :: rs' := fun hp' => hfree p hp' hlk
    rw [hmem, not_or] at hpr
    have hlk' := (hon p hp hpr.1 hpr.2).1 hlk
    have hne : p ≠ f := by
      rintro rfl
      rcases hf with rfl | hf
      · exact hpl.ne_zero hp rfl
      · exact hpr.1 hf
    refine (hsame.lockRing hne hlk' (h.locks p hp hne hlk')).1.ne_zero ?_
    rw [hc]
    exact hpl.zero_notMem
  · rw [hc]
    intro p hp hcase
    rcases hcase with rfl | ⟨hnr, hnl⟩
    · exact absurd rfl (hpl.ne_zero hp)
    · rw [hmem, not_or] at hnr
      rw [hlinks p hp hnr.1 hnr.2 0 (by decide), hlinks p hp hnr.1 hnr.2 1 (by decide)]
      exact h.alone p hp (.inr ⟨hnr.2, fun hlk => hnl ((hon p hp hnr.1 hnr.2).2 hlk)⟩)

/-- The thread in hand becomes the head of the ring. -/
theorem Links.put (h : Links k rs f) (hpl : Placed k) (hf : f ∈ k.contexts) (b : ℕ)
    (u : ℕ → ℕ → ℕ) :
    Links { k with
      ctx := linkBefore k.ctx f k.runnable, runnable := f, blocked := b, user := u }
      (k.runnable :: rs) 0 := by
  have hne : f ≠ k.runnable := fun heq => h.hand (heq ▸ List.mem_cons_self)
  have hother : ∀ p, p ≠ f → p ∉ k.runnable :: rs → ∀ w,
      linkBefore k.ctx f k.runnable p w = k.ctx p w :=
    fun p hp hpr w => linkBefore_notMem h.running.ring hne hpr hp w
  refine h.join (J := (· = f)) hpl ?_ rfl (.inr rfl) (fun p hp => .inl hp)
    (fun p => List.mem_cons) ?_ ?_ ?_ ?_
  · exact h.running.join hf h.hand (Frame.sched k _ f k.blockedWithTimeout b u) rfl rfl
  · -- it takes its owner from the thread that was running
    intro p hp
    show ¬ linkBefore k.ctx f k.runnable p 2 = k.layout.blocked
    rw [linkBefore_list hne]
    split
    · exact h.free _ List.mem_cons_self
    · exact h.free p ((List.mem_cons.1 hp).resolve_left ‹_›)
  · exact fun p _ hp hpr w _ => hother p hp hpr w
  · intro p _ hp hpr
    show linkBefore k.ctx f k.runnable p 2 = k.layout.blocked ↔ _
    rw [hother p hp hpr]
    exact Iff.rfl
  · exact fun p _ _ => lockOf_linkBefore _ _ _ p

/-! ## A ring of one's own -/

/-- A thread that is in a ring of its own is taken. -/
theorem Links.take (h : Links k rs 0) (hpl : Placed k) (hr : p ∉ k.runnable :: rs)
    (hl : ¬ OnLock k p) : Links k rs p := by
  refine ⟨h.running, hr, h.free, ?_, ?_⟩
  · intro q hq _ hlk
    have hring := h.locks_zero hpl hq hlk
    exact ⟨hring, fun heq => hl (heq ▸ hring.next), fun heq => hl (heq ▸ hring.prev)⟩
  · intro q hq hcase
    rcases hcase with rfl | hcase
    · exact h.alone q hq (.inr ⟨hr, hl⟩)
    · exact h.alone q hq (.inr hcase)

/-- The thread in hand is left alone. -/
theorem Links.park (h : Links k rs f) (hpl : Placed k) (hl : ¬ OnLock k f) : Links k rs 0 := by
  refine ⟨h.running, ?_, h.free, ?_, ?_⟩
  · exact fun h0 => hpl.zero_notMem (h.running.mem 0 h0)
  · intro p hp _ hlk
    have hne : p ≠ f := fun heq => hl (heq ▸ hlk)
    exact (h.locks p hp hne hlk).1.ne_zero hpl.zero_notMem
  · intro p hp hcase
    rcases hcase with rfl | hcase
    · exact absurd rfl (hpl.ne_zero hp)
    · exact h.alone p hp (.inr hcase)

/-! ## The threads that wait for locks -/

theorem unlink_next_apply {c : ℕ → ℕ → ℕ} {e p : ℕ} (hp : p ≠ e) :
    unlink c e p 0 = if p = c e 1 then c e 0 else c p 0 := by
  have h := congrFun (unlink_next (c := c) (e := e)) p
  rw [Function.update_of_ne hp, Function.update_apply] at h
  exact h

theorem unlink_prev_apply {c : ℕ → ℕ → ℕ} {e p : ℕ} (hp : p ≠ e) (ha : c e 1 = e → c e 0 = e) :
    unlink c e p 1 = if p = c e 0 then c e 1 else c p 1 := by
  have h := congrFun (unlink_prev (c := c) (e := e) ha) p
  rw [Function.update_of_ne hp, Function.update_apply] at h
  exact h

/-- The links of another thread of the ring, when `e` has left it. -/
theorem unlink_next_link {c : ℕ → ℕ → ℕ} {e p : ℕ} (hp : p ≠ e) (hn : c (c e 0) 1 = e)
    (hv : c (c e 1) 0 = e) (hpn : c (c p 0) 1 = p) :
    (p = c e 1 ∧ unlink c e p 0 = c e 0 ∨ p ≠ c e 1 ∧ unlink c e p 0 = c p 0) ∧
      unlink c e p 0 ≠ e ∧ unlink c e (unlink c e p 0) 1 = p := by
  have halone : c e 1 = e → c e 0 = e := by
    intro heq
    rwa [heq] at hv
  have hnext := unlink_next_apply (c := c) hp
  by_cases hpe : p = c e 1
  · rw [if_pos hpe] at hnext
    have hne : c e 0 ≠ e := by
      intro heq
      rw [heq] at hn
      exact hp (hpe.trans hn)
    refine ⟨.inl ⟨hpe, hnext⟩, hnext ▸ hne, ?_⟩
    rw [hnext, unlink_prev_apply hne halone, if_pos rfl]
    exact hpe.symm
  · rw [if_neg hpe] at hnext
    have hne : c p 0 ≠ e := by
      intro heq
      rw [heq] at hpn
      exact hpe hpn.symm
    refine ⟨.inr ⟨hpe, hnext⟩, hnext ▸ hne, ?_⟩
    rw [hnext, unlink_prev_apply hne halone, if_neg ?_]
    · exact hpn
    · intro heq
      rw [heq, hn] at hpn
      exact hp hpn.symm

theorem unlink_prev_link {c : ℕ → ℕ → ℕ} {e p : ℕ} (hp : p ≠ e) (hv : c (c e 1) 0 = e)
    (hpv : c (c p 1) 0 = p) :
    (p = c e 0 ∧ unlink c e p 1 = c e 1 ∨ p ≠ c e 0 ∧ unlink c e p 1 = c p 1) ∧
      unlink c e p 1 ≠ e ∧ unlink c e (unlink c e p 1) 0 = p := by
  have halone : c e 1 = e → c e 0 = e := by
    intro heq
    rwa [heq] at hv
  have hprev := unlink_prev_apply (c := c) hp halone
  by_cases hpe : p = c e 0
  · rw [if_pos hpe] at hprev
    have hne : c e 1 ≠ e := fun heq => hp (hpe.trans (halone heq))
    refine ⟨.inl ⟨hpe, hprev⟩, hprev ▸ hne, ?_⟩
    rw [hprev, unlink_next_apply hne, if_pos rfl]
    exact hpe.symm
  · rw [if_neg hpe] at hprev
    have hne : c p 1 ≠ e := by
      intro heq
      rw [heq] at hpv
      exact hpe hpv.symm
    refine ⟨.inr ⟨hpe, hprev⟩, hprev ▸ hne, ?_⟩
    rw [hprev, unlink_next_apply hne, if_neg ?_]
    · exact hpv
    · intro heq
      rw [heq, hv] at hpv
      exact hp hpv.symm

/-- A thread that waits for a lock is taken from the others. -/
theorem Links.takeWaiter (h : Links k rs 0) (hpl : Placed k) (hp : p ∈ k.contexts)
    (hl : OnLock k p) (b : ℕ) :
    Links { k with ctx := unlink k.ctx p, blocked := b } rs p := by
  set k₁ : Kernel := { k with ctx := unlink k.ctx p, blocked := b } with hk₁
  have hring := h.locks_zero hpl hp hl
  have halone : k.ctx p 1 = p → k.ctx p 0 = p := by
    intro heq
    have hback := hring.ring.prevNext
    rwa [heq] at hback
  have hon : ∀ q, OnLock k₁ q ↔ OnLock k q := onLock_unlink p
  have hfar : ∀ q, ¬ OnLock k q → ∀ w, w < 2 → k₁.ctx q w = k.ctx q w := by
    intro q hq w hw
    have hqp : q ≠ p := fun heq => hq (heq ▸ hl)
    obtain rfl | rfl : w = 0 ∨ w = 1 := by omega
    · exact (unlink_next_apply hqp).trans (if_neg fun heq : q = k.ctx p 1 => hq (heq ▸ hring.prev))
    · exact (unlink_prev_apply hqp halone).trans
        (if_neg fun heq : q = k.ctx p 0 => hq (heq ▸ hring.next))
  refine ⟨?_, ?_, ?_, ?_, ?_⟩
  · refine h.running.congr (Frame.sched k _ k.runnable k.blockedWithTimeout b k.user) rfl ?_
    intro q hq w hw
    rcases Nat.lt_or_ge w 2 with hw2 | hw2
    · exact hfar q (h.free q hq) w hw2
    · exact unlink_other hw2
  · exact fun hmem => h.free p hmem hl
  · exact fun q hq hlk => h.free q hq ((hon q).1 hlk)
  · -- the threads before and after it are linked to each other now
    intro q hq hne hlk
    rw [hon] at hlk
    have hq' := h.locks_zero hpl hq hlk
    obtain ⟨hn, hnp, hnb⟩ := unlink_next_link (c := k.ctx) hne hring.ring.nextPrev
      hring.ring.prevNext hq'.ring.nextPrev
    obtain ⟨hv, hvp, hvn⟩ := unlink_prev_link (c := k.ctx) hne hring.ring.prevNext
      hq'.ring.prevNext
    have hlock := fun r => lockOf_unlink k.ctx p r
    refine ⟨⟨⟨hq, ?_, ?_, hnb, hvn⟩, ?_, ?_, ?_⟩, hnp, hvp⟩
    · show unlink k.ctx p q 0 ∈ k.contexts
      rcases hn with ⟨-, hn⟩ | ⟨-, hn⟩
      · rw [hn]
        exact hring.ring.next
      · rw [hn]
        exact hq'.ring.next
    · show unlink k.ctx p q 1 ∈ k.contexts
      rcases hv with ⟨-, hv⟩ | ⟨-, hv⟩
      · rw [hv]
        exact hring.ring.prev
      · rw [hv]
        exact hq'.ring.prev
    · refine (hon (unlink k.ctx p q 0)).2 ?_
      rcases hn with ⟨-, hn⟩ | ⟨-, hn⟩
      · rw [hn]
        exact hring.next
      · rw [hn]
        exact hq'.next
    · refine (hon (unlink k.ctx p q 1)).2 ?_
      rcases hv with ⟨-, hv⟩ | ⟨-, hv⟩
      · rw [hv]
        exact hring.prev
      · rw [hv]
        exact hq'.prev
    · show lockOf (unlink k.ctx p) (unlink k.ctx p q 0) = lockOf (unlink k.ctx p) q
      rw [hlock, hlock]
      rcases hn with ⟨hqp, hn⟩ | ⟨-, hn⟩
      · -- the thread before it waits for its lock, as it does itself
        have hsame := hq'.same
        rw [hqp, hring.ring.prevNext] at hsame
        rw [hn, hring.same, hqp]
        exact hsame
      · rw [hn]
        exact hq'.same
  · intro q hq hcase
    by_cases hqp : q = p
    · rw [hqp]
      exact unlink_self k.ctx p
    · obtain ⟨hnr, hnl⟩ := hcase.resolve_left hqp
      have hnl' : ¬ OnLock k q := fun hlk => hnl ((hon q).2 hlk)
      rw [hfar q hnl' 0 (by decide), hfar q hnl' 1 (by decide)]
      exact h.alone q hq (.inr ⟨hnr, hnl'⟩)

/-- The thread in hand waits for a lock, as the first. -/
theorem Links.putFirst (h : Links k rs f) (hpl : Placed k) (hf : f ∈ k.contexts) (b : ℕ)
    (u : ℕ → ℕ → ℕ) :
    Links { k with
      ctx := setCtx (setCtx (setCtx k.ctx f 0 f) f 1 f) f 2 k.layout.blocked
      blocked := b, user := u } rs 0 := by
  set c := setCtx (setCtx (setCtx k.ctx f 0 f) f 1 f) f 2 k.layout.blocked with hc
  set k₁ : Kernel := { k with ctx := c, blocked := b, user := u } with hk₁
  have hother : ∀ p, p ≠ f → ∀ w, k₁.ctx p w = k.ctx p w := by
    intro p hp w
    simp [hk₁, hc, hp]
  have hself : k₁.ctx f 0 = f ∧ k₁.ctx f 1 = f ∧ OnLock k₁ f := by
    refine ⟨?_, ?_, ?_⟩
    · simp [hk₁, hc]
    · simp [hk₁, hc]
    · simp [OnLock, hk₁, hc]
  have hon : ∀ p, p ≠ f → (OnLock k₁ p ↔ OnLock k p) := by
    intro p hp
    unfold OnLock
    rw [hother p hp]
  have hsame : SameWaiters k k₁ f := by
    refine ⟨rfl, fun p _ hne => (hon p hne).2, fun p _ hne _ w _ => hother p hne w, ?_⟩
    intro p _ hne _
    unfold lockOf
    rw [hother p hne, hother p hne]
  have hring : ∀ p ∈ k.runnable :: rs, p ≠ f := fun p hp heq => h.hand (heq ▸ hp)
  refine ⟨?_, ?_, ?_, ?_, ?_⟩
  · refine h.running.congr (Frame.sched k c k.runnable k.blockedWithTimeout b u) rfl ?_
    exact fun p hp w _ => hother p (hring p hp) w
  · exact fun h0 => hpl.zero_notMem (h.running.mem 0 h0)
  · exact fun p hp hlk => h.free p hp ((hon p (hring p hp)).1 hlk)
  · intro p hp _ hlk
    refine LockRing.ne_zero ?_ hpl.zero_notMem
    by_cases hpf : p = f
    · subst hpf
      obtain ⟨h0, h1, hl⟩ := hself
      refine ⟨⟨hp, ?_, ?_, ?_, ?_⟩, ?_, ?_, ?_⟩
      · rw [h0]
        exact hp
      · rw [h1]
        exact hp
      · rw [h0, h1]
      · rw [h1, h0]
      · rw [h0]
        exact hl
      · rw [h1]
        exact hl
      · rw [h0]
    · rw [hon p hpf] at hlk
      exact (hsame.lockRing hpf hlk (h.locks p hp hpf hlk)).1
  · intro p hp hcase
    rcases hcase with rfl | ⟨hnr, hnl⟩
    · exact absurd rfl (hpl.ne_zero hp)
    · have hpf : p ≠ f := fun heq => hnl (heq ▸ hself.2.2)
      rw [hother p hpf, hother p hpf]
      exact h.alone p hp (.inr ⟨hnr, fun hlk => hnl ((hon p hpf).2 hlk)⟩)

theorem linkBefore_next_apply {c : ℕ → ℕ → ℕ} {n e p : ℕ} (hne : n ≠ e) :
    linkBefore c n e p 0 = if p = c e 1 then n else if p = n then e else c p 0 := by
  have h := congrFun (linkBefore_next (c := c) hne) p
  rw [Function.update_apply, Function.update_apply] at h
  exact h

theorem linkBefore_prev_apply {c : ℕ → ℕ → ℕ} {n e p : ℕ} :
    linkBefore c n e p 1 = if p = e then n else if p = n then c e 1 else c p 1 := by
  have hprev : prevOf (linkBefore c n e) = _ := linkBefore_prev
  have h := congrFun hprev p
  rw [Function.update_apply, Function.update_apply] at h
  exact h

/-- It waits behind the others. -/
theorem Links.putWaiter (h : Links k rs f) (hpl : Placed k) (hf : f ∈ k.contexts)
    (hg : g ∈ k.contexts) (hne : f ≠ g) (hl : OnLock k g)
    (hsame : lockOf k.ctx f = lockOf k.ctx g) (b : ℕ) (u : ℕ → ℕ → ℕ) :
    Links { k with ctx := linkBefore k.ctx f g, blocked := b, user := u } rs 0 := by
  set k₁ : Kernel := { k with ctx := linkBefore k.ctx f g, blocked := b, user := u } with hk₁
  obtain ⟨hring, h0, h1⟩ := h.locks g hg hne.symm hl
  have hnext : ∀ p, k₁.ctx p 0 = if p = k.ctx g 1 then f else if p = f then g else k.ctx p 0 :=
    fun p => linkBefore_next_apply hne
  have hprev : ∀ p, k₁.ctx p 1 = if p = g then f else if p = f then k.ctx g 1 else k.ctx p 1 :=
    fun p => linkBefore_prev_apply
  have hlist : ∀ p, k₁.ctx p 2 = if p = f then k.ctx g 2 else k.ctx p 2 :=
    fun p => linkBefore_list hne p
  have hlock : ∀ p, lockOf k₁.ctx p = lockOf k.ctx p := fun p => lockOf_linkBefore k.ctx f g p
  have honf : OnLock k₁ f := (hlist f).trans ((if_pos rfl).trans hl)
  have hon : ∀ p, p ≠ f → (OnLock k₁ p ↔ OnLock k p) := by
    intro p hp
    unfold OnLock
    rw [hlist, if_neg hp]
  have hfar : ∀ p, p ≠ f → ¬ OnLock k p → ∀ w, k₁.ctx p w = k.ctx p w := by
    intro p hp hnl w
    have hpg : p ≠ g := fun heq => hnl (heq ▸ hl)
    have hpv : p ≠ k.ctx g 1 := fun heq => hnl (heq ▸ hring.prev)
    show linkBefore k.ctx f g p w = _
    unfold linkBefore
    simp [hp, hpg, hpv, hne]
  refine ⟨?_, ?_, ?_, ?_, ?_⟩
  · refine h.running.congr (Frame.sched k _ k.runnable k.blockedWithTimeout b u) rfl ?_
    exact fun p hp w _ => hfar p (fun heq => h.hand (heq ▸ hp)) (h.free p hp) w
  · exact fun h0 => hpl.zero_notMem (h.running.mem 0 h0)
  · intro p hp hlk
    exact h.free p hp ((hon p fun heq => h.hand (heq ▸ hp)).1 hlk)
  · intro p hp _ hlk
    refine LockRing.ne_zero ?_ hpl.zero_notMem
    by_cases hpf : p = f
    · -- it is between the last of the others and the first
      subst hpf
      have hn : k₁.ctx p 0 = g := by rw [hnext, if_neg (Ne.symm h1), if_pos rfl]
      have hv : k₁.ctx p 1 = k.ctx g 1 := by rw [hprev, if_neg hne, if_pos rfl]
      refine ⟨⟨hp, ?_, ?_, ?_, ?_⟩, ?_, ?_, ?_⟩
      · rw [hn]
        exact hg
      · rw [hv]
        exact hring.ring.prev
      · rw [hn, hprev, if_pos rfl]
      · rw [hv, hnext, if_pos rfl]
      · rw [hn]
        exact (hon g hne.symm).2 hl
      · rw [hv]
        exact (hon _ h1).2 hring.prev
      · rw [hn, hlock, hlock, hsame]
    · rw [hon p hpf] at hlk
      obtain ⟨hp', hp0, hp1⟩ := h.locks p hp hpf hlk
      have hn : p = k.ctx g 1 ∧ k₁.ctx p 0 = f ∨ p ≠ k.ctx g 1 ∧ k₁.ctx p 0 = k.ctx p 0 := by
        rw [hnext]
        by_cases hpv : p = k.ctx g 1
        · exact .inl ⟨hpv, if_pos hpv⟩
        · exact .inr ⟨hpv, by rw [if_neg hpv, if_neg hpf]⟩
      have hv : p = g ∧ k₁.ctx p 1 = f ∨ p ≠ g ∧ k₁.ctx p 1 = k.ctx p 1 := by
        rw [hprev]
        by_cases hpg : p = g
        · exact .inl ⟨hpg, if_pos hpg⟩
        · exact .inr ⟨hpg, by rw [if_neg hpg, if_neg hpf]⟩
      refine ⟨⟨hp, ?_, ?_, ?_, ?_⟩, ?_, ?_, ?_⟩
      · rcases hn with ⟨-, hn⟩ | ⟨-, hn⟩
        · rw [hn]
          exact hf
        · rw [hn]
          exact hp'.ring.next
      · rcases hv with ⟨-, hv⟩ | ⟨-, hv⟩
        · rw [hv]
          exact hf
        · rw [hv]
          exact hp'.ring.prev
      · rcases hn with ⟨hpv, hn⟩ | ⟨hpv, hn⟩
        · rw [hn, hprev, if_neg hne, if_pos rfl]
          exact hpv.symm
        · rw [hn, hprev, if_neg ?_, if_neg hp0]
          · exact hp'.ring.nextPrev
          · -- only one thread is before the first
            intro heq
            have hback := hp'.ring.nextPrev
            rw [heq] at hback
            exact hpv hback.symm
      · rcases hv with ⟨hpg, hv⟩ | ⟨hpg, hv⟩
        · rw [hv, hnext, if_neg (Ne.symm h1), if_pos rfl]
          exact hpg.symm
        · rw [hv, hnext, if_neg ?_, if_neg hp1]
          · exact hp'.ring.prevNext
          · intro heq
            have hback := hp'.ring.prevNext
            rw [heq, hring.ring.prevNext] at hback
            exact hpg hback.symm
      · rcases hn with ⟨-, hn⟩ | ⟨-, hn⟩
        · rw [hn]
          exact honf
        · rw [hn]
          exact (hon _ hp0).2 hp'.next
      · rcases hv with ⟨-, hv⟩ | ⟨-, hv⟩
        · rw [hv]
          exact honf
        · rw [hv]
          exact (hon _ hp1).2 hp'.prev
      · rw [hlock, hlock]
        rcases hn with ⟨hpv, hn⟩ | ⟨-, hn⟩
        · have hsame' := hp'.same
          rw [hpv, hring.ring.prevNext] at hsame'
          rw [hn, hsame, hpv]
          exact hsame'
        · rw [hn]
          exact hp'.same
  · intro p hp hcase
    rcases hcase with rfl | ⟨hnr, hnl⟩
    · exact absurd rfl (hpl.ne_zero hp)
    · have hpf : p ≠ f := fun heq => hnl (heq ▸ honf)
      have hnl' : ¬ OnLock k p := fun hlk => hnl ((hon p hpf).2 hlk)
      rw [hfar p hpf hnl', hfar p hpf hnl']
      exact h.alone p hp (.inr ⟨hnr, hnl'⟩)

end Moves

end Isambard.El1
