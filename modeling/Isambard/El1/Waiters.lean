import Isambard.Lib.Handover
import Isambard.El1.Locks
import Isambard.El1.Timeouts

/-!
# El1.Waiters — the threads that wait for a lock

The word of a lock holds the codes of its owner and of the first thread that
waits. The threads that wait are in a ring of their own, away from the runnable
ones. So a word and a ring stand for a lock that is handed over, and the calls
for locks are its two operations.

* `LockAt`: what a lock is in the memory of a map, and in the contexts;
* `wait_asks`, `release_passes`: the calls.
-/

namespace Isambard.El1

open Isambard.Lib

/-! ## Words -/

/-- The code of the first of the threads that wait. -/
def firstCode : List ℕ → ℕ
  | [] => 0
  | f :: _ => threadCode f

/-- The word of a lock. -/
def lockWord : Handover ℕ → ℕ
  | none => 0
  | some h => threadCode h.owner + firstCode h.queue * 2 ^ 32

section Codes

variable {k : Kernel} {p q : ℕ} {l : List ℕ}

/-- The code of a thread is the offset of its context, in the mapped heap. -/
theorem Placed.threadCode_eq (hpl : Placed k) (hp : p ∈ k.contexts) :
    p = startAddress + threadCode p ∧ 0 < threadCode p ∧ threadCode p < heapTop := by
  have hfloor := hpl.floor hp
  have htop := hpl.top p hp
  have hne := hpl.ne_zero hp
  unfold threadCode
  rw [if_neg hne]
  unfold startAddress heapTop initialHeap contextSize at *
  omega

theorem Placed.threadFromCode_threadCode (hpl : Placed k) (hp : p ∈ k.contexts) :
    threadFromCode (threadCode p) = p := by
  obtain ⟨heq, hpos, hlt⟩ := hpl.threadCode_eq hp
  unfold heapTop at hlt
  have hmod : threadCode p % 2 ^ 32 = threadCode p := Nat.mod_eq_of_lt (by omega)
  unfold threadFromCode
  rw [hmod, if_neg (by omega)]
  exact heq.symm

theorem Placed.threadCode_inj (hpl : Placed k) (hp : p ∈ k.contexts) (hq : q ∈ k.contexts)
    (h : threadCode p = threadCode q) : p = q := by
  rw [(hpl.threadCode_eq hp).1, (hpl.threadCode_eq hq).1, h]

theorem Placed.firstCode_lt (hpl : Placed k) (hl : ∀ p ∈ l, p ∈ k.contexts) :
    firstCode l < heapTop := by
  cases l with
  | nil => decide
  | cons f t => exact (hpl.threadCode_eq (hl f (by simp))).2.2

/-- The halves of the word of a lock that is held. -/
theorem Placed.lockWord_halves {h : Held ℕ} (hpl : Placed k) (ho : h.owner ∈ k.contexts) :
    lockWord (some h) % 2 ^ 32 = threadCode h.owner ∧
      lockWord (some h) / 2 ^ 32 = firstCode h.queue ∧ lockWord (some h) ≠ 0 := by
  obtain ⟨-, hpos, hlt⟩ := hpl.threadCode_eq ho
  unfold heapTop at hlt
  show (threadCode h.owner + firstCode h.queue * 2 ^ 32) % 2 ^ 32 = _ ∧
    (threadCode h.owner + firstCode h.queue * 2 ^ 32) / 2 ^ 32 = _ ∧
    threadCode h.owner + firstCode h.queue * 2 ^ 32 ≠ 0
  omega

end Codes

/-! ## Rings -/

section Edits

variable {c : ℕ → ℕ → ℕ} {e n z : ℕ} {t : List ℕ}

/-- Only threads of the ring are changed when one leaves it. -/
theorem unlink_notMem (hr : Ring (nextOf c) (prevOf c) e t) (hz : z ∉ e :: t) (w : ℕ) :
    unlink c e z w = c z w := by
  obtain ⟨hn, hp⟩ := ring_closed hr e List.mem_cons_self
  have hze : z ≠ e := fun heq => hz (heq ▸ List.mem_cons_self)
  have hzn : z ≠ c e 0 := fun heq => hz (heq ▸ hn)
  have hzp : z ≠ c e 1 := fun heq => hz (heq ▸ hp)
  have hlinks : (setCtx c (c e 1) 0 (c e 0)) e 0 = c e 0 := by
    rw [setCtx_apply]
    split
    · rfl
    · rfl
  unfold unlink
  simp only [hlinks, setCtx_apply, hze, hzn, hzp, false_and, if_false]

/-- And the new thread, when one joins it. -/
theorem linkBefore_notMem (hr : Ring (nextOf c) (prevOf c) e t) (hne : n ≠ e) (hz : z ∉ e :: t)
    (hzn : z ≠ n) (w : ℕ) : linkBefore c n e z w = c z w := by
  have hp : c e 1 ∈ e :: t := (ring_closed hr e List.mem_cons_self).2
  have hze : z ≠ e := fun heq => hz (heq ▸ List.mem_cons_self)
  have hzp : z ≠ c e 1 := fun heq => hz (heq ▸ hp)
  unfold linkBefore
  simp [hze, hzn, hzp, hne]

theorem linkBefore_ring (hr : Ring (nextOf c) (prevOf c) e t) (hnd : (e :: t).Nodup)
    (hn : n ∉ e :: t) :
    Ring (nextOf (linkBefore c n e)) (prevOf (linkBefore c n e)) e (t ++ [n]) := by
  have hne : n ≠ e := fun heq => hn (heq ▸ List.mem_cons_self)
  rw [linkBefore_next hne, linkBefore_prev]
  exact ring_insert_before hr hnd hn

/-- The links of other threads do not matter. -/
theorem ring_words {c' : ℕ → ℕ → ℕ} (hr : Ring (nextOf c) (prevOf c) e t)
    (h : ∀ p ∈ e :: t, ∀ w, w < 2 → c' p w = c p w) : Ring (nextOf c') (prevOf c') e t :=
  ring_congr hr (fun p hp => h p hp 0 (by decide)) (fun p hp => h p hp 1 (by decide))

end Edits

/-- The runnable threads: the running one, and `rs`. -/
structure Running (k : Kernel) (rs : List ℕ) : Prop where
  ring : Ring (nextOf k.ctx) (prevOf k.ctx) k.runnable rs
  nodup : (k.runnable :: rs).Nodup
  mem : ∀ p ∈ k.runnable :: rs, p ∈ k.contexts
  owners : ∀ p ∈ k.runnable :: rs, OwnerOk k (k.ctx p 2)

/-- The threads `q` wait: they are in a ring, and owned by the fake list head. -/
structure Waiters (k : Kernel) (q : List ℕ) : Prop where
  ring : ∀ f t, q = f :: t → Ring (nextOf k.ctx) (prevOf k.ctx) f t
  nodup : q.Nodup
  mem : ∀ p ∈ q, p ∈ k.contexts
  owners : ∀ p ∈ q, k.ctx p 2 = k.layout.blocked

/-- The lock at the address `a` of the map `m`. -/
structure LockAt (k : Kernel) (m a : ℕ) (l : Handover ℕ) : Prop where
  word : k.user m a = lockWord l
  owner : ∀ p, l.owner = some p → p ∈ k.contexts
  waiters : Waiters k l.queue

section Kept

variable {k k' : Kernel} {rs q : List ℕ} {m a : ℕ} {l : Handover ℕ}

theorem Running.congr (h : Running k rs) (hf : Frame k k') (hr : k'.runnable = k.runnable)
    (hw : ∀ p ∈ k.runnable :: rs, ∀ w, w < 3 → k'.ctx p w = k.ctx p w) : Running k' rs := by
  constructor
  · rw [hr]
    exact ring_words h.ring fun p hp w hlt => hw p hp w (by omega)
  · rw [hr]
    exact h.nodup
  · rw [hr, hf.contexts]
    exact h.mem
  · rw [hr]
    intro p hp
    rw [hw p hp 2 (by decide)]
    exact hf.ownerOk (h.owners p hp)

theorem Waiters.congr (h : Waiters k q) (hc : ∀ p ∈ k.contexts, p ∈ k'.contexts)
    (hl : k'.layout = k.layout) (hw : ∀ p ∈ q, ∀ w, w < 3 → k'.ctx p w = k.ctx p w) :
    Waiters k' q := by
  refine ⟨?_, h.nodup, fun p hp => hc p (h.mem p hp), ?_⟩
  · intro f t hq
    refine ring_words (h.ring f t hq) fun p hp w hlt => hw p ?_ w (by omega)
    rw [hq]
    exact hp
  · intro p hp
    rw [hw p hp 2 (by decide), hl]
    exact h.owners p hp

theorem LockAt.congr (h : LockAt k m a l) (hc : ∀ p ∈ k.contexts, p ∈ k'.contexts)
    (hl : k'.layout = k.layout) (hu : k'.user m a = k.user m a)
    (hw : ∀ p ∈ l.queue, ∀ w, w < 3 → k'.ctx p w = k.ctx p w) : LockAt k' m a l :=
  ⟨hu.trans h.word, fun p hp => hc p (h.owner p hp), h.waiters.congr hc hl hw⟩

/-- No word of a lock is a pointer into the kernel's memory. -/
theorem LockAt.word_lt (h : LockAt k m a l) (hpl : Placed k) : k.user m a < startAddress := by
  rw [h.word]
  cases l with
  | none => decide
  | some h' =>
    have ho := (hpl.threadCode_eq (h.owner h'.owner rfl)).2.2
    have hq := hpl.firstCode_lt h.waiters.mem
    show threadCode h'.owner + firstCode h'.queue * 2 ^ 32 < startAddress
    rw [Handover.queue_some] at hq
    unfold heapTop at ho hq
    unfold startAddress
    omega

end Kept

/-! ## The edits of the rings -/

section Moves

variable {k k' : Kernel} {rs q : List ℕ} {n f x : ℕ} {c : ℕ → ℕ → ℕ}

/-- The running thread leaves the runnable ones to `x`. -/
theorem Running.leave (h : Running k (x :: rs)) (hf : Frame k k')
    (hc : k'.ctx = unlink k.ctx k.runnable) (hr : k'.runnable = x) : Running k' rs := by
  constructor
  · rw [hc, hr]
    exact unlink_ring h.ring h.nodup
  · rw [hr]
    exact (List.nodup_cons.1 h.nodup).2
  · rw [hr, hf.contexts]
    exact fun p hp => h.mem p (List.mem_cons_of_mem _ hp)
  · rw [hr, hc]
    intro p hp
    rw [unlink_other (by decide)]
    exact hf.ownerOk (h.owners p (List.mem_cons_of_mem _ hp))

/-- Another thread comes to the head of the runnable ones. -/
theorem Running.join (h : Running k rs) (hn : n ∈ k.contexts) (hnr : n ∉ k.runnable :: rs)
    (hf : Frame k k') (hc : k'.ctx = linkBefore k.ctx n k.runnable) (hr : k'.runnable = n) :
    Running k' (k.runnable :: rs) := by
  have hne : n ≠ k.runnable := fun heq => hnr (heq ▸ List.mem_cons_self)
  constructor
  · rw [hc, hr]
    exact ring_rotate.1 (linkBefore_ring h.ring h.nodup hnr)
  · rw [hr]
    exact List.nodup_cons.2 ⟨hnr, h.nodup⟩
  · rw [hr, hf.contexts]
    intro p hp
    rcases List.mem_cons.1 hp with rfl | hp
    · exact hn
    · exact h.mem p hp
  · rw [hr, hc]
    intro p hp
    rw [linkBefore_list hne]
    split
    · exact hf.ownerOk (h.owners _ List.mem_cons_self)
    · exact hf.ownerOk (h.owners p ((List.mem_cons.1 hp).resolve_left ‹_›))

/-- A first thread waits. -/
theorem waiters_first (hn : n ∈ k.contexts) (hf : Frame k k')
    (hc : k'.ctx = setCtx (setCtx (setCtx c n 0 n) n 1 n) n 2 k.layout.blocked) :
    Waiters k' [n] := by
  constructor
  · intro f t hq
    cases hq
    rw [ring_nil, hc]
    simp [nextOf, prevOf]
  · exact List.nodup_singleton n
  · rw [hf.contexts]
    simpa using hn
  · rw [hc, hf.layout]
    simp

/-- A further thread waits, behind the others. -/
theorem Waiters.join (h : Waiters k (f :: q)) (hn : n ∈ k.contexts) (hnq : n ∉ f :: q)
    (hf : Frame k k') (hc : k'.ctx = linkBefore k.ctx n f) : Waiters k' (f :: q ++ [n]) := by
  have hne : n ≠ f := fun heq => hnq (heq ▸ List.mem_cons_self)
  constructor
  · intro g t hq
    cases hq
    rw [hc]
    exact linkBefore_ring (h.ring f q rfl) h.nodup hnq
  · exact (List.perm_append_singleton n (f :: q)).nodup_iff.2 (List.nodup_cons.2 ⟨hnq, h.nodup⟩)
  · rw [hf.contexts]
    intro p hp
    rcases List.mem_append.1 hp with hp | hp
    · exact h.mem p hp
    · rw [List.mem_singleton.1 hp]
      exact hn
  · rw [hc, hf.layout]
    intro p hp
    rw [linkBefore_list hne]
    split
    · exact h.owners f List.mem_cons_self
    · rcases List.mem_append.1 hp with hp | hp
      · exact h.owners p hp
      · exact absurd (List.mem_singleton.1 hp) ‹_›

/-- The first of them waits no longer. -/
theorem Waiters.leave (h : Waiters k (f :: q)) (hf : Frame k k')
    (hc : k'.ctx = unlink k.ctx f) : Waiters k' q := by
  constructor
  · rintro g t rfl
    rw [hc]
    exact unlink_ring (h.ring f (g :: t) rfl) h.nodup
  · exact (List.nodup_cons.1 h.nodup).2
  · rw [hf.contexts]
    exact fun p hp => h.mem p (List.mem_cons_of_mem _ hp)
  · rw [hc, hf.layout]
    intro p hp
    rw [unlink_other (by decide)]
    exact h.owners p (List.mem_cons_of_mem _ hp)

end Moves

/-! ## What a call for a lock does -/

/-- From the lock `l` at `a`, with the runnable threads `rs` besides the one that
calls, to the lock `l'` and the runnable threads `rs'`. -/
structure LockCall (k k' : Kernel) (a : ℕ) (rs rs' : List ℕ) (l l' : Handover ℕ) : Prop where
  frame : Frame k k'
  loadedMap : k'.loadedMap = k.loadedMap
  running : Running k' rs'
  lock : LockAt k' k.loadedMap a l'
  words : ∀ p w, 3 ≤ w → k'.ctx p w = k.ctx p w
  others : ∀ p, p ∉ k.runnable :: rs → p ∉ l.queue → ∀ w, k'.ctx p w = k.ctx p w
  user : ∀ m b, (m = k.loadedMap → b ≠ a) → k.user m b < startAddress →
    k'.user m b = k.user m b

section Calls

variable {k k' : Kernel} {rs : List ℕ} {a x v t now : ℕ} {l : Handover ℕ} {h : Held ℕ}

theorem Placed.load64_user (hpl : Placed k) (hal : a % 8 = 0) (ha : a < 2 ^ 63) :
    k.load64 a = k.user k.loadedMap a := by
  rw [load64_eq_word hal, Kernel.word, hpl.place_low ha]

theorem Placed.store64_user (hpl : Placed k) (hal : a % 8 = 0) (ha : a < 2 ^ 63) (v : ℕ) :
    k.store64 a v = { k with user := setCtx k.user k.loadedMap a v } := by
  rw [store64_eq_setWord hal, Kernel.setWord, hpl.place_low ha]

/-- A call edits rings, sets the fake list head, and stores the word. -/
theorem lockCall_of {rs' : List ℕ} {l' : Handover ℕ} {c : ℕ → ℕ → ℕ} {r b : ℕ} {u : ℕ → ℕ → ℕ}
    (hk : k' = { k with
      ctx := c, runnable := r, blocked := b, user := setCtx u k.loadedMap a (lockWord l') })
    (hu : Spared k u) (hrun : Running k' rs') (hown : ∀ p, l'.owner = some p → p ∈ k.contexts)
    (hwait : Waiters k' l'.queue) (hwords : ∀ p w, 3 ≤ w → c p w = k.ctx p w)
    (hothers : ∀ p, p ∉ k.runnable :: rs → p ∉ l.queue → ∀ w, c p w = k.ctx p w) :
    LockCall k k' a rs rs' l l' := by
  subst hk
  refine ⟨Frame.sched k c r k.blockedWithTimeout b _, rfl, hrun, ⟨?_, hown, hwait⟩, hwords,
    hothers, ?_⟩
  · show setCtx u k.loadedMap a (lockWord l') k.loadedMap a = lockWord l'
    simp
  · intro m b hne hlt
    show setCtx u k.loadedMap a (lockWord l') m b = k.user m b
    rw [setCtx_apply, if_neg fun h => hne h.1 h.2]
    exact hu m b hlt

/-- A call that changes the word, and no ring. -/
theorem store_call {n : Handover ℕ} (hpl : Placed k) (hr : Running k rs) (hal : a % 8 = 0)
    (ha : a < 2 ^ 63) (hown : ∀ p, n.owner = some p → p ∈ k.contexts)
    (hnil : n.queue = []) :
    (k.store64 a (lockWord n)).runnable = k.runnable ∧
      LockCall k (k.store64 a (lockWord n)) a rs rs l n := by
  rw [hpl.store64_user hal ha]
  refine ⟨rfl, lockCall_of (c := k.ctx) (r := k.runnable) (b := k.blocked) (u := k.user) rfl
    (fun _ _ _ => rfl) ?_ hown ?_ (fun _ _ _ => rfl) (fun _ _ _ _ => rfl)⟩
  · exact ⟨hr.ring, hr.nodup, hr.mem, hr.owners⟩
  · rw [hnil]
    exact ⟨by simp, by simp, by simp, by simp⟩

/-- The kernel when the running thread has left the runnable ones to `x`. -/
def leftTo (k : Kernel) (x b : ℕ) (u : ℕ → ℕ → ℕ) : Kernel :=
  { k with ctx := unlink k.ctx k.runnable, runnable := x, blocked := b, user := u }

theorem leftTo_frame (k : Kernel) (x b : ℕ) (u : ℕ → ℕ → ℕ) : Frame k (leftTo k x b u) :=
  Frame.sched k _ x k.blockedWithTimeout b u

/-- The running thread is removed when the next one is to run. -/
theorem Running.leftTo (hr : Running k (x :: rs)) (hpl : Placed k) :
    k.next k.runnable = x ∧ x ≠ k.runnable ∧ ∃ b u, Spared k u ∧
      removeThread { k with runnable := x } k.runnable = leftTo k x b u := by
  have hmem := hr.mem _ List.mem_cons_self
  have hclosed := ring_closed hr.ring _ List.mem_cons_self
  have hne : x ≠ k.runnable := fun heq =>
    (List.nodup_cons.1 hr.nodup).1 (heq ▸ List.mem_cons_self)
  obtain ⟨b, u, hrem, hu⟩ := removeThread_other (k := { k with runnable := x })
    (hpl.congr rfl rfl) hmem (hr.mem _ hclosed.1) (hr.mem _ hclosed.2)
    (hr.owners _ List.mem_cons_self) hne
  exact ⟨(fld_of_mem hmem 0).trans (List.isChain_cons_cons.1 hr.ring).1.1, hne, b, u, hu, hrem⟩

/-- It is the first to wait, and the lock says so. -/
theorem first_waits (hpl : Placed k) (hr : Running k (x :: rs))
    (hl : LockAt k k.loadedMap a (some h)) (hal : a % 8 = 0) (ha : a < 2 ^ 63)
    (hq : h.queue = []) {u : ℕ → ℕ → ℕ} (hu : Spared k u) :
    let k' := (insertThreadAsHead (leftTo k x 0 u) k.layout.blocked k.runnable).store64 a
      (lockWord (some ⟨h.owner, [k.runnable]⟩))
    k'.runnable = x ∧
      LockCall k k' a (x :: rs) rs (some h) (some ⟨h.owner, h.queue ++ [k.runnable]⟩) := by
  have hmem := hr.mem _ List.mem_cons_self
  have htx : k.runnable ∉ x :: rs := (List.nodup_cons.1 hr.nodup).1
  have hf := leftTo_frame k x 0 u
  have hrun : Running (leftTo k x 0 u) rs := hr.leave hf rfl rfl
  set c := setCtx (setCtx (setCtx (leftTo k x 0 u).ctx k.runnable 0 k.runnable) k.runnable 1
    k.runnable) k.runnable 2 k.layout.blocked with hc
  have hins : insertThreadAsHead (leftTo k x 0 u) k.layout.blocked k.runnable =
      { leftTo k x 0 u with ctx := c, blocked := k.runnable } :=
    insertThreadAsHead_blocked_empty (hf.placed hpl) hmem rfl
  have hpl' : Placed { leftTo k x 0 u with ctx := c, blocked := k.runnable } :=
    (hf.placed hpl).congr rfl rfl
  have hother : ∀ p, p ≠ k.runnable → ∀ w, c p w = (leftTo k x 0 u).ctx p w := by
    intro p hp w
    simp [hc, hp]
  simp only
  rw [hins, hpl'.store64_user hal ha, hq, List.nil_append]
  refine ⟨rfl, lockCall_of (r := x) (b := k.runnable) (c := c) (u := u) rfl hu ?_
    (fun p hp => hl.owner p hp) ?_ ?_ ?_⟩
  · refine hrun.congr (Frame.sched (leftTo k x 0 u) c _ _ _ _) rfl fun p hp w _ => ?_
    exact hother p (fun heq => htx (heq ▸ hp)) w
  · exact waiters_first hmem (Frame.sched k c _ _ _ _) rfl
  · intro p w hw
    have h₀ : w ≠ 0 := by omega
    have h₁ : w ≠ 1 := by omega
    have h₂ : w ≠ 2 := by omega
    simp [hc, h₀, h₁, h₂, leftTo, unlink_other (show 2 ≤ w by omega)]
  · intro p hp _ w
    rw [hother p (fun heq => hp (heq ▸ List.mem_cons_self)) w]
    exact unlink_notMem hr.ring hp w

/-- It waits behind others, and the lock stays as it is. -/
theorem further_waits (hpl : Placed k) (hr : Running k (x :: rs))
    (hl : LockAt k k.loadedMap a (some h)) (hdis : ∀ p ∈ h.queue, p ∉ k.runnable :: x :: rs)
    {q : List ℕ} (hq : h.queue = f :: q) {u : ℕ → ℕ → ℕ} (hu : Spared k u) :
    let k' := insertThreadAtTail (leftTo k x f u) k.layout.blocked k.runnable
    k'.runnable = x ∧
      LockCall k k' a (x :: rs) rs (some h) (some ⟨h.owner, h.queue ++ [k.runnable]⟩) := by
  have hmem := hr.mem _ List.mem_cons_self
  have htx : k.runnable ∉ x :: rs := (List.nodup_cons.1 hr.nodup).1
  have hf := leftTo_frame k x f u
  have hrun : Running (leftTo k x f u) rs := hr.leave hf rfl rfl
  have hwait : Waiters (leftTo k x f u) h.queue := hl.waiters.congr (fun _ hp => hp) rfl
    fun p hp w _ => unlink_notMem hr.ring (hdis p hp) w
  rw [hq] at hwait hdis
  have htq : k.runnable ∉ f :: q := fun hq => hdis _ hq List.mem_cons_self
  have htf : k.runnable ≠ f := fun heq => htq (heq ▸ List.mem_cons_self)
  have hring := hwait.ring f q rfl
  set c := linkBefore (leftTo k x f u).ctx k.runnable f with hc
  have hins : insertThreadAtTail (leftTo k x f u) k.layout.blocked k.runnable =
      { leftTo k x f u with ctx := c } :=
    insertThreadAtTail_blocked (hf.placed hpl) hmem (hwait.mem f List.mem_cons_self)
      (hwait.mem _ (ring_closed hring f List.mem_cons_self).2) htf
  -- the word stays: the same thread is the first
  have hkeep : u = setCtx u k.loadedMap a
      (lockWord (some ⟨h.owner, f :: q ++ [k.runnable]⟩)) := by
    have hw : u k.loadedMap a = lockWord (some ⟨h.owner, f :: q ++ [k.runnable]⟩) := by
      rw [hu _ _ (hl.word_lt hpl), hl.word]
      simp only [lockWord, hq, List.cons_append, firstCode]
    rw [← hw, setCtx_self]
  simp only
  rw [hins, hq]
  refine ⟨rfl, lockCall_of (r := x) (b := f) (c := c) (u := u) ?_ hu ?_
    (fun p hp => hl.owner p hp) ?_ ?_ ?_⟩
  · rw [← hkeep]
    rfl
  · refine hrun.congr (Frame.sched (leftTo k x f u) c _ _ f _) rfl fun p hp w _ => ?_
    refine linkBefore_notMem hring htf (fun hpq => hdis p hpq ?_) (fun heq => htx (heq ▸ hp)) w
    exact List.mem_cons_of_mem _ hp
  · exact hwait.join hmem htq (Frame.sched (leftTo k x f u) c _ _ f _) rfl
  · intro p w hw
    rw [hc, linkBefore_other hw]
    exact unlink_other (by omega)
  · intro p hp hpq w
    rw [Handover.queue_some, hq] at hpq
    rw [hc, linkBefore_notMem hring htf hpq (fun heq => hp (heq ▸ List.mem_cons_self))]
    exact unlink_notMem hr.ring hp w

/-- The calling thread waits for the lock. -/
theorem blockOnLock_call (hpl : Placed k) (hr : Running k rs)
    (hl : LockAt k k.loadedMap a (some h)) (hal : a % 8 = 0) (ha : a < 2 ^ 63)
    (h17 : k.reg k.runnable 17 = a) (h18 : k.reg k.runnable 18 = threadCode k.runnable)
    (hdis : ∀ p ∈ h.queue, p ∉ k.runnable :: rs)
    (hb : blockOnLock k k.runnable (k.user k.loadedMap a) = .ok k' now) :
    ∃ rs', rs = now :: rs' ∧ k'.runnable = now ∧
      LockCall k k' a rs rs' (some h) (some ⟨h.owner, h.queue ++ [k.runnable]⟩) := by
  obtain ⟨hlow, hhigh, -⟩ := hpl.lockWord_halves (hl.owner h.owner rfl)
  have hmem := hr.mem _ List.mem_cons_self
  unfold blockOnLock at hb
  rw [hl.word, hlow, hhigh, h17, h18] at hb
  simp only at hb
  split at hb
  · cases hb
  split at hb
  · cases hb
  split at hb
  · cases hb
  rename_i hne
  -- there is another runnable thread
  cases rs with
  | nil => exact absurd ((fld_of_mem hmem 0).trans (ring_nil.1 hr.ring).1) hne
  | cons x rs =>
    obtain ⟨hnext, -, b, u, hu, hrem⟩ := hr.leftTo hpl
    rw [hnext, hrem] at hb
    cases hq : h.queue with
    | nil =>
      have hcode : threadCode k.runnable % 2 ^ 32 = threadCode k.runnable := by
        have := (hpl.threadCode_eq hmem).2.2
        unfold heapTop at this
        omega
      have hcall := first_waits hpl hr hl hal ha hq hu
      rw [hq, firstCode, if_pos rfl, hcode] at hb
      cases hb
      rw [hq] at hcall
      exact ⟨rs, rfl, hcall⟩
    | cons f q =>
      have hf : f ∈ k.contexts := hl.waiters.mem f (by rw [Handover.queue_some, hq]; simp)
      have hcode : threadCode f ≠ 0 := (hpl.threadCode_eq hf).2.1.ne'
      have hcall := further_waits hpl hr hl hdis hq hu
      rw [hq, firstCode, if_neg hcode, hpl.threadFromCode_threadCode hf] at hb
      split at hb
      · cases hb
      cases hb
      rw [hq] at hcall
      exact ⟨rs, rfl, hcall⟩

/-- A thread that waits leaves the others, when it is not the fake head. -/
theorem removeThread_waiter {f : ℕ} (hpl : Placed k) (hf : f ∈ k.contexts)
    (hn : k.ctx f 0 ∈ k.contexts) (hp : k.ctx f 1 ∈ k.contexts)
    (ho : k.ctx f 2 = k.layout.blocked) (hb : k.blocked ≠ f) :
    removeThread k f = k.withCtx (unlink k.ctx f) := by
  have hlist : k.list f = k.layout.blocked := (fld_of_mem hf 2).trans ho
  have hd : dropHead k f = k := by
    unfold dropHead
    simp only [hlist, hpl.load64_blocked, hb, if_false]
  rw [removeThread_eq hf hn hp (by rw [hd]) (by rw [hd]), hd]

/-- The lock goes to the first thread that waits, and that runs. -/
theorem passLock_call {f : ℕ} {q : List ℕ} (hpl : Placed k) (hr : Running k rs)
    (hwait : Waiters k (f :: q)) (hq : h.queue = f :: q) (hal : a % 8 = 0) (ha : a < 2 ^ 63)
    (hdis : ∀ p ∈ f :: q, p ∉ k.runnable :: rs)
    (hp : passLock k a (threadCode f) = .ok k' now) :
    now = f ∧ k'.runnable = f ∧
      LockCall k k' a rs (k.runnable :: rs) (some h) (some ⟨f, q⟩) := by
  have hf : f ∈ k.contexts := hwait.mem f List.mem_cons_self
  have hfr : f ∉ k.runnable :: rs := hdis f List.mem_cons_self
  have hne : f ≠ k.runnable := fun heq => hfr (heq ▸ List.mem_cons_self)
  have hmem := hr.mem _ List.mem_cons_self
  have hclosed := ring_closed hr.ring _ List.mem_cons_self
  have hnext : k.next f = k.ctx f 0 := fld_of_mem hf 0
  have hring := hwait.ring f q rfl
  have hown : ∀ p, Handover.owner (some ⟨f, q⟩) = some p → p ∈ k.contexts := by
    rintro p ⟨⟩
    exact hf
  unfold passLock at hp
  rw [hpl.threadFromCode_threadCode hf] at hp
  simp only [hnext] at hp
  split at hp
  · cases hp
  cases q with
  | nil =>
    -- no other thread waits
    have hself : k.ctx f 0 = f := (ring_nil.1 hring).1
    rw [hself, if_pos rfl] at hp
    set c := linkBefore k.ctx f k.runnable with hc
    have hins : insertThreadAsHead k (runnableAddress k) f = { k with ctx := c, runnable := f } :=
      insertThreadAsHead_runnable hpl hf hmem (hr.mem _ hclosed.2) hne
    have hpl₂ : Placed { k with ctx := c, runnable := f } := hpl.congr rfl rfl
    have hword : lockWord (some ⟨f, []⟩) = threadCode f := by simp [lockWord, firstCode]
    rw [hins, hpl₂.store64_user hal ha] at hp
    cases hp
    refine ⟨rfl, rfl, lockCall_of (r := now) (b := k.blocked) (c := c) (u := k.user) ?_
      (fun _ _ _ => rfl) ?_ hown ?_ ?_ ?_⟩
    · rw [hword]
    · exact hr.join hf hfr (Frame.sched k c _ _ _ _) rfl rfl
    · exact ⟨by simp, by simp, by simp, by simp⟩
    · exact fun p w hw => linkBefore_other hw
    · intro p hpr hpq w
      rw [Handover.queue_some, hq] at hpq
      exact linkBefore_notMem hr.ring hne hpr (fun heq => hpq (heq ▸ List.mem_cons_self)) w
  | cons g q =>
    -- the next one that waits is the first of the list now
    have hfg : k.ctx f 0 = g := (List.isChain_cons_cons.1 hring).1.1
    have hgf : g ≠ f := fun heq => (List.nodup_cons.1 hwait.nodup).1 (heq ▸ List.mem_cons_self)
    have hfc := ring_closed hring f List.mem_cons_self
    rw [hfg, if_neg hgf.symm] at hp
    set k₂ : Kernel := { k with ctx := unlink k.ctx f, blocked := g } with hk₂
    have hrem : removeThread { k with blocked := g } f = k₂ :=
      removeThread_waiter (k := { k with blocked := g }) (hpl.congr rfl rfl) hf
        (hwait.mem _ hfc.1) (hwait.mem _ hfc.2) (hwait.owners f List.mem_cons_self) hgf
    have hf₂ : Frame k k₂ := Frame.sched k _ _ k.blockedWithTimeout g _
    have hsame : ∀ p, p ∉ f :: g :: q → ∀ w, k₂.ctx p w = k.ctx p w :=
      fun p hpq w => unlink_notMem hring hpq w
    have hrun₂ : Running k₂ rs :=
      hr.congr hf₂ rfl fun p hpr w _ => hsame p (fun hpq => hdis p hpq hpr) w
    set c := linkBefore k₂.ctx f k.runnable with hc
    have hins : insertThreadAsHead k₂ (runnableAddress k) f =
        { k₂ with ctx := c, runnable := f } :=
      insertThreadAsHead_runnable (hf₂.placed hpl) hf hmem
        (hrun₂.mem _ (ring_closed hrun₂.ring _ List.mem_cons_self).2) hne
    have hpl₃ : Placed { k₂ with ctx := c, runnable := f } := hpl.congr rfl rfl
    rw [hrem] at hp
    change Outcome.ok ((insertThreadAsHead k₂ (runnableAddress k) f).store64 a
      (lockWord (some ⟨f, g :: q⟩))) f = .ok k' now at hp
    rw [hins, hpl₃.store64_user hal ha] at hp
    cases hp
    refine ⟨rfl, rfl, lockCall_of (r := now) (b := g) (c := c) (u := k.user) rfl
      (fun _ _ _ => rfl) ?_ hown ?_ ?_ ?_⟩
    · exact hrun₂.join hf hfr (Frame.sched k₂ c _ _ _ _) rfl rfl
    · refine (hwait.leave hf₂ rfl).congr (fun _ hp => hp) rfl fun p hpq w _ => ?_
      refine linkBefore_notMem hrun₂.ring hne (hdis p (List.mem_cons_of_mem _ hpq)) ?_ w
      exact fun heq => (List.nodup_cons.1 hwait.nodup).1 (heq ▸ hpq)
    · intro p w hw
      rw [hc, linkBefore_other hw]
      exact unlink_other (by omega)
    · intro p hpr hpq w
      rw [Handover.queue_some, hq] at hpq
      have hpf : p ≠ now := fun heq => hpq (heq ▸ List.mem_cons_self)
      rw [hc, linkBefore_notMem hrun₂.ring hne hpr hpf]
      exact hsame p hpq w

/-- A wait: the lock is free, or the thread has it already, or it is to wait. -/
theorem waitForLock_cases (hw : handleSvcWaitForLock k t = .ok k' now) :
    ∃ k₁ v, LockWord k k₁ t v ∧ k.reg t 17 % 8 = 0 ∧
      ((v = 0 ∧ k' = k₁.store64 (k.reg t 17) (k.reg t 18) ∧ now = t) ∨
        (v ≠ 0 ∧ v = k.reg t 18 ∧ k' = k₁ ∧ now = t) ∨
        (v ≠ 0 ∧ v ≠ k.reg t 18 ∧ blockOnLock k₁ t v = .ok k' now)) := by
  unfold handleSvcWaitForLock at hw
  simp only at hw
  cases hok : addressIsUserWritable k t (k.reg t 17) with
  | halt k₁ =>
    rw [hok] at hw
    cases hw
  | ok k₁ b =>
    rw [hok] at hw
    cases b with
    | false => cases hw
    | true =>
      simp only at hw
      split at hw
      · cases hw
      split at hw
      · cases hw
      rename_i hal
      refine ⟨k₁, _, ⟨hok, rfl⟩, not_not.1 hal, ?_⟩
      split at hw
      · cases hw
        exact .inl ⟨‹_›, rfl, rfl⟩
      split at hw
      · cases hw
        exact .inr (.inl ⟨‹_›, ‹_›, rfl, rfl⟩)
      · exact .inr (.inr ⟨‹_›, ‹_›, hw⟩)

/-- The tables that a fault fills in do not matter for the locks. -/
theorem LockCall.of_tables {k₁ : Kernel} {rs' : List ℕ} {l' : Handover ℕ} {l1 l2 l3 : ℕ → ℕ}
    (h : LockCall k₁ k' a rs rs' l l') (hk : k₁ = { k with l1 := l1, l2 := l2, l3 := l3 }) :
    LockCall k k' a rs rs' l l' := by
  subst hk
  exact ⟨⟨h.frame.layout, h.frame.contexts, h.frame.heapBottom, h.frame.interruptThread,
    h.frame.interfaces, h.frame.freeInterface, h.frame.lastInterface, h.frame.mem⟩, h.loadedMap,
    h.running, h.lock, h.words, h.others, h.user⟩

/-- A thread that is not the owner waits: it asks for the lock. -/
theorem wait_asks (hpl : Placed k) (hr : Running k rs) (hl : LockAt k k.loadedMap a l)
    (h17 : k.reg k.runnable 17 = a) (h18 : k.reg k.runnable 18 = threadCode k.runnable)
    (hown : l.owner ≠ some k.runnable) (hdis : ∀ p ∈ l.queue, p ∉ k.runnable :: rs)
    (hw : handleSvcWaitForLock k k.runnable = .ok k' now) :
    ∃ rs', LockCall k k' a rs rs' l (l.ask k.runnable) ∧ k'.runnable = now ∧
      (l = none ∧ now = k.runnable ∧ rs' = rs ∨ l ≠ none ∧ rs = now :: rs') := by
  obtain ⟨k₁, v, hword, hal, hcase⟩ := waitForLock_cases hw
  obtain ⟨hlow, l1, l2, l3, rfl⟩ := addressIsUserWritable_ok hword.writable
  have hmem := hr.mem _ List.mem_cons_self
  rw [h17] at hal hlow hcase
  rw [h18] at hcase
  have ha : a < 2 ^ 63 := by omega
  have hv : v = lockWord l := by
    rw [← hword.load64 hpl, h17, hpl.load64_user hal ha, hl.word]
  set k₁ : Kernel := { k with l1 := l1, l2 := l2, l3 := l3 } with hk₁
  have hpl₁ : Placed k₁ := hpl.congr rfl rfl
  have hr₁ : Running k₁ rs := ⟨hr.ring, hr.nodup, hr.mem, hr.owners⟩
  have hl₁ : LockAt k₁ k₁.loadedMap a l := hl.congr (fun _ hp => hp) rfl rfl fun _ _ _ _ => rfl
  have hreg : ∀ i, k₁.reg k₁.runnable i = k.reg k.runnable i := fun i =>
    (fld_of_mem (k := k₁) hmem _).trans (fld_of_mem hmem _).symm
  cases l with
  | none =>
    rcases hcase with ⟨-, hk', hnow⟩ | hcase | hcase
    · have hcode : threadCode k.runnable = lockWord (some ⟨k.runnable, []⟩) := by
        simp [lockWord, firstCode]
      have hown₁ : ∀ p, Handover.owner (some ⟨k.runnable, []⟩) = some p → p ∈ k₁.contexts := by
        rintro p ⟨⟩
        exact hmem
      obtain ⟨hrun, hcall⟩ := store_call (l := none) hpl₁ hr₁ hal ha hown₁ rfl
      rw [hcode] at hk'
      rw [← hk'] at hrun hcall
      exact ⟨rs, hcall.of_tables hk₁, hrun.trans hnow.symm, .inl ⟨rfl, hnow, rfl⟩⟩
    · exact absurd hv hcase.1
    · exact absurd hv hcase.1
  | some h =>
    obtain ⟨howner, -, hne⟩ := hpl.lockWord_halves (hl.owner h.owner rfl)
    rcases hcase with hcase | hcase | ⟨-, -, hb⟩
    · exact absurd (hv.symm.trans hcase.1) hne
    · -- the owner is another thread
      have hcode := (hpl.threadCode_eq hmem).2.2
      unfold heapTop at hcode
      rw [← hv, hcase.2.1, Nat.mod_eq_of_lt (by omega)] at howner
      have heq := hpl.threadCode_inj hmem (hl.owner h.owner rfl) howner
      exact absurd (congrArg some heq.symm) hown
    · rw [hv, ← hl₁.word] at hb
      obtain ⟨rs', hrs, hrun, hcall⟩ := blockOnLock_call hpl₁ hr₁ hl₁ hal ha
        ((hreg 17).trans h17) ((hreg 18).trans h18) hdis hb
      exact ⟨rs', hcall.of_tables hk₁, hrun, .inr ⟨by simp, hrs⟩⟩

/-- A release is by the owner, and it passes the lock on. -/
theorem release_passes (hpl : Placed k) (hr : Running k rs) (hl : LockAt k k.loadedMap a l)
    (h17 : k.reg k.runnable 17 = a) (h18 : k.reg k.runnable 18 = threadCode k.runnable)
    (hal : a % 8 = 0) (hdis : ∀ p ∈ l.queue, p ∉ k.runnable :: rs)
    (hrel : handleSvcReleaseLock k k.runnable = .ok k' now) :
    l.owner = some k.runnable ∧ k'.runnable = now ∧ ∃ rs', LockCall k k' a rs rs' l l.pass ∧
      (l.queue = [] ∧ now = k.runnable ∧ rs' = rs ∨
        l.queue.head? = some now ∧ rs' = k.runnable :: rs) := by
  obtain ⟨k₁, v, hword, -, hv0, howner, hcase⟩ := releaseLock_cases hrel
  obtain ⟨hlow, l1, l2, l3, rfl⟩ := addressIsUserWritable_ok hword.writable
  have hmem := hr.mem _ List.mem_cons_self
  rw [h17] at hlow hcase
  rw [h18] at howner
  have ha : a < 2 ^ 63 := by omega
  have hv : v = lockWord l := by
    rw [← hword.load64 hpl, h17, hpl.load64_user hal ha, hl.word]
  set k₁ : Kernel := { k with l1 := l1, l2 := l2, l3 := l3 } with hk₁
  have hpl₁ : Placed k₁ := hpl.congr rfl rfl
  have hr₁ : Running k₁ rs := ⟨hr.ring, hr.nodup, hr.mem, hr.owners⟩
  cases l with
  | none => exact absurd hv hv0
  | some h =>
    obtain ⟨hlow', hhigh, -⟩ := hpl.lockWord_halves (hl.owner h.owner rfl)
    rw [hv, hlow'] at howner
    rw [hv, hhigh] at hcase
    have heq : h.owner = k.runnable := hpl.threadCode_inj (hl.owner h.owner rfl) hmem howner
    have hwait₁ : Waiters k₁ h.queue := hl.waiters.congr (fun _ hp => hp) rfl fun _ _ _ _ => rfl
    refine ⟨congrArg some heq, ?_⟩
    cases hq : h.queue with
    | nil =>
      rw [hq] at hcase
      rcases hcase with ⟨-, hk', hnow⟩ | hcase
      · obtain ⟨hrun, hcall⟩ := store_call (l := some h) (n := none) hpl₁ hr₁ hal ha (by simp) rfl
        rw [show lockWord none = 0 from rfl, ← hk'] at hrun hcall
        rw [Handover.pass_nil hq]
        exact ⟨hrun.trans hnow.symm, rs, hcall.of_tables hk₁, .inl ⟨hq, hnow, rfl⟩⟩
      · exact absurd rfl hcase.1
    | cons f q =>
      rw [hq] at hcase hwait₁
      rcases hcase with ⟨hz, -⟩ | ⟨-, hpass⟩
      · exact absurd hz (hpl.threadCode_eq (hwait₁.mem f List.mem_cons_self)).2.1.ne'
      · rw [Handover.queue_some, hq] at hdis
        obtain ⟨rfl, hrun, hcall⟩ := passLock_call hpl₁ hr₁ hwait₁ hq hal ha hdis hpass
        rw [Handover.pass_cons hq]
        refine ⟨hrun, _, hcall.of_tables hk₁, .inr ⟨?_, rfl⟩⟩
        rw [Handover.queue_some, hq]
        rfl

end Calls

end Isambard.El1
