import Mathlib.Data.List.TakeWhile
import Isambard.Lib.Runs
import Isambard.El1.Gate

/-!
# El1.Timeouts — waiting at gates, waking, and timeouts

Runs in which threads wait at their gates, wake each other and let time pass,
with yields between. The queue of threads with a timeout refines a set of
deadlines: `rem p` is the number of ticks that remain for the thread `p`, and the
deltas of the queue add up to it.

* `GateInv`: the ring of runnable threads, the queue, and the gates;
* `wait_inv`, `wake_inv`, `tick_inv`: the steps of the handler;
-/

namespace Isambard.El1

open Isambard.Lib

/-- The runnable threads are the running one and `rs`, in a ring; the threads that
wait with a timeout are `qs`, in the order of their deadlines. -/
structure GateInv (k : Kernel) (rs qs : List ℕ) (rem : ℕ → ℕ) : Prop where
  placed : Placed k
  owners : ∀ p ∈ k.contexts, OwnerOk k (k.ctx p 2)
  ring : Ring (nextOf k.ctx) (prevOf k.ctx) k.runnable rs
  ringNodup : (k.runnable :: rs).Nodup
  ringMem : ∀ p ∈ k.runnable :: rs, p ∈ k.contexts
  awake : ∀ p ∈ k.runnable :: rs, k.ctx p 38 ≠ threadWaiting
  queue : ∃ a, QSeg k qs a 0
  queueNodup : qs.Nodup
  waiting : ∀ p ∈ qs, p ∈ k.contexts ∧ k.ctx p 38 = threadWaiting
  queued : ∀ p ∈ k.contexts, k.ctx p 38 = threadWaiting → p ∈ qs ∨ k.ctx p 20 = 0
  sums : Sums (fun p => k.ctx p 5) rem 0 qs
  first : ∀ p ∈ qs.head?, 0 < k.ctx p 5
  bound : ∀ p ∈ qs, rem p < 2 ^ 64
  gates : ∀ p ∈ k.contexts, k.ctx p 38 = threadWaiting ∨ k.ctx p 38 ≤ 0x7fffffff

section Invariant

variable {k k' : Kernel} {rs qs : List ℕ} {rem : ℕ → ℕ}

theorem Frame.ownerOk {k k' : Kernel} (h : Frame k k') {a : ℕ} (ho : OwnerOk k a) :
    OwnerOk k' a := by
  unfold OwnerOk runnableAddress at *
  rw [h.layout]
  exact ho

theorem Frame.qseg {k k' : Kernel} {l : List ℕ} {a b : ℕ} (h : Frame k k')
    (hw : k'.blockedWithTimeout = k.blockedWithTimeout)
    (hl : ∀ p ∈ l, k'.ctx p 20 = k.ctx p 20 ∧ k'.ctx p 21 = k.ctx p 21) (hq : QSeg k l a b) :
    QSeg k' l a b := by
  unfold QSeg blockedWithTimeoutAddress at *
  rw [h.layout, hw]
  exact pseg_congr (fun p hp => (hl p hp).2) (fun p hp => (hl p hp).1) hq

theorem GateInv.runnable_mem (h : GateInv k rs qs rem) : k.runnable ∈ k.contexts :=
  h.ringMem _ List.mem_cons_self

theorem GateInv.notMem_ring (h : GateInv k rs qs rem) {p : ℕ} (hp : k.ctx p 38 = threadWaiting) :
    p ∉ k.runnable :: rs := fun hmem => h.awake p hmem hp

/-- Changes to words that neither the ring nor a waiting thread needs. -/
theorem GateInv.congr (h : GateInv k rs qs rem) (hf : Frame k k')
    (hr : k'.runnable = k.runnable) (hw : k'.blockedWithTimeout = k.blockedWithTimeout)
    (hlinks : ∀ p w, w < 3 → k'.ctx p w = k.ctx p w)
    (hwait : ∀ p ∈ k.contexts, k.ctx p 38 = threadWaiting →
      k'.ctx p 5 = k.ctx p 5 ∧ k'.ctx p 20 = k.ctx p 20 ∧ k'.ctx p 21 = k.ctx p 21 ∧
        k'.ctx p 38 = threadWaiting)
    (hgate : ∀ p ∈ k.contexts, k.ctx p 38 ≠ threadWaiting → k'.ctx p 38 ≤ 0x7fffffff) :
    GateInv k' rs qs rem := by
  have hnext : nextOf k'.ctx = nextOf k.ctx := funext fun p => hlinks p 0 (by decide)
  have hprev : prevOf k'.ctx = prevOf k.ctx := funext fun p => hlinks p 1 (by decide)
  have hq : ∀ p ∈ qs, k'.ctx p 5 = k.ctx p 5 ∧ k'.ctx p 20 = k.ctx p 20 ∧
      k'.ctx p 21 = k.ctx p 21 ∧ k'.ctx p 38 = threadWaiting :=
    fun p hp => hwait p (h.waiting p hp).1 (h.waiting p hp).2
  have hback : ∀ p ∈ k.contexts, k'.ctx p 38 = threadWaiting → k.ctx p 38 = threadWaiting := by
    intro p hp hp'
    by_contra hne
    have := hgate p hp hne
    rw [hp'] at this
    exact absurd this (by decide)
  refine ⟨hf.placed h.placed, ?_, ?_, ?_, ?_, ?_, ?_, h.queueNodup, ?_, ?_, ?_, ?_, h.bound, ?_⟩
  · intro p hp
    rw [hf.contexts] at hp
    rw [hlinks p 2 (by decide)]
    exact hf.ownerOk (h.owners p hp)
  · rw [hnext, hprev, hr]
    exact h.ring
  · rw [hr]
    exact h.ringNodup
  · rw [hr, hf.contexts]
    exact h.ringMem
  · intro p hp hp'
    rw [hr] at hp
    exact h.awake p hp (hback p (h.ringMem p hp) hp')
  · obtain ⟨a, ha⟩ := h.queue
    exact ⟨a, hf.qseg hw (fun p hp => ⟨(hq p hp).2.1, (hq p hp).2.2.1⟩) ha⟩
  · intro p hp
    rw [hf.contexts]
    exact ⟨(h.waiting p hp).1, (hq p hp).2.2.2⟩
  · intro p hp hp'
    rw [hf.contexts] at hp
    have hwp := hback p hp hp'
    rcases h.queued p hp hwp with hmem | hz
    · exact .inl hmem
    · exact .inr ((hwait p hp hwp).2.1.trans hz)
  · exact sums_congr (fun p hp => (hq p hp).1) (fun _ _ => rfl) h.sums
  · intro p hp
    rw [(hq p (List.mem_of_mem_head? hp)).1]
    exact h.first p hp
  · intro p hp
    rw [hf.contexts] at hp
    by_cases hwp : k.ctx p 38 = threadWaiting
    · exact .inl (hwait p hp hwp).2.2.2
    · exact .inr (hgate p hp hwp)

theorem GateInv.gate_le (h : GateInv k rs qs rem) {p : ℕ} (hp : p ∈ k.contexts)
    (hne : k.ctx p 38 ≠ threadWaiting) : k.ctx p 38 ≤ 0x7fffffff :=
  (h.gates p hp).resolve_left hne

end Invariant

/-! ## A thread waits -/

section Wait

variable {k : Kernel} {rs qs : List ℕ} {rem : ℕ → ℕ} {x : ℕ}

/-- The words of the contexts when the running thread has left the ring. -/
def parted (c : ℕ → ℕ → ℕ) (t : ℕ) : ℕ → ℕ → ℕ :=
  setCtx (setCtx (unlink c t) t 38 threadWaiting) t 4 0

theorem parted_words {c : ℕ → ℕ → ℕ} {t p w : ℕ} (h2 : 2 ≤ w) (h4 : w ≠ 4) (h38 : w ≠ 38) :
    parted c t p w = c p w := by
  unfold parted
  simp [h4, h38, unlink_other h2]

theorem parted_others {c : ℕ → ℕ → ℕ} {t p w : ℕ} (h2 : 2 ≤ w) (hp : p ≠ t) :
    parted c t p w = c p w := by
  unfold parted
  simp [hp, unlink_other h2]

/-- The ring without the thread that was running. -/
theorem unlink_ring {c : ℕ → ℕ → ℕ} {t : ℕ} (hr : Ring (nextOf c) (prevOf c) t (x :: rs))
    (hnd : (t :: x :: rs).Nodup) :
    Ring (nextOf (unlink c t)) (prevOf (unlink c t)) x rs := by
  have halone : prevOf c t = t → nextOf c t = t := by
    intro hp
    -- a thread before itself would be its own ring
    obtain ⟨s, hs, -, hlast⟩ := ring_last hr
    rw [hp] at hlast
    exact hlast
  rw [unlink_next, unlink_prev halone]
  exact ring_remove hr hnd

/-- The kernel when the running thread has left the ring to `x`. -/
def depart (k : Kernel) (x b : ℕ) (u : ℕ → ℕ → ℕ) : Kernel :=
  { k with ctx := parted k.ctx k.runnable, runnable := x, blocked := b, user := u }

theorem depart_frame (k : Kernel) (x b : ℕ) (u : ℕ → ℕ → ℕ) : Frame k (depart k x b u) :=
  Frame.sched k _ x k.blockedWithTimeout b u

/-- The first half of waiting: the thread leaves the ring. -/
theorem waitAtGate_eq (h : GateInv k (x :: rs) qs rem) :
    ∃ b u, waitAtGate k k.runnable =
      if 0 < k.ctx k.runnable 5 then
        match findSlot (depart k x b u) (k.contexts.length + 1) (blockedWithTimeoutAddress k)
            (k.ctx k.runnable 5) with
        | none => .halt (depart k x b u)
        | some (prev, blockedThread, remaining) =>
          .ok (joinQueue (depart k x b u) k.runnable prev blockedThread remaining) x
      else .ok (((depart k x b u).setReg k.runnable 16 0).setReg k.runnable 17 0) x := by
  have ht := h.runnable_mem
  have hx : x ∈ k.contexts := h.ringMem x (by simp)
  have hnext : k.ctx k.runnable 0 = x := (List.isChain_cons_cons.1 h.ring).1.1
  have hprev : k.ctx k.runnable 1 ∈ k.contexts :=
    h.ringMem _ (ring_closed h.ring _ List.mem_cons_self).2
  have hxt : x ≠ k.runnable := by
    intro heq
    exact (List.nodup_cons.1 h.ringNodup).1 (by simp [heq])
  obtain ⟨b, u, hrem, -⟩ := removeThread_other (k := { k with runnable := x })
    (h.placed.congr rfl rfl) ht (by rw [hnext]; exact hx) hprev (h.owners _ ht) hxt
  refine ⟨b, u, ?_⟩
  set k₂ : Kernel :=
    { k with ctx := unlink k.ctx k.runnable, runnable := x, blocked := b, user := u }
    with hk₂
  have hn : k.next k.runnable = x := (fld_of_mem ht 0).trans hnext
  have hset : (k₂.setGate k.runnable threadWaiting).setReg k.runnable 0 0 = depart k x b u := by
    unfold Kernel.setGate Kernel.setReg
    rw [setFld_of_mem (k := k₂) ht, setFld_of_mem (by exact ht)]
    rfl
  have hreg : (depart k x b u).reg k.runnable 1 = k.ctx k.runnable 5 :=
    (fld_of_mem (k := depart k x b u) ht 5).trans
      (parted_words (by decide) (by decide) (by decide))
  -- the search sees the same threads, from the same head
  have hcount : (depart k x b u).contexts.length = k.contexts.length := rfl
  have haddr : blockedWithTimeoutAddress (depart k x b u) = blockedWithTimeoutAddress k := rfl
  unfold waitAtGate
  simp only [hn, hrem, hset, hreg, gt_iff_lt]
  generalize (depart k x b u).contexts.length = threads at hcount ⊢
  generalize blockedWithTimeoutAddress (depart k x b u) = head at haddr ⊢
  subst hcount haddr
  rfl

/-- What a wait that blocks does, to the thread `t`. -/
structure Waited (k k' : Kernel) (t : ℕ) : Prop where
  frame : Frame k k'
  links : nextOf k'.ctx = nextOf (unlink k.ctx t) ∧ prevOf k'.ctx = prevOf (unlink k.ctx t)
  words : ∀ p w, 2 ≤ w → w ≠ 4 → w ≠ 38 → w ≠ 5 → w ≠ 20 → w ≠ 21 → k'.ctx p w = k.ctx p w
  others : ∀ p, p ≠ t → k'.ctx p 4 = k.ctx p 4 ∧ k'.ctx p 38 = k.ctx p 38
  result : k'.ctx t 4 = 0
  gate : k'.ctx t 38 = threadWaiting

/-- After the thread has left the ring only words of the queue change. -/
theorem waited_of_words {k' : Kernel} {b : ℕ} {u : ℕ → ℕ → ℕ} (hf : Frame (depart k x b u) k')
    (hw : ∀ p w, w ≠ 5 → w ≠ 20 → w ≠ 21 → k'.ctx p w = (depart k x b u).ctx p w) :
    Waited k k' k.runnable := by
  have hctx : (depart k x b u).ctx = parted k.ctx k.runnable := rfl
  rw [hctx] at hw
  refine ⟨(depart_frame k x b u).trans hf, ⟨?_, ?_⟩, ?_, ?_, ?_, ?_⟩
  · have hn : nextOf k'.ctx = nextOf (parted k.ctx k.runnable) :=
      funext fun p => hw p 0 (by decide) (by decide) (by decide)
    rw [hn, parted, nextOf_setCtx (by decide), nextOf_setCtx (by decide)]
  · have hp : prevOf k'.ctx = prevOf (parted k.ctx k.runnable) :=
      funext fun p => hw p 1 (by decide) (by decide) (by decide)
    rw [hp, parted, prevOf_setCtx (by decide), prevOf_setCtx (by decide)]
  · intro p w h2 h4 h38 h5 h20 h21
    rw [hw p w h5 h20 h21, parted_words h2 h4 h38]
  · intro p hp
    rw [hw p 4 (by decide) (by decide) (by decide), hw p 38 (by decide) (by decide) (by decide)]
    exact ⟨parted_others (by decide) hp, parted_others (by decide) hp⟩
  · rw [hw _ 4 (by decide) (by decide) (by decide)]
    simp [parted]
  · rw [hw _ 38 (by decide) (by decide) (by decide)]
    simp [parted]

/-- The invariant, for a thread that waits and is in the queue if it is to be. -/
theorem waited_inv {k' : Kernel} {qs' : List ℕ} {n : ℕ} (h : GateInv k (x :: rs) qs rem)
    (hw : Waited k k' k.runnable) (hrun : k'.runnable = x)
    (hqueue : ∃ a, QSeg k' qs' a 0) (hnd : qs'.Nodup)
    (hmem : ∀ p, p ∈ qs' ↔ p ∈ qs ∨ (p = k.runnable ∧ 0 < n))
    (hlast : n = 0 → k'.ctx k.runnable 20 = 0)
    (hzero : ∀ p, p ≠ k.runnable → p ∉ qs → k'.ctx p 20 = k.ctx p 20)
    (hsums : Sums (fun p => k'.ctx p 5) (Function.update rem k.runnable n) 0 qs')
    (hfirst : ∀ p ∈ qs'.head?, 0 < k'.ctx p 5) (hn : n < 2 ^ 64) :
    GateInv k' rs qs' (Function.update rem k.runnable n) := by
  have hring : Ring (nextOf k'.ctx) (prevOf k'.ctx) x rs := by
    rw [hw.links.1, hw.links.2]
    exact unlink_ring h.ring h.ringNodup
  have hne : ∀ p ∈ x :: rs, p ≠ k.runnable :=
    fun p hp heq => (List.nodup_cons.1 h.ringNodup).1 (heq ▸ hp)
  have hgate : ∀ p, p ≠ k.runnable → k'.ctx p 38 = k.ctx p 38 := fun p hp => (hw.others p hp).2
  refine ⟨hw.frame.placed h.placed, ?_, ?_, ?_, ?_, ?_, hqueue, hnd, ?_, ?_, hsums, hfirst, ?_, ?_⟩
  · intro p hp
    rw [hw.frame.contexts] at hp
    rw [hw.words p 2 (by decide) (by decide) (by decide) (by decide) (by decide) (by decide)]
    exact hw.frame.ownerOk (h.owners p hp)
  · rw [hrun]
    exact hring
  · rw [hrun]
    exact (List.nodup_cons.1 h.ringNodup).2
  · rw [hrun, hw.frame.contexts]
    exact fun p hp => h.ringMem p (List.mem_cons_of_mem _ hp)
  · rw [hrun]
    intro p hp
    rw [hgate p (hne p hp)]
    exact h.awake p (List.mem_cons_of_mem _ hp)
  · intro p hp
    rw [hw.frame.contexts]
    rcases (hmem p).1 hp with hp | ⟨rfl, -⟩
    · have hpt : p ≠ k.runnable := fun heq =>
        h.awake p (by simp [heq]) (h.waiting p hp).2
      exact ⟨(h.waiting p hp).1, (hgate p hpt).trans (h.waiting p hp).2⟩
    · exact ⟨h.runnable_mem, hw.gate⟩
  · intro p hp hwait
    rw [hw.frame.contexts] at hp
    by_cases hpt : p = k.runnable
    · subst hpt
      -- a thread that waits for ever has no link to the queue
      rcases Nat.eq_zero_or_pos n with hz | hpos
      · exact .inr (hlast hz)
      · exact .inl ((hmem _).2 (.inr ⟨rfl, hpos⟩))
    · rw [hgate p hpt] at hwait
      by_cases hpq : p ∈ qs
      · exact .inl ((hmem p).2 (.inl hpq))
      · right
        rw [hzero p hpt hpq]
        exact (h.queued p hp hwait).resolve_left hpq
  · intro p hp
    by_cases hpt : p = k.runnable
    · subst hpt
      rw [Function.update_self]
      exact hn
    · rw [Function.update_of_ne hpt]
      exact h.bound p (((hmem p).1 hp).resolve_right fun h => hpt h.1)
  · intro p hp
    rw [hw.frame.contexts] at hp
    by_cases hpt : p = k.runnable
    · exact .inl (hpt ▸ hw.gate)
    · rw [hgate p hpt]
      exact h.gates p hp

/-- The queue is as it was when the thread has left the ring. -/
theorem depart_queue (h : GateInv k (x :: rs) qs rem) (b : ℕ) (u : ℕ → ℕ → ℕ) :
    ∃ a, QSeg (depart k x b u) qs a 0 := by
  obtain ⟨a, ha⟩ := h.queue
  refine ⟨a, (depart_frame k x b u).qseg rfl (fun p _ => ⟨?_, ?_⟩) ha⟩
  · exact parted_words (by decide) (by decide) (by decide)
  · exact parted_words (by decide) (by decide) (by decide)

theorem GateInv.runnable_notMem_queue (h : GateInv k rs qs rem) : k.runnable ∉ qs :=
  fun hmem => h.awake _ List.mem_cons_self (h.waiting _ hmem).2

/-- What the running thread knows of a wait that blocks. -/
def Blocked (k : Kernel) (rs qs : List ℕ) (rem : ℕ → ℕ) (x : ℕ) : Prop :=
  ∃ k' qs', waitAtGate k k.runnable = .ok k' x ∧ k'.runnable = x ∧ Waited k k' k.runnable ∧
    GateInv k' rs qs' (Function.update rem k.runnable (k.ctx k.runnable 5)) ∧
    ∀ p, p ∈ qs' ↔ p ∈ qs ∨ (p = k.runnable ∧ 0 < k.ctx k.runnable 5)

/-- A wait without a timeout. -/
theorem wait_forever (h : GateInv k (x :: rs) qs rem) (hz : k.ctx k.runnable 5 = 0) :
    Blocked k rs qs rem x := by
  have ht := h.runnable_mem
  obtain ⟨b, u, heq⟩ := waitAtGate_eq h
  obtain ⟨a, hq⟩ := depart_queue h b u
  have hqt : ∀ p ∈ qs, p ≠ k.runnable := fun p hp heq => h.runnable_notMem_queue (heq ▸ hp)
  set c := setCtx (setCtx (parted k.ctx k.runnable) k.runnable 20 0) k.runnable 21 0 with hc
  set k' := (depart k x b u).withCtx c with hk'
  have hok : waitAtGate k k.runnable = .ok k' x := by
    rw [heq, hz, if_neg (Nat.lt_irrefl 0)]
    unfold Kernel.setReg
    rw [setFld_of_mem (k := depart k x b u) ht, setFld_of_mem (by exact ht)]
    rfl
  have hc₀ : ∀ p w, w ≠ 20 → w ≠ 21 → c p w = parted k.ctx k.runnable p w := by
    intro p w h20 h21
    simp [hc, h20, h21]
  have hother : ∀ p w, p ≠ k.runnable → c p w = parted k.ctx k.runnable p w := by
    intro p w hp
    simp [hc, hp]
  have hf : Frame (depart k x b u) k' := ⟨rfl, rfl, rfl, rfl, rfl, rfl, rfl, rfl⟩
  have hwaited : Waited k k' k.runnable :=
    waited_of_words hf fun p w _ h20 h21 => hc₀ p w h20 h21
  have hdelta : ∀ p, c p 5 = k.ctx p 5 := fun p =>
    (hc₀ p 5 (by decide) (by decide)).trans (parted_words (by decide) (by decide) (by decide))
  have hmem : ∀ p, p ∈ qs ↔ p ∈ qs ∨ (p = k.runnable ∧ 0 < k.ctx k.runnable 5) := by
    intro p
    simp [hz]
  refine ⟨k', qs, hok, rfl, hwaited, ?_, hmem⟩
  refine waited_inv h hwaited rfl ⟨a, ?_⟩ h.queueNodup hmem ?_ ?_ ?_ ?_ ?_
  · exact hf.qseg rfl (fun p hp => ⟨hother p 20 (hqt p hp), hother p 21 (hqt p hp)⟩) hq
  · intro _
    show c k.runnable 20 = 0
    simp [hc]
  · intro p hp _
    exact (hother p 20 hp).trans (parted_words (by decide) (by decide) (by decide))
  · refine sums_congr (fun p _ => hdelta p) (fun p hp => ?_) h.sums
    exact Function.update_of_ne (hqt p hp) _ _
  · intro p hp
    show 0 < c p 5
    rw [hdelta p]
    exact h.first p hp
  · rw [hz]
    decide

/-- The deltas are within a register. -/
theorem GateInv.delta_lt (h : GateInv k rs qs rem) {p : ℕ} (hp : p ∈ qs) :
    k.ctx p 5 < 2 ^ 64 := by
  obtain ⟨s, u, rfl⟩ := List.append_of_mem hp
  have hat := sums_at h.sums
  have hb := h.bound p hp
  simp only [List.map_append, List.map_cons, List.map_nil, List.sum_append, List.sum_cons,
    List.sum_nil] at hat
  omega

theorem GateInv.queue_length (h : GateInv k rs qs rem) : qs.length ≤ k.contexts.length :=
  (List.subperm_of_subset h.queueNodup fun p hp => (h.waiting p hp).1).length_le

/-- The delta of the first thread of a queue that was joined. -/
theorem first_joined {delta : ℕ → ℕ} {l₁ l₂ : List ℕ} {t m : ℕ} (hnd : (l₁ ++ l₂).Nodup)
    (ht : t ∉ l₁ ++ l₂) (hm : 0 < m) (hfirst : ∀ p ∈ (l₁ ++ l₂).head?, 0 < delta p) :
    ∀ p ∈ (l₁ ++ t :: l₂).head?,
      0 < adjustHead (· - m) (Function.update delta t m) l₂ p := by
  intro p hp
  rw [List.mem_append, not_or] at ht
  cases l₁ with
  | nil =>
    obtain rfl : t = p := by simpa using hp
    rw [adjustHead_of_notMem ht.2, Function.update_self]
    exact hm
  | cons q l₁ =>
    obtain rfl : q = p := by simpa using hp
    rw [List.nodup_append] at hnd
    have hql₂ : q ∉ l₂ := fun hq => hnd.2.2 q (by simp) q hq rfl
    have hqt : q ≠ t := fun heq => ht.1 (by simp [heq])
    rw [adjustHead_of_notMem hql₂, Function.update_of_ne hqt]
    exact hfirst q (by simp)

theorem mem_middle {l₁ l₂ : List ℕ} {t p : ℕ} : p ∈ l₁ ++ t :: l₂ ↔ p ∈ l₁ ++ l₂ ∨ p = t := by
  simp only [List.mem_append, List.mem_cons]
  tauto

/-- A wait with a timeout: the thread joins the queue. -/
theorem wait_timeout (h : GateInv k (x :: rs) qs rem) (hpos : 0 < k.ctx k.runnable 5)
    (hn : k.ctx k.runnable 5 < 2 ^ 64) : Blocked k rs qs rem x := by
  have ht := h.runnable_mem
  have htq := h.runnable_notMem_queue
  have hqs : ∀ p ∈ qs, p ∈ k.contexts := fun p hp => (h.waiting p hp).1
  have hqt : ∀ p ∈ qs, p ≠ k.runnable := fun p hp heq => htq (heq ▸ hp)
  obtain ⟨b, u, heq⟩ := waitAtGate_eq h
  have hpl : Placed (depart k x b u) := (depart_frame k x b u).placed h.placed
  have hd : ∀ p, (depart k x b u).ctx p 5 = k.ctx p 5 := fun p =>
    parted_words (by decide) (by decide) (by decide)
  have hlen := h.queue_length
  obtain ⟨l₁, l₂, a, g, m, rfl, hslot, hq₁, hr₁, hsum, hm, hle⟩ :=
    findSlot_spec (k := depart k x b u) (l := qs) hpl (by exact hqs)
      (show QSeg (depart k x b u) [] (blockedWithTimeoutAddress k) k.blockedWithTimeout from
        ⟨rfl, rfl⟩)
      (depart_queue h b u) (n := k.ctx k.runnable 5) (f := k.contexts.length + 1) (by omega) hpos
  simp only [hd] at hsum hle
  have hok : waitAtGate k k.runnable = .ok (joinQueue (depart k x b u) k.runnable a g m) x := by
    rw [heq, if_pos hpos, hslot]
  have hedit := joinQueue_spec (t := k.runnable) (m := m) hpl ht hqs
    h.queueNodup htq hq₁ hr₁ (fun p hp => (hle p hp).trans_eq (hd p).symm)
    (fun p hp => (hd p).trans_lt
      (h.delta_lt (List.mem_append_right _ (List.mem_of_mem_head? hp))))
  generalize joinQueue (depart k x b u) k.runnable a g m = k' at hok hedit
  have hwaited : Waited k k' k.runnable := waited_of_words hedit.frame hedit.words
  have hmem : ∀ p, p ∈ l₁ ++ k.runnable :: l₂ ↔
      p ∈ l₁ ++ l₂ ∨ (p = k.runnable ∧ 0 < k.ctx k.runnable 5) := by
    intro p
    rw [mem_middle, and_iff_left hpos]
  have hdelta := hedit.delta
  simp only [hd] at hdelta
  refine ⟨k', l₁ ++ k.runnable :: l₂, hok, hedit.runnable, hwaited, ?_, hmem⟩
  refine waited_inv h hwaited hedit.runnable hedit.queue ?_ hmem (by omega) ?_ ?_ ?_ hn
  · exact List.perm_middle.nodup_iff.2 (List.nodup_cons.2 ⟨htq, h.queueNodup⟩)
  · intro p hp hpq
    have hpn : p ∉ l₁ ++ k.runnable :: l₂ := by
      intro hmem'
      rcases (hmem p).1 hmem' with hp' | ⟨hp', -⟩
      · exact hpq hp'
      · exact hp hp'
    exact (hedit.others p 20 hpn).trans (parted_words (by decide) (by decide) (by decide))
  · rw [hdelta]
    refine sums_insert ?_ h.queueNodup htq ?_ hle
    · exact sums_congr (fun _ _ => rfl) (fun p hp => Function.update_of_ne (hqt p hp) _ _) h.sums
    · rw [Function.update_self]
      exact hsum
  · intro p hp
    show 0 < k'.ctx p 5
    rw [show k'.ctx p 5 = _ from congrFun hdelta p]
    exact first_joined h.queueNodup htq hm h.first p hp

/-- A wait that blocks. -/
theorem wait_inv (h : GateInv k (x :: rs) qs rem) (hn : k.ctx k.runnable 5 < 2 ^ 64) :
    Blocked k rs qs rem x := by
  rcases Nat.eq_zero_or_pos (k.ctx k.runnable 5) with hz | hpos
  · exact wait_forever h hz
  · exact wait_timeout h hpos hn

end Wait

/-! ## Threads become runnable again -/

section Release

variable {k k' : Kernel} {rs qs qs' es : List ℕ} {rem rem' : ℕ → ℕ}

/-- What a wake, or a tick, does for the threads `es` that waited. -/
structure Released (k k' : Kernel) (rs es : List ℕ) : Prop where
  frame : Frame k k'
  runnable : k'.runnable = k.runnable
  ring : Ring (nextOf k'.ctx) (prevOf k'.ctx) k.runnable (es.reverse ++ rs)
  owners : ∀ p, k'.ctx p 2 = k.ctx p 2 ∨ k'.ctx p 2 = k.ctx k.runnable 2
  words : ∀ p w, 3 ≤ w → w ≠ 4 → w ≠ 5 → w ≠ 20 → w ≠ 21 → w ≠ 38 → k'.ctx p w = k.ctx p w
  gates : ∀ p, k'.ctx p 38 = if p ∈ es then 0 else k.ctx p 38

/-- The invariant, when the queue has lost the threads that are runnable again. -/
theorem released_inv (h : GateInv k rs qs rem) (hr : Released k k' rs es) (hnd : es.Nodup)
    (hes : ∀ p ∈ es, p ∈ k.contexts ∧ k.ctx p 38 = threadWaiting)
    (hqueue : ∃ a, QSeg k' qs' a 0) (hqnd : qs'.Nodup) (hmem : ∀ p, p ∈ qs' ↔ p ∈ qs ∧ p ∉ es)
    (hzero : ∀ p, p ∉ qs → p ∉ es → k'.ctx p 20 = k.ctx p 20)
    (hsums : Sums (fun p => k'.ctx p 5) rem' 0 qs') (hfirst : ∀ p ∈ qs'.head?, 0 < k'.ctx p 5)
    (hbound : ∀ p ∈ qs', rem' p < 2 ^ 64) : GateInv k' (es.reverse ++ rs) qs' rem' := by
  have hring : ∀ p, p ∈ k.runnable :: (es.reverse ++ rs) ↔ p ∈ es ∨ p ∈ k.runnable :: rs := by
    intro p
    simp only [List.mem_cons, List.mem_append, List.mem_reverse]
    tauto
  have hgone : ∀ p ∈ es, p ∉ k.runnable :: rs := fun p hp => h.notMem_ring (hes p hp).2
  have hwait : ∀ p, k'.ctx p 38 = threadWaiting → p ∉ es ∧ k.ctx p 38 = threadWaiting := by
    intro p hp
    rw [hr.gates p] at hp
    split at hp
    · exact absurd hp (by decide)
    · exact ⟨‹_›, hp⟩
  refine ⟨hr.frame.placed h.placed, ?_, ?_, ?_, ?_, ?_, hqueue, hqnd, ?_, ?_, hsums, hfirst,
    hbound, ?_⟩
  · intro p hp
    rw [hr.frame.contexts] at hp
    rcases hr.owners p with ho | ho
    · rw [ho]
      exact hr.frame.ownerOk (h.owners p hp)
    · rw [ho]
      exact hr.frame.ownerOk (h.owners _ h.runnable_mem)
  · rw [hr.runnable]
    exact hr.ring
  · -- the released threads come behind the head, and none of them was in the ring
    rw [hr.runnable]
    have hrs := List.nodup_cons.1 h.ringNodup
    refine List.nodup_cons.2 ⟨?_, List.nodup_append.2 ⟨List.nodup_reverse.2 hnd, hrs.2, ?_⟩⟩
    · intro hp
      rcases List.mem_append.1 hp with hp | hp
      · exact hgone _ (List.mem_reverse.1 hp) List.mem_cons_self
      · exact hrs.1 hp
    · intro p hp q hq heq
      exact hgone p (List.mem_reverse.1 hp) (heq ▸ List.mem_cons_of_mem _ hq)
  · intro p hp
    rw [hr.runnable] at hp
    rw [hr.frame.contexts]
    rcases (hring p).1 hp with hp | hp
    · exact (hes p hp).1
    · exact h.ringMem p hp
  · -- a thread of the ring does not wait, whether it was released or there before
    intro p hp hw
    rw [hr.runnable] at hp
    have := hwait p hw
    exact h.notMem_ring this.2 (((hring p).1 hp).resolve_left this.1)
  · intro p hp
    rw [hr.frame.contexts, hr.gates p, if_neg ((hmem p).1 hp).2]
    exact h.waiting p ((hmem p).1 hp).1
  · -- one that still waits is still in the queue, or waits without a limit
    intro p hp hw
    rw [hr.frame.contexts] at hp
    rcases hwait p hw with ⟨hpe, hw⟩
    by_cases hpq : p ∈ qs
    · exact .inl ((hmem p).2 ⟨hpq, hpe⟩)
    · rw [hzero p hpq hpe]
      exact .inr ((h.queued p hp hw).resolve_left hpq)
  · intro p hp
    rw [hr.frame.contexts] at hp
    rw [hr.gates p]
    split
    · right
      decide
    · exact h.gates p hp

/-- The words of the contexts when `g` has joined the ring, and waits no longer. -/
def woken (c : ℕ → ℕ → ℕ) (g t : ℕ) : ℕ → ℕ → ℕ := setCtx (linkAfter c g t) g 38 0

theorem woken_words {c : ℕ → ℕ → ℕ} {g t p w : ℕ} (h3 : 3 ≤ w) (h38 : w ≠ 38) :
    woken c g t p w = c p w := by
  unfold woken
  simp [h38, linkAfter_other h3]

theorem woken_gate {c : ℕ → ℕ → ℕ} {g t p : ℕ} :
    woken c g t p 38 = if p = g then 0 else c p 38 := by
  unfold woken
  simp [linkAfter_other]

/-- Only words of the queue change, after the woken thread has joined the ring. -/
theorem released_of_woken {g : ℕ} (h : GateInv k rs qs rem) (hw : k.ctx g 38 = threadWaiting)
    (hf : Frame k k') (hrun : k'.runnable = k.runnable)
    (hwords : ∀ p w, w ≠ 5 → w ≠ 20 → w ≠ 21 → k'.ctx p w = woken k.ctx g k.runnable p w) :
    Released k k' rs [g] ∧ ∀ p, k'.ctx p 4 = k.ctx p 4 := by
  have hg := h.notMem_ring hw
  have hgt : g ≠ k.runnable := fun heq => hg (by simp [heq])
  have hnext : nextOf k'.ctx = nextOf (linkAfter k.ctx g k.runnable) := by
    have hn : nextOf k'.ctx = nextOf (woken k.ctx g k.runnable) :=
      funext fun p => hwords p 0 (by decide) (by decide) (by decide)
    rw [hn, woken, nextOf_setCtx (by decide)]
  have hprev : prevOf k'.ctx = prevOf (linkAfter k.ctx g k.runnable) := by
    have hp : prevOf k'.ctx = prevOf (woken k.ctx g k.runnable) :=
      funext fun p => hwords p 1 (by decide) (by decide) (by decide)
    rw [hp, woken, prevOf_setCtx (by decide)]
  refine ⟨⟨hf, hrun, ?_, ?_, ?_, ?_⟩, ?_⟩
  · rw [hnext, hprev]
    exact linkAfter_ring h.ring h.ringNodup hg
  · intro p
    rw [hwords p 2 (by decide) (by decide) (by decide)]
    have hlist : woken k.ctx g k.runnable p 2 = linkAfter k.ctx g k.runnable p 2 := by
      simp [woken]
    rw [hlist, linkAfter_list hgt]
    split
    · exact .inr rfl
    · exact .inl rfl
  · intro p w h3 _ h5 h20 h21 h38
    rw [hwords p w h5 h20 h21, woken_words h3 h38]
  · intro p
    rw [hwords p 38 (by decide) (by decide) (by decide), woken_gate]
    simp
  · intro p
    rw [hwords p 4 (by decide) (by decide) (by decide), woken_words (by decide) (by decide)]

/-- The delta of the first thread of a queue that was left. -/
theorem first_left {delta : ℕ → ℕ} {l₁ l₂ : List ℕ} {t : ℕ} (hnd : (l₁ ++ t :: l₂).Nodup)
    (hfirst : ∀ p ∈ (l₁ ++ t :: l₂).head?, 0 < delta p) :
    ∀ p ∈ (l₁ ++ l₂).head?, 0 < adjustHead (· + delta t) delta l₂ p := by
  intro p hp
  cases l₁ with
  | nil =>
    cases l₂ with
    | nil => cases hp
    | cons q l₂ =>
      obtain rfl : q = p := by simpa using hp
      have ht := hfirst t (by simp)
      rw [adjustHead_cons, Function.update_self]
      omega
  | cons q l₁ =>
    obtain rfl : q = p := by simpa using hp
    rw [List.nodup_append] at hnd
    have hql₂ : q ∉ l₂ := fun hq => hnd.2.2 q (by simp) q (by simp [hq]) rfl
    rw [adjustHead_of_notMem hql₂]
    exact hfirst q (by simp)

/-- Waking a thread leaves the words of the queue alone. -/
theorem woken_queue {g a : ℕ} (hq : QSeg k qs a 0) :
    QSeg (k.withCtx (woken k.ctx g k.runnable)) qs a 0 := by
  have hf : Frame k (k.withCtx (woken k.ctx g k.runnable)) :=
    ⟨rfl, rfl, rfl, rfl, rfl, rfl, rfl, rfl⟩
  refine hf.qseg rfl (fun p _ => ⟨?_, ?_⟩) hq
  · exact woken_words (by decide) (by decide)
  · exact woken_words (by decide) (by decide)

/-- The woken thread is in the queue: it leaves it. -/
theorem wake_queued {g : ℕ} (h : GateInv k rs qs rem) (hg : g ∈ k.contexts)
    (hw : k.ctx g 38 = threadWaiting) (hgq : g ∈ qs) :
    ∃ k' qs', leaveQueue (k.withCtx (woken k.ctx g k.runnable)) g = k' ∧ Released k k' rs [g] ∧
      (∀ p, k'.ctx p 4 = k.ctx p 4) ∧ GateInv k' (g :: rs) qs' rem ∧
      ∀ p, p ∈ qs' ↔ p ∈ qs ∧ p ∉ [g] := by
  set k₁ := k.withCtx (woken k.ctx g k.runnable) with hk₁
  have hf₁ : Frame k k₁ := ⟨rfl, rfl, rfl, rfl, rfl, rfl, rfl, rfl⟩
  have hpl₁ : Placed k₁ := hf₁.placed h.placed
  have hq₁ : ∀ p w, 3 ≤ w → w ≠ 38 → k₁.ctx p w = k.ctx p w := fun p w h3 h38 => woken_words h3 h38
  obtain ⟨a, ha⟩ := h.queue
  obtain ⟨l₁, l₂, rfl⟩ := List.append_of_mem hgq
  have hd : ∀ p, k₁.ctx p 5 = k.ctx p 5 := fun p => hq₁ p 5 (by decide) (by decide)
  -- The difference that the next one takes over is what remained of that one's time.
  have hb : ∀ p ∈ l₂.head?, k₁.ctx p 5 + k₁.ctx g 5 < 2 ^ 64 := by
    intro p hp
    obtain ⟨l₃, rfl⟩ : ∃ l₃, l₂ = p :: l₃ := List.head?_eq_some_iff.1 hp
    have hsums := h.sums
    rw [sums_append, sums_cons, sums_cons] at hsums
    have := h.bound p (by simp)
    rw [hd, hd]
    omega
  have hedit := leaveQueue_spec hpl₁ (fun p hp => (h.waiting p hp).1) h.queueNodup
    (woken_queue ha) hb
  generalize leaveQueue k₁ g = k' at hedit
  have hdelta : (fun p => k'.ctx p 5) =
      adjustHead (· + k.ctx g 5) (fun p => k.ctx p 5) l₂ := by
    rw [hedit.delta]
    simp only [hd]
  obtain ⟨hrel, hres⟩ := released_of_woken h hw (hf₁.trans hedit.frame) hedit.runnable
    hedit.words
  have hnd := h.queueNodup
  have hnd' : (g :: (l₁ ++ l₂)).Nodup := List.perm_middle.nodup_iff.1 hnd
  have hgn : g ∉ l₁ ++ l₂ := (List.nodup_cons.1 hnd').1
  have hmem : ∀ p, p ∈ l₁ ++ l₂ ↔ p ∈ l₁ ++ g :: l₂ ∧ p ∉ [g] := by
    intro p
    rw [mem_middle, List.mem_singleton]
    constructor
    · intro hp
      exact ⟨.inl hp, fun heq => hgn (heq ▸ hp)⟩
    · rintro ⟨hp, hne⟩
      exact hp.resolve_right hne
  refine ⟨k', l₁ ++ l₂, rfl, hrel, hres, ?_, hmem⟩
  refine released_inv h hrel (by simp) (by simpa using ⟨hg, hw⟩) hedit.queue ?_ hmem ?_ ?_ ?_ ?_
  · exact (List.nodup_cons.1 hnd').2
  · intro p hp _
    have hpn : p ∉ l₁ ++ l₂ := fun hmem' => hp ((hmem p).1 hmem').1
    exact (hedit.others p 20 hpn).trans (hq₁ p 20 (by decide) (by decide))
  · rw [hdelta]
    exact sums_remove h.sums hnd
  · intro p hp
    show 0 < k'.ctx p 5
    rw [show k'.ctx p 5 = _ from congrFun hdelta p]
    exact first_left hnd h.first p hp
  · exact fun p hp => h.bound p ((hmem p).1 hp).1

/-- The woken thread waits without a timeout: the queue stays. -/
theorem wake_unqueued {g : ℕ} (h : GateInv k rs qs rem) (hg : g ∈ k.contexts)
    (hw : k.ctx g 38 = threadWaiting) (hgq : g ∉ qs) :
    ∃ k' qs', leaveQueue (k.withCtx (woken k.ctx g k.runnable)) g = k' ∧ Released k k' rs [g] ∧
      (∀ p, k'.ctx p 4 = k.ctx p 4) ∧ GateInv k' (g :: rs) qs' rem ∧
      ∀ p, p ∈ qs' ↔ p ∈ qs ∧ p ∉ [g] := by
  set k₁ := k.withCtx (woken k.ctx g k.runnable) with hk₁
  have hf₁ : Frame k k₁ := ⟨rfl, rfl, rfl, rfl, rfl, rfl, rfl, rfl⟩
  have hq₁ : ∀ p w, 3 ≤ w → w ≠ 38 → k₁.ctx p w = k.ctx p w := fun p w h3 h38 => woken_words h3 h38
  obtain ⟨a, ha⟩ := h.queue
  have h20 : k₁.reg g 16 = 0 := by
    refine (fld_of_mem (k := k₁) hg 20).trans ((hq₁ g 20 (by decide) (by decide)).trans ?_)
    exact (h.queued g hg hw).resolve_left hgq
  have hleave : leaveQueue k₁ g = k₁ := by
    unfold leaveQueue
    rw [if_neg (not_not.2 h20)]
  obtain ⟨hrel, hres⟩ := released_of_woken h hw hf₁ rfl fun p w _ _ _ => rfl
  have hmem : ∀ p, p ∈ qs ↔ p ∈ qs ∧ p ∉ [g] := by
    intro p
    rw [List.mem_singleton]
    exact ⟨fun hp => ⟨hp, fun heq => hgq (heq ▸ hp)⟩, fun hp => hp.1⟩
  refine ⟨k₁, qs, hleave, hrel, hres, ?_, hmem⟩
  refine released_inv h hrel (by simp) (by simpa using ⟨hg, hw⟩) ⟨a, woken_queue ha⟩ h.queueNodup
    hmem ?_ ?_ ?_ h.bound
  · exact fun p _ _ => hq₁ p 20 (by decide) (by decide)
  · exact sums_congr (fun p _ => hq₁ p 5 (by decide) (by decide)) (fun _ _ => rfl) h.sums
  · intro p hp
    rw [hq₁ p 5 (by decide) (by decide)]
    exact h.first p hp

/-- The wake of a thread that waits. -/
theorem wake_waiting {g : ℕ} (h : GateInv k rs qs rem) (hg : g ∈ k.contexts)
    (hw : k.ctx g 38 = threadWaiting) (hmap : k.currentMap k.runnable = k.currentMap g) :
    ∃ k' qs', resumeThread k k.runnable g = .ok k' k.runnable ∧ Released k k' rs [g] ∧
      (∀ p, k'.ctx p 4 = k.ctx p 4) ∧ GateInv k' (g :: rs) qs' rem ∧
      ∀ p, p ∈ qs' ↔ p ∈ qs ∧ p ∉ [g] := by
  have ht := h.runnable_mem
  have hgt : g ≠ k.runnable := fun heq => h.notMem_ring hw (by simp [heq])
  have hnext : k.ctx k.runnable 0 ∈ k.contexts :=
    h.ringMem _ (ring_closed h.ring _ List.mem_cons_self).1
  have hok : resumeThread k k.runnable g =
      .ok (leaveQueue (k.withCtx (woken k.ctx g k.runnable)) g) k.runnable := by
    have hgate : k.gate g = threadWaiting := (fld_of_mem hg 38).trans hw
    unfold resumeThread
    rw [if_pos hgate, if_pos hmap]
    simp only [insertNewThreadAfterOld_eq hg ht hnext hgt]
    rw [Kernel.setGate, setFld_of_mem (by exact hg)]
    rfl
  rw [hok]
  by_cases hgq : g ∈ qs
  · obtain ⟨k', qs', rfl, hrest⟩ := wake_queued h hg hw hgq
    exact ⟨_, qs', rfl, hrest⟩
  · obtain ⟨k', qs', rfl, hrest⟩ := wake_unqueued h hg hw hgq
    exact ⟨_, qs', rfl, hrest⟩

/-- The words of a thread that does not wait, set. -/
theorem GateInv.setAwake {p w v : ℕ} (h : GateInv k rs qs rem)
    (hne : k.ctx p 38 ≠ threadWaiting) (hw : 3 ≤ w) (hv : w = 38 → v ≤ 0x7fffffff) :
    GateInv (k.withCtx (setCtx k.ctx p w v)) rs qs rem := by
  refine h.congr ⟨rfl, rfl, rfl, rfl, rfl, rfl, rfl, rfl⟩ rfl rfl ?_ ?_ ?_
  · intro q u hu
    have : u ≠ w := by omega
    simp [this]
  · intro q _ hqw
    have hqp : q ≠ p := fun heq => hne (heq ▸ hqw)
    simp [hqp, hqw]
  · intro q hq hqw
    by_cases heq : q = p ∧ 38 = w
    · simpa [heq] using hv heq.2.symm
    · simpa [heq] using h.gate_le hq hqw

/-- The wake of a thread that does not wait is counted. -/
theorem wake_counted {g : ℕ} (h : GateInv k rs qs rem) (hg : g ∈ k.contexts)
    (hw : k.ctx g 38 ≠ threadWaiting) :
    resumeThread k k.runnable g =
      .ok (k.withCtx (setCtx k.ctx g 38 (min (k.ctx g 38 + 1) 0x7fffffff))) k.runnable := by
  have hle := h.gate_le hg hw
  have hgate : k.gate g = k.ctx g 38 := fld_of_mem hg 38
  unfold resumeThread
  rw [hgate, if_neg hw]
  by_cases hlt : k.ctx g 38 < 0x7fffffff
  · rw [if_pos (.inl hlt), Kernel.setGate, setFld_of_mem hg, Nat.mod_eq_of_lt (by omega),
      Nat.min_eq_left (by omega)]
  · rw [if_neg (by omega), Nat.min_eq_right (by omega)]
    have heq : k.ctx g 38 = 0x7fffffff := by omega
    rw [← heq, setCtx_self, withCtx_self]

/-- A queue splits behind the threads whose time is over. -/
theorem split_expired (delta : ℕ → ℕ) (l : List ℕ) :
    ∃ l₁ l₂, l = l₁ ++ l₂ ∧ (∀ p ∈ l₁, delta p = 0) ∧ ∀ p ∈ l₂.head?, 0 < delta p := by
  refine ⟨l.takeWhile (delta · = 0), l.dropWhile (delta · = 0),
    List.takeWhile_append_dropWhile.symm, ?_, ?_⟩
  · intro p hp
    simpa using List.mem_takeWhile_imp hp
  · intro p hp
    have := List.head?_dropWhile_not (delta · = 0) l
    rw [Option.mem_def.1 hp] at this
    have hne : delta p ≠ 0 := by simpa using this
    omega

/-- What a tick does. -/
def Ticked (k : Kernel) (rs qs : List ℕ) (rem : ℕ → ℕ) : Prop :=
  ∃ k' qs' es, tick k k.runnable = .ok k' k.runnable ∧ Released k k' rs es ∧
    (∀ p, k'.ctx p 4 = if p ∈ es then 2 ^ 64 - 1 else k.ctx p 4) ∧
    GateInv k' (es.reverse ++ rs) qs' (fun p => rem p - 1) ∧
    (∀ p, p ∈ es ↔ p ∈ qs ∧ rem p = 1) ∧ ∀ p, p ∈ qs' ↔ p ∈ qs ∧ p ∉ es

/-- Some time remains for every thread of the queue. -/
theorem GateInv.rem_pos (h : GateInv k rs qs rem) {p : ℕ} (hp : p ∈ qs) : 0 < rem p := by
  cases qs with
  | nil => cases hp
  | cons q l =>
    have hq := h.first q rfl
    have hs := h.sums
    rw [sums_cons] at hs
    rcases List.mem_cons.1 hp with rfl | hp
    · omega
    · have := sums_le hs.2 hp
      omega

/-- A tick when no thread waits with a timeout. -/
theorem tick_empty (h : GateInv k rs [] rem) : Ticked k rs [] rem := by
  obtain ⟨a, ha⟩ := h.queue
  have hz : k.blockedWithTimeout = 0 := ha.2.symm
  have hok : tick k k.runnable = .ok k k.runnable := by
    unfold tick
    simp [hz]
  have hrel : Released k k rs [] :=
    ⟨Frame.refl k, rfl, h.ring, fun _ => .inl rfl, fun _ _ _ _ _ _ _ _ => rfl, by simp⟩
  refine ⟨k, [], [], hok, hrel, by simp, ?_, by simp, by simp⟩
  exact released_inv h hrel (by simp) (by simp) ⟨a, ha⟩ (by simp) (by simp) (fun _ _ _ => rfl)
    (by simp) (by simp) (by simp)

/-- The words of the contexts when the first thread of the queue has one tick
less to wait. -/
def ticked (c : ℕ → ℕ → ℕ) (e : ℕ) : ℕ → ℕ → ℕ := setCtx c e 5 (c e 5 - 1)

theorem ticked_words {c : ℕ → ℕ → ℕ} {e p w : ℕ} (h : w ≠ 5) : ticked c e p w = c p w := by
  unfold ticked
  simp [h]

theorem ticked_delta (c : ℕ → ℕ → ℕ) (e : ℕ) :
    (fun p => ticked c e p 5) = Function.update (fun p => c p 5) e (c e 5 - 1) := by
  funext p
  by_cases hp : p = e
  · simp [ticked, hp]
  · simp [ticked, hp]

theorem tick_eq {e : ℕ} {l : List ℕ} (h : GateInv k rs (e :: l) rem) :
    tick k k.runnable =
      let k₁ := k.withCtx (ticked k.ctx e)
      if k.ctx e 5 - 1 = 0 then
        match expire k.runnable k.contexts.length k₁ e with
        | none => .halt k₁
        | some (k, head) =>
          let k := { k with blockedWithTimeout := head }
          if head ≠ 0 then .ok (k.setReg head 16 (blockedWithTimeoutAddress k)) k₁.runnable
          else .ok k k₁.runnable
      else .ok k₁ k.runnable := by
  have he : e ∈ k.contexts := (h.waiting e (by simp)).1
  have hpos := h.first e rfl
  have hlt := h.delta_lt (p := e) (by simp)
  obtain ⟨a, ha⟩ := h.queue
  have hhead : k.blockedWithTimeout = e := ha.1
  have hset : k.setReg e 1 ((k.reg e 1 + 2 ^ 64 - 1) % 2 ^ 64) = k.withCtx (ticked k.ctx e) := by
    have hreg : k.reg e 1 = k.ctx e 5 := fld_of_mem he 5
    rw [hreg, show (k.ctx e 5 + 2 ^ 64 - 1) % 2 ^ 64 = k.ctx e 5 - 1 by omega]
    exact setFld_of_mem he _ _
  have hreg : (k.withCtx (ticked k.ctx e)).reg e 1 = k.ctx e 5 - 1 := by
    refine (fld_of_mem (k := k.withCtx (ticked k.ctx e)) he 5).trans ?_
    simp [ticked]
  unfold tick
  simp only [hhead, ne_eq, h.placed.ne_zero he, not_false_eq_true, if_true, hset, hreg]
  rfl

/-- A tick before the first deadline. -/
theorem tick_early {e : ℕ} {l : List ℕ} (h : GateInv k rs (e :: l) rem) (hd : 1 < k.ctx e 5) :
    Ticked k rs (e :: l) rem := by
  set k₁ := k.withCtx (ticked k.ctx e) with hk₁
  have hok : tick k k.runnable = .ok k₁ k.runnable := by
    rw [tick_eq h]
    simp only
    rw [if_neg (by omega)]
  have hword : ∀ p w, w ≠ 5 → k₁.ctx p w = k.ctx p w := fun p w hw => ticked_words hw
  have hf : Frame k k₁ := ⟨rfl, rfl, rfl, rfl, rfl, rfl, rfl, rfl⟩
  have hdelta : (fun p => k₁.ctx p 5) = _ := ticked_delta k.ctx e
  have hsums : Sums (fun p => k₁.ctx p 5) (fun p => rem p - 1) 0 (e :: l) := by
    rw [hdelta]
    exact sums_tick h.sums h.queueNodup (by omega)
  have hfirst : ∀ p ∈ (e :: l).head?, 0 < k₁.ctx p 5 := by
    intro p hp
    obtain rfl : e = p := by simpa using hp
    show 0 < ticked k.ctx e e 5
    simp [ticked]
    omega
  have hlater := (sums_expired (show Sums _ _ 0 ([] ++ (e :: l)) from hsums) (by simp) hfirst).2.1
  have hrel : Released k k₁ rs [] := by
    refine ⟨hf, rfl, ?_, fun p => .inl (hword p 2 (by decide)), ?_, ?_⟩
    · exact ring_congr h.ring (fun p _ => hword p 0 (by decide)) fun p _ => hword p 1 (by decide)
    · exact fun p w _ _ h5 _ _ _ => hword p w h5
    · intro p
      rw [hword p 38 (by decide)]
      simp
  obtain ⟨a, ha⟩ := h.queue
  refine ⟨k₁, e :: l, [], hok, hrel, ?_, ?_, ?_, by simp⟩
  · intro p
    rw [hword p 4 (by decide)]
    simp
  · refine released_inv h hrel (by simp) (by simp) ⟨a, ?_⟩ h.queueNodup (by simp) ?_ hsums hfirst ?_
    · exact hf.qseg rfl (fun p _ => ⟨hword p 20 (by decide), hword p 21 (by decide)⟩) ha
    · exact fun p _ _ => hword p 20 (by decide)
    · intro p hp
      have := h.bound p hp
      omega
  · intro p
    constructor
    · exact fun hp => absurd hp (by simp)
    · rintro ⟨hp, hone⟩
      have := hlater p hp
      omega

/-- The rest of the queue, behind the threads whose time is over, becomes the
queue. -/
theorem queue_rest {k k' : Kernel} {l₁ l₂ : List ℕ} {a : ℕ} (hq : QSeg k (l₁ ++ l₂) a 0)
    (hnd : l₂.Nodup) (hl : k'.layout = k.layout)
    (hhead : k'.blockedWithTimeout = l₂.head?.getD 0) (h21 : ∀ p, k'.ctx p 21 = k.ctx p 21)
    (h20 : ∀ p, k'.ctx p 20 = if p ∈ l₂.head? then blockedWithTimeoutAddress k else k.ctx p 20) :
    ∃ a', QSeg k' l₂ a' 0 := by
  obtain ⟨b, g, -, hr⟩ := pseg_append.1 hq
  have haddr : blockedWithTimeoutAddress k' = blockedWithTimeoutAddress k := by
    unfold blockedWithTimeoutAddress
    rw [hl]
  unfold QSeg
  rw [haddr, hhead]
  cases l₂ with
  | nil => exact ⟨_, rfl, rfl⟩
  | cons p l =>
    obtain ⟨-, -, hr⟩ := hr
    have hp := (List.nodup_cons.1 hnd).1
    refine ⟨a, rfl, ?_, ?_⟩
    · show k'.ctx p 20 = _
      rw [h20 p]
      simp
    · show PSeg _ _ _ (regAddress p 17) (k'.ctx p 21) l a 0
      rw [h21 p]
      refine pseg_congr (fun q _ => h21 q) (fun q hq => ?_) hr
      have hqp : p ≠ q := fun heq => hp (heq ▸ hq)
      rw [h20 q]
      simp [hqp]

/-- The words of the contexts at the end of a tick. -/
theorem tick_expire {e : ℕ} {es l₂ : List ℕ} (h : GateInv k rs (e :: (es ++ l₂)) rem)
    (hd : k.ctx e 5 = 1) (hz : ∀ p ∈ es, k.ctx p 5 = 0) (hpos : ∀ p ∈ l₂.head?, 0 < k.ctx p 5) :
    ∃ c c', tick k k.runnable =
        .ok { k with ctx := c, blockedWithTimeout := l₂.head?.getD 0 } k.runnable ∧
      Expired (ticked k.ctx e) c' k.runnable rs (e :: es) ∧
      ∀ p w, c p w = if p ∈ l₂.head? ∧ w = 20 then blockedWithTimeoutAddress k else c' p w := by
  set k₁ := k.withCtx (ticked k.ctx e) with hk₁
  -- the first thread has one tick left, the next ones none beyond it
  have hnd := h.queueNodup
  rw [List.nodup_cons, List.nodup_append, List.mem_append, not_or] at hnd
  have hword : ∀ p w, w ≠ 5 → k₁.ctx p w = k.ctx p w := fun p w hw => ticked_words hw
  have hother : ∀ p, p ≠ e → k₁.ctx p 5 = k.ctx p 5 := by
    intro p hp
    show ticked k.ctx e p 5 = _
    simp [ticked, hp]
  have hqs : ∀ p ∈ e :: (es ++ l₂), p ∈ k.contexts := fun p hp => (h.waiting p hp).1
  have hlen := h.queue_length
  obtain ⟨a, -, -, ha⟩ := h.queue
  obtain ⟨b, g, hseg, hrest⟩ := pseg_append.1 ha
  have hg : g = l₂.head?.getD 0 := QRest.head (k := k) ⟨a, hrest⟩
  -- the loop ends at the first thread with ticks left, or at the end of the queue
  have hg₀ : g = 0 ∨ (g ∈ k₁.contexts ∧ k₁.ctx g 5 ≠ 0) := by
    cases l₂ with
    | nil => exact .inl hg
    | cons q l =>
      obtain rfl : g = q := hg
      have hge : g ≠ e := fun heq => hnd.1.2 (by simp [heq])
      have := hpos g rfl
      refine .inr ⟨hqs g (by simp), ?_⟩
      rw [hother g hge]
      omega
  obtain ⟨c', hexp, hexd⟩ := expire_spec (k := k₁) (t := k.runnable) (g := g)
    (f := k.contexts.length) (e := e)
    (ring_congr h.ring (fun p _ => hword p 0 (by decide)) fun p _ => hword p 1 (by decide))
    h.ringNodup h.ringMem
    (fun p hp => hqs p (by simp only [List.mem_cons, List.mem_append] at hp ⊢; tauto))
    (List.nodup_cons.2 ⟨hnd.1.1, hnd.2.1⟩)
    (fun p hp => h.notMem_ring
      (h.waiting p (by simp only [List.mem_cons, List.mem_append] at hp ⊢; tauto)).2)
    (fun p hp => h.placed.ne_zero hp)
    (by
      show Seg (fun p => ticked k.ctx e p 21) (ticked k.ctx e e 21) es g
      rw [ticked_words (by decide)]
      exact seg_congr (fun p _ => ticked_words (by decide)) hseg.seg)
    (fun p hp => (hother p fun heq => hnd.1.1 (heq ▸ hp)).trans (hz p hp)) hg₀
    (by simp only [List.length_cons, List.length_append] at hlen; omega)
  -- what is left after the loop: the new head gets the address of the queue
  have htick : tick k k.runnable =
      if g ≠ 0 then
        .ok (Kernel.setReg { k with ctx := c', blockedWithTimeout := g } g 16
          (blockedWithTimeoutAddress k)) k.runnable
      else .ok { k with ctx := c', blockedWithTimeout := g } k.runnable := by
    rw [tick_eq h, hd]
    simp only
    rw [if_pos (by decide), hexp]
    rfl
  cases l₂ with
  | nil =>
    refine ⟨c', c', ?_, hexd, by simp⟩
    rw [htick, hg]
    rfl
  | cons q l =>
    obtain rfl : g = q := hg
    have hgm := hqs g (by simp)
    refine ⟨setCtx c' g 20 (blockedWithTimeoutAddress k), c', ?_, hexd, ?_⟩
    · rw [htick, if_pos (h.placed.ne_zero hgm), Kernel.setReg, setFld_of_mem (by exact hgm)]
      rfl
    · intro p w
      rw [setCtx_apply]
      by_cases hp : p = g
      · simp [hp]
      · simp [hp, Ne.symm hp]

/-- The threads `e :: es` are released by the tick. -/
theorem released_of_expired {c c' : ℕ → ℕ → ℕ} {e x w₂ : ℕ} {P : ℕ → Prop} [DecidablePred P]
    (hexp : Expired (ticked k.ctx e) c' k.runnable rs es)
    (hc : ∀ p w, c p w = if P p ∧ w = 20 then x else c' p w) :
    Released k { k with ctx := c, blockedWithTimeout := w₂ } rs es ∧
      (∀ p, c p 4 = if p ∈ es then 2 ^ 64 - 1 else k.ctx p 4) ∧
      (fun p => c p 5) = Function.update (fun p => k.ctx p 5) e (k.ctx e 5 - 1) := by
  have hword : ∀ p w, w ≠ 20 → c p w = c' p w := by
    intro p w hw
    rw [hc p w, if_neg fun h => hw h.2]
  refine ⟨⟨⟨rfl, rfl, rfl, rfl, rfl, rfl, rfl, rfl⟩, rfl, ?_, ?_, ?_, ?_⟩, ?_, ?_⟩
  · exact ring_congr hexp.ring (fun p _ => hword p 0 (by decide)) fun p _ => hword p 1 (by decide)
  · intro p
    show c p 2 = k.ctx p 2 ∨ c p 2 = k.ctx k.runnable 2
    rw [hword p 2 (by decide), ← ticked_words (c := k.ctx) (e := e) (p := p) (by decide : 2 ≠ 5),
      ← ticked_words (c := k.ctx) (e := e) (p := k.runnable) (by decide : 2 ≠ 5)]
    exact hexp.owners p
  · intro p w h3 h4 h5 h20 _ h38
    show c p w = k.ctx p w
    rw [hword p w h20, hexp.words p w h3 h4 h38, ticked_words h5]
  · intro p
    show c p 38 = _
    rw [hword p 38 (by decide)]
    split
    · exact (hexp.told p ‹_›).2
    · rw [(hexp.others p ‹_›).2, ticked_words (by decide)]
  · intro p
    rw [hword p 4 (by decide)]
    split
    · exact (hexp.told p ‹_›).1
    · rw [(hexp.others p ‹_›).1, ticked_words (by decide)]
  · rw [← ticked_delta]
    funext p
    rw [hword p 5 (by decide), hexp.words p 5 (by decide) (by decide) (by decide)]

/-- A tick at the first deadline. -/
theorem tick_due {e : ℕ} {l : List ℕ} (h : GateInv k rs (e :: l) rem) (hd : k.ctx e 5 = 1) :
    Ticked k rs (e :: l) rem := by
  obtain ⟨es, l₂, rfl, hz, hpos⟩ := split_expired (fun p => k.ctx p 5) l
  obtain ⟨c, c', hok, hexp, hc⟩ := tick_expire h hd hz hpos
  set k' : Kernel := { k with ctx := c, blockedWithTimeout := l₂.head?.getD 0 } with hk'
  obtain ⟨hrel, hres, hdelta⟩ : Released k k' rs (e :: es) ∧ _ ∧ _ := released_of_expired hexp hc
  -- The deadlines of `e :: es` are reached, the others are not.
  obtain ⟨hdone, hlater, hsums, hfirst⟩ := sums_due h.sums h.queueNodup hd hz hpos hdelta
  have hnd := h.queueNodup
  rw [← List.cons_append, List.nodup_append] at hnd
  have hmem : ∀ p, p ∈ l₂ ↔ p ∈ e :: (es ++ l₂) ∧ p ∉ e :: es := by
    intro p
    rw [← List.cons_append, List.mem_append]
    constructor
    · intro hp
      exact ⟨.inr hp, fun hp' => hnd.2.2 p hp' p hp rfl⟩
    · rintro ⟨hp, hne⟩
      exact hp.resolve_left hne
  have hin : ∀ p ∈ e :: es, p ∈ e :: (es ++ l₂) := by
    intro p hp
    rw [← List.cons_append]
    exact List.mem_append_left _ hp
  have h20 : ∀ p, c p 20 =
      if p ∈ l₂.head? then blockedWithTimeoutAddress k else k.ctx p 20 := by
    intro p
    rw [hc p 20, hexp.words p 20 (by decide) (by decide) (by decide), ticked_words (by decide)]
    simp
  have h21 : ∀ p, c p 21 = k.ctx p 21 := by
    intro p
    rw [hc p 21, if_neg (by simp), hexp.words p 21 (by decide) (by decide) (by decide),
      ticked_words (by decide)]
  obtain ⟨a, ha⟩ := h.queue
  refine ⟨k', l₂, e :: es, hok, hrel, hres, ?_, ?_, hmem⟩
  · refine released_inv h hrel hnd.1 (fun p hp => h.waiting p (hin p hp)) ?_ hnd.2.1 hmem ?_ hsums
      hfirst ?_
    · exact queue_rest (show QSeg k (e :: es ++ l₂) a 0 from ha) hnd.2.1 rfl rfl h21 h20
    · -- A thread that was not in the queue is not the new head.
      intro p hp _
      show c p 20 = _
      rw [h20, if_neg fun hmem' => hp ((hmem p).1 (List.mem_of_mem_head? hmem')).1]
    · intro p hp
      have := h.bound p ((hmem p).1 hp).1
      omega
  · intro p
    constructor
    · intro hp
      have := h.rem_pos (hin p hp)
      have := hdone p hp
      exact ⟨hin p hp, by omega⟩
    · rintro ⟨hp, hone⟩
      by_contra hne
      have := hlater p ((hmem p).2 ⟨hp, hne⟩)
      omega

/-- A tick of the timer. -/
theorem tick_inv (h : GateInv k rs qs rem) : Ticked k rs qs rem := by
  cases qs with
  | nil => exact tick_empty h
  | cons e l =>
    have hpos := h.first e rfl
    by_cases hd : k.ctx e 5 = 1
    · exact tick_due h hd
    · exact tick_early h (by omega)

end Release

end Isambard.El1
