import Isambard.El1.Links
import Isambard.El1.Waits
import Isambard.El1.Contexts

/-!
# El1.Scheduler — the invariant of the scheduler

What holds of a core's threads between any two calls, whatever the calls are: the lists that
they are in, the gates and the queue, the interrupt thread, the pairs of a thread and its
partner, and the stacks of frames.

* `SchedInv`: the invariant;
* `SchedInv.congr`: a call that leaves the lists alone;
* `SchedInv.reschedule`: a call that moves threads between the lists.
-/

namespace Isambard.El1

open Isambard.Lib

/-- The thread is in a ring of its own, and nobody wakes it. -/
structure Idle (k : Kernel) (rs : List ℕ) (p : ℕ) : Prop where
  out : p ∉ k.runnable :: rs
  lock : ¬ OnLock k p
  gate : k.ctx p 38 ≠ threadWaiting

/-- The stack pointer is at one of the frames that a call may leave, or behind the outermost
one, when the thread has left that. -/
structure StackOk (c : ℕ → ℕ → ℕ) (p : ℕ) : Prop where
  pointer : ∃ j, 2 ≤ j ∧ j ≤ 6 ∧ c p 41 = frameAddress p j
  limit : c p 42 = frameAddress p 0

/-- A thread and its partner have each other, and one of them is idle. -/
structure Pair (k : Kernel) (rs : List ℕ) (p q : ℕ) : Prop where
  mem : q ∈ k.contexts
  back : k.ctx q 3 = p
  ne : q ≠ p
  idle : Idle k rs p ∨ Idle k rs q

/-- The interrupt thread runs, or it is idle, and so is its partner. -/
structure Interruptible (k : Kernel) (rs : List ℕ) (i : ℕ) : Prop where
  mem : i ∈ k.contexts
  runs : k.runnable = i ∨ Idle k rs i
  partner : k.ctx i 3 ≠ 0 → Idle k rs (k.ctx i 3)

/-- The runnable threads are the running one and `rs`; those with a timeout are `qs`. The threads
of `O` belong to other cores; of the others only the interrupt thread and the partners are idle. -/
structure SchedInv (O : ℕ → Prop) (k : Kernel) (rs qs : List ℕ) (rem : ℕ → ℕ) : Prop where
  gate : GateInv k rs qs rem
  heap : Heap k
  links : Links k rs 0
  waiting : ∀ p ∈ k.contexts, k.ctx p 38 = threadWaiting → ¬ OnLock k p
  pairs : ∀ p ∈ k.contexts, k.ctx p 3 ≠ 0 → Pair k rs p (k.ctx p 3)
  interrupt : k.interruptThread ≠ 0 → Interruptible k rs k.interruptThread
  frames : ∀ p ∈ k.contexts, StackOk k.ctx p
  idle : ∀ p ∈ k.contexts, Idle k rs p → O p ∨ p = k.interruptThread ∨ k.ctx p 3 ≠ 0

section Rules

variable {k k' : Kernel} {rs rs' qs qs' : List ℕ} {rem rem' : ℕ → ℕ} {p j : ℕ}
  {O P : ℕ → Prop}

theorem SchedInv.mem (h : SchedInv O k rs qs rem) : k.runnable ∈ k.contexts := h.gate.runnable_mem

/-- More threads may be another core's. -/
theorem SchedInv.mono (h : SchedInv O k rs qs rem) (hsub : ∀ p, O p → P p) :
    SchedInv P k rs qs rem :=
  ⟨h.gate, h.heap, h.links, h.waiting, h.pairs, h.interrupt, h.frames,
    fun p hp hid => (h.idle p hp hid).imp_left (hsub p)⟩

theorem Idle.ne_runnable (h : Idle k rs p) : p ≠ k.runnable :=
  fun heq => h.out (heq ▸ List.mem_cons_self)

/-- The gates and the queue are in a part of the kernel's state. -/
theorem GateInv.transfer (h : GateInv k rs qs rem) (hl : k'.layout = k.layout)
    (hc : k'.contexts = k.contexts) (hb : k'.heapBottom = k.heapBottom)
    (hr : k'.runnable = k.runnable) (hw : k'.blockedWithTimeout = k.blockedWithTimeout)
    (hctx : k'.ctx = k.ctx) : GateInv k' rs qs rem := by
  have howner : ∀ a, OwnerOk k a → OwnerOk k' a := by
    intro a ha
    unfold OwnerOk runnableAddress at *
    rw [hl]
    exact ha
  have hqueue : ∃ a, QSeg k' qs a 0 := by
    obtain ⟨a, ha⟩ := h.queue
    refine ⟨a, ?_⟩
    unfold QSeg blockedWithTimeoutAddress at *
    rw [hl, hw, hctx]
    exact ha
  constructor
  case placed => exact h.placed.congr hc hb
  case owners =>
    rw [hc, hctx]
    exact fun p hp => howner _ (h.owners p hp)
  case queue => exact hqueue
  case queueNodup => exact h.queueNodup
  case bound => exact h.bound
  all_goals simp only [hc, hr, hctx]
  · exact h.ring
  · exact h.ringNodup
  · exact h.ringMem
  · exact h.awake
  · exact h.waiting
  · exact h.queued
  · exact h.sums
  · exact h.first
  · exact h.gates

theorem Idle.congr (h : Idle k rs p) (hl : k'.layout = k.layout) (hr : k'.runnable = k.runnable)
    (h2 : k'.ctx p 2 = k.ctx p 2) (h38 : k'.ctx p 38 ≠ threadWaiting) : Idle k' rs p := by
  refine ⟨?_, ?_, h38⟩
  · rw [hr]
    exact h.out
  · unfold OnLock
    rw [h2, hl]
    exact h.lock

/-- What a call that leaves the lists alone does to the words of the contexts: those of the
running thread's registers and frames, registers of threads that do not wait, and counts. -/
structure KeepsLists (k k' : Kernel) : Prop where
  layout : k'.layout = k.layout
  contexts : k'.contexts = k.contexts
  heapBottom : k'.heapBottom = k.heapBottom
  interruptThread : k'.interruptThread = k.interruptThread
  runnable : k'.runnable = k.runnable
  blockedWithTimeout : k'.blockedWithTimeout = k.blockedWithTimeout
  links : ∀ p w, w < 4 → k'.ctx p w = k.ctx p w
  gate : ∀ p, k'.ctx p 38 = k.ctx p 38 ∨
    k.ctx p 38 ≠ threadWaiting ∧ k'.ctx p 38 ≤ 0x7fffffff
  held : ∀ p ∈ k.contexts, k.ctx p 38 = threadWaiting ∨ OnLock k p →
    k'.ctx p 5 = k.ctx p 5 ∧ k'.ctx p 20 = k.ctx p 20 ∧ lockOf k'.ctx p = lockOf k.ctx p
  frames : ∀ p ∈ k.contexts, StackOk k.ctx p → StackOk k'.ctx p

theorem KeepsLists.refl (k : Kernel) : KeepsLists k k :=
  ⟨rfl, rfl, rfl, rfl, rfl, rfl, fun _ _ _ => rfl, fun _ => .inl rfl,
    fun _ _ _ => ⟨rfl, rfl, rfl⟩, fun _ _ h => h⟩

theorem KeepsLists.onLock (h : KeepsLists k k') (p : ℕ) : OnLock k' p ↔ OnLock k p := by
  unfold OnLock
  rw [h.links p 2 (by decide), h.layout]

theorem KeepsLists.awake (h : KeepsLists k k') (hne : k.ctx p 38 ≠ threadWaiting) :
    k'.ctx p 38 ≠ threadWaiting := by
  rcases h.gate p with heq | ⟨-, hle⟩
  · rwa [heq]
  · intro heq
    rw [heq] at hle
    exact absurd hle (by decide)

theorem KeepsLists.idle (h : KeepsLists k k') (hid : Idle k' rs p) : Idle k rs p := by
  refine ⟨?_, fun hl => hid.lock ((h.onLock p).2 hl), ?_⟩
  · rw [← h.runnable]
    exact hid.out
  · rcases h.gate p with heq | ⟨hne, -⟩
    · rw [← heq]
      exact hid.gate
    · exact hne

theorem KeepsLists.trans {k'' : Kernel} (h : KeepsLists k k') (h' : KeepsLists k' k'') :
    KeepsLists k k'' := by
  refine ⟨h'.layout.trans h.layout, h'.contexts.trans h.contexts,
    h'.heapBottom.trans h.heapBottom, h'.interruptThread.trans h.interruptThread,
    h'.runnable.trans h.runnable, h'.blockedWithTimeout.trans h.blockedWithTimeout,
    fun p w hw => (h'.links p w hw).trans (h.links p w hw), ?_, ?_, ?_⟩
  · intro p
    rcases h.gate p with heq | ⟨hne, hle⟩
    · rcases h'.gate p with heq' | ⟨hne', hle'⟩
      · exact .inl (heq'.trans heq)
      · exact .inr ⟨heq ▸ hne', hle'⟩
    · rcases h'.gate p with heq' | ⟨-, hle'⟩
      · exact .inr ⟨hne, heq' ▸ hle⟩
      · exact .inr ⟨hne, hle'⟩
  · intro p hp hheld
    have hheld' : k'.ctx p 38 = threadWaiting ∨ OnLock k' p := by
      rcases hheld with hw | hl
      · rcases h.gate p with heq | ⟨hne, -⟩
        · exact .inl (heq.trans hw)
        · exact absurd hw hne
      · exact .inr ((h.onLock p).2 hl)
    obtain ⟨h5, h20, hl⟩ := h.held p hp hheld
    obtain ⟨h5', h20', hl'⟩ := h'.held p (by rw [h.contexts]; exact hp) hheld'
    exact ⟨h5'.trans h5, h20'.trans h20, hl'.trans hl⟩
  · exact fun p hp hs => h'.frames p (by rw [h.contexts]; exact hp) (h.frames p hp hs)

/-- A call that leaves the lists alone keeps the invariant. -/
theorem SchedInv.congr (h : SchedInv O k rs qs rem) (hk : KeepsLists k k') :
    SchedInv O k' rs qs rem := by
  have hidle : ∀ p, Idle k rs p → Idle k' rs p := fun p hp =>
    hp.congr hk.layout hk.runnable (hk.links p 2 (by decide)) (hk.awake hp.gate)
  refine ⟨?_, h.heap.congr hk.contexts hk.heapBottom, ?_, ?_, ?_, ?_, ?_, ?_⟩
  · have hinv : GateInv (k.withCtx k'.ctx) rs qs rem := by
      refine h.gate.congr ⟨rfl, rfl, rfl, rfl, rfl, rfl, rfl, rfl⟩ rfl rfl ?_ ?_ ?_
      · exact fun p w hw => hk.links p w (by omega)
      · intro p hp hw
        obtain ⟨h5, h20, hlock⟩ := hk.held p hp (.inl hw)
        refine ⟨h5, h20, congrArg Prod.fst hlock, ?_⟩
        rcases hk.gate p with heq | ⟨hne, -⟩
        · exact heq.trans hw
        · exact absurd hw hne
      · intro p hp hne
        rcases hk.gate p with heq | ⟨-, hle⟩
        · exact heq ▸ h.gate.gate_le hp hne
        · exact hle
    exact hinv.transfer hk.layout hk.contexts hk.heapBottom hk.runnable hk.blockedWithTimeout rfl
  · refine h.links.congr hk.layout hk.contexts hk.runnable
      (fun p _ w hw => hk.links p w (by omega)) ?_
    exact fun p hp hl => (hk.held p hp (.inr hl)).2.2
  · rw [hk.contexts]
    intro p hp hw hl
    by_cases hw' : k.ctx p 38 = threadWaiting
    · exact h.waiting p hp hw' ((hk.onLock p).1 hl)
    · exact hk.awake hw' hw
  · rw [hk.contexts]
    intro p hp hne
    rw [hk.links p 3 (by decide)] at hne ⊢
    obtain ⟨hmem, hback, hpq, hid⟩ := h.pairs p hp hne
    refine ⟨?_, ?_, hpq, hid.imp (hidle _) (hidle _)⟩
    · rw [hk.contexts]
      exact hmem
    · rw [hk.links _ 3 (by decide)]
      exact hback
  · rw [hk.interruptThread]
    intro hi
    obtain ⟨hmem, hruns, hpart⟩ := h.interrupt hi
    refine ⟨?_, ?_, ?_⟩
    · rw [hk.contexts]
      exact hmem
    · rw [hk.runnable]
      exact hruns.imp_right (hidle _)
    · rw [hk.links _ 3 (by decide)]
      exact fun hne => hidle _ (hpart hne)
  · rw [hk.contexts]
    exact fun p hp => hk.frames p hp (h.frames p hp)
  · rw [hk.contexts, hk.interruptThread]
    intro p hp hid
    rw [hk.links p 3 (by decide)]
    exact h.idle p hp (hk.idle hid)

/-- What a call that moves threads between the lists leaves alone. -/
structure KeepsThreads (k k' : Kernel) : Prop where
  contexts : k'.contexts = k.contexts
  heapBottom : k'.heapBottom = k.heapBottom
  interruptThread : k'.interruptThread = k.interruptThread
  partner : ∀ p, k'.ctx p 3 = k.ctx p 3
  frames : ∀ p w, w = 41 ∨ w = 42 → k'.ctx p w = k.ctx p w

/-- A call that moves threads between the lists: no thread but `j` ceases to be idle, and the
partner of that one is idle then. A thread that is idle now belongs to another core, is the
interrupt thread or has a partner. -/
theorem SchedInv.moved (h : SchedInv O k rs qs rem) (hk : KeepsThreads k k')
    (hg : GateInv k' rs' qs' rem') (hl : Links k' rs' 0)
    (hwait : ∀ p ∈ k.contexts, k'.ctx p 38 = threadWaiting → ¬ OnLock k' p)
    (hidle : ∀ p ∈ k.contexts, Idle k rs p → p = j ∨ Idle k' rs' p)
    (hj : j ∈ k.contexts → k.ctx j 3 ≠ 0 → Idle k' rs' (k.ctx j 3))
    (hint : k.interruptThread ≠ 0 →
      (k'.runnable = k.interruptThread ∨ Idle k' rs' k.interruptThread) ∧
        (k.ctx k.interruptThread 3 ≠ 0 → Idle k' rs' (k.ctx k.interruptThread 3)))
    (hnew : ∀ p ∈ k.contexts, Idle k' rs' p → P p ∨ p = k.interruptThread ∨ k.ctx p 3 ≠ 0) :
    SchedInv P k' rs' qs' rem' := by
  refine ⟨hg, h.heap.congr hk.contexts hk.heapBottom, hl, ?_, ?_, ?_, ?_, ?_⟩
  · rw [hk.contexts]
    exact hwait
  · rw [hk.contexts]
    intro p hp hne
    rw [hk.partner] at hne ⊢
    obtain ⟨hmem, hback, hpq, hid⟩ := h.pairs p hp hne
    refine ⟨?_, ?_, hpq, ?_⟩
    · rw [hk.contexts]
      exact hmem
    · rw [hk.partner]
      exact hback
    · rcases hid with hid | hid
      · rcases hidle p hp hid with rfl | hid'
        · exact .inr (hj hp hne)
        · exact .inl hid'
      · rcases hidle _ hmem hid with heq | hid'
        · rw [← heq, hback] at hj
          exact .inl (hj (heq ▸ hmem) fun h0 => h.heap.zero_notMem (h0 ▸ hp))
        · exact .inr hid'
  · rw [hk.interruptThread]
    intro hi
    obtain ⟨hruns, hpart⟩ := hint hi
    refine ⟨?_, hruns, ?_⟩
    · rw [hk.contexts]
      exact (h.interrupt hi).mem
    · rw [hk.partner]
      exact hpart
  · rw [hk.contexts]
    intro p hp
    obtain ⟨hpointer, hlimit⟩ := h.frames p hp
    refine ⟨?_, ?_⟩
    · rw [hk.frames p 41 (.inl rfl)]
      exact hpointer
    · rw [hk.frames p 42 (.inr rfl)]
      exact hlimit
  · rw [hk.contexts, hk.interruptThread]
    intro p hp hid
    rw [hk.partner]
    exact hnew p hp hid

/-- All the idle threads stay idle, and no other one is idle then. -/
theorem SchedInv.reschedule (h : SchedInv O k rs qs rem) (hk : KeepsThreads k k')
    (hg : GateInv k' rs' qs' rem') (hl : Links k' rs' 0)
    (hwait : ∀ p ∈ k.contexts, k'.ctx p 38 = threadWaiting → ¬ OnLock k' p)
    (hidle : ∀ p ∈ k.contexts, Idle k rs p → Idle k' rs' p)
    (hint : k.runnable = k.interruptThread → k'.runnable = k.interruptThread)
    (hback : ∀ p ∈ k.contexts, Idle k' rs' p → Idle k rs p) :
    SchedInv O k' rs' qs' rem' := by
  refine h.moved (j := 0) hk hg hl hwait (fun p hp hi => .inr (hidle p hp hi)) ?_ ?_
    fun p hp hi => h.idle p hp (hback p hp hi)
  · exact fun h0 => absurd h0 h.heap.zero_notMem
  · intro hi
    obtain ⟨hmem, hruns, hpart⟩ := h.interrupt hi
    exact ⟨hruns.imp hint (hidle _ hmem), fun hne => hidle _ (h.pairs _ hmem hne).mem (hpart hne)⟩

end Rules

end Isambard.El1
