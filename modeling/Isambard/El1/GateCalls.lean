import Isambard.El1.Scheduler

/-!
# El1.GateCalls — the gate and the scheduler's lists

A call of the gate takes the running thread out of the runnable ones, or it brings threads
back that have waited at their gates. What it stores through the links of the queue is in the
words of the queue.

* `SameDomains`: what a call leaves alone that only moves threads between the lists;
* `QueueWords`: the stores of an edit of the queue;
* `SchedInv.released`: threads that waited are runnable again;
* `handleSvcGate_sched`: the handler keeps the invariant of the scheduler.
-/

namespace Isambard.El1

open Isambard.Lib

/-- The maps of the threads and their frames, the interfaces, and the loaded map. -/
structure SameDomains (k k' : Kernel) : Prop where
  contexts : k'.contexts = k.contexts
  rows : ∀ p w, 39 ≤ w → k'.ctx p w = k.ctx p w
  interfaces : k'.interfaces = k.interfaces
  freeInterface : k'.freeInterface = k.freeInterface
  loadedMap : k'.loadedMap = k.loadedMap

theorem SameDomains.refl (k : Kernel) : SameDomains k k := ⟨rfl, fun _ _ _ => rfl, rfl, rfl, rfl⟩

theorem SameDomains.trans {k k' k'' : Kernel} (h : SameDomains k k') (h' : SameDomains k' k'') :
    SameDomains k k'' :=
  ⟨h'.contexts.trans h.contexts, fun p w hw => (h'.rows p w hw).trans (h.rows p w hw),
    h'.interfaces.trans h.interfaces, h'.freeInterface.trans h.freeInterface,
    h'.loadedMap.trans h.loadedMap⟩

/-- What a call of the scheduler may set. -/
theorem SameDomains.sched (k : Kernel) {c : ℕ → ℕ → ℕ} (r w b i : ℕ) (u : ℕ → ℕ → ℕ)
    (hc : ∀ p w, 39 ≤ w → c p w = k.ctx p w) : SameDomains k { k with
      ctx := c, runnable := r, blockedWithTimeout := w, blocked := b, interruptThread := i,
      user := u } :=
  ⟨rfl, hc, rfl, rfl, rfl⟩

/-- The call has returned the thread that is to run. -/
structure Scheduled (O : ℕ → Prop) (k k' : Kernel) (now : ℕ) : Prop where
  inv : ∃ rs qs rem, SchedInv O k' rs qs rem
  runnable : k'.runnable = now
  same : SameDomains k k'

section Queue

variable {k k' : Kernel} {P : ℕ → Prop} {l qs : List ℕ} {a g t p v i : ℕ}

/-- Stores to words of the queue, of the threads in `P`. -/
structure QueueWords (k k' : Kernel) (P : ℕ → Prop) : Prop where
  eq : ∃ c w, k' = { k with ctx := c, blockedWithTimeout := w }
  words : ∀ p w, w ≠ 5 → w ≠ 20 → w ≠ 21 → k'.ctx p w = k.ctx p w
  others : ∀ p, ¬ P p → ∀ w, k'.ctx p w = k.ctx p w

theorem QueueWords.refl (k : Kernel) (P : ℕ → Prop) : QueueWords k k P :=
  ⟨⟨k.ctx, k.blockedWithTimeout, rfl⟩, fun _ _ _ _ _ => rfl, fun _ _ _ => rfl⟩

theorem QueueWords.contexts (h : QueueWords k k' P) : k'.contexts = k.contexts := by
  obtain ⟨c, w, rfl⟩ := h.eq
  rfl

theorem QueueWords.setReg (h : QueueWords k k' P) (hp : p ∈ k.contexts) (hP : P p)
    (hi : i = 1 ∨ i = 16 ∨ i = 17) (v : ℕ) : QueueWords k (k'.setReg p i v) P := by
  obtain ⟨c, w, rfl⟩ := h.eq
  rw [Kernel.setReg, setFld_of_mem (by exact hp)]
  refine ⟨⟨_, w, rfl⟩, ?_, ?_⟩
  · intro q u h5 h20 h21
    show setCtx c p (4 + i) v q u = k.ctx q u
    rw [setCtx_apply, if_neg (by omega)]
    exact h.words q u h5 h20 h21
  · intro q hq u
    have hqp : q ≠ p := fun heq => hq (heq ▸ hP)
    show setCtx c p (4 + i) v q u = k.ctx q u
    rw [setCtx_apply, if_neg fun heq => hqp heq.1]
    exact h.others q hq u

/-- A store through a link of the queue. -/
theorem QueueWords.store64 (h : QueueWords k k' P) (hpl : Placed k) (hq : QSeg k' l a g)
    (hl : ∀ p ∈ l, p ∈ k.contexts ∧ P p) (hnd : l.Nodup) (v : ℕ) :
    QueueWords k (k'.store64 a v) P := by
  obtain ⟨c, w, hk⟩ := h.eq
  have hpl' : Placed k' := hpl.congr h.contexts (by rw [hk])
  obtain ⟨c', w', hstore, -, hwords, hothers⟩ := hq.store64 hpl'
    (fun p hp => h.contexts ▸ (hl p hp).1) hnd v
  rw [hstore]
  refine ⟨⟨c', w', by rw [hk]⟩, ?_, ?_⟩
  · exact fun p u h5 h20 h21 => (hwords p u h21).trans (h.words p u h5 h20 h21)
  · intro p hp u
    exact (hothers p u fun hmem => hp (hl p hmem).2).trans (h.others p hp u)

/-- The links of the queue lead to threads of the queue. -/
theorem QSeg.closed (hq : QSeg k l a 0) (hp : p ∈ l) : k.ctx p 21 = 0 ∨ k.ctx p 21 ∈ l := by
  obtain ⟨l₁, l₂, rfl⟩ := List.append_of_mem hp
  obtain ⟨b, g, -, -, -, hr⟩ := pseg_append.1 hq
  cases l₂ with
  | nil => exact .inl hr.2.symm
  | cons q l₂ =>
    have hpq : k.ctx p 21 = q := hr.1
    exact .inr (by simp [hpq])

theorem joinQueue_words {m : ℕ} (hpl : Placed k) (ht : t ∈ k.contexts) (hP : P t)
    (hq : QSeg k l a g) (hl : ∀ p ∈ l, p ∈ k.contexts ∧ P p) (hnd : l.Nodup) (htl : t ∉ l)
    (hg : g ≠ 0 → g ∈ k.contexts ∧ P g) : QueueWords k (joinQueue k t a g m) P := by
  have h₁ := (QueueWords.refl k P).setReg ht hP (.inl rfl) m
  have h₂ := h₁.setReg ht hP (.inr (.inr rfl)) g
  have h₃ := h₂.setReg ht hP (.inr (.inl rfl)) a
  unfold joinQueue
  simp only
  generalize hk₃ : ((k.setReg t 1 m).setReg t 17 g).setReg t 16 a = k₃ at h₃ ⊢
  -- the thread is not in the queue yet, so the links are as they were
  have hq₃ : QSeg k₃ l a g := by
    obtain ⟨c, w, hk⟩ := h₃.eq
    have hsame : ∀ p ∈ l, ∀ u, k₃.ctx p u = k.ctx p u ∧
        k₃.blockedWithTimeout = k.blockedWithTimeout := by
      intro p hp u
      have hpt : p ≠ t := fun heq => htl (heq ▸ hp)
      rw [← hk₃]
      unfold Kernel.setReg
      simp only [setFld_of_mem, ht, withCtx_contexts]
      simp [hpt]
    have hw : k₃.blockedWithTimeout = k.blockedWithTimeout := by
      rw [← hk₃]
      unfold Kernel.setReg
      simp only [setFld_of_mem, ht, withCtx_contexts]
      rfl
    have hf : Frame k k₃ := by
      rw [hk]
      exact ⟨rfl, rfl, rfl, rfl, rfl, rfl, rfl, rfl⟩
    exact hf.qseg hw (fun p hp => ⟨(hsame p hp 20).1, (hsame p hp 21).1⟩) hq
  have h₄ := h₃.store64 hpl hq₃ hl hnd t
  split
  · rename_i hne
    obtain ⟨hgm, hgP⟩ := hg hne
    exact (h₄.setReg hgm hgP (.inl rfl) _).setReg hgm hgP (.inr (.inl rfl)) _
  · exact h₄

theorem leaveQueue_words (hpl : Placed k) (hg : g ∈ k.contexts) (hq : QSeg k qs a 0)
    (hl : ∀ p ∈ qs, p ∈ k.contexts) (hnd : qs.Nodup) (hmem : g ∈ qs ∨ k.ctx g 20 = 0) :
    QueueWords k (leaveQueue k g) (· ∈ qs) := by
  have h16 : k.reg g 16 = k.ctx g 20 := fld_of_mem hg 20
  have h17 : k.reg g 17 = k.ctx g 21 := fld_of_mem hg 21
  unfold leaveQueue
  simp only [h16, h17]
  split
  · rename_i hne
    have hgq := hmem.resolve_right hne
    have hclosed := hq.closed hgq
    obtain ⟨l₁, l₂, rfl⟩ := List.append_of_mem hgq
    obtain ⟨b, h, hq₁, rfl, hb, -⟩ := pseg_append.1 hq
    have hb : k.ctx h 20 = b := hb
    rw [hb]
    have h₁ := (QueueWords.refl k (· ∈ l₁ ++ h :: l₂)).store64 hpl (show QSeg k l₁ b h from hq₁)
      (fun p hp => ⟨hl p (by simp [hp]), by simp [hp]⟩) (List.nodup_append.1 hnd).1 (k.ctx h 21)
    split
    · rename_i hne'
      have hn := hclosed.resolve_left hne'
      exact (h₁.setReg (hl _ hn) hn (.inl rfl) _).setReg (hl _ hn) hn (.inr (.inl rfl)) _
    · exact h₁
  · exact QueueWords.refl k _

end Queue

/-! ## Waiting -/

section Wait

variable {k k' : Kernel} {rs qs : List ℕ} {rem : ℕ → ℕ} {x now : ℕ} {O : ℕ → Prop}

/-- The thread leaves the ring, and the rest are stores to the words of the queue. -/
theorem waitAtGate_words (h : GateInv k (x :: rs) qs rem)
    (hw : waitAtGate k k.runnable = .ok k' now) :
    ∃ b u, QueueWords (depart k x b u) k' (fun p => p = k.runnable ∨ p ∈ qs) := by
  have ht := h.runnable_mem
  have htq := h.runnable_notMem_queue
  have hqs : ∀ p ∈ qs, p ∈ k.contexts := fun p hp => (h.waiting p hp).1
  have hlen := h.queue_length
  obtain ⟨b, u, heq⟩ := waitAtGate_eq h
  have hpl : Placed (depart k x b u) := (depart_frame k x b u).placed h.placed
  refine ⟨b, u, ?_⟩
  rw [heq] at hw
  split at hw
  · rename_i hpos
    obtain ⟨l₁, l₂, a, g, m, rfl, hslot, hq₁, hr₁, -, -, -⟩ :=
      findSlot_spec (k := depart k x b u) (l := qs) hpl (by exact hqs)
        (show QSeg (depart k x b u) [] (blockedWithTimeoutAddress k) k.blockedWithTimeout from
          ⟨rfl, rfl⟩)
        (depart_queue h b u) (n := k.ctx k.runnable 5) (f := k.contexts.length + 1) (by omega) hpos
    rw [hslot] at hw
    cases hw
    refine joinQueue_words hpl ht (.inl rfl) hq₁ ?_ (List.nodup_append.1 h.queueNodup).1 ?_ ?_
    · intro p hp
      have hmem : p ∈ l₁ ++ l₂ := List.mem_append_left _ hp
      exact ⟨hqs p hmem, .inr hmem⟩
    · exact fun hmem => htq (List.mem_append_left _ hmem)
    · intro hg
      cases l₂ with
      | nil => exact absurd hr₁.head hg
      | cons q l₂ =>
        obtain rfl : g = q := hr₁.head
        exact ⟨hqs g (by simp), .inr (by simp)⟩
  · cases hw
    have h₁ := (QueueWords.refl (depart k x b u) (fun p => p = k.runnable ∨ p ∈ qs)).setReg
      (p := k.runnable) ht (Or.inl rfl) (.inr (.inl rfl)) 0
    exact h₁.setReg ht (Or.inl rfl) (.inr (.inr rfl)) 0

/-- A wait that blocks. -/
theorem waitAtGate_sched (h : SchedInv O k rs qs rem) (hi : k.runnable ≠ k.interruptThread)
    (hne : rs ≠ []) (hn : k.ctx k.runnable 5 < 2 ^ 64)
    (hw : waitAtGate k k.runnable = .ok k' now) : Scheduled O k k' now := by
  obtain ⟨x, rs, rfl⟩ := List.exists_cons_of_ne_nil hne
  obtain ⟨k₂, qs', hok, hrun, hwaited, hinv, -⟩ := wait_inv h.gate hn
  obtain ⟨b, u, hwords⟩ := waitAtGate_words h.gate hw
  rw [hw] at hok
  cases hok
  have hpl := h.gate.placed
  have hword : ∀ p w, 2 ≤ w → w ≠ 4 → w ≠ 5 → w ≠ 20 → w ≠ 21 → w ≠ 38 →
      k'.ctx p w = k.ctx p w :=
    fun p w h2 h4 h5 h20 h21 h38 =>
      (hwords.words p w h5 h20 h21).trans (parted_words h2 h4 h38)
  have hlay : k'.layout = k.layout := hwaited.frame.layout
  have hon : ∀ p, OnLock k' p ↔ OnLock k p := by
    intro p
    unfold OnLock
    rw [hword p 2 (by decide) (by decide) (by decide) (by decide) (by decide) (by decide), hlay]
  have hgate : ∀ p, p ≠ k.runnable → k'.ctx p 38 = k.ctx p 38 := fun p hp => (hwaited.others p hp).2
  refine ⟨⟨rs, qs', Function.update rem k.runnable (k.ctx k.runnable 5), ?_⟩, hrun, ?_⟩
  · refine h.reschedule ⟨hwaited.frame.contexts, hwaited.frame.heapBottom,
      hwaited.frame.interruptThread, ?_, ?_⟩ hinv ?_ ?_ ?_ ?_ ?_
    · exact fun p => hword p 3 (by decide) (by decide) (by decide) (by decide) (by decide)
        (by decide)
    · intro p w hw
      exact hword p w (by omega) (by omega) (by omega) (by omega) (by omega) (by omega)
    · -- the thread is in hand, and then in a ring of its own
      have hleave := h.links.leave hpl b u
      have hpark : Links (leftTo k now b u) rs 0 := by
        refine hleave.park (hpl.congr rfl rfl) ?_
        exact fun hlk => h.links.free _ List.mem_cons_self ((onLock_unlink _ _).1 hlk)
      refine hpark.congr hlay hwaited.frame.contexts hrun ?_ ?_
      · intro p _ w hw
        have hq := hwords.words p w (by omega) (by omega) (by omega)
        rw [hq]
        show parted k.ctx k.runnable p w = unlink k.ctx k.runnable p w
        unfold parted
        rw [setCtx_apply, if_neg (by omega), setCtx_apply, if_neg (by omega)]
      · -- it does not wait for a lock, nor do the threads of the queue
        intro p hp hlk
        have hlk' : OnLock k p := (onLock_unlink _ _).1 hlk
        have hpt : p ≠ k.runnable := fun heq => h.links.free _ List.mem_cons_self (heq ▸ hlk')
        have hpq : p ∉ qs := fun hmem => h.waiting p hp (h.gate.waiting p hmem).2 hlk'
        have hnot : ¬ (p = k.runnable ∨ p ∈ qs) := by
          rintro (heq | hmem)
          · exact hpt heq
          · exact hpq hmem
        unfold lockOf
        rw [hwords.others p hnot, hwords.others p hnot]
        show (parted k.ctx k.runnable p 21, field 32 32 (parted k.ctx k.runnable p 39)) =
          (unlink k.ctx k.runnable p 21, field 32 32 (unlink k.ctx k.runnable p 39))
        rw [parted_words (by decide) (by decide) (by decide),
          parted_words (by decide) (by decide) (by decide), unlink_other (by decide),
          unlink_other (by decide)]
    · intro p hp hwait
      rw [hon]
      by_cases hpt : p = k.runnable
      · rw [hpt]
        exact h.links.free _ List.mem_cons_self
      · rw [hgate p hpt] at hwait
        exact h.waiting p hp hwait
    · intro p _ hid
      refine ⟨?_, fun hlk => hid.lock ((hon p).1 hlk), ?_⟩
      · rw [hrun]
        exact fun hmem => hid.out (List.mem_cons_of_mem _ hmem)
      · rw [hgate p hid.ne_runnable]
        exact hid.gate
    · exact fun heq => absurd heq hi
    · -- the thread itself waits now
      intro p _ hid
      have hpt : p ≠ k.runnable := fun heq => hid.gate (heq ▸ hwaited.gate)
      refine ⟨?_, fun hlk => hid.lock ((hon p).2 hlk), ?_⟩
      · have hout := hid.out
        rw [hrun] at hout
        exact fun hmem => hout ((List.mem_cons.1 hmem).resolve_left hpt)
      · rw [← hgate p hpt]
        exact hid.gate
  · obtain ⟨c, w, hk⟩ := hwords.eq
    refine ⟨hwaited.frame.contexts, ?_, hwaited.frame.interfaces, hwaited.frame.freeInterface, ?_⟩
    · intro p w hw
      exact hword p w (by omega) (by omega) (by omega) (by omega) (by omega) (by omega)
    · rw [hk]
      rfl

end Wait

/-! ## Threads that have waited -/

section Release

variable {k k' : Kernel} {rs qs rs' qs' : List ℕ} {rem rem' : ℕ → ℕ} {g now : ℕ} {O : ℕ → Prop}

theorem GateInv.running (h : GateInv k rs qs rem) : Running k rs :=
  ⟨h.ring, h.ringNodup, h.ringMem, fun p hp => h.owners p (h.ringMem p hp)⟩

/-- The threads in `J` waited at their gates, and are runnable again. -/
theorem SchedInv.released {J : ℕ → Prop} (h : SchedInv O k rs qs rem) (hk : KeepsThreads k k')
    (hg : GateInv k' rs' qs' rem') (hlay : k'.layout = k.layout) (hrun : k'.runnable = k.runnable)
    (hJ : ∀ p, J p → k.ctx p 38 = threadWaiting ∧ p ∈ k.contexts)
    (hmem : ∀ p, p ∈ k'.runnable :: rs' ↔ J p ∨ p ∈ k.runnable :: rs)
    (hlist : ∀ p, k'.ctx p 2 = k.ctx p 2 ∨
      (p ∈ k.contexts ∧ k.ctx p 38 = threadWaiting) ∧ k'.ctx p 2 = k.ctx k.runnable 2)
    (hlinks : ∀ p, ¬ J p → p ∉ k.runnable :: rs → ∀ w, w < 2 → k'.ctx p w = k.ctx p w)
    (hgate : ∀ p, k'.ctx p 38 = threadWaiting → k.ctx p 38 = threadWaiting)
    (hstill : ∀ p, ¬ J p → k.ctx p 38 = threadWaiting → k'.ctx p 38 = threadWaiting)
    (hlock : ∀ p ∈ k.contexts, OnLock k p → lockOf k'.ctx p = lockOf k.ctx p) :
    SchedInv O k' rs' qs' rem' := by
  -- a thread that takes its owner from the running one has waited for no lock, and does not now
  have hon : ∀ p, OnLock k' p ↔ OnLock k p := by
    intro p
    rcases hlist p with heq | ⟨⟨hp, hw⟩, heq⟩
    · unfold OnLock
      rw [heq, hlay]
    · refine ⟨fun hlk => ?_, fun hlk => absurd hlk (h.waiting p hp hw)⟩
      have hlk' : OnLock k k.runnable := heq.symm.trans (hlk.trans (by rw [hlay]))
      exact absurd hlk' (h.links.free _ List.mem_cons_self)
  refine h.reschedule hk hg ?_ ?_ ?_ (fun heq => hrun.trans heq) ?_
  · refine h.links.join (J := J) h.gate.placed hg.running hk.contexts (.inl rfl) ?_ hmem ?_
      (fun p _ => hlinks p) (fun p _ _ _ => hon p) hlock
    · exact fun p hp => .inr (h.waiting p (hJ p hp).2 (hJ p hp).1)
    · intro p hp hlk
      rw [hon] at hlk
      rcases (hmem p).1 hp with hj | hp
      · exact h.waiting p (hJ p hj).2 (hJ p hj).1 hlk
      · exact h.links.free p hp hlk
  · exact fun p hp hw hlk => h.waiting p hp (hgate p hw) ((hon p).1 hlk)
  · intro p _ hid
    refine ⟨?_, fun hlk => hid.lock ((hon p).1 hlk), fun hw => hid.gate (hgate p hw)⟩
    intro hp
    rcases (hmem p).1 hp with hj | hp
    · exact hid.gate (hJ p hj).1
    · exact hid.out hp
  · intro p _ hid
    have hout : ¬ J p ∧ p ∉ k.runnable :: rs := by
      rw [← not_or, ← hmem]
      exact hid.out
    exact ⟨hout.2, fun hlk => hid.lock ((hon p).2 hlk), fun hw => hid.gate (hstill p hout.1 hw)⟩

/-- The wake of a thread that waits. -/
theorem wake_sched (h : SchedInv O k rs qs rem) (hg : g ∈ k.contexts)
    (hw : k.ctx g 38 = threadWaiting) (hok : resumeThread k k.runnable g = .ok k' now) :
    Scheduled O k k' now := by
  have hmap : k.currentMap k.runnable = k.currentMap g := by
    by_contra hne
    have hgate : k.gate g = threadWaiting := (fld_of_mem hg 38).trans hw
    rw [resumeThread, if_pos hgate, if_neg hne] at hok
    cases hok
  have hgr := h.gate.notMem_ring hw
  have hgt : g ≠ k.runnable := fun heq => hgr (by simp [heq])
  have ht := h.mem
  have hnext : k.ctx k.runnable 0 ∈ k.contexts :=
    h.gate.ringMem _ (ring_closed h.gate.ring _ List.mem_cons_self).1
  obtain ⟨k₂, qs', hok₂, hrel, -, hinv, -⟩ := wake_waiting h.gate hg hw hmap
  set k₁ := k.withCtx (woken k.ctx g k.runnable) with hk₁
  have hres : resumeThread k k.runnable g = .ok (leaveQueue k₁ g) k.runnable := by
    have hgate : k.gate g = threadWaiting := (fld_of_mem hg 38).trans hw
    unfold resumeThread
    rw [if_pos hgate, if_pos hmap]
    simp only [insertNewThreadAfterOld_eq hg ht hnext hgt]
    rw [Kernel.setGate, setFld_of_mem (by exact hg)]
    rfl
  -- only words of the queue change, when the thread is in the ring
  have hwords : QueueWords k₁ (leaveQueue k₁ g) (· ∈ qs) := by
    obtain ⟨a, ha⟩ := h.gate.queue
    refine leaveQueue_words (h.gate.placed.withCtx _) hg (woken_queue ha)
      (fun p hp => (h.gate.waiting p hp).1) h.gate.queueNodup ?_
    rw [hk₁, withCtx_ctx, woken_words (by decide) (by decide)]
    exact h.gate.queued g hg hw
  rw [hok] at hres hok₂
  cases hres
  cases hok₂
  have hlow : ∀ p w, w < 3 → (leaveQueue k₁ g).ctx p w = linkAfter k.ctx g k.runnable p w := by
    intro p w hw3
    rw [hwords.words p w (by omega) (by omega) (by omega)]
    show woken k.ctx g k.runnable p w = _
    unfold woken
    rw [setCtx_apply, if_neg (by omega)]
  have hhigh : ∀ p w, 3 ≤ w → w ≠ 5 → w ≠ 20 → w ≠ 21 → w ≠ 38 →
      (leaveQueue k₁ g).ctx p w = k.ctx p w := by
    intro p w h3 h5 h20 h21 h38
    rw [hwords.words p w h5 h20 h21]
    exact woken_words h3 h38
  refine ⟨⟨g :: rs, qs', rem, ?_⟩, hrel.runnable, ?_⟩
  · refine h.released (J := (· = g)) ⟨hrel.frame.contexts, hrel.frame.heapBottom,
      hrel.frame.interruptThread, ?_, ?_⟩ hinv hrel.frame.layout hrel.runnable ?_ ?_ ?_ ?_ ?_
      ?_ ?_
    · exact fun p => hhigh p 3 (by decide) (by decide) (by decide) (by decide) (by decide)
    · exact fun p w hw => hhigh p w (by omega) (by omega) (by omega) (by omega) (by omega)
    · rintro p rfl
      exact ⟨hw, hg⟩
    · intro p
      rw [hrel.runnable]
      simp only [List.mem_cons]
      tauto
    · intro p
      rw [hlow p 2 (by decide), linkAfter_list hgt]
      split
      · rename_i hp
        exact .inr ⟨hp ▸ ⟨hg, hw⟩, rfl⟩
      · exact .inl rfl
    · intro p hp hpr w hw2
      rw [hlow p w (by omega)]
      have hlinks := linkAfter_links h.gate.ring hgt hpr hp
      obtain rfl | rfl : w = 0 ∨ w = 1 := by omega
      · exact hlinks.1
      · exact hlinks.2
    · intro p hp
      rw [hrel.gates] at hp
      split at hp
      · exact absurd hp (by decide)
      · exact hp
    · intro p hp hw
      rw [hrel.gates, if_neg (List.not_mem_cons_of_ne_of_not_mem hp List.not_mem_nil)]
      exact hw
    · intro p hp hlk
      have hpq : p ∉ qs := fun hmem => h.waiting p hp (h.gate.waiting p hmem).2 hlk
      unfold lockOf
      rw [hwords.others p hpq, hwords.others p hpq]
      show (woken k.ctx g k.runnable p 21, field 32 32 (woken k.ctx g k.runnable p 39)) = _
      rw [woken_words (by decide) (by decide), woken_words (by decide) (by decide)]
  · obtain ⟨c, w, hk⟩ := hwords.eq
    refine ⟨hrel.frame.contexts, ?_, hrel.frame.interfaces, hrel.frame.freeInterface, ?_⟩
    · exact fun p w hw => hhigh p w (by omega) (by omega) (by omega) (by omega) (by omega)
    · rw [hk]
      rfl

/-- The loop of a tick gives an owner to threads of the queue only. -/
theorem expire_list {Q : ℕ → Prop} {t n e f : ℕ} (hQ : ∀ p, Q p → p ∈ k.contexts ∧ p ≠ t ∧
      (k.ctx p 21 = 0 ∨ Q (k.ctx p 21)))
    (ht : t ∈ k.contexts) (hnext : k.ctx t 0 ∈ k.contexts) (he : Q e)
    (hx : expire t n k e = some (k', f)) :
    k'.contexts = k.contexts ∧ (f = 0 ∨ Q f) ∧ ∀ p, ¬ Q p → k'.ctx p 2 = k.ctx p 2 := by
  induction n generalizing k e with
  | zero => cases hx
  | succ n ih =>
    obtain ⟨hem, het, he21⟩ := hQ e he
    rw [expire_succ hem ht hnext het] at hx
    -- one round: the words of the queue stay, and the thread behind `t` is `e` now
    have hword : ∀ p w, 3 ≤ w → w ≠ 4 → w ≠ 38 → expireOne k.ctx e t p w = k.ctx p w := by
      intro p w h3 h4 h38
      unfold expireOne
      rw [linkAfter_other h3, setCtx_apply, if_neg (by omega), setCtx_apply, if_neg (by omega)]
    have hlist : ∀ p, p ≠ e → expireOne k.ctx e t p 2 = k.ctx p 2 := by
      intro p hp
      unfold expireOne
      rw [linkAfter_list het, if_neg hp, setCtx_apply, if_neg (by omega), setCtx_apply,
        if_neg (by omega)]
    have hnext' : expireOne k.ctx e t t 0 = e := by
      show nextOf (linkAfter _ e t) t = e
      rw [linkAfter_next, Function.update_self]
    split at hx
    · rename_i hne
      obtain ⟨hc, hf, hrest⟩ := ih (k := k.withCtx (expireOne k.ctx e t)) (e := k.ctx e 21)
        (by
          intro p hp
          obtain ⟨hpm, hpt, hp21⟩ := hQ p hp
          refine ⟨hpm, hpt, ?_⟩
          rw [withCtx_ctx, hword p 21 (by decide) (by decide) (by decide)]
          exact hp21)
        ht (by
          rw [withCtx_ctx, hnext']
          exact hem) (he21.resolve_left hne.1) hx
      refine ⟨hc, hf, fun p hp => (hrest p hp).trans ?_⟩
      exact hlist p fun heq => hp (heq ▸ he)
    · cases hx
      exact ⟨rfl, he21, fun p hp => hlist p fun heq => hp (heq ▸ he)⟩

/-- A tick at the first deadline. -/
theorem tick_list {e : ℕ} {l : List ℕ} (h : GateInv k rs (e :: l) rem) (hd : k.ctx e 5 = 1)
    (ht : tick k k.runnable = .ok k' now) (p : ℕ) (hp : p ∉ e :: l) :
    k'.ctx p 2 = k.ctx p 2 := by
  obtain ⟨a, ha⟩ := h.queue
  have hnext : k.ctx k.runnable 0 ∈ k.contexts :=
    h.ringMem _ (ring_closed h.ring _ List.mem_cons_self).1
  rw [tick_eq h, hd] at ht
  simp only at ht
  rw [if_pos (by decide)] at ht
  cases hx : expire k.runnable k.contexts.length (k.withCtx (ticked k.ctx e)) e with
  | none =>
    rw [hx] at ht
    cases ht
  | some r =>
    obtain ⟨k₂, f⟩ := r
    obtain ⟨hc, hf, hrest⟩ := expire_list (Q := (· ∈ e :: l)) (k := k.withCtx (ticked k.ctx e))
      (by
        intro q hq
        refine ⟨(h.waiting q hq).1, ?_, ?_⟩
        · exact fun heq => h.awake q (heq ▸ List.mem_cons_self) (h.waiting q hq).2
        · rw [withCtx_ctx, ticked_words (by decide)]
          exact ha.closed hq)
      h.runnable_mem (by
        rw [withCtx_ctx, ticked_words (by decide)]
        exact hnext) List.mem_cons_self hx
    have h2 : k₂.ctx p 2 = k.ctx p 2 := (hrest p hp).trans (ticked_words (by decide))
    rw [hx] at ht
    simp only at ht
    split at ht
    · rename_i hne
      cases ht
      have hfm : f ∈ k₂.contexts := by
        rw [hc]
        exact (h.waiting f (hf.resolve_left hne)).1
      rw [Kernel.setReg, setFld_of_mem (by exact hfm), withCtx_ctx, setCtx_apply,
        if_neg (by omega)]
      exact h2
    · cases ht
      exact h2

/-- The timer ticks. -/
theorem tick_sched (h : SchedInv O k rs qs rem) (hok : tick k k.runnable = .ok k' now) :
    Scheduled O k k' now := by
  obtain ⟨k₂, qs', es, hok₂, hrel, -, hinv, hes, -⟩ := tick_inv h.gate
  have hok' := hok
  rw [hok] at hok₂
  cases hok₂
  have hwait : ∀ p ∈ es, k.ctx p 38 = threadWaiting ∧ p ∈ k.contexts := by
    intro p hp
    have := h.gate.waiting p ((hes p).1 hp).1
    exact ⟨this.2, this.1⟩
  -- what the tick does to the links, besides what it does to the ring
  have hdetail : (∀ p, k'.ctx p 2 = k.ctx p 2 ∨ p ∈ qs ∧ k'.ctx p 2 = k.ctx k.runnable 2) ∧
      (∀ p, p ∉ es → p ∉ k.runnable :: rs → ∀ w, w < 2 → k'.ctx p w = k.ctx p w) ∧
      (∀ p, k'.ctx p 21 = k.ctx p 21) ∧ k'.loadedMap = k.loadedMap := by
    cases qs with
    | nil =>
      obtain ⟨a, ha⟩ := h.gate.queue
      have hz : k.blockedWithTimeout = 0 := ha.2.symm
      have hsame : tick k k.runnable = .ok k k.runnable := by
        unfold tick
        simp [hz]
      rw [hsame] at hok'
      cases hok'
      exact ⟨fun _ => .inl rfl, fun _ _ _ _ _ => rfl, fun _ => rfl, rfl⟩
    | cons e l =>
      have hpos := h.gate.first e rfl
      by_cases hd : k.ctx e 5 = 1
      · have hlist := tick_list h.gate hd hok'
        obtain ⟨es', l₂, rfl, hz, hpos'⟩ := split_expired (fun p => k.ctx p 5) l
        obtain ⟨c, c', hok₂, hexp, hc⟩ := tick_expire h.gate hd hz hpos'
        obtain ⟨hrel', -, -⟩ : Released k { k with
            ctx := c, blockedWithTimeout := l₂.head?.getD 0 } rs (e :: es') ∧ _ ∧ _ :=
          released_of_expired hexp hc
        rw [hok'] at hok₂
        cases hok₂
        -- the gates say which threads were released
        have hsub : ∀ p, p ∈ e :: es' → p ∈ es := by
          intro p hp
          have hg := hrel.gates p
          rw [hrel'.gates p, if_pos hp] at hg
          by_contra hne
          rw [if_neg hne, (h.gate.waiting p (by
            rw [← List.cons_append]
            exact List.mem_append_left _ hp)).2] at hg
          exact absurd hg (by decide)
        refine ⟨?_, ?_, ?_, rfl⟩
        · intro p
          by_cases hp : p ∈ e :: (es' ++ l₂)
          · exact (hrel'.owners p).imp_right fun heq => ⟨hp, heq⟩
          · exact .inl (hlist p hp)
        · intro p hp hpr w hw
          have hlinks := hexp.links p hpr fun hmem => hp (hsub p hmem)
          show c p w = k.ctx p w
          rw [hc, if_neg (by omega)]
          obtain rfl | rfl : w = 0 ∨ w = 1 := by omega
          · exact hlinks.1.trans (ticked_words (by decide))
          · exact hlinks.2.trans (ticked_words (by decide))
        · intro p
          show c p 21 = k.ctx p 21
          rw [hc, if_neg (by omega), hexp.words p 21 (by decide) (by decide) (by decide),
            ticked_words (by decide)]
      · have heq : tick k k.runnable = .ok (k.withCtx (ticked k.ctx e)) k.runnable := by
          rw [tick_eq h.gate]
          simp only
          rw [if_neg (by omega)]
        rw [heq] at hok'
        cases hok'
        exact ⟨fun p => .inl (ticked_words (by decide)),
          fun p _ _ w hw => ticked_words (by omega), fun p => ticked_words (by decide), rfl⟩
  obtain ⟨hlist, hlinks, h21, hload⟩ := hdetail
  have hhigh : ∀ p w, 3 ≤ w → w ≠ 4 → w ≠ 5 → w ≠ 20 → w ≠ 21 → w ≠ 38 →
      k'.ctx p w = k.ctx p w := hrel.words
  refine ⟨⟨es.reverse ++ rs, qs', fun p => rem p - 1, ?_⟩, hrel.runnable, ?_⟩
  · refine h.released (J := (· ∈ es)) ⟨hrel.frame.contexts, hrel.frame.heapBottom,
      hrel.frame.interruptThread, ?_, ?_⟩ hinv hrel.frame.layout hrel.runnable hwait ?_ ?_
      hlinks ?_ ?_ ?_
    · exact fun p => hhigh p 3 (by decide) (by decide) (by decide) (by decide) (by decide)
        (by decide)
    · exact fun p w hw => hhigh p w (by omega) (by omega) (by omega) (by omega) (by omega)
        (by omega)
    · intro p
      rw [hrel.runnable]
      simp only [List.mem_cons, List.mem_append, List.mem_reverse]
      tauto
    · exact fun p => (hlist p).imp_right fun hp => ⟨h.gate.waiting p hp.1, hp.2⟩
    · intro p hp
      rw [hrel.gates] at hp
      split at hp
      · exact absurd hp (by decide)
      · exact hp
    · intro p hp hw
      rw [hrel.gates, if_neg hp]
      exact hw
    · intro p _ _
      unfold lockOf
      rw [h21, hhigh p 39 (by decide) (by decide) (by decide) (by decide) (by decide) (by decide)]
  · refine ⟨hrel.frame.contexts, ?_, hrel.frame.interfaces, hrel.frame.freeInterface, hload⟩
    exact fun p w hw => hhigh p w (by omega) (by omega) (by omega) (by omega) (by omega) (by omega)

/-- The gate's count of wakes is taken, or it goes up. -/
theorem KeepsLists.count {t w v : ℕ} (hne : k.ctx t 38 ≠ threadWaiting) (hw : w = 4 ∨ w = 38)
    (hv : w = 38 → v ≤ 0x7fffffff) :
    KeepsLists k (k.withCtx (setCtx k.ctx t w v)) := by
  have hword : ∀ p u, u ≠ w → setCtx k.ctx t w v p u = k.ctx p u := by
    intro p u hu
    rw [setCtx_apply, if_neg fun heq => hu heq.2]
  refine ⟨rfl, rfl, rfl, rfl, rfl, rfl, fun p u hu => hword p u (by omega), ?_, ?_, ?_⟩
  · intro p
    show setCtx k.ctx t w v p 38 = k.ctx p 38 ∨ _ ∧ setCtx k.ctx t w v p 38 ≤ _
    by_cases heq : p = t ∧ 38 = w
    · obtain ⟨rfl, rfl⟩ := heq
      right
      refine ⟨hne, ?_⟩
      rw [setCtx_apply, if_pos ⟨rfl, rfl⟩]
      exact hv rfl
    · left
      rw [setCtx_apply, if_neg heq]
  · intro p _ _
    refine ⟨hword p 5 (by omega), hword p 20 (by omega), ?_⟩
    unfold lockOf
    rw [withCtx_ctx, hword p 21 (by omega), hword p 39 (by omega)]
  · rintro p _ ⟨hpointer, hlimit⟩
    refine ⟨?_, ?_⟩
    · rw [withCtx_ctx, hword p 41 (by omega)]
      exact hpointer
    · rw [withCtx_ctx, hword p 42 (by omega)]
      exact hlimit

end Release

/-! ## The handler -/

section Handler

variable {k k' : Kernel} {rs qs : List ℕ} {rem : ℕ → ℕ} {now : ℕ} {O : ℕ → Prop}

theorem SchedInv.scheduled (h : SchedInv O k rs qs rem) (hk : KeepsLists k k')
    (hs : SameDomains k k') : Scheduled O k k' k.runnable :=
  ⟨⟨rs, qs, rem, h.congr hk⟩, hk.runnable, hs⟩

/-- The thread that is woken was created, and a thread that waits is not the last one. -/
theorem handleSvcGate_sched (h : SchedInv O k rs qs rem) (hn : k.ctx k.runnable 5 < 2 ^ 64)
    (htarget : k.ctx k.runnable 4 ≠ 0 → threadFromCode (k.ctx k.runnable 4) ∈ k.contexts)
    (hlast : k.ctx k.runnable 4 = 0 → k.runnable ≠ k.interruptThread → rs ≠ [])
    (hok : handleSvcGate k k.runnable = .ok k' now) : Scheduled O k k' now := by
  have hsame : ∀ c : ℕ → ℕ → ℕ, (∀ p w, 39 ≤ w → c p w = k.ctx p w) →
      SameDomains k (k.withCtx c) := fun c hc => ⟨rfl, hc, rfl, rfl, rfl⟩
  have hawake := h.gate.awake _ List.mem_cons_self
  rcases handleSvcGate_cases h.mem hok with
    ⟨-, -, htick⟩ | ⟨-, -, -, rfl, rfl⟩ | ⟨hz, hi, -, hwait⟩ | ⟨hz, hwake⟩
  · exact tick_sched h htick
  · have h₁ := KeepsLists.count (v := k.ctx k.runnable 38) hawake (.inl rfl) (by omega)
    have hawake' : (k.withCtx (setCtx k.ctx k.runnable 4 (k.ctx k.runnable 38))).ctx k.runnable 38 ≠
        threadWaiting := by
      rw [withCtx_ctx, setCtx_apply, if_neg (by omega)]
      exact hawake
    have h₂ := KeepsLists.count (v := 0) hawake' (.inr rfl) (by omega)
    refine h.scheduled (h₁.trans h₂) (hsame _ ?_)
    intro p w hw
    rw [setCtx_apply, if_neg (by omega), setCtx_apply, if_neg (by omega)]
  · exact waitAtGate_sched h hi (hlast hz hi) hn hwait
  · have hg := htarget hz
    by_cases hw : k.ctx (threadFromCode (k.ctx k.runnable 4)) 38 = threadWaiting
    · exact wake_sched h hg hw hwake
    · rw [wake_counted h.gate hg hw] at hwake
      cases hwake
      refine h.scheduled (.count hw (.inr rfl) fun _ => Nat.min_le_right _ _) (hsame _ ?_)
      intro p w hw
      rw [setCtx_apply, if_neg (by omega)]

end Handler

end Isambard.El1
