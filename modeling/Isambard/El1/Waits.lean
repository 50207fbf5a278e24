import Isambard.El1.Steps
import Isambard.El1.Timeouts

/-!
# El1.Waits — runs of waits, wakes and ticks

Runs of a core in which threads wait at their gates, wake each other and let the
timer tick, with yields between. The idle thread only yields, so one thread can
always run. A `Watch` counts what an observer of the calls sees.

* `GateEffect`: a call of the gate, from entering the kernel to leaving it;
* `watch_inv`: what the counts have to do with the gates and with the queue;
* `timeout_queue`: the queue is the set of the deadlines;
* `wakes_conserved`: no wake is lost, and none is counted twice.
-/

namespace Isambard.El1

open Isambard.Lib

/-! ## The calls -/

/-- A thread is runnable: the links lead to it from the running thread. -/
def Runnable (k : Kernel) (p : ℕ) : Prop := ∃ i < k.contexts.length, k.next^[i] k.runnable = p

instance (k : Kernel) (p : ℕ) : Decidable (Runnable k p) :=
  inferInstanceAs (Decidable (∃ i < k.contexts.length, k.next^[i] k.runnable = p))

/-- The runnable threads are those of the ring. -/
theorem runnable_iff_mem {k : Kernel} {rs : List ℕ}
    (hr : Ring (nextOf k.ctx) (prevOf k.ctx) k.runnable rs) (hnd : (k.runnable :: rs).Nodup)
    (hmem : ∀ p ∈ k.runnable :: rs, p ∈ k.contexts) (p : ℕ) :
    Runnable k p ↔ p ∈ k.runnable :: rs := by
  have hlen : (k.runnable :: rs).length ≤ k.contexts.length :=
    (List.subperm_of_subset hnd hmem).length_le
  have hring : Ring k.next k.prev k.runnable rs := by
    refine ring_congr hr ?_ ?_
    · exact fun q hq => fld_of_mem (hmem q hq) 0
    · exact fun q hq => fld_of_mem (hmem q hq) 1
  exact ring_reaches hring hlen

/-- What the running thread asks of the kernel. -/
inductive Call where
  | wait (timeout : ℕ)
  | wake (target : ℕ)
  | tick
  | yield
deriving Repr, DecidableEq

/-- The meaning of the registers in a call of the gate. -/
def gateCall (k : Kernel) (r : Regs) : Call :=
  if r.x 0 ≠ 0 then .wake (threadFromCode (r.x 0))
  else if k.runnable = k.interruptThread then .tick
  else .wait (r.x 1)

section Calls

variable {k k' : Kernel} {rs qs : List ℕ} {rem : ℕ → ℕ} {r : Regs} {now : ℕ}

theorem GateInv.runnable_iff (h : GateInv k rs qs rem) (p : ℕ) :
    Runnable k p ↔ p ∈ k.runnable :: rs :=
  runnable_iff_mem h.ring h.ringNodup h.ringMem p

/-- Entering the kernel keeps the invariant. -/
theorem GateInv.enter (h : GateInv k rs qs rem) (r : Regs) :
    GateInv (enter k k.runnable r) rs qs rem := by
  have he := enter_entered k k.runnable r
  refine h.congr he.frame he.runnable he.blockedWithTimeout ?_ ?_ ?_
  · exact fun p w hw => he.words p w (.inl (by omega))
  · intro p _ hw
    have hp : p ≠ k.runnable := fun heq => h.awake p (by simp [heq]) hw
    rw [he.others p 5 hp, he.others p 20 hp, he.others p 21 hp, he.others p 38 hp]
    exact ⟨rfl, rfl, rfl, hw⟩
  · intro p hp hw
    rw [he.words p 38 (by omega)]
    exact h.gate_le hp hw

/-- Leaving it does, too. -/
theorem GateInv.leave {t : ℕ} (h : GateInv k rs qs rem) (hl : Left k k' t) :
    GateInv k' rs qs rem := by
  refine h.congr hl.frame hl.runnable hl.blockedWithTimeout ?_ ?_ ?_
  · exact fun p w hw => hl.words p w (by omega)
  · intro p _ hw
    rw [hl.words p 5 (by omega), hl.words p 20 (by omega), hl.words p 21 (by omega),
      hl.words p 38 (by omega)]
    exact ⟨rfl, rfl, rfl, hw⟩
  · intro p hp hw
    rw [hl.words p 38 (by omega)]
    exact h.gate_le hp hw

/-- The cases of the handler. -/
theorem handleSvcGate_cases {t : ℕ} (ht : t ∈ k.contexts) (h : handleSvcGate k t = .ok k' now) :
    (k.ctx t 4 = 0 ∧ t = k.interruptThread ∧ tick k t = .ok k' now) ∨
    (k.ctx t 4 = 0 ∧ t ≠ k.interruptThread ∧ (0 < k.ctx t 38 ∧ k.ctx t 38 < 2 ^ 63) ∧
      k' = k.withCtx (setCtx (setCtx k.ctx t 4 (k.ctx t 38)) t 38 0) ∧ now = t) ∨
    (k.ctx t 4 = 0 ∧ t ≠ k.interruptThread ∧ ¬ (0 < k.ctx t 38 ∧ k.ctx t 38 < 2 ^ 63) ∧
      waitAtGate k t = .ok k' now) ∨
    (k.ctx t 4 ≠ 0 ∧ resumeThread k t (threadFromCode (k.ctx t 4)) = .ok k' now) := by
  have hreg : k.reg t 0 = k.ctx t 4 := fld_of_mem ht 4
  have hgate : k.gate t = k.ctx t 38 := fld_of_mem ht 38
  unfold handleSvcGate at h
  rw [hreg, hgate] at h
  split at h
  · cases h
  split at h
  · rename_i hz
    split at h
    · rename_i hi
      split at h
      · cases h
      · exact .inl ⟨hz, hi, h⟩
    · rename_i hi
      split at h
      · rename_i hg
        rw [Kernel.setReg, setFld_of_mem ht, Kernel.setGate, setFld_of_mem (by exact ht)] at h
        cases h
        exact .inr (.inl ⟨hz, hi, hg, rfl, rfl⟩)
      · rename_i hg
        exact .inr (.inr (.inl ⟨hz, hi, hg, h⟩))
  · rename_i hz
    split at h
    · exact .inr (.inr (.inr ⟨hz, h⟩))
    · cases h

/-- What a call does to the runnable threads, to the gates, and to the results of
the threads that do not run. -/
structure GateEffect (k k' : Kernel) (rs' : List ℕ) (runs : ℕ → Prop) (gate result : ℕ → ℕ) :
    Prop where
  frame : Frame k k'
  ring : ∀ p, p ∈ k'.runnable :: rs' ↔ runs p
  gates : ∀ p, k'.ctx p 38 = gate p
  results : ∀ p, p ≠ k.runnable → k'.ctx p 4 = result p

/-- The effect of a handler is that of the whole step. -/
theorem GateEffect.step {k₁ : Kernel} {rs' : List ℕ} {runs : ℕ → Prop}
    {gate gate' result result' : ℕ → ℕ}
    (h : GateEffect (El1.enter k k.runnable r) k₁ rs' runs gate result)
    (hl : Left k₁ k' k.runnable) (hg : ∀ p, gate p = gate' p)
    (hr : ∀ p, p ≠ k.runnable → result p = result' p) :
    GateEffect k k' rs' runs gate' result' := by
  refine ⟨((enter_entered k k.runnable r).frame.trans h.frame).trans hl.frame, ?_, ?_, ?_⟩
  · rw [hl.runnable]
    exact h.ring
  · intro p
    rw [hl.words p 38 (by omega), ← hg p]
    exact h.gates p
  · intro p hp
    rw [hl.words p 4 (by omega), ← hr p hp]
    exact h.results p hp

/-- The timer ticks. -/
theorem tick_effect {k₁ : Kernel} (h : GateInv k rs qs rem) (ht : tick k k.runnable = .ok k₁ now) :
    now = k.runnable ∧ ∃ qs' es : List ℕ, GateInv k₁ (es.reverse ++ rs) qs' (fun p => rem p - 1) ∧
      GateEffect k k₁ (es.reverse ++ rs) (fun p => p ∈ es ∨ p ∈ k.runnable :: rs)
        (fun p => if p ∈ es then 0 else k.ctx p 38)
        (fun p => if p ∈ es then 2 ^ 64 - 1 else k.ctx p 4) ∧
      (∀ p, p ∈ es ↔ p ∈ qs ∧ rem p = 1) ∧ ∀ p, p ∈ qs' ↔ p ∈ qs ∧ p ∉ es := by
  obtain ⟨k₂, qs', es, hok, hrel, hres, hinv, hes, hqs⟩ := tick_inv h
  rw [hok] at ht
  cases ht
  refine ⟨rfl, qs', es, hinv, ⟨hrel.frame, ?_, hrel.gates, fun p _ => hres p⟩, hes, hqs⟩
  intro p
  rw [hrel.runnable]
  simp only [List.mem_cons, List.mem_append, List.mem_reverse]
  tauto

/-- A wait that returns the number of wakes. -/
theorem counted_effect {k₁ : Kernel} (h : GateInv k rs qs rem)
    (hk : k₁ = k.withCtx
      (setCtx (setCtx k.ctx k.runnable 4 (k.ctx k.runnable 38)) k.runnable 38 0)) :
    GateInv k₁ rs qs rem ∧ GateEffect k k₁ rs (· ∈ k.runnable :: rs)
      (Function.update (fun p => k.ctx p 38) k.runnable 0) (fun p => k.ctx p 4) ∧
      k₁.ctx k.runnable 4 = k.ctx k.runnable 38 := by
  have hawake := h.awake _ List.mem_cons_self
  have h₁ := h.setAwake (w := 4) (v := k.ctx k.runnable 38) hawake (by decide) (by omega)
  have h₂ := h₁.setAwake (p := k.runnable) (w := 38) (v := 0) (by simpa using hawake) (by decide)
    (by decide)
  rw [withCtx_withCtx, withCtx_ctx, ← hk] at h₂
  refine ⟨h₂, ⟨?_, ?_, ?_, ?_⟩, ?_⟩
  · rw [hk]
    exact ⟨rfl, rfl, rfl, rfl, rfl, rfl, rfl, rfl⟩
  · rw [hk]
    exact fun p => Iff.rfl
  · intro p
    rw [hk, withCtx_ctx]
    by_cases hp : p = k.runnable
    · simp [hp]
    · simp [hp]
  · intro p hp
    rw [hk, withCtx_ctx]
    simp [hp]
  · rw [hk, withCtx_ctx]
    simp

/-- A wait that blocks. -/
theorem blocked_effect {k₁ : Kernel} {x : ℕ} (h : GateInv k (x :: rs) qs rem)
    (hn : k.ctx k.runnable 5 < 2 ^ 64) (hw : waitAtGate k k.runnable = .ok k₁ now) :
    now = x ∧ ∃ qs', GateInv k₁ rs qs' (Function.update rem k.runnable (k.ctx k.runnable 5)) ∧
      GateEffect k k₁ rs (· ∈ x :: rs)
        (Function.update (fun p => k.ctx p 38) k.runnable threadWaiting) (fun p => k.ctx p 4) ∧
      k₁.ctx k.runnable 4 = 0 ∧
      ∀ p, p ∈ qs' ↔ p ∈ qs ∨ (p = k.runnable ∧ 0 < k.ctx k.runnable 5) := by
  obtain ⟨k₂, qs', hok, hrun, hwaited, hinv, hqs⟩ := wait_inv h hn
  rw [hok] at hw
  cases hw
  refine ⟨rfl, qs', hinv, ⟨hwaited.frame, ?_, ?_, ?_⟩, hwaited.result, hqs⟩
  · rw [hrun]
    exact fun p => Iff.rfl
  · intro p
    by_cases hp : p = k.runnable
    · rw [hp, Function.update_self]
      exact hwaited.gate
    · rw [Function.update_of_ne hp]
      exact (hwaited.others p hp).2
  · exact fun p hp => (hwaited.others p hp).1

/-- The wake of a thread that waits. -/
theorem wake_effect {k₁ : Kernel} {g : ℕ} (h : GateInv k rs qs rem) (hg : g ∈ k.contexts)
    (hw : k.ctx g 38 = threadWaiting) (hok : resumeThread k k.runnable g = .ok k₁ now) :
    now = k.runnable ∧ ∃ qs', GateInv k₁ (g :: rs) qs' rem ∧
      GateEffect k k₁ (g :: rs) (fun p => p = g ∨ p ∈ k.runnable :: rs)
        (Function.update (fun p => k.ctx p 38) g 0) (fun p => k.ctx p 4) ∧
      ∀ p, p ∈ qs' ↔ p ∈ qs ∧ p ≠ g := by
  have hmap : k.currentMap k.runnable = k.currentMap g := by
    by_contra hne
    have hgate : k.gate g = threadWaiting := (fld_of_mem hg 38).trans hw
    rw [resumeThread, if_pos hgate, if_neg hne] at hok
    cases hok
  obtain ⟨k₂, qs', hok₂, hrel, hres, hinv, hqs⟩ := wake_waiting h hg hw hmap
  rw [hok] at hok₂
  cases hok₂
  refine ⟨rfl, qs', hinv, ⟨hrel.frame, ?_, ?_, fun p _ => hres p⟩, ?_⟩
  · intro p
    rw [hrel.runnable]
    simp only [List.mem_cons]
    tauto
  · intro p
    rw [hrel.gates p]
    by_cases hp : p = g
    · simp [hp]
    · simp [hp]
  · intro p
    rw [hqs p, List.mem_singleton]

/-- The wake of a thread that does not wait. -/
theorem count_effect {k₁ : Kernel} {g : ℕ} (h : GateInv k rs qs rem) (hg : g ∈ k.contexts)
    (hw : k.ctx g 38 ≠ threadWaiting) (hok : resumeThread k k.runnable g = .ok k₁ now) :
    now = k.runnable ∧ GateInv k₁ rs qs rem ∧
      GateEffect k k₁ rs (· ∈ k.runnable :: rs)
        (Function.update (fun p => k.ctx p 38) g (min (k.ctx g 38 + 1) 0x7fffffff))
        (fun p => k.ctx p 4) := by
  rw [wake_counted h hg hw] at hok
  cases hok
  refine ⟨rfl, h.setAwake hw (by decide) (fun _ => Nat.min_le_right _ _),
    ⟨⟨rfl, rfl, rfl, rfl, rfl, rfl, rfl, rfl⟩, fun p => Iff.rfl, ?_, ?_⟩⟩
  · intro p
    by_cases hp : p = g
    · simp [hp]
    · simp [hp]
  · intro p _
    simp

/-- Another thread has its turn. -/
theorem GateInv.rotate {x : ℕ} (h : GateInv k (x :: rs) qs rem) :
    GateInv { k with runnable := x } (rs ++ [k.runnable]) qs rem := by
  have hmem : ∀ p, p ∈ x :: (rs ++ [k.runnable]) ↔ p ∈ k.runnable :: x :: rs := by
    intro p
    simp only [List.mem_cons, List.mem_append, List.not_mem_nil, or_false]
    tauto
  refine ⟨h.placed.congr rfl rfl, h.owners, ring_rotate (s := []).1 h.ring, ?_, ?_, ?_, h.queue,
    h.queueNodup, h.waiting, h.queued, h.sums, h.first, h.bound, h.gates⟩
  · have hperm : (x :: (rs ++ [k.runnable])).Perm (k.runnable :: x :: rs) :=
      List.perm_append_singleton k.runnable (x :: rs)
    exact hperm.nodup_iff.2 h.ringNodup
  · exact fun p hp => h.ringMem p ((hmem p).1 hp)
  · exact fun p hp => h.awake p ((hmem p).1 hp)

/-- A yield. -/
theorem yield_effect {k₁ : Kernel} (h : GateInv k rs qs rem)
    (hok : handleYield k k.runnable = .ok k₁ now) :
    now ∈ k.contexts ∧ ∃ rs', GateInv k₁ rs' qs rem ∧
      GateEffect k k₁ rs' (· ∈ k.runnable :: rs) (fun p => k.ctx p 38) (fun p => k.ctx p 4) := by
  have ht := h.runnable_mem
  have hawake := h.awake _ List.mem_cons_self
  have hset : ∀ v, k.setReg k.runnable 0 v = k.withCtx (setCtx k.ctx k.runnable 4 v) :=
    fun v => setFld_of_mem ht _ _
  have hset_inv : ∀ v, GateInv (k.withCtx (setCtx k.ctx k.runnable 4 v)) rs qs rem :=
    fun v => h.setAwake hawake (by decide) (by omega)
  have hnext : k.next k.runnable = k.ctx k.runnable 0 := fld_of_mem ht 0
  unfold handleYield at hok
  simp only [hset] at hok
  split at hok
  · rename_i hne
    cases rs with
    | nil => exact absurd (hnext.trans (ring_nil.1 h.ring).1) hne
    | cons x rs =>
      have hx : k.ctx k.runnable 0 = x := (List.isChain_cons_cons.1 h.ring).1.1
      have hnow : (k.withCtx (setCtx k.ctx k.runnable 4 1)).next k.runnable = x := by
        refine (fld_of_mem (by exact ht) 0).trans ?_
        rw [withCtx_ctx, setCtx_apply, if_neg (by simp)]
        exact hx
      rw [hnow] at hok
      cases hok
      refine ⟨h.ringMem now (by simp), rs ++ [k.runnable], (hset_inv 1).rotate,
        ⟨⟨rfl, rfl, rfl, rfl, rfl, rfl, rfl, rfl⟩, ?_, ?_, ?_⟩⟩
      · intro p
        simp only [List.mem_cons, List.mem_append, List.not_mem_nil, or_false]
        tauto
      · intro p
        show setCtx k.ctx k.runnable 4 1 p 38 = _
        simp
      · intro p hp
        show setCtx k.ctx k.runnable 4 1 p 4 = _
        simp [hp]
  · cases hok
    refine ⟨ht, rs, hset_inv 0,
      ⟨⟨rfl, rfl, rfl, rfl, rfl, rfl, rfl, rfl⟩, fun p => Iff.rfl, ?_, ?_⟩⟩
    · intro p
      simp
    · intro p hp
      simp [hp]

/-- A call of the gate, from entering the kernel to leaving it. -/
theorem gate_step_cases (h : GateInv k rs qs rem) (hr : ∀ i, r.x i < 2 ^ 64) (hrs : rs ≠ [])
    (htarget : ∀ g, gateCall k r = .wake g → g ∈ k.contexts)
    (hs : kernelStep k r (.svc 0xf001) = .ok k' now) :
    (∃ qs' es : List ℕ, gateCall k r = .tick ∧
      GateInv k' (es.reverse ++ rs) qs' (fun p => rem p - 1) ∧
      GateEffect k k' (es.reverse ++ rs) (fun p => p ∈ es ∨ p ∈ k.runnable :: rs)
        (fun p => if p ∈ es then 0 else k.ctx p 38)
        (fun p => if p ∈ es then 2 ^ 64 - 1 else k.ctx p 4) ∧
      (∀ p, p ∈ es ↔ p ∈ qs ∧ rem p = 1) ∧ ∀ p, p ∈ qs' ↔ p ∈ qs ∧ p ∉ es) ∨
    (∃ n, gateCall k r = .wait n ∧ GateInv k' rs qs rem ∧
      GateEffect k k' rs (· ∈ k.runnable :: rs)
        (Function.update (fun p => k.ctx p 38) k.runnable 0) (fun p => k.ctx p 4) ∧
      k'.ctx k.runnable 4 = k.ctx k.runnable 38) ∨
    (∃ n x l qs', rs = x :: l ∧ gateCall k r = .wait n ∧ k.ctx k.runnable 38 = 0 ∧
      GateInv k' l qs' (Function.update rem k.runnable n) ∧
      GateEffect k k' l (· ∈ rs) (Function.update (fun p => k.ctx p 38) k.runnable threadWaiting)
        (fun p => k.ctx p 4) ∧
      k'.ctx k.runnable 4 = 0 ∧ ∀ p, p ∈ qs' ↔ p ∈ qs ∨ (p = k.runnable ∧ 0 < n)) ∨
    (∃ g qs', gateCall k r = .wake g ∧ g ∈ k.contexts ∧ k.ctx g 38 = threadWaiting ∧
      GateInv k' (g :: rs) qs' rem ∧
      GateEffect k k' (g :: rs) (fun p => p = g ∨ p ∈ k.runnable :: rs)
        (Function.update (fun p => k.ctx p 38) g 0) (fun p => k.ctx p 4) ∧
      ∀ p, p ∈ qs' ↔ p ∈ qs ∧ p ≠ g) ∨
    (∃ g, gateCall k r = .wake g ∧ g ∈ k.contexts ∧ k.ctx g 38 ≠ threadWaiting ∧
      GateInv k' rs qs rem ∧
      GateEffect k k' rs (· ∈ k.runnable :: rs)
        (Function.update (fun p => k.ctx p 38) g (min (k.ctx g 38 + 1) 0x7fffffff))
        (fun p => k.ctx p 4)) := by
  -- the kernel works on the state that entering it leaves, which has the call in x0 and x1
  have he := enter_entered k k.runnable r
  have h₀ := h.enter r
  have ht := h.runnable_mem
  have h4 : (El1.enter k k.runnable r).ctx k.runnable 4 = r.x 0 := enter_reg (i := 0) (by decide)
  have h5 : (El1.enter k k.runnable r).ctx k.runnable 5 = r.x 1 := enter_reg (i := 1) (by decide)
  have hgate : ∀ p, (El1.enter k k.runnable r).ctx p 38 = k.ctx p 38 :=
    fun p => he.words p 38 (by omega)
  have hresult : ∀ p, p ≠ k.runnable → (El1.enter k k.runnable r).ctx p 4 = k.ctx p 4 :=
    fun p hp => he.others p 4 hp
  obtain ⟨k₁, hh, hleft⟩ := kernelStep_svc hs
  have hrun : (El1.enter k k.runnable r).runnable = k.runnable := rfl
  rcases handleSvcGate_cases (k := El1.enter k k.runnable r) ht hh with
    ⟨hz, hi, htick⟩ | ⟨hz, hi, hpos, hk₁, hnow⟩ | ⟨hz, hi, hpos, hwait⟩ | ⟨hz, hwake⟩
  · -- the timer ticks
    left
    rw [h4] at hz
    rw [he.frame.interruptThread] at hi
    have hcall : gateCall k r = .tick := by
      rw [gateCall, if_neg (not_not.2 hz), if_pos hi]
    obtain ⟨rfl, qs', es, hinv, heff, hes, hqs⟩ := tick_effect h₀ htick
    have hl := (hleft (heff.frame.contexts ▸ ht)).2
    refine ⟨qs', es, hcall, hinv.leave hl, heff.step hl ?_ ?_, hes, hqs⟩
    · intro p
      rw [hgate p]
    · intro p hp
      rw [hresult p hp]
  · -- wakes were counted
    right; left
    rw [h4] at hz
    rw [he.frame.interruptThread] at hi
    have hcall : gateCall k r = .wait (r.x 1) := by
      rw [gateCall, if_neg (not_not.2 hz), if_neg hi]
    obtain ⟨hinv, heff, hres⟩ := counted_effect h₀ hk₁
    subst hnow
    have hl := (hleft (heff.frame.contexts ▸ ht)).2
    refine ⟨_, hcall, hinv.leave hl, heff.step hl ?_ hresult, ?_⟩
    · intro p
      simp only [hgate, hrun]
    · rw [hl.words _ 4 (by omega)]
      exact hres.trans (hgate _)
  · -- the thread is blocked
    right; right; left
    rw [h4] at hz
    rw [he.frame.interruptThread] at hi
    have hcall : gateCall k r = .wait (r.x 1) := by
      rw [gateCall, if_neg (not_not.2 hz), if_neg hi]
    obtain ⟨x, l, rfl⟩ := List.exists_cons_of_ne_nil hrs
    obtain ⟨rfl, qs', hinv, heff, hres, hqs⟩ := blocked_effect h₀ (h5 ▸ hr 1) hwait
    rw [hrun, h5] at hinv
    rw [hrun] at hres
    simp only [hrun, h5] at hqs
    have hnow : now ∈ k.contexts := h.ringMem now (by simp)
    have hl := (hleft (heff.frame.contexts ▸ hnow)).2
    -- a thread that runs does not wait, so a count that is not positive is zero
    have hzero : k.ctx k.runnable 38 = 0 := by
      have hle := h.gate_le ht (h.awake _ List.mem_cons_self)
      rw [hgate] at hpos
      omega
    refine ⟨r.x 1, now, l, qs', rfl, hcall, hzero, hinv.leave hl, heff.step hl ?_ hresult, ?_, hqs⟩
    · intro p
      simp only [hgate, hrun]
    · rw [hl.words _ 4 (by omega)]
      exact hres
  · -- another thread is woken
    right; right; right
    rw [h4] at hz hwake
    have hcall : gateCall k r = .wake (threadFromCode (r.x 0)) := by
      rw [gateCall, if_pos hz]
    have hg := htarget _ hcall
    by_cases hw : k.ctx (threadFromCode (r.x 0)) 38 = threadWaiting
    · left
      obtain ⟨rfl, qs', hinv, heff, hqs⟩ := wake_effect h₀ hg ((hgate _).trans hw) hwake
      have hl := (hleft (heff.frame.contexts ▸ ht)).2
      refine ⟨_, qs', hcall, hg, hw, hinv.leave hl, heff.step hl ?_ hresult, hqs⟩
      intro p
      simp only [hgate]
    · right
      have hw₀ : (El1.enter k k.runnable r).ctx (threadFromCode (r.x 0)) 38 ≠ threadWaiting := by
        rw [hgate]
        exact hw
      obtain ⟨rfl, hinv, heff⟩ := count_effect h₀ hg hw₀ hwake
      have hl := (hleft (heff.frame.contexts ▸ ht)).2
      refine ⟨_, hcall, hg, hw, hinv.leave hl, heff.step hl ?_ hresult⟩
      intro p
      simp only [hgate]

end Calls

/-! ## The observer -/

/-- What an observer of the calls knows of one thread. -/
structure Account where
  /-- the timeout of the wait that the thread is blocked in -/
  waiting : Option ℕ
  /-- the ticks since it waited -/
  ticks : ℕ
  /-- the wakes directed at it -/
  wakes : ℕ
  /-- the sum of the counts that its waits returned at once -/
  counted : ℕ
  /-- its waits that blocked -/
  blocked : ℕ
  /-- those of them that returned 0 -/
  woken : ℕ
  /-- those of them that returned -1 -/
  timedOut : ℕ
  /-- the wakes that found its gate at the limit -/
  lost : ℕ
deriving Repr, DecidableEq

/-- Nothing has happened yet. -/
def Account.start : Account := ⟨none, 0, 0, 0, 0, 0, 0, 0⟩

/-- The running thread waits: it is blocked if it is not runnable then, and has
its result if it is. -/
def Account.afterWait (a : Account) (k' : Kernel) (p timeout : ℕ) : Account :=
  if Runnable k' p then { a with counted := a.counted + k'.reg p 0 }
  else { a with waiting := some timeout, ticks := 0, blocked := a.blocked + 1 }

/-- The wait of a thread that is runnable again is over. -/
def Account.ended (a : Account) (k' : Kernel) (p : ℕ) : Account :=
  if a.waiting.isSome ∧ Runnable k' p then
    { a with
      waiting := none
      woken := if k'.reg p 0 = 0 then a.woken + 1 else a.woken
      timedOut := if k'.reg p 0 = 2 ^ 64 - 1 then a.timedOut + 1 else a.timedOut }
  else a

/-- The account of the thread `p` after a call. -/
def Account.after (a : Account) (k k' : Kernel) (p : ℕ) : Call → Account
  | .wait timeout => if p = k.runnable then a.afterWait k' p timeout else a.ended k' p
  | .wake g =>
    if p = g then
      { a.ended k' p with
        wakes := a.wakes + 1
        lost := if k.gate p = 0x7fffffff then a.lost + 1 else a.lost }
    else a.ended k' p
  | .tick => { a.ended k' p with ticks := a.ticks + 1 }
  | .yield => a.ended k' p

/-- A kernel, and an account for each thread. -/
structure Watch where
  kernel : Kernel
  account : ℕ → Account

def Watch.after (s : Watch) (c : Call) (k' : Kernel) : Watch where
  kernel := k'
  account p := (s.account p).after s.kernel k' p c

/-- The core when threads begin to wait: no thread waits, and no wake is
counted. -/
structure GateStart (idle : ℕ) (k : Kernel) : Prop where
  placed : Placed k
  owners : ∀ p ∈ k.contexts, OwnerOk k (k.ctx p 2)
  ring : ∃ rs, Ring (nextOf k.ctx) (prevOf k.ctx) k.runnable rs ∧ (k.runnable :: rs).Nodup ∧
    (∀ p ∈ k.runnable :: rs, p ∈ k.contexts) ∧ idle ∈ k.runnable :: rs
  gates : ∀ p ∈ k.contexts, k.ctx p 38 = 0
  queue : k.blockedWithTimeout = 0

/-- A step: a yield, or a call of the gate by a thread other than the idle
thread. -/
inductive WaitStep (idle : ℕ) (s : Watch) : Call → Watch → Prop
  | yield {r : Regs} {k' : Kernel} {now : ℕ}
      (hs : kernelStep s.kernel r (.svc 0xf008) = .ok k' now) :
      WaitStep idle s .yield (s.after .yield k')
  | gate {r : Regs} {k' : Kernel} {now : ℕ} (hr : ∀ i, r.x i < 2 ^ 64)
      (hidle : s.kernel.runnable ≠ idle)
      (hs : kernelStep s.kernel r (.svc 0xf001) = .ok k' now) :
      WaitStep idle s (gateCall s.kernel r) (s.after (gateCall s.kernel r) k')

def waitSystem (idle : ℕ) : System Watch Call where
  init s := GateStart idle s.kernel ∧ s.account = fun _ => .start
  step := WaitStep idle

/-- A wake names a thread that was created. The kernel tests with `is_real_thread` only that
there are links at the address, and that they lead back to it. -/
def NamesThread (s : Watch) : Call → Prop
  | .wake g => g ∈ s.kernel.contexts
  | _ => True

/-- The runs in which every wake names a created thread. -/
def namedSystem (idle : ℕ) : System Watch Call := (waitSystem idle).restrict NamesThread

/-! ## What the threads rely on -/

/-- The list from `blocked_with_timeout` holds the threads that wait with a
timeout, each with its deadline: the deltas up to it add up to its timeout less
the ticks since it waited. -/
def DeadlineQueue (s : Watch) : Prop :=
  ∃ qs a, PSeg (s.kernel.reg · 17) (s.kernel.reg · 16) (regAddress · 17)
      (blockedWithTimeoutAddress s.kernel) s.kernel.blockedWithTimeout qs a 0 ∧ qs.Nodup ∧
    (∀ p, p ∈ qs ↔ p ∈ s.kernel.contexts ∧ s.kernel.gate p = threadWaiting ∧
      ∃ n, (s.account p).waiting = some n ∧ 0 < n) ∧
    ∀ l₁ p l₂ n, qs = l₁ ++ p :: l₂ → (s.account p).waiting = some n →
      ((l₁ ++ [p]).map (s.kernel.reg · 1)).sum + (s.account p).ticks = n

/-- In the runs of `S`, a thread that waits for `n` ticks, and that nobody wakes,
is blocked until the `n`-th tick and runnable after that, with result -1. -/
def ExpiresOnTime (S : System Watch Call) (s : Watch) : Prop :=
  ∀ p ∈ s.kernel.contexts, ∀ n, (s.account p).waiting = some n → 0 < n →
    ∀ cs s', S.Trace s cs s' → .wake p ∉ cs →
      ((s.account p).ticks + cs.count .tick < n →
        (s'.account p).waiting = some n ∧ ¬ Runnable s'.kernel p) ∧
      ∀ s'', S.step s' .tick s'' → (s.account p).ticks + cs.count .tick + 1 = n →
        Runnable s''.kernel p ∧ s''.kernel.reg p 0 = 2 ^ 64 - 1

/-- The wakes directed at a thread are those its waits have returned, at once or
by ending the wait, those its gate holds, and those that found the gate at its
limit. Every wait that blocked has returned once or is the one the thread is
blocked in, and the gate is -1 just then. -/
structure WakesCounted (s : Watch) (p : ℕ) : Prop where
  wakes : (s.account p).wakes = (s.account p).counted + (s.account p).woken +
    (if 0 < s.kernel.gate p ∧ s.kernel.gate p < 2 ^ 63 then s.kernel.gate p else 0) +
    (s.account p).lost
  returned : (s.account p).blocked = (s.account p).woken + (s.account p).timedOut +
    (if (s.account p).waiting.isSome then 1 else 0)
  gate : s.kernel.gate p = threadWaiting ↔ (s.account p).waiting.isSome
  blocked : (s.account p).waiting.isSome → ¬ Runnable s.kernel p

/-! ## The invariant -/

/-- What the account of the thread `p` has to do with its gate and its place in
the queue. -/
structure AccountOk (k : Kernel) (qs : List ℕ) (rem : ℕ → ℕ) (p : ℕ) (a : Account) : Prop where
  waits : k.ctx p 38 = threadWaiting ↔ a.waiting.isSome
  conserved : a.wakes =
    a.counted + a.woken + (if k.ctx p 38 = threadWaiting then 0 else k.ctx p 38) + a.lost
  returned : a.blocked = a.woken + a.timedOut + if a.waiting.isSome then 1 else 0
  result : a.waiting.isSome → k.ctx p 4 = 0
  queued : ∀ n, a.waiting = some n → (p ∈ qs ↔ 0 < n) ∧ (0 < n → rem p + a.ticks = n)

def WatchInv (idle : ℕ) (s : Watch) : Prop :=
  ∃ rs qs rem, GateInv s.kernel rs qs rem ∧ idle ∈ s.kernel.runnable :: rs ∧
    ∀ p ∈ s.kernel.contexts, AccountOk s.kernel qs rem p (s.account p)

section Accounts

variable {k k' : Kernel} {qs qs' : List ℕ} {rem rem' : ℕ → ℕ} {p : ℕ} {a : Account} {c : Call}

/-- A wait that is not over. -/
theorem ended_self (h : a.waiting.isSome → ¬ Runnable k' p) : a.ended k' p = a := by
  unfold Account.ended
  rw [if_neg fun hw => h hw.1 hw.2]

/-- A thread that the call is not about. -/
theorem account_still (h : AccountOk k qs rem p a) (hgate : k'.ctx p 38 = k.ctx p 38)
    (hruns : a.waiting.isSome → ¬ Runnable k' p ∧ k'.ctx p 4 = k.ctx p 4)
    (hwait : ∀ n, c = .wait n → p ≠ k.runnable) (hwake : c ≠ .wake p) (hqs : p ∈ qs' ↔ p ∈ qs)
    (hrem : p ∈ qs → rem' p + (if c = .tick then 1 else 0) = rem p) :
    AccountOk k' qs' rem' p (a.after k k' p c) := by
  have hend : a.ended k' p = a := ended_self fun hw => (hruns hw).1
  -- the account can differ in the ticks only
  have hafter : a.after k k' p c =
      { a with ticks := a.ticks + if c = .tick then 1 else 0 } := by
    cases c with
    | wait n => simp [Account.after, hwait n rfl, hend]
    | wake g =>
      have hg : p ≠ g := fun heq => hwake (heq ▸ rfl)
      simp [Account.after, hg, hend]
    | tick => simp [Account.after, hend]
    | yield => simp [Account.after, hend]
  rw [hafter]
  refine ⟨?_, ?_, h.returned, fun hw => ((hruns hw).2).trans (h.result hw), ?_⟩
  · rw [hgate]
    exact h.waits
  · rw [hgate]
    exact h.conserved
  · intro n hn
    obtain ⟨hq, hn'⟩ := h.queued n hn
    refine ⟨hqs.trans hq, fun hpos => ?_⟩
    have h₁ := hn' hpos
    have h₂ := hrem (hq.2 hpos)
    show rem' p + (a.ticks + _) = n
    omega

/-- A wait that returns at once. -/
theorem account_counted {n : ℕ} (h : AccountOk k qs rem p a) (hp : p = k.runnable)
    (hw : k.ctx p 38 ≠ threadWaiting) (hruns : Runnable k' p) (hgate : k'.ctx p 38 = 0)
    (hresult : k'.reg p 0 = k.ctx p 38) : AccountOk k' qs' rem' p (a.after k k' p (.wait n)) := by
  have hnone : a.waiting = none := by
    rw [← Option.not_isSome_iff_eq_none, ← h.waits]
    exact hw
  have hafter : a.after k k' p (.wait n) = { a with counted := a.counted + k.ctx p 38 } := by
    simp [Account.after, Account.afterWait, hp ▸ hruns, hp ▸ hresult, hp]
  have hc := h.conserved
  rw [if_neg hw] at hc
  rw [hafter]
  refine ⟨?_, ?_, h.returned, ?_, ?_⟩
  · rw [hgate]
    simp [hnone, threadWaiting]
  · rw [hgate, ite_self]
    show a.wakes = a.counted + k.ctx p 38 + a.woken + 0 + a.lost
    omega
  · simp [hnone]
  · simp [hnone]

/-- A wait that blocks. -/
theorem account_blocked {n : ℕ} (h : AccountOk k qs rem p a) (hp : p = k.runnable)
    (hw : k.ctx p 38 = 0) (hruns : ¬ Runnable k' p) (hgate : k'.ctx p 38 = threadWaiting)
    (hresult : k'.ctx p 4 = 0) (hqs : p ∈ qs' ↔ 0 < n) (hrem : rem' p = n) :
    AccountOk k' qs' rem' p (a.after k k' p (.wait n)) := by
  have hnone : a.waiting = none := by
    rw [← Option.not_isSome_iff_eq_none, ← h.waits, hw]
    decide
  have hafter : a.after k k' p (.wait n) =
      { a with waiting := some n, ticks := 0, blocked := a.blocked + 1 } := by
    simp [Account.after, Account.afterWait, hp ▸ hruns, hp]
  have hc := h.conserved
  have hr := h.returned
  rw [hw] at hc
  rw [hnone] at hr
  simp only [threadWaiting] at hc
  rw [hafter]
  refine ⟨?_, ?_, ?_, fun _ => hresult, ?_⟩
  · simp [hgate]
  · rw [hgate, if_pos rfl]
    simpa using hc
  · simpa using hr
  · intro m hm
    cases hm
    exact ⟨hqs, fun _ => hrem⟩

/-- A wake that is counted, or lost. -/
theorem account_wake (h : AccountOk k qs rem p a) (hmem : p ∈ k.contexts)
    (hw : k.ctx p 38 ≠ threadWaiting) (hle : k.ctx p 38 ≤ 0x7fffffff)
    (hgate : k'.ctx p 38 = min (k.ctx p 38 + 1) 0x7fffffff) :
    AccountOk k' qs' rem' p (a.after k k' p (.wake p)) := by
  have hnone : a.waiting = none := by
    rw [← Option.not_isSome_iff_eq_none, ← h.waits]
    exact hw
  have hend : a.ended k' p = a := ended_self fun hsome => by simp [hnone] at hsome
  have hkgate : k.gate p = k.ctx p 38 := fld_of_mem hmem 38
  have hne : k'.ctx p 38 ≠ threadWaiting := by
    rw [hgate, threadWaiting]
    omega
  have hc := h.conserved
  rw [if_neg hw] at hc
  have hafter : a.after k k' p (.wake p) =
      { a with
        wakes := a.wakes + 1
        lost := if k.ctx p 38 = 0x7fffffff then a.lost + 1 else a.lost } := by
    simp [Account.after, hend, hkgate]
  rw [hafter]
  refine ⟨?_, ?_, h.returned, ?_, ?_⟩
  · simp [hne, hnone]
  · rw [if_neg hne, hgate]
    show a.wakes + 1 = a.counted + a.woken + _ + if k.ctx p 38 = 0x7fffffff then _ else _
    split
    · omega
    · omega
  · simp [hnone]
  · simp [hnone]

/-- A wait that a wake ends. -/
theorem account_woken (h : AccountOk k qs rem p a) (hmem : p ∈ k.contexts)
    (hw : k.ctx p 38 = threadWaiting) (hruns : Runnable k' p) (hgate : k'.ctx p 38 = 0)
    (hresult : k'.reg p 0 = 0) : AccountOk k' qs' rem' p (a.after k k' p (.wake p)) := by
  have hsome := h.waits.1 hw
  have hkgate : k.gate p = threadWaiting := (fld_of_mem hmem 38).trans hw
  have hc := h.conserved
  have hr := h.returned
  rw [if_pos hw] at hc
  rw [if_pos hsome] at hr
  have hafter : a.after k k' p (.wake p) =
      { a with waiting := none, woken := a.woken + 1, wakes := a.wakes + 1 } := by
    simp [Account.after, Account.ended, hsome, hruns, hresult, hkgate, threadWaiting]
  rw [hafter]
  refine ⟨?_, ?_, ?_, ?_, ?_⟩
  · simp [hgate, threadWaiting]
  · rw [hgate, ite_self]
    simp only
    omega
  · simp only [Option.isSome_none, Bool.false_eq_true, if_false]
    omega
  · simp
  · simp

/-- A wait that a tick ends. -/
theorem account_expired (h : AccountOk k qs rem p a) (hw : k.ctx p 38 = threadWaiting)
    (hruns : Runnable k' p) (hgate : k'.ctx p 38 = 0) (hresult : k'.reg p 0 = 2 ^ 64 - 1) :
    AccountOk k' qs' rem' p (a.after k k' p .tick) := by
  have hsome := h.waits.1 hw
  have hc := h.conserved
  have hr := h.returned
  rw [if_pos hw] at hc
  rw [if_pos hsome] at hr
  have hafter : a.after k k' p .tick =
      { a with waiting := none, timedOut := a.timedOut + 1, ticks := a.ticks + 1 } := by
    simp [Account.after, Account.ended, hsome, hruns, hresult]
  rw [hafter]
  refine ⟨?_, ?_, ?_, ?_, ?_⟩
  · simp [hgate, threadWaiting]
  · rw [hgate, ite_self]
    simp only
    omega
  · simp only [Option.isSome_none, Bool.false_eq_true, if_false]
    omega
  · simp
  · simp

end Accounts

/-! ## Every run -/

/-- What the threads see of one call: a blocked thread is runnable again just if
the call is a wake of it or the last tick that it waited for, with the result
that says so; the results of runnable threads are kept until they run. -/
structure CallSeen (s s' : Watch) (c : Call) : Prop where
  contexts : s'.kernel.contexts = s.kernel.contexts
  ends : ∀ p ∈ s.kernel.contexts, ∀ n, (s.account p).waiting = some n →
    (Runnable s'.kernel p ↔ c = .wake p ∨ (c = .tick ∧ (s.account p).ticks + 1 = n)) ∧
    (c = .wake p → s'.kernel.reg p 0 = 0) ∧
    (c = .tick → Runnable s'.kernel p → s'.kernel.reg p 0 = 2 ^ 64 - 1)
  kept : ∀ p, Runnable s.kernel p → p ≠ s.kernel.runnable →
    s'.kernel.reg p 0 = s.kernel.reg p 0

section Run

variable {idle : ℕ} {s : Watch} {k' : Kernel} {rs rs' qs qs' : List ℕ} {rem rem' : ℕ → ℕ}

/-- A blocked thread is not in the ring. -/
theorem AccountOk.notMem {k : Kernel} {p : ℕ} {a : Account} (ha : AccountOk k qs rem p a)
    (h : GateInv k rs qs rem) (hsome : a.waiting.isSome) : p ∉ k.runnable :: rs :=
  h.notMem_ring (ha.waits.2 hsome)

/-- A call after which the same threads are blocked. -/
theorem seen_still {c : Call} {runs : ℕ → Prop} {gate : ℕ → ℕ} (h : GateInv s.kernel rs qs rem)
    (ha : ∀ p ∈ s.kernel.contexts, AccountOk s.kernel qs rem p (s.account p))
    (h' : GateInv k' rs' qs' rem')
    (he : GateEffect s.kernel k' rs' runs gate (fun p => s.kernel.ctx p 4))
    (hruns : ∀ p, runs p → p ∈ s.kernel.runnable :: rs)
    (hwake : ∀ p ∈ s.kernel.contexts, c = .wake p → s.kernel.ctx p 38 ≠ threadWaiting)
    (htick : c ≠ .tick) : CallSeen s (s.after c k') c := by
  have hstill : ∀ p ∈ s.kernel.contexts, ∀ n, (s.account p).waiting = some n →
      ¬ Runnable k' p ∧ c ≠ .wake p := by
    intro p hp n hn
    have hsome : (s.account p).waiting.isSome := by rw [hn]; rfl
    constructor
    · rw [h'.runnable_iff, he.ring]
      exact fun hr => (ha p hp).notMem h hsome (hruns p hr)
    · exact fun hc => hwake p hp hc ((ha p hp).waits.2 hsome)
  refine ⟨he.frame.contexts, ?_, ?_⟩
  · intro p hp n hn
    obtain ⟨hr, hc⟩ := hstill p hp n hn
    refine ⟨⟨fun hr' => absurd hr' hr, ?_⟩, fun hc' => absurd hc' hc, fun hc' => absurd hc' htick⟩
    rintro (hc' | ⟨hc', -⟩)
    · exact absurd hc' hc
    · exact absurd hc' htick
  · intro p hp hne
    have hm : p ∈ s.kernel.contexts := h.ringMem p ((h.runnable_iff p).1 hp)
    have hm' : p ∈ k'.contexts := he.frame.contexts ▸ hm
    show k'.reg p 0 = s.kernel.reg p 0
    rw [Kernel.reg, Kernel.reg, fld_of_mem hm', fld_of_mem hm]
    exact he.results p hne

/-- The accounts of the threads that a call is not about. -/
theorem accounts_still {c : Call} {runs : ℕ → Prop} {gate : ℕ → ℕ} {p : ℕ}
    (h : GateInv s.kernel rs qs rem) (ha : AccountOk s.kernel qs rem p (s.account p))
    (h' : GateInv k' rs' qs' rem')
    (he : GateEffect s.kernel k' rs' runs gate (fun p => s.kernel.ctx p 4))
    (hruns : runs p → p ∈ s.kernel.runnable :: rs) (hgate : gate p = s.kernel.ctx p 38)
    (hwait : ∀ n, c = .wait n → p ≠ s.kernel.runnable) (hwake : c ≠ .wake p)
    (htick : c ≠ .tick) (hqs : p ∈ qs' ↔ p ∈ qs) (hrem : p ∈ qs → rem' p = rem p) :
    AccountOk k' qs' rem' p ((s.account p).after s.kernel k' p c) := by
  refine account_still ha ((he.gates p).trans hgate) ?_ hwait hwake hqs ?_
  · intro hsome
    have hring := ha.notMem h hsome
    have hne : p ≠ s.kernel.runnable := fun heq => hring (by simp [heq])
    refine ⟨?_, he.results p hne⟩
    rw [h'.runnable_iff, he.ring]
    exact fun hr => hring (hruns hr)
  · intro hp
    rw [if_neg htick, hrem hp, Nat.add_zero]

/-- A yield. -/
theorem yield_seen {r : Regs} {now : ℕ} (hi : WatchInv idle s)
    (hs : kernelStep s.kernel r (.svc 0xf008) = .ok k' now) :
    WatchInv idle (s.after .yield k') ∧ CallSeen s (s.after .yield k') .yield := by
  obtain ⟨rs, qs, rem, h, hidle, ha⟩ := hi
  have he := enter_entered s.kernel s.kernel.runnable r
  obtain ⟨k₁, hh, hleft⟩ := kernelStep_svc hs
  obtain ⟨hnow, rs', hinv, heff⟩ := yield_effect (h.enter r) hh
  have hl := (hleft (heff.frame.contexts ▸ hnow)).2
  have h' := hinv.leave hl
  have heff' : GateEffect s.kernel k' rs' (· ∈ s.kernel.runnable :: rs)
      (fun p => s.kernel.ctx p 38) (fun p => s.kernel.ctx p 4) :=
    heff.step hl (fun p => he.words p 38 (by omega)) fun p hp => he.others p 4 hp
  refine ⟨⟨rs', qs, rem, h', (heff'.ring idle).2 hidle, ?_⟩, ?_⟩
  · intro p hp
    exact accounts_still (c := .yield) h (ha p (heff'.frame.contexts ▸ hp)) h' heff' id rfl
      (by simp) (by simp) (by simp) Iff.rfl fun _ => rfl
  · exact seen_still h ha h' heff' (fun _ => id) (by simp) (by simp)

/-- A tick. -/
theorem tick_seen {es : List ℕ} (h : GateInv s.kernel rs qs rem)
    (hidle : idle ∈ s.kernel.runnable :: rs)
    (ha : ∀ p ∈ s.kernel.contexts, AccountOk s.kernel qs rem p (s.account p))
    (h' : GateInv k' (es.reverse ++ rs) qs' (fun p => rem p - 1))
    (he : GateEffect s.kernel k' (es.reverse ++ rs) (fun p => p ∈ es ∨ p ∈ s.kernel.runnable :: rs)
      (fun p => if p ∈ es then 0 else s.kernel.ctx p 38)
      (fun p => if p ∈ es then 2 ^ 64 - 1 else s.kernel.ctx p 4))
    (hes : ∀ p, p ∈ es ↔ p ∈ qs ∧ rem p = 1) (hqs : ∀ p, p ∈ qs' ↔ p ∈ qs ∧ p ∉ es) :
    WatchInv idle (s.after .tick k') ∧ CallSeen s (s.after .tick k') .tick := by
  -- the threads whose time is over were waiting, so none of them was running
  have hwait : ∀ p ∈ es, s.kernel.ctx p 38 = threadWaiting :=
    fun p hp => (h.waiting p ((hes p).1 hp).1).2
  have hne : ∀ p ∈ es, p ≠ s.kernel.runnable := fun p hp heq =>
    h.awake p (by simp [heq]) (hwait p hp)
  have hruns : ∀ p, Runnable k' p ↔ p ∈ es ∨ p ∈ s.kernel.runnable :: rs :=
    fun p => (h'.runnable_iff p).trans (he.ring p)
  have hres : ∀ p ∈ s.kernel.contexts, p ≠ s.kernel.runnable →
      k'.reg p 0 = if p ∈ es then 2 ^ 64 - 1 else s.kernel.ctx p 4 := by
    intro p hp hpne
    have hm' : p ∈ k'.contexts := he.frame.contexts ▸ hp
    exact (fld_of_mem hm' 4).trans (he.results p hpne)
  refine ⟨⟨_, qs', _, h', (he.ring idle).2 (.inr hidle), ?_⟩, ⟨he.frame.contexts, ?_, ?_⟩⟩
  · intro p hp
    have hm : p ∈ s.kernel.contexts := he.frame.contexts ▸ hp
    -- the account of each thread goes on from the state before the tick
    show AccountOk k' _ _ p ((s.account p).after s.kernel k' p .tick)
    by_cases hpe : p ∈ es
    · -- its time is over: the wait returns -1
      refine account_expired (ha p hm) (hwait p hpe) ((hruns p).2 (.inl hpe)) ?_ ?_
      · rw [he.gates p, if_pos hpe]
      · rw [hres p hm (hne p hpe), if_pos hpe]
    · -- every other thread that waits has one tick more behind it
      refine account_still (c := .tick) (ha p hm) ?_ ?_ (by simp) (by simp) ?_ ?_
      · rw [he.gates p, if_neg hpe]
      · intro hsome
        have hring := (ha p hm).notMem h hsome
        have hpr : p ≠ s.kernel.runnable := fun heq => hring (by simp [heq])
        refine ⟨?_, ?_⟩
        · rw [hruns p]
          exact fun hr => hr.elim hpe hring
        · rw [he.results p hpr, if_neg hpe]
      · rw [hqs p]
        exact and_iff_left hpe
      · intro hpq
        have := h.rem_pos hpq
        rw [if_pos rfl]
        omega
  · -- a thread that waits is runnable afterwards just when its last tick has come
    intro p hp n hn
    have hsome : (s.account p).waiting.isSome := by rw [hn]; rfl
    have hring := (ha p hp).notMem h hsome
    obtain ⟨hq, hrem⟩ := (ha p hp).queued n hn
    have hmem : p ∈ es ↔ (s.account p).ticks + 1 = n := by
      rw [hes p, hq]
      constructor
      · rintro ⟨hpos, hone⟩
        have := hrem hpos
        omega
      · intro hlast
        have := hrem (by omega)
        exact ⟨by omega, by omega⟩
    have hr : Runnable k' p ↔ p ∈ es := by
      rw [hruns p]
      exact or_iff_left hring
    refine ⟨?_, by simp, ?_⟩
    · show Runnable k' p ↔ _
      rw [hr, hmem]
      simp
    · intro _ hrun
      have hpe := hr.1 hrun
      show k'.reg p 0 = _
      rw [hres p hp (hne p hpe), if_pos hpe]
  · -- a thread that was runnable has its result as it was
    intro p hp hpne
    have hpr := (h.runnable_iff p).1 hp
    have hm := h.ringMem p hpr
    have hpe : p ∉ es := fun hpe => h.awake p hpr (hwait p hpe)
    show k'.reg p 0 = s.kernel.reg p 0
    rw [hres p hm hpne, if_neg hpe]
    exact (fld_of_mem hm 4).symm

/-- A wait that returns at once. -/
theorem counted_seen {n : ℕ} (h : GateInv s.kernel rs qs rem)
    (hidle : idle ∈ s.kernel.runnable :: rs)
    (ha : ∀ p ∈ s.kernel.contexts, AccountOk s.kernel qs rem p (s.account p))
    (h' : GateInv k' rs qs rem)
    (he : GateEffect s.kernel k' rs (· ∈ s.kernel.runnable :: rs)
      (Function.update (fun p => s.kernel.ctx p 38) s.kernel.runnable 0)
      (fun p => s.kernel.ctx p 4))
    (hres : k'.ctx s.kernel.runnable 4 = s.kernel.ctx s.kernel.runnable 38) :
    WatchInv idle (s.after (.wait n) k') ∧ CallSeen s (s.after (.wait n) k') (.wait n) := by
  have ht' : s.kernel.runnable ∈ k'.contexts := he.frame.contexts ▸ h.runnable_mem
  refine ⟨⟨rs, qs, rem, h', (he.ring idle).2 hidle, ?_⟩, ?_⟩
  · intro p hp
    have hm : p ∈ s.kernel.contexts := he.frame.contexts ▸ hp
    show AccountOk k' _ _ p ((s.account p).after s.kernel k' p (.wait n))
    by_cases hpt : p = s.kernel.runnable
    · subst hpt
      refine account_counted (ha _ hm) rfl (h.awake _ List.mem_cons_self) ?_ ?_ ?_
      · rw [h'.runnable_iff, he.ring]
        exact List.mem_cons_self
      · rw [he.gates, Function.update_self]
      · exact (fld_of_mem ht' 4).trans hres
    · exact accounts_still (c := .wait n) h (ha p hm) h' he id (Function.update_of_ne hpt _ _)
        (fun _ _ => hpt) (by simp) (by simp) Iff.rfl fun _ => rfl
  · exact seen_still h ha h' he (fun _ => id) (by simp) (by simp)

/-- A wait that blocks. -/
theorem blocked_seen {n x : ℕ} {l : List ℕ} (h : GateInv s.kernel (x :: l) qs rem)
    (hidle : idle ∈ x :: l)
    (ha : ∀ p ∈ s.kernel.contexts, AccountOk s.kernel qs rem p (s.account p))
    (hzero : s.kernel.ctx s.kernel.runnable 38 = 0)
    (h' : GateInv k' l qs' (Function.update rem s.kernel.runnable n))
    (he : GateEffect s.kernel k' l (· ∈ x :: l)
      (Function.update (fun p => s.kernel.ctx p 38) s.kernel.runnable threadWaiting)
      (fun p => s.kernel.ctx p 4))
    (hres : k'.ctx s.kernel.runnable 4 = 0)
    (hqs : ∀ p, p ∈ qs' ↔ p ∈ qs ∨ (p = s.kernel.runnable ∧ 0 < n)) :
    WatchInv idle (s.after (.wait n) k') ∧ CallSeen s (s.after (.wait n) k') (.wait n) := by
  refine ⟨⟨l, qs', _, h', (he.ring idle).2 hidle, ?_⟩, ?_⟩
  · intro p hp
    have hm : p ∈ s.kernel.contexts := he.frame.contexts ▸ hp
    show AccountOk k' _ _ p ((s.account p).after s.kernel k' p (.wait n))
    by_cases hpt : p = s.kernel.runnable
    · subst hpt
      refine account_blocked (ha _ hm) rfl hzero ?_ ?_ hres ?_ (Function.update_self _ _ _)
      · rw [h'.runnable_iff, he.ring]
        exact (List.nodup_cons.1 h.ringNodup).1
      · rw [he.gates, Function.update_self]
      · rw [hqs]
        simp [h.runnable_notMem_queue]
    · refine accounts_still (c := .wait n) h (ha p hm) h' he (List.mem_cons_of_mem _)
        (Function.update_of_ne hpt _ _) (fun _ _ => hpt) (by simp) (by simp) ?_ ?_
      · rw [hqs p]
        simp [hpt]
      · exact fun _ => Function.update_of_ne hpt _ _
  · exact seen_still h ha h' he (fun _ => List.mem_cons_of_mem _) (by simp) (by simp)

/-- The wake of a thread that waits. -/
theorem woken_seen {g : ℕ} (h : GateInv s.kernel rs qs rem)
    (hidle : idle ∈ s.kernel.runnable :: rs)
    (ha : ∀ p ∈ s.kernel.contexts, AccountOk s.kernel qs rem p (s.account p))
    (hg : g ∈ s.kernel.contexts) (hw : s.kernel.ctx g 38 = threadWaiting)
    (h' : GateInv k' (g :: rs) qs' rem)
    (he : GateEffect s.kernel k' (g :: rs) (fun p => p = g ∨ p ∈ s.kernel.runnable :: rs)
      (Function.update (fun p => s.kernel.ctx p 38) g 0) (fun p => s.kernel.ctx p 4))
    (hqs : ∀ p, p ∈ qs' ↔ p ∈ qs ∧ p ≠ g) :
    WatchInv idle (s.after (.wake g) k') ∧ CallSeen s (s.after (.wake g) k') (.wake g) := by
  have hgr := h.notMem_ring hw
  have hgne : g ≠ s.kernel.runnable := fun heq => hgr (by simp [heq])
  have hg' : g ∈ k'.contexts := he.frame.contexts ▸ hg
  have hruns : ∀ p, Runnable k' p ↔ p = g ∨ p ∈ s.kernel.runnable :: rs :=
    fun p => (h'.runnable_iff p).trans (he.ring p)
  have hzero : k'.reg g 0 = 0 := by
    refine (fld_of_mem hg' 4).trans ((he.results g hgne).trans ?_)
    exact (ha g hg).result ((ha g hg).waits.1 hw)
  refine ⟨⟨_, qs', rem, h', (he.ring idle).2 (.inr hidle), ?_⟩, ⟨he.frame.contexts, ?_, ?_⟩⟩
  · intro p hp
    have hm : p ∈ s.kernel.contexts := he.frame.contexts ▸ hp
    show AccountOk k' _ _ p ((s.account p).after s.kernel k' p (.wake g))
    by_cases hpg : p = g
    · -- the woken thread: its wait returns 0
      subst hpg
      refine account_woken (ha p hm) hg hw ((hruns p).2 (.inl rfl)) ?_ hzero
      rw [he.gates, Function.update_self]
    · refine accounts_still (c := .wake g) h (ha p hm) h' he (fun hr => hr.resolve_left hpg)
        (Function.update_of_ne hpg _ _) (by simp) (by simpa using Ne.symm hpg) (by simp) ?_
        fun _ => rfl
      rw [hqs p]
      exact and_iff_left hpg
  · intro p hp n hn
    have hsome : (s.account p).waiting.isSome := by rw [hn]; rfl
    have hring := (ha p hp).notMem h hsome
    refine ⟨?_, ?_, by simp⟩
    · show Runnable k' p ↔ _
      rw [hruns p, or_iff_left hring]
      simp [eq_comm]
    · intro hc
      cases hc
      exact hzero
  · intro p hp hpne
    have hm := h.ringMem p ((h.runnable_iff p).1 hp)
    have hm' : p ∈ k'.contexts := he.frame.contexts ▸ hm
    show k'.reg p 0 = s.kernel.reg p 0
    rw [Kernel.reg, Kernel.reg, fld_of_mem hm', fld_of_mem hm]
    exact he.results p hpne

/-- The wake of a thread that does not wait. -/
theorem count_seen {g : ℕ} (h : GateInv s.kernel rs qs rem)
    (hidle : idle ∈ s.kernel.runnable :: rs)
    (ha : ∀ p ∈ s.kernel.contexts, AccountOk s.kernel qs rem p (s.account p))
    (hg : g ∈ s.kernel.contexts) (hw : s.kernel.ctx g 38 ≠ threadWaiting)
    (h' : GateInv k' rs qs rem)
    (he : GateEffect s.kernel k' rs (· ∈ s.kernel.runnable :: rs)
      (Function.update (fun p => s.kernel.ctx p 38) g
        (min (s.kernel.ctx g 38 + 1) 0x7fffffff)) (fun p => s.kernel.ctx p 4)) :
    WatchInv idle (s.after (.wake g) k') ∧ CallSeen s (s.after (.wake g) k') (.wake g) := by
  refine ⟨⟨rs, qs, rem, h', (he.ring idle).2 hidle, ?_⟩, ?_⟩
  · intro p hp
    have hm : p ∈ s.kernel.contexts := he.frame.contexts ▸ hp
    show AccountOk k' _ _ p ((s.account p).after s.kernel k' p (.wake g))
    by_cases hpg : p = g
    · subst hpg
      refine account_wake (ha p hm) hg hw (h.gate_le hg hw) ?_
      rw [he.gates, Function.update_self]
    · exact accounts_still (c := .wake g) h (ha p hm) h' he id (Function.update_of_ne hpg _ _)
        (by simp) (by simpa using Ne.symm hpg) (by simp) Iff.rfl fun _ => rfl
  · refine seen_still h ha h' he (fun _ => id) ?_ (by simp)
    intro p _ hc
    cases hc
    exact hw

/-- One step. -/
theorem watch_step {c : Call} {s' : Watch} (hi : WatchInv idle s)
    (hs : (namedSystem idle).step s c s') : WatchInv idle s' ∧ CallSeen s s' c := by
  rcases hs with ⟨hnames, hs⟩
  cases hs with
  | yield hs => exact yield_seen hi hs
  | @gate r _ _ hr hidle hs =>
    have htarget : ∀ g, gateCall s.kernel r = .wake g → g ∈ s.kernel.contexts := by
      intro g hg
      rw [hg] at hnames
      exact hnames
    obtain ⟨rs, qs, rem, h, hmem, ha⟩ := hi
    have hrs : idle ∈ rs := (List.mem_cons.1 hmem).resolve_left (Ne.symm hidle)
    rcases gate_step_cases h hr (List.ne_nil_of_mem hrs) htarget hs with
      ⟨qs', es, hc, h', he, hes, hqs⟩ | ⟨n, hc, h', he, hres⟩ |
      ⟨n, x, l, qs', rfl, hc, hzero, h', he, hres, hqs⟩ | ⟨g, qs', hc, hg, hw, h', he, hqs⟩ |
      ⟨g, hc, hg, hw, h', he⟩
    · rw [hc]
      exact tick_seen h hmem ha h' he hes hqs
    · rw [hc]
      exact counted_seen h hmem ha h' he hres
    · rw [hc]
      exact blocked_seen h hrs ha hzero h' he hres hqs
    · rw [hc]
      exact woken_seen h hmem ha hg hw h' he hqs
    · rw [hc]
      exact count_seen h hmem ha hg hw h' he

theorem watch_init (h : (waitSystem idle).init s) : WatchInv idle s := by
  obtain ⟨hk, hacc⟩ := h
  obtain ⟨rs, hring, hnd, hmem, hidle⟩ := hk.ring
  have hzero : ∀ p ∈ s.kernel.contexts, s.kernel.ctx p 38 ≠ threadWaiting := by
    intro p hp
    rw [hk.gates p hp]
    decide
  refine ⟨rs, [], fun _ => 0, ⟨hk.placed, hk.owners, hring, hnd, hmem, ?_, ?_, by simp, by simp,
    ?_, by simp, by simp, by simp, ?_⟩, hidle, ?_⟩
  · exact fun p hp => hzero p (hmem p hp)
  · exact ⟨_, rfl, hk.queue.symm⟩
  · exact fun p hp hw => absurd hw (hzero p hp)
  · intro p hp
    right
    rw [hk.gates p hp]
    decide
  · intro p hp
    rw [hacc]
    refine ⟨?_, ?_, rfl, by simp [Account.start], by simp [Account.start]⟩
    · simp [Account.start, hzero p hp]
    · rw [hk.gates p hp, ite_self]
      rfl

/-- The invariant of every run. -/
theorem watch_inv (h : (namedSystem idle).Reachable s) : WatchInv idle s :=
  h.invariant (fun _ hi => watch_init hi) fun _ _ _ hi hs => (watch_step hi hs).1

/-- A thread that stays blocked keeps its account, but for the ticks. -/
theorem waiting_kept {c : Call} {s' : Watch} {p n : ℕ} (hi : WatchInv idle s)
    (hs : WaitStep idle s c s') (hp : p ∈ s.kernel.contexts)
    (hn : (s.account p).waiting = some n) (hr : ¬ Runnable s'.kernel p) (hc : c ≠ .wake p) :
    (s'.account p).waiting = some n ∧
      (s'.account p).ticks = (s.account p).ticks + if c = .tick then 1 else 0 := by
  obtain ⟨rs, qs, rem, h, -, ha⟩ := hi
  have hsome : (s.account p).waiting.isSome := by rw [hn]; rfl
  have hne : p ≠ s.kernel.runnable := fun heq => (ha p hp).notMem h hsome (by simp [heq])
  obtain ⟨k', rfl⟩ : ∃ k', s' = s.after c k' := by
    cases hs with
    | yield _ => exact ⟨_, rfl⟩
    | gate _ _ _ => exact ⟨_, rfl⟩
  have hend : (s.account p).ended k' p = s.account p := ended_self fun _ => hr
  have hafter : (s.after c k').account p = (s.account p).after s.kernel k' p c := rfl
  rw [hafter]
  cases c with
  | wait m => simp [Account.after, hne, hend, hn]
  | wake g =>
    have hpg : p ≠ g := fun heq => hc (heq ▸ rfl)
    simp [Account.after, hpg, hend, hn]
  | tick => simp [Account.after, hend, hn]
  | yield => simp [Account.after, hend, hn]

/-- A thread that nobody wakes waits until its time is over. -/
theorem waiting_trace {cs : List Call} {s' : Watch} {p n : ℕ} (h : (namedSystem idle).Reachable s)
    (hp : p ∈ s.kernel.contexts) (hn : (s.account p).waiting = some n)
    (ht : (namedSystem idle).Trace s cs s') (hc : .wake p ∉ cs)
    (hlt : (s.account p).ticks + cs.count .tick < n ∨ n = 0) :
    p ∈ s'.kernel.contexts ∧ (s'.account p).waiting = some n ∧
      (s'.account p).ticks = (s.account p).ticks + cs.count .tick := by
  induction ht with
  | nil => exact ⟨hp, hn, by simp⟩
  | concat ht hs ih =>
    rename_i l s₁ s₂ c
    rw [List.mem_append, not_or, List.mem_singleton] at hc
    rw [List.count_append] at hlt
    obtain ⟨hp₁, hn₁, hticks⟩ := ih hc.1 (by omega)
    have hi := watch_inv (h.trace ht)
    have hseen := (watch_step hi hs).2
    have hcount : [c].count .tick = if c = .tick then 1 else 0 := by
      rw [List.count_singleton]
      simp only [beq_iff_eq]
    have hr : ¬ Runnable s₂.kernel p := by
      rw [(hseen.ends p hp₁ n hn₁).1]
      rintro (hw | ⟨ht, hlast⟩)
      · exact hc.2 hw.symm
      · rw [hcount, if_pos ht] at hlt
        omega
    obtain ⟨hn₂, ht₂⟩ := waiting_kept hi hs.2 hp₁ hn₁ hr (Ne.symm hc.2)
    refine ⟨hseen.contexts ▸ hp₁, hn₂, ?_⟩
    rw [ht₂, hticks, List.count_append, hcount, Nat.add_assoc]

end Run

/-! ## Runs of three threads -/

/-- Three contexts at the top of the heap: the idle thread, a thread of the same
map, and the interrupt thread. -/
def threeContexts : List ℕ :=
  [startAddress + heapTop - 1536, startAddress + heapTop - 1024, startAddress + heapTop - 512]

def idleThread : ℕ := startAddress + heapTop - 512
def sleeper : ℕ := startAddress + heapTop - 1024
def timerThread : ℕ := startAddress + heapTop - 1536

/-- The three threads in a ring, all in the system map; the sleeper runs. -/
def threeThreads : Kernel :=
  { Kernel.boot with
    contexts := threeContexts
    heapBottom := heapTop - 1536
    runnable := sleeper
    interruptThread := timerThread
    loadedMap := systemMapIndex
    ctx := fun p w =>
      if w = 0 then
        if p = idleThread then sleeper else if p = sleeper then timerThread else idleThread
      else if w = 1 then
        if p = idleThread then timerThread else if p = sleeper then idleThread else sleeper
      else if w = 39 then systemMapIndex * 2 ^ 32
      else 0 }

theorem threeThreads_start : GateStart idleThread threeThreads := by
  refine ⟨⟨?_, ?_, ?_, ?_, ?_⟩, ?_, ⟨[timerThread, idleThread], ?_, ?_, ?_, ?_⟩, ?_, rfl⟩
  · decide
  · decide
  · decide
  · decide
  · decide
  · intro p _
    exact .inl rfl
  · simp only [Lib.Ring, List.cons_append, List.nil_append, List.isChain_cons_cons,
      List.isChain_singleton, Linked]
    decide
  · decide
  · decide
  · decide
  · intro p _
    rfl

/-- It does not matter which of them is the interrupt thread. -/
theorem GateStart.interruptThread {idle : ℕ} {k : Kernel} (h : GateStart idle k) (i : ℕ) :
    GateStart idle { k with interruptThread := i } :=
  ⟨h.placed.congr rfl rfl, h.owners, h.ring, h.gates, h.queue⟩

/-- The registers of a call of the gate. -/
def gateRegs (x₀ x₁ : ℕ) : Regs where
  x i := if i = 0 then x₀ else if i = 1 then x₁ else 0
  pc := 0
  spsr := 0

theorem gateRegs_lt {x₀ x₁ : ℕ} (h₀ : x₀ < 2 ^ 64) (h₁ : x₁ < 2 ^ 64) (i : ℕ) :
    (gateRegs x₀ x₁).x i < 2 ^ 64 := by
  show (if i = 0 then x₀ else if i = 1 then x₁ else 0) < 2 ^ 64
  split
  · exact h₀
  · split
    · exact h₁
    · decide

/-- The running thread calls the gate. -/
def Watch.gate (s : Watch) (c : Call) (r : Regs) : Watch :=
  s.after c (kernelStep s.kernel r (.svc 0xf001)).kernel

theorem gate_step {s : Watch} {r : Regs} {c : Call} (hr : ∀ i, r.x i < 2 ^ 64)
    (hidle : s.kernel.runnable ≠ idleThread) (hc : gateCall s.kernel r = c)
    (hok : (kernelStep s.kernel r (.svc 0xf001)).isOk = true) :
    WaitStep idleThread s c (s.gate c r) := by
  have hs := WaitStep.gate hr hidle (Outcome.eq_ok_now hok)
  rw [hc] at hs
  exact hs

/-- It yields. -/
def Watch.yield (s : Watch) (r : Regs) : Watch :=
  s.after .yield (kernelStep s.kernel r (.svc 0xf008)).kernel

theorem yield_step {s : Watch} {r : Regs}
    (hok : (kernelStep s.kernel r (.svc 0xf008)).isOk = true) :
    WaitStep idleThread s .yield (s.yield r) := .yield (Outcome.eq_ok_now hok)

/-- Before the first call. -/
def watch₀ : Watch := ⟨threeThreads, fun _ => .start⟩

/-- The sleeper waits for one tick. -/
def watch₁ : Watch := watch₀.gate (.wait 1) (gateRegs 0 1)

/-- The timer ticks. -/
def watch₂ : Watch := watch₁.gate .tick (gateRegs 0 0)

/-- What the run does. -/
structure SleeperRun : Prop where
  waits : (kernelStep watch₀.kernel (gateRegs 0 1) (.svc 0xf001)).isOk = true
  timer : watch₁.kernel.runnable = timerThread ∧ watch₁.kernel.interruptThread = timerThread
  ticks : (kernelStep watch₁.kernel (gateRegs 0 0) (.svc 0xf001)).isOk = true
  asleep : sleeper ∈ watch₁.kernel.contexts ∧ watch₁.kernel.gate sleeper = threadWaiting ∧
    (watch₁.account sleeper).waiting = some 1
  account : (watch₁.account sleeper).ticks = 0 ∧ (watch₁.account sleeper).woken = 0 ∧
    (watch₁.account sleeper).timedOut = 0

theorem sleeperRun : SleeperRun where
  waits := by decide +kernel
  timer := by decide +kernel
  ticks := by decide +kernel
  asleep := by decide +kernel
  account := by decide +kernel

theorem watch₁_reachable : (namedSystem idleThread).Reachable watch₁ := by
  refine .step (s := watch₀) (i := .wait 1) (.init ⟨threeThreads_start, rfl⟩) ⟨trivial, ?_⟩
  exact gate_step (gateRegs_lt (by decide) (by decide)) (by decide) rfl sleeperRun.waits

theorem watch₁_tick : (namedSystem idleThread).step watch₁ .tick watch₂ := by
  rcases sleeperRun.timer with ⟨hrun, hint⟩
  refine ⟨trivial, gate_step (gateRegs_lt (by decide) (by decide)) ?_ ?_ sleeperRun.ticks⟩
  · rw [hrun]
    decide
  · rw [gateCall, hrun, hint]
    rfl

/-! ### A wake of no thread -/

/-- A thread of the same map, whose context is below that of the sleeper. -/
def forger : ℕ := timerThread

/-- The address of word `j` of its context, where no thread is. -/
def forged (j : ℕ) : ℕ := forger + 8 * j

/-- The registers for a wake of `forged j`. Word `j` and the next one are saved registers, and
serve as its links: they lead to words that lead back. -/
def forgedRegs (j : ℕ) : Regs where
  x i :=
    if i = 0 then threadCode (forged j)
    else if i + 4 = j then forged (j + 1)
    else if i + 4 = j + 1 then forged (j + 2)
    else if i + 4 = j + 2 then forged j
    else 0
  pc := 0
  spsr := 0

theorem forgedRegs_lt {j : ℕ} (hj : j < 64) (i : ℕ) : (forgedRegs j).x i < 2 ^ 64 := by
  have hcode : threadCode (forged j) < 2 ^ 64 := by
    unfold threadCode
    split
    · decide
    · omega
  have hforged : ∀ n < 66, forged n < 2 ^ 64 := by decide
  show (if i = 0 then _ else if i + 4 = j then _ else if i + 4 = j + 1 then _ else
    if i + 4 = j + 2 then _ else 0) < 2 ^ 64
  split
  · exact hcode
  split
  · exact hforged _ (by omega)
  split
  · exact hforged _ (by omega)
  split
  · exact hforged _ (by omega)
  · decide

/-- Before there is an interrupt thread. -/
def untimed : Watch := ⟨{ threeThreads with interruptThread := 0 }, fun _ => .start⟩

/-- The sleeper waits for one tick. -/
def slept : Watch := untimed.gate (.wait 1) (gateRegs 0 1)

/-- The forger yields, so that all its registers are saved, and the idle thread does. -/
def saved (j : ℕ) : Watch := (slept.yield (forgedRegs j)).yield (gateRegs 0 0)

/-- What the kernel takes for the gate of `forged j` is word `j - 26` of the sleeper. -/
def forgedWake (j : ℕ) : Watch := (saved j).gate (.wake (forged j)) (forgedRegs j)

/-- Then it wakes the sleeper. -/
def forgedAnswer (j : ℕ) : Watch :=
  (forgedWake j).gate (.wake sleeper) (gateRegs (threadCode sleeper) 0)

/-- What the run does with the link in saved `x26` or `x27`. -/
structure ForgedRun (j : ℕ) : Prop where
  waits : (kernelStep untimed.kernel (gateRegs 0 1) (.svc 0xf001)).isOk = true
  saves : (kernelStep slept.kernel (forgedRegs j) (.svc 0xf008)).isOk = true
  yields : (kernelStep (slept.yield (forgedRegs j)).kernel (gateRegs 0 0) (.svc 0xf008)).isOk = true
  runs : (saved j).kernel.runnable = forger ∧ (forgedWake j).kernel.runnable = forger
  call : gateCall (saved j).kernel (forgedRegs j) = .wake (forged j)
  wakes : (kernelStep (saved j).kernel (forgedRegs j) (.svc 0xf001)).isOk = true
  asleep : sleeper ∈ (forgedWake j).kernel.contexts ∧
    (forgedWake j).kernel.gate sleeper = threadWaiting ∧
    ((forgedWake j).account sleeper).waiting = some 1
  answers : (kernelStep (forgedWake j).kernel (gateRegs (threadCode sleeper) 0)
    (.svc 0xf001)).isOk = true

theorem forgedRun : ForgedRun 30 ∧ ForgedRun 31 := by
  constructor
  all_goals constructor
  all_goals decide +kernel

section Forged

variable {j : ℕ}

theorem forgedWake_reachable (h : ForgedRun j) (hj : j < 64) :
    (waitSystem idleThread).Reachable (forgedWake j) := by
  have hslept : (waitSystem idleThread).Reachable slept := by
    refine .step (s := untimed) (i := .wait 1)
      (.init ⟨threeThreads_start.interruptThread 0, rfl⟩) ?_
    exact gate_step (gateRegs_lt (by decide) (by decide)) (by decide) rfl h.waits
  have hsaved : (waitSystem idleThread).Reachable (saved j) :=
    .step (.step hslept (yield_step h.saves)) (yield_step h.yields)
  refine .step hsaved (gate_step (forgedRegs_lt hj) ?_ h.call h.wakes)
  rw [h.runs.1]
  decide

theorem forgedAnswer_step (h : ForgedRun j) :
    WaitStep idleThread (forgedWake j) (.wake sleeper) (forgedAnswer j) := by
  refine gate_step (gateRegs_lt (by decide) (by decide)) ?_ rfl h.answers
  rw [h.runs.2]
  decide

end Forged

/-! ## The results -/

section Results

variable {idle : ℕ} {s : Watch}

/-- In every run in which each wake names a created thread, the queue is the one of
the deadlines, and every wait ends on time. -/
theorem timeout_queue (h : (namedSystem idle).Reachable s) :
    DeadlineQueue s ∧ ExpiresOnTime (namedSystem idle) s := by
  refine ⟨?_, ?_⟩
  · -- the queue is the one of the invariant
    obtain ⟨rs, qs, rem, hinv, -, ha⟩ := watch_inv h
    have hqs : ∀ p ∈ qs, p ∈ s.kernel.contexts := fun p hp => (hinv.waiting p hp).1
    have hreg : ∀ p ∈ qs, ∀ i, s.kernel.reg p i = s.kernel.ctx p (4 + i) :=
      fun p hp i => fld_of_mem (hqs p hp) _
    obtain ⟨a, hq⟩ := hinv.queue
    refine ⟨qs, a, ?_, hinv.queueNodup, ?_, ?_⟩
    · exact pseg_congr (fun p hp => hreg p hp 17) (fun p hp => hreg p hp 16) hq
    · intro p
      constructor
      · intro hp
        have hm := hqs p hp
        have hw := (hinv.waiting p hp).2
        obtain ⟨n, hn⟩ := Option.isSome_iff_exists.1 ((ha p hm).waits.1 hw)
        exact ⟨hm, (fld_of_mem hm 38).trans hw, n, hn, ((ha p hm).queued n hn).1.1 hp⟩
      · rintro ⟨hm, -, n, hn, hpos⟩
        exact ((ha p hm).queued n hn).1.2 hpos
    · rintro l₁ p l₂ n rfl hn
      have hsum : ((l₁ ++ [p]).map (s.kernel.reg · 1)).sum =
          ((l₁ ++ [p]).map fun q => s.kernel.ctx q 5).sum := by
        congr 1
        refine List.map_congr_left fun q hq => hreg q ?_ 1
        simp only [List.mem_append, List.mem_cons, List.not_mem_nil, or_false] at hq ⊢
        tauto
      have hp : p ∈ l₁ ++ p :: l₂ := by simp
      obtain ⟨hq, hrem⟩ := (ha p (hqs p hp)).queued n hn
      have hat := sums_at hinv.sums
      rw [hsum, ← hrem (hq.1 hp), hat, Nat.zero_add]
  · intro p hp n hn hpos cs s' ht hc
    constructor
    · intro hlt
      obtain ⟨hp', hn', -⟩ := waiting_trace h hp hn ht hc (.inl hlt)
      obtain ⟨rs, qs, rem, hinv, -, ha⟩ := watch_inv (h.trace ht)
      refine ⟨hn', ?_⟩
      rw [hinv.runnable_iff]
      exact (ha p hp').notMem hinv (by rw [hn']; rfl)
    · intro s'' hs hlast
      obtain ⟨hp', hn', ht'⟩ := waiting_trace h hp hn ht hc (.inl (by omega))
      have hends := (watch_step (watch_inv (h.trace ht)) hs).2.ends p hp' n hn'
      have hr : Runnable s''.kernel p := hends.1.2 (.inr ⟨rfl, by omega⟩)
      exact ⟨hr, hends.2.2 rfl hr⟩

/-- The sleeper is in the queue of its run, and the tick makes it runnable. -/
theorem timeout_queue_sleeper :
    (∃ qs a, PSeg (watch₁.kernel.reg · 17) (watch₁.kernel.reg · 16) (regAddress · 17)
        (blockedWithTimeoutAddress watch₁.kernel) watch₁.kernel.blockedWithTimeout qs a 0 ∧
      sleeper ∈ qs) ∧
    Runnable watch₂.kernel sleeper ∧ watch₂.kernel.reg sleeper 0 = 2 ^ 64 - 1 := by
  rcases sleeperRun.asleep with ⟨hmem, hgate, hwait⟩
  obtain ⟨⟨qs, a, hq, -, hqs, -⟩, hlast⟩ := timeout_queue watch₁_reachable
  refine ⟨⟨qs, a, hq, (hqs sleeper).2 ⟨hmem, hgate, 1, hwait, Nat.one_pos⟩⟩, ?_⟩
  refine (hlast sleeper hmem 1 hwait Nat.one_pos [] watch₁ .nil (by simp)).2 watch₂ watch₁_tick ?_
  rw [sleeperRun.account.1]
  rfl

/-- The wake of `forged 31` adds a tick to the delta of the sleeper, which waits for one. -/
theorem forged_wake_delays : ¬ ∀ idle s, (waitSystem idle).Reachable s →
    DeadlineQueue s ∧ ExpiresOnTime (waitSystem idle) s := by
  intro h
  obtain ⟨⟨qs, a, -, -, hqs, hsum⟩, -⟩ := h _ _ (forgedWake_reachable forgedRun.2 (by decide))
  rcases forgedRun.2.asleep with ⟨hmem, hgate, hwait⟩
  have htwo : (forgedWake 31).kernel.reg sleeper 1 = 2 := by decide +kernel
  obtain ⟨l₁, l₂, rfl⟩ := List.append_of_mem
    ((hqs sleeper).2 ⟨hmem, hgate, 1, hwait, Nat.one_pos⟩)
  have hone := hsum l₁ sleeper l₂ 1 rfl hwait
  rw [List.map_append, List.sum_append, List.map_singleton, List.sum_singleton, htwo] at hone
  omega

/-- In every run in which each wake names a created thread, no wake is lost, and
none is counted twice. -/
theorem wakes_conserved (h : (namedSystem idle).Reachable s) :
    (∀ p ∈ s.kernel.contexts, WakesCounted s p) ∧
    ∀ c s', (namedSystem idle).step s c s' → CallSeen s s' c := by
  have hi := watch_inv h
  refine ⟨?_, fun c s' hs => (watch_step hi hs).2⟩
  obtain ⟨rs, qs, rem, hinv, -, ha⟩ := hi
  intro p hp
  have hgate : s.kernel.gate p = s.kernel.ctx p 38 := fld_of_mem hp 38
  have hacc := ha p hp
  refine ⟨?_, hacc.returned, ?_, ?_⟩
  · have hpos : (if 0 < s.kernel.gate p ∧ s.kernel.gate p < 2 ^ 63 then s.kernel.gate p else 0) =
        if s.kernel.ctx p 38 = threadWaiting then 0 else s.kernel.ctx p 38 := by
      rw [hgate]
      by_cases hw : s.kernel.ctx p 38 = threadWaiting
      · rw [if_pos hw, hw, if_neg (by decide)]
      · have hle := hinv.gate_le hp hw
        rw [if_neg hw]
        split
        · rfl
        · omega
    rw [hpos]
    exact hacc.conserved
  · rw [hgate]
    exact hacc.waits
  · intro hsome
    rw [hinv.runnable_iff]
    exact hacc.notMem hinv hsome

/-- The sleeper has blocked once, and no wake was directed at it. -/
theorem wakes_conserved_sleeper :
    sleeper ∈ watch₁.kernel.contexts ∧ (watch₁.account sleeper).blocked = 1 ∧
      watch₁.kernel.gate sleeper = threadWaiting ∧ ¬ Runnable watch₁.kernel sleeper := by
  rcases sleeperRun.asleep with ⟨hmem, -, hwait⟩
  obtain ⟨-, hblocked, hgate, hruns⟩ := (wakes_conserved watch₁_reachable).1 sleeper hmem
  have hsome : (watch₁.account sleeper).waiting.isSome := by rw [hwait]; rfl
  refine ⟨hmem, ?_, hgate.2 hsome, hruns hsome⟩
  rw [hblocked, if_pos hsome, sleeperRun.account.2.1, sleeperRun.account.2.2]

/-- The sleeper blocks, the forger wakes `forged 30`, which adds one to the saved `x0` of the
sleeper, and then the sleeper: its wait was ended by a wake, and returns 1. -/
theorem forged_wake_returns : ¬ ∀ idle s, (waitSystem idle).Reachable s →
    (∀ p ∈ s.kernel.contexts, WakesCounted s p) ∧
      ∀ c s', (waitSystem idle).step s c s' → CallSeen s s' c := by
  intro h
  have hreach := forgedWake_reachable forgedRun.1 (by decide)
  rcases forgedRun.1.asleep with ⟨hmem, -, hwait⟩
  have hzero := (((h _ _ hreach).2 _ _ (forgedAnswer_step forgedRun.1)).ends sleeper hmem 1
    hwait).2.1 rfl
  have hone : (forgedAnswer 30).kernel.reg sleeper 0 = 1 := by decide +kernel
  rw [hone] at hzero
  cases hzero

end Results

end Isambard.El1
