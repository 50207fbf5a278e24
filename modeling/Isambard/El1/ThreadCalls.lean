import Isambard.El1.Boot
import Isambard.El1.LockCalls
import Isambard.El1.VmRegisters

/-!
# El1.ThreadCalls — the calls that move threads

A thread yields, or a new one is made, an interrupt arrives, or the interrupt thread has done
its work, and a thread changes places with its partner. Each of them ends with another thread
at the head of the runnable ones.

* `SchedInv.putHead`: a thread that was idle runs;
* `handleYield_sched`, `handleSwitchToPartner_sched`, `setInterruptThread_sched`: the calls;
* `SchedInv.created`: a new context;
* `createThread_sched`, `makePartner_sched`: what is made of it.
-/

namespace Isambard.El1

open Isambard.Lib

section Turns

variable {k k' : Kernel} {rs qs : List ℕ} {rem : ℕ → ℕ} {p x v now : ℕ} {O : ℕ → Prop}

/-- Registers and the saved state of a thread that does not wait. -/
theorem KeepsLists.row {w : ℕ} (hw : 4 ≤ w ∧ w ≤ 37 ∨ w = 39 ∨ 43 ≤ w)
    (hne : p ∉ k.contexts ∨ k.ctx p 38 ≠ threadWaiting ∧ ¬ OnLock k p) :
    KeepsLists k (k.withCtx (setCtx k.ctx p w v)) := by
  have hword : ∀ q u, u ≠ w → setCtx k.ctx p w v q u = k.ctx q u := by
    intro q u hu
    rw [setCtx_apply, if_neg fun heq => hu heq.2]
  refine ⟨rfl, rfl, rfl, rfl, rfl, rfl, fun q u hu => hword q u (by omega),
    fun q => .inl (hword q 38 (by omega)), ?_, ?_⟩
  · intro q hq hheld
    have hqp : q ≠ p := by
      rintro rfl
      rcases hne with hnot | ⟨hgate, hlock⟩
      · exact hnot hq
      · exact hheld.elim hgate hlock
    have hrow : ∀ u, setCtx k.ctx p w v q u = k.ctx q u := by
      intro u
      rw [setCtx_apply, if_neg fun heq => hqp heq.1]
    refine ⟨hrow 5, hrow 20, ?_⟩
    unfold lockOf
    rw [withCtx_ctx, hrow, hrow]
  · rintro q _ ⟨hpointer, hlimit⟩
    refine ⟨?_, ?_⟩
    · rw [withCtx_ctx, hword q 41 (by omega)]
      exact hpointer
    · rw [withCtx_ctx, hword q 42 (by omega)]
      exact hlimit

/-- The running thread waits neither at its gate nor for a lock. -/
theorem SchedInv.runs (h : SchedInv O k rs qs rem) :
    k.ctx k.runnable 38 ≠ threadWaiting ∧ ¬ OnLock k k.runnable :=
  ⟨h.gate.awake _ List.mem_cons_self, h.links.free _ List.mem_cons_self⟩

/-- A register of the running thread is set. -/
theorem SchedInv.setReg (h : SchedInv O k rs qs rem) {i : ℕ} (hi : i ≤ 18) (v : ℕ) :
    KeepsLists k (k.setReg k.runnable i v) ∧ SameDomains k (k.setReg k.runnable i v) := by
  rw [Kernel.setReg, setFld_of_mem h.mem]
  refine ⟨.row (by omega) (.inr h.runs), rfl, ?_, rfl, rfl, rfl⟩
  intro q w hw
  rw [withCtx_ctx, setCtx_apply, if_neg (by omega)]

/-- Another thread has its turn. -/
theorem SchedInv.rotate (h : SchedInv O k (x :: rs) qs rem) (hi : k.runnable ≠ k.interruptThread) :
    SchedInv O { k with runnable := x } (rs ++ [k.runnable]) qs rem := by
  have hmem : ∀ p, p ∈ x :: (rs ++ [k.runnable]) ↔ p ∈ k.runnable :: x :: rs := by
    intro p
    simp only [List.mem_cons, List.mem_append, List.not_mem_nil, or_false]
    tauto
  have hrun : Running { k with runnable := x } (rs ++ [k.runnable]) := h.gate.rotate.running
  have hlinks : Links { k with runnable := x } (rs ++ [k.runnable]) 0 := by
    refine h.links.join (J := fun _ => False) h.gate.placed hrun rfl (.inl rfl) ?_ ?_ ?_ ?_ ?_ ?_
    · exact fun p hp => hp.elim
    · intro p
      rw [hmem, false_or]
    · exact fun p hp => h.links.free p ((hmem p).1 hp)
    · exact fun p _ _ _ w _ => rfl
    · exact fun p _ _ _ => Iff.rfl
    · exact fun p _ _ => rfl
  refine h.relink_idle ⟨Frame.sched k k.ctx x k.blockedWithTimeout k.blocked k.user, rfl,
    fun _ _ _ => rfl, fun p hp => h.ownerOk hp⟩ hlinks hi ?_ ?_ ?_ ?_
  · exact fun p hp => h.gate.awake p ((hmem p).1 hp)
  · exact fun p hp hw => h.waiting p hp hw
  · exact fun p hid => ⟨fun hp => hid.out ((hmem p).1 hp), hid.lock⟩
  · exact fun p hid => ⟨fun hp => hid.out ((hmem p).2 hp), hid.lock⟩

theorem handleYield_sched (h : SchedInv O k rs qs rem) (hi : k.runnable ≠ k.interruptThread)
    (hok : handleYield k k.runnable = .ok k' now) : Scheduled O k k' now := by
  have hnext : k.next k.runnable = k.ctx k.runnable 0 := fld_of_mem h.mem 0
  unfold handleYield at hok
  split at hok
  · rename_i hne
    cases rs with
    | nil => exact absurd (hnext.trans (ring_nil.1 h.gate.ring).1) hne
    | cons x rs =>
      obtain ⟨hkeep, hsame⟩ := h.setReg (i := 0) (by decide) 1
      have hrot := (h.congr hkeep).rotate (by
        rw [hkeep.runnable, hkeep.interruptThread]
        exact hi)
      have hx : (k.setReg k.runnable 0 1).next k.runnable = x := by
        have hmem : k.runnable ∈ (k.setReg k.runnable 0 1).contexts := by
          rw [hkeep.contexts]
          exact h.mem
        rw [Kernel.next, fld_of_mem hmem, hkeep.links _ 0 (by decide)]
        exact (List.isChain_cons_cons.1 h.gate.ring).1.1
      simp only [hx] at hok
      cases hok
      exact ⟨⟨_, _, _, hrot⟩, rfl, ⟨hsame.contexts, hsame.rows, hsame.interfaces,
        hsame.freeInterface, hsame.loadedMap⟩⟩
  · cases hok
    obtain ⟨hkeep, hsame⟩ := h.setReg (i := 0) (by decide) 0
    exact h.scheduled hkeep hsame

/-- An idle thread becomes the head of the runnable ones: the interrupt thread, or one that has
no partner. -/
theorem SchedInv.putHead (h : SchedInv (fun q => O q ∨ q = p) k rs qs rem)
    (hp : p ∈ k.contexts) (hid : Idle k rs p)
    (hcase : p = k.interruptThread ∨ k.ctx p 3 = 0 ∧ k.runnable ≠ k.interruptThread) :
    SchedInv O { k with ctx := linkBefore k.ctx p k.runnable, runnable := p }
      (k.runnable :: rs) qs rem := by
  have hne : p ≠ k.runnable := hid.ne_runnable
  set k₁ : Kernel := { k with ctx := linkBefore k.ctx p k.runnable, runnable := p } with hk₁
  have htake := h.links.take h.gate.placed hid.out hid.lock
  have hput : Links k₁ (k.runnable :: rs) 0 := htake.put h.gate.placed hp k.blocked k.user
  have hlist : ∀ q, k₁.ctx q 2 = if q = p then k.ctx k.runnable 2 else k.ctx q 2 :=
    fun q => linkBefore_list hne q
  have hon : ∀ q, OnLock k₁ q ↔ OnLock k q := by
    intro q
    unfold OnLock
    rw [hlist]
    split
    · rename_i hq
      rw [hq]
      exact ⟨fun hlk => absurd hlk h.runs.2, fun hlk => absurd hlk hid.lock⟩
    · exact Iff.rfl
  have hidle : ∀ q, q ≠ p → Idle k rs q → Idle k₁ (k.runnable :: rs) q := by
    intro q hq hid'
    refine ⟨?_, fun hlk => hid'.lock ((hon q).1 hlk), ?_⟩
    · exact fun hmem => hid'.out ((List.mem_cons.1 hmem).resolve_left hq)
    · show linkBefore k.ctx p k.runnable q 38 ≠ threadWaiting
      rw [linkBefore_other (by decide)]
      exact hid'.gate
  refine h.relink (j := p) ⟨Frame.sched k _ p k.blockedWithTimeout k.blocked k.user, rfl,
    fun q w hw => linkBefore_other hw, ?_⟩ hput ?_ ?_ ?_ ?_ ?_ ?_
  · intro q hq
    rw [hlist]
    split
    · exact h.ownerOk h.mem
    · exact h.ownerOk hq
  · intro q hq
    rcases List.mem_cons.1 hq with rfl | hq
    · exact hid.gate
    · exact h.gate.awake q hq
  · exact fun q hq hw hlk => h.waiting q hq hw ((hon q).1 hlk)
  · intro q _ hid'
    by_cases hq : q = p
    · exact .inl hq
    · exact .inr ⟨(hidle q hq hid').out, (hidle q hq hid').lock⟩
  · intro _ hne3
    rcases hcase with heq | ⟨hz, -⟩
    · have hi0 : k.interruptThread ≠ 0 := by
        rw [← heq]
        exact h.gate.placed.ne_zero hp
      rw [heq] at hne3 ⊢
      have hq := (h.pairs _ (h.interrupt hi0).mem hne3).ne
      refine hidle _ ?_ ((h.interrupt hi0).partner hne3)
      rw [heq]
      exact hq
    · exact absurd hz hne3
  · intro hi0
    obtain ⟨him, hruns, hpart⟩ := h.interrupt hi0
    rcases hcase with heq | ⟨hz, hi⟩
    · refine ⟨.inl heq, fun hne3 => hidle _ ?_ (hpart hne3)⟩
      rw [heq]
      exact (h.pairs _ him hne3).ne
    · -- the thread is not the interrupt thread's partner, as it has none itself
      have hpart' : k.ctx k.interruptThread 3 ≠ 0 → k.ctx k.interruptThread 3 ≠ p := by
        intro hne3 heq
        have hback := (h.pairs _ him hne3).back
        rw [heq, hz] at hback
        exact hi0 hback.symm
      refine ⟨?_, fun hne3 => hidle _ (hpart' hne3) (hpart hne3)⟩
      by_cases heq : p = k.interruptThread
      · exact .inl heq
      · exact .inr (hidle _ (Ne.symm heq) (hruns.resolve_left hi))
  · intro q hq hid'
    have hqp : q ≠ p := hid'.ne_runnable
    have hid₁ : Idle k rs q := by
      refine ⟨fun hmem => hid'.out (List.mem_cons_of_mem _ hmem),
        fun hlk => hid'.lock ((hon q).2 hlk), ?_⟩
      have hgate : linkBefore k.ctx p k.runnable q 38 ≠ threadWaiting := hid'.gate
      rwa [linkBefore_other (by decide)] at hgate
    exact (h.idle q hq hid₁).imp_left fun ho => ho.resolve_right hqp

/-- `insert_thread_as_head`, for such a thread. -/
theorem SchedInv.insertHead (h : SchedInv (fun q => O q ∨ q = p) k rs qs rem)
    (hp : p ∈ k.contexts) (hid : Idle k rs p)
    (hcase : p = k.interruptThread ∨ k.ctx p 3 = 0 ∧ k.runnable ≠ k.interruptThread) :
    Scheduled O k (insertThreadAsHead k (runnableAddress k) p) p := by
  have hprev : k.ctx k.runnable 1 ∈ k.contexts :=
    h.gate.ringMem _ (ring_closed h.gate.ring _ List.mem_cons_self).2
  rw [insertThreadAsHead_runnable h.gate.placed hp h.mem hprev hid.ne_runnable]
  refine ⟨⟨_, _, _, h.putHead hp hid hcase⟩, rfl, rfl, ?_, rfl, rfl, rfl⟩
  exact fun q w hw => linkBefore_other (by omega)

end Turns

/-! ## A thread and its partner -/

section Partner

variable {k k' : Kernel} {rs qs : List ℕ} {rem : ℕ → ℕ} {c : ℕ → ℕ → ℕ} {t q x now : ℕ}
  {O : ℕ → Prop}

/-- The words of the contexts when `q` has taken the place of `t`. -/
def swapped (c : ℕ → ℕ → ℕ) (t q : ℕ) : ℕ → ℕ → ℕ :=
  let c := setCtx c q 0 (c t 0)
  let c := setCtx c q 1 (c t 1)
  let c := setCtx c (c t 0) 1 q
  let c := setCtx c (c t 1) 0 q
  let c := setCtx c t 0 t
  setCtx c t 1 t

theorem swapPartner_eq (ht : t ∈ k.contexts) (hq : k.ctx t 3 ∈ k.contexts)
    (hn : k.ctx t 0 ∈ k.contexts) (hv : k.ctx t 1 ∈ k.contexts) (hne : k.ctx t 3 ≠ t)
    (hnt : k.ctx t 0 ≠ t) : swapPartner k t = k.withCtx (swapped k.ctx t (k.ctx t 3)) := by
  have hn' : (setCtx (setCtx k.ctx (k.ctx t 3) 0 (k.ctx t 0)) (k.ctx t 3) 1
      (setCtx k.ctx (k.ctx t 3) 0 (k.ctx t 0) t 1)) t 0 = k.ctx t 0 := by
    simp [hne.symm]
  have hv' : (setCtx (setCtx (setCtx k.ctx (k.ctx t 3) 0 (k.ctx t 0)) (k.ctx t 3) 1
      (setCtx k.ctx (k.ctx t 3) 0 (k.ctx t 0) t 1)) (k.ctx t 0) 1 (k.ctx t 3)) t 1 =
      k.ctx t 1 := by
    simp [hne.symm, hnt.symm]
  unfold swapPartner swapped Kernel.setNext Kernel.setPrev Kernel.next Kernel.prev Kernel.partner
  simp only [setFld_of_mem, fld_of_mem, ht, hq, withCtx_contexts, withCtx_ctx, withCtx_withCtx,
    setCtx_apply, hne.symm, false_and, and_false, if_false, reduceCtorEq, OfNat.ofNat_ne_zero,
    OfNat.ofNat_ne_one, hn, hv, hnt.symm]

/-- That is a removal and an insertion, but for the owner. -/
theorem swapped_apply (hqt : q ≠ t) (hn : c t 0 ≠ t) (hv : c t 1 ≠ t) (hqn : c t 0 ≠ q)
    (hqv : c t 1 ≠ q) (p w : ℕ) : swapped c t q p w =
      if p = q ∧ w = 2 then c q 2 else linkBefore (unlink c t) q (c t 0) p w := by
  unfold swapped linkBefore unlink
  simp only [setCtx_apply]
  grind

/-- The partner of the running thread is idle. -/
theorem SchedInv.partner_idle (h : SchedInv O k rs qs rem) (h3 : k.ctx k.runnable 3 ≠ 0) :
    Idle k rs (k.ctx k.runnable 3) :=
  (h.pairs _ h.mem h3).idle.resolve_left fun hid => hid.ne_runnable rfl

/-- The partner takes the place of the running thread, which is left alone. -/
theorem SchedInv.swap (h : SchedInv O k (x :: rs) qs rem) (hi : k.runnable ≠ k.interruptThread)
    (hq : k.ctx k.runnable 3 = q) (hq0 : q ≠ 0) :
    swapPartner k k.runnable = k.withCtx (swapped k.ctx k.runnable q) ∧
      SchedInv O { k with ctx := swapped k.ctx k.runnable q, runnable := q } (x :: rs) qs rem := by
  have hpl := h.gate.placed
  have h3 : k.ctx k.runnable 3 ≠ 0 := hq ▸ hq0
  obtain ⟨hqm, hback, hqt, -⟩ := h.pairs _ h.mem h3
  have hqid := h.partner_idle h3
  rw [hq] at hqm hback hqt hqid
  have hclosed := ring_closed h.gate.ring _ List.mem_cons_self
  have hback' := ring_back h.gate.ring _ List.mem_cons_self
  have hx : k.ctx k.runnable 0 = x := (List.isChain_cons_cons.1 h.gate.ring).1.1
  have hxt : x ≠ k.runnable := fun heq =>
    (List.nodup_cons.1 h.gate.ringNodup).1 (heq ▸ List.mem_cons_self)
  have hn : k.ctx k.runnable 0 ≠ k.runnable := by
    rw [hx]
    exact hxt
  have hv : k.ctx k.runnable 1 ≠ k.runnable := by
    intro heq
    have hnext : k.ctx (k.ctx k.runnable 1) 0 = k.runnable := hback'.2
    rw [heq] at hnext
    exact hn hnext
  have hqn : k.ctx k.runnable 0 ≠ q := fun heq => hqid.out (heq ▸ hclosed.1)
  have hqv : k.ctx k.runnable 1 ≠ q := fun heq => hqid.out (heq ▸ hclosed.2)
  have hswap := swapped_apply hqt hn hv hqn hqv
  rw [hx] at hswap
  refine ⟨?_, ?_⟩
  · have heq := swapPartner_eq h.mem (by rw [hq]; exact hqm) (h.gate.ringMem _ hclosed.1)
      (h.gate.ringMem _ hclosed.2) (by rw [hq]; exact hqt) hn
    rw [hq] at heq
    exact heq
  set k₁ : Kernel := { k with ctx := swapped k.ctx k.runnable q, runnable := q } with hk₁
  have hwords : ∀ p w, 2 ≤ w → k₁.ctx p w = k.ctx p w := by
    intro p w hw
    show swapped k.ctx k.runnable q p w = _
    unfold swapped
    simp only [setCtx_apply]
    rw [if_neg (by omega), if_neg (by omega), if_neg (by omega), if_neg (by omega),
      if_neg (by omega), if_neg (by omega)]
  have hon : ∀ p, OnLock k₁ p ↔ OnLock k p := by
    intro p
    unfold OnLock
    rw [hwords p 2 (by decide)]
  -- the thread leaves, and is in a ring of its own; then its partner joins the others
  have hlinks : Links k₁ (x :: rs) 0 := by
    have hpl₁ : Placed (leftTo k x k.blocked k.user) := (leftTo_frame ..).placed hpl
    have hpark := (h.links.leave hpl k.blocked k.user).park hpl₁
      fun hlk => h.runs.2 ((onLock_unlink _ _).1 hlk)
    have htake := hpark.take (p := q) hpl₁
      (fun hmem => hqid.out (List.mem_cons_of_mem _ hmem))
      fun hlk => hqid.lock ((onLock_unlink _ _).1 hlk)
    have hput := htake.put hpl₁ hqm k.blocked k.user
    refine hput.owned rfl rfl rfl ?_ ?_ ?_ ?_
    · intro p _ w hw
      show swapped k.ctx k.runnable q p w = linkBefore (unlink k.ctx k.runnable) q x p w
      rw [hswap, if_neg (by omega)]
    · intro p _
      rw [hon]
      show _ ↔ linkBefore (unlink k.ctx k.runnable) q x p 2 = k.layout.blocked
      rw [linkBefore_list (by rw [← hx]; exact hqn.symm), unlink_other (by decide),
        unlink_other (by decide)]
      split
      · rename_i hp
        rw [hp]
        refine ⟨fun hlk => absurd hlk hqid.lock, fun hlk => ?_⟩
        exact absurd hlk (h.links.free x (by simp))
      · exact Iff.rfl
    · intro p hp
      rw [hwords p 2 (by decide)]
      refine h.ownerOk ?_
      rcases List.mem_cons.1 hp with rfl | hp
      · exact hqm
      · exact h.gate.ringMem p (List.mem_cons_of_mem _ hp)
    · intro p _ _
      show lockOf k₁.ctx p = lockOf (linkBefore (unlink k.ctx k.runnable) q x) p
      rw [lockOf_linkBefore, lockOf_unlink]
      unfold lockOf
      rw [hwords p 21 (by decide), hwords p 39 (by decide)]
  have hidle : ∀ p, p ≠ q → Idle k (x :: rs) p → Idle k₁ (x :: rs) p := by
    intro p hp hid
    refine ⟨?_, fun hlk => hid.lock ((hon p).1 hlk), ?_⟩
    · exact fun hmem => hid.out (List.mem_cons_of_mem _ ((List.mem_cons.1 hmem).resolve_left hp))
    · rw [hwords p 38 (by decide)]
      exact hid.gate
  refine h.relink (j := q) ⟨Frame.sched k _ q k.blockedWithTimeout k.blocked k.user, rfl,
    fun p w hw => hwords p w (by omega), ?_⟩ hlinks ?_ ?_ ?_ ?_ ?_ ?_
  · intro p hp
    rw [hwords p 2 (by decide)]
    exact h.ownerOk hp
  · intro p hp
    rcases List.mem_cons.1 hp with rfl | hp
    · exact hqid.gate
    · exact h.gate.awake p (List.mem_cons_of_mem _ hp)
  · exact fun p hp hw hlk => h.waiting p hp hw ((hon p).1 hlk)
  · intro p _ hid
    by_cases hp : p = q
    · exact .inl hp
    · exact .inr ⟨(hidle p hp hid).out, (hidle p hp hid).lock⟩
  · intro _ _
    rw [hback]
    refine ⟨?_, fun hlk => h.runs.2 ((hon _).1 hlk), ?_⟩
    · intro hmem
      rcases List.mem_cons.1 hmem with heq | hmem
      · exact hqt heq.symm
      · exact (List.nodup_cons.1 h.gate.ringNodup).1 hmem
    · rw [hwords _ 38 (by decide)]
      exact h.runs.1
  · intro hi0
    obtain ⟨him, hruns, hpart⟩ := h.interrupt hi0
    -- the interrupt thread is no partner of a thread that runs
    have hiq : k.interruptThread ≠ q := by
      intro heq
      rw [heq, hback] at hpart
      exact (hpart (hpl.ne_zero h.mem)).ne_runnable rfl
    refine ⟨.inr (hidle _ hiq (hruns.resolve_left hi)), fun hne3 => hidle _ ?_ (hpart hne3)⟩
    intro heq
    have hb := (h.pairs _ him hne3).back
    rw [heq, hback] at hb
    exact hi hb
  · intro p hp hid
    by_cases hpt : p = k.runnable
    · rw [hpt]
      exact .inr (.inr h3)
    refine h.idle p hp ⟨fun hmem => hid.out ?_, fun hlk => hid.lock ((hon p).2 hlk), ?_⟩
    · exact List.mem_cons_of_mem _ ((List.mem_cons.1 hmem).resolve_left hpt)
    · rw [← hwords p 38 (by decide)]
      exact hid.gate

theorem handleSwitchToPartner_sched (h : SchedInv O k rs qs rem)
    (hi : k.runnable ≠ k.interruptThread) (hne : rs ≠ [])
    (hok : handleSwitchToPartner k k.runnable = .ok k' now) : Scheduled O k k' now := by
  obtain ⟨x, rs, rfl⟩ := List.exists_cons_of_ne_nil hne
  have hpart : k.partner k.runnable = k.ctx k.runnable 3 := fld_of_mem h.mem 3
  unfold handleSwitchToPartner at hok
  rw [hpart] at hok
  split at hok
  · cases hok
  rename_i h3
  split at hok
  · cases hok
  obtain ⟨hqm, hback, hqt, -⟩ := h.pairs _ h.mem h3
  obtain ⟨hswap, hinv⟩ := h.swap hi rfl h3
  have hqid := h.partner_idle h3
  set q := k.ctx k.runnable 3 with hq
  have hnow : (k.withCtx (swapped k.ctx k.runnable q)).partner k.runnable = q := by
    refine (fld_of_mem (by exact h.mem) 3).trans ?_
    rw [withCtx_ctx, hq]
    unfold swapped
    simp
  simp only [hswap, hnow] at hok
  set k₁ : Kernel := { k with ctx := swapped k.ctx k.runnable q, runnable := q } with hk₁
  have hsame : SameDomains k k₁ := by
    refine SameDomains.sched k q k.blockedWithTimeout k.blocked k.interruptThread k.user ?_
    intro p w hw
    unfold swapped
    simp only [setCtx_apply]
    rw [if_neg (by omega), if_neg (by omega), if_neg (by omega), if_neg (by omega),
      if_neg (by omega), if_neg (by omega)]
  change (if isVirtual (k₁.spsr q) = true then Outcome.ok (k₁.setPc q (k₁.reg k.runnable 1)) q
    else .ok k₁ q) = .ok k' now at hok
  split at hok
  · obtain ⟨hk', hnow'⟩ := Outcome.ok.inj hok
    rw [← hk', ← hnow', Kernel.setPc, setFld_of_mem (by exact hqm)]
    have hkeep : KeepsLists k₁ (k₁.withCtx (setCtx k₁.ctx q 36 (k₁.reg k.runnable 1))) :=
      .row (by decide) (.inr hinv.runs)
    refine ⟨⟨_, _, _, hinv.congr hkeep⟩, rfl, hsame.trans ⟨rfl, ?_, rfl, rfl, rfl⟩⟩
    intro p w hw
    rw [withCtx_ctx, setCtx_apply, if_neg (by omega)]
  · obtain ⟨hk', hnow'⟩ := Outcome.ok.inj hok
    rw [← hk', ← hnow']
    exact ⟨⟨_, _, _, hinv⟩, rfl, hsame⟩

end Partner

/-! ## The interrupt thread -/

section Interrupt

variable {k k' : Kernel} {rs qs : List ℕ} {rem : ℕ → ℕ} {x e now : ℕ} {O : ℕ → Prop}

/-- An entry leaves its head variable to the next one, whichever that variable is. -/
theorem dropHead_owned (hpl : Placed k) (he : e ∈ k.contexts) (ho : OwnerOk k (k.ctx e 2)) :
    ∃ r b u, dropHead k e = { k with runnable := r, blocked := b, user := u } := by
  have hlist : k.list e = k.ctx e 2 := fld_of_mem he 2
  unfold dropHead
  simp only [hlist]
  rcases ho with ho | ho | ho
  · rw [ho]
    split
    · split
      · exact ⟨k.runnable, k.blocked, _, hpl.store64_zero _⟩
      · exact ⟨k.runnable, k.blocked, _, hpl.store64_zero _⟩
    · exact ⟨k.runnable, k.blocked, k.user, rfl⟩
  · rw [ho]
    split
    · split
      · exact ⟨_, k.blocked, k.user, hpl.store64_runnable _⟩
      · exact ⟨_, k.blocked, k.user, hpl.store64_runnable _⟩
    · exact ⟨k.runnable, k.blocked, k.user, rfl⟩
  · rw [ho]
    split
    · split
      · exact ⟨k.runnable, _, k.user, hpl.store64_blocked _⟩
      · exact ⟨k.runnable, _, k.user, hpl.store64_blocked _⟩
    · exact ⟨k.runnable, k.blocked, k.user, rfl⟩

/-- The interrupt thread leaves the runnable ones. -/
theorem SchedInv.parked (h : SchedInv O k (x :: rs) qs rem) (hi : k.interruptThread = k.runnable)
    (b : ℕ) (u : ℕ → ℕ → ℕ) : SchedInv O (leftTo k x b u) rs qs rem := by
  have hpl := h.gate.placed
  have hwords : ∀ p w, 2 ≤ w → (leftTo k x b u).ctx p w = k.ctx p w := fun p w hw => unlink_other hw
  have hon : ∀ p, OnLock (leftTo k x b u) p ↔ OnLock k p := onLock_unlink k.runnable
  have hidle : ∀ p, Idle k (x :: rs) p → Idle (leftTo k x b u) rs p := by
    intro p hid
    refine ⟨fun hmem => hid.out (List.mem_cons_of_mem _ hmem), fun hlk => hid.lock ((hon p).1 hlk),
      ?_⟩
    rw [hwords p 38 (by decide)]
    exact hid.gate
  refine h.relink (j := 0) ⟨leftTo_frame k x b u, rfl, fun p w hw => hwords p w (by omega), ?_⟩
    ((h.links.leave hpl b u).park ((leftTo_frame ..).placed hpl) fun hlk =>
      h.runs.2 ((hon _).1 hlk))
    ?_ ?_ ?_ ?_ ?_ ?_
  · intro p hp
    rw [hwords p 2 (by decide)]
    exact h.ownerOk hp
  · exact fun p hp => h.gate.awake p (List.mem_cons_of_mem _ hp)
  · exact fun p hp hw hlk => h.waiting p hp hw ((hon p).1 hlk)
  · exact fun p _ hid => .inr ⟨(hidle p hid).out, (hidle p hid).lock⟩
  · exact fun h0 => absurd h0 h.heap.zero_notMem
  · intro hi0
    refine ⟨.inr ⟨?_, ?_, ?_⟩, fun hne3 => hidle _ ((h.interrupt hi0).partner hne3)⟩
    · rw [hi]
      exact (List.nodup_cons.1 h.gate.ringNodup).1
    · rw [hi]
      exact fun hlk => h.runs.2 ((hon _).1 hlk)
    · rw [hi, hwords _ 38 (by decide)]
      exact h.runs.1
  · intro p hp hid
    by_cases hpt : p = k.runnable
    · exact .inr (.inl (hpt.trans hi.symm))
    refine h.idle p hp ⟨fun hmem => hid.out ?_, fun hlk => hid.lock ((hon p).2 hlk), ?_⟩
    · exact (List.mem_cons.1 hmem).resolve_left hpt
    · rw [← hwords p 38 (by decide)]
      exact hid.gate

/-- What `setInterruptThread` does when there is none yet: the thread runs on for now. -/
theorem SchedInv.register (h : SchedInv O k rs qs rem) (hi : k.interruptThread = 0) :
    SchedInv O { k with interruptThread := k.runnable } rs qs rem :=
  ⟨h.gate.transfer rfl rfl rfl rfl rfl rfl, h.heap.congr rfl rfl,
    h.links.congr rfl rfl rfl (fun _ _ _ _ => rfl) fun _ _ _ => rfl, h.waiting,
    fun p hp hne => ⟨(h.pairs p hp hne).mem, (h.pairs p hp hne).back, (h.pairs p hp hne).ne,
      (h.pairs p hp hne).idle.imp (fun hid => ⟨hid.out, hid.lock, hid.gate⟩)
        fun hid => ⟨hid.out, hid.lock, hid.gate⟩⟩,
    fun _ => ⟨h.mem, .inl rfl, fun hne =>
      ⟨(h.partner_idle hne).out, (h.partner_idle hne).lock, (h.partner_idle hne).gate⟩⟩,
    h.frames, fun p hp hid =>
      (h.idle p hp ⟨hid.out, hid.lock, hid.gate⟩).imp_right fun hcase =>
        .inr (hcase.resolve_left fun heq => h.gate.placed.ne_zero hp (heq.trans hi))⟩

theorem setInterruptThread_sched (h : SchedInv O k rs qs rem) (hne : rs ≠ [])
    (hok : setInterruptThread k k.runnable = .ok k' now) : Scheduled O k k' now := by
  obtain ⟨x, rs, rfl⟩ := List.exists_cons_of_ne_nil hne
  -- the last stores: the thread leaves its ring, and the next one is the head
  have hfinish : ∀ k₁ : Kernel, SchedInv O k₁ (x :: rs) qs rem → k₁.runnable = k.runnable →
      k₁.interruptThread = k₁.runnable → SameDomains k k₁ →
      Outcome.ok { removeThread k₁ k.runnable with runnable := k₁.next k.runnable }
        (k₁.next k.runnable) = .ok k' now → Scheduled O k k' now := by
    intro k₁ h₁ hrun hi hsame heq
    rw [← hrun] at heq
    have hclosed := ring_closed h₁.gate.ring _ List.mem_cons_self
    have hnext : k₁.next k₁.runnable = x :=
      (fld_of_mem h₁.mem 0).trans (List.isChain_cons_cons.1 h₁.gate.ring).1.1
    obtain ⟨r, b, u, hd⟩ := dropHead_owned h₁.gate.placed h₁.mem (h₁.ownerOk h₁.mem)
    have hrem : { removeThread k₁ k₁.runnable with runnable := x } = leftTo k₁ x b u := by
      rw [removeThread_eq h₁.mem (h₁.gate.ringMem _ hclosed.1) (h₁.gate.ringMem _ hclosed.2)
        (by rw [hd]) (by rw [hd]), hd]
      rfl
    rw [hnext, hrem] at heq
    obtain ⟨rfl, rfl⟩ := Outcome.ok.inj heq
    refine ⟨⟨rs, qs, rem, h₁.parked hi b u⟩, rfl, hsame.trans ⟨rfl, ?_, rfl, rfl, rfl⟩⟩
    exact fun p w hw => unlink_other (by omega)
  unfold setInterruptThread at hok
  simp only at hok
  split at hok
  · split at hok
    · cases hok
    · rename_i hi
      exact hfinish k h rfl (not_not.1 hi) (SameDomains.refl k) hok
  · rename_i hi
    have hreg := h.register (not_not.1 hi)
    have hmem : k.runnable ∈ ({ k with interruptThread := k.runnable } : Kernel).contexts := h.mem
    rw [Kernel.setSpsr, setFld_of_mem hmem] at hok
    have hkeep : ∀ v, KeepsLists { k with interruptThread := k.runnable }
        (Kernel.withCtx { k with interruptThread := k.runnable }
          (setCtx k.ctx k.runnable 37 v)) := fun v => .row (by decide) (.inr hreg.runs)
    refine hfinish _ (hreg.congr (hkeep _)) rfl rfl ?_ hok
    refine ⟨rfl, ?_, rfl, rfl, rfl⟩
    intro p w hw
    rw [withCtx_ctx, setCtx_apply, if_neg (by omega)]

end Interrupt

/-! ## New contexts -/

section Create

variable {k k' k₁ : Kernel} {rs qs : List ℕ} {rem : ℕ → ℕ} {p t now : ℕ} {O : ℕ → Prop}

/-- A new context, and perhaps a state of a virtual machine behind it. -/
structure NewThread (k k' : Kernel) (p : ℕ) : Prop where
  heap : Heap k'
  fresh : p ∉ k.contexts
  row : NewRow k'.ctx p
  eq : ∃ b c m, k' = { k with heapBottom := b, contexts := p :: k.contexts, ctx := c, mem := m }
  others : ∀ q w, q ≠ p → k'.ctx q w = k.ctx q w

theorem Created.newThread (h : Created k k' p) : NewThread k k' p := by
  obtain ⟨b, c, hk⟩ := h.eq
  exact ⟨h.heap, h.fresh, h.row, ⟨b, c, k.mem, hk⟩, h.others⟩

theorem NewThread.contexts (h : NewThread k k' p) : k'.contexts = p :: k.contexts := by
  obtain ⟨b, c, m, rfl⟩ := h.eq
  rfl

/-- Words that a new thread may start with. -/
theorem NewThread.set (h : NewThread k k' p) {w v : ℕ} (hw : 4 ≤ w ∧ w ≤ 37 ∨ w = 39) :
    NewThread k (k'.setFld p w v) p := by
  have hmem : p ∈ k'.contexts := by
    rw [h.contexts]
    exact List.mem_cons_self
  obtain ⟨b, c, m, rfl⟩ := h.eq
  rw [setFld_of_mem hmem]
  refine ⟨h.heap.congr rfl rfl, h.fresh, h.row.set (by omega), ⟨b, _, m, rfl⟩, ?_⟩
  intro q u hq
  show setCtx c p w v q u = k.ctx q u
  rw [setCtx_apply, if_neg (by tauto)]
  exact h.others q u hq

/-- Neither of the head variables is the null pointer. -/
theorem blocked_ne_zero (k : Kernel) : k.layout.blocked ≠ 0 := by
  have := (layout_le k).1
  unfold startAddress at this
  omega

/-- The new thread is idle, and it is not yet for anything. -/
theorem SchedInv.created (h : SchedInv O k rs qs rem) (hn : NewThread k k' p) :
    SchedInv (fun q => O q ∨ q = p) k' rs qs rem ∧ Idle k' rs p := by
  have hctx := hn.others
  have hrow := hn.row
  have hfresh := hn.fresh
  have hheap := hn.heap
  obtain ⟨b, c, m, rfl⟩ := hn.eq
  set k' : Kernel := { k with heapBottom := b, contexts := p :: k.contexts, ctx := c, mem := m }
    with hk'
  have hne : ∀ q ∈ k.contexts, q ≠ p := fun q hq heq => hfresh (heq ▸ hq)
  have hring : ∀ q ∈ k.runnable :: rs, q ∈ k.contexts := h.gate.ringMem
  have hqs : ∀ q ∈ qs, q ∈ k.contexts := fun q hq => (h.gate.waiting q hq).1
  have hon : ∀ q ∈ k.contexts, OnLock k' q ↔ OnLock k q := by
    intro q hq
    unfold OnLock
    rw [hctx q 2 (hne q hq)]
  have hpon : ¬ OnLock k' p := by
    unfold OnLock
    rw [hrow.list]
    exact (blocked_ne_zero k).symm
  have hidle : ∀ q ∈ k.contexts, Idle k rs q → Idle k' rs q := by
    intro q hq hid
    refine ⟨hid.out, fun hlk => hid.lock ((hon q hq).1 hlk), ?_⟩
    rw [hctx q 38 (hne q hq)]
    exact hid.gate
  have hringk : Ring (nextOf c) (prevOf c) k.runnable rs :=
    ring_congr h.gate.ring (fun q hq => hctx q 0 (hne q (hring q hq)))
      fun q hq => hctx q 1 (hne q (hring q hq))
  refine ⟨⟨?_, hheap, ?_, ?_, ?_, ?_, ?_, ?_⟩, ?_⟩
  · refine ⟨hheap.toPlaced, ?_, hringk, h.gate.ringNodup, ?_, ?_, ?_, h.gate.queueNodup, ?_, ?_, ?_,
      ?_, h.gate.bound, ?_⟩
    · intro q hq
      rcases List.mem_cons.1 hq with rfl | hq
      · exact .inl hrow.list
      · rw [hctx q 2 (hne q hq)]
        exact h.gate.owners q hq
    · exact fun q hq => List.mem_cons_of_mem _ (hring q hq)
    · intro q hq
      rw [hctx q 38 (hne q (hring q hq))]
      exact h.gate.awake q hq
    · obtain ⟨a, ha⟩ := h.gate.queue
      refine ⟨a, ?_⟩
      exact pseg_congr (fun q hq => hctx q 21 (hne q (hqs q hq)))
        (fun q hq => hctx q 20 (hne q (hqs q hq))) ha
    · intro q hq
      refine ⟨List.mem_cons_of_mem _ (hqs q hq), ?_⟩
      rw [hctx q 38 (hne q (hqs q hq))]
      exact (h.gate.waiting q hq).2
    · intro q hq hw
      rcases List.mem_cons.1 hq with rfl | hq
      · rw [hrow.gate] at hw
        exact absurd hw (by decide)
      · rw [hctx q 38 (hne q hq)] at hw
        rw [hctx q 20 (hne q hq)]
        exact h.gate.queued q hq hw
    · exact sums_congr (fun q hq => hctx q 5 (hne q (hqs q hq))) (fun _ _ => rfl) h.gate.sums
    · intro q hq
      rw [hctx q 5 (hne q (hqs q (List.mem_of_mem_head? hq)))]
      exact h.gate.first q hq
    · intro q hq
      rcases List.mem_cons.1 hq with rfl | hq
      · rw [hrow.gate]
        exact .inr (by decide)
      · rw [hctx q 38 (hne q hq)]
        exact h.gate.gates q hq
  · refine ⟨⟨hringk, h.gate.ringNodup, fun q hq => List.mem_cons_of_mem _ (hring q hq), ?_⟩,
      h.links.hand, fun q hq hlk => h.links.free q hq ((hon q (hring q hq)).1 hlk), ?_, ?_⟩
    · intro q hq
      rw [hctx q 2 (hne q (hring q hq))]
      exact h.links.running.owners q hq
    · -- the threads that wait for locks are as they were
      intro q hq _ hlk
      refine LockRing.ne_zero ?_ hheap.zero_notMem
      rcases List.mem_cons.1 hq with rfl | hq
      · exact absurd hlk hpon
      rw [hon q hq] at hlk
      obtain ⟨⟨-, h0, h1, h01, h10⟩, hl0, hl1, hsame⟩ := h.links.locks_zero h.gate.placed hq hlk
      have hc0 : k'.ctx q 0 = k.ctx q 0 := hctx q 0 (hne q hq)
      have hc1 : k'.ctx q 1 = k.ctx q 1 := hctx q 1 (hne q hq)
      refine ⟨⟨List.mem_cons_of_mem _ hq, ?_, ?_, ?_, ?_⟩, ?_, ?_, ?_⟩
      · rw [hc0]
        exact List.mem_cons_of_mem _ h0
      · rw [hc1]
        exact List.mem_cons_of_mem _ h1
      · rw [hc0, hctx _ 1 (hne _ h0)]
        exact h01
      · rw [hc1, hctx _ 0 (hne _ h1)]
        exact h10
      · rw [hc0]
        exact (hon _ h0).2 hl0
      · rw [hc1]
        exact (hon _ h1).2 hl1
      · rw [hc0]
        show (k'.ctx _ 21, field 32 32 (k'.ctx _ 39)) = (k'.ctx q 21, field 32 32 (k'.ctx q 39))
        rw [hctx _ 21 (hne _ h0), hctx _ 39 (hne _ h0), hctx q 21 (hne q hq), hctx q 39 (hne q hq)]
        exact hsame
    · intro q hq hcase
      rcases List.mem_cons.1 hq with rfl | hq
      · exact ⟨hrow.next, hrow.prev⟩
      · rw [hctx q 0 (hne q hq), hctx q 1 (hne q hq)]
        refine h.links.alone q hq (hcase.imp_right fun hnot => ⟨hnot.1, fun hlk => hnot.2 ?_⟩)
        exact (hon q hq).2 hlk
  · intro q hq hw hlk
    rcases List.mem_cons.1 hq with rfl | hq
    · exact hpon hlk
    · rw [hctx q 38 (hne q hq)] at hw
      exact h.waiting q hq hw ((hon q hq).1 hlk)
  · intro q hq h3
    rcases List.mem_cons.1 hq with rfl | hq
    · exact absurd hrow.partner h3
    · rw [hctx q 3 (hne q hq)] at h3 ⊢
      obtain ⟨hmem, hback, hqp, hid⟩ := h.pairs q hq h3
      refine ⟨List.mem_cons_of_mem _ hmem, ?_, hqp, hid.imp (hidle q hq) (hidle _ hmem)⟩
      rw [hctx _ 3 (hne _ hmem)]
      exact hback
  · intro hi
    obtain ⟨hmem, hruns, hpart⟩ := h.interrupt hi
    refine ⟨List.mem_cons_of_mem _ hmem, hruns.imp_right (hidle _ hmem), ?_⟩
    show k'.ctx k.interruptThread 3 ≠ 0 → Idle k' rs (k'.ctx k.interruptThread 3)
    rw [hctx _ 3 (hne _ hmem)]
    exact fun h3 => hidle _ (h.pairs _ hmem h3).mem (hpart h3)
  · intro q hq
    rcases List.mem_cons.1 hq with rfl | hq
    · exact ⟨⟨5, by decide, by decide, hrow.stackPointer⟩, hrow.stackLimit⟩
    · obtain ⟨hpointer, hlimit⟩ := h.frames q hq
      refine ⟨?_, ?_⟩
      · rw [hctx q 41 (hne q hq)]
        exact hpointer
      · rw [hctx q 42 (hne q hq)]
        exact hlimit
  · intro q hq hid
    rcases List.mem_cons.1 hq with rfl | hq
    · exact .inl (.inr rfl)
    · rw [hctx q 3 (hne q hq)]
      refine (h.idle q hq ⟨hid.out, fun hlk => hid.lock ((hon q hq).2 hlk), ?_⟩).imp_left .inl
      rw [← hctx q 38 (hne q hq)]
      exact hid.gate
  · refine ⟨fun hmem => hfresh (hring p hmem), hpon, ?_⟩
    rw [hrow.gate]
    decide

/-- Each of two threads without a partner becomes the other's. -/
theorem SchedInv.paired (h : SchedInv (fun q => O q ∨ q = p) k rs qs rem)
    (hp : p ∈ k.contexts) (hid : Idle k rs p)
    (hp3 : k.ctx p 3 = 0) (ht3 : k.ctx k.runnable 3 = 0) (hpi : p ≠ k.interruptThread) :
    SchedInv O (k.withCtx (setCtx (setCtx k.ctx k.runnable 3 p) p 3 k.runnable)) rs qs rem := by
  have hpt : p ≠ k.runnable := hid.ne_runnable
  have hp0 : p ≠ 0 := h.gate.placed.ne_zero hp
  set k' := k.withCtx (setCtx (setCtx k.ctx k.runnable 3 p) p 3 k.runnable) with hk'
  have hword : ∀ q w, w ≠ 3 → k'.ctx q w = k.ctx q w := by
    intro q w hw
    rw [hk', withCtx_ctx, setCtx_apply, if_neg fun heq => hw heq.2, setCtx_apply,
      if_neg fun heq => hw heq.2]
  have h3 : ∀ q, k'.ctx q 3 = if q = p then k.runnable else if q = k.runnable then p
      else k.ctx q 3 := by
    intro q
    simp only [hk', withCtx_ctx, setCtx_apply, and_true]
  have hidle : ∀ q, Idle k rs q → Idle k' rs q := by
    intro q hq
    refine hq.congr rfl rfl (hword q 2 (by decide)) ?_
    rw [hword q 38 (by decide)]
    exact hq.gate
  have hgate : GateInv k' rs qs rem := by
    have h₁ := h.gate.setAwake (w := 3) (v := p) h.runs.1 (by decide) (by omega)
    have h₂ := h₁.setAwake (p := p) (w := 3) (v := k.runnable)
      (by
        rw [withCtx_ctx, setCtx_apply, if_neg (by omega)]
        exact hid.gate) (by decide) (by omega)
    exact h₂
  refine ⟨hgate, h.heap.congr rfl rfl, ?_, ?_, ?_, ?_, ?_, ?_⟩
  · refine h.links.congr rfl rfl rfl (fun q _ w hw => hword q w (by omega)) fun q _ _ => ?_
    unfold lockOf
    rw [hword q 21 (by decide), hword q 39 (by decide)]
  · intro q hq hw hlk
    rw [hword q 38 (by decide)] at hw
    refine h.waiting q hq hw ?_
    unfold OnLock at hlk
    rw [hword q 2 (by decide)] at hlk
    exact hlk
  · intro q hq hne
    by_cases hqp : q = p
    · rw [h3, if_pos hqp, hqp]
      exact ⟨h.mem, by rw [h3, if_neg hpt.symm, if_pos rfl], hpt.symm, .inl (hidle p hid)⟩
    by_cases hqt : q = k.runnable
    · rw [h3, if_neg hqp, if_pos hqt, hqt]
      exact ⟨hp, by rw [h3, if_pos rfl], hpt, .inr (hidle p hid)⟩
    · rw [h3, if_neg hqp, if_neg hqt] at hne ⊢
      obtain ⟨hmem, hback, hqne, hqid⟩ := h.pairs q hq hne
      have hq0 : q ≠ 0 := h.gate.placed.ne_zero hq
      -- the two have had no partner, so they are nobody's
      have h₁ : k.ctx q 3 ≠ p := by
        intro heq
        rw [heq, hp3] at hback
        exact hq0 hback.symm
      have h₂ : k.ctx q 3 ≠ k.runnable := by
        intro heq
        rw [heq, ht3] at hback
        exact hq0 hback.symm
      refine ⟨hmem, ?_, hqne, hqid.imp (hidle q) (hidle _)⟩
      rw [h3, if_neg h₁, if_neg h₂]
      exact hback
  · intro hi
    obtain ⟨hmem, hruns, hpart⟩ := h.interrupt hi
    refine ⟨hmem, hruns.imp_right (hidle _), ?_⟩
    show k'.ctx k.interruptThread 3 ≠ 0 → Idle k' rs (k'.ctx k.interruptThread 3)
    rw [h3, if_neg hpi.symm]
    split
    · exact fun _ => hidle p hid
    · exact fun hne => hidle _ (hpart hne)
  · intro q hq
    obtain ⟨hpointer, hlimit⟩ := h.frames q hq
    refine ⟨?_, ?_⟩
    · rw [hword q 41 (by decide)]
      exact hpointer
    · rw [hword q 42 (by decide)]
      exact hlimit
  · intro q hq hid'
    by_cases hqp : q = p
    · rw [h3, if_pos hqp]
      exact .inr (.inr (h.gate.placed.ne_zero h.mem))
    have hqt : q ≠ k.runnable := hid'.ne_runnable
    rw [h3, if_neg hqp, if_neg hqt]
    refine (h.idle q hq ⟨hid'.out, fun hlk => hid'.lock ?_, ?_⟩).imp_left
      fun ho => ho.resolve_right hqp
    · unfold OnLock
      rw [hword q 2 (by decide)]
      exact hlk
    · rw [← hword q 38 (by decide)]
      exact hid'.gate

/-- The map of the frame at the stack pointer of a thread. -/
theorem callerMap_eq {j : ℕ} (hpl : Placed k) (ht : t ∈ k.contexts) (hj : j ≤ 5)
    (hs : k.ctx t 41 = frameAddress t j) :
    k.callerMap (k.stackPointer t) = field 0 32 (k.ctx t (45 + 3 * j)) := by
  have hsp : k.stackPointer t = frameAddress t j := (fld_of_mem ht 41).trans hs
  have haddr : frameAddress t j + 16 = t + 8 * (45 + 3 * j) := by
    unfold frameAddress
    omega
  rw [hsp, Kernel.callerMap, Kernel.load32, haddr, hpl.load64 ht (by omega)]
  unfold field
  rw [pow_zero, Nat.div_one]

/-- A thread is made, that starts in the map `map`. -/
structure Spawned (k k' : Kernel) (p map : ℕ) : Prop where
  contexts : k'.contexts = p :: k.contexts
  fresh : p ∉ k.contexts
  rows : ∀ q ∈ k.contexts, ∀ w, 39 ≤ w → k'.ctx q w = k.ctx q w
  row : k'.ctx p 41 = frameAddress p 5 ∧ k'.ctx p 59 = systemServiceThreadExit ∧
    field 0 32 (k'.ctx p 60) = systemMapIndex
  map : field 32 32 (k'.ctx p 39) = map % 2 ^ 32
  interfaces : k'.interfaces = k.interfaces
  freeInterface : k'.freeInterface = k.freeInterface
  loadedMap : k'.loadedMap = k.loadedMap

theorem NewThread.spawned {map : ℕ} (h : NewThread k k' p)
    (hmap : field 32 32 (k'.ctx p 39) = map % 2 ^ 32) : Spawned k k' p map := by
  have hne : ∀ q ∈ k.contexts, q ≠ p := fun q hq heq => h.fresh (heq ▸ hq)
  obtain ⟨b, c, m, hk⟩ := h.eq
  refine ⟨h.contexts, h.fresh, fun q hq w _ => h.others q w (hne q hq),
    ⟨h.row.stackPointer, h.row.callerReturnAddress, h.row.callerMap⟩, hmap, ?_, ?_, ?_⟩
  · rw [hk]
  · rw [hk]
  · rw [hk]

theorem Spawned.same {map : ℕ} (h : Spawned k k₁ p map) (hs : SameDomains k₁ k') :
    Spawned k k' p map := by
  have hrow := fun w hw => hs.rows p w hw
  obtain ⟨h41, h59, h60⟩ := h.row
  refine ⟨hs.contexts.trans h.contexts, h.fresh,
    fun q hq w hw => (hs.rows q w hw).trans (h.rows q hq w hw), ?_, ?_,
    hs.interfaces.trans h.interfaces, hs.freeInterface.trans h.freeInterface,
    hs.loadedMap.trans h.loadedMap⟩
  · rw [hrow 41 (by decide), hrow 59 (by decide), hrow 60 (by decide)]
    exact ⟨h41, h59, h60⟩
  · rw [hrow 39 (by decide)]
    exact h.map

/-- The map of the caller of the thread that makes another one. -/
theorem NewThread.callerMap {j : ℕ} (hn : NewThread k k' p) (ht : t ∈ k.contexts) (hj : j ≤ 5)
    (hs : k.ctx t 41 = frameAddress t j) :
    k'.callerMap (k'.stackPointer t) = field 0 32 (k.ctx t (45 + 3 * j)) := by
  have hne : t ≠ p := fun heq => hn.fresh (heq ▸ ht)
  have ht' : t ∈ k'.contexts := by
    rw [hn.contexts]
    exact List.mem_cons_of_mem _ ht
  rw [callerMap_eq hn.heap.toPlaced ht' hj (by rw [hn.others t 41 hne]; exact hs),
    hn.others t _ hne]

/-- A new thread that starts in the map `map`. -/
structure StartsIn (k k' : Kernel) (p map : ℕ) : Prop where
  new : NewThread k k' p
  map : field 32 32 (k'.ctx p 39) = map % 2 ^ 32

theorem StartsIn.mem {map : ℕ} (h : StartsIn k k' p map) : p ∈ k'.contexts := by
  rw [h.new.contexts]
  exact List.mem_cons_self

theorem StartsIn.set {map : ℕ} (h : StartsIn k k' p map) {w : ℕ} (hw : 4 ≤ w ∧ w ≤ 37) (v : ℕ) :
    StartsIn k (k'.setFld p w v) p map := by
  refine ⟨h.new.set (.inl hw), ?_⟩
  rw [setFld_of_mem h.mem, withCtx_ctx, setCtx_apply, if_neg (by omega)]
  exact h.map

/-- The new thread runs, and the thread that has made it is behind it. -/
theorem StartsIn.run {map v : ℕ} (hn : StartsIn k k₁ p map) (h : SchedInv O k rs qs rem)
    (hi : k.runnable ≠ k.interruptThread) :
    (∃ rs qs rem, SchedInv O (insertThreadAsHead (k₁.setReg k.runnable 0 v)
      (runnableAddress (k₁.setReg k.runnable 0 v)) p) rs qs rem) ∧
    (insertThreadAsHead (k₁.setReg k.runnable 0 v)
      (runnableAddress (k₁.setReg k.runnable 0 v)) p).runnable = p ∧
    Spawned k (insertThreadAsHead (k₁.setReg k.runnable 0 v)
      (runnableAddress (k₁.setReg k.runnable 0 v)) p) p map := by
  obtain ⟨hinv, hid⟩ := h.created hn.new
  have hrun : k₁.runnable = k.runnable := by
    obtain ⟨_, _, _, heq⟩ := hn.new.eq
    rw [heq]
  have hint : k₁.interruptThread = k.interruptThread := by
    obtain ⟨_, _, _, heq⟩ := hn.new.eq
    rw [heq]
  obtain ⟨hkeep, hsame⟩ := hinv.setReg (i := 0) (by decide) v
  rw [hrun] at hkeep hsame
  generalize k₁.setReg k.runnable 0 v = k₂ at hkeep hsame
  have hid₂ : Idle k₂ rs p := hid.congr hkeep.layout hkeep.runnable (hkeep.links p 2 (by decide))
    (hkeep.awake hid.gate)
  have hp₂ : p ∈ k₂.contexts := by
    rw [hkeep.contexts]
    exact hn.mem
  obtain ⟨hinv₃, hrun₃, hsame₃⟩ := (hinv.congr hkeep).insertHead hp₂ hid₂ (.inr ⟨by
    rw [hkeep.links p 3 (by decide)]
    exact hn.new.row.partner, by
    rw [hkeep.runnable, hkeep.interruptThread, hrun, hint]
    exact hi⟩)
  exact ⟨hinv₃, hrun₃, (hn.new.spawned hn.map).same (hsame.trans hsame₃)⟩

/-- A context in the block just allocated. -/
theorem initialiseNewThread_new {size : ℕ} (h : Heap k) (hsize : size < 2 ^ 20)
    (hle : contextSize ≤ size)
    (hm : inMappedHeap (allocateHeap k size).2 contextSize = true) :
    NewThread k (initialiseNewThread (allocateHeap k size).1 (allocateHeap k size).2)
      (allocateHeap k size).2 := by
  have hcreate := h.create hsize hle hm
  have hfresh := h.block_notMem hsize (by unfold contextSize at hle; omega) hm
  obtain ⟨b, hb, -⟩ := h.allocate hsize hm
  rw [hb] at hcreate hfresh ⊢
  refine ⟨hcreate, hfresh, initialiseNewThread_row _ _, ⟨b, _, k.mem, rfl⟩, ?_⟩
  intro q w hq
  rw [initialiseNewThread_ctx, if_neg hq]

theorem NewThread.setCurrentMap (h : NewThread k k' p) (map : ℕ) :
    StartsIn k (k'.setCurrentMap p map) p map := by
  have hmem : p ∈ k'.contexts := by
    rw [h.contexts]
    exact List.mem_cons_self
  refine ⟨h.set (.inr rfl), ?_⟩
  rw [Kernel.setCurrentMap, setFld_of_mem hmem, withCtx_ctx, setCtx_apply, if_pos ⟨rfl, rfl⟩,
    field_setField]

theorem createThread_sched {j : ℕ} (h : SchedInv O k rs qs rem)
    (hi : k.runnable ≠ k.interruptThread) (hj : j ≤ 5)
    (hs : k.ctx k.runnable 41 = frameAddress k.runnable j)
    (hok : createThread k k.runnable = .ok k' now) :
    (∃ rs qs rem, SchedInv O k' rs qs rem) ∧ k'.runnable = now ∧
      Spawned k k' now (field 0 32 (k.ctx k.runnable (45 + 3 * j))) := by
  unfold createThread at hok
  split at hok
  · cases hok
  have hnew := initialiseNewThread_new (k := k) h.heap (by decide : contextSize < 2 ^ 20) le_rfl
  generalize allocateHeap k contextSize = b at hok hnew
  obtain ⟨k₁, q⟩ := b
  simp only at hok hnew
  split at hok
  · cases hok
  rename_i hm
  have hn := hnew (by simpa using hm)
  generalize initialiseNewThread k₁ q = k₂ at hok hn
  rw [hn.callerMap h.mem hj hs] at hok
  have hn₃ := hn.setCurrentMap (field 0 32 (k.ctx k.runnable (45 + 3 * j)))
  generalize k₂.setCurrentMap q (field 0 32 (k.ctx k.runnable (45 + 3 * j))) = k₃ at hok hn₃
  have hn₆ := ((hn₃.set (w := 36) (by decide) (k₃.reg k.runnable 1)).set (w := 35) (by decide)
    ((k₃.setFld q 36 (k₃.reg k.runnable 1)).reg k.runnable 2)).set (w := 37) (by decide)
    (setField 0 32 0 (((k₃.setFld q 36 (k₃.reg k.runnable 1)).setFld q 35
      ((k₃.setFld q 36 (k₃.reg k.runnable 1)).reg k.runnable 2)).fld q 37))
  have hrun := hn₆.run (v := threadCode q) h hi
  obtain ⟨rfl, rfl⟩ := Outcome.ok.inj hok
  exact hrun

/-- The row of a new context, whatever was in its place. -/
theorem newRow_update (c : ℕ → ℕ → ℕ) (row : ℕ → ℕ) (p : ℕ) :
    NewRow (Function.update c p (newContext p row)) p := by
  constructor <;> rw [Function.update_self]
  · exact newContext_next
  · exact newContext_prev
  · exact newContext_list
  · exact newContext_partner
  · exact newContext_gate
  · exact newContext_stackPointer
  · exact newContext_stackLimit
  · exact newContext_callerReturnAddress
  · rw [newContext_callerMap, field_setField]
    rfl

/-- What `Thread_Make_Partner` makes. -/
theorem makePartner_sched {j : ℕ} (h : SchedInv O k rs qs rem) (hj : j ≤ 5)
    (hs : k.ctx k.runnable 41 = frameAddress k.runnable j)
    (hok : makePartner k k.runnable = .ok k' now) :
    (∃ rs qs rem, SchedInv O k' rs qs rem) ∧ k'.runnable = now ∧ now = k.runnable ∧
      Spawned k k' (partnerBlock k) (field 0 32 (k.ctx k.runnable (45 + 3 * j))) := by
  have hmem := h.mem
  have ht3 : k.partner k.runnable = k.ctx k.runnable 3 := fld_of_mem hmem 3
  unfold makePartner at hok
  rw [ht3] at hok
  split at hok
  · cases hok
  rename_i hz
  unfold partnerBlock
  have hsize : contextSize + vmStateSize < 2 ^ 20 := by decide
  have hb := h.heap.allocate (n := contextSize) hsize
  have hcreate := h.heap.create hsize (by decide)
  have hfresh := h.heap.block_notMem (n := contextSize) hsize (by decide)
  generalize allocateHeap k (contextSize + vmStateSize) = block at hok hb hcreate hfresh ⊢
  obtain ⟨k₁, q⟩ := block
  simp only at hok hb hcreate hfresh ⊢
  split at hok
  · cases hok
  split at hok
  · cases hok
  rename_i hm
  have hm' : inMappedHeap q contextSize = true := by
    rw [Bool.not_eq_true, Bool.not_eq_false', inMappedHeap_iff] at hm
    rw [inMappedHeap_iff]
    omega
  have hcreate := hcreate hm'
  have hfresh := hfresh hm'
  obtain ⟨b, hb, -⟩ := hb hm'
  obtain ⟨rfl, -⟩ := Prod.mk.inj hb
  have htq : k.runnable ≠ q := fun heq => hfresh (heq ▸ hmem)
  obtain ⟨m, hclear⟩ : ∃ m, clearVmState { k with heapBottom := b } q =
      { k with heapBottom := b, mem := m } := ⟨_, rfl⟩
  have hset : Kernel.setPartner { k with heapBottom := b, mem := m } k.runnable q =
      { k with heapBottom := b, mem := m, ctx := setCtx k.ctx k.runnable 3 q } :=
    setFld_of_mem (by exact hmem) 3 q
  obtain ⟨row, hinit⟩ : ∃ row, initialiseNewThread { k with
      heapBottom := b, mem := m, ctx := setCtx k.ctx k.runnable 3 q } q =
      { k with
        heapBottom := b, mem := m, contexts := q :: k.contexts
        ctx := Function.update (setCtx k.ctx k.runnable 3 q) q (newContext q row) } := ⟨_, rfl⟩
  simp only [hclear, hset, hinit] at hok
  -- the new context, before the two threads know of each other
  set k₂ : Kernel := { k with
    heapBottom := b, mem := m, contexts := q :: k.contexts
    ctx := Function.update k.ctx q (newContext q row) } with hk₂
  have hn : NewThread k k₂ q := by
    refine ⟨hcreate.congr rfl rfl, hfresh, newRow_update k.ctx row q, ⟨b, _, m, rfl⟩, ?_⟩
    intro p w hp
    show Function.update k.ctx q (newContext q row) p w = k.ctx p w
    rw [Function.update_of_ne hp]
  obtain ⟨hinv₂, hid₂⟩ := h.created hn
  have hq₂ : q ∈ k₂.contexts := List.mem_cons_self
  have ht₂ : k.runnable ∈ k₂.contexts := List.mem_cons_of_mem _ hmem
  have hqi : q ≠ k₂.interruptThread := by
    intro heq
    have hi0 : k.interruptThread ≠ 0 := by
      show k₂.interruptThread ≠ 0
      rw [← heq]
      exact hinv₂.gate.placed.ne_zero hq₂
    exact hfresh (heq ▸ (h.interrupt hi0).mem)
  have hpair := hinv₂.paired hq₂ hid₂ hn.row.partner
    ((hn.others _ 3 htq).trans (not_not.1 hz)) hqi
  set k₃ := k₂.withCtx (setCtx (setCtx k₂.ctx k.runnable 3 q) q 3 k.runnable) with hk₃
  have hset₃ : Kernel.setPartner { k with
      heapBottom := b, mem := m, contexts := q :: k.contexts
      ctx := Function.update (setCtx k.ctx k.runnable 3 q) q (newContext q row) } q k.runnable =
      k₃ := by
    refine (setFld_of_mem (by exact hq₂) 3 k.runnable).trans ?_
    have hctx : Function.update (setCtx k.ctx k.runnable 3 q) q (newContext q row) =
        setCtx k₂.ctx k.runnable 3 q := by
      funext p w
      rw [setCtx_apply]
      show _ = if p = k.runnable ∧ w = 3 then q else Function.update k.ctx q (newContext q row) p w
      by_cases hp : p = q
      · rw [hp, Function.update_self, Function.update_self, if_neg fun heq => htq heq.1.symm]
      · rw [Function.update_of_ne hp, Function.update_of_ne hp, setCtx_apply]
    rw [hctx]
    rfl
  rw [hset₃] at hok
  have hword₃ : ∀ p w, w ≠ 3 → k₃.ctx p w = k₂.ctx p w := by
    intro p w hw
    rw [hk₃, withCtx_ctx, setCtx_apply, if_neg fun heq => hw heq.2, setCtx_apply,
      if_neg fun heq => hw heq.2]
  have hid₃ : Idle k₃ rs q := hid₂.congr rfl rfl (hword₃ q 2 (by decide)) (by
    rw [hword₃ q 38 (by decide)]
    exact hid₂.gate)
  -- what is left are words of the new context
  have hmap₃ : k₃.callerMap (k₃.stackPointer k.runnable) =
      field 0 32 (k.ctx k.runnable (45 + 3 * j)) := by
    rw [callerMap_eq hpair.gate.placed ht₂ hj
      (((hword₃ _ 41 (by decide)).trans (hn.others _ 41 htq)).trans hs), hword₃ _ _ (by omega),
      hn.others _ _ htq]
  simp only [hmap₃] at hok
  generalize field 0 32 (k.ctx k.runnable (45 + 3 * j)) = map at hok ⊢
  have hkeep : ∀ k₄ : Kernel, KeepsLists k₃ k₄ → ∀ w v, 4 ≤ w ∧ w ≤ 37 ∨ w = 39 →
      k₄.setFld q w v = k₄.withCtx (setCtx k₄.ctx q w v) ∧ KeepsLists k₃ (k₄.setFld q w v) := by
    intro k₄ h₄ w v hw
    have hq₄ : q ∈ k₄.contexts := by
      rw [h₄.contexts]
      exact hq₂
    rw [setFld_of_mem hq₄]
    refine ⟨rfl, h₄.trans (.row (by omega) (.inr ⟨h₄.awake hid₃.gate, fun hlk => ?_⟩))⟩
    exact hid₃.lock ((h₄.onLock q).1 hlk)
  obtain ⟨heq₄, hk₄⟩ := hkeep k₃ (.refl k₃) 39 (setField 32 32 map (k₃.fld q 39)) (.inr rfl)
  have hspawn : Spawned k (k₃.setCurrentMap q map) q map := by
    rw [Kernel.setCurrentMap, heq₄]
    have hrow : ∀ w, w ≠ 3 → w ≠ 39 → setCtx k₃.ctx q 39 (setField 32 32 map (k₃.fld q 39)) q w =
        k₂.ctx q w := by
      intro w hw hw39
      rw [setCtx_apply, if_neg (by omega), hword₃ q w hw]
    refine ⟨rfl, hfresh, ?_, ⟨(hrow 41 (by decide) (by decide)).trans hn.row.stackPointer,
      (hrow 59 (by decide) (by decide)).trans hn.row.callerReturnAddress, ?_⟩, ?_, rfl, rfl, rfl⟩
    · intro p hp w hw
      have hpq : p ≠ q := fun heq => hfresh (heq ▸ hp)
      rw [withCtx_ctx, setCtx_apply, if_neg fun heq => hpq heq.1, hword₃ p w (by omega),
        hn.others p w hpq]
    · rw [withCtx_ctx, hrow 60 (by decide) (by decide)]
      exact hn.row.callerMap
    · rw [withCtx_ctx, setCtx_apply, if_pos ⟨rfl, rfl⟩, field_setField]
  change KeepsLists k₃ (k₃.setCurrentMap q map) at hk₄
  generalize k₃.setCurrentMap q map = k₄ at hok hk₄ hspawn
  obtain ⟨heq₅, hk₅⟩ := hkeep k₄ hk₄ 36 0 (.inl (by decide))
  obtain ⟨heq₆, hk₆⟩ := hkeep _ hk₅ 37 (setField 0 32 0x1d3 ((k₄.setFld q 36 0).fld q 37))
    (.inl (by decide))
  obtain ⟨rfl, rfl⟩ := Outcome.ok.inj hok
  refine ⟨⟨_, _, _, hpair.congr hk₆⟩, hk₆.runnable, rfl, hspawn.same ?_⟩
  change SameDomains k₄ ((k₄.setFld q 36 0).setFld q 37
    (setField 0 32 0x1d3 ((k₄.setFld q 36 0).fld q 37)))
  rw [heq₆, heq₅]
  refine ⟨rfl, ?_, rfl, rfl, rfl⟩
  intro p w hw
  rw [withCtx_ctx, setCtx_apply, if_neg (by omega), withCtx_ctx, setCtx_apply, if_neg (by omega)]

end Create

end Isambard.El1
