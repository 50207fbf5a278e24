import Isambard.Lib.Deltas
import Isambard.Lib.Pprev
import Isambard.El1.Svc

/-!
# El1.Gate — what the gate does to the ring and to the queue

The effect of `handle_svc_gate` on created contexts. A thread that waits with a
timeout is in a queue, linked through its saved `x17`; its saved `x16` points to
the link that points to it, and its saved `x1` holds the ticks from the timeout
of the thread before it.

* `Frame`: what these calls leave alone;
* `QSeg`: the queue;
* `findSlot_spec`, `joinQueue_spec`, `leaveQueue_spec`, `expire_spec`: the parts
  of the handler.
-/

namespace Isambard.El1

open Isambard.Lib

/-- What the scheduler leaves alone. -/
structure Frame (k k' : Kernel) : Prop where
  layout : k'.layout = k.layout
  contexts : k'.contexts = k.contexts
  heapBottom : k'.heapBottom = k.heapBottom
  interruptThread : k'.interruptThread = k.interruptThread
  interfaces : k'.interfaces = k.interfaces
  freeInterface : k'.freeInterface = k.freeInterface
  lastInterface : k'.lastInterface = k.lastInterface
  mem : k'.mem = k.mem

theorem Frame.refl (k : Kernel) : Frame k k := ⟨rfl, rfl, rfl, rfl, rfl, rfl, rfl, rfl⟩

theorem Frame.trans {k k' k'' : Kernel} (h : Frame k k') (h' : Frame k' k'') : Frame k k'' :=
  ⟨h'.layout.trans h.layout, h'.contexts.trans h.contexts, h'.heapBottom.trans h.heapBottom,
    h'.interruptThread.trans h.interruptThread, h'.interfaces.trans h.interfaces,
    h'.freeInterface.trans h.freeInterface, h'.lastInterface.trans h.lastInterface,
    h'.mem.trans h.mem⟩

theorem Frame.placed {k k' : Kernel} (h : Frame k k') (hpl : Placed k) : Placed k' :=
  hpl.congr h.contexts h.heapBottom

/-- Changes to the words of the contexts, and to the core's variables. -/
theorem Frame.sched (k : Kernel) (c : ℕ → ℕ → ℕ) (r w b : ℕ) (u : ℕ → ℕ → ℕ) :
    Frame k { k with ctx := c, runnable := r, blockedWithTimeout := w, blocked := b, user := u } :=
  ⟨rfl, rfl, rfl, rfl, rfl, rfl, rfl, rfl⟩

/-! ## Leaving the ring -/

section Leave

variable {k : Kernel} {e : ℕ}

/-- The maps' words that are no pointers into the kernel's memory are as they were. -/
def Spared (k : Kernel) (u : ℕ → ℕ → ℕ) : Prop :=
  ∀ m a, k.user m a < startAddress → u m a = k.user m a

/-- The word at the null pointer, when that is taken for the head variable. -/
theorem spared_null (hpl : Placed k) (he : e ∈ k.contexts) (h : k.load64 0 = e) (v : ℕ) :
    Spared k (setCtx k.user k.loadedMap 0 v) := by
  have hfloor := hpl.floor he
  rw [load64_eq_word (by decide), Kernel.word, hpl.place_zero] at h
  intro m a ha
  rw [setCtx_apply, if_neg]
  rintro ⟨rfl, rfl⟩
  unfold heapTop initialHeap at hfloor
  simp only at h
  omega

/-- An entry that is not the head of the runnable ring changes that in no way. -/
theorem dropHead_other (hpl : Placed k) (he : e ∈ k.contexts) (ho : OwnerOk k (k.ctx e 2))
    (hr : k.runnable ≠ e) :
    ∃ b u, dropHead k e = { k with blocked := b, user := u } ∧ Spared k u := by
  have hlist : k.list e = k.ctx e 2 := fld_of_mem he 2
  have hself : Spared k k.user := fun _ _ _ => rfl
  unfold dropHead
  simp only [hlist]
  rcases ho with ho | ho | ho
  · rw [ho]
    split
    · rename_i hnull
      split
      · exact ⟨k.blocked, _, hpl.store64_zero _, spared_null hpl he hnull _⟩
      · exact ⟨k.blocked, _, hpl.store64_zero _, spared_null hpl he hnull _⟩
    · exact ⟨k.blocked, k.user, rfl, hself⟩
  · rw [ho, hpl.load64_runnable, if_neg hr]
    exact ⟨k.blocked, k.user, rfl, hself⟩
  · rw [ho]
    split
    · split
      · exact ⟨_, k.user, hpl.store64_blocked _, hself⟩
      · exact ⟨_, k.user, hpl.store64_blocked _, hself⟩
    · exact ⟨k.blocked, k.user, rfl, hself⟩

theorem removeThread_other (hpl : Placed k) (he : e ∈ k.contexts) (hn : k.ctx e 0 ∈ k.contexts)
    (hp : k.ctx e 1 ∈ k.contexts) (ho : OwnerOk k (k.ctx e 2)) (hr : k.runnable ≠ e) :
    ∃ b u, removeThread k e = { k with ctx := unlink k.ctx e, blocked := b, user := u } ∧
      Spared k u := by
  obtain ⟨b, u, hd, hu⟩ := dropHead_other hpl he ho hr
  refine ⟨b, u, ?_, hu⟩
  rw [removeThread_eq he hn hp (by rw [hd]) (by rw [hd]), hd]
  rfl

end Leave

/-! ## The queue -/

/-- The link at the address `a`, which holds `h`, is at the end of the threads `l`
of the queue. -/
def QSeg (k : Kernel) (l : List ℕ) (a h : ℕ) : Prop :=
  PSeg (fun p => k.ctx p 21) (fun p => k.ctx p 20) (regAddress · 17)
    (blockedWithTimeoutAddress k) k.blockedWithTimeout l a h

section Queue

variable {k : Kernel} {l : List ℕ} {a h : ℕ}

theorem regAddress_eq (p : ℕ) : regAddress p 17 = p + 8 * 21 := rfl

theorem QSeg.load64 (hq : QSeg k l a h) (hpl : Placed k) (hl : ∀ p ∈ l, p ∈ k.contexts) :
    k.load64 a = h := by
  rcases List.eq_nil_or_concat l with rfl | ⟨l, p, rfl⟩
  · rcases hq with ⟨rfl, rfl⟩
    exact hpl.load64_blockedWithTimeout
  · rw [List.concat_eq_append] at hq hl
    obtain ⟨-, rfl, rfl⟩ := pseg_concat.1 hq
    exact hpl.load64 (hl p (by simp)) (by decide)

theorem QSeg.ne_zero (hq : QSeg k l a h) (hpl : Placed k) (hl : ∀ p ∈ l, p ∈ k.contexts) :
    a ≠ 0 := by
  rcases List.eq_nil_or_concat l with rfl | ⟨l, p, rfl⟩
  · rcases hq with ⟨rfl, -⟩
    have := layout_le k
    unfold blockedWithTimeoutAddress startAddress at *
    omega
  · rw [List.concat_eq_append] at hq hl
    obtain ⟨-, rfl, -⟩ := pseg_concat.1 hq
    have := hpl.ne_zero (hl p (by simp))
    rw [regAddress_eq]
    omega

/-- A store to the link at the end of `l` changes the last saved `x17`, or the
core's variable. -/
theorem QSeg.store64 (hq : QSeg k l a h) (hpl : Placed k) (hl : ∀ p ∈ l, p ∈ k.contexts)
    (hnd : l.Nodup) (v : ℕ) :
    ∃ c w, k.store64 a v = { k with ctx := c, blockedWithTimeout := w } ∧
      QSeg { k with ctx := c, blockedWithTimeout := w } l a v ∧
      (∀ p u, u ≠ 21 → c p u = k.ctx p u) ∧ ∀ p u, p ∉ l → c p u = k.ctx p u := by
  rcases List.eq_nil_or_concat l with rfl | ⟨l, p, rfl⟩
  · rcases hq with ⟨rfl, rfl⟩
    refine ⟨k.ctx, v, hpl.store64_blockedWithTimeout v, ⟨rfl, rfl⟩, ?_, ?_⟩
    · intro p u _
      rfl
    · intro p u _
      rfl
  · rw [List.concat_eq_append] at hq hl hnd ⊢
    have hp : p ∈ k.contexts := hl p (by simp)
    have hpl' : p ∉ l := by
      rw [List.nodup_append] at hnd
      exact fun hmem => hnd.2.2 p hmem p (by simp) rfl
    have ha : a = regAddress p 17 := (pseg_concat.1 hq).2.1
    have hnext : (fun q => setCtx k.ctx p 21 v q 21) =
        Function.update (fun q => k.ctx q 21) p v := by
      funext q
      by_cases hqp : q = p
      · simp [hqp]
      · simp [hqp]
    have hprev : (fun q => setCtx k.ctx p 21 v q 20) = fun q => k.ctx q 20 := by
      funext q
      simp
    refine ⟨setCtx k.ctx p 21 v, k.blockedWithTimeout, ?_, ?_, ?_, ?_⟩
    · rw [ha, regAddress_eq, hpl.store64 hp (by decide) v]
      rfl
    · unfold QSeg
      simp only [hnext, hprev]
      exact pseg_retarget hpl' hq
    · intro q u hu
      simp [hu]
    · intro q u hqp
      have hne : q ≠ p := fun heq => hqp (by simp [heq])
      simp [hne]

/-- The rest of the queue, from the link at `a`. -/
def QRest (k : Kernel) (a h : ℕ) (l : List ℕ) : Prop :=
  ∃ a', PSeg (fun p => k.ctx p 21) (fun p => k.ctx p 20) (regAddress · 17) a h l a' 0

theorem QRest.head (hr : QRest k a h l) : h = l.head?.getD 0 := by
  obtain ⟨a', hr⟩ := hr
  cases l with
  | nil => exact hr.2.symm
  | cons p l => exact hr.1

/-- The place that is found: the thread waits for `m` ticks more than the
threads `l₁` before it, and for no more than the thread behind it. -/
theorem findSlot_spec {l₀ : List ℕ} (hpl : Placed k) (hl : ∀ p ∈ l₀ ++ l, p ∈ k.contexts)
    (hq : QSeg k l₀ a h) (hr : QRest k a h l) {n f : ℕ} (hf : l.length < f) (hn : 0 < n) :
    ∃ l₁ l₂ a₁ h₁ m, l = l₁ ++ l₂ ∧ findSlot k f a n = some (a₁, h₁, m) ∧
      QSeg k (l₀ ++ l₁) a₁ h₁ ∧ QRest k a₁ h₁ l₂ ∧ n = (l₁.map fun p => k.ctx p 5).sum + m ∧
      0 < m ∧ ∀ p ∈ l₂.head?, m ≤ k.ctx p 5 := by
  induction l generalizing l₀ a h n f with
  | nil =>
    obtain ⟨f, rfl⟩ := Nat.exists_eq_succ_of_ne_zero (by simp at hf; omega : f ≠ 0)
    refine ⟨[], [], a, h, n, rfl, ?_, by simpa using hq, hr, by simp, hn, by simp⟩
    have hz : h = 0 := hr.head
    have hload : k.load64 a = 0 := by
      rw [hq.load64 hpl fun p hp => hl p (by simpa using hp), hz]
    simp [findSlot, hload, hz]
  | cons p l ih =>
    obtain ⟨f, rfl⟩ := Nat.exists_eq_succ_of_ne_zero (by simp at hf; omega : f ≠ 0)
    have hp : p ∈ k.contexts := hl p (by simp)
    have hhp : h = p := hr.head
    have hload : k.load64 a = p := by
      rw [hq.load64 hpl fun q hq => hl q (by simp [hq]), hhp]
    have hdelta : k.reg p 1 = k.ctx p 5 := fld_of_mem hp 5
    -- the loop passes the threads that are due before the new one
    by_cases hgt : k.ctx p 5 < n
    · obtain ⟨a', -, hpp, hr'⟩ := hr
      have hpp : k.ctx p 20 = a := hpp
      have hq' : QSeg k (l₀ ++ [p]) (regAddress p 17) (k.ctx p 21) := by
        refine pseg_concat.2 ⟨?_, rfl, rfl⟩
        rw [hhp, ← hpp] at hq
        exact hq
      obtain ⟨l₁, l₂, a₁, h₁, m, rfl, hslot, hq₁, hr₁, hsum, hm, hle⟩ :=
        ih (by simpa using hl) hq' ⟨a', hr'⟩ (n := n - k.ctx p 5) (f := f)
          (by simp at hf ⊢; omega) (by omega)
      refine ⟨p :: l₁, l₂, a₁, h₁, m, rfl, ?_, by simpa using hq₁, hr₁, ?_, hm, hle⟩
      · unfold findSlot
        simp only [hload, hdelta]
        rw [if_pos ⟨hpl.ne_zero hp, hgt⟩]
        exact hslot
      · simp only [List.map_cons, List.sum_cons]
        omega
    · refine ⟨[], p :: l, a, h, n, rfl, ?_, by simpa using hq, hr, by simp, hn, ?_⟩
      · unfold findSlot
        simp only [hload, hdelta]
        rw [if_neg (by omega), hhp]
      · intro q hqp
        obtain rfl : p = q := by simpa using hqp
        omega

/-- What an edit of the queue does to the contexts: nothing to the ring, and
nothing to threads that are not in the queue. -/
structure QueueEdit (k k' : Kernel) (l : List ℕ) (delta : ℕ → ℕ) : Prop where
  frame : Frame k k'
  runnable : k'.runnable = k.runnable
  queue : ∃ a, QSeg k' l a 0
  delta : (fun p => k'.ctx p 5) = delta
  words : ∀ p w, w ≠ 5 → w ≠ 20 → w ≠ 21 → k'.ctx p w = k.ctx p w
  others : ∀ p w, p ∉ l → k'.ctx p w = k.ctx p w

/-- The thread `q` has `d` ticks left over, behind the link at `b`. -/
def relink (c : ℕ → ℕ → ℕ) (q d b : ℕ) : ℕ → ℕ → ℕ := setCtx (setCtx c q 5 d) q 20 b

section Relink

variable {c c' : ℕ → ℕ → ℕ} {q d b p w a' h' : ℕ}

theorem relink_of_ne (hp : p ≠ q) : relink c q d b p w = c p w := by
  simp [relink, hp]

theorem relink_word (h5 : w ≠ 5) (h20 : w ≠ 20) : relink c q d b p w = c p w := by
  simp [relink, h5, h20]

@[simp] theorem relink_delta : relink c q d b q 5 = d := by
  simp [relink]

@[simp] theorem relink_prev : relink c q d b q 20 = b := by
  simp [relink]

/-- The part of the queue without `q`. -/
theorem relink_seg (hq : q ∉ l)
    (hs : PSeg (fun p => c p 21) (fun p => c p 20) (regAddress · 17) a h l a' h') :
    PSeg (fun p => relink c q d b p 21) (fun p => relink c q d b p 20) (regAddress · 17)
      a h l a' h' := by
  have hne : ∀ p ∈ l, p ≠ q := fun p hp heq => hq (heq ▸ hp)
  exact pseg_congr (fun p hp => relink_of_ne (hne p hp)) (fun p hp => relink_of_ne (hne p hp)) hs

/-- The part from `q` on, which is as it was in `c'` up to now. -/
theorem relink_rest (hq : q ∉ l) (hsame : ∀ p ∈ q :: l, ∀ w, c p w = c' p w)
    (hs : PSeg (fun p => c' p 21) (fun p => c' p 20) (regAddress · 17) (regAddress q 17)
      (c' q 21) l a' h') :
    PSeg (fun p => relink c q d b p 21) (fun p => relink c q d b p 20) (regAddress · 17)
      b q (q :: l) a' h' := by
  refine ⟨rfl, relink_prev, relink_seg hq ?_⟩
  have h21 : relink c q d b q 21 = c' q 21 :=
    (relink_word (by decide) (by decide)).trans (hsame q List.mem_cons_self 21)
  show PSeg (fun p => c p 21) (fun p => c p 20) (regAddress · 17) (regAddress q 17)
    (relink c q d b q 21) l a' h'
  rw [h21]
  exact pseg_congr (fun p hp => hsame p (List.mem_cons_of_mem _ hp) 21)
    (fun p hp => hsame p (List.mem_cons_of_mem _ hp) 20) hs

end Relink

/-- A thread joins the queue between `l₁` and `l₂`. -/
theorem joinQueue_spec {l₁ l₂ : List ℕ} {t m : ℕ} (hpl : Placed k) (ht : t ∈ k.contexts)
    (hl : ∀ p ∈ l₁ ++ l₂, p ∈ k.contexts) (hnd : (l₁ ++ l₂).Nodup) (htl : t ∉ l₁ ++ l₂)
    (hq : QSeg k l₁ a h) (hr : QRest k a h l₂) (hm : ∀ p ∈ l₂.head?, m ≤ k.ctx p 5)
    (hb : ∀ p ∈ l₂.head?, k.ctx p 5 < 2 ^ 64) :
    QueueEdit k (joinQueue k t a h m) (l₁ ++ t :: l₂)
      (adjustHead (· - m) (Function.update (fun p => k.ctx p 5) t m) l₂) := by
  rw [List.nodup_append] at hnd
  rw [List.mem_append, not_or] at htl
  -- the three stores to the new thread's own words
  set c₃ := setCtx (setCtx (setCtx k.ctx t 5 m) t 21 h) t 20 a with hc₃
  have hother : ∀ p w, p ≠ t → c₃ p w = k.ctx p w := by
    intro p w hp
    simp [hc₃, hp]
  have hwords : ∀ p w, w ≠ 5 → w ≠ 20 → w ≠ 21 → c₃ p w = k.ctx p w := by
    intro p w h5 h20 h21
    simp [hc₃, h5, h20, h21]
  have hl₁ : ∀ p ∈ l₁, p ≠ t := fun p hp heq => htl.1 (heq ▸ hp)
  have hl₂ : ∀ p ∈ l₂, p ≠ t := fun p hp heq => htl.2 (heq ▸ hp)
  have hq₃ : QSeg (k.withCtx c₃) l₁ a h :=
    pseg_congr (fun p hp => hother p 21 (hl₁ p hp)) (fun p hp => hother p 20 (hl₁ p hp)) hq
  obtain ⟨c₄, w₄, hstore, hq₄, hw₄, hn₄⟩ := hq₃.store64 (hpl.withCtx c₃)
    (fun p hp => hl p (by simp [hp])) hnd.1 t
  have hw₄ : ∀ p w, w ≠ 21 → c₄ p w = c₃ p w := hw₄
  have hn₄ : ∀ p w, p ∉ l₁ → c₄ p w = c₃ p w := hn₄
  have ht4 : ∀ w, c₄ t w = c₃ t w := fun w => hn₄ t w htl.1
  -- the stores up to the one through the link
  have hjoin : joinQueue k t a h m =
      if h ≠ 0 then
        let k₄ : Kernel := { k.withCtx c₃ with ctx := c₄, blockedWithTimeout := w₄ }
        let k₅ := k₄.setReg h 1 ((k₄.reg h 1 + 2 ^ 64 - m) % 2 ^ 64)
        k₅.setReg h 16 (regAddress t 17)
      else { k.withCtx c₃ with ctx := c₄, blockedWithTimeout := w₄ } := by
    unfold joinQueue Kernel.setReg
    simp only [setFld_of_mem, ht, withCtx_contexts, withCtx_ctx, withCtx_withCtx]
    rw [← hc₃, hstore]
    rfl
  cases l₂ with
  | nil =>
    -- nobody is behind it
    have hz : h = 0 := hr.head
    rw [hjoin, if_neg (not_not.2 hz)]
    refine ⟨⟨rfl, rfl, rfl, rfl, rfl, rfl, rfl, rfl⟩, rfl, ?_, ?_, ?_, ?_⟩
    · refine ⟨regAddress t 17, pseg_append.2 ⟨a, t, hq₄, rfl, ?_, rfl, ?_⟩⟩
      · show c₄ t 20 = a
        simp [ht4, hc₃]
      · show 0 = c₄ t 21
        simp [ht4, hc₃, hz]
    · funext p
      show c₄ p 5 = Function.update (fun p => k.ctx p 5) t m p
      rw [hw₄ p 5 (by decide)]
      by_cases hp : p = t
      · simp [hp, hc₃]
      · simp [hp, hc₃]
    · intro p w h5 h20 h21
      exact (hw₄ p w h21).trans (hwords p w h5 h20 h21)
    · intro p w hp
      simp only [List.mem_append, List.mem_singleton, not_or] at hp
      exact (hn₄ p w hp.1).trans (hother p w hp.2)
  | cons q l₂ =>
    -- the one behind it waits for the rest of its time
    have hhq : h = q := hr.head
    subst hhq
    have hh : h ∈ k.contexts := hl h (by simp)
    have hht : h ≠ t := hl₂ h (by simp)
    have hhl₁ : h ∉ l₁ := fun hmem => hnd.2.2 h hmem h (by simp) rfl
    have hhl₂ : h ∉ l₂ := (List.nodup_cons.1 hnd.2.1).1
    have hdis : ∀ p ∈ l₁, p ∉ l₂ := fun p hp hp₂ => hnd.2.2 p hp p (by simp [hp₂]) rfl
    have hh4 : ∀ w, c₄ h w = k.ctx h w := fun w => (hn₄ h w hhl₁).trans (hother h w hht)
    have hle := hm h rfl
    have hlt := hb h rfl
    set c₅ := relink c₄ h (k.ctx h 5 - m) (regAddress t 17) with hc₅
    have hfin : joinQueue k t a h m =
        { k.withCtx c₃ with ctx := c₅, blockedWithTimeout := w₄ } := by
      rw [hjoin, if_pos (hpl.ne_zero hh)]
      have hmod : (k.ctx h 5 + 2 ^ 64 - m) % 2 ^ 64 = k.ctx h 5 - m := by omega
      have hreg : Kernel.reg { k.withCtx c₃ with ctx := c₄, blockedWithTimeout := w₄ } h 1 =
          k.ctx h 5 := (fld_of_mem (by exact hh) 5).trans (hh4 5)
      simp only [hreg, hmod]
      unfold Kernel.setReg
      rw [setFld_of_mem (k := { k.withCtx c₃ with ctx := c₄, blockedWithTimeout := w₄ }) hh]
      rw [setFld_of_mem (by exact hh)]
      rfl
    have hbehind : ∀ p ∈ h :: l₂, ∀ w, c₄ p w = k.ctx p w := by
      intro p hp w
      rcases List.mem_cons.1 hp with rfl | hp
      · exact hh4 w
      · rw [hn₄ p w (fun hp₁ => hdis p hp₁ hp), hother p w (hl₂ p (by simp [hp]))]
    rw [hfin]
    refine ⟨⟨rfl, rfl, rfl, rfl, rfl, rfl, rfl, rfl⟩, rfl, ?_, ?_, ?_, ?_⟩
    · obtain ⟨a', -, -, hr'⟩ := hr
      refine ⟨a', pseg_append.2 ⟨a, t, relink_seg hhl₁ hq₄, rfl, ?_, ?_⟩⟩
      · show c₅ t 20 = a
        rw [hc₅, relink_of_ne hht.symm, ht4]
        simp [hc₃]
      · show PSeg (fun p => c₅ p 21) (fun p => c₅ p 20) (regAddress · 17) (regAddress t 17)
          (c₅ t 21) (h :: l₂) a' 0
        have ht21 : c₅ t 21 = h := by
          rw [hc₅, relink_of_ne hht.symm, ht4]
          simp [hc₃]
        rw [ht21]
        exact relink_rest hhl₂ hbehind hr'
    · funext p
      show c₅ p 5 = adjustHead (· - m) (Function.update (fun p => k.ctx p 5) t m) (h :: l₂) p
      rw [adjustHead_cons]
      by_cases hp : p = h
      · subst hp
        simp [hc₅, hht]
      · rw [Function.update_of_ne hp, hc₅, relink_of_ne hp, hw₄ p 5 (by decide)]
        by_cases hpt : p = t
        · simp [hpt, hc₃]
        · simp [hpt, hc₃]
    · intro p w h5 h20 h21
      show c₅ p w = k.ctx p w
      rw [hc₅, relink_word h5 h20, hw₄ p w h21, hwords p w h5 h20 h21]
    · intro p w hp
      simp only [List.mem_append, List.mem_cons, not_or] at hp
      show c₅ p w = k.ctx p w
      rw [hc₅, relink_of_ne hp.2.2.1, hn₄ p w hp.1, hother p w hp.2.1]

/-- A thread leaves the queue from between `l₁` and `l₂`. -/
theorem leaveQueue_spec {l₁ l₂ : List ℕ} {t : ℕ} (hpl : Placed k)
    (hl : ∀ p ∈ l₁ ++ t :: l₂, p ∈ k.contexts) (hnd : (l₁ ++ t :: l₂).Nodup)
    (hq : QSeg k (l₁ ++ t :: l₂) a 0)
    (hb : ∀ p ∈ l₂.head?, k.ctx p 5 + k.ctx t 5 < 2 ^ 64) :
    QueueEdit k (leaveQueue k t) (l₁ ++ l₂)
      (adjustHead (· + k.ctx t 5) (fun p => k.ctx p 5) l₂) := by
  have ht : t ∈ k.contexts := hl t (by simp)
  have hl' : ∀ p ∈ l₁, p ∈ k.contexts := fun p hp => hl p (by simp [hp])
  rw [List.nodup_append, List.nodup_cons] at hnd
  obtain ⟨b, g, hq₁, rfl, hpp, hr⟩ := pseg_append.1 hq
  have hpp : k.ctx g 20 = b := hpp
  have hq₁ : QSeg k l₁ b g := hq₁
  have hb0 : b ≠ 0 := hq₁.ne_zero hpl hl'
  have h16 : k.reg g 16 = b := (fld_of_mem ht 20).trans hpp
  have h17 : k.reg g 17 = k.ctx g 21 := fld_of_mem ht 21
  obtain ⟨c₄, w₄, hstore, hq₄, hw₄, hn₄⟩ := hq₁.store64 hpl hl' hnd.1 (k.ctx g 21)
  have hgl₁ : g ∉ l₁ := fun hmem => hnd.2.2 g hmem g (by simp) rfl
  have hg4 : ∀ w, c₄ g w = k.ctx g w := fun w => hn₄ g w hgl₁
  have hleave : leaveQueue k g =
      if k.ctx g 21 ≠ 0 then
        let k₄ : Kernel := { k with ctx := c₄, blockedWithTimeout := w₄ }
        let k₅ := k₄.setReg (k.ctx g 21) 1
          ((k₄.reg (k.ctx g 21) 1 + k₄.reg g 1) % 2 ^ 64)
        k₅.setReg (k.ctx g 21) 16 (k₅.reg g 16)
      else { k with ctx := c₄, blockedWithTimeout := w₄ } := by
    unfold leaveQueue
    simp only [h16, h17, hstore]
    rw [if_pos hb0]
  cases l₂ with
  | nil =>
    -- it is the last
    have hz : k.ctx g 21 = 0 := hr.2.symm
    rw [hleave, if_neg (not_not.2 hz)]
    rw [hz] at hq₄
    refine ⟨⟨rfl, rfl, rfl, rfl, rfl, rfl, rfl, rfl⟩, rfl, ⟨b, by simpa using hq₄⟩, ?_, ?_, ?_⟩
    · funext p
      exact hw₄ p 5 (by decide)
    · intro p w h5 h20 h21
      exact hw₄ p w h21
    · intro p w hp
      exact hn₄ p w (by simpa using hp)
  | cons q l₂ =>
    -- the one behind it gets what it had to wait for
    obtain ⟨hgq, hqp, hr'⟩ := hr
    have hgq : k.ctx g 21 = q := hgq
    rw [hgq] at hq₄
    have hqm : q ∈ k.contexts := hl q (by simp)
    have hql₁ : q ∉ l₁ := fun hmem => hnd.2.2 q hmem q (by simp) rfl
    have hql₂ : q ∉ l₂ := (List.nodup_cons.1 hnd.2.1.2).1
    have hqg : q ≠ g := fun heq => hnd.2.1.1 (by simp [heq])
    have hq4 : ∀ w, c₄ q w = k.ctx q w := fun w => hn₄ q w hql₁
    have hlt := hb q rfl
    set c₅ := relink c₄ q (k.ctx q 5 + k.ctx g 5) b with hc₅
    have hfin : leaveQueue k g = { k with ctx := c₅, blockedWithTimeout := w₄ } := by
      rw [hleave, hgq, if_pos (hpl.ne_zero hqm)]
      have hreg : ∀ p ∈ k.contexts, Kernel.reg
          { k with ctx := c₄, blockedWithTimeout := w₄ } p 1 = c₄ p 5 :=
        fun p hp => fld_of_mem (by exact hp) 5
      have hset : Kernel.setReg { k with ctx := c₄, blockedWithTimeout := w₄ } q 1
          (k.ctx q 5 + k.ctx g 5) = { k with
            ctx := setCtx c₄ q 5 (k.ctx q 5 + k.ctx g 5)
            blockedWithTimeout := w₄ } := setFld_of_mem (by exact hqm) _ _
      have h20 : Kernel.reg { k with
            ctx := setCtx c₄ q 5 (k.ctx q 5 + k.ctx g 5)
            blockedWithTimeout := w₄ } g 16 = b := by
        refine (fld_of_mem (by exact ht) 20).trans ?_
        show setCtx c₄ q 5 _ g 20 = b
        simp [hg4, hpp]
      simp only [hreg q hqm, hreg g ht, hq4, hg4, Nat.mod_eq_of_lt hlt, hset, h20]
      exact setFld_of_mem (by exact hqm) _ _
    have hbehind : ∀ p ∈ q :: l₂, ∀ w, c₄ p w = k.ctx p w := fun p hp w =>
      hn₄ p w fun hp₁ => hnd.2.2 p hp₁ p (List.mem_cons_of_mem _ hp) rfl
    rw [hfin]
    refine ⟨⟨rfl, rfl, rfl, rfl, rfl, rfl, rfl, rfl⟩, rfl, ?_, ?_, ?_, ?_⟩
    · exact ⟨a, pseg_append.2 ⟨b, q, relink_seg hql₁ hq₄, relink_rest hql₂ hbehind hr'⟩⟩
    · funext p
      show c₅ p 5 = adjustHead (· + k.ctx g 5) (fun p => k.ctx p 5) (q :: l₂) p
      rw [adjustHead_cons]
      by_cases hp : p = q
      · subst hp
        simp [hc₅]
      · rw [Function.update_of_ne hp, hc₅, relink_of_ne hp, hw₄ p 5 (by decide)]
    · intro p w h5 h20 h21
      show c₅ p w = k.ctx p w
      rw [hc₅, relink_word h5 h20, hw₄ p w h21]
    · intro p w hp
      simp only [List.mem_append, List.mem_cons, not_or] at hp
      show c₅ p w = k.ctx p w
      rw [hc₅, relink_of_ne hp.2.1, hn₄ p w hp.1]

end Queue

/-! ## Joining the ring -/

/-- The contexts after the threads `es` have joined the ring of `t`, each of them
behind it, and have been told that their time is over. -/
structure Expired (c c' : ℕ → ℕ → ℕ) (t : ℕ) (rs es : List ℕ) : Prop where
  ring : Ring (nextOf c') (prevOf c') t (es.reverse ++ rs)
  links : ∀ p, p ∉ t :: rs → p ∉ es → nextOf c' p = nextOf c p ∧ prevOf c' p = prevOf c p
  owners : ∀ p, c' p 2 = c p 2 ∨ c' p 2 = c t 2
  words : ∀ p w, 3 ≤ w → w ≠ 4 → w ≠ 38 → c' p w = c p w
  told : ∀ p ∈ es, c' p 4 = 2 ^ 64 - 1 ∧ c' p 38 = 0
  others : ∀ p, p ∉ es → c' p 4 = c p 4 ∧ c' p 38 = c p 38

/-- One more thread joins behind `t`. -/
theorem linkAfter_ring {c : ℕ → ℕ → ℕ} {t e : ℕ} {ring : List ℕ}
    (hr : Ring (nextOf c) (prevOf c) t ring) (hnd : (t :: ring).Nodup) (he : e ∉ t :: ring) :
    Ring (nextOf (linkAfter c e t)) (prevOf (linkAfter c e t)) t (e :: ring) := by
  have het : e ≠ t := fun heq => he (by simp [heq])
  rw [linkAfter_next, linkAfter_prev het]
  exact ring_insert_after hr hnd he

/-- The links of threads outside the ring are left alone. -/
theorem linkAfter_links {c : ℕ → ℕ → ℕ} {t e p : ℕ} {ring : List ℕ}
    (hr : Ring (nextOf c) (prevOf c) t ring) (het : e ≠ t) (hp : p ∉ t :: ring) (hpe : p ≠ e) :
    nextOf (linkAfter c e t) p = nextOf c p ∧ prevOf (linkAfter c e t) p = prevOf c p := by
  have hpt : p ≠ t := fun heq => hp (by simp [heq])
  have hpn : p ≠ nextOf c t := by
    intro heq
    exact hp (heq ▸ (ring_closed hr t List.mem_cons_self).1)
  rw [linkAfter_next, linkAfter_prev het]
  exact ⟨by rw [Function.update_of_ne hpt, Function.update_of_ne hpe],
    by rw [Function.update_of_ne hpn, Function.update_of_ne hpe]⟩

/-- One round of the loop of a tick. -/
def expireOne (c : ℕ → ℕ → ℕ) (e t : ℕ) : ℕ → ℕ → ℕ :=
  linkAfter (setCtx (setCtx c e 4 (2 ^ 64 - 1)) e 38 0) e t

theorem expireOne_expired {c : ℕ → ℕ → ℕ} {e t : ℕ} {rs : List ℕ}
    (hr : Ring (nextOf c) (prevOf c) t rs) (hnd : (t :: rs).Nodup) (he : e ∉ t :: rs) :
    Expired c (expireOne c e t) t rs [e] := by
  have het : e ≠ t := fun heq => he (by simp [heq])
  set c₀ := setCtx (setCtx c e 4 (2 ^ 64 - 1)) e 38 0 with hc₀
  have hn₀ : nextOf c₀ = nextOf c := by
    rw [hc₀, nextOf_setCtx (by decide), nextOf_setCtx (by decide)]
  have hp₀ : prevOf c₀ = prevOf c := by
    rw [hc₀, prevOf_setCtx (by decide), prevOf_setCtx (by decide)]
  have hr₀ : Ring (nextOf c₀) (prevOf c₀) t rs := by
    rw [hn₀, hp₀]
    exact hr
  have hword : ∀ p w, 3 ≤ w → expireOne c e t p w = c₀ p w := fun p w hw => linkAfter_other hw
  refine ⟨linkAfter_ring hr₀ hnd he, ?_, ?_, ?_, ?_, ?_⟩
  · intro p hp hpe
    have hpe' : p ≠ e := fun heq => hpe (by simp [heq])
    rw [← hn₀, ← hp₀]
    exact linkAfter_links hr₀ het hp hpe'
  · intro p
    have hlist : expireOne c e t p 2 = if p = e then c₀ t 2 else c₀ p 2 := linkAfter_list het p
    rw [hlist]
    split
    · right
      simp [hc₀]
    · left
      simp [hc₀]
  · intro p w hw h4 h38
    rw [hword p w hw]
    simp [hc₀, h4, h38]
  · intro p hp
    obtain rfl : p = e := by simpa using hp
    rw [hword p 4 (by decide), hword p 38 (by decide)]
    simp [hc₀]
  · intro p hp
    have hpe : p ≠ e := fun heq => hp (by simp [heq])
    rw [hword p 4 (by decide), hword p 38 (by decide)]
    simp [hc₀, hpe]

theorem Expired.trans {c c₁ c₂ : ℕ → ℕ → ℕ} {e t : ℕ} {rs es : List ℕ}
    (h₁ : Expired c c₁ t rs [e]) (h₂ : Expired c₁ c₂ t (e :: rs) es) (he : e ∉ es) :
    Expired c c₂ t rs (e :: es) := by
  refine ⟨?_, ?_, ?_, ?_, ?_, ?_⟩
  · have := h₂.ring
    simpa using this
  · intro p hp hpe
    simp only [List.mem_cons, not_or] at hp hpe
    have hl₂ := h₂.links p (by simp [hp, hpe.1]) hpe.2
    have hl₁ := h₁.links p (by simp [hp]) (by simp [hpe.1])
    exact ⟨hl₂.1.trans hl₁.1, hl₂.2.trans hl₁.2⟩
  · intro p
    have ht : c₁ t 2 = c t 2 := by
      rcases h₁.owners t with h | h
      · exact h
      · exact h
    rcases h₂.owners p with h | h
    · rcases h₁.owners p with h' | h'
      · exact .inl (h.trans h')
      · exact .inr (h.trans h')
    · exact .inr (h.trans ht)
  · intro p w hw h4 h38
    exact (h₂.words p w hw h4 h38).trans (h₁.words p w hw h4 h38)
  · intro p hp
    by_cases hpes : p ∈ es
    · exact h₂.told p hpes
    · obtain rfl : p = e := by simpa [hpes] using hp
      have := h₁.told p (by simp)
      have ho := h₂.others p hpes
      exact ⟨ho.1.trans this.1, ho.2.trans this.2⟩
  · intro p hp
    simp only [List.mem_cons, not_or] at hp
    have ho₂ := h₂.others p hp.2
    have ho₁ := h₁.others p (by simp [hp.1])
    exact ⟨ho₂.1.trans ho₁.1, ho₂.2.trans ho₁.2⟩

theorem expire_succ {k : Kernel} {t e f : ℕ} (he : e ∈ k.contexts) (ht : t ∈ k.contexts)
    (hnext : k.ctx t 0 ∈ k.contexts) (het : e ≠ t) :
    expire t (f + 1) k e =
      if k.ctx e 21 ≠ 0 ∧ (k.withCtx (expireOne k.ctx e t)).reg (k.ctx e 21) 1 = 0 then
        expire t f (k.withCtx (expireOne k.ctx e t)) (k.ctx e 21)
      else some (k.withCtx (expireOne k.ctx e t), k.ctx e 21) := by
  set c₀ := setCtx (setCtx k.ctx e 4 (2 ^ 64 - 1)) e 38 0 with hc₀
  have hins : insertNewThreadAfterOld (k.withCtx c₀) e t =
      k.withCtx (expireOne k.ctx e t) := by
    have hn : (k.withCtx c₀).ctx t 0 ∈ (k.withCtx c₀).contexts := by
      simpa [hc₀, het.symm] using hnext
    exact insertNewThreadAfterOld_eq (k := k.withCtx c₀) he ht hn het
  have h17 : (k.withCtx (expireOne k.ctx e t)).reg e 17 = k.ctx e 21 := by
    refine (fld_of_mem (by exact he) 21).trans ?_
    show linkAfter c₀ e t e 21 = k.ctx e 21
    rw [linkAfter_other (by decide)]
    simp [hc₀]
  rw [expire]
  unfold Kernel.setReg Kernel.setGate
  simp only [setFld_of_mem, he, withCtx_contexts, withCtx_ctx, withCtx_withCtx]
  rw [← hc₀, hins, h17]

/-- The loop of a tick, over the threads `e :: es` of the queue up to the thread
`g`: all but the first of them have no further ticks to wait. -/
theorem expire_spec {k : Kernel} {t g f e : ℕ} {rs es : List ℕ}
    (hr : Ring (nextOf k.ctx) (prevOf k.ctx) t rs) (hnd : (t :: rs).Nodup)
    (hring : ∀ p ∈ t :: rs, p ∈ k.contexts) (hes : ∀ p ∈ e :: es, p ∈ k.contexts)
    (hesnd : (e :: es).Nodup) (hdis : ∀ p ∈ e :: es, p ∉ t :: rs) (hne : ∀ p ∈ k.contexts, p ≠ 0)
    (hseg : Seg (fun p => k.ctx p 21) (k.ctx e 21) es g) (hz : ∀ p ∈ es, k.ctx p 5 = 0)
    (hg : g = 0 ∨ (g ∈ k.contexts ∧ k.ctx g 5 ≠ 0)) (hf : es.length < f) :
    ∃ c', expire t f k e = some (k.withCtx c', g) ∧ Expired k.ctx c' t rs (e :: es) := by
  -- the induction is on the threads behind `e` whose time is over as well
  induction es generalizing k e f rs with
  | nil =>
    obtain ⟨f, rfl⟩ := Nat.exists_eq_succ_of_ne_zero (by simp at hf; omega : f ≠ 0)
    have het : e ≠ t := fun heq => hdis e (by simp) (by simp [heq])
    have hone := expireOne_expired hr hnd (hdis e (by simp))
    refine ⟨expireOne k.ctx e t, ?_, hone⟩
    have hge : k.ctx e 21 = g := hseg
    -- the next one, if there is one, has time left: the loop ends
    rw [expire_succ (hes e (by simp)) (hring t (by simp))
      (hring _ (ring_closed hr t List.mem_cons_self).1) het, hge, if_neg]
    rintro ⟨hg0, hreg⟩
    rcases hg with hg | ⟨hgm, hg5⟩
    · exact hg0 hg
    · have h5 : (k.withCtx (expireOne k.ctx e t)).reg g 1 = k.ctx g 5 :=
        (fld_of_mem (by exact hgm) 5).trans (hone.words g 5 (by decide) (by decide) (by decide))
      exact hg5 (h5.symm.trans hreg)
  | cons q es ih =>
    obtain ⟨f, rfl⟩ := Nat.exists_eq_succ_of_ne_zero (by simp at hf; omega : f ≠ 0)
    have het : e ≠ t := fun heq => hdis e (by simp) (by simp [heq])
    have hone := expireOne_expired hr hnd (hdis e (by simp))
    obtain ⟨heq, hseg⟩ := hseg
    have heq : k.ctx e 21 = q := heq
    have hqm : q ∈ k.contexts := hes q (by simp)
    have hw := hone.words
    have hend : e ∉ q :: es := (List.nodup_cons.1 hesnd).1
    have h5 : (k.withCtx (expireOne k.ctx e t)).reg q 1 = 0 :=
      (fld_of_mem (by exact hqm) 5).trans
        ((hw q 5 (by decide) (by decide) (by decide)).trans (hz q (by simp)))
    -- the rest of the loop, from the state after this round
    obtain ⟨c', hexp, hexd⟩ := ih (k := k.withCtx (expireOne k.ctx e t)) (e := q) (f := f)
      (show Ring _ _ t (e :: rs) from hone.ring)
      (by
        rw [List.nodup_cons] at hnd ⊢
        refine ⟨?_, List.nodup_cons.2 ⟨?_, hnd.2⟩⟩
        · simp only [List.mem_cons, not_or]
          exact ⟨Ne.symm het, hnd.1⟩
        · exact fun hmem => hdis e (by simp) (by simp [hmem]))
      (by
        intro p hp
        simp only [List.mem_cons] at hp
        rcases hp with rfl | rfl | hp
        · exact hring p (by simp)
        · exact hes p (by simp)
        · exact hring p (by simp [hp]))
      (fun p hp => hes p (by simp only [List.mem_cons] at hp ⊢; tauto))
      (List.nodup_cons.1 hesnd).2
      (by
        intro p hp hmem
        simp only [List.mem_cons] at hmem
        rcases hmem with rfl | rfl | hmem
        · exact hdis p (by simp only [List.mem_cons] at hp ⊢; tauto) (by simp)
        · exact hend hp
        · exact hdis p (by simp only [List.mem_cons] at hp ⊢; tauto) (by simp [hmem]))
      hne
      (by
        show Seg (fun p => expireOne k.ctx e t p 21) (expireOne k.ctx e t q 21) es g
        rw [hw q 21 (by decide) (by decide) (by decide)]
        exact seg_congr (fun p _ => hw p 21 (by decide) (by decide) (by decide)) hseg)
      (fun p hp => (hw p 5 (by decide) (by decide) (by decide)).trans (hz p (by simp [hp])))
      (by
        rcases hg with hg | ⟨hgm, hg5⟩
        · exact .inl hg
        · refine .inr ⟨hgm, ?_⟩
          show expireOne k.ctx e t g 5 ≠ 0
          rw [hw g 5 (by decide) (by decide) (by decide)]
          exact hg5)
      (by simp at hf; omega)
    refine ⟨c', ?_, hone.trans hexd hend⟩
    rw [expire_succ (hes e (by simp)) (hring t (by simp))
      (hring _ (ring_closed hr t List.mem_cons_self).1) het, heq, if_pos ⟨hne q hqm, h5⟩, hexp]
    rfl

end Isambard.El1
