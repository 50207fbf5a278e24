import Isambard.El1.SystemCalls

/-!
# El1.KernelSteps — every step of a core

A thread enters the kernel by a supervisor call, by an abort or by an interrupt, and the kernel
leaves to the thread that is to run. Whatever it was, the invariant of the core holds again, and
the threads have made one step between their domains.

* `SvcOk`, `EventOk`: what the step needs of the thread that enters;
* `svcAction`, `eventAction`: the step of the domains;
* `handleSvc_served`: the supervisor calls, one by one;
* `kernelStep_inv`: the step.
-/

namespace Isambard.El1

open Isambard.Lib

/-! ## What a step needs -/

/-- The running thread has not left its outermost frame. -/
def HasFrame (k : Kernel) : Prop := k.ctx k.runnable 41 ≠ frameAddress k.runnable 6

/-- The register holds an index of the table. -/
def InTable (k : Kernel) (i : ℕ) : Prop := k.ctx k.runnable (4 + i) % 2 ^ 32 ≠ tableSize

/-- Another thread is runnable. -/
def NotAlone (k : Kernel) : Prop := k.ctx k.runnable 0 ≠ k.runnable

/-- The running thread is not the one that serves the interrupts. -/
def NoInterrupt (k : Kernel) : Prop := k.runnable ≠ k.interruptThread

/-- What a supervisor call needs: codes of threads that were created, lock words that name the
threads that wait, a frame to read, and another thread to run when this one cannot. The interrupt
thread waits at its gate only. -/
def SvcOk (k : Kernel) : Svc → Prop
  | .gate => (k.ctx k.runnable 4 ≠ 0 → threadFromCode (k.ctx k.runnable 4) ∈ k.contexts) ∧
      (k.ctx k.runnable 4 = 0 → NoInterrupt k → NotAlone k)
  | .duplicateToReturn => HasFrame k ∧ InTable k 0
  | .duplicateToPass => InTable k 0 ∧ InTable k 1
  | .interfaceToReturn => HasFrame k
  | .interfaceToPass => InTable k 0
  | .lockWait => LockOk k
  | .lockRelease => LockNames k k.runnable (k.load64 (k.ctx k.runnable 21) / 2 ^ 32) ∧
      (k.runnable = k.interruptThread → NobodyWaits k)
  | .yield => NoInterrupt k
  | .call => InTable k 0
  | .ret => HasFrame k
  | .switchToPartner => NoInterrupt k ∧ NotAlone k
  | .changeVmSystemRegister => threadFromCode (k.ctx k.runnable 4) ∈ k.contexts ∧
      k.contextAt (vmWordAddress k k.runnable) = none
  | .systemRequest => ∀ r, Request.ofCode (k.ctx k.runnable 4) = some r → RequestOk k r
  | .invalidateAllCaches | .exception | .getPartnerReg | .setPartnerReg => True

/-- The interrupt thread runs with interrupts off. -/
def EventOk (k : Kernel) : Event → Prop
  | .svc number => ∀ s, Svc.ofNumber number = some s → SvcOk k s
  | .abort faultAddress => faultAddress < 2 ^ 34
  | .irq => NoInterrupt k

/-! ## What a step does to the domains -/

/-- A call that the kernel answers itself leaves no frame. -/
def svcAction (k k' : Kernel) : Svc → KernelAction
  | .duplicateToReturn | .duplicateToPass | .interfaceToReturn | .interfaceToPass => granting k k'
  | .call =>
    if depth k'.ctx k.runnable = depth k.ctx k.runnable then .internal
    else .call k.runnable (k.ctx k.runnable 4 % 2 ^ 32) (k.spEl0, k.ctx k.runnable 36)
  | .ret => .ret k.runnable (k'.spEl0, k'.ctx k.runnable 36)
  | .systemRequest => (Request.ofCode (k.ctx k.runnable 4)).elim .internal (requestAction k k')
  | _ => .internal

def eventAction (k k' : Kernel) : Event → KernelAction
  | .svc number => (Svc.ofNumber number).elim .internal (svcAction k k')
  | _ => .internal

section Svc

variable {k k' : Kernel} {now number : ℕ} {O : ℕ → Prop}

theorem eventAction_svc {s : Svc} (hn : Svc.ofNumber number = some s) :
    eventAction k k' (.svc number) = svcAction k k' s := by
  simp only [eventAction, hn, Option.elim_some]

theorem isReturn_svc {s : Svc} (hn : Svc.ofNumber number = some s) :
    (Event.svc number).isReturn = true ↔ s = .ret := by
  simp only [Event.isReturn, hn, beq_iff_eq, Option.some_inj]

theorem handleCall_served (h : KernelInv O k) (hi : InTable k 0)
    (hok : handleCall k k.runnable = .ok k' now) : Served O k k' (svcAction k k' .call) now := by
  have hlast := (handleCall_grows k k.runnable).grows hok |>.lastInterface
  obtain ⟨rfl, ⟨hl, hd⟩ | ⟨e, j, hcall⟩⟩ := handleCall_ok h hi hok
  · have hsame : depth k'.ctx k.runnable = depth k.ctx k.runnable := by
      unfold depth
      rw [hd.rows _ 41 (by decide)]
    unfold svcAction
    rw [if_pos hsame]
    exact Quiet.served ⟨hl, hd⟩ h hlast
  · have hdeeper : depth k'.ctx k.runnable ≠ depth k.ctx k.runnable := by
      rw [depth_eq hcall.pointer, depth_eq hcall.before]
      omega
    unfold svcAction
    rw [if_neg hdeeper]
    exact hcall.served h

/-- The supervisor calls. -/
theorem handleSvc_served (h : KernelInv O k) (hreg : k.ctx k.runnable 5 < 2 ^ 64)
    (hsvc : ∀ s, Svc.ofNumber number = some s → SvcOk k s)
    (hok : handleSvc k k.runnable number = .ok k' now) :
    ∃ s, Svc.ofNumber number = some s ∧ Served O k k' (svcAction k k' s) now := by
  obtain ⟨rs, qs, rem, hs⟩ := h.sched
  unfold handleSvc at hok
  cases hn : Svc.ofNumber number with
  | none =>
    rw [hn] at hok
    cases hok
  | some s =>
    have hsok := hsvc s hn
    rw [hn] at hok
    refine ⟨s, rfl, ?_⟩
    cases s with
    | invalidateAllCaches =>
      cases hok
      exact (Quiet.refl k).served h rfl
    | gate =>
      have hlast := (handleSvcGate_grows k k.runnable).grows hok |>.lastInterface
      exact (handleSvcGate_sched hs hreg hsok.1 (fun h0 hi => hs.others (hsok.2 h0 hi)) hok).served
        h hlast
    | duplicateToReturn => exact handleSvcDuplicateToReturn_served h hsok.1 hsok.2 hok
    | duplicateToPass => exact handleSvcDuplicateToPassTo_served h hsok.1 hsok.2 hok
    | interfaceToReturn => exact handleSvcInterfaceToReturn_served h hsok hok
    | interfaceToPass => exact handleSvcInterfaceToPassTo_served h hsok hok
    | lockWait =>
      have hlast := (handleSvcWaitForLock_grows k k.runnable).grows hok |>.lastInterface
      exact (handleSvcWaitForLock_sched hs hsok hok).served h hlast
    | lockRelease =>
      have hlast := (handleSvcReleaseLock_grows k k.runnable).grows hok |>.lastInterface
      exact (handleSvcReleaseLock_sched hs hsok.1 hsok.2 hok).served h hlast
    | yield =>
      have hlast := (handleYield_grows k k.runnable).grows hok |>.lastInterface
      exact (handleYield_sched hs hsok hok).served h hlast
    | call => exact handleCall_served h hsok hok
    | ret =>
      obtain ⟨rfl, j, hret⟩ := handleReturn_ok h hsok hok
      exact hret.served h
    | exception => cases hok
    | switchToPartner =>
      have hlast := (handleSwitchToPartner_grows k k.runnable).grows hok |>.lastInterface
      exact (handleSwitchToPartner_sched hs hsok.1 (hs.others hsok.2) hok).served h hlast
    | getPartnerReg =>
      have hlast := (handleGetPartnerReg_grows k k.runnable).grows hok |>.lastInterface
      obtain ⟨rfl, hk⟩ := handleGetPartnerReg_quiet h hok
      exact hk.served h hlast
    | setPartnerReg =>
      have hlast := (handleSetPartnerReg_grows k k.runnable).grows hok |>.lastInterface
      obtain ⟨rfl, hk⟩ := handleSetPartnerReg_quiet h hok
      exact hk.served h hlast
    | changeVmSystemRegister =>
      have hlast := (handleChangeVmSystemRegister_grows k k.runnable).grows hok |>.lastInterface
      obtain ⟨rfl, hk⟩ := handleChangeVmSystemRegister_quiet h hsok.1 hsok.2 hok
      exact hk.served h hlast
    | systemRequest =>
      obtain ⟨r, hr, hserved⟩ := systemDriverRequest_served h hsok hok
      unfold svcAction
      rw [hr]
      exact hserved

end Svc

/-! ## Entering and leaving -/

section Steps

variable {k k' k₁ k₂ : Kernel} {t now m : ℕ} {r : Regs} {e : Event} {x : KernelAction}
  {O : ℕ → Prop}

/-- What the vector code stores when a thread enters. -/
theorem enter_quiet (h : KernelInv O k) (r : Regs) : Quiet k (enter k k.runnable r) := by
  obtain ⟨rs, qs, rem, hs⟩ := h.sched
  obtain ⟨hframe, hrun, hqueue, hblocked, huser, hwords, hothers⟩ := enter_entered k k.runnable r
  refine ⟨⟨hframe.layout, hframe.contexts, hframe.heapBottom, hframe.interruptThread, hrun, hqueue,
    ?_, ?_, ?_, ?_⟩, ⟨hframe.contexts, ?_, hframe.interfaces, hframe.freeInterface, rfl⟩⟩
  · exact fun p w hw => hwords p w (.inl hw)
  · exact fun p => .inl (hwords p 38 (by decide))
  · intro p _ hheld
    have hp : p ≠ k.runnable := by
      rintro rfl
      exact hheld.elim hs.runs.1 hs.runs.2
    refine ⟨hothers p 5 hp, hothers p 20 hp, ?_⟩
    unfold lockOf
    rw [hothers p 21 hp, hothers p 39 hp]
  · rintro p _ ⟨hpointer, hlimit⟩
    refine ⟨?_, ?_⟩
    · rw [hwords p 41 (by decide)]
      exact hpointer
    · rw [hwords p 42 (by decide)]
      exact hlimit
  · exact fun p w hw => hwords p w (by omega)

/-- What it stores when another thread is to run. -/
theorem leave_stores (k : Kernel) (t now : ℕ) (r : Regs) : Left k (leave k t now r) t :=
  leave_left (rfl : k = { k with loadedMap := k.loadedMap, l1 := k.l1, l2 := k.l2, l3 := k.l3 })

/-- No thread that waits has these words in use. -/
theorem leave_lists (k : Kernel) (t now : ℕ) (r : Regs) : KeepsLists k (leave k t now r) := by
  obtain ⟨hframe, hrun, hqueue, hblocked, huser, hwords, hothers⟩ := leave_stores k t now r
  refine ⟨hframe.layout, hframe.contexts, hframe.heapBottom, hframe.interruptThread, hrun, hqueue,
    ?_, ?_, ?_, ?_⟩
  · exact fun p w hw => hwords p w (by omega)
  · exact fun p => .inl (hwords p 38 (by decide))
  · intro p _ _
    refine ⟨hwords p 5 (by decide), hwords p 20 (by decide), ?_⟩
    unfold lockOf
    rw [hwords p 21 (by decide), hwords p 39 (by decide)]
  · rintro p _ ⟨hpointer, hlimit⟩
    refine ⟨?_, ?_⟩
    · rw [hwords p 41 (by decide)]
      exact hpointer
    · rw [hwords p 42 (by decide)]
      exact hlimit

theorem leave_world (k : Kernel) (t now : ℕ) (r : Regs) : world (leave k t now r) = world k := by
  obtain ⟨hframe, -, -, -, -, hwords, -⟩ := leave_stores k t now r
  exact world_congr hframe.contexts
    (fun p _ => activity_congr fun w hw => hwords p w (by omega)) hframe.interfaces
    hframe.freeInterface

/-- The exit of the kernel loads the map of the thread that is to run. -/
theorem syncCode_served (h : Served O k k₁ x m) (hs : syncCode k.runnable (.ok k₁ m) = .ok k₂ now) :
    now = m ∧ (∃ n l1 l2 l3, k₂ = { k₁ with loadedMap := n, l1 := l1, l2 := l2, l3 := l3 }) ∧
      k₂.loadedMap = k₂.currentMap now := by
  obtain rfl := syncCode_now hs
  refine ⟨rfl, (syncCode_ok hs h.mem).2, ?_⟩
  by_cases hsame : k₁.currentMap now = k₁.currentMap k.runnable
  · exact syncCode_loaded hs h.mem (h.loaded hsame)
  · -- another map is loaded, whichever was
    unfold syncCode at hs
    simp only at hs
    rw [if_pos hsame] at hs
    cases hc : changeMap k₁ now (k₁.currentMap now) with
    | halt k₃ =>
      rw [hc] at hs
      cases hs
    | ok k₃ u =>
      obtain ⟨l1, l2, l3, hk₃⟩ := changeMap_own h.mem hc
      rw [hc] at hs
      simp only at hs
      split at hs
      · cases hs
      · cases hs
        have hload : k₂.loadedMap = k₁.currentMap now := by rw [hk₃]
        rw [hload]
        exact (currentMap_congr h.mem (by rw [hk₃]; exact h.mem) (by rw [hk₃])).symm

/-- What is left when the kernel has returned to EL0. -/
theorem Served.leaves (h : Served O k k₁ x m) (hinv : KernelInv O k)
    (hs : syncCode k.runnable (.ok k₁ m) = .ok k₂ now) :
    KernelInv O (leave k₂ k.runnable now r) ∧ (leave k₂ k.runnable now r).runnable = now ∧
      Domains.Step IsExit (world k) x (world (leave k₂ k.runnable now r)) := by
  obtain ⟨rfl, ⟨n, l1, l2, l3, hk₂⟩, hload⟩ := syncCode_served h hs
  have hserved : Served O k k₂ x now := by
    refine h.mapped hk₂ fun heq => ?_
    rw [hload, heq]
  obtain ⟨rs, qs, rem, hsched⟩ := hserved.sched
  have hlists := leave_lists k₂ k.runnable now r
  have hworld := leave_world k₂ k.runnable now r
  have hframe := (leave_stores k₂ k.runnable now r).frame
  refine ⟨⟨⟨rs, qs, rem, hsched.congr hlists⟩,
    hserved.table.congr hframe.interfaces hframe.freeInterface hframe.lastInterface, ?_, ?_⟩, ?_,
    ?_⟩
  · have hslot : IsSlot (leave k₂ k.runnable now r) = IsSlot k₂ := by
      funext i
      exact propext (isSlot_congr hframe.freeInterface)
    rw [hworld, hslot]
    exact hserved.closed hinv.table hinv.closed
  · rw [hlists.runnable, hserved.runnable]
    exact leave_loaded hload hserved.mem
  · exact hlists.runnable.trans hserved.runnable
  · rw [hworld]
    exact hserved.step

/-- The actions are about the interfaces, the contexts and the frames, and a return about the
registers that it sets. -/
theorem eventAction_congr (hi : k₂.interfaces = k'.interfaces) (hc : k₂.contexts = k'.contexts)
    (h41 : k₂.ctx k.runnable 41 = k'.ctx k.runnable 41)
    (hret : e.isReturn = true →
      k₂.spEl0 = k'.spEl0 ∧ k₂.ctx k.runnable 36 = k'.ctx k.runnable 36) :
    eventAction k k₂ e = eventAction k k' e := by
  have hgrant : granting k k₂ = granting k k' := by
    unfold granting newCap
    rw [hi]
  have hdepth : depth k₂.ctx k.runnable = depth k'.ctx k.runnable := by
    unfold depth
    rw [h41]
  have hrequest : requestAction k k₂ = requestAction k k' := by
    funext r
    exact requestAction_congr hi hc
  cases e with
  | abort fa => rfl
  | irq => rfl
  | svc number =>
    cases hn : Svc.ofNumber number with
    | none => simp only [eventAction, hn, Option.elim_none]
    | some s =>
      rw [eventAction_svc hn, eventAction_svc hn]
      cases s with
      | duplicateToReturn | duplicateToPass | interfaceToReturn | interfaceToPass => exact hgrant
      | call =>
        unfold svcAction
        rw [hdepth]
      | ret =>
        obtain ⟨hsp, hpc⟩ := hret ((isReturn_svc hn).2 rfl)
        unfold svcAction
        rw [hsp, hpc]
      | systemRequest =>
        unfold svcAction
        rw [hrequest]
      | _ => rfl

/-- The C handlers. -/
theorem handle_served (h : KernelInv O k) (hreg : k.ctx k.runnable 5 < 2 ^ 64) (he : EventOk k e)
    (hok : handle k k.runnable e = .ok k₂ now) : ∃ k₁ m, Served O k k₁ (eventAction k k₁ e) m ∧
      syncCode k.runnable (.ok k₁ m) = .ok k₂ now ∧ (e.isReturn = true → m = k.runnable) := by
  unfold handle at hok
  cases e with
  | svc number =>
    simp only at hok
    cases hh : handleSvc k k.runnable number with
    | halt k₁ =>
      rw [hh] at hok
      cases hok
    | ok k₁ m =>
      rw [hh] at hok
      obtain ⟨s, hn, hserved⟩ := handleSvc_served h hreg he hh
      refine ⟨k₁, m, ?_, hok, ?_⟩
      · rw [eventAction_svc hn]
        exact hserved
      · intro hret
        obtain rfl := (isReturn_svc hn).1 hret
        unfold handleSvc at hh
        rw [hn] at hh
        exact (handleReturn_ok h (he _ hn) hh).1
  | abort fa =>
    simp only at hok
    cases hf : findAndMapMemory k k.runnable fa with
    | halt k₁ =>
      rw [hf] at hok
      cases hok
    | ok k₁ u =>
      rw [hf] at hok
      obtain ⟨l1, l2, l3, hk₁⟩ := findAndMapMemory_tables hf he
      have hq : Quiet k k₁ := by
        rw [hk₁]
        exact .memory k l1 l2 l3 k.user k.mem k.sharedSystemMap k.sharedSystemMapMappedPages
          k.spEl0
      exact ⟨k₁, k.runnable, hq.served h (by rw [hk₁]), hok, fun hret => by cases hret⟩
  | irq =>
    simp only at hok
    unfold irqCode at hok
    simp only at hok
    split at hok
    · cases hok
    · rename_i hi
      obtain ⟨rs, qs, rem, hs⟩ := h.sched
      obtain ⟨hmem, hruns, -⟩ := hs.interrupt hi
      have hidle := hruns.resolve_left he
      have hsched := (hs.mono fun _ ho => Or.inl ho).insertHead hmem hidle (.inl rfl)
      have hlast := (insertThreadAsHead_grows k (runnableAddress k) k.interruptThread).lastInterface
      exact ⟨_, _, hsched.served h hlast, hok, fun hret => by cases hret⟩

/-- A step of the core. -/
theorem kernelStep_inv (h : KernelInv O k) (hreg : ∀ i, r.x i < 2 ^ 64)
    (he : EventOk (enter k k.runnable r) e) (hok : kernelStep k r e = .ok k' now) :
    KernelInv O k' ∧ k'.runnable = now ∧
      Domains.Step IsExit (world k) (eventAction (enter k k.runnable r) k' e) (world k') := by
  have hquiet := enter_quiet h r
  have hinv := hquiet.inv h rfl
  have hrun : (enter k k.runnable r).runnable = k.runnable := rfl
  have hmem : k.runnable ∈ (enter k k.runnable r).contexts := h.mem
  have hworld := hquiet.domains.world
  have h5 : (enter k k.runnable r).ctx k.runnable 5 < 2 ^ 64 := by
    rw [enter_reg (i := 1) (by decide)]
    exact hreg 1
  unfold kernelStep at hok
  simp only at hok
  generalize enter k k.runnable r = K at hinv hrun hmem hworld h5 he hok
  rw [← hrun] at h5 hok hmem
  cases hh : handle K K.runnable e with
  | halt k₂ =>
    rw [hh] at hok
    cases hok
  | ok k₂ n =>
    rw [hh] at hok
    cases hok
    obtain ⟨k₁, m, hserved, hsync, hret⟩ := handle_served hinv h5 he hh
    obtain ⟨hinv', hrun', hstep⟩ := hserved.leaves (r := r) hinv hsync
    obtain ⟨rfl, ⟨_, l1, l2, l3, hk₂⟩, -⟩ := syncCode_served hserved hsync
    refine ⟨hinv', hrun', ?_⟩
    obtain ⟨hframe, -, -, -, -, hwords, -⟩ := leave_stores k₂ K.runnable now r
    have hact : eventAction K (leave k₂ K.runnable now r) e = eventAction K k₁ e := by
      apply eventAction_congr
      · rw [hframe.interfaces, hk₂]
      · rw [hframe.contexts, hk₂]
      · rw [hwords _ 41 (by decide), hk₂]
      · intro he'
        rw [leave, if_pos (hret he'), hk₂]
        exact ⟨rfl, rfl⟩
    rw [← hworld, hact]
    exact hstep

end Steps

end Isambard.El1
