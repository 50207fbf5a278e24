import Isambard.El1.KernelSafety

/-!
# El1.KernelCalls — interfaces and calls in every run of a core

No thread can forge an interface, and calls and returns match, whatever the calls, the faults and
the interrupts are and in whatever order they come.

* the interfaces: `Unforgeable`, `interfaces_unforgeable`;
* the calls: `calls_justified`, `calls_bracketed`, `frames_untouched`.
-/

namespace Isambard.El1

open Isambard.Lib

section Calls

variable {k k' k₀ k₁ k₂ k₃ : Kernel} {t u : Turn} {l : List Turn} {p i n m e : ℕ} {O : ℕ → Prop}

/-! ## The free list -/

/-- The thread asks for a call. -/
def Turn.Calls (t : Turn) : Prop := ∃ n, t.event = .svc n ∧ Svc.ofNumber n = some .call

/-- The handler of the event is called, and the kernel leaves to the thread that it returns. -/
theorem step_handled (hs : orderlySystem.step k t k') : ∃ k₁ m,
    handle (k.entered t) k.runnable t.event = .ok k₁ m ∧ k' = leave k₁ k.runnable m t.regs := by
  obtain ⟨-, now, hok⟩ := hs
  unfold Kernel.turn kernelStep at hok
  simp only at hok
  cases hh : handle (enter (k.afterEl0 t) (k.afterEl0 t).runnable t.regs)
      (k.afterEl0 t).runnable t.event with
  | halt k₁ =>
    rw [hh] at hok
    cases hok
  | ok k₁ m =>
    rw [hh] at hok
    cases hok
    exact ⟨k₁, _, hh, rfl⟩

/-- Only the system map makes special requests, and an index is one of the table. -/
def Within (k : Kernel) (t : Turn) : Prop :=
  ∀ n s, t.event = .svc n → Svc.ofNumber n = some s →
    (s = .systemRequest → k.currentMap k.runnable = systemMapIndex) ∧
    (s ∈ [Svc.duplicateToReturn, .duplicateToPass, .interfaceToPass, .call] →
      t.regs.x 0 % 2 ^ 32 < tableSize) ∧
    (s = .duplicateToPass → t.regs.x 1 % 2 ^ 32 < tableSize)

/-- Each call that a thread has made and not returned from was to the provider of an interface,
by a thread in the map of its user. -/
theorem calls_justified (h : orderlySystem.Reachable k) (hp : p ∈ k.contexts) :
    (k.currentMap p :: (frames k.ctx p).map Domains.Frame.domain).dropLast.IsChain
      fun callee caller => ∃ i, IsSlot k i ∧ (k.interfaces i).provider = callee ∧
        (k.interfaces i).user = caller := by
  have hjust := Domains.reachable_justified orderly_simulates h fun k₀ h₀ => by
    refine ⟨Started.inv h₀, ?_⟩
    intro q a ha
    obtain ⟨hq, rfl⟩ := world_thread_iff.1 ha
    unfold activity
    rw [(Started.frames h₀ hq).1]
    exact Domains.justified_singleton _ _ _
  have hchain := hjust p _ (world_thread hp)
  rw [currentMap_of_mem hp]
  refine List.IsChain.imp ?_ hchain
  rintro callee caller ⟨i, c, hc, hprov, huser⟩
  obtain ⟨hi, rfl⟩ := world_cap_iff.1 hc
  exact ⟨i, hi, hprov, huser⟩

theorem calls_justified_called : (called.currentMap called.runnable ::
    (frames called.ctx called.runnable).map Domains.Frame.domain).dropLast.IsChain
      fun callee caller => ∃ i, IsSlot called i ∧ (called.interfaces i).provider = callee ∧
        (called.interfaces i).user = caller :=
  calls_justified called_reachable (reachable_inv called_reachable).mem

/-- The thread asks for a return. -/
def Turn.Returns (t : Turn) : Prop := ∃ n, t.event = .svc n ∧ Svc.ofNumber n = some .ret

/-- The flag by which the caller knows that the call has not ended with an exception. -/
theorem return_clears (h : KernelInv O k) (hs : orderlySystem.step k t k') (hr : t.Returns) :
    field 28 1 (k'.ctx k.runnable 37) = 0 := by
  obtain ⟨n, he, hn⟩ := hr
  have hinv : KernelInv O (k.entered t) := (entered_quiet h t).inv h rfl
  obtain ⟨k₁, m, hh, rfl⟩ := step_handled hs
  have hevent := hs.1.2
  rw [he] at hh hevent
  unfold handle handleSvc at hh
  simp only [hn] at hh
  cases hret : handleReturn (k.entered t) k.runnable with
  | halt k₂ =>
    rw [hret] at hh
    cases hh
  | ok k₂ now =>
    rw [hret] at hh
    obtain ⟨rfl, j, hreturned⟩ := handleReturn_ok hinv (hevent .ret hn) hret
    obtain ⟨rfl, ⟨_, l1, l2, l3, rfl⟩, -⟩ := syncCode_served (hreturned.served hinv) hh
    have hsame : ∀ v : Kernel, leave v k.runnable (k.entered t).runnable t.regs = v :=
      fun v => if_pos rfl
    rw [hsame]
    exact hreturned.overflow

theorem turnAction_return (k' : Kernel) (hr : t.Returns) :
    turnAction k t k' = .ret k.runnable (k'.spEl0, k'.ctx k.runnable 36) := by
  obtain ⟨n, he, hn⟩ := hr
  unfold turnAction
  rw [he, eventAction_svc hn]
  rfl

/-- A thread has as many frames as its stack pointer says. -/
theorem thread_length {a : Domains.Activity ℕ (ℕ × ℕ)} (h : (world k).threads p = some a) :
    a.frames.length = 6 - depth k.ctx p := by
  obtain ⟨-, rfl⟩ := world_thread_iff.1 h
  exact frames_length _ _

/-- The thread goes on behind the call that it has made in the turn `t`, and knows that it has not
ended with an exception. -/
structure CameBack (k : Kernel) (t : Turn) (k' : Kernel) : Prop where
  map : k'.currentMap k.runnable = k.currentMap k.runnable
  frames : frames k'.ctx k.runnable = frames k.ctx k.runnable
  spEl0 : k'.spEl0 = t.spEl0
  pc : k'.ctx k.runnable 36 = t.regs.pc
  overflow : field 28 1 (k'.ctx k.runnable 37) = 0

/-- A call that the kernel does not answer itself, and the return at the same depth. -/
theorem call_returns (h : KernelInv O k) (hcall : orderlySystem.step k t k₁) (ht : t.Calls)
    (hpush : depth k₁.ctx k.runnable ≠ depth k.ctx k.runnable)
    (htr : (orderlySystem.restrict fun v _ =>
      depth v.ctx k.runnable ≤ depth k₁.ctx k.runnable).Trace k₁ l k₂)
    (hrun : k₂.runnable = k.runnable)
    (hdepth : depth k₂.ctx k.runnable = depth k₁.ctx k.runnable)
    (hret : orderlySystem.step k₂ u k₃) (hu : u.Returns) : CameBack k t k₃ := by
  have hinv₁ := orderly_simulates.inv k t k₁ h hcall
  have hinv₂ := orderly_simulates.trace hinv₁ htr.of_restrict
  have hact : turnAction k t k₁ = .call k.runnable
      ((k.entered t).ctx k.runnable 4 % 2 ^ 32) (t.spEl0, t.regs.pc) := by
    obtain ⟨n, he, hn⟩ := ht
    unfold turnAction
    rw [he, eventAction_svc hn]
    rw [← depth_entered h t] at hpush
    refine (if_neg hpush).trans ?_
    show Domains.Action.call k.runnable _ (t.spEl0, (k.entered t).ctx k.runnable 36) = _
    rw [entered_pc]
    rfl
  have hact' := turnAction_return (k := k₂) k₃ hu
  have hflag := return_clears hinv₂ hret hu
  rw [hrun] at hact' hflag
  have hmem₂ : k.runnable ∈ k₂.contexts := hrun ▸ hinv₂.mem
  obtain ⟨hthread, hresume⟩ := Domains.call_return orderly_simulates h (world_thread h.mem)
    hcall hact (fun b => thread_length)
    (htr.mono fun v _ hv a ha => by rw [thread_length ha]; omega)
    (world_thread hmem₂) (by rw [thread_length (world_thread hmem₂), hdepth]) hret hact'
  obtain ⟨hmem₃, hsame⟩ := world_thread_iff.1 hthread
  obtain ⟨hsp, hpc⟩ := Prod.mk.inj hresume
  refine ⟨?_, (congrArg Domains.Activity.frames hsame).symm, hsp, hpc, hflag⟩
  rw [currentMap_of_mem hmem₃, currentMap_of_mem h.mem]
  exact (congrArg Domains.Activity.domain hsame).symm

/-- The thread has not entered the kernel yet: it is there from the start, or another one has just
made it. -/
def Born (k : Kernel) (p : ℕ) : Prop := p ∈ k.contexts ∧
  (Started k ∨ ∃ k₀ t, orderlySystem.Reachable k₀ ∧ orderlySystem.step k₀ t k ∧ p ∉ k₀.contexts)

theorem Born.frames (h : Born k p) : ∃ o, IsExit o ∧ (activity k.ctx p).frames = [o] := by
  obtain ⟨hp, hstart | ⟨k₀, t, hr, hs, hnew⟩⟩ := h
  · obtain ⟨hframes, hexit⟩ := hstart.frames hp
    exact ⟨_, hexit, hframes⟩
  · have hnone : (world k₀).threads p = none := by
      cases ha : (world k₀).threads p with
      | none => rfl
      | some a => exact absurd (world_thread_iff.1 ha).1 hnew
    exact (orderly_simulates.step k₀ t k (reachable_inv hr) hs).born hnone (world_thread hp)

/-- A return for which there was no call leads to the exit of the thread. -/
theorem exit_returns (h : KernelInv O k) (hp : Born k p)
    (htr : (orderlySystem.restrict fun v _ => depth v.ctx p ≤ 5).Trace k l k₂)
    (hrun : k₂.runnable = p) (hdepth : depth k₂.ctx p = 5)
    (hret : orderlySystem.step k₂ u k₃) (hu : u.Returns) :
    k₃.currentMap p = systemMapIndex ∧ k₃.ctx p 36 = systemServiceThreadExit := by
  have hinv₂ := orderly_simulates.trace h htr.of_restrict
  obtain ⟨o, hexit, hframes⟩ := hp.frames
  have hact := turnAction_return (k := k₂) k₃ hu
  rw [hrun] at hact
  have hmem₂ : p ∈ k₂.contexts := hrun ▸ hinv₂.mem
  have hthread : (world k).threads p = some ⟨(activity k.ctx p).domain, [o]⟩ := by
    rw [← hframes]
    exact world_thread hp.1
  obtain ⟨hthread₃, hresume⟩ := Domains.frame_return orderly_simulates h hthread
    (n := 1) rfl (htr.mono fun v _ hv a ha => by rw [thread_length ha]; omega)
    (world_thread hmem₂) (by rw [thread_length (world_thread hmem₂), hdepth]) hret hact
  obtain ⟨hmem₃, hsame⟩ := world_thread_iff.1 hthread₃
  obtain ⟨hdom, hpc⟩ := hexit
  rw [currentMap_of_mem hmem₃]
  exact ⟨(congrArg Domains.Activity.domain hsame).symm.trans hdom,
    (congrArg Prod.snd hresume).trans hpc⟩

/-- The kernel answers the call of the running thread itself. -/
def Answered (k : Kernel) : Prop :=
  (k.interfaces (k.ctx k.runnable 4 % 2 ^ 32)).provider = systemMapIndex ∧
    (k.interfaces (k.ctx k.runnable 4 % 2 ^ 32)).handler = systemServiceMap ∧
    k.ctx k.runnable 5 = physicalAddressOfCall

/-- Nothing is written but the frame `j` of the running thread, its stack pointer and its first
register. -/
structure WritesFrame (k k' : Kernel) (j : ℕ) : Prop where
  mem : k'.mem = k.mem
  user : k'.user = k.user
  interfaces : k'.interfaces = k.interfaces
  words : ∀ p w, k'.ctx p w = k.ctx p w ∨
    p = k.runnable ∧ (w = 4 ∨ w = 41 ∨ 43 + 3 * j ≤ w ∧ w < 46 + 3 * j)

/-- A call when there is room for no frame but the one that is never used. -/
theorem handleCall_full (h : KernelInv O k)
    (hfull : k.ctx k.runnable 41 = frameAddress k.runnable 2) (hanswer : ¬ Answered k) :
    ∃ k', handleCall k k.runnable = .halt k' ∧ WritesFrame k k' 1 := by
  obtain ⟨rs, qs, rem, hs⟩ := h.sched
  have hpl := hs.gate.placed
  have hself : WritesFrame k k 1 := ⟨rfl, rfl, rfl, fun _ _ => .inl rfl⟩
  unfold handleCall
  split
  · exact ⟨k, rfl, hself⟩
  split
  · exact ⟨k, rfl, hself⟩
  rename_i e he
  obtain ⟨-, rfl⟩ := interfaceFromIndex_some he
  have h5 : k.reg k.runnable 1 = k.ctx k.runnable 5 := h.reg 1
  have h4 : k.reg k.runnable 0 = k.ctx k.runnable 4 := h.reg 0
  unfold Answered at hanswer
  rw [h4, h5, if_neg hanswer]
  split
  · exact ⟨k, rfl, hself⟩
  simp only
  rw [pushFrame_argument h (by decide) hfull]
  generalize (k.interfaces (k.ctx k.runnable 4 % 2 ^ 32)).object = v
  set c := pushed (setCtx k.ctx k.runnable 4 v) k.runnable 1 k.spEl0 with hc
  have h41 : (k.withCtx c).stackPointer k.runnable = frameAddress k.runnable 1 :=
    (fld_of_mem (k := k.withCtx c) h.mem 41).trans pushed_pointer
  have h42 : (k.withCtx c).stackLimit k.runnable = frameAddress k.runnable 0 := by
    refine (fld_of_mem (k := k.withCtx c) h.mem 42).trans ?_
    rw [withCtx_ctx, hc, pushed_other (by omega), setCtx_word (by decide)]
    exact (hs.frames _ h.mem).limit
  rw [h41, h42, if_pos (by unfold frameAddress; omega)]
  refine ⟨_, rfl, rfl, rfl, rfl, ?_⟩
  intro p w
  rw [withCtx_ctx, hc]
  unfold pushed
  simp only [setCtx_apply]
  grind
/-- The thread asks for an exception in its caller. -/
def Turn.Throws (t : Turn) : Prop := ∃ n, t.event = .svc n ∧ Svc.ofNumber n = some .exception

theorem throw_halts (k : Kernel) (ht : t.Throws) : ∃ k', k.turn t = .halt k' := by
  obtain ⟨n, he, hn⟩ := ht
  unfold Kernel.turn kernelStep handle handleSvc
  simp only [he, hn]
  exact ⟨_, rfl⟩

theorem call_halts (h : KernelInv O k) (hfull : k.ctx k.runnable 41 = frameAddress k.runnable 2)
    (ht : t.Calls) (hanswer : ¬ Answered (k.entered t)) :
    ∃ k', k.turn t = .halt k' ∧ WritesFrame (k.entered t) k' 1 := by
  obtain ⟨n, he, hn⟩ := ht
  have hquiet := entered_quiet h t
  have hinv : KernelInv O (k.entered t) := hquiet.inv h rfl
  obtain ⟨k', hhalt, hwrites⟩ := handleCall_full hinv
    ((hquiet.domains.rows _ 41 (by decide)).trans hfull) hanswer
  refine ⟨k', ?_, hwrites⟩
  have hcall : handle (k.entered t) k.runnable t.event = .halt k' := by
    rw [he]
    unfold handle handleSvc
    simp only [hn]
    exact congrArg (syncCode k.runnable) hhalt
  unfold Kernel.turn kernelStep
  change handle (enter (k.afterEl0 t) (k.afterEl0 t).runnable t.regs) (k.afterEl0 t).runnable
    t.event = _ at hcall
  simp only [hcall]

/-- The calls of the threads from `k` on. -/
structure Bracketed (k : Kernel) : Prop where
  returns : ∀ t k₁ l k₂ u k₃, orderlySystem.step k t k₁ → t.Calls →
    depth k₁.ctx k.runnable ≠ depth k.ctx k.runnable →
    (orderlySystem.restrict fun v _ =>
      depth v.ctx k.runnable ≤ depth k₁.ctx k.runnable).Trace k₁ l k₂ →
    k₂.runnable = k.runnable → depth k₂.ctx k.runnable = depth k₁.ctx k.runnable →
    orderlySystem.step k₂ u k₃ → u.Returns → CameBack k t k₃
  exits : ∀ p l k₂ u k₃, Born k p →
    (orderlySystem.restrict fun v _ => depth v.ctx p ≤ 5).Trace k l k₂ →
    k₂.runnable = p → depth k₂.ctx p = 5 → orderlySystem.step k₂ u k₃ → u.Returns →
    k₃.currentMap p = systemMapIndex ∧ k₃.ctx p 36 = systemServiceThreadExit
  pointers : ∀ p ∈ k.contexts, ∃ j, 2 ≤ j ∧ j ≤ 6 ∧ k.ctx p 41 = frameAddress p j
  full : ∀ t, k.ctx k.runnable 41 = frameAddress k.runnable 2 → t.Calls →
    ¬ Answered (k.entered t) → ∃ k', k.turn t = .halt k' ∧ WritesFrame (k.entered t) k' 1
  exceptions : ∀ t, t.Throws → ∃ k', k.turn t = .halt k'

theorem calls_bracketed (h : orderlySystem.Reachable k) : Bracketed k := by
  have hinv := reachable_inv h
  constructor
  case returns =>
    intro t k₁ l k₂ u k₃ hcall ht hpush htr hrun hdepth hret hu
    exact call_returns hinv hcall ht hpush htr hrun hdepth hret hu
  case exits =>
    intro p l k₂ u k₃ hp htr hrun hdepth hret hu
    exact exit_returns hinv hp htr hrun hdepth hret hu
  case pointers => exact fun p hp => hinv.pointer hp
  case full => exact fun t hfull ht hanswer => call_halts hinv hfull ht hanswer
  case exceptions => exact fun t ht => throw_halts k ht

/-- The system's thread comes back from the driver, and another thread has run. -/
theorem calls_bracketed_called : CameBack systemRuns callTurn broughtBack := by
  obtain ⟨hinterrupted, hresumed⟩ := driverRun.depths
  refine (calls_bracketed systemRuns_reachable).returns callTurn called [waitTurn, resumeTurn]
    resumed returnTurn broughtBack driverRun.call ⟨0xf009, rfl, rfl⟩ driverRun.deeper ?_
    driverRun.runs.2.1 hresumed driverRun.ret ⟨0xf00a, rfl, rfl⟩
  exact .concat (l := [waitTurn]) (.concat (l := []) .nil ⟨le_rfl, driverRun.away⟩)
    ⟨hinterrupted.le, driverRun.back⟩

def throwTurn : Turn := svcTurn called [] 0xf00b

/-- A core stops at the first exception. -/
theorem exception_stops : ¬ ∀ k t k₁ u, orderlySystem.Reachable k → orderlySystem.step k t k₁ →
    t.Calls → depth k₁.ctx k.runnable ≠ depth k.ctx k.runnable → k₁.runnable = k.runnable →
    u.Throws → ∃ k₂ now, k₁.turn u = .ok k₂ now := by
  intro h
  have ht : throwTurn.Throws := ⟨0xf00b, rfl, rfl⟩
  obtain ⟨k₂, now, hok⟩ := h systemRuns callTurn called throwTurn systemRuns_reachable
    driverRun.call ⟨0xf009, rfl, rfl⟩ driverRun.deeper driverRun.runs.1 ht
  obtain ⟨k₃, hhalt⟩ := throw_halts called ht
  rw [hhalt] at hok
  cases hok

/-- While a thread does not run, nobody changes the map that it is in and its frames. -/
theorem frames_untouched (h : orderlySystem.Reachable k) (hp : p ∈ k.contexts)
    (ht : (orderlySystem.restrict fun v _ => v.runnable ≠ p).Trace k l k') :
    p ∈ k'.contexts ∧ k'.currentMap p = k.currentMap p ∧
      frames k'.ctx p = frames k.ctx p := by
  have hkept := Domains.trace_others orderly_simulates (t := p)
    (fun v x v' hv hm => hv (eventAction_moves hm).symm) ht (reachable_inv h) (world_thread hp)
  obtain ⟨hp', hsame⟩ := world_thread_iff.1 hkept
  refine ⟨hp', ?_, (congrArg Domains.Activity.frames hsame).symm⟩
  rw [currentMap_of_mem hp, currentMap_of_mem hp']
  exact (congrArg Domains.Activity.domain hsame).symm

theorem frames_untouched_interrupted :
    frames resumed.ctx called.runnable = frames interrupted.ctx called.runnable := by
  obtain ⟨-, -, hother, hmem⟩ := driverRun.runs
  have htrace : (orderlySystem.restrict fun v _ => v.runnable ≠ called.runnable).Trace interrupted
      [resumeTurn] resumed := .concat (l := []) .nil ⟨hother, driverRun.back⟩
  exact (frames_untouched (.step called_reachable driverRun.away) hmem htrace).2.2

end Calls

end Isambard.El1
