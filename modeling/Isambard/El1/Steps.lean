import Isambard.El1.Gate

/-!
# El1.Steps — a whole step of a core

A thread enters the kernel, a handler returns the thread to run next, and the
kernel leaves to that thread. The code around the handlers changes the saved
registers of the thread that entered, and the tables of the core.

* `Entered`, `Left`: what the vector code leaves alone;
* `kernelStep_svc`: a step by a supervisor call.
-/

namespace Isambard.El1

open Isambard.Lib

variable {k k' : Kernel} {t now : ℕ} {r : Regs}

/-- The kernel that the thread `t` has entered. -/
structure Entered (k k' : Kernel) (t : ℕ) : Prop where
  frame : Frame k k'
  runnable : k'.runnable = k.runnable
  blockedWithTimeout : k'.blockedWithTimeout = k.blockedWithTimeout
  blocked : k'.blocked = k.blocked
  user : k'.user = k.user
  words : ∀ p w, w < 4 ∨ 24 ≤ w ∧ w < 36 ∨ 38 ≤ w → k'.ctx p w = k.ctx p w
  others : ∀ p w, p ≠ t → k'.ctx p w = k.ctx p w

theorem enter_entered (k : Kernel) (t : ℕ) (r : Regs) : Entered k (enter k t r) t := by
  have hother : ∀ p w, p ≠ t → (enter k t r).ctx p w = k.ctx p w := by
    intro p w hp
    show Function.update k.ctx t _ p w = k.ctx p w
    rw [Function.update_of_ne hp]
  refine ⟨⟨rfl, rfl, rfl, rfl, rfl, rfl, rfl, rfl⟩, rfl, rfl, rfl, rfl, ?_, hother⟩
  intro p w hw
  by_cases hp : p = t
  · subst hp
    show Function.update k.ctx p _ p w = k.ctx p w
    rw [Function.update_self, enteredRow, if_neg (by omega), if_neg (by omega),
      if_neg (by omega), if_neg (by omega)]
  · exact hother p w hp

/-- The first registers are those of the thread. -/
theorem enter_reg {i : ℕ} (hi : i ≤ 18) : (enter k t r).ctx t (4 + i) = r.x i := by
  show Function.update k.ctx t _ t (4 + i) = r.x i
  rw [Function.update_self, enteredRow, if_pos (by omega), Nat.add_sub_cancel_left]

/-- The kernel that was left by the thread `t`. -/
structure Left (k k' : Kernel) (t : ℕ) : Prop where
  frame : Frame k k'
  runnable : k'.runnable = k.runnable
  blockedWithTimeout : k'.blockedWithTimeout = k.blockedWithTimeout
  blocked : k'.blocked = k.blocked
  user : k'.user = k.user
  words : ∀ p w, w < 23 ∨ 36 ≤ w → k'.ctx p w = k.ctx p w
  others : ∀ p w, p ≠ t → k'.ctx p w = k.ctx p w

/-- Leaving the kernel, with other tables. -/
theorem leave_left {k k₀ : Kernel} {n : ℕ} {l1 l2 l3 : ℕ → ℕ}
    (hk : k = { k₀ with loadedMap := n, l1 := l1, l2 := l2, l3 := l3 }) :
    Left k₀ (leave k t now r) t := by
  have hctx : k.ctx = k₀.ctx := by rw [hk]
  have hother : ∀ p w, p ≠ t → (leave k t now r).ctx p w = k₀.ctx p w := by
    intro p w hp
    rw [← hctx]
    unfold leave
    split
    · rfl
    · show Function.update k.ctx t _ p w = k.ctx p w
      rw [Function.update_of_ne hp]
  refine ⟨?_, ?_, ?_, ?_, ?_, ?_, hother⟩
  · unfold leave
    split
    · rw [hk]
      exact ⟨rfl, rfl, rfl, rfl, rfl, rfl, rfl, rfl⟩
    · rw [hk]
      exact ⟨rfl, rfl, rfl, rfl, rfl, rfl, rfl, rfl⟩
  · unfold leave
    split
    · rw [hk]
    · rw [hk]
      rfl
  · unfold leave
    split
    · rw [hk]
    · rw [hk]
      rfl
  · unfold leave
    split
    · rw [hk]
    · rw [hk]
      rfl
  · unfold leave
    split
    · rw [hk]
    · rw [hk]
      rfl
  · intro p w hw
    by_cases hp : p = t
    · subst hp
      rw [← hctx]
      unfold leave
      split
      · rfl
      · show Function.update k.ctx p _ p w = k.ctx p w
        rw [Function.update_self, leftRow, if_neg (by omega), if_neg (by omega),
          if_neg (by omega)]
    · exact hother p w hp

/-- The map of the thread that is to run is loaded: it stays the thread's map. -/
theorem changeMap_own {p : ℕ} (hp : p ∈ k.contexts)
    (h : changeMap k p (k.currentMap p) = .ok k' ()) : ∃ l1 l2 l3,
      k' = { k with loadedMap := k.currentMap p, l1 := l1, l2 := l2, l3 := l3 } := by
  obtain ⟨n, l1, l2, l3, hload⟩ := loadThisMap_tables k (k.currentMap p)
  have hn : k.currentMap p = n := by
    rw [← loadThisMap_loadedMap k (k.currentMap p), hload]
  have hself : (loadThisMap k (k.currentMap p)).setCurrentMap p (k.currentMap p) =
      loadThisMap k (k.currentMap p) := by
    have hmem : p ∈ (loadThisMap k (k.currentMap p)).contexts := by
      rw [hload]
      exact hp
    have hctx : (loadThisMap k (k.currentMap p)).ctx p 39 = k.ctx p 39 := by rw [hload]
    rw [Kernel.setCurrentMap, fld_of_mem hmem, setFld_of_mem hmem]
    generalize loadThisMap k (k.currentMap p) = k₁ at hctx
    rw [currentMap_of_mem hp, ← hctx, setField_field, setCtx_self, withCtx_self]
  rw [changeMap_eq] at h
  split at h
  · cases h
  · rw [hself] at h
    cases h
    exact ⟨l1, l2, l3, by rw [hload, hn]⟩

theorem syncCode_now {n : ℕ} (h : syncCode t (.ok k now) = .ok k' n) : n = now := by
  unfold syncCode at h
  simp only at h
  split at h
  · cases hc : changeMap k now (k.currentMap now) with
    | halt k₂ =>
      rw [hc] at h
      cases h
    | ok k₂ u =>
      rw [hc] at h
      simp only at h
      split at h
      · cases h
      · cases h
        rfl
  · split at h
    · cases h
    · cases h
      rfl

theorem syncCode_ok {n : ℕ} (h : syncCode t (.ok k now) = .ok k' n) (hm : now ∈ k.contexts) :
    k.runnable = now ∧ ∃ m l1 l2 l3,
      k' = { k with loadedMap := m, l1 := l1, l2 := l2, l3 := l3 } := by
  unfold syncCode at h
  simp only at h
  split at h
  · cases hc : changeMap k now (k.currentMap now) with
    | halt k₂ =>
      rw [hc] at h
      cases h
    | ok k₂ u =>
      obtain ⟨l1, l2, l3, hk₂⟩ := changeMap_own hm hc
      rw [hc] at h
      simp only at h
      split at h
      · cases h
      · rename_i hr
        cases h
        refine ⟨?_, k.currentMap now, l1, l2, l3, hk₂⟩
        rw [hk₂] at hr
        exact not_not.1 hr
  · split at h
    · cases h
    · rename_i hr
      cases h
      exact ⟨not_not.1 hr, k.loadedMap, k.l1, k.l2, k.l3, rfl⟩

/-- The map of the thread that is to run is loaded, if that of the other one was. -/
theorem syncCode_loaded {n : ℕ} (h : syncCode t (.ok k now) = .ok k' n) (hm : now ∈ k.contexts)
    (hl : k.loadedMap = k.currentMap t) : k'.loadedMap = k'.currentMap now := by
  unfold syncCode at h
  simp only at h
  split at h
  · cases hc : changeMap k now (k.currentMap now) with
    | halt k₂ =>
      rw [hc] at h
      cases h
    | ok k₂ u =>
      obtain ⟨l1, l2, l3, hk₂⟩ := changeMap_own hm hc
      rw [hc] at h
      simp only at h
      split at h
      · cases h
      · cases h
        have hmem : now ∈ k'.contexts := by
          rw [hk₂]
          exact hm
        have hload : k'.loadedMap = k.currentMap now := by rw [hk₂]
        rw [hload]
        exact (currentMap_congr hm hmem (by rw [hk₂])).symm
  · rename_i hsame
    split at h
    · cases h
    · cases h
      rw [hl]
      exact (not_not.1 hsame).symm

theorem leave_loaded (hl : k.loadedMap = k.currentMap now) (hm : now ∈ k.contexts) :
    (leave k t now r).loadedMap = (leave k t now r).currentMap now := by
  unfold leave
  split
  · exact hl
  · rename_i hne
    refine Eq.trans hl (Eq.symm (currentMap_congr hm hm ?_))
    show Function.update k.ctx t _ now 39 = k.ctx now 39
    rw [Function.update_of_ne hne]

/-- A step by a supervisor call: the handler, between the parts of the vector
code. -/
theorem kernelStep_svc {n : ℕ} (h : kernelStep k r (.svc n) = .ok k' now) :
    ∃ k₁, handleSvc (enter k k.runnable r) k.runnable n = .ok k₁ now ∧
      (now ∈ k₁.contexts → k₁.runnable = now ∧ Left k₁ k' k.runnable) := by
  unfold kernelStep handle at h
  simp only at h
  cases hh : handleSvc (enter k k.runnable r) k.runnable n with
  | halt k₁ =>
    rw [hh] at h
    cases h
  | ok k₁ m =>
    rw [hh] at h
    cases hs : syncCode k.runnable (.ok k₁ m) with
    | halt k₂ =>
      rw [hs] at h
      cases h
    | ok k₂ m₂ =>
      rw [hs] at h
      cases h
      obtain rfl := syncCode_now hs
      refine ⟨k₁, rfl, fun hmem => ?_⟩
      obtain ⟨hrun, _, _, _, _, hk₂⟩ := syncCode_ok hs hmem
      exact ⟨hrun, leave_left hk₂⟩

/-- A call that returns to the thread that made it. -/
theorem kernelStep_stays {n : ℕ} {k₁ : Kernel}
    (hh : handleSvc (enter k k.runnable r) k.runnable n = .ok k₁ k.runnable)
    (hrun : k₁.runnable = k.runnable) : kernelStep k r (.svc n) = .ok k₁ k.runnable := by
  have hsync : syncCode k.runnable (.ok k₁ k.runnable) = .ok k₁ k.runnable := by
    simp [syncCode, hrun]
  unfold kernelStep handle
  simp only [hh, hsync]
  rw [leave, if_pos rfl]

/-- At the end of a step the map of the running thread is loaded. -/
theorem kernelStep_loaded {n : ℕ} {k₁ : Kernel} (h : kernelStep k r (.svc n) = .ok k' now)
    (hh : handleSvc (enter k k.runnable r) k.runnable n = .ok k₁ now) (hm : now ∈ k₁.contexts)
    (hl : k₁.loadedMap = k₁.currentMap k.runnable) : k'.loadedMap = k'.currentMap now := by
  unfold kernelStep handle at h
  simp only [hh] at h
  cases hs : syncCode k.runnable (.ok k₁ now) with
  | halt k₂ =>
    rw [hs] at h
    cases h
  | ok k₂ n₂ =>
    rw [hs] at h
    cases h
    obtain ⟨-, _, _, _, _, hk₂⟩ := syncCode_ok hs hm
    refine leave_loaded (syncCode_loaded hs hm hl) ?_
    rw [hk₂]
    exact hm

end Isambard.El1
