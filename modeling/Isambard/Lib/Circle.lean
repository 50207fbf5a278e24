import Mathlib.Data.Nat.ModEq
import Mathlib.Order.Interval.Finset.Nat
import Mathlib.Tactic.Ring

/-!
# Lib.Circle — a counter that wraps and is looked at in steps

A counter of the natural numbers that is read modulo `N`. A value on the circle is passed
once in every turn. Polls that move the counter by `t` at a time divide what it passes into
half-open intervals; a poll that looks strictly between its two ends leaves out the values
it starts at.

* `ahead`: how far the counter has to go to a value;
* `passages`: how often it passes one; `passages_turn` once a turn;
* `passages_polls`: the polls that see a value and the polls that start at it.
-/

namespace Isambard.Lib

/-- How far a value of the circle is ahead of `p`. -/
def ahead (N p m : ℕ) : ℕ := (m + N - p % N) % N

/-- How often a counter that goes from `a` up to `b` shows `m` before `b`. -/
def passages (N m a b : ℕ) : ℕ := ((Finset.Ico a b).filter fun M => M % N = m).card

section Circle

variable {N m : ℕ} (hm : m < N)

include hm

theorem ahead_lt (p : ℕ) : ahead N p m < N := Nat.mod_lt _ (Nat.zero_lt_of_lt hm)

theorem add_ahead_mod (p : ℕ) : (p + ahead N p m) % N = m := by
  have hp : p % N < N := Nat.mod_lt _ (Nat.zero_lt_of_lt hm)
  -- what is added to `p` completes its turn and goes on to `m`
  have hwhole : p + (m + N - p % N) = N * (p / N) + N + m := by
    have hdiv := Nat.div_add_mod p N
    omega
  rw [ahead, Nat.add_mod_mod, hwhole, Nat.add_assoc, Nat.mul_add_mod, Nat.add_mod_left,
    Nat.mod_eq_of_lt hm]

/-- Within one turn there is one place where the counter shows a value. -/
theorem eq_add_ahead {p M : ℕ} (hle : p ≤ M) (hlt : M < p + N) (hM : M % N = m) :
    M = p + ahead N p m := by
  have hahead := ahead_lt hm p
  apply Nat.ModEq.eq_of_abs_lt (m := N)
  · show M % N = (p + ahead N p m) % N
    rw [hM, add_ahead_mod hm]
  · rw [abs_lt]
    constructor <;> push_cast <;> omega

theorem ahead_eq_zero (p : ℕ) : ahead N p m = 0 ↔ p % N = m := by
  constructor
  · intro h
    have hmod := add_ahead_mod hm p
    rwa [h, Nat.add_zero] at hmod
  · intro h
    have heq := eq_add_ahead hm (Nat.le_refl p) (by omega) h
    omega

/-- One step passes a value at most once: when it is not further ahead than the step goes. -/
theorem passages_step {p t : ℕ} (ht : t ≤ N) :
    passages N m p (p + t) = if ahead N p m < t then 1 else 0 := by
  split_ifs with h
  · have hone : ((Finset.Ico p (p + t)).filter fun M => M % N = m) = {p + ahead N p m} := by
      ext M
      simp only [Finset.mem_filter, Finset.mem_Ico, Finset.mem_singleton]
      constructor
      · rintro ⟨⟨hle, hlt⟩, hM⟩
        exact eq_add_ahead hm hle (by omega) hM
      · rintro rfl
        exact ⟨⟨Nat.le_add_right _ _, by omega⟩, add_ahead_mod hm p⟩
    rw [passages, hone, Finset.card_singleton]
  · have hnone : ((Finset.Ico p (p + t)).filter fun M => M % N = m) = ∅ := by
      apply Finset.filter_eq_empty_iff.2
      intro M hM hmod
      rw [Finset.mem_Ico] at hM
      have heq := eq_add_ahead hm hM.1 (by omega) hmod
      omega
    rw [passages, hnone, Finset.card_empty]

theorem passages_turn (p : ℕ) : passages N m p (p + N) = 1 := by
  rw [passages_step hm (Nat.le_refl N), if_pos (ahead_lt hm p)]

omit hm in
theorem passages_add {a b c : ℕ} (hab : a ≤ b) (hbc : b ≤ c) :
    passages N m a c = passages N m a b + passages N m b c := by
  have hdisjoint : Disjoint ((Finset.Ico a b).filter fun M => M % N = m)
      ((Finset.Ico b c).filter fun M => M % N = m) :=
    Finset.disjoint_filter_filter (Finset.Ico_disjoint_Ico_consecutive a b c)
  rw [passages, passages, passages, ← Finset.card_union_of_disjoint hdisjoint,
    ← Finset.filter_union, Finset.Ico_union_Ico_eq_Ico hab hbc]

/-- Of `n` polls that move the counter by `t`, those that find a value strictly inside. -/
def seen (N t m a n : ℕ) : Finset ℕ :=
  (Finset.range n).filter fun k => 0 < ahead N (a + k * t) m ∧ ahead N (a + k * t) m < t

/-- Those that start at it. -/
def startsAt (N t m a n : ℕ) : Finset ℕ :=
  (Finset.range n).filter fun k => (a + k * t) % N = m

/-- Every passage is seen by a poll or is at the start of one. -/
theorem passages_polls {t : ℕ} (h0 : 0 < t) (ht : t ≤ N) (a n : ℕ) :
    passages N m a (a + n * t) = (seen N t m a n).card + (startsAt N t m a n).card := by
  induction n with
  | zero => simp [passages, seen, startsAt]
  | succ n ih =>
    -- the last poll goes one step further than the first `n`
    have hend : a + (n + 1) * t = a + n * t + t := by ring
    have hzero := ahead_eq_zero hm (a + n * t)
    rw [hend, passages_add (Nat.le_add_right a (n * t)) (Nat.le_add_right _ t), ih,
      passages_step hm ht, seen, seen, startsAt, startsAt, Finset.range_add_one,
      Finset.filter_insert, Finset.filter_insert]
    by_cases hstart : (a + n * t) % N = m
    · -- it starts at the value: passed, and not seen
      have hnone := hzero.2 hstart
      simp [hstart, hnone, h0]
      ring
    · -- the value is ahead of it, within the step or not
      have hsome : 0 < ahead N (a + n * t) m := Nat.pos_of_ne_zero fun h => hstart (hzero.1 h)
      by_cases hin : ahead N (a + n * t) m < t
      · simp [hstart, hsome, hin]
        ring
      · simp [hstart, hin]

end Circle

end Isambard.Lib
