import Mathlib.Data.Nat.Digits.Defs
import Mathlib.Logic.Function.Basic

/-!
# Lib.Writes — a loop that writes one place at a time

The values of a memory after a list of writes, each to a place and with a value that are
known beforehand. Writes to distinct places come out the same in any order.

* `writes_of_ne`, `writes_at`: what a place holds afterwards;
* `writes_perm`: the order does not matter;
* `testBit_ofDigits`: the bits of a word that is read from bytes.
-/

namespace Isambard.Lib

variable {ι α β : Type*} [DecidableEq α]

/-- The writes of `l`, in its order. -/
def writes (pos : ι → α) (val : ι → β) (l : List ι) (f : α → β) : α → β :=
  l.foldl (fun f j => Function.update f (pos j) (val j)) f

variable {pos : ι → α} {val : ι → β} {l l' : List ι}

theorem writes_append (f : α → β) : writes pos val (l ++ l') f =
    writes pos val l' (writes pos val l f) := List.foldl_append

/-- A place that is not written. -/
theorem writes_of_ne {i : α} (h : ∀ j ∈ l, i ≠ pos j) (f : α → β) :
    writes pos val l f i = f i := by
  induction l generalizing f with
  | nil => rfl
  | cons k l ih =>
    have hrest : ∀ j ∈ l, i ≠ pos j := fun j hj => h j (List.mem_cons_of_mem _ hj)
    calc writes pos val (k :: l) f i = Function.update f (pos k) (val k) i := ih hrest _
      _ = f i := Function.update_of_ne (h k List.mem_cons_self) _ _

/-- A place that is written once. -/
theorem writes_at (hinj : ∀ j ∈ l, ∀ k ∈ l, pos j = pos k → j = k) {j : ι} (hj : j ∈ l)
    (f : α → β) : writes pos val l f (pos j) = val j := by
  induction l generalizing f with
  | nil => exact absurd hj List.not_mem_nil
  | cons k l ih =>
    have hrest : ∀ i ∈ l, ∀ m ∈ l, pos i = pos m → i = m := fun i hi m hm =>
      hinj i (List.mem_cons_of_mem _ hi) m (List.mem_cons_of_mem _ hm)
    by_cases hl : j ∈ l
    · exact ih hrest hl _
    · -- the write at the head is the last one there
      have hjk : j = k := (List.mem_cons.1 hj).resolve_right hl
      subst hjk
      have hother : ∀ i ∈ l, pos j ≠ pos i := by
        intro i hi heq
        have hji := hinj j List.mem_cons_self i (List.mem_cons_of_mem _ hi) heq
        exact hl (hji ▸ hi)
      calc writes pos val (j :: l) f (pos j) = Function.update f (pos j) (val j) (pos j) :=
            writes_of_ne hother _
        _ = val j := Function.update_self _ _ _

/-- Writes to distinct places commute. -/
theorem writes_perm (hperm : l.Perm l') (hinj : ∀ j ∈ l, ∀ k ∈ l, pos j = pos k → j = k)
    (f : α → β) : writes pos val l f = writes pos val l' f := by
  apply hperm.foldl_eq'
  intro j hj k hk g
  by_cases hjk : j = k
  · rw [hjk]
  · apply Function.update_comm
    intro heq
    exact hjk (hinj j hj k hk heq)

/-- Bit `8 * j + i` of a word is bit `i` of its byte `j`. -/
theorem testBit_ofDigits (ds : List ℕ) (hds : ∀ d ∈ ds, d < 256) (j : ℕ) {i : ℕ} (hi : i < 8) :
    (Nat.ofDigits 256 ds).testBit (8 * j + i) = (ds.getD j 0).testBit i := by
  induction ds generalizing j with
  | nil => simp
  | cons d ds ih =>
    have hd : d < 2 ^ 8 := hds d List.mem_cons_self
    have hrest : ∀ e ∈ ds, e < 256 := fun e he => hds e (List.mem_cons_of_mem _ he)
    have hword : Nat.ofDigits 256 (d :: ds) = 2 ^ 8 * Nat.ofDigits 256 ds + d := by
      rw [Nat.ofDigits_cons, Nat.add_comm]
      rfl
    rw [hword, Nat.testBit_two_pow_mul_add _ hd]
    cases j with
    | zero => simp [hi]
    | succ j =>
      have hhigh : ¬ 8 * (j + 1) + i < 8 := by omega
      have hbelow : 8 * (j + 1) + i - 8 = 8 * j + i := by omega
      rw [if_neg hhigh, hbelow, ih hrest, List.getD_cons_succ]

end Isambard.Lib
