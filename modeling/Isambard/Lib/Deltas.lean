import Mathlib.Algebra.BigOperators.Group.List.Basic
import Mathlib.Algebra.Order.Ring.Nat
import Mathlib.Data.List.Nodup
import Mathlib.Logic.Function.Basic

/-!
# Lib.Deltas — delta queues

A queue of timers in the order of their deadlines, where each entry holds the
time from the deadline before it: a tick changes the first entry only.
`Sums delta rem s l` says that the time that remains for the entries of `l`, when
`s` remains for those before them, is the sum of the deltas up to the entry.

* `sums_insert`, `sums_remove`: an entry joins or leaves at any place, with a
  change to the delta of the entry behind it;
* `sums_tick`: one tick less for all of them;
* `sums_expired`: the entries with nothing left are the first ones.
-/

namespace Isambard.Lib

variable {α : Type*}

/-- What remains for an entry is the sum of the deltas up to it, after `s`. -/
def Sums (delta rem : α → ℕ) : ℕ → List α → Prop
  | _, [] => True
  | s, q :: qs => rem q = s + delta q ∧ Sums delta rem (s + delta q) qs

variable {delta delta' rem rem' : α → ℕ} {s n : ℕ} {q : α} {l l₁ l₂ : List α}

@[simp] theorem sums_nil : Sums delta rem s [] := trivial

@[simp] theorem sums_cons : Sums delta rem s (q :: l) ↔
    rem q = s + delta q ∧ Sums delta rem (s + delta q) l := Iff.rfl

theorem sums_append : Sums delta rem s (l₁ ++ l₂) ↔
    Sums delta rem s l₁ ∧ Sums delta rem (s + (l₁.map delta).sum) l₂ := by
  induction l₁ generalizing s with
  | nil => simp
  | cons p l ih => simp [ih, and_assoc, Nat.add_assoc]

/-- Only the entries of the queue matter. -/
theorem sums_congr (hd : ∀ q ∈ l, delta' q = delta q) (hr : ∀ q ∈ l, rem' q = rem q)
    (h : Sums delta rem s l) : Sums delta' rem' s l := by
  induction l generalizing s with
  | nil => trivial
  | cons p l ih =>
    rw [sums_cons] at h ⊢
    rw [hd p List.mem_cons_self, hr p List.mem_cons_self]
    exact ⟨h.1, ih (fun q hq => hd q (List.mem_cons_of_mem _ hq))
      (fun q hq => hr q (List.mem_cons_of_mem _ hq)) h.2⟩

/-- What remains for an entry, as a sum. -/
theorem sums_at (h : Sums delta rem s (l₁ ++ q :: l₂)) :
    rem q = s + ((l₁ ++ [q]).map delta).sum := by
  rw [sums_append, sums_cons] at h
  rw [h.2.1]
  simp [Nat.add_assoc]

/-- Nothing less than `s` remains for any entry. -/
theorem sums_le (h : Sums delta rem s l) (hq : q ∈ l) : s ≤ rem q := by
  obtain ⟨l₁, l₂, rfl⟩ := List.append_of_mem hq
  rw [sums_at h]
  omega

section Edit

variable [DecidableEq α]

/-- The delta of the first entry, if there is one, set to `f` of what it was. -/
def adjustHead (f : ℕ → ℕ) (delta : α → ℕ) : List α → α → ℕ
  | [] => delta
  | q :: _ => Function.update delta q (f (delta q))

@[simp] theorem adjustHead_nil {f : ℕ → ℕ} : adjustHead f delta [] = delta := rfl

@[simp] theorem adjustHead_cons {f : ℕ → ℕ} :
    adjustHead f delta (q :: l) = Function.update delta q (f (delta q)) := rfl

theorem adjustHead_of_notMem {f : ℕ → ℕ} (hq : q ∉ l) : adjustHead f delta l q = delta q := by
  cases l with
  | nil => rfl
  | cons p l =>
    have hne : q ≠ p := fun h => hq (h ▸ List.mem_cons_self)
    exact Function.update_of_ne hne _ _

theorem adjustHead_tail {f : ℕ → ℕ} {p : α} (hp : p ∉ l) (hq : q ∈ l) :
    adjustHead f delta (p :: l) q = delta q := by
  have hne : q ≠ p := fun h => hp (h ▸ hq)
  exact Function.update_of_ne hne _ _

/-- The entries behind a change of what is before them, which the first of them
makes up for. -/
theorem sums_adjust {m : ℕ} {f : ℕ → ℕ} (h : Sums delta rem s l) (hnd : l.Nodup)
    (hf : ∀ q ∈ l.head?, m + f (delta q) = s + delta q) :
    Sums (adjustHead f delta l) rem m l := by
  cases l with
  | nil => trivial
  | cons p l =>
    rcases h with ⟨hp, h⟩
    have hfp := hf p rfl
    have hnp := (List.nodup_cons.1 hnd).1
    refine ⟨?_, ?_⟩
    · show rem p = m + Function.update delta p (f (delta p)) p
      rw [Function.update_self, hfp, hp]
    · show Sums _ rem (m + Function.update delta p (f (delta p)) p) l
      rw [Function.update_self, hfp]
      exact sums_congr (fun q hq => adjustHead_tail hnp hq) (fun _ _ => rfl) h

/-- A new entry between `l₁` and `l₂`, for which `n` remains when the ones before
it are done. -/
theorem sums_insert (h : Sums delta rem 0 (l₁ ++ l₂)) (hnd : (l₁ ++ l₂).Nodup)
    (hq : q ∉ l₁ ++ l₂) (hrem : rem q = (l₁.map delta).sum + n)
    (hn : ∀ p ∈ l₂.head?, n ≤ delta p) :
    Sums (adjustHead (· - n) (Function.update delta q n) l₂) rem 0 (l₁ ++ q :: l₂) := by
  rw [List.nodup_append] at hnd
  rw [List.mem_append, not_or] at hq
  rw [sums_append] at h
  have hl₁ : ∀ p ∈ l₁, adjustHead (· - n) (Function.update delta q n) l₂ p = delta p := by
    intro p hp
    rw [adjustHead_of_notMem (fun hp₂ => hnd.2.2 p hp p hp₂ rfl)]
    have hne : p ≠ q := fun heq => hq.1 (heq ▸ hp)
    exact Function.update_of_ne hne _ _
  have hl₂ : ∀ p ∈ l₂, Function.update delta q n p = delta p := by
    intro p hp
    have hne : p ≠ q := fun heq => hq.2 (heq ▸ hp)
    exact Function.update_of_ne hne _ _
  have hself : adjustHead (· - n) (Function.update delta q n) l₂ q = n := by
    rw [adjustHead_of_notMem hq.2, Function.update_self]
  have hsum : (l₁.map (adjustHead (· - n) (Function.update delta q n) l₂)).sum =
      (l₁.map delta).sum := by
    rw [List.map_congr_left hl₁]
  rw [sums_append, sums_cons, hsum, hself]
  refine ⟨sums_congr hl₁ (fun _ _ => rfl) h.1, by omega, ?_⟩
  refine sums_adjust (sums_congr hl₂ (fun _ _ => rfl) h.2) hnd.2.1 ?_
  intro p hp
  have hp₂ : p ∈ l₂ := List.mem_of_mem_head? hp
  have := hn p hp
  rw [hl₂ p hp₂]
  omega

/-- An entry leaves, and the one behind it waits longer. -/
theorem sums_remove (h : Sums delta rem 0 (l₁ ++ q :: l₂)) (hnd : (l₁ ++ q :: l₂).Nodup) :
    Sums (adjustHead (· + delta q) delta l₂) rem 0 (l₁ ++ l₂) := by
  rw [List.nodup_append] at hnd
  rw [sums_append, sums_cons] at h
  have hl₁ : ∀ p ∈ l₁, adjustHead (· + delta q) delta l₂ p = delta p := by
    intro p hp
    exact adjustHead_of_notMem fun hp₂ => hnd.2.2 p hp p (List.mem_cons_of_mem _ hp₂) rfl
  rw [sums_append, List.map_congr_left hl₁]
  refine ⟨sums_congr hl₁ (fun _ _ => rfl) h.1, ?_⟩
  refine sums_adjust h.2.2 (List.nodup_cons.1 hnd.2.1).2 ?_
  intro p _
  omega

/-- One tick: the delta of the first entry is one less. -/
theorem sums_tick (h : Sums delta rem 0 (q :: l)) (hnd : (q :: l).Nodup) (hq : 0 < delta q) :
    Sums (Function.update delta q (delta q - 1)) (fun p => rem p - 1) 0 (q :: l) := by
  have hpos : ∀ {l : List α} {s : ℕ}, Sums delta rem (s + 1) l →
      Sums delta (fun p => rem p - 1) s l := by
    intro l
    induction l with
    | nil => intro s _; trivial
    | cons p l ih =>
      intro s hs
      rcases hs with ⟨hp, hs⟩
      refine ⟨by simp only; omega, ih ?_⟩
      rw [show s + delta p + 1 = s + 1 + delta p by omega]
      exact hs
  rcases h with ⟨hq', h⟩
  have hnp := (List.nodup_cons.1 hnd).1
  refine ⟨?_, ?_⟩
  · show rem q - 1 = _
    rw [Function.update_self]
    omega
  · rw [Function.update_self]
    refine sums_congr (fun p hp => ?_) (fun _ _ => rfl) (hpos (s := 0 + (delta q - 1)) ?_)
    · have hne : p ≠ q := fun heq => hnp (heq ▸ hp)
      exact Function.update_of_ne hne _ _
    · rw [show 0 + (delta q - 1) + 1 = 0 + delta q by omega]
      exact h

end Edit

/-- Nothing remains for the entries without a delta, and something for all that
come behind a delta. -/
theorem sums_expired (h : Sums delta rem 0 (l₁ ++ l₂)) (hz : ∀ q ∈ l₁, delta q = 0)
    (hp : ∀ q ∈ l₂.head?, 0 < delta q) :
    (∀ q ∈ l₁, rem q = 0) ∧ (∀ q ∈ l₂, 0 < rem q) ∧ Sums delta rem 0 l₂ := by
  have hsum : ∀ l : List α, (∀ q ∈ l, delta q = 0) → (l.map delta).sum = 0 := by
    intro l hl
    rw [List.map_congr_left hl]
    simp
  rw [sums_append, hsum l₁ hz] at h
  refine ⟨?_, ?_, h.2⟩
  · intro q hq
    obtain ⟨s, t, rfl⟩ := List.append_of_mem hq
    rw [sums_at h.1, hsum _ fun p hp => hz p ?_]
    simp only [List.mem_append, List.mem_cons] at hp ⊢
    tauto
  · intro q hq
    cases l₂ with
    | nil => cases hq
    | cons p l₂ =>
      rcases h.2 with ⟨hrp, hrest⟩
      have hp0 := hp p rfl
      rcases List.mem_cons.1 hq with rfl | hq
      · omega
      · have := sums_le hrest hq
        omega

/-- A tick at the first deadline: nothing remains for the entries without a delta behind
the first one, and the others are the list. -/
theorem sums_due [DecidableEq α] (h : Sums delta rem 0 (q :: (l₁ ++ l₂)))
    (hnd : (q :: (l₁ ++ l₂)).Nodup) (hq : delta q = 1) (hz : ∀ p ∈ l₁, delta p = 0)
    (hp : ∀ p ∈ l₂.head?, 0 < delta p) (hd : delta' = Function.update delta q (delta q - 1)) :
    (∀ p ∈ q :: l₁, rem p - 1 = 0) ∧ (∀ p ∈ l₂, 0 < rem p - 1) ∧
      Sums delta' (fun p => rem p - 1) 0 l₂ ∧ ∀ p ∈ l₂.head?, 0 < delta' p := by
  have hnot := (List.nodup_cons.1 hnd).1
  rw [List.mem_append, not_or] at hnot
  have hsums : Sums delta' (fun p => rem p - 1) 0 ((q :: l₁) ++ l₂) := by
    rw [hd]
    exact sums_tick h hnd (by omega)
  have hzero : ∀ p ∈ q :: l₁, delta' p = 0 := by
    intro p hp
    rw [hd]
    rcases List.mem_cons.1 hp with rfl | hp
    · rw [Function.update_self]
      omega
    · have hne : p ≠ q := fun heq => hnot.1 (heq ▸ hp)
      rw [Function.update_of_ne hne]
      exact hz p hp
  have hfirst : ∀ p ∈ l₂.head?, 0 < delta' p := by
    intro p hp'
    have hne : p ≠ q := fun heq => hnot.2 (heq ▸ List.mem_of_mem_head? hp')
    rw [hd, Function.update_of_ne hne]
    exact hp p hp'
  rcases sums_expired hsums hzero hfirst with ⟨hdone, hlater, hrest⟩
  exact ⟨hdone, hlater, hrest, hfirst⟩

end Isambard.Lib
