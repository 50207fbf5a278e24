import Mathlib.Data.List.Pairwise

/-!
# Lib.Handover — a lock that is handed over

A lock is free, or it has an owner and those who wait for it, in the order in
which they came. Who asks for a lock that is held waits behind the others; an
owner that lets go hands the lock over to the first who waits.

* `ask`, `pass`: the two operations, and whom they make the owner;
* `ask_pairwise`: the order of those who wait;
* `Next.waits`, `Next.first`: no one is lost, and no one is overtaken.
-/

namespace Isambard.Lib

/-- A lock that is held: no one waits for a lock without an owner. -/
structure Held (α : Type*) where
  owner : α
  queue : List α
deriving Repr, DecidableEq

/-- A lock, free or held. -/
abbrev Handover (α : Type*) := Option (Held α)

namespace Handover

variable {α : Type*} {l : Handover α} {h : Held α} {x y : α} {r : α → α → Prop}

def owner (l : Handover α) : Option α := l.map Held.owner

/-- Those who wait. -/
def queue : Handover α → List α
  | none => []
  | some h => h.queue

/-- `x` asks for the lock. -/
def ask : Handover α → α → Handover α
  | none, x => some ⟨x, []⟩
  | some h, x => some ⟨h.owner, h.queue ++ [x]⟩

/-- The owner lets go. -/
def pass : Handover α → Handover α
  | none => none
  | some h =>
    match h.queue with
    | [] => none
    | x :: q => some ⟨x, q⟩

@[simp] theorem owner_none : owner (none : Handover α) = none := rfl
@[simp] theorem owner_some : owner (some h) = some h.owner := rfl
@[simp] theorem queue_none : queue (none : Handover α) = [] := rfl
@[simp] theorem queue_some : queue (some h) = h.queue := rfl

@[simp] theorem ask_none : ask none x = some ⟨x, []⟩ := rfl
@[simp] theorem ask_some : ask (some h) x = some ⟨h.owner, h.queue ++ [x]⟩ := rfl

theorem pass_nil (hq : h.queue = []) : pass (some h) = none := by
  simp only [pass, hq]

theorem pass_cons {q : List α} (hq : h.queue = x :: q) : pass (some h) = some ⟨x, q⟩ := by
  simp only [pass, hq]

/-- Only the first to ask for a free lock is not made to wait. -/
theorem mem_ask_queue : y ∈ (ask l x).queue ↔ y ∈ l.queue ∨ l ≠ none ∧ y = x := by
  cases l with
  | none => simp
  | some h => simp

theorem ask_owner : (ask l x).owner = if l = none then some x else l.owner := by
  cases l with
  | none => simp
  | some h => simp

/-- The queue of a lock that was let go of. -/
theorem pass_queue : (pass l).queue = l.queue.tail := by
  cases l with
  | none => rfl
  | some h =>
    cases hq : h.queue with
    | nil => simp [pass_nil hq, hq]
    | cons x q => simp [pass_cons hq, hq]

/-- The first who waited has the lock. -/
theorem pass_owner : (pass l).owner = l.queue.head? := by
  cases l with
  | none => rfl
  | some h =>
    cases hq : h.queue with
    | nil => simp [pass_nil hq, hq]
    | cons x q => simp [pass_cons hq, hq]

theorem ask_pairwise (hl : l.queue.Pairwise r) (hx : ∀ y ∈ l.queue, r y x) :
    (ask l x).queue.Pairwise r := by
  cases l with
  | none => simp
  | some h => simpa [List.pairwise_append] using ⟨hl, hx⟩

/-- One of the operations, or neither. -/
inductive Next : Handover α → Handover α → Prop
  | stay (l : Handover α) : Next l l
  | ask (l : Handover α) (x : α) : Next l (l.ask x)
  | pass (l : Handover α) : Next l l.pass

/-- No one who waits is lost. -/
theorem Next.waits {l' : Handover α} (h : Next l l') (hx : x ∈ l.queue) :
    x ∈ l'.queue ∨ l'.owner = some x := by
  cases h with
  | stay => exact .inl hx
  | ask y => exact .inl (mem_ask_queue.2 (.inl hx))
  | pass =>
    rw [pass_queue, pass_owner]
    cases hq : l.queue with
    | nil =>
      rw [hq] at hx
      cases hx
    | cons y q =>
      rw [hq] at hx
      rcases List.mem_cons.1 hx with rfl | hx
      · exact .inr rfl
      · exact .inl hx

/-- And no one is overtaken. -/
theorem Next.first {l' : Handover α} (h : Next l l') (hx : l'.owner = some x)
    (hnew : l.owner ≠ some x) (hy : y ∈ l.queue) : l.queue.head? = some x := by
  cases h with
  | stay => exact absurd hx hnew
  | ask z =>
    rw [ask_owner] at hx
    split at hx
    · rename_i hl
      rw [hl] at hy
      cases hy
    · exact absurd hx hnew
  | pass =>
    rw [pass_owner] at hx
    exact hx

end Handover

end Isambard.Lib
