import Mathlib.Data.List.Nodup
import Mathlib.Logic.Function.Basic

/-!
# Lib.Chain — pointer chains

A singly linked list kept by a `next` function: `Seg next a l b` says that the
pointer `a` leads through the nodes `l`, in order, to the pointer `b`. A
null-terminated list is a segment that ends in the null pointer. The edits an
intrusive list makes (store one `next` field) are `Function.update`s, so the
rules below are about segments and updates:

* `seg_append`: a segment splits at any place;
* `seg_congr`, `seg_update`: only the `next` fields of its own nodes matter;
* `seg_unique`: the nodes of a null-terminated list are determined by its head.
-/

namespace Isambard.Lib

variable {α : Type*}

/-- The pointer `a` leads through the nodes `l` to the pointer `b`. -/
def Seg (next : α → α) : α → List α → α → Prop
  | a, [], b => a = b
  | a, c :: cs, b => a = c ∧ Seg next (next c) cs b

instance Seg.decidable [DecidableEq α] (next : α → α) :
    ∀ a l b, Decidable (Seg next a l b)
  | a, [], b => inferInstanceAs (Decidable (a = b))
  | a, c :: cs, b =>
    have := Seg.decidable next (next c) cs b
    inferInstanceAs (Decidable (a = c ∧ Seg next (next c) cs b))

@[simp] theorem seg_nil {next : α → α} {a b : α} : Seg next a [] b ↔ a = b := Iff.rfl

@[simp] theorem seg_cons {next : α → α} {a b c : α} {cs : List α} :
    Seg next a (c :: cs) b ↔ a = c ∧ Seg next (next c) cs b := Iff.rfl

/-- A segment splits at any place. -/
theorem seg_append {next : α → α} {l₁ l₂ : List α} {a b : α} :
    Seg next a (l₁ ++ l₂) b ↔ ∃ m, Seg next a l₁ m ∧ Seg next m l₂ b := by
  induction l₁ generalizing a with
  | nil => simp
  | cons c cs ih =>
    simp only [List.cons_append, seg_cons, ih]
    constructor
    · rintro ⟨rfl, m, h₁, h₂⟩
      exact ⟨m, ⟨rfl, h₁⟩, h₂⟩
    · rintro ⟨m, ⟨rfl, h₁⟩, h₂⟩
      exact ⟨rfl, m, h₁, h₂⟩

/-- The last node of a segment holds the pointer the segment ends in. -/
theorem seg_concat {next : α → α} {l : List α} {a b c : α} :
    Seg next a (l ++ [c]) b ↔ Seg next a l c ∧ next c = b := by
  rw [seg_append]
  constructor
  · rintro ⟨m, h₁, rfl, h₂⟩
    exact ⟨h₁, h₂⟩
  · rintro ⟨h₁, h₂⟩
    exact ⟨c, h₁, rfl, h₂⟩

/-- Only the `next` fields of the segment's own nodes matter. -/
theorem seg_congr {next next' : α → α} {l : List α} {a b : α}
    (h : ∀ c ∈ l, next' c = next c) (hs : Seg next a l b) : Seg next' a l b := by
  induction l generalizing a with
  | nil => exact hs
  | cons c cs ih =>
    obtain ⟨rfl, hs⟩ := hs
    refine ⟨rfl, ?_⟩
    rw [h a List.mem_cons_self]
    exact ih (fun d hd => h d (List.mem_cons_of_mem _ hd)) hs

/-- Storing the `next` field of a node outside a segment keeps it. -/
theorem seg_update [DecidableEq α] {next : α → α} {l : List α} {a b c v : α}
    (hc : c ∉ l) (hs : Seg next a l b) : Seg (Function.update next c v) a l b := by
  refine seg_congr (fun d hd => ?_) hs
  have hne : d ≠ c := fun h => hc (h ▸ hd)
  exact Function.update_of_ne hne _ _

/-- A segment's nodes are determined by its two ends, when its end pointer is
not one of its nodes: two walks from the same head visit the same nodes. -/
theorem seg_unique {next : α → α} {l₁ l₂ : List α} {a b : α}
    (h₁ : Seg next a l₁ b) (h₂ : Seg next a l₂ b) (n₁ : b ∉ l₁) (n₂ : b ∉ l₂) :
    l₁ = l₂ := by
  induction l₁ generalizing a l₂ with
  | nil =>
    cases l₂ with
    | nil => rfl
    | cons d ds =>
      rw [seg_nil] at h₁
      rw [h₁] at h₂
      exact absurd (h₂.1 ▸ List.mem_cons_self) n₂
  | cons c cs ih =>
    obtain ⟨rfl, h₁⟩ := h₁
    cases l₂ with
    | nil =>
      rw [seg_nil] at h₂
      exact absurd (h₂ ▸ List.mem_cons_self) n₁
    | cons d ds =>
      obtain ⟨rfl, h₂⟩ := h₂
      have := ih h₁ h₂ (fun h => n₁ (List.mem_cons_of_mem _ h))
        (fun h => n₂ (List.mem_cons_of_mem _ h))
      rw [this]

end Isambard.Lib
