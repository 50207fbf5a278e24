import Isambard.Lib.Chain

/-!
# Lib.Pprev — singly linked lists with pointers back to the links

Each node has a `next` field and a pointer `pprev` to the link that points to
it: the head variable, or the `next` field of the node before, whose address is
`slot` of that node. Such a node can leave the list without a walk.

`PSeg next pprev slot a h l a' h'`: the link at `a`, which holds `h`, leads
through the nodes `l` to the link at `a'`, which holds `h'`.

* `pseg_append`: a segment splits at any place;
* `pseg_congr`: only the fields of its own nodes matter;
* `pseg_retarget`: a store to the last link.
-/

namespace Isambard.Lib

variable {α β : Type*}

/-- The link at `a`, holding `h`, leads through `l` to the link at `a'`, holding
`h'`. -/
def PSeg (next : α → α) (pprev slot : α → β) : β → α → List α → β → α → Prop
  | a, h, [], a', h' => a' = a ∧ h' = h
  | a, h, q :: qs, a', h' => h = q ∧ pprev q = a ∧ PSeg next pprev slot (slot q) (next q) qs a' h'

instance PSeg.decidable [DecidableEq α] [DecidableEq β] (next : α → α) (pprev slot : α → β) :
    ∀ a h l a' h', Decidable (PSeg next pprev slot a h l a' h')
  | a, h, [], a', h' => inferInstanceAs (Decidable (a' = a ∧ h' = h))
  | a, h, q :: qs, a', h' =>
    have := PSeg.decidable next pprev slot (slot q) (next q) qs a' h'
    inferInstanceAs (Decidable (h = q ∧ pprev q = a ∧
      PSeg next pprev slot (slot q) (next q) qs a' h'))

variable {next next' : α → α} {pprev pprev' slot : α → β} {a a' : β} {h h' : α} {l l₁ l₂ : List α}

@[simp] theorem pseg_nil : PSeg next pprev slot a h [] a' h' ↔ a' = a ∧ h' = h := Iff.rfl

@[simp] theorem pseg_cons {q : α} {qs : List α} : PSeg next pprev slot a h (q :: qs) a' h' ↔
    h = q ∧ pprev q = a ∧ PSeg next pprev slot (slot q) (next q) qs a' h' := Iff.rfl

/-- A segment splits at any place. -/
theorem pseg_append : PSeg next pprev slot a h (l₁ ++ l₂) a' h' ↔
    ∃ b g, PSeg next pprev slot a h l₁ b g ∧ PSeg next pprev slot b g l₂ a' h' := by
  induction l₁ generalizing a h with
  | nil =>
    constructor
    · intro hs
      exact ⟨a, h, ⟨rfl, rfl⟩, hs⟩
    · rintro ⟨b, g, ⟨rfl, rfl⟩, hs⟩
      exact hs
  | cons q qs ih =>
    simp only [List.cons_append, pseg_cons, ih]
    constructor
    · rintro ⟨hq, hp, b, g, h₁, h₂⟩
      exact ⟨b, g, ⟨hq, hp, h₁⟩, h₂⟩
    · rintro ⟨b, g, ⟨hq, hp, h₁⟩, h₂⟩
      exact ⟨hq, hp, b, g, h₁, h₂⟩

/-- Only the fields of the segment's own nodes matter. -/
theorem pseg_congr (hn : ∀ q ∈ l, next' q = next q) (hp : ∀ q ∈ l, pprev' q = pprev q)
    (hs : PSeg next pprev slot a h l a' h') : PSeg next' pprev' slot a h l a' h' := by
  induction l generalizing a h with
  | nil => exact hs
  | cons q qs ih =>
    rcases hs with ⟨hq, hpq, hs⟩
    refine ⟨hq, ?_, ?_⟩
    · rw [hp q List.mem_cons_self]
      exact hpq
    · rw [hn q List.mem_cons_self]
      exact ih (fun r hr => hn r (List.mem_cons_of_mem _ hr))
        (fun r hr => hp r (List.mem_cons_of_mem _ hr)) hs

/-- The link at the end of a segment is that of its last node. -/
theorem pseg_concat {p : α} : PSeg next pprev slot a h (l ++ [p]) a' h' ↔
    PSeg next pprev slot a h l (pprev p) p ∧ a' = slot p ∧ h' = next p := by
  rw [pseg_append]
  constructor
  · rintro ⟨b, g, h₁, rfl, rfl, h₂⟩
    exact ⟨h₁, h₂⟩
  · rintro ⟨h₁, h₂⟩
    exact ⟨_, _, h₁, rfl, rfl, h₂⟩

/-- Without the pointers back it is a segment of a chain. -/
theorem PSeg.seg (hs : PSeg next pprev slot a h l a' h') : Seg next h l h' := by
  induction l generalizing a h with
  | nil => exact hs.2.symm
  | cons q qs ih => exact ⟨hs.1, ih hs.2.2⟩

/-- A store to the link at the end of a segment with a last node. -/
theorem pseg_retarget [DecidableEq α] {p v : α} (hp : p ∉ l)
    (hs : PSeg next pprev slot a h (l ++ [p]) a' h') :
    PSeg (Function.update next p v) pprev slot a h (l ++ [p]) a' v := by
  rw [pseg_concat] at hs ⊢
  refine ⟨pseg_congr ?_ (fun _ _ => rfl) hs.1, hs.2.1, ?_⟩
  · intro q hq
    have hne : q ≠ p := fun heq => hp (heq ▸ hq)
    exact Function.update_of_ne hne _ _
  · rw [Function.update_self]

end Isambard.Lib
