import Mathlib.Data.List.Perm.Basic
import Mathlib.Data.Set.Basic
import Mathlib.Order.Interval.Set.Basic
import Mathlib.Data.Finset.Card
import Mathlib.Order.Interval.Finset.Nat

/-!
# Lib.Ranges — lists of address ranges

Half-open ranges `[r.1, r.2)` of addresses, and when a list of them is a
partition of another: no two overlap and together they hold the same bytes.
An allocator's steps replace one range by the pieces it is cut into, or move a
range from one list to another; `Partition.split` and `Partition.perm` are the
rules for that.
-/

namespace Isambard.Lib

/-- A half-open range of addresses: first byte and first byte after it. -/
abbrev Range := ℕ × ℕ

/-- Two ranges do not overlap. -/
def Apart (r q : Range) : Prop := r.2 ≤ q.1 ∨ q.2 ≤ r.1

theorem Apart.symm {r q : Range} (h : Apart r q) : Apart q r := Or.symm h

instance : Std.Symm Apart := ⟨fun _ _ => Apart.symm⟩

instance (r q : Range) : Decidable (Apart r q) := inferInstanceAs (Decidable (_ ∨ _))

/-- Different addresses in a range are no more than its bytes. -/
theorem length_le_of_nodup {l : List ℕ} {lo hi : ℕ} (hnd : l.Nodup)
    (hb : ∀ a ∈ l, lo ≤ a ∧ a < hi) : l.length ≤ hi - lo := by
  have hsub : l.toFinset ⊆ Finset.Ico lo hi := by
    intro a ha
    exact Finset.mem_Ico.2 (hb a (List.mem_toFinset.1 ha))
  have hcard := Finset.card_le_card hsub
  rw [List.toFinset_card_of_nodup hnd, Nat.card_Ico] at hcard
  exact hcard

/-- The bytes of a list of ranges. -/
def bytes (rs : List Range) : Set ℕ := {x | ∃ r ∈ rs, r.1 ≤ x ∧ x < r.2}

@[simp] theorem bytes_nil : bytes [] = ∅ := by
  ext x
  simp [bytes]

@[simp] theorem bytes_cons (r : Range) (rs : List Range) :
    bytes (r :: rs) = Set.Ico r.1 r.2 ∪ bytes rs := by
  ext x
  simp [bytes]

@[simp] theorem bytes_append (rs qs : List Range) : bytes (rs ++ qs) = bytes rs ∪ bytes qs := by
  ext x
  simp [bytes, or_and_right, exists_or]

theorem bytes_perm {rs qs : List Range} (h : rs.Perm qs) : bytes rs = bytes qs := by
  ext x
  simp [bytes, h.mem_iff]

/-- `rs` cuts up exactly the bytes of `ds`: no byte twice, none missing. -/
structure Partition (rs ds : List Range) : Prop where
  apart : rs.Pairwise Apart
  bytes_eq : bytes rs = bytes ds

theorem Partition.perm {rs rs' ds : List Range} (h : Partition rs ds) (hp : rs.Perm rs') :
    Partition rs' ds where
  apart := (hp.pairwise_iff fun h => Apart.symm h).1 h.apart
  bytes_eq := (bytes_perm hp).symm.trans h.bytes_eq

/-- A range is apart from a list of ranges whose bytes it does not meet. -/
theorem apart_of_disjoint {r q : Range} (hr : r.1 < r.2) (hq : q.1 < q.2)
    (h : ∀ x, r.1 ≤ x → x < r.2 → ¬ (q.1 ≤ x ∧ x < q.2)) : Apart r q := by
  by_contra hn
  simp only [Apart, not_or, not_le] at hn
  have := h (max r.1 q.1) (by omega) (by omega)
  omega

/-- Pieces of one range stay apart from everything the range was apart from. -/
theorem Apart.mono {r q p : Range} (h : Apart r q) (h₁ : r.1 ≤ p.1) (h₂ : p.2 ≤ r.2) :
    Apart p q := by
  rcases h with h | h
  · exact Or.inl (by omega)
  · exact Or.inr (by omega)

/-- The ranges of `ts` lie end to end from `p` to `q`. -/
def Tiling : ℕ → List Range → ℕ → Prop
  | p, [], q => p = q
  | p, t :: ts, q => t.1 = p ∧ t.1 < t.2 ∧ Tiling t.2 ts q

theorem tiling_append {p m q : ℕ} {ts us : List Range} (h₁ : Tiling p ts m)
    (h₂ : Tiling m us q) : Tiling p (ts ++ us) q := by
  induction ts generalizing p with
  | nil =>
    have hp : p = m := h₁
    rw [hp]
    exact h₂
  | cons t ts ih => exact ⟨h₁.1, h₁.2.1, ih h₁.2.2⟩

theorem tiling_le {p q : ℕ} {ts : List Range} (h : Tiling p ts q) : p ≤ q := by
  induction ts generalizing p with
  | nil => exact Nat.le_of_eq h
  | cons t ts ih =>
    obtain ⟨rfl, h₁, h₂⟩ := h
    exact le_trans h₁.le (ih h₂)

/-- Every piece of a tiling is a non-empty part of the tiled range. -/
theorem tiling_mem {p q : ℕ} {ts : List Range} (h : Tiling p ts q) {t : Range} (ht : t ∈ ts) :
    p ≤ t.1 ∧ t.1 < t.2 ∧ t.2 ≤ q := by
  induction ts generalizing p with
  | nil => cases ht
  | cons u us ih =>
    obtain ⟨rfl, h₁, h₂⟩ := h
    rcases List.mem_cons.1 ht with rfl | ht
    · exact ⟨le_rfl, h₁, tiling_le h₂⟩
    · obtain ⟨h₃, h₄, h₅⟩ := ih h₂ ht
      exact ⟨le_trans h₁.le h₃, h₄, h₅⟩

/-- A tiling is a partition of the range it tiles; its pieces ascend. -/
theorem tiling_partition {p q : ℕ} {ts : List Range} (h : Tiling p ts q) :
    Partition ts [(p, q)] := by
  induction ts generalizing p with
  | nil =>
    have hp : p = q := h
    exact ⟨List.Pairwise.nil, by simp [hp]⟩
  | cons t ts ih =>
    obtain ⟨rfl, h₁, h₂⟩ := h
    have ih := ih h₂
    have hle := tiling_le h₂
    refine ⟨List.pairwise_cons.2 ⟨fun u hu => Or.inl (tiling_mem h₂ hu).1, ih.apart⟩, ?_⟩
    rw [bytes_cons, ih.bytes_eq]
    ext x
    simp only [bytes_cons, bytes_nil, Set.union_empty, Set.mem_union, Set.mem_Ico]
    omega

/-- Cutting one range of a partition into the pieces of a tiling. -/
theorem Partition.split {r : Range} {ts rs ds : List Range} (h : Partition (r :: rs) ds)
    (ht : Tiling r.1 ts r.2) : Partition (ts ++ rs) ds := by
  have hp := tiling_partition ht
  have ha := List.pairwise_cons.1 h.apart
  refine ⟨List.pairwise_append.2 ⟨hp.apart, ha.2, fun t hm q hq => ?_⟩, ?_⟩
  · obtain ⟨h₁, -, h₂⟩ := tiling_mem ht hm
    exact (ha.1 q hq).mono h₁ h₂
  · rw [bytes_append, hp.bytes_eq, ← h.bytes_eq]
    simp

/-- Adding a tiled range that meets none of the bytes cut up so far. -/
theorem Partition.add {p q : ℕ} {ts rs ds : List Range} (h : Partition rs ds)
    (ht : Tiling p ts q) (hne : ∀ r ∈ rs, r.1 < r.2)
    (hd : ∀ x ∈ bytes ds, ¬ (p ≤ x ∧ x < q)) : Partition (ts ++ rs) ((p, q) :: ds) := by
  have hp := tiling_partition ht
  refine ⟨List.pairwise_append.2 ⟨hp.apart, h.apart, fun t hm r hr => ?_⟩, ?_⟩
  · obtain ⟨h₁, h₂, h₃⟩ := tiling_mem ht hm
    refine (apart_of_disjoint (hne r hr) h₂ fun x hx₁ hx₂ hx => ?_).symm
    have hb : x ∈ bytes ds := h.bytes_eq ▸ ⟨r, hr, hx₁, hx₂⟩
    exact hd x hb ⟨by omega, by omega⟩
  · rw [bytes_append, hp.bytes_eq, h.bytes_eq]
    simp

end Isambard.Lib
