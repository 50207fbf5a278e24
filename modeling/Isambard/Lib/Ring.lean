import Isambard.Lib.Chain
import Mathlib.Data.List.Chain
import Mathlib.Data.List.Range
import Mathlib.Dynamics.PeriodicPts.Lemmas

/-!
# Lib.Ring — circular doubly linked lists

`Ring next prev a t`: from `a` the `next` links lead through the nodes `t` back
to `a`, and the `prev` links lead the same way back. The edits of an intrusive
list are updates of the two link functions, and each of them is a rule here:

* `ring_insert_before`, `ring_insert_after`: a new node beside the head;
* `ring_remove`: the head leaves, and becomes a ring of its own;
* `ring_congr`: links of other nodes do not matter.

`ring_rotate` makes any node the head, and `exists_ring` finds the ring of a node.
-/

namespace Isambard.Lib

variable {α : Type*}

/-- `b` follows `a`, by the links of both. -/
def Linked (next prev : α → α) (a b : α) : Prop := next a = b ∧ prev b = a

/-- The ring of the node `a` and the nodes `t` after it. -/
def Ring (next prev : α → α) (a : α) (t : List α) : Prop :=
  (a :: (t ++ [a])).IsChain (Linked next prev)

variable {next prev next' prev' : α → α} {a n : α} {t : List α}

/-- A path depends on the `next` links of all but its last node, and on the
`prev` links of all but its first. -/
theorem linked_congr {l : List α} (h : l.IsChain (Linked next prev))
    (hn : ∀ x ∈ l.dropLast, next' x = next x) (hp : ∀ x ∈ l.tail, prev' x = prev x) :
    l.IsChain (Linked next' prev') := by
  induction l with
  | nil => exact .nil
  | cons x l ih =>
    cases l with
    | nil => exact .singleton x
    | cons y l =>
      rw [List.isChain_cons_cons] at h ⊢
      refine ⟨⟨?_, ?_⟩, ih h.2 (fun z hz => hn z ?_) (fun z hz => hp z ?_)⟩
      · rw [hn x (by simp)]
        exact h.1.1
      · rw [hp y (by simp)]
        exact h.1.2
      · simp [hz]
      · simp only [List.tail_cons] at hz ⊢
        exact List.mem_cons_of_mem _ hz

theorem ring_congr (h : Ring next prev a t) (hn : ∀ x ∈ a :: t, next' x = next x)
    (hp : ∀ x ∈ a :: t, prev' x = prev x) : Ring next' prev' a t := by
  refine linked_congr h (fun x hx => hn x ?_) (fun x hx => hp x ?_)
  · rw [← List.cons_append, List.dropLast_concat] at hx
    exact hx
  · simp only [List.tail_cons, List.mem_append, List.mem_singleton] at hx
    rcases hx with hx | rfl
    · exact List.mem_cons_of_mem _ hx
    · exact List.mem_cons_self

@[simp] theorem ring_nil : Ring next prev a [] ↔ next a = a ∧ prev a = a := by
  simp [Ring, Linked]

/-- Any node of a ring can be its head. -/
theorem ring_rotate {b : α} {s : List α} :
    Ring next prev a (s ++ b :: t) ↔ Ring next prev b (t ++ a :: s) := by
  have hsplit : ∀ x y u v, Ring next prev x (u ++ y :: v) ↔
      (x :: (u ++ [y])).IsChain (Linked next prev) ∧
      (y :: (v ++ [x])).IsChain (Linked next prev) := by
    intro x y u v
    unfold Ring
    rw [List.append_assoc, List.cons_append, ← List.cons_append, List.isChain_split]
    rfl
  rw [hsplit, hsplit, and_comm]

/-- The links of a ring stay inside it. -/
theorem ring_closed (h : Ring next prev a t) :
    ∀ x ∈ a :: t, next x ∈ a :: t ∧ prev x ∈ a :: t := by
  have hhead : ∀ {b u}, Ring next prev b u → next b ∈ b :: u ∧ prev b ∈ b :: u := by
    intro b u hr
    constructor
    · cases u with
      | nil => simp [(ring_nil.1 hr).1]
      | cons y u => simp [(List.isChain_cons_cons.1 hr).1.1]
    · rcases List.eq_nil_or_concat u with rfl | ⟨v, z, rfl⟩
      · simp [(ring_nil.1 hr).2]
      · rw [List.concat_eq_append] at hr ⊢
        have hz := ring_rotate.1 hr
        simp [(List.isChain_cons_cons.1 hz).1.2]
  intro x hx
  rcases List.mem_cons.1 hx with rfl | hx
  · exact hhead h
  · obtain ⟨s, u, rfl⟩ := List.append_of_mem hx
    have := hhead (ring_rotate.1 h)
    simp only [List.mem_cons, List.mem_append] at this ⊢
    tauto

/-- The nodes of a ring are those that the `next` links lead to. -/
theorem ring_reaches {p : α} {n : ℕ} (h : Ring next prev a t) (hn : t.length < n) :
    (∃ i < n, next^[i] a = p) ↔ p ∈ a :: t := by
  constructor
  · rintro ⟨i, -, rfl⟩
    induction i with
    | zero => exact List.mem_cons_self
    | succ i ih =>
      rw [Function.iterate_succ_apply']
      exact (ring_closed h _ ih).1
  · intro hp
    have hpath : ∀ (t : List α) (a : α), (a :: t).IsChain (Linked next prev) → p ∈ a :: t →
        ∃ i, i < t.length + 1 ∧ next^[i] a = p := by
      intro t
      induction t with
      | nil =>
        intro a _ hp
        obtain rfl : p = a := by simpa using hp
        exact ⟨0, by simp, rfl⟩
      | cons x t ih =>
        intro a hc hp
        rcases List.mem_cons.1 hp with rfl | hp
        · exact ⟨0, by simp, rfl⟩
        · rw [List.isChain_cons_cons] at hc
          obtain ⟨i, hi, hx⟩ := ih x hc.2 hp
          refine ⟨i + 1, by simpa using hi, ?_⟩
          rw [Function.iterate_succ_apply, hc.1.1]
          exact hx
    have hchain : (a :: t).IsChain (Linked next prev) := by
      unfold Ring at h
      rw [← List.cons_append] at h
      exact h.left_of_append
    obtain ⟨i, hi, hx⟩ := hpath t a hchain hp
    exact ⟨i, by omega, hx⟩

/-- The last node of a ring is the one before its head. -/
theorem ring_last (h : Ring next prev a t) :
    ∃ s, a :: t = s ++ [prev a] ∧ (s ++ [prev a]).IsChain (Linked next prev) ∧
      next (prev a) = a := by
  obtain ⟨s, z, hsz⟩ : ∃ s z, a :: t = s ++ [z] :=
    ⟨(a :: t).dropLast, (a :: t).getLast (by simp), (List.dropLast_append_getLast _).symm⟩
  unfold Ring at h
  rw [← List.cons_append, hsz, List.append_assoc, List.singleton_append,
    List.isChain_split] at h
  have hz : Linked next prev z a := by simpa using h.2
  rw [hz.2]
  exact ⟨s, hsz, h.1, hz.1⟩

/-- From any node of a ring, one link leads back along the other. -/
theorem ring_back (h : Ring next prev a t) :
    ∀ x ∈ a :: t, prev (next x) = x ∧ next (prev x) = x := by
  have hhead : ∀ {b u}, Ring next prev b u → prev (next b) = b ∧ next (prev b) = b := by
    intro b u hr
    obtain ⟨s, -, -, hlast⟩ := ring_last hr
    refine ⟨?_, hlast⟩
    cases u with
    | nil => rw [(ring_nil.1 hr).1, (ring_nil.1 hr).2]
    | cons y u =>
      have hy := (List.isChain_cons_cons.1 hr).1
      rw [hy.1, hy.2]
  intro x hx
  rcases List.mem_cons.1 hx with rfl | hx
  · exact hhead h
  · obtain ⟨s, u, rfl⟩ := List.append_of_mem hx
    exact hhead (ring_rotate.1 h)

/-- The nodes behind the head, as the path from the node after it to the node
before it. -/
theorem ring_body {x : α} (h : Ring next prev a (x :: t)) :
    next a = x ∧ ∃ s, x :: t = s ++ [prev a] ∧
      (s ++ [prev a]).IsChain (Linked next prev) := by
  obtain ⟨s, hs, hchain, -⟩ := ring_last h
  refine ⟨(List.isChain_cons_cons.1 h).1.1, ?_⟩
  cases s with
  | nil => simp at hs
  | cons b s' =>
    refine ⟨s', by simpa using (List.cons.inj hs).2, ?_⟩
    rw [List.cons_append] at hchain
    exact hchain.tail

section Edit

variable [DecidableEq α]

/-- A new node before the head: it becomes the last one. -/
theorem ring_insert_before (h : Ring next prev a t) (hnd : (a :: t).Nodup) (hn : n ∉ a :: t) :
    Ring (Function.update (Function.update next n a) (prev a) n)
      (Function.update (Function.update prev n (prev a)) a n) a (t ++ [n]) := by
  obtain ⟨s, hs, hchain, hlast⟩ := ring_last h
  set z := prev a with hz
  have hzmem : z ∈ a :: t := by rw [hs]; simp
  have hzn : n ≠ z := fun h => hn (h ▸ hzmem)
  have han : n ≠ a := fun h => hn (by simp [h])
  have hnds := hnd
  rw [hs, List.nodup_append] at hnds
  unfold Ring
  rw [List.append_assoc, ← List.cons_append, hs, List.append_assoc, List.singleton_append,
    List.singleton_append, List.isChain_split]
  refine ⟨linked_congr hchain (fun x hx => ?_) (fun x hx => ?_), ?_⟩
  · rw [List.dropLast_concat] at hx
    have hxmem : x ∈ a :: t := by rw [hs]; simp [hx]
    have hxz : x ≠ z := fun h => hnds.2.2 x hx z (by simp) h
    have hxn : x ≠ n := fun h => hn (h ▸ hxmem)
    rw [Function.update_of_ne hxz, Function.update_of_ne hxn]
  · rw [← hs, List.tail_cons] at hx
    have hxa : x ≠ a := fun h => (List.nodup_cons.1 hnd).1 (h ▸ hx)
    have hxn : x ≠ n := fun h => hn (by simp [← h, hx])
    rw [Function.update_of_ne hxa, Function.update_of_ne hxn]
  · rw [List.isChain_cons_cons, List.isChain_cons_cons]
    refine ⟨⟨?_, ?_⟩, ⟨?_, ?_⟩, .singleton a⟩
    · simp
    · rw [Function.update_of_ne han]
      simp
    · rw [Function.update_of_ne hzn]
      simp
    · simp

/-- A new node after the head. -/
theorem ring_insert_after (h : Ring next prev a t) (hnd : (a :: t).Nodup) (hn : n ∉ a :: t) :
    Ring (Function.update (Function.update next n (next a)) a n)
      (Function.update (Function.update prev n a) (next a) n) a (n :: t) := by
  have han : n ≠ a := fun h => hn (by simp [h])
  obtain ⟨y, u, hyu⟩ : ∃ y u, t ++ [a] = y :: u := by
    cases t with
    | nil => exact ⟨a, [], rfl⟩
    | cons y t => exact ⟨y, t ++ [a], rfl⟩
  unfold Ring at h ⊢
  rw [hyu] at h
  obtain ⟨⟨hay, hya⟩, hchain⟩ := List.isChain_cons_cons.1 h
  have hmem : ∀ x ∈ y :: u, x ∈ a :: t := by
    intro x hx
    rw [← hyu] at hx
    simp only [List.mem_append, List.mem_singleton] at hx
    rcases hx with hx | rfl
    · exact List.mem_cons_of_mem _ hx
    · exact List.mem_cons_self
  have hyn : n ≠ y := fun h => hn (hmem n (by simp [h]))
  have hndyu : (y :: u).Nodup := by
    rw [← hyu]
    exact (List.perm_append_singleton a t).nodup_iff.2 hnd
  rw [hay, List.cons_append, hyu, List.isChain_cons_cons, List.isChain_cons_cons]
  refine ⟨⟨by simp, ?_⟩, ⟨?_, by simp⟩, linked_congr hchain (fun x hx => ?_) (fun x hx => ?_)⟩
  · rw [Function.update_of_ne hyn]
    simp
  · rw [Function.update_of_ne han]
    simp
  · rw [← hyu, List.dropLast_concat] at hx
    have hxa : x ≠ a := fun h => (List.nodup_cons.1 hnd).1 (h ▸ hx)
    have hxn : x ≠ n := fun h => hn (by simp [← h, hx])
    rw [Function.update_of_ne hxa, Function.update_of_ne hxn]
  · rw [List.tail_cons] at hx
    have hxy : x ≠ y := fun h => (List.nodup_cons.1 hndyu).1 (h ▸ hx)
    have hxn : x ≠ n := fun h => hn (hmem n (by simp [← h, hx]))
    rw [Function.update_of_ne hxy, Function.update_of_ne hxn]

/-- The head leaves a ring, and becomes one of its own. -/
theorem ring_remove {x : α} (h : Ring next prev a (x :: t)) (hnd : (a :: x :: t).Nodup) :
    Ring (Function.update (Function.update next (prev a) (next a)) a a)
      (Function.update (Function.update prev (next a) (prev a)) a a) x t := by
  obtain ⟨hax, s, hxt, hchain⟩ := ring_body h
  set z := prev a with hz
  have hzmem : z ∈ x :: t := by rw [hxt]; simp
  obtain ⟨ha, hndx⟩ := List.nodup_cons.1 hnd
  have ham : ∀ y ∈ x :: t, y ≠ a := fun y hy h => ha (h ▸ hy)
  have hnds := hndx
  rw [hxt, List.nodup_append] at hnds
  unfold Ring
  rw [hax, ← List.cons_append, hxt, List.append_assoc, List.singleton_append,
    List.isChain_split]
  refine ⟨linked_congr hchain (fun y hy => ?_) (fun y hy => ?_), ?_⟩
  · rw [List.dropLast_concat] at hy
    have hym : y ∈ x :: t := by rw [hxt]; simp [hy]
    have hyz : y ≠ z := fun h => hnds.2.2 y hy z (by simp) h
    rw [Function.update_of_ne (ham y hym), Function.update_of_ne hyz]
  · rw [← hxt, List.tail_cons] at hy
    have hyx : y ≠ x := fun h => (List.nodup_cons.1 hndx).1 (h ▸ hy)
    rw [Function.update_of_ne (ham y (by simp [hy])), Function.update_of_ne hyx]
  · rw [List.isChain_cons_cons]
    refine ⟨⟨?_, ?_⟩, .singleton x⟩
    · rw [Function.update_of_ne (ham z hzmem)]
      simp
    · rw [Function.update_of_ne (ham x (by simp))]
      simp

end Edit

/-- The links lead through a finite set of nodes in rings. -/
theorem exists_ring {l : List α} (hnext : ∀ x ∈ l, next x ∈ l) (hback : ∀ x ∈ l, prev (next x) = x)
    (ha : a ∈ l) : ∃ t, Ring next prev a t ∧ (a :: t).Nodup ∧ ∀ x ∈ a :: t, x ∈ l := by
  have hmem : ∀ i, next^[i] a ∈ l := by
    intro i
    induction i with
    | zero => exact ha
    | succ i ih =>
      rw [Function.iterate_succ_apply']
      exact hnext _ ih
  -- `next` permutes the nodes, so some number of steps leads back to `a`
  set step : {x // x ∈ l} → {x // x ∈ l} := fun x => ⟨next x, hnext x x.2⟩
  have hinj : Function.Injective step := by
    intro x y hxy
    have hnext' : next x = next y := congrArg Subtype.val hxy
    exact Subtype.ext ((hback x x.2).symm.trans ((congrArg prev hnext').trans (hback y y.2)))
  have hiter : ∀ i, (step^[i] ⟨a, ha⟩).1 = next^[i] a := by
    intro i
    induction i with
    | zero => rfl
    | succ i ih => rw [Function.iterate_succ_apply', Function.iterate_succ_apply', ← ih]
  have hfinite : Finite {x // x ∈ l} := List.finite_toSet l
  have hperiodic : a ∈ Function.periodicPts next := by
    obtain ⟨m, hm, hp⟩ := Function.mem_periodicPts.1 (hinj.mem_periodicPts ⟨a, ha⟩)
    exact ⟨m, hm, (hiter m).symm.trans (congrArg Subtype.val hp)⟩
  obtain ⟨m, hm⟩ : ∃ m, Function.minimalPeriod next a = m + 1 :=
    ⟨_, (Nat.succ_pred_eq_of_pos (Function.minimalPeriod_pos_of_mem_periodicPts hperiodic)).symm⟩
  have hcycle : next^[m + 1] a = a := hm ▸ Function.iterate_minimalPeriod
  have hsplit : a :: (List.range m).map (fun i => next^[i + 1] a) =
      (List.range (m + 1)).map fun i => next^[i] a := by
    rw [List.range_succ_eq_map, List.map_cons, List.map_map]
    rfl
  refine ⟨(List.range m).map fun i => next^[i + 1] a, ?_, ?_, ?_⟩
  · have hclosed : (List.range (m + 1)).map (fun i => next^[i] a) ++ [a] =
        (List.range (m + 1 + 1)).map fun i => next^[i] a := by
      rw [List.range_succ (n := m + 1), List.map_append, List.map_singleton, hcycle]
    unfold Ring
    rw [← List.cons_append, hsplit, hclosed, List.isChain_map, List.isChain_range_succ]
    intro i _
    rw [Function.iterate_succ_apply']
    exact ⟨rfl, hback _ (hmem i)⟩
  · rw [hsplit]
    refine List.Nodup.map_on ?_ List.nodup_range
    intro i hi j hj hij
    rw [List.mem_range, ← hm] at hi hj
    exact Function.iterate_injOn_Iio_minimalPeriod hi hj hij
  · intro x hx
    rw [hsplit] at hx
    obtain ⟨i, -, rfl⟩ := List.mem_map.1 hx
    exact hmem i

end Isambard.Lib
