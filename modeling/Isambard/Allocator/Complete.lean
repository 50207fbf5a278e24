import Isambard.Allocator.Mapped
import Isambard.Allocator.Headers

/-!
# Allocator.Complete — when an allocation may fail

After donations only, whatever their ranges, the available chunks are an ascending list:
a chunk at address 0 is lost, and the rest is as in `Allocator.Invariant`, with the ranges
that are kept in the place of those donated (`donations_inv`).

`allocate` takes the sizes of chunks modulo 2 ^ 32, or rather it shifts by their logarithms
modulo 32. A chunk of 4GB is one of a byte to it, and never large enough.
-/

namespace Isambard.Allocator

open Isambard.Lib

/-- Pages below 8GB are donated, none of them twice. -/
def Donated (y : Sys) : Op → Prop
  | .donate p end' => p ≤ end' ∧ end' ≤ mappedTop ∧ p % 4096 = 0 ∧ end' % 4096 = 0 ∧
      ∀ x ∈ bytes y.donated, ¬ (p ≤ x ∧ x < end')
  | _ => False

/-- The driver while memory is only donated. -/
def donations : System Sys Op where
  init := system.init
  step y op z := Donated y op ∧ y.next op = some z

/-- What `allocate` should do for a request: it gives up only if no available chunk is
large enough. -/
def Complete (s : State) (size : ℕ) : Prop :=
  ∃ s' addr, allocate s size = some (s', addr) ∧
    (addr = 0 → ∀ a, OnList s a → 2 ^ (s.mem a).log2size < size)

/-- If a chunk is large enough, one of 2GB or less is. -/
def FitsSmall (s : State) (size : ℕ) : Prop :=
  ∀ a, OnList s a → size ≤ 2 ^ (s.mem a).log2size →
    ∃ c, OnList s c ∧ (s.mem c).log2size < 32 ∧ size ≤ 2 ^ (s.mem c).log2size

/-! ## The available chunks -/

theorem seg_closed {next : ℕ → ℕ} {b : ℕ} {l : List ℕ} (hs : Seg next b l 0) :
    (b = 0 ∨ b ∈ l) ∧ ∀ a ∈ l, next a = 0 ∨ next a ∈ l := by
  induction l generalizing b with
  | nil => exact ⟨.inl hs, fun a ha => absurd ha List.not_mem_nil⟩
  | cons c l ih =>
    rcases hs with ⟨rfl, hs⟩
    rcases ih hs with ⟨hnext, hrest⟩
    refine ⟨.inr List.mem_cons_self, fun a ha => ?_⟩
    rcases List.mem_cons.1 ha with rfl | ha
    · exact hnext.imp id fun hm => List.mem_cons_of_mem a hm
    · exact (hrest a ha).imp id fun hm => List.mem_cons_of_mem b hm

theorem Available.onList_iff {s : State} {l : List ℕ} (h : Available s l)
    (hf : s.freedChunks = 0) (a : ℕ) : OnList s a ↔ a ∈ l := by
  constructor
  · intro ha
    rcases seg_closed h.seg with ⟨hhead, hnext⟩
    have hclosed : Closed s {a | a ∈ l} := ⟨hhead, .inl hf, hnext⟩
    exact hclosed.onList ha
  · intro ha
    rcases List.append_of_mem ha with ⟨l₁, l₂, rfl⟩
    rcases seg_append.1 h.seg with ⟨m, hs, rfl, -⟩
    refine ⟨fun h0 => h.nonnull (h0 ▸ ha), l₁, hs, fun h0 => ?_⟩
    exact h.nonnull (List.mem_append_left _ h0)

/-- An allocation is complete when a small chunk fits if any does. -/
theorem Available.complete_iff {s : State} {l : List ℕ} (h : Available s l)
    (hf : s.freedChunks = 0) {size : ℕ} (hsize : 4096 ≤ size) :
    Complete s size ↔ FitsSmall s size := by
  have hlist := h.onList_iff hf
  rcases allocate_result size h with ⟨hall, halloc⟩ | ⟨c, hc, hfit, s', halloc⟩
  · -- all chunks are too small, or look so
    constructor
    · rintro ⟨s', addr, heq, hnone⟩ a ha hlarge
      rw [halloc] at heq
      cases heq
      exact absurd (hnone rfl a ha) (Nat.not_lt.2 hlarge)
    · intro hsmall
      refine ⟨s, 0, halloc, fun _ a ha => ?_⟩
      by_contra hlarge
      rcases hsmall a ha (Nat.not_lt.1 hlarge) with ⟨c, hc, hc32, hcfit⟩
      have hlt := hall c ((hlist c).1 hc)
      rw [shl32_of_lt hc32] at hlt
      omega
  · -- a chunk is found, and its size is what it looks like
    have hc32 : (s.mem c).log2size < 32 := lt_of_le_shl32 (h.size c hc).2 hsize hfit
    have hc0 : c ≠ 0 := fun h0 => h.nonnull (h0 ▸ hc)
    rw [shl32_of_lt hc32] at hfit
    refine iff_of_true ⟨s', _, halloc, fun h0 => absurd h0 (by omega)⟩ fun a _ _ => ?_
    exact ⟨c, (hlist c).2 hc, hc32, hfit⟩

/-! ## Donations -/

/-- Some of the donated ranges are kept, and are the available chunks. -/
def Stocked (y : Sys) : Prop :=
  ∃ kept l, Inv ⟨y.state, kept, []⟩ l ∧ bytes kept ⊆ bytes y.donated

theorem stocked_donate {y z : Sys} {p end' : ℕ} (h : Stocked y)
    (hd : Donated y (.donate p end')) (hs : y.next (.donate p end') = some z) : Stocked z := by
  rcases h with ⟨kept, l, hinv, hsub⟩
  rcases hd with ⟨hpe, he, hp, he4, hdis⟩
  have htop : mappedTop < 2 ^ 36 := by decide
  have hkept : ∀ x ∈ bytes kept, ¬ (p ≤ x ∧ x < end') := fun x hx => hdis x (hsub hx)
  rcases makeListOfFreedChunks_cuts y.state hp hpe (by omega) with ⟨ts, hmake, hcuts⟩
  have hlast : lastPage p end' = end' := by
    unfold lastPage
    omega
  have htl := hcuts.tiling
  rw [hlast] at htl
  -- the chunks above address 0 are kept
  have key : ∃ s' l' q, makeAvailableAllFreedChunks (y.state.pushAll ts) = some s' ∧ p ≤ q ∧
      Inv ⟨s', (q, end') :: kept, []⟩ l' := by
    cases ts with
    | nil =>
      rcases hinv.push htl hcuts.size List.not_mem_nil (by omega) hkept with ⟨s', l', hrel, hinv'⟩
      exact ⟨s', l', p, hrel, le_rfl, hinv'⟩
    | cons t ts =>
      by_cases ht : t.1 = 0
      · -- the chunk at address 0 is stored to, and is lost
        have hfirst : y.state.pushFreed t.1 t.2 =
            { y.state with mem := Function.update y.state.mem 0 ⟨t.2, y.state.freedChunks⟩ } := by
          rw [ht, State.pushFreed, ← hinv.freed]
        have hinv₀ := hinv.update (v := ⟨t.2, y.state.freedChunks⟩) hinv.available.nonnull
        simp only at hinv₀
        rw [← hfirst] at hinv₀
        have hple : p ≤ t.1 + 2 ^ t.2 := Nat.le_add_right_of_le (Nat.le_of_eq htl.1.symm)
        rcases hinv₀.push htl.2.2 (fun u hu => hcuts.size u (List.mem_cons_of_mem t hu))
          (tiles_nonnull htl.2.2 (by simp [tileRange])) (by omega)
          (fun x hx hin => hkept x hx ⟨hple.trans hin.1, hin.2⟩) with ⟨s', l', hrel, hinv'⟩
        exact ⟨s', l', _, hrel, hple, hinv'⟩
      · have hp0 : p ≠ 0 := fun h0 => ht (htl.1.trans h0)
        rcases hinv.push htl hcuts.size (tiles_nonnull htl hp0) (by omega) hkept with
          ⟨s', l', hrel, hinv'⟩
        exact ⟨s', l', p, hrel, le_rfl, hinv'⟩
  rcases key with ⟨s', l', q, hrel, hpq, hinv'⟩
  simp only [Sys.next, entry, if_true, hmake, hrel, Option.map_some, Option.some.injEq] at hs
  subst hs
  refine ⟨(q, end') :: kept, l', hinv', ?_⟩
  rw [bytes_cons, bytes_cons]
  exact Set.union_subset_union (Set.Ico_subset_Ico_left hpq) hsub

theorem donations_stocked {y : Sys} (h : donations.Reachable y) : Stocked y := by
  refine h.invariant (P := Stocked) ?_ ?_
  · rintro y ⟨hf, hav, -, -⟩
    have hinit : system.init ⟨y.state, [], []⟩ := ⟨hf, hav, rfl, rfl⟩
    exact ⟨[], [], init_inv hinit, by simp⟩
  · rintro y op z hy ⟨hd, hs⟩
    cases op with
    | donate p end' => exact stocked_donate hy hd hs
    | allocate size => exact absurd hd id
    | use a v => exact absurd hd id

/-- In every state that donations lead to, an allocation is complete exactly when no chunk
of 4GB or more is needed. -/
theorem allocate_complete_iff {y : Sys} (h : donations.Reachable y) {size : ℕ}
    (hsize : 4096 ≤ size) : Complete y.state size ↔ FitsSmall y.state size := by
  rcases donations_stocked h with ⟨kept, l, hinv, -⟩
  exact hinv.available.complete_iff hinv.freed hsize

/-! ### Two donations -/

def given4K : Sys := (start.next (.donate 0x1000 0x2000)).getD start

def given4G : Sys := (start.next (.donate 0x100000000 0x200000000)).getD start

theorem start_reachable : donations.Reachable start := .init ⟨rfl, rfl, rfl, rfl⟩

theorem given4K_reachable : donations.Reachable given4K := by
  refine .step (i := .donate 0x1000 0x2000) start_reachable ⟨?_, rfl⟩
  exact ⟨by decide, by decide, by decide, by decide, by simp [start]⟩

theorem given4G_reachable : donations.Reachable given4G := by
  refine .step (i := .donate 0x100000000 0x200000000) start_reachable ⟨?_, rfl⟩
  exact ⟨by decide, by decide, by decide, by decide, by simp [start]⟩

theorem allocate_complete_iff_4K : Complete given4K.state 0x1000 ↔ FitsSmall given4K.state 0x1000 :=
  allocate_complete_iff given4K_reachable (by decide)

/-- 4GB are available in one chunk, and there is no page. -/
theorem no_page_in_4G : donations.Reachable given4G ∧ ¬ Complete given4G.state 0x1000 := by
  refine ⟨given4G_reachable, ?_⟩
  rintro ⟨s', addr, halloc, hnone⟩
  have haddr : (allocate given4G.state 0x1000).map Prod.snd = some 0 := by decide +kernel
  rw [halloc] at haddr
  have hlist : OnList given4G.state 0x100000000 :=
    ⟨by decide, [], by decide +kernel, List.not_mem_nil⟩
  have hlog : (given4G.state.mem 0x100000000).log2size = 32 := by decide +kernel
  have hlt := hnone (by simpa using haddr) _ hlist
  rw [hlog] at hlt
  omega

end Isambard.Allocator
