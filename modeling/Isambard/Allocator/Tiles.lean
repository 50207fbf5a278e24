import Isambard.Allocator.Donate

/-!
# Allocator.Tiles — what a donated range becomes

`make_list_of_freed_chunks` cuts a range into chunks as large as they can be, and
`make_available_all_freed_chunks` merges them into the available list. Both go wrong for
one address: the chunk at address 0 is the null pointer, and with it a list ends.

* `Cuts`: the chunks that a range should be cut into;
* `Freed`, `Ascending`: the two lists;
* `pushAll_freed`, `Freed.release`: one step each, for any range above address 0.
-/

namespace Isambard.Allocator

open Isambard.Lib

/-- A list of different pointers is short enough to be walked over. -/
theorem length_lt_of_pointers {l : List ℕ} (hnd : l.Nodup) (h0 : 0 ∉ l)
    (hb : ∀ a ∈ l, a < 2 ^ 64) : l.length < maxSteps := by
  have hle : l.length ≤ 2 ^ 64 - 1 := length_le_of_nodup hnd fun a ha =>
    ⟨Nat.one_le_iff_ne_zero.2 fun h => h0 (h ▸ ha), hb a ha⟩
  unfold maxSteps
  omega

/-! ## The chunks -/

/-- The end of the last page of `[p, end')`. -/
def lastPage (p end' : ℕ) : ℕ := p + (end' - p) / 4096 * 4096

/-- Two chunks, one after the other, that could be one. -/
def Mergeable (t u : ℕ × ℕ) : Prop :=
  ∃ n ≤ 34, 2 ^ t.2 + 2 ^ u.2 = 2 ^ n ∧ t.1 % 2 ^ n = 0

/-- The chunks `ts`, in ascending order, are as large as they can be and leave nothing
of the pages of `[p, end')` out. -/
structure Cuts (p end' : ℕ) (ts : List (ℕ × ℕ)) : Prop where
  tiling : Tiling p (ts.map tileRange) (lastPage p end')
  size : ∀ t ∈ ts, 12 ≤ t.2 ∧ t.2 ≤ 34 ∧ t.1 % 2 ^ t.2 = 0
  unmergeable : ts.IsChain fun t u => ¬ Mergeable t u

theorem add_two_pow_eq {a b n : ℕ} (h : 2 ^ a + 2 ^ b = 2 ^ n) : a = b ∧ n = a + 1 := by
  have key : ∀ {a b : ℕ}, a < b → 2 ^ a + 2 ^ b ≠ 2 ^ n := by
    intro a b hab heq
    have hpos := Nat.two_pow_pos a
    have hlt : 2 ^ a < 2 ^ b := Nat.pow_lt_pow_right (by omega) hab
    have hbn : b < n := (Nat.pow_lt_pow_iff_right (by omega)).1 (by omega : 2 ^ b < 2 ^ n)
    have hle : 2 ^ (b + 1) ≤ 2 ^ n := Nat.pow_le_pow_right (by omega) hbn
    rw [pow_succ] at hle
    omega
  rcases Nat.lt_trichotomy a b with hlt | rfl | hlt
  · exact absurd h (key hlt)
  · refine ⟨rfl, Nat.pow_right_injective (le_refl 2) ?_⟩
    show 2 ^ n = 2 ^ (a + 1)
    rw [← h, pow_succ]
    ring
  · exact absurd (by rw [← h]; ring) (key hlt)

/-- The largest chunks are not mergeable with those that follow them. -/
theorem unmergeable_of_largest {p q end' : ℕ} {ts : List (ℕ × ℕ)}
    (htl : Tiling p (ts.map tileRange) q) (hq : q ≤ end') (h : ∀ t ∈ ts, Largest end' t) :
    ts.IsChain fun t u => ¬ Mergeable t u := by
  induction ts generalizing p with
  | nil => exact .nil
  | cons t ts ih =>
    rcases htl with ⟨-, -, htl⟩
    have htail := ih htl fun u hu => h u (List.mem_cons_of_mem t hu)
    cases ts with
    | nil => exact .singleton t
    | cons u us =>
      refine List.isChain_cons_cons.2 ⟨?_, htail⟩
      rintro ⟨n, hn, hsum, hal⟩
      rcases add_two_pow_eq hsum with ⟨hsame, rfl⟩
      rcases tiling_mem htl List.mem_cons_self with ⟨hnext, -, hend⟩
      simp only [tileRange] at hnext hend
      rcases h t List.mem_cons_self with h34 | hroom | hodd
      · omega
      · rw [pow_succ] at hroom
        rw [← hsame] at hend
        omega
      · exact hodd hal

/-- `make_list_of_freed_chunks` returns, and its chunks are these. -/
theorem makeListOfFreedChunks_cuts {p end' : ℕ} (s : State) (hp : p % 4096 = 0) (hpe : p ≤ end')
    (he : end' < 2 ^ 64) :
    ∃ ts, makeListOfFreedChunks s p end' = some (s.pushAll ts) ∧ Cuts p end' ts := by
  rcases initialiseBlocks_largest he 22 le_rfl p s hpe hp with
    ⟨q, ts, hcut, hqe, hqa, hqr, htl, hts⟩
  have hq : q = lastPage p end' := by
    have hple := tiling_le htl
    unfold lastPage
    omega
  refine ⟨ts, ?_, hq ▸ htl, fun t ht => (hts t ht).1, ?_⟩
  · simp [makeListOfFreedChunks, hcut]
  · exact unmergeable_of_largest htl hqe fun t ht => (hts t ht).2

/-! ## The two lists -/

/-- The freed chunks are `ts`, the highest at the head. -/
structure Freed (s : State) (ts : List (ℕ × ℕ)) : Prop where
  seg : Seg s.next s.freedChunks (ts.map Prod.fst).reverse 0
  nonnull : 0 ∉ ts.map Prod.fst
  log2size : ∀ t ∈ ts, (s.mem t.1).log2size = t.2

/-- The available chunks start at the addresses `l`, which ascend. -/
structure Ascending (s : State) (l : List ℕ) : Prop where
  seg : Seg s.next s.availableChunks l 0
  nonnull : 0 ∉ l
  sorted : l.Pairwise (· < ·)

theorem Ascending.nodup {s : State} {l : List ℕ} (h : Ascending s l) : l.Nodup :=
  h.sorted.imp fun h => Nat.ne_of_lt h

theorem Ascending.congr {s s' : State} {l : List ℕ} (h : Ascending s l)
    (hav : s'.availableChunks = s.availableChunks) (hmem : ∀ a ∈ l, s'.mem a = s.mem a) :
    Ascending s' l := by
  refine ⟨?_, h.nonnull, h.sorted⟩
  rw [hav]
  exact seg_congr (fun a ha => by simp [State.next, hmem a ha]) h.seg

section Tiles

variable {s : State} {p q : ℕ} {ts : List (ℕ × ℕ)} {l : List ℕ}

theorem tiles_mem (htl : Tiling p (ts.map tileRange) q) {a : ℕ} (ha : a ∈ ts.map Prod.fst) :
    p ≤ a ∧ a < q := by
  rcases List.mem_map.1 ha with ⟨t, ht, rfl⟩
  have hmem := tiling_mem htl (List.mem_map_of_mem ht)
  simp only [tileRange] at hmem
  omega

theorem tiles_nodup (htl : Tiling p (ts.map tileRange) q) : (ts.map Prod.fst).Nodup :=
  (tiles_sorted htl).imp fun h => Nat.ne_of_lt h

theorem tiles_nonnull (htl : Tiling p (ts.map tileRange) q) (hp : p ≠ 0) :
    0 ∉ ts.map Prod.fst := fun h0 => hp (Nat.le_zero.1 (tiles_mem htl h0).1)

/-- Chunks above address 0 are the freed list, and nothing else changes. -/
theorem pushAll_freed (hf : s.freedChunks = 0) (htl : Tiling p (ts.map tileRange) q)
    (h0 : 0 ∉ ts.map Prod.fst) : Freed (s.pushAll ts) ts ∧
      (s.pushAll ts).availableChunks = s.availableChunks ∧
      ∀ a, a ∉ ts.map Prod.fst → (s.pushAll ts).mem a = s.mem a := by
  rcases pushAll_spec s ts (tiles_nodup htl) with ⟨hseg, hlog, hmem, hav⟩
  rw [hf] at hseg
  exact ⟨⟨hseg, h0, hlog⟩, hav, hmem⟩

/-- They are merged into the available list. -/
theorem Freed.release (h : Freed s ts) (htl : Tiling p (ts.map tileRange) q) (hq : q ≤ 2 ^ 64)
    (hl : Ascending s l) (hlt : ∀ a ∈ l, a < 2 ^ 64) (hout : ∀ a ∈ l, ¬ (p ≤ a ∧ a < q)) :
    ∃ s' l', makeAvailableAllFreedChunks s = some s' ∧ Ascending s' l' ∧
      l'.Perm (ts.map Prod.fst ++ l) ∧ s'.freedChunks = 0 ∧
      ∀ a, (s'.mem a).log2size = (s.mem a).log2size := by
  have h0 : 0 ∉ (ts.map Prod.fst).reverse ++ l := by
    rw [List.mem_append, List.mem_reverse, not_or]
    exact ⟨h.nonnull, hl.nonnull⟩
  have hnd : ((ts.map Prod.fst).reverse ++ l).Nodup := by
    refine List.nodup_append.2 ⟨List.nodup_reverse.2 (tiles_nodup htl), hl.nodup, ?_⟩
    rintro a ha b hb rfl
    exact hout a hb (tiles_mem htl (List.mem_reverse.1 ha))
  have hlen : ((ts.map Prod.fst).reverse ++ l).length < maxSteps := by
    refine length_lt_of_pointers hnd h0 fun a ha => ?_
    rcases List.mem_append.1 ha with ha | ha
    · have := tiles_mem htl (List.mem_reverse.1 ha)
      omega
    · exact hlt a ha
  rcases makeAvailableLoop_spec maxSteps h.seg hl.seg h0 hl.sorted hnd hlen
    (by simp only [List.length_append] at hlen; omega) with
    ⟨s', l', hloop, hperm, hsort, hseg, hfr, hlog, -⟩
  have hperm' : l'.Perm (ts.map Prod.fst ++ l) :=
    hperm.trans ((List.reverse_perm _).append_right l)
  refine ⟨s', l', hloop, ⟨hseg, fun hm => h0 (hperm.mem_iff.1 hm), hsort⟩, hperm', hfr, hlog⟩

end Tiles
/-! ## Whole donations -/

/-- The chunks of `[p, end')` are made, and are merged into whatever list of available
chunks there is outside it: none of either is lost, or changes its size. -/
def Donates (s : State) (p end' : ℕ) : Prop :=
  ∃ s₁ ts, makeListOfFreedChunks s p end' = some s₁ ∧ Cuts p end' ts ∧ Freed s₁ ts ∧
    ∀ l, Ascending s l → (∀ a ∈ l, a < 2 ^ 64 ∧ ¬ (p ≤ a ∧ a < lastPage p end')) →
      ∃ s₂ l', makeAvailableAllFreedChunks s₁ = some s₂ ∧ Ascending s₂ l' ∧
        l'.Perm (ts.map Prod.fst ++ l) ∧ s₂.freedChunks = 0 ∧
        (∀ t ∈ ts, (s₂.mem t.1).log2size = t.2) ∧
        ∀ a ∈ l, (s₂.mem a).log2size = (s.mem a).log2size

section Donations

variable {s : State} {p end' : ℕ}

/-- The chunk at address 0 ends the list. -/
theorem not_donates_zero (he : 4096 ≤ end') : ¬ Donates s 0 end' := by
  rintro ⟨s₁, ts, -, hcuts, hfreed, -⟩
  have htl := hcuts.tiling
  cases ts with
  | nil =>
    have h0 : 0 = lastPage 0 end' := htl
    unfold lastPage at h0
    omega
  | cons t ts =>
    have ht : t.1 = 0 := htl.1
    exact hfreed.nonnull (ht ▸ List.mem_map_of_mem List.mem_cons_self)

theorem donates_nonzero (hf : s.freedChunks = 0) (hp : p % 4096 = 0) (hpe : p ≤ end')
    (he : end' < 2 ^ 64) (h0 : p ≠ 0) : Donates s p end' := by
  rcases makeListOfFreedChunks_cuts s hp hpe he with ⟨ts, hmake, hcuts⟩
  rcases pushAll_freed hf hcuts.tiling
    (tiles_nonnull hcuts.tiling h0) with ⟨hfreed, hav, hmem⟩
  refine ⟨_, ts, hmake, hcuts, hfreed, fun l hl hout => ?_⟩
  have hold : ∀ a ∈ l, (s.pushAll ts).mem a = s.mem a := fun a ha =>
    hmem a fun hm => (hout a ha).2 (tiles_mem hcuts.tiling hm)
  have hq : lastPage p end' ≤ 2 ^ 64 := by
    unfold lastPage
    omega
  rcases hfreed.release hcuts.tiling hq (hl.congr hav hold) (fun a ha => (hout a ha).1)
    (fun a ha => (hout a ha).2) with ⟨s₂, l', hrel, hl', hperm, hfr, hlog⟩
  refine ⟨s₂, l', hrel, hl', hperm, hfr, fun t ht => ?_, fun a ha => ?_⟩
  · rw [hlog, hfreed.log2size t ht]
  · rw [hlog, hold a ha]

/-- Less than a page at address 0 becomes no chunk at all. -/
theorem donates_nothing (hf : s.freedChunks = 0) (he : end' < 4096) : Donates s 0 end' := by
  rcases makeListOfFreedChunks_cuts s (p := 0) rfl (Nat.zero_le end') (by omega) with
    ⟨ts, hmake, hcuts⟩
  have hlast : lastPage 0 end' = 0 := by
    unfold lastPage
    omega
  cases ts with
  | cons t ts =>
    have hle := tiling_mem hcuts.tiling List.mem_cons_self
    omega
  | nil =>
    have hfreed : Freed s [] := ⟨hf, List.not_mem_nil, fun t ht => absurd ht List.not_mem_nil⟩
    refine ⟨s, [], hmake, hcuts, hfreed, fun l hl hout => ?_⟩
    rcases hfreed.release (p := 0) (q := 0) rfl (by omega) hl (fun a ha => (hout a ha).1)
      (fun a _ => by omega) with ⟨s₂, l', hrel, hl', hperm, hfr, hlog⟩
    exact ⟨s₂, l', hrel, hl', hperm, hfr, fun t ht => absurd ht List.not_mem_nil,
      fun a _ => hlog a⟩

/-- A range of pages becomes available, unless address 0 is one of them. -/
theorem donates_iff (hf : s.freedChunks = 0) (hp : p % 4096 = 0) (hpe : p ≤ end')
    (he : end' < 2 ^ 64) : Donates s p end' ↔ p ≠ 0 ∨ end' < 4096 := by
  constructor
  · intro h
    by_contra hn
    rw [not_or, not_not] at hn
    rcases hn with ⟨rfl, hpage⟩
    exact not_donates_zero (Nat.not_lt.1 hpage) h
  · rintro (h0 | hpage)
    · exact donates_nonzero hf hp hpe he h0
    · obtain rfl : p = 0 := by omega
      exact donates_nothing hf hpage

end Donations

/-- The driver as it starts. -/
def emptyLists : State := ⟨fun _ => ⟨0, 0⟩, 0, 0⟩

/-- The two pages from 4096 are one chunk each, as the first cannot be a chunk of 8KB. -/
theorem donates_iff_two_pages :
    Donates emptyLists 0x1000 0x3000 ↔ 0x1000 ≠ 0 ∨ 0x3000 < 4096 :=
  donates_iff rfl (by decide) (by decide) (by decide)

/-- The page at address 0 is lost. -/
theorem page_zero_lost : emptyLists.freedChunks = 0 ∧ ¬ Donates emptyLists 0 4096 :=
  ⟨rfl, not_donates_zero le_rfl⟩

end Isambard.Allocator
