import Isambard.Lib.Chain
import Isambard.Lib.Ranges
import Isambard.Allocator.Model
import Mathlib.Tactic.Ring
import Mathlib.Data.List.Sort

/-!
# Allocator.Donate — cutting up a donated range

What `entry( 0, p, end )` does, in three steps:

* `initialiseBlocks_spec`: the nest of `blocks` cuts `[p, end)` into aligned
  chunks that tile it up to less than a page;
* `pushAll_spec`: these chunks then are the freed list, highest first;
* `makeAvailable_spec`: each of them is inserted into the available list, which
  stays in the order of the addresses.

The list edits go through one link, either the head variable or the `next`
field of the last node walked over; `setLink_seg` is the rule for that edit.
-/

namespace Isambard.Allocator

open Isambard.Lib

/-- The `next` fields of the chunks. -/
def State.next (s : State) (a : ℕ) : ℕ := (s.mem a).next

/-- A chunk, by its address and the logarithm of its size, as a range. -/
def tileRange (t : ℕ × ℕ) : Range := (t.1, t.1 + 2 ^ t.2)

theorem sub64_of_le {a b : ℕ} (h : b ≤ a) (ha : a < 2 ^ 64) : sub64 a b = a - b := by
  unfold sub64
  omega

theorem add64_of_lt {a b : ℕ} (h : a + b < 2 ^ 64) : add64 a b = a + b :=
  Nat.mod_eq_of_lt h

/-! ## The chunks a range is cut into -/

/-- The chunks `ts`, in ascending order, become the head of the freed list. -/
def State.pushAll (s : State) (ts : List (ℕ × ℕ)) : State :=
  ts.foldl (fun s t => s.pushFreed t.1 t.2) s

/-- What the nest of `blocks` from `min` upwards does to `[p, end')`. -/
def CutsUp (end' min : ℕ) (f : ℕ × State → Option (ℕ × State)) : Prop :=
  ∀ p s, p ≤ end' → p % 2 ^ min = 0 → ∃ q ts,
    f (p, s) = some (q, s.pushAll ts) ∧ q ≤ end' ∧ q % 2 ^ min = 0 ∧ end' - q < 2 ^ min ∧
    Tiling p (ts.map tileRange) q ∧
    ∀ t ∈ ts, min ≤ t.2 ∧ t.2 ≤ 34 ∧ t.1 % 2 ^ t.2 = 0

/-- No larger block that is aligned, and of 16GB at most, starts where the chunk does. -/
def Largest (end' : ℕ) (t : ℕ × ℕ) : Prop :=
  t.2 = 34 ∨ end' - t.1 < 2 ^ (t.2 + 1) ∨ t.1 % 2 ^ (t.2 + 1) ≠ 0

/-- As `CutsUp`, and every chunk is the largest that can start there. -/
def CutsLargest (end' min : ℕ) (f : ℕ × State → Option (ℕ × State)) : Prop :=
  ∀ p s, p ≤ end' → p % 2 ^ min = 0 → ∃ q ts,
    f (p, s) = some (q, s.pushAll ts) ∧ q ≤ end' ∧ q % 2 ^ min = 0 ∧ end' - q < 2 ^ min ∧
    Tiling p (ts.map tileRange) q ∧
    ∀ t ∈ ts, (min ≤ t.2 ∧ t.2 ≤ 34 ∧ t.1 % 2 ^ t.2 = 0) ∧ Largest end' t

theorem CutsLargest.cutsUp {end' min : ℕ} {f : ℕ × State → Option (ℕ × State)}
    (h : CutsLargest end' min f) : CutsUp end' min f := by
  intro p s hp hal
  rcases h p s hp hal with ⟨q, ts, hf, hqe, hqa, hqr, htl, hts⟩
  exact ⟨q, ts, hf, hqe, hqa, hqr, htl, fun t ht => (hts t ht).1⟩

/-- One level of the nest. `max` is 0 at the innermost level, where the
`maxaction` is never run. -/
theorem blocksLoop_cutsLargest {end' min max : ℕ} {maxaction : ℕ × State → Option (ℕ × State)}
    (he : end' < 2 ^ 64) (hmin : min ≤ 34) (htop : max = 0 → min = 34)
    (hmax : max ≠ 0 → max = min + 1 ∧ CutsLargest end' max maxaction) (fuel : ℕ) :
    ∀ p s, p ≤ end' → p % 2 ^ min = 0 → end' - p < fuel → ∃ q ts,
      blocksLoop end' min max (initialiseBlock min) maxaction fuel (p, s) =
        some (q, s.pushAll ts) ∧ q ≤ end' ∧ q % 2 ^ min = 0 ∧ end' - q < 2 ^ min ∧
      Tiling p (ts.map tileRange) q ∧
      ∀ t ∈ ts, (min ≤ t.2 ∧ t.2 ≤ 34 ∧ t.1 % 2 ^ t.2 = 0) ∧ Largest end' t := by
  -- the induction is on the rounds of the loop; the next level is `hmax`
  induction fuel with
  | zero => intro p s _ _ h; omega
  | succ fuel ih =>
    intro p s hp hal hf
    have hpos : 0 < 2 ^ min := Nat.two_pow_pos min
    unfold blocksLoop
    rw [sub64_of_le hp he]
    by_cases hroom : 2 ^ min ≤ end' - p
    swap
    · -- less than a block is left: the loop ends here
      refine ⟨p, [], ?_, hp, hal, by omega, rfl, by simp⟩
      rw [if_neg hroom]
      rfl
    rw [if_pos hroom]
    by_cases hup : max ≠ 0 ∧ 2 ^ max ≤ end' - p ∧ p % 2 ^ max = 0
    · -- the next level takes over, and comes back with less than 2 ^ max left
      rw [if_pos hup]
      obtain ⟨hm, hcuts⟩ := hmax hup.1
      obtain ⟨q, ts, hq, hqe, hqa, hqr, htl, hts⟩ := hcuts p s hp hup.2.2
      have hdvd : 2 ^ min ∣ 2 ^ max := pow_dvd_pow 2 (by omega)
      have hqa' : q % 2 ^ min = 0 :=
        Nat.mod_eq_zero_of_dvd (dvd_trans hdvd (Nat.dvd_of_mod_eq_zero hqa))
      obtain ⟨r, us, hr, hre, hra, hrr, hul, hus⟩ :=
        ih q (s.pushAll ts) hqe hqa' (by have := hup.2.1; omega)
      refine ⟨r, ts ++ us, ?_, hre, hra, hrr, ?_, ?_⟩
      · simp only [hq, hqe, hqa', and_self, if_true, hr]
        simp only [State.pushAll, List.foldl_append]
      · rw [List.map_append]
        exact tiling_append htl hul
      · intro t ht
        rcases List.mem_append.1 ht with h | h
        · rcases hts t h with ⟨⟨hlow, hsize⟩, hlargest⟩
          exact ⟨⟨by omega, hsize⟩, hlargest⟩
        · exact hus t h
    · -- one block of this level, as there is no larger one
      rw [if_neg hup]
      have hadd : add64 p (2 ^ min) = p + 2 ^ min := add64_of_lt (by omega)
      have hqa : (p + 2 ^ min) % 2 ^ min = 0 := by rw [Nat.add_mod_right]; exact hal
      have hsub : sub64 (p + 2 ^ min) p = 2 ^ min := by
        rw [sub64_of_le (by omega) (by omega)]
        omega
      have hlargest : Largest end' (p, min) := by
        by_cases h0 : max = 0
        · exact .inl (htop h0)
        · rcases hmax h0 with ⟨rfl, -⟩
          by_cases hlarge : 2 ^ (min + 1) ≤ end' - p
          · exact .inr (.inr fun h => hup ⟨h0, hlarge, h⟩)
          · exact .inr (.inl (Nat.not_le.1 hlarge))
      obtain ⟨r, us, hr, hre, hra, hrr, hul, hus⟩ :=
        ih (p + 2 ^ min) (s.pushFreed p min) (by omega) hqa (by omega)
      refine ⟨r, (p, min) :: us, ?_, hre, hra, hrr, ⟨rfl, ?_, hul⟩, ?_⟩
      · simp only [initialiseBlock, hadd, hsub, hqa, and_self, if_true, hr]
        rfl
      · simp only [tileRange]
        omega
      · intro t ht
        rcases List.mem_cons.1 ht with rfl | h
        · exact ⟨⟨le_rfl, hmin, hal⟩, hlargest⟩
        · exact hus t h

theorem blocks_cutsLargest {end' min max : ℕ} {maxaction : ℕ × State → Option (ℕ × State)}
    (he : end' < 2 ^ 64) (hmin : min ≤ 34) (htop : max = 0 → min = 34)
    (hmax : max ≠ 0 → max = min + 1 ∧ CutsLargest end' max maxaction) :
    CutsLargest end' min (blocks end' min max (initialiseBlock min) maxaction) := by
  intro p s hp hal
  have hfuel : end' - p < maxSteps := by unfold maxSteps; omega
  have h := blocksLoop_cutsLargest he hmin htop hmax maxSteps p s hp hal hfuel
  simpa [blocks, hal] using h

/-- The nest of `initialise_block`s, by induction from the innermost level. -/
theorem initialiseBlocks_largest {end' : ℕ} (he : end' < 2 ^ 64) (n : ℕ) (hn : n ≤ 22) :
    CutsLargest end' (34 - n) (initialiseBlocks end' n) := by
  induction n with
  | zero => exact blocks_cutsLargest he le_rfl (fun _ => rfl) fun h => absurd rfl h
  | succ n ih =>
    refine blocks_cutsLargest he (by omega) (by omega) fun _ => ⟨by omega, ih (by omega)⟩

theorem initialiseBlocks_spec {end' : ℕ} (he : end' < 2 ^ 64) (n : ℕ) (hn : n ≤ 22) :
    CutsUp end' (34 - n) (initialiseBlocks end' n) :=
  (initialiseBlocks_largest he n hn).cutsUp

/-! ## The freed list -/

theorem tiles_fst_gt {p q : ℕ} {ts : List (ℕ × ℕ)} (h : Tiling p (ts.map tileRange) q) :
    ∀ t ∈ ts, p ≤ t.1 := by
  intro t ht
  exact (tiling_mem h (List.mem_map_of_mem ht)).1

/-- The addresses of a tiling ascend. -/
theorem tiles_sorted {p q : ℕ} {ts : List (ℕ × ℕ)} (h : Tiling p (ts.map tileRange) q) :
    (ts.map Prod.fst).Pairwise (· < ·) := by
  induction ts generalizing p with
  | nil => exact List.Pairwise.nil
  | cons t ts ih =>
    obtain ⟨-, h₁, h₂⟩ := h
    refine List.pairwise_cons.2 ⟨fun a ha => ?_, ih h₂⟩
    obtain ⟨u, hu, rfl⟩ := List.mem_map.1 ha
    exact lt_of_lt_of_le h₁ (tiles_fst_gt h₂ u hu)

/-- The freed list after pushing the chunks of a tiling, and what is not
touched by it. -/
theorem pushAll_spec (s : State) (ts : List (ℕ × ℕ)) (hnd : (ts.map Prod.fst).Nodup) :
    Seg (s.pushAll ts).next (s.pushAll ts).freedChunks (ts.map Prod.fst).reverse
      s.freedChunks ∧
    (∀ t ∈ ts, ((s.pushAll ts).mem t.1).log2size = t.2) ∧
    (∀ a, a ∉ ts.map Prod.fst → (s.pushAll ts).mem a = s.mem a) ∧
    (s.pushAll ts).availableChunks = s.availableChunks := by
  induction ts generalizing s with
  | nil => exact ⟨rfl, by simp, fun _ _ => rfl, rfl⟩
  | cons t ts ih =>
    rw [List.map_cons, List.nodup_cons] at hnd
    obtain ⟨hseg, hlog, hmem, hav⟩ := ih (s.pushFreed t.1 t.2) hnd.2
    have hhead : (s.pushAll (t :: ts)).mem t.1 = ⟨t.2, s.freedChunks⟩ := by
      have := hmem t.1 hnd.1
      simpa [State.pushAll, State.pushFreed] using this
    refine ⟨?_, ?_, ?_, hav⟩
    · rw [List.map_cons, List.reverse_cons, seg_concat]
      refine ⟨hseg, ?_⟩
      simp [State.next, hhead]
    · intro u hu
      rcases List.mem_cons.1 hu with rfl | hu
      · rw [hhead]
      · exact hlog u hu
    · intro a ha
      rw [List.map_cons, List.mem_cons, not_or] at ha
      exact (hmem a ha.2).trans (Function.update_of_ne ha.1 _ _)

/-! ## Editing through a link -/

theorem setNext_next (s : State) (p v : ℕ) :
    (s.setNext p v).next = Function.update s.next p v := by
  funext a
  by_cases h : a = p
  · subst h
    simp [State.next, State.setNext]
  · simp [State.next, State.setNext, Function.update_of_ne h]

theorem setNext_mem_of_ne (s : State) {p a : ℕ} (v : ℕ) (h : a ≠ p) :
    (s.setNext p v).mem a = s.mem a := Function.update_of_ne h ..

theorem setNext_log2size (s : State) (p v a : ℕ) :
    ((s.setNext p v).mem a).log2size = (s.mem a).log2size := by
  by_cases h : a = p
  · subst h
    simp [State.setNext]
  · simp [State.setNext, Function.update_of_ne h]

theorem setLink_log2size (s : State) (p v a : ℕ) :
    ((s.setLink p v).mem a).log2size = (s.mem a).log2size := by
  unfold State.setLink
  split
  · rfl
  · exact setNext_log2size s p v a

@[simp] theorem setLink_freedChunks (s : State) (p v : ℕ) :
    (s.setLink p v).freedChunks = s.freedChunks := by
  unfold State.setLink
  split <;> rfl

/-- Storing `v` through the link at the end of the walk `l` from the head makes
the walk end in `v`, and touches nothing outside it. -/
theorem setLink_seg {s : State} {l : List ℕ} {c : ℕ} (v : ℕ)
    (hs : Seg s.next s.availableChunks l c) (hnd : l.Nodup) (h0 : 0 ∉ l) :
    Seg (s.setLink (l.getLastD 0) v).next (s.setLink (l.getLastD 0) v).availableChunks l v ∧
    ∀ a ∉ l, (s.setLink (l.getLastD 0) v).mem a = s.mem a := by
  rcases List.eq_nil_or_concat l with rfl | ⟨m, d, rfl⟩
  · exact ⟨rfl, fun _ _ => rfl⟩
  · rw [List.concat_eq_append] at hs hnd h0 ⊢
    have hd0 : d ≠ 0 := fun h => h0 (by simp [h])
    have hdm : d ∉ m := fun h => (List.nodup_append.1 hnd).2.2 d h d (by simp) rfl
    have hlast : (m ++ [d]).getLastD 0 = d := by simp
    have hav : (s.setNext d v).availableChunks = s.availableChunks := rfl
    simp only [hlast, State.setLink, if_neg hd0, hav, setNext_next]
    rw [seg_concat] at hs ⊢
    refine ⟨⟨seg_update hdm hs.1, Function.update_self ..⟩, fun a ha => ?_⟩
    have hne : a ≠ d := fun h => ha (by simp [h])
    exact setNext_mem_of_ne s v hne

/-! ## Inserting into the available list -/

/-- The walk of `release_free_chunk` stops between the chunks below `p` and
those above. -/
theorem findPlace_spec {s : State} {p : ℕ} {l : List ℕ} (fuel prev cur : ℕ)
    (hs : Seg s.next cur l 0) (h0 : 0 ∉ l) (hsort : l.Pairwise (· < ·))
    (hf : l.length < fuel) :
    ∃ l₁ l₂ c, l = l₁ ++ l₂ ∧ (∀ a ∈ l₁, a < p) ∧ (∀ a ∈ l₂, p ≤ a) ∧
      findPlace s.mem p fuel prev cur = some (l₁.getLastD prev, c) ∧
      Seg s.next cur l₁ c ∧ Seg s.next c l₂ 0 := by
  induction l generalizing fuel prev cur with
  | nil =>
    obtain ⟨fuel, rfl⟩ := Nat.exists_eq_succ_of_ne_zero (by simp at hf; omega : fuel ≠ 0)
    have hc : cur = 0 := hs
    refine ⟨[], [], cur, rfl, by simp, by simp, ?_, rfl, hs⟩
    simp [findPlace, hc]
  | cons d ds ih =>
    obtain ⟨fuel, rfl⟩ := Nat.exists_eq_succ_of_ne_zero (by simp at hf; omega : fuel ≠ 0)
    obtain ⟨rfl, hds⟩ := hs
    have hd0 : cur ≠ 0 := fun h => h0 (by simp [h])
    obtain ⟨hlt, hsort⟩ := List.pairwise_cons.1 hsort
    by_cases hp : cur < p
    · obtain ⟨l₁, l₂, c, rfl, h₁, h₂, hfind, hs₁, hs₂⟩ :=
        ih fuel cur (s.next cur) hds (fun h => h0 (List.mem_cons_of_mem _ h)) hsort
          (by simp at hf; omega)
      refine ⟨cur :: l₁, l₂, c, rfl, ?_, h₂, ?_, ⟨rfl, hs₁⟩, hs₂⟩
      · intro a ha
        rcases List.mem_cons.1 ha with rfl | ha
        · exact hp
        · exact h₁ a ha
      · have hstep : findPlace s.mem p (fuel + 1) prev cur =
            findPlace s.mem p fuel cur (s.next cur) := by
          simp [findPlace, hd0, hp, State.next]
        rw [hstep, hfind, List.getLastD_cons]
    · refine ⟨[], cur :: ds, cur, rfl, by simp, ?_, ?_, rfl, ⟨rfl, hds⟩⟩
      · intro a ha
        rcases List.mem_cons.1 ha with rfl | ha
        · omega
        · have := hlt a ha
          omega
      · simp [findPlace, hp]

/-- `release_free_chunk` inserts a new chunk in its place. -/
theorem releaseFreeChunk_spec {s : State} {p : ℕ} {l : List ℕ}
    (hs : Seg s.next s.availableChunks l 0) (h0 : 0 ∉ l) (hsort : l.Pairwise (· < ·))
    (hlen : l.length < maxSteps) (hp0 : p ≠ 0) (hpl : p ∉ l) :
    ∃ s' l', releaseFreeChunk s p = some s' ∧ l'.Perm (p :: l) ∧ l'.Pairwise (· < ·) ∧
      Seg s'.next s'.availableChunks l' 0 ∧ s'.freedChunks = s.freedChunks ∧
      (∀ a, (s'.mem a).log2size = (s.mem a).log2size) ∧
      (∀ a, a ≠ p → a ∉ l → s'.mem a = s.mem a) := by
  obtain ⟨l₁, l₂, c, rfl, h₁, h₂, hfind, hs₁, hs₂⟩ :=
    findPlace_spec (p := p) maxSteps 0 s.availableChunks hs h0 hsort hlen
  have hnd : (l₁ ++ l₂).Nodup := hsort.imp fun h => Nat.ne_of_lt h
  have hp₁ : p ∉ l₁ := fun h => hpl (List.mem_append_left _ h)
  have hp₂ : p ∉ l₂ := fun h => hpl (List.mem_append_right _ h)
  have h01 : 0 ∉ l₁ := fun h => h0 (List.mem_append_left _ h)
  have hcp : c ≠ p := by
    -- the walk stops at the null pointer or at a chunk above p
    cases l₂ with
    | nil => exact fun h => hp0 (h ▸ hs₂)
    | cons d ds => exact fun h => hp₂ (by simp [← h, hs₂.1])
  set t := s.setNext p c with ht
  have htn : t.next = Function.update s.next p c := setNext_next s p c
  have hseg₁ : Seg t.next t.availableChunks l₁ c := htn ▸ seg_update hp₁ hs₁
  obtain ⟨hlink, hout⟩ := setLink_seg p hseg₁ (List.nodup_append.1 hnd).1 h01
  refine ⟨t.setLink (l₁.getLastD 0) p, l₁ ++ p :: l₂, ?_, List.perm_middle, ?_, ?_, ?_, ?_, ?_⟩
  · simp only [releaseFreeChunk, hfind, if_neg hcp, ht]
  · rw [List.pairwise_append] at hsort ⊢
    refine ⟨hsort.1, List.pairwise_cons.2 ⟨fun a ha => ?_, hsort.2.1⟩, fun a ha b hb => ?_⟩
    · exact lt_of_le_of_ne (h₂ a ha) (fun h => hp₂ (h ▸ ha))
    · rcases List.mem_cons.1 hb with rfl | hb
      · exact h₁ a ha
      · exact hsort.2.2 a ha b hb
  · -- the new chunk leads on to where the walk stopped
    rw [seg_append]
    refine ⟨p, hlink, rfl, ?_⟩
    have hpn : (t.setLink (l₁.getLastD 0) p).next p = c := by
      rw [State.next, hout p hp₁]
      exact (congrFun htn p).trans (Function.update_self ..)
    rw [hpn]
    refine seg_congr (fun a ha => ?_) hs₂
    have ha₁ : a ∉ l₁ := fun h => (List.nodup_append.1 hnd).2.2 a h a ha rfl
    have hap : a ≠ p := fun h => hp₂ (h ▸ ha)
    rw [State.next, hout a ha₁]
    exact (congrFun htn a).trans (Function.update_of_ne hap ..)
  · rw [setLink_freedChunks]
    rfl
  · intro a
    rw [setLink_log2size, setNext_log2size]
  · intro a hap hal
    rw [hout a fun h => hal (List.mem_append_left _ h)]
    exact setNext_mem_of_ne s c hap

/-- `make_available_all_freed_chunks`, by induction on the freed list. -/
theorem makeAvailableLoop_spec {s : State} {f l : List ℕ} (fuel : ℕ)
    (hfr : Seg s.next s.freedChunks f 0) (hs : Seg s.next s.availableChunks l 0)
    (h0 : 0 ∉ f ++ l) (hsort : l.Pairwise (· < ·)) (hnd : (f ++ l).Nodup)
    (hlen : (f ++ l).length < maxSteps) (hf : f.length < fuel) :
    ∃ s' l', makeAvailableLoop fuel s = some s' ∧ l'.Perm (f ++ l) ∧ l'.Pairwise (· < ·) ∧
      Seg s'.next s'.availableChunks l' 0 ∧ s'.freedChunks = 0 ∧
      (∀ a, (s'.mem a).log2size = (s.mem a).log2size) ∧
      (∀ a, a ∉ f ++ l → s'.mem a = s.mem a) := by
  induction f generalizing s l fuel with
  | nil =>
    obtain ⟨fuel, rfl⟩ := Nat.exists_eq_succ_of_ne_zero (by simp at hf; omega : fuel ≠ 0)
    have hc : s.freedChunks = 0 := hfr
    exact ⟨s, l, by simp [makeAvailableLoop, hc], List.Perm.refl _, hsort, hs, hc,
      fun _ => rfl, fun _ _ => rfl⟩
  | cons p ps ih =>
    obtain ⟨fuel, rfl⟩ := Nat.exists_eq_succ_of_ne_zero (by simp at hf; omega : fuel ≠ 0)
    obtain ⟨hp, hps⟩ := hfr
    rw [List.cons_append, List.nodup_cons] at hnd
    have hp0 : p ≠ 0 := fun h => h0 (by simp [h])
    have hpl : p ∉ l := fun h => hnd.1 (List.mem_append_right _ h)
    have hppl : p ∉ ps := fun h => hnd.1 (List.mem_append_left _ h)
    simp only [List.cons_append, List.length_cons, List.length_append] at hlen hf
    -- the head of the freed list is taken off and inserted
    obtain ⟨s₁, l₁, hrel, hperm, hsort₁, hs₁, hfr₁, hlog₁, hout₁⟩ :=
      releaseFreeChunk_spec (s := { s with freedChunks := s.next p }) (p := p) hs
        (fun h => h0 (by simp [h])) hsort (by omega) hp0 hpl
    have hps₁ : Seg s₁.next s₁.freedChunks ps 0 := by
      rw [hfr₁]
      refine seg_congr (fun a ha => ?_) hps
      have hap : a ≠ p := fun h => hppl (h ▸ ha)
      have hal : a ∉ l := fun h => (List.nodup_append.1 hnd.2).2.2 a ha a h rfl
      have := hout₁ a hap hal
      simp [State.next, this]
    have hmem₁ : ∀ a, a ∈ ps ++ l₁ ↔ a ∈ p :: (ps ++ l) := by
      intro a
      simp only [List.mem_append, hperm.mem_iff, List.mem_cons]
      tauto
    have hperm₂ : (ps ++ l₁).Perm (p :: (ps ++ l)) :=
      (List.Perm.append_left ps hperm).trans List.perm_middle
    have hnd₁ : (ps ++ l₁).Nodup := hperm₂.nodup_iff.2 (List.nodup_cons.2 hnd)
    obtain ⟨s', l', hloop, hp', hsort', hs', hfr', hlog', hout'⟩ :=
      ih fuel hps₁ hs₁ (fun h => h0 ((hmem₁ 0).1 h)) hsort₁ hnd₁
        (by have := hperm₂.length_eq; simp at this ⊢; omega) (by omega)
    refine ⟨s', l', ?_, hp'.trans hperm₂, hsort', hs', hfr', ?_, ?_⟩
    · have hfirst : releaseFirstFreeChunk s = some s₁ := by
        simp only [releaseFirstFreeChunk, hp, ne_eq, hp0, not_false_eq_true, if_true]
        exact hrel
      simp only [makeAvailableLoop, hp, ne_eq, hp0, not_false_eq_true, if_true, hfirst, hloop]
    · intro a
      rw [hlog', hlog₁]
    · intro a ha
      rw [List.cons_append, List.mem_cons, not_or, List.mem_append, not_or] at ha
      have hal₁ : a ∉ ps ++ l₁ := by
        rw [hmem₁]
        simp only [List.mem_cons, List.mem_append, not_or]
        exact ha
      rw [hout' a hal₁, hout₁ a ha.1 ha.2.2]

end Isambard.Allocator
