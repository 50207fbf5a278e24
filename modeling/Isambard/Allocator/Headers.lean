import Isambard.Allocator.Tiles
import Isambard.Allocator.Invariant

/-!
# Allocator.Headers — the headers of the available chunks, in every run

The third piece of a chunk that `allocate` splits lies inside the first, and after that the
list may run in a circle, or hold a header twice. What stays true in every run is that the
headers on the list are those of chunks that could be: aligned to the size they record.

`Closed s H` says that the lists lead nowhere but to the headers `H`. `closed_...` and
`splitChunk_headers` are about one edit each, and `next_headers` about a step.
-/

namespace Isambard.Allocator

open Isambard.Lib

/-- The header of a chunk of up to 2GB, below 4GB, at a multiple of its size. -/
structure Aligned (s : State) (a : ℕ) : Prop where
  pos : a ≠ 0
  low : 12 ≤ (s.mem a).log2size
  high : (s.mem a).log2size ≤ 31
  aligned : 2 ^ (s.mem a).log2size ∣ a
  below : a + 2 ^ (s.mem a).log2size ≤ 2 ^ 32

/-- A walk over the available chunks comes to `a`. -/
def OnList (s : State) (a : ℕ) : Prop :=
  a ≠ 0 ∧ ∃ l, Seg s.next s.availableChunks l a ∧ 0 ∉ l

/-- The lists lead to headers in `H` only. -/
structure Closed (s : State) (H : Set ℕ) : Prop where
  available : s.availableChunks = 0 ∨ s.availableChunks ∈ H
  freed : s.freedChunks = 0 ∨ s.freedChunks ∈ H
  next : ∀ a ∈ H, s.next a = 0 ∨ s.next a ∈ H

section Edits

variable {s : State} {H : Set ℕ} {p v : ℕ}

theorem Closed.seg (h : Closed s H) {l : List ℕ} {b : ℕ} (hb : b = 0 ∨ b ∈ H) {a : ℕ}
    (hs : Seg s.next b l a) (h0 : 0 ∉ l) : a = 0 ∨ a ∈ H := by
  induction l generalizing b with
  | nil =>
    have hba : b = a := hs
    exact hba ▸ hb
  | cons c l ih =>
    rcases hs with ⟨rfl, hs⟩
    rcases hb with rfl | hb
    · exact absurd List.mem_cons_self h0
    · exact ih (h.next b hb) hs fun hm => h0 (List.mem_cons_of_mem b hm)

theorem Closed.onList (h : Closed s H) {a : ℕ} (ha : OnList s a) : a ∈ H := by
  rcases ha with ⟨h0, l, hs, hl⟩
  exact (h.seg h.available hs hl).resolve_left h0

/-- The headers on the list are closed by themselves. -/
theorem closed_onList (hf : s.freedChunks = 0) : Closed s {a | OnList s a} := by
  refine ⟨?_, .inl hf, ?_⟩
  · by_cases h0 : s.availableChunks = 0
    · exact .inl h0
    · exact .inr ⟨h0, [], rfl, List.not_mem_nil⟩
  · rintro a ⟨ha, l, hs, hl⟩
    by_cases h0 : s.next a = 0
    · exact .inl h0
    · refine .inr ⟨h0, l ++ [a], seg_concat.2 ⟨hs, rfl⟩, ?_⟩
      rw [List.mem_append, List.mem_singleton, not_or]
      exact ⟨hl, fun h => ha h.symm⟩

theorem Closed.setNext (h : Closed s H) (hv : v = 0 ∨ v ∈ H) : Closed (s.setNext p v) H := by
  refine ⟨h.available, h.freed, fun a ha => ?_⟩
  rw [setNext_next]
  by_cases hap : a = p
  · rw [hap, Function.update_self]
    exact hv
  · rw [Function.update_of_ne hap]
    exact h.next a ha

theorem Closed.setLink (h : Closed s H) (hv : v = 0 ∨ v ∈ H) : Closed (s.setLink p v) H := by
  unfold State.setLink
  split
  · exact ⟨hv, h.freed, h.next⟩
  · exact h.setNext hv

theorem Closed.setLog2size (h : Closed s H) : Closed (s.setLog2size p v) H :=
  ⟨h.available, h.freed, fun a ha => by rw [setLog2size_next]; exact h.next a ha⟩

/-- A header becomes another one's successor, whatever it leads to. -/
theorem Closed.insert (h : Closed s H) (hp : p ∈ H) {n : ℕ} (hn : n ≠ 0) :
    Closed ((s.setNext n (s.mem p).next).setNext p n) (insert n H) := by
  have hsub : H ⊆ Insert.insert n H := Set.subset_insert n H
  have hnew : Closed (s.setNext n (s.mem p).next) (Insert.insert n H) := by
    refine ⟨h.available.imp id fun ha => hsub ha, h.freed.imp id fun ha => hsub ha, ?_⟩
    intro a ha
    rw [setNext_next]
    by_cases han : a = n
    · rw [han, Function.update_self]
      exact (h.next p hp).imp id fun hm => hsub hm
    · rw [Function.update_of_ne han]
      rcases ha with rfl | ha
      · exact absurd rfl han
      · exact (h.next a ha).imp id fun hm => hsub hm
  exact hnew.setNext (.inr (Set.mem_insert n H))

end Edits

theorem Aligned.congr {s s' : State} {a : ℕ} (h : Aligned s a)
    (hlog : (s'.mem a).log2size = (s.mem a).log2size) : Aligned s' a := by
  constructor
  · exact h.pos
  · exact hlog ▸ h.low
  · exact hlog ▸ h.high
  · exact hlog ▸ h.aligned
  · exact hlog ▸ h.below

/-! ## Walks -/

section Walks

variable {s : State} {H : Set ℕ}

theorem findPlace_closed (h : Closed s H) {p fuel prev cur : ℕ} (hc : cur = 0 ∨ cur ∈ H)
    {r : ℕ × ℕ} (hr : findPlace s.mem p fuel prev cur = some r) : r.2 = 0 ∨ r.2 ∈ H := by
  induction fuel generalizing prev cur with
  | zero => cases hr
  | succ fuel ih =>
    unfold findPlace at hr
    split at hr
    · rename_i hgo
      exact ih (h.next cur (hc.resolve_left hgo.1)) hr
    · cases hr
      exact hc

theorem findChunk_closed (h : Closed s H) {size fuel prev cur : ℕ} (hc : cur = 0 ∨ cur ∈ H)
    {r : ℕ × ℕ} (hr : findChunk s.mem size fuel prev cur = some r) :
    (r.2 = 0 ∨ r.2 ∈ H) ∧ (r.2 ≠ 0 → size ≤ shl32 (s.mem r.2).log2size) := by
  induction fuel generalizing prev cur with
  | zero => cases hr
  | succ fuel ih =>
    unfold findChunk at hr
    split at hr
    · rename_i hgo
      exact ih (h.next cur (hc.resolve_left hgo.1)) hr
    · rename_i hstop
      cases hr
      refine ⟨hc, fun h0 => ?_⟩
      by_contra hlt
      exact hstop ⟨h0, Nat.not_le.1 hlt⟩

end Walks

/-! ## Splitting -/

/-- A state whose headers on the list are good, by a set that the lists do not leave. -/
def Sound (s : State) : Prop := ∃ H, Closed s H ∧ ∀ a ∈ H, Aligned s a

theorem Sound.onList {s : State} (h : Sound s) {a : ℕ} (ha : OnList s a) : Aligned s a := by
  rcases h with ⟨H, hclosed, hgood⟩
  exact hgood a (hclosed.onList ha)

theorem aligned_setLog2size {s : State} {p n : ℕ} (hp : p ≠ 0) (hlow : 12 ≤ n) (hn : n ≤ 31)
    (hdvd : 2 ^ n ∣ p) (hle : p + 2 ^ n ≤ 2 ^ 32) : Aligned (s.setLog2size p n) p := by
  constructor
  · exact hp
  all_goals rw [setLog2size_self]
  · exact hlow
  · exact hn
  · exact hdvd
  · exact hle

/-- The pieces of the chunk `c`. All headers but that of the piece `p` made last are good,
and this one becomes so with the next bit of the remainder. -/
theorem splitChunk_headers {c : ℕ} (n : ℕ) {p r : ℕ} {s : State} {H : Set ℕ}
    (hn : n ≤ 20) (h : Closed s H) (hgood : ∀ a ∈ H, a ≠ p → Aligned s a) (hp : p ∈ H)
    (hp0 : p ≠ 0) (hcd : 2 ^ (n + 12) ∣ c) (hpd : 2 ^ (n + 12) ∣ p)
    (hcle : c + 2 ^ (n + 12) ≤ 2 ^ 32) (hple : p + 2 ^ (n + 12) ≤ 2 ^ 32)
    (hr : r < 2 ^ (n + 12)) (hpages : 4096 ∣ r) (hzero : r = 0 → Aligned s p) :
    Sound (splitChunk c n p r s) := by
  have hdone (hr0 : r = 0) : Sound s := by
    refine ⟨H, h, fun a ha => ?_⟩
    by_cases hap : a = p
    · exact hap ▸ hzero hr0
    · exact hgood a ha hap
  induction n generalizing p r s H with
  | zero => exact hdone (by rcases hpages with ⟨m, rfl⟩; omega)
  | succ n ih =>
    have hpow : 2 ^ (n + 1 + 12) = 2 * 2 ^ (n + 12) := by
      rw [show n + 1 + 12 = (n + 12) + 1 by omega, pow_succ]
      ring
    have hdvd {x : ℕ} (hx : 2 ^ (n + 1 + 12) ∣ x) : 2 ^ (n + 12) ∣ x :=
      dvd_trans (pow_dvd_pow 2 (by omega)) hx
    unfold splitChunk
    split
    · rename_i hr0
      exact hdone hr0
    rename_i hr0
    -- one bit of the remainder after the other, from the top
    rw [shl32_of_lt (by omega)]
    split
    · rename_i hbit
      have hrest : 4096 ∣ r - 2 ^ (n + 12) :=
        Nat.dvd_sub hpages (pow_dvd_pow 2 (by omega : 12 ≤ n + 12))
      have hpgood : Aligned (s.setLog2size p (n + 12)) p :=
        aligned_setLog2size hp0 (by omega) (by omega) (hdvd hpd) (by omega)
      have hothers : ∀ a ∈ H, a ≠ p → Aligned (s.setLog2size p (n + 12)) a := fun a ha hap =>
        (hgood a ha hap).congr (by rw [setLog2size_mem_of_ne s _ hap])
      simp only
      split
      · -- a new piece, which is to get its size
        rename_i hmore
        have hnew0 : c + 2 ^ (n + 12) ≠ 0 := by omega
        refine ih (by omega) (h.setLog2size.insert hp hnew0) ?_ (Set.mem_insert _ H) hnew0
          (hdvd hcd) (dvd_add (hdvd hcd) dvd_rfl) (by omega) (by omega) (by omega) hrest
          (fun h0 => absurd h0 hmore) fun h0 => absurd h0 hmore
        rintro a (rfl | ha) hne
        · exact absurd rfl hne
        · refine Aligned.congr (s := s.setLog2size p (n + 12)) ?_
            (by rw [setNext_log2size, setNext_log2size])
          by_cases hap : a = p
          · exact hap ▸ hpgood
          · exact hothers a ha hap
      · -- no piece is left
        rename_i hmore
        refine ih (by omega) h.setLog2size hothers hp hp0 (hdvd hcd) (hdvd hpd) (by omega)
          (by omega) (by omega) hrest (fun _ => hpgood) fun _ => ⟨H, h.setLog2size, ?_⟩
        intro a ha
        by_cases hap : a = p
        · exact hap ▸ hpgood
        · exact hothers a ha hap
    · exact ih (by omega) h hgood hp hp0 (hdvd hcd) (hdvd hpd) (by omega) (by omega) (by omega)
        hpages (fun h0 => absurd h0 hr0) fun h0 => absurd h0 hr0

/-! ## The driver's calls -/

/-- An allocation keeps the headers good; one of a power of two is aligned. -/
theorem allocate_sound {s s' : State} {size addr : ℕ} (h : Sound s) (hsz : 0 < size)
    (hpages : 4096 ∣ size) (ha : allocate s size = some (s', addr)) :
    Sound s' ∧ ∀ k, size = 2 ^ k → 2 ^ k ∣ addr := by
  rcases h with ⟨H, hclosed, hgood⟩
  unfold allocate at ha
  split at ha
  · cases ha
  rename_i prev p hfind
  rcases findChunk_closed hclosed hclosed.available hfind with ⟨hp, hfits⟩
  simp only at hp hfits
  split at ha
  · cases ha
    exact ⟨⟨H, hclosed, hgood⟩, fun k _ => dvd_zero _⟩
  rename_i hp0
  have hpH := hp.resolve_left hp0
  rcases hgood p hpH with ⟨-, hlow, hhigh, hdvd, hbelow⟩
  have hbig := hfits hp0
  rw [shl32_of_lt (by omega)] at ha hbig
  split at ha
  · rename_i hwhole
    cases ha
    refine ⟨⟨H, hclosed.setLink (hclosed.next addr hpH), fun a ha => ?_⟩, ?_⟩
    · exact (hgood a ha).congr (setLink_log2size _ _ _ _)
    · rintro k rfl
      exact hwhole ▸ hdvd
  · rename_i hpart
    simp only [Option.some.injEq, Prod.mk.injEq] at ha
    rcases ha with ⟨rfl, rfl⟩
    have hlog : (s.mem p).log2size - 12 + 12 = (s.mem p).log2size := by omega
    have hsplit := splitChunk_headers (c := p) ((s.mem p).log2size - 12)
      (r := 2 ^ (s.mem p).log2size - size) (by omega) hclosed (fun a ha _ => hgood a ha) hpH hp0
    rw [hlog] at hsplit
    refine ⟨hsplit hdvd hdvd hbelow hbelow (by omega) ?_ fun _ => hgood p hpH, ?_⟩
    · exact Nat.dvd_sub (pow_dvd_pow 2 hlow) hpages
    · rintro k rfl
      have hk : 2 ^ k ∣ 2 ^ (s.mem p).log2size :=
        pow_dvd_pow 2 ((Nat.pow_le_pow_iff_right (by omega)).1 hbig)
      rw [add64_of_lt (by omega)]
      exact dvd_add (dvd_trans hk hdvd) (Nat.dvd_sub hk dvd_rfl)

theorem splitChunk_freed (c n p r : ℕ) (s : State) :
    (splitChunk c n p r s).freedChunks = s.freedChunks := by
  induction n generalizing p r s with
  | zero => rfl
  | succ n ih =>
    unfold splitChunk
    split
    · rfl
    · split
      · simp only
        split
        · exact ih _ _ _
        · exact ih _ _ _
      · exact ih _ _ _

theorem allocate_freed {s s' : State} {size addr : ℕ} (ha : allocate s size = some (s', addr))
    (hf : s.freedChunks = 0) : s'.freedChunks = 0 := by
  unfold allocate at ha
  split at ha
  · cases ha
  split at ha
  · cases ha
    exact hf
  split at ha
  · cases ha
    rw [setLink_freedChunks]
    exact hf
  · cases ha
    rw [splitChunk_freed]
    exact hf

theorem pushFreed_sound {s : State} {p n : ℕ} (h : Sound s)
    (hp : p ≠ 0 → 12 ≤ n ∧ n ≤ 31 ∧ 2 ^ n ∣ p ∧ p + 2 ^ n ≤ 2 ^ 32) :
    Sound (s.pushFreed p n) := by
  rcases h with ⟨H, hclosed, hgood⟩
  have hother (a : ℕ) (hne : a ≠ p) : (s.pushFreed p n).mem a = s.mem a :=
    Function.update_of_ne hne ..
  have hself : (s.pushFreed p n).mem p = ⟨n, s.freedChunks⟩ := Function.update_self ..
  by_cases h0 : p = 0
  · -- nothing leads to a header at address 0
    have hne : ∀ a ∈ H, a ≠ p := fun a ha => h0 ▸ (hgood a ha).pos
    refine ⟨H, ⟨hclosed.available, .inl h0, fun a ha => ?_⟩, fun a ha => ?_⟩
    · rw [State.next, hother a (hne a ha)]
      exact hclosed.next a ha
    · exact (hgood a ha).congr (by rw [hother a (hne a ha)])
  · have hsub : H ⊆ insert p H := Set.subset_insert p H
    refine ⟨insert p H, ⟨?_, .inr (Set.mem_insert p H), fun a ha => ?_⟩, fun a ha => ?_⟩
    · exact hclosed.available.imp id fun ha => hsub ha
    · by_cases hap : a = p
      · rw [hap, State.next, hself]
        exact hclosed.freed.imp id fun ha => hsub ha
      · rw [State.next, hother a hap]
        exact (hclosed.next a (ha.resolve_left hap)).imp id fun hm => hsub hm
    · by_cases hap : a = p
      · subst hap
        rcases hp h0 with ⟨hlow, hhigh, hdvd, hle⟩
        constructor
        · exact h0
        all_goals rw [hself]
        · exact hlow
        · exact hhigh
        · exact hdvd
        · exact hle
      · exact (hgood a (ha.resolve_left hap)).congr (by rw [hother a hap])

/-- The chunks of a range below 4GB. Only one at address 0 can have all of it. -/
theorem pushAll_sound {s : State} {p q : ℕ} {ts : List (ℕ × ℕ)} (h : Sound s)
    (htl : Tiling p (ts.map tileRange) q) (hq : q ≤ 2 ^ 32)
    (hts : ∀ t ∈ ts, 12 ≤ t.2 ∧ t.2 ≤ 34 ∧ t.1 % 2 ^ t.2 = 0) : Sound (s.pushAll ts) := by
  induction ts generalizing s p with
  | nil => exact h
  | cons t ts ih =>
    rcases tiling_mem htl List.mem_cons_self with ⟨-, -, hend⟩
    rcases hts t List.mem_cons_self with ⟨hlow, -, hal⟩
    simp only [tileRange] at hend
    refine ih (pushFreed_sound h fun h0 => ?_) htl.2.2 fun u hu =>
      hts u (List.mem_cons_of_mem t hu)
    have hdvd := Nat.dvd_of_mod_eq_zero hal
    refine ⟨hlow, ?_, hdvd, by omega⟩
    have hle := Nat.le_of_dvd (Nat.pos_of_ne_zero h0) hdvd
    by_contra hbig
    have : 2 ^ 32 ≤ 2 ^ t.2 := Nat.pow_le_pow_right (by omega) (by omega)
    omega

theorem releaseFirstFreeChunk_sound {s s' : State} (h : Sound s)
    (hr : releaseFirstFreeChunk s = some s') : Sound s' := by
  rcases h with ⟨H, hclosed, hgood⟩
  unfold releaseFirstFreeChunk at hr
  split at hr
  · rename_i hf
    have hp := hclosed.freed.resolve_left hf
    have hrest : Closed { s with freedChunks := s.next s.freedChunks } H :=
      ⟨hclosed.available, hclosed.next _ hp, hclosed.next⟩
    unfold releaseFreeChunk at hr
    split at hr
    · cases hr
    rename_i prev cur hfind
    have hcur := findPlace_closed hrest hrest.available hfind
    split at hr
    · cases hr
    · cases hr
      refine ⟨H, (hrest.setNext hcur).setLink (.inr hp), fun a ha => ?_⟩
      refine (hgood a ha).congr ?_
      rw [setLink_log2size, setNext_log2size]
  · cases hr
    exact ⟨H, hclosed, hgood⟩

theorem makeAvailableLoop_sound {s s' : State} {fuel : ℕ} (h : Sound s)
    (hr : makeAvailableLoop fuel s = some s') : Sound s' ∧ s'.freedChunks = 0 := by
  induction fuel generalizing s with
  | zero => cases hr
  | succ fuel ih =>
    unfold makeAvailableLoop at hr
    split at hr
    · split at hr
      · cases hr
      · rename_i s₁ hfirst
        exact ih (releaseFirstFreeChunk_sound h hfirst) hr
    · rename_i hf
      cases hr
      exact ⟨h, not_not.1 hf⟩

/-! ## Runs -/

/-- The clients' own bytes may hold the header of an available chunk; they leave it alone. -/
def SparesHeaders (y : Sys) : Op → Prop
  | .use a _ => ¬ OnList y.state a
  | _ => True

theorem donate_sound {s s' : State} {p end' r : ℕ} (h : Sound s) (hp : p % 4096 = 0)
    (hpe : p ≤ end') (he : end' ≤ 2 ^ 32) (hd : entry s 0 p end' = some (s', r)) :
    Sound s' ∧ s'.freedChunks = 0 := by
  rcases makeListOfFreedChunks_cuts s hp hpe (by omega) with ⟨ts, hmake, hcuts⟩
  have hq : lastPage p end' ≤ 2 ^ 32 := by
    unfold lastPage
    omega
  unfold entry at hd
  rw [if_pos rfl, hmake] at hd
  simp only [Option.map_eq_some_iff] at hd
  rcases hd with ⟨s'', hloop, hd⟩
  cases hd
  exact makeAvailableLoop_sound (pushAll_sound h hcuts.tiling hq hcuts.size) hloop

theorem use_sound {s : State} {a : ℕ} {v : Chunk} (h : Sound s) (hf : s.freedChunks = 0)
    (ha : ¬ OnList s a) : Sound { s with mem := Function.update s.mem a v } := by
  have hclosed := closed_onList hf
  have hother (b : ℕ) (hb : OnList s b) : Function.update s.mem a v b = s.mem b := by
    refine Function.update_of_ne ?_ ..
    rintro rfl
    exact ha hb
  refine ⟨{b | OnList s b}, ⟨hclosed.available, hclosed.freed, fun b hb => ?_⟩, fun b hb => ?_⟩
  · simp only [State.next, hother b hb]
    exact hclosed.next b hb
  · exact (h.onList hb).congr (by simp only [hother b hb])

/-- One step of the driver and its clients. -/
theorem next_sound {y z : Sys} {op : Op} (h : Sound y.state) (hf : y.state.freedChunks = 0)
    (ha : Allowed y op) (hk : SparesHeaders y op) (hs : y.next op = some z) :
    Sound z.state ∧ z.state.freedChunks = 0 := by
  cases op with
  | donate p end' =>
    rcases ha with ⟨hpe, he, hp, -, -⟩
    simp only [Sys.next, Option.map_eq_some_iff] at hs
    rcases hs with ⟨⟨s', r⟩, hd, rfl⟩
    exact donate_sound h hp hpe he hd
  | allocate size =>
    simp only [Sys.next, Option.map_eq_some_iff] at hs
    rcases hs with ⟨⟨s', r⟩, hd, rfl⟩
    have hd' : allocate y.state (roundToPage size) = some (s', r) := hd
    exact ⟨(allocate_sound h (roundToPage_pos ha.1 ha.2)
      (Nat.dvd_of_mod_eq_zero (roundToPage_aligned size)) hd').1, allocate_freed hd' hf⟩
  | use a v =>
    cases hs
    exact ⟨use_sound h hf hk, hf⟩

theorem run_sound {y : Sys} (h : (system.restrict SparesHeaders).Reachable y) :
    Sound y.state ∧ y.state.freedChunks = 0 := by
  refine h.invariant (P := fun y => Sound y.state ∧ y.state.freedChunks = 0) ?_ ?_
  · rintro y ⟨hf, hav, -, -⟩
    exact ⟨⟨∅, ⟨.inl hav, .inl hf, fun a ha => absurd ha (Set.notMem_empty a)⟩,
      fun a ha => absurd ha (Set.notMem_empty a)⟩, hf⟩
  · rintro y op z ⟨hs, hf⟩ ⟨hk, ha, hnext⟩
    exact next_sound hs hf ha hk hnext

/-- In every run, a block of a power of two is aligned to its size. -/
theorem allocate_aligned {y : Sys} (h : (system.restrict SparesHeaders).Reachable y) {k : ℕ}
    (hlow : 12 ≤ k) {s' : State} {addr : ℕ} (ha : allocate y.state (2 ^ k) = some (s', addr)) :
    2 ^ k ∣ addr :=
  (allocate_sound (run_sound h).1 (Nat.two_pow_pos k) (pow_dvd_pow 2 hlow) ha).2 k rfl

/-- The driver after the run in which a third piece is misplaced. -/
def given32K_split : Sys := (given32K.next (.allocate 0x1000)).getD start

/-- Its next block of 8KB. -/
theorem allocate_aligned_8K : ∃ s', allocate given32K_split.state (2 ^ 13) = some (s', 0xa000) ∧
    2 ^ 13 ∣ 0xa000 := by
  have h₀ : (system.restrict SparesHeaders).Reachable start := .init ⟨rfl, rfl, rfl, rfl⟩
  have h₁ : (system.restrict SparesHeaders).Reachable given32K := by
    refine .step (i := .donate 0x8000 0x10000) h₀ ⟨trivial, ?_, rfl⟩
    refine ⟨by decide, by decide, by decide, by decide, ?_⟩
    simp [start]
  have h₂ : (system.restrict SparesHeaders).Reachable given32K_split :=
    .step (i := .allocate 0x1000) h₁ ⟨trivial, ⟨by decide, by decide⟩, rfl⟩
  have hblock : (allocate given32K_split.state (2 ^ 13)).map Prod.snd = some 0xa000 := by
    decide +kernel
  rcases Option.map_eq_some_iff.1 hblock with ⟨⟨s', addr⟩, hs', rfl⟩
  exact ⟨s', hs', allocate_aligned h₂ (by decide) hs'⟩

end Isambard.Allocator
