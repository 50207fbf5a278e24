import Isambard.Allocator.Donate
import Mathlib.Data.Nat.BitIndices

/-!
# Allocator.Allocate — taking a block from the top of a chunk

`allocate` walks to the first chunk that is big enough (`findChunk_spec`), takes
the block from its top and leaves one piece for each set bit of the remainder.
The pieces are placed relative to `c`, the chunk that is split, which is right
for the first two of them only: the second one starts where the first one ends,
but so would the third. `allocate_spec` is about remainders of at most two bits.
-/

namespace Isambard.Allocator

open Isambard.Lib

theorem shl32_of_lt {n : ℕ} (h : n < 32) : shl32 n = 2 ^ n := by
  rw [shl32, Nat.mod_eq_of_lt h]

theorem shl32_le (n : ℕ) : shl32 n ≤ 2 ^ n := by
  unfold shl32
  exact Nat.pow_le_pow_right (by omega) (Nat.mod_le n 32)

/-- A chunk of 4GB or more is taken for one of a few bytes. -/
theorem lt_of_le_shl32 {n size : ℕ} (hn : n ≤ 34) (hsize : 4096 ≤ size) (h : size ≤ shl32 n) :
    n < 32 := by
  by_contra hge
  have hsmall : 2 ^ (n % 32) ≤ 2 ^ 2 := Nat.pow_le_pow_right (by omega) (by omega)
  unfold shl32 at h
  omega

/-! ## Finding a chunk -/

/-- The chunk that `allocate` takes a block of `size` bytes from: the first of
the available ones that is big enough. -/
def FirstFit (s : State) (size c : ℕ) : Prop :=
  ∃ l, Seg s.next s.availableChunks l c ∧ c ≠ 0 ∧ 0 ∉ l ∧
    (∀ a ∈ l, shl32 (s.mem a).log2size < size) ∧ size ≤ shl32 (s.mem c).log2size

/-- The walk of `allocate` ends at the null pointer, or at the first chunk that
is big enough. -/
theorem findChunk_spec {s : State} {l : List ℕ} (size fuel prev cur : ℕ)
    (hs : Seg s.next cur l 0) (h0 : 0 ∉ l) (hf : l.length < fuel) :
    (∀ a ∈ l, shl32 (s.mem a).log2size < size) ∧
      findChunk s.mem size fuel prev cur = some (l.getLastD prev, 0) ∨
    ∃ l₁ c l₂, l = l₁ ++ c :: l₂ ∧ Seg s.next cur l₁ c ∧
      (∀ a ∈ l₁, shl32 (s.mem a).log2size < size) ∧ size ≤ shl32 (s.mem c).log2size ∧
      findChunk s.mem size fuel prev cur = some (l₁.getLastD prev, c) := by
  induction l generalizing fuel prev cur with
  | nil =>
    obtain ⟨fuel, rfl⟩ := Nat.exists_eq_succ_of_ne_zero (by simp at hf; omega : fuel ≠ 0)
    have hc : cur = 0 := hs
    refine .inl ⟨fun a ha => absurd ha List.not_mem_nil, ?_⟩
    simp [findChunk, hc]
  | cons d ds ih =>
    obtain ⟨fuel, rfl⟩ := Nat.exists_eq_succ_of_ne_zero (by simp at hf; omega : fuel ≠ 0)
    obtain ⟨rfl, hds⟩ := hs
    have hd0 : cur ≠ 0 := fun h => h0 (by simp [h])
    by_cases hsmall : shl32 (s.mem cur).log2size < size
    · have hstep : findChunk s.mem size (fuel + 1) prev cur =
          findChunk s.mem size fuel cur (s.next cur) := by
        simp [findChunk, hd0, hsmall, State.next]
      rcases ih fuel cur (s.next cur) hds (fun h => h0 (List.mem_cons_of_mem _ h))
        (by simp at hf; omega) with ⟨hall, h⟩ | ⟨l₁, c, l₂, rfl, hs₁, hlt, hle, h⟩
      · refine .inl ⟨?_, ?_⟩
        · intro a ha
          rcases List.mem_cons.1 ha with rfl | ha
          · exact hsmall
          · exact hall a ha
        · rw [hstep, h, List.getLastD_cons]
      · refine Or.inr ⟨cur :: l₁, c, l₂, rfl, ⟨rfl, hs₁⟩, ?_, hle, ?_⟩
        · intro a ha
          rcases List.mem_cons.1 ha with rfl | ha
          · exact hsmall
          · exact hlt a ha
        · rw [hstep, h, List.getLastD_cons]
    · refine Or.inr ⟨[], cur, ds, rfl, rfl, by simp, by omega, ?_⟩
      simp [findChunk, hsmall]

/-! ## Splitting a chunk -/

theorem setLog2size_next (s : State) (p v : ℕ) : (s.setLog2size p v).next = s.next := by
  funext a
  by_cases h : a = p
  · subst h
    simp [State.next, State.setLog2size]
  · simp [State.next, State.setLog2size, Function.update_of_ne h]

theorem setLog2size_self (s : State) (p v : ℕ) :
    ((s.setLog2size p v).mem p).log2size = v := by
  simp [State.setLog2size]

theorem setLog2size_mem_of_ne (s : State) {p a : ℕ} (v : ℕ) (h : a ≠ p) :
    (s.setLog2size p v).mem a = s.mem a := Function.update_of_ne h ..

theorem splitChunk_zero (c n p : ℕ) (s : State) : splitChunk c n p 0 s = s := by
  cases n with
  | zero => rfl
  | succ n => simp [splitChunk]

/-- A remainder of one bit leaves one piece. -/
theorem splitChunk_one (c p k : ℕ) (s : State) (hk : 12 ≤ k) (n : ℕ) (hn : k < n + 12)
    (hn' : n + 11 < 32) : splitChunk c n p (2 ^ k) s = s.setLog2size p k := by
  have hpos : 0 < 2 ^ k := Nat.two_pow_pos k
  induction n with
  | zero => omega
  | succ n ih =>
    rw [splitChunk, if_neg (by omega), shl32_of_lt (by omega)]
    by_cases h : k = n + 12
    · subst h
      simp [splitChunk_zero]
    · have hlt : ¬ 2 ^ (n + 12) ≤ 2 ^ k := by
        rw [not_le]
        exact Nat.pow_lt_pow_right (by omega) (by omega)
      rw [if_neg hlt]
      exact ih (by omega) (by omega)

/-- A remainder of two bits leaves two pieces, the second behind the first. -/
theorem splitChunk_two (c k j : ℕ) (s : State) (hj : 12 ≤ j) (hjk : j < k) (n : ℕ)
    (hn : k < n + 12) (hn' : n + 11 < 32) :
    splitChunk c n c (2 ^ k + 2 ^ j) s =
      (((s.setLog2size c k).setNext (c + 2 ^ k) (s.mem c).next).setNext c
        (c + 2 ^ k)).setLog2size (c + 2 ^ k) j := by
  have hpos : 0 < 2 ^ j := Nat.two_pow_pos j
  have hlt : 2 ^ j < 2 ^ k := Nat.pow_lt_pow_right (by omega) hjk
  induction n with
  | zero => omega
  | succ n ih =>
    rw [splitChunk, if_neg (by omega), shl32_of_lt (by omega)]
    by_cases h : k = n + 12
    · subst h
      have hrem : 2 ^ (n + 12) + 2 ^ j - 2 ^ (n + 12) = 2 ^ j := by omega
      have hnext : ((s.setLog2size c (n + 12)).mem c).next = (s.mem c).next :=
        congrFun (setLog2size_next s c (n + 12)) c
      simp only [Nat.le_add_right, if_true, hrem, hnext]
      rw [if_pos (by omega)]
      exact splitChunk_one c _ j _ hj n hjk (by omega)
    · have hbig : ¬ 2 ^ (n + 12) ≤ 2 ^ k + 2 ^ j := by
        have : 2 ^ (k + 1) ≤ 2 ^ (n + 12) := Nat.pow_le_pow_right (by omega) (by omega)
        rw [pow_succ] at this
        omega
      rw [if_neg hbig]
      exact ih (by omega) (by omega)

/-- A number with at most two bits set is a power of two or the sum of two. -/
theorem two_bits {r : ℕ} (hr : r ≠ 0) (h : r.bitIndices.length ≤ 2) :
    (∃ k, r = 2 ^ k) ∨ ∃ k j, j < k ∧ r = 2 ^ k + 2 ^ j := by
  have hsum := Nat.sum_map_two_pow_bitIndices r
  have hsort := (Nat.bitIndices_sorted (n := r)).pairwise
  rcases hb : r.bitIndices with _ | ⟨j, _ | ⟨k, _ | ⟨i, t⟩⟩⟩
  · rw [hb] at hsum
    simp at hsum
    omega
  · rw [hb] at hsum
    exact Or.inl ⟨j, by simpa using hsum.symm⟩
  · rw [hb] at hsum hsort
    have hjk : j < k := by simpa using hsort
    refine Or.inr ⟨k, j, hjk, ?_⟩
    simp at hsum
    omega
  · rw [hb] at h
    simp at h

theorem le_of_two_pow_dvd {m k : ℕ} (h : 2 ^ m ∣ 2 ^ k) : m ≤ k :=
  (Nat.pow_dvd_pow_iff_le_right (by omega)).1 h

/-- The lower of two bits decides by which powers of two a number is divisible. -/
theorem le_of_two_pow_dvd_add {m k j : ℕ} (hjk : j < k) (h : 2 ^ m ∣ 2 ^ k + 2 ^ j) :
    m ≤ j := by
  by_contra hlt
  have hj : 2 ^ (j + 1) ∣ 2 ^ k + 2 ^ j := dvd_trans (pow_dvd_pow 2 (by omega)) h
  have hk : 2 ^ (j + 1) ∣ 2 ^ k := pow_dvd_pow 2 (by omega)
  have := le_of_two_pow_dvd ((Nat.dvd_add_right hk).1 hj)
  omega

/-! ## What an allocation does to the list -/

/-- The available chunks, as the list of their addresses: what `allocate` relies
on. Every one starts above those before it and has room up to the next. -/
structure Available (s : State) (l : List ℕ) : Prop where
  seg : Seg s.next s.availableChunks l 0
  nonnull : 0 ∉ l
  sorted : l.Pairwise (· < ·)
  room : ∀ a ∈ l, ∀ b ∈ l, a < b → a + 2 ^ (s.mem a).log2size ≤ b
  size : ∀ a ∈ l, 12 ≤ (s.mem a).log2size ∧ (s.mem a).log2size ≤ 34
  aligned : ∀ a ∈ l, a % 2 ^ (s.mem a).log2size = 0
  below : ∀ a ∈ l, a + 2 ^ (s.mem a).log2size ≤ 2 ^ 36

/-- Different addresses below 64GB are few enough to be walked over. -/
theorem length_lt_maxSteps {l : List ℕ} (hnd : l.Nodup) (hb : ∀ a ∈ l, a < 2 ^ 36) :
    l.length < maxSteps := by
  have hle : l.length ≤ 2 ^ 36 - 0 := length_le_of_nodup hnd fun a ha => ⟨Nat.zero_le a, hb a ha⟩
  unfold maxSteps
  omega

theorem Available.nodup {s : State} {l : List ℕ} (h : Available s l) : l.Nodup :=
  h.sorted.imp fun h => Nat.ne_of_lt h

theorem Available.lt {s : State} {l : List ℕ} (h : Available s l) : ∀ a ∈ l, a < 2 ^ 36 := by
  intro a ha
  have hb := h.below a ha
  have hpos := Nat.two_pow_pos (s.mem a).log2size
  omega

/-- The block `[addr, addr + size)` is the top of one of the chunks `l`; the
pieces `ts` that are left of that chunk take its place. -/
def Takes (s : State) (l : List ℕ) (size : ℕ) (s' : State) (addr : ℕ) : Prop :=
  ∃ (l₁ : List ℕ) (c : ℕ) (l₂ : List ℕ) (ts : List (ℕ × ℕ)), l = l₁ ++ c :: l₂ ∧ addr ≠ 0 ∧
    Tiling c (ts.map tileRange) addr ∧ addr + size = c + 2 ^ (s.mem c).log2size ∧
    (∀ t ∈ ts, 12 ≤ t.2 ∧ t.2 ≤ 34 ∧ t.1 % 2 ^ t.2 = 0 ∧ (s'.mem t.1).log2size = t.2) ∧
    Seg s'.next s'.availableChunks (l₁ ++ ts.map Prod.fst ++ l₂) 0 ∧
    s'.freedChunks = s.freedChunks ∧
    ∀ a ∉ ts.map Prod.fst, (s'.mem a).log2size = (s.mem a).log2size

section Split

variable {s : State} {l₁ l₂ : List ℕ} {c size : ℕ}

/-- The whole chunk is taken: its link now leads past it. -/
theorem takes_whole (h : Available s (l₁ ++ c :: l₂)) (hsz : size = 2 ^ (s.mem c).log2size)
    (hs₁ : Seg s.next s.availableChunks l₁ c) :
    Takes s (l₁ ++ c :: l₂) size (s.setLink (l₁.getLastD 0) (s.mem c).next) c := by
  obtain ⟨hnd₁, hnd₂, hdisj⟩ := List.nodup_append.1 h.nodup
  have h01 : 0 ∉ l₁ := fun h0 => h.nonnull (List.mem_append_left _ h0)
  have hc0 : c ≠ 0 := fun hc => h.nonnull (by simp [hc])
  obtain ⟨m, hm₁, hm, hm₂⟩ := seg_append.1 h.seg
  obtain ⟨hlink, hout⟩ := setLink_seg (s.mem c).next hs₁ hnd₁ h01
  refine ⟨l₁, c, l₂, [], rfl, hc0, rfl, by rw [hsz], by simp, ?_, ?_, ?_⟩
  · rw [List.map_nil, List.append_nil, seg_append]
    refine ⟨_, hlink, seg_congr (fun a ha => ?_) hm₂⟩
    have hal : a ∉ l₁ := fun h => hdisj a h a (List.mem_cons_of_mem _ ha) rfl
    rw [State.next, hout a hal]
    rfl
  · rw [setLink_freedChunks]
  · intro a _
    rw [setLink_log2size]

/-- One piece is left: the chunk only gets smaller. -/
theorem takes_one (h : Available s (l₁ ++ c :: l₂)) {k : ℕ} (hk : 12 ≤ k)
    (hsz : 2 ^ (s.mem c).log2size - size = 2 ^ k) (hlt : size < 2 ^ (s.mem c).log2size)
    (hkL : k < (s.mem c).log2size) :
    Takes s (l₁ ++ c :: l₂) size (s.setLog2size c k) (c + 2 ^ k) := by
  have hmem : c ∈ l₁ ++ c :: l₂ := by simp
  have hpos := Nat.two_pow_pos k
  have hal : c % 2 ^ k = 0 := by
    have hd := Nat.dvd_of_mod_eq_zero (h.aligned c hmem)
    exact Nat.mod_eq_zero_of_dvd (dvd_trans (pow_dvd_pow 2 hkL.le) hd)
  have hL := (h.size c hmem).2
  refine ⟨l₁, c, l₂, [(c, k)], rfl, by omega, ⟨rfl, by simp [tileRange], rfl⟩, by omega, ?_,
    ?_, rfl, ?_⟩
  · intro t ht
    rw [List.mem_singleton] at ht
    subst ht
    exact ⟨hk, by omega, hal, setLog2size_self s c k⟩
  · rw [setLog2size_next]
    simpa [State.setLog2size] using h.seg
  · intro a ha
    have hne : a ≠ c := by simpa using ha
    rw [setLog2size_mem_of_ne s k hne]

/-- Two pieces are left: a new chunk follows the first one in the list. -/
theorem takes_two (h : Available s (l₁ ++ c :: l₂)) {k j : ℕ} (hj : 12 ≤ j) (hjk : j < k)
    (hsz : 2 ^ (s.mem c).log2size - size = 2 ^ k + 2 ^ j)
    (hlt : size < 2 ^ (s.mem c).log2size) (hkL : k < (s.mem c).log2size) :
    Takes s (l₁ ++ c :: l₂) size
      ((((s.setLog2size c k).setNext (c + 2 ^ k) (s.mem c).next).setNext c
        (c + 2 ^ k)).setLog2size (c + 2 ^ k) j) (c + (2 ^ k + 2 ^ j)) := by
  have hmem : c ∈ l₁ ++ c :: l₂ := by simp
  have hposk := Nat.two_pow_pos k
  have hposj := Nat.two_pow_pos j
  have hL := (h.size c hmem).2
  have hkle : 2 ^ k < 2 ^ (s.mem c).log2size := Nat.pow_lt_pow_right (by omega) hkL
  have hdk : c % 2 ^ k = 0 := by
    have hd := Nat.dvd_of_mod_eq_zero (h.aligned c hmem)
    exact Nat.mod_eq_zero_of_dvd (dvd_trans (pow_dvd_pow 2 hkL.le) hd)
  have hdj : (c + 2 ^ k) % 2 ^ j = 0 := by
    have hd : 2 ^ j ∣ 2 ^ k := pow_dvd_pow 2 hjk.le
    exact Nat.mod_eq_zero_of_dvd
      (dvd_add (dvd_trans hd (Nat.dvd_of_mod_eq_zero hdk)) hd)
  -- the new chunk starts inside the one that is split, so it is none of the others
  have hnew : ∀ a ∈ l₁ ++ c :: l₂, a ≠ c + 2 ^ k := by
    intro a ha heq
    have := h.room c hmem a ha (by omega)
    omega
  obtain ⟨-, hnd₂, hdisj⟩ := List.nodup_append.1 h.nodup
  set s' := (((s.setLog2size c k).setNext (c + 2 ^ k) (s.mem c).next).setNext c
    (c + 2 ^ k)).setLog2size (c + 2 ^ k) j with hs'
  have hnext : s'.next = Function.update (Function.update s.next (c + 2 ^ k) (s.next c)) c
      (c + 2 ^ k) := by
    rw [hs', setLog2size_next, setNext_next, setNext_next, setLog2size_next]
    rfl
  have hkeep : ∀ a, a ≠ c → a ∈ l₁ ++ c :: l₂ → s'.next a = s.next a := by
    intro a hac ha
    rw [hnext, Function.update_of_ne hac, Function.update_of_ne (hnew a ha)]
  refine ⟨l₁, c, l₂, [(c, k), (c + 2 ^ k, j)], rfl, by omega, ?_, by omega, ?_, ?_, rfl, ?_⟩
  · exact ⟨rfl, by simp [tileRange], rfl, by simp [tileRange], add_assoc ..⟩
  · intro t ht
    rcases List.mem_cons.1 ht with rfl | ht
    · refine ⟨by omega, by omega, hdk, ?_⟩
      rw [hs', setLog2size_mem_of_ne _ _ (by omega), setNext_log2size, setNext_log2size,
        setLog2size_self]
    · rw [List.mem_singleton] at ht
      subst ht
      exact ⟨hj, by omega, hdj, setLog2size_self _ _ _⟩
  · have hav : s'.availableChunks = s.availableChunks := rfl
    obtain ⟨m, hm₁, hm, hm₂⟩ := seg_append.1 h.seg
    subst hm
    rw [List.append_assoc, seg_append, hav]
    refine ⟨m, seg_congr (fun a ha => ?_) hm₁, rfl, ?_, ?_⟩
    · have hne : a ≠ m := fun hac => hdisj a ha m (by simp) hac
      exact hkeep a hne (by simp [ha])
    · rw [hnext, Function.update_self]
    · have hn : s'.next (m + 2 ^ k) = s.next m := by
        rw [hnext, Function.update_of_ne (by omega), Function.update_self]
      change Seg s'.next (s'.next (m + 2 ^ k)) l₂ 0
      rw [hn]
      refine seg_congr (fun a ha => ?_) hm₂
      have hne : a ≠ m := fun hac => (List.nodup_cons.1 hnd₂).1 (hac ▸ ha)
      exact hkeep a hne (by simp [ha])
  · intro a ha
    simp only [List.map_cons, List.map_nil, List.mem_cons, List.not_mem_nil, or_false,
      not_or] at ha
    rw [hs', setLog2size_mem_of_ne _ _ ha.2, setNext_log2size, setNext_log2size,
      setLog2size_mem_of_ne _ _ ha.1]

end Split

/-- `allocate` finds nothing, or takes the top of a chunk; the remainder of the
chunk it takes from must have at most two bits. -/
theorem allocate_spec {s : State} {l : List ℕ} {size : ℕ} (h : Available s l)
    (hsz : 0 < size) (hal : size % 4096 = 0)
    (hbits : ∀ c, FirstFit s size c →
      (2 ^ (s.mem c).log2size - size).bitIndices.length ≤ 2) :
    ∃ s' addr, allocate s size = some (s', addr) ∧
      (addr = 0 ∧ s' = s ∨ Takes s l size s' addr) := by
  rcases findChunk_spec size maxSteps 0 s.availableChunks h.seg h.nonnull
    (length_lt_maxSteps h.nodup h.lt) with ⟨-, hf⟩ | ⟨l₁, c, l₂, rfl, hs₁, hsmall, hbig, hf⟩
  · exact ⟨s, 0, by simp [allocate, hf], Or.inl ⟨rfl, rfl⟩⟩
  have hmem : c ∈ l₁ ++ c :: l₂ := by simp
  have hc0 : c ≠ 0 := fun hc => h.nonnull (hc ▸ hmem)
  obtain ⟨hL₁, hL₂⟩ := h.size c hmem
  have hfit : FirstFit s size c :=
    ⟨l₁, hs₁, hc0, fun h0 => h.nonnull (List.mem_append_left _ h0), hsmall, hbig⟩
  have hL₃ : (s.mem c).log2size < 32 := lt_of_le_shl32 hL₂ (by omega) hbig
  have hshl : shl32 (s.mem c).log2size = 2 ^ (s.mem c).log2size := shl32_of_lt hL₃
  rw [hshl] at hbig
  by_cases hwhole : 2 ^ (s.mem c).log2size = size
  · refine ⟨_, c, ?_, Or.inr (takes_whole h hwhole.symm hs₁)⟩
    simp [allocate, hf, hc0, hshl, hwhole]
  have hlt : size < 2 ^ (s.mem c).log2size := lt_of_le_of_ne hbig (Ne.symm hwhole)
  have hdvd : 2 ^ 12 ∣ 2 ^ (s.mem c).log2size - size :=
    Nat.dvd_sub (pow_dvd_pow 2 hL₁) (Nat.dvd_of_mod_eq_zero hal)
  have hadd : add64 c (2 ^ (s.mem c).log2size - size) =
      c + (2 ^ (s.mem c).log2size - size) := by
    have := h.below c hmem
    exact add64_of_lt (by omega)
  have hresult : allocate s size = some (splitChunk c ((s.mem c).log2size - 12) c
      (2 ^ (s.mem c).log2size - size) s, c + (2 ^ (s.mem c).log2size - size)) := by
    simp [allocate, hf, hc0, hshl, hwhole, hadd]
  have hsmaller : 2 ^ (s.mem c).log2size - size < 2 ^ (s.mem c).log2size := by omega
  refine ⟨_, _, hresult, Or.inr ?_⟩
  rcases two_bits (by omega) (hbits c hfit) with ⟨k, hk⟩ | ⟨k, j, hjk, hkj⟩
  · rw [hk] at hdvd hsmaller ⊢
    have hk12 := le_of_two_pow_dvd hdvd
    have hkL := (Nat.pow_lt_pow_iff_right (by omega)).1 hsmaller
    rw [splitChunk_one c c k s hk12 _ (by omega) (by omega)]
    exact takes_one h hk12 hk hlt hkL
  · rw [hkj] at hdvd hsmaller ⊢
    have hj12 := le_of_two_pow_dvd_add hjk hdvd
    have hkL : k < (s.mem c).log2size :=
      (Nat.pow_lt_pow_iff_right (by omega)).1 (lt_of_le_of_lt (Nat.le_add_right _ _) hsmaller)
    rw [splitChunk_two c k j s hj12 hjk _ (by omega) (by omega)]
    exact takes_two h hj12 hjk hkj hlt hkL

/-- Whatever the remainder is, the block is the top of a chunk. -/
theorem allocate_result {s : State} {l : List ℕ} (size : ℕ) (h : Available s l) :
    (∀ a ∈ l, shl32 (s.mem a).log2size < size) ∧ allocate s size = some (s, 0) ∨
      ∃ c ∈ l, size ≤ shl32 (s.mem c).log2size ∧
        ∃ s', allocate s size = some (s', c + (shl32 (s.mem c).log2size - size)) := by
  rcases findChunk_spec size maxSteps 0 s.availableChunks h.seg h.nonnull
    (length_lt_maxSteps h.nodup h.lt) with ⟨hall, hf⟩ | ⟨l₁, c, l₂, rfl, -, -, hbig, hf⟩
  · exact .inl ⟨hall, by simp [allocate, hf]⟩
  · have hmem : c ∈ l₁ ++ c :: l₂ := by simp
    have hc0 : c ≠ 0 := fun hc => h.nonnull (hc ▸ hmem)
    refine .inr ⟨c, hmem, hbig, ?_⟩
    by_cases hwhole : shl32 (s.mem c).log2size = size
    · refine ⟨s.setLink (l₁.getLastD 0) (s.mem c).next, ?_⟩
      simp [allocate, hf, hc0, hwhole]
    · have hbelow := h.below c hmem
      have hle := shl32_le (s.mem c).log2size
      have hadd : add64 c (shl32 (s.mem c).log2size - size) =
          c + (shl32 (s.mem c).log2size - size) := add64_of_lt (by omega)
      refine ⟨splitChunk c ((s.mem c).log2size - 12) c (shl32 (s.mem c).log2size - size) s, ?_⟩
      simp [allocate, hf, hc0, hwhole, hadd]

end Isambard.Allocator
