import Isambard.Allocator.Invariant
import Isambard.El1.Maps

/-!
# Allocator.Mapped — donations, in the memory that is mapped

The allocator stores a header in every chunk that it makes. Its map has the physical memory
below `max_physical_memory`, and its own code from there on: a store above halts the core.

* `donate`, `donate_eq_entry`: a donation, which is `entry` as far as memory is mapped;
* `donate_past`, `donate_high`: donations that end above their start, or run off the memory;
* `donate_twice`: a range whose first chunk is available is not donated again.
-/

namespace Isambard.Allocator

open Isambard.Lib

/-- `max_physical_memory`. -/
def mappedTop : ℕ := El1.maxPhysicalMemoryGb * 2 ^ 30

/-- The action of `initialise_block`, which stores to the block. -/
def storeBlock (min : ℕ) (ps : ℕ × State) : Option (ℕ × State) :=
  if ps.1 < mappedTop then initialiseBlock min ps else none

/-- The nest of `initialise_block`s, as in `initialiseBlocks`. -/
def storeBlocks (end' : ℕ) : ℕ → ℕ × State → Option (ℕ × State)
  | 0 => blocks end' 34 0 (storeBlock 34) some
  | n + 1 => blocks end' (34 - (n + 1)) (34 - n) (storeBlock (34 - (n + 1))) (storeBlocks end' n)

/-- `entry( 0, 0, p, end )`. -/
def donate (s : State) (p end' : ℕ) : Option State :=
  match storeBlocks end' 22 (p, s) with
  | none => none
  | some (_, s) => makeAvailableAllFreedChunks s

section Loop

variable {end' min max : ℕ} {maxaction : ℕ × State → Option (ℕ × State)}

/-- Inside the memory the loops are the same. -/
theorem blocksLoop_store {maxaction' : ℕ × State → Option (ℕ × State)} (he : end' ≤ mappedTop)
    (hmax : max ≠ 0 → ∀ p s, p ≤ end' → p % 2 ^ max = 0 →
      maxaction (p, s) = maxaction' (p, s)) (fuel p : ℕ) (s : State) (hp : p ≤ end') :
    blocksLoop end' min max (storeBlock min) maxaction fuel (p, s) =
      blocksLoop end' min max (initialiseBlock min) maxaction' fuel (p, s) := by
  have htop : mappedTop < 2 ^ 63 := by decide
  have hpos : 0 < 2 ^ min := Nat.two_pow_pos min
  induction fuel generalizing p s with
  | zero => rfl
  | succ fuel ih =>
    unfold blocksLoop
    rw [sub64_of_le hp (by omega)]
    by_cases hroom : 2 ^ min ≤ end' - p
    · rw [if_pos hroom, if_pos hroom]
      by_cases hup : max ≠ 0 ∧ 2 ^ max ≤ end' - p ∧ p % 2 ^ max = 0
      · rw [if_pos hup, if_pos hup, hmax hup.1 p s hp hup.2.2]
        cases maxaction' (p, s) with
        | none => rfl
        | some qs =>
          simp only
          split
          · rename_i hq
            exact ih qs.1 qs.2 hq.1
          · rfl
      · rw [if_neg hup, if_neg hup]
        have hstore : storeBlock min (p, s) = initialiseBlock min (p, s) :=
          if_pos (show p < mappedTop by omega)
        have hadd : add64 p (2 ^ min) = p + 2 ^ min := add64_of_lt (by omega)
        rw [hstore]
        simp only [initialiseBlock, hadd]
        split
        · exact ih _ _ (by omega)
        · rfl
    · rw [if_neg hroom, if_neg hroom]

/-- From above its end a donation goes on until it leaves the memory. -/
theorem blocksLoop_past (hmin : min ≤ 34)
    (hmax : max ≠ 0 → ∀ p s, end' < p → p < 2 ^ 64 → p % 2 ^ max = 0 → maxaction (p, s) = none)
    (fuel p : ℕ) (s : State) (hp : end' < p) (hlt : p < 2 ^ 64) (hal : p % 2 ^ min = 0) :
    blocksLoop end' min max (storeBlock min) maxaction fuel (p, s) = none := by
  have htop : mappedTop < 2 ^ 34 := by decide
  have hle : 2 ^ min ≤ 2 ^ 34 := Nat.pow_le_pow_right (by omega) hmin
  induction fuel generalizing p s with
  | zero => rfl
  | succ fuel ih =>
    have hdvd : 2 ^ min ∣ 2 ^ 64 - p :=
      Nat.dvd_sub (pow_dvd_pow 2 (by omega)) (Nat.dvd_of_mod_eq_zero hal)
    have hroom : 2 ^ min ≤ sub64 end' p := by
      have := Nat.le_of_dvd (by omega) hdvd
      unfold sub64
      omega
    unfold blocksLoop
    rw [if_pos hroom]
    by_cases hup : max ≠ 0 ∧ 2 ^ max ≤ sub64 end' p ∧ p % 2 ^ max = 0
    · rw [if_pos hup, hmax hup.1 p s hp hlt hup.2.2]
    · rw [if_neg hup]
      unfold storeBlock
      by_cases hmapped : p < mappedTop
      · have hadd : add64 p (2 ^ min) = p + 2 ^ min := add64_of_lt (by omega)
        have hqa : (p + 2 ^ min) % 2 ^ min = 0 := by rw [Nat.add_mod_right]; exact hal
        simp only [hmapped, if_true, initialiseBlock, hadd]
        split
        · exact ih _ _ (by omega) (by omega) hqa
        · rfl
      · simp only [hmapped, if_false]

/-- What a loop leaves is less than a block. -/
theorem blocksLoop_exit {action : ℕ × State → Option (ℕ × State)} (fuel : ℕ)
    {ps qs : ℕ × State} (h : blocksLoop end' min max action maxaction fuel ps = some qs) :
    sub64 end' qs.1 < 2 ^ min := by
  induction fuel generalizing ps with
  | zero => cases h
  | succ fuel ih =>
    rcases ps with ⟨p, s⟩
    unfold blocksLoop at h
    split at h
    · split at h
      · split at h
        · cases h
        · split at h
          · exact ih h
          · cases h
      · split at h
        · cases h
        · split at h
          · exact ih h
          · cases h
    · rename_i hroom
      cases h
      exact Nat.not_le.1 hroom

/-- A loop that comes to its end has not left the memory. -/
theorem blocksLoop_high (hmin : min ≤ 34)
    (hmax : max ≠ 0 → ∀ p s q s', p ≠ 0 → p ≤ mappedTop → p % 2 ^ max = 0 →
      maxaction (p, s) = some (q, s') → q ≠ 0 ∧ q ≤ mappedTop)
    (fuel p : ℕ) (s : State) (hp : p ≠ 0) (hle : p ≤ mappedTop) (hal : p % 2 ^ min = 0)
    {qs : ℕ × State}
    (h : blocksLoop end' min max (storeBlock min) maxaction fuel (p, s) = some qs) :
    qs.1 ≠ 0 ∧ qs.1 ≤ mappedTop := by
  have htop : mappedTop = 2 ^ 33 := by decide
  induction fuel generalizing p s with
  | zero => cases h
  | succ fuel ih =>
    unfold blocksLoop at h
    split at h
    · split at h
      · rename_i hup
        cases hm : maxaction (p, s) with
        | none =>
          rw [hm] at h
          cases h
        | some qs' =>
          rw [hm] at h
          simp only at h
          split at h
          · rename_i hq
            have hres := hmax hup.1 p s qs'.1 qs'.2 hp hle hup.2.2 hm
            exact ih qs'.1 qs'.2 hres.1 hres.2 hq.2 h
          · cases h
      · unfold storeBlock at h
        by_cases hmapped : p < mappedTop
        · simp only [hmapped, if_true, initialiseBlock] at h
          have hlow : min ≤ 33 := by
            by_contra hgt
            obtain rfl : min = 34 := by omega
            omega
          have hdvd : 2 ^ min ∣ 2 ^ 33 - p :=
            Nat.dvd_sub (pow_dvd_pow 2 hlow) (Nat.dvd_of_mod_eq_zero hal)
          have hroom := Nat.le_of_dvd (by omega) hdvd
          have hadd : add64 p (2 ^ min) = p + 2 ^ min := add64_of_lt (by omega)
          have hqa : (p + 2 ^ min) % 2 ^ min = 0 := by rw [Nat.add_mod_right]; exact hal
          rw [hadd] at h
          split at h
          · exact ih _ _ (by omega) (by omega) hqa h
          · cases h
        · simp only [hmapped, if_false] at h
          cases h
    · cases h
      exact ⟨hp, hle⟩

end Loop

/-! ## The nest of loops -/

section Nest

variable {end' : ℕ}

theorem storeBlocks_eq (he : end' ≤ mappedTop) (n : ℕ) (hn : n ≤ 22) {p : ℕ} (s : State)
    (hp : p ≤ end') : storeBlocks end' n (p, s) = initialiseBlocks end' n (p, s) := by
  induction n generalizing p s with
  | zero =>
    unfold storeBlocks initialiseBlocks blocks
    rw [blocksLoop_store he (fun h => absurd rfl h) _ _ _ hp]
  | succ n ih =>
    unfold storeBlocks initialiseBlocks blocks
    rw [blocksLoop_store he (fun _ p s hp _ => ih (by omega) s hp) _ _ _ hp]

theorem storeBlocks_past (n : ℕ) (hn : n ≤ 22) {p : ℕ} (s : State) (hp : end' < p)
    (hlt : p < 2 ^ 64) : storeBlocks end' n (p, s) = none := by
  induction n generalizing p s with
  | zero =>
    unfold storeBlocks blocks
    split
    · rename_i hal
      exact blocksLoop_past le_rfl (fun h => absurd rfl h) _ _ _ hp hlt hal
    · rfl
  | succ n ih =>
    unfold storeBlocks blocks
    split
    · rename_i hal
      exact blocksLoop_past (by omega) (fun _ p s hp hlt _ => ih (by omega) s hp hlt) _ _ _ hp
        hlt hal
    · rfl

theorem storeBlocks_high (n : ℕ) (hn : n ≤ 22) {p : ℕ} (s : State) (hp : p ≠ 0)
    (hle : p ≤ mappedTop) {qs : ℕ × State} (h : storeBlocks end' n (p, s) = some qs) :
    (qs.1 ≠ 0 ∧ qs.1 ≤ mappedTop) ∧ sub64 end' qs.1 < 2 ^ (34 - n) := by
  induction n generalizing p s qs with
  | zero =>
    unfold storeBlocks blocks at h
    split at h
    · rename_i hal
      exact ⟨blocksLoop_high le_rfl (fun h => absurd rfl h) _ _ _ hp hle hal h,
        blocksLoop_exit _ h⟩
    · cases h
  | succ n ih =>
    unfold storeBlocks blocks at h
    split at h
    · rename_i hal
      exact ⟨blocksLoop_high (by omega)
        (fun _ p s q s' hp hle _ h => (ih (by omega) s hp hle h).1) _ _ _ hp hle hal h,
        blocksLoop_exit _ h⟩
    · cases h

theorem storeBlocks_unaligned {p : ℕ} (s : State) (hp : p % 4096 ≠ 0) :
    storeBlocks end' 22 (p, s) = none := by
  unfold storeBlocks blocks
  exact if_neg hp

end Nest

/-! ## Donations -/

section Donate

variable {s : State} {p end' : ℕ}

theorem donate_eq_entry (hp : p ≤ end') (he : end' ≤ mappedTop) :
    donate s p end' = (entry s 0 p end').map Prod.fst := by
  unfold donate entry makeListOfFreedChunks
  rw [storeBlocks_eq he 22 le_rfl s hp]
  cases initialiseBlocks end' 22 (p, s) with
  | none => rfl
  | some qs =>
    simp only [if_true, Option.map_some]
    cases makeAvailableAllFreedChunks qs.2 with
    | none => rfl
    | some s' => rfl

theorem donate_past (hp : end' < p) (hlt : p < 2 ^ 64) : donate s p end' = none := by
  unfold donate
  rw [storeBlocks_past 22 le_rfl s hp hlt]

theorem donate_unaligned (hp : p % 4096 ≠ 0) : donate s p end' = none := by
  unfold donate
  rw [storeBlocks_unaligned s hp]

theorem donate_high (hp : p ≠ 0) (hle : p ≤ mappedTop) (he : mappedTop < end')
    (hlt : end' < 2 ^ 64) (hal : end' % 4096 = 0) : donate s p end' = none := by
  have htop : mappedTop = 2 ^ 33 := by decide
  unfold donate
  cases h : storeBlocks end' 22 (p, s) with
  | none => rfl
  | some qs =>
    rcases storeBlocks_high 22 le_rfl s hp hle h with ⟨⟨-, hq⟩, hexit⟩
    rw [sub64_of_le (by omega) hlt] at hexit
    omega

/-- From empty lists, all of the range becomes available. -/
theorem donate_empty (hf : s.freedChunks = 0) (ha : s.availableChunks = 0) (hp : p ≤ end')
    (he : end' ≤ mappedTop) (hpa : p % 4096 = 0) (hea : end' % 4096 = 0) (hp0 : p ≠ 0) :
    ∃ s' l, donate s p end' = some s' ∧ Available s' l ∧ s'.freedChunks = 0 ∧
      Partition (l.map (chunkRange s')) [(p, end')] := by
  have htop : mappedTop < 2 ^ 36 := by decide
  have hinv : Inv ⟨s, [], []⟩ [] := init_inv ⟨hf, ha, rfl, rfl⟩
  have hc : Careful ⟨s, [], []⟩ (.donate p end') := by
    refine ⟨hp, by omega, hpa, hea, ?_, fun h => absurd h hp0⟩
    intro x hx
    rcases hx with ⟨r, hr, -⟩
    cases hr
  rcases donate_inv hinv hc with ⟨z, l, hz, hl⟩
  unfold Sys.next at hz
  rcases Option.map_eq_some_iff.1 hz with ⟨r, hr, rfl⟩
  refine ⟨r.1, l, ?_, hl.available, hl.freed, ?_⟩
  · rw [donate_eq_entry hp he, hr]
    rfl
  · simpa using hl.partition

/-- An empty range gives nothing. -/
theorem donate_nothing (hf : s.freedChunks = 0) (he : p ≤ mappedTop) (hpa : p % 4096 = 0) :
    donate s p p = some s := by
  rcases initialiseBlocks_spec (lt_of_le_of_lt he (by decide)) 22 le_rfl p s le_rfl hpa with
    ⟨q, ts, hcut, hqe, -, -, htl, -⟩
  cases ts with
  | nil =>
    have hsteps : maxSteps = 2 ^ 64 - 1 + 1 := by decide
    unfold donate
    rw [storeBlocks_eq he 22 le_rfl s le_rfl, hcut]
    show makeAvailableLoop maxSteps s = some s
    rw [hsteps, makeAvailableLoop, if_neg (not_not.2 hf)]
  | cons t ts =>
    have hle := tiling_le htl.2.2
    have hpos := htl.2.1
    have hstart := htl.1
    omega

end Donate

/-! ## Donating twice -/

theorem sorted_head {l : List ℕ} {b : ℕ} (hsort : l.Pairwise (· < ·)) (hb : b ∈ l)
    (hle : ∀ a ∈ l, b ≤ a) : ∃ m, l = b :: m := by
  cases l with
  | nil => cases hb
  | cons c m =>
    rcases List.mem_cons.1 hb with rfl | hbm
    · exact ⟨m, rfl⟩
    · have hlt := (List.pairwise_cons.1 hsort).1 b hbm
      have := hle c List.mem_cons_self
      omega

/-- When the last of the freed chunks is the first of the available ones, the loop comes to it
and finds it there. -/
theorem makeAvailableLoop_twice {s : State} {f m : List ℕ} {b : ℕ}
    (hfr : Seg s.next s.freedChunks f b) (hs : Seg s.next s.availableChunks (b :: m) 0)
    (h0 : 0 ∉ f ++ b :: m) (hsort : (b :: m).Pairwise (· < ·)) (hbelow : ∀ a ∈ f, b < a)
    (hnd : (f ++ b :: m).Nodup) (hlen : (f ++ b :: m).length < maxSteps) (fuel : ℕ) :
    makeAvailableLoop fuel s = none := by
  have hb0 : b ≠ 0 := fun h => h0 (by simp [h])
  induction f generalizing s m fuel with
  | nil =>
    cases fuel with
    | zero => rfl
    | succ fuel =>
      -- the chunk at `b` is in both lists: a double free
      have hfirst : releaseFirstFreeChunk s = none := by
        have hfb : s.freedChunks = b := hfr
        have hab : s.availableChunks = b := hs.1
        unfold releaseFirstFreeChunk releaseFreeChunk findPlace maxSteps
        simp [hfb, hab, hb0]
      unfold makeAvailableLoop
      rw [hfirst]
      have hfb : s.freedChunks = b := hfr
      rw [if_pos (hfb ▸ hb0)]
  | cons p ps ih =>
    cases fuel with
    | zero => rfl
    | succ fuel =>
      rcases hfr with ⟨hp, hps⟩
      rw [List.cons_append, List.nodup_cons] at hnd
      have hp0 : p ≠ 0 := fun h => h0 (by simp [h])
      have hpl : p ∉ b :: m := fun h => hnd.1 (List.mem_append_right _ h)
      have hppl : p ∉ ps := fun h => hnd.1 (List.mem_append_left _ h)
      simp only [List.cons_append, List.length_cons, List.length_append] at hlen
      rcases releaseFreeChunk_spec (s := { s with freedChunks := s.next p }) (p := p) hs
        (fun h => h0 (List.mem_append_right _ h)) hsort
        (by simp only [List.length_cons]; omega) hp0 hpl with
        ⟨s₁, l₁, hrel, hperm, hsort₁, hs₁, hfr₁, -, hout₁⟩
      have hfirst : releaseFirstFreeChunk s = some s₁ := by
        simp only [releaseFirstFreeChunk, hp, ne_eq, hp0, not_false_eq_true, if_true]
        exact hrel
      have hpb := hbelow p List.mem_cons_self
      -- `b` stays the lowest
      have hmin : ∀ a ∈ l₁, b ≤ a := by
        intro a ha
        rcases List.mem_cons.1 (hperm.mem_iff.1 ha) with rfl | ha
        · exact hpb.le
        · rcases List.mem_cons.1 ha with rfl | ha
          · exact le_rfl
          · exact ((List.pairwise_cons.1 hsort).1 a ha).le
      have hbl : b ∈ l₁ := hperm.mem_iff.2 (List.mem_cons_of_mem p List.mem_cons_self)
      rcases sorted_head hsort₁ hbl hmin with ⟨m₁, rfl⟩
      have hps₁ : Seg s₁.next s₁.freedChunks ps b := by
        rw [hfr₁]
        refine seg_congr (fun a ha => ?_) hps
        have hap : a ≠ p := fun h => hppl (h ▸ ha)
        have hal : a ∉ b :: m := fun h => (List.nodup_append.1 hnd.2).2.2 a ha a h rfl
        have := hout₁ a hap hal
        simp [State.next, this]
      have hperm₂ : (ps ++ b :: m₁).Perm (p :: (ps ++ b :: m)) :=
        (List.Perm.append_left ps hperm).trans List.perm_middle
      have hloop := ih hps₁ hs₁ (fun h => h0 (hperm₂.mem_iff.1 h)) hsort₁
        (fun a ha => hbelow a (List.mem_cons_of_mem p ha))
        (hperm₂.nodup_iff.2 (List.nodup_cons.2 hnd))
        (by have := hperm₂.length_eq; simp at this ⊢; omega) fuel
      unfold makeAvailableLoop
      rw [hfirst, hp, if_pos hp0]
      exact hloop

/-- The chunks of one range start with its first byte. -/
theorem Available.head_of_partition {s : State} {l : List ℕ} {b e : ℕ} (h : Available s l)
    (hpart : Partition (l.map (chunkRange s)) [(b, e)]) (hbe : b < e) : ∃ m, l = b :: m := by
  have hge : ∀ a ∈ l, b ≤ a := by
    intro a ha
    have hmem : a ∈ bytes (l.map (chunkRange s)) :=
      ⟨chunkRange s a, List.mem_map_of_mem ha, le_rfl, by simp [chunkRange]⟩
    rw [hpart.bytes_eq] at hmem
    rcases hmem with ⟨r, hr, hle, -⟩
    rw [List.mem_singleton.1 hr] at hle
    exact hle
  have hb : b ∈ bytes (l.map (chunkRange s)) := by
    rw [hpart.bytes_eq]
    exact ⟨(b, e), List.mem_singleton_self _, le_rfl, hbe⟩
  rcases hb with ⟨r, hr, hle, -⟩
  rcases List.mem_map.1 hr with ⟨c, hc, rfl⟩
  have hcb : c = b := Nat.le_antisymm hle (hge c hc)
  exact sorted_head h.sorted (hcb ▸ hc) hge

/-- A range that starts with an available chunk cannot be given again: the new header of the
chunk is in both lists. -/
theorem donate_twice {s : State} {l : List ℕ} {b e end' : ℕ} (h : Available s l)
    (hf : s.freedChunks = 0) (hpart : Partition (l.map (chunkRange s)) [(b, e)]) (hb0 : b ≠ 0)
    (hbe : b < e) (hlt : b < end') (he : end' ≤ mappedTop) (hba : b % 4096 = 0)
    (hea : end' % 4096 = 0) : donate s b end' = none := by
  have htop : mappedTop < 2 ^ 36 := by decide
  rcases h.head_of_partition hpart hbe with ⟨l, rfl⟩
  have hav : s.availableChunks = b := h.seg.1
  rcases initialiseBlocks_spec (lt_of_le_of_lt he (by decide)) 22 le_rfl b s hlt.le hba with
    ⟨q, ts, hcut, hqe, hqa, hqr, htl, -⟩
  obtain rfl : q = end' := by omega
  -- the first of the new chunks is at the start, too
  cases ts with
  | nil =>
    have hnil : b = q := htl
    omega
  | cons t ts =>
    obtain rfl : t.1 = b := htl.1
    have hsorted := tiles_sorted htl
    have hnd : ((t :: ts).map Prod.fst).Nodup := hsorted.imp fun h => Nat.ne_of_lt h
    rcases pushAll_spec s (t :: ts) hnd with ⟨hseg, -, -, hpav⟩
    rw [hf, List.map_cons, List.reverse_cons, seg_concat] at hseg
    rcases List.pairwise_cons.1 hsorted with ⟨hbelow, -⟩
    have hbelow' : ∀ a ∈ (ts.map Prod.fst).reverse, t.1 < a :=
      fun a ha => hbelow a (List.mem_reverse.1 ha)
    have hnd' : ((ts.map Prod.fst).reverse ++ [t.1]).Nodup := by
      rw [← List.reverse_cons, List.nodup_reverse]
      exact hnd
    have hin : ∀ a ∈ (ts.map Prod.fst).reverse ++ [t.1], a ≠ 0 ∧ a < 2 ^ 36 := by
      intro a ha
      rw [← List.reverse_cons, List.mem_reverse, ← List.map_cons (f := Prod.fst)] at ha
      rcases List.mem_map.1 ha with ⟨u, hu, rfl⟩
      have hub := tiling_mem htl (List.mem_map_of_mem hu)
      unfold tileRange at hub
      simp only at hub
      omega
    have hloop := makeAvailableLoop_twice (s := s.pushAll (t :: ts)) (m := []) hseg.1
      ⟨hpav.trans hav, hseg.2⟩ (fun h0 => (hin 0 h0).1 rfl) (List.pairwise_singleton _ _) hbelow'
      hnd' (length_lt_maxSteps hnd' fun a ha => (hin a ha).2) maxSteps
    unfold donate
    rw [storeBlocks_eq he 22 le_rfl s hlt.le, hcut]
    exact hloop

end Isambard.Allocator
