import Isambard.Allocator.Mapped
import Isambard.Driver.Tables

/-!
# Driver.Memory — the system driver and the memory manager

The calls of the system driver (`drivers/system.c`) that give memory to the allocator and take
it from there. Sizes are cut to whole pages in one driver and rounded up to them in the other.

* `systemAllocateMemory`: `allocate_memory`, with the allocator behind it;
* `allocate_memory_iff`: when the block it returns is as large as was asked for;
* `set_memory_top_iff`: when the memory given at start-up is not given again.
-/

namespace Isambard.Driver

open Isambard.Lib Isambard.El1 Isambard.Allocator

/-! ## Asking for memory -/

/-- How a call of `allocate_memory` ends. -/
inductive MemoryAnswer where
  | exception (code : ℕ)
  | null
  | block (cmb : ℕ)
deriving Repr, DecidableEq

/-- `MapValue__SYSTEM__allocate_memory`, by the object of the interface that it makes; `top` is
`allocatable_memory_top`. -/
def systemAllocateMemory (top : ℕ) (s : State) (size : ℕ) : Option (State × MemoryAnswer) :=
  if top = 0 then some (s, .exception 0)
  else
    match entry s 1 size 0 with
    | none => none
    | some (s, r) =>
      if r ≠ 0 then some (s, .block (cmbOf (r / 4096) (size / 4096) fullyCacheable))
      else some (s, .null)

/-- `c` is one of the available chunks. -/
def IsAvailable (s : State) (c : ℕ) : Prop :=
  ∃ l, Seg s.next s.availableChunks l 0 ∧ 0 ∉ l ∧ c ∈ l

/-- What the caller relies on: the block has the size, and was in one chunk; or nothing
happened. -/
def Answers (s : State) (size : ℕ) (s' : State) : MemoryAnswer → Prop
  | .exception _ => s' = s
  | .null => s' = s
  | .block cmb => size ≤ Cmb.pageCount cmb * 4096 ∧ ∃ c, IsAvailable s c ∧
      ∀ x, Cmb.startPage cmb * 4096 ≤ x →
        x < (Cmb.startPage cmb + Cmb.pageCount cmb) * 4096 →
        c ≤ x ∧ x < c + 2 ^ (s.mem c).log2size

def GivesEnough (top : ℕ) (s : State) (size : ℕ) : Prop :=
  ∃ s' a, systemAllocateMemory top s size = some (s', a) ∧ Answers s size s' a

/-- The allocator and its clients: any donation, request or use. -/
def allocatorSystem : System Sys Op := ⟨Allocator.system.init, fun y op z => y.next op = some z⟩

section Ask

variable {s : State} {l : List ℕ} {top size : ℕ}

theorem isAvailable_iff (h : Available s l) (c : ℕ) : IsAvailable s c ↔ c ∈ l := by
  constructor
  · rintro ⟨l', hs', h0', hc⟩
    rwa [seg_unique hs' h.seg h0' h.nonnull] at hc
  · exact fun hc => ⟨l, h.seg, h.nonnull, hc⟩

theorem cmbOf_startPage (p n t : ℕ) : Cmb.startPage (cmbOf p n t) = p % 2 ^ 24 := by
  unfold Cmb.startPage cmbOf
  rw [field_setField_below (by decide), field_setField_below (by decide)]
  exact field_setField _ _ _ _

theorem cmbOf_pageCount (p n t : ℕ) : Cmb.pageCount (cmbOf p n t) = n % 2 ^ 20 := by
  unfold Cmb.pageCount cmbOf
  rw [field_setField_below (by decide)]
  exact field_setField _ _ _ _

theorem roundToPage_of_aligned (hal : size % 4096 = 0) (hlt : size < 2 ^ 32) :
    roundToPage size = size := by
  unfold roundToPage add64
  omega

/-- A block is large enough when its size is a number of pages that its field can hold. -/
theorem pageCount_enough_iff (r t : ℕ) :
    size ≤ Cmb.pageCount (cmbOf r (size / 4096) t) * 4096 ↔ size % 4096 = 0 ∧ size < 2 ^ 32 := by
  rw [cmbOf_pageCount]
  omega

/-- With the chunks that the invariant of the allocator describes. -/
theorem givesEnough_iff (h : Available s l) :
    GivesEnough top s size ↔ top = 0 ∨ (size % 4096 = 0 ∧ size < 2 ^ 32) ∨
      ∀ c, IsAvailable s c → shl32 (s.mem c).log2size < roundToPage size := by
  by_cases htop : top = 0
  · -- before `set_memory_top` there is nothing to give
    refine ⟨fun _ => .inl htop, fun _ => ⟨s, .exception 0, if_pos htop, rfl⟩⟩
  rcases allocate_result (roundToPage size) h with ⟨hall, halloc⟩ | ⟨c, hc, hfit, s', halloc⟩
  · have hcall : systemAllocateMemory top s size = some (s, .null) := by
      simp [systemAllocateMemory, htop, entry, halloc]
    refine ⟨fun _ => .inr (.inr ?_), fun _ => ⟨s, .null, hcall, rfl⟩⟩
    intro c hc
    exact hall c ((isAvailable_iff h c).1 hc)
  · set r := c + (shl32 (s.mem c).log2size - roundToPage size) with hr
    have hcpos : c ≠ 0 := fun h0 => h.nonnull (h0 ▸ hc)
    have hbelow := h.below c hc
    have hshl := shl32_le (s.mem c).log2size
    have hcall : systemAllocateMemory top s size =
        some (s', .block (cmbOf (r / 4096) (size / 4096) fullyCacheable)) := by
      have hne : r ≠ 0 := by omega
      simp [systemAllocateMemory, htop, entry, halloc, hne]
    constructor
    · rintro ⟨s₁, a, hcall₁, hans⟩
      obtain ⟨-, rfl⟩ := Prod.mk.inj (Option.some.inj (hcall.symm.trans hcall₁))
      exact .inr (.inl ((pageCount_enough_iff (r / 4096) fullyCacheable).1 hans.1))
    · rintro (h0 | ⟨hal, hlt⟩ | hno)
      · exact absurd h0 htop
      · refine ⟨s', _, hcall, (pageCount_enough_iff _ _).2 ⟨hal, hlt⟩, c,
          (isAvailable_iff h c).2 hc, ?_⟩
        -- the block is the top of the chunk
        have hal' := h.aligned c hc
        rw [cmbOf_startPage, cmbOf_pageCount]
        rw [roundToPage_of_aligned hal hlt] at hr hfit
        intro x hx hx'
        have hsize : 4096 ≤ size := by omega
        have hlog := lt_of_le_shl32 (h.size c hc).2 hsize hfit
        have hpage : 2 ^ 12 ∣ 2 ^ (s.mem c).log2size := pow_dvd_pow 2 (h.size c hc).1
        have hc4 := Nat.mod_eq_zero_of_dvd (dvd_trans hpage (Nat.dvd_of_mod_eq_zero hal'))
        have hl4 := Nat.mod_eq_zero_of_dvd hpage
        rw [shl32_of_lt hlog] at hr hfit
        omega
      · have := hno c ((isAvailable_iff h c).2 hc)
        omega

end Ask

theorem allocatorSystem_inv {y : Sys} (h : (allocatorSystem.restrict Careful).Reachable y) :
    ∃ l, Allocator.Inv y l := by
  refine h.invariant (P := fun y => ∃ l, Allocator.Inv y l) (fun z hz => ⟨[], init_inv hz⟩) ?_
  rintro z op z' ⟨l, hl⟩ ⟨hc, hnext⟩
  rcases careful_inv hl op hc with ⟨w, l', hw, hl'⟩
  obtain rfl : w = z' := Option.some.inj (hw.symm.trans hnext)
  exact ⟨l', hl'⟩

/-- In every run in which the allocator keeps its representation: `allocate_memory` returns a
block of the size that was asked for, from one chunk, or nothing, exactly when the size is a
number of pages below 4GB, or when no chunk is large enough. -/
theorem allocate_memory_iff {y : Sys} (h : (allocatorSystem.restrict Careful).Reachable y)
    (top size : ℕ) : GivesEnough top y.state size ↔
      top = 0 ∨ (size % 4096 = 0 ∧ size < 2 ^ 32) ∨
        ∀ c, IsAvailable y.state c → shl32 (y.state.mem c).log2size < roundToPage size := by
  rcases allocatorSystem_inv h with ⟨l, hl⟩
  exact givesEnough_iff hl.available

/-- `allocatable_memory_top` after the system driver has started. -/
def startTop : ℕ := 512 * 1024 * 1024

theorem given32K_careful : (allocatorSystem.restrict Careful).Reachable given32K := by
  have h0 : (allocatorSystem.restrict Careful).Reachable start := .init ⟨rfl, rfl, rfl, rfl⟩
  refine .step (i := .donate 0x8000 0x10000) h0 ⟨⟨?_, ?_, ?_, ?_, ?_, ?_⟩, rfl⟩
  · decide
  · decide
  · decide
  · decide
  · intro x hx
    rcases hx with ⟨r, hr, -⟩
    cases hr
  · exact fun h => absurd h (by decide)

/-- Three pages of a chunk of eight. -/
theorem allocate_memory_three_pages : GivesEnough startTop given32K.state 0x3000 :=
  (allocate_memory_iff given32K_careful startTop 0x3000).2 (.inr (.inl ⟨by decide, by decide⟩))

/-- 5000 bytes are asked for, and one page is given. -/
theorem allocate_memory_part_of_page : ¬ ∀ y, allocatorSystem.Reachable y → ∀ top size,
    size < 2 ^ 64 → GivesEnough top y.state size := by
  intro h
  have hgives := h _ given32K_careful.of_restrict startTop 5000 (by decide)
  have hav : Available given32K.state [0x8000] :=
    ⟨by decide +kernel, by decide, by decide, by decide +kernel, by decide +kernel,
      by decide +kernel, by decide +kernel⟩
  rcases (givesEnough_iff hav).1 hgives with h0 | ⟨hal, -⟩ | hno
  · exact absurd h0 (by decide)
  · exact absurd hal (by decide)
  · have hfit := hno 0x8000 ((isAvailable_iff hav _).2 (List.mem_singleton_self _))
    revert hfit
    decide +kernel

/-! ## Giving memory -/

/-- What `idle_thread_entry` gives on core 0, where `allocatable_memory_base` is its
`first_free_page`. -/
def startDonation (s : State) (firstFreePage : ℕ) : Option State :=
  donate s firstFreePage (256 * 1024 * 1024)

/-- `MapValue__DRIVER_SYSTEM__set_memory_top`. -/
def setMemoryTop (s : State) (allocatableMemoryBase top : ℕ) : Option State :=
  donate s allocatableMemoryBase top

/-- Both donations return, and the available chunks have every byte of the range once. -/
def DonatedOnce (s : State) (firstFreePage top : ℕ) : Prop :=
  ∃ s₁ s₂ l, startDonation s firstFreePage = some s₁ ∧ setMemoryTop s₁ firstFreePage top = some s₂ ∧
    Seg s₂.next s₂.availableChunks l 0 ∧ 0 ∉ l ∧
    Partition (l.map (chunkRange s₂)) [(firstFreePage, top)]

section Give

variable {s : State} {firstFreePage top : ℕ}

/-- The null pointer is no chunk, so the first byte of memory is never available. -/
theorem partition_pos {l : List ℕ} {b e : ℕ} (h0 : 0 ∉ l)
    (h : Partition (l.map (chunkRange s)) [(b, e)]) (hbe : b < e) : b ≠ 0 := by
  rintro rfl
  have hmem : 0 ∈ bytes (l.map (chunkRange s)) := by
    rw [h.bytes_eq]
    exact ⟨(0, e), List.mem_singleton_self _, le_rfl, hbe⟩
  rcases hmem with ⟨r, hr, hle, -⟩
  rcases List.mem_map.1 hr with ⟨c, hc, rfl⟩
  obtain rfl : c = 0 := Nat.le_zero.1 hle
  exact h0 hc

/-- `set_memory_top` completes the memory exactly when the start-up gave none of it, and all of
it is mapped. -/
theorem set_memory_top_iff (hf : s.freedChunks = 0) (ha : s.availableChunks = 0)
    (hlt : firstFreePage < top) (htop : top < 2 ^ 64) (hal : top % 4096 = 0) :
    DonatedOnce s firstFreePage top ↔ firstFreePage = 2 ^ 28 ∧ top ≤ 2 ^ 33 := by
  have hmapped : mappedTop = 2 ^ 33 := by decide
  constructor
  · rintro ⟨s₁, s₂, l, hstart, hset, hseg, h0, hpart⟩
    have hpos := partition_pos h0 hpart hlt
    unfold startDonation at hstart
    unfold setMemoryTop at hset
    have hpage : firstFreePage % 4096 = 0 := by
      -- a first donation that is not empty is donated again
      by_contra hne
      rw [donate_unaligned hne] at hstart
      cases hstart
    have hle : firstFreePage ≤ 2 ^ 28 := by
      by_contra hgt
      rw [donate_past (by omega) (by omega)] at hstart
      cases hstart
    have htop' : top ≤ 2 ^ 33 := by
      by_contra hgt
      rw [donate_high hpos (by omega) (by omega) htop hal] at hset
      cases hset
    refine ⟨?_, htop'⟩
    by_contra hne
    have hend : firstFreePage ≤ 256 * 1024 * 1024 := by omega
    rcases donate_empty hf ha hend (by omega) hpage (by decide) hpos with
      ⟨s', l', hs', hav, hfr, hpart'⟩
    obtain rfl := Option.some.inj (hs'.symm.trans hstart)
    rw [donate_twice hav hfr hpart' hpos (by omega) hlt (by omega) hpage hal] at hset
    cases hset
  · rintro ⟨rfl, htop'⟩
    rcases donate_empty hf ha hlt.le (by omega) (by decide) hal (by decide) with
      ⟨s₂, l, hs₂, hav, -, hpart⟩
    refine ⟨s, s₂, l, ?_, hs₂, hav.seg, hav.nonnull, hpart⟩
    exact donate_nothing hf (by decide) (by decide)

/-- 256MB of memory, from 256MB on. -/
theorem set_memory_top_from_256MB : DonatedOnce start.state (2 ^ 28) (2 ^ 29) :=
  (set_memory_top_iff rfl rfl (by decide) (by decide) (by decide)).2 ⟨rfl, by decide⟩

/-- The first free page is at 4MB: `set_memory_top` does not return. -/
theorem set_memory_top_from_4MB : ¬ ∀ (s : State) (firstFreePage top : ℕ), s.freedChunks = 0 →
    s.availableChunks = 0 → firstFreePage < top → top < 2 ^ 64 → top % 4096 = 0 →
      DonatedOnce s firstFreePage top := by
  intro h
  rcases h start.state 0x400000 0x20000000 rfl rfl (by decide) (by decide) (by decide) with
    ⟨s₁, s₂, l, hstart, hset, -⟩
  have hnone : ((startDonation start.state 0x400000).bind fun s =>
      setMemoryTop s 0x400000 0x20000000).isNone = true := by decide +kernel
  rw [hstart, Option.bind_some, hset] at hnone
  cases hnone

end Give

end Isambard.Driver
