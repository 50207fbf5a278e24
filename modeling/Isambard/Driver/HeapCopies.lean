import Isambard.El1.Heap
import Isambard.Driver.Lookups

/-!
# Driver.HeapCopies — the tables of the maps, between the kernel and the driver

The system driver reads a table of virtual memory blocks with `read_heap`, and writes it back
with `write_heap`. Both take an offset down from the top of the heap, and copy upwards; they
test the offset, and leave the end to what is mapped. `find_vmb` has the same offset, and no
length at all.

* `accepted_inHeap_iff`: when a copy stays in the heap;
* `copyWords_spec`: what a copy leaves, for words that are apart;
* `rangeIsTable_iff`: when `find_vmb` stays in the range that the driver knows.
-/

namespace Isambard.Driver

open Isambard.Lib Isambard.El1

/-! ## Copies -/

/-- The addresses of a word of the heap, or of one of the loaded map. -/
def PlainWord (a : ℕ) : Prop := a % 8 = 0 ∧ (IsLow a ∨ heapStart ≤ a)

section Words

variable {k k' : Kernel} {a b v : ℕ}

theorem Placed.place_user (h : Placed k) (ha : IsLow a) : k.place a = .user a := by
  unfold Kernel.place
  rw [h.contextAt_none (by unfold IsLow startAddress heapTop initialHeap at *; omega)]
  show (if IsLow a then _ else _) = _
  rw [if_pos ha]

/-- A word of the heap is in a context, or in none. -/
theorem place_heap_cases (ha : heapStart ≤ a) :
    (∃ p w, k.place a = .context p w) ∨ k.place a = .mem a := by
  cases hc : k.contextAt a with
  | none => exact .inr (place_heap hc ha)
  | some p =>
    left
    refine ⟨p, (a - p) / 8, ?_⟩
    unfold Kernel.place
    rw [hc]

theorem store64_plain (h : Placed k) (ha : PlainWord a) (hb : PlainWord b) (v : ℕ) :
    (k.store64 a v).load64 b = if b = a then v else k.load64 b := by
  rw [store64_eq_setWord ha.1, load64_eq_word hb.1, load64_eq_word hb.1]
  rcases hb.2 with hlow | hheap
  · -- a word of the loaded map
    have hplace : (k.setWord a v).place b = .user b := by
      rw [setWord_place]
      exact Placed.place_user h hlow
    unfold Kernel.word
    rw [hplace, Placed.place_user h hlow]
    simp only
    rcases ha.2 with ha' | ha'
    · rw [Kernel.setWord, Placed.place_user h ha']
      show setCtx k.user k.loadedMap a v k.loadedMap b = _
      rw [setCtx_apply]
      simp
    · have hne : b ≠ a := by
        unfold IsLow heapStart startAddress heapTop initialHeap at *
        omega
      rw [if_neg hne, Kernel.setWord]
      rcases place_heap_cases (k := k) ha' with ⟨p, w, hp⟩ | hp
      · rw [hp]
        rfl
      · rw [hp]
  · have hg := heap_guarded (k := k) hheap
    split
    · rename_i heq
      rw [heq] at hg ⊢
      exact setWord_word hg v
    · rename_i hne
      exact setWord_word_ne h.aligned8 ha.1 hb.1 (Ne.symm hne) hg v

/-- Words that are copied to others. -/
theorem copyWords_spec {ok : Kernel → ℕ → ℕ → Bool} {n d s : ℕ} (h : Placed k)
    (hd : ∀ i < n, PlainWord (d + 8 * i)) (hs : ∀ i < n, PlainWord (s + 8 * i))
    (hapart : ∀ i < n, ∀ j < n, d + 8 * i ≠ s + 8 * j) (hok : copyWords ok n k d s = .ok k' ()) :
    Placed k' ∧ k'.heapBottom = k.heapBottom ∧
      (∀ i < n, k'.load64 (d + 8 * i) = k.load64 (s + 8 * i)) ∧
      ∀ b, PlainWord b → (∀ i < n, b ≠ d + 8 * i) → k'.load64 b = k.load64 b := by
  induction n generalizing k d s with
  | zero =>
    cases hok
    exact ⟨h, rfl, fun i hi => absurd hi (Nat.not_lt_zero i), fun _ _ _ => rfl⟩
  | succ n ih =>
    unfold copyWords at hok
    split at hok
    swap
    · cases hok
    -- the first word is stored, and the loop goes on with the words behind it
    have hfirst : PlainWord d := hd 0 (by omega)
    have hstores := store64_stores k d (k.load64 s)
    have hstep (b : ℕ) (hb : PlainWord b) := store64_plain h hfirst hb (k.load64 s)
    have hpl := h.congr hstores.contexts hstores.heapBottom
    generalize k.store64 d (k.load64 s) = k₁ at hok hstores hstep hpl
    have hnext (x i : ℕ) : x + 8 + 8 * i = x + 8 * (i + 1) := by omega
    rcases ih hpl (fun i hi => hnext d i ▸ hd (i + 1) (by omega))
      (fun i hi => hnext s i ▸ hs (i + 1) (by omega))
      (fun i hi j hj => by rw [hnext, hnext]; exact hapart (i + 1) (by omega) (j + 1) (by omega))
      hok with ⟨hpl', hbot, hcopy, hrest⟩
    refine ⟨hpl', hbot.trans hstores.heapBottom, ?_, ?_⟩
    · intro i hi
      cases i with
      | zero =>
        rw [Nat.mul_zero, Nat.add_zero, Nat.add_zero,
          hrest d hfirst (fun i hi => by omega), hstep d hfirst, if_pos rfl]
      | succ i =>
        have hne : s + 8 * (i + 1) ≠ d := fun heq => hapart 0 (by omega) (i + 1) hi (by omega)
        rw [← hnext, ← hnext, hcopy i (by omega), hnext, hstep _ (hs (i + 1) hi), if_neg hne]
    · intro b hb hne
      have hfirst : b ≠ d := hne 0 (by omega)
      rw [hrest b hb fun i hi => hnext d i ▸ hne (i + 1) (by omega), hstep b hb, if_neg hfirst]

/-- Each word that was copied could be reached. -/
theorem copyWords_reached {ok : Kernel → ℕ → ℕ → Bool} {n d s : ℕ}
    (hok : copyWords ok n k d s = .ok k' ()) {i : ℕ} (hi : i < n) :
    ∃ k₁, k₁.layout = k.layout ∧ ok k₁ (d + 8 * i) (s + 8 * i) = true := by
  induction n generalizing k d s i with
  | zero => omega
  | succ n ih =>
    unfold copyWords at hok
    split at hok
    · rename_i hfirst
      cases i with
      | zero => exact ⟨k, rfl, hfirst⟩
      | succ i =>
        rcases ih hok (i := i) (by omega) with ⟨k₁, hl, hreach⟩
        refine ⟨k₁, hl.trans (store64_layout k d _), ?_⟩
        rwa [show d + 8 * (i + 1) = d + 8 + 8 * i by omega,
          show s + 8 * (i + 1) = s + 8 + 8 * i by omega]
    · cases hok

end Words

/-! ## The bounds of the heap -/

/-- The words that a copy is to reach are those of the heap. -/
def InBounds (k : Kernel) (offset length : ℕ) : Prop :=
  ∀ i < length / 8, startAddress + k.heapBottom ≤ heapPointer offset + 8 * i ∧
    heapPointer offset + 8 * i + 8 ≤ startAddress + heapTop

/-- One of the requests does not halt. -/
def Accepted (k : Kernel) (offset length a : ℕ) : Prop :=
  ∃ k', readHeap k offset length a = .ok k' () ∨ writeHeap k offset length a = .ok k' ()

section Bounds

variable {k k' : Kernel} {offset length a : ℕ}

/-- Nothing is mapped behind the heap. -/
theorem kernelMapped_top (h : kernelMapped k a = true) :
    a + 8 ≤ startAddress + heapTop := by
  have hl := k.layout.interfaces_le
  unfold kernelMapped at h
  simp only [Bool.or_eq_true, Bool.and_eq_true, decide_eq_true_eq] at h
  unfold initialHeap at *
  omega

theorem leaf_high (ha : startAddress ≤ a) : leaf k a = none := by
  unfold leaf
  rw [if_neg (by unfold startAddress at ha; omega)]

theorem accessible_top {k₁ : Kernel} {d s : ℕ} (hacc : accessible k₁ d s = true) :
    (startAddress ≤ d → d + 8 ≤ startAddress + heapTop) ∧
      (startAddress ≤ s → s + 8 ≤ startAddress + heapTop) := by
  unfold accessible kernelReadable kernelWritable at hacc
  simp only [Bool.and_eq_true, Bool.or_eq_true, decide_eq_true_eq] at hacc
  rcases hacc with ⟨hs, hd⟩
  constructor
  · intro hle
    rw [leaf_high hle] at hd
    simp only [Bool.false_eq_true, or_false] at hd
    exact kernelMapped_top hd
  · intro hle
    rw [leaf_high hle] at hs
    simp only [Bool.false_eq_true, or_false] at hs
    rcases hs with hs | ⟨-, hs⟩
    · exact kernelMapped_top hs
    · -- a word of the kernel's code
      have hl := layout_heapStart k₁
      have hdata := k₁.layout.data_le
      unfold heapStart at hl
      omega

/-- A copy that does not halt stays in the heap if it does not begin below its bottom. -/
theorem accepted_inBounds_iff (h : Accepted k offset length a) :
    InBounds k offset length ↔ length / 8 = 0 ∨ k.heapBottom + offset ≤ heapTop := by
  have htop {i : ℕ} (hi : i < length / 8) (hle : startAddress ≤ heapPointer offset + 8 * i) :
      heapPointer offset + 8 * i + 8 ≤ startAddress + heapTop := by
    rcases h with ⟨k', hr | hw⟩
    · unfold readHeap at hr
      split at hr
      · rcases copyWords_reached hr hi with ⟨k₁, -, hacc⟩
        exact (accessible_top hacc).2 hle
      · cases hr
    · unfold writeHeap at hw
      split at hw
      · rcases copyWords_reached hw hi with ⟨k₁, -, hacc⟩
        exact (accessible_top hacc).1 hle
      · cases hw
  constructor
  · intro hin
    rcases Nat.eq_zero_or_pos (length / 8) with hz | hpos
    · exact .inl hz
    · right
      have hfirst := hin 0 hpos
      unfold heapPointer startAddress heapTop at *
      omega
  · rintro (hz | hle)
    · intro i hi
      omega
    · intro i hi
      have hlow : startAddress + k.heapBottom ≤ heapPointer offset + 8 * i := by
        unfold heapPointer
        omega
      exact ⟨hlow, htop hi (by omega)⟩

/-- As long as there is a thread, what passes the test begins in the heap. -/
theorem heapBlockOk_le (h : Placed k) (hne : k.contexts ≠ [])
    (hok : heapBlockOk k offset length = true) : k.heapBottom + offset ≤ heapTop := by
  rcases List.exists_mem_of_ne_nil _ hne with ⟨p, hp⟩
  have hbottom := h.bottom p hp
  have htop := h.top p hp
  unfold heapBlockOk at hok
  simp only [Bool.and_eq_true, decide_eq_true_eq] at hok
  unfold contextSize heapTop at *
  omega

end Bounds

/-! ## There and back -/

/-- What the driver copies from or to is apart from the range. -/
def DriverWords (offset length a : ℕ) : Prop :=
  ∀ i < length / 8, PlainWord (a + 8 * i) ∧
    ∀ j < length / 8, a + 8 * i ≠ heapPointer offset + 8 * j

/-- What is written is read again, and the other words of the heap stay. -/
def Inverse (k : Kernel) (offset length src dst : ℕ) : Prop :=
  ∀ k₁ k₂, writeHeap k offset length src = .ok k₁ () →
    readHeap k₁ offset length dst = .ok k₂ () →
    (∀ i < length / 8, k₂.load64 (dst + 8 * i) = k.load64 (src + 8 * i)) ∧
    ∀ b, heapStart ≤ b → b % 8 = 0 → (∀ i < length / 8, b ≠ heapPointer offset + 8 * i) →
      k₁.load64 b = k.load64 b ∧
        ((∀ i < length / 8, b ≠ dst + 8 * i) → k₂.load64 b = k.load64 b)

section Copies

variable {k : Kernel} {offset length src dst : ℕ}

theorem inverse_of_apart (h : Placed k) (hle : k.heapBottom + offset ≤ heapTop)
    (hsrc : DriverWords offset length src) (hdst : DriverWords offset length dst) :
    Inverse k offset length src dst := by
  intro k₁ k₂ hw hr
  have hmapped := h.mapped
  unfold writeHeap at hw
  unfold readHeap at hr
  split at hw
  swap
  · cases hw
  rename_i hok
  split at hr
  swap
  · cases hr
  unfold heapBlockOk at hok
  simp only [Bool.and_eq_true, beq_iff_eq] at hok
  have hrange (i : ℕ) : PlainWord (heapPointer offset + 8 * i) := by
    have hmod := hok.1.2
    unfold PlainWord heapPointer heapStart startAddress heapTop initialHeap at *
    constructor
    · omega
    · omega
  rcases copyWords_spec h (fun i _ => hrange i) (fun i hi => (hsrc i hi).1)
    (fun i hi j hj => ((hsrc j hj).2 i hi).symm) hw with ⟨h₁, -, hwritten, hrest⟩
  rcases copyWords_spec h₁ (fun i hi => (hdst i hi).1) (fun i _ => hrange i)
    (fun i hi => (hdst i hi).2) hr with ⟨-, -, hread, hrest'⟩
  refine ⟨fun i hi => (hread i hi).trans (hwritten i hi), ?_⟩
  intro b hb hal hne
  have hsame := hrest b ⟨hal, .inr hb⟩ hne
  exact ⟨hsame, fun hne' => (hrest' b ⟨hal, .inr hb⟩ hne').trans hsame⟩

end Copies

/-! ## The table of a map -/

/-- Where `find_vmb` begins, `heap_pointer_from_offset_lsr4` of the map's value. -/
def tableStart (k : Kernel) (m : ℕ) : ℕ :=
  startAddress + heapTop - 16 * MapValue.heapOffsetLsr4 (k.interfaces m).object

/-- For the address `fa` in the map `m`, the loop of `find_vmb` comes to the entry `j`. -/
def ComesTo (k : Kernel) (m fa j : ℕ) : Prop :=
  MapValue.heapOffsetLsr4 (k.interfaces m).object ≤ (heapTop - k.heapBottom) / 16 ∧
    ∀ i < j, 0 < Vmb.pageCount (k.load64 (tableStart k m + 8 * i)) ∧
      vmbHas (k.load64 (tableStart k m + 8 * i)) (fa / 4096) = false

/-- The range that the driver reads and writes for the map `m` is what `find_vmb` walks. -/
def RangeIsTable (k : Kernel) (m : ℕ) : Prop :=
  heapPointer (tableOffset (k.interfaces m).object) = tableStart k m ∧
    ∀ fa j, ComesTo k m fa j → j < MapValue.numberOfVmbs (k.interfaces m).object

section Table

variable {k : Kernel} {m fa j : ℕ}

theorem vmbLoopReads_iff {faPage n a : ℕ} (hj : j < n) : j < vmbLoopReads k faPage n a ↔
    ∀ i < j, 0 < Vmb.pageCount (k.load64 (a + 8 * i)) ∧
      vmbHas (k.load64 (a + 8 * i)) faPage = false := by
  induction n generalizing a j with
  | zero => omega
  | succ n ih =>
    have hnext (i : ℕ) : a + 8 * (i + 1) = a + 8 + 8 * i := by omega
    unfold vmbLoopReads
    simp only
    cases j with
    | zero =>
      refine ⟨fun _ i hi => by omega, fun _ => ?_⟩
      split
      · split <;> omega
      · omega
    | succ j =>
      constructor
      · -- the loop passes an entry that has pages, but not the address
        intro hlt
        split at hlt
        · rename_i hpages
          split at hlt
          · omega
          · rename_i hhas
            intro i hi
            cases i with
            | zero => exact ⟨hpages, by simpa using hhas⟩
            | succ i =>
              rw [hnext]
              exact (ih (j := j) (by omega)).1 (by omega) i (by omega)
        · omega
      · intro hall
        have hfirst := hall 0 (by omega)
        rw [Nat.mul_zero, Nat.add_zero] at hfirst
        rw [if_pos hfirst.1, if_neg (by rw [hfirst.2]; decide)]
        have hrest := (ih (j := j) (by omega)).2 fun i hi => hnext i ▸ hall (i + 1) (by omega)
        omega

/-- Up to the top of the heap, the entries that the loop comes to are those that it reads. -/
theorem comesTo_iff (hj : j < 2 * MapValue.heapOffsetLsr4 (k.interfaces m).object) :
    ComesTo k m fa j ↔ j < findVmbReads k m fa := by
  unfold ComesTo findVmbReads
  simp only
  split
  · rename_i hgt
    constructor
    · rintro ⟨hle, -⟩
      omega
    · intro hlt
      omega
  · rename_i hle
    rw [vmbLoopReads_iff hj]
    exact and_iff_right (not_lt.1 hle)

/-- No entry has a page that is above all that fit the field for the first page. -/
theorem vmbHas_high (v : ℕ) : vmbHas v (2 ^ 37 / 4096) = false := by
  have hstart : Vmb.startPage v < 2 ^ 24 := field_lt 0 24 v
  have hcount : Vmb.pageCount v < 2 ^ 20 := field_lt 24 20 v
  unfold vmbHas
  simp only [decide_eq_false_iff_not]
  omega

/-- `find_vmb` does not leave the range if there is an entry without pages in it, and only
then. -/
theorem rangeIsTable_iff
    (hfits : k.heapBottom + 16 * MapValue.heapOffsetLsr4 (k.interfaces m).object ≤ heapTop) :
    RangeIsTable k m ↔ ∃ j < MapValue.numberOfVmbs (k.interfaces m).object,
      Vmb.pageCount (vmbEntry k (k.interfaces m).object j) = 0 := by
  have hstart : heapPointer (tableOffset (k.interfaces m).object) = tableStart k m := by
    unfold tableOffset heapPointer tableStart heapTop at *
    omega
  unfold RangeIsTable vmbEntry entryAddress
  rw [hstart]
  constructor
  · rintro ⟨-, hin⟩
    by_contra hnone
    rw [not_exists] at hnone
    have hlt := hin (2 ^ 37) (MapValue.numberOfVmbs (k.interfaces m).object)
      ⟨by omega, fun i hi => ⟨Nat.pos_of_ne_zero fun hz => hnone i ⟨hi, hz⟩, vmbHas_high _⟩⟩
    exact Nat.lt_irrefl _ hlt
  · rintro ⟨j, hj, hz⟩
    refine ⟨rfl, fun fa i hcomes => ?_⟩
    by_contra hge
    have hpos := (hcomes.2 j (by omega)).1
    omega

/-- In the runs in which `map_at` finds room for the end of a table, the ranges stay the
tables. -/
theorem run_rangeIsTable (h : (driverSystem.restrict GivenBlock).Reachable k) (hm : IsMap k m) :
    RangeIsTable k m := by
  have hinv : Inv k := h.invariant (fun s hs => booted_inv hs)
    fun s i s' hs hstep => step_inv hs hstep.1 hstep.2
  have hroom := hinv.room m hm
  have hfits := hroom.fits
  rcases hinv.ended m hm with ⟨j, hj, hz⟩
  rw [rangeIsTable_iff (by omega)]
  refine ⟨j, hj, ?_⟩
  rw [vmbEntry, hroom.load64 hj, hz]

end Table

/-! ## The requests -/

/-- A copy that does not halt is in the heap if it begins above the bottom, the driver's copies
are inverse, and the driver's range is the table as long as it has an end. -/
theorem heap_requests {k : Kernel} (h : Placed k) :
    (∀ offset length a, Accepted k offset length a →
      (InBounds k offset length ↔ length / 8 = 0 ∨ k.heapBottom + offset ≤ heapTop)) ∧
    (∀ offset length src dst, k.heapBottom + offset ≤ heapTop → DriverWords offset length src →
      DriverWords offset length dst → Inverse k offset length src dst) ∧
    ∀ m, k.heapBottom + 16 * MapValue.heapOffsetLsr4 (k.interfaces m).object ≤ heapTop →
      (RangeIsTable k m ↔ ∃ j < MapValue.numberOfVmbs (k.interfaces m).object,
        Vmb.pageCount (vmbEntry k (k.interfaces m).object j) = 0) :=
  ⟨fun _ _ _ hacc => accepted_inBounds_iff hacc,
    fun _ _ _ _ hle hsrc hdst => inverse_of_apart h hle hsrc hdst, fun _ => rangeIsTable_iff⟩

/-- The two drivers, when the system driver's map is loaded; the words on the stack of the system
driver are their addresses. -/
def systemLoaded : Kernel := { loadThisMap twoDrivers systemMapIndex with user := fun _ a => a }

/-- The driver writes the table of the map 3 from words on its stack, and reads it to others. -/
structure TableCopied (k₁ k₂ : Kernel) : Prop where
  write : writeHeap systemLoaded 608 96 0x100 = .ok k₁ ()
  read : readHeap k₁ 608 96 0x200 = .ok k₂ ()

theorem table_copied : ∃ k₁ k₂, TableCopied k₁ k₂ := by
  have hfacts : (writeHeap systemLoaded 608 96 0x100).isOk = true ∧
      (readHeap (writeHeap systemLoaded 608 96 0x100).kernel 608 96 0x200).isOk = true := by
    decide +kernel
  exact ⟨_, _, Outcome.eq_ok hfacts.1, Outcome.eq_ok hfacts.2⟩

theorem heap_requests_table : ∃ k₁ k₂, TableCopied k₁ k₂ ∧ InBounds systemLoaded 608 96 ∧
    (∀ i < 12, k₂.load64 (0x200 + 8 * i) = 0x100 + 8 * i) ∧ RangeIsTable systemLoaded 3 := by
  have hplaced : Placed systemLoaded := by
    rcases loadThisMap_tables twoDrivers systemMapIndex with ⟨n, l1, l2, l3, hl⟩
    unfold systemLoaded
    rw [hl]
    exact twoDrivers_booted.placed.congr rfl rfl
  have hbottom : systemLoaded.heapBottom = 0x1ff940 := by decide +kernel
  have hoffset : MapValue.heapOffsetLsr4 (systemLoaded.interfaces 3).object = 0x26 := by
    decide +kernel
  have hwords (a : ℕ) (ha : a % 8 = 0) (hlt : a < 2 ^ 12) : DriverWords 608 96 a := by
    intro i hi
    unfold PlainWord IsLow heapPointer startAddress heapTop
    refine ⟨⟨by omega, .inl (by omega)⟩, fun j _ => by omega⟩
  rcases table_copied with ⟨k₁, k₂, hcopied⟩
  rcases heap_requests hplaced with ⟨hin, hinv, htable⟩
  have hback := hinv 608 96 0x100 0x200 (by rw [hbottom]; decide) (hwords _ (by decide) (by decide))
    (hwords _ (by decide) (by decide)) k₁ k₂ hcopied.write hcopied.read
  refine ⟨k₁, k₂, hcopied, (hin _ _ _ ⟨k₁, .inr hcopied.write⟩).2 (.inr ?_), ?_,
    (htable 3 ?_).2 ⟨2, ?_, ?_⟩⟩
  · rw [hbottom]
    decide
  · have hstack : ∀ i < 12, systemLoaded.load64 (0x100 + 8 * i) = 0x100 + 8 * i := by
      decide +kernel
    intro i hi
    exact (hback.1 i hi).trans (hstack i hi)
  · rw [hbottom, hoffset]
    decide
  · decide +kernel
  · decide +kernel

/-- The map 3 with eleven entries in its table, of twelve. -/
def elevenEntries : Kernel :=
  writeTable twoDrivers (twoDrivers.interfaces 3).object
    (fun j => if j < 11 then newVmb (16 * j) 1 5 else 0) 12

/-- `map_at` for the twelfth. -/
def twelveEntries : Outcome ℕ :=
  mapAt elevenEntries (startAddress + 0x1ffba0) (twoDrivers.interfaces 3).object 5 0x100000

/-- `find_vmb` walks on into the context behind the table. -/
theorem full_table_not_ended : twelveEntries.isOk = true ∧ RangeIsTable elevenEntries 3 ∧
    ¬ RangeIsTable twelveEntries.kernel 3 := by
  have hfits (k : Kernel) (hb : k.heapBottom = 0x1ff940)
      (ho : MapValue.heapOffsetLsr4 (k.interfaces 3).object = 0x26) :
      k.heapBottom + 16 * MapValue.heapOffsetLsr4 (k.interfaces 3).object ≤ heapTop := by
    rw [hb, ho]
    decide
  refine ⟨by decide +kernel, ?_, ?_⟩
  · rw [rangeIsTable_iff (hfits _ (by decide +kernel) (by decide +kernel))]
    exact ⟨11, by decide +kernel, by decide +kernel⟩
  · rw [rangeIsTable_iff (hfits _ (by decide +kernel) (by decide +kernel))]
    decide +kernel

end Isambard.Driver
