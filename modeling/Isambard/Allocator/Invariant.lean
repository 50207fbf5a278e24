import Isambard.Lib.Runs
import Isambard.Allocator.Allocate
import Isambard.Allocator.Tiles

/-!
# Allocator.Invariant — the allocator over whole runs

The driver together with two ghost lists, the ranges donated to it and the
blocks it has handed out. The clients of these blocks write what they like into
them, over the headers that were there.

`RepInv` is the representation invariant. It does not hold in every run, for
two reasons: a donation from address 0 makes a chunk that looks like the end of
the list, and `allocate` misplaces the third piece of a chunk. `run_repInv` is
about the runs without either.
-/

namespace Isambard.Allocator

open Isambard.Lib

/-- The driver and what went in and out of it. -/
structure Sys where
  state : State
  donated : List Range
  allocated : List Range

inductive Op where
  | donate (p end' : ℕ)
  | allocate (size : ℕ)
  /-- a client writes to the memory it was given -/
  | use (a : ℕ) (v : Chunk)

def Sys.next (y : Sys) : Op → Option Sys
  | .donate p end' => (entry y.state 0 p end').map fun r =>
      { y with state := r.1, donated := (p, end') :: y.donated }
  | .allocate size => (entry y.state 1 size 0).map fun r =>
      { y with
        state := r.1
        allocated := if r.2 = 0 then y.allocated
          else (r.2, r.2 + roundToPage size) :: y.allocated }
  | .use a v => some { y with state.mem := Function.update y.state.mem a v }

/-- Donated ranges are disjoint, 4K-aligned and below 4GB; blocks of up to 2GB
are asked for; clients keep to their blocks. -/
def Allowed (y : Sys) : Op → Prop
  | .donate p end' => p ≤ end' ∧ end' ≤ 2 ^ 32 ∧ p % 4096 = 0 ∧ end' % 4096 = 0 ∧
      ∀ x ∈ bytes y.donated, ¬ (p ≤ x ∧ x < end')
  | .allocate size => 1 ≤ size ∧ size ≤ 2 ^ 31
  | .use a _ => a ∈ bytes y.allocated

/-- The driver and its clients, from the empty lists it starts with. -/
def system : System Sys Op where
  init y := y.state.freedChunks = 0 ∧ y.state.availableChunks = 0 ∧
    y.donated = [] ∧ y.allocated = []
  step y op z := Allowed y op ∧ y.next op = some z

/-- The bytes of the chunk at `a`. -/
def chunkRange (s : State) (a : ℕ) : Range := (a, a + 2 ^ (s.mem a).log2size)

/-- The representation invariant: the available chunks are a finite ascending
list, aligned to their sizes, and together with the allocated blocks they are
exactly the donated bytes, none of them twice. -/
def RepInv (y : Sys) : Prop :=
  ∃ l, Seg y.state.next y.state.availableChunks l 0 ∧ 0 ∉ l ∧ l.Pairwise (· < ·) ∧
    (∀ a ∈ l, a % 2 ^ (y.state.mem a).log2size = 0) ∧
    Partition (l.map (chunkRange y.state) ++ y.allocated) y.donated

/-- The steps that keep it: no donation starts with the null pointer, and the
chunk an allocation splits leaves at most two pieces. -/
def KeepsRep (y : Sys) : Op → Prop
  | .donate p end' => p = 0 → end' = 0
  | .allocate size => ∀ c, FirstFit y.state (roundToPage size) c →
      (2 ^ (y.state.mem c).log2size - roundToPage size).bitIndices.length ≤ 2
  | .use _ _ => True

/-- Of the steps without those bounds: memory up to 64GB, and requests of any size. A request
that is rounded to nothing would take nothing, and leave a chunk in pieces. -/
def Careful (y : Sys) : Op → Prop
  | .donate p end' => p ≤ end' ∧ end' ≤ 2 ^ 36 ∧ p % 4096 = 0 ∧ end' % 4096 = 0 ∧
      (∀ x ∈ bytes y.donated, ¬ (p ≤ x ∧ x < end')) ∧ (p = 0 → end' = 0)
  | .allocate size => ∀ c, FirstFit y.state (roundToPage size) c →
      0 < roundToPage size ∧
        (2 ^ (y.state.mem c).log2size - roundToPage size).bitIndices.length ≤ 2
  | .use a _ => a ∈ bytes y.allocated

/-! ## The inductive invariant -/

structure Inv (y : Sys) (l : List ℕ) : Prop where
  available : Available y.state l
  freed : y.state.freedChunks = 0
  partition : Partition (l.map (chunkRange y.state) ++ y.allocated) y.donated
  nonempty : ∀ r ∈ y.allocated, r.1 < r.2

theorem Inv.repInv {y : Sys} {l : List ℕ} (h : Inv y l) : RepInv y :=
  ⟨l, h.available.seg, h.available.nonnull, h.available.sorted, h.available.aligned,
    h.partition⟩

/-- The chunks of a partition have room up to the next. -/
theorem room_of_apart {s : State} {l : List ℕ} {rs : List Range}
    (h : (l.map (chunkRange s) ++ rs).Pairwise Apart) :
    ∀ a ∈ l, ∀ b ∈ l, a < b → a + 2 ^ (s.mem a).log2size ≤ b := by
  intro a ha b hb hab
  have hne : chunkRange s a ≠ chunkRange s b := fun h => by
    have : a = b := congrArg Prod.fst h
    omega
  have := (List.pairwise_append.1 h).1.forall (List.mem_map_of_mem ha)
    (List.mem_map_of_mem hb) hne
  have hpos := Nat.two_pow_pos (s.mem b).log2size
  rcases this with h | h
  · exact h
  · simp only [chunkRange] at h
    omega

theorem chunk_mem_bytes {y : Sys} {l : List ℕ} (h : Inv y l) {a : ℕ} (ha : a ∈ l) :
    a ∈ bytes y.donated := by
  rw [← h.partition.bytes_eq]
  refine ⟨chunkRange y.state a, by simp [List.mem_map_of_mem ha], le_rfl, ?_⟩
  simp [chunkRange]

theorem pieces_nonempty {y : Sys} {l : List ℕ} (h : Inv y l) :
    ∀ r ∈ l.map (chunkRange y.state) ++ y.allocated, r.1 < r.2 := by
  intro r hr
  rcases List.mem_append.1 hr with hr | hr
  · obtain ⟨a, -, rfl⟩ := List.mem_map.1 hr
    simp [chunkRange]
  · exact h.nonempty r hr

/-- The chunks, by what the tiles of a list say about their sizes. -/
theorem map_chunkRange {s : State} {ts : List (ℕ × ℕ)}
    (h : ∀ t ∈ ts, (s.mem t.1).log2size = t.2) :
    (ts.map Prod.fst).map (chunkRange s) = ts.map tileRange := by
  rw [List.map_map]
  refine List.map_congr_left fun t ht => ?_
  simp [chunkRange, tileRange, h t ht]

theorem map_chunkRange_congr {s s' : State} {l : List ℕ}
    (h : ∀ a ∈ l, (s'.mem a).log2size = (s.mem a).log2size) :
    l.map (chunkRange s') = l.map (chunkRange s) :=
  List.map_congr_left fun a ha => by simp [chunkRange, h a ha]

/-! ## Steps -/

/-- The chunks of a new range become available. -/
theorem Inv.push {y : Sys} {l : List ℕ} {p q : ℕ} {ts : List (ℕ × ℕ)} (h : Inv y l)
    (htl : Tiling p (ts.map tileRange) q)
    (hts : ∀ t ∈ ts, 12 ≤ t.2 ∧ t.2 ≤ 34 ∧ t.1 % 2 ^ t.2 = 0) (h0 : 0 ∉ ts.map Prod.fst)
    (hq : q ≤ 2 ^ 36) (hdis : ∀ x ∈ bytes y.donated, ¬ (p ≤ x ∧ x < q)) :
    ∃ s' l', makeAvailableAllFreedChunks (y.state.pushAll ts) = some s' ∧
      Inv ⟨s', (p, q) :: y.donated, y.allocated⟩ l' := by
  rcases pushAll_freed h.freed htl h0 with ⟨hfreed, hav, hmem⟩
  have hout : ∀ a ∈ l, ¬ (p ≤ a ∧ a < q) := fun a ha => hdis a (chunk_mem_bytes h ha)
  have hold : ∀ a ∈ l, (y.state.pushAll ts).mem a = y.state.mem a := fun a ha =>
    hmem a fun hm => hout a ha (tiles_mem htl hm)
  have hl : Ascending (y.state.pushAll ts) l :=
    Ascending.congr ⟨h.available.seg, h.available.nonnull, h.available.sorted⟩ hav hold
  rcases hfreed.release htl (by omega) hl (fun a ha => by have := h.available.lt a ha; omega)
    hout with ⟨s', l', hrel, hl', hperm, hfr, hlog⟩
  have hlogt : ∀ t ∈ ts, (s'.mem t.1).log2size = t.2 := fun t ht =>
    (hlog t.1).trans (hfreed.log2size t ht)
  have hlogl : ∀ a ∈ l, (s'.mem a).log2size = (y.state.mem a).log2size := fun a ha =>
    (hlog a).trans (by rw [hold a ha])
  have hpart : Partition (l'.map (chunkRange s') ++ y.allocated) ((p, q) :: y.donated) := by
    have hadd := h.partition.add htl (pieces_nonempty h) hdis
    rw [← map_chunkRange hlogt, ← map_chunkRange_congr hlogl, ← List.append_assoc,
      ← List.map_append] at hadd
    exact hadd.perm (List.Perm.append_right _ (List.Perm.map _ hperm.symm))
  have hall : ∀ a ∈ l', 12 ≤ (s'.mem a).log2size ∧ (s'.mem a).log2size ≤ 34 ∧
      a % 2 ^ (s'.mem a).log2size = 0 ∧ a + 2 ^ (s'.mem a).log2size ≤ 2 ^ 36 := by
    intro a ha
    rcases List.mem_append.1 (hperm.mem_iff.1 ha) with ha | ha
    · rcases List.mem_map.1 ha with ⟨t, ht, rfl⟩
      rcases tiling_mem htl (List.mem_map_of_mem ht) with ⟨-, -, hend⟩
      rcases hts t ht with ⟨hlow, hhigh, hal⟩
      simp only [tileRange] at hend
      rw [hlogt t ht]
      exact ⟨hlow, hhigh, hal, by omega⟩
    · rw [hlogl a ha]
      exact ⟨(h.available.size a ha).1, (h.available.size a ha).2, h.available.aligned a ha,
        h.available.below a ha⟩
  refine ⟨s', l', hrel, ?_, hfr, hpart, h.nonempty⟩
  exact ⟨hl'.seg, hl'.nonnull, hl'.sorted, room_of_apart hpart.apart,
    fun a ha => ⟨(hall a ha).1, (hall a ha).2.1⟩, fun a ha => (hall a ha).2.2.1,
    fun a ha => (hall a ha).2.2.2⟩

/-- A donation is cut up and all of it becomes available. -/
theorem donate_inv {y : Sys} {l : List ℕ} {p end' : ℕ} (h : Inv y l)
    (hc : Careful y (.donate p end')) :
    ∃ z l', y.next (.donate p end') = some z ∧ Inv z l' := by
  rcases hc with ⟨hpe, he, hpa, hea, hdis, hk⟩
  rcases makeListOfFreedChunks_cuts y.state hpa hpe (by omega) with ⟨ts, hmake, hcuts⟩
  have hq : lastPage p end' = end' := by
    unfold lastPage
    omega
  have htl := hcuts.tiling
  rw [hq] at htl
  have h0 : 0 ∉ ts.map Prod.fst := by
    intro hm
    have hin := tiles_mem htl hm
    have := hk (by omega)
    omega
  rcases h.push htl hcuts.size h0 he hdis with ⟨s', l', hrel, hinv⟩
  refine ⟨_, l', ?_, hinv⟩
  simp [Sys.next, entry, hmake, hrel]

theorem roundToPage_aligned (size : ℕ) : roundToPage size % 4096 = 0 := by
  unfold roundToPage
  omega

theorem roundToPage_pos {size : ℕ} (h₁ : 1 ≤ size) (h₂ : size ≤ 2 ^ 31) :
    0 < roundToPage size := by
  unfold roundToPage add64
  omega

/-- The chunks after the top of one was taken, and the block. -/
theorem takes_inv {y : Sys} {l : List ℕ} {size addr : ℕ} {s' : State} (h : Inv y l)
    (hsz : 0 < size) (ht : Takes y.state l size s' addr) :
    ∃ l', Inv ⟨s', y.donated, (addr, addr + size) :: y.allocated⟩ l' := by
  obtain ⟨l₁, c, l₂, ts, rfl, haddr, htl, hend, hts, hseg, hfr, hlog⟩ := ht
  have hc : c ∈ l₁ ++ c :: l₂ := by simp
  have hin : ∀ t ∈ ts, c ≤ t.1 ∧ t.1 + 2 ^ t.2 ≤ addr := by
    intro t ht
    obtain ⟨h₁, -, h₂⟩ := tiling_mem htl (List.mem_map_of_mem ht)
    exact ⟨h₁, h₂⟩
  have hcpos : c ≠ 0 := fun h0 => h.available.nonnull (h0 ▸ hc)
  have hsort := h.available.sorted
  obtain ⟨hs₁, hs₂, hs₁₂⟩ := List.pairwise_append.1 hsort
  -- the pieces lie between the chunks before and after
  have hbelow : ∀ a ∈ l₁, a < c := fun a ha => hs₁₂ a ha c (by simp)
  have habove : ∀ a ∈ l₂, addr + size ≤ a := by
    intro a ha
    have hlt := (List.pairwise_cons.1 hs₂).1 a ha
    have := h.available.room c hc a (by simp [ha]) hlt
    omega
  have hlogl : ∀ a ∈ l₁ ++ l₂, (s'.mem a).log2size = (y.state.mem a).log2size := by
    intro a ha
    refine hlog a fun hm => ?_
    obtain ⟨t, ht, rfl⟩ := List.mem_map.1 hm
    have hb := hin t ht
    have hpos := Nat.two_pow_pos t.2
    rcases List.mem_append.1 ha with ha | ha
    · have := hbelow _ ha
      omega
    · have := habove _ ha
      omega
  have hmem : ∀ a ∈ l₁ ++ ts.map Prod.fst ++ l₂, a ∈ l₁ ++ l₂ ∨ a ∈ ts.map Prod.fst := by
    intro a ha
    simp only [List.mem_append] at ha ⊢
    tauto
  have hpart : Partition ((l₁ ++ ts.map Prod.fst ++ l₂).map (chunkRange s') ++
      (addr, addr + size) :: y.allocated) y.donated := by
    have hcut : Tiling c (ts.map tileRange ++ [(addr, addr + size)])
        (c + 2 ^ (y.state.mem c).log2size) :=
      tiling_append htl ⟨rfl, by simp only; omega, hend⟩
    have hperm : ((l₁ ++ c :: l₂).map (chunkRange y.state) ++ y.allocated).Perm
        (chunkRange y.state c :: ((l₁ ++ l₂).map (chunkRange y.state) ++ y.allocated)) :=
      (List.perm_middle.map _).append_right _
    have := (h.partition.perm hperm).split hcut
    rw [← map_chunkRange_congr hlogl, ← map_chunkRange fun t ht => (hts t ht).2.2.2] at this
    refine this.perm (List.perm_iff_count.2 fun r => ?_)
    simp only [List.map_append, List.count_append, List.count_cons, List.count_nil]
    omega
  have hall : ∀ a ∈ l₁ ++ ts.map Prod.fst ++ l₂, a ≠ 0 ∧ 12 ≤ (s'.mem a).log2size ∧
      (s'.mem a).log2size ≤ 34 ∧ a % 2 ^ (s'.mem a).log2size = 0 ∧
      a + 2 ^ (s'.mem a).log2size ≤ 2 ^ 36 := by
    intro a ha
    rcases hmem a ha with ha | ha
    · have hl : a ∈ l₁ ++ c :: l₂ := by
        simp only [List.mem_append, List.mem_cons] at ha ⊢
        tauto
      rw [hlogl a ha]
      exact ⟨fun h0 => h.available.nonnull (h0 ▸ hl), (h.available.size a hl).1,
        (h.available.size a hl).2, h.available.aligned a hl, h.available.below a hl⟩
    · obtain ⟨t, ht, rfl⟩ := List.mem_map.1 ha
      obtain ⟨h₁, h₂, h₃, h₄⟩ := hts t ht
      have hb := hin t ht
      have hcb := h.available.below c hc
      rw [h₄]
      exact ⟨by omega, h₁, h₂, h₃, by omega⟩
  refine ⟨l₁ ++ ts.map Prod.fst ++ l₂, ⟨hseg, fun h0 => (hall 0 h0).1 rfl, ?_,
    room_of_apart hpart.apart, fun a ha => ⟨(hall a ha).2.1, (hall a ha).2.2.1⟩,
    fun a ha => (hall a ha).2.2.2.1, fun a ha => (hall a ha).2.2.2.2⟩, hfr.trans h.freed,
    hpart, ?_⟩
  · -- ascending: before, pieces, after
    have hpc : ∀ b ∈ ts.map Prod.fst, c ≤ b ∧ b < addr := by
      intro b hb
      obtain ⟨t, ht, rfl⟩ := List.mem_map.1 hb
      have := hin t ht
      have hpos := Nat.two_pow_pos t.2
      omega
    rw [List.append_assoc]
    refine List.pairwise_append.2 ⟨hs₁, List.pairwise_append.2 ⟨tiles_sorted htl,
      (List.pairwise_cons.1 hs₂).2, fun a ha b hb => ?_⟩, fun a ha b hb => ?_⟩
    · have h₁ := hpc a ha
      have h₂ := habove b hb
      omega
    · rcases List.mem_append.1 hb with hb | hb
      · have h₁ := hpc b hb
        have h₂ := hbelow a ha
        omega
      · exact hs₁₂ a ha b (List.mem_cons_of_mem _ hb)
  · intro r hr
    rcases List.mem_cons.1 hr with rfl | hr
    · simp only
      omega
    · exact h.nonempty r hr

/-- An allocation fails and changes nothing, or takes the top of a chunk. -/
theorem allocate_inv {y : Sys} {l : List ℕ} {size : ℕ} (h : Inv y l)
    (hc : Careful y (.allocate size)) :
    ∃ z l', y.next (.allocate size) = some z ∧ Inv z l' := by
  by_cases hpos : 0 < roundToPage size
  · obtain ⟨s', addr, halloc, ⟨rfl, rfl⟩ | ht⟩ :=
      allocate_spec h.available hpos (roundToPage_aligned size) fun c hfit => (hc c hfit).2
    · exact ⟨y, l, by simp [Sys.next, entry, halloc], h⟩
    · have hne : addr ≠ 0 := by
        obtain ⟨_, _, _, _, -, hne, -⟩ := ht
        exact hne
      obtain ⟨l', hinv⟩ := takes_inv h hpos ht
      exact ⟨_, l', by simp [Sys.next, entry, halloc, hne], hinv⟩
  · -- any chunk would be big enough for nothing
    have hnil : l = [] := by
      by_contra hne
      obtain ⟨c, l, rfl⟩ := List.exists_cons_of_ne_nil hne
      have hfit : FirstFit y.state (roundToPage size) c := by
        refine ⟨[], h.available.seg.1, ?_, List.not_mem_nil, ?_, by omega⟩
        · exact fun h0 => h.available.nonnull (h0 ▸ List.mem_cons_self)
        · exact fun a ha => absurd ha List.not_mem_nil
      exact hpos (hc c hfit).1
    subst hnil
    have hav : y.state.availableChunks = 0 := h.available.seg
    have halloc : allocate y.state (roundToPage size) = some (y.state, 0) := by
      unfold allocate findChunk maxSteps
      simp [hav]
    exact ⟨y, [], by simp [Sys.next, entry, halloc], h⟩

/-- What is stored elsewhere than to the header of an available chunk. -/
theorem Inv.update {y : Sys} {l : List ℕ} {a : ℕ} {v : Chunk} (h : Inv y l) (ha : a ∉ l) :
    Inv { y with state.mem := Function.update y.state.mem a v } l := by
  have hmem : ∀ b ∈ l, Function.update y.state.mem a v b = y.state.mem b := by
    intro b hb
    refine Function.update_of_ne ?_ ..
    rintro rfl
    exact ha hb
  have hav := h.available
  refine ⟨⟨seg_congr (fun b hb => ?_) hav.seg, hav.nonnull, hav.sorted, ?_, ?_, ?_, ?_⟩,
    h.freed, ?_, h.nonempty⟩
  · simp [State.next, hmem b hb]
  · intro b hb
    simp only [hmem b hb]
    exact hav.room b hb
  · intro b hb
    simp only [hmem b hb]
    exact hav.size b hb
  · intro b hb
    simp only [hmem b hb]
    exact hav.aligned b hb
  · intro b hb
    simp only [hmem b hb]
    exact hav.below b hb
  · rw [map_chunkRange_congr (s := y.state) fun b hb => by simp [hmem b hb]]
    exact h.partition

/-- The memory of a client holds no header of an available chunk. -/
theorem use_inv {y : Sys} {l : List ℕ} {a : ℕ} {v : Chunk} (h : Inv y l)
    (ha : a ∈ bytes y.allocated) :
    Inv { y with state.mem := Function.update y.state.mem a v } l := by
  rcases ha with ⟨r, hr, h₁, h₂⟩
  refine h.update fun hal => ?_
  have hpos := Nat.two_pow_pos (y.state.mem a).log2size
  rcases (List.pairwise_append.1 h.partition.apart).2.2 _ (List.mem_map_of_mem hal) r hr with
    hap | hap
  · simp only [chunkRange] at hap
    omega
  · simp only [chunkRange] at hap
    omega

/-! ## Runs -/

/-- Every step of this kind returns, and keeps the inductive invariant. -/
theorem careful_inv {y : Sys} {l : List ℕ} (h : Inv y l) (op : Op) (hc : Careful y op) :
    ∃ z l', y.next op = some z ∧ Inv z l' := by
  cases op with
  | donate p end' => exact donate_inv h hc
  | allocate size => exact allocate_inv h hc
  | use a v => exact ⟨_, l, rfl, use_inv h hc⟩

theorem careful_of_allowed {y : Sys} {op : Op} (ha : Allowed y op) (hk : KeepsRep y op) :
    Careful y op := by
  cases op with
  | donate p end' =>
    obtain ⟨hpe, he, hpa, hea, hdis⟩ := ha
    exact ⟨hpe, by omega, hpa, hea, hdis, hk⟩
  | allocate size => exact fun c hfit => ⟨roundToPage_pos ha.1 ha.2, hk c hfit⟩
  | use a v => exact ha

theorem next_inv {y : Sys} {l : List ℕ} (h : Inv y l) (op : Op) (ha : Allowed y op)
    (hk : KeepsRep y op) : ∃ z l', y.next op = some z ∧ Inv z l' :=
  careful_inv h op (careful_of_allowed ha hk)

theorem init_inv {y : Sys} (h : system.init y) : Inv y [] := by
  obtain ⟨hf, hav, hd, hal⟩ := h
  refine ⟨⟨hav, by simp, List.Pairwise.nil, by simp, by simp, by simp, by simp⟩, hf, ?_, ?_⟩
  · rw [hd, hal]
    exact ⟨List.Pairwise.nil, rfl⟩
  · simp [hal]

/-- In every run whose steps keep the representation, the invariant holds in
every state reached, and the next such step returns. -/
theorem run_repInv {y : Sys} (h : (system.restrict KeepsRep).Reachable y) :
    RepInv y ∧ ∀ op, Allowed y op → KeepsRep y op → ∃ z, y.next op = some z := by
  have hinv : ∃ l, Inv y l := by
    refine h.invariant (P := fun y => ∃ l, Inv y l) (fun z hz => ⟨[], init_inv hz⟩) ?_
    rintro z op z' ⟨l, hl⟩ ⟨hk, ha, hnext⟩
    obtain ⟨w, l', hw, hl'⟩ := next_inv hl op ha hk
    obtain rfl : w = z' := Option.some.inj (hw.symm.trans hnext)
    exact ⟨l', hl'⟩
  obtain ⟨l, hl⟩ := hinv
  refine ⟨hl.repInv, fun op ha hk => ?_⟩
  obtain ⟨z, -, hz, -⟩ := next_inv hl op ha hk
  exact ⟨z, hz⟩

/-! ### A run with two pieces, and one with three -/

def start : Sys := ⟨⟨fun _ => ⟨0, 0⟩, 0, 0⟩, [], []⟩

/-- The driver that was given the 32KB at 0x8000, one chunk. -/
def given32K : Sys := (start.next (.donate 0x8000 0x10000)).getD start

theorem given32K_reachable : (system.restrict KeepsRep).Reachable given32K := by
  have h0 : (system.restrict KeepsRep).Reachable start := .init ⟨rfl, rfl, rfl, rfl⟩
  refine .step (i := .donate 0x8000 0x10000) h0 ⟨by simp [KeepsRep], ?_, rfl⟩
  refine ⟨by decide, by decide, by decide, by decide, ?_⟩
  simp [start]

theorem given32K_firstFit {size c : ℕ} (hsz : size ≤ 0x8000)
    (h : FirstFit given32K.state size c) : c = 0x8000 := by
  obtain ⟨l, hs, -, -, hsmall, -⟩ := h
  have hav : given32K.state.availableChunks = 0x8000 := by decide +kernel
  have hlog : shl32 (given32K.state.mem 0x8000).log2size = 0x8000 := by decide +kernel
  rw [hav] at hs
  cases l with
  | nil => exact hs.symm
  | cons a l =>
    have := hsmall a (by simp)
    rw [← hs.1, hlog] at this
    omega

/-- The remainder of 24KB is two pieces. -/
theorem run_repInv_two_pieces : ∃ z, given32K.next (.allocate 0x2000) = some z ∧
    z.allocated = [(0xe000, 0x10000)] ∧ RepInv z := by
  have hk : KeepsRep given32K (.allocate 0x2000) := by
    intro c hc
    have hr : roundToPage 0x2000 = 0x2000 := by decide
    rw [hr] at hc ⊢
    rw [given32K_firstFit (by decide) hc]
    decide +kernel
  have ha : Allowed given32K (.allocate 0x2000) := ⟨by decide, by decide⟩
  refine ⟨_, rfl, by decide +kernel, ?_⟩
  exact (run_repInv (.step (i := .allocate 0x2000) given32K_reachable ⟨hk, ha, rfl⟩)).1

/-- The remainder of 28KB is three pieces, and the third is put into the first. -/
theorem repInv_three_pieces : ∃ z, system.Reachable z ∧
    given32K.next (.allocate 0x1000) = some z ∧ ¬ RepInv z := by
  have ha : Allowed given32K (.allocate 0x1000) := ⟨by decide, by decide⟩
  refine ⟨_, .step (i := .allocate 0x1000) given32K_reachable.of_restrict ⟨ha, rfl⟩, rfl, ?_⟩
  rintro ⟨l, hs, h0, hsort, -⟩
  have hl : l = [0x8000, 0xc000, 0xa000] :=
    seg_unique hs (by decide +kernel) h0 (by decide)
  rw [hl] at hsort
  exact absurd hsort (by decide)

end Isambard.Allocator
