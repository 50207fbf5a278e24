import Isambard.Driver.Tables
import Isambard.El1.Requests

/-!
# Driver.ReadOnly — blocks that may only be read

`read_only_copy` gives out a block with its `read_only` bit set, and what is
derived from it has the bit too. The bit of a virtual memory block is to be
"combined with physical permissions" (`include/system_services.h`), but no code
does so: `map_at` stores 0, and the kernel looks at the virtual bit only.

* `blockSystem`: calls of the driver, operations on blocks, and faults;
* `Marked`: a virtual block that is read-only is one of the boot code's, for a
  block of memory that is not;
* `run_read_only`: what a fault in a read-only block installs.
-/

namespace Isambard.Driver

open Isambard.Lib Isambard.El1

/-! ## Entries -/

/-- EL0 cannot store through the leaf `e`. -/
def DeniesWrites (e : ℕ) : Prop := Entry.el0Accessible e = 0 ∨ Entry.readOnly e = 1

instance (e : ℕ) : Decidable (DeniesWrites e) := inferInstanceAs (Decidable (_ ∨ _))

/-- The logarithm of the size that `find_and_map_memory` maps at once. -/
def leafSize (cmb vmb : ℕ) : ℕ :=
  if isL1Aligned (Vmb.startPage vmb) (Vmb.pageCount vmb) ∧
      isL1Aligned (Cmb.startPage cmb) (Cmb.pageCount cmb) then 30
  else if isL2Aligned (Vmb.startPage vmb) (Vmb.pageCount vmb) ∧
      isL2Aligned (Cmb.startPage cmb) (Cmb.pageCount cmb) then 21
  else 12

/-- The entry for `fa` in the table of the leaves of that size. -/
def tableEntry (k : Kernel) (fa n : ℕ) : ℕ :=
  if n = 30 then k.l1 (fa / 2 ^ 30 % 512)
  else if n = 21 then k.l2 (fa / 2 ^ 21 % 512)
  else k.l3 (fa / 2 ^ 12 % 512)

theorem el0_readOnly (x r e : ℕ) : Entry.readOnly (Entry.el0 x r e) = r % 2 := by
  unfold Entry.readOnly Entry.el0 Entry.setEl0Accessible Entry.setReadOnly
  rw [field_setField_above (by decide), field_setField]
  rfl

theorem el0_accessible (x r e : ℕ) : Entry.el0Accessible (Entry.el0 x r e) = 1 :=
  field_setField 6 1 1 _

/-- The virtual block's own bit decides. -/
theorem deniesWrites_attrs (e vmb : ℕ) :
    DeniesWrites (withVirtualMemoryAttrs e vmb) ↔ Vmb.readOnly vmb = 1 := by
  unfold DeniesWrites withVirtualMemoryAttrs
  simp only
  by_cases hr : Vmb.readOnly vmb = 1
  · rw [if_pos hr]
    refine ⟨fun _ => hr, fun _ => .inr ?_⟩
    split
    · exact el0_readOnly 0 1 _
    · exact el0_readOnly 1 1 _
  · rw [if_neg hr]
    refine ⟨fun h => ?_, fun h => absurd h hr⟩
    have hw : ∀ x, Entry.el0Accessible (Entry.el0 x 0 (Entry.shared 3 e)) = 0 ∨
        Entry.readOnly (Entry.el0 x 0 (Entry.shared 3 e)) = 1 → False := by
      rintro x (h | h)
      · rw [el0_accessible] at h
        omega
      · rw [el0_readOnly] at h
        omega
    split at h
    · exact (hw 0 h).elim
    · exact (hw 1 h).elim

/-- The leaf that a fault installs. -/
theorem mapBlock_tableEntry (k : Kernel) (cmb vmb : ℕ) {fa : ℕ} (hfa : fa < 2 ^ 34) :
    ∃ e, tableEntry (mapBlock k cmb vmb fa) fa (leafSize cmb vmb) =
      withVirtualMemoryAttrs e vmb := by
  have hi : fa / 2 ^ 30 % 512 < 16 := by omega
  unfold mapBlock leafSize
  simp only
  by_cases h1 : isL1Aligned (Vmb.startPage vmb) (Vmb.pageCount vmb) ∧
      isL1Aligned (Cmb.startPage cmb) (Cmb.pageCount cmb)
  · rw [if_pos h1, if_pos h1]
    refine ⟨withPhysicalMemoryAttrs (Entry.blockAt (blockAddress cmb vmb fa 30)) cmb, ?_⟩
    unfold tableEntry setL1
    rw [if_pos rfl, if_pos hi]
    exact Function.update_self ..
  · rw [if_neg h1, if_neg h1]
    by_cases h2 : isL2Aligned (Vmb.startPage vmb) (Vmb.pageCount vmb) ∧
        isL2Aligned (Cmb.startPage cmb) (Cmb.pageCount cmb)
    · rw [if_pos h2, if_pos h2]
      refine ⟨withPhysicalMemoryAttrs (Entry.blockAt (blockAddress cmb vmb fa 21)) cmb, ?_⟩
      unfold tableEntry
      rw [if_neg (by decide), if_pos rfl]
      exact Function.update_self ..
    · rw [if_neg h2, if_neg h2]
      refine ⟨withPhysicalMemoryAttrs (Entry.pageAt (blockAddress cmb vmb fa 12)) cmb, ?_⟩
      unfold tableEntry
      rw [if_neg (by decide), if_neg (by decide)]
      exact Function.update_self ..

/-! ## Faults leave the maps alone -/

/-- A store into the core's own pages. -/
theorem setWord_core_quiet {k : Kernel} (h : Placed k) {a : ℕ} (ha : a % 8 = 0)
    (hlo : k.layout.core ≤ a) (hhi : a < k.layout.core + 16384) (v : ℕ) :
    Quiet k (k.setWord a v) := by
  have hl := layout_heapStart k
  have haddr := (place_spec h.aligned8 ha).1
  have hquiet : ∀ {k' : Kernel}, k'.layout = k.layout → k'.interfaces = k.interfaces →
      k'.freeInterface = k.freeInterface → k'.lastInterface = k.lastInterface →
      k'.heapBottom = k.heapBottom → k'.contexts = k.contexts →
      (∀ b, startAddress + k.heapBottom ≤ b → k'.mem b = k.mem b) → Quiet k k' := by
    intro k' h₁ h₂ h₃ h₄ h₅ h₆ h₇
    exact ⟨h.congr h₆ h₅, h₁, h₂, h₃, h₄, h₅.le, ⟨[], h₆, fun p hp => by cases hp⟩, h₇⟩
  unfold Kernel.setWord
  cases hp : k.place a with
  | interface i w =>
    -- the interfaces are behind the core
    rw [hp] at haddr
    change k.layout.interfaces + 24 * i + 8 * w = a at haddr
    have := k.layout.core_le
    omega
  | mem b =>
    rw [hp] at haddr
    change b = a at haddr
    refine hquiet rfl rfl rfl rfl rfl rfl fun c hc => Function.update_of_ne ?_ ..
    have := h.mapped
    unfold heapStart at hl
    omega
  | context p w => exact hquiet rfl rfl rfl rfl rfl rfl fun _ _ => rfl
  | user b => exact hquiet rfl rfl rfl rfl rfl rfl fun _ _ => rfl
  | runnable => exact hquiet rfl rfl rfl rfl rfl rfl fun _ _ => rfl
  | interruptThread => exact hquiet rfl rfl rfl rfl rfl rfl fun _ _ => rfl
  | blockedWithTimeout => exact hquiet rfl rfl rfl rfl rfl rfl fun _ _ => rfl
  | blocked => exact hquiet rfl rfl rfl rfl rfl rfl fun _ _ => rfl
  | coreNumber => exact hquiet rfl rfl rfl rfl rfl rfl fun _ _ => rfl
  | physicalAddress => exact hquiet rfl rfl rfl rfl rfl rfl fun _ _ => rfl
  | l1 i => exact hquiet rfl rfl rfl rfl rfl rfl fun _ _ => rfl
  | l2 i => exact hquiet rfl rfl rfl rfl rfl rfl fun _ _ => rfl
  | l3 i => exact hquiet rfl rfl rfl rfl rfl rfl fun _ _ => rfl

/-- Other entries of the second and third table. -/
theorem Quiet.tables {k k' : Kernel} (h : Quiet k k') (l2 l3 : ℕ → ℕ) :
    Quiet k { k' with l2 := l2, l3 := l3 } :=
  ⟨h.placed.congr rfl rfl, h.layout, h.interfaces, h.freeInterface, h.lastInterface, h.heapBottom,
    h.contexts, h.mem⟩

theorem setL1_quiet {k : Kernel} (h : Placed k) {i : ℕ} (hi : i < 512) (e : ℕ) :
    Quiet k (setL1 k i e) := by
  unfold setL1
  split
  · exact ⟨h.congr rfl rfl, rfl, rfl, rfl, rfl, le_rfl, ⟨[], rfl, fun p hp => by cases hp⟩,
      fun _ _ => rfl⟩
  · have hal := k.layout.core_aligned
    exact setWord_core_quiet h (by omega) (by omega) (by omega) e

theorem mapBlock_quiet {k : Kernel} (h : Placed k) (cmb vmb fa : ℕ) :
    Quiet k (mapBlock k cmb vmb fa) := by
  have hi : fa / 2 ^ 30 % 512 < 512 := Nat.mod_lt _ (by decide)
  unfold mapBlock
  simp only
  split
  · exact setL1_quiet h hi _
  · split
    · exact (setL1_quiet h hi _).tables _ _
    · exact (setL1_quiet h hi _).tables _ _

/-! ## Runs -/

/-- A call of the driver, an operation on the block of an interface, or a
fault. -/
inductive BlockEvent where
  | driver (s : Step)
  | block (thread i : ℕ) (op : BlockOp)
  | fault (thread fa : ℕ)
deriving Repr, DecidableEq

def blockStep (k : Kernel) : BlockEvent → Kernel → Prop
  | .driver s, k' => driverStep k s k'
  | .block thread i op, k' => thread ∈ k.contexts ∧ Allocated k i ∧
      (k.interfaces i).provider = systemMapIndex ∧
      (k.interfaces i).handler = systemServicePhysicalMemoryBlock ∧
      ∃ cmb, derive (k.interfaces i).object op = some cmb ∧
        returnBlock k thread (k.interfaces i).user cmb = .ok k' thread
  | .fault thread fa, k' => findAndMapMemory k thread fa = .ok k' ()

/-- The boot code sets the bit of no block of memory. -/
structure BootedBlocks (k : Kernel) : Prop extends Booted k where
  writable : ∀ m, 2 < m → m < k.freeInterface → m % 3 = 0 → ∀ b, b = m + 1 ∨ b = m + 2 →
    Cmb.readOnly (k.interfaces b).object = 0

def blockSystem : System Kernel BlockEvent := ⟨BootedBlocks, blockStep⟩

/-- A virtual block without the bit, or for a block of memory in use without
it. -/
def Marked (k : Kernel) (vmb : ℕ) : Prop :=
  Vmb.readOnly vmb = 0 ∨ (Allocated k (Vmb.memoryBlock vmb) ∧
    Cmb.readOnly (k.interfaces (Vmb.memoryBlock vmb)).object = 0)

/-- What is true of the tables in every run. -/
structure BlocksInv (k : Kernel) : Prop where
  maps : Maps k
  marked : ∀ m, IsMap k m → ∀ j, Reached k (k.interfaces m).object j →
    Marked k (k.mem (entryAddress (k.interfaces m).object j))

theorem booted_blocksInv {k : Kernel} (h : BootedBlocks k) : BlocksInv k := by
  refine ⟨booted_maps h.toBooted, ?_⟩
  intro m hm j hj
  obtain ⟨h2, hmod⟩ := h.driver_map hm
  have hb := h.table m hm j hj
  have hlt := hm.allocated.2
  have hdr := h.drivers
  exact .inr ⟨⟨by omega, by omega⟩, h.writable m h2 hlt hmod _ hb⟩

theorem Marked.mono {k k' : Kernel} {v : ℕ} (h : Marked k v) (hk : Keeps k k') : Marked k' v := by
  rcases h with hv | ⟨ha, hc⟩
  · exact .inl hv
  · have := hk.free
    refine .inr ⟨⟨ha.1, by have := ha.2; omega⟩, ?_⟩
    rw [hk.same _ ha, hc]

/-- A step that edits no table. -/
theorem Keeps.blocksInv {k k' : Kernel} (h : BlocksInv k) (hk : Keeps k k')
    (hsame : TablesSame k k') : BlocksInv k' := by
  refine ⟨hk.maps, ?_⟩
  intro m hm' j hj
  have hm := (hk.isMap m).1 hm'
  rw [hk.object hm] at hj ⊢
  rw [hsame m hm j hj.1]
  exact (h.marked m hm j (hj.congr (hsame m hm))).mono hk

/-- Entry `j` of the new entries comes before their end. -/
def Before (vmbs : ℕ → ℕ) (j : ℕ) : Prop := ∀ i ≤ j, 0 < Vmb.pageCount (vmbs i)

/-- After `map_at`, an entry is an old one or the new one. -/
theorem fillFirstFree_before {n entry j : ℕ} {vmbs : ℕ → ℕ}
    (h : Before (fillFirstFree n vmbs entry) j) :
    fillFirstFree n vmbs entry j = entry ∨
      (Before vmbs j ∧ fillFirstFree n vmbs entry j = vmbs j) := by
  unfold fillFirstFree at h ⊢
  cases hf : (List.range n).find? fun i => decide (Vmb.pageCount (vmbs i) = 0) with
  | none =>
    rw [hf] at h
    exact .inr ⟨h, rfl⟩
  | some f =>
    rw [hf] at h
    simp only at h ⊢
    rcases Nat.lt_trichotomy j f with hlt | rfl | hgt
    · have hold : ∀ i ≤ j, Function.update (Function.update vmbs f entry) (f + 1) 0 i = vmbs i := by
        intro i hi
        rw [Function.update_of_ne (by omega), Function.update_of_ne (by omega)]
      refine .inr ⟨?_, hold j le_rfl⟩
      intro i hi
      rw [← hold i hi]
      exact h i hi
    · left
      rw [Function.update_of_ne (by omega), Function.update_self]
    · -- behind the end
      have hend := h (f + 1) hgt
      rw [Function.update_self] at hend
      exact absurd hend (by decide)

/-- After `unmap`, an entry is an old one. -/
theorem removeEntry_before {n startPage j : ℕ} {vmbs : ℕ → ℕ} (hj : j < n)
    (h : Before (removeEntry n vmbs startPage) j) :
    ∃ i < n, Before vmbs i ∧ removeEntry n vmbs startPage j = vmbs i := by
  unfold removeEntry at h ⊢
  cases hf : (List.range n).find? fun i =>
      decide (Vmb.pageCount (vmbs i) ≠ 0 ∧ Vmb.startPage (vmbs i) = startPage) with
  | none =>
    rw [hf] at h
    exact ⟨j, hj, h, rfl⟩
  | some f =>
    rw [hf] at h
    simp only at h ⊢
    obtain ⟨hpred, hmem, -⟩ := List.find?_range_eq_some.1 hf
    have hfn : f < n := List.mem_range.1 hmem
    simp only [decide_eq_true_eq] at hpred
    have hnz : vmbs f ≠ 0 := by
      intro hz
      rw [hz] at hpred
      exact hpred.1 rfl
    have hbelow : ∀ i < f, Function.update (shiftDown n n f vmbs) (f + 1) 0 i = vmbs i := by
      intro i hi
      rw [Function.update_of_ne (by omega), shiftDown_below hi]
    have hbefore : ∀ i < f, i ≤ j → 0 < Vmb.pageCount (vmbs i) := by
      intro i hi hij
      rw [← hbelow i hi]
      exact h i hij
    -- the table ends behind the entry that is removed
    have hjf : j ≤ f := by
      by_contra hgt
      have hend := h (f + 1) (by omega)
      rw [Function.update_self] at hend
      exact absurd hend (by decide)
    rcases Nat.lt_or_eq_of_le hjf with hlt | rfl
    · exact ⟨j, hj, fun i hi => hbefore i (by omega) hi, hbelow j hlt⟩
    · rw [Function.update_of_ne (by omega)]
      have hhere := h j le_rfl
      rw [Function.update_of_ne (by omega)] at hhere
      rcases Nat.lt_or_ge (j + 1) n with hlt | hge
      · -- the entry behind the removed one takes its place
        obtain ⟨n, rfl⟩ := Nat.exists_eq_succ_of_ne_zero (by omega : n ≠ 0)
        rw [shiftDown_at hlt hnz] at hhere ⊢
        refine ⟨j + 1, hlt, ?_, rfl⟩
        intro i hi
        rcases Nat.lt_trichotomy i j with hij | rfl | hij
        · exact hbefore i hij (by omega)
        · exact Nat.pos_of_ne_zero hpred.1
        · obtain rfl : i = j + 1 := by omega
          exact hhere
      · rw [shiftDown_last hge]
        refine ⟨j, hj, ?_, rfl⟩
        intro i hi
        rcases Nat.lt_or_eq_of_le hi with hij | rfl
        · exact hbefore i hij hi
        · exact Nat.pos_of_ne_zero hpred.1

/-- The entry that `map_at` makes has no bit set. -/
theorem newVmb_readOnly (s p b : ℕ) : Vmb.readOnly (newVmb s p b) = 0 := by
  unfold Vmb.readOnly newVmb
  rw [field_setField_below (by decide), field_setField_above (by decide),
    field_setField_above (by decide)]
  rfl

theorem call_blocksInv {k k' : Kernel} {thread i : ℕ} {c : Call} (h : BlocksInv k)
    (hstep : driverStep k (.call thread i c) k') : BlocksInv k' := by
  rcases call_cases h.maps hstep with ⟨hk, hsame⟩ | ⟨m, vmbs, hm, heq, hedit, rfl⟩
  · exact hk.blocksInv h hsame
  have hk := writeTable_keeps vmbs h.maps hm
  have hroom := h.maps.room m hm
  -- the entries the table had
  have hold : ∀ i < MapValue.numberOfVmbs (k.interfaces m).object,
      Before (fun j => k.load64 (entryAddress (k.interfaces m).object j)) i →
      Marked k (k.load64 (entryAddress (k.interfaces m).object i)) := by
    intro i hi hb
    rw [hroom.load64 hi]
    refine h.marked m hm i ⟨hi, ?_⟩
    intro l hl
    have hpos := hb l hl
    simp only at hpos
    rwa [hroom.load64 (by omega)] at hpos
  have hnew : ∀ j < MapValue.numberOfVmbs (k.interfaces m).object, Before vmbs j →
      Marked k (vmbs j) := by
    intro j hj hb
    cases c with
    | mapAt block start =>
      simp only [Edits, ← heq] at hedit
      subst hedit
      rcases fillFirstFree_before hb with he | ⟨hb', he⟩
      · rw [he]
        exact .inl (newVmb_readOnly _ _ _)
      · rw [he]
        exact hold j hj hb'
    | unmap start =>
      simp only [Edits, ← heq] at hedit
      subst hedit
      obtain ⟨i, hi, hb', he⟩ := removeEntry_before hj hb
      rw [he]
      exact hold i hi hb'
    | getDevicePage pa => exact hedit.elim
    | getPhysicalMemoryBlock start size => exact hedit.elim
    | allocateMemory size r => exact hedit.elim
    | getService service => exact hedit.elim
  refine ⟨hk.maps, ?_⟩
  intro m' hm' j hj
  replace hm' := (hk.isMap m').1 hm'
  rw [hk.object hm'] at hj ⊢
  have hentry := fun {i} hi => writeTable_entry vmbs h.maps hm hm' (i := i) hi
  rw [hentry hj.1]
  by_cases hne : m' = m
  · subst hne
    rw [if_pos rfl]
    refine (hnew j hj.1 ?_).mono hk
    intro i hi
    have hpos := hj.2 i hi
    rwa [hentry (by have := hj.1; omega), if_pos rfl] at hpos
  · rw [if_neg hne]
    refine (h.marked m' hm' j ⟨hj.1, ?_⟩).mono hk
    intro i hi
    have hpos := hj.2 i hi
    rwa [hentry (by have := hj.1; omega), if_neg hne] at hpos

/-- A fault is handled with the block that `find_vmb` finds. -/
theorem findAndMapMemory_ok {k k' : Kernel} {thread fa : ℕ}
    (h : findAndMapMemory k thread fa = .ok k' ()) :
    ∃ vmb, findVmb k (k.currentMap thread) fa = some (some vmb) ∧
      k' = mapBlock k (k.interfaces (Vmb.memoryBlock vmb)).object vmb fa := by
  simp only [findAndMapMemory] at h
  split at h
  · cases h
  split at h
  · cases h
  split at h
  · cases h
  · cases h
  rename_i vmb hv
  split at h
  · cases h
  rename_i provider hp
  split at h
  · cases h
    obtain ⟨-, rfl⟩ := interfaceFromIndex_some hp
    have hlt : Vmb.memoryBlock vmb < 2 ^ 18 := field_lt 46 18 vmb
    rw [Nat.mod_eq_of_lt (by omega)]
    exact ⟨vmb, hv, rfl⟩
  · cases h

theorem blockStep_inv {k k' : Kernel} {e : BlockEvent} (h : BlocksInv k)
    (hstep : blockStep k e k') : BlocksInv k' := by
  cases e with
  | driver s =>
    by_cases hs : ∃ thread i c, s = .call thread i c
    · obtain ⟨thread, i, c, rfl⟩ := hs
      exact call_blocksInv h hstep
    · push Not at hs
      obtain ⟨hk, hsame⟩ := step_keeps h.maps hs hstep
      exact hk.blocksInv h hsame
  | block thread i op =>
    obtain ⟨ht, -, -, -, cmb, -, hret⟩ := hstep
    obtain ⟨hk, hsame⟩ := create_keeps h.maps ht (.inr (.inl rfl)) hret
    exact hk.blocksInv h hsame
  | fault thread fa =>
    obtain ⟨vmb, -, rfl⟩ := findAndMapMemory_ok hstep
    obtain ⟨hk, hsame⟩ := quiet_keeps h.maps (mapBlock_quiet h.maps.placed _ vmb fa)
    exact hk.blocksInv h hsame

/-- In every run, what a fault installs for an entry of the map's table that
names a read-only block lets EL0 write to the block. -/
theorem run_read_only {k k' : Kernel} {thread fa j : ℕ} (h : blockSystem.Reachable k)
    (hm : IsMap k (k.currentMap thread))
    (hj : Reached k (k.interfaces (k.currentMap thread)).object j)
    (hv : findVmb k (k.currentMap thread) fa =
      some (some (k.mem (entryAddress (k.interfaces (k.currentMap thread)).object j))))
    (hro : Cmb.readOnly (k.interfaces (Vmb.memoryBlock
      (k.mem (entryAddress (k.interfaces (k.currentMap thread)).object j)))).object = 1)
    (hfa : fa < 2 ^ 34) (hmap : findAndMapMemory k thread fa = .ok k' ()) :
    ¬ DeniesWrites (tableEntry k' fa (leafSize
      (k.interfaces (Vmb.memoryBlock
        (k.mem (entryAddress (k.interfaces (k.currentMap thread)).object j)))).object
      (k.mem (entryAddress (k.interfaces (k.currentMap thread)).object j)))) := by
  have hinv : BlocksInv k := h.invariant (fun s hs => booted_blocksInv hs)
    fun s e s' hs hstep => blockStep_inv hs hstep
  have hmark := hinv.marked _ hm j hj
  generalize hvmb : k.mem (entryAddress (k.interfaces (k.currentMap thread)).object j) = vmb at *
  obtain ⟨vmb', hv', rfl⟩ := findAndMapMemory_ok hmap
  obtain rfl : vmb = vmb' := Option.some.inj (Option.some.inj (hv.symm.trans hv'))
  obtain ⟨e, he⟩ := mapBlock_tableEntry k (k.interfaces (Vmb.memoryBlock vmb)).object vmb hfa
  rw [he, deniesWrites_attrs]
  intro hbit
  rcases hmark with hv₀ | ⟨-, hc⟩
  · omega
  · omega

/-! ## A read-only copy, mapped -/

/-- The two drivers, with both threads of the first one's map. -/
def bothInMap3 : Kernel := { twoDrivers with ctx := fun _ w => if w = 39 then 3 * 2 ^ 32 else 0 }

/-- A read-only copy of the data block of map 3. -/
def copied : Outcome ℕ :=
  returnBlock bothInMap3 (startAddress + 0x1ffba0) 3 (readOnlyCopy (cmbOf 0x102 1 fullyCacheable))

/-- The copy, the interface 9, is mapped at 64KB. -/
def copyMapped : Outcome ℕ :=
  mapAt copied.kernel (startAddress + 0x1ffba0) (copied.kernel.interfaces 3).object 9 0x10000

theorem twoDrivers_bootedBlocks : BootedBlocks twoDrivers where
  toBooted := twoDrivers_booted
  writable := by
    intro m h2 hlt hmod b hb
    change m < 9 at hlt
    obtain rfl | rfl : m = 3 ∨ m = 6 := by omega
    · rcases hb with rfl | rfl <;> decide +kernel
    · rcases hb with rfl | rfl <;> decide +kernel

theorem copyMapped_reachable : blockSystem.Reachable copyMapped.kernel := by
  have hquiet : Quiet twoDrivers bothInMap3 :=
    ⟨twoDrivers_booted.placed.congr rfl rfl, rfl, rfl, rfl, rfl, le_rfl,
      ⟨[], rfl, fun p hp => by cases hp⟩, fun _ _ => rfl⟩
  have h₁ : blockSystem.Reachable bothInMap3 :=
    .step (i := .driver .other) (.init twoDrivers_bootedBlocks) hquiet
  have hcopy : copied = .ok copied.kernel (startAddress + 0x1ffba0) := by
    have heq := Outcome.eq_ok_now (o := copied) (by decide +kernel)
    have hnow : copied.now = startAddress + 0x1ffba0 := by decide +kernel
    rwa [hnow] at heq
  have h₂ : blockSystem.Reachable copied.kernel :=
    .step (i := .block (startAddress + 0x1ffba0) 5 .readOnlyCopy) h₁
      ⟨by decide +kernel, ⟨by decide, by decide⟩, rfl, rfl, _, rfl, hcopy⟩
  have hmapped : copyMapped = .ok copyMapped.kernel (startAddress + 0x1ffba0) := by
    have heq := Outcome.eq_ok_now (o := copyMapped) (by decide +kernel)
    have hnow : copyMapped.now = startAddress + 0x1ffba0 := by decide +kernel
    rwa [hnow] at heq
  exact .step (i := .driver (.call (startAddress + 0x1ffba0) 3 (.mapAt 9 0x10000))) h₂
    ⟨by decide +kernel, ⟨by decide, by decide +kernel⟩, by decide +kernel, by decide +kernel,
      hmapped⟩

/-- A thread of map 3 touches the copy. -/
def copyTouched : Outcome Unit :=
  findAndMapMemory copyMapped.kernel (startAddress + 0x1ffba0) 0x10000

theorem copyTouched_eq : copyTouched = .ok copyTouched.kernel () :=
  Outcome.eq_ok (by decide +kernel)

theorem copyMapped_isMap :
    IsMap copyMapped.kernel (copyMapped.kernel.currentMap (startAddress + 0x1ffba0)) :=
  ⟨⟨by decide +kernel, by decide +kernel⟩, by decide +kernel, by decide +kernel, by decide +kernel⟩

theorem run_read_only_copy : ¬ DeniesWrites (tableEntry copyTouched.kernel 0x10000 12) :=
  run_read_only (j := 2) copyMapped_reachable copyMapped_isMap
    ⟨by decide +kernel, by decide +kernel⟩
    (by decide +kernel) (by decide +kernel) (by decide) copyTouched_eq

/-- EL0 can write to the copy. -/
theorem read_only_copy_written :
    ¬ ∀ (k k' : Kernel) (thread fa j : ℕ), blockSystem.Reachable k →
      IsMap k (k.currentMap thread) →
      Reached k (k.interfaces (k.currentMap thread)).object j →
      findVmb k (k.currentMap thread) fa =
        some (some (k.mem (entryAddress (k.interfaces (k.currentMap thread)).object j))) →
      Cmb.readOnly (k.interfaces (Vmb.memoryBlock
        (k.mem (entryAddress (k.interfaces (k.currentMap thread)).object j)))).object = 1 →
      fa < 2 ^ 34 → findAndMapMemory k thread fa = .ok k' () →
      DeniesWrites (tableEntry k' fa (leafSize
        (k.interfaces (Vmb.memoryBlock
          (k.mem (entryAddress (k.interfaces (k.currentMap thread)).object j)))).object
        (k.mem (entryAddress (k.interfaces (k.currentMap thread)).object j)))) := by
  intro h
  have hdeny := h copyMapped.kernel copyTouched.kernel (startAddress + 0x1ffba0) 0x10000 2
    copyMapped_reachable copyMapped_isMap ⟨by decide +kernel, by decide +kernel⟩
    (by decide +kernel) (by decide +kernel) (by decide) copyTouched_eq
  revert hdeny
  decide +kernel

end Isambard.Driver
