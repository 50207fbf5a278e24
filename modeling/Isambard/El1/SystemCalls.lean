import Isambard.El1.MapCalls
import Isambard.El1.SystemMap

/-!
# El1.SystemCalls — the registers of a partner, and the system driver's requests

The calls that leave the lists of the threads alone, and the maps that they are in. They set
registers, copy words to and from the heap, or take a block of it.

* `Quiet`: what such a call does;
* `handleSetPartnerReg_quiet`, `handleChangeVmSystemRegister_quiet`: virtual machines;
* `readHeap_quiet`, `writeHeap_quiet`, `allocateHeap_served`: the heap;
* `RequestOk`, `systemDriverRequest_served`: the requests.
-/

namespace Isambard.El1

open Isambard.Lib

/-- The lists are left alone, and the maps. -/
structure Quiet (k k' : Kernel) : Prop where
  lists : KeepsLists k k'
  domains : SameDomains k k'

section Quiet

variable {k k' : Kernel} {p w v now : ℕ} {O : ℕ → Prop}

theorem Quiet.refl (k : Kernel) : Quiet k k := ⟨.refl k, .refl k⟩

theorem Quiet.trans {k'' : Kernel} (h : Quiet k k') (h' : Quiet k' k'') : Quiet k k'' :=
  ⟨h.lists.trans h'.lists, h.domains.trans h'.domains⟩

/-- The kernel's memory that no invariant speaks of. -/
theorem Quiet.memory (k : Kernel) (l1 l2 l3 : ℕ → ℕ) (u : ℕ → ℕ → ℕ) (m s : ℕ → ℕ) (n sp : ℕ) :
    Quiet k { k with
      l1 := l1, l2 := l2, l3 := l3, user := u, mem := m, sharedSystemMap := s
      sharedSystemMapMappedPages := n, spEl0 := sp } :=
  ⟨.of_ctx rfl rfl rfl rfl rfl rfl rfl, rfl, fun _ _ _ => rfl, rfl, rfl, rfl⟩

/-- A register of a thread that does not wait. -/
theorem Quiet.row (hw : 4 ≤ w ∧ w ≤ 37) (hne : k.ctx p 38 ≠ threadWaiting ∧ ¬ OnLock k p) :
    Quiet k (k.withCtx (setCtx k.ctx p w v)) := by
  refine ⟨.row (by omega) (.inr hne), rfl, ?_, rfl, rfl, rfl⟩
  intro q u hu
  rw [withCtx_ctx, setCtx_apply, if_neg (by omega)]

theorem KernelInv.setReg (h : KernelInv O k) {i : ℕ} (hi : i ≤ 18) (v : ℕ) :
    Quiet k (k.setReg k.runnable i v) := by
  obtain ⟨_, _, _, hs⟩ := h.sched
  exact ⟨(hs.setReg hi v).1, (hs.setReg hi v).2⟩

theorem Quiet.inv (h : Quiet k k') (hinv : KernelInv O k)
    (hl : k'.lastInterface = k.lastInterface) : KernelInv O k' := by
  obtain ⟨rs, qs, rem, hs⟩ := hinv.sched
  have hworld := h.domains.world
  have hmem : k.runnable ∈ k'.contexts := by
    rw [h.lists.contexts]
    exact hinv.mem
  refine ⟨⟨rs, qs, rem, hs.congr h.lists⟩,
    hinv.table.congr h.domains.interfaces h.domains.freeInterface hl, ?_, ?_⟩
  · rw [hworld]
    have hslot : IsSlot k' = IsSlot k := by
      funext m
      exact propext (isSlot_congr h.domains.freeInterface)
    rw [hslot]
    exact hinv.closed
  · rw [h.domains.loadedMap, h.lists.runnable, hinv.loaded]
    exact (currentMap_congr hinv.mem hmem (h.domains.rows _ 39 le_rfl)).symm

theorem Quiet.served (h : Quiet k k') (hinv : KernelInv O k)
    (hl : k'.lastInterface = k.lastInterface) : Served O k k' .internal k.runnable := by
  obtain ⟨rs, qs, rem, hs⟩ := hinv.sched
  exact (hs.scheduled h.lists h.domains).served hinv hl

end Quiet

/-! ## Virtual machines -/

section Machines

variable {k k' : Kernel} {p a i now : ℕ} {O : ℕ → Prop}

theorem KernelInv.partner (h : KernelInv O k) (hp : p ∈ k.contexts) (hne : k.partner p ≠ 0) :
    k.partner p ∈ k.contexts := by
  obtain ⟨_, _, _, hs⟩ := h.sched
  have heq : k.partner p = k.ctx p 3 := fld_of_mem hp 3
  rw [heq] at hne ⊢
  exact (hs.pairs p hp hne).mem

/-- The partner of the running thread neither waits nor runs. -/
theorem KernelInv.partner_idle (h : KernelInv O k) (hne : k.partner k.runnable ≠ 0) :
    k.ctx (k.partner k.runnable) 38 ≠ threadWaiting ∧ ¬ OnLock k (k.partner k.runnable) := by
  obtain ⟨_, _, _, hs⟩ := h.sched
  have heq : k.partner k.runnable = k.ctx k.runnable 3 := fld_of_mem h.mem 3
  rw [heq] at hne ⊢
  exact ⟨(hs.partner_idle hne).gate, (hs.partner_idle hne).lock⟩

theorem partnerReadable_spec (h : partnerReadable k p = true) :
    k.partner p ≠ 0 ∧ k.reg p 0 % 2 ^ 32 ≤ 31 := by
  unfold partnerReadable at h
  simp only [Bool.and_eq_true, bne_iff_ne, decide_eq_true_eq] at h
  exact ⟨h.1.1.1, h.1.2⟩

theorem handleGetPartnerReg_quiet (h : KernelInv O k)
    (hok : handleGetPartnerReg k k.runnable = .ok k' now) : now = k.runnable ∧ Quiet k k' := by
  unfold handleGetPartnerReg at hok
  split at hok
  · cases hok
    exact ⟨rfl, h.setReg (by decide) _⟩
  · cases hok

theorem handleSetPartnerReg_quiet (h : KernelInv O k)
    (hok : handleSetPartnerReg k k.runnable = .ok k' now) : now = k.runnable ∧ Quiet k k' := by
  unfold handleSetPartnerReg at hok
  split at hok
  · rename_i hread
    obtain ⟨hne, hle⟩ := partnerReadable_spec hread
    cases hok
    refine ⟨rfl, ?_⟩
    rw [Kernel.setReg, setFld_of_mem (h.partner h.mem hne)]
    exact .row (by omega) (h.partner_idle hne)
  · cases hok

/-- A word of the heap that is in no context. -/
theorem store64_heap (hal : a % 8 = 0) (ha : heapStart ≤ a) (hc : k.contextAt a = none) (v : ℕ) :
    k.store64 a v = { k with mem := Function.update k.mem a v } := by
  rw [store64_eq_setWord hal, Kernel.setWord, place_heap hc ha]

/-- A register of a virtual machine, if it is not a word of another context. -/
theorem handleChangeVmSystemRegister_quiet (h : KernelInv O k)
    (hp : threadFromCode (k.ctx k.runnable 4) ∈ k.contexts)
    (hc : k.contextAt (vmWordAddress k k.runnable) = none)
    (hok : handleChangeVmSystemRegister k k.runnable = .ok k' now) :
    now = k.runnable ∧ Quiet k k' := by
  obtain ⟨_, _, _, hs⟩ := h.sched
  have hpl := hs.gate.placed
  have hacc := change_accepts hok
  have hmem : vmPartner k k.runnable ∈ k.contexts := by
    unfold vmPartner
    rw [h.reg]
    refine h.partner hp ?_
    have hne := hacc.partner
    unfold vmPartner at hne
    rw [h.reg] at hne
    exact hne
  have haddr : vmWordAddress k k.runnable =
      vmPartner k k.runnable + contextSize + 8 * vmIndex k k.runnable :=
    sysregAddress_eq hpl hmem hacc.index
  have hfloor := hpl.floor hmem
  have haligned := hpl.aligned _ hmem
  have hal : vmWordAddress k k.runnable % 8 = 0 := by
    unfold contextSize at haddr
    omega
  have hplace := place_heap hc (by unfold heapStart; omega)
  rw [change_mem hacc hal hplace] at hok
  cases hok
  have hmemory : Quiet k (k.setMem (vmWordAddress k k.runnable) (changedWord
      (k.mem (vmWordAddress k k.runnable)) (k.reg k.runnable 2) (k.reg k.runnable 3))) :=
    Quiet.memory k k.l1 k.l2 k.l3 k.user _ k.sharedSystemMap k.sharedSystemMapMappedPages k.spEl0
  exact ⟨rfl, hmemory.trans ((hmemory.inv h rfl).setReg (by decide) _)⟩

end Machines

/-! ## The heap -/

section Heap

variable {k k' : Kernel} {a b now : ℕ} {x : KernelAction} {O : ℕ → Prop}

/-- The word is in the memory of the loaded map, or in a block of the heap that is no context. -/
def Outside (k : Kernel) (a : ℕ) : Prop :=
  a < 2 ^ 34 ∨ a % 8 = 0 ∧ heapStart ≤ a ∧ k.contextAt a = none

theorem store64_outside (hpl : Placed k) (ha : Outside k a) (v : ℕ) :
    ∃ u m, k.store64 a v = { k with user := u, mem := m } := by
  rcases ha with ha | ⟨hal, hheap, hc⟩
  · obtain ⟨u, hu⟩ := hpl.store64_low ha v
    exact ⟨u, k.mem, hu⟩
  · exact ⟨k.user, _, store64_heap hal hheap hc v⟩

/-- A copy to such words. -/
theorem copyWords_outside {ok : Kernel → ℕ → ℕ → Bool} {n d s : ℕ} (hpl : Placed k)
    (hd : ∀ i < n, Outside k (d + 8 * i)) (hok : copyWords ok n k d s = .ok k' ()) :
    ∃ u m, k' = { k with user := u, mem := m } := by
  induction n generalizing k d s with
  | zero =>
    cases hok
    exact ⟨k'.user, k'.mem, rfl⟩
  | succ n ih =>
    unfold copyWords at hok
    split at hok
    · obtain ⟨u, m, hk₁⟩ := store64_outside hpl (hd 0 (by omega)) (k.load64 s)
      rw [Nat.mul_zero, Nat.add_zero] at hk₁
      rw [hk₁] at hok
      have hrest : ∀ i < n, Outside { k with user := u, mem := m } (d + 8 + 8 * i) := by
        intro i hi
        have := hd (i + 1) (by omega)
        rw [show d + 8 * (i + 1) = d + 8 + 8 * i by omega] at this
        exact this
      obtain ⟨u', m', hk'⟩ := ih (k := { k with user := u, mem := m })
        (hpl.congr rfl rfl) hrest hok
      exact ⟨u', m', hk'⟩
    · cases hok

theorem readHeap_quiet {offset length destination : ℕ} (hpl : Placed k)
    (hd : destination + length ≤ 2 ^ 34)
    (hok : readHeap k offset length destination = .ok k' ()) : Quiet k k' := by
  unfold readHeap at hok
  split at hok
  · obtain ⟨u, m, rfl⟩ := copyWords_outside hpl (fun i hi => .inl (by omega)) hok
    exact .memory k _ _ _ u m _ _ _
  · cases hok

theorem writeHeap_quiet {offset length source : ℕ} (hh : Heap k)
    (hc : ∀ i < length / 8, k.contextAt (heapPointer offset + 8 * i) = none)
    (hok : writeHeap k offset length source = .ok k' ()) : Quiet k k' := by
  have hmapped := hh.mapped
  have hle := hh.bottom_le
  unfold writeHeap at hok
  split at hok
  · rename_i hblock
    unfold heapBlockOk at hblock
    simp only [Bool.and_eq_true, decide_eq_true_eq, beq_iff_eq] at hblock
    have hout : ∀ i < length / 8, Outside k (heapPointer offset + 8 * i) := by
      intro i hi
      refine .inr ⟨?_, ?_, hc i hi⟩
      · unfold heapPointer startAddress heapTop initialHeap at *
        omega
      · unfold heapPointer heapStart startAddress heapTop initialHeap at *
        omega
    obtain ⟨u, m, rfl⟩ := copyWords_outside hh.toPlaced hout hok
    exact .memory k _ _ _ u m _ _ _
  · cases hok

/-- The invariant of a core, and of what it does, is about the threads and the interfaces. -/
theorem Served.of_world {k₁ : Kernel} (h : Served O k₁ k' x now) (hr : k₁.runnable = k.runnable)
    (hw : world k₁ = world k) : Served O k k' x now := by
  refine ⟨h.sched, h.runnable, h.table, ?_, ?_⟩
  · rw [← hw]
    exact h.step
  · rw [← hr]
    exact h.loaded

/-- A block is taken from the bottom of the heap. -/
theorem SchedInv.lower {rs qs : List ℕ} {rem : ℕ → ℕ} (h : SchedInv O k rs qs rem)
    (hb : Heap { k with heapBottom := b }) : SchedInv O { k with heapBottom := b } rs qs rem := by
  have hlinks : Links { k with heapBottom := b } rs 0 :=
    h.links.congr rfl rfl rfl (fun _ _ _ _ => rfl) fun _ _ _ => rfl
  have hidle : ∀ p, Idle k rs p → Idle { k with heapBottom := b } rs p :=
    fun p hid => ⟨hid.out, hid.lock, hid.gate⟩
  refine ⟨?_, hb, hlinks, h.waiting, ?_, ?_, h.frames,
    fun p hp hid => h.idle p hp ⟨hid.out, hid.lock, hid.gate⟩⟩
  · exact ⟨hb.toPlaced, h.gate.owners, h.gate.ring, h.gate.ringNodup, h.gate.ringMem, h.gate.awake,
      h.gate.queue, h.gate.queueNodup, h.gate.waiting, h.gate.queued, h.gate.sums, h.gate.first,
      h.gate.bound, h.gate.gates⟩
  · intro p hp hne
    obtain ⟨hmem, hback, hqp, hid⟩ := h.pairs p hp hne
    exact ⟨hmem, hback, hqp, hid.imp (hidle p) (hidle _)⟩
  · intro hi
    obtain ⟨hmem, hruns, hpartner⟩ := h.interrupt hi
    exact ⟨hmem, hruns.imp id (hidle _), fun hne => hidle _ (hpartner hne)⟩

/-- `Isambard_System_Service_Allocate_Heap`, while there is room. -/
theorem allocateHeap_served {size : ℕ} (h : KernelInv O k) (hsize : size < 2 ^ 20)
    (hm : inMappedHeap (allocateHeap k size).2 0 = true) (v : ℕ) :
    Served O k ((allocateHeap k size).1.setReg k.runnable 0 v) .internal k.runnable := by
  obtain ⟨rs, qs, rem, hs⟩ := h.sched
  have hlower := hs.heap.lower hsize hm
  obtain ⟨b, hb, -⟩ := allocateHeap_bottom k size
  rw [hb] at hlower ⊢
  have hinv : KernelInv O { k with heapBottom := b } :=
    ⟨⟨rs, qs, rem, hs.lower hlower⟩, h.table.congr rfl rfl rfl, h.closed, h.loaded⟩
  have hkept : Quiet { k with heapBottom := b }
      (Kernel.setReg { k with heapBottom := b } k.runnable 0 v) := hinv.setReg (by decide) v
  exact (hkept.served hinv (setReg_grows _ _ _ _).lastInterface).of_world rfl rfl

end Heap

/-! ## The requests -/

/-- What a request needs of the caller and its arguments, so that no context is overwritten, no
frame is read that is not there, and a thread is left to run. -/
def RequestOk (k : Kernel) : Request → Prop
  | .setInterruptThread => k.ctx k.runnable 0 ≠ k.runnable
  | .createMap => k.ctx k.runnable 41 ≠ frameAddress k.runnable 6
  | .readHeap => k.ctx k.runnable 7 + k.ctx k.runnable 6 ≤ 2 ^ 34
  | .writeHeap => ∀ i < k.ctx k.runnable 6 / 8,
      k.contextAt (heapPointer (k.ctx k.runnable 5) + 8 * i) = none
  | .allocateHeap => k.ctx k.runnable 5 < 2 ^ 20 ∧
      inMappedHeap (allocateHeap k (k.ctx k.runnable 5)).2 0 = true
  | .makePartner => k.ctx k.runnable 41 ≠ frameAddress k.runnable 6
  | .createThread => k.ctx k.runnable 41 ≠ frameAddress k.runnable 6 ∧
      k.runnable ≠ k.interruptThread
  | .addDevicePage | .updatedMap | .nextDriver | .readInterface | .freeHeap => True

/-- What a request does to the domains. -/
def requestAction (k k' : Kernel) : Request → KernelAction
  | .createMap => granting k k'
  | .makePartner | .createThread => .spawn k.runnable (k'.contexts.headD 0)
  | _ => .internal

section Requests

variable {k k' : Kernel} {now : ℕ} {x : KernelAction} {O : ℕ → Prop}

theorem SchedInv.others {rs qs : List ℕ} {rem : ℕ → ℕ} (h : SchedInv O k rs qs rem)
    (hne : k.ctx k.runnable 0 ≠ k.runnable) : rs ≠ [] := by
  rintro rfl
  exact hne (ring_nil.1 h.gate.ring).1

theorem addDevicePage_quiet (h : KernelInv O k) (hok : addDevicePage k k.runnable = .ok k' now) :
    now = k.runnable ∧ Quiet k k' := by
  obtain ⟨_, _, _, hs⟩ := h.sched
  have hreg : ∀ k₁ : Kernel, Quiet k k₁ → k₁.lastInterface = k.lastInterface → ∀ v,
      Quiet k (k₁.setReg k.runnable 0 v) := by
    intro k₁ hk hl v
    have hset := (hk.inv h hl).setReg (i := 0) (by decide) v
    rw [hk.lists.runnable] at hset
    exact hk.trans hset
  have hword : ∀ v, k.setWord (coreStackEntry k 4) v =
      { k with mem := Function.update k.mem (coreStackEntry k 4) v } := by
    intro v
    rw [Kernel.setWord, hs.gate.placed.place_coreStack (by decide)]
  unfold addDevicePage setL3 at hok
  simp only [hword] at hok
  generalize k.reg k.runnable 2 / 4096 % 2 ^ 32 = page at hok
  generalize Entry.shared 3 (Entry.el0Rw (Entry.deviceMemory (Entry.pageAt
    (k.reg k.runnable 1)))) = entry at hok
  split at hok
  · cases hok
  · split at hok
    · cases hok
    · split at hok
      · obtain ⟨rfl, rfl⟩ := Outcome.ok.inj hok
        refine ⟨rfl, ?_⟩
        apply hreg
        · exact .memory k k.l1 k.l2 _ k.user _ _ (page + 1) k.spEl0
        · rfl
      · obtain ⟨rfl, rfl⟩ := Outcome.ok.inj hok
        refine ⟨rfl, ?_⟩
        apply hreg
        · exact .memory k k.l1 k.l2 _ k.user _ _ k.sharedSystemMapMappedPages k.spEl0
        · rfl

theorem updatedMap_quiet (hok : updatedMap k k.runnable = .ok k' now) :
    now = k.runnable ∧ Quiet k k' := by
  cases hok
  exact ⟨rfl, .memory k _ _ _ _ _ _ _ _⟩

theorem readInterface_quiet (h : KernelInv O k) (hok : readInterface k k.runnable = .ok k' now) :
    now = k.runnable ∧ Quiet k k' := by
  unfold readInterface at hok
  split at hok
  · cases hok
  · split at hok
    · cases hok
      exact ⟨rfl, h.setReg (by decide) _⟩
    · cases hok

theorem serveRequest_served {r : Request} (h : KernelInv O k)
    (hr : Request.ofCode (k.ctx k.runnable 4) = some r) (hreq : RequestOk k r)
    (hok : serveRequest k k.runnable = .ok k' now) :
    Served O k k' (requestAction k k' r) now := by
  obtain ⟨rs, qs, rem, hs⟩ := h.sched
  have hlast := (serveRequest_grows k k.runnable).grows hok |>.lastInterface
  have hpl := hs.gate.placed
  unfold serveRequest at hok
  rw [h.reg, hr] at hok
  cases r with
  | setInterruptThread => exact (setInterruptThread_sched hs (hs.others hreq) hok).served h hlast
  | addDevicePage =>
    obtain ⟨rfl, hk⟩ := addDevicePage_quiet h hok
    exact hk.served h hlast
  | updatedMap =>
    obtain ⟨rfl, hk⟩ := updatedMap_quiet hok
    exact hk.served h hlast
  | createMap => exact createMap_served h hreq hok
  | nextDriver => cases hok
  | readInterface =>
    obtain ⟨rfl, hk⟩ := readInterface_quiet h hok
    exact hk.served h hlast
  | readHeap =>
    simp only [h.reg] at hok
    cases hread : readHeap k (k.ctx k.runnable (4 + 1)) (k.ctx k.runnable (4 + 2))
      (k.ctx k.runnable (4 + 3)) with
    | halt k₁ =>
      rw [hread] at hok
      cases hok
    | ok k₁ u =>
      rw [hread] at hok
      cases hok
      exact (readHeap_quiet hpl hreq hread).served h hlast
  | writeHeap =>
    simp only [h.reg] at hok
    cases hwrite : writeHeap k (k.ctx k.runnable (4 + 1)) (k.ctx k.runnable (4 + 2))
      (k.ctx k.runnable (4 + 3)) with
    | halt k₁ =>
      rw [hwrite] at hok
      cases hok
    | ok k₁ u =>
      rw [hwrite] at hok
      cases hok
      exact (writeHeap_quiet hs.heap hreq hwrite).served h hlast
  | allocateHeap =>
    simp only [h.reg] at hok
    cases hok
    exact allocateHeap_served h hreq.1 hreq.2 _
  | freeHeap => cases hok
  | makePartner =>
    obtain ⟨j, fs, -, h5, hj, -⟩ := h.frame hreq
    obtain ⟨hsched, hrun, rfl, hnew⟩ := makePartner_sched hs h5 hj hok
    have hp : k'.contexts.headD 0 = partnerBlock k := by
      rw [hnew.contexts, List.headD_cons]
    unfold requestAction
    rw [hp]
    exact hnew.served h hsched hrun hlast h5 hj rfl
  | createThread =>
    obtain ⟨j, fs, -, h5, hj, -⟩ := h.frame hreq.1
    obtain ⟨hsched, hrun, hnew⟩ := createThread_sched hs hreq.2 h5 hj hok
    have hp : k'.contexts.headD 0 = now := by
      rw [hnew.contexts, List.headD_cons]
    unfold requestAction
    rw [hp]
    exact hnew.served h hsched hrun hlast h5 hj rfl

theorem Served.mem (h : Served O k k' x now) : now ∈ k'.contexts := by
  obtain ⟨_, _, _, hs⟩ := h.sched
  rw [← h.runnable]
  exact hs.mem

/-- A map is loaded then. -/
theorem Served.mapped {k₂ : Kernel} {m : ℕ} {l1 l2 l3 : ℕ → ℕ} (h : Served O k k' x now)
    (hk : k₂ = { k' with loadedMap := m, l1 := l1, l2 := l2, l3 := l3 })
    (hl : k₂.currentMap now = k₂.currentMap k.runnable → k₂.loadedMap = k₂.currentMap k.runnable) :
    Served O k k₂ x now := by
  obtain ⟨rs, qs, rem, hs⟩ := h.sched
  have hkeep : KeepsLists k' k₂ := by
    rw [hk]
    exact .of_ctx rfl rfl rfl rfl rfl rfl rfl
  have hworld : world k₂ = world k' := by
    rw [hk]
    exact world_congr rfl (fun _ _ => rfl) rfl rfl
  refine ⟨⟨rs, qs, rem, hs.congr hkeep⟩, hkeep.runnable.trans h.runnable, ?_, ?_, hl⟩
  · rw [hk]
    exact h.table.congr rfl rfl rfl
  · rw [hworld]
    exact h.step

theorem requestAction_congr {k₂ : Kernel} {r : Request} (hi : k₂.interfaces = k'.interfaces)
    (hc : k₂.contexts = k'.contexts) : requestAction k k₂ r = requestAction k k' r := by
  have hgrant : granting k k₂ = granting k k' := by
    unfold granting newCap
    rw [hi]
  cases r <;> unfold requestAction
  all_goals first | rfl | exact hgrant | rw [hc]

/-- `ISAMBARD_SYSTEM_REQUEST` loads the map of a new thread already. -/
theorem systemDriverRequest_served (h : KernelInv O k)
    (hreq : ∀ r, Request.ofCode (k.ctx k.runnable 4) = some r → RequestOk k r)
    (hok : systemDriverRequest k k.runnable = .ok k' now) :
    ∃ r, Request.ofCode (k.ctx k.runnable 4) = some r ∧
      Served O k k' (requestAction k k' r) now := by
  unfold systemDriverRequest at hok
  cases hs : serveRequest k k.runnable with
  | halt k₁ =>
    rw [hs] at hok
    cases hok
  | ok k₁ n =>
    rw [hs] at hok
    simp only at hok
    have hcode : ∃ r, Request.ofCode (k.ctx k.runnable 4) = some r := by
      cases hc : Request.ofCode (k.ctx k.runnable 4) with
      | none =>
        unfold serveRequest at hs
        rw [h.reg, hc] at hs
        cases hs
      | some r => exact ⟨r, rfl⟩
    obtain ⟨r, hr⟩ := hcode
    have hserved := serveRequest_served h hr (hreq r hr) hs
    refine ⟨r, hr, ?_⟩
    split at hok
    · rename_i hne
      cases hc : changeMap k₁ n (k₁.currentMap n) with
      | halt k₂ =>
        rw [hc] at hok
        cases hok
      | ok k₂ u =>
        obtain ⟨l1, l2, l3, hk₂⟩ := changeMap_own hserved.mem hc
        rw [hc] at hok
        cases hok
        have hact : requestAction k k' r = requestAction k k₁ r :=
          requestAction_congr (by rw [hk₂]) (by rw [hk₂])
        rw [hact]
        refine hserved.mapped hk₂ fun heq => absurd ?_ hne.2
        have hcur : ∀ p ∈ k₁.contexts, k'.currentMap p = k₁.currentMap p := by
          intro p hp
          exact currentMap_congr hp (by rw [hk₂]; exact hp) (by rw [hk₂])
        rw [← hcur _ hserved.mem, ← hcur _ (((serveRequest_grows k k.runnable).grows hs).mem h.mem)]
        exact heq
    · cases hok
      exact hserved

end Requests

end Isambard.El1
