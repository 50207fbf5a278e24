import Isambard.Lib.Domains
import Isambard.El1.Handlers
import Isambard.El1.ThreadCalls

/-!
# El1.Domains — the maps as protection domains

A map is a domain, an interface that was created is a capability, and a thread's calls are the
frames above its stack pointer. So the kernel's state is a world of threads that move between
domains, and what its calls have to do is steps of that world.

* `world`: the abstraction;
* `TableOk`: the free slots are those from the head of the list on, in their order;
* `KernelInv`: the invariant, and `Served`: what a call leaves when it returns;
* `Scheduled.served`, `Spawned.served`: the calls of the scheduler.
-/

namespace Isambard.El1

open Isambard.Lib

/-! ## The abstraction -/

/-- Threads, slots and maps; an entry point with an object; a stack pointer with a return
address. -/
abbrev KernelWorld := Domains.World ℕ ℕ ℕ (ℕ × ℕ) (ℕ × ℕ)

abbrev KernelAction := Domains.Action ℕ ℕ ℕ (ℕ × ℕ) (ℕ × ℕ)

/-- Frame `j` of the context `p`. -/
def frameAt (c : ℕ → ℕ → ℕ) (p j : ℕ) : Domains.Frame ℕ (ℕ × ℕ) :=
  ⟨field 0 32 (c p (45 + 3 * j)), (c p (43 + 3 * j), c p (44 + 3 * j))⟩

/-- The number of the frame at the stack pointer. -/
def depth (c : ℕ → ℕ → ℕ) (p : ℕ) : ℕ := (c p 41 - frameAddress p 0) / 24

/-- The frames from the stack pointer to the outermost one. -/
def frames (c : ℕ → ℕ → ℕ) (p : ℕ) : List (Domains.Frame ℕ (ℕ × ℕ)) :=
  (List.range' (depth c p) (6 - depth c p)).map (frameAt c p)

def activity (c : ℕ → ℕ → ℕ) (p : ℕ) : Domains.Activity ℕ (ℕ × ℕ) :=
  ⟨field 32 32 (c p 39), frames c p⟩

/-- The capability in a slot that was taken from the free list. -/
def capOf (i : Interface) : Domains.Cap ℕ (ℕ × ℕ) := ⟨i.user, i.provider, (i.handler, i.object)⟩

/-- The slot was taken from the free list. A map is known by such a slot. -/
def IsSlot (k : Kernel) (m : ℕ) : Prop := 0 < m ∧ m < k.freeInterface

instance (k : Kernel) (m : ℕ) : Decidable (IsSlot k m) := inferInstanceAs (Decidable (_ ∧ _))

def world (k : Kernel) : KernelWorld where
  threads p := if p ∈ k.contexts then some (activity k.ctx p) else none
  caps i := if IsSlot k i then some (capOf (k.interfaces i)) else none

/-- The frame through which a thread leaves. -/
def IsExit (f : Domains.Frame ℕ (ℕ × ℕ)) : Prop :=
  f.domain = systemMapIndex ∧ f.resume.2 = systemServiceThreadExit

section World

variable {k k' : Kernel} {c c' : ℕ → ℕ → ℕ} {p q i j : ℕ}

theorem depth_eq (h : c p 41 = frameAddress p j) : depth c p = j := by
  unfold depth
  rw [h]
  unfold frameAddress
  omega

theorem frames_length (c : ℕ → ℕ → ℕ) (p : ℕ) : (frames c p).length = 6 - depth c p := by
  unfold frames
  rw [List.length_map, List.length_range']

theorem frameAt_congr (h : ∀ w, 43 + 3 * j ≤ w → c' p w = c p w) :
    frameAt c' p j = frameAt c p j := by
  unfold frameAt
  rw [h _ (by omega), h _ (by omega), h _ (by omega)]

theorem frames_congr (h : ∀ w, 39 ≤ w → c' p w = c p w) : frames c' p = frames c p := by
  have hdepth : depth c' p = depth c p := by
    unfold depth
    rw [h 41 (by decide)]
  unfold frames
  rw [hdepth]
  apply List.map_congr_left
  exact fun j _ => frameAt_congr fun w hw => h w (by omega)

theorem activity_congr (h : ∀ w, 39 ≤ w → c' p w = c p w) : activity c' p = activity c p := by
  unfold activity
  rw [frames_congr h, h 39 le_rfl]

/-- One frame more. -/
theorem frames_push (hc : c p 41 = frameAddress p (j + 1)) (hc' : c' p 41 = frameAddress p j)
    (hj : j ≤ 5) (h : ∀ w, 46 + 3 * j ≤ w → c' p w = c p w) :
    frames c' p = frameAt c' p j :: frames c p := by
  have hsucc : 6 - j = 6 - (j + 1) + 1 := by omega
  unfold frames
  rw [depth_eq hc, depth_eq hc', hsucc, List.range'_succ, List.map_cons]
  congr 1
  apply List.map_congr_left
  intro i hi
  have := List.mem_range'_1.1 hi
  exact frameAt_congr fun w hw => h w (by omega)

theorem frames_cons (hc : c p 41 = frameAddress p j) (hj : j ≤ 5) :
    ∃ fs, frames c p = frameAt c p j :: fs := by
  have hsucc : 6 - j = 5 - j + 1 := by omega
  unfold frames
  rw [depth_eq hc, hsucc, List.range'_succ, List.map_cons]
  exact ⟨_, rfl⟩

/-- A thread that has not run has the frame that it leaves through. -/
theorem frames_new (hc : c p 41 = frameAddress p 5) : frames c p = [frameAt c p 5] := by
  unfold frames
  rw [depth_eq hc]
  rfl

theorem world_thread (hp : p ∈ k.contexts) : (world k).threads p = some (activity k.ctx p) :=
  if_pos hp

theorem world_noThread (hp : p ∉ k.contexts) : (world k).threads p = none := if_neg hp

theorem world_thread_iff {a : Domains.Activity ℕ (ℕ × ℕ)} :
    (world k).threads p = some a ↔ p ∈ k.contexts ∧ a = activity k.ctx p := by
  by_cases hp : p ∈ k.contexts
  · rw [world_thread hp, Option.some_inj]
    constructor
    · exact fun h => ⟨hp, h.symm⟩
    · exact fun h => h.2.symm
  · rw [world_noThread hp]
    constructor
    · intro h
      cases h
    · exact fun h => absurd h.1 hp

theorem world_cap (hi : IsSlot k i) : (world k).caps i = some (capOf (k.interfaces i)) := if_pos hi

theorem world_noCap (hi : ¬ IsSlot k i) : (world k).caps i = none := if_neg hi

theorem world_cap_iff {e : Domains.Cap ℕ (ℕ × ℕ)} :
    (world k).caps i = some e ↔ IsSlot k i ∧ e = capOf (k.interfaces i) := by
  by_cases hi : IsSlot k i
  · rw [world_cap hi, Option.some_inj]
    constructor
    · exact fun h => ⟨hi, h.symm⟩
    · exact fun h => h.2.symm
  · rw [world_noCap hi]
    constructor
    · intro h
      cases h
    · exact fun h => absurd h.1 hi

theorem isSlot_congr (hf : k'.freeInterface = k.freeInterface) : IsSlot k' i ↔ IsSlot k i := by
  unfold IsSlot
  rw [hf]

theorem world_caps (hi : k'.interfaces = k.interfaces) (hf : k'.freeInterface = k.freeInterface) :
    (world k').caps = (world k).caps := by
  funext i
  by_cases hm : IsSlot k i
  · rw [world_cap hm, world_cap ((isSlot_congr hf).2 hm), hi]
  · rw [world_noCap hm, world_noCap fun h => hm ((isSlot_congr hf).1 h)]

/-- The world is in these words. -/
theorem world_congr (hc : k'.contexts = k.contexts)
    (hrow : ∀ p ∈ k.contexts, activity k'.ctx p = activity k.ctx p)
    (hi : k'.interfaces = k.interfaces) (hf : k'.freeInterface = k.freeInterface) :
    world k' = world k := by
  have hthreads : (world k').threads = (world k).threads := by
    funext p
    unfold world
    simp only [hc]
    split
    · rename_i hp
      rw [hrow p hp]
    · rfl
  exact congrArg₂ _ hthreads (world_caps hi hf)

theorem SameDomains.world (h : SameDomains k k') : world k' = world k :=
  world_congr h.contexts (fun p _ => activity_congr fun w hw => h.rows p w hw) h.interfaces
    h.freeInterface

/-- A thread has moved, or it is new. -/
theorem world_setThread (hc : ∀ q, q ∈ k'.contexts ↔ q = p ∨ q ∈ k.contexts)
    (hrow : ∀ q ∈ k.contexts, q ≠ p → activity k'.ctx q = activity k.ctx q)
    (hi : k'.interfaces = k.interfaces) (hf : k'.freeInterface = k.freeInterface) :
    world k' = (world k).setThread p (activity k'.ctx p) := by
  have hthreads : (world k').threads =
      ((world k).setThread p (activity k'.ctx p)).threads := by
    funext q
    rw [Domains.setThread_threads]
    split
    · rename_i hq
      rw [hq]
      exact world_thread ((hc p).2 (.inl rfl))
    · rename_i hq
      by_cases hqm : q ∈ k.contexts
      · rw [world_thread hqm, world_thread ((hc q).2 (.inr hqm)), hrow q hqm hq]
      · rw [world_noThread hqm, world_noThread fun h => hqm (((hc q).1 h).resolve_left hq)]
  exact congrArg₂ _ hthreads (world_caps hi hf)

/-- A slot has been taken. -/
theorem world_setCap (hc : k'.contexts = k.contexts)
    (hrow : ∀ p ∈ k.contexts, activity k'.ctx p = activity k.ctx p) (hpos : 0 < k.freeInterface)
    (hf : k'.freeInterface = k.freeInterface + 1)
    (hi : ∀ i, i ≠ k.freeInterface → k'.interfaces i = k.interfaces i) :
    world k' = (world k).setCap k.freeInterface (capOf (k'.interfaces k.freeInterface)) := by
  have hthreads : (world k').threads = (world k).threads := by
    funext p
    by_cases hp : p ∈ k.contexts
    · rw [world_thread hp, world_thread (by rw [hc]; exact hp), hrow p hp]
    · rw [world_noThread hp, world_noThread (by rw [hc]; exact hp)]
  have hcaps : (world k').caps =
      ((world k).setCap k.freeInterface (capOf (k'.interfaces k.freeInterface))).caps := by
    funext i
    rw [Domains.setCap_caps]
    split
    · rename_i heq
      rw [heq, world_cap ⟨hpos, by omega⟩]
    · rename_i hne
      by_cases hm : IsSlot k i
      · rw [world_cap hm, world_cap ⟨hm.1, by have := hm.2; omega⟩, hi i hne]
      · rw [world_noCap hm, world_noCap]
        rintro ⟨h0, hlt⟩
        exact hm ⟨h0, by omega⟩
  exact congrArg₂ _ hthreads hcaps

end World

/-! ## The invariant -/

/-- The slots that were never used are linked in their order. A free slot's link is in the place
of the user, and no map has its number. -/
structure TableOk (k : Kernel) : Prop where
  first : 2 < k.freeInterface
  bound : k.freeInterface < tableSize
  last : k.lastInterface = tableSize
  zero : (k.interfaces 0).user = 0
  free : ∀ e, k.freeInterface ≤ e → e < tableSize →
    (k.interfaces e).next = if e + 1 < tableSize then e + 1 else 0

/-- What holds of a core between two steps. -/
structure KernelInv (O : ℕ → Prop) (k : Kernel) : Prop where
  sched : ∃ rs qs rem, SchedInv O k rs qs rem
  table : TableOk k
  closed : Domains.Closed (IsSlot k) (world k)
  loaded : k.loadedMap = k.currentMap k.runnable

/-- A call has returned the thread that is to run. The exit of the kernel loads the map of that
thread only if it is another one than that of the thread that entered. -/
structure Served (O : ℕ → Prop) (k k' : Kernel) (x : KernelAction) (now : ℕ) : Prop where
  sched : ∃ rs qs rem, SchedInv O k' rs qs rem
  runnable : k'.runnable = now
  table : TableOk k'
  step : Domains.Step IsExit (world k) x (world k')
  loaded : k'.currentMap now = k'.currentMap k.runnable → k'.loadedMap = k'.currentMap k.runnable

section Invariant

variable {k k' : Kernel} {x : KernelAction} {p i j now : ℕ} {O : ℕ → Prop}

theorem TableOk.congr (h : TableOk k) (hi : k'.interfaces = k.interfaces)
    (hf : k'.freeInterface = k.freeInterface) (hl : k'.lastInterface = k.lastInterface) :
    TableOk k' := by
  constructor
  · rw [hf]
    exact h.first
  · rw [hf]
    exact h.bound
  · rw [hl]
    exact h.last
  · rw [hi]
    exact h.zero
  · rw [hf, hi]
    exact h.free

/-- The user of a slot that is not in use is no map. -/
theorem TableOk.used (h : TableOk k) (hlt : i < tableSize) (hm : IsSlot k (k.interfaces i).user) :
    IsSlot k i := by
  by_contra hi
  unfold IsSlot at hi hm
  rcases Nat.eq_zero_or_pos i with rfl | hpos
  · have := h.zero
    omega
  · have hfree := h.free i (by omega) hlt
    unfold Interface.next at hfree
    split at hfree
    · omega
    · omega

theorem KernelInv.mem (h : KernelInv O k) : k.runnable ∈ k.contexts := by
  obtain ⟨_, _, _, hs⟩ := h.sched
  exact hs.mem

/-- The map of a thread. -/
theorem KernelInv.isSlot (h : KernelInv O k) (hp : p ∈ k.contexts) :
    IsSlot k (field 32 32 (k.ctx p 39)) :=
  h.closed.domain p _ (world_thread hp)

theorem KernelInv.pointer (h : KernelInv O k) (hp : p ∈ k.contexts) :
    ∃ j, 2 ≤ j ∧ j ≤ 6 ∧ k.ctx p 41 = frameAddress p j := by
  obtain ⟨_, _, _, hs⟩ := h.sched
  exact (hs.frames p hp).pointer

/-- What a step leaves is an invariant of the core again, when the map of the thread that runs
is loaded. -/
theorem Served.isSlot (h : Served O k k' x now) (hm : IsSlot k i) : IsSlot k' i :=
  (world_cap_iff.1 (h.step.caps (world_cap hm))).1

theorem Served.closed (h : Served O k k' x now) (ht : TableOk k)
    (hc : Domains.Closed (IsSlot k) (world k)) : Domains.Closed (IsSlot k') (world k') := by
  have hfirst := ht.first
  have hsys : ∀ o, IsExit o → IsSlot k o.domain := by
    rintro o ⟨hdom, -⟩
    rw [hdom]
    exact ⟨by decide, by unfold systemMapIndex; omega⟩
  have hnew := h.step.closed hsys hc
  constructor
  · exact fun t a ha => h.isSlot (hnew.domain t a ha)
  · exact fun t a ha f hf => h.isSlot (hnew.frames t a ha f hf)
  · exact fun i c hi => h.isSlot (hnew.user i c hi)
  · exact fun i c hi => h.isSlot (hnew.provider i c hi)

/-- A call of the scheduler. -/
theorem Scheduled.served (h : Scheduled O k k' now) (hinv : KernelInv O k)
    (hl : k'.lastInterface = k.lastInterface) : Served O k k' .internal now := by
  refine ⟨h.inv, h.runnable, hinv.table.congr h.same.interfaces h.same.freeInterface hl, ?_, ?_⟩
  · rw [h.same.world]
    exact .internal
  · intro _
    have hmem : k.runnable ∈ k'.contexts := by
      rw [h.same.contexts]
      exact hinv.mem
    rw [h.same.loadedMap, hinv.loaded]
    exact (currentMap_congr hinv.mem hmem (h.same.rows _ 39 le_rfl)).symm

/-- The frame at the stack pointer of the running thread, if it has not left the outermost one. -/
theorem KernelInv.frame (h : KernelInv O k) (hf : k.ctx k.runnable 41 ≠ frameAddress k.runnable 6) :
    ∃ j fs, 2 ≤ j ∧ j ≤ 5 ∧ k.ctx k.runnable 41 = frameAddress k.runnable j ∧
      frames k.ctx k.runnable = frameAt k.ctx k.runnable j :: fs := by
  obtain ⟨j, h2, h6, hj⟩ := h.pointer h.mem
  have h5 : j ≤ 5 := by
    by_contra hgt
    obtain rfl : j = 6 := by omega
    exact hf hj
  obtain ⟨fs, hfs⟩ := frames_cons hj h5
  exact ⟨j, fs, h2, h5, hj, hfs⟩

/-- The call has made a thread. -/
theorem Spawned.served {map : ℕ} (h : Spawned k k' p map) (hinv : KernelInv O k)
    (hs : ∃ rs qs rem, SchedInv O k' rs qs rem) (hrun : k'.runnable = now)
    (hl : k'.lastInterface = k.lastInterface) (hj : j ≤ 5)
    (hptr : k.ctx k.runnable 41 = frameAddress k.runnable j)
    (hmap : map = field 0 32 (k.ctx k.runnable (45 + 3 * j))) :
    Served O k k' (.spawn k.runnable p) now := by
  obtain ⟨hsp, hexit, hout⟩ := h.row
  have hmem' : k.runnable ∈ k'.contexts := by
    rw [h.contexts]
    exact List.mem_cons_of_mem _ hinv.mem
  refine ⟨hs, hrun, hinv.table.congr h.interfaces h.freeInterface hl, ?_, ?_⟩
  · obtain ⟨fs, hfs⟩ := frames_cons hptr hj
    have hthread := world_thread hinv.mem
    unfold activity at hthread
    rw [hfs] at hthread
    have hnew : activity k'.ctx p =
        ⟨(frameAt k.ctx k.runnable j).domain, [frameAt k'.ctx p 5]⟩ := by
      unfold activity
      rw [frames_new hsp, h.map, hmap, Nat.mod_eq_of_lt (field_lt 0 32 _)]
      rfl
    rw [world_setThread (p := p) (by rw [h.contexts]; exact fun q => List.mem_cons)
      (fun q hq _ => activity_congr (h.rows q hq)) h.interfaces h.freeInterface, hnew]
    exact .spawn hthread (world_noThread h.fresh) ⟨hout, hexit⟩
  · intro _
    rw [h.loadedMap, hinv.loaded]
    exact (currentMap_congr hinv.mem hmem' (h.rows _ hinv.mem 39 le_rfl)).symm

end Invariant

end Isambard.El1
