import Isambard.El1.Domains

/-!
# El1.MapCalls — interfaces, calls and returns

The calls that the maps have for each other: those that make interfaces, `ISAMBARD_CALL` and
`ISAMBARD_RETURN`. Each of them is a step of the threads between their domains.

* `newInterface_served`: a capability is granted, and the four calls that do this;
* `handleCall_called`: a call to another map, `handleReturn_returned`: a return from it;
* `Called.served`, `Returned.served`: the steps that they are.
-/

namespace Isambard.El1

open Isambard.Lib

/-! ## Interfaces -/

section Interfaces

variable {k k' : Kernel} {x now : ℕ} {e : Interface} {O : ℕ → Prop}

/-- The kernel's variables that no list and no context is in. -/
theorem KeepsLists.aside {c : ℕ → ℕ → ℕ} (h : KeepsLists k (k.withCtx c))
    (hl : k'.layout = k.layout) (hc : k'.contexts = k.contexts) (hb : k'.heapBottom = k.heapBottom)
    (hi : k'.interruptThread = k.interruptThread) (hr : k'.runnable = k.runnable)
    (hw : k'.blockedWithTimeout = k.blockedWithTimeout) (hctx : k'.ctx = c) : KeepsLists k k' :=
  h.trans (.of_ctx hl hc hb hi hr hw hctx)

/-- An interface that the map of the running thread is the user of. -/
theorem KernelInv.held (h : KernelInv O k) (hi : interfaceFromIndex k x = some e)
    (hne : x % 2 ^ 32 ≠ tableSize) (hu : ¬ e.user ≠ k.currentMap k.runnable) :
    e = k.interfaces (x % 2 ^ 32) ∧ (world k).caps (x % 2 ^ 32) = some (capOf e) ∧
      (capOf e).user = (activity k.ctx k.runnable).domain := by
  obtain ⟨hle, rfl⟩ := interfaceFromIndex_some hi
  have hlast := h.table.last
  have hmap := h.isSlot h.mem
  rw [not_not, currentMap_of_mem h.mem] at hu
  refine ⟨rfl, world_cap (h.table.used (by omega) ?_), hu⟩
  rw [hu]
  exact hmap

/-- The slot at the head of the free list is taken, and the next one is the head. -/
theorem TableOk.obtain {m : ℕ} (h : TableOk k) (ho : obtainInterface k = .ok k' m) :
    m = k.freeInterface ∧ k' = { k with freeInterface := k.freeInterface + 1 } ∧
      (k.interfaces (m % 2 ^ 32)).next = k.freeInterface + 1 ∧ TableOk k' := by
  obtain ⟨first, bound, last, zero, free⟩ := h
  obtain ⟨rfl, -, -, -, hnext, rfl⟩ := obtainInterface_ok ho
  have hmod : k.freeInterface % 2 ^ 32 = k.freeInterface :=
    Nat.mod_eq_of_lt (by unfold tableSize at bound; omega)
  have hfree := free _ le_rfl bound
  rw [hmod] at hnext ⊢
  -- the last slot is never handed out
  have hlt : k.freeInterface + 1 < tableSize := by
    by_contra hge
    rw [if_neg hge] at hfree
    exact hnext hfree
  rw [if_pos hlt] at hfree
  rw [hfree]
  refine ⟨rfl, rfl, rfl, ⟨?_, hlt, last, zero, ?_⟩⟩
  · show 2 < k.freeInterface + 1
    omega
  · intro e he hlt'
    have he' : k.freeInterface + 1 ≤ e := he
    exact free e (by omega) hlt'

/-- The interface in the slot that was the first free one. -/
theorem newInterface_served (h : KernelInv O k) (c : Domains.Cap ℕ (ℕ × ℕ))
    (hp : Domains.Provides (world k) (activity k.ctx k.runnable).domain c)
    (hr : Domains.Reaches (world k) (activity k.ctx k.runnable) c.user)
    (hok : newInterface k k.runnable c.user c.provider c.value.1 c.value.2 = .ok k' now) :
    Served O k k' (.grant k.runnable k.freeInterface c) now := by
  obtain ⟨k₁, e, he, rfl, hk'⟩ := newInterface_ok h.mem hok
  obtain ⟨rfl, rfl, hnext, ⟨first, bound, last, zero, free⟩⟩ := h.table.obtain he
  rw [hnext] at hk'
  have hpos := h.table.first
  have hint : ∀ i, k'.interfaces i = if i = k.freeInterface then
      ⟨c.user, c.provider, c.value.1, c.value.2⟩ else k.interfaces i := by
    intro i
    rw [hk']
    exact Function.update_apply ..
  have hfi : k'.freeInterface = k.freeInterface + 1 := by rw [hk']
  have hctx : k'.ctx = setCtx k.ctx k.runnable 4 k.freeInterface := by rw [hk']
  have hcon : k'.contexts = k.contexts := by rw [hk']
  have hrows : ∀ p w, 39 ≤ w → k'.ctx p w = k.ctx p w := by
    intro p w hw
    rw [hctx, setCtx_apply, if_neg (by omega)]
  refine ⟨?_, by rw [hk'], ⟨?_, ?_, ?_, ?_, ?_⟩, ?_, ?_⟩
  · obtain ⟨rs, qs, rem, hs⟩ := h.sched
    have hk : KeepsLists k (k.withCtx (setCtx k.ctx k.runnable 4 k.freeInterface)) :=
      .row (by omega) (.inr hs.runs)
    refine ⟨rs, qs, rem, hs.congr (hk.aside ?_ ?_ ?_ ?_ ?_ ?_ hctx)⟩
    all_goals rw [hk']
  · omega
  · rw [hfi]
    exact bound
  · rw [hk']
    exact last
  · rw [hint, if_neg (by omega)]
    exact zero
  · intro i hi hlt'
    rw [hfi] at hi
    rw [hint, if_neg (by omega)]
    exact free i hi hlt'
  · have hcap : capOf (k'.interfaces k.freeInterface) = c := by
      rw [hint, if_pos rfl]
      rfl
    rw [world_setCap hcon (fun p _ => activity_congr (hrows p)) (by omega) hfi
      (fun i hi => by rw [hint, if_neg hi]), hcap]
    exact .grant (world_thread h.mem) (world_noCap fun hm => by have := hm.2; omega) hp hr
  · intro _
    have hload : k'.loadedMap = k.loadedMap := by rw [hk']
    rw [hload, h.loaded]
    exact (currentMap_congr h.mem (by rw [hcon]; exact h.mem) (hrows _ 39 le_rfl)).symm

/-- The map that the running thread was called from. -/
theorem KernelInv.caller (h : KernelInv O k)
    (hf : k.ctx k.runnable 41 ≠ frameAddress k.runnable 6) :
    Domains.Reaches (world k) (activity k.ctx k.runnable)
      (k.callerMap (k.stackPointer k.runnable)) := by
  obtain ⟨j, fs, -, h5, hj, hfs⟩ := h.frame hf
  obtain ⟨_, _, _, hs⟩ := h.sched
  exact .inl ⟨_, fs, hfs, (callerMap_eq hs.gate.placed h.mem h5 hj).symm⟩

theorem KernelInv.reg (h : KernelInv O k) (i : ℕ) : k.reg k.runnable i = k.ctx k.runnable (4 + i) :=
  fld_of_mem h.mem (4 + i)

/-- A capability for an object of the running thread's own map. -/
theorem provides_own (h : KernelInv O k) (u a b : ℕ) :
    Domains.Provides (world k) (activity k.ctx k.runnable).domain
      ⟨u, k.currentMap k.runnable, (a, b)⟩ := .inl (currentMap_of_mem h.mem)

/-- A copy of a capability of the running thread's map. -/
theorem provides_held {i d : ℕ} (hcap : (world k).caps i = some (capOf e))
    (hu : (capOf e).user = d) (u : ℕ) :
    Domains.Provides (world k) d ⟨u, e.provider, (e.handler, e.object)⟩ :=
  .inr ⟨i, capOf e, hcap, hu, rfl, rfl⟩

/-- What a slot says after the call that has made the interface in it. -/
def newCap (k k' : Kernel) : Domains.Cap ℕ (ℕ × ℕ) := capOf (k'.interfaces k.freeInterface)

/-- The handlers that make an interface grant what is in the slot then. -/
theorem newInterface_newCap {user provider handler value : ℕ} (h : KernelInv O k)
    (hok : newInterface k k.runnable user provider handler value = .ok k' now) :
    newCap k k' = ⟨user, provider, (handler, value)⟩ := by
  obtain ⟨k₁, e, he, rfl, hk'⟩ := newInterface_ok h.mem hok
  obtain ⟨rfl, -⟩ := obtainInterface_ok he
  unfold newCap
  rw [hk']
  show capOf (Function.update k.interfaces k.freeInterface _ k.freeInterface) = _
  rw [Function.update_self]
  rfl

/-- The action of a handler that makes an interface. -/
def granting (k k' : Kernel) : KernelAction := .grant k.runnable k.freeInterface (newCap k k')

theorem newInterface_granting {user provider handler value : ℕ} (h : KernelInv O k)
    (hok : newInterface k k.runnable user provider handler value = .ok k' now)
    (hp : Domains.Provides (world k) (activity k.ctx k.runnable).domain
      ⟨user, provider, (handler, value)⟩)
    (hr : Domains.Reaches (world k) (activity k.ctx k.runnable) user) :
    Served O k k' (granting k k') now := by
  unfold granting
  rw [newInterface_newCap h hok]
  exact newInterface_served h _ hp hr hok

theorem handleSvcDuplicateToReturn_served (h : KernelInv O k)
    (hf : k.ctx k.runnable 41 ≠ frameAddress k.runnable 6)
    (hi : k.ctx k.runnable 4 % 2 ^ 32 ≠ tableSize)
    (hok : handleSvcDuplicateToReturn k k.runnable = .ok k' now) :
    Served O k k' (granting k k') now := by
  unfold handleSvcDuplicateToReturn at hok
  split at hok
  · cases hok
  · rename_i e he
    split at hok
    · cases hok
    · rename_i hu
      rw [h.reg] at he
      obtain ⟨-, hcap, huser⟩ := h.held he hi hu
      exact newInterface_granting h hok (provides_held hcap huser _) (h.caller hf)

theorem handleSvcDuplicateToPassTo_served (h : KernelInv O k)
    (hi : k.ctx k.runnable 4 % 2 ^ 32 ≠ tableSize) (hi' : k.ctx k.runnable 5 % 2 ^ 32 ≠ tableSize)
    (hok : handleSvcDuplicateToPassTo k k.runnable = .ok k' now) :
    Served O k k' (granting k k') now := by
  unfold handleSvcDuplicateToPassTo at hok
  split at hok
  · cases hok
  · rename_i e he
    split at hok
    · cases hok
    · rename_i hu
      split at hok
      · cases hok
      · rename_i target htarget
        split at hok
        · cases hok
        · rename_i hut
          rw [h.reg] at he htarget
          obtain ⟨-, hcap, huser⟩ := h.held he hi' hu
          obtain ⟨-, hcap', huser'⟩ := h.held htarget hi hut
          exact newInterface_granting h hok (provides_held hcap huser _)
            (.inr ⟨_, _, hcap', huser', rfl⟩)

theorem handleSvcInterfaceToPassTo_served (h : KernelInv O k)
    (hi : k.ctx k.runnable 4 % 2 ^ 32 ≠ tableSize)
    (hok : handleSvcInterfaceToPassTo k k.runnable = .ok k' now) :
    Served O k k' (granting k k') now := by
  unfold handleSvcInterfaceToPassTo at hok
  split at hok
  · cases hok
  · split at hok
    · cases hok
    · rename_i e he
      split at hok
      · cases hok
      · rename_i hu
        rw [h.reg] at he
        obtain ⟨-, hcap, huser⟩ := h.held he hi hu
        exact newInterface_granting h hok (provides_own h _ _ _) (.inr ⟨_, _, hcap, huser, rfl⟩)

theorem handleSvcInterfaceToReturn_served (h : KernelInv O k)
    (hf : k.ctx k.runnable 41 ≠ frameAddress k.runnable 6)
    (hok : handleSvcInterfaceToReturn k k.runnable = .ok k' now) :
    Served O k k' (granting k k') now := by
  unfold handleSvcInterfaceToReturn at hok
  split at hok
  · cases hok
  · exact newInterface_granting h hok (provides_own h _ _ _) (h.caller hf)

/-- `Isambard_System_Service_Create_Map`: the new map belongs to the map that asked for it. -/
theorem createMap_served (h : KernelInv O k) (hf : k.ctx k.runnable 41 ≠ frameAddress k.runnable 6)
    (hok : createMap k k.runnable = .ok k' now) : Served O k k' (granting k k') now :=
  newInterface_granting h hok (provides_own h _ _ _) (h.caller hf)

end Interfaces

/-! ## Calls and returns -/

section Frames

variable {k k' k₁ : Kernel} {c : ℕ → ℕ → ℕ} {t i j m now : ℕ} {O : ℕ → Prop}

/-- The running thread goes to the map `m`: its registers, its stack pointer and one of its frames
are changed, and the map is loaded. -/
structure GoneTo (k k' : Kernel) (m : ℕ) : Prop where
  eq : ∃ c s l1 l2 l3, k' = { k with
    ctx := c, spEl0 := s, loadedMap := m, l1 := l1, l2 := l2, l3 := l3 }
  links : ∀ w, w < 4 ∨ w = 38 ∨ w = 42 → k'.ctx k.runnable w = k.ctx k.runnable w
  pointer : ∃ j, 2 ≤ j ∧ j ≤ 6 ∧ k'.ctx k.runnable 41 = frameAddress k.runnable j
  others : ∀ q, q ≠ k.runnable → ∀ w, k'.ctx q w = k.ctx q w
  map : field 32 32 (k'.ctx k.runnable 39) = m

/-- The thread runs, so no list depends on what was changed. -/
theorem GoneTo.keeps {rs qs : List ℕ} {rem : ℕ → ℕ} (h : GoneTo k k' m)
    (hs : SchedInv O k rs qs rem) : KeepsLists k k' := by
  have hlinks := h.links
  have hothers := h.others
  obtain ⟨j, h2, h6, hj⟩ := h.pointer
  obtain ⟨c, s, l1, l2, l3, rfl⟩ := h.eq
  have hword : ∀ q w, w < 4 ∨ w = 38 ∨ w = 42 → c q w = k.ctx q w := by
    intro q w hw
    by_cases hq : q = k.runnable
    · rw [hq]
      exact hlinks w hw
    · exact hothers q hq w
  refine ⟨rfl, rfl, rfl, rfl, rfl, rfl, ?_, ?_, ?_, ?_⟩
  · exact fun q w hw => hword q w (.inl hw)
  · exact fun q => .inl (hword q 38 (by decide))
  · intro q _ hheld
    have hq : q ≠ k.runnable := by
      rintro rfl
      exact hheld.elim hs.runs.1 hs.runs.2
    refine ⟨hothers q hq 5, hothers q hq 20, ?_⟩
    unfold lockOf
    rw [hothers q hq, hothers q hq]
  · rintro q _ ⟨hpointer, hlimit⟩
    refine ⟨?_, (hword q 42 (by decide)).trans hlimit⟩
    by_cases hq : q = k.runnable
    · rw [hq]
      exact ⟨j, h2, h6, hj⟩
    · rw [hothers q hq]
      exact hpointer

theorem GoneTo.served {x : KernelAction} (h : GoneTo k k' m) (hinv : KernelInv O k)
    (hstep : Domains.Step IsExit (world k) x ((world k).setThread k.runnable
      (activity k'.ctx k.runnable))) : Served O k k' x k.runnable := by
  obtain ⟨rs, qs, rem, hs⟩ := hinv.sched
  obtain ⟨c, s, l1, l2, l3, hk'⟩ := h.eq
  have hmem : ∀ q, q ∈ k'.contexts ↔ q = k.runnable ∨ q ∈ k.contexts := by
    intro q
    rw [hk']
    refine ⟨.inr, ?_⟩
    rintro (rfl | hq)
    · exact hinv.mem
    · exact hq
  have hi : k'.interfaces = k.interfaces := by rw [hk']
  have hf : k'.freeInterface = k.freeInterface := by rw [hk']
  refine ⟨⟨rs, qs, rem, hs.congr (h.keeps hs)⟩, by rw [hk'],
    hinv.table.congr hi hf (by rw [hk']), ?_, ?_⟩
  · rw [world_setThread hmem
      (fun q _ hq => activity_congr fun w _ => h.others q hq w) hi hf]
    exact hstep
  · intro _
    rw [currentMap_of_mem ((hmem _).2 (.inl rfl)), h.map, hk']

/-- What `pushFrame` does to the words of the contexts. -/
def pushed (c : ℕ → ℕ → ℕ) (t j sp : ℕ) : ℕ → ℕ → ℕ :=
  let c := setCtx c t 41 (frameAddress t j)
  let c := setCtx c t (43 + 3 * j) sp
  let c := setCtx c t (44 + 3 * j) (c t 36)
  setCtx c t (45 + 3 * j) (setField 0 32 (field 32 32 (c t 39)) (c t (45 + 3 * j)))

theorem pushFrame_eq (hpl : Placed k) (ht : t ∈ k.contexts) (hj : j ≤ 5)
    (hs : k.ctx t 41 = frameAddress t (j + 1)) :
    pushFrame k t = k.withCtx (pushed k.ctx t j k.spEl0) := by
  have htop := hpl.top t ht
  have hsub : (frameAddress t (j + 1) + 2 ^ 64 - 24) % 2 ^ 64 = frameAddress t j := by
    unfold frameAddress contextSize startAddress heapTop at *
    omega
  have h43 : frameAddress t j = t + 8 * (43 + 3 * j) := rfl
  have h44 : frameAddress t j + 8 = t + 8 * (44 + 3 * j) := by
    unfold frameAddress
    omega
  have h45 : frameAddress t j + 16 = t + 8 * (45 + 3 * j) := by
    unfold frameAddress
    omega
  have hpl' : ∀ c, Placed (k.withCtx c) := fun c => hpl.withCtx c
  have hstore : ∀ c a w v, a = t + 8 * w → w < 61 →
      (k.withCtx c).store64 a v = k.withCtx (setCtx c t w v) := by
    rintro c a w v rfl hw
    rw [(hpl' c).store64 ht hw]
    rfl
  have hload : ∀ c a w, a = t + 8 * w → w < 61 → (k.withCtx c).load64 a = c t w := by
    rintro c a w rfl hw
    exact (hpl' c).load64 ht hw
  have hfld : ∀ c w, (k.withCtx c).fld t w = c t w :=
    fun c w => fld_of_mem (k := k.withCtx c) ht w
  have hmap : ∀ c, (k.withCtx c).currentMap t = field 32 32 (c t 39) :=
    fun c => currentMap_of_mem (k := k.withCtx c) ht
  have hself : ∀ c w v, setCtx c t w v t w = v := by simp
  have hother : ∀ c w v, 41 < w → setCtx c t w v t 41 = c t 41 := by
    intro c w v hw
    rw [setCtx_apply, if_neg (by omega)]
  have hset : k.setStackPointer t ((k.fld t 41 + 2 ^ 64 - 24) % 2 ^ 64) =
      k.withCtx (setCtx k.ctx t 41 (frameAddress t j)) := by
    rw [Kernel.setStackPointer, setFld_of_mem ht, fld_of_mem ht, hs, hsub]
  unfold pushFrame pushed
  simp only [hset, Kernel.stackPointer, Kernel.pc, hfld, hself]
  rw [hstore _ _ _ _ h43 (by omega)]
  simp only [hfld, hother _ _ _ (show 41 < 43 + 3 * j by omega), hself]
  rw [hstore _ _ _ _ h44 (by omega)]
  simp only [hfld, hother _ _ _ (show 41 < 43 + 3 * j by omega),
    hother _ _ _ (show 41 < 44 + 3 * j by omega), hself]
  rw [hload _ _ _ h45 (by omega), hmap, hstore _ _ _ _ h45 (by omega)]
  rfl

/-- The words of the thread that a pushed frame leaves alone. -/
theorem pushed_other {sp q w : ℕ} (h : q ≠ t ∨ w < 41 ∨ w = 42 ∨ 46 + 3 * j ≤ w) :
    pushed c t j sp q w = c q w := by
  unfold pushed
  simp only [setCtx_apply]
  rw [if_neg (by omega), if_neg (by omega), if_neg (by omega), if_neg (by omega)]

theorem setCtx_same (c : ℕ → ℕ → ℕ) (p w v : ℕ) : setCtx c p w v p w = v := by simp

theorem setCtx_word {p w v q u : ℕ} (h : u ≠ w) : setCtx c p w v q u = c q u := by
  rw [setCtx_apply, if_neg fun heq => h heq.2]

theorem pushed_pointer {sp : ℕ} : pushed c t j sp t 41 = frameAddress t j := by
  unfold pushed
  rw [setCtx_word (by omega), setCtx_word (by omega), setCtx_word (by omega), setCtx_same]

/-- The frame says who called, and where that goes on. -/
theorem pushed_frame {sp : ℕ} :
    frameAt (pushed c t j sp) t j = ⟨field 32 32 (c t 39), (sp, c t 36)⟩ := by
  have hmap : field 0 32 (pushed c t j sp t (45 + 3 * j)) = field 32 32 (c t 39) := by
    unfold pushed
    rw [setCtx_same, field_setField, setCtx_word (by omega), setCtx_word (by omega),
      setCtx_word (by omega), Nat.mod_eq_of_lt (field_lt 32 32 _)]
  have hsp : pushed c t j sp t (43 + 3 * j) = sp := by
    unfold pushed
    rw [setCtx_word (by omega), setCtx_word (by omega), setCtx_same]
  have hpc : pushed c t j sp t (44 + 3 * j) = c t 36 := by
    unfold pushed
    rw [setCtx_word (by omega), setCtx_same, setCtx_word (by omega), setCtx_word (by omega)]
  unfold frameAt
  rw [hmap, hsp, hpc]

theorem changeMap_ok (ht : t ∈ k.contexts) (h : changeMap k t m = .ok k' ()) :
    m ≤ k.lastInterface ∧ ∃ l1 l2 l3, k' = { k with
      ctx := setCtx k.ctx t 39 (setField 32 32 m (k.ctx t 39))
      loadedMap := m, l1 := l1, l2 := l2, l3 := l3 } := by
  obtain ⟨n, l1, l2, l3, hload⟩ := loadThisMap_tables k m
  have hn : m = n := by
    rw [← loadThisMap_loadedMap k m, hload]
  rw [changeMap_eq] at h
  split at h
  · cases h
  · split at h
    · cases h
    · rename_i hle
      cases h
      refine ⟨not_lt.1 hle, l1, l2, l3, ?_⟩
      rw [Kernel.setCurrentMap, hload, fld_of_mem (by exact ht), setFld_of_mem (by exact ht), hn]
      rfl

/-- A call by the interface `e`, which has left the frame `j`. -/
structure Called (k k' : Kernel) (e : Interface) (j : ℕ) : Prop where
  cap : (world k).caps (k.ctx k.runnable 4 % 2 ^ 32) = some (capOf e)
  user : (capOf e).user = (activity k.ctx k.runnable).domain
  gone : GoneTo k k' e.provider
  spEl0 : k'.spEl0 = k.spEl0
  lower : 2 ≤ j
  upper : j ≤ 5
  before : k.ctx k.runnable 41 = frameAddress k.runnable (j + 1)
  pointer : k'.ctx k.runnable 41 = frameAddress k.runnable j
  frame : frameAt k'.ctx k.runnable j =
    ⟨field 32 32 (k.ctx k.runnable 39), (k.spEl0, k.ctx k.runnable 36)⟩
  words : ∀ w, 46 + 3 * j ≤ w → k'.ctx k.runnable w = k.ctx k.runnable w
  pc : k'.ctx k.runnable 36 = e.handler
  argument : k'.ctx k.runnable 4 = e.object

theorem Called.frames {e : Interface} (h : Called k k' e j) :
    frames k'.ctx k.runnable = ⟨field 32 32 (k.ctx k.runnable 39),
      (k.spEl0, k.ctx k.runnable 36)⟩ :: frames k.ctx k.runnable := by
  rw [frames_push h.before h.pointer h.upper h.words, h.frame]

theorem Called.served {e : Interface} (h : Called k k' e j) (hinv : KernelInv O k) :
    Served O k k' (.call k.runnable (k.ctx k.runnable 4 % 2 ^ 32) (k.spEl0, k.ctx k.runnable 36))
      k.runnable := by
  refine h.gone.served hinv ?_
  have hact : activity k'.ctx k.runnable = ⟨(capOf e).provider,
      ⟨(activity k.ctx k.runnable).domain, (k.spEl0, k.ctx k.runnable 36)⟩ ::
        (activity k.ctx k.runnable).frames⟩ := by
    unfold activity
    rw [h.frames, h.gone.map]
    rfl
  rw [hact]
  exact .call (world_thread hinv.mem) h.cap h.user

/-- The words of the context then. -/
theorem called_words {e : Interface} {v : ℕ} {a b c : ℕ → ℕ}
    (hcap : (world k).caps (k.ctx k.runnable 4 % 2 ^ 32) = some (capOf e))
    (huser : (capOf e).user = (activity k.ctx k.runnable).domain) (h2 : 2 ≤ j) (h5 : j ≤ 5)
    (hn : k.ctx k.runnable 41 = frameAddress k.runnable (j + 1))
    (hv : field 32 32 v = e.provider) (hk' : k' = { k with
      ctx := setCtx (setCtx (pushed (setCtx k.ctx k.runnable 4 e.object) k.runnable j k.spEl0)
        k.runnable 39 v) k.runnable 36 e.handler
      loadedMap := e.provider, l1 := a, l2 := b, l3 := c }) : Called k k' e j := by
  have hctx : k'.ctx = setCtx (setCtx (pushed (setCtx k.ctx k.runnable 4 e.object) k.runnable j
      k.spEl0) k.runnable 39 v) k.runnable 36 e.handler := by rw [hk']
  have hword : ∀ w, w ≠ 36 → w ≠ 39 → k'.ctx k.runnable w =
      pushed (setCtx k.ctx k.runnable 4 e.object) k.runnable j k.spEl0 k.runnable w := by
    intro w h36 h39
    rw [hctx, setCtx_word h36, setCtx_word h39]
  have hkept : ∀ w, w < 4 ∨ w = 38 ∨ w = 42 ∨ 46 + 3 * j ≤ w →
      k'.ctx k.runnable w = k.ctx k.runnable w := by
    intro w hw
    rw [hword w (by omega) (by omega), pushed_other (by omega), setCtx_word (by omega)]
  have hpointer : k'.ctx k.runnable 41 = frameAddress k.runnable j := by
    rw [hword 41 (by decide) (by decide), pushed_pointer]
  refine ⟨hcap, huser, ⟨?_, ?_, ?_, ?_, ?_⟩, by rw [hk'], h2, h5, hn, hpointer, ?_, ?_, ?_, ?_⟩
  · exact ⟨_, k.spEl0, a, b, c, hk'⟩
  · exact fun w hw => hkept w (by omega)
  · exact ⟨j, h2, by omega, hpointer⟩
  · intro q hq w
    rw [hctx, setCtx_apply, if_neg fun heq => hq heq.1, setCtx_apply, if_neg fun heq => hq heq.1,
      pushed_other (.inl hq), setCtx_apply, if_neg fun heq => hq heq.1]
  · rw [hctx, setCtx_word (by decide), setCtx_same, hv]
  · have hframe : frameAt k'.ctx k.runnable j = frameAt (pushed (setCtx k.ctx k.runnable 4 e.object)
        k.runnable j k.spEl0) k.runnable j :=
      frameAt_congr fun w hw => hword w (by omega) (by omega)
    rw [hframe, pushed_frame, setCtx_word (by decide), setCtx_word (by decide)]
  · exact fun w hw => hkept w (by omega)
  · rw [hctx, setCtx_same]
  · rw [hword 4 (by decide) (by decide), pushed_other (by omega), setCtx_same]

/-- The kernel answers the call for a physical address itself. -/
theorem physicalAddressOf_keeps (h : KernelInv O k)
    (hok : physicalAddressOf k k.runnable = .ok k' now) :
    now = k.runnable ∧ KeepsLists k k' ∧ SameDomains k k' := by
  obtain ⟨rs, qs, rem, hs⟩ := h.sched
  unfold physicalAddressOf at hok
  cases hw : addressIsUserWritable k k.runnable (k.reg k.runnable 2) with
  | halt k₁ =>
    rw [hw] at hok
    cases hok
  | ok k₁ b =>
    rw [hw] at hok
    cases b with
    | false => cases hok
    | true =>
      obtain ⟨-, l1, l2, l3, hk₁⟩ := addressIsUserWritable_ok hw
      have hs₁ : SchedInv O k₁ rs qs rem := hk₁ ▸ hs.tables l1 l2 l3
      have hrun : k₁.runnable = k.runnable := by rw [hk₁]
      have hset := fun v => hs₁.setReg (i := 0) (by decide) v
      have hkeep : KeepsLists k k₁ := by
        rw [hk₁]
        exact .of_ctx rfl rfl rfl rfl rfl rfl rfl
      have hsame : SameDomains k k₁ := by
        rw [hk₁]
        exact ⟨rfl, fun _ _ _ => rfl, rfl, rfl, rfl⟩
      rw [hrun] at hset
      simp only at hok
      split at hok
      · cases hok
        exact ⟨rfl, hkeep.trans (hset _).1, hsame.trans (hset _).2⟩
      · cases hok

/-- The argument of a call, and its frame. -/
theorem pushFrame_argument {v : ℕ} (h : KernelInv O k) (hj : j ≤ 5)
    (hn : k.ctx k.runnable 41 = frameAddress k.runnable (j + 1)) :
    pushFrame (k.setReg k.runnable 0 v) k.runnable =
      k.withCtx (pushed (setCtx k.ctx k.runnable 4 v) k.runnable j k.spEl0) := by
  obtain ⟨_, _, _, hs⟩ := h.sched
  have hset : k.setReg k.runnable 0 v = k.withCtx (setCtx k.ctx k.runnable 4 v) :=
    setFld_of_mem h.mem 4 _
  have h41 : (k.withCtx (setCtx k.ctx k.runnable 4 v)).ctx k.runnable 41 =
      frameAddress k.runnable (j + 1) := (setCtx_word (by decide)).trans hn
  rw [hset, pushFrame_eq (k := k.withCtx (setCtx k.ctx k.runnable 4 v))
    (hs.gate.placed.withCtx _) h.mem hj h41]
  rfl

/-- `ISAMBARD_CALL`, for a thread that has room for a frame. -/
theorem handleCall_ok (h : KernelInv O k) (hi : k.ctx k.runnable 4 % 2 ^ 32 ≠ tableSize)
    (hok : handleCall k k.runnable = .ok k' now) : now = k.runnable ∧
      (KeepsLists k k' ∧ SameDomains k k' ∨ ∃ e j, Called k k' e j) := by
  obtain ⟨rs, qs, rem, hs⟩ := h.sched
  have hpl := hs.gate.placed
  unfold handleCall at hok
  split at hok
  · cases hok
  · split at hok
    · cases hok
    · rename_i e he
      split at hok
      · obtain ⟨rfl, hkeep⟩ := physicalAddressOf_keeps h hok
        exact ⟨rfl, .inl hkeep⟩
      · split at hok
        · cases hok
        · rename_i hu
          rw [h.reg] at he
          obtain ⟨hei, hcap, huser⟩ := h.held he hi hu
          obtain ⟨n, h2, h6, hn⟩ := h.pointer h.mem
          obtain ⟨j, rfl⟩ : ∃ j, n = j + 1 := ⟨n - 1, by omega⟩
          have hlimit := (hs.frames _ h.mem).limit
          have hpush := pushFrame_argument h (v := e.object) (show j ≤ 5 by omega) hn
          simp only [hpush] at hok
          set c := pushed (setCtx k.ctx k.runnable 4 e.object) k.runnable j k.spEl0 with hc
          have hfld : ∀ w, (k.withCtx c).fld k.runnable w = c k.runnable w :=
            fun w => fld_of_mem (k := k.withCtx c) h.mem w
          have h42 : c k.runnable 42 = frameAddress k.runnable 0 := by
            rw [hc, pushed_other (by omega), setCtx_word (by decide), hlimit]
          have h39 : c k.runnable 39 = k.ctx k.runnable 39 := by
            rw [hc, pushed_other (by omega), setCtx_word (by decide)]
          have he' : ((k.withCtx c).interfaces (k.reg k.runnable 0 % 2 ^ 32)) = e := by
            rw [h.reg]
            exact hei.symm
          have h41 : c k.runnable 41 = frameAddress k.runnable j := by
            rw [hc, pushed_pointer]
          simp only [Kernel.stackPointer, Kernel.stackLimit, hfld, h41, h42, he'] at hok
          split at hok
          · cases hok
          · rename_i hroom
            have hlow : 2 ≤ j := by
              unfold frameAddress at hroom
              omega
            split at hok
            · cases hch : changeMap (k.withCtx c) k.runnable e.provider with
              | halt k₃ =>
                rw [hch] at hok
                cases hok
              | ok k₃ u =>
                obtain ⟨hle, l1, l2, l3, hk₃⟩ := changeMap_ok (k := k.withCtx c) h.mem hch
                rw [hch] at hok
                simp only at hok
                cases hok
                refine ⟨rfl, .inr ⟨e, j, called_words hcap huser hlow (by omega) hn (a := l1)
                  (b := l2) (c := l3) (v := setField 32 32 e.provider (c k.runnable 39)) ?_ ?_⟩⟩
                · have hlast := h.table.last
                  change e.provider ≤ k.lastInterface at hle
                  rw [field_setField, Nat.mod_eq_of_lt]
                  unfold tableSize at hlast
                  omega
                · have hint : k₃.interfaces (k.reg k.runnable 0 % 2 ^ 32) = e := by
                    rw [hk₃]
                    exact he'
                  rw [hint, Kernel.setPc, setFld_of_mem (by rw [hk₃]; exact h.mem), hk₃]
                  rfl
            · rename_i hsame
              cases hok
              have hmap : field 32 32 (c k.runnable 39) = e.provider := by
                rw [not_not, currentMap_of_mem (k := k.withCtx c) h.mem] at hsame
                exact hsame.symm
              have hload : k.loadedMap = e.provider := by
                rw [h.loaded, currentMap_of_mem h.mem, ← h39, hmap]
              refine ⟨rfl, .inr ⟨e, j, called_words hcap huser hlow (by omega) hn (a := k.l1)
                (b := k.l2) (c := k.l3) hmap ?_⟩⟩
              rw [Kernel.setPc, setFld_of_mem (k := k.withCtx c) h.mem, ← hc, setCtx_self, ← hload]
              rfl

/-- The frame at the stack pointer. -/
theorem callerWords (hpl : Placed k) (ht : t ∈ k.contexts) (hj : j ≤ 5)
    (hs : k.ctx t 41 = frameAddress t j) :
    k.callerSp (k.stackPointer t) = k.ctx t (43 + 3 * j) ∧
      k.callerReturnAddress (k.stackPointer t) = k.ctx t (44 + 3 * j) := by
  have hsp : k.stackPointer t = frameAddress t j := (fld_of_mem ht 41).trans hs
  have h44 : frameAddress t j + 8 = t + 8 * (44 + 3 * j) := by
    unfold frameAddress
    omega
  constructor
  · rw [hsp]
    exact hpl.load64 ht (by omega)
  · rw [hsp, Kernel.callerReturnAddress, h44]
    exact hpl.load64 ht (by omega)

/-- A return through the frame `j`. -/
structure Returned (k k' : Kernel) (j : ℕ) : Prop where
  gone : GoneTo k k' (frameAt k.ctx k.runnable j).domain
  upper : j ≤ 5
  before : k.ctx k.runnable 41 = frameAddress k.runnable j
  pointer : k'.ctx k.runnable 41 = frameAddress k.runnable (j + 1)
  words : ∀ w, 43 ≤ w → k'.ctx k.runnable w = k.ctx k.runnable w
  resume : (frameAt k.ctx k.runnable j).resume = (k'.spEl0, k'.ctx k.runnable 36)
  overflow : field 28 1 (k'.ctx k.runnable 37) = 0

theorem Returned.frames (h : Returned k k' j) :
    frames k.ctx k.runnable = frameAt k.ctx k.runnable j :: frames k'.ctx k.runnable :=
  frames_push h.pointer h.before h.upper fun w hw => (h.words w (by omega)).symm

theorem Returned.served (h : Returned k k' j) (hinv : KernelInv O k) :
    Served O k k' (.ret k.runnable (k'.spEl0, k'.ctx k.runnable 36)) k.runnable := by
  refine h.gone.served hinv ?_
  have hthread := world_thread hinv.mem
  unfold activity at hthread ⊢
  rw [h.frames] at hthread
  rw [h.gone.map, ← h.resume]
  exact .ret hthread

/-- The words of the context then. -/
theorem returned_words {v x : ℕ} {a b c : ℕ → ℕ} (h2 : 2 ≤ j) (h5 : j ≤ 5)
    (hn : k.ctx k.runnable 41 = frameAddress k.runnable j)
    (hv : field 32 32 v = (frameAt k.ctx k.runnable j).domain) (hx : field 28 1 x = 0)
    (hk' : k' = { k with
      ctx := setCtx (setCtx (setCtx (setCtx k.ctx k.runnable 36 (k.ctx k.runnable (44 + 3 * j)))
        k.runnable 39 v) k.runnable 41 (frameAddress k.runnable (j + 1))) k.runnable 37 x
      spEl0 := k.ctx k.runnable (43 + 3 * j)
      loadedMap := (frameAt k.ctx k.runnable j).domain, l1 := a, l2 := b, l3 := c }) :
    Returned k k' j := by
  have hctx : k'.ctx = setCtx (setCtx (setCtx (setCtx k.ctx k.runnable 36
      (k.ctx k.runnable (44 + 3 * j))) k.runnable 39 v) k.runnable 41
      (frameAddress k.runnable (j + 1))) k.runnable 37 x := by rw [hk']
  have hkept : ∀ w, w ≠ 36 → w ≠ 37 → w ≠ 39 → w ≠ 41 →
      k'.ctx k.runnable w = k.ctx k.runnable w := by
    intro w h36 h37 h39 h41
    rw [hctx, setCtx_word h37, setCtx_word h41, setCtx_word h39, setCtx_word h36]
  have hpointer : k'.ctx k.runnable 41 = frameAddress k.runnable (j + 1) := by
    rw [hctx, setCtx_word (by decide), setCtx_same]
  refine ⟨⟨?_, ?_, ?_, ?_, ?_⟩, h5, hn, hpointer, ?_, ?_, ?_⟩
  · exact ⟨_, _, a, b, c, hk'⟩
  · exact fun w hw => hkept w (by omega) (by omega) (by omega) (by omega)
  · exact ⟨j + 1, by omega, by omega, hpointer⟩
  · intro q hq w
    rw [hctx]
    simp only [setCtx_apply, hq, false_and, if_false]
  · rw [hctx, setCtx_word (by decide), setCtx_word (by decide), setCtx_same, hv]
  · exact fun w hw => hkept w (by omega) (by omega) (by omega) (by omega)
  · have hpc : k'.ctx k.runnable 36 = k.ctx k.runnable (44 + 3 * j) := by
      rw [hctx, setCtx_word (by decide), setCtx_word (by decide), setCtx_word (by decide),
        setCtx_same]
    rw [hpc, hk']
    rfl
  · rw [hctx, setCtx_same, hx]

/-- The flag that says that a call has ended with an exception. -/
theorem overflow_clear (s r : ℕ) : field 28 1 (setField 0 32 (setField 28 1 0 s) r) = 0 := by
  have hflag := field_setField 28 1 0 s
  rw [setField_zero]
  generalize setField 28 1 0 s = v at hflag
  unfold field at *
  omega

/-- The end of a return: the frame is dropped, and the flag is set. -/
theorem dropFrame_eq (hpl : Placed k) (ht : t ∈ k.contexts) (hj : j ≤ 5)
    (hs : k.ctx t 41 = frameAddress t j) : ∃ x, field 28 1 x = 0 ∧
      (k.setStackPointer t ((k.stackPointer t + 24) % 2 ^ 64)).setSpsr t (setField 28 1 0
        ((k.setStackPointer t ((k.stackPointer t + 24) % 2 ^ 64)).spsr t)) =
      k.withCtx (setCtx (setCtx k.ctx t 41 (frameAddress t (j + 1))) t 37 x) := by
  have htop := hpl.top t ht
  have hadd : (frameAddress t j + 24) % 2 ^ 64 = frameAddress t (j + 1) := by
    unfold frameAddress contextSize startAddress heapTop at *
    omega
  have hset : k.setStackPointer t ((k.stackPointer t + 24) % 2 ^ 64) =
      k.withCtx (setCtx k.ctx t 41 (frameAddress t (j + 1))) := by
    rw [Kernel.setStackPointer, setFld_of_mem ht, Kernel.stackPointer, fld_of_mem ht, hs, hadd]
  rw [hset, Kernel.setSpsr, setFld_of_mem (by exact ht), withCtx_withCtx]
  exact ⟨_, overflow_clear _ _, rfl⟩

/-- `ISAMBARD_RETURN`, for a thread that has not left its outermost frame. -/
theorem handleReturn_ok (h : KernelInv O k)
    (hf : k.ctx k.runnable 41 ≠ frameAddress k.runnable 6)
    (hok : handleReturn k k.runnable = .ok k' now) :
    now = k.runnable ∧ ∃ j, Returned k k' j := by
  obtain ⟨rs, qs, rem, hs⟩ := h.sched
  have hpl := hs.gate.placed
  obtain ⟨j, fs, h2, h5, hj, -⟩ := h.frame hf
  have hret := (callerWords hpl h.mem h5 hj).2
  set c := setCtx k.ctx k.runnable 36 (k.ctx k.runnable (44 + 3 * j)) with hc
  have hpc : k.setPc k.runnable (k.callerReturnAddress (k.stackPointer k.runnable)) =
      k.withCtx c := by
    rw [hret]
    exact setFld_of_mem h.mem 36 _
  have hword : ∀ w, w ≠ 36 → c k.runnable w = k.ctx k.runnable w := fun w hw => setCtx_word hw
  have hj' : (k.withCtx c).ctx k.runnable 41 = frameAddress k.runnable j :=
    (hword 41 (by decide)).trans hj
  have hsp := (callerWords (k := k.withCtx c) (hpl.withCtx c) h.mem h5 hj').1
  unfold handleReturn popFrame at hok
  simp only [hpc, hsp] at hok
  -- the kernel with the stack pointer of the frame
  set k₂ : Kernel := { k.withCtx c with spEl0 := (k.withCtx c).ctx k.runnable (43 + 3 * j) }
    with hk₂
  have hmap := callerMap_eq (k := k₂) (hpl.congr rfl rfl) h.mem h5 hj'
  have hdom : field 0 32 (k₂.ctx k.runnable (45 + 3 * j)) =
      (frameAt k.ctx k.runnable j).domain := by
    show field 0 32 (c k.runnable (45 + 3 * j)) = _
    rw [hword _ (by omega)]
    rfl
  have hsp₂ : k₂.spEl0 = k.ctx k.runnable (43 + 3 * j) := hword _ (by omega)
  rw [hmap, hdom] at hok
  split at hok
  · cases hch : changeMap k₂ k.runnable (frameAt k.ctx k.runnable j).domain with
    | halt k₃ =>
      rw [hch] at hok
      cases hok
    | ok k₃ u =>
      obtain ⟨hle, l1, l2, l3, hk₃⟩ := changeMap_ok (k := k₂) h.mem hch
      have hj₃ : k₃.ctx k.runnable 41 = frameAddress k.runnable j := by
        rw [hk₃]
        exact (setCtx_word (by decide)).trans hj'
      obtain ⟨x, hx, hdrop⟩ := dropFrame_eq (k := k₃)
        (hpl.congr (by rw [hk₃]; rfl) (by rw [hk₃]; rfl))
        (by rw [hk₃]; exact h.mem) h5 hj₃
      rw [hch] at hok
      simp only [hdrop] at hok
      cases hok
      refine ⟨rfl, j, returned_words h2 h5 hj (a := l1) (b := l2) (c := l3)
        (v := setField 32 32 (frameAt k.ctx k.runnable j).domain (c k.runnable 39)) ?_ hx ?_⟩
      · rw [field_setField]
        exact Nat.mod_eq_of_lt (field_lt 0 32 _)
      · rw [hk₃, ← hsp₂]
        rfl
  · rename_i hsame
    have hmem₂ : k.runnable ∈ k₂.contexts := h.mem
    obtain ⟨x, hx, hdrop⟩ := dropFrame_eq (k := k₂) (hpl.congr rfl rfl) hmem₂ h5 hj'
    simp only [hdrop] at hok
    cases hok
    have hmap₂ : field 32 32 (c k.runnable 39) = (frameAt k.ctx k.runnable j).domain := by
      rw [not_not, currentMap_of_mem hmem₂] at hsame
      exact hsame
    have hload : k.loadedMap = (frameAt k.ctx k.runnable j).domain := by
      rw [h.loaded, currentMap_of_mem h.mem, ← hmap₂, hword 39 (by decide)]
    refine ⟨rfl, j, returned_words h2 h5 hj (a := k.l1) (b := k.l2) (c := k.l3) hmap₂ hx ?_⟩
    rw [← hc, setCtx_self, ← hsp₂, ← hload]
    rfl

end Frames

end Isambard.El1
