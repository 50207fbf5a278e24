import Isambard.El1.Faults
import Isambard.El1.Svc

/-!
# El1.SystemMap — the map of the system driver on all cores

The entries of the system map are kept in `shared_system_map`, which the cores copy into
their own tables. Each core puts its stack page where the shared copy leaves a place. The
system driver adds device pages to the shared copy and to the table of the core it runs
on; the other cores get them when they load the map, or with `Updated_Map`.

* `loadSystemMap_l3`, `addDevicePage_ok`, `updatedMap_l3`: what each writes;
* `MapStep`: the requests and loads, on any cores;
* `run_systemMap`: what the cores have in their tables.
-/

namespace Isambard.El1

open Isambard.Lib

/-! ## Entries -/

def codeEntry (physical : ℕ) : ℕ :=
  Entry.shared 0 (Entry.writeBackMemory (Entry.el0Rx (Entry.pageAt physical)))

def dataEntry (physical : ℕ) : ℕ :=
  Entry.shared 3 (Entry.writeBackMemory (Entry.el0Rw (Entry.pageAt physical)))

def deviceEntry (physical : ℕ) : ℕ :=
  Entry.shared 3 (Entry.el0Rw (Entry.deviceMemory (Entry.pageAt physical)))

/-- The entry for the core's own `system_thread_stack`. -/
def stackEntry (k : Kernel) : ℕ :=
  Entry.shared 0 (Entry.writeBackMemory (Entry.el0Rw (Entry.pageAt k.physicalAddress)))

/-- The entry for page `i` of the system driver's code and data. -/
def driverEntry (start codePages i : ℕ) : ℕ :=
  if i < codePages then codeEntry (start + i * 4096)
  else dataEntry (start + codePages * 4096 + (i - codePages) * 4096)

/-- `initialise_system_map`: the stack page comes after the code and the data. The array
has 32 entries; where a larger driver's entries go is up to the linker. -/
def initialiseSystemMap (k : Kernel) (start codePages dataPages : ℕ) : Kernel :=
  let index := codePages + dataPages
  { k with
    sharedSystemMap := fun i =>
      if i < index then driverEntry start codePages i else k.sharedSystemMap i
    sharedSystemMapCorePage := index
    sharedSystemMapMappedPages := index + 1 }

section Entries

variable {e lo w v : ℕ}

/-- Attributes are not in the type of an entry, and not in its address. -/
theorem setField_page (h : 2 ≤ lo ∧ lo + w ≤ 12 ∨ 48 ≤ lo) :
    Entry.type (setField lo w v e) = Entry.type e ∧
      field 12 36 (setField lo w v e) = field 12 36 e := by
  constructor
  · exact field_setField_below (by omega) v e
  · rcases h with h | h
    · exact field_setField_above (by omega) v e
    · exact field_setField_below (by omega) v e

/-- The entry maps the page with the physical address `a`. -/
def MapsPage (e a : ℕ) : Prop := Entry.type e = 3 ∧ field 12 36 e = field 12 36 a

theorem MapsPage.ne_invalid {a : ℕ} (h : MapsPage e a) : e ≠ Entry.invalid := by
  rintro rfl
  exact absurd h.1 (by decide)

theorem MapsPage.set {a : ℕ} (h : MapsPage e a) (hf : 2 ≤ lo ∧ lo + w ≤ 12 ∨ 48 ≤ lo) :
    MapsPage (setField lo w v e) a :=
  ⟨(setField_page hf).1.trans h.1, (setField_page hf).2.trans h.2⟩

theorem mapsPage_pageAt (a : ℕ) : MapsPage (Entry.pageAt a) a :=
  ⟨field_setField 0 2 3 a, field_setField_above (by decide) 3 a⟩

theorem MapsPage.shared {a : ℕ} (h : MapsPage e a) (s : ℕ) : MapsPage (Entry.shared s e) a :=
  ((h.set (by decide)).set (by decide)).set (by decide)

theorem MapsPage.el0 {a : ℕ} (h : MapsPage e a) (x r : ℕ) : MapsPage (Entry.el0 x r e) a :=
  (((h.set (by decide)).set (by decide)).set (by decide)).set (by decide)

theorem mapsPage_code (a : ℕ) : MapsPage (codeEntry a) a :=
  (((mapsPage_pageAt a).el0 0 1).set (by decide)).shared 0

theorem mapsPage_data (a : ℕ) : MapsPage (dataEntry a) a :=
  (((mapsPage_pageAt a).el0 1 0).set (by decide)).shared 3

theorem mapsPage_device (a : ℕ) : MapsPage (deviceEntry a) a :=
  (((((mapsPage_pageAt a).set (by decide)).set (by decide)).set (by decide)).el0 1 0).shared 3

theorem driverEntry_ne_invalid (start codePages i : ℕ) :
    driverEntry start codePages i ≠ Entry.invalid := by
  unfold driverEntry
  split
  · exact (mapsPage_code _).ne_invalid
  · exact (mapsPage_data _).ne_invalid

end Entries

/-! ## What is written -/

section Writes

variable {k k' : Kernel} {t now : ℕ}

/-- A fresh load writes the shared entries, and then the core's own. -/
theorem loadSystemMap_l3 (k : Kernel) (i : ℕ) : (loadSystemMap k).l3 i =
    if i = k.sharedSystemMapCorePage then stackEntry k
    else if i < k.sharedSystemMapMappedPages then k.sharedSystemMap i
    else k.l3 i := by
  unfold loadSystemMap setL1 setL2 setL3
  simp only [show 0 < 16 by decide, if_true, Function.update_apply, fill, stackEntry]

/-- The tables lead to the level-3 table of the core. -/
structure Subtables (k : Kernel) : Prop where
  physical : k.physicalAddress = k.layout.corePhysical
  l1 : k.l1 0 = Entry.subtableAt (l2Physical k)
  l2 : k.l2 0 = Entry.subtableAt (l3Physical k)

theorem loadSystemMap_subtables (h : k.physicalAddress = k.layout.corePhysical) :
    Subtables (loadSystemMap k) := by
  unfold loadSystemMap setL1 setL2 setL3
  simp only [show 0 < 16 by decide, if_true]
  constructor
  · exact h
  · simp only [Function.update_self]
    rfl
  · simp only [Function.update_self]
    rfl

/-- The hardware finds the pages of the first 2MB in the level-3 table. -/
theorem Subtables.walk (h : Subtables k) {va a : ℕ} (hva : va < 2 ^ 21)
    (hm : MapsPage (k.l3 (va / 4096)) a) :
    walk k va = some (field 12 36 a * 4096 + va % 4096) := by
  have hphys := k.layout.corePhysical_aligned
  have hlt := k.layout.corePhysical_lt
  have h1 : k.l1 (va / 2 ^ 30) = Entry.subtableAt (k.layout.corePhysical + 8192) := by
    rw [Nat.div_eq_of_lt (by omega), h.l1, l2Physical, h.physical]
  have h2 : k.l2 (va / 2 ^ 21 % 512) = Entry.subtableAt (k.layout.corePhysical + 4096) := by
    rw [Nat.div_eq_of_lt hva, Nat.zero_mod, h.l2, l3Physical, h.physical]
  have htab2 := field_subtableAt (x := k.layout.corePhysical + 8192) (by omega) (by omega)
  have htab3 := field_subtableAt (x := k.layout.corePhysical + 4096) (by omega) (by omega)
  have hindex : va / 2 ^ 12 % 512 = va / 4096 := Nat.mod_eq_of_lt (by omega)
  have hleaf : leaf k va = some (k.l3 (va / 4096), 12) := by
    unfold leaf
    simp only [h1, h2, htab2, htab3, hindex, hm.1, type_subtableAt, show va < 2 ^ 34 by omega,
      show ¬ (3 = 1) by decide, and_self, if_true, if_false]
  unfold Isambard.El1.walk
  rw [hleaf]
  simp [hm.2]

/-- `Updated_Map` copies the shared entries beyond the stack page. -/
theorem updatedMap_l3 (h : updatedMap k t = .ok k' now) :
    ∃ l3, k' = { k with l3 := l3 } ∧ ∀ i, l3 i =
      if k.sharedSystemMapCorePage < i ∧ i < k.sharedSystemMapMappedPages then k.sharedSystemMap i
      else k.l3 i := by
  cases h
  exact ⟨_, rfl, fun _ => rfl⟩

/-- The stack that messages are left on is not one of the modelled variables. -/
theorem Placed.place_coreStack (h : Placed k) {i : ℕ} (hi : i < 512) :
    k.place (coreStackEntry k i) = .mem (coreStackEntry k i) := by
  have hl := layout_le k
  have hlow : startAddress ≤ coreStackEntry k i := by
    unfold coreStackEntry
    omega
  unfold Kernel.place
  rw [h.contextAt_none (by unfold coreStackEntry; omega)]
  unfold coreStackEntry runnableAddress interruptThreadAddress blockedWithTimeoutAddress
    coreNumberAddress physicalAddressAddress at *
  simp only [not_isLow hlow, if_false]
  rw [if_neg (by omega), if_neg (by omega), if_neg (by omega), if_neg (by omega),
    if_neg (by omega), if_neg (by omega), if_neg (by omega), if_neg (by omega), if_neg (by omega),
    if_neg (by omega)]

/-- A device page that is accepted is put into both tables. -/
theorem addDevicePage_ok (hpl : Placed k) (ht : t ∈ k.contexts)
    (h : addDevicePage k t = .ok k' now) :
    let page := k.reg t 2 / 4096 % 2 ^ 32
    let entry := deviceEntry (k.reg t 1)
    page < 32 ∧ k.sharedSystemMap page = Entry.invalid ∧ now = t ∧ ∃ c u, k' = { k with
      ctx := c
      mem := u
      l3 := Function.update k.l3 page entry
      sharedSystemMap := Function.update k.sharedSystemMap page entry
      sharedSystemMapMappedPages :=
        if page ≥ k.sharedSystemMapMappedPages then page + 1
        else k.sharedSystemMapMappedPages } := by
  have hset : ∀ v, k.setWord (coreStackEntry k 4) v =
      { k with mem := Function.update k.mem (coreStackEntry k 4) v } := by
    intro v
    rw [Kernel.setWord, hpl.place_coreStack (by decide)]
  have hreg : ∀ k₁ : Kernel, k₁.contexts = k.contexts → ∀ v,
      k₁.setReg t 0 v = k₁.withCtx (setCtx k₁.ctx t 4 v) := by
    intro k₁ hc v
    rw [Kernel.setReg, setFld_of_mem (hc ▸ ht)]
  unfold addDevicePage at h
  unfold deviceEntry
  simp only [hset] at h ⊢
  generalize k.reg t 2 / 4096 % 2 ^ 32 = page at h ⊢
  generalize Entry.shared 3 (Entry.el0Rw (Entry.deviceMemory (Entry.pageAt (k.reg t 1)))) =
    entry at h ⊢
  generalize Function.update k.mem (coreStackEntry k 4) (k.reg t 2) = u at h
  split at h
  · cases h
  rename_i hpage
  split at h
  · cases h
  rename_i hinvalid
  refine ⟨by omega, not_not.1 hinvalid, ?_⟩
  unfold setL3 at h
  by_cases hmapped : page ≥ k.sharedSystemMapMappedPages
  · rw [if_pos hmapped, hreg] at h
    · cases h
      rw [if_pos hmapped]
      exact ⟨rfl, setCtx k.ctx t 4 (page * 4096), u, rfl⟩
    · rfl
  · rw [if_neg hmapped, hreg] at h
    · cases h
      rw [if_neg hmapped]
      exact ⟨rfl, setCtx k.ctx t 4 (page * 4096), u, rfl⟩
    · rfl

/-- The tables after a fresh `load_system_map`. -/
def freshSystemMap (k : Kernel) : Kernel := loadSystemMap (clearCoreTranslationTables k)

theorem freshSystemMap_same (k : Kernel) : SameMaps k (freshSystemMap k) :=
  (clearCoreTranslationTables_same k).trans (loadSystemMap_same _)

theorem freshSystemMap_subtables (h : k.physicalAddress = k.layout.corePhysical) :
    Subtables (freshSystemMap k) :=
  loadSystemMap_subtables (k := clearCoreTranslationTables k) h

theorem freshSystemMap_l3 (k : Kernel) {i : ℕ} (hi : i < 512) : (freshSystemMap k).l3 i =
    if i = k.sharedSystemMapCorePage then stackEntry k
    else if i < k.sharedSystemMapMappedPages then k.sharedSystemMap i
    else Entry.invalid := by
  unfold freshSystemMap
  rw [loadSystemMap_l3]
  simp only [clearCoreTranslationTables, fill, hi, if_true]
  rfl

theorem loadThisMap_system (h : k.loadedMap ≠ systemMapIndex) :
    loadThisMap k systemMapIndex = freshSystemMap k := by
  unfold loadThisMap freshSystemMap
  simp only [h, ne_eq, not_false_eq_true, if_true,
    show systemMapIndex ≠ memoryAllocatorMapIndex by decide, if_false]
  rfl

/-- A request that goes on with the same thread changes no map. -/
theorem systemDriverRequest_add (hpl : Placed k) (ht : t ∈ k.contexts) (hcode : k.reg t 0 = 2)
    (h : systemDriverRequest k t = .ok k' now) : addDevicePage k t = .ok k' now := by
  unfold systemDriverRequest serveRequest at h
  rw [hcode] at h
  simp only [Request.ofCode] at h
  cases ha : addDevicePage k t with
  | halt k₁ =>
    rw [ha] at h
    cases h
  | ok k₁ now₁ =>
    have hnow := (addDevicePage_ok hpl ht ha).2.2.1
    rw [ha] at h
    simp only [hnow, ne_eq, not_true_eq_false, false_and, if_false] at h
    rw [← h, hnow]

theorem systemDriverRequest_updated (hcode : k.reg t 0 = 3)
    (h : systemDriverRequest k t = .ok k' now) : updatedMap k t = .ok k' now := by
  unfold systemDriverRequest serveRequest at h
  rw [hcode] at h
  simp only [Request.ofCode, updatedMap, ne_eq, not_true_eq_false, false_and, if_false] at h
  exact h

end Writes

/-! ## The cores -/

/-- The cores, each as it sees the kernel, and what an observer remembers of the device
pages, as pairs of a physical and a virtual address. -/
structure Cores (ι : Type) where
  core : ι → Kernel
  /-- the pages accepted so far -/
  accepted : List (ℕ × ℕ)
  /-- those that the core has accepted itself, or that had been accepted when it last
  loaded the map or updated its table -/
  seen : ι → List (ℕ × ℕ)

/-- What happens in a step, on which core. -/
inductive MapEvent (ι : Type) where
  | addDevicePage (c : ι) (pa va : ℕ)
  | updatedMap (c : ι)
  | load (c : ι) (m : ℕ)
  | elsewhere

section Cores

variable {ι : Type} [DecidableEq ι]

/-- The core `c` goes on as `k`; the others have the variables of the shared map from it. -/
def Cores.publish (s : Cores ι) (c : ι) (k : Kernel) (d : ι) : Kernel :=
  if d = c then k
  else { s.core d with
    sharedSystemMap := k.sharedSystemMap
    sharedSystemMapMappedPages := k.sharedSystemMapMappedPages }

/-- What else a core may do: it leaves the shared map alone, and its tables while they are
those of the system map. -/
structure Elsewhere (k k' : Kernel) : Prop where
  placed : Placed k'
  layout : k'.layout = k.layout
  physicalAddress : k'.physicalAddress = k.physicalAddress
  loadedMap : k'.loadedMap = k.loadedMap
  sharedSystemMap : k'.sharedSystemMap = k.sharedSystemMap
  corePage : k'.sharedSystemMapCorePage = k.sharedSystemMapCorePage
  mappedPages : k'.sharedSystemMapMappedPages = k.sharedSystemMapMappedPages
  tables : k.loadedMap = systemMapIndex → k'.l1 = k.l1 ∧ k'.l2 = k.l2 ∧ k'.l3 = k.l3

/-- A thread `t` of a core makes one of the two requests, or the core loads a map. -/
inductive MapStep (s : Cores ι) : MapEvent ι → Cores ι → Prop
  | addDevicePage {c : ι} {t pa va now : ℕ} {k' : Kernel} : t ∈ (s.core c).contexts →
      (s.core c).reg t 0 = 2 → (s.core c).reg t 1 = pa → (s.core c).reg t 2 = va →
      systemDriverRequest (s.core c) t = .ok k' now →
      MapStep s (.addDevicePage c pa va) ⟨s.publish c k', (pa, va) :: s.accepted,
        Function.update s.seen c ((pa, va) :: s.seen c)⟩
  | updatedMap {c : ι} {t now : ℕ} {k' : Kernel} : (s.core c).reg t 0 = 3 →
      systemDriverRequest (s.core c) t = .ok k' now →
      MapStep s (.updatedMap c)
        ⟨s.publish c k', s.accepted, Function.update s.seen c s.accepted⟩
  | load {c : ι} {m : ℕ} : MapStep s (.load c m)
      ⟨s.publish c (loadThisMap (s.core c) m), s.accepted,
        if (s.core c).loadedMap = m then s.seen else Function.update s.seen c s.accepted⟩
  | elsewhere {core' : ι → Kernel} : (∀ c, Elsewhere (s.core c) (core' c)) →
      MapStep s .elsewhere ⟨core', s.accepted, s.seen⟩

/-- The shared map is initialised, and no core has loaded it. -/
structure MapStart (start codePages dataPages : ℕ) (s : Cores ι) : Prop where
  initialised : ∀ c, ∃ k, k.sharedSystemMap = (fun _ => Entry.invalid) ∧
    s.core c = initialiseSystemMap k start codePages dataPages
  placed : ∀ c, Placed (s.core c)
  physical : ∀ c, (s.core c).physicalAddress = (s.core c).layout.corePhysical
  unloaded : ∀ c, (s.core c).loadedMap ≠ systemMapIndex
  accepted : s.accepted = []
  seen : ∀ c, s.seen c = []

/-- Any number of cores, with a system driver of `codePages` and `dataPages` at `start`. -/
def coresSystem (ι : Type) [DecidableEq ι] (start codePages dataPages : ℕ) :
    System (Cores ι) (MapEvent ι) where
  init := MapStart start codePages dataPages
  step := MapStep

/-- The device page is not asked for at the page `p`, and its page number is a `uint32_t`. -/
def Beside (p : ℕ) (_ : Cores ι) : MapEvent ι → Prop
  | .addDevicePage _ _ va => va / 4096 ≠ p ∧ va < 2 ^ 44
  | _ => True

/-- What the core `c` has in its tables, when it has loaded the system map: the driver's
code and data, its own stack page, and the device pages that it has seen. -/
structure MapKept (start codePages dataPages : ℕ) (s : Cores ι) (c : ι) : Prop where
  driver : ∀ i < codePages + dataPages, (s.core c).l3 i = driverEntry start codePages i
  stack : (s.core c).l3 (codePages + dataPages) = stackEntry (s.core c)
  device : ∀ pa va, (pa, va) ∈ s.seen c → (s.core c).l3 (va / 4096) = deviceEntry pa ∧
    walk (s.core c) va = some (field 12 36 pa * 4096 + va % 4096)

end Cores

/-! ## The invariant -/

/-- The shared map `M` has `n` pages: those of the driver, a place for the stack page at
`p`, and device pages beyond it. -/
structure SharedInv (start codePages p n : ℕ) (M : ℕ → ℕ) (accepted : List (ℕ × ℕ)) : Prop where
  driver : ∀ i < p, M i = driverEntry start codePages i
  above : p < n
  below : n ≤ 33
  device : ∀ d ∈ accepted, p < d.2 / 4096 ∧ d.2 / 4096 < n ∧ d.2 / 4096 < 32 ∧
    M (d.2 / 4096) = deviceEntry d.1

/-- A core and the shared map. -/
structure CoreInv (p n : ℕ) (M : ℕ → ℕ) (k : Kernel) : Prop where
  placed : Placed k
  physical : k.physicalAddress = k.layout.corePhysical
  shared : k.sharedSystemMap = M
  corePage : k.sharedSystemMapCorePage = p
  mapped : k.sharedSystemMapMappedPages = n

/-- A core that has loaded the system map. -/
structure Loaded (start codePages p n : ℕ) (seen : List (ℕ × ℕ)) (k : Kernel) : Prop where
  subtables : Subtables k
  driver : ∀ i < p, k.l3 i = driverEntry start codePages i
  stack : k.l3 p = stackEntry k
  device : ∀ d ∈ seen, k.l3 (d.2 / 4096) = deviceEntry d.1
  rest : ∀ i, n ≤ i → i < 512 → k.l3 i = Entry.invalid

structure MapInv {ι : Type} (start codePages p n : ℕ) (M : ℕ → ℕ) (s : Cores ι) : Prop where
  shared : SharedInv start codePages p n M s.accepted
  core : ∀ c, CoreInv p n M (s.core c)
  loaded : ∀ c, (s.core c).loadedMap = systemMapIndex →
    Loaded start codePages p n (s.seen c) (s.core c)
  seen : ∀ c, ∀ d ∈ s.seen c, d ∈ s.accepted

section Invariant

variable {start codePages p n n' va : ℕ} {M M' : ℕ → ℕ} {accepted seen : List (ℕ × ℕ)}
  {k k' : Kernel}

/-- A page that the code accepts is beyond the stack page, and was free. -/
theorem SharedInv.accepts (h : SharedInv start codePages p n M accepted)
    (hne : va / 4096 ≠ p) (hfree : M (va / 4096) = Entry.invalid) :
    p < va / 4096 ∧ ∀ d ∈ accepted, d.2 / 4096 ≠ va / 4096 := by
  constructor
  · by_contra hle
    rw [h.driver _ (by omega)] at hfree
    exact driverEntry_ne_invalid _ _ _ hfree
  · intro d hd heq
    rw [← heq, (h.device d hd).2.2.2] at hfree
    exact (mapsPage_device _).ne_invalid hfree

theorem SharedInv.add (h : SharedInv start codePages p n M accepted) (pa : ℕ)
    (hne : va / 4096 ≠ p) (hlt : va / 4096 < 32) (hfree : M (va / 4096) = Entry.invalid)
    (hn : n' = if va / 4096 ≥ n then va / 4096 + 1 else n) :
    n ≤ n' ∧ SharedInv start codePages p n' (Function.update M (va / 4096) (deviceEntry pa))
      ((pa, va) :: accepted) := by
  obtain ⟨hp, hother⟩ := h.accepts hne hfree
  have habove := h.above
  have hbelow := h.below
  have hle : n ≤ n' ∧ va / 4096 < n' ∧ n' ≤ 33 := by
    rw [hn]
    split
    · omega
    · omega
  refine ⟨hle.1, ⟨?_, by omega, hle.2.2, ?_⟩⟩
  · intro i hi
    rw [Function.update_of_ne (by omega)]
    exact h.driver i hi
  · intro d hd
    rcases List.mem_cons.1 hd with rfl | hd
    · exact ⟨hp, hle.2.1, hlt, Function.update_self ..⟩
    · obtain ⟨h₁, h₂, h₃, h₄⟩ := h.device d hd
      rw [Function.update_of_ne (hother d hd)]
      exact ⟨h₁, by omega, h₃, h₄⟩

/-- The core that adds the page has it in its table. -/
theorem Loaded.add {pa : ℕ} (h : Loaded start codePages p n seen k)
    (hs : SharedInv start codePages p n M accepted) (hseen : ∀ d ∈ seen, d ∈ accepted)
    (hne : va / 4096 ≠ p) (hfree : M (va / 4096) = Entry.invalid) (hle : n ≤ n')
    (hlt : va / 4096 < n') (hsub : Subtables k') (hstack : stackEntry k' = stackEntry k)
    (hl3 : k'.l3 = Function.update k.l3 (va / 4096) (deviceEntry pa)) :
    Loaded start codePages p n' ((pa, va) :: seen) k' := by
  obtain ⟨hp, hother⟩ := hs.accepts hne hfree
  refine ⟨hsub, ?_, ?_, ?_, ?_⟩
  · intro i hi
    rw [hl3, Function.update_of_ne (by omega)]
    exact h.driver i hi
  · rw [hl3, hstack, Function.update_of_ne hne.symm]
    exact h.stack
  · intro d hd
    rw [hl3]
    rcases List.mem_cons.1 hd with rfl | hd
    · exact Function.update_self ..
    · rw [Function.update_of_ne (hother d (hseen d hd))]
      exact h.device d hd
  · intro i hi hi'
    rw [hl3, Function.update_of_ne (by omega)]
    exact h.rest i (by omega) hi'

/-- The other cores go on with what they have. -/
theorem Loaded.more (h : Loaded start codePages p n seen k) (hle : n ≤ n')
    (hphys : k'.physicalAddress = k.physicalAddress) (hlay : k'.layout = k.layout)
    (h1 : k'.l1 = k.l1) (h2 : k'.l2 = k.l2) (h3 : k'.l3 = k.l3) :
    Loaded start codePages p n' seen k' := by
  have hstack : stackEntry k' = stackEntry k := by
    unfold stackEntry
    rw [hphys]
  refine ⟨⟨?_, ?_, ?_⟩, ?_, ?_, ?_, ?_⟩
  · rw [hphys, hlay]
    exact h.subtables.physical
  · rw [h1, l2Physical, hphys]
    exact h.subtables.l1
  · rw [h2, l3Physical, hphys]
    exact h.subtables.l2
  · rw [h3]
    exact h.driver
  · rw [h3, hstack]
    exact h.stack
  · rw [h3]
    exact h.device
  · rw [h3]
    exact fun i hi hi' => h.rest i (by omega) hi'

/-- A core that updates its table has what a fresh load gives. -/
theorem Loaded.updated (h : Loaded start codePages p n seen k)
    (hs : SharedInv start codePages p n M accepted) (hc : CoreInv p n M k) {i : ℕ} (hi : i < 512) :
    (if p < i ∧ i < n then M i else k.l3 i) = (freshSystemMap k).l3 i := by
  have habove := hs.above
  rw [freshSystemMap_l3 k hi, hc.corePage, hc.mapped, hc.shared]
  by_cases hip : i = p
  · rw [hip, if_neg (by omega), if_pos rfl]
    exact h.stack
  by_cases hin : i < n
  · by_cases hpi : p < i
    · rw [if_pos ⟨hpi, hin⟩, if_neg hip, if_pos hin]
    · rw [if_neg (by omega), if_neg hip, if_pos hin, hs.driver i (by omega)]
      exact h.driver i (by omega)
  · rw [if_neg (by omega), if_neg hip, if_neg hin]
    exact h.rest i (by omega) hi

/-- A core that has just loaded the map has all that was accepted. -/
theorem SharedInv.fresh (hs : SharedInv start codePages p n M accepted) (hc : CoreInv p n M k)
    (hsub : Subtables k') (hphys : k'.physicalAddress = k.physicalAddress)
    (hl3 : ∀ i < 512, k'.l3 i = (freshSystemMap k).l3 i) :
    Loaded start codePages p n accepted k' := by
  have habove := hs.above
  have hbelow := hs.below
  have hfresh : ∀ i, i < 512 → k'.l3 i =
      if i = p then stackEntry k else if i < n then M i else Entry.invalid := by
    intro i hi
    rw [hl3 i hi, freshSystemMap_l3 k hi, hc.corePage, hc.mapped, hc.shared]
  have hstack : stackEntry k' = stackEntry k := by
    unfold stackEntry
    rw [hphys]
  refine ⟨hsub, ?_, ?_, ?_, ?_⟩
  · intro i hi
    rw [hfresh i (by omega), if_neg (by omega), if_pos (by omega)]
    exact hs.driver i hi
  · rw [hfresh p (by omega), if_pos rfl, hstack]
  · intro d hd
    obtain ⟨h₁, h₂, h₃, h₄⟩ := hs.device d hd
    rw [hfresh _ (by omega), if_neg (by omega), if_pos h₂]
    exact h₄
  · intro i hi hi'
    rw [hfresh i hi', if_neg (by omega), if_neg (by omega)]

end Invariant

/-! ## The steps -/

section Steps

variable {ι : Type} {start codePages p n n' : ℕ} {M M' : ℕ → ℕ} {s s' : Cores ι} {c : ι}
  {k' : Kernel} {e : MapEvent ι}

/-- What `Updated_Map` leaves on its core. -/
theorem MapInv.updated (h : MapInv start codePages p n M s) {t now : ℕ}
    (hu : updatedMap (s.core c) t = .ok k' now) :
    CoreInv p n M k' ∧ (k'.loadedMap = systemMapIndex →
      Loaded start codePages p n s.accepted k' ∧
        ∀ i < 512, k'.l3 i = (freshSystemMap k').l3 i) := by
  obtain ⟨l3, hk', hl3⟩ := updatedMap_l3 hu
  have hk := h.core c
  rw [hk.corePage, hk.mapped, hk.shared] at hl3
  have hcore : CoreInv p n M k' := by
    rw [hk']
    exact ⟨hk.placed.congr rfl rfl, hk.physical, hk.shared, hk.corePage, hk.mapped⟩
  refine ⟨hcore, fun hl => ?_⟩
  have hloaded := h.loaded c (by rw [hk'] at hl; exact hl)
  have hsub : Subtables k' := by
    rw [hk']
    exact ⟨hloaded.subtables.physical, hloaded.subtables.l1, hloaded.subtables.l2⟩
  have hphys : k'.physicalAddress = (s.core c).physicalAddress := by rw [hk']
  have hfresh : ∀ i < 512, k'.l3 i = (freshSystemMap (s.core c)).l3 i := by
    intro i hi
    rw [← hloaded.updated h.shared hk hi, ← hl3, hk']
  refine ⟨h.shared.fresh hk hsub hphys hfresh, fun i hi => ?_⟩
  rw [hfresh i hi, freshSystemMap_l3 _ hi, freshSystemMap_l3 _ hi, hk']
  rfl

/-- What a load leaves on its core. -/
theorem MapInv.load (h : MapInv start codePages p n M s) {m : ℕ}
    (hm : (s.core c).loadedMap ≠ m) : CoreInv p n M (loadThisMap (s.core c) m) ∧
      ((loadThisMap (s.core c) m).loadedMap = systemMapIndex →
        Loaded start codePages p n s.accepted (loadThisMap (s.core c) m)) := by
  have hk := h.core c
  constructor
  · obtain ⟨m', l1, l2, l3, heq⟩ := loadThisMap_tables (s.core c) m
    rw [heq]
    exact ⟨hk.placed.congr rfl rfl, hk.physical, hk.shared, hk.corePage, hk.mapped⟩
  · intro hl
    rw [loadThisMap_loadedMap] at hl
    subst hl
    rw [loadThisMap_system hm]
    exact h.shared.fresh hk (freshSystemMap_subtables hk.physical)
      (freshSystemMap_same (s.core c)).physicalAddress fun _ _ => rfl

/-- What the cores do besides leaves the tables alone. -/
theorem MapInv.elsewhere {core' : ι → Kernel} (h : MapInv start codePages p n M s)
    (helse : ∀ c, Elsewhere (s.core c) (core' c)) :
    MapInv start codePages p n M ⟨core', s.accepted, s.seen⟩ := by
  refine ⟨h.shared, fun c => ?_, fun c hl => ?_, h.seen⟩
  · have hk := h.core c
    have he := helse c
    exact ⟨he.placed, by rw [he.physicalAddress, he.layout]; exact hk.physical,
      he.sharedSystemMap.trans hk.shared, he.corePage.trans hk.corePage,
      he.mappedPages.trans hk.mapped⟩
  · have he := helse c
    have hl' : (s.core c).loadedMap = systemMapIndex := he.loadedMap ▸ hl
    obtain ⟨h1, h2, h3⟩ := he.tables hl'
    exact (h.loaded c hl').more le_rfl he.physicalAddress he.layout h1 h2 h3

variable [DecidableEq ι]

theorem publish_self : s.publish c k' c = k' := if_pos rfl

theorem publish_other {d : ι} (hd : d ≠ c) : s.publish c k' d = { s.core d with
    sharedSystemMap := k'.sharedSystemMap
    sharedSystemMapMappedPages := k'.sharedSystemMapMappedPages } := if_neg hd

/-- A step of the core `c`: only the shared map changes for the others. -/
theorem MapInv.publish {accepted' : List (ℕ × ℕ)} {seen' : ι → List (ℕ × ℕ)}
    (h : MapInv start codePages p n M s) (hle : n ≤ n')
    (hshared : SharedInv start codePages p n' M' accepted') (hcore : CoreInv p n' M' k')
    (hloaded : k'.loadedMap = systemMapIndex → Loaded start codePages p n' (seen' c) k')
    (hsub : ∀ d ∈ s.accepted, d ∈ accepted') (hother : ∀ d, d ≠ c → seen' d = s.seen d)
    (hseen : ∀ d ∈ seen' c, d ∈ accepted') :
    MapInv start codePages p n' M' ⟨s.publish c k', accepted', seen'⟩ := by
  refine ⟨hshared, fun d => ?_, fun d => ?_, fun d => ?_⟩
  · show CoreInv p n' M' (s.publish c k' d)
    by_cases hd : d = c
    · subst hd
      rw [publish_self]
      exact hcore
    · have hk := h.core d
      rw [publish_other hd]
      exact ⟨hk.placed.congr rfl rfl, hk.physical, hcore.shared, hk.corePage, hcore.mapped⟩
  · show (s.publish c k' d).loadedMap = systemMapIndex →
      Loaded start codePages p n' (seen' d) (s.publish c k' d)
    by_cases hd : d = c
    · subst hd
      rw [publish_self]
      exact hloaded
    · rw [publish_other hd, hother d hd]
      exact fun hl => (h.loaded d hl).more hle rfl rfl rfl rfl rfl
  · by_cases hd : d = c
    · subst hd
      exact hseen
    · show ∀ x ∈ seen' d, x ∈ accepted'
      rw [hother d hd]
      exact fun x hx => hsub x (h.seen d x hx)

/-- `Add_Device_Page` beside the stack page: one more device page is mapped, at once on
the core that asks for it. -/
theorem MapInv.added {t pa va now : ℕ} (h : MapInv start codePages p n M s)
    (hne : va / 4096 ≠ p) (hlt44 : va < 2 ^ 44) (ht : t ∈ (s.core c).contexts)
    (hcode : (s.core c).reg t 0 = 2) (hpa : (s.core c).reg t 1 = pa)
    (hva : (s.core c).reg t 2 = va) (hreq : systemDriverRequest (s.core c) t = .ok k' now) :
    ∃ n' M', MapInv start codePages p n' M' ⟨s.publish c k', (pa, va) :: s.accepted,
      Function.update s.seen c ((pa, va) :: s.seen c)⟩ := by
  have hk := h.core c
  have hpage : va / 4096 % 2 ^ 32 = va / 4096 := by omega
  obtain ⟨hlt, hfree, -, ctx, mem, hk'⟩ :=
    addDevicePage_ok hk.placed ht (systemDriverRequest_add hk.placed ht hcode hreq)
  rw [hva, hpage] at hlt hfree
  rw [hva, hpage, hpa, hk.shared, hk.mapped] at hk'
  rw [hk.shared] at hfree
  obtain ⟨hle, hshared⟩ := h.shared.add pa hne hlt hfree rfl
  refine ⟨_, _, h.publish hle hshared ?_ ?_ ?_ ?_ ?_⟩
  · rw [hk']
    exact ⟨hk.placed.congr rfl rfl, hk.physical, rfl, hk.corePage, rfl⟩
  · rw [Function.update_self]
    intro hl
    have hloaded := h.loaded c (by rw [hk'] at hl; exact hl)
    have hsub := hloaded.subtables
    refine hloaded.add h.shared (h.seen c) hne hfree hle ?_ ?_ ?_ ?_
    · exact (hshared.device (pa, va) List.mem_cons_self).2.1
    · rw [hk']
      exact ⟨hsub.physical, hsub.l1, hsub.l2⟩
    · rw [hk']
      rfl
    · rw [hk']
  · exact fun d hd => List.mem_cons_of_mem _ hd
  · exact fun d hd => Function.update_of_ne hd ..
  · rw [Function.update_self]
    intro d hd
    rcases List.mem_cons.1 hd with rfl | hd
    · exact List.mem_cons_self
    · exact List.mem_cons_of_mem _ (h.seen c d hd)

theorem mapInv_step (h : MapInv start codePages p n M s) (hs : MapStep s e s')
    (hb : Beside p s e) : ∃ n' M', MapInv start codePages p n' M' s' := by
  cases hs with
  | addDevicePage ht hcode hpa hva hreq => exact h.added hb.1 hb.2 ht hcode hpa hva hreq
  -- the core copies what it had not seen
  | @updatedMap c t now k' hcode hreq =>
    obtain ⟨hcore, hloaded⟩ := h.updated (systemDriverRequest_updated hcode hreq)
    refine ⟨n, M, h.publish le_rfl h.shared hcore ?_ (fun _ hd => hd) ?_ ?_⟩
    · rw [Function.update_self]
      exact fun hl => (hloaded hl).1
    · exact fun d hd => Function.update_of_ne hd ..
    · rw [Function.update_self]
      exact fun _ hd => hd
  | @load c m =>
    -- a map that is loaded already is not loaded again
    by_cases hm : (s.core c).loadedMap = m
    · rw [if_pos hm, loadThisMap_self hm]
      exact ⟨n, M, h.publish le_rfl h.shared (h.core c) (h.loaded c) (fun _ hd => hd)
        (fun _ _ => rfl) (h.seen c)⟩
    · obtain ⟨hcore, hloaded⟩ := h.load hm
      rw [if_neg hm]
      refine ⟨n, M, h.publish le_rfl h.shared hcore ?_ (fun _ hd => hd) ?_ ?_⟩
      · rw [Function.update_self]
        exact hloaded
      · exact fun d hd => Function.update_of_ne hd ..
      · rw [Function.update_self]
        exact fun _ hd => hd
  | elsewhere helse => exact ⟨n, M, h.elsewhere helse⟩

end Steps

/-! ## The results -/

section Results

variable {ι : Type} {start codePages dataPages : ℕ} {s : Cores ι} {c : ι}

theorem mapInv_start (hpages : codePages + dataPages ≤ 32)
    (h : MapStart start codePages dataPages s) : ∃ n M,
    MapInv start codePages (codePages + dataPages) n M s := by
  refine ⟨codePages + dataPages + 1, fun i =>
    if i < codePages + dataPages then driverEntry start codePages i else Entry.invalid,
    ⟨?_, by omega, by omega, ?_⟩, fun c => ?_, fun c hl => absurd hl (h.unloaded c), fun c => ?_⟩
  · exact fun i hi => if_pos hi
  · rw [h.accepted]
    simp
  · obtain ⟨k, hk, heq⟩ := h.initialised c
    refine ⟨h.placed c, h.physical c, ?_, ?_, ?_⟩
    · rw [heq]
      simp only [initialiseSystemMap, hk]
    · rw [heq]
      rfl
    · rw [heq]
      rfl
  · rw [h.seen c]
    simp

theorem MapInv.kept {n : ℕ} {M : ℕ → ℕ}
    (h : MapInv start codePages (codePages + dataPages) n M s)
    (hl : (s.core c).loadedMap = systemMapIndex) : MapKept start codePages dataPages s c := by
  have hloaded := h.loaded c hl
  refine ⟨hloaded.driver, hloaded.stack, fun pa va hmem => ?_⟩
  have hentry := hloaded.device (pa, va) hmem
  have hlt := (h.shared.device (pa, va) (h.seen c _ hmem)).2.2.1
  refine ⟨hentry, hloaded.subtables.walk (by simp only at hlt; omega) ?_⟩
  rw [hentry]
  exact mapsPage_device pa

variable [DecidableEq ι]

theorem mapInv_run (hpages : codePages + dataPages ≤ 32)
    (h : ((coresSystem ι start codePages dataPages).restrict
      (Beside (codePages + dataPages))).Reachable s) :
    ∃ n M, MapInv start codePages (codePages + dataPages) n M s := by
  refine h.invariant (fun s hs => mapInv_start hpages hs) ?_
  rintro s e s' ⟨n, M, hi⟩ ⟨hb, hs⟩
  exact mapInv_step hi hs hb

/-- When no device page is asked for in the place of the stack page, every core that has
loaded the system map keeps its entries, and `Updated_Map` gives it those of a fresh load. -/
theorem run_systemMap (hpages : codePages + dataPages ≤ 32)
    (h : ((coresSystem ι start codePages dataPages).restrict
      (Beside (codePages + dataPages))).Reachable s)
    (hl : (s.core c).loadedMap = systemMapIndex) :
    MapKept start codePages dataPages s c ∧
      ∀ s', (coresSystem ι start codePages dataPages).step s (.updatedMap c) s' →
        s'.seen c = s'.accepted ∧
          ∀ i < 512, (s'.core c).l3 i = (freshSystemMap (s'.core c)).l3 i := by
  obtain ⟨n, M, hi⟩ := mapInv_run hpages h
  refine ⟨hi.kept hl, ?_⟩
  rintro s' (_ | ⟨hcode, hreq⟩ | _ | _)
  rename_i t now k'
  have hu := systemDriverRequest_updated hcode hreq
  have hmap : k'.loadedMap = systemMapIndex := by
    obtain ⟨l3, hk', -⟩ := updatedMap_l3 hu
    rw [hk']
    exact hl
  refine ⟨Function.update_self .., ?_⟩
  show ∀ i < 512, (s.publish c k' c).l3 i = (freshSystemMap (s.publish c k' c)).l3 i
  rw [publish_self]
  exact ((hi.updated hu).2 hmap).2

end Results

/-! ## Two cores -/

section Moves

variable {ι : Type} [DecidableEq ι] {start codePages dataPages p : ℕ} {s : Cores ι} {c : ι} {t : ℕ}

/-- The core `c` has loaded the map `m`. -/
def Cores.loaded (s : Cores ι) (c : ι) (m : ℕ) : Cores ι :=
  ⟨s.publish c (loadThisMap (s.core c) m), s.accepted,
    if (s.core c).loadedMap = m then s.seen else Function.update s.seen c s.accepted⟩

/-- Its thread `t` has asked for a device page. -/
def Cores.added (s : Cores ι) (c : ι) (t : ℕ) : Cores ι :=
  ⟨s.publish c (systemDriverRequest (s.core c) t).kernel,
    ((s.core c).reg t 1, (s.core c).reg t 2) :: s.accepted,
    Function.update s.seen c (((s.core c).reg t 1, (s.core c).reg t 2) :: s.seen c)⟩

/-- Its thread `t` has asked for the map as it is now. -/
def Cores.updated (s : Cores ι) (c : ι) (t : ℕ) : Cores ι :=
  ⟨s.publish c (systemDriverRequest (s.core c) t).kernel, s.accepted,
    Function.update s.seen c s.accepted⟩

/-- The request of the thread `t` is granted. -/
structure RequestGranted (k : Kernel) (t code : ℕ) : Prop where
  created : t ∈ k.contexts
  code : k.reg t 0 = code
  ok : (systemDriverRequest k t).isOk = true

instance (k : Kernel) (t code : ℕ) : Decidable (RequestGranted k t code) :=
  decidable_of_iff (t ∈ k.contexts ∧ k.reg t 0 = code ∧ (systemDriverRequest k t).isOk = true)
    ⟨fun ⟨h₁, h₂, h₃⟩ => ⟨h₁, h₂, h₃⟩, fun ⟨h₁, h₂, h₃⟩ => ⟨h₁, h₂, h₃⟩⟩

theorem loaded_step (s : Cores ι) (c : ι) (m : ℕ) :
    ((coresSystem ι start codePages dataPages).restrict (Beside p)).step s (.load c m)
      (s.loaded c m) := ⟨trivial, .load⟩

theorem RequestGranted.added (h : RequestGranted (s.core c) t 2) :
    (coresSystem ι start codePages dataPages).step s
      (.addDevicePage c ((s.core c).reg t 1) ((s.core c).reg t 2)) (s.added c t) :=
  MapStep.addDevicePage h.created h.code rfl rfl (Outcome.eq_ok_now h.ok)

theorem RequestGranted.updated (h : RequestGranted (s.core c) t 3) :
    ((coresSystem ι start codePages dataPages).restrict (Beside p)).step s (.updatedMap c)
      (s.updated c t) := ⟨trivial, .updatedMap h.code (Outcome.eq_ok_now h.ok)⟩

end Moves

def deviceThread : ℕ := startAddress + 0x1ffe00

/-- A thread is to make the request `code`, for a device page at `va`, with a page of code and a
page of data below it. -/
def deviceKernel (code va : ℕ) : Kernel :=
  initialiseSystemMap { Kernel.boot with
    contexts := [deviceThread]
    heapBottom := 0x1ffe00
    ctx := fun _ w =>
      if w = 4 then code else if w = 5 then 0x40000000 else if w = 6 then va else 0 }
    0x80000 1 1

/-- The first core is to ask for the page, and the second one for the map. -/
def startedCores (va : ℕ) : Cores Bool :=
  ⟨fun second => deviceKernel (if second then 3 else 2) va, [], fun _ => []⟩

/-- Both have loaded the system map. -/
def loadedCores (va : ℕ) : Cores Bool :=
  ((startedCores va).loaded false systemMapIndex).loaded true systemMapIndex

/-- The first one has the page. -/
def deviceCores (va : ℕ) : Cores Bool := (loadedCores va).added false deviceThread

/-- And so has the second one. -/
def updatedCores (va : ℕ) : Cores Bool := (deviceCores va).updated true deviceThread

theorem startedCores_start (va : ℕ) : MapStart 0x80000 1 1 (startedCores va) := by
  have hplaced : ∀ code, Placed (deviceKernel code va) := by
    intro code
    have h : Placed (deviceKernel 2 0) := ⟨by decide, by decide, by decide, by decide, by decide⟩
    exact h.congr rfl rfl
  refine ⟨fun _ => ⟨_, rfl, rfl⟩, fun _ => hplaced _, fun _ => rfl, fun _ => ?_, rfl,
    fun _ => rfl⟩
  show (0 : ℕ) ≠ systemMapIndex
  decide

/-- What the two requests do at `0x3000`, above the stack page. -/
structure DeviceRun : Prop where
  added : RequestGranted ((loadedCores 0x3000).core false) deviceThread 2
  page : ((loadedCores 0x3000).core false).reg deviceThread 2 = 0x3000
  updated : RequestGranted ((deviceCores 0x3000).core true) deviceThread 3
  before : ((deviceCores 0x3000).core true).loadedMap = systemMapIndex
  after : ((updatedCores 0x3000).core true).loadedMap = systemMapIndex
  seen : (0x40000000, 0x3000) ∈ (updatedCores 0x3000).seen true

theorem deviceRun : DeviceRun := by
  have hfacts : (RequestGranted ((loadedCores 0x3000).core false) deviceThread 2 ∧
      ((loadedCores 0x3000).core false).reg deviceThread 2 = 0x3000) ∧
      RequestGranted ((deviceCores 0x3000).core true) deviceThread 3 ∧
      ((deviceCores 0x3000).core true).loadedMap = systemMapIndex ∧
      ((updatedCores 0x3000).core true).loadedMap = systemMapIndex ∧
      (0x40000000, 0x3000) ∈ (updatedCores 0x3000).seen true := by decide +kernel
  rcases hfacts with ⟨⟨h₁, h₂⟩, h₃, h₄, h₅, h₆⟩
  exact ⟨h₁, h₂, h₃, h₄, h₅, h₆⟩

theorem loadedCores_restrict (va : ℕ) :
    ((coresSystem Bool 0x80000 1 1).restrict (Beside (1 + 1))).Reachable (loadedCores va) :=
  .step (.step (.init (startedCores_start va)) (loaded_step _ _ _)) (loaded_step _ _ _)

theorem deviceCores_restrict :
    ((coresSystem Bool 0x80000 1 1).restrict (Beside (1 + 1))).Reachable (deviceCores 0x3000) := by
  have hbeside : Beside (1 + 1) (loadedCores 0x3000) (.addDevicePage false
      (((loadedCores 0x3000).core false).reg deviceThread 1)
      (((loadedCores 0x3000).core false).reg deviceThread 2)) := by
    unfold Beside
    rw [deviceRun.page]
    decide
  exact (loadedCores_restrict 0x3000).step ⟨hbeside, deviceRun.added.added⟩

/-- The first core asks for a device page, and the second one, which had loaded the map before,
has it when it has asked for the map. -/
theorem run_systemMap_device :
    ((updatedCores 0x3000).seen true = (updatedCores 0x3000).accepted ∧ ∀ i < 512,
      ((updatedCores 0x3000).core true).l3 i =
        (freshSystemMap ((updatedCores 0x3000).core true)).l3 i) ∧
    ((updatedCores 0x3000).core true).l3 3 = deviceEntry 0x40000000 := by
  have hr := deviceRun
  have hreach := deviceCores_restrict
  have hupdate : ((coresSystem Bool 0x80000 1 1).restrict (Beside (1 + 1))).step _ _ _ :=
    hr.updated.updated
  refine ⟨(run_systemMap (by decide) hreach hr.before).2 _ hupdate.2, ?_⟩
  exact ((run_systemMap (by decide) (hreach.step hupdate) hr.after).1.device 0x40000000 0x3000
    hr.seen).1

/-- A device page is accepted in the place of the stack page. -/
theorem stack_page_replaced : ¬ ∀ (s : Cores Bool) c, (coresSystem Bool 0x80000 1 1).Reachable s →
    (s.core c).loadedMap = systemMapIndex → MapKept 0x80000 1 1 s c := by
  intro h
  have hfacts : RequestGranted ((loadedCores 0x2000).core false) deviceThread 2 ∧
      ((deviceCores 0x2000).core false).loadedMap = systemMapIndex ∧
      ((deviceCores 0x2000).core false).l3 2 ≠ stackEntry ((deviceCores 0x2000).core false) := by
    decide +kernel
  rcases hfacts with ⟨hadded, hloaded, hdevice⟩
  have hreach := (loadedCores_restrict 0x2000).of_restrict
  exact hdevice (h _ false (hreach.step hadded.added) hloaded).stack

end Isambard.El1
