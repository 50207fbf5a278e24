import Isambard.Lib.Runs
import Mathlib.Algebra.Group.Nat.Defs
import Mathlib.Data.List.Induction

/-!
# Driver.Services — the registry of services

`register_service` and `get_service` of `drivers/system.c`. The services are in an array of
50, and `free_service` counts them without a limit; the words behind the array are other
variables of the driver. Both calls run under the lock of the provider, one at a time.

* `ServiceLayout`: where the array and the count are;
* `RegistryInv`: the array holds what was registered, and nothing else has changed;
* `registry_run`: what a run finds in which at most 50 services are registered;
* `register_outside`: what the next one does.
-/

namespace Isambard.Driver

open Isambard.Lib

/-! ## Memory -/

/-- The data of the driver in words of 32 bits, by their index. -/
abbrev DriverData := ℕ → UInt32

/-- A NUMBER, its lower half first. -/
def loadNumber (mem : DriverData) (a : ℕ) : UInt64 :=
  .ofNat ((mem a).toNat + 2 ^ 32 * (mem (a + 1)).toNat)

def storeNumber (mem : DriverData) (a : ℕ) (v : UInt64) : DriverData :=
  Function.update (Function.update mem a v.toUInt32) (a + 1) (v >>> 32).toUInt32

/-- The elements of `services`. -/
def maxServices : ℕ := 50

/-- The words of a `struct service`. -/
def serviceWords : ℕ := 6

/-- Where the linker has put `services` and `free_service`. -/
structure ServiceLayout where
  services : ℕ
  freeService : ℕ
  apart : freeService < services ∨ services + serviceWords * maxServices ≤ freeService

/-- The word is neither in the array nor the count. -/
def ServiceLayout.Outside (lay : ServiceLayout) (a : ℕ) : Prop :=
  a ≠ lay.freeService ∧ (a < lay.services ∨ lay.services + serviceWords * maxServices ≤ a)

/-! ## The calls -/

/-- The parameters of a call of `register_service`. -/
structure Registration where
  name : UInt64
  type : UInt64
  service : UInt64

/-- `register_service`: `service`, `type_crc` and `name_crc` are the members of an element in
this order. -/
def ServiceLayout.registerService (lay : ServiceLayout) (mem : DriverData)
    (r : Registration) : DriverData :=
  -- `&services[free_service++]`: the count goes up before the members are stored
  let s := lay.services + serviceWords * (mem lay.freeService).toNat
  let mem := Function.update mem lay.freeService (mem lay.freeService + 1)
  let mem := storeNumber mem (s + 4) r.name
  let mem := storeNumber mem (s + 2) r.type
  storeNumber mem s r.service

/-- What `get_service` returns. -/
inductive ServiceAnswer where
  /-- `duplicate_to_return( service )` -/
  | duplicateOf (service : UInt64)
  | zero
deriving DecidableEq

/-- The loop of `get_service` from `s` on, with `n` elements left. -/
def getServiceLoop (mem : DriverData) (name type : UInt64) : ℕ → ℕ → ServiceAnswer
  | 0, _ => .zero
  | n + 1, s =>
    -- a type of 0 stands for any
    if loadNumber mem (s + 4) = name ∧ (type = 0 ∨ type = loadNumber mem (s + 2)) then
      .duplicateOf (loadNumber mem s)
    else getServiceLoop mem name type n (s + serviceWords)

def ServiceLayout.getService (lay : ServiceLayout) (mem : DriverData)
    (name type : UInt64) : ServiceAnswer :=
  getServiceLoop mem name type (mem lay.freeService).toNat lay.services

/-- A call of the driver. -/
inductive RegistryCall where
  | register (r : Registration)
  | get (name type : UInt64)

/-- Calls one after the other, from the zeros that the program starts with; the other words
are whatever they are. -/
def registrySystem (lay : ServiceLayout) : System DriverData RegistryCall where
  init mem := mem lay.freeService = 0
  step mem i mem' := match i with
    | .register r => mem' = lay.registerService mem r
    | .get _ _ => mem' = mem

/-- There is room for another service. -/
def ServiceLayout.HasRoom (lay : ServiceLayout) (mem : DriverData) : RegistryCall → Prop
  | .register _ => (mem lay.freeService).toNat < maxServices
  | .get _ _ => True

/-- What was registered, in order. -/
def registered : List RegistryCall → List Registration
  | [] => []
  | .register r :: l => r :: registered l
  | .get _ _ :: l => registered l

/-- The registration is the one for this name, and for this type if one is given. -/
def Registration.isFor (name type : UInt64) (r : Registration) : Bool :=
  r.name = name && (type = 0 || type = r.type)

/-- The first service registered for a name and a type. -/
def firstFor (name type : UInt64) (l : List Registration) : ServiceAnswer :=
  (l.find? (Registration.isFor name type)).elim .zero fun r => .duplicateOf r.service

/-! ## Loads and stores -/

section Memory

variable {mem : DriverData} {a b : ℕ} {v : UInt64}

theorem loadNumber_congr {mem' : DriverData} (h0 : mem' a = mem a)
    (h1 : mem' (a + 1) = mem (a + 1)) : loadNumber mem' a = loadNumber mem a := by
  rw [loadNumber, loadNumber, h0, h1]

theorem storeNumber_of_ne (h0 : b ≠ a) (h1 : b ≠ a + 1) : storeNumber mem a v b = mem b := by
  rw [storeNumber, Function.update_of_ne h1, Function.update_of_ne h0]

theorem loadNumber_storeNumber : loadNumber (storeNumber mem a v) a = v := by
  have hlow : storeNumber mem a v a = v.toUInt32 := by
    rw [storeNumber, Function.update_of_ne (Nat.ne_of_lt (Nat.lt_succ_self a)),
      Function.update_self]
  have hhigh : storeNumber mem a v (a + 1) = (v >>> 32).toUInt32 := Function.update_self _ _ _
  have hshift : (v >>> 32).toNat = v.toNat / 2 ^ 32 := by
    rw [UInt64.toNat_shiftRight, Nat.shiftRight_eq_div_pow]
    rfl
  have hv := v.toNat_lt
  rw [loadNumber, hlow, hhigh]
  apply UInt64.toNat_inj.1
  rw [UInt64.toNat_ofNat', UInt64.toNat_toUInt32, UInt64.toNat_toUInt32, hshift]
  omega

/-- A number of two other words. -/
theorem loadNumber_storeNumber_of_ne (h : b + 1 < a ∨ a + 1 < b) :
    loadNumber (storeNumber mem a v) b = loadNumber mem b :=
  loadNumber_congr (storeNumber_of_ne (by omega) (by omega))
    (storeNumber_of_ne (by omega) (by omega))

end Memory

/-! ## The array -/

/-- The element at `s` holds a registration. -/
structure EntryAt (mem : DriverData) (s : ℕ) (r : Registration) : Prop where
  service : loadNumber mem s = r.service
  type : loadNumber mem (s + 2) = r.type
  name : loadNumber mem (s + 4) = r.name

/-- `get_service` over elements that hold registrations. -/
theorem getServiceLoop_eq {mem : DriverData} (l : List Registration) (s : ℕ) (name type : UInt64)
    (h : ∀ i (hi : i < l.length), EntryAt mem (s + serviceWords * i) l[i]) :
    getServiceLoop mem name type l.length s = firstFor name type l := by
  induction l generalizing s with
  | nil => rfl
  | cons r l ih =>
    have hfirst : EntryAt mem s r := h 0 (Nat.succ_pos _)
    have hrest : ∀ i (hi : i < l.length),
        EntryAt mem (s + serviceWords + serviceWords * i) l[i] := by
      intro i hi
      have hnext := h (i + 1) (Nat.succ_lt_succ hi)
      rwa [Nat.mul_succ, Nat.add_comm (serviceWords * i), ← Nat.add_assoc] at hnext
    have htest : (loadNumber mem (s + 4) = name ∧
        (type = 0 ∨ type = loadNumber mem (s + 2))) ↔ r.isFor name type = true := by
      rw [hfirst.name, hfirst.type]
      simp [Registration.isFor]
    rw [List.length_cons, getServiceLoop]
    -- the loop ends at the first element that is for the name and the type
    by_cases hr : r.isFor name type = true
    · rw [if_pos (htest.2 hr), hfirst.service, firstFor, List.find?_cons_of_pos hr]
      rfl
    · rw [if_neg fun h => hr (htest.1 h), ih (s + serviceWords) hrest, firstFor, firstFor,
        List.find?_cons_of_neg hr]

section Register

variable {lay : ServiceLayout} {mem : DriverData} {r : Registration}

/-- The element that a registration goes to. -/
def ServiceLayout.nextService (lay : ServiceLayout) (mem : DriverData) : ℕ :=
  lay.services + serviceWords * (mem lay.freeService).toNat

/-- The four stores of a registration, at the place they go to. -/
theorem registerService_eq : lay.registerService mem r =
    storeNumber (storeNumber (storeNumber
      (Function.update mem lay.freeService (mem lay.freeService + 1))
        (lay.nextService mem + 4) r.name) (lay.nextService mem + 2) r.type)
        (lay.nextService mem) r.service := rfl

theorem registerService_of_ne {a : ℕ} (hfree : a ≠ lay.freeService)
    (hnext : a < lay.nextService mem ∨ lay.nextService mem + serviceWords ≤ a) :
    lay.registerService mem r a = mem a := by
  unfold serviceWords at hnext
  rw [registerService_eq, storeNumber_of_ne (by omega) (by omega),
    storeNumber_of_ne (by omega) (by omega), storeNumber_of_ne (by omega) (by omega),
    Function.update_of_ne hfree]

/-- The new element, wherever it is. -/
theorem registerService_entry : EntryAt (lay.registerService mem r) (lay.nextService mem) r := by
  rw [registerService_eq]
  refine ⟨loadNumber_storeNumber, ?_, ?_⟩
  -- a member is not touched by the stores that come after its own
  · rw [loadNumber_storeNumber_of_ne (by omega), loadNumber_storeNumber]
  · rw [loadNumber_storeNumber_of_ne (by omega), loadNumber_storeNumber_of_ne (by omega),
      loadNumber_storeNumber]

/-- With room in the array the count goes up by one. -/
theorem registerService_count (hroom : (mem lay.freeService).toNat < maxServices) :
    (lay.registerService mem r lay.freeService).toNat = (mem lay.freeService).toNat + 1 := by
  -- an element of the array does not lie over the count
  have hapart : lay.freeService < lay.nextService mem ∨
      lay.nextService mem + serviceWords ≤ lay.freeService := by
    have h := lay.apart
    unfold maxServices at h hroom
    unfold ServiceLayout.nextService serviceWords at *
    omega
  unfold serviceWords at hapart
  unfold maxServices at hroom
  rw [registerService_eq, storeNumber_of_ne (by omega) (by omega),
    storeNumber_of_ne (by omega) (by omega), storeNumber_of_ne (by omega) (by omega),
    Function.update_self, UInt32.toNat_add,
    UInt32.toNat_one]
  omega

end Register

/-! ## Runs -/

/-- After the registrations `l`, from the memory `mem₀`. -/
structure RegistryInv (lay : ServiceLayout) (mem₀ : DriverData) (l : List Registration)
    (mem : DriverData) : Prop where
  count : (mem lay.freeService).toNat = l.length
  room : l.length ≤ maxServices
  entries : ∀ i (hi : i < l.length), EntryAt mem (lay.services + serviceWords * i) l[i]
  outside : ∀ a, lay.Outside a → mem a = mem₀ a

section Runs

variable {lay : ServiceLayout} {mem₀ mem mem' : DriverData} {l : List Registration}
  {r : Registration}

/-- A registration goes behind the ones before it, which stay. -/
theorem RegistryInv.register (h : RegistryInv lay mem₀ l mem)
    (hroom : (mem lay.freeService).toNat < maxServices) :
    RegistryInv lay mem₀ (l ++ [r]) (lay.registerService mem r) := by
  have hcount := h.count
  have hnext : lay.nextService mem = lay.services + serviceWords * l.length := by
    rw [ServiceLayout.nextService, hcount]
  refine ⟨?_, ?_, ?_, ?_⟩
  · rw [registerService_count hroom, hcount, List.length_append, List.length_singleton]
  · rw [List.length_append, List.length_singleton, ← hcount]
    exact hroom
  · intro i hi
    rw [List.length_append, List.length_singleton] at hi
    rcases Nat.lt_or_ge i l.length with hold | hlast
    · -- an element below the new one, away from the count
      have hsame : ∀ k < serviceWords, lay.registerService mem r
          (lay.services + serviceWords * i + k) = mem (lay.services + serviceWords * i + k) := by
        intro k hk
        have hapart := lay.apart
        unfold maxServices at hapart hroom
        unfold serviceWords at *
        apply registerService_of_ne
        · omega
        · rw [hnext]
          unfold serviceWords
          omega
      have hentry := h.entries i hold
      rw [List.getElem_append_left hold]
      refine ⟨?_, ?_, ?_⟩
      · exact (loadNumber_congr (hsame 0 (by decide)) (hsame 1 (by decide))).trans hentry.service
      · exact (loadNumber_congr (hsame 2 (by decide)) (hsame 3 (by decide))).trans hentry.type
      · exact (loadNumber_congr (hsame 4 (by decide)) (hsame 5 (by decide))).trans hentry.name
    · -- the new element
      have hi : i = l.length := by omega
      subst hi
      rw [List.getElem_concat_length rfl, ← hnext]
      exact registerService_entry
  · -- with room the element lies inside the array
    rintro a ⟨hfree, hout⟩
    rw [← h.outside a ⟨hfree, hout⟩]
    apply registerService_of_ne hfree
    rw [hnext]
    unfold maxServices at hout hroom
    unfold serviceWords at *
    omega

theorem registered_concat (calls : List RegistryCall) (i : RegistryCall) :
    registered (calls ++ [i]) = registered calls ++ registered [i] := by
  induction calls with
  | nil => rfl
  | cons c calls ih =>
    cases c with
    | register r => exact congrArg (r :: ·) ih
    | get name type => exact ih

theorem registryInv_run {calls : List RegistryCall} (hinit : (registrySystem lay).init mem₀)
    (ht : ((registrySystem lay).restrict lay.HasRoom).Trace mem₀ calls mem) :
    RegistryInv lay mem₀ (registered calls) mem := by
  induction ht with
  | nil =>
    refine ⟨?_, Nat.zero_le _, fun i hi => absurd hi (Nat.not_lt_zero i), fun _ _ => rfl⟩
    have hzero : mem₀ lay.freeService = 0 := hinit
    rw [hzero]
    rfl
  | @concat calls mem mem' i _ hs ih =>
    -- a lookup stores nothing, so only a registration makes the list longer
    rw [registered_concat]
    cases i with
    | register r =>
      rcases hs with ⟨hroom, rfl⟩
      exact ih.register hroom
    | get name type =>
      rcases hs with ⟨_, rfl⟩
      rw [registered, registered, List.append_nil]
      exact ih

/-- While no more than 50 services are registered, `get_service` finds the first one for a
name and a type; a service that was registered is found; and nothing but the array and the
count has changed. -/
theorem registry_run {calls : List RegistryCall} (hinit : (registrySystem lay).init mem₀)
    (ht : ((registrySystem lay).restrict lay.HasRoom).Trace mem₀ calls mem) :
    (∀ name type, lay.getService mem name type = firstFor name type (registered calls)) ∧
    (∀ r ∈ registered calls, ∃ service, lay.getService mem r.name r.type = .duplicateOf service) ∧
    ∀ a, lay.Outside a → mem a = mem₀ a := by
  have hinv := registryInv_run hinit ht
  have hget : ∀ name type, lay.getService mem name type =
      firstFor name type (registered calls) := by
    intro name type
    rw [ServiceLayout.getService, hinv.count]
    exact getServiceLoop_eq _ _ name type hinv.entries
  refine ⟨hget, ?_, hinv.outside⟩
  intro r hr
  have hfor : r.isFor r.name r.type = true := by simp [Registration.isFor]
  have hsome : ((registered calls).find? (Registration.isFor r.name r.type)).isSome = true :=
    List.find?_isSome.2 ⟨r, hr, hfor⟩
  rcases Option.isSome_iff_exists.1 hsome with ⟨first, hfirst⟩
  refine ⟨first.service, ?_⟩
  rw [hget, firstFor, hfirst]
  rfl

theorem registered_map (l : List Registration) :
    registered (l.map RegistryCall.register) = l := by
  induction l with
  | nil => rfl
  | cons r l ih => exact congrArg (r :: ·) ih

/-- There is a run with any registrations that the array has room for. -/
theorem registrations_run (hinit : (registrySystem lay).init mem₀) (l : List Registration)
    (hl : l.length ≤ maxServices) :
    ∃ mem, ((registrySystem lay).restrict lay.HasRoom).Trace mem₀
      (l.map RegistryCall.register) mem := by
  induction l using List.reverseRecOn with
  | nil => exact ⟨mem₀, .nil⟩
  | append_singleton l r ih =>
    rw [List.length_append, List.length_singleton] at hl
    rcases ih (Nat.le_of_succ_le hl) with ⟨mem, ht⟩
    have hcount := (registryInv_run hinit ht).count
    rw [registered_map] at hcount
    have hroom : lay.HasRoom mem (.register r) := by
      show (mem lay.freeService).toNat < maxServices
      rw [hcount]
      exact hl
    rw [List.map_append]
    exact ⟨_, ht.concat ⟨hroom, rfl⟩⟩

/-- The one after them is stored behind the array, whatever is there. -/
theorem register_outside (h : RegistryInv lay mem₀ l mem) (hfull : l.length = maxServices) :
    EntryAt (lay.registerService mem r) (lay.services + serviceWords * maxServices) r := by
  have hnext : lay.nextService mem = lay.services + serviceWords * maxServices := by
    rw [ServiceLayout.nextService, h.count, hfull]
  rw [← hnext]
  exact registerService_entry

end Runs

/-- The order of the source: `free_service` and a gap, then `ms_ticks`. -/
def sourceLayout : ServiceLayout where
  services := 0
  freeService := 300
  apart := .inr (Nat.le_refl _)

/-- The variables of the driver at the start. -/
def noServices : DriverData := fun _ => 0

/-- The 51st registration sets `ms_ticks` to its type. -/
theorem registry_overrun : ∃ mem mem',
    ((registrySystem sourceLayout).restrict sourceLayout.HasRoom).Trace noServices
      ((List.replicate 50 ⟨1, 2, 3⟩).map RegistryCall.register) mem ∧
    (registrySystem sourceLayout).step mem (.register ⟨1, 2, 3⟩) mem' ∧
    ¬ ∀ a, sourceLayout.Outside a → mem' a = mem a := by
  have hinit : (registrySystem sourceLayout).init noServices := rfl
  rcases registrations_run hinit (List.replicate 50 ⟨1, 2, 3⟩) (by simp [maxServices])
    with ⟨mem, ht⟩
  have hinv := registryInv_run hinit ht
  rw [registered_map] at hinv
  have hentry := register_outside (r := ⟨1, 2, 3⟩) hinv List.length_replicate
  refine ⟨mem, _, ht, rfl, ?_⟩
  intro hsame
  -- the words at 302 and 303 are those of `ms_ticks`
  have hticks : loadNumber (sourceLayout.registerService mem ⟨1, 2, 3⟩) 302 = 2 := hentry.type
  have h302 : sourceLayout.Outside 302 := ⟨by decide, .inr (by decide)⟩
  have h303 : sourceLayout.Outside 303 := ⟨by decide, .inr (by decide)⟩
  rw [loadNumber_congr (hsame 302 h302) (hsame 303 h303),
    loadNumber_congr (hinv.outside 302 h302) (hinv.outside 303 h303)] at hticks
  exact absurd hticks (by decide)

/-- Two services of one name, and a wildcard for the type. -/
theorem registry_run_two : ∃ mem,
    ((registrySystem sourceLayout).restrict sourceLayout.HasRoom).Trace noServices
      ([⟨7, 1, 0x10⟩, ⟨7, 2, 0x20⟩].map RegistryCall.register) mem ∧
    sourceLayout.getService mem 7 0 = .duplicateOf 0x10 ∧
    sourceLayout.getService mem 7 2 = .duplicateOf 0x20 ∧
    sourceLayout.getService mem 8 0 = .zero := by
  have hinit : (registrySystem sourceLayout).init noServices := rfl
  rcases registrations_run hinit [⟨7, 1, 0x10⟩, ⟨7, 2, 0x20⟩] (by decide) with ⟨mem, ht⟩
  have hget := (registry_run hinit ht).1
  exact ⟨mem, ht, (hget 7 0).trans rfl, (hget 7 2).trans rfl, (hget 8 0).trans rfl⟩

end Isambard.Driver
