import Isambard.El1.Lists
import Isambard.El1.Maps

/-!
# El1.Interfaces — taking interfaces from the free list

`obtain_interface` of `secure_el1.c`, and the four supervisor calls that make an
interface (`svc_handling.h`). A slot that is not in use is linked to the next
one through the place of its `user`.
-/

namespace Isambard.El1

open Isambard.Lib

/-- The first slot of the free list is taken. The head is stored before the
marker is looked at; an empty list is waited for, for ever on one core, and the
last slot is never handed out. -/
def obtainInterface (k : Kernel) : Outcome ℕ :=
  let head := k.freeInterface
  if head = 0 then .halt k
  else
    match interfaceFromIndex k head with
    | none => .halt k
    | some result =>
      let k := { k with freeInterface := result.next }
      if result.marker ≠ freeMarker then .halt k
      else if result.next = 0 then .halt k
      else .ok k head

/-- The thread stays the running one. -/
def newInterface (k : Kernel) (thread user provider handler value : ℕ) : Outcome ℕ :=
  match obtainInterface k with
  | .halt k => .halt k
  | .ok k e =>
    let k := { k with
      interfaces := Function.update k.interfaces e ⟨user, provider, handler, value⟩ }
    .ok (k.setReg thread 0 e) thread

def handleSvcDuplicateToReturn (k : Kernel) (thread : ℕ) : Outcome ℕ :=
  match interfaceFromIndex k (k.reg thread 0) with
  | none => .halt k
  | some interface =>
    if interface.user ≠ k.currentMap thread then .halt k
    else newInterface k thread (k.callerMap (k.stackPointer thread)) interface.provider
      interface.handler interface.object

def handleSvcDuplicateToPassTo (k : Kernel) (thread : ℕ) : Outcome ℕ :=
  match interfaceFromIndex k (k.reg thread 1) with
  | none => .halt k
  | some interface =>
    if interface.user ≠ k.currentMap thread then .halt k
    else
      match interfaceFromIndex k (k.reg thread 0) with
      | none => .halt k
      | some target =>
        if target.user ≠ k.currentMap thread then .halt k
        else newInterface k thread target.provider interface.provider interface.handler
          interface.object

def handleSvcInterfaceToPassTo (k : Kernel) (thread : ℕ) : Outcome ℕ :=
  -- smc 13
  if k.reg thread 1 % 4 ≠ 0 then .halt k
  else
    match interfaceFromIndex k (k.reg thread 0) with
    | none => .halt k
    | some interface =>
      if interface.user ≠ k.currentMap thread then .halt k
      else newInterface k thread interface.provider (k.currentMap thread) (k.reg thread 1)
        (k.reg thread 2)

def handleSvcInterfaceToReturn (k : Kernel) (thread : ℕ) : Outcome ℕ :=
  if k.reg thread 0 % 4 ≠ 0 then .halt k
  else newInterface k thread (k.callerMap (k.stackPointer thread)) (k.currentMap thread)
    (k.reg thread 0) (k.reg thread 1)

/-! ## What a creation does -/

theorem interfaceFromIndex_some {k : Kernel} {index : ℕ} {i : Interface}
    (h : interfaceFromIndex k index = some i) :
    index % 2 ^ 32 ≤ k.lastInterface ∧ i = k.interfaces (index % 2 ^ 32) := by
  unfold interfaceFromIndex at h
  split at h
  · cases h
  · rename_i hle
    exact ⟨not_lt.1 hle, (Option.some.inj h).symm⟩

theorem obtainInterface_ok {k k' : Kernel} {e : ℕ} (h : obtainInterface k = .ok k' e) :
    e = k.freeInterface ∧ e ≠ 0 ∧ e % 2 ^ 32 ≤ k.lastInterface ∧
      (k.interfaces (e % 2 ^ 32)).marker = freeMarker ∧
      (k.interfaces (e % 2 ^ 32)).next ≠ 0 ∧
      k' = { k with freeInterface := (k.interfaces (e % 2 ^ 32)).next } := by
  simp only [obtainInterface] at h
  split at h
  · cases h
  · rename_i h₀
    split at h
    · cases h
    · rename_i result hr
      obtain ⟨hle, rfl⟩ := interfaceFromIndex_some hr
      split at h
      · cases h
      · rename_i hm
        split at h
        · cases h
        · rename_i hn
          cases h
          exact ⟨rfl, h₀, hle, not_not.1 hm, hn, rfl⟩

/-- A new interface is in the slot that was the first free one. -/
theorem newInterface_ok {k k' : Kernel} {thread user provider handler value now : ℕ}
    (ht : thread ∈ k.contexts)
    (h : newInterface k thread user provider handler value = .ok k' now) :
    ∃ k₁ e, obtainInterface k = .ok k₁ e ∧ now = thread ∧
      k' = { k with
        ctx := setCtx k.ctx thread 4 e
        freeInterface := (k.interfaces (e % 2 ^ 32)).next
        interfaces := Function.update k.interfaces e ⟨user, provider, handler, value⟩ } := by
  unfold newInterface at h
  split at h
  · cases h
  · rename_i k₁ e he
    obtain ⟨-, -, -, -, -, rfl⟩ := obtainInterface_ok he
    cases h
    exact ⟨_, e, he, rfl, setFld_of_mem (by exact ht) 4 e⟩

end Isambard.El1
