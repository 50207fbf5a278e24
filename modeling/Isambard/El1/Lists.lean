import Isambard.Lib.Ring
import Isambard.El1.State

/-!
# El1.Lists — owned lists of threads

`include/doubly_linked_lists.h`, instantiated for thread contexts, and
`is_real_thread`. The functions go from pointer to pointer as the C code does;
for contexts that the kernel created each of them is an edit of the contexts'
words, and the `_eq` theorems say which:

* `linkAfter`, `linkBefore`, `unlink`: the edits, on the words;
* `insertNewThreadAfterOld_eq`, `insertThreadAsHead_runnable`, `removeThread_eq`:
  the functions of the source.
-/

namespace Isambard.El1

open Isambard.Lib

/-! ## The functions of the source -/

def insertNewThreadAfterOld (k : Kernel) (new old : ℕ) : Kernel :=
  let k := k.setNext new (k.next old)
  let k := k.setPrev new old
  let k := k.setNext old new
  let k := k.setPrev (k.next new) new
  k.setList new (k.list old)

def insertNewThreadBeforeOld (k : Kernel) (new old : ℕ) : Kernel :=
  let k := k.setNext new old
  let k := k.setPrev new (k.prev old)
  let k := k.setPrev old new
  let k := k.setNext (k.prev new) new
  k.setList new (k.list old)

/-- `list` is the address of the head variable. -/
def insertThreadAtTail (k : Kernel) (list newTail : ℕ) : Kernel :=
  let oldHead := k.load64 list
  if oldHead = 0 then
    let k := k.setNext newTail newTail
    let k := k.setPrev newTail newTail
    let k := k.setList newTail list
    k.store64 list newTail
  else insertNewThreadBeforeOld k newTail oldHead

def insertThreadAsHead (k : Kernel) (list newHead : ℕ) : Kernel :=
  (insertThreadAtTail k list newHead).store64 list newHead

/-- The first half of `remove_thread`: an entry that is the head of its list
leaves that to the next one. -/
def dropHead (k : Kernel) (entry : ℕ) : Kernel :=
  let head := k.load64 (k.list entry)
  if head = entry then
    let head := k.next head
    if head = entry then k.store64 (k.list entry) 0
    else k.store64 (k.list entry) head
  else k

def removeThread (k : Kernel) (entry : ℕ) : Kernel :=
  let k := dropHead k entry
  let k := k.setNext (k.prev entry) (k.next entry)
  let k := k.setPrev (k.next entry) (k.prev entry)
  let k := k.setPrev entry entry
  k.setNext entry entry

def couldBeInHeap (k : Kernel) (p : ℕ) : Bool := p < heapTop && k.heapBottom ≤ p

/-- The parameter is a `uint32_t`. -/
def isRealThread (k : Kernel) (code : ℕ) : Bool :=
  let code := code % 2 ^ 32
  let thread := threadFromCode code
  couldBeInHeap k code && couldBeInHeap k ((code + contextSize - 1) % 2 ^ 32) &&
    k.prev (k.next thread) == thread && k.next (k.prev thread) == thread

/-! ## The links as functions -/

/-- The `next` links, by the words of the contexts. -/
def nextOf (c : ℕ → ℕ → ℕ) (p : ℕ) : ℕ := c p 0

/-- The `prev` links. -/
def prevOf (c : ℕ → ℕ → ℕ) (p : ℕ) : ℕ := c p 1

theorem nextOf_setCtx_next (c : ℕ → ℕ → ℕ) (p v : ℕ) :
    nextOf (setCtx c p 0 v) = Function.update (nextOf c) p v := by
  funext q
  by_cases h : q = p
  · simp [nextOf, h]
  · simp [nextOf, h]

theorem prevOf_setCtx_prev (c : ℕ → ℕ → ℕ) (p v : ℕ) :
    prevOf (setCtx c p 1 v) = Function.update (prevOf c) p v := by
  funext q
  by_cases h : q = p
  · simp [prevOf, h]
  · simp [prevOf, h]

theorem nextOf_setCtx {c : ℕ → ℕ → ℕ} {p w v : ℕ} (h : w ≠ 0) :
    nextOf (setCtx c p w v) = nextOf c := by
  funext q
  simp [nextOf, h.symm]

theorem prevOf_setCtx {c : ℕ → ℕ → ℕ} {p w v : ℕ} (h : w ≠ 1) :
    prevOf (setCtx c p w v) = prevOf c := by
  funext q
  simp [prevOf, h.symm]

/-! ## The edits -/

/-- `new` comes after `old`. -/
def linkAfter (c : ℕ → ℕ → ℕ) (new old : ℕ) : ℕ → ℕ → ℕ :=
  let c := setCtx c new 0 (c old 0)
  let c := setCtx c new 1 old
  let c := setCtx c old 0 new
  let c := setCtx c (c new 0) 1 new
  setCtx c new 2 (c old 2)

/-- `new` comes before `old`. -/
def linkBefore (c : ℕ → ℕ → ℕ) (new old : ℕ) : ℕ → ℕ → ℕ :=
  let c := setCtx c new 0 old
  let c := setCtx c new 1 (c old 1)
  let c := setCtx c old 1 new
  let c := setCtx c (c new 1) 0 new
  setCtx c new 2 (c old 2)

/-- `e` leaves its ring. -/
def unlink (c : ℕ → ℕ → ℕ) (e : ℕ) : ℕ → ℕ → ℕ :=
  let c := setCtx c (c e 1) 0 (c e 0)
  let c := setCtx c (c e 0) 1 (c e 1)
  let c := setCtx c e 1 e
  setCtx c e 0 e

section Edits

variable {c : ℕ → ℕ → ℕ} {new old e : ℕ}

theorem linkAfter_next : nextOf (linkAfter c new old) =
    Function.update (Function.update (nextOf c) new (nextOf c old)) old new := by
  unfold linkAfter
  rw [nextOf_setCtx (by decide), nextOf_setCtx (by decide), nextOf_setCtx_next,
    nextOf_setCtx (by decide), nextOf_setCtx_next]
  rfl

theorem linkAfter_prev (h : new ≠ old) : prevOf (linkAfter c new old) =
    Function.update (Function.update (prevOf c) new old) (nextOf c old) new := by
  unfold linkAfter
  simp only [prevOf_setCtx (show 2 ≠ 1 by decide), prevOf_setCtx_prev,
    prevOf_setCtx (show 0 ≠ 1 by decide)]
  simp [h, nextOf]

theorem linkAfter_list (h : new ≠ old) (p : ℕ) :
    linkAfter c new old p 2 = if p = new then c old 2 else c p 2 := by
  unfold linkAfter
  simp [h.symm]

theorem linkAfter_other {p w : ℕ} (hw : 3 ≤ w) : linkAfter c new old p w = c p w := by
  have h₀ : w ≠ 0 := by omega
  have h₁ : w ≠ 1 := by omega
  have h₂ : w ≠ 2 := by omega
  simp [linkAfter, h₀, h₁, h₂]

theorem linkBefore_prev : prevOf (linkBefore c new old) =
    Function.update (Function.update (prevOf c) new (prevOf c old)) old new := by
  unfold linkBefore
  simp only [prevOf_setCtx (show 2 ≠ 1 by decide), prevOf_setCtx_prev,
    prevOf_setCtx (show 0 ≠ 1 by decide)]
  simp [prevOf]

theorem linkBefore_next (h : new ≠ old) : nextOf (linkBefore c new old) =
    Function.update (Function.update (nextOf c) new old) (prevOf c old) new := by
  unfold linkBefore
  simp only [nextOf_setCtx (show 2 ≠ 0 by decide), nextOf_setCtx_next,
    nextOf_setCtx (show 1 ≠ 0 by decide)]
  simp [h, prevOf]

theorem linkBefore_list (h : new ≠ old) (p : ℕ) :
    linkBefore c new old p 2 = if p = new then c old 2 else c p 2 := by
  unfold linkBefore
  simp [h.symm]

theorem linkBefore_other {p w : ℕ} (hw : 3 ≤ w) : linkBefore c new old p w = c p w := by
  have h₀ : w ≠ 0 := by omega
  have h₁ : w ≠ 1 := by omega
  have h₂ : w ≠ 2 := by omega
  simp [linkBefore, h₀, h₁, h₂]

theorem unlink_next : nextOf (unlink c e) =
    Function.update (Function.update (nextOf c) (prevOf c e) (nextOf c e)) e e := by
  unfold unlink
  simp only [nextOf_setCtx_next, nextOf_setCtx (show 1 ≠ 0 by decide)]
  rfl

/-- The node before `e` is another one, or `e` is alone. -/
theorem unlink_prev (h : prevOf c e = e → nextOf c e = e) : prevOf (unlink c e) =
    Function.update (Function.update (prevOf c) (nextOf c e) (prevOf c e)) e e := by
  unfold unlink
  simp only [prevOf_setCtx_prev, prevOf_setCtx (show 0 ≠ 1 by decide)]
  by_cases hp : c e 1 = e
  · have hn : c e 0 = e := h hp
    simp [prevOf, nextOf, hp, hn]
  · have hp' : e ≠ c e 1 := Ne.symm hp
    simp [prevOf, nextOf, hp']

theorem unlink_other {p w : ℕ} (hw : 2 ≤ w) : unlink c e p w = c p w := by
  have h₀ : w ≠ 0 := by omega
  have h₁ : w ≠ 1 := by omega
  simp [unlink, h₀, h₁]

end Edits

/-! ## The functions on created contexts -/

section Created

variable {k : Kernel} {new old e : ℕ}

theorem insertNewThreadAfterOld_eq (hnew : new ∈ k.contexts) (hold : old ∈ k.contexts)
    (hnext : k.ctx old 0 ∈ k.contexts) (hne : new ≠ old) :
    insertNewThreadAfterOld k new old = k.withCtx (linkAfter k.ctx new old) := by
  have hnext' : (setCtx (setCtx (setCtx k.ctx new 0 (k.ctx old 0)) new 1 old) old 0 new) new 0 ∈
      k.contexts := by simpa [hne] using hnext
  unfold insertNewThreadAfterOld linkAfter Kernel.setNext Kernel.setPrev Kernel.setList
    Kernel.next Kernel.list
  simp only [setFld_of_mem, fld_of_mem, hnew, hold, hnext', withCtx_contexts, withCtx_ctx,
    withCtx_withCtx]

theorem insertNewThreadBeforeOld_eq (hnew : new ∈ k.contexts) (hold : old ∈ k.contexts)
    (hprev : k.ctx old 1 ∈ k.contexts) (hne : new ≠ old) :
    insertNewThreadBeforeOld k new old = k.withCtx (linkBefore k.ctx new old) := by
  have hprev' : (setCtx (setCtx (setCtx k.ctx new 0 old) new 1
      (setCtx k.ctx new 0 old old 1)) old 1 new) new 1 ∈ k.contexts := by
    simpa [hne] using hprev
  unfold insertNewThreadBeforeOld linkBefore Kernel.setNext Kernel.setPrev Kernel.setList
    Kernel.prev Kernel.list
  simp only [setFld_of_mem, fld_of_mem, hnew, hold, hprev', withCtx_contexts, withCtx_ctx,
    withCtx_withCtx]

/-- A thread becomes the head of the runnable ring. -/
theorem insertThreadAsHead_runnable (hpl : Placed k) (hnew : new ∈ k.contexts)
    (hrun : k.runnable ∈ k.contexts) (hprev : k.ctx k.runnable 1 ∈ k.contexts)
    (hne : new ≠ k.runnable) :
    insertThreadAsHead k (runnableAddress k) new =
      { k.withCtx (linkBefore k.ctx new k.runnable) with runnable := new } := by
  unfold insertThreadAsHead insertThreadAtTail
  simp only [hpl.load64_runnable, hpl.ne_zero hrun, if_false,
    insertNewThreadBeforeOld_eq hnew hrun hprev hne]
  exact (hpl.withCtx _).store64_runnable new

/-- A first thread in the list of the fake head. -/
theorem insertThreadAsHead_blocked_empty (hpl : Placed k) (hnew : new ∈ k.contexts)
    (hb : k.blocked = 0) :
    insertThreadAsHead k k.layout.blocked new =
      { k.withCtx (setCtx (setCtx (setCtx k.ctx new 0 new) new 1 new) new 2 k.layout.blocked)
        with blocked := new } := by
  set c := setCtx (setCtx (setCtx k.ctx new 0 new) new 1 new) new 2 k.layout.blocked with hc
  have htail : insertThreadAtTail k k.layout.blocked new =
      { k.withCtx c with blocked := new } := by
    unfold insertThreadAtTail Kernel.setNext Kernel.setPrev Kernel.setList
    simp only [hpl.load64_blocked, hb, if_true, setFld_of_mem, hnew, withCtx_contexts,
      withCtx_ctx, withCtx_withCtx, ← hc]
    exact (hpl.withCtx c).store64_blocked new
  have hpl' : Placed { k.withCtx c with blocked := new } := hpl.congr rfl rfl
  rw [insertThreadAsHead, htail]
  exact hpl'.store64_blocked new

/-- A further thread in the list of the fake head. -/
theorem insertThreadAtTail_blocked (hpl : Placed k) (hnew : new ∈ k.contexts)
    (hb : k.blocked ∈ k.contexts) (hprev : k.ctx k.blocked 1 ∈ k.contexts)
    (hne : new ≠ k.blocked) :
    insertThreadAtTail k k.layout.blocked new =
      k.withCtx (linkBefore k.ctx new k.blocked) := by
  unfold insertThreadAtTail
  simp only [hpl.load64_blocked, hpl.ne_zero hb, if_false,
    insertNewThreadBeforeOld_eq hnew hb hprev hne]

/-- The pointers that owner fields hold: none, or one of the two head variables. -/
def OwnerOk (k : Kernel) (a : ℕ) : Prop :=
  a = 0 ∨ a = runnableAddress k ∨ a = k.layout.blocked

/-- `remove_thread` unlinks the entry, after the head variable is set. -/
theorem removeThread_eq (he : e ∈ k.contexts) (hn : k.ctx e 0 ∈ k.contexts)
    (hp : k.ctx e 1 ∈ k.contexts)
    (hd : (dropHead k e).ctx = k.ctx) (hdc : (dropHead k e).contexts = k.contexts) :
    removeThread k e = (dropHead k e).withCtx (unlink k.ctx e) := by
  unfold removeThread
  generalize dropHead k e = d at hd hdc
  have hn' : (setCtx d.ctx (d.ctx e 1) 0 (d.ctx e 0)) e 0 ∈ d.contexts := by
    rw [hd, hdc]
    by_cases h : k.ctx e 1 = e
    · simpa [h] using hn
    · simpa [Ne.symm h] using hn
  rw [← hdc] at he hp
  rw [← hd] at hp ⊢
  unfold unlink Kernel.setNext Kernel.setPrev Kernel.next Kernel.prev
  simp only [setFld_of_mem, fld_of_mem, he, hp, hn', withCtx_contexts, withCtx_ctx,
    withCtx_withCtx]

end Created

/-! ## Threads that pass for real -/

/-- The thread is linked into a ring of created threads. -/
structure OnRing (k : Kernel) (p : ℕ) : Prop where
  mem : p ∈ k.contexts
  next : k.ctx p 0 ∈ k.contexts
  prev : k.ctx p 1 ∈ k.contexts
  nextPrev : k.ctx (k.ctx p 0) 1 = p
  prevNext : k.ctx (k.ctx p 1) 0 = p

/-- `is_real_thread` takes the code of such a thread. -/
theorem OnRing.real {k : Kernel} {code : ℕ} (hpl : Placed k)
    (h : OnRing k (threadFromCode code)) : isRealThread k code = true := by
  have hfloor := hpl.bottom _ h.mem
  have htop := hpl.top _ h.mem
  have hcode : threadFromCode code = startAddress + code % 2 ^ 32 := by
    by_cases h0 : code % 2 ^ 32 = 0
    · have hz : threadFromCode code = 0 := by rw [threadFromCode, if_pos h0]
      exact absurd hz (hpl.ne_zero h.mem)
    · rw [threadFromCode, if_neg h0]
  have hmod : threadFromCode (code % 2 ^ 32) = threadFromCode code := by
    unfold threadFromCode
    rw [Nat.mod_mod]
  have hheap : couldBeInHeap k (code % 2 ^ 32) = true ∧
      couldBeInHeap k ((code % 2 ^ 32 + contextSize - 1) % 2 ^ 32) = true := by
    rw [hcode] at hfloor htop
    unfold couldBeInHeap
    simp only [Bool.and_eq_true, decide_eq_true_eq]
    unfold contextSize heapTop at *
    omega
  unfold isRealThread Kernel.prev Kernel.next
  simp only [hmod, hheap.1, hheap.2, Bool.true_and]
  rw [fld_of_mem h.mem, fld_of_mem h.mem, fld_of_mem h.next, fld_of_mem h.prev,
    h.nextPrev, h.prevNext]
  simp

/-- So do the threads of a ring. -/
theorem onRing_of_ring {k : Kernel} {a p : ℕ} {t : List ℕ}
    (hr : Ring (nextOf k.ctx) (prevOf k.ctx) a t) (hmem : ∀ q ∈ a :: t, q ∈ k.contexts)
    (hp : p ∈ a :: t) : OnRing k p := by
  have hclosed := ring_closed hr p hp
  have hback := ring_back hr p hp
  exact ⟨hmem p hp, hmem _ hclosed.1, hmem _ hclosed.2, hback.1, hback.2⟩

/-! ## What the functions leave alone -/

section Left

variable {k : Kernel}

theorem insertNewThreadAfterOld_stores (k : Kernel) (new old : ℕ) :
    Stores k (insertNewThreadAfterOld k new old) :=
  ((((setFld_stores k _ _ _).trans (setFld_stores _ _ _ _)).trans
    (setFld_stores _ _ _ _)).trans (setFld_stores _ _ _ _)).trans (setFld_stores _ _ _ _)

theorem insertNewThreadBeforeOld_stores (k : Kernel) (new old : ℕ) :
    Stores k (insertNewThreadBeforeOld k new old) :=
  ((((setFld_stores k _ _ _).trans (setFld_stores _ _ _ _)).trans
    (setFld_stores _ _ _ _)).trans (setFld_stores _ _ _ _)).trans (setFld_stores _ _ _ _)

theorem insertThreadAtTail_stores (k : Kernel) (list new : ℕ) :
    Stores k (insertThreadAtTail k list new) := by
  unfold insertThreadAtTail
  simp only
  split
  · exact (((setFld_stores k _ _ _).trans (setFld_stores _ _ _ _)).trans
      (setFld_stores _ _ _ _)).trans (store64_stores _ _ _)
  · exact insertNewThreadBeforeOld_stores k _ _

theorem insertThreadAsHead_stores (k : Kernel) (list new : ℕ) :
    Stores k (insertThreadAsHead k list new) :=
  (insertThreadAtTail_stores k list new).trans (store64_stores _ _ _)

theorem dropHead_stores (k : Kernel) (e : ℕ) : Stores k (dropHead k e) := by
  unfold dropHead
  simp only
  split
  · split
    · exact store64_stores k _ _
    · exact store64_stores k _ _
  · exact .refl k

theorem removeThread_stores (k : Kernel) (e : ℕ) : Stores k (removeThread k e) :=
  ((((dropHead_stores k e).trans (setFld_stores _ _ _ _)).trans
    (setFld_stores _ _ _ _)).trans (setFld_stores _ _ _ _)).trans (setFld_stores _ _ _ _)

/-- The thread is at the head of the runnable threads, whatever the links are. -/
theorem insertThreadAsHead_head (hpl : Placed k) (new : ℕ) :
    (insertThreadAsHead k (runnableAddress k) new).runnable = new := by
  have hs := insertThreadAtTail_stores k (runnableAddress k) new
  unfold insertThreadAsHead
  generalize insertThreadAtTail k (runnableAddress k) new = k' at hs
  have haddr : runnableAddress k = runnableAddress k' := by
    unfold runnableAddress
    rw [hs.layout]
  rw [haddr, (hs.placed hpl).store64_runnable]

end Left

end Isambard.El1
