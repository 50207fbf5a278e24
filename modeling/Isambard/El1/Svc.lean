import Isambard.El1.Interfaces

/-!
# El1.Svc — the supervisor calls

`include/svc_handling.h`, and from `secure_el1.c` the requests of the system
driver (`system_driver_request`), the handlers of synchronous exceptions and
interrupts, and what the vector code saves of a thread's registers.

A handler is given the running thread and returns the thread to run next: the
member `then` of its result is always the running thread. A `BSOD`, an `smc` and
a loop that never ends are `Outcome.halt`, with the state the core halts in.
-/

namespace Isambard.El1

open Isambard.Lib

/-! ## The gate -/

/-- `THREAD_WAITING`, -1. -/
def threadWaiting : ℕ := 2 ^ 64 - 1

/-- The thread's mode is one of a virtual machine: AArch32, or EL2. -/
def isVirtual (spsr : ℕ) : Bool := field 4 1 spsr != 0 || field 1 4 spsr == 4

/-- The loop over the threads whose time has come. The queue holds each thread at
most once; a list that is longer does not end. -/
def expire (thread : ℕ) : ℕ → Kernel → ℕ → Option (Kernel × ℕ)
  | 0, _, _ => none
  | n + 1, k, blockedListHead =>
    let k := k.setReg blockedListHead 0 (2 ^ 64 - 1)
    let k := k.setGate blockedListHead 0
    let k := insertNewThreadAfterOld k blockedListHead thread
    let head := k.reg blockedListHead 17
    if head ≠ 0 ∧ k.reg head 1 = 0 then expire thread n k head else some (k, head)

/-- A timer tick, when the interrupt thread waits. -/
def tick (k : Kernel) (thread : ℕ) : Outcome ℕ :=
  let head := k.blockedWithTimeout
  if head ≠ 0 then
    let k := k.setReg head 1 ((k.reg head 1 + 2 ^ 64 - 1) % 2 ^ 64)
    if k.reg head 1 = 0 then
      match expire thread k.contexts.length k head with
      | none => .halt k
      | some (k, head) =>
        let k := { k with blockedWithTimeout := head }
        if head ≠ 0 then .ok (k.setReg head 16 (blockedWithTimeoutAddress k)) thread
        else .ok k thread
    else .ok k thread
  else .ok k thread

/-- The place in the queue for a thread that waits for `remaining` ticks: the
address of the link, the thread it points to, and the ticks that remain when
the threads before it have timed out. -/
def findSlot (k : Kernel) : ℕ → ℕ → ℕ → Option (ℕ × ℕ × ℕ)
  | 0, _, _ => none
  | n + 1, prev, remaining =>
    let blockedThread := k.load64 prev
    if blockedThread ≠ 0 ∧ remaining > k.reg blockedThread 1 then
      findSlot k n (regAddress blockedThread 17) (remaining - k.reg blockedThread 1)
    else some (prev, blockedThread, remaining)

/-- The thread is put into the queue. -/
def joinQueue (k : Kernel) (thread prev blockedThread remaining : ℕ) : Kernel :=
  let k := k.setReg thread 1 remaining
  let k := k.setReg thread 17 blockedThread
  let k := k.setReg thread 16 prev
  let k := k.store64 prev thread
  if blockedThread ≠ 0 then
    let k := k.setReg blockedThread 1
      ((k.reg blockedThread 1 + 2 ^ 64 - remaining) % 2 ^ 64)
    k.setReg blockedThread 16 (regAddress thread 17)
  else k

/-- The thread leaves the runnable threads, and waits. -/
def waitAtGate (k : Kernel) (thread : ℕ) : Outcome ℕ :=
  let now := k.next thread
  let k := { k with runnable := k.next thread }
  let k := removeThread k thread
  let k := k.setGate thread threadWaiting
  let k := k.setReg thread 0 0
  if k.reg thread 1 > 0 then
    match findSlot k (k.contexts.length + 1) (blockedWithTimeoutAddress k) (k.reg thread 1) with
    | none => .halt k
    | some (prev, blockedThread, remaining) =>
      .ok (joinQueue k thread prev blockedThread remaining) now
  else .ok ((k.setReg thread 16 0).setReg thread 17 0) now

/-- The woken thread leaves the queue. -/
def leaveQueue (k : Kernel) (releaseThread : ℕ) : Kernel :=
  if k.reg releaseThread 16 ≠ 0 then
    let prevp := k.reg releaseThread 16
    let next := k.reg releaseThread 17
    let k := k.store64 prevp next
    if next ≠ 0 then
      let k := k.setReg next 1 ((k.reg next 1 + k.reg releaseThread 1) % 2 ^ 64)
      k.setReg next 16 (k.reg releaseThread 16)
    else k
  else k

def resumeThread (k : Kernel) (thread releaseThread : ℕ) : Outcome ℕ :=
  if k.gate releaseThread = threadWaiting then
    if k.currentMap thread = k.currentMap releaseThread then
      let k := insertNewThreadAfterOld k releaseThread thread
      let k := k.setGate releaseThread 0
      .ok (leaveQueue k releaseThread) thread
    else .halt k
  -- the gate is signed
  else if k.gate releaseThread < 0x7fffffff ∨ 2 ^ 63 ≤ k.gate releaseThread then
    .ok (k.setGate releaseThread ((k.gate releaseThread + 1) % 2 ^ 64)) thread
  else .ok k thread

def handleSvcGate (k : Kernel) (thread : ℕ) : Outcome ℕ :=
  -- smc 5
  if k.partner thread = 0 ∧ isVirtual (k.spsr thread) then .halt k
  else if k.reg thread 0 = 0 then
    if thread = k.interruptThread then
      if k.currentMap thread ≠ systemMapIndex then .halt k else tick k thread
    else if 0 < k.gate thread ∧ k.gate thread < 2 ^ 63 then
      .ok ((k.setReg thread 0 (k.gate thread)).setGate thread 0) thread
    else waitAtGate k thread
  else if isRealThread k (k.reg thread 0) then
    resumeThread k thread (threadFromCode (k.reg thread 0))
  else .halt k

/-! ## Locks -/

/-- The part of `handle_svc_wait_for_lock` for a lock that another thread holds. -/
def blockOnLock (k : Kernel) (thread lockValue : ℕ) : Outcome ℕ :=
  let x17 := k.reg thread 17
  let x18 := k.reg thread 18
  let blockedThreadCode := lockValue / 2 ^ 32
  let lockingThreadCode := lockValue % 2 ^ 32
  if !isRealThread k lockingThreadCode then .halt k
  else if blockedThreadCode ≠ 0 ∧ !isRealThread k blockedThreadCode then .halt k
  else
    let now := k.next thread
    let k := { k with runnable := now }
    -- "what happened to the idle thread?"
    if now = thread then .halt k
    else
      let k := removeThread k thread
      if blockedThreadCode = 0 then
        let k := { k with blocked := 0 }
        let k := insertThreadAsHead k k.layout.blocked thread
        .ok (k.store64 x17 (lockingThreadCode + x18 % 2 ^ 32 * 2 ^ 32)) now
      else
        let firstBlockedThread := threadFromCode blockedThreadCode
        let k := { k with blocked := firstBlockedThread }
        if firstBlockedThread ≠ 0 ∧ k.reg firstBlockedThread 17 ≠ x17 then .halt k
        else .ok (insertThreadAtTail k k.layout.blocked thread) now

/-- The kernel runs with interrupts off, and its exclusive stores succeed: the
loop is gone through once. An exclusive load of an unaligned word faults. -/
def handleSvcWaitForLock (k : Kernel) (thread : ℕ) : Outcome ℕ :=
  let x17 := k.reg thread 17
  let x18 := k.reg thread 18
  match addressIsUserWritable k thread x17 with
  | .halt k => .halt k
  | .ok k false => .halt k
  | .ok k true =>
    if threadFromCode x18 ≠ thread then .halt k
    else if x17 % 8 ≠ 0 then .halt k
    else
      let lockValue := k.load64 x17
      if lockValue = 0 then .ok (k.store64 x17 x18) thread
      else if lockValue = x18 then .ok k thread
      else blockOnLock k thread lockValue

/-- The part of `handle_svc_release_lock` for a lock that others wait for: the
first of them has the lock now, and runs. -/
def passLock (k : Kernel) (x17 blockedThreadCode : ℕ) : Outcome ℕ :=
  if !isRealThread k blockedThreadCode then .halt k
  else
    let firstBlockedThread := threadFromCode blockedThreadCode
    if firstBlockedThread = k.next firstBlockedThread then
      let k := insertThreadAsHead k (runnableAddress k) firstBlockedThread
      .ok (k.store64 x17 blockedThreadCode) firstBlockedThread
    else
      let k := { k with blocked := k.next firstBlockedThread }
      let k := removeThread k firstBlockedThread
      let newValue := blockedThreadCode + threadCode k.blocked * 2 ^ 32
      let k := insertThreadAsHead k (runnableAddress k) firstBlockedThread
      .ok (k.store64 x17 newValue) firstBlockedThread

def handleSvcReleaseLock (k : Kernel) (thread : ℕ) : Outcome ℕ :=
  let x17 := k.reg thread 17
  let x18 := k.reg thread 18
  match addressIsUserWritable k thread x17 with
  | .halt k => .halt k
  | .ok k false => .halt k
  | .ok k true =>
    if threadFromCode x18 ≠ thread then .halt k
    else
      let lockValue := k.load64 x17
      if lockValue = 0 then .halt k
      else
        let blockedThreadCode := lockValue / 2 ^ 32
        let lockingThreadCode := lockValue % 2 ^ 32
        if lockingThreadCode ≠ x18 then .halt k
        else if blockedThreadCode ≠ 0 then passLock k x17 blockedThreadCode
        else .ok (k.store64 x17 0) thread

/-! ## The heap -/

/-- The new bottom of the heap, and a pointer to what was allocated. -/
def allocateHeap (k : Kernel) (size : ℕ) : Kernel × ℕ :=
  let size := (size + 31) % 2 ^ 64 / 32 * 32
  let newBottom := (k.heapBottom + 2 ^ 64 - size) % 2 ^ 32
  ({ k with heapBottom := newBottom }, (startAddress + newBottom) % 2 ^ 64)

/-- The block `[p, p + size)` is in the part of the heap that is mapped. -/
def inMappedHeap (p size : ℕ) : Bool :=
  startAddress + heapTop - initialHeap ≤ p && p + size ≤ startAddress + heapTop

/-- The words of a new context, over those that were in its place. -/
def newContext (p : ℕ) (row : ℕ → ℕ) (w : ℕ) : ℕ :=
  if w = 0 ∨ w = 1 then p
  else if w = 2 ∨ w = 3 then 0
  else if w = 22 then threadCode p
  else if 4 ≤ w ∧ w < 35 then (p % 2 ^ 24 * 2 ^ 8 + (w - 4)) % 2 ^ 64
  else if w = 37 then setField 0 32 0 (row 37)
  else if w = 38 ∨ w = 40 then 0
  else if w = 41 then frameAddress p 5
  else if w = 42 then frameAddress p 0
  else if w = 58 then 0
  else if w = 59 then systemServiceThreadExit
  else if w = 60 then setField 0 32 systemMapIndex (row 60)
  else row w

/-- `initialise_new_thread`, for a context in the block just allocated. -/
def initialiseNewThread (k : Kernel) (p : ℕ) : Kernel :=
  { k with
    contexts := p :: k.contexts
    ctx := Function.update k.ctx p (newContext p fun w => k.load64 (p + 8 * w)) }

/-- `initialise_new_thread` for a block that reaches below the heap: the registers
are stored first, and the first store to a page that is not mapped halts the
core. -/
def initialiseFaults (k : Kernel) (p : ℕ) : Kernel :=
  if startAddress + heapTop - initialHeap ≤ regAddress p 0 then
    { k with
      mem := fun a =>
        if regAddress p 0 ≤ a ∧ a < regAddress p 31 then
          (p % 2 ^ 24 * 2 ^ 8 + (a - regAddress p 0) / 8) % 2 ^ 64
        else k.mem a }
  else k

/-- The copying loop of `read_heap` and `write_heap`, for `n` words. -/
def copyWords (ok : Kernel → ℕ → ℕ → Bool) : ℕ → Kernel → ℕ → ℕ → Outcome Unit
  | 0, k, _, _ => .ok k ()
  | n + 1, k, destination, source =>
    if ok k destination source then
      copyWords ok n (k.store64 destination (k.load64 source)) (destination + 8) (source + 8)
    else .halt k

/-- The kernel's own tables map its data with the cores and the interface table,
and the heap. -/
def kernelMapped (k : Kernel) (a : ℕ) : Bool :=
  k.layout.dataStart ≤ a && a + 8 ≤ k.layout.interfaces + 24 * tableSize ||
    startAddress + heapTop - initialHeap ≤ a && a + 8 ≤ startAddress + heapTop

/-- The kernel can store a word at `a`: in its own memory, or in a page of the
loaded map that is not read-only. -/
def kernelWritable (k : Kernel) (a : ℕ) : Bool :=
  kernelMapped k a ||
    match leaf k a, leaf k (a + 7) with
    | some (e, _), some (e', _) =>
      Entry.readOnly e == 0 && Entry.accessFlag e == 1 &&
        Entry.readOnly e' == 0 && Entry.accessFlag e' == 1
    | _, _ => false

/-- The kernel can load a word from `a`. Its code is mapped too. -/
def kernelReadable (k : Kernel) (a : ℕ) : Bool :=
  kernelMapped k a || startAddress ≤ a && a + 8 ≤ k.layout.dataStart ||
    match leaf k a, leaf k (a + 7) with
    | some (e, _), some (e', _) => Entry.accessFlag e == 1 && Entry.accessFlag e' == 1
    | _, _ => false

/-- The tests that `read_heap` and `write_heap` make. -/
def heapBlockOk (k : Kernel) (offset length : ℕ) : Bool :=
  offset ≤ (heapTop + 2 ^ 32 - k.heapBottom) % 2 ^ 32 && offset % 16 == 0 && length % 16 == 0

/-- The pointer `start_address() + kernel_heap_top - offset`. -/
def heapPointer (offset : ℕ) : ℕ := startAddress + heapTop - offset

def readHeap (k : Kernel) (offset length destination : ℕ) : Outcome Unit :=
  if heapBlockOk k offset length then
    copyWords (fun k d s => kernelReadable k s && kernelWritable k d) (length / 8) k destination
      (heapPointer offset)
  else .halt k

def writeHeap (k : Kernel) (offset length source : ℕ) : Outcome Unit :=
  if heapBlockOk k offset length then
    copyWords (fun k d s => kernelReadable k s && kernelWritable k d) (length / 8) k
      (heapPointer offset) source
  else .halt k

/-! ## Requests of the system driver -/

/-- `Isambard_System_Service_...`. -/
inductive Request where
  | setInterruptThread
  | addDevicePage
  | updatedMap
  | createMap
  | nextDriver
  | readInterface
  | readHeap
  | writeHeap
  | allocateHeap
  | freeHeap
  | makePartner
  | createThread
deriving Repr, DecidableEq

def Request.ofCode : ℕ → Option Request
  | 1 => some .setInterruptThread
  | 2 => some .addDevicePage
  | 3 => some .updatedMap
  | 4 => some .createMap
  | 5 => some .nextDriver
  | 6 => some .readInterface
  | 7 => some .readHeap
  | 8 => some .writeHeap
  | 9 => some .allocateHeap
  | 10 => some .freeHeap
  | 16 => some .makePartner
  | 17 => some .createThread
  | _ => none

def setInterruptThread (k : Kernel) (thread : ℕ) : Outcome ℕ :=
  let finish (k : Kernel) : Outcome ℕ :=
    let now := k.next thread
    let k := removeThread k thread
    .ok { k with runnable := now } now
  if k.interruptThread ≠ 0 then
    if k.interruptThread ≠ thread then .halt k else finish k
  else
    let k := { k with interruptThread := thread }
    finish (k.setSpsr thread 0x80)

/-- The address of `core->system_thread_stack.entry[i]`. -/
def coreStackEntry (k : Kernel) (i : ℕ) : ℕ := k.layout.core + 8 * i

def addDevicePage (k : Kernel) (thread : ℕ) : Outcome ℕ :=
  let entry := Entry.shared 3 (Entry.el0Rw (Entry.deviceMemory (Entry.pageAt (k.reg thread 1))))
  let page := k.reg thread 2 / 4096 % 2 ^ 32
  if page ≥ 32 then .halt k
  else if k.sharedSystemMap page ≠ Entry.invalid then .halt k
  else
    let k := k.setWord (coreStackEntry k 4) (k.reg thread 2)
    let k := { k with sharedSystemMap := Function.update k.sharedSystemMap page entry }
    let k := setL3 k page entry
    let k := if page ≥ k.sharedSystemMapMappedPages then
        { k with sharedSystemMapMappedPages := page + 1 }
      else k
    .ok (k.setReg thread 0 (page * 4096)) thread

def updatedMap (k : Kernel) (thread : ℕ) : Outcome ℕ :=
  .ok { k with
    l3 := fun i =>
      if k.sharedSystemMapCorePage < i ∧ i < k.sharedSystemMapMappedPages then k.sharedSystemMap i
      else k.l3 i } thread

def createMap (k : Kernel) (thread : ℕ) : Outcome ℕ :=
  newInterface k thread (k.callerMap (k.stackPointer thread)) (k.currentMap thread)
    (k.reg thread 0) (k.reg thread 1)

/-- The address of `interfaces()[index].object`. -/
def objectAddress (k : Kernel) (index : ℕ) : ℕ := k.layout.interfaces + 24 * (index % 2 ^ 32) + 16

/-- The slot `kernel_last_interface` is let through, and is behind the pages of the table: there
the load of its object ends in an abort of the kernel. -/
def readInterface (k : Kernel) (thread : ℕ) : Outcome ℕ :=
  match interfaceFromIndex k (k.reg thread 1) with
  | none => .halt k
  | some e =>
    if kernelMapped k (objectAddress k (k.reg thread 1)) then
      .ok (k.setReg thread 0 e.object) thread
    else .halt k

def createThread (k : Kernel) (thread : ℕ) : Outcome ℕ :=
  if k.reg thread 2 % 16 ≠ 0 then .halt k
  else
    let (k, newThread) := allocateHeap k contextSize
    if !inMappedHeap newThread contextSize then .halt (initialiseFaults k newThread)
    else
      let k := initialiseNewThread k newThread
      let k := k.setCurrentMap newThread (k.callerMap (k.stackPointer thread))
      let k := k.setPc newThread (k.reg thread 1)
      let k := k.setSp newThread (k.reg thread 2)
      let k := k.setSpsr newThread 0
      let k := k.setReg thread 0 (threadCode newThread)
      .ok (insertThreadAsHead k (runnableAddress k) newThread) newThread

/-- `sizeof( vm_state )`. -/
def vmStateSize : ℕ := 8 * 18

/-- The words of the `vm_state` behind a partner's context. -/
def clearVmState (k : Kernel) (partner : ℕ) : Kernel :=
  let base := partner + contextSize
  { k with mem := fun a => if base ≤ a ∧ a < base + vmStateSize then 0 else k.mem a }

def makePartner (k : Kernel) (thread : ℕ) : Outcome ℕ :=
  if k.partner thread ≠ 0 then .halt k
  else
    let (k, partner) := allocateHeap k (contextSize + vmStateSize)
    -- memset is the first to store
    if partner + contextSize < startAddress + heapTop - initialHeap then .halt k
    else
      let k := clearVmState k partner
      let k := k.setPartner thread partner
      if !inMappedHeap partner (contextSize + vmStateSize) then .halt (initialiseFaults k partner)
      else
        let k := initialiseNewThread k partner
        let k := k.setPartner partner thread
        let k := k.setCurrentMap partner (k.callerMap (k.stackPointer thread))
        let k := k.setPc partner 0
        .ok (k.setSpsr partner 0x1d3) thread

/-- The cases of `system_driver_request`. -/
def serveRequest (k : Kernel) (thread : ℕ) : Outcome ℕ :=
  match Request.ofCode (k.reg thread 0) with
  | some .addDevicePage => addDevicePage k thread
  | some .updatedMap => updatedMap k thread
  | some .createMap => createMap k thread
  | some .readInterface => readInterface k thread
  | some .readHeap =>
    match readHeap k (k.reg thread 1) (k.reg thread 2) (k.reg thread 3) with
    | .halt k => .halt k
    | .ok k _ => .ok k thread
  | some .writeHeap =>
    match writeHeap k (k.reg thread 1) (k.reg thread 2) (k.reg thread 3) with
    | .halt k => .halt k
    | .ok k _ => .ok k thread
  | some .allocateHeap =>
    let (k, p) := allocateHeap k (k.reg thread 1)
    .ok (k.setReg thread 0 p) thread
  -- free_heap has no way but a BSOD
  | some .freeHeap => .halt k
  | some .createThread => createThread k thread
  | some .setInterruptThread => setInterruptThread k thread
  | some .makePartner => makePartner k thread
  | some .nextDriver | none =>
    .halt (k.setWord (coreStackEntry k 3) (k.reg thread 0))

def systemDriverRequest (k : Kernel) (thread : ℕ) : Outcome ℕ :=
  match serveRequest k thread with
  | .halt k => .halt k
  | .ok k now =>
    if now ≠ thread ∧ k.currentMap now ≠ k.currentMap thread then
      match changeMap k now (k.currentMap now) with
      | .halt k => .halt k
      | .ok k _ => .ok k now
    else .ok k now

/-! ## Calls between maps -/

/-- A frame is pushed: the caller's stack pointer, return address and map. -/
def pushFrame (k : Kernel) (thread : ℕ) : Kernel :=
  let k := k.setStackPointer thread ((k.stackPointer thread + 2 ^ 64 - 24) % 2 ^ 64)
  let k := k.store64 (k.stackPointer thread) k.spEl0
  let k := k.store64 (k.stackPointer thread + 8) (k.pc thread)
  let a := k.stackPointer thread + 16
  k.store64 a (setField 0 32 (k.currentMap thread) (k.load64 a))

/-- `DRIVER_SYSTEM_physical_address_of`. -/
def physicalAddressOfCall : ℕ := 0x4a274f85

/-- The call that the kernel answers itself. -/
def physicalAddressOf (k : Kernel) (thread : ℕ) : Outcome ℕ :=
  match addressIsUserWritable k thread (k.reg thread 2) with
  | .halt k => .halt k
  | .ok k writable =>
    match writable, walk k (k.reg thread 2) with
    | true, some pa =>
      .ok (k.setReg thread 0 (pa / 4096 * 4096 + k.reg thread 2 % 4096)) thread
    | _, _ => .halt k

/-- `ISAMBARD_CALL`, the inter-map call. -/
def handleCall (k : Kernel) (thread : ℕ) : Outcome ℕ :=
  if k.reg thread 18 ≠ threadCode thread then .halt k
  else
    match interfaceFromIndex k (k.reg thread 0) with
    | none => .halt k
    | some interface =>
      if interface.provider = systemMapIndex ∧ interface.handler = systemServiceMap ∧
          k.reg thread 1 = physicalAddressOfCall then
        physicalAddressOf k thread
      else if interface.user ≠ k.currentMap thread then .halt k
      else
        let index := k.reg thread 0 % 2 ^ 32
        let k := k.setReg thread 0 interface.object
        let k := pushFrame k thread
        if k.stackPointer thread ≤ k.stackLimit thread + 24 then .halt k
        else
          let provider := (k.interfaces index).provider
          if provider ≠ k.currentMap thread then
            match changeMap k thread provider with
            | .halt k => .halt k
            | .ok k _ => .ok (k.setPc thread (k.interfaces index).handler) thread
          else .ok (k.setPc thread (k.interfaces index).handler) thread

/-- The part that `ISAMBARD_RETURN` and `ISAMBARD_EXCEPTION` share, with the
value of the overflow flag. -/
def popFrame (k : Kernel) (thread overflow : ℕ) : Outcome ℕ :=
  let k := k.setPc thread (k.callerReturnAddress (k.stackPointer thread))
  let k := { k with spEl0 := k.callerSp (k.stackPointer thread) }
  let finish (k : Kernel) : Outcome ℕ :=
    let k := k.setStackPointer thread ((k.stackPointer thread + 24) % 2 ^ 64)
    .ok (k.setSpsr thread (setField 28 1 overflow (k.spsr thread))) thread
  if k.currentMap thread ≠ k.callerMap (k.stackPointer thread) then
    match changeMap k thread (k.callerMap (k.stackPointer thread)) with
    | .halt k => .halt k
    | .ok k _ => finish k
  else finish k

def handleReturn (k : Kernel) (thread : ℕ) : Outcome ℕ := popFrame k thread 0

/-- "Still at the stage where everything should be working properly, so
exceptions are exceptional": the core halts (smc 4). -/
def handleException (k : Kernel) (thread : ℕ) : Outcome ℕ :=
  .halt (popFrame k thread 1).kernel

/-! ## Threads and partners -/

def handleYield (k : Kernel) (thread : ℕ) : Outcome ℕ :=
  if k.next thread ≠ thread then
    let k := k.setReg thread 0 1
    let now := k.next thread
    .ok { k with runnable := now } now
  else .ok (k.setReg thread 0 0) thread

/-- The partner takes the thread's place among the runnable threads. -/
def swapPartner (k : Kernel) (thread : ℕ) : Kernel :=
  let k := k.setNext (k.partner thread) (k.next thread)
  let k := k.setPrev (k.partner thread) (k.prev thread)
  let k := k.setPrev (k.next thread) (k.partner thread)
  let k := k.setNext (k.prev thread) (k.partner thread)
  let k := k.setNext thread thread
  k.setPrev thread thread

def handleSwitchToPartner (k : Kernel) (thread : ℕ) : Outcome ℕ :=
  if k.partner thread = 0 then .halt k
  else if k.currentMap thread ≠ k.currentMap (k.partner thread) then .halt k
  else
    let k := swapPartner k thread
    let now := k.partner thread
    let k := { k with runnable := now }
    -- otherwise EL2 has stored the first three registers
    if isVirtual (k.spsr now) then .ok (k.setPc now (k.reg thread 1)) now else .ok k now

/-- The tests that the calls for a partner's registers make. -/
def partnerReadable (k : Kernel) (thread : ℕ) : Bool :=
  k.partner thread != 0 && k.currentMap thread == k.currentMap (k.partner thread) &&
    decide (k.reg thread 0 % 2 ^ 32 ≤ 31) && isVirtual (k.spsr (k.partner thread))

def handleGetPartnerReg (k : Kernel) (thread : ℕ) : Outcome ℕ :=
  if partnerReadable k thread then
    .ok (k.setReg thread 0 (k.reg (k.partner thread) (k.reg thread 0 % 2 ^ 32))) thread
  else .halt k

def handleSetPartnerReg (k : Kernel) (thread : ℕ) : Outcome ℕ :=
  if partnerReadable k thread then
    .ok (k.setReg (k.partner thread) (k.reg thread 0 % 2 ^ 32) (k.reg thread 1)) thread
  else .halt k

/-- `VM_REGISTER_OUT_OF_RANGE`, as this file defines it. -/
def vmRegisterOutOfRange : ℕ := 20

/-- The address of `sysregs[i]`, behind the partner's context. -/
def sysregAddress (partner i : ℕ) : ℕ := (partner + contextSize + 8 * i) % 2 ^ 64

def handleChangeVmSystemRegister (k : Kernel) (thread : ℕ) : Outcome ℕ :=
  if !isRealThread k (k.reg thread 0) then .halt k
  else
    let partner := k.partner (threadFromCode (k.reg thread 0))
    if partner = 0 then .halt k
    else if k.currentMap thread ≠ k.currentMap partner then .halt k
    else
      let registerIndex := k.reg thread 1 % 2 ^ 32
      if registerIndex ≥ vmRegisterOutOfRange then .halt k
      else
        let a := sysregAddress partner registerIndex
        let oldValue := k.load64 a % 2 ^ 32
        let newValue :=
          if k.reg thread 3 ≠ 0 then k.reg thread 2 % 2 ^ 32 ^^^ (oldValue &&& k.reg thread 3)
          else k.reg thread 2 % 2 ^ 32
        let k :=
          if k.reg thread 2 ≠ 0 ∨ k.reg thread 3 ≠ 2 ^ 64 - 1 then k.store64 a newValue else k
        .ok (k.setReg thread 0 oldValue) thread

/-! ## Entering and leaving the kernel -/

/-- The supervisor calls, `ISAMBARD_...`. -/
inductive Svc where
  | invalidateAllCaches
  | gate
  | duplicateToReturn
  | duplicateToPass
  | interfaceToReturn
  | interfaceToPass
  | lockWait
  | lockRelease
  | yield
  | call
  | ret
  | exception
  | switchToPartner
  | getPartnerReg
  | setPartnerReg
  | changeVmSystemRegister
  | systemRequest
deriving Repr, DecidableEq

def Svc.ofNumber : ℕ → Option Svc
  | 0 => some .invalidateAllCaches
  | 0xf001 => some .gate
  | 0xf002 => some .duplicateToReturn
  | 0xf003 => some .duplicateToPass
  | 0xf004 => some .interfaceToReturn
  | 0xf005 => some .interfaceToPass
  | 0xf006 => some .lockWait
  | 0xf007 => some .lockRelease
  | 0xf008 => some .yield
  | 0xf009 => some .call
  | 0xf00a => some .ret
  | 0xf00b => some .exception
  | 0xf00c => some .switchToPartner
  | 0xf00d => some .getPartnerReg
  | 0xf00e => some .setPartnerReg
  | 0xf00f => some .changeVmSystemRegister
  | 0xf010 => some .systemRequest
  | _ => none

def handleSvc (k : Kernel) (thread number : ℕ) : Outcome ℕ :=
  match Svc.ofNumber number with
  | some .invalidateAllCaches => .ok k thread
  | some .gate => handleSvcGate k thread
  | some .duplicateToReturn => handleSvcDuplicateToReturn k thread
  | some .duplicateToPass => handleSvcDuplicateToPassTo k thread
  | some .interfaceToPass => handleSvcInterfaceToPassTo k thread
  | some .interfaceToReturn => handleSvcInterfaceToReturn k thread
  | some .lockWait => handleSvcWaitForLock k thread
  | some .lockRelease => handleSvcReleaseLock k thread
  | some .yield => handleYield k thread
  | some .exception => handleException k thread
  | some .ret => handleReturn k thread
  | some .call => handleCall k thread
  | some .switchToPartner => handleSwitchToPartner k thread
  | some .getPartnerReg => handleGetPartnerReg k thread
  | some .setPartnerReg => handleSetPartnerReg k thread
  | some .changeVmSystemRegister => handleChangeVmSystemRegister k thread
  | some .systemRequest => systemDriverRequest k thread
  | none => .halt k

/-- What a thread has in its registers when it enters the kernel. -/
structure Regs where
  x : ℕ → ℕ
  pc : ℕ
  spsr : ℕ

/-- The vector code stores x0 to x18, x30 in the place of x19, and the state to
return to. -/
def enteredRow (r : Regs) (row : ℕ → ℕ) (w : ℕ) : ℕ :=
  if 4 ≤ w ∧ w ≤ 22 then r.x (w - 4)
  else if w = 23 then r.x 30
  else if w = 36 then r.pc
  else if w = 37 then r.spsr
  else row w

def enter (k : Kernel) (thread : ℕ) (r : Regs) : Kernel :=
  k.withCtx (Function.update k.ctx thread (enteredRow r (k.ctx thread)))

/-- The rest is stored when another thread is to run. -/
def leftRow (r : Regs) (spEl0 : ℕ) (row : ℕ → ℕ) (w : ℕ) : ℕ :=
  if 23 ≤ w ∧ w ≤ 33 then r.x (w - 4)
  else if w = 34 then row 23
  else if w = 35 then spEl0
  else row w

def leave (k : Kernel) (thread now : ℕ) (r : Regs) : Kernel :=
  if now = thread then k
  else
    let k := k.withCtx (Function.update k.ctx thread (leftRow r k.spEl0 (k.ctx thread)))
    { k with spEl0 := k.fld now 35 }

/-- What makes a thread enter the kernel. -/
inductive Event where
  | svc (number : ℕ)
  /-- an instruction or data abort at EL0 -/
  | abort (faultAddress : ℕ)
  | irq
deriving Repr, DecidableEq

/-- `SEL1_LOWER_AARCH64_SYNC_CODE`, after the call itself. -/
def syncCode (thread : ℕ) : Outcome ℕ → Outcome ℕ
  | .halt k => .halt k
  | .ok k now =>
    if k.currentMap now ≠ k.currentMap thread then
      match changeMap k now (k.currentMap now) with
      | .halt k => .halt k
      | .ok k _ => if k.runnable ≠ now then .halt k else .ok k now
    else if k.runnable ≠ now then .halt k
    else .ok k now

/-- `SEL1_LOWER_AARCH64_IRQ_CODE`. -/
def irqCode (k : Kernel) (thread : ℕ) : Outcome ℕ :=
  let now := k.interruptThread
  if now = 0 then .halt k
  else
    let k := insertThreadAsHead k (runnableAddress k) now
    if k.currentMap now ≠ k.currentMap thread then
      match changeMap k now (k.currentMap now) with
      | .halt k => .halt k
      | .ok k _ => if k.runnable ≠ now then .halt k else .ok k now
    else if k.runnable ≠ now then .halt k
    else .ok k now

/-- The C handler of an event. -/
def handle (k : Kernel) (thread : ℕ) : Event → Outcome ℕ
  | .svc number => syncCode thread (handleSvc k thread number)
  | .abort faultAddress =>
    match findAndMapMemory k thread faultAddress with
    | .halt k => .halt k
    | .ok k _ => syncCode thread (.ok k thread)
  | .irq => irqCode k thread

/-- The running thread, with the registers `r`, enters the kernel. -/
def kernelStep (k : Kernel) (r : Regs) (e : Event) : Outcome ℕ :=
  let thread := k.runnable
  match handle (enter k thread r) thread e with
  | .halt k => .halt k
  | .ok k now => .ok (leave k thread now r) now

end Isambard.El1
