import Mathlib.Data.Nat.Notation
import Mathlib.Algebra.Order.Ring.Nat
import Mathlib.Logic.Function.Basic

/-!
# Allocator.Model — the physical memory allocator

The driver `drivers/physical_memory_allocator.c`, with the `blocks` macro of
`include/aligned_blocks.h`. The driver owns no memory of its own to speak of:
its two lists of chunks are threaded through the free memory itself, a header
(`log2size`, `next`) at the first bytes of each chunk. Every chunk starts on a
4K boundary, so two headers never overlap partly and memory is modelled as a
header at every address.

Pointers are addresses; the null pointer is `0`. Functions that can fail to
return (a list walk that goes round in a circle, `inter_map_exception`, an
assertion's `brk`) give `none`. A loop is bounded by `maxSteps`: it follows
64-bit pointers, so one that makes more steps has come to the same pointer
twice and never ends.
-/

namespace Isambard.Allocator

/-- The header at the start of a chunk. -/
structure Chunk where
  log2size : ℕ
  next : ℕ
deriving Repr, DecidableEq

/-- The driver's state: its two list heads, and memory as chunk headers. -/
structure State where
  mem : ℕ → Chunk
  freedChunks : ℕ
  availableChunks : ℕ

/-- No walk over 64-bit pointers makes this many steps and ends. -/
def maxSteps : ℕ := 2 ^ 64

/-- `uint64_t` addition. -/
def add64 (a b : ℕ) : ℕ := (a + b) % 2 ^ 64

/-- `uint64_t` subtraction. -/
def sub64 (a b : ℕ) : ℕ := (a + 2 ^ 64 - b) % 2 ^ 64

/-- `1u << n`: a 32-bit shift, which takes its count modulo 32. -/
def shl32 (n : ℕ) : ℕ := 2 ^ (n % 32)

/-- `p->next = v`. -/
def State.setNext (s : State) (p v : ℕ) : State :=
  { s with mem := Function.update s.mem p { s.mem p with next := v } }

/-- `p->log2size = v`. -/
def State.setLog2size (s : State) (p v : ℕ) : State :=
  { s with mem := Function.update s.mem p { s.mem p with log2size := v } }

/-- `*list = v`, where `list` is `&available_chunks` when `prev` is null and
`&prev->next` otherwise. -/
def State.setLink (s : State) (prev v : ℕ) : State :=
  if prev = 0 then { s with availableChunks := v } else s.setNext prev v

/-! ## Freeing -/

/-- The loop of `release_free_chunk`: from `*list = cur`, find the link to
insert `p` at. -/
def findPlace (mem : ℕ → Chunk) (p : ℕ) : ℕ → ℕ → ℕ → Option (ℕ × ℕ)
  | 0, _, _ => none
  | fuel + 1, prev, cur =>
    if cur ≠ 0 ∧ cur < p then findPlace mem p fuel cur (mem cur).next
    else some (prev, cur)

/-- Put `p` into the list of available chunks, which is kept in the order of
the addresses. -/
def releaseFreeChunk (s : State) (p : ℕ) : Option State :=
  match findPlace s.mem p maxSteps 0 s.availableChunks with
  | none => none
  | some (prev, cur) =>
    -- double free: inter_map_exception does not return
    if cur = p then none
    -- the test whether p could be merged with prev guards an empty block
    else some ((s.setNext p cur).setLink prev p)

def releaseFirstFreeChunk (s : State) : Option State :=
  if s.freedChunks ≠ 0 then
    releaseFreeChunk { s with freedChunks := (s.mem s.freedChunks).next } s.freedChunks
  else some s

/-- `while (freed_chunks) release_first_free_chunk();` -/
def makeAvailableLoop : ℕ → State → Option State
  | 0, _ => none
  | fuel + 1, s =>
    if s.freedChunks ≠ 0 then
      match releaseFirstFreeChunk s with
      | none => none
      | some s' => makeAvailableLoop fuel s'
    else some s

def makeAvailableAllFreedChunks (s : State) : Option State := makeAvailableLoop maxSteps s

/-! ## Donating a range -/

/-- The while loop of `blocks( min, max, action, maxaction )`, over the running
address `p` and the state the actions work on. A failing `assert` is `none`. -/
def blocksLoop {σ : Type} (end' min max : ℕ) (action maxaction : ℕ × σ → Option (ℕ × σ)) :
    ℕ → ℕ × σ → Option (ℕ × σ)
  | 0, _ => none
  | fuel + 1, (p, s) =>
    if 2 ^ min ≤ sub64 end' p then
      if max ≠ 0 ∧ 2 ^ max ≤ sub64 end' p ∧ p % 2 ^ max = 0 then
        match maxaction (p, s) with
        | none => none
        | some (q, s') =>
          if q ≤ end' ∧ q % 2 ^ min = 0 then
            blocksLoop end' min max action maxaction fuel (q, s')
          else none
      else
        match action (p, s) with
        | none => none
        | some (q, s') =>
          if sub64 q p = 2 ^ min ∧ q % 2 ^ min = 0 then
            blocksLoop end' min max action maxaction fuel (q, s')
          else none
    else some (p, s)

/-- `blocks( min, max, action, maxaction )`. -/
def blocks {σ : Type} (end' min max : ℕ) (action maxaction : ℕ × σ → Option (ℕ × σ))
    (ps : ℕ × σ) : Option (ℕ × σ) :=
  if ps.1 % 2 ^ min = 0 then blocksLoop end' min max action maxaction maxSteps ps
  else none

/-- A chunk of `2 ^ min` bytes at `p` becomes the head of the freed chunks. -/
def State.pushFreed (s : State) (p min : ℕ) : State :=
  { s with mem := Function.update s.mem p ⟨min, s.freedChunks⟩, freedChunks := p }

/-- The action of `initialise_block( min, max, next_action )`. -/
def initialiseBlock (min : ℕ) (ps : ℕ × State) : Option (ℕ × State) :=
  some (add64 ps.1 (2 ^ min), ps.2.pushFreed ps.1 min)

/-- The nest of `initialise_block`s from `34 - n` up to 34, each the
`next_action` of the one before. -/
def initialiseBlocks (end' : ℕ) : ℕ → ℕ × State → Option (ℕ × State)
  | 0 => blocks end' 34 0 (initialiseBlock 34) some
  | n + 1 => blocks end' (34 - (n + 1)) (34 - n) (initialiseBlock (34 - (n + 1)))
      (initialiseBlocks end' n)

/-- Cut `[p, end)` into aligned chunks, the highest at the head of the list. -/
def makeListOfFreedChunks (s : State) (p end' : ℕ) : Option State :=
  (initialiseBlocks end' 22 (p, s)).map Prod.snd

/-! ## Allocating -/

/-- The loop of `allocate`: from `*ref = p`, the first chunk that is big
enough, with the link that leads to it. -/
def findChunk (mem : ℕ → Chunk) (size : ℕ) : ℕ → ℕ → ℕ → Option (ℕ × ℕ)
  | 0, _, _ => none
  | fuel + 1, prev, p =>
    if p ≠ 0 ∧ shl32 (mem p).log2size < size then findChunk mem size fuel p (mem p).next
    else some (prev, p)

/-- The loop of `allocate` over the bits of the remainder, for the sizes
`2 ^ (n + 11)` down to `2 ^ 12`; `c` is the chunk that is split and `p` the
piece of it made last. -/
def splitChunk (c : ℕ) : ℕ → ℕ → ℕ → State → State
  | 0, _, _, s => s
  | n + 1, p, remainder, s =>
    if remainder = 0 then s
    else if shl32 (n + 12) ≤ remainder then
      let s := s.setLog2size p (n + 12)
      let remainder := remainder - shl32 (n + 12)
      if remainder ≠ 0 then
        let newChunk := c + shl32 (n + 12)
        let s := s.setNext newChunk (s.mem p).next
        let s := s.setNext p newChunk
        splitChunk c n newChunk remainder s
      else splitChunk c n p remainder s
    else splitChunk c n p remainder s

/-- Take `size` bytes from the top of the first chunk that has them. -/
def allocate (s : State) (size : ℕ) : Option (State × ℕ) :=
  match findChunk s.mem size maxSteps 0 s.availableChunks with
  | none => none
  | some (prev, p) =>
    if p = 0 then some (s, 0)
    else if shl32 (s.mem p).log2size = size then some (s.setLink prev (s.mem p).next, p)
    else
      let remainder := shl32 (s.mem p).log2size - size
      -- the first size tried is 2 ^ (log2size - 1)
      some (splitChunk p ((s.mem p).log2size - 12) p remainder s, add64 p remainder)

/-- `(p1 + 4095) & ~0xfff`, as the `uint32_t` parameter of `allocate`. -/
def roundToPage (p1 : ℕ) : ℕ := add64 p1 4095 / 4096 * 4096 % 2 ^ 32

/-- The driver's only entry point; `zero` is the object, of which there is one. -/
def entry (s : State) (call p1 p2 : ℕ) : Option (State × ℕ) :=
  if call = 0 then
    match makeListOfFreedChunks s p1 p2 with
    | none => none
    | some s' => (makeAvailableAllFreedChunks s').map fun s'' => (s'', 0)
  else if call = 1 then allocate s (roundToPage p1)
  else none

end Isambard.Allocator
