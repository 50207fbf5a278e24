import Mathlib.Logic.Function.Basic
import Mathlib.Data.Nat.Notation
import Mathlib.Algebra.Order.Ring.Nat
import Mathlib.Data.List.Basic
import Mathlib.Order.MinMax
import Mathlib.Tactic.IntervalCases

/-!
# Driver.Tags — property requests of a guest

`drivers/riscos.c`: a guest that writes to the data register of mailbox 1 is stopped,
and `stage2_data_abort` answers in place of the GPU. A value for channel 8 is the
address of a request in the memory of the guest; `respond_to_tag_request` walks over
its tags and writes the answers.

* `Emulation`: the driver's loads and stores of words, with the words it touches;
* `respondToTag_supported`, `respondToTag_unsupported`, `respondToTag_unknown`: what
  one tag does;
* `Fits`: the tags of a request, as they are before it is answered, stay inside a
  limit;
* `confined_iff`: the driver ends and touches nothing outside the request and the
  memory of the guest exactly when the request fits.
-/

namespace Isambard.Driver.Tags

/-! ## Memory -/

/-- The words that the driver sees, by `address / 4`, and those it has touched. -/
structure Memory where
  word : ℕ → ℕ
  touched : List ℕ

/-- Why the emulation ends early: a `brk`, after which the driver does nothing more,
or no fuel for the next tag. -/
inductive Stop where
  | brk
  | outOfFuel
deriving Repr, DecidableEq

abbrev Emulation := ExceptT Stop (StateM Memory)

def load (w : ℕ) : Emulation ℕ := do
  modify fun m => { m with touched := m.touched ++ [w] }
  return (← get).word w

def store (w value : ℕ) : Emulation Unit :=
  modify fun m => { word := Function.update m.word w value, touched := m.touched ++ [w] }

/-! ## The tags -/

inductive Tag where
  | boardModel
  | boardRevision
  | macAddress
  | boardSerial
  | armMemory
  | vcMemory
  | dmaChannels
  | blankScreen
  | getClockRate
  | setClockRate
  | setTouchBuf
  | setVirtGPIOBuf
deriving Repr, DecidableEq

/-- The `case` labels. -/
def Tag.code : Tag → ℕ
  | boardModel => 0x00010001
  | boardRevision => 0x00010002
  | macAddress => 0x00010003
  | boardSerial => 0x00010004
  | armMemory => 0x00010005
  | vcMemory => 0x00010006
  | dmaChannels => 0x00060001
  | blankScreen => 0x00040002
  | getClockRate => 0x00030002
  | setClockRate => 0x00038002
  | setTouchBuf => 0x0004801f
  | setVirtGPIOBuf => 0x00048020

def Tag.all : List Tag :=
  [boardModel, boardRevision, macAddress, boardSerial, armMemory, vcMemory, dmaChannels,
    blankScreen, getClockRate, setClockRate, setTouchBuf, setVirtGPIOBuf]

def tagOf (n : ℕ) : Option Tag := Tag.all.find? fun tag => tag.code = n

/-- `riscos_ram_size` -/
def riscosRamSize : ℕ := 64 * 1024 * 1024

/-- `ro_address` -/
def roAddress : ℕ := 0x8000000

/-- The body of the loop of `respond_to_tag_request`, up to the step to the next tag. -/
def respondToTag (p : ℕ) : Emulation Unit := do
  -- the driver shows these on the screen
  let _ ← load p
  let _ ← load (p + 1)
  let _ ← load (p + 2)
  store (p + 2) ((← load (p + 1)) ||| 2 ^ 31)
  match tagOf (← load p) with
  | some .boardModel => store (p + 3) 0
  | some .boardRevision => store (p + 3) 13
  | some .macAddress => do
    store (p + 2) (6 ||| 2 ^ 31)
    store (p + 3) 0x2a2a2a2a
    store (p + 4) 0x2a2a
  | some .boardSerial => do
    store (p + 3) 0x2a2a2a2a
    store (p + 4) 0x2a2a2a2a
  | some .armMemory => do
    store (p + 3) 0
    store (p + 4) riscosRamSize
  | some .vcMemory => do
    store (p + 3) 0
    store (p + 4) 0
  | some .dmaChannels => store (p + 3) (2 ^ 4)
  | some .blankScreen => pure ()
  | some .getClockRate => do
    match ← load (p + 3) with
    | 1 => store (p + 4) 250000
    | 4 => store (p + 4) 250000000
    | _ =>
      let _ ← load p
      let _ ← load (p + 3)
      throw .brk
  | some .setClockRate => do
    match ← load (p + 3) with
    | 2 => pure ()
    | _ =>
      let _ ← load p
      let _ ← load (p + 3)
      throw .brk
  | some .setTouchBuf | some .setVirtGPIOBuf => do
    let _ ← load (p + 3)
    store (p + 3) 0
  | none => throw .brk

/-- The loop of `respond_to_tag_request`. -/
def tagLoop : ℕ → ℕ → Emulation Unit
  | 0, _ => throw .outOfFuel
  | fuel + 1, p => do
    if (← load p) ≠ 0 then
      respondToTag p
      let size ← load (p + 1)
      -- the cursor only moves up, by less than 2 ^ 30 + 3 words
      tagLoop fuel (p + (3 + size / 4))

/-- `respond_to_tag_request`. -/
def respondToTagRequest (fuel request : ℕ) : Emulation Unit := do
  store (request + 1) 0x80000000
  tagLoop fuel (request + 2)

/-- `&arm_code[(0x3ffffff0 & mailbox_request)/4]`. -/
def request (mailboxRequest : ℕ) : ℕ := roAddress / 4 + (0x3ffffff0 &&& mailboxRequest) / 4

/-- `stage2_data_abort` for an access of the data register of mailbox 1. -/
def mailbox1Data (fuel : ℕ) (isWrite : Bool) (mailboxRequest : ℕ) : Emulation Unit :=
  if isWrite then
    if mailboxRequest % 16 = 8 then respondToTagRequest fuel (request mailboxRequest)
    -- power control
    else if mailboxRequest % 16 = 0 then pure ()
    else throw .brk
  else throw .brk

/-! ## Running it -/

section Exec

variable {α β : Type} {m : Memory}

/-- The result, and the memory at the end. -/
def exec (e : Emulation α) (m : Memory) : Except Stop α × Memory := (ExceptT.run e).run m

@[simp] theorem exec_pure (a : α) : exec (pure a) m = (.ok a, m) := rfl

@[simp] theorem exec_throw (stop : Stop) : exec (throw stop : Emulation α) m = (.error stop, m) :=
  rfl

@[simp] theorem exec_load (w : ℕ) :
    exec (load w) m = (.ok (m.word w), { m with touched := m.touched ++ [w] }) := rfl

@[simp] theorem exec_store (w value : ℕ) : exec (store w value) m =
    (.ok (), { word := Function.update m.word w value, touched := m.touched ++ [w] }) := rfl

theorem exec_bind (e : Emulation α) (f : α → Emulation β) : exec (e >>= f) m =
    match exec e m with
    | (.ok a, m') => exec (f a) m'
    | (.error stop, m') => (.error stop, m') := by
  show exec (ExceptT.bind e f) m = _
  unfold exec
  simp only [ExceptT.bind, ExceptT.run, ExceptT.mk, StateT.run_bind]
  rcases h : (StateT.run e m : Except Stop α × Memory) with ⟨r, m'⟩
  cases r <;> simp [ExceptT.bindCont] <;> rfl

@[simp] theorem exec_load_bind (w : ℕ) (f : ℕ → Emulation α) : exec (load w >>= f) m =
    exec (f (m.word w)) { m with touched := m.touched ++ [w] } := by
  rw [exec_bind, exec_load]

@[simp] theorem exec_store_bind (w value : ℕ) (f : Unit → Emulation α) :
    exec (store w value >>= f) m =
      exec (f ()) { word := Function.update m.word w value, touched := m.touched ++ [w] } := by
  rw [exec_bind, exec_store]

end Exec

/-! ## One tag -/

/-- The words from `p[3]` on that the answer to a tag fills, when `p[3]` is `first`;
`none` for a clock that the driver does not have. -/
def Tag.answer (first : ℕ) : Tag → Option (List ℕ)
  | boardModel => some [0]
  | boardRevision => some [13]
  | macAddress => some [0x2a2a2a2a, 0x2a2a]
  | boardSerial => some [0x2a2a2a2a, 0x2a2a2a2a]
  | armMemory => some [0, riscosRamSize]
  | vcMemory => some [0, 0]
  | dmaChannels => some [2 ^ 4]
  | blankScreen => some []
  | getClockRate =>
    match first with
    | 1 => some [1, 250000]
    | 4 => some [4, 250000000]
    | _ => none
  | setClockRate =>
    match first with
    | 2 => some [2]
    | _ => none
  | setTouchBuf | setVirtGPIOBuf => some [0]

/-- The `n` words from `p` on are touched. -/
def Touches (m m' : Memory) (p n : ℕ) : Prop :=
  ∀ w, w ∈ m'.touched ↔ w ∈ m.touched ∨ p ≤ w ∧ w < p + n

section Tags

variable {m : Memory} {p : ℕ}

theorem touches_append {m' : Memory} {n : ℕ} {l : List ℕ} (ht : m'.touched = m.touched ++ l)
    (hl : ∀ w, w ∈ l ↔ p ≤ w ∧ w < p + n) : Touches m m' p n := by
  intro w
  rw [ht, List.mem_append, hl]

theorem respondToTag_unknown (h : tagOf (m.word p) = none) :
    (exec (respondToTag p) m).1 = .error .brk ∧
      Touches m (exec (respondToTag p) m).2 p 3 := by
  have hp : Function.update m.word (p + 2) (m.word (p + 1) ||| 2 ^ 31) p = m.word p :=
    Function.update_of_ne (by omega) _ _
  simp only [respondToTag, exec_load_bind, exec_store_bind, hp, h, exec_throw, true_and]
  refine touches_append (by simp only [List.append_assoc]; rfl) ?_
  intro w
  simp only [List.mem_append, List.mem_singleton]
  omega

theorem respondToTag_unsupported {tag : Tag} (h : tagOf (m.word p) = some tag)
    (ha : tag.answer (m.word (p + 3)) = none) :
    (exec (respondToTag p) m).1 = .error .brk ∧
      Touches m (exec (respondToTag p) m).2 p 4 := by
  have hp : Function.update m.word (p + 2) (m.word (p + 1) ||| 2 ^ 31) p = m.word p :=
    Function.update_of_ne (by omega) _ _
  have hp3 : Function.update m.word (p + 2) (m.word (p + 1) ||| 2 ^ 31) (p + 3) = m.word (p + 3) :=
    Function.update_of_ne (by omega) _ _
  simp only [respondToTag, exec_load_bind, exec_store_bind, hp, h]
  -- only the clocks have an answer that depends on the request
  cases tag <;> simp only [Tag.answer] at ha <;> try contradiction
  all_goals
    simp only [exec_load_bind, hp3]
    split at ha <;> try contradiction
    simp only [exec_load_bind, exec_throw, true_and]
    refine touches_append (by simp only [List.append_assoc]; rfl) ?_
    intro w
    simp only [List.mem_append, List.mem_singleton]
    omega

/-- The answer is written from `p[3]` on, after the response code, and nothing else
changes. -/
structure Answered (m m' : Memory) (p : ℕ) (words : List ℕ) : Prop where
  touches : Touches m m' p (3 + words.length)
  answer : ∀ i (h : i < words.length), m'.word (p + 3 + i) = words[i]
  before : ∀ w < p + 2, m'.word w = m.word w
  after : ∀ w, p + 3 + words.length ≤ w → m'.word w = m.word w

/-- The memory after some words from `p + 2` on have been stored, and all of them up
to the last word of the answer have been touched. -/
theorem answered_of_stores {word : ℕ → ℕ} {l words : List ℕ}
    (hl : ∀ w, w ∈ l ↔ p ≤ w ∧ w < p + (3 + words.length))
    (hanswer : ∀ i (h : i < words.length), word (p + 3 + i) = words[i])
    (hkept : ∀ w, w < p + 2 ∨ p + 3 + words.length ≤ w → word w = m.word w) :
    Answered m { word := word, touched := m.touched ++ l } p words :=
  ⟨touches_append rfl hl, hanswer, fun w hw => hkept w (.inl hw), fun w hw => hkept w (.inr hw)⟩

theorem respondToTag_supported {tag : Tag} {words : List ℕ} (h : tagOf (m.word p) = some tag)
    (ha : tag.answer (m.word (p + 3)) = some words) :
    (exec (respondToTag p) m).1 = .ok () ∧ Answered m (exec (respondToTag p) m).2 p words := by
  have hp : Function.update m.word (p + 2) (m.word (p + 1) ||| 2 ^ 31) p = m.word p :=
    Function.update_of_ne (by omega) _ _
  have hp3 : Function.update m.word (p + 2) (m.word (p + 1) ||| 2 ^ 31) (p + 3) = m.word (p + 3) :=
    Function.update_of_ne (by omega) _ _
  simp only [respondToTag, exec_load_bind, exec_store_bind, hp, h, List.append_assoc]
  -- one case for each tag; the clock tags look at the clock that is asked for
  cases tag <;> simp only [Tag.answer] at ha
  case getClockRate =>
    split at ha <;> cases ha
    all_goals
      rename_i hfirst
      simp only [exec_load_bind, hp3, hfirst, exec_store, true_and, List.append_assoc]
      apply answered_of_stores
      · intro w
        simp only [List.mem_append, List.mem_singleton, List.length_cons, List.length_nil]
        omega
      · intro i hi
        simp only [List.length_cons, List.length_nil] at hi
        interval_cases i <;> simp [hfirst]
      · intro w hw
        simp only [List.length_cons, List.length_nil] at hw
        repeat rw [Function.update_of_ne (by omega)]
  case setClockRate =>
    split at ha <;> cases ha
    all_goals
      rename_i hfirst
      simp only [exec_load_bind, hp3, hfirst, exec_pure, true_and, List.append_assoc]
      apply answered_of_stores
      · intro w
        simp only [List.mem_append, List.mem_singleton, List.length_cons, List.length_nil]
        omega
      · intro i hi
        simp only [List.length_cons, List.length_nil] at hi
        interval_cases i
        simp [hfirst]
      · intro w hw
        simp only [List.length_cons, List.length_nil] at hw
        repeat rw [Function.update_of_ne (by omega)]
  all_goals
    cases ha
    simp only [exec_load_bind, exec_store_bind, exec_store, exec_pure, true_and, List.append_assoc]
    apply answered_of_stores
    · intro w
      simp only [List.mem_append, List.mem_singleton, List.length_cons, List.length_nil]
      omega
    · intro i hi
      simp only [List.length_cons, List.length_nil] at hi
      interval_cases i <;> simp
    · intro w hw
      simp only [List.length_cons, List.length_nil] at hw
      repeat rw [Function.update_of_ne (by omega)]

end Tags

/-! ## Requests that fit -/

/-- The tags from `p` on stay below the limit, where `word` are the words before the
request is answered. -/
inductive Fits (word : ℕ → ℕ) (limit : ℕ) : ℕ → Prop
  /-- the end tag -/
  | last {p : ℕ} : word p = 0 → p < limit → Fits word limit p
  /-- a tag that the driver does not know, and stops at -/
  | unknown {p : ℕ} : word p ≠ 0 → tagOf (word p) = none → p + 3 ≤ limit → Fits word limit p
  /-- a clock that the driver does not know -/
  | unsupported {p : ℕ} {tag : Tag} : tagOf (word p) = some tag →
      tag.answer (word (p + 3)) = none → p + 4 ≤ limit → Fits word limit p
  /-- a tag with room for its answer -/
  | tag {p : ℕ} {tag : Tag} {words : List ℕ} : tagOf (word p) = some tag →
      tag.answer (word (p + 3)) = some words → words.length ≤ word (p + 1) / 4 →
      p + 3 + words.length ≤ limit → Fits word limit (p + (3 + word (p + 1) / 4)) →
      Fits word limit p
  /-- a tag whose answer overwrites the next tag: with the end tag, or with a word that
  is no tag, and that the driver stops at -/
  | short {p next : ℕ} {tag : Tag} {words : List ℕ} : tagOf (word p) = some tag →
      tag.answer (word (p + 3)) = some words → words[word (p + 1) / 4]? = some next →
      p + 3 + words.length ≤ limit → (next ≠ 0 → p + (3 + word (p + 1) / 4) + 3 ≤ limit) →
      Fits word limit p

section Walk

variable {m : Memory} {p limit : ℕ}

theorem tagOf_zero : tagOf 0 = none := rfl

/-- No word of an answer is a tag. -/
theorem tagOf_answer {tag : Tag} {first : ℕ} {words : List ℕ} (h : tag.answer first = some words) :
    ∀ w ∈ words, tagOf w = none := by
  cases tag <;> simp only [Tag.answer] at h
  case getClockRate =>
    split at h <;> cases h
    all_goals decide
  case setClockRate =>
    split at h <;> cases h
    all_goals decide
  all_goals
    cases h
    decide

/-- The walk sees only the words from where it is. -/
theorem Fits.congr {word word' : ℕ → ℕ} (h : Fits word limit p)
    (heq : ∀ w, p ≤ w → word' w = word w) : Fits word' limit p := by
  induction h with
  | last hz hlt => exact .last (by rw [heq _ le_rfl]; exact hz) hlt
  | unknown hne ht hlt =>
    exact .unknown (by rw [heq _ le_rfl]; exact hne) (by rw [heq _ le_rfl]; exact ht) hlt
  | @unsupported p tag ht ha hlt =>
    rw [← heq _ le_rfl] at ht
    rw [← heq _ (by omega)] at ha
    exact .unsupported ht ha hlt
  | @tag p tag words ht ha hroom hlt hnext ih =>
    have hsize := heq (p + 1) (by omega)
    rw [← heq _ le_rfl] at ht
    rw [← heq _ (by omega)] at ha
    rw [← hsize] at hroom ih
    exact .tag ht ha hroom hlt (ih fun w hw => heq w (by omega))
  | @short p next tag words ht ha hshort hlt hnext =>
    have hsize := heq (p + 1) (by omega)
    rw [← heq _ le_rfl] at ht
    rw [← heq _ (by omega)] at ha
    rw [← hsize] at hshort hnext
    exact .short ht ha hshort hlt hnext

theorem Fits.lt {word : ℕ → ℕ} (h : Fits word limit p) : p < limit := by
  cases h <;> omega

/-- What has been touched is within some bounds. -/
def Within (base limit : ℕ) (m : Memory) : Prop := ∀ w ∈ m.touched, base ≤ w ∧ w < limit

theorem Touches.within {m' : Memory} {base n : ℕ} (h : Touches m m' p n)
    (hm : Within base limit m) (hp : base ≤ p) (hlt : p + n ≤ limit) : Within base limit m' := by
  intro w hw
  rcases (h w).1 hw with hw | ⟨hlo, hhi⟩
  · exact hm w hw
  · omega

/-- The memory after the test for the end tag, and after the size of the tag is read. -/
def Memory.touch (m : Memory) (w : ℕ) : Memory := { m with touched := m.touched ++ [w] }

theorem mem_touch {w w' : ℕ} : w ∈ (m.touch w').touched ↔ w ∈ m.touched ∨ w = w' := by
  simp [Memory.touch]

theorem tagLoop_last (h : m.word p = 0) (fuel : ℕ) :
    exec (tagLoop (fuel + 1) p) m = (.ok (), m.touch p) := by
  simp only [tagLoop, exec_load_bind, h]
  rfl

theorem tagLoop_stop {stop : Stop} {m' : Memory} (h : m.word p ≠ 0)
    (ht : exec (respondToTag p) (m.touch p) = (.error stop, m')) (fuel : ℕ) :
    exec (tagLoop (fuel + 1) p) m = (.error stop, m') := by
  have ht' : exec (respondToTag p) { word := m.word, touched := m.touched ++ [p] } = _ := ht
  simp only [tagLoop, exec_load_bind, if_pos h]
  rw [exec_bind, ht']

theorem tagLoop_next {m' : Memory} (h : m.word p ≠ 0)
    (ht : exec (respondToTag p) (m.touch p) = (.ok (), m')) (fuel : ℕ) :
    exec (tagLoop (fuel + 1) p) m =
      exec (tagLoop fuel (p + (3 + m'.word (p + 1) / 4))) (m'.touch (p + 1)) := by
  have ht' : exec (respondToTag p) { word := m.word, touched := m.touched ++ [p] } = _ := ht
  simp only [tagLoop, exec_load_bind, if_pos h]
  rw [exec_bind, ht']
  exact exec_load_bind _ _

theorem word_ne_zero {tag : Tag} (h : tagOf (m.word p) = some tag) : m.word p ≠ 0 := by
  intro hz
  rw [hz, tagOf_zero] at h
  contradiction

/-- One pass of the loop: how it ends or goes on, and what it touches. -/
inductive Pass (m : Memory) (p : ℕ) : Prop
  | last : m.word p = 0 → Pass m p
  | unknown (m' : Memory) : m.word p ≠ 0 → tagOf (m.word p) = none →
      exec (respondToTag p) (m.touch p) = (.error .brk, m') → Touches (m.touch p) m' p 3 → Pass m p
  | unsupported (m' : Memory) (tag : Tag) : tagOf (m.word p) = some tag →
      tag.answer (m.word (p + 3)) = none →
      exec (respondToTag p) (m.touch p) = (.error .brk, m') → Touches (m.touch p) m' p 4 → Pass m p
  | answered (m' : Memory) (tag : Tag) (words : List ℕ) : tagOf (m.word p) = some tag →
      tag.answer (m.word (p + 3)) = some words →
      exec (respondToTag p) (m.touch p) = (.ok (), m') → Answered (m.touch p) m' p words → Pass m p

theorem pass (m : Memory) (p : ℕ) : Pass m p := by
  by_cases hz : m.word p = 0
  · exact .last hz
  rcases ht : tagOf (m.word p) with _ | tag
  · rcases @respondToTag_unknown (m.touch p) p ht with ⟨hstop, htouch⟩
    exact .unknown _ hz ht (Prod.ext hstop rfl) htouch
  · rcases ha : tag.answer (m.word (p + 3)) with _ | words
    · rcases @respondToTag_unsupported (m.touch p) p tag ht ha with ⟨hstop, htouch⟩
      exact .unsupported _ tag ht ha (Prod.ext hstop rfl) htouch
    · rcases @respondToTag_supported (m.touch p) p tag words ht ha with ⟨hok, hans⟩
      exact .answered _ tag words ht ha (Prod.ext hok rfl) hans

/-- What has been touched stays touched. -/
theorem tagLoop_touched {w : ℕ} (hw : w ∈ m.touched) (fuel : ℕ) :
    w ∈ (exec (tagLoop fuel p) m).2.touched := by
  induction fuel generalizing m p with
  | zero => exact hw
  | succ fuel ih =>
    have hw' : w ∈ (m.touch p).touched := mem_touch.2 (.inl hw)
    rcases pass m p with hz | ⟨m', hz, ht, he, htouch⟩ | ⟨m', tag, ht, ha, he, htouch⟩ |
      ⟨m', tag, words, ht, ha, he, hans⟩
    · rw [tagLoop_last hz]
      exact hw'
    · rw [tagLoop_stop hz he]
      exact (htouch w).2 (.inl hw')
    · rw [tagLoop_stop (word_ne_zero ht) he]
      exact (htouch w).2 (.inl hw')
    · rw [tagLoop_next (word_ne_zero ht) he]
      exact ih (mem_touch.2 (.inl ((hans.touches w).2 (.inl hw'))))

/-- A walk that ends, and touches nothing from the limit on, is one that fits. -/
theorem fits_of_tagLoop {fuel : ℕ}
    (hend : (exec (tagLoop fuel p) m).1 ≠ .error .outOfFuel)
    (hlt : ∀ w ∈ (exec (tagLoop fuel p) m).2.touched, w < limit) : Fits m.word limit p := by
  induction fuel generalizing m p with
  | zero => exact absurd rfl hend
  | succ fuel ih =>
    rcases pass m p with hz | ⟨m', hz, ht, he, htouch⟩ | ⟨m', tag, ht, ha, he, htouch⟩ |
      ⟨m', tag, words, ht, ha, he, hans⟩
    · rw [tagLoop_last hz] at hlt
      exact .last hz (hlt p (mem_touch.2 (.inr rfl)))
    · rw [tagLoop_stop hz he] at hlt
      have hlast := hlt (p + 2) ((htouch _).2 (.inr ⟨by omega, by omega⟩))
      exact .unknown hz ht (by omega)
    · -- the tag is known, and its first word is not one that it answers
      rw [tagLoop_stop (word_ne_zero ht) he] at hlt
      have hlast := hlt (p + 3) ((htouch _).2 (.inr ⟨by omega, by omega⟩))
      exact .unsupported ht ha (by omega)
    · rw [tagLoop_next (word_ne_zero ht) he] at hend hlt
      have hsize : m'.word (p + 1) = m.word (p + 1) := hans.before _ (by omega)
      have hfits := ih hend hlt
      have hlast := hlt (p + (2 + words.length)) (tagLoop_touched
        (mem_touch.2 (.inl ((hans.touches _).2 (.inr ⟨by omega, by omega⟩)))) fuel)
      rw [hsize] at hfits
      by_cases hroom : words.length ≤ m.word (p + 1) / 4
      · refine .tag ht ha hroom (by omega) (hfits.congr ?_)
        intro w hw
        exact (hans.after w (by omega)).symm
      · -- the next tag is a word of the answer
        have hi : m.word (p + 1) / 4 < words.length := not_le.1 hroom
        have hword := hans.answer _ hi
        have hnone := tagOf_answer ha _ (List.getElem_mem hi)
        have hword' : (m'.touch (p + 1)).word (p + (3 + m.word (p + 1) / 4)) =
            words[m.word (p + 1) / 4] := by
          rw [← hword, Nat.add_assoc]
          rfl
        refine .short ht ha (List.getElem?_eq_getElem hi) (by omega) ?_
        intro hne
        cases hfits with
        | last hz =>
          rw [hword'] at hz
          exact absurd hz hne
        | unknown _ _ hle => exact hle
        | unsupported ht' | tag ht' | short ht' =>
          rw [hword', hnone] at ht'
          contradiction

theorem Touches.touch {m' : Memory} {n : ℕ} (h : Touches (m.touch p) m' p n) (hn : 0 < n) :
    Touches m m' p n := by
  intro w
  rw [h, mem_touch]
  constructor
  · rintro ((hw | rfl) | hw)
    · exact .inl hw
    · exact .inr ⟨le_rfl, by omega⟩
    · exact .inr hw
  · rintro (hw | hw)
    · exact .inl (.inl hw)
    · exact .inr hw

theorem Within.touch {base w : ℕ} (h : Within base limit m) (hlo : base ≤ w) (hhi : w < limit) :
    Within base limit (m.touch w) := by
  intro w' hw
  rcases mem_touch.1 hw with hw | rfl
  · exact h w' hw
  · exact ⟨hlo, hhi⟩

/-- A walk that fits ends, and stays within the bounds. -/
theorem Fits.tagLoop {word : ℕ → ℕ} {base : ℕ} (h : Fits word limit p) (hp : base ≤ p)
    (heq : ∀ w, p ≤ w → m.word w = word w) (hm : Within base limit m) :
    ∃ fuel, (exec (tagLoop fuel p) m).1 ≠ .error .outOfFuel ∧
      Within base limit (exec (tagLoop fuel p) m).2 := by
  -- the induction is on the tags of the request, as the walk meets them
  induction h generalizing m with
  | @last p hz hlt =>
    rw [← heq p le_rfl] at hz
    refine ⟨1, ?_⟩
    rw [tagLoop_last hz]
    exact ⟨by simp, hm.touch hp hlt⟩
  | @unknown p hz ht hle =>
    rw [← heq p le_rfl] at hz ht
    rcases @respondToTag_unknown (m.touch p) p ht with ⟨hstop, htouch⟩
    refine ⟨1, ?_⟩
    rw [tagLoop_stop hz (Prod.ext hstop rfl)]
    exact ⟨by simp, (htouch.touch (by omega)).within hm hp hle⟩
  | @unsupported p tag ht ha hle =>
    rw [← heq p le_rfl] at ht
    rw [← heq _ (by omega)] at ha
    rcases @respondToTag_unsupported (m.touch p) p tag ht ha with ⟨hstop, htouch⟩
    refine ⟨1, ?_⟩
    rw [tagLoop_stop (word_ne_zero ht) (Prod.ext hstop rfl)]
    exact ⟨by simp, (htouch.touch (by omega)).within hm hp hle⟩
  | @tag p tag words ht ha hroom hle hnext ih =>
    have hsize := heq (p + 1) (by omega)
    rw [← heq p le_rfl] at ht
    rw [← heq _ (by omega)] at ha
    rcases @respondToTag_supported (m.touch p) p tag words ht ha with ⟨hok, hans⟩
    have hwithin := (hans.touches.touch (by omega)).within hm hp (by omega)
    have hsize' := (hans.before (p + 1) (by omega)).trans hsize
    -- the answer is in the room of the tag, so the rest of the request is as it was
    have hrest : ∀ w, p + (3 + word (p + 1) / 4) ≤ w →
        ((exec (respondToTag p) (m.touch p)).2.touch (p + 1)).word w = word w := by
      intro w hw
      exact (hans.after w (by omega)).trans (heq w (by omega))
    rcases ih (by omega) hrest (hwithin.touch (by omega) (by omega)) with ⟨fuel, hend, hlt⟩
    refine ⟨fuel + 1, ?_⟩
    rw [tagLoop_next (word_ne_zero ht) (Prod.ext hok rfl), hsize']
    exact ⟨hend, hlt⟩
  | @short p next tag words ht ha hshort hle hnext =>
    have hsize := heq (p + 1) (by omega)
    rw [← heq p le_rfl] at ht
    rw [← heq _ (by omega)] at ha
    rcases @respondToTag_supported (m.touch p) p tag words ht ha with ⟨hok, hans⟩
    have hwithin := (hans.touches.touch (by omega)).within hm hp (by omega)
    have hsize' := (hans.before (p + 1) (by omega)).trans hsize
    rcases List.getElem?_eq_some_iff.1 hshort with ⟨hi, hword⟩
    have hnone := tagOf_answer ha next (hword ▸ List.getElem_mem hi)
    -- the answer covers the next tag, and no word of an answer is a tag
    generalize hm' : (exec (respondToTag p) (m.touch p)).2 = m' at *
    have hok' : exec (respondToTag p) (m.touch p) = (.ok (), m') := Prod.ext hok hm'
    have hnextWord : (m'.touch (p + 1)).word (p + (3 + word (p + 1) / 4)) = next := by
      rw [← hword, ← hans.answer _ hi, Nat.add_assoc]
      rfl
    have hwithin' := hwithin.touch (w := p + 1) (by omega) (by omega)
    by_cases hz : next = 0
    · refine ⟨2, ?_⟩
      rw [tagLoop_next (word_ne_zero ht) hok', hsize', tagLoop_last (hnextWord.trans hz)]
      exact ⟨by simp, hwithin'.touch (by omega) (by omega)⟩
    · rw [← hnextWord] at hnone
      rcases respondToTag_unknown (m := (m'.touch (p + 1)).touch (p + (3 + word (p + 1) / 4))) hnone
        with ⟨hstop, htouch⟩
      refine ⟨2, ?_⟩
      rw [tagLoop_next (word_ne_zero ht) hok', hsize',
        tagLoop_stop (hnextWord.symm ▸ hz) (Prod.ext hstop rfl)]
      exact ⟨by simp, (htouch.touch (by omega)).within hwithin' (by omega) (hnext hz)⟩

end Walk

/-! ## Whole requests -/

/-- The words of the request, whose first word is its size. -/
def InRequest (word : ℕ → ℕ) (r w : ℕ) : Prop := r ≤ w ∧ w < r + word r / 4

/-- The memory that is mapped at `ro_address` for the guest. -/
def InGuest (w : ℕ) : Prop := roAddress / 4 ≤ w ∧ w < (roAddress + riscosRamSize) / 4

/-- The driver ends its answer to a value that the guest writes, and touches only words
of the request, which are in the memory of the guest. -/
def Confined (word : ℕ → ℕ) (isWrite : Bool) (value : ℕ) : Prop :=
  ∃ fuel, (exec (mailbox1Data fuel isWrite value) ⟨word, []⟩).1 ≠ .error .outOfFuel ∧
    ∀ w ∈ (exec (mailbox1Data fuel isWrite value) ⟨word, []⟩).2.touched,
      InRequest word (request value) w ∧ InGuest w

/-- The end of the request or of the memory of the guest, whichever is first. -/
def limitOf (word : ℕ → ℕ) (r : ℕ) : ℕ := min (r + word r / 4) ((roAddress + riscosRamSize) / 4)

/-- What `respond_to_tag_request` takes for granted. -/
def CorrectUse (word : ℕ → ℕ) (r : ℕ) : Prop :=
  r + 2 ≤ limitOf word r ∧ Fits word (limitOf word r) (r + 2)

section Requests

variable {word : ℕ → ℕ} {value : ℕ}

theorem roAddress_le_request (value : ℕ) : roAddress / 4 ≤ request value :=
  Nat.le_add_right _ _

/-- The memory when the loop over the tags is entered. -/
def entered (word : ℕ → ℕ) (r : ℕ) : Memory := ⟨Function.update word (r + 1) 0x80000000, [r + 1]⟩

theorem mailbox1Data_tags (h : value % 16 = 8) (fuel : ℕ) :
    exec (mailbox1Data fuel true value) ⟨word, []⟩ =
      exec (tagLoop fuel (request value + 2)) (entered word (request value)) := by
  simp only [mailbox1Data, if_true, if_pos h, respondToTagRequest, exec_store_bind]
  rfl

/-- Any other access is answered without the memory of the guest. -/
theorem mailbox1Data_other {isWrite : Bool} (h : ¬ (isWrite = true ∧ value % 16 = 8)) (fuel : ℕ) :
    (exec (mailbox1Data fuel isWrite value) ⟨word, []⟩).1 ≠ .error .outOfFuel ∧
      (exec (mailbox1Data fuel isWrite value) ⟨word, []⟩).2.touched = [] := by
  unfold mailbox1Data
  split_ifs with hw h8 h0
  · exact absurd ⟨hw, h8⟩ h
  all_goals simp

theorem entered_word (word : ℕ → ℕ) (r : ℕ) :
    ∀ w, r + 2 ≤ w → (entered word r).word w = word w :=
  fun w hw => Function.update_of_ne (by omega) _ _

theorem within_limit {r w : ℕ} (hr : roAddress / 4 ≤ r) :
    InRequest word r w ∧ InGuest w ↔ r ≤ w ∧ w < limitOf word r := by
  unfold InRequest InGuest limitOf
  rw [lt_min_iff]
  constructor
  · rintro ⟨⟨hlo, hhi⟩, -, hguest⟩
    exact ⟨hlo, hhi, hguest⟩
  · rintro ⟨hlo, hhi, hguest⟩
    exact ⟨⟨hlo, hhi⟩, hr.trans hlo, hguest⟩

theorem correctUse_of_confined (h : Confined word true value) (h8 : value % 16 = 8) :
    CorrectUse word (request value) := by
  rcases h with ⟨fuel, hend, hin⟩
  rw [mailbox1Data_tags h8] at hend hin
  have hlt : ∀ w ∈
      (exec (tagLoop fuel (request value + 2)) (entered word (request value))).2.touched,
      w < limitOf word (request value) :=
    fun w hw => ((within_limit (roAddress_le_request value)).1 (hin w hw)).2
  constructor
  · exact hlt _ (tagLoop_touched List.mem_cons_self fuel)
  · exact (fits_of_tagLoop hend hlt).congr fun w hw => (entered_word word _ w hw).symm

theorem confined_of_correctUse (h : CorrectUse word (request value)) (h8 : value % 16 = 8) :
    Confined word true value := by
  have hentered : Within (request value) (limitOf word (request value))
      (entered word (request value)) := by
    intro w hw
    rw [List.mem_singleton.1 hw]
    exact ⟨Nat.le_succ _, h.1⟩
  rcases h.2.tagLoop (Nat.le_add_right _ 2) (entered_word word _) hentered with ⟨fuel, hend, hin⟩
  refine ⟨fuel, ?_⟩
  rw [mailbox1Data_tags h8]
  exact ⟨hend, fun w hw => (within_limit (roAddress_le_request value)).2 (hin w hw)⟩

/-- **The driver stays inside the request and the memory of the guest** exactly when
the request is used correctly. -/
theorem confined_iff (word : ℕ → ℕ) (isWrite : Bool) (value : ℕ) :
    Confined word isWrite value ↔
      (isWrite = true ∧ value % 16 = 8 → CorrectUse word (request value)) := by
  by_cases h : isWrite = true ∧ value % 16 = 8
  · rcases h with ⟨rfl, h8⟩
    constructor
    · intro hc _
      exact correctUse_of_confined hc h8
    · intro hu
      exact confined_of_correctUse (hu ⟨rfl, h8⟩) h8
  · constructor
    · intro _ h'
      exact absurd h' h
    · intro _
      rcases @mailbox1Data_other word value isWrite h 0 with ⟨hend, htouched⟩
      refine ⟨0, hend, ?_⟩
      rw [htouched]
      intro w hw
      cases hw

/-- A request of 28 bytes for the board revision, with room for the answer. -/
example : CorrectUse (fun w => if w = 0x2000000 then 28 else if w = 0x2000002 then 0x00010002
    else if w = 0x2000003 then 4 else 0) 0x2000000 := by
  constructor
  · decide
  · exact @Fits.tag _ _ _ .boardRevision [13] (by decide) (by decide) (by decide) (by decide)
      (.last (by decide) (by decide))

/-- A request of 32 bytes at the start of the memory of the guest: a tag that needs no
answer, and says that it is 256 MB long. -/
def longTag : ℕ → ℕ := fun w =>
  if w = roAddress / 4 then 32
  else if w = roAddress / 4 + 2 then Tag.blankScreen.code
  else if w = roAddress / 4 + 3 then 0x10000000
  else 0

/-- The driver looks for the next tag 256 MB further on. -/
theorem long_tag_leaves : ¬ ∀ (word : ℕ → ℕ) (value : ℕ), value < 2 ^ 32 →
    Confined word true value := by
  intro h
  have hrequest : request 8 = 0x2000000 := by decide
  have hu := correctUse_of_confined (h longTag 8 (by decide)) (by decide)
  rw [hrequest] at hu
  have hlimit : limitOf longTag 0x2000000 = 0x2000008 := by decide
  have hfits := hlimit ▸ hu.2
  have htag : tagOf (longTag 0x2000002) = some .blankScreen := by decide
  cases hfits with
  | last hz => exact absurd hz (by decide)
  | unknown _ ht =>
    rw [htag] at ht
    contradiction
  | unsupported ht ha =>
    cases htag.symm.trans ht
    contradiction
  | tag ht ha hroom hle hnext =>
    have hsize : longTag (0x2000002 + 1) / 4 = 0x4000000 := by decide
    have hlt := hnext.lt
    rw [hsize] at hlt
    omega
  | short ht ha hshort =>
    cases htag.symm.trans ht
    cases ha
    contradiction

end Requests

end Isambard.Driver.Tags
