import Isambard.El1.Steps

/-!
# El1.Requests — special requests by other maps

`ISAMBARD_SYSTEM_REQUEST` is for the system driver, but `system_driver_request`
does not look at the map of the thread. Here is what each of the requests needs
in order to be refused: to halt the core before anything is changed that keeps
the maps apart.

* `Untouched`: the tables, the heap, the interfaces, the contexts, the ring and
  the interrupt thread are what they were;
* `copy_refused`: the loops that copy to and from the heap;
* `request_refused`: the requests.
-/

namespace Isambard.El1

open Isambard.Lib

/-! ## What is guarded -/

/-- The first address of the mapped heap. -/
def heapStart : ℕ := startAddress + heapTop - initialHeap

/-- What keeps the maps apart is as it was. -/
structure Untouched (k k' : Kernel) : Prop where
  l1 : k'.l1 = k.l1
  l2 : k'.l2 = k.l2
  l3 : k'.l3 = k.l3
  sharedSystemMap : k'.sharedSystemMap = k.sharedSystemMap
  heap : ∀ a, heapStart ≤ a → k'.mem a = k.mem a
  interfaces : k'.interfaces = k.interfaces
  contexts : k'.contexts = k.contexts
  ctx : k'.ctx = k.ctx
  runnable : k'.runnable = k.runnable
  interruptThread : k'.interruptThread = k.interruptThread

theorem Untouched.refl (k : Kernel) : Untouched k k :=
  ⟨rfl, rfl, rfl, rfl, fun _ _ => rfl, rfl, rfl, rfl, rfl, rfl⟩

theorem Untouched.trans {k k' k'' : Kernel} (h : Untouched k k') (h' : Untouched k' k'') :
    Untouched k k'' :=
  ⟨h'.l1.trans h.l1, h'.l2.trans h.l2, h'.l3.trans h.l3,
    h'.sharedSystemMap.trans h.sharedSystemMap, fun a ha => (h'.heap a ha).trans (h.heap a ha),
    h'.interfaces.trans h.interfaces, h'.contexts.trans h.contexts, h'.ctx.trans h.ctx,
    h'.runnable.trans h.runnable, h'.interruptThread.trans h.interruptThread⟩

theorem Untouched.symm {k k' : Kernel} (h : Untouched k k') : Untouched k' k :=
  ⟨h.l1.symm, h.l2.symm, h.l3.symm, h.sharedSystemMap.symm, fun a ha => (h.heap a ha).symm,
    h.interfaces.symm, h.contexts.symm, h.ctx.symm, h.runnable.symm, h.interruptThread.symm⟩

/-- The places of the words that `Untouched` is about. -/
def Place.guarded : Place → Bool
  | .context _ _ => true
  | .l1 _ => true
  | .l2 _ => true
  | .l3 _ => true
  | .interface _ _ => true
  | .runnable => true
  | .interruptThread => true
  | .mem a => heapStart ≤ a
  | _ => false

/-- The fields of an interface are as wide as the source has them. -/
def WellTyped (k : Kernel) : Prop := ∀ i, (k.interfaces i).user < 2 ^ 32

section Words

variable {k k' : Kernel} {a b v : ℕ}

/-- A guarded word is as it was. -/
theorem Untouched.word (h : Untouched k k') (hl : k'.layout = k.layout)
    (hg : (k.place a).guarded = true) : k'.word a = k.word a := by
  unfold Kernel.word
  rw [place_congr hl h.contexts]
  cases hp : k.place a with
  | context p w => simp only [h.ctx]
  | l1 i => simp only [h.l1]
  | l2 i => simp only [h.l2]
  | l3 i => simp only [h.l3]
  | interface i w => simp only [h.interfaces]
  | runnable => simp only [h.runnable]
  | interruptThread => simp only [h.interruptThread]
  | mem a' =>
    rw [hp] at hg
    exact h.heap a' (by simpa [Place.guarded] using hg)
  | user a' => rw [hp] at hg; cases hg
  | blockedWithTimeout => rw [hp] at hg; cases hg
  | blocked => rw [hp] at hg; cases hg
  | coreNumber => rw [hp] at hg; cases hg
  | physicalAddress => rw [hp] at hg; cases hg

theorem setWord_layout (k : Kernel) (a v : ℕ) : (k.setWord a v).layout = k.layout := by
  unfold Kernel.setWord
  cases k.place a <;> rfl

theorem setWord_contexts (k : Kernel) (a v : ℕ) : (k.setWord a v).contexts = k.contexts := by
  unfold Kernel.setWord
  cases k.place a <;> rfl

theorem setWord_place (k : Kernel) (a v b : ℕ) : (k.setWord a v).place b = k.place b :=
  place_congr (setWord_layout k a v) (setWord_contexts k a v) b

theorem setInterfaceWord_self (i : Interface) (hi : i.user < 2 ^ 32) (w : ℕ) :
    setInterfaceWord i (interfaceWord i w) w = i := by
  match w with
  | 0 =>
    have h₁ : (i.user + i.provider * 2 ^ 32) % 2 ^ 32 = i.user := by omega
    have h₂ : (i.user + i.provider * 2 ^ 32) / 2 ^ 32 = i.provider := by omega
    simp only [setInterfaceWord, interfaceWord, h₁, h₂]
  | 1 => rfl
  | n + 2 => rfl

/-- A store of what was there. -/
theorem setWord_self (hw : WellTyped k) (hg : (k.place a).guarded = true) :
    k.setWord a (k.word a) = k := by
  unfold Kernel.setWord Kernel.word
  cases hp : k.place a with
  | context p w => simp only [setCtx_self, withCtx_self]
  | l1 i => simp only [Function.update_eq_self]
  | l2 i => simp only [Function.update_eq_self]
  | l3 i => simp only [Function.update_eq_self]
  | interface i w => simp only [setInterfaceWord_self _ (hw i), Function.update_eq_self]
  | runnable => rfl
  | interruptThread => rfl
  | mem a' => simp only [Function.update_eq_self]
  | user a' => rw [hp] at hg; cases hg
  | blockedWithTimeout => rfl
  | blocked => rfl
  | coreNumber => rw [hp] at hg; cases hg
  | physicalAddress => rfl

/-- A store to a word that is not guarded. -/
theorem setWord_unguarded (hg : (k.place a).guarded = false) (v : ℕ) :
    Untouched k (k.setWord a v) := by
  unfold Kernel.setWord
  cases hp : k.place a with
  | context p w => rw [hp] at hg; cases hg
  | l1 i => rw [hp] at hg; cases hg
  | l2 i => rw [hp] at hg; cases hg
  | l3 i => rw [hp] at hg; cases hg
  | interface i w => rw [hp] at hg; cases hg
  | runnable => rw [hp] at hg; cases hg
  | interruptThread => rw [hp] at hg; cases hg
  | mem a' =>
    rw [hp] at hg
    refine ⟨rfl, rfl, rfl, rfl, fun b hb => ?_, rfl, rfl, rfl, rfl, rfl⟩
    have hne : b ≠ a' := by
      rintro rfl
      simp [Place.guarded, hb] at hg
    exact Function.update_of_ne hne _ _
  | user a' => exact ⟨rfl, rfl, rfl, rfl, fun _ _ => rfl, rfl, rfl, rfl, rfl, rfl⟩
  | blockedWithTimeout => exact ⟨rfl, rfl, rfl, rfl, fun _ _ => rfl, rfl, rfl, rfl, rfl, rfl⟩
  | blocked => exact ⟨rfl, rfl, rfl, rfl, fun _ _ => rfl, rfl, rfl, rfl, rfl, rfl⟩
  | coreNumber => exact ⟨rfl, rfl, rfl, rfl, fun _ _ => rfl, rfl, rfl, rfl, rfl, rfl⟩
  | physicalAddress => exact ⟨rfl, rfl, rfl, rfl, fun _ _ => rfl, rfl, rfl, rfl, rfl, rfl⟩

theorem interfaceWord_setInterfaceWord (i : Interface) (v w : ℕ) :
    interfaceWord (setInterfaceWord i v w) w = v := by
  match w with
  | 0 => exact Nat.mod_add_div' v (2 ^ 32)
  | 1 => rfl
  | n + 2 => rfl

/-- What was stored in a guarded word is read back. -/
theorem setWord_word (hg : (k.place a).guarded = true) (v : ℕ) :
    (k.setWord a v).word a = v := by
  unfold Kernel.word
  rw [setWord_place]
  unfold Kernel.setWord
  cases hp : k.place a with
  | context p w => simp
  | l1 i => simp
  | l2 i => simp
  | l3 i => simp
  | interface i w => simp [interfaceWord_setInterfaceWord]
  | runnable => rfl
  | interruptThread => rfl
  | mem a' => simp
  | user a' => rw [hp] at hg; cases hg
  | blockedWithTimeout => rfl
  | blocked => rfl
  | coreNumber => rw [hp] at hg; cases hg
  | physicalAddress => rfl

/-- The address of the word that is kept at a place. -/
def Place.address (k : Kernel) : Place → ℕ
  | .context p w => p + 8 * w
  | .user a => a
  | .runnable => runnableAddress k
  | .interruptThread => interruptThreadAddress k
  | .blockedWithTimeout => blockedWithTimeoutAddress k
  | .blocked => k.layout.blocked
  | .coreNumber => coreNumberAddress k
  | .physicalAddress => physicalAddressAddress k
  | .l3 i => k.layout.core + 4096 + 8 * i
  | .l2 i => k.layout.core + 8192 + 8 * i
  | .l1 i => k.layout.core + 12288 + 8 * i
  | .interface i w => k.layout.interfaces + 24 * i + 8 * w
  | .mem a => a

/-- The contexts are at multiples of 8. -/
def Aligned (k : Kernel) : Prop := ∀ p ∈ k.contexts, p % 8 = 0

theorem Placed.aligned8 (h : Placed k) : Aligned k := fun p hp => by
  have := h.aligned p hp
  omega

theorem contextAt_some {p : ℕ} (h : k.contextAt a = some p) : p ∈ k.contexts ∧ p ≤ a := by
  unfold Kernel.contextAt at h
  have hp := List.find?_some h
  simp only [Bool.and_eq_true, decide_eq_true_eq] at hp
  exact ⟨List.mem_of_find?_eq_some h, hp.1⟩

/-- An interface has three words. -/
def Place.wordOk : Place → Prop
  | .interface _ w => w < 3
  | _ => True

theorem place_ite {P : Prop} [Decidable P] {x y : Place}
    (hx : P → x.address k = a ∧ x.wordOk) (hy : ¬ P → y.address k = a ∧ y.wordOk) :
    (if P then x else y).address k = a ∧ (if P then x else y).wordOk := by
  by_cases h : P
  · rw [if_pos h]
    exact hx h
  · rw [if_neg h]
    exact hy h

/-- Each place has one address. -/
theorem place_spec (hal : Aligned k) (ha : a % 8 = 0) :
    (k.place a).address k = a ∧ (k.place a).wordOk := by
  have hcore := k.layout.core_aligned
  have hint := k.layout.interfaces_aligned
  unfold Kernel.place
  cases hc : k.contextAt a with
  | some p =>
    obtain ⟨hp, hle⟩ := contextAt_some hc
    have := hal p hp
    refine ⟨?_, trivial⟩
    show p + 8 * ((a - p) / 8) = a
    omega
  | none =>
    refine place_ite (fun _ => ⟨rfl, trivial⟩) fun _ => ?_
    -- the variables of the core and of the kernel
    refine place_ite (fun h => ⟨h.symm, trivial⟩) fun _ => ?_
    refine place_ite (fun h => ⟨h.symm, trivial⟩) fun _ => ?_
    refine place_ite (fun h => ⟨h.symm, trivial⟩) fun _ => ?_
    refine place_ite (fun h => ⟨h.symm, trivial⟩) fun _ => ?_
    refine place_ite (fun h => ⟨h.symm, trivial⟩) fun _ => ?_
    refine place_ite (fun h => ⟨h.symm, trivial⟩) fun _ => ?_
    -- the tables of the core
    refine place_ite (fun h => ⟨?_, trivial⟩) fun _ => ?_
    · show k.layout.core + 4096 + 8 * ((a - (k.layout.core + 4096)) / 8) = a
      omega
    refine place_ite (fun h => ⟨?_, trivial⟩) fun _ => ?_
    · show k.layout.core + 8192 + 8 * ((a - (k.layout.core + 8192)) / 8) = a
      omega
    refine place_ite (fun h => ⟨?_, trivial⟩) fun _ => ?_
    · show k.layout.core + 12288 + 8 * ((a - (k.layout.core + 12288)) / 8) = a
      omega
    -- the table of interfaces, of three words each
    refine place_ite (fun h => ⟨?_, ?_⟩) fun _ => ⟨rfl, trivial⟩
    · show k.layout.interfaces + 24 * ((a - k.layout.interfaces) / 24) +
        8 * ((a - k.layout.interfaces) % 24 / 8) = a
      omega
    · show (a - k.layout.interfaces) % 24 / 8 < 3
      omega

theorem place_ne (hal : Aligned k) (ha : a % 8 = 0) (hb : b % 8 = 0) (hne : a ≠ b) :
    k.place a ≠ k.place b := by
  intro h
  apply hne
  rw [← (place_spec hal ha).1, ← (place_spec hal hb).1, h]

theorem place_interface {i w : ℕ} (hal : Aligned k) (ha : a % 8 = 0)
    (h : k.place a = .interface i w) : w < 3 := by
  have := (place_spec hal ha).2
  rw [h] at this
  exact this

theorem interfaceWord_setInterfaceWord_ne (i : Interface) {v w u : ℕ} (hw : w < 3) (hu : u < 3)
    (hne : u ≠ w) : interfaceWord (setInterfaceWord i v w) u = interfaceWord i u := by
  obtain rfl | rfl | rfl : w = 0 ∨ w = 1 ∨ w = 2 := by omega
  · obtain rfl | rfl : u = 1 ∨ u = 2 := by omega
    · simp [setInterfaceWord, interfaceWord]
    · simp [setInterfaceWord, interfaceWord]
  · obtain rfl | rfl : u = 0 ∨ u = 2 := by omega
    · simp [setInterfaceWord, interfaceWord]
    · simp [setInterfaceWord, interfaceWord]
  · obtain rfl | rfl : u = 0 ∨ u = 1 := by omega
    · simp [setInterfaceWord, interfaceWord]
    · simp [setInterfaceWord, interfaceWord]

/-- Places of one kind at different addresses have different numbers. -/
theorem number_ne {f : ℕ → Place} {i j : ℕ} (hne : k.place a ≠ k.place b)
    (hp : k.place a = f i) (hq : k.place b = f j) : j ≠ i := by
  rintro rfl
  exact hne (hp.trans hq.symm)

/-- A guarded word at another address. -/
theorem setWord_word_ne (hal : Aligned k) (ha : a % 8 = 0) (hb : b % 8 = 0) (hne : a ≠ b)
    (hg : (k.place b).guarded = true) (v : ℕ) : (k.setWord a v).word b = k.word b := by
  have hpl := place_ne hal ha hb hne
  unfold Kernel.word
  rw [setWord_place]
  -- a store of another kind leaves the word; one of the same kind goes to another place
  cases hq : k.place b with
  | context q u =>
    unfold Kernel.setWord
    cases hp : k.place a with
    | context p w =>
      have : ¬ (q = p ∧ u = w) := by
        rintro ⟨rfl, rfl⟩
        exact hpl (hp.trans hq.symm)
      simp [this]
    | _ => rfl
  | l1 j =>
    unfold Kernel.setWord
    cases hp : k.place a with
    | l1 i => simp [number_ne hpl hp hq]
    | _ => rfl
  | l2 j =>
    unfold Kernel.setWord
    cases hp : k.place a with
    | l2 i => simp [number_ne hpl hp hq]
    | _ => rfl
  | l3 j =>
    unfold Kernel.setWord
    cases hp : k.place a with
    | l3 i => simp [number_ne hpl hp hq]
    | _ => rfl
  | interface j u =>
    unfold Kernel.setWord
    cases hp : k.place a with
    | interface i w =>
      -- the words of one interface share a slot of the table
      by_cases hij : j = i
      · subst hij
        have huw : u ≠ w := by
          rintro rfl
          exact hpl (hp.trans hq.symm)
        simp [interfaceWord_setInterfaceWord_ne _ (place_interface hal ha hp)
          (place_interface hal hb hq) huw]
      · simp [hij]
    | _ => rfl
  | runnable =>
    unfold Kernel.setWord
    cases hp : k.place a with
    | runnable => exact absurd (hp.trans hq.symm) hpl
    | _ => rfl
  | interruptThread =>
    unfold Kernel.setWord
    cases hp : k.place a with
    | interruptThread => exact absurd (hp.trans hq.symm) hpl
    | _ => rfl
  | mem c =>
    unfold Kernel.setWord
    cases hp : k.place a with
    | mem d => simp [number_ne hpl hp hq]
    | _ => rfl
  -- the rest is not guarded
  | user c => rw [hq] at hg; cases hg
  | blockedWithTimeout => rw [hq] at hg; cases hg
  | blocked => rw [hq] at hg; cases hg
  | coreNumber => rw [hq] at hg; cases hg
  | physicalAddress => rw [hq] at hg; cases hg

/-- A store to one word is harmless just if it stores what a guarded word holds. -/
theorem setWord_untouched (hw : WellTyped k) :
    Untouched k (k.setWord a v) ↔ ((k.place a).guarded = true → v = k.word a) := by
  constructor
  · intro h hg
    rw [← h.word (setWord_layout k a v) hg, setWord_word hg]
  · intro h
    cases hg : (k.place a).guarded with
    | true =>
      rw [h hg, setWord_self hw hg]
      exact Untouched.refl k
    | false => exact setWord_unguarded hg v

theorem store64_unaligned (ha : a % 8 ≠ 0) (v : ℕ) :
    k.store64 a v =
      let k₁ := k.setWord (a - a % 8)
        (setField (8 * (a % 8)) (64 - 8 * (a % 8)) v (k.word (a - a % 8)))
      k₁.setWord (a - a % 8 + 8)
        (setField 0 (8 * (a % 8)) (v / 2 ^ (64 - 8 * (a % 8))) (k₁.word (a - a % 8 + 8))) :=
  if_neg ha

theorem store64_layout (k : Kernel) (a v : ℕ) : (k.store64 a v).layout = k.layout := by
  unfold Kernel.store64
  split
  · exact setWord_layout k a v
  · rw [setWord_layout, setWord_layout]

theorem store64_contexts (k : Kernel) (a v : ℕ) : (k.store64 a v).contexts = k.contexts := by
  unfold Kernel.store64
  split
  · exact setWord_contexts k a v
  · rw [setWord_contexts, setWord_contexts]

theorem store64_place (k : Kernel) (a v b : ℕ) : (k.store64 a v).place b = k.place b :=
  place_congr (store64_layout k a v) (store64_contexts k a v) b

theorem Aligned.congr (hal : Aligned k) (h : k'.contexts = k.contexts) : Aligned k' := by
  unfold Aligned
  rw [h]
  exact hal

/-- A store changes no guarded word. -/
def Harmless (k : Kernel) (a v : ℕ) : Prop :=
  if a % 8 = 0 then (k.place a).guarded = true → v = k.word a
  else
    ((k.place (a - a % 8)).guarded = true →
      setField (8 * (a % 8)) (64 - 8 * (a % 8)) v (k.word (a - a % 8)) = k.word (a - a % 8)) ∧
    ((k.place (a - a % 8 + 8)).guarded = true →
      setField 0 (8 * (a % 8)) (v / 2 ^ (64 - 8 * (a % 8))) (k.word (a - a % 8 + 8)) =
        k.word (a - a % 8 + 8))

theorem harmless_untouched (hw : WellTyped k) (h : Harmless k a v) :
    Untouched k (k.store64 a v) := by
  unfold Harmless at h
  split at h
  · rename_i ha
    rw [store64_eq_setWord ha]
    exact (setWord_untouched hw).2 h
  · rename_i ha
    rw [store64_unaligned ha]
    set k₁ := k.setWord (a - a % 8)
      (setField (8 * (a % 8)) (64 - 8 * (a % 8)) v (k.word (a - a % 8))) with hk₁
    have h₁ : Untouched k k₁ := (setWord_untouched hw).2 h.1
    have hw₁ : WellTyped k₁ := by
      unfold WellTyped
      rw [h₁.interfaces]
      exact hw
    refine h₁.trans ((setWord_untouched hw₁).2 fun hg => ?_)
    rw [hk₁, setWord_place] at hg
    rw [h₁.word (setWord_layout _ _ _) hg]
    exact h.2 hg

/-- Harmless stores depend on guarded words only. -/
theorem harmless_congr (h : Untouched k k') (hl : k'.layout = k.layout) :
    Harmless k' a v ↔ Harmless k a v := by
  have hp : ∀ b, k'.place b = k.place b := place_congr hl h.contexts
  unfold Harmless
  simp only [hp]
  split
  · exact forall_congr' fun hg => by rw [h.word hl hg]
  · exact and_congr (forall_congr' fun hg => by rw [h.word hl hg])
      (forall_congr' fun hg => by rw [h.word hl hg])

/-- A word below the address of a store. -/
theorem store64_below (hal : Aligned k) (hb : b % 8 = 0) (hle : b + 8 ≤ a)
    (hg : (k.place b).guarded = true) (v : ℕ) : (k.store64 a v).word b = k.word b := by
  by_cases ha : a % 8 = 0
  · rw [store64_eq_setWord ha]
    exact setWord_word_ne hal ha hb (by omega) hg v
  · rw [store64_unaligned ha]
    rw [setWord_word_ne (hal.congr (setWord_contexts _ _ _)) (by omega) hb (by omega)
      (by rw [setWord_place]; exact hg)]
    exact setWord_word_ne hal (by omega) hb (by omega) hg _

/-- The part of a word below the address of a store. -/
theorem store64_low (hal : Aligned k) (hb : b % 8 = 0) (hlt : b < a) (hle : a < b + 8)
    (hg : (k.place b).guarded = true) (v : ℕ) :
    (k.store64 a v).word b % 2 ^ (8 * (a - b)) = k.word b % 2 ^ (8 * (a - b)) := by
  have ha : a % 8 ≠ 0 := by omega
  have hW : a - a % 8 = b := by omega
  have hs : 8 * (a % 8) = 8 * (a - b) := by omega
  rw [store64_unaligned ha, hW, hs]
  rw [setWord_word_ne (hal.congr (setWord_contexts _ _ _)) (by omega) hb (by omega)
    (by rw [setWord_place]; exact hg), setWord_word hg, setField_mod]

end Words

/-! ## Copying -/

section Copy

variable {k k' : Kernel} (ok : Kernel → ℕ → ℕ → Bool)

/-- The copying loop leaves the words below its destination alone. -/
theorem copyWords_below {n d s b : ℕ} {k₁ : Kernel} (hal : Aligned k₁) (hb : b % 8 = 0)
    (hle : b + 8 ≤ d) (hg : (k₁.place b).guarded = true) :
    (copyWords ok n k₁ d s).kernel.word b = k₁.word b := by
  induction n generalizing k₁ d s with
  | zero => rfl
  | succ n ih =>
    unfold copyWords
    split
    · rw [ih (hal.congr (store64_contexts _ _ _)) (by omega) (by rw [store64_place]; exact hg)]
      exact store64_below hal hb hle hg _
    · rfl

/-- And the part of a word that is below it. -/
theorem copyWords_low {n d s b : ℕ} {k₁ : Kernel} (hal : Aligned k₁) (hb : b % 8 = 0)
    (hlt : b < d) (hle : d < b + 8) (hg : (k₁.place b).guarded = true) :
    (copyWords ok n k₁ d s).kernel.word b % 2 ^ (8 * (d - b)) =
      k₁.word b % 2 ^ (8 * (d - b)) := by
  cases n with
  | zero => rfl
  | succ n =>
    unfold copyWords
    split
    · rw [copyWords_below ok (hal.congr (store64_contexts _ _ _)) hb (by omega)
        (by rw [store64_place]; exact hg)]
      exact store64_low hal hb hlt hle hg _
    · rfl

theorem copyWords_layout (n : ℕ) (k₁ : Kernel) (d s : ℕ) :
    (copyWords ok n k₁ d s).kernel.layout = k₁.layout := by
  induction n generalizing k₁ d s with
  | zero => rfl
  | succ n ih =>
    unfold copyWords
    split
    · rw [ih, store64_layout]
    · rfl

/-- A store that was not harmless shows at the end of the loop. -/
theorem harmless_of_copy {n d s v : ℕ} {k₁ : Kernel} (hal : Aligned k₁)
    (hk' : (copyWords ok n (k₁.store64 d v) (d + 8) s).kernel = k')
    (h : Untouched k₁ k') (hl : k'.layout = k₁.layout) : Harmless k₁ d v := by
  have hal₂ : Aligned (k₁.store64 d v) := hal.congr (store64_contexts _ _ _)
  have hp₂ : ∀ b, (k₁.store64 d v).place b = k₁.place b := store64_place k₁ d v
  unfold Harmless
  split
  · rename_i hd
    intro hg
    have hend := copyWords_below ok (n := n) (s := s) hal₂ hd (le_refl (d + 8))
      (by rw [hp₂]; exact hg)
    rw [hk', h.word hl hg, store64_eq_setWord hd, setWord_word hg] at hend
    exact hend.symm
  · rename_i hd
    have hW : (d - d % 8) % 8 = 0 := by omega
    have hW₈ : (d - d % 8 + 8) % 8 = 0 := by omega
    constructor
    · intro hg
      have hend := copyWords_below ok (n := n) (s := s) hal₂ hW
        (by omega : d - d % 8 + 8 ≤ d + 8) (by rw [hp₂]; exact hg)
      rw [hk', h.word hl hg, store64_unaligned hd,
        setWord_word_ne (hal.congr (setWord_contexts _ _ _)) hW₈ hW (by omega)
          (by rw [setWord_place]; exact hg), setWord_word hg] at hend
      exact hend.symm
    · intro hg
      have hend := copyWords_low ok (n := n) (s := s) hal₂ hW₈
        (by omega : d - d % 8 + 8 < d + 8) (by omega) (by rw [hp₂]; exact hg)
      have hs : 8 * (d + 8 - (d - d % 8 + 8)) = 8 * (d % 8) := by omega
      rw [hk', h.word hl hg, hs, store64_unaligned hd,
        setWord_word (by rw [setWord_place]; exact hg),
        setWord_word_ne hal hW hW₈ (by omega) hg, setField_zero, Nat.mul_add_mod',
        Nat.mod_mod] at hend
      rw [setField_zero, ← hend]
      exact Nat.div_add_mod' _ _

/-- The copying loop halts before it has changed anything guarded: the access
to some word fails, and the stores before that are harmless. -/
def CopyFails (k : Kernel) (m n d s : ℕ) : Prop :=
  ∃ j, m ≤ j ∧ j < n ∧ ok k (d + 8 * j) (s + 8 * j) = false ∧
    ∀ i, m ≤ i → i < j → ok k (d + 8 * i) (s + 8 * i) = true ∧
      Harmless k (d + 8 * i) (k.load64 (s + 8 * i))

/-- One round of the loop: `R` holds of the states that harmless stores lead to. -/
theorem copyWords_halts {n d s : ℕ} {R : Kernel → Prop} (hal : Aligned k)
    (hR : ∀ k₁, R k₁ → Untouched k k₁ ∧ k₁.layout = k.layout)
    (hok : ∀ k₁ a b, R k₁ → ok k₁ a b = ok k a b)
    (hload : ∀ k₁ i, R k₁ → i < n → k₁.load64 (s + 8 * i) = k.load64 (s + 8 * i))
    (hstore : ∀ k₁ i v, R k₁ → i < n → ok k (d + 8 * i) (s + 8 * i) = true →
      Harmless k₁ (d + 8 * i) v → R (k₁.store64 (d + 8 * i) v))
    (n' m : ℕ) (hm : m + n' = n) (k₁ : Kernel) (h₁ : R k₁) :
    (∃ k', copyWords ok n' k₁ (d + 8 * m) (s + 8 * m) = .halt k' ∧ Untouched k k') ↔
      CopyFails ok k m n d s := by
  -- the induction is on the words left; `R` holds of the kernel at each of them
  induction n' generalizing m k₁ with
  | zero =>
    constructor
    · rintro ⟨k', h, -⟩
      cases h
    · rintro ⟨j, hmj, hj, -⟩
      omega
  | succ n' ih =>
    obtain ⟨hun, hlay⟩ := hR k₁ h₁
    have hload₁ := hload k₁ m h₁ (by omega)
    unfold copyWords
    rw [hok k₁ _ _ h₁, hload₁]
    cases hacc : ok k (d + 8 * m) (s + 8 * m) with
    | false =>
      constructor
      · intro _
        exact ⟨m, le_refl m, by omega, hacc, fun i hi hi' => by omega⟩
      · intro _
        exact ⟨k₁, rfl, hun⟩
    | true =>
      simp only [if_true]
      by_cases hh : Harmless k₁ (d + 8 * m) (k.load64 (s + 8 * m))
      · -- the rest of the loop, from the state after this store
        have hnext := ih (m + 1) (by omega) _ (hstore k₁ m _ h₁ (by omega) hacc hh)
        rw [show d + 8 * m + 8 = d + 8 * (m + 1) by omega,
          show s + 8 * m + 8 = s + 8 * (m + 1) by omega, hnext]
        constructor
        · rintro ⟨j, hmj, hj, hf, hi⟩
          refine ⟨j, by omega, hj, hf, fun i hmi hij => ?_⟩
          rcases Nat.eq_or_lt_of_le hmi with rfl | hlt
          · exact ⟨hacc, (harmless_congr hun hlay).1 hh⟩
          · exact hi i hlt hij
        · rintro ⟨j, hmj, hj, hf, hi⟩
          have hne : j ≠ m := by
            rintro rfl
            rw [hacc] at hf
            cases hf
          exact ⟨j, by omega, hj, hf, fun i hmi hij => hi i (by omega) hij⟩
      · constructor
        · -- no later store is at the same word, so the copy would leave it changed
          rintro ⟨k', hk', hun'⟩
          have hkernel : (copyWords ok n' (k₁.store64 (d + 8 * m) (k.load64 (s + 8 * m)))
              (d + 8 * m + 8) (s + 8 * m + 8)).kernel = k' := by rw [hk']; rfl
          have hlay' : k'.layout = k₁.layout := by
            rw [← hkernel, copyWords_layout, store64_layout]
          exact absurd (harmless_of_copy ok (hal.congr hun.contexts) hkernel
            (hun.symm.trans hun') hlay') hh
        · rintro ⟨j, hmj, hj, hf, hi⟩
          have hne : j ≠ m := by
            rintro rfl
            rw [hacc] at hf
            cases hf
          exact absurd ((harmless_congr hun hlay).2 (hi m (le_refl m) (by omega)).2) hh

end Copy

/-- What the kernel needs of the words of a copy. -/
def accessible (k : Kernel) (destination source : ℕ) : Bool :=
  kernelReadable k source && kernelWritable k destination

section Heap

variable {k k' : Kernel}

/-- The tables decide what the kernel can reach. -/
theorem Untouched.accessible (h : Untouched k k') (hl : k'.layout = k.layout) (a b : ℕ) :
    El1.accessible k' a b = El1.accessible k a b := by
  unfold El1.accessible kernelReadable kernelWritable kernelMapped leaf
  rw [hl, h.l1, h.l2, h.l3]

theorem layout_heapStart (k : Kernel) : startAddress ≤ k.layout.blocked ∧
    k.layout.blocked + 8 ≤ k.layout.core ∧ k.layout.core + 16384 ≤ k.layout.interfaces ∧
    k.layout.interfaces + 24 * tableSize ≤ heapStart := layout_le k

theorem Placed.contextAt_below (h : Placed k) {a : ℕ} (ha : a < heapStart) :
    k.contextAt a = none := h.contextAt_none ha

/-- The heap is guarded, and so is what is above it. -/
theorem heap_guarded {a : ℕ} (ha : heapStart ≤ a) : (k.place a).guarded = true := by
  have hl := layout_heapStart k
  have hlow : ¬ IsLow a := by
    unfold IsLow heapStart startAddress heapTop initialHeap at *
    omega
  unfold Kernel.place
  cases hc : k.contextAt a with
  | some p => rfl
  | none =>
    show Place.guarded (if IsLow a then _ else _) = true
    have h₁ : a ≠ runnableAddress k := by unfold runnableAddress; omega
    have h₂ : a ≠ interruptThreadAddress k := by unfold interruptThreadAddress; omega
    have h₃ : a ≠ blockedWithTimeoutAddress k := by unfold blockedWithTimeoutAddress; omega
    have h₄ : a ≠ k.layout.blocked := by omega
    have h₅ : a ≠ coreNumberAddress k := by unfold coreNumberAddress; omega
    have h₆ : a ≠ physicalAddressAddress k := by unfold physicalAddressAddress; omega
    rw [if_neg hlow, if_neg h₁, if_neg h₂, if_neg h₃, if_neg h₄, if_neg h₅, if_neg h₆,
      if_neg (by omega), if_neg (by omega), if_neg (by omega), if_neg (by omega)]
    simpa [Place.guarded] using ha

/-- The stack of the system driver, in the core's page, is not guarded. -/
theorem coreStack_unguarded (h : Placed k) {i : ℕ} (hi : i < 512) :
    (k.place (coreStackEntry k i)).guarded = false := by
  have hl := layout_heapStart k
  unfold coreStackEntry
  have hlow : ¬ IsLow (k.layout.core + 8 * i) := not_isLow (by omega)
  have hc := h.contextAt_below (a := k.layout.core + 8 * i) (by omega)
  unfold Kernel.place
  rw [hc]
  show Place.guarded (if IsLow (k.layout.core + 8 * i) then _ else _) = false
  rw [if_neg hlow, if_neg (by unfold runnableAddress; omega),
    if_neg (by unfold interruptThreadAddress; omega),
    if_neg (by unfold blockedWithTimeoutAddress; omega), if_neg (by omega),
    if_neg (by unfold coreNumberAddress; omega), if_neg (by unfold physicalAddressAddress; omega),
    if_neg (by omega), if_neg (by omega), if_neg (by omega), if_neg (by omega)]
  simp only [Place.guarded, decide_eq_false_iff_not]
  omega

/-- Where `read_heap` and `write_heap` copy from or to. -/
theorem heapPointer_spec (h : Placed k) (hne : k.contexts ≠ []) {offset length : ℕ}
    (hok : heapBlockOk k offset length = true) :
    heapStart ≤ heapPointer offset ∧ heapPointer offset % 8 = 0 := by
  obtain ⟨p, hp⟩ := List.exists_mem_of_ne_nil _ hne
  have hb := h.bottom p hp
  have ht := h.top p hp
  have hm := h.mapped
  unfold heapBlockOk at hok
  simp only [Bool.and_eq_true, decide_eq_true_eq, beq_iff_eq] at hok
  obtain ⟨⟨hle, hmod⟩, -⟩ := hok
  have hbot : k.heapBottom + contextSize ≤ heapTop := by omega
  have hoff : offset ≤ heapTop - k.heapBottom := by
    unfold contextSize heapTop at *
    omega
  unfold heapPointer heapStart startAddress heapTop initialHeap at *
  constructor
  · omega
  · omega

/-- `read_heap`. -/
theorem readHeap_refused (hpl : Placed k) (hne : k.contexts ≠ []) (hw : WellTyped k)
    (offset length destination : ℕ) :
    (∃ k', readHeap k offset length destination = .halt k' ∧ Untouched k k') ↔
      heapBlockOk k offset length = false ∨
        CopyFails accessible k 0 (length / 8) destination (heapPointer offset) := by
  unfold readHeap
  cases hok : heapBlockOk k offset length with
  | false =>
    simp only [Bool.false_eq_true, if_false, true_or, iff_true]
    exact ⟨k, rfl, Untouched.refl k⟩
  | true =>
    obtain ⟨hheap, hal⟩ := heapPointer_spec hpl hne hok
    rw [if_pos rfl]
    have hcopy := copyWords_halts accessible (n := length / 8) (d := destination)
      (s := heapPointer offset) (R := fun k₁ => Untouched k k₁ ∧ k₁.layout = k.layout)
      hpl.aligned8 (fun k₁ h => h) (fun k₁ a b h => h.1.accessible h.2 a b)
      (fun k₁ i h _ => by
        have halign : (heapPointer offset + 8 * i) % 8 = 0 := by omega
        rw [load64_eq_word halign, load64_eq_word halign]
        exact h.1.word h.2 (heap_guarded (by omega)))
      (fun k₁ i v h _ _ hh => by
        have hw₁ : WellTyped k₁ := by
          unfold WellTyped
          rw [h.1.interfaces]
          exact hw
        exact ⟨h.1.trans (harmless_untouched hw₁ hh), (store64_layout _ _ _).trans h.2⟩)
      (length / 8) 0 (by omega) k ⟨Untouched.refl k, rfl⟩
    simp only [Bool.true_eq_false, false_or]
    exact hcopy

/-- `write_heap`: all stores are to guarded words. -/
theorem writeHeap_refused (hpl : Placed k) (hne : k.contexts ≠ []) (hw : WellTyped k)
    (offset length source : ℕ) :
    (∃ k', writeHeap k offset length source = .halt k' ∧ Untouched k k') ↔
      heapBlockOk k offset length = false ∨
        CopyFails accessible k 0 (length / 8) (heapPointer offset) source := by
  unfold writeHeap
  cases hok : heapBlockOk k offset length with
  | false =>
    simp only [Bool.false_eq_true, if_false, true_or, iff_true]
    exact ⟨k, rfl, Untouched.refl k⟩
  | true =>
    obtain ⟨hheap, hal⟩ := heapPointer_spec hpl hne hok
    rw [if_pos rfl]
    have hcopy := copyWords_halts accessible (n := length / 8) (d := heapPointer offset)
      (s := source) (R := fun k₁ => k₁ = k) hpl.aligned8
      (fun k₁ h => h ▸ ⟨Untouched.refl k₁, rfl⟩) (fun k₁ a b h => by rw [h])
      (fun k₁ i h _ => by rw [h])
      (fun k₁ i v h _ _ hh => by
        subst h
        have halign : (heapPointer offset + 8 * i) % 8 = 0 := by omega
        have hg : (k₁.place (heapPointer offset + 8 * i)).guarded = true :=
          heap_guarded (by omega)
        unfold Harmless at hh
        rw [if_pos halign] at hh
        rw [store64_eq_setWord halign, hh hg, setWord_self hw hg])
      (length / 8) 0 (by omega) k rfl
    simp only [Bool.true_eq_false, false_or]
    exact hcopy

end Heap

/-! ## The requests -/

/-- The call halts the core, with everything that is guarded as it was. -/
def Refused (k : Kernel) (o : Outcome ℕ) : Prop := ∃ k', o = .halt k' ∧ Untouched k k'

/-- No interface can be taken from the free list. -/
def NoFreeInterface (k : Kernel) : Prop :=
  k.freeInterface = 0 ∨ k.lastInterface < k.freeInterface % 2 ^ 32 ∨
    (k.interfaces (k.freeInterface % 2 ^ 32)).marker ≠ freeMarker ∨
    (k.interfaces (k.freeInterface % 2 ^ 32)).next = 0

/-- The block that `allocate_heap` returns next. -/
def nextBlock (k : Kernel) (size : ℕ) : ℕ := (allocateHeap k size).2

/-- What makes a request fail before it has an effect. -/
def RequestFails (k : Kernel) (thread : ℕ) : Prop :=
  match Request.ofCode (k.reg thread 0) with
  | some .setInterruptThread => k.interruptThread ≠ 0 ∧ k.interruptThread ≠ thread
  | some .addDevicePage =>
    32 ≤ k.reg thread 2 / 4096 % 2 ^ 32 ∨
      k.sharedSystemMap (k.reg thread 2 / 4096 % 2 ^ 32) ≠ Entry.invalid
  | some .updatedMap => False
  | some .createMap => NoFreeInterface k
  | some .readInterface =>
    k.lastInterface < k.reg thread 1 % 2 ^ 32 ∨
      kernelMapped k (objectAddress k (k.reg thread 1)) = false
  | some .readHeap =>
    heapBlockOk k (k.reg thread 1) (k.reg thread 2) = false ∨
      CopyFails accessible k 0 (k.reg thread 2 / 8) (k.reg thread 3) (heapPointer (k.reg thread 1))
  | some .writeHeap =>
    heapBlockOk k (k.reg thread 1) (k.reg thread 2) = false ∨
      CopyFails accessible k 0 (k.reg thread 2 / 8) (heapPointer (k.reg thread 1)) (k.reg thread 3)
  | some .allocateHeap => False
  | some .makePartner =>
    k.partner thread ≠ 0 ∨ nextBlock k (contextSize + vmStateSize) + contextSize < heapStart
  | some .createThread =>
    k.reg thread 2 % 16 ≠ 0 ∨
      inMappedHeap (nextBlock k contextSize) contextSize = false ∧
        ∀ a, heapStart ≤ a → (initialiseFaults k (nextBlock k contextSize)).mem a = k.mem a
  | some .nextDriver | some .freeHeap | none => True

section Refusal

variable {k k' : Kernel} {t now : ℕ}

theorem refused_halt (h : Untouched k k') : Refused k (.halt k') := ⟨k', rfl, h⟩

theorem not_refused_ok {k₁ : Kernel} : ¬ Refused k (.ok k₁ now) := by
  rintro ⟨k', h, -⟩
  cases h

theorem refused_iff_halt : Refused k (.halt k') ↔ Untouched k k' := by
  constructor
  · rintro ⟨k₁, h, hu⟩
    cases h
    exact hu
  · exact refused_halt

/-- A request that halts, or returns to the thread, ends the call. -/
theorem refused_request (h : ∀ k₁ n, serveRequest k t = .ok k₁ n → n = t) :
    Refused k (systemDriverRequest k t) ↔ Refused k (serveRequest k t) := by
  unfold systemDriverRequest
  cases hs : serveRequest k t with
  | halt k₁ => exact Iff.rfl
  | ok k₁ n =>
    obtain rfl := h k₁ n hs
    simp only [ne_eq, not_true_eq_false, false_and, if_false]

/-- A request that gives way to another thread. -/
theorem not_refused_switch {k₁ : Kernel} (h : serveRequest k t = .ok k₁ now)
    (hne : now ≠ t → ¬ Untouched k k₁) : ¬ Refused k (systemDriverRequest k t) := by
  unfold systemDriverRequest
  rw [h]
  simp only
  split
  · rename_i hc
    rw [changeMap_eq]
    split
    · rename_i hhalt
      split at hhalt
      · cases hhalt
        rw [refused_iff_halt]
        exact hne hc.1
      · cases hhalt
    · exact not_refused_ok
  · exact not_refused_ok

theorem obtainInterface_refused :
    (∃ k', obtainInterface k = .halt k' ∧ Untouched k k') ↔ NoFreeInterface k := by
  unfold obtainInterface NoFreeInterface interfaceFromIndex
  by_cases h₀ : k.freeInterface = 0
  · simp only [h₀, if_true, true_or, iff_true]
    exact ⟨k, rfl, Untouched.refl k⟩
  · by_cases h₁ : k.lastInterface < k.freeInterface % 2 ^ 32
    · simp only [h₀, h₁, if_false, if_true, true_or, or_true, iff_true]
      exact ⟨k, rfl, Untouched.refl k⟩
    · simp only [h₀, h₁, if_false, false_or]
      by_cases h₂ : (k.interfaces (k.freeInterface % 2 ^ 32)).marker ≠ freeMarker
      · simp only [h₂, ne_eq, not_false_eq_true, if_true, true_or, iff_true]
        exact ⟨_, rfl, ⟨rfl, rfl, rfl, rfl, fun _ _ => rfl, rfl, rfl, rfl, rfl, rfl⟩⟩
      · by_cases h₃ : (k.interfaces (k.freeInterface % 2 ^ 32)).next = 0
        · simp only [h₂, h₃, if_false, if_true, or_true, iff_true]
          exact ⟨_, rfl, ⟨rfl, rfl, rfl, rfl, fun _ _ => rfl, rfl, rfl, rfl, rfl, rfl⟩⟩
        · simp only [h₂, h₃, if_false, or_self, iff_false]
          rintro ⟨k', h, -⟩
          cases h

theorem newInterface_refused {user provider handler value : ℕ} :
    Refused k (newInterface k t user provider handler value) ↔ NoFreeInterface k := by
  rw [← obtainInterface_refused]
  unfold newInterface
  cases obtainInterface k with
  | halt k₁ =>
    constructor
    · rintro ⟨k', h, hu⟩
      cases h
      exact ⟨_, rfl, hu⟩
    · rintro ⟨k', h, hu⟩
      cases h
      exact refused_halt hu
  | ok k₁ e =>
    constructor
    · exact fun h => absurd h not_refused_ok
    · rintro ⟨k', h, -⟩
      cases h

theorem setFld_contexts (k : Kernel) (p w v : ℕ) : (k.setFld p w v).contexts = k.contexts := by
  unfold Kernel.setFld
  split
  · rfl
  · exact store64_contexts k _ v

theorem insertThreadAsHead_contexts (k : Kernel) (list new : ℕ) :
    (insertThreadAsHead k list new).contexts = k.contexts := by
  unfold insertThreadAsHead insertThreadAtTail insertNewThreadBeforeOld Kernel.setNext
    Kernel.setPrev Kernel.setList
  rw [store64_contexts]
  simp only
  split
  · simp only [store64_contexts, setFld_contexts]
  · simp only [setFld_contexts]

theorem dropHead_contexts (k : Kernel) (e : ℕ) : (dropHead k e).contexts = k.contexts := by
  unfold dropHead
  simp only
  split
  · split
    · exact store64_contexts _ _ _
    · exact store64_contexts _ _ _
  · rfl

/-- A removed thread is alone. -/
theorem removeThread_next (ht : t ∈ k.contexts) : (removeThread k t).ctx t 0 = t := by
  unfold removeThread Kernel.setNext Kernel.setPrev
  simp only
  rw [setFld_of_mem (by simp only [setFld_contexts, dropHead_contexts]; exact ht)]
  simp

/-- An allocation lowers the bottom of the heap. -/
theorem allocateHeap_eq (k : Kernel) (size : ℕ) :
    ∃ b, allocateHeap k size = ({ k with heapBottom := b }, nextBlock k size) := ⟨_, rfl⟩

theorem setInterruptThread_refused (ht : t ∈ k.contexts)
    (hs : serveRequest k t = setInterruptThread k t) :
    Refused k (systemDriverRequest k t) ↔ k.interruptThread ≠ 0 ∧ k.interruptThread ≠ t := by
  by_cases hother : k.interruptThread ≠ 0 ∧ k.interruptThread ≠ t
  · have hhalt : setInterruptThread k t = .halt k := by
      unfold setInterruptThread
      simp only
      rw [if_pos hother.1, if_pos hother.2]
    rw [hhalt] at hs
    simp only [hother, ne_eq, not_false_eq_true, and_self, iff_true]
    unfold systemDriverRequest
    rw [hs]
    exact refused_halt (Untouched.refl k)
  · -- the thread leaves the ring: it was not alone, or it goes on running
    have hfinish : ∃ k₁ : Kernel, k₁.contexts = k.contexts ∧ k₁.ctx t 0 = k.ctx t 0 ∧
        setInterruptThread k t =
          .ok { removeThread k₁ t with runnable := k₁.next t } (k₁.next t) := by
      unfold setInterruptThread
      simp only
      by_cases h₀ : k.interruptThread = 0
      · rw [if_neg (not_not.2 h₀)]
        refine ⟨Kernel.setSpsr { k with interruptThread := t } t 0x80, ?_, ?_, rfl⟩
        · unfold Kernel.setSpsr
          rw [setFld_contexts]
        · unfold Kernel.setSpsr
          rw [setFld_of_mem (by exact ht)]
          simp
      · have heq : k.interruptThread = t := by
          by_contra hne
          exact hother ⟨h₀, hne⟩
        rw [if_pos h₀, if_neg (not_not.2 heq)]
        exact ⟨k, rfl, rfl, rfl⟩
    obtain ⟨k₁, hc, hn, hok⟩ := hfinish
    simp only [hother, iff_false]
    refine not_refused_switch (hs.trans hok) ?_
    intro hne hu
    have ht₁ : t ∈ k₁.contexts := hc ▸ ht
    have hctx := congrFun (congrFun hu.ctx t) 0
    have halone : (removeThread k₁ t).ctx t 0 = t := removeThread_next ht₁
    have hnext : k₁.next t = k₁.ctx t 0 := fld_of_mem ht₁ 0
    apply hne
    rw [hnext, hn, ← hctx]
    exact halone

theorem initialiseFaults_ctx (k : Kernel) (p : ℕ) : (initialiseFaults k p).ctx = k.ctx := by
  unfold initialiseFaults
  split
  · rfl
  · rfl

/-- The registers of a context that could not be made are words of the heap. -/
theorem initialiseFaults_untouched {b p : ℕ} :
    Untouched k (initialiseFaults { k with heapBottom := b } p) ↔
      ∀ a, heapStart ≤ a → (initialiseFaults k p).mem a = k.mem a := by
  have hmem : (initialiseFaults { k with heapBottom := b } p).mem = (initialiseFaults k p).mem := by
    unfold initialiseFaults
    by_cases h : startAddress + heapTop - initialHeap ≤ regAddress p 0
    · rw [if_pos h, if_pos h]
    · rw [if_neg h, if_neg h]
  constructor
  · intro h a ha
    rw [← hmem]
    exact h.heap a ha
  · intro h
    rw [← hmem] at h
    revert h
    unfold initialiseFaults
    by_cases hreg : startAddress + heapTop - initialHeap ≤ regAddress p 0
    · rw [if_pos hreg]
      exact fun h => ⟨rfl, rfl, rfl, rfl, h, rfl, rfl, rfl, rfl, rfl⟩
    · rw [if_neg hreg]
      exact fun h => ⟨rfl, rfl, rfl, rfl, h, rfl, rfl, rfl, rfl, rfl⟩

theorem createThread_refused (hs : serveRequest k t = createThread k t) :
    Refused k (systemDriverRequest k t) ↔ k.reg t 2 % 16 ≠ 0 ∨
      inMappedHeap (nextBlock k contextSize) contextSize = false ∧
        ∀ a, heapStart ≤ a → (initialiseFaults k (nextBlock k contextSize)).mem a = k.mem a := by
  unfold createThread at hs
  by_cases hal : k.reg t 2 % 16 ≠ 0
  · rw [if_pos hal] at hs
    simp only [hal, ne_eq, not_false_eq_true, true_or, iff_true]
    unfold systemDriverRequest
    rw [hs]
    exact refused_halt (Untouched.refl k)
  rw [if_neg hal] at hs
  obtain ⟨b, hb⟩ := allocateHeap_eq k contextSize
  rw [hb] at hs
  simp only [hal, false_or]
  simp only at hs
  cases hm : inMappedHeap (nextBlock k contextSize) contextSize with
  | false =>
    rw [hm] at hs
    simp only [Bool.not_false, if_true] at hs
    unfold systemDriverRequest
    rw [hs]
    simp only [true_and]
    rw [refused_iff_halt]
    exact initialiseFaults_untouched
  | true =>
    rw [hm] at hs
    simp only [Bool.not_true, Bool.false_eq_true, if_false] at hs
    simp only [Bool.true_eq_false, false_and, iff_false]
    refine not_refused_switch hs fun _ hu => ?_
    -- there is one more context
    have hlen := congrArg List.length hu.contexts
    rw [insertThreadAsHead_contexts] at hlen
    unfold Kernel.setReg Kernel.setSpsr Kernel.setSp Kernel.setPc Kernel.setCurrentMap at hlen
    simp only [setFld_contexts] at hlen
    simp only [initialiseNewThread, List.length_cons] at hlen
    omega

theorem makePartner_refused (ht : t ∈ k.contexts) : Refused k (makePartner k t) ↔
    k.partner t ≠ 0 ∨ nextBlock k (contextSize + vmStateSize) + contextSize < heapStart := by
  obtain ⟨b, hb⟩ := allocateHeap_eq k (contextSize + vmStateSize)
  have hstart : startAddress + heapTop - initialHeap = heapStart := rfl
  unfold makePartner
  rw [hb]
  by_cases hp : k.partner t ≠ 0
  · rw [if_pos hp]
    simp only [hp, ne_eq, not_false_eq_true, true_or, iff_true]
    exact refused_halt (Untouched.refl k)
  rw [if_neg hp]
  simp only [hp, false_or, hstart]
  by_cases hlow : nextBlock k (contextSize + vmStateSize) + contextSize < heapStart
  · rw [if_pos hlow]
    simp only [hlow, iff_true]
    exact refused_halt ⟨rfl, rfl, rfl, rfl, fun _ _ => rfl, rfl, rfl, rfl, rfl, rfl⟩
  rw [if_neg hlow]
  simp only [hlow, iff_false]
  split
  · -- the thread has a partner now
    rw [refused_iff_halt]
    intro hu
    have hctx := congrFun (congrFun hu.ctx t) 3
    rw [initialiseFaults_ctx, Kernel.setPartner, setFld_of_mem (by exact ht)] at hctx
    simp only [withCtx_ctx, setCtx_apply, and_self, if_true] at hctx
    have hzero : k.ctx t 3 = 0 := (fld_of_mem ht 3).symm.trans (not_not.1 hp)
    apply hlow
    rw [hctx.trans hzero]
    decide
  · exact not_refused_ok

theorem addDevicePage_refused : Refused k (addDevicePage k t) ↔
    32 ≤ k.reg t 2 / 4096 % 2 ^ 32 ∨
      k.sharedSystemMap (k.reg t 2 / 4096 % 2 ^ 32) ≠ Entry.invalid := by
  unfold addDevicePage
  simp only [ge_iff_le]
  split
  · rename_i h
    simp only [h, true_or, iff_true]
    exact refused_halt (Untouched.refl k)
  · rename_i h
    simp only [h, false_or]
    split
    · rename_i hs
      simp only [hs, ne_eq, not_false_eq_true, iff_true]
      exact refused_halt (Untouched.refl k)
    · rename_i hs
      simp only [hs, iff_false]
      exact not_refused_ok

theorem readInterface_refused : Refused k (readInterface k t) ↔
    k.lastInterface < k.reg t 1 % 2 ^ 32 ∨
      kernelMapped k (objectAddress k (k.reg t 1)) = false := by
  unfold readInterface interfaceFromIndex
  by_cases h : k.lastInterface < k.reg t 1 % 2 ^ 32
  · simp only [h, if_true, true_or, iff_true]
    exact refused_halt (Untouched.refl k)
  · simp only [h, if_false, false_or]
    cases hm : kernelMapped k (objectAddress k (k.reg t 1)) with
    | false =>
      simp only [Bool.false_eq_true, if_false, iff_true]
      exact refused_halt (Untouched.refl k)
    | true =>
      simp only [if_true, Bool.true_eq_false, iff_false]
      exact not_refused_ok

/-- The outcome of a copy, as that of a request. -/
theorem refused_copy {o : Outcome Unit} :
    Refused k (match o with | .halt k₁ => .halt k₁ | .ok k₁ _ => .ok k₁ t) ↔
      ∃ k', o = .halt k' ∧ Untouched k k' := by
  cases o with
  | halt k₁ =>
    constructor
    · rintro ⟨k', h, hu⟩
      cases h
      exact ⟨_, rfl, hu⟩
    · rintro ⟨k', h, hu⟩
      cases h
      exact refused_halt hu
  | ok k₁ u =>
    constructor
    · exact fun h => absurd h not_refused_ok
    · rintro ⟨k', h, -⟩
      cases h

/-- Requests that return return to the thread, but for two of them. -/
theorem serveRequest_now {k₁ : Kernel} (ht : t ∈ k.contexts)
    (h₁ : Request.ofCode (k.reg t 0) ≠ some .setInterruptThread)
    (h₂ : Request.ofCode (k.reg t 0) ≠ some .createThread)
    (h : serveRequest k t = .ok k₁ now) : now = t := by
  -- by the request: where one returns it is to the thread that made it
  unfold serveRequest at h
  cases hr : Request.ofCode (k.reg t 0) with
  | none =>
    rw [hr] at h
    cases h
  | some q =>
    rw [hr] at h
    cases q with
    | setInterruptThread => exact absurd hr h₁
    | createThread => exact absurd hr h₂
    | addDevicePage =>
      simp only [addDevicePage] at h
      split at h
      · cases h
      · split at h
        · cases h
        · cases h
          rfl
    | updatedMap =>
      cases h
      rfl
    | createMap =>
      obtain ⟨_, _, _, hnow, _⟩ := newInterface_ok ht h
      exact hnow
    | nextDriver => cases h
    | readInterface =>
      simp only [readInterface] at h
      split at h
      · cases h
      · split at h
        · cases h
          rfl
        · cases h
    | readHeap =>
      simp only at h
      split at h
      · cases h
      · cases h
        rfl
    | writeHeap =>
      simp only at h
      split at h
      · cases h
      · cases h
        rfl
    | allocateHeap =>
      cases h
      rfl
    | freeHeap => cases h
    | makePartner =>
      obtain ⟨b, hb⟩ := allocateHeap_eq k (contextSize + vmStateSize)
      simp only [makePartner, hb] at h
      split at h
      · cases h
      · split at h
        · cases h
        · split at h
          · cases h
          · exact (congrArg Outcome.now h).symm

/-- A special request is refused just when it fails by itself: the map of the
thread is not looked at. -/
theorem request_refused (hpl : Placed k) (hw : WellTyped k) (ht : t ∈ k.contexts) :
    Refused k (handleSvc k t 0xf010) ↔ RequestFails k t := by
  have hne : k.contexts ≠ [] := List.ne_nil_of_mem ht
  show Refused k (systemDriverRequest k t) ↔ RequestFails k t
  -- the other requests go on with the thread that makes them
  have hserve : ∀ q, Request.ofCode (k.reg t 0) = q → q ≠ some .setInterruptThread →
      q ≠ some .createThread →
      (Refused k (systemDriverRequest k t) ↔ Refused k (serveRequest k t)) := by
    intro q hq h₁ h₂
    exact refused_request fun k₁ n h => serveRequest_now ht (hq ▸ h₁) (hq ▸ h₂) h
  unfold RequestFails
  cases hr : Request.ofCode (k.reg t 0) with
  | none =>
    rw [hserve none hr (by simp) (by simp)]
    unfold serveRequest
    rw [hr]
    simp only [iff_true]
    exact refused_halt (setWord_unguarded (coreStack_unguarded hpl (by decide)) _)
  | some q =>
    cases q with
    | setInterruptThread =>
      refine setInterruptThread_refused ht ?_
      unfold serveRequest
      rw [hr]
    | createThread =>
      refine createThread_refused ?_
      unfold serveRequest
      rw [hr]
    | addDevicePage =>
      rw [hserve _ hr (by simp) (by simp)]
      unfold serveRequest
      rw [hr]
      exact addDevicePage_refused
    | updatedMap =>
      rw [hserve _ hr (by simp) (by simp)]
      unfold serveRequest
      rw [hr]
      simp only [iff_false]
      exact not_refused_ok
    | createMap =>
      rw [hserve _ hr (by simp) (by simp)]
      unfold serveRequest
      rw [hr]
      exact newInterface_refused
    | nextDriver =>
      rw [hserve _ hr (by simp) (by simp)]
      unfold serveRequest
      rw [hr]
      simp only [iff_true]
      exact refused_halt (setWord_unguarded (coreStack_unguarded hpl (by decide)) _)
    | readInterface =>
      rw [hserve _ hr (by simp) (by simp)]
      unfold serveRequest
      rw [hr]
      exact readInterface_refused
    | readHeap =>
      rw [hserve _ hr (by simp) (by simp)]
      unfold serveRequest
      rw [hr]
      exact refused_copy.trans (readHeap_refused hpl hne hw _ _ _)
    | writeHeap =>
      rw [hserve _ hr (by simp) (by simp)]
      unfold serveRequest
      rw [hr]
      exact refused_copy.trans (writeHeap_refused hpl hne hw _ _ _)
    | allocateHeap =>
      rw [hserve _ hr (by simp) (by simp)]
      unfold serveRequest
      rw [hr]
      simp only [iff_false]
      exact not_refused_ok
    | freeHeap =>
      rw [hserve _ hr (by simp) (by simp)]
      unfold serveRequest
      rw [hr]
      simp only [iff_true]
      exact refused_halt (Untouched.refl k)
    | makePartner =>
      rw [hserve _ hr (by simp) (by simp)]
      unfold serveRequest
      rw [hr]
      exact makePartner_refused ht

/-- Two threads of a driver's map, which is not the system map. -/
def driverThreads (x₀ : ℕ) : Kernel :=
  { Kernel.boot with
    contexts := [startAddress + heapTop - 1024, startAddress + heapTop - 512]
    heapBottom := heapTop - 1024
    runnable := startAddress + heapTop - 512
    loadedMap := 3
    ctx := fun p w =>
      if w = 0 ∨ w = 1 then 2 * (startAddress + heapTop - 768) - p
      else if w = 4 then x₀
      else if w = 39 then 3 * 2 ^ 32
      else 0 }

theorem driverThreads_placed (x₀ : ℕ) : Placed (driverThreads x₀) := by
  constructor
  · show ∀ p ∈ [startAddress + heapTop - 1024, startAddress + heapTop - 512], _
    decide
  · show ∀ p ∈ [startAddress + heapTop - 1024, startAddress + heapTop - 512],
      startAddress + (heapTop - 1024) ≤ p
    decide
  · show ∀ p ∈ [startAddress + heapTop - 1024, startAddress + heapTop - 512], _
    decide
  · show List.Pairwise _ [startAddress + heapTop - 1024, startAddress + heapTop - 512]
    decide
  · show heapTop - initialHeap ≤ heapTop - 1024
    decide

theorem driverThreads_typed (x₀ : ℕ) : WellTyped (driverThreads x₀) := by
  intro i
  show (if i = 0 then (⟨0, 0, 0, 0⟩ : Interface) else _).user < 2 ^ 32
  split
  · decide
  · show (if i + 1 < tableSize then i + 1 else 0) < 2 ^ 32
    unfold tableSize
    split
    · omega
    · decide

/-- A request that there is none of is refused. -/
theorem request_refused_unknown :
    Refused (driverThreads 99)
      (handleSvc (driverThreads 99) (startAddress + heapTop - 512) 0xf010) :=
  (request_refused (driverThreads_placed 99) (driverThreads_typed 99) (by decide)).2 (by
    have hcode :
        Request.ofCode ((driverThreads 99).reg (startAddress + heapTop - 512) 0) = none := by
      decide +kernel
    unfold RequestFails
    rw [hcode]
    trivial)

/-- A driver's thread makes itself the interrupt thread. -/
theorem driver_becomes_interrupt_thread :
    (driverThreads 1).currentMap (startAddress + heapTop - 512) ≠ systemMapIndex ∧
      (handleSvc (driverThreads 1) (startAddress + heapTop - 512) 0xf010).isOk = true ∧
      (driverThreads 1).interruptThread = 0 ∧
      (handleSvc (driverThreads 1) (startAddress + heapTop - 512) 0xf010).kernel.interruptThread =
        startAddress + heapTop - 512 := by
  decide +kernel

end Refusal

end Isambard.El1
