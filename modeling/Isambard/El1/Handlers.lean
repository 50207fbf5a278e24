import Isambard.El1.Svc
import Mathlib.Data.List.Infix

/-!
# El1.Handlers — what no handler changes

A handler stores in words of memory, takes interfaces and heap, and makes thread
contexts. It never moves a context or takes one back, and of all the handlers only that of
`ISAMBARD_RETURN` (and `ISAMBARD_EXCEPTION`, which halts) sets the stack pointer of EL0.

* `Grows`: the contexts of the one kernel are contexts of the other;
* `handle_grows`: the handlers, and `handleReturn_grows`: the exception.
-/

namespace Isambard.El1

open Isambard.Lib

/-- What no handler changes. -/
structure Grows (k k' : Kernel) : Prop where
  layout : k'.layout = k.layout
  lastInterface : k'.lastInterface = k.lastInterface
  contexts : k.contexts <:+ k'.contexts
  spEl0 : k'.spEl0 = k.spEl0

theorem Grows.refl (k : Kernel) : Grows k k := ⟨rfl, rfl, List.suffix_refl _, rfl⟩

theorem Grows.trans {k k' k'' : Kernel} (h : Grows k k') (h' : Grows k' k'') : Grows k k'' :=
  ⟨h'.layout.trans h.layout, h'.lastInterface.trans h.lastInterface, h.contexts.trans h'.contexts,
    h'.spEl0.trans h.spEl0⟩

theorem Stores.grows {k k' : Kernel} (h : Stores k k') : Grows k k' :=
  ⟨h.layout, h.lastInterface, by rw [h.contexts], h.spEl0⟩

theorem Grows.mem {k k' : Kernel} (h : Grows k k') {p : ℕ} (hp : p ∈ k.contexts) :
    p ∈ k'.contexts := h.contexts.subset hp

/-- What is left unchanged when a function of the kernel returns, or halts. -/
inductive Outcome.Grown {α : Type} (k : Kernel) : Outcome α → Prop
  | halt {k' : Kernel} : Grows k k' → Outcome.Grown k (.halt k')
  | ok {k' : Kernel} {a : α} : Grows k k' → Outcome.Grown k (.ok k' a)

theorem Outcome.Grown.grows {α : Type} {k k' : Kernel} {a : α} {o : Outcome α} (h : o.Grown k)
    (ho : o = .ok k' a) : Grows k k' := by
  cases h with
  | halt h => cases ho
  | ok h =>
    cases ho
    exact h

theorem Outcome.Grown.trans {α : Type} {k k' : Kernel} {o : Outcome α} (h : o.Grown k')
    (h₀ : Grows k k') : o.Grown k := by
  cases h with
  | halt h => exact .halt (h₀.trans h)
  | ok h => exact .ok (h₀.trans h)

section Parts

variable (k : Kernel)

theorem setFld_grows (p w v : ℕ) : Grows k (k.setFld p w v) := (setFld_stores k p w v).grows

theorem setReg_grows (p i v : ℕ) : Grows k (k.setReg p i v) := setFld_grows k p (4 + i) v

theorem setGate_grows (p v : ℕ) : Grows k (k.setGate p v) := setFld_grows k p 38 v

theorem runnable_grows (p : ℕ) : Grows k { k with runnable := p } :=
  ⟨rfl, rfl, List.suffix_refl _, rfl⟩

theorem blocked_grows (p : ℕ) : Grows k { k with blocked := p } :=
  ⟨rfl, rfl, List.suffix_refl _, rfl⟩

theorem blockedWithTimeout_grows (p : ℕ) : Grows k { k with blockedWithTimeout := p } :=
  ⟨rfl, rfl, List.suffix_refl _, rfl⟩

theorem store64_grows (a v : ℕ) : Grows k (k.store64 a v) := (store64_stores k a v).grows

theorem insertNewThreadAfterOld_grows (new old : ℕ) : Grows k (insertNewThreadAfterOld k new old) :=
  (insertNewThreadAfterOld_stores k new old).grows

theorem insertThreadAtTail_grows (list new : ℕ) : Grows k (insertThreadAtTail k list new) :=
  (insertThreadAtTail_stores k list new).grows

theorem insertThreadAsHead_grows (list new : ℕ) : Grows k (insertThreadAsHead k list new) :=
  (insertThreadAsHead_stores k list new).grows

theorem removeThread_grows (e : ℕ) : Grows k (removeThread k e) := (removeThread_stores k e).grows

/-! ## Maps -/

theorem loadThisMap_grows (m : ℕ) : Grows k (loadThisMap k m) := by
  obtain ⟨n, l1, l2, l3, h⟩ := loadThisMap_tables k m
  rw [h]
  exact ⟨rfl, rfl, List.suffix_refl _, rfl⟩

theorem changeMap_grows (thread newMap : ℕ) : (changeMap k thread newMap).Grown k := by
  rw [changeMap_eq]
  split
  · exact .halt (.refl k)
  · split
    · exact .halt (.refl k)
    · exact .ok ((loadThisMap_grows k newMap).trans (setFld_grows _ _ _ _))

theorem setL1_grows (i e : ℕ) : Grows k (setL1 k i e) := by
  unfold setL1
  split
  · exact ⟨rfl, rfl, List.suffix_refl _, rfl⟩
  · exact (setWord_stores k _ e).grows

theorem setL2_grows (i e : ℕ) : Grows k (setL2 k i e) := ⟨rfl, rfl, List.suffix_refl _, rfl⟩

theorem setL3_grows (i e : ℕ) : Grows k (setL3 k i e) := ⟨rfl, rfl, List.suffix_refl _, rfl⟩

theorem mapBlock_grows (cmb vmb fa : ℕ) : Grows k (mapBlock k cmb vmb fa) := by
  unfold mapBlock
  simp only
  split
  · exact setL1_grows k _ _
  · split
    · exact (setL1_grows k _ _).trans (setL2_grows _ _ _)
    · exact ((setL1_grows k _ _).trans (setL2_grows _ _ _)).trans (setL3_grows _ _ _)

theorem findAndMapMemory_grows (thread fa : ℕ) :
    (findAndMapMemory k thread fa).Grown k := by
  unfold findAndMapMemory
  simp only
  split
  · exact .halt (.refl k)
  · split
    · exact .halt (.refl k)
    · split
      · exact .halt (.refl k)
      · exact .halt (.refl k)
      · split
        · exact .halt (.refl k)
        · split
          · exact .ok (mapBlock_grows k _ _ _)
          · exact .halt (.refl k)

theorem addressIsUserWritable_grows (thread address : ℕ) :
    (addressIsUserWritable k thread address).Grown k := by
  have h := findAndMapMemory_grows k thread address
  unfold addressIsUserWritable
  split
  · exact .ok (.refl k)
  · generalize findAndMapMemory k thread address = o at h
    cases h with
    | halt h => exact .halt h
    | ok h => exact .ok h

/-! ## The gate and the locks -/

theorem expire_grows {thread n head head' : ℕ} {k k' : Kernel}
    (h : expire thread n k head = some (k', head')) : Grows k k' := by
  induction n generalizing k head with
  | zero => cases h
  | succ n ih =>
    unfold expire at h
    extract_lets k₁ k₂ k₃ head₃ at h
    have h₃ : Grows k k₃ := ((setReg_grows k head 0 (2 ^ 64 - 1)).trans
      (setGate_grows k₁ head 0)).trans (insertNewThreadAfterOld_grows k₂ head thread)
    clear_value k₃
    split at h
    · exact h₃.trans (ih h)
    · obtain ⟨rfl, -⟩ := Prod.mk.inj (Option.some.inj h)
      exact h₃

theorem tick_grows (thread : ℕ) : (tick k thread).Grown k := by
  have hreg := fun v => setReg_grows k k.blockedWithTimeout 1 v
  unfold tick
  simp only
  split
  · split
    · split
      · exact .halt (hreg _)
      · rename_i k₁ head he
        have hk₁ : Grows k { k₁ with blockedWithTimeout := head } :=
          ((hreg _).trans (expire_grows he)).trans (blockedWithTimeout_grows k₁ head)
        split
        · exact .ok (hk₁.trans (setReg_grows _ _ _ _))
        · exact .ok hk₁
    · exact .ok (hreg _)
  · exact .ok (.refl k)

theorem joinQueue_grows (thread prev blockedThread remaining : ℕ) :
    Grows k (joinQueue k thread prev blockedThread remaining) := by
  have h := (((setReg_grows k thread 1 remaining).trans
    (setReg_grows _ thread 17 blockedThread)).trans
    (setReg_grows _ thread 16 prev)).trans (store64_grows _ prev thread)
  unfold joinQueue
  simp only
  split
  · exact (h.trans (setReg_grows _ _ _ _)).trans (setReg_grows _ _ _ _)
  · exact h

theorem waitAtGate_grows (thread : ℕ) : (waitAtGate k thread).Grown k := by
  unfold waitAtGate
  extract_lets now k₁ k₂ k₃ k₄
  have h₁ : Grows k k₁ := runnable_grows k now
  have h₄ : Grows k k₄ := ((h₁.trans (removeThread_grows k₁ thread)).trans
    (setGate_grows k₂ thread threadWaiting)).trans (setReg_grows k₃ thread 0 0)
  clear_value k₄
  split
  · split
    · exact .halt h₄
    · exact .ok (h₄.trans (joinQueue_grows k₄ _ _ _ _))
  · exact .ok ((h₄.trans (setReg_grows k₄ _ _ _)).trans (setReg_grows _ _ _ _))

theorem leaveQueue_grows (releaseThread : ℕ) : Grows k (leaveQueue k releaseThread) := by
  unfold leaveQueue
  simp only
  split
  · split
    · exact ((store64_grows k _ _).trans (setReg_grows _ _ _ _)).trans (setReg_grows _ _ _ _)
    · exact store64_grows k _ _
  · exact .refl k

theorem resumeThread_grows (thread releaseThread : ℕ) :
    (resumeThread k thread releaseThread).Grown k := by
  unfold resumeThread
  split
  · split
    · have h := ((insertNewThreadAfterOld_grows k releaseThread thread).trans
        (setGate_grows _ releaseThread 0)).trans (leaveQueue_grows _ releaseThread)
      exact .ok h
    · exact .halt (.refl k)
  · split
    · exact .ok (setGate_grows k _ _)
    · exact .ok (.refl k)

theorem handleSvcGate_grows (thread : ℕ) : (handleSvcGate k thread).Grown k := by
  unfold handleSvcGate
  split
  · exact .halt (.refl k)
  · split
    · split
      · split
        · exact .halt (.refl k)
        · exact tick_grows k thread
      · split
        · have h := (setReg_grows k thread 0 (k.gate thread)).trans (setGate_grows _ thread 0)
          exact .ok h
        · exact waitAtGate_grows k thread
    · split
      · exact resumeThread_grows k thread _
      · exact .halt (.refl k)

theorem blockOnLock_grows (thread lockValue : ℕ) : (blockOnLock k thread lockValue).Grown k := by
  unfold blockOnLock
  extract_lets x17 x18 blockedThreadCode lockingThreadCode now k₁ k₂ k₃ k₄ first k₅
  have h₁ : Grows k k₁ := runnable_grows k now
  have h₂ : Grows k k₂ := h₁.trans (removeThread_grows k₁ thread)
  -- the first to wait starts a list of its own, the others join the one that is there
  have h₃ : Grows k k₃ := h₂.trans (blocked_grows k₂ 0)
  have h₄ : Grows k k₄ := h₃.trans (insertThreadAsHead_grows k₃ _ _)
  have h₅ : Grows k k₅ := h₂.trans (blocked_grows k₂ first)
  clear_value k₄ k₅
  split
  · exact .halt (.refl k)
  · split
    · exact .halt (.refl k)
    · split
      · exact .halt h₁
      · split
        · exact .ok (h₄.trans (store64_grows k₄ _ _))
        · split
          · exact .halt h₅
          · exact .ok (h₅.trans (insertThreadAtTail_grows k₅ _ _))

theorem handleSvcWaitForLock_grows (thread : ℕ) :
    (handleSvcWaitForLock k thread).Grown k := by
  have ha := addressIsUserWritable_grows k thread (k.reg thread 17)
  unfold handleSvcWaitForLock
  simp only
  generalize addressIsUserWritable k thread (k.reg thread 17) = o at ha
  cases ha with
  | halt ha => exact .halt ha
  | @ok k₁ b ha =>
    cases b with
    | false => exact .halt ha
    | true =>
      simp only
      split
      · exact .halt ha
      · split
        · exact .halt ha
        · split
          · exact .ok (ha.trans (store64_grows _ _ _))
          · split
            · exact .ok ha
            · exact (blockOnLock_grows k₁ thread _).trans ha

theorem passLock_grows (x17 blockedThreadCode : ℕ) :
    (passLock k x17 blockedThreadCode).Grown k := by
  unfold passLock
  simp only
  split
  · exact .halt (.refl k)
  · split
    · exact .ok ((insertThreadAsHead_grows k _ _).trans (store64_grows _ _ _))
    · have h₀ := blocked_grows k (k.next (threadFromCode blockedThreadCode))
      exact .ok (((h₀.trans (removeThread_grows _ _)).trans (insertThreadAsHead_grows _ _ _)).trans
        (store64_grows _ _ _))

theorem handleSvcReleaseLock_grows (thread : ℕ) :
    (handleSvcReleaseLock k thread).Grown k := by
  have ha := addressIsUserWritable_grows k thread (k.reg thread 17)
  unfold handleSvcReleaseLock
  simp only
  generalize addressIsUserWritable k thread (k.reg thread 17) = o at ha
  cases ha with
  | halt ha => exact .halt ha
  | @ok k₁ b ha =>
    cases b with
    | false => exact .halt ha
    | true =>
      simp only
      split
      · exact .halt ha
      · split
        · exact .halt ha
        · split
          · exact .halt ha
          · split
            · exact (passLock_grows k₁ _ _).trans ha
            · exact .ok (ha.trans (store64_grows _ _ _))

/-! ## Interfaces and calls -/

theorem obtainInterface_grows : (obtainInterface k).Grown k := by
  unfold obtainInterface
  simp only
  split
  · exact .halt (.refl k)
  · split
    · exact .halt (.refl k)
    · split
      · exact .halt ⟨rfl, rfl, List.suffix_refl _, rfl⟩
      · split
        · exact .halt ⟨rfl, rfl, List.suffix_refl _, rfl⟩
        · exact .ok ⟨rfl, rfl, List.suffix_refl _, rfl⟩

theorem newInterface_grows (thread user provider handler value : ℕ) :
    (newInterface k thread user provider handler value).Grown k := by
  have h := obtainInterface_grows k
  unfold newInterface
  generalize obtainInterface k = o at h
  cases h with
  | halt h => exact .halt h
  | @ok k₁ e h =>
    have h₁ : Grows k { k₁ with
        interfaces := Function.update k₁.interfaces e ⟨user, provider, handler, value⟩ } :=
      h.trans ⟨rfl, rfl, List.suffix_refl _, rfl⟩
    exact .ok (h₁.trans (setReg_grows _ thread 0 e))

theorem handleSvcDuplicateToReturn_grows (thread : ℕ) :
    (handleSvcDuplicateToReturn k thread).Grown k := by
  unfold handleSvcDuplicateToReturn
  split
  · exact .halt (.refl k)
  · split
    · exact .halt (.refl k)
    · exact newInterface_grows k _ _ _ _ _

theorem handleSvcDuplicateToPassTo_grows (thread : ℕ) :
    (handleSvcDuplicateToPassTo k thread).Grown k := by
  unfold handleSvcDuplicateToPassTo
  split
  · exact .halt (.refl k)
  · split
    · exact .halt (.refl k)
    · split
      · exact .halt (.refl k)
      · split
        · exact .halt (.refl k)
        · exact newInterface_grows k _ _ _ _ _

theorem handleSvcInterfaceToPassTo_grows (thread : ℕ) :
    (handleSvcInterfaceToPassTo k thread).Grown k := by
  unfold handleSvcInterfaceToPassTo
  split
  · exact .halt (.refl k)
  · split
    · exact .halt (.refl k)
    · split
      · exact .halt (.refl k)
      · exact newInterface_grows k _ _ _ _ _

theorem handleSvcInterfaceToReturn_grows (thread : ℕ) :
    (handleSvcInterfaceToReturn k thread).Grown k := by
  unfold handleSvcInterfaceToReturn
  split
  · exact .halt (.refl k)
  · exact newInterface_grows k _ _ _ _ _

theorem pushFrame_grows (thread : ℕ) : Grows k (pushFrame k thread) := by
  unfold pushFrame
  extract_lets k₁ k₂ k₃ a
  have h₁ : Grows k k₁ := setFld_grows k thread 41 _
  have h₂ : Grows k k₂ := h₁.trans (store64_grows k₁ _ _)
  have h₃ : Grows k k₃ := h₂.trans (store64_grows k₂ _ _)
  exact h₃.trans (store64_grows k₃ _ _)

theorem physicalAddressOf_grows (thread : ℕ) : (physicalAddressOf k thread).Grown k := by
  have h := addressIsUserWritable_grows k thread (k.reg thread 2)
  unfold physicalAddressOf
  generalize addressIsUserWritable k thread (k.reg thread 2) = o at h
  cases h with
  | halt h => exact .halt h
  | @ok k₁ b h =>
    simp only
    split
    · exact .ok (h.trans (setReg_grows k₁ _ _ _))
    · exact .halt h

theorem handleCall_grows (thread : ℕ) : (handleCall k thread).Grown k := by
  unfold handleCall
  split
  · exact .halt (.refl k)
  · split
    · exact .halt (.refl k)
    · split
      · exact physicalAddressOf_grows k thread
      · split
        · exact .halt (.refl k)
        · extract_lets index k₁ k₂ provider
          have h₁ : Grows k k₁ := setReg_grows k thread 0 _
          have h₂ : Grows k k₂ := h₁.trans (pushFrame_grows k₁ thread)
          clear_value k₂
          split
          · exact .halt h₂
          · split
            · have hc := (changeMap_grows k₂ thread provider).trans h₂
              generalize changeMap k₂ thread provider = o at hc
              cases hc with
              | halt hc => exact .halt hc
              | ok hc => exact .ok (hc.trans (setFld_grows _ thread 36 _))
            · exact .ok (h₂.trans (setFld_grows k₂ thread 36 _))

/-- The stack pointer of EL0 is set to that of the frame. -/
theorem handleReturn_grows {k' : Kernel} {thread now : ℕ}
    (h : handleReturn k thread = .ok k' now) :
    now = thread ∧ Grows { k with spEl0 := k'.spEl0 } k' := by
  have hsp : ∀ {k₁ k₂ : Kernel} {s : ℕ}, Grows { k₁ with spEl0 := s } k₂ →
      Grows { k₁ with spEl0 := k₂.spEl0 } k₂ := by
    intro k₁ k₂ s h
    exact ⟨h.layout, h.lastInterface, h.contexts, rfl⟩
  unfold handleReturn popFrame at h
  extract_lets k₁ k₂ finish at h
  have h₁ : Grows k k₁ := setFld_grows k thread 36 _
  have h₂ : Grows { k with spEl0 := k₂.spEl0 } k₂ := ⟨h₁.layout, h₁.lastInterface, h₁.contexts, rfl⟩
  have hfinish : ∀ k₃, Grows { k with spEl0 := k₂.spEl0 } k₃ → finish k₃ = .ok k' now →
      now = thread ∧ Grows { k with spEl0 := k'.spEl0 } k' := by
    intro k₃ h₃ hf
    obtain ⟨rfl, rfl⟩ := Outcome.ok.inj hf
    exact ⟨rfl, hsp ((h₃.trans (setFld_grows k₃ thread 41 _)).trans (setFld_grows _ thread 37 _))⟩
  clear_value k₂ finish
  split at h
  · have hc := (changeMap_grows k₂ thread (k₂.callerMap (k₂.stackPointer thread))).trans h₂
    generalize changeMap k₂ thread (k₂.callerMap (k₂.stackPointer thread)) = o at hc h
    cases o with
    | halt k₃ => cases h
    | ok k₃ u => exact hfinish k₃ (hc.grows rfl) h
  · exact hfinish k₂ h₂ h

/-! ## Threads and partners -/

theorem handleYield_grows (thread : ℕ) : (handleYield k thread).Grown k := by
  unfold handleYield
  split
  · extract_lets k₁ now
    have h₁ : Grows k k₁ := setReg_grows k thread 0 1
    exact .ok (h₁.trans (runnable_grows k₁ now))
  · exact .ok (setReg_grows k _ _ _)

theorem swapPartner_grows (thread : ℕ) : Grows k (swapPartner k thread) := by
  unfold swapPartner
  extract_lets k₁ k₂ k₃ k₄ k₅
  have h₁ : Grows k k₁ := setFld_grows k _ 0 _
  have h₂ : Grows k k₂ := h₁.trans (setFld_grows k₁ _ 1 _)
  have h₃ : Grows k k₃ := h₂.trans (setFld_grows k₂ _ 1 _)
  have h₄ : Grows k k₄ := h₃.trans (setFld_grows k₃ _ 0 _)
  have h₅ : Grows k k₅ := h₄.trans (setFld_grows k₄ _ 0 _)
  exact h₅.trans (setFld_grows k₅ _ 1 _)

theorem handleSwitchToPartner_grows (thread : ℕ) : (handleSwitchToPartner k thread).Grown k := by
  unfold handleSwitchToPartner
  split
  · exact .halt (.refl k)
  · split
    · exact .halt (.refl k)
    · extract_lets k₁ now k₂
      have h₂ : Grows k k₂ := (swapPartner_grows k thread).trans (runnable_grows k₁ now)
      clear_value k₂
      split
      · exact .ok (h₂.trans (setFld_grows k₂ _ 36 _))
      · exact .ok h₂

theorem handleGetPartnerReg_grows (thread : ℕ) : (handleGetPartnerReg k thread).Grown k := by
  unfold handleGetPartnerReg
  split
  · exact .ok (setReg_grows k _ _ _)
  · exact .halt (.refl k)

theorem handleSetPartnerReg_grows (thread : ℕ) : (handleSetPartnerReg k thread).Grown k := by
  unfold handleSetPartnerReg
  split
  · exact .ok (setReg_grows k _ _ _)
  · exact .halt (.refl k)

theorem handleChangeVmSystemRegister_grows (thread : ℕ) :
    (handleChangeVmSystemRegister k thread).Grown k := by
  have hstore : ∀ (c : Prop) [Decidable c] (a v x : ℕ),
      Grows k ((if c then k.store64 a v else k).setReg thread 0 x) := by
    intro c _ a v x
    split
    · exact (store64_grows k a v).trans (setReg_grows _ thread 0 x)
    · exact setReg_grows k thread 0 x
  unfold handleChangeVmSystemRegister
  simp only
  split
  · exact .halt (.refl k)
  · split
    · exact .halt (.refl k)
    · split
      · exact .halt (.refl k)
      · split
        · exact .halt (.refl k)
        · apply Outcome.Grown.ok
          refine hstore (k.reg thread 2 ≠ 0 ∨ k.reg thread 3 ≠ 2 ^ 64 - 1) _ _ _

/-! ## The requests of the system driver -/

theorem allocateHeap_grows (size : ℕ) : Grows k (allocateHeap k size).1 := by
  unfold allocateHeap
  simp only
  generalize (k.heapBottom + _ - _) % _ = newBottom
  exact ⟨rfl, rfl, List.suffix_refl _, rfl⟩

theorem initialiseNewThread_grows (p : ℕ) : Grows k (initialiseNewThread k p) :=
  ⟨rfl, rfl, List.suffix_cons p k.contexts, rfl⟩

theorem initialiseFaults_grows (p : ℕ) : Grows k (initialiseFaults k p) := by
  unfold initialiseFaults
  split
  · exact ⟨rfl, rfl, List.suffix_refl _, rfl⟩
  · exact .refl k

theorem copyWords_grows {ok : Kernel → ℕ → ℕ → Bool} {n destination source : ℕ} {k : Kernel} :
    (copyWords ok n k destination source).Grown k := by
  induction n generalizing k destination source with
  | zero => exact .ok (.refl k)
  | succ n ih =>
    unfold copyWords
    split
    · exact ih.trans (store64_grows k _ _)
    · exact .halt (.refl k)

theorem readHeap_grows (offset length destination : ℕ) :
    (readHeap k offset length destination).Grown k := by
  unfold readHeap
  split
  · exact copyWords_grows
  · exact .halt (.refl k)

theorem writeHeap_grows (offset length source : ℕ) :
    (writeHeap k offset length source).Grown k := by
  unfold writeHeap
  split
  · exact copyWords_grows
  · exact .halt (.refl k)

theorem setInterruptThread_grows (thread : ℕ) : (setInterruptThread k thread).Grown k := by
  unfold setInterruptThread
  extract_lets finish k₁
  have hfinish : ∀ k₂, Grows k k₂ → (finish k₂).Grown k := by
    intro k₂ h₂
    exact .ok ((h₂.trans (removeThread_grows k₂ thread)).trans (runnable_grows _ _))
  have h₁ : Grows k k₁ := ⟨rfl, rfl, List.suffix_refl _, rfl⟩
  clear_value finish
  split
  · split
    · exact .halt (.refl k)
    · exact hfinish k (.refl k)
  · exact hfinish _ (h₁.trans (setFld_grows k₁ thread 37 _))

theorem addDevicePage_grows (thread : ℕ) : (addDevicePage k thread).Grown k := by
  unfold addDevicePage
  extract_lets entry page k₁ k₂ k₃ k₄
  have h₁ : Grows k k₁ := (setWord_stores k _ _).grows
  have h₃ : Grows k k₃ := h₁.trans ⟨rfl, rfl, List.suffix_refl _, rfl⟩
  have h₄ : Grows k k₄ := by
    show Grows k (if _ then _ else _)
    split
    · exact h₃.trans ⟨rfl, rfl, List.suffix_refl _, rfl⟩
    · exact h₃
  clear_value k₄
  split
  · exact .halt (.refl k)
  · split
    · exact .halt (.refl k)
    · exact .ok (h₄.trans (setReg_grows k₄ _ _ _))

theorem createThread_grows (thread : ℕ) : (createThread k thread).Grown k := by
  unfold createThread
  split
  · exact .halt (.refl k)
  · have ha := allocateHeap_grows k contextSize
    generalize allocateHeap k contextSize = b at ha
    obtain ⟨k₁, newThread⟩ := b
    simp only at ha ⊢
    split
    · exact .halt (ha.trans (initialiseFaults_grows k₁ newThread))
    · have h₂ := ha.trans (initialiseNewThread_grows k₁ newThread)
      generalize initialiseNewThread k₁ newThread = k₂ at h₂
      exact .ok ((((((h₂.trans (setFld_grows k₂ newThread 39 _)).trans
        (setFld_grows _ newThread 36 _)).trans (setFld_grows _ newThread 35 _)).trans
        (setFld_grows _ newThread 37 _)).trans (setReg_grows _ thread 0 _)).trans
        (insertThreadAsHead_grows _ _ newThread))

theorem makePartner_grows (thread : ℕ) : (makePartner k thread).Grown k := by
  unfold makePartner
  split
  · exact .halt (.refl k)
  · have ha := allocateHeap_grows k (contextSize + vmStateSize)
    generalize allocateHeap k (contextSize + vmStateSize) = b at ha
    obtain ⟨k₁, partner⟩ := b
    simp only at ha ⊢
    split
    · exact .halt ha
    · have hc : Grows k (clearVmState k₁ partner) := ha.trans ⟨rfl, rfl, List.suffix_refl _, rfl⟩
      generalize clearVmState k₁ partner = k₂ at hc
      have h₃ : Grows k (k₂.setPartner thread partner) :=
        hc.trans (setFld_grows k₂ thread 3 partner)
      generalize k₂.setPartner thread partner = k₃ at h₃
      split
      · exact .halt (h₃.trans (initialiseFaults_grows k₃ partner))
      · have h₄ := h₃.trans (initialiseNewThread_grows k₃ partner)
        generalize initialiseNewThread k₃ partner = k₄ at h₄
        exact .ok ((((h₄.trans (setFld_grows k₄ partner 3 thread)).trans
          (setFld_grows _ partner 39 _)).trans (setFld_grows _ partner 36 0)).trans
          (setFld_grows _ partner 37 _))

theorem serveRequest_grows (thread : ℕ) : (serveRequest k thread).Grown k := by
  unfold serveRequest
  split
  · exact addDevicePage_grows k thread
  · exact .ok ⟨rfl, rfl, List.suffix_refl _, rfl⟩
  · exact newInterface_grows k _ _ _ _ _
  · unfold readInterface
    split
    · exact .halt (.refl k)
    · split
      · exact .ok (setReg_grows k _ _ _)
      · exact .halt (.refl k)
  · have h := readHeap_grows k (k.reg thread 1) (k.reg thread 2) (k.reg thread 3)
    generalize readHeap k (k.reg thread 1) (k.reg thread 2) (k.reg thread 3) = o at h
    cases h with
    | halt h => exact .halt h
    | ok h => exact .ok h
  · have h := writeHeap_grows k (k.reg thread 1) (k.reg thread 2) (k.reg thread 3)
    generalize writeHeap k (k.reg thread 1) (k.reg thread 2) (k.reg thread 3) = o at h
    cases h with
    | halt h => exact .halt h
    | ok h => exact .ok h
  · have h := allocateHeap_grows k (k.reg thread 1)
    exact .ok (h.trans (setReg_grows _ thread 0 _))
  · exact .halt (.refl k)
  · exact createThread_grows k thread
  · exact setInterruptThread_grows k thread
  · exact makePartner_grows k thread
  · exact .halt (setWord_stores k _ _).grows
  · exact .halt (setWord_stores k _ _).grows

theorem systemDriverRequest_grows (thread : ℕ) : (systemDriverRequest k thread).Grown k := by
  have h := serveRequest_grows k thread
  unfold systemDriverRequest
  generalize serveRequest k thread = o at h
  cases h with
  | halt h => exact .halt h
  | @ok k₁ now h =>
    simp only
    split
    · have hc := (changeMap_grows k₁ now (k₁.currentMap now)).trans h
      generalize changeMap k₁ now (k₁.currentMap now) = o at hc
      cases hc with
      | halt hc => exact .halt hc
      | ok hc => exact .ok hc
    · exact .ok h

/-! ## All of them -/

theorem handleSvc_grows (thread : ℕ) {number : ℕ} (hne : Svc.ofNumber number ≠ some .ret)
    (hne' : Svc.ofNumber number ≠ some .exception) : (handleSvc k thread number).Grown k := by
  unfold handleSvc
  split
  · exact .ok (.refl k)
  · exact handleSvcGate_grows k thread
  · exact handleSvcDuplicateToReturn_grows k thread
  · exact handleSvcDuplicateToPassTo_grows k thread
  · exact handleSvcInterfaceToPassTo_grows k thread
  · exact handleSvcInterfaceToReturn_grows k thread
  · exact handleSvcWaitForLock_grows k thread
  · exact handleSvcReleaseLock_grows k thread
  · exact handleYield_grows k thread
  · rename_i h
    exact absurd h hne'
  · rename_i h
    exact absurd h hne
  · exact handleCall_grows k thread
  · exact handleSwitchToPartner_grows k thread
  · exact handleGetPartnerReg_grows k thread
  · exact handleSetPartnerReg_grows k thread
  · exact handleChangeVmSystemRegister_grows k thread
  · exact systemDriverRequest_grows k thread
  · exact .halt (.refl k)

theorem syncCode_grows (thread : ℕ) {o : Outcome ℕ} (h : o.Grown k) :
    (syncCode thread o).Grown k := by
  cases h with
  | halt h => exact .halt h
  | @ok k₁ now h =>
    unfold syncCode
    simp only
    split
    · have hc := (changeMap_grows k₁ now (k₁.currentMap now)).trans h
      generalize changeMap k₁ now (k₁.currentMap now) = o at hc
      cases hc with
      | halt hc => exact .halt hc
      | ok hc =>
        simp only
        split
        · exact .halt hc
        · exact .ok hc
    · split
      · exact .halt h
      · exact .ok h

theorem irqCode_grows (thread : ℕ) : (irqCode k thread).Grown k := by
  have h := insertThreadAsHead_grows k (runnableAddress k) k.interruptThread
  unfold irqCode
  simp only
  generalize insertThreadAsHead k (runnableAddress k) k.interruptThread = k₁ at h
  split
  · exact .halt (.refl k)
  · split
    · have hc := (changeMap_grows k₁ k.interruptThread (k₁.currentMap k.interruptThread)).trans h
      generalize changeMap k₁ k.interruptThread (k₁.currentMap k.interruptThread) = o at hc
      cases hc with
      | halt hc => exact .halt hc
      | ok hc =>
        simp only
        split
        · exact .halt hc
        · exact .ok hc
    · split
      · exact .halt h
      · exact .ok h

end Parts

/-- The event is `ISAMBARD_RETURN`. -/
def Event.isReturn : Event → Bool
  | .svc number => Svc.ofNumber number == some .ret
  | _ => false

/-- A handler keeps the contexts, and the stack pointer of EL0. -/
theorem handle_grows {k k' : Kernel} {thread now : ℕ} {e : Event} (he : e.isReturn = false)
    (h : handle k thread e = .ok k' now) : Grows k k' := by
  cases e with
  | svc n =>
    have hr : Svc.ofNumber n ≠ some .ret := by simpa [Event.isReturn] using he
    by_cases hx : Svc.ofNumber n = some .exception
    · simp only [handle, handleSvc, hx, handleException, syncCode] at h
      cases h
    · exact (syncCode_grows k thread (handleSvc_grows k thread hr hx)).grows h
  | abort fa =>
    have hf := findAndMapMemory_grows k thread fa
    simp only [handle] at h
    generalize findAndMapMemory k thread fa = o at hf h
    cases hf with
    | halt hf => cases h
    | ok hf => exact (syncCode_grows k thread (.ok hf)).grows h
  | irq => exact (irqCode_grows k thread).grows h

/-- A handler keeps the contexts. -/
theorem handle_mem {k k' : Kernel} {thread now p : ℕ} {e : Event}
    (h : handle k thread e = .ok k' now) (hp : p ∈ k.contexts) : p ∈ k'.contexts := by
  cases he : e.isReturn with
  | false => exact (handle_grows he h).mem hp
  | true =>
    cases e with
    | svc n =>
      have hn : Svc.ofNumber n = some .ret := by simpa [Event.isReturn] using he
      simp only [handle, handleSvc, hn] at h
      cases hr : handleReturn k thread with
      | halt k₁ =>
        rw [hr] at h
        cases h
      | ok k₁ m =>
        rw [hr] at h
        have h₁ := (handleReturn_grows k hr).2.mem (p := p) hp
        exact ((syncCode_grows k₁ thread (.ok (.refl k₁))).grows h).mem h₁
    | abort fa => cases he
    | irq => cases he

theorem syncCode_runnable {k : Kernel} {thread now : ℕ} {o : Outcome ℕ}
    (h : syncCode thread o = .ok k now) : k.runnable = now := by
  cases o with
  | halt k₁ => cases h
  | ok k₁ n =>
    simp only [syncCode] at h
    split at h
    · generalize changeMap k₁ n (k₁.currentMap n) = c at h
      cases c with
      | halt k₂ => cases h
      | ok k₂ u =>
        simp only at h
        split at h
        · cases h
        · rename_i hr
          obtain ⟨rfl, rfl⟩ := Outcome.ok.inj h
          exact not_not.1 hr
    · split at h
      · cases h
      · rename_i hr
        obtain ⟨rfl, rfl⟩ := Outcome.ok.inj h
        exact not_not.1 hr

/-- The thread that a handler returns is the head of the runnable threads. -/
theorem handle_runnable {k k' : Kernel} {thread now : ℕ} {e : Event}
    (h : handle k thread e = .ok k' now) : k'.runnable = now := by
  cases e with
  | svc n => exact syncCode_runnable h
  | abort fa =>
    simp only [handle] at h
    generalize findAndMapMemory k thread fa = o at h
    cases o with
    | halt k₁ => cases h
    | ok k₁ u => exact syncCode_runnable h
  | irq =>
    -- after the insertion the interrupt's handler ends as the other does
    simp only [handle, irqCode] at h
    generalize insertThreadAsHead k (runnableAddress k) k.interruptThread = k₁ at h
    split at h
    · cases h
    · exact syncCode_runnable (o := .ok k₁ k.interruptThread) h

end Isambard.El1
