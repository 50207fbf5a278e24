import Isambard.El1.MapCalls
import Isambard.El1.Sequences

/-!
# El1.Providers — providers with a shared lock and stack

`ISAMBARD_PROVIDER_SHARED_LOCK_AND_STACK` of `include/isambard_client.h`: the veneer that claims
the lock, the handler, and the ways out of it, for any number of threads on a core. A thread may
be interrupted between any two of the instructions.

* `ServeStep`: an instruction of the running thread, or what happens meanwhile;
* `Veneer.Fits`: where a thread is with the lock, by where it is in the provider;
* `lock_left`: a thread that has left the provider does not have the lock.
-/

namespace Isambard.El1

open Isambard.Lib

/-! ## The veneer -/

/-- Where a thread is in the provider: the label that it has come to. -/
inductive Veneer where
  /-- not in the provider -/
  | away
  /-- `type__veneer`: the stack, `CLAIM_LOCK` and the callee-saved registers -/
  | entry
  /-- `bl type__call_handler` -/
  | handler
  /-- behind that: `svc LOCK_RELEASE` -/
  | back
  /-- `type__exception`: the registers and `svc EXCEPTION` -/
  | exception
  /-- `type__return`: the registers, `RELEASE_LOCK` and `svc RETURN` -/
  | ret
deriving Repr, DecidableEq

/-- A core whose threads call a provider. -/
structure Serving where
  locking : Locking
  veneer : ℕ → Veneer
  /-- the handlers of the thread that have called their own provider and not got back -/
  outer : ℕ → ℕ
  /-- the kernel has halted -/
  stopped : Bool

/-- What the running thread does. -/
inductive Move where
  | call
  | nested
  | sequence
  | handle
  | other (lock : Option ℕ)
  | comeBack
  | fall
  | throw
  | ret
  | leave
  | stop
  | meanwhile
deriving Repr, DecidableEq

namespace Serving

abbrev kernel (s : Serving) : Kernel := s.locking.kernel

abbrev running (s : Serving) : ℕ := s.kernel.runnable

/-- The running thread, in the map `m` and in no sequence for a lock, has come to `v`. -/
def At (s : Serving) (m : ℕ) (v : Veneer) : Prop :=
  s.locking.At m .outside ∧ s.veneer s.running = v

/-- It goes on to `v`. -/
def goto (s : Serving) (v : Veneer) : Serving :=
  { s with veneer := Function.update s.veneer s.running v }

theorem goto_veneer (s : Serving) (v : Veneer) : (s.goto v).veneer s.running = v :=
  Function.update_self _ _ _

/-- And into a sequence for a lock. -/
def start (s : Serving) (t : Stage) (v : Veneer) : Serving :=
  { s.goto v with locking := s.locking.goto t }

/-- The kernel has served a call of the running thread, which was the last of the veneer. -/
def gone (s : Serving) (k' : Kernel) : Serving :=
  { s.goto (if s.outer s.running = 0 then .away else .handler) with
    locking := { s.locking with kernel := k', monitor := none }
    outer := Function.update s.outer s.running (s.outer s.running - 1) }

end Serving

/-- A step of the core: an instruction of the running thread, in the map `m` of the provider with
the lock at `a`, or what happens meanwhile. -/
inductive ServeStep (m : ℕ) (locks : ℕ → Prop) (a : ℕ) (s : Serving) : Move → Serving → Prop
  | call : s.At m .away → ServeStep m locks a s .call (s.start (.claimLoad a) .entry)
  /-- the handler calls its own provider -/
  | nested : s.At m .handler → ServeStep m locks a s .nested
      { s.start (.claimLoad a) .entry with
        outer := Function.update s.outer s.running (s.outer s.running + 1) }
  /-- the next instruction of `CLAIM_LOCK` or `RELEASE_LOCK` -/
  | sequence {l : Locking} : s.locking.stage s.running ≠ .outside →
      LockStep m locks s.locking s.running l →
      ServeStep m locks a s .sequence { s with locking := l }
  | handle : s.At m .entry → ServeStep m locks a s .handle (s.goto .handler)
  /-- a sequence begins that is not one of the veneer's -/
  | other {l : Locking} : s.At m .away ∨ s.At m .handler →
      LockStep m locks s.locking s.running l →
      ServeStep m locks a s (.other (l.stage s.running).lock) { s with locking := l }
  /-- the handler comes back -/
  | comeBack : s.At m .handler → ServeStep m locks a s .comeBack (s.start (.releaseCall a) .back)
  | fall : s.At m .back → ServeStep m locks a s .fall (s.goto .exception)
  /-- the handler calls `type__exception` -/
  | throw : s.At m .handler → ServeStep m locks a s .throw (s.goto .exception)
  /-- the handler calls `type__return` -/
  | ret : s.At m .handler → ServeStep m locks a s .ret (s.start (.releaseLoad a) .ret)
  | leave {r : Regs} {k' : Kernel} {now : ℕ} : s.At m .ret →
      kernelStep s.kernel r (.svc 0xf00a) = .ok k' now →
      ServeStep m locks a s .leave (s.gone k')
  | stop {r : Regs} {k' : Kernel} : s.At m .exception →
      kernelStep s.kernel r (.svc 0xf00b) = .halt k' →
      ServeStep m locks a s .stop { s.gone k' with stopped := true }
  | meanwhile {k' : Kernel} : Meanwhile m locks s.locking k' →
      ServeStep m locks a s .meanwhile
        { s with locking := { s.locking with kernel := k', monitor := none } }

/-- No thread is in the provider yet. -/
structure ServeStart (m : ℕ) (locks : ℕ → Prop) (s : Serving) : Prop where
  locking : LockStart m locks s.locking
  veneer : ∀ p, s.veneer p = .away
  outer : ∀ p, s.outer p = 0
  stopped : s.stopped = false

/-- The threads of the core, and the provider in the map `m` with the lock at `a`. -/
def serveSystem (m : ℕ) (locks : ℕ → Prop) (a : ℕ) : System Serving Move where
  init := ServeStart m locks
  step s i s' := s.stopped = false ∧ ServeStep m locks a s i s'

/-- No handler is left by `type__exception` or calls its own provider, and no thread uses the lock
other than through the veneer. -/
def throughVeneer (m : ℕ) (locks : ℕ → Prop) (a : ℕ) : System Serving Move :=
  (serveSystem m locks a).restrict fun _ i => i ≠ .throw ∧ i ≠ .nested ∧ i ≠ .other (some a)

/-! ## The kernel's part -/

section Pops

variable {k k' k'' : Kernel} {t w v m : ℕ}

/-- What `ISAMBARD_RETURN` and `ISAMBARD_EXCEPTION` leave alone. -/
structure Popped (k k' : Kernel) (t : ℕ) : Prop where
  frame : Frame k k'
  runnable : k'.runnable = k.runnable
  user : k'.user = k.user
  words : ∀ p w, w < 36 → k'.ctx p w = k.ctx p w
  loaded : k.loadedMap = k.currentMap t → k'.loadedMap = k'.currentMap t

theorem Popped.refl (k : Kernel) (t : ℕ) : Popped k k t :=
  ⟨.refl k, rfl, rfl, fun _ _ _ => rfl, id⟩

theorem Popped.trans (h : Popped k k' t) (h' : Popped k' k'' t) : Popped k k'' t :=
  ⟨h.frame.trans h'.frame, h'.runnable.trans h.runnable, h'.user.trans h.user,
    fun p w hw => (h'.words p w hw).trans (h.words p w hw), fun hl => h'.loaded (h.loaded hl)⟩

theorem Popped.set (ht : t ∈ k.contexts) (hw : 36 ≤ w) (hmap : w ≠ 39) :
    Popped k (k.setFld t w v) t := by
  rw [setFld_of_mem ht]
  have hcur : (k.withCtx (setCtx k.ctx t w v)).currentMap t = k.currentMap t :=
    currentMap_congr ht ht (setCtx_word hmap.symm)
  refine ⟨⟨rfl, rfl, rfl, rfl, rfl, rfl, rfl, rfl⟩, rfl, rfl, ?_, fun hl => hl.trans hcur.symm⟩
  intro p u hu
  rw [withCtx_ctx, setCtx_word (by omega)]

theorem changeMap_popped (ht : t ∈ k.contexts) (hm : m < 2 ^ 32) :
    Popped k (changeMap k t m).kernel t := by
  cases hc : changeMap k t m with
  | halt k' =>
    rw [changeMap_eq] at hc
    split at hc
    · cases hc
      exact .refl k t
    · split at hc
      · cases hc
        exact .refl k t
      · cases hc
  | ok k' u =>
    obtain ⟨-, l1, l2, l3, rfl⟩ := changeMap_ok ht hc
    refine ⟨⟨rfl, rfl, rfl, rfl, rfl, rfl, rfl, rfl⟩, rfl, rfl, ?_, fun _ => ?_⟩
    · exact fun p u hu => setCtx_word (by omega)
    · refine Eq.trans ?_ (currentMap_of_mem (by exact ht)).symm
      show m = field 32 32 (setCtx k.ctx t 39 (setField 32 32 m (k.ctx t 39)) t 39)
      rw [setCtx_same, field_setField, Nat.mod_eq_of_lt hm]

theorem popFrame_popped (ht : t ∈ k.contexts) (v : ℕ) :
    Popped k (popFrame k t v).kernel t ∧ ∀ k' now, popFrame k t v = .ok k' now → now = t := by
  unfold popFrame
  extract_lets k₁ k₂ finish
  have h₁ : Popped k k₁ t := .set ht (by decide) (by decide)
  have h₂ : Popped k k₂ t := h₁.trans
    ⟨⟨rfl, rfl, rfl, rfl, rfl, rfl, rfl, rfl⟩, rfl, rfl, fun _ _ _ => rfl, id⟩
  have hfinish : ∀ k₃, Popped k k₃ t →
      Popped k (finish k₃).kernel t ∧ ∀ k' now, finish k₃ = .ok k' now → now = t := by
    intro k₃ h₃
    have ht₃ : t ∈ k₃.contexts := by
      rw [h₃.frame.contexts]
      exact ht
    have h₄ := h₃.trans (.set ht₃ (v := (k₃.stackPointer t + 24) % 2 ^ 64) (by decide : 36 ≤ 41)
      (by decide))
    refine ⟨h₄.trans (.set ?_ (by decide : 36 ≤ 37) (by decide)), ?_⟩
    · rw [h₄.frame.contexts]
      exact ht
    · intro k' now hok
      exact (Outcome.ok.inj hok).2.symm
  have ht₂ : t ∈ k₂.contexts := by
    rw [h₂.frame.contexts]
    exact ht
  clear_value k₂ finish
  split
  · have hc := h₂.trans (changeMap_popped ht₂
      (m := k₂.callerMap (k₂.stackPointer t)) (Nat.mod_lt _ (Nat.two_pow_pos 32)))
    cases hm : changeMap k₂ t (k₂.callerMap (k₂.stackPointer t)) with
    | halt k₃ =>
      rw [hm] at hc
      exact ⟨hc, by rintro k' now ⟨⟩⟩
    | ok k₃ u =>
      rw [hm] at hc
      exact hfinish k₃ hc
  · exact hfinish k₂ h₂

end Pops

section Leaving

variable {m a : ℕ} {locks : ℕ → Prop} {s : Locking} {L : ℕ → Handover ℕ} {rs : List ℕ}
  {k k' : Kernel} {r : Regs} {now : ℕ}

/-- A thread returns to the map that it was called from. -/
theorem return_meanwhile (h : LockInv m locks s L rs)
    (hs : kernelStep s.kernel r (.svc 0xf00a) = .ok k' now) : Meanwhile m locks s k' := by
  have hmem := h.locked.running.mem _ List.mem_cons_self
  obtain ⟨k₁, hh, hleft⟩ := kernelStep_svc hs
  have he := enter_entered s.kernel s.running r
  set k₀ := enter s.kernel s.running r with hk₀
  have hmem₀ : s.running ∈ k₀.contexts := hmem
  obtain ⟨hpop, hsame⟩ := popFrame_popped (k := k₀) hmem₀ 0
  have hret : popFrame k₀ s.running 0 = .ok k₁ now := hh
  obtain rfl := hsame k₁ now hret
  rw [hret] at hpop
  change Popped k₀ k₁ s.running at hpop
  have hr₁ : Running k₁ rs := (h.locked.running.congr he.frame he.runnable fun p _ w hw =>
    he.words p w (.inl (by omega))).congr hpop.frame hpop.runnable fun p _ w hw =>
      hpop.words p w (by omega)
  have hmem₁ : s.running ∈ k₁.contexts := by
    rw [hpop.frame.contexts]
    exact hmem
  have hcur : k₀.currentMap s.running = s.kernel.currentMap s.running :=
    currentMap_congr hmem hmem (he.words _ 39 (by omega))
  have hmap₀ : k₀.loadedMap = k₀.currentMap s.running := h.locked.loaded.trans hcur.symm
  have hload := kernelStep_loaded hs hh hmem₁ (hpop.loaded hmap₀)
  have hl := (hleft hmem₁).2
  have hrun : k₁.runnable = s.running := hpop.runnable
  refine h.elsewhere (he.frame.trans hpop.frame) (hpop.user.trans he.user) hr₁ ?_ ?_ hl ?_
  · rw [hrun]
    exact h.awake
  · intro p b _ w hw
    rw [hpop.words p w (by omega)]
    exact he.words p w (.inl (by omega))
  · rw [hl.runnable, hrun]
    exact hload

/-- A thread leaves by an exception, and the kernel halts: the locks are as they were. -/
theorem exception_words (hmem : k.runnable ∈ k.contexts)
    (hs : kernelStep k r (.svc 0xf00b) = .halt k') :
    k'.user = k.user ∧ k'.contexts = k.contexts := by
  have he := enter_entered k k.runnable r
  have hmem₀ : k.runnable ∈ (enter k k.runnable r).contexts := hmem
  have hpop := (popFrame_popped hmem₀ 1).1
  obtain rfl := Outcome.halt.inj (show Outcome.halt (popFrame (enter k k.runnable r) k.runnable
    1).kernel = .halt k' from hs)
  exact ⟨hpop.user.trans he.user, hpop.frame.contexts.trans he.frame.contexts⟩

end Leaving

/-! ## The lock, by the place in the veneer -/

/-- The lock has not been released yet. -/
def Stage.Releases (a : ℕ) : Stage → Prop
  | .releaseLoad b | .releaseTest b _ | .releaseStore b | .releaseCall b => b = a
  | .releaseCheck b x16 => b = a ∧ x16 ≠ 0
  | _ => False

/-- Where the thread is in a sequence, and if it has the lock, at a place that it has left the lock
behind at. -/
def Veneer.Fits (a : ℕ) (t : Stage) (o : Bool) : Veneer → Prop
  | .away | .exception => t.lock ≠ some a ∧ o = false
  | .back | .ret => t.Releases a ∨ (t = .releaseCheck a 0 ∨ t = .outside) ∧ o = false
  | .entry | .handler => True

/-- All threads are where the provider lets them be. -/
def Placing (a : ℕ) (v : ℕ → Veneer) (s : Locking) : Prop :=
  ∀ p, (v p).Fits a (s.stage p) (s.owns p a)

section Fits

variable {m a b : ℕ} {locks : ℕ → Prop} {s s' : Locking} {v : ℕ → Veneer} {t t' : Stage} {o : Bool}
  {p : ℕ}

/-- The next instruction of a sequence: one for the same lock, or one behind the sequence, and a
release stays one until it has had its effect. -/
theorem Veneer.Fits.next {x : Veneer} (h : x.Fits a t o) (hne : t ≠ .outside)
    (hlock : t'.lock = t.lock ∨ t'.lock = none)
    (hrel : t.Releases a ∨ t = .releaseCheck a 0 ∧ o = false →
      t'.Releases a ∨ (t' = .releaseCheck a 0 ∨ t' = .outside) ∧ o = false) : x.Fits a t' o := by
  have hother : t.lock ≠ some a → t'.lock ≠ some a := by
    intro ht
    rcases hlock with heq | heq
    · rwa [heq]
    · rw [heq]
      rintro ⟨⟩
  have hpast : t.Releases a ∨ (t = .releaseCheck a 0 ∨ t = .outside) ∧ o = false →
      t.Releases a ∨ t = .releaseCheck a 0 ∧ o = false :=
    Or.imp_right fun hp => ⟨hp.1.resolve_right hne, hp.2⟩
  cases x with
  | away => exact ⟨hother h.1, h.2⟩
  | exception => exact ⟨hother h.1, h.2⟩
  | back => exact hrel (hpast h)
  | ret => exact hrel (hpast h)
  | entry => trivial
  | handler => trivial

/-- A sequence that has given the lock, or taken it. -/
theorem Veneer.Fits.done {x : Veneer} (h : x.Fits a t o) (hlock : t.lock = some a)
    (hrel : ¬ t.Releases a ∧ t ≠ .releaseCheck a 0) (o' : Bool) : x.Fits a t' o' := by
  have hne : t ≠ .outside := by
    rintro rfl
    cases hlock
  have hpast : ¬ (t.Releases a ∨ (t = .releaseCheck a 0 ∨ t = .outside) ∧ o = false) := by
    rintro (hr | ⟨hr | hr, -⟩)
    · exact hrel.1 hr
    · exact hrel.2 hr
    · exact hne hr
  cases x with
  | away => exact absurd hlock h.1
  | exception => exact absurd hlock h.1
  | back => exact absurd h hpast
  | ret => exact absurd h hpast
  | entry => trivial
  | handler => trivial

/-- The lock is given up. -/
theorem Veneer.Fits.released {x : Veneer} (h : x.Fits a t o) (hlock : t.lock = some a)
    (ht : t' = .releaseCheck a 0 ∨ t' = .outside) : x.Fits a t' false := by
  cases x with
  | away => exact absurd hlock h.1
  | exception => exact absurd hlock h.1
  | back => exact .inr ⟨ht, rfl⟩
  | ret => exact .inr ⟨ht, rfl⟩
  | entry => trivial
  | handler => trivial

/-- Behind a release the thread has left the lock. -/
theorem Veneer.Fits.behind {x : Veneer} (h : x.Fits a .outside o) (hx : x = .back ∨ x = .ret) :
    Stage.outside.lock ≠ some a ∧ o = false := by
  refine ⟨by rintro ⟨⟩, ?_⟩
  have hpast : Stage.outside.Releases a ∨ (Stage.outside = .releaseCheck a 0 ∨
      Stage.outside = .outside) ∧ o = false := by
    rcases hx with rfl | rfl
    · exact h
    · exact h
  exact (hpast.resolve_left id).2

/-- The kernel returns to a thread that may have waited. -/
theorem Placing.resumed (h : Placing a v s) (now : ℕ) : Placing a v (s.resumed now) := by
  by_cases hw : ∃ b, s.stage now = .waiting b
  · obtain ⟨b, hb⟩ := hw
    rw [Locking.resumed_waiting hb]
    intro p
    have hp := h p
    show (v p).Fits a (Function.update s.stage now .outside p) ((s.setOwns now b true).owns p a)
    rw [Locking.setOwns_owns, Function.update_apply]
    by_cases hpn : p = now
    · rw [hpn, hb] at hp
      rw [if_pos hpn, hpn]
      by_cases hba : a = b
      · rw [← hba] at hp
        exact hp.done rfl ⟨id, by simp⟩ _
      · rw [if_neg fun heq => hba heq.2]
        exact hp.next (by simp) (.inr rfl) (by simp [Stage.Releases])
    · rw [if_neg hpn, if_neg fun heq => hpn heq.1]
      exact hp
  · rw [Locking.resumed_awake fun b hb => hw ⟨b, hb⟩]
    exact h

/-- The running thread goes on, and perhaps gets or gives up the lock at `b`. -/
theorem Placing.moved (h : Placing a v s)
    (hstage : ∀ p, s'.stage p = if p = s.running then t else s.stage p)
    (howns : ∀ p, s'.owns p a = if p = s.running ∧ a = b then o else s.owns p a)
    (hfit : (v s.running).Fits a t (if a = b then o else s.owns s.running a)) :
    Placing a v s' := by
  intro p
  rw [hstage, howns]
  by_cases hp : p = s.running
  · rw [if_pos hp, hp]
    simpa using hfit
  · rw [if_neg hp, if_neg fun heq => hp heq.1]
    exact h p

theorem Placing.goto (h : Placing a v s)
    (hfit : (v s.running).Fits a t (s.owns s.running a)) : Placing a v (s.goto t) := by
  intro p
  rw [Locking.goto_stage]
  split
  · rename_i hp
    rw [hp]
    exact hfit
  · exact h p

/-- An instruction in a sequence. -/
theorem LockStep.placing {i : ℕ} (hs : LockStep m locks s i s') (hin : s.stage s.running ≠ .outside)
    (h : Placing a v s) : Placing a v s' := by
  have hr := h s.running
  cases hs with
  | claim hat => exact absurd hat.2 hin
  | @claimLoad b hat =>
    rw [hat.2] at hr
    exact h.goto (hr.next (by simp) (.inl rfl) (by simp [Stage.Releases]))
  | @claimTest b x16 hat =>
    rw [hat.2] at hr
    refine h.goto ?_
    split
    · exact hr.next (by simp) (.inl rfl) (by simp [Stage.Releases])
    · exact hr.next (by simp) (.inl rfl) (by simp [Stage.Releases])
  | @claimStore b hat hmon =>
    rw [hat.2] at hr
    refine h.moved (b := b) (o := true) (s.goto_stage (.claimCheck b 0))
      (fun p => (s.goto (.claimCheck b 0)).setOwns_owns s.running b true p a) ?_
    by_cases hab : a = b
    · subst hab
      exact hr.done rfl ⟨id, by simp⟩ _
    · rw [if_neg hab]
      exact hr.next (by simp) (.inl rfl) (by simp [Stage.Releases])
  | @claimFail b hat =>
    rw [hat.2] at hr
    exact h.goto (hr.next (by simp) (.inl rfl) (by simp [Stage.Releases]))
  | @claimCheck b x16 hat =>
    rw [hat.2] at hr
    refine h.goto ?_
    split
    · exact hr.next (by simp) (.inl rfl) (by simp [Stage.Releases])
    · exact hr.next (by simp) (.inr rfl) (by simp [Stage.Releases])
  | @claimWait b r k' now hat h17 h18 hk =>
    rw [hat.2] at hr
    have hwait : Placing a v (s.wait b k') :=
      h.goto (hr.next (by simp) (.inl rfl) (by simp [Stage.Releases]))
    exact hwait.resumed now
  | release hat => exact absurd hat.2 hin
  | @releaseLoad b hat =>
    rw [hat.2] at hr
    exact h.goto (hr.next (by simp) (.inl rfl) (by simp [Stage.Releases]))
  | @releaseTest b x16 hat =>
    rw [hat.2] at hr
    refine h.goto ?_
    split
    · exact hr.next (by simp) (.inl rfl) (by simp [Stage.Releases])
    · exact hr.next (by simp) (.inl rfl) (by simp [Stage.Releases])
  | @releaseStore b hat hmon =>
    rw [hat.2] at hr
    refine h.moved (b := b) (o := false) (s.goto_stage (.releaseCheck b 0))
      (fun p => (s.goto (.releaseCheck b 0)).setOwns_owns s.running b false p a) ?_
    by_cases hab : a = b
    · subst hab
      rw [if_pos rfl]
      exact hr.released rfl (.inl rfl)
    · rw [if_neg hab]
      exact hr.next (by simp) (.inl rfl) fun hrel => .inl (by grind [Stage.Releases])
  | @releaseFail b hat =>
    rw [hat.2] at hr
    exact h.goto (hr.next (by simp) (.inl rfl) (by simp [Stage.Releases]))
  | @releaseCheck b x16 hat =>
    rw [hat.2] at hr
    refine h.goto ?_
    split
    · exact hr.next (by simp) (.inr rfl) (by grind [Stage.Releases])
    · exact hr.next (by simp) (.inl rfl) (by grind [Stage.Releases])
  | @releaseCall b r k' now hat h17 h18 hk =>
    rw [hat.2] at hr
    have hgone : Placing a v { (s.goto .outside).setOwns s.running b false with
        kernel := k', monitor := none } := by
      refine h.moved (b := b) (o := false) (s.goto_stage .outside)
        (fun p => (s.goto .outside).setOwns_owns s.running b false p a) ?_
      by_cases hab : a = b
      · subst hab
        rw [if_pos rfl]
        exact hr.released rfl (.inr rfl)
      · rw [if_neg hab]
        exact hr.next (by simp) (.inr rfl) (by grind [Stage.Releases])
    exact hgone.resumed now
  | meanwhile hm => exact h

/-- A sequence for another lock begins. -/
theorem LockStep.placing_other {i : ℕ} (hs : LockStep m locks s i s')
    (hout : s.stage s.running = .outside) (hv : v s.running = .away ∨ v s.running = .handler)
    (hlock : (s'.stage s.running).lock ≠ some a) (h : Placing a v s) : Placing a v s' := by
  have hgoto : ∀ t : Stage, t.lock ≠ some a → Placing a v (s.goto t) := by
    intro t ht
    have hr := h s.running
    refine h.goto ?_
    rcases hv with hv | hv
    · rw [hv] at hr ⊢
      exact ⟨ht, hr.2⟩
    · rw [hv]
      trivial
  have hself : ∀ t : Stage, (s.goto t).stage s.running = t := fun t => by simp
  cases hs with
  | claim hat =>
    rw [hself] at hlock
    exact hgoto _ hlock
  | release hat =>
    rw [hself] at hlock
    exact hgoto _ hlock
  | meanwhile hm => exact h
  | claimLoad hat => cases hout.symm.trans hat.2
  | claimTest hat => cases hout.symm.trans hat.2
  | claimStore hat => cases hout.symm.trans hat.2
  | claimFail hat => cases hout.symm.trans hat.2
  | claimCheck hat => cases hout.symm.trans hat.2
  | claimWait hat => cases hout.symm.trans hat.2
  | releaseLoad hat => cases hout.symm.trans hat.2
  | releaseTest hat => cases hout.symm.trans hat.2
  | releaseStore hat => cases hout.symm.trans hat.2
  | releaseFail hat => cases hout.symm.trans hat.2
  | releaseCheck hat => cases hout.symm.trans hat.2
  | releaseCall hat => cases hout.symm.trans hat.2

/-- The running thread comes to another label. -/
theorem Placing.veneer {x : Veneer} (h : Placing a v s)
    (hfit : x.Fits a (s.stage s.running) (s.owns s.running a)) :
    Placing a (Function.update v s.running x) s := by
  intro p
  by_cases hp : p = s.running
  · rw [hp, Function.update_self]
    exact hfit
  · rw [Function.update_of_ne hp]
    exact h p

/-- And into a sequence. -/
theorem Placing.start {x : Veneer} (h : Placing a v s) (hfit : x.Fits a t (s.owns s.running a)) :
    Placing a (Function.update v s.running x) (s.goto t) := by
  intro p
  rw [Locking.goto_stage]
  by_cases hp : p = s.running
  · rw [hp, Function.update_self, if_pos rfl]
    exact hfit
  · rw [Function.update_of_ne hp, if_neg hp]
    exact h p

end Fits

/-! ## The results -/

/-- The word of the lock is 0, or it has the code of the owner. -/
structure OwnerNamed (m a : ℕ) (s : Locking) : Prop where
  owner : ∀ p ∈ s.kernel.contexts, s.kernel.user m a % 2 ^ 32 = threadCode p → s.owns p a = true
  free : s.kernel.user m a = 0 ∨
    ∃ p ∈ s.kernel.contexts, s.kernel.user m a % 2 ^ 32 = threadCode p

/-- What holds between two steps. -/
structure ServeInv (m : ℕ) (locks : ℕ → Prop) (a : ℕ) (s : Serving) : Prop where
  locks : s.stopped = false → ∃ L rs, LockInv m locks s.locking L rs
  placing : Placing a s.veneer s.locking
  single : ∀ p, s.outer p = 0
  named : OwnerNamed m a s.locking

/-- A thread that has left the provider does not have the lock: it is free, or a thread in the
provider has it. -/
structure LockLeft (m a : ℕ) (s : Serving) : Prop where
  left : ∀ p ∈ s.kernel.contexts, s.veneer p = .away →
    s.kernel.user m a % 2 ^ 32 ≠ threadCode p
  enter : s.kernel.user m a = 0 ∨ ∃ p ∈ s.kernel.contexts, s.veneer p ≠ .away ∧
    s.kernel.user m a % 2 ^ 32 = threadCode p

section Results

variable {m a : ℕ} {locks : ℕ → Prop} {s s' : Serving} {L : ℕ → Handover ℕ} {rs : List ℕ} {i : Move}

theorem LockInv.named {s : Locking} (h : LockInv m locks s L rs) (ha : locks a) :
    OwnerNamed m a s := by
  have hlock := h.locked.lock a ha
  have hword : s.kernel.user m a = lockWord (L a) := hlock.word
  have hpl := h.locked.placed
  cases hl : L a with
  | none =>
    rw [hl] at hword
    have hz : s.kernel.user m a = 0 := hword
    refine ⟨fun p hp hc => ?_, .inl hz⟩
    rw [hz] at hc
    exact absurd hc (hpl.threadCode_eq hp).2.1.ne
  | some hd =>
    have ho := hlock.owner hd.owner (by rw [hl]; rfl)
    rw [hl] at hword
    have hhalf := (hpl.lockWord_halves (h := hd) ho).1
    rw [← hword] at hhalf
    refine ⟨fun p hp hc => ?_, .inr ⟨hd.owner, ho, hhalf⟩⟩
    rw [((h.fits p).owner a ha), hl, Handover.owner_some,
      hpl.threadCode_inj hp ho (hc.symm.trans hhalf)]

theorem ServeInv.of_locks (ha : locks a) (h : ∃ L rs, LockInv m locks s.locking L rs)
    (hp : Placing a s.veneer s.locking) (ho : ∀ p, s.outer p = 0) : ServeInv m locks a s := by
  obtain ⟨L, rs, hl⟩ := h
  exact ⟨fun _ => ⟨L, rs, hl⟩, hp, ho, hl.named ha⟩

/-- Behind the outermost veneer the thread has left the provider. -/
theorem Serving.gone_eq (ho : ∀ p, s.outer p = 0) (k' : Kernel) :
    s.gone k' = { s.goto .away with
      locking := { s.locking with kernel := k', monitor := none } } := by
  have hupdate : Function.update s.outer s.running (s.outer s.running - 1) = s.outer := by
    rw [ho, Nat.zero_sub, ← ho s.running]
    exact Function.update_eq_self _ _
  unfold Serving.gone
  rw [if_pos (ho _), hupdate]
  rfl

theorem serveInv_init (ha : locks a) (h : ServeStart m locks s) : ServeInv m locks a s := by
  obtain ⟨rs, hl⟩ := lockInv_init h.locking
  refine .of_locks ha ⟨_, rs, hl⟩ (fun p => ?_) h.outer
  rw [h.veneer, h.locking.stage, h.locking.owns]
  exact ⟨by rintro ⟨⟩, rfl⟩

theorem serveInv_step (ha : locks a) (h : ServeInv m locks a s) (hrun : s.stopped = false)
    (hs : ServeStep m locks a s i s') (hi : i ≠ .throw ∧ i ≠ .nested ∧ i ≠ .other (some a)) :
    ServeInv m locks a s' := by
  obtain ⟨L, rs, hl⟩ := h.locks hrun
  have hstep : ∀ l, LockStep m locks s.locking s.running l → ∃ L rs, LockInv m locks l L rs := by
    intro l hs
    obtain ⟨L', rs', hl', -⟩ := lockInv_step hl hs
    exact ⟨L', rs', hl'⟩
  have hr := h.placing s.running
  cases hs with
  | call hat =>
    rw [hat.2] at hr
    exact .of_locks ha (hstep _ (.claim hat.1 ha hr.2)) (h.placing.start trivial) h.single
  | nested hat => exact absurd rfl hi.2.1
  | sequence hin hs => exact .of_locks ha (hstep _ hs) (hs.placing hin h.placing) h.single
  | handle hat => exact .of_locks ha ⟨L, rs, hl⟩ (h.placing.veneer trivial) h.single
  | other hat hs =>
    refine .of_locks ha (hstep _ hs) (hs.placing_other ?_ ?_ ?_ h.placing) h.single
    · exact hat.elim (fun hat => hat.1.2) fun hat => hat.1.2
    · exact hat.imp (fun hat => hat.2) fun hat => hat.2
    · intro hlock
      exact hi.2.2 (congrArg Move.other hlock)
  | comeBack hat =>
    obtain ⟨L', rs', hl', -⟩ := hl.passing (t := .releaseCall a) (by rintro c ⟨⟩; exact ha)
      (by rintro c ⟨⟩) (by simp) (by rintro c x - ⟨⟩)
    exact .of_locks ha ⟨L', rs', hl'⟩ (h.placing.start (.inl rfl)) h.single
  | fall hat =>
    refine .of_locks ha ⟨L, rs, hl⟩ (h.placing.veneer ?_) h.single
    rw [hat.2] at hr
    rw [hat.1.2] at hr ⊢
    exact hr.behind (.inl rfl)
  | throw hat => exact absurd rfl hi.1
  | ret hat =>
    exact .of_locks ha (hstep _ (.release hat.1 ha)) (h.placing.start (.inl rfl)) h.single
  | leave hat hk =>
    obtain ⟨rs', hl'⟩ := hl.meanwhile (return_meanwhile hl hk)
    rw [Serving.gone_eq h.single]
    refine .of_locks ha ⟨L, rs', hl'⟩ (h.placing.veneer ?_) h.single
    rw [hat.2] at hr
    rw [hat.1.2] at hr ⊢
    exact hr.behind (.inr rfl)
  | @stop r k' hat hk =>
    rw [hat.2] at hr
    obtain ⟨huser, hcon⟩ := exception_words (hl.locked.running.mem _ List.mem_cons_self) hk
    obtain ⟨howner, hfree⟩ := h.named
    rw [Serving.gone_eq h.single]
    refine ⟨fun hgo => ?_, h.placing.veneer hr, h.single, ⟨?_, ?_⟩⟩
    · cases hgo
    · show ∀ p ∈ k'.contexts, k'.user m a % 2 ^ 32 = threadCode p → _
      rw [hcon, huser]
      exact howner
    · show k'.user m a = 0 ∨ ∃ p ∈ k'.contexts, k'.user m a % 2 ^ 32 = threadCode p
      rw [hcon, huser]
      exact hfree
  | meanwhile hm =>
    obtain ⟨rs', hl'⟩ := hl.meanwhile hm
    exact .of_locks ha ⟨L, rs', hl'⟩ h.placing h.single

theorem serveInv (h : (throughVeneer m locks a).Reachable s) (ha : locks a) :
    ServeInv m locks a s :=
  h.invariant (fun _ h => serveInv_init ha h)
    fun _ _ _ h hs => serveInv_step ha h hs.2.1 hs.2.2 hs.1

/-- A thread that has left the provider does not have the lock, and others can enter. -/
theorem lock_left (h : (throughVeneer m locks a).Reachable s) (ha : locks a) : LockLeft m a s := by
  obtain ⟨-, hplacing, -, howner, hfree⟩ := serveInv h ha
  have hinside : ∀ p ∈ s.kernel.contexts, s.kernel.user m a % 2 ^ 32 = threadCode p →
      s.veneer p ≠ .away := by
    intro p hp hc hv
    have hfit := hplacing p
    rw [hv] at hfit
    exact absurd (howner p hp hc) (by rw [hfit.2]; decide)
  refine ⟨fun p hp hv hc => hinside p hp hc hv, hfree.imp_right ?_⟩
  rintro ⟨p, hp, hc⟩
  exact ⟨p, hp, hinside p hp hc, hc⟩

end Results

/-! ## Two threads in a provider -/

theorem Outcome.eq_halt {o : Outcome ℕ} (h : o.isOk = false) : o = .halt o.kernel := by
  cases o with
  | halt k => rfl
  | ok k now => cases h

/-- The threads of `lockThreads`, called by the system's map. -/
def calledThreads : Kernel :=
  { lockThreads with
    ctx := fun p w =>
      if w = 41 then frameAddress p 4
      else if w = 55 then 0x7000
      else if w = 56 then 0x8004
      else if w = 57 then systemMapIndex
      else lockThreads.ctx p w }

/-- None is in the provider yet. -/
def serve₀ : Serving :=
  ⟨{ lock₀ with kernel := calledThreads }, fun _ => .away, fun _ => 0, false⟩

/-- A call, and the first three instructions of the claim. -/
def Serving.calls (s : Serving) : Serving := { s.goto .entry with locking := tryClaim s.locking }

/-- The first three instructions of a release. -/
def tryRelease (s : Locking) : Locking :=
  let s₁ := s.goto (.releaseLoad 4096)
  let s₂ := { s₁.goto (.releaseTest 4096 (s₁.kernel.load64 4096)) with monitor := some 4096 }
  s₂.goto (if s₁.kernel.load64 4096 ≠ threadCode s.running then .releaseCall 4096
    else .releaseStore 4096)

/-- The handler's call of `type__return`. -/
def Serving.returns (s : Serving) : Serving := { s.goto .ret with locking := tryRelease s.locking }

def Serving.yields (s : Serving) : Serving :=
  { s with locking := { s.locking with
    kernel := (kernelStep s.kernel (lockRegs 0) (.svc 0xf008)).kernel, monitor := none } }

/-- The first thread is in its handler. -/
def serve₁ : Serving :=
  Serving.goto { serve₀.calls with locking := finishClaim serve₀.calls.locking } .handler

/-- The second has called, too. -/
def serve₂ : Serving := serve₁.yields.calls

def waitServe₂ : Outcome ℕ := kernelStep serve₂.kernel (lockRegs 0x1ffa00) (.svc 0xf006)

/-- It waits for the lock. -/
def serve₃ : Serving :=
  { serve₂ with locking := (serve₂.locking.wait 4096 waitServe₂.kernel).resumed waitServe₂.now }

/-- The third thread gives way to the first, and that returns. -/
def serve₄ : Serving := serve₃.yields.returns

def releaseServe₄ : Outcome ℕ := kernelStep serve₄.kernel (lockRegs 0x1ffc00) (.svc 0xf007)

/-- The kernel gives the lock to the second. -/
def release₄ : Locking :=
  { (serve₄.locking.goto .outside).setOwns serve₄.running 4096 false with
    kernel := releaseServe₄.kernel, monitor := none }

def serve₅ : Serving := { serve₄ with locking := release₄.resumed releaseServe₄.now }

def returnServe₅ : Outcome ℕ := kernelStep serve₅.yields.kernel (lockRegs 0) (.svc 0xf00a)

/-- The first has left. -/
def serve₆ : Serving := serve₅.yields.gone returnServe₅.kernel

/-- It throws instead, before the second calls. -/
def throwServe₁ : Outcome ℕ := kernelStep serve₁.kernel (lockRegs 0) (.svc 0xf00b)

def thrown₁ : Serving := { (serve₁.goto .exception).gone throwServe₁.kernel with stopped := true }

structure ServeRun : Prop where
  at₀ : serve₀.At 3 .away
  at₁ : serve₁.At 3 .handler
  yield₁ : (kernelStep serve₁.kernel (lockRegs 0) (.svc 0xf008)).isOk = true
  yielded₁ : serve₁.yields.At 3 .away
  at₂ : serve₂.locking.At 3 (.claimWait 4096)
  wait₂ : waitServe₂.isOk = true
  yield₃ : (kernelStep serve₃.kernel (lockRegs 0) (.svc 0xf008)).isOk = true
  yielded₃ : serve₃.yields.At 3 .handler
  at₄ : serve₄.locking.At 3 (.releaseCall 4096)
  release₄ : releaseServe₄.isOk = true
  yield₅ : (kernelStep serve₅.kernel (lockRegs 0) (.svc 0xf008)).isOk = true
  yielded₅ : serve₅.yields.At 3 .ret
  return₅ : returnServe₅.isOk = true
  left₆ : startAddress + 0x1ffc00 ∈ serve₆.kernel.contexts ∧
    serve₆.veneer (startAddress + 0x1ffc00) = .away ∧ serve₆.kernel.user 3 4096 ≠ 0
  throw₁ : throwServe₁.isOk = false
  thrown : startAddress + 0x1ffc00 ∈ thrown₁.kernel.contexts ∧
    thrown₁.veneer (startAddress + 0x1ffc00) = .away ∧
    thrown₁.kernel.user 3 4096 % 2 ^ 32 = threadCode (startAddress + 0x1ffc00)

theorem serveRun : ServeRun where
  at₀ := ⟨⟨by decide +kernel, rfl⟩, rfl⟩
  at₁ := ⟨⟨by decide +kernel, by decide +kernel⟩, by decide +kernel⟩
  yield₁ := by decide +kernel
  yielded₁ := ⟨⟨by decide +kernel, by decide +kernel⟩, by decide +kernel⟩
  at₂ := ⟨by decide +kernel, by decide +kernel⟩
  wait₂ := by decide +kernel
  yield₃ := by decide +kernel
  yielded₃ := ⟨⟨by decide +kernel, by decide +kernel⟩, by decide +kernel⟩
  at₄ := ⟨by decide +kernel, by decide +kernel⟩
  release₄ := by decide +kernel
  yield₅ := by decide +kernel
  yielded₅ := ⟨⟨by decide +kernel, by decide +kernel⟩, by decide +kernel⟩
  return₅ := by decide +kernel
  left₆ := by decide +kernel
  throw₁ := by decide +kernel
  thrown := by decide +kernel

section Runs

variable {s : Serving} {l : Locking} {t : Stage}

theorem Serving.sequences (h : (throughVeneer 3 (· = 4096) 4096).Reachable s)
    (hgo : s.stopped = false) (hat : s.locking.At 3 t) (ht : t ≠ .outside)
    (hs : LockStep 3 (· = 4096) s.locking s.running l) :
    (throughVeneer 3 (· = 4096) 4096).Reachable { s with locking := l } := by
  refine h.step ⟨by simp, hgo, .sequence ?_ hs⟩
  rw [hat.2]
  exact ht

theorem Serving.yields_reachable (h : (throughVeneer 3 (· = 4096) 4096).Reachable s)
    (hgo : s.stopped = false)
    (hok : (kernelStep s.kernel (lockRegs 0) (.svc 0xf008)).isOk = true) :
    (throughVeneer 3 (· = 4096) 4096).Reachable s.yields := by
  obtain ⟨L, rs, hl⟩ := (serveInv h rfl).locks hgo
  exact h.step ⟨by simp, hgo, .meanwhile (yield_meanwhile hl (Outcome.eq_ok_now hok))⟩

theorem Serving.calls_reachable (h : (throughVeneer 3 (· = 4096) 4096).Reachable s)
    (hgo : s.stopped = false) (hat : s.At 3 .away) :
    (throughVeneer 3 (· = 4096) 4096).Reachable s.calls := by
  have hgoto : ∀ (l : Locking) t, (l.goto t).stage l.running = t := fun l t => by simp
  have h₁ := h.step ⟨by simp, hgo, ServeStep.call hat⟩
  set s₁ := s.start (.claimLoad 4096) .entry
  have hat₁ : s₁.locking.At 3 (.claimLoad 4096) := ⟨hat.1.1, hgoto _ _⟩
  have h₂ := Serving.sequences h₁ hgo hat₁ (by simp) (.claimLoad hat₁)
  set s₂ : Serving := { s₁ with locking :=
    { s₁.locking.goto (.claimTest 4096 (s₁.locking.kernel.load64 4096)) with
      monitor := some 4096 } }
  have hat₂ : s₂.locking.At 3 (.claimTest 4096 (s₁.locking.kernel.load64 4096)) :=
    ⟨hat.1.1, hgoto s₁.locking _⟩
  have h₃ := Serving.sequences h₂ hgo hat₂ (by simp) (.claimTest hat₂)
  exact h₃

theorem Serving.returns_reachable (h : (throughVeneer 3 (· = 4096) 4096).Reachable s)
    (hgo : s.stopped = false) (hat : s.At 3 .handler) :
    (throughVeneer 3 (· = 4096) 4096).Reachable s.returns := by
  have hgoto : ∀ (l : Locking) t, (l.goto t).stage l.running = t := fun l t => by simp
  have h₁ := h.step ⟨by simp, hgo, ServeStep.ret hat⟩
  set s₁ := s.start (.releaseLoad 4096) .ret
  have hat₁ : s₁.locking.At 3 (.releaseLoad 4096) := ⟨hat.1.1, hgoto _ _⟩
  have h₂ := Serving.sequences h₁ hgo hat₁ (by simp) (.releaseLoad hat₁)
  set s₂ : Serving := { s₁ with locking :=
    { s₁.locking.goto (.releaseTest 4096 (s₁.locking.kernel.load64 4096)) with
      monitor := some 4096 } }
  have hat₂ : s₂.locking.At 3 (.releaseTest 4096 (s₁.locking.kernel.load64 4096)) :=
    ⟨hat.1.1, hgoto s₁.locking _⟩
  have h₃ := Serving.sequences h₂ hgo hat₂ (by simp) (.releaseTest hat₂)
  exact h₃

theorem serve₀_start : ServeStart 3 (· = 4096) serve₀ := by
  obtain ⟨hpl, -, ⟨rs, hr⟩, haligned, hwords, -, -, -⟩ := lock₀_start
  refine ⟨⟨hpl.congr rfl rfl, by decide +kernel, ⟨rs, hr.congr ?_ rfl ?_⟩, haligned, hwords,
    fun _ => rfl, fun _ _ => rfl, rfl⟩, fun _ => rfl, fun _ => rfl, rfl⟩
  · exact ⟨rfl, rfl, rfl, rfl, rfl, rfl, rfl, rfl⟩
  · intro p _ w hw
    show (if w = 41 then _ else if w = 55 then _ else if w = 56 then _ else if w = 57 then _
      else lockThreads.ctx p w) = _
    rw [if_neg (by omega), if_neg (by omega), if_neg (by omega), if_neg (by omega)]
    rfl

theorem serve₁_reachable : (throughVeneer 3 (· = 4096) 4096).Reachable serve₁ := by
  have h₁ := Serving.calls_reachable (.init serve₀_start) rfl serveRun.at₀
  have hat₁ : serve₀.calls.locking.At 3 (.claimStore 4096) := ⟨by decide +kernel, by decide +kernel⟩
  have h₂ := Serving.sequences h₁ rfl hat₁ (by simp) (.claimStore hat₁ rfl)
  have hcheck (s : Locking) (hat : s.At 3 (.claimCheck 4096 0)) :
      LockStep 3 (· = 4096) s s.running (s.goto .outside) := by
    simpa using @LockStep.claimCheck 3 (· = 4096) s 4096 0 hat
  have h₃ := Serving.sequences (t := .claimCheck 4096 0) h₂ rfl
    ⟨by decide +kernel, by decide +kernel⟩ (by simp)
    (hcheck _ ⟨by decide +kernel, by decide +kernel⟩)
  exact h₃.step ⟨by simp, rfl, .handle ⟨⟨by decide +kernel, by decide +kernel⟩, by decide +kernel⟩⟩

theorem serve₃_reachable : (throughVeneer 3 (· = 4096) 4096).Reachable serve₃ := by
  have hyield := Serving.yields_reachable serve₁_reachable rfl serveRun.yield₁
  have hcall := Serving.calls_reachable hyield rfl serveRun.yielded₁
  have hwait := Serving.sequences hcall rfl serveRun.at₂ (by simp)
    (.claimWait serveRun.at₂ rfl (by decide +kernel) (Outcome.eq_ok_now serveRun.wait₂))
  exact hwait

theorem serve₅_reachable : (throughVeneer 3 (· = 4096) 4096).Reachable serve₅ := by
  have hyield := Serving.yields_reachable serve₃_reachable rfl serveRun.yield₃
  have hreturn := Serving.returns_reachable hyield rfl serveRun.yielded₃
  have hrelease := Serving.sequences hreturn rfl serveRun.at₄ (by simp)
    (.releaseCall serveRun.at₄ rfl (by decide +kernel) (Outcome.eq_ok_now serveRun.release₄))
  exact hrelease

/-- The first thread has left, and the second has the lock. -/
theorem lock_left_second :
    serve₆.kernel.user 3 4096 % 2 ^ 32 ≠ threadCode (startAddress + 0x1ffc00) ∧
      ∃ p ∈ serve₆.kernel.contexts, serve₆.veneer p ≠ .away ∧
        serve₆.kernel.user 3 4096 % 2 ^ 32 = threadCode p := by
  have hyield := Serving.yields_reachable serve₅_reachable rfl serveRun.yield₅
  have hleft : (throughVeneer 3 (· = 4096) 4096).Reachable serve₆ := hyield.step ⟨by simp, rfl,
    .leave serveRun.yielded₅ (Outcome.eq_ok_now serveRun.return₅)⟩
  obtain ⟨hmem, haway, hne⟩ := serveRun.left₆
  obtain ⟨hnot, henter⟩ := lock_left hleft rfl
  exact ⟨hnot _ hmem haway, henter.resolve_left hne⟩

/-- A handler that calls `type__exception` leaves the lock behind. -/
theorem thrown_with_lock :
    ¬ ∀ s, (serveSystem 3 (· = 4096) 4096).Reachable s → LockLeft 3 4096 s := by
  intro h
  have h₁ := serve₁_reachable.of_restrict.step ⟨rfl, ServeStep.throw serveRun.at₁⟩
  have h₂ := h₁.step ⟨rfl, ServeStep.stop ⟨serveRun.at₁.1, serve₁.goto_veneer _⟩
    (Outcome.eq_halt serveRun.throw₁)⟩
  obtain ⟨hmem, haway, hcode⟩ := serveRun.thrown
  exact (h _ h₂).left _ hmem haway hcode

end Runs

end Isambard.El1
