import Isambard.Lib.Runs
import Mathlib.Data.List.Chain
import Mathlib.Logic.Function.Basic

/-!
# Lib.Domains — threads that move between protection domains

A thread runs in a domain. It moves to another one by a call through a capability whose user
is the domain that it is in, and back by a return from that call. A domain makes capabilities
for its own objects, or copies those that it has; it gives them to the domain that called it,
or to one that it may call.

* `World`, `Action`, `Step`: the rules;
* `Step.caps`, `Step.provenance`: a capability stays what it is, and comes from its provider;
* `Closed`: no domain is entered but those that were there;
* `Justified`: the calls that a thread has made were made through capabilities;
* `Step.kept`, `trace_kept`, `call_return`: a call and its return.

A system that simulates these rules has the same properties of its runs.
-/

namespace Isambard.Lib.Domains

variable {T I D V R : Type*}

/-- Its user may call its provider; the value says where, and for which object. -/
structure Cap (D V : Type*) where
  user : D
  provider : D
  value : V

/-- A call that has not returned: who has called, and where that goes on. -/
structure Frame (D R : Type*) where
  domain : D
  resume : R

/-- The domain that a thread is in, and its calls, the last one first. -/
structure Activity (D R : Type*) where
  domain : D
  frames : List (Frame D R)

structure World (T I D V R : Type*) where
  threads : T → Option (Activity D R)
  caps : I → Option (Cap D V)

inductive Action (T I D V R : Type*) where
  /-- nothing that concerns the domains -/
  | internal
  | call (t : T) (i : I) (r : R)
  | ret (t : T) (r : R)
  | grant (t : T) (i : I) (c : Cap D V)
  | spawn (t p : T)

/-- The action moves the thread between domains. -/
def Action.Moves : Action T I D V R → T → Prop
  | .call t _ _, q | .ret t _, q => t = q
  | _, _ => False

/-- The capability is for an object of `d`, or like one that `d` has. -/
def Provides (w : World T I D V R) (d : D) (c : Cap D V) : Prop :=
  c.provider = d ∨ ∃ i c₀, w.caps i = some c₀ ∧ c₀.user = d ∧
    c.provider = c₀.provider ∧ c.value = c₀.value

/-- The domain `u` has called, or may be called. -/
def Reaches (w : World T I D V R) (a : Activity D R) (u : D) : Prop :=
  (∃ f fs, a.frames = f :: fs ∧ f.domain = u) ∨
    ∃ i c, w.caps i = some c ∧ c.user = a.domain ∧ c.provider = u

variable {w w' : World T I D V R} {t p : T} {i : I} {a b : Activity D R} {c : Cap D V}

/-- The thread has made at least `n` calls that have not returned. -/
def World.Deep (w : World T I D V R) (t : T) (n : ℕ) : Prop :=
  ∀ a, w.threads t = some a → n ≤ a.frames.length

/-- The threads, their calls and the capabilities are all in domains of `S`. -/
structure Closed (S : D → Prop) (w : World T I D V R) : Prop where
  domain : ∀ t a, w.threads t = some a → S a.domain
  frames : ∀ t a, w.threads t = some a → ∀ f ∈ a.frames, S f.domain
  user : ∀ i c, w.caps i = some c → S c.user
  provider : ∀ i c, w.caps i = some c → S c.provider

theorem Closed.mono {A B : D → Prop} (h : Closed A w) (hi : ∀ d, A d → B d) : Closed B w :=
  ⟨fun t a ha => hi _ (h.domain t a ha), fun t a ha f hf => hi _ (h.frames t a ha f hf),
    fun i c hc => hi _ (h.user i c hc), fun i c hc => hi _ (h.provider i c hc)⟩

/-! ## The calls that a thread has made -/

/-- The domain `u` may call the domain `p`. -/
def MayCall (w : World T I D V R) (p u : D) : Prop :=
  ∃ i c, w.caps i = some c ∧ c.provider = p ∧ c.user = u

/-- From the domain that the thread started in, each of its calls was by a capability. -/
def Justified (w : World T I D V R) (a : Activity D R) : Prop :=
  (a.domain :: a.frames.map Frame.domain).dropLast.IsChain (MayCall w)

theorem Justified.mono (h : Justified w a) (hc : ∀ i c, w.caps i = some c → w'.caps i = some c) :
    Justified w' a :=
  List.IsChain.imp (fun _ _ ⟨i, c, hi, hp, hu⟩ => ⟨i, c, hc i c hi, hp, hu⟩) h

theorem Justified.push (h : Justified w a) (hc : w.caps i = some c) (hu : c.user = a.domain)
    (r : R) : Justified w ⟨c.provider, ⟨a.domain, r⟩ :: a.frames⟩ := by
  unfold Justified at *
  simp only [List.map_cons]
  rw [List.dropLast_cons_cons]
  cases hfs : a.frames.map Frame.domain with
  | nil =>
    rw [List.dropLast_singleton]
    exact List.isChain_singleton _
  | cons d ds =>
    rw [hfs, List.dropLast_cons_cons] at h
    rw [List.dropLast_cons_cons, List.isChain_cons_cons]
    exact ⟨⟨i, c, hc, rfl, hu⟩, h⟩

theorem Justified.pop {d : D} {f : Frame D R} {fs : List (Frame D R)}
    (h : Justified w ⟨d, f :: fs⟩) : Justified w ⟨f.domain, fs⟩ := by
  unfold Justified at *
  simp only [List.map_cons] at h
  rw [List.dropLast_cons_cons] at h
  exact h.tail

/-- A new thread has made no call yet. -/
theorem justified_singleton (w : World T I D V R) (d : D) (f : Frame D R) :
    Justified w ⟨d, [f]⟩ := by
  unfold Justified
  simp only [List.map_cons, List.map_nil]
  rw [List.dropLast_cons_cons, List.dropLast_singleton]
  exact List.isChain_singleton _

/-! ## Edits -/

section Threads

variable [DecidableEq T]

/-- The thread `t` does this. -/
def World.setThread (w : World T I D V R) (t : T) (a : Activity D R) : World T I D V R :=
  { w with threads := Function.update w.threads t (some a) }

@[simp] theorem setThread_caps : (w.setThread t a).caps = w.caps := rfl
theorem setThread_threads :
    (w.setThread t a).threads p = if p = t then some a else w.threads p :=
  Function.update_apply ..

theorem Closed.setThread {S : D → Prop} (h : Closed S w) (hd : S a.domain)
    (hf : ∀ f ∈ a.frames, S f.domain) : Closed S (w.setThread t a) := by
  constructor
  · intro q b hb
    rw [setThread_threads] at hb
    split at hb
    · cases hb
      exact hd
    · exact h.domain q b hb
  · intro q b hb
    rw [setThread_threads] at hb
    split at hb
    · cases hb
      exact hf
    · exact h.frames q b hb
  · exact h.user
  · exact h.provider

end Threads

section Caps

variable [DecidableEq I]

def World.setCap (w : World T I D V R) (i : I) (c : Cap D V) : World T I D V R :=
  { w with caps := Function.update w.caps i (some c) }

@[simp] theorem setCap_threads : (w.setCap i c).threads = w.threads := rfl

theorem setCap_caps {j : I} : (w.setCap i c).caps j = if j = i then some c else w.caps j :=
  Function.update_apply ..

theorem Closed.setCap {S : D → Prop} (h : Closed S w) (hu : S c.user) (hp : S c.provider) :
    Closed S (w.setCap i c) := by
  constructor
  · exact h.domain
  · exact h.frames
  · intro j e he
    rw [setCap_caps] at he
    split at he
    · cases he
      exact hu
    · exact h.user j e he
  · intro j e he
    rw [setCap_caps] at he
    split at he
    · cases he
      exact hp
    · exact h.provider j e he

end Caps

/-! ## Steps -/

section Rules

variable [DecidableEq T] [DecidableEq I]

/-- What threads do. A new thread starts in the domain that its maker was called from, with a
frame that leads `out`. -/
inductive Step (out : Frame D R → Prop) (w : World T I D V R) :
    Action T I D V R → World T I D V R → Prop
  | internal : Step out w .internal w
  | call {t : T} {i : I} {r : R} {a : Activity D R} {c : Cap D V} :
      w.threads t = some a → w.caps i = some c → c.user = a.domain →
      Step out w (.call t i r) (w.setThread t ⟨c.provider, ⟨a.domain, r⟩ :: a.frames⟩)
  | ret {t : T} {d : D} {f : Frame D R} {fs : List (Frame D R)} :
      w.threads t = some ⟨d, f :: fs⟩ →
      Step out w (.ret t f.resume) (w.setThread t ⟨f.domain, fs⟩)
  | grant {t : T} {i : I} {a : Activity D R} {c : Cap D V} :
      w.threads t = some a → w.caps i = none → Provides w a.domain c → Reaches w a c.user →
      Step out w (.grant t i c) (w.setCap i c)
  | spawn {t p : T} {d : D} {f o : Frame D R} {fs : List (Frame D R)} :
      w.threads t = some ⟨d, f :: fs⟩ → w.threads p = none → out o →
      Step out w (.spawn t p) (w.setThread p ⟨f.domain, [o]⟩)

variable {out : Frame D R → Prop} {x : Action T I D V R}

/-- A capability is never changed, and never taken away. -/
theorem Step.caps (h : Step out w x w') (hc : w.caps i = some c) : w'.caps i = some c := by
  cases h with
  | internal => exact hc
  | call _ _ _ => exact hc
  | ret _ => exact hc
  | grant _ hnone _ _ =>
    rw [setCap_caps, if_neg, hc]
    rintro rfl
    rw [hnone] at hc
    cases hc
  | spawn _ _ _ => exact hc

theorem Step.granted (h : Step out w (.grant t i c) w') : w'.caps i = some c := by
  cases h with
  | grant _ _ _ _ => rw [setCap_caps, if_pos rfl]

theorem Step.closed {S : D → Prop} (h : Step out w x w') (hout : ∀ o, out o → S o.domain)
    (hs : Closed S w) : Closed S w' := by
  cases h with
  | internal => exact hs
  | call ht hc _ =>
    apply hs.setThread (hs.provider _ _ hc)
    intro f hf
    rcases List.mem_cons.1 hf with rfl | hf
    · exact hs.domain _ _ ht
    · exact hs.frames _ _ ht f hf
  | ret ht =>
    apply hs.setThread (hs.frames _ _ ht _ List.mem_cons_self)
    exact fun g hg => hs.frames _ _ ht g (List.mem_cons_of_mem _ hg)
  | grant ht _ hp hr =>
    apply hs.setCap
    · rcases hr with ⟨f, fs, hfs, hu⟩ | ⟨j, c₀, hc₀, -, hu⟩
      · rw [← hu]
        exact hs.frames _ _ ht f (by rw [hfs]; exact List.mem_cons_self)
      · rw [← hu]
        exact hs.provider _ _ hc₀
    · rcases hp with hd | ⟨j, c₀, hc₀, -, heq, -⟩
      · rw [hd]
        exact hs.domain _ _ ht
      · rw [heq]
        exact hs.provider _ _ hc₀
  | spawn ht _ ho =>
    apply hs.setThread (hs.frames _ _ ht _ List.mem_cons_self)
    intro g hg
    rw [List.mem_singleton.1 hg]
    exact hout _ ho

theorem Step.justified (h : Step out w x w') (hj : ∀ t a, w.threads t = some a → Justified w a) :
    ∀ t a, w'.threads t = some a → Justified w' a := by
  have hmono : ∀ a, Justified w a → Justified w' a := fun a ha => ha.mono fun i c => h.caps
  intro q b hb
  cases h with
  | internal => exact hj q b hb
  | call ht hc hu =>
    rw [setThread_threads] at hb
    split at hb
    · cases hb
      exact hmono _ ((hj _ _ ht).push hc hu _)
    · exact hmono b (hj q b hb)
  | ret ht =>
    rw [setThread_threads] at hb
    split at hb
    · cases hb
      exact hmono _ (hj _ _ ht).pop
    · exact hmono b (hj q b hb)
  | grant _ _ _ _ => exact hmono b (hj q b hb)
  | spawn _ _ _ =>
    rw [setThread_threads] at hb
    split at hb
    · cases hb
      exact justified_singleton _ _ _
    · exact hmono b (hj q b hb)

/-! ## A call and its return -/

/-- The calls that a thread does not return from are left alone, by its own steps and by those
of the others. -/
theorem Step.kept {fs : List (Frame D R)} (h : Step out w x w') (ha : w.threads t = some a)
    (hs : fs <:+ a.frames) (hdeep : w'.Deep t fs.length) :
    ∃ b, w'.threads t = some b ∧ fs <:+ b.frames := by
  cases h with
  | internal => exact ⟨a, ha, hs⟩
  | @call q i r a' c hq _ _ =>
    rw [setThread_threads]
    split
    · rename_i heq
      rw [← heq, ha] at hq
      cases hq
      exact ⟨_, rfl, hs.trans (List.suffix_cons _ _)⟩
    · exact ⟨a, ha, hs⟩
  | @ret q e f gs hq =>
    have hgs := hdeep ⟨f.domain, gs⟩
    rw [setThread_threads] at hgs ⊢
    split
    · rename_i heq
      rw [← heq, ha] at hq
      cases hq
      refine ⟨_, rfl, ?_⟩
      have hlen := hgs (if_pos heq)
      rcases List.suffix_cons_iff.1 hs with rfl | hs
      · simp only [List.length_cons] at hlen
        omega
      · exact hs
    · exact ⟨a, ha, hs⟩
  | grant _ _ _ _ => exact ⟨a, ha, hs⟩
  | @spawn q p e f o gs _ hp _ =>
    rw [setThread_threads, if_neg]
    · exact ⟨a, ha, hs⟩
    · rintro rfl
      rw [hp] at ha
      cases ha

/-- A thread is moved by its own calls and returns only. -/
theorem Step.others (h : Step out w x w') (ha : w.threads t = some a) (hm : ¬ x.Moves t) :
    w'.threads t = some a := by
  cases h with
  | internal => exact ha
  | call _ _ _ =>
    rw [setThread_threads, if_neg fun heq => hm heq.symm]
    exact ha
  | ret _ =>
    rw [setThread_threads, if_neg fun heq => hm heq.symm]
    exact ha
  | grant _ _ _ _ => exact ha
  | spawn _ hp _ =>
    rw [setThread_threads, if_neg]
    · exact ha
    · rintro rfl
      rw [hp] at ha
      cases ha

/-- A new thread has a frame that leads out, and has made no call. -/
theorem Step.born (h : Step out w x w') (hw : w.threads t = none) (ha : w'.threads t = some a) :
    ∃ o, out o ∧ a.frames = [o] := by
  cases h with
  | internal =>
    rw [hw] at ha
    cases ha
  | call ht _ _ =>
    rw [setThread_threads] at ha
    split at ha
    · rename_i heq
      rw [heq, ht] at hw
      cases hw
    · rw [hw] at ha
      cases ha
  | ret ht =>
    rw [setThread_threads] at ha
    split at ha
    · rename_i heq
      rw [heq, ht] at hw
      cases hw
    · rw [hw] at ha
      cases ha
  | grant _ _ _ _ =>
    have hsame : w.threads t = some a := ha
    rw [hw] at hsame
    cases hsame
  | spawn _ _ ho =>
    rw [setThread_threads] at ha
    split at ha
    · cases ha
      exact ⟨_, ho, rfl⟩
    · rw [hw] at ha
      cases ha

/-- The domains as a system. -/
def system (out : Frame D R → Prop) (start : World T I D V R → Prop) :
    System (World T I D V R) (Action T I D V R) where
  init := start
  step := Step out

/-! ## Systems whose threads move between domains -/

variable {σ ι : Type*} {S : System σ ι} {start : World T I D V R → Prop}
  {f : σ → World T I D V R} {act : σ → ι → σ → Action T I D V R} {P : σ → Prop} {s s' s₁ s₂ : σ}
  {l : List ι} {j : ι}

theorem trace_caps (h : Simulates S (system out start) f act P) (ht : S.Trace s l s') (hs : P s)
    (hc : (f s).caps i = some c) : (f s').caps i = some c := by
  have hkept := ht.invariant (P := fun v => P v ∧ (f v).caps i = some c) ⟨hs, hc⟩ ?_
  · exact hkept.2
  · exact fun v x v' hv hx => ⟨h.inv v x v' hv.1 hx, (h.step v x v' hv.1 hx).caps hv.2⟩

theorem trace_closed {A : D → Prop} (h : Simulates S (system out start) f act P)
    (hout : ∀ o, out o → A o.domain) (ht : S.Trace s l s') (hs : P s) (hc : Closed A (f s)) :
    Closed A (f s') := by
  have hkept := ht.invariant (P := fun v => P v ∧ Closed A (f v)) ⟨hs, hc⟩ ?_
  · exact hkept.2
  · exact fun v x v' hv hx => ⟨h.inv v x v' hv.1 hx, (h.step v x v' hv.1 hx).closed hout hv.2⟩

theorem reachable_justified (h : Simulates S (system out start) f act P) (hr : S.Reachable s)
    (hinit : ∀ s, S.init s → P s ∧ ∀ t a, (f s).threads t = some a → Justified (f s) a) :
    ∀ t a, (f s).threads t = some a → Justified (f s) a := by
  have hkept := hr.invariant
    (P := fun v => P v ∧ ∀ t a, (f v).threads t = some a → Justified (f v) a) hinit ?_
  · exact hkept.2
  · exact fun v x v' hv hx => ⟨h.inv v x v' hv.1 hx, (h.step v x v' hv.1 hx).justified hv.2⟩

/-- A run in which the thread does not return from its calls `fs` ends with those. -/
theorem trace_kept (fs : List (Frame D R)) (h : Simulates S (system out start) f act P)
    (ht : (S.restrict fun v _ => (f v).Deep t fs.length).Trace s l s') (hs : P s)
    (ha : (f s).threads t = some a) (hsuf : fs <:+ a.frames) (hdeep : (f s').Deep t fs.length) :
    ∃ b, (f s').threads t = some b ∧ fs <:+ b.frames := by
  induction ht with
  | nil => exact ⟨a, ha, hsuf⟩
  | @concat l v v' x htr hx ih =>
    obtain ⟨b, hb, hsb⟩ := ih hx.1
    exact (h.step v x v' (h.trace hs htr.of_restrict) hx.2).kept hb hsb hdeep

/-- A thread returns through a frame that it has kept until then: it is where the frame says, with
what was left behind that frame. -/
theorem frame_return {n : ℕ} {d : D} {o : Frame D R} {fs : List (Frame D R)} {y : ι} {r' : R}
    (h : Simulates S (system out start) f act P) (hs : P s₁)
    (hd : (f s₁).threads t = some ⟨d, o :: fs⟩) (hn : (o :: fs).length = n)
    (ht : (S.restrict fun v _ => (f v).Deep t n).Trace s₁ l s₂)
    (hb : (f s₂).threads t = some b) (hlen : b.frames.length = n)
    (hret : S.step s₂ y s') (hact' : act s₂ y s' = .ret t r') :
    (f s').threads t = some ⟨o.domain, fs⟩ ∧ r' = o.resume := by
  have hy := h.step s₂ y s' (h.trace hs ht.of_restrict) hret
  rw [hact'] at hy
  have hdeep : (f s₂).Deep t (o :: fs).length := by
    intro b' hb'
    rw [hb] at hb'
    cases hb'
    rw [hn, hlen]
  obtain ⟨b', hb', hsuf⟩ := trace_kept (o :: fs) h (by rw [hn]; exact ht) hs hd
    (List.suffix_refl _) hdeep
  rw [hb] at hb'
  cases hb'
  -- nothing else is left of what was called since
  have hframes : b.frames = o :: fs := (hsuf.eq_of_length (by rw [hn, hlen])).symm
  revert hy
  generalize f s' = w₃
  intro hy
  cases hy with
  | ret ht' =>
    rw [hb] at ht'
    cases ht'
    simp only [List.cons.injEq] at hframes
    obtain ⟨rfl, rfl⟩ := hframes
    exact ⟨by rw [setThread_threads, if_pos rfl], rfl⟩

/-- A thread calls, and does not return from that call until it does: then it is where it was,
and goes on where the call has said. -/
theorem call_return {n : ℕ} {x y : ι} {r r' : R} (h : Simulates S (system out start) f act P)
    (hs : P s) (ha : (f s).threads t = some a) (hcall : S.step s x s₁)
    (hact : act s x s₁ = .call t i r)
    (hn : ∀ b, (f s₁).threads t = some b → b.frames.length = n)
    (ht : (S.restrict fun v _ => (f v).Deep t n).Trace s₁ l s₂)
    (hb : (f s₂).threads t = some b) (hlen : b.frames.length = n)
    (hret : S.step s₂ y s') (hact' : act s₂ y s' = .ret t r') :
    (f s').threads t = some a ∧ r' = r := by
  have hx := h.step s x s₁ hs hcall
  rw [hact] at hx
  have hpushed : ∃ d, (f s₁).threads t = some ⟨d, ⟨a.domain, r⟩ :: a.frames⟩ := by
    revert hx
    generalize f s₁ = w₁
    intro hx
    cases hx with
    | call ht' _ _ =>
      rw [ha] at ht'
      cases ht'
      exact ⟨_, by rw [setThread_threads, if_pos rfl]⟩
  obtain ⟨d, hd⟩ := hpushed
  exact frame_return h (h.inv s x s₁ hs hcall) hd (hn _ hd) ht hb hlen hret hact'

/-- A thread is where it was when only others have moved. -/
theorem trace_others {still : σ → ι → Prop} (h : Simulates S (system out start) f act P)
    (hstill : ∀ v x v', still v x → ¬ (act v x v').Moves t) (ht : (S.restrict still).Trace s l s')
    (hs : P s) (ha : (f s).threads t = some a) : (f s').threads t = some a := by
  have hkept := ht.invariant (P := fun v => P v ∧ (f v).threads t = some a) ⟨hs, ha⟩ ?_
  · exact hkept.2
  · rintro v x v' ⟨hv, hat⟩ ⟨hx, hstep⟩
    exact ⟨h.inv v x v' hv hstep, (h.step v x v' hv hstep).others hat (hstill v x v' hx)⟩

end Rules

end Isambard.Lib.Domains
