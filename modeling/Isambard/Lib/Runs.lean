import Mathlib.Data.List.Forall2

/-!
# Lib.Runs — labelled transition systems and their invariants

A system is its initial states and its labelled steps; a label says who did
what. `System.restrict` keeps the steps that meet a condition on the state
before and the label: the runs of the restricted system are the runs all of
whose steps meet it. A system simulates another one by a map of its states, when the steps from
the states that have an invariant are steps of the other.
-/

namespace Isambard.Lib

/-- A transition system over states `σ` with steps labelled by `ι`. -/
structure System (σ ι : Type*) where
  init : σ → Prop
  step : σ → ι → σ → Prop

variable {σ ι : Type*}

/-- The states that some run reaches. -/
inductive System.Reachable (S : System σ ι) : σ → Prop
  | init {s : σ} : S.init s → S.Reachable s
  | step {s s' : σ} {i : ι} : S.Reachable s → S.step s i s' → S.Reachable s'

/-- A run from one state to another, with the labels of its steps. -/
inductive System.Trace (S : System σ ι) (s : σ) : List ι → σ → Prop
  | nil : S.Trace s [] s
  | concat {l : List ι} {s' s'' : σ} {i : ι} :
      S.Trace s l s' → S.step s' i s'' → S.Trace s (l ++ [i]) s''

theorem System.Reachable.trace {S : System σ ι} {s s' : σ} {l : List ι} (h : S.Reachable s)
    (ht : S.Trace s l s') : S.Reachable s' := by
  induction ht with
  | nil => exact h
  | concat _ hs ih => exact .step ih hs

/-- The runs all of whose steps meet `ok`. -/
def System.restrict (S : System σ ι) (ok : σ → ι → Prop) : System σ ι where
  init := S.init
  step s i s' := ok s i ∧ S.step s i s'

/-- What holds initially and is kept by every step holds in every state
reached. -/
theorem System.Reachable.invariant {S : System σ ι} {P : σ → Prop} {s : σ}
    (h : S.Reachable s) (hinit : ∀ s, S.init s → P s)
    (hstep : ∀ s i s', P s → S.step s i s' → P s') : P s := by
  induction h with
  | init h => exact hinit _ h
  | step _ h ih => exact hstep _ _ _ ih h

/-- A run whose steps all meet a condition is a run. -/
theorem System.Reachable.of_restrict {S : System σ ι} {ok : σ → ι → Prop} {s : σ}
    (h : (S.restrict ok).Reachable s) : S.Reachable s := by
  induction h with
  | init h => exact .init h
  | step _ h ih => exact .step ih h.2

/-- What every step keeps, a run keeps. -/
theorem System.Trace.invariant {S : System σ ι} {P : σ → Prop} {s s' : σ} {l : List ι}
    (h : S.Trace s l s') (hs : P s) (hstep : ∀ s i s', P s → S.step s i s' → P s') : P s' := by
  induction h with
  | nil => exact hs
  | concat _ hi ih => exact hstep _ _ _ ih hi

/-- A run whose steps all meet a condition is a run. -/
theorem System.Trace.of_restrict {S : System σ ι} {ok : σ → ι → Prop} {s s' : σ} {l : List ι}
    (h : (S.restrict ok).Trace s l s') : S.Trace s l s' := by
  induction h with
  | nil => exact .nil
  | concat _ hi ih => exact .concat ih hi.2

theorem System.Trace.mono {S : System σ ι} {ok ok' : σ → ι → Prop} {s s' : σ} {l : List ι}
    (h : (S.restrict ok).Trace s l s') (hok : ∀ s i, ok s i → ok' s i) :
    (S.restrict ok').Trace s l s' := by
  induction h with
  | nil => exact .nil
  | concat _ hi ih => exact .concat ih ⟨hok _ _ hi.1, hi.2⟩

/-- Where `P` holds, a step of `S` is the step `act` of `T`, and `P` holds again. -/
structure Simulates {τ κ : Type*} (S : System σ ι) (T : System τ κ) (f : σ → τ)
    (act : σ → ι → σ → κ) (P : σ → Prop) : Prop where
  inv : ∀ s i s', P s → S.step s i s' → P s'
  step : ∀ s i s', P s → S.step s i s' → T.step (f s) (act s i s') (f s')

variable {τ κ : Type*} {S : System σ ι} {T : System τ κ} {f : σ → τ} {act : σ → ι → σ → κ}
  {P : σ → Prop}

theorem Simulates.restrict (h : Simulates S T f act P) (ok : σ → ι → Prop) :
    Simulates (S.restrict ok) T f act P :=
  ⟨fun s i s' hs hi => h.inv s i s' hs hi.2, fun s i s' hs hi => h.step s i s' hs hi.2⟩

/-- What holds where a run of `S` ends. -/
theorem Simulates.trace {s s' : σ} {l : List ι} (h : Simulates S T f act P) (hs : P s)
    (ht : S.Trace s l s') : P s' := ht.invariant hs h.inv

end Isambard.Lib
