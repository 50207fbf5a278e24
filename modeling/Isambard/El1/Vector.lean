import Isambard.El1.Handlers
import Isambard.El1.Steps
import Isambard.Lib.Runs

/-!
# El1.Vector — the vector code, instruction by instruction

`C_HANDLER`, `el1_enter_thread` and `el1_resume_thread` of
`include/aarch64_c_vector_table.h`. The registers of a thread are stored in two parts: those
that a C function may change before the handler is called, with x30 in the place of x19, and
the rest when another thread is to run. Two routines load them again.

* `exec`, `run`: the instructions, over the registers and the words of the contexts;
* `vectorEntry_eq`, `vectorExit_resume`, `vectorExit_enter`: what the three parts do;
* `vector_kernelStep`: the vector code around a handler is a step of the kernel;
* `switch_keeps`: threads find their registers as they left them.
-/

namespace Isambard.El1

open Isambard.Lib

/-! ## Instructions -/

inductive SysReg where
  | elr
  | spsr
  | spEl0
deriving Repr, DecidableEq

/-- The instructions, by the numbers of the registers. `w` is a word of the thread context
that the base register points to. -/
inductive Instr where
  | stp (a b base w : ℕ)
  | ldp (a b base w : ℕ)
  /-- `stp xa, xb, [sp, #-16]!` -/
  | push (a b : ℕ)
  /-- `ldp xa, xb, [sp, #16]` -/
  | peek (a b : ℕ)
  /-- `ldp xa, xb, [sp], #16` -/
  | pop (a b : ℕ)
  /-- `str xa, [sp, #8]` -/
  | strThread (a : ℕ)
  | mrs (a : ℕ) (s : SysReg)
  | msr (s : SysReg) (a : ℕ)
deriving Repr, DecidableEq

/-- A core in the vector code. The exception stack ends in the address of the core's
structure and `runnable`; `pushed` is what is above them. -/
structure Machine where
  x : ℕ → ℕ
  elr : ℕ
  spsr : ℕ
  pushed : List (ℕ × ℕ)
  kernel : Kernel

/-- The pair at depth `n` of the exception stack. -/
def Machine.stacked (m : Machine) (n : ℕ) : ℕ × ℕ :=
  m.pushed.getD n (m.kernel.layout.core, m.kernel.runnable)

def Machine.setPair (m : Machine) (a b : ℕ) (v : ℕ × ℕ) : Machine :=
  { m with x := Function.update (Function.update m.x a v.1) b v.2 }

def exec (m : Machine) : Instr → Machine
  | .stp a b base w =>
    { m with kernel := (m.kernel.setFld (m.x base) w (m.x a)).setFld (m.x base) (w + 1) (m.x b) }
  | .ldp a b base w => m.setPair a b (m.kernel.fld (m.x base) w, m.kernel.fld (m.x base) (w + 1))
  | .push a b => { m with pushed := (m.x a, m.x b) :: m.pushed }
  | .peek a b => m.setPair a b (m.stacked 1)
  | .pop a b => { m.setPair a b (m.stacked 0) with pushed := m.pushed.tail }
  | .strThread a => { m with kernel := { m.kernel with runnable := m.x a } }
  | .mrs a .elr => { m with x := Function.update m.x a m.elr }
  | .mrs a .spsr => { m with x := Function.update m.x a m.spsr }
  | .mrs a .spEl0 => { m with x := Function.update m.x a m.kernel.spEl0 }
  | .msr .elr a => { m with elr := m.x a }
  | .msr .spsr a => { m with spsr := m.x a }
  | .msr .spEl0 a => { m with kernel := { m.kernel with spEl0 := m.x a } }

def run (m : Machine) (code : List Instr) : Machine := code.foldl exec m

@[simp] theorem run_nil (m : Machine) : run m [] = m := rfl

@[simp] theorem run_cons (m : Machine) (i : Instr) (code : List Instr) :
    run m (i :: code) = run (exec m i) code := rfl

@[simp] theorem run_append (m : Machine) (a b : List Instr) :
    run m (a ++ b) = run (run m a) b := List.foldl_append

/-! ## The code -/

/-- `store_pair`, for `n` pairs from register `r` on. -/
def storePairs (r : ℕ) : ℕ → List Instr
  | 0 => []
  | n + 1 => .stp r (r + 1) 1 (4 + r) :: storePairs (r + 2) n

/-- `load_pair`. -/
def loadPairs (r : ℕ) : ℕ → List Instr
  | 0 => []
  | n + 1 => .ldp r (r + 1) 0 (4 + r) :: loadPairs (r + 2) n

/-- `C_HANDLER`, before the call. -/
def saveCode : List Instr :=
  [.push 0 1, .peek 0 1] ++ storePairs 2 1 ++
  [.pop 2 3, .stp 2 3 1 4, .mrs 2 .elr, .mrs 3 .spsr, .stp 2 3 1 36] ++
  storePairs 4 7 ++ [.stp 18 30 1 22]

/-- `C_HANDLER`, when another thread is to run. -/
def restCode : List Instr :=
  storePairs 18 6 ++ [.mrs 29 .spEl0, .stp 30 29 1 34]

/-- `el1_resume_thread`. -/
def resumeCode : List Instr :=
  [.ldp 2 3 0 36, .msr .elr 2, .msr .spsr 3] ++ loadPairs 2 8 ++ [.strThread 0, .ldp 0 1 0 4]

/-- `el1_enter_thread`, after ELR and SPSR are set. -/
def enterCode : List Instr :=
  [.ldp 30 29 0 34, .msr .spEl0 29] ++ loadPairs 2 14 ++ [.strThread 0, .ldp 0 1 0 4]

/-- How the vector code is left. -/
inductive Exit where
  | halt (k : Kernel)
  | eret (m : Machine)
  /-- to EL3, which runs virtual machines -/
  | smc (number : ℕ) (m : Machine)

/-- `el1_enter_thread`. Its C code keeps the pointer in x0. -/
def enterThread (m : Machine) : Exit :=
  let now := m.x 0
  if isVirtual (m.kernel.spsr now) then
    if m.kernel.partner now = 0 then .smc 3 m
    else if m.kernel.runnable ≠ now then .smc 0x99 m
    else if now = 0xfffffffffe1feb80 then .smc 0x98 m
    else .smc 0 m
  else .eret (run { m with elr := m.kernel.pc now, spsr := m.kernel.spsr now } enterCode)

/-- The handler has returned: it keeps x19 to x29, and leaves anything in the others. -/
def returned (m : Machine) (k : Kernel) (now : ℕ) (scratch : ℕ → ℕ) : Machine :=
  { m with
    kernel := k
    x := fun i =>
      if i = 0 then now else if 19 ≤ i ∧ i ≤ 29 ∨ i = 1 then m.x i else scratch i }

def vectorEntry (m : Machine) : Machine := run m saveCode

def vectorExit (m : Machine) (k : Kernel) (now : ℕ) (scratch : ℕ → ℕ) : Exit :=
  let m := exec (returned m k now scratch) (.ldp 18 30 1 22)
  if m.x 0 = m.x 1 then .eret (run m resumeCode) else enterThread (run m restCode)

/-- An exception, from EL0 back to EL0. -/
def vector (m : Machine) (e : Event) (scratch : ℕ → ℕ) : Exit :=
  let m := vectorEntry m
  match handle m.kernel (m.x 1) e with
  | .halt k => .halt k
  | .ok k now => vectorExit m k now scratch

/-! ## What the parts do -/

section Parts

variable {m : Machine} {t : ℕ}

/-- Other words in the context of a thread. -/
def Machine.setRow (m : Machine) (t : ℕ) (row : ℕ → ℕ) : Machine :=
  { m with kernel := m.kernel.withCtx (Function.update m.kernel.ctx t row) }

/-- A pair of registers stored in the context of a thread. -/
theorem exec_stp {a b base w : ℕ} (hb : m.x base = t) (ht : t ∈ m.kernel.contexts) :
    exec m (.stp a b base w) = m.setRow t (Function.update (Function.update (m.kernel.ctx t) w
      (m.x a)) (w + 1) (m.x b)) := by
  simp only [exec, Machine.setRow, hb, setFld_of_mem ht]
  rw [setFld_of_mem (by exact ht)]
  simp only [withCtx_ctx, withCtx_withCtx, setCtx, Function.update_self, Function.update_idem]

theorem exec_ldp {a b base w : ℕ} (hb : m.x base = t) (ht : t ∈ m.kernel.contexts) :
    exec m (.ldp a b base w) = m.setPair a b (m.kernel.ctx t w, m.kernel.ctx t (w + 1)) := by
  simp only [exec, hb, fld_of_mem ht]

theorem run_storePairs {r n : ℕ} (hb : m.x 1 = t) (ht : t ∈ m.kernel.contexts) :
    run m (storePairs r n) = m.setRow t fun w =>
      if 4 + r ≤ w ∧ w < 4 + r + 2 * n then m.x (w - 4) else m.kernel.ctx t w := by
  induction n generalizing m r with
  | zero =>
    have hrow : (fun w => if 4 + r ≤ w ∧ w < 4 + r + 2 * 0 then m.x (w - 4)
        else m.kernel.ctx t w) = m.kernel.ctx t := by
      funext w
      rw [if_neg (by omega)]
    rw [hrow, Machine.setRow, Function.update_eq_self]
    rfl
  | succ n ih =>
    rw [storePairs, run_cons, exec_stp hb ht, ih (by exact hb) (by exact ht)]
    simp only [Machine.setRow, withCtx_ctx, withCtx_withCtx, Function.update_self,
      Function.update_idem]
    congr 3
    funext w
    -- the pair stored first is below the others
    by_cases h₀ : w = 4 + r
    · subst h₀
      rw [if_neg (by omega), if_pos (by omega), Function.update_of_ne (by omega),
        Function.update_self]
      congr 1
      omega
    · by_cases h₁ : w = 4 + r + 1
      · subst h₁
        rw [if_neg (by omega), if_pos (by omega), Function.update_self]
        congr 1
        omega
      · rw [Function.update_of_ne h₁, Function.update_of_ne h₀]
        by_cases h₂ : 4 + (r + 2) ≤ w ∧ w < 4 + (r + 2) + 2 * n
        · rw [if_pos h₂, if_pos (by omega)]
        · rw [if_neg h₂, if_neg (by omega)]

theorem run_loadPairs {r n : ℕ} (hr : 0 < r) (hb : m.x 0 = t) (ht : t ∈ m.kernel.contexts) :
    run m (loadPairs r n) = { m with
      x := fun i => if r ≤ i ∧ i < r + 2 * n then m.kernel.ctx t (4 + i) else m.x i } := by
  induction n generalizing m r with
  | zero =>
    have hx : (fun i => if r ≤ i ∧ i < r + 2 * 0 then m.kernel.ctx t (4 + i) else m.x i) = m.x := by
      funext i
      rw [if_neg (by omega)]
    rw [hx]
    rfl
  | succ n ih =>
    have hb' : (m.setPair r (r + 1) (m.kernel.ctx t (4 + r), m.kernel.ctx t (4 + r + 1))).x 0 =
        t := by
      simp only [Machine.setPair]
      rw [Function.update_of_ne (by omega), Function.update_of_ne (by omega), hb]
    rw [loadPairs, run_cons, exec_ldp hb ht, ih (by omega) hb' (by exact ht)]
    simp only [Machine.setPair]
    congr 1
    funext i
    by_cases h₀ : i = r
    · subst h₀
      rw [if_neg (by omega), if_pos (by omega), Function.update_of_ne (by omega),
        Function.update_self]
    · by_cases h₁ : i = r + 1
      · subst h₁
        rw [if_neg (by omega), if_pos (by omega), Function.update_self]
        rfl
      · rw [Function.update_of_ne h₁, Function.update_of_ne h₀]
        by_cases h₂ : r + 2 ≤ i ∧ i < r + 2 + 2 * n
        · rw [if_pos h₂, if_pos (by omega)]
        · rw [if_neg h₂, if_neg (by omega)]

/-- The registers at the exception. -/
def Machine.regs (m : Machine) : Regs := ⟨m.x, m.elr, m.spsr⟩

/-- The middle of `saveCode`: x0 and x1 come from the stack, and ELR and SPSR are stored. -/
theorem run_saveMiddle {x₀ x₁ : ℕ} (hb : m.x 1 = t) (ht : t ∈ m.kernel.contexts)
    (hp : m.pushed = [(x₀, x₁)]) :
    run m [.pop 2 3, .stp 2 3 1 4, .mrs 2 .elr, .mrs 3 .spsr, .stp 2 3 1 36] =
      ({ m with
        x := Function.update (Function.update m.x 2 m.elr) 3 m.spsr
        pushed := [] } : Machine).setRow t (Function.update (Function.update (Function.update
          (Function.update (m.kernel.ctx t) 4 x₀) 5 x₁) 36 m.elr) 37 m.spsr) := by
  have hpop : exec m (.pop 2 3) = { m with
      x := Function.update (Function.update m.x 2 x₀) 3 x₁
      pushed := [] } := by
    simp [exec, Machine.setPair, Machine.stacked, hp]
  rw [run_cons, hpop, run_cons, exec_stp (by simpa using hb) (by exact ht), run_cons, run_cons,
    run_cons, run_nil, exec_stp (t := t) (by simpa [exec, Machine.setRow] using hb) (by exact ht)]
  simp [exec, Machine.setRow]
  funext i
  simp only [Function.update_apply]
  split_ifs <;> rfl

/-- The first part of the registers is stored as `enter` has it. -/
theorem vectorEntry_eq (ht : m.kernel.runnable = t) (hm : t ∈ m.kernel.contexts)
    (hp : m.pushed = []) : vectorEntry m = { m with
      x := fun i => if i = 0 then m.kernel.layout.core else if i = 1 then t
        else if i = 2 then m.elr else if i = 3 then m.spsr else m.x i
      kernel := enter m.kernel t m.regs } := by
  have h₁ : run m [.push 0 1, .peek 0 1] = { m with
      x := Function.update (Function.update m.x 0 m.kernel.layout.core) 1 t
      pushed := [(m.x 0, m.x 1)] } := by
    simp [exec, Machine.setPair, Machine.stacked, hp, ht]
  unfold vectorEntry saveCode
  rw [run_append, run_append, run_append, run_append, h₁,
    run_storePairs (t := t) (r := 2) (n := 1) (by simp) (by exact hm),
    run_saveMiddle (t := t) (by simp [Machine.setRow]) (by exact hm) (by rfl),
    run_storePairs (t := t) (r := 4) (n := 7) (by simp [Machine.setRow]) (by exact hm),
    run_cons, run_nil, exec_stp (t := t) (by simp [Machine.setRow]) (by exact hm)]
  simp only [Machine.setRow, withCtx_ctx, withCtx_withCtx, Function.update_self,
    Function.update_idem]
  have hx : Function.update (Function.update (Function.update (Function.update m.x 0
      m.kernel.layout.core) 1 t) 2 m.elr) 3 m.spsr = fun i => if i = 0 then m.kernel.layout.core
        else if i = 1 then t else if i = 2 then m.elr else if i = 3 then m.spsr else m.x i := by
    funext i
    simp only [Function.update_apply]
    grind
  rw [hx, hp, enter]
  congr 3
  funext w
  simp only [Function.update_apply, enteredRow, Machine.regs]
  grind

/-- The registers after the call, with x18 and x30 loaded again. -/
def afterCall (m : Machine) (k : Kernel) (t now : ℕ) (scratch : ℕ → ℕ) (i : ℕ) : ℕ :=
  if i = 0 then now else if i = 1 then t else if i = 18 then k.ctx t 22
  else if i = 30 then k.ctx t 23 else if 19 ≤ i ∧ i ≤ 29 then m.x i else scratch i

theorem exec_returned {k : Kernel} {now : ℕ} {scratch : ℕ → ℕ} (hb : m.x 1 = t)
    (ht : t ∈ k.contexts) : exec (returned m k now scratch) (.ldp 18 30 1 22) =
      { m with kernel := k, x := afterCall m k t now scratch } := by
  rw [exec_ldp (t := t) (by simpa [returned] using hb) (by exact ht)]
  simp only [Machine.setPair, returned]
  congr 1
  funext i
  simp only [Function.update_apply, afterCall]
  grind

/-- The end of both routines: the thread is the one that runs, and x0 is the last to go. -/
theorem run_last (hx : m.x 0 = t) (ht : t ∈ m.kernel.contexts) :
    run m [.strThread 0, .ldp 0 1 0 4] = { m with
      x := Function.update (Function.update m.x 0 (m.kernel.ctx t 4)) 1 (m.kernel.ctx t 5)
      kernel := { m.kernel with runnable := t } } := by
  rw [run_cons, run_cons, run_nil, exec_ldp (t := t) (by simpa [exec] using hx) (by exact ht)]
  simp [exec, Machine.setPair, hx]

/-- `el1_resume_thread`: the thread goes on. -/
theorem run_resume {k : Kernel} {scratch : ℕ → ℕ} (ht : t ∈ k.contexts) :
    run { m with kernel := k, x := afterCall m k t t scratch } resumeCode = { m with
      x := fun i => if i ≤ 18 then k.ctx t (4 + i) else if i = 30 then k.ctx t 23
        else if i ≤ 29 then m.x i else scratch i
      elr := k.ctx t 36
      spsr := k.ctx t 37
      kernel := { k with runnable := t } } := by
  have h₁ : run { m with kernel := k, x := afterCall m k t t scratch }
      [.ldp 2 3 0 36, .msr .elr 2, .msr .spsr 3] = { m with
        x := Function.update (Function.update (afterCall m k t t scratch) 2 (k.ctx t 36)) 3
          (k.ctx t 37)
        elr := k.ctx t 36
        spsr := k.ctx t 37
        kernel := k } := by
    rw [run_cons, exec_ldp (t := t) (by rfl) (by exact ht)]
    simp [exec, Machine.setPair]
  unfold resumeCode
  rw [run_append, run_append, h₁, run_loadPairs (t := t) (by decide) (by simp [afterCall])
    (by exact ht), run_last (t := t) (by simp [afterCall]) (by exact ht)]
  congr 1
  funext i
  simp only [Function.update_apply, afterCall]
  grind

/-- The rest of the registers is stored as `leave` has it. -/
def leftKernel (m : Machine) (k : Kernel) (t : ℕ) : Kernel :=
  k.withCtx (Function.update k.ctx t (leftRow m.regs k.spEl0 (k.ctx t)))

theorem run_rest {k : Kernel} {now : ℕ} {scratch : ℕ → ℕ} (ht : t ∈ k.contexts) :
    run { m with kernel := k, x := afterCall m k t now scratch } restCode = { m with
      x := Function.update (afterCall m k t now scratch) 29 k.spEl0
      kernel := leftKernel m k t } := by
  unfold restCode
  rw [run_append, run_storePairs (t := t) (by simp [afterCall]) (by exact ht), run_cons, run_cons,
    run_nil, exec_stp (t := t) (by simp [exec, Machine.setRow, afterCall]) (by exact ht)]
  simp only [exec, Machine.setRow, withCtx_ctx, withCtx_withCtx, withCtx_spEl0,
    Function.update_self, Function.update_idem, leftKernel]
  congr 3
  funext w
  simp only [Function.update_apply, afterCall, leftRow, Machine.regs]
  grind

/-- `el1_enter_thread`: the registers of the other thread are loaded. -/
theorem run_enter {now : ℕ} (hx : m.x 0 = now) (hn : now ∈ m.kernel.contexts) :
    run m enterCode = { m with
      x := fun i => if i ≤ 30 then m.kernel.ctx now (4 + i) else m.x i
      kernel := { m.kernel with runnable := now, spEl0 := m.kernel.ctx now 35 } } := by
  have h₁ : run m [.ldp 30 29 0 34, .msr .spEl0 29] = { m with
      x := Function.update (Function.update m.x 30 (m.kernel.ctx now 34)) 29 (m.kernel.ctx now 35)
      kernel := { m.kernel with spEl0 := m.kernel.ctx now 35 } } := by
    rw [run_cons, exec_ldp (t := now) hx hn]
    simp [exec, Machine.setPair]
  unfold enterCode
  rw [run_append, run_append, h₁, run_loadPairs (t := now) (by decide) (by simpa using hx)
    (by exact hn), run_last (t := now) (by simpa using hx) (by exact hn)]
  congr 1
  funext i
  simp only [Function.update_apply]
  grind

end Parts

/-! ## The registers of a thread -/

/-- What EL0 code has of the registers. -/
inductive Reg where
  | x (i : Fin 31)
  | sp
  | pc
  | pstate
deriving Repr, DecidableEq

def Machine.user (m : Machine) : Reg → ℕ
  | .x i => m.x i
  | .sp => m.kernel.spEl0
  | .pc => m.elr
  | .pstate => m.spsr

/-- The word of the context that holds the register while another thread runs. -/
def Reg.word : Reg → ℕ
  | .x i => 4 + i
  | .sp => 35
  | .pc => 36
  | .pstate => 37

/-- The word that holds it while a handler works for the thread; x19 to x29 and the stack
pointer stay where they are. -/
def Reg.parked : Reg → Option ℕ
  | .x i => if i.1 ≤ 18 then some (4 + i) else if i.1 = 30 then some 23 else none
  | .sp => none
  | .pc => some 36
  | .pstate => some 37

/-- The register of the thread `t` when a handler has left the kernel `k`. -/
def held (m : Machine) (k : Kernel) (t : ℕ) (ρ : Reg) : ℕ :=
  match ρ.parked with
  | some w => k.ctx t w
  | none => if ρ = .sp then k.spEl0 else m.user ρ

/-- The thread `t` goes on, after a handler that left the kernel `k`. -/
structure Resumed (m m' : Machine) (k : Kernel) (t : ℕ) : Prop where
  kernel : m'.kernel = k
  pushed : m'.pushed = m.pushed
  regs : ∀ ρ, m'.user ρ = held m k t ρ

/-- The thread `t` is left, and `now` goes on. -/
structure Switched (m m' : Machine) (k : Kernel) (t now : ℕ) : Prop where
  kernel : m'.kernel = { leftKernel m k t with spEl0 := k.ctx now 35 }
  pushed : m'.pushed = m.pushed
  regs : ∀ ρ, ρ ≠ .pstate → m'.user ρ = k.ctx now ρ.word
  pstate : m'.user .pstate = field 0 32 (k.ctx now 37)

section Exits

variable {m m' : Machine} {t now : ℕ} {k : Kernel} {e : Event} {scratch : ℕ → ℕ}

theorem leftKernel_other {p w : ℕ} (h : p ≠ t ∨ w < 23 ∨ 36 ≤ w) :
    (leftKernel m k t).ctx p w = k.ctx p w := by
  unfold leftKernel
  rw [withCtx_ctx]
  by_cases hp : p = t
  · subst hp
    rw [Function.update_self, leftRow, if_neg (by omega), if_neg (by omega), if_neg (by omega)]
  · rw [Function.update_of_ne hp]

theorem vectorExit_resume (hb : m.x 1 = t) (ht : t ∈ k.contexts) (hr : k.runnable = t) :
    ∃ m', vectorExit m k t scratch = .eret m' ∧ Resumed m m' k t := by
  have hk : ({ k with runnable := t } : Kernel) = k := by rw [← hr]
  unfold vectorExit
  rw [exec_returned hb ht]
  simp only [afterCall, if_true, one_ne_zero, if_false]
  rw [run_resume ht, hk]
  refine ⟨_, rfl, rfl, rfl, fun ρ => ?_⟩
  cases ρ with
  | x i =>
    have hi := i.2
    simp only [Machine.user, held, Reg.parked, reduceCtorEq, if_false]
    grind
  | sp => rfl
  | pc => rfl
  | pstate => rfl

/-- The words of the thread that was left. -/
theorem leftKernel_word (ρ : Reg) : (leftKernel m k t).ctx t ρ.word = held m k t ρ := by
  simp only [leftKernel, withCtx_ctx, Function.update_self]
  cases ρ with
  | x i =>
    have hi := i.2
    simp only [Machine.user, held, Reg.parked, Reg.word, leftRow, Machine.regs, reduceCtorEq,
      if_false]
    grind
  | sp => rfl
  | pc => rfl
  | pstate => rfl

/-- Another thread is to run: it is entered, or left to EL3. -/
theorem vectorExit_switch (hb : m.x 1 = t) (ht : t ∈ k.contexts) (hne : now ≠ t)
    (hr : k.runnable = now) : (∃ n m', vectorExit m k now scratch = .smc n m' ∧
        -- a thread of a virtual machine: EL3 is to run it
        m'.kernel = leftKernel m k t ∧ m'.pushed = m.pushed) ∨
      ∃ m', vectorExit m k now scratch = .eret m' ∧
        (now ∈ k.contexts → Switched m m' k t now) := by
  have hkr : (leftKernel m k t).runnable = now := hr
  have hexit : vectorExit m k now scratch = enterThread { m with
      x := Function.update (afterCall m k t now scratch) 29 k.spEl0
      kernel := leftKernel m k t } := by
    unfold vectorExit
    rw [exec_returned hb ht]
    simp only [afterCall, if_true, one_ne_zero, if_false, hne]
    rw [run_rest ht]
  rw [hexit]
  unfold enterThread
  have hx0 : Function.update (afterCall m k t now scratch) 29 k.spEl0 0 = now := by
    simp [afterCall]
  simp only [hx0]
  split
  · left
    split
    · exact ⟨_, _, rfl, rfl, rfl⟩
    · split
      · exact ⟨_, _, rfl, rfl, rfl⟩
      · split
        · exact ⟨_, _, rfl, rfl, rfl⟩
        · exact ⟨_, _, rfl, rfl, rfl⟩
  · right
    refine ⟨_, rfl, fun hn => ?_⟩
    have hother : ∀ w, (leftKernel m k t).ctx now w = k.ctx now w := fun w =>
      leftKernel_other (.inl hne)
    have hn' : now ∈ (leftKernel m k t).contexts := hn
    rw [run_enter hx0 hn']
    refine ⟨?_, rfl, ?_, ?_⟩
    · simp only [hother]
      rw [← hkr]
    · intro ρ hρ
      cases ρ with
      | x i =>
        have hi : i.1 ≤ 30 := by omega
        simp only [Machine.user, hi, if_true, hother, Reg.word]
      | sp => exact hother 35
      | pc =>
        simp only [Machine.user, Kernel.pc]
        rw [fld_of_mem hn', hother]
        rfl
      | pstate => exact absurd rfl hρ
    · simp only [Machine.user]
      rw [spsr_of_mem hn', hother]

/-! ## A whole exception -/

variable (ht : m.kernel.runnable = t) (hm : t ∈ m.kernel.contexts) (hp : m.pushed = [])

include ht hm hp

theorem vector_eq : vector m e scratch =
    match handle (enter m.kernel t m.regs) t e with
    | .halt k => .halt k
    | .ok k now => vectorExit (vectorEntry m) k now scratch := by
  unfold vector
  rw [vectorEntry_eq ht hm hp]
  rfl

/-- The registers that a C function keeps are still those of the exception. -/
theorem vectorEntry_kept {i : ℕ} (hi : 4 ≤ i) : (vectorEntry m).x i = m.x i := by
  rw [vectorEntry_eq ht hm hp]
  simp only
  rw [if_neg (by omega), if_neg (by omega), if_neg (by omega), if_neg (by omega)]

theorem held_entry (ρ : Reg) : held (vectorEntry m) k t ρ = held m k t ρ := by
  have hkept : ∀ i : ℕ, 4 ≤ i → (vectorEntry m).x i = m.x i := fun i hi =>
    vectorEntry_kept ht hm hp hi
  generalize vectorEntry m = m₁ at hkept
  unfold held
  cases hw : ρ.parked with
  | some w => rfl
  | none =>
    simp only
    split
    · rfl
    · rename_i hsp
      cases ρ with
      | x i =>
        simp only [Reg.parked] at hw
        exact hkept i (by grind)
      | sp => exact absurd rfl hsp
      | pc => cases hw
      | pstate => cases hw

theorem leftKernel_entry : leftKernel (vectorEntry m) k t = leftKernel m k t := by
  have hrow : leftRow (vectorEntry m).regs k.spEl0 (k.ctx t) =
      leftRow m.regs k.spEl0 (k.ctx t) := by
    funext w
    unfold leftRow
    split
    · simp only [Machine.regs]
      rw [vectorEntry_kept ht hm hp (by omega)]
    · rfl
  unfold leftKernel
  rw [hrow]

theorem vectorEntry_pushed : (vectorEntry m).pushed = m.pushed ∧ (vectorEntry m).x 1 = t := by
  rw [vectorEntry_eq ht hm hp]
  exact ⟨rfl, rfl⟩

/-- The handler has returned: the same thread goes on, another one does, or EL3 takes over. -/
theorem vector_cases (hh : handle (enter m.kernel t m.regs) t e = .ok k now) :
    (∃ m', vector m e scratch = .eret m' ∧ now = t ∧ Resumed m m' k t) ∨
      (∃ m', vector m e scratch = .eret m' ∧ now ≠ t ∧
        (now ∈ k.contexts → Switched m m' k t now)) ∨
      ∃ n m', vector m e scratch = .smc n m' ∧ now ≠ t ∧ m'.kernel = leftKernel m k t := by
  have hv : vector m e scratch = vectorExit (vectorEntry m) k now scratch := by
    rw [vector_eq ht hm hp, hh]
  have hr := handle_runnable hh
  have hm₁ := handle_mem hh (p := t) hm
  obtain ⟨hpe, hxe⟩ := vectorEntry_pushed ht hm hp
  rw [hv]
  by_cases hne : now = t
  · subst hne
    left
    obtain ⟨m', hex, hres⟩ := vectorExit_resume hxe hm₁ hr
    refine ⟨m', hex, rfl, hres.kernel, hres.pushed.trans hpe, fun ρ => ?_⟩
    rw [hres.regs, held_entry ht hm hp]
  · right
    rcases vectorExit_switch hxe hm₁ hne hr with ⟨c, m', hex, hk, -⟩ | ⟨m', hex, hs⟩
    · right
      exact ⟨c, m', hex, hne, hk.trans (leftKernel_entry ht hm hp)⟩
    · left
      refine ⟨m', hex, hne, fun hn => ?_⟩
      have hsw := hs hn
      exact ⟨by rw [hsw.kernel, leftKernel_entry ht hm hp], hsw.pushed.trans hpe, hsw.regs,
        hsw.pstate⟩

/-- The vector code around a handler is a step of the kernel. -/
theorem vector_kernelStep {k' : Kernel} (h : kernelStep m.kernel m.regs e = .ok k' now)
    (hn : now ∈ k'.contexts) (hv : vector m e scratch = .eret m') : m'.kernel = k' := by
  unfold kernelStep at h
  rw [ht] at h
  cases hh : handle (enter m.kernel t m.regs) t e with
  | halt k₁ =>
    simp only [hh] at h
    cases h
  | ok k₁ n =>
    simp only [hh] at h
    obtain ⟨rfl, rfl⟩ := Outcome.ok.inj h
    have hcon : (leave k₁ t n m.regs).contexts = k₁.contexts := by
      unfold leave
      split
      · rfl
      · rfl
    rw [hcon] at hn
    rcases vector_cases ht hm hp hh with ⟨m₁, hex, hnt, hres⟩ | ⟨m₁, hex, hnt, hs⟩ | ⟨c, m₁, hex, -⟩
    · obtain rfl := Exit.eret.inj (hv.symm.trans hex)
      rw [hres.kernel, leave, if_pos hnt]
    · obtain rfl := Exit.eret.inj (hv.symm.trans hex)
      have hother : (leftKernel m k₁ t).ctx n 35 = k₁.ctx n 35 := leftKernel_other (.inl hnt)
      rw [(hs hn).kernel, leave, if_neg hnt]
      simp only
      rw [fld_of_mem (by exact hn)]
      exact congrArg (fun v => ({ leftKernel m k₁ t with spEl0 := v } : Kernel)) hother.symm
    · rw [hv] at hex
      cases hex

end Exits

/-! ## Runs -/

/-- A core between two exceptions, with what is known of its threads. -/
structure Watched where
  machine : Machine
  /-- a thread runs at EL0; otherwise EL3 has a virtual machine run -/
  atEl0 : Bool
  /-- the registers at the last exception of a thread -/
  last : ℕ → Option (Reg → ℕ)
  /-- the registers that have been assigned since -/
  assigned : ℕ → Reg → Prop

/-- The thread that runs. -/
def Watched.running (s : Watched) : ℕ := s.machine.kernel.runnable

/-- `m` is the core at the next exception. EL0 code has any registers and its own memory;
EL3 and EL2 also store in the contexts. -/
structure Between (s : Watched) (m : Machine) : Prop where
  pushed : m.pushed = []
  /-- SPSR_EL1 fits in 32 bits -/
  spsr : m.spsr < 2 ^ 32
  contexts : m.kernel.contexts = s.machine.kernel.contexts
  runnable : m.kernel.runnable = s.running
  ctx : s.atEl0 = true → m.kernel.ctx = s.machine.kernel.ctx

/-- The registers assigned in a step: the handler turned `k` into `k'` for the thread `t`,
from registers `m` at the exception. `setsSp` are the events whose handlers set SP_EL0. -/
def Watched.assignedAfter (s : Watched) (setsSp : Event → Prop) (m : Machine) (e : Event)
    (k k' : Kernel) (p : ℕ) (ρ : Reg) : Prop :=
  if p = s.running then
    ρ = .sp ∧ setsSp e ∨ ∃ w, ρ.parked = some w ∧ k'.ctx p w ≠ k.ctx p w
  else
    s.assigned p ρ ∨ m.kernel.ctx p ρ.word ≠ s.machine.kernel.ctx p ρ.word ∨
      k'.ctx p ρ.word ≠ k.ctx p ρ.word

/-- The core after an exception from the registers `m`, left as `m'`. -/
def Watched.after (s : Watched) (setsSp : Event → Prop) (m : Machine) (e : Event) (k : Kernel)
    (m' : Machine) (atEl0 : Bool) : Watched where
  machine := m'
  atEl0 := atEl0
  last := Function.update s.last s.running (some m.user)
  assigned := s.assignedAfter setsSp m e (enter m.kernel s.running m.regs) k

/-- An exception, and the switch to the thread that the handler chose. -/
inductive SwitchStep (setsSp : Event → Prop) (s : Watched) : Event → Watched → Prop
  | eret {m m' : Machine} {e : Event} {scratch : ℕ → ℕ} {k : Kernel} {now : ℕ} :
      Between s m →
      handle (enter m.kernel s.running m.regs) s.running e = .ok k now → now ∈ k.contexts →
      vector m e scratch = .eret m' →
      SwitchStep setsSp s e (s.after setsSp m e k m' true)
  | smc {m m' : Machine} {e : Event} {scratch : ℕ → ℕ} {k : Kernel} {now n : ℕ} :
      Between s m →
      handle (enter m.kernel s.running m.regs) s.running e = .ok k now → now ∈ k.contexts →
      vector m e scratch = .smc n m' →
      SwitchStep setsSp s e (s.after setsSp m e k m' false)

/-- The runs begin with any thread at EL0. -/
def switchSystem (setsSp : Event → Prop) : System Watched Event where
  init s := s.running ∈ s.machine.kernel.contexts ∧ s.atEl0 = true ∧ s.last = fun _ => none
  step := SwitchStep setsSp

/-- The running thread has the registers of its last exception, but for those assigned. -/
def Watched.Kept (s : Watched) : Prop :=
  s.atEl0 = true → ∀ regs, s.last s.running = some regs →
    ∀ ρ, ¬ s.assigned s.running ρ → s.machine.user ρ = regs ρ

/-- And the contexts of the others hold theirs. -/
structure Watched.Inv (s : Watched) : Prop where
  running : s.running ∈ s.machine.kernel.contexts
  kept : s.Kept
  pstate : ∀ p regs, s.last p = some regs → regs .pstate < 2 ^ 32
  suspended : ∀ p regs, s.last p = some regs → p ≠ s.running ∨ s.atEl0 = false →
    ∀ ρ, ¬ s.assigned p ρ → s.machine.kernel.ctx p ρ.word = regs ρ

@[simp] theorem after_running (s : Watched) (setsSp : Event → Prop) (m : Machine) (e : Event)
    (k : Kernel) (m' : Machine) (b : Bool) :
    (s.after setsSp m e k m' b).running = m'.kernel.runnable := rfl

@[simp] theorem after_last (s : Watched) (setsSp : Event → Prop) (m : Machine) (e : Event)
    (k : Kernel) (m' : Machine) (b : Bool) : (s.after setsSp m e k m' b).last =
      Function.update s.last s.running (some m.user) := rfl

@[simp] theorem after_assigned (s : Watched) (setsSp : Event → Prop) (m : Machine) (e : Event)
    (k : Kernel) (m' : Machine) (b : Bool) : (s.after setsSp m e k m' b).assigned =
      s.assignedAfter setsSp m e (enter m.kernel s.running m.regs) k := rfl

section Kept

variable {s s' : Watched} {m m' : Machine} {t now : ℕ} {k : Kernel} {e : Event}

/-- The handler finds the registers of the exception. -/
theorem enter_parked {ρ : Reg} {w : ℕ} (h : ρ.parked = some w) :
    (enter m.kernel t m.regs).ctx t w = m.user ρ := by
  show Function.update m.kernel.ctx t _ t w = m.user ρ
  rw [Function.update_self]
  cases ρ with
  | x i =>
    simp only [Reg.parked] at h
    simp only [enteredRow, Machine.regs, Machine.user]
    grind
  | sp => cases h
  | pc =>
    cases h
    rfl
  | pstate =>
    cases h
    rfl

/-- After the handler the thread that entered has its registers still. -/
theorem held_of_not_assigned {ρ : Reg}
    (hh : handle (enter m.kernel s.running m.regs) s.running e = .ok k now)
    (ha : ¬ s.assignedAfter (fun e => e.isReturn = true) m e
      (enter m.kernel s.running m.regs) k s.running ρ) :
    held m k s.running ρ = m.user ρ := by
  simp only [Watched.assignedAfter, if_true, not_or, not_and, not_exists, not_not,
    Bool.not_eq_true] at ha
  unfold held
  cases hw : ρ.parked with
  | some w =>
    simp only
    rw [ha.2 w hw, enter_parked hw]
  | none =>
    simp only
    split
    · rename_i hsp
      subst hsp
      exact (handle_grows (ha.1 rfl) hh).spEl0
    · rfl

/-- And so have the others. -/
theorem suspended_of_not_assigned {setsSp : Event → Prop} {p : ℕ} {ρ : Reg} {regs : Reg → ℕ}
    (hinv : s.Inv) (hp : p ≠ s.running) (hl : s.last p = some regs)
    (ha : ¬ s.assignedAfter setsSp m e (enter m.kernel s.running m.regs) k p ρ) :
    k.ctx p ρ.word = regs ρ := by
  simp only [Watched.assignedAfter, if_neg hp, not_or, not_not] at ha
  calc k.ctx p ρ.word = (enter m.kernel s.running m.regs).ctx p ρ.word := ha.2.2
    _ = m.kernel.ctx p ρ.word := (enter_entered m.kernel s.running m.regs).others p ρ.word hp
    _ = s.machine.kernel.ctx p ρ.word := ha.2.1
    _ = regs ρ := hinv.suspended p regs hl (.inl hp) ρ ha.1

/-- What is known of the threads after the handler, whichever of them runs next. -/
theorem last_pstate (hinv : s.Inv) (hb : Between s m) {p : ℕ} {regs : Reg → ℕ}
    (hl : Function.update s.last s.running (some m.user) p = some regs) :
    regs .pstate < 2 ^ 32 := by
  by_cases hp : p = s.running
  · subst hp
    rw [Function.update_self] at hl
    obtain rfl := Option.some.inj hl
    exact hb.spsr
  · rw [Function.update_of_ne hp] at hl
    exact hinv.pstate p regs hl

/-- The words of a thread that does not go on, when another one does. -/
theorem left_of_not_assigned (hinv : s.Inv)
    (hh : handle (enter m.kernel s.running m.regs) s.running e = .ok k now) {p : ℕ} {ρ : Reg}
    {regs : Reg → ℕ} (hl : Function.update s.last s.running (some m.user) p = some regs)
    (ha : ¬ s.assignedAfter (fun e => e.isReturn = true) m e
      (enter m.kernel s.running m.regs) k p ρ) :
    (leftKernel m k s.running).ctx p ρ.word = regs ρ := by
  by_cases hp : p = s.running
  · subst hp
    rw [Function.update_self] at hl
    obtain rfl := Option.some.inj hl
    rw [leftKernel_word, held_of_not_assigned hh ha]
  · rw [Function.update_of_ne hp] at hl
    rw [leftKernel_other (.inl hp)]
    exact suspended_of_not_assigned hinv hp hl ha

theorem switchStep_inv (hinv : s.Inv) (h : SwitchStep (fun e => e.isReturn = true) s e s') :
    s'.Inv := by
  cases h with
  | @eret m m' _ scratch k now hb hh hn hv =>
    have hmem : s.running ∈ m.kernel.contexts := hb.contexts ▸ hinv.running
    have hr := handle_runnable hh
    rcases vector_cases hb.runnable hmem hb.pushed hh with
      ⟨m₁, hex, hnt, hres⟩ | ⟨m₁, hex, hnt, hs⟩ | ⟨c, m₁, hex, -⟩
    · -- back to the thread that made the call
      obtain rfl := Exit.eret.inj (hv.symm.trans hex)
      have hrun : m'.kernel.runnable = s.running := by rw [hres.kernel, hr, hnt]
      refine ⟨?_, ?_, fun p regs hl => last_pstate hinv hb hl, ?_⟩
      · show m'.kernel.runnable ∈ m'.kernel.contexts
        rw [hres.kernel, hr]
        exact hn
      · intro _ regs hl ρ ha
        rw [after_running, hrun, after_last] at hl
        rw [after_running, hrun, after_assigned] at ha
        rw [Function.update_self] at hl
        obtain rfl := Option.some.inj hl
        exact (hres.regs ρ).trans (held_of_not_assigned hh ha)
      · -- the other threads: their contexts are as the call left them
        intro p regs hl hp ρ ha
        have hp' : p ≠ s.running := by
          rcases hp with hp | hp
          · rwa [after_running, hrun] at hp
          · cases hp
        rw [after_assigned] at ha
        rw [after_last, Function.update_of_ne hp'] at hl
        show m'.kernel.ctx p ρ.word = regs ρ
        rw [hres.kernel]
        exact suspended_of_not_assigned hinv hp' hl ha
    · -- to another thread: its registers come from its context
      obtain rfl := Exit.eret.inj (hv.symm.trans hex)
      have hsw := hs hn
      have hrun : m'.kernel.runnable = now := by
        rw [hsw.kernel]
        exact hr
      have hctx : m'.kernel.ctx = (leftKernel m k s.running).ctx := by rw [hsw.kernel]
      refine ⟨?_, ?_, fun p regs hl => last_pstate hinv hb hl, ?_⟩
      · show m'.kernel.runnable ∈ m'.kernel.contexts
        rw [hrun, hsw.kernel]
        exact hn
      · intro _ regs hl ρ ha
        rw [after_running, hrun, after_last] at hl
        rw [after_running, hrun, after_assigned] at ha
        -- the flags come back through a field of 32 bits, the rest as they are
        have hps := last_pstate hinv hb hl
        have hreg := left_of_not_assigned hinv hh hl ha
        rw [leftKernel_other (.inl hnt)] at hreg
        by_cases hρ : ρ = .pstate
        · subst hρ
          refine hsw.pstate.trans ?_
          rw [show (37 : ℕ) = Reg.word .pstate from rfl, hreg, field, pow_zero, Nat.div_one,
            Nat.mod_eq_of_lt hps]
        · exact (hsw.regs ρ hρ).trans hreg
      · intro p regs hl _ ρ ha
        show m'.kernel.ctx p ρ.word = regs ρ
        rw [hctx]
        exact left_of_not_assigned hinv hh hl ha
    · rw [hv] at hex
      cases hex
  | @smc m m' _ scratch k now n hb hh hn hv =>
    have hmem : s.running ∈ m.kernel.contexts := hb.contexts ▸ hinv.running
    have hr := handle_runnable hh
    rcases vector_cases hb.runnable hmem hb.pushed hh with
      ⟨m₁, hex, -⟩ | ⟨m₁, hex, -⟩ | ⟨c, m₁, hex, hnt, hk⟩
    · rw [hv] at hex
      cases hex
    · rw [hv] at hex
      cases hex
    · -- to the other world: every thread is suspended
      obtain ⟨rfl, rfl⟩ := Exit.smc.inj (hv.symm.trans hex)
      refine ⟨?_, ?_, fun p regs hl => last_pstate hinv hb hl, ?_⟩
      · show m'.kernel.runnable ∈ m'.kernel.contexts
        rw [hk]
        exact hr ▸ hn
      · intro hat
        cases hat
      · intro p regs hl _ ρ ha
        show m'.kernel.ctx p ρ.word = regs ρ
        rw [hk]
        exact left_of_not_assigned hinv hh hl ha

theorem switchSystem_inv (h : (switchSystem fun e => e.isReturn = true).Reachable s) : s.Inv := by
  refine h.invariant ?_ fun s e s' hinv hs => switchStep_inv hinv hs
  rintro s ⟨hrun, -, hl⟩
  refine ⟨hrun, ?_, ?_, ?_⟩
  · intro _ regs hr
    rw [hl] at hr
    cases hr
  · intro p regs hr
    rw [hl] at hr
    cases hr
  · intro p regs hr
    rw [hl] at hr
    cases hr

/-! ## The other fields -/

/-- The kernel that is left. -/
def Exit.kernel : Exit → Kernel
  | .halt k => k
  | .eret m => m.kernel
  | .smc _ m => m.kernel

/-- The instruction stores in a context. -/
def Instr.isStore : Instr → Bool
  | .stp .. => true
  | _ => false

theorem exec_ctx {i : Instr} (h : i.isStore = false) : (exec m i).kernel.ctx = m.kernel.ctx := by
  cases i with
  | stp a b base w => cases h
  | ldp a b base w => rfl
  | push a b => rfl
  | peek a b => rfl
  | pop a b => rfl
  | strThread a => rfl
  | mrs a r => cases r <;> rfl
  | msr r a => cases r <;> rfl

theorem run_ctx {code : List Instr} (h : ∀ i ∈ code, i.isStore = false) :
    (run m code).kernel.ctx = m.kernel.ctx := by
  induction code generalizing m with
  | nil => rfl
  | cons i code ih =>
    rw [run_cons, ih fun j hj => h j (List.mem_cons_of_mem i hj),
      exec_ctx (h i List.mem_cons_self)]

/-- Restoring a context stores in none; the rest of the registers is stored where `leave` has
it, whatever thread is to run. -/
theorem vectorExit_other {scratch : ℕ → ℕ} {p w : ℕ} (hb : m.x 1 = t) (ht : t ∈ k.contexts)
    (h : p ≠ t ∨ w < 23 ∨ 36 ≤ w) : (vectorExit m k now scratch).kernel.ctx p w = k.ctx p w := by
  unfold vectorExit
  rw [exec_returned hb ht]
  simp only
  split
  · show (run _ resumeCode).kernel.ctx p w = k.ctx p w
    rw [run_ctx (by decide)]
  · rw [run_rest ht]
    unfold enterThread
    simp only
    split
    · split
      · exact leftKernel_other h
      · split
        · exact leftKernel_other h
        · split
          · exact leftKernel_other h
          · exact leftKernel_other h
    · show (run _ enterCode).kernel.ctx p w = k.ctx p w
      rw [run_ctx (by decide)]
      exact leftKernel_other h

/-- A word of a context that is none of the running thread's registers. -/
def OtherField (s : Watched) (p w : ℕ) : Prop := p ≠ s.running ∨ w < 4 ∨ 38 ≤ w

/-- A thread finds the registers of its last exception, but for those that a handler assigned
in its context, and for the stack pointer after `ISAMBARD_RETURN`. Saving and restoring
changes no other word of any context. -/
theorem switch_keeps (h : (switchSystem fun e => e.isReturn = true).Reachable s) :
    s.Kept ∧ ∀ m, Between s m → ∀ p w, OtherField s p w →
      (vectorEntry m).kernel.ctx p w = m.kernel.ctx p w ∧
        ∀ k now scratch, s.running ∈ k.contexts →
          (vectorExit (vectorEntry m) k now scratch).kernel.ctx p w = k.ctx p w := by
  have hinv := switchSystem_inv h
  refine ⟨hinv.kept, fun m hb p w hother => ?_⟩
  have hmem : s.running ∈ m.kernel.contexts := hb.contexts ▸ hinv.running
  have hother' : p ≠ s.running ∨ w < 23 ∨ 36 ≤ w := by
    unfold OtherField at hother
    omega
  refine ⟨?_, fun k now scratch hk => ?_⟩
  · rw [vectorEntry_eq hb.runnable hmem hb.pushed]
    rcases hother with hp | hw
    · exact (enter_entered m.kernel s.running m.regs).others p w hp
    · exact (enter_entered m.kernel s.running m.regs).words p w (by omega)
  · exact vectorExit_other (vectorEntry_pushed hb.runnable hmem hb.pushed).2 hk hother'

end Kept

/-! ## Two threads -/

def firstThread : ℕ := startAddress + 0x1ffe00
def secondThread : ℕ := startAddress + 0x1ffc00

/-- Two threads of map 3 in a ring; the first one runs. -/
def twoThreads : Kernel :=
  { Kernel.boot with
    contexts := [secondThread, firstThread]
    heapBottom := 0x1ffc00
    runnable := firstThread
    loadedMap := 3
    spEl0 := 0x8000
    ctx := fun p w =>
      if w = 0 ∨ w = 1 then if p = firstThread then secondThread else firstThread
      else if w = 39 then 3 * 2 ^ 32
      else 0 }

/-- What the kernel does when the running thread yields. -/
def yielding (m : Machine) : Outcome ℕ :=
  handle (enter m.kernel m.kernel.runnable m.regs) m.kernel.runnable (.svc 0xf008)

/-- The core after the yield. -/
def afterYield (m : Machine) : Machine :=
  match vector m (.svc 0xf008) fun _ => 0 with
  | .eret m' => m'
  | .halt _ | .smc _ _ => m

def Exit.isEret : Exit → Bool
  | .eret _ => true
  | .halt _ | .smc _ _ => false

/-- The yield gives way to another thread. -/
structure Yields (m : Machine) : Prop where
  ok : (yielding m).isOk = true
  created : (yielding m).now ∈ (yielding m).kernel.contexts
  eret : (vector m (.svc 0xf008) fun _ => 0).isEret = true

instance (m : Machine) : Decidable (Yields m) :=
  decidable_of_iff ((yielding m).isOk = true ∧ (yielding m).now ∈ (yielding m).kernel.contexts ∧
      (vector m (.svc 0xf008) fun _ => 0).isEret = true)
    ⟨fun ⟨h₁, h₂, h₃⟩ => ⟨h₁, h₂, h₃⟩, fun ⟨h₁, h₂, h₃⟩ => ⟨h₁, h₂, h₃⟩⟩

theorem Yields.step {s : Watched} {m : Machine} {setsSp : Event → Prop} (h : Yields m)
    (hb : Between s m) : SwitchStep setsSp s (.svc 0xf008)
      (s.after setsSp m (.svc 0xf008) (yielding m).kernel (afterYield m) true) := by
  have hok := Outcome.eq_ok_now h.ok
  have hv : vector m (.svc 0xf008) (fun _ => 0) = .eret (afterYield m) := by
    have heret := h.eret
    unfold afterYield
    cases hx : vector m (.svc 0xf008) fun _ => 0 with
    | eret m' => rfl
    | halt k =>
      rw [hx] at heret
      cases heret
    | smc n m' =>
      rw [hx] at heret
      cases heret
  unfold yielding at hok
  rw [hb.runnable] at hok
  have hcreated := h.created
  unfold yielding at hcreated
  rw [hb.runnable] at hcreated
  have hstep : SwitchStep setsSp s _ _ := .eret hb hok hcreated hv
  unfold yielding
  rw [hb.runnable]
  exact hstep

/-- A thread uses its registers. -/
def Machine.used (m : Machine) (x : ℕ → ℕ) (pc : ℕ) : Machine :=
  { m with x := x, elr := pc, spsr := 0 }

theorem between_used {s : Watched} {setsSp : Event → Prop} {m m' : Machine} {e : Event}
    {k : Kernel} (x : ℕ → ℕ) (pc : ℕ) (h : m'.pushed = []) :
    Between (s.after setsSp m e k m' true) (m'.used x pc) :=
  ⟨h, Nat.two_pow_pos 32, rfl, rfl, fun _ => rfl⟩

/-- The core when the first thread yields: its x1 is 101, and so on. -/
def firstYield : Machine := ⟨fun i => 100 + i, 0x2000, 0, [], twoThreads⟩

/-- And then the second one, which has used the same registers. -/
def secondYield : Machine := (afterYield firstYield).used (fun i => 200 + i) 0x3000

def beforeYields : Watched := ⟨firstYield, true, fun _ => none, fun _ _ => False⟩

def betweenYields : Watched :=
  beforeYields.after (fun e => e.isReturn = true) firstYield (.svc 0xf008)
    (yielding firstYield).kernel (afterYield firstYield) true

def afterYields : Watched :=
  betweenYields.after (fun e => e.isReturn = true) secondYield (.svc 0xf008)
    (yielding secondYield).kernel (afterYield secondYield) true

/-- What the two switches do. -/
structure YieldRun : Prop where
  first : Yields firstYield
  second : Yields secondYield
  runs : betweenYields.running = secondThread
  pushed : (afterYield firstYield).pushed = []
  back : afterYields.running = firstThread
  /-- a yield stores its result in x0 -/
  kept : ∀ i : Fin 31, i ≠ 0 → ∀ w, (Reg.x i).parked = some w →
    (yielding firstYield).kernel.ctx firstThread w =
      (enter twoThreads firstThread firstYield.regs).ctx firstThread w
  others : ∀ i : Fin 31, (yielding secondYield).kernel.ctx firstThread (Reg.x i).word =
    (enter secondYield.kernel secondThread secondYield.regs).ctx firstThread (Reg.x i).word

theorem yieldRun : YieldRun := by
  have hfacts : (Yields firstYield ∧ Yields secondYield) ∧
      betweenYields.running = secondThread ∧ (afterYield firstYield).pushed = [] ∧
      afterYields.running = firstThread ∧
      (∀ i : Fin 31, i ≠ 0 → ∀ w ∈ (Reg.x i).parked,
        (yielding firstYield).kernel.ctx firstThread w =
          (enter twoThreads firstThread firstYield.regs).ctx firstThread w) ∧
      ∀ i : Fin 31, (yielding secondYield).kernel.ctx firstThread (Reg.x i).word =
        (enter secondYield.kernel secondThread secondYield.regs).ctx firstThread
          (Reg.x i).word := by
    decide +kernel
  rcases hfacts with ⟨⟨h₁, h₂⟩, h₃, h₄, h₅, h₆, h₇⟩
  exact ⟨h₁, h₂, h₃, h₄, h₅, h₆, h₇⟩

/-- When the first thread runs again, it has all its registers but x0. -/
theorem switch_keeps_yields : afterYields.running = firstThread ∧
    ∀ i : Fin 31, i ≠ 0 → afterYields.machine.user (.x i) = 100 + i := by
  have hr := yieldRun
  have hinit : (switchSystem fun e => e.isReturn = true).Reachable beforeYields :=
    .init ⟨by decide, rfl, rfl⟩
  have hb₁ : Between beforeYields firstYield := ⟨rfl, by decide, rfl, rfl, fun _ => rfl⟩
  have hb₂ : Between betweenYields secondYield := between_used _ _ hr.pushed
  have hreach : (switchSystem fun e => e.isReturn = true).Reachable afterYields :=
    .step (.step hinit (hr.first.step hb₁)) (hr.second.step hb₂)
  have hne : firstThread ≠ secondThread := by decide
  refine ⟨hr.back, fun i hi => ?_⟩
  refine (switch_keeps hreach).1 rfl firstYield.user ?_ (.x i) ?_
  · have hlast : betweenYields.last firstThread = some firstYield.user := by
      have hfirst : beforeYields.running = firstThread := rfl
      rw [betweenYields, after_last, hfirst, Function.update_self]
    rw [hr.back, afterYields, after_last, hr.runs, Function.update_of_ne hne, hlast]
  · -- neither the yield of the thread nor that of the other one assigned the register
    rw [hr.back, afterYields, after_assigned, Watched.assignedAfter, hr.runs, if_neg hne]
    rintro (hassigned | hctx | hctx)
    · rcases hassigned with ⟨hsp, -⟩ | ⟨w, hw, hctx⟩
      · cases hsp
      · exact hctx (hr.kept i hi w hw)
    · exact hctx rfl
    · exact hctx (hr.others i)

/-! ## The stack pointer after a return -/

/-- A thread of map 3 in a call from its own map. -/
def callee : Kernel :=
  { Kernel.boot with
    contexts := [startAddress + 0x1ffe00]
    heapBottom := 0x1ffe00
    runnable := startAddress + 0x1ffe00
    loadedMap := 3
    spEl0 := 0x8000
    ctx := fun p w =>
      if w = 0 ∨ w = 1 then p
      else if w = 39 then 3 * 2 ^ 32
      else if w = 41 then frameAddress p 4
      else if w = 42 then frameAddress p 0
      -- the frame: the caller's stack pointer, return address and map
      else if w = 55 then 0x7000
      else if w = 56 then 0x1000
      else if w = 57 then 3
      else 0 }

def atReturn : Machine := ⟨fun _ => 0, 0x2000, 0, [], callee⟩

def beforeReturn : Watched := ⟨atReturn, true, fun _ => none, fun _ _ => False⟩

/-- What `ISAMBARD_RETURN` does for it. -/
def calleeReturn : Outcome ℕ :=
  handle (enter callee callee.runnable atReturn.regs) callee.runnable (.svc 0xf00a)

theorem calleeReturn_ok : calleeReturn = .ok calleeReturn.kernel calleeReturn.now :=
  Outcome.eq_ok_now (by decide +kernel)

/-- The thread goes on with the stack pointer of the caller. -/
theorem return_step (setsSp : Event → Prop) : ∃ m', m'.kernel.runnable = callee.runnable ∧
    m'.user .sp = 0x7000 ∧
    SwitchStep setsSp beforeReturn (.svc 0xf00a)
      (beforeReturn.after setsSp atReturn (.svc 0xf00a) calleeReturn.kernel m' true) := by
  have hb : Between beforeReturn atReturn := ⟨rfl, by decide, rfl, rfl, fun _ => rfl⟩
  have hmem : callee.runnable ∈ atReturn.kernel.contexts := by decide
  have hnow : calleeReturn.now = callee.runnable := by decide +kernel
  have hin : calleeReturn.now ∈ calleeReturn.kernel.contexts := by decide +kernel
  have hsp : calleeReturn.kernel.spEl0 = 0x7000 := by decide +kernel
  have hrun : calleeReturn.kernel.runnable = callee.runnable := by decide +kernel
  have hcases := @vector_cases atReturn _ _ _ _ (fun _ => 0) hb.runnable hmem rfl calleeReturn_ok
  rcases hcases with
    ⟨m', hex, -, hres⟩ | ⟨m', -, hne, -⟩ | ⟨n, m', -, hne, -⟩
  · refine ⟨m', ?_, ?_, .eret hb calleeReturn_ok hin hex⟩
    · rw [hres.kernel, hrun]
    · rw [hres.regs .sp]
      exact hsp
  · exact absurd hnow hne
  · exact absurd hnow hne

theorem beforeReturn_reachable (setsSp : Event → Prop) :
    (switchSystem setsSp).Reachable beforeReturn := .init ⟨by decide, rfl, rfl⟩

/-- No handler has assigned it in the context. -/
theorem return_sets_sp : ¬ ∀ s, (switchSystem fun _ => False).Reachable s → s.Kept := by
  intro h
  obtain ⟨m', hrun, hsp, hstep⟩ := return_step fun _ => False
  have hkept := h _ (.step (beforeReturn_reachable _) hstep) rfl atReturn.user
    (by
      rw [after_running, hrun, after_last]
      exact Function.update_self callee.runnable (some atReturn.user) beforeReturn.last)
    .sp (by
      rw [after_running, hrun, after_assigned]
      show ¬ (if callee.runnable = callee.runnable then _ else _)
      rw [if_pos rfl]
      rintro (⟨-, h⟩ | ⟨w, hw, -⟩)
      · exact h
      · cases hw)
  have hold : atReturn.user .sp = 0x8000 := rfl
  rw [hold] at hkept
  exact absurd (hsp.symm.trans hkept) (by decide)

end Isambard.El1
