import Isambard.Lib.Runs
import Mathlib.Data.BitVec

/-!
# Driver.Gpio — the pull-ups and pull-downs of the GPIO pins

`gpio_request_pull_up`, `gpio_request_pull_down` and `gpio_set_pull_up_down` of
`drivers/pi3gpu/gpio.c`. Requests go into two masks, and one application clocks what has
changed into the pins, first those that go up and then those that go down.

* `Gpio.Settled`: what holds between applications, kept by every round;
* `gpioSetPullUpDown_up`, `gpioSetPullUpDown_down`: the masks after an application;
* `applied_iff`: a round does what it was asked exactly when no request was lost, and
  each mask holds only the last request.
-/

namespace Isambard.Driver

open Isambard.Lib

/-! ## State -/

/-- One write of a GPPUDCLK register, with what GPPUD held then. -/
structure Clocking where
  gppud : BitVec 32
  /-- The index of the register. -/
  reg : ℕ
  word : BitVec 32

/-- The masks of `gpio.c` and the registers they are applied through. -/
structure Gpio where
  requestingPullUp : BitVec 64
  requestingPullDown : BitVec 64
  currentlyPullUp : BitVec 64
  currentlyPullDown : BitVec 64
  /-- `devices.gpio.GPPUD` -/
  gppud : BitVec 32
  /-- `devices.gpio.GPPUDCLK` -/
  gppudclk : ℕ → BitVec 32
  /-- Every write of `GPPUDCLK` so far, in order. -/
  clockings : List Clocking

/-- The masks before the first call. -/
def initialGpio (gppud : BitVec 32) (gppudclk : ℕ → BitVec 32) : Gpio where
  requestingPullUp := 0
  requestingPullDown := 0
  currentlyPullUp := 0b111111110000000001110000000000000000000000000111111111#64
  currentlyPullDown := 0b000000000011111110001111001111111111111111111000000000#64
  gppud := gppud
  gppudclk := gppudclk
  clockings := []

/-! ## Operations -/

def gpioRequestPullUp (gpio : ℕ) (s : Gpio) : Gpio :=
  -- `=`, not `|=`: the requests before it are gone
  { s with requestingPullUp := 1#64 <<< gpio }

def gpioRequestPullDown (gpio : ℕ) (s : Gpio) : Gpio :=
  { s with requestingPullDown := 1#64 <<< gpio }

def lowWord (v : BitVec 64) : BitVec 32 := (v &&& 0xffffffff#64).setWidth 32

def highWord (v : BitVec 64) : BitVec 32 := (v >>> 32).setWidth 32

/-- `devices.gpio.GPPUDCLK[n] = word`. -/
def Gpio.setClock (n : ℕ) (word : BitVec 32) (s : Gpio) : Gpio :=
  { s with gppudclk := Function.update s.gppudclk n word,
           clockings := s.clockings ++ [⟨s.gppud, n, word⟩] }

/-- The registers in a branch of `gpio_set_pull_up_down`; the two differ in the value for
GPPUD and in the mask. The waits between the writes are left out. -/
def Gpio.clock (gppud : BitVec 32) (change : BitVec 64) (s : Gpio) : Gpio :=
  let s := { s with gppud }
  -- a half without a change is not written
  let s := if lowWord change ≠ 0 then s.setClock 0 (lowWord change) else s
  let s := if highWord change ≠ 0 then s.setClock 1 (highWord change) else s
  let s := { s with gppud := 0 }
  (s.setClock 0 0).setClock 1 0

/-- The branch for the pins that go up. -/
def Gpio.applyUp (changeUp : BitVec 64) (s : Gpio) : Gpio :=
  if changeUp ≠ 0 then
    let s := s.clock 2 changeUp
    { s with currentlyPullUp := s.currentlyPullUp ||| s.requestingPullUp,
             currentlyPullDown := s.currentlyPullDown &&& ~~~ s.requestingPullUp }
  else s

/-- The branch for the pins that go down. -/
def Gpio.applyDown (changeDown : BitVec 64) (s : Gpio) : Gpio :=
  if changeDown ≠ 0 then
    let s := s.clock 1 changeDown
    { s with currentlyPullDown := s.currentlyPullDown ||| s.requestingPullDown,
             currentlyPullUp := s.currentlyPullUp &&& ~~~ s.requestingPullDown }
  else s

def gpioSetPullUpDown (s : Gpio) : Gpio :=
  -- both changes are computed before either branch touches the masks
  let changeUp := s.requestingPullUp &&& ~~~ s.currentlyPullUp
  let changeDown := s.requestingPullDown &&& ~~~ s.currentlyPullDown
  let s := (s.applyUp changeUp).applyDown changeDown
  { s with requestingPullUp := 0, requestingPullDown := 0 }

/-! ## Rounds -/

/-- A call of one of the two request functions. -/
inductive PullRequest where
  | up (gpio : ℕ)
  | down (gpio : ℕ)
deriving DecidableEq

def PullRequest.run (s : Gpio) : PullRequest → Gpio
  | .up gpio => gpioRequestPullUp gpio s
  | .down gpio => gpioRequestPullDown gpio s

/-- Requests, and then an application. -/
def pullRound (reqs : List PullRequest) (s : Gpio) : Gpio :=
  gpioSetPullUpDown (reqs.foldl PullRequest.run s)

/-- The requests of a round are for pins that exist, each in one direction at most. -/
structure ValidRound (reqs : List PullRequest) : Prop where
  pin_up : ∀ p, .up p ∈ reqs → p ≤ 53
  pin_down : ∀ p, .down p ∈ reqs → p ≤ 53
  oneWay : ∀ p, .up p ∈ reqs → .down p ∉ reqs

/-- Rounds one after the other, from the masks the driver starts with. -/
def pullSystem : System Gpio (List PullRequest) where
  init s := ∃ gppud gppudclk, s = initialGpio gppud gppudclk
  step s reqs s' := ValidRound reqs ∧ s' = pullRound reqs s

/-- The recorded state of a pin. -/
abbrev Gpio.up (s : Gpio) (p : ℕ) : Prop := s.currentlyPullUp.getLsbD p = true

abbrev Gpio.down (s : Gpio) (p : ℕ) : Prop := s.currentlyPullDown.getLsbD p = true

/-- A pin's bit went into its GPPUDCLK register with this value in GPPUD. -/
def ClockedWith (clockings : List Clocking) (gppud : BitVec 32) (p : ℕ) : Prop :=
  ∃ c ∈ clockings, c.gppud = gppud ∧ c.reg = p / 32 ∧ c.word.getLsbD (p % 32) = true

/-- What a round is to do with its requests. -/
structure Applied (s : Gpio) (reqs : List PullRequest) (s' : Gpio) : Prop where
  ups : ∀ p, .up p ∈ reqs → s'.up p ∧ ¬ s'.down p
  downs : ∀ p, .down p ∈ reqs → s'.down p ∧ ¬ s'.up p
  clocked : ∃ clockings, s'.clockings = s.clockings ++ clockings ∧
    ∀ p, (¬ (s'.up p ↔ s.up p) ∨ ¬ (s'.down p ↔ s.down p)) →
      s'.up p ∧ ClockedWith clockings 2 p ∨ s'.down p ∧ ClockedWith clockings 1 p
  others : ∀ p, .up p ∉ reqs → .down p ∉ reqs →
    (s'.up p ↔ s.up p) ∧ (s'.down p ↔ s.down p)
  notBoth : ∀ p, ¬ (s'.up p ∧ s'.down p)

def PullRequest.pinUp : PullRequest → Option ℕ
  | .up gpio => some gpio
  | .down _ => none

def PullRequest.pinDown : PullRequest → Option ℕ
  | .up _ => none
  | .down gpio => some gpio

/-- The last pin that is requested up. -/
def lastUp (reqs : List PullRequest) : Option ℕ := (reqs.filterMap PullRequest.pinUp).getLast?

/-- The last pin that is requested down. -/
def lastDown (reqs : List PullRequest) : Option ℕ :=
  (reqs.filterMap PullRequest.pinDown).getLast?

/-- No request of a round is lost: the ones before the last in a direction were for pins
that are already as they ask. -/
def NoneLost (s : Gpio) (reqs : List PullRequest) : Prop :=
  (∀ p, .up p ∈ reqs → lastUp reqs = some p ∨ s.up p) ∧
  ∀ p, .down p ∈ reqs → lastDown reqs = some p ∨ s.down p

/-! ## Requests -/

theorem getLsbD_one_shiftLeft (n p : ℕ) (hn : n < 64) :
    (1#64 <<< n).getLsbD p = true ↔ n = p := by
  rw [← BitVec.twoPow_eq, BitVec.getLsbD_twoPow]
  simp [hn, eq_comm]

theorem lastUp_mem {reqs : List PullRequest} {p : ℕ} (h : lastUp reqs = some p) :
    .up p ∈ reqs := by
  rcases List.mem_filterMap.1 (List.mem_of_getLast? h) with ⟨r, hr, hp⟩
  cases r with
  | up q => cases hp; exact hr
  | down q => cases hp

theorem lastDown_mem {reqs : List PullRequest} {p : ℕ} (h : lastDown reqs = some p) :
    .down p ∈ reqs := by
  rcases List.mem_filterMap.1 (List.mem_of_getLast? h) with ⟨r, hr, hp⟩
  cases r with
  | up q => cases hp
  | down q => cases hp; exact hr

/-- Each request is stored over the one before. -/
theorem requests_eq (reqs : List PullRequest) (s : Gpio) :
    reqs.foldl PullRequest.run s =
      { s with
        requestingPullUp := ((lastUp reqs).map (1#64 <<< ·)).getD s.requestingPullUp
        requestingPullDown := ((lastDown reqs).map (1#64 <<< ·)).getD s.requestingPullDown } := by
  induction reqs using List.reverseRecOn with
  | nil => rfl
  | append_singleton reqs r ih =>
    rw [List.foldl_append, ih]
    cases r with
    | up p =>
      have hup : lastUp (reqs ++ [.up p]) = some p := by
        simp [lastUp, PullRequest.pinUp]
      have hdown : lastDown (reqs ++ [.up p]) = lastDown reqs := by
        simp [lastDown, PullRequest.pinDown]
      rw [hup, hdown]
      rfl
    | down p =>
      have hup : lastUp (reqs ++ [.down p]) = lastUp reqs := by
        simp [lastUp, PullRequest.pinUp]
      have hdown : lastDown (reqs ++ [.down p]) = some p := by
        simp [lastDown, PullRequest.pinDown]
      rw [hup, hdown]
      rfl

/-- A mask of requests that starts empty has the last pin's bit. -/
theorem getLsbD_requested {last : Option ℕ} (hlast : ∀ p, last = some p → p ≤ 53) (p : ℕ) :
    ((last.map (1#64 <<< ·)).getD 0).getLsbD p = true ↔ last = some p := by
  cases last with
  | none => simp
  | some q =>
    have hq : q < 64 := Nat.lt_of_le_of_lt (hlast q rfl) (by decide)
    rw [Option.map_some, Option.getD_some, getLsbD_one_shiftLeft q p hq, Option.some_inj]

/-! ## Clocking -/

theorem getLsbD_lowWord (v : BitVec 64) {p : ℕ} (hp : p < 32) :
    (lowWord v).getLsbD p = v.getLsbD p := by
  have hmask : (0xffffffff#64).getLsbD p = true := by
    rw [BitVec.getLsbD_ofNat, show 0xffffffff = 2 ^ 32 - 1 from rfl,
      Nat.testBit_two_pow_sub_one]
    simp [hp, Nat.lt_trans hp (by decide : 32 < 64)]
  rw [lowWord, BitVec.getLsbD_setWidth, BitVec.getLsbD_and, hmask]
  simp [hp]

theorem getLsbD_highWord (v : BitVec 64) {p : ℕ} (hp : p < 32) :
    (highWord v).getLsbD p = v.getLsbD (32 + p) := by
  rw [highWord]
  simp [hp]

/-- The writes of one branch. -/
def branchClockings (gppud : BitVec 32) (change : BitVec 64) : List Clocking :=
  (if lowWord change ≠ 0 then [⟨gppud, 0, lowWord change⟩] else []) ++
    (if highWord change ≠ 0 then [⟨gppud, 1, highWord change⟩] else []) ++
    [⟨0, 0, 0⟩, ⟨0, 1, 0⟩]

theorem Gpio.clock_eq (gppud : BitVec 32) (change : BitVec 64) (s : Gpio) :
    s.clock gppud change =
      { s with
        gppud := 0
        gppudclk := (s.clock gppud change).gppudclk
        clockings := s.clockings ++ branchClockings gppud change } := by
  unfold Gpio.clock branchClockings
  split_ifs <;> simp [Gpio.setClock]

/-- Every pin of a change is clocked in the register that has it. -/
theorem clockedWith_branch {change : BitVec 64} {p : ℕ} (gppud : BitVec 32)
    (h : change.getLsbD p = true) : ClockedWith (branchClockings gppud change) gppud p := by
  have hp : p < 64 := BitVec.lt_of_getLsbD h
  -- pins below 32 are in register 0; a half that holds the pin is not zero, so it is written
  by_cases hlow : p < 32
  · have hbit : (lowWord change).getLsbD (p % 32) = true := by
      rw [Nat.mod_eq_of_lt hlow, getLsbD_lowWord _ hlow, h]
    have hne : lowWord change ≠ 0 := by
      intro hzero
      rw [hzero] at hbit
      simp at hbit
    refine ⟨⟨gppud, 0, lowWord change⟩, ?_, rfl, (Nat.div_eq_of_lt hlow).symm, hbit⟩
    rw [branchClockings, if_pos hne]
    simp
  · have hin : p % 32 < 32 := Nat.mod_lt _ (by decide)
    have hplace : 32 + p % 32 = p := by omega
    have hbit : (highWord change).getLsbD (p % 32) = true := by
      rw [getLsbD_highWord _ hin, hplace, h]
    have hne : highWord change ≠ 0 := by
      intro hzero
      rw [hzero] at hbit
      simp at hbit
    refine ⟨⟨gppud, 1, highWord change⟩, ?_, rfl, ?_, hbit⟩
    · rw [branchClockings, if_pos hne]
      simp
    · show 1 = p / 32
      omega

/-! ## One application -/

/-- The pins of one mask that are not in another. -/
theorem getLsbD_and_not (a b : BitVec 64) (p : ℕ) :
    (a &&& ~~~ b).getLsbD p = true ↔ a.getLsbD p = true ∧ ¬ b.getLsbD p = true := by
  rw [BitVec.getLsbD_and, BitVec.getLsbD_not]
  by_cases hp : p < 64
  · simp [hp]
  · simp [BitVec.getLsbD_of_ge a p (Nat.le_of_not_lt hp)]

section Masks

variable {request current opposite change : BitVec 64}

/-- The mask that gains the requested pins. Where nothing changes they are in it already. -/
theorem getLsbD_gain
    (hchange : ∀ p, change.getLsbD p = true ↔ request.getLsbD p = true ∧
      ¬ current.getLsbD p = true) (p : ℕ) :
    (if change ≠ 0 then current ||| request else current).getLsbD p = true ↔
      current.getLsbD p = true ∨ request.getLsbD p = true := by
  split_ifs with hne
  · rw [BitVec.getLsbD_or, Bool.or_eq_true]
  · have hzero : change = 0 := not_not.1 hne
    have hnone := hchange p
    rw [hzero] at hnone
    simp only [BitVec.ofNat_eq_ofNat, BitVec.getLsbD_zero, Bool.false_eq_true, false_iff,
      not_and, not_not] at hnone
    exact ⟨Or.inl, fun h => h.elim id hnone⟩

/-- The mask that loses them. Where nothing changes they are in the other one. -/
theorem getLsbD_lose
    (hchange : ∀ p, change.getLsbD p = true ↔ request.getLsbD p = true ∧
      ¬ current.getLsbD p = true)
    (hapart : ∀ p, ¬ (current.getLsbD p = true ∧ opposite.getLsbD p = true)) (p : ℕ) :
    (if change ≠ 0 then opposite &&& ~~~ request else opposite).getLsbD p = true ↔
      opposite.getLsbD p = true ∧ ¬ request.getLsbD p = true := by
  split_ifs with hne
  · exact getLsbD_and_not opposite request p
  · have hzero : change = 0 := not_not.1 hne
    have hnone := hchange p
    rw [hzero] at hnone
    simp only [BitVec.ofNat_eq_ofNat, BitVec.getLsbD_zero, Bool.false_eq_true, false_iff,
      not_and, not_not] at hnone
    exact ⟨fun h => ⟨h, fun hreq => hapart p ⟨hnone hreq, h⟩⟩, And.left⟩

end Masks

theorem Gpio.applyUp_eq (change : BitVec 64) (s : Gpio) :
    s.applyUp change =
      { s with
        currentlyPullUp :=
          if change ≠ 0 then s.currentlyPullUp ||| s.requestingPullUp else s.currentlyPullUp
        currentlyPullDown :=
          if change ≠ 0 then s.currentlyPullDown &&& ~~~ s.requestingPullUp
          else s.currentlyPullDown
        gppud := if change ≠ 0 then 0 else s.gppud
        gppudclk := if change ≠ 0 then (s.clock 2 change).gppudclk else s.gppudclk
        clockings :=
          s.clockings ++ if change ≠ 0 then branchClockings 2 change else [] } := by
  unfold Gpio.applyUp
  by_cases h : change ≠ 0
  · simp only [if_pos h]
    rw [Gpio.clock_eq]
  · simp only [if_neg h, List.append_nil]

theorem Gpio.applyDown_eq (change : BitVec 64) (s : Gpio) :
    s.applyDown change =
      { s with
        currentlyPullDown :=
          if change ≠ 0 then s.currentlyPullDown ||| s.requestingPullDown
          else s.currentlyPullDown
        currentlyPullUp :=
          if change ≠ 0 then s.currentlyPullUp &&& ~~~ s.requestingPullDown
          else s.currentlyPullUp
        gppud := if change ≠ 0 then 0 else s.gppud
        gppudclk := if change ≠ 0 then (s.clock 1 change).gppudclk else s.gppudclk
        clockings :=
          s.clockings ++ if change ≠ 0 then branchClockings 1 change else [] } := by
  unfold Gpio.applyDown
  by_cases h : change ≠ 0
  · simp only [if_pos h]
    rw [Gpio.clock_eq]
  · simp only [if_neg h, List.append_nil]

section Application

variable {s : Gpio}

/-- Which pins an application finds requested. -/
abbrev Gpio.wantsUp (s : Gpio) (p : ℕ) : Prop := s.requestingPullUp.getLsbD p = true

abbrev Gpio.wantsDown (s : Gpio) (p : ℕ) : Prop := s.requestingPullDown.getLsbD p = true

/-- The state after the branch for the pins that go up. -/
abbrev Gpio.upDone (s : Gpio) : Gpio := s.applyUp (s.requestingPullUp &&& ~~~ s.currentlyPullUp)

theorem upDone_up (p : ℕ) : s.upDone.up p ↔ s.up p ∨ s.wantsUp p := by
  have hchange := getLsbD_and_not s.requestingPullUp s.currentlyPullUp
  rw [Gpio.up, Gpio.upDone, Gpio.applyUp_eq]
  exact getLsbD_gain hchange p

theorem upDone_down (hapart : ∀ p, ¬ (s.up p ∧ s.down p)) (p : ℕ) :
    s.upDone.down p ↔ s.down p ∧ ¬ s.wantsUp p := by
  have hchange := getLsbD_and_not s.requestingPullUp s.currentlyPullUp
  rw [Gpio.down, Gpio.upDone, Gpio.applyUp_eq]
  exact getLsbD_lose hchange hapart p

theorem upDone_request : s.upDone.requestingPullDown = s.requestingPullDown := by
  rw [Gpio.upDone, Gpio.applyUp_eq]

theorem gpioSetPullUpDown_eq (s : Gpio) :
    gpioSetPullUpDown s =
      { s.upDone.applyDown (s.requestingPullDown &&& ~~~ s.currentlyPullDown) with
        requestingPullUp := 0, requestingPullDown := 0 } := rfl

variable (hapart : ∀ p, ¬ (s.up p ∧ s.down p)) (honce : ∀ p, ¬ (s.wantsUp p ∧ s.wantsDown p))

include hapart honce

/-- The down branch runs with the change that was computed before the up branch; that
branch has taken none of the pins that are to go down. -/
theorem down_change (p : ℕ) :
    (s.requestingPullDown &&& ~~~ s.currentlyPullDown).getLsbD p = true ↔
      s.upDone.requestingPullDown.getLsbD p = true ∧ ¬ s.upDone.down p := by
  -- a pin that the up branch took down is not requested down
  have hp := honce p
  rw [getLsbD_and_not, upDone_down hapart, upDone_request]
  tauto

/-- The pins that are down after an application. -/
theorem gpioSetPullUpDown_down (p : ℕ) :
    (gpioSetPullUpDown s).down p ↔ (s.down p ∧ ¬ s.wantsUp p) ∨ s.wantsDown p := by
  have hgain := getLsbD_gain (down_change hapart honce) p
  rw [upDone_request] at hgain
  rw [Gpio.down, gpioSetPullUpDown_eq, Gpio.applyDown_eq]
  simp only [upDone_request]
  exact hgain.trans (or_congr (upDone_down hapart p) Iff.rfl)

/-- The pins that are up after an application. -/
theorem gpioSetPullUpDown_up (p : ℕ) :
    (gpioSetPullUpDown s).up p ↔ (s.up p ∨ s.wantsUp p) ∧ ¬ s.wantsDown p := by
  -- the up branch leaves no pin in both masks, which the down branch relies on
  have hopposite : ∀ q, ¬ (s.upDone.down q ∧ s.upDone.up q) := by
    intro q
    have hq := hapart q
    rw [upDone_down hapart, upDone_up]
    tauto
  have hlose := getLsbD_lose (down_change hapart honce) hopposite p
  rw [upDone_request] at hlose
  rw [Gpio.up, gpioSetPullUpDown_eq, Gpio.applyDown_eq]
  simp only [upDone_request]
  exact hlose.trans (and_congr (upDone_up p) Iff.rfl)

omit hapart honce in
/-- What an application clocks: each pin that goes up with 2, each that goes down with 1. -/
theorem gpioSetPullUpDown_clocked :
    ∃ clockings, (gpioSetPullUpDown s).clockings = s.clockings ++ clockings ∧
      (∀ p, s.wantsUp p → ¬ s.up p → ClockedWith clockings 2 p) ∧
      ∀ p, s.wantsDown p → ¬ s.down p → ClockedWith clockings 1 p := by
  have hpart : ∀ {change : BitVec 64} {p : ℕ} (gppud : BitVec 32), change.getLsbD p = true →
      ClockedWith (if change ≠ 0 then branchClockings gppud change else []) gppud p := by
    intro change p gppud hp
    have hne : change ≠ 0 := by
      intro hzero
      rw [hzero] at hp
      simp at hp
    rw [if_pos hne]
    exact clockedWith_branch gppud hp
  rw [gpioSetPullUpDown_eq, Gpio.applyDown_eq, Gpio.upDone, Gpio.applyUp_eq]
  refine ⟨_, List.append_assoc _ _ _, ?_, ?_⟩
  · intro p hwant hnot
    rcases hpart 2 ((getLsbD_and_not _ _ p).2 ⟨hwant, hnot⟩) with ⟨c, hc, h⟩
    exact ⟨c, List.mem_append_left _ hc, h⟩
  · intro p hwant hnot
    rcases hpart 1 ((getLsbD_and_not _ _ p).2 ⟨hwant, hnot⟩) with ⟨c, hc, h⟩
    exact ⟨c, List.mem_append_right _ hc, h⟩

end Application

/-! ## Rounds -/

/-- What holds between applications. -/
structure Gpio.Settled (s : Gpio) : Prop where
  noUp : s.requestingPullUp = 0
  noDown : s.requestingPullDown = 0
  apart : ∀ p, ¬ (s.up p ∧ s.down p)

theorem initialGpio_settled (gppud : BitVec 32) (gppudclk : ℕ → BitVec 32) :
    (initialGpio gppud gppudclk).Settled := by
  refine ⟨rfl, rfl, ?_⟩
  intro p h
  -- the two constants have no bit in common
  have hmasks : (initialGpio gppud gppudclk).currentlyPullUp &&&
      (initialGpio gppud gppudclk).currentlyPullDown = 0 := by
    exact (by decide : 0b111111110000000001110000000000000000000000000111111111#64 &&&
      0b000000000011111110001111001111111111111111111000000000#64 = 0#64)
  have hbit := congrArg (fun v : BitVec 64 => v.getLsbD p) hmasks
  simp only [BitVec.getLsbD_and, h.1, h.2] at hbit
  simp at hbit

section Round

variable {s : Gpio} {reqs : List PullRequest}

/-- The masks that the application of a round finds: between rounds nothing is requested. -/
theorem requests_settled (hs : s.Settled) (reqs : List PullRequest) :
    reqs.foldl PullRequest.run s =
      { s with
        requestingPullUp := ((lastUp reqs).map (1#64 <<< ·)).getD 0
        requestingPullDown := ((lastDown reqs).map (1#64 <<< ·)).getD 0 } := by
  have heq := requests_eq reqs s
  rwa [hs.noUp, hs.noDown] at heq

theorem wantsUp_requests (hs : s.Settled) (hr : ValidRound reqs) (p : ℕ) :
    (reqs.foldl PullRequest.run s).wantsUp p ↔ lastUp reqs = some p := by
  rw [requests_settled hs]
  apply getLsbD_requested
  intro q hq
  exact hr.pin_up q (lastUp_mem hq)

theorem wantsDown_requests (hs : s.Settled) (hr : ValidRound reqs) (p : ℕ) :
    (reqs.foldl PullRequest.run s).wantsDown p ↔ lastDown reqs = some p := by
  rw [requests_settled hs]
  apply getLsbD_requested
  intro q hq
  exact hr.pin_down q (lastDown_mem hq)

/-- What a round leaves of the pins that are up, and of those that are down: only the
last request in each direction counts. -/
theorem pullRound_masks (hs : s.Settled) (hr : ValidRound reqs) (p : ℕ) :
    ((pullRound reqs s).up p ↔ (s.up p ∨ lastUp reqs = some p) ∧ ¬ lastDown reqs = some p) ∧
    ((pullRound reqs s).down p ↔
      (s.down p ∧ ¬ lastUp reqs = some p) ∨ lastDown reqs = some p) := by
  have hup := wantsUp_requests hs hr
  have hdown := wantsDown_requests hs hr
  -- a request does not touch the recorded masks
  have hsame : ∀ q, ((reqs.foldl PullRequest.run s).up q ↔ s.up q) ∧
      ((reqs.foldl PullRequest.run s).down q ↔ s.down q) := by
    intro q
    rw [requests_settled hs]
    exact ⟨Iff.rfl, Iff.rfl⟩
  have hapart : ∀ q, ¬ ((reqs.foldl PullRequest.run s).up q ∧
      (reqs.foldl PullRequest.run s).down q) := by
    intro q h
    exact hs.apart q ⟨(hsame q).1.1 h.1, (hsame q).2.1 h.2⟩
  have honce : ∀ q, ¬ ((reqs.foldl PullRequest.run s).wantsUp q ∧
      (reqs.foldl PullRequest.run s).wantsDown q) := by
    intro q h
    exact hr.oneWay q (lastUp_mem ((hup q).1 h.1)) (lastDown_mem ((hdown q).1 h.2))
  unfold pullRound
  rw [gpioSetPullUpDown_up hapart honce, gpioSetPullUpDown_down hapart honce, hup, hdown,
    (hsame p).1, (hsame p).2]
  exact ⟨Iff.rfl, Iff.rfl⟩

theorem pullRound_clocked (hs : s.Settled) (hr : ValidRound reqs) :
    ∃ clockings, (pullRound reqs s).clockings = s.clockings ++ clockings ∧
      (∀ p, lastUp reqs = some p → ¬ s.up p → ClockedWith clockings 2 p) ∧
      ∀ p, lastDown reqs = some p → ¬ s.down p → ClockedWith clockings 1 p := by
  have hwantUp := wantsUp_requests hs hr
  have hwantDown := wantsDown_requests hs hr
  rcases gpioSetPullUpDown_clocked (s := reqs.foldl PullRequest.run s) with ⟨l, hl, hup, hdown⟩
  rw [requests_settled hs] at hl hup hdown hwantUp hwantDown
  refine ⟨l, ?_, ?_, ?_⟩
  · rw [pullRound, requests_settled hs]
    exact hl
  · intro p hp hnot
    exact hup p ((hwantUp p).2 hp) hnot
  · intro p hp hnot
    exact hdown p ((hwantDown p).2 hp) hnot

/-- A round ends settled, whatever was lost. -/
theorem pullRound_settled (hs : s.Settled) (hr : ValidRound reqs) :
    (pullRound reqs s).Settled := by
  refine ⟨rfl, rfl, ?_⟩
  intro p h
  have hmasks := pullRound_masks hs hr p
  have hup := hmasks.1.1 h.1
  have hapart := hs.apart p
  have hdown := hmasks.2.1 h.2
  tauto

theorem settled_reachable (h : pullSystem.Reachable s) : s.Settled := by
  apply h.invariant
  · rintro s ⟨gppud, gppudclk, rfl⟩
    exact initialGpio_settled gppud gppudclk
  · rintro s reqs s' hs ⟨hr, rfl⟩
    exact pullRound_settled hs hr

/-- In every state that rounds of requests lead to, the next round does what it is asked
exactly when none of its requests is lost. -/
theorem applied_iff (h : pullSystem.Reachable s) (hr : ValidRound reqs) :
    Applied s reqs (pullRound reqs s) ↔ NoneLost s reqs := by
  have hs := settled_reachable h
  have hmasks := pullRound_masks hs hr
  constructor
  · -- a pin that was not up and not the last one stays as it is
    intro ha
    refine ⟨?_, ?_⟩
    · intro p hp
      have hup := (hmasks p).1.1 (ha.ups p hp).1
      exact hup.1.symm
    · intro p hp
      have hdown := (hmasks p).2.1 (ha.downs p hp).1
      exact hdown.symm.imp id And.left
  · intro hn
    have hother : ∀ p, .up p ∈ reqs → ¬ lastDown reqs = some p :=
      fun p hp hlast => hr.oneWay p hp (lastDown_mem hlast)
    have hother' : ∀ p, .down p ∈ reqs → ¬ lastUp reqs = some p :=
      fun p hp hlast => hr.oneWay p (lastUp_mem hlast) hp
    rcases pullRound_clocked hs hr with ⟨l, hl, hclockUp, hclockDown⟩
    refine ⟨?_, ?_, ⟨l, hl, ?_⟩, ?_, ?_⟩
    · -- the last one requested up, or up already; not the last one requested down
      intro p hp
      have hone := hn.1 p hp
      have hnot := hother p hp
      have hapart := hs.apart p
      rw [(hmasks p).1, (hmasks p).2]
      tauto
    · intro p hp
      have hone := hn.2 p hp
      have hnot := hother' p hp
      have hapart := hs.apart p
      rw [(hmasks p).1, (hmasks p).2]
      tauto
    · -- a pin changes only if it is the last one of its direction
      intro p hchange
      rw [(hmasks p).1, (hmasks p).2] at hchange ⊢
      by_cases hup : lastUp reqs = some p
      · have hdown := hother p (lastUp_mem hup)
        have hnew : ¬ s.up p := by
          intro hold
          have hopposite : ¬ s.down p := fun h => hs.apart p ⟨hold, h⟩
          simp [hold, hopposite, hdown] at hchange
        exact .inl ⟨⟨.inr hup, hdown⟩, hclockUp p hup hnew⟩
      · by_cases hdown : lastDown reqs = some p
        · have hnew : ¬ s.down p := by
            intro hold
            have hopposite : ¬ s.up p := fun h => hs.apart p ⟨h, hold⟩
            simp [hold, hopposite, hup] at hchange
          exact .inr ⟨.inr hdown, hclockDown p hdown hnew⟩
        · simp [hup, hdown] at hchange
    · -- a pin without a request is the last one of neither direction
      intro p hnotUp hnotDown
      have hup : ¬ lastUp reqs = some p := fun hlast => hnotUp (lastUp_mem hlast)
      have hdown : ¬ lastDown reqs = some p := fun hlast => hnotDown (lastDown_mem hlast)
      rw [(hmasks p).1, (hmasks p).2]
      simp [hup, hdown]
    · exact (pullRound_settled hs hr).apart

end Round

/-- Of pins 9 and 10, both requested up, only 10 is pulled up. -/
theorem request_lost :
    pullSystem.Reachable (initialGpio 0 fun _ => 0) ∧ ValidRound [.up 9, .up 10] ∧
    ¬ Applied (initialGpio 0 fun _ => 0) [.up 9, .up 10]
      (pullRound [.up 9, .up 10] (initialGpio 0 fun _ => 0)) := by
  refine ⟨.init ⟨_, _, rfl⟩, ⟨?_, ?_, ?_⟩, ?_⟩
  · intro p hp
    simp at hp
    omega
  · simp
  · simp
  · intro h
    have hup := (h.ups 9 (by decide)).1
    exact absurd hup (by decide)

theorem applied_iff_two :
    Applied (initialGpio 0 fun _ => 0) [.up 9, .down 0]
      (pullRound [.up 9, .down 0] (initialGpio 0 fun _ => 0)) := by
  have hr : ValidRound [.up 9, .down 0] := by
    refine ⟨?_, ?_, ?_⟩ <;> intro p hp <;> simp at hp ⊢ <;> omega
  apply (applied_iff (.init ⟨_, _, rfl⟩) hr).2
  refine ⟨?_, ?_⟩
  · intro p hp
    have hlast : p = 9 := by simpa using hp
    exact .inl (hlast ▸ rfl)
  · intro p hp
    have hlast : p = 0 := by simpa using hp
    exact .inl (hlast ▸ rfl)

end Isambard.Driver
