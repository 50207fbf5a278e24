import Isambard.Driver.Mailbox

/-!
# Driver.Answers — the answers of the GPU

The steps of `incoming_message` keep the invariant of `Driver.Mailbox`, and with it
every run does in which no thread finds the queue full while the handler is about
to test `blocked_thread`. The handler wakes such a thread although the queue is
full; its request then makes the queue empty.

* `Moved`: the requests in the queue are the same, in other slots;
* `receiverStep_inv`: a step of the handler;
* `run_matched`: what is true of the runs.
-/

namespace Isambard.Driver.Mailbox

open Isambard.Lib

/-! ## Steps of the handler -/

section Handler

variable {s s' : State}

/-- The requests in the queue are the same, in the slots that `f` gives. -/
structure Moved (s s' : State) (f : ℕ → ℕ) : Prop where
  live : ∀ x, Live s' x → Live s (f x) ∧ s'.thread x = s.thread (f x) ∧ s'.pa x = s.pa (f x)
  inj : ∀ x y, Live s' x → Live s' y → f x = f y → x = y
  surj : ∀ x, Live s x → ∃ y, Live s' y ∧ f y = x
  waitingFor : ∀ t, s'.waitingFor t = s.waitingFor t
  sentFor : ∀ t, s'.sentFor t = s.sentFor t
  gpu : s'.gpu = s.gpu
  handling : s'.receiver.handling = s.receiver.handling

/-- The requests stay in their slots. -/
theorem Moved.stay (hlive : ∀ x, Live s' x ↔ Live s x)
    (hth : ∀ x, Live s x → s'.thread x = s.thread x)
    (hpa : ∀ x, Live s x → s'.pa x = s.pa x) (hw : ∀ t, s'.waitingFor t = s.waitingFor t)
    (hs : ∀ t, s'.sentFor t = s.sentFor t) (hg : s'.gpu = s.gpu)
    (hh : s'.receiver.handling = s.receiver.handling) : Moved s s' id := by
  refine ⟨?_, fun _ _ _ _ heq => heq, fun x hx => ⟨x, (hlive x).2 hx, rfl⟩, hw, hs, hg, hh⟩
  intro x hx
  have hx' := (hlive x).1 hx
  exact ⟨hx', hth x hx', hpa x hx'⟩

theorem QueueInv.moved {f : ℕ → ℕ} (h : QueueInv s) (hm : Moved s s' f) (hhead : s'.head < slots)
    (htail : s'.tail < slots)
    (hloop : ∀ m i, s'.receiver = .loop m i → i < slots ∧
      ∀ x, Live s' x → s'.pa x = m → s'.offset i ≤ s'.offset x)
    (hcompare : ∀ m i, s'.receiver = .compare m i → InQueue s' i ∧
      ∀ x, Live s' x → s'.pa x = m → s'.offset i ≤ s'.offset x)
    (hfound : ∀ m i, s'.receiver = .wakeRequester m i → InQueue s' i ∧ s'.pa i = m)
    (hrem : ∀ x, s'.receiver.dead s'.tail = some x → InQueue s' x)
    (hmatched : ∀ m, s'.receiver ≠ .exception m) : QueueInv s' := by
  refine ⟨hhead, htail, ?_, ?_, ?_, ?_, ?_, ?_, hloop, hcompare, hfound, hrem, hmatched⟩
  · intro x hx
    obtain ⟨hx', hth, hpa⟩ := hm.live x hx
    rw [hth, hpa, hm.waitingFor]
    exact h.live _ hx'
  · intro x y hx hy heq
    obtain ⟨hx', hthx, -⟩ := hm.live x hx
    obtain ⟨hy', hthy, -⟩ := hm.live y hy
    rw [hthx, hthy] at heq
    exact hm.inj x y hx hy (h.inj _ _ hx' hy' heq)
  · intro t p ht
    rw [hm.waitingFor] at ht
    obtain ⟨x, hx, hxt⟩ := h.entry t p ht
    obtain ⟨y, hy, rfl⟩ := hm.surj x hx
    exact ⟨y, hy, (hm.live y hy).2.1.trans hxt⟩
  · simpa only [hm.gpu, hm.handling, hm.sentFor] using h.sent
  · rw [hm.gpu]
    exact h.nodup
  · simpa only [hm.gpu, hm.handling] using h.fresh

/-- The handler stores nothing in the slot at the head. -/
theorem RequestInv.handler (h : RequestInv s) (hpc : s'.pc = s.pc) (hhead : s'.head = s.head)
    (hpa : s'.pa s.head = s.pa s.head) (hth : s'.thread s.head = s.thread s.head) :
    RequestInv s' := by
  constructor
  · rw [hpc]
    exact h.zero
  · rw [hpc]
    exact h.distinct
  · rw [hpc, hhead, hpa]
    exact h.storedPa
  · rw [hpc, hhead, hpa, hth]
    exact h.storedThread

/-- A thread that the handler does not wake. -/
theorem ThreadOk.handler {t : ℕ} (h : ThreadOk s t) (hpc : s'.pc t = s.pc t)
    (hw : s'.wakes t = s.wakes t) (hl : s'.lock = s.lock)
    (ho : s.outstanding = .requester t → s'.outstanding = .requester t) (hc : s'.count ≤ s.count)
    (hwait : s.blockedThread = t ∨ s.receiver = .wakeBlocked t →
      s'.blockedThread = t ∨ s'.receiver = .wakeBlocked t) : ThreadOk s' t := by
  constructor
  · rw [hpc, hl]
    exact h.lock
  · rw [hpc]
    exact fun hout => ho (h.outstanding hout)
  · rw [hw]
    exact h.wakes_le
  · rw [hw, hpc]
    exact h.woken
  · rw [hpc]
    intro hf
    have := h.filling hf
    omega
  · rw [hpc, hw]
    intro hb hw1
    have := h.room hb hw1
    omega
  · rw [hpc, hw]
    exact fun hb hw0 => hwait (h.waiting hb hw0)

/-- The handler goes on: a step that changes neither the queue nor what the
threads see of it. -/
theorem goOn_inv {r : Receiver} {o : Owner} (h : Inv s)
    (hdead : r.dead s.tail = s.receiver.dead s.tail) (hhand : r.handling = s.receiver.handling)
    (hloop : ∀ m i, r = .loop m i → i < slots ∧
      ∀ x, Live s x → s.pa x = m → s.offset i ≤ s.offset x)
    (hcompare : ∀ m i, r = .compare m i → InQueue s i ∧
      ∀ x, Live s x → s.pa x = m → s.offset i ≤ s.offset x)
    (hfound : ∀ m i, r = .wakeRequester m i → InQueue s i ∧ s.pa i = m)
    (hmatched : ∀ m, r ≠ .exception m)
    (ho : ∀ t, s.outstanding = .requester t → o = .requester t)
    (hwait : ∀ u, s.receiver ≠ .wakeBlocked u)
    (hok : ReceiverOk { s with receiver := r, outstanding := o }) :
    Inv { s with receiver := r, outstanding := o } := by
  have hlive : ∀ x, Live { s with receiver := r, outstanding := o } x ↔ Live s x := by
    intro x
    show InQueue s x ∧ r.dead s.tail ≠ some x ↔ _
    rw [hdead]
    rfl
  refine ⟨?_, h.request.handler rfl rfl rfl rfl, ?_, hok⟩
  · refine h.queue.moved (.stay hlive (fun _ _ => rfl) (fun _ _ => rfl) (fun _ => rfl)
      (fun _ => rfl) rfl hhand) h.queue.head_lt h.queue.tail_lt ?_ ?_ hfound ?_ hmatched
    · intro m i hr
      obtain ⟨hi, hle⟩ := hloop m i hr
      exact ⟨hi, fun x hx => hle x ((hlive x).1 hx)⟩
    · intro m i hr
      obtain ⟨hi, hle⟩ := hcompare m i hr
      exact ⟨hi, fun x hx => hle x ((hlive x).1 hx)⟩
    · intro x hx
      exact h.queue.removing x (hdead ▸ hx)
  · intro t
    refine (h.threads t).handler rfl rfl rfl (ho t) le_rfl ?_
    rintro (hb | hr)
    · exact .inl hb
    · exact absurd hr (hwait t)

/-- The handler is not about to wake a thread that found the queue full. -/
theorem ReceiverOk.goOn {r : Receiver} {o : Owner} (h : ReceiverOk s)
    (ho : r.holdsOutstanding = true → o = .receiver)
    (hr : ∀ u, r ≠ .clearBlocked u ∧ r ≠ .wakeBlocked u)
    (hf : r.freed = true → s.receiver.freed = true) :
    ReceiverOk { s with receiver := r, outstanding := o } := by
  refine ⟨ho, h.blocked, ?_, ?_, ?_⟩
  · exact fun u hu => absurd hu (hr u).1
  · exact fun u hu => absurd hu (hr u).2
  · rintro hfr (hb | ⟨u, hu⟩)
    · exact h.freed (hf hfr) (.inl hb)
    · exact absurd hu (hr u).2

/-! ### The search -/

/-- The message that is being handled is that of a request in the queue. -/
theorem QueueInv.handled {m : ℕ} (h : QueueInv s) (hm : s.receiver.handling = some m) :
    ∃ x, Live s x ∧ s.pa x = m ∧ (s.pc (s.thread x)).sent = some m := by
  obtain ⟨t, ht⟩ := (h.sent m).1 (.inr hm)
  obtain ⟨hw, hsent⟩ := sentFor_eq_some.1 ht
  have hwait := waitingFor_eq_some.2 ⟨hw, Requester.queued_of_sent hsent⟩
  obtain ⟨x, hx, rfl⟩ := h.entry t m hwait
  refine ⟨x, hx, ?_, hsent⟩
  have hlive := h.live x hx
  rw [hwait] at hlive
  exact (Option.some.inj hlive).symm

theorem start_inv {m : ℕ} (h : Inv s) (hr : s.receiver = .start m) :
    Inv { s with receiver := .loop m s.tail } := by
  refine goOn_inv h (by rw [hr]; rfl) (by rw [hr]; rfl) ?_ (by simp) (by simp) (by simp)
    (fun _ ho => ho) (by simp [hr]) (h.handler.goOn (by simp [Receiver.holdsOutstanding])
    (by simp) (by simp [Receiver.freed]))
  rintro m' i heq
  cases heq
  refine ⟨h.queue.tail_lt, ?_⟩
  intro x _ _
  have : s.offset s.tail = 0 := by simp [State.offset]
  omega

/-- The handler finds the request before it reaches the head. -/
theorem loop_inv {m i : ℕ} (h : Inv s) (hr : s.receiver = .loop m i) :
    i ≠ s.head ∧ Inv { s with receiver := .compare m i } := by
  obtain ⟨hi, hle⟩ := h.queue.loop m i hr
  obtain ⟨x, hx, hxm, -⟩ := h.queue.handled (by rw [hr]; rfl)
  have hlt : s.offset i < s.count := (hle x hx hxm).trans_lt hx.1.2
  constructor
  · rintro rfl
    exact lt_irrefl _ hlt
  · refine goOn_inv h (by rw [hr]; rfl) (by rw [hr]; rfl) (by simp) ?_ (by simp) (by simp)
      (fun _ ho => ho) (by simp [hr]) (h.handler.goOn (by simp [Receiver.holdsOutstanding])
      (by simp) (by simp [Receiver.freed]))
    rintro m' i' heq
    cases heq
    exact ⟨⟨hi, hlt⟩, hle⟩

theorem found_inv {m i : ℕ} (h : Inv s) (hr : s.receiver = .compare m i) (hpa : s.pa i = m) :
    Inv { s with receiver := .wakeRequester m i } := by
  refine goOn_inv h (by rw [hr]; rfl) (by rw [hr]; rfl) (by simp) (by simp) ?_ (by simp)
    (fun _ ho => ho) (by simp [hr]) (h.handler.goOn (by simp [Receiver.holdsOutstanding])
    (by simp) (by simp [Receiver.freed]))
  rintro m' i' heq
  cases heq
  exact ⟨(h.queue.compare m i hr).1, hpa⟩

theorem Inv.live_thread_ne_zero {x : ℕ} (h : Inv s) (hx : Live s x) : s.thread x ≠ 0 := by
  obtain ⟨-, hq⟩ := waitingFor_eq_some.1 (h.queue.live x hx)
  apply h.pc_ne_zero
  intro heq
  rw [heq] at hq
  cases hq

theorem offset_next {i x : ℕ} (h : QueueInv s) (hi : i < slots) (hx : x < slots) (hne : x ≠ i)
    (hle : s.offset i ≤ s.offset x) : s.offset (nextOutstandingRequest i) ≤ s.offset x := by
  have h₂ := h.tail_lt
  simp only [State.offset, nextOutstandingRequest, slots] at *
  omega

theorem next_inv {m i : ℕ} (h : Inv s) (hr : s.receiver = .compare m i)
    (hne : ¬ (s.thread i ≠ 0 ∧ s.pa i = m)) :
    Inv { s with receiver := .loop m (nextOutstandingRequest i) } := by
  obtain ⟨hi, hle⟩ := h.queue.compare m i hr
  refine goOn_inv h (by rw [hr]; rfl) (by rw [hr]; rfl) ?_ (by simp) (by simp) (by simp)
    (fun _ ho => ho) (by simp [hr]) (h.handler.goOn (by simp [Receiver.holdsOutstanding])
    (by simp) (by simp [Receiver.freed]))
  rintro m' i' heq
  cases heq
  refine ⟨nextOutstandingRequest_lt i, ?_⟩
  intro x hx hxm
  refine offset_next h.queue hi.1 hx.1.1 ?_ (hle x hx hxm)
  rintro rfl
  exact hne ⟨h.live_thread_ne_zero hx, hxm⟩

/-! ### The answer -/

theorem receive_inv {m : ℕ} (h : Inv s) (hr : s.receiver = .idle) (hm : m ∈ s.gpu) :
    Inv { s with receiver := .start m, gpu := s.gpu.erase m } := by
  refine ⟨?_, h.request.handler rfl rfl rfl rfl, ?_, ?_⟩
  · have hlive : ∀ x, Live { s with receiver := .start m, gpu := s.gpu.erase m } x ↔ Live s x := by
      intro x
      simp only [Live, hr, Receiver.dead]
      rfl
    have hnone : s.receiver.handling = none := by rw [hr]; rfl
    refine ⟨h.queue.head_lt, h.queue.tail_lt, ?_, ?_, ?_, ?_, ?_, ?_, by simp, by simp, by simp,
      by simp [Receiver.dead], by simp⟩
    · exact fun x hx => h.queue.live x ((hlive x).1 hx)
    · exact fun x y hx hy => h.queue.inj x y ((hlive x).1 hx) ((hlive y).1 hy)
    · intro t p ht
      obtain ⟨x, hx, hxt⟩ := h.queue.entry t p ht
      exact ⟨x, (hlive x).2 hx, hxt⟩
    · intro p
      show (p ∈ s.gpu.erase m ∨ some m = some p) ↔ ∃ t, s.sentFor t = some p
      rw [← h.queue.sent p, hnone, h.queue.nodup.mem_erase_iff]
      constructor
      · rintro (⟨-, hp⟩ | heq)
        · exact .inl hp
        · cases heq
          exact .inl hm
      · rintro (hp | hno)
        · by_cases hpm : p = m
          · exact .inr (by rw [hpm])
          · exact .inl ⟨hpm, hp⟩
        · cases hno
    · exact h.queue.nodup.erase m
    · rintro m' heq
      cases heq
      exact h.queue.nodup.not_mem_erase
  · intro t
    refine (h.threads t).handler rfl rfl rfl (fun ho => ho) le_rfl ?_
    rintro (hb | hw)
    · exact .inl hb
    · rw [hr] at hw
      cases hw
  · exact ⟨by simp [Receiver.holdsOutstanding], h.handler.blocked, by simp, by simp,
      by simp [Receiver.freed]⟩

/-- The entry that was found is that of the thread that sent the message. -/
theorem Inv.found_sender {m i : ℕ} (h : Inv s) (hr : s.receiver = .wakeRequester m i) :
    Live s i ∧ s.wakes (s.thread i) = 0 ∧ (s.pc (s.thread i)).sent = some m := by
  obtain ⟨hi, hpa⟩ := h.queue.found m i hr
  have hlive : Live s i := ⟨hi, by simp [hr, Receiver.dead]⟩
  obtain ⟨hw, hq⟩ := waitingFor_eq_some.1 (h.queue.live i hlive)
  obtain ⟨x, -, -, hsent⟩ := h.queue.handled (m := m) (by rw [hr]; rfl)
  -- addresses are distinct
  have heq := h.request.distinct (s.thread i) (s.thread x) m
    (by rw [← hpa]; exact Requester.request_of_queued hq)
    (Requester.request_of_queued (Requester.queued_of_sent hsent))
  exact ⟨hlive, hw, by rw [heq]; exact hsent⟩

theorem Requester.blocked_of_queued {r : Requester} {p : ℕ} (h : r.queued = some p) :
    r.blocked = false := by
  cases r <;> simp_all [Requester.queued, Requester.blocked]

@[simp] theorem wake_wakes {t u : ℕ} :
    (s.wake t).wakes u = if u = t then s.wakes t + 1 else s.wakes u := by
  unfold State.wake
  simp only [Function.update_apply]

theorem wakeRequester_queue {m i : ℕ} (h : Inv s) (hr : s.receiver = .wakeRequester m i) :
    QueueInv { s.wake (s.thread i) with receiver := .moveTail i } := by
  obtain ⟨hlive, hw, hsent⟩ := h.found_sender hr
  have hq := Requester.queued_of_sent hsent
  set s' : State := { s.wake (s.thread i) with receiver := .moveTail i } with hs'
  have hwk : ∀ u, s'.wakes u = if u = s.thread i then 1 else s.wakes u := by
    intro u
    show (s.wake (s.thread i)).wakes u = _
    rw [wake_wakes, hw]
  -- the entry that was found is in the queue still, but no longer live
  have hlive' : ∀ x, Live s' x ↔ Live s x ∧ x ≠ i := by
    intro x
    show InQueue s x ∧ some i ≠ some x ↔ (InQueue s x ∧ _) ∧ x ≠ i
    simp [hr, Receiver.dead, eq_comm]
  have hother : ∀ u, u ≠ s.thread i → s'.waitingFor u = s.waitingFor u := by
    intro u hu
    simp only [State.waitingFor, hwk, if_neg hu]
    rfl
  have hself : ∀ p, s'.waitingFor (s.thread i) ≠ some p := by
    simp [State.waitingFor, hwk]
  have hsent' : ∀ u p, s'.sentFor u = some p ↔ u ≠ s.thread i ∧ s.sentFor u = some p := by
    intro u p
    simp only [State.sentFor, hwk]
    by_cases hu : u = s.thread i
    · simp [hu]
    · simp only [ne_eq, hu, not_false_eq_true, true_and]
      rfl
  have hhand : s.receiver.handling = some m := by rw [hr]; rfl
  refine ⟨h.queue.head_lt, h.queue.tail_lt, ?_, ?_, ?_, ?_, h.queue.nodup,
    by simp [hs', Receiver.handling], by simp [hs'], by simp [hs'], by simp [hs'], ?_,
    by simp [hs']⟩
  · intro x hx
    obtain ⟨hx', hne⟩ := (hlive' x).1 hx
    have hth : s.thread x ≠ s.thread i := fun heq => hne (h.queue.inj x i hx' hlive heq)
    exact (hother _ hth).trans (h.queue.live x hx')
  · intro x y hx hy
    exact h.queue.inj x y ((hlive' x).1 hx).1 ((hlive' y).1 hy).1
  · intro t p ht
    have hne : t ≠ s.thread i := by
      rintro rfl
      exact hself p ht
    rw [hother t hne] at ht
    obtain ⟨x, hx, rfl⟩ := h.queue.entry t p ht
    refine ⟨x, (hlive' x).2 ⟨hx, ?_⟩, rfl⟩
    rintro rfl
    exact hne rfl
  · intro p
    simp only [hsent']
    show (p ∈ s.gpu ∨ (none : Option ℕ) = some p) ↔ _
    constructor
    · rintro (hp | hno)
      · obtain ⟨t, ht⟩ := (h.queue.sent p).1 (.inl hp)
        refine ⟨t, ?_, ht⟩
        rintro rfl
        obtain ⟨-, hp'⟩ := sentFor_eq_some.1 ht
        rw [hsent] at hp'
        cases hp'
        exact h.queue.fresh m hhand hp
      · cases hno
    · rintro ⟨t, hne, ht⟩
      rcases (h.queue.sent p).2 ⟨t, ht⟩ with hp | hp
      · exact .inl hp
      · rw [hhand] at hp
        cases hp
        -- two threads would have sent the same request
        obtain ⟨-, ht'⟩ := sentFor_eq_some.1 ht
        exact absurd (h.request.distinct t (s.thread i) m
          (Requester.request_of_queued (Requester.queued_of_sent ht'))
          (Requester.request_of_queued hq)) hne
  · intro x hx
    cases hx
    exact hlive.1

theorem wakeRequester_inv {m i : ℕ} (h : Inv s) (hr : s.receiver = .wakeRequester m i) :
    Inv { s.wake (s.thread i) with receiver := .moveTail i } := by
  obtain ⟨-, hw, hsent⟩ := h.found_sender hr
  have hb := Requester.blocked_of_queued (Requester.queued_of_sent hsent)
  refine ⟨wakeRequester_queue h hr, h.request.handler rfl rfl rfl rfl, ?_, ?_⟩
  · intro t
    by_cases ht : t = s.thread i
    · subst ht
      have hok := h.threads (s.thread i)
      refine ⟨hok.lock, hok.outstanding, ?_, ?_, hok.filling, ?_, ?_⟩
      · show (s.wake (s.thread i)).wakes (s.thread i) ≤ 1
        simp [hw]
      · intro _
        refine .inr ?_
        show (s.pc (s.thread i)).sent ≠ none
        simp [hsent]
      · intro hb'
        rw [show (s.pc (s.thread i)).blocked = true from hb'] at hb
        cases hb
      · intro hb'
        rw [show (s.pc (s.thread i)).blocked = true from hb'] at hb
        cases hb
    · refine (h.threads t).handler rfl ?_ rfl (fun ho => ho) le_rfl ?_
      · show (s.wake (s.thread i)).wakes t = s.wakes t
        simp [ht]
      · rintro (hbt | hwt)
        · exact .inl hbt
        · rw [hr] at hwt
          cases hwt
  · refine ⟨by simp [Receiver.holdsOutstanding], ?_, by simp, by simp, by simp [Receiver.freed]⟩
    intro hne
    obtain ⟨hblk, hw0⟩ := h.handler.blocked hne
    refine ⟨hblk, ?_⟩
    show (s.wake (s.thread i)).wakes s.blockedThread = 0
    have : s.blockedThread ≠ s.thread i := by
      intro heq
      rw [heq, hb] at hblk
      cases hblk
    simp [this, hw0]

/-! ### The slot at the tail becomes free -/

theorem InQueue.tail {x : ℕ} (h : InQueue s x) (ht : s.tail < slots) : InQueue s s.tail := by
  refine ⟨ht, ?_⟩
  have : s.offset s.tail = 0 := by simp [State.offset]
  have := h.2
  omega

/-- A step of the handler that changes slots of the queue that hold no request. -/
theorem shuffle_inv {pa thread : ℕ → ℕ} {f : ℕ → ℕ} {r : Receiver} (h : Inv s)
    (hm : Moved s { s with pa := pa, thread := thread, receiver := r } f)
    (hpa : pa s.head = s.pa s.head) (hth : thread s.head = s.thread s.head)
    (hr : r = .clearPa ∨ r = .clearThread ∨ r = .claimOutstanding) (htail : InQueue s s.tail)
    (hwait : ∀ u, s.receiver ≠ .wakeBlocked u) :
    Inv { s with pa := pa, thread := thread, receiver := r } := by
  refine ⟨?_, h.request.handler rfl rfl hpa hth, ?_, ?_⟩
  · refine h.queue.moved hm h.queue.head_lt h.queue.tail_lt ?_ ?_ ?_ ?_ ?_
    · rintro m i rfl
      simp at hr
    · rintro m i rfl
      simp at hr
    · rintro m i rfl
      simp at hr
    · intro x hx
      have : x = s.tail := by
        rcases hr with rfl | rfl | rfl <;> exact (Option.some.inj hx).symm
      rw [this]
      exact htail
    · rintro m rfl
      simp at hr
  · intro t
    refine (h.threads t).handler rfl rfl rfl (fun ho => ho) le_rfl ?_
    rintro (hb | hw)
    · exact .inl hb
    · exact absurd hw (hwait t)
  · refine ⟨?_, h.handler.blocked, ?_, ?_, ?_⟩
    all_goals rcases hr with rfl | rfl | rfl <;> simp [Receiver.holdsOutstanding, Receiver.freed]

theorem moveTail_inv {i : ℕ} (h : Inv s) (hr : s.receiver = .moveTail i) :
    Inv { s with
      pa := Function.update s.pa i (s.pa s.tail)
      thread := Function.update s.thread i (s.thread s.tail)
      receiver := .clearPa } := by
  have hi : InQueue s i := h.queue.removing i (by rw [hr]; rfl)
  have htail := hi.tail h.queue.tail_lt
  have hne : s.head ≠ i := by
    rintro rfl
    exact head_not_inQueue s hi
  have hlive : ∀ x, Live s x ↔ InQueue s x ∧ x ≠ i := by
    intro x
    simp [Live, hr, Receiver.dead, eq_comm]
  -- the entry at the tail goes to `i`, and the place at the tail is dead now
  refine shuffle_inv h (f := fun x => if x = i then s.tail else x) ?_
    (Function.update_of_ne hne ..) (Function.update_of_ne hne ..) (.inl rfl) htail (by simp [hr])
  set s' : State := { s with
      pa := Function.update s.pa i (s.pa s.tail)
      thread := Function.update s.thread i (s.thread s.tail)
      receiver := .clearPa } with hs'
  have hlive' : ∀ x, Live s' x ↔ InQueue s x ∧ x ≠ s.tail := by
    intro x
    show InQueue s x ∧ some s.tail ≠ some x ↔ _
    simp [eq_comm]
  refine ⟨?_, ?_, ?_, fun _ => rfl, fun _ => rfl, rfl, by rw [hr]; rfl⟩
  · intro x hx
    obtain ⟨hx', hxt⟩ := (hlive' x).1 hx
    by_cases hxi : x = i
    · subst hxi
      simp only [hs', if_true, Function.update_self, and_self, and_true]
      exact (hlive _).2 ⟨htail, hxt.symm⟩
    · simp only [hs', if_neg hxi, Function.update_of_ne hxi, and_self, and_true]
      exact (hlive x).2 ⟨hx', hxi⟩
  · intro x y hx hy
    have hx' := ((hlive' x).1 hx).2
    have hy' := ((hlive' y).1 hy).2
    grind
  · intro x hx
    obtain ⟨hx', hxi⟩ := (hlive x).1 hx
    by_cases hxt : x = s.tail
    · exact ⟨i, (hlive' i).2 ⟨hi, fun heq => hxi (hxt.trans heq.symm)⟩, by rw [if_pos rfl, hxt]⟩
    · exact ⟨x, (hlive' x).2 ⟨hx', hxt⟩, if_neg hxi⟩

theorem clear_inv {pa thread : ℕ → ℕ} {r : Receiver} (h : Inv s)
    (hdead : s.receiver.dead s.tail = some s.tail)
    (hpa : ∀ x, x ≠ s.tail → pa x = s.pa x) (hth : ∀ x, x ≠ s.tail → thread x = s.thread x)
    (hr : r = .clearThread ∨ r = .claimOutstanding) (hhand : s.receiver.handling = none)
    (hwait : ∀ u, s.receiver ≠ .wakeBlocked u) :
    Inv { s with pa := pa, thread := thread, receiver := r } := by
  have htail := h.queue.removing _ hdead
  have hne : s.head ≠ s.tail := by
    intro heq
    exact head_not_inQueue s (heq ▸ htail)
  have hdead' : r.dead s.tail = some s.tail := by rcases hr with rfl | rfl <;> rfl
  refine shuffle_inv h (f := id) (.stay ?_ ?_ ?_ (fun _ => rfl) (fun _ => rfl) rfl ?_) (hpa _ hne)
    (hth _ hne) (.inr hr) htail hwait
  · intro x
    show InQueue s x ∧ r.dead s.tail ≠ some x ↔ _
    rw [hdead', ← hdead]
    rfl
  · intro x hx
    exact hth x fun heq => hx.2 (by rw [heq]; exact hdead)
  · intro x hx
    exact hpa x fun heq => hx.2 (by rw [heq]; exact hdead)
  · rw [hhand]
    rcases hr with rfl | rfl <;> rfl

theorem claimedByHandler_inv (h : Inv s) (hr : s.receiver = .claimOutstanding)
    (ho : s.outstanding = .none) :
    Inv { s with outstanding := .receiver, receiver := .advanceTail } := by
  refine goOn_inv h (by rw [hr]; rfl) (by rw [hr]; rfl) (by simp) (by simp) (by simp) (by simp)
    ?_ (by simp [hr]) (h.handler.goOn (fun _ => rfl) (by simp) (by simp [Receiver.freed]))
  intro t ht
  rw [ho] at ht
  cases ht

theorem advanceTail_inv (h : Inv s) (hr : s.receiver = .advanceTail) :
    Inv { s with tail := nextOutstandingRequest s.tail, receiver := .releaseOutstanding } := by
  have hdead : s.receiver.dead s.tail = some s.tail := by rw [hr]; rfl
  have hout := h.handler.outstanding (by rw [hr]; rfl)
  have htail := h.queue.removing _ hdead
  have h₁ := h.queue.head_lt
  have h₂ := h.queue.tail_lt
  set s' : State :=
    { s with tail := nextOutstandingRequest s.tail, receiver := .releaseOutstanding } with hs'
  have hcount : s'.count + 1 = s.count := by
    have := htail.2
    simp only [hs', State.count, State.offset, nextOutstandingRequest, slots] at *
    omega
  have hlt : s.count < slots := Nat.mod_lt _ (by decide)
  -- the dead entry at the tail leaves the queue
  have hlive : ∀ x, Live s' x ↔ Live s x := by
    intro x
    show InQueue s' x ∧ none ≠ some x ↔ InQueue s x ∧ s.receiver.dead s.tail ≠ some x
    rw [hdead]
    have := htail.2
    simp only [hs', InQueue, State.count, State.offset, nextOutstandingRequest, slots,
      Option.some.injEq, ne_eq, reduceCtorEq, not_false_eq_true, and_true] at *
    omega
  refine ⟨?_, h.request.handler rfl rfl rfl rfl, ?_, ?_⟩
  · exact h.queue.moved (.stay hlive (fun _ _ => rfl) (fun _ _ => rfl) (fun _ => rfl)
      (fun _ => rfl) rfl (by rw [hr]; rfl)) h₁ (nextOutstandingRequest_lt _) (by simp [hs'])
      (by simp [hs']) (by simp [hs']) (by simp [hs', Receiver.dead]) (by simp [hs'])
  · intro t
    refine (h.threads t).handler rfl rfl rfl (fun ho => ho) (by omega) ?_
    rintro (hb | hw)
    · exact .inl hb
    · rw [hr] at hw
      cases hw
  · refine ⟨fun _ => hout, h.handler.blocked, by simp [hs'], by simp [hs'], ?_⟩
    intro _ _
    omega

theorem releasedByHandler_inv (h : Inv s) (hr : s.receiver = .releaseOutstanding) :
    Inv { s with outstanding := .none, receiver := .testBlocked } := by
  have hout := h.handler.outstanding (by rw [hr]; rfl)
  refine goOn_inv h (by rw [hr]; rfl) (by rw [hr]; rfl) (by simp) (by simp) (by simp) (by simp)
    ?_ (by simp [hr]) (h.handler.goOn (by simp [Receiver.holdsOutstanding]) (by simp)
    (by simp [hr, Receiver.freed]))
  intro t ht
  rw [hout] at ht
  cases ht

/-! ### The thread that found the queue full -/

theorem testBlocked_inv (h : Inv s) (hr : s.receiver = .testBlocked) {r : Receiver}
    (hcase : (s.blockedThread ≠ 0 ∧ r = .clearBlocked s.blockedThread) ∨ r = .idle) :
    Inv { s with receiver := r } := by
  refine goOn_inv h ?_ ?_ ?_ ?_ ?_ ?_ (fun _ ho => ho) (by simp [hr]) ?_
  case refine_7 =>
    rcases hcase with ⟨hne, rfl⟩ | rfl
    · refine ⟨by simp [Receiver.holdsOutstanding], h.handler.blocked, ?_, by simp, ?_⟩
      · intro u hu
        cases hu
        exact ⟨rfl, hne⟩
      · intro _ _
        exact h.handler.freed (by rw [hr]; rfl) (.inl hne)
    · exact h.handler.goOn (by simp [Receiver.holdsOutstanding]) (by simp)
        (by simp [Receiver.freed])
  all_goals rcases hcase with ⟨-, rfl⟩ | rfl <;> simp [hr, Receiver.dead, Receiver.handling]

theorem clearBlocked_inv {u : ℕ} (h : Inv s) (hr : s.receiver = .clearBlocked u) :
    Inv { s with blockedThread := 0, receiver := .wakeBlocked u } := by
  obtain ⟨hb, hu0⟩ := h.handler.clearing u hr
  obtain ⟨hblk, hw⟩ := h.handler.blocked (hb ▸ hu0)
  rw [hb] at hblk hw
  have hfree := h.handler.freed (by rw [hr]; rfl) (.inl (hb ▸ hu0))
  refine ⟨?_, h.request.handler rfl rfl rfl rfl, ?_, ?_⟩
  · refine h.queue.moved (.stay ?_ (fun _ _ => rfl) (fun _ _ => rfl) (fun _ => rfl)
      (fun _ => rfl) rfl (by rw [hr]; rfl)) h.queue.head_lt h.queue.tail_lt (by simp)
      (by simp) (by simp) (by simp [Receiver.dead]) (by simp)
    intro x
    show InQueue s x ∧ none ≠ some x ↔ InQueue s x ∧ s.receiver.dead s.tail ≠ some x
    rw [hr]
    rfl
  · intro t
    refine (h.threads t).handler rfl rfl rfl (fun ho => ho) le_rfl ?_
    rintro (hbt | hwt)
    · exact .inr (by rw [← hb, hbt])
    · rw [hr] at hwt
      cases hwt
  · refine ⟨by simp [Receiver.holdsOutstanding], by simp, by simp, ?_, fun _ _ => hfree⟩
    intro u' hu'
    cases hu'
    exact ⟨hblk, hw, rfl⟩

theorem Requester.queued_of_blocked {r : Requester} (h : r.blocked = true) :
    r.queued = none ∧ r.sent = none := by
  cases r <;> simp_all [Requester.queued, Requester.sent, Requester.blocked]

theorem wakeBlocked_inv {u : ℕ} (h : Inv s) (hr : s.receiver = .wakeBlocked u) :
    Inv { s.wake u with receiver := .idle } := by
  obtain ⟨hblk, hw, hb0⟩ := h.handler.waking u hr
  have hfree := h.handler.freed (by rw [hr]; rfl) (.inr ⟨u, hr⟩)
  obtain ⟨hq, hs⟩ := Requester.queued_of_blocked hblk
  have hwk : ∀ t, ({ s.wake u with receiver := .idle } : State).wakes t =
      if t = u then 1 else s.wakes t := by
    intro t
    show (s.wake u).wakes t = _
    rw [wake_wakes, hw]
  refine ⟨?_, h.request.handler rfl rfl rfl rfl, ?_, ?_⟩
  · refine h.queue.moved (.stay ?_ (fun _ _ => rfl) (fun _ _ => rfl) ?_ ?_ rfl (by rw [hr]; rfl))
      h.queue.head_lt h.queue.tail_lt (by simp) (by simp) (by simp) (by simp [Receiver.dead])
      (by simp)
    · intro x
      show InQueue s x ∧ none ≠ some x ↔ InQueue s x ∧ s.receiver.dead s.tail ≠ some x
      rw [hr]
      rfl
    · intro t
      by_cases ht : t = u
      · subst ht
        simp [State.waitingFor, State.wake, hq]
      · simp [State.waitingFor, State.wake, ht]
    · intro t
      by_cases ht : t = u
      · subst ht
        simp [State.sentFor, State.wake, hs]
      · simp [State.sentFor, State.wake, ht]
  · have hl := Requester.holdsLock_of_blocked hblk
    refine h.threads_holder (t := u) hl (fun _ _ => rfl) ?_ ?_
    · intro t ht
      rw [hwk, if_neg ht]
    · have hok := h.threads u
      refine ⟨hok.lock, hok.outstanding, ?_, fun _ => .inl hblk, hok.filling, fun _ _ => hfree, ?_⟩
      · rw [hwk, if_pos rfl]
      · intro _ h0
        rw [hwk, if_pos rfl] at h0
        cases h0
  · exact ⟨by simp [Receiver.holdsOutstanding], fun hne => absurd hb0 hne, by simp, by simp,
      by simp [Receiver.freed]⟩

/-- A step of the handler keeps the invariant. -/
theorem receiverStep_inv (h : Inv s) (hstep : receiverStep s = some s') : Inv s' := by
  unfold receiverStep at hstep
  cases hr : s.receiver <;> simp only [hr] at hstep
  case idle => cases hstep
  case start m =>
    cases hstep
    exact start_inv h hr
  case loop m i =>
    obtain ⟨hne, hinv⟩ := loop_inv h hr
    rw [if_neg hne] at hstep
    cases hstep
    exact hinv
  case compare m i =>
    split at hstep
    · cases hstep
      exact found_inv h hr (And.right ‹_›)
    · cases hstep
      exact next_inv h hr ‹_›
  case wakeRequester m i =>
    cases hstep
    exact wakeRequester_inv h hr
  case moveTail i =>
    cases hstep
    exact moveTail_inv h hr
  case clearPa =>
    cases hstep
    exact clear_inv h (by rw [hr]; rfl) (fun x hx => Function.update_of_ne hx ..)
      (fun _ _ => rfl) (.inl rfl) (by rw [hr]; rfl) (by simp [hr])
  case clearThread =>
    cases hstep
    exact clear_inv h (by rw [hr]; rfl) (fun _ _ => rfl)
      (fun x hx => Function.update_of_ne hx ..) (.inr rfl) (by rw [hr]; rfl) (by simp [hr])
  case claimOutstanding =>
    split at hstep
    · cases hstep
      exact claimedByHandler_inv h hr ‹_›
    · cases hstep
  case advanceTail =>
    cases hstep
    exact advanceTail_inv h hr
  case releaseOutstanding =>
    cases hstep
    exact releasedByHandler_inv h hr
  case testBlocked =>
    split at hstep
    · cases hstep
      exact testBlocked_inv h hr (.inl ⟨‹_›, rfl⟩)
    · cases hstep
      exact testBlocked_inv h hr (.inr rfl)
  case clearBlocked u =>
    cases hstep
    exact clearBlocked_inv h hr
  case wakeBlocked u =>
    cases hstep
    exact wakeBlocked_inv h hr
  case exception m => cases hstep

end Handler

/-! ## Runs of given steps -/

/-- The steps of a list of labels, one after the other. -/
def play (ok : State → Label → Prop) [∀ s, DecidablePred (ok s)] (s : State) :
    List Label → Option State
  | [] => some s
  | l :: ls => if ok s l then (step s l).bind fun s' => play ok s' ls else none

/-- Thread `t` asks for `16 * t`. -/
def Numbered : Label → Prop
  | .begin t pa => t ≠ 0 ∧ pa = 16 * t
  | _ => True

instance : DecidablePred Numbered
  | .begin _ _ => inferInstanceAs (Decidable (_ ∧ _))
  | .requester _ | .receive _ | .receiver => .isTrue trivial

instance (s : State) : DecidablePred (NotMissed s)
  | .requester t =>
    match h : s.pc t with
    | .block pa => decidable_of_iff (s.receiver ≠ .testBlocked) (by simp [NotMissed, h])
    | .idle | .claimLock _ | .claimOutstanding _ | .testFull _ | .releaseOutstanding _ _
    | .waitForRoom _ | .storePa _ | .storeThread _ | .advanceHead _ | .queueMessage _
    | .releaseLock _ | .waitForAnswer _ => .isTrue (by simp [NotMissed, h])
  | .begin _ _ | .receive _ | .receiver => .isTrue trivial

/-- Each thread makes its own request. -/
def OwnRequests (s : State) : Prop := ∀ t p, (s.pc t).request = some p → p = 16 * t

theorem requesterStep_request {s s' : State} {t u p : ℕ} (hstep : requesterStep s t = some s')
    (hu : (s'.pc u).request = some p) : (s.pc u).request = some p := by
  unfold requesterStep State.wait at hstep
  by_cases hut : u = t
  · subst hut
    cases hpc : s.pc u <;> simp only [hpc] at hstep
    all_goals (try split at hstep) <;> cases hstep <;> simp_all [Requester.request]
  · cases hpc : s.pc t <;> simp only [hpc] at hstep
    all_goals (try split at hstep) <;> cases hstep <;> simpa [hut] using hu

theorem receiverStep_pc {s s' : State} (hstep : receiverStep s = some s') : s'.pc = s.pc := by
  unfold receiverStep at hstep
  cases hr : s.receiver <;> simp only [hr] at hstep
  all_goals (try split at hstep) <;> cases hstep <;> rfl

theorem OwnRequests.step {s s' : State} {l : Label} (h : OwnRequests s) (hl : Numbered l)
    (hstep : step s l = some s') : OwnRequests s' ∧ Allowed s l := by
  cases l with
  | «begin» t pa =>
    obtain ⟨h0, rfl⟩ := hl
    simp only [Mailbox.step] at hstep
    split at hstep
    · rename_i hidle
      cases hstep
      constructor
      · intro u p hu
        by_cases hut : u = t
        · subst hut
          simpa [Requester.request, eq_comm] using hu
        · exact h u p (by simpa [hut] using hu)
      · refine ⟨h0, ?_⟩
        intro u hu
        have hut : t = u := by
          have := h u _ hu
          omega
        rw [← hut, hidle] at hu
        cases hu
    · cases hstep
  | requester t => exact ⟨fun u p hu => h u p (requesterStep_request hstep hu), trivial⟩
  | receive m =>
    simp only [Mailbox.step] at hstep
    split at hstep
    · cases hstep
      exact ⟨h, trivial⟩
    · cases hstep
  | receiver =>
    refine ⟨?_, trivial⟩
    intro u p hu
    rw [receiverStep_pc hstep] at hu
    exact h u p hu

theorem play_reachable {ok : State → Label → Prop} [∀ s, DecidablePred (ok s)] {ls : List Label}
    {s s' : State} (h : (mailboxSystem.restrict ok).Reachable s) (hown : OwnRequests s)
    (hls : ∀ l ∈ ls, Numbered l) (hplay : play ok s ls = some s') :
    (mailboxSystem.restrict ok).Reachable s' ∧ OwnRequests s' := by
  induction ls generalizing s with
  | nil =>
    cases hplay
    exact ⟨h, hown⟩
  | cons l ls ih =>
    unfold play at hplay
    split at hplay
    · rename_i hok
      obtain ⟨s₁, hs₁, hrest⟩ := Option.bind_eq_some_iff.1 hplay
      obtain ⟨hown₁, hallow⟩ := hown.step (hls l (by simp)) hs₁
      exact ih (.step h ⟨hok, hallow, hs₁⟩) hown₁ (fun l' hl' => hls l' (by simp [hl'])) hrest
    · cases hplay

/-- A request of thread `t`, up to where it waits for the answer. -/
def requests (t : ℕ) : List Label := .begin t (16 * t) :: List.replicate 9 (.requester t)

/-! ## Runs -/

section Runs

variable {s s' : State} {l : Label}

/-- What a requesting thread can see of the queue when it is full. -/
structure FullOk (s : State) (t : ℕ) : Prop where
  full : (∃ pa, s.pc t = .block pa) → s.count + 1 = slots
  blocked : (s.pc t).blocked = true → s.wakes t = 0 →
    s.receiver.freed = true ∨ s.count + 1 = slots

theorem step_inv (h : Inv s) (hallow : Allowed s l) (hmiss : NotMissed s l)
    (hstep : step s l = some s') : Inv s' := by
  cases l with
  | «begin» t pa =>
    simp only [step] at hstep
    split at hstep
    · cases hstep
      exact begin_inv h hallow.1 hallow.2 ‹_›
    · cases hstep
  | requester t => exact requesterStep_inv h hstep hmiss
  | receive m =>
    simp only [step] at hstep
    split at hstep
    · cases hstep
      exact receive_inv h (And.left ‹_›) (And.right ‹_›)
    · cases hstep
  | receiver => exact receiverStep_inv h hstep

theorem run_inv (h : (mailboxSystem.restrict NotMissed).Reachable s) : Inv s := by
  refine h.invariant ?_ ?_
  · rintro s rfl
    exact initial_inv
  · rintro s l s' hs ⟨hmiss, hallow, hstep⟩
    exact step_inv hs hallow hmiss hstep

/-- The request of a thread stays in the queue until the handler has found it. -/
theorem step_waitingFor (h : Inv s) (hstep : step s l = some s') {t p : ℕ}
    (ht : s.waitingFor t = some p) :
    s'.waitingFor t = some p ∨
      ∃ x, l = .receiver ∧ s.receiver = .wakeRequester p x ∧ s.thread x = t := by
  obtain ⟨hw, hq⟩ := waitingFor_eq_some.1 ht
  cases l with
  | «begin» u pa =>
    simp only [step] at hstep
    split at hstep
    · cases hstep
      have hne : t ≠ u := by
        rintro rfl
        rw [‹s.pc t = .idle›] at hq
        cases hq
      simp [State.waitingFor, hne, hw, hq]
    · cases hstep
  | requester u =>
    simp only [step] at hstep
    unfold requesterStep State.wait at hstep
    left
    by_cases hu : t = u
    · subst hu
      cases hpc : s.pc t <;> simp only [hpc, Requester.queued, reduceCtorEq] at hstep hq
      all_goals simp_all [waitingFor_eq_some, Requester.queued]
      all_goals subst hstep
      all_goals simp [hw]
    · rw [waitingFor_eq_some]
      cases hpc : s.pc u <;> simp only [hpc] at hstep
      all_goals (try split at hstep) <;> cases hstep <;> simp [hu, hw, hq]
  | receive m =>
    simp only [step] at hstep
    split at hstep
    · cases hstep
      exact .inl ht
    · cases hstep
  | receiver =>
    simp only [step] at hstep
    unfold receiverStep at hstep
    cases hr : s.receiver <;> simp only [hr] at hstep
    case wakeRequester m i =>
      cases hstep
      obtain ⟨-, -, hsent⟩ := h.found_sender hr
      by_cases hti : s.thread i = t
      · subst hti
        rw [Requester.queued_of_sent hsent] at hq
        cases hq
        exact .inr ⟨i, rfl, rfl, rfl⟩
      · left
        simp [State.waitingFor, State.wake, Ne.symm hti, hw, hq]
    case wakeBlocked u =>
      cases hstep
      left
      have hne : t ≠ u := by
        rintro rfl
        obtain ⟨hblk, -⟩ := h.handler.waking t hr
        rw [(Requester.queued_of_blocked hblk).1] at hq
        cases hq
      simp [State.waitingFor, State.wake, hne, hw, hq]
    -- no other step wakes a thread
    all_goals (try split at hstep) <;> cases hstep <;> exact .inl ht

/-- A thread that finds the queue full, or has found it so, holds `lock`. -/
theorem Requester.holdsLock_of_block {r : Requester}
    (h : (∃ pa, r = .block pa) ∨ r.blocked = true) : r.holdsLock = true := by
  rcases h with ⟨pa, rfl⟩ | h
  · rfl
  · exact Requester.holdsLock_of_blocked h

theorem FullOk.free {t : ℕ} (h : (s.pc t).holdsLock = false) : FullOk s t := by
  constructor
  · intro hb
    rw [Requester.holdsLock_of_block (.inl hb)] at h
    cases h
  · intro hb
    rw [Requester.holdsLock_of_block (.inr hb)] at h
    cases h

theorem FullOk.same {t : ℕ} (h : FullOk s t) (hpc : s'.pc t = s.pc t)
    (hw : s'.wakes t = s.wakes t) (hc : s'.count = s.count)
    (hr : s.receiver.freed = true → s'.receiver.freed = true) : FullOk s' t := by
  constructor
  · rw [hpc, hc]
    exact h.full
  · rw [hpc, hw, hc]
    exact fun hb h0 => (h.blocked hb h0).imp_left hr

/-- The thread that makes the step. -/
theorem requesterStep_fullOk {t : ℕ} (h : Inv s) (hf : FullOk s t)
    (hstep : requesterStep s t = some s') : FullOk s' t := by
  unfold requesterStep State.wait at hstep
  cases hpc : s.pc t <;> simp only [hpc] at hstep
  case testFull pa =>
    split at hstep
    · cases hstep
      refine ⟨?_, by simp [Requester.blocked]⟩
      intro _
      have hnot := mt h.queue.count_lt.2 (not_not.2 ‹_›)
      have hlt : s.count < slots := Nat.mod_lt _ (by decide)
      show s.count + 1 = slots
      omega
    · cases hstep
      constructor <;> simp [Requester.blocked]
  case block pa =>
    cases hstep
    have hfull := hf.full ⟨pa, hpc⟩
    exact ⟨by simp, fun _ _ => .inr hfull⟩
  case releaseOutstanding pa full =>
    cases hstep
    cases full with
    | true => exact ⟨by simp, fun _ => hf.blocked (by rw [hpc]; rfl)⟩
    | false => constructor <;> simp [Requester.blocked]
  all_goals (try split at hstep) <;> cases hstep <;> constructor <;> simp [Requester.blocked]

theorem requesterStep_full {t : ℕ} (h : Inv s) (hf : ∀ u, FullOk s u)
    (hstep : requesterStep s t = some s') (u : ℕ) : FullOk s' u := by
  by_cases hu : u = t
  · subst hu
    exact requesterStep_fullOk h (hf u) hstep
  · unfold requesterStep State.wait at hstep
    cases hpc : s.pc t <;> simp only [hpc] at hstep
    case advanceHead pa =>
      cases hstep
      -- only the thread that has the lock can have found the queue full
      refine .free ?_
      rw [goto_pc, if_neg hu]
      by_contra hl
      exact hu (h.holder (t := t) (by rw [hpc]; rfl) (by simpa using hl))
    all_goals (try split at hstep) <;> cases hstep <;>
      exact (hf u).same (by simp [hu]) (by simp [hu]) rfl id

theorem wake_wakes_eq_zero {t u : ℕ} (h : (s.wake t).wakes u = 0) : u ≠ t ∧ s.wakes u = 0 := by
  rw [wake_wakes] at h
  split at h
  · cases h
  · exact ⟨‹_›, h⟩

theorem receiverStep_full (h : Inv s) (hf : ∀ u, FullOk s u) (hstep : receiverStep s = some s')
    (u : ℕ) : FullOk s' u := by
  unfold receiverStep at hstep
  cases hr : s.receiver <;> simp only [hr] at hstep
  case wakeRequester m i =>
    cases hstep
    refine ⟨(hf u).full, ?_⟩
    intro hb h0
    rcases (hf u).blocked hb (wake_wakes_eq_zero h0).2 with hfr | hfull
    · rw [hr] at hfr
      cases hfr
    · exact .inr hfull
  case advanceTail =>
    cases hstep
    refine ⟨?_, fun _ _ => .inl rfl⟩
    -- the handler has the lock that a thread has that finds the queue full
    rintro ⟨pa, hb⟩
    have hout := (h.threads u).outstanding (by rw [show s.pc u = .block pa from hb]; rfl)
    rw [h.handler.outstanding (by rw [hr]; rfl)] at hout
    cases hout
  case testBlocked =>
    split at hstep
    · cases hstep
      exact (hf u).same rfl rfl rfl fun _ => rfl
    · cases hstep
      refine ⟨(hf u).full, ?_⟩
      intro hb h0
      rcases (h.threads u).waiting hb h0 with hbt | hw
      · rw [not_not.1 ‹¬ s.blockedThread ≠ 0›] at hbt
        subst hbt
        rw [show s.pc 0 = .idle from h.request.zero] at hb
        cases hb
      · rw [hr] at hw
        cases hw
  case wakeBlocked t =>
    cases hstep
    refine ⟨(hf u).full, ?_⟩
    intro hb h0
    obtain ⟨hne, -⟩ := wake_wakes_eq_zero h0
    obtain ⟨hblk, -⟩ := h.handler.waking t hr
    exact absurd (h.holder (Requester.holdsLock_of_blocked hblk)
      (Requester.holdsLock_of_blocked hb)) hne
  all_goals (try split at hstep) <;> cases hstep <;>
    exact (hf u).same rfl rfl rfl (by simp [hr, Receiver.freed])

theorem run_full (h : (mailboxSystem.restrict NotMissed).Reachable s) (t : ℕ) : FullOk s t := by
  induction h generalizing t with
  | init h =>
    cases h
    constructor <;> simp [initial, Requester.blocked]
  | @step s s' l hreach hs ih =>
    obtain ⟨-, -, hstep⟩ := hs
    have hinv := run_inv hreach
    cases l with
    | «begin» u pa =>
      simp only [step] at hstep
      split at hstep
      · cases hstep
        by_cases ht : t = u
        · subst ht
          refine .free ?_
          rw [goto_pc, if_pos rfl]
          rfl
        · exact (ih t).same (by simp [ht]) rfl rfl id
      · cases hstep
    | requester u => exact requesterStep_full hinv ih hstep t
    | receive m =>
      simp only [step] at hstep
      split at hstep
      · rename_i hc
        cases hstep
        refine (ih t).same rfl rfl rfl ?_
        rw [hc.1]
        intro hfr
        cases hfr
      · cases hstep
    | receiver => exact receiverStep_full hinv ih hstep t

/-- The requests are matched with the answers. -/
structure Matched (s : State) : Prop where
  /-- The queue holds the requests that were sent and not answered, and the one
  that is being sent. -/
  held : ∀ p, (∃ x, Live s x ∧ s.pa x = p) ↔
    p ∈ s.gpu ∨ s.receiver.handling = some p ∨ ∃ t, s.pc t = .queueMessage p
  /-- Each of them has one slot. -/
  once : ∀ x y, Live s x → Live s y → s.pa x = s.pa y → x = y
  /-- A thread that has sent a request has been woken, once, when the queue does
  not hold it. -/
  woken : ∀ t p, (s.pc t).sent = some p →
    s.wakes t ≤ 1 ∧ (s.wakes t = 0 ↔ ∃ x, Live s x ∧ s.thread x = t ∧ s.pa x = p)
  /-- The handler wakes the thread that sent the message. -/
  sender : ∀ m i, s.receiver = .wakeRequester m i →
    Live s i ∧ s.pa i = m ∧ (s.pc (s.thread i)).sent = some m
  /-- A thread that makes an entry of its request makes it in a slot that is not in
  use, and the queue has room for it. -/
  fills : ∀ t, (s.pc t).filling = true →
    ¬ InQueue s s.head ∧ s.tail ≠ nextOutstandingRequest s.head
  /-- A thread that waits for room has been woken when there is room, or the handler
  is about to wake it. -/
  room : ∀ t pa, s.pc t = .waitForRoom pa →
    (s.wakes t ≠ 0 → s.tail ≠ nextOutstandingRequest s.head) ∧
    (s.wakes t = 0 → s.tail ≠ nextOutstandingRequest s.head → s.receiver.freed = true) ∧
    (s.wakes t = 0 → s.blockedThread = t ∨ s.receiver = .wakeBlocked t)
  noException : ∀ m, s.receiver ≠ .exception m

theorem Inv.held (h : Inv s) (p : ℕ) : (∃ x, Live s x ∧ s.pa x = p) ↔
    p ∈ s.gpu ∨ s.receiver.handling = some p ∨ ∃ t, s.pc t = .queueMessage p := by
  rw [← or_assoc, h.queue.sent p]
  constructor
  · rintro ⟨x, hx, rfl⟩
    obtain ⟨hw, hq⟩ := waitingFor_eq_some.1 (h.queue.live x hx)
    cases hpc : s.pc (s.thread x) <;> rw [hpc] at hq <;> simp only [Requester.queued, reduceCtorEq,
      Option.some.injEq] at hq
    case queueMessage pa => exact .inr ⟨_, by rw [hpc, hq]⟩
    all_goals exact .inl ⟨_, sentFor_eq_some.2 ⟨hw, by rw [hpc, hq]; rfl⟩⟩
  · intro hp
    have hwait : ∃ t, s.waitingFor t = some p := by
      rcases hp with ⟨t, ht⟩ | ⟨t, ht⟩
      · obtain ⟨hw, hsent⟩ := sentFor_eq_some.1 ht
        exact ⟨t, waitingFor_eq_some.2 ⟨hw, Requester.queued_of_sent hsent⟩⟩
      · have hw := h.wakes_zero (t := t) (by rw [ht]; rfl) (by rw [ht]; rfl)
        exact ⟨t, waitingFor_eq_some.2 ⟨hw, by rw [ht]; rfl⟩⟩
    obtain ⟨t, ht⟩ := hwait
    obtain ⟨x, hx, rfl⟩ := h.queue.entry t p ht
    refine ⟨x, hx, ?_⟩
    rw [h.queue.live x hx] at ht
    exact Option.some.inj ht

theorem Inv.once (h : Inv s) {x y : ℕ} (hx : Live s x) (hy : Live s y) (hpa : s.pa x = s.pa y) :
    x = y := by
  obtain ⟨-, hqx⟩ := waitingFor_eq_some.1 (h.queue.live x hx)
  obtain ⟨-, hqy⟩ := waitingFor_eq_some.1 (h.queue.live y hy)
  rw [← hpa] at hqy
  exact h.queue.inj x y hx hy (h.request.distinct _ _ _ (Requester.request_of_queued hqx)
    (Requester.request_of_queued hqy))

theorem Inv.woken {t p : ℕ} (h : Inv s) (hs : (s.pc t).sent = some p) :
    s.wakes t = 0 ↔ ∃ x, Live s x ∧ s.thread x = t ∧ s.pa x = p := by
  constructor
  · intro hw
    have hwait := waitingFor_eq_some.2 ⟨hw, Requester.queued_of_sent hs⟩
    obtain ⟨x, hx, rfl⟩ := h.queue.entry t p hwait
    rw [h.queue.live x hx] at hwait
    exact ⟨x, hx, rfl, Option.some.inj hwait⟩
  · rintro ⟨x, hx, rfl, -⟩
    exact (waitingFor_eq_some.1 (h.queue.live x hx)).1

/-- In the runs in which no thread finds the queue full while the handler is about
to test `blocked_thread`, the requests are matched, and a step takes no request
from the queue but the one whose thread it wakes. -/
theorem run_matched (h : (mailboxSystem.restrict NotMissed).Reachable s) :
    Matched s ∧ ∀ l s', NotMissed s l → mailboxSystem.step s l s' → ∀ x, Live s x →
      (∃ y, Live s' y ∧ s'.pa y = s.pa x ∧ s'.thread y = s.thread x) ∨
        (l = .receiver ∧ s.receiver = .wakeRequester (s.pa x) x ∧
          s'.wakes (s.thread x) = s.wakes (s.thread x) + 1) := by
  have hinv := run_inv h
  refine ⟨⟨hinv.held, fun x y => hinv.once, ?_, ?_, ?_, ?_, hinv.queue.matched⟩, ?_⟩
  · intro t p hs
    exact ⟨(hinv.threads t).wakes_le, hinv.woken hs⟩
  · intro m i hr
    obtain ⟨hlive, -, hsent⟩ := hinv.found_sender hr
    exact ⟨hlive, (hinv.queue.found m i hr).2, hsent⟩
  · intro t ht
    exact ⟨head_not_inQueue s, hinv.queue.count_lt.2 ((hinv.threads t).filling ht)⟩
  · intro t pa hpc
    have hb : (s.pc t).blocked = true := by rw [hpc]; rfl
    have hle := (hinv.threads t).wakes_le
    refine ⟨?_, ?_, (hinv.threads t).waiting hb⟩
    · intro hw
      exact hinv.queue.count_lt.2 ((hinv.threads t).room hb (by omega))
    · intro hw hroom
      have hlt := hinv.queue.count_lt.1 hroom
      rcases (run_full h t).blocked hb hw with hfr | hfull
      · exact hfr
      · omega
  · rintro l s' hmiss ⟨hallow, hstep⟩ x hx
    have hinv' := step_inv hinv hallow hmiss hstep
    have hwait := hinv.queue.live x hx
    -- while its thread waits for the answer, some entry is the thread's
    rcases step_waitingFor hinv hstep hwait with hsame | ⟨y, rfl, hr, hy⟩
    · obtain ⟨y, hy, hth⟩ := hinv'.queue.entry _ _ hsame
      rw [← hth, hinv'.queue.live y hy] at hsame
      exact .inl ⟨y, hy, Option.some.inj hsame, hth⟩
    · obtain ⟨hlive, -, -⟩ := hinv.found_sender hr
      have hxy := hinv.queue.inj y x hlive hx hy
      subst hxy
      refine .inr ⟨rfl, hr, ?_⟩
      simp only [step, receiverStep, hr] at hstep
      cases hstep
      show (s.wake (s.thread y)).wakes (s.thread y) = _
      simp

/-- Threads 1 to 3 send a request each. The GPU answers the second one, whose slot takes the entry
of the first, and then the third one. -/
def outOfOrder : List Label :=
  requests 1 ++ requests 2 ++ requests 3 ++ .receive 32 :: List.replicate 13 .receiver ++
    .receive 48 :: List.replicate 5 .receiver

/-- The handler has found the entry of the third request; the first one is still in the queue. -/
theorem run_matched_answer : ∃ s, s.receiver = .wakeRequester 48 2 ∧
    (Live s 2 ∧ s.pa 2 = 48 ∧ (s.pc (s.thread 2)).sent = some 48) ∧
    s.wakes 2 = 1 ∧ ∃ x, Live s x ∧ s.thread x = 1 ∧ s.pa x = 16 := by
  have hplay : (play NotMissed initial outOfOrder).map (fun s =>
      (s.receiver, (s.pc 1).sent, s.wakes 1, s.wakes 2)) =
        some (.wakeRequester 48 2, some 16, 0, 1) := by decide +kernel
  obtain ⟨s, hs, hseen⟩ := Option.map_eq_some_iff.1 hplay
  simp only [Prod.mk.injEq] at hseen
  obtain ⟨hr, hsent, hfirst, hsecond⟩ := hseen
  have hown : OwnRequests initial := by
    intro t p ht
    cases ht
  obtain ⟨hreach, -⟩ := play_reachable (.init rfl) hown (by decide) hs
  have hmatched := (run_matched hreach).1
  exact ⟨s, hr, hmatched.sender 48 2 hr, hsecond, (hmatched.woken 1 16 hsent).2.1 hfirst⟩

end Runs

/-! ## A wake that comes too late -/

/-- Threads 1 to `n` have each sent a request, and the GPU has answered none. -/
def filled (n : ℕ) : State where
  pa := fun x => if x < n then 16 * (x + 1) else 0
  thread := fun x => if x < n then x + 1 else 0
  head := n
  tail := 0
  blockedThread := 0
  lock := 0
  outstanding := .none
  wakes := fun _ => 0
  pc := fun t => if t ≠ 0 ∧ t ≤ n then .waitForAnswer (16 * t) else .idle
  receiver := .idle
  gpu := ((List.range n).map fun x => 16 * (x + 1)).reverse

theorem filled_succ {n : ℕ} (hn : n < 63) :
    play (fun _ _ => True) (filled n) (requests (n + 1)) = some (filled (n + 1)) := by
  have hnext : nextOutstandingRequest n = n + 1 := by
    unfold nextOutstandingRequest slots
    omega
  simp [play, requests, step, requesterStep, State.goto, filled, hnext, List.replicate,
    List.range_succ]
  refine ⟨?_, ?_, ?_⟩
  all_goals
    funext x
    simp only [Function.update_apply]
    grind

theorem filled_reachable {n : ℕ} (hn : n ≤ 63) :
    (mailboxSystem.restrict fun _ _ => True).Reachable (filled n) ∧ OwnRequests (filled n) := by
  induction n with
  | zero =>
    constructor
    · refine .init ?_
      show filled 0 = initial
      simp [initial, filled]
    · intro t p ht
      simp [filled, Requester.request] at ht
  | succ n ih =>
    obtain ⟨hreach, hown⟩ := ih (by omega)
    refine play_reachable hreach hown ?_ (filled_succ (by omega))
    intro l hl
    rcases List.mem_cons.1 hl with rfl | hl
    · exact ⟨by omega, rfl⟩
    · rw [List.eq_of_mem_replicate hl]
      trivial

/-- The queue is full. The handler frees a slot, and thread 64 takes it before the
handler tests `blocked_thread`. Thread 65 finds the queue full, and the handler
wakes it. -/
def lateWake : List Label :=
  .receive 16 :: List.replicate 10 .receiver ++ requests 64 ++
    .begin 65 1040 :: List.replicate 5 (.requester 65) ++ List.replicate 3 .receiver ++
    List.replicate 6 (.requester 65) ++ .receive 32 :: List.replicate 2 .receiver

theorem lateWake_exception :
    (play (fun _ _ => True) (filled 63) lateWake).map State.receiver = some (.exception 32) := by
  decide +kernel

/-- The queue looks empty, and the handler finds no entry for the next answer. -/
theorem late_wake_unmatched : ¬ ∀ s, mailboxSystem.Reachable s → Matched s := by
  intro h
  obtain ⟨s, hs, hr⟩ := Option.map_eq_some_iff.1 lateWake_exception
  obtain ⟨hreach, hown⟩ := filled_reachable (n := 63) le_rfl
  obtain ⟨hs', -⟩ := play_reachable hreach hown (by decide) hs
  exact (h s hs'.of_restrict).noException 32 hr

end Isambard.Driver.Mailbox
