import DatasetRt.Channel

/-! # The channel is a lossless bounded FIFO

`Inv` is kept by every critical section, so by every interleaving of the calls of any number of
threads (`inv_run`).  The received values followed by the queue are the sent values for as long as
there is a receiver; what a call that returns reports is justified by the state it returns in
(`lossless_fifo`). -/

namespace DatasetRt.Channel

variable {α : Type} {capacity : ℕ} {s s' : Channel α}

/-- The invariant of the channel. -/
structure Inv (capacity : ℕ) (s : Channel α) : Prop where
  capacity_eq : s.capacity = capacity
  queue_le : s.queue.length ≤ capacity
  senders : s.sendersOpen = true ↔ s.senders ≠ []
  receivers : s.receiversOpen = true ↔ s.receivers ≠ []
  history : s.receiversOpen = true → s.received ++ s.queue = s.sent
  closed : s.receiversOpen = false → s.queue = [] ∧ s.writable.waiting = []
  sendCalls : ∀ call ∈ s.writable.calls, call.handle ∈ s.senders
  recvCalls : ∀ call ∈ s.readable.calls, call.handle ∈ s.receivers

theorem inv_bounded {s₀ : Channel α} (h : bounded α capacity = .ok s₀) : Inv capacity s₀ := by
  unfold bounded at h
  split_ifs at h
  cases h
  constructor <;> simp [received, sent, Condvar.new, Condvar.calls]

/-! ### Sending -/

theorem sent_record (s : Channel α) (outcome : Outcome α) :
    (s.record outcome).sent = s.sent ++ outcome.sentValue.toList := by
  simp only [sent, record, List.filterMap_append, List.filterMap_cons, List.filterMap_nil]
  cases outcome.sentValue <;> rfl

theorem received_record (s : Channel α) (outcome : Outcome α) :
    (s.record outcome).received = s.received ++ outcome.receivedValue.toList := by
  simp only [received, record, List.filterMap_append, List.filterMap_cons, List.filterMap_nil]
  cases outcome.receivedValue <;> rfl

/-- An outcome that carries no value leaves the history as it is. -/
theorem Inv.record {outcome : Outcome α} (h : Inv capacity s) (hsent : outcome.sentValue = none)
    (hreceived : outcome.receivedValue = none) : Inv capacity (s.record outcome) := by
  refine ⟨h.capacity_eq, h.queue_le, h.senders, h.receivers, fun hopen => ?_, h.closed, h.sendCalls, h.recvCalls⟩
  rw [received_record, sent_record, hsent, hreceived]
  simp only [Option.toList_none, List.append_nil]
  exact h.history hopen

theorem inv_sendLoop {call : SendCall α} {choice : ℕ} (h : Inv capacity s) (hcall : call.handle ∈ s.senders)
    (hstep : s.sendLoop call choice = some s') : Inv capacity s' := by
  rcases sendLoop_cases hstep with ⟨hopen, -, rfl⟩ | ⟨-, rfl⟩ | ⟨hopen, hspace, readable, hreadable, rfl⟩
  · refine { h with closed := fun hclosed => ?_, sendCalls := fun other hother => ?_ }
    · rw [hopen] at hclosed
      cases hclosed
    · rcases List.mem_cons.mp ((s.writable.calls_wait call).mem_iff.mp hother) with rfl | hother
      · exact hcall
      · exact h.sendCalls other hother
  · exact h.record rfl rfl
  · refine ⟨h.capacity_eq, ?_, h.senders, h.receivers, fun _ => ?_, fun hclosed => ?_, h.sendCalls,
      fun other hother => ?_⟩
    · have hle := h.queue_le
      rw [h.capacity_eq] at hspace
      simp only [record, List.length_append, List.length_singleton]
      omega
    · rw [received_record, sent_record]
      have hhistory : s.received ++ s.queue = s.sent := h.history hopen
      simp only [Outcome.receivedValue, Outcome.sentValue, Option.toList_none, Option.toList_some, List.append_nil]
      change s.received ++ (s.queue ++ [call.value]) = s.sent ++ [call.value]
      rw [← List.append_assoc, hhistory]
    · exact absurd (hopen.symm.trans hclosed) (by simp)
    · exact h.recvCalls other ((Condvar.calls_notifyOne hreadable).mem_iff.mp hother)

/-! ### Receiving -/

theorem inv_recvLoop {call : RecvCall} {expired : Bool} {choice : ℕ} (h : Inv capacity s)
    (hcall : call.handle ∈ s.receivers) (hstep : s.recvLoop call expired choice = some s') :
    Inv capacity s' := by
  have hopen : s.receiversOpen = true := h.receivers.mpr (List.ne_nil_of_mem hcall)
  rcases recvLoop_cases hstep with ⟨-, -, rfl⟩ | ⟨-, -, rfl⟩ | ⟨value, queue, writable, hqueue, hwritable, rfl⟩
  · refine { h with recvCalls := fun other hother => ?_ }
    rcases List.mem_cons.mp ((s.readable.calls_wait call).mem_iff.mp hother) with rfl | hother
    · exact hcall
    · exact h.recvCalls other hother
  · refine h.record ?_ ?_ <;> unfold emptyOutcome <;> split_ifs <;> rfl
  · refine ⟨h.capacity_eq, ?_, h.senders, h.receivers, fun _ => ?_, fun hclosed => ?_, fun other hother => ?_,
      h.recvCalls⟩
    · have hle := h.queue_le
      rw [hqueue, List.length_cons] at hle
      exact Nat.le_of_succ_le hle
    · rw [received_record, sent_record]
      have hhistory : s.received ++ s.queue = s.sent := h.history hopen
      rw [hqueue] at hhistory
      simp only [Outcome.receivedValue, Outcome.sentValue, Option.toList_none, Option.toList_some, List.append_nil]
      change s.received ++ [value] ++ queue = s.sent
      rw [List.append_assoc, List.singleton_append, hhistory]
    · exact absurd (hopen.symm.trans hclosed) (by simp)
    · exact h.sendCalls other ((Condvar.calls_notifyOne hwritable).mem_iff.mp hother)

/-! ### Every step -/

theorem inv_resumeSend {due : Due} {i : ℕ} {call : SendCall α} {writable : Condvar (SendCall α)}
    (h : Inv capacity s) (hresume : s.writable.resume due i = some (call, writable)) :
    Inv capacity { s with writable } ∧ call.handle ∈ s.senders := by
  obtain ⟨hperm, hwaiting, -⟩ := Condvar.resume_cases hresume
  refine ⟨{ h with closed := fun hclosed => ?_, sendCalls := fun other hother => ?_ }, ?_⟩
  · exact ⟨(h.closed hclosed).1, hwaiting.trans (h.closed hclosed).2⟩
  · exact h.sendCalls other (hperm.mem_iff.mpr (List.mem_cons_of_mem _ hother))
  · exact h.sendCalls call (hperm.mem_iff.mpr List.mem_cons_self)

theorem inv_resumeRecv {due : Due} {i : ℕ} {call : RecvCall} {readable : Condvar RecvCall}
    (h : Inv capacity s) (hresume : s.readable.resume due i = some (call, readable)) :
    Inv capacity { s with readable } ∧ call.handle ∈ s.receivers := by
  obtain ⟨hperm, -, -⟩ := Condvar.resume_cases hresume
  refine ⟨{ h with recvCalls := fun other hother => ?_ }, ?_⟩
  · exact h.recvCalls other (hperm.mem_iff.mpr (List.mem_cons_of_mem _ hother))
  · exact h.recvCalls call (hperm.mem_iff.mpr List.mem_cons_self)

theorem inv_dropSender {handle : ℕ} (h : Inv capacity s) (hfree : ∀ call ∈ s.writable.calls, call.handle ≠ handle) :
    Inv capacity (if s.senders.erase handle = [] then
      ({ s with senders := s.senders.erase handle } : Channel α).closeSenders
      else { s with senders := s.senders.erase handle }) := by
  have hcalls : ∀ call ∈ s.writable.calls, call.handle ∈ s.senders.erase handle := fun call hcall =>
    (List.mem_erase_of_ne (hfree call hcall)).mpr (h.sendCalls call hcall)
  split_ifs with hlast
  · refine { h with senders := ?_, sendCalls := hcalls, recvCalls := fun call hcall => ?_ }
    · exact ⟨fun hopen => (nomatch hopen), fun hne => absurd hlast hne⟩
    · exact h.recvCalls call ((Condvar.calls_notifyAll _).mem_iff.mp hcall)
  · refine { h with senders := ⟨fun _ => hlast, fun _ => ?_⟩, sendCalls := hcalls }
    refine h.senders.mpr fun hnil => hlast ?_
    simp [hnil]

theorem inv_dropReceiver {handle : ℕ} (h : Inv capacity s)
    (hfree : ∀ call ∈ s.readable.calls, call.handle ≠ handle) :
    Inv capacity (if s.receivers.erase handle = [] then
      ({ s with receivers := s.receivers.erase handle } : Channel α).closeReceivers
      else { s with receivers := s.receivers.erase handle }) := by
  have hcalls : ∀ call ∈ s.readable.calls, call.handle ∈ s.receivers.erase handle := fun call hcall =>
    (List.mem_erase_of_ne (hfree call hcall)).mpr (h.recvCalls call hcall)
  split_ifs with hlast
  · refine ⟨h.capacity_eq, Nat.zero_le _, h.senders, ?_, fun hopen => (nomatch hopen), fun _ => ⟨rfl, rfl⟩,
      fun call hcall => ?_, hcalls⟩
    · exact ⟨fun hopen => (nomatch hopen), fun hne => absurd hlast hne⟩
    · exact h.sendCalls call ((Condvar.calls_notifyAll _).mem_iff.mp hcall)
  · refine { h with receivers := ⟨fun _ => hlast, fun _ => ?_⟩, recvCalls := hcalls }
    refine h.receivers.mpr fun hnil => hlast ?_
    simp [hnil]

theorem inv_step (h : Inv capacity s) {action : Action α} (hstep : s.step action = some s') : Inv capacity s' := by
  cases action with
  | send call choice =>
      simp only [step] at hstep
      split_ifs at hstep with hcall
      exact inv_sendLoop h hcall hstep
  | resumeSend due i choice =>
      obtain ⟨⟨call, writable⟩, hresume, hstep⟩ := Option.bind_eq_some_iff.mp hstep
      obtain ⟨hinv, hcall⟩ := inv_resumeSend h hresume
      exact inv_sendLoop hinv hcall hstep
  | recv call expired choice =>
      simp only [step] at hstep
      split_ifs at hstep with hcall
      exact inv_recvLoop h hcall hstep
  | resumeRecv due i expired choice =>
      obtain ⟨⟨call, readable⟩, hresume, hstep⟩ := Option.bind_eq_some_iff.mp hstep
      obtain ⟨hinv, hcall⟩ := inv_resumeRecv h hresume
      exact inv_recvLoop hinv hcall hstep
  | wakeSender i =>
      obtain ⟨writable, hwake, hstep⟩ := Option.bind_eq_some_iff.mp hstep
      cases hstep
      refine { h with closed := fun hclosed => ⟨(h.closed hclosed).1, ?_⟩, sendCalls := fun call hcall => ?_ }
      · by_contra hne
        exact (Condvar.wake_eq hwake).2 hne (h.closed hclosed).2
      · exact h.sendCalls call ((Condvar.calls_wake hwake).mem_iff.mp hcall)
  | wakeReceiver i =>
      obtain ⟨readable, hwake, hstep⟩ := Option.bind_eq_some_iff.mp hstep
      cases hstep
      exact { h with recvCalls := fun call hcall => h.recvCalls call ((Condvar.calls_wake hwake).mem_iff.mp hcall) }
  | cloneSender handle copy =>
      simp only [step] at hstep
      split_ifs at hstep with hhandle
      cases hstep
      have hopen : s.sendersOpen = true := h.senders.mpr (List.ne_nil_of_mem hhandle.1)
      exact { h with
        senders := ⟨fun _ => List.cons_ne_nil _ _, fun _ => hopen⟩
        sendCalls := fun call hcall => List.mem_cons_of_mem _ (h.sendCalls call hcall) }
  | cloneReceiver handle copy =>
      simp only [step] at hstep
      split_ifs at hstep with hhandle
      cases hstep
      have hopen : s.receiversOpen = true := h.receivers.mpr (List.ne_nil_of_mem hhandle.1)
      exact { h with
        receivers := ⟨fun _ => List.cons_ne_nil _ _, fun _ => hopen⟩
        recvCalls := fun call hcall => List.mem_cons_of_mem _ (h.recvCalls call hcall) }
  | dropSender handle =>
      simp only [step, Option.ite_none_right_eq_some] at hstep
      obtain ⟨⟨-, hfree⟩, hstep⟩ := hstep
      cases hstep
      exact inv_dropSender h hfree
  | dropReceiver handle =>
      simp only [step, Option.ite_none_right_eq_some] at hstep
      obtain ⟨⟨-, hfree⟩, hstep⟩ := hstep
      cases hstep
      exact inv_dropReceiver h hfree

theorem inv_run {s₀ : Channel α} {actions : List (Action α)} (h : bounded α capacity = .ok s₀)
    (hrun : Machine.run step s₀ actions = some s) : Inv capacity s :=
  Machine.run_invariant step (fun _ _ _ hinv hstep => inv_step hinv hstep) (inv_bounded h) hrun

/-! ### What calls report -/

/-- What the state in which a call returns has to say for its outcome. -/
def Justified (s : Channel α) : Outcome α → Prop
  | .sent _ _ => s.receivers ≠ []
  | .sendFailed _ _ => s.receivers = []
  | .received _ value => s.queue.head? = some value
  | .recvFailed _ => s.senders = [] ∧ s.received = s.sent
  | .timeout _ => s.queue = [] ∧ s.senders ≠ []
  | .disconnected _ => s.senders = [] ∧ s.received = s.sent

/-- Every call of `send` returns an error: a new one at once, and a pending one when it runs again, for
which it is due. -/
structure Refuses (s : Channel α) : Prop where
  queue : s.queue = []
  due : s.writable.waiting = []
  send : ∀ call choice, call.handle ∈ s.senders →
    ∃ s', s.step (.send call choice) = some s' ∧ s'.outcomes = s.outcomes ++ [.sendFailed call.thread call.value]
  resume : ∀ due i call writable choice, s.writable.resume due i = some (call, writable) →
    ∃ s', s.step (.resumeSend due i choice) = some s' ∧
      s'.outcomes = s.outcomes ++ [.sendFailed call.thread call.value]

theorem record_inj {outcomes : List (Outcome α)} {first second : Outcome α}
    (h : outcomes ++ [first] = outcomes ++ [second]) : first = second := by
  simpa using h

theorem not_recorded {outcomes : List (Outcome α)} {outcome : Outcome α} :
    ¬ outcomes = outcomes ++ [outcome] := by simp

theorem justified_sendLoop {call : SendCall α} {choice : ℕ} {outcome : Outcome α} (h : Inv capacity s)
    (hstep : s.sendLoop call choice = some s') (hout : s'.outcomes = s.outcomes ++ [outcome]) :
    s.Justified outcome := by
  rcases sendLoop_cases hstep with ⟨-, -, rfl⟩ | ⟨hclosed, rfl⟩ | ⟨hopen, -, readable, -, rfl⟩
  · exact absurd hout not_recorded
  · obtain rfl := record_inj hout
    by_contra hne
    exact absurd (h.receivers.mpr hne) (by simp [hclosed])
  · obtain rfl := record_inj hout
    exact h.receivers.mp hopen

theorem justified_recvLoop {call : RecvCall} {expired : Bool} {choice : ℕ} {outcome : Outcome α}
    (h : Inv capacity s) (hcall : call.handle ∈ s.receivers) (hstep : s.recvLoop call expired choice = some s')
    (hout : s'.outcomes = s.outcomes ++ [outcome]) : s.Justified outcome := by
  have hopen : s.receiversOpen = true := h.receivers.mpr (List.ne_nil_of_mem hcall)
  rcases recvLoop_cases hstep with ⟨-, -, rfl⟩ | ⟨hqueue, htimed, rfl⟩ | ⟨value, queue, writable, hqueue, -, rfl⟩
  · exact absurd hout not_recorded
  · have hall : s.received = s.sent := by
      have hhistory := h.history hopen
      rwa [hqueue, List.append_nil] at hhistory
    have hgone : s.sendersOpen = false → s.senders = [] := fun hclosed => by
      by_contra hne
      exact absurd (h.senders.mpr hne) (by simp [hclosed])
    obtain rfl := record_inj hout
    unfold emptyOutcome
    split_ifs with huntimed hclosed
    · refine ⟨hgone (Bool.eq_false_iff.mpr fun hsenders => ?_), hall⟩
      simp [htimed hsenders] at huntimed
    · exact ⟨hgone (by simpa using hclosed), hall⟩
    · exact ⟨hqueue, h.senders.mp (by simpa using hclosed)⟩
  · obtain rfl := record_inj hout
    simp [Justified, hqueue]

theorem justified_step (h : Inv capacity s) {action : Action α} {outcome : Outcome α}
    (hstep : s.step action = some s') (hout : s'.outcomes = s.outcomes ++ [outcome]) : s.Justified outcome := by
  cases action with
  | send call choice =>
      simp only [step, Option.ite_none_right_eq_some] at hstep
      exact justified_sendLoop h hstep.2 hout
  | resumeSend due i choice =>
      obtain ⟨⟨call, writable⟩, hresume, hstep⟩ := Option.bind_eq_some_iff.mp hstep
      exact justified_sendLoop (s := { s with writable }) (inv_resumeSend h hresume).1 hstep hout
  | recv call expired choice =>
      simp only [step, Option.ite_none_right_eq_some] at hstep
      exact justified_recvLoop h hstep.1 hstep.2 hout
  | resumeRecv due i expired choice =>
      obtain ⟨⟨call, readable⟩, hresume, hstep⟩ := Option.bind_eq_some_iff.mp hstep
      obtain ⟨hinv, hcall⟩ := inv_resumeRecv h hresume
      exact justified_recvLoop (s := { s with readable }) hinv hcall hstep hout
  | wakeSender i =>
      obtain ⟨writable, -, hstep⟩ := Option.bind_eq_some_iff.mp hstep
      cases hstep
      exact absurd hout not_recorded
  | wakeReceiver i =>
      obtain ⟨readable, -, hstep⟩ := Option.bind_eq_some_iff.mp hstep
      cases hstep
      exact absurd hout not_recorded
  | cloneSender handle copy =>
      simp only [step, Option.ite_none_right_eq_some] at hstep
      cases hstep.2
      exact absurd hout not_recorded
  | cloneReceiver handle copy =>
      simp only [step, Option.ite_none_right_eq_some] at hstep
      cases hstep.2
      exact absurd hout not_recorded
  | dropSender handle =>
      simp only [step, Option.ite_none_right_eq_some] at hstep
      cases hstep.2
      split_ifs at hout <;> exact absurd hout not_recorded
  | dropReceiver handle =>
      simp only [step, Option.ite_none_right_eq_some] at hstep
      cases hstep.2
      split_ifs at hout <;> exact absurd hout not_recorded

theorem sendLoop_closed (hclosed : s.receiversOpen = false) (call : SendCall α) (choice : ℕ) :
    s.sendLoop call choice = some (s.record (.sendFailed call.thread call.value)) := by
  simp [sendLoop, full, hclosed]

theorem refuses_of_closed (h : Inv capacity s) (hgone : s.receivers = []) : s.Refuses := by
  have hclosed : s.receiversOpen = false := by
    rw [Bool.eq_false_iff]
    exact fun hopen => h.receivers.mp hopen hgone
  refine ⟨(h.closed hclosed).1, (h.closed hclosed).2, fun call choice hcall => ?_,
    fun due i call writable choice hresume => ?_⟩
  · refine ⟨s.record (.sendFailed call.thread call.value), ?_, rfl⟩
    simp only [step, if_pos hcall]
    exact sendLoop_closed hclosed call choice
  · refine ⟨({ s with writable } : Channel α).record (.sendFailed call.thread call.value), ?_, rfl⟩
    simp only [step, hresume]
    exact sendLoop_closed (s := { s with writable }) hclosed call choice

theorem receivers_sendLoop {call : SendCall α} {choice : ℕ} (h : s.sendLoop call choice = some s') :
    s'.receivers = s.receivers := by
  rcases sendLoop_cases h with ⟨-, -, rfl⟩ | ⟨-, rfl⟩ | ⟨-, -, readable, -, rfl⟩ <;> rfl

theorem receivers_recvLoop {call : RecvCall} {expired : Bool} {choice : ℕ}
    (h : s.recvLoop call expired choice = some s') : s'.receivers = s.receivers := by
  rcases recvLoop_cases h with ⟨-, -, rfl⟩ | ⟨-, -, rfl⟩ | ⟨value, queue, writable, -, -, rfl⟩ <;> rfl

theorem receivers_nil_step (hgone : s.receivers = []) {action : Action α} (hstep : s.step action = some s') :
    s'.receivers = [] := by
  cases action with
  | send call choice =>
      simp only [step, Option.ite_none_right_eq_some] at hstep
      exact (receivers_sendLoop hstep.2).trans hgone
  | resumeSend due i choice =>
      obtain ⟨⟨call, writable⟩, -, hstep⟩ := Option.bind_eq_some_iff.mp hstep
      exact (receivers_sendLoop hstep).trans hgone
  | recv call expired choice =>
      simp only [step, Option.ite_none_right_eq_some] at hstep
      exact (receivers_recvLoop hstep.2).trans hgone
  | resumeRecv due i expired choice =>
      obtain ⟨⟨call, readable⟩, -, hstep⟩ := Option.bind_eq_some_iff.mp hstep
      exact (receivers_recvLoop hstep).trans hgone
  | wakeSender i =>
      obtain ⟨writable, -, hstep⟩ := Option.bind_eq_some_iff.mp hstep
      cases hstep
      exact hgone
  | wakeReceiver i =>
      obtain ⟨readable, -, hstep⟩ := Option.bind_eq_some_iff.mp hstep
      cases hstep
      exact hgone
  | cloneSender handle copy =>
      simp only [step, Option.ite_none_right_eq_some] at hstep
      cases hstep.2
      exact hgone
  | cloneReceiver handle copy =>
      simp [step, hgone] at hstep
  | dropSender handle =>
      simp only [step, Option.ite_none_right_eq_some] at hstep
      cases hstep.2
      split_ifs <;> exact hgone
  | dropReceiver handle =>
      simp [step, hgone] at hstep

/-- **The channel is a lossless bounded FIFO**, whatever the interleaving. -/
theorem lossless_fifo {s₀ : Channel α} {actions : List (Action α)} (hnew : bounded α capacity = .ok s₀)
    (hrun : Machine.run step s₀ actions = some s) :
    s.queue.length ≤ capacity ∧
    (s.receivers ≠ [] → s.received ++ s.queue = s.sent) ∧
    (∀ action s' outcome, s.step action = some s' → s'.outcomes = s.outcomes ++ [outcome] →
      s.Justified outcome) ∧
    (s.receivers = [] → ∀ later s', Machine.run step s later = some s' → s'.Refuses) := by
  have h := inv_run hnew hrun
  refine ⟨h.queue_le, fun hne => h.history (h.receivers.mpr hne),
    fun action s' outcome hstep hout => justified_step h hstep hout, fun hgone later s' hlater => ?_⟩
  have hboth : Inv capacity s' ∧ s'.receivers = [] := by
    refine Machine.run_invariant step (I := fun t => Inv capacity t ∧ t.receivers = []) ?_ ⟨h, hgone⟩ hlater
    intro t action t' ht hstep
    exact ⟨inv_step ht.1 hstep, receivers_nil_step ht.2 hstep⟩
  exact refuses_of_closed hboth.1 hboth.2

/-- A channel with one slot, three values and a receiver that takes one of them and goes. -/
def backpressured : List (Action ℕ) :=
  [.send ⟨0, 0, 7⟩ 0, .send ⟨1, 0, 8⟩ 0, .recv ⟨2, 0, false⟩ false 0, .resumeSend .notified 0 0,
    .send ⟨0, 0, 9⟩ 0, .dropReceiver 0]

theorem lossless_fifo_backpressured : ∃ s₀ s : Channel ℕ, bounded ℕ 1 = .ok s₀ ∧
    Machine.run step s₀ backpressured = some s ∧ s.received = [7] ∧ s.sent = [7, 8] ∧
    s.writable.notified.map SendCall.value = [9] ∧ s.Refuses := by
  have hnew : bounded ℕ 1 = .ok ⟨1, [], true, true, .new, .new, [0], [0], []⟩ := rfl
  have hend : (Machine.run step (⟨1, [], true, true, .new, .new, [0], [0], []⟩ : Channel ℕ) backpressured).map
      (fun s => (s.received, s.sent, s.writable.notified.map SendCall.value, s.receivers)) =
        some ([7], [7, 8], [9], []) := rfl
  obtain ⟨s, hrun, hs⟩ := Option.map_eq_some_iff.mp hend
  simp only [Prod.mk.injEq] at hs
  obtain ⟨hreceived, hsent, hnotified, hgone⟩ := hs
  exact ⟨_, s, hnew, hrun, hreceived, hsent, hnotified, (lossless_fifo hnew hrun).2.2.2 hgone [] s rfl⟩

end DatasetRt.Channel
