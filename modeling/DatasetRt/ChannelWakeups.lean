import DatasetRt.ChannelFifo

/-! # The channel loses no wakeup

A queued value or a free slot that nobody is going to take is counted against the calls that were
notified and have not run again yet.  `ReceiversCovered s k` and `SendersCovered s k` say that the
notified calls, and `k` more that are running, are enough; a critical section that starts with one
call running ends with none (`covered_sendLoop`, `covered_recvLoop`). -/

namespace DatasetRt.Channel

variable {α : Type} {s s' : Channel α} {k : ℕ}

/-- If a receiver waits, the queued values are left to the notified receivers and `k` others. -/
def ReceiversCovered (s : Channel α) (k : ℕ) : Prop :=
  s.readable.waiting ≠ [] → s.sendersOpen = true ∧ s.queue.length ≤ s.readable.notified.length + k

/-- If a sender waits, the free slots are left to the notified senders and `k` others. -/
def SendersCovered (s : Channel α) (k : ℕ) : Prop :=
  s.writable.waiting ≠ [] →
    s.receiversOpen = true ∧ s.capacity - s.queue.length ≤ s.writable.notified.length + k

theorem notified_of_notifyOne {τ : Type} {c c' : Condvar τ} {choice n : ℕ} (h : c.notifyOne choice = some c')
    (hle : c.waiting ≠ [] → n ≤ c.notified.length) (hwaiting : c'.waiting ≠ []) :
    c.waiting ≠ [] ∧ n + 1 ≤ c'.notified.length := by
  rcases Condvar.notifyOne_cases h with ⟨hnil, rfl⟩ | ⟨hlen, -, -, hkeep⟩
  · exact absurd hnil hwaiting
  · have := hle (hkeep hwaiting)
    exact ⟨hkeep hwaiting, by omega⟩

theorem covered_sendLoop {call : SendCall α} {choice : ℕ} (hsenders : s.SendersCovered 1)
    (hreceivers : s.ReceiversCovered 0) (hstep : s.sendLoop call choice = some s') :
    s'.SendersCovered 0 ∧ s'.ReceiversCovered 0 := by
  rcases sendLoop_cases hstep with ⟨hopen, hfull, rfl⟩ | ⟨hclosed, rfl⟩ | ⟨hopen, -, readable, hreadable, rfl⟩
  · refine ⟨fun _ => ⟨hopen, ?_⟩, hreceivers⟩
    rw [hfull, Nat.sub_self]
    exact Nat.zero_le _
  · -- the sender gives up; the others were notified when the receivers went
    refine ⟨fun hwaiting => ?_, hreceivers⟩
    exact absurd (hsenders hwaiting).1 (by simp [hclosed])
  · refine ⟨fun hwaiting => ⟨hopen, ?_⟩, fun hwaiting => ?_⟩
    · have hle := (hsenders hwaiting).2
      simp only [record, List.length_append, List.length_singleton]
      omega
    · obtain ⟨hbefore, hlen⟩ := notified_of_notifyOne (n := s.queue.length) hreadable
        (fun hne => (hreceivers hne).2) hwaiting
      refine ⟨(hreceivers hbefore).1, ?_⟩
      simpa [record] using hlen

theorem covered_recvLoop {call : RecvCall} {expired : Bool} {choice : ℕ} (hsenders : s.SendersCovered 0)
    (hreceivers : s.ReceiversCovered 1) (hstep : s.recvLoop call expired choice = some s') :
    s'.SendersCovered 0 ∧ s'.ReceiversCovered 0 := by
  rcases recvLoop_cases hstep with ⟨hopen, hqueue, rfl⟩ | ⟨hqueue, -, rfl⟩ |
    ⟨value, queue, writable, hqueue, hwritable, rfl⟩
  · refine ⟨hsenders, fun _ => ⟨hopen, ?_⟩⟩
    rw [hqueue]
    exact Nat.zero_le _
  · refine ⟨hsenders, fun hwaiting => ⟨(hreceivers hwaiting).1, ?_⟩⟩
    simp [record, hqueue]
  · refine ⟨fun hwaiting => ?_, fun hwaiting => ⟨(hreceivers hwaiting).1, ?_⟩⟩
    · obtain ⟨hbefore, hlen⟩ := notified_of_notifyOne (n := s.capacity - s.queue.length) hwritable
        (fun hne => (hsenders hne).2) hwaiting
      refine ⟨(hsenders hbefore).1, ?_⟩
      simp only [hqueue, List.length_cons] at hlen
      simp only [record]
      omega
    · have hle := (hreceivers hwaiting).2
      simp only [hqueue, List.length_cons] at hle
      simp only [record]
      omega

/-- A call that runs again stands for one notification. -/
theorem sendersCovered_resume {due : Due} {i : ℕ} {call : SendCall α} {writable : Condvar (SendCall α)}
    (h : s.SendersCovered 0) (hresume : s.writable.resume due i = some (call, writable)) :
    ({ s with writable } : Channel α).SendersCovered 1 := by
  obtain ⟨-, hwaiting, hlen⟩ := Condvar.resume_cases hresume
  intro hne
  obtain ⟨hopen, hle⟩ := h fun hnil => hne (hwaiting.trans hnil)
  exact ⟨hopen, hle.trans hlen⟩

theorem receiversCovered_resume {due : Due} {i : ℕ} {call : RecvCall} {readable : Condvar RecvCall}
    (h : s.ReceiversCovered 0) (hresume : s.readable.resume due i = some (call, readable)) :
    ({ s with readable } : Channel α).ReceiversCovered 1 := by
  obtain ⟨-, hwaiting, hlen⟩ := Condvar.resume_cases hresume
  intro hne
  obtain ⟨hopen, hle⟩ := h fun hnil => hne (hwaiting.trans hnil)
  exact ⟨hopen, hle.trans hlen⟩

theorem SendersCovered.succ (h : s.SendersCovered k) : s.SendersCovered (k + 1) := fun hne =>
  ⟨(h hne).1, Nat.le_succ_of_le (h hne).2⟩

theorem ReceiversCovered.succ (h : s.ReceiversCovered k) : s.ReceiversCovered (k + 1) := fun hne =>
  ⟨(h hne).1, Nat.le_succ_of_le (h hne).2⟩

theorem covered_step (hsenders : s.SendersCovered 0) (hreceivers : s.ReceiversCovered 0) {action : Action α}
    (hstep : s.step action = some s') : s'.SendersCovered 0 ∧ s'.ReceiversCovered 0 := by
  cases action with
  | send call choice =>
      simp only [step, Option.ite_none_right_eq_some] at hstep
      exact covered_sendLoop hsenders.succ hreceivers hstep.2
  | resumeSend due i choice =>
      obtain ⟨⟨call, writable⟩, hresume, hstep⟩ := Option.bind_eq_some_iff.mp hstep
      exact covered_sendLoop (sendersCovered_resume hsenders hresume) hreceivers hstep
  | recv call expired choice =>
      simp only [step, Option.ite_none_right_eq_some] at hstep
      exact covered_recvLoop hsenders hreceivers.succ hstep.2
  | resumeRecv due i expired choice =>
      obtain ⟨⟨call, readable⟩, hresume, hstep⟩ := Option.bind_eq_some_iff.mp hstep
      exact covered_recvLoop (s := { s with readable }) hsenders (receiversCovered_resume hreceivers hresume) hstep
  | wakeSender i =>
      obtain ⟨writable, hwake, hstep⟩ := Option.bind_eq_some_iff.mp hstep
      cases hstep
      obtain ⟨hnotified, hwaiting⟩ := Condvar.wake_eq hwake
      refine ⟨fun hne => ?_, hreceivers⟩
      have hbefore := hsenders (hwaiting hne)
      rw [← hnotified] at hbefore
      exact hbefore
  | wakeReceiver i =>
      obtain ⟨readable, hwake, hstep⟩ := Option.bind_eq_some_iff.mp hstep
      cases hstep
      obtain ⟨hnotified, hwaiting⟩ := Condvar.wake_eq hwake
      refine ⟨hsenders, fun hne => ?_⟩
      have hbefore := hreceivers (hwaiting hne)
      rw [← hnotified] at hbefore
      exact hbefore
  | cloneSender handle copy =>
      simp only [step, Option.ite_none_right_eq_some] at hstep
      cases hstep.2
      exact ⟨hsenders, hreceivers⟩
  | cloneReceiver handle copy =>
      simp only [step, Option.ite_none_right_eq_some] at hstep
      cases hstep.2
      exact ⟨hsenders, hreceivers⟩
  | dropSender handle =>
      simp only [step, Option.ite_none_right_eq_some] at hstep
      cases hstep.2
      split_ifs
      · exact ⟨hsenders, fun hne => absurd rfl hne⟩
      · exact ⟨hsenders, hreceivers⟩
  | dropReceiver handle =>
      simp only [step, Option.ite_none_right_eq_some] at hstep
      cases hstep.2
      split_ifs
      · -- the queue is emptied, so nothing is left to the receivers
        exact ⟨fun hne => absurd rfl hne, fun hne => ⟨(hreceivers hne).1, Nat.zero_le _⟩⟩
      · exact ⟨hsenders, hreceivers⟩

/-- **No wakeup is lost**: what the waiting calls wait for is left to notified ones, so a call does not
wait in vain while nobody else is due. -/
theorem no_lost_wakeup {capacity : ℕ} {s₀ : Channel α} {actions : List (Action α)}
    (hnew : bounded α capacity = .ok s₀) (hrun : Machine.run step s₀ actions = some s) :
    (s.readable.waiting ≠ [] → s.sendersOpen = true ∧ s.queue.length ≤ s.readable.notified.length) ∧
    (s.writable.waiting ≠ [] →
      s.receiversOpen = true ∧ s.capacity - s.queue.length ≤ s.writable.notified.length) ∧
    (s.readable.waiting ≠ [] → s.drained = false → s.readable.notified ≠ []) ∧
    (s.writable.waiting ≠ [] → s.full = false → s.writable.notified ≠ []) := by
  have hstart : s₀.SendersCovered 0 ∧ s₀.ReceiversCovered 0 := by
    unfold bounded at hnew
    split_ifs at hnew
    cases hnew
    exact ⟨fun hne => absurd rfl hne, fun hne => absurd rfl hne⟩
  obtain ⟨hsenders, hreceivers⟩ := Machine.run_invariant step
    (I := fun t => t.SendersCovered 0 ∧ t.ReceiversCovered 0)
    (fun _ _ _ h hstep => covered_step h.1 h.2 hstep) hstart hrun
  have hinv := inv_run hnew hrun
  refine ⟨hreceivers, hsenders, fun hwaiting hready hnil => ?_, fun hwaiting hready hnil => ?_⟩
  · obtain ⟨hopen, hle⟩ := hreceivers hwaiting
    rw [hnil, List.length_nil, Nat.le_zero, List.length_eq_zero_iff] at hle
    simp [drained, hopen, hle] at hready
  · obtain ⟨hopen, hle⟩ := hsenders hwaiting
    have hqueue := hinv.queue_le
    rw [hnil, List.length_nil] at hle
    rw [← hinv.capacity_eq] at hqueue
    have hfull : s.queue.length = s.capacity := by omega
    simp [full, hopen, hfull] at hready

/-- Two receivers wait, a value is sent, and a third receiver overtakes the notified one, which waits
again. -/
def overtaken : List (Action ℕ) :=
  [.recv ⟨0, 0, false⟩ false 0, .recv ⟨1, 0, true⟩ false 0, .send ⟨2, 0, 7⟩ 1, .recv ⟨3, 0, false⟩ false 0,
    .resumeRecv .notified 0 false 0, .send ⟨2, 0, 8⟩ 0]

theorem no_lost_wakeup_overtaken : ∃ s₀ s : Channel ℕ, bounded ℕ 2 = .ok s₀ ∧
    Machine.run step s₀ overtaken = some s ∧ s.queue = [8] ∧ s.readable.waiting.map RecvCall.thread = [1] ∧
    s.readable.notified ≠ [] := by
  have hnew : bounded ℕ 2 = .ok ⟨2, [], true, true, .new, .new, [0], [0], []⟩ := rfl
  have hend : (Machine.run step (⟨2, [], true, true, .new, .new, [0], [0], []⟩ : Channel ℕ) overtaken).map
      (fun s => (s.queue, s.readable.waiting.map RecvCall.thread, s.drained)) = some ([8], [1], false) := rfl
  obtain ⟨s, hrun, hs⟩ := Option.map_eq_some_iff.mp hend
  simp only [Prod.mk.injEq] at hs
  obtain ⟨hqueue, hwaiting, hready⟩ := hs
  refine ⟨_, s, hnew, hrun, hqueue, hwaiting, (no_lost_wakeup hnew hrun).2.2.1 (fun hnil => ?_) hready⟩
  simp [hnil] at hwaiting

end DatasetRt.Channel
