import DatasetRt.Types
import DatasetRt.Lib.Condvar
import DatasetRt.Lib.Machine

/-! # The bounded channel

`channel.rs`: a queue behind a mutex, with one condition variable for receivers and one for senders.
A critical section, from taking the lock to releasing it or waiting on a condition variable, is one
action.  `sendLoop` and `recvLoop` are the bodies that a call runs when it enters and again whenever
it is woken.

A call borrows the handle it is made on, so the handle is not dropped before the call returns.
`outcomes` are the calls that returned, in the order of their last critical sections. -/

namespace DatasetRt

namespace Channel

/-- A call of `send`. -/
structure SendCall (α : Type) where
  thread : ℕ
  handle : ℕ
  value : α

/-- A call of `recv`, or of `recv_timeout`. -/
structure RecvCall where
  thread : ℕ
  handle : ℕ
  timed : Bool
deriving DecidableEq, Repr

/-- How a call returned. -/
inductive Outcome (α : Type) where
  | sent (thread : ℕ) (value : α)
  | sendFailed (thread : ℕ) (value : α)
  | received (thread : ℕ) (value : α)
  | recvFailed (thread : ℕ)
  | timeout (thread : ℕ)
  | disconnected (thread : ℕ)
deriving DecidableEq, Repr

/-- The value of a successful `send`. -/
def Outcome.sentValue {α : Type} : Outcome α → Option α
  | sent _ value => some value
  | _ => none

/-- The value that a call received. -/
def Outcome.receivedValue {α : Type} : Outcome α → Option α
  | received _ value => some value
  | _ => none

end Channel

open Channel

/-- The channel with its handles, the calls on its condition variables, and what returned so far. -/
structure Channel (α : Type) where
  capacity : ℕ
  queue : List α
  sendersOpen : Bool
  receiversOpen : Bool
  readable : Condvar RecvCall
  writable : Condvar (SendCall α)
  senders : List ℕ
  receivers : List ℕ
  outcomes : List (Outcome α)

namespace Channel

variable {α : Type}

/-- `bounded`, but for the allocation of the queue. -/
def bounded (α : Type) (capacity : ℕ) : CacheResult (Channel α) :=
  if capacity = 0 then .error (.invalidInput "channel capacity must be positive")
  else .ok
    { capacity, queue := [], sendersOpen := true, receiversOpen := true, readable := .new, writable := .new
      senders := [0], receivers := [0], outcomes := [] }

inductive Action (α : Type) where
  | send (call : SendCall α) (choice : ℕ)
  | resumeSend (due : Due) (i choice : ℕ)
  | recv (call : RecvCall) (expired : Bool) (choice : ℕ)
  | resumeRecv (due : Due) (i : ℕ) (expired : Bool) (choice : ℕ)
  | wakeSender (i : ℕ)
  | wakeReceiver (i : ℕ)
  | cloneSender (handle copy : ℕ)
  | cloneReceiver (handle copy : ℕ)
  | dropSender (handle : ℕ)
  | dropReceiver (handle : ℕ)

def record (s : Channel α) (outcome : Outcome α) : Channel α := { s with outcomes := s.outcomes ++ [outcome] }

/-- The successfully sent values. -/
def sent (s : Channel α) : List α := s.outcomes.filterMap Outcome.sentValue

/-- The received values. -/
def received (s : Channel α) : List α := s.outcomes.filterMap Outcome.receivedValue

/-! ### The critical sections -/

/-- The condition of `send` under `wait_while`. -/
def full (s : Channel α) : Bool := s.receiversOpen && s.queue.length == s.capacity

/-- The condition of `recv` under `wait_while`. -/
def drained (s : Channel α) : Bool := s.sendersOpen && s.queue.isEmpty

/-- `send` from the test of its wait condition on. -/
def sendLoop (s : Channel α) (call : SendCall α) (choice : ℕ) : Option (Channel α) :=
  if s.full then some { s with writable := s.writable.wait call }
  else if !s.receiversOpen then some (s.record (.sendFailed call.thread call.value))
  else do
    let readable ← s.readable.notifyOne choice
    some (({ s with queue := s.queue ++ [call.value], readable } : Channel α).record
      (.sent call.thread call.value))

/-- What `recv` and `recv_timeout` do once they no longer wait. -/
def finishRecv (s : Channel α) (call : RecvCall) (choice : ℕ) : Option (Channel α) :=
  match s.queue with
  | value :: queue => do
      let writable ← s.writable.notifyOne choice
      some (({ s with queue, writable } : Channel α).record (.received call.thread value))
  | [] =>
      if !call.timed then some (s.record (.recvFailed call.thread))
      else if !s.sendersOpen then some (s.record (.disconnected call.thread))
      else some (s.record (.timeout call.thread))

/-- `recv` or `recv_timeout` from the test of its wait condition on; `expired` says whether the deadline
has passed. -/
def recvLoop (s : Channel α) (call : RecvCall) (expired : Bool) (choice : ℕ) : Option (Channel α) :=
  if s.drained && !(call.timed && expired) then some { s with readable := s.readable.wait call }
  else s.finishRecv call choice

/-- `Drop for SenderOwner`. -/
def closeSenders (s : Channel α) : Channel α := { s with sendersOpen := false, readable := s.readable.notifyAll }

/-- `Drop for ReceiverOwner`. -/
def closeReceivers (s : Channel α) : Channel α :=
  { s with receiversOpen := false, queue := [], writable := s.writable.notifyAll }

def step (s : Channel α) : Action α → Option (Channel α)
  | .send call choice => if call.handle ∈ s.senders then s.sendLoop call choice else none
  | .resumeSend due i choice => do
      let (call, writable) ← s.writable.resume due i
      ({ s with writable } : Channel α).sendLoop call choice
  | .recv call expired choice => if call.handle ∈ s.receivers then s.recvLoop call expired choice else none
  | .resumeRecv due i expired choice => do
      let (call, readable) ← s.readable.resume due i
      ({ s with readable } : Channel α).recvLoop call expired choice
  | .wakeSender i => do
      let writable ← s.writable.wake i
      some { s with writable }
  | .wakeReceiver i => do
      let readable ← s.readable.wake i
      some { s with readable }
  | .cloneSender handle copy =>
      if handle ∈ s.senders ∧ copy ∉ s.senders then some { s with senders := copy :: s.senders } else none
  | .cloneReceiver handle copy =>
      if handle ∈ s.receivers ∧ copy ∉ s.receivers then some { s with receivers := copy :: s.receivers } else none
  | .dropSender handle =>
      if handle ∈ s.senders ∧ ∀ call ∈ s.writable.calls, call.handle ≠ handle then
        let rest := { s with senders := s.senders.erase handle }
        some (if rest.senders = [] then rest.closeSenders else rest)
      else none
  | .dropReceiver handle =>
      if handle ∈ s.receivers ∧ ∀ call ∈ s.readable.calls, call.handle ≠ handle then
        let rest := { s with receivers := s.receivers.erase handle }
        some (if rest.receivers = [] then rest.closeReceivers else rest)
      else none

/-! ### What a critical section can do -/

theorem sendLoop_cases {s s' : Channel α} {call : SendCall α} {choice : ℕ}
    (h : s.sendLoop call choice = some s') :
    (s.receiversOpen = true ∧ s.queue.length = s.capacity ∧
      s' = { s with writable := s.writable.wait call }) ∨
    (s.receiversOpen = false ∧ s' = s.record (.sendFailed call.thread call.value)) ∨
    (s.receiversOpen = true ∧ s.queue.length ≠ s.capacity ∧ ∃ readable, s.readable.notifyOne choice = some readable ∧
      s' = ({ s with queue := s.queue ++ [call.value], readable } : Channel α).record
        (.sent call.thread call.value)) := by
  unfold sendLoop full at h
  cases hopen : s.receiversOpen with
  | false =>
      simp only [hopen, Bool.false_and, Bool.false_eq_true, if_false, Bool.not_false, if_true,
        Option.some.injEq] at h
      exact .inr (.inl ⟨rfl, h.symm⟩)
  | true =>
      simp only [hopen, Bool.true_and, beq_iff_eq, Bool.not_true, Bool.false_eq_true, if_false] at h
      split_ifs at h with hfull
      · exact .inl ⟨rfl, hfull, (Option.some.inj h).symm⟩
      · obtain ⟨readable, hreadable, h⟩ := Option.bind_eq_some_iff.mp h
        exact .inr (.inr ⟨rfl, hfull, readable, hreadable, (Option.some.inj h).symm⟩)

/-- How a receiving call leaves its last critical section. -/
def emptyOutcome (s : Channel α) (call : RecvCall) : Outcome α :=
  if !call.timed then .recvFailed call.thread
  else if !s.sendersOpen then .disconnected call.thread
  else .timeout call.thread

theorem recvLoop_cases {s s' : Channel α} {call : RecvCall} {expired : Bool} {choice : ℕ}
    (h : s.recvLoop call expired choice = some s') :
    (s.sendersOpen = true ∧ s.queue = [] ∧ s' = { s with readable := s.readable.wait call }) ∨
    (s.queue = [] ∧ (s.sendersOpen = true → call.timed = true) ∧ s' = s.record (s.emptyOutcome call)) ∨
    (∃ value queue writable, s.queue = value :: queue ∧ s.writable.notifyOne choice = some writable ∧
      s' = ({ s with queue, writable } : Channel α).record (.received call.thread value)) := by
  unfold recvLoop drained at h
  cases hqueue : s.queue with
  | cons value queue =>
      simp only [hqueue, List.isEmpty_cons, Bool.and_false, Bool.false_and, Bool.false_eq_true, if_false,
        finishRecv] at h
      obtain ⟨writable, hwritable, h⟩ := Option.bind_eq_some_iff.mp h
      exact .inr (.inr ⟨value, queue, writable, rfl, hwritable, (Option.some.inj h).symm⟩)
  | nil =>
      simp only [hqueue, List.isEmpty_nil, Bool.and_true] at h
      split_ifs at h with hwait
      · rw [Bool.and_eq_true] at hwait
        exact .inl ⟨hwait.1, rfl, (Option.some.inj h).symm⟩
      · refine .inr (.inl ⟨rfl, fun hopen => ?_, ?_⟩)
        · rw [hopen, Bool.true_and, Bool.not_eq_true', Bool.not_eq_false, Bool.and_eq_true] at hwait
          exact hwait.1
        · simp only [finishRecv, hqueue] at h
          unfold emptyOutcome
          split_ifs at h ⊢ <;> exact (Option.some.inj h).symm

end Channel

end DatasetRt
