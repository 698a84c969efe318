import Mathlib

/-! # Condition variables

A call that waits on a condition variable is `waiting`, `notified` (and has not run again yet) or
`woken`, without a notification, by a timeout or spuriously.  Which waiting call a `notifyOne` picks
is an argument; out of range it is not a choice. -/

namespace DatasetRt

/-- A condition variable with the calls of type `τ` that are on it. -/
structure Condvar (τ : Type) where
  waiting : List τ
  notified : List τ
  woken : List τ

/-- Why a waiting call is due to run again. -/
inductive Due where
  | notified
  | woken
deriving DecidableEq, Repr

namespace Condvar

variable {τ : Type}

def new : Condvar τ := ⟨[], [], []⟩

/-- All calls on the variable. -/
def calls (c : Condvar τ) : List τ := c.waiting ++ c.notified ++ c.woken

def wait (c : Condvar τ) (call : τ) : Condvar τ := { c with waiting := c.waiting ++ [call] }

/-- One waiting call is notified, if there is one. -/
def notifyOne (c : Condvar τ) (choice : ℕ) : Option (Condvar τ) :=
  if c.waiting = [] then some c
  else c.waiting[choice]?.map fun call =>
    { c with waiting := c.waiting.eraseIdx choice, notified := c.notified ++ [call] }

def notifyAll (c : Condvar τ) : Condvar τ := { c with waiting := [], notified := c.notified ++ c.waiting }

/-- A waiting call stops waiting without a notification. -/
def wake (c : Condvar τ) (i : ℕ) : Option (Condvar τ) :=
  c.waiting[i]?.map fun call =>
    { c with waiting := c.waiting.eraseIdx i, woken := c.woken ++ [call] }

/-- A call that is due runs again. -/
def resume (c : Condvar τ) (due : Due) (i : ℕ) : Option (τ × Condvar τ) :=
  match due with
  | .notified => c.notified[i]?.map fun call => (call, { c with notified := c.notified.eraseIdx i })
  | .woken => c.woken[i]?.map fun call => (call, { c with woken := c.woken.eraseIdx i })

theorem perm_eraseIdx_of_getElem? {l : List τ} {i : ℕ} {call : τ} (h : l[i]? = some call) :
    l.Perm (call :: l.eraseIdx i) := by
  obtain ⟨hi, rfl⟩ := List.getElem?_eq_some_iff.mp h
  exact (List.getElem_cons_eraseIdx_perm hi).symm

theorem length_eraseIdx_of_getElem? {l : List τ} {i : ℕ} {call : τ} (h : l[i]? = some call) :
    (l.eraseIdx i).length + 1 = l.length := by
  simpa using (perm_eraseIdx_of_getElem? h).length_eq.symm

theorem notifyOne_cases {c c' : Condvar τ} {choice : ℕ} (h : c.notifyOne choice = some c') :
    (c.waiting = [] ∧ c' = c) ∨
    (c'.notified.length = c.notified.length + 1 ∧ c'.woken = c.woken ∧ c'.calls.Perm c.calls ∧
      (c'.waiting ≠ [] → c.waiting ≠ [])) := by
  unfold notifyOne at h
  split_ifs at h with hw
  · exact .inl ⟨hw, (Option.some.inj h).symm⟩
  · obtain ⟨call, hcall, rfl⟩ := Option.map_eq_some_iff.mp h
    refine .inr ⟨by simp, rfl, ?_, fun _ => hw⟩
    have hperm : (c.waiting.eraseIdx choice ++ (c.notified ++ [call])).Perm (c.waiting ++ c.notified) := by
      rw [← List.append_assoc]
      refine (List.perm_append_singleton _ _).trans ?_
      exact (perm_eraseIdx_of_getElem? hcall).symm.append_right c.notified
    exact hperm.append_right c.woken

theorem calls_notifyOne {c c' : Condvar τ} {choice : ℕ} (h : c.notifyOne choice = some c') :
    c'.calls.Perm c.calls := by
  rcases notifyOne_cases h with ⟨-, rfl⟩ | ⟨-, -, hperm, -⟩
  · exact List.Perm.refl _
  · exact hperm

theorem calls_notifyAll (c : Condvar τ) : c.notifyAll.calls.Perm c.calls := by
  simp only [notifyAll, calls, List.nil_append]
  exact List.perm_append_comm.append_right c.woken

theorem calls_wait (c : Condvar τ) (call : τ) : (c.wait call).calls.Perm (call :: c.calls) := by
  simp only [wait, calls, List.append_assoc, List.singleton_append]
  exact List.perm_middle

theorem calls_wake {c c' : Condvar τ} {i : ℕ} (h : c.wake i = some c') : c'.calls.Perm c.calls := by
  obtain ⟨call, hcall, rfl⟩ := Option.map_eq_some_iff.mp h
  have hperm := (perm_eraseIdx_of_getElem? hcall).append_right (c.notified ++ c.woken)
  simp only [calls, List.append_assoc]
  refine List.Perm.trans ?_ hperm.symm
  rw [← List.append_assoc, ← List.append_assoc, List.cons_append, ← List.append_assoc]
  exact List.perm_append_singleton _ _

theorem wake_eq {c c' : Condvar τ} {i : ℕ} (h : c.wake i = some c') :
    c'.notified = c.notified ∧ (c'.waiting ≠ [] → c.waiting ≠ []) := by
  obtain ⟨call, hcall, rfl⟩ := Option.map_eq_some_iff.mp h
  refine ⟨rfl, fun _ hnil => ?_⟩
  simp [hnil] at hcall

/-- What is left on the variable when a call runs again. -/
theorem resume_cases {c c' : Condvar τ} {due : Due} {i : ℕ} {call : τ} (h : c.resume due i = some (call, c')) :
    c.calls.Perm (call :: c'.calls) ∧ c'.waiting = c.waiting ∧ c.notified.length ≤ c'.notified.length + 1 := by
  cases due with
  | notified =>
      obtain ⟨other, hother, heq⟩ := Option.map_eq_some_iff.mp h
      cases heq
      refine ⟨?_, rfl, (length_eraseIdx_of_getElem? hother).ge⟩
      have hperm := ((perm_eraseIdx_of_getElem? hother).append_left c.waiting).append_right c.woken
      simp only [calls]
      refine hperm.trans ?_
      simp only [List.append_assoc, List.cons_append]
      exact List.perm_middle
  | woken =>
      obtain ⟨other, hother, heq⟩ := Option.map_eq_some_iff.mp h
      cases heq
      refine ⟨?_, rfl, Nat.le_succ _⟩
      have hperm := (perm_eraseIdx_of_getElem? hother).append_left (c.waiting ++ c.notified)
      exact hperm.trans List.perm_middle

end Condvar

end DatasetRt
