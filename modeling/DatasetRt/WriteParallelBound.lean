import DatasetRt.SourceSupervision
import DatasetRt.WriteParallelTurns

/-! # The parallel writer ends

`_supervise` sleeps between two rounds, and every child that has to report something has a deadline.  `Paced` is
`write_parallel` with a clock that advances between rounds.  `budget` bounds the steps that the parent can still make:
the children may hang, die or say nothing, the disk may change, sources may be refused, and the number of steps depends
only on the number of processes, of sources and the timeout.

`Timed` is the invariant: a deadline is not far away (`ahead`), at the end of a round it is not past (`fresh`), and then
nobody is idle while there are sources left (`busy`). -/

namespace DatasetRt.WriteParallel

/-! ### Rounds -/

def isParent : ParallelAct → Bool
  | .parent _ => true
  | _ => false

/-- The next step of the parent starts a round of polls. -/
def Pool.starts (jobs : List SourceItem) (p : Pool) : Bool :=
  match p.phase with
  | .looping => decide (p.outcomes.length < jobs.length)
  | _ => false

/-- `lastRound` is the time at which the last round started. -/
structure Paced where
  state : WriteParallel
  lastRound : Option ℕ

namespace Paced

/-- `time.sleep` has passed since the last round. -/
def rested (s : Paced) : Bool :=
  match s.lastRound with
  | none => true
  | some last => decide (last < s.state.now)

def step (c : ParallelCall) (jobs : List SourceItem) (s : Paced) (a : ParallelAct) : Option Paced :=
  if isParent a && s.state.pool.starts jobs then
    if s.rested then (WriteParallel.step c jobs s.state a).map fun state => ⟨state, some s.state.now⟩ else none
  else (WriteParallel.step c jobs s.state a).map fun state => ⟨state, s.lastRound⟩

def new (disk : FileTree) : Paced := ⟨.new disk, none⟩

end Paced

/-! ### The budget -/

/-- The rounds in which a child with this deadline can still be waited for. -/
def span (timeout : ℕ) (lastRound : Option ℕ) (deadline : ℕ) : ℕ :=
  match lastRound with
  | none => timeout + 2
  | some last => min (deadline + 1 - last) (timeout + 2)

def WorkerState.span (timeout : ℕ) (lastRound : Option ℕ) (state : WorkerState) : ℕ :=
  match state.deadline? with
  | none => 0
  | some deadline => WriteParallel.span timeout lastRound deadline

def ParallelCall.children (c : ParallelCall) (jobs : List SourceItem) : ℕ := min c.numProcesses jobs.length

/-- The rounds that can still start. -/
def rounds (c : ParallelCall) (jobs : List SourceItem) (lastRound : Option ℕ) (p : Pool) : ℕ :=
  (p.workers.map fun w => w.state.span c.processTimeout lastRound).sum +
    (c.children jobs - p.workers.length + (jobs.length - p.nextIndex)) * (c.processTimeout + 3)

def PollPoint.left : PollPoint → ℕ
  | .results => 2
  | .exitcode => 1
  | .deadline => 0

def StopPoint.left : StopPoint → ℕ
  | .ask => 2
  | .release => 1

/-- The steps to the end of the round, or of `_stop_all`. -/
def ParentPhase.left (workers : ℕ) : ParentPhase → ℕ
  | .spawning => 1
  | .looping => 0
  | .polling k point _ => 3 * (workers - k) + point.left + (workers + 2)
  | .dispatching k => workers - k + 1
  | .stopping k point _ _ => 2 * (workers - k) + point.left
  | .returned _ | .raised _ => 0

/-- The steps that the parent can still make. -/
def budget (c : ParallelCall) (jobs : List SourceItem) (lastRound : Option ℕ) (p : Pool) : ℕ :=
  p.phase.left p.workers.length +
    if p.phase.supervising then
      (4 * c.children jobs + 5) * rounds c jobs lastRound p + (2 * c.children jobs + 3)
    else 0

/-- The bound for a call. -/
def turnBound (c : ParallelCall) (jobs : List SourceItem) : ℕ :=
  (4 * c.children jobs + 5) * ((c.children jobs + jobs.length) * (c.processTimeout + 3)) + (2 * c.children jobs + 4)

/-! ### The invariant -/

/-- The deadline of worker `j` was met in this round, or set in it. -/
def ParentPhase.checked (j : ℕ) : ParentPhase → Bool
  | .spawning | .looping | .dispatching _ => true
  | .polling k _ none => decide (j < k)
  | _ => false

/-- Worker `j` was offered a source. -/
def ParentPhase.served (j : ℕ) : ParentPhase → Bool
  | .spawning | .looping => true
  | .dispatching k => decide (j < k)
  | _ => false

/-- What holds of worker `j`. -/
structure WorkerTimed (c : ParallelCall) (jobs : List SourceItem) (lastRound : Option ℕ) (p : Pool) (j : ℕ)
    (state : WorkerState) : Prop where
  ahead : ∀ deadline, state.deadline? = some deadline → deadline ≤ p.now + c.processTimeout
  fresh : p.phase.checked j = true → ∀ deadline last, state.deadline? = some deadline → lastRound = some last →
    last ≤ deadline
  busy : p.phase.served j = true → state = .idle → jobs.length ≤ p.nextIndex

structure Timed (c : ParallelCall) (jobs : List SourceItem) (lastRound : Option ℕ) (p : Pool) : Prop where
  count : p.workers.length ≤ c.children jobs
  full : p.phase.supervising = true → p.phase = .spawning ∨ c.children jobs ≤ p.workers.length
  past : ∀ last, lastRound = some last → last ≤ p.now
  workers : ∀ (j : ℕ) (w : WriterProcess), p.workers[j]? = some w → WorkerTimed c jobs lastRound p j w.state

section turns

variable {c : ParallelCall} {jobs : List SourceItem} {last : Option ℕ} {p p' : Pool} {k : ℕ} {w w' : WriterProcess}

theorem sum_map_set {α : Type} (f : α → ℕ) (y : α) : ∀ {xs : List α} {k : ℕ} {x : α}, xs[k]? = some x →
    ((xs.set k y).map f).sum + f x = (xs.map f).sum + f y
  | _ :: _, 0, _, h => by
      obtain rfl := Option.some.inj h
      simp only [List.set_cons_zero, List.map_cons, List.sum_cons]
      omega
  | z :: xs, k + 1, x, h => by
      have hrest : xs[k]? = some x := h
      have ih := sum_map_set f y hrest
      simp only [List.set_cons_succ, List.map_cons, List.sum_cons]
      omega

theorem getElem?_set_cases {α : Type} {xs : List α} {y v : α} {j : ℕ} (h : (xs.set k y)[j]? = some v) :
    (j = k ∧ v = y) ∨ (j ≠ k ∧ xs[j]? = some v) := by
  rw [List.getElem?_set] at h
  split_ifs at h with hj hk
  · exact .inl ⟨hj.symm, (Option.some.inj h).symm⟩
  · exact .inr ⟨fun hjk => hj hjk.symm, h⟩

/-- A worker whose state is as before. -/
theorem WorkerTimed.same {j : ℕ} {state : WorkerState} (h : WorkerTimed c jobs last p j state) (hnow : p.now ≤ p'.now)
    (hindex : p.nextIndex ≤ p'.nextIndex) (hchecked : p'.phase.checked j = true → p.phase.checked j = true)
    (hserved : p'.phase.served j = true → p.phase.served j = true) : WorkerTimed c jobs last p' j state :=
  ⟨fun deadline hdeadline => (h.ahead deadline hdeadline).trans (Nat.add_le_add_right hnow _),
    fun hphase => h.fresh (hchecked hphase), fun hphase hidle => (h.busy (hserved hphase) hidle).trans hindex⟩

/-- Nothing is left to say of the deadlines once the children are stopped. -/
theorem Timed.stop (h : Timed c jobs last p) {last' : Option ℕ} (hpast : ∀ l, last' = some l → l ≤ p.now)
    {workers : List WriterProcess} (hlen : workers.length = p.workers.length)
    (hworkers : ∀ (j : ℕ) (v : WriterProcess), workers[j]? = some v → ∃ u, p.workers[j]? = some u ∧
      ∀ deadline, v.state.deadline? = some deadline → u.state.deadline? = some deadline)
    {nextIndex : ℕ} {outcomes : List (ℕ × CacheWriteResult)} {phase : ParentPhase} (hphase : phase.supervising = false) :
    Timed c jobs last' ⟨workers, nextIndex, outcomes, phase, p.now⟩ := by
  have hchecked : ∀ j, phase.checked j = false := by intro j; cases phase <;> first | rfl | cases hphase
  have hserved : ∀ j, phase.served j = false := by intro j; cases phase <;> first | rfl | cases hphase
  refine ⟨hlen ▸ h.count, by simp [hphase], hpast, fun j v hv => ?_⟩
  obtain ⟨u, hu, hdeadline⟩ := hworkers j v hv
  exact ⟨fun deadline hd => (h.workers j u hu).ahead deadline (hdeadline deadline hd), by simp [hchecked j],
    by simp [hserved j]⟩

theorem Timed.goto (h : Timed c jobs last p) {phase : ParentPhase}
    (hfull : phase.supervising = true → p.phase.supervising = true)
    (hspawned : phase.supervising = true → p.phase = .spawning → c.children jobs ≤ p.workers.length)
    (hchecked : ∀ (j : ℕ) (w : WriterProcess), p.workers[j]? = some w → phase.checked j = true → p.phase.checked j = true ∨
      ∀ deadline, w.state.deadline? = some deadline → p.now < deadline)
    (hserved : ∀ (j : ℕ) (w : WriterProcess), p.workers[j]? = some w → phase.served j = true → p.phase.served j = true ∨
      (w.state = .idle → jobs.length ≤ p.nextIndex)) : Timed c jobs last { p with phase } := by
  refine ⟨h.count, fun hsup => .inr ?_, h.past, fun j w hw => ⟨(h.workers j w hw).ahead, fun hphase deadline l hd hl => ?_,
    fun hphase hidle => ?_⟩⟩
  · exact (h.full (hfull hsup)).elim (hspawned hsup) id
  · rcases hchecked j w hw hphase with hbefore | hlater
    · exact (h.workers j w hw).fresh hbefore deadline l hd hl
    · exact (h.past l hl).trans (hlater deadline hd).le
  · rcases hserved j w hw hphase with hbefore | hlater
    · exact (h.workers j w hw).busy hbefore hidle
    · exact hlater hidle

/-! ### Moves -/

theorem span_le (timeout : ℕ) (last : Option ℕ) (state : WorkerState) : state.span timeout last ≤ timeout + 2 := by
  unfold WorkerState.span WriteParallel.span
  cases state.deadline? with
  | none => exact Nat.zero_le _
  | some deadline =>
      cases last with
      | none => exact le_refl _
      | some last => exact min_le_right _ _

/-- A round later there is less time. -/
theorem span_round {timeout now deadline : ℕ} (hahead : deadline ≤ now + timeout)
    (hrested : ∀ l, last = some l → l < now ∧ l ≤ deadline) :
    WriteParallel.span timeout (some now) deadline < WriteParallel.span timeout last deadline := by
  unfold WriteParallel.span
  cases last with
  | none =>
      simp only
      omega
  | some l =>
      have := hrested l rfl
      simp only
      omega

theorem left_le (h : p.workers.length ≤ c.children jobs) (hphase : p.phase.supervising = true) :
    p.phase.left p.workers.length ≤ 4 * c.children jobs + 4 := by
  cases hp : p.phase with
  | polling k point failure => cases point <;> simp only [ParentPhase.left, PollPoint.left] <;> omega
  | _ => first | (simp only [ParentPhase.left]; omega) | (rw [hp] at hphase; cases hphase)

theorem budget_of_supervising (hphase : p.phase.supervising = true) : budget c jobs last p =
    p.phase.left p.workers.length + ((4 * c.children jobs + 5) * rounds c jobs last p + (2 * c.children jobs + 3)) := by
  rw [budget, if_pos hphase]

theorem budget_of_not_supervising (hphase : p.phase.supervising = false) :
    budget c jobs last p = p.phase.left p.workers.length := by
  rw [budget, hphase]
  rfl

/-- To stop costs less than to go on. -/
theorem budget_stop {last' : Option ℕ} (hphase : p.phase.supervising = true) (hphase' : p'.phase.supervising = false)
    (hleft : p'.phase.left p'.workers.length ≤ 2 * c.children jobs + 2) :
    budget c jobs last' p' < budget c jobs last p := by
  rw [budget_of_supervising hphase, budget_of_not_supervising hphase']
  omega

/-- A step within a round. -/
theorem budget_within (hphase : p.phase.supervising = true) (hphase' : p'.phase.supervising = true)
    (hrounds : rounds c jobs last p' ≤ rounds c jobs last p)
    (hleft : p'.phase.left p'.workers.length < p.phase.left p.workers.length) :
    budget c jobs last p' < budget c jobs last p := by
  rw [budget_of_supervising hphase, budget_of_supervising hphase']
  have := Nat.mul_le_mul_left (4 * c.children jobs + 5) hrounds
  omega

/-- A step after which fewer rounds can start. -/
theorem budget_fewer {last' : Option ℕ} (hphase : p.phase.supervising = true) (hphase' : p'.phase.supervising = true)
    (hcount : p'.workers.length ≤ c.children jobs) (hrounds : rounds c jobs last' p' < rounds c jobs last p) :
    budget c jobs last' p' < budget c jobs last p := by
  rw [budget_of_supervising hphase, budget_of_supervising hphase']
  have hmul := Nat.mul_le_mul_left (4 * c.children jobs + 5) hrounds
  have hle := left_le hcount hphase'
  rw [Nat.mul_succ] at hmul
  omega

/-- The time of the last round after a step of the parent. -/
def Pool.round (jobs : List SourceItem) (last : Option ℕ) (p : Pool) : Option ℕ :=
  if p.starts jobs then some p.now else last

variable (c jobs last p p') in
/-- A step of the parent keeps the invariant and spends some of the budget. -/
structure Spends : Prop where
  timed : Timed c jobs (p.round jobs last) p'
  budget : budget c jobs (p.round jobs last) p' < budget c jobs last p

theorem round_of_starts (h : p.starts jobs = false) : p.round jobs last = last := by
  rw [Pool.round, h]
  rfl

theorem round_past (h : Timed c jobs last p) (l : ℕ) (hl : p.round jobs last = some l) : l ≤ p.now := by
  unfold Pool.round at hl
  split_ifs at hl
  · exact (Option.some.inj hl).ge
  · exact h.past l hl

theorem spends_stop (h : Timed c jobs last p) (hsup : p.phase.supervising = true) {workers : List WriterProcess}
    (hlen : workers.length = p.workers.length)
    (hworkers : ∀ (j : ℕ) (v : WriterProcess), workers[j]? = some v → ∃ u, p.workers[j]? = some u ∧
      ∀ deadline, v.state.deadline? = some deadline → u.state.deadline? = some deadline)
    (outcomes : List (ℕ × CacheWriteResult)) (ending : Ending) :
    Spends c jobs last p ⟨workers, p.nextIndex, outcomes, .stopping 0 .ask ending none, p.now⟩ := by
  refine ⟨h.stop (round_past h) hlen hworkers rfl, budget_stop hsup rfl ?_⟩
  have := h.count
  simp only [ParentPhase.left, StopPoint.left, hlen]
  omega

/-- **A round starts.** -/
theorem spends_round (h : Timed c jobs last p) (hphase : p.phase = .looping)
    (hpending : p.outcomes.length < jobs.length) (hrested : ∀ l, last = some l → l < p.now)
    (hholder : ∃ w ∈ p.workers, ∃ deadline, w.state.deadline? = some deadline) :
    Spends c jobs last p { p with phase := .polling 0 .results none } := by
  have hround : p.round jobs last = some p.now := by simp [Pool.round, Pool.starts, hphase, hpending]
  have hspan : ∀ w ∈ p.workers, ∀ deadline, w.state.deadline? = some deadline →
      w.state.span c.processTimeout (some p.now) < w.state.span c.processTimeout last := by
    intro w hmem deadline hdeadline
    obtain ⟨j, hw⟩ := List.mem_iff_getElem?.mp hmem
    have htimed := h.workers j w hw
    simp only [WorkerState.span, hdeadline]
    refine span_round (htimed.ahead deadline hdeadline) fun l hl => ⟨hrested l hl, ?_⟩
    exact htimed.fresh (by rw [hphase]; rfl) deadline l hdeadline hl
  have hsum : (p.workers.map fun w => w.state.span c.processTimeout (some p.now)).sum <
      (p.workers.map fun w => w.state.span c.processTimeout last).sum := by
    refine List.sum_lt_sum _ _ (fun w hmem => ?_) ?_
    · cases hdeadline : w.state.deadline? with
      | none => simp only [WorkerState.span, hdeadline, le_refl]
      | some deadline => exact (hspan w hmem deadline hdeadline).le
    · obtain ⟨w, hmem, deadline, hdeadline⟩ := hholder
      exact ⟨w, hmem, hspan w hmem deadline hdeadline⟩
  refine ⟨?_, ?_⟩
  · rw [hround]
    refine ⟨h.count, fun _ => .inr ?_, fun l hl => (Option.some.inj hl).ge, fun j w hw =>
      ⟨(h.workers j w hw).ahead, by simp [ParentPhase.checked], by simp [ParentPhase.served]⟩⟩
    exact (h.full (by rw [hphase]; rfl)).resolve_left (by simp [hphase])
  · rw [hround]
    refine budget_fewer (by rw [hphase]; rfl) rfl h.count ?_
    simp only [rounds]
    omega

theorem spends_goto (h : Timed c jobs last p) (hstarts : p.starts jobs = false) (hsup : p.phase.supervising = true)
    {phase : ParentPhase} (hsup' : phase.supervising = true)
    (hleft : phase.left p.workers.length < p.phase.left p.workers.length)
    (hspawned : p.phase = .spawning → c.children jobs ≤ p.workers.length)
    (hchecked : ∀ (j : ℕ) (w : WriterProcess), p.workers[j]? = some w → phase.checked j = true → p.phase.checked j = true ∨
      ∀ deadline, w.state.deadline? = some deadline → p.now < deadline)
    (hserved : ∀ (j : ℕ) (w : WriterProcess), p.workers[j]? = some w → phase.served j = true → p.phase.served j = true ∨
      (w.state = .idle → jobs.length ≤ p.nextIndex)) : Spends c jobs last p { p with phase } := by
  refine ⟨?_, ?_⟩ <;> rw [round_of_starts hstarts]
  · exact h.goto (fun _ => hsup) (fun _ => hspawned) hchecked hserved
  · exact budget_within hsup hsup' le_rfl hleft

theorem checked_polling (j k : ℕ) (point point' : PollPoint) (failure : Option String) :
    (ParentPhase.polling k point failure).checked j = (ParentPhase.polling k point' failure).checked j := by
  cases failure <;> rfl

theorem lt_length (hw : p.workers[k]? = some w) : k < p.workers.length := (List.getElem?_eq_some_iff.mp hw).1

/-- **A turn in which the parent looks.** -/
theorem spends_move (h : Timed c jobs last p) {phase : ParentPhase} (hmove : Move c jobs p phase)
    (hrested : p.starts jobs = true → ∀ l, last = some l → l < p.now)
    (hholder : p.starts jobs = true → ∃ w ∈ p.workers, ∃ deadline, w.state.deadline? = some deadline) :
    Spends c jobs last p { p with phase } := by
  cases hmove with
  | spawned hphase hlen =>
      refine spends_goto h (by simp [Pool.starts, hphase]) (by rw [hphase]; rfl) rfl ?_ (fun _ => hlen) ?_ ?_
      · simp [hphase, ParentPhase.left]
      · exact fun j w hw _ => .inl (by rw [hphase]; rfl)
      · exact fun j w hw _ => .inl (by rw [hphase]; rfl)
  | round hphase hpending =>
      have hstarts : p.starts jobs = true := by simp [Pool.starts, hphase, hpending]
      exact spends_round h hphase hpending (hrested hstarts) (hholder hstarts)
  | silent hphase hw =>
      refine spends_goto h (by simp [Pool.starts, hphase]) (by rw [hphase]; rfl) rfl ?_ (by simp [hphase]) ?_
        (by simp [ParentPhase.served])
      · simp only [hphase, ParentPhase.left, PollPoint.left]
        omega
      · exact fun j w hw hchecked => .inl (by rw [hphase, checked_polling]; exact hchecked)
  | alive hphase hw =>
      refine spends_goto h (by simp [Pool.starts, hphase]) (by rw [hphase]; rfl) rfl ?_ (by simp [hphase]) ?_
        (by simp [ParentPhase.served])
      · simp only [hphase, ParentPhase.left, PollPoint.left]
        omega
      · exact fun j w hw hchecked => .inl (by rw [hphase, checked_polling]; exact hchecked)
  | @failed k w point failure message hphase hw =>
      have hk := lt_length hw
      refine spends_goto h (by simp [Pool.starts, hphase]) (by rw [hphase]; rfl) rfl ?_ (by simp [hphase]) ?_
        (by simp [ParentPhase.served])
      · simp only [hphase, ParentPhase.left, PollPoint.left]
        omega
      · cases failure <;> simp [ParentPhase.checked]
  | @inTime k w failure hphase hw hdeadline =>
      have hk := lt_length hw
      refine spends_goto h (by simp [Pool.starts, hphase]) (by rw [hphase]; rfl) rfl ?_ (by simp [hphase]) ?_
        (by simp [ParentPhase.served])
      · simp only [hphase, ParentPhase.left, PollPoint.left]
        omega
      · intro j v hv hchecked
        cases failure with
        | some message => cases hchecked
        | none =>
            rcases Nat.lt_succ_iff_lt_or_eq.mp (of_decide_eq_true hchecked) with hj | rfl
            · exact .inl (by rw [hphase]; exact decide_eq_true hj)
            · obtain rfl := Option.some.inj (hw.symm.trans hv)
              exact .inr hdeadline
  | @polled k point hphase hend =>
      have hk := List.getElem?_eq_none_iff.mp hend
      refine spends_goto h (by simp [Pool.starts, hphase]) (by rw [hphase]; rfl) rfl ?_ (by simp [hphase]) ?_
        (by simp [ParentPhase.served])
      · simp only [hphase, ParentPhase.left]
        omega
      · intro j v hv _
        have hj := lt_length hv
        exact .inl (by rw [hphase]; exact decide_eq_true (by omega))
  | @passed k w hphase hw hbusy =>
      have hk := lt_length hw
      refine spends_goto h (by simp [Pool.starts, hphase]) (by rw [hphase]; rfl) rfl ?_ (by simp [hphase]) ?_ ?_
      · simp only [hphase, ParentPhase.left]
        omega
      · exact fun j w hw _ => .inl (by rw [hphase]; rfl)
      · intro j v hv hserved
        rcases Nat.lt_succ_iff_lt_or_eq.mp (of_decide_eq_true hserved) with hj | rfl
        · exact .inl (by rw [hphase]; exact decide_eq_true hj)
        · obtain rfl := Option.some.inj (hw.symm.trans hv)
          exact .inr hbusy
  | @dispatched k hphase hend =>
      have hk := List.getElem?_eq_none_iff.mp hend
      refine spends_goto h (by simp [Pool.starts, hphase]) (by rw [hphase]; rfl) rfl ?_ (by simp [hphase]) ?_ ?_
      · simp only [hphase, ParentPhase.left]
        omega
      · exact fun j w hw _ => .inl (by rw [hphase]; rfl)
      · intro j v hv _
        have hj := lt_length hv
        exact .inl (by rw [hphase]; exact decide_eq_true (by omega))
  | ended hsup ending =>
      exact spends_stop h hsup rfl (fun j v hv => ⟨v, hv, fun _ => id⟩) p.outcomes ending

/-! ### Turns -/

variable (c jobs last) in
/-- The time that is left for the children, after one of them has another state. -/
theorem rounds_set (hw : p.workers[k]? = some w) (w' : WriterProcess) (nextIndex : ℕ)
    (outcomes : List (ℕ × CacheWriteResult)) (phase : ParentPhase) :
    rounds c jobs last ⟨p.workers.set k w', nextIndex, outcomes, phase, p.now⟩ +
      w.state.span c.processTimeout last + (jobs.length - p.nextIndex) * (c.processTimeout + 3) =
    rounds c jobs last p + w'.state.span c.processTimeout last +
      (jobs.length - nextIndex) * (c.processTimeout + 3) := by
  have hsum := sum_map_set (fun w : WriterProcess => w.state.span c.processTimeout last) w' hw
  simp only [rounds, List.length_set, Nat.add_mul]
  omega

theorem spends_idle (h : Timed c jobs last p) {point : PollPoint} {failure : Option String}
    (hphase : p.phase = .polling k .results failure) (hw : p.workers[k]? = some w) (hidle : w'.state = .idle)
    (outcomes : List (ℕ × CacheWriteResult)) (hpoint : point.left < 2) :
    Spends c jobs last p ⟨p.workers.set k w', p.nextIndex, outcomes, .polling k point failure, p.now⟩ := by
  have hstarts : p.starts jobs = false := by simp [Pool.starts, hphase]
  have hsup : p.phase.supervising = true := by rw [hphase]; rfl
  refine ⟨?_, ?_⟩ <;> rw [round_of_starts hstarts]
  · refine ⟨by simpa using h.count, fun _ => .inr ?_, h.past, fun j v hv => ?_⟩
    · simpa using (h.full hsup).resolve_left (by simp [hphase])
    · rcases getElem?_set_cases hv with ⟨rfl, rfl⟩ | ⟨-, hv⟩
      · exact ⟨by simp [hidle, WorkerState.deadline?], by simp [hidle, WorkerState.deadline?],
          by simp [ParentPhase.served]⟩
      · refine (h.workers j v hv).same le_rfl le_rfl (fun hchecked => ?_) (by simp [ParentPhase.served])
        rw [hphase, checked_polling]
        exact hchecked
  · have hspan : w'.state.span c.processTimeout last = 0 := by rw [hidle]; rfl
    have hrounds := rounds_set c jobs last hw w' p.nextIndex outcomes
      (.polling k point failure)
    refine budget_within hsup rfl (by omega) ?_
    simp only [hphase, ParentPhase.left, List.length_set]
    have : PollPoint.results.left = 2 := rfl
    omega

theorem spends_next (h : Timed c jobs last p) (hphase : p.phase = .dispatching k) (hw : p.workers[k]? = some w)
    (hindex : p.nextIndex < jobs.length) (hstate : w'.state = .idle ∧ w.state = .idle ∨
      ∃ index destination, w'.state = .active index (p.now + c.processTimeout) destination)
    (outcomes : List (ℕ × CacheWriteResult)) :
    Spends c jobs last p ⟨p.workers.set k w', p.nextIndex + 1, outcomes, p.phase, p.now⟩ := by
  have hstarts : p.starts jobs = false := by simp [Pool.starts, hphase]
  have hsup : p.phase.supervising = true := by rw [hphase]; rfl
  have hserved : p.phase.served k = false := by simp [hphase, ParentPhase.served]
  refine ⟨?_, ?_⟩ <;> rw [round_of_starts hstarts]
  · refine ⟨by simpa using h.count, fun _ => .inr ?_, h.past, fun j v hv => ?_⟩
    · simpa using (h.full hsup).resolve_left (by simp [hphase])
    · rcases getElem?_set_cases hv with ⟨rfl, rfl⟩ | ⟨-, hv⟩
      · rcases hstate with ⟨hidle, -⟩ | ⟨index, destination, hactive⟩
        · exact ⟨by simp [hidle, WorkerState.deadline?], by simp [hidle, WorkerState.deadline?], by simp [hserved]⟩
        · refine ⟨fun deadline hd => ?_, fun _ deadline l hd hl => ?_, by simp [hserved]⟩
          · rw [hactive] at hd
            exact (Option.some.inj hd).ge
          · rw [hactive] at hd
            exact (h.past l hl).trans ((Nat.le_add_right _ _).trans (Option.some.inj hd).le)
      · exact (h.workers j v hv).same le_rfl (Nat.le_succ _) id id
  · have hrounds := rounds_set c jobs last hw w' (p.nextIndex + 1) outcomes p.phase
    have hspan := span_le c.processTimeout last w'.state
    refine budget_fewer hsup hsup (by simpa using h.count) ?_
    obtain ⟨rest, hrest⟩ : ∃ rest, jobs.length - p.nextIndex = rest + 1 := ⟨jobs.length - p.nextIndex - 1, by omega⟩
    have hrest' : jobs.length - (p.nextIndex + 1) = rest := by omega
    rw [hrest, hrest', Nat.succ_mul] at hrounds
    omega

theorem deadlines_set (hw : p.workers[k]? = some w) {w' : WriterProcess}
    (hdeadline : ∀ deadline, w'.state.deadline? = some deadline → w.state.deadline? = some deadline) (j : ℕ)
    (v : WriterProcess) (hv : (p.workers.set k w')[j]? = some v) : ∃ u, p.workers[j]? = some u ∧
      ∀ deadline, v.state.deadline? = some deadline → u.state.deadline? = some deadline := by
  rcases getElem?_set_cases hv with ⟨rfl, rfl⟩ | ⟨-, hv⟩
  · exact ⟨w, hw, hdeadline⟩
  · exact ⟨v, hv, fun _ => id⟩

/-- A child has failed. -/
theorem spends_message (h : Timed c jobs last p) {failure : Option String}
    (hphase : p.phase = .polling k .results failure) (hw : p.workers[k]? = some w) (hstate : w'.state = w.state)
    (message : String) : Spends c jobs last p
      ⟨p.workers.set k w', p.nextIndex, p.outcomes, .polling (k + 1) .results (failure.or (some message)), p.now⟩ := by
  have hstarts : p.starts jobs = false := by simp [Pool.starts, hphase]
  have hsup : p.phase.supervising = true := by rw [hphase]; rfl
  have hchecked : ∀ j, (ParentPhase.polling (k + 1) .results (failure.or (some message))).checked j = false := by
    intro j
    cases failure <;> rfl
  refine ⟨?_, ?_⟩ <;> rw [round_of_starts hstarts]
  · refine ⟨by simpa using h.count, fun _ => .inr ?_, h.past, fun j v hv => ?_⟩
    · simpa using (h.full hsup).resolve_left (by simp [hphase])
    · obtain ⟨u, hu, hdeadline⟩ := deadlines_set hw (fun _ => by rw [hstate]; exact id) j v hv
      refine ⟨fun deadline hd => (h.workers j u hu).ahead deadline (hdeadline deadline hd), fun hphase => ?_,
        by simp [ParentPhase.served]⟩
      exact absurd ((hchecked j).symm.trans hphase) Bool.false_ne_true
  · have hrounds := rounds_set c jobs last hw w' p.nextIndex p.outcomes
      (.polling (k + 1) .results (failure.or (some message)))
    have hk := lt_length hw
    rw [hstate] at hrounds
    refine budget_within hsup rfl (by omega) ?_
    simp only [hphase, ParentPhase.left, List.length_set]
    omega

theorem spends_spawn (h : Timed c jobs last p) (hphase : p.phase = .spawning)
    (hlen : p.workers.length < c.children jobs) : Spends c jobs last p
      { p with workers := p.workers ++ [⟨.starting (p.now + c.processTimeout), none, .starting, []⟩] } := by
  have hstarts : p.starts jobs = false := by simp [Pool.starts, hphase]
  have hsup : p.phase.supervising = true := by rw [hphase]; rfl
  refine ⟨?_, ?_⟩ <;> rw [round_of_starts hstarts]
  · refine ⟨by simpa using hlen, fun _ => .inl hphase, h.past, fun j v hv => ?_⟩
    simp only [List.getElem?_append] at hv
    split_ifs at hv
    · exact (h.workers j v hv).same le_rfl le_rfl id id
    · obtain rfl := List.mem_singleton.mp (List.mem_of_getElem? hv)
      refine ⟨fun deadline hd => (Option.some.inj hd).ge, fun _ deadline l hd hl => ?_, by simp⟩
      exact (h.past l hl).trans ((Nat.le_add_right _ _).trans (Option.some.inj hd).le)
  · have hspan := span_le c.processTimeout last (.starting (p.now + c.processTimeout))
    refine budget_fewer hsup hsup (by simpa using hlen) ?_
    obtain ⟨rest, hrest⟩ : ∃ rest, c.children jobs - p.workers.length = rest + 1 :=
      ⟨c.children jobs - p.workers.length - 1, by omega⟩
    have hrest' : c.children jobs - (p.workers.length + 1) = rest := by omega
    simp only [rounds, List.map_append, List.map_cons, List.map_nil, List.sum_append, List.sum_cons, List.sum_nil,
      List.length_append, List.length_cons, List.length_nil, hrest, hrest', Nat.add_mul] at hspan ⊢
    omega

theorem left_stopping (workers k : ℕ) (point : StopPoint) (ending : Ending) (firstError : Option PyException) :
    0 < (ParentPhase.stopping k point ending firstError).left workers := by
  cases point <;> simp [ParentPhase.left, StopPoint.left]

theorem spends_stopping (h : Timed c jobs last p) (hsup : p.phase.supervising = false) {workers : List WriterProcess}
    (hlen : workers.length = p.workers.length)
    (hworkers : ∀ (j : ℕ) (v : WriterProcess), workers[j]? = some v → ∃ u, p.workers[j]? = some u ∧
      ∀ deadline, v.state.deadline? = some deadline → u.state.deadline? = some deadline)
    {phase : ParentPhase} (hsup' : phase.supervising = false)
    (hleft : phase.left p.workers.length < p.phase.left p.workers.length) :
    Spends c jobs last p ⟨workers, p.nextIndex, p.outcomes, phase, p.now⟩ := by
  refine ⟨h.stop (round_past h) hlen hworkers hsup', ?_⟩
  rw [budget_of_not_supervising hsup, budget_of_not_supervising hsup']
  simpa only [hlen] using hleft

/-- **A turn of the parent spends some of the budget.** -/
theorem spends_turn (h : Timed c jobs last p) (hturn : Turn c jobs p p')
    (hrested : p.starts jobs = true → ∀ l, last = some l → l < p.now)
    (hholder : p.starts jobs = true → ∃ w ∈ p.workers, ∃ deadline, w.state.deadline? = some deadline) :
    Spends c jobs last p p' := by
  cases hturn with
  | spawned hphase hlen => exact spends_spawn h hphase hlen
  | moved hmove => exact spends_move h hmove hrested hholder
  | ended hphase hw hresults hlast hnext =>
      rcases hnext with ⟨message, rfl⟩ | ⟨ending, rfl⟩
      · exact spends_message h hphase hw (by rfl) message
      · refine spends_stop h (by rw [hphase]; rfl) (List.length_set ..) ?_ _ ending
        exact deadlines_set hw fun _ => id
  | ready hphase hw hstate hresults => exact spends_idle h hphase hw rfl p.outcomes Nat.one_lt_two
  | collected hphase hw hstate hresults hnext =>
      rcases hnext with rfl | ⟨ending, rfl⟩
      · exact spends_idle h hphase hw rfl _ Nat.one_lt_two
      · refine spends_stop h (by rw [hphase]; rfl) (List.length_set ..) (deadlines_set hw ?_) _ ending
        simp [WorkerState.deadline?]
  | @refused k w item message hphase hw hidle hitem =>
      have hspends := spends_next h hphase hw (List.getElem?_eq_some_iff.mp hitem).1 (.inl ⟨hidle, hidle⟩)
        (p.outcomes ++ [(p.nextIndex, .error item.name message)])
      rwa [set_getElem? hw] at hspends
  | given hphase hw hidle hjob =>
      exact spends_next h hphase hw (List.getElem?_eq_some_iff.mp hjob).1 (.inr ⟨_, _, rfl⟩) p.outcomes
  | asked hphase hw =>
      refine spends_stopping h (by rw [hphase]; rfl) (List.length_set ..) ?_ rfl ?_
      · exact deadlines_set hw fun _ => id
      · simp only [hphase, ParentPhase.left, StopPoint.left]
        omega
  | released hphase hw hstate hdead =>
      have hk := lt_length hw
      refine spends_stopping h (by rw [hphase]; rfl) (List.length_set ..) ?_ rfl ?_
      · refine deadlines_set hw fun deadline hd => ?_
        rcases hstate with hstate | hstate <;> rw [hstate] at hd
        · exact hd
        · cases hd
      · simp only [hphase, ParentPhase.left, StopPoint.left]
        omega
  | raised error hphase hend =>
      refine spends_stopping h (by rw [hphase]; rfl) rfl (fun j v hv => ⟨v, hv, fun _ => id⟩) rfl ?_
      rw [hphase]
      exact left_stopping ..
  | returned hphase hend =>
      refine spends_stopping h (by rw [hphase]; rfl) rfl (fun j v hv => ⟨v, hv, fun _ => id⟩) rfl ?_
      rw [hphase]
      exact left_stopping ..

/-! ### Steps and runs -/

/-- What anyone but the parent does costs nothing. -/
theorem timed_step (h : Timed c jobs last p) {a : ParallelAct} (ha : isParent a = false) (hstep : p.Step c jobs a p') :
    Timed c jobs last p' ∧ budget c jobs last p' ≤ budget c jobs last p := by
  cases hstep with
  | tick =>
      refine ⟨⟨h.count, h.full, fun l hl => (h.past l hl).trans (Nat.le_succ _), fun j w hw => ?_⟩, le_refl _⟩
      exact (h.workers j w hw).same (Nat.le_succ _) le_rfl id id
  | disk fs => exact ⟨h, le_refl _⟩
  | @child k w w' a hw hwork =>
      have hstate : w'.state = w.state := state_of_work hwork
      refine ⟨⟨by simpa using h.count, by simpa using h.full, h.past, fun j v hv => ?_⟩, ?_⟩
      · rcases getElem?_set_cases hv with ⟨rfl, rfl⟩ | ⟨-, hv⟩
        · rw [hstate]
          exact (h.workers j w hw).same le_rfl le_rfl id id
        · exact (h.workers j v hv).same le_rfl le_rfl id id
      · have hrounds := rounds_set c jobs last hw w' p.nextIndex p.outcomes p.phase
        rw [hstate] at hrounds
        simp only [budget, List.length_set]
        exact Nat.add_le_add_left (by rw [Nat.add_right_cancel (Nat.add_right_cancel hrounds)]) _
  | parent faults hturn => cases ha
  | interrupt diagnostic hsup =>
      have hspends := spends_stop h hsup rfl (fun j v hv => ⟨v, hv, fun _ => id⟩) p.outcomes
        (.raised (.keyboardInterrupt diagnostic))
      refine ⟨h.stop h.past rfl (fun j v hv => ⟨v, hv, fun _ => id⟩) rfl, ?_⟩
      exact hspends.budget.le
  | killed diagnostic hphase =>
      refine ⟨h.stop h.past rfl (fun j v hv => ⟨v, hv, fun _ => id⟩) rfl, ?_⟩
      simp [budget, ParentPhase.left, ParentPhase.supervising]

/-- While sources are missing somebody has to report something. -/
theorem exists_holder {s : WriteParallel} (h : Kept c jobs s) (htimed : Timed c jobs last s.pool)
    (hprocesses : 0 < c.numProcesses) (hstarts : s.pool.starts jobs = true) :
    ∃ w ∈ s.workers, ∃ deadline, w.state.deadline? = some deadline := by
  unfold Pool.starts at hstarts
  split at hstarts
  case h_2 => cases hstarts
  next hphase =>
    have hsup : s.phase.supervising = true := by rw [show s.phase = _ from hphase]; rfl
    have hpending : s.outcomes.length < jobs.length := of_decide_eq_true hstarts
    have hfull : c.children jobs ≤ s.workers.length := (htimed.full hsup).resolve_left (by rw [hphase]; simp)
    have hsome : 0 < s.workers.length := by
      unfold ParallelCall.children at hfull
      omega
    by_cases hall : ∀ w ∈ s.workers, w.state = .idle
    · -- Nobody is busy: then all sources were given away, and all of them have an outcome.
      have hlast : jobs.length ≤ s.nextIndex := by
        have hserved : s.pool.phase.served 0 = true := by rw [hphase]; rfl
        exact (htimed.workers 0 _ (List.getElem?_eq_getElem hsome)).busy hserved (hall _ (List.getElem_mem hsome))
      have hactive : s.activeIndices = [] :=
        List.filterMap_eq_nil_iff.mpr fun w hw => by rw [hall w hw]; rfl
      have hlength := (h.ledger hsup).length_eq
      rw [hactive, List.append_nil, List.length_map, List.length_range] at hlength
      omega
    · push Not at hall
      obtain ⟨w, hmem, hstate⟩ := hall
      refine ⟨w, hmem, ?_⟩
      cases hw : w.state with
      | idle => exact absurd hw hstate
      | starting deadline => exact ⟨deadline, rfl⟩
      | active index deadline destination => exact ⟨deadline, rfl⟩

end turns

section runs

variable {L : StorageLib} {config : WriterConfig} {c : ParallelCall} {jobs : List SourceItem} {s s' : Paced}

/-- The invariant of `Paced`. -/
structure Paced.Kept (c : ParallelCall) (jobs : List SourceItem) (s : Paced) : Prop where
  kept : WriteParallel.Kept c jobs s.state
  timed : Timed c jobs s.lastRound s.state.pool

theorem turn_of_step {p p' : Pool} {a : ParallelAct} (h : p.Step c jobs a p') (ha : isParent a = true) :
    Turn c jobs p p' := by
  cases h with
  | parent faults hturn => exact hturn
  | _ => cases ha

/-- **A step.**  A step of the parent costs something. -/
theorem paced_step (hprocesses : 0 < c.numProcesses) (h : s.Kept c jobs) {a : ParallelAct}
    (hnative : runsNatively L config c s.state a) (hstep : s.step c jobs a = some s') : s'.Kept c jobs ∧
      budget c jobs s'.lastRound s'.state.pool + (if isParent a then 1 else 0) ≤
        budget c jobs s.lastRound s.state.pool := by
  unfold Paced.step at hstep
  cases ha : isParent a with
  | false =>
      simp only [ha, Bool.false_and, Bool.false_eq_true, if_false, Option.map_eq_some_iff] at hstep
      obtain ⟨state, hstate, rfl⟩ := hstep
      obtain ⟨htimed, hbudget⟩ := timed_step h.timed ha (pool_step h.kept hstate)
      exact ⟨⟨(onward_step h.kept hnative hstate).kept, htimed⟩, hbudget⟩
  | true =>
      have hspends : ∀ state, WriteParallel.step c jobs s.state a = some state →
          (s.state.pool.starts jobs = true → s.rested = true) →
          Spends c jobs s.lastRound s.state.pool state.pool := by
        intro state hstate hrested
        refine spends_turn h.timed (turn_of_step (pool_step h.kept hstate) ha) (fun hstarts l hl => ?_)
          (exists_holder h.kept h.timed hprocesses)
        have hrest := hrested hstarts
        rw [Paced.rested, hl] at hrest
        exact of_decide_eq_true hrest
      simp only [ha, Bool.true_and] at hstep
      split_ifs at hstep with hstarts hrested <;> obtain ⟨state, hstate, rfl⟩ := Option.map_eq_some_iff.mp hstep
      · obtain ⟨htimed, hbudget⟩ := hspends state hstate fun _ => hrested
        rw [Pool.round, if_pos hstarts] at htimed hbudget
        exact ⟨⟨(onward_step h.kept hnative hstate).kept, htimed⟩, hbudget⟩
      · obtain ⟨htimed, hbudget⟩ := hspends state hstate fun h => absurd h hstarts
        rw [Pool.round, if_neg hstarts] at htimed hbudget
        exact ⟨⟨(onward_step h.kept hnative hstate).kept, htimed⟩, hbudget⟩

theorem kept_paced_new (disk : FileTree) : (Paced.new disk).Kept c jobs :=
  ⟨kept_new disk, Nat.zero_le _, fun _ => .inl rfl, by simp [Paced.new], by simp [Paced.new, WriteParallel.new, pool]⟩

/-- **A run.** -/
theorem paced_run (hprocesses : 0 < c.numProcesses) : ∀ {as : List ParallelAct} {s : Paced}, s.Kept c jobs →
    Machine.Guarded (Paced.step c jobs) (fun s => runsNatively L config c s.state) s as →
    Machine.run (Paced.step c jobs) s as = some s' → s'.Kept c jobs ∧
      budget c jobs s'.lastRound s'.state.pool + as.countP isParent ≤ budget c jobs s.lastRound s.state.pool
  | [], s, h, _, hrun => by
      obtain rfl : s = s' := by simpa using hrun
      exact ⟨h, le_refl _⟩
  | a :: as, s, h, hnative, hrun => by
      obtain ⟨t, ht, hrest⟩ := Machine.run_cons _ hrun
      obtain ⟨hkept, hbudget⟩ := paced_step hprocesses h hnative.1 ht
      obtain ⟨hkept', hbudget'⟩ := paced_run hprocesses hkept (hnative.2 t ht) hrest
      refine ⟨hkept', ?_⟩
      rw [List.countP_cons]
      omega

/-- Until the call ends the parent can make a step, after a sleep. -/
theorem exists_turn (h : s.Kept c jobs) (hrunning : (∀ results, s.state.phase ≠ .returned results) ∧
    ∀ error, s.state.phase ≠ .raised error) (faults : Faults) :
    ∃ t u, s.step c jobs .tick = some t ∧ t.step c jobs (.parent faults) = some u := by
  have hparent : ∃ state, parent c jobs { s.state with now := s.state.now + 1 } faults = some state := by
    unfold parent
    cases hphase : s.state.phase with
    | returned results => exact absurd hphase (hrunning.1 results)
    | raised error => exact absurd hphase (hrunning.2 error)
    | _ => simp only; (repeat' split) <;> exact ⟨_, rfl⟩
  obtain ⟨state, hstate⟩ := hparent
  have hrested : Paced.rested ⟨{ s.state with now := s.state.now + 1 }, s.lastRound⟩ = true := by
    unfold Paced.rested
    cases hl : s.lastRound with
    | none => rfl
    | some l => exact decide_eq_true (Nat.lt_succ_of_le (h.timed.past l hl))
  refine ⟨⟨{ s.state with now := s.state.now + 1 }, s.lastRound⟩, ?_⟩
  simp only [Paced.step, isParent, Bool.false_and, Bool.false_eq_true, if_false, WriteParallel.step, Option.map_some,
    true_and, Bool.true_and, hrested, if_true, hstate]
  split_ifs <;> exact ⟨_, rfl⟩

/-- **`write_parallel` ends.**  Whatever the children do, and whatever goes wrong, the parent makes at most
`turnBound` steps; and as long as the call has not ended it can make one. -/
theorem parallel_writer_ends (L : StorageLib) (config : WriterConfig) {c : ParallelCall} (hprocesses : 0 < c.numProcesses)
    (jobs : List SourceItem) (disk : FileTree) (as : List ParallelAct) (s : Paced)
    (hnative : Machine.Guarded (Paced.step c jobs) (fun s => runsNatively L config c s.state) (.new disk) as)
    (hrun : Machine.run (Paced.step c jobs) (.new disk) as = some s) :
    as.countP isParent ≤ turnBound c jobs ∧
      ((∃ results, s.state.phase = .returned results) ∨ (∃ error, s.state.phase = .raised error) ∨
        ∀ faults, ∃ t u, s.step c jobs .tick = some t ∧ t.step c jobs (.parent faults) = some u) := by
  obtain ⟨hkept, hbudget⟩ := paced_run hprocesses (kept_paced_new disk) hnative hrun
  constructor
  · have hnew : budget c jobs (Paced.new disk).lastRound (Paced.new disk).state.pool = turnBound c jobs := by
      simp only [budget, turnBound, rounds, Paced.new, WriteParallel.new, pool, ParentPhase.left, ParentPhase.supervising,
        List.map_nil, List.sum_nil, List.length_nil, Nat.sub_zero, if_true, Nat.zero_add]
      omega
    omega
  · by_cases hreturned : ∃ results, s.state.phase = .returned results
    · exact .inl hreturned
    · by_cases hraised : ∃ error, s.state.phase = .raised error
      · exact .inr (.inl hraised)
      · push Not at hreturned hraised
        exact .inr (.inr (exists_turn hkept ⟨hreturned, hraised⟩))

open TwoSources in
/-- The second child dies with its job. -/
theorem parallel_writer_ends_dead : ∃ s results,
    Machine.run (Paced.step call items) (.new SharedShard.fs)
      (before ++ [ParallelAct.tick] ++ (collecting ++ ending)) = some s ∧ s.state.phase = .returned results ∧
    (before ++ [ParallelAct.tick] ++ (collecting ++ ending)).countP isParent ≤ turnBound call items := by
  obtain ⟨s₀, hbefore, hrunning⟩ : ∃ s₀, Machine.run (Paced.step call items) (.new SharedShard.fs)
      (before ++ [ParallelAct.tick]) = some s₀ ∧
      s₀.state.workers[0]?.map WriterProcess.process = some (.running (job "a" rfl)) := ⟨_, rfl, rfl⟩
  obtain ⟨s, hrun, results, hreturned⟩ : ∃ s, Machine.run (Paced.step call items) (.new SharedShard.fs)
      (before ++ [ParallelAct.tick] ++ (collecting ++ ending)) = some s ∧
      ∃ results, s.state.phase = .returned results := ⟨_, rfl, _, rfl⟩
  have hguard : ∀ {as : List ParallelAct} (s : Paced), as.all recordless = true → Machine.Guarded
      (Paced.step call items)
      (fun s => runsNatively (SharedShard.lib "000000.bin") SharedShard.config call s.state) s as := fun s h =>
    Machine.guarded_of_forall _ s fun s a ha => runsNatively_of_recordless (List.all_eq_true.mp h a ha) s.state
  refine ⟨s, results, hrun, hreturned, ?_⟩
  refine (parallel_writer_ends (SharedShard.lib "000000.bin") SharedShard.config (c := call) Nat.two_pos items
    SharedShard.fs _ s ?_ hrun).1
  refine Machine.guarded_append _ (hguard _ rfl) hbefore ⟨fun w j hw hj => ?_, fun s _ => hguard s rfl⟩
  rw [hw, Option.map_some, hj] at hrunning
  cases hrunning
  exact ⟨.none, _, _, reused, rfl, writesSource_reused⟩

end runs

end DatasetRt.WriteParallel
