import DatasetRt.WriteParallelRuns

/-! # The turns of the parallel writer

`Pool` is the part of the state of `write_parallel` that decides what the parent does next: without the disk and without
the history.  `Pool.Step` says all that a step can do to it, given the invariant `Kept`: a turn of the parent is one of
`Turn`, and those that only go to another phase are `Move`.  `pool_step` connects it to the machine, so that a property
of the pool has one case for each kind of turn, and the faults and the disk are out of the way. -/

namespace DatasetRt.WriteParallel

/-- The state without the disk and the history. -/
structure Pool where
  workers : List WriterProcess
  nextIndex : ℕ
  outcomes : List (ℕ × CacheWriteResult)
  phase : ParentPhase
  now : ℕ

def pool (s : WriteParallel) : Pool := ⟨s.workers, s.nextIndex, s.outcomes, s.phase, s.now⟩

/-- Until when the child has to report something. -/
def WorkerState.deadline? : WorkerState → Option ℕ
  | .starting deadline => some deadline
  | .active _ deadline _ => some deadline
  | .idle => none

section turns

variable (c : ParallelCall) (jobs : List SourceItem)

/-- A turn in which the parent looks, and goes on to another phase. -/
inductive Move (p : Pool) : ParentPhase → Prop where
  | spawned (hphase : p.phase = .spawning) (hlen : min c.numProcesses jobs.length ≤ p.workers.length) : Move p .looping
  | round (hphase : p.phase = .looping) (hpending : p.outcomes.length < jobs.length) :
      Move p (.polling 0 .results none)
  | silent {k : ℕ} {w : WriterProcess} {failure : Option String} (hphase : p.phase = .polling k .results failure)
      (hw : p.workers[k]? = some w) : Move p (.polling k .exitcode failure)
  | alive {k : ℕ} {w : WriterProcess} {failure : Option String} (hphase : p.phase = .polling k .exitcode failure)
      (hw : p.workers[k]? = some w) : Move p (.polling k .deadline failure)
  | failed {k : ℕ} {w : WriterProcess} {point : PollPoint} {failure : Option String} (message : String)
      (hphase : p.phase = .polling k point failure) (hw : p.workers[k]? = some w) :
      Move p (.polling (k + 1) .results (failure.or (some message)))
  | inTime {k : ℕ} {w : WriterProcess} {failure : Option String} (hphase : p.phase = .polling k .deadline failure)
      (hw : p.workers[k]? = some w) (hdeadline : ∀ deadline, w.state.deadline? = some deadline → p.now < deadline) :
      Move p (.polling (k + 1) .results failure)
  | polled {k : ℕ} {point : PollPoint} (hphase : p.phase = .polling k point none) (hend : p.workers[k]? = none) :
      Move p (.dispatching 0)
  | passed {k : ℕ} {w : WriterProcess} (hphase : p.phase = .dispatching k) (hw : p.workers[k]? = some w)
      (hbusy : w.state = .idle → jobs.length ≤ p.nextIndex) : Move p (.dispatching (k + 1))
  | dispatched {k : ℕ} (hphase : p.phase = .dispatching k) (hend : p.workers[k]? = none) : Move p .looping
  /-- The loop ends, a poll has failed, or something was raised. -/
  | ended (hsup : p.phase.supervising = true) (ending : Ending) : Move p (.stopping 0 .ask ending none)

/-- What the parent does in one step. -/
inductive Turn (p : Pool) : Pool → Prop where
  | spawned (hphase : p.phase = .spawning) (hlen : p.workers.length < min c.numProcesses jobs.length) :
      Turn p { p with workers := p.workers ++ [⟨.starting (p.now + c.processTimeout), none, .starting, []⟩] }
  | moved {phase : ParentPhase} (hmove : Move c jobs p phase) : Turn p { p with phase }
  /-- A message that ends the child: a failure, or an interrupt that the parent raises as well. -/
  | ended {k : ℕ} {w : WriterProcess} {m : Except String WorkerMessage} {rest : List (Except String WorkerMessage)}
      {failure : Option String} {phase : ParentPhase} (hphase : p.phase = .polling k .results failure)
      (hw : p.workers[k]? = some w) (hresults : w.results = m :: rest) (hlast : Last m)
      (hnext : (∃ message, phase = .polling (k + 1) .results (failure.or (some message))) ∨
        ∃ ending, phase = .stopping 0 .ask ending none) :
      Turn p { p with workers := p.workers.set k { w with results := rest }, phase }
  | ready {k : ℕ} {w : WriterProcess} {rest : List (Except String WorkerMessage)} {failure : Option String}
      {deadline : ℕ} (hphase : p.phase = .polling k .results failure) (hw : p.workers[k]? = some w)
      (hstate : w.state = .starting deadline) (hresults : w.results = .ok .ready :: rest) :
      Turn p { p with
        workers := p.workers.set k { w with state := .idle, results := rest }
        phase := .polling k .exitcode failure }
  | collected {k : ℕ} {w : WriterProcess} {rest : List (Except String WorkerMessage)} {failure : Option String}
      {index deadline : ℕ} {destination : Path} {result : CacheWriteResult} {phase : ParentPhase}
      (hphase : p.phase = .polling k .results failure) (hw : p.workers[k]? = some w)
      (hstate : w.state = .active index deadline destination) (hresults : w.results = .ok (.finished result) :: rest)
      (hnext : phase = .polling k .exitcode failure ∨ ∃ ending, phase = .stopping 0 .ask ending none) :
      Turn p { p with
        workers := p.workers.set k { w with state := .idle, results := rest }
        outcomes := p.outcomes ++ [(index, result)]
        phase }
  | refused {k : ℕ} {w : WriterProcess} {item : SourceItem} (message : String) (hphase : p.phase = .dispatching k)
      (hw : p.workers[k]? = some w) (hidle : w.state = .idle) (hitem : jobs[p.nextIndex]? = some item) :
      Turn p { p with
        nextIndex := p.nextIndex + 1
        outcomes := p.outcomes ++ [(p.nextIndex, .error item.name message)] }
  | given {k : ℕ} {w : WriterProcess} {job : SourceJob} (hphase : p.phase = .dispatching k)
      (hw : p.workers[k]? = some w) (hidle : w.state = .idle) (hjob : jobs[p.nextIndex]? = some (.job job)) :
      Turn p { p with
        workers := p.workers.set k { w with
          state := .active p.nextIndex (p.now + c.processTimeout) (tempCachePathForSource c.path job.text)
          jobs := some (.job job) }
        nextIndex := p.nextIndex + 1 }
  /-- `stop` begins; an idle child is asked to leave. -/
  | asked {k : ℕ} {w : WriterProcess} {mail : Option Mail} {ending : Ending} {firstError : Option PyException}
      (hphase : p.phase = .stopping k .ask ending firstError) (hw : p.workers[k]? = some w) :
      Turn p { p with
        workers := p.workers.set k { w with jobs := mail }
        phase := .stopping k .release ending firstError }
  | released {k : ℕ} {w : WriterProcess} {state : WorkerState} {ending : Ending}
      {firstError firstError' : Option PyException} (hphase : p.phase = .stopping k .release ending firstError)
      (hw : p.workers[k]? = some w) (hstate : state = w.state ∨ state = .idle)
      (hdead : firstError' = none → firstError = none ∧ w.exitcode.isSome = true ∧ state.index? = none) :
      Turn p { p with
        workers := p.workers.set k { w with state }
        phase := .stopping (k + 1) .ask ending firstError' }
  | raised {k : ℕ} {point : StopPoint} {ending : Ending} {firstError : Option PyException} (error : PyException)
      (hphase : p.phase = .stopping k point ending firstError) (hend : p.workers[k]? = none) :
      Turn p { p with phase := .raised error }
  | returned {k : ℕ} {point : StopPoint} {message : String}
      (hphase : p.phase = .stopping k point (.failure message) none) (hend : p.workers[k]? = none) :
      Turn p { p with phase := .returned (orderedOutcomes c jobs p.outcomes message) }

/-- What anyone does in one step. -/
inductive Pool.Step (p : Pool) : ParallelAct → Pool → Prop where
  | tick : Step p .tick { p with now := p.now + 1 }
  | disk (fs : FileTree) : Step p (.disk fs) p
  | child {k : ℕ} {w w' : WriterProcess} {a : ChildAct} (hw : p.workers[k]? = some w) (hwork : w.work a = some w') :
      Step p (.child k a) { p with workers := p.workers.set k w' }
  | parent {p' : Pool} (faults : Faults) (hturn : Turn c jobs p p') : Step p (.parent faults) p'
  | interrupt (diagnostic : String) (hsup : p.phase.supervising = true) :
      Step p (.interrupt diagnostic)
        { p with phase := .stopping 0 .ask (.raised (.keyboardInterrupt diagnostic)) none }
  | killed {k : ℕ} {point : StopPoint} {ending : Ending} {firstError : Option PyException} (diagnostic : String)
      (hphase : p.phase = .stopping k point ending firstError) :
      Step p (.interrupt diagnostic) { p with phase := .raised (.keyboardInterrupt diagnostic) }

end turns

/-! ### The functions of the parent -/

variable {c : ParallelCall} {jobs : List SourceItem} {s s' : WriteParallel} {k : ℕ} {w : WriterProcess}

theorem pool_goto (s : WriteParallel) (phase : ParentPhase) : (s.goto phase).pool = { s.pool with phase } := rfl

theorem pool_setWorker (s : WriteParallel) (k : ℕ) (w : WriterProcess) :
    (s.setWorker k w).pool = { s.pool with workers := s.workers.set k w } := rfl

theorem pool_cleanup (s : WriteParallel) (index : ℕ) (destination : Path) (w : WriterProcess) (fault : Option String) :
    (s.cleanup index destination w fault).1.pool = s.pool := by
  unfold cleanup
  split_ifs
  · cases fault <;> rfl
  · rfl

theorem set_getElem? {α : Type} {xs : List α} {x : α} (hx : xs[k]? = some x) : xs.set k x = xs := by
  obtain ⟨hk, rfl⟩ := List.getElem?_eq_some_iff.mp hx
  exact List.set_getElem_self hk

theorem turn_raise (hsup : s.phase.supervising = true) (error : PyException) :
    Turn c jobs s.pool (s.raise error).pool := .moved (.ended hsup _)

theorem turn_handle (h : Kept c jobs s) {failure : Option String} (hphase : s.phase = .polling k .results failure)
    (hw : s.workers[k]? = some w) {message : WorkerMessage} {rest : List (Except String WorkerMessage)}
    (hresults : w.results = .ok message :: rest) (fault : Option String) :
    Turn c jobs s.pool (s.handle k { w with results := rest } failure fault message).pool := by
  have hsup : s.phase.supervising = true := by rw [hphase]; rfl
  have hlinked := h.linked k w hw (unasked_of_supervising hsup k)
  cases message with
  | ready =>
      obtain ⟨⟨deadline, hstate⟩, -⟩ := linked_receive_ready hlinked hresults
      exact Turn.ready (w := w) hphase hw hstate hresults
  | finished result =>
      obtain ⟨index, deadline, destination, hstate, -⟩ := linked_receive_finished hlinked hresults
      have hassign := setItem_of_not_mem (h.active_fresh hsup hw hstate) result
      rcases hc : WriteParallel.cleanup _ index destination { w with results := rest } fault with ⟨t, error⟩
      have hpool : t.pool = { s.pool with
          workers := s.workers.set k { w with state := .idle, results := rest }
          outcomes := s.outcomes ++ [(index, result)] } := by
        have hcleaned := pool_cleanup ((s.assign index result).setWorker k { w with state := .idle, results := rest })
          index destination { w with results := rest } fault
        rw [hc] at hcleaned
        rw [hcleaned, ← hassign]
        rfl
      rw [handle_finished (w := { w with results := rest }) hstate hc]
      cases error with
      | none =>
          simp only [Option.map_none, Option.getD_none, pool_goto, hpool]
          exact Turn.collected (p := s.pool) hphase hw hstate hresults (.inl rfl)
      | some error =>
          simp only [Option.map_some, Option.getD_some, WriteParallel.raise, pool_goto, hpool]
          exact Turn.collected (p := s.pool) hphase hw hstate hresults (.inr ⟨_, rfl⟩)
  | interrupted interrupted =>
      cases interrupted with
      | keyboard message => exact .ended hphase hw hresults trivial (.inr ⟨_, rfl⟩)
      | exit message status => exact .ended hphase hw hresults trivial (.inr ⟨_, rfl⟩)
  | failed message => exact .ended hphase hw hresults trivial (.inl ⟨_, rfl⟩)

theorem turn_poll (h : Kept c jobs s) {failure : Option String} {point : PollPoint}
    (hphase : s.phase = .polling k point failure) (hw : s.workers[k]? = some w) (fault : Option String) :
    Turn c jobs s.pool (s.poll k w failure fault point).pool := by
  have hfailed : ∀ message, Turn c jobs s.pool (s.polled k failure (some message)).pool := fun message =>
    .moved (.failed message hphase hw)
  cases point with
  | results =>
      have hend : ∀ message, Turn c jobs s.pool ((s.setWorker k w).polled k failure (some message)).pool := by
        intro message
        have hsame : (s.setWorker k w).pool = s.pool := by rw [pool_setWorker, set_getElem? hw]; rfl
        unfold polled
        rw [pool_goto, hsame]
        exact hfailed message
      unfold poll WriterProcess.receive
      rcases hresults : w.results with _ | ⟨diagnostic | message, rest⟩
      · cases w.process <;> simp only
        case closed => exact hend _
        case dead => exact hend _
        all_goals exact .moved (.silent hphase hw)
      · exact .ended hphase hw hresults trivial (.inl ⟨_, rfl⟩)
      · exact turn_handle h hphase hw hresults fault
  | exitcode =>
      unfold poll
      cases hexit : w.exitcode with
      | none => exact .moved (.alive hphase hw)
      | some exitcode => exact hfailed _
  | deadline =>
      have hrest : ∀ deadline, w.state.deadline? = some deadline → Turn c jobs s.pool
          (s.polled k failure (if deadline ≤ s.now then some "writer process timeout exceeded" else none)).pool := by
        intro deadline hstate
        split_ifs with hpast
        · exact hfailed _
        · simp only [polled, Option.or_none]
          exact .moved (.inTime hphase hw fun d hd =>
            Option.some.inj (hstate.symm.trans hd) ▸ Nat.lt_of_not_le hpast)
      unfold poll
      cases hstate : w.state with
      | idle =>
          simp only [polled, Option.or_none]
          exact .moved (.inTime hphase hw (by simp [hstate, WorkerState.deadline?]))
      | starting deadline => exact hrest deadline (by rw [hstate]; rfl)
      | active index deadline destination => exact hrest deadline (by rw [hstate]; rfl)

theorem turn_refused (h : Kept c jobs s) (hphase : s.phase = .dispatching k) (hw : s.workers[k]? = some w)
    (hidle : w.state = .idle) {item : SourceItem} (hitem : jobs[s.nextIndex]? = some item) (message : String) :
    Turn c jobs s.pool
      ({ s with nextIndex := s.nextIndex + 1 }.assign s.nextIndex (.error item.name message)).pool := by
  have hsup : s.phase.supervising = true := by rw [hphase]; rfl
  have hassign := setItem_of_not_mem (h.next_fresh hsup) (.error item.name message)
  have hturn := Turn.refused (c := c) (p := s.pool) message hphase hw hidle hitem
  change Turn c jobs s.pool { s.pool with
    nextIndex := s.nextIndex + 1, outcomes := setItem s.outcomes s.nextIndex (.error item.name message) }
  rw [hassign]
  exact hturn

theorem turn_dispatch (h : Kept c jobs s) (hphase : s.phase = .dispatching k) (hw : s.workers[k]? = some w)
    (hidle : w.state = .idle) {job : SourceJob} (hjob : jobs[s.nextIndex]? = some (.job job)) (faults : Faults) :
    Turn c jobs s.pool (dispatch c { s with nextIndex := s.nextIndex + 1 } k w s.nextIndex job faults).pool := by
  have hrefuse := turn_refused h hphase hw hidle hjob
  have hempty : w.jobs = none := linked_idle (h.linked k w hw (by simp [hphase, ParentPhase.unasked])) hidle
  unfold dispatch
  cases faults.serialization with
  | some diagnostic => exact hrefuse _
  | none =>
      cases faults.destination with
      | some diagnostic => exact hrefuse _
      | none =>
          simp only
          split_ifs
          · exact hrefuse _
          · simp only [put, hempty]
            exact .given hphase hw hidle hjob

theorem turn_stop (h : Kept c jobs s) {point : StopPoint} {ending : Ending} {firstError : Option PyException}
    (hphase : s.phase = .stopping k point ending firstError) (hw : s.workers[k]? = some w) (fault : Option String) :
    Turn c jobs s.pool (s.stop k w ending firstError fault point).pool := by
  have hsame : s.workers.set k w = s.workers := set_getElem? hw
  cases point with
  | ask =>
      have hleave : Turn c jobs s.pool (s.goto (.stopping k .release ending firstError)).pool := by
        have hturn : Turn c jobs s.pool { s.pool with
            workers := s.workers.set k w, phase := .stopping k .release ending firstError } := .asked hphase hw
        rwa [hsame] at hturn
      unfold stop
      cases hstate : w.state with
      | idle =>
          cases hexit : w.exitcode with
          | some exitcode => exact hleave
          | none =>
              have hempty := linked_idle (h.linked k w hw (by simp [hphase, ParentPhase.unasked])) hstate
              simp only [put, hempty]
              exact .asked hphase hw
      | starting deadline => exact hleave
      | active index deadline destination => exact hleave
  | release =>
      have hpass : ∀ firstError', (firstError' = none → firstError = none ∧ w.exitcode.isSome = true ∧
          w.state.index? = none) → Turn c jobs s.pool (s.goto (.stopping (k + 1) .ask ending firstError')).pool := by
        intro firstError' hdead
        have hturn : Turn c jobs s.pool { s.pool with
            workers := s.workers.set k w, phase := .stopping (k + 1) .ask ending firstError' } :=
          .released hphase hw (.inl rfl) hdead
        rwa [hsame] at hturn
      unfold stop
      cases hexit : w.exitcode with
      | none => exact hpass _ (by simp)
      | some exitcode =>
          cases hstate : w.state with
          | idle => exact hpass _ fun hnone => ⟨hnone, by rw [hexit]; rfl, by rw [hstate]; rfl⟩
          | starting deadline => exact hpass _ fun hnone => ⟨hnone, by rw [hexit]; rfl, by rw [hstate]; rfl⟩
          | active index deadline destination =>
              simp only [pool_goto, pool_cleanup, pool_setWorker]
              exact .released (p := s.pool) hphase hw (.inr rfl) fun hnone =>
                ⟨(Option.or_eq_none_iff.mp hnone).1, by rw [hexit]; rfl, rfl⟩

/-! ### Steps -/

/-- **A step of the parent is a turn.** -/
theorem parent_turn (h : Kept c jobs s) {faults : Faults} (hparent : s.parent c jobs faults = some s') :
    Turn c jobs s.pool s'.pool := by
  unfold parent at hparent
  cases hphase : s.phase with
  | spawning =>
      have hsup : s.phase.supervising = true := by rw [hphase]; rfl
      simp only [hphase] at hparent
      cases hspawn : faults.spawn with
      | some error =>
          simp only [hspawn, Option.some.injEq] at hparent
          exact hparent ▸ turn_raise hsup error
      | none =>
          simp only [hspawn] at hparent
          split_ifs at hparent with hlen
          · rw [← hphase] at hparent
            exact Option.some.inj hparent ▸ .spawned hphase hlen
          · exact Option.some.inj hparent ▸ .moved (.spawned hphase (Nat.le_of_not_lt hlen))
  | looping =>
      have hsup : s.phase.supervising = true := by rw [hphase]; rfl
      simp only [hphase] at hparent
      split_ifs at hparent with hpending
      · exact Option.some.inj hparent ▸ .moved (.round hphase hpending)
      · exact Option.some.inj hparent ▸ .moved (.ended hsup _)
  | polling k point failure =>
      have hsup : s.phase.supervising = true := by rw [hphase]; rfl
      simp only [hphase] at hparent
      cases hw : s.workers[k]? with
      | some w =>
          simp only [hw, Option.some.injEq] at hparent
          exact hparent ▸ turn_poll h hphase hw faults.cleanup
      | none =>
          cases failure with
          | some message =>
              simp only [hw, Option.some.injEq] at hparent
              exact hparent ▸ .moved (.ended hsup _)
          | none =>
              simp only [hw, Option.some.injEq] at hparent
              exact hparent ▸ .moved (.polled hphase hw)
  | dispatching k =>
      simp only [hphase] at hparent
      cases hw : s.workers[k]? with
      | none =>
          simp only [hw, Option.some.injEq] at hparent
          exact hparent ▸ .moved (.dispatched hphase hw)
      | some w =>
          simp only [hw] at hparent
          cases hstate : w.state with
          | idle =>
              cases hitem : jobs[s.nextIndex]? with
              | none =>
                  simp only [hstate, hitem, Option.some.injEq] at hparent
                  exact hparent ▸ .moved (.passed hphase hw fun _ => List.getElem?_eq_none_iff.mp hitem)
              | some item =>
                  simp only [hstate, hitem] at hparent
                  rw [← hphase] at hparent
                  cases item with
                  | failed sourceName message =>
                      exact Option.some.inj hparent ▸ turn_refused h hphase hw hstate hitem message
                  | job job => exact Option.some.inj hparent ▸ turn_dispatch h hphase hw hstate hitem faults
          | starting deadline =>
              simp only [hstate, Option.some.injEq] at hparent
              exact hparent ▸ .moved (.passed hphase hw (by simp [hstate]))
          | active index deadline destination =>
              simp only [hstate, Option.some.injEq] at hparent
              exact hparent ▸ .moved (.passed hphase hw (by simp [hstate]))
  | stopping k point ending firstError =>
      simp only [hphase] at hparent
      cases hw : s.workers[k]? with
      | some w =>
          simp only [hw, Option.some.injEq] at hparent
          exact hparent ▸ turn_stop h hphase hw faults.cleanup
      | none =>
          cases firstError with
          | some error =>
              simp only [hw, Option.some.injEq] at hparent
              exact hparent ▸ .raised error hphase hw
          | none =>
              cases ending with
              | raised error =>
                  simp only [hw, Option.some.injEq] at hparent
                  exact hparent ▸ .raised error hphase hw
              | failure message =>
                  simp only [hw, Option.some.injEq] at hparent
                  exact hparent ▸ .returned hphase hw
  | returned results => simp [hphase] at hparent
  | raised error => simp [hphase] at hparent

/-- **A step is a step of the pool.** -/
theorem pool_step (h : Kept c jobs s) {a : ParallelAct} (hstep : step c jobs s a = some s') :
    s.pool.Step c jobs a s'.pool := by
  cases a with
  | tick =>
      cases hstep
      exact .tick
  | disk fs =>
      cases hstep
      exact .disk fs
  | child k a =>
      unfold step at hstep
      cases hw : s.workers[k]? with
      | none => simp [hw] at hstep
      | some w =>
          simp only [hw, Option.map_eq_some_iff] at hstep
          obtain ⟨w', hwork, rfl⟩ := hstep
          exact .child hw hwork
  | parent faults => exact .parent faults (parent_turn h hstep)
  | interrupt diagnostic =>
      have hraise : s.phase.supervising = true → s.pool.Step c jobs (.interrupt diagnostic)
          (s.raise (.keyboardInterrupt diagnostic)).pool := fun hsup => .interrupt diagnostic hsup
      unfold step at hstep
      cases hphase : s.phase with
      | returned results => simp [hphase] at hstep
      | raised error => simp [hphase] at hstep
      | stopping k point ending firstError =>
          simp only [hphase, Option.some.injEq] at hstep
          exact hstep ▸ .killed diagnostic hphase
      | spawning =>
          simp only [hphase, Option.some.injEq] at hstep
          exact hstep ▸ hraise (by rw [hphase]; rfl)
      | looping =>
          simp only [hphase, Option.some.injEq] at hstep
          exact hstep ▸ hraise (by rw [hphase]; rfl)
      | polling k point failure =>
          simp only [hphase, Option.some.injEq] at hstep
          exact hstep ▸ hraise (by rw [hphase]; rfl)
      | dispatching k =>
          simp only [hphase, Option.some.injEq] at hstep
          exact hstep ▸ hraise (by rw [hphase]; rfl)

end DatasetRt.WriteParallel
