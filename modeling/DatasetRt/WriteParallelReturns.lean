import DatasetRt.PublicationMarker
import DatasetRt.SourceSupervision
import DatasetRt.WriteParallelTurns

/-! # What the parallel writer returns

A success that `write_parallel` returns was reported by a child that ran the native writer on this source (`Backing`),
and once the call has returned no child is left (`Stopped`). -/

namespace DatasetRt.WriteParallel

/-! ### Where a success comes from -/

/-- A success is that of a job with `Q`. -/
def Backed (Q : SourceJob → Prop) (jobs : List SourceItem) (index : ℕ) (result : CacheWriteResult) : Prop :=
  ∀ name path, result = .success name path → ∃ job, jobs[index]? = some (.job job) ∧ name = job.name ∧ Q job

/-- What children report and what was collected. -/
structure Backing (Q : SourceJob → Prop) (jobs : List SourceItem) (p : Pool) : Prop where
  outcomes : ∀ o ∈ p.outcomes, Backed Q jobs o.1 o.2
  messages : p.phase.supervising = true → ∀ (k : ℕ) (w : WriterProcess), p.workers[k]? = some w →
    ∀ index deadline destination, w.state = .active index deadline destination →
      ∀ result, .ok (.finished result) ∈ w.results → Backed Q jobs index result

section backing

variable {Q : SourceJob → Prop} {c : ParallelCall} {jobs : List SourceItem} {p p' : Pool} {s : WriteParallel} {k : ℕ}
  {w w' : WriterProcess} {a : ChildAct}

theorem Backing.replace (h : Backing Q jobs p) (hsup : p.phase.supervising = true) (hnew : ∀ index deadline destination,
      w'.state = .active index deadline destination → ∀ result, .ok (.finished result) ∈ w'.results →
        Backed Q jobs index result)
    {outcomes : List (ℕ × CacheWriteResult)} (houtcomes : ∀ o ∈ outcomes, Backed Q jobs o.1 o.2) (k nextIndex : ℕ)
    (phase : ParentPhase) : Backing Q jobs ⟨p.workers.set k w', nextIndex, outcomes, phase, p.now⟩ := by
  refine ⟨houtcomes, fun _ j v hv index deadline destination hstate result hmem => ?_⟩
  simp only [List.getElem?_set] at hv
  split_ifs at hv
  · obtain rfl := Option.some.inj hv
    exact hnew index deadline destination hstate result hmem
  · exact h.messages hsup j v hv index deadline destination hstate result hmem

theorem Backing.goto (h : Backing Q jobs p) {phase : ParentPhase}
    (hphase : phase.supervising = true → p.phase.supervising = true) : Backing Q jobs { p with phase } :=
  ⟨h.outcomes, fun hsup => h.messages (hphase hsup)⟩

end backing

/-! ### Runs -/

/-- `write_one_source_result` has returned a success for this job. -/
def SourceJob.Published (L : StorageLib) (config : WriterConfig) (base : Path) (job : SourceJob) : Prop :=
  ∃ writerFaults fs fs' record,
    WritesSource L config writerFaults base 0 fs job.native (.ok record) fs' ∧ record.status = .success

section runs

variable {L : StorageLib} {config : WriterConfig} {c : ParallelCall} {jobs : List SourceItem} {s : WriteParallel}

namespace TwoSources

/-- Both children get a job, one of them dies, and the call returns. -/
def whole : List ParallelAct := before ++ (collecting ++ ending)

theorem guarded_whole : Machine.Guarded (step call items)
    (runsNatively (SharedShard.lib "000000.bin") SharedShard.config call) (new SharedShard.fs) whole := by
  obtain ⟨s, hbefore, hrunning⟩ : ∃ s, Machine.run (step call items) (new SharedShard.fs) before = some s ∧
      s.workers[0]?.map WriterProcess.process = some (.running (job "a" rfl)) := ⟨_, rfl, rfl⟩
  refine Machine.guarded_append _ (guarded_of_recordless rfl _) hbefore ⟨fun w j hw hj => ?_, fun s _ => ?_⟩
  · rw [hw, Option.map_some, hj] at hrunning
    cases hrunning
    exact ⟨.none, _, _, reused, rfl, writesSource_reused⟩
  · exact guarded_of_recordless rfl s

end TwoSources

end runs

/-! ### Nobody is left -/

/-- The child has exited, and nothing belongs to it any more. -/
def WriterProcess.Gone (w : WriterProcess) : Prop := w.exitcode.isSome = true ∧ w.state.index? = none

/-- What `_stop_all` has done, if there was no error. -/
structure Stopped (p : Pool) : Prop where
  stopping : ∀ k point ending, p.phase = .stopping k point ending none → ∀ (j : ℕ) (w : WriterProcess), j < k →
    p.workers[j]? = some w → w.Gone
  returned : ∀ results, p.phase = .returned results → ∀ (j : ℕ) (w : WriterProcess), p.workers[j]? = some w → w.Gone

section stopped

variable {L : StorageLib} {config : WriterConfig} {c : ParallelCall} {jobs : List SourceItem} {p p' : Pool}
  {s : WriteParallel} {w w' : WriterProcess} {a : ChildAct}

/-- The dead do nothing. -/
theorem exitcode_of_work (hwork : w.work a = some w') : w.exitcode = none := by
  rcases work_cases hwork with ⟨hp, -⟩ | ⟨hp, -, -⟩ | ⟨job, hp, -, -⟩ | ⟨job, records, result, -, hp, -, -⟩ |
    ⟨process, messages, -, -, hexit, -⟩
  · simp [WriterProcess.exitcode, hp]
  · simp [WriterProcess.exitcode, hp]
  · simp [WriterProcess.exitcode, hp]
  · simp [WriterProcess.exitcode, hp]
  · exact hexit

theorem stopped_of_running (h : ∀ k point ending, p.phase = .stopping k point ending none → k = 0)
    (hreturned : ∀ results, p.phase ≠ .returned results) : Stopped p := by
  refine ⟨fun k point ending hphase j w hj => ?_, fun results hphase => absurd hphase (hreturned results)⟩
  rw [h k point ending hphase] at hj
  exact absurd hj j.not_lt_zero

theorem stopped_of_move {phase : ParentPhase} (h : Move c jobs p phase) : Stopped { p with phase } := by
  refine stopped_of_running (fun k point ending hphase => ?_) fun results hphase => ?_
  · cases h <;> cases hphase
    rfl
  · cases h <;> cases hphase

theorem stopped_turn (h : Stopped p) (hturn : Turn c jobs p p') : Stopped p' := by
  cases hturn with
  | spawned hphase hlen => exact stopped_of_running (by simp [hphase]) (by simp [hphase])
  | moved hmove => exact stopped_of_move hmove
  | ended hphase hw hresults hlast hnext =>
      rcases hnext with ⟨message, rfl⟩ | ⟨ending, rfl⟩
      · exact stopped_of_running (by simp) (by simp)
      · refine stopped_of_running (fun k point ending hphase => ?_) (by simp)
        cases hphase
        rfl
  | ready hphase hw hstate hresults => exact stopped_of_running (by simp) (by simp)
  | collected hphase hw hstate hresults hnext =>
      rcases hnext with rfl | ⟨ending, rfl⟩
      · exact stopped_of_running (by simp) (by simp)
      · refine stopped_of_running (fun k point ending hphase => ?_) (by simp)
        cases hphase
        rfl
  | refused message hphase hw hidle hitem => exact stopped_of_running (by simp [hphase]) (by simp [hphase])
  | given hphase hw hidle hjob => exact stopped_of_running (by simp [hphase]) (by simp [hphase])
  | @asked k w mail ending firstError hphase hw =>
      refine ⟨fun k' point ending' hphase' j v hj hv => ?_, by simp⟩
      cases hphase'
      rw [List.getElem?_set_ne hj.ne'] at hv
      exact h.stopping k .ask ending hphase j v hj hv
  | @released k w state ending firstError firstError' hphase hw hstate hdead =>
      refine ⟨fun k' point ending' hphase' j v hj hv => ?_, by simp⟩
      cases hphase'
      obtain ⟨rfl, hexit, hindex⟩ := hdead rfl
      rcases Nat.lt_succ_iff_lt_or_eq.mp hj with hj | rfl
      · rw [List.getElem?_set_ne hj.ne'] at hv
        exact h.stopping k .release ending hphase j v hj hv
      · rw [List.getElem?_set_self (List.getElem?_eq_some_iff.mp hw).1] at hv
        obtain rfl := Option.some.inj hv
        exact ⟨hexit, hindex⟩
  | raised error hphase hend => exact stopped_of_running (by simp) (by simp)
  | @returned k point message hphase hend =>
      refine ⟨by simp, fun results hresults j w hw => h.stopping k point _ hphase j w ?_ hw⟩
      have hj := (List.getElem?_eq_some_iff.mp hw).1
      exact hj.trans_le (List.getElem?_eq_none_iff.mp hend)

theorem stopped_step (h : Stopped p) {a : ParallelAct} (hstep : p.Step c jobs a p') : Stopped p' := by
  cases hstep with
  | tick => exact ⟨h.stopping, h.returned⟩
  | disk fs => exact h
  | parent faults hturn => exact stopped_turn h hturn
  | interrupt diagnostic hsup =>
      refine stopped_of_running (fun k point ending hphase => ?_) (by simp)
      cases hphase
      rfl
  | killed diagnostic hphase => exact stopped_of_running (by simp) (by simp)
  | @child k w w' a hw hwork =>
      -- A child that is gone does not work.
      have hgone : ∀ (j : ℕ) (v : WriterProcess), (p.workers.set k w')[j]? = some v →
          (∀ u, p.workers[j]? = some u → u.Gone) → v.Gone := by
        intro j v hv hold
        rw [List.getElem?_set] at hv
        split_ifs at hv with hj hk
        · subst hj
          have hexit := (hold w hw).1
          rw [exitcode_of_work hwork] at hexit
          cases hexit
        · exact hold v hv
      exact ⟨fun k' point ending hphase j v hj hv => hgone j v hv fun u => h.stopping k' point ending hphase j u hj,
        fun results hphase j v hv => hgone j v hv fun u => h.returned results hphase j u⟩

/-- **When `write_parallel` has returned, nobody is left.**  Every child has exited, no source belongs to one, and no
step of a child is possible any more. -/
theorem parallel_returns_alone (L : StorageLib) (config : WriterConfig) (c : ParallelCall) (jobs : List SourceItem)
    (disk : FileTree) (as : List ParallelAct) (s : WriteParallel)
    (hnative : Machine.Guarded (step c jobs) (runsNatively L config c) (new disk) as)
    (hrun : Machine.run (step c jobs) (new disk) as = some s) {results : List CacheWriteResult}
    (hreturned : s.phase = .returned results) :
    (∀ w ∈ s.workers, w.exitcode.isSome = true) ∧ s.activeIndices = [] ∧
      ∀ k a, step c jobs s (.child k a) = none := by
  have hstopped : Kept c jobs s ∧ Stopped s.pool := by
    refine Machine.run_invariant_of_guarded (I := fun s => Kept c jobs s ∧ Stopped s.pool) (step c jobs) ?_
      ⟨kept_new disk, stopped_of_running (by simp [new, pool]) (by simp [new, pool])⟩ hnative hrun
    rintro t a t' ⟨hkept, hstopped⟩ hok hstep
    exact ⟨(onward_step hkept hok hstep).kept, stopped_step hstopped (pool_step hkept hstep)⟩
  have hgone : ∀ w ∈ s.workers, w.Gone := by
    intro w hmem
    obtain ⟨j, hw⟩ := List.mem_iff_getElem?.mp hmem
    exact hstopped.2.returned results hreturned j w hw
  refine ⟨fun w hw => (hgone w hw).1, List.filterMap_eq_nil_iff.mpr fun w hw => (hgone w hw).2, fun k a => ?_⟩
  cases hw : s.workers[k]? with
  | none => simp only [step, hw]
  | some w =>
      cases hwork : w.work a with
      | none => simp only [step, hw, hwork, Option.map_none]
      | some w' =>
          have hexit := (hgone w (List.mem_of_getElem? hw)).1
          rw [exitcode_of_work hwork] at hexit
          cases hexit

end stopped

open TwoSources in
/-- One child has died, and the other one was asked to leave. -/
theorem parallel_returns_alone_dead : ∃ s, Machine.run (step call items) (new SharedShard.fs) whole = some s ∧
    s.workers.length = 2 ∧ ∀ w ∈ s.workers, w.exitcode.isSome = true := by
  obtain ⟨s, results, hrun, hreturned, hlen⟩ : ∃ s results,
      Machine.run (step call items) (new SharedShard.fs) whole = some s ∧ s.phase = .returned results ∧
        s.workers.length = 2 := ⟨_, _, rfl, rfl, rfl⟩
  exact ⟨s, hrun, hlen, (parallel_returns_alone (SharedShard.lib "000000.bin") SharedShard.config call items
    SharedShard.fs whole s guarded_whole hrun hreturned).1⟩

end DatasetRt.WriteParallel
