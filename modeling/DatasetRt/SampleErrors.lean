import DatasetRt.SampleRuns
import DatasetRt.DataErrors
import DatasetRt.WriteFifo

/-! # Errors of the sample pipeline

Which errors `write_with_pipeline` can return.  An error of the iterator ends the call only if the builder has not
refused a sample before, and when it notices depends on the workers: a sample is certainly committed once as many
samples as there are credits were sent behind it.

* `Rejected` are the errors that do not come from the iterator; `WritesWith.error` says that there are no others.
* `exists_writesWith`: the call always returns.
* `exists_rejected`: the workers can be so fast that a sample is refused as soon as there are enough behind it. -/

namespace DatasetRt

namespace CacheBuilder

variable {L : StorageLib} {faults : WriterFaults}

theorem pushAllOn_error_of_first {b : CacheBuilder} {first all : List (Bytes × MetadataMap)} {e : CacheError}
    (hpre : first <+: all) (h : (b.pushAllOn L faults first).2 = .error e) : (b.pushAllOn L faults all).2 = .error e := by
  obtain ⟨rest, rfl⟩ := hpre
  rw [pushAllOn_append]
  rcases hfirst : b.pushAllOn L faults first with ⟨b', error | u⟩
  · rw [hfirst] at h
    exact h
  · rw [hfirst] at h
    cases h

theorem pushAllOn_ok_of_first {b : CacheBuilder} {first all : List (Bytes × MetadataMap)}
    (hpre : first <+: all) (h : (b.pushAllOn L faults all).2 = .ok ()) : (b.pushAllOn L faults first).2 = .ok () := by
  cases hfirst : (b.pushAllOn L faults first).2 with
  | ok u => rfl
  | error e =>
      rw [pushAllOn_error_of_first hpre hfirst] at h
      cases h

theorem pushAllOn_snoc {b b' : CacheBuilder} {done : List (Bytes × MetadataMap)}
    (hdone : b.pushAllOn L faults done = (b', .ok ())) (item : Bytes × MetadataMap) :
    (b.pushAllOn L faults (done ++ [item])).2 = (b'.pushSampleOn L faults item.1 item.2).2 := by
  rw [pushAllOn_append, hdone]
  simp only [pushAllOn]
  rcases b'.pushSampleOn L faults item.1 item.2 with ⟨b'', error | u⟩ <;> rfl

end CacheBuilder

/-! ### Where an error comes from -/

section rejected

variable (L : StorageLib) (faults : WriterFaults) (source : Source) (builder : CacheBuilder) (parallelism : ℕ)

/-- The errors that do not come from the iterator. -/
inductive Rejected : CacheError → Prop where
  /-- The builder refused a sample before the iterator was at its end. -/
  | early {k : ℕ} {e : CacheError} (hk : k + parallelism < source.inputs.length)
      (hpush : (builder.pushAllOn L faults (source.inputs.take (k + 1))).2 = .error e) : Rejected e
  | late {e : CacheError} (hending : source.ending = none) (hlt : source.inputs.length < wordSize)
      (hpush : (builder.pushAllOn L faults source.inputs).2 = .error e) : Rejected e
  | finish {b : CacheBuilder} {e : CacheError} (hending : source.ending = none)
      (hlt : source.inputs.length < wordSize) (hpush : builder.pushAllOn L faults source.inputs = (b, .ok ()))
      (hfinish : (b.finishOn L faults).2 = .error e) : Rejected e
  | overflow (hlong : wordSize ≤ source.inputs.length) :
      Rejected (.invalidInput "sample sequence overflowed u64")

theorem Rejected.isInterrupt {e : CacheError} (h : Rejected L faults source builder parallelism e) :
    e.isInterrupt = false := by
  cases h with
  | early hk hpush => exact CacheBuilder.dataErrors_pushAllOn faults builder _ _ hpush
  | late hending hlt hpush => exact CacheBuilder.dataErrors_pushAllOn faults builder _ _ hpush
  | @finish b e hending hlt hpush hfinish => exact CacheBuilder.dataErrors_finishOn faults b _ hfinish
  | overflow hlong => rfl

/-- Every error of a run has been explained. -/
structure Explained (s : WritePipeline WriterInput SampleTarget) : Prop where
  run : SampleRun L faults source builder s
  crediting : ∀ message, s.phase = .crediting message → s.inFlight = s.parallelism
  parallelism_eq : s.parallelism = parallelism
  errors : ∀ e ∈ s.errors, Rejected L faults source builder parallelism e

end rejected

section steps

variable {L : StorageLib} {config : WriterConfig} {faults : WriterFaults} {source : Source} {builder : CacheBuilder}
  {parallelism : ℕ} {s s' : WritePipeline WriterInput SampleTarget}

/-- Whoever waits for a result has seen no error. -/
theorem SampleRun.waiting (h : SampleRun L faults source builder s) (hwant : s.wantsResult = true) :
    s.Ledger ∧ s.errors = [] ∧ s.nextSequence = s.committed.length ∧
      Pushed L faults builder s.target s.committed := by
  rcases h.counted.inv with ⟨hl, hnext, hphase⟩ | hc
  · have hnone : s.errors = [] := by
      cases hp : s.phase <;> simp only [WritePipeline.wantsResult, hp, Bool.false_eq_true] at hwant
      · simp only [WritePipeline.PhaseOk, hp] at hphase
        exact hphase.1
      · simp only [WritePipeline.PhaseOk, hp] at hphase
        exact hphase
      · exact absurd hp h.draining
    exact ⟨hl, hnone, hnext hnone, WritePipeline.upheld_of_wantsResult (h.clean hnone) hwant⟩
  · rcases hc.phase with hp | ⟨r, hp⟩ <;> simp [WritePipeline.wantsResult, hp] at hwant

theorem SampleRun.submitted_lt (h : SampleRun L faults source builder s) {message : Message WriterInput}
    (hp : s.phase = .crediting message ∨ s.phase = .enqueueing message) :
    s.submitted.length < source.inputs.length := by
  have hknown : s.known = s.submitted ++ [message.item] := by
    rcases hp with hp | hp <;> simp [WritePipeline.known, WritePipeline.inHand, hp]
  have hle := h.known.length_le
  rw [hknown, List.length_append, List.length_singleton] at hle
  omega

/-- **Where an error comes from.** -/
theorem Explained.fault (h : Explained L faults source builder parallelism s) {a : WriteAct WriterInput} {e : CacheError}
    (hguard : ingestPythonSamples source s a) (hfault : WritePipeline.Fault (samplePipeline L faults) s a e) :
    Rejected L faults source builder parallelism e := by
  cases hfault with
  | overflow hfirst hadd => cases hfirst
  | @overflowLate message hphase hadd =>
      obtain ⟨-, -, hsequence, -⟩ := h.run.counted.inv.enqueueing hphase
      have hlt := h.run.submitted_lt (.inr hphase)
      have hmax : ¬ s.sequence + 1 < wordSize := fun hlt => by simp [checkedAdd, hlt] at hadd
      exact .overflow (by omega)
  | refused => cases hguard
  | @broken r pool t e hwant hrecv hone =>
      obtain ⟨hl, -, hnext, hpushed⟩ := h.run.waiting hwant
      have hsubmitted := s.submitted_prefix_known.trans h.run.known
      rcases WritePipeline.completeOne_error hl hnext cleans_pushed.commit hrecv hone hpushed with
        ⟨rfl, hlong⟩ | ⟨u, done, item, ⟨hdone, -⟩, hfail, hpre, hcount⟩
      · exact .overflow (hlong.trans hsubmitted.length_le)
      · have hpush : (builder.pushAllOn L faults (done ++ [item])).2 = .error e := by
          rw [CacheBuilder.pushAllOn_snoc hdone]
          exact hfail
        have htake := hpre.trans hsubmitted
        cases hp : s.phase <;> simp only [WritePipeline.wantsResult, hp, Bool.false_eq_true] at hwant
        case crediting message =>
          have hlt := h.run.submitted_lt (.inl hp)
          have hfull := h.crediting message hp
          have heq := List.prefix_iff_eq_take.mp htake
          rw [List.length_append, List.length_singleton] at heq
          rw [heq] at hpush
          exact .early (by rw [← h.parallelism_eq, ← hfull]; omega) hpush
        case finishing =>
          obtain ⟨-, hending, hlt⟩ := h.run.finishing hp
          exact .late hending hlt (CacheBuilder.pushAllOn_error_of_first htake hpush)
        case draining => exact absurd hp h.run.draining
  | interrupted e => cases hguard
  | pending hphase hout hpending =>
      rcases h.run.counted.inv with ⟨hl, hclean, hphaseOk⟩ | hc
      · simp only [WritePipeline.PhaseOk, hphase] at hphaseOk
        exact absurd (hl.all_committed (hclean hphaseOk) hout).1 hpending
      · rcases hc.phase with hp | ⟨r, hp⟩ <;> simp [hphase] at hp
  | unfinished hphase hout hfinish =>
      obtain ⟨hall, hending, hlt⟩ := h.run.finishing hphase
      rcases h.run.counted.inv with ⟨hl, hclean, hphaseOk⟩ | hc
      · simp only [WritePipeline.PhaseOk, hphase] at hphaseOk
        have hcommitted := (hl.all_committed (hclean hphaseOk) hout).2
        have hpushed := h.run.clean hphaseOk
        simp only [WritePipeline.Upheld, hphase, hcommitted, hall] at hpushed
        refine .finish hending hlt hpushed.1 ?_
        rcases hdone : s.target.builder.finishOn L faults with ⟨dir, error | manifest⟩
        · simpa [samplePipeline, sampleWritePipeline, hdone, Except.map] using hfinish
        · simp [samplePipeline, sampleWritePipeline, hdone, Except.map] at hfinish
      · rcases hc.phase with hp | ⟨r, hp⟩ <;> simp [hphase] at hp

theorem explained_step (h : Explained L faults source builder parallelism s) {a : WriteAct WriterInput}
    (hguard : ingestPythonSamples source s a) (hs : s.step (samplePipeline L faults) a = some s') :
    Explained L faults source builder parallelism s' := by
  refine ⟨sampleRun_step h.run hguard hs, WritePipeline.crediting_step h.crediting hs,
    (WritePipeline.step_parallelism hs).trans h.parallelism_eq, fun e he => ?_⟩
  rcases WritePipeline.errors_step hs with heq | ⟨e', heq, hfault⟩
  · exact h.errors e (heq ▸ he)
  · rw [heq, List.mem_append, List.mem_singleton] at he
    rcases he with he | rfl
    · exact h.errors e he
    · exact h.fault hguard hfault

theorem explained_new (hroot : builder.dir [] = some .dir) :
    Explained L faults source builder (min config.prefetchSize.1 config.numWorkers.1)
      (WritePipeline.new ⟨builder, builder.dir⟩ config.prefetchSize config.numWorkers) :=
  ⟨sampleRun_new hroot, nofun, rfl, nofun⟩

/-! ### The call returns -/

/-- The steps of the call that are left; in front of each sample there is one more. -/
def stepsLeft (source : Source) (s : WritePipeline WriterInput SampleTarget) : ℕ :=
  10 * (source.inputs.length - s.submitted.length) + s.weight +
    match s.phase with
    | .ready => 6
    | _ => 0

theorem stepsLeft_step (h : SampleRun L faults source builder s) {a : WriteAct WriterInput}
    (hs : s.step (samplePipeline L faults) a = some s') : stepsLeft source s' < stepsLeft source s := by
  have hready := WritePipeline.ready_step hs
  rcases WritePipeline.submitted_cases hs with hsame | ⟨message, hphase, hmore, -⟩
  · have hphase' : s'.phase = .ready → s.phase = .ready ∧ ∀ item, a ≠ .submit item := by
      intro hp
      rcases hready hp with hq | ⟨message, -, hmore⟩
      · exact hq
      · rw [hsame] at hmore
        exact absurd hmore (by simp)
    unfold stepsLeft
    rw [hsame]
    rcases WritePipeline.weight_step hs with hlt | ⟨⟨item, rfl⟩, hp, hle⟩
    · cases hp' : s'.phase
      case ready =>
        rw [(hphase' hp').1]
        simp only
        omega
      all_goals
        simp only
        omega
    · rw [hp]
      cases hp' : s'.phase
      case ready => exact absurd rfl ((hphase' hp').2 item)
      all_goals
        simp only
        omega
  · have hlt := h.submitted_lt (.inr hphase)
    have hlen := congrArg List.length hmore
    rw [List.length_append, List.length_singleton] at hlen
    have hsix : (match s'.phase with
        | .ready => 6
        | _ => 0) ≤ 6 := by
      split <;> omega
    rcases WritePipeline.weight_step hs with hw | ⟨-, hp, -⟩
    · unfold stepsLeft
      rw [hphase]
      simp only
      omega
    · rw [hphase] at hp
      cases hp

/-- The call has returned. -/
def HasReturned (s : WritePipeline WriterInput SampleTarget) : Prop :=
  s.phase = .abandoned ∨ ∃ result, s.phase = .finished result

/-- **Nothing blocks the call.** -/
theorem SampleRun.exists_step (h : SampleRun L faults source builder s) (hreturned : ¬ HasReturned s) :
    ∃ a, ingestPythonSamples source s a ∧ (s.step (samplePipeline L faults) a).isSome = true := by
  have hwaits : s.wantsResult = true →
      ∃ a, ingestPythonSamples source s a ∧ (s.step (samplePipeline L faults) a).isSome = true := by
    intro hwant
    rcases h.counted.exists_step hwant with hstep | hstep | hstep
    · exact ⟨.receive, trivial, hstep⟩
    · exact ⟨.complete 0, trivial, hstep⟩
    · exact ⟨.start, trivial, hstep⟩
  cases hp : s.phase with
  | ready =>
      have hle := (s.submitted_prefix_known.trans h.known).length_le
      rcases hle.lt_or_eq with hlt | heq
      · exact ⟨.submit source.inputs[s.submitted.length], List.getElem?_eq_getElem hlt, by
          simp [WritePipeline.step, hp]⟩
      · cases hending : source.ending with
        | none => exact ⟨.finish, ⟨heq, hending⟩, by simp [WritePipeline.step, hp]⟩
        | some error =>
            exact ⟨.drop, .inr ⟨heq, by simp [hending]⟩, by simp [WritePipeline.step, hp]⟩
  | crediting message => exact hwaits (by simp [WritePipeline.wantsResult, hp])
  | enqueueing message => exact ⟨.enqueue true, rfl, by simp [WritePipeline.step, hp]⟩
  | finishing =>
      by_cases hout : s.inFlight = 0
      · exact ⟨.settle, trivial, by simp [WritePipeline.step, hp, hout]⟩
      · exact hwaits (by simp [WritePipeline.wantsResult, hp]; omega)
  | draining => exact absurd hp h.draining
  | failed => exact ⟨.drop, .inl (by rw [hp]), by simp [WritePipeline.step, hp]⟩
  | finished result => exact absurd (.inr ⟨result, hp⟩) hreturned
  | abandoned => exact absurd (.inl hp) hreturned

/-! ### Workers that keep up -/

variable (L faults source builder) in
/-- After `m` samples, with workers that keep up. -/
structure KeepsUp (parallelism m : ℕ) (s : WritePipeline WriterInput SampleTarget) (items : List WriterInput) :
    Prop where
  order : s.InOrder items
  sent : s.committed ++ items = source.inputs.take m
  count : items.length = min m parallelism
  pushed : Pushed L faults builder s.target s.committed
  errors : s.errors = []
  parallelism_eq : s.parallelism = parallelism

theorem KeepsUp.length {m : ℕ} {items : List WriterInput} (h : KeepsUp L faults source builder parallelism m s items)
    (hm : m ≤ source.inputs.length) : s.committed.length + items.length = m := by
  have hlen := congrArg List.length h.sent
  rw [List.length_append, List.length_take] at hlen
  omega

theorem KeepsUp.first {m : ℕ} {items : List WriterInput} (h : KeepsUp L faults source builder parallelism m s items)
    (hm : m ≤ source.inputs.length) (hfull : parallelism ≤ m) (hpos : 0 < parallelism) :
    ∃ first rest, items = first :: rest ∧ s.committed ++ [first] = source.inputs.take (m - parallelism + 1) ∧
      ((samplePipeline L faults).commit s.target first).2 = (builder.pushAllOn L faults (s.committed ++ [first])).2 := by
  have hcount := h.count
  have hlength := h.length hm
  cases items with
  | nil => simp at hcount; omega
  | cons first rest =>
      refine ⟨first, rest, rfl, ?_, (CacheBuilder.pushAllOn_snoc h.pushed.1 first).symm⟩
      have hhead : s.committed ++ [first] <+: source.inputs.take m := ⟨rest, by rw [← h.sent]; simp⟩
      have hpre := hhead.trans (List.take_prefix _ _)
      have heq := List.prefix_iff_eq_take.mp hpre
      rw [List.length_append, List.length_singleton] at heq
      rw [heq]
      congr 1
      omega

/-- The pool takes a sample whenever it is asked to. -/
theorem guarded_submit {m : ℕ} {item : WriterInput} {as : List (WriteAct WriterInput)}
    (hitem : source.inputs[m]? = some item) (hlength : s.submitted.length = m)
    (has : ∀ a ∈ as, a ∈ .receive :: (WritePipeline.handOver : List (WriteAct WriterInput))) :
    Machine.Guarded (WritePipeline.step (samplePipeline L faults)) (ingestPythonSamples source) s
      (.submit item :: as) := by
  refine ⟨by rw [ingestPythonSamples, hlength]; exact hitem, fun t _ => ?_⟩
  refine Machine.guarded_of_forall _ t fun u a ha => ?_
  simp only [WritePipeline.handOver, List.mem_cons, List.not_mem_nil, or_false] at has
  rcases has a ha with rfl | rfl | rfl | rfl <;> simp [ingestPythonSamples]

theorem KeepsUp.next {m : ℕ} {items : List WriterInput} (h : KeepsUp L faults source builder parallelism m s items)
    (hm : m < source.inputs.length) (hlt : m + 1 < wordSize) (hpos : 0 < parallelism)
    (hok : (builder.pushAllOn L faults (source.inputs.take (m + 1 - parallelism))).2 = .ok ()) :
    ∃ as t items', Machine.Guarded (WritePipeline.step (samplePipeline L faults)) (ingestPythonSamples source) s as ∧
      Machine.run (WritePipeline.step (samplePipeline L faults)) s as = some t ∧
      KeepsUp L faults source builder parallelism (m + 1) t items' := by
  have hlength := h.length hm.le
  have hsequence : s.sequence = m := h.order.sequence.trans hlength
  have hsubmitted : s.submitted.length = m := by
    rw [h.order.submitted, List.length_append, hlength]
  have hitem := List.getElem?_eq_getElem hm
  have hsent : source.inputs.take (m + 1) = s.committed ++ items ++ [source.inputs[m]] := by
    rw [h.sent, List.take_append_getElem]
  by_cases hfull : parallelism ≤ m
  · obtain ⟨first, rest, rfl, hfirst, hcommit⟩ := h.first hm.le hfull hpos
    have hshift : m - parallelism + 1 = m + 1 - parallelism := by omega
    rw [hshift] at hfirst
    rw [hfirst, hok] at hcommit
    have hcount := h.count
    refine ⟨_, _, rest ++ [source.inputs[m]], guarded_submit hitem hsubmitted fun a ha => ha,
      WritePipeline.run_inOrder_shift h.order (by rw [hcount, h.parallelism_eq]; omega)
        (by rw [hsequence]; exact hlt) hcommit _, ?_⟩
    refine ⟨(h.order.shifted).handed _, ?_, ?_, cleans_pushed.commit _ _ _ h.pushed hcommit, h.errors,
      h.parallelism_eq⟩
    · rw [hsent]
      simp [WritePipeline.handed, WritePipeline.shifted]
    · rw [List.length_cons] at hcount
      rw [List.length_append, List.length_singleton]
      omega
  · have hcount := h.count
    refine ⟨_, _, items ++ [source.inputs[m]], guarded_submit hitem hsubmitted fun a ha => List.mem_cons_of_mem _ ha,
      WritePipeline.run_inOrder_append h.order (by rw [h.parallelism_eq]; omega) (by rw [hsequence]; exact hlt) _, ?_⟩
    refine ⟨h.order.handed _, ?_, ?_, h.pushed, h.errors, h.parallelism_eq⟩
    · rw [hsent]
      simp [WritePipeline.handed]
    · rw [List.length_append, List.length_singleton]
      omega

end steps

/-! ### The whole call -/

section calls

variable {L : StorageLib} {config : WriterConfig} {faults : WriterFaults} {source : Source} {builder : CacheBuilder}
  {result : CacheResult Unit} {dir : FileTree}

/-- **An error of the call** is one of the iterator or one of the builder. -/
theorem WritesWith.error {e : CacheError} (hroot : builder.dir [] = some .dir)
    (h : WritesWith L config faults source builder (.error e) dir) :
    Rejected L faults source builder (min config.prefetchSize.1 config.numWorkers.1) e ∨ source.ending = some e := by
  obtain ⟨as, s, hrun, hguard, hresult, -⟩ := h
  have hexplained := Machine.run_invariant_of_guarded _
    (I := Explained L faults source builder (min config.prefetchSize.1 config.numWorkers.1))
    (fun _ _ _ h hguard hs => explained_step h hguard hs) (explained_new hroot) hguard hrun
  rcases hresult with hphase | ⟨hphase, hresult⟩
  · obtain ⟨-, -, -, hmem⟩ := hexplained.run.finished _ hphase
    exact .inl (hexplained.errors e (hmem e rfl))
  · rw [Except.error.injEq] at hresult
    cases hlast : s.errors.getLast? with
    | some error =>
        rw [hlast, Option.some_or, Option.getD_some] at hresult
        exact .inl (hexplained.errors e (hresult ▸ List.mem_of_getLast? hlast))
    | none =>
        rcases hexplained.run.abandoned hphase with hne | ⟨-, hending⟩
        · exact absurd (List.getLast?_eq_none_iff.mp hlast) hne
        · obtain ⟨error, herror⟩ := Option.ne_none_iff_exists'.mp hending
          rw [hlast, Option.none_or, herror, Option.getD_some] at hresult
          exact .inr (herror.trans (congrArg some hresult.symm))

variable (L config faults source) in
/-- **The call returns.** -/
theorem exists_writesWith (hroot : builder.dir [] = some .dir) :
    ∃ result dir, WritesWith L config faults source builder result dir := by
  have hnew : SampleRun L faults source builder
      (WritePipeline.new ⟨builder, builder.dir⟩ config.prefetchSize config.numWorkers) := sampleRun_new hroot
  obtain ⟨as, s, hguard, hrun, hreturned⟩ := Machine.exists_run
    (WritePipeline.step (samplePipeline L faults)) (stepsLeft source)
    (fun s a s' h hguard hs => ⟨sampleRun_step h hguard hs, stepsLeft_step h hs⟩)
    (fun s h hreturned => SampleRun.exists_step h hreturned) hnew
  rcases hreturned with hphase | ⟨result, hphase⟩
  · exact ⟨_, _, as, s, hrun, hguard, .inr ⟨hphase, rfl⟩, rfl⟩
  · exact ⟨result, _, as, s, hrun, hguard, .inl hphase, rfl⟩

/-- Workers that keep up lead past every sample that the builder takes. -/
theorem exists_keepsUp {k : ℕ}
    (hk : k + min config.prefetchSize.1 config.numWorkers.1 < source.inputs.length)
    (hlong : source.inputs.length ≤ wordSize) (hok : (builder.pushAllOn L faults (source.inputs.take k)).2 = .ok ()) :
    ∀ m, m ≤ k + min config.prefetchSize.1 config.numWorkers.1 → ∃ as s items,
      Machine.Guarded (WritePipeline.step (samplePipeline L faults)) (ingestPythonSamples source)
        (WritePipeline.new ⟨builder, builder.dir⟩ config.prefetchSize config.numWorkers) as ∧
      Machine.run (WritePipeline.step (samplePipeline L faults))
        (WritePipeline.new ⟨builder, builder.dir⟩ config.prefetchSize config.numWorkers) as = some s ∧
      KeepsUp L faults source builder (min config.prefetchSize.1 config.numWorkers.1) m s items
  | 0, _ => ⟨[], _, [], trivial, rfl, WritePipeline.inOrder_new _ _ _, rfl, by simp, ⟨rfl, rfl⟩, rfl, rfl⟩
  | m + 1, hm => by
      obtain ⟨as, s, items, hguard, hrun, hkeeps⟩ := exists_keepsUp hk hlong hok m (by omega)
      have hpos : 0 < min config.prefetchSize.1 config.numWorkers.1 :=
        lt_min config.prefetchSize.2 config.numWorkers.2
      have hprefix := CacheBuilder.pushAllOn_ok_of_first
        (List.take_prefix_take_left (by omega : m + 1 - min config.prefetchSize.1 config.numWorkers.1 ≤ k)) hok
      obtain ⟨as', t, items', hguard', hrun', hkeeps'⟩ := hkeeps.next (by omega) (by omega) hpos hprefix
      exact ⟨as ++ as', t, items', Machine.guarded_append _ hguard hrun hguard', Machine.run_append _ hrun hrun',
        hkeeps'⟩

/-- **A sample that is refused early** can be noticed before the iterator ends. -/
theorem exists_rejected {k : ℕ} {e : CacheError}
    (hk : k + min config.prefetchSize.1 config.numWorkers.1 < source.inputs.length)
    (hlong : source.inputs.length < wordSize) (hok : (builder.pushAllOn L faults (source.inputs.take k)).2 = .ok ())
    (herror : (builder.pushAllOn L faults (source.inputs.take (k + 1))).2 = .error e) :
    ∃ dir, WritesWith L config faults source builder (.error e) dir := by
  obtain ⟨as, s, items, hguard, hrun, hkeeps⟩ := exists_keepsUp hk hlong.le hok _ (le_refl _)
  have hpos : 0 < min config.prefetchSize.1 config.numWorkers.1 :=
    lt_min config.prefetchSize.2 config.numWorkers.2
  have hlength := hkeeps.length hk.le
  have hsequence := hkeeps.order.sequence.trans hlength
  have hsubmitted : s.submitted.length = k + min config.prefetchSize.1 config.numWorkers.1 := by
    rw [hkeeps.order.submitted, List.length_append, hlength]
  have hcount := hkeeps.count
  obtain ⟨first, rest, rfl, hfirst, hcommit⟩ := hkeeps.first hk.le (by omega) hpos
  rw [hfirst, Nat.add_sub_cancel, herror] at hcommit
  obtain ⟨t, hrefused, hphase, herrors⟩ := WritePipeline.run_inOrder_refused hkeeps.order
    (by rw [hcount, hkeeps.parallelism_eq]; omega) (by rw [hsequence]; omega) hcommit
    source.inputs[k + min config.prefetchSize.1 config.numWorkers.1]
  have hdrop : t.step (samplePipeline L faults) .drop =
      some (WritePipeline.abandon (samplePipeline L faults) t .abandoned) := by
    simp [WritePipeline.step, hphase]
  refine ⟨_, as ++ ([_, .receive] ++ [.drop]), _, Machine.run_append _ hrun (Machine.run_append _ hrefused
    (Machine.run_cons_of_step _ [] hdrop)), ?_, .inr ⟨rfl, ?_⟩, rfl⟩
  · refine Machine.guarded_append _ hguard hrun (Machine.guarded_append _
      (guarded_submit (List.getElem?_eq_getElem hk) hsubmitted fun a ha => ?_) hrefused
      ⟨.inl (by rw [hphase]), fun _ _ => trivial⟩)
    rw [List.mem_singleton] at ha
    rw [ha]
    exact List.mem_cons_self
  · simp [WritePipeline.abandon, herrors]

end calls

end DatasetRt
