import DatasetRt.WriteParallel

/-! # The children of the parallel writer

The parent knows of a child only what it was told.  `Linked` says how that fits what the child is doing, wherever it
is in `_worker` or in dying: `linked_work` for the steps of the child, and one lemma for each kind of message that
the parent takes (`linked_receive_ready`, `linked_receive_finished`, `linked_receive_last`).  So the mailbox of a
child that is idle for the parent is empty (`linked_idle`), and a child never has a job but the one that it was given
(`linked_held`). -/

namespace DatasetRt

theorem sourceName_of_writesSource {L : StorageLib} {config : WriterConfig} {writerFaults : WriterFaults}
    {base : Path} {source : Source} {fs fs' : FileTree} {record : CacheWriteRecord} {name : String}
    (h : WritesSource L config writerFaults base 0 fs source (.ok record) fs')
    (hname : extractSourceName source = .ok name) : record.sourceName = name := by
  obtain ⟨written, -, heq⟩ := h
  unfold writeOneSourceResult at heq
  simp only [hname] at heq
  rcases hwrite : writeNamedSource L config writerFaults written base fs source name with ⟨x, error | path⟩
  · simp only [hwrite] at heq
    split_ifs at heq with hint
    · cases heq
    · simp only [Prod.mk.injEq, Except.ok.injEq] at heq
      rw [← heq.2]
      rfl
  · simp only [hwrite, Prod.mk.injEq, Except.ok.injEq] at heq
    rw [← heq.2]
    rfl

namespace WriteParallel

namespace SourceJob

variable (job : SourceJob)

theorem encode_eq : job.name.encode = some job.text := by
  obtain ⟨text, hencode, -⟩ := PyStr.plain_of_validateSourceName job.valid
  rw [SourceJob.text, hencode]
  rfl

theorem ofString_text : .ofString job.text = job.name := (PyStr.eq_ofString job.encode_eq).symm

theorem extractSourceName_native : extractSourceName job.native = .ok job.text := by
  obtain ⟨text, hencode, hplain⟩ := PyStr.plain_of_validateSourceName job.valid
  have htext : text = job.text := Option.some.inj (hencode.symm.trans job.encode_eq)
  have hvalid := validateSourceName_of_plain (htext ▸ hplain)
  show (validateSourceName job.text).bind (fun _ => Except.ok job.text) = .ok job.text
  rw [hvalid]
  rfl

theorem sourceName_runSource {L : StorageLib} {config : WriterConfig} {path : Path}
    {records : Except String (List CacheWriteRecord)} {result : CacheWriteResult} (h : runSource job records = .ok result)
    (hnative : ∀ rs, records = .ok rs → ∃ writerFaults fs fs' record, rs = [record] ∧
      WritesSource L config writerFaults path 0 fs job.native (.ok record) fs') : result.sourceName = job.name := by
  cases records with
  | error diagnostic =>
      cases h
      rfl
  | ok rs =>
      obtain ⟨writerFaults, fs, fs', record, rfl, hwrites⟩ := hnative rs rfl
      have hname := sourceName_of_writesSource hwrites job.extractSourceName_native
      simp only [runSource, hname, job.ofString_text] at h
      cases hstatus : record.status <;> simp only [hstatus, Except.ok.injEq] at h <;> rw [← h] <;> rfl

end SourceJob

/-! ### One child -/

/-- The job that a child runs. -/
def ChildState.held : ChildState → List SourceJob
  | .running job => [job]
  | _ => []

/-- The job in a mailbox. -/
def heldIn : Option Mail → List SourceJob
  | some (.job job) => [job]
  | _ => []

/-- The jobs that a child has. -/
def WriterProcess.held (w : WriterProcess) : List SourceJob := heldIn w.jobs ++ w.process.held

/-- The child sends nothing more. -/
def ChildState.ended : ChildState → Bool
  | .leaving | .closed | .dead _ => true
  | .starting | .waiting | .running _ => false

/-- A message after which the child leaves. -/
def Last : Except String WorkerMessage → Prop
  | .ok .ready | .ok (.finished _) => False
  | _ => True

/-- Nothing comes from the child but its end. -/
inductive Quiet : ChildState → List (Except String WorkerMessage) → Prop where
  | waiting : Quiet .waiting []
  | ended {process : ChildState} {messages : List (Except String WorkerMessage)} (hended : process.ended = true)
      (hlast : ∀ m ∈ messages, Last m) : Quiet process messages

/-- A result has the name of its source. -/
def Named (jobs : List SourceItem) (index : ℕ) (result : CacheWriteResult) : Prop :=
  ∃ item, jobs[index]? = some item ∧ result.sourceName = item.name

/-- What the parent knows of a child fits what the child is doing. -/
inductive Linked (jobs : List SourceItem) :
    WorkerState → Option Mail → ChildState → List (Except String WorkerMessage) → Prop where
  | starting {deadline : ℕ} : Linked jobs (.starting deadline) none .starting []
  | greeted {deadline : ℕ} {process : ChildState} {messages : List (Except String WorkerMessage)}
      (hquiet : Quiet process messages) : Linked jobs (.starting deadline) none process (.ok .ready :: messages)
  | stillborn {deadline : ℕ} {process : ChildState} {messages : List (Except String WorkerMessage)}
      (hended : process.ended = true) (hlast : ∀ m ∈ messages, Last m) :
      Linked jobs (.starting deadline) none process messages
  | idle {process : ChildState} {messages : List (Except String WorkerMessage)} (hquiet : Quiet process messages) :
      Linked jobs .idle none process messages
  | given {index deadline : ℕ} {destination : Path} {process : ChildState}
      {messages : List (Except String WorkerMessage)} {job : SourceJob} (hjob : jobs[index]? = some (.job job))
      (hquiet : Quiet process messages) :
      Linked jobs (.active index deadline destination) (some (.job job)) process messages
  | running {index deadline : ℕ} {destination : Path} {job : SourceJob} (hjob : jobs[index]? = some (.job job)) :
      Linked jobs (.active index deadline destination) none (.running job) []
  | reported {index deadline : ℕ} {destination : Path} {process : ChildState}
      {messages : List (Except String WorkerMessage)} {result : CacheWriteResult} (hnamed : Named jobs index result)
      (hquiet : Quiet process messages) :
      Linked jobs (.active index deadline destination) none process (.ok (.finished result) :: messages)
  | lost {index deadline : ℕ} {destination : Path} {process : ChildState}
      {messages : List (Except String WorkerMessage)} (hended : process.ended = true) (hlast : ∀ m ∈ messages, Last m) :
      Linked jobs (.active index deadline destination) none process messages

abbrev WriterProcess.Linked (jobs : List SourceItem) (w : WriterProcess) : Prop :=
  WriteParallel.Linked jobs w.state w.jobs w.process w.results

section children

variable {jobs : List SourceItem} {w w' : WriterProcess} {a : ChildAct} {process process' : ChildState}
  {messages messages' : List (Except String WorkerMessage)}

/-- What a child can do: greet, take what is in its mailbox, report a result, or end. -/
theorem work_cases (hw : w.work a = some w') :
    (w.process = .starting ∧ w' = w.send .ready .waiting) ∨
    (w.process = .waiting ∧ w.jobs = some .stop ∧ w' = { w with jobs := none, process := .leaving }) ∨
    (∃ job, w.process = .waiting ∧ w.jobs = some (.job job) ∧
      w' = { w with jobs := none, process := .running job }) ∨
    (∃ job records result, a = .finish records ∧ w.process = .running job ∧ runSource job records = .ok result ∧
      w' = w.send (.finished result) .waiting) ∨
    ∃ process messages, process.ended = true ∧ (∀ m ∈ messages, Last m) ∧ w.exitcode = none ∧
      w' = { w with process, results := w.results ++ messages } := by
  obtain ⟨state, mail, process, results⟩ := w
  have hends : ∀ process' messages, process'.ended = true → (∀ m ∈ messages, Last m) →
      WriterProcess.exitcode ⟨state, mail, process, results⟩ = none → w' = ⟨state, mail, process', results ++ messages⟩ →
      ∃ process' messages, process'.ended = true ∧ (∀ m ∈ messages, Last m) ∧
        WriterProcess.exitcode ⟨state, mail, process, results⟩ = none ∧
        w' = ⟨state, mail, process', results ++ messages⟩ :=
    fun process' messages hended hlast hexit heq => ⟨process', messages, hended, hlast, hexit, heq⟩
  cases a with
  | ready =>
      cases process <;> simp only [WriterProcess.work, Option.some.injEq, reduceCtorEq] at hw
      exact .inl ⟨rfl, hw.symm⟩
  | get =>
      cases process <;> rcases mail with _ | _ | job <;>
        simp only [WriterProcess.work, Option.some.injEq, reduceCtorEq] at hw
      · exact .inr (.inl ⟨rfl, rfl, hw.symm⟩)
      · exact .inr (.inr (.inl ⟨job, rfl, rfl, hw.symm⟩))
  | finish records =>
      cases process <;> simp only [WriterProcess.work, reduceCtorEq] at hw
      rename_i job
      cases hrun : runSource job records with
      | ok result =>
          simp only [hrun, Option.some.injEq] at hw
          exact .inr (.inr (.inr (.inl ⟨job, records, result, rfl, rfl, hrun, hw.symm⟩)))
      | error diagnostic =>
          simp only [hrun, Option.some.injEq] at hw
          exact .inr (.inr (.inr (.inr (hends .leaving [] rfl (by simp) rfl (by simp [← hw])))))
  | undecodable diagnostic =>
      cases process <;> simp only [WriterProcess.work, Option.some.injEq, reduceCtorEq] at hw
      exact .inr (.inr (.inr (.inr (hends .leaving [_] rfl (by simp [Last]) rfl hw.symm))))
  | interrupt interrupted =>
      cases process <;> simp only [WriterProcess.work, Option.some.injEq, reduceCtorEq] at hw <;>
        exact .inr (.inr (.inr (.inr (hends .leaving [_] rfl (by simp [Last]) rfl hw.symm))))
  | fail =>
      cases process <;> simp only [WriterProcess.work, Option.some.injEq, reduceCtorEq] at hw <;>
        exact .inr (.inr (.inr (.inr (hends .leaving [] rfl (by simp) rfl (by simp [← hw])))))
  | close =>
      cases process <;> simp only [WriterProcess.work, Option.some.injEq, reduceCtorEq] at hw
      exact .inr (.inr (.inr (.inr (hends .closed [] rfl (by simp) rfl (by simp [← hw])))))
  | exit exitcode =>
      cases process <;> simp only [WriterProcess.work, Option.some.injEq, reduceCtorEq] at hw
      exact .inr (.inr (.inr (.inr (hends (.dead exitcode) [] rfl (by simp) rfl (by simp [← hw])))))
  | die exitcode torn =>
      have hlast : ∀ m ∈ (if torn then [.error "EOFError: "] else [] : List (Except String WorkerMessage)), Last m := by
        cases torn <;> simp [Last]
      cases process <;> simp only [WriterProcess.work, Option.some.injEq, reduceCtorEq] at hw <;>
        exact .inr (.inr (.inr (.inr (hends (.dead exitcode) _ rfl hlast rfl hw.symm))))

theorem last_append (h : ∀ m ∈ messages, Last m) (h' : ∀ m ∈ messages', Last m) :
    ∀ m ∈ messages ++ messages', Last m := fun m hm => (List.mem_append.mp hm).elim (h m) (h' m)

theorem Quiet.ends (h : Quiet process messages) (hended : process'.ended = true) (hlast : ∀ m ∈ messages', Last m) :
    Quiet process' (messages ++ messages') := by
  cases h with
  | waiting => exact .ended hended hlast
  | ended _ hbefore => exact .ended hended (last_append hbefore hlast)

theorem held_of_ended (h : process.ended = true) : process.held = [] := by
  cases process <;> first | rfl | cases h

theorem Quiet.held (h : Quiet process messages) : process.held = [] := by
  cases h with
  | waiting => rfl
  | ended hended => exact held_of_ended hended

theorem Quiet.not_running (h : Quiet process messages) (job : SourceJob) : process ≠ .running job := by
  rintro rfl
  cases h with
  | ended hended => cases hended

/-- A child does not touch what the parent knows of it. -/
theorem state_of_work (hw : w.work a = some w') : w'.state = w.state := by
  rcases work_cases hw with ⟨-, rfl⟩ | ⟨-, -, rfl⟩ | ⟨job, -, -, rfl⟩ | ⟨job, records, result, -, -, -, rfl⟩ |
    ⟨process, messages, -, -, -, rfl⟩ <;> rfl

/-- **A child keeps to the protocol.** -/
theorem linked_work (h : w.Linked jobs) (hw : w.work a = some w')
    (hnamed : ∀ records job result, a = .finish records → w.process = .running job →
      runSource job records = .ok result → result.sourceName = job.name) : w'.Linked jobs := by
  obtain ⟨state, mail, process, results⟩ := w
  unfold WriterProcess.Linked at h ⊢
  rcases work_cases hw with ⟨hp, rfl⟩ | ⟨hp, hmail, rfl⟩ | ⟨job, hp, hmail, rfl⟩ |
    ⟨job, records, result, rfl, hp, hrun, rfl⟩ | ⟨process', messages, hended, hlast, -, rfl⟩ <;> simp only at *
  · subst hp
    cases h with
    | starting => exact .greeted .waiting
    | greeted hquiet => cases hquiet with | ended hended => cases hended
    | stillborn hended => cases hended
    | idle hquiet => cases hquiet with | ended hended => cases hended
    | given hjob hquiet => cases hquiet with | ended hended => cases hended
    | reported hnamed hquiet => cases hquiet with | ended hended => cases hended
    | lost hended => cases hended
  · subst hmail
    cases h
  · subst hp hmail
    cases h with
    | given hjob hquiet =>
        cases hquiet with
        | waiting => exact .running hjob
        | ended hended => cases hended
  · have hname := hnamed records job result rfl hp hrun
    subst hp
    cases h with
    | running hjob => exact .reported ⟨_, hjob, hname⟩ .waiting
    | greeted hquiet => exact absurd rfl (hquiet.not_running job)
    | stillborn hended => cases hended
    | idle hquiet => exact absurd rfl (hquiet.not_running job)
    | given hjob hquiet => exact absurd rfl (hquiet.not_running job)
    | reported hnamed hquiet => exact absurd rfl (hquiet.not_running job)
    | lost hended => cases hended
  · cases h with
    | starting => exact .stillborn hended hlast
    | greeted hquiet => exact .greeted (hquiet.ends hended hlast)
    | stillborn _ hbefore => exact .stillborn hended (last_append hbefore hlast)
    | idle hquiet => exact .idle (hquiet.ends hended hlast)
    | given hjob hquiet => exact .given hjob (hquiet.ends hended hlast)
    | running hjob => exact .lost hended hlast
    | reported hnamed hquiet => exact .reported hnamed (hquiet.ends hended hlast)
    | lost _ hbefore => exact .lost hended (last_append hbefore hlast)

theorem linked_held (h : w.Linked jobs) :
    w.held = [] ∨ ∃ index deadline destination job, w.state = .active index deadline destination ∧
      jobs[index]? = some (.job job) ∧ w.held = [job] := by
  obtain ⟨state, mail, process, results⟩ := w
  unfold WriterProcess.held
  cases h with
  | starting => exact .inl rfl
  | greeted hquiet => exact .inl hquiet.held
  | stillborn hended => exact .inl (held_of_ended hended)
  | idle hquiet => exact .inl hquiet.held
  | given hjob hquiet => exact .inr ⟨_, _, _, _, rfl, hjob, congrArg _ hquiet.held⟩
  | running hjob => exact .inr ⟨_, _, _, _, rfl, hjob, rfl⟩
  | reported hnamed hquiet => exact .inl hquiet.held
  | lost hended => exact .inl (held_of_ended hended)

theorem linked_idle (h : w.Linked jobs) (hstate : w.state = .idle) : w.jobs = none := by
  obtain ⟨state, mail, process, results⟩ := w
  obtain rfl : state = .idle := hstate
  cases h
  rfl

/-- The parent takes a message that tells it of an end. -/
theorem linked_receive_last {m : Except String WorkerMessage} {rest : List (Except String WorkerMessage)}
    (h : w.Linked jobs) (hresults : w.results = m :: rest) (hlast : Last m) :
    ({ w with results := rest } : WriterProcess).Linked jobs := by
  obtain ⟨state, mail, process, results⟩ := w
  obtain rfl : results = m :: rest := hresults
  have hquiet : ∀ {process}, Quiet process (m :: rest) → Quiet process rest := by
    intro process hquiet
    cases hquiet with
    | ended hended hall => exact .ended hended fun m hm => hall m (List.mem_cons_of_mem _ hm)
  unfold WriterProcess.Linked at h ⊢
  cases h with
  | greeted => exact absurd hlast id
  | stillborn hended hall => exact .stillborn hended fun m hm => hall m (List.mem_cons_of_mem _ hm)
  | idle h => exact .idle (hquiet h)
  | given hjob h => exact .given hjob (hquiet h)
  | reported => exact absurd hlast id
  | lost hended hall => exact .lost hended fun m hm => hall m (List.mem_cons_of_mem _ hm)

theorem linked_receive_ready {rest : List (Except String WorkerMessage)} (h : w.Linked jobs)
    (hresults : w.results = .ok .ready :: rest) :
    (∃ deadline, w.state = .starting deadline) ∧
      ({ w with state := .idle, results := rest } : WriterProcess).Linked jobs := by
  obtain ⟨state, mail, process, results⟩ := w
  obtain rfl : results = .ok .ready :: rest := hresults
  have hnot : ¬ Quiet process (.ok .ready :: rest) := by
    rintro (_ | ⟨-, hall⟩)
    exact hall _ List.mem_cons_self
  unfold WriterProcess.Linked at h ⊢
  cases h with
  | greeted hquiet => exact ⟨⟨_, rfl⟩, .idle hquiet⟩
  | stillborn hended hall => exact absurd (hall _ List.mem_cons_self) id
  | idle hquiet => exact absurd hquiet hnot
  | given hjob hquiet => exact absurd hquiet hnot
  | lost hended hall => exact absurd (hall _ List.mem_cons_self) id

theorem linked_receive_finished {rest : List (Except String WorkerMessage)} {result : CacheWriteResult}
    (h : w.Linked jobs) (hresults : w.results = .ok (.finished result) :: rest) :
    ∃ index deadline destination, w.state = .active index deadline destination ∧ Named jobs index result ∧
      w.held = [] ∧ ({ w with state := .idle, results := rest } : WriterProcess).Linked jobs := by
  obtain ⟨state, mail, process, results⟩ := w
  obtain rfl : results = .ok (.finished result) :: rest := hresults
  have hnot : ¬ Quiet process (.ok (.finished result) :: rest) := by
    rintro (_ | ⟨-, hall⟩)
    exact hall _ List.mem_cons_self
  unfold WriterProcess.Linked at h ⊢
  cases h with
  | stillborn hended hall => exact absurd (hall _ List.mem_cons_self) id
  | idle hquiet => exact absurd hquiet hnot
  | given hjob hquiet => exact absurd hquiet hnot
  | reported hnamed hquiet =>
      exact ⟨_, _, _, rfl, hnamed, hquiet.held, .idle hquiet⟩
  | lost hended hall => exact absurd (hall _ List.mem_cons_self) id

end children

end WriteParallel

end DatasetRt
