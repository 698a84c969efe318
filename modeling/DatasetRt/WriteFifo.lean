import DatasetRt.WriteTarget

/-! # Workers that keep up

A schedule of a write pipeline in which every job is done as soon as it was submitted, so the results come back in the
order of the items and each one is committed when it is received.  `InOrder` are the states between two items: the
items that were sent and not committed lie in the result channel.

* `run_inOrder_append`: an item is accepted while there are credits.
* `run_inOrder_shift`: without credits the oldest item is committed first.
* `run_inOrder_refused`: if its commit fails, `submit` fails. -/

namespace DatasetRt

namespace WritePipeline

variable {ι β : Type} {K : Committer ι β} {s : WritePipeline ι β} {items : List ι}

structure InOrder (s : WritePipeline ι β) (items : List ι) : Prop where
  ready : s.phase = .ready
  isOpen : s.pool.isOpen = true
  queued : s.pool.queued = []
  running : s.pool.running = []
  output : s.pool.output = (items.zipIdx s.committed.length).map fun p => .ok ⟨p.2, p.1⟩
  pending : s.pending = ∅
  next : s.nextSequence = s.committed.length
  sequence : s.sequence = s.committed.length + items.length
  submitted : s.submitted = s.committed ++ items
  inFlight : s.inFlight = items.length
  workers : 0 < s.pool.workers
  capacity : s.parallelism ≤ s.pool.capacity

theorem inOrder_new (target : β) (prefetchSize numWorkers : Positive) :
    InOrder (new target prefetchSize numWorkers : WritePipeline ι β) [] where
  ready := rfl
  isOpen := rfl
  queued := rfl
  running := rfl
  output := rfl
  pending := rfl
  next := rfl
  sequence := rfl
  submitted := rfl
  inFlight := rfl
  workers := numWorkers.2
  capacity := le_refl _

/-- The steps of one item once there is a credit for it. -/
def handOver : List (WriteAct ι) := [.enqueue true, .start, .complete 0]

/-- The state after `handOver`. -/
def handed (s : WritePipeline ι β) (item : ι) : WritePipeline ι β :=
  { s with
    pool := { s.pool with output := s.pool.output ++ [.ok ⟨s.sequence, item⟩] }
    inFlight := s.inFlight + 1
    submitted := s.submitted ++ [item]
    sequence := s.sequence + 1
    phase := .ready }

theorem InOrder.handed (h : s.InOrder items) (item : ι) : (s.handed item).InOrder (items ++ [item]) where
  ready := rfl
  isOpen := h.isOpen
  queued := h.queued
  running := h.running
  output := by
    rw [List.zipIdx_append, List.map_append]
    simp [WritePipeline.handed, h.output, h.sequence, Nat.add_comm]
  pending := h.pending
  next := h.next
  sequence := by
    simp [WritePipeline.handed, h.sequence, Nat.add_assoc]
  submitted := by
    simp [WritePipeline.handed, h.submitted]
  inFlight := by
    simp [WritePipeline.handed, h.inFlight]
  workers := h.workers
  capacity := h.capacity

theorem run_handOver (h : s.InOrder items) (hroom : items.length < s.parallelism) (hlt : s.sequence + 1 < wordSize)
    (item : ι) :
    Machine.run (step K) { s with phase := .enqueueing ⟨s.sequence, item⟩ } handOver = some (s.handed item) := by
  have hadd : checkedAdd s.sequence 1 = some (s.sequence + 1) := checkedAdd_eq_some.mpr ⟨hlt, rfl⟩
  have hlength : s.pool.output.length < s.pool.capacity := by
    have hcapacity := h.capacity
    rw [h.output, List.length_map, List.length_zipIdx]
    omega
  have hworkers := h.workers
  have hopen := h.isOpen
  have henqueue : step K { s with phase := .enqueueing ⟨s.sequence, item⟩ } (.enqueue true) =
      some { s with
        pool := { s.pool with queued := [⟨s.sequence, item⟩] }
        inFlight := s.inFlight + 1
        submitted := s.submitted ++ [item]
        sequence := s.sequence + 1
        phase := .ready } := by
    simp [step, enqueued, hadd, Pool.submit, h.queued]
  rw [handOver, Machine.run_cons_of_step _ _ henqueue]
  simp [Machine.run, step, Pool.start, Pool.complete, h.running, hworkers, hopen, hlength, handed, h.queued]

/-- An item is accepted while there are credits. -/
theorem run_inOrder_append (h : s.InOrder items) (hroom : items.length < s.parallelism)
    (hlt : s.sequence + 1 < wordSize) (item : ι) :
    Machine.run (step K) s (.submit item :: handOver) = some (s.handed item) := by
  have hfull : ¬ s.inFlight = s.parallelism := by
    rw [h.inFlight]
    omega
  have hsend := send_eq (K := K) rfl (fun _ => hlt) item
  rw [if_neg hfull] at hsend
  have hsubmit : step K s (.submit item) = some { s with phase := .enqueueing ⟨s.sequence, item⟩ } :=
    (step_submit h.ready item).trans (congrArg some hsend)
  rw [Machine.run_cons_of_step _ _ hsubmit]
  exact run_handOver h hroom hlt item

/-- The oldest item was received and committed. -/
def shifted (K : Committer ι β) (s : WritePipeline ι β) (first : ι) : WritePipeline ι β :=
  { s with
    pool := { s.pool with output := s.pool.output.tail }
    inFlight := s.inFlight - 1
    target := (K.commit s.target first).1
    committed := s.committed ++ [first]
    nextSequence := s.nextSequence + 1 }

theorem InOrder.shifted {first : ι} (h : s.InOrder (first :: items)) : (s.shifted K first).InOrder items where
  ready := h.ready
  isOpen := h.isOpen
  queued := h.queued
  running := h.running
  output := by
    simp [WritePipeline.shifted, h.output]
  pending := h.pending
  next := by
    simp [WritePipeline.shifted, h.next]
  sequence := by
    have := h.sequence
    rw [List.length_cons] at this
    simp only [WritePipeline.shifted, List.length_append, List.length_singleton]
    omega
  submitted := by
    simp [WritePipeline.shifted, h.submitted]
  inFlight := by
    simp [WritePipeline.shifted, h.inFlight]
  workers := h.workers
  capacity := h.capacity

theorem completeOne_alone (hpending : s.pending = ∅) (hin : s.inFlight ≠ 0) (item : ι) :
    completeOne K s (.ok ⟨s.nextSequence, item⟩) =
      match (K.commit s.target item).2 with
      | .error e => ({ s with
          inFlight := s.inFlight - 1
          target := (K.commit s.target item).1
          committed := s.committed ++ [item] }, .error e)
      | .ok () =>
          match checkedAdd s.nextSequence 1 with
          | none => ({ s with
              inFlight := s.inFlight - 1
              target := (K.commit s.target item).1
              committed := s.committed ++ [item] }, .error K.overflowed)
          | some nextSequence => ({ s with
              inFlight := s.inFlight - 1
              target := (K.commit s.target item).1
              committed := s.committed ++ [item]
              nextSequence }, .ok ()) := by
  have herase : ((∅ : AList fun _ : ℕ => ι).insert s.nextSequence item).erase s.nextSequence = ∅ :=
    AList.ext (List.kerase_cons_eq rfl)
  have hkeys : ((∅ : AList fun _ : ℕ => ι).insert s.nextSequence item).keys.length = 1 := by
    simp
  simp only [completeOne, hin, hpending, if_false, AList.lookup_empty, Option.isSome_none, Bool.false_eq_true, hkeys,
    CommitState.commitReady, AList.lookup_insert, herase]
  cases (K.commit s.target item).2 with
  | error e => rfl
  | ok u => cases checkedAdd s.nextSequence 1 <;> rfl

section received

variable {first : ι} {message : Message ι}

theorem recv_inOrder (h : s.InOrder (first :: items)) :
    s.pool.recv = some (.ok ⟨s.nextSequence, first⟩, { s.pool with output := s.pool.output.tail }) := by
  simp [Pool.recv, h.output, h.next]

theorem receive_inOrder (h : s.InOrder (first :: items)) (hlt : s.sequence + 1 < wordSize)
    (hok : (K.commit s.target first).2 = .ok ()) :
    step K { s with phase := .crediting message } .receive =
      some { s.shifted K first with phase := .enqueueing message } := by
  have hin : s.inFlight ≠ 0 := by
    rw [h.inFlight]
    simp
  have hadd : checkedAdd s.nextSequence 1 = some (s.nextSequence + 1) := by
    have hseq := h.sequence
    have hnext := h.next
    exact checkedAdd_eq_some.mpr ⟨by omega, rfl⟩
  have hone := completeOne_alone (K := K) (s := { s with
    phase := .crediting message, pool := { s.pool with output := s.pool.output.tail } }) h.pending hin first
  simp only [hok, hadd] at hone
  simp only [step, wantsResult, if_true, recv_inOrder h, hone]
  rfl

theorem receive_refused (h : s.InOrder (first :: items)) {e : CacheError}
    (herror : (K.commit s.target first).2 = .error e) :
    ∃ t, step K { s with phase := .crediting message } .receive = some t ∧ t.phase = .failed ∧
      t.errors = s.errors ++ [e] := by
  have hin : s.inFlight ≠ 0 := by
    rw [h.inFlight]
    simp
  have hone := completeOne_alone (K := K) (s := { s with
    phase := .crediting message, pool := { s.pool with output := s.pool.output.tail } }) h.pending hin first
  simp only [herror] at hone
  simp only [step, wantsResult, if_true, recv_inOrder h, hone]
  exact ⟨_, rfl, rfl, rfl⟩

theorem submit_inOrder (h : s.InOrder (first :: items)) (hfull : (first :: items).length = s.parallelism)
    (hlt : s.sequence + 1 < wordSize) (item : ι) :
    step K s (.submit item) = some { s with phase := .crediting ⟨s.sequence, item⟩ } := by
  have hsend := send_eq (K := K) rfl (fun _ => hlt) item
  rw [if_pos (h.inFlight.trans hfull)] at hsend
  exact (step_submit h.ready item).trans (congrArg some hsend)

theorem run_inOrder_shift (h : s.InOrder (first :: items)) (hfull : (first :: items).length = s.parallelism)
    (hlt : s.sequence + 1 < wordSize) (hok : (K.commit s.target first).2 = .ok ()) (item : ι) :
    Machine.run (step K) s (.submit item :: .receive :: handOver) = some ((s.shifted K first).handed item) := by
  rw [Machine.run_cons_of_step _ _ (submit_inOrder h hfull hlt item),
    Machine.run_cons_of_step _ _ (receive_inOrder h hlt hok)]
  refine run_handOver h.shifted ?_ hlt item
  rw [List.length_cons] at hfull
  show items.length < s.parallelism
  omega

theorem run_inOrder_refused (h : s.InOrder (first :: items)) (hfull : (first :: items).length = s.parallelism)
    (hlt : s.sequence + 1 < wordSize) {e : CacheError} (herror : (K.commit s.target first).2 = .error e) (item : ι) :
    ∃ t, Machine.run (step K) s [.submit item, .receive] = some t ∧ t.phase = .failed ∧ t.errors = s.errors ++ [e] := by
  have hrefused : ∃ t, step K { s with phase := .crediting ⟨s.sequence, item⟩ } .receive = some t ∧ t.phase = .failed ∧
      t.errors = s.errors ++ [e] := receive_refused h herror
  obtain ⟨t, hreceive, hphase, herrors⟩ := hrefused
  refine ⟨t, ?_, hphase, herrors⟩
  rw [Machine.run_cons_of_step _ _ (submit_inOrder h hfull hlt item), Machine.run_cons_of_step _ _ hreceive,
    Machine.run_nil]

end received

end WritePipeline

end DatasetRt
