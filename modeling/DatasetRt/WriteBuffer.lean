import DatasetRt.WriteOrder

/-! # What a write pipeline buffers

A credit comes back when a result is received, not when it is committed, so `inFlight` bounds the
jobs and the results and nothing bounds `pending`: while one job does not come back, every later one
is received, parked in `pending` and replaced (`Stalled`, `stalled_next`).  Only a window of one
rules this out (`buffer_bounded_iff`). -/

namespace DatasetRt

/-- The number of jobs and results of an operation. -/
def Pool.size {J R : Type} (p : Pool J R) : ℕ := p.queued.length + p.running.length + p.output.length

/-- How many items can be numbered. -/
def Committer.numbers {ι β : Type} (K : Committer ι β) : ℕ := if K.checksFirst then wordSize - 1 else wordSize

namespace WritePipeline

variable {ι β : Type} {K : Committer ι β} {s s' : WritePipeline ι β}

/-- The items that were accepted and are not committed. -/
def buffered (s : WritePipeline ι β) : ℕ := s.pool.size + s.pending.keys.length

/-! ### How the buffer changes -/

theorem size_start {J R : Type} {p p' : Pool J R} {enter : J → J} (h : p.start enter = some p') :
    p'.size = p.size := by
  obtain ⟨job, rest, hq, -, rfl⟩ := Pool.start_eq_some h
  simp only [Pool.size, hq, List.length_append, List.length_cons, List.length_nil]
  omega

theorem size_complete {J R : Type} {p p' : Pool J R} {result : J → R} {i : ℕ}
    (h : p.complete result i = some p') : p'.size ≤ p.size := by
  obtain ⟨job, hjob, ⟨-, -, rfl⟩ | ⟨-, rfl⟩⟩ := Pool.complete_eq_some h
  · have hlen : (p.running.eraseIdx i).length + 1 = p.running.length := by
      obtain ⟨hi, -⟩ := List.getElem?_eq_some_iff.mp hjob
      rw [List.length_eraseIdx_of_lt hi]
      omega
    simp only [Pool.size, List.length_append, List.length_singleton]
    omega
  · have hlen := List.length_eraseIdx_le p.running i
    simp only [Pool.size]
    omega

theorem size_close {J R : Type} (p : Pool J R) : p.close.size ≤ p.size := by
  simp only [Pool.size, Pool.close, List.length_nil]
  omega

theorem pending_commitReady (K : Committer ι β) : ∀ (fuel : ℕ) (c : CommitState ι β),
    (c.commitReady K fuel).1.pending.keys.length ≤ c.pending.keys.length
  | 0, c => le_refl _
  | fuel + 1, c => by
      have herase : (c.pending.erase c.nextSequence).keys.length ≤ c.pending.keys.length := by
        rw [AList.keys_erase]
        exact List.length_erase_le
      unfold CommitState.commitReady
      split
      · exact le_refl _
      · simp only
        split
        · exact herase
        · split
          · exact herase
          · exact (pending_commitReady K fuel _).trans herase

theorem pending_insert_le (pending : AList fun _ : ℕ => ι) (k : ℕ) (item : ι) :
    (pending.insert k item).keys.length ≤ pending.keys.length + 1 := by
  rw [AList.keys_insert, List.length_cons]
  exact Nat.succ_le_succ List.length_erase_le

theorem buffered_raise (s : WritePipeline ι β) (error : CacheError) : (s.raise K error).buffered ≤ s.buffered := by
  have hclose := size_close s.pool
  unfold raise buffered
  cases s.phase <;> simp only [abandon] <;> omega

/-- A received result is parked or committed. -/
theorem buffered_completeOne (s : WritePipeline ι β) (result : CacheResult (Message ι)) :
    (completeOne K s result).1.buffered ≤ s.buffered + 1 ∧ (completeOne K s result).1.pool = s.pool := by
  cases result with
  | error error => exact ⟨Nat.le_succ _, rfl⟩
  | ok message =>
      have hinsert := pending_insert_le s.pending message.sequence message.item
      simp only [completeOne]
      split_ifs
      · exact ⟨Nat.le_succ _, rfl⟩
      · refine ⟨?_, rfl⟩
        simp only [buffered]
        omega
      · have hready := pending_commitReady K (s.pending.insert message.sequence message.item).keys.length
          { s.toCommitState with pending := s.pending.insert message.sequence message.item }
        refine ⟨?_, rfl⟩
        simp only [buffered] at hready ⊢
        omega

theorem buffered_abandon (s : WritePipeline ι β) (phase : WritePhase ι) :
    (abandon K s phase).buffered ≤ s.buffered := by
  have hclose := size_close s.pool
  simp only [abandon, buffered]
  omega

theorem buffered_send (s : WritePipeline ι β) (item : ι) : (s.send K item).buffered ≤ s.buffered := by
  unfold send
  split_ifs
  · exact buffered_raise s _
  · exact le_refl _
  · exact le_refl _

theorem buffered_enqueued (s : WritePipeline ι β) (message : Message ι) :
    (s.enqueued K message).buffered ≤ s.buffered + 1 := by
  have hsize : (s.pool.submit message).size = s.pool.size + 1 := by
    simp only [Pool.size, Pool.submit, List.length_append, List.length_singleton]
    omega
  unfold enqueued
  cases checkedAdd s.sequence 1 with
  | some sequence =>
      simp only [buffered, hsize]
      omega
  | none =>
      refine (buffered_raise _ _).trans ?_
      simp only [buffered, hsize]
      omega

theorem buffered_recv {r : CacheResult (Message ι)} {pool : Pool (Message ι) (CacheResult (Message ι))}
    (hrecv : s.pool.recv = some (r, pool)) : ({ s with pool } : WritePipeline ι β).buffered + 1 = s.buffered := by
  obtain ⟨rest, hout, rfl⟩ := Pool.recv_eq_some hrecv
  simp only [buffered, Pool.size, hout, List.length_cons]
  omega

theorem buffered_close (s : WritePipeline ι β) : (s.close K).buffered ≤ s.buffered := by
  have hclose := size_close s.pool
  unfold close
  split_ifs
  · exact buffered_raise s _
  · cases hf : (K.finish s.target).2 with
    | error error =>
        simp only [hf]
        exact buffered_raise _ _
    | ok done =>
        simp only [hf, buffered]
        omega

/-- **The buffer grows by enqueueing only**, one item at a time. -/
theorem buffered_step {a : WriteAct ι} (hs : s.step K a = some s') :
    s'.buffered ≤ s.buffered ∨
      (∃ message, a = .enqueue true ∧ s.phase = .enqueueing message) ∧ s'.buffered ≤ s.buffered + 1 := by
  cases moves_of_step hs with
  | send item _ => exact .inl (buffered_send s item)
  | @enqueued message hphase => exact .inr ⟨⟨message, rfl, hphase⟩, buffered_enqueued s message⟩
  | refused _ => exact .inl (buffered_raise s _)
  | @received result pool t _ hrecv hone =>
      left
      have hpop := buffered_recv hrecv
      have hparked := (buffered_completeOne (K := K) { s with pool } result).1
      rw [hone] at hparked
      exact hparked.trans hpop.le
  | @broken result pool t error _ hrecv hone =>
      left
      have hpop := buffered_recv hrecv
      have hparked := (buffered_completeOne (K := K) { s with pool } result).1
      rw [hone] at hparked
      exact (buffered_raise t error).trans (hparked.trans hpop.le)
  | interrupted error _ _ => exact .inl (buffered_raise s error)
  | finish _ => exact .inl (le_refl _)
  | finishIncomplete _ => exact .inl (le_refl _)
  | closed _ _ => exact .inl (buffered_close s)
  | drained _ _ => exact .inl (buffered_abandon s _)
  | dropped _ => exact .inl (buffered_abandon s _)
  | start hpool =>
      left
      have hsize := size_start hpool
      simp only [buffered]
      omega
  | complete hpool =>
      left
      have hsize := size_complete hpool
      simp only [buffered]
      omega

/-! ### Bounds -/

theorem Ledger.size_eq (h : s.Ledger) : s.pool.size = s.inFlight := by
  obtain ⟨ids, hout, hlen, -⟩ := h.tally
  rw [← hlen, hout.length_eq, Pool.size]

theorem Ledger.buffered_eq (h : s.Ledger) : s.buffered + s.committed.length = s.submitted.length := by
  obtain ⟨ids, -, hlen, ht⟩ := h.tally
  have hcount := ht.window.length_eq
  have hle := ht.committed.length_le
  rw [List.length_append, hlen, ← h.size_eq] at hcount
  unfold buffered
  omega

/-- An item is on its way into the pool. -/
def sending : WritePhase ι → Bool
  | .crediting _ => true
  | .enqueueing _ => true
  | _ => false

/-- The next number is a `u64`, and a pipeline that looks ahead sends an item only if there is one after
its number. -/
structure Numbered (K : Committer ι β) (s : WritePipeline ι β) : Prop where
  sequence_lt : s.sequence < wordSize
  succ_lt : K.checksFirst = true → sending s.phase = true → s.sequence + 1 < wordSize

theorem numbered_raise (h : s.sequence < wordSize) (error : CacheError) : Numbered K (s.raise K error) := by
  unfold raise
  cases s.phase <;> exact ⟨h, fun _ hsending => nomatch hsending⟩

theorem completeOne_frame (s : WritePipeline ι β) (result : CacheResult (Message ι)) :
    (completeOne K s result).1.sequence = s.sequence ∧ (completeOne K s result).1.phase = s.phase := by
  cases result with
  | error error => exact ⟨rfl, rfl⟩
  | ok message =>
      simp only [completeOne]
      split_ifs <;> exact ⟨rfl, rfl⟩

theorem numbered_send (h : s.sequence < wordSize) (item : ι) : Numbered K (s.send K item) := by
  unfold send
  split_ifs with hover hfull
  · exact numbered_raise h _
  all_goals
    refine ⟨h, fun hfirst _ => ?_⟩
    cases hadd : checkedAdd s.sequence 1 with
    | none => exact absurd ⟨hfirst, hadd⟩ hover
    | some next => exact (checkedAdd_eq_some.mp hadd).1

theorem numbered_enqueued (h : s.sequence < wordSize) (message : Message ι) : Numbered K (s.enqueued K message) := by
  unfold enqueued
  cases hadd : checkedAdd s.sequence 1 with
  | none =>
      refine numbered_raise ?_ _
      exact h
  | some next =>
      obtain ⟨hlt, rfl⟩ := checkedAdd_eq_some.mp hadd
      exact ⟨hlt, fun _ hsending => by cases hsending⟩

theorem numbered_close (h : s.sequence < wordSize) : Numbered K (s.close K) := by
  unfold close
  split_ifs
  · exact numbered_raise h _
  · cases hf : (K.finish s.target).2 with
    | error error =>
        simp only [hf]
        refine numbered_raise ?_ _
        exact h
    | ok done =>
        simp only [hf]
        exact ⟨h, fun _ hsending => by cases hsending⟩

theorem numbered_step {a : WriteAct ι} (h : Numbered K s) (hs : s.step K a = some s') : Numbered K s' := by
  have hquiet : ∀ t : WritePipeline ι β, t.sequence = s.sequence → sending t.phase = false → Numbered K t :=
    fun t hseq hphase => ⟨hseq ▸ h.sequence_lt, fun _ hsending => by rw [hphase] at hsending; cases hsending⟩
  cases moves_of_step hs with
  | send item _ => exact numbered_send h.sequence_lt item
  | @enqueued message _ => exact numbered_enqueued h.sequence_lt message
  | refused _ => exact numbered_raise h.sequence_lt _
  | @received result pool t _ _ hone =>
      obtain ⟨hseq, hphase⟩ := completeOne_frame (K := K) { s with pool } result
      rw [hone] at hseq hphase
      simp only at hseq hphase
      refine ⟨hseq ▸ h.sequence_lt, fun hfirst hsending => ?_⟩
      show t.sequence + 1 < wordSize
      rw [hseq]
      refine h.succ_lt hfirst ?_
      -- an item that waits for its credit was already on its way
      simp only [hphase] at hsending
      revert hsending
      cases s.phase <;> simp [credited, sending]
  | @broken result pool t error _ _ hone =>
      obtain ⟨hseq, -⟩ := completeOne_frame (K := K) { s with pool } result
      rw [hone] at hseq
      exact numbered_raise (hseq ▸ h.sequence_lt) _
  | interrupted error _ _ => exact numbered_raise h.sequence_lt error
  | finish _ => exact hquiet _ rfl rfl
  | finishIncomplete _ => exact hquiet _ rfl rfl
  | closed _ _ => exact numbered_close h.sequence_lt
  | drained _ _ => exact hquiet _ rfl rfl
  | dropped _ => exact hquiet _ rfl rfl
  | start _ => exact ⟨h.sequence_lt, h.succ_lt⟩
  | complete _ => exact ⟨h.sequence_lt, h.succ_lt⟩

/-- An item about to be enqueued has a credit and a number. -/
theorem Inv.enqueueing (h : s.Inv) {message : Message ι} (hp : s.phase = .enqueueing message) :
    s.Ledger ∧ s.nextSequence = s.committed.length ∧ s.sequence = s.submitted.length ∧
      s.inFlight < s.parallelism := by
  rcases h with ⟨hl, hclean, hphase⟩ | hc
  · simp only [PhaseOk, hp] at hphase
    exact ⟨hl, hclean hphase.1, hphase.2.1, hphase.2.2.2⟩
  · rcases hc.phase with hq | ⟨r, hq⟩ <;> simp [hp] at hq

section runs

variable {target : β} {prefetchSize numWorkers : Positive} {as : List (WriteAct ι)}

theorem buffered_le_numbers
    (hrun : Machine.run (step K) (new target prefetchSize numWorkers) as = some s) : s.buffered ≤ K.numbers := by
  refine (Machine.run_invariant (step K) (I := fun t => t.Inv ∧ Numbered K t ∧ t.buffered ≤ K.numbers) ?_
    ⟨inv_new, ⟨Nat.two_pow_pos 64, fun _ hsending => nomatch hsending⟩, Nat.zero_le _⟩ hrun).2.2
  rintro t a t' ⟨hinv, hnumbered, hle⟩ hs
  refine ⟨inv_step hinv hs, numbered_step hnumbered hs, ?_⟩
  rcases buffered_step hs with hdown | ⟨⟨message, -, hp⟩, hup⟩
  · exact hdown.trans hle
  · obtain ⟨hl, -, hseq, -⟩ := hinv.enqueueing hp
    have hcount := hl.buffered_eq
    have hlt := hnumbered.sequence_lt
    refine hup.trans ?_
    unfold Committer.numbers
    split_ifs with hfirst
    · have := hnumbered.succ_lt hfirst (by rw [hp]; rfl)
      omega
    · omega

theorem buffered_le_one (hone : min prefetchSize.1 numWorkers.1 = 1)
    (hrun : Machine.run (step K) (new target prefetchSize numWorkers) as = some s) : s.buffered ≤ 1 := by
  refine (Machine.run_invariant (step K) (I := fun t => t.Inv ∧ t.parallelism = 1 ∧ t.buffered ≤ 1) ?_
    ⟨inv_new, hone, Nat.zero_le _⟩ hrun).2.2
  rintro t a t' ⟨hinv, hpar, hle⟩ hs
  refine ⟨inv_step hinv hs, (step_parallelism hs).trans hpar, ?_⟩
  rcases buffered_step hs with hdown | ⟨⟨message, -, hp⟩, hup⟩
  · exact hdown.trans hle
  · obtain ⟨hl, hnext, -, hcredit⟩ := hinv.enqueueing hp
    have hzero : t.inFlight = 0 := by omega
    obtain ⟨hnil, -⟩ := hl.all_committed hnext hzero
    have hbuffered : t.buffered = 0 := by rw [buffered, hl.size_eq, hzero, hnil]; rfl
    omega

end runs

/-! ### One job that does not come back -/

/-- Number `0` is still running, so nothing of the `m` items is committed; the other jobs of the window
are running as well. -/
structure Stalled (m : ℕ) (s : WritePipeline ι β) : Prop where
  inv : s.Inv
  queued : s.pool.queued = []
  output : s.pool.output = []
  running : s.pool.running.length = s.inFlight
  head : ∀ job, s.pool.running.head? = some job → job.sequence = 0
  sequence : s.sequence = m
  next : s.nextSequence = 0
  workers : s.parallelism ≤ s.pool.workers
  capacity : 0 < s.pool.capacity
  inFlight : 0 < m → 0 < s.inFlight

theorem Inv.ready (h : s.Inv) (hp : s.phase = .ready) :
    s.Ledger ∧ s.nextSequence = s.committed.length ∧ s.sequence = s.submitted.length := by
  rcases h with ⟨hl, hclean, hphase⟩ | hc
  · simp only [PhaseOk, hp] at hphase
    exact ⟨hl, hclean hphase.1, hphase.2⟩
  · rcases hc.phase with hq | ⟨r, hq⟩ <;> simp [hp] at hq

theorem Stalled.buffered_eq {m : ℕ} (h : s.Stalled m) {message : Message ι} (hp : s.phase = .enqueueing message) :
    s.buffered = m := by
  obtain ⟨hl, hnext, hseq, -⟩ := h.inv.enqueueing hp
  have hcount := hl.buffered_eq
  rw [← hnext, h.next, Nat.add_zero, ← hseq, h.sequence] at hcount
  exact hcount

theorem Ledger.running_nodup (h : s.Ledger) :
    (s.pool.running.map Message.sequence ++ s.pending.keys).Nodup := by
  obtain ⟨ids, ⟨outs, -, hperm⟩, -, ht⟩ := h.tally
  have hall := ((hperm.append_right s.pending.keys).nodup_iff.mp ht.window.nodup)
  rw [List.append_assoc, List.append_assoc] at hall
  have hrunning := List.Nodup.of_append_right hall
  exact hrunning.sublist ((List.sublist_append_right outs s.pending.keys).append_left _)

theorem send_eq {m : ℕ} (hseq : s.sequence = m) (hlt : K.checksFirst = true → m + 1 < wordSize) (item : ι) :
    s.send K item =
      if s.inFlight = s.parallelism then { s with phase := .crediting ⟨m, item⟩ }
      else { s with phase := .enqueueing ⟨m, item⟩ } := by
  have hroom : ¬ (K.checksFirst = true ∧ checkedAdd s.sequence 1 = none) := by
    rintro ⟨hfirst, hnone⟩
    rw [hseq, checkedAdd, if_pos (hlt hfirst)] at hnone
    cases hnone
  rw [send, if_neg hroom, hseq]

theorem step_submit (hp : s.phase = .ready) (item : ι) : s.step K (.submit item) = some (s.send K item) := by
  simp only [step, hp]

/-- A result that is not the next one is received for its credit and parked. -/
theorem run_park {m : ℕ} (parked : Message ι) (hp : s.phase = .ready) (hseq : s.sequence = m)
    (hlt : K.checksFirst = true → m + 1 < wordSize) (hfull : s.inFlight = s.parallelism) (hpos : ¬ s.inFlight = 0)
    (hout : s.pool.output = [.ok parked]) (hnot : parked.sequence ∉ s.pending.keys)
    (hnext : s.nextSequence ≠ parked.sequence) (hfresh : s.nextSequence ∉ s.pending.keys) (item : ι) :
    Machine.run (step K) s [.submit item, .receive] =
      some { s with
        pool := { s.pool with output := [] }
        inFlight := s.inFlight - 1
        pending := s.pending.insert parked.sequence parked.item
        phase := .enqueueing ⟨m, item⟩ } := by
  have hsend := send_eq (K := K) hseq hlt item
  rw [if_pos hfull] at hsend
  have hlookup : s.pending.lookup parked.sequence = none := AList.lookup_eq_none.mpr hnot
  have hmissing : s.nextSequence ∉ (s.pending.insert parked.sequence parked.item).keys := by
    rw [AList.keys_insert, List.erase_of_not_mem hnot, List.mem_cons, not_or]
    exact ⟨hnext, hfresh⟩
  have hready := CommitState.commitReady_of_missing K
    (c := { s.toCommitState with pending := s.pending.insert parked.sequence parked.item })
    (s.pending.insert parked.sequence parked.item).keys.length hmissing
  rw [Machine.run_cons_of_step _ _ (step_submit hp item), hsend]
  simp only [Machine.run, step, wantsResult, if_true, Pool.recv, hout, completeOne, hpos, if_false, hlookup,
    Option.isSome_none, Bool.false_eq_true, hready, credited, Option.bind_some]

/-- The caller gets a credit for the next item without number `0` coming back. -/
theorem stalled_send {m : ℕ} (h : s.Stalled m) (hp : s.phase = .ready) (hpar : 2 ≤ s.parallelism)
    (hlt : K.checksFirst = true → m + 1 < wordSize) (item : ι) :
    ∃ as t, Machine.run (step K) s as = some t ∧ t.Stalled m ∧ t.phase = .enqueueing ⟨m, item⟩ ∧
      t.parallelism = s.parallelism := by
  obtain ⟨hl, -, -⟩ := h.inv.ready hp
  by_cases hfull : s.inFlight = s.parallelism
  · -- the second job completes, and its result is parked
    have hrunning := h.running
    obtain ⟨first, second, rest, hlist⟩ : ∃ first second rest, s.pool.running = first :: second :: rest := by
      match hr : s.pool.running with
      | [] => rw [hr, List.length_nil] at hrunning; omega
      | [first] => rw [hr, List.length_singleton] at hrunning; omega
      | first :: second :: rest => exact ⟨first, second, rest, rfl⟩
    have hfirst : first.sequence = 0 := h.head first (by rw [hlist]; rfl)
    have hnodup := hl.running_nodup
    rw [hlist, List.map_cons, List.map_cons, List.cons_append, List.cons_append, List.nodup_cons,
      List.nodup_cons] at hnodup
    have hsecond : second.sequence ≠ 0 := fun hzero => hnodup.1 (by rw [hfirst, hzero]; exact List.mem_cons_self)
    have hnot : second.sequence ∉ s.pending.keys := fun hmem => hnodup.2.1 (List.mem_append_right _ hmem)
    have hcomplete : s.step K (.complete 1) =
        some { s with pool := { s.pool with running := first :: rest, output := [.ok second] } } := by
      have hopen := hl.isOpen
      have hcapacity := h.capacity
      simp [step, Pool.complete, hlist, hopen, h.output, hcapacity]
    have hpark := run_park (K := K) (m := m) second
      (s := { s with pool := { s.pool with running := first :: rest, output := [.ok second] } })
      hp h.sequence hlt hfull (by show ¬ s.inFlight = 0; omega) rfl hnot
      (fun heq => hsecond (heq.symm.trans h.next)) hl.fresh item
    refine ⟨[.complete 1, .submit item, .receive],
      { s with
        pool := { s.pool with running := first :: rest, output := [] }
        inFlight := s.inFlight - 1
        pending := s.pending.insert second.sequence second.item
        phase := .enqueueing ⟨m, item⟩ }, ?_, ?_, rfl, rfl⟩
    · rw [Machine.run_cons_of_step _ _ hcomplete]
      exact hpark
    · have hinv := Machine.run_invariant (step K) (fun _ _ _ hi hs => inv_step hi hs) (inv_step h.inv hcomplete) hpark
      refine ⟨hinv, h.queued, rfl, ?_, ?_, h.sequence, h.next, h.workers, h.capacity, fun _ => ?_⟩
      · rw [hlist, List.length_cons, List.length_cons] at hrunning
        simp only [List.length_cons]
        omega
      · intro job hjob
        obtain rfl : first = job := by simpa using hjob
        exact hfirst
      · show 0 < s.inFlight - 1
        omega
  · have hsend := send_eq (K := K) h.sequence hlt item
    rw [if_neg hfull] at hsend
    have hstep : s.step K (.submit item) = some { s with phase := .enqueueing ⟨m, item⟩ } :=
      (step_submit hp item).trans (congrArg some hsend)
    refine ⟨[.submit item], { s with phase := .enqueueing ⟨m, item⟩ }, ?_, ?_, rfl, rfl⟩
    · rw [Machine.run_cons_of_step _ _ hstep, Machine.run_nil]
    · exact { h with inv := inv_step h.inv hstep }

/-- One more item is buffered, and if there are numbers left the next one can follow. -/
theorem stalled_next {m : ℕ} (h : s.Stalled m) (hp : s.phase = .ready) (hpar : 2 ≤ s.parallelism)
    (hlt : K.checksFirst = true → m + 1 < wordSize) (item : ι) :
    (∃ as t, Machine.run (step K) s as = some t ∧ t.buffered = m + 1) ∧
    (m + 1 < wordSize → ∃ as t, Machine.run (step K) s as = some t ∧ t.Stalled (m + 1) ∧ t.phase = .ready ∧
      t.parallelism = s.parallelism) := by
  obtain ⟨as, t, hrun, ht, hphase, hpar'⟩ := stalled_send h hp hpar hlt item
  obtain ⟨-, -, -, hcredit⟩ := ht.inv.enqueueing hphase
  have hstep : t.step K (.enqueue true) = some (t.enqueued K ⟨m, item⟩) := by
    simp only [step, hphase, if_true]
  have hsubmitted : (t.pool.submit ⟨m, item⟩).size = t.pool.size + 1 := by
    simp only [Pool.size, Pool.submit, List.length_append, List.length_singleton]
    omega
  have hbuffered := ht.buffered_eq hphase
  refine ⟨⟨as ++ [.enqueue true], t.enqueued K ⟨m, item⟩, ?_, ?_⟩, fun hroom => ?_⟩
  · refine Machine.run_append _ hrun ?_
    rw [Machine.run_cons_of_step _ _ hstep, Machine.run_nil]
  · unfold enqueued
    unfold buffered at hbuffered
    cases checkedAdd t.sequence 1 with
    | some sequence =>
        simp only [buffered, hsubmitted]
        omega
    | none =>
        simp only [raise, hphase, buffered, hsubmitted]
        omega
  · have hadd : checkedAdd t.sequence 1 = some (m + 1) := by
      rw [ht.sequence]
      exact checkedAdd_eq_some.mpr ⟨hroom, rfl⟩
    have hworker : t.pool.running.length < t.pool.workers := by
      have := ht.workers
      rw [ht.running]
      omega
    have hstart : step K (t.enqueued K ⟨m, item⟩) .start =
        some { t with
          pool := { t.pool with queued := [], running := t.pool.running ++ [⟨m, item⟩] }
          inFlight := t.inFlight + 1
          submitted := t.submitted ++ [item]
          sequence := m + 1
          phase := .ready } := by
      simp only [enqueued, hadd, step, Pool.start, Pool.submit, ht.queued, List.nil_append, hworker, if_true, id_eq]
    refine ⟨as ++ [.enqueue true, .start],
      { t with
        pool := { t.pool with queued := [], running := t.pool.running ++ [⟨m, item⟩] }
        inFlight := t.inFlight + 1
        submitted := t.submitted ++ [item]
        sequence := m + 1
        phase := .ready }, ?_, ?_, rfl, hpar'⟩
    · refine Machine.run_append _ hrun ?_
      rw [Machine.run_cons_of_step _ _ hstep, Machine.run_cons_of_step _ _ hstart, Machine.run_nil]
    · refine ⟨inv_step (inv_step ht.inv hstep) hstart, rfl, ht.output, ?_, ?_, rfl, ht.next, ht.workers,
        ht.capacity, fun _ => Nat.succ_pos _⟩
      · simp only [List.length_append, List.length_singleton, ht.running]
      · intro job hjob
        cases hr : t.pool.running with
        | nil =>
            have hzero : ¬ 0 < m := fun hm => by
              have := ht.inFlight hm
              rw [← ht.running, hr] at this
              exact absurd this (by simp)
            simp only [hr, List.nil_append, List.head?_cons, Option.some.injEq] at hjob
            subst hjob
            exact Nat.eq_zero_of_not_pos hzero
        | cons first rest =>
            simp only [hr, List.cons_append, List.head?_cons, Option.some.injEq] at hjob
            exact ht.head job (by rw [hr, hjob]; rfl)

section runs

variable (K) (target : β) (prefetchSize numWorkers : Positive) (item : ι)

theorem stalled_new (hpar : 2 ≤ min prefetchSize.1 numWorkers.1) :
    (new target prefetchSize numWorkers : WritePipeline ι β).Stalled 0 where
  inv := inv_new
  queued := rfl
  output := rfl
  running := rfl
  head := fun _ hjob => nomatch hjob
  sequence := rfl
  next := rfl
  workers := Nat.min_le_right _ _
  capacity := Nat.lt_of_lt_of_le Nat.two_pos hpar
  inFlight := fun h => absurd h (lt_irrefl _)

include item in
/-- Any number of items can be buffered behind the first one. -/
theorem reaches_stalled (hpar : 2 ≤ min prefetchSize.1 numWorkers.1) : ∀ m, m < wordSize →
    ∃ as t, Machine.run (step K) (new target prefetchSize numWorkers) as = some t ∧ t.Stalled m ∧
      t.phase = .ready ∧ t.parallelism = min prefetchSize.1 numWorkers.1
  | 0, _ => ⟨[], new target prefetchSize numWorkers, rfl, stalled_new target prefetchSize numWorkers hpar, rfl, rfl⟩
  | m + 1, hm => by
      obtain ⟨as, t, hrun, ht, hp, hpar'⟩ := reaches_stalled hpar m (by omega)
      obtain ⟨-, hnext⟩ := stalled_next (K := K) ht hp (by omega) (fun _ => hm) item
      obtain ⟨as', t', hrun', ht', hp', hpar''⟩ := hnext hm
      exact ⟨as ++ as', t', Machine.run_append _ hrun hrun', ht', hp', hpar''.trans hpar'⟩

include item in
/-- **The buffer is bounded by the configured window** exactly with a window of one, or with a
`prefetchSize` that the item numbers cannot exceed. -/
theorem buffer_bounded_iff :
    (∀ as s, Machine.run (step K) (new target prefetchSize numWorkers) as = some s →
      s.buffered ≤ prefetchSize.1) ↔
    (min prefetchSize.1 numWorkers.1 = 1 ∨ K.numbers ≤ prefetchSize.1) := by
  constructor
  · intro hbounded
    by_contra hcon
    rw [not_or, Nat.not_le] at hcon
    have hpos : 0 < min prefetchSize.1 numWorkers.1 := lt_min prefetchSize.2 numWorkers.2
    have hpar : 2 ≤ min prefetchSize.1 numWorkers.1 := by omega
    have hnumbers : K.numbers ≤ wordSize := by
      unfold Committer.numbers
      split_ifs
      · exact Nat.sub_le _ _
      · exact le_refl _
    have hfirst : K.checksFirst = true → prefetchSize.1 + 1 < wordSize := fun hfirst => by
      have hlt := hcon.2
      rw [Committer.numbers, if_pos hfirst] at hlt
      omega
    obtain ⟨as, t, hrun, ht, hp, hpar'⟩ := reaches_stalled K target prefetchSize numWorkers item hpar
      prefetchSize.1 (by omega)
    obtain ⟨⟨as', t', hrun', hover⟩, -⟩ := stalled_next (K := K) ht hp (by omega) hfirst item
    have := hbounded _ _ (Machine.run_append _ hrun hrun')
    omega
  · rintro (hone | hnumbers) as s hrun
    · exact (buffered_le_one hone hrun).trans prefetchSize.2
    · exact (buffered_le_numbers hrun).trans hnumbers

end runs

/-- Job `0` does not come back: with a window of two, three samples are buffered. -/
theorem buffer_grows : ∃ s,
    Machine.run (step recording) (new [] ⟨2, by decide⟩ ⟨2, by decide⟩)
      [.submit 10, .enqueue true, .start, .submit 11, .enqueue true, .start, .complete 1, .submit 12, .receive,
        .enqueue true] = some s ∧
    s.buffered = 3 := by
  have h : (Machine.run (step recording) (new [] ⟨2, by decide⟩ ⟨2, by decide⟩)
      [.submit 10, .enqueue true, .start, .submit 11, .enqueue true, .start, .complete 1, .submit 12, .receive,
        .enqueue true]).map buffered = some 3 := rfl
  exact Option.map_eq_some_iff.mp h

end WritePipeline

end DatasetRt
