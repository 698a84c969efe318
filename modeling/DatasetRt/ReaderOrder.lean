import DatasetRt.Reader

/-! # Ordered delivery under every interleaving

`Inv` is the invariant of the reader: the iterator is live (`Live`), or an error was returned
and it is exhausted, or it is gone.  While it is live the sequence numbers `emitted, …,
scheduled - 1` are exactly those of the jobs, results and waiting samples (`Live.ledger`), so
no number is lost, repeated or reordered whatever the workers do.

`ordered_under_every_schedule` collects the results; `progress` and `run_internal_le` say that a
`next()` call always comes to an end. -/

namespace DatasetRt

namespace Reader

variable {R : RandLib} {σ : Type}

section spec

variable (plan : EpochPlan R) (read : ℕ → ℕ → CacheResult σ)

/-- What number `k` of the plan delivers. -/
def outcome (k : ℕ) : CacheResult σ :=
  match plan.planned k with
  | some physicalIndex => read k physicalIndex
  | none => .error .workerFailed

/-- The first `n` planned samples, as `next()` returns them. -/
def delivered (n : ℕ) : List (Option (CacheResult σ)) :=
  (List.range n).map fun k => some (outcome plan read k)

/-- `result` is the message of planned number `k`. -/
def Delivers (result : CacheResult (LoadedResult σ)) (k : ℕ) : Prop :=
  result = (outcome plan read k).map (LoadedResult.mk k)

/-- The samples planned before number `n` were all read. -/
def ReadsOk (n : ℕ) : Prop := ∀ k < n, ∃ v, outcome plan read k = .ok v

/-- The state of an iterator that has neither failed nor been dropped. -/
structure Live (s : Reader R σ) : Prop where
  emitted_le : s.emitted ≤ s.scheduled
  scheduled_le : s.scheduled ≤ s.total
  window_le : s.scheduled - s.emitted ≤ s.parallelism
  plan_eq : s.plan = plan.after s.scheduled
  uncancelled : s.cancelled = false
  isOpen : s.pool.isOpen = true
  jobs : ∀ job ∈ s.pool.queued ++ s.pool.running,
    job.skipped = false ∧ plan.planned job.sequence = some job.physicalIndex
  ledger : ∃ ids, s.pool.Out ReadJob.sequence (Delivers plan read) ids ∧
    Window s.emitted (s.scheduled - s.emitted) (ids ++ s.pending.keys)
  pending : ∀ k v, s.pending.lookup k = some v → outcome plan read k = .ok v
  reads : ReadsOk plan read s.emitted
  returned : ∃ m, s.returned = delivered plan read s.emitted ++ List.replicate m none ∧
    (0 < m → s.emitted = s.total)
  calling : s.phase = .scheduling → s.emitted < s.total
  receiving : s.phase = .receiving → s.emitted < s.scheduled

/-- An error was returned after `n` samples: the iterator is exhausted.  Unless a submission
was refused, the error is that of a number in the window that was open then. -/
structure Failed (accepting : Prop) (n : ℕ) (e : CacheError) (s : Reader R σ) : Prop where
  phase : s.phase = .idle
  emitted : s.emitted = s.total
  reads : ReadsOk plan read n
  returned : ∃ m, s.returned = delivered plan read n ++ some (.error e) :: List.replicate m none
  cause : accepting → ∃ j, n ≤ j ∧ j < n + s.parallelism ∧ j < s.total ∧
    outcome plan read j = .error e

/-- What `next()` can have returned: a stretch of the plan, then at most one error, then
nothing but `None`.  Unless a submission was refused, the error is that of a number less than
`window` ahead. -/
inductive Shape (accepting : Prop) (window : ℕ) : List (Option (CacheResult σ)) → Prop
  | samples (n m : ℕ) : ReadsOk plan read n → n ≤ plan.len → (0 < m → n = plan.len) →
      Shape accepting window (delivered plan read n ++ List.replicate m none)
  | failed (n m : ℕ) (e : CacheError) : ReadsOk plan read n →
      (accepting → ∃ j, n ≤ j ∧ j < n + window ∧ j < plan.len ∧ outcome plan read j = .error e) →
      Shape accepting window (delivered plan read n ++ some (.error e) :: List.replicate m none)

/-- The consumer is in one of the phases of a live iterator. -/
def LivePhase (s : Reader R σ) : Prop :=
  s.phase = .starting ∨ s.phase = .idle ∨ s.phase = .scheduling ∨ s.phase = .receiving

/-- What no step changes: plan length, window size, channel capacity and worker count. -/
def dims (s : Reader R σ) : ℕ × ℕ × ℕ × ℕ :=
  (s.total, s.parallelism, s.pool.capacity, s.pool.workers)

/-- The window of an iterator over `plan`. -/
def parallelismOf (prefetchSize numWorkers : Positive) : ℕ :=
  min (min numWorkers.1 prefetchSize.1) plan.len

structure Inv (prefetchSize numWorkers : Positive) (accepting : Prop) (s : Reader R σ) : Prop where
  dims_eq : s.dims = (plan.len, parallelismOf plan prefetchSize numWorkers,
    parallelismOf plan prefetchSize numWorkers, numWorkers.1)
  state : (LivePhase s ∧ Live plan read s) ∨ (∃ n e, Failed plan read accepting n e s) ∨
    (s.phase = .closed ∧
      Shape plan read accepting (parallelismOf plan prefetchSize numWorkers) s.returned)

end spec

variable {plan : EpochPlan R} {read : ℕ → ℕ → CacheResult σ}

theorem delivered_succ {n : ℕ} {v : σ} (h : outcome plan read n = .ok v) :
    delivered plan read (n + 1) = delivered plan read n ++ [some (.ok v)] := by
  simp [delivered, List.range_succ, h]

theorem ReadsOk.succ {n : ℕ} {v : σ} (h : ReadsOk plan read n) (hv : outcome plan read n = .ok v) :
    ReadsOk plan read (n + 1) := by
  intro k hk
  rcases Nat.lt_succ_iff_lt_or_eq.mp hk with hk | rfl
  · exact h k hk
  · exact ⟨v, hv⟩

theorem outcome_of_planned {k p : ℕ} (h : plan.planned k = some p) :
    outcome plan read k = read k p := by
  simp [outcome, h]

namespace Live

variable {s : Reader R σ}

/-- A call is under way, so no `None` was returned yet. -/
theorem returned_of_lt (h : Live plan read s) (hlt : s.emitted < s.total) :
    s.returned = delivered plan read s.emitted := by
  obtain ⟨m, hr, hm⟩ := h.returned
  rcases Nat.eq_zero_or_pos m with rfl | hpos
  · simpa using hr
  · exact absurd (hm hpos) (by omega)

theorem shape (h : Live plan read s) (htotal : s.total = plan.len) (accepting : Prop) (window : ℕ) :
    Shape plan read accepting window s.returned := by
  obtain ⟨m, hr, hm⟩ := h.returned
  have := h.emitted_le
  have := h.scheduled_le
  rw [hr]
  exact .samples _ _ h.reads (by omega) fun hpos => htotal ▸ hm hpos

theorem wantsJob_eq (h : Live plan read s) : s.wantsJob =
    some (decide (s.scheduled - s.emitted < s.parallelism ∧ s.scheduled < s.total)) := by
  simp [wantsJob, h.emitted_le]

theorem length_eq (h : Live plan read s) : s.scheduled - s.emitted =
    s.pool.queued.length + s.pool.running.length + s.pool.output.length + s.pending.keys.length := by
  obtain ⟨ids, hout, hw⟩ := h.ledger
  rw [← hw.length_eq, List.length_append, hout.length_eq]

/-- The number of a result in the channel is in the window and is not waiting yet. -/
theorem head_fresh (h : Live plan read s) {r : CacheResult (LoadedResult σ)}
    {pool : Pool ReadJob (CacheResult (LoadedResult σ))} (hr : s.pool.recv = some (r, pool)) :
    ∃ k ids, Delivers plan read r k ∧ k ∉ s.pending.keys ∧ s.emitted ≤ k ∧ k < s.scheduled ∧
      pool.Out ReadJob.sequence (Delivers plan read) ids ∧
      Window s.emitted (s.scheduled - s.emitted) (k :: ids ++ s.pending.keys) := by
  obtain ⟨ids, hout, hw⟩ := h.ledger
  obtain ⟨k, ids', hk, hperm, hout'⟩ := hout.recv hr
  have hw' : Window s.emitted (s.scheduled - s.emitted) (k :: ids' ++ s.pending.keys) :=
    hw.perm (hperm.symm.append_right _)
  have hmem := hw'.mem_iff.mp (List.mem_append_left _ List.mem_cons_self)
  have hnot : k ∉ s.pending.keys := by
    have := hw'.nodup
    rw [List.cons_append, List.nodup_cons] at this
    exact fun hc => this.1 (List.mem_append_right _ hc)
  have := h.emitted_le
  exact ⟨k, ids', hk, hnot, hmem.1, by omega, hout', hw'⟩

/-- The pool can change in any way that keeps the ledger. -/
theorem with_pool (h : Live plan read s) {pool : Pool ReadJob (CacheResult (LoadedResult σ))}
    (hopen : pool.isOpen = true)
    (hjobs : ∀ job ∈ pool.queued ++ pool.running,
      job.skipped = false ∧ plan.planned job.sequence = some job.physicalIndex)
    (hledger : ∀ ids, s.pool.Out ReadJob.sequence (Delivers plan read) ids →
      pool.Out ReadJob.sequence (Delivers plan read) ids) :
    Live plan read { s with pool } := by
  obtain ⟨ids, hout, hw⟩ := h.ledger
  exact { h with isOpen := hopen, jobs := hjobs, ledger := ⟨ids, hledger ids hout, hw⟩ }

theorem delivers_of_running (h : Live plan read s) :
    ∀ job ∈ s.pool.running, Delivers plan read (jobResult read s.cancelled job) job.sequence := by
  intro job hjob
  obtain ⟨hskip, hplan⟩ := h.jobs job (List.mem_append_right _ hjob)
  unfold Delivers jobResult
  rw [outcome_of_planned hplan, hskip, h.uncancelled]
  cases read job.sequence job.physicalIndex <;> simp [Except.map]

theorem submitted (h : Live plan read s) {p : ℕ} (hp : plan.planned s.scheduled = some p)
    (hwin : s.scheduled - s.emitted < s.parallelism) (hlt : s.scheduled < s.total)
    (hphase : s.phase ≠ .receiving) :
    Live plan read { s with
      plan := (s.plan.nextPhysicalIndex s.scheduled).2
      pool := s.pool.submit ⟨s.scheduled, p, false⟩
      scheduled := s.scheduled + 1 } := by
  obtain ⟨ids, hout, hw⟩ := h.ledger
  have hle := h.emitted_le
  have hn : s.scheduled + 1 - s.emitted = s.scheduled - s.emitted + 1 := by omega
  have hpush := hw.push
  rw [show s.emitted + (s.scheduled - s.emitted) = s.scheduled by omega] at hpush
  refine { h with
    emitted_le := by show s.emitted ≤ s.scheduled + 1; omega
    scheduled_le := hlt
    window_le := by show s.scheduled + 1 - s.emitted ≤ s.parallelism; omega
    plan_eq := by rw [h.plan_eq]; rfl
    jobs := ?_
    ledger := ⟨s.scheduled :: ids, hout.submit ⟨s.scheduled, p, false⟩, by rw [hn]; exact hpush⟩
    receiving := fun hr => absurd hr hphase }
  intro job hjob
  simp only [Pool.submit, List.append_assoc, List.mem_append, List.mem_cons, List.not_mem_nil,
    or_false] at hjob
  rcases hjob with hjob | rfl | hjob
  · exact h.jobs job (List.mem_append_left _ hjob)
  · exact ⟨rfl, hp⟩
  · exact h.jobs job (List.mem_append_right _ hjob)

/-- The sample planned for `emitted` is returned; its number leaves the window. -/
theorem emitted_next (h : Live plan read s) (pool : Pool ReadJob (CacheResult (LoadedResult σ))) {v : σ}
    (hv : outcome plan read s.emitted = .ok v) (hlt : s.emitted < s.scheduled)
    {pending : AList fun _ : ℕ => σ} {ids : List ℕ} (hopen : pool.isOpen = true)
    (hjobs : ∀ job ∈ pool.queued ++ pool.running, job ∈ s.pool.queued ++ s.pool.running)
    (hout : pool.Out ReadJob.sequence (Delivers plan read) ids)
    (hw : Window s.emitted (s.scheduled - s.emitted) (s.emitted :: (ids ++ pending.keys)))
    (hpend : ∀ k w, pending.lookup k = some w → s.pending.lookup k = some w) :
    Live plan read ({ s with pool, pending }.emitSample v) := by
  have hle := h.scheduled_le
  have hpop := hw.pop
  rw [show s.scheduled - s.emitted - 1 = s.scheduled - (s.emitted + 1) by omega] at hpop
  exact { emitted_le := hlt
          scheduled_le := h.scheduled_le
          window_le := by have := h.window_le; simp only [emitSample]; omega
          plan_eq := h.plan_eq
          uncancelled := h.uncancelled
          isOpen := hopen
          jobs := fun job hjob => h.jobs job (hjobs job hjob)
          ledger := ⟨ids, hout, hpop⟩
          pending := fun k w hk => h.pending k w (hpend k w hk)
          reads := h.reads.succ hv
          returned := ⟨0, by
            simp only [emitSample, h.returned_of_lt (by omega)]
            rw [delivered_succ hv]; simp, by simp⟩
          calling := by simp [emitSample]
          receiving := by simp [emitSample] }

end Live

/-! ### What one step does to a live iterator -/

section steps

variable {accepting : Prop} {s s' : Reader R σ}

/-- A live iterator fails; the plan and the pool it leaves behind do not matter. -/
theorem failed_of_live (h : Live plan read s) (hlt : s.emitted < s.total) (e : CacheError)
    (plan' : EpochPlan R) (pool : Pool ReadJob (CacheResult (LoadedResult σ)))
    (hcause : accepting → ∃ j, s.emitted ≤ j ∧ j < s.emitted + s.parallelism ∧ j < s.total ∧
      outcome plan read j = .error e) :
    Failed plan read accepting s.emitted e ({ s with plan := plan', pool }.fail e) where
  phase := rfl
  emitted := rfl
  reads := h.reads
  returned := ⟨0, by simp [fail, h.returned_of_lt hlt]⟩
  cause := hcause

theorem live_start (h : Live plan read s) (hs : s.step read .start = some s') :
    Live plan read s' ∧ s'.phase = s.phase := by
  simp only [step] at hs
  cases hp : s.pool.start fun job => { job with skipped := s.cancelled } with
  | none => simp [hp] at hs
  | some pool =>
      simp only [hp, Option.some.injEq] at hs
      subst hs
      refine ⟨?_, rfl⟩
      obtain ⟨job, rest, hq, -, hpool⟩ := Pool.start_eq_some hp
      refine h.with_pool ?_ ?_ fun ids hout => hout.start (by simp) hp
      · rw [hpool]; exact h.isOpen
      · intro j hj
        rw [hpool] at hj
        simp only [List.mem_append, List.mem_cons, List.not_mem_nil, or_false] at hj
        have hold := h.jobs
        simp only [hq, List.mem_append, List.mem_cons] at hold
        rcases hj with hj | hj | rfl
        · exact hold j (.inl (.inr hj))
        · exact hold j (.inr hj)
        · exact ⟨h.uncancelled, (hold job (.inl (.inl rfl))).2⟩

theorem live_complete (h : Live plan read s) {i : ℕ} (hs : s.step read (.complete i) = some s') :
    Live plan read s' ∧ s'.phase = s.phase := by
  simp only [step] at hs
  cases hp : s.pool.complete (jobResult read s.cancelled) i with
  | none => simp [hp] at hs
  | some pool =>
      simp only [hp, Option.some.injEq] at hs
      subst hs
      refine ⟨?_, rfl⟩
      obtain ⟨job, hj, ⟨-, -, hpool⟩ | ⟨hcl, -⟩⟩ := Pool.complete_eq_some hp
      · refine h.with_pool ?_ ?_
          fun ids hout => hout.complete h.isOpen h.delivers_of_running hp
        · rw [hpool]; exact h.isOpen
        · intro j hj
          rw [hpool] at hj
          refine h.jobs j ?_
          rcases List.mem_append.mp hj with hj | hj
          · exact List.mem_append_left _ hj
          · exact List.mem_append_right _ (List.mem_of_mem_eraseIdx hj)
      · rw [h.isOpen] at hcl; cases hcl

theorem live_emit (h : Live plan read s) (hs : s.step read .emit = some s') :
    Live plan read s' ∧ s'.phase = .idle := by
  simp only [step] at hs
  split_ifs at hs with hphase
  cases hl : s.pending.lookup s.emitted with
  | none => simp [hl] at hs
  | some v =>
      simp only [hl, Option.some.injEq] at hs
      subst hs
      refine ⟨?_, rfl⟩
      obtain ⟨ids, hout, hw⟩ := h.ledger
      have hmem : s.emitted ∈ s.pending.keys := by
        rw [← AList.mem_keys, ← AList.lookup_isSome, hl]; rfl
      refine h.emitted_next s.pool (h.pending _ _ hl) (h.receiving hphase) h.isOpen
        (fun _ hj => hj) hout (hw.perm ?_) ?_
      · rw [AList.keys_erase]
        refine List.perm_middle.symm.trans ?_
        exact (List.perm_cons_erase hmem).symm.append_left _
      · intro k w hk
        by_cases hke : k = s.emitted
        · subst hke; simp at hk
        · rwa [AList.lookup_erase_ne hke] at hk

variable (accepting) in
theorem live_receive (h : Live plan read s) (hs : s.step read .receive = some s') :
    (Live plan read s' ∧ (s'.phase = .idle ∨ s'.phase = .receiving)) ∨
      ∃ e, Failed plan read accepting s.emitted e s' := by
  simp only [step] at hs
  split_ifs at hs with hphase
  cases hp : s.pool.recv with
  | none => simp [hp] at hs
  | some rp =>
      obtain ⟨r, pool⟩ := rp
      simp only [hp, Option.some.injEq] at hs
      subst hs
      obtain ⟨k, ids, hk, hnot, hge, hlt, hout, hw⟩ := h.head_fresh hp
      obtain ⟨rest, hq, hpool⟩ := Pool.recv_eq_some hp
      have hle := h.scheduled_le
      have hwin := h.window_le
      have hjobs : ∀ job ∈ pool.queued ++ pool.running, job ∈ s.pool.queued ++ s.pool.running := by
        rw [hpool]; exact fun _ hj => hj
      have hopen : pool.isOpen = true := by rw [hpool]; exact h.isOpen
      unfold Delivers at hk
      cases ho : outcome plan read k with
      | error e =>
          rw [ho] at hk
          subst hk
          exact .inr ⟨e, failed_of_live h (by omega) e s.plan pool
            fun _ => ⟨k, hge, by omega, by omega, ho⟩⟩
      | ok v =>
          left
          rw [ho] at hk
          subst hk
          simp only [Except.map, receiveResult]
          by_cases hke : k = s.emitted
          · rw [if_pos hke]
            subst hke
            exact ⟨h.emitted_next _ ho hlt hopen hjobs hout (by simpa using hw) (fun _ _ hw => hw),
              .inl rfl⟩
          · have hnone : s.pending.lookup k = none := AList.lookup_eq_none.mpr hnot
            rw [if_neg hke, if_neg (by simp [hnone])]
            refine ⟨{ h with
              isOpen := hopen
              jobs := fun j hj => h.jobs j (hjobs j hj)
              ledger := ⟨ids, hout, hw.perm ?_⟩
              pending := ?_ }, .inr hphase.1⟩
            · simp only [AList.keys_insert, List.erase_of_not_mem hnot]
              exact List.perm_middle
            · intro j w hj
              by_cases hjk : j = k
              · subst hjk
                rw [AList.lookup_insert] at hj
                rw [ho, Option.some.inj hj]
              · rw [AList.lookup_insert_ne hjk] at hj
                exact h.pending j w hj

theorem step_schedule {accepted : Bool} (hs : s.step read (.schedule accepted) = some s') :
    (s.phase = .starting ∨ s.phase = .scheduling) ∧
      ((s.wantsJob = none ∧ s' = { s with phase := .overflowed }) ∨
        (s.wantsJob = some true ∧ s' = s.scheduleNext accepted)) := by
  simp only [step] at hs
  split_ifs at hs with hphase
  refine ⟨hphase, ?_⟩
  cases hw : s.wantsJob with
  | none => exact .inl ⟨rfl, by simpa [hw] using hs.symm⟩
  | some want =>
      cases want with
      | false => simp [hw] at hs
      | true => exact .inr ⟨rfl, by simpa [hw] using hs.symm⟩

/-- Scheduling stops with an error: `start` returns it, or `next()` does. -/
theorem refused_of_live (h : Live plan read s) (hlt : s.emitted < s.total) (hno : ¬ accepting)
    (plan' : EpochPlan R) {t : Reader R σ}
    (ht : t = { s with plan := plan' }.scheduleError .workerFailed) :
    (∃ n e, Failed plan read accepting n e t) ∨
      (t.phase = .closed ∧ t.returned = s.returned ∧ ¬ accepting) := by
  subst ht
  by_cases hst : s.phase = .starting
  · right; simp [scheduleError, hst, drop, hno]
  · left
    refine ⟨s.emitted, .workerFailed, ?_⟩
    simp only [scheduleError, hst, if_false]
    exact failed_of_live h hlt _ _ s.pool fun ha => absurd ha hno

theorem live_schedule (h : Live plan read s) (htotal : s.total = plan.len)
    (hplan : accepting → plan.Total) {accepted : Bool} (hacc : accepting → accepted = true)
    (hs : s.step read (.schedule accepted) = some s') :
    (Live plan read s' ∧ s'.phase = s.phase) ∨ (∃ n e, Failed plan read accepting n e s') ∨
      (s'.phase = .closed ∧ s'.returned = s.returned ∧ ¬ accepting) := by
  obtain ⟨hphase, ⟨hwant, -⟩ | ⟨hwant, rfl⟩⟩ := step_schedule hs
  · rw [h.wantsJob_eq] at hwant; cases hwant
  rw [h.wantsJob_eq] at hwant
  obtain ⟨hwin, hlt⟩ := of_decide_eq_true (Option.some.inj hwant)
  have hle := h.emitted_le
  have hpe : (s.plan.nextPhysicalIndex s.scheduled).1 = plan.planned s.scheduled := by
    rw [h.plan_eq]; rfl
  cases hp : plan.planned s.scheduled with
  | none =>
      have hno : ¬ accepting := fun ha => by
        have := hplan ha s.scheduled (by omega)
        simp [hp] at this
      exact .inr (refused_of_live h (by omega) hno (s.plan.nextPhysicalIndex s.scheduled).2
        (by simp [scheduleNext, hpe, hp]))
  | some p =>
      cases accepted with
      | true =>
          refine .inl ?_
          have e : s.scheduleNext true = { s with
              plan := (s.plan.nextPhysicalIndex s.scheduled).2
              pool := s.pool.submit ⟨s.scheduled, p, false⟩
              scheduled := s.scheduled + 1 } := by simp [scheduleNext, hpe, hp]
          rw [e]
          exact ⟨h.submitted hp hwin hlt (by rcases hphase with hp | hp <;> simp [hp]), rfl⟩
      | false =>
          have hno : ¬ accepting := fun ha => absurd (hacc ha) (by simp)
          exact .inr (refused_of_live h (by omega) hno (s.plan.nextPhysicalIndex s.scheduled).2
        (by simp [scheduleNext, hpe, hp]))

theorem live_scheduleDone (h : Live plan read s) (hpos : 0 < s.parallelism)
    (hs : s.step read .scheduleDone = some s') :
    Live plan read s' ∧ (s'.phase = .idle ∨ s'.phase = .receiving) := by
  simp only [step, h.wantsJob_eq] at hs
  by_cases hphase : s.phase = .starting ∨ s.phase = .scheduling
  swap
  · rw [if_neg hphase] at hs; cases hs
  rw [if_pos hphase] at hs
  split at hs
  · rename_i hwant
    have hstop := of_decide_eq_false (Option.some.inj hwant)
    obtain rfl := Option.some.inj hs
    by_cases hst : s.phase = .starting
    · rw [if_pos hst]
      exact ⟨{ h with calling := by simp, receiving := by simp }, .inl rfl⟩
    · have hcall := h.calling (hphase.resolve_left hst)
      rw [if_neg hst]
      refine ⟨{ h with calling := by simp, receiving := fun _ => ?_ }, .inr rfl⟩
      show s.emitted < s.scheduled
      omega
  · cases hs

theorem live_call (h : Live plan read s) (hs : s.step read .call = some s') :
    Live plan read s' ∧ (s'.phase = .idle ∨ s'.phase = .scheduling) := by
  simp only [step] at hs
  split_ifs at hs with hphase hdone
  · obtain rfl := Option.some.inj hs
    refine ⟨{ h with returned := ?_ }, .inl hphase⟩
    obtain ⟨m, hr, -⟩ := h.returned
    refine ⟨m + 1, ?_, fun _ => ?_⟩
    · simp only [hr, List.append_assoc, List.replicate_succ']
    · have := h.emitted_le
      have := h.scheduled_le
      show s.emitted = s.total
      omega
  · obtain rfl := Option.some.inj hs
    exact ⟨{ h with calling := fun _ => by show s.emitted < s.total; omega, receiving := by simp },
      .inr rfl⟩

/-- The workers do not touch what the consumer sees. -/
theorem step_worker {a : ReaderAct} (ha : a = .start ∨ ∃ i, a = .complete i)
    (hs : s.step read a = some s') : ∃ pool, s' = { s with pool } ∧ pool.capacity = s.pool.capacity := by
  rcases ha with rfl | ⟨i, rfl⟩
  · simp only [step] at hs
    cases hp : s.pool.start fun job => { job with skipped := s.cancelled } with
    | none => simp [hp] at hs
    | some pool =>
        obtain ⟨job, rest, -, -, hpool⟩ := Pool.start_eq_some hp
        exact ⟨pool, by simpa [hp] using hs.symm, by rw [hpool]⟩
  · simp only [step] at hs
    cases hp : s.pool.complete (jobResult read s.cancelled) i with
    | none => simp [hp] at hs
    | some pool =>
        obtain ⟨job, -, ⟨-, -, hpool⟩ | ⟨-, hpool⟩⟩ := Pool.complete_eq_some hp <;>
          exact ⟨pool, by simpa [hp] using hs.symm, by rw [hpool]⟩

theorem failed_step {n : ℕ} {e : CacheError} {a : ReaderAct} (h : Failed plan read accepting n e s)
    (hs : s.step read a = some s') :
    Failed plan read accepting n e s' ∨ (s'.phase = .closed ∧ s'.returned = s.returned) := by
  have hphase := h.phase
  cases a with
  | schedule accepted => simp [step, hphase] at hs
  | scheduleDone => simp [step, hphase] at hs
  | emit => simp [step, hphase] at hs
  | receive => simp [step, hphase] at hs
  | call =>
      simp only [step] at hs
      rw [if_pos hphase, if_pos h.emitted.ge] at hs
      obtain rfl := Option.some.inj hs
      obtain ⟨m, hr⟩ := h.returned
      refine .inl { h with returned := ⟨m + 1, ?_⟩ }
      simp [hr, List.replicate_succ']
  | start =>
      obtain ⟨pool, rfl, -⟩ := step_worker (.inl rfl) hs
      exact .inl { h with }
  | complete i =>
      obtain ⟨pool, rfl, -⟩ := step_worker (.inr ⟨i, rfl⟩) hs
      exact .inl { h with }
  | drop =>
      simp only [step, hphase, if_true, Option.some.injEq] at hs
      subst hs
      exact .inr ⟨rfl, rfl⟩

theorem closed_step {a : ReaderAct} (hphase : s.phase = .closed) (hs : s.step read a = some s') :
    s'.phase = .closed ∧ s'.returned = s.returned := by
  cases a with
  | start =>
      obtain ⟨pool, rfl, -⟩ := step_worker (.inl rfl) hs
      exact ⟨hphase, rfl⟩
  | complete i =>
      obtain ⟨pool, rfl, -⟩ := step_worker (.inr ⟨i, rfl⟩) hs
      exact ⟨hphase, rfl⟩
  | _ => simp [step, hphase] at hs

theorem Failed.shape {n : ℕ} {e : CacheError} (h : Failed plan read accepting n e s)
    (htotal : s.total = plan.len) : Shape plan read accepting s.parallelism s.returned := by
  obtain ⟨m, hr⟩ := h.returned
  rw [hr]
  exact .failed _ _ _ h.reads (htotal ▸ h.cause)

/-- A live iterator after one step: still live, or failed, or gone. -/
theorem live_step {a : ReaderAct} (h : Live plan read s) (hlive : LivePhase s)
    (htotal : s.total = plan.len) (hpos : 0 < s.parallelism) (hplan : accepting → plan.Total)
    (hacc : accepting → a ≠ .schedule false) (hs : s.step read a = some s') :
    (LivePhase s' ∧ Live plan read s') ∨ (∃ n e, Failed plan read accepting n e s') ∨
      (s'.phase = .closed ∧ s'.returned = s.returned ∧ (accepting → a = .drop)) := by
  cases a with
  | schedule accepted =>
      have hacc' : accepting → accepted = true := fun ha => by
        cases accepted
        · exact absurd rfl (hacc ha)
        · rfl
      rcases live_schedule h htotal hplan hacc' hs with ⟨hl, hp⟩ | hf | ⟨hc, hr, hno⟩
      · exact .inl ⟨by unfold LivePhase at hlive ⊢; rw [hp]; exact hlive, hl⟩
      · exact .inr (.inl hf)
      · exact .inr (.inr ⟨hc, hr, fun ha => absurd ha hno⟩)
  | scheduleDone =>
      obtain ⟨hl, hp⟩ := live_scheduleDone h hpos hs
      exact .inl ⟨by rcases hp with hp | hp <;> simp [LivePhase, hp], hl⟩
  | call =>
      obtain ⟨hl, hp⟩ := live_call h hs
      exact .inl ⟨by rcases hp with hp | hp <;> simp [LivePhase, hp], hl⟩
  | emit =>
      obtain ⟨hl, hp⟩ := live_emit h hs
      exact .inl ⟨by simp [LivePhase, hp], hl⟩
  | receive =>
      rcases live_receive accepting h hs with ⟨hl, hp⟩ | ⟨e, hf⟩
      · exact .inl ⟨by rcases hp with hp | hp <;> simp [LivePhase, hp], hl⟩
      · exact .inr (.inl ⟨_, e, hf⟩)
  | start =>
      obtain ⟨hl, hp⟩ := live_start h hs
      exact .inl ⟨by unfold LivePhase at hlive ⊢; rw [hp]; exact hlive, hl⟩
  | complete i =>
      obtain ⟨hl, hp⟩ := live_complete h hs
      exact .inl ⟨by unfold LivePhase at hlive ⊢; rw [hp]; exact hlive, hl⟩
  | drop =>
      simp only [step] at hs
      split_ifs at hs
      obtain rfl := Option.some.inj hs
      exact .inr (.inr ⟨rfl, rfl, fun _ => rfl⟩)

theorem dims_scheduleError (e : CacheError) : (s.scheduleError e).dims = s.dims := by
  unfold scheduleError
  split_ifs <;> rfl

theorem dims_scheduleNext (accepted : Bool) : (s.scheduleNext accepted).dims = s.dims := by
  cases hn : (s.plan.nextPhysicalIndex s.scheduled).1 with
  | none => simp only [scheduleNext, hn, dims_scheduleError]; rfl
  | some p =>
      cases accepted with
      | false => simp only [scheduleNext, hn, Bool.false_eq_true, if_false, dims_scheduleError]; rfl
      | true => simp only [scheduleNext, hn, if_true]; rfl

theorem dims_receiveResult (r : CacheResult (LoadedResult σ)) : (s.receiveResult r).dims = s.dims := by
  cases r with
  | error e => rfl
  | ok loaded =>
      unfold receiveResult
      simp only
      split_ifs <;> rfl

theorem step_dims {a : ReaderAct} (hs : s.step read a = some s') : s'.dims = s.dims := by
  cases a with
  | schedule accepted =>
      obtain ⟨-, ⟨-, rfl⟩ | ⟨-, rfl⟩⟩ := step_schedule hs
      · rfl
      · exact dims_scheduleNext accepted
  | scheduleDone =>
      simp only [step] at hs
      split_ifs at hs <;> split at hs <;> cases hs <;> rfl
  | call =>
      simp only [step] at hs
      split_ifs at hs <;> cases hs <;> rfl
  | emit =>
      simp only [step] at hs
      split_ifs at hs
      split at hs <;> cases hs
      rfl
  | receive =>
      simp only [step] at hs
      split_ifs at hs
      split at hs
      · rename_i r pool hr
        obtain ⟨rest, -, rfl⟩ := Pool.recv_eq_some hr
        obtain rfl := Option.some.inj hs
        exact dims_receiveResult r
      · cases hs
  | start =>
      simp only [step] at hs
      split at hs
      · rename_i pool hp
        obtain ⟨job, rest, -, -, rfl⟩ := Pool.start_eq_some hp
        obtain rfl := Option.some.inj hs
        rfl
      · cases hs
  | complete i =>
      simp only [step] at hs
      split at hs
      · rename_i pool hp
        obtain rfl := Option.some.inj hs
        obtain ⟨job, -, ⟨-, -, rfl⟩ | ⟨-, rfl⟩⟩ := Pool.complete_eq_some hp <;> rfl
      · cases hs
  | drop =>
      simp only [step] at hs
      split_ifs at hs
      cases hs
      rfl

end steps

/-! ### Whole runs -/

namespace Inv

variable {prefetchSize numWorkers : Positive} {accepting : Prop} {s : Reader R σ}

theorem total_eq (h : Inv plan read prefetchSize numWorkers accepting s) : s.total = plan.len :=
  congrArg Prod.fst h.dims_eq

theorem parallelism_eq (h : Inv plan read prefetchSize numWorkers accepting s) :
    s.parallelism = parallelismOf plan prefetchSize numWorkers := congrArg (·.2.1) h.dims_eq

theorem capacity_eq (h : Inv plan read prefetchSize numWorkers accepting s) :
    s.pool.capacity = parallelismOf plan prefetchSize numWorkers := congrArg (·.2.2.1) h.dims_eq

theorem workers_eq (h : Inv plan read prefetchSize numWorkers accepting s) :
    s.pool.workers = numWorkers.1 := congrArg (·.2.2.2) h.dims_eq

end Inv

section runs

variable {prefetchSize numWorkers : Positive} {accepting : Prop} {s s' : Reader R σ}

theorem parallelismOf_pos (hlen : 1 ≤ plan.len) : 0 < parallelismOf plan prefetchSize numWorkers := by
  have := prefetchSize.2
  have := numWorkers.2
  simp only [parallelismOf]
  omega

theorem inv_begin : Inv plan read prefetchSize numWorkers accepting
    (begin plan prefetchSize numWorkers : Reader R σ) where
  dims_eq := rfl
  state := .inl ⟨.inl rfl,
    { emitted_le := le_refl _
      scheduled_le := Nat.zero_le _
      window_le := Nat.zero_le _
      plan_eq := rfl
      uncancelled := rfl
      isOpen := rfl
      jobs := by simp [begin, Pool.new]
      ledger := ⟨[], Pool.out_new _ _, Window.nil 0⟩
      pending := by simp [begin]
      reads := by simp [ReadsOk, begin]
      returned := ⟨0, by simp [begin, delivered], by simp⟩
      calling := by simp [begin]
      receiving := by simp [begin] }⟩

/-- **One step preserves the invariant.** -/
theorem inv_step {a : ReaderAct} (hlen : 1 ≤ plan.len) (hplan : accepting → plan.Total)
    (h : Inv plan read prefetchSize numWorkers accepting s) (hacc : accepting → a ≠ .schedule false)
    (hs : s.step read a = some s') : Inv plan read prefetchSize numWorkers accepting s' := by
  have htotal := h.total_eq
  have hpar := h.parallelism_eq
  refine ⟨(step_dims hs).trans h.dims_eq, ?_⟩
  rcases h.state with ⟨hphase, hl⟩ | ⟨n, e, hf⟩ | ⟨hphase, hshape⟩
  · have hpos : 0 < s.parallelism := hpar ▸ parallelismOf_pos hlen
    rcases live_step hl hphase htotal hpos hplan hacc hs with hl' | hf | ⟨hc, hr, -⟩
    · exact .inl hl'
    · exact .inr (.inl hf)
    · exact .inr (.inr ⟨hc, hr ▸ hl.shape htotal _ _⟩)
  · rcases failed_step hf hs with hf' | ⟨hc, hr⟩
    · exact .inr (.inl ⟨n, e, hf'⟩)
    · exact .inr (.inr ⟨hc, by rw [hr, ← hpar]; exact hf.shape htotal⟩)
  · obtain ⟨hc, hr⟩ := closed_step hphase hs
    exact .inr (.inr ⟨hc, hr ▸ hshape⟩)

/-- **Every run preserves it**; the accepting version is for runs whose submissions are all
accepted. -/
theorem inv_run (hlen : 1 ≤ plan.len) (hplan : accepting → plan.Total) {as : List ReaderAct}
    (hacc : accepting → ∀ a ∈ as, a ≠ .schedule false)
    (hrun : Machine.run (step read) (begin plan prefetchSize numWorkers) as = some s) :
    Inv plan read prefetchSize numWorkers accepting s := by
  have hguard : Machine.Guarded (step read) (fun _ a => accepting → a ≠ .schedule false)
      (begin plan prefetchSize numWorkers) as :=
    Machine.guarded_of_forall _ _ fun _ a ha h => hacc h a ha
  exact Machine.run_invariant_of_guarded (step read)
    (fun _ _ _ hi hok hs => inv_step hlen hplan hi hok hs) inv_begin hguard hrun

/-! ### A call comes to an end -/

/-- The steps a `next()` call waits for; `call` and `drop` are the caller's. -/
def isInternal : ReaderAct → Bool
  | .schedule accepted => accepted
  | .call => false
  | .drop => false
  | _ => true

/-- Each sample passes through the queue, a worker, the channel and at most `pending`. -/
def weight (s : Reader R σ) : ℕ :=
  5 * (s.total - s.scheduled) + 4 * s.pool.queued.length + 3 * s.pool.running.length +
    2 * s.pool.output.length + s.pending.keys.length +
    (if s.phase = .starting ∨ s.phase = .scheduling then 1 else 0)

/-- Inside `start` or `next()` some step is always possible. -/
theorem progress (h : Live plan read s) (hcap : 0 < s.pool.capacity) (hworkers : 0 < s.pool.workers)
    (hbusy : s.phase = .starting ∨ s.phase = .scheduling ∨ s.phase = .receiving) :
    ∃ a, isInternal a = true ∧ (s.step read a).isSome = true := by
  by_cases hsched : s.phase = .starting ∨ s.phase = .scheduling
  · cases hw : decide (s.scheduled - s.emitted < s.parallelism ∧ s.scheduled < s.total) with
    | true => exact ⟨.schedule true, rfl, by simp [step, hsched, h.wantsJob_eq, hw]⟩
    | false => exact ⟨.scheduleDone, rfl, by simp [step, hsched, h.wantsJob_eq, hw]⟩
  have hphase : s.phase = .receiving := by tauto
  cases hl : s.pending.lookup s.emitted with
  | some v => exact ⟨.emit, rfl, by simp [step, hphase, hl]⟩
  | none =>
      cases ho : s.pool.output with
      | cons r rest => exact ⟨.receive, rfl, by simp [step, hphase, hl, Pool.recv, ho]⟩
      | nil =>
          cases hr : s.pool.running with
          | cons job rest =>
              exact ⟨.complete 0, rfl, by simp [step, Pool.complete, hr, h.isOpen, ho, hcap]⟩
          | nil =>
              cases hq : s.pool.queued with
              | cons job rest => exact ⟨.start, rfl, by simp [step, Pool.start, hq, hr, hworkers]⟩
              | nil =>
                  -- Nothing is out, so the awaited number would have to wait in `pending`.
                  obtain ⟨ids, hout, hw⟩ := h.ledger
                  have hids : ids = [] := List.eq_nil_of_length_eq_zero (by
                    rw [hout.length_eq, ho, hr, hq]; rfl)
                  have hlt := h.receiving hphase
                  have hmem := (hw.mem_iff (k := s.emitted)).mpr ⟨le_refl _, by omega⟩
                  rw [hids, List.nil_append] at hmem
                  exact absurd hmem (AList.lookup_eq_none.mp hl)

theorem not_live_fail (e : CacheError) : ¬ Live plan read (s.fail e) :=
  fun h => by simpa [fail] using h.uncancelled

theorem not_live_scheduleError (e : CacheError) : ¬ Live plan read (s.scheduleError e) := by
  unfold scheduleError
  split_ifs
  · exact fun h => by simpa [drop] using h.uncancelled
  · exact not_live_fail e

theorem weight_receiveResult {r : CacheResult (LoadedResult σ)} (hphase : s.phase = .receiving)
    (hl : Live plan read (s.receiveResult r)) : (s.receiveResult r).weight ≤ s.weight + 1 := by
  cases r with
  | error e => exact absurd hl (not_live_fail e)
  | ok loaded =>
      simp only [receiveResult] at hl ⊢
      split_ifs at hl ⊢ with hseq hdup
      · simp [weight, emitSample, hphase]
      · exact absurd hl (not_live_fail _)
      · have hnot : loaded.sequence ∉ s.pending.keys := by
          rw [← AList.mem_keys, ← AList.lookup_isSome]; exact hdup
        simp only [weight, AList.keys_insert, List.erase_of_not_mem hnot, List.length_cons]
        omega

theorem weight_lt (h : Live plan read s) (hl : Live plan read s') {a : ReaderAct}
    (ha : isInternal a = true) (hs : s.step read a = some s') : s'.weight < s.weight := by
  cases a with
  | schedule accepted =>
      obtain rfl : accepted = true := ha
      obtain ⟨hphase, ⟨hwant, -⟩ | ⟨hwant, rfl⟩⟩ := step_schedule hs
      · rw [h.wantsJob_eq] at hwant; cases hwant
      rw [h.wantsJob_eq] at hwant
      obtain ⟨-, hlt⟩ := of_decide_eq_true (Option.some.inj hwant)
      cases hp : (s.plan.nextPhysicalIndex s.scheduled).1 with
      | none =>
          simp only [scheduleNext, hp] at hl
          exact absurd hl (not_live_scheduleError _)
      | some p =>
          simp only [scheduleNext, hp, if_true, weight, Pool.submit, List.length_append,
            List.length_cons, List.length_nil]
          omega
  | scheduleDone =>
      simp only [step] at hs
      by_cases hphase : s.phase = .starting ∨ s.phase = .scheduling
      · rw [if_pos hphase] at hs
        split at hs
        · obtain rfl := Option.some.inj hs
          simp only [weight, hphase, if_true]
          split_ifs <;> simp_all
        · cases hs
      · rw [if_neg hphase] at hs; cases hs
  | emit =>
      simp only [step] at hs
      split_ifs at hs with hphase
      split at hs
      · rename_i v hv
        obtain rfl := Option.some.inj hs
        have hmem : s.emitted ∈ s.pending.keys := AList.lookup_isSome.mp (by rw [hv]; rfl)
        have hlen := List.length_erase_of_mem hmem
        have hpos := List.length_pos_of_mem hmem
        simp only [weight, emitSample, hphase, AList.keys_erase, hlen]
        simp
        omega
      · cases hs
  | receive =>
      simp only [step] at hs
      split_ifs at hs with hphase
      split at hs
      · rename_i r pool hr
        obtain ⟨rest, ho, rfl⟩ := Pool.recv_eq_some hr
        obtain rfl := Option.some.inj hs
        refine lt_of_le_of_lt (weight_receiveResult hphase.1 hl) ?_
        simp only [weight, ho, List.length_cons]
        omega
      · cases hs
  | start =>
      simp only [step] at hs
      split at hs
      · rename_i pool hp
        obtain ⟨job, rest, hq, -, rfl⟩ := Pool.start_eq_some hp
        obtain rfl := Option.some.inj hs
        simp only [weight, hq, List.length_cons, List.length_append, List.length_nil]
        omega
      · cases hs
  | complete i =>
      simp only [step] at hs
      split at hs
      · rename_i pool hp
        obtain rfl := Option.some.inj hs
        obtain ⟨job, hj, hor⟩ := Pool.complete_eq_some hp
        obtain ⟨hi, -⟩ := List.getElem?_eq_some_iff.mp hj
        have hlen := List.length_eraseIdx_of_lt hi
        rcases hor with ⟨-, -, rfl⟩ | ⟨-, rfl⟩
        · simp only [weight, hlen, List.length_append, List.length_cons, List.length_nil]
          omega
        · simp only [weight, hlen]
          omega
      · cases hs
  | call => cases ha
  | drop => cases ha

/-- Where every read succeeds and every submission is accepted, no error comes up. -/
theorem Inv.live_or_closed (h : Inv plan read prefetchSize numWorkers True s)
    (hreads : ReadsOk plan read plan.len) :
    (LivePhase s ∧ Live plan read s) ∨ s.phase = .closed := by
  rcases h.state with hl | ⟨n, e, hf⟩ | hc
  · exact .inl hl
  · obtain ⟨j, -, -, hj, he⟩ := hf.cause trivial
    obtain ⟨v, hv⟩ := hreads j (lt_of_lt_of_eq hj h.total_eq)
    rw [hv] at he; cases he
  · exact .inr hc.1

/-- Only the caller ends an iterator whose submissions are accepted. -/
theorem internal_not_closed (hlen : 1 ≤ plan.len) (hplan : plan.Total)
    (h : Inv plan read prefetchSize numWorkers True s) (hlive : LivePhase s) (hl : Live plan read s)
    {a : ReaderAct} (ha : isInternal a = true) (hs : s.step read a = some s') :
    s'.phase ≠ .closed := by
  have hpos : 0 < s.parallelism := h.parallelism_eq ▸ parallelismOf_pos hlen
  intro hc
  rcases live_step hl hlive h.total_eq hpos (fun _ : True => hplan)
    (fun _ hbad => by rw [hbad] at ha; cases ha) hs with ⟨hp, -⟩ | ⟨n, e, hf⟩ | ⟨-, -, hd⟩
  · rcases hp with hp | hp | hp | hp <;> simp [hp] at hc
  · rw [hf.phase] at hc; cases hc
  · rw [hd trivial] at ha; cases ha

/-- The internal steps of a fault-free iterator are bounded by its weight. -/
theorem run_internal_le (hlen : 1 ≤ plan.len) (hplan : plan.Total) (hreads : ReadsOk plan read plan.len)
    (h : Inv plan read prefetchSize numWorkers True s) (hlive : LivePhase s) {as : List ReaderAct}
    (hint : ∀ a ∈ as, isInternal a = true) (hrun : Machine.run (step read) s as = some s') :
    as.length ≤ s.weight := by
  have hstep : ∀ (t : Reader R σ) a t',
      (Inv plan read prefetchSize numWorkers True t ∧ LivePhase t) → isInternal a = true →
      t.step read a = some t' →
      (Inv plan read prefetchSize numWorkers True t' ∧ LivePhase t') ∧ t'.weight < t.weight := by
    rintro t a t' ⟨hi, hphase⟩ ha hs
    have hi' : Inv plan read prefetchSize numWorkers True t' :=
      inv_step hlen (fun _ => hplan) hi (fun _ hc => by rw [hc] at ha; cases ha) hs
    obtain ⟨-, hl⟩ := (hi.live_or_closed hreads).resolve_right
      fun hc => by rcases hphase with h | h | h | h <;> simp [h] at hc
    have hne : t'.phase ≠ .closed := internal_not_closed hlen hplan hi hphase hl ha hs
    obtain ⟨hphase', hl'⟩ := (hi'.live_or_closed hreads).resolve_right hne
    exact ⟨⟨hi', hphase'⟩, weight_lt hl hl' ha hs⟩
  have := Machine.run_length_le (step read) weight hstep ⟨h, hlive⟩
    (Machine.guarded_of_forall _ s fun _ a ha => hint a ha) hrun
  omega

end runs

theorem Shape.eq_of_reads {window : ℕ} {returned : List (Option (CacheResult σ))}
    (h : Shape plan read True window returned) (hreads : ReadsOk plan read plan.len) :
    returned = (List.range returned.length).map fun k =>
      if k < plan.len then some (outcome plan read k) else none := by
  cases h with
  | failed n m e _ hcause =>
      obtain ⟨j, -, -, hj, he⟩ := hcause trivial
      obtain ⟨v, hv⟩ := hreads j hj
      rw [hv] at he; cases he
  | samples n m _ hle hm =>
      apply List.ext_getElem
      · simp
      · intro i h₁ h₂
        simp only [delivered, List.length_append, List.length_map, List.length_range,
          List.length_replicate] at h₁
        simp only [List.getElem_map, List.getElem_range]
        by_cases hi : i < n
        · rw [List.getElem_append_left (by simpa [delivered] using hi), if_pos (by omega)]
          simp [delivered]
        · rw [List.getElem_append_right (by simpa [delivered] using hi), List.getElem_replicate,
            if_neg (by have := hm (by omega); omega)]

theorem Inv.shape {prefetchSize numWorkers : Positive} {accepting : Prop} {s : Reader R σ}
    (h : Inv plan read prefetchSize numWorkers accepting s) :
    Shape plan read accepting (parallelismOf plan prefetchSize numWorkers) s.returned := by
  have hpar := h.parallelism_eq
  rcases h.state with ⟨-, hl⟩ | ⟨n, e, hf⟩ | ⟨-, hc⟩
  · exact hl.shape h.total_eq _ _
  · exact hpar ▸ hf.shape h.total_eq
  · exact hc

theorem Inv.live {prefetchSize numWorkers : Positive} {accepting : Prop} {s : Reader R σ}
    (h : Inv plan read prefetchSize numWorkers accepting s) (hopen : s.phase ≠ .closed)
    (hok : ∀ e, some (.error e) ∉ s.returned) : LivePhase s ∧ Live plan read s := by
  rcases h.state with hl | ⟨n, e, hf⟩ | ⟨hc, -⟩
  · exact hl
  · obtain ⟨m, hr⟩ := hf.returned
    exact absurd (by rw [hr]; simp) (hok e)
  · exact absurd hc hopen

theorem returned_of_reads {prefetchSize numWorkers : Positive} {s : Reader R σ} (hlen : 1 ≤ plan.len)
    (hplan : plan.Total) (hreads : ReadsOk plan read plan.len) {as : List ReaderAct}
    (hacc : ∀ a ∈ as, a ≠ .schedule false)
    (hrun : Machine.run (step read) (begin plan prefetchSize numWorkers) as = some s) :
    s.returned = (List.range s.returned.length).map fun k =>
      if k < plan.len then some (outcome plan read k) else none := by
  have hinv : Inv plan read prefetchSize numWorkers True s := inv_run hlen (fun _ => hplan) (fun _ => hacc) hrun
  exact hinv.shape.eq_of_reads hreads

/-- **Ordered reading.**  For every plan, window and schedule, in every state reached:
what was returned is a stretch of the plan, each number once, then at most one error, then
`None`; before an error and before the drop the window accounts for every scheduled number;
the subtraction `scheduled - emitted` never underflows and no number arrives twice.  Where
every read succeeds and the pool accepts every job, call number `k` returns the sample planned
for `k` while `k < total` and `None` from then on, and every call comes to an end. -/
theorem ordered_under_every_schedule (plan : EpochPlan R) (read : ℕ → ℕ → CacheResult σ)
    (prefetchSize numWorkers : Positive) (hlen : 1 ≤ plan.len) (as : List ReaderAct) (s : Reader R σ)
    (hrun : Machine.run (step read) (begin plan prefetchSize numWorkers) as = some s) :
    Shape plan read (plan.Total ∧ ∀ a ∈ as, a ≠ .schedule false)
      (min (min numWorkers.1 prefetchSize.1) plan.len) s.returned ∧
    s.phase ≠ .overflowed ∧
    (s.phase ≠ .closed → (∀ e, some (.error e) ∉ s.returned) →
      s.emitted ≤ s.scheduled ∧
      s.scheduled - s.emitted ≤ min (min numWorkers.1 prefetchSize.1) plan.len ∧
      s.scheduled - s.emitted = s.pool.queued.length + s.pool.running.length +
        s.pool.output.length + s.pending.keys.length) ∧
    (s.phase = .receiving → ∀ loaded pool, s.pool.recv = some (.ok loaded, pool) →
      s.pending.lookup loaded.sequence = none) ∧
    (plan.Total → ReadsOk plan read plan.len → (∀ a ∈ as, a ≠ .schedule false) →
      (s.returned = (List.range s.returned.length).map fun k =>
        if k < plan.len then some (outcome plan read k) else none) ∧
      (s.phase = .starting ∨ s.phase = .scheduling ∨ s.phase = .receiving →
        ∃ a, isInternal a = true ∧ (s.step read a).isSome = true) ∧
      (s.phase ≠ .closed → ∀ bs t, (∀ b ∈ bs, isInternal b = true) →
        Machine.run (step read) s bs = some t → bs.length ≤ s.weight)) := by
  have hinv : Inv plan read prefetchSize numWorkers (plan.Total ∧ ∀ a ∈ as, a ≠ .schedule false) s :=
    inv_run hlen And.left And.right hrun
  have hphase : s.phase ≠ .overflowed := by
    rcases hinv.state with ⟨hp, -⟩ | ⟨n, e, hf⟩ | ⟨hc, -⟩
    · rcases hp with hp | hp | hp | hp <;> simp [hp]
    · simp [hf.phase]
    · simp [hc]
  refine ⟨hinv.shape, hphase, ?_, ?_, ?_⟩
  · intro hopen hok
    obtain ⟨-, hl⟩ := hinv.live hopen hok
    exact ⟨hl.emitted_le, hl.window_le.trans_eq hinv.parallelism_eq, hl.length_eq⟩
  · intro hr loaded pool hrecv
    rcases hinv.state with ⟨-, hl⟩ | ⟨n, e, hf⟩ | ⟨hc, -⟩
    · obtain ⟨k, -, hk, hnot, -⟩ := hl.head_fresh hrecv
      unfold Delivers at hk
      cases ho : outcome plan read k with
      | error e => rw [ho] at hk; cases hk
      | ok v =>
          rw [ho] at hk
          cases hk
          exact AList.lookup_eq_none.mpr hnot
    · rw [hf.phase] at hr; cases hr
    · rw [hc] at hr; cases hr
  · intro hplan hreads hacc
    have hinv' : Inv plan read prefetchSize numWorkers True s :=
      inv_run hlen (fun _ => hplan) (fun _ => hacc) hrun
    refine ⟨returned_of_reads hlen hplan hreads hacc hrun, ?_, ?_⟩
    · intro hbusy
      rcases hinv'.live_or_closed hreads with ⟨-, hl⟩ | hc
      · exact progress hl (hinv'.capacity_eq ▸ parallelismOf_pos hlen)
          (hinv'.workers_eq ▸ numWorkers.2) hbusy
      · rcases hbusy with h | h | h <;> rw [h] at hc <;> cases hc
    · intro hopen bs t hint hbs
      rcases hinv'.live_or_closed hreads with ⟨hp, -⟩ | hc
      · exact run_internal_le hlen hplan hreads hinv' hp hint hbs
      · exact absurd hc hopen

/-- Two samples in their stored order. -/
def twoSamples : EpochPlan RandLib.first := .sequential 2 0 2 none

/-- The second read ends first; its sample waits for the first one. -/
def overtaking : List ReaderAct :=
  [.schedule true, .schedule true, .scheduleDone, .call, .scheduleDone, .start, .start, .complete 1,
    .complete 0, .receive, .receive, .call, .scheduleDone, .emit, .call]

theorem ordered_when_overtaken :
    ∃ s, Machine.run (step fun _ p => .ok p)
        (begin twoSamples ⟨2, by decide⟩ ⟨2, by decide⟩) overtaking = some s ∧
      s.returned = [some (.ok 0), some (.ok 1), none] ∧ s.phase ≠ .overflowed := by
  have h : (Machine.run (step fun _ p => .ok p) (begin twoSamples ⟨2, by decide⟩ ⟨2, by decide⟩)
      overtaking).map returned = some [some (.ok 0), some (.ok 1), none] := by rfl
  obtain ⟨s, hrun, hret⟩ := Option.map_eq_some_iff.mp h
  exact ⟨s, hrun, hret, (ordered_under_every_schedule twoSamples (fun _ p => .ok p) ⟨2, by decide⟩
    ⟨2, by decide⟩ (by decide) overtaking s hrun).2.1⟩

end Reader

end DatasetRt
