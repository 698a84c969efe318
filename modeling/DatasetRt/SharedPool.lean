import DatasetRt.PoolMoves

/-! # One pool, any number of operations

A `WorkerPool` is shared by everything a runtime does at the same time.  `SharedPool` is the pool with
its operations: the job queue, the jobs that the workers run (each named by its operation), and the
state of every operation.  A step is one step of one calling thread or of one worker.

* The queue is bounded (`queueCapacity`), so a calling thread that submits waits for space.
* A worker that ends a job waits until the channel of the job's operation has room.

These two waits could form a circle.  They do not: the jobs and results of an operation fit into its
channel as long as there is a receiver (`Inv.fits`), so no worker ever waits (`never_blocks`). -/

namespace DatasetRt

/-- What is called on a runtime, with its arguments. -/
inductive Operation : Type 1 where
  | iterator (R : RandLib) (σ : Type) (read : ℕ → ℕ → CacheResult σ) (plan : EpochPlan R) (prefetchSize : Positive)
  | getItem (σ : Type) (load : CacheResult σ)
  | loadCaches (γ : Type) (load : String → ℕ → CacheResult γ) (paths : List String)
  | writeSamples (ι β : Type) (pushSample : β → ι → β × CacheResult Unit) (finish : β → β × CacheResult Unit)
      (builder : β) (prefetchSize : Positive)
  | writeSourceList (ι β : Type) (commitEvent : β → ι → β × CacheResult Unit) (cleanupUnfinishedSource : β → β)
      (committer : β) (prefetchSize : Positive)

namespace Operation

def kind : Operation → OperationKind
  | .iterator R _ read _ _ => Reader.kind R read
  | .getItem _ load => GetItem.kind load
  | .loadCaches _ load _ => CacheLoad.kind load
  | .writeSamples _ _ pushSample finish _ _ => WritePipeline.kind (sampleWritePipeline pushSample finish)
  | .writeSourceList _ _ commitEvent cleanup _ _ => WritePipeline.kind (sourceListWritePipeline commitEvent cleanup)

def init (numWorkers : Positive) : (o : Operation) → o.kind.State
  | .iterator _ _ _ plan prefetchSize => Reader.begin plan prefetchSize numWorkers
  | .getItem _ _ => GetItem.new numWorkers
  | .loadCaches _ _ paths => CacheLoad.new paths numWorkers
  | .writeSamples _ _ _ _ builder prefetchSize => WritePipeline.new builder prefetchSize numWorkers
  | .writeSourceList _ _ _ _ committer prefetchSize => WritePipeline.new committer prefetchSize numWorkers

/-- **Every operation keeps its credits.** -/
theorem credited (numWorkers : Positive) (o : Operation) : Credited o.kind numWorkers (o.init numWorkers) := by
  cases o with
  | iterator R σ read plan prefetchSize => exact Reader.pool_credited plan read prefetchSize numWorkers
  | getItem σ load => exact GetItem.pool_credited load numWorkers
  | loadCaches γ load paths => exact CacheLoad.pool_credited load paths numWorkers
  | writeSamples ι β pushSample finish builder prefetchSize =>
      exact WritePipeline.pool_credited (sampleWritePipeline pushSample finish) builder prefetchSize numWorkers
  | writeSourceList ι β commitEvent cleanup committer prefetchSize =>
      exact WritePipeline.pool_credited (sourceListWritePipeline commitEvent cleanup) committer prefetchSize numWorkers

end Operation

/-- An operation that is under way, or over. -/
structure Ongoing where
  operation : Operation
  state : operation.kind.State

def Ongoing.view (x : Ongoing) : PoolView := x.operation.kind.view x.state

structure SharedPool where
  numWorkers : Positive
  /-- The operations of the queued jobs, oldest first. -/
  queue : List ℕ
  /-- The operations of the running jobs. -/
  running : List ℕ
  operations : List Ongoing

namespace SharedPool

def new (numWorkers : Positive) : SharedPool := { numWorkers, queue := [], running := [], operations := [] }

def queuedJobsPerWorker : ℕ := 4

def queueCapacity (s : SharedPool) : ℕ := s.numWorkers.1 * queuedJobsPerWorker

/-- The share of operation `i`. -/
def view (s : SharedPool) (i : ℕ) : PoolView :=
  match s.operations[i]? with
  | some x => x.view
  | none => PoolView.new s.numWorkers.1 0

inductive Step (s : SharedPool) : SharedPool → Prop
  /-- An operation is called; `bounded` refuses a channel without capacity. -/
  | call (o : Operation) : 0 < (o.kind.view (o.init s.numWorkers)).capacity →
      Step s { s with operations := s.operations ++ [⟨o, o.init s.numWorkers⟩] }
  /-- The calling thread of an operation moves; a job it submits needs space in the queue. -/
  | caller (i : ℕ) (o : Operation) (t t' : o.kind.State) (a : o.kind.Act) :
      s.operations[i]? = some ⟨o, t⟩ → o.kind.worker a = none → o.kind.step t a = some t' →
      ((o.kind.view t).queued < (o.kind.view t').queued → s.queue.length < s.queueCapacity) →
      Step s
        { s with
          queue := s.queue ++ List.replicate ((o.kind.view t').queued - (o.kind.view t).queued) i
          operations := s.operations.set i ⟨o, t'⟩ }
  /-- A free worker takes the oldest job. -/
  | start (i : ℕ) (rest : List ℕ) (o : Operation) (t t' : o.kind.State) (a : o.kind.Act) :
      s.queue = i :: rest → s.running.length < s.numWorkers.1 → s.operations[i]? = some ⟨o, t⟩ →
      o.kind.worker a = some .start → o.kind.step t a = some t' →
      Step s { s with queue := rest, running := s.running ++ [i], operations := s.operations.set i ⟨o, t'⟩ }
  /-- The `k`-th running job ends; it is the operation's job number `(s.running.take k).count i`. -/
  | complete (k i : ℕ) (o : Operation) (t t' : o.kind.State) (a : o.kind.Act) :
      s.running[k]? = some i → s.operations[i]? = some ⟨o, t⟩ →
      o.kind.worker a = some (.complete ((s.running.take k).count i)) → o.kind.step t a = some t' →
      Step s { s with running := s.running.eraseIdx k, operations := s.operations.set i ⟨o, t'⟩ }

/-! ### The credits of all operations -/

/-- What the steps of one operation keep. -/
def Kept (numWorkers : Positive) (x : Ongoing) : Prop :=
  ∃ as, Machine.run x.operation.kind.step (x.operation.init numWorkers) as = some x.state

variable {numWorkers : Positive} {x : Ongoing} {s s' : SharedPool}

theorem Kept.step (h : Kept numWorkers x) {a : x.operation.kind.Act} {t : x.operation.kind.State}
    (hs : x.operation.kind.step x.state a = some t) :
    Kept numWorkers ⟨x.operation, t⟩ ∧
      PoolView.Moves (x.operation.kind.worker a) x.view (Ongoing.view ⟨x.operation, t⟩) := by
  obtain ⟨as, hrun⟩ := h
  have hnext : Machine.run x.operation.kind.step x.state [a] = some t := by
    rw [Machine.run_cons_of_step _ _ hs, Machine.run_nil]
  refine ⟨⟨as ++ [a], Machine.run_append _ hrun hnext⟩, ?_⟩
  obtain ⟨Inv, hinit, hstep, -⟩ := (x.operation.credited numWorkers).invariant
  have hinv : Inv x.state := Machine.run_invariant _ (fun _ _ _ hi hs => (hstep _ _ _ hi hs).1) hinit hrun
  exact (hstep _ _ _ hinv hs).2

theorem Kept.workers (h : Kept numWorkers x) : x.view.workers = numWorkers.1 := by
  obtain ⟨as, hrun⟩ := h
  obtain ⟨Inv, hinit, hstep, -⟩ := (x.operation.credited numWorkers).invariant
  obtain ⟨capacity, hnew⟩ := (x.operation.credited numWorkers).new
  refine (Machine.run_invariant x.operation.kind.step
    (I := fun t => Inv t ∧ (x.operation.kind.view t).workers = numWorkers.1) ?_ ⟨hinit, by rw [hnew]; rfl⟩ hrun).2
  rintro t a t' ⟨hi, hw⟩ hs
  obtain ⟨hi', hmoves⟩ := hstep t a t' hi hs
  exact ⟨hi', hmoves.frame.1.trans hw⟩

/-- While there is a receiver, jobs and results fit into the channel. -/
theorem Kept.fits (h : Kept numWorkers x) (hopen : x.view.isOpen = true) : x.view.size ≤ x.view.capacity := by
  obtain ⟨as, hrun⟩ := h
  obtain ⟨Inv, hinit, hstep, hfits⟩ := (x.operation.credited numWorkers).invariant
  have hinv : Inv x.state := Machine.run_invariant _ (fun _ _ _ hi hs => (hstep _ _ _ hi hs).1) hinit hrun
  exact hfits x.state hinv hopen

/-- The queue and the workers hold exactly the jobs that the operations count. -/
structure Inv (s : SharedPool) : Prop where
  kept : ∀ x ∈ s.operations, Kept s.numWorkers x
  queued : ∀ i, s.queue.count i = (s.view i).queued
  running : ∀ i, s.running.count i = (s.view i).running
  running_le : s.running.length ≤ s.numWorkers.1
  queue_le : s.queue.length ≤ s.queueCapacity

theorem inv_new (numWorkers : Positive) : (new numWorkers).Inv where
  kept _ hx := absurd hx List.not_mem_nil
  queued _ := rfl
  running _ := rfl
  running_le := Nat.zero_le _
  queue_le := Nat.zero_le _

theorem view_of_getElem? {i : ℕ} (h : s.operations[i]? = some x) : s.view i = x.view := by
  simp only [view, h]

theorem view_set {queue running : List ℕ} {i : ℕ} (hi : i < s.operations.length) (y : Ongoing) (j : ℕ) :
    ({ s with queue, running, operations := s.operations.set i y } : SharedPool).view j =
      if j = i then y.view else s.view j := by
  by_cases hj : j = i
  · subst hj
    simp only [view, List.getElem?_set_self hi, if_true]
  · simp only [view, List.getElem?_set_ne (Ne.symm hj), if_neg hj]

theorem view_append {y : Ongoing} (hy : ∃ capacity, y.view = PoolView.new s.numWorkers.1 capacity) (j : ℕ) :
    (({ s with operations := s.operations ++ [y] } : SharedPool).view j).queued = (s.view j).queued ∧
      (({ s with operations := s.operations ++ [y] } : SharedPool).view j).running = (s.view j).running := by
  obtain ⟨capacity, hview⟩ := hy
  rcases Nat.lt_trichotomy j s.operations.length with hlt | rfl | hgt
  · simp only [view, List.getElem?_append_left hlt, and_self]
  · have hnone : s.operations[s.operations.length]? = none := List.getElem?_eq_none (le_refl _)
    simp only [view, List.getElem?_concat_length, hnone, hview, PoolView.new, and_self]
  · have hnone : s.operations[j]? = none := List.getElem?_eq_none hgt.le
    have hnone' : (s.operations ++ [y])[j]? = none := by
      refine List.getElem?_eq_none ?_
      rw [List.length_append, List.length_singleton]
      exact hgt
    simp only [view, hnone, hnone', and_self]

theorem Inv.kept_of_getElem? (h : s.Inv) {i : ℕ} (hx : s.operations[i]? = some x) : Kept s.numWorkers x :=
  h.kept x (List.mem_of_getElem? hx)

theorem kept_set (h : s.Inv) {i : ℕ} {y : Ongoing} (hy : Kept s.numWorkers y) :
    ∀ x ∈ s.operations.set i y, Kept s.numWorkers x := by
  intro x hx
  rcases List.mem_or_eq_of_mem_set hx with hx | rfl
  · exact h.kept x hx
  · exact hy

theorem inv_start (h : s.Inv) {i : ℕ} {rest : List ℕ} {y : Ongoing} (hqueue : s.queue = i :: rest)
    (hfree : s.running.length < s.numWorkers.1) (hi : i < s.operations.length) (hy : Kept s.numWorkers y)
    (hmoves : PoolView.Moves (some .start) (s.view i) y.view) :
    Inv { s with queue := rest, running := s.running ++ [i], operations := s.operations.set i y } where
  kept := kept_set h hy
  queued j := by
    have hcount := h.queued j
    rw [hqueue, List.count_cons] at hcount
    rw [view_set hi]
    by_cases hj : j = i
    · subst hj
      generalize y.view = v' at hmoves ⊢
      generalize s.view j = v at hmoves hcount
      cases hmoves with
      | start n hn hw =>
          simp only [beq_self_eq_true, if_true] at hcount ⊢
          omega
    · simpa [hj, Ne.symm hj] using hcount
  running j := by
    have hcount := h.running j
    rw [view_set hi, List.count_append, List.count_singleton]
    by_cases hj : j = i
    · subst hj
      generalize y.view = v' at hmoves ⊢
      generalize s.view j = v at hmoves hcount
      cases hmoves with
      | start n hn hw =>
          simp only [beq_self_eq_true, if_true]
          omega
    · simpa [hj, Ne.symm hj] using hcount
  running_le := by
    rw [List.length_append, List.length_singleton]
    exact hfree
  queue_le := by
    have hle := h.queue_le
    rw [hqueue, List.length_cons] at hle
    exact (Nat.le_succ _).trans hle

theorem inv_complete (h : s.Inv) {k n i : ℕ} {y : Ongoing} (hk : s.running[k]? = some i)
    (hi : i < s.operations.length) (hy : Kept s.numWorkers y)
    (hmoves : PoolView.Moves (some (.complete n)) (s.view i) y.view) :
    Inv { s with running := s.running.eraseIdx k, operations := s.operations.set i y } where
  kept := kept_set h hy
  queued j := by
    have hcount := h.queued j
    rw [view_set hi]
    by_cases hj : j = i
    · subst hj
      generalize y.view = v' at hmoves ⊢
      generalize s.view j = v at hmoves hcount
      cases hmoves <;> simpa using hcount
    · simpa [hj] using hcount
  running j := by
    have hcount := h.running j
    obtain ⟨hlt, rfl⟩ := List.getElem?_eq_some_iff.mp hk
    rw [← (List.getElem_cons_eraseIdx_perm hlt).count_eq, List.count_cons] at hcount
    rw [view_set hi]
    by_cases hj : j = s.running[k]
    · subst hj
      generalize y.view = v' at hmoves ⊢
      generalize s.view s.running[k] = v at hmoves hcount
      cases hmoves <;> simp only [beq_self_eq_true, if_true] at hcount ⊢ <;> omega
    · simpa [hj, Ne.symm hj] using hcount
  running_le := (List.length_eraseIdx_le _ _).trans h.running_le
  queue_le := h.queue_le

theorem inv_caller (h : s.Inv) {i : ℕ} {y : Ongoing} (hi : i < s.operations.length) (hy : Kept s.numWorkers y)
    (hmoves : PoolView.Moves none (s.view i) y.view)
    (hroom : (s.view i).queued < y.view.queued → s.queue.length < s.queueCapacity) :
    Inv { s with
      queue := s.queue ++ List.replicate (y.view.queued - (s.view i).queued) i
      operations := s.operations.set i y } where
  kept := kept_set h hy
  queued j := by
    have hcount := h.queued j
    rw [view_set hi, List.count_append, List.count_replicate]
    by_cases hj : j = i
    · subst hj
      generalize y.view = v' at hmoves ⊢
      generalize s.view j = v at hmoves hcount ⊢
      cases hmoves <;> simp only [beq_self_eq_true, if_true] <;> omega
    · simpa [hj, Ne.symm hj] using hcount
  running j := by
    have hcount := h.running j
    rw [view_set hi]
    by_cases hj : j = i
    · subst hj
      generalize y.view = v' at hmoves ⊢
      generalize s.view j = v at hmoves hcount
      cases hmoves <;> simpa using hcount
    · simpa [hj] using hcount
  running_le := h.running_le
  queue_le := by
    show (s.queue ++ List.replicate (y.view.queued - (s.view i).queued) i).length ≤ s.queueCapacity
    rw [List.length_append, List.length_replicate]
    have hle := h.queue_le
    generalize y.view = v' at hmoves hroom ⊢
    generalize s.view i = v at hmoves hroom ⊢
    cases hmoves with
    | keep => omega
    | submit =>
        have := hroom (Nat.lt_succ_self _)
        simp only
        omega
    | recv n hn =>
        simp only
        omega
    | close =>
        simp only
        omega

/-- **One step keeps the account.** -/
theorem inv_step (h : s.Inv) (hs : s.Step s') : s'.Inv := by
  cases hs with
  | call o hcapacity =>
      have hfresh : Kept s.numWorkers ⟨o, o.init s.numWorkers⟩ := ⟨[], rfl⟩
      obtain ⟨capacity, hnew⟩ := (o.credited s.numWorkers).new
      refine ⟨?_, fun j => ?_, fun j => ?_, h.running_le, h.queue_le⟩
      · intro x hx
        rcases List.mem_append.mp hx with hx | hx
        · exact h.kept x hx
        · obtain rfl := List.mem_singleton.mp hx
          exact hfresh
      · rw [(view_append (y := ⟨o, o.init s.numWorkers⟩) ⟨capacity, hnew⟩ j).1]
        exact h.queued j
      · rw [(view_append (y := ⟨o, o.init s.numWorkers⟩) ⟨capacity, hnew⟩ j).2]
        exact h.running j
  | caller i o t t' a hx hworker hstep hroom =>
      obtain ⟨hy, hmoves⟩ := (h.kept_of_getElem? hx).step hstep
      have hi : i < s.operations.length := (List.getElem?_eq_some_iff.mp hx).1
      have hview : o.kind.view t = s.view i := (view_of_getElem? hx).symm
      rw [hworker] at hmoves
      rw [hview] at hroom ⊢
      exact inv_caller h hi hy (view_of_getElem? hx ▸ hmoves) hroom
  | start i rest o t t' a hqueue hfree hx hworker hstep =>
      obtain ⟨hy, hmoves⟩ := (h.kept_of_getElem? hx).step hstep
      have hi : i < s.operations.length := (List.getElem?_eq_some_iff.mp hx).1
      rw [hworker] at hmoves
      exact inv_start h hqueue hfree hi hy (view_of_getElem? hx ▸ hmoves)
  | complete k i o t t' a hk hx hworker hstep =>
      obtain ⟨hy, hmoves⟩ := (h.kept_of_getElem? hx).step hstep
      have hi : i < s.operations.length := (List.getElem?_eq_some_iff.mp hx).1
      rw [hworker] at hmoves
      exact inv_complete h hk hi hy (view_of_getElem? hx ▸ hmoves)

theorem inv_reachable (h : Relation.ReflTransGen Step (new numWorkers) s) : s.Inv := by
  induction h with
  | refl => exact inv_new numWorkers
  | tail _ hs ih => exact inv_step ih hs

/-! ### No worker waits -/

/-- The `k`-th running job is done, and its worker waits in `send` for space in the channel. -/
def SendWaits (s : SharedPool) (k : ℕ) : Prop :=
  ∃ i x, s.running[k]? = some i ∧ s.operations[i]? = some x ∧ x.view.isOpen = true ∧
    x.view.capacity ≤ x.view.output

/-- The calling thread of operation `i` has a job to submit, and waits for space in the queue. -/
def SubmitWaits (s : SharedPool) (i : ℕ) : Prop :=
  ∃ (o : Operation) (t t' : o.kind.State) (a : o.kind.Act), s.operations[i]? = some ⟨o, t⟩ ∧
    o.kind.worker a = none ∧ o.kind.step t a = some t' ∧ (o.kind.view t).queued < (o.kind.view t').queued ∧
    s.queueCapacity ≤ s.queue.length

theorem count_take_lt {running : List ℕ} {k i : ℕ} (hk : running[k]? = some i) :
    (running.take k).count i < running.count i := by
  obtain ⟨hlt, hval⟩ := List.getElem?_eq_some_iff.mp hk
  have hsplit := congrArg (List.count i) (List.take_append_drop k running)
  rw [List.count_append, List.drop_eq_getElem_cons hlt, hval, List.count_cons_self] at hsplit
  omega

/-- A running job has an operation that counts it. -/
theorem Inv.of_running (h : s.Inv) {k i : ℕ} (hk : s.running[k]? = some i) :
    ∃ x, s.operations[i]? = some x ∧ (s.running.take k).count i < x.view.running := by
  have hcount := h.running i
  have hlt := count_take_lt hk
  cases hx : s.operations[i]? with
  | none =>
      rw [view, hx] at hcount
      simp only [PoolView.new] at hcount
      omega
  | some x =>
      rw [view_of_getElem? hx] at hcount
      exact ⟨x, rfl, by omega⟩

theorem Inv.room (h : s.Inv) {k i : ℕ} (hk : s.running[k]? = some i) (hx : s.operations[i]? = some x)
    (hopen : x.view.isOpen = true) : x.view.output < x.view.capacity := by
  have hfits := (h.kept_of_getElem? hx).fits hopen
  obtain ⟨y, hy, hlt⟩ := h.of_running hk
  obtain rfl := Option.some.inj (hx.symm.trans hy)
  simp only [PoolView.size] at hfits
  omega

theorem Inv.not_sendWaits (h : s.Inv) (k : ℕ) : ¬ s.SendWaits k := by
  rintro ⟨i, x, hk, hx, hopen, hfull⟩
  have := h.room hk hx hopen
  omega

/-- Every running job can end at once. -/
theorem Inv.completes (h : s.Inv) {k : ℕ} (hk : k < s.running.length) :
    ∃ s', s.Step s' ∧ s'.running = s.running.eraseIdx k ∧ s'.queue = s.queue := by
  have hjob := List.getElem?_eq_getElem hk
  obtain ⟨⟨o, t⟩, hx, hlt⟩ := h.of_running hjob
  obtain ⟨a, t', hworker, hstep⟩ := (o.credited s.numWorkers).completes t _ hlt fun hopen => h.room hjob hx hopen
  exact ⟨_, .complete k _ o t t' a hjob hx hworker hstep, rfl, rfl⟩

/-- A queued job can start as soon as a worker is free. -/
theorem Inv.starts (h : s.Inv) {i : ℕ} {rest : List ℕ} (hqueue : s.queue = i :: rest)
    (hfree : s.running.length < s.numWorkers.1) : ∃ s', s.Step s' ∧ s'.queue = rest := by
  have hqueued := h.queued i
  rw [hqueue, List.count_cons_self] at hqueued
  cases hx : s.operations[i]? with
  | none =>
      rw [view, hx] at hqueued
      simp [PoolView.new] at hqueued
  | some x =>
      obtain ⟨o, t⟩ := x
      rw [view_of_getElem? hx] at hqueued
      have hrunning : (Ongoing.view ⟨o, t⟩).running ≤ s.running.length := by
        rw [← view_of_getElem? hx, ← h.running i]
        exact List.count_le_length
      have hworkers := (h.kept_of_getElem? hx).workers
      obtain ⟨a, t', hworker, hstep⟩ := (o.credited s.numWorkers).starts t
        (Nat.lt_of_lt_of_eq (Nat.succ_pos _) hqueued) (hrunning.trans_lt (hfree.trans_eq hworkers.symm))
      exact ⟨_, .start i rest o t t' a hqueue hfree hx hworker hstep, rfl⟩

/-- **No worker can block on delivering a result.**  In every reachable state of a shared pool the jobs
and results of each operation with a live receiver fit into its channel, so no worker waits in `send`
and every running job can end; no calling thread waits for the queue while all workers wait; and a
job never submits another one. -/
theorem never_blocks (numWorkers : Positive) (s : SharedPool)
    (hreach : Relation.ReflTransGen Step (new numWorkers) s) :
    (∀ (i : ℕ) x, s.operations[i]? = some x → x.view.isOpen = true →
      s.queue.count i + s.running.count i + x.view.output ≤ x.view.capacity) ∧
    (∀ k, ¬ s.SendWaits k) ∧
    (∀ k, k < s.running.length → ∃ s', s.Step s' ∧ s'.running = s.running.eraseIdx k ∧ s'.queue = s.queue) ∧
    ¬ ((∃ i, s.SubmitWaits i) ∧ s.running.length = s.numWorkers.1 ∧ ∀ k, k < s.running.length → s.SendWaits k) ∧
    (∀ i, s.SubmitWaits i → ∃ s', s.Step s' ∧ (s'.running.length < s.running.length ∨
      s'.queue.length < s.queueCapacity)) ∧
    (∀ (i : ℕ) (o : Operation) (t t' : o.kind.State) a, s.operations[i]? = some ⟨o, t⟩ → (o.kind.worker a).isSome →
      o.kind.step t a = some t' → (o.kind.view t').queued ≤ (o.kind.view t).queued) := by
  have h := inv_reachable hreach
  refine ⟨fun i x hx hopen => ?_, h.not_sendWaits, fun k hk => h.completes hk, ?_, ?_, ?_⟩
  · have hfits := (h.kept_of_getElem? hx).fits hopen
    rw [h.queued i, h.running i, view_of_getElem? hx]
    exact hfits
  · rintro ⟨-, hall, hwaits⟩
    exact h.not_sendWaits 0 (hwaits 0 (hall ▸ s.numWorkers.2))
  · -- a waiting thread means a full queue: a free worker takes a job, or a busy one becomes free
    rintro i ⟨o, t, t', a, -, -, -, -, hfull⟩
    by_cases hfree : s.running.length < s.numWorkers.1
    · have hle := h.queue_le
      have hcapacity : 0 < s.queueCapacity := Nat.mul_pos s.numWorkers.2 (by decide)
      cases hqueue : s.queue with
      | nil =>
          rw [hqueue, List.length_nil] at hfull
          omega
      | cons j rest =>
          obtain ⟨s', hs, hrest⟩ := h.starts hqueue hfree
          refine ⟨s', hs, .inr ?_⟩
          rw [hqueue, List.length_cons] at hle
          rw [hrest]
          omega
    · have hworkers := s.numWorkers.2
      have hpos : 0 < s.running.length := by omega
      obtain ⟨s', hs, hrunning, -⟩ := h.completes hpos
      refine ⟨s', hs, .inl ?_⟩
      rw [hrunning, List.length_eraseIdx_of_lt hpos]
      omega
  · intro i o t t' a hx hworker hstep
    obtain ⟨-, hmoves⟩ := (h.kept_of_getElem? hx).step hstep
    obtain ⟨w, hw⟩ := Option.isSome_iff_exists.mp hworker
    change (Ongoing.view ⟨o, t'⟩).queued ≤ (Ongoing.view ⟨o, t⟩).queued
    rw [hw] at hmoves
    generalize Ongoing.view ⟨o, t'⟩ = v' at hmoves ⊢
    generalize Ongoing.view ⟨o, t⟩ = v at hmoves ⊢
    cases hmoves with
    | start n hn hw =>
        simp only
        omega
    | deliver i n hn ho hroom => exact le_refl _
    | discard i n hn ho => exact le_refl _

/-- A sample is read. -/
def reading : Operation := .getItem ℕ (.ok 7)

/-- Two caches are loaded, and the first one is not there. -/
def loading : Operation :=
  .loadCaches ℕ (fun _ position =>
    if position = 0 then .error (.io "No such file or directory (os error 2)") else .ok position) ["a", "b"]

/-- The second operation stops at an error while a job of it is queued; the first one is not held up by that. -/
theorem never_blocks_stopped : ∃ s,
    Relation.ReflTransGen Step (new ⟨2, Nat.two_pos⟩) s ∧ s.running = [0] ∧ s.queue = [1] ∧
      (s.view 0).isOpen = true ∧ (s.view 1).isOpen = false ∧ ∃ s', s.Step s' ∧ s'.running = [] ∧ s'.queue = [1] := by
  obtain ⟨s, hreach, hrunning, hqueue, hfirst, hsecond⟩ : ∃ s,
      Relation.ReflTransGen Step (new ⟨2, Nat.two_pos⟩) s ∧ s.running = [0] ∧ s.queue = [1] ∧
        (s.view 0).isOpen = true ∧ (s.view 1).isOpen = false := by
    refine ⟨_, .head (.call reading (by decide)) <| .head (.call loading (by decide)) <|
      .head (.caller 0 reading _ _ (.submit true) rfl rfl rfl fun _ => by decide) <|
      .head (.start 0 [] reading _ _ .start rfl (by decide) rfl rfl rfl) <|
      .head (.caller 1 loading _ _ (.submit true) rfl rfl rfl fun _ => by decide) <|
      .head (.start 1 [] loading _ _ .start rfl (by decide) rfl rfl rfl) <|
      .head (.caller 1 loading _ _ (.submit true) rfl rfl rfl fun _ => by decide) <|
      .head (.caller 1 loading _ _ .proceed rfl rfl rfl fun _ => by decide) <|
      .head (.complete 1 1 loading _ _ (.complete 0) rfl rfl rfl rfl) <|
      .head (.caller 1 loading _ _ .receive rfl rfl rfl fun _ => by decide) .refl, rfl, rfl, rfl, rfl⟩
  obtain ⟨s', hs, hended, hsame⟩ := (never_blocks _ _ hreach).2.2.1 0 (by rw [hrunning]; exact Nat.one_pos)
  rw [hrunning] at hended
  exact ⟨s, hreach, hrunning, hqueue, hfirst, hsecond, s', hs, hended, hsame.trans hqueue⟩

end SharedPool

end DatasetRt
