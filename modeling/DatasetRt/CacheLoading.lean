import DatasetRt.Channel
import DatasetRt.PoolOperations
import DatasetRt.SourceListContract
import DatasetRt.DatasetState
import DatasetRt.Lib.Machine

/-! # Loading the caches of a dataset

`load_caches` (`dataset.rs`) loads the directories of a dataset on the worker pool.  It keeps at most as many jobs out as
there are workers or paths, takes their results in the order in which they end, and sorts them by the position that
each job carries.  `CacheLoading` is the call together with what it shares with the pool; `CacheLoading.step` is one
step of the calling thread or of a worker.

* The caller: `submit` is one round of its first loop, `leave` ends that loop, `receive` is one round of its second
  loop, `finish` is the return after it.
* The workers: `start` and `complete i`, in any interleaving; a job can start and end after the caller has returned.

The pool outlives the call and its workers do not end, so that it accepts every job; `load` is what loading the path
at a position gives.  `loads` lists the positions whose job has begun.

`CacheLoad` (`PoolOperations.lean`) is the same loop as the shared pool sees it, where a submission can be refused
because the workers have ended.  `exists_cacheLoad_run` says that the runs here are those of it where none is refused.

`Loading` accounts for the positions: those of the jobs that are out, wherever they are, and those of the results are
the scheduled ones, each once.  `Returned` is what is left of it when the call is over. -/

namespace DatasetRt

namespace Pool

variable {J J' R : Type}

/-- The same pool under other names for its jobs. -/
def mapJobs (f : J → J') (p : Pool J R) : Pool J' R :=
  { workers := p.workers
    capacity := p.capacity
    queued := p.queued.map f
    running := p.running.map f
    output := p.output
    isOpen := p.isOpen }

variable (f : J → J') (p : Pool J R)

theorem mapJobs_submit (job : J) : (p.submit job).mapJobs f = (p.mapJobs f).submit (f job) := by
  simp only [mapJobs, submit, List.map_append, List.map_singleton]

theorem mapJobs_recv : (p.mapJobs f).recv = p.recv.map fun q => (q.1, q.2.mapJobs f) := by
  cases houtput : p.output <;> simp [mapJobs, recv, houtput]

theorem mapJobs_start : (p.mapJobs f).start id = (p.start id).map (mapJobs f) := by
  cases hqueued : p.queued with
  | nil => simp [mapJobs, start, hqueued]
  | cons job rest =>
      by_cases hfree : p.running.length < p.workers <;> simp [mapJobs, start, hqueued, hfree]

theorem mapJobs_complete {result : J → R} {result' : J' → R} (hresult : ∀ job, result' (f job) = result job) (i : ℕ) :
    (p.mapJobs f).complete result' i = (p.complete result i).map (mapJobs f) := by
  cases hjob : p.running[i]? with
  | none => simp [mapJobs, complete, hjob]
  | some job =>
      simp only [mapJobs, complete, List.getElem?_map, hjob, Option.map_some, hresult]
      split_ifs <;> simp [mapJobs, List.eraseIdx_map]

end Pool

/-- Where the calling thread is. -/
inductive LoadingPhase (σ : Type) where
  | scheduling
  | receiving
  | returned (outcome : CacheResult (List σ))

structure CacheLoading (σ : Type) where
  pool : Pool ℕ (CacheResult (CacheLoadResult σ))
  total : ℕ
  parallelism : ℕ
  /-- The position that the iterator over the paths gives next. -/
  next : ℕ
  scheduled : ℕ
  results : List (CacheLoadResult σ)
  phase : LoadingPhase σ
  loads : List ℕ

inductive CacheLoadAct where
  | submit
  | leave
  | receive
  | finish
  | start
  | complete (i : ℕ)
deriving DecidableEq, Repr

namespace CacheLoading

variable {σ : Type}

/-- `load_caches`, up to the first round of its first loop. -/
def begin (total : ℕ) (numWorkers : Positive) : CacheLoading σ :=
  let parallelism := min numWorkers.1 total
  { pool := Pool.new numWorkers.1 parallelism
    total
    parallelism
    next := 0
    scheduled := 0
    results := []
    phase :=
      match Channel.bounded (CacheResult (CacheLoadResult σ)) parallelism with
      | .ok _ => .scheduling
      | .error error => .returned (.error error)
    loads := [] }

/-- The call returns, and with it the receiver is dropped. -/
def returns (s : CacheLoading σ) (outcome : CacheResult (List σ)) : CacheLoading σ :=
  { s with pool := s.pool.close, phase := .returned outcome }

/-- `submit_next_cache_load` with the count of its caller. -/
def submitNextCacheLoad (s : CacheLoading σ) : CacheLoading σ :=
  if s.next < s.total then
    { s with pool := s.pool.submit s.next, next := s.next + 1, scheduled := s.scheduled + 1 }
  else s.returns (.error .workerFailed)

/-- One result of the second loop. -/
def receiveResult (s : CacheLoading σ) : CacheResult (CacheLoadResult σ) → CacheLoading σ
  | .error error => s.returns (.error error)
  | .ok result =>
      let s := { s with results := s.results ++ [result] }
      if s.scheduled < s.total then s.submitNextCacheLoad else s

/-- The job of `submit_next_cache_load`. -/
def jobResult (load : ℕ → CacheResult σ) (position : ℕ) : CacheResult (CacheLoadResult σ) :=
  (load position).map fun cache => ⟨position, cache⟩

def step (load : ℕ → CacheResult σ) (s : CacheLoading σ) : CacheLoadAct → Option (CacheLoading σ)
  | .submit =>
      match s.phase with
      | .scheduling => if s.scheduled < s.parallelism then some s.submitNextCacheLoad else none
      | _ => none
  | .leave =>
      match s.phase with
      | .scheduling => if s.scheduled < s.parallelism then none else some { s with phase := .receiving }
      | _ => none
  | .receive =>
      match s.phase with
      | .receiving =>
          if s.results.length < s.total then
            match s.pool.recv with
            | some (result, pool) => some ({ s with pool }.receiveResult result)
            | none => none
          else none
      | _ => none
  | .finish =>
      match s.phase with
      | .receiving =>
          if s.results.length < s.total then none else some (s.returns (.ok (orderLoadedCaches s.results)))
      | _ => none
  | .start =>
      match s.pool.start id with
      | some pool => some { s with pool, loads := s.loads ++ s.pool.queued.take 1 }
      | none => none
  | .complete i =>
      match s.pool.complete (jobResult load) i with
      | some pool => some { s with pool }
      | none => none

/-! ### Sorting -/

theorem mapM_orderLoadedCaches {load : ℕ → CacheResult σ} {results : List (CacheLoadResult σ)} {n : ℕ}
    (hperm : (results.map CacheLoadResult.position).Perm (List.range n))
    (hload : ∀ r ∈ results, load r.position = .ok r.cache) :
    (List.range n).mapM load = .ok (orderLoadedCaches results) := by
  unfold orderLoadedCaches
  have hsorted : (results.mergeSort fun a b => a.position ≤ b.position).Pairwise
      fun a b => decide (a.position ≤ b.position) = true := by
    refine List.pairwise_mergeSort (fun a b c hab hbc => ?_) (fun a b => ?_) results
    · simp only [decide_eq_true_eq] at hab hbc ⊢
      omega
    · simp only [Bool.or_eq_true, decide_eq_true_eq]
      omega
  have hsame := List.mergeSort_perm results fun a b => decide (a.position ≤ b.position)
  have hrange : (results.mergeSort fun a b => a.position ≤ b.position).map CacheLoadResult.position = List.range n := by
    refine List.Perm.eq_of_pairwise' (r := (· ≤ ·)) ?_ ?_ ((hsame.map _).trans hperm)
    · rw [List.pairwise_map]
      exact hsorted.imp fun h => of_decide_eq_true h
    · exact List.pairwise_le_range
  rw [← hrange, mapM_eq_ok_iff, List.forall₂_map_left_iff, List.forall₂_map_right_iff, List.forall₂_same]
  exact fun r hr => hload r (hsame.mem_iff.mp hr)

/-! ### The invariant -/

section invariant

variable (load : ℕ → CacheResult σ)

/-- While the call is not over, the scheduled positions are those of the jobs that are out and of the results. -/
structure Loading (s : CacheLoading σ) : Prop where
  next_eq : s.next = s.scheduled
  ledger : ∃ ids, s.pool.Out id (fun r k => r = jobResult load k) ids ∧
    (ids ++ s.results.map CacheLoadResult.position).Perm (List.range s.scheduled)
  results : ∀ r ∈ s.results, load r.position = .ok r.cache
  isOpen : s.pool.isOpen = true
  window : s.scheduled ≤ s.parallelism + s.results.length
  scheduling : s.phase = .scheduling → s.results = []
  receiving : s.phase = .receiving → min s.total (s.parallelism + s.results.length) ≤ s.scheduled

/-- The outcome of loading `n` paths: all of them in order, or the error of one. -/
def Correct (n : ℕ) : CacheResult (List σ) → Prop
  | .ok caches => (List.range n).mapM load = .ok caches
  | .error error => ∃ k < n, load k = .error error

/-- When the call is over. -/
structure Over (s : CacheLoading σ) (outcome : CacheResult (List σ)) : Prop where
  correct : Correct load s.total outcome
  /-- After a success no job is left. -/
  settled : outcome.isOk = true → s.scheduled = s.total ∧ s.pool.queued = []

/-- What no step changes. -/
def Shape (n : ℕ) (numWorkers : Positive) (s : CacheLoading σ) : Prop :=
  s.total = n ∧ s.parallelism = min numWorkers.1 n ∧ s.pool.capacity = s.parallelism ∧ s.pool.workers = numWorkers.1

structure Inv (n : ℕ) (numWorkers : Positive) (s : CacheLoading σ) : Prop where
  shape : Shape n numWorkers s
  scheduled_le : s.scheduled ≤ s.total
  /-- Jobs begin in the order of the paths. -/
  loads : s.loads ++ s.pool.queued = List.range s.scheduled
  outstanding : s.pool.queued.length + s.pool.running.length + s.pool.output.length ≤ s.parallelism
  phase : ∀ outcome, s.phase = .returned outcome → Over load s outcome
  live : (∀ outcome, s.phase ≠ .returned outcome) → Loading load s

end invariant

variable {load : ℕ → CacheResult σ} {n : ℕ} {numWorkers : Positive} {s s' : CacheLoading σ}

theorem Loading.length_eq (h : Loading load s) : s.scheduled =
    s.pool.queued.length + s.pool.running.length + s.pool.output.length + s.results.length := by
  obtain ⟨ids, hout, hperm⟩ := h.ledger
  have hlength := hperm.length_eq
  rw [List.length_append, hout.length_eq, List.length_map, List.length_range] at hlength
  exact hlength.symm

theorem begin_phase (hn : 0 < n) : (begin n numWorkers : CacheLoading σ).phase = .scheduling := by
  have hpos : ¬ min numWorkers.1 n = 0 := by
    have := numWorkers.2
    omega
  simp only [begin, Channel.bounded, if_neg hpos]

theorem inv_begin (hn : 0 < n) : Inv load n numWorkers (begin n numWorkers) where
  shape := ⟨rfl, rfl, rfl, rfl⟩
  scheduled_le := Nat.zero_le _
  loads := rfl
  outstanding := Nat.zero_le _
  phase outcome h := by
    rw [begin_phase hn] at h
    cases h
  live _ :=
    { next_eq := rfl
      ledger := ⟨[], Pool.out_new _ _, List.Perm.refl _⟩
      results := fun _ hr => nomatch hr
      isOpen := rfl
      window := Nat.zero_le _
      scheduling := fun _ => rfl
      receiving := fun h => by
        rw [begin_phase hn] at h
        cases h }

/-! ### No paths -/

/-- A channel for no results is refused. -/
theorem begin_zero_phase : (begin 0 numWorkers : CacheLoading σ).phase =
    .returned (.error (.invalidInput "channel capacity must be positive")) := by
  simp only [begin, Channel.bounded, Nat.min_zero, if_true]

theorem step_begin_zero (a : CacheLoadAct) : (begin 0 numWorkers : CacheLoading σ).step load a = none := by
  cases a with
  | start => rfl
  | complete i => rfl
  | _ => simp only [step, begin_zero_phase]

theorem run_begin_zero {as : List CacheLoadAct} (hrun : Machine.run (step load) (begin 0 numWorkers) as = some s) :
    as = [] ∧ s = begin 0 numWorkers := by
  cases as with
  | nil => exact ⟨rfl, (Option.some.inj hrun).symm⟩
  | cons a as =>
      rw [Machine.run, step_begin_zero] at hrun
      cases hrun

/-! ### One step -/

/-- A job carries the next position. -/
theorem ledger_submit {pool : Pool ℕ (CacheResult (CacheLoadResult σ))} {ids positions : List ℕ} {scheduled : ℕ}
    (hout : pool.Out id (fun r k => r = jobResult load k) ids) (hperm : (ids ++ positions).Perm (List.range scheduled)) :
    (pool.submit scheduled).Out id (fun r k => r = jobResult load k) (scheduled :: ids) ∧
      (scheduled :: ids ++ positions).Perm (List.range (scheduled + 1)) := by
  refine ⟨hout.submit scheduled, ?_⟩
  rw [List.range_succ]
  exact (hperm.cons scheduled).trans (List.perm_append_singleton _ _).symm

theorem loads_submit {loads queued : List ℕ} {scheduled : ℕ} (h : loads ++ queued = List.range scheduled) :
    loads ++ (queued ++ [scheduled]) = List.range (scheduled + 1) := by
  rw [← List.append_assoc, h, List.range_succ]

theorem inv_submit (h : Inv load n numWorkers s) (hs : s.step load .submit = some s') : Inv load n numWorkers s' := by
  simp only [step] at hs
  split at hs
  · rename_i hphase
    split_ifs at hs with hroom
    have hlive := h.live (fun outcome hout => by rw [hphase] at hout; cases hout)
    have hlt : s.scheduled < s.total := by
      obtain ⟨htotal, hparallelism, -⟩ := h.shape
      omega
    have hnext : s.next < s.total := hlive.next_eq ▸ hlt
    obtain rfl := Option.some.inj hs
    rw [submitNextCacheLoad, if_pos hnext, hlive.next_eq]
    obtain ⟨ids, hout, hperm⟩ := hlive.ledger
    obtain ⟨hout', hperm'⟩ := ledger_submit hout hperm
    have hlength := hlive.length_eq
    refine
      { shape := h.shape
        scheduled_le := hlt
        loads := loads_submit h.loads
        outstanding := ?_
        phase := fun outcome hret => ?_
        live := fun _ => ?_ }
    · simp only [Pool.submit, List.length_append, List.length_singleton]
      omega
    · have hret' : s.phase = .returned outcome := hret
      rw [hphase] at hret'
      cases hret'
    · refine ⟨rfl, ⟨_, hout', hperm'⟩, hlive.results, hlive.isOpen, ?_, hlive.scheduling, fun hrec => ?_⟩
      · show s.scheduled + 1 ≤ s.parallelism + s.results.length
        omega
      · have hrec' : s.phase = .receiving := hrec
        rw [hphase] at hrec'
        cases hrec'
  · cases hs

theorem inv_leave (h : Inv load n numWorkers s) (hs : s.step load .leave = some s') : Inv load n numWorkers s' := by
  simp only [step] at hs
  split at hs
  · rename_i hphase
    split_ifs at hs with hroom
    have hlive := h.live (fun outcome hout => by rw [hphase] at hout; cases hout)
    obtain rfl := Option.some.inj hs
    refine
      { shape := h.shape
        scheduled_le := h.scheduled_le
        loads := h.loads
        outstanding := h.outstanding
        phase := fun outcome hret => nomatch hret
        live := fun _ => ?_ }
    have hnone := hlive.scheduling hphase
    refine ⟨hlive.next_eq, hlive.ledger, hlive.results, hlive.isOpen, hlive.window,
      (fun hsched => nomatch hsched), fun _ => ?_⟩
    show min s.total (s.parallelism + s.results.length) ≤ s.scheduled
    rw [hnone, List.length_nil]
    omega
  · cases hs

theorem jobResult_eq {k : ℕ} {r : CacheResult (CacheLoadResult σ)} (h : r = jobResult load k) :
    (∀ error, r = .error error → load k = .error error) ∧
      ∀ result, r = .ok result → result.position = k ∧ load k = .ok result.cache := by
  subst h
  unfold jobResult
  cases hload : load k with
  | error error =>
      refine ⟨fun error' h => ?_, fun result h => by cases h⟩
      cases h
      rfl
  | ok cache =>
      refine ⟨fun error h => (by cases h), fun result h => ?_⟩
      cases h
      exact ⟨rfl, rfl⟩

theorem inv_received (h : Inv load n numWorkers s) (hphase : s.phase = .receiving)
    {rest : List (CacheResult (CacheLoadResult σ))} {ids : List ℕ} {result : CacheLoadResult σ}
    (hload : load result.position = .ok result.cache) (hfewer : rest.length < s.pool.output.length)
    (hout : ({ s.pool with output := rest } : Pool ℕ _).Out id (fun r k => r = jobResult load k) ids)
    (hperm : (ids ++ (s.results ++ [result]).map CacheLoadResult.position).Perm (List.range s.scheduled)) :
    Inv load n numWorkers ({ s with pool := { s.pool with output := rest } }.receiveResult (.ok result)) := by
  have hlive := h.live (fun outcome hout => by rw [hphase] at hout; cases hout)
  have hle := h.outstanding
  have hwindow := hlive.window
  have hreceiving := hlive.receiving hphase
  have hresults : ∀ r ∈ s.results ++ [result], load r.position = .ok r.cache := by
    intro r hr
    rcases List.mem_append.mp hr with hr | hr
    · exact hlive.results r hr
    · rw [List.mem_singleton.mp hr, hload]
  have hlength : (s.results ++ [result]).length = s.results.length + 1 := List.length_append
  by_cases hlt : s.scheduled < s.total
  · obtain ⟨hout', hperm'⟩ := ledger_submit hout hperm
    simp only [receiveResult, if_pos hlt, submitNextCacheLoad, hlive.next_eq]
    refine
      { shape := h.shape
        scheduled_le := hlt
        loads := loads_submit h.loads
        outstanding := ?_
        phase := fun outcome hret => (by cases hphase.symm.trans hret)
        live := fun _ => ⟨rfl, ⟨_, hout', hperm'⟩, hresults, hlive.isOpen, ?_,
          fun hsched => (by cases hphase.symm.trans hsched), fun _ => ?_⟩ }
    · simp only [Pool.submit, List.length_append, List.length_singleton]
      omega
    · simp only [hlength]
      omega
    · simp only [hlength]
      omega
  · simp only [receiveResult, if_neg hlt]
    refine
      { shape := h.shape
        scheduled_le := h.scheduled_le
        loads := h.loads
        outstanding := ?_
        phase := fun outcome hret => (by cases hphase.symm.trans hret)
        live := fun _ => ⟨hlive.next_eq, ⟨_, hout, hperm⟩, hresults, hlive.isOpen, ?_,
          fun hsched => (by cases hphase.symm.trans hsched), fun _ => ?_⟩ }
    · simp only
      omega
    · simp only [hlength]
      omega
    · simp only
      omega

theorem inv_receive (h : Inv load n numWorkers s) (hs : s.step load .receive = some s') :
    Inv load n numWorkers s' := by
  simp only [step] at hs
  split at hs
  · rename_i hphase
    split_ifs at hs with hmore
    cases hrecv : s.pool.recv with
    | none =>
        rw [hrecv] at hs
        cases hs
    | some received =>
        obtain ⟨result, pool⟩ := received
        rw [hrecv] at hs
        obtain rfl := Option.some.inj hs
        have hlive := h.live (fun outcome hout => by rw [hphase] at hout; cases hout)
        obtain ⟨ids, hout, hperm⟩ := hlive.ledger
        obtain ⟨k, ids', hk, hids, hout'⟩ := hout.recv hrecv
        obtain ⟨rest, houtput, rfl⟩ := Pool.recv_eq_some hrecv
        obtain ⟨herror, hok⟩ := jobResult_eq hk
        cases result with
        | error error =>
            have hmem : k ∈ ids ++ s.results.map CacheLoadResult.position :=
              List.mem_append_left _ (hids.mem_iff.mpr List.mem_cons_self)
            have hk : k < s.scheduled := List.mem_range.mp (hperm.mem_iff.mp hmem)
            have hle := h.outstanding
            refine
              { shape := h.shape
                scheduled_le := h.scheduled_le
                loads := h.loads
                outstanding := ?_
                phase := fun outcome hret => ?_
                live := fun hnot => absurd rfl (hnot _) }
            · simp only [receiveResult, returns, Pool.close, List.length_nil]
              omega
            · cases hret
              exact ⟨⟨k, lt_of_lt_of_le hk h.scheduled_le, herror error rfl⟩, fun hret => by cases hret⟩
        | ok result =>
            obtain ⟨hposition, hload⟩ := hok result rfl
            refine inv_received h hphase (hposition ▸ hload) (by rw [houtput]; exact Nat.lt_succ_self _) hout' ?_
            rw [List.map_append, List.map_singleton, hposition, ← List.append_assoc]
            refine (List.perm_append_singleton k _).trans (List.Perm.trans ?_ hperm)
            rw [← List.cons_append]
            exact hids.symm.append_right _
  · cases hs

/-- All results are there, so no job is out. -/
theorem Loading.settled (h : Loading load s) (hle : s.scheduled ≤ s.total) (hall : ¬ s.results.length < s.total) :
    s.scheduled = s.total ∧ s.pool.queued = [] ∧
      (s.results.map CacheLoadResult.position).Perm (List.range s.total) := by
  have hlength := h.length_eq
  have hscheduled : s.scheduled = s.total := by omega
  obtain ⟨ids, hout, hperm⟩ := h.ledger
  have hids : ids = [] := by
    apply List.eq_nil_of_length_eq_zero
    rw [hout.length_eq]
    omega
  rw [hids, List.nil_append, hscheduled] at hperm
  exact ⟨hscheduled, List.eq_nil_of_length_eq_zero (by omega), hperm⟩

theorem inv_finish (h : Inv load n numWorkers s) (hs : s.step load .finish = some s') : Inv load n numWorkers s' := by
  simp only [step] at hs
  split at hs
  · rename_i hphase
    split_ifs at hs with hmore
    obtain rfl := Option.some.inj hs
    have hlive := h.live (fun outcome hout => by rw [hphase] at hout; cases hout)
    obtain ⟨hscheduled, hqueued, hperm⟩ := hlive.settled h.scheduled_le hmore
    have hle := h.outstanding
    refine
      { shape := h.shape
        scheduled_le := h.scheduled_le
        loads := h.loads
        outstanding := ?_
        phase := fun outcome hret => ?_
        live := fun hnot => absurd rfl (hnot _) }
    · simp only [returns, Pool.close, List.length_nil]
      omega
    · cases hret
      exact ⟨mapM_orderLoadedCaches hperm hlive.results, fun _ => ⟨hscheduled, hqueued⟩⟩
  · cases hs

theorem inv_start (h : Inv load n numWorkers s) (hs : s.step load .start = some s') : Inv load n numWorkers s' := by
  simp only [step] at hs
  cases hstart : s.pool.start id with
  | none =>
      rw [hstart] at hs
      cases hs
  | some pool =>
      rw [hstart] at hs
      obtain rfl := Option.some.inj hs
      obtain ⟨job, rest, hqueued, -, rfl⟩ := Pool.start_eq_some hstart
      have hle := h.outstanding
      have hloads := h.loads
      rw [hqueued] at hle hloads
      refine
        { shape := h.shape
          scheduled_le := h.scheduled_le
          loads := ?_
          outstanding := ?_
          phase := fun outcome hret => ⟨(h.phase outcome hret).correct, fun hok => ?_⟩
          live := fun hnot => ?_ }
      · rw [← hloads, hqueued, List.take_succ_cons, List.take_zero, List.append_assoc]
        rfl
      · simp only [List.length_cons, List.length_append, List.length_nil] at hle ⊢
        omega
      · have hnone := ((h.phase outcome hret).settled hok).2
        rw [hqueued] at hnone
        cases hnone
      · have hlive := h.live hnot
        obtain ⟨ids, hout, hperm⟩ := hlive.ledger
        exact ⟨hlive.next_eq, ⟨ids, hout.start (fun _ => rfl) hstart, hperm⟩, hlive.results, hlive.isOpen,
          hlive.window, hlive.scheduling, hlive.receiving⟩

theorem inv_complete (h : Inv load n numWorkers s) {i : ℕ} (hs : s.step load (.complete i) = some s') :
    Inv load n numWorkers s' := by
  simp only [step] at hs
  cases hcomplete : s.pool.complete (jobResult load) i with
  | none =>
      rw [hcomplete] at hs
      cases hs
  | some pool =>
      rw [hcomplete] at hs
      obtain rfl := Option.some.inj hs
      obtain ⟨job, hjob, hpool⟩ := Pool.complete_eq_some hcomplete
      have hi : i < s.pool.running.length := (List.getElem?_eq_some_iff.mp hjob).1
      have hframe : pool.queued = s.pool.queued ∧ pool.capacity = s.pool.capacity ∧ pool.workers = s.pool.workers ∧
          pool.isOpen = s.pool.isOpen ∧ pool.queued.length + pool.running.length + pool.output.length ≤
            s.pool.queued.length + s.pool.running.length + s.pool.output.length := by
        rcases hpool with ⟨hopen, -, rfl⟩ | ⟨hclosed, rfl⟩
        · refine ⟨rfl, rfl, rfl, rfl, ?_⟩
          simp only [List.length_append, List.length_singleton, List.length_eraseIdx_of_lt hi]
          omega
        · refine ⟨rfl, rfl, rfl, rfl, ?_⟩
          simp only [List.length_eraseIdx_of_lt hi]
          omega
      obtain ⟨hqueued, hcapacity, hworkers, hopen, hle⟩ := hframe
      refine
        { shape := ⟨h.shape.1, h.shape.2.1, hcapacity.trans h.shape.2.2.1, hworkers.trans h.shape.2.2.2⟩
          scheduled_le := h.scheduled_le
          loads := hqueued ▸ h.loads
          outstanding := le_trans hle h.outstanding
          phase := fun outcome hret => ⟨(h.phase outcome hret).correct, fun hok => ?_⟩
          live := fun hnot => ?_ }
      · obtain ⟨hscheduled, hnone⟩ := (h.phase outcome hret).settled hok
        exact ⟨hscheduled, hqueued.trans hnone⟩
      · have hlive := h.live hnot
        obtain ⟨ids, hout, hperm⟩ := hlive.ledger
        exact ⟨hlive.next_eq, ⟨ids, hout.complete hlive.isOpen (fun _ _ => rfl) hcomplete, hperm⟩, hlive.results,
          hopen.trans hlive.isOpen, hlive.window, hlive.scheduling, hlive.receiving⟩

theorem inv_step {a : CacheLoadAct} (h : Inv load n numWorkers s) (hs : s.step load a = some s') :
    Inv load n numWorkers s' := by
  cases a with
  | submit => exact inv_submit h hs
  | leave => exact inv_leave h hs
  | receive => exact inv_receive h hs
  | finish => exact inv_finish h hs
  | start => exact inv_start h hs
  | complete i => exact inv_complete h hs

theorem inv_run (hn : 0 < n) {as : List CacheLoadAct} (hrun : Machine.run (step load) (begin n numWorkers) as = some s) :
    Inv load n numWorkers s :=
  Machine.run_invariant (step load) (fun _ _ _ => inv_step) (inv_begin hn) hrun

/-! ### Progress -/

/-- A path passes through the queue, a worker and the channel. -/
def weight (s : CacheLoading σ) : ℕ :=
  4 * (s.total - s.scheduled) + 3 * s.pool.queued.length + 2 * s.pool.running.length + s.pool.output.length +
    match s.phase with
    | .scheduling => 2
    | .receiving => 1
    | .returned _ => 0

theorem weight_submit (h : Inv load n numWorkers s) (hs : s.step load .submit = some s') : s'.weight < s.weight := by
  simp only [step] at hs
  split at hs
  · rename_i hphase
    split_ifs at hs with hroom
    obtain rfl := Option.some.inj hs
    have hlive := h.live (fun outcome hout => by rw [hphase] at hout; cases hout)
    obtain ⟨htotal, hparallelism, -⟩ := h.shape
    have hnext : s.next < s.total := by
      rw [hlive.next_eq]
      omega
    have hlt := hlive.next_eq ▸ hnext
    simp only [submitNextCacheLoad, if_pos hnext, weight, hphase, Pool.submit, List.length_append,
      List.length_singleton]
    omega
  · cases hs

theorem weight_leave (hs : s.step load .leave = some s') : s'.weight < s.weight := by
  simp only [step] at hs
  split at hs
  · rename_i hphase
    split_ifs at hs with hroom
    obtain rfl := Option.some.inj hs
    simp only [weight, hphase]
    omega
  · cases hs

theorem weight_receive (h : Inv load n numWorkers s) (hs : s.step load .receive = some s') : s'.weight < s.weight := by
  simp only [step] at hs
  split at hs
  · rename_i hphase
    split_ifs at hs with hmore
    cases hrecv : s.pool.recv with
    | none =>
        rw [hrecv] at hs
        cases hs
    | some received =>
        obtain ⟨result, pool⟩ := received
        rw [hrecv] at hs
        obtain rfl := Option.some.inj hs
        have hlive := h.live (fun outcome hout => by rw [hphase] at hout; cases hout)
        obtain ⟨rest, houtput, rfl⟩ := Pool.recv_eq_some hrecv
        cases result with
        | error error =>
            simp only [receiveResult, returns, Pool.close, weight, hphase, houtput, List.length_cons,
              List.length_nil]
            omega
        | ok result =>
            simp only [receiveResult, submitNextCacheLoad, hlive.next_eq]
            split_ifs with hlt
            · simp only [weight, hphase, houtput, Pool.submit, List.length_append, List.length_cons,
                List.length_nil]
              omega
            · simp only [weight, hphase, houtput, List.length_cons]
              omega
  · cases hs

theorem weight_finish (hs : s.step load .finish = some s') : s'.weight < s.weight := by
  simp only [step] at hs
  split at hs
  · rename_i hphase
    split_ifs at hs with hmore
    obtain rfl := Option.some.inj hs
    simp only [returns, Pool.close, weight, hphase, List.length_nil]
    omega
  · cases hs

theorem weight_start (hs : s.step load .start = some s') : s'.weight < s.weight := by
  simp only [step] at hs
  cases hstart : s.pool.start id with
  | none =>
      rw [hstart] at hs
      cases hs
  | some pool =>
      rw [hstart] at hs
      obtain rfl := Option.some.inj hs
      obtain ⟨job, rest, hqueued, -, rfl⟩ := Pool.start_eq_some hstart
      simp only [weight, hqueued, List.length_cons, List.length_append, List.length_nil]
      omega

theorem weight_complete {i : ℕ} (hs : s.step load (.complete i) = some s') : s'.weight < s.weight := by
  simp only [step] at hs
  cases hcomplete : s.pool.complete (jobResult load) i with
  | none =>
      rw [hcomplete] at hs
      cases hs
  | some pool =>
      rw [hcomplete] at hs
      obtain rfl := Option.some.inj hs
      obtain ⟨job, hjob, hpool⟩ := Pool.complete_eq_some hcomplete
      have hi : i < s.pool.running.length := (List.getElem?_eq_some_iff.mp hjob).1
      rcases hpool with ⟨-, -, rfl⟩ | ⟨-, rfl⟩
      · simp only [weight, List.length_append, List.length_singleton, List.length_eraseIdx_of_lt hi]
        omega
      · simp only [weight, List.length_eraseIdx_of_lt hi]
        omega

/-- Every step brings the call, or the jobs it left, nearer to their end. -/
theorem weight_lt {a : CacheLoadAct} (h : Inv load n numWorkers s) (hs : s.step load a = some s') :
    s'.weight < s.weight := by
  cases a with
  | submit => exact weight_submit h hs
  | leave => exact weight_leave hs
  | receive => exact weight_receive h hs
  | finish => exact weight_finish hs
  | start => exact weight_start hs
  | complete i => exact weight_complete hs

theorem run_length_le (hn : 0 < n) {as : List CacheLoadAct}
    (hrun : Machine.run (step load) (begin n numWorkers) as = some s) : as.length ≤ 4 * n + 2 := by
  have hguarded : Machine.Guarded (step load) (fun _ _ => True) (begin n numWorkers) as :=
    Machine.guarded_of_forall (step load) _ fun _ _ _ => trivial
  have hlength := Machine.run_length_le (step load) weight
    (fun _ _ _ h _ hs => ⟨inv_step h hs, weight_lt h hs⟩) (inv_begin hn) hguarded hrun
  have hstart : (begin n numWorkers : CacheLoading σ).weight = 4 * n + 2 := by
    simp only [weight, begin_phase hn]
    rfl
  omega

theorem progress (hn : 0 < n) (h : Inv load n numWorkers s) (hnot : ∀ outcome, s.phase ≠ .returned outcome) :
    ∃ a, (s.step load a).isSome = true := by
  have hlive := h.live hnot
  obtain ⟨htotal, hparallelism, hcapacity, hworkers⟩ := h.shape
  have hpos := numWorkers.2
  cases hphase : s.phase with
  | returned outcome => exact absurd hphase (hnot outcome)
  | scheduling =>
      by_cases hroom : s.scheduled < s.parallelism
      · exact ⟨.submit, by simp [step, hphase, hroom]⟩
      · exact ⟨.leave, by simp [step, hphase, hroom]⟩
  | receiving =>
      by_cases hmore : s.results.length < s.total
      · cases houtput : s.pool.output with
        | cons r rest => exact ⟨.receive, by simp [step, hphase, hmore, Pool.recv, houtput]⟩
        | nil =>
            cases hrunning : s.pool.running with
            | cons job rest =>
                have hfree : 0 < s.pool.capacity := by omega
                exact ⟨.complete 0, by simp [step, Pool.complete, hrunning, hlive.isOpen, houtput, hfree]⟩
            | nil =>
                cases hqueued : s.pool.queued with
                | cons job rest =>
                    have hfree : 0 < s.pool.workers := by omega
                    exact ⟨.start, by simp [step, Pool.start, hqueued, hrunning, hfree]⟩
                | nil =>
                    -- no job is out, although results are missing
                    have hlength := hlive.length_eq
                    have hreceiving := hlive.receiving hphase
                    rw [houtput, hrunning, hqueued] at hlength
                    simp only [List.length_nil] at hlength
                    omega
      · exact ⟨.finish, by simp [step, hphase, hmore]⟩

/-! ### The view of the shared pool -/

/-- What the shared pool sees of the call: the jobs with their paths, and the paths that are left. -/
def toCacheLoad (paths : List String) (s : CacheLoading σ) : CacheLoad σ :=
  { pool := s.pool.mapJobs fun k => (k, paths.getD k "")
    paths := (paths.zipIdx.map Prod.swap).drop s.next
    total := s.total
    parallelism := s.parallelism
    scheduled := s.scheduled
    results := s.results
    phase :=
      match s.phase with
      | .scheduling => .filling
      | .receiving => .receiving
      | .returned outcome => .returned outcome }

section simulation

variable {load : String → ℕ → CacheResult σ} {paths : List String} {s s' : CacheLoading σ}

theorem toCacheLoad_begin (hpaths : paths ≠ []) (numWorkers : Positive) :
    (begin paths.length numWorkers : CacheLoading σ).toCacheLoad paths = CacheLoad.new paths numWorkers := by
  have hphase : (begin paths.length numWorkers : CacheLoading σ).phase = .scheduling :=
    begin_phase (List.length_pos_iff.mpr hpaths)
  rw [toCacheLoad, hphase]
  rfl

theorem drop_eq (paths : List String) (k : ℕ) : (paths.zipIdx.map Prod.swap).drop k =
    if k < paths.length then (k, paths.getD k "") :: (paths.zipIdx.map Prod.swap).drop (k + 1) else [] := by
  split_ifs with hk
  · have hlt : k < (paths.zipIdx.map Prod.swap).length := by simpa using hk
    rw [List.drop_eq_getElem_cons hlt]
    simp [List.getD_eq_getElem?_getD, List.getElem?_eq_getElem hk]
  · exact List.drop_eq_nil_of_le (by simpa using hk)

theorem submitNextCacheLoad_nil {t : CacheLoad σ} (h : t.paths = []) (accepted : Bool) (phase : LoadPhase σ) :
    t.submitNextCacheLoad accepted phase = t.ret (.error .workerFailed) := by
  simp only [CacheLoad.submitNextCacheLoad, h]

theorem submitNextCacheLoad_cons {t : CacheLoad σ} {job : ℕ × String} {rest : List (ℕ × String)}
    (h : t.paths = job :: rest) (phase : LoadPhase σ) : t.submitNextCacheLoad true phase =
      { t with paths := rest, pool := t.pool.submit job, scheduled := t.scheduled + 1, phase } := by
  simp only [CacheLoad.submitNextCacheLoad, h, if_true]

/-- The next job is submitted from any phase of the shared pool's view. -/
theorem toCacheLoad_submit (paths : List String) (htotal : s.total = paths.length) (before : LoadPhase σ) :
    { s.toCacheLoad paths with phase := before }.submitNextCacheLoad true (s.toCacheLoad paths).phase =
      s.submitNextCacheLoad.toCacheLoad paths := by
  have hpaths := drop_eq paths s.next
  by_cases hnext : s.next < paths.length
  · rw [if_pos hnext] at hpaths
    rw [submitNextCacheLoad_cons hpaths, submitNextCacheLoad, if_pos (htotal ▸ hnext)]
    simp only [toCacheLoad, Pool.mapJobs_submit]
  · rw [if_neg hnext] at hpaths
    rw [submitNextCacheLoad_nil hpaths, submitNextCacheLoad, if_neg (htotal ▸ hnext)]
    rfl

theorem toCacheLoad_receive (htotal : s.total = paths.length)
    (hs : s.step (fun k => load (paths.getD k "") k) .receive = some s') :
    ∃ acts, (∀ a ∈ acts, a ≠ .submit false) ∧
      Machine.run (CacheLoad.step load) (s.toCacheLoad paths) acts = some (s'.toCacheLoad paths) := by
  simp only [step] at hs
  split at hs
  · rename_i hphase
    split_ifs at hs with hmore
    cases hrecv : s.pool.recv with
    | none =>
        rw [hrecv] at hs
        cases hs
    | some received =>
        obtain ⟨result, pool⟩ := received
        rw [hrecv] at hs
        obtain rfl := Option.some.inj hs
        have hphase' : (s.toCacheLoad paths).phase = .receiving := by rw [toCacheLoad, hphase]
        have hrecv' : (s.toCacheLoad paths).pool.recv = some (result, pool.mapJobs fun k => (k, paths.getD k "")) := by
          rw [toCacheLoad, Pool.mapJobs_recv, hrecv]
          rfl
        have hmore' : (s.toCacheLoad paths).results.length < (s.toCacheLoad paths).total := hmore
        cases result with
        | error error =>
            refine ⟨[.receive], fun a ha => by simp at ha; simp [ha], ?_⟩
            simp only [Machine.run, CacheLoad.step, hphase', if_pos hmore', hrecv']
            rfl
        | ok result =>
            by_cases hlt : s.scheduled < s.total
            · refine ⟨[.receive, .submit true], fun a ha => by simp at ha; rcases ha with rfl | rfl <;> simp, ?_⟩
              have hlt' : (s.toCacheLoad paths).scheduled < (s.toCacheLoad paths).total := hlt
              simp only [Machine.run, CacheLoad.step, hphase', if_pos hmore', hrecv', Option.bind_some, if_pos hlt']
              have hsubmit := toCacheLoad_submit paths (s := { s with pool, results := s.results ++ [result] }) htotal
                .refilling
              simp only [receiveResult, if_pos hlt]
              rw [← hsubmit]
              simp only [toCacheLoad, hphase]
            · refine ⟨[.receive, .proceed], fun a ha => by simp at ha; rcases ha with rfl | rfl <;> simp, ?_⟩
              have hlt' : ¬ (s.toCacheLoad paths).scheduled < (s.toCacheLoad paths).total := hlt
              simp only [Machine.run, CacheLoad.step, hphase', if_pos hmore', hrecv', Option.bind_some, if_neg hlt']
              simp only [receiveResult, if_neg hlt, toCacheLoad, hphase]
  · cases hs

/-- One step is one action of the shared pool's view, or two where a result is followed by the next job. -/
theorem toCacheLoad_step {a : CacheLoadAct} (htotal : s.total = paths.length)
    (hs : s.step (fun k => load (paths.getD k "") k) a = some s') :
    ∃ acts, (∀ b ∈ acts, b ≠ .submit false) ∧
      Machine.run (CacheLoad.step load) (s.toCacheLoad paths) acts = some (s'.toCacheLoad paths) := by
  cases a with
  | receive => exact toCacheLoad_receive htotal hs
  | submit =>
      simp only [step] at hs
      split at hs
      · rename_i hphase
        split_ifs at hs with hroom
        obtain rfl := Option.some.inj hs
        have hphase' : (s.toCacheLoad paths).phase = .filling := by rw [toCacheLoad, hphase]
        have hroom' : (s.toCacheLoad paths).scheduled < (s.toCacheLoad paths).parallelism := hroom
        refine ⟨[.submit true], by simp, ?_⟩
        have hsubmit := toCacheLoad_submit paths htotal (s.toCacheLoad paths).phase
        rw [Machine.run, CacheLoad.step, hphase', if_pos hroom', Option.bind_some, Machine.run]
        exact congrArg some (hphase' ▸ hsubmit)
      · cases hs
  | leave =>
      simp only [step] at hs
      split at hs
      · rename_i hphase
        split_ifs at hs with hroom
        obtain rfl := Option.some.inj hs
        have hphase' : (s.toCacheLoad paths).phase = .filling := by rw [toCacheLoad, hphase]
        have hroom' : ¬ (s.toCacheLoad paths).scheduled < (s.toCacheLoad paths).parallelism := hroom
        refine ⟨[.proceed], by simp, ?_⟩
        simp only [Machine.run, CacheLoad.step, hphase', if_neg hroom']
        rfl
      · cases hs
  | finish =>
      simp only [step] at hs
      split at hs
      · rename_i hphase
        split_ifs at hs with hmore
        obtain rfl := Option.some.inj hs
        have hphase' : (s.toCacheLoad paths).phase = .receiving := by rw [toCacheLoad, hphase]
        have hmore' : ¬ (s.toCacheLoad paths).results.length < (s.toCacheLoad paths).total := hmore
        refine ⟨[.proceed], by simp, ?_⟩
        simp only [Machine.run, CacheLoad.step, hphase', if_neg hmore']
        rfl
      · cases hs
  | start =>
      simp only [step] at hs
      cases hstart : s.pool.start id with
      | none =>
          rw [hstart] at hs
          cases hs
      | some pool =>
          rw [hstart] at hs
          obtain rfl := Option.some.inj hs
          have hstart' := Pool.mapJobs_start (fun k => (k, paths.getD k "")) s.pool
          rw [hstart] at hstart'
          refine ⟨[.start], by simp, ?_⟩
          simp only [Machine.run, CacheLoad.step, toCacheLoad, hstart']
          rfl
  | complete i =>
      simp only [step] at hs
      cases hcomplete : s.pool.complete (jobResult fun k => load (paths.getD k "") k) i with
      | none =>
          rw [hcomplete] at hs
          cases hs
      | some pool =>
          rw [hcomplete] at hs
          obtain rfl := Option.some.inj hs
          have hcomplete' : (s.pool.mapJobs fun k => (k, paths.getD k "")).complete (CacheLoad.jobResult load) i =
              (s.pool.complete (jobResult fun k => load (paths.getD k "") k) i).map
                (Pool.mapJobs fun k => (k, paths.getD k "")) :=
            Pool.mapJobs_complete _ _ (fun _ => rfl) i
          rw [hcomplete] at hcomplete'
          refine ⟨[.complete i], by simp, ?_⟩
          simp only [Machine.run, CacheLoad.step, toCacheLoad, hcomplete']
          rfl

/-- **The two views of `load_caches`.**  Every run is one of the call as the shared pool sees it, with every submission
accepted. -/
theorem exists_cacheLoad_run (hpaths : paths ≠ []) {numWorkers : Positive} {as : List CacheLoadAct}
    (hrun : Machine.run (step fun k => load (paths.getD k "") k) (begin paths.length numWorkers) as = some s) :
    ∃ acts, (∀ b ∈ acts, b ≠ .submit false) ∧
      Machine.run (CacheLoad.step load) (CacheLoad.new paths numWorkers) acts = some (s.toCacheLoad paths) := by
  have hn : 0 < paths.length := List.length_pos_iff.mpr hpaths
  obtain ⟨acts, t, haccepted, hacts, -, rfl⟩ := Machine.run_simulation _ (CacheLoad.step load)
    (fun s t => Inv (fun k => load (paths.getD k "") k) paths.length numWorkers s ∧ t = s.toCacheLoad paths)
    (fun b => b ≠ .submit false) (fun s a s' t hst hs => by
      obtain ⟨hinv, rfl⟩ := hst
      obtain ⟨acts, haccepted, hacts⟩ := toCacheLoad_step hinv.shape.1 hs
      exact ⟨acts, _, haccepted, hacts, inv_step hinv hs, rfl⟩)
    ⟨inv_begin hn, (toCacheLoad_begin hpaths numWorkers).symm⟩ hrun
  exact ⟨acts, haccepted, hacts⟩

end simulation

end CacheLoading

/-! ### The caches of a dataset -/

section caches

variable (L : StorageLib) (fs : FileTree) (paths : List Path) (validate : Bool)

/-- The job of one position. -/
def loadAt (position : ℕ) : CacheResult LoadedCache := loadCache L fs (paths.getD position []) validate position

/-- The paths are loaded one after the other. -/
def loadedInOrder : CacheResult (List LoadedCache) := (List.range paths.length).mapM (loadAt L fs paths validate)

end caches

/-- **Parallel loading.**  In every run of `load_caches` at most as many jobs are out as there are workers or paths and
no path is loaded twice.  The call is over after boundedly many steps, and until then some step is possible.  It returns
the caches exactly when every path loads, all loaded once, and these are the caches in the order of the paths with the
identities of their positions, so that the dataset does not depend on the run.  Without paths it returns an error. -/
theorem load_caches_ordered (L : StorageLib) (fs : FileTree) (paths : List Path) (validate : Bool)
    (numWorkers : Positive) {as : List CacheLoadAct} {s : CacheLoading LoadedCache}
    (hrun : Machine.run (CacheLoading.step (loadAt L fs paths validate)) (CacheLoading.begin paths.length numWorkers) as =
      some s) :
    s.pool.queued.length + s.pool.running.length + s.pool.output.length ≤ min numWorkers.1 paths.length ∧
    s.loads.Nodup ∧
    as.length ≤ 4 * paths.length + 2 ∧
    ((∀ outcome, s.phase ≠ .returned outcome) → ∃ a, (s.step (loadAt L fs paths validate) a).isSome = true) ∧
    (paths = [] → s.phase = .returned (.error (.invalidInput "channel capacity must be positive"))) ∧
    (paths ≠ [] → ∀ outcome, s.phase = .returned outcome →
      (outcome.isOk = true ↔ ∀ k < paths.length, (loadAt L fs paths validate k).isOk = true) ∧
      (outcome.isOk = true → outcome = loadedInOrder L fs paths validate ∧ s.loads = List.range paths.length ∧
        ∀ seed prefetchSize numWorkers' shuffle,
          Dataset.load (fun _ => outcome) paths seed prefetchSize numWorkers' shuffle =
          Dataset.load (fun _ => loadedInOrder L fs paths validate) paths seed prefetchSize numWorkers' shuffle) ∧
      ∀ caches, outcome = .ok caches → caches.length = paths.length ∧ ∀ k path cache, paths[k]? = some path →
        caches[k]? = some cache → loadCache L fs path validate k = .ok cache ∧
          cache.manifest.resolveCacheId k = .ok cache.cacheId) := by
  by_cases hpaths : paths = []
  · subst hpaths
    obtain ⟨rfl, rfl⟩ := CacheLoading.run_begin_zero hrun
    exact ⟨Nat.zero_le _, List.nodup_nil, Nat.zero_le _, fun hnot => absurd CacheLoading.begin_zero_phase (hnot _),
      fun _ => CacheLoading.begin_zero_phase, fun hne => absurd rfl hne⟩
  have hn : 0 < paths.length := List.length_pos_iff.mpr hpaths
  have hinv := CacheLoading.inv_run hn hrun
  obtain ⟨htotal, hparallelism, -⟩ := hinv.shape
  refine ⟨hparallelism ▸ hinv.outstanding, ?_, CacheLoading.run_length_le hn hrun, CacheLoading.progress hn hinv,
    fun hnil => absurd hnil hpaths, fun _ outcome hret => ?_⟩
  · have hnodup : (s.loads ++ s.pool.queued).Nodup := hinv.loads ▸ List.nodup_range
    exact (List.nodup_append.mp hnodup).1
  have hover := hinv.phase outcome hret
  have hcorrect := hover.correct
  rw [htotal] at hcorrect
  cases outcome with
  | error error =>
      obtain ⟨k, hk, herror⟩ := hcorrect
      refine ⟨⟨fun h => (by cases h), fun h => ?_⟩, fun h => (by cases h), fun caches h => (by cases h)⟩
      have hok := h k hk
      rw [herror] at hok
      cases hok
  | ok caches =>
      have hloaded : loadedInOrder L fs paths validate = .ok caches := hcorrect
      obtain ⟨hscheduled, hqueued⟩ := hover.settled rfl
      have hloads := hinv.loads
      rw [hqueued, List.append_nil, hscheduled, htotal] at hloads
      obtain ⟨hlength, hall⟩ := mapM_eq_ok_iff_getElem.mp hcorrect
      rw [List.length_range] at hlength
      have hat : ∀ k (hk : k < caches.length), loadAt L fs paths validate k = .ok caches[k] := by
        intro k hk
        have hone := hall k (by rw [List.length_range]; omega) hk
        rwa [List.getElem_range] at hone
      refine ⟨⟨fun _ k hk => ?_, fun _ => rfl⟩, fun _ => ⟨hloaded.symm, hloads, fun _ _ _ _ => by rw [hloaded]⟩,
        fun caches' hcaches => ?_⟩
      · rw [hat k (by omega)]
        rfl
      · cases hcaches
        refine ⟨hlength.symm, fun k path cache hpath hcache => ?_⟩
        obtain ⟨hk, rfl⟩ := List.getElem?_eq_some_iff.mp hcache
        have hload := hat k hk
        rw [loadAt, List.getD_eq_getElem?_getD, hpath, Option.getD_some] at hload
        exact ⟨hload, (loadedFrom_of_loadCache hload).cacheId⟩

namespace TwoCaches

/-- A cache without samples of the first format. -/
def manifest : Manifest :=
  .v2
    { sourceName := "a"
      sampleCount := 0
      metadataSchema := []
      metadataSha256 := hexEncode SharedShard.arrowSha256
      indexSha256 := hexEncode SharedShard.emptySha256
      shards := []
      extra := ∅ }

/-- The manifest is the only text that is parsed. -/
def lib : StorageLib :=
  let shared := SharedShard.lib "000000.bin"
  { shared with json := { shared.json with parse := fun _ => .ok manifest.toJson } }

/-- There is no float in it. -/
def manifestText : Bytes := manifest.toJson.text fun _ => ""

/-- The cache is at two places. -/
def fs : FileTree := fun q =>
  if q = ["x", "manifest.json"] ∨ q = ["y", "manifest.json"] then some (.file manifestText)
  else if q = ["x", "index.bin"] ∨ q = ["y", "index.bin"] then some (.file [])
  else if q = ["x", "metadata.arrow"] ∨ q = ["y", "metadata.arrow"] then some (.file SharedShard.arrowBytes)
  else if q = [] ∨ q = ["x"] ∨ q = ["y"] then some .dir
  else none

/-- Both jobs run at once, and the second ends first. -/
def acts : List CacheLoadAct :=
  [.submit, .submit, .leave, .start, .start, .complete 1, .receive, .complete 0, .receive, .finish]

end TwoCaches

open TwoCaches in
/-- Two workers load two caches, the second before the first; each has the identity of its place. -/
theorem load_caches_ordered_reversed : ∃ s caches,
    Machine.run (CacheLoading.step (loadAt lib fs [["x"], ["y"]] true)) (CacheLoading.begin 2 ⟨2, Nat.two_pos⟩) acts =
      some s ∧ s.results.map CacheLoadResult.position = [1, 0] ∧ s.loads = [0, 1] ∧ s.phase = .returned (.ok caches) ∧
      caches.map (fun cache => (cache.path, cache.cacheId)) = [(["x"], 0), (["y"], 1)] := by
  obtain ⟨s, hrun, hresults, hloads, caches, hret⟩ :
      ∃ s, Machine.run (CacheLoading.step (loadAt lib fs [["x"], ["y"]] true)) (CacheLoading.begin 2 ⟨2, Nat.two_pos⟩)
        acts = some s ∧ s.results.map CacheLoadResult.position = [1, 0] ∧ s.loads = [0, 1] ∧
        ∃ caches, s.phase = .returned (.ok caches) := ⟨_, rfl, rfl, rfl, _, rfl⟩
  have hordered := load_caches_ordered lib fs [["x"], ["y"]] true ⟨2, Nat.two_pos⟩ hrun
  obtain ⟨-, hinOrder, -⟩ := hordered.2.2.2.2.2 (List.cons_ne_nil _ _) _ hret
  have hcaches : (loadedInOrder lib fs [["x"], ["y"]] true).map
      (List.map fun cache => (cache.path, cache.cacheId)) = .ok [(["x"], 0), (["y"], 1)] := rfl
  rw [← (hinOrder rfl).1] at hcaches
  exact ⟨s, caches, hrun, hresults, hloads, hret, Except.ok.inj hcaches⟩

open SharedShard in
/-- Without paths there is nothing that could fail, and yet the call fails; and a call that failed leaves the later
paths alone. -/
theorem load_caches_empty_or_failed :
    ((∀ k < ([] : List Path).length, (loadAt (lib "000000.bin") fs [] true k).isOk = true) ∧
      (CacheLoading.begin ([] : List Path).length ⟨1, by decide⟩ : CacheLoading LoadedCache).phase =
        .returned (.error (.invalidInput "channel capacity must be positive"))) ∧
    ∃ s error, Machine.run (CacheLoading.step (loadAt (lib "000000.bin") fs [["x"], ["d", "a"]] true))
        (CacheLoading.begin 2 ⟨1, by decide⟩) [.submit, .leave, .start, .complete 0, .receive] = some s ∧
      s.phase = .returned (.error error) ∧ s.loads = [0] ∧
      ∀ a, s.step (loadAt (lib "000000.bin") fs [["x"], ["d", "a"]] true) a = none := by
  refine ⟨⟨fun k hk => absurd hk (Nat.not_lt_zero k), rfl⟩, _, _, rfl, rfl, rfl, fun a => ?_⟩
  cases a with
  | complete i => rfl
  | _ => rfl

end DatasetRt
