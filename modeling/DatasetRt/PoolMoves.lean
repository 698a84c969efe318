import DatasetRt.ReaderOrder
import DatasetRt.WriteBuffer
import DatasetRt.PoolOperations

/-! # What an operation does to the pool

The pool knows nothing of the samples, events and caches that its jobs carry.  `PoolView` is what is
left of an operation's share of the pool without them, and `Moves` is everything that a step can do to
it: the calling thread queues one job, takes one result or drops its receiver, and a worker takes the
oldest job or delivers a result.

* `OperationKind` is an operation as the pool sees it: a step machine with a view of its pool.
* `Credited` is what keeps a worker from waiting: every step is a move, and while the receiver is alive
  the jobs and the results of the operation fit into its channel.

Each operation keeps its credits in its own way; the invariants below give `Credited` for all of them. -/

namespace DatasetRt

/-- An operation's share of the pool, without what the jobs and results are. -/
@[ext] structure PoolView where
  workers : ℕ
  capacity : ℕ
  queued : ℕ
  running : ℕ
  output : ℕ
  isOpen : Bool

def Pool.view {J R : Type} (p : Pool J R) : PoolView :=
  ⟨p.workers, p.capacity, p.queued.length, p.running.length, p.output.length, p.isOpen⟩

inductive WorkerAct where
  | start
  /-- The `i`-th running job of the operation ends. -/
  | complete (i : ℕ)

namespace PoolView

/-- The jobs and results of an operation. -/
def size (v : PoolView) : ℕ := v.queued + v.running + v.output

def new (workers capacity : ℕ) : PoolView := ⟨workers, capacity, 0, 0, 0, true⟩

/-- What a step of the calling thread (`none`) or of a worker can do. -/
inductive Moves : Option WorkerAct → PoolView → PoolView → Prop
  | keep (v : PoolView) : Moves none v v
  | submit (v : PoolView) : Moves none v { v with queued := v.queued + 1 }
  | recv (v : PoolView) (n : ℕ) : v.output = n + 1 → Moves none v { v with output := n }
  | close (v : PoolView) : Moves none v { v with output := 0, isOpen := false }
  | start (v : PoolView) (n : ℕ) : v.queued = n + 1 → v.running < v.workers →
      Moves (some .start) v { v with queued := n, running := v.running + 1 }
  | deliver (v : PoolView) (i n : ℕ) : v.running = n + 1 → v.isOpen = true → v.output < v.capacity →
      Moves (some (.complete i)) v { v with running := n, output := v.output + 1 }
  | discard (v : PoolView) (i n : ℕ) : v.running = n + 1 → v.isOpen = false →
      Moves (some (.complete i)) v { v with running := n }

theorem Moves.frame {who : Option WorkerAct} {v v' : PoolView} (h : Moves who v v') :
    v'.workers = v.workers ∧ v'.capacity = v.capacity := by
  cases h <;> exact ⟨rfl, rfl⟩

end PoolView

namespace Pool

variable {J R : Type} {p p' : Pool J R}

theorem moves_submit (p : Pool J R) (job : J) : PoolView.Moves none p.view (p.submit job).view := by
  have h : (p.submit job).view = { p.view with queued := p.view.queued + 1 } := by
    simp [view, submit]
  rw [h]
  exact .submit p.view

theorem moves_recv {r : R} (h : p.recv = some (r, p')) : PoolView.Moves none p.view p'.view := by
  obtain ⟨rest, hout, rfl⟩ := recv_eq_some h
  exact .recv p.view rest.length (by simp [view, hout])

/-- A result that is received before the receiver is dropped leaves no trace. -/
theorem view_recv_close {r : R} (h : p.recv = some (r, p')) : p'.close.view = p.close.view := by
  obtain ⟨rest, -, rfl⟩ := recv_eq_some h
  rfl

theorem moves_close (p : Pool J R) : PoolView.Moves none p.view p.close.view := .close p.view

theorem moves_start {enter : J → J} (h : p.start enter = some p') :
    PoolView.Moves (some .start) p.view p'.view := by
  obtain ⟨job, rest, hq, hw, rfl⟩ := start_eq_some h
  have hview : ({ p with queued := rest, running := p.running ++ [enter job] } : Pool J R).view =
      { p.view with queued := rest.length, running := p.view.running + 1 } := by
    simp [view]
  rw [hview]
  exact .start p.view rest.length (by simp [view, hq]) hw

theorem moves_complete {result : J → R} {i : ℕ} (h : p.complete result i = some p') :
    PoolView.Moves (some (.complete i)) p.view p'.view := by
  obtain ⟨job, hjob, hp⟩ := complete_eq_some h
  obtain ⟨hi, -⟩ := List.getElem?_eq_some_iff.mp hjob
  have hlen : p.view.running = (p.running.eraseIdx i).length + 1 := by
    rw [List.length_eraseIdx_of_lt hi]
    simp only [view]
    omega
  rcases hp with ⟨hopen, hroom, rfl⟩ | ⟨hclosed, rfl⟩
  · have hview : ({ p with running := p.running.eraseIdx i, output := p.output ++ [result job] } : Pool J R).view =
        { p.view with running := (p.running.eraseIdx i).length, output := p.view.output + 1 } := by
      simp [view]
    rw [hview]
    exact .deliver p.view i _ hlen hopen hroom
  · exact .discard p.view i _ hlen hclosed

theorem start_enabled (p : Pool J R) (enter : J → J) (hq : 0 < p.queued.length)
    (hw : p.running.length < p.workers) : ∃ p', p.start enter = some p' := by
  cases hc : p.queued with
  | nil => simp [hc] at hq
  | cons job rest => exact Option.isSome_iff_exists.mp (by simp only [start, hc, if_pos hw, Option.isSome_some])

/-- A running job can deliver when there is room, or nobody to receive. -/
theorem complete_enabled (p : Pool J R) (result : J → R) {i : ℕ} (hi : i < p.running.length)
    (hroom : p.isOpen = true → p.output.length < p.capacity) : ∃ p', p.complete result i = some p' := by
  have hjob : p.running[i]? = some p.running[i] := List.getElem?_eq_getElem hi
  refine Option.isSome_iff_exists.mp ?_
  by_cases hopen : p.isOpen = true
  · simp only [complete, hjob, hopen, if_true, if_pos (hroom hopen), Option.isSome_some]
  · simp only [complete, hjob, hopen, Bool.false_eq_true, if_false, Option.isSome_some]

end Pool

/-! ### Operations as the pool sees them -/

structure OperationKind where
  State : Type
  Act : Type
  step : State → Act → Option State
  /-- The worker's step that an action is, if it is one. -/
  worker : Act → Option WorkerAct
  view : State → PoolView

/-- The operation `kind`, begun in `init`, never has more jobs and results than its channel can hold. -/
structure Credited (kind : OperationKind) (numWorkers : Positive) (init : kind.State) : Prop where
  new : ∃ capacity, kind.view init = PoolView.new numWorkers.1 capacity
  invariant : ∃ Inv : kind.State → Prop, Inv init ∧
    (∀ s a s', Inv s → kind.step s a = some s' →
      Inv s' ∧ PoolView.Moves (kind.worker a) (kind.view s) (kind.view s')) ∧
    (∀ s, Inv s → (kind.view s).isOpen = true → (kind.view s).size ≤ (kind.view s).capacity)
  starts : ∀ s, 0 < (kind.view s).queued → (kind.view s).running < (kind.view s).workers →
    ∃ a s', kind.worker a = some .start ∧ kind.step s a = some s'
  completes : ∀ s i, i < (kind.view s).running →
    ((kind.view s).isOpen = true → (kind.view s).output < (kind.view s).capacity) →
    ∃ a s', kind.worker a = some (.complete i) ∧ kind.step s a = some s'

/-! ### The iterator -/

namespace Reader

variable {R : RandLib} {σ : Type} {read : ℕ → ℕ → CacheResult σ} {s s' : Reader R σ}

def kind (R : RandLib) (read : ℕ → ℕ → CacheResult σ) : OperationKind where
  State := Reader R σ
  Act := ReaderAct
  step := step read
  worker
    | .start => some .start
    | .complete i => some (.complete i)
    | _ => none
  view s := s.pool.view

theorem receiveResult_pool (r : CacheResult (LoadedResult σ)) : (s.receiveResult r).pool = s.pool := by
  cases r with
  | error e => rfl
  | ok loaded =>
      simp only [receiveResult]
      split_ifs <;> rfl

theorem scheduleError_moves (e : CacheError) :
    PoolView.Moves none s.pool.view (s.scheduleError e).pool.view := by
  unfold scheduleError
  split_ifs
  · exact Pool.moves_close s.pool
  · exact .keep _

theorem scheduleNext_cases (s : Reader R σ) (accepted : Bool) : ∃ plan,
    (∃ job, s.scheduleNext accepted = { s with plan, pool := s.pool.submit job, scheduled := s.scheduled + 1 }) ∨
      s.scheduleNext accepted = { s with plan }.scheduleError .workerFailed := by
  refine ⟨(s.plan.nextPhysicalIndex s.scheduled).2, ?_⟩
  cases hnext : (s.plan.nextPhysicalIndex s.scheduled).1 with
  | none => exact .inr (by simp only [scheduleNext, hnext])
  | some physicalIndex =>
      cases accepted with
      | true => exact .inl ⟨⟨s.scheduled, physicalIndex, false⟩, by simp only [scheduleNext, hnext, if_true]⟩
      | false => exact .inr (by simp only [scheduleNext, hnext, Bool.false_eq_true, if_false])

theorem step_moves {a : ReaderAct} (hs : s.step read a = some s') :
    PoolView.Moves ((kind R read).worker a) s.pool.view s'.pool.view := by
  cases a with
  | schedule accepted =>
      obtain ⟨-, ⟨-, rfl⟩ | ⟨-, rfl⟩⟩ := step_schedule hs
      · exact .keep _
      · obtain ⟨plan, ⟨job, heq⟩ | heq⟩ := scheduleNext_cases s accepted
        · rw [heq]
          exact Pool.moves_submit s.pool job
        · rw [heq]
          exact scheduleError_moves (s := { s with plan }) .workerFailed
  | scheduleDone =>
      rw [step, Option.ite_none_right_eq_some] at hs
      obtain ⟨-, hs⟩ := hs
      cases hw : s.wantsJob with
      | none => simp [hw] at hs
      | some want =>
          cases want <;> simp only [hw, Option.some.injEq, reduceCtorEq] at hs
          exact hs ▸ .keep _
  | call =>
      simp only [step] at hs
      split_ifs at hs <;> exact Option.some.inj hs ▸ .keep _
  | emit =>
      simp only [step] at hs
      split_ifs at hs
      cases hl : s.pending.lookup s.emitted with
      | none => simp [hl] at hs
      | some sample =>
          simp only [hl, Option.some.injEq] at hs
          exact hs ▸ .keep _
  | receive =>
      simp only [step] at hs
      split_ifs at hs
      cases hr : s.pool.recv with
      | none => simp [hr] at hs
      | some rp =>
          simp only [hr, Option.some.injEq] at hs
          subst hs
          rw [receiveResult_pool]
          exact Pool.moves_recv hr
  | start =>
      simp only [step] at hs
      cases hp : s.pool.start fun job => { job with skipped := s.cancelled } with
      | none => simp [hp] at hs
      | some pool =>
          simp only [hp, Option.some.injEq] at hs
          exact hs ▸ Pool.moves_start hp
  | complete i =>
      simp only [step] at hs
      cases hp : s.pool.complete (jobResult read s.cancelled) i with
      | none => simp [hp] at hs
      | some pool =>
          simp only [hp, Option.some.injEq] at hs
          exact hs ▸ Pool.moves_complete hp
  | drop =>
      simp only [step] at hs
      split_ifs at hs
      exact Option.some.inj hs ▸ Pool.moves_close s.pool

/-- The consumer can still schedule or receive. -/
def Active (s : Reader R σ) : Prop :=
  s.phase = .starting ∨ s.phase = .scheduling ∨ s.phase = .receiving ∨ (s.phase = .idle ∧ s.emitted < s.total)

/-- What is out or waits was scheduled and not emitted; after an error the credits are void, but what
is out still fits. -/
structure Credit (s : Reader R σ) : Prop where
  capacity : s.pool.capacity = s.parallelism
  fits : s.pool.isOpen = true → s.pool.size ≤ s.parallelism
  active : s.Active → s.emitted ≤ s.scheduled ∧ s.scheduled - s.emitted ≤ s.parallelism ∧
    s.pool.size + s.pending.keys.length ≤ s.scheduled - s.emitted

theorem Credit.fail (h : s.Credit) (e : CacheError) : (s.fail e).Credit where
  capacity := h.capacity
  fits := h.fits
  active hactive := by simp [Active, Reader.fail] at hactive

theorem Credit.drop (h : s.Credit) : s.drop.Credit where
  capacity := h.capacity
  fits hopen := by simp [Reader.drop, Pool.close] at hopen
  active hactive := by simp [Active, Reader.drop] at hactive

theorem Credit.scheduleError (h : s.Credit) (e : CacheError) : (s.scheduleError e).Credit := by
  unfold Reader.scheduleError
  split_ifs
  · exact h.drop
  · exact h.fail e

theorem Credit.with_pool (h : s.Credit) {pool : Pool ReadJob (CacheResult (LoadedResult σ))}
    (hcapacity : pool.capacity = s.pool.capacity) (hopen : pool.isOpen = s.pool.isOpen)
    (hsize : pool.size ≤ s.pool.size) : Credit { s with pool } where
  capacity := hcapacity.trans h.capacity
  fits ho := hsize.trans (h.fits (hopen ▸ ho))
  active hactive := by
    obtain ⟨hle, hwindow, hout⟩ := h.active hactive
    exact ⟨hle, hwindow, by show pool.size + s.pending.keys.length ≤ s.scheduled - s.emitted; omega⟩

/-- The window has a free place, so one more job fits. -/
theorem Credit.submit (h : s.Credit) (hactive : s.Active) (hroom : s.scheduled - s.emitted < s.parallelism)
    (plan : EpochPlan R) (job : ReadJob) :
    Credit { s with plan, pool := s.pool.submit job, scheduled := s.scheduled + 1 } := by
  obtain ⟨hle, hwindow, hout⟩ := h.active hactive
  have hsize : (s.pool.submit job).size = s.pool.size + 1 := by
    simp only [Pool.size, Pool.submit, List.length_append, List.length_singleton]
    omega
  refine ⟨h.capacity, fun _ => ?_, fun _ => ⟨?_, ?_, ?_⟩⟩
  · show (s.pool.submit job).size ≤ s.parallelism
    omega
  · show s.emitted ≤ s.scheduled + 1
    omega
  · show s.scheduled + 1 - s.emitted ≤ s.parallelism
    omega
  · show (s.pool.submit job).size + s.pending.keys.length ≤ s.scheduled + 1 - s.emitted
    omega

/-- A sample is returned: it left the channel or the waiting samples. -/
theorem Credit.emitSample (h : s.Credit) (pool : Pool ReadJob (CacheResult (LoadedResult σ)))
    (pending : AList fun _ : ℕ => σ) (hactive : s.Active) (hcapacity : pool.capacity = s.pool.capacity)
    (hopen : pool.isOpen = s.pool.isOpen) (hsize : pool.size ≤ s.pool.size)
    (hone : pool.size + pending.keys.length + 1 = s.pool.size + s.pending.keys.length) (sample : σ) :
    Credit ({ s with pool, pending }.emitSample sample) := by
  obtain ⟨hle, hwindow, hout⟩ := h.active hactive
  refine ⟨hcapacity.trans h.capacity, fun ho => hsize.trans (h.fits (hopen ▸ ho)), fun _ => ⟨?_, ?_, ?_⟩⟩
  · show s.emitted + 1 ≤ s.scheduled
    omega
  · show s.scheduled - (s.emitted + 1) ≤ s.parallelism
    omega
  · show pool.size + pending.keys.length ≤ s.scheduled - (s.emitted + 1)
    omega

theorem Credit.receiveResult (h : s.Credit) (hphase : s.phase = .receiving) {r : CacheResult (LoadedResult σ)}
    {pool : Pool ReadJob (CacheResult (LoadedResult σ))} (hr : s.pool.recv = some (r, pool)) :
    Credit ({ s with pool }.receiveResult r) := by
  have hactive : s.Active := .inr (.inr (.inl hphase))
  obtain ⟨rest, hout, hpool⟩ := Pool.recv_eq_some hr
  have hsize : pool.size + 1 = s.pool.size := by
    simp only [hpool, Pool.size, hout, List.length_cons]
    omega
  have hcapacity : pool.capacity = s.pool.capacity := by rw [hpool]
  have hopen : pool.isOpen = s.pool.isOpen := by rw [hpool]
  have hreceived : Credit { s with pool } := h.with_pool hcapacity hopen (by omega)
  cases r with
  | error e => exact hreceived.fail e
  | ok loaded =>
      by_cases hnext : loaded.sequence = s.emitted
      · rw [Reader.receiveResult, if_pos hnext]
        exact h.emitSample _ s.pending hactive hcapacity hopen (by omega) (by omega) _
      · -- the sample moves from the channel to the waiting ones
        have hinserted : Credit { s with pool, pending := s.pending.insert loaded.sequence loaded.result } := by
          refine ⟨hreceived.capacity, hreceived.fits, fun _ => ?_⟩
          obtain ⟨hle, hwindow, hbound⟩ := h.active hactive
          have hinsert := WritePipeline.pending_insert_le s.pending loaded.sequence loaded.result
          refine ⟨hle, hwindow, ?_⟩
          simp only
          omega
        rw [Reader.receiveResult, if_neg hnext]
        simp only
        split_ifs
        · exact hinserted.fail _
        · exact hinserted

theorem credit_step {a : ReaderAct} (h : s.Credit) (hs : s.step read a = some s') : s'.Credit := by
  cases a with
  | schedule accepted =>
      obtain ⟨hphase, ⟨hwant, rfl⟩ | ⟨hwant, rfl⟩⟩ := step_schedule hs
      · exact ⟨h.capacity, h.fits, fun hactive => by simp [Active] at hactive⟩
      · have hactive : s.Active := by
          rcases hphase with hp | hp
          · exact .inl hp
          · exact .inr (.inl hp)
        rw [wantsJob, if_pos (h.active hactive).1] at hwant
        obtain ⟨hroom, -⟩ := of_decide_eq_true (Option.some.inj hwant)
        obtain ⟨plan, ⟨job, heq⟩ | heq⟩ := scheduleNext_cases s accepted
        · rw [heq]
          exact h.submit hactive hroom plan job
        · rw [heq]
          exact Credit.scheduleError (s := { s with plan }) ⟨h.capacity, h.fits, h.active⟩ _
  | scheduleDone =>
      rw [step, Option.ite_none_right_eq_some] at hs
      obtain ⟨hphase, hs⟩ := hs
      have hactive : s.Active := by
        rcases hphase with hp | hp
        · exact .inl hp
        · exact .inr (.inl hp)
      cases hw : s.wantsJob with
      | none => simp [hw] at hs
      | some want =>
          cases want <;> simp only [hw, Option.some.injEq, reduceCtorEq] at hs
          subst hs
          exact ⟨h.capacity, h.fits, fun _ => h.active hactive⟩
  | call =>
      rw [step, Option.ite_none_right_eq_some] at hs
      obtain ⟨hphase, hs⟩ := hs
      split_ifs at hs with hend
      · obtain rfl := Option.some.inj hs
        exact ⟨h.capacity, h.fits, h.active⟩
      · obtain rfl := Option.some.inj hs
        exact ⟨h.capacity, h.fits, fun _ => h.active (.inr (.inr (.inr ⟨hphase, Nat.lt_of_not_le hend⟩)))⟩
  | emit =>
      rw [step, Option.ite_none_right_eq_some] at hs
      obtain ⟨hphase, hs⟩ := hs
      cases hl : s.pending.lookup s.emitted with
      | none => simp [hl] at hs
      | some sample =>
          simp only [hl, Option.some.injEq] at hs
          subst hs
          have hmem : s.emitted ∈ s.pending.keys := by
            rw [← AList.mem_keys, ← AList.lookup_isSome, hl]; rfl
          have hone : (s.pending.erase s.emitted).keys.length + 1 = s.pending.keys.length := by
            have hpos := List.length_pos_of_mem hmem
            rw [AList.keys_erase, List.length_erase_of_mem hmem]
            omega
          exact h.emitSample s.pool _ (.inr (.inr (.inl hphase))) rfl rfl (le_refl _) (by omega) sample
  | receive =>
      rw [step, Option.ite_none_right_eq_some] at hs
      obtain ⟨⟨hphase, -⟩, hs⟩ := hs
      cases hr : s.pool.recv with
      | none => simp [hr] at hs
      | some rp =>
          simp only [hr, Option.some.injEq] at hs
          exact hs ▸ h.receiveResult hphase hr
  | start =>
      simp only [step] at hs
      cases hp : s.pool.start fun job => { job with skipped := s.cancelled } with
      | none => simp [hp] at hs
      | some pool =>
          simp only [hp, Option.some.injEq] at hs
          subst hs
          have hsize := WritePipeline.size_start hp
          obtain ⟨job, rest, -, -, rfl⟩ := Pool.start_eq_some hp
          exact h.with_pool rfl rfl hsize.le
  | complete i =>
      simp only [step] at hs
      cases hp : s.pool.complete (jobResult read s.cancelled) i with
      | none => simp [hp] at hs
      | some pool =>
          simp only [hp, Option.some.injEq] at hs
          subst hs
          have hsize := WritePipeline.size_complete hp
          obtain ⟨job, -, ⟨-, -, rfl⟩ | ⟨-, rfl⟩⟩ := Pool.complete_eq_some hp <;> exact h.with_pool rfl rfl hsize
  | drop =>
      rw [step, Option.ite_none_right_eq_some] at hs
      exact Option.some.inj hs.2 ▸ h.drop

theorem pool_credited (plan : EpochPlan R) (read : ℕ → ℕ → CacheResult σ) (prefetchSize numWorkers : Positive) :
    Credited (kind R read) numWorkers (begin plan prefetchSize numWorkers) where
  new := ⟨_, rfl⟩
  invariant := by
    refine ⟨Credit, ⟨rfl, fun _ => Nat.zero_le _, fun _ => ⟨le_refl _, Nat.zero_le _, le_refl _⟩⟩,
      fun _ _ _ h hs => ⟨credit_step h hs, step_moves hs⟩, fun s h hopen => ?_⟩
    show s.pool.size ≤ s.pool.capacity
    rw [h.capacity]
    exact h.fits hopen
  starts s hq hw := by
    obtain ⟨pool, hp⟩ := s.pool.start_enabled (fun job => { job with skipped := s.cancelled }) hq hw
    exact ⟨.start, { s with pool }, rfl, by simp only [kind, step, hp]⟩
  completes s i hi hroom := by
    obtain ⟨pool, hp⟩ := s.pool.complete_enabled (jobResult read s.cancelled) hi hroom
    exact ⟨.complete i, { s with pool }, rfl, by simp only [kind, step, hp]⟩

end Reader

/-! ### The write pipelines -/

namespace WritePipeline

variable {ι β : Type} {K : Committer ι β} {s s' : WritePipeline ι β}

def kind (K : Committer ι β) : OperationKind where
  State := WritePipeline ι β
  Act := WriteAct ι
  step := step K
  worker
    | .start => some .start
    | .complete i => some (.complete i)
    | _ => none
  view s := s.pool.view

/-- `finish` returned, or the pipeline was dropped. -/
def isOver : WritePhase ι → Bool
  | .finished _ => true
  | .abandoned => true
  | _ => false

/-- The receiver is dropped with the pipeline. -/
def Shut (s : WritePipeline ι β) : Prop := isOver s.phase = true → s.pool.isOpen = false

theorem raise_moves (s : WritePipeline ι β) (e : CacheError) :
    PoolView.Moves none s.pool.view (s.raise K e).pool.view ∧ (s.raise K e).Shut := by
  unfold raise Shut
  cases s.phase with
  | finishing => exact ⟨Pool.moves_close s.pool, fun _ => rfl⟩
  | draining => exact ⟨Pool.moves_close s.pool, fun _ => rfl⟩
  | _ => exact ⟨.keep _, fun h => by simp [isOver] at h⟩

/-- An error that comes with a result closes the channel the result was taken from. -/
theorem raise_recv_moves {r : CacheResult (Message ι)} {pool : Pool (Message ι) (CacheResult (Message ι))}
    {t : WritePipeline ι β} (hr : s.pool.recv = some (r, pool)) (ht : t.pool = pool) (e : CacheError) :
    PoolView.Moves none s.pool.view (t.raise K e).pool.view ∧ (t.raise K e).Shut := by
  refine ⟨?_, (raise_moves t e).2⟩
  have hclose : PoolView.Moves none s.pool.view t.pool.close.view := by
    rw [ht, Pool.view_recv_close hr]
    exact Pool.moves_close s.pool
  unfold raise
  cases t.phase with
  | finishing => exact hclose
  | draining => exact hclose
  | _ =>
      show PoolView.Moves none s.pool.view t.pool.view
      rw [ht]
      exact Pool.moves_recv hr

theorem wantsResult_over (h : s.wantsResult = true) : isOver s.phase = false := by
  unfold wantsResult at h
  cases hp : s.phase <;> simp [hp] at h <;> rfl

theorem credited_over {phase : WritePhase ι} (h : isOver phase = false) : isOver (credited phase) = false := by
  cases phase <;> first | rfl | exact h

theorem receive_moves (hs : s.step K .receive = some s') :
    PoolView.Moves none s.pool.view s'.pool.view ∧ s'.Shut := by
  rw [step, Option.ite_none_right_eq_some] at hs
  obtain ⟨hwant, hs⟩ := hs
  have hover := wantsResult_over hwant
  cases hr : s.pool.recv with
  | none => simp [hr] at hs
  | some rp =>
      obtain ⟨r, pool⟩ := rp
      have hpool := (buffered_completeOne (K := K) { s with pool } r).2
      have hphase := (completeOne_frame (K := K) { s with pool } r).2
      simp only [hr] at hs
      split at hs
      · rename_i t heq
        obtain rfl := Option.some.inj hs
        rw [heq] at hpool hphase
        refine ⟨?_, fun hclosed => ?_⟩
        · show PoolView.Moves none s.pool.view t.pool.view
          rw [hpool]
          exact Pool.moves_recv hr
        · have hfalse : isOver (credited t.phase) = false := credited_over (hphase ▸ hover)
          exact absurd (hfalse.symm.trans hclosed) (by decide)
      · rename_i t e heq
        obtain rfl := Option.some.inj hs
        rw [heq] at hpool hphase
        exact raise_recv_moves hr hpool e

theorem step_moves {a : WriteAct ι} (hshut : s.Shut) (hs : s.step K a = some s') :
    PoolView.Moves ((kind K).worker a) s.pool.view s'.pool.view ∧ s'.Shut := by
  cases a with
  | submit item =>
      cases hp : s.phase <;> simp only [step, hp, Option.some.injEq, reduceCtorEq] at hs
      subst hs
      unfold send
      split_ifs
      · exact raise_moves s _
      · exact ⟨.keep _, fun h => by simp [isOver] at h⟩
      · exact ⟨.keep _, fun h => by simp [isOver] at h⟩
  | enqueue accepted =>
      cases hp : s.phase <;> simp only [step, hp, reduceCtorEq] at hs
      rename_i message
      split_ifs at hs
      · obtain rfl := Option.some.inj hs
        unfold enqueued
        cases checkedAdd s.sequence 1 with
        | some sequence => exact ⟨Pool.moves_submit s.pool message, fun h => by simp [isOver] at h⟩
        | none =>
            simp only [raise, hp]
            exact ⟨Pool.moves_submit s.pool message, fun h => by simp [isOver] at h⟩
      · obtain rfl := Option.some.inj hs
        exact raise_moves s _
  | receive => exact receive_moves hs
  | interrupt e =>
      rw [step, Option.ite_none_right_eq_some] at hs
      exact Option.some.inj hs.2 ▸ raise_moves s e
  | finish =>
      cases hp : s.phase <;> simp only [step, hp, Option.some.injEq, reduceCtorEq] at hs
      exact hs ▸ ⟨.keep _, fun h => by simp [isOver] at h⟩
  | finishIncomplete =>
      cases hp : s.phase <;> simp only [step, hp, Option.some.injEq, reduceCtorEq] at hs <;>
        exact hs ▸ ⟨.keep _, fun h => by simp [isOver] at h⟩
  | settle =>
      rw [step, Option.ite_none_right_eq_some] at hs
      obtain ⟨-, hs⟩ := hs
      cases hp : s.phase <;> simp only [hp, Option.some.injEq, reduceCtorEq] at hs
      · subst hs
        unfold close
        split_ifs
        · exact raise_moves s _
        · cases hf : (K.finish s.target).2 with
          | error error =>
              simp only [hf]
              exact raise_moves { s with target := (K.finish s.target).1 } error
          | ok done =>
              simp only [hf]
              exact ⟨Pool.moves_close s.pool, fun _ => rfl⟩
      · exact hs ▸ ⟨Pool.moves_close s.pool, fun _ => rfl⟩
  | drop =>
      cases hp : s.phase <;> simp only [step, hp, Option.some.injEq, reduceCtorEq] at hs <;>
        exact hs ▸ ⟨Pool.moves_close s.pool, fun _ => rfl⟩
  | start =>
      simp only [step] at hs
      cases hp : s.pool.start id with
      | none => simp [hp] at hs
      | some pool =>
          simp only [hp, Option.some.injEq] at hs
          subst hs
          refine ⟨Pool.moves_start hp, fun h => ?_⟩
          obtain ⟨job, rest, -, -, rfl⟩ := Pool.start_eq_some hp
          exact hshut h
  | complete i =>
      simp only [step] at hs
      cases hp : s.pool.complete .ok i with
      | none => simp [hp] at hs
      | some pool =>
          simp only [hp, Option.some.injEq] at hs
          subst hs
          refine ⟨Pool.moves_complete hp, fun h => ?_⟩
          obtain ⟨job, -, ⟨-, -, rfl⟩ | ⟨-, rfl⟩⟩ := Pool.complete_eq_some hp <;> exact hshut h

/-- The credits of a pipeline: what is out is what is in flight. -/
structure Credit (s : WritePipeline ι β) : Prop where
  inv : s.Inv
  shut : s.Shut
  capacity : s.pool.capacity = s.parallelism

theorem credit_step {a : WriteAct ι} (h : s.Credit) (hs : s.step K a = some s') : s'.Credit := by
  obtain ⟨hmoves, hshut⟩ := step_moves h.shut hs
  refine ⟨inv_step h.inv hs, hshut, ?_⟩
  exact hmoves.frame.2.trans (h.capacity.trans (step_parallelism hs).symm)

theorem Credit.fits (h : s.Credit) (hopen : s.pool.isOpen = true) : s.pool.size ≤ s.pool.capacity := by
  rcases h.inv with ⟨hl, -, -⟩ | hc
  · rw [hl.size_eq, h.capacity]
    exact hl.inFlight_le
  · have hover : isOver s.phase = true := by
      rcases hc.phase with hp | ⟨result, hp⟩ <;> rw [hp] <;> rfl
    exact absurd ((h.shut hover).symm.trans hopen) (by decide)

theorem pool_credited (K : Committer ι β) (target : β) (prefetchSize numWorkers : Positive) :
    Credited (kind K) numWorkers (new target prefetchSize numWorkers) where
  new := ⟨_, rfl⟩
  invariant := by
    refine ⟨Credit, ⟨inv_new, fun h => by simp [WritePipeline.new, isOver] at h, rfl⟩, fun s a s' h hs => ?_,
      fun s h hopen => h.fits hopen⟩
    exact ⟨credit_step h hs, (step_moves h.shut hs).1⟩
  starts s hq hw := by
    obtain ⟨pool, hp⟩ := s.pool.start_enabled id hq hw
    exact ⟨.start, { s with pool }, rfl, by simp only [kind, step, hp]⟩
  completes s i hi hroom := by
    obtain ⟨pool, hp⟩ := s.pool.complete_enabled .ok hi hroom
    exact ⟨.complete i, { s with pool }, rfl, by simp only [kind, step, hp]⟩

end WritePipeline

/-! ### Reading one sample -/

namespace GetItem

variable {σ : Type} {load : CacheResult σ} {s s' : GetItem σ}

def kind (load : CacheResult σ) : OperationKind where
  State := GetItem σ
  Act := GetItemAct
  step := step load
  worker
    | .start => some .start
    | .complete i => some (.complete i)
    | _ => none
  view s := s.pool.view

theorem step_moves {a : GetItemAct} (hs : s.step load a = some s') :
    PoolView.Moves ((kind load).worker a) s.pool.view s'.pool.view := by
  cases a with
  | submit accepted =>
      cases hp : s.phase <;> simp only [step, hp, reduceCtorEq] at hs
      split_ifs at hs
      · exact Option.some.inj hs ▸ Pool.moves_submit s.pool ()
      · exact Option.some.inj hs ▸ Pool.moves_close s.pool
  | receive =>
      cases hp : s.phase <;> simp only [step, hp, reduceCtorEq] at hs
      cases hr : s.pool.recv with
      | none => simp [hr] at hs
      | some rp =>
          simp only [hr, Option.some.injEq] at hs
          subst hs
          show PoolView.Moves none s.pool.view rp.2.close.view
          rw [Pool.view_recv_close hr]
          exact Pool.moves_close s.pool
  | start =>
      simp only [step] at hs
      cases hp : s.pool.start id with
      | none => simp [hp] at hs
      | some pool =>
          simp only [hp, Option.some.injEq] at hs
          exact hs ▸ Pool.moves_start hp
  | complete i =>
      simp only [step] at hs
      cases hp : s.pool.complete (fun _ => load) i with
      | none => simp [hp] at hs
      | some pool =>
          simp only [hp, Option.some.injEq] at hs
          exact hs ▸ Pool.moves_complete hp

/-- One job is submitted, and only once. -/
structure Credit (s : GetItem σ) : Prop where
  capacity : s.pool.capacity = 1
  submitting : s.phase = .submitting → s.pool.size = 0
  fits : s.pool.isOpen = true → s.pool.size ≤ 1

theorem credit_step {a : GetItemAct} (h : s.Credit) (hs : s.step load a = some s') : s'.Credit := by
  have hclosed : ∀ (pool : Pool Unit (CacheResult σ)) (result : CacheResult σ), pool.capacity = 1 →
      Credit (GetItem.ret { s with pool } result) := fun pool result hcapacity =>
    ⟨hcapacity, fun hp => by simp [ret] at hp, fun hopen => by simp [ret, Pool.close] at hopen⟩
  cases a with
  | submit accepted =>
      cases hp : s.phase <;> simp only [step, hp, reduceCtorEq] at hs
      split_ifs at hs
      · obtain rfl := Option.some.inj hs
        refine ⟨h.capacity, fun hp' => by simp at hp', fun _ => ?_⟩
        have hzero := h.submitting hp
        simp only [Pool.size, Pool.submit, List.length_append, List.length_singleton] at hzero ⊢
        omega
      · exact Option.some.inj hs ▸ hclosed s.pool _ h.capacity
  | receive =>
      cases hp : s.phase <;> simp only [step, hp, reduceCtorEq] at hs
      cases hr : s.pool.recv with
      | none => simp [hr] at hs
      | some rp =>
          simp only [hr, Option.some.injEq] at hs
          exact hs ▸ hclosed rp.2 rp.1 ((Pool.moves_recv hr).frame.2.trans h.capacity)
  | start =>
      simp only [step] at hs
      cases hp : s.pool.start id with
      | none => simp [hp] at hs
      | some pool =>
          simp only [hp, Option.some.injEq] at hs
          subst hs
          have hsize := WritePipeline.size_start hp
          obtain ⟨job, rest, -, -, rfl⟩ := Pool.start_eq_some hp
          exact ⟨h.capacity, fun hphase => hsize.trans (h.submitting hphase), fun hopen => hsize.trans_le (h.fits hopen)⟩
  | complete i =>
      simp only [step] at hs
      cases hp : s.pool.complete (fun _ => load) i with
      | none => simp [hp] at hs
      | some pool =>
          simp only [hp, Option.some.injEq] at hs
          subst hs
          have hsize := WritePipeline.size_complete hp
          have hzero : s.phase = .submitting → pool.size = 0 := fun hphase => by
            have := h.submitting hphase
            omega
          obtain ⟨job, -, ⟨-, -, rfl⟩ | ⟨-, rfl⟩⟩ := Pool.complete_eq_some hp <;>
            exact ⟨h.capacity, hzero, fun hopen => hsize.trans (h.fits hopen)⟩

theorem pool_credited (load : CacheResult σ) (numWorkers : Positive) :
    Credited (kind load) numWorkers (new numWorkers) where
  new := ⟨_, rfl⟩
  invariant := by
    refine ⟨Credit, ⟨rfl, fun _ => rfl, fun _ => Nat.zero_le _⟩,
      fun _ _ _ h hs => ⟨credit_step h hs, step_moves hs⟩, fun s h hopen => ?_⟩
    show s.pool.size ≤ s.pool.capacity
    rw [h.capacity]
    exact h.fits hopen
  starts s hq hw := by
    obtain ⟨pool, hp⟩ := s.pool.start_enabled id hq hw
    exact ⟨.start, { s with pool }, rfl, by simp only [kind, step, hp]⟩
  completes s i hi hroom := by
    obtain ⟨pool, hp⟩ := s.pool.complete_enabled (fun _ => load) hi hroom
    exact ⟨.complete i, { s with pool }, rfl, by simp only [kind, step, hp]⟩

end GetItem

/-! ### Loading caches -/

namespace CacheLoad

variable {γ : Type} {load : String → ℕ → CacheResult γ} {s s' : CacheLoad γ}

def kind (load : String → ℕ → CacheResult γ) : OperationKind where
  State := CacheLoad γ
  Act := LoadAct
  step := step load
  worker
    | .start => some .start
    | .complete i => some (.complete i)
    | _ => none
  view s := s.pool.view

theorem submitNextCacheLoad_cases (s : CacheLoad γ) (accepted : Bool) (phase : LoadPhase γ) :
    (∃ job rest, s.submitNextCacheLoad accepted phase =
      { s with paths := rest, pool := s.pool.submit job, scheduled := s.scheduled + 1, phase }) ∨
    ∃ paths, s.submitNextCacheLoad accepted phase = { s with paths }.ret (.error .workerFailed) := by
  cases hpaths : s.paths with
  | nil =>
      refine .inr ⟨s.paths, ?_⟩
      unfold submitNextCacheLoad
      split
      · rfl
      · rename_i heq
        simp [hpaths] at heq
  | cons job rest =>
      cases accepted with
      | true => exact .inl ⟨job, rest, by simp only [submitNextCacheLoad, hpaths, if_true]⟩
      | false => exact .inr ⟨rest, by simp only [submitNextCacheLoad, hpaths, Bool.false_eq_true, if_false]⟩

theorem submitNextCacheLoad_moves (accepted : Bool) (phase : LoadPhase γ) :
    PoolView.Moves none s.pool.view (s.submitNextCacheLoad accepted phase).pool.view := by
  obtain ⟨job, rest, heq⟩ | ⟨paths, heq⟩ := submitNextCacheLoad_cases s accepted phase
  · rw [heq]
    exact Pool.moves_submit s.pool job
  · rw [heq]
    exact Pool.moves_close s.pool

theorem step_moves {a : LoadAct} (hs : s.step load a = some s') :
    PoolView.Moves ((kind load).worker a) s.pool.view s'.pool.view := by
  cases a with
  | submit accepted =>
      cases hp : s.phase <;> simp only [step, hp, reduceCtorEq, Option.ite_none_right_eq_some] at hs <;>
        exact Option.some.inj hs.2 ▸ submitNextCacheLoad_moves accepted _
  | proceed =>
      cases hp : s.phase <;> simp only [step, hp, reduceCtorEq, Option.ite_none_left_eq_some] at hs
      · exact Option.some.inj hs.2 ▸ .keep _
      · exact Option.some.inj hs.2 ▸ Pool.moves_close s.pool
      · exact Option.some.inj hs.2 ▸ .keep _
  | receive =>
      cases hp : s.phase <;> simp only [step, hp, reduceCtorEq, Option.ite_none_right_eq_some] at hs
      obtain ⟨-, hs⟩ := hs
      cases hr : s.pool.recv with
      | none => simp [hr] at hs
      | some rp =>
          obtain ⟨r, pool⟩ := rp
          cases r with
          | ok result =>
              simp only [hr, Option.some.injEq] at hs
              exact hs ▸ Pool.moves_recv hr
          | error error =>
              simp only [hr, Option.some.injEq] at hs
              subst hs
              show PoolView.Moves none s.pool.view pool.close.view
              rw [Pool.view_recv_close hr]
              exact Pool.moves_close s.pool
  | start =>
      simp only [step] at hs
      cases hp : s.pool.start id with
      | none => simp [hp] at hs
      | some pool =>
          simp only [hp, Option.some.injEq] at hs
          exact hs ▸ Pool.moves_start hp
  | complete i =>
      simp only [step] at hs
      cases hp : s.pool.complete (jobResult load) i with
      | none => simp [hp] at hs
      | some pool =>
          simp only [hp, Option.some.injEq] at hs
          exact hs ▸ Pool.moves_complete hp

/-- Every result that was received makes room for one job. -/
structure Open (s : CacheLoad γ) : Prop where
  out : s.pool.size + s.results.length ≤ s.scheduled
  window : s.scheduled ≤ s.parallelism + s.results.length
  refilling : s.phase = .refilling → s.scheduled < s.parallelism + s.results.length

structure Credit (s : CacheLoad γ) : Prop where
  capacity : s.pool.capacity = s.parallelism
  state : s.Open ∨ s.pool.isOpen = false

theorem Credit.ret (h : s.Credit) (pool : Pool (ℕ × String) (CacheResult (CacheLoadResult γ)))
    (hcapacity : pool.capacity = s.pool.capacity) (paths : List (ℕ × String)) (result : CacheResult (List γ)) :
    Credit (CacheLoad.ret { s with pool, paths } result) :=
  ⟨hcapacity.trans h.capacity, .inr rfl⟩

theorem Credit.submitNextCacheLoad (h : s.Credit) {phase : LoadPhase γ} (hphase : phase ≠ .refilling)
    (hroom : s.Open → s.scheduled < s.parallelism + s.results.length) (accepted : Bool) :
    (s.submitNextCacheLoad accepted phase).Credit := by
  obtain ⟨job, rest, heq⟩ | ⟨paths, heq⟩ := submitNextCacheLoad_cases s accepted phase
  · rw [heq]
    refine ⟨h.capacity, h.state.imp (fun hopen => ⟨?_, ?_, fun hp => absurd hp hphase⟩) id⟩
    · have hout := hopen.out
      have hsize : (s.pool.submit job).size = s.pool.size + 1 := by
        simp only [Pool.size, Pool.submit, List.length_append, List.length_singleton]
        omega
      show (s.pool.submit job).size + s.results.length ≤ s.scheduled + 1
      omega
    · exact hroom hopen
  · rw [heq]
    exact h.ret s.pool rfl paths _

theorem Credit.with_pool (h : s.Credit) {pool : Pool (ℕ × String) (CacheResult (CacheLoadResult γ))}
    (hcapacity : pool.capacity = s.pool.capacity) (hopen : pool.isOpen = s.pool.isOpen)
    (hsize : pool.size ≤ s.pool.size) : Credit { s with pool } := by
  refine ⟨hcapacity.trans h.capacity, h.state.imp (fun ho => ⟨?_, ho.window, ho.refilling⟩) fun hc => hopen.trans hc⟩
  have := ho.out
  show pool.size + s.results.length ≤ s.scheduled
  omega

theorem credit_step {a : LoadAct} (h : s.Credit) (hs : s.step load a = some s') : s'.Credit := by
  cases a with
  | submit accepted =>
      cases hp : s.phase <;> simp only [step, hp, reduceCtorEq, Option.ite_none_right_eq_some] at hs
      · refine Option.some.inj hs.2 ▸ h.submitNextCacheLoad (by simp) (fun _ => ?_) accepted
        exact hs.1.trans_le (Nat.le_add_right _ _)
      · exact Option.some.inj hs.2 ▸ h.submitNextCacheLoad (by simp) (fun ho => ho.refilling hp) accepted
  | proceed =>
      have hreceiving : Credit { s with phase := .receiving } :=
        ⟨h.capacity, h.state.imp (fun ho => ⟨ho.out, ho.window, fun hp => by simp at hp⟩) id⟩
      cases hp : s.phase <;> simp only [step, hp, reduceCtorEq, Option.ite_none_left_eq_some] at hs
      · exact Option.some.inj hs.2 ▸ hreceiving
      · exact Option.some.inj hs.2 ▸ h.ret s.pool rfl s.paths _
      · exact Option.some.inj hs.2 ▸ hreceiving
  | receive =>
      cases hp : s.phase <;> simp only [step, hp, reduceCtorEq, Option.ite_none_right_eq_some] at hs
      obtain ⟨-, hs⟩ := hs
      cases hr : s.pool.recv with
      | none => simp [hr] at hs
      | some rp =>
          obtain ⟨r, pool⟩ := rp
          have hcapacity := (Pool.moves_recv hr).frame.2
          cases r with
          | error error =>
              simp only [hr, Option.some.injEq] at hs
              exact hs ▸ h.ret _ hcapacity s.paths _
          | ok result =>
              simp only [hr, Option.some.injEq] at hs
              subst hs
              obtain ⟨rest, hout, hpool⟩ := Pool.recv_eq_some hr
              refine ⟨hcapacity.trans h.capacity, h.state.imp (fun ho => ?_) fun hc => ?_⟩
              · have hsize : pool.size + 1 = s.pool.size := by
                  simp only [hpool, Pool.size, hout, List.length_cons]
                  omega
                have := ho.out
                have := ho.window
                refine ⟨?_, ?_, fun _ => ?_⟩
                all_goals simp only [List.length_append, List.length_singleton]
                all_goals omega
              · rw [hpool]
                exact hc
  | start =>
      simp only [step] at hs
      cases hp : s.pool.start id with
      | none => simp [hp] at hs
      | some pool =>
          simp only [hp, Option.some.injEq] at hs
          subst hs
          have hsize := WritePipeline.size_start hp
          obtain ⟨job, rest, -, -, rfl⟩ := Pool.start_eq_some hp
          exact h.with_pool rfl rfl hsize.le
  | complete i =>
      simp only [step] at hs
      cases hp : s.pool.complete (jobResult load) i with
      | none => simp [hp] at hs
      | some pool =>
          simp only [hp, Option.some.injEq] at hs
          subst hs
          have hsize := WritePipeline.size_complete hp
          obtain ⟨job, -, ⟨-, -, rfl⟩ | ⟨-, rfl⟩⟩ := Pool.complete_eq_some hp <;> exact h.with_pool rfl rfl hsize

theorem pool_credited (load : String → ℕ → CacheResult γ) (paths : List String) (numWorkers : Positive) :
    Credited (kind load) numWorkers (new paths numWorkers) where
  new := ⟨_, rfl⟩
  invariant := by
    refine ⟨Credit, ⟨rfl, .inl ⟨le_refl _, Nat.zero_le _, fun hp => by simp [CacheLoad.new] at hp⟩⟩,
      fun _ _ _ h hs => ⟨credit_step h hs, step_moves hs⟩, fun s h hopen => ?_⟩
    rcases h.state with ho | hclosed
    · have := ho.out
      have := ho.window
      show s.pool.size ≤ s.pool.capacity
      rw [h.capacity]
      omega
    · exact absurd (hclosed.symm.trans hopen) (by decide)
  starts s hq hw := by
    obtain ⟨pool, hp⟩ := s.pool.start_enabled id hq hw
    exact ⟨.start, { s with pool }, rfl, by simp only [kind, step, hp]⟩
  completes s i hi hroom := by
    obtain ⟨pool, hp⟩ := s.pool.complete_enabled (jobResult load) hi hroom
    exact ⟨.complete i, { s with pool }, rfl, by simp only [kind, step, hp]⟩

end CacheLoad

end DatasetRt
