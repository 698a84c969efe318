import DatasetRt.Types
import DatasetRt.Lib.Window

/-! # The worker pool, seen by one operation

`WorkerPool` (`worker_pool.rs`) is a fixed set of threads over one FIFO job queue; every job
sends exactly one result into the bounded result channel of the operation that submitted it.
`Pool J R` is what one operation can see of it: its own jobs waiting and running, and its
result channel.  Jobs of other operations only delay these steps.

* `submit` queues a job; `start` hands the oldest queued job to a free worker; `complete i`
  finishes any one of the running jobs, and needs a free slot in the result channel while its
  receiver is alive; `recv` takes the oldest result; `close` drops the receiver, which
  discards the queued results and lets later ones vanish.
* `Out` says which sequence numbers are out: those of the queued and running jobs and of the
  undelivered results.  One lemma per operation says how they change. -/

namespace DatasetRt

structure Pool (J R : Type) where
  workers : ℕ
  capacity : ℕ
  queued : List J
  running : List J
  output : List R
  isOpen : Bool

namespace Pool

variable {J R : Type}

def new (workers capacity : ℕ) : Pool J R :=
  { workers, capacity, queued := [], running := [], output := [], isOpen := true }

def submit (p : Pool J R) (job : J) : Pool J R := { p with queued := p.queued ++ [job] }

/-- The oldest queued job begins to run; `enter` is what it does first. -/
def start (p : Pool J R) (enter : J → J) : Option (Pool J R) :=
  match p.queued with
  | [] => none
  | job :: rest =>
      if p.running.length < p.workers then
        some { p with queued := rest, running := p.running ++ [enter job] }
      else none

/-- The `i`-th running job ends with its `result`; it waits for space in an open channel. -/
def complete (p : Pool J R) (result : J → R) (i : ℕ) : Option (Pool J R) :=
  match p.running[i]? with
  | none => none
  | some job =>
      if p.isOpen then
        if p.output.length < p.capacity then
          some { p with running := p.running.eraseIdx i, output := p.output ++ [result job] }
        else none
      else some { p with running := p.running.eraseIdx i }

def recv (p : Pool J R) : Option (R × Pool J R) :=
  match p.output with
  | [] => none
  | r :: rest => some (r, { p with output := rest })

def close (p : Pool J R) : Pool J R := { p with output := [], isOpen := false }

/-! ### What each operation does -/

theorem start_eq_some {p p' : Pool J R} {enter : J → J} (h : p.start enter = some p') :
    ∃ job rest, p.queued = job :: rest ∧ p.running.length < p.workers ∧
      p' = { p with queued := rest, running := p.running ++ [enter job] } := by
  unfold start at h
  cases hq : p.queued with
  | nil => simp [hq] at h
  | cons job rest =>
      simp only [hq] at h
      split_ifs at h with hw
      exact ⟨job, rest, rfl, hw, (Option.some.inj h).symm⟩

theorem complete_eq_some {p p' : Pool J R} {result : J → R} {i : ℕ}
    (h : p.complete result i = some p') :
    ∃ job, p.running[i]? = some job ∧
      ((p.isOpen = true ∧ p.output.length < p.capacity ∧
          p' = { p with running := p.running.eraseIdx i, output := p.output ++ [result job] }) ∨
        (p.isOpen = false ∧ p' = { p with running := p.running.eraseIdx i })) := by
  unfold complete at h
  cases hr : p.running[i]? with
  | none => simp [hr] at h
  | some job =>
      simp only [hr] at h
      refine ⟨job, rfl, ?_⟩
      split_ifs at h with ho hc
      · exact .inl ⟨ho, hc, (Option.some.inj h).symm⟩
      · exact .inr ⟨by simpa using ho, (Option.some.inj h).symm⟩

theorem recv_eq_some {p p' : Pool J R} {r : R} (h : p.recv = some (r, p')) :
    ∃ rest, p.output = r :: rest ∧ p' = { p with output := rest } := by
  unfold recv at h
  cases ho : p.output with
  | nil => simp [ho] at h
  | cons r' rest =>
      simp only [ho, Option.some.injEq, Prod.mk.injEq] at h
      obtain ⟨rfl, rfl⟩ := h
      exact ⟨rest, rfl, rfl⟩

/-! ### The sequence numbers that are out -/

/-- `ids` are the sequence numbers of the queued and running jobs and of the undelivered
results, in some order; `D r k` says that `r` is the result of number `k`. -/
def Out (seq : J → ℕ) (D : R → ℕ → Prop) (p : Pool J R) (ids : List ℕ) : Prop :=
  ∃ outs, List.Forall₂ D p.output outs ∧
    ids.Perm (p.queued.map seq ++ p.running.map seq ++ outs)

variable {seq : J → ℕ} {D : R → ℕ → Prop} {p p' : Pool J R} {ids : List ℕ}

theorem out_new (workers capacity : ℕ) : (new workers capacity : Pool J R).Out seq D [] :=
  ⟨[], List.Forall₂.nil, List.Perm.refl _⟩

theorem Out.length_eq (h : p.Out seq D ids) :
    ids.length = p.queued.length + p.running.length + p.output.length := by
  obtain ⟨outs, ho, hp⟩ := h
  rw [hp.length_eq]
  simp [ho.length_eq, Nat.add_assoc]

theorem Out.mono (h : p.Out seq D ids) {D' : R → ℕ → Prop} (hD : ∀ r k, D r k → D' r k) :
    p.Out seq D' ids := by
  obtain ⟨outs, ho, hp⟩ := h
  exact ⟨outs, ho.imp hD, hp⟩

theorem Out.submit (h : p.Out seq D ids) (job : J) : (p.submit job).Out seq D (seq job :: ids) := by
  obtain ⟨outs, ho, hp⟩ := h
  refine ⟨outs, ho, ?_⟩
  simp only [Pool.submit, List.map_append, List.map_cons, List.map_nil]
  refine (List.Perm.cons _ hp).trans ?_
  simp only [List.append_assoc]
  exact (List.perm_middle).symm

theorem Out.start (h : p.Out seq D ids) {enter : J → J} (henter : ∀ job, seq (enter job) = seq job)
    (hs : p.start enter = some p') : p'.Out seq D ids := by
  obtain ⟨outs, ho, hp⟩ := h
  obtain ⟨job, rest, hq, -, rfl⟩ := start_eq_some hs
  refine ⟨outs, ho, hp.trans ?_⟩
  simp only [hq, List.map_cons, List.map_append, List.map_nil, henter, List.cons_append,
    List.append_assoc, List.nil_append]
  rw [← List.append_assoc, ← List.append_assoc]
  exact List.perm_middle.symm

theorem Out.complete (h : p.Out seq D ids) {result : J → R} {i : ℕ} (hopen : p.isOpen = true)
    (hD : ∀ job ∈ p.running, D (result job) (seq job))
    (hc : p.complete result i = some p') : p'.Out seq D ids := by
  obtain ⟨outs, ho, hp⟩ := h
  obtain ⟨job, hj, ⟨-, -, rfl⟩ | ⟨hcl, -⟩⟩ := complete_eq_some hc
  · have hmem := List.mem_of_getElem? hj
    refine ⟨outs ++ [seq job], List.rel_append ho (.cons (hD job hmem) .nil), hp.trans ?_⟩
    have hperm : p.running.Perm (job :: p.running.eraseIdx i) := by
      obtain ⟨hi, rfl⟩ := List.getElem?_eq_some_iff.mp hj
      exact (List.getElem_cons_eraseIdx_perm hi).symm
    have hrun := hperm.map seq
    refine ((hrun.append_left _).append_right outs).trans ?_
    simp only [List.map_cons, List.append_assoc, List.cons_append]
    refine List.Perm.append_left _ ?_
    exact (List.perm_append_singleton _ _).symm.trans (by simp)
  · rw [hopen] at hcl; cases hcl

theorem Out.recv (h : p.Out seq D ids) {r : R} (hr : p.recv = some (r, p')) :
    ∃ k ids', D r k ∧ ids.Perm (k :: ids') ∧ p'.Out seq D ids' := by
  obtain ⟨outs, ho, hp⟩ := h
  obtain ⟨rest, he, rfl⟩ := recv_eq_some hr
  rw [he] at ho
  cases ho with
  | @cons _ k _ outs' hk ho =>
      refine ⟨k, p.queued.map seq ++ p.running.map seq ++ outs', hk, hp.trans List.perm_middle, ?_⟩
      exact ⟨outs', ho, List.Perm.refl _⟩

end Pool

end DatasetRt
