import DatasetRt.DatasetStream
import DatasetRt.ReaderOrder

/-! # Iterators of one dataset

`CachedDataset.__iter__` (`dataset.py`) is a generator: `iter(dataset)` makes a generator whose
body has not begun, and its first `next` makes the native iterator, which takes its plan from the
state the dataset has then (`DatasetState::start_iterator`).  `Session` is a dataset with the
iterators that were made of it, and `Session.step` one call on the dataset or one step of a native
iterator and its workers, in any order.

The documentation of `__iter__` promises the plan of the state in which the iterator was made.
`createdIn` records that state, and `Isolated` says that the promise is kept: what every iterator
emits is a run of the reader on the plan of that state.  This holds as long as the state of the
dataset does not change while an iterator waits for its first `next` (`isolated_of_settled`). -/

namespace DatasetRt

/-- The generator of `CachedDataset.__iter__`. -/
inductive Body (R : RandLib) (σ : Type) where
  /-- Before the first `next`. -/
  | fresh
  /-- Suspended in its loop over the native iterator. -/
  | running (reader : Reader R σ)
  /-- The native iterator could not be made. -/
  | failed (error : CacheError)
  /-- Closed before the first `next`. -/
  | closed

structure PyIterator (R : RandLib) (σ : Type) where
  /-- The state of the dataset when `iter(dataset)` was called. -/
  createdIn : MutableDatasetState
  body : Body R σ

structure Session (R : RandLib) (σ : Type) where
  state : MutableDatasetState
  iterators : List (PyIterator R σ)

/-- The calls of a session; `reader` is a step of a native iterator or of its workers. -/
inductive Call where
  | iter
  | first (i : ℕ)
  | reader (i : ℕ) (act : ReaderAct)
  | close (i : ℕ)
  | setEpochLen (epochLen : ℕ)
  | updateArrow (table : Dataset.ImportedTable)
  | updateIpc (ipc : Bytes)

namespace Session

variable {R : RandLib} {σ : Type}

/-- The generator after its first `next` made the native iterator from a plan. -/
def startBody (d : Dataset) : CacheResult (EpochPlan R) → Body R σ
  | .ok plan => .running (Reader.begin plan d.prefetchSize d.numWorkers)
  | .error error => .failed error

/-- The state of the dataset that a call leaves. -/
def stateAfter (A : ArrowLib) (d : Dataset) (state : MutableDatasetState) : Call → MutableDatasetState
  | .first _ => (d.epochPlan R state).1
  | .setEpochLen epochLen => (Dataset.setEpochLen epochLen state).1
  | .updateArrow table => (d.updateMetadataArrow table state).1
  | .updateIpc ipc => (d.updateMetadataIpc A ipc state).1
  | _ => state

/-- The body of iterator `i` replaced. -/
def setBody (s : Session R σ) (i : ℕ) (body : Body R σ) : List (PyIterator R σ) :=
  s.iterators.modify i fun it => { it with body }

def step (A : ArrowLib) (d : Dataset) (read : ℕ → ℕ → CacheResult σ) (s : Session R σ) (call : Call) :
    Option (Session R σ) :=
  let state := stateAfter (R := R) A d s.state call
  match call with
  | .iter => some { s with iterators := s.iterators ++ [⟨s.state, .fresh⟩] }
  | .first i =>
      match s.iterators[i]? with
      | some ⟨_, .fresh⟩ => some ⟨state, s.setBody i (startBody d (d.epochPlan R s.state).2)⟩
      | _ => none
  | .reader i act =>
      match s.iterators[i]? with
      | some ⟨_, .running reader⟩ =>
          (reader.step read act).map fun reader => ⟨state, s.setBody i (.running reader)⟩
      | _ => none
  | .close i =>
      match s.iterators[i]? with
      | some ⟨_, .fresh⟩ => some ⟨state, s.setBody i .closed⟩
      | _ => none
  | .setEpochLen _ => some { s with state }
  | .updateArrow _ => some { s with state }
  | .updateIpc _ => some { s with state }

/-- A dataset of which no iterator was made yet. -/
def opened (state : MutableDatasetState) : Session R σ := ⟨state, []⟩

/-- What the generator may be if its plan comes from the state the iterator was made in. -/
def Kept (d : Dataset) (read : ℕ → ℕ → CacheResult σ) (it : PyIterator R σ) : Prop :=
  match it.body with
  | .fresh => True
  | .closed => True
  | .failed error => (d.epochPlan R it.createdIn).2 = .error error
  | .running reader => ∃ plan, (d.epochPlan R it.createdIn).2 = .ok plan ∧
      ∃ acts, Machine.run (Reader.step read) (Reader.begin plan d.prefetchSize d.numWorkers) acts = some reader

/-- Every iterator emits what the state it was made in determines. -/
def Isolated (d : Dataset) (read : ℕ → ℕ → CacheResult σ) (s : Session R σ) : Prop :=
  ∀ it ∈ s.iterators, Kept d read it

/-- The condition on a step: it leaves the state of the dataset as it is, or no iterator but the one
it advances still waits for its first `next`. -/
def Settled (A : ArrowLib) (d : Dataset) (s : Session R σ) (call : Call) : Prop :=
  stateAfter (R := R) A d s.state call = s.state ∨
    ∀ i it, s.iterators[i]? = some it → it.body = .fresh → call = .first i

variable {A : ArrowLib} {d : Dataset} {read : ℕ → ℕ → CacheResult σ} {s s' : Session R σ} {call : Call}

/-- What a step does to an iterator that was there. -/
inductive Moves (d : Dataset) (read : ℕ → ℕ → CacheResult σ) (state : MutableDatasetState) (i : ℕ) :
    Call → Body R σ → Body R σ → Prop
  | first : Moves d read state i (.first i) .fresh (startBody d (d.epochPlan R state).2)
  | reader {act : ReaderAct} {r r' : Reader R σ} : r.step read act = some r' →
      Moves d read state i (.reader i act) (.running r) (.running r')
  | close : Moves d read state i (.close i) .fresh .closed

theorem Moves.ne_first {state : MutableDatasetState} {i j : ℕ} {old body : Body R σ}
    (h : Moves d read state i call old body) (hij : i ≠ j) : call ≠ .first j := by
  cases h with
  | first => exact fun h => hij (Call.first.inj h)
  | reader _ => exact nofun
  | close => exact nofun

theorem step_cases (h : s.step A d read call = some s') :
    s'.state = stateAfter (R := R) A d s.state call ∧
      (((∀ i, call ≠ .first i) ∧ s'.iterators = s.iterators) ∨
        (call = .iter ∧ s'.iterators = s.iterators ++ [⟨s.state, .fresh⟩]) ∨
        ∃ i it body, s.iterators[i]? = some it ∧ Moves d read s.state i call it.body body ∧
          s'.iterators = s.setBody i body) := by
  cases call with
  | iter =>
      cases h
      exact ⟨rfl, .inr (.inl ⟨rfl, rfl⟩)⟩
  | first i =>
      simp only [step] at h
      split at h
      · rename_i createdIn hi
        cases h
        exact ⟨rfl, .inr (.inr ⟨i, _, _, hi, .first, rfl⟩)⟩
      · cases h
  | reader i act =>
      simp only [step] at h
      split at h
      · rename_i createdIn reader hi
        obtain ⟨reader', hstep, rfl⟩ := Option.map_eq_some_iff.mp h
        exact ⟨rfl, .inr (.inr ⟨i, _, _, hi, .reader hstep, rfl⟩)⟩
      · cases h
  | close i =>
      simp only [step] at h
      split at h
      · rename_i createdIn hi
        cases h
        exact ⟨rfl, .inr (.inr ⟨i, _, _, hi, .close, rfl⟩)⟩
      · cases h
  | setEpochLen epochLen =>
      cases h
      exact ⟨rfl, .inl ⟨fun i => nofun, rfl⟩⟩
  | updateArrow table =>
      cases h
      exact ⟨rfl, .inl ⟨fun i => nofun, rfl⟩⟩
  | updateIpc ipc =>
      cases h
      exact ⟨rfl, .inl ⟨fun i => nofun, rfl⟩⟩

/-- An iterator whose plan is the one of its own state, and that still finds it if it is fresh. -/
def Current (d : Dataset) (read : ℕ → ℕ → CacheResult σ) (state : MutableDatasetState)
    (it : PyIterator R σ) : Prop :=
  Kept d read it ∧ (it.body = .fresh → it.createdIn = state)

theorem current_moves {state : MutableDatasetState} {i : ℕ} {it : PyIterator R σ} {body : Body R σ}
    (hit : Current d read state it) (h : Moves d read state i call it.body body) (state' : MutableDatasetState) :
    Current d read state' { it with body } := by
  obtain ⟨createdIn, old⟩ := it
  obtain ⟨hkept, hfresh⟩ := hit
  cases h with
  | first =>
      obtain rfl : createdIn = state := hfresh rfl
      cases hplan : (d.epochPlan R createdIn).2 with
      | error error => exact ⟨hplan, fun h => nomatch h⟩
      | ok plan => exact ⟨⟨plan, hplan, [], rfl⟩, fun h => nomatch h⟩
  | @reader act r r' hstep =>
      obtain ⟨plan, hplan, acts, hrun⟩ := hkept
      refine ⟨⟨plan, hplan, acts ++ [act], Machine.run_append _ hrun ?_⟩, fun h => nomatch h⟩
      rw [Machine.run_cons_of_step _ _ hstep]
      rfl
  | close => exact ⟨trivial, fun h => nomatch h⟩

/-- Iterators stay up to date through a settled step. -/
theorem current_step (hall : ∀ it ∈ s.iterators, Current d read s.state it)
    (hsettled : Settled A d s call) (h : s.step A d read call = some s') :
    ∀ it ∈ s'.iterators, Current d read s'.state it := by
  obtain ⟨hstate, hcases⟩ := step_cases h
  -- an iterator that the call does not advance
  have hother : ∀ i it, s.iterators[i]? = some it → call ≠ .first i → Current d read s'.state it := by
    intro i it hi hne
    obtain ⟨hkept, hfresh⟩ := hall it (List.mem_of_getElem? hi)
    refine ⟨hkept, fun hbody => ?_⟩
    rcases hsettled with hsame | hadvanced
    · rw [hstate, hsame]
      exact hfresh hbody
    · exact absurd (hadvanced i it hi hbody) hne
  intro it hmem
  obtain ⟨j, hj⟩ := List.mem_iff_getElem?.mp hmem
  rcases hcases with ⟨hne, heq⟩ | ⟨rfl, heq⟩ | ⟨i, old, body, hi, hmoves, heq⟩
  · rw [heq] at hj
    exact hother j it hj (hne j)
  · rw [heq] at hmem
    rcases List.mem_append.mp hmem with hold | hnew
    · obtain ⟨i, hi⟩ := List.mem_iff_getElem?.mp hold
      exact hother i it hi nofun
    · rw [List.mem_singleton] at hnew
      subst hnew
      exact ⟨trivial, fun _ => hstate.symm⟩
  · rw [heq, setBody, List.getElem?_modify] at hj
    by_cases hij : i = j
    · subst hij
      rw [hi] at hj
      obtain rfl : { old with body } = it := by simpa using hj
      exact current_moves (hall old (List.mem_of_getElem? hi)) hmoves _
    · have hj' : s.iterators[j]? = some it := by simpa [hij] using hj
      exact hother j it hj' (hmoves.ne_first hij)

theorem sampler_len {state : MutableDatasetState} {sampler : EpochSampler R}
    (h : d.sampler R state = .ok sampler) : sampler.len = state.epochLen.1 := by
  unfold Dataset.sampler at h
  cases hactive : state.active with
  | full =>
      simp only [hactive, EpochSampler.newUniform] at h
      split_ifs at h
      cases h
      rfl
  | table active =>
      rw [hactive] at h
      obtain ⟨⟨⟩, -, h⟩ := bind_eq_ok h
      cases hindex : R.weightedIndex active.weights with
      | error error => simp [hindex] at h
      | ok distribution =>
          simp only [hindex] at h
          cases h
          rfl

theorem epochPlan_len {state : MutableDatasetState} {plan : EpochPlan R}
    (h : (d.epochPlan R state).2 = .ok plan) : plan.len = state.epochLen.1 := by
  unfold Dataset.epochPlan at h
  split_ifs at h with hshuffle
  · cases hdraw : Dataset.advanceDrawOffset state.shuffledDrawOffset state.epochLen.1 with
    | error error => simp [hdraw] at h
    | ok next =>
        cases hsampler : d.sampler R state with
        | error error => simp [hdraw, hsampler] at h
        | ok sampler =>
            obtain rfl : EpochPlan.shuffled sampler (Dataset.activePhysicalIndices state.active) = plan := by
              simpa [hdraw, hsampler] using h
            exact sampler_len hsampler
  · cases hnext : Dataset.advanceCyclicOffset state.sequentialOffset state.epochLen.1
        (d.activeLen state.active) with
    | error error => simp [hnext] at h
    | ok next =>
        obtain rfl : EpochPlan.sequential state.epochLen.1 state.sequentialOffset (d.activeLen state.active)
            (Dataset.activePhysicalIndices state.active) = plan := by simpa [hnext] using h
        rfl

/-- **Snapshots.**  In every run of a session whose steps are all settled, every iterator runs the
plan of the state the dataset had when it was made: it emits the samples of that plan in order. -/
theorem isolated_of_settled (A : ArrowLib) (d : Dataset) (read : ℕ → ℕ → CacheResult σ)
    (state : MutableDatasetState) (calls : List Call) (s : Session R σ)
    (hsettled : Machine.Guarded (step A d read) (Settled A d) (opened state : Session R σ) calls)
    (hrun : Machine.run (step A d read) (opened state) calls = some s) :
    Isolated d read s ∧ ∀ it ∈ s.iterators, ∀ reader, it.body = .running reader →
      ∃ plan, (d.epochPlan R it.createdIn).2 = .ok plan ∧
        Reader.Shape plan read False (Reader.parallelismOf plan d.prefetchSize d.numWorkers) reader.returned := by
  have hall : ∀ it ∈ s.iterators, Current d read s.state it :=
    Machine.run_invariant_of_guarded (I := fun s => ∀ it ∈ s.iterators, Current d read s.state it)
      (step A d read) (fun _ _ _ hall hok h => current_step hall hok h) (fun _ hmem => absurd hmem List.not_mem_nil)
      hsettled hrun
  refine ⟨fun it hmem => (hall it hmem).1, fun it hmem reader hbody => ?_⟩
  obtain ⟨hkept, -⟩ := hall it hmem
  rw [Kept, hbody] at hkept
  obtain ⟨plan, hplan, acts, hacts⟩ := hkept
  refine ⟨plan, hplan, (Reader.inv_run ?_ (fun h : False => h.elim) False.elim hacts).shape⟩
  rw [epochPlan_len hplan]
  exact it.createdIn.epochLen.2

theorem total_of_run {plan : EpochPlan R} {prefetchSize numWorkers : Positive} {acts : List ReaderAct}
    {reader : Reader R σ}
    (h : Machine.run (Reader.step read) (Reader.begin plan prefetchSize numWorkers) acts = some reader) :
    reader.total = plan.len :=
  Machine.run_invariant (I := fun r : Reader R σ => r.total = plan.len) (Reader.step read)
    (fun _ _ _ hr hstep => (congrArg Prod.fst (Reader.step_dims hstep)).trans hr) rfl h

/-- An iterator that was advanced once keeps its two samples when the epoch is shortened. -/
theorem isolated_after_first : ∃ s : Session RandLib.first ℕ,
    Machine.run (step Dataset.OneRow.noArrow Dataset.OneRow.dataset fun _ p => .ok p)
      (opened Dataset.OneRow.start) [.iter, .first 0, .setEpochLen 1, .iter] = some s ∧
    Isolated Dataset.OneRow.dataset (fun _ p => .ok p) s := by
  refine ⟨_, rfl, (isolated_of_settled Dataset.OneRow.noArrow Dataset.OneRow.dataset (fun _ p => .ok p)
    Dataset.OneRow.start [.iter, .first 0, .setEpochLen 1, .iter] _ ?_ rfl).1⟩
  refine ⟨.inl rfl, fun s hs => ?_⟩
  cases hs
  refine ⟨.inr fun i it hi _ => ?_, fun s hs => ?_⟩
  · cases i with
    | zero => rfl
    | succ i => cases hi
  cases hs
  refine ⟨.inr fun i it hi hfresh => ?_, fun s hs => ?_⟩
  · cases i with
    | zero =>
        cases hi
        cases hfresh
    | succ i => cases hi
  cases hs
  exact ⟨.inl rfl, fun s hs => trivial⟩

/-- An iterator that was made for two samples and not advanced has one when the epoch is shortened
before its first `next`. -/
theorem snapshot_taken_late : ∃ s : Session RandLib.first ℕ,
    Machine.run (step Dataset.OneRow.noArrow Dataset.OneRow.dataset fun _ p => .ok p)
      (opened Dataset.OneRow.start) [.iter, .setEpochLen 1, .first 0] = some s ∧
    ¬ Isolated Dataset.OneRow.dataset (fun _ p => .ok p) s := by
  refine ⟨_, rfl, fun h => ?_⟩
  obtain ⟨plan, hplan, acts, hrun⟩ := h _ List.mem_cons_self
  have hlen : plan.len = 2 := epochPlan_len hplan
  have htotal := total_of_run hrun
  rw [hlen] at htotal
  cases htotal

end Session

end DatasetRt
