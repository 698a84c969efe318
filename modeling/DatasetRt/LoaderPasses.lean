import DatasetRt.DatasetSession
import DatasetRt.DatasetWindows

/-! # Passes of a loading worker

`ReaderAdapter` (`integrations/loader.py`) gives a loading worker passes of a fixed number of samples over one
native dataset.  A pass is a generator: its body begins at its first `next`, where `setup` makes the dataset if no
pass has made it before.  All passes draw from one stream, the generator `CachedDataset.__iter__` that the
adapter keeps and replaces when a window of the dataset is exhausted, so that a pass may begin anywhere in a
window and passes may interleave.

`ReaderAdapter.step` is the creation of an iterator, a `next` on one, or its closing.  The steps of the native
iterators that a `next` waits for, and those of their workers since the last one, are part of the call: `Reader`
is the native iterator, with reads that succeed.  The samples that the passes are given, in the order of the
`next` calls, are then the samples of the consecutive windows of the dataset (`passes_continue_stream`). -/

namespace DatasetRt

/-- `_create_dataset`: the dataset of a worker, its population put in place and its epoch as long as the quota. -/
def createDataset (loadCaches : List Path → CacheResult (List LoadedCache)) (paths : List Path) (seed : BitVec 64)
    (prefetchSize : ℕ) (numWorkers : Positive) (shuffle : Bool) (table : Dataset.ImportedTable) (quota : ℕ) :
    CacheResult (Dataset × MutableDatasetState) := do
  let (d, s) ← Dataset.load loadCaches paths seed prefetchSize numWorkers shuffle
  let (s, updated) := d.updateMetadataArrow table s
  updated
  let (s, resized) := Dataset.setEpochLen quota s
  resized
  .ok (d, s)

/-- The generator that the adapter keeps. -/
inductive Stream (R : RandLib) (σ : Type) where
  | fresh
  | running (reader : Reader R σ)
  | ended

structure LocalReader (R : RandLib) (σ : Type) where
  dataset : Dataset
  state : MutableDatasetState
  stream : Stream R σ

/-- `state.stream = iter(state.dataset)`. -/
def LocalReader.renew {R : RandLib} {σ : Type} (r : LocalReader R σ) : LocalReader R σ := { r with stream := .fresh }

inductive ReaderState (R : RandLib) (σ : Type) where
  | pending
  | empty
  | ready (reader : LocalReader R σ)

/-- What a pass can raise. -/
inductive PassError where
  | native (error : CacheError)
  /-- A `StopIteration` inside the generator, which Python turns into a `RuntimeError`. -/
  | stopIteration
deriving DecidableEq, Repr

/-- The generator of `ReaderAdapter.__iter__`. -/
inductive Pass where
  | fresh
  | running (remaining : ℕ)
  | exhausted
  | raised (error : PassError)
  | closed
deriving DecidableEq, Repr

structure ReaderAdapter (R : RandLib) (σ τ : Type) where
  state : ReaderState R σ
  passes : List Pass
  /-- What the passes were given, in the order of the calls. -/
  delivered : List (ℕ × τ)

/-- The calls on an adapter; `acts` are the steps of the native iterator that was there, `renewed` those of the
one that replaces it. -/
inductive PassCall where
  | iter
  | next (i : ℕ) (acts renewed : List ReaderAct)
  | close (i : ℕ)

/-! ### One call of `next` -/

section next

variable {R : RandLib} {σ : Type} (sample : ℕ → σ)

/-- One `next` of a native iterator whose pool accepts every job and whose reads succeed. -/
def nativeNext (reader : Reader R σ) (acts : List ReaderAct) :
    Option (Reader R σ × Option (CacheResult σ)) :=
  if .schedule false ∈ acts ∨ .drop ∈ acts then none
  else do
    let reader' ← Machine.run (Reader.step fun _ p => .ok (sample p)) reader acts
    if reader'.returned.length = reader.returned.length + 1 then
      reader'.returned.getLast?.map fun result => (reader', result)
    else none

/-- What a `next` on the generator of a dataset gives. -/
inductive Pulled (σ : Type) where
  | item (value : σ)
  | stop
  | raised (error : CacheError)

/-- One round of the loop of `CachedDataset.__iter__`. -/
def pullNative (r : LocalReader R σ) (reader : Reader R σ) (acts : List ReaderAct) :
    Option (LocalReader R σ × Pulled σ) :=
  match nativeNext sample reader acts with
  | none => none
  | some (reader', some (.ok value)) => some ({ r with stream := .running reader' }, .item value)
  | some (_, some (.error error)) => some ({ r with stream := .ended }, .raised error)
  | some (_, none) => some ({ r with stream := .ended }, .stop)

/-- `next(state.stream)`. -/
def nextStream (r : LocalReader R σ) (acts : List ReaderAct) :
    Option (LocalReader R σ × Pulled σ) :=
  match r.stream with
  | .fresh =>
      match r.dataset.epochPlan R r.state with
      | (state, .error error) => some ({ r with state, stream := .ended }, .raised error)
      | (state, .ok plan) =>
          pullNative sample { r with state } (Reader.begin plan r.dataset.prefetchSize r.dataset.numWorkers) acts
  | .running reader => pullNative sample r reader acts
  | .ended => some (r, .stop)

/-- The `try` of `ReaderAdapter.__iter__`: a stream that ends is replaced, once. -/
def drawSample (r : LocalReader R σ) (acts renewed : List ReaderAct) :
    Option (LocalReader R σ × Except PassError σ) :=
  match nextStream sample r acts with
  | none => none
  | some (r, .item value) => some (r, .ok value)
  | some (r, .raised error) => some (r, .error (.native error))
  | some (r, .stop) =>
      match nextStream sample r.renew renewed with
      | none => none
      | some (r, .item value) => some (r, .ok value)
      | some (r, .raised error) => some (r, .error (.native error))
      | some (r, .stop) => some (r, .error .stopIteration)

end next

namespace ReaderAdapter

variable {R : RandLib} {σ τ : Type}

/-- `setup`, with what `_create_dataset` gives. -/
def setup (quota : ℕ) (create : CacheResult (Dataset × MutableDatasetState)) (state : ReaderState R σ) :
    CacheResult (ReaderState R σ) :=
  match state with
  | .pending =>
      if quota = 0 then .ok .empty
      else create.map fun created => .ready ⟨created.1, created.2, .fresh⟩
  | state => .ok state

def setPass (a : ReaderAdapter R σ τ) (i : ℕ) (pass : Pass) : List Pass := a.passes.modify i fun _ => pass

/-- The loop of a pass that has `remaining` rounds left. -/
def advance (sample : ℕ → σ) (transform : σ → τ) (a : ReaderAdapter R σ τ) (i : ℕ) (r : LocalReader R σ)
    (remaining : ℕ) (acts renewed : List ReaderAct) : Option (ReaderAdapter R σ τ) :=
  match remaining with
  | 0 => some { a with passes := a.setPass i .exhausted }
  | remaining + 1 =>
      match drawSample sample r acts renewed with
      | none => none
      | some (r, .ok value) =>
          some { state := .ready r, passes := a.setPass i (.running remaining)
                 delivered := a.delivered ++ [(i, transform value)] }
      | some (r, .error error) => some { a with state := .ready r, passes := a.setPass i (.raised error) }

def step (quota : ℕ) (create : CacheResult (Dataset × MutableDatasetState)) (sample : ℕ → σ) (transform : σ → τ)
    (a : ReaderAdapter R σ τ) : PassCall → Option (ReaderAdapter R σ τ)
  | .iter => some { a with passes := a.passes ++ [.fresh] }
  | .next i acts renewed =>
      match a.passes[i]? with
      | none => none
      | some .fresh =>
          match setup quota create a.state with
          | .error error => some { a with passes := a.setPass i (.raised (.native error)) }
          | .ok (.ready r) =>
              advance sample transform { a with state := .ready r } i r r.state.epochLen.1 acts renewed
          | .ok state => some { a with state, passes := a.setPass i .exhausted }
      | some (.running remaining) =>
          match a.state with
          | .ready r => advance sample transform a i r remaining acts renewed
          | _ => none
      | some _ => some a
  | .close i =>
      match a.passes[i]? with
      | none => none
      | some .fresh => some { a with passes := a.setPass i .closed }
      | some (.running _) => some { a with passes := a.setPass i .closed }
      | some _ => some a

/-- An adapter over which no iterator was made yet. -/
def opened : ReaderAdapter R σ τ := ⟨.pending, [], []⟩

end ReaderAdapter

/-! ### Windows one after the other -/

/-- `windows` are consecutive windows of a dataset from state `s₀` on, and `s` is the state they leave. -/
inductive Windows {R : RandLib} (d : Dataset) (s₀ : MutableDatasetState) :
    MutableDatasetState → List (EpochPlan R) → Prop where
  | nil : Windows d s₀ s₀ []
  | snoc {s s' : MutableDatasetState} {windows : List (EpochPlan R)} {plan : EpochPlan R} :
      Windows d s₀ s windows → d.epochPlan R s = (s', .ok plan) → Windows d s₀ s' (windows ++ [plan])

section windows

variable {R : RandLib} {d : Dataset} {s₀ s : MutableDatasetState} {windows : List (EpochPlan R)}

theorem epochPlan_epochLen (hR : R.Lawful) (hd : d.Valid) (hs : s.Inv d) :
    (d.epochPlan R s).1.epochLen = s.epochLen := by
  rcases Dataset.epochPlan_cases hR hd hs with ⟨-, next, -, heq⟩ | ⟨-, -, sampler, -, -, heq⟩ | ⟨-, -, heq⟩
  · rw [heq]
  · rw [heq]
  · rw [heq]

theorem Windows.inv (hR : R.Lawful) (hd : d.Valid) (hs : s₀.Inv d) (h : Windows d s₀ s windows) :
    s.Inv d ∧ s.epochLen = s₀.epochLen ∧ ∀ plan ∈ windows, plan.len = s₀.epochLen.1 ∧ plan.Total := by
  induction h with
  | nil => exact ⟨hs, rfl, nofun⟩
  | @snoc s s' windows plan _ hplan ih =>
      obtain ⟨hinv, hlen, hall⟩ := ih
      have hnext := Dataset.inv_epochPlan hR hd hinv
      have hepoch := epochPlan_epochLen hR hd hinv
      rw [hplan] at hnext hepoch
      refine ⟨hnext, hepoch.trans hlen, fun plan' hmem => ?_⟩
      rcases List.mem_append.mp hmem with hmem | hmem
      · exact hall plan' hmem
      · obtain rfl := List.mem_singleton.mp hmem
        refine ⟨by rw [Session.epochPlan_len (congrArg Prod.snd hplan), hlen], fun k hk => ?_⟩
        obtain ⟨physical, hphysical, -⟩ := Dataset.epochPlan_total hR hd hinv hplan hk
        rw [hphysical]
        rfl

end windows

/-! ### The stream of an adapter -/

section stream

variable {R : RandLib} {σ : Type} {sample : ℕ → σ}

/-- A native iterator over `plan` after some calls. -/
def Reached (sample : ℕ → σ) (d : Dataset) (plan : EpochPlan R) (reader : Reader R σ) : Prop :=
  ∃ acts, (∀ a ∈ acts, a ≠ .schedule false ∧ a ≠ .drop) ∧
    Machine.run (Reader.step fun _ p => .ok (sample p)) (Reader.begin plan d.prefetchSize d.numWorkers) acts =
      some reader

/-- What a native iterator over `plan` has returned. -/
theorem Reached.returned_eq {d : Dataset} {plan : EpochPlan R} {reader : Reader R σ} (hlen : 1 ≤ plan.len)
    (htotal : plan.Total) (h : Reached sample d plan reader) :
    reader.returned = (List.range reader.returned.length).map fun k =>
      if k < plan.len then (plan.planned k).map fun p => .ok (sample p) else none := by
  obtain ⟨acts, hacts, hrun⟩ := h
  have hinv : Reader.Inv plan (fun _ p => .ok (sample p)) d.prefetchSize d.numWorkers True reader :=
    Reader.inv_run hlen (fun _ => htotal) (fun _ a ha => (hacts a ha).1) hrun
  have hreads : Reader.ReadsOk plan (fun _ p => .ok (sample p)) plan.len := by
    intro k hk
    obtain ⟨p, hp⟩ := Option.isSome_iff_exists.mp (htotal k hk)
    exact ⟨sample p, Reader.outcome_of_planned hp⟩
  have hshape := hinv.shape.eq_of_reads hreads
  refine hshape.trans (List.map_congr_left fun k _ => ?_)
  split_ifs with hk
  · obtain ⟨p, hp⟩ := Option.isSome_iff_exists.mp (htotal k hk)
    rw [hp, Reader.outcome_of_planned hp]
    rfl
  · rfl

theorem Reached.next {d : Dataset} {plan : EpochPlan R} {reader reader' : Reader R σ} {acts : List ReaderAct}
    {result : Option (CacheResult σ)} (hlen : 1 ≤ plan.len) (htotal : plan.Total)
    (h : Reached sample d plan reader) (hnext : nativeNext sample reader acts = some (reader', result)) :
    Reached sample d plan reader' ∧ reader'.returned.length = reader.returned.length + 1 ∧
      result = if reader.returned.length < plan.len then
        (plan.planned reader.returned.length).map fun p => .ok (sample p) else none := by
  unfold nativeNext at hnext
  split_ifs at hnext with hbad
  obtain ⟨reader'', hrun, hnext⟩ := Option.bind_eq_some_iff.mp hnext
  split_ifs at hnext with hcount
  obtain ⟨result', hlast, heq⟩ := Option.map_eq_some_iff.mp hnext
  cases heq
  obtain ⟨before, hclean, hbefore⟩ := h
  have hreached : Reached sample d plan reader' := by
    refine ⟨before ++ acts, fun a ha => ?_, Machine.run_append _ hbefore hrun⟩
    rcases List.mem_append.mp ha with ha | ha
    · exact hclean a ha
    · exact ⟨fun h => hbad (.inl (h ▸ ha)), fun h => hbad (.inr (h ▸ ha))⟩
  refine ⟨hreached, hcount, ?_⟩
  rw [hreached.returned_eq hlen htotal, hcount, List.range_succ, List.map_append, List.map_singleton,
    List.getLast?_concat] at hlast
  exact (Option.some.inj hlast).symm

variable {τ : Type} {transform : σ → τ} {d : Dataset} {s₀ : MutableDatasetState}

/-- The samples of some rows, transformed. -/
def samplesOf (sample : ℕ → σ) (transform : σ → τ) (rows : List (Option ℕ)) : List (Option τ) :=
  rows.map (Option.map fun p => transform (sample p))

/-- Where in its windows a stream is when `given` was drawn from it. -/
def StreamAt (sample : ℕ → σ) (transform : σ → τ) (d : Dataset) (windows : List (EpochPlan R)) (given : List τ) :
    Stream R σ → Prop
  | .running reader => ∃ before plan, windows = before ++ [plan] ∧ Reached sample d plan reader ∧
      reader.returned.length ≤ plan.len ∧
      given.map some = samplesOf sample transform (windowRows before ++ plan.rows.take reader.returned.length)
  | _ => given.map some = samplesOf sample transform (windowRows windows)

/-- What was drawn so far are the samples of consecutive windows, from the first one on. -/
def Follows (sample : ℕ → σ) (transform : σ → τ) (d : Dataset) (s₀ : MutableDatasetState) (r : LocalReader R σ)
    (given : List τ) : Prop :=
  r.dataset = d ∧ ∃ windows, Windows d s₀ r.state windows ∧ StreamAt sample transform d windows given r.stream

theorem Follows.exists_windows {r : LocalReader R σ} {given : List τ}
    (h : Follows sample transform d s₀ r given) : ∃ windows : List (EpochPlan R), Windows d s₀ r.state windows ∧
      given.map some <+: samplesOf sample transform (windowRows windows) := by
  obtain ⟨-, windows, hwindows, hat⟩ := h
  refine ⟨windows, hwindows, ?_⟩
  cases hstream : r.stream with
  | fresh =>
      rw [hstream] at hat
      rw [hat]
  | ended =>
      rw [hstream] at hat
      rw [hat]
  | running reader =>
      rw [hstream] at hat
      obtain ⟨before, plan, rfl, -, -, hgiven⟩ := hat
      refine ⟨samplesOf sample transform (plan.rows.drop reader.returned.length), ?_⟩
      rw [hgiven, Dataset.windowRows_append, samplesOf, samplesOf, samplesOf, ← List.map_append, List.append_assoc,
        List.take_append_drop]

/-- One round of the generator of a dataset over its current window. -/
theorem pullNative_follows {r r' : LocalReader R σ} {reader : Reader R σ} {acts : List ReaderAct} {given : List τ}
    {pulled : Pulled σ} {before : List (EpochPlan R)} {plan : EpochPlan R} (hd : r.dataset = d)
    (hwindows : Windows d s₀ r.state (before ++ [plan])) (hlen : 1 ≤ plan.len) (htotal : plan.Total)
    (hreached : Reached sample d plan reader) (hle : reader.returned.length ≤ plan.len)
    (hgiven : given.map some =
      samplesOf sample transform (windowRows before ++ plan.rows.take reader.returned.length))
    (h : pullNative sample r reader acts = some (r', pulled)) :
    (∃ value, pulled = .item value ∧ Follows sample transform d s₀ r' (given ++ [transform value])) ∨
      (pulled = .stop ∧ plan.len ≤ reader.returned.length ∧
        Follows sample transform d s₀ r'.renew given) := by
  have hrows : plan.rows.length = plan.len := by simp [EpochPlan.rows]
  unfold pullNative at h
  cases hnext : nativeNext sample reader acts with
  | none => simp [hnext] at h
  | some result =>
      obtain ⟨reader', result⟩ := result
      obtain ⟨hreached', hcount, rfl⟩ := hreached.next hlen htotal hnext
      rcases Nat.lt_or_eq_of_le hle with hlt | heq
      · -- the window has another row
        obtain ⟨p, hp⟩ := Option.isSome_iff_exists.mp (htotal _ hlt)
        simp only [hnext, if_pos hlt, hp, Option.map_some, Option.some.injEq, Prod.mk.injEq] at h
        obtain ⟨rfl, rfl⟩ := h
        refine .inl ⟨sample p, rfl, hd, before ++ [plan], hwindows, before, plan, rfl, hreached', by omega, ?_⟩
        have htake : plan.rows.take (reader.returned.length + 1) =
            plan.rows.take reader.returned.length ++ [some p] := by
          rw [List.take_add_one, List.getElem?_eq_getElem (hrows ▸ hlt)]
          simp [EpochPlan.rows, hp]
        simp only [hcount, htake, List.map_append, hgiven, samplesOf, List.map_singleton, List.append_assoc,
          Option.map_some]
      · -- the window is exhausted
        simp only [hnext, if_neg heq.not_lt, Option.some.injEq, Prod.mk.injEq] at h
        obtain ⟨rfl, rfl⟩ := h
        refine .inr ⟨rfl, heq.ge, hd, before ++ [plan], hwindows, ?_⟩
        show given.map some = samplesOf sample transform (windowRows (before ++ [plan]))
        rw [hgiven, Dataset.windowRows_append, heq, ← hrows, List.take_length]

/-- The one error of a native dataset: its draw numbers are used up. -/
def drawsExhausted : CacheError := .invalidInput "shuffled draw offset overflowed u64"

theorem nextStream_follows (hR : R.Lawful) (hd : d.Valid) (hs : s₀.Inv d) {r r' : LocalReader R σ}
    {acts : List ReaderAct} {given : List τ} {pulled : Pulled σ} (h : Follows sample transform d s₀ r given)
    (hnext : nextStream sample r acts = some (r', pulled)) :
    (∃ value, pulled = .item value ∧ Follows sample transform d s₀ r' (given ++ [transform value])) ∨
      (pulled = .stop ∧ r.stream ≠ .fresh ∧ Follows sample transform d s₀ r'.renew given) ∨
      (pulled = .raised drawsExhausted ∧ Follows sample transform d s₀ r' given) := by
  obtain ⟨rfl, windows, hwindows, hat⟩ := h
  obtain ⟨hinv, hepoch, hlens⟩ := hwindows.inv hR hd hs
  unfold nextStream at hnext
  cases hstream : r.stream with
  | ended =>
      rw [hstream] at hat
      simp only [hstream, Option.some.injEq, Prod.mk.injEq] at hnext
      obtain ⟨rfl, rfl⟩ := hnext
      exact .inr (.inl ⟨rfl, nofun, rfl, windows, hwindows, hat⟩)
  | running reader =>
      rw [hstream] at hat
      simp only [hstream] at hnext
      obtain ⟨before, plan, rfl, hreached, hle, hgiven⟩ := hat
      obtain ⟨hlen, htotal⟩ := hlens plan (by simp)
      have hpos : 1 ≤ plan.len := hlen ▸ s₀.epochLen.2
      rcases pullNative_follows rfl hwindows hpos htotal hreached hle hgiven hnext with hitem | ⟨hstop, -, hend⟩
      · exact .inl hitem
      · exact .inr (.inl ⟨hstop, nofun, hend⟩)
  | fresh =>
      rw [hstream] at hat
      have hgiven : given.map some = samplesOf sample transform (windowRows windows) := hat
      simp only [hstream] at hnext
      rcases hplan : r.dataset.epochPlan R r.state with ⟨state, error | plan⟩
      · simp only [hplan, Option.some.injEq, Prod.mk.injEq] at hnext
        obtain ⟨rfl, rfl⟩ := hnext
        -- a refused plan changes nothing, and only the draw numbers refuse one
        obtain rfl := Dataset.epochPlan_error hplan
        have herror : error = drawsExhausted := by
          rcases Dataset.epochPlan_cases hR hd hinv with
            ⟨-, next, -, heq⟩ | ⟨-, -, sampler, -, -, heq⟩ | ⟨-, -, heq⟩
          · cases (congrArg Prod.snd hplan).symm.trans (congrArg Prod.snd heq)
          · cases (congrArg Prod.snd hplan).symm.trans (congrArg Prod.snd heq)
          · exact Except.error.inj ((congrArg Prod.snd hplan).symm.trans (congrArg Prod.snd heq))
        exact .inr (.inr ⟨by rw [herror], rfl, windows, hwindows, hgiven⟩)
      · simp only [hplan] at hnext
        have hwindows' := hwindows.snoc hplan
        obtain ⟨-, -, hlens'⟩ := hwindows'.inv hR hd hs
        obtain ⟨hlen, htotal⟩ := hlens' plan (by simp)
        have hpos : 1 ≤ plan.len := hlen ▸ s₀.epochLen.2
        have hbegin : Reached sample r.dataset plan
            (Reader.begin plan r.dataset.prefetchSize r.dataset.numWorkers) := ⟨[], nofun, rfl⟩
        have hnone : given.map some =
            samplesOf sample transform (windowRows windows ++ plan.rows.take 0) := by simpa using hgiven
        rcases pullNative_follows (r := ⟨r.dataset, state, .fresh⟩) rfl hwindows' hpos htotal hbegin (Nat.zero_le _)
          hnone hnext with hitem | ⟨-, hle, -⟩
        · exact .inl hitem
        · exact absurd hle (Nat.not_le_of_lt hpos)

/-- One sample drawn for a pass: it is the next one of the stream, or the draw numbers are used up. -/
theorem drawSample_follows (hR : R.Lawful) (hd : d.Valid) (hs : s₀.Inv d) {r r' : LocalReader R σ}
    {acts renewed : List ReaderAct} {given : List τ} {drawn : Except PassError σ}
    (h : Follows sample transform d s₀ r given) (hdraw : drawSample sample r acts renewed = some (r', drawn)) :
    (∃ value, drawn = .ok value ∧ Follows sample transform d s₀ r' (given ++ [transform value])) ∨
      (drawn = .error (.native drawsExhausted) ∧ Follows sample transform d s₀ r' given) := by
  unfold drawSample at hdraw
  cases hnext : nextStream sample r acts with
  | none => simp [hnext] at hdraw
  | some result =>
      obtain ⟨r₁, pulled⟩ := result
      rcases nextStream_follows hR hd hs h hnext with ⟨value, rfl, hitem⟩ | ⟨rfl, -, hend⟩ | ⟨rfl, hraised⟩
      · simp only [hnext, Option.some.injEq, Prod.mk.injEq] at hdraw
        obtain ⟨rfl, rfl⟩ := hdraw
        exact .inl ⟨value, rfl, hitem⟩
      · -- the stream ended and is renewed: a new window is not empty
        simp only [hnext] at hdraw
        cases hrenewed : nextStream sample r₁.renew renewed with
        | none => simp [hrenewed] at hdraw
        | some result =>
            obtain ⟨r₂, pulled⟩ := result
            rcases nextStream_follows hR hd hs hend hrenewed with
              ⟨value, rfl, hitem⟩ | ⟨-, hfresh, -⟩ | ⟨rfl, hraised⟩
            · simp only [hrenewed, Option.some.injEq, Prod.mk.injEq] at hdraw
              obtain ⟨rfl, rfl⟩ := hdraw
              exact .inl ⟨value, rfl, hitem⟩
            · exact absurd rfl hfresh
            · simp only [hrenewed, Option.some.injEq, Prod.mk.injEq] at hdraw
              obtain ⟨rfl, rfl⟩ := hdraw
              exact .inr ⟨rfl, hraised⟩
      · simp only [hnext, Option.some.injEq, Prod.mk.injEq] at hdraw
        obtain ⟨rfl, rfl⟩ := hdraw
        exact .inr ⟨rfl, hraised⟩

end stream

/-! ### Passes -/

theorem setEpochLen_ok {epochLen : ℕ} {s : MutableDatasetState} (h : (Dataset.setEpochLen epochLen s).2 = .ok ()) :
    (Dataset.setEpochLen epochLen s).1.epochLen.1 = epochLen := by
  unfold Dataset.setEpochLen epochLenNew Positive.new at h ⊢
  split_ifs at h ⊢ with hpos
  rfl

theorem createDataset_ok {loadCaches : List Path → CacheResult (List LoadedCache)} {paths : List Path}
    {seed : BitVec 64} {prefetchSize : ℕ} {numWorkers : Positive} {shuffle : Bool} {table : Dataset.ImportedTable}
    {quota : ℕ} {d : Dataset} {s : MutableDatasetState}
    (h : createDataset loadCaches paths seed prefetchSize numWorkers shuffle table quota = .ok (d, s)) :
    d.Valid ∧ s.Inv d ∧ s.epochLen.1 = quota := by
  obtain ⟨⟨d', s'⟩, hload, h⟩ := bind_eq_ok h
  obtain ⟨⟨⟩, -, h⟩ := bind_eq_ok h
  obtain ⟨⟨⟩, hresized, h⟩ := bind_eq_ok h
  obtain ⟨hd, hs⟩ := Dataset.valid_of_load hload
  have hinv := Dataset.inv_applyAll RandLib.lawful_first hd ⟨fun _ _ => .error "", fun _ => .error ""⟩
    [.updateArrow table, .setEpochLen quota] hs
  obtain ⟨rfl, rfl⟩ := Prod.mk.inj (Except.ok.inj h)
  exact ⟨hd, hinv, setEpochLen_ok hresized⟩

namespace ReaderAdapter

variable {R : RandLib} {σ τ : Type}

/-- The samples that pass `i` was given. -/
def given (a : ReaderAdapter R σ τ) (i : ℕ) : List (ℕ × τ) := a.delivered.filter fun p => p.1 = i

section inv

variable (quota : ℕ) (create : CacheResult (Dataset × MutableDatasetState)) (sample : ℕ → σ) (transform : σ → τ)

/-- What a pass that was given `n` samples can be. -/
def PassOk (n : ℕ) : Pass → Prop
  | .fresh => n = 0
  | .running remaining => n + remaining = quota
  | .exhausted => n = quota
  | .raised error => error = .native drawsExhausted ∨ ∃ failed, create = .error failed ∧ error = .native failed
  | .closed => True

/-- The stream of the adapter has delivered what the passes were given. -/
def StateOk (delivered : List τ) : ReaderState R σ → Prop
  | .pending => delivered = []
  | .empty => False
  | .ready r => ∃ d s₀, create = .ok (d, s₀) ∧ Follows sample transform d s₀ r delivered

structure Inv (a : ReaderAdapter R σ τ) : Prop where
  state : StateOk create sample transform (a.delivered.map Prod.snd) a.state
  passes : ∀ (i : ℕ) (pass : Pass), a.passes[i]? = some pass → PassOk quota create (a.given i).length pass
  beyond : ∀ i, a.passes.length ≤ i → a.given i = []

end inv

variable {quota : ℕ} {create : CacheResult (Dataset × MutableDatasetState)} {sample : ℕ → σ} {transform : σ → τ}
  {a a' : ReaderAdapter R σ τ}

theorem inv_opened : Inv quota create sample transform (opened : ReaderAdapter R σ τ) :=
  ⟨rfl, nofun, fun _ _ => rfl⟩

theorem passes_setPass {i : ℕ} {pass : Pass} {given : ℕ → ℕ}
    (h : ∀ (j : ℕ) (other : Pass), a.passes[j]? = some other → j ≠ i → PassOk quota create (given j) other)
    (hpass : PassOk quota create (given i) pass) (j : ℕ) (other : Pass)
    (hj : (a.setPass i pass)[j]? = some other) : PassOk quota create (given j) other := by
  rw [setPass, List.getElem?_modify] at hj
  by_cases hij : i = j
  · subst hij
    obtain ⟨old, -, hold⟩ := Option.map_eq_some_iff.mp hj
    simp only [if_true] at hold
    exact hold ▸ hpass
  · refine h j other ?_ (Ne.symm hij)
    simpa [hij] using hj

theorem Inv.setPass (h : Inv quota create sample transform a) {i : ℕ} {pass : Pass} {state : ReaderState R σ}
    (hstate : StateOk create sample transform (a.delivered.map Prod.snd) state)
    (hpass : PassOk quota create (a.given i).length pass) :
    Inv quota create sample transform { a with state, passes := a.setPass i pass } :=
  ⟨hstate, passes_setPass (fun j other hj _ => h.passes j other hj) hpass, fun j hj => h.beyond j (by
    simpa [ReaderAdapter.setPass] using hj)⟩

/-- One more sample for pass `i`. -/
theorem Inv.deliver (h : Inv quota create sample transform a) {i remaining : ℕ} {r : LocalReader R σ} {value : τ}
    (hi : i < a.passes.length) (hgiven : (a.given i).length + (remaining + 1) = quota)
    (hstate : StateOk create sample transform ((a.delivered ++ [(i, value)]).map Prod.snd) (.ready r)) :
    Inv quota create sample transform
      { state := .ready r, passes := a.setPass i (.running remaining), delivered := a.delivered ++ [(i, value)] } := by
  have hself : ∀ j, (a.delivered ++ [(i, value)]).filter (fun p => p.1 = j) =
      a.given j ++ if i = j then [(i, value)] else [] := by
    intro j
    rw [List.filter_append, given]
    by_cases hij : i = j <;> simp [hij]
  refine ⟨hstate, passes_setPass (fun j other hj hne => ?_) ?_, fun j hj => ?_⟩
  · simp only [given, hself j, if_neg (Ne.symm hne), List.append_nil]
    exact h.passes j other hj
  · have hlength : (a.given i).length + 1 + remaining = quota := by omega
    simpa [given, hself i, PassOk] using hlength
  · have hlength : a.passes.length ≤ j := by simpa [ReaderAdapter.setPass] using hj
    rw [given, hself j, h.beyond j hlength, if_neg (by omega), List.append_nil]

theorem inv_advance (hR : R.Lawful) (hcreate : ∀ d s₀, create = .ok (d, s₀) → d.Valid ∧ s₀.Inv d)
    {i remaining : ℕ} {r : LocalReader R σ} {acts renewed : List ReaderAct} (hstate : a.state = .ready r)
    (h : Inv quota create sample transform a) (hi : i < a.passes.length)
    (hgiven : (a.given i).length + remaining = quota)
    (hadvance : a.advance sample transform i r remaining acts renewed = some a') :
    Inv quota create sample transform a' := by
  have hready := h.state
  rw [hstate] at hready
  obtain ⟨d, s₀, hok, hfollows⟩ := hready
  obtain ⟨hd, hs⟩ := hcreate d s₀ hok
  unfold advance at hadvance
  cases remaining with
  | zero =>
      cases hadvance
      exact h.setPass h.state hgiven
  | succ remaining =>
      simp only at hadvance
      cases hdraw : drawSample sample r acts renewed with
      | none => simp [hdraw] at hadvance
      | some result =>
          obtain ⟨r', drawn⟩ := result
          rcases drawSample_follows hR hd hs hfollows hdraw with ⟨value, rfl, hitem⟩ | ⟨rfl, hraised⟩
          · simp only [hdraw, Option.some.injEq] at hadvance
            subst hadvance
            refine h.deliver hi hgiven ⟨d, s₀, hok, ?_⟩
            simpa using hitem
          · simp only [hdraw, Option.some.injEq] at hadvance
            subst hadvance
            exact h.setPass ⟨d, s₀, hok, hraised⟩ (.inl rfl)

theorem inv_step (hR : R.Lawful) (hquota : 0 < quota)
    (hcreate : ∀ d s₀, create = .ok (d, s₀) → d.Valid ∧ s₀.Inv d ∧ s₀.epochLen.1 = quota) {call : PassCall}
    (h : Inv quota create sample transform a) (hstep : a.step quota create sample transform call = some a') :
    Inv quota create sample transform a' := by
  have hvalid : ∀ d s₀, create = .ok (d, s₀) → d.Valid ∧ s₀.Inv d := fun d s₀ hok =>
    ⟨(hcreate d s₀ hok).1, (hcreate d s₀ hok).2.1⟩
  cases call with
  | iter =>
      cases hstep
      refine ⟨h.state, fun i pass hi => ?_, fun i hi => h.beyond i ?_⟩
      · rcases Nat.lt_or_ge i a.passes.length with hlt | hge
        · rw [List.getElem?_append_left hlt] at hi
          exact h.passes i pass hi
        · rw [List.getElem?_append_right hge] at hi
          obtain rfl := List.mem_singleton.mp (List.mem_of_getElem? hi)
          exact congrArg List.length (h.beyond i hge)
      · rw [List.length_append] at hi
        omega
  | close i =>
      simp only [step] at hstep
      split at hstep
      · cases hstep
      · cases hstep
        exact h.setPass h.state trivial
      · cases hstep
        exact h.setPass h.state trivial
      · cases hstep
        exact h
  | next i acts renewed =>
      simp only [step] at hstep
      split at hstep
      · cases hstep
      · -- the first `next` of the pass
        rename_i hfresh
        have hlt := (List.getElem?_eq_some_iff.mp hfresh).1
        have hzero : (a.given i).length = 0 := h.passes i .fresh hfresh
        have hstate := h.state
        cases hs : a.state with
        | empty =>
            rw [hs] at hstate
            exact hstate.elim
        | ready r =>
            rw [hs] at hstate
            obtain ⟨d, s₀, hok, hfollows⟩ := hstate
            obtain ⟨rfl, windows, hwindows, -⟩ := hfollows
            obtain ⟨hd, hinv, hlen⟩ := hcreate _ s₀ hok
            obtain ⟨-, hepoch, -⟩ := hwindows.inv hR hd hinv
            simp only [hs, setup] at hstep
            have hready : { a with state := .ready r } = a := by rw [← hs]
            rw [hready] at hstep
            exact inv_advance hR hvalid hs h hlt (by rw [hzero, hepoch, hlen, Nat.zero_add]) hstep
        | pending =>
            rw [hs] at hstate
            simp only [hs, setup, if_neg hquota.ne'] at hstep
            cases hcreated : create with
            | error error =>
                rw [hcreated] at hstep
                cases hstep
                have hraised : PassOk quota create (a.given i).length (.raised (.native error)) :=
                  .inr ⟨error, hcreated, rfl⟩
                have hkept := h.setPass h.state hraised
                rwa [hs, hcreated] at hkept
            | ok created =>
                obtain ⟨d, s₀⟩ := created
                obtain ⟨hd, hinv, hlen⟩ := hcreate d s₀ hcreated
                simp only [hcreated, Except.map] at hstep
                have hready : Inv quota create sample transform
                    ({ a with state := .ready ⟨d, s₀, .fresh⟩ } : ReaderAdapter R σ τ) := by
                  refine ⟨⟨d, s₀, hcreated, rfl, [], .nil, ?_⟩, h.passes, h.beyond⟩
                  rw [show a.delivered.map Prod.snd = [] from hstate]
                  rfl
                rw [← hcreated]
                refine inv_advance hR hvalid rfl hready hlt ?_ hstep
                show (a.given i).length + s₀.epochLen.1 = quota
                rw [hzero, hlen, Nat.zero_add]
      · rename_i remaining hrunning
        have hlt := (List.getElem?_eq_some_iff.mp hrunning).1
        split at hstep
        · rename_i r hs
          exact inv_advance hR hvalid hs h hlt (h.passes i _ hrunning) hstep
        · cases hstep
      · cases hstep
        exact h

end ReaderAdapter

section

variable {R : RandLib} {σ τ : Type}

/-- What was delivered is the beginning of consecutive windows. -/
theorem ReaderAdapter.exists_windows (hR : R.Lawful) {quota : ℕ} (hquota : 0 < quota) {sample : ℕ → σ} {transform : σ → τ}
    {calls : List PassCall} {a : ReaderAdapter R σ τ} {create : CacheResult (Dataset × MutableDatasetState)}
    (hcreated : ∀ d s₀, create = .ok (d, s₀) → d.Valid ∧ s₀.Inv d ∧ s₀.epochLen.1 = quota)
    (hrun : Machine.run (step quota create sample transform) opened calls = some a) {d : Dataset}
    {s₀ : MutableDatasetState} (hok : create = .ok (d, s₀)) :
    ∃ (s : MutableDatasetState) (windows : List (EpochPlan R)),
      Windows d s₀ s windows ∧ (∀ plan ∈ windows, plan.len = quota) ∧
      (a.delivered.map fun p => some p.2) <+:
        (windowRows windows).map (Option.map fun physical => transform (sample physical)) := by
  have hinv : Inv quota create sample transform a :=
    Machine.run_invariant (I := Inv quota create sample transform) _
      (fun _ _ _ h hstep => inv_step hR hquota hcreated h hstep) inv_opened hrun
  have hstate := hinv.state
  obtain ⟨hd, hs₀, hlen⟩ := hcreated d s₀ hok
  cases hs : a.state with
  | pending =>
      rw [hs] at hstate
      refine ⟨s₀, [], .nil, nofun, ?_⟩
      rw [List.map_eq_nil_iff.mp hstate]
      exact List.nil_prefix
  | empty =>
      rw [hs] at hstate
      exact hstate.elim
  | ready r =>
      rw [hs] at hstate
      obtain ⟨d', s₀', hok', hfollows⟩ := hstate
      obtain ⟨rfl, rfl⟩ := Prod.mk.inj (Except.ok.inj (hok'.symm.trans hok))
      obtain ⟨windows, hwindows, hdelivered⟩ := hfollows.exists_windows
      obtain ⟨-, -, hlens⟩ := hwindows.inv hR hd hs₀
      refine ⟨r.state, windows, hwindows, fun plan hmem => (hlens plan hmem).1.trans hlen, ?_⟩
      simpa [samplesOf, Function.comp_def] using hdelivered

/-- **Passes continue one stream.**  Over an adapter with a positive quota, iterators are made and advanced in
any order.  Nothing is delivered if the dataset cannot be made; otherwise what the calls of `next` delivered, in
their order, is the beginning of the samples of consecutive windows of the dataset, each as long as the quota.  A
pass that is exhausted was given as many samples as the quota says, no `StopIteration` is raised inside a pass, and
the only error of a pass over a dataset is the end of the draw numbers. -/
theorem passes_continue_stream (hR : R.Lawful) (loadCaches : List Path → CacheResult (List LoadedCache))
    (paths : List Path) (seed : BitVec 64) (prefetchSize : ℕ) (numWorkers : Positive) (shuffle : Bool)
    (table : Dataset.ImportedTable) {quota : ℕ} (hquota : 0 < quota) (sample : ℕ → σ) (transform : σ → τ)
    (calls : List PassCall) {a : ReaderAdapter R σ τ} {create : CacheResult (Dataset × MutableDatasetState)}
    (hcreate : create = createDataset loadCaches paths seed prefetchSize numWorkers shuffle table quota)
    (hrun : Machine.run (ReaderAdapter.step quota create sample transform) ReaderAdapter.opened calls = some a) :
    (∀ error, create = .error error → a.delivered = []) ∧
    (∀ d s₀, create = .ok (d, s₀) → ∃ (s : MutableDatasetState) (windows : List (EpochPlan R)),
      Windows d s₀ s windows ∧ (∀ plan ∈ windows, plan.len = quota) ∧
      (a.delivered.map fun p => some p.2) <+:
        (windowRows windows).map (Option.map fun physical => transform (sample physical))) ∧
    (∀ i : ℕ, a.passes[i]? = some .exhausted → (a.delivered.filter fun p => p.1 = i).length = quota) ∧
    (∀ i : ℕ, a.passes[i]? ≠ some (.raised .stopIteration)) ∧
    ∀ (i : ℕ) (error : PassError), a.passes[i]? = some (.raised error) → (∃ d s₀, create = .ok (d, s₀)) →
      error = .native (.invalidInput "shuffled draw offset overflowed u64") := by
  have hcreated : ∀ d s₀, create = .ok (d, s₀) → d.Valid ∧ s₀.Inv d ∧ s₀.epochLen.1 = quota := fun d s₀ hok =>
    createDataset_ok (hcreate ▸ hok)
  have hinv : ReaderAdapter.Inv quota create sample transform a :=
    Machine.run_invariant (I := ReaderAdapter.Inv quota create sample transform) _
      (fun _ _ _ h hstep => ReaderAdapter.inv_step hR hquota hcreated h hstep) ReaderAdapter.inv_opened hrun
  have hstate := hinv.state
  refine ⟨fun error herror => ?_, fun d s₀ hok => ?_, fun i hi => hinv.passes i _ hi, fun i hi => ?_,
    fun i error hi hok => ?_⟩
  · cases hs : a.state with
    | pending =>
        rw [hs] at hstate
        exact List.map_eq_nil_iff.mp hstate
    | empty =>
        rw [hs] at hstate
        exact hstate.elim
    | ready r =>
        rw [hs] at hstate
        obtain ⟨d, s₀, hok, -⟩ := hstate
        cases herror.symm.trans hok
  · exact ReaderAdapter.exists_windows hR hquota hcreated hrun hok
  · rcases hinv.passes i _ hi with hnative | ⟨failed, -, hnative⟩
    · cases hnative
    · cases hnative
  · obtain ⟨d, s₀, hok⟩ := hok
    rcases hinv.passes i _ hi with hnative | ⟨failed, hfailed, -⟩
    · exact hnative
    · cases hfailed.symm.trans hok

end

/-- The steps of a native iterator with one worker up to its first sample, and from one sample to the next. -/
def firstSample : List ReaderAct :=
  [.schedule true, .scheduleDone, .call, .scheduleDone, .start, .complete 0, .receive]

def nextSample : List ReaderAct := [.call, .schedule true, .scheduleDone, .start, .complete 0, .receive]

/-- A pass of two samples with another pass in between. -/
def interleaved : List PassCall :=
  [.iter, .next 0 firstSample [], .iter, .next 1 nextSample [], .next 0 [.call] firstSample, .next 0 [] []]

/-- Two passes over a population of one row: the first one is exhausted after two samples. -/
theorem passes_continue_stream_interleaved : ∃ a : ReaderAdapter RandLib.first ℕ ℕ,
    Machine.run (ReaderAdapter.step 2 (createDataset (fun _ => .ok [Dataset.OneRow.cache]) [["c"]] 0 1
      ⟨1, by decide⟩ false Dataset.OneRow.table 2) id id) ReaderAdapter.opened interleaved = some a ∧
    a.delivered = [(0, 1), (1, 1), (0, 1)] ∧ (a.delivered.filter fun p => p.1 = 0).length = 2 := by
  refine ⟨_, rfl, rfl, ?_⟩
  exact (passes_continue_stream RandLib.lawful_first (fun _ => .ok [Dataset.OneRow.cache]) [["c"]] 0 1
    ⟨1, by decide⟩ false Dataset.OneRow.table (by decide : 0 < 2) id id interleaved rfl rfl).2.2.1 0 rfl

end DatasetRt
