import DatasetRt.Lib.History
import DatasetRt.WriterChildren

/-! # Runs of the parallel writer

`Kept` is what holds in every state of `write_parallel`: the outcomes and the active children share out the indices
up to `nextIndex`, and what the parent has done was proper when it did it (`Proper`).  There is one lemma for each
function of the parent, `onward_step` puts them together, and `onward_run` is about runs. -/

namespace DatasetRt.WriteParallel

/-! ### The parent -/

/-- The parent is in `_supervise`, or starts children. -/
def ParentPhase.supervising : ParentPhase → Bool
  | .spawning | .looping | .polling _ _ _ | .dispatching _ => true
  | .stopping _ _ _ _ | .returned _ | .raised _ => false

/-- Worker `k` has not been asked to stop. -/
def ParentPhase.unasked : ParentPhase → ℕ → Bool
  | .stopping j .ask _ _, k => decide (j ≤ k)
  | .stopping j .release _ _, k => decide (j < k)
  | .returned _, _ | .raised _, _ => false
  | _, _ => true

def WorkerState.index? : WorkerState → Option ℕ
  | .active index _ _ => some index
  | _ => none

/-- The indices that children hold. -/
def activeIndices (s : WriteParallel) : List ℕ := s.workers.filterMap fun w => w.state.index?

/-- What the parent may do, given what it has done. -/
def Proper (c : ParallelCall) (jobs : List SourceItem) (past : List Event) : Event → Prop
  | .dispatched index destination disk =>
      (∃ job, jobs[index]? = some (.job job) ∧ destination = tempCachePathForSource c.path job.text) ∧
        disk.pathExists destination = false ∧ ∀ d fs, .dispatched index d fs ∉ past
  | .put found => found = none
  | .assigned _ found => found = none
  | .removed index destination w =>
      (∃ disk, .dispatched index destination disk ∈ past) ∧
        (w.exitcode.isSome = true ∨ w.held = [] ∧ ∃ found, .assigned index found ∈ past)

/-- The invariant of `write_parallel`. -/
structure Kept (c : ParallelCall) (jobs : List SourceItem) (s : WriteParallel) : Prop where
  linked : ∀ (k : ℕ) (w : WriterProcess), s.workers[k]? = some w → s.phase.unasked k = true → w.Linked jobs
  owned : ∀ (k : ℕ) (w : WriterProcess), s.workers[k]? = some w → ∀ index deadline destination,
    w.state = .active index deadline destination → ∃ disk, .dispatched index destination disk ∈ s.history
  ledger : s.phase.supervising = true → (s.outcomes.map Prod.fst ++ s.activeIndices).Perm (List.range s.nextIndex)
  keys : (s.outcomes.map Prod.fst).Nodup
  named : ∀ o ∈ s.outcomes, Named jobs o.1 o.2
  issued : ∀ index destination disk, .dispatched index destination disk ∈ s.history → index < s.nextIndex
  proper : History.Each (Proper c jobs) s.history
  returned : ∀ results, s.phase = .returned results → ∃ failure, results = orderedOutcomes c jobs s.outcomes failure

section parent

variable {c : ParallelCall} {jobs : List SourceItem} {s s' : WriteParallel} {k : ℕ} {w w' : WriterProcess}

theorem unasked_of_supervising {phase : ParentPhase} (h : phase.supervising = true) (k : ℕ) : phase.unasked k = true := by
  cases phase <;> first | rfl | cases h

theorem not_returned (hsup : s.phase.supervising = true) (results : List CacheWriteResult) :
    s.phase ≠ .returned results := by
  intro hphase
  rw [hphase] at hsup
  cases hsup

theorem Kept.goto (h : Kept c jobs s) {phase : ParentPhase} (hsup : phase.supervising = true → s.phase.supervising = true)
    (hunasked : ∀ k, phase.unasked k = true → s.phase.unasked k = true)
    (hreturned : ∀ results, phase = .returned results → ∃ failure, results = orderedOutcomes c jobs s.outcomes failure) :
    Kept c jobs (s.goto phase) :=
  ⟨fun k w hw hk => h.linked k w hw (hunasked k hk), h.owned, fun hphase => h.ledger (hsup hphase), h.keys, h.named,
    h.issued, h.proper, hreturned⟩

/-- From a supervising phase to one where nobody has been asked to stop. -/
theorem Kept.goto_of_supervising (h : Kept c jobs s) (hsup : s.phase.supervising = true) {phase : ParentPhase}
    (hunasked : ∀ k, phase.unasked k = true) : Kept c jobs (s.goto phase) := by
  refine h.goto (fun _ => hsup) (fun k _ => unasked_of_supervising hsup k) ?_
  rintro results rfl
  cases hunasked 0

theorem Kept.raise (h : Kept c jobs s) (hsup : s.phase.supervising = true) (error : PyException) :
    Kept c jobs (s.raise error) := h.goto_of_supervising hsup fun k => by simp [ParentPhase.unasked]

theorem Kept.polled (h : Kept c jobs s) (hsup : s.phase.supervising = true) (k : ℕ) (failure result : Option String) :
    Kept c jobs (s.polled k failure result) := h.goto_of_supervising hsup fun _ => rfl

theorem Kept.world (h : Kept c jobs s) (now : ℕ) (disk : FileTree) : Kept c jobs { s with now, disk } :=
  ⟨h.linked, h.owned, h.ledger, h.keys, h.named, h.issued, h.proper, h.returned⟩

theorem Kept.record (h : Kept c jobs s) {event : Event} (hproper : Proper c jobs s.history event)
    (hissued : ∀ index destination disk, event = .dispatched index destination disk → index < s.nextIndex) :
    Kept c jobs (s.record event) where
  linked := h.linked
  owned k w hw index deadline destination hstate :=
    (h.owned k w hw index deadline destination hstate).imp fun _ hmem => List.mem_append_left _ hmem
  ledger := h.ledger
  keys := h.keys
  named := h.named
  issued index destination disk hmem := by
    rcases List.mem_append.mp hmem with hmem | hmem
    · exact h.issued index destination disk hmem
    · exact hissued index destination disk (List.mem_singleton.mp hmem).symm
  proper := h.proper.snoc hproper
  returned := h.returned

/-! ### One worker is replaced -/

theorem filterMap_set {α β : Type} (f : α → Option β) {xs : List α} {x : α} (hx : xs[k]? = some x) :
    ∃ before after, xs.filterMap f = before ++ ((f x).toList ++ after) ∧
      ∀ y, (xs.set k y).filterMap f = before ++ ((f y).toList ++ after) := by
  obtain ⟨hk, hget⟩ := List.getElem?_eq_some_iff.mp hx
  have hone : ∀ y, List.filterMap f [y] = (f y).toList := fun y => by
    cases hy : f y <;> simp [hy]
  refine ⟨(xs.take k).filterMap f, (xs.drop (k + 1)).filterMap f, ?_, fun y => ?_⟩
  · conv_lhs => rw [← List.take_append_drop k xs, List.drop_eq_getElem_cons hk, hget, ← List.singleton_append]
    rw [List.filterMap_append, List.filterMap_append, hone]
  · rw [List.set_eq_take_append_cons_drop, if_pos hk, ← List.singleton_append, List.filterMap_append,
      List.filterMap_append, hone]

theorem getElem?_setWorker {j : ℕ} {v : WriterProcess} (h : (s.setWorker k w').workers[j]? = some v) :
    (j = k ∧ v = w') ∨ s.workers[j]? = some v := by
  unfold setWorker at h
  simp only [List.getElem?_set] at h
  split_ifs at h with hj hk
  · exact .inl ⟨hj.symm, (Option.some.inj h).symm⟩
  · exact .inr h

theorem Kept.setWorker (h : Kept c jobs s) (hw : s.workers[k]? = some w)
    (hlinked : s.phase.unasked k = true → w'.Linked jobs)
    (howned : ∀ index deadline destination, w'.state = .active index deadline destination →
      w.state = .active index deadline destination)
    (hindex : s.phase.supervising = true → w'.state.index? = w.state.index?) : Kept c jobs (s.setWorker k w') where
  linked j v hv hj := by
    rcases getElem?_setWorker hv with ⟨rfl, rfl⟩ | hv
    · exact hlinked hj
    · exact h.linked j v hv hj
  owned j v hv index deadline destination hstate := by
    rcases getElem?_setWorker hv with ⟨rfl, rfl⟩ | hv
    · exact h.owned j w hw index deadline destination (howned index deadline destination hstate)
    · exact h.owned j v hv index deadline destination hstate
  ledger hphase := by
    obtain ⟨before, after, hbefore, hafter⟩ := filterMap_set (fun w : WriterProcess => w.state.index?) hw
    have hsame : (s.setWorker k w').activeIndices = s.activeIndices := by
      unfold activeIndices WriteParallel.setWorker
      rw [hafter, hbefore, hindex hphase]
    rw [hsame]
    exact h.ledger hphase
  keys := h.keys
  named := h.named
  issued := h.issued
  proper := h.proper
  returned := h.returned

/-! ### Outcomes -/

theorem setItem_of_not_mem {outcomes : List (ℕ × CacheWriteResult)} {index : ℕ}
    (hindex : index ∉ outcomes.map Prod.fst) (result : CacheWriteResult) :
    setItem outcomes index result = outcomes ++ [(index, result)] := if_neg hindex

theorem getItem_of_not_mem {outcomes : List (ℕ × CacheWriteResult)} {index : ℕ}
    (hindex : index ∉ outcomes.map Prod.fst) : getItem outcomes index = none := by
  have hfind : outcomes.find? (fun o => o.1 = index) = none := by
    rw [List.find?_eq_none]
    intro o ho heq
    exact hindex (List.mem_map.mpr ⟨o, ho, by simpa using heq⟩)
  rw [getItem, hfind]
  rfl

/-- Of the source that is next there is neither an outcome nor a worker. -/
theorem Kept.next_fresh (h : Kept c jobs s) (hsup : s.phase.supervising = true) :
    s.nextIndex ∉ s.outcomes.map Prod.fst := by
  intro hmem
  have hrange := (h.ledger hsup).mem_iff.mp (List.mem_append_left _ hmem)
  exact absurd (List.mem_range.mp hrange) (lt_irrefl _)

theorem Kept.active_fresh (h : Kept c jobs s) (hsup : s.phase.supervising = true) (hw : s.workers[k]? = some w)
    {index deadline : ℕ} {destination : Path} (hstate : w.state = .active index deadline destination) :
    index ∉ s.outcomes.map Prod.fst := by
  intro hmem
  have hnodup := (h.ledger hsup).nodup_iff.mpr List.nodup_range
  have hactive : index ∈ s.activeIndices :=
    List.mem_filterMap.mpr ⟨w, List.mem_of_getElem? hw, by rw [hstate]; rfl⟩
  exact (List.nodup_append.mp hnodup).2.2 index hmem index hactive rfl

theorem nodup_append_singleton {keys : List ℕ} (h : keys.Nodup) {index : ℕ} (hindex : index ∉ keys) :
    (keys ++ [index]).Nodup :=
  List.nodup_append.mpr ⟨h, List.nodup_singleton _, fun a ha b hb hab => hindex (by
    rw [List.mem_singleton] at hb
    rwa [← hb, ← hab])⟩

theorem named_append {outcomes : List (ℕ × CacheWriteResult)} (h : ∀ o ∈ outcomes, Named jobs o.1 o.2) {index : ℕ}
    {result : CacheWriteResult} (hresult : Named jobs index result) :
    ∀ o ∈ outcomes ++ [(index, result)], Named jobs o.1 o.2 := by
  intro o ho
  rcases List.mem_append.mp ho with ho | ho
  · exact h o ho
  · rw [List.mem_singleton.mp ho]
    exact hresult

/-- The outcome of a source that was not given away. -/
theorem Kept.refuse (h : Kept c jobs s) (hsup : s.phase.supervising = true) {item : SourceItem}
    (hitem : jobs[s.nextIndex]? = some item) {result : CacheWriteResult} (hname : result.sourceName = item.name) :
    Kept c jobs ({ s with nextIndex := s.nextIndex + 1 }.assign s.nextIndex result) ∧
      s.outcomes <+: ({ s with nextIndex := s.nextIndex + 1 }.assign s.nextIndex result).outcomes := by
  have hfresh := h.next_fresh hsup
  have houtcomes : ({ s with nextIndex := s.nextIndex + 1 }.assign s.nextIndex result).outcomes =
      s.outcomes ++ [(s.nextIndex, result)] := setItem_of_not_mem hfresh result
  have hproper : Proper c jobs s.history (.assigned s.nextIndex (getItem s.outcomes s.nextIndex)) :=
    getItem_of_not_mem hfresh
  refine ⟨⟨h.linked, fun j v hv index deadline destination hstate => ?_, fun _ => ?_, ?_, ?_,
    fun index destination disk hmem => ?_, h.proper.snoc hproper, ?_⟩, houtcomes ▸ List.prefix_append _ _⟩
  · exact (h.owned j v hv index deadline destination hstate).imp fun _ hmem => List.mem_append_left _ hmem
  · rw [houtcomes, List.map_append, List.perm_iff_count]
    intro i
    have hcount := List.perm_iff_count.mp (h.ledger hsup) i
    simp only [List.count_append, List.map_cons, List.map_nil] at hcount ⊢
    change _ + List.count i s.activeIndices = List.count i (List.range (s.nextIndex + 1))
    rw [List.range_succ, List.count_append]
    omega
  · rw [houtcomes, List.map_append]
    exact nodup_append_singleton h.keys hfresh
  · rw [houtcomes]
    exact named_append h.named ⟨item, hitem, hname⟩
  · rcases List.mem_append.mp hmem with hmem | hmem
    · exact (h.issued index destination disk hmem).trans s.nextIndex.lt_succ_self
    · cases List.mem_singleton.mp hmem
  · exact fun results hphase => absurd hphase (not_returned hsup results)

theorem Kept.collect (h : Kept c jobs s) (hsup : s.phase.supervising = true) (hw : s.workers[k]? = some w)
    {index deadline : ℕ} {destination : Path} (hstate : w.state = .active index deadline destination)
    {result : CacheWriteResult} (hnamed : Named jobs index result) (hidle : w'.state = .idle) (hlinked : w'.Linked jobs) :
    Kept c jobs ((s.assign index result).setWorker k w') ∧
      s.outcomes <+: ((s.assign index result).setWorker k w').outcomes := by
  have hfresh := h.active_fresh hsup hw hstate
  have houtcomes : ((s.assign index result).setWorker k w').outcomes = s.outcomes ++ [(index, result)] :=
    setItem_of_not_mem hfresh result
  have hproper : Proper c jobs s.history (.assigned index (getItem s.outcomes index)) := getItem_of_not_mem hfresh
  refine ⟨⟨fun j v hv hj => ?_, fun j v hv i d p hv' => ?_, fun _ => ?_, ?_, ?_, fun i p disk hmem => ?_,
    h.proper.snoc hproper, ?_⟩, houtcomes ▸ List.prefix_append _ _⟩
  · rcases getElem?_setWorker hv with ⟨rfl, rfl⟩ | hv
    · exact hlinked
    · exact h.linked j v hv hj
  · rcases getElem?_setWorker hv with ⟨rfl, rfl⟩ | hv
    · rw [hidle] at hv'
      cases hv'
    · exact (h.owned j v hv i d p hv').imp fun _ hmem => List.mem_append_left _ hmem
  · obtain ⟨before, after, hbefore, hafter⟩ := filterMap_set (fun w : WriterProcess => w.state.index?) hw
    have hactive : s.activeIndices = before ++ ([index] ++ after) := by
      unfold activeIndices
      rw [hbefore, hstate]
      rfl
    have hactive' : ((s.assign index result).setWorker k w').activeIndices = before ++ ([] ++ after) := by
      have hset := hafter w'
      rw [hidle] at hset
      exact hset
    rw [houtcomes, hactive', List.map_append, List.perm_iff_count]
    intro i
    have hcount := List.perm_iff_count.mp (h.ledger hsup) i
    rw [hactive] at hcount
    simp only [List.count_append, List.map_cons, List.map_nil, List.count_nil] at hcount ⊢
    change _ = List.count i (List.range s.nextIndex)
    omega
  · rw [houtcomes, List.map_append]
    exact nodup_append_singleton h.keys hfresh
  · rw [houtcomes]
    exact named_append h.named hnamed
  · rcases List.mem_append.mp hmem with hmem | hmem
    · exact h.issued i p disk hmem
    · cases List.mem_singleton.mp hmem
  · exact fun results hphase => absurd hphase (not_returned hsup results)

theorem Kept.give (h : Kept c jobs s) (hsup : s.phase.supervising = true) (hw : s.workers[k]? = some w)
    (hidle : w.state = .idle) {job : SourceJob} (hjob : jobs[s.nextIndex]? = some (.job job))
    (hfree : s.disk.pathExists (tempCachePathForSource c.path job.text) = false) (deadline : ℕ) :
    Kept c jobs ((({ s with nextIndex := s.nextIndex + 1 }.record
        (.dispatched s.nextIndex (tempCachePathForSource c.path job.text) s.disk)).record (.put none)).setWorker k
      { w with
        state := .active s.nextIndex deadline (tempCachePathForSource c.path job.text)
        jobs := some (.job job) }) := by
  have hlinked := h.linked k w hw (unasked_of_supervising hsup k)
  have hproper : Proper c jobs s.history (.dispatched s.nextIndex (tempCachePathForSource c.path job.text) s.disk) :=
    ⟨⟨job, hjob, rfl⟩, hfree, fun d fs hmem => lt_irrefl _ (h.issued _ _ _ hmem)⟩
  refine ⟨fun j v hv hj => ?_, fun j v hv i d p hv' => ?_, fun _ => ?_, h.keys, h.named, fun i p disk hmem => ?_,
    (h.proper.snoc hproper).snoc rfl, ?_⟩
  · rcases getElem?_setWorker hv with ⟨rfl, rfl⟩ | hv
    · obtain ⟨state, mail, process, results⟩ := w
      obtain rfl : state = .idle := hidle
      cases hlinked with
      | idle hquiet => exact .given hjob hquiet
    · exact h.linked j v hv hj
  · rcases getElem?_setWorker hv with ⟨rfl, rfl⟩ | hv
    · cases hv'
      exact ⟨s.disk, by simp [WriteParallel.setWorker, WriteParallel.record]⟩
    · exact (h.owned j v hv i d p hv').imp fun _ hmem => List.mem_append_left _ (List.mem_append_left _ hmem)
  · obtain ⟨before, after, hbefore, hafter⟩ := filterMap_set (fun w : WriterProcess => w.state.index?) hw
    have hactive : s.activeIndices = before ++ ([] ++ after) := by
      unfold activeIndices
      rw [hbefore, hidle]
      rfl
    rw [List.perm_iff_count]
    intro i
    have hcount := List.perm_iff_count.mp (h.ledger hsup) i
    change List.count i (s.outcomes.map Prod.fst ++ List.filterMap _ (s.workers.set k _)) =
      List.count i (List.range (s.nextIndex + 1))
    rw [hafter, List.range_succ]
    rw [hactive] at hcount
    simp only [List.count_append, List.count_nil, WorkerState.index?, Option.toList_some] at hcount ⊢
    omega
  · rcases List.mem_append.mp hmem with hmem | hmem
    · rcases List.mem_append.mp hmem with hmem | hmem
      · exact (h.issued i p disk hmem).trans s.nextIndex.lt_succ_self
      · cases List.mem_singleton.mp hmem
        exact s.nextIndex.lt_succ_self
    · cases List.mem_singleton.mp hmem
  · exact fun results hphase => absurd hphase (not_returned hsup results)

/-! ### The functions of the parent -/

/-- A destination that a child held, and holds no more. -/
theorem Kept.cleanup (h : Kept c jobs s) {index : ℕ} {destination : Path}
    (howned : ∃ disk, .dispatched index destination disk ∈ s.history)
    (hdone : w.exitcode.isSome = true ∨ w.held = [] ∧ ∃ found, .assigned index found ∈ s.history)
    (fault : Option String) : Kept c jobs (s.cleanup index destination w fault).1 ∧
      (s.cleanup index destination w fault).1.outcomes = s.outcomes ∧
      (s.cleanup index destination w fault).1.phase = s.phase := by
  have hrecord : Kept c jobs (s.record (.removed index destination w)) := h.record ⟨howned, hdone⟩ (by simp)
  unfold WriteParallel.cleanup
  split_ifs
  · cases fault with
    | none => exact ⟨hrecord.world _ _, rfl, rfl⟩
    | some diagnostic => exact ⟨hrecord, rfl, rfl⟩
  · exact ⟨h, rfl, rfl⟩

variable (c jobs s) in
/-- The invariant holds after a step, and no outcome was overwritten. -/
structure Onward (s' : WriteParallel) : Prop where
  kept : Kept c jobs s'
  outcomes : s.outcomes <+: s'.outcomes

theorem handle_finished {index deadline : ℕ} {destination : Path} {fault failure : Option String}
    {result : CacheWriteResult} {t : WriteParallel} {error : Option PyException}
    (hstate : w.state = .active index deadline destination)
    (hcleanup : ((s.assign index result).setWorker k { w with state := .idle }).cleanup index destination w fault =
      (t, error)) :
    s.handle k w failure fault (.finished result) = (error.map t.raise).getD (t.goto (.polling k .exitcode failure)) := by
  unfold handle
  simp only [hstate, hcleanup]
  cases error <;> rfl

theorem onward_handle (h : Kept c jobs s) (hsup : s.phase.supervising = true) (hw : s.workers[k]? = some w)
    {message : WorkerMessage} {rest : List (Except String WorkerMessage)} (hresults : w.results = .ok message :: rest)
    (failure fault : Option String) : Onward c jobs s (s.handle k { w with results := rest } failure fault message) := by
  have hlinked := h.linked k w hw (unasked_of_supervising hsup k)
  -- A message after which the child leaves.
  have hlast : Last (.ok message) → Kept c jobs (s.setWorker k { w with results := rest }) := fun hlast =>
    h.setWorker hw (fun _ => linked_receive_last hlinked hresults hlast) (fun _ _ _ => id) fun _ => rfl
  cases message with
  | ready =>
      obtain ⟨⟨deadline, hstate⟩, hidle⟩ := linked_receive_ready hlinked hresults
      have hkept : Kept c jobs (s.setWorker k { w with state := .idle, results := rest }) :=
        h.setWorker hw (fun _ => hidle) (by simp) fun _ => by rw [hstate]; rfl
      exact ⟨hkept.goto_of_supervising hsup fun _ => rfl, List.prefix_rfl⟩
  | finished result =>
      obtain ⟨index, deadline, destination, hstate, hnamed, hheld, hidle⟩ := linked_receive_finished hlinked hresults
      obtain ⟨hkept, hprefix⟩ := h.collect hsup hw hstate hnamed rfl hidle
      have howned := (h.owned k w hw index deadline destination hstate).imp fun _ hmem =>
        List.mem_append_left [Event.assigned index (getItem s.outcomes index)] hmem
      have hassigned : ∃ found, Event.assigned index found ∈
          s.history ++ [Event.assigned index (getItem s.outcomes index)] :=
        ⟨_, List.mem_append_right _ (List.mem_singleton_self _)⟩
      have hcleaned := hkept.cleanup (w := { w with results := rest }) howned (.inr ⟨hheld, hassigned⟩) fault
      rcases hc : WriteParallel.cleanup _ index destination { w with results := rest } fault with ⟨t, error⟩
      rw [hc] at hcleaned
      obtain ⟨hkept, houtcomes, hphase⟩ := hcleaned
      rw [handle_finished (w := { w with results := rest }) hstate hc]
      cases error with
      | none => exact ⟨hkept.goto_of_supervising (hphase ▸ hsup) fun _ => rfl, houtcomes ▸ hprefix⟩
      | some error => exact ⟨hkept.raise (hphase ▸ hsup) error, houtcomes ▸ hprefix⟩
  | interrupted interrupted =>
      cases interrupted with
      | keyboard message => exact ⟨(hlast trivial).raise hsup (.keyboardInterrupt message), List.prefix_rfl⟩
      | exit message status => exact ⟨(hlast trivial).raise hsup (.systemExit message status), List.prefix_rfl⟩
  | failed message => exact ⟨(hlast trivial).polled hsup k failure _, List.prefix_rfl⟩

theorem onward_poll (h : Kept c jobs s) (hsup : s.phase.supervising = true) (hw : s.workers[k]? = some w)
    (failure fault : Option String) (point : PollPoint) : Onward c jobs s (s.poll k w failure fault point) := by
  cases point with
  | results =>
      have hlinked := h.linked k w hw (unasked_of_supervising hsup k)
      have hsame : ∀ result, Onward c jobs s ((s.setWorker k w).polled k failure result) := fun result =>
        ⟨(h.setWorker hw (fun _ => hlinked) (fun _ _ _ => id) fun _ => rfl).polled hsup k failure result,
          List.prefix_rfl⟩
      unfold poll WriterProcess.receive
      rcases hresults : w.results with _ | ⟨diagnostic | message, rest⟩
      · cases w.process <;> simp only
        case closed => exact hsame _
        case dead => exact hsame _
        all_goals exact ⟨h.goto_of_supervising hsup fun _ => rfl, List.prefix_rfl⟩
      · have hkept : Kept c jobs (s.setWorker k { w with results := rest }) := h.setWorker hw
          (fun _ => linked_receive_last hlinked hresults trivial) (fun _ _ _ => id) fun _ => rfl
        exact ⟨hkept.polled hsup k failure _, List.prefix_rfl⟩
      · exact onward_handle h hsup hw hresults failure fault
  | exitcode =>
      unfold poll
      cases hexit : w.exitcode with
      | none => exact ⟨h.goto_of_supervising hsup fun _ => rfl, List.prefix_rfl⟩
      | some exitcode => exact ⟨h.polled hsup k failure _, List.prefix_rfl⟩
  | deadline =>
      unfold poll
      cases hstate : w.state <;> exact ⟨h.polled hsup k failure _, List.prefix_rfl⟩

theorem onward_dispatch (h : Kept c jobs s) (hsup : s.phase.supervising = true) (hw : s.workers[k]? = some w)
    (hidle : w.state = .idle) {job : SourceJob} (hjob : jobs[s.nextIndex]? = some (.job job)) (faults : Faults) :
    Onward c jobs s (dispatch c { s with nextIndex := s.nextIndex + 1 } k w s.nextIndex job faults) := by
  have hrefuse : ∀ message, Onward c jobs s
      ({ s with nextIndex := s.nextIndex + 1 }.assign s.nextIndex (.error job.name message)) := fun message =>
    let ⟨hkept, hprefix⟩ := h.refuse hsup hjob rfl
    ⟨hkept, hprefix⟩
  have hempty : w.jobs = none := linked_idle (h.linked k w hw (unasked_of_supervising hsup k)) hidle
  unfold dispatch
  cases faults.serialization with
  | some diagnostic => exact hrefuse _
  | none =>
      cases faults.destination with
      | some diagnostic => exact hrefuse _
      | none =>
          simp only
          split_ifs with hexists
          · exact hrefuse _
          · simp only [put, hempty]
            exact ⟨h.give hsup hw hidle hjob (by simpa using hexists) _, List.prefix_rfl⟩

theorem onward_stop (h : Kept c jobs s) {point : StopPoint} {ending : Ending} {firstError : Option PyException}
    (hphase : s.phase = .stopping k point ending firstError) (hw : s.workers[k]? = some w) (fault : Option String) :
    Onward c jobs s (s.stop k w ending firstError fault point) := by
  have hgoto : ∀ {t : WriteParallel} j p e f, Kept c jobs t → t.phase = s.phase →
      (∀ i, (ParentPhase.stopping j p e f).unasked i = true → s.phase.unasked i = true) →
      Kept c jobs (t.goto (.stopping j p e f)) := fun j p e f ht hsame hunasked =>
    ht.goto (by simp [ParentPhase.supervising]) (fun i hi => hsame ▸ hunasked i hi) (by simp)
  cases point with
  | ask =>
      have hlater : ∀ i, (ParentPhase.stopping k .release ending firstError).unasked i = true →
          s.phase.unasked i = true := by
        intro i hi
        simp only [hphase, ParentPhase.unasked, decide_eq_true_eq] at hi ⊢
        omega
      unfold stop
      cases hstate : w.state with
      | idle =>
          cases hexit : w.exitcode with
          | some exitcode => exact ⟨hgoto _ _ _ _ h rfl hlater, List.prefix_rfl⟩
          | none =>
              have hempty := linked_idle (h.linked k w hw (by simp [hphase, ParentPhase.unasked])) hstate
              simp only [put, hempty]
              refine ⟨?_, List.prefix_rfl⟩
              have hkept : Kept c jobs ((s.goto (.stopping k .release ending firstError)).record (.put none)) :=
                (hgoto _ _ _ _ h rfl hlater).record rfl (by simp)
              exact hkept.setWorker (w := w) hw (by simp [WriteParallel.record, WriteParallel.goto, ParentPhase.unasked])
                (fun _ _ _ => id) fun _ => rfl
      | starting deadline => exact ⟨hgoto _ _ _ _ h rfl hlater, List.prefix_rfl⟩
      | active index deadline destination => exact ⟨hgoto _ _ _ _ h rfl hlater, List.prefix_rfl⟩
  | release =>
      have hnext : ∀ f i, (ParentPhase.stopping (k + 1) .ask ending f).unasked i = true → s.phase.unasked i = true := by
        intro f i hi
        simp only [hphase, ParentPhase.unasked, decide_eq_true_eq] at hi ⊢
        omega
      unfold stop
      cases hexit : w.exitcode with
      | none => exact ⟨hgoto _ _ _ _ h rfl (hnext _), List.prefix_rfl⟩
      | some exitcode =>
          cases hstate : w.state with
          | idle => exact ⟨hgoto _ _ _ _ h rfl (hnext _), List.prefix_rfl⟩
          | starting deadline => exact ⟨hgoto _ _ _ _ h rfl (hnext _), List.prefix_rfl⟩
          | active index deadline destination =>
              have hkept : Kept c jobs (s.setWorker k { w with state := .idle }) := h.setWorker hw
                (by simp [hphase, ParentPhase.unasked]) (by simp) (by simp [hphase, ParentPhase.supervising])
              obtain ⟨hcleaned, houtcomes, hsame⟩ := hkept.cleanup (w := w)
                (h.owned k w hw index deadline destination hstate) (.inl (by simp [hexit])) fault
              exact ⟨hgoto _ _ _ _ hcleaned hsame (hnext _), houtcomes ▸ List.prefix_rfl⟩

theorem Kept.spawn (h : Kept c jobs s) (hsup : s.phase.supervising = true) (deadline : ℕ) :
    Kept c jobs { s with workers := s.workers ++ [⟨.starting deadline, none, .starting, []⟩] } := by
  have hcases : ∀ (j : ℕ) (v : WriterProcess), (s.workers ++ [⟨.starting deadline, none, .starting, []⟩])[j]? = some v →
      s.workers[j]? = some v ∨ v = ⟨.starting deadline, none, .starting, []⟩ := by
    intro j v hv
    rw [List.getElem?_append] at hv
    split_ifs at hv
    · exact .inl hv
    · exact .inr (List.mem_singleton.mp (List.mem_of_getElem? hv))
  refine ⟨fun j v hv hj => ?_, fun j v hv index d destination hstate => ?_, fun _ => ?_, h.keys, h.named, h.issued,
    h.proper, h.returned⟩
  · rcases hcases j v hv with hv | rfl
    · exact h.linked j v hv hj
    · exact .starting
  · rcases hcases j v hv with hv | rfl
    · exact h.owned j v hv index d destination hstate
    · cases hstate
  · unfold activeIndices
    rw [List.filterMap_append]
    simpa [WorkerState.index?, activeIndices] using h.ledger hsup

theorem onward_polling (h : Kept c jobs s) {faults : Faults} {k : ℕ} {point : PollPoint} {failure : Option String}
    (hphase : s.phase = .polling k point failure) (hparent : s.parent c jobs faults = some s') : Onward c jobs s s' := by
  unfold parent at hparent
  have hsup : s.phase.supervising = true := by rw [hphase]; rfl
  simp only [hphase] at hparent
  cases hw : s.workers[k]? with
  | some w =>
      simp only [hw, Option.some.injEq] at hparent
      exact hparent ▸ onward_poll h hsup hw failure faults.cleanup point
  | none =>
      cases failure with
      | some message =>
          simp only [hw, Option.some.injEq] at hparent
          refine hparent ▸ ⟨h.goto_of_supervising hsup fun _ => ?_, List.prefix_rfl⟩
          simp [ParentPhase.unasked]
      | none =>
          simp only [hw, Option.some.injEq] at hparent
          exact hparent ▸ ⟨h.goto_of_supervising hsup fun _ => rfl, List.prefix_rfl⟩

theorem onward_dispatching (h : Kept c jobs s) {faults : Faults} {k : ℕ}
    (hphase : s.phase = .dispatching k) (hparent : s.parent c jobs faults = some s') : Onward c jobs s s' := by
  unfold parent at hparent
  have hsup : s.phase.supervising = true := by rw [hphase]; rfl
  have hnext : ∀ phase : ParentPhase, (∀ k, phase.unasked k = true) → Onward c jobs s (s.goto phase) :=
    fun phase hunasked => ⟨h.goto_of_supervising hsup hunasked, List.prefix_rfl⟩
  simp only [hphase] at hparent
  cases hw : s.workers[k]? with
  | none =>
      simp only [hw, Option.some.injEq] at hparent
      exact hparent ▸ hnext _ fun _ => rfl
  | some w =>
      simp only [hw] at hparent
      cases hstate : w.state with
      | idle =>
          cases hitem : jobs[s.nextIndex]? with
          | none =>
              simp only [hstate, hitem, Option.some.injEq] at hparent
              exact hparent ▸ hnext _ fun _ => rfl
          | some item =>
              simp only [hstate, hitem] at hparent
              rw [← hphase] at hparent
              cases item with
              | failed sourceName message =>
                  have hname : (CacheWriteResult.error sourceName message).sourceName = sourceName := rfl
                  obtain ⟨hkept, hprefix⟩ := h.refuse hsup hitem hname
                  exact Option.some.inj hparent ▸ ⟨hkept, hprefix⟩
              | job job => exact Option.some.inj hparent ▸ onward_dispatch h hsup hw hstate hitem faults
      | starting deadline =>
          simp only [hstate, Option.some.injEq] at hparent
          exact hparent ▸ hnext _ fun _ => rfl
      | active index deadline destination =>
          simp only [hstate, Option.some.injEq] at hparent
          exact hparent ▸ hnext _ fun _ => rfl

theorem onward_stopping (h : Kept c jobs s) {faults : Faults} {k : ℕ} {point : StopPoint} {ending : Ending}
    {firstError : Option PyException} (hphase : s.phase = .stopping k point ending firstError)
    (hparent : s.parent c jobs faults = some s') : Onward c jobs s s' := by
  unfold parent at hparent
  have hend : ∀ phase : ParentPhase, phase.supervising = false → (∀ k, phase.unasked k = false) →
      (∀ results, phase = .returned results → ∃ failure, results = orderedOutcomes c jobs s.outcomes failure) →
      Onward c jobs s (s.goto phase) := fun phase hsup hunasked hreturned =>
    ⟨h.goto (by simp [hsup]) (by simp [hunasked]) hreturned, List.prefix_rfl⟩
  simp only [hphase] at hparent
  cases hw : s.workers[k]? with
  | some w =>
      simp only [hw, Option.some.injEq] at hparent
      exact hparent ▸ onward_stop h hphase hw faults.cleanup
  | none =>
      cases firstError with
      | some error =>
          simp only [hw, Option.some.injEq] at hparent
          exact hparent ▸ hend _ rfl (fun _ => rfl) (by simp)
      | none =>
          cases ending with
          | raised error =>
              simp only [hw, Option.some.injEq] at hparent
              exact hparent ▸ hend _ rfl (fun _ => rfl) (by simp)
          | failure message =>
              simp only [hw, Option.some.injEq] at hparent
              refine hparent ▸ hend _ rfl (fun _ => rfl) ?_
              rintro results hresults
              exact ⟨message, (ParentPhase.returned.inj hresults).symm⟩

/-- **A step of the parent.** -/
theorem onward_parent (h : Kept c jobs s) {faults : Faults} (hparent : s.parent c jobs faults = some s') :
    Onward c jobs s s' := by
  cases hphase : s.phase with
  | spawning =>
      have hsup : s.phase.supervising = true := by rw [hphase]; rfl
      unfold parent at hparent
      simp only [hphase] at hparent
      cases hspawn : faults.spawn with
      | some error =>
          simp only [hspawn, Option.some.injEq] at hparent
          exact hparent ▸ ⟨h.raise hsup error, List.prefix_rfl⟩
      | none =>
          simp only [hspawn] at hparent
          split_ifs at hparent
          · rw [← hphase] at hparent
            exact Option.some.inj hparent ▸ ⟨h.spawn hsup _, List.prefix_rfl⟩
          · exact Option.some.inj hparent ▸ ⟨h.goto_of_supervising hsup fun _ => rfl, List.prefix_rfl⟩
  | looping =>
      have hsup : s.phase.supervising = true := by rw [hphase]; rfl
      unfold parent at hparent
      simp only [hphase] at hparent
      split_ifs at hparent
      · exact Option.some.inj hparent ▸ ⟨h.goto_of_supervising hsup fun _ => rfl, List.prefix_rfl⟩
      · refine Option.some.inj hparent ▸ ⟨h.goto_of_supervising hsup fun _ => ?_, List.prefix_rfl⟩
        simp [ParentPhase.unasked]
  | polling k point failure => exact onward_polling h hphase hparent
  | dispatching k => exact onward_dispatching h hphase hparent
  | stopping k point ending firstError => exact onward_stopping h hphase hparent
  | returned results => simp [parent, hphase] at hparent
  | raised error => simp [parent, hphase] at hparent

end parent

/-! ### Steps and runs -/

section runs

variable {L : StorageLib} {config : WriterConfig} {c : ParallelCall} {jobs : List SourceItem} {s s' : WriteParallel}

theorem onward_child (h : Kept c jobs s) {k : ℕ} {w w' : WriterProcess} {a : ChildAct} (hw : s.workers[k]? = some w)
    (hwork : w.work a = some w') (hnative : runsNatively L config c s (.child k a)) :
    Onward c jobs s (s.setWorker k w') := by
  have hstate : w'.state = w.state := state_of_work hwork
  have hnamed : ∀ records job result, a = .finish records → w.process = .running job →
      runSource job records = .ok result → result.sourceName = job.name := by
    rintro records job result rfl hrunning hrun
    cases records with
    | error diagnostic =>
        cases hrun
        rfl
    | ok records => exact job.sourceName_runSource hrun fun rs hrs => Except.ok.inj hrs ▸ hnative w job hw hrunning
  refine ⟨h.setWorker hw (fun hk => linked_work (h.linked k w hw hk) hwork hnamed) ?_ fun _ => by rw [hstate],
    List.prefix_rfl⟩
  intro index deadline destination hactive
  rwa [← hstate]

/-- **A step.** -/
theorem onward_step (h : Kept c jobs s) {a : ParallelAct} (hnative : runsNatively L config c s a)
    (hstep : step c jobs s a = some s') : Onward c jobs s s' := by
  cases a with
  | tick =>
      cases hstep
      exact ⟨h.world _ _, List.prefix_rfl⟩
  | disk fs =>
      cases hstep
      exact ⟨h.world _ _, List.prefix_rfl⟩
  | child k a =>
      unfold step at hstep
      cases hw : s.workers[k]? with
      | none => simp [hw] at hstep
      | some w =>
          simp only [hw, Option.map_eq_some_iff] at hstep
          obtain ⟨w', hwork, rfl⟩ := hstep
          exact onward_child h hw hwork hnative
  | parent faults => exact onward_parent h hstep
  | interrupt diagnostic =>
      have hraise : s.phase.supervising = true → Onward c jobs s (s.raise (.keyboardInterrupt diagnostic)) := fun hsup =>
        ⟨h.raise hsup _, List.prefix_rfl⟩
      unfold step at hstep
      cases hphase : s.phase with
      | returned results => simp [hphase] at hstep
      | raised error => simp [hphase] at hstep
      | stopping k point ending firstError =>
          simp only [hphase, Option.some.injEq] at hstep
          exact hstep ▸ ⟨h.goto (by simp [ParentPhase.supervising]) (by simp [ParentPhase.unasked]) (by simp),
            List.prefix_rfl⟩
      | spawning =>
          simp only [hphase, Option.some.injEq] at hstep
          exact hstep ▸ hraise (by rw [hphase]; rfl)
      | looping =>
          simp only [hphase, Option.some.injEq] at hstep
          exact hstep ▸ hraise (by rw [hphase]; rfl)
      | polling k point failure =>
          simp only [hphase, Option.some.injEq] at hstep
          exact hstep ▸ hraise (by rw [hphase]; rfl)
      | dispatching k =>
          simp only [hphase, Option.some.injEq] at hstep
          exact hstep ▸ hraise (by rw [hphase]; rfl)

theorem kept_new (disk : FileTree) : Kept c jobs (new disk) where
  linked k w hw := by simp [new] at hw
  owned k w hw := by simp [new] at hw
  ledger _ := .refl _
  keys := List.nodup_nil
  named o ho := by simp [new] at ho
  issued index destination disk hmem := by simp [new] at hmem
  proper := History.each_nil
  returned results hphase := by simp [new] at hphase

/-- **A run.** -/
theorem onward_run (h : Kept c jobs s) {as : List ParallelAct}
    (hnative : Machine.Guarded (step c jobs) (runsNatively L config c) s as)
    (hrun : Machine.run (step c jobs) s as = some s') : Onward c jobs s s' := by
  refine Machine.run_invariant_of_guarded (I := Onward c jobs s) (step c jobs) ?_ ⟨h, List.prefix_rfl⟩ hnative hrun
  intro t a t' ht hok hstep
  have hnext := onward_step ht.kept hok hstep
  exact ⟨hnext.kept, ht.outcomes.trans hnext.outcomes⟩

theorem kept_run {disk : FileTree} {as : List ParallelAct}
    (hnative : Machine.Guarded (step c jobs) (runsNatively L config c) (new disk) as)
    (hrun : Machine.run (step c jobs) (new disk) as = some s) : Kept c jobs s :=
  (onward_run (kept_new disk) hnative hrun).kept

end runs

end DatasetRt.WriteParallel
