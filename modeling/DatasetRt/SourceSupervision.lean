import DatasetRt.SourceListContract
import DatasetRt.WriteParallelRuns

/-! # The contract of the parallel writer

What a caller of `write_parallel` may rely on: while children are supervised every source has at most one owner
(`Supervised`), what the parent does keeps to the protocol (`Accounted`), and the list that is returned has one outcome
for each source, in their order, with all that was collected. -/

namespace DatasetRt.WriteParallel

/-! ### Statement -/

/-- The name under which a source is reported. -/
def CacheSource.label (index : ℕ) (source : CacheSource) : PyStr :=
  match source.name with
  | .error _ => .ofString (sourceLabel index)
  | .ok name =>
      match name.validateSourceName with
      | .error _ => .ofString (sourceLabel index)
      | .ok accepted => accepted

/-- Between two steps of `_supervise`. -/
structure Supervised (jobs : List SourceItem) (s : WriteParallel) : Prop where
  indices : (s.outcomes.map Prod.fst ++ s.activeIndices).Perm (List.range s.nextIndex)
  holding : ∀ w ∈ s.workers, w.held = [] ∨ ∃ index deadline destination job,
    w.state = .active index deadline destination ∧ jobs[index]? = some (.job job) ∧ w.held = [job]

def Event.dispatched? : Event → Option ℕ
  | .dispatched index _ _ => some index
  | _ => none

/-- What the parent has done. -/
structure Accounted (c : ParallelCall) (jobs : List SourceItem) (history : List Event) : Prop where
  dispatched : ∀ index destination disk, .dispatched index destination disk ∈ history →
    ∃ job, jobs[index]? = some (.job job) ∧ destination = tempCachePathForSource c.path job.text
  once : (history.filterMap Event.dispatched?).Nodup
  mailbox : ∀ found, .put found ∈ history → found = none
  assigned : ∀ index found, .assigned index found ∈ history → found = none
  removed : ∀ past index destination w future, history = past ++ .removed index destination w :: future →
    (∃ disk, .dispatched index destination disk ∈ past ∧ disk.pathExists destination = false) ∧
      (w.exitcode.isSome = true ∨ w.held = [] ∧ ∃ found, .assigned index found ∈ past)

/-! ### Preflight -/

theorem name_preflightItem {index : ℕ} {source : CacheSource} {item : SourceItem}
    (h : preflightItem index source = .ok item) : item.name = source.label index := by
  unfold preflightItem at h
  unfold CacheSource.label
  cases hname : source.name with
  | error error =>
      simp only [hname] at h ⊢
      cases error <;> cases h <;> rfl
  | ok name =>
      simp only [hname] at h ⊢
      split at h
      · next hvalid =>
          cases h
          simp only [hvalid, SourceItem.name]
      · next hvalid =>
          cases h
          simp only [hvalid, SourceItem.name]

theorem names_of_preflightItems {sources : List CacheSource} {items : List SourceItem}
    (h : sources.zipIdx.mapM (fun source => preflightItem source.2 source.1) = .ok items) :
    items.map SourceItem.name = sources.zipIdx.map fun source => source.1.label source.2 := by
  obtain ⟨hlen, hitems⟩ := mapM_eq_ok_iff_getElem.mp h
  refine List.ext_getElem (by simpa using hlen.symm) fun i hi hi' => ?_
  rw [List.getElem_map, List.getElem_map]
  exact name_preflightItem (hitems i _ _)

theorem sourceName_rejected (message : String) (item : SourceItem) : (item.rejected message).sourceName = item.name := by
  cases item <;> rfl

/-- The preflight keeps the sources and their names, whether it accepts them or not. -/
theorem preflight_cases {identity : PyStr → PyStr} {sources : List CacheSource}
    {checked : Except (List CacheWriteResult) (List SourceItem)} (h : preflight identity sources = .ok checked) :
    ∃ items, items.map SourceItem.name = sources.zipIdx.map (fun source => source.1.label source.2) ∧
      (checked = .ok items ∨ ∃ message, checked = .error (items.map (SourceItem.rejected message))) := by
  obtain ⟨items, hitems, h⟩ := bind_eq_ok h
  refine ⟨items, names_of_preflightItems hitems, ?_⟩
  cases hduplicate : duplicate identity [] items with
  | some job =>
      simp only [hduplicate, Except.ok.injEq] at h
      exact .inr ⟨_, h.symm⟩
  | none =>
      simp only [hduplicate, Except.ok.injEq] at h
      exact .inl h.symm

/-! ### Results -/

variable {c : ParallelCall} {jobs : List SourceItem} {s t : WriteParallel}

theorem getItem_of_mem {outcomes : List (ℕ × CacheWriteResult)} (hkeys : (outcomes.map Prod.fst).Nodup)
    {o : ℕ × CacheWriteResult} (ho : o ∈ outcomes) : getItem outcomes o.1 = some o.2 := by
  obtain ⟨before, after, rfl⟩ := List.append_of_mem ho
  have hfind : (before ++ o :: after).find? (fun p => p.1 = o.1) = some o := by
    refine List.find?_eq_some_iff_append.mpr ⟨by simp, before, after, rfl, fun p hp => ?_⟩
    rw [List.map_append, List.nodup_append] at hkeys
    have hne := hkeys.2.2 p.1 (List.mem_map_of_mem hp) o.1 (by simp)
    simpa using hne
  rw [getItem, hfind]
  rfl

theorem getItem_eq_some {outcomes : List (ℕ × CacheWriteResult)} {index : ℕ} {result : CacheWriteResult}
    (h : getItem outcomes index = some result) : (index, result) ∈ outcomes := by
  obtain ⟨o, hfind, rfl⟩ := Option.map_eq_some_iff.mp h
  obtain rfl : o.1 = index := by simpa using List.find?_some hfind
  exact List.mem_of_find?_eq_some hfind

theorem sourceName_publicOutcome (path : Path) (result : CacheWriteResult) :
    (publicOutcome path result).sourceName = result.sourceName := by
  cases result <;> rfl

theorem names_orderedOutcomes {outcomes : List (ℕ × CacheWriteResult)} (h : ∀ o ∈ outcomes, Named jobs o.1 o.2)
    (failure : String) :
    (orderedOutcomes c jobs outcomes failure).map CacheWriteResult.sourceName = jobs.map SourceItem.name := by
  refine List.ext_getElem (by simp [orderedOutcomes]) fun i hi hi' => ?_
  simp only [orderedOutcomes, List.getElem_map, List.getElem_zipIdx, Nat.zero_add, orderedOutcome,
    sourceName_publicOutcome]
  cases hget : getItem outcomes i with
  | none => exact sourceName_rejected _ _
  | some result =>
      obtain ⟨item, hitem, hname⟩ := h _ (getItem_eq_some hget)
      obtain ⟨hlt, rfl⟩ := List.getElem?_eq_some_iff.mp hitem
      exact hname

theorem getElem?_orderedOutcomes {outcomes : List (ℕ × CacheWriteResult)} (hkeys : (outcomes.map Prod.fst).Nodup)
    (hnamed : ∀ o ∈ outcomes, Named jobs o.1 o.2) {o : ℕ × CacheWriteResult} (ho : o ∈ outcomes) (failure : String) :
    (orderedOutcomes c jobs outcomes failure)[o.1]? = some (publicOutcome c.publicPath o.2) := by
  obtain ⟨item, hitem, -⟩ := hnamed o ho
  simp only [orderedOutcomes, List.getElem?_map, List.getElem?_zipIdx, hitem, Option.map_some, Nat.zero_add,
    orderedOutcome, getItem_of_mem hkeys ho, Option.getD_some]

/-! ### Contract -/

theorem Kept.supervised (h : Kept c jobs s) (hsup : s.phase.supervising = true) : Supervised jobs s where
  indices := h.ledger hsup
  holding w hmem := by
    obtain ⟨k, hw⟩ := List.mem_iff_getElem?.mp hmem
    exact linked_held (h.linked k w hw (unasked_of_supervising hsup k))

theorem Kept.accounted (h : Kept c jobs s) : Accounted c jobs s.history where
  dispatched index destination disk hmem := by
    obtain ⟨past, -, hjob, -⟩ := h.proper.of_mem hmem
    exact hjob
  once := by
    refine List.pairwise_filterMap.mpr (h.proper.pairwise ?_)
    rintro past e hproper d hd index hindex index' hindex' rfl
    cases e <;> cases hindex'
    cases d <;> cases hindex
    exact hproper.2.2 _ _ hd
  mailbox found hmem := by
    obtain ⟨past, -, hfound⟩ := h.proper.of_mem hmem
    exact hfound
  assigned index found hmem := by
    obtain ⟨past, -, hfound⟩ := h.proper.of_mem hmem
    exact hfound
  removed past index destination w future hhistory := by
    obtain ⟨⟨disk, hdispatched⟩, hdone⟩ := h.proper past _ future hhistory
    have hmem : Event.dispatched index destination disk ∈ s.history :=
      hhistory ▸ List.mem_append_left _ hdispatched
    obtain ⟨past', -, -, habsent, -⟩ := h.proper.of_mem hmem
    exact ⟨⟨disk, hdispatched, habsent⟩, hdone⟩

/-- **The contract of `write_parallel`.**  The first part is about every state of every run, and what comes after it;
the second about the list that the caller gets. -/
theorem source_writer_supervision (L : StorageLib) (config : WriterConfig) (identity : PyStr → PyStr)
    (sources : List CacheSource) (c : ParallelCall) :
    (∀ jobs disk as s, preflight identity sources = .ok (.ok jobs) →
      Machine.Guarded (step c jobs) (runsNatively L config c) (new disk) as →
      Machine.run (step c jobs) (new disk) as = some s →
        (s.phase.supervising = true → Supervised jobs s) ∧ Accounted c jobs s.history ∧
        ∀ bs t, Machine.Guarded (step c jobs) (runsNatively L config c) s bs →
          Machine.run (step c jobs) s bs = some t →
            s.outcomes <+: t.outcomes ∧ ∀ results, t.phase = .returned results →
              ∀ o ∈ s.outcomes, results[o.1]? = some (publicOutcome c.publicPath o.2)) ∧
      ∀ results, WritesParallel L config identity sources c (.ok results) →
        results.map CacheWriteResult.sourceName = sources.zipIdx.map fun source => source.1.label source.2 := by
  constructor
  · intro jobs disk as s _ hnative hrun
    have hkept := kept_run hnative hrun
    refine ⟨hkept.supervised, hkept.accounted, fun bs t hnative hrun => ?_⟩
    obtain ⟨ht, houtcomes⟩ := onward_run hkept hnative hrun
    refine ⟨houtcomes, fun results hreturned o ho => ?_⟩
    obtain ⟨failure, rfl⟩ := ht.returned results hreturned
    exact getElem?_orderedOutcomes ht.keys ht.named (houtcomes.subset ho) failure
  · intro results hwrites
    unfold WritesParallel at hwrites
    cases hpreflight : preflight identity sources with
    | error error => simp [hpreflight] at hwrites
    | ok checked =>
        obtain ⟨items, hnames, rfl | ⟨message, rfl⟩⟩ := preflight_cases hpreflight
        · rw [← hnames]
          cases items with
          | nil =>
              simp only [hpreflight, Except.ok.injEq] at hwrites
              rw [hwrites]
              rfl
          | cons item items =>
              simp only [hpreflight] at hwrites
              obtain ⟨disk, as, s, hrun, hnative, ⟨results, hreturned, heq⟩ | ⟨error, -, heq⟩⟩ := hwrites
              · have hkept := kept_run hnative hrun
                obtain ⟨failure, rfl⟩ := hkept.returned results hreturned
                cases heq
                exact names_orderedOutcomes hkept.named failure
              · cases heq
        · simp only [hpreflight, Except.ok.injEq] at hwrites
          rw [hwrites, ← hnames, List.map_map]
          exact List.map_congr_left fun item _ => sourceName_rejected message item

/-! ### A child that dies -/

namespace TwoSources

open SharedShard (fs)

def source (name : String) : CacheSource := ⟨.ok (.ofString name), none, [], none⟩

def sources : List CacheSource := [source "a", source "b"]

def job (name : String) (valid : (PyStr.ofString name).validateSourceName = .ok (.ofString name)) : SourceJob :=
  ⟨.ofString name, source name, valid⟩

def items : List SourceItem := [.job (job "a" rfl), .job (job "b" rfl)]

/-- Two children. -/
def call : ParallelCall := ⟨["d"], ["d"], 2, 600⟩

/-- Nothing goes wrong in the parent. -/
def quiet : ParallelAct := .parent ⟨none, none, none, none⟩

/-- The cache `a` is reused. -/
def reused : CacheWriteRecord := successWriteResult "a" ["d", "a"]

/-- Both children get a job, and the second one dies with it. -/
def before : List ParallelAct :=
  List.replicate 3 quiet ++ [.child 0 .ready, .child 1 .ready] ++ List.replicate 13 quiet ++
    [.child 0 .get, .child 1 .get, .child 1 (.die (-9) false)]

/-- The first one reports `a`, and the parent collects it. -/
def collecting : List ParallelAct := [.child 0 (.finish (.ok [reused])), quiet, quiet]

/-- The parent meets the end of the second pipe, and stops. -/
def ending : List ParallelAct :=
  List.replicate 5 quiet ++ [.child 0 .get, .child 0 .close, .child 0 (.exit 0)] ++ List.replicate 4 quiet

/-- A step that is not a record of the native writer. -/
def recordless : ParallelAct → Bool
  | .child _ (.finish (.ok _)) => false
  | _ => true

theorem runsNatively_of_recordless {L : StorageLib} {config : WriterConfig} {a : ParallelAct} (h : recordless a = true)
    (s : WriteParallel) : runsNatively L config call s a := by
  unfold runsNatively
  split
  · cases h
  · trivial

theorem guarded_of_recordless {L : StorageLib} {config : WriterConfig} {as : List ParallelAct}
    (h : as.all recordless = true) (s : WriteParallel) :
    Machine.Guarded (step call items) (runsNatively L config call) s as :=
  Machine.guarded_of_forall _ s fun s a ha => runsNatively_of_recordless (List.all_eq_true.mp h a ha) s

theorem writesSource_reused : WritesSource (SharedShard.lib "000000.bin") SharedShard.config .none ["d"] 0 fs
    (job "a" rfl).native (.ok reused) fs := by
  refine ⟨fun _ => (.ok (), fs), fun name prepared created builder hname hprepared _ => ?_, rfl⟩
  have ha : extractSourceName (job "a" rfl).native = .ok "a" := rfl
  obtain rfl : "a" = name := Except.ok.inj (ha.symm.trans hname)
  cases hprepared

end TwoSources

open TwoSources in
/-- The first result is kept, and the second source has the diagnostic. -/
theorem source_writer_supervision_dead : ∃ s t results,
    Machine.run (step call items) (new SharedShard.fs) (before ++ collecting) = some s ∧
    Machine.run (step call items) s ending = some t ∧ t.phase = .returned results ∧
    s.outcomes = [(0, .success (.ofString "a") ["d", "a"])] ∧ s.activeIndices = [1] ∧
    Supervised items s ∧ Accounted call items s.history ∧ results[0]? = some (.success (.ofString "a") ["d", "a"]) ∧
    results.map CacheWriteResult.sourceName = [.ofString "a", .ofString "b"] := by
  have hitems : preflight id sources = .ok (.ok items) := rfl
  obtain ⟨s₀, hbefore, hrunning⟩ : ∃ s₀, Machine.run (step call items) (new SharedShard.fs) before = some s₀ ∧
      s₀.workers[0]?.map WriterProcess.process = some (.running (job "a" rfl)) := ⟨_, rfl, rfl⟩
  obtain ⟨s, hs, houtcomes, hactive, hsup, t, ht, results, hreturned⟩ :
      ∃ s, Machine.run (step call items) (new SharedShard.fs) (before ++ collecting) = some s ∧
        s.outcomes = [(0, .success (.ofString "a") ["d", "a"])] ∧ s.activeIndices = [1] ∧ s.phase.supervising = true ∧
        ∃ t, Machine.run (step call items) s ending = some t ∧ ∃ results, t.phase = .returned results :=
    ⟨_, rfl, rfl, rfl, rfl, _, rfl, _, rfl⟩
  have hguard : Machine.Guarded (step call items) (runsNatively (SharedShard.lib "000000.bin") SharedShard.config call)
      (new SharedShard.fs) (before ++ collecting) := by
    refine Machine.guarded_append _ (guarded_of_recordless rfl _) hbefore ⟨fun w j hw hj => ?_, fun s _ => ?_⟩
    · rw [hw, Option.map_some, hj] at hrunning
      cases hrunning
      exact ⟨.none, _, _, reused, rfl, writesSource_reused⟩
    · exact guarded_of_recordless rfl s
  have hguard' : Machine.Guarded (step call items) (runsNatively (SharedShard.lib "000000.bin") SharedShard.config call)
      s ending := guarded_of_recordless rfl s
  obtain ⟨hstates, hlists⟩ :=
    source_writer_supervision (SharedShard.lib "000000.bin") SharedShard.config id sources call
  obtain ⟨hsupervised, haccounted, hlater⟩ := hstates items SharedShard.fs _ s hitems hguard hs
  refine ⟨s, t, results, hs, ht, hreturned, houtcomes, hactive, hsupervised hsup, haccounted, ?_, ?_⟩
  · exact (hlater ending t hguard' ht).2 results hreturned (0, .success (.ofString "a") ["d", "a"]) (by simp [houtcomes])
  · refine hlists results (show ∃ disk as s, Machine.run (step call items) (new disk) as = some s ∧
      Machine.Guarded (step call items) _ (new disk) as ∧ _ from ?_)
    exact ⟨SharedShard.fs, _, t, Machine.run_append _ hs ht, Machine.guarded_append _ hguard hs hguard',
      .inl ⟨results, hreturned, rfl⟩⟩

end DatasetRt.WriteParallel
