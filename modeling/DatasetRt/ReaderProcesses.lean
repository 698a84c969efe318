import DatasetRt.WorkerDatasets
import DatasetRt.Lib.Machine

/-! # Readers in processes

A loader is made in one process; its adapter is forked or pickled into loading processes, and any of them may set it up
and begin passes.  A native dataset must not be used outside the process that made it, so the state of an adapter
remembers a PID, and `setup` refuses a state that was inherited.  The exported files belong to the process that made
them: `ConstructionArtifacts` deletes them with the adapter, but not in a child that inherited it.

`System.step` is an action of one process: a fork, a pickled copy, `setup`, a pass, the collection of the adapter, or an
end without finalizers.  PIDs may be given again.  If a fork never gives one that the copied adapter remembers, and
copies no pass that has begun, then in every run all draws of a process are from the one dataset that it made itself,
with the rows of its own plan (`draws_own_dataset`). -/

namespace DatasetRt

/-- The exported files, with the process that made them. -/
structure ConstructionArtifacts where
  directory : Path
  pid : ℕ
  temporary : Bool

namespace ReaderProcesses

/-- The state of an adapter. -/
inductive OwnedState where
  | pending
  | empty (pid : ℕ)
  | ready (pid handle : ℕ)

/-- The process that an adapter was set up in. -/
def OwnedState.pid? : OwnedState → Option ℕ
  | .pending => none
  | .empty pid | .ready pid _ => some pid

/-- A generator of `__iter__`. -/
inductive Generator where
  | fresh
  | running (handle remaining : ℕ)
  | ended
  | raised

structure Adapter where
  state : OwnedState
  passes : List Generator
  artifacts : Option ConstructionArtifacts

/-- A process; the adapter is gone once it was collected. -/
structure Process where
  pid : ℕ
  info : Option WorkerInfo
  adapter : Option Adapter
  alive : Bool

/-- A native dataset that the process `owner` has made. -/
structure NativeDataset where
  owner : ℕ
  dataset : Dataset
  state : MutableDatasetState

/-- All processes, the files, the native datasets by their handles, and which process has drawn from which of them. -/
structure System where
  tree : FileTree
  processes : List Process
  datasets : List NativeDataset
  draws : List (ℕ × ℕ)

inductive Act where
  | fork (parent pid : ℕ) (info : Option WorkerInfo)
  | spawn (parent pid : ℕ) (info : Option WorkerInfo)
  | setup (k : ℕ)
  | iter (k : ℕ)
  /-- A `next`, whose read may fail. -/
  | next (k pass : ℕ) (fails : Bool)
  | close (k pass : ℕ)
  | collect (k : ℕ)
  | exit (k : ℕ)

namespace System

/-- A process that is alive and has an adapter. -/
def active? (w : System) (k : ℕ) : Option (Process × Adapter) := do
  let p ← w.processes[k]?
  let a ← p.adapter
  if p.alive then some (p, a) else none

/-- No process that is alive has the PID. -/
def PidFree (w : System) (pid : ℕ) : Prop := ∀ p ∈ w.processes, p.alive = true → p.pid ≠ pid

instance (w : System) (pid : ℕ) : Decidable (w.PidFree pid) :=
  inferInstanceAs (Decidable (∀ p ∈ w.processes, p.alive = true → p.pid ≠ pid))

/-- A new process. -/
def start (w : System) (p : Process) : System := { w with processes := w.processes ++ [p] }

/-- The adapter of a process changes. -/
def putAdapter (w : System) (k : ℕ) (p : Process) (a : Adapter) : System :=
  { w with processes := w.processes.set k { p with adapter := some a } }

/-- The dataset that a `setup` made, if it made one. -/
def addDataset (w : System) (owner : ℕ) : Option (Dataset × MutableDatasetState) → System
  | none => w
  | some (dataset, state) => { w with datasets := w.datasets ++ [⟨owner, dataset, state⟩] }

/-- `next(state.stream)` in a pass with more rounds. -/
def draw (w : System) (k : ℕ) (p : Process) (a : Adapter) (i handle remaining : ℕ) (fails : Bool) : System :=
  let pass := if fails then .raised else .running handle remaining
  let w := w.putAdapter k p { a with passes := a.passes.set i pass }
  { w with draws := w.draws ++ [(k, handle)] }

/-- `__del__` of the artifacts. -/
def release (w : System) (p : Process) : Option ConstructionArtifacts → System
  | none => w
  | some artifacts =>
      if artifacts.temporary ∧ artifacts.pid = p.pid then { w with tree := w.tree.removeDirAll artifacts.directory }
      else w

section step

variable (L : StorageLib) (A : ArrowLib) (J : ConfigJson) (r : ReaderInputs)

/-- `setup` in a process: the state it leaves, and the dataset it makes. -/
def setupState (w : System) (p : Process) :
    OwnedState → Except SetupError (OwnedState × Option (Dataset × MutableDatasetState))
  | .pending => do
      match ← r.setup L A J w.tree p.info with
      | .empty => .ok (.empty p.pid, none)
      | .ready dataset state => .ok (.ready p.pid w.datasets.length, some (dataset, state))
  | .empty pid =>
      if pid ≠ p.pid then .error (.runtime "DatasetRT loader native state belongs to another PID")
      else .ok (.empty pid, none)
  | .ready pid handle =>
      if pid ≠ p.pid then .error (.runtime "DatasetRT loader native state belongs to another PID")
      else .ok (.ready pid handle, none)

/-- The first `next` of a pass. -/
def beginPass (w : System) (k : ℕ) (p : Process) (a : Adapter) (i : ℕ) (fails : Bool) : System :=
  match w.setupState L A J r p a.state with
  | .error _ => w.putAdapter k p { a with passes := a.passes.set i .raised }
  | .ok (state, made) =>
      let w := w.addDataset k made
      let a := { a with state }
      match state with
      | .ready _ handle =>
          match (w.datasets[handle]?).map fun d => d.state.epochLen.1 with
          | some (remaining + 1) => w.draw k p a i handle remaining fails
          | _ => w.putAdapter k p { a with passes := a.passes.set i .ended }
      | _ => w.putAdapter k p { a with passes := a.passes.set i .ended }

/-- One action of a process. -/
def step (w : System) : Act → Option System
  | .fork parent pid info => do
      let (_, a) ← w.active? parent
      if w.PidFree pid then some (w.start ⟨pid, info, some a, true⟩) else none
  | .spawn parent pid info => do
      -- `__reduce__` leaves the state, the passes and the artifacts behind
      let _ ← w.active? parent
      if w.PidFree pid then some (w.start ⟨pid, info, some ⟨.pending, [], none⟩, true⟩) else none
  | .setup k => do
      let (p, a) ← w.active? k
      match w.setupState L A J r p a.state with
      | .error _ => some w
      | .ok (state, made) => some ((w.addDataset k made).putAdapter k p { a with state })
  | .iter k => do
      let (p, a) ← w.active? k
      some (w.putAdapter k p { a with passes := a.passes ++ [.fresh] })
  | .next k i fails => do
      let (p, a) ← w.active? k
      match ← a.passes[i]? with
      | .fresh => some (w.beginPass L A J r k p a i fails)
      | .running handle (remaining + 1) => some (w.draw k p a i handle remaining fails)
      | .running _ 0 => some (w.putAdapter k p { a with passes := a.passes.set i .ended })
      | _ => some w
  | .close k i => do
      let (p, a) ← w.active? k
      some (w.putAdapter k p { a with passes := a.passes.set i .ended })
  | .collect k => do
      let (p, a) ← w.active? k
      some { w.release p a.artifacts with processes := w.processes.set k { p with adapter := none } }
  | .exit k => do
      let p ← w.processes[k]?
      some { w with processes := w.processes.set k { p with alive := false } }

end step

end System

/-- The adapter remembers the PID. -/
def Adapter.Remembers (a : Adapter) (pid : ℕ) : Prop := a.state.pid? = some pid ∨ ∃ x ∈ a.artifacts, x.pid = pid

/-- No pass has begun that can go on. -/
def Adapter.Idle (a : Adapter) : Prop := ∀ handle remaining, .running handle remaining ∉ a.passes

/-- A fork gives no PID that the copied adapter remembers, and copies no pass that has begun. -/
def ForkSafe (w : System) : Act → Prop
  | .fork parent pid _ => ∀ p a, w.active? parent = some (p, a) → ¬ a.Remembers pid ∧ a.Idle
  | _ => True

/-- The process that has made a loader. -/
def launched (tree : FileTree) (artifacts : ConstructionArtifacts) : System where
  tree
  processes := [⟨artifacts.pid, none, some ⟨.pending, [], some artifacts⟩, true⟩]
  datasets := []
  draws := []

/-! ### What every step keeps -/

/-- The adapter of the process `k`. -/
structure ProcessInv (datasets : List NativeDataset) (x : ConstructionArtifacts) (k : ℕ) (p : Process) (a : Adapter) :
    Prop where
  unmade : a.state = .pending → ∀ d ∈ datasets, d.owner ≠ k
  made : ∀ handle, a.state = .ready p.pid handle → ∃ d, datasets[handle]? = some d ∧ d.owner = k
  running : ∀ handle remaining, .running handle remaining ∈ a.passes → ∃ d, datasets[handle]? = some d ∧ d.owner = k
  artifacts : ∀ y ∈ a.artifacts, y = x ∧ (y.pid = p.pid → k = 0)

/-- All processes; `tree` are the files at the beginning, and `x` the artifacts. -/
structure Inv (L : StorageLib) (A : ArrowLib) (J : ConfigJson) (r : ReaderInputs) (tree : FileTree)
    (x : ConstructionArtifacts) (w : System) : Prop where
  adapters : ∀ k p a, w.processes[k]? = some p → p.adapter = some a → ProcessInv w.datasets x k p a
  owners : (w.datasets.map NativeDataset.owner).Nodup
  made : ∀ d ∈ w.datasets, ∃ p, w.processes[d.owner]? = some p ∧
    r.setup L A J tree p.info = .ok (.ready d.dataset d.state)
  draws : ∀ k handle, (k, handle) ∈ w.draws → ∃ d, w.datasets[handle]? = some d ∧ d.owner = k
  tree : w.tree = tree ∨ x.temporary = true ∧ w.tree = tree.removeDirAll x.directory ∧
    ∃ p, w.processes[0]? = some p ∧ p.adapter = none

section inv

variable {L : StorageLib} {A : ArrowLib} {J : ConfigJson} {r : ReaderInputs} {tree : FileTree}
  {x : ConstructionArtifacts} {w w' : System} {k : ℕ} {p : Process} {a : Adapter}

theorem System.active?_eq_some :
    w.active? k = some (p, a) ↔ w.processes[k]? = some p ∧ p.adapter = some a ∧ p.alive = true := by
  unfold System.active?
  constructor
  · intro h
    obtain ⟨q, hq, h⟩ := Option.bind_eq_some_iff.mp h
    obtain ⟨b, hb, h⟩ := Option.bind_eq_some_iff.mp h
    split_ifs at h with halive
    cases h
    exact ⟨hq, hb, halive⟩
  · rintro ⟨hp, ha, halive⟩
    simp [hp, ha, halive]

theorem getElem?_set_process {processes : List Process} (hp : processes[k]? = some p) (q : Process) {j : ℕ}
    {q' : Process} (h : (processes.set k q)[j]? = some q') : j = k ∧ q' = q ∨ j ≠ k ∧ processes[j]? = some q' := by
  by_cases hj : j = k
  · subst hj
    rw [List.getElem?_set_self (List.getElem?_eq_some_iff.mp hp).1, Option.some.injEq] at h
    exact .inl ⟨rfl, h.symm⟩
  · rw [List.getElem?_set_ne (Ne.symm hj)] at h
    exact .inr ⟨hj, h⟩

theorem exists_set_process {processes : List Process} (hp : processes[k]? = some p) {q : Process}
    (hinfo : q.info = p.info) {j : ℕ} {p' : Process} (h : processes[j]? = some p') :
    ∃ q', (processes.set k q)[j]? = some q' ∧ q'.info = p'.info := by
  by_cases hj : j = k
  · subst hj
    obtain rfl := Option.some.inj (hp.symm.trans h)
    exact ⟨q, List.getElem?_set_self (List.getElem?_eq_some_iff.mp hp).1, hinfo⟩
  · exact ⟨p', by rw [List.getElem?_set_ne (Ne.symm hj)]; exact h, rfl⟩

theorem Inv.setProcess (h : Inv L A J r tree x w) (hp : w.processes[k]? = some p) {q : Process} (hinfo : q.info = p.info)
    (hadapter : ∀ b, q.adapter = some b → ProcessInv w.datasets x k q b) (hgone : p.adapter = none → q.adapter = none) :
    Inv L A J r tree x { w with processes := w.processes.set k q } where
  adapters := by
    intro j q' c hq' hc
    rcases getElem?_set_process hp _ hq' with ⟨rfl, rfl⟩ | ⟨-, hq'⟩
    · exact hadapter c hc
    · exact h.adapters j q' c hq' hc
  owners := h.owners
  made := by
    intro d hd
    obtain ⟨p', hp', hmade⟩ := h.made d hd
    obtain ⟨q', hq', hsame⟩ := exists_set_process hp hinfo hp'
    exact ⟨q', hq', by rw [hsame]; exact hmade⟩
  draws := h.draws
  tree := by
    rcases h.tree with htree | ⟨htemporary, htree, main, hmain, hnone⟩
    · exact .inl htree
    · refine .inr ⟨htemporary, htree, ?_⟩
      by_cases hk : k = 0
      · subst hk
        obtain rfl := Option.some.inj (hp.symm.trans hmain)
        exact ⟨q, List.getElem?_set_self (List.getElem?_eq_some_iff.mp hp).1, hgone hnone⟩
      · exact ⟨main, (List.getElem?_set_ne hk).trans hmain, hnone⟩

theorem Inv.putAdapter (h : Inv L A J r tree x w) (hp : w.processes[k]? = some p) (ha : p.adapter = some a)
    {b : Adapter} (hb : ProcessInv w.datasets x k p b) : Inv L A J r tree x (w.putAdapter k p b) := by
  refine h.setProcess hp (q := { p with adapter := some b }) rfl ?_ ?_
  · intro c hc
    cases hc
    exact ⟨hb.unmade, hb.made, hb.running, hb.artifacts⟩
  · intro hnone
    rw [ha] at hnone
    cases hnone

/-- A set-up finds the exported files, or needs none. -/
theorem setup_removed (hpath : ∃ name, r.configPath = x.directory ++ [name]) (info : Option WorkerInfo) (d : Dataset)
    (s : MutableDatasetState) : r.setup L A J (tree.removeDirAll x.directory) info ≠ .ok (.ready d s) := by
  obtain ⟨name, hpath⟩ := hpath
  have hconfig : loadConfiguration J (tree.removeDirAll x.directory) r.configPath =
      .error "Path does not point to a file" := by
    have hread : (tree.removeDirAll x.directory).read r.configPath = none := by
      rw [hpath, ← FileTree.read_sub, FileTree.removeDirAll, FileTree.sub_graft]
      rfl
    rw [loadConfiguration, hread]
  intro h
  unfold ReaderInputs.setup at h
  obtain ⟨recipe, -, h⟩ := bind_eq_ok h
  split_ifs at h with hquota
  · cases h
  · obtain ⟨made, hcreate, -⟩ := bind_eq_ok h
    unfold ReaderInputs.createDataset at hcreate
    rw [hconfig] at hcreate
    cases hcreate

theorem getElem?_append_dataset {datasets : List NativeDataset} {handle : ℕ} (new : NativeDataset)
    (h : ∃ d, datasets[handle]? = some d ∧ d.owner = k) : ∃ d, (datasets ++ [new])[handle]? = some d ∧ d.owner = k := by
  obtain ⟨d, hd, howner⟩ := h
  exact ⟨d, by rw [List.getElem?_append_left (List.getElem?_eq_some_iff.mp hd).1]; exact hd, howner⟩

/-- A process makes its dataset, which is the first one. -/
theorem Inv.make (h : Inv L A J r tree x w) (hp : w.processes[k]? = some p) (ha : p.adapter = some a)
    (hpending : a.state = .pending) {d : Dataset} {s : MutableDatasetState}
    (hsetup : r.setup L A J tree p.info = .ok (.ready d s)) (htree : w.tree = tree) :
    Inv L A J r tree x ((w.addDataset k (some (d, s))).putAdapter k p { a with state := .ready p.pid w.datasets.length })
    where
  adapters := by
    intro j q c hq hc
    rcases getElem?_set_process hp _ hq with ⟨rfl, rfl⟩ | ⟨hj, hq⟩
    · cases hc
      have hinv := h.adapters j p a hp ha
      refine ⟨fun h => (by cases h), fun handle hready => ?_, fun handle remaining hrunning => ?_, hinv.artifacts⟩
      · cases hready
        exact ⟨⟨j, d, s⟩, List.getElem?_concat_length, rfl⟩
      · exact getElem?_append_dataset _ (hinv.running handle remaining hrunning)
    · have hinv := h.adapters j q c hq hc
      refine ⟨fun hfresh e he => ?_, fun handle hready => ?_, fun handle remaining hrunning => ?_, hinv.artifacts⟩
      · rcases List.mem_append.mp he with he | he
        · exact hinv.unmade hfresh e he
        · rw [List.mem_singleton.mp he]
          exact Ne.symm hj
      · exact getElem?_append_dataset _ (hinv.made handle hready)
      · exact getElem?_append_dataset _ (hinv.running handle remaining hrunning)
  owners := by
    show (List.map NativeDataset.owner (w.datasets ++ [NativeDataset.mk k d s])).Nodup
    rw [List.map_append, List.nodup_append]
    refine ⟨h.owners, List.nodup_singleton _, ?_⟩
    intro owner howner other hother heq
    obtain ⟨e, he, rfl⟩ := List.mem_map.mp howner
    rw [List.map_singleton, List.mem_singleton] at hother
    exact (h.adapters k p a hp ha).unmade hpending e he (heq.trans hother)
  made := by
    intro e he
    rcases List.mem_append.mp he with he | he
    · obtain ⟨q, hq, hmade⟩ := h.made e he
      obtain ⟨q', hq', hinfo⟩ := exists_set_process hp
        (q := { p with adapter := some { a with state := .ready p.pid w.datasets.length } }) rfl hq
      exact ⟨q', hq', by rw [hinfo]; exact hmade⟩
    · rw [List.mem_singleton.mp he]
      exact ⟨_, List.getElem?_set_self (List.getElem?_eq_some_iff.mp hp).1, hsetup⟩
  draws := fun j handle hdraw => getElem?_append_dataset _ (h.draws j handle hdraw)
  tree := .inl htree

/-- An adapter without a share needs no dataset. -/
theorem ProcessInv.emptied {datasets : List NativeDataset} (h : ProcessInv datasets x k p a) (pid : ℕ) :
    ProcessInv datasets x k p { a with state := .empty pid } where
  unmade := fun hpending => by cases hpending
  made := fun handle hready => by cases hready
  running := h.running
  artifacts := h.artifacts

/-- **A set-up** that does not fail leaves a dataset of this process, if any. -/
theorem Inv.settle (h : Inv L A J r tree x w) (hpath : ∃ name, r.configPath = x.directory ++ [name])
    (hp : w.processes[k]? = some p) (ha : p.adapter = some a) {state : OwnedState}
    {made : Option (Dataset × MutableDatasetState)} (hsetup : w.setupState L A J r p a.state = .ok (state, made)) :
    Inv L A J r tree x ((w.addDataset k made).putAdapter k p { a with state }) ∧
      ∀ pid handle, state = .ready pid handle → pid = p.pid := by
  have hinv := h.adapters k p a hp ha
  cases hstate : a.state with
  | pending =>
      rw [hstate, System.setupState] at hsetup
      obtain ⟨reader, hreader, hsetup⟩ := bind_eq_ok hsetup
      cases reader with
      | empty =>
          cases hsetup
          refine ⟨h.putAdapter hp ha (hinv.emptied p.pid), ?_⟩
          intro pid handle hready
          cases hready
      | ready d s =>
          cases hsetup
          have htree : w.tree = tree := by
            rcases h.tree with htree | ⟨-, htree, -⟩
            · exact htree
            · rw [htree] at hreader
              exact absurd hreader (setup_removed hpath p.info d s)
          rw [htree] at hreader
          refine ⟨h.make hp ha hstate hreader htree, ?_⟩
          intro pid handle hready
          cases hready
          rfl
  | empty pid =>
      rw [hstate, System.setupState] at hsetup
      split_ifs at hsetup
      cases hsetup
      refine ⟨h.putAdapter hp ha (hinv.emptied pid), ?_⟩
      intro pid handle hready
      cases hready
  | ready pid handle =>
      rw [hstate, System.setupState] at hsetup
      split_ifs at hsetup with hpid
      cases hsetup
      refine ⟨h.putAdapter hp ha ⟨fun h => (by cases h), fun other hother => ?_, hinv.running, hinv.artifacts⟩, ?_⟩
      · exact hinv.made other (hstate.trans hother)
      · intro pid' handle' hready
        cases hready
        exact not_not.mp hpid

theorem Inv.addDraw (h : Inv L A J r tree x w) {handle : ℕ} (hmade : ∃ d, w.datasets[handle]? = some d ∧ d.owner = k) :
    Inv L A J r tree x { w with draws := w.draws ++ [(k, handle)] } := by
  refine ⟨h.adapters, h.owners, h.made, fun j other hdraw => ?_, h.tree⟩
  rcases List.mem_append.mp hdraw with hdraw | hdraw
  · exact h.draws j other hdraw
  · cases List.mem_singleton.mp hdraw
    exact hmade

theorem ProcessInv.setPass {datasets : List NativeDataset} (h : ProcessInv datasets x k p a) (i : ℕ) {pass : Generator}
    (hpass : ∀ handle remaining, pass = .running handle remaining → ∃ d, datasets[handle]? = some d ∧ d.owner = k) :
    ProcessInv datasets x k p { a with passes := a.passes.set i pass } := by
  refine ⟨h.unmade, h.made, fun handle remaining hrunning => ?_, h.artifacts⟩
  rcases List.mem_or_eq_of_mem_set hrunning with hold | hnew
  · exact h.running handle remaining hold
  · exact hpass handle remaining hnew.symm

theorem ProcessInv.setDrawn {datasets : List NativeDataset} (h : ProcessInv datasets x k p a) {handle : ℕ}
    (hmade : ∃ d, datasets[handle]? = some d ∧ d.owner = k) (i remaining : ℕ) (fails : Bool) :
    ProcessInv datasets x k p
      { a with passes := a.passes.set i (if fails then .raised else .running handle remaining) } := by
  apply h.setPass
  intro other rest hrunning
  cases fails with
  | true => cases hrunning
  | false =>
      cases hrunning
      exact hmade

theorem Inv.putAgain {b c : Adapter} (h : Inv L A J r tree x (w.putAdapter k p b)) (hp : w.processes[k]? = some p)
    (hc : ProcessInv w.datasets x k p c) : Inv L A J r tree x (w.putAdapter k p c) := by
  have hput : w.putAdapter k p c = (w.putAdapter k p b).putAdapter k { p with adapter := some b } c := by
    simp only [System.putAdapter, List.set_set]
  rw [hput]
  apply h.putAdapter (List.getElem?_set_self (List.getElem?_eq_some_iff.mp hp).1) rfl
  exact ⟨hc.unmade, hc.made, hc.running, hc.artifacts⟩

theorem Inv.beginPass (h : Inv L A J r tree x w) (hpath : ∃ name, r.configPath = x.directory ++ [name])
    (hp : w.processes[k]? = some p) (ha : p.adapter = some a) (i : ℕ) (fails : Bool) :
    Inv L A J r tree x (w.beginPass L A J r k p a i fails) := by
  have hinv := h.adapters k p a hp ha
  unfold System.beginPass
  cases hsetup : w.setupState L A J r p a.state with
  | error error =>
      apply h.putAdapter hp ha
      apply hinv.setPass
      intro handle remaining hrunning
      cases hrunning
  | ok settled =>
      obtain ⟨state, made⟩ := settled
      obtain ⟨hsettled, hpid⟩ := h.settle hpath hp ha hsetup
      have hp' : (w.addDataset k made).processes[k]? = some p := by
        cases made <;> exact hp
      have hset := hsettled.adapters k _ _ (List.getElem?_set_self (List.getElem?_eq_some_iff.mp hp').1) rfl
      have hset : ProcessInv (w.addDataset k made).datasets x k p { a with state } :=
        ⟨hset.unmade, hset.made, hset.running, hset.artifacts⟩
      have hended : Inv L A J r tree x ((w.addDataset k made).putAdapter k p
          { a with state, passes := a.passes.set i .ended }) :=
        hsettled.putAgain hp' (hset.setPass i fun handle remaining hrunning => by cases hrunning)
      cases state with
      | pending => exact hended
      | empty pid => exact hended
      | ready pid handle =>
          obtain rfl := hpid pid handle rfl
          have hmade := hset.made handle rfl
          simp only
          split
          · exact Inv.addDraw (hsettled.putAgain hp' (hset.setDrawn hmade i _ fails)) hmade
          · exact hended

/-- A new process has made nothing yet. -/
theorem Inv.owner_lt (h : Inv L A J r tree x w) (d : NativeDataset) (hd : d ∈ w.datasets) :
    d.owner < w.processes.length := by
  obtain ⟨p, hp, -⟩ := h.made d hd
  exact (List.getElem?_eq_some_iff.mp hp).1

/-- A new process; its adapter is no inherited one. -/
theorem Inv.start (h : Inv L A J r tree x w) {q : Process}
    (hq : ∀ b, q.adapter = some b → ProcessInv w.datasets x w.processes.length q b) :
    Inv L A J r tree x (w.start q) where
  adapters := by
    intro j p a hp ha
    by_cases hj : j < w.processes.length
    · rw [System.start, List.getElem?_append_left hj] at hp
      exact h.adapters j p a hp ha
    · have hlt := (List.getElem?_eq_some_iff.mp hp).1
      simp only [System.start, List.length_append, List.length_singleton] at hlt
      obtain rfl : j = w.processes.length := by omega
      rw [System.start, List.getElem?_concat_length, Option.some.injEq] at hp
      subst hp
      exact hq a ha
  owners := h.owners
  made := by
    intro d hd
    obtain ⟨p, hp, hmade⟩ := h.made d hd
    exact ⟨p, by rw [System.start, List.getElem?_append_left (List.getElem?_eq_some_iff.mp hp).1]; exact hp, hmade⟩
  draws := h.draws
  tree := by
    rcases h.tree with htree | ⟨htemporary, htree, p, hp, hgone⟩
    · exact .inl htree
    · refine .inr ⟨htemporary, htree, p, ?_, hgone⟩
      rw [System.start, List.getElem?_append_left (List.getElem?_eq_some_iff.mp hp).1]
      exact hp

/-- **The artifacts** are deleted with the adapter of the process that made them. -/
theorem Inv.collect (h : Inv L A J r tree x w) (hp : w.processes[k]? = some p) (ha : p.adapter = some a) :
    Inv L A J r tree x
      { w.release p a.artifacts with processes := w.processes.set k { p with adapter := none } } := by
  have hset : Inv L A J r tree x { w with processes := w.processes.set k { p with adapter := none } } := by
    refine h.setProcess hp (q := { p with adapter := none }) rfl ?_ ?_
    · intro b hb
      cases hb
    · intro _
      rfl
  cases hartifacts : a.artifacts with
  | none => exact hset
  | some y =>
      obtain ⟨rfl, hmain⟩ := (h.adapters k p a hp ha).artifacts y (by rw [hartifacts]; rfl)
      by_cases howned : y.temporary = true ∧ y.pid = p.pid
      · simp only [System.release, if_pos howned]
        obtain ⟨htemporary, hpid⟩ := howned
        obtain rfl := hmain hpid
        have htree : w.tree = tree := by
          rcases h.tree with htree | ⟨-, -, q, hq, hgone⟩
          · exact htree
          · obtain rfl := Option.some.inj (hp.symm.trans hq)
            rw [ha] at hgone
            cases hgone
        refine ⟨hset.adapters, hset.owners, hset.made, hset.draws,
          .inr ⟨htemporary, ?_, { p with adapter := none }, ?_, rfl⟩⟩
        · exact congrArg (fun files : FileTree => files.removeDirAll y.directory) htree
        · exact List.getElem?_set_self (List.getElem?_eq_some_iff.mp hp).1
      · simp only [System.release, if_neg howned]
        exact hset

theorem inv_fork (h : Inv L A J r tree x w) {parent pid : ℕ} {info : Option WorkerInfo}
    (hsafe : ForkSafe w (.fork parent pid info)) (hstep : w.step L A J r (.fork parent pid info) = some w') :
    Inv L A J r tree x w' := by
  obtain ⟨⟨p, a⟩, hactive, hstep⟩ := Option.bind_eq_some_iff.mp hstep
  split_ifs at hstep
  cases hstep
  obtain ⟨hp, ha, -⟩ := System.active?_eq_some.mp hactive
  obtain ⟨hforgets, hidle⟩ := hsafe p a hactive
  have hinv := h.adapters parent p a hp ha
  apply h.start
  intro b hb
  cases hb
  refine ⟨fun _ d hd howner => ?_, fun handle hready => ?_, fun handle remaining hrunning => ?_, fun y hy => ?_⟩
  · exact absurd howner (h.owner_lt d hd).ne
  · exact absurd (.inl (by rw [hready]; rfl)) hforgets
  · exact absurd hrunning (hidle handle remaining)
  · exact ⟨(hinv.artifacts y hy).1, fun hpid => absurd (.inr ⟨y, hy, hpid⟩) hforgets⟩

theorem inv_spawn (h : Inv L A J r tree x w) {parent pid : ℕ} {info : Option WorkerInfo}
    (hstep : w.step L A J r (.spawn parent pid info) = some w') : Inv L A J r tree x w' := by
  obtain ⟨⟨p, a⟩, -, hstep⟩ := Option.bind_eq_some_iff.mp hstep
  split_ifs at hstep
  cases hstep
  apply h.start
  intro b hb
  cases hb
  refine ⟨fun _ d hd howner => ?_, fun handle hready => ?_, fun handle remaining hrunning => ?_, fun y hy => ?_⟩
  · exact absurd howner (h.owner_lt d hd).ne
  · cases hready
  · cases hrunning
  · cases hy

theorem inv_setup (hpath : ∃ name, r.configPath = x.directory ++ [name]) (h : Inv L A J r tree x w) {k : ℕ}
    (hstep : w.step L A J r (.setup k) = some w') : Inv L A J r tree x w' := by
  obtain ⟨⟨p, a⟩, hactive, hstep⟩ := Option.bind_eq_some_iff.mp hstep
  obtain ⟨hp, ha, -⟩ := System.active?_eq_some.mp hactive
  cases hsetup : w.setupState L A J r p a.state with
  | error error =>
      simp only [hsetup] at hstep
      cases hstep
      exact h
  | ok settled =>
      simp only [hsetup] at hstep
      cases hstep
      exact (h.settle hpath hp ha hsetup).1

theorem inv_iter (h : Inv L A J r tree x w) {k : ℕ}
    (hstep : w.step L A J r (.iter k) = some w') : Inv L A J r tree x w' := by
  obtain ⟨⟨p, a⟩, hactive, hstep⟩ := Option.bind_eq_some_iff.mp hstep
  obtain ⟨hp, ha, -⟩ := System.active?_eq_some.mp hactive
  cases hstep
  have hinv := h.adapters k p a hp ha
  refine h.putAdapter hp ha ⟨hinv.unmade, hinv.made, fun handle remaining hrunning => ?_, hinv.artifacts⟩
  rcases List.mem_append.mp hrunning with hold | hnew
  · exact hinv.running handle remaining hold
  · cases List.mem_singleton.mp hnew

theorem inv_next (hpath : ∃ name, r.configPath = x.directory ++ [name]) (h : Inv L A J r tree x w) {k i : ℕ} {fails : Bool}
    (hstep : w.step L A J r (.next k i fails) = some w') : Inv L A J r tree x w' := by
  obtain ⟨⟨p, a⟩, hactive, hstep⟩ := Option.bind_eq_some_iff.mp hstep
  obtain ⟨hp, ha, -⟩ := System.active?_eq_some.mp hactive
  obtain ⟨pass, hpass, hstep⟩ := Option.bind_eq_some_iff.mp hstep
  have hinv := h.adapters k p a hp ha
  cases pass with
  | fresh =>
      cases hstep
      exact h.beginPass hpath hp ha i fails
  | running handle remaining =>
      have hmade := hinv.running handle remaining (List.mem_of_getElem? hpass)
      cases remaining with
      | zero =>
          cases hstep
          apply h.putAdapter hp ha (hinv.setPass i _)
          intro other rest hrunning
          cases hrunning
      | succ remaining =>
          cases hstep
          exact Inv.addDraw (h.putAdapter hp ha (hinv.setDrawn hmade i remaining fails)) hmade
  | ended =>
      cases hstep
      exact h
  | raised =>
      cases hstep
      exact h

theorem inv_exit (h : Inv L A J r tree x w) {k : ℕ}
    (hstep : w.step L A J r (.exit k) = some w') : Inv L A J r tree x w' := by
  obtain ⟨p, hp, hstep⟩ := Option.bind_eq_some_iff.mp hstep
  cases hstep
  refine h.setProcess hp (q := { p with alive := false }) rfl ?_ ?_
  · intro b hb
    have hinv := h.adapters k p b hp hb
    exact ⟨hinv.unmade, hinv.made, hinv.running, hinv.artifacts⟩
  · exact id

/-- **One step.** -/
theorem inv_step (hpath : ∃ name, r.configPath = x.directory ++ [name]) (h : Inv L A J r tree x w) {act : Act}
    (hsafe : ForkSafe w act) (hstep : w.step L A J r act = some w') : Inv L A J r tree x w' := by
  cases act with
  | fork parent pid info => exact inv_fork h hsafe hstep
  | spawn parent pid info => exact inv_spawn h hstep
  | setup k => exact inv_setup hpath h hstep
  | iter k => exact inv_iter h hstep
  | next k i fails => exact inv_next hpath h hstep
  | close k i =>
      obtain ⟨⟨p, a⟩, hactive, hstep⟩ := Option.bind_eq_some_iff.mp hstep
      obtain ⟨hp, ha, -⟩ := System.active?_eq_some.mp hactive
      cases hstep
      apply h.putAdapter hp ha ((h.adapters k p a hp ha).setPass i _)
      intro other rest hrunning
      cases hrunning
  | collect k =>
      obtain ⟨⟨p, a⟩, hactive, hstep⟩ := Option.bind_eq_some_iff.mp hstep
      obtain ⟨hp, ha, -⟩ := System.active?_eq_some.mp hactive
      cases hstep
      exact h.collect hp ha
  | exit k => exact inv_exit h hstep

theorem inv_launched (tree : FileTree) (x : ConstructionArtifacts) : Inv L A J r tree x (launched tree x) where
  adapters := by
    intro k p a hp ha
    have hk : k = 0 := by
      have hlt := (List.getElem?_eq_some_iff.mp hp).1
      simp only [launched, List.length_singleton] at hlt
      omega
    subst hk
    cases hp
    cases ha
    refine ⟨fun _ d hd => (by cases hd), fun handle h => (by cases h), fun handle remaining h => (by cases h), ?_⟩
    intro y hy
    obtain rfl := Option.some.inj hy
    exact ⟨rfl, fun _ => rfl⟩
  owners := List.nodup_nil
  made := fun d hd => by cases hd
  draws := fun k handle hdraw => by cases hdraw
  tree := .inl rfl

end inv

theorem partition_of_workerPlan {r : ReaderInputs} {info : Option WorkerInfo} {plan : WorkerPlan}
    (h : r.workerPlan info = .ok plan) : ∃ k : ℕ, r.partitions[k]? = some plan := by
  unfold ReaderInputs.workerPlan at h
  cases info
  all_goals
    simp only at h
    split_ifs at h
    split at h
    · cases h
    · next recipe hrecipe =>
      split_ifs at h
      cases h
      exact ⟨_, hrecipe⟩

end ReaderProcesses

open ReaderProcesses in
/-- **Draws are from the own dataset.**  An export, or what a crash has left of it, is read through a loader whose
adapter is forked and pickled in any way; the forks give no PID that the adapter remembers, and copy no pass that has
begun.  Then every process makes at most one dataset, with the samples and weights of the rows of its own plan, and
every draw of a process is from the dataset that it has made.  The exported files are there as long as the adapter of
the process that exported them. -/
theorem draws_own_dataset {R : RandLib} (hR : R.Lawful) {A : ArrowLib} (hA : A.Lawful)
    (hfiles : ∀ bytes schema batches, A.readFile bytes = .ok (schema, batches) → Uniform schema batches)
    {J : ConfigJson} (hJ : J.Lawful) {L : StorageLib}
    {metadataBatches : LoadedCache → CacheResult (List (CacheResult RecordBatch))} {call : DumpCall} {left : FileTree}
    (hexport : CrashedExport R A J L metadataBatches call left) {N : NumpyRandom} (hN : N.Lawful)
    (replica : ReplicaIdentity) {o : AdapterOptions} (ho : o.Accepted) (randbits : ℕ → BitVec 64)
    (hrows : call.dataset.activeLen call.state.active < maxWords) :
    ∃ r, prepareAdapter J N left (call.path .config) replica o randbits = .ok r ∧
      ∀ (pid : ℕ) (temporary : Bool) (acts : List Act) (w : System),
        Machine.Guarded (System.step L A J r) ForkSafe (launched left ⟨call.directory, pid, temporary⟩) acts →
        Machine.run (System.step L A J r) (launched left ⟨call.directory, pid, temporary⟩) acts = some w →
        (w.datasets.map NativeDataset.owner).Nodup ∧
        (∀ d ∈ w.datasets, ∃ p plan, w.processes[d.owner]? = some p ∧ r.workerPlan p.info = .ok plan ∧
          d.dataset = plan.datasetOf call o.nativeThreads o.shuffle ∧ plan.PopulationOf N call d.state) ∧
        (∀ k handle, (k, handle) ∈ w.draws → ∃ d, w.datasets[handle]? = some d ∧ d.owner = k) ∧
        (w.tree = left ∨ temporary = true ∧ ∃ p, w.processes[0]? = some p ∧ p.adapter = none) := by
  obtain ⟨config, schema, batches, active, s₀, h⟩ := hexport.readable hR hA hfiles hJ
  obtain ⟨hcount, -⟩ := ReaderInputs.rowCount_eq h
  obtain ⟨r, hprepare, hpath, hshuffle, hthreads, hlength, -, hplans⟩ :=
    prepareAdapter_ok N h.configuration replica ho randbits (hcount ▸ hrows)
  refine ⟨r, hprepare, fun pid temporary acts w hsafe hrun => ?_⟩
  have hinv : Inv L A J r left ⟨call.directory, pid, temporary⟩ w :=
    Machine.run_invariant_of_guarded _ (fun _ _ _ hinv hsafe hstep => inv_step ⟨_, hpath⟩ hinv hsafe hstep)
      (inv_launched left _) hsafe hrun
  refine ⟨hinv.owners, fun d hd => ?_, hinv.draws, ?_⟩
  · obtain ⟨p, hp, hmade⟩ := hinv.made d hd
    have hsetup := hmade
    unfold ReaderInputs.setup at hsetup
    obtain ⟨plan, hplan, hsetup⟩ := bind_eq_ok hsetup
    split_ifs at hsetup with hquota
    · cases hsetup
    · obtain ⟨k, hk⟩ := partition_of_workerPlan hplan
      obtain ⟨-, -, hpos, hshort, horder⟩ := hplans k plan hk
      obtain ⟨s, heq, hpopulation⟩ := ((ReaderInputs.setup_iff hN h hrows hpath hplan hpos hshort horder).2
        (Nat.pos_of_ne_zero hquota)).2 _ hmade
      obtain ⟨hdataset, rfl⟩ := ProcessReader.ready.inj heq
      exact ⟨p, plan, hp, hplan, by rw [hdataset, hthreads, hshuffle], hpopulation⟩
  · rcases hinv.tree with htree | ⟨htemporary, -, hgone⟩
    · exact .inl htree
    · exact .inr ⟨htemporary, hgone⟩

open StoredRows ReaderProcesses in
/-- A forked loading process makes a dataset and draws from it; then the exporting process gives its files up. -/
theorem draws_own_dataset_two_rows : ∃ left r w,
    prepareAdapter TwoRows.json .sampled left (call.path .config) replica options (fun _ => 0) = .ok r ∧
    Machine.run (System.step lib TwoRows.arrow TwoRows.json r) (launched left ⟨call.directory, 1, true⟩)
      [.fork 0 2 (some ⟨1, 2⟩), .iter 1, .next 1 0 false, .collect 0] = some w ∧
    w.draws = [(1, 0)] ∧ w.tree = left.removeDirAll call.directory ∧ ∃ d, w.datasets[0]? = some d ∧ d.owner = 1 := by
  obtain ⟨ended, -, hexport⟩ := exists_export
  obtain ⟨r, hprepare, hall⟩ := draws_own_dataset RandLib.lawful_first TwoRows.lawful_arrow uniform_files
    TwoRows.lawful_json hexport NumpyRandom.lawful_sampled replica accepted_options (fun _ => 0) (by decide)
  obtain ⟨r', hprepare', hplans, hready⟩ := exists_prepared hexport accepted_options replica
  obtain rfl := Except.ok.inj (hprepare.symm.trans hprepare')
  obtain ⟨plan, hplan, hrows, hquota⟩ := exists_second_plan hplans
  obtain ⟨s, hreader, hlen⟩ := hready 1 plan hplan (by omega) (summable_of_rows Nat.two_pos hrows)
  rw [hquota] at hlen
  have hsetup : ∀ (w : System) (p : Process), w.tree = ended.disk.tree → p.info = some ⟨1, 2⟩ →
      w.setupState lib TwoRows.arrow TwoRows.json r p .pending = .ok (.ready p.pid w.datasets.length,
        some (plan.datasetOf call options.nativeThreads options.shuffle, s)) := by
    intro w p htree hinfo
    rw [System.setupState, htree, hinfo]
    have hreader : r.setup lib TwoRows.arrow TwoRows.json ended.disk.tree (some ⟨1, 2⟩) = _ := hreader
    rw [hreader]
    rfl
  obtain ⟨w, hrun, hdraws, htree⟩ : ∃ w, Machine.run (System.step lib TwoRows.arrow TwoRows.json r)
      (launched ended.disk.tree ⟨call.directory, 1, true⟩)
      [.fork 0 2 (some ⟨1, 2⟩), .iter 1, .next 1 0 false, .collect 0] = some w ∧ w.draws = [(1, 0)] ∧
      w.tree = ended.disk.tree.removeDirAll call.directory := by
    simp [Machine.run, System.step, System.active?, launched, System.PidFree, System.start, System.putAdapter,
      System.beginPass, hsetup, System.addDataset, System.draw, hlen, System.release]
  have hsafe : Machine.Guarded (System.step lib TwoRows.arrow TwoRows.json r) ForkSafe
      (launched ended.disk.tree ⟨call.directory, 1, true⟩)
      [.fork 0 2 (some ⟨1, 2⟩), .iter 1, .next 1 0 false, .collect 0] := by
    refine ⟨fun p a hactive => ?_, fun _ _ => ⟨trivial, fun _ _ => ⟨trivial, fun _ _ => ⟨trivial, fun _ _ => trivial⟩⟩⟩⟩
    obtain ⟨hp, ha, -⟩ := System.active?_eq_some.mp hactive
    cases hp
    cases ha
    refine ⟨fun hremembers => ?_, fun handle remaining hrunning => by cases hrunning⟩
    rcases hremembers with hstate | ⟨x, hx, hpid⟩
    · cases hstate
    · cases hx
      cases hpid
  obtain ⟨-, -, howned, -⟩ := hall 1 true _ w hsafe hrun
  refine ⟨ended.disk.tree, r, w, hprepare, hrun, hdraws, htree, howned 1 0 ?_⟩
  rw [hdraws]
  exact List.mem_singleton_self _

end DatasetRt
