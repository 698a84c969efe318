import DatasetRt.DatasetStream

/-! # Windows of one stream

`recordAll` applies a history of operations and keeps the plans made since the population was last
replaced, in the order of their creation.  Their rows, one window after the other, are one stream:

* without shuffling the rows of the active table over and over (`windows_cyclic`);
* with shuffling draw number `0`, `1`, `2`, … (`windows_draws`), where no draw number comes twice and
  distinct numbers seed distinct generators. -/

namespace DatasetRt

namespace Dataset

variable (R : RandLib)

/-- A state and the plans made since its population was put in place. -/
abbrev Recording := MutableDatasetState × List (EpochPlan R)

/-- An accepted update begins a new stream. -/
def recordUpdate (result : MutableDatasetState × CacheResult Unit) (windows : List (EpochPlan R)) : Recording R :=
  match result with
  | (s, .ok ()) => (s, [])
  | (s, .error _) => (s, windows)

def record (A : ArrowLib) (d : Dataset) (r : Recording R) : Op → Recording R
  | .setEpochLen epochLen => ((setEpochLen epochLen r.1).1, r.2)
  | .updateArrow table => recordUpdate R (d.updateMetadataArrow table r.1) r.2
  | .updateIpc ipc => recordUpdate R (d.updateMetadataIpc A ipc r.1) r.2
  | .epochPlan =>
      match d.epochPlan R r.1 with
      | (s, .ok plan) => (s, r.2 ++ [plan])
      | (s, .error _) => (s, r.2)

/-- The recording after a history of operations. -/
def recordAll (A : ArrowLib) (d : Dataset) (s : MutableDatasetState) (ops : List Op) : Recording R :=
  ops.foldl (record R A d) (s, [])

end Dataset

/-- The number of the next draw. -/
def EpochSampler.nextDraw {R : RandLib} : EpochSampler R → ℕ
  | uniform _ nextDraw _ _ => nextDraw
  | weighted _ _ nextDraw _ => nextDraw

def EpochPlan.nextDraw {R : RandLib} : EpochPlan R → Option ℕ
  | sequential _ _ _ _ => none
  | shuffled sampler _ => some sampler.nextDraw

/-- The numbers of the draws of a window. -/
def EpochPlan.drawNumbers {R : RandLib} (plan : EpochPlan R) : List (Option ℕ) :=
  (List.range plan.len).map fun k => (plan.after k).nextDraw

/-- The rows of a window. -/
def EpochPlan.rows {R : RandLib} (plan : EpochPlan R) : List (Option ℕ) := (List.range plan.len).map plan.planned

/-- The rows of some windows, one after the other. -/
def windowRows {R : RandLib} (windows : List (EpochPlan R)) : List (Option ℕ) := windows.flatMap EpochPlan.rows

/-- The number of rows of some windows. -/
def windowTotal {R : RandLib} (windows : List (EpochPlan R)) : ℕ := (windows.map EpochPlan.len).sum

namespace Dataset

variable {R : RandLib} {A : ArrowLib} {d : Dataset} {s : MutableDatasetState}

/-- A recording follows the state. -/
theorem record_fst (r : Recording R) (op : Op) : (d.record R A r op).1 = d.apply R A r.1 op := by
  cases op with
  | setEpochLen epochLen => rfl
  | updateArrow table =>
      simp only [record, apply, recordUpdate]
      rcases d.updateMetadataArrow table r.1 with ⟨s, ⟨error⟩ | ⟨⟨⟩⟩⟩ <;> rfl
  | updateIpc ipc =>
      simp only [record, apply, recordUpdate]
      rcases d.updateMetadataIpc A ipc r.1 with ⟨s, ⟨error⟩ | ⟨⟨⟩⟩⟩ <;> rfl
  | epochPlan =>
      simp only [record, apply]
      rcases d.epochPlan R r.1 with ⟨s, ⟨error⟩ | ⟨plan⟩⟩ <;> rfl

theorem epochPlan_error {s' : MutableDatasetState} {error : CacheError}
    (h : d.epochPlan R s = (s', .error error)) : s' = s := by
  unfold epochPlan at h
  split_ifs at h
  · split at h
    · exact (congrArg Prod.fst h).symm
    · split at h
      · exact (congrArg Prod.fst h).symm
      · cases h
  · simp only at h
    split at h
    · exact (congrArg Prod.fst h).symm
    · cases h

/-- **Invariant rule for recordings**: a new population begins without windows, `set_epoch_len` changes
nothing else, and a plan adds one window. -/
theorem recordAll_invariant {I : Recording R → Prop} (hstart : I (s, []))
    (hlen : ∀ s windows epochLen, I (s, windows) → I ({ s with epochLen }, windows))
    (hupdate : ∀ s windows active epochLen, I (s, windows) →
      active.Valid d.totalSamples →
      I ({ active := .table active, originalMetadata := none, epochLen, sequentialOffset := 0
           shuffledDrawOffset := 0 }, []))
    (hplan : ∀ s windows s' plan, I (s, windows) → d.epochPlan R s = (s', .ok plan) → I (s', windows ++ [plan]))
    (hd : d.Valid) (ops : List Op) : I (d.recordAll R A s ops) := by
  have hreplace : ∀ (r : Recording R) extracted, I r →
      (∀ active, extracted = .ok active → active.Valid d.totalSamples) →
      I (recordUpdate R (replaceWith extracted r.1) r.2) := by
    intro r extracted hr hvalid
    rcases replaceWith_cases extracted r.1 with ⟨error, heq⟩ | ⟨active, epochLen, hok, heq⟩
    · rw [heq]
      exact hr
    · rw [heq]
      exact hupdate r.1 r.2 active epochLen hr (hvalid active hok)
  have hstep : ∀ (r : Recording R) op, I r → I (d.record R A r op) := by
    intro r op hr
    cases op with
    | setEpochLen epochLen =>
        simp only [record, setEpochLen]
        cases epochLenNew epochLen with
        | error error => exact hr
        | ok epochLen => exact hlen r.1 r.2 epochLen hr
    | updateArrow table =>
        refine hreplace r _ hr fun active hactive => ?_
        obtain ⟨arrow, harrow, hactive⟩ := bind_eq_ok hactive
        exact extractMetadataArrow_valid hd.pop (ArrowMetadata.len_lt_of_toArrow harrow) hactive
    | updateIpc ipc =>
        exact hreplace r _ hr fun active hactive => extractMetadataIpc_valid hd.pop hactive
    | epochPlan =>
        simp only [record]
        rcases hp : d.epochPlan R r.1 with ⟨s', ⟨error⟩ | ⟨plan⟩⟩
        · obtain rfl := epochPlan_error hp
          exact hr
        · exact hplan r.1 r.2 s' plan hr hp
  unfold recordAll
  generalize (s, ([] : List (EpochPlan R))) = r at hstart
  induction ops generalizing r with
  | nil => exact hstart
  | cons op ops ih => exact ih _ (hstep r op hstart)

/-! ### Cyclic windows -/

/-- The two additions of the code do not overflow and are the same. -/
theorem cyclic_additions {start populationLen : ℕ} (offset : ℕ) (hstart : start < populationLen)
    (hlen : populationLen < wordSize) :
    wrappingAddMod start offset populationLen = some ((start + offset) % populationLen) ∧
    advanceCyclicOffset start offset populationLen = .ok ((start + offset) % populationLen) ∧
    (start < populationLen - offset % populationLen → start + offset % populationLen < wordSize) := by
  have hmod : offset % populationLen < populationLen := Nat.mod_lt _ (by omega)
  have hsum : (start + offset) % populationLen =
      if populationLen - offset % populationLen ≤ start then start - (populationLen - offset % populationLen)
      else start + offset % populationLen := by
    rw [Nat.add_mod, Nat.mod_eq_of_lt hstart]
    split_ifs with hwrap
    · rw [Nat.mod_eq_sub_mod (by omega), Nat.mod_eq_of_lt (by omega)]
      omega
    · exact Nat.mod_eq_of_lt (by omega)
  refine ⟨?_, ?_, fun h => by omega⟩
  · rw [hsum, wrappingAddMod, if_neg (by omega)]
    simp only
    split_ifs with hwrap
    · rfl
    · rw [Nat.mod_eq_of_lt (by omega)]
  · rw [hsum, advanceCyclicOffset, if_neg (by omega)]
    simp only
    split_ifs with hwrap
    · rfl
    · rw [Nat.mod_eq_of_lt (by omega)]

theorem windowTotal_append (windows : List (EpochPlan R)) (plan : EpochPlan R) :
    windowTotal (windows ++ [plan]) = windowTotal windows + plan.len := by
  simp [windowTotal]

theorem windowRows_append (windows : List (EpochPlan R)) (plan : EpochPlan R) :
    windowRows (windows ++ [plan]) = windowRows windows ++ plan.rows := by
  simp [windowRows]

theorem windowRows_append_eq {windows : List (EpochPlan R)} {plan : EpochPlan R} {row : ℕ → Option ℕ}
    (hrows : windowRows windows = (List.range (windowTotal windows)).map row)
    (hplan : ∀ k < plan.len, plan.planned k = row (windowTotal windows + k)) :
    windowRows (windows ++ [plan]) = (List.range (windowTotal (windows ++ [plan]))).map row := by
  rw [windowRows_append, windowTotal_append, hrows, List.range_add, List.map_append, List.map_map]
  congr 1
  exact List.map_congr_left fun k hk => hplan k (List.mem_range.mp hk)

theorem sequential_planned {len start populationLen : ℕ} {indices : Option (List ℕ)} {k : ℕ}
    (hstart : start < populationLen) (hlen : populationLen < wordSize) (hk : k < len) :
    (EpochPlan.sequential len start populationLen indices : EpochPlan R).planned k =
      EpochPlan.physical indices ((start + k) % populationLen) := by
  rw [EpochPlan.planned, sequential_after]
  simp only [EpochPlan.nextPhysicalIndex, if_neg (Nat.not_le.mpr hk), (cyclic_additions k hstart hlen).1,
    Option.bind_some]

theorem shuffle_of_load {loadCaches : List Path → CacheResult (List LoadedCache)} {paths : List Path}
    {seed : BitVec 64} {prefetchSize : ℕ} {numWorkers : Positive} {shuffle : Bool}
    (h : load loadCaches paths seed prefetchSize numWorkers shuffle = .ok (d, s)) :
    d.shuffle = shuffle ∧ d.seed = seed ∧ s.sequentialOffset = 0 ∧ s.shuffledDrawOffset = 0 := by
  unfold load at h
  split_ifs at h with hpaths
  obtain ⟨prefetch, -, h⟩ := bind_eq_ok h
  obtain ⟨caches, -, h⟩ := bind_eq_ok h
  obtain ⟨lookup, -, h⟩ := bind_eq_ok h
  obtain ⟨schema, -, h⟩ := bind_eq_ok h
  obtain ⟨⟨offsets, total⟩, -, h⟩ := bind_eq_ok h
  simp only at h
  split_ifs at h with hzero
  obtain ⟨epochLen, -, h⟩ := bind_eq_ok h
  cases h
  exact ⟨rfl, rfl, rfl, rfl⟩

/-- What a recording of a dataset without shuffling keeps. -/
structure Cyclic (d : Dataset) (r : Recording R) : Prop where
  inv : r.1.Inv d
  cursor : r.1.sequentialOffset = windowTotal r.2 % d.activeLen r.1.active
  rows : windowRows r.2 = (List.range (windowTotal r.2)).map fun k =>
    EpochPlan.physical (activePhysicalIndices r.1.active) (k % d.activeLen r.1.active)

theorem inv_updated {active : ActiveMetadataTable} (h : active.Valid d.totalSamples) (epochLen : Positive) :
    MutableDatasetState.Inv { active := .table active, originalMetadata := none, epochLen, sequentialOffset := 0
                              shuffledDrawOffset := 0 } d := by
  refine ⟨?_, fun t ht => ?_⟩
  · simp only [activeLen, h.physical_length]
    exact h.nonempty
  · cases ht
    exact h

theorem cyclic_epochPlan (hd : d.Valid) (hshuffle : d.shuffle = false) {windows : List (EpochPlan R)}
    (h : Cyclic d (s, windows)) {s' : MutableDatasetState} {plan : EpochPlan R}
    (hplan : d.epochPlan R s = (s', .ok plan)) : Cyclic d (s', windows ++ [plan]) := by
  have hbounds := activeLen_bounds hd h.inv
  obtain ⟨-, hadvance, -⟩ := cyclic_additions s.epochLen.1 h.inv.cursor hbounds.2
  have hcursor : s.sequentialOffset = windowTotal windows % d.activeLen s.active := h.cursor
  simp only [epochPlan, hshuffle, Bool.false_eq_true, if_false, hadvance, Prod.mk.injEq, Except.ok.injEq] at hplan
  obtain ⟨rfl, rfl⟩ := hplan
  refine ⟨⟨Nat.mod_lt _ hbounds.1, h.inv.table⟩, ?_, ?_⟩
  · simp only [windowTotal_append, EpochPlan.len, hcursor, Nat.mod_add_mod]
  · refine windowRows_append_eq h.rows fun k hk => ?_
    have hstart : s.sequentialOffset < d.activeLen s.active := h.inv.cursor
    have hk' : k < s.epochLen.1 := hk
    rw [sequential_planned hstart hbounds.2 hk', hcursor, Nat.mod_add_mod]

/-- **Sequential windows are one cyclic stream** of the active rows, and the additions behind it do not
overflow. -/
theorem windows_cyclic (A : ArrowLib) {loadCaches : List Path → CacheResult (List LoadedCache)}
    {paths : List Path} {seed : BitVec 64} {prefetchSize : ℕ} {numWorkers : Positive} {s₀ : MutableDatasetState}
    (hload : load loadCaches paths seed prefetchSize numWorkers false = .ok (d, s₀)) (ops : List Op)
    {windows : List (EpochPlan R)} (hrun : d.recordAll R A s₀ ops = (s, windows)) :
    (1 ≤ d.activeLen s.active ∧ d.activeLen s.active < wordSize) ∧
    (windowRows windows = (List.range (windowTotal windows)).map fun k =>
      EpochPlan.physical (activePhysicalIndices s.active) (k % d.activeLen s.active)) ∧
    (∀ k, ∃ physical, EpochPlan.physical (activePhysicalIndices s.active) (k % d.activeLen s.active) =
      some physical) ∧
    ∀ populationLen start offset, start < populationLen → populationLen < wordSize →
      wrappingAddMod start offset populationLen = some ((start + offset) % populationLen) ∧
      advanceCyclicOffset start offset populationLen = .ok ((start + offset) % populationLen) ∧
      (start < populationLen - offset % populationLen → start + offset % populationLen < wordSize) := by
  obtain ⟨hd, hinv⟩ := valid_of_load hload
  obtain ⟨hshuffle, -, hzero, -⟩ := shuffle_of_load hload
  have hstart : Cyclic d ((s₀, []) : Recording R) :=
    ⟨hinv, by simp [hzero, windowTotal], by simp [windowRows, windowTotal]⟩
  have h : Cyclic d (d.recordAll R A s₀ ops) := by
    refine recordAll_invariant hstart (fun s windows epochLen h => ?_) (fun s windows active epochLen _ h => ?_)
      (fun s windows s' plan h hplan => cyclic_epochPlan hd hshuffle h hplan) hd ops
    · exact ⟨⟨h.inv.cursor, h.inv.table⟩, h.cursor, h.rows⟩
    · exact ⟨inv_updated h epochLen, by simp [windowTotal], by simp [windowRows, windowTotal]⟩
  rw [hrun] at h
  have hbounds := activeLen_bounds hd h.inv
  refine ⟨hbounds, h.rows, fun k => ?_, fun populationLen start offset hlt hlen =>
    cyclic_additions offset hlt hlen⟩
  obtain ⟨physical, hphysical, -⟩ := physical_lt h.inv (Nat.mod_lt k hbounds.1)
  exact ⟨physical, hphysical⟩

/-- Windows of one, five and five rows over two samples. -/
theorem windows_cyclic_two : ∃ windows : List (EpochPlan RandLib.first),
    (OneRow.dataset.recordAll RandLib.first OneRow.noArrow OneRow.start
      [.setEpochLen 1, .epochPlan, .setEpochLen 5, .epochPlan, .epochPlan]).2 = windows ∧
    windows.map EpochPlan.len = [1, 5, 5] ∧
    windowRows windows = (List.range 11).map fun k => some (k % 2) := by
  have h := (windows_cyclic OneRow.noArrow OneRow.load_eq
    [.setEpochLen 1, .epochPlan, .setEpochLen 5, .epochPlan, .epochPlan] (R := RandLib.first) rfl).2.1
  exact ⟨_, rfl, rfl, h⟩

/-! ### Draws -/

/-- Draw number `k` of a population: a function of its size or weights and of one generator. -/
def draw (R : RandLib) (d : Dataset) (active : ActiveMetadata) (k : ℕ) : Option ℕ :=
  match active with
  | .full => some (R.genRange (sampleRng d.seed k) d.totalSamples)
  | .table table =>
      match R.weightedIndex table.weights with
      | .ok distribution => some (R.sample distribution (sampleRng d.seed k))
      | .error _ => none

theorem rotateLeft_rotateLeft (x : BitVec 64) : (x.rotateLeft 32).rotateLeft 32 = x := by
  ext i hi
  rw [BitVec.getElem_rotateLeft]
  split_ifs with h
  · rw [BitVec.getElem_rotateLeft, dif_neg (by omega)]
    congr 1
    omega
  · rw [BitVec.getElem_rotateLeft, dif_pos (by omega)]
    congr 1
    omega

theorem sampleRng_injective (seed : BitVec 64) {a b : ℕ} (ha : a < wordSize) (hb : b < wordSize)
    (h : sampleRng seed a = sampleRng seed b) : a = b := by
  have hrotated : (BitVec.ofNat 64 a).rotateLeft 32 = (BitVec.ofNat 64 b).rotateLeft 32 :=
    (BitVec.xor_right_inj seed).mp h
  have hwords := congrArg (fun x : BitVec 64 => (x.rotateLeft 32).toNat) hrotated
  simp only [rotateLeft_rotateLeft, BitVec.toNat_ofNat] at hwords
  have ha' : a % 2 ^ 64 = a := Nat.mod_eq_of_lt ha
  have hb' : b % 2 ^ 64 = b := Nat.mod_eq_of_lt hb
  rwa [ha', hb'] at hwords

/-- The sampler after `k` draws. -/
def skip (k : ℕ) : EpochSampler R → EpochSampler R
  | .uniform seed nextDraw remaining sampleCount => .uniform seed (nextDraw + k) (remaining - k) sampleCount
  | .weighted distribution seed nextDraw remaining => .weighted distribution seed (nextDraw + k) (remaining - k)

/-- What a sampler draws under a number. -/
def drawAt (k : ℕ) : EpochSampler R → ℕ
  | .uniform seed _ _ sampleCount => R.genRange (sampleRng seed k) sampleCount
  | .weighted distribution seed _ _ => R.sample distribution (sampleRng seed k)

theorem next_skip {sampler : EpochSampler R} {k : ℕ} (hk : k < sampler.len)
    (hlt : sampler.nextDraw + sampler.len < wordSize) :
    (skip k sampler).next = (some (drawAt (sampler.nextDraw + k) sampler), skip (k + 1) sampler) := by
  have hadd : ∀ n, n + 1 < wordSize → saturatingAdd n 1 = n + 1 := fun n hn => Nat.min_eq_left (by omega)
  cases sampler with
  | uniform seed nextDraw remaining sampleCount =>
      simp only [EpochSampler.len, EpochSampler.nextDraw] at hk hlt
      have hne : ¬ remaining - k = 0 := by omega
      simp only [skip, EpochSampler.next, if_neg hne, hadd (nextDraw + k) (by omega), drawAt, EpochSampler.nextDraw]
      rw [Nat.sub_sub, Nat.add_assoc]
  | weighted distribution seed nextDraw remaining =>
      simp only [EpochSampler.len, EpochSampler.nextDraw] at hk hlt
      have hne : ¬ remaining - k = 0 := by omega
      simp only [skip, EpochSampler.next, if_neg hne, hadd (nextDraw + k) (by omega), drawAt, EpochSampler.nextDraw]
      rw [Nat.sub_sub, Nat.add_assoc]

theorem shuffled_after_skip {sampler : EpochSampler R} (indices : Option (List ℕ))
    (hlt : sampler.nextDraw + sampler.len < wordSize) : ∀ k, k ≤ sampler.len →
    (EpochPlan.shuffled sampler indices).after k = .shuffled (skip k sampler) indices
  | 0, _ => by cases sampler <;> rfl
  | k + 1, hk => by
      rw [EpochPlan.after, shuffled_after_skip indices hlt k (by omega)]
      simp only [EpochPlan.nextPhysicalIndex, next_skip hk hlt]

theorem shuffled_planned {sampler : EpochSampler R} {indices : Option (List ℕ)}
    (hlt : sampler.nextDraw + sampler.len < wordSize) {k : ℕ} (hk : k < sampler.len) :
    (EpochPlan.shuffled sampler indices).planned k =
      EpochPlan.physical indices (drawAt (sampler.nextDraw + k) sampler) := by
  rw [EpochPlan.planned, shuffled_after_skip indices hlt k hk.le]
  simp only [EpochPlan.nextPhysicalIndex, next_skip hk hlt, Option.bind_some]

theorem drawNumbers_shuffled {sampler : EpochSampler R} {indices : Option (List ℕ)}
    (hlt : sampler.nextDraw + sampler.len < wordSize) :
    (EpochPlan.shuffled sampler indices).drawNumbers =
      (List.range sampler.len).map fun k => some (sampler.nextDraw + k) := by
  refine List.map_congr_left fun k hk => ?_
  rw [shuffled_after_skip indices hlt k (List.mem_range.mp hk).le]
  cases sampler <;> rfl

theorem sampler_draws {sampler : EpochSampler R} (h : d.sampler R s = .ok sampler) :
    sampler.nextDraw = s.shuffledDrawOffset ∧ sampler.len = s.epochLen.1 ∧
      ∀ k, d.draw R s.active k = some (drawAt k sampler) := by
  unfold Dataset.sampler at h
  cases hactive : s.active with
  | full =>
      simp only [hactive, EpochSampler.newUniform] at h
      split_ifs at h
      cases h
      exact ⟨rfl, rfl, fun k => rfl⟩
  | table table =>
      simp only [hactive, EpochSampler.newWeighted] at h
      obtain ⟨⟨⟩, -, h⟩ := bind_eq_ok h
      cases hdistribution : R.weightedIndex table.weights with
      | error error =>
          rw [hdistribution] at h
          cases h
      | ok distribution =>
          rw [hdistribution] at h
          cases h
          exact ⟨rfl, rfl, fun k => by simp only [draw, hdistribution, drawAt]⟩

/-- What a recording of a dataset with shuffling keeps. -/
structure Drawn (d : Dataset) (r : Recording R) : Prop where
  offset : r.1.shuffledDrawOffset = windowTotal r.2
  bounded : windowTotal r.2 < wordSize
  numbers : r.2.flatMap EpochPlan.drawNumbers = (List.range (windowTotal r.2)).map some
  rows : windowRows r.2 = (List.range (windowTotal r.2)).map fun k =>
    (d.draw R r.1.active k).bind (EpochPlan.physical (activePhysicalIndices r.1.active))

theorem drawn_nil {s : MutableDatasetState} (h : s.shuffledDrawOffset = 0) : Drawn d ((s, []) : Recording R) :=
  ⟨h, Nat.two_pow_pos 64, rfl, rfl⟩

theorem drawn_epochPlan (hshuffle : d.shuffle = true) {windows : List (EpochPlan R)} (h : Drawn d (s, windows))
    {s' : MutableDatasetState} {plan : EpochPlan R} (hplan : d.epochPlan R s = (s', .ok plan)) :
    Drawn d (s', windows ++ [plan]) := by
  have hoffset : s.shuffledDrawOffset = windowTotal windows := h.offset
  simp only [epochPlan, hshuffle, if_true] at hplan
  cases hadvance : advanceDrawOffset s.shuffledDrawOffset s.epochLen.1 with
  | error error =>
      rw [hadvance] at hplan
      cases hplan
  | ok next =>
      obtain ⟨hlt, rfl⟩ := checkedAdd_eq_some.mp (okOr_eq_ok.mp hadvance)
      cases hsampler : d.sampler R s with
      | error error =>
          rw [hadvance, hsampler] at hplan
          cases hplan
      | ok sampler =>
          rw [hadvance, hsampler] at hplan
          cases hplan
          obtain ⟨hnext, hlen, hdraw⟩ := sampler_draws hsampler
          have hlen' : (EpochPlan.shuffled sampler (activePhysicalIndices s.active)).len = s.epochLen.1 := hlen
          have hbound : sampler.nextDraw + sampler.len < wordSize := by rw [hnext, hlen]; exact hlt
          refine ⟨?_, ?_, ?_, windowRows_append_eq h.rows fun k hk => ?_⟩
          · rw [windowTotal_append, hlen', ← hoffset]
          · rw [windowTotal_append, hlen', ← hoffset]
            exact hlt
          · rw [windowTotal_append, hlen', List.flatMap_append, h.numbers, List.range_add, List.map_append]
            congr 1
            simp only [List.flatMap_cons, List.flatMap_nil, List.append_nil, drawNumbers_shuffled hbound, hlen,
              hnext, hoffset, List.map_map]
            rfl
          · have hk' : k < sampler.len := hk
            rw [shuffled_planned hbound hk', hnext, hoffset, hdraw, Option.bind_some]

/-- **Shuffled windows are one stream of draws**, each with its own number. -/
theorem windows_draws (A : ArrowLib) {loadCaches : List Path → CacheResult (List LoadedCache)}
    {paths : List Path} {seed : BitVec 64} {prefetchSize : ℕ} {numWorkers : Positive} {s₀ : MutableDatasetState}
    (hload : load loadCaches paths seed prefetchSize numWorkers true = .ok (d, s₀)) (ops : List Op)
    {windows : List (EpochPlan R)} (hrun : d.recordAll R A s₀ ops = (s, windows)) :
    (windowRows windows = (List.range (windowTotal windows)).map fun k =>
      (d.draw R s.active k).bind (EpochPlan.physical (activePhysicalIndices s.active))) ∧
    windows.flatMap EpochPlan.drawNumbers = (List.range (windowTotal windows)).map some ∧
    (∀ k < windowTotal windows, saturatingAdd k 1 = k + 1) ∧
    (∀ j k, j < wordSize → k < wordSize → sampleRng seed j = sampleRng seed k → j = k) ∧
    (wordSize ≤ s.shuffledDrawOffset + s.epochLen.1 → ∃ error, d.epochPlan R s = (s, .error error)) ∧
    d.seed = seed ∧ s.shuffledDrawOffset = windowTotal windows := by
  obtain ⟨hd, -⟩ := valid_of_load hload
  obtain ⟨hshuffle, hseed, -, hzero⟩ := shuffle_of_load hload
  have h : Drawn d (d.recordAll R A s₀ ops) := by
    refine recordAll_invariant (drawn_nil hzero) (fun s windows epochLen h => ?_)
      (fun s windows active epochLen _ _ => drawn_nil rfl)
      (fun s windows s' plan h hplan => drawn_epochPlan hshuffle h hplan) hd ops
    exact ⟨h.offset, h.bounded, h.numbers, h.rows⟩
  rw [hrun] at h
  refine ⟨h.rows, h.numbers, fun k hk => ?_, fun j k hj hk => sampleRng_injective seed hj hk, fun hover => ?_,
    hseed, h.offset⟩
  · have hbounded : windowTotal windows < wordSize := h.bounded
    exact Nat.min_eq_left (by omega)
  · refine ⟨.invalidInput "shuffled draw offset overflowed u64", ?_⟩
    simp [epochPlan, hshuffle, advanceDrawOffset, checkedAdd, Nat.not_lt.mpr hover, okOr]

namespace OneRow

def shuffled : Dataset := { dataset with shuffle := true }

theorem load_shuffled_eq : load (fun _ => .ok [cache]) [["c"]] 0 1 ⟨1, by decide⟩ true = .ok (shuffled, start) := rfl

end OneRow

/-- Windows of one and three draws, a table, and windows of one and of two draws from it. -/
theorem windows_draws_table : ∃ windows : List (EpochPlan RandLib.first),
    (OneRow.shuffled.recordAll RandLib.first OneRow.noArrow OneRow.start
      [.epochPlan, .setEpochLen 3, .epochPlan, .updateArrow OneRow.table, .epochPlan, .setEpochLen 2,
        .epochPlan]).2 = windows ∧
    windows.flatMap EpochPlan.drawNumbers = [some 0, some 1, some 2] ∧
    windowRows windows = [some 1, some 1, some 1] := by
  have h := windows_draws OneRow.noArrow OneRow.load_shuffled_eq
    [.epochPlan, .setEpochLen 3, .epochPlan, .updateArrow OneRow.table, .epochPlan, .setEpochLen 2, .epochPlan]
    (R := RandLib.first) rfl
  exact ⟨_, rfl, h.2.1, h.1⟩

end Dataset

end DatasetRt
