import DatasetRt.Types

/-! # Sampling plans

`EpochSampler` (`sampling.rs`) draws row numbers with replacement, one independent draw per
draw number; `EpochPlan` (`runtime.rs`) turns the sequence numbers of one iterator into
physical sample indices, cyclically from a cursor or through a sampler.

The random number library is a parameter `RandLib`: seeding ChaCha8, `gen_range` and the
weighted distribution are functions of their arguments and nothing else. -/

namespace DatasetRt

/-- What the sampler uses of the random number library. -/
structure RandLib where
  /-- `WeightedIndex<f64>`. -/
  WeightedIndex : Type
  /-- `WeightedIndex::new`. -/
  weightedIndex : List Float → Except String WeightedIndex
  /-- `ChaCha8Rng::seed_from_u64(seed).gen_range(0..n)`. -/
  genRange : BitVec 64 → ℕ → ℕ
  /-- `distribution.sample(&mut ChaCha8Rng::seed_from_u64(seed))`. -/
  sample : WeightedIndex → BitVec 64 → ℕ

/-- Every draw is the first row, as it is from a population of one. -/
def RandLib.first : RandLib where
  WeightedIndex := List Float
  weightedIndex weights := if weights = [] then .error "no weights" else .ok weights
  genRange _ _ := 0
  sample _ _ := 0

/-! ### Weights -/

/-- The loop of `validate_weights`, from weight number `index` on with the running `total`. -/
def validateWeightsFrom (index : ℕ) (total : Float) : List Float → CacheResult Unit
  | [] => .ok ()
  | weight :: rest =>
      if !weight.isFinite || decide (weight ≤ 0.0) then
        .error (.invalidInput s!"weight {index} must be positive and finite")
      else if !(total + weight).isFinite then
        .error (.invalidInput "weight total must be finite")
      else validateWeightsFrom (index + 1) (total + weight) rest

def validateWeights (weights : List Float) (sampleCount : ℕ) : CacheResult Unit :=
  if weights.length ≠ sampleCount then
    .error (.invalidInput s!"expected {sampleCount} weights, got {weights.length}")
  else validateWeightsFrom 0 0.0 weights

/-- Positive and finite, with every partial sum finite: what `validate_weights` accepts. -/
def WeightsOk (total : Float) : List Float → Prop
  | [] => True
  | weight :: rest =>
      weight.isFinite = true ∧ ¬ weight ≤ 0.0 ∧ (total + weight).isFinite = true ∧
        WeightsOk (total + weight) rest

theorem validateWeightsFrom_ok : ∀ (weights : List Float) (index : ℕ) (total : Float),
    validateWeightsFrom index total weights = .ok () ↔ WeightsOk total weights
  | [], _, _ => by simp [validateWeightsFrom, WeightsOk]
  | weight :: rest, index, total => by
      have ih := validateWeightsFrom_ok rest (index + 1) (total + weight)
      simp only [validateWeightsFrom, WeightsOk]
      cases h₁ : weight.isFinite
      · simp
      by_cases h₂ : weight ≤ 0.0
      · simp [h₂]
      cases h₃ : (total + weight).isFinite
      · simp [h₂]
      simp [h₂, ih]

theorem validateWeights_ok {weights : List Float} {sampleCount : ℕ} :
    validateWeights weights sampleCount = .ok () ↔
      weights.length = sampleCount ∧ WeightsOk 0.0 weights := by
  unfold validateWeights
  split_ifs with h
  · simp [h]
  · rw [validateWeightsFrom_ok]
    simp [not_not.mp h]

/-! ### The sampler -/

/-- `sample_rng`: the seed of one draw. -/
def sampleRng (seed : BitVec 64) (draw : ℕ) : BitVec 64 :=
  seed ^^^ (BitVec.ofNat 64 draw).rotateLeft 32

/-- `u64::saturating_add`. -/
def saturatingAdd (a b : ℕ) : ℕ := min (a + b) (wordSize - 1)

inductive EpochSampler (R : RandLib) where
  | uniform (seed : BitVec 64) (nextDraw remaining sampleCount : ℕ)
  | weighted (distribution : R.WeightedIndex) (seed : BitVec 64) (nextDraw remaining : ℕ)

namespace EpochSampler

variable {R : RandLib}

def newUniform (sampleCount : ℕ) (seed : BitVec 64) (startDraw epochLen : ℕ) :
    CacheResult (EpochSampler R) :=
  if sampleCount = 0 then .error (.invalidInput "cannot sample from an empty population")
  else .ok (uniform seed startDraw epochLen sampleCount)

def newWeighted (weights : List Float) (seed : BitVec 64) (startDraw epochLen : ℕ) :
    CacheResult (EpochSampler R) := do
  validateWeights weights weights.length
  match R.weightedIndex weights with
  | .ok distribution => .ok (weighted distribution seed startDraw epochLen)
  | .error error => .error (.invalidInput ("invalid weights: " ++ error))

/-- The remaining epoch length. -/
def len : EpochSampler R → ℕ
  | uniform _ _ remaining _ => remaining
  | weighted _ _ _ remaining => remaining

/-- `Iterator::next`: one draw, until the epoch is exhausted. -/
def next : EpochSampler R → Option ℕ × EpochSampler R
  | uniform seed nextDraw remaining sampleCount =>
      if remaining = 0 then (none, uniform seed nextDraw remaining sampleCount)
      else (some (R.genRange (sampleRng seed nextDraw) sampleCount),
        uniform seed (saturatingAdd nextDraw 1) (remaining - 1) sampleCount)
  | weighted distribution seed nextDraw remaining =>
      if remaining = 0 then (none, weighted distribution seed nextDraw remaining)
      else (some (R.sample distribution (sampleRng seed nextDraw)),
        weighted distribution seed (saturatingAdd nextDraw 1) (remaining - 1))

end EpochSampler

/-! ### The plan of one iterator -/

/-- `wrapping_add_mod`; the sum of the last branch is a `usize` sum. -/
def wrappingAddMod (start offset modulo : ℕ) : Option ℕ :=
  if modulo = 0 then none
  else
    let offset := offset % modulo
    let distanceToWrap := modulo - offset
    if distanceToWrap ≤ start then some (start - distanceToWrap)
    else some ((start + offset) % wordSize)

inductive EpochPlan (R : RandLib) where
  | sequential (len start populationLen : ℕ) (physicalIndices : Option (List ℕ))
  | shuffled (sampler : EpochSampler R) (physicalIndices : Option (List ℕ))

namespace EpochPlan

variable {R : RandLib}

def len : EpochPlan R → ℕ
  | sequential len _ _ _ => len
  | shuffled sampler _ => sampler.len

/-- A row of the active table as a physical index; without a table they coincide. -/
def physical (physicalIndices : Option (List ℕ)) (row : ℕ) : Option ℕ :=
  match physicalIndices with
  | some indices => indices[row]?
  | none => some row

def nextPhysicalIndex : EpochPlan R → ℕ → Option ℕ × EpochPlan R
  | plan@(sequential len start populationLen physicalIndices), sequence =>
      if len ≤ sequence then (none, plan)
      else ((wrappingAddMod start sequence populationLen).bind (physical physicalIndices), plan)
  | shuffled sampler physicalIndices, _ =>
      (sampler.next.1.bind (physical physicalIndices), shuffled sampler.next.2 physicalIndices)

/-- The plan after its first `k` indices were taken. -/
def after (plan : EpochPlan R) : ℕ → EpochPlan R
  | 0 => plan
  | k + 1 => ((plan.after k).nextPhysicalIndex k).2

/-- The physical index planned for sequence number `k`. -/
def planned (plan : EpochPlan R) (k : ℕ) : Option ℕ := ((plan.after k).nextPhysicalIndex k).1

/-- Every sequence number of the plan has a physical index. -/
def Total (plan : EpochPlan R) : Prop := ∀ k < plan.len, (plan.planned k).isSome

end EpochPlan

end DatasetRt
