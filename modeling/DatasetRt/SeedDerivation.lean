import DatasetRt.LoaderPartitions
import DatasetRt.Lib.WordMix

/-! # Worker seeds do not collide

`derive_seed` (`integrations/loading.py`) packs the rank and the worker into one word, xors it with a key made from
the base seed, and mixes the result.  The mixing function permutes the words (`bijOn_mixU64`), so for one base seed
different pairs get different seeds, and for one pair different base seeds do (`seeds_separate`). -/

namespace DatasetRt

open WordMix

/-- The mixing function is two rounds of shift and product, and a last shift. -/
theorem mixU64_eq : mixU64 = xorShift 31 ∘ mulLow 64 0x94D049BB133111EB ∘ xorShift 27 ∘
    mulLow 64 0xBF58476D1CE4E5B9 ∘ xorShift 30 := by
  funext value
  -- step by step: the kernel must never look into a product with one of the constants
  rw [Function.comp_apply, Function.comp_apply, Function.comp_apply, Function.comp_apply, xorShift_apply 31,
    mulLow_apply, xorShift_apply 27, mulLow_apply, xorShift_apply 30, mixU64, u64Max]

theorem bijOn_mixU64 : Set.BijOn mixU64 (words 64) (words 64) := by
  have hfirst : Odd 0xBF58476D1CE4E5B9 := by decide
  have hsecond : Odd 0x94D049BB133111EB := by decide
  rw [mixU64_eq]
  exact (bijOn_xorShift 64 (by decide)).comp <| (bijOn_mulLow 64 hsecond).comp <|
    (bijOn_xorShift 64 (by decide)).comp <| (bijOn_mulLow 64 hfirst).comp <| bijOn_xorShift 64 (by decide)

theorem xor_right_cancel {a b c : ℕ} (h : a ^^^ c = b ^^^ c) : a = b := by
  have := congrArg (· ^^^ c) h
  simpa only [Nat.xor_assoc, Nat.xor_self, Nat.xor_zero] using this

theorem deriveSeed_iff {base rank worker seed : ℕ} : deriveSeed base rank worker = .ok seed ↔
    (base < 2 ^ 64 ∧ rank < 2 ^ 32 ∧ worker < 2 ^ 32) ∧
      seed = mixU64 ((rank <<< 32 ||| worker) ^^^ mixU64 (base ^^^ 0x4453545253454544)) := by
  have hword : wordSize = 2 ^ 64 := rfl
  constructor
  · intro h
    obtain ⟨⟨⟩, hbase, h⟩ := bind_eq_ok h
    obtain ⟨⟨⟩, -, h⟩ := bind_eq_ok h
    obtain ⟨⟨⟩, -, h⟩ := bind_eq_ok h
    have hlt : base < wordSize := by
      unfold requireU64 at hbase
      split_ifs at hbase with hlt
      exact hlt
    split_ifs at h with hids
    cases h
    exact ⟨⟨hword ▸ hlt, by omega, by omega⟩, rfl⟩
  · rintro ⟨⟨hbase, hrank, hworker⟩, rfl⟩
    have hids : ¬ (2 ^ 32 ≤ rank ∨ 2 ^ 32 ≤ worker) := by omega
    simp only [deriveSeed, requireU64, hword, hbase, show rank < 2 ^ 64 by omega, show worker < 2 ^ 64 by omega, hids,
      if_true, if_false, bind, Except.bind]

theorem slot_xor_key_lt {rank worker : ℕ} (hrank : rank < 2 ^ 32) (hworker : worker < 2 ^ 32) (base : ℕ) :
    (rank <<< 32 ||| worker) ^^^ mixU64 (base ^^^ 0x4453545253454544) ∈ words 64 :=
  Nat.xor_lt_two_pow (pack_lt hrank hworker) (mixU64_lt _)

/-- **Worker seeds never collide.**  The mixing function is a bijection of the words; `derive_seed` accepts exactly a
base seed below `2 ^ 64` and ids below `2 ^ 32` and returns a word; for one base seed equal seeds come from one pair
of ids, and for one pair equal seeds come from one base seed. -/
theorem seeds_separate :
    Set.BijOn mixU64 (Set.Iio (2 ^ 64)) (Set.Iio (2 ^ 64)) ∧
    (∀ base rank worker, (∃ seed, deriveSeed base rank worker = .ok seed) ↔
      base < 2 ^ 64 ∧ rank < 2 ^ 32 ∧ worker < 2 ^ 32) ∧
    (∀ base rank worker seed, deriveSeed base rank worker = .ok seed → seed < 2 ^ 64) ∧
    (∀ base rank worker rank' worker' seed, deriveSeed base rank worker = .ok seed →
      deriveSeed base rank' worker' = .ok seed → rank = rank' ∧ worker = worker') ∧
    ∀ base base' rank worker seed, deriveSeed base rank worker = .ok seed →
      deriveSeed base' rank worker = .ok seed → base = base' := by
  refine ⟨bijOn_mixU64, fun base rank worker => ?_, fun base rank worker seed h => ?_,
    fun base rank worker rank' worker' seed h h' => ?_, fun base base' rank worker seed h h' => ?_⟩
  · constructor
    · rintro ⟨seed, h⟩
      exact (deriveSeed_iff.mp h).1
    · intro hbounds
      exact ⟨_, deriveSeed_iff.mpr ⟨hbounds, rfl⟩⟩
  · rw [(deriveSeed_iff.mp h).2]
    exact mixU64_lt _
  · obtain ⟨⟨-, hrank, hworker⟩, hseed⟩ := deriveSeed_iff.mp h
    obtain ⟨⟨-, hrank', hworker'⟩, hseed'⟩ := deriveSeed_iff.mp h'
    have hmixed := bijOn_mixU64.injOn (slot_xor_key_lt hrank hworker base) (slot_xor_key_lt hrank' hworker' base)
      (hseed.symm.trans hseed')
    exact pack_injective hworker hworker' (xor_right_cancel hmixed)
  · obtain ⟨⟨hbase, hrank, hworker⟩, hseed⟩ := deriveSeed_iff.mp h
    obtain ⟨⟨hbase', -, -⟩, hseed'⟩ := deriveSeed_iff.mp h'
    have hmixed := bijOn_mixU64.injOn (slot_xor_key_lt hrank hworker base) (slot_xor_key_lt hrank hworker base')
      (hseed.symm.trans hseed')
    rw [Nat.xor_comm, Nat.xor_comm (rank <<< 32 ||| worker)] at hmixed
    have hdomain : (0x4453545253454544 : ℕ) < 2 ^ 64 := by decide
    have hkeys := bijOn_mixU64.injOn (Nat.xor_lt_two_pow hbase hdomain : _ ∈ words 64)
      (Nat.xor_lt_two_pow hbase' hdomain : _ ∈ words 64) (xor_right_cancel hmixed)
    exact xor_right_cancel hkeys

/-- Two pairs that an additive derivation would confuse. -/
theorem seeds_separate_swapped : deriveSeed 7 0 1 ≠ deriveSeed 7 1 0 := by
  obtain ⟨seed, hseed⟩ := (seeds_separate.2.1 7 0 1).mpr (by decide)
  intro heq
  obtain ⟨hrank, -⟩ := seeds_separate.2.2.2.1 7 0 1 1 0 seed hseed (heq.symm.trans hseed)
  cases hrank

end DatasetRt
