import Mathlib

/-! # Sums of ones

Adding `1.0` to a `Float` again and again never leaves the finite numbers: the sum is exact up
to `2 ^ 53` and then absorbs what is added.  The proof follows the addition of the float model
on numbers with a full mantissa `2 ^ 52 ≤ m < 2 ^ 53` and an exponent between `-52` and `2`, a
range that adding one does not leave (`counting_add_one`). -/

namespace DatasetRt.FloatSum

open Float.Model Float.Model.UnpackedFloat

/-! ### Shifting and rounding -/

theorem shiftRight_succ (em : ExtendedMantissa) (n : ℕ) : em >>> (n + 1) = (em >>> n).shiftRightOne := rfl

theorem mantissa_shiftRight (em : ExtendedMantissa) : ∀ n : ℕ, (em >>> n).mantissa = em.mantissa / 2 ^ n
  | 0 => by
      rw [Nat.pow_zero, Nat.div_one]
      rfl
  | n + 1 => by
      rw [shiftRight_succ, ExtendedMantissa.shiftRightOne, mantissa_shiftRight em n, Nat.pow_succ,
        Nat.div_div_eq_div_mul]

theorem roundBit_shiftRight (em : ExtendedMantissa) (n : ℕ) :
    (em >>> (n + 1)).roundBit = (em.mantissa / 2 ^ n % 2 != 0) := by
  rw [shiftRight_succ, ExtendedMantissa.shiftRightOne, mantissa_shiftRight em n]

theorem roundedMantissa_bounds (em : ExtendedMantissa) :
    em.mantissa ≤ em.roundedMantissa ∧ em.roundedMantissa ≤ em.mantissa + 1 := by
  obtain ⟨m, r, s⟩ := em
  cases r <;> cases s <;>
    simp only [ExtendedMantissa.roundedMantissa, ExtendedMantissa.accuracy,
      Accuracy.roundToNearestEven] <;> omega

theorem roundedMantissa_of_roundBit {em : ExtendedMantissa} (h : em.roundBit = false) :
    em.roundedMantissa = em.mantissa := by
  obtain ⟨m, r, s⟩ := em
  cases r with
  | true => cases h
  | false => cases s <;> rfl

/-- A full mantissa. -/
def Full (m : ℕ) : Prop := 2 ^ 52 ≤ m ∧ m < 2 ^ 53

theorem Full.log2 {m : ℕ} (h : Full m) : m.log2 = 52 := by
  rw [Nat.log2_eq_iff (by have := h.1; omega)]
  exact h

theorem Full.pos {m : ℕ} (h : Full m) : 0 < m := lt_of_lt_of_le (by norm_num) h.1

/-- The mantissa that is kept of `M`, before rounding. -/
theorem full_div {M s : ℕ} (hM : M ≠ 0) (hs : M.log2 = s + 52) : Full (M / 2 ^ s) := by
  obtain ⟨hlo, hhi⟩ := (Nat.log2_eq_iff hM).mp hs
  have hpos : 0 < 2 ^ s := Nat.two_pow_pos s
  have hlo' : 2 ^ 52 * 2 ^ s ≤ M := by rw [← Nat.pow_add, Nat.add_comm]; exact hlo
  have hhi' : M < 2 ^ 53 * 2 ^ s := by
    have hexp : s + 52 + 1 = 53 + s := by omega
    rw [← Nat.pow_add, ← hexp]
    exact hhi
  exact ⟨(Nat.le_div_iff_mul_le hpos).mpr hlo', (Nat.div_lt_iff_lt_mul hpos).mpr hhi'⟩

/-- The second shift, which only happens when rounding carried out of the mantissa. -/
theorem shiftToTargetExponent_full {r : ℕ} {e : ℤ} (hr : Full r) (he : -52 ≤ e) :
    shiftToTargetExponent Format.binary64 r e .exact = (⟨r, false, false⟩, e) := by
  have htarget : Format.binary64.targetExponent (totalExponent r e) = e := by
    simp only [Format.targetExponent, totalExponent, hr.log2, Format.mantissaBits, Format.minExponent]
    omega
  simp only [shiftToTargetExponent, htarget, shiftToExponent, sub_self, Int.toNat_zero,
    ExtendedMantissa.ofMantissaAndAccuracy, Nat.cast_zero, add_zero]
  rfl

theorem shiftToTargetExponent_carry {e : ℤ} (he : -52 ≤ e) :
    shiftToTargetExponent Format.binary64 (2 ^ 53) e .exact = (⟨2 ^ 52, false, false⟩, e + 1) := by
  have hlog : (2 ^ 53 : ℕ).log2 = 53 := by decide +kernel
  have htarget : Format.binary64.targetExponent (totalExponent (2 ^ 53) e) = e + 1 := by
    simp only [Format.targetExponent, totalExponent, hlog, Format.mantissaBits, Format.minExponent]
    omega
  have hone : (e + 1 - e).toNat = 1 := by omega
  simp only [shiftToTargetExponent, htarget, shiftToExponent, hone,
    ExtendedMantissa.ofMantissaAndAccuracy, Nat.cast_one]
  rfl

theorem round_eq {M s : ℕ} (hM : M ≠ 0) (hs : M.log2 = s + 52) :
    ∃ r, r = ((⟨M, false, false⟩ : ExtendedMantissa) >>> s).roundedMantissa ∧
      ((∃ hr : Full r, UnpackedFloat.round Format.binary64 .positive M (-52) =
          .finite .positive r ((s : ℤ) - 52) hr.pos) ∨
        (r = 2 ^ 53 ∧ UnpackedFloat.round Format.binary64 .positive M (-52) =
          .finite .positive (2 ^ 52) ((s : ℤ) - 52 + 1) (by norm_num))) := by
  have htarget : Format.binary64.targetExponent (totalExponent M (-52)) = (s : ℤ) - 52 := by
    simp only [Format.targetExponent, totalExponent, hs, Format.mantissaBits, Format.minExponent]
    omega
  have hdecrease : decreaseExponent M (-52) ((s : ℤ) - 52) = (M, -52) := by
    have hzero : (-52 - ((s : ℤ) - 52)).toNat = 0 := by omega
    simp [decreaseExponent, hzero]
  have hshift : shiftToTargetExponent Format.binary64 M (-52) .exact =
      ((⟨M, false, false⟩ : ExtendedMantissa) >>> s, (s : ℤ) - 52) := by
    have hamount : ((s : ℤ) - 52 - -52).toNat = s := by omega
    simp only [shiftToTargetExponent, htarget, shiftToExponent, hamount,
      ExtendedMantissa.ofMantissaAndAccuracy, Prod.mk.injEq, true_and]
    omega
  have hfull := full_div hM hs
  obtain ⟨hlo, hhi⟩ := roundedMantissa_bounds ((⟨M, false, false⟩ : ExtendedMantissa) >>> s)
  rw [mantissa_shiftRight] at hlo hhi
  refine ⟨_, rfl, ?_⟩
  simp only [UnpackedFloat.round, htarget, hdecrease, roundWithAccuracy, hshift]
  rcases Nat.lt_or_ge ((⟨M, false, false⟩ : ExtendedMantissa) >>> s).roundedMantissa (2 ^ 53) with hlt | hge
  · have hr : Full ((⟨M, false, false⟩ : ExtendedMantissa) >>> s).roundedMantissa :=
      ⟨hfull.1.trans hlo, hlt⟩
    refine .inl ⟨hr, ?_⟩
    simp [shiftToTargetExponent_full hr (e := (s : ℤ) - 52) (by omega), Nat.ne_of_gt hr.pos]
  · have hr : ((⟨M, false, false⟩ : ExtendedMantissa) >>> s).roundedMantissa = 2 ^ 53 :=
      le_antisymm (hhi.trans hfull.2) hge
    refine .inr ⟨hr, ?_⟩
    simp only [hr, shiftToTargetExponent_carry (e := (s : ℤ) - 52) (by omega)]
    rw [dif_neg (by norm_num)]

/-! ### Adding one -/

/-- What sums of ones are: a full mantissa, and an exponent between those of `1` and `2 ^ 54`. -/
def Counting (u : UnpackedFloat) : Prop :=
  ∃ m e h, u = .finite .positive m e h ∧ Full m ∧ -52 ≤ e ∧ e ≤ 2

/-- The sum on unpacked numbers. -/
theorem counting_add {u : UnpackedFloat} (hu : Counting u) (hone : 0 < 2 ^ 52) :
    Counting (add Format.binary64 u (.finite .positive (2 ^ 52) (-52) hone)) := by
  obtain ⟨m, e, h, rfl, hm, hlo, hhi⟩ := hu
  obtain ⟨k, rfl⟩ : ∃ k : ℕ, e = (k : ℤ) - 52 := ⟨(e + 52).toNat, by omega⟩
  have hk : k ≤ 54 := by omega
  have hmin : min ((k : ℤ) - 52) (-52) = -52 := by omega
  have hshift : ((k : ℤ) - 52 - -52).toNat = k := by omega
  have hzero : ((-52 : ℤ) - -52).toNat = 0 := by omega
  have hsum : add Format.binary64 (.finite .positive m ((k : ℤ) - 52) h)
      (.finite .positive (2 ^ 52) (-52) hone) =
      UnpackedFloat.round Format.binary64 .positive (m * 2 ^ k + 2 ^ 52) (-52) := by
    have hpos : (0 : ℤ) < ((m * 2 ^ k : ℕ) : ℤ) + ((2 ^ 52 : ℕ) : ℤ) := by positivity
    have hcompare : compare (((m * 2 ^ k : ℕ) : ℤ) + ((2 ^ 52 : ℕ) : ℤ)) 0 = .gt :=
      Int.compare_eq_gt.mpr hpos
    simp only [UnpackedFloat.add, hmin, decreaseExponent, hshift, hzero, Nat.shiftLeft_eq, Nat.pow_zero, Nat.mul_one,
      Sign.apply, UnpackedFloat.normalize, hcompare]
    congr 1
  rw [hsum]
  have hM : m * 2 ^ k + 2 ^ 52 ≠ 0 := by positivity
  obtain ⟨s, hs⟩ : ∃ s, (m * 2 ^ k + 2 ^ 52).log2 = s + 52 := by
    have : 52 ≤ (m * 2 ^ k + 2 ^ 52).log2 := (Nat.le_log2 hM).mpr (Nat.le_add_left _ _)
    exact ⟨_, (Nat.sub_add_cancel this).symm⟩
  obtain ⟨r, hr, hround⟩ := round_eq hM hs
  rcases Nat.lt_or_ge k 54 with hsmall | hlarge
  · -- below `2 ^ 106` a carry leads to exponent `2` at most
    have hs54 : s < 54 := by
      have hpow : m * 2 ^ k + 2 ^ 52 < 2 ^ 106 := by
        have h53 : 2 ^ k ≤ 2 ^ 53 := Nat.pow_le_pow_right (by norm_num) (by omega)
        have hmul : m * 2 ^ k ≤ (2 ^ 53 - 1) * 2 ^ 53 := Nat.mul_le_mul (by have := hm.2; omega) h53
        omega
      have := (Nat.log2_lt hM).mpr hpow
      omega
    rcases hround with ⟨hfull, heq⟩ | ⟨-, heq⟩
    · exact ⟨r, _, _, heq, hfull, by omega, by omega⟩
    · exact ⟨_, _, _, heq, ⟨le_refl _, by norm_num⟩, by omega, by omega⟩
  · -- at exponent `2` the sum rounds back to the same number
    obtain rfl : k = 54 := by omega
    have hs54 : s = 54 := by
      have hlog : (m * 2 ^ 54 + 2 ^ 52).log2 = 106 := by
        rw [Nat.log2_eq_iff hM]
        have := hm.1
        have := hm.2
        constructor <;> omega
      omega
    subst hs54
    have hbit : ((⟨m * 2 ^ 54 + 2 ^ 52, false, false⟩ : ExtendedMantissa) >>> 54).roundBit = false := by
      rw [roundBit_shiftRight]
      have : (m * 2 ^ 54 + 2 ^ 52) / 2 ^ 53 % 2 = 0 := by omega
      simp only [this]
      rfl
    have hmant : (m * 2 ^ 54 + 2 ^ 52) / 2 ^ 54 = m := by omega
    rw [roundedMantissa_of_roundBit hbit, mantissa_shiftRight, hmant] at hr
    rcases hround with ⟨hfull, heq⟩ | ⟨hcarry, -⟩
    · exact ⟨r, _, _, heq, hfull, by omega, by omega⟩
    · have := hm.2
      omega

/-! ### Packed numbers -/

theorem sign_packed_positive (e : BitVec 11) (m : BitVec 52) :
    Sign.ofBitVec (unpackSign (packComponents Format.binary64 .positive e m)) = .positive := by
  have hbit : (packComponents Format.binary64 .positive e m).getLsbD 63 = false := by
    have hzero : Sign.positive.toBitVec = 0#1 := rfl
    rw [packComponents, hzero, BitVec.getLsbD_append, BitVec.getLsbD_append]
    simp
  have hsign : unpackSign (packComponents Format.binary64 .positive e m) = 0#1 := by
    ext i hi
    obtain rfl : i = 0 := by omega
    simpa [unpackSign] using hbit
  rw [hsign]
  rfl

theorem counting_unpack_pack {u : UnpackedFloat} (hu : Counting u) :
    unpack Format.binary64 (pack Format.binary64 u) = u := by
  obtain ⟨m, e, h, rfl, hm, hlo, hhi⟩ := hu
  obtain ⟨b, hb⟩ : ∃ b : ℕ, e = (b : ℤ) - 1075 := ⟨(e + 1075).toNat, by omega⟩
  subst hb
  have hbiased : ((b : ℤ) - 1075 + Format.binary64.exponentBias +
      Format.binary64.mantissaBitsWithoutImplicit).toNat = b := by
    have : (Format.binary64.exponentBias : ℤ) = 1023 := rfl
    have : (Format.binary64.mantissaBitsWithoutImplicit : ℤ) = 52 := rfl
    omega
  have hpack : pack Format.binary64 (.finite .positive m ((b : ℤ) - 1075) h) =
      packComponents Format.binary64 .positive (BitVec.ofNat 11 b) (BitVec.ofNat 52 m) := by
    simp only [UnpackedFloat.pack, hbiased, hm.log2]
    rw [if_neg (by norm_num; omega), if_pos (show 52 + 1 = Format.binary64.mantissaBits from rfl)]
  have hexp : (BitVec.ofNat 11 b).toNat = b := by
    rw [BitVec.toNat_ofNat]
    exact Nat.mod_eq_of_lt (by omega)
  have hnan : ¬ BitVec.ofNat 11 b = -1#11 := by
    intro heq
    have := congrArg BitVec.toNat heq
    rw [hexp] at this
    simp at this
    omega
  have hzero : ¬ BitVec.ofNat 11 b = 0#11 := by
    intro heq
    have := congrArg BitVec.toNat heq
    rw [hexp] at this
    simp at this
    omega
  have hmant : (1#1 ++ BitVec.ofNat 52 m).toNat = m := by
    rw [BitVec.toNat_append, ← Nat.shiftLeft_add_eq_or_of_lt (BitVec.ofNat 52 m).isLt, BitVec.toNat_ofNat (w := 52)]
    have hone : (1#1).toNat <<< 52 = 2 ^ 52 := by decide
    rw [hone]
    have := hm.1
    have := hm.2
    omega
  rw [hpack]
  simp only [UnpackedFloat.unpack, unpackMantissa_packComponents, unpackExponent_packComponents, hnan, hzero,
    if_false, sign_packed_positive, hexp, hmant]
  rfl

/-! ### Floats -/

/-- The sums of at least one `1.0`. -/
def CountingFloat (f : Float) : Prop := Counting f.toModel.unpack

theorem counting_one : CountingFloat (0.0 + 1.0) :=
  ⟨2 ^ 52, -52, by norm_num, rfl, ⟨le_refl _, by norm_num⟩, by norm_num, by norm_num⟩

theorem counting_add_one {f : Float} (h : CountingFloat f) : CountingFloat (f + 1.0) := by
  have hone : (1.0 : Float).toModel.unpack = .finite .positive (2 ^ 52) (-52) (by norm_num) := rfl
  have hsum : (f + 1.0).toModel.unpack = unpack Format.binary64
      (pack Format.binary64 (add Format.binary64 f.toModel.unpack (1.0 : Float).toModel.unpack)) := rfl
  have hadd := counting_add h (by norm_num)
  rw [CountingFloat, hsum, hone, counting_unpack_pack hadd]
  exact hadd

theorem isFinite_of_counting {f : Float} (h : CountingFloat f) : f.isFinite = true := by
  obtain ⟨m, e, hm, heq, -⟩ := h
  have : f.isFinite = f.toModel.unpack.isFinite := rfl
  rw [this, heq]
  rfl

end DatasetRt.FloatSum
