import Mathlib

/-! # Invertible mixing of words

The two rounds that mixing functions on `w`-bit words are made of: xor with a right shift of the word, and
multiplication modulo `2 ^ w` by an odd number.  Both permute the words below `2 ^ w`; that they do not collide is all
there is to show, because the words are finitely many (`bijOn_of_injOn`). -/

namespace WordMix

/-- The word xored with its upper bits. -/
def xorShift (k x : ℕ) : ℕ := x ^^^ (x >>> k)

/-- The lower `w` bits of a product. -/
def mulLow (w m x : ℕ) : ℕ := (x * m) &&& (2 ^ w - 1)

/-- The words of `w` bits. -/
def words (w : ℕ) : Set ℕ := Set.Iio (2 ^ w)

variable {w : ℕ} {f : ℕ → ℕ}

theorem xorShift_apply (k x : ℕ) : xorShift k x = x ^^^ (x >>> k) := by
  rw [xorShift]

theorem mulLow_apply (w m x : ℕ) : mulLow w m x = (x * m) &&& (2 ^ w - 1) := by
  rw [mulLow]

theorem mapsTo_xorShift (w k : ℕ) : Set.MapsTo (xorShift k) (words w) (words w) := by
  intro x hx
  refine Nat.xor_lt_two_pow hx ?_
  rw [Nat.shiftRight_eq_div_pow]
  exact Nat.lt_of_le_of_lt (Nat.div_le_self _ _) hx

theorem mulLow_eq (w m x : ℕ) : mulLow w m x = x * m % 2 ^ w := Nat.and_two_pow_sub_one_eq_mod _ _

theorem mapsTo_mulLow (w m : ℕ) : Set.MapsTo (mulLow w m) (words w) (words w) := by
  intro x _
  show mulLow w m x < 2 ^ w
  rw [mulLow_eq]
  exact Nat.mod_lt _ (Nat.two_pow_pos w)

/-- The difference of two words with the same image is its own shift, and so it is zero. -/
theorem xorShift_injective {k : ℕ} (hk : 0 < k) : Function.Injective (xorShift k) := by
  intro x y hxy
  have hshift : x ^^^ y = (x ^^^ y) >>> k := by
    rw [Nat.shiftRight_xor_distrib]
    calc x ^^^ y = (xorShift k x ^^^ (x >>> k)) ^^^ (xorShift k y ^^^ (y >>> k)) := by
          simp only [xorShift, Nat.xor_assoc, Nat.xor_self, Nat.xor_zero]
      _ = (x >>> k) ^^^ (y >>> k) := by
          rw [hxy, Nat.xor_comm (xorShift k y) (x >>> k), Nat.xor_assoc, ← Nat.xor_assoc (xorShift k y),
            Nat.xor_self, Nat.zero_xor]
  have hzero : x ^^^ y = 0 := by
    by_contra hne
    have hlt : (x ^^^ y) / 2 ^ k < x ^^^ y :=
      Nat.div_lt_self (Nat.pos_of_ne_zero hne) (Nat.one_lt_two_pow hk.ne')
    rw [← Nat.shiftRight_eq_div_pow, ← hshift] at hlt
    exact lt_irrefl _ hlt
  exact Nat.xor_eq_zero_iff.mp hzero

theorem mulLow_injOn {m : ℕ} (hm : Odd m) : Set.InjOn (mulLow w m) (words w) := by
  intro x hx y hy hxy
  rw [mulLow_eq, mulLow_eq] at hxy
  have hcoprime : Nat.gcd (2 ^ w) m = 1 := (Nat.coprime_two_left.mpr hm).pow_left w
  have hmod : x ≡ y [MOD 2 ^ w] := Nat.ModEq.cancel_right_of_coprime hcoprime hxy
  rwa [Nat.ModEq, Nat.mod_eq_of_lt hx, Nat.mod_eq_of_lt hy] at hmod

theorem bijOn_of_injOn (hmaps : Set.MapsTo f (words w) (words w)) (hinj : Set.InjOn f (words w)) :
    Set.BijOn f (words w) (words w) :=
  ((Set.finite_Iio _).injOn_iff_bijOn_of_mapsTo hmaps).mp hinj

theorem bijOn_xorShift (w : ℕ) {k : ℕ} (hk : 0 < k) : Set.BijOn (xorShift k) (words w) (words w) :=
  bijOn_of_injOn (mapsTo_xorShift w k) (xorShift_injective hk).injOn

theorem bijOn_mulLow (w : ℕ) {m : ℕ} (hm : Odd m) : Set.BijOn (mulLow w m) (words w) (words w) :=
  bijOn_of_injOn (mapsTo_mulLow w m) (mulLow_injOn hm)

theorem pack_injective {k a b a' b' : ℕ} (hb : b < 2 ^ k) (hb' : b' < 2 ^ k)
    (h : (a <<< k) ||| b = (a' <<< k) ||| b') : a = a' ∧ b = b' := by
  rw [← Nat.shiftLeft_add_eq_or_of_lt hb, ← Nat.shiftLeft_add_eq_or_of_lt hb', Nat.shiftLeft_eq, Nat.shiftLeft_eq] at h
  have hmod := congrArg (· % 2 ^ k) h
  have hdiv := congrArg (· / 2 ^ k) h
  simp only [Nat.mul_add_mod_self_right, Nat.mod_eq_of_lt hb, Nat.mod_eq_of_lt hb'] at hmod
  have hpos := Nat.two_pow_pos k
  simp only [Nat.add_div_of_dvd_right (Dvd.intro_left a rfl), Nat.add_div_of_dvd_right (Dvd.intro_left a' rfl),
    Nat.mul_div_cancel _ hpos, Nat.div_eq_of_lt hb, Nat.div_eq_of_lt hb', Nat.add_zero] at hdiv
  exact ⟨hdiv, hmod⟩

theorem pack_lt {j k a b : ℕ} (ha : a < 2 ^ j) (hb : b < 2 ^ k) : (a <<< k) ||| b < 2 ^ (j + k) := by
  rw [← Nat.shiftLeft_add_eq_or_of_lt hb, Nat.shiftLeft_eq, Nat.pow_add]
  calc a * 2 ^ k + b < (a + 1) * 2 ^ k := by
        rw [Nat.add_mul, Nat.one_mul]
        exact Nat.add_lt_add_left hb _
    _ ≤ 2 ^ j * 2 ^ k := Nat.mul_le_mul_right _ ha

end WordMix
