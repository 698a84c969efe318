import Mathlib

/-! # Byte strings

Little-endian integers of a fixed width, and the two ways in which a reader takes a range out
of a byte string: `slice` fails outside the string, as `<[u8]>::get` does. -/

namespace DatasetRt

abbrev Bytes := List UInt8

namespace Bytes

/-- The `width` low bytes of `n`, lowest first. -/
def ofNatLe : ℕ → ℕ → Bytes
  | 0, _ => []
  | width + 1, n => UInt8.ofNat n :: ofNatLe width (n / 256)

/-- The integer whose little-endian bytes are given. -/
def toNatLe : Bytes → ℕ
  | [] => 0
  | b :: bs => b.toNat + 256 * toNatLe bs

/-- `bytes.get(start..stop)`. -/
def slice (bytes : Bytes) (start stop : ℕ) : Option Bytes :=
  if start ≤ stop ∧ stop ≤ bytes.length then some ((bytes.drop start).take (stop - start)) else none

@[simp] theorem length_ofNatLe : ∀ width n : ℕ, (ofNatLe width n).length = width
  | 0, _ => rfl
  | width + 1, n => by simp [ofNatLe, length_ofNatLe width]

theorem toNatLe_ofNatLe : ∀ width n : ℕ, n < 256 ^ width → toNatLe (ofNatLe width n) = n
  | 0, n, h => by
      have : n = 0 := by simpa using h
      simp [ofNatLe, toNatLe, this]
  | width + 1, n, h => by
      have hdiv : n / 256 < 256 ^ width := by
        rw [Nat.div_lt_iff_lt_mul (by norm_num), ← Nat.pow_succ]; exact h
      simp only [ofNatLe, toNatLe, toNatLe_ofNatLe width _ hdiv, UInt8.toNat_ofNat']
      omega

theorem slice_append (a b c : Bytes) :
    slice (a ++ b ++ c) a.length (a.length + b.length) = some b := by
  simp [slice]

theorem slice_append_zero (b c : Bytes) : slice (b ++ c) 0 b.length = some b := by
  simpa using slice_append [] b c

theorem slice_append_right {a b : Bytes} {start stop : ℕ} {r : Bytes}
    (h : slice a start stop = some r) : slice (a ++ b) start stop = some r := by
  unfold slice at h ⊢
  split_ifs at h with hr
  rw [if_pos (by simp only [List.length_append]; omega), List.drop_append_of_le_length (by omega),
    List.take_append_of_le_length (by simp only [List.length_drop]; omega)]
  exact h

end Bytes

end DatasetRt
