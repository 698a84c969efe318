import Mathlib

/-! # Windows of sequence numbers

Work that is handed out in order and comes back in any order is accounted for by one
statement: the sequence numbers still out, wherever they are, are the `n` consecutive
numbers from `lo` on, each once.  `Window lo n ids` says so of the list `ids`; it does not
depend on the order of `ids`, grows at the top when a number is handed out and shrinks at
the bottom when the oldest one is settled. -/

namespace DatasetRt

/-- `ids` lists the numbers `lo, …, lo + n - 1`, each once, in some order. -/
def Window (lo n : ℕ) (ids : List ℕ) : Prop := ids.Perm (List.range' lo n)

namespace Window

variable {lo n : ℕ} {ids ids' : List ℕ}

theorem nil (lo : ℕ) : Window lo 0 [] := List.Perm.refl _

theorem perm (h : Window lo n ids) (hp : ids'.Perm ids) : Window lo n ids' := hp.trans h

theorem length_eq (h : Window lo n ids) : ids.length = n := by
  simpa using List.Perm.length_eq h

theorem nodup (h : Window lo n ids) : ids.Nodup :=
  (List.Perm.nodup_iff h).mpr (List.nodup_range' 1)

theorem mem_iff (h : Window lo n ids) {k : ℕ} : k ∈ ids ↔ lo ≤ k ∧ k < lo + n := by
  rw [List.Perm.mem_iff h, List.mem_range'_1]

/-- The next number is handed out. -/
theorem push (h : Window lo n ids) : Window lo (n + 1) ((lo + n) :: ids) := by
  have e : List.range' lo (n + 1) = List.range' lo n ++ [lo + n] := by
    rw [List.range'_concat]; simp
  unfold Window
  rw [e]
  exact (List.Perm.cons _ h).trans (List.perm_append_singleton _ _).symm

/-- The oldest number is settled. -/
theorem pop (h : Window lo n (lo :: ids)) : Window (lo + 1) (n - 1) ids := by
  cases n with
  | zero => exact absurd h.length_eq (by simp)
  | succ n =>
      unfold Window at h ⊢
      rw [List.range'_succ] at h
      simpa using h

end Window

end DatasetRt
