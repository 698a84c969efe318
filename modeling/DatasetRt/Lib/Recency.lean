import Mathlib

/-! # The order of last uses

`lastUse uses a` is the number of the last use of `a` in a history, counted from one, and zero for what was never
used.  A list of things that stand in the order of their last uses stays in order when one of them, or a new one, is
used and put at its end (`pairwise_use`). -/

namespace DatasetRt.Recency

variable {α : Type*} [DecidableEq α] {uses recent : List α} {a b : α}

/-- The number of the last use. -/
def lastUse (uses : List α) (a : α) : ℕ := uses.length - uses.reverse.idxOf a

/-- `a` was last used before `b` was. -/
def Older (uses : List α) (a b : α) : Prop := lastUse uses a < lastUse uses b

theorem lastUse_le : lastUse uses a ≤ uses.length := Nat.sub_le _ _

@[simp] theorem lastUse_concat_self : lastUse (uses ++ [a]) a = uses.length + 1 := by
  simp [lastUse]

theorem lastUse_concat_of_ne (h : b ≠ a) : lastUse (uses ++ [a]) b = lastUse uses b := by
  simp only [lastUse, List.length_append, List.length_singleton, List.reverse_append, List.reverse_singleton,
    List.singleton_append, List.idxOf_cons_ne _ h.symm]
  omega

theorem pairwise_use (h : recent.Pairwise (Older uses)) (hne : a ∉ recent) :
    (recent ++ [a]).Pairwise (Older (uses ++ [a])) := by
  have hkept : ∀ b ∈ recent, lastUse (uses ++ [a]) b = lastUse uses b := by
    intro b hb
    exact lastUse_concat_of_ne fun heq => hne (heq ▸ hb)
  rw [List.pairwise_append]
  refine ⟨h.imp_of_mem fun {b c} hb hc hlt => ?_, List.pairwise_singleton _ _, fun b hb c hc => ?_⟩
  · rw [Older, hkept b hb, hkept c hc]
    exact hlt
  · rw [List.mem_singleton.mp hc, Older, hkept b hb, lastUse_concat_self]
    exact Nat.lt_succ_of_le lastUse_le

end DatasetRt.Recency
