import Mathlib.Data.List.Induction

/-! # Histories

A machine can write down what it does.  `Each P h` says that every event of the history `h` met the condition `P`
when it was written down, which may speak of the events before it; what was true then stays true, so a history is
checked one event at a time (`Each.snoc`). -/

namespace DatasetRt.History

variable {E : Type*} {P : List E → E → Prop} {h : List E}

/-- Every event meets `P`, together with the events before it. -/
def Each (P : List E → E → Prop) (h : List E) : Prop := ∀ past e future, h = past ++ e :: future → P past e

theorem each_nil : Each P ([] : List E) := fun past e future heq => by simp at heq

/-- **One more event.** -/
theorem Each.snoc (hall : Each P h) {e : E} (he : P h e) : Each P (h ++ [e]) := by
  intro past d future heq
  cases future using List.reverseRecOn with
  | nil =>
      obtain ⟨rfl, hlast⟩ := List.append_inj' heq rfl
      rw [← List.singleton_inj.mp hlast]
      exact he
  | append_singleton future last =>
      rw [← List.cons_append, ← List.append_assoc] at heq
      exact hall past d future (List.append_inj' heq rfl).1

theorem Each.of_mem (hall : Each P h) {e : E} (hmem : e ∈ h) : ∃ past, past <+: h ∧ P past e := by
  obtain ⟨past, future, rfl⟩ := List.append_of_mem hmem
  exact ⟨past, List.prefix_append _ _, hall past e future rfl⟩

theorem Each.pairwise {R : E → E → Prop} (hall : Each P h) (hR : ∀ past e, P past e → ∀ d ∈ past, R d e) :
    h.Pairwise R := by
  induction h using List.reverseRecOn with
  | nil => exact .nil
  | append_singleton h e ih =>
      have hbefore : Each P h := fun past d future heq => hall past d (future ++ [e]) (by rw [heq]; simp)
      refine List.pairwise_append.mpr ⟨ih hbefore, List.pairwise_singleton R e, fun d hd e' he' => ?_⟩
      rw [List.mem_singleton.mp he']
      exact hR h e (hall h e [] rfl) d hd

end DatasetRt.History
