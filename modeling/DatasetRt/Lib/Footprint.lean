import Mathlib.Logic.Basic

/-! # Footprints

Several parties work on one state, each on its own part: `R i s t` says that `s` and `t` look the same to
party `i`.  An operation is `Local` to a party when what it returns and leaves there depends on nothing else,
and when no other party can see it.  Local operations compose, so a party that only makes local operations
gets the same results whatever the others do in between. -/

namespace DatasetRt

variable {ι σ α β : Type*} {R : ι → σ → σ → Prop} {i : ι}

structure Local (R : ι → σ → σ → Prop) (i : ι) (op : σ → σ × α) : Prop where
  own : ∀ s t, R i s t → R i (op s).1 (op t).1 ∧ (op s).2 = (op t).2
  other : ∀ j s t, j ≠ i → R j s t → R j (op s).1 t

namespace Local

theorem pure (a : α) : Local R i fun s => (s, a) where
  own _ _ h := ⟨h, rfl⟩
  other _ _ _ _ h := h

theorem bind {op : σ → σ × α} {next : α → σ → σ × β} (hop : Local R i op) (hnext : ∀ a, Local R i (next a)) :
    Local R i fun s => next (op s).2 (op s).1 where
  own s t h := by
    obtain ⟨hstate, hresult⟩ := hop.own s t h
    rw [hresult]
    exact (hnext _).own _ _ hstate
  other j s t hne h := (hnext _).other j _ _ hne (hop.other j s t hne h)

theorem map {op : σ → σ × α} (hop : Local R i op) (f : α → β) : Local R i fun s => ((op s).1, f (op s).2) :=
  hop.bind fun a => pure (f a)

/-- A choice that the party can see. -/
theorem choose {γ : Type*} (see : σ → γ) (op : γ → σ → σ × α) (hsee : ∀ s t, R i s t → see s = see t)
    (hop : ∀ c, Local R i (op c)) : Local R i fun s => op (see s) s where
  own s t h := by
    rw [hsee s t h]
    exact (hop _).own s t h
  other j s t hne h := (hop _).other j s t hne h

end Local

end DatasetRt
