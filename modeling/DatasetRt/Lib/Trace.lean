import Mathlib.Data.List.Induction

/-! # Traces

A writer moves from place to place and sends an event at each move; `Trace send p es q` says that it got from
`p` to `q` by sending `es`.  A reader that has taken a prefix of the events is at a place that the writer has
passed (`Trace.split`), and when an event tells where it leads, the reader always knows its place
(`Trace.next`). -/

namespace DatasetRt

variable {P E : Type*} {send : P → E → P → Prop}

inductive Trace (send : P → E → P → Prop) : P → List E → P → Prop where
  | nil (p : P) : Trace send p [] p
  | snoc {p q r : P} {es : List E} {e : E} (htrace : Trace send p es q) (hsend : send q e r) :
      Trace send p (es ++ [e]) r

namespace Trace

variable {p q r : P} {es fs : List E}

theorem snoc_inv {e : E} (h : Trace send p (es ++ [e]) r) : ∃ q, Trace send p es q ∧ send q e r := by
  generalize hes : es ++ [e] = all at h
  cases h with
  | nil => simp at hes
  | snoc htrace hsend =>
      obtain ⟨rfl, hlast⟩ := List.append_inj' hes rfl
      obtain rfl := List.singleton_inj.mp hlast
      exact ⟨_, htrace, hsend⟩

theorem nil_inv (h : Trace send p [] q) : p = q := by
  generalize hes : ([] : List E) = all at h
  cases h with
  | nil => rfl
  | snoc => simp at hes

theorem split (h : Trace send p (es ++ fs) r) : ∃ q, Trace send p es q ∧ Trace send q fs r := by
  induction fs using List.reverseRecOn generalizing r with
  | nil =>
      rw [List.append_nil] at h
      exact ⟨r, h, .nil r⟩
  | append_singleton fs e ih =>
      rw [← List.append_assoc] at h
      obtain ⟨q', htrace, hsend⟩ := h.snoc_inv
      obtain ⟨q, h₁, h₂⟩ := ih htrace
      exact ⟨q, h₁, h₂.snoc hsend⟩

theorem invariant {I : P → Prop} (hsend : ∀ p e q, I p → send p e q → I q) (h : Trace send p es q) (hp : I p) :
    I q := by
  induction h with
  | nil => exact hp
  | snoc _ hs ih => exact hsend _ _ _ ih hs

theorem unique (hdet : ∀ p e q r, send p e q → send p e r → q = r) (hq : Trace send p es q)
    (hr : Trace send p es r) : q = r := by
  induction es using List.reverseRecOn generalizing q r with
  | nil => exact hq.nil_inv.symm.trans hr.nil_inv
  | append_singleton es e ih =>
      obtain ⟨q', hq', hsq⟩ := hq.snoc_inv
      obtain ⟨r', hr', hsr⟩ := hr.snoc_inv
      obtain rfl := ih hq' hr'
      exact hdet _ _ _ _ hsq hsr

/-- The next event of a reader that has taken `es`. -/
theorem next (hdet : ∀ p e q r, send p e q → send p e r → q = r) {all : List E} {e : E}
    (hall : Trace send p all r) (hpre : es ++ [e] <+: all) (hes : Trace send p es q) :
    ∃ q', send q e q' ∧ Trace send p (es ++ [e]) q' ∧ ∃ rest, Trace send q' rest r := by
  obtain ⟨rest, rfl⟩ := hpre
  obtain ⟨q', hread, hrest⟩ := hall.split
  obtain ⟨q₀, hq₀, hsend⟩ := hread.snoc_inv
  obtain rfl := unique hdet hes hq₀
  exact ⟨q', hsend, hread, rest, hrest⟩

end Trace

end DatasetRt
