import Mathlib.Control.Basic

/-! # The errors of a computation

`Raises P x` says that every error of `x` meets `P`.  It follows the shape of `x`: a computation in parts raises what
its parts raise (`Raises.bind`), and a loop what its rounds raise (`Raises.mapM`, `Raises.forM`). -/

namespace DatasetRt

variable {E α β : Type} {P : E → Prop} {x : Except E α}

def Raises (P : E → Prop) (x : Except E α) : Prop := ∀ e, x = .error e → P e

namespace Raises

theorem ok (a : α) : Raises P (.ok a : Except E α) := nofun

theorem error {e : E} (h : P e) : Raises P (.error e : Except E α) := by
  intro e' he
  cases he
  exact h

theorem bind {f : α → Except E β} (hx : Raises P x) (hf : ∀ a, Raises P (f a)) : Raises P (x >>= f) := by
  cases x with
  | error e => exact error (hx e rfl)
  | ok a => exact hf a

theorem map (hx : Raises P x) (f : α → β) : Raises P (x.map f) := by
  cases x with
  | error e => exact error (hx e rfl)
  | ok a => exact ok _

theorem mapM {f : α → Except E β} : ∀ {l : List α}, (∀ a ∈ l, Raises P (f a)) → Raises P (l.mapM f)
  | [], _ => ok _
  | a :: l, h => by
      rw [List.mapM_cons]
      refine (h a List.mem_cons_self).bind fun b => ?_
      exact (mapM fun c hc => h c (List.mem_cons_of_mem _ hc)).bind fun bs => ok _

theorem forM {f : α → Except E PUnit} : ∀ {l : List α}, (∀ a ∈ l, Raises P (f a)) → Raises P (l.forM f)
  | [], _ => ok _
  | a :: l, h => by
      have hcons : (a :: l).forM f = (f a >>= fun _ => l.forM f) := rfl
      rw [hcons]
      exact (h a List.mem_cons_self).bind fun _ => forM fun c hc => h c (List.mem_cons_of_mem _ hc)

end Raises

end DatasetRt
