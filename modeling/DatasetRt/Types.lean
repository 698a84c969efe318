import Mathlib

/-! # Shared types

The error type of every fallible operation, the validated newtypes of the runtime, and the
metadata and compression types that the storage format and the dataset share.

Machine integers are natural numbers: `usize` and `u64` values are below `2 ^ 64`, and each
checked or wrapping operation of the source that can leave that range says so.  `f64` is
Lean's `Float`, whose arithmetic is the IEEE 754 binary64 one. -/

namespace DatasetRt

/-- One past the largest `usize`/`u64`. -/
def wordSize : ℕ := 2 ^ 64

/-- `usize::checked_add` and `u64::checked_add`. -/
def checkedAdd (a b : ℕ) : Option ℕ := if a + b < wordSize then some (a + b) else none

theorem checkedAdd_eq_some {a b c : ℕ} : checkedAdd a b = some c ↔ a + b < wordSize ∧ a + b = c := by
  unfold checkedAdd
  split_ifs with h <;> simp [h]

inductive CacheError where
  | invalidInput (message : String)
  | invalidCache (message : String)
  | io (message : String)
  | json (message : String)
  | arrow (message : String)
  | python (message : String)
  | keyboardInterrupt (message : String)
  | systemExit (message : String)
  | nativeFailure (message : String)
  | workerFailed
deriving DecidableEq, Repr

namespace CacheError

/-- The text of an error, `Display` of the source. -/
def toString : CacheError → String
  | invalidInput message => message
  | invalidCache message => message
  | io message => "I/O error: " ++ message
  | json message => "JSON error: " ++ message
  | arrow message => "Arrow error: " ++ message
  | python message => "Python error: " ++ message
  | keyboardInterrupt message => message
  | systemExit message => message
  | nativeFailure message => "native operation failed: " ++ message
  | workerFailed => "runtime worker failed"

/-- Python control flow, which is propagated and never recorded as a data error. -/
def isInterrupt : CacheError → Bool
  | keyboardInterrupt _ => true
  | systemExit _ => true
  | _ => false

end CacheError

abbrev CacheResult (α : Type) := Except CacheError α

/-- `Option::ok_or`. -/
def okOr {α : Type} (o : Option α) (e : CacheError) : CacheResult α :=
  match o with
  | some a => .ok a
  | none => .error e

@[simp] theorem okOr_eq_ok {α : Type} {o : Option α} {e : CacheError} {a : α} :
    okOr o e = .ok a ↔ o = some a := by
  cases o <;> simp [okOr]

/-- A computation that succeeded succeeded at its first part. -/
theorem bind_eq_ok {ε α β : Type} {x : Except ε α} {f : α → Except ε β} {b : β}
    (h : x >>= f = .ok b) : ∃ a, x = .ok a ∧ f a = .ok b := by
  cases x with
  | error e => cases h
  | ok a => exact ⟨a, rfl, h⟩

theorem mapM_eq_ok_iff {ε α β : Type} {f : α → Except ε β} : ∀ {l : List α} {ys : List β},
    l.mapM f = .ok ys ↔ List.Forall₂ (fun x y => f x = .ok y) l ys
  | [], ys => by
      rw [List.mapM_nil, List.forall₂_nil_left_iff]
      exact ⟨fun h => by cases h; rfl, fun h => by rw [h]; rfl⟩
  | x :: l, ys => by
      rw [List.mapM_cons]
      constructor
      · intro h
        obtain ⟨y, hy, h⟩ := bind_eq_ok h
        obtain ⟨ys', hys, h⟩ := bind_eq_ok h
        cases h
        exact .cons hy (mapM_eq_ok_iff.mp hys)
      · rintro (_ | ⟨hy, hys⟩)
        rw [hy, mapM_eq_ok_iff.mpr hys]
        rfl

theorem mapM_ok_of_forall {ε α β : Type} {f : α → Except ε β} : ∀ {l : List α},
    (∀ a ∈ l, ∃ b, f a = .ok b) → ∃ ys, l.mapM f = .ok ys
  | [], _ => ⟨[], rfl⟩
  | a :: l, h => by
      obtain ⟨b, hb⟩ := h a List.mem_cons_self
      obtain ⟨ys, hys⟩ := mapM_ok_of_forall fun c hc => h c (List.mem_cons_of_mem _ hc)
      refine ⟨b :: ys, ?_⟩
      rw [List.mapM_cons, hb, hys]
      rfl

theorem mapM_eq_ok_iff_getElem {ε α β : Type} {f : α → Except ε β} {l : List α} {ys : List β} :
    l.mapM f = .ok ys ↔ l.length = ys.length ∧
      ∀ (i : ℕ) (h₁ : i < l.length) (h₂ : i < ys.length), f l[i] = .ok ys[i] :=
  mapM_eq_ok_iff.trans List.forall₂_iff_get

theorem forM_eq_ok_iff {α : Type} {f : α → CacheResult PUnit} : ∀ {l : List α},
    l.forM f = .ok () ↔ ∀ x ∈ l, f x = .ok ()
  | [] => ⟨fun _ x hx => (nomatch hx), fun _ => rfl⟩
  | x :: l => by
      have hcons : (x :: l).forM f = (f x >>= fun _ => l.forM f) := rfl
      rw [hcons, List.forall_mem_cons, ← forM_eq_ok_iff]
      constructor
      · intro h
        obtain ⟨⟨⟩, hx, hl⟩ := bind_eq_ok h
        exact ⟨hx, hl⟩
      · rintro ⟨hx, hl⟩
        rw [hx]
        exact hl

/-! ### Validated sizes -/

/-- A size that `PrefetchSize::new`, `NumWorkers::new`, `EpochLen::new` or
`MaxShardBytes::new` accepted. -/
abbrev Positive := { n : ℕ // 0 < n }

/-- The check that the constructors share; each has its own message. -/
def Positive.new (value : ℕ) (message : String) : CacheResult Positive :=
  if h : 0 < value then .ok ⟨value, h⟩ else .error (.invalidInput message)

def prefetchSizeNew (value : ℕ) : CacheResult Positive :=
  Positive.new value "prefetch_size must be greater than zero"

def epochLenNew (value : ℕ) : CacheResult Positive :=
  Positive.new value "epoch_len must be at least 1"

theorem Positive.new_ok {value : ℕ} {message : String} {n : Positive} :
    Positive.new value message = .ok n ↔ n.1 = value := by
  unfold Positive.new
  split_ifs with h
  · constructor
    · intro e; cases e; rfl
    · intro e; congr 1; exact Subtype.ext e.symm
  · constructor
    · intro e; cases e
    · intro e; exact absurd (e ▸ n.2) h

end DatasetRt
