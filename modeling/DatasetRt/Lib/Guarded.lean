import Mathlib.Data.List.Basic

/-! # Computations that can panic

`Guarded A E α` is a computation that panics, returns an error of type `E` or returns a value, together with the
accesses it made.  `Safe P x r` says that `x` does not panic, returns `r` and makes no access outside `P`; it is
composed along `bind` (`Safe.bind`).  So a program with explicit panics is compared, call by call, with the pure
function that it is supposed to compute. -/

namespace DatasetRt

inductive Panic where
  | outOfRange
  | overflow
deriving DecidableEq, Repr

structure Guarded (A E α : Type) where
  accesses : List A
  result : Except Panic (Except E α)

namespace Guarded

variable {A E α β : Type}

instance : Monad (Guarded A E) where
  pure a := ⟨[], .ok (.ok a)⟩
  bind x f :=
    match x.result with
    | .error panic => ⟨x.accesses, .error panic⟩
    | .ok (.error error) => ⟨x.accesses, .ok (.error error)⟩
    | .ok (.ok a) => ⟨x.accesses ++ (f a).accesses, (f a).result⟩

def panicked (panic : Panic) : Guarded A E α := ⟨[], .error panic⟩

/-- A pure result. -/
def ofResult (r : Except E α) : Guarded A E α := ⟨[], .ok r⟩

def access (a : A) : Guarded A E Unit := ⟨[a], .ok (.ok ())⟩

/-- Unsigned subtraction. -/
def sub (a b : ℕ) : Guarded A E ℕ := if b ≤ a then pure (a - b) else panicked .overflow

/-- `Vec::drain(..n)`: what stays. -/
def drainTo (xs : List α) (n : ℕ) : Guarded A E (List α) :=
  if n ≤ xs.length then pure (xs.drop n) else panicked .outOfRange

/-- Writing to a buffer of `len` elements: more do not fit. -/
def fill (len : ℕ) (xs : List α) : Guarded A E (List α) :=
  if xs.length ≤ len then pure xs else panicked .outOfRange

/-- No panic, the result, and no access outside `P`. -/
structure Safe (P : A → Prop) (x : Guarded A E α) (r : Except E α) : Prop where
  result : x.result = .ok r
  accesses : ∀ a ∈ x.accesses, P a

variable {P : A → Prop} {x : Guarded A E α} {f : α → Guarded A E β} {r : Except E α} {g : α → Except E β}

theorem safe_ofResult (r : Except E α) : Safe P (ofResult r) r := ⟨rfl, fun _ ha => nomatch ha⟩

theorem safe_pure (a : α) : Safe P (pure a : Guarded A E α) (.ok a) := ⟨rfl, fun _ ha => nomatch ha⟩

theorem safe_access {a : A} (ha : P a) : Safe P (access a : Guarded A E Unit) (.ok ()) :=
  ⟨rfl, fun _ hb => List.mem_singleton.mp hb ▸ ha⟩

theorem Safe.bind (hx : Safe P x r) (hf : ∀ a, r = .ok a → Safe P (f a) (g a)) : Safe P (x >>= f) (r >>= g) := by
  have hresult := hx.result
  cases r with
  | error error =>
      have hbind : x >>= f = ⟨x.accesses, .ok (.error error)⟩ := by
        simp only [Bind.bind, hresult]
      rw [hbind]
      exact ⟨rfl, hx.accesses⟩
  | ok a =>
      have hnext := hf a rfl
      have hbind : x >>= f = ⟨x.accesses ++ (f a).accesses, (f a).result⟩ := by
        simp only [Bind.bind, hresult]
      rw [hbind]
      refine ⟨hnext.result, fun b hb => ?_⟩
      rcases List.mem_append.mp hb with hb | hb
      · exact hx.accesses b hb
      · exact hnext.accesses b hb

theorem Safe.seq {a : α} {s : Except E β} (hx : Safe P x (.ok a)) (hf : Safe P (f a) s) : Safe P (x >>= f) s :=
  Safe.bind (g := fun _ => s) hx fun b hb => by
    cases hb
    exact hf

theorem safe_sub {a b : ℕ} (h : b ≤ a) : Safe P (sub a b : Guarded A E ℕ) (.ok (a - b)) := by
  rw [sub, if_pos h]
  exact safe_pure _

theorem safe_drainTo {xs : List α} {n : ℕ} (h : n ≤ xs.length) :
    Safe P (drainTo xs n : Guarded A E (List α)) (.ok (xs.drop n)) := by
  rw [drainTo, if_pos h]
  exact safe_pure _

theorem safe_fill {len : ℕ} {xs : List α} (h : xs.length ≤ len) :
    Safe P (fill len xs : Guarded A E (List α)) (.ok xs) := by
  rw [fill, if_pos h]
  exact safe_pure _

theorem exists_of_bind {b : β} (h : (x >>= f).result = .ok (.ok b)) :
    ∃ a, x.result = .ok (.ok a) ∧ (f a).result = .ok (.ok b) ∧
      (x >>= f).accesses = x.accesses ++ (f a).accesses := by
  simp only [Bind.bind] at h ⊢
  cases hx : x.result with
  | error panic =>
      rw [hx] at h
      cases h
  | ok r =>
      rw [hx] at h
      cases r with
      | error error => cases h
      | ok a => exact ⟨a, rfl, h, rfl⟩

theorem eq_of_sub {a b c : ℕ} (h : (sub a b : Guarded A E ℕ).result = .ok (.ok c)) :
    a - b = c ∧ (sub a b : Guarded A E ℕ).accesses = [] := by
  unfold sub at h ⊢
  split_ifs at h ⊢
  · cases h
    exact ⟨rfl, rfl⟩
  · cases h

theorem eq_of_drainTo {xs ys : List α} {n : ℕ} (h : (drainTo xs n : Guarded A E (List α)).result = .ok (.ok ys)) :
    xs.drop n = ys ∧ (drainTo xs n : Guarded A E (List α)).accesses = [] := by
  unfold drainTo at h ⊢
  split_ifs at h ⊢
  · cases h
    exact ⟨rfl, rfl⟩
  · cases h

theorem eq_of_fill {len : ℕ} {xs ys : List α} (h : (fill len xs : Guarded A E (List α)).result = .ok (.ok ys)) :
    xs = ys ∧ (fill len xs : Guarded A E (List α)).accesses = [] := by
  unfold fill at h ⊢
  split_ifs at h ⊢
  · cases h
    exact ⟨rfl, rfl⟩
  · cases h

@[simp] theorem ofResult_ok_bind (a : α) : (ofResult (.ok a) : Guarded A E α) >>= f = f a := rfl

@[simp] theorem ofResult_error_bind (error : E) :
    (ofResult (.error error) : Guarded A E α) >>= f = ofResult (.error error) := rfl

/-! ### Errors and panics as values -/

/-- The error as a value. -/
def attempt (x : Guarded A E α) : Guarded A E (Except E α) := ⟨x.accesses, x.result.map .ok⟩

/-- `catch_unwind`: a panic becomes an error. -/
def catchUnwind (panicError : E) (x : Guarded A E α) : Guarded A E α :=
  ⟨x.accesses, .ok (x.result.toOption.getD (.error panicError))⟩

theorem Safe.attempt (h : Safe P x r) : Safe P (attempt x) (.ok r) := by
  refine ⟨?_, h.accesses⟩
  rw [Guarded.attempt, h.result]
  rfl

theorem Safe.catchUnwind (h : Safe P x r) (panicError : E) : Safe P (catchUnwind panicError x) r := by
  refine ⟨?_, h.accesses⟩
  rw [Guarded.catchUnwind, h.result]
  rfl

theorem Safe.mono {Q : A → Prop} (h : Safe P x r) (hsub : ∀ a, P a → Q a) : Safe Q x r :=
  ⟨h.result, fun a ha => hsub a (h.accesses a ha)⟩

/-- Parts without a panic, whatever their results are. -/
theorem exists_safe_bind (hx : ∃ r, Safe P x r) (hf : ∀ a, x.result = .ok (.ok a) → ∃ r, Safe P (f a) r) :
    ∃ r, Safe P (x >>= f) r := by
  obtain ⟨r, hx⟩ := hx
  cases r with
  | error error =>
      exact ⟨_, Safe.bind (g := fun _ => .error error) hx fun a ha => by cases ha⟩
  | ok a =>
      obtain ⟨s, hs⟩ := hf a hx.result
      exact ⟨s, hx.seq hs⟩

end Guarded

end DatasetRt
