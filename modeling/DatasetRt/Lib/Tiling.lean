import Mathlib

/-! # Spans that follow one another

A list of spans, each with a start and a length, *tiles* an interval when the first span begins at its
lower end, every further one begins where the one before it ended, and the last one ends at its upper
end.  The positions of such spans, in order, are the positions of the interval.

`Split` cuts a count into parts that differ by at most one, the larger ones first. -/

namespace DatasetRt

variable {α : Type} {start len : α → ℕ}

variable (start len) in
/-- The spans of the list follow one another from `lo` to `hi`. -/
def Tiles : ℕ → ℕ → List α → Prop
  | lo, hi, [] => lo = hi
  | lo, hi, x :: spans => start x = lo ∧ Tiles (lo + len x) hi spans

variable (start len) in
/-- The positions of a span. -/
def positions (x : α) : List ℕ := List.range' (start x) (len x)

namespace Tiles

theorem add_sum {lo hi : ℕ} : ∀ {spans : List α}, Tiles start len lo hi spans → lo + (spans.map len).sum = hi
  | [], h => h
  | x :: spans, h => by
      have hrest := add_sum h.2
      rw [List.map_cons, List.sum_cons]
      omega

/-- Spans of no length may be left out. -/
theorem filter {p : α → Bool} {lo hi : ℕ} : ∀ {spans : List α}, Tiles start len lo hi spans →
    (∀ x ∈ spans, p x = false → len x = 0) → Tiles start len lo hi (spans.filter p)
  | [], h, _ => h
  | x :: spans, h, hempty => by
      have hrest := filter h.2 fun y hy => hempty y (List.mem_cons_of_mem _ hy)
      cases hx : p x with
      | true =>
          rw [List.filter_cons_of_pos hx]
          exact ⟨h.1, hrest⟩
      | false =>
          rw [List.filter_cons_of_neg (by simp [hx])]
          rwa [hempty x List.mem_cons_self hx] at hrest

theorem flatMap_positions {lo hi : ℕ} : ∀ {spans : List α}, Tiles start len lo hi spans →
    spans.flatMap (positions start len) = List.range' lo (hi - lo)
  | [], h => by
      obtain rfl : lo = hi := h
      simp
  | x :: spans, h => by
      have hsum := add_sum h.2
      have happend : List.range' lo (len x) ++ List.range' (lo + len x) (hi - (lo + len x)) =
          List.range' lo (len x + (hi - (lo + len x))) := by
        simp
      rw [List.flatMap_cons, flatMap_positions h.2, positions, h.1, happend]
      congr 1
      omega

theorem append {mid hi : ℕ} {second : List α} : ∀ {first : List α} {lo : ℕ},
    Tiles start len lo mid first → Tiles start len mid hi second → Tiles start len lo hi (first ++ second)
  | [], _, hfirst, hsecond => by
      obtain rfl := hfirst
      exact hsecond
  | _ :: _, _, hfirst, hsecond => ⟨hfirst.1, append hfirst.2 hsecond⟩

/-- Lists that tile the intervals between some bounds tile the whole interval together. -/
theorem ofFn_flatten : ∀ {n : ℕ} {f : Fin n → List α} {bound : ℕ → ℕ},
    (∀ i : Fin n, Tiles start len (bound i) (bound (i + 1)) (f i)) →
    Tiles start len (bound 0) (bound n) (List.ofFn f).flatten
  | 0, f, bound, _ => by
      rw [List.ofFn_zero]
      rfl
  | n + 1, f, bound, h => by
      rw [List.ofFn_succ, List.flatten_cons]
      have hrest : Tiles start len (bound (0 + 1)) (bound (n + 1)) (List.ofFn fun i => f i.succ).flatten :=
        @ofFn_flatten n (fun i => f i.succ) (fun k => bound (k + 1)) fun i => by simpa using h i.succ
      exact append (h 0) hrest

theorem ofFn {n : ℕ} {f : Fin n → α} {bound : ℕ → ℕ}
    (h : ∀ i, start (f i) = bound i ∧ start (f i) + len (f i) = bound (i + 1)) :
    Tiles start len (bound 0) (bound n) (List.ofFn f) := by
  have hall : Tiles start len (bound 0) (bound n) (List.ofFn fun i => [f i]).flatten :=
    ofFn_flatten fun i => ⟨(h i).1, (h i).1 ▸ (h i).2⟩
  rwa [show (List.ofFn fun i => [f i]) = (List.ofFn f).map fun x => [x] by simp [List.map_ofFn, Function.comp_def],
    ← List.flatMap_def, List.flatMap_singleton'] at hall

end Tiles

/-! ### Even splits -/

namespace Split

/-- Where part `i` of `count` begins. -/
def first (count parts i : ℕ) : ℕ := i * (count / parts) + min i (count % parts)

/-- The size of part `i` of `count`. -/
def size (count parts i : ℕ) : ℕ := count / parts + if i < count % parts then 1 else 0

variable {count parts i : ℕ}

@[simp] theorem first_zero : first count parts 0 = 0 := by simp [first]

theorem first_succ : first count parts i + size count parts i = first count parts (i + 1) := by
  unfold first size
  rw [Nat.succ_mul]
  split_ifs with h
  · rw [Nat.min_eq_left h.le, Nat.min_eq_left (Nat.succ_le_of_lt h)]
    omega
  · rw [Nat.min_eq_right (Nat.le_of_not_lt h), Nat.min_eq_right (by omega)]
    omega

theorem first_parts (h : 0 < parts) : first count parts parts = count := by
  unfold first
  rw [Nat.min_eq_right (Nat.mod_lt _ h).le]
  exact Nat.div_add_mod count parts

theorem first_mono : Monotone (first count parts) :=
  monotone_nat_of_le_succ fun i => by
    rw [← first_succ]
    exact Nat.le_add_right _ _

theorem first_add_size_le (h : i < parts) : first count parts i + size count parts i ≤ count := by
  have hle : first count parts (i + 1) ≤ first count parts parts := first_mono h
  rwa [← first_succ, first_parts (Nat.zero_lt_of_lt h)] at hle

theorem existsUnique_part {position : ℕ} (hpos : 0 < parts) (h : position < count) :
    ∃! i : Fin parts, first count parts i ≤ position ∧ position < first count parts i + size count parts i := by
  have hmono : Monotone (first count parts) := first_mono
  have hsome : ∃ k, position < first count parts k := ⟨parts, by rwa [first_parts hpos]⟩
  have hend := Nat.find_spec hsome
  have hzero : Nat.find hsome ≠ 0 := by
    intro hz
    rw [hz, first_zero] at hend
    exact absurd hend (Nat.not_lt_zero _)
  obtain ⟨i, hi⟩ := Nat.exists_eq_add_one_of_ne_zero hzero
  have hbelow : first count parts i ≤ position := Nat.le_of_not_lt (Nat.find_min hsome (by omega))
  rw [hi] at hend
  have hlt : i < parts := by
    refine Nat.lt_of_not_le fun hle => ?_
    have hlast := hmono hle
    rw [first_parts hpos] at hlast
    omega
  refine ⟨⟨i, hlt⟩, ⟨hbelow, by rwa [first_succ]⟩, fun j hj => Fin.ext ?_⟩
  -- a part on either side ends before, or begins after, the position
  obtain ⟨hj, hj'⟩ := hj
  rw [first_succ] at hj'
  rcases Nat.lt_trichotomy j i with hji | hji | hji
  · have hle : first count parts (j + 1) ≤ first count parts i := hmono hji
    omega
  · exact hji
  · have hle : first count parts (i + 1) ≤ first count parts j := hmono hji
    omega

theorem size_anti {j : ℕ} (h : i ≤ j) :
    size count parts j ≤ size count parts i ∧ size count parts i ≤ size count parts j + 1 := by
  unfold size
  split_ifs <;> omega

theorem sum_size (h : 0 < parts) : ((List.range parts).map (size count parts)).sum = count := by
  have hpart : ∀ n, ((List.range n).map (size count parts)).sum = first count parts n := by
    intro n
    induction n with
    | zero => simp
    | succ n ih => rw [List.range_succ, List.map_append, List.sum_append, ih, ← first_succ]; simp
  rw [hpart, first_parts h]

theorem size_pos (h : 0 < parts) (hle : parts ≤ count) : 0 < size count parts i := by
  have hdiv := Nat.div_pos hle h
  unfold size
  omega

theorem size_mul (n : ℕ) (h : 0 < parts) : size (n * parts) parts i = n := by
  simp [size, h]

theorem size_le (h : 0 < parts) : size count parts i ≤ count := by
  unfold size
  split_ifs with hlt
  · have hmod : count / parts + count % parts ≤ count := by
      have hdiv := Nat.div_add_mod count parts
      have hmul := Nat.le_mul_of_pos_left (count / parts) h
      omega
    omega
  · simpa using Nat.div_le_self count parts

end Split

end DatasetRt
