import Mathlib

/-! # Segments laid end to end

A list of lengths cuts a range into segments.  `offsets` computes where each segment begins, in
arithmetic that is bounded as machine arithmetic is, and `partitionPoint` finds a position by
its offset.  `partitionPoint_offsets` says that the segment found holds the position, also when
some segments are empty. -/

namespace DatasetRt.Segments

/-- The beginnings of the segments from `start` on, and the end of the last one; none of them
reaches `bound`. -/
def offsets (bound start : ℕ) : List ℕ → Option (List ℕ × ℕ)
  | [] => some ([], start)
  | len :: rest =>
      if start + len < bound then
        (offsets bound (start + len) rest).map fun r => (start :: r.1, r.2)
      else none

/-- `partition_point(|offset| *offset <= position)` of ascending offsets. -/
def partitionPoint (offsets : List ℕ) (position : ℕ) : ℕ :=
  (offsets.takeWhile fun offset => offset ≤ position).length

variable {bound : ℕ}

theorem offsets_cons {start len total : ℕ} {rest offs : List ℕ}
    (h : offsets bound start (len :: rest) = some (offs, total)) :
    ∃ offs', offs = start :: offs' ∧ start + len < bound ∧
      offsets bound (start + len) rest = some (offs', total) := by
  simp only [offsets] at h
  split_ifs at h with hlt
  obtain ⟨⟨offs', total'⟩, hrest, heq⟩ := Option.map_eq_some_iff.mp h
  rw [Prod.mk.injEq] at heq
  obtain ⟨rfl, rfl⟩ := heq
  exact ⟨offs', rfl, hlt, hrest⟩

theorem length_offsets : ∀ {lens offs : List ℕ} {start total : ℕ},
    offsets bound start lens = some (offs, total) → offs.length = lens.length
  | [], offs, start, total, h => by
      cases h
      rfl
  | len :: rest, offs, start, total, h => by
      obtain ⟨offs', rfl, -, hrest⟩ := offsets_cons h
      simp [length_offsets hrest]

theorem total_offsets : ∀ {lens offs : List ℕ} {start total : ℕ},
    offsets bound start lens = some (offs, total) → total = start + lens.sum
  | [], offs, start, total, h => by
      cases h
      simp
  | len :: rest, offs, start, total, h => by
      obtain ⟨offs', rfl, -, hrest⟩ := offsets_cons h
      rw [total_offsets hrest, List.sum_cons]
      omega

theorem total_lt_bound : ∀ {lens offs : List ℕ} {start total : ℕ}, start < bound →
    offsets bound start lens = some (offs, total) → total < bound
  | [], offs, start, total, hstart, h => by
      cases h
      exact hstart
  | len :: rest, offs, start, total, _, h => by
      obtain ⟨offs', rfl, hlt, hrest⟩ := offsets_cons h
      exact total_lt_bound hlt hrest

theorem exists_offsets : ∀ {lens : List ℕ} {start : ℕ}, start + lens.sum < bound →
    ∃ result, offsets bound start lens = some result
  | [], start, _ => ⟨([], start), rfl⟩
  | len :: rest, start, h => by
      rw [List.sum_cons] at h
      obtain ⟨result, hresult⟩ := exists_offsets (show start + len + rest.sum < bound by omega)
      exact ⟨_, by rw [offsets, if_pos (by omega), hresult]; rfl⟩

/-- A segment begins after all segments before it. -/
theorem getElem?_offsets : ∀ {lens offs : List ℕ} {start total i : ℕ},
    offsets bound start lens = some (offs, total) → i < lens.length →
    offs[i]? = some (start + (lens.take i).sum)
  | len :: rest, offs, start, total, 0, h, _ => by
      obtain ⟨offs', rfl, -, -⟩ := offsets_cons h
      simp
  | len :: rest, offs, start, total, i + 1, h, hi => by
      obtain ⟨offs', rfl, -, hrest⟩ := offsets_cons h
      rw [List.getElem?_cons_succ, getElem?_offsets hrest (by simpa using hi), List.take_succ_cons,
        List.sum_cons, Nat.add_assoc]

theorem partitionPoint_of_lt : ∀ {lens offs : List ℕ} {start total position : ℕ},
    offsets bound start lens = some (offs, total) → position < start → partitionPoint offs position = 0
  | [], offs, start, total, position, h, _ => by
      cases h
      rfl
  | len :: rest, offs, start, total, position, h, hlt => by
      obtain ⟨offs', rfl, -, -⟩ := offsets_cons h
      simp [partitionPoint, Nat.not_le.mpr hlt]

/-- **Lookup.**  Position `j` of segment `i` is found there. -/
theorem partitionPoint_offsets : ∀ {lens offs : List ℕ} {start total i len j : ℕ},
    offsets bound start lens = some (offs, total) → lens[i]? = some len → j < len →
    partitionPoint offs (start + (lens.take i).sum + j) = i + 1
  | first :: rest, offs, start, total, 0, len, j, h, hi, hj => by
      obtain ⟨offs', rfl, -, hrest⟩ := offsets_cons h
      obtain rfl : first = len := by simpa using hi
      have hafter : partitionPoint offs' (start + j) = 0 := partitionPoint_of_lt hrest (by omega)
      simp only [partitionPoint] at hafter ⊢
      simp [hafter]
  | first :: rest, offs, start, total, i + 1, len, j, h, hi, hj => by
      obtain ⟨offs', rfl, -, hrest⟩ := offsets_cons h
      have hlater := partitionPoint_offsets hrest (by simpa using hi) hj
      have heq : start + ((first :: rest).take (i + 1)).sum + j = start + first + (rest.take i).sum + j := by
        rw [List.take_succ_cons, List.sum_cons]
        omega
      rw [heq]
      simp only [partitionPoint] at hlater ⊢
      rw [List.takeWhile_cons_of_pos (by simp only [decide_eq_true_eq]; omega), List.length_cons, hlater]

theorem exists_segment : ∀ {lens : List ℕ} {position : ℕ}, position < lens.sum →
    ∃ i len j, lens[i]? = some len ∧ j < len ∧ position = (lens.take i).sum + j
  | first :: rest, position, h => by
      rcases Nat.lt_or_ge position first with hlt | hge
      · exact ⟨0, first, position, rfl, hlt, by simp⟩
      · have hrest : position - first < rest.sum := by
          rw [List.sum_cons] at h
          omega
        obtain ⟨i, len, j, hi, hj, heq⟩ := exists_segment hrest
        refine ⟨i + 1, len, j, by simpa using hi, hj, ?_⟩
        rw [List.take_succ_cons, List.sum_cons]
        omega

/-! ### Pieces at their places -/

/-- Pieces that stand one after the other from `start` to `stop`; `P` says what stands where. -/
inductive Tiled {α : Type} (size : α → ℕ) (P : ℕ → α → Prop) : ℕ → List α → ℕ → Prop
  | nil (start : ℕ) : Tiled size P start [] start
  | cons {start stop : ℕ} {a : α} {rest : List α} : P start a →
      Tiled size P (start + size a) rest stop → Tiled size P start (a :: rest) stop

namespace Tiled

variable {α : Type} {size : α → ℕ} {P Q : ℕ → α → Prop} {start stop : ℕ} {l : List α}

theorem stop_eq (h : Tiled size P start l stop) : stop = start + (l.map size).sum := by
  induction h with
  | nil start => simp
  | cons _ _ ih =>
      rw [ih, List.map_cons, List.sum_cons]
      omega

theorem mono (h : Tiled size P start l stop) (hPQ : ∀ i a, P i a → Q i a) : Tiled size Q start l stop := by
  induction h with
  | nil start => exact .nil start
  | cons ha _ ih => exact .cons (hPQ _ _ ha) ih

theorem append {l' : List α} {stop' : ℕ} (h : Tiled size P start l stop)
    (h' : Tiled size P stop l' stop') : Tiled size P start (l ++ l') stop' := by
  induction h with
  | nil start => exact h'
  | cons ha _ ih => exact .cons ha (ih h')

/-- The same pieces `k` places further. -/
theorem shift (h : Tiled size P start l stop) (k : ℕ) :
    Tiled size (fun i a => ∃ j, i = k + j ∧ P j a) (k + start) l (k + stop) := by
  induction h with
  | nil start => exact .nil _
  | cons ha _ ih =>
      refine .cons ⟨_, rfl, ha⟩ ?_
      rw [Nat.add_assoc]
      exact ih

theorem bounded (h : Tiled size P start l stop) :
    Tiled size (fun i a => P i a ∧ i + size a ≤ stop) start l stop := by
  induction h with
  | nil start => exact .nil start
  | cons ha hrest ih =>
      refine .cons ⟨ha, ?_⟩ ih
      rw [hrest.stop_eq]
      exact Nat.le_add_right _ _

theorem getElem (h : Tiled size P start l stop) {i : ℕ} {a : α} (hi : l[i]? = some a) :
    P (start + ((l.map size).take i).sum) a := by
  induction h generalizing i with
  | nil start => simp at hi
  | @cons start stop first rest ha _ ih =>
      cases i with
      | zero =>
          obtain rfl : first = a := by simpa using hi
          simpa using ha
      | succ i =>
          have := ih (by simpa using hi)
          rwa [Nat.add_assoc] at this

/-- Blocks of pieces, each at the end of the blocks before it. -/
theorem flatten : ∀ {blocks : List (List α)} {lens : List ℕ} {start : ℕ}, blocks.length = lens.length →
    (∀ (i : ℕ) (block : List α), blocks[i]? = some block →
      Tiled size P (start + (lens.take i).sum) block (start + (lens.take (i + 1)).sum)) →
    Tiled size P start blocks.flatten (start + lens.sum)
  | [], [], start, _, _ => .nil start
  | block :: blocks, len :: lens, start, hlen, h => by
      have hfirst : Tiled size P start block (start + len) := by simpa using h 0 block rfl
      have hrest : Tiled size P (start + len) blocks.flatten (start + len + lens.sum) := by
        refine flatten (by simpa using hlen) fun i b hb => ?_
        simpa [Nat.add_assoc] using h (i + 1) b (by simpa using hb)
      rw [List.flatten_cons, List.sum_cons, ← Nat.add_assoc]
      exact hfirst.append hrest

end Tiled

end DatasetRt.Segments
