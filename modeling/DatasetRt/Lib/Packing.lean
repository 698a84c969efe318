import Mathlib

/-! # Greedy packing in order

Items with a size go into blocks one after the other.  An item goes into the open block if that is empty or has room
for it; else the open block is closed for good and the item opens the next one.  An item larger than the capacity has a
block of its own.

`place` is one step and `pack` a run.  What every run of items of positive size leaves is `Greedy`: closed blocks are
never empty, a block keeps to the capacity or is a single item, and no block has room for the item after it. -/

namespace Packing

variable {α : Type} (size : α → ℕ) (capacity : ℕ)

/-- The sizes of a block together. -/
def load (block : List α) : ℕ := (block.map size).sum

/-- The closed blocks and the open one, after one more item. -/
def place (state : List (List α) × List α) (item : α) : List (List α) × List α :=
  if load size state.2 = 0 ∨ size item ≤ capacity - load size state.2 then (state.1, state.2 ++ [item])
  else (state.1 ++ [state.2], [item])

/-- A run of items. -/
def pack (state : List (List α) × List α) (items : List α) : List (List α) × List α :=
  items.foldl (place size capacity) state

/-- All blocks. -/
def blocks (state : List (List α) × List α) : List (List α) := state.1 ++ [state.2]

/-- A block keeps to the capacity or is a single item. -/
def Fits (block : List α) : Prop := load size block ≤ capacity ∨ block.length = 1

/-- The first item of a block had no room in the block before it. -/
def NoRoom (block next : List α) : Prop := ∃ first rest, next = first :: rest ∧ capacity < load size block + size first

/-- What a run leaves. -/
structure Greedy (state : List (List α) × List α) : Prop where
  pos : ∀ block ∈ blocks state, ∀ item ∈ block, 0 < size item
  nonempty : ∀ block ∈ state.1, block ≠ []
  fits : ∀ block ∈ blocks state, Fits size capacity block
  noRoom : ∀ i block next, (blocks state)[i]? = some block → (blocks state)[i + 1]? = some next →
    NoRoom size capacity block next
  /-- Only the first block can be open and empty. -/
  first : state.2 = [] → state.1 = []

variable {size capacity}

theorem load_append (block : List α) (item : α) : load size (block ++ [item]) = load size block + size item := by
  rw [load, List.map_append, List.sum_append, List.map_singleton, List.sum_singleton]
  rfl

theorem load_pos {block : List α} (hpos : ∀ item ∈ block, 0 < size item) (h : block ≠ []) : 0 < load size block := by
  obtain ⟨item, rest, rfl⟩ := List.exists_cons_of_ne_nil h
  rw [load, List.map_cons, List.sum_cons]
  exact Nat.add_pos_left (hpos item List.mem_cons_self) _

theorem size_le_load {block : List α} {item : α} (h : item ∈ block) : size item ≤ load size block :=
  List.single_le_sum (fun _ _ => Nat.zero_le _) _ (List.mem_map_of_mem h)

theorem greedy_nil : Greedy size capacity ([], []) where
  pos block hblock item hitem := by
    rw [List.mem_singleton.mp hblock] at hitem
    cases hitem
  nonempty := by simp
  fits block hblock := by
    rw [List.mem_singleton.mp hblock]
    exact .inl (Nat.zero_le _)
  noRoom i block next _ hnext := by simp [blocks] at hnext
  first _ := rfl

theorem consecutive_append {l : List α} {last a b : α} {i : ℕ} (ha : (l ++ [last])[i]? = some a)
    (hb : (l ++ [last])[i + 1]? = some b) :
    (l[i]? = some a ∧ l[i + 1]? = some b) ∨ (i + 1 = l.length ∧ l[i]? = some a ∧ b = last) := by
  have hi : i + 1 < (l ++ [last]).length := (List.getElem?_eq_some_iff.mp hb).1
  rw [List.length_append, List.length_singleton] at hi
  have hlt : i < l.length := by omega
  rw [List.getElem?_append_left hlt] at ha
  by_cases hlast : i + 1 < l.length
  · rw [List.getElem?_append_left hlast] at hb
    exact .inl ⟨ha, hb⟩
  · have heq : i + 1 = l.length := by omega
    rw [heq, List.getElem?_concat_length, Option.some.injEq] at hb
    exact .inr ⟨heq, ha, hb.symm⟩

theorem Greedy.place {state : List (List α) × List α} (h : Greedy size capacity state) {item : α}
    (hpos : 0 < size item) : Greedy size capacity (place size capacity state item) := by
  obtain ⟨closed, last⟩ := state
  have hclosed : ∀ block ∈ closed, block ∈ blocks (closed, last) := fun block => List.mem_append_left _
  have hopen : last ∈ blocks (closed, last) := List.mem_append_right _ (List.mem_singleton_self last)
  by_cases hroom : load size last = 0 ∨ size item ≤ capacity - load size last
  · have hplace : Packing.place size capacity (closed, last) item = (closed, last ++ [item]) := if_pos hroom
    rw [hplace]
    have hfits : Fits size capacity (last ++ [item]) := by
      by_cases hempty : last = []
      · rw [hempty]
        exact .inr rfl
      · have hload := load_pos (h.pos last hopen) hempty
        left
        rw [load_append]
        omega
    refine ⟨fun block hblock other hother => ?_, h.nonempty, fun block hblock => ?_, fun i block next hblock hnext => ?_,
      fun hnil => by simp at hnil⟩
    · rcases List.mem_append.mp hblock with hblock | hblock
      · exact h.pos block (hclosed block hblock) other hother
      · rw [List.mem_singleton.mp hblock] at hother
        rcases List.mem_append.mp hother with hother | hother
        · exact h.pos last hopen other hother
        · rw [List.mem_singleton.mp hother]
          exact hpos
    · rcases List.mem_append.mp hblock with hblock | hblock
      · exact h.fits block (hclosed block hblock)
      · rw [List.mem_singleton.mp hblock]
        exact hfits
    · rcases consecutive_append hblock hnext with ⟨hblock, hnext⟩ | ⟨hi, hblock, rfl⟩
      · have hlt : i + 1 < closed.length := (List.getElem?_eq_some_iff.mp hnext).1
        refine h.noRoom i block next ?_ ?_
        · rw [blocks, List.getElem?_append_left (Nat.lt_of_succ_lt hlt)]
          exact hblock
        · rw [blocks, List.getElem?_append_left hlt]
          exact hnext
      · -- the open block already had its first item, because there is a block before it
        have hlt : i < closed.length := Nat.lt_of_succ_le hi.le
        obtain ⟨first, rest, hlast, hover⟩ := h.noRoom i block last
          (by rw [blocks, List.getElem?_append_left hlt]; exact hblock)
          (by rw [hi, blocks, List.getElem?_concat_length])
        exact ⟨first, rest ++ [item], by rw [hlast]; rfl, hover⟩
  · have hplace : Packing.place size capacity (closed, last) item = (closed ++ [last], [item]) := if_neg hroom
    rw [hplace]
    have hload : load size last ≠ 0 := fun hzero => hroom (.inl hzero)
    have hne : last ≠ [] := by
      rintro rfl
      exact hload rfl
    refine ⟨fun block hblock other hother => ?_, fun block hblock => ?_, fun block hblock => ?_,
      fun i block next hblock hnext => ?_, fun hnil => by cases hnil⟩
    · rcases List.mem_append.mp hblock with hblock | hblock
      · exact h.pos block hblock other hother
      · rw [List.mem_singleton.mp hblock, List.mem_singleton] at hother
        rw [hother]
        exact hpos
    · rcases List.mem_append.mp hblock with hblock | hblock
      · exact h.nonempty block hblock
      · rw [List.mem_singleton.mp hblock]
        exact hne
    · rcases List.mem_append.mp hblock with hblock | hblock
      · exact h.fits block hblock
      · rw [List.mem_singleton.mp hblock]
        exact .inr rfl
    · rcases consecutive_append hblock hnext with ⟨hblock, hnext⟩ | ⟨hi, hblock, rfl⟩
      · exact h.noRoom i block next hblock hnext
      · have hlast : block = last := by
          rw [List.length_append, List.length_singleton, Nat.add_right_cancel_iff] at hi
          rw [hi, List.getElem?_concat_length, Option.some.injEq] at hblock
          exact hblock.symm
        rw [hlast]
        exact ⟨item, [], rfl, by omega⟩

theorem Greedy.pack : ∀ {items : List α} {state : List (List α) × List α}, Greedy size capacity state →
    (∀ item ∈ items, 0 < size item) → Greedy size capacity (pack size capacity state items)
  | [], _, h, _ => h
  | item :: _, _, h, hpos => (h.place (hpos item List.mem_cons_self)).pack
      fun other hother => hpos other (List.mem_cons_of_mem _ hother)

/-- No item is lost or moved. -/
theorem flatten_place (state : List (List α) × List α) (item : α) :
    (blocks (place size capacity state item)).flatten = (blocks state).flatten ++ [item] := by
  unfold place
  split_ifs <;> simp [blocks]

theorem flatten_pack : ∀ (items : List α) (state : List (List α) × List α),
    (blocks (pack size capacity state items)).flatten = (blocks state).flatten ++ items
  | [], state => (List.append_nil _).symm
  | item :: items, state => by
      have hrest := flatten_pack items (place size capacity state item)
      rw [flatten_place, List.append_assoc] at hrest
      exact hrest

theorem Greedy.blocks_ne_nil {state : List (List α) × List α} (h : Greedy size capacity state)
    (hitems : (blocks state).flatten ≠ []) : ∀ block ∈ blocks state, block ≠ [] := by
  intro block hblock
  rcases List.mem_append.mp hblock with hblock | hblock
  · exact h.nonempty block hblock
  · rw [List.mem_singleton.mp hblock]
    intro hnil
    apply hitems
    rw [blocks, h.first hnil, hnil]
    rfl

end Packing
