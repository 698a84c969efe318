import DatasetRt.LoaderCoverage

/-! # Selecting the population of a worker

`reconstruction.py` selects the rows that one worker reads in two ways.  `select_population` is the reference: it
permutes the rows of a table with a seed and takes a cyclic span of them.  The loaders share one permutation through a
file (`prepare_row_order`) and only name the selected rows (`population_selection`), leaving the table alone.
`selection_matches` says that taking the named rows is the reference selection; the plans of the loaders compute the
same selection from the values of the file (`populationSelection_file`).

Machine integers are those of the arrays: `uint64` in the shared order and its positions, `int64` in the reference.
An array of 64-bit numbers has fewer than `2 ^ 60` of them, because its size in bytes is a signed word. -/

namespace DatasetRt

/-- The exceptions of the selection functions. -/
inductive SelectionError where
  | value (message : String)
  | index (message : String)
  | zeroDivision
  | fileNotFound
deriving DecidableEq, Repr

abbrev SelectionResult (α : Type) := Except SelectionError α

/-- What is used of `np.random.default_rng(seed)`. -/
structure NumpyRandom where
  /-- `shuffle`, as the values it leaves in the array. -/
  shuffle : ℕ → List ℕ → List ℕ
  /-- `permutation(count)`. -/
  permutation : ℕ → ℕ → List ℕ

/-- What the documentation promises, and that both shuffle alike. -/
structure NumpyRandom.Lawful (N : NumpyRandom) : Prop where
  shuffle_range : ∀ seed count, N.shuffle seed (List.range count) = N.permutation seed count
  perm : ∀ seed count, (N.permutation seed count).Perm (List.range count)

/-- Fewer numbers of 64 bits than this fit an array. -/
def maxWords : ℕ := 2 ^ 60

/-- `np.arange(length)` of a 64-bit type. -/
def arange (length : ℕ) : SelectionResult (List ℕ) :=
  if length < maxWords then .ok (List.range length)
  else .error (.value "array is too big; `arr.size * arr.dtype.itemsize` is larger than the maximum possible size.")

/-- Addition in a `uint64` array. -/
def addU64 (a b : ℕ) : ℕ := (a + b) % 2 ^ 64

/-- Addition in an `int64` array. -/
def addI64 (a b : ℤ) : ℤ := Int.bmod (a + b) (2 ^ 64)

section tables

variable {α : Type}

/-- The rows of a metadata table; its identity columns hold 64-bit numbers. -/
structure MetadataTable (α : Type) where
  rows : List α
  rows_lt : rows.length < maxWords

/-- `table.take`. -/
def takeRows (rows : List α) (indices : List ℤ) : SelectionResult (List α) :=
  indices.mapM fun (i : ℤ) =>
    if i < 0 then .error (.index "index out of bounds")
    else
      match rows[i.toNat]? with
      | some row => .ok row
      | none => .error (.index "index out of bounds")

/-- Indexing an array with an array: a negative index counts from the end. -/
def fancyIndex (values : List α) (indices : List ℤ) : SelectionResult (List α) :=
  indices.mapM fun (i : ℤ) =>
    match values[(if i < 0 then i + values.length else i).toNat]? with
    | some value => if i < -values.length then .error (.index "index is out of bounds") else .ok value
    | none => .error (.index "index is out of bounds")

/-! ### The shared order -/

inductive DType where
  | uint64
  | other
deriving DecidableEq, Repr

/-- An array file. -/
structure NpyFile where
  dtype : DType
  shape : List ℕ
  values : List ℕ

/-- `order[start:stop] = np.arange(start, stop)`. -/
def fillSpan (order : List ℕ) (start stop : ℕ) : List ℕ :=
  order.take start ++ List.range' start (stop - start) ++ order.drop stop

/-- `range(0, count, 65_536)`. -/
def orderStarts (count : ℕ) : List ℕ := (List.range ((count + 65535) / 65536)).map fun k => k * 65536

/-- The content of the order file. -/
def prepareRowOrder (N : NumpyRandom) (count : Positive) (seed : ℕ) : NpyFile :=
  let order := (orderStarts count.1).foldl (fun order start => fillSpan order start (min count.1 (start + 65536)))
    (List.replicate count.1 0)
  ⟨.uint64, [count.1], N.shuffle seed order⟩

/-! ### The two selections -/

/-- `population_selection`: the row numbers, or `none` for the whole table; `order` is the order file, if there is
one. -/
def NpyFile.populationSelection (order : Option NpyFile) (count : Positive) (offset length : ℤ)
    (partitionSeed : Option ℕ) : SelectionResult (Option (List ℕ)) :=
  if offset < 0 ∨ length ≤ 0 then
    .error (.value "population selection requires a nonnegative offset and positive length")
  else
    let start := offset.toNat % count.1
    let length := length.toNat
    match partitionSeed with
    | none =>
        if offset = 0 ∧ length = count.1 then .ok none
        else do
          let indices ← arange length
          .ok (some (indices.map fun i => addU64 i start % count.1))
    | some _ =>
        match order with
        | none => .error .fileNotFound
        | some order =>
            if order.dtype ≠ .uint64 ∨ order.shape ≠ [count.1] then
              .error (.value "partition order does not match metadata row count")
            else if start + length ≤ count.1 then .ok (some ((order.values.drop start).take length))
            else do
              let positions ← arange length
              let indices ← fancyIndex order.values (positions.map fun i => ((addU64 i start % count.1 : ℕ) : ℤ))
              .ok (some indices)

def selectPopulation (N : NumpyRandom) (table : MetadataTable α) (offset length : ℤ) (partitionSeed : Option ℕ) :
    SelectionResult (List α) :=
  if length < 0 ∨ offset < 0 then
    .error (.value "population selection requires nonnegative offset and length")
  else if length = 0 then .ok []
  else
    let count := table.rows.length
    if partitionSeed = none ∧ offset + length ≤ count then
      .ok ((table.rows.drop offset.toNat).take length.toNat)
    else do
      let indices ← arange length.toNat
      if count = 0 then .error .zeroDivision
      else
        let indices := indices.map fun (i : ℕ) => addI64 i (offset % count) % count
        match partitionSeed with
        | none => takeRows table.rows indices
        | some seed => do
            let indices ← fancyIndex (N.permutation seed count) indices
            takeRows table.rows (indices.map Int.ofNat)

/-- The rows that a selection names. -/
def selectedRows (table : MetadataTable α) : Option (List ℕ) → SelectionResult (List α)
  | none => .ok table.rows
  | some indices => takeRows table.rows (indices.map Int.ofNat)

/-! ### The order file -/

theorem fill_prefix (count size : ℕ) : ∀ k,
    ((List.range k).map fun k => k * size).foldl
      (fun order start => fillSpan order start (min count (start + size))) (List.replicate count 0) =
      List.range (min count (k * size)) ++ List.replicate (count - k * size) 0
  | 0 => by simp
  | k + 1 => by
      have hfill := fill_prefix count size k
      rw [List.range_succ, List.map_append, List.foldl_append, hfill, List.map_singleton, List.foldl_cons,
        List.foldl_nil, fillSpan, Nat.succ_mul]
      generalize k * size = start
      by_cases hlt : start < count
      · obtain ⟨filled, hstop⟩ : ∃ filled, min count (start + size) = start + filled :=
          ⟨min count (start + size) - start, by omega⟩
        have hrest : count - (start + size) = count - start - filled := by omega
        rw [Nat.min_eq_right hlt.le, hstop, hrest, Nat.add_sub_cancel_left, List.take_left' List.length_range,
          List.range_add, List.range'_eq_map_range, ← List.drop_drop, List.drop_left' List.length_range,
          List.drop_replicate]
      · have hstart : count - start = 0 := by omega
        have hnext : count - (start + size) = 0 := by omega
        rw [Nat.min_eq_left (Nat.not_lt.mp hlt), Nat.min_eq_left (by omega : count ≤ start + size), hstart, hnext,
          List.replicate_zero, List.append_nil, List.take_of_length_le (by simpa using Nat.not_lt.mp hlt),
          List.drop_of_length_le (by simp), List.range'_zero, List.append_nil, List.append_nil]

theorem values_prepareRowOrder {N : NumpyRandom} (hN : N.Lawful) (count : Positive) (seed : ℕ) :
    (prepareRowOrder N count seed).values = N.permutation seed count.1 := by
  have hcover : count.1 ≤ (count.1 + 65535) / 65536 * 65536 := by omega
  show N.shuffle seed _ = _
  rw [orderStarts, fill_prefix, Nat.min_eq_left hcover, Nat.sub_eq_zero_of_le hcover, List.replicate_zero,
    List.append_nil, hN.shuffle_range]

/-! ### Spans -/

/-- The positions of a cyclic span. -/
def cyclicSpan (count start length : ℕ) : List ℕ := (List.range length).map fun i => (i + start) % count

theorem mapM_ok_of_getElem? {β : Type} {f : β → SelectionResult α} {l : List β} {ys : List α}
    (hlen : l.length = ys.length) (h : ∀ i (hi : i < l.length), ∀ y, ys[i]? = some y → f l[i] = .ok y) :
    l.mapM f = .ok ys := by
  refine mapM_eq_ok_iff_getElem.mpr ⟨hlen, fun i hl hy => ?_⟩
  exact h i hl ys[i] (List.getElem?_eq_getElem hy)

theorem length_cyclicSpan (count start length : ℕ) : (cyclicSpan count start length).length = length := by
  rw [cyclicSpan, List.length_map, List.length_range]

theorem takeRows_ok {rows ys : List α} {indices : List ℕ} (hlen : indices.length = ys.length)
    (h : ∀ i (hi : i < indices.length), rows[indices[i]]? = ys[i]?) :
    takeRows rows (indices.map Int.ofNat) = .ok ys := by
  refine mapM_ok_of_getElem? (by rw [List.length_map, hlen]) fun i hi y hy => ?_
  have hi' : i < indices.length := by simpa using hi
  have hrow : rows[indices[i]]? = some y := (h i hi').trans hy
  simp only [List.getElem_map, Int.ofNat_eq_natCast, Int.toNat_natCast, hrow]
  rw [if_neg (by omega)]

theorem fancyIndex_ok {values ys : List α} {indices : List ℕ} (hlen : indices.length = ys.length)
    (h : ∀ i (hi : i < indices.length), values[indices[i]]? = ys[i]?) :
    fancyIndex values (indices.map Int.ofNat) = .ok ys := by
  refine mapM_ok_of_getElem? (by rw [List.length_map, hlen]) fun i hi y hy => ?_
  have hi' : i < indices.length := by simpa using hi
  have hvalue : values[indices[i]]? = some y := (h i hi').trans hy
  simp only [List.getElem_map, Int.ofNat_eq_natCast]
  rw [if_neg (by omega), Int.toNat_natCast, hvalue]
  simp only
  rw [if_neg (by omega)]

theorem getElem?_slice {rows : List α} {start length i : ℕ} (hfits : start + length ≤ rows.length)
    (hi : i < (cyclicSpan rows.length start length).length) :
    rows[(cyclicSpan rows.length start length)[i]]? = ((rows.drop start).take length)[i]? := by
  rw [length_cyclicSpan] at hi
  simp only [cyclicSpan, List.getElem_map, List.getElem_range]
  rw [Nat.mod_eq_of_lt (by omega), List.getElem?_take, if_pos hi, List.getElem?_drop, Nat.add_comm]

theorem exists_gathered (values : List α) {indices : List ℕ} (h : ∀ i ∈ indices, i < values.length) :
    ∃ ys : List α, indices.length = ys.length ∧ (∀ i (hi : i < indices.length), values[indices[i]]? = ys[i]?) ∧
      ∀ y ∈ ys, y ∈ values := by
  refine ⟨indices.pmap (fun i hi => values.get ⟨i, hi⟩) h, by simp, fun i hi => ?_, fun y hy => ?_⟩
  · rw [List.getElem?_eq_getElem (h _ (List.getElem_mem hi)), List.getElem?_eq_getElem (by simpa using hi),
      List.getElem_pmap]
    rfl
  · obtain ⟨i, hi, rfl⟩ := List.mem_pmap.mp hy
    exact List.get_mem _ _

theorem mem_cyclicSpan {count start length i : ℕ} (hcount : 0 < count) (h : i ∈ cyclicSpan count start length) :
    i < count := by
  obtain ⟨j, -, rfl⟩ := List.mem_map.mp h
  exact Nat.mod_lt _ hcount

/-! ### Both selections take the same span -/

variable {N : NumpyRandom} {table : MetadataTable α} {count : Positive} {offset length : ℕ}

/-- Neither array overflows. -/
theorem add_exact {i start : ℕ} (hi : i < maxWords) (hstart : start < maxWords) :
    addU64 i start = i + start ∧ addI64 i start = ((i + start : ℕ) : ℤ) := by
  have hsmall : i + start < 2 ^ 62 := by
    have hmax : maxWords = 2 ^ 60 := rfl
    omega
  constructor
  · exact Nat.mod_eq_of_lt (by omega)
  · rw [addI64, ← Int.natCast_add, Int.bmod_eq_of_le]
    · omega
    · omega

theorem mod_lt_maxWords (hcount : table.rows.length = count.1) : offset % count.1 < maxWords :=
  lt_trans (Nat.mod_lt _ count.2) (hcount ▸ table.rows_lt)

theorem positions_u64 {start : ℕ} (hlength : length < maxWords) (hstart : start < maxWords) :
    ((List.range length).map fun i => addU64 i start % count.1) = cyclicSpan count.1 start length := by
  refine List.map_congr_left fun i hi => ?_
  rw [(add_exact (lt_trans (List.mem_range.mp hi) hlength) hstart).1]

theorem positions_i64 {start : ℕ} (hlength : length < maxWords) (hstart : start < maxWords) :
    ((List.range length).map fun (i : ℕ) => addI64 i start % count.1) =
      (cyclicSpan count.1 start length).map Int.ofNat := by
  rw [cyclicSpan, List.map_map]
  refine List.map_congr_left fun i hi => ?_
  rw [(add_exact (lt_trans (List.mem_range.mp hi) hlength) hstart).2]
  rfl

theorem arange_ok (h : length < maxWords) : arange length = .ok (List.range length) := if_pos h

theorem selection_unseeded (hcount : table.rows.length = count.1) (hlength : 0 < length) (order : Option NpyFile) :
    (NpyFile.populationSelection order count offset length none >>= selectedRows table) =
      selectPopulation N table offset length none := by
  have hargs : ¬ ((offset : ℤ) < 0 ∨ (length : ℤ) ≤ 0) := by omega
  have hargs' : ¬ ((length : ℤ) < 0 ∨ (offset : ℤ) < 0) := by omega
  have hzero : ¬ (length : ℤ) = 0 := by omega
  have hnonempty : ¬ table.rows.length = 0 := by
    have := count.2
    omega
  have hmax := table.rows_lt
  simp only [NpyFile.populationSelection, selectPopulation, if_neg hargs, if_neg hargs', if_neg hzero, Int.toNat_natCast,
    true_and, hnonempty, if_false]
  by_cases hwhole : (offset : ℤ) = 0 ∧ length = count.1
  · obtain ⟨hoffset, rfl⟩ := hwhole
    obtain rfl : offset = 0 := by omega
    rw [if_pos ⟨hoffset, rfl⟩, if_pos (by omega), List.drop_zero, List.take_of_length_le hcount.le]
    rfl
  · rw [if_neg hwhole]
    by_cases hfits : ((offset : ℤ) + length ≤ table.rows.length)
    · have hstart : offset % count.1 = offset := Nat.mod_eq_of_lt (by omega)
      have hshort : length < maxWords := by omega
      rw [if_pos hfits, arange_ok hshort, hstart]
      show takeRows table.rows (((List.range length).map fun i => addU64 i offset % count.1).map Int.ofNat) = _
      rw [positions_u64 hshort (by omega), ← hcount]
      refine takeRows_ok ?_ fun i hi => getElem?_slice (by omega) hi
      rw [length_cyclicSpan, List.length_take, List.length_drop]
      omega
    · rw [if_neg hfits]
      by_cases hshort : length < maxWords
      · have hstart : offset % count.1 < maxWords := mod_lt_maxWords hcount
        rw [arange_ok hshort]
        show takeRows table.rows (((List.range length).map fun i => addU64 i (offset % count.1) % count.1).map Int.ofNat) =
          takeRows table.rows ((List.range length).map fun (i : ℕ) =>
            addI64 i ((offset : ℤ) % (table.rows.length : ℤ)) % (table.rows.length : ℤ))
        rw [positions_u64 hshort hstart, hcount, ← Int.natCast_emod, positions_i64 hshort hstart]
      · rw [arange, if_neg hshort]
        rfl

theorem selection_seeded (hN : N.Lawful) (hcount : table.rows.length = count.1) (hlength : 0 < length) (seed : ℕ) :
    (NpyFile.populationSelection (some (prepareRowOrder N count seed)) count offset length (some seed) >>=
        selectedRows table) =
      selectPopulation N table offset length (some seed) := by
  have hargs : ¬ ((offset : ℤ) < 0 ∨ (length : ℤ) ≤ 0) := by omega
  have hargs' : ¬ ((length : ℤ) < 0 ∨ (offset : ℤ) < 0) := by omega
  have hzero : ¬ (length : ℤ) = 0 := by omega
  have hnonempty : ¬ table.rows.length = 0 := by
    have := count.2
    omega
  have hmax := table.rows_lt
  have hfile : ¬ ((prepareRowOrder N count seed).dtype ≠ .uint64 ∨ (prepareRowOrder N count seed).shape ≠ [count.1]) := by
    rintro (h | h) <;> exact h rfl
  have hperm : (N.permutation seed count.1).length = count.1 := by
    rw [(hN.perm seed count.1).length_eq, List.length_range]
  have hstart : offset % count.1 < maxWords := mod_lt_maxWords hcount
  have hreference : length < maxWords → selectPopulation N table offset length (some seed) =
      (fancyIndex (N.permutation seed count.1) ((cyclicSpan count.1 (offset % count.1) length).map Int.ofNat) >>=
        fun indices => takeRows table.rows (indices.map Int.ofNat)) := by
    intro hshort
    simp only [selectPopulation, if_neg hargs', if_neg hzero, Int.toNat_natCast, reduceCtorEq, false_and, if_false,
      arange_ok hshort, bind, Except.bind, hnonempty]
    rw [hcount, ← Int.natCast_emod, positions_i64 hshort hstart]
  simp only [NpyFile.populationSelection, if_neg hargs, Int.toNat_natCast, if_neg hfile, values_prepareRowOrder hN]
  by_cases hfits : offset % count.1 + length ≤ count.1
  · have hslice : fancyIndex (N.permutation seed count.1)
        ((cyclicSpan count.1 (offset % count.1) length).map Int.ofNat) =
        .ok (((N.permutation seed count.1).drop (offset % count.1)).take length) := by
      refine fancyIndex_ok ?_ fun i hi => ?_
      · rw [length_cyclicSpan, List.length_take, List.length_drop]
        omega
      · have hspan : cyclicSpan count.1 (offset % count.1) length =
            cyclicSpan (N.permutation seed count.1).length (offset % count.1) length := by rw [hperm]
        simp only [hspan]
        exact getElem?_slice (by rw [hperm]; exact hfits) (hspan ▸ hi)
    rw [if_pos hfits, hreference (by omega), hslice]
    rfl
  · rw [if_neg hfits]
    by_cases hshort : length < maxWords
    · rw [hreference hshort, arange_ok hshort]
      have hpositions : ((List.range length).map fun i => ((addU64 i (offset % count.1) % count.1 : ℕ) : ℤ)) =
          (cyclicSpan count.1 (offset % count.1) length).map Int.ofNat := by
        rw [← positions_u64 hshort hstart, List.map_map]
        rfl
      simp only [bind, Except.bind, hpositions]
      cases fancyIndex (N.permutation seed count.1)
        ((cyclicSpan count.1 (offset % count.1) length).map Int.ofNat) <;> rfl
    · simp only [selectPopulation, if_neg hargs', if_neg hzero, Int.toNat_natCast, reduceCtorEq, false_and, if_false,
        arange, if_neg hshort]
      rfl

/-- The loaders' plans use the selection on the values of the order file, in exact arithmetic. -/
theorem populationSelection_file {order : NpyFile} (hdtype : order.dtype = .uint64)
    (hshape : order.shape = [order.values.length]) (hcount : count.1 < maxWords) (hlength : length < maxWords)
    (partitionSeed : Option ℕ) :
    (NpyFile.populationSelection (some order) count offset length partitionSeed).toOption =
      (DatasetRt.populationSelection order.values count.1 offset length partitionSeed).toOption := by
  have hstart : offset % count.1 < maxWords := lt_trans (Nat.mod_lt _ count.2) hcount
  unfold NpyFile.populationSelection DatasetRt.populationSelection
  by_cases hzero : length = 0
  · rw [if_pos (by omega), if_pos hzero]
    rfl
  rw [if_neg (by omega), if_neg hzero]
  simp only [Int.toNat_natCast, Int.natCast_eq_zero, arange_ok hlength, bind, Except.bind, hdtype, hshape,
    ne_eq, not_true_eq_false, false_or, List.cons.injEq, and_true]
  cases partitionSeed with
  | none =>
      simp only [positions_u64 hlength hstart, cyclicSpan]
      split_ifs <;> rfl
  | some seed =>
      by_cases hsize : order.values.length = count.1
      · simp only [hsize, not_true_eq_false, if_false]
        split_ifs with hfits
        · rfl
        · have hpositions : ((List.range length).map fun i => ((addU64 i (offset % count.1) % count.1 : ℕ) : ℤ)) =
              (cyclicSpan count.1 (offset % count.1) length).map Int.ofNat := by
            rw [← positions_u64 hlength hstart, List.map_map]
            rfl
          have hgathered : fancyIndex order.values ((cyclicSpan count.1 (offset % count.1) length).map Int.ofNat) =
              .ok ((cyclicSpan count.1 (offset % count.1) length).map fun i => order.values.getD i 0) := by
            refine fancyIndex_ok (by rw [List.length_map]) fun i hi => ?_
            have hmem := mem_cyclicSpan count.2 (List.getElem_mem hi)
            rw [List.getElem?_map, List.getElem?_eq_getElem hi, Option.map_some, List.getD_eq_getElem?_getD,
              List.getElem?_eq_getElem (by omega), Option.getD_some]
          rw [hpositions, hgathered, cyclicSpan, List.map_map]
          rfl
      · simp only [hsize, not_false_eq_true, if_true]
        rfl

/-- The reference selection of fewer rows than an array holds is there. -/
theorem exists_selected (hN : N.Lawful) (hcount : table.rows.length = count.1) (hlength : 0 < length)
    (hshort : length < maxWords) (partitionSeed : Option ℕ) :
    ∃ rows, selectPopulation N table offset length partitionSeed = .ok rows ∧ rows.length = length := by
  have hargs : ¬ ((length : ℤ) < 0 ∨ (offset : ℤ) < 0) := by omega
  have hzero : ¬ (length : ℤ) = 0 := by omega
  have hpos := count.2
  have hnonempty : ¬ table.rows.length = 0 := by omega
  have hstart : offset % count.1 < maxWords := mod_lt_maxWords hcount
  simp only [selectPopulation, if_neg hargs, if_neg hzero, Int.toNat_natCast, arange_ok hshort, bind, Except.bind,
    hnonempty, if_false]
  by_cases hslice : partitionSeed = none ∧ (offset : ℤ) + length ≤ table.rows.length
  · rw [if_pos hslice]
    refine ⟨_, rfl, ?_⟩
    rw [List.length_take, List.length_drop]
    omega
  · rw [if_neg hslice, hcount, ← Int.natCast_emod, positions_i64 hshort hstart]
    have hspan : ∀ i ∈ cyclicSpan count.1 (offset % count.1) length, i < count.1 := fun i => mem_cyclicSpan hpos
    cases partitionSeed with
    | none =>
        obtain ⟨rows, hlen, hrows, -⟩ := exists_gathered table.rows (by rw [hcount]; exact hspan)
        refine ⟨rows, takeRows_ok hlen hrows, ?_⟩
        rw [← hlen, length_cyclicSpan]
    | some seed =>
        have hperm := hN.perm seed count.1
        obtain ⟨indices, hlen, hindices, hmem⟩ := exists_gathered (N.permutation seed count.1)
          (by rw [hperm.length_eq, List.length_range]; exact hspan)
        have hbelow : ∀ i ∈ indices, i < table.rows.length := by
          intro i hi
          rw [hcount]
          exact List.mem_range.mp (hperm.mem_iff.mp (hmem i hi))
        obtain ⟨rows, hlen', hrows, -⟩ := exists_gathered table.rows hbelow
        simp only [fancyIndex_ok hlen hindices]
        refine ⟨rows, takeRows_ok hlen' hrows, ?_⟩
        rw [← hlen', ← hlen, length_cyclicSpan]

/-- **Shared order.**  Taking the rows that `population_selection` names, with the order file of the same count and
seed, is `select_population`; and it gives `length` rows whenever an array can hold so many numbers. -/
theorem selection_matches (hN : N.Lawful) (hcount : table.rows.length = count.1) (offset length : ℤ)
    (hoffset : 0 ≤ offset) (hlength : 1 ≤ length) (partitionSeed : Option ℕ) (order : Option NpyFile)
    (horder : ∀ seed, partitionSeed = some seed → order = some (prepareRowOrder N count seed)) :
    (NpyFile.populationSelection order count offset length partitionSeed >>= selectedRows table) =
        selectPopulation N table offset length partitionSeed ∧
      (length < maxWords → ∃ rows, selectPopulation N table offset length partitionSeed = .ok rows ∧
        rows.length = length) := by
  obtain ⟨offset, rfl⟩ := Int.eq_ofNat_of_zero_le hoffset
  obtain ⟨length, rfl⟩ := Int.eq_ofNat_of_zero_le (by omega : 0 ≤ length)
  have hpos : 0 < length := by omega
  constructor
  · cases partitionSeed with
    | none => exact selection_unseeded hcount hpos order
    | some seed =>
        rw [horder seed rfl]
        exact selection_seeded hN hcount hpos seed
  · intro hshort
    have hselected : ∃ rows, selectPopulation N table (offset : ℤ) length partitionSeed = .ok rows ∧
        rows.length = length := exists_selected hN hcount hpos (by exact_mod_cast hshort) partitionSeed
    obtain ⟨rows, hrows, hlen⟩ := hselected
    exact ⟨rows, hrows, by rw [hlen]⟩

end tables

namespace NumpyRandom

/-- What `default_rng(seed).permutation(count)` is for two seeds; other seeds keep the order. -/
def order (seed count : ℕ) : List ℕ :=
  if seed = 3 ∧ count = 2 then [1, 0] else if seed = 7 ∧ count = 3 then [0, 2, 1] else List.range count

/-- The generator of these orders. -/
def sampled : NumpyRandom := ⟨fun seed values => (order seed values.length).map fun i => values.getD i 0, order⟩

theorem lawful_sampled : sampled.Lawful := by
  have hperm : ∀ seed count, (order seed count).Perm (List.range count) := by
    intro seed count
    unfold order
    split_ifs with htwo hthree
    · rw [htwo.2]
      decide
    · rw [hthree.2]
      decide
    · exact List.Perm.refl _
  refine ⟨fun seed count => ?_, hperm⟩
  have hget : ∀ i ∈ order seed count, (List.range count).getD i 0 = i := by
    intro i hi
    have hlt : i < (List.range count).length := by
      rw [List.length_range]
      exact List.mem_range.mp ((hperm seed count).mem_iff.mp hi)
    rw [List.getD_eq_getElem _ _ hlt, List.getElem_range]
  show (order seed (List.range count).length).map (fun i => (List.range count).getD i 0) = order seed count
  rw [List.length_range, List.map_congr_left hget, List.map_id']

end NumpyRandom

namespace ThreeRows

def table : MetadataTable String := ⟨["a", "b", "c"], by decide⟩

def count : Positive := ⟨3, by decide⟩

end ThreeRows

open ThreeRows in
/-- A span that starts at the last row of the shared order and wraps. -/
theorem selection_matches_wrapped :
    (NpyFile.populationSelection (some (prepareRowOrder .sampled count 7)) count 5 2 (some 7) >>=
        selectedRows table) =
      .ok ["b", "a"] := by
  have hcount : table.rows.length = count.1 := rfl
  rw [(selection_matches NumpyRandom.lawful_sampled hcount 5 2 (by decide) (by decide) (some 7) _
    (fun _ h => by cases h; rfl)).1]
  rfl

end DatasetRt
