import DatasetRt.MetadataFile

/-! # The batches of `metadata.arrow`

`write_metadata_file` (`storage.rs`) cuts the rows of a cache into batches, row by row, so that the 32-bit offsets of
an Arrow string column cannot overflow.  `writeGroups` is its loop with what it hands to `build_array`.

A batch takes rows as long as the string bytes keep to what is left of a budget; only the first row is taken whatever
its size (`batchLenFrom_spec`).  So a batch keeps to the budget, or it is one large row and rows without string bytes
(`GroupOk`), and either way every column keeps to the offsets (`GroupOk.columnBytes_le`).  Every round takes a row, and
a string that is too long stops the loop before its row is in a batch (`metadata_batching`). -/

namespace DatasetRt

/-! ### String bytes -/

/-- The bytes a value adds to its column. -/
def MetadataValue.stringBytes : MetadataValue → ℕ
  | .string value => value.utf8ByteSize
  | _ => 0

def rowBytes (row : Row) : ℕ := (row.map MetadataValue.stringBytes).sum

def groupBytes (rows : List Row) : ℕ := (rows.map rowBytes).sum

/-- The string bytes of one column. -/
def columnBytes (rows : List Row) (column : ℕ) : ℕ :=
  (rows.map fun row => (row[column]?.map MetadataValue.stringBytes).getD 0).sum

/-- No string is longer than an offset can say. -/
def RowOk (row : Row) : Prop := ∀ value ∈ row, value.stringBytes ≤ i32Max

def RowsOk (rows : List Row) : Prop := ∀ row ∈ rows, RowOk row

/-- A batch keeps to the budget, or its first row alone exceeds it and the others have no string bytes. -/
def GroupOk (budget : ℕ) (rows : List Row) : Prop :=
  groupBytes rows ≤ budget ∨ ∃ first rest, rows = first :: rest ∧ budget < rowBytes first ∧ ∀ row ∈ rest, rowBytes row = 0

/-! ### The loop -/

/-- The loop of `write_metadata_file`: the rows handed to `build_array`, batch by batch, and the outcome, if it ends
within so many rounds. -/
def writeGroups (schema : List MetadataField) :
    ℕ → List Row → List (List Row) × Option (CacheResult (List RecordBatch))
  | _, [] => ([], some (.ok []))
  | 0, _ => ([], none)
  | fuel + 1, remaining =>
      match metadataBatchLen remaining 65536 (8 * 1024 * 1024) with
      | .error error => ([], some (.error error))
      | .ok len =>
          if remaining.length < len then ([], some (.error (.invalidInput "metadata batch range is invalid")))
          else
            match metadataBatch schema (remaining.take len) with
            | .error error => ([remaining.take len], some (.error error))
            | .ok batch =>
                let others := writeGroups schema fuel (remaining.drop len)
                (remaining.take len :: others.1, others.2.map fun outcome => outcome.map (batch :: ·))

/-! ### One row -/

theorem rowStringBytes_skip {value : MetadataValue} (h : ∀ text, value ≠ .string text) (bytes : ℕ) (rest : Row) :
    rowStringBytes bytes (value :: rest) = rowStringBytes bytes rest ∧ value.stringBytes = 0 := by
  cases value with
  | string text => exact absurd rfl (h text)
  | bool b => exact ⟨rfl, rfl⟩
  | int n => exact ⟨rfl, rfl⟩
  | float x => exact ⟨rfl, rfl⟩

theorem rowStringBytes_eq : ∀ {row : Row} {bytes : ℕ}, RowOk row → bytes + rowBytes row < wordSize →
    rowStringBytes bytes row = .ok (bytes + rowBytes row)
  | [], bytes, _, _ => rfl
  | value :: rest, bytes, hrow, hfits => by
      have hrest : RowOk rest := fun v hv => hrow v (List.mem_cons_of_mem _ hv)
      have hsum : rowBytes (value :: rest) = value.stringBytes + rowBytes rest := List.sum_cons
      rw [hsum] at hfits ⊢
      by_cases hstring : ∃ text, value = .string text
      · obtain ⟨text, rfl⟩ := hstring
        have htext : text.utf8ByteSize ≤ i32Max := hrow (.string text) List.mem_cons_self
        have hbytes : (MetadataValue.string text).stringBytes = text.utf8ByteSize := rfl
        rw [hbytes] at hfits ⊢
        have hadd : checkedAdd bytes text.utf8ByteSize = some (bytes + text.utf8ByteSize) :=
          checkedAdd_eq_some.mpr ⟨by omega, rfl⟩
        rw [rowStringBytes, if_neg (Nat.not_lt.mpr htext), hadd]
        simp only
        rw [rowStringBytes_eq hrest (by omega), Nat.add_assoc]
      · obtain ⟨hskip, hzero⟩ := rowStringBytes_skip (fun text h => hstring ⟨text, h⟩) bytes rest
        rw [hzero, Nat.zero_add] at hfits ⊢
        rw [hskip]
        exact rowStringBytes_eq hrest hfits

theorem rowOk_of_rowStringBytes : ∀ {row : Row} {bytes total : ℕ}, rowStringBytes bytes row = .ok total → RowOk row
  | [], _, _, _ => fun value hvalue => nomatch hvalue
  | value :: rest, bytes, total, h => by
      have hboth : value.stringBytes ≤ i32Max ∧ RowOk rest := by
        by_cases hstring : ∃ text, value = .string text
        · obtain ⟨text, rfl⟩ := hstring
          rw [rowStringBytes] at h
          split_ifs at h with hlong
          cases hadd : checkedAdd bytes text.utf8ByteSize with
          | none =>
              rw [hadd] at h
              cases h
          | some bytes' =>
              rw [hadd] at h
              exact ⟨Nat.not_lt.mp hlong, rowOk_of_rowStringBytes h⟩
        · obtain ⟨hskip, hzero⟩ := rowStringBytes_skip (fun text h => hstring ⟨text, h⟩) bytes rest
          rw [hskip] at h
          rw [hzero]
          exact ⟨Nat.zero_le _, rowOk_of_rowStringBytes h⟩
      intro v hv
      rcases List.mem_cons.mp hv with rfl | hv
      · exact hboth.1
      · exact hboth.2 v hv

/-! ### One batch -/

theorem groupBytes_cons (row : Row) (rest : List Row) : groupBytes (row :: rest) = rowBytes row + groupBytes rest :=
  List.sum_cons

/-- After the first row, rows are taken as long as they keep to what is left of the budget. -/
theorem batchLenFrom_spec (budget : ℕ) : ∀ {rows : List Row} {bytes count : ℕ}, 0 < count → RowsOk rows →
    bytes + groupBytes rows < wordSize → ∃ taken ≤ rows.length,
      batchLenFrom budget bytes count rows = .ok (count + taken) ∧ groupBytes (rows.take taken) ≤ budget - bytes
  | [], bytes, count, _, _, _ => ⟨0, le_rfl, rfl, Nat.zero_le _⟩
  | row :: rest, bytes, count, hcount, hrows, hfits => by
      rw [groupBytes_cons] at hfits
      have hrow := rowStringBytes_eq (hrows row List.mem_cons_self) (by omega : 0 + rowBytes row < wordSize)
      rw [Nat.zero_add] at hrow
      by_cases hover : budget - bytes < rowBytes row
      · refine ⟨0, Nat.zero_le _, ?_, Nat.zero_le _⟩
        rw [batchLenFrom, hrow]
        simp only [if_pos (And.intro hcount hover), Nat.add_zero]
      · have hadd : checkedAdd bytes (rowBytes row) = some (bytes + rowBytes row) :=
          checkedAdd_eq_some.mpr ⟨by omega, rfl⟩
        obtain ⟨taken, hle, hlen, hbytes⟩ := batchLenFrom_spec budget (Nat.succ_pos count)
          (fun r hr => hrows r (List.mem_cons_of_mem _ hr)) (by omega : bytes + rowBytes row + groupBytes rest < wordSize)
        refine ⟨taken + 1, Nat.succ_le_succ hle, ?_, ?_⟩
        · rw [batchLenFrom, hrow]
          simp only [if_neg (fun h : 0 < count ∧ budget - bytes < rowBytes row => hover h.2), hadd, hlen,
            Except.ok.injEq]
          omega
        · rw [List.take_succ_cons, groupBytes_cons]
          omega

theorem metadataBatchLen_spec {rows : List Row} {maxRows budget : ℕ} (hne : rows ≠ []) (hmax : 0 < maxRows)
    (hrows : RowsOk rows) (hfits : groupBytes rows < wordSize) : ∃ len, metadataBatchLen rows maxRows budget = .ok len ∧
      1 ≤ len ∧ len ≤ maxRows ∧ len ≤ rows.length ∧ GroupOk budget (rows.take len) := by
  obtain ⟨first, rest, rfl⟩ := List.exists_cons_of_ne_nil hne
  obtain ⟨maxRows, rfl⟩ := Nat.exists_eq_succ_of_ne_zero hmax.ne'
  rw [groupBytes_cons] at hfits
  have hsub : (rest.take maxRows).Sublist rest := List.take_sublist _ _
  have htake : groupBytes (rest.take maxRows) ≤ groupBytes rest :=
    (hsub.map rowBytes).sum_le_sum (fun _ _ => Nat.zero_le _)
  have hrow := rowStringBytes_eq (hrows first List.mem_cons_self) (by omega : 0 + rowBytes first < wordSize)
  have hadd : checkedAdd 0 (rowBytes first) = some (rowBytes first) := checkedAdd_eq_some.mpr ⟨by omega, Nat.zero_add _⟩
  obtain ⟨taken, hle, hlen, hbytes⟩ := batchLenFrom_spec budget Nat.one_pos
    (fun r hr => hrows r (List.mem_cons_of_mem _ (hsub.subset hr)))
    (by omega : rowBytes first + groupBytes (rest.take maxRows) < wordSize)
  rw [List.length_take] at hle
  refine ⟨1 + taken, ?_, Nat.le_add_right _ _, by omega, by rw [List.length_cons]; omega, ?_⟩
  · rw [metadataBatchLen, List.take_succ_cons, batchLenFrom, hrow]
    simp only [Nat.zero_add, lt_irrefl, false_and, if_false, hadd, hlen]
  · rw [Nat.add_comm 1 taken, List.take_succ_cons]
    rw [List.take_take, Nat.min_eq_left (by omega)] at hbytes
    by_cases hlarge : budget < rowBytes first
    · refine .inr ⟨first, rest.take taken, rfl, hlarge, fun row hr => ?_⟩
      have hzero : groupBytes (rest.take taken) = 0 := by omega
      exact List.sum_eq_zero_iff.mp hzero _ (List.mem_map_of_mem hr)
    · left
      rw [groupBytes_cons]
      omega

theorem columnBytes_le_groupBytes (rows : List Row) (column : ℕ) : columnBytes rows column ≤ groupBytes rows := by
  refine List.sum_le_sum fun row _ => ?_
  cases hvalue : row[column]? with
  | none => exact Nat.zero_le _
  | some value => exact List.single_le_sum (fun _ _ => Nat.zero_le _) _ (List.mem_map_of_mem (List.mem_of_getElem? hvalue))

/-- No column of a batch needs more than its offsets. -/
theorem GroupOk.columnBytes_le {budget : ℕ} {rows : List Row} (h : GroupOk budget rows) (hbudget : budget ≤ i32Max)
    (hrows : RowsOk rows) (column : ℕ) : columnBytes rows column ≤ i32Max := by
  rcases h with hle | ⟨first, rest, rfl, -, hzero⟩
  · exact (columnBytes_le_groupBytes rows column).trans (hle.trans hbudget)
  · have hrest : groupBytes rest = 0 := List.sum_eq_zero_iff.mpr fun n hn => by
      obtain ⟨row, hrow, rfl⟩ := List.mem_map.mp hn
      exact hzero row hrow
    have hcolumn : columnBytes (first :: rest) column =
        (first[column]?.map MetadataValue.stringBytes).getD 0 + columnBytes rest column := List.sum_cons
    have hfirst : (first[column]?.map MetadataValue.stringBytes).getD 0 ≤ i32Max := by
      cases hvalue : first[column]? with
      | none => exact Nat.zero_le _
      | some value => exact hrows first List.mem_cons_self value (List.mem_of_getElem? hvalue)
    have hothers := columnBytes_le_groupBytes rest column
    omega

theorem stringsFit_of_batchLenFrom {budget : ℕ} : ∀ {rows : List Row} {bytes count n : ℕ},
    batchLenFrom budget bytes count rows = .ok n → RowsOk (rows.take (n - count))
  | [], _, _, _, _ => fun row hrow => by
      rw [List.take_nil] at hrow
      cases hrow
  | row :: rest, bytes, count, n, h => by
      obtain ⟨hcount, -, -⟩ := batchLenFrom_ok h
      rw [batchLenFrom] at h
      cases hrow : rowStringBytes 0 row with
      | error error =>
          rw [hrow] at h
          cases h
      | ok rowBytes =>
          rw [hrow] at h
          simp only at h
          split_ifs at h with hover
          · cases h
            rw [Nat.sub_self, List.take_zero]
            exact fun row hrow => by cases hrow
          · cases hadd : checkedAdd bytes rowBytes with
            | none =>
                rw [hadd] at h
                cases h
            | some bytes' =>
                rw [hadd] at h
                obtain ⟨hnext, -, -⟩ := batchLenFrom_ok h
                have htake : n - count = n - (count + 1) + 1 := by omega
                rw [htake, List.take_succ_cons]
                intro r hr
                rcases List.mem_cons.mp hr with rfl | hr
                · exact rowOk_of_rowStringBytes hrow
                · exact stringsFit_of_batchLenFrom h r hr

theorem stringsFit_of_metadataBatchLen {rows : List Row} {maxRows budget len : ℕ}
    (h : metadataBatchLen rows maxRows budget = .ok len) : RowsOk (rows.take len) := by
  have hfit := stringsFit_of_batchLenFrom h
  obtain ⟨-, hle, -⟩ := batchLenFrom_ok h
  rw [List.length_take] at hle
  rw [Nat.sub_zero, List.take_take, Nat.min_eq_left (by omega)] at hfit
  exact hfit

/-! ### The whole loop -/

section loop

variable {schema : List MetadataField}

/-- A round: nothing is handed on, or the next rows are. -/
theorem writeGroups_cases (schema : List MetadataField) (fuel : ℕ) {rows : List Row} (hne : rows ≠ []) :
    (∃ error, metadataBatchLen rows 65536 (8 * 1024 * 1024) = .error error ∧
      (∀ fuel, writeGroups schema (fuel + 1) rows = ([], some (.error error))) ∧
      metadataBatches schema (fuel + 1) rows = .error error) ∨
    ∃ len, metadataBatchLen rows 65536 (8 * 1024 * 1024) = .ok len ∧ 0 < len ∧ len ≤ rows.length ∧
      ((∃ error, metadataBatch schema (rows.take len) = .error error ∧
        (∀ fuel, writeGroups schema (fuel + 1) rows = ([rows.take len], some (.error error))) ∧
        metadataBatches schema (fuel + 1) rows = .error error) ∨
      ∃ batch, metadataBatch schema (rows.take len) = .ok batch ∧
        (∀ fuel, writeGroups schema (fuel + 1) rows = (rows.take len :: (writeGroups schema fuel (rows.drop len)).1,
          (writeGroups schema fuel (rows.drop len)).2.map fun outcome => outcome.map (batch :: ·))) ∧
        metadataBatches schema (fuel + 1) rows = (metadataBatches schema fuel (rows.drop len)).map (batch :: ·)) := by
  obtain ⟨row, rest, rfl⟩ := List.exists_cons_of_ne_nil hne
  cases hlen : metadataBatchLen (row :: rest) 65536 (8 * 1024 * 1024) with
  | error error =>
      refine .inl ⟨error, rfl, fun fuel => ?_, ?_⟩
      · simp only [writeGroups, hlen]
      · simp only [metadataBatches, hlen, bind, Except.bind]
  | ok len =>
      obtain ⟨hpos, hle⟩ := metadataBatchLen_ok hlen hne (by norm_num)
      refine .inr ⟨len, rfl, hpos, hle, ?_⟩
      cases hbatch : metadataBatch schema ((row :: rest).take len) with
      | error error =>
          refine .inl ⟨error, rfl, fun fuel => ?_, ?_⟩
          · simp only [writeGroups, hlen, if_neg (Nat.not_lt.mpr hle), hbatch]
          · simp only [metadataBatches, hlen, bind, Except.bind, if_neg (Nat.not_lt.mpr hle), hbatch]
      | ok batch =>
          refine .inr ⟨batch, rfl, fun fuel => ?_, ?_⟩
          · simp only [writeGroups, hlen, if_neg (Nat.not_lt.mpr hle), hbatch]
          · simp only [metadataBatches, hlen, bind, Except.bind, if_neg (Nat.not_lt.mpr hle), hbatch]
            cases metadataBatches schema fuel ((row :: rest).drop len) <;> rfl

/-- What a loop with a round for each row does. -/
structure Ends (schema : List MetadataField) (fuel : ℕ) (rows : List Row) : Prop where
  outcome : (writeGroups schema fuel rows).2 = some (metadataBatches schema fuel rows)
  stable : ∀ more, rows.length ≤ more → writeGroups schema more rows = writeGroups schema fuel rows
  fit : ∀ group ∈ (writeGroups schema fuel rows).1, RowsOk group
  flatten : ∀ batches, metadataBatches schema fuel rows = .ok batches → (writeGroups schema fuel rows).1.flatten = rows

variable (schema) in
theorem ends_of_length_le : ∀ (fuel : ℕ) (rows : List Row), rows.length ≤ fuel → Ends schema fuel rows
  | fuel, [], _ => by
      have hgroups : ∀ fuel, writeGroups schema fuel [] = ([], some (.ok [])) := fun fuel => by cases fuel <;> rfl
      have hbatches : metadataBatches schema fuel [] = .ok [] := by cases fuel <;> rfl
      refine ⟨by rw [hgroups, hbatches], fun more _ => by rw [hgroups, hgroups], ?_, ?_⟩
      · rw [hgroups]
        exact fun group hgroup => nomatch hgroup
      · intro batches _
        rw [hgroups]
        rfl
  | 0, row :: rest, hle => absurd hle (by simp)
  | fuel + 1, row :: rest, hle => by
      have hmore : ∀ more, (row :: rest).length ≤ more → ∃ more', more = more' + 1 := fun more h =>
        Nat.exists_eq_succ_of_ne_zero (by rw [List.length_cons] at h; omega)
      rcases writeGroups_cases schema fuel (List.cons_ne_nil row rest) with
        ⟨error, -, hgroups, hbatches⟩ |
          ⟨len, hlen, hpos, hlen', ⟨error, -, hgroups, hbatches⟩ | ⟨batch, -, hgroups, hbatches⟩⟩
      · refine ⟨by rw [hgroups, hbatches], fun more h => ?_, ?_, ?_⟩
        · obtain ⟨more', rfl⟩ := hmore more h
          rw [hgroups, hgroups]
        · rw [hgroups]
          exact fun group hgroup => nomatch hgroup
        · intro batches hok
          rw [hbatches] at hok
          cases hok
      · refine ⟨by rw [hgroups, hbatches], fun more h => ?_, ?_, ?_⟩
        · obtain ⟨more', rfl⟩ := hmore more h
          rw [hgroups, hgroups]
        · intro group hgroup
          rw [hgroups] at hgroup
          rw [List.mem_singleton.mp hgroup]
          exact stringsFit_of_metadataBatchLen hlen
        · intro batches hok
          rw [hbatches] at hok
          cases hok
      · have hrest : ((row :: rest).drop len).length ≤ fuel := by
          rw [List.length_drop]
          omega
        have ih := ends_of_length_le fuel ((row :: rest).drop len) hrest
        refine ⟨by rw [hgroups, hbatches, ih.outcome]; rfl, fun more h => ?_, ?_, ?_⟩
        · obtain ⟨more', rfl⟩ := hmore more h
          rw [hgroups, hgroups, ih.stable more' (by rw [List.length_drop]; omega)]
        · intro group hgroup
          rw [hgroups] at hgroup
          rcases List.mem_cons.mp hgroup with rfl | hgroup
          · exact stringsFit_of_metadataBatchLen hlen
          · exact ih.fit group hgroup
        · intro batches hok
          rw [hbatches] at hok
          cases hothers : metadataBatches schema fuel ((row :: rest).drop len) with
          | error error =>
              rw [hothers] at hok
              cases hok
          | ok others =>
              rw [hgroups, List.flatten_cons, ih.flatten others hothers, List.take_append_drop]

variable (schema) in
/-- Where every string fits, the rows are cut into groups and one batch is built for each. -/
theorem exists_cuts : ∀ (fuel : ℕ) (rows : List Row), rows.length ≤ fuel → RowsOk rows →
    groupBytes rows < wordSize → ∃ groups : List (List Row), groups.flatten = rows ∧
      (∀ group ∈ groups, 1 ≤ group.length ∧ group.length ≤ 65536 ∧ GroupOk (8 * 1024 * 1024) group) ∧
      metadataBatches schema fuel rows = groups.mapM (metadataBatch schema)
  | fuel, [], _, _, _ => ⟨[], rfl, by simp, by cases fuel <;> rfl⟩
  | 0, row :: rest, hle, _, _ => absurd hle (by simp)
  | fuel + 1, row :: rest, hle, hrows, hfits => by
      obtain ⟨len, hlen, hpos, hmax, hle', hgroup⟩ :=
        metadataBatchLen_spec (List.cons_ne_nil row rest) (by norm_num : 0 < 65536) hrows hfits
      have hsplit := List.take_append_drop len (row :: rest)
      have hsub : ((row :: rest).drop len).Sublist (row :: rest) := List.drop_sublist _ _
      have hbytes : groupBytes ((row :: rest).drop len) ≤ groupBytes (row :: rest) :=
        (hsub.map rowBytes).sum_le_sum (fun _ _ => Nat.zero_le _)
      obtain ⟨groups, hflatten, hall, hbatches⟩ := exists_cuts fuel ((row :: rest).drop len)
        (by rw [List.length_drop]; omega) (fun r hr => hrows r (hsub.subset hr)) (lt_of_le_of_lt hbytes hfits)
      refine ⟨(row :: rest).take len :: groups, by rw [List.flatten_cons, hflatten, hsplit], fun group hmem => ?_, ?_⟩
      · rcases List.mem_cons.mp hmem with rfl | hmem
        · rw [List.length_take, Nat.min_eq_left hle']
          exact ⟨hpos, hmax, hgroup⟩
        · exact hall group hmem
      · rw [List.mapM_cons, ← hbatches]
        rcases writeGroups_cases schema fuel (List.cons_ne_nil row rest) with
          ⟨error, herror, -, -⟩ | ⟨len', hlen', -, -, hround⟩
        · rw [hlen] at herror
          cases herror
        · obtain rfl : len = len' := Except.ok.inj (hlen.symm.trans hlen')
          rcases hround with ⟨error, herror, -, hstep⟩ | ⟨batch, hbatch, -, hstep⟩
          · rw [hstep, herror]
            rfl
          · rw [hstep, hbatch]
            cases metadataBatches schema fuel ((row :: rest).drop len) <;> rfl

/-- **Metadata batches.**  The loop ends, with a round for each row at most.  Where every string fits the offsets and
the bytes fit a word, the rows are cut in order into groups of 1 to 65536 rows, and each gives one batch; no string
column of a group has more bytes than its offsets can say, and a group has at most 8 MiB of string bytes, unless its
first row alone has more and the others have none.  Where some string does not fit, writing the file fails and no
array is built for the rows of a string that is too long. -/
theorem metadata_batching (L : StorageLib) (schema : List MetadataField) (rows : List Row) :
    ∃ groups outcome, (∀ fuel, rows.length ≤ fuel → writeGroups schema fuel rows = (groups, some outcome)) ∧
      metadataFileBytes L schema rows = (outcome >>= fun batches =>
        arrowResult (L.arrow.writeFile (arrowSchema schema) batches)) ∧
      (RowsOk rows → groupBytes rows < wordSize → ∃ cuts : List (List Row), cuts.flatten = rows ∧
        outcome = cuts.mapM (metadataBatch schema) ∧ ∀ group ∈ cuts,
          (1 ≤ group.length ∧ group.length ≤ 65536) ∧ (∀ column, columnBytes group column ≤ i32Max) ∧
          (groupBytes group ≤ 8 * 1024 * 1024 ∨ ∃ first rest, group = first :: rest ∧
            8 * 1024 * 1024 < rowBytes first ∧ ∀ row ∈ rest, rowBytes row = 0)) ∧
      (¬ RowsOk rows → (∃ error, metadataFileBytes L schema rows = .error error) ∧
        ∀ group ∈ groups, RowsOk group) := by
  have hends := ends_of_length_le schema rows.length rows le_rfl
  have hfile : metadataFileBytes L schema rows = (metadataBatches schema rows.length rows >>= fun batches =>
      arrowResult (L.arrow.writeFile (arrowSchema schema) batches)) := rfl
  refine ⟨(writeGroups schema rows.length rows).1, metadataBatches schema rows.length rows, fun fuel hle => ?_, hfile,
    fun hrows hfits => ?_, fun hlong => ⟨?_, hends.fit⟩⟩
  · rw [hends.stable fuel hle, ← hends.outcome]
  · obtain ⟨cuts, hflatten, hall, hbatches⟩ := exists_cuts schema rows.length rows le_rfl hrows hfits
    refine ⟨cuts, hflatten, hbatches, fun group hgroup => ?_⟩
    obtain ⟨hpos, hmax, hok⟩ := hall group hgroup
    have hfit : RowsOk group := fun row hrow => hrows row (hflatten ▸ List.mem_flatten.mpr ⟨group, hgroup, hrow⟩)
    exact ⟨⟨hpos, hmax⟩, hok.columnBytes_le (by norm_num [i32Max]) hfit, hok⟩
  · cases hbatches : metadataBatches schema rows.length rows with
    | error error => exact ⟨error, by rw [hfile, hbatches]; rfl⟩
    | ok batches =>
        refine absurd (fun row hrow => ?_) hlong
        rw [← hends.flatten batches hbatches] at hrow
        obtain ⟨group, hgroup, hrow⟩ := List.mem_flatten.mp hrow
        exact hends.fit group hgroup row hrow

end loop

namespace LongString

/-- A string of `2 ^ 31` bytes. -/
def text : String := String.ofList (List.replicate (2 ^ 31) 'a')

theorem utf8ByteSize_text : text.utf8ByteSize = 2 ^ 31 := by
  have hsize : ∀ n, (String.ofList (List.replicate n 'a')).utf8ByteSize = n := by
    intro n
    induction n with
    | zero => rfl
    | succ n ih =>
        have hone : "a".utf8ByteSize = 1 := by decide
        simp [List.replicate_succ, ih, hone, Nat.add_comm]
  exact hsize _

def schema : List MetadataField := [⟨"k", .string⟩]

def lib : StorageLib where
  codec := ⟨fun _ => .error "", fun _ => .error "", fun _ _ => .error "", fun _ _ => .error "", fun _ _ => .error "",
    fun _ _ => ⟨.resultFailure, 0, []⟩⟩
  json := ⟨fun _ => .error "", fun _ => .error "", id, fun _ => ""⟩
  arrow := ⟨fun _ _ => .ok [], fun _ => .error ""⟩
  encodeObject _ := .error ""
  decodeObject _ := .error ""
  sha256 _ := []

end LongString

open LongString in
/-- Two short strings go into one batch; a string of `2 ^ 31` bytes after them fails, and only the batch before its
row may have been built. -/
theorem metadata_batching_long :
    (∃ cuts : List (List Row), cuts.flatten = [[MetadataValue.string "a"], [.string "b"]] ∧
      metadataBatches schema 2 [[.string "a"], [.string "b"]] = cuts.mapM (metadataBatch schema)) ∧
    (∃ error, metadataFileBytes lib schema [[.string "a"], [.string text]] = .error error) := by
  constructor
  · obtain ⟨groups, outcome, hends, -, hcuts, -⟩ := metadata_batching lib schema [[.string "a"], [.string "b"]]
    have hfit : RowsOk [[.string "a"], [.string "b"]] := by
      intro row hrow value hvalue
      rcases List.mem_cons.mp hrow with rfl | hrow
      · rw [List.mem_singleton.mp hvalue]
        decide
      · rw [List.mem_singleton.mp hrow] at hvalue
        rw [List.mem_singleton.mp hvalue]
        decide
    obtain ⟨cuts, hflatten, houtcome, -⟩ := hcuts hfit (by decide)
    have hended := (ends_of_length_le schema 2 [[.string "a"], [.string "b"]] le_rfl).outcome
    rw [hends 2 le_rfl, Option.some.injEq] at hended
    exact ⟨cuts, hflatten, hended.symm.trans houtcome⟩
  · obtain ⟨groups, outcome, -, -, -, hfails⟩ := metadata_batching lib schema [[.string "a"], [.string text]]
    refine (hfails fun hfit => ?_).1
    have hle : text.utf8ByteSize ≤ i32Max := hfit [.string text] (by simp) (.string text) (by simp)
    rw [utf8ByteSize_text] at hle
    norm_num [i32Max] at hle

end DatasetRt
