import DatasetRt.Types
import DatasetRt.Lib.Bytes

/-! # Arrow tables

The part of the Arrow data model that the program uses: typed columns with null cells, record
batches that `RecordBatch::try_new` accepts, and the file format as a parameter `ArrowLib`
with what its documentation promises. -/

namespace DatasetRt

inductive DataType where
  | boolean
  | int32
  | int64
  | uint32
  | uint64
  | float32
  | float64
  | utf8
  | largeUtf8
  | utf8View
  | other (name : String)
deriving DecidableEq, Repr

/-- The values of a type; those of other types are never looked at. -/
def DataType.Cell : DataType → Type
  | boolean => Bool
  | int32 => Int32
  | int64 => Int64
  | uint32 => UInt32
  | uint64 => UInt64
  | float32 => Float32
  | float64 => Float
  | utf8 => String
  | largeUtf8 => String
  | utf8View => String
  | other _ => Unit

structure Column where
  dataType : DataType
  cells : List (Option dataType.Cell)

namespace Column

def len (c : Column) : ℕ := c.cells.length

def nullCount (c : Column) : ℕ := c.cells.countP Option.isNone

/-- `Array::is_null`. -/
def isNull (c : Column) (row : ℕ) : Bool :=
  match c.cells[row]? with
  | some none => true
  | _ => false

/-- `Array::slice`. -/
def slice (c : Column) (start len : ℕ) : Column :=
  { c with cells := (c.cells.drop start).take len }

/-- A column without nulls. -/
def ofValues (dataType : DataType) (values : List dataType.Cell) : Column :=
  { dataType, cells := values.map some }

end Column

structure Field where
  name : String
  dataType : DataType
  nullable : Bool
deriving DecidableEq, Repr

structure RecordBatch where
  schema : List Field
  columns : List Column
  numRows : ℕ

namespace RecordBatch

/-- A column fits the field it is stored under. -/
def columnFits (rows : ℕ) (field : Field) (column : Column) : Bool :=
  decide (column.len = rows) && decide (column.dataType = field.dataType) &&
    (field.nullable || decide (column.nullCount = 0))

/-- `RecordBatch::try_new`: without a column the row count is unknown. -/
def tryNew (schema : List Field) (columns : List Column) : CacheResult RecordBatch :=
  if columns.length ≠ schema.length then
    .error (.arrow "number of columns must match number of fields in schema")
  else
    match columns with
    | [] => .error (.arrow "must either specify a row count or at least one column")
    | first :: _ =>
        if (schema.zip columns).all fun p => columnFits first.len p.1 p.2 then
          .ok { schema, columns, numRows := first.len }
        else .error (.arrow "columns of a record batch must fit its schema and row count")

/-- `RecordBatch::column_by_name`: the first column of that name. -/
def columnByName (batch : RecordBatch) (name : String) : Option Column :=
  ((batch.schema.zip batch.columns).find? fun p => p.1.name = name).map Prod.snd

def slice (batch : RecordBatch) (start len : ℕ) : RecordBatch :=
  { batch with columns := batch.columns.map fun c => c.slice start len, numRows := len }

theorem tryNew_ok {schema : List Field} {columns : List Column} {batch : RecordBatch}
    (h : tryNew schema columns = .ok batch) :
    columns.length = schema.length ∧ columns ≠ [] ∧ batch.schema = schema ∧ batch.columns = columns ∧
      (∀ c ∈ columns, c.len = batch.numRows) := by
  unfold tryNew at h
  split_ifs at h with hlen
  cases hc : columns with
  | nil => simp [hc] at h
  | cons first rest =>
      subst hc
      simp only at h
      split_ifs at h with hall
      cases h
      refine ⟨not_not.mp hlen, by simp, rfl, rfl, fun c hmem => ?_⟩
      obtain ⟨i, hi, rfl⟩ := List.getElem_of_mem hmem
      have hfield : i < schema.length := by omega
      have hzip : (schema[i], (first :: rest)[i]) ∈ schema.zip (first :: rest) := by
        rw [List.mem_iff_getElem]
        exact ⟨i, by rw [List.length_zip]; omega, by simp⟩
      have := List.all_eq_true.mp hall _ hzip
      simp only [columnFits, Bool.and_eq_true, decide_eq_true_eq] at this
      exact this.1.1

end RecordBatch

/-- `arrow_ipc`: the bytes of a file of batches, and the batches of a file. -/
structure ArrowLib where
  writeFile : List Field → List RecordBatch → Except String Bytes
  readFile : Bytes → Except String (List Field × List RecordBatch)

/-- The reader returns the batches written. -/
def ArrowLib.Lawful (A : ArrowLib) : Prop :=
  ∀ schema batches bytes, A.writeFile schema batches = .ok bytes →
    A.readFile bytes = .ok (schema, batches)

end DatasetRt
