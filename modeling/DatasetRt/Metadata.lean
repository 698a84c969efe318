import DatasetRt.Types
import DatasetRt.Lib.Bytes

/-! # Sample metadata

A sample carries a map of named scalars.  The keys and kinds of the first samples fix the
schema of a cache (`CacheBuilder::validate_metadata`), and a row is the list of values in
schema order.  `BTreeMap<String, MetadataValue>` is an ordered map over the keys. -/

namespace DatasetRt

inductive MetadataKind where
  | bool
  | int
  | float
  | string
deriving DecidableEq, Repr

/-- `Display` and, in snake case, the wire name. -/
def MetadataKind.name : MetadataKind → String
  | bool => "bool"
  | int => "int"
  | float => "float"
  | string => "string"

inductive MetadataValue where
  | bool (value : Bool)
  | int (value : Int64)
  | float (value : Float)
  | string (value : String)

namespace MetadataValue

def kind : MetadataValue → MetadataKind
  | bool _ => .bool
  | int _ => .int
  | float _ => .float
  | string _ => .string

/-- `PartialEq`: floats are compared as numbers, so `NaN` differs from itself. -/
def eq : MetadataValue → MetadataValue → Bool
  | bool a, bool b => a == b
  | int a, int b => a == b
  | float a, float b => a == b
  | string a, string b => a == b
  | _, _ => false

/-- `PartialEq` of two rows. -/
def eqRow : List MetadataValue → List MetadataValue → Bool
  | [], [] => true
  | a :: as, b :: bs => a.eq b && eqRow as bs
  | _, _ => false

def IsNaN : MetadataValue → Prop
  | float f => f.isNaN = true
  | _ => False

end MetadataValue

structure MetadataField where
  name : String
  kind : MetadataKind
deriving DecidableEq, Repr

abbrev MetadataMap := Std.ExtTreeMap String MetadataValue compare

/-- What reading one record gives. -/
structure CacheSample where
  data : Bytes
  metadata : List MetadataValue

/-! ### Equality of rows -/

theorem float_beq_self {f : Float} (h : f.isNaN = false) : (f == f) = true := by
  have hb : (f == f) = f.toModel.unpack.beq f.toModel.unpack := rfl
  have hn : f.toModel.unpack.isNaN = false := h
  rw [hb]
  unfold Float.Model.UnpackedFloat.beq
  cases hu : f.toModel.unpack with
  | notANumber => rw [hu] at hn; cases hn
  | infinity s => cases s <;> rfl
  | zero s => rfl
  | finite s m e hm => cases s <;> simp [Float.Model.UnpackedFloat.compare]

theorem MetadataValue.eq_self {v : MetadataValue} (h : ¬ v.IsNaN) : v.eq v = true := by
  cases v with
  | float f => exact float_beq_self (by simpa [IsNaN] using h)
  | bool b => simp [MetadataValue.eq]
  | int n => simp [MetadataValue.eq]
  | string s => simp [MetadataValue.eq]

theorem MetadataValue.eqRow_self : ∀ {row : List MetadataValue}, (∀ v ∈ row, ¬ v.IsNaN) →
    MetadataValue.eqRow row row = true
  | [], _ => rfl
  | v :: row, h => by
      simp [eqRow, MetadataValue.eq_self (h v List.mem_cons_self),
        eqRow_self fun w hw => h w (List.mem_cons_of_mem _ hw)]

end DatasetRt
