import DatasetRt.Types
import DatasetRt.Lib.Bytes

/-! # JSON values

`Json` is `serde_json::Value`; an object keeps the order and the repetitions of its text, and
`get` finds the last field of a name, as reading into a map does.  Printing and parsing are a
parameter `JsonLib`.  A printed value is read back up to `reread`: a finite float may come back
rounded by the parser, and a float that is not finite is printed as `null`.  `text` is the layout of
the printed text, for which only the digits of floats are a parameter. -/

namespace DatasetRt

inductive JsonNumber where
  | posInt (n : ℕ)
  | negInt (n : ℤ)
  | float (f : Float)

inductive Json where
  | null
  | bool (b : Bool)
  | num (n : JsonNumber)
  | str (s : String)
  | arr (items : List Json)
  | obj (fields : List (String × Json))

namespace Json

/-- `Value::as_u64`, and reading a `u64`. -/
def asU64 : Json → Option ℕ
  | num (.posInt n) => if n < wordSize then some n else none
  | _ => none

/-- Reading an `i32`. -/
def asI32 : Json → Option ℤ
  | num (.posInt n) => if n < 2 ^ 31 then some n else none
  | num (.negInt n) => if -2 ^ 31 ≤ n ∧ n < 0 then some n else none
  | _ => none

/-- Reading an `f64`, integers included. -/
def asF64 : Json → Option Float
  | num (.posInt n) => some (Float.ofNat n)
  | num (.negInt n) => some (Float.ofInt n)
  | num (.float f) => some f
  | _ => none

def asStr : Json → Option String
  | str s => some s
  | _ => none

def asArr : Json → Option (List Json)
  | arr items => some items
  | _ => none

/-- The fields of an object. -/
def asObj : Json → Option (List (String × Json))
  | obj fields => some fields
  | _ => none

/-- The last field of a name. -/
def getField (fields : List (String × Json)) (name : String) : Option Json :=
  fields.reverse.lookup name

/-- What a derived record reads its fields from: an object, or an array of the fields in their order. -/
def structFields (names : List String) : Json → Option (List (String × Json))
  | obj fields => some fields
  | arr items => if items.length = names.length then some (names.zip items) else none
  | _ => none

/-- A variant without data of a derived enumeration: its name, or an object with that one key and `null`. -/
def asVariant : Json → Option String
  | str s => some s
  | obj ((name, value) :: rest) =>
      match rest.all fun field => field.1 = name, getField ((name, value) :: rest) name with
      | true, some null => some name
      | _, _ => none
  | _ => none

/-- `i32` as a number. -/
def ofI32 (n : ℤ) : Json := if 0 ≤ n then num (.posInt n.toNat) else num (.negInt n)

mutual

/-- The value that is read back after printing. -/
def reread (r : Float → Float) : Json → Json
  | null => null
  | bool b => bool b
  | num (.float f) => if f.isFinite then num (.float (r f)) else null
  | num (.posInt n) => num (.posInt n)
  | num (.negInt n) => num (.negInt n)
  | str s => str s
  | arr items => arr (rereadItems r items)
  | obj fields => obj (rereadFields r fields)

def rereadItems (r : Float → Float) : List Json → List Json
  | [] => []
  | j :: js => reread r j :: rereadItems r js

def rereadFields (r : Float → Float) : List (String × Json) → List (String × Json)
  | [] => []
  | (name, j) :: fields => (name, reread r j) :: rereadFields r fields

end

mutual

/-- `PartialEq` of values; floats are compared as numbers. -/
def same : Json → Json → Bool
  | null, null => true
  | bool a, bool b => a == b
  | num (.posInt a), num (.posInt b) => a == b
  | num (.negInt a), num (.negInt b) => a == b
  | num (.float a), num (.float b) => a == b
  | str a, str b => a == b
  | arr as, arr bs => sameItems as bs
  | obj as, obj bs => sameFields as bs
  | _, _ => false

def sameItems : List Json → List Json → Bool
  | [], [] => true
  | a :: as, b :: bs => same a b && sameItems as bs
  | _, _ => false

/-- The fields of two objects, in the order of their names. -/
def sameFields : List (String × Json) → List (String × Json) → Bool
  | [], [] => true
  | (name, a) :: as, (name', b) :: bs => name == name' && same a b && sameFields as bs
  | _, _ => false

end

mutual

/-- Every float is read back as the same number. -/
def exact (r : Float → Float) : Json → Bool
  | null => true
  | bool _ => true
  | num (.float f) => f.isFinite && f == r f
  | num (.posInt _) => true
  | num (.negInt _) => true
  | str _ => true
  | arr items => exactItems r items
  | obj fields => exactFields r fields

def exactItems (r : Float → Float) : List Json → Bool
  | [] => true
  | j :: js => exact r j && exactItems r js

def exactFields (r : Float → Float) : List (String × Json) → Bool
  | [] => true
  | (_, j) :: fields => exact r j && exactFields r fields

end

mutual

theorem same_reread (r : Float → Float) : ∀ j : Json, same j (reread r j) = exact r j
  | null => rfl
  | bool b => by simp [reread, same, exact]
  | num (.float f) => by
      rw [reread, exact]
      split_ifs with hf
      · rw [hf]
        rfl
      · rw [Bool.eq_false_of_not_eq_true hf]
        rfl
  | num (.posInt n) => by simp [reread, same, exact]
  | num (.negInt n) => by simp [reread, same, exact]
  | str s => by simp [reread, same, exact]
  | arr items => by
      simp only [reread, same, exact]
      exact sameItems_reread r items
  | obj fields => by
      simp only [reread, same, exact]
      exact sameFields_reread r fields

theorem sameItems_reread (r : Float → Float) : ∀ items : List Json,
    sameItems items (rereadItems r items) = exactItems r items
  | [] => rfl
  | j :: js => by
      simp only [rereadItems, sameItems, exactItems]
      rw [same_reread r j, sameItems_reread r js]

theorem sameFields_reread (r : Float → Float) : ∀ fields : List (String × Json),
    sameFields fields (rereadFields r fields) = exactFields r fields
  | [] => rfl
  | (name, j) :: fields => by
      simp only [rereadFields, sameFields, exactFields, beq_self_eq_true, Bool.true_and]
      rw [same_reread r j, sameFields_reread r fields]

end

theorem rereadItems_eq_map (r : Float → Float) : ∀ items : List Json,
    rereadItems r items = items.map (reread r)
  | [] => by simp [rereadItems]
  | j :: js => by simp [rereadItems, rereadItems_eq_map r js]

theorem rereadFields_eq_map (r : Float → Float) : ∀ fields : List (String × Json),
    rereadFields r fields = fields.map fun field => (field.1, reread r field.2)
  | [] => by simp [rereadFields]
  | (name, j) :: fields => by simp [rereadFields, rereadFields_eq_map r fields]

mutual

/-- Only finite floats are read back. -/
theorem reread_congr {r q : Float → Float} (h : ∀ f : Float, f.isFinite = true → r f = q f) : ∀ j : Json,
    reread r j = reread q j
  | null => rfl
  | bool _ => rfl
  | num (.float f) => by
      simp only [reread]
      split_ifs with hf
      · rw [h f hf]
      · rfl
  | num (.posInt _) => by simp only [reread]
  | num (.negInt _) => by simp only [reread]
  | str _ => by simp only [reread]
  | arr items => by simp only [reread, rereadItems_congr h items]
  | obj fields => by simp only [reread, rereadFields_congr h fields]

theorem rereadItems_congr {r q : Float → Float} (h : ∀ f : Float, f.isFinite = true → r f = q f) :
    ∀ items : List Json, rereadItems r items = rereadItems q items
  | [] => by simp only [rereadItems]
  | j :: js => by simp only [rereadItems, reread_congr h j, rereadItems_congr h js]

theorem rereadFields_congr {r q : Float → Float} (h : ∀ f : Float, f.isFinite = true → r f = q f) :
    ∀ fields : List (String × Json), rereadFields r fields = rereadFields q fields
  | [] => by simp only [rereadFields]
  | (_, j) :: fields => by simp only [rereadFields, reread_congr h j, rereadFields_congr h fields]

end

theorem asI32_ofI32 {n : ℤ} (hlo : -2 ^ 31 ≤ n) (hhi : n < 2 ^ 31) : (ofI32 n).asI32 = some n := by
  unfold ofI32
  split_ifs with h
  · simp only [asI32]
    rw [if_pos (by omega)]
    simp [Int.toNat_of_nonneg h]
  · simp only [asI32]
    rw [if_pos ⟨hlo, by omega⟩]

@[simp] theorem reread_ofI32 (r : Float → Float) (n : ℤ) : reread r (ofI32 n) = ofI32 n := by
  unfold ofI32
  split_ifs <;> simp [reread]

/-! ### Texts -/

/-- A character of a string. -/
def escape (c : Char) : String :=
  match c.toNat with
  | 8 => "\\b"
  | 9 => "\\t"
  | 10 => "\\n"
  | 12 => "\\f"
  | 13 => "\\r"
  | 34 => "\\\""
  | 92 => "\\\\"
  | code =>
      if code < 32 then "\\u00" ++ String.ofList [Nat.digitChar (code / 16), Nat.digitChar (code % 16)]
      else c.toString

def quote (s : String) : String := "\"" ++ String.join (s.toList.map escape) ++ "\""

/-- The values of an array or an object, one a line. -/
def block (opening closing indent : String) (values : List String) : String :=
  if values.isEmpty then opening ++ closing
  else
    opening ++ "\n" ++ String.intercalate ",\n" (values.map fun value => indent ++ "  " ++ value) ++ "\n" ++ indent ++
      closing

section text

-- the shortest digits that are read back as a finite float
variable (float : Float → String)

mutual

/-- What `to_writer_pretty` writes for a value behind `indent`. -/
def pretty (indent : String) : Json → String
  | null => "null"
  | bool true => "true"
  | bool false => "false"
  | num (.posInt n) => toString n
  | num (.negInt n) => toString n
  | num (.float f) => if f.isFinite then float f else "null"
  | str s => quote s
  | arr items => block "[" "]" indent (prettyItems (indent ++ "  ") items)
  | obj fields => block "\x7b" "\x7d" indent (prettyFields (indent ++ "  ") fields)

def prettyItems (indent : String) : List Json → List String
  | [] => []
  | j :: js => pretty indent j :: prettyItems indent js

def prettyFields (indent : String) : List (String × Json) → List String
  | [] => []
  | (name, j) :: fields => (quote name ++ ": " ++ pretty indent j) :: prettyFields indent fields

end

def text (j : Json) : Bytes := (pretty float "" j).toUTF8.data.toList

end text

end Json

/-- `serde_json`: printing a value, parsing a text, and the text of a decoding error. -/
structure JsonLib where
  print : Json → Except String Bytes
  parse : Bytes → Except String Json
  /-- The float that the text of a finite float is parsed to. -/
  reread : Float → Float
  /-- The message for a value that does not have the expected shape. -/
  describe : Json → String

/-- A printed value is parsed back up to the precision of floats; positive floats stay positive
and finite, and `1.0` is exact. -/
structure JsonLib.Lawful (J : JsonLib) : Prop where
  parse_print : ∀ j text, J.print j = .ok text → J.parse text = .ok (j.reread J.reread)
  reread_pos : ∀ f : Float, f.isFinite = true → ¬ f ≤ 0.0 →
    (J.reread f).isFinite = true ∧ ¬ J.reread f ≤ 0.0
  reread_one : ∀ f : Float, f.isFinite = true → (f == 1.0) = true → (J.reread f == 1.0) = true

end DatasetRt
