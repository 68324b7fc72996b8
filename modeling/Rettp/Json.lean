import Rettp.Platform
import Rettp.IndexMap
import Mathlib.Data.String.Basic

/-!
# JSON values

The `serde_json` value type as the program uses it: numbers are unsigned, negative or finite
floating-point, and objects are sorted maps. `JsonValue` is the tree; `Json` is a tree whose
objects all have strictly increasing keys, which is what a `serde_json::Value` is, and it is
what responses and variables store.
-/

namespace Rettp

/-- `i64::MAX` -/
def i64Max : Nat := 9223372036854775807

/-- A JSON number: a `u64`, a negative `i64`, or a finite double. -/
inductive JsonNumber where
  | posInt (value : Nat)
  | negInt (value : Int) (negative : value < 0)
  | float (value : Float) (finite : value.isFinite = true)
  deriving DecidableEq

namespace JsonNumber

/-- `Number::from(i64)` -/
def ofI64 (value : Int) : JsonNumber :=
  if h : value < 0 then .negInt value h else .posInt value.toNat

/-- `Number::from(u64)` -/
def ofU64 (value : Nat) : JsonNumber := .posInt value

/-- `Number::from_f64`: `none` for infinities and NaN. -/
def fromF64 (value : Float) : Option JsonNumber :=
  if h : value.isFinite = true then some (.float value h) else none

/-- The number is stored as an integer within `i64`. -/
def isI64 : JsonNumber → Bool
  | .posInt n => n ≤ i64Max
  | .negInt .. => true
  | .float .. => false

/-- The number is stored as an integer within `u64`. -/
def isU64 : JsonNumber → Bool
  | .posInt _ => true
  | .negInt .. => false
  | .float .. => false

/-- The number as an `i64`, if it is one. -/
def asI64 : JsonNumber → Option Int
  | .posInt n => if n ≤ i64Max then some n else none
  | .negInt n _ => some n
  | .float .. => none

/-- The number as a `u64`, if it is one. -/
def asU64 : JsonNumber → Option Nat
  | .posInt n => some n
  | .negInt .. => none
  | .float .. => none

/-- `Number::as_f64`; integers are rounded to the nearest double. -/
def asF64 : JsonNumber → Float
  | .posInt n => Float.ofNat n
  | .negInt n _ => Float.ofInt n
  | .float v _ => v

/-- The text of a number. -/
def display [Platform] : JsonNumber → String
  | .posInt n => toString n
  | .negInt n _ => toString n
  | .float v _ => Platform.displayJsonFloat v

end JsonNumber

/-- A JSON tree. -/
inductive JsonValue where
  | null
  | bool (value : Bool)
  | number (value : JsonNumber)
  | string (value : String)
  | array (items : List JsonValue)
  | object (entries : List (String × JsonValue))

namespace JsonValue

/-- The entries of an object. -/
def asObject : JsonValue → Option (SortedMap String JsonValue)
  | .object entries => some entries
  | _ => none

/-- The items of an array. -/
def asArray : JsonValue → Option (List JsonValue)
  | .array items => some items
  | _ => none

/-- The number. -/
def asNumber : JsonValue → Option JsonNumber
  | .number n => some n
  | _ => none

/-- The text of a string. -/
def asStr : JsonValue → Option String
  | .string s => some s
  | _ => none

/-- The truth value. -/
def asBool : JsonValue → Option Bool
  | .bool b => some b
  | _ => none

/-- The value is `null`. -/
def isNull : JsonValue → Bool
  | .null => true
  | _ => false

mutual

/-- Every object in the tree has strictly increasing keys. -/
def Sorted : JsonValue → Prop
  | .array items => SortedItems items
  | .object entries => SortedMap.Sorted entries ∧ SortedEntries entries
  | _ => True

/-- The keys are sorted in every item. -/
def SortedItems : List JsonValue → Prop
  | [] => True
  | v :: vs => v.Sorted ∧ SortedItems vs

/-- The keys are sorted in the value of every entry. -/
def SortedEntries : List (String × JsonValue) → Prop
  | [] => True
  | (_, v) :: es => v.Sorted ∧ SortedEntries es

end

theorem SortedEntries.get {es : List (String × JsonValue)} (h : SortedEntries es) {k : String}
    {v : JsonValue} (hv : IndexMap.get es k = some v) : v.Sorted := by
  induction es with
  | nil => cases hv
  | cons e es ih =>
    obtain ⟨k', w⟩ := e
    rw [IndexMap.get_cons] at hv
    split at hv
    · cases hv; exact h.1
    · exact ih h.2 hv

end JsonValue

/-- A JSON value as `serde_json` builds it: the keys of its objects are sorted. -/
@[ext]
structure Json where
  value : JsonValue
  sorted : value.Sorted

/-- A JSON object as `serde_json` builds it. -/
@[ext]
structure JsonObject where
  entries : SortedMap String JsonValue
  sorted : (JsonValue.object entries).Sorted

namespace JsonObject

/-- `Map::get` -/
def get (object : JsonObject) (key : String) : Option Json :=
  match h : IndexMap.get object.entries key with
  | some v => some ⟨v, object.sorted.2.get h⟩
  | none => none

theorem get_eq_some_iff {object : JsonObject} {key : String} {v : Json} :
    object.get key = some v ↔ IndexMap.get object.entries key = some v.value := by
  unfold get
  split
  · next w hw => simp [hw, Json.ext_iff]
  · next hw => simp [hw]

end JsonObject

namespace Json

/-- `Value::as_object` -/
def asObject (v : Json) : Option JsonObject :=
  match h : v.value with
  | .object entries => some ⟨entries, h ▸ v.sorted⟩
  | _ => none

theorem asObject_eq_some_iff {v : Json} {object : JsonObject} :
    v.asObject = some object ↔ v.value = .object object.entries := by
  unfold asObject
  split
  · next entries h => simp [h, JsonObject.ext_iff]
  · next h =>
    simp only [reduceCtorEq, false_iff]
    exact h object.entries

end Json

/-- The stable type name of a JSON value. -/
def jsonTypeName : JsonValue → String
  | .null => "null"
  | .bool _ => "boolean"
  | .number n => if n.isI64 || n.isU64 then "integer" else "number"
  | .string _ => "string"
  | .array _ => "array"
  | .object _ => "object"

end Rettp
