import Mathlib.Data.List.Basic

/-!
# Serialized values

What the derived `Serialize` hands to `serde_json`. Its text is up to that crate
(`Platform.jsonPretty`); a printer that puts every item on a line of its own (`indented`) stands in
for it on concrete values.
-/

namespace Rettp

/-- What serialization makes of a value; fields keep the order of their declaration. -/
inductive Serialized where
  | null
  | number (n : Nat)
  | string (value : String)
  | array (items : List Serialized)
  | struct (fields : List (String × Serialized))

namespace Serialized

/-- An option is its value, or `null`. -/
def optional {α : Type} (serialize : α → Serialized) : Option α → Serialized
  | none => null
  | some value => serialize value

/-- Items on lines of their own, between two brackets. -/
def lines (indent first last : String) (items : List String) : String :=
  if items.isEmpty then first ++ last
  else first ++ String.intercalate "," (items.map fun item => "\n" ++ indent ++ "  " ++ item) ++
    "\n" ++ indent ++ last

mutual

/-- A printer, for a function that writes string literals. -/
def indented (quote : String → String) (indent : String) : Serialized → String
  | null => "null"
  | number n => toString n
  | string value => quote value
  | array items => lines indent "[" "]" (indentedItems quote (indent ++ "  ") items)
  | struct fields => lines indent "\x7b" "\x7d" (indentedFields quote (indent ++ "  ") fields)

/-- The items of an array. -/
def indentedItems (quote : String → String) (indent : String) : List Serialized → List String
  | [] => []
  | item :: items => indented quote indent item :: indentedItems quote indent items

/-- The fields of a struct, each with its name. -/
def indentedFields (quote : String → String) (indent : String) :
    List (String × Serialized) → List String
  | [] => []
  | (key, value) :: fields =>
    (quote key ++ ": " ++ indented quote indent value) :: indentedFields quote indent fields

end

end Serialized

end Rettp
