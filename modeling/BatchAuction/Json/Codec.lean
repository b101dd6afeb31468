import BatchAuction.Json.Parser
import BatchAuction.Json.Scalar

/-!
# Encoding values as JSON

`JsonCodec α` writes values of `α` as JSON and reads them back. Records are written as objects with
their fields in a fixed order. They are read from objects with the fields in any order
(`Json.fields`), where unknown fields do not matter and a known field must not be repeated, or from
arrays of the fields in order.
-/

namespace BatchAuction

/-- A JSON form of a type. -/
class JsonCodec (α : Type) where
  /-- Writes a value. -/
  encode : α → Json
  /-- Reads a value. -/
  decode : Json → Option α

export JsonCodec (encode decode)

namespace Json

/-- The compact text of the JSON form of a value. -/
def textOf {α : Type} [JsonCodec α] (a : α) : String := (encode a).render

/-- The value whose JSON form a text spells. -/
def read {α : Type} [JsonCodec α] (text : String) : Option α := (parse text).bind decode

/-! ## Strings -/

/-- A string without characters that need an escape. -/
def plain (s : String) : Json := .string s.toList

/-- The name of a choice without data: a string, or an object with that one name and no value. -/
def choice? : Json → Option String
  | .string raw => unescape raw
  | .object [(raw, .null)] => unescape raw
  | _ => none

/-- The literal of a number. -/
def literal? : Json → Option (List Char)
  | .number literal => some literal
  | _ => none

/-! ## Records -/

/-- An object of named values. -/
def record (fields : List (String × Json)) : Json :=
  .object (fields.map fun field => (field.1.toList, field.2))

/-- The members of an object with their keys resolved. -/
def namedMembers (members : List (List Char × Json)) : Option (List (String × Json)) :=
  members.mapM fun member => (unescape member.1).map fun key => (key, member.2)

/-- The value of a field: `none` if the field is repeated, `some none` if it is missing. -/
def field? (members : List (String × Json)) (name : String) : Option (Option Json) :=
  match members.filter fun member => member.1 = name with
  | [] => some none
  | [member] => some (some member.2)
  | _ => none

/-- The values of the named fields in order, from an object or from an array that has at least the
first `atLeast` of them. -/
def fieldsFrom (atLeast : Nat) (names : List String) : Json → Option (List (Option Json))
  | .object members => do
    let members ← namedMembers members
    names.mapM (field? members)
  | .array items =>
    if atLeast ≤ items.length ∧ items.length ≤ names.length then
      some (items.map some ++ List.replicate (names.length - items.length) none)
    else none
  | _ => none

/-- The values of the named fields in order, from an object or from an array of all of them. -/
def fields (names : List String) (j : Json) : Option (List (Option Json)) :=
  fieldsFrom names.length names j

/-- The value of a field that must not be missing. -/
def required {α : Type} [JsonCodec α] (field : Option Json) : Option α := field.bind decode

/-- The value of a field that may be missing or null. -/
def nullable {α : Type} [JsonCodec α] : Option Json → Option (Option α)
  | none => some none
  | some .null => some none
  | some j => (decode j).map some

/-- The value of a field that has a default. -/
def withDefault {α : Type} [JsonCodec α] (default : α) : Option Json → Option α
  | none => some default
  | some j => decode j

/-- A value that may be missing. -/
def ofOption {α : Type} [JsonCodec α] : Option α → Json
  | none => .null
  | some a => encode a

end Json

/-! ## Types of the language -/

instance : JsonCodec Bool where
  encode := .bool
  decode
    | .bool value => some value
    | _ => none

/-- Natural numbers are read up to 64 bits. -/
instance : JsonCodec Nat where
  encode n := .number (Json.naturalLiteral n)
  decode j := do
    match ← Json.integer? (← j.literal?) with
    | .ofNat n => if n < 0x10000000000000000 then some n else none
    | .negSucc _ => none

instance {α : Type} [JsonCodec α] : JsonCodec (List α) where
  encode items := .array (items.map encode)
  decode
    | .array items => items.mapM decode
    | _ => none

end BatchAuction
