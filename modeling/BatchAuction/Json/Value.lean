import BatchAuction.Json.Token

/-!
# JSON values

`Json` is the tree of a JSON text. Strings, keys and numbers stay as written, and the members of an
object stay in order with their repetitions; what they mean is decided by who reads the value.
`Json.render` writes a value without white space.
-/

namespace BatchAuction

/-- A JSON value with its strings and numbers as written. -/
inductive Json
  /-- The missing value. -/
  | null
  /-- A truth value. -/
  | bool (value : Bool)
  /-- A number literal. -/
  | number (literal : List Char)
  /-- A string as written between its quotes. -/
  | string (raw : List Char)
  /-- A list of values. -/
  | array (items : List Json)
  /-- A list of named values. -/
  | object (members : List (List Char × Json))

namespace Json

/-- The tokens of one member of an object. -/
def memberTokens (key : List Char) (value : List Token) : List Token :=
  .string key :: .colon :: value

mutual

/-- The tokens of a value. -/
def tokens : Json → List Token
  | .null => [.null]
  | .bool value => [.bool value]
  | .number literal => [.number literal]
  | .string raw => [.string raw]
  | .array items => .openArray :: (itemTokens items ++ [.closeArray])
  | .object members => .openObject :: (membersTokens members ++ [.closeObject])

/-- The tokens between the brackets of an array. -/
def itemTokens : List Json → List Token
  | [] => []
  | [item] => tokens item
  | item :: next :: items => tokens item ++ .comma :: itemTokens (next :: items)

/-- The tokens between the brackets of an object. -/
def membersTokens : List (List Char × Json) → List Token
  | [] => []
  | [(key, value)] => memberTokens key (tokens value)
  | (key, value) :: next :: members =>
    memberTokens key (tokens value) ++ .comma :: membersTokens (next :: members)

end

/-- The compact text of a value. -/
def render (j : Json) : String := String.ofList (j.tokens.flatMap Token.text)

end Json

end BatchAuction
