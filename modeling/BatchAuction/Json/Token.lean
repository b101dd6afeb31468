/-!
# JSON tokens

A JSON text is a sequence of tokens with white space between them. Strings and numbers are kept as
written: a string token holds the text between its quotes with all escapes in place, and a
number token its literal. `Token.text` writes a token back.
-/

namespace BatchAuction

namespace Json

/-- The smallest parts of a JSON text. -/
inductive Token
  /-- An opening square bracket. -/
  | openArray
  /-- A closing square bracket. -/
  | closeArray
  /-- An opening curly bracket. -/
  | openObject
  /-- A closing curly bracket. -/
  | closeObject
  /-- A colon. -/
  | colon
  /-- A comma. -/
  | comma
  /-- The word for the missing value. -/
  | null
  /-- One of the two words for a truth value. -/
  | bool (value : Bool)
  /-- A number literal. -/
  | number (literal : List Char)
  /-- What stands between the quotes of a string. -/
  | string (raw : List Char)
deriving DecidableEq, Repr

namespace Token

/-- The written form of a token. -/
def text : Token → List Char
  | .openArray => ['[']
  | .closeArray => [']']
  | .openObject => ['\x7b']
  | .closeObject => ['\x7d']
  | .colon => [':']
  | .comma => [',']
  | .null => ['n', 'u', 'l', 'l']
  | .bool true => ['t', 'r', 'u', 'e']
  | .bool false => ['f', 'a', 'l', 's', 'e']
  | .number literal => literal
  | .string raw => '"' :: (raw ++ ['"'])

end Token

end Json

end BatchAuction
