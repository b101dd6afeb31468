import BatchAuction.Json.Lexer
import BatchAuction.Json.Value

/-!
# Reading JSON

`Json.parse` reads a text of one value. Tokens are taken one by one; the arrays and objects that are
still open stand on a stack, so a text may be nested to any depth. A text that does not
follow the grammar of JSON has no value.
-/

namespace BatchAuction

namespace Json

/-- A container that is still open; what it holds stands last first. -/
inductive Frame
  /-- An array. -/
  | array (items : List Json)
  /-- An object that waits for the value of a key. -/
  | object (members : List (List Char × Json)) (key : List Char)

/-- What the grammar expects next. -/
inductive Focus
  /-- A value. -/
  | value
  /-- The first item of an array, or its end. -/
  | firstItem
  /-- The first key of an object, or its end. -/
  | firstKey
  /-- A further key of an object. -/
  | key (members : List (List Char × Json))
  /-- The colon after a key. -/
  | colon (members : List (List Char × Json)) (key : List Char)
  /-- Whatever may follow a value that has just ended. -/
  | after (value : Json)

/-- The state of the parser. -/
structure ParseState where
  /-- What is expected. -/
  focus : Focus
  /-- The open containers, innermost first. -/
  stack : List Frame

namespace ParseState

/-- Nothing has been read. -/
def start : ParseState := ⟨.value, []⟩

/-- The state after a token that begins a value. -/
def stepValue (stack : List Frame) : Token → Option ParseState
  | .null => some ⟨.after .null, stack⟩
  | .bool value => some ⟨.after (.bool value), stack⟩
  | .number literal => some ⟨.after (.number literal), stack⟩
  | .string raw => some ⟨.after (.string raw), stack⟩
  | .openArray => some ⟨.firstItem, .array [] :: stack⟩
  | .openObject => some ⟨.firstKey, stack⟩
  | _ => none

/-- The state after a token that follows a value, by the innermost container. -/
def stepAfter (value : Json) : List Frame → Token → Option ParseState
  | .array items :: stack, .comma => some ⟨.value, .array (value :: items) :: stack⟩
  | .array items :: stack, .closeArray =>
    some ⟨.after (.array (value :: items).reverse), stack⟩
  | .object members key :: stack, .comma => some ⟨.key ((key, value) :: members), stack⟩
  | .object members key :: stack, .closeObject =>
    some ⟨.after (.object ((key, value) :: members).reverse), stack⟩
  | _, _ => none

/-- The state after one more token, if the grammar allows it. -/
def step (s : ParseState) (token : Token) : Option ParseState :=
  match s.focus with
  | .value => stepValue s.stack token
  | .firstItem =>
    match token, s.stack with
    | .closeArray, _ :: stack => some ⟨.after (.array []), stack⟩
    | token, stack => stepValue stack token
  | .firstKey =>
    match token with
    | .closeObject => some ⟨.after (.object []), s.stack⟩
    | .string key => some ⟨.colon [] key, s.stack⟩
    | _ => none
  | .key members =>
    match token with
    | .string key => some ⟨.colon members key, s.stack⟩
    | _ => none
  | .colon members key =>
    match token with
    | .colon => some ⟨.value, .object members key :: s.stack⟩
    | _ => none
  | .after value => stepAfter value s.stack token

/-- The state after some tokens. -/
def run : ParseState → List Token → Option ParseState
  | s, [] => some s
  | s, token :: tokens =>
    match s.step token with
    | none => none
    | some s => run s tokens

/-- The value of a text that ends here, if it may. -/
def finish (s : ParseState) : Option Json :=
  match s.focus, s.stack with
  | .after value, [] => some value
  | _, _ => none

end ParseState

/-- The value that some tokens spell. -/
def ofTokens (tokens : List Token) : Option Json :=
  (ParseState.start.run tokens).bind ParseState.finish

/-- The value of a text. -/
def parse (text : String) : Option Json := (lex text.toList).bind ofTokens

end Json

end BatchAuction
