import BatchAuction.Json.Token

/-!
# Splitting a text into tokens

`Json.lex` reads a text character by character with a small state: between tokens, inside a string,
inside a number or inside a word. Each number is read as far as its grammar allows. A text
has tokens exactly if every string is closed, has no control character and only complete
escapes, every number is complete and every word is one of the three.
-/

namespace BatchAuction

namespace Json

/-- White space between tokens. -/
def isSpace (c : Char) : Bool := c = ' ' || c = '\t' || c = '\n' || c = '\r'

/-- A digit of a four-digit escape. -/
def isHexDigit (c : Char) : Bool :=
  c.isDigit || ('a' ≤ c && c ≤ 'f') || ('A' ≤ c && c ≤ 'F')

/-- A character that may follow a backslash, other than the one that begins a four-digit escape. -/
def isShortEscape (c : Char) : Bool :=
  ['"', '\\', '/', 'b', 'f', 'n', 'r', 't'].contains c

/-- How far a number literal has been read. -/
inductive NumberPart
  /-- A minus sign, and no digit yet. -/
  | minus
  /-- A leading zero, which no digit may follow. -/
  | zero
  /-- Digits before the point. -/
  | whole
  /-- The point, and no digit behind it yet. -/
  | point
  /-- Digits behind the point. -/
  | fraction
  /-- The mark of an exponent. -/
  | exponent
  /-- The sign of an exponent. -/
  | sign
  /-- Digits of an exponent. -/
  | power
deriving DecidableEq, Repr

namespace NumberPart

/-- The part that begins with a character. -/
def begin? (c : Char) : Option NumberPart :=
  if c = '-' then some .minus
  else if c = '0' then some .zero
  else if c.isDigit then some .whole
  else none

/-- The part after one more character, if the grammar allows it. -/
def next? (part : NumberPart) (c : Char) : Option NumberPart :=
  match part with
  | .minus => if c = '-' then none else begin? c
  | .zero =>
    if c = '.' then some .point
    else if c = 'e' ∨ c = 'E' then some .exponent
    else none
  | .whole =>
    if c.isDigit then some .whole
    else if c = '.' then some .point
    else if c = 'e' ∨ c = 'E' then some .exponent
    else none
  | .point => if c.isDigit then some .fraction else none
  | .fraction =>
    if c.isDigit then some .fraction
    else if c = 'e' ∨ c = 'E' then some .exponent
    else none
  | .exponent =>
    if c = '+' ∨ c = '-' then some .sign
    else if c.isDigit then some .power
    else none
  | .sign => if c.isDigit then some .power else none
  | .power => if c.isDigit then some .power else none

/-- The literal may end after this part. -/
def isComplete : NumberPart → Bool
  | .zero | .whole | .fraction | .power => true
  | .minus | .point | .exponent | .sign => false

end NumberPart

/-- What is being read; the characters of an unfinished token stand last first. -/
inductive LexMode
  /-- Nothing. -/
  | between
  /-- A string. -/
  | string (seen : List Char)
  /-- A string, after a backslash. -/
  | escape (seen : List Char)
  /-- A four-digit escape with some digits to come. -/
  | hex (missing : Nat) (seen : List Char)
  /-- A number. -/
  | number (part : NumberPart) (seen : List Char)
  /-- A word with some letters to come, and its token. -/
  | word (missing : List Char) (token : Token)
deriving DecidableEq, Repr

/-- The state of the lexer. -/
structure LexState where
  /-- What is being read. -/
  mode : LexMode
  /-- The tokens read so far, last first. -/
  tokens : List Token
deriving DecidableEq, Repr

namespace LexState

/-- Nothing has been read. -/
def start : LexState := ⟨.between, []⟩

/-- Adds a token. -/
def emit (s : LexState) (token : Token) : LexState := ⟨.between, token :: s.tokens⟩

/-- The state after a character that begins a token or separates tokens. -/
def stepBetween (tokens : List Token) (c : Char) : Option LexState :=
  if isSpace c then some ⟨.between, tokens⟩
  else if c = '[' then some ⟨.between, .openArray :: tokens⟩
  else if c = ']' then some ⟨.between, .closeArray :: tokens⟩
  else if c = '\x7b' then some ⟨.between, .openObject :: tokens⟩
  else if c = '\x7d' then some ⟨.between, .closeObject :: tokens⟩
  else if c = ':' then some ⟨.between, .colon :: tokens⟩
  else if c = ',' then some ⟨.between, .comma :: tokens⟩
  else if c = '"' then some ⟨.string [], tokens⟩
  else if c = 'n' then some ⟨.word ['u', 'l', 'l'] .null, tokens⟩
  else if c = 't' then some ⟨.word ['r', 'u', 'e'] (.bool true), tokens⟩
  else if c = 'f' then some ⟨.word ['a', 'l', 's', 'e'] (.bool false), tokens⟩
  else (NumberPart.begin? c).map fun part => ⟨.number part [c], tokens⟩

/-- The state after one more character, if the text can go on like that. -/
def step (s : LexState) (c : Char) : Option LexState :=
  match s.mode with
  | .between => stepBetween s.tokens c
  | .string seen =>
    if c = '"' then some (s.emit (.string seen.reverse))
    else if c = '\\' then some ⟨.escape (c :: seen), s.tokens⟩
    else if c.toNat < 32 then none
    else some ⟨.string (c :: seen), s.tokens⟩
  | .escape seen =>
    if isShortEscape c then some ⟨.string (c :: seen), s.tokens⟩
    else if c = 'u' then some ⟨.hex 3 (c :: seen), s.tokens⟩
    else none
  | .hex missing seen =>
    if isHexDigit c then
      match missing with
      | 0 => some ⟨.string (c :: seen), s.tokens⟩
      | missing + 1 => some ⟨.hex missing (c :: seen), s.tokens⟩
    else none
  | .number part seen =>
    match part.next? c with
    | some part => some ⟨.number part (c :: seen), s.tokens⟩
    | none =>
      if part.isComplete then stepBetween (.number seen.reverse :: s.tokens) c else none
  | .word missing token =>
    match missing with
    | [] => none
    | [d] => if c = d then some (s.emit token) else none
    | d :: missing => if c = d then some ⟨.word missing token, s.tokens⟩ else none

/-- The state after some characters. -/
def run : LexState → List Char → Option LexState
  | s, [] => some s
  | s, c :: cs =>
    match s.step c with
    | none => none
    | some s => run s cs

/-- The tokens of a text that ends here, if it may. -/
def finish (s : LexState) : Option (List Token) :=
  match s.mode with
  | .between => some s.tokens.reverse
  | .number part seen =>
    if part.isComplete then some (.number seen.reverse :: s.tokens).reverse else none
  | _ => none

end LexState

/-- The tokens of a text. -/
def lex (text : List Char) : Option (List Token) :=
  (LexState.start.run text).bind LexState.finish

end Json

end BatchAuction
