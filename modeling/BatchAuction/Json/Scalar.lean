import BatchAuction.Json.Value

/-!
# What strings and numbers mean

`Json.unescape` resolves the escapes of a string; a four-digit escape that is half of a surrogate
pair without its other half has no meaning. `Json.integer?` reads an integer literal: a minus
sign, no leading zero, no point, no exponent, and no negative zero.
-/

namespace BatchAuction

namespace Json

/-- The value of a digit in a base up to 36; letters of either case follow the ten digits. -/
def digitValue (c : Char) : Option Nat :=
  if c.isDigit then some (c.toNat - 48)
  else if 'a' ≤ c ∧ c ≤ 'z' then some (c.toNat - 87)
  else if 'A' ≤ c ∧ c ≤ 'Z' then some (c.toNat - 55)
  else none

/-! ## Strings -/

/-- A resolved escape: a character, or half of a surrogate pair. -/
inductive Unit16
  /-- A character. -/
  | char (c : Char)
  /-- The first half of a pair, without its offset. -/
  | high (bits : Nat)
  /-- The second half of a pair, without its offset. -/
  | low (bits : Nat)
deriving DecidableEq, Repr

namespace Unit16

/-- The meaning of a 16-bit number. -/
def ofNat (n : Nat) : Unit16 :=
  if 0xD800 ≤ n ∧ n < 0xDC00 then .high (n - 0xD800)
  else if 0xDC00 ≤ n ∧ n < 0xE000 then .low (n - 0xDC00)
  else .char (Char.ofNat n)

/-- Joins the halves of pairs. -/
def join : List Unit16 → Option (List Char)
  | [] => some []
  | .char c :: rest => (join rest).map (c :: ·)
  | .high h :: .low l :: rest => (join rest).map (Char.ofNat (0x10000 + h * 0x400 + l) :: ·)
  | _ => none

end Unit16

/-- The character of a one-letter escape. -/
def shortEscape? (c : Char) : Option Char :=
  match c with
  | '"' => some '"'
  | '\\' => some '\\'
  | '/' => some '/'
  | 'b' => some '\x08'
  | 'f' => some '\x0c'
  | 'n' => some '\n'
  | 'r' => some '\r'
  | 't' => some '\t'
  | _ => none

/-- The number of four hexadecimal digits. -/
def fourDigits (a b c d : Char) : Option Nat := do
  let w ← digitValue a
  let x ← digitValue b
  let y ← digitValue c
  let z ← digitValue d
  if w < 16 ∧ x < 16 ∧ y < 16 ∧ z < 16 then some (((w * 16 + x) * 16 + y) * 16 + z) else none

/-- Resolves the escapes of a string one by one; `units` are those resolved so far, last first. -/
def unescapeFrom (units : List Unit16) : List Char → Option (List Unit16)
  | [] => some units.reverse
  | '\\' :: 'u' :: a :: b :: c :: d :: rest =>
    match fourDigits a b c d with
    | none => none
    | some n => unescapeFrom (.ofNat n :: units) rest
  | '\\' :: c :: rest =>
    match shortEscape? c with
    | none => none
    | some c => unescapeFrom (.char c :: units) rest
  | c :: rest => unescapeFrom (.char c :: units) rest

/-- The meaning of a string as written. -/
def unescape (raw : List Char) : Option String :=
  ((unescapeFrom [] raw).bind Unit16.join).map String.ofList

/-! ## Numbers -/

/-- The number of a digit sequence without leading zeros. -/
def natural? (digits : List Char) : Option Nat :=
  match digits with
  | [] => none
  | '0' :: _ :: _ => none
  | _ => if digits.all Char.isDigit then some (Nat.ofDigitChars 10 digits 0) else none

/-- The number of an integer literal. -/
def integer? (literal : List Char) : Option Int :=
  match literal with
  | '-' :: digits =>
    match natural? digits with
    | some (n + 1) => some (-(n + 1 : Nat))
    | _ => none
  | digits => (natural? digits).map Int.ofNat

/-- The literal of an integer. -/
def integerLiteral (i : Int) : List Char :=
  if i < 0 then '-' :: Nat.toDigits 10 i.natAbs else Nat.toDigits 10 i.natAbs

/-- The literal of a natural number. -/
def naturalLiteral (n : Nat) : List Char := Nat.toDigits 10 n

end Json

end BatchAuction
