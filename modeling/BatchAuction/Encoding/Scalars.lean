import BatchAuction.Account
import BatchAuction.Auction.Error
import BatchAuction.Json.Codec
import BatchAuction.Tick.Price
import BatchAuction.Timestamp

/-!
# JSON forms of amounts, ticks, accounts and names

Amounts and prices are written in lower-case hexadecimal without leading zeros. They are read from
integers of 64 bits and from strings of digits in base 10, 16, 8 or 2, where underscores do not
count and no digits mean zero. Ticks, accounts and timestamps are integers.
-/

namespace BatchAuction

namespace Amount

/-- The number of some digits after a number; underscores are skipped. -/
def digitsFrom (base : Nat) (n : Nat) : List Char → Option Nat
  | [] => some n
  | c :: cs =>
    if c = '_' then digitsFrom base n cs
    else
      match Json.digitValue c with
      | none => none
      | some d => if d < base then digitsFrom base (n * base + d) cs else none

/-- The base of a text and its digits. -/
def splitBase : List Char → Nat × List Char
  | '0' :: 'x' :: digits => (16, digits)
  | '0' :: 'X' :: digits => (16, digits)
  | '0' :: 'o' :: digits => (8, digits)
  | '0' :: 'O' :: digits => (8, digits)
  | '0' :: 'b' :: digits => (2, digits)
  | '0' :: 'B' :: digits => (2, digits)
  | digits => (10, digits)

/-- The amount of a text. -/
def ofText? (text : List Char) : Option Amount :=
  (digitsFrom (splitBase text).1 0 (splitBase text).2).bind ofNat?

/-- The hexadecimal text of an amount. -/
def hex (a : Amount) : List Char := '0' :: 'x' :: Nat.toDigits 16 a.toNat

end Amount

instance : JsonCodec Amount where
  encode a := .string a.hex
  decode
    | .number literal =>
      match Json.integer? literal with
      | some (.ofNat n) => if n < 0x10000000000000000 then Amount.ofNat? n else none
      | _ => none
    | .string raw => (Json.unescape raw).bind fun s => Amount.ofText? s.toList
    | _ => none

instance : JsonCodec Price where
  encode p := encode p.raw
  decode j := (decode j).map Price.mk

instance : JsonCodec Tick where
  encode t := .number (Json.integerLiteral t.index)
  decode j := do Tick.ofInt? (← Json.integer? (← j.literal?))

instance : JsonCodec Timestamp where
  encode t := .number (Json.integerLiteral t.millis)
  decode j := do Timestamp.ofInt? (← Json.integer? (← j.literal?))

instance : JsonCodec Account where
  encode a := .number (Json.naturalLiteral a.number)
  decode j := do Account.ofNat? (← decode j)

/-- The name of an asset in JSON. -/
def Asset.key : Asset → String
  | .base => "base"
  | .scarce => "scarce"

/-- The asset of a name in JSON. -/
def Asset.ofKey? (key : String) : Option Asset :=
  [Asset.base, Asset.scarce].find? fun asset => asset.key = key

instance : JsonCodec Asset where
  encode asset := Json.plain asset.key
  decode j := j.choice?.bind Asset.ofKey?

/-- The phase of a written name. -/
def Phase.ofName? (name : String) : Option Phase :=
  [Phase.notStarted, Phase.bidding, Phase.finalized].find? fun phase => phase.name = name

instance : JsonCodec Phase where
  encode phase := Json.plain phase.name
  decode j := j.choice?.bind Phase.ofName?

end BatchAuction
