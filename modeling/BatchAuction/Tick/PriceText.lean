import BatchAuction.Amount.Decimal
import BatchAuction.Tick.Price

/-!
# The written form of a price

A price is written as a decimal number without trailing zeros (`1.0001`) while its raw value has 96
bits, and as the raw value followed by `e-18` beyond that.
-/

namespace BatchAuction

namespace Price

/-- The price as a decimal number with 18 places, if its raw value has 96 bits. -/
def decimal? (p : Price) : Option Decimal := p.raw.decimal?

/-- The written form. -/
def text (p : Price) : String :=
  match p.decimal? with
  | some d => d.normalize.text
  | none => toString p.raw ++ "e-18"

instance : ToString Price := ⟨text⟩

end Price

end BatchAuction
