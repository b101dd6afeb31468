import BatchAuction.Clearing.Commitment
import BatchAuction.Encoding.Scalars

/-!
# JSON forms of caps, clearing results and commitments
-/

namespace BatchAuction

open Json (record fields required nullable ofOption)

instance : JsonCodec Caps where
  encode c := record [("base_cap", encode c.base), ("scarce_cap", encode c.scarce)]
  decode j := do
    match ← fields ["base_cap", "scarce_cap"] j with
    | [base, scarce] => return ⟨← required base, ← required scarce⟩
    | _ => none

instance : JsonCodec Totals where
  encode t := record [("base", encode t.base), ("scarce", encode t.scarce)]
  decode j := do
    match ← fields ["base", "scarce"] j with
    | [base, scarce] => return ⟨← required base, ← required scarce⟩
    | _ => none

instance : JsonCodec ClearingResult where
  encode r :=
    record
      [("price_found", encode r.priceFound), ("clearing_tick", ofOption r.clearingTick),
       ("base_above", encode r.baseAbove), ("scarce_above", encode r.scarceAbove)]
  decode j := do
    match ← fields ["price_found", "clearing_tick", "base_above", "scarce_above"] j with
    | [priceFound, clearingTick, baseAbove, scarceAbove] =>
      return ⟨← required priceFound, ← nullable clearingTick, ← required baseAbove,
        ← required scarceAbove⟩
    | _ => none

instance : JsonCodec FillRatio where
  encode r := record [("filled_scarce", encode r.filled), ("bucket_scarce", encode r.bucket)]
  decode j := do
    match ← fields ["filled_scarce", "bucket_scarce"] j with
    | [filled, bucket] => return ⟨← required filled, ← required bucket⟩
    | _ => none

instance : JsonCodec Surplus where
  encode s := record [("floor", encode s.floor), ("fill", encode s.fill)]
  decode j := do
    match ← fields ["floor", "fill"] j with
    | [floor, fill] => return ⟨← required floor, ← required fill⟩
    | _ => none

instance : JsonCodec Commitment where
  encode c :=
    record
      [("tick", encode c.tick), ("price", encode c.price), ("price_found", encode c.priceFound),
       ("base_above", encode c.baseAbove), ("scarce_above", encode c.scarceAbove),
       ("bucket", encode c.bucket), ("fill", encode c.fill), ("surplus", encode c.surplus)]
  decode j := do
    match ← fields ["tick", "price", "price_found", "base_above", "scarce_above", "bucket", "fill",
        "surplus"] j with
    | [tick, price, priceFound, baseAbove, scarceAbove, bucket, fill, surplus] =>
      return ⟨← required tick, ← required price, ← required priceFound, ← required baseAbove,
        ← required scarceAbove, ← required bucket, ← required fill, ← required surplus⟩
    | _ => none

end BatchAuction
