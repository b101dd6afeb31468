import BatchAuction.Encoding.Book
import BatchAuction.Payout.Report

/-!
# JSON forms of payouts and reports
-/

namespace BatchAuction

open Json (record fields required)

instance : JsonCodec BidAmounts where
  encode a :=
    record
      [("filled_scarce", encode a.filledScarce), ("base_refund", encode a.baseRefund),
       ("base_cost", encode a.baseCost)]
  decode j := do
    match ← fields ["filled_scarce", "base_refund", "base_cost"] j with
    | [filledScarce, baseRefund, baseCost] =>
      return ⟨← required filledScarce, ← required baseRefund, ← required baseCost⟩
    | _ => none

instance : JsonCodec PayoutTotals where
  encode t :=
    record
      [("scarce_distributed", encode t.scarceDistributed),
       ("base_retained", encode t.baseRetained)]
  decode j := do
    match ← fields ["scarce_distributed", "base_retained"] j with
    | [scarceDistributed, baseRetained] =>
      return ⟨← required scarceDistributed, ← required baseRetained⟩
    | _ => none

instance : JsonCodec Payout where
  encode p :=
    record
      [("bid", encode p.bid), ("depositor", encode p.depositor), ("amounts", encode p.amounts)]
  decode j := do
    match ← fields ["bid", "depositor", "amounts"] j with
    | [bid, depositor, amounts] =>
      return ⟨← required bid, ← required depositor, ← required amounts⟩
    | _ => none

instance : JsonCodec PayoutReport where
  encode r :=
    record
      [("total_filled_scarce", encode r.totalFilledScarce),
       ("total_base_refund", encode r.totalBaseRefund),
       ("total_base_cost", encode r.totalBaseCost), ("bids", encode r.payouts)]
  decode j := do
    match ← fields ["total_filled_scarce", "total_base_refund", "total_base_cost", "bids"] j with
    | [filledScarce, baseRefund, baseCost, payouts] =>
      return ⟨← required filledScarce, ← required baseRefund, ← required baseCost,
        ← required payouts⟩
    | _ => none

end BatchAuction
