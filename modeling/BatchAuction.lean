import BatchAuction.Account
import BatchAuction.Amount.Basic
import BatchAuction.Amount.Checked
import BatchAuction.Amount.Decimal
import BatchAuction.Auction.Basic
import BatchAuction.Auction.Bidding
import BatchAuction.Auction.Command
import BatchAuction.Auction.Config
import BatchAuction.Auction.Error
import BatchAuction.Auction.Lifecycle
import BatchAuction.Auction.Settling
import BatchAuction.Audit.Event
import BatchAuction.Audit.Log
import BatchAuction.Audit.Replay
import BatchAuction.Book.Basic
import BatchAuction.Book.Bid
import BatchAuction.Book.Bucket
import BatchAuction.Clearing.Commitment
import BatchAuction.Clearing.Fill
import BatchAuction.Clearing.Scan
import BatchAuction.Clearing.Totals
import BatchAuction.Clearing.Upside
import BatchAuction.Encoding.Auction
import BatchAuction.Encoding.Book
import BatchAuction.Encoding.Clearing
import BatchAuction.Encoding.Event
import BatchAuction.Encoding.Ledger
import BatchAuction.Encoding.Payout
import BatchAuction.Encoding.Scalars
import BatchAuction.Json.Codec
import BatchAuction.Json.DoubleRange
import BatchAuction.Json.Lexer
import BatchAuction.Json.Parser
import BatchAuction.Json.Scalar
import BatchAuction.Json.Token
import BatchAuction.Json.Value
import BatchAuction.Ledger.Basic
import BatchAuction.Ledger.Guarded
import BatchAuction.Ledger.Memory
import BatchAuction.Main
import BatchAuction.Payout.Amounts
import BatchAuction.Payout.Report
import BatchAuction.Proofs.Amount.Numeral
import BatchAuction.Proofs.Amount.Result
import BatchAuction.Proofs.Auction.Accounting
import BatchAuction.Proofs.Auction.AnyOrder
import BatchAuction.Proofs.Auction.Backing
import BatchAuction.Proofs.Auction.BidTerms
import BatchAuction.Proofs.Auction.CapSafety
import BatchAuction.Proofs.Auction.Escrow
import BatchAuction.Proofs.Auction.Faults
import BatchAuction.Proofs.Auction.History
import BatchAuction.Proofs.Auction.IntakeBound
import BatchAuction.Proofs.Auction.LedgerFree
import BatchAuction.Proofs.Auction.LosingBids
import BatchAuction.Proofs.Auction.Money
import BatchAuction.Proofs.Auction.Obstacles
import BatchAuction.Proofs.Auction.OrderFree
import BatchAuction.Proofs.Auction.Outcome
import BatchAuction.Proofs.Auction.PaidOnce
import BatchAuction.Proofs.Auction.Plan
import BatchAuction.Proofs.Auction.Preview
import BatchAuction.Proofs.Auction.Refusal
import BatchAuction.Proofs.Auction.Replay
import BatchAuction.Proofs.Auction.Retry
import BatchAuction.Proofs.Auction.Sound
import BatchAuction.Proofs.Auction.UpsideSplit
import BatchAuction.Proofs.Auction.Window
import BatchAuction.Proofs.Auction.WriteOnce
import BatchAuction.Proofs.Book.Bids
import BatchAuction.Proofs.Book.Closing
import BatchAuction.Proofs.Book.Log
import BatchAuction.Proofs.Book.Views
import BatchAuction.Proofs.Clearing.Certain
import BatchAuction.Proofs.Clearing.Commitment
import BatchAuction.Proofs.Clearing.Offer
import BatchAuction.Proofs.Clearing.Scan
import BatchAuction.Proofs.Clearing.Standing
import BatchAuction.Proofs.Clearing.Surplus
import BatchAuction.Proofs.Encoding.Maps
import BatchAuction.Proofs.Encoding.Records
import BatchAuction.Proofs.Encoding.RoundTrip
import BatchAuction.Proofs.Json.Literals
import BatchAuction.Proofs.Json.Reading
import BatchAuction.Proofs.Ledger.Balance
import BatchAuction.Proofs.Ledger.Bisimulation
import BatchAuction.Proofs.Ledger.DoubleEntry
import BatchAuction.Proofs.Ledger.Rollback
import BatchAuction.Proofs.Ledger.Total
import BatchAuction.Proofs.Payout.Amounts
import BatchAuction.Proofs.Payout.Caps
import BatchAuction.Proofs.Payout.Rationing
import BatchAuction.Proofs.Payout.Terms
import BatchAuction.Proofs.Payout.TopDown
import BatchAuction.Proofs.Tick.Accuracy
import BatchAuction.Proofs.Tick.Deviation
import BatchAuction.Proofs.Tick.Nearest
import BatchAuction.Proofs.Tick.Order
import BatchAuction.Proofs.Tick.Power
import BatchAuction.Proofs.Tick.Rendering
import BatchAuction.Simulation
import BatchAuction.SortedMap
import BatchAuction.Tick.Basic
import BatchAuction.Tick.Nearest
import BatchAuction.Tick.Price
import BatchAuction.Tick.PriceText
import BatchAuction.Timestamp
