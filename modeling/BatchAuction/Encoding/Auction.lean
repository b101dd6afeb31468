import BatchAuction.Auction.Basic
import BatchAuction.Encoding.Clearing

/-!
# JSON forms of configurations and snapshots

A field that a configuration lacks gets its standard value. A configuration text is accepted if it
can be read and is valid.
-/

namespace BatchAuction

open Json (record fields required nullable ofOption withDefault)

instance : JsonCodec Snapshot where
  encode s :=
    record
      [("phase", encode s.phase), ("caps", ofOption s.caps),
       ("clearing_tick", ofOption s.clearingTick), ("price_found", encode s.priceFound)]
  decode j := do
    match ← fields ["phase", "caps", "clearing_tick", "price_found"] j with
    | [phase, caps, clearingTick, priceFound] =>
      return ⟨← required phase, ← nullable caps, ← nullable clearingTick, ← required priceFound⟩
    | _ => none

instance : JsonCodec Config where
  encode c :=
    record
      [("escrow_account", encode c.escrow), ("proceeds_account", encode c.proceeds),
       ("max_events", encode c.maxEvents)]
  decode j := do
    match ← Json.fieldsFrom 0 ["escrow_account", "proceeds_account", "max_events"] j with
    | [escrow, proceeds, maxEvents] =>
      return ⟨← withDefault Config.standard.escrow escrow,
        ← withDefault Config.standard.proceeds proceeds,
        ← withDefault Config.standard.maxEvents maxEvents⟩
    | _ => none

/-- Why a text is not a usable configuration. -/
inductive ConfigTextError
  /-- It is not the JSON form of a configuration. -/
  | unreadable
  /-- The configuration is not valid. -/
  | invalid (error : ConfigError)
deriving DecidableEq, Repr

/-- The valid configuration that a text spells. -/
def Config.ofText (text : String) : Except ConfigTextError Config :=
  match (Json.read text : Option Config) with
  | none => .error .unreadable
  | some config =>
    match config.validate with
    | .error e => .error (.invalid e)
    | .ok () => .ok config

end BatchAuction
