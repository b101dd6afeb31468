import BatchAuction.Account

/-!
# Auction configuration

Which accounts hold the escrow and the proceeds, and how many events are retained. A configuration
is valid if the two accounts differ and at least one event is retained.
-/

namespace BatchAuction

/-- The settings of an auction that are fixed before it starts. -/
@[ext]
structure Config where
  /-- The account that holds the base of all active bids. -/
  escrow : Account
  /-- The account that gets the base kept from paid bids. -/
  proceeds : Account
  /-- The most events retained. -/
  maxEvents : Nat
deriving DecidableEq, Repr

/-- Why a configuration is not valid. -/
inductive ConfigError
  /-- Escrow and proceeds are one account. -/
  | sharedAccount (account : Account)
  /-- No event would be retained. -/
  | noEventRetention
deriving DecidableEq, Repr

/-- The wording of a configuration error. -/
def ConfigError.message : ConfigError → String
  | .sharedAccount account =>
    s!"escrow and proceeds must be different accounts, both are {account}"
  | .noEventRetention => "max_events must be positive"

namespace Config

/-- The settings used if none are given: the two highest accounts, and 100000 events. -/
def standard : Config :=
  ⟨⟨0xffffffffffffffff, by decide⟩, ⟨0xfffffffffffffffe, by decide⟩, 100000⟩

/-- The standard settings with a small event window. -/
def compact : Config := { standard with maxEvents := 1000 }

/-- The standard settings with other accounts. -/
def withAccounts (escrow proceeds : Account) : Config := { standard with escrow, proceeds }

/-- Refuses a configuration that is not valid; the accounts are looked at first. -/
def validate (c : Config) : Except ConfigError Unit :=
  if c.escrow = c.proceeds then .error (.sharedAccount c.escrow)
  else if c.maxEvents = 0 then .error .noEventRetention
  else .ok ()

/-- A configuration is valid exactly if its two accounts differ and the log may keep an event. -/
theorem validate_eq_ok_iff {c : Config} :
    c.validate = .ok () ↔ c.escrow ≠ c.proceeds ∧ c.maxEvents ≠ 0 := by
  unfold validate
  split
  · simp_all
  · split <;> simp_all

end Config

end BatchAuction
