import Holdings.Command.Files
import Holdings.Main
import Holdings.Proofs.Session.Dust
import Holdings.Proofs.Session.Reconciliation
import Holdings.Proofs.Session.Refusal
import Holdings.Quantity.Exact
import Holdings.Proofs.Account.Standing
import Holdings.Proofs.Account.Arming
import Holdings.Proofs.Account.Locality
import Holdings.Proofs.Session.Isolation
import Holdings.Proofs.PartialFill
import Holdings.Proofs.Account.Treatment
import Holdings.Proofs.Session.OnePrice
import Holdings.Proofs.Session.GapRule
import Holdings.Proofs.Session.Protection
import Holdings.Proofs.Form.RoundTrip
import Holdings.Proofs.Account.Normalisation
import Holdings.Proofs.Session.Strictness
import Holdings.Proofs.Order.Sequence
import Holdings.Proofs.Account.InPlace
import Holdings.Proofs.Command.Replay
import Holdings.Proofs.Account.Carrying
import Holdings.Proofs.Order.Lifecycle
import Holdings.Proofs.Session.Path
import Holdings.Proofs.Exit.Watch
import Holdings.Proofs.Exit.Orders
import Holdings.Proofs.Account.Ticks
import Holdings.Proofs.Account.Acceptance
import Holdings.Proofs.Account.Split
import Holdings.Proofs.Settlement.Entries
import Holdings.Proofs.Order.StopFill
import Holdings.Proofs.Instrument.Projection
import Holdings.Proofs.Account.Charge
import Holdings.Proofs.Account.Sweep
import Holdings.Proofs.Account.ExitOrders
import Holdings.Proofs.Lot.Projection
import Holdings.Proofs.Division
