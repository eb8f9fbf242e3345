import BlockStack.Flatten
import BlockStack.Http
import BlockStack.Main
import BlockStack.Wire.Config
import BlockStack.Wire.Event
import BlockStack.Wire.State
import BlockStack.Proofs.DepthFirst
import BlockStack.Proofs.LastReport
import BlockStack.Proofs.Persistence
import BlockStack.Proofs.Authority
import BlockStack.Proofs.Addressing
import BlockStack.Proofs.Verdict
import BlockStack.Proofs.Effects
import BlockStack.Proofs.Representation
import BlockStack.Proofs.OrderIndependence
import BlockStack.Proofs.Accounting
import BlockStack.Proofs.Suffixes
import BlockStack.Proofs.Arena
import BlockStack.Proofs.Naming
import BlockStack.Proofs.Pools
import BlockStack.Proofs.StoreCalls
import BlockStack.Proofs.WireReport
import BlockStack.Proofs.InboxRounds
import BlockStack.Proofs.Coverage
import BlockStack.Proofs.Summary
import BlockStack.Proofs.FactsNeeded
import BlockStack.Proofs.Levels
import BlockStack.Proofs.Leftovers
import BlockStack.Proofs.Tolerance
import BlockStack.Proofs.Decoding
import BlockStack.Proofs.Refreshing
import BlockStack.Proofs.OwnFiles
