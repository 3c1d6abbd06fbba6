import CreditMachine.Text.Blank
import CreditMachine.Text.Cut
import CreditMachine.Value
import CreditMachine.Program.Image
import CreditMachine.Program.Assembly
import CreditMachine.Storage.Rack
import CreditMachine.Machine.Credits
import CreditMachine.Machine.Memory
import CreditMachine.Machine.State
import CreditMachine.Machine.Run
import CreditMachine.Session.Journal
import CreditMachine.Runner
import CreditMachine.Main
import CreditMachine.Proofs.Coherence
import CreditMachine.Proofs.Containers
import CreditMachine.Proofs.Images
import CreditMachine.Proofs.Atomicity
import CreditMachine.Proofs.Retry
import CreditMachine.Proofs.Metering
import CreditMachine.Proofs.Calls
import CreditMachine.Proofs.Executing
import CreditMachine.Proofs.ReadOnly
import CreditMachine.Proofs.Index
import CreditMachine.Proofs.Contracts
import CreditMachine.Proofs.Failures
import CreditMachine.Proofs.Recovery
import CreditMachine.Proofs.Termination
import CreditMachine.Proofs.Sharing
import CreditMachine.Proofs.ChangeSets
import CreditMachine.Proofs.Isolation
import CreditMachine.Proofs.Accesses
import CreditMachine.Proofs.Accounting
import CreditMachine.Proofs.Prefixes
import CreditMachine.Proofs.Reuse
import CreditMachine.Proofs.Voids
import CreditMachine.Proofs.Prices
import CreditMachine.Proofs.Messages
import CreditMachine.Proofs.Refusals
