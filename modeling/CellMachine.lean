import CellMachine.Image.Source
import CellMachine.Machine.Stepper
import CellMachine.Main
import CellMachine.Proofs.Assembly.Feed
import CellMachine.Proofs.Assembly.Increment
import CellMachine.Proofs.Assembly.Inlining
import CellMachine.Proofs.Assembly.Relisting
import CellMachine.Proofs.Assembly.Resolution
import CellMachine.Proofs.Assembly.Restoring
import CellMachine.Proofs.Assembly.Termination
import CellMachine.Proofs.Binding
import CellMachine.Proofs.Container.RoundTrip
import CellMachine.Proofs.Image.Alias
import CellMachine.Proofs.Image.Places
import CellMachine.Proofs.Instruction.Inverse
import CellMachine.Proofs.Library.Loading
import CellMachine.Proofs.Machine.Access
import CellMachine.Proofs.Machine.Arithmetic
import CellMachine.Proofs.Machine.Budget
import CellMachine.Proofs.Machine.CallFrame
import CellMachine.Proofs.Machine.Capacity
import CellMachine.Proofs.Machine.Discipline
import CellMachine.Proofs.Machine.Fault
import CellMachine.Proofs.Machine.Folding
import CellMachine.Proofs.Machine.Growth
import CellMachine.Proofs.Machine.Heap
import CellMachine.Proofs.Machine.Locals
import CellMachine.Proofs.Machine.Lookup
import CellMachine.Proofs.Machine.Pointer
import CellMachine.Proofs.Machine.Requests
import CellMachine.Proofs.Machine.Safety
import CellMachine.Proofs.Machine.Stepper
import CellMachine.Proofs.Machine.TypeFault
import CellMachine.Proofs.Token.Layout
import CellMachine.Proofs.Token.Recovery
