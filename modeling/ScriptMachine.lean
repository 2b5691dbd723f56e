import ScriptMachine.Main
import ScriptMachine.Proofs.Machine.Safety
import ScriptMachine.Proofs.Invariant
import ScriptMachine.Proofs.Code.Pieces
import ScriptMachine.Proofs.StackStruct.Plain
import ScriptMachine.Proofs.Heap.Plain
import ScriptMachine.Proofs.Compiler.Units
import ScriptMachine.Proofs.Machine.Confined
import ScriptMachine.Proofs.Session.Confined
import ScriptMachine.Proofs.Heap.Collection
import ScriptMachine.Proofs.Compiler.Retaining
import ScriptMachine.Proofs.Compiler.Termination
import ScriptMachine.Proofs.Machine.Rest
import ScriptMachine.Proofs.Heap.Usage
import ScriptMachine.Proofs.Session.Faults
import ScriptMachine.Proofs.Session.Captures
import ScriptMachine.Proofs.Session.Interning
import ScriptMachine.Proofs.Session.Ownership
import ScriptMachine.Proofs.Session.Units
import ScriptMachine.Proofs.Syntax.AcceptDeclarations
import ScriptMachine.Proofs.Syntax.Language
import ScriptMachine.Proofs.Token.Sequence
import ScriptMachine.Proofs.Token.RoundTrip
import ScriptMachine.Proofs.Token.Places
import ScriptMachine.Proofs.Number.Nearest
import ScriptMachine.Proofs.Value.Rendering
import ScriptMachine.Proofs.Syntax.Printing
import ScriptMachine.Proofs.Machine.Accounts
import ScriptMachine.Proofs.Machine.Charges
import ScriptMachine.Proofs.Session.Accounting
import ScriptMachine.Proofs.Heap.Demand
import ScriptMachine.Proofs.Twins.Sessions
import ScriptMachine.Proofs.StackStruct.Edits
import ScriptMachine.Proofs.Machine.Promoted
import ScriptMachine.Proofs.StackStruct.Equality
import ScriptMachine.Proofs.StackStruct.Pruning
import ScriptMachine.Proofs.CommandLine.Usage
import ScriptMachine.Proofs.Source.Units
import ScriptMachine.Proofs.Source.Evaluation
import ScriptMachine.Proofs.Source.Records
