import CommandScript.Main
import CommandScript.Host.Samples
import CommandScript.Arena.Machine
import CommandScript.Proofs.Linking
import CommandScript.Proofs.Totality
import CommandScript.Proofs.Simulation
import CommandScript.Proofs.Safety
import CommandScript.Proofs.History
import CommandScript.Proofs.Sites
import CommandScript.Proofs.Wholeness
import CommandScript.Proofs.Divergence
import CommandScript.Proofs.Spelling
import CommandScript.Proofs.Printing
import CommandScript.Proofs.Disassembly
import CommandScript.Proofs.Transfer
import CommandScript.Proofs.Noninterference
import CommandScript.Proofs.Composition
import CommandScript.Proofs.Artifact
import CommandScript.Proofs.Moves
import CommandScript.Proofs.Pragmas
import CommandScript.Proofs.Conservation
import CommandScript.Proofs.Gates
import CommandScript.Proofs.Offences
import CommandScript.Proofs.Joining
import CommandScript.Proofs.Keywords
import CommandScript.Proofs.Unclosed
import CommandScript.Proofs.Windows
import CommandScript.Proofs.Anchors
import CommandScript.Proofs.Termination
import CommandScript.Proofs.Coverage
import CommandScript.Proofs.Verbatim
import CommandScript.Proofs.Assembled
import CommandScript.Proofs.Framing
import CommandScript.Proofs.Progress
