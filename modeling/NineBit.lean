import NineBit.Main
import NineBit.Proofs.Agreement
import NineBit.Proofs.Asm.Outcome
import NineBit.Proofs.Asm.Renaming
import NineBit.Proofs.Asm.WordWidth
import NineBit.Proofs.Disassembly.Reassembly
import NineBit.Proofs.Disassembly.Recovery
import NineBit.Proofs.Machine.Refinement
import NineBit.Proofs.Machine.Runs
import NineBit.Proofs.Machine.Faults
import NineBit.Proofs.Asm.Grammar
import NineBit.Proofs.Machine.Calls
import NineBit.Proofs.Machine.Stack
import NineBit.Proofs.Asm.Literals
import NineBit.Proofs.Asm.Sentences
import NineBit.Proofs.Asm.Limits
import NineBit.Proofs.Machine.Restart
import NineBit.Proofs.Machine.History
import NineBit.Proofs.Disassembly.Execution
import NineBit.Proofs.Asm.Nesting
import NineBit.Proofs.Asm.Scoping
import NineBit.Proofs.Codecs
import NineBit.Proofs.Cli.ExitStatus
import NineBit.Proofs.Asm.WorkLoop
import NineBit.Proofs.Asm.Locality
import NineBit.Proofs.Asm.MacroFree
import NineBit.Proofs.Asm.Motion
import NineBit.Proofs.Asm.Repetition
import NineBit.Proofs.Asm.Isolation
import NineBit.Proofs.Asm.Spans
import NineBit.Proofs.Asm.Printing
import NineBit.Proofs.Asm.Relabelling
import NineBit.Proofs.Asm.Relocation
import NineBit.Proofs.Disassembly.Partition
import NineBit.Proofs.Symbols
import NineBit.Proofs.Asm.Addresses
import NineBit.Proofs.Asm.Listing
import NineBit.Proofs.Text.Distance
import NineBit.Proofs.Asm.WellFormed
