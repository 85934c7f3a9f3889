import UniversalMachine.Command.Argument
import UniversalMachine.Command.Disassemble
import UniversalMachine.Command.Dump
import UniversalMachine.Command.Line
import UniversalMachine.Command.Run
import UniversalMachine.Command.Session
import UniversalMachine.Fifo
import UniversalMachine.File.Path
import UniversalMachine.File.Tree
import UniversalMachine.Image
import UniversalMachine.Instruction.Basic
import UniversalMachine.Instruction.Codec
import UniversalMachine.Log
import UniversalMachine.Machine.Basic
import UniversalMachine.Machine.Fault
import UniversalMachine.Machine.Notice
import UniversalMachine.Machine.Run
import UniversalMachine.Machine.Step
import UniversalMachine.Main
import UniversalMachine.Memory.Basic
import UniversalMachine.Memory.Op
import UniversalMachine.Numeral
import UniversalMachine.Opcode
import UniversalMachine.Operation
import UniversalMachine.Proofs.Codex
import UniversalMachine.Proofs.Command.Action
import UniversalMachine.Proofs.Command.Argument
import UniversalMachine.Proofs.Command.Arrange
import UniversalMachine.Proofs.Command.Batch
import UniversalMachine.Proofs.Command.Disassemble
import UniversalMachine.Proofs.Command.Dump
import UniversalMachine.Proofs.Command.Exit
import UniversalMachine.Proofs.Command.Start
import UniversalMachine.Proofs.File.Name
import UniversalMachine.Proofs.File.Tree
import UniversalMachine.Proofs.Image.Bytes
import UniversalMachine.Proofs.Image.Codec
import UniversalMachine.Proofs.Image.Join
import UniversalMachine.Proofs.Instruction.Canonical
import UniversalMachine.Proofs.Instruction.Codec
import UniversalMachine.Proofs.Instruction.Text
import UniversalMachine.Proofs.Listing.Control
import UniversalMachine.Proofs.Listing.Reading
import UniversalMachine.Proofs.Machine.Append
import UniversalMachine.Proofs.Machine.Arena
import UniversalMachine.Proofs.Machine.Atomic
import UniversalMachine.Proofs.Machine.Emitted
import UniversalMachine.Proofs.Machine.Execute
import UniversalMachine.Proofs.Machine.Faults
import UniversalMachine.Proofs.Machine.Input
import UniversalMachine.Proofs.Machine.Lifecycle
import UniversalMachine.Proofs.Machine.Limit
import UniversalMachine.Proofs.Machine.Lockstep
import UniversalMachine.Proofs.Machine.Noop
import UniversalMachine.Proofs.Machine.Output
import UniversalMachine.Proofs.Machine.Reached
import UniversalMachine.Proofs.Machine.Received
import UniversalMachine.Proofs.Machine.Recoded
import UniversalMachine.Proofs.Machine.Reply
import UniversalMachine.Proofs.Machine.Sizes
import UniversalMachine.Proofs.Machine.Trace
import UniversalMachine.Proofs.Memory.Append
import UniversalMachine.Proofs.Memory.Consistent
import UniversalMachine.Proofs.Memory.Contents
import UniversalMachine.Proofs.Memory.Exhaustion
import UniversalMachine.Proofs.Memory.Handles
import UniversalMachine.Proofs.Memory.History
import UniversalMachine.Proofs.Memory.Live
import UniversalMachine.Proofs.Memory.Performs
import UniversalMachine.Proofs.Memory.Program
import UniversalMachine.Proofs.Memory.Recoded
import UniversalMachine.Proofs.Memory.Refuses
import UniversalMachine.Proofs.Memory.Sizes
import UniversalMachine.Proofs.Memory.Standing
import UniversalMachine.Proofs.Numeral
import UniversalMachine.Proofs.Standard.Machine
import UniversalMachine.Proofs.Standard.Refinement
import UniversalMachine.Proofs.Standard.Store
import UniversalMachine.Proofs.Stream.Delivery
import UniversalMachine.Proofs.Stream.Steady
import UniversalMachine.Proofs.Stream.Switch
import UniversalMachine.Proofs.Traverse
import UniversalMachine.Register
import UniversalMachine.Stream.Error
import UniversalMachine.Stream.Script
import UniversalMachine.Stream.Sink
import UniversalMachine.Stream.Source
import UniversalMachine.Stream.Split
import UniversalMachine.Word
import UniversalMachine.Proofs.Command.Batch
