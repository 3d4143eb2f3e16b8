import NibbleArena.Nibble
import NibbleArena.Opcode
import NibbleArena.Opcode.Document
import NibbleArena.Opcode.Table
import NibbleArena.Program
import NibbleArena.Core
import NibbleArena.Core.Load
import NibbleArena.Bracket
import NibbleArena.Fault
import NibbleArena.Crash
import NibbleArena.Fault.Report
import NibbleArena.Fault.System
import NibbleArena.Host
import NibbleArena.Host.Streams
import NibbleArena.Machine
import NibbleArena.Word
import NibbleArena.Json.Token
import NibbleArena.Json.Value
import NibbleArena.Json.Fields
import NibbleArena.Run.Settings
import NibbleArena.Run
import NibbleArena.Draw
import NibbleArena.Draw.Words
import NibbleArena.Draw.Keystream
import NibbleArena.Placement.Reservation
import NibbleArena.Placement
import NibbleArena.Arena.Settings
import NibbleArena.Arena
import NibbleArena.Arena.Bout
import NibbleArena.Arena.Round
import NibbleArena.Log
import NibbleArena.Log.Narration
import NibbleArena.Text.Columns
import NibbleArena.Text.Digits
import NibbleArena.Text.Lines
import NibbleArena.Text.Numeral
import NibbleArena.CommandLine.Argument
import NibbleArena.CommandLine.Request
import NibbleArena.CommandLine.Session
import NibbleArena.Main
import NibbleArena.Proofs.Core.Address
import NibbleArena.Proofs.Core.Character
import NibbleArena.Proofs.Placement.Apart
import NibbleArena.Proofs.Bracket.Depth
import NibbleArena.Proofs.Bracket.Symmetry
import NibbleArena.Proofs.Machine.Step
import NibbleArena.Proofs.Streams.Clean
import NibbleArena.Proofs.Streams.Retry
import NibbleArena.Proofs.Machine.Effect
import NibbleArena.Proofs.Structured.Program
import NibbleArena.Proofs.Structured.Scan
import NibbleArena.Proofs.Structured.Step
import NibbleArena.Proofs.Structured.Execution
import NibbleArena.Proofs.Core.Load
import NibbleArena.Proofs.Core.Rotation
import NibbleArena.Proofs.Machine.Rotation
import NibbleArena.Proofs.Bout.Entry
import NibbleArena.Proofs.Bout.Sweep
import NibbleArena.Proofs.Bout.Course
import NibbleArena.Proofs.Arena.Round
import NibbleArena.Proofs.Arena.History
import NibbleArena.Proofs.Arena.Layout
import NibbleArena.Proofs.Arena.Score
import NibbleArena.Proofs.Arena.Isolation
import NibbleArena.Proofs.Bracket.Count
import NibbleArena.Proofs.Bracket.FirstReturn
import NibbleArena.Proofs.Bracket.Nesting
import NibbleArena.Proofs.Arena.Failure
import NibbleArena.Proofs.Machine.Bounds
import NibbleArena.Proofs.Run.Calls
import NibbleArena.Proofs.Arena.Bounds
import NibbleArena.Proofs.Arena.Lockstep
import NibbleArena.Proofs.Core.Dump
import NibbleArena.Proofs.Core.Wheel
import NibbleArena.Proofs.Machine.Wheel
import NibbleArena.Proofs.Run.Budget
import NibbleArena.Proofs.Draw.Chances
import NibbleArena.Proofs.Placement.Course
import NibbleArena.Proofs.Placement.Capacity
import NibbleArena.Proofs.Placement.Uniform
import NibbleArena.Proofs.Core.Laps
import NibbleArena.Proofs.Streams.Flushed
import NibbleArena.Proofs.Bout.Order
import NibbleArena.Proofs.Arena.Fairness
import NibbleArena.Proofs.Machine.Footprint
import NibbleArena.Proofs.Bout.Interchange
import NibbleArena.Proofs.Arena.Admission
import NibbleArena.Proofs.Fault.Amendments
import NibbleArena.Proofs.Json.Reading
import NibbleArena.Proofs.Json.Document
import NibbleArena.Proofs.Json.Rendering
import NibbleArena.Proofs.Text.Wrapping
import NibbleArena.Proofs.CommandLine.ProgramFiles
import NibbleArena.Proofs.Arena.Configuration
import NibbleArena.Proofs.Placement.Marking
import NibbleArena.Proofs.Core.Displacement
