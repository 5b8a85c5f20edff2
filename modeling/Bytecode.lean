import Bytecode.Binary64.Basic
import Bytecode.Binary64.Shortest
import Bytecode.Binary64.Text
import Bytecode.Chunk.Assembly
import Bytecode.Chunk.Basic
import Bytecode.Chunk.Command
import Bytecode.Chunk.Dump
import Bytecode.Chunk.Walk
import Bytecode.Decimal
import Bytecode.Fault
import Bytecode.Memory.Batch
import Bytecode.Memory.Buffer
import Bytecode.Memory.Event
import Bytecode.Memory.Growth
import Bytecode.Memory.Outcome
import Bytecode.Opcode
import Bytecode.Opcode.Cursor
import Bytecode.Pool.Basic
import Bytecode.Pool.Command
import Bytecode.Power
import Bytecode.Proofs.Binary64.Coarsest
import Bytecode.Proofs.Binary64.Distinct
import Bytecode.Proofs.Binary64.Magnitude
import Bytecode.Proofs.Binary64.Precision
import Bytecode.Proofs.Binary64.Reading
import Bytecode.Proofs.Binary64.Rounding
import Bytecode.Proofs.Binary64.Shortest
import Bytecode.Proofs.Binary64.Text
import Bytecode.Proofs.Chunk.Amortized
import Bytecode.Proofs.Chunk.Assembly
import Bytecode.Proofs.Chunk.Bookkeeping
import Bytecode.Proofs.Chunk.Capacity
import Bytecode.Proofs.Chunk.Contents
import Bytecode.Proofs.Chunk.Dump
import Bytecode.Proofs.Chunk.Extension
import Bytecode.Proofs.Chunk.Grammar
import Bytecode.Proofs.Chunk.Layout
import Bytecode.Proofs.Chunk.Ledger
import Bytecode.Proofs.Chunk.Refinement
import Bytecode.Proofs.Chunk.Refusal
import Bytecode.Proofs.Chunk.Reuse
import Bytecode.Proofs.Chunk.Room
import Bytecode.Proofs.Chunk.Settings
import Bytecode.Proofs.Chunk.View
import Bytecode.Proofs.Chunk.Walk
import Bytecode.Proofs.Decimal.HalfEven
import Bytecode.Proofs.Decimal.Notation
import Bytecode.Proofs.Decimal.Reading
import Bytecode.Proofs.Decimal.Significant
import Bytecode.Proofs.Fault
import Bytecode.Proofs.Lockstep
import Bytecode.Proofs.Memory.Amortized
import Bytecode.Proofs.Memory.Capacity
import Bytecode.Proofs.Memory.Ledger
import Bytecode.Proofs.Memory.Reservation
import Bytecode.Proofs.Memory.Room
import Bytecode.Proofs.Observation
import Bytecode.Proofs.Opcode.Cursor
import Bytecode.Proofs.Pool.Bookkeeping
import Bytecode.Proofs.Pool.Capacity
import Bytecode.Proofs.Pool.Room
import Bytecode.Proofs.Pool.Settings
import Bytecode.Proofs.Pool.View
import Bytecode.Proofs.Run
import Bytecode.Proofs.Text.Compact
import Bytecode.Proofs.Text.Layout
import Bytecode.Proofs.Text.Parts
import Bytecode.Proofs.Text.Plain
import Bytecode.Proofs.Value.Equality
import Bytecode.Proofs.Value.Field
import Bytecode.Series
import Bytecode.Text.Format
import Bytecode.Text.Record
import Bytecode.Value
import Bytecode.Window
