import ManualQpack.Runtime
import ManualQpack.Integer
import ManualQpack.IntegerBounds
import ManualQpack.StaticTable
import ManualQpack.Instruction
import ManualQpack.Tracker
import ManualQpack.Encoder
import ManualQpack.Invariant
import ManualQpack.TrackerCalls
import ManualQpack.Receiver
import ManualQpack.Refinement
