import SlotFlow.Main
import SlotFlow.Proofs.Arena.Atomic
import SlotFlow.Proofs.Arena.Fresh
import SlotFlow.Proofs.Catalog.Registered
import SlotFlow.Proofs.Document.Attached
import SlotFlow.Proofs.Document.Closed
import SlotFlow.Proofs.Document.Inert
import SlotFlow.Proofs.Document.Kept
import SlotFlow.Proofs.Document.Regenerated
import SlotFlow.Proofs.Document.Reloaded
import SlotFlow.Proofs.Document.Retyped
import SlotFlow.Proofs.Document.Roster
import SlotFlow.Proofs.Editing.Moved
import SlotFlow.Proofs.Editing.Reported
import SlotFlow.Proofs.Editing.TakenBack
import SlotFlow.Proofs.Graph.Lasting
import SlotFlow.Proofs.Naming.Search
import SlotFlow.Proofs.Naming.Stable
import SlotFlow.Proofs.Program.ClassName
import SlotFlow.Proofs.Program.Denoted
import SlotFlow.Proofs.Program.LaidOut
import SlotFlow.Proofs.Program.Shadowed
import SlotFlow.Proofs.Program.Timed
import SlotFlow.Proofs.Program.Unbroken
import SlotFlow.Proofs.Program.Undefined
import SlotFlow.Proofs.Program.Unused
import SlotFlow.Proofs.Simulation.Ended
import SlotFlow.Proofs.Simulation.Refused
import SlotFlow.Proofs.Simulation.Resolved
import SlotFlow.Proofs.Simulation.Rounds
import SlotFlow.Proofs.Simulation.Valued
import SlotFlow.Simulation.Run
