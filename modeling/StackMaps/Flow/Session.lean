import StackMaps.Flow.Framing

/-!
# Analysis sessions

A session keeps the flow graph of a body with the notes of the last analysis.
Analyses can follow each other in any order, each of them on wiped notes.
-/

namespace StackMaps

/-- How often the entry of a block may be visited before it is widened, if nothing
else is said. -/
def defaultThreshold : Nat := 64

/-- The flow graph of a body, ready for analyses. -/
structure Session where
  body : Body
  graph : FlowGraph
  /-- From how many visits on the entry of a block is widened. -/
  threshold : Nat
  /-- The notes of the last analysis. -/
  notes : Array Notes

namespace Session

/-- A new session on a body. -/
def ofBody (body : Body) : Session :=
  let graph := FlowGraph.ofBody body
  { body
    graph
    threshold := defaultThreshold
    notes := Array.replicate graph.blocks.size .blank }

/-- Set the threshold for the analyses to come. -/
def withThreshold (session : Session) (threshold : Nat) : Session :=
  { session with threshold }

/-- Find the limits of the body by counting alone. -/
def computeMaxes (session : Session) (startLocals : Nat) : Maxes × Session :=
  let (maxes, notes) :=
    session.graph.countDepths session.body.instructions startLocals
      (session.notes.map Notes.wipe)
  (maxes, { session with notes })

/-- Find the frames and the limits of the body. -/
def computeFrames
    (session : Session)
    (hierarchy : Hierarchy)
    (thisClass : BinaryName)
    (startLocals : List Slot) : Framing × Session :=
  let (framing, notes) :=
    session.graph.computeFrames session.body hierarchy session.threshold thisClass
      startLocals (session.notes.map Notes.wipe)
  (framing, { session with notes })

end Session

end StackMaps
