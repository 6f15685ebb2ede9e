import StackMaps.Error
import StackMaps.Flow.Session
import StackMaps.Hierarchy.Graph
import StackMaps.Hierarchy.Table
import StackMaps.Method

/-!
# Recomputing bodies

What is recorded about a body is found out anew: its limits, and its frames if
there is a hierarchy to join classes in. What has been recorded up to an error
stays recorded.
-/

namespace StackMaps

/-- What is to be recomputed. -/
inductive Compute
  /-- Nothing. -/
  | nothing
  /-- The limits of the stack and the locals. -/
  | maxes
  /-- The limits and the frames, or the limits alone without a hierarchy. -/
  | frames
  deriving DecidableEq

/-- How bodies are recomputed. -/
structure Settings where
  compute : Compute
  /-- From how many visits on the entry of a block is widened. -/
  threshold : Nat
  deriving DecidableEq

/-- Everything is recomputed, with the usual threshold. -/
def Settings.default : Settings := ⟨.frames, defaultThreshold⟩

/-- A number that fits into 16 bits. -/
def fit16? (number : Nat) : Option UInt16 :=
  if number < 65536 then some (UInt16.ofNat number) else none

namespace Body

/-- Record the limits, that of the stack first. The first one that does not fit is
an error. -/
def setMaxes (body : Body) (maxStack maxLocals : Nat) : Body × Option Error :=
  match fit16? maxStack with
  | none => (body, some (.maxStackOverflow maxStack))
  | some stack =>
      let body := { body with maxStack := stack }
      match fit16? maxLocals with
      | none => (body, some (.maxLocalsOverflow maxLocals))
      | some locals => ({ body with maxLocals := locals }, none)

/-- Put the labels of a framing into a body and record its frames and limits. -/
def record (body : Body) (framing : Framing) : Body × Option Error :=
  let framed :=
    { body.injectLabels framing.injections with
      nextLabel := framing.nextLabel
      frames := framing.frames }
  framed.setMaxes framing.maxStack framing.maxLocals

/-- Recompute a body, which is returned with the error that has come up. -/
def recompute
    (body : Body)
    (thisClass : BinaryName)
    (method : Method)
    (hierarchy : Option Hierarchy)
    (settings : Settings) : Body × Option Error :=
  let countOnly :=
    let (maxes, _) := (Session.ofBody body).computeMaxes method.startLocals
    body.setMaxes maxes.maxStack maxes.maxLocals
  match settings.compute, hierarchy with
  | .nothing, _ => (body, none)
  | .maxes, _ => countOnly
  | .frames, none => countOnly
  | .frames, some hierarchy =>
      let session := (Session.ofBody body).withThreshold settings.threshold
      let (framing, _) :=
        session.computeFrames hierarchy thisClass (method.typedStartLocals thisClass)
      body.record framing

end Body

/-- Change the elements of a list in order up to the first error. -/
def changeUntilError
    {α : Type}
    (change : α → α × Option Error)
    (elements : List α) : List α × Option Error :=
  let (changed, error?) := elements.foldl
    (fun (state : List α × Option Error) element =>
      match state.2 with
      | some error => (element :: state.1, some error)
      | none =>
          let (after, error?) := change element
          (after :: state.1, error?))
    ([], none)
  (changed.reverse, error?)

/-- Recompute the body of a method. -/
def Method.recompute
    (method : Method)
    (thisClass : BinaryName)
    (hierarchy : Option Hierarchy)
    (settings : Settings) : Method × Option Error :=
  match method.body with
  | none => (method, none)
  | some body =>
      let (body, error?) := body.recompute thisClass method hierarchy settings
      ({ method with body := some body }, error?)

/-- Recompute the bodies of a class up to the first error. -/
def ClassDefinition.recompute
    (definition : ClassDefinition)
    (hierarchy : Option Hierarchy)
    (settings : Settings) : ClassDefinition × Option Error :=
  let (methods, error?) :=
    changeUntilError (·.recompute definition.name hierarchy settings) definition.methods
  ({ definition with methods }, error?)

namespace Listing

/-- Recompute all bodies up to the first error. -/
def recompute
    (listing : Listing)
    (hierarchy : Option Hierarchy)
    (settings : Settings) : Listing × Option Error :=
  let (classes, error?) :=
    changeUntilError (·.recompute hierarchy settings) listing.classes
  ({ listing with classes }, error?)

/-- Declare the classes of a listing in a graph. -/
def declareIn (listing : Listing) (graph : ClassGraph) : ClassGraph :=
  listing.classes.foldl
    (fun graph definition =>
      graph.declare definition.name definition.superclass definition.interfaces
        definition.flags)
    graph

/-- The classes of a listing as a table. The last definition of a class counts. -/
def table (listing : Listing) : ClassTable :=
  listing.classes.foldl
    (fun table definition =>
      table.insert definition.name
        ⟨definition.superclass, definition.interfaces, definition.flags.isInterface⟩)
    .empty

end Listing

end StackMaps
