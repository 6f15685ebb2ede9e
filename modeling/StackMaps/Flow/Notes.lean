import StackMaps.Flow.Graph
import StackMaps.Flow.Worklist
import StackMaps.Slots.Basic

/-!
# Notes on blocks

An analysis keeps notes on every block and visits blocks until none is waiting.
The notes of an earlier analysis are wiped before the next one begins.
-/

namespace StackMaps

/-- What the analyses have found out about a block. -/
structure Notes where
  /-- The depth of the stack at the entry, once it is reached. -/
  inputDepth : Option Nat
  outputDepth : Nat
  maxDepth : Nat
  inputLocals : Nat
  maxLocals : Nat
  /-- The slots at the entry, once it is reached. -/
  inputState : Option SlotState
  outputState : SlotState
  /-- The join of the locals at all points of the block. -/
  exceptionLocals : List Slot
  /-- The join of the exceptions with which a handler is entered. -/
  caught : Slot
  /-- How often the block has been visited. -/
  visits : Nat

namespace Notes

/-- The notes on a block of which nothing is known. -/
def blank : Notes :=
  { inputDepth := none
    outputDepth := 0
    maxDepth := 0
    inputLocals := 0
    maxLocals := 0
    inputState := none
    outputState := .empty
    exceptionLocals := []
    caught := none
    visits := 0 }

/-- Wipe the notes on a block. -/
def wipe (notes : Notes) : Notes :=
  { notes with
    inputDepth := none
    outputDepth := 0
    maxDepth := 0
    inputLocals := 0
    maxLocals := 0
    inputState := none
    outputState := .empty
    exceptionLocals := []
    caught := none
    visits := 0 }

/-- Nothing is left of notes that have been wiped. -/
@[simp] theorem wipe_eq_blank (notes : Notes) : notes.wipe = blank := rfl

/-- Has an analysis reached the block? -/
def isReached (notes : Notes) : Bool :=
  notes.inputDepth.isSome || notes.inputState.isSome

end Notes

/-- An analysis at work: its notes on all blocks, and the blocks that wait for a
visit. -/
structure Progress where
  notes : Array Notes
  worklist : Worklist

namespace Progress

/-- The notes on a block. -/
def notesOn (progress : Progress) (index : Nat) : Notes :=
  progress.notes.getD index .blank

/-- Take new notes on a block. -/
def record (progress : Progress) (index : Nat) (notes : Notes) : Progress :=
  { progress with notes := progress.notes.setIfInBounds index notes }

/-- Let a block wait for a visit. -/
def enqueue (progress : Progress) (index : Nat) : Progress :=
  { progress with worklist := progress.worklist.push index }

/-- Visit the waiting blocks, at most as many as `fuel` says. -/
def run (visit : Progress → Nat → Progress) : Nat → Progress → Progress
  | 0, progress => progress
  | fuel + 1, ⟨notes, worklist⟩ =>
      match worklist.pop with
      | (none, rest) => ⟨notes, rest⟩
      | (some index, rest) => run visit fuel (visit ⟨notes, rest⟩ index)

end Progress

end StackMaps
