import StackMaps.Frame.Basic
import StackMaps.Instruction.Printer

/-!
# Method bodies

A body is a list of instructions with labels between them, a table of protected
ranges, and what has been recorded about it: the limits of its stack and locals
and its frames. Labels can be placed into a body without touching anything that
refers to it.
-/

namespace StackMaps

/-- A protected range. An exception between `start` and `stop` goes to the handler
if it is of the class, and always if there is none. -/
structure ExceptionRange where
  start : Label
  stop : Label
  handler : Label
  catchType : Option BinaryName
  deriving DecidableEq

/-- A frame of a body, with labels for the allocations. -/
abbrev BodyFrame := StackMapFrame RefType Label

/-- The body of a method. -/
structure Body where
  instructions : List Instruction
  /-- The ranges, in the order in which they are tried. -/
  ranges : List ExceptionRange
  maxStack : UInt16
  maxLocals : UInt16
  /-- The frames in the order of the body, each with the label at which it holds. -/
  frames : List (Label × BodyFrame)
  /-- The next label to be issued. -/
  nextLabel : Label
  deriving DecidableEq

namespace Body

/-- A body about which nothing has been recorded. -/
def ofInstructions
    (instructions : List Instruction)
    (ranges : List ExceptionRange)
    (nextLabel : Label) : Body :=
  { instructions, ranges, maxStack := 0, maxLocals := 0, frames := [], nextLabel }

/-- The position of the first mark of a label. -/
def positionOf? (body : Body) (label : Label) : Option Nat :=
  body.instructions.findIdx? fun instruction => instruction.marks? == some label

/-- Issue a label. -/
def freshLabel (body : Body) : Label × Body :=
  (body.nextLabel, { body with nextLabel := body.nextLabel.next })

/-- The marks of some labels. -/
def marks (placements : List (Nat × Label)) : List Instruction :=
  placements.map fun placement => .mark placement.2

/-- Put labels, which ascend by position, between instructions from a position
on. What is in front of them is given in reverse. -/
def weaveOnto
    (done : List Instruction)
    (position : Nat)
    (placements : List (Nat × Label)) :
    List Instruction → List Instruction
  | [] => done.reverse ++ marks placements
  | instruction :: rest =>
      let here := marks (placements.takeWhile fun placement => placement.1 ≤ position)
      weaveOnto (instruction :: (here.reverse ++ done)) (position + 1)
        (placements.dropWhile fun placement => placement.1 ≤ position) rest

/-- Put every label in front of the instruction at its position. Positions are
those before any insertion, and labels beyond the last instruction go to the end.
Labels for one position keep their order. -/
def placeLabels (instructions : List Instruction) (placements : List (Nat × Label)) :
    List Instruction :=
  weaveOnto [] 0 (placements.mergeSort fun left right => left.1 ≤ right.1) instructions

/-- Put labels into a body. -/
def injectLabels (body : Body) (placements : List (Nat × Label)) : Body :=
  { body with instructions := placeLabels body.instructions placements }

end Body

end StackMaps
