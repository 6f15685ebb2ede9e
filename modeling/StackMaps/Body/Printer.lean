import StackMaps.Body.Basic
import Std.Data.HashMap

/-!
# Writing bodies

A body is written line by line: its limits, its instructions and its protected
ranges. A frame is written as a comment in front of its label.
-/

namespace StackMaps

/-- The line of a protected range. -/
def ExceptionRange.text (range : ExceptionRange) : String :=
  let caught :=
    match range.catchType with
    | some name => name.text
    | none => "any"
  s!".catch {caught} from {range.start.text} to {range.stop.text} using {range.handler.text}"

namespace Body

/-- The frames by their labels. Of two frames for one label the last one
counts. -/
def framesByLabel (body : Body) : Std.HashMap Label BodyFrame :=
  body.frames.foldl (fun frames entry => frames.insert entry.1 entry.2) ∅

/-- The lines of an instruction. -/
def instructionLines
    (frames : Std.HashMap Label BodyFrame)
    (instruction : Instruction) : String :=
  match instruction with
  | .mark label =>
      (match frames[label]? with
        | some frame => "    # frame: " ++ frame.text Label.text ++ "\n"
        | none => "") ++
        instruction.text ++ "\n"
  | _ => "    " ++ instruction.text ++ "\n"

/-- The lines of a body. -/
def text (body : Body) : String :=
  let frames := body.framesByLabel
  s!"    .limit stack {body.maxStack}\n    .limit locals {body.maxLocals}\n" ++
    String.join (body.instructions.map (instructionLines frames)) ++
    String.join (body.ranges.map fun range => "    " ++ range.text ++ "\n")

end Body

end StackMaps
