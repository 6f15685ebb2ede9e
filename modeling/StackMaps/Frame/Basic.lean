import StackMaps.VerificationType

/-!
# Frames

A frame lists the types of the locals and of the operand stack at one point, each
wide value once. A stack map frame describes a frame by what distinguishes it
from the frame before it. The most compact description is chosen.
-/

namespace StackMaps

/-- The types at one point of a body, with the bottom of the stack first. -/
structure Frame (Operand Origin : Type) where
  locals : List (VerificationType Operand Origin)
  stack : List (VerificationType Operand Origin)
  deriving DecidableEq

/-- A frame relative to the frame before it. -/
inductive StackMapFrame (Operand Origin : Type)
  /-- The same locals, with at most one value on the stack. -/
  | same (stack : Option (VerificationType Operand Origin))
  /-- Without some of the last locals, and an empty stack. -/
  | chop (count : UInt8)
  /-- With more locals, and an empty stack. -/
  | append (locals : List (VerificationType Operand Origin))
  /-- With the locals and the stack that are given. -/
  | full
      (locals : List (VerificationType Operand Origin))
      (stack : List (VerificationType Operand Origin))
  deriving DecidableEq

variable {Operand Origin : Type}

/-- Read slots as values, behind those in `done`, whose last comes first. An
unknown slot is `top`, and the slot behind a wide value belongs to it. -/
def collapseOnto
    (done : List (VerificationType Operand Origin))
    (slots : List (Option (VerificationType Operand Origin))) :
    List (VerificationType Operand Origin) :=
  match slots with
  | [] => done.reverse
  | slot :: rest =>
      let type := slot.getD .top
      collapseOnto (type :: done) (if type.isWide then rest.drop 1 else rest)
termination_by slots.length
decreasing_by
  have shorter : (rest.drop 1).length ≤ rest.length := by simp
  rw [List.length_cons]
  split <;> omega

/-- Read slots as values. -/
def collapse (slots : List (Option (VerificationType Operand Origin))) :
    List (VerificationType Operand Origin) :=
  collapseOnto [] slots

/-- What is done first stays in front. -/
theorem collapseOnto_append
    (done front : List (VerificationType Operand Origin))
    (slots : List (Option (VerificationType Operand Origin))) :
    collapseOnto (done ++ front) slots = front.reverse ++ collapseOnto done slots := by
  fun_induction collapseOnto done slots with
  | case1 done => rw [collapseOnto, List.reverse_append]
  | case2 done slot rest type hypothesis =>
      rw [collapseOnto]
      exact hypothesis

/-- The slots are read from the left. -/
theorem collapse_cons
    (slot : Option (VerificationType Operand Origin))
    (rest : List (Option (VerificationType Operand Origin))) :
    collapse (slot :: rest) =
      slot.getD .top ::
        collapse (if (slot.getD .top).isWide then rest.drop 1 else rest) := by
  rw [collapse, collapseOnto]
  exact collapseOnto_append [] [slot.getD .top] _

/-- The slots that are read next are behind the first one, or behind the one that belongs to
it. -/
theorem collapse_induction
    {Holds : List (Option (VerificationType Operand Origin)) → Prop}
    (nil : Holds [])
    (cons : ∀ slot rest, Holds (if (slot.getD .top).isWide then rest.drop 1 else rest) →
      Holds (slot :: rest))
    (slots : List (Option (VerificationType Operand Origin))) :
    Holds slots :=
  collapseOnto.induct (fun _ slots => Holds slots) (fun _ => nil)
    (fun _ slot rest => cons slot rest) [] slots

@[simp] theorem collapse_nil :
    collapse ([] : List (Option (VerificationType Operand Origin))) = [] := by
  simp [collapse, collapseOnto]

namespace Frame

variable [DecidableEq Operand] [DecidableEq Origin]

/-- The frame of some locals and a stack, the bottom of which comes first. Unusable
locals at the end are left out. -/
def ofSlots (locals stack : List (Option (VerificationType Operand Origin))) :
    Frame Operand Origin where
  locals := ((collapse locals).reverse.dropWhile (· == .top)).reverse
  stack := collapse stack

/-- The frame described by itself alone. -/
def toFull (frame : Frame Operand Origin) : StackMapFrame Operand Origin :=
  .full frame.locals frame.stack

/-- The most compact description of a frame, given the frame before it. -/
def compact (frame previous : Frame Operand Origin) : StackMapFrame Operand Origin :=
  let count := frame.locals.length
  let previousCount := previous.locals.length
  match frame.stack with
  | [] =>
      if frame.locals = previous.locals then .same none
      else if previousCount < count && count - previousCount < 4 &&
          frame.locals.take previousCount == previous.locals then
        .append (frame.locals.drop previousCount)
      else if count < previousCount && previousCount - count < 4 &&
          frame.locals == previous.locals.take count then
        .chop (UInt8.ofNat (previousCount - count))
      else frame.toFull
  | [type] => if frame.locals = previous.locals then .same (some type) else frame.toFull
  | _ => frame.toFull

end Frame

namespace StackMapFrame

/-- The kind of a description. -/
def kind : StackMapFrame Operand Origin → String
  | .same none => "same"
  | .same (some _) => "same_locals_1_stack_item"
  | .chop _ => "chop"
  | .append _ => "append"
  | .full _ _ => "full"

/-- The written form of some types. -/
def typesText
    (originText : Origin → String)
    (types : List (VerificationType RefType Origin)) : String :=
  "[" ++ String.intercalate ", " (types.map (·.text originText)) ++ "]"

/-- The written form of a description. -/
def text (originText : Origin → String) (frame : StackMapFrame RefType Origin) : String :=
  frame.kind ++
    match frame with
    | .same none => ""
    | .same (some type) => " " ++ type.text originText
    | .chop count => s!" {count}"
    | .append locals => " " ++ typesText originText locals
    | .full locals stack =>
        " " ++ typesText originText locals ++ " " ++ typesText originText stack

end StackMapFrame

end StackMaps
