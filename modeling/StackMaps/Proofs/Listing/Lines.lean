import StackMaps.Listing.Printer
import StackMaps.Proofs.Body.Labels
import StackMaps.Proofs.Listing.Operands

/-!
# The lines of listings

A listing is written line by line, so its text is that of a list of lines.
-/

namespace StackMaps

open Text Listing

/-- A text behind the indentation of a body. -/
def indented (text : List Char) : List Char :=
  "    ".toList ++ text

theorem isBlank_indentation : ∀ character ∈ "    ".toList, isBlank character = true :=
  List.all_eq_true.mp (by decide)

/-- A frame as a comment. -/
def frameComment (frame : BodyFrame) : List Char :=
  "# frame: ".toList ++ (frame.text Label.text).toList

/-- The lines of an instruction: that of a label has its frame in front of it. -/
def Instruction.lines (frames : Std.HashMap Label BodyFrame) : Instruction → List (List Char)
  | .mark label =>
      (frames[label]?.toList.map fun frame => indented (frameComment frame)) ++
        [label.text.toList ++ [':']]
  | instruction => [indented instruction.text.toList]

theorem instructionLines_of_marks?
    {instruction : Instruction}
    (unmarked : instruction.marks? = none)
    (frames : Std.HashMap Label BodyFrame) :
    Body.instructionLines frames instruction = "    " ++ instruction.text ++ "\n" ∧
      instruction.lines frames = [indented instruction.text.toList] := by
  unfold Body.instructionLines Instruction.lines
  cases instruction with
  | mark label => cases unmarked
  | _ => exact ⟨rfl, rfl⟩

theorem toList_framedMark (comment : String) (label : Label) :
    ("    # frame: " ++ comment ++ "\n" ++ (label.text ++ ":") ++ "\n").toList =
      unlines [indented ("# frame: ".toList ++ comment.toList), label.text.toList ++ [':']] := by
  have front : "    # frame: ".toList = "    ".toList ++ "# frame: ".toList := rfl
  have colon : ":".toList = [':'] := rfl
  have feed : "\n".toList = ['\n'] := rfl
  rw [String.toList_append, String.toList_append, String.toList_append, String.toList_append,
    String.toList_append, front, colon, feed, unlines_cons, unlines_cons, unlines_nil, indented]
  simp only [List.append_assoc, List.cons_append, List.nil_append]

theorem toList_instructionLines
    (frames : Std.HashMap Label BodyFrame)
    (instruction : Instruction) :
    (Body.instructionLines frames instruction).toList = unlines (instruction.lines frames) := by
  cases unmarked : instruction.marks? with
  | some label =>
      obtain rfl := Instruction.marks?_eq_some_iff.mp unmarked
      have written : (Instruction.mark label).text = label.text ++ ":" := rfl
      unfold Body.instructionLines Instruction.lines
      dsimp only
      rw [written]
      cases frames[label]? with
      | none => simp [unlines]
      | some frame =>
          exact toList_framedMark _ label
  | none =>
      obtain ⟨written, lines⟩ := instructionLines_of_marks? unmarked frames
      rw [written, lines]
      simp [unlines, indented]

/-- The line of a limit. -/
def limitLine (which : String) (limit : UInt16) : List Char :=
  indented (".limit".toList ++ spacedStrings [which, toString limit])

/-- The lines of a body. -/
def Body.lines (body : Body) : List (List Char) :=
  limitLine "stack" body.maxStack :: limitLine "locals" body.maxLocals ::
    (body.instructions.flatMap (Instruction.lines body.framesByLabel) ++
      body.ranges.map fun range => indented range.text.toList)

theorem unlines_flatMap {α : Type} (write : α → List (List Char)) (elements : List α) :
    unlines (elements.flatMap write) = elements.flatMap fun element => unlines (write element) := by
  rw [unlines, List.flatMap_assoc]
  rfl

theorem unlines_map {α : Type} (write : α → List Char) (elements : List α) :
    unlines (elements.map write) = elements.flatMap fun element => write element ++ ['\n'] := by
  rw [unlines, List.flatMap_map]

theorem toList_limits (stack locals : UInt16) :
    (s!"    .limit stack {stack}\n    .limit locals {locals}\n").toList =
      unlines [limitLine "stack" stack, limitLine "locals" locals] := by
  unfold limitLine
  generalize toString stack = stackText
  generalize toString locals = localsText
  simp only [String.toList_append, toString_string, unlines_cons, unlines_nil, indented,
    spacedStrings_cons, spacedStrings_nil, List.append_assoc, List.append_nil]
  rfl

theorem Body.toList_text (body : Body) : body.text.toList = unlines body.lines := by
  have instructions : (String.join
      (body.instructions.map (Body.instructionLines body.framesByLabel))).toList =
      unlines (body.instructions.flatMap (Instruction.lines body.framesByLabel)) := by
    rw [String.toList_join, List.flatMap_map, unlines_flatMap]
    exact List.flatMap_congr fun instruction _ => toList_instructionLines _ instruction
  have ranges : (String.join (body.ranges.map fun range => "    " ++ range.text ++ "\n")).toList =
      unlines (body.ranges.map fun range => indented range.text.toList) := by
    rw [String.toList_join, List.flatMap_map, unlines_map]
    refine List.flatMap_congr fun range _ => ?_
    simp [indented]
  have parts : body.text =
      s!"    .limit stack {body.maxStack}\n    .limit locals {body.maxLocals}\n" ++
        String.join (body.instructions.map (Body.instructionLines body.framesByLabel)) ++
        String.join (body.ranges.map fun range => "    " ++ range.text ++ "\n") := rfl
  rw [parts, String.toList_append, String.toList_append, toList_limits, instructions, ranges,
    ← unlines_append, ← unlines_append, Body.lines, List.append_assoc, List.cons_append,
    List.cons_append, List.nil_append]

/-- The line of a directive with words behind it. -/
def directiveLine (directive : String) (words : List String) : List Char :=
  directive.toList ++ spacedStrings words

theorem toList_directiveText (directive : String) (keywords : List String) :
    (directiveText directive keywords).toList = directiveLine directive keywords := by
  rw [directiveText, String.toList_append, directiveLine, spacedStrings, spaced,
    String.toList_join, List.flatMap_map, List.flatMap_map]
  congr 2
  funext keyword
  simp

/-- The name of a method with its descriptor. -/
def Method.signature (method : Method) : String :=
  method.name.text ++ method.descriptor.render

/-- The lines of a method. -/
def Method.lines (method : Method) : List (List Char) :=
  directiveLine ".method" (method.flags.keywords ++ [method.signature]) ::
    (method.body.elim [] Body.lines ++ [directiveLine ".end" ["method"]])

theorem directiveLine_concat (directive : String) (words : List String) (word : String) :
    directiveLine directive (words ++ [word]) =
      directiveLine directive words ++ ' ' :: word.toList := by
  simp [directiveLine, spacedStrings, spaced_append]

theorem Method.toList_text (method : Method) : method.text.toList = unlines method.lines := by
  have header : (directiveText ".method" method.flags.keywords ++
      s!" {method.name.text}{method.descriptor.render}\n").toList =
      unlines [directiveLine ".method" (method.flags.keywords ++ [method.signature])] := by
    rw [String.toList_append, toList_directiveText, directiveLine_concat]
    simp [toString_string, Method.signature]
  have footer : ".end method\n".toList = unlines [directiveLine ".end" ["method"]] := rfl
  rw [Method.text, String.toList_append, String.toList_append, header, footer, Method.lines]
  cases method.body with
  | none => simp
  | some body =>
      dsimp only
      rw [body.toList_text]
      simp [unlines_append]

/-- The lines of a class. -/
def ClassDefinition.lines (definition : ClassDefinition) : List (List Char) :=
  directiveLine ".class" (definition.flags.keywords ++ [definition.name.text]) ::
    (definition.superclass.toList.map (fun name => directiveLine ".super" [name.text]) ++
      definition.interfaces.map (fun name => directiveLine ".implements" [name.text]) ++
      definition.methods.flatMap fun method => [] :: method.lines)

theorem ClassDefinition.toList_text (definition : ClassDefinition) :
    definition.text.toList = unlines definition.lines := by
  have header : (directiveText ".class" definition.flags.keywords ++
      s!" {definition.name.text}\n").toList =
      unlines [directiveLine ".class" (definition.flags.keywords ++ [definition.name.text])] := by
    rw [String.toList_append, toList_directiveText, directiveLine_concat]
    simp [toString_string]
  have interfaces : (String.join (definition.interfaces.map fun name =>
      s!".implements {name.text}\n")).toList = unlines (definition.interfaces.map fun name =>
        directiveLine ".implements" [name.text]) := by
    rw [String.toList_join, List.flatMap_map, unlines_map]
    refine List.flatMap_congr fun name _ => ?_
    simp [toString_string, directiveLine]
  have methods : (String.join (definition.methods.map fun method =>
      "\n" ++ method.text)).toList =
      unlines (definition.methods.flatMap fun method => [] :: method.lines) := by
    rw [String.toList_join, List.flatMap_map, unlines_flatMap]
    refine List.flatMap_congr fun method _ => ?_
    simp [method.toList_text]
  rw [ClassDefinition.text, String.toList_append, String.toList_append, String.toList_append,
    header, interfaces, methods, ClassDefinition.lines]
  cases definition.superclass with
  | none => simp [unlines_append]
  | some name => simp [unlines_append, toString_string, directiveLine]

/-- The lines of classes behind another one. -/
def separatedLines (classes : List ClassDefinition) : List (List Char) :=
  classes.flatMap fun definition => [] :: definition.lines

/-- The lines of a listing. -/
def Listing.lines (listing : Listing) : List (List Char) :=
  match listing.classes with
  | [] => []
  | first :: others => first.lines ++ separatedLines others

theorem Listing.toList_text (listing : Listing) : listing.text.toList = unlines listing.lines := by
  obtain ⟨classes⟩ := listing
  rw [Listing.text, String.toList_intercalate]
  cases classes with
  | nil => rfl
  | cons first others =>
      rw [List.map_cons, List.map_cons, Listing.lines, unlines_append]
      rw [first.toList_text]
      induction others generalizing first with
      | nil => simp [separatedLines]
      | cons second others hypothesis =>
          rw [List.map_cons, List.map_cons, List.intercalate_cons_cons,
            second.toList_text, hypothesis second]
          simp [separatedLines, unlines_append]

end StackMaps
