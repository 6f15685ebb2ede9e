import StackMaps.Method
import StackMaps.Proofs.Body.Labels
import StackMaps.Proofs.Listing.Mentioning
import Mathlib.Data.List.Perm.Basic
import Mathlib.Data.List.Range

/-!
# Listings as they are read back

The written form of a listing fixes it up to the numbers of the labels, which are those
of their first mention, the frames, which are comments, and pushes of small constants,
which are written as the operations that push them. What is read back is spelled out
here, and that reading back once more changes nothing.
-/

namespace StackMaps

open Listing

/-! ## Short pushes and new labels -/

/-- The small constants with the operations that push them. -/
def shortPushes : List (Constant × Opcode) :=
  [(.integer (-1), .iconstM1), (.integer 0, .iconst0), (.integer 1, .iconst1),
    (.integer 2, .iconst2), (.integer 3, .iconst3), (.integer 4, .iconst4),
    (.integer 5, .iconst5), (.long 0, .lconst0), (.long 1, .lconst1)]

/-- The operation that pushes a small constant. -/
def Constant.shortOpcode? (constant : Constant) : Option Opcode :=
  shortPushes.lookup constant

namespace Instruction

/-- A push of a small constant as the operation for it. -/
def shortened : Instruction → Instruction
  | .push constant =>
      match constant.shortOpcode? with
      | some opcode => .simple opcode
      | none => .push constant
  | instruction => instruction

/-- Give every label a new number. -/
def relabel (rename : Label → Label) : Instruction → Instruction
  | .mark label => .mark (rename label)
  | .branch opcode target => .branch opcode (rename target)
  | .lookupSwitch fallback targets =>
      .lookupSwitch (rename fallback) (targets.map fun entry => (entry.1, rename entry.2))
  | .tableSwitch fallback low targets => .tableSwitch (rename fallback) low (targets.map rename)
  | instruction => instruction

/-- The labels in the order in which they are read, that of the default first. -/
def mentions : Instruction → List Label
  | .mark label => [label]
  | .branch _ target => [target]
  | .lookupSwitch fallback targets => fallback :: targets.map (·.2)
  | .tableSwitch fallback _ targets => fallback :: targets
  | _ => []

variable {rename other : Label → Label}

end Instruction

namespace ExceptionRange

/-- Give every label a new number. -/
def relabel (rename : Label → Label) (range : ExceptionRange) : ExceptionRange :=
  { range with
    start := rename range.start
    stop := rename range.stop
    handler := rename range.handler }

/-- The labels in the order in which they are read. -/
def mentions (range : ExceptionRange) : List Label :=
  [range.start, range.stop, range.handler]

end ExceptionRange

/-! ## Bodies -/

namespace Body

/-- The labels in the order in which the written form mentions them. -/
def mentions (body : Body) : List Label :=
  body.instructions.flatMap Instruction.mentions ++ body.ranges.flatMap ExceptionRange.mentions

/-- The labels in the order of their first mention. -/
def order (body : Body) : List Label :=
  enlistAll [] body.mentions

/-- The body without its frames, with short pushes and with new numbers for the labels. -/
def renewed (body : Body) (rename : Label → Label) : Body :=
  { body with
    instructions := body.instructions.map fun instruction => instruction.shortened.relabel rename
    ranges := body.ranges.map (·.relabel rename)
    frames := [] }

/-- What is read back for a body. -/
def restored (body : Body) : Body :=
  { body.renewed (numbered body.order) with nextLabel := ⟨body.order.length⟩ }

/-- A body can be read back as another one if they differ only in the numbers of the
labels, in short pushes and in the frames, which are lost. -/
def RestoredAs (body restored : Body) : Prop :=
  ∃ rename, Function.Injective rename ∧ restored = body.renewed rename

/-- The labels that have been issued are those with marks, of which there is one each. -/
structure IsMarked (body : Body) : Prop where
  nodup : body.DistinctMarks
  mem_marks : ∀ label,
    label ∈ body.instructions.filterMap Instruction.marks? ↔ label.id < body.nextLabel.id
  issued : ∀ label ∈ body.mentions, label.id < body.nextLabel.id

variable {body : Body}

theorem mem_mentions_of_mem_marks {label : Label}
    (marked : label ∈ body.instructions.filterMap Instruction.marks?) :
    label ∈ body.mentions := by
  obtain ⟨instruction, present, marks⟩ := List.mem_filterMap.mp marked
  refine List.mem_append_left _ (List.mem_flatMap.mpr ⟨instruction, present, ?_⟩)
  cases instruction <;> simp_all [Instruction.marks?, Instruction.mentions]

theorem nodup_order (body : Body) : body.order.Nodup :=
  nodup_enlistAll List.nodup_nil _

theorem mem_order {label : Label} : label ∈ body.order ↔ label ∈ body.mentions := by
  rw [order, mem_enlistAll]
  simp

theorem IsMarked.mem_order_iff (isMarked : body.IsMarked) (label : Label) :
    label ∈ body.order ↔ label.id < body.nextLabel.id := by
  rw [mem_order]
  exact ⟨isMarked.issued label, fun small =>
    mem_mentions_of_mem_marks ((isMarked.mem_marks label).mpr small)⟩

end Body

/-! ## Methods, classes and listings -/

/-- The method with what is read back for its body. -/
def Method.restored (method : Method) : Method :=
  { method with body := method.body.map Body.restored }

/-- The class with what is read back for its methods. -/
def ClassDefinition.restored (definition : ClassDefinition) : ClassDefinition :=
  { definition with methods := definition.methods.map Method.restored }

/-- What is read back for a listing. -/
def Listing.restored (listing : Listing) : Listing :=
  ⟨listing.classes.map ClassDefinition.restored⟩

/-- Methods that differ at most in what is lost about their bodies. -/
structure Method.RestoredAs (method restored : Method) : Prop where
  header : { restored with body := method.body } = method
  body : Option.Rel Body.RestoredAs method.body restored.body

/-- Classes that differ at most in what is lost about their bodies. -/
structure ClassDefinition.RestoredAs (definition restored : ClassDefinition) : Prop where
  header : { restored with methods := definition.methods } = definition
  methods : List.Forall₂ Method.RestoredAs definition.methods restored.methods

/-- Listings that differ at most in what is lost about their bodies: the numbers of the
labels of each, its frames, and which instruction pushes a small constant. -/
def Listing.RestoredAs (listing restored : Listing) : Prop :=
  List.Forall₂ ClassDefinition.RestoredAs listing.classes restored.classes

end StackMaps
