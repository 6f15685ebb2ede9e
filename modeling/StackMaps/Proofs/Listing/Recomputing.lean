import StackMaps.Proofs.Flow.FrameNames
import StackMaps.Proofs.Hierarchy.Naming
import StackMaps.Proofs.Listing.ClosedLabels
import StackMaps.Proofs.Recomputing

/-!
# Recomputed listings read back

A body that can be read again can still be read again when it has been recomputed: the labels
that are put into it are new ones with one mark each, and the frames are comments on one
line. So nothing is lost by writing a listing and reading it, whether it has been recomputed
or not.
-/

namespace StackMaps

/-- An instruction stays exact when its push is shortened and its labels are numbered anew. -/
theorem Instruction.IsExact.restored
    {instruction : Instruction}
    (isExact : instruction.IsExact)
    (rename : Label → Label) :
    (instruction.shortened.relabel rename).IsExact := by
  cases instruction with
  | push constant =>
      unfold shortened
      dsimp only
      split
      · exact trivial
      · exact isExact
  | _ => exact isExact

/-! ## Labels -/

namespace Body

theorem mem_marks_iff {body : Body} {label : Label} :
    label ∈ body.instructions.filterMap Instruction.marks? ↔
      ∃ position, body.MarksAt label position := by
  rw [List.mem_filterMap]
  constructor
  · rintro ⟨instruction, present, marks⟩
    rw [Instruction.marks?_eq_some_iff.mp marks] at present
    exact List.getElem?_of_mem present
  · rintro ⟨position, marked⟩
    exact ⟨_, List.mem_of_getElem? marked, rfl⟩

variable {body after : Body}

/-- The labels that have been put into a body are marked once each, as those before. -/
theorem IsMarked.extends
    {plan : LabelPlan}
    (isMarked : body.IsMarked)
    (extends_ : plan.Extends body after)
    (nextLabel_eq : after.nextLabel = plan.nextLabel) :
    after.IsMarked := by
  have issued : ∀ instruction ∈ after.instructions, ∀ label ∈ instruction.mentions,
      label.id < after.nextLabel.id := fun instruction present label mentioned =>
    nextLabel_eq ▸ extends_.id_lt_of_mem_instructions present
      (Instruction.mem_labels_iff.mpr mentioned)
  refine ⟨extends_.distinctMarks, fun label => ?_, fun label mentioned => ?_⟩
  · rw [mem_marks_iff]
    constructor
    · rintro ⟨place, marked⟩
      exact issued _ (List.mem_of_getElem? marked) label List.mem_cons_self
    · intro small
      by_cases old : label.id < body.nextLabel.id
      · obtain ⟨position, marked⟩ := mem_marks_iff.mp ((isMarked.mem_marks label).mpr old)
        exact ⟨_, extends_.marksAt_iff.mpr (Or.inl ⟨position, rfl, marked⟩)⟩
      · rw [nextLabel_eq] at small
        obtain ⟨placement, present, same⟩ :=
          extends_.issues.complete label.id (Nat.le_of_not_lt old) small
        obtain ⟨position, issuedLabel⟩ := placement
        obtain rfl : issuedLabel = label := congrArg Label.mk same
        have injected : plan.injected? position = some issuedLabel :=
          extends_.issues.placedAt?_eq_some_iff.mpr (LabelPlan.mem_injections.mpr present)
        exact ⟨_, extends_.marksAt_iff.mpr (Or.inr ⟨position, rfl, injected⟩)⟩
  · rcases List.mem_append.mp mentioned with inInstruction | inRange
    · obtain ⟨instruction, present, mentioned⟩ := List.mem_flatMap.mp inInstruction
      exact issued instruction present label mentioned
    · rw [extends_.ranges_eq] at inRange
      have before := isMarked.issued label (List.mem_append_right _ inRange)
      rw [nextLabel_eq]
      exact Nat.lt_of_lt_of_le before extends_.issues.nextLabel_le

/-- The instructions are those of the body and marks. -/
theorem mem_instructions_of_extends
    {plan : LabelPlan}
    (extends_ : plan.Extends body after)
    {instruction : Instruction}
    (present : instruction ∈ after.instructions)
    (unmarked : instruction.marks? = none) :
    instruction ∈ body.instructions := by
  obtain ⟨place, found⟩ := List.getElem?_of_mem present
  rw [extends_.instructions_eq_weave, getElem?_weave_eq_some_iff] at found
  obtain ⟨position, _, ⟨_, found⟩ | ⟨_, label, _, rfl⟩⟩ := found
  · exact List.mem_of_getElem? found
  · cases unmarked

/-! ## Bodies -/

/-- What can be read again has no names with line breaks. -/
theorem CanReread.onOneLine (canReread : body.CanReread) : body.OnOneLine where
  instructions instruction present := by
    cases marks : instruction.marks? with
    | none =>
        exact Instruction.supplies_onOneLine
          (canReread.instructions instruction present marks).isStatement.isPhrase.single
    | some label =>
        rw [Instruction.marks?_eq_some_iff.mp marks]
        exact trivial
  ranges range present := by
    have single := (canReread.ranges range present).isWord.isPhrase.single
    unfold ExceptionRange.caught
    cases catchType_eq : range.catchType with
    | none => exact (by decide : BinaryName.throwable.OnOneLine)
    | some name =>
        rw [catchType_eq] at single
        exact single

/-- Only the limits change. -/
theorem exists_setMaxes_eq (body : Body) (stack locals : Nat) :
    ∃ maxStack maxLocals,
      (body.setMaxes stack locals).1 = { body with maxStack, maxLocals } := by
  obtain ⟨set_eq, _⟩ | ⟨_, _, set_eq, _⟩ | ⟨_, _, _, _, set_eq⟩ :=
    body.setMaxes_cases stack locals <;> rw [set_eq] <;> exact ⟨_, _, rfl⟩

/-- A body that can be recomputed and then read again. -/
structure CanRecompute (body : Body) : Prop where
  canReread : body.CanReread
  ahead : body.Ahead
  isExact : body.IsExact

theorem CanRecompute.setMaxes (canRecompute : body.CanRecompute) (stack locals : Nat) :
    (body.setMaxes stack locals).1.CanRecompute := by
  obtain ⟨⟨instructions, ranges, frames, isMarked⟩, ahead, isExact⟩ := canRecompute
  obtain ⟨maxStack, maxLocals, changed⟩ := body.exists_setMaxes_eq stack locals
  rw [changed]
  exact ⟨⟨instructions, ranges, frames, isMarked.nodup, isMarked.mem_marks, isMarked.issued⟩,
    ahead, isExact⟩

section Frames

variable {thisClass : BinaryName} {method : Method} {hierarchy : Hierarchy} {threshold : Nat}

/-- No name in a slot breaks the line that it is written on. -/
theorem OnOneLine.all_notesIn
    (single : body.OnOneLine)
    (singleClass : thisClass.OnOneLine)
    (singleParameters : ∀ type ∈ method.descriptor.parameters, type.OnOneLine)
    (singleClasses : hierarchy.OnOneLine)
    (index : Nat) :
    ((body.notesIn thisClass method hierarchy threshold).getD index .blank).All
      Slot.OnOneLine := by
  have atEntry : ∀ slot ∈ body.localsIn thisClass method, Slot.OnOneLine slot :=
    FlowGraph.holds_of_mem_entryLocals supply_onOneLine.top body.instructions
      (method.holds_of_mem_typedStartLocals supply_onOneLine (Slot.onOneLine_object singleClass)
        fun type isParameter => Slot.onOneLine_ofFieldType (singleParameters type isParameter))
  exact TypeAnalysis.all_of_supplies
    (FlowGraph.supplies_onOneLine single singleClass singleClasses) (FlowGraph.closed_ofBody body)
    atEntry (Or.inl (FlowGraph.reaches_inferRun _ _ _)) index

/-- The frames that are found are written on one line each. -/
theorem OnOneLine.newline_notMem_framingIn
    (single : body.OnOneLine)
    (singleClass : thisClass.OnOneLine)
    (singleParameters : ∀ type ∈ method.descriptor.parameters, type.OnOneLine)
    (singleClasses : hierarchy.OnOneLine) :
    ∀ entry ∈ (body.framingIn thisClass method hierarchy threshold).frames,
      '\n' ∉ (entry.2.text Label.text).toList := by
  intro entry present
  by_cases empty : body.instructions = []
  · rw [framingIn_of_empty thisClass method hierarchy threshold empty] at present
    exact absurd present List.not_mem_nil
  · rw [framingIn_eq thisClass method hierarchy threshold empty] at present
    exact FlowGraph.newline_notMem_frame (size_notesIn thisClass method hierarchy threshold)
      (single.all_notesIn singleClass singleParameters singleClasses) present

/-- A body with recorded frames can be read again. -/
theorem CanRecompute.record
    (canRecompute : body.CanRecompute)
    (singleClass : thisClass.OnOneLine)
    (singleParameters : ∀ type ∈ method.descriptor.parameters, type.OnOneLine)
    (singleClasses : hierarchy.OnOneLine) :
    (body.record (body.framingIn thisClass method hierarchy threshold)).1.CanRecompute := by
  obtain ⟨canReread, ahead, isExact⟩ := canRecompute
  have records := body.records_record (body.framingIn thisClass method hierarchy threshold)
  obtain ⟨plan, extends_, _, nextLabel_eq, fit⟩ :=
    records.exists_extends canReread.isMarked.nodup ahead
  refine ⟨⟨fun instruction present unmarked => ?_, ?_, ?_, ?_⟩, ?_, fun instruction present => ?_⟩
  · exact canReread.instructions instruction
      (mem_instructions_of_extends extends_ present unmarked) unmarked
  · exact extends_.ranges_eq ▸ canReread.ranges
  · rw [records.frames_eq]
    exact canReread.onOneLine.newline_notMem_framingIn singleClass singleParameters singleClasses
  · exact canReread.isMarked.extends extends_ nextLabel_eq
  · exact extends_.ahead_after nextLabel_eq fit
  · cases marks : instruction.marks? with
    | none => exact isExact instruction (mem_instructions_of_extends extends_ present marks)
    | some label => exact Instruction.marks?_eq_some_iff.mp marks ▸ trivial

end Frames

/-- A recomputed body can be read again. -/
theorem CanRecompute.recompute
    {thisClass : BinaryName}
    {method : Method}
    {hierarchy : Option Hierarchy}
    (canRecompute : body.CanRecompute)
    (singleClass : thisClass.OnOneLine)
    (singleParameters : ∀ type ∈ method.descriptor.parameters, type.OnOneLine)
    (singleClasses : ∀ classes ∈ hierarchy, classes.OnOneLine)
    (settings : Settings) :
    (body.recompute thisClass method hierarchy settings).1.CanRecompute := by
  cases chosen : settings.compute with
  | nothing =>
      unfold Body.recompute
      rw [chosen]
      exact canRecompute
  | maxes =>
      unfold Body.recompute
      rw [chosen]
      exact canRecompute.setMaxes _ _
  | frames =>
      cases hierarchy with
      | none =>
          unfold Body.recompute
          rw [chosen]
          exact canRecompute.setMaxes _ _
      | some classes =>
          rw [recompute_of_frames thisClass method classes chosen]
          exact canRecompute.record singleClass singleParameters (singleClasses classes rfl)

end Body

/-! ## Methods, classes and listings -/

/-- What every change keeps holds afterwards, whether a change has failed or not. -/
theorem forall_mem_changeUntilError
    {α : Type}
    {Holds : α → Prop}
    {change : α → α × Option Error}
    {elements : List α}
    (keeps : ∀ element, Holds element → Holds (change element).1)
    (all : ∀ element ∈ elements, Holds element) :
    ∀ element ∈ (changeUntilError change elements).1, Holds element := by
  unfold changeUntilError
  simp only [List.mem_reverse]
  refine List.foldlRecOn
    (motive := fun state : List α × Option Error => ∀ element ∈ state.1, Holds element) elements _
    (fun _ absent => absurd absent List.not_mem_nil) ?_
  intro state changed element present
  have holds := all element present
  cases state.2 with
  | some error => exact List.forall_mem_cons.mpr ⟨holds, changed⟩
  | none => exact List.forall_mem_cons.mpr ⟨keeps element holds, changed⟩

/-- A method the body of which can be recomputed and then read again. -/
structure Method.CanRecompute (method : Method) : Prop where
  canReread : method.CanReread
  body : ∀ body ∈ method.body, body.CanRecompute

/-- A class with such methods. -/
structure ClassDefinition.CanRecompute (definition : ClassDefinition) : Prop where
  canReread : definition.CanReread
  methods : ∀ method ∈ definition.methods, method.CanRecompute

/-- A listing of such classes. -/
def Listing.CanRecompute (listing : Listing) : Prop :=
  ∀ definition ∈ listing.classes, definition.CanRecompute

section Recompute

variable {hierarchy : Option Hierarchy} (single : ∀ classes ∈ hierarchy, classes.OnOneLine)
variable (settings : Settings)

include single

theorem Method.CanRecompute.recompute
    {method : Method}
    {thisClass : BinaryName}
    (canRecompute : method.CanRecompute)
    (singleClass : thisClass.OnOneLine) :
    (method.recompute thisClass hierarchy settings).1.CanRecompute := by
  obtain ⟨⟨header, bodiless, canReread⟩, canRecompute⟩ := canRecompute
  have singleHeader : '\n' ∉ method.descriptor.render.toList := fun broken => by
    refine header.isWord.isPhrase.single ?_
    rw [String.toList_append]
    exact List.mem_append_right _ broken
  unfold Method.recompute
  split
  · exact ⟨⟨header, bodiless, canReread⟩, canRecompute⟩
  next body hasBody =>
      rw [hasBody] at bodiless
      have recomputed := (canRecompute body hasBody).recompute singleClass
        (MethodDescriptor.onOneLine_of_render singleHeader).1 single settings
      exact ⟨⟨header, bodiless, fun _ same => Option.some.inj same ▸ recomputed.canReread⟩,
        fun _ same => Option.some.inj same ▸ recomputed⟩

theorem ClassDefinition.CanRecompute.recompute
    {definition : ClassDefinition}
    (canRecompute : definition.CanRecompute) :
    (definition.recompute hierarchy settings).1.CanRecompute := by
  obtain ⟨canReread, methods⟩ := canRecompute
  have recomputed := forall_mem_changeUntilError
    (fun (method : Method) (holds : method.CanRecompute) =>
      holds.recompute single settings canReread.isWord.isPhrase.single) methods
  exact ⟨⟨canReread.flags, canReread.isWord, canReread.isClear, canReread.superclass,
    canReread.isRoot, canReread.interfaces, fun method present =>
      (recomputed method present).canReread⟩, recomputed⟩

theorem Listing.CanRecompute.recompute
    {listing : Listing}
    (canRecompute : listing.CanRecompute) :
    (listing.recompute hierarchy settings).1.CanRecompute := by
  have classes := forall_mem_changeUntilError
    (fun (definition : ClassDefinition) (holds : definition.CanRecompute) =>
      holds.recompute single settings) canRecompute
  exact fun definition present => classes definition present

end Recompute

namespace Listing

variable {listing : Listing} {source : String}

theorem CanRecompute.canReread (canRecompute : listing.CanRecompute) : listing.CanReread :=
  fun definition present => (canRecompute definition present).canReread

end Listing

end StackMaps
