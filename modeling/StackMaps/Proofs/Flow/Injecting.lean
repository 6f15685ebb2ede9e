import StackMaps.Proofs.Flow.Issuing
import StackMaps.Proofs.Frame.Fitting

/-!
# Bodies with issued labels

The labels that have been issued for real instructions are put into the body. All labels
are marked once afterwards, and the labels for instructions stand in front of them.
-/

namespace StackMaps
namespace LabelPlan

/-- The label that is to be put in front of a position. -/
def injected? (plan : LabelPlan) (position : Nat) : Option Label :=
  Body.placedAt? plan.injections position

/-- The labels that a plan has issued for real instructions of a body have been put into
it, and its ranges have been left alone. -/
structure Extends (plan : LabelPlan) (body after : Body) : Prop where
  issues : plan.Issues body body.IsReal
  distinct : body.DistinctMarks
  ahead : body.Ahead
  instructions_eq : after.instructions = Body.placeLabels body.instructions plan.injections
  ranges_eq : after.ranges = body.ranges

namespace Extends

variable {plan : LabelPlan} {body after : Body} {label : Label} {position place : Nat}

section Labels

variable (extends_ : plan.Extends body after)

include extends_

/-- A label is put only in front of a real instruction, and none of the body is put. -/
theorem of_injected?
    (injected : plan.injected? position = some label) :
    body.IsReal position ∧ body.nextLabel.id ≤ label.id ∧ label.id < plan.nextLabel.id := by
  obtain ⟨_, _, real, bounds⟩ := extends_.issues.of_placedAt? injected
  exact ⟨real, bounds⟩

/-- A mark in the body is not one that has been put there. -/
theorem injected?_ne_some_of_marksAt
    (marked : body.MarksAt label position)
    (other : Nat) :
    plan.injected? other ≠ some label := by
  intro injected
  have fresh := (extends_.of_injected? injected).2.1
  have known : label.id < body.nextLabel.id :=
    extends_.ahead.of_mem_instructions (List.mem_of_getElem? marked)
      (by simp [Instruction.labels, Instruction.marks?])
  omega

/-- No label is put in front of a mark. -/
theorem injected?_eq_none_of_marksAt (marked : body.MarksAt label position) :
    plan.injected? position = none := by
  cases injected : plan.injected? position with
  | none => rfl
  | some other => exact absurd (extends_.of_injected? injected).1 marked.not_isReal

/-- The labels are woven between the instructions. -/
theorem instructions_eq_weave :
    after.instructions = weave plan.injected? 0 body.instructions := by
  rw [extends_.instructions_eq]
  refine Body.placeLabels_eq extends_.issues.ascending_injections fun placement present => ?_
  have placed : plan.injected? placement.1 = some placement.2 :=
    extends_.issues.placedAt?_eq_some_iff.mpr present
  obtain ⟨instruction, found, _⟩ := (extends_.of_injected? placed).1
  exact (List.getElem?_eq_some_iff.mp found).1

theorem getElem?_moved (position : Nat) :
    after.instructions[moved plan.injected? position]? = body.instructions[position]? := by
  rw [extends_.instructions_eq_weave, getElem?_weave_moved]

theorem isReal_moved (real : body.IsReal position) :
    after.IsReal (moved plan.injected? position) := by
  obtain ⟨instruction, found, real⟩ := real
  exact ⟨instruction, (extends_.getElem?_moved position).trans found, real⟩

theorem allocates_moved (allocates : body.Allocates position) :
    after.Allocates (moved plan.injected? position) := by
  obtain ⟨operand, found⟩ := allocates
  exact ⟨operand, (extends_.getElem?_moved position).trans found⟩

/-- Each mark is one of the body or has been put there. -/
theorem marksAt_iff :
    after.MarksAt label place ↔
      (∃ position, place = moved plan.injected? position ∧ body.MarksAt label position) ∨
        ∃ position, place = front plan.injected? position ∧
          plan.injected? position = some label := by
  rw [Body.MarksAt, extends_.instructions_eq_weave, getElem?_weave_eq_some_iff]
  constructor
  · rintro ⟨position, _, ⟨place_eq, found⟩ | ⟨place_eq, other, injected, same⟩⟩
    · exact Or.inl ⟨position, place_eq, found⟩
    · cases same
      exact Or.inr ⟨position, place_eq, injected⟩
  · rintro (⟨position, place_eq, marked⟩ | ⟨position, place_eq, injected⟩)
    · exact ⟨position, (List.getElem?_eq_some_iff.mp marked).1, Or.inl ⟨place_eq, marked⟩⟩
    · obtain ⟨instruction, found, _⟩ := (extends_.of_injected? injected).1
      exact ⟨position, (List.getElem?_eq_some_iff.mp found).1,
        Or.inr ⟨place_eq, label, injected, rfl⟩⟩

/-- No label is marked twice afterwards. -/
theorem distinctMarks : after.DistinctMarks := by
  refine Body.distinctMarks_iff.mpr fun first second label found foundToo => ?_
  rcases extends_.marksAt_iff.mp found with
    ⟨position, rfl, marked⟩ | ⟨position, rfl, injected⟩ <;>
  rcases extends_.marksAt_iff.mp foundToo with
    ⟨other, rfl, markedToo⟩ | ⟨other, rfl, injectedToo⟩
  · rw [Body.distinctMarks_iff.mp extends_.distinct _ _ _ marked markedToo]
  · exact absurd injectedToo (extends_.injected?_ne_some_of_marksAt marked other)
  · exact absurd injected (extends_.injected?_ne_some_of_marksAt markedToo position)
  · rw [extends_.issues.position_eq_of_placedAt? injected injectedToo]

/-- The label for a real instruction stands in front of it. -/
theorem fronts
    (real : body.IsReal position)
    (labelled : (plan.find? position).isSome) :
    after.Fronts (plan.label position) (moved plan.injected? position) := by
  obtain ⟨instruction, found, isReal⟩ := real
  obtain ⟨before, same, marked⟩ :=
    extends_.issues.getElem?_weave_label found isReal labelled
  have markedAfter : after.MarksAt (plan.label position) before := by
    rw [Body.MarksAt, extends_.instructions_eq_weave]
    exact marked
  refine ⟨⟨before, same, markedAfter⟩, extends_.isReal_moved ⟨instruction, found, isReal⟩, ?_⟩
  intro place markedToo
  rw [Body.distinctMarks_iff.mp extends_.distinctMarks _ _ _ markedToo markedAfter]
  exact same

/-- Without the labels that have been put there, the instructions are the same. -/
theorem filter_instructions :
    after.instructions.filter
        (fun instruction => !(plan.injections.map (·.2)).any (instruction.marks? == some ·)) =
      body.instructions := by
  rw [extends_.instructions_eq_weave, filter_weave]
  · refine List.filter_eq_self.mpr fun instruction present => ?_
    rw [Bool.not_eq_true', List.any_eq_false]
    intro label issued same
    obtain ⟨⟨position, _⟩, among, rfl⟩ := List.mem_map.mp issued
    have marks := Instruction.marks?_eq_some_iff.mp (beq_iff_eq.mp same)
    obtain ⟨place, found⟩ := List.getElem?_of_mem present
    exact extends_.injected?_ne_some_of_marksAt (marks ▸ found) position
      (extends_.issues.placedAt?_eq_some_iff.mpr among)
  · intro position label injected
    have present := extends_.issues.placedAt?_eq_some_iff.mp injected
    rw [Bool.not_eq_false', List.any_eq_true]
    exact ⟨label, List.mem_map_of_mem present, beq_iff_eq.mpr rfl⟩

/-- The next label to be issued is ahead of those in the instructions. -/
theorem id_lt_of_mem_instructions
    {instruction : Instruction}
    (present : instruction ∈ after.instructions)
    (occurs : label ∈ instruction.labels) :
    label.id < plan.nextLabel.id := by
  obtain ⟨place, found⟩ := List.getElem?_of_mem present
  rw [extends_.instructions_eq_weave, getElem?_weave_eq_some_iff] at found
  obtain ⟨position, _, ⟨_, found⟩ | ⟨_, other, injected, rfl⟩⟩ := found
  · exact Nat.lt_of_lt_of_le
      (extends_.ahead.of_mem_instructions (List.mem_of_getElem? found) occurs)
      extends_.issues.nextLabel_le
  · obtain rfl : label = other := by
      simpa [Instruction.labels, Instruction.marks?, Instruction.jumpTargets] using occurs
    exact (extends_.of_injected? injected).2.2

/-- The next label to be issued is ahead of all labels, if the frames fit. -/
theorem ahead_after
    (nextLabel_eq : after.nextLabel = plan.nextLabel)
    (fit : after.FramesFit) :
    after.Ahead := by
  intro label occurs
  rw [nextLabel_eq]
  rcases List.mem_append.mp occurs with inBody | inFrames
  · rcases List.mem_append.mp inBody with inInstructions | inRanges
    · obtain ⟨instruction, present, occurs⟩ := List.mem_flatMap.mp inInstructions
      exact extends_.id_lt_of_mem_instructions present occurs
    · rw [extends_.ranges_eq] at inRanges
      obtain ⟨range, present, occurs⟩ := List.mem_flatMap.mp inRanges
      exact Nat.lt_of_lt_of_le (extends_.ahead.of_mem_ranges present occurs)
        extends_.issues.nextLabel_le
  · obtain ⟨frame, present, occurs⟩ := List.mem_flatMap.mp inFrames
    obtain ⟨position, marked, _⟩ := fit.placed frame present label occurs
    exact extends_.id_lt_of_mem_instructions (List.mem_of_getElem? marked)
      (by simp [Instruction.labels, Instruction.marks?])

end Labels

end Extends
end LabelPlan
end StackMaps
