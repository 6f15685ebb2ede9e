import StackMaps.Proofs.Flow.Control
import StackMaps.Proofs.Frame.Origins

/-!
# Labels of a body

A label occurs in a body as a mark, as the target of a jump, in a range or in a frame. If
no label is marked twice, the position of a label is where it is marked.
-/

namespace StackMaps

/-- The labels in an instruction. -/
def Instruction.labels (instruction : Instruction) : List Label :=
  instruction.marks?.toList ++ instruction.jumpTargets

/-- The labels of a range. -/
def ExceptionRange.labels (range : ExceptionRange) : List Label :=
  [range.start, range.stop, range.handler]

namespace Body

/-- All labels in a body, those in its frames last. -/
def labels (body : Body) : List Label :=
  body.instructions.flatMap Instruction.labels ++ body.ranges.flatMap ExceptionRange.labels ++
    body.frames.flatMap fun frame => frame.1 :: frame.2.origins

/-- The labels to be issued are none of those in the body. -/
def Ahead (body : Body) : Prop :=
  ∀ label ∈ body.labels, label.id < body.nextLabel.id

/-- No label is marked twice. -/
def DistinctMarks (body : Body) : Prop :=
  (body.instructions.filterMap Instruction.marks?).Nodup

instance (body : Body) : Decidable body.Ahead :=
  inferInstanceAs (Decidable (∀ label ∈ body.labels, label.id < body.nextLabel.id))

instance (body : Body) : Decidable body.DistinctMarks :=
  inferInstanceAs (Decidable (body.instructions.filterMap Instruction.marks?).Nodup)

variable {body : Body} {label : Label} {position : Nat}

theorem distinctMarks_iff :
    body.DistinctMarks ↔ ∀ (first second : Nat) (label : Label),
      body.instructions[first]? = some (.mark label) →
      body.instructions[second]? = some (.mark label) → first = second := by
  unfold DistinctMarks
  rw [List.Nodup, List.pairwise_filterMap, List.pairwise_iff_getElem]
  simp only [Instruction.marks?_eq_some_iff]
  constructor
  · intro apart first second label found foundToo
    obtain ⟨inside, mark_eq⟩ := List.getElem?_eq_some_iff.mp found
    obtain ⟨insideToo, markToo_eq⟩ := List.getElem?_eq_some_iff.mp foundToo
    rcases Nat.lt_trichotomy first second with less | same | greater
    · exact absurd rfl (apart first second inside insideToo less label mark_eq label markToo_eq)
    · exact same
    · exact absurd rfl (apart second first insideToo inside greater label markToo_eq label mark_eq)
  · rintro same first second inside insideToo less label mark_eq other markToo_eq rfl
    have := same first second label (List.getElem?_eq_some_iff.mpr ⟨inside, mark_eq⟩)
      (List.getElem?_eq_some_iff.mpr ⟨insideToo, markToo_eq⟩)
    omega

/-- The position of a label is where it is marked. -/
theorem DistinctMarks.positionOf?_eq_some_iff (distinct : body.DistinctMarks) :
    body.positionOf? label = some position ↔
      body.instructions[position]? = some (.mark label) := by
  refine ⟨getElem?_of_positionOf?, fun found => ?_⟩
  cases placed : body.positionOf? label with
  | some first =>
      exact congrArg some
        (distinctMarks_iff.mp distinct _ _ _ (getElem?_of_positionOf? placed) found)
  | none =>
      have absent := List.findIdx?_eq_none_iff.mp placed _ (List.mem_of_getElem? found)
      simp [Instruction.marks?] at absent

theorem Ahead.of_mem_instructions
    (ahead : body.Ahead)
    {instruction : Instruction}
    (present : instruction ∈ body.instructions)
    (occurs : label ∈ instruction.labels) :
    label.id < body.nextLabel.id :=
  ahead label (List.mem_append_left _
    (List.mem_append_left _ (List.mem_flatMap.mpr ⟨instruction, present, occurs⟩)))

theorem Ahead.of_mem_ranges
    (ahead : body.Ahead)
    {range : ExceptionRange}
    (present : range ∈ body.ranges)
    (occurs : label ∈ range.labels) :
    label.id < body.nextLabel.id :=
  ahead label (List.mem_append_left _
    (List.mem_append_right _ (List.mem_flatMap.mpr ⟨range, present, occurs⟩)))

end Body

end StackMaps
