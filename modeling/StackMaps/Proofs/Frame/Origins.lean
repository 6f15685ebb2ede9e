import StackMaps.Frame.Basic

/-!
# Origins in frames

A frame is made of the types of its slots, and a description of it of some of these. So
the objects in a description are among those in the slots.
-/

namespace StackMaps

variable {Operand Origin : Type}

/-- The origin of an uninitialized object. -/
def VerificationType.origin? : VerificationType Operand Origin → Option Origin
  | .uninitialized origin => some origin
  | _ => none

theorem VerificationType.origin?_eq_some_iff
    {type : VerificationType Operand Origin}
    {origin : Origin} :
    type.origin? = some origin ↔ type = .uninitialized origin := by
  cases type <;> simp [origin?]

/-- The types in a description of a frame. -/
def StackMapFrame.types : StackMapFrame Operand Origin → List (VerificationType Operand Origin)
  | .same stack => stack.toList
  | .chop _ => []
  | .append locals => locals
  | .full locals stack => locals ++ stack

/-- The origins of the uninitialized objects in a description of a frame. -/
def StackMapFrame.origins (frame : StackMapFrame Operand Origin) : List Origin :=
  frame.types.filterMap VerificationType.origin?

theorem StackMapFrame.mem_origins_iff
    {frame : StackMapFrame Operand Origin}
    {origin : Origin} :
    origin ∈ frame.origins ↔ .uninitialized origin ∈ frame.types := by
  simp [origins, VerificationType.origin?_eq_some_iff]

/-- A value is read off a slot. -/
theorem exists_mem_of_mem_collapse
    {slots : List (Option (VerificationType Operand Origin))}
    {type : VerificationType Operand Origin}
    (present : type ∈ collapse slots) :
    ∃ slot ∈ slots, type = slot.getD .top := by
  induction slots using collapse_induction with
  | nil => simp at present
  | cons slot rest hypothesis =>
      rw [collapse_cons, List.mem_cons] at present
      rcases present with rfl | later
      · exact ⟨slot, List.mem_cons_self, rfl⟩
      · obtain ⟨other, among, same⟩ := hypothesis later
        refine ⟨other, List.mem_cons_of_mem _ ?_, same⟩
        split at among
        · exact List.mem_of_mem_drop among
        · exact among

namespace Frame

variable [DecidableEq Operand] [DecidableEq Origin]

/-- The values of a frame, unless they are `top`, lie in the slots that it is made of. -/
theorem mem_of_mem_ofSlots
    {locals stack : List (Option (VerificationType Operand Origin))}
    {type : VerificationType Operand Origin}
    (present : type ∈ (ofSlots locals stack).locals ++ (ofSlots locals stack).stack)
    (known : type ≠ .top) :
    some type ∈ locals ++ stack := by
  have slot_eq : ∀ slot : Option (VerificationType Operand Origin),
      type = slot.getD .top → slot = some type := by
    rintro (_ | held) same
    · exact absurd same known
    · exact congrArg some same.symm
  rw [List.mem_append]
  rcases List.mem_append.mp present with inLocals | onStack
  · have among := (List.dropWhile_sublist _).subset (List.mem_reverse.mp inLocals)
    obtain ⟨slot, held, same⟩ := exists_mem_of_mem_collapse (List.mem_reverse.mp among)
    exact Or.inl (slot_eq slot same ▸ held)
  · obtain ⟨slot, held, same⟩ := exists_mem_of_mem_collapse onStack
    exact Or.inr (slot_eq slot same ▸ held)

/-- A description of a frame holds types of the frame alone. -/
theorem types_compact_subset (frame previous : Frame Operand Origin) :
    (frame.compact previous).types ⊆ frame.locals ++ frame.stack := by
  unfold compact
  dsimp only
  split
  next empty =>
      split
      · exact List.nil_subset _
      · split
        · exact List.subset_append_of_subset_left _ (List.drop_subset _ _)
        · split
          · exact List.nil_subset _
          · exact List.Subset.refl _
  next type single =>
      split
      · rw [single]
        exact List.subset_append_right _ _
      · exact List.Subset.refl _
  next => exact List.Subset.refl _

end Frame

end StackMaps
