import StackMaps.Proofs.Body.Rereading
import StackMaps.Proofs.Flow.ControlFlow
import StackMaps.Proofs.Flow.FrameLabels
import StackMaps.Proofs.Flow.Outcome
import StackMaps.Proofs.Slots.Naming

/-!
# Names in frames

A frame is written behind the start of a comment, on one line. The names in it come from the
body, the method and the hierarchy, and so no frame breaks its line if none of these has a
name that does.
-/

namespace StackMaps

/-! ## Written frames -/

theorem Label.newline_notMem_text (label : Label) : '\n' ∉ label.text.toList :=
  (Listing.isWord_labelText label).isPhrase.single

theorem VerificationType.newline_notMem_text
    {type : VerificationType RefType Label}
    (single : ∀ operand, type = .object operand → operand.OnOneLine) :
    '\n' ∉ (type.text Label.text).toList := by
  cases type with
  | object operand => exact RefType.onOneLine_iff_operand.mp (single operand rfl)
  | uninitialized label => simp [text, label.newline_notMem_text]
  | _ => decide

namespace StackMapFrame

theorem newline_notMem_typesText
    {types : List (VerificationType RefType Label)}
    (single : ∀ operand, .object operand ∈ types → operand.OnOneLine) :
    '\n' ∉ (typesText Label.text types).toList := by
  have joined : '\n' ∉ (String.intercalate ", " (types.map (·.text Label.text))).toList := by
    rw [String.toList_intercalate]
    induction types with
    | nil => exact List.not_mem_nil
    | cons first others hypothesis =>
        have singleFirst := VerificationType.newline_notMem_text
          fun operand same => single operand (same ▸ List.mem_cons_self)
        have singleOthers := hypothesis fun operand present =>
          single operand (List.mem_cons_of_mem _ present)
        cases others with
        | nil => simpa using singleFirst
        | cons second others =>
            rw [List.map_cons, List.map_cons, List.map_cons, List.map_cons,
              List.intercalate_cons_cons]
            simpa [singleFirst] using singleOthers
  rw [typesText, String.toList_append, String.toList_append, List.mem_append, List.mem_append]
  exact not_or.mpr ⟨not_or.mpr ⟨by decide, joined⟩, by decide⟩

/-- A written frame has no line breaks but those in its names. -/
theorem newline_notMem_text
    {frame : StackMapFrame RefType Label}
    (single : ∀ operand, .object operand ∈ frame.types → operand.OnOneLine) :
    '\n' ∉ (frame.text Label.text).toList := by
  unfold text
  cases frame with
  | same stack =>
      cases stack with
      | none => decide
      | some type =>
          have singleType := VerificationType.newline_notMem_text
            fun operand same => single operand (List.mem_singleton.mpr same.symm)
          simp [kind, singleType]
  | chop count =>
      have digits : '\n' ∉ (toString count).toList :=
        (Listing.isWord_toString_nat count.toNat).isPhrase.single
      simp [kind, Listing.toString_string, digits]
  | append locals =>
      have singleTypes : '\n' ∉ (typesText Label.text locals).toList :=
        newline_notMem_typesText single
      simp [kind, singleTypes]
  | full locals stack =>
      have singleLocals := newline_notMem_typesText fun operand present =>
        single operand (List.mem_append_left _ present)
      have singleStack := newline_notMem_typesText fun operand present =>
        single operand (List.mem_append_right _ present)
      simp [kind, singleLocals, singleStack]

end StackMapFrame

/-! ## Names in a body -/

/-- The names in a body that end up in slots are written on one line. -/
structure Body.OnOneLine (body : Body) : Prop where
  instructions : ∀ instruction ∈ body.instructions, instruction.Supplies Slot.OnOneLine
  ranges : ∀ range ∈ body.ranges, range.caught.OnOneLine

namespace FlowGraph

variable {body : Body} {hierarchy : Hierarchy} {threshold : Nat} {thisClass : BinaryName}

theorem supplies_onOneLine
    (single : body.OnOneLine)
    (singleClass : thisClass.OnOneLine)
    (singleClasses : hierarchy.OnOneLine) :
    (body.typingContext hierarchy threshold thisClass).Supplies (ofBody body)
      Slot.OnOneLine where
  supply := supply_onOneLine
  method := MethodContext.supplies_of_instructions (Slot.onOneLine_object singleClass)
    single.instructions
  merges := singleClasses.merges
  instructions _ _ found _ present := by
    obtain ⟨offset, inBlock⟩ := List.getElem?_of_mem present
    rw [getElem?_instructions found (List.getElem?_eq_some_iff.mp inBlock).1] at inBlock
    exact single.instructions _ (List.mem_of_getElem? inBlock)
  fresh _ _ _ _ _ _ _ _ _ := Slot.onOneLine_uninitialized _
  thrown _ _ found successor present := by
    obtain ⟨target, edge⟩ := successor
    cases edge with
    | normal => exact trivial
    | exception types =>
        intro type thrown
        obtain ⟨range, _, _, _, places, _, rfl, _⟩ :=
          (exception_iff found).mp ⟨types, present, thrown⟩
        exact Slot.onOneLine_object (single.ranges range places.mem_ranges)

/-- The frames that are found are written on one line each. -/
theorem newline_notMem_frame
    {locals : List Slot}
    {notes : Array Notes}
    (size_eq : notes.size = (ofBody body).blocks.size)
    (single : ∀ index, (notes.getD index .blank).All Slot.OnOneLine)
    {entry : Label × BodyFrame}
    (present : entry ∈ ((ofBody body).framing body locals notes).frames) :
    '\n' ∉ (entry.2.text Label.text).toList := by
  obtain ⟨site, among, previous, _, form_eq⟩ := exists_site_of_mem_frames present
  have all := all_of_mem_frameSites size_eq single among
  refine StackMapFrame.newline_notMem_text fun operand occurs => ?_
  rw [form_eq] at occurs
  obtain ⟨type, inSlots, type_eq⟩ := exists_slot_of_mem_types occurs (by simp)
  cases type with
  | object known =>
      obtain rfl : known = operand := VerificationType.object.inj type_eq
      rw [List.mem_append, List.mem_reverse] at inSlots
      exact inSlots.elim (all.locals _ · known rfl) (all.stack _ · known rfl)
  | _ => cases type_eq

end FlowGraph

end StackMaps
