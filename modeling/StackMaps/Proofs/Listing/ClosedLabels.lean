import StackMaps.Proofs.Body.Labels
import StackMaps.Proofs.Listing.Parsing

/-!
# Closed labels

The labels of a body that has been read are closed: all that is referred to is marked, once
each, and all that is issued later is new. Labels are issued by whatever mentions them first,
be it a mark, a jump, a switch or a protected range, so that this is not seen before the end of
the method.
-/

namespace StackMaps

theorem Instruction.mem_labels_iff {instruction : Instruction} {label : Label} :
    label ∈ instruction.labels ↔ label ∈ instruction.mentions := by
  cases instruction <;> simp [labels, mentions, marks?, jumpTargets, or_comm]

namespace Body

/-- The labels that the jumps, the switches and the ranges of a body refer to. -/
def references (body : Body) : List Label :=
  body.instructions.flatMap Instruction.jumpTargets ++
    body.ranges.flatMap ExceptionRange.labels

/-- The label that a body issues after some others. -/
def issue (body : Body) (count : Nat) : Label :=
  ((fun issuing : Body => issuing.freshLabel.2)^[count] body).freshLabel.1

/-- The marks are the labels that have been issued. All that is referred to is marked in one
place, and all that is issued from now on is new. -/
structure IsLabelClosed (body : Body) : Prop where
  distinctMarks : body.DistinctMarks
  mem_marks_iff : ∀ label,
    label ∈ body.instructions.filterMap Instruction.marks? ↔ label.id < body.nextLabel.id
  placed : ∀ label ∈ body.references,
    ∃! position : Nat, body.instructions[position]? = some (.mark label)
  issue_notMem : ∀ count, body.issue count ∉ body.labels
  issue_injective : Function.Injective body.issue

variable {body : Body} {label : Label}

theorem issue_eq (body : Body) (count : Nat) :
    body.issue count = ⟨body.nextLabel.id + count⟩ := by
  induction count generalizing body with
  | zero => rfl
  | succ count hypothesis =>
      rw [issue, Function.iterate_succ_apply]
      refine (hypothesis body.freshLabel.2).trans (congrArg Label.mk ?_)
      change body.nextLabel.id + 1 + count = _
      omega

theorem issue_injective (body : Body) : Function.Injective body.issue := by
  intro count other same
  rw [issue_eq, issue_eq] at same
  exact Nat.add_left_cancel (congrArg Label.id same)

/-- No label that is issued is among the earlier ones. -/
theorem Ahead.issue_notMem (ahead : body.Ahead) (count : Nat) :
    body.issue count ∉ body.labels := by
  intro present
  have small := ahead _ present
  rw [issue_eq] at small
  exact Nat.not_lt.mpr (Nat.le_add_right _ count) small

/-- What is referred to is mentioned in the written form. -/
theorem mem_mentions_of_mem_references (present : label ∈ body.references) :
    label ∈ body.mentions := by
  rcases List.mem_append.mp present with inInstructions | inRanges
  · obtain ⟨instruction, isListed, isTarget⟩ := List.mem_flatMap.mp inInstructions
    exact List.mem_append_left _ (List.mem_flatMap.mpr ⟨instruction, isListed,
      Instruction.mem_labels_iff.mp (List.mem_append_right _ isTarget)⟩)
  · exact List.mem_append_right _ inRanges

namespace IsMarked

/-- The labels that are issued next are none of those in a body without frames. -/
theorem ahead (isMarked : body.IsMarked) (bare : body.frames = []) : body.Ahead := by
  intro label occurs
  refine isMarked.issued label ?_
  rw [labels, bare, List.flatMap_nil, List.append_nil] at occurs
  rcases List.mem_append.mp occurs with inInstruction | inRange
  · obtain ⟨instruction, present, occurs⟩ := List.mem_flatMap.mp inInstruction
    exact List.mem_append_left _ (List.mem_flatMap.mpr
      ⟨instruction, present, Instruction.mem_labels_iff.mp occurs⟩)
  · exact List.mem_append_right _ inRange

/-- A label that has been issued is marked in one place. -/
theorem existsUnique_mark
    (isMarked : body.IsMarked)
    (small : label.id < body.nextLabel.id) :
    ∃! position : Nat, body.instructions[position]? = some (.mark label) := by
  obtain ⟨instruction, present, marks⟩ :=
    List.mem_filterMap.mp ((isMarked.mem_marks label).mpr small)
  rw [Instruction.marks?_eq_some_iff.mp marks] at present
  obtain ⟨position, found⟩ := List.getElem?_of_mem present
  exact ⟨position, found, fun other foundToo =>
    distinctMarks_iff.mp isMarked.nodup other position label foundToo found⟩

theorem isLabelClosed (isMarked : body.IsMarked) (bare : body.frames = []) :
    body.IsLabelClosed where
  distinctMarks := isMarked.nodup
  mem_marks_iff := isMarked.mem_marks
  placed label present :=
    isMarked.existsUnique_mark (isMarked.issued label (mem_mentions_of_mem_references present))
  issue_notMem := (isMarked.ahead bare).issue_notMem
  issue_injective := body.issue_injective

end IsMarked
end Body

namespace Listing

/-- A class that has nothing but a method can be read again if the method can. -/
theorem canReread_single
    {name : BinaryName}
    {method : Method}
    (isWord : Text.IsWord name.text.toList)
    (isClear : IsClear .start name.text.toList)
    (canReread : method.CanReread) :
    Listing.CanReread
      ⟨[{ name, superclass := some .object, interfaces := [], flags := .empty,
          methods := [method] }]⟩ :=
  List.forall_mem_singleton.mpr
    { flags := (by decide : ClassFlags.ofBits ClassFlags.empty.bits = .empty)
      isWord
      isClear
      superclass := fun _ same => Option.some.inj same ▸ isStatement_object
      isRoot := nofun
      interfaces := nofun
      methods := List.forall_mem_singleton.mpr canReread }

/-- A body with both kinds of switches, a jump and a protected range. The labels do not come in
the order of their numbers. -/
def switchingBody : Body :=
  .ofInstructions
    [.mark ⟨2⟩, .push (.integer 1), .tableSwitch ⟨3⟩ 7 [⟨0⟩, ⟨3⟩], .mark ⟨0⟩,
      .push (.integer 1), .lookupSwitch ⟨2⟩ [(5, ⟨0⟩)], .mark ⟨3⟩, .branch .goto ⟨2⟩, .mark ⟨1⟩]
    [⟨⟨2⟩, ⟨3⟩, ⟨3⟩, none⟩, ⟨⟨0⟩, ⟨1⟩, ⟨2⟩, some .throwable⟩] ⟨4⟩

/-- A class with a method that has the body. -/
def switchingListing : Listing :=
  ⟨[{ name := ⟨"Switching", by decide⟩
      superclass := some .object
      interfaces := []
      flags := .empty
      methods :=
        [{ name := ⟨"main", by decide⟩
           descriptor := ⟨[], none⟩
           flags := .empty
           body := some switchingBody }] }]⟩

theorem canReread_switchingBody : switchingBody.CanReread where
  instructions := by
    have noMark : ∀ label, CanRereadLine (.mark label) := fun label unmarked => nomatch unmarked
    have jump := @canReread_branch .goto "goto" ⟨2⟩ (by decide +kernel) rfl
    have table := @canReread_tableSwitch "tableswitch" ⟨3⟩ 7 [⟨0⟩, ⟨3⟩] (by decide +kernel)
    have lookup := @canReread_lookupSwitch "lookupswitch" ⟨2⟩ [(5, ⟨0⟩)] (by decide +kernel)
    have push := canReread_push_integer 1
    simp only [switchingBody, Body.ofInstructions, List.forall_mem_cons, List.not_mem_nil,
      false_implies, implies_true, and_true]
    exact ⟨noMark _, fun _ => push, fun _ => table, noMark _, fun _ => push, fun _ => lookup,
      noMark _, fun _ => jump, noMark _⟩
  ranges := by
    simp only [switchingBody, Body.ofInstructions, List.forall_mem_cons, List.not_mem_nil,
      false_implies, implies_true, and_true]
    exact ⟨⟨by decide, by decide, fun isName => absurd rfl isName⟩,
      ⟨by decide, by decide, fun _ => by decide⟩⟩
  frames _ absent := absurd absent List.not_mem_nil
  isMarked := by
    refine ⟨by decide, fun label => ?_, by decide⟩
    obtain ⟨id⟩ := label
    simp [switchingBody, Body.ofInstructions, Instruction.marks?]
    omega

theorem canReread_switchingListing : switchingListing.CanReread :=
  canReread_single (by decide) (by decide)
    { header :=
        ⟨by decide, by decide, by decide, List.all_eq_true.mp (by decide), by decide +kernel⟩
      bodiless := rfl
      body := fun _ same => Option.some.inj same ▸ canReread_switchingBody }

/-- The bodies of a listing that has been read are closed under their labels. -/
theorem isLabelClosed_of_parse
    {source : String}
    {listing : Listing}
    (parsed : parse source = .ok listing) :
    ∀ definition ∈ listing.classes, ∀ method ∈ definition.methods, ∀ body ∈ method.body,
      body.IsLabelClosed := by
  intro definition present method isListed body hasBody
  have isRead := (isRead_of_parse parsed definition present).bodies method isListed body hasBody
  exact isRead.isMarked.isLabelClosed isRead.frames

/-- All labels of the switches and ranges are placed. -/
theorem isLabelClosed_switchingListing :
    parse switchingListing.text = .ok switchingListing.restored ∧
      ∀ definition ∈ switchingListing.restored.classes, ∀ method ∈ definition.methods,
        ∀ body ∈ method.body, body.IsLabelClosed := by
  have parsed := canReread_switchingListing.parse_text
  exact ⟨parsed, isLabelClosed_of_parse parsed⟩

end Listing
end StackMaps
