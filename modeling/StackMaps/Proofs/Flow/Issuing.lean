import StackMaps.Proofs.Body.Placing
import StackMaps.Proofs.Flow.Labelling

/-!
# Issued labels

A plan issues new labels, each for another position that has no label in the body yet.
In the body with the issued labels, the label for a position stands directly in front of
the instruction there.
-/

namespace StackMaps
namespace LabelPlan

/-- What a plan has issued for a body: ascending new labels for different positions, all of
which have been demanded and have no mark. -/
structure Issues (plan : LabelPlan) (body : Body) (Demanded : Nat → Prop) : Prop where
  instructions_eq : plan.instructions = body.instructions.toArray
  issued_iff : ∀ (position : Nat) (label : Label),
    plan.issued[position]? = some label ↔ (position, label) ∈ plan.placements
  distinct : plan.placements.Pairwise fun later earlier => later.1 ≠ earlier.1
  ascending : plan.placements.Pairwise fun later earlier => earlier.2.id < later.2.id
  bounds : ∀ placement ∈ plan.placements,
    body.nextLabel.id ≤ placement.2.id ∧ placement.2.id < plan.nextLabel.id
  nextLabel_le : body.nextLabel.id ≤ plan.nextLabel.id
  unmarked : ∀ placement ∈ plan.placements,
    plan.existing? placement.1 = none ∧ Demanded placement.1
  complete : ∀ id, body.nextLabel.id ≤ id → id < plan.nextLabel.id →
    ∃ placement ∈ plan.placements, placement.2.id = id

variable {body : Body} {plan : LabelPlan} {Demanded : Nat → Prop} {position : Nat}

theorem issues_ofBody (body : Body) (Demanded : Nat → Prop) :
    (ofBody body).Issues body Demanded where
  instructions_eq := rfl
  issued_iff _ _ := by simp [ofBody]
  distinct := .nil
  ascending := .nil
  bounds _ absent := absurd absent List.not_mem_nil
  nextLabel_le := Nat.le_refl _
  unmarked _ absent := absurd absent List.not_mem_nil
  complete _ le less := absurd less (Nat.not_lt_of_le le)

theorem injections_ofBody (body : Body) : (ofBody body).injections = [] := by
  simp [injections, ofBody]

/-- A label is issued only for a position that has none. -/
theorem Issues.demand
    (issues : plan.Issues body Demanded)
    (demanded : Demanded position) :
    (plan.demand position).Issues body Demanded := by
  unfold LabelPlan.demand
  split
  · exact issues
  next absent =>
      have unmarked : plan.existing? position = none ∧ plan.issued[position]? = none := by
        unfold find? at absent
        split at absent
        · cases absent
        next silent => exact ⟨silent, absent⟩
      have others : ∀ placement ∈ plan.placements, position ≠ placement.1 := by
        rintro placement present rfl
        rw [(issues.issued_iff _ _).mpr present] at unmarked
        cases unmarked.2
      refine ⟨issues.instructions_eq, fun other label => ?_, ?_, ?_, ?_, ?_, ?_, ?_⟩
      · rw [Std.HashMap.getElem?_insert, List.mem_cons, ← issues.issued_iff, Prod.mk.injEq]
        by_cases same : position = other
        · subst same
          simp [unmarked.2, eq_comm]
        · simp [same, Ne.symm same]
      · exact List.pairwise_cons.mpr ⟨others, issues.distinct⟩
      · exact List.pairwise_cons.mpr
          ⟨fun placement present => (issues.bounds placement present).2, issues.ascending⟩
      · refine List.forall_mem_cons.mpr ⟨⟨issues.nextLabel_le, Nat.lt_succ_self _⟩, ?_⟩
        intro placement present
        obtain ⟨le, less⟩ := issues.bounds placement present
        exact ⟨le, Nat.lt_succ_of_lt less⟩
      · exact Nat.le_succ_of_le issues.nextLabel_le
      · exact List.forall_mem_cons.mpr ⟨⟨unmarked.1, demanded⟩, issues.unmarked⟩
      · intro id le less
        rcases Nat.lt_succ_iff_lt_or_eq.mp less with earlier | rfl
        · obtain ⟨placement, present, same⟩ := issues.complete id le earlier
          exact ⟨placement, List.mem_cons_of_mem _ present, same⟩
        · exact ⟨_, List.mem_cons_self, rfl⟩

theorem Issues.foldl_demand
    (issues : plan.Issues body Demanded)
    {positions : List Nat}
    (demanded : ∀ position ∈ positions, Demanded position) :
    (positions.foldl LabelPlan.demand plan).Issues body Demanded := by
  induction positions generalizing plan with
  | nil => exact issues
  | cons position rest hypothesis =>
      obtain ⟨first, others⟩ := List.forall_mem_cons.mp demanded
      exact hypothesis (issues.demand first) others

/-- The labels that are to be put into the body ascend strictly by position. -/
theorem Issues.ascending_injections (issues : plan.Issues body Demanded) :
    plan.injections.Pairwise fun earlier later => earlier.1 < later.1 := by
  have perm : plan.injections.Perm plan.placements :=
    (List.mergeSort_perm _ _).trans (List.reverse_perm _)
  have distinct := (perm.pairwise_iff fun other => Ne.symm other).mpr issues.distinct
  have sorted : plan.injections.Pairwise fun left right => (left.1 ≤ right.1 : Bool) :=
    List.pairwise_mergeSort (by simp; omega) (by simp; omega) _
  refine (distinct.and sorted).imp fun ⟨other, le⟩ => ?_
  exact Nat.lt_of_le_of_ne (by simpa using le) other

/-- The label that is put in front of a position is the one that has been issued for it. -/
theorem Issues.placedAt?_eq_some_iff (issues : plan.Issues body Demanded) {label : Label} :
    Body.placedAt? plan.injections position = some label ↔ (position, label) ∈ plan.injections := by
  have ordered := issues.ascending_injections
  unfold Body.placedAt?
  generalize plan.injections = injections at ordered
  induction injections with
  | nil => simp
  | cons first rest hypothesis =>
      obtain ⟨others, orderedRest⟩ := List.pairwise_cons.mp ordered
      obtain ⟨place, placed⟩ := first
      rw [List.lookup_cons, List.mem_cons, Prod.mk.injEq]
      by_cases same : position = place
      · subst same
        have absent : ∀ label, (position, label) ∉ rest := fun label present =>
          absurd (others _ present) (Nat.lt_irrefl _)
        simp [absent, eq_comm]
      · rw [beq_eq_false_iff_ne.mpr same]
        simpa [same] using hypothesis orderedRest

/-- What is put into the body has been issued. -/
theorem Issues.of_placedAt?
    (issues : plan.Issues body Demanded)
    {label : Label}
    (placed : Body.placedAt? plan.injections position = some label) :
    plan.issued[position]? = some label ∧ plan.existing? position = none ∧ Demanded position ∧
      body.nextLabel.id ≤ label.id ∧ label.id < plan.nextLabel.id := by
  have present := mem_injections.mp (issues.placedAt?_eq_some_iff.mp placed)
  obtain ⟨unmarked, demanded⟩ := issues.unmarked _ present
  exact ⟨(issues.issued_iff _ _).mpr present, unmarked, demanded, issues.bounds _ present⟩

/-- No label is put in front of two positions. -/
theorem Issues.position_eq_of_placedAt?
    (issues : plan.Issues body Demanded)
    {other : Nat}
    {label : Label}
    (placed : Body.placedAt? plan.injections position = some label)
    (placedToo : Body.placedAt? plan.injections other = some label) :
    position = other := by
  have present := mem_injections.mp (issues.placedAt?_eq_some_iff.mp placed)
  have presentToo := mem_injections.mp (issues.placedAt?_eq_some_iff.mp placedToo)
  obtain ⟨first, first_eq⟩ := List.mem_iff_getElem?.mp present
  obtain ⟨second, second_eq⟩ := List.mem_iff_getElem?.mp presentToo
  obtain ⟨inside, found⟩ := List.getElem?_eq_some_iff.mp first_eq
  obtain ⟨insideToo, foundToo⟩ := List.getElem?_eq_some_iff.mp second_eq
  have apart := List.pairwise_iff_getElem.mp issues.ascending
  rcases Nat.lt_trichotomy first second with less | rfl | greater
  · have := apart first second inside insideToo less
    rw [found, foundToo] at this
    exact absurd this (Nat.lt_irrefl _)
  · exact congrArg Prod.fst (found.symm.trans foundToo)
  · have := apart second first insideToo inside greater
    rw [found, foundToo] at this
    exact absurd this (Nat.lt_irrefl _)

/-- A position has no label in the body if neither it nor the one before it is marked. -/
theorem Issues.not_marked_of_existing?
    (issues : plan.Issues body Demanded)
    (unmarked : plan.existing? position = none) :
    (∀ label, body.instructions[position]? ≠ some (.mark label)) ∧
      ∀ before label, position = before + 1 →
        body.instructions[before]? ≠ some (.mark label) := by
  have markAt : ∀ {place label}, body.instructions[place]? = some (.mark label) →
      plan.markAt? place = some label := by
    intro place label found
    rw [markAt?, issues.instructions_eq, List.getElem?_toArray, found]
    rfl
  refine ⟨fun label found => ?_, ?_⟩
  · simp [existing?, markAt found] at unmarked
  · rintro before label rfl found
    unfold existing? at unmarked
    split at unmarked
    · cases unmarked
    · have silent : plan.markAt? before = none := unmarked
      rw [markAt found] at silent
      cases silent

theorem Issues.serves (issues : plan.Issues body Demanded) : plan.Serves body :=
  ⟨issues.instructions_eq, fun position label found => (issues.issued_iff position label).mp found⟩

/-- In the body with the issued labels, the label for a real instruction stands directly in
front of it. -/
theorem Issues.getElem?_weave_label
    (issues : plan.Issues body Demanded)
    {instruction : Instruction}
    (found : body.instructions[position]? = some instruction)
    (real : instruction.isMark = false)
    (labelled : (plan.find? position).isSome) :
    ∃ before, before + 1 = moved (Body.placedAt? plan.injections) position ∧
      (weave (Body.placedAt? plan.injections) 0 body.instructions)[before]? =
        some (.mark (plan.label position)) := by
  have inside := (List.getElem?_eq_some_iff.mp found).1
  rcases issues.serves.standsFor labelled with marked | ⟨before, rfl, marked⟩ | injected
  · rw [found] at marked
    cases marked
    cases real
  · refine ⟨moved (Body.placedAt? plan.injections) before, ?_, ?_⟩
    · refine (front_succ.symm.trans (moved_of_none ?_).symm)
      cases placed : Body.placedAt? plan.injections (before + 1) with
      | none => rfl
      | some label =>
          have unmarked := (issues.of_placedAt? placed).2.1
          exact absurd marked ((issues.not_marked_of_existing? unmarked).2 before _ rfl)
    · rw [getElem?_weave_moved, marked]
  · have placed := issues.placedAt?_eq_some_iff.mpr injected
    exact ⟨front (Body.placedAt? plan.injections) position, (moved_of_some placed).symm,
      getElem?_weave_front inside placed⟩

end LabelPlan
end StackMaps
