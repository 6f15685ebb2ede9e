import StackMaps.Flow.LabelPlan
import StackMaps.Proofs.Flow.Control

/-!
# Labels for positions

Whatever positions are demanded of a plan, each of them has a label in the end, the
one that it was given first. The label marks the position in the body, or just in
front of it, or is among those that are to be put there.
-/

namespace StackMaps

/-- The label marks the position or the one just before it, or is to be put in front of
the instruction there. -/
def Body.StandsFor
    (body : Body)
    (injections : List (Nat × Label))
    (label : Label)
    (position : Nat) : Prop :=
  body.instructions[position]? = some (.mark label) ∨
    (∃ before, position = before + 1 ∧ body.instructions[before]? = some (.mark label)) ∨
    (position, label) ∈ injections

namespace LabelPlan

variable {body : Body} {plan : LabelPlan} {position : Nat}

/-- The plan is one for the body, and what it has issued is to be put into it. -/
structure Serves (plan : LabelPlan) (body : Body) : Prop where
  instructions_eq : plan.instructions = body.instructions.toArray
  mem_placements : ∀ (position : Nat) (label : Label), plan.issued[position]? = some label →
    (position, label) ∈ plan.placements

theorem serves_ofBody (body : Body) : (ofBody body).Serves body :=
  ⟨rfl, fun _ _ found => by simp [ofBody] at found⟩

theorem Serves.demand (serves : plan.Serves body) (position : Nat) :
    (plan.demand position).Serves body := by
  unfold LabelPlan.demand
  split
  · exact serves
  · refine ⟨serves.instructions_eq, fun other label found => ?_⟩
    rw [Std.HashMap.getElem?_insert] at found
    split at found
    next same =>
        obtain rfl := beq_iff_eq.mp same
        obtain rfl := Option.some.inj found
        exact List.mem_cons_self
    next => exact List.mem_cons_of_mem _ (serves.mem_placements other label found)

theorem Serves.foldl_demand (serves : plan.Serves body) (positions : List Nat) :
    (positions.foldl LabelPlan.demand plan).Serves body := by
  induction positions generalizing plan with
  | nil => exact serves
  | cons position rest hypothesis => exact hypothesis (serves.demand position)

/-- A position keeps its label whatever is demanded, and the demanded one has a label. -/
theorem find?_demand (other : Nat) :
    (plan.demand other).find? position =
      (plan.find? position).or (if other = position then some plan.nextLabel else none) := by
  unfold LabelPlan.demand
  split
  next label found =>
      by_cases same : other = position
      · subst same
        simp [found]
      · simp [same]
  next absent =>
      have marked : existing?
          { plan with
            nextLabel := plan.nextLabel.next
            issued := plan.issued.insert other plan.nextLabel
            placements := (other, plan.nextLabel) :: plan.placements } position =
          plan.existing? position := rfl
      by_cases same : other = position
      · subst same
        rw [absent]
        unfold find? at absent ⊢
        split at absent
        · simp at absent
        next unmarked => simp [marked, unmarked]
      · simp only [find?, marked, same, if_false, Option.or_none]
        split
        · rfl
        · simp [Std.HashMap.getElem?_insert, same]

theorem isSome_find?_foldl_demand_of_isSome
    (labelled : (plan.find? position).isSome)
    (positions : List Nat) :
    ((positions.foldl LabelPlan.demand plan).find? position).isSome := by
  induction positions generalizing plan with
  | nil => exact labelled
  | cons other rest hypothesis =>
      exact hypothesis (by simp [find?_demand, labelled])

/-- All positions that are demanded have labels in the end. -/
theorem isSome_find?_foldl_demand
    {positions : List Nat}
    (demanded : position ∈ positions) :
    ((positions.foldl LabelPlan.demand plan).find? position).isSome := by
  induction positions generalizing plan with
  | nil => exact absurd demanded List.not_mem_nil
  | cons other rest hypothesis =>
      rcases List.mem_cons.mp demanded with rfl | later
      · exact isSome_find?_foldl_demand_of_isSome (by simp [find?_demand]) rest
      · exact hypothesis later

theorem mem_injections {label : Label} :
    (position, label) ∈ plan.injections ↔ (position, label) ∈ plan.placements := by
  simp [injections]

theorem Serves.markAt?_eq_some
    (serves : plan.Serves body)
    {label : Label}
    (found : plan.markAt? position = some label) :
    body.instructions[position]? = some (.mark label) := by
  rw [markAt?, serves.instructions_eq, List.getElem?_toArray, Option.bind_eq_some_iff] at found
  obtain ⟨instruction, at_position, marks⟩ := found
  rw [at_position, Instruction.marks?_eq_some_iff.mp marks]

/-- The label of a position stands for it. -/
theorem Serves.standsFor
    (serves : plan.Serves body)
    (labelled : (plan.find? position).isSome) :
    body.StandsFor plan.injections (plan.label position) position := by
  obtain ⟨label, found⟩ := Option.isSome_iff_exists.mp labelled
  rw [LabelPlan.label, found, Option.getD_some]
  unfold find? at found
  split at found
  next marked marked_eq =>
      obtain rfl := Option.some.inj found
      unfold existing? at marked_eq
      split at marked_eq
      next here here_eq =>
          obtain rfl := Option.some.inj marked_eq
          exact Or.inl (serves.markAt?_eq_some here_eq)
      next =>
          cases position with
          | zero => simp at marked_eq
          | succ before =>
              exact Or.inr (Or.inl ⟨before, rfl, serves.markAt?_eq_some marked_eq⟩)
  next => exact Or.inr (Or.inr (mem_injections.mpr (serves.mem_placements _ _ found)))

end LabelPlan

end StackMaps
