import StackMaps.Proofs.Flow.Outcome

/-!
# The end of the worklist

A run that goes on for as long as some block waits has no bound built in. That of the
inference comes to an end all the same, whatever the hierarchy answers: up to the
threshold its visits are counted, and from then on every change makes slots heavier. The
number of its visits has a bound in which the hierarchy does not occur.
-/

namespace StackMaps

namespace Progress

variable {visit : Progress → Nat → Progress}

/-- Visiting goes on for as long as some block waits, and comes to an end after some
number of visits. -/
inductive Ends (visit : Progress → Nat → Progress) : Nat → Progress → Progress → Prop
  | idle {progress : Progress} (nobody : progress.worklist.toList = []) :
      Ends visit 0 progress progress
  | busy
      {count : Nat}
      {before between last : Progress}
      (visits : Visits visit before between)
      (ends : Ends visit count between last) :
      Ends visit (count + 1) before last

/-- Where a run comes to an end nobody waits. -/
theorem Ends.idle_last
    {count : Nat}
    {start last : Progress}
    (ends : Ends visit count start last) :
    last.worklist.toList = [] := by
  induction ends with
  | idle nobody => exact nobody
  | busy _ _ hypothesis => exact hypothesis

/-- A bounded run that is long enough comes to the same end. -/
theorem Ends.run_eq
    {count fuel : Nat}
    {start last : Progress}
    (ends : Ends visit count start last)
    (enough : count ≤ fuel) :
    run visit fuel start = last := by
  induction ends generalizing fuel with
  | @idle progress nobody =>
      have popped : progress.worklist.pop = (none, progress.worklist.pop.2) :=
        Prod.ext (Worklist.pop_eq_none_iff.mpr nobody) rfl
      exact run_of_pop_eq_none popped fuel
  | busy visits _ hypothesis =>
      obtain ⟨index, rest, popped, rfl⟩ := visits
      obtain ⟨fuel, rfl⟩ := Nat.exists_eq_add_of_le' (Nat.le_of_add_left_le enough)
      rw [run_of_pop_eq_some popped]
      exact hypothesis (Nat.le_of_succ_le_succ enough)

/-- Visits that use up a measure come to an end. -/
theorem exists_ends
    (Invariant : Progress → Prop)
    (measure : Progress → Nat)
    (kept : ∀ before after, Invariant before → Visits visit before after →
      Invariant after ∧ measure after < measure before)
    (start : Progress)
    (atStart : Invariant start) :
    ∃ count last, count ≤ measure start ∧ Ends visit count start last := by
  induction size : measure start using Nat.strong_induction_on generalizing start with
  | h size hypothesis =>
      subst size
      cases popped : start.worklist.pop with
      | mk taken rest =>
          cases taken with
          | none =>
              exact ⟨0, start, Nat.zero_le _, .idle (Worklist.eq_of_pop_eq_none popped).2⟩
          | some index =>
              have visits : Visits visit start (visit ⟨start.notes, rest⟩ index) :=
                ⟨index, rest, popped, rfl⟩
              obtain ⟨after, less⟩ := kept _ _ atStart visits
              obtain ⟨count, last, count_le, ends⟩ := hypothesis _ less _ after rfl
              exact ⟨count + 1, last, Nat.lt_of_le_of_lt count_le less, .busy visits ends⟩

end Progress

namespace Analysis

variable {State : Type} [DecidableEq State]
variable {analysis : Analysis State} {graph : FlowGraph} {Valid : Nat → Notes → Prop}

/-- An analysis with a budget comes to an end, and the measure bounds its visits. -/
theorem Budget.exists_ends
    (budget : Budget analysis graph Valid)
    (closed : graph.Closed)
    (lawful : analysis.Lawful graph Valid)
    {start : Progress}
    (sound : analysis.Sound graph Valid start) :
    ∃ count last, count ≤ budget.measure start ∧
      Progress.Ends (analysis.visit graph) count start last :=
  Progress.exists_ends (analysis.Sound graph Valid) budget.measure
    (fun _ _ soundBefore visits =>
      ⟨soundBefore.visits closed lawful.toEnters
        (fun _ _ _ popped block_eq => soundBefore.keeps lawful popped block_eq) visits,
        budget.measure_visits_lt closed lawful soundBefore visits⟩)
    start sound

end Analysis

namespace FlowGraph

/-- The number of visits that the inference can take, by the number of blocks, of
instructions and of local slots and the threshold. -/
def visitBound (blocks instructions locals threshold : Nat) : Nat :=
  blocks * (threshold + 4 * instructions + 2 * locals + 4) + 1

variable (body : Body) (hierarchy : Hierarchy) (threshold : Nat) (thisClass : BinaryName)
variable (startLocals : List Slot)

/-- The inference of a body before the first visit. -/
def inferenceOpening : Progress :=
  (ofBody body).opening (Notes.enterState (entryLocals body.instructions startLocals))

/-- One visit of the inference of a body. -/
def inferenceVisit : Progress → Nat → Progress :=
  (ofBody body).visitTypes (body.typingContext hierarchy threshold thisClass)

/-- The bound is within the fuel of the inference. -/
theorem visitBound_le_typingFuel :
    visitBound (ofBody body).blocks.size body.instructions.length
        (localsNeeded body.instructions startLocals.length) threshold ≤
      (ofBody body).typingFuel (body.typingContext hierarchy threshold thisClass)
        (entryLocals body.instructions startLocals).length := by
  rw [length_entryLocals, visitBound, typingFuel]
  simp only [Body.typingContext]
  exact Nat.add_le_add_right (Nat.mul_le_mul_left _ (by omega)) 1

/-- Over at least one block the measure of the inference bounds its visits. -/
theorem ends_inference_of_filled (filled : body.instructions ≠ []) :
    ∃ count last,
      count ≤ visitBound (ofBody body).blocks.size body.instructions.length
        (localsNeeded body.instructions startLocals.length) threshold ∧
      Progress.Ends (inferenceVisit body hierarchy threshold thisClass) count
        (inferenceOpening body startLocals) last := by
  have positive := stackLimit_pos hierarchy threshold thisClass filled
  have needs : ∀ (index : Nat) (block : Block), (ofBody body).blocks[index]? = some block →
      ∀ instruction ∈ block.instructions,
        instruction.localsNeeded ≤ (entryLocals body.instructions startLocals).length :=
    fun _ _ found _ present => localsNeeded_le_length_entryLocals startLocals found present
  have blocks_pos := size_blocks_pos filled
  obtain ⟨count, last, count_le, ends⟩ :=
    (TypeAnalysis.budget positive needs).exists_ends (closed_ofBody body)
      (TypeAnalysis.lawful_within positive needs) (TypeAnalysis.sound_within blocks_pos rfl)
  refine ⟨count, last, ?_, ends⟩
  calc count
      ≤ _ := count_le
    _ ≤ (ofBody body).blocks.size * (threshold + 2 * (2 * body.instructions.length +
          (entryLocals body.instructions startLocals).length) + 4) + 1 :=
        TypeAnalysis.measure_opening_le positive needs blocks_pos _
    _ ≤ _ := by
        rw [length_entryLocals]
        exact Nat.add_le_add_right (Nat.mul_le_mul_left _ (by omega)) 1

/-- Over no blocks a visit finds nothing to do. -/
theorem ends_inference_of_empty (empty : body.instructions = []) :
    ∃ last,
      Progress.Ends (inferenceVisit body hierarchy threshold thisClass) 1
        (inferenceOpening body startLocals) last ∧
      last.notes = (Session.ofBody body).notes := by
  obtain ⟨instructions, ranges, maxStack, maxLocals, frames, nextLabel⟩ := body
  obtain rfl : instructions = [] := empty
  exact ⟨_, .busy ⟨0, _, rfl, rfl⟩ (.idle rfl), rfl⟩

end FlowGraph

namespace Session

/-- The inference visits blocks for as long as some block waits, and this comes to an end
for every body, all locals at the start, every threshold and every hierarchy. The number of
visits is bounded by the numbers of blocks, instructions and local slots and the threshold
alone. What is noted at the end is what the session returns, and any run that may go on for
as many visits comes to that end. -/
theorem terminates_computeFrames
    (body : Body)
    (hierarchy : Hierarchy)
    (threshold : Nat)
    (thisClass : BinaryName)
    (startLocals : List Slot) :
    ∃ count last,
      count ≤ FlowGraph.visitBound (FlowGraph.ofBody body).blocks.size body.instructions.length
        (FlowGraph.localsNeeded body.instructions startLocals.length) threshold ∧
      Progress.Ends (FlowGraph.inferenceVisit body hierarchy threshold thisClass) count
        (FlowGraph.inferenceOpening body startLocals) last ∧
      last.worklist.toList = [] ∧
      (∀ fuel, count ≤ fuel →
        Progress.run (FlowGraph.inferenceVisit body hierarchy threshold thisClass) fuel
          (FlowGraph.inferenceOpening body startLocals) = last) ∧
      (((ofBody body).withThreshold threshold).computeFrames hierarchy thisClass
        startLocals).2.notes = last.notes := by
  by_cases empty : body.instructions = []
  · obtain ⟨last, ends, notes_eq⟩ :=
      FlowGraph.ends_inference_of_empty body hierarchy threshold thisClass startLocals empty
    refine ⟨1, last, Nat.le_add_left 1 _, ends, ends.idle_last, fun _ => ends.run_eq, ?_⟩
    rw [computeFrames_of_empty threshold hierarchy thisClass startLocals empty, notes_eq]
    rfl
  · obtain ⟨count, last, count_le, ends⟩ :=
      FlowGraph.ends_inference_of_filled body hierarchy threshold thisClass startLocals empty
    refine ⟨count, last, count_le, ends, ends.idle_last, fun _ => ends.run_eq, ?_⟩
    rw [notes_computeFrames threshold hierarchy thisClass startLocals empty]
    exact congrArg Progress.notes (ends.run_eq (count_le.trans
      (FlowGraph.visitBound_le_typingFuel body hierarchy threshold thisClass startLocals)))

end Session

end StackMaps
