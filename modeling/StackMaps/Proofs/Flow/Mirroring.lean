import StackMaps.Proofs.Flow.Analysis

/-!
# Mirrored runs

Two analyses that keep step with each other visit the same blocks in the same order. If
each visit has in the one what corresponds to it in the other, so has the whole run.
-/

namespace StackMaps

namespace Progress

/-- An analysis at work with other notes. -/
def mapNotes (change : Notes → Notes) (progress : Progress) : Progress :=
  ⟨progress.notes.map change, progress.worklist⟩

variable {change : Notes → Notes}

theorem notesOn_mapNotes
    (blank : change .blank = .blank)
    (progress : Progress)
    (index : Nat) :
    (progress.mapNotes change).notesOn index = change (progress.notesOn index) := by
  simp only [notesOn, mapNotes, Array.getD_eq_getD_getElem?, Array.getElem?_map]
  cases progress.notes[index]? with
  | none => exact blank.symm
  | some notes => rfl

theorem record_mapNotes (progress : Progress) (index : Nat) (notes : Notes) :
    (progress.mapNotes change).record index (change notes) =
      (progress.record index notes).mapNotes change := by
  simp only [record, mapNotes, Array.map_setIfInBounds]

/-- More fuel makes no difference to a run that ends with nobody waiting. -/
theorem run_eq_of_drained
    {visit : Progress → Nat → Progress}
    {fuel more : Nat}
    {start : Progress}
    (drained : (run visit fuel start).worklist.toList = [])
    (enough : fuel ≤ more) :
    run visit more start = run visit fuel start := by
  induction fuel generalizing start more with
  | zero =>
      have popped : start.worklist.pop = (none, start.worklist.pop.2) :=
        Prod.ext (Worklist.pop_eq_none_iff.mpr drained) rfl
      rw [run_of_pop_eq_none popped, run_of_pop_eq_none popped]
  | succ fuel hypothesis =>
      obtain ⟨more, rfl⟩ := Nat.exists_eq_succ_of_ne_zero (Nat.ne_of_gt (Nat.lt_of_lt_of_le
        (Nat.succ_pos fuel) enough))
      cases popped : start.worklist.pop with
      | mk taken rest =>
          cases taken with
          | none => rw [run_of_pop_eq_none popped, run_of_pop_eq_none popped]
          | some index =>
              rw [run_of_pop_eq_some popped] at drained ⊢
              rw [run_of_pop_eq_some popped]
              exact hypothesis drained (Nat.le_of_succ_le_succ enough)

end Progress

namespace Analysis

variable {State : Type} [DecidableEq State]

/-- The blocks of a graph are images of those of another one, with the same edges between
them, and a change of notes keeps apart what two analyses know of their entries. -/
structure Mirrors
    (analysis newAnalysis : Analysis State)
    (graph newGraph : FlowGraph)
    (image : Block → Block)
    (change : Notes → Notes) : Prop where
  blank : change .blank = .blank
  blocks_eq : ∀ index : Nat, newGraph.blocks[index]? = (graph.blocks[index]?).map image
  successors_eq : ∀ block, (image block).successors = block.successors
  entry_eq_iff : ∀ notes others,
    newAnalysis.entry (change notes) = newAnalysis.entry (change others) ↔
      analysis.entry notes = analysis.entry others

/-- A visit of a block with some notes has its image in a visit of the image. -/
structure Reflects
    (analysis newAnalysis : Analysis State)
    (graph : FlowGraph)
    (image : Block → Block)
    (change : Notes → Notes)
    (block : Block)
    (notes : Notes) : Prop where
  transfer_eq : newAnalysis.transfer (image block) (change notes) =
    change (analysis.transfer block notes)
  receive_eq : ∀ target edge targetBlock known, (target, edge) ∈ block.successors →
    graph.blocks[target]? = some targetBlock →
    newAnalysis.receive (image targetBlock) edge (change (analysis.transfer block notes))
        (change known) =
      change (analysis.receive targetBlock edge (analysis.transfer block notes) known)

variable {analysis newAnalysis : Analysis State} {graph newGraph : FlowGraph}
variable {image : Block → Block} {change : Notes → Notes}
variable (mirrors : analysis.Mirrors newAnalysis graph newGraph image change)

include mirrors

/-- What a successor receives has its image in what its image receives. -/
theorem Mirrors.pass_mapNotes
    {block : Block}
    {notes : Notes}
    (reflects : analysis.Reflects newAnalysis graph image change block notes)
    (progress : Progress)
    {successor : Nat × Edge}
    (present : successor ∈ block.successors) :
    newAnalysis.pass newGraph (change (analysis.transfer block notes))
        (progress.mapNotes change) successor =
      (analysis.pass graph (analysis.transfer block notes) progress successor).mapNotes
        change := by
  unfold pass
  rw [mirrors.blocks_eq]
  cases found : graph.blocks[successor.1]? with
  | none => rfl
  | some targetBlock =>
      have received := reflects.receive_eq successor.1 successor.2 targetBlock
        (progress.notesOn successor.1) present found
      simp only [Option.map_some, Progress.notesOn_mapNotes mirrors.blank, received,
        Progress.record_mapNotes, mirrors.entry_eq_iff]
      split
      · rfl
      · rfl

theorem Mirrors.foldl_pass_mapNotes
    {block : Block}
    {notes : Notes}
    (reflects : analysis.Reflects newAnalysis graph image change block notes)
    {successors : List (Nat × Edge)}
    (within : successors ⊆ block.successors)
    (progress : Progress) :
    successors.foldl (newAnalysis.pass newGraph (change (analysis.transfer block notes)))
        (progress.mapNotes change) =
      (successors.foldl (analysis.pass graph (analysis.transfer block notes)) progress).mapNotes
        change := by
  induction successors generalizing progress with
  | nil => rfl
  | cons successor rest hypothesis =>
      obtain ⟨present, others⟩ := List.cons_subset.mp within
      rw [List.foldl_cons, mirrors.pass_mapNotes reflects progress present, hypothesis others]
      rfl

/-- A visit of a block has its image in a visit of its image. -/
theorem Mirrors.visit_mapNotes
    {progress : Progress}
    {index : Nat}
    (reflects : ∀ block, graph.blocks[index]? = some block →
      analysis.Reflects newAnalysis graph image change block (progress.notesOn index)) :
    newAnalysis.visit newGraph (progress.mapNotes change) index =
      (analysis.visit graph progress index).mapNotes change := by
  unfold visit
  rw [mirrors.blocks_eq]
  cases found : graph.blocks[index]? with
  | none => rfl
  | some block =>
      have follows := reflects block found
      simp only [Option.map_some, mirrors.successors_eq, Progress.notesOn_mapNotes mirrors.blank,
        follows.transfer_eq, Progress.record_mapNotes]
      exact mirrors.foldl_pass_mapNotes follows (List.Subset.refl _) _

/-- If every visit of a run has its image, so has the run. -/
theorem Mirrors.run_mapNotes
    (fuel : Nat)
    {start : Progress}
    (reflects : ∀ moment index rest block,
      Progress.Reaches (analysis.visit graph) start moment →
      moment.worklist.pop = (some index, rest) →
      graph.blocks[index]? = some block →
      analysis.Reflects newAnalysis graph image change block (moment.notesOn index)) :
    Progress.run (newAnalysis.visit newGraph) fuel (start.mapNotes change) =
      (Progress.run (analysis.visit graph) fuel start).mapNotes change := by
  induction fuel generalizing start with
  | zero => rfl
  | succ fuel hypothesis =>
      cases popped : start.worklist.pop with
      | mk taken rest =>
          have poppedToo : (start.mapNotes change).worklist.pop = (taken, rest) := popped
          cases taken with
          | none =>
              rw [Progress.run_of_pop_eq_none popped, Progress.run_of_pop_eq_none poppedToo]
          | some index =>
              rw [Progress.run_of_pop_eq_some popped, Progress.run_of_pop_eq_some poppedToo]
              have visited := @Mirrors.visit_mapNotes _ _ _ _ _ _ _ _ mirrors
                ⟨start.notes, rest⟩ index fun block found =>
                  reflects start index rest block .refl popped found
              have same : (⟨(start.mapNotes change).notes, rest⟩ : Progress) =
                  (⟨start.notes, rest⟩ : Progress).mapNotes change := rfl
              rw [same, visited]
              refine hypothesis fun moment other otherRest block reached => ?_
              exact reflects moment other otherRest block
                (Relation.ReflTransGen.head ⟨index, rest, popped, rfl⟩ reached)

end Analysis
end StackMaps
