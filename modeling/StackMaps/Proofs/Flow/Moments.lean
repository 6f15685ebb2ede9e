import StackMaps.Proofs.Flow.Analysis

/-!
# Moments of a run

A visit is carried out in parts: a block is taken off the worklist and carried
through, and then its successors receive the outcome one after the other. The
moments of a run are those between two visits and those between two parts of a
visit. What every part keeps holds at all of them.
-/

namespace StackMaps
namespace Analysis

variable {State : Type} [DecidableEq State]
variable (analysis : Analysis State) (graph : FlowGraph) (start : Progress)

/-- A moment during a visit. The block has been carried through from the given notes, and
the listed successors have yet to receive the outcome. -/
inductive Visiting : Nat → Block → Notes → List (Nat × Edge) → Progress → Prop
  | taken
      {moment : Progress}
      {index : Nat}
      {rest : Worklist}
      {block : Block}
      (reached : Progress.Reaches (analysis.visit graph) start moment)
      (popped : moment.worklist.pop = (some index, rest))
      (block_eq : graph.blocks[index]? = some block) :
      Visiting index block (moment.notesOn index) block.successors
        ((⟨moment.notes, rest⟩ : Progress).record index
          (analysis.transfer block (moment.notesOn index)))
  | passed
      {index : Nat}
      {block : Block}
      {notes : Notes}
      {successor : Nat × Edge}
      {pending : List (Nat × Edge)}
      {progress : Progress}
      (before : Visiting index block notes (successor :: pending) progress) :
      Visiting index block notes pending
        (analysis.pass graph (analysis.transfer block notes) progress successor)

/-- A moment of a run, between two visits or during one. -/
def Moment (progress : Progress) : Prop :=
  Progress.Reaches (analysis.visit graph) start progress ∨
    ∃ index block notes pending,
      analysis.Visiting graph start index block notes pending progress

variable {analysis graph start}
variable {index : Nat} {block : Block} {notes : Notes} {pending : List (Nat × Edge)}
variable {progress : Progress}

theorem Visiting.block_eq
    (visiting : analysis.Visiting graph start index block notes pending progress) :
    graph.blocks[index]? = some block := by
  induction visiting with
  | taken _ _ block_eq => exact block_eq
  | passed _ hypothesis => exact hypothesis

theorem Visiting.subset
    (visiting : analysis.Visiting graph start index block notes pending progress) :
    pending ⊆ block.successors := by
  induction visiting with
  | taken _ _ _ => exact List.Subset.refl _
  | passed _ hypothesis => exact fun _ later => hypothesis (List.mem_cons_of_mem _ later)

/-- The next successor is reached by an edge. -/
theorem Visiting.exists_crosses
    (closed : graph.Closed)
    {successor : Nat × Edge}
    (visiting :
      analysis.Visiting graph start index block notes (successor :: pending) progress) :
    ∃ targetBlock, graph.Crosses index block successor.2 successor.1 targetBlock :=
  closed.exists_crosses visiting.block_eq (visiting.subset List.mem_cons_self)

/-- The books are in order during a visit, too, and the visited block has been reached. -/
theorem Sound.visiting
    {Valid : Nat → Notes → Prop}
    (closed : graph.Closed)
    (lawful : analysis.Lawful graph Valid)
    (sound : analysis.Sound graph Valid start)
    (visiting : analysis.Visiting graph start index block notes pending progress) :
    analysis.Sound graph Valid progress ∧ Valid index notes ∧ (analysis.entry notes).isSome := by
  induction visiting with
  | taken reached popped block_eq =>
      have before := sound.reaches closed lawful reached
      have waits := Worklist.mem_of_pop_eq_some popped
      exact ⟨before.transfer lawful.toEnters popped (before.keeps lawful popped block_eq),
        before.valid _ (before.consistent.lt_of_mem waits), before.entered _ waits⟩
  | passed visiting hypothesis =>
      obtain ⟨before, valid, entered⟩ := hypothesis
      obtain ⟨targetBlock, crosses⟩ := visiting.exists_crosses closed
      exact ⟨before.pass lawful.toEnters crosses (lawful.keeps visiting.block_eq entered valid),
        valid, entered⟩

/-- The books are in order at all moments. -/
theorem Sound.moment
    {Valid : Nat → Notes → Prop}
    (closed : graph.Closed)
    (lawful : analysis.Lawful graph Valid)
    (sound : analysis.Sound graph Valid start)
    (moment : analysis.Moment graph start progress) :
    analysis.Sound graph Valid progress := by
  rcases moment with reached | ⟨index, block, notes, pending, visiting⟩
  · exact sound.reaches closed lawful reached
  · exact (sound.visiting closed lawful visiting).1

/-- What the parts of all visits keep holds at all moments, and what they keep of the visit
at work holds during it. -/
theorem Sound.induction
    {Valid : Nat → Notes → Prop}
    (closed : graph.Closed)
    (lawful : analysis.Lawful graph Valid)
    (sound : analysis.Sound graph Valid start)
    (Holds : Progress → Prop)
    (During : Nat → Block → Notes → List (Nat × Edge) → Progress → Prop)
    (atStart : Holds start)
    (taken : ∀ moment index rest block,
      Progress.Reaches (analysis.visit graph) start moment →
      analysis.Sound graph Valid moment →
      Holds moment →
      moment.worklist.pop = (some index, rest) →
      graph.blocks[index]? = some block →
      During index block (moment.notesOn index) block.successors
        ((⟨moment.notes, rest⟩ : Progress).record index
          (analysis.transfer block (moment.notesOn index))))
    (passed : ∀ index block notes target edge targetBlock pending progress,
      analysis.Visiting graph start index block notes ((target, edge) :: pending) progress →
      analysis.Sound graph Valid progress →
      graph.Crosses index block edge target targetBlock →
      During index block notes ((target, edge) :: pending) progress →
      During index block notes pending
        (analysis.pass graph (analysis.transfer block notes) progress (target, edge)))
    (returned : ∀ index block notes progress,
      analysis.Visiting graph start index block notes [] progress →
      During index block notes [] progress →
      Holds progress) :
    (∀ moment, Progress.Reaches (analysis.visit graph) start moment → Holds moment) ∧
      ∀ index block notes pending progress,
        analysis.Visiting graph start index block notes pending progress →
        During index block notes pending progress := by
  have passedOn : ∀ {index block notes successor pending progress},
      analysis.Visiting graph start index block notes (successor :: pending) progress →
      During index block notes (successor :: pending) progress →
      During index block notes pending
        (analysis.pass graph (analysis.transfer block notes) progress successor) := by
    intro index block notes successor pending progress visiting during
    obtain ⟨targetBlock, crosses⟩ := visiting.exists_crosses closed
    exact passed _ _ _ _ _ _ _ _ visiting (sound.visiting closed lawful visiting).1 crosses during
  have between : ∀ moment, Progress.Reaches (analysis.visit graph) start moment →
      Holds moment := by
    intro moment reaches
    refine reaches.invariant Holds atStart ?_
    rintro before after reached holds ⟨index, rest, popped, rfl⟩
    have now := sound.reaches closed lawful reached
    obtain ⟨block, block_eq⟩ := now.exists_block popped
    simp only [visit, block_eq]
    obtain ⟨visiting, during⟩ := foldl_pass_induction
      (fun pending progress =>
        analysis.Visiting graph start index block (before.notesOn index) pending progress ∧
          During index block (before.notesOn index) pending progress)
      (fun successor pending progress both => ⟨.passed both.1, passedOn both.1 both.2⟩)
      ⟨.taken reached popped block_eq, taken _ _ _ _ reached now holds popped block_eq⟩
    exact returned _ _ _ _ visiting during
  refine ⟨between, fun index block notes pending progress visiting => ?_⟩
  induction visiting with
  | taken reached popped block_eq =>
      exact taken _ _ _ _ reached (sound.reaches closed lawful reached) (between _ reached) popped
        block_eq
  | passed visiting hypothesis => exact passedOn visiting hypothesis

/-- Over no blocks nothing is ever noted. -/
theorem Moment.notesOn_of_size_eq_zero
    (empty : graph.blocks.size = 0)
    {change : Notes → Notes}
    (moment : analysis.Moment graph (graph.opening change) progress)
    (index : Nat) :
    progress.notesOn index = .blank := by
  rcases moment with reached | ⟨other, block, notes, pending, visiting⟩
  · refine Progress.notesOn_of_size_le ?_
    rw [size_reaches reached]
    simp [FlowGraph.opening, empty]
  · have inside := (Array.getElem?_eq_some_iff.mp visiting.block_eq).1
    omega

end Analysis
end StackMaps
