import StackMaps.Proofs.Flow.Analysis
import Mathlib.Algebra.BigOperators.Group.Finset.Basic
import Mathlib.Algebra.BigOperators.Group.Finset.Piecewise
import Mathlib.Algebra.Order.BigOperators.Group.Finset

/-!
# Draining the worklist

An analysis ends if every block has a credit: a visit that is waited for costs
something, and the visit uses up more than that, or else the change of the entry
for which a block waits has paid for it. The joint credit of all blocks bounds
the number of visits.
-/

namespace StackMaps
namespace Analysis

variable {State : Type}

/-- The credits of the blocks and the costs of a visit. -/
structure Budget
    (analysis : Analysis State)
    (graph : FlowGraph)
    (Valid : Nat → Notes → Prop) where
  credit : Nat → Notes → Nat
  cost : Notes → Nat
  /-- A visit uses up more than what the block has paid for waiting. -/
  credit_transfer : ∀ index block notes,
    graph.blocks[index]? = some block →
    (analysis.entry notes).isSome →
    Valid index notes →
    credit index (analysis.transfer block notes) < credit index notes + cost notes
  /-- What a block receives costs nothing. -/
  cost_receive : ∀ block edge source notes,
    cost (analysis.receive block edge source notes) = cost notes
  credit_receive : ∀ index block edge target targetBlock notes known,
    graph.Crosses index block edge target targetBlock →
    (analysis.entry notes).isSome →
    Valid index notes →
    Valid target known →
    credit target (analysis.receive targetBlock edge (analysis.transfer block notes) known) ≤
      credit target known
  /-- A change of the entry pays for the visit that follows. -/
  credit_change : ∀ index block edge target targetBlock notes known,
    graph.Crosses index block edge target targetBlock →
    (analysis.entry notes).isSome →
    Valid index notes →
    Valid target known →
    analysis.entry
        (analysis.receive targetBlock edge (analysis.transfer block notes) known) ≠
      analysis.entry known →
    credit target (analysis.receive targetBlock edge (analysis.transfer block notes) known) +
        cost known ≤
      credit target known

namespace Budget

variable {analysis : Analysis State} {graph : FlowGraph} {Valid : Nat → Notes → Prop}

/-- The credit of a block with what it has paid for waiting. -/
def share
    (budget : Budget analysis graph Valid)
    (progress : Progress)
    (index : Nat) : Nat :=
  budget.credit index (progress.notesOn index) +
    if index ∈ progress.worklist.toList then budget.cost (progress.notesOn index) else 0

/-- The shares of all blocks together. -/
def measure (budget : Budget analysis graph Valid) (progress : Progress) : Nat :=
  ∑ index ∈ Finset.range graph.blocks.size, budget.share progress index

variable (budget : Budget analysis graph Valid)

/-- Before the first visit only the first block has paid for waiting. -/
theorem measure_opening_le
    {change : Notes → Notes}
    (filled : 0 < graph.blocks.size)
    {bound : Nat}
    (first : budget.credit 0 (change .blank) ≤ bound)
    (others : ∀ index, budget.credit index .blank ≤ bound) :
    budget.measure (graph.opening change) ≤
      graph.blocks.size * bound + budget.cost (change .blank) := by
  have shares : ∀ index ∈ Finset.range graph.blocks.size,
      budget.share (graph.opening change) index ≤
        bound + if index = 0 then budget.cost (change .blank) else 0 := by
    intro index _
    simp only [share, FlowGraph.notesOn_opening filled]
    by_cases isFirst : index = 0
    · subst isFirst
      simpa [FlowGraph.opening, Worklist.toList_single] using first
    · simpa [FlowGraph.opening, Worklist.toList_single, isFirst] using others index
  calc budget.measure (graph.opening change)
      ≤ ∑ index ∈ Finset.range graph.blocks.size,
          (bound + if index = 0 then budget.cost (change .blank) else 0) :=
        Finset.sum_le_sum shares
    _ = graph.blocks.size * bound + budget.cost (change .blank) := by
        rw [Finset.sum_add_distrib, Finset.sum_const_nat fun _ _ => rfl, Finset.card_range,
          Finset.sum_ite_eq' (Finset.range graph.blocks.size) 0,
          if_pos (Finset.mem_range.mpr filled)]

/-- The measure falls when a block is taken off the worklist and carried through. -/
theorem measure_transfer_lt
    {progress : Progress}
    (sound : analysis.Sound graph Valid progress)
    {index : Nat}
    {rest : Worklist}
    {block : Block}
    (popped : progress.worklist.pop = (some index, rest))
    (block_eq : graph.blocks[index]? = some block) :
    budget.measure
        ((⟨progress.notes, rest⟩ : Progress).record index
          (analysis.transfer block (progress.notesOn index))) <
      budget.measure progress := by
  have order := Worklist.toList_of_pop_eq_some popped
  have waits := Worklist.mem_of_pop_eq_some popped
  have counted : index < graph.blocks.size := sound.consistent.lt_of_mem waits
  have inside : index < progress.notes.size := by
    rw [sound.size_eq]
    exact counted
  have nodup := sound.consistent.nodup
  rw [order, List.nodup_cons] at nodup
  have less := budget.credit_transfer index block _ block_eq (sound.entered index waits)
    (sound.valid index counted)
  have shares : ∀ other,
      budget.share
          ((⟨progress.notes, rest⟩ : Progress).record index
            (analysis.transfer block (progress.notesOn index))) other =
        if other = index then
          budget.credit index (analysis.transfer block (progress.notesOn index))
        else budget.share progress other := by
    intro other
    simp only [share, Progress.worklist_record, order,
      Progress.notesOn_record ⟨progress.notes, rest⟩ _ _ _ inside]
    by_cases same : other = index
    · subst same
      simp [nodup.1]
    · simp [same, Progress.notesOn]
  refine Finset.sum_lt_sum ?_ ⟨index, Finset.mem_range.mpr counted, ?_⟩
  · intro other _
    rw [shares other]
    split
    next same =>
        subst same
        simp only [share, waits, if_true]
        omega
    · exact Nat.le_refl _
  · rw [shares index, if_pos rfl]
    simp only [share, waits, if_true]
    omega

variable [DecidableEq State]

/-- No share grows when a successor receives something. -/
theorem share_pass_le
    {progress : Progress}
    (sound : analysis.Sound graph Valid progress)
    {index target : Nat}
    {block targetBlock : Block}
    {edge : Edge}
    {notes : Notes}
    (crosses : graph.Crosses index block edge target targetBlock)
    (entered : (analysis.entry notes).isSome)
    (valid : Valid index notes)
    (other : Nat) :
    budget.share
        (analysis.pass graph (analysis.transfer block notes) progress (target, edge)) other ≤
      budget.share progress other := by
  unfold share
  simp only [mem_worklist_pass crosses.target_eq sound.consistent,
    notesOn_pass crosses.target_eq sound.size_eq]
  by_cases same : other = target
  · subst same
    have known := sound.valid other crosses.target_lt
    have less := budget.credit_receive _ _ _ _ _ _ _ crosses entered valid known
    simp only [if_true, true_and, budget.cost_receive]
    by_cases changed :
        analysis.entry (analysis.receive targetBlock edge (analysis.transfer block notes)
            (progress.notesOn other)) =
          analysis.entry (progress.notesOn other)
    · simp only [changed, ne_eq, not_true_eq_false, false_or]
      omega
    · have pays := budget.credit_change _ _ _ _ _ _ _ crosses entered valid known changed
      simp only [ne_eq, changed, not_false_eq_true, true_or, if_true]
      omega
  · simp [same]

/-- The measure does not grow when a successor receives something. -/
theorem measure_pass_le
    {progress : Progress}
    (sound : analysis.Sound graph Valid progress)
    {index target : Nat}
    {block targetBlock : Block}
    {edge : Edge}
    {notes : Notes}
    (crosses : graph.Crosses index block edge target targetBlock)
    (entered : (analysis.entry notes).isSome)
    (valid : Valid index notes) :
    budget.measure
        (analysis.pass graph (analysis.transfer block notes) progress (target, edge)) ≤
      budget.measure progress :=
  Finset.sum_le_sum fun other _ => budget.share_pass_le sound crosses entered valid other

/-- The measure falls with every visit. -/
theorem measure_visits_lt
    (closed : graph.Closed)
    (lawful : analysis.Lawful graph Valid)
    {before after : Progress}
    (sound : analysis.Sound graph Valid before)
    (visits : Progress.Visits (analysis.visit graph) before after) :
    budget.measure after < budget.measure before := by
  obtain ⟨index, rest, popped, rfl⟩ := visits
  obtain ⟨block, block_eq⟩ := sound.exists_block popped
  have waits := Worklist.mem_of_pop_eq_some popped
  have entered := sound.entered index waits
  have valid := sound.valid index (sound.consistent.lt_of_mem waits)
  have kept := sound.keeps lawful popped block_eq
  simp only [visit, block_eq]
  refine (foldl_pass_induction
    (fun pending progress => pending ⊆ block.successors ∧
      analysis.Sound graph Valid progress ∧ budget.measure progress < budget.measure before)
    ?_ ⟨List.Subset.refl _, sound.transfer lawful.toEnters popped kept,
      budget.measure_transfer_lt sound popped block_eq⟩).2.2
  rintro successor pending progress ⟨contained, soundNow, less⟩
  obtain ⟨targetBlock, crosses⟩ :=
    closed.exists_crosses block_eq (contained List.mem_cons_self)
  exact ⟨fun _ later => contained (List.mem_cons_of_mem _ later),
    soundNow.pass lawful.toEnters crosses kept,
    Nat.lt_of_le_of_lt (budget.measure_pass_le soundNow crosses entered valid) less⟩

/-- A run whose fuel covers the measure ends with nobody waiting. -/
theorem drains
    (closed : graph.Closed)
    (lawful : analysis.Lawful graph Valid)
    {start : Progress}
    (sound : analysis.Sound graph Valid start)
    {fuel : Nat}
    (enough : budget.measure start ≤ fuel) :
    (Progress.run (analysis.visit graph) fuel start).worklist.toList = [] :=
  Progress.toList_run_eq_nil (analysis.Sound graph Valid) budget.measure
    (fun _ _ soundBefore visits =>
      ⟨soundBefore.visits closed lawful.toEnters
        (fun _ _ _ popped block_eq => soundBefore.keeps lawful popped block_eq) visits,
        budget.measure_visits_lt closed lawful soundBefore visits⟩)
    fuel start sound enough

end Budget

end Analysis
end StackMaps
