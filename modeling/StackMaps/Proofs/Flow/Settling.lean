import StackMaps.Proofs.Flow.Accounting

/-!
# Settled blocks

A block is settled if the outcome of its present entry has been taken account of
by all its successors. A lawful analysis takes account of all that is received,
whatever the run. So all blocks but those that wait are settled at every moment of
a run, and at its end all of them are.
-/

namespace StackMaps
namespace Analysis

variable {State : Type}

/-- What it means that a successor has taken account of an entry, and that a block
has been done with. -/
structure Settlement
    (analysis : Analysis State)
    (graph : FlowGraph)
    (Valid : Nat → Notes → Prop) where
  /-- The block, given last with its notes, has taken account of the state at the
  entry of another one, given first, from which an edge comes. -/
  Absorbs : Block → State → Edge → Block → Notes → Prop
  Done : Block → Notes → Prop
  absorbs_receive : ∀ index block edge target targetBlock notes known state,
    graph.Crosses index block edge target targetBlock →
    analysis.entry notes = some state →
    Valid index notes →
    Valid target known →
    Absorbs block state edge targetBlock
      (analysis.receive targetBlock edge (analysis.transfer block notes) known)
  absorbs_receive_other :
    ∀ otherBlock state otherEdge index block edge target targetBlock notes known,
    graph.Crosses index block edge target targetBlock →
    (analysis.entry notes).isSome →
    Valid index notes →
    Valid target known →
    Absorbs otherBlock state otherEdge targetBlock known →
    Absorbs otherBlock state otherEdge targetBlock
      (analysis.receive targetBlock edge (analysis.transfer block notes) known)
  absorbs_transfer : ∀ block state edge targetBlock known,
    Absorbs block state edge targetBlock known →
    Absorbs block state edge targetBlock (analysis.transfer targetBlock known)
  done_receive : ∀ block edge source notes,
    analysis.entry (analysis.receive block edge source notes) = analysis.entry notes →
    Done block notes →
    Done block (analysis.receive block edge source notes)

namespace Settlement

variable {analysis : Analysis State} {graph : FlowGraph} {Valid : Nat → Notes → Prop}

/-- Every reached block that does not wait is done with, and its successors have
taken account of its entry. -/
def Settled (settlement : Settlement analysis graph Valid) (progress : Progress) : Prop :=
  ∀ index block state,
    graph.blocks[index]? = some block →
    index ∉ progress.worklist.toList →
    analysis.entry (progress.notesOn index) = some state →
    settlement.Done block (progress.notesOn index) ∧
      ∀ edge target targetBlock,
        graph.Crosses index block edge target targetBlock →
        settlement.Absorbs block state edge targetBlock (progress.notesOn target)

variable {settlement : Settlement analysis graph Valid}

/-- Before the first visit no block is reached but the one that waits. -/
theorem Settled.opening
    {change : Notes → Notes}
    (filled : 0 < graph.blocks.size)
    (unreached : analysis.entry .blank = none) :
    settlement.Settled (graph.opening change) := by
  intro index block state _ idle entry_eq
  rw [entry_opening_of_idle filled unreached idle] at entry_eq
  cases entry_eq

variable [DecidableEq State]

/-- What a lawful analysis takes account of is taken account of in every run. -/
theorem accounts
    {start : Progress}
    (settlement : Settlement analysis graph Valid)
    (closed : graph.Closed)
    (lawful : analysis.Lawful graph Valid)
    (sound : analysis.Sound graph Valid start)
    (done : ∀ moment index rest block,
      Progress.Reaches (analysis.visit graph) start moment →
      moment.worklist.pop = (some index, rest) →
      graph.blocks[index]? = some block →
      settlement.Done block (analysis.transfer block (moment.notesOn index))) :
    analysis.Accounts graph start
      (fun index notes => ∀ block, graph.blocks[index]? = some block → settlement.Done block notes)
      (fun index state successor notes => ∀ block targetBlock,
        graph.Crosses index block successor.2 successor.1 targetBlock →
        settlement.Absorbs block state successor.2 targetBlock notes) where
  receive index block target edge targetBlock notes pending progress state visiting crosses
      entry_eq := by
    intro same sameTarget sameCrosses
    obtain rfl := Option.some.inj (sameCrosses.source_eq.symm.trans crosses.source_eq)
    obtain rfl := Option.some.inj (sameCrosses.target_eq.symm.trans crosses.target_eq)
    obtain ⟨now, valid, _⟩ := sound.visiting closed lawful visiting
    exact settlement.absorbs_receive _ _ _ _ _ _ _ _ crosses entry_eq valid
      (now.valid target crosses.target_lt)
  receive_other index block target edge targetBlock notes pending progress visiting crosses
      other state otherEdge before := by
    intro otherBlock sameTarget otherCrosses
    obtain rfl := Option.some.inj (otherCrosses.target_eq.symm.trans crosses.target_eq)
    obtain ⟨now, valid, entered⟩ := sound.visiting closed lawful visiting
    exact settlement.absorbs_receive_other _ _ _ _ _ _ _ _ _ _ crosses entered valid
      (now.valid target crosses.target_lt) (before otherBlock sameTarget otherCrosses)
  transfer target block known other state edge block_eq before := by
    intro otherBlock same otherCrosses
    obtain rfl := Option.some.inj (otherCrosses.target_eq.symm.trans block_eq)
    exact settlement.absorbs_transfer _ _ _ _ _ (before otherBlock same otherCrosses)
  done_transfer moment index rest block reached popped block_eq := by
    intro same same_eq
    obtain rfl := Option.some.inj (same_eq.symm.trans block_eq)
    exact done moment index rest same reached popped block_eq
  done_receive target block edge source notes block_eq unchanged before := by
    intro same same_eq
    obtain rfl := Option.some.inj (same_eq.symm.trans block_eq)
    exact settlement.done_receive _ _ _ _ unchanged (before same same_eq)

/-- All blocks but those that wait are settled at every moment of a run. -/
theorem Settled.reaches
    {start progress : Progress}
    (settled : settlement.Settled start)
    (closed : graph.Closed)
    (lawful : analysis.Lawful graph Valid)
    (sound : analysis.Sound graph Valid start)
    (done : ∀ moment index rest block,
      Progress.Reaches (analysis.visit graph) start moment →
      moment.worklist.pop = (some index, rest) →
      graph.blocks[index]? = some block →
      settlement.Done block (analysis.transfer block (moment.notesOn index)))
    (reaches : Progress.Reaches (analysis.visit graph) start progress) :
    settlement.Settled progress := by
  have accounted := (settlement.accounts closed lawful sound done).reaches closed lawful sound
    (fun index block state block_eq idle entry_eq => by
      obtain ⟨isDone, absorbs⟩ := settled index block state block_eq idle entry_eq
      refine ⟨fun same same_eq => ?_, fun successor _ same targetBlock crosses => ?_⟩
      · exact Option.some.inj (same_eq.symm.trans block_eq) ▸ isDone
      · obtain rfl := Option.some.inj (crosses.source_eq.symm.trans block_eq)
        exact absorbs _ _ _ crosses) reaches
  intro index block state block_eq idle entry_eq
  obtain ⟨isDone, absorbs⟩ := accounted index block state block_eq idle entry_eq
  exact ⟨isDone block block_eq, fun edge target targetBlock crosses =>
    absorbs (target, edge) crosses.mem_successors block targetBlock crosses⟩

end Settlement

end Analysis
end StackMaps
