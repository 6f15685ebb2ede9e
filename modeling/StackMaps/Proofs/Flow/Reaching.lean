import StackMaps.Proofs.Flow.Settling

/-!
# Reached blocks

Whatever the states of an analysis are, the blocks that it has reached when nobody
waits any more are those to which edges lead from the first one. Analyses that have
nothing else in common reach the same blocks.
-/

namespace StackMaps

namespace FlowGraph

/-- There is an edge from a block to another one. -/
def Follows (graph : FlowGraph) (index target : Nat) : Prop :=
  ∃ block edge, graph.blocks[index]? = some block ∧ (target, edge) ∈ block.successors

/-- Edges lead from the first block to the given one. -/
def Reachable (graph : FlowGraph) : Nat → Prop :=
  Relation.ReflTransGen graph.Follows 0

theorem Crosses.follows
    {graph : FlowGraph}
    {index target : Nat}
    {block targetBlock : Block}
    {edge : Edge}
    (crosses : graph.Crosses index block edge target targetBlock) :
    graph.Follows index target :=
  ⟨block, edge, crosses.source_eq, crosses.mem_successors⟩

end FlowGraph

namespace Analysis

variable {State : Type} {analysis : Analysis State} {graph : FlowGraph}

/-- Only blocks to which edges lead are entered, and the first one is. -/
structure Tracks
    (analysis : Analysis State)
    (graph : FlowGraph)
    (index : Nat)
    (notes : Notes) : Prop where
  reachable : (analysis.entry notes).isSome → graph.Reachable index
  isSome_of_first : index = 0 → (analysis.entry notes).isSome

theorem Enters.lawful_tracks (enters : analysis.Enters) :
    analysis.Lawful graph (analysis.Tracks graph) where
  toEnters := enters
  valid_transfer index block notes _ _ tracks := by
    have same := enters.entry_transfer block notes
    exact ⟨fun entered => tracks.reachable (same ▸ entered),
      fun first => same ▸ tracks.isSome_of_first first⟩
  valid_receive _ _ _ _ _ _ _ crosses entered tracks _ :=
    ⟨fun _ => (tracks.reachable entered).tail crosses.follows,
      fun _ => enters.entry_receive _ _ _ _⟩

/-- A successor has taken account of an entry if it is reached. -/
def Enters.settlement
    (enters : analysis.Enters)
    (graph : FlowGraph)
    (Valid : Nat → Notes → Prop) :
    analysis.Settlement graph Valid where
  Absorbs _ _ _ _ known := (analysis.entry known).isSome
  Done _ _ := True
  absorbs_receive _ _ _ _ _ _ _ _ _ _ _ _ := enters.entry_receive _ _ _ _
  absorbs_receive_other _ _ _ _ _ _ _ _ _ _ _ _ _ _ _ := enters.entry_receive _ _ _ _
  absorbs_transfer _ _ _ targetBlock known entered := by
    rwa [enters.entry_transfer targetBlock known]
  done_receive _ _ _ _ _ _ := trivial

variable [DecidableEq State]

/-- When nobody waits any more those blocks are entered to which edges lead. -/
theorem Enters.isSome_entry_iff_reachable
    (enters : analysis.Enters)
    (closed : graph.Closed)
    (filled : 0 < graph.blocks.size)
    {change : Notes → Notes}
    (entered : (analysis.entry (change .blank)).isSome)
    (unreached : analysis.entry .blank = none)
    {finished : Progress}
    (reaches : Progress.Reaches (analysis.visit graph) (graph.opening change) finished)
    (drained : finished.worklist.toList = [])
    (index : Nat) :
    (analysis.entry (finished.notesOn index)).isSome ↔ graph.Reachable index := by
  have lawful : analysis.Lawful graph (analysis.Tracks graph) := enters.lawful_tracks
  have opening : analysis.Sound graph (analysis.Tracks graph) (graph.opening change) := by
    refine Sound.opening filled entered ⟨fun _ => .refl, fun _ => entered⟩ ?_
    intro other later
    exact ⟨fun absent => by simp [unreached] at absent, fun first => by omega⟩
  have sound := opening.reaches closed lawful reaches
  constructor
  · intro isEntered
    by_cases inside : index < graph.blocks.size
    · exact (sound.valid index inside).reachable isEntered
    · have outside : finished.notes.size ≤ index := by
        rw [sound.size_eq]
        exact Nat.le_of_not_lt inside
      simp [Progress.notesOn_of_size_le outside, unreached] at isEntered
  · intro reachable
    have settled : (enters.settlement graph (analysis.Tracks graph)).Settled finished :=
      (Settlement.Settled.opening filled unreached).reaches closed lawful opening
        (fun _ _ _ _ _ _ _ => trivial) reaches
    induction reachable with
    | refl => exact (sound.valid 0 filled).isSome_of_first rfl
    | @tail source target _ follows hypothesis =>
        obtain ⟨block, edge, block_eq, present⟩ := follows
        obtain ⟨targetBlock, crosses⟩ := closed.exists_crosses block_eq present
        obtain ⟨state, state_eq⟩ := Option.isSome_iff_exists.mp hypothesis
        exact (settled source block state block_eq (by simp [drained]) state_eq).2 edge target
          targetBlock crosses

end Analysis
end StackMaps
