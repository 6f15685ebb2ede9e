import StackMaps.Proofs.Flow.Moments

/-!
# Accounts between blocks

In a run every block passes its outcome on to its successors. If a successor takes
account of what it receives, and keeps to it whatever else it receives in this run,
then at every moment the successors of all blocks but those that wait have taken
account of their present entries.
-/

namespace StackMaps
namespace Analysis

variable {State : Type}

/-- Every reached block that does not wait is done with, and its successors have taken
account of its entry, up to some edges out of one block. -/
def AccountedBut
    (analysis : Analysis State)
    (graph : FlowGraph)
    (Done : Nat → Notes → Prop)
    (Absorbs : Nat → State → Nat × Edge → Notes → Prop)
    (visited : Nat)
    (pending : List (Nat × Edge))
    (progress : Progress) : Prop :=
  ∀ index block state,
    graph.blocks[index]? = some block →
    index ∉ progress.worklist.toList →
    analysis.entry (progress.notesOn index) = some state →
    Done index (progress.notesOn index) ∧
      ∀ successor ∈ block.successors,
        (index = visited → successor ∉ pending) →
        Absorbs index state successor (progress.notesOn successor.1)

/-- Every reached block that does not wait is done with, and its successors have taken
account of its entry. -/
def Accounted
    (analysis : Analysis State)
    (graph : FlowGraph)
    (Done : Nat → Notes → Prop)
    (Absorbs : Nat → State → Nat × Edge → Notes → Prop)
    (progress : Progress) : Prop :=
  ∀ index block state,
    graph.blocks[index]? = some block →
    index ∉ progress.worklist.toList →
    analysis.entry (progress.notesOn index) = some state →
    Done index (progress.notesOn index) ∧
      ∀ successor ∈ block.successors,
        Absorbs index state successor (progress.notesOn successor.1)

/-- Before the first visit no block is reached but the one that waits. -/
theorem entry_opening_of_idle
    {analysis : Analysis State}
    {graph : FlowGraph}
    {change : Notes → Notes}
    (filled : 0 < graph.blocks.size)
    (unreached : analysis.entry .blank = none)
    {index : Nat}
    (idle : index ∉ (graph.opening change).worklist.toList) :
    analysis.entry ((graph.opening change).notesOn index) = none := by
  have later : index ≠ 0 := by
    simpa [FlowGraph.opening, Worklist.toList_single] using idle
  rw [FlowGraph.notesOn_opening filled, if_neg later, unreached]

theorem accounted_opening
    {analysis : Analysis State}
    {graph : FlowGraph}
    {Done : Nat → Notes → Prop}
    {Absorbs : Nat → State → Nat × Edge → Notes → Prop}
    {change : Notes → Notes}
    (filled : 0 < graph.blocks.size)
    (unreached : analysis.entry .blank = none) :
    analysis.Accounted graph Done Absorbs (graph.opening change) := by
  intro index block state _ idle entry_eq
  rw [entry_opening_of_idle filled unreached idle] at entry_eq
  cases entry_eq

variable [DecidableEq State]

/-- In the run from a start every successor takes account of what it receives, and keeps to
it. An account is between the entry of a block, given first with the state, and the
notes on a successor. -/
structure Accounts
    (analysis : Analysis State)
    (graph : FlowGraph)
    (start : Progress)
    (Done : Nat → Notes → Prop)
    (Absorbs : Nat → State → Nat × Edge → Notes → Prop) : Prop where
  receive : ∀ index block target edge targetBlock notes pending progress state,
    analysis.Visiting graph start index block notes ((target, edge) :: pending) progress →
    graph.Crosses index block edge target targetBlock →
    analysis.entry notes = some state →
    Absorbs index state (target, edge)
      (analysis.receive targetBlock edge (analysis.transfer block notes)
        (progress.notesOn target))
  receive_other : ∀ index block target edge targetBlock notes pending progress,
    analysis.Visiting graph start index block notes ((target, edge) :: pending) progress →
    graph.Crosses index block edge target targetBlock →
    ∀ other state otherEdge,
      Absorbs other state (target, otherEdge) (progress.notesOn target) →
      Absorbs other state (target, otherEdge)
        (analysis.receive targetBlock edge (analysis.transfer block notes)
          (progress.notesOn target))
  transfer : ∀ target block known other state edge,
    graph.blocks[target]? = some block →
    Absorbs other state (target, edge) known →
    Absorbs other state (target, edge) (analysis.transfer block known)
  done_transfer : ∀ moment index rest block,
    Progress.Reaches (analysis.visit graph) start moment →
    moment.worklist.pop = (some index, rest) →
    graph.blocks[index]? = some block →
    Done index (analysis.transfer block (moment.notesOn index))
  done_receive : ∀ target block edge source notes,
    graph.blocks[target]? = some block →
    analysis.entry (analysis.receive block edge source notes) = analysis.entry notes →
    Done target notes →
    Done target (analysis.receive block edge source notes)

namespace Accounts

variable {analysis : Analysis State} {graph : FlowGraph} {Valid : Nat → Notes → Prop}
variable {start progress : Progress}
variable {Done : Nat → Notes → Prop} {Absorbs : Nat → State → Nat × Edge → Notes → Prop}
variable {index : Nat} {block : Block} {notes : Notes}

/-- After a block has been taken off the worklist and carried through, only its own
edges are left to be followed. -/
theorem taken
    (accounts : analysis.Accounts graph start Done Absorbs)
    (sound : analysis.Sound graph Valid progress)
    (reached : Progress.Reaches (analysis.visit graph) start progress)
    {rest : Worklist}
    (popped : progress.worklist.pop = (some index, rest))
    (block_eq : graph.blocks[index]? = some block)
    (accounted : analysis.Accounted graph Done Absorbs progress) :
    analysis.AccountedBut graph Done Absorbs index block.successors
      ((⟨progress.notes, rest⟩ : Progress).record index
        (analysis.transfer block (progress.notesOn index))) := by
  have order := Worklist.toList_of_pop_eq_some popped
  have notes_eq := fun other => Progress.notesOn_record ⟨progress.notes, rest⟩ index other
    (analysis.transfer block (progress.notesOn index)) (sound.lt_size popped)
  intro other otherBlock state other_eq idle entry_eq
  rw [notes_eq] at entry_eq ⊢
  by_cases same : other = index
  · subst same
    obtain rfl := Option.some.inj (other_eq.symm.trans block_eq)
    rw [if_pos rfl]
    exact ⟨accounts.done_transfer progress other rest otherBlock reached popped block_eq,
      fun successor present followed => absurd present (followed rfl)⟩
  · rw [if_neg same] at entry_eq ⊢
    have idleBefore : other ∉ progress.worklist.toList := by
      rw [order, List.mem_cons, not_or]
      exact ⟨same, idle⟩
    obtain ⟨done, absorbs⟩ := accounted other otherBlock state other_eq idleBefore entry_eq
    refine ⟨done, fun successor present _ => ?_⟩
    rw [notes_eq]
    split
    next here =>
        obtain ⟨target, edge⟩ := successor
        obtain rfl : target = index := here
        exact accounts.transfer target block _ other state edge block_eq (absorbs _ present)
    next => exact absorbs successor present

/-- One edge less is left to be followed after the successor has received the outcome.
The entry of the visited block is the one that has been carried through as long
as the block does not wait again. -/
theorem passed
    (accounts : analysis.Accounts graph start Done Absorbs)
    (sound : analysis.Sound graph Valid progress)
    {target : Nat}
    {edge : Edge}
    {targetBlock : Block}
    {pending : List (Nat × Edge)}
    (visiting :
      analysis.Visiting graph start index block notes ((target, edge) :: pending) progress)
    (crosses : graph.Crosses index block edge target targetBlock)
    (unchanged : index ∉ progress.worklist.toList →
      analysis.entry (progress.notesOn index) = analysis.entry notes)
    (accounted :
      analysis.AccountedBut graph Done Absorbs index ((target, edge) :: pending) progress) :
    analysis.AccountedBut graph Done Absorbs index pending
      (analysis.pass graph (analysis.transfer block notes) progress (target, edge)) := by
  intro other otherBlock state other_eq idle entry_eq
  rw [entry_pass crosses.target_eq sound.size_eq sound.consistent idle] at entry_eq
  rw [not_mem_worklist_pass crosses.target_eq sound.consistent] at idle
  obtain ⟨same_entry, idleBefore⟩ := idle
  obtain ⟨done, absorbs⟩ := accounted other otherBlock state other_eq idleBefore entry_eq
  refine ⟨?_, ?_⟩
  · rw [notesOn_pass crosses.target_eq sound.size_eq]
    split
    next same =>
        subst same
        exact accounts.done_receive _ _ _ _ _ crosses.target_eq (same_entry rfl) done
    next => exact done
  · rintro ⟨reached, otherEdge⟩ present followed
    rw [notesOn_pass crosses.target_eq sound.size_eq]
    by_cases head : other = index ∧ (reached, otherEdge) = (target, edge)
    · obtain ⟨rfl, pair_eq⟩ := head
      obtain ⟨rfl, rfl⟩ := Prod.mk.inj pair_eq
      rw [if_pos rfl]
      exact accounts.receive _ _ _ _ _ _ _ _ _ visiting crosses
        ((unchanged idleBefore).symm.trans entry_eq)
    · have stillPending : other = index → (reached, otherEdge) ∉ (target, edge) :: pending := by
        intro same isPending
        rcases List.mem_cons.mp isPending with isHead | later
        · exact head ⟨same, isHead⟩
        · exact followed same later
      have before := absorbs _ present stillPending
      split
      next same =>
          obtain rfl : reached = target := same
          exact accounts.receive_other _ _ _ _ _ _ _ _ visiting crosses _ _ _ before
      next => exact before

/-- All blocks but those that wait are accounted for at every moment of a run. -/
theorem reaches
    (accounts : analysis.Accounts graph start Done Absorbs)
    (closed : graph.Closed)
    (lawful : analysis.Lawful graph Valid)
    (sound : analysis.Sound graph Valid start)
    (atStart : analysis.Accounted graph Done Absorbs start)
    (reached : Progress.Reaches (analysis.visit graph) start progress) :
    analysis.Accounted graph Done Absorbs progress := by
  refine (sound.induction closed lawful (analysis.Accounted graph Done Absorbs)
    (fun index block notes pending now =>
      (index ∉ now.worklist.toList → analysis.entry (now.notesOn index) = analysis.entry notes) ∧
        analysis.AccountedBut graph Done Absorbs index pending now)
    atStart ?_ ?_ ?_).1 progress reached
  · intro moment index rest block reached now accounted popped block_eq
    refine ⟨fun _ => ?_, accounts.taken now reached popped block_eq accounted⟩
    rw [Progress.notesOn_record ⟨moment.notes, rest⟩ _ _ _ (now.lt_size popped), if_pos rfl,
      lawful.entry_transfer]
  · rintro index block notes target edge targetBlock pending progress visiting now crosses
      ⟨unchanged, accounted⟩
    refine ⟨fun idle => ?_, accounts.passed now visiting crosses unchanged accounted⟩
    rw [entry_pass crosses.target_eq now.size_eq now.consistent idle]
    exact unchanged ((not_mem_worklist_pass crosses.target_eq now.consistent).mp idle).2
  · rintro index block notes now _ ⟨_, accounted⟩ other otherBlock state other_eq idle entry_eq
    obtain ⟨done, absorbs⟩ := accounted other otherBlock state other_eq idle entry_eq
    exact ⟨done, fun successor present => absorbs successor present fun _ => List.not_mem_nil⟩

end Accounts

end Analysis
end StackMaps
