import StackMaps.Proofs.Flow.Worklist

/-!
# Analyses over a worklist

An analysis keeps what it knows of the entry of every block in the notes. A visit
carries the entry through the block, and every successor receives the outcome;
one whose entry changes by that waits for a visit itself. This module shows once
for all analyses what their runs keep, why they end, and that a block nobody
waits for has been taken account of by all its successors.
-/

namespace StackMaps

namespace FlowGraph

/-- Every edge leads to a block. -/
def Closed (graph : FlowGraph) : Prop :=
  ∀ (index : Nat) (block : Block), graph.blocks[index]? = some block →
    ∀ successor ∈ block.successors, successor.1 < graph.blocks.size

/-- An edge from one block to another. -/
structure Crosses
    (graph : FlowGraph)
    (index : Nat)
    (block : Block)
    (edge : Edge)
    (target : Nat)
    (targetBlock : Block) : Prop where
  source_eq : graph.blocks[index]? = some block
  mem_successors : (target, edge) ∈ block.successors
  target_eq : graph.blocks[target]? = some targetBlock

theorem Crosses.target_lt
    {graph : FlowGraph}
    {index target : Nat}
    {block targetBlock : Block}
    {edge : Edge}
    (crosses : graph.Crosses index block edge target targetBlock) :
    target < graph.blocks.size :=
  (Array.getElem?_eq_some_iff.mp crosses.target_eq).1

/-- An edge out of a block crosses to another one, as long as no edge leaves the
graph. -/
theorem Closed.exists_crosses
    {graph : FlowGraph}
    (closed : graph.Closed)
    {index : Nat}
    {block : Block}
    (block_eq : graph.blocks[index]? = some block)
    {successor : Nat × Edge}
    (present : successor ∈ block.successors) :
    ∃ targetBlock, graph.Crosses index block successor.2 successor.1 targetBlock :=
  ⟨_, block_eq, present, Array.getElem?_eq_getElem (closed index block block_eq successor present)⟩

end FlowGraph

namespace FlowGraph

/-- The moment before the first visit: only the notes on the first block have been
changed, and only this one waits. -/
def opening (graph : FlowGraph) (change : Notes → Notes) : Progress :=
  { notes := (Array.replicate graph.blocks.size .blank).modify 0 change
    worklist := .single graph.blocks.size 0 }

/-- Nothing is left of notes that have been wiped. -/
theorem map_wipe (notes : Array Notes) :
    notes.map Notes.wipe = Array.replicate notes.size .blank := by
  have constant : Notes.wipe = fun _ => Notes.blank := rfl
  rw [constant, Array.map_const']

theorem notesOn_opening
    {graph : FlowGraph}
    {change : Notes → Notes}
    (filled : 0 < graph.blocks.size)
    (index : Nat) :
    (graph.opening change).notesOn index =
      if index = 0 then change .blank else .blank := by
  by_cases first : index = 0
  · subst first
    simp [opening, Progress.notesOn, Array.getD_eq_getD_getElem?, Array.getElem_modify, filled]
  · have other : ¬0 = index := fun equal => first equal.symm
    simp [opening, Progress.notesOn, Array.getD_eq_getD_getElem?, Array.getElem?_modify, first,
      other, Array.getElem?_replicate]
    split <;> simp

end FlowGraph

/-- What an analysis does to the notes on blocks. -/
structure Analysis (State : Type) where
  /-- What is known at the entry of a block, once it is reached. -/
  entry : Notes → Option State
  /-- The notes on a block after a visit. -/
  transfer : Block → Notes → Notes
  /-- The notes on a block, given last, after it has received the outcome of the
  notes before them along an edge. -/
  receive : Block → Edge → Notes → Notes → Notes

namespace Analysis

variable {State : Type} (analysis : Analysis State) (graph : FlowGraph)

/-- The laws of entries. Visits leave them alone, and who receives something is
reached. -/
structure Enters : Prop where
  entry_transfer : ∀ block notes,
    analysis.entry (analysis.transfer block notes) = analysis.entry notes
  entry_receive : ∀ block edge source notes,
    (analysis.entry (analysis.receive block edge source notes)).isSome

/-- The laws of an analysis: those of entries, and that what is valid stays so. -/
structure Lawful (Valid : Nat → Notes → Prop) : Prop extends analysis.Enters where
  valid_transfer : ∀ index block notes,
    graph.blocks[index]? = some block →
    (analysis.entry notes).isSome →
    Valid index notes →
    Valid index (analysis.transfer block notes)
  valid_receive : ∀ index block edge target targetBlock notes known,
    graph.Crosses index block edge target targetBlock →
    (analysis.entry notes).isSome →
    Valid index notes →
    Valid target known →
    Valid target (analysis.receive targetBlock edge (analysis.transfer block notes) known)

/-- What is valid stays so when the block is visited with the given notes. -/
structure Keeps
    (Valid : Nat → Notes → Prop)
    (index : Nat)
    (block : Block)
    (notes : Notes) : Prop where
  valid_transfer : Valid index (analysis.transfer block notes)
  valid_receive : ∀ edge target targetBlock known,
    graph.Crosses index block edge target targetBlock →
    Valid target known →
    Valid target (analysis.receive targetBlock edge (analysis.transfer block notes) known)

/-- A moment at which the books are in order: whoever waits has been reached, and
the notes on every block are valid. -/
structure Sound (Valid : Nat → Notes → Prop) (progress : Progress) : Prop where
  size_eq : progress.notes.size = graph.blocks.size
  consistent : progress.worklist.Consistent graph.blocks.size
  entered : ∀ index ∈ progress.worklist.toList,
    (analysis.entry (progress.notesOn index)).isSome
  valid : ∀ index, index < graph.blocks.size → Valid index (progress.notesOn index)

/-- A lawful analysis keeps what is valid in every visit of a reached block. -/
theorem Lawful.keeps
    {analysis : Analysis State}
    {graph : FlowGraph}
    {Valid : Nat → Notes → Prop}
    (lawful : analysis.Lawful graph Valid)
    {index : Nat}
    {block : Block}
    {notes : Notes}
    (block_eq : graph.blocks[index]? = some block)
    (entered : (analysis.entry notes).isSome)
    (valid : Valid index notes) :
    analysis.Keeps graph Valid index block notes where
  valid_transfer := lawful.valid_transfer index block notes block_eq entered valid
  valid_receive edge target targetBlock known crosses targetValid :=
    lawful.valid_receive index block edge target targetBlock notes known crosses entered valid
      targetValid

/-- The books are in order before the first visit. -/
theorem Sound.opening
    {analysis : Analysis State}
    {graph : FlowGraph}
    {Valid : Nat → Notes → Prop}
    {change : Notes → Notes}
    (filled : 0 < graph.blocks.size)
    (entered : (analysis.entry (change .blank)).isSome)
    (first : Valid 0 (change .blank))
    (others : ∀ index, 0 < index → Valid index .blank) :
    analysis.Sound graph Valid (graph.opening change) := by
  refine ⟨by simp [FlowGraph.opening], Worklist.consistent_single filled, ?_, ?_⟩
  · intro index waits
    obtain rfl : index = 0 := by
      simpa [FlowGraph.opening, Worklist.toList_single] using waits
    rw [FlowGraph.notesOn_opening filled, if_pos rfl]
    exact entered
  · intro index _
    rw [FlowGraph.notesOn_opening filled]
    split
    next isFirst => exact isFirst ▸ first
    next later => exact others index (Nat.pos_of_ne_zero later)

/-- What is valid of blank notes is valid everywhere. -/
theorem Sound.valid_of_blank
    {analysis : Analysis State}
    {graph : FlowGraph}
    {Valid : Nat → Notes → Prop}
    {progress : Progress}
    (sound : analysis.Sound graph Valid progress)
    (blank : ∀ index, Valid index .blank)
    (index : Nat) :
    Valid index (progress.notesOn index) := by
  by_cases inside : index < graph.blocks.size
  · exact sound.valid index inside
  · rw [Progress.notesOn_of_size_le (sound.size_eq ▸ Nat.le_of_not_lt inside)]
    exact blank index

/-- All notes are valid on some block. -/
theorem Sound.exists_valid
    {analysis : Analysis State}
    {graph : FlowGraph}
    {Valid : Nat → Notes → Prop}
    {progress : Progress}
    (sound : analysis.Sound graph Valid progress)
    {notes : Notes}
    (present : notes ∈ progress.notes.toList) :
    ∃ index, Valid index notes := by
  obtain ⟨index, inside, rfl⟩ := Progress.exists_notesOn_eq present
  exact ⟨index, sound.valid index (sound.size_eq ▸ inside)⟩

/-- Whoever is taken off the worklist is a block. -/
theorem Sound.exists_block
    {analysis : Analysis State}
    {graph : FlowGraph}
    {Valid : Nat → Notes → Prop}
    {progress : Progress}
    (sound : analysis.Sound graph Valid progress)
    {index : Nat}
    {rest : Worklist}
    (popped : progress.worklist.pop = (some index, rest)) :
    ∃ block, graph.blocks[index]? = some block := by
  have waits := Worklist.mem_of_pop_eq_some popped
  exact ⟨_, Array.getElem?_eq_getElem (sound.consistent.lt_of_mem waits)⟩

/-- There are notes on whoever is taken off the worklist. -/
theorem Sound.lt_size
    {analysis : Analysis State}
    {graph : FlowGraph}
    {Valid : Nat → Notes → Prop}
    {progress : Progress}
    (sound : analysis.Sound graph Valid progress)
    {index : Nat}
    {rest : Worklist}
    (popped : progress.worklist.pop = (some index, rest)) :
    index < progress.notes.size := by
  rw [sound.size_eq]
  exact sound.consistent.lt_of_mem (Worklist.mem_of_pop_eq_some popped)

/-- A lawful analysis keeps what is valid when it visits whoever comes next. -/
theorem Sound.keeps
    {analysis : Analysis State}
    {graph : FlowGraph}
    {Valid : Nat → Notes → Prop}
    (lawful : analysis.Lawful graph Valid)
    {progress : Progress}
    (sound : analysis.Sound graph Valid progress)
    {index : Nat}
    {rest : Worklist}
    {block : Block}
    (popped : progress.worklist.pop = (some index, rest))
    (block_eq : graph.blocks[index]? = some block) :
    analysis.Keeps graph Valid index block (progress.notesOn index) := by
  have waits := Worklist.mem_of_pop_eq_some popped
  exact lawful.keeps block_eq (sound.entered index waits)
    (sound.valid index (sound.consistent.lt_of_mem waits))

/-- The books are in order after a block has been taken off the worklist and carried
through. -/
theorem Sound.transfer
    {analysis : Analysis State}
    {graph : FlowGraph}
    {Valid : Nat → Notes → Prop}
    (enters : analysis.Enters)
    {progress : Progress}
    (sound : analysis.Sound graph Valid progress)
    {index : Nat}
    {rest : Worklist}
    {block : Block}
    (popped : progress.worklist.pop = (some index, rest))
    (keeps : analysis.Keeps graph Valid index block (progress.notesOn index)) :
    analysis.Sound graph Valid
      ((⟨progress.notes, rest⟩ : Progress).record index
        (analysis.transfer block (progress.notesOn index))) := by
  have order := Worklist.toList_of_pop_eq_some popped
  have waits := Worklist.mem_of_pop_eq_some popped
  have inside := sound.lt_size popped
  refine ⟨by simp [sound.size_eq], sound.consistent.pop popped, ?_, ?_⟩
  · intro other waitsStill
    rw [Progress.notesOn_record ⟨progress.notes, rest⟩ _ _ _ inside]
    split
    · rw [enters.entry_transfer]
      exact sound.entered index waits
    · exact sound.entered other (by simpa [order] using Or.inr waitsStill)
  · intro other otherInside
    rw [Progress.notesOn_record ⟨progress.notes, rest⟩ _ _ _ inside]
    split
    next same =>
        subst same
        exact keeps.valid_transfer
    · exact sound.valid other otherInside

variable [DecidableEq State]

/-- Let a successor receive the outcome of a visit. It waits for a visit itself if
its entry changes. -/
def pass (source : Notes) (progress : Progress) (successor : Nat × Edge) : Progress :=
  match graph.blocks[successor.1]? with
  | none => progress
  | some block =>
      let before := progress.notesOn successor.1
      let after := analysis.receive block successor.2 source before
      let recorded := progress.record successor.1 after
      if analysis.entry after = analysis.entry before then recorded
      else recorded.enqueue successor.1

/-- Visit a block and let its successors receive the outcome. -/
def visit (progress : Progress) (index : Nat) : Progress :=
  match graph.blocks[index]? with
  | none => progress
  | some block =>
      let source := analysis.transfer block (progress.notesOn index)
      block.successors.foldl (analysis.pass graph source) (progress.record index source)

section Pass

variable {analysis graph}
variable {progress : Progress} {source : Notes} {target : Nat} {edge : Edge}
variable {targetBlock : Block}

theorem size_pass (successor : Nat × Edge) :
    (analysis.pass graph source progress successor).notes.size = progress.notes.size := by
  unfold pass
  split
  · rfl
  · dsimp only
    split <;> simp

/-- Only the successor takes new notes. -/
theorem notesOn_pass
    (target_eq : graph.blocks[target]? = some targetBlock)
    (size_eq : progress.notes.size = graph.blocks.size)
    (other : Nat) :
    (analysis.pass graph source progress (target, edge)).notesOn other =
      if other = target then
        analysis.receive targetBlock edge source (progress.notesOn target)
      else progress.notesOn other := by
  have inside : target < progress.notes.size := by
    rw [size_eq]
    exact (Array.getElem?_eq_some_iff.mp target_eq).1
  simp only [pass, target_eq]
  split
  · exact progress.notesOn_record target other _ inside
  · rw [Progress.notesOn_enqueue]
    exact progress.notesOn_record target other _ inside

/-- The successor waits if its entry has changed, and the others as before. -/
theorem mem_worklist_pass
    (target_eq : graph.blocks[target]? = some targetBlock)
    (consistent : progress.worklist.Consistent graph.blocks.size)
    {other : Nat} :
    other ∈ (analysis.pass graph source progress (target, edge)).worklist.toList ↔
      (other = target ∧
        analysis.entry (analysis.receive targetBlock edge source (progress.notesOn target)) ≠
          analysis.entry (progress.notesOn target)) ∨
        other ∈ progress.worklist.toList := by
  simp only [pass, target_eq]
  split
  next unchanged => simp [unchanged]
  next changed =>
      rw [Progress.worklist_enqueue, Progress.worklist_record, consistent.mem_push]
      simp [changed]

/-- Whoever does not wait afterwards did not wait before, and what it has received has
not changed its entry. -/
theorem not_mem_worklist_pass
    (target_eq : graph.blocks[target]? = some targetBlock)
    (consistent : progress.worklist.Consistent graph.blocks.size)
    {other : Nat} :
    other ∉ (analysis.pass graph source progress (target, edge)).worklist.toList ↔
      (other = target →
        analysis.entry (analysis.receive targetBlock edge source (progress.notesOn target)) =
          analysis.entry (progress.notesOn target)) ∧
        other ∉ progress.worklist.toList := by
  rw [mem_worklist_pass target_eq consistent, not_or, not_and]
  simp only [ne_eq, Decidable.not_not]

/-- Whoever does not wait afterwards has kept its entry. -/
theorem entry_pass
    (target_eq : graph.blocks[target]? = some targetBlock)
    (size_eq : progress.notes.size = graph.blocks.size)
    (consistent : progress.worklist.Consistent graph.blocks.size)
    {other : Nat}
    (idle : other ∉ (analysis.pass graph source progress (target, edge)).worklist.toList) :
    analysis.entry ((analysis.pass graph source progress (target, edge)).notesOn other) =
      analysis.entry (progress.notesOn other) := by
  rw [not_mem_worklist_pass target_eq consistent] at idle
  rw [notesOn_pass target_eq size_eq]
  split
  next same =>
      rw [same]
      exact idle.1 same
  · rfl

/-- Whoever has no entry afterwards had none before, and is not the successor. -/
theorem entry_pass_eq_none
    (enters : analysis.Enters)
    (target_eq : graph.blocks[target]? = some targetBlock)
    (size_eq : progress.notes.size = graph.blocks.size)
    {other : Nat}
    (unreached : analysis.entry
      ((analysis.pass graph source progress (target, edge)).notesOn other) = none) :
    other ≠ target ∧ analysis.entry (progress.notesOn other) = none := by
  rw [notesOn_pass target_eq size_eq] at unreached
  split at unreached
  next =>
      have reached := enters.entry_receive targetBlock edge source (progress.notesOn target)
      rw [unreached] at reached
      cases reached
  next distinct => exact ⟨distinct, unreached⟩

theorem consistent_pass
    (target_eq : graph.blocks[target]? = some targetBlock)
    (consistent : progress.worklist.Consistent graph.blocks.size) :
    (analysis.pass graph source progress (target, edge)).worklist.Consistent
      graph.blocks.size := by
  simp only [pass, target_eq]
  split
  · exact consistent
  · exact consistent.push (Array.getElem?_eq_some_iff.mp target_eq).1

end Pass

/-- What holds of the edges that are still to be followed holds in the end of
none. -/
theorem foldl_pass_induction
    {analysis : Analysis State}
    {graph : FlowGraph}
    {source : Notes}
    (Holds : List (Nat × Edge) → Progress → Prop)
    (step : ∀ successor pending progress, Holds (successor :: pending) progress →
      Holds pending (analysis.pass graph source progress successor))
    {successors : List (Nat × Edge)}
    {progress : Progress}
    (holds : Holds successors progress) :
    Holds [] (successors.foldl (analysis.pass graph source) progress) := by
  induction successors generalizing progress with
  | nil => exact holds
  | cons successor pending hypothesis => exact hypothesis (step _ _ _ holds)

/-- A run has notes on the same blocks at all moments. -/
theorem size_reaches
    {analysis : Analysis State}
    {graph : FlowGraph}
    {start progress : Progress}
    (reaches : Progress.Reaches (analysis.visit graph) start progress) :
    progress.notes.size = start.notes.size := by
  refine reaches.invariant (fun moment => moment.notes.size = start.notes.size) rfl ?_
  rintro before after _ size_eq ⟨index, rest, _, rfl⟩
  unfold visit
  split
  · exact size_eq
  · refine foldl_pass_induction (fun _ moment => moment.notes.size = start.notes.size) ?_
      (by simpa using size_eq)
    intro successor _ moment same
    rw [size_pass, same]

section Sound

variable {analysis graph}
variable {Valid : Nat → Notes → Prop}

/-- The books stay in order while a successor receives something. -/
theorem Sound.pass
    (enters : analysis.Enters)
    {progress : Progress}
    (sound : analysis.Sound graph Valid progress)
    {index target : Nat}
    {block targetBlock : Block}
    {edge : Edge}
    {notes : Notes}
    (crosses : graph.Crosses index block edge target targetBlock)
    (keeps : analysis.Keeps graph Valid index block notes) :
    analysis.Sound graph Valid
      (analysis.pass graph (analysis.transfer block notes) progress (target, edge)) := by
  refine ⟨?_, consistent_pass crosses.target_eq sound.consistent, ?_, ?_⟩
  · rw [size_pass, sound.size_eq]
  · intro other waits
    rw [notesOn_pass crosses.target_eq sound.size_eq]
    split
    · exact enters.entry_receive _ _ _ _
    next distinct =>
        rw [mem_worklist_pass crosses.target_eq sound.consistent] at waits
        rcases waits with ⟨same, _⟩ | before
        · exact absurd same distinct
        · exact sound.entered other before
  · intro other inside
    rw [notesOn_pass crosses.target_eq sound.size_eq]
    split
    next same =>
        subst same
        exact keeps.valid_receive _ _ _ _ crosses (sound.valid other inside)
    · exact sound.valid other inside

/-- The books stay in order during a visit that keeps what is valid. -/
theorem Sound.visits
    (closed : graph.Closed)
    (enters : analysis.Enters)
    {before after : Progress}
    (sound : analysis.Sound graph Valid before)
    (keeps : ∀ index rest block,
      before.worklist.pop = (some index, rest) →
      graph.blocks[index]? = some block →
      analysis.Keeps graph Valid index block (before.notesOn index))
    (visits : Progress.Visits (analysis.visit graph) before after) :
    analysis.Sound graph Valid after := by
  obtain ⟨index, rest, popped, rfl⟩ := visits
  obtain ⟨block, block_eq⟩ := sound.exists_block popped
  have kept := keeps index rest block popped block_eq
  simp only [visit, block_eq]
  refine (foldl_pass_induction
    (fun pending progress => pending ⊆ block.successors ∧ analysis.Sound graph Valid progress)
    ?_ ⟨List.Subset.refl _, sound.transfer enters popped kept⟩).2
  rintro successor pending progress ⟨contained, soundNow⟩
  obtain ⟨targetBlock, crosses⟩ := closed.exists_crosses block_eq (contained List.mem_cons_self)
  exact ⟨fun _ later => contained (List.mem_cons_of_mem _ later),
    soundNow.pass enters crosses kept⟩

/-- The books are in order at all moments of a run whose visits keep what is valid. -/
theorem Sound.reaches_of_keeps
    (closed : graph.Closed)
    (enters : analysis.Enters)
    {start progress : Progress}
    (sound : analysis.Sound graph Valid start)
    (keeps : ∀ moment index rest block,
      Progress.Reaches (analysis.visit graph) start moment →
      analysis.Sound graph Valid moment →
      moment.worklist.pop = (some index, rest) →
      graph.blocks[index]? = some block →
      analysis.Keeps graph Valid index block (moment.notesOn index))
    (reaches : Progress.Reaches (analysis.visit graph) start progress) :
    analysis.Sound graph Valid progress :=
  reaches.invariant (analysis.Sound graph Valid) sound
    fun moment _ reached soundNow visits =>
      soundNow.visits closed enters
        (fun index rest block popped block_eq =>
          keeps moment index rest block reached soundNow popped block_eq)
        visits

/-- The books are in order at all moments of a run of a lawful analysis. -/
theorem Sound.reaches
    (closed : graph.Closed)
    (lawful : analysis.Lawful graph Valid)
    {start progress : Progress}
    (sound : analysis.Sound graph Valid start)
    (reaches : Progress.Reaches (analysis.visit graph) start progress) :
    analysis.Sound graph Valid progress :=
  sound.reaches_of_keeps closed lawful.toEnters
    (fun _ _ _ _ _ soundNow popped block_eq => soundNow.keeps lawful popped block_eq) reaches

end Sound

end Analysis
end StackMaps
