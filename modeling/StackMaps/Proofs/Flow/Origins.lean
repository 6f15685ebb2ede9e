import StackMaps.Proofs.Flow.Inference
import StackMaps.Proofs.Flow.Moments
import StackMaps.Proofs.Slots.Origins

/-!
# Origins during the inference

Types get into slots by the instructions of the blocks, by the exceptions that handlers
catch and by merges alone. From there on they are carried through blocks, along edges and
into entries, and none of this makes up another one. Only allocations make up uninitialized
objects.
-/

namespace StackMaps

/-- All slots at the entry of a block have a property, and so has the exception of a
handler. -/
structure Notes.All (Holds : Slot → Prop) (notes : Notes) : Prop where
  input : ∀ state, notes.inputState = some state → state.All Holds
  caught : Holds notes.caught

namespace Block

variable {block : Block} {context : TypingContext} {notes : Notes} {Holds : Slot → Prop}
variable {state : SlotState}

/-- The objects that a block allocates in front of an offset have a property. -/
def Allocates (block : Block) (Holds : Slot → Prop) (offset : Nat) : Prop :=
  ∀ earlier instruction, earlier < offset →
    block.instructions[earlier]? = some instruction → instruction.isNew = true →
    Holds (some (.uninitialized (block.start + earlier)))

end Block

/-- The exceptions that are passed along an edge have a property. -/
def Edge.Throws (Holds : Slot → Prop) : Edge → Prop
  | .normal => True
  | .exception types => ∀ name ∈ types, Holds (some (.object (.object name)))

theorem Lenient.throws {Holds : Slot → Prop} (lenient : Lenient Holds) (edge : Edge) :
    edge.Throws Holds := by
  cases edge with
  | normal => trivial
  | exception types => exact fun name _ => lenient.object _

namespace Block

variable {block : Block} {context : TypingContext} {notes : Notes} {Holds : Slot → Prop}
variable {state : SlotState}

theorem holds_peek (supply : Supply Holds) (all : state.All Holds) : Holds state.peek := by
  have top := all.slotAt supply 0
  unfold SlotState.slotAt at top
  unfold SlotState.peek
  cases slots_eq : state.stack.slots with
  | nil => exact supply.unknown
  | cons slot rest => simpa [slots_eq] using top

section States

variable (supply : Supply Holds)

include supply

theorem all_stateAfter
    {method : MethodContext}
    (all : state.All Holds)
    {entry : Instruction × Nat}
    (supplies : method.Supplies Holds)
    (made : entry.1.Supplies Holds)
    (fresh : entry.1.isNew = true → Holds (some (.uninitialized entry.2))) :
    (block.stateAfter method state entry).All Holds := by
  unfold stateAfter
  split
  · exact (all.enterHandler supply).interpret supply supplies made fresh
  · exact all.interpret supply supplies made fresh

theorem all_stateAt
    {method : MethodContext}
    (all : state.All Holds)
    {offset : Nat}
    (supplies : method.Supplies Holds)
    (made : ∀ instruction ∈ block.instructions, instruction.Supplies Holds)
    (fresh : block.Allocates Holds offset) :
    (block.stateAt method state offset).All Holds := by
  induction offset with
  | zero => exact all
  | succ offset hypothesis =>
      have before := hypothesis fun earlier instruction less =>
        fresh earlier instruction (Nat.lt_succ_of_lt less)
      cases found : block.instructions[offset]? with
      | none => rwa [stateAt_succ_of_none found]
      | some instruction =>
          rw [stateAt_succ found]
          exact all_stateAfter supply before supplies (made _ (List.mem_of_getElem? found))
            (fresh offset instruction (Nat.lt_succ_self offset) found)

omit supply in
theorem holds_exceptionLocals_foldl_typeStep
    (merges : context.hierarchy.Merges Holds)
    (entries : List (Instruction × Nat))
    (count : TypeCount)
    (before : ∀ slot ∈ count.exceptionLocals, Holds slot)
    (along : ∀ offset, ∀ slot ∈
      ((entries.take offset).foldl (block.stateAfter context.method) count.state).locals,
      Holds slot) :
    ∀ slot ∈ (entries.foldl (block.typeStep context) count).exceptionLocals, Holds slot := by
  induction entries generalizing count with
  | nil => exact before
  | cons entry rest hypothesis =>
      refine hypothesis _ ?_ fun offset => along (offset + 1)
      simp only [typeStep]
      split
      · exact Hierarchy.holds_of_mem_mergeSlots merges before (along 1)
      · exact before

/-- What holds of the slots at the entry and of all types that are made up holds of all slots
that are passed on. -/
theorem all_carried
    (all : (notes.inputState.getD .empty).All Holds)
    (supplies : context.method.Supplies Holds)
    (merges : context.hierarchy.Merges Holds)
    (made : ∀ instruction ∈ block.instructions, instruction.Supplies Holds)
    (fresh : ∀ offset, block.Allocates Holds offset)
    {edge : Edge}
    (thrown : edge.Throws Holds) :
    (edge.carried context (block.interpret context notes)).All Holds := by
  have along : ∀ offset,
      (block.stateAt context.method (notes.inputState.getD .empty) offset).All Holds :=
    fun offset => all_stateAt supply all supplies made (fresh offset)
  cases edge with
  | normal =>
      have output := along block.instructions.length
      rw [← outputState_interpret] at output
      exact ⟨output.locals, fun slot present => output.stack slot (List.mem_of_mem_drop present)⟩
  | exception types =>
      refine ⟨?_, List.forall_mem_singleton.mpr
        (Hierarchy.holds_caughtType merges supply.unknown thrown)⟩
      refine holds_exceptionLocals_foldl_typeStep merges _ (block.firstCount notes) ?_
        fun offset => (along offset).locals
      simp only [firstCount]
      split
      · exact all.locals
      · exact fun slot absent => absurd absent List.not_mem_nil

end States

section Merge

variable {hierarchy : Hierarchy} (merges : hierarchy.Merges Holds)

include merges

/-- What holds of the exception of a handler and of one that comes in holds afterwards. -/
theorem holds_mergedCaught
    {incoming : SlotState}
    (widen fromException : Bool)
    (caught : Holds notes.caught)
    (thrown : fromException = true → Holds incoming.peek) :
    Holds (mergedCaught hierarchy widen fromException incoming notes) := by
  unfold mergedCaught
  split
  next isThrown =>
      split
      · exact caught
      · split
        · exact merges.top
        · exact Hierarchy.holds_join merges caught (thrown isThrown)
  next => exact caught

theorem holds_caught_merge
    {incoming : SlotState}
    (widen fromException : Bool)
    (caught : Holds notes.caught)
    (thrown : fromException = true → Holds incoming.peek) :
    Holds (block.merge hierarchy widen fromException incoming notes).caught := by
  by_cases plain : block.handlers = []
  · rw [merge_of_handlers_eq_nil plain]
    exact caught
  · rw [merge_of_handlers_ne_nil plain]
    exact holds_mergedCaught merges widen fromException caught thrown

theorem all_merge
    (supply : Supply Holds)
    {incoming : SlotState}
    (all : notes.All Holds)
    (others : incoming.All Holds)
    (widen fromException : Bool) :
    (block.merge hierarchy widen fromException incoming notes).All Holds := by
  have locals : ∀ slot ∈ mergedLocals hierarchy widen incoming notes, Holds slot := by
    unfold mergedLocals
    split
    next => exact others.locals
    next input entered =>
        exact Hierarchy.holds_of_mem_mergeSlots merges (all.input input entered).locals
          others.locals
  by_cases plain : block.handlers = []
  · have stack : ∀ slot ∈ (mergedStack hierarchy widen incoming notes).slots, Holds slot := by
      unfold mergedStack
      split
      next => exact others.stack
      next input entered =>
          exact Hierarchy.holds_of_mem_mergeStack merges (all.input input entered).stack
            others.stack
    rw [merge_of_handlers_eq_nil plain]
    refine ⟨?_, all.caught⟩
    rintro _ ⟨⟩
    exact ⟨locals, stack⟩
  · have caught : Holds (mergedCaught hierarchy widen fromException incoming notes) :=
      holds_mergedCaught merges widen fromException all.caught
        fun _ => holds_peek supply others
    rw [merge_of_handlers_ne_nil plain]
    refine ⟨?_, caught⟩
    rintro _ ⟨⟩
    exact ⟨locals, List.forall_mem_singleton.mpr caught⟩

end Merge

end Block

/-- The locals at the entry of a body are given, or `top`. -/
theorem FlowGraph.holds_of_mem_entryLocals
    {Holds : Slot → Prop}
    (top : Holds (some .top))
    (instructions : List Instruction)
    {startLocals : List Slot}
    (all : ∀ slot ∈ startLocals, Holds slot) :
    ∀ slot ∈ entryLocals instructions startLocals, Holds slot := by
  intro slot present
  rcases List.mem_append.mp present with given | added
  · exact all slot given
  · rw [List.eq_of_mem_replicate added]
    exact top

/-- A property of all types that are made up in a graph. -/
structure TypingContext.Supplies
    (context : TypingContext)
    (graph : FlowGraph)
    (Holds : Slot → Prop) : Prop where
  supply : Supply Holds
  method : context.method.Supplies Holds
  merges : context.hierarchy.Merges Holds
  instructions : ∀ (index : Nat) (block : Block), graph.blocks[index]? = some block →
    ∀ instruction ∈ block.instructions, instruction.Supplies Holds
  fresh : ∀ (index : Nat) (block : Block), graph.blocks[index]? = some block →
    ∀ offset, block.Allocates Holds offset
  thrown : ∀ (index : Nat) (block : Block), graph.blocks[index]? = some block →
    ∀ successor ∈ block.successors, successor.2.Throws Holds

/-- It is enough to look at the allocations if plain types have the property. -/
theorem Lenient.supplies_graph
    {Holds : Slot → Prop}
    (lenient : Lenient Holds)
    {context : TypingContext}
    {graph : FlowGraph}
    (fresh : ∀ (index : Nat) (block : Block), graph.blocks[index]? = some block →
      ∀ offset, block.Allocates Holds offset) :
    context.Supplies graph Holds where
  supply := lenient.supply
  method := lenient.supplies_method _
  merges := lenient.merges _
  instructions _ _ _ instruction _ := lenient.supplies instruction
  fresh := fresh
  thrown _ _ _ successor _ := lenient.throws successor.2

namespace TypeAnalysis

variable {context : TypingContext} {graph : FlowGraph} {Holds : Slot → Prop}

/-- What has been caught is no uninitialized object with an origin. -/
theorem holds_caught_receive
    (lenient : Lenient Holds)
    {targetBlock : Block}
    {edge : Edge}
    {source known : Notes}
    (caught : Holds known.caught) :
    Holds ((typeAnalysis context).receive targetBlock edge source known).caught := by
  refine Block.holds_caught_merge (lenient.merges _) _ _ caught fun thrown => ?_
  cases edge with
  | normal => cases thrown
  | exception types =>
      exact lenient.holds_caughtType _ types

theorem lawful_caught (graph : FlowGraph) (lenient : Lenient Holds) :
    (typeAnalysis context).Lawful graph (fun _ notes => Holds notes.caught) :=
  lawful (fun _ _ _ _ _ caught => caught)
    fun _ _ _ _ _ _ _ _ _ _ caught => holds_caught_receive lenient caught

/-- What holds of plain types holds of the exceptions of all handlers at all moments. -/
theorem holds_caught
    (lenient : Lenient Holds)
    (closed : graph.Closed)
    {locals : List Slot}
    {progress : Progress}
    (moment : (typeAnalysis context).Moment graph (graph.opening (Notes.enterState locals))
      progress)
    (index : Nat) :
    Holds (progress.notesOn index).caught := by
  by_cases filled : 0 < graph.blocks.size
  · have opening : (typeAnalysis context).Sound graph (fun _ notes => Holds notes.caught)
        (graph.opening (Notes.enterState locals)) :=
      Analysis.Sound.opening filled rfl lenient.unknown fun _ _ => lenient.unknown
    exact (opening.moment closed (lawful_caught graph lenient) moment).valid_of_blank
      (fun _ => lenient.unknown) index
  · rw [moment.notesOn_of_size_eq_zero (by omega)]
    exact lenient.unknown

/-- The inference keeps what holds of all types that are made up. -/
theorem lawful_all
    (supplies : context.Supplies graph Holds) :
    (typeAnalysis context).Lawful graph (fun _ notes => notes.All Holds) := by
  refine lawful (fun _ _ _ _ _ all => ⟨all.input, all.caught⟩) ?_
  intro index block edge target targetBlock notes known crosses entered all targetAll
  obtain ⟨state, state_eq⟩ := Option.isSome_iff_exists.mp entered
  have block_eq := crosses.source_eq
  refine Block.all_merge supplies.merges supplies.supply targetAll
    (Block.all_carried supplies.supply ?_ supplies.method supplies.merges
      (supplies.instructions index block block_eq) (supplies.fresh index block block_eq)
      (supplies.thrown index block block_eq _ crosses.mem_successors)) _ _
  rw [state_eq]
  exact all.input state state_eq

/-- What holds of all types that are made up, and of the slots at the entry, holds of the slots
at all moments. -/
theorem all_of_supplies
    (supplies : context.Supplies graph Holds)
    (closed : graph.Closed)
    {locals : List Slot}
    (holds : ∀ slot ∈ locals, Holds slot)
    {progress : Progress}
    (moment : (typeAnalysis context).Moment graph (graph.opening (Notes.enterState locals))
      progress)
    (index : Nat) :
    (progress.notesOn index).All Holds := by
  have blank : Notes.blank.All Holds :=
    ⟨fun _ absent => (by cases absent), supplies.supply.unknown⟩
  by_cases filled : 0 < graph.blocks.size
  · have opening : (typeAnalysis context).Sound graph (fun _ notes => notes.All Holds)
        (graph.opening (Notes.enterState locals)) := by
      refine Analysis.Sound.opening filled rfl ⟨?_, supplies.supply.unknown⟩ fun _ _ => blank
      rintro _ ⟨⟩
      exact ⟨holds, fun _ absent => absurd absent List.not_mem_nil⟩
    exact (opening.moment closed (lawful_all supplies) moment).valid_of_blank (fun _ => blank)
      index
  · rw [moment.notesOn_of_size_eq_zero (by omega)]
    exact blank

end TypeAnalysis

end StackMaps
