import StackMaps.Proofs.Flow.ControlFlow
import StackMaps.Proofs.Flow.Moments
import StackMaps.Proofs.Flow.Stability

/-!
# What handlers start with

A handler starts with one slot on the stack, whatever else flows into it. The slot
is an object of a class above all those that are thrown to it, or `top` if its entry has
been widened. This takes no more of the hierarchy than that the root class has no
supertypes: of the arrays nothing is asked, since none of them is thrown.
-/

namespace StackMaps

namespace Hierarchy

variable {hierarchy : Hierarchy}

/-! ## Classes that are caught -/

/-- The slot is an object of a class above the given ones. -/
def Catches (hierarchy : Hierarchy) (slot : Slot) (types : List BinaryName) : Prop :=
  ∃ name, slot = some (.object (.object name)) ∧
    ∀ type ∈ types, hierarchy.classAssignable type name = true

/-- The slot is an object of a class above the given ones, or has been given up. -/
def Admits (hierarchy : Hierarchy) (slot : Slot) (types : List BinaryName) : Prop :=
  slot = some .top ∨ hierarchy.Catches slot types

theorem Catches.ne_top {slot : Slot} {types : List BinaryName}
    (catches : hierarchy.Catches slot types) : slot ≠ some .top := by
  obtain ⟨name, rfl, _⟩ := catches
  intro same
  cases same

/-- What catches some classes catches fewer of them. -/
theorem Catches.mono {slot : Slot} {types fewer : List BinaryName}
    (catches : hierarchy.Catches slot types)
    (subset : fewer ⊆ types) : hierarchy.Catches slot fewer := by
  obtain ⟨name, slot_eq, below⟩ := catches
  exact ⟨name, slot_eq, fun type present => below type (subset present)⟩

theorem Admits.mono {slot : Slot} {types fewer : List BinaryName}
    (admits : hierarchy.Admits slot types)
    (subset : fewer ⊆ types) : hierarchy.Admits slot fewer :=
  admits.imp_right fun catches => catches.mono subset

theorem Admits.ne_none {slot : Slot} {types : List BinaryName}
    (admits : hierarchy.Admits slot types) : slot ≠ none := by
  rcases admits with rfl | ⟨name, rfl, _⟩
  · exact Option.some_ne_none _
  · exact Option.some_ne_none _

variable (orderly : hierarchy.OrderlyClasses)

include orderly

/-- Two classes meet in a class above both of them. -/
theorem OrderlyClasses.exists_joinType (first second : BinaryName) :
    ∃ name, hierarchy.joinType (.object (.object first)) (.object (.object second)) =
        .object (.object name) ∧
      hierarchy.classAssignable first name = true ∧
      hierarchy.classAssignable second name = true := by
  unfold joinType
  split
  next same =>
      cases same
      exact ⟨first, rfl, orderly.refl first, orderly.refl first⟩
  next =>
      simp only [commonSupertype]
      split
      next above => exact ⟨first, rfl, orderly.refl first, above⟩
      next =>
          split
          next below => exact ⟨second, rfl, below, orderly.refl second⟩
          next => exact ⟨_, rfl, orderly.commonSuperclass_spec first second⟩

/-- The join of two slots that catch something catches what both of them do. -/
theorem OrderlyClasses.catches_join
    {slot other : Slot}
    {types otherTypes : List BinaryName}
    (catches : hierarchy.Catches slot types)
    (catchesOther : hierarchy.Catches other otherTypes) :
    hierarchy.Catches (hierarchy.join slot other) (types ++ otherTypes) := by
  obtain ⟨first, rfl, below⟩ := catches
  obtain ⟨second, rfl, belowOther⟩ := catchesOther
  obtain ⟨name, joined, above, aboveOther⟩ := orderly.exists_joinType first second
  refine ⟨name, congrArg some joined, fun type present => ?_⟩
  rcases List.mem_append.mp present with inFront | inBack
  · exact orderly.trans _ _ _ (below type inFront) above
  · exact orderly.trans _ _ _ (belowOther type inBack) aboveOther

/-- A slot that admits some classes still does so when others are caught. -/
theorem OrderlyClasses.admits_join
    {slot other : Slot}
    {types otherTypes : List BinaryName}
    (admits : hierarchy.Admits slot types)
    (catchesOther : hierarchy.Catches other otherTypes) :
    hierarchy.Admits (hierarchy.join slot other) (types ++ otherTypes) := by
  rcases admits with rfl | catches
  · obtain ⟨name, rfl, _⟩ := catchesOther
    exact Or.inl (congrArg some (joinType_top _))
  · exact Or.inr (orderly.catches_join catches catchesOther)

/-- The exception for some classes is above all of them. -/
theorem OrderlyClasses.catches_caughtType
    {types : List BinaryName}
    (filled : types ≠ []) :
    hierarchy.Catches (hierarchy.caughtType types) types := by
  -- The classes in front have been joined already.
  have joined : ∀ (types front : List BinaryName) (slot : Slot), hierarchy.Catches slot front →
      hierarchy.Catches
        (types.foldl
          (fun caught name => hierarchy.join caught (some (.object (.object name)))) slot)
        (front ++ types) := by
    intro types
    induction types with
    | nil =>
        intro front slot catches
        rwa [List.append_nil]
    | cons type types hypothesis =>
        intro front slot catches
        have single : hierarchy.Catches (some (.object (.object type))) [type] :=
          ⟨type, rfl, List.forall_mem_singleton.mpr (orderly.refl type)⟩
        rw [List.foldl_cons, ← List.singleton_append, ← List.append_assoc]
        exact hypothesis _ _ (orderly.catches_join catches single)
  cases types with
  | nil => exact absurd rfl filled
  | cons type types =>
      refine joined types [type] (some (.object (.object type))) ?_
      exact ⟨type, rfl, List.forall_mem_singleton.mpr (orderly.refl type)⟩

end Hierarchy

namespace Block

variable {hierarchy : Hierarchy} {widen fromException : Bool} {incoming : SlotState}
variable {notes : Notes} {types otherTypes : List BinaryName}

/-- The exception of a handler is joined with the one that comes in, or widened. -/
theorem mergedCaught_of_exception :
    mergedCaught hierarchy widen true incoming notes =
        hierarchy.join notes.caught incoming.peek ∨
      (widen = true ∧ notes.caught.isSome = true ∧
        mergedCaught hierarchy widen true incoming notes = some .top) := by
  unfold mergedCaught
  rw [if_pos rfl]
  by_cases same : hierarchy.join notes.caught incoming.peek = notes.caught
  · exact Or.inl ((if_pos same).trans same.symm)
  · rw [if_neg same]
    by_cases gives : (widen && notes.caught.isSome) = true
    · rw [if_pos gives]
      rw [Bool.and_eq_true] at gives
      exact Or.inr ⟨gives.1, gives.2, rfl⟩
    · exact Or.inl (if_neg gives)

section Merging

variable (orderly : hierarchy.OrderlyClasses)

include orderly

/-- A merge with an exception admits that. -/
theorem admits_mergedCaught
    (known : notes.caught ≠ none → hierarchy.Admits notes.caught [])
    (thrown : hierarchy.Catches incoming.peek types) :
    hierarchy.Admits (mergedCaught hierarchy widen true incoming notes) types := by
  rcases mergedCaught_of_exception with joined | ⟨_, _, isTop⟩
  · rw [joined]
    by_cases unknown : notes.caught = none
    · rw [unknown]
      exact Or.inr thrown
    · exact orderly.admits_join (known unknown) thrown
  · exact Or.inl isTop

/-- What a handler admits it still admits after a merge. -/
theorem admits_mergedCaught_of_admits
    (admits : hierarchy.Admits notes.caught types)
    (thrown : fromException = true → hierarchy.Catches incoming.peek otherTypes) :
    hierarchy.Admits (mergedCaught hierarchy widen fromException incoming notes) types := by
  cases fromException with
  | false => exact admits
  | true =>
      rcases mergedCaught_of_exception with joined | ⟨_, _, isTop⟩
      · rw [joined]
        exact (orderly.admits_join admits (thrown rfl)).mono (List.subset_append_left _ _)
      · exact Or.inl isTop

/-- The exception of a handler is given up only if it is widened. -/
theorem widens_of_mergedCaught_eq_top
    (known : notes.caught ≠ none → hierarchy.Admits notes.caught [])
    (thrown : fromException = true → hierarchy.Catches incoming.peek types)
    (isTop : mergedCaught hierarchy widen fromException incoming notes = some .top)
    (before : notes.caught ≠ some .top) :
    widen = true ∧ notes.caught.isSome = true := by
  cases fromException with
  | false => exact absurd isTop before
  | true =>
      rcases mergedCaught_of_exception with joined | ⟨widens, isKnown, _⟩
      · rw [joined] at isTop
        by_cases unknown : notes.caught = none
        · rw [unknown] at isTop
          exact absurd isTop (thrown rfl).ne_top
        · have catches := (known unknown).resolve_left before
          exact absurd isTop (orderly.catches_join catches (thrown rfl)).ne_top
      · exact ⟨widens, isKnown⟩

end Merging

end Block

namespace FlowGraph

/-- At some moment of the inference, the entry of a block is changed by a merge after so
many visits that it is widened. -/
def Widened
    (graph : FlowGraph)
    (context : TypingContext)
    (locals : List Slot)
    (target : Nat) : Prop :=
  ∃ index block notes edge pending progress targetBlock,
    (typeAnalysis context).Visiting graph (graph.opening (Notes.enterState locals))
      index block notes ((target, edge) :: pending) progress ∧
    graph.blocks[target]? = some targetBlock ∧
    context.threshold ≤ (progress.notesOn target).visits ∧
    (targetBlock.merge context.hierarchy true edge.isException
        (edge.carried context (block.interpret context notes))
        (progress.notesOn target)).inputState ≠
      (progress.notesOn target).inputState

/-- Every handler of an exception from a reached block starts with one slot on the stack.
It is `top` only if the handler has been widened, and otherwise an object of a type to
which everything is assignable that is thrown to the handler from a reached block. -/
structure HandlersCatch
    (graph : FlowGraph)
    (context : TypingContext)
    (locals : List Slot)
    (notesOn : Nat → Notes) : Prop where
  stack : ∀ index block types target,
    graph.blocks[index]? = some block →
    (target, Edge.exception types) ∈ block.successors →
    (notesOn index).inputState.isSome →
    ∃ input slot, (notesOn target).inputState = some input ∧ input.stack.slots = [slot] ∧
      ((slot = some .top ∧ graph.Widened context locals target) ∨
        ∃ type, slot = some (.object type) ∧
          ∀ other otherBlock otherTypes,
            graph.blocks[other]? = some otherBlock →
            (target, Edge.exception otherTypes) ∈ otherBlock.successors →
            (notesOn other).inputState.isSome →
            ∀ name ∈ otherTypes, context.hierarchy.isAssignable type (.object name) = true)

end FlowGraph

namespace TypeAnalysis

variable {context : TypingContext} {body : Body}

/-- What a handler has caught lies on its stack and nothing else. -/
def Handles (body : Body) (hierarchy : Hierarchy) (index : Nat) (notes : Notes) : Prop :=
  ∀ block, (FlowGraph.ofBody body).blocks[index]? = some block → block.handlers ≠ [] →
    notes.caught ≠ none →
    hierarchy.Admits notes.caught [] ∧
      ∃ input, notes.inputState = some input ∧ input.stack.slots = [notes.caught]

theorem caught_receive
    {targetBlock : Block}
    (handles : targetBlock.handlers ≠ [])
    (edge : Edge)
    (source known : Notes) :
    ((typeAnalysis context).receive targetBlock edge source known).caught =
      Block.mergedCaught context.hierarchy (context.threshold ≤ known.visits) edge.isException
        (edge.carried context source) known := by
  simp only [typeAnalysis]
  rw [Block.merge_of_handlers_ne_nil handles]

section Catching

variable (orderly : context.hierarchy.OrderlyClasses)

include orderly

/-- An exception that is passed on catches all classes that are thrown. -/
theorem exists_catches_carried
    {index target : Nat}
    {block targetBlock : Block}
    {edge : Edge}
    (crosses : (FlowGraph.ofBody body).Crosses index block edge target targetBlock)
    (source : Notes) :
    ∃ types, edge.isException = true → edge = .exception types ∧
      context.hierarchy.Catches (edge.carried context source).peek types := by
  cases edge with
  | normal => exact ⟨[], fun absent => absurd absent Bool.false_ne_true⟩
  | exception types =>
      have filled := (FlowGraph.types_eq crosses.source_eq crosses.mem_successors).2.2
      exact ⟨types, fun _ => ⟨rfl, orderly.catches_caughtType filled⟩⟩

theorem lawful_handles :
    (typeAnalysis context).Lawful (FlowGraph.ofBody body) (Handles body context.hierarchy) := by
  refine lawful ?_ ?_
  · intro index block notes _ _ valid other found handles caught
    rw [Block.caught_interpret] at caught ⊢
    exact valid other found handles caught
  · intro index block edge target targetBlock notes known crosses _ _ valid other found handles
      caught
    obtain rfl := Option.some.inj (found.symm.trans crosses.target_eq)
    rw [caught_receive handles] at caught ⊢
    simp only [typeAnalysis]
    rw [Block.merge_of_handlers_ne_nil handles]
    refine ⟨?_, _, rfl, rfl⟩
    obtain ⟨types, thrown⟩ := exists_catches_carried orderly crosses (block.interpret context notes)
    cases edge with
    | normal => exact (valid _ found handles caught).1
    | exception types =>
        refine Hierarchy.Admits.mono ?_ (List.nil_subset types)
        obtain ⟨same, catches⟩ := thrown rfl
        obtain rfl := Edge.exception.inj same
        exact Block.admits_mergedCaught orderly (fun known => (valid _ found handles known).1)
          catches

/-- A handler has taken account of an exception when it admits it. -/
def catching (body : Body) :
    (typeAnalysis context).Settlement (FlowGraph.ofBody body)
      (Handles body context.hierarchy) where
  Absorbs _ _ edge targetBlock known :=
    ∀ types, edge = .exception types → targetBlock.handlers ≠ [] →
      context.hierarchy.Admits known.caught types
  Done _ _ := True
  absorbs_receive index block edge target targetBlock notes known state crosses _ _ valid := by
    rintro types rfl handles
    rw [caught_receive handles]
    obtain ⟨_, thrown⟩ := exists_catches_carried orderly crosses (block.interpret context notes)
    obtain ⟨same, catches⟩ := thrown rfl
    obtain rfl := Edge.exception.inj same
    exact Block.admits_mergedCaught orderly
      (fun caught => (valid _ crosses.target_eq handles caught).1) catches
  absorbs_receive_other _ _ _ index block edge target targetBlock notes known crosses _ _ _
      absorbs := by
    intro types same handles
    rw [caught_receive handles]
    obtain ⟨_, thrown⟩ := exists_catches_carried orderly crosses (block.interpret context notes)
    exact Block.admits_mergedCaught_of_admits orderly (absorbs types same handles)
      fun isException => (thrown isException).2
  absorbs_transfer _ _ _ _ _ absorbs := by
    intro types same handles
    exact absorbs types same handles
  done_receive _ _ _ _ _ _ := trivial

/-- Only a widened handler has given up its exception. -/
theorem widened_of_caught_eq_top
    (filled : 0 < (FlowGraph.ofBody body).blocks.size)
    (locals : List Slot)
    (sound : (typeAnalysis context).Sound (FlowGraph.ofBody body) (Handles body context.hierarchy)
      ((FlowGraph.ofBody body).opening (Notes.enterState locals)))
    {progress : Progress}
    (reaches : Progress.Reaches ((typeAnalysis context).visit (FlowGraph.ofBody body))
      ((FlowGraph.ofBody body).opening (Notes.enterState locals)) progress)
    {target : Nat}
    {targetBlock : Block}
    (target_eq : (FlowGraph.ofBody body).blocks[target]? = some targetBlock)
    (handles : targetBlock.handlers ≠ [])
    (isTop : (progress.notesOn target).caught = some .top) :
    (FlowGraph.ofBody body).Widened context locals target := by
  let Explained (progress : Progress) : Prop :=
    ∀ target targetBlock, (FlowGraph.ofBody body).blocks[target]? = some targetBlock →
      targetBlock.handlers ≠ [] → (progress.notesOn target).caught = some .top →
      (FlowGraph.ofBody body).Widened context locals target
  have explained := sound.induction (FlowGraph.closed_ofBody body) (lawful_handles orderly)
    Explained (fun _ _ _ _ progress => Explained progress) ?_ ?_ ?_ fun _ _ _ _ _ => id
  · exact explained.1 progress reaches target targetBlock target_eq handles isTop
  · intro target targetBlock _ _ isTop
    rw [FlowGraph.notesOn_opening filled] at isTop
    split at isTop <;> exact absurd isTop (by simp [Notes.enterState, Notes.blank])
  · intro moment index rest block _ now explained popped block_eq target targetBlock target_eq
      handles isTop
    rw [Progress.notesOn_record ⟨moment.notes, rest⟩ _ _ _ (now.lt_size popped)] at isTop
    split at isTop
    next same =>
        subst same
        exact explained target targetBlock target_eq handles isTop
    next => exact explained target targetBlock target_eq handles isTop
  · intro index block notes target edge targetBlock pending progress visiting now crosses
      explained other otherBlock other_eq handles isTop
    rw [Analysis.notesOn_pass crosses.target_eq now.size_eq] at isTop
    split at isTop
    next same =>
        subst same
        obtain rfl := Option.some.inj (other_eq.symm.trans crosses.target_eq)
        by_cases before : (progress.notesOn other).caught = some .top
        · exact explained other _ other_eq handles before
        · rw [caught_receive handles] at isTop
          have valid := now.valid other crosses.target_lt
          obtain ⟨_, thrown⟩ :=
            exists_catches_carried orderly crosses (block.interpret context notes)
          obtain ⟨widens, isKnown⟩ := Block.widens_of_mergedCaught_eq_top orderly
            (fun known => (valid _ other_eq handles known).1)
            (fun isException => (thrown isException).2) isTop before
          obtain ⟨_, input, input_eq, stack_eq⟩ :=
            valid _ other_eq handles (Option.isSome_iff_ne_none.mp isKnown)
          refine ⟨index, block, notes, edge, pending, progress, otherBlock, visiting, other_eq,
            of_decide_eq_true widens, fun unchanged => before ?_⟩
          rw [Block.merge_of_handlers_ne_nil handles, input_eq] at unchanged
          have single := congrArg (fun state => state.stack.slots) (Option.some.inj unchanged)
          rw [stack_eq] at single
          rw [widens] at isTop
          exact (List.cons.inj single).1.symm.trans isTop
    next => exact explained other otherBlock other_eq handles isTop

/-- Handlers catch what is thrown when the inference has ended. -/
theorem handlersCatch_of_drained
    (filled : 0 < (FlowGraph.ofBody body).blocks.size)
    (locals : List Slot)
    (drained : ((FlowGraph.ofBody body).inferRun context locals).worklist.toList = []) :
    (FlowGraph.ofBody body).HandlersCatch context locals
      ((FlowGraph.ofBody body).inferRun context locals).notesOn := by
  have closed := FlowGraph.closed_ofBody body
  have reaches : Progress.Reaches ((typeAnalysis context).visit (FlowGraph.ofBody body))
      ((FlowGraph.ofBody body).opening (Notes.enterState locals))
      ((FlowGraph.ofBody body).inferRun context locals) :=
    Progress.reaches_run _ _
  have sound : (typeAnalysis context).Sound (FlowGraph.ofBody body)
      (Handles body context.hierarchy)
      ((FlowGraph.ofBody body).opening (Notes.enterState locals)) :=
    Analysis.Sound.opening filled rfl (fun _ _ _ caught => absurd rfl caught)
      fun _ _ _ _ _ caught => absurd rfl caught
  have start : (catching orderly body).Settled
      ((FlowGraph.ofBody body).opening (Notes.enterState locals)) :=
    Analysis.Settlement.Settled.opening filled rfl
  have settled :=
    start.reaches closed (lawful_handles orderly) sound (fun _ _ _ _ _ _ _ => trivial) reaches
  have admits : ∀ index block types target targetBlock,
      (FlowGraph.ofBody body).Crosses index block (.exception types) target targetBlock →
      (((FlowGraph.ofBody body).inferRun context locals).notesOn index).inputState.isSome →
      context.hierarchy.Admits
        (((FlowGraph.ofBody body).inferRun context locals).notesOn target).caught types := by
    intro index block types target targetBlock crosses entered
    obtain ⟨state, entry_eq⟩ := Option.isSome_iff_exists.mp entered
    exact (settled index block state crosses.source_eq (by simp [drained]) entry_eq).2 _ _ _
      crosses types rfl crosses.handlers_ne_nil
  refine ⟨fun index block types target block_eq present entered => ?_⟩
  obtain ⟨targetBlock, crosses⟩ := closed.exists_crosses block_eq present
  have handles := crosses.handlers_ne_nil
  have admitted := admits index block types target targetBlock crosses entered
  obtain ⟨_, input, input_eq, stack_eq⟩ :=
    (sound.reaches closed (lawful_handles orderly) reaches).valid target crosses.target_lt
      targetBlock crosses.target_eq handles admitted.ne_none
  refine ⟨input, _, input_eq, stack_eq, ?_⟩
  rcases admitted with isTop | ⟨name, caught_eq, _⟩
  · exact Or.inl ⟨isTop, widened_of_caught_eq_top orderly filled locals sound reaches
      crosses.target_eq handles isTop⟩
  · refine Or.inr ⟨.object name, caught_eq, ?_⟩
    intro other otherBlock otherTypes other_eq otherPresent otherEntered type thrown
    obtain ⟨sameBlock, otherCrosses⟩ := closed.exists_crosses other_eq otherPresent
    rcases admits _ _ _ _ _ otherCrosses otherEntered with isTop | ⟨above, above_eq, below⟩
    · rw [caught_eq] at isTop
      cases isTop
    · rw [caught_eq] at above_eq
      cases above_eq
      exact below type thrown

end Catching

end TypeAnalysis

namespace Session

variable (body : Body) (threshold : Nat) (thisClass : BinaryName) (startLocals : List Slot)

/-- Every handler of an exception that can be thrown starts with exactly the caught
exception, over every hierarchy in which the root class has no supertypes. -/
theorem handlersCatch_computeFrames
    (classes : List BinaryName)
    (lookup : BinaryName → Option ClassRecord)
    (mem_classes : ∀ name record, lookup name = some record → name ∈ classes)
    (object_eq : Hierarchy.supertypes lookup .object = []) :
    (FlowGraph.ofBody body).HandlersCatch
      (body.typingContext (.ofLookup classes lookup mem_classes) threshold thisClass)
      (FlowGraph.entryLocals body.instructions startLocals)
      (((ofBody body).withThreshold threshold).notesAfter
        (.ofLookup classes lookup mem_classes) thisClass startLocals) := by
  by_cases empty : body.instructions = []
  · refine ⟨fun index block _ _ found => ?_⟩
    rw [Array.isEmpty_iff.mp (FlowGraph.isEmpty_blocks empty)] at found
    simp at found
  · have orderly : (body.typingContext (.ofLookup classes lookup mem_classes) threshold
        thisClass).hierarchy.OrderlyClasses := Hierarchy.orderlyClasses_ofLookup object_eq
    rw [notesAfter_eq threshold (.ofLookup classes lookup mem_classes) thisClass startLocals empty]
    exact TypeAnalysis.handlersCatch_of_drained orderly (FlowGraph.size_blocks_pos empty)
      (FlowGraph.entryLocals body.instructions startLocals)
      (FlowGraph.drains_inferRun (.ofLookup classes lookup mem_classes) threshold thisClass
        startLocals empty)

/-- The first block of the loop, at which the body is entered, is protected. -/
theorem exists_exception_catchingLoop :
    ∃ block target types, (FlowGraph.ofBody catchingLoop).blocks[0]? = some block ∧
      (target, Edge.exception types) ∈ block.successors := by
  have filled := FlowGraph.size_blocks_pos (by decide : catchingLoop.instructions ≠ [])
  have found := Array.getElem?_eq_getElem filled
  obtain ⟨target, _, noted, _⟩ :=
    FlowGraph.exists_block_covering (by decide : 5 < catchingLoop.instructions.length)
  have places : catchingLoop.Places ⟨⟨0⟩, ⟨1⟩, ⟨2⟩, some .throwable⟩ 0 3 5 :=
    ⟨by decide, by decide, by decide, by decide⟩
  have first := FlowGraph.start_of_first found
  obtain ⟨types, present⟩ := (FlowGraph.exception_mem_successors_iff found).mpr
    ⟨_, 0, 3, 5, places, Nat.zero_le _, Nat.lt_of_le_of_lt (Nat.le_of_eq first) (by decide), noted⟩
  exact ⟨_, target, types, found, present⟩

/-- The handler of the loop starts with exactly what is caught, over a cycle of classes and
widened from the first visit on. -/
theorem handlersCatch_computeFrames_catchingLoop :
    Hierarchy.supertypes cyclicTable.lookup .object = [] ∧
      (∃ block target types, (FlowGraph.ofBody catchingLoop).blocks[0]? = some block ∧
        (target, Edge.exception types) ∈ block.successors) ∧
      (FlowGraph.ofBody catchingLoop).HandlersCatch
        (catchingLoop.typingContext cyclicTable.hierarchy 1 .string)
        (FlowGraph.entryLocals catchingLoop.instructions [some (.object (.object .string))])
        (((ofBody catchingLoop).withThreshold 1).notesAfter cyclicTable.hierarchy .string
          [some (.object (.object .string))]) := by
  have object_eq : Hierarchy.supertypes cyclicTable.lookup .object = [] := by decide
  have handlersCatch := handlersCatch_computeFrames catchingLoop 1 .string
    [some (.object (.object .string))] (cyclicTable.entries.map fun entry => entry.1)
    cyclicTable.lookup cyclicTable.mem_of_lookup object_eq
  exact ⟨object_eq, exists_exception_catchingLoop, handlersCatch⟩

end Session

end StackMaps
