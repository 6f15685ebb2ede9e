import StackMaps.Proofs.Flow.FrameDecoding
import StackMaps.Proofs.Flow.Moments
import StackMaps.Proofs.Flow.Stability
import StackMaps.Proofs.Frame.Expansion

/-!
# Wide locals during the inference

At all moments of the inference every wide value in the locals has `top` behind it,
in malformed bodies, too. So no local is lost when slots are read as the values of a
frame, and no frame takes more local slots than the limit says.
-/

namespace StackMaps

/-- The locals in the notes on a block are paired: those at the entry, those behind the
block, and those for handlers. -/
structure Notes.IsPaired (notes : Notes) : Prop where
  input : ∀ state, notes.inputState = some state → Paired state.locals
  output : Paired notes.outputState.locals
  thrown : Paired notes.exceptionLocals

theorem Notes.isPaired_blank : Notes.blank.IsPaired :=
  ⟨fun _ absent => (by cases absent), paired_nil, paired_nil⟩

namespace Block

variable {block : Block} {context : TypingContext} {notes : Notes}

theorem paired_stateAfter
    {method : MethodContext}
    {state : SlotState}
    (paired : Paired state.locals)
    (entry : Instruction × Nat) :
    Paired (block.stateAfter method state entry).locals := by
  unfold stateAfter
  split
  · exact Paired.interpret (SlotState.locals_enterHandler state ▸ paired) method entry.2 entry.1
  · exact paired.interpret method entry.2 entry.1

/-- One more instruction keeps the locals paired, and those for handlers. -/
theorem paired_typeStep
    {count : TypeCount}
    (paired : Paired count.state.locals)
    (thrown : Paired count.exceptionLocals)
    (entry : Instruction × Nat) :
    Paired (block.typeStep context count entry).state.locals ∧
      Paired (block.typeStep context count entry).exceptionLocals := by
  have after : Paired (block.stateAfter context.method count.state entry).locals :=
    paired_stateAfter paired entry
  refine ⟨after, ?_⟩
  simp only [typeStep]
  split
  · exact thrown.mergeSlots after false
  · exact thrown

theorem paired_foldl_typeStep
    (entries : List (Instruction × Nat))
    {count : TypeCount}
    (paired : Paired count.state.locals)
    (thrown : Paired count.exceptionLocals) :
    Paired (entries.foldl (block.typeStep context) count).state.locals ∧
      Paired (entries.foldl (block.typeStep context) count).exceptionLocals := by
  induction entries generalizing count with
  | nil => exact ⟨paired, thrown⟩
  | cons entry rest hypothesis =>
      obtain ⟨after, thrownAfter⟩ := paired_typeStep paired thrown entry
      exact hypothesis after thrownAfter

/-- The locals are paired between any two instructions of a visit. -/
theorem paired_countAt (paired : notes.IsPaired) (offset : Nat) :
    Paired (block.countAt context notes offset).state.locals ∧
      Paired (block.countAt context notes offset).exceptionLocals := by
  have entry : Paired (notes.inputState.getD .empty).locals := by
    cases entered : notes.inputState with
    | none => exact paired_nil
    | some state => exact paired.input state entered
  refine paired_foldl_typeStep _ entry ?_
  simp only [firstCount]
  split
  · exact entry
  · exact paired_nil

theorem isPaired_interpret (paired : notes.IsPaired) :
    (block.interpret context notes).IsPaired := by
  obtain ⟨output, thrown⟩ :
      Paired (block.countAt context notes block.instructions.length).state.locals ∧
        Paired (block.countAt context notes block.instructions.length).exceptionLocals :=
    paired_countAt paired _
  rw [interpret_eq_countAt]
  exact ⟨paired.input, output, thrown⟩

theorem isPaired_merge
    {hierarchy : Hierarchy}
    {incoming : SlotState}
    (paired : notes.IsPaired)
    (incomingPaired : Paired incoming.locals)
    (widen fromException : Bool) :
    (block.merge hierarchy widen fromException incoming notes).IsPaired := by
  have merged : Paired (mergedLocals hierarchy widen incoming notes) := by
    unfold mergedLocals
    split
    next => exact incomingPaired
    next input entered => exact (paired.input input entered).mergeSlots incomingPaired widen
  have input : ∀ state,
      (block.merge hierarchy widen fromException incoming notes).inputState = some state →
      Paired state.locals := by
    intro state entered
    rw [locals_inputState_merge entered]
    exact merged
  by_cases plain : block.handlers = []
  · refine ⟨input, ?_, ?_⟩
    · rw [merge_of_handlers_eq_nil plain]
      exact paired.output
    · rw [merge_of_handlers_eq_nil plain]
      exact paired.thrown
  · refine ⟨input, ?_, ?_⟩
    · rw [merge_of_handlers_ne_nil plain]
      exact paired.output
    · rw [merge_of_handlers_ne_nil plain]
      exact paired.thrown

end Block

theorem Notes.IsPaired.carried
    {notes : Notes}
    (paired : notes.IsPaired)
    (context : TypingContext)
    (edge : Edge) :
    Paired (edge.carried context notes).locals := by
  cases edge with
  | normal => exact paired.output
  | exception types => exact paired.thrown

namespace TypeAnalysis

variable {context : TypingContext} {graph : FlowGraph}

theorem lawful_isPaired :
    (typeAnalysis context).Lawful graph (fun _ notes => notes.IsPaired) :=
  lawful (fun _ _ _ _ _ paired => Block.isPaired_interpret paired)
    fun _ _ edge _ _ _ _ _ _ paired known =>
      Block.isPaired_merge known ((Block.isPaired_interpret paired).carried context edge) _ _

/-- The locals are paired at all moments of the inference. -/
theorem isPaired_notesOn
    (closed : graph.Closed)
    {locals : List Slot}
    (paired : Paired locals)
    {progress : Progress}
    (moment : (typeAnalysis context).Moment graph (graph.opening (Notes.enterState locals))
      progress)
    (index : Nat) :
    (progress.notesOn index).IsPaired := by
  by_cases filled : 0 < graph.blocks.size
  · have opening : (typeAnalysis context).Sound graph (fun _ notes => notes.IsPaired)
        (graph.opening (Notes.enterState locals)) := by
      refine Analysis.Sound.opening filled rfl ⟨?_, paired_nil, paired_nil⟩
        fun _ _ => Notes.isPaired_blank
      rintro _ ⟨⟩
      exact paired
    exact (opening.moment closed lawful_isPaired moment).valid_of_blank
      (fun _ => Notes.isPaired_blank) index
  · rw [moment.notesOn_of_size_eq_zero (by omega)]
    exact Notes.isPaired_blank

theorem isPaired_of_visiting
    (closed : graph.Closed)
    {locals : List Slot}
    (paired : Paired locals)
    {index : Nat}
    {block : Block}
    {notes : Notes}
    {pending : List (Nat × Edge)}
    {progress : Progress}
    (visiting : (typeAnalysis context).Visiting graph (graph.opening (Notes.enterState locals))
      index block notes pending progress) :
    notes.IsPaired := by
  induction visiting with
  | taken reached _ _ => exact isPaired_notesOn closed paired (Or.inl reached) _
  | passed _ hypothesis => exact hypothesis

end TypeAnalysis

namespace LabelPlan

variable {slots : List Slot}

/-- Labels in place of positions keep the slots paired. -/
theorem paired_resolve (plan : LabelPlan) (paired : Paired slots) :
    Paired (plan.resolve slots) := by
  refine paired.map rfl ?_
  rintro (_ | before) type changed wide
  · cases changed
  · obtain rfl := Option.some.inj changed
    refine ⟨before, rfl, ?_⟩
    cases before <;> exact wide

/-- The locals of a frame take no more slots than those that it is made of. -/
theorem length_expand_locals_frame_le
    (plan : LabelPlan)
    {state : SlotState}
    (paired : Paired state.locals) :
    (expand (plan.frame state).locals).length ≤ state.locals.length := by
  have bound := Frame.length_expand_locals_ofSlots_le (plan.paired_resolve paired)
    (plan.resolve state.stack.slots.reverse)
  rwa [resolve, List.length_map] at bound

end LabelPlan

namespace FlowGraph

/-- The frames of a body take no more local slots than the limit says, if the locals at
the entries are paired. -/
theorem length_expand_locals_le_maxLocals
    {graph : FlowGraph}
    {body : Body}
    {locals : List Slot}
    {notes : Array Notes}
    (size_eq : notes.size = graph.blocks.size)
    (paired : ∀ index, (notes.getD index .blank).IsPaired)
    {frame : Frame RefType Label}
    (decoded : frame ∈ StackMapFrame.decodeAll
      ((graph.labelPlan body locals notes).frame ⟨locals, .empty⟩)
      ((graph.framing body locals notes).frames.map (·.2))) :
    (expand frame.locals).length ≤ (graph.framing body locals notes).maxLocals := by
  obtain ⟨emitting, _, mem_iff, sites_eq⟩ := exists_emitting graph notes size_eq
  rw [forms_framing, Frame.decodeAll_compactAll, sites_eq, List.map_map] at decoded
  obtain ⟨index, emits, rfl⟩ := List.mem_map.mp decoded
  obtain ⟨state, entered⟩ := Option.isSome_iff_exists.mp ((mem_iff index).mp emits).reached
  have site_eq : (graph.siteOn (notes.getD · .blank) index).state = state := by
    rw [siteOn, entered, Option.getD_some]
  have present : notes.getD index .blank ∈ notes.toList := by
    have inside : index < notes.size := by
      apply Decidable.byContradiction
      intro outside
      simp [Array.getD, outside, Notes.blank] at entered
    simp [Array.getD, inside]
  have covered : state.locals.length ≤ (graph.framing body locals notes).maxLocals :=
    (maxLocals_framing_le_iff.mp (Nat.le_refl _)).2 _ present state entered
  rw [Function.comp_apply, site_eq]
  exact Nat.le_trans
    (LabelPlan.length_expand_locals_frame_le _ ((paired index).input state entered)) covered

/-- Every wide value in the locals has `top` behind it at all moments of an inference. -/
structure KeepsWide
    (graph : FlowGraph)
    (context : TypingContext)
    (locals : List Slot) : Prop where
  /-- This holds of the notes on every block. -/
  noted : ∀ progress,
    (typeAnalysis context).Moment graph (graph.opening (Notes.enterState locals)) progress →
    ∀ index, (progress.notesOn index).IsPaired
  /-- In every visit it holds between any two instructions. -/
  visited : ∀ index block notes pending progress,
    (typeAnalysis context).Visiting graph (graph.opening (Notes.enterState locals)) index block
      notes pending progress →
    ∀ offset,
      Paired (block.stateAt context.method (notes.inputState.getD .empty) offset).locals ∧
        Paired (block.countAt context notes offset).exceptionLocals

theorem keepsWide
    {graph : FlowGraph}
    (closed : graph.Closed)
    (context : TypingContext)
    {locals : List Slot}
    (paired : Paired locals) :
    graph.KeepsWide context locals where
  noted _ moment index := TypeAnalysis.isPaired_notesOn closed paired moment index
  visited index block notes pending progress visiting offset := by
    obtain ⟨between, thrown⟩ :
        Paired (block.countAt context notes offset).state.locals ∧
          Paired (block.countAt context notes offset).exceptionLocals :=
      Block.paired_countAt (TypeAnalysis.isPaired_of_visiting closed paired visiting) offset
    rw [Block.state_countAt] at between
    exact ⟨between, thrown⟩

end FlowGraph

namespace Session

variable (body : Body) (threshold : Nat) (hierarchy : Hierarchy) (thisClass : BinaryName)

/-- If every wide value in the locals at the start has `top` behind it, as in those of a
method, this holds at all moments of the inference. Such locals can be read as values
and expanded again, and the frames take no more local slots than the limit says. -/
theorem keepsWide_computeFrames {startLocals : List Slot} (paired : Paired startLocals) :
    let outcome := ((ofBody body).withThreshold threshold).computeFrames hierarchy thisClass
      startLocals
    let locals := FlowGraph.entryLocals body.instructions startLocals
    let plan := (FlowGraph.ofBody body).labelPlan body locals outcome.2.notes
    (∀ method : Method, Paired (method.typedStartLocals thisClass)) ∧
      (FlowGraph.ofBody body).KeepsWide (body.typingContext hierarchy threshold thisClass) locals ∧
      (∀ index, (outcome.2.notes.getD index .blank).IsPaired) ∧
      (∀ slots : List Slot, Paired slots →
        expand (collapse slots) = slots.map (·.getD .top) ∧
        ∀ stack, (expand (Frame.ofSlots slots stack).locals).rightpad slots.length .top =
          slots.map (·.getD .top)) ∧
      ∀ frame ∈ StackMapFrame.decodeAll (plan.frame ⟨locals, .empty⟩)
          (outcome.1.frames.map (·.2)),
        (expand frame.locals).length ≤ outcome.1.maxLocals := by
  dsimp only
  have locals : Paired (FlowGraph.entryLocals body.instructions startLocals) :=
    paired.append_top _
  refine ⟨fun method => method.paired_typedStartLocals thisClass,
    FlowGraph.keepsWide (FlowGraph.closed_ofBody body) _ locals, ?_⟩
  refine and_left_comm.mpr ⟨fun slots whole => ⟨expand_collapse whole,
    fun stack => Frame.rightpad_expand_locals_ofSlots whole stack⟩, ?_⟩
  by_cases empty : body.instructions = []
  · refine ⟨fun index => ?_, fun frame decoded => ?_⟩
    · refine (congrArg Notes.IsPaired ?_).mpr Notes.isPaired_blank
      exact notesAfter_of_empty threshold hierarchy thisClass startLocals empty index
    · rw [computeFrames_of_empty threshold hierarchy thisClass startLocals empty] at decoded
      exact absurd decoded List.not_mem_nil
  · have reaches := FlowGraph.reaches_inferRun (FlowGraph.ofBody body)
      (body.typingContext hierarchy threshold thisClass)
      (FlowGraph.entryLocals body.instructions startLocals)
    have noted := TypeAnalysis.isPaired_notesOn (FlowGraph.closed_ofBody body) locals
      (Or.inl reaches)
    rw [framing_computeFrames threshold hierarchy thisClass startLocals empty,
      notes_computeFrames threshold hierarchy thisClass startLocals empty]
    refine ⟨noted, fun frame decoded =>
      FlowGraph.length_expand_locals_le_maxLocals ?_ noted decoded⟩
    rw [Analysis.size_reaches reaches]
    simp [FlowGraph.opening]

/-- A loop that overwrites first the second half of a long variable and then its first
half with a double. -/
def splittingLoop : Body :=
  .ofInstructions
    [.mark ⟨0⟩, .simple .iconst0, .simple .istore1, .simple .dconst0, .simple .dstore0,
      .simple .lconst0, .simple .lstore1, .branch .goto ⟨0⟩]
    [] ⟨1⟩

/-- The loop keeps wide values together from a long variable on. -/
theorem keepsWide_computeFrames_splittingLoop :
    Paired [some (.long : SlotType), some .top] ∧
      (FlowGraph.ofBody splittingLoop).KeepsWide
        (splittingLoop.typingContext cyclicTable.hierarchy 1 .string)
        (FlowGraph.entryLocals splittingLoop.instructions [some .long, some .top]) := by
  have paired : Paired [some (.long : SlotType), some .top] :=
    paired_cons_iff.mpr ⟨fun _ => rfl,
      paired_cons_iff.mpr ⟨fun wide => absurd wide VerificationType.not_isWide_top, paired_nil⟩⟩
  have keeps := keepsWide_computeFrames splittingLoop 1 cyclicTable.hierarchy .string paired
  exact ⟨paired, keeps.2.1⟩

end Session

end StackMaps
