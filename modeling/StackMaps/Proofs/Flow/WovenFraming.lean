import StackMaps.Proofs.Flow.FrameLabels
import StackMaps.Proofs.Flow.WovenTyping

/-!
# The frames of a woven body

The frames of a woven body are those of the body at their new positions. Their labels stand
there already, so that none is issued, and the descriptions of the frames are the same.
-/

namespace StackMaps

attribute [ext] Framing

/-- A frame that is to be written, at another position and with other origins. -/
def FrameSite.rename (onOrigin : Nat → Nat) (site : FrameSite) : FrameSite :=
  ⟨site.state.rename onOrigin, onOrigin site.position⟩

theorem origins_map_renameSlot (onOrigin : Nat → Nat) (slots : List Slot) :
    origins (slots.map (renameSlot onOrigin)) = (origins slots).map onOrigin := by
  unfold origins
  rw [List.filterMap_map, List.map_filterMap]
  refine List.filterMap_congr fun slot _ => ?_
  cases slot with
  | none => rfl
  | some type => cases type <;> rfl

theorem FrameSite.demands_rename (onOrigin : Nat → Nat) (site : FrameSite) :
    (site.rename onOrigin).demands = site.demands.map onOrigin := by
  simp only [demands, rename, SlotState.locals_rename, SlotState.slots_stack_rename,
    ← List.map_reverse, origins_map_renameSlot, List.map_append, List.map_cons, List.map_nil]

namespace FlowGraph

/-- The position of the first real instruction is found beside it. -/
theorem map_findIdx?_eq_find?_zipIdx (instructions : List Instruction) (position : Nat) :
    (instructions.findIdx? (!·.isMark)).map (position + ·) =
      ((instructions.zipIdx position).find? fun entry => !entry.1.isMark).map (·.2) := by
  induction instructions generalizing position with
  | nil => rfl
  | cons instruction rest hypothesis =>
      rw [List.findIdx?_cons, List.zipIdx_cons, List.find?_cons]
      cases real : instruction.isMark with
      | false => rfl
      | true =>
          simp only [Bool.not_true, Bool.false_eq_true, if_false, Option.map_map]
          rw [← hypothesis]
          refine congrArg (Option.map · _) (funext fun offset => ?_)
          simp only [Function.comp_apply]
          omega

/-- Among woven instructions the first real one has moved. -/
theorem find?_zipIdx_weave
    (label? : Nat → Option Label)
    (instructions : List Instruction)
    (position : Nat) :
    (((weave label? position instructions).zipIdx (front label? position)).find?
        fun entry => !entry.1.isMark).map (·.2) =
      (((instructions.zipIdx position).find? fun entry => !entry.1.isMark).map (·.2)).map
        (moved label?) := by
  induction instructions generalizing position with
  | nil => rfl
  | cons instruction rest hypothesis =>
      have labels : ((label? position).toList.map fun label =>
          (Instruction.mark label, front label? position)).find?
            (fun entry => !entry.1.isMark) = none := by
        cases label? position <;> rfl
      rw [zipIdx_weave_cons, List.find?_append, labels, Option.none_or, List.zipIdx_cons,
        List.find?_cons, List.find?_cons]
      cases real : instruction.isMark with
      | false => rfl
      | true => exact hypothesis (position + 1)

/-- The first real instruction of a woven block has moved. -/
theorem firstReal?_weave (label? : Nat → Option Label) (block : Block) :
    firstReal? (block.weave label?) = (firstReal? block).map (moved label?) := by
  unfold firstReal?
  rw [map_findIdx?_eq_find?_zipIdx, map_findIdx?_eq_find?_zipIdx]
  exact find?_zipIdx_weave label? block.instructions block.start

/-- Going on to a woven block finds its frame at the new position. -/
theorem siteStep_weave
    (label? : Nat → Option Label)
    (progress : Bool × List FrameSite)
    (entry : Block × Notes) :
    siteStep (progress.map id (List.map (FrameSite.rename (moved label?))))
        (entry.map (Block.weave label?) (Notes.rename (moved label?))) =
      (siteStep progress entry).map id (List.map (FrameSite.rename (moved label?))) := by
  obtain ⟨waiting, sites⟩ := progress
  obtain ⟨block, notes⟩ := entry
  have needs_eq : (block.weave label?).needsFrame = block.needsFrame := rfl
  simp only [siteStep, Prod.map, id, Notes.rename, needs_eq, firstReal?_weave]
  cases notes.inputState with
  | none => rfl
  | some state =>
      cases block.needsFrame || waiting with
      | false => rfl
      | true =>
          cases firstReal? block with
          | none => rfl
          | some position => rfl

theorem foldl_siteStep_weave
    (label? : Nat → Option Label)
    (entries : List (Block × Notes))
    (progress : Bool × List FrameSite) :
    (entries.map (Prod.map (Block.weave label?) (Notes.rename (moved label?)))).foldl siteStep
        (progress.map id (List.map (FrameSite.rename (moved label?)))) =
      (entries.foldl siteStep progress).map id (List.map (FrameSite.rename (moved label?))) := by
  induction entries generalizing progress with
  | nil => rfl
  | cons entry rest hypothesis =>
      rw [List.map_cons, List.foldl_cons, List.foldl_cons, siteStep_weave]
      exact hypothesis _

end FlowGraph

namespace LabelPlan.Extends

variable {plan : LabelPlan} {body after : Body} (extends_ : plan.Extends body after)

include extends_

/-- The frames to be written are those of the body at their new positions. -/
theorem frameSites_eq (notes : Array Notes) :
    (FlowGraph.ofBody after).frameSites (notes.map (Notes.rename (moved plan.injected?))) =
      ((FlowGraph.ofBody body).frameSites notes).map
        (FrameSite.rename (moved plan.injected?)) := by
  unfold FlowGraph.frameSites
  rw [extends_.blocks_eq, Array.toList_map, Array.toList_map, List.zip_map, List.map_reverse]
  exact congrArg (fun progress : Bool × List FrameSite => progress.2.reverse)
    (FlowGraph.foldl_siteStep_weave plan.injected?
      ((FlowGraph.ofBody body).blocks.toList.zip notes.toList) (false, []))

end LabelPlan.Extends

/-! ## Labels -/

namespace LabelPlan

/-- A plan issues nothing for positions that have labels. -/
theorem foldl_demand_eq_self
    {plan : LabelPlan}
    {positions : List Nat}
    (labelled : ∀ position ∈ positions, (plan.find? position).isSome) :
    positions.foldl LabelPlan.demand plan = plan := by
  induction positions with
  | nil => rfl
  | cons position rest hypothesis =>
      obtain ⟨first, others⟩ := List.forall_mem_cons.mp labelled
      have settled : plan.demand position = plan := by
        obtain ⟨label, found⟩ := Option.isSome_iff_exists.mp first
        rw [demand, found]
      rw [List.foldl_cons, settled, hypothesis others]

/-- A position behind a mark has its label. -/
theorem find?_ofBody_of_fronts
    {body : Body}
    {label : Label}
    {target : Nat}
    (fronts : body.Fronts label target) :
    (ofBody body).find? target = some label := by
  obtain ⟨before, rfl, marked⟩ := fronts.marked
  obtain ⟨instruction, found, real⟩ := fronts.real
  have unmarked : instruction.marks? = none := by
    cases instruction <;> first | rfl | cases real
  have found? : (ofBody body).existing? (before + 1) = some label := by
    have here : (ofBody body).markAt? (before + 1) = none := by
      rw [markAt?, ofBody, List.getElem?_toArray, found]
      exact unmarked
    have behind : (ofBody body).markAt? before = some label := by
      rw [markAt?, ofBody, List.getElem?_toArray, marked]
      rfl
    simp only [existing?, here, behind]
  simp only [find?, found?]

end LabelPlan

/-- A state with other origins has the same frame, if their labels are the same. -/
theorem LabelPlan.frame_rename
    {plan newPlan : LabelPlan}
    {onOrigin : Nat → Nat}
    {state : SlotState}
    (same : ∀ origin ∈ origins state.locals ++ origins state.stack.slots.reverse,
      newPlan.label (onOrigin origin) = plan.label origin) :
    newPlan.frame (state.rename onOrigin) = plan.frame state := by
  have resolved : ∀ slots : List Slot,
      (∀ origin ∈ origins slots, newPlan.label (onOrigin origin) = plan.label origin) →
      newPlan.resolve (slots.map (renameSlot onOrigin)) = plan.resolve slots := by
    intro slots same
    unfold resolve
    rw [List.map_map]
    refine List.map_congr_left fun slot present => ?_
    cases slot with
    | none => rfl
    | some type =>
        cases type with
        | uninitialized origin =>
            exact congrArg (some ∘ VerificationType.uninitialized)
              (same origin (mem_origins_iff.mpr present))
        | _ => rfl
  rw [List.forall_mem_append] at same
  simp only [frame, SlotState.locals_rename, SlotState.slots_stack_rename, ← List.map_reverse,
    resolved _ same.1, resolved _ same.2]

namespace FlowGraph

section Framings

variable {onOrigin : Nat → Nat} {graph newGraph : FlowGraph} {body newBody : Body}
variable {locals : List Slot} {notes : Array Notes}

variable (graph body) in
/-- The greatest number of locals does not depend on the origins. -/
theorem maxLocals_framing_rename :
    (newGraph.framing newBody locals (notes.map (Notes.rename onOrigin))).maxLocals =
      (graph.framing body locals notes).maxLocals := by
  simp only [framing, Array.foldl_map]
  refine congrArg (fun step => notes.foldl step locals.length) ?_
  funext greatest entry
  simp only [Notes.rename]
  cases entry.inputState with
  | none => rfl
  | some state => simp

variable (graph body) in
/-- The greatest depth does not depend on the origins. -/
theorem maxStack_framing_rename :
    (newGraph.framing newBody locals (notes.map (Notes.rename onOrigin))).maxStack =
      (graph.framing body locals notes).maxStack := by
  simp only [framing, Array.foldl_map]
  rfl

/-- The frames are written one after the other. -/
theorem frames_framing :
    (graph.framing body locals notes).frames =
      List.zipWith (fun frame previous => (frame.1, frame.2.compact previous))
        ((graph.frameSites notes).map fun site =>
          ((graph.labelPlan body locals notes).label site.position,
            (graph.labelPlan body locals notes).frame site.state))
        ((graph.labelPlan body locals notes).frame ⟨locals, .empty⟩ ::
          ((graph.frameSites notes).map fun site =>
            ((graph.labelPlan body locals notes).label site.position,
              (graph.labelPlan body locals notes).frame site.state)).map (·.2)) := rfl

end Framings

variable {body after : Body} {locals : List Slot} {notes : Array Notes}
variable (size_eq : notes.size = (ofBody body).blocks.size)
variable (allocated : AllAllocated body notes)
variable (plain : ∀ slot ∈ locals, ∀ origin, slot ≠ some (.uninitialized origin))
variable (extends_ : ((ofBody body).labelPlan body locals notes).Extends body after)

include size_eq allocated extends_

/-- The labels for frames stand at their new positions already. -/
theorem find?_moved
    {site : FrameSite}
    (present : site ∈ (ofBody body).frameSites notes)
    {position : Nat}
    (demanded : position ∈ site.demands) :
    (LabelPlan.ofBody after).find?
        (moved ((ofBody body).labelPlan body locals notes).injected? position) =
      some (((ofBody body).labelPlan body locals notes).label position) :=
  LabelPlan.find?_ofBody_of_fronts
    (extends_.fronts (isReal_of_mem_demands size_eq allocated present demanded)
      (isSome_find?_labelPlan present demanded))

theorem label_moved
    {site : FrameSite}
    (present : site ∈ (ofBody body).frameSites notes)
    {position : Nat}
    (demanded : position ∈ site.demands) :
    (LabelPlan.ofBody after).label
        (moved ((ofBody body).labelPlan body locals notes).injected? position) =
      ((ofBody body).labelPlan body locals notes).label position := by
  rw [LabelPlan.label, find?_moved size_eq allocated extends_ present demanded, Option.getD_some]

include plain

/-- No label is issued for the woven body. -/
theorem labelPlan_woven :
    (ofBody after).labelPlan after locals
        (notes.map (Notes.rename
          (moved ((ofBody body).labelPlan body locals notes).injected?))) =
      .ofBody after := by
  refine LabelPlan.foldl_demand_eq_self fun position demanded => ?_
  rw [extends_.frameSites_eq] at demanded
  rcases List.mem_append.mp demanded with atStart | inSites
  · exact absurd rfl (plain _ (mem_origins_iff.mp atStart) position)
  · obtain ⟨_, among, inSite⟩ := List.mem_flatMap.mp inSites
    obtain ⟨site, present, rfl⟩ := List.mem_map.mp among
    rw [FrameSite.demands_rename] at inSite
    obtain ⟨before, needed, rfl⟩ := List.mem_map.mp inSite
    rw [find?_moved size_eq allocated extends_ present needed]
    rfl

omit plain in
/-- Each frame of the woven body has the label and the slots of one of the body. -/
theorem map_frameSites_woven :
    ((ofBody after).frameSites (notes.map (Notes.rename
        (moved ((ofBody body).labelPlan body locals notes).injected?)))).map
        (fun site => ((LabelPlan.ofBody after).label site.position,
          (LabelPlan.ofBody after).frame site.state)) =
      ((ofBody body).frameSites notes).map fun site =>
        (((ofBody body).labelPlan body locals notes).label site.position,
          ((ofBody body).labelPlan body locals notes).frame site.state) := by
  rw [extends_.frameSites_eq, List.map_map]
  refine List.map_congr_left fun site present => ?_
  have labels : ∀ position ∈ site.demands, (LabelPlan.ofBody after).label
        (moved ((ofBody body).labelPlan body locals notes).injected? position) =
      ((ofBody body).labelPlan body locals notes).label position :=
    fun position demanded => label_moved size_eq allocated extends_ present demanded
  obtain ⟨ofOrigins, ofPosition⟩ := List.forall_mem_append.mp labels
  exact Prod.ext (ofPosition _ (List.mem_singleton.mpr rfl)) (LabelPlan.frame_rename ofOrigins)

omit size_eq allocated extends_ in
/-- The locals at the start have the same frame with all labels. -/
theorem frame_of_plain (plan newPlan : LabelPlan) :
    newPlan.frame ⟨locals, .empty⟩ = plan.frame ⟨locals, .empty⟩ := by
  have absent : ∀ origin, ¬(⟨locals, .empty⟩ : SlotState).Mentions origin := by
    rintro origin (inLocals | onStack)
    · exact plain _ inLocals origin rfl
    · exact absurd onStack List.not_mem_nil
  rw [← @LabelPlan.frame_rename plan newPlan id ⟨locals, .empty⟩ fun origin demanded => ?_]
  · rw [SlotState.rename_of_not_mentions absent]
  · rcases List.mem_append.mp demanded with inLocals | onStack
    · exact absurd rfl (plain _ (mem_origins_iff.mp inLocals) origin)
    · exact absurd onStack List.not_mem_nil

/-- The frames of the woven body are those of the body. -/
theorem frames_framing_woven :
    ((ofBody after).framing after locals
        (notes.map (Notes.rename
          (moved ((ofBody body).labelPlan body locals notes).injected?)))).frames =
      ((ofBody body).framing body locals notes).frames := by
  rw [frames_framing, frames_framing, labelPlan_woven size_eq allocated plain extends_,
    map_frameSites_woven size_eq allocated extends_,
    frame_of_plain plain ((ofBody body).labelPlan body locals notes) (LabelPlan.ofBody after)]

/-- What is found out about the woven body is what has been found out about the body, except
that no label is issued any more. -/
theorem framing_woven :
    (ofBody after).framing after locals
        (notes.map (Notes.rename
          (moved ((ofBody body).labelPlan body locals notes).injected?))) =
      { (ofBody body).framing body locals notes with
        injections := []
        nextLabel := after.nextLabel } := by
  have plan_eq := labelPlan_woven size_eq allocated plain extends_
  have injections_eq := (congrArg LabelPlan.injections plan_eq).trans
    (LabelPlan.injections_ofBody after)
  exact Framing.ext injections_eq (frames_framing_woven size_eq allocated plain extends_)
    (maxLocals_framing_rename (ofBody body) body) (maxStack_framing_rename (ofBody body) body)
    (congrArg LabelPlan.nextLabel plan_eq)

end FlowGraph

end StackMaps
