import StackMaps.Proofs.Flow.FrameDecoding
import StackMaps.Proofs.Flow.Injecting
import StackMaps.Proofs.Flow.Origins

/-!
# Labels of frames

Frames refer to allocations and to the first real instructions of blocks. In the body with
the labels that have been issued, each of these labels stands directly in front of its
instruction, and so the frames can be put into a table.
-/

namespace StackMaps

theorem mem_origins_iff {slots : List Slot} {origin : Nat} :
    origin ∈ origins slots ↔ some (.uninitialized origin) ∈ slots := by
  unfold origins
  rw [List.mem_filterMap]
  constructor
  · rintro ⟨slot, present, same⟩
    split at same
    · exact Option.some.inj same ▸ present
    · cases same
  · intro present
    exact ⟨_, present, rfl⟩

/-- The slot does not hold an uninitialized object but one that the body allocates. -/
def Slot.IsAllocated (body : Body) (slot : Slot) : Prop :=
  ∀ origin, slot = some (.uninitialized origin) → body.Allocates origin

theorem lenient_isAllocated (body : Body) : Lenient (Slot.IsAllocated body) :=
  lenient_of_origins body.Allocates

namespace FlowGraph

variable {body : Body} {context : TypingContext} {locals : List Slot}

/-- All uninitialized objects that are found are allocated by the body. -/
theorem all_isAllocated
    (plain : ∀ slot ∈ locals, Slot.IsAllocated body slot)
    {progress : Progress}
    (moment : (typeAnalysis context).Moment (ofBody body)
      ((ofBody body).opening (Notes.enterState locals)) progress)
    (index : Nat) :
    (progress.notesOn index).All (Slot.IsAllocated body) := by
  refine TypeAnalysis.all_of_supplies ((lenient_isAllocated body).supplies_graph ?_)
    (closed_ofBody body) plain moment index
  intro index block found offset earlier instruction _ present isNew origin same
  have inside := (List.getElem?_eq_some_iff.mp present).1
  rw [getElem?_instructions found inside] at present
  cases same
  cases instruction with
  | type opcode operand =>
      cases opcode <;> first | exact ⟨operand, present⟩ | cases isNew
  | _ => cases isNew

/-- A frame is at a real instruction of its block. -/
theorem Emits.position_siteOn
    {noted : Nat → Notes}
    {index : Nat}
    (emits : (ofBody body).Emits noted index) :
    ∃ block, (ofBody body).blocks[index]? = some block ∧
      block.start ≤ ((ofBody body).siteOn noted index).position ∧
      ((ofBody body).siteOn noted index).position < block.stop ∧
      body.IsReal ((ofBody body).siteOn noted index).position := by
  obtain ⟨block, found, instruction, present, real⟩ := emits.real
  cases first : firstReal? block with
  | none => exact absurd (firstReal?_eq_none_iff.mp first) (emits.not_isBare found)
  | some position =>
      have position_eq : ((ofBody body).siteOn noted index).position = position := by
        simp [siteOn, found, first]
      obtain ⟨offset, here, rfl, here_eq, hereReal, _⟩ := firstReal?_eq_some_iff.mp first
      have inside := (List.getElem?_eq_some_iff.mp here_eq).1
      rw [position_eq]
      refine ⟨block, found, Nat.le_add_right _ _, Nat.add_lt_add_left inside _, here, ?_, hereReal⟩
      rw [← getElem?_instructions found inside, here_eq]

theorem Emits.position_lt
    {noted : Nat → Notes}
    {index other : Nat}
    (emits : (ofBody body).Emits noted index)
    (otherEmits : (ofBody body).Emits noted other)
    (less : index < other) :
    ((ofBody body).siteOn noted index).position < ((ofBody body).siteOn noted other).position := by
  obtain ⟨block, found, _, covered, _⟩ := emits.position_siteOn
  obtain ⟨otherBlock, otherFound, covers, _⟩ := otherEmits.position_siteOn
  exact Nat.lt_of_lt_of_le covered (Nat.le_trans (stop_le_start less found otherFound) covers)

/-- All uninitialized objects in the entries are allocated by the body. -/
def AllAllocated (body : Body) (notes : Array Notes) : Prop :=
  ∀ index, (notes.getD index .blank).All (Slot.IsAllocated body)

section Sites

variable {notes : Array Notes}

/-- The frames are in the order of the body. -/
theorem ascending_frameSites (size_eq : notes.size = (ofBody body).blocks.size) :
    ((ofBody body).frameSites notes).Pairwise
      fun earlier later => earlier.position < later.position := by
  obtain ⟨emitting, ascending, mem_iff, sites_eq⟩ := exists_emitting (ofBody body) notes size_eq
  rw [sites_eq, List.pairwise_map]
  refine ascending.imp_of_mem fun present presentToo less => ?_
  exact ((mem_iff _).mp present).position_lt ((mem_iff _).mp presentToo) less

variable (size_eq : notes.size = (ofBody body).blocks.size)
variable (allocated : AllAllocated body notes)

include size_eq

/-- The frames are at real instructions. -/
theorem isReal_of_mem_frameSites
    {site : FrameSite}
    (present : site ∈ (ofBody body).frameSites notes) :
    body.IsReal site.position := by
  obtain ⟨emitting, _, mem_iff, sites_eq⟩ := exists_emitting (ofBody body) notes size_eq
  rw [sites_eq] at present
  obtain ⟨index, among, rfl⟩ := List.mem_map.mp present
  obtain ⟨_, _, _, _, real⟩ := ((mem_iff index).mp among).position_siteOn
  exact real

/-- What holds of all slots at the entries of blocks holds of those of frames. -/
theorem all_of_mem_frameSites
    {Holds : Slot → Prop}
    (all : ∀ index, (notes.getD index .blank).All Holds)
    {site : FrameSite}
    (present : site ∈ (ofBody body).frameSites notes) :
    site.state.All Holds := by
  obtain ⟨emitting, _, mem_iff, sites_eq⟩ := exists_emitting (ofBody body) notes size_eq
  rw [sites_eq] at present
  obtain ⟨index, among, rfl⟩ := List.mem_map.mp present
  obtain ⟨state, entered⟩ := Option.isSome_iff_exists.mp ((mem_iff index).mp among).reached
  have state_eq : ((ofBody body).siteOn (notes.getD · .blank) index).state = state := by
    rw [siteOn, entered, Option.getD_some]
  exact state_eq ▸ (all index).input state entered

include allocated

/-- The uninitialized objects in frames are allocated by the body. -/
theorem allocates_of_mem_frameSites
    {site : FrameSite}
    (present : site ∈ (ofBody body).frameSites notes)
    {origin : Nat}
    (demanded : origin ∈ origins site.state.locals ++ origins site.state.stack.slots.reverse) :
    body.Allocates origin := by
  have all := all_of_mem_frameSites size_eq allocated present
  rw [List.mem_append, mem_origins_iff, mem_origins_iff, List.mem_reverse] at demanded
  rcases demanded with inLocals | onStack
  · exact all.locals _ inLocals origin rfl
  · exact all.stack _ onStack origin rfl

/-- Frames need labels for real instructions alone. -/
theorem isReal_of_mem_demands
    {site : FrameSite}
    (present : site ∈ (ofBody body).frameSites notes)
    {position : Nat}
    (demanded : position ∈ site.demands) :
    body.IsReal position := by
  rcases List.mem_append.mp demanded with origin | isPosition
  · exact (allocates_of_mem_frameSites size_eq allocated present origin).isReal
  · rw [List.mem_singleton.mp isPosition]
    exact isReal_of_mem_frameSites size_eq present

/-- Labels are issued for real instructions alone. -/
theorem issues_labelPlan (plain : ∀ slot ∈ locals, Slot.IsAllocated body slot) :
    ((ofBody body).labelPlan body locals notes).Issues body body.IsReal := by
  refine (LabelPlan.issues_ofBody body body.IsReal).foldl_demand fun position demanded => ?_
  rcases List.mem_append.mp demanded with atStart | inSites
  · exact (plain _ (mem_origins_iff.mp atStart) position rfl).isReal
  · obtain ⟨site, present, inSite⟩ := List.mem_flatMap.mp inSites
    exact isReal_of_mem_demands size_eq allocated present inSite

end Sites

section Framing

variable {notes : Array Notes} {graph : FlowGraph}

/-- Each frame is the description of one that is to be written. -/
theorem exists_site_of_mem_frames
    {entry : Label × BodyFrame}
    (present : entry ∈ (graph.framing body locals notes).frames) :
    ∃ site ∈ graph.frameSites notes, ∃ previous,
      entry.1 = (graph.labelPlan body locals notes).label site.position ∧
      entry.2 = ((graph.labelPlan body locals notes).frame site.state).compact previous := by
  obtain ⟨place, found⟩ := List.getElem?_of_mem present
  have label_eq : ((graph.framing body locals notes).frames.map (·.1))[place]? =
      some entry.1 := by
    rw [List.getElem?_map, found, Option.map_some]
  have form_eq : ((graph.framing body locals notes).frames.map (·.2))[place]? =
      some entry.2 := by
    rw [List.getElem?_map, found, Option.map_some]
  rw [labels_framing, List.getElem?_map, Option.map_eq_some_iff] at label_eq
  rw [forms_framing] at form_eq
  obtain ⟨site, site_eq, label_eq⟩ := label_eq
  obtain ⟨previous, frame, _, frame_eq, form_eq⟩ := Frame.getElem?_compactAll form_eq
  rw [List.getElem?_map, site_eq, Option.map_some] at frame_eq
  obtain rfl := Option.some.inj frame_eq
  exact ⟨site, List.mem_of_getElem? site_eq, previous, label_eq.symm, form_eq⟩

/-- The types in a description, unless they are `top`, are those of slots. -/
theorem exists_slot_of_mem_types
    {plan : LabelPlan}
    {state : SlotState}
    {previous : Frame RefType Label}
    {type : VerificationType RefType Label}
    (occurs : type ∈ ((plan.frame state).compact previous).types)
    (known : type ≠ .top) :
    ∃ slotType : SlotType, some slotType ∈ state.locals ++ state.stack.slots.reverse ∧
      slotType.map id plan.label = type := by
  have inSlots := Frame.mem_of_mem_ofSlots (Frame.types_compact_subset _ _ occurs) known
  rw [LabelPlan.resolve, LabelPlan.resolve, ← List.map_append, List.mem_map] at inSlots
  obtain ⟨slot, present, slot_eq⟩ := inSlots
  obtain ⟨slotType, rfl, type_eq⟩ := Option.map_eq_some_iff.mp slot_eq
  exact ⟨slotType, present, type_eq⟩

/-- The labels in a description are those of the origins in the slots. -/
theorem exists_origin_of_mem_origins
    {plan : LabelPlan}
    {state : SlotState}
    {previous : Frame RefType Label}
    {label : Label}
    (occurs : label ∈ ((plan.frame state).compact previous).origins) :
    ∃ origin ∈ StackMaps.origins state.locals ++ StackMaps.origins state.stack.slots.reverse,
      label = plan.label origin := by
  obtain ⟨type, present, type_eq⟩ :=
    exists_slot_of_mem_types (StackMapFrame.mem_origins_iff.mp occurs) (by simp)
  cases type with
  | uninitialized origin =>
      refine ⟨origin, ?_, (VerificationType.uninitialized.inj type_eq).symm⟩
      simpa only [List.mem_append, mem_origins_iff] using present
  | _ => cases type_eq

/-- The position of a frame and the origins in it have labels. -/
theorem isSome_find?_labelPlan
    {site : FrameSite}
    (present : site ∈ graph.frameSites notes)
    {position : Nat}
    (demanded : position ∈ site.demands) :
    ((graph.labelPlan body locals notes).find? position).isSome :=
  LabelPlan.isSome_find?_foldl_demand
    (List.mem_append_right _ (List.mem_flatMap.mpr ⟨site, present, demanded⟩))

/-- The frames fit the body with the issued labels. -/
theorem framesFit
    (size_eq : notes.size = (ofBody body).blocks.size)
    (allocated : AllAllocated body notes)
    {after : Body}
    (extends_ : ((ofBody body).labelPlan body locals notes).Extends body after)
    (frames_eq : after.frames = ((ofBody body).framing body locals notes).frames) :
    after.FramesFit := by
  have fronts : ∀ site ∈ (ofBody body).frameSites notes,
      after.Fronts (((ofBody body).labelPlan body locals notes).label site.position)
        (moved ((ofBody body).labelPlan body locals notes).injected? site.position) :=
    fun site present => extends_.fronts (isReal_of_mem_frameSites size_eq present)
      (isSome_find?_labelPlan present (List.mem_append_right _ (List.mem_singleton.mpr rfl)))
  refine Body.framesFit_of_fronts ?_ ?_ ?_
  · intro entry present label occurs
    rw [frames_eq] at present
    obtain ⟨site, among, previous, _, form_eq⟩ := exists_site_of_mem_frames present
    rw [form_eq] at occurs
    obtain ⟨origin, demanded, rfl⟩ := exists_origin_of_mem_origins occurs
    have allocates := allocates_of_mem_frameSites size_eq allocated among demanded
    exact ⟨_, extends_.fronts allocates.isReal
      (isSome_find?_labelPlan among (List.mem_append_left _ demanded)),
      extends_.allocates_moved allocates⟩
  · intro entry present
    rw [frames_eq] at present
    obtain ⟨site, among, _, label_eq, _⟩ := exists_site_of_mem_frames present
    exact ⟨_, label_eq ▸ fronts site among⟩
  · have labels : (((ofBody body).framing body locals notes).frames.map (·.1)).Pairwise
        fun earlier later => ∃ position target,
          after.Fronts earlier position ∧ after.Fronts later target ∧ position < target := by
      rw [labels_framing, List.pairwise_map]
      refine (ascending_frameSites size_eq).imp_of_mem fun present presentToo less => ?_
      exact ⟨_, _, fronts _ present, fronts _ presentToo, moved_strictMono less⟩
    exact frames_eq ▸ List.pairwise_map.mp labels

end Framing

end FlowGraph
end StackMaps
