import StackMaps.Frame.Table
import StackMaps.Proofs.Frame.Origins
import Mathlib.Data.List.Induction

/-!
# Tables of frames

A table can be made of at most 65535 frames, if every label in them has an offset and the
offsets of the frames themselves ascend strictly. Then the distances in the table lead back to
the offsets, and its types are those of the frames with the indices that classes have been given
in the order in which they are met. Otherwise the first frame that does not fit behind the
frames before it decides on the error.
-/

namespace StackMaps

/-! ## Actions that can fail -/

section Ends

variable {σ α β : Type} {action : ExceptT Error (StateM σ) α} {state : σ}
  {Succeeds : α → σ → Prop} {Fails : Error → Prop}

/-- The action succeeds with such a value and such a state behind it, or it fails with such
an error. -/
def Ends
    (action : ExceptT Error (StateM σ) α)
    (state : σ)
    (Succeeds : α → σ → Prop)
    (Fails : Error → Prop) : Prop :=
  match action.run.run state with
  | (.ok value, final) => Succeeds value final
  | (.error error, _) => Fails error

theorem Ends.bind
    {next : α → ExceptT Error (StateM σ) β}
    {ThenSucceeds : β → σ → Prop}
    {ThenFails : Error → Prop}
    (first : Ends action state Succeeds Fails)
    (failed : ∀ error, Fails error → ThenFails error)
    (second : ∀ value between, Succeeds value between →
      Ends (next value) between ThenSucceeds ThenFails) :
    Ends (action >>= next) state ThenSucceeds ThenFails := by
  unfold Ends at first ⊢
  rw [ExceptT.run_bind, StateT.run_bind]
  rcases run_eq : action.run.run state with ⟨error | value, between⟩
  · rw [run_eq] at first
    exact failed error first
  · rw [run_eq] at first
    exact second value between first

theorem ends_pure {value : α} (succeeds : Succeeds value state) :
    Ends (pure value : ExceptT Error (StateM σ) α) state Succeeds Fails :=
  succeeds

theorem ends_lift
    {action : StateM σ α}
    (succeeds : Succeeds (action.run state).1 (action.run state).2) :
    Ends (liftM action : ExceptT Error (StateM σ) α) state Succeeds Fails :=
  succeeds

theorem ends_of_eq_ok
    {result : Except Error α}
    {value : α}
    (same : result = .ok value)
    (succeeds : Succeeds value state) :
    Ends (ExceptT.mk (pure result) : ExceptT Error (StateM σ) α) state Succeeds Fails := by
  rw [same]
  exact succeeds

theorem ends_of_eq_error
    {result : Except Error α}
    {error : Error}
    (same : result = .error error)
    (fails : Fails error) :
    Ends (ExceptT.mk (pure result) : ExceptT Error (StateM σ) α) state Succeeds Fails := by
  rw [same]
  exact fails

/-- An action that cannot fail succeeds. -/
theorem Ends.exists_run (ends : Ends action state Succeeds Fails) (safe : ∀ error, ¬Fails error) :
    ∃ value final, action.run.run state = (.ok value, final) := by
  unfold Ends at ends
  rcases run_eq : action.run.run state with ⟨error | value, final⟩
  · rw [run_eq] at ends
    exact absurd ends (safe error)
  · exact ⟨value, final, rfl⟩

end Ends

/-! ## Outlines of types and frames -/

namespace VerificationType

variable {Operand Origin : Type}

/-- The class in a type. -/
def operand? : VerificationType Operand Origin → Option Operand
  | .object operand => some operand
  | _ => none

/-- The type without its class, and with the offset of its origin. -/
def outline (offset? : Origin → Option UInt16) (type : VerificationType Operand Origin) :
    VerificationType Unit (Option UInt16) :=
  type.map (fun _ => ()) offset?

theorem map_origin?_outline
    (offset? : Origin → Option UInt16)
    (type : VerificationType Operand Origin) :
    (type.outline offset?).origin? = type.origin?.map offset? := by
  cases type <;> rfl

end VerificationType

namespace StackMapFrame

variable {Operand Origin NewOperand NewOrigin : Type}

/-- The classes in a description of a frame. -/
def operands (frame : StackMapFrame Operand Origin) : List Operand :=
  frame.types.filterMap VerificationType.operand?

/-- Change the types in a description of a frame. -/
def mapTypes
    (change : VerificationType Operand Origin → VerificationType NewOperand NewOrigin) :
    StackMapFrame Operand Origin → StackMapFrame NewOperand NewOrigin
  | .same stack => .same (stack.map change)
  | .chop count => .chop count
  | .append locals => .append (locals.map change)
  | .full locals stack => .full (locals.map change) (stack.map change)

/-- The description without its classes, and with the offsets of its origins. -/
def outline (offset? : Origin → Option UInt16) (frame : StackMapFrame Operand Origin) :
    StackMapFrame Unit (Option UInt16) :=
  frame.mapTypes (VerificationType.outline offset?)

theorem types_mapTypes
    (change : VerificationType Operand Origin → VerificationType NewOperand NewOrigin)
    (frame : StackMapFrame Operand Origin) :
    (frame.mapTypes change).types = frame.types.map change := by
  cases frame with
  | same stack => cases stack <;> rfl
  | chop count => rfl
  | append locals => rfl
  | full locals stack => exact List.map_append.symm

end StackMapFrame

namespace StackMapTable

variable {σ : Type} {offset? : Label → Option UInt16} {index : ClassIndexer σ}

/-! ## Types -/

/-- The classes are asked for one after the other, and these are the answers. -/
def Asks
    (index : ClassIndexer σ)
    (classes : List RefType)
    (before : σ)
    (answers : List UInt16)
    (after : σ) : Prop :=
  (classes.mapM index).run before = (answers, after)

theorem asks_nil {state : σ} : Asks index [] state [] state := rfl

theorem Asks.append
    {classes others : List RefType}
    {before between after : σ}
    {answers more : List UInt16}
    (first : Asks index classes before answers between)
    (second : Asks index others between more after) :
    Asks index (classes ++ others) before (answers ++ more) after := by
  unfold Asks at *
  rw [List.mapM_append, StateT.run_bind, first]
  change (do let answers_ ← others.mapM index; pure (answers ++ answers_) : StateM σ _).run between
    = _
  rw [StateT.run_bind, second]
  rfl

/-- The error for the first label without an offset. -/
def labelFault? (offset? : Label → Option UInt16) (labels : List Label) : Option Error :=
  (labels.find? fun label => (offset? label).isNone).map .unplacedLabel

theorem labelFault?_eq_none_iff {labels : List Label} :
    labelFault? offset? labels = none ↔ ∀ label ∈ labels, (offset? label).isSome := by
  simp [labelFault?, List.find?_eq_none, Option.isSome_iff_ne_none]

theorem labelFault?_append (labels others : List Label) :
    labelFault? offset? (labels ++ others) =
      (labelFault? offset? labels).or (labelFault? offset? others) := by
  rw [labelFault?, List.find?_append, labelFault?]
  cases labels.find? fun label => (offset? label).isNone <;> rfl

theorem labelFault?_append_of_some {labels : List Label} {error : Error} (others : List Label)
    (faulty : labelFault? offset? labels = some error) :
    labelFault? offset? (labels ++ others) = some error := by
  rw [labelFault?_append, faulty]
  rfl

theorem labelFault?_append_of_none {labels : List Label} (others : List Label)
    (faultless : labelFault? offset? labels = none) :
    labelFault? offset? (labels ++ others) = labelFault? offset? others := by
  rw [labelFault?_append, faultless]
  rfl

/-- Types are resolved: their outlines stay, and their classes are asked for in order. -/
structure ResolvesTypes
    (offset? : Label → Option UInt16)
    (index : ClassIndexer σ)
    (types : List (VerificationType RefType Label))
    (before : σ)
    (resolved : List EncodedType)
    (after : σ) : Prop where
  outlines : resolved.map (VerificationType.outline some) =
    types.map (VerificationType.outline offset?)
  asks : Asks index (types.filterMap VerificationType.operand?) before
    (resolved.filterMap VerificationType.operand?) after

section Types

variable {types others : List (VerificationType RefType Label)} {before between after : σ}
  {resolved more : List EncodedType}

theorem ResolvesTypes.append
    (first : ResolvesTypes offset? index types before resolved between)
    (second : ResolvesTypes offset? index others between more after) :
    ResolvesTypes offset? index (types ++ others) before (resolved ++ more) after where
  outlines := by rw [List.map_append, List.map_append, first.outlines, second.outlines]
  asks := by
    rw [List.filterMap_append, List.filterMap_append]
    exact first.asks.append second.asks

/-- The labels in types with the same outlines have offsets. -/
theorem labelFault?_eq_none_of_outlines
    (outlines : resolved.map (VerificationType.outline some) =
      types.map (VerificationType.outline offset?)) :
    labelFault? offset? (types.filterMap VerificationType.origin?) = none := by
  have origins := congrArg (List.filterMap VerificationType.origin?) outlines
  simp only [List.filterMap_map, Function.comp_def, VerificationType.map_origin?_outline,
    ← List.map_filterMap] at origins
  rw [labelFault?_eq_none_iff]
  intro label present
  have among : offset? label ∈ (types.filterMap VerificationType.origin?).map offset? :=
    List.mem_map_of_mem present
  rw [← origins] at among
  obtain ⟨offset, _, offset_eq⟩ := List.mem_map.mp among
  rw [← offset_eq]
  rfl

/-- The offset of a label is found, and nothing else happens. -/
theorem ends_offsetOf (label : Label) (state : σ) :
    Ends (ExceptT.mk (pure (offsetOf offset? label)) : ExceptT Error (StateM σ) UInt16) state
      (fun offset final => offset? label = some offset ∧ final = state)
      fun error => offset? label = none ∧ error = .unplacedLabel label := by
  cases offset_eq : offset? label with
  | none =>
      have faulty : offsetOf offset? label = .error (.unplacedLabel label) := by
        rw [offsetOf, offset_eq]
      exact ends_of_eq_error faulty ⟨rfl, rfl⟩
  | some offset =>
      have found : offsetOf offset? label = .ok offset := by
        rw [offsetOf, offset_eq]
      exact ends_of_eq_ok found ⟨rfl, rfl⟩

theorem ends_resolveType (type : VerificationType RefType Label) (state : σ) :
    Ends (resolveType offset? index type) state
      (fun resolved final => ResolvesTypes offset? index [type] state [resolved] final)
      fun error =>
        labelFault? offset? ([type].filterMap VerificationType.origin?) = some error := by
  cases type with
  | object operand =>
      have asked : Ends (liftM (index operand) : ExceptT Error (StateM σ) UInt16) state
          (fun answer final => Asks index [operand] state [answer] final) fun _ => False :=
        ends_lift rfl
      exact asked.bind (fun _ impossible => impossible.elim) fun answer final asks =>
        ends_pure ⟨rfl, asks⟩
  | uninitialized label =>
      refine (ends_offsetOf label state).bind ?_ fun offset final found => ?_
      · rintro _ ⟨missing, rfl⟩
        simp [labelFault?, VerificationType.origin?, missing]
      · obtain ⟨offset_eq, rfl⟩ := found
        refine ends_pure ⟨?_, asks_nil⟩
        simp [VerificationType.outline, VerificationType.map, offset_eq]
  | _ => exact ends_pure ⟨rfl, rfl⟩

theorem ends_resolveTypes (types : List (VerificationType RefType Label)) (state : σ) :
    Ends (resolveTypes offset? index types) state
      (fun resolved final => ResolvesTypes offset? index types state resolved final)
      fun error =>
        labelFault? offset? (types.filterMap VerificationType.origin?) = some error := by
  unfold resolveTypes
  induction types generalizing state with
  | nil => exact ends_pure ⟨rfl, rfl⟩
  | cons type rest hypothesis =>
      rw [List.mapM_cons, ← List.singleton_append, List.filterMap_append]
      refine (ends_resolveType type state).bind
        (fun error faulty => labelFault?_append_of_some _ faulty) fun resolved between first => ?_
      have placed := labelFault?_eq_none_of_outlines first.outlines
      refine (hypothesis between).bind
        (fun error faulty => (labelFault?_append_of_none _ placed).trans faulty)
        fun others final second => ?_
      exact ends_pure (first.append second)

end Types

/-! ## Frames -/

/-- A frame is resolved: its outline stays, and its classes are asked for in order. -/
structure ResolvesFrame
    (offset? : Label → Option UInt16)
    (index : ClassIndexer σ)
    (frame : StackMapFrame RefType Label)
    (before : σ)
    (resolved : StackMapFrame UInt16 UInt16)
    (after : σ) : Prop where
  outline : resolved.outline some = frame.outline offset?
  asks : Asks index frame.operands before resolved.operands after

theorem ResolvesFrame.labelFault?_eq_none
    {frame : StackMapFrame RefType Label}
    {before after : σ}
    {resolved : StackMapFrame UInt16 UInt16}
    (resolves : ResolvesFrame offset? index frame before resolved after) :
    labelFault? offset? frame.origins = none := by
  have outlines := congrArg StackMapFrame.types resolves.outline
  rw [StackMapFrame.outline, StackMapFrame.outline, StackMapFrame.types_mapTypes,
    StackMapFrame.types_mapTypes] at outlines
  exact labelFault?_eq_none_of_outlines outlines

theorem ends_resolveFrame (frame : StackMapFrame RefType Label) (state : σ) :
    Ends (resolveFrame offset? index frame) state
      (fun resolved final => ResolvesFrame offset? index frame state resolved final)
      fun error => labelFault? offset? frame.origins = some error := by
  cases frame with
  | same stack =>
      cases stack with
      | none => exact ends_pure ⟨rfl, rfl⟩
      | some type =>
          refine (ends_resolveType type state).bind (fun error faulty => faulty)
            fun resolved final resolves => ends_pure ⟨?_, resolves.asks⟩
          exact congrArg StackMapFrame.same
            (congrArg some (List.singleton_inj.mp resolves.outlines))
  | chop count => exact ends_pure ⟨rfl, rfl⟩
  | append locals =>
      refine (ends_resolveTypes locals state).bind (fun error faulty => faulty)
        fun resolved final resolves => ends_pure ⟨?_, resolves.asks⟩
      exact congrArg StackMapFrame.append resolves.outlines
  | full locals stack =>
      have origins : (StackMapFrame.full locals stack).origins =
          locals.filterMap VerificationType.origin? ++
            stack.filterMap VerificationType.origin? := List.filterMap_append
      rw [origins]
      refine (ends_resolveTypes locals state).bind
        (fun error faulty => labelFault?_append_of_some _ faulty) fun inLocals between first => ?_
      have placed := labelFault?_eq_none_of_outlines first.outlines
      refine (ends_resolveTypes stack between).bind
        (fun error faulty => (labelFault?_append_of_none _ placed).trans faulty)
        fun onStack final second => ends_pure ⟨?_, (first.append second).asks⟩
      simp only [StackMapFrame.outline, StackMapFrame.mapTypes]
      rw [first.outlines, second.outlines]

/-! ## Tables -/

/-- The offsets of frames. -/
def offsets
    (offset? : Label → Option UInt16)
    (frames : List (Label × StackMapFrame RefType Label)) : List UInt16 :=
  frames.filterMap fun frame => offset? frame.1

/-- All labels in the frames have offsets, and those of the frames themselves ascend. -/
structure InOrder
    (offset? : Label → Option UInt16)
    (frames : List (Label × StackMapFrame RefType Label)) : Prop where
  placed : ∀ frame ∈ frames, ∀ label ∈ frame.1 :: frame.2.origins, (offset? label).isSome
  ascending : (offsets offset? frames).Pairwise (· < ·)

/-- A frame does not fit behind a frame with an offset: it has none itself, or one that is not
greater, or else a label in it has none, of which the first one counts. -/
inductive Offends
    (offset? : Label → Option UInt16)
    (previous : Option UInt16)
    (frame : Label × StackMapFrame RefType Label) : Error → Prop
  | unplaced
      (missing : offset? frame.1 = none) :
      Offends offset? previous frame (.unplacedLabel frame.1)
  | conflicting
      {offset : UInt16}
      (found : offset? frame.1 = some offset)
      (same : previous = some offset) :
      Offends offset? previous frame (.conflictingFrames offset)
  | outOfOrder
      {before offset : UInt16}
      (found : offset? frame.1 = some offset)
      (known : previous = some before)
      (less : offset < before) :
      Offends offset? previous frame (.framesOutOfOrder before offset)
  | unresolved
      {offset : UInt16}
      {front back : List Label}
      {label : Label}
      (found : offset? frame.1 = some offset)
      (greater : ∀ before ∈ previous, before < offset)
      (origins : frame.2.origins = front ++ label :: back)
      (placed : ∀ earlier ∈ front, (offset? earlier).isSome)
      (missing : offset? label = none) :
      Offends offset? previous frame (.unplacedLabel label)

/-- The position of a frame behind the position of the one before it. -/
def positionBehind (previous : Option Nat) (encoded : EncodedFrame) : Nat :=
  match previous with
  | none => encoded.offsetDelta.toNat
  | some position => position + encoded.offsetDelta.toNat + 1

/-- The positions to which the distances in a table lead. -/
def positions (table : StackMapTable) : List Nat :=
  table.frames.foldl
    (fun positions encoded => positions ++ [positionBehind positions.getLast? encoded]) []

/-- A table holds the frames in their order. -/
structure Encodes
    (offset? : Label → Option UInt16)
    (index : ClassIndexer σ)
    (frames : List (Label × StackMapFrame RefType Label))
    (before : σ)
    (table : StackMapTable)
    (after : σ) : Prop where
  /-- The distances lead to the offsets of the frames. -/
  positions_eq : table.positions.map some = frames.map fun frame =>
    (offset? frame.1).map UInt16.toNat
  /-- The frames have their shapes, with the offsets of their labels. -/
  outlines_eq : (table.frames.map fun encoded => encoded.frame.outline some) =
    frames.map fun frame => frame.2.outline offset?
  /-- The classes are asked for in the order in which they occur, and the answers stand in
  their places. -/
  asks : Asks index (frames.flatMap fun frame => frame.2.operands) before
    (table.frames.flatMap fun encoded => encoded.frame.operands) after

section Tables

variable {frames : List (Label × StackMapFrame RefType Label)}
  {frame : Label × StackMapFrame RefType Label} {state between final : σ}

theorem mem_offsets_le
    {offset last : UInt16}
    (ascending : (offsets offset? frames).Pairwise (· < ·))
    (isLast : (offsets offset? frames).getLast? = some last)
    (present : offset ∈ offsets offset? frames) :
    offset ≤ last := by
  obtain ⟨front, whole⟩ := List.getLast?_eq_some_iff.mp isLast
  rw [whole] at ascending present
  rcases List.mem_append.mp present with earlier | same
  · exact UInt16.le_of_lt
      ((List.pairwise_append.mp ascending).2.2 offset earlier last (List.mem_singleton.mpr rfl))
  · rw [List.mem_singleton.mp same]
    exact UInt16.le_refl _

theorem offsets_append_cons
    {offset : UInt16}
    (found : offset? frame.1 = some offset)
    (before after : List (Label × StackMapFrame RefType Label)) :
    offsets offset? (before ++ frame :: after) =
      offsets offset? before ++ offset :: offsets offset? after := by
  simp [offsets, found]

/-- A frame with a greater offset and with labels that have offsets fits behind others. -/
theorem InOrder.concat
    {offset : UInt16}
    (inOrder : InOrder offset? frames)
    (found : offset? frame.1 = some offset)
    (greater : ∀ last ∈ (offsets offset? frames).getLast?, last < offset)
    (placed : ∀ label ∈ frame.2.origins, (offset? label).isSome) :
    InOrder offset? (frames ++ [frame]) where
  placed := by
    refine List.forall_mem_append.mpr ⟨inOrder.placed, List.forall_mem_singleton.mpr ?_⟩
    exact List.forall_mem_cons.mpr ⟨by rw [found]; rfl, placed⟩
  ascending := by
    rw [offsets_append_cons found, List.pairwise_append]
    refine ⟨inOrder.ascending, List.pairwise_singleton _ _, fun earlier present later isNew => ?_⟩
    rw [List.mem_singleton.mp isNew]
    cases isLast : (offsets offset? frames).getLast? with
    | none =>
        rw [List.getLast?_eq_none_iff.mp isLast] at present
        cases present
    | some last =>
        exact UInt16.lt_of_le_of_lt (mem_offsets_le inOrder.ascending isLast present)
          (greater last isLast)

theorem positions_concat (frames : List EncodedFrame) (encoded : EncodedFrame) :
    positions ⟨frames ++ [encoded]⟩ =
      positions ⟨frames⟩ ++ [positionBehind (positions ⟨frames⟩).getLast? encoded] := by
  simp [positions, List.foldl_append]

/-- The distance from a smaller offset does not wrap around. -/
theorem positionBehind_sub
    {before offset : UInt16}
    (less : before < offset)
    (frame : StackMapFrame UInt16 UInt16) :
    positionBehind (some before.toNat) ⟨offset - before - 1, frame⟩ = offset.toNat := by
  have less_ := UInt16.lt_iff_toNat_lt.mp less
  have further : (offset - before).toNat = offset.toNat - before.toNat :=
    UInt16.toNat_sub_of_le _ _ (UInt16.le_of_lt less)
  have one : (1 : UInt16) ≤ offset - before := by
    rw [UInt16.le_iff_toNat_le, further]
    exact Nat.sub_pos_of_lt less_
  have distance := UInt16.toNat_sub_of_le _ _ one
  rw [further] at distance
  rw [positionBehind]
  dsimp only
  rw [distance]
  change before.toNat + (offset.toNat - before.toNat - 1) + 1 = offset.toNat
  omega

/-- The distance of a frame leads from the offset before it to its own. -/
theorem ends_offsetDelta
    {previous : Option UInt16}
    {offset : UInt16}
    (found : offset? frame.1 = some offset)
    (state : σ) :
    Ends (ExceptT.mk (pure (offsetDelta previous offset)) : ExceptT Error (StateM σ) UInt16) state
      (fun delta final => final = state ∧ (∀ before ∈ previous, before < offset) ∧
        ∀ resolved, positionBehind (previous.map UInt16.toNat) ⟨delta, resolved⟩ = offset.toNat)
      (Offends offset? previous frame) := by
  cases previous with
  | none =>
      exact ends_of_eq_ok rfl
        ⟨rfl, fun _ absent => absurd absent (Option.not_mem_none _), fun _ => rfl⟩
  | some before =>
      by_cases same : offset = before
      · refine ends_of_eq_error (by rw [offsetDelta]; exact if_pos same) ?_
        exact .conflicting found (congrArg some same.symm)
      · by_cases less : offset < before
        · refine ends_of_eq_error (by rw [offsetDelta]; exact (if_neg same).trans (if_pos less)) ?_
          exact .outOfOrder found rfl less
        · have greater : before < offset :=
            UInt16.lt_of_le_of_ne (UInt16.not_lt.mp less) fun equal => same equal.symm
          refine ends_of_eq_ok
            (by rw [offsetDelta]; exact (if_neg same).trans (if_neg less)) ⟨rfl, ?_, ?_⟩
          · exact fun _ known => Option.some.inj known ▸ greater
          · exact positionBehind_sub greater

theorem offends_of_labelFault?
    {previous : Option UInt16}
    {offset : UInt16}
    {error : Error}
    (found : offset? frame.1 = some offset)
    (greater : ∀ before ∈ previous, before < offset)
    (faulty : labelFault? offset? frame.2.origins = some error) :
    Offends offset? previous frame error := by
  obtain ⟨label, isFirst, rfl⟩ := Option.map_eq_some_iff.mp faulty
  obtain ⟨missing, front, back, origins, placed⟩ := List.find?_eq_some_iff_append.mp isFirst
  refine .unresolved found greater origins (fun earlier present => ?_) (by simpa using missing)
  simpa [Option.isSome_iff_ne_none] using placed earlier present

theorem ends_encodeStep
    (before : Option UInt16 × List EncodedFrame)
    (frame : Label × StackMapFrame RefType Label)
    (state : σ) :
    Ends (encodeStep offset? index before frame) state
      (fun after final => ∃ offset encoded, offset? frame.1 = some offset ∧
        (∀ previous ∈ before.1, previous < offset) ∧ after = (some offset, encoded :: before.2) ∧
        positionBehind (before.1.map UInt16.toNat) encoded = offset.toNat ∧
        ResolvesFrame offset? index frame.2 state encoded.frame final)
      (Offends offset? before.1 frame) := by
  refine (ends_offsetOf frame.1 state).bind ?_ fun offset between found => ?_
  · rintro _ ⟨missing, rfl⟩
    exact .unplaced missing
  · obtain ⟨found, rfl⟩ := found
    refine (ends_offsetDelta found between).bind (fun _ offends => offends)
      fun delta same further => ?_
    obtain ⟨rfl, greater, leads⟩ := further
    refine (ends_resolveFrame frame.2 same).bind
      (fun error faulty => offends_of_labelFault? found greater faulty)
      fun resolved final resolves => ?_
    exact ends_pure ⟨offset, ⟨delta, resolved⟩, found, greater, rfl, leads resolved, resolves⟩

/-- A frame is put behind the others in a table. -/
theorem Encodes.concat
    {encoded : List EncodedFrame}
    {last : EncodedFrame}
    {offset : UInt16}
    (encodes : Encodes offset? index frames state ⟨encoded⟩ between)
    (found : offset? frame.1 = some offset)
    (leads : positionBehind (positions ⟨encoded⟩).getLast? last = offset.toNat)
    (resolves : ResolvesFrame offset? index frame.2 between last.frame final) :
    Encodes offset? index (frames ++ [frame]) state ⟨encoded ++ [last]⟩ final where
  positions_eq := by
    rw [positions_concat, leads, List.map_append, List.map_append, encodes.positions_eq]
    simp [found]
  outlines_eq := by
    rw [List.map_append, List.map_append, encodes.outlines_eq]
    simp [resolves.outline]
  asks := by
    rw [List.flatMap_append, List.flatMap_append, List.flatMap_singleton, List.flatMap_singleton]
    exact encodes.asks.append resolves.asks

/-- The offset of the last frame is the last position of the table. -/
theorem Encodes.getLast?_positions
    {table : StackMapTable}
    (encodes : Encodes offset? index frames state table final) :
    table.positions.getLast? = (offsets offset? frames).getLast?.map UInt16.toNat := by
  have known := congrArg (List.filterMap id) encodes.positions_eq
  have positions_eq : table.positions = (offsets offset? frames).map UInt16.toNat := by
    simpa [List.filterMap_map, Function.comp_def, offsets, List.map_filterMap] using known
  rw [positions_eq, List.getLast?_map]

theorem ends_foldlM_encodeStep
    (frames : List (Label × StackMapFrame RefType Label))
    (state : σ) :
    Ends (frames.foldlM (encodeStep offset? index) (none, [])) state
      (fun after final => InOrder offset? frames ∧
        after.1 = (offsets offset? frames).getLast? ∧
        Encodes offset? index frames state ⟨after.2.reverse⟩ final)
      fun error => ∃ before frame after, frames = before ++ frame :: after ∧
        InOrder offset? before ∧
        Offends offset? (offsets offset? before).getLast? frame error := by
  -- Frames are added behind: the loop knows the offset of the last one, behind which the next
  -- one has to fit.
  induction frames using List.reverseRecOn with
  | nil =>
      exact ends_pure
        ⟨⟨fun _ absent => absurd absent List.not_mem_nil, List.Pairwise.nil⟩, rfl, rfl, rfl, rfl⟩
  | append_singleton frames frame hypothesis =>
      rw [List.foldlM_append]
      refine hypothesis.bind ?_ fun before between known => ?_
      · rintro error ⟨front, faulty, back, rfl, inOrder, offends⟩
        exact ⟨front, faulty, back ++ [frame], by simp, inOrder, offends⟩
      obtain ⟨inOrder, previous_eq, encodes⟩ := known
      rw [List.foldlM_cons]
      refine (ends_encodeStep before frame between).bind (fun error offends => ?_)
        fun after final stepped => ?_
      · exact ⟨frames, frame, [], rfl, inOrder, previous_eq ▸ offends⟩
      obtain ⟨offset, encoded, found, greater, rfl, leads, resolves⟩ := stepped
      rw [previous_eq] at greater leads
      rw [← encodes.getLast?_positions] at leads
      have placed := labelFault?_eq_none_iff.mp resolves.labelFault?_eq_none
      refine ends_pure ⟨inOrder.concat found greater placed, ?_, ?_⟩
      · rw [offsets_append_cons found]
        exact List.getLast?_concat.symm
      · rw [List.reverse_cons]
        exact encodes.concat found leads resolves

/-- The error for frames: there are too many of them, or else one of them is the first that
does not fit behind the frames before it. -/
def IsFirstFault
    (offset? : Label → Option UInt16)
    (frames : List (Label × StackMapFrame RefType Label))
    (error : Error) : Prop :=
  if 65535 < frames.length then error = .tooManyFrames frames.length
  else ∃ before frame after, frames = before ++ frame :: after ∧ InOrder offset? before ∧
    Offends offset? (offsets offset? before).getLast? frame error

theorem Offends.not_inOrder
    {before after : List (Label × StackMapFrame RefType Label)}
    {error : Error}
    (offends : Offends offset? (offsets offset? before).getLast? frame error) :
    ¬InOrder offset? (before ++ frame :: after) := by
  intro inOrder
  have placed := inOrder.placed frame (List.mem_append_right _ List.mem_cons_self)
  have greater : ∀ {offset last : UInt16}, offset? frame.1 = some offset →
      (offsets offset? before).getLast? = some last → last < offset := by
    intro offset last found isLast
    have ascending := inOrder.ascending
    rw [offsets_append_cons found] at ascending
    exact (List.pairwise_append.mp ascending).2.2 last (List.mem_of_getLast? isLast) offset
      List.mem_cons_self
  cases offends with
  | unplaced missing =>
      have here := placed frame.1 List.mem_cons_self
      rw [missing] at here
      cases here
  | conflicting found same => exact UInt16.lt_irrefl _ (greater found same)
  | outOfOrder found known less => exact UInt16.lt_asymm less (greater found known)
  | unresolved found greater origins _ missing =>
      have here := placed _ (List.mem_cons_of_mem _
        (origins ▸ List.mem_append_right _ List.mem_cons_self))
      rw [missing] at here
      cases here

theorem IsFirstFault.not_inOrder
    {error : Error}
    (isFirst : IsFirstFault offset? frames error)
    (few : frames.length ≤ 65535) :
    ¬InOrder offset? frames := by
  rw [IsFirstFault, if_neg (Nat.not_lt.mpr few)] at isFirst
  obtain ⟨before, frame, after, rfl, _, offends⟩ := isFirst
  exact offends.not_inOrder

theorem ends_ofFrames
    (frames : List (Label × StackMapFrame RefType Label))
    (offset? : Label → Option UInt16)
    (index : ClassIndexer σ)
    (state : σ) :
    Ends (ofFrames frames offset? index) state
      (fun table final => frames.length ≤ 65535 ∧ InOrder offset? frames ∧
        Encodes offset? index frames state table final)
      (IsFirstFault offset? frames) := by
  unfold ofFrames
  split
  · rename_i many
    change IsFirstFault offset? frames _
    rw [IsFirstFault, if_pos many]
  · rename_i few
    refine (ends_foldlM_encodeStep frames state).bind (fun error faulty => ?_)
      fun after final known => ?_
    · rw [IsFirstFault, if_neg few]
      exact faulty
    · exact ends_pure ⟨Nat.not_lt.mp few, known.1, known.2.2⟩

/-- The frames make up a table unless there are too many of them. -/
theorem ofFrames_eq
    (placed : ∀ frame ∈ frames, (offset? frame.1).isSome ∧
      ∀ label ∈ frame.2.origins, (offset? label).isSome)
    (ascending : frames.Pairwise fun earlier later => ∀ offset other,
      offset? earlier.1 = some offset → offset? later.1 = some other → offset < other)
    (state : σ) :
    if 65535 < frames.length then
      (ofFrames frames offset? index).run.run state =
        (.error (.tooManyFrames frames.length), state)
    else ∃ table final, (ofFrames frames offset? index).run.run state = (.ok table, final) := by
  split
  · rename_i many
    rw [ofFrames, if_pos many]
    rfl
  · rename_i few
    have inOrder : InOrder offset? frames :=
      ⟨fun frame present => List.forall_mem_cons.mpr (placed frame present),
        List.pairwise_filterMap.mpr (ascending.imp fun less offset found other later =>
          less offset other found later)⟩
    exact (ends_ofFrames frames offset? index state).exists_run fun error isFirst =>
      isFirst.not_inOrder (Nat.not_lt.mp few) inOrder

/-- A table is made exactly of at most 65535 frames that are in order, and it holds them: the
distances lead back to the offsets, so none of them has wrapped around. What fails does so with
the error for the first frame that does not fit. -/
theorem run_ofFrames
    (frames : List (Label × StackMapFrame RefType Label))
    (offset? : Label → Option UInt16)
    (index : ClassIndexer σ)
    (state : σ) :
    ((∃ table final, (ofFrames frames offset? index).run.run state = (.ok table, final)) ↔
      frames.length ≤ 65535 ∧ InOrder offset? frames) ∧
    match (ofFrames frames offset? index).run.run state with
    | (.ok table, final) => Encodes offset? index frames state table final
    | (.error error, _) => IsFirstFault offset? frames error := by
  have ends := ends_ofFrames frames offset? index state
  refine ⟨⟨?_, fun ⟨few, inOrder⟩ => ?_⟩, ?_⟩
  · rintro ⟨table, final, run_eq⟩
    rw [Ends, run_eq] at ends
    exact ⟨ends.1, ends.2.1⟩
  · exact ends.exists_run fun error isFirst => isFirst.not_inOrder few inOrder
  · unfold Ends at ends
    split
    · rename_i run_eq
      rw [run_eq] at ends
      exact ends.2.2
    · rename_i run_eq
      rw [run_eq] at ends
      exact ends

end Tables

end StackMapTable
end StackMaps
