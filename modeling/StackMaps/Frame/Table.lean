import StackMaps.Error
import StackMaps.Frame.Basic

/-!
# Stack map tables

A table gives every frame by its offset in the code, coded as the distance from
the frame before it, and its classes by their indices in a constant pool. Frames
must have strictly increasing offsets.
-/

namespace StackMaps

/-- A type with an index for its class and an offset for its allocation. -/
abbrev EncodedType := VerificationType UInt16 UInt16

/-- A frame of a table. All but the first one stand one byte further than the
distance says. -/
structure EncodedFrame where
  offsetDelta : UInt16
  frame : StackMapFrame UInt16 UInt16
  deriving DecidableEq

/-- The frames of a body in order. -/
structure StackMapTable where
  frames : List EncodedFrame
  deriving DecidableEq

/-- Gives indices to classes and remembers them in a state. -/
abbrev ClassIndexer (σ : Type) := RefType → StateM σ UInt16

namespace StackMapTable

variable {σ : Type}

/-- The offset of a label. -/
def offsetOf
    (offset? : Label → Option UInt16)
    (label : Label) : Except Error UInt16 :=
  match offset? label with
  | some offset => .ok offset
  | none => .error (.unplacedLabel label)

/-- Resolve the class or the label in a type. -/
def resolveType
    (offset? : Label → Option UInt16)
    (index : ClassIndexer σ)
    (type : VerificationType RefType Label) : ExceptT Error (StateM σ) EncodedType :=
  match type with
  | .top => pure .top
  | .integer => pure .integer
  | .float => pure .float
  | .double => pure .double
  | .long => pure .long
  | .null => pure .null
  | .uninitializedThis => pure .uninitializedThis
  | .object type => do
      let position ← (index type : StateM σ UInt16)
      pure (.object position)
  | .uninitialized label => do
      let offset ← ExceptT.mk (pure (offsetOf offset? label))
      pure (.uninitialized offset)

/-- Resolve types in order. -/
def resolveTypes
    (offset? : Label → Option UInt16)
    (index : ClassIndexer σ)
    (types : List (VerificationType RefType Label)) :
    ExceptT Error (StateM σ) (List EncodedType) :=
  types.mapM (resolveType offset? index)

/-- Resolve the types of a frame, the locals before the stack. -/
def resolveFrame
    (offset? : Label → Option UInt16)
    (index : ClassIndexer σ)
    (frame : StackMapFrame RefType Label) :
    ExceptT Error (StateM σ) (StackMapFrame UInt16 UInt16) :=
  match frame with
  | .same none => pure (.same none)
  | .same (some type) => do
      let stack ← resolveType offset? index type
      pure (.same (some stack))
  | .chop count => pure (.chop count)
  | .append locals => do
      let locals ← resolveTypes offset? index locals
      pure (.append locals)
  | .full locals stack => do
      let locals ← resolveTypes offset? index locals
      let stack ← resolveTypes offset? index stack
      pure (.full locals stack)

/-- The distance of a frame from the one before it. -/
def offsetDelta (previous : Option UInt16) (offset : UInt16) : Except Error UInt16 :=
  match previous with
  | none => .ok offset
  | some previous =>
      if offset = previous then .error (.conflictingFrames offset)
      else if offset < previous then .error (.framesOutOfOrder previous offset)
      else .ok (offset - previous - 1)

/-- Encode the next frame. The state holds the offset of the one before it and the
encoded frames, the latest first. -/
def encodeStep
    (offset? : Label → Option UInt16)
    (index : ClassIndexer σ)
    (state : Option UInt16 × List EncodedFrame)
    (entry : Label × StackMapFrame RefType Label) :
    ExceptT Error (StateM σ) (Option UInt16 × List EncodedFrame) := do
  let offset ← ExceptT.mk (pure (offsetOf offset? entry.1))
  let delta ← ExceptT.mk (pure (offsetDelta state.1 offset))
  let frame ← resolveFrame offset? index entry.2
  pure (some offset, ⟨delta, frame⟩ :: state.2)

/-- Encode the frames of a body. -/
def ofFrames
    (frames : List (Label × StackMapFrame RefType Label))
    (offset? : Label → Option UInt16)
    (index : ClassIndexer σ) : ExceptT Error (StateM σ) StackMapTable :=
  if 65535 < frames.length then
    throw (.tooManyFrames frames.length)
  else do
    let (_, encoded) ← frames.foldlM (encodeStep offset? index) (none, [])
    pure ⟨encoded.reverse⟩

end StackMapTable

/-- The classes of a table in the order of their first use, with the index of the
first of them. -/
structure ClassPool where
  first : UInt16
  classes : List RefType

/-- The index of a class, which joins the pool on its first use. -/
def ClassPool.index : ClassIndexer ClassPool := fun type pool =>
  match pool.classes.idxOf? type with
  | some position => (pool.first + UInt16.ofNat position, pool)
  | none =>
      (pool.first + UInt16.ofNat pool.classes.length,
        { pool with classes := pool.classes ++ [type] })

end StackMaps
